import HakoniwaCorePro.YamlLayout

/-!
# Reformatted manifests

A manifest without its comments and blank lines, and with other indentations in the same order, is read
as the same document, and one that cannot be read stays so.
-/

namespace HakoniwaCorePro
namespace BuildManifest

open Launch (Text lit)

/-- The line, its `n` leading blanks replaced by `f n`. -/
def reindent (f : ℕ → ℕ) (raw : Text) : Text :=
  List.replicate (f (raw.takeWhile (· = 32)).length) 32 ++ raw.dropWhile (· = 32)

/-- Only what a line says is kept. -/
def notable (raw : Text) : Bool :=
  match lineEntry [] 0 raw with
  | .ok none => false
  | _ => true

def tidyLines (f : ℕ → ℕ) (lines : List Text) : List Text := (lines.filter notable).map (reindent f)

def tidy (f : ℕ → ℕ) (text : Text) : Text := unlines (tidyLines f (splitlines text))

theorem notable_eq_false_iff {raw : Text} : notable raw = false ↔ Blank raw := by
  unfold notable Blank
  split <;> simp_all

theorem rstrip_indent (k : ℕ) (s : Text) :
    rstrip (List.replicate k 32 ++ s) =
      if rstrip s = [] then [] else List.replicate k 32 ++ rstrip s := by
  by_cases hs : rstrip s = []
  · rw [if_pos hs]
    have hall : ∀ c ∈ s, isSpace c = true := List.rdropWhile_eq_nil_iff.mp hs
    refine List.rdropWhile_eq_nil_iff.mpr fun c hc => ?_
    rcases List.mem_append.mp hc with hc | hc
    · rw [(List.mem_replicate.mp hc).2]
      decide
    · exact hall c hc
  · rw [if_neg hs]
    obtain ⟨c, hc, hvisible⟩ : ∃ c ∈ s, isSpace c = false := by
      by_contra hnone
      refine hs (List.rdropWhile_eq_nil_iff.mpr fun c hc => ?_)
      by_contra hspace
      exact hnone ⟨c, hc, by simpa using hspace⟩
    obtain ⟨a, b, rfl⟩ := List.append_of_mem hc
    rw [rstrip_append hvisible, ← List.append_assoc, rstrip_append hvisible, List.append_assoc]

theorem strip_indent (k : ℕ) (s : Text) : strip (List.replicate k 32 ++ s) = strip s := by
  unfold strip
  rw [dropWhile_indent (by decide)]

theorem uncommented_head (quote : Option ℕ) (escaped : Bool) (s : Text) :
    uncommented quote escaped s = [] ∨ (uncommented quote escaped s).head? = s.head? := by
  cases s with
  | nil => exact Or.inl (by simp [uncommented])
  | cons c s =>
    cases escaped with
    | true => exact Or.inr rfl
    | false =>
      simp only [uncommented]
      split
      · exact Or.inr rfl
      · split
        · exact Or.inr rfl
        · split
          · exact Or.inl rfl
          · exact Or.inr rfl

theorem stripComment_head (s : Text) : stripComment s = [] ∨ (stripComment s).head? = s.head? := by
  have hprefix : stripComment s <+: uncommented none false s := List.rdropWhile_prefix _ _
  rcases uncommented_head none false s with hnil | hhead
  · left
    rw [hnil] at hprefix
    exact List.prefix_nil.mp hprefix
  · by_cases hs : stripComment s = []
    · exact Or.inl hs
    · right
      rw [← hhead]
      obtain ⟨t, ht⟩ := hprefix
      rw [← ht, List.head?_append_of_ne_nil _ hs]

theorem lineEntry_indent (path : Text) (lineno k : ℕ) {s : Text} (hs : s.head? ≠ some 32) :
    lineEntry path lineno (List.replicate k 32 ++ s) =
      (lineEntry path lineno s).map (Option.map fun e => (k, e.2)) := by
  have htab : 9 ∈ List.replicate k 32 ++ s ↔ 9 ∈ s := by simp [List.mem_replicate]
  have hcomment : stripComment (List.replicate k 32 ++ s) =
      if stripComment s = [] then [] else List.replicate k 32 ++ stripComment s := by
    have hplain : ∀ c ∈ List.replicate k 32, c ≠ 34 ∧ c ≠ 35 ∧ c ≠ 39 := by
      intro c hc
      rw [(List.mem_replicate.mp hc).2]
      decide
    unfold stripComment
    rw [uncommented_plain hplain, rstrip_indent]
  unfold lineEntry
  simp only [htab, hcomment]
  by_cases ht : 9 ∈ s
  · simp [ht, Except.map]
  · rw [if_neg ht, if_neg ht]
    by_cases hnil : stripComment s = []
    · simp [hnil, strip, rstrip, Except.map]
    · have hhead := (stripComment_head s).resolve_left hnil
      have hdrop : (stripComment s).dropWhile (· = 32) = stripComment s := by
        obtain ⟨c, t, hct⟩ := List.exists_cons_of_ne_nil hnil
        rw [hct, List.dropWhile_cons_of_neg]
        rw [hct, List.head?_cons] at hhead
        have hne : c ≠ 32 := by
          rintro rfl
          exact hs hhead.symm
        simpa using hne
      simp only [if_neg hnil, strip_indent, dropWhile_indent (p := (· = 32)) (by decide), hdrop,
        List.length_append, List.length_replicate, Nat.sub_self, Nat.add_sub_cancel_right]
      split
      · rfl
      · split
        · rfl
        · split
          · rfl
          · split
            · rfl
            · rfl

theorem lineEntry_reindent (path : Text) (lineno : ℕ) (f : ℕ → ℕ) (raw : Text) :
    lineEntry path lineno (reindent f raw) =
      (lineEntry path lineno raw).map (Option.map fun e => (f e.1, e.2)) := by
  have hblanks : raw.takeWhile (· = 32) = List.replicate (raw.takeWhile (· = 32)).length 32 := by
    refine List.eq_replicate_iff.mpr ⟨rfl, fun c hc => ?_⟩
    simpa using List.mem_takeWhile_imp hc
  have hhead : (raw.dropWhile (· = 32)).head? ≠ some 32 := by
    intro h
    have hnot := List.head?_dropWhile_not (fun c : ℕ => decide (c = 32)) raw
    rw [h] at hnot
    simp at hnot
  have hsplit : lineEntry path lineno raw = lineEntry path lineno
      (List.replicate (raw.takeWhile (· = 32)).length 32 ++ raw.dropWhile (· = 32)) := by
    rw [← hblanks, List.takeWhile_append_dropWhile]
  rw [hsplit, reindent, lineEntry_indent path lineno _ hhead, lineEntry_indent path lineno _ hhead]
  cases lineEntry path lineno (raw.dropWhile (· = 32)) with
  | error e => rfl
  | ok r => cases r <;> rfl

section

variable {py : Python} {f : ℕ → ℕ} {raw key : Text} {n : ℕ} {value : Yaml}

theorem blank_reindent_iff : Blank (reindent f raw) ↔ Blank raw := by
  unfold Blank
  rw [lineEntry_reindent]
  cases lineEntry [] 0 raw with
  | error e => simp [Except.map]
  | ok r => cases r <;> simp [Except.map]

theorem Item.reindent (h : Item py raw n key value) :
    Item py (reindent f raw) (f n) key value := by
  obtain ⟨rawValue, hline, hvalue⟩ := h
  refine ⟨rawValue, ?_, hvalue⟩
  rw [lineEntry_reindent, hline]
  rfl

theorem Item.of_reindent {m : ℕ} (h : Item py (BuildManifest.reindent f raw) m key value) :
    ∃ n, Item py raw n key value := by
  obtain ⟨rawValue, hline, hvalue⟩ := h
  rw [lineEntry_reindent] at hline
  cases hraw : lineEntry [] 0 raw with
  | error e =>
    rw [hraw] at hline
    cases hline
  | ok r =>
    rw [hraw] at hline
    cases r with
    | none => cases hline
    | some e =>
      obtain ⟨n, k, v⟩ := e
      cases hline
      exact ⟨n, rawValue, hraw, hvalue⟩

/-- The indentation of a key, or `-1` for the root. -/
def lifted (f : ℕ → ℕ) (z : ℤ) : ℤ := if z < 0 then z else f z.toNat

theorem lifted_nat (f : ℕ → ℕ) (n : ℕ) : lifted f n = f n := by
  rw [lifted, if_neg (by omega), Int.toNat_natCast]

theorem lifted_lt_iff (hf : StrictMono f) (z : ℤ) (n : ℕ) : lifted f z < f n ↔ z < n := by
  unfold lifted
  split
  · omega
  · next hz =>
    obtain ⟨m, rfl⟩ := Int.eq_ofNat_of_zero_le (by omega : 0 ≤ z)
    rw [Int.toNat_natCast, Int.ofNat_lt, Int.ofNat_lt]
    exact hf.lt_iff_lt

theorem le_lifted_iff (hf : StrictMono f) (z : ℤ) (n : ℕ) : (f n : ℤ) ≤ lifted f z ↔ (n : ℤ) ≤ z := by
  rw [← not_lt, ← not_lt, lifted_lt_iff hf]

theorem fits_lifted_iff (hf : StrictMono f) (parent : ℤ) (bound : Option ℤ) (n : ℕ) :
    Fits (lifted f parent) (bound.map (lifted f)) (f n) ↔ Fits parent bound n := by
  unfold Fits
  rw [lifted_lt_iff hf]
  cases bound with
  | none => simp
  | some z => simp [le_lifted_iff hf]

theorem tidyLines_blank (hraw : Blank raw) (lines : List Text) :
    tidyLines f (raw :: lines) = tidyLines f lines := by
  rw [tidyLines, List.filter_cons_of_neg (by simp [notable_eq_false_iff.mpr hraw])]
  rfl

theorem tidyLines_line (hraw : ¬ Blank raw) (lines : List Text) :
    tidyLines f (raw :: lines) = reindent f raw :: tidyLines f lines := by
  have hnotable : notable raw = true := by
    by_contra h
    exact hraw (notable_eq_false_iff.mp (by simpa using h))
  rw [tidyLines, List.filter_cons_of_pos hnotable]
  rfl

theorem tidyLines_append (xs ys : List Text) :
    tidyLines f (xs ++ ys) = tidyLines f xs ++ tidyLines f ys := by
  simp [tidyLines]

theorem tidyLines_eq_append {lines xs ys : List Text} (h : tidyLines f lines = xs ++ ys) :
    ∃ as bs, lines = as ++ bs ∧ tidyLines f as = xs ∧ tidyLines f bs = ys := by
  obtain ⟨us, vs, hfilter, rfl, rfl⟩ := List.map_eq_append_iff.mp h
  obtain ⟨as, bs, rfl, rfl, rfl⟩ := List.filter_eq_append_iff.mp hfilter
  exact ⟨as, bs, rfl, rfl, rfl⟩

theorem layout_tidyLines_iff (hf : StrictMono f) (lines : List Text) (parent : ℤ) (bound : Option ℤ)
    (es : Entries) : Layout py (lifted f parent) (bound.map (lifted f)) es (tidyLines f lines) ↔
      Layout py parent bound es lines := by
  induction hn : lines.length using Nat.strong_induction_on generalizing lines parent bound es with
  | _ len ih =>
    subst hn
    cases lines with
    | nil => exact Layout.nil_iff.trans Layout.nil_iff.symm
    | cons raw lines =>
      by_cases hblank : Blank raw
      · rw [tidyLines_blank hblank, Layout.blank_iff hblank]
        exact ih lines.length (by simp) lines parent bound es rfl
      rw [tidyLines_line hblank]
      by_cases hitem : ∃ n key value, Item py raw n key value
      · obtain ⟨n, key, value, hraw⟩ := hitem
        by_cases hplain : ∀ sub, value ≠ .map sub
        · rw [Layout.single_iff hraw.reindent hplain, Layout.single_iff hraw hplain, fits_lifted_iff hf]
          have hrest : ∀ rest, Layout py (lifted f parent) none rest (tidyLines f lines) ↔
              Layout py parent none rest lines := fun rest =>
            ih lines.length (by simp) lines parent none rest rfl
          simp only [hrest]
        · obtain ⟨sub, rfl⟩ := not_forall_not.mp hplain
          obtain rfl : sub = [] := hraw.map_empty
          rw [Layout.mapping_iff hraw.reindent, Layout.mapping_iff hraw, fits_lifted_iff hf]
          refine and_congr_right fun _ => ?_
          have hpart : ∀ xs ys sub rest, lines = xs ++ ys →
              (Layout py (f n) none sub (tidyLines f xs) ∧
                Layout py (lifted f parent) (some (f n : ℤ)) rest (tidyLines f ys) ↔
              Layout py n none sub xs ∧ Layout py parent (some (n : ℤ)) rest ys) := by
            rintro xs ys sub rest rfl
            have hlength : (raw :: (xs ++ ys)).length = xs.length + ys.length + 1 := by
              rw [List.length_cons, List.length_append]
            have hsub := ih xs.length (by omega) xs n none sub rfl
            have hrest := ih ys.length (by omega) ys parent (some (n : ℤ)) rest rfl
            rw [Option.map_none, lifted_nat] at hsub
            rw [Option.map_some, lifted_nat] at hrest
            exact and_congr hsub hrest
          constructor
          · rintro ⟨sub, rest, xs, ys, rfl, hsplit, hnew, hlayout⟩
            obtain ⟨as, bs, hlines, rfl, rfl⟩ := tidyLines_eq_append hsplit
            exact ⟨sub, rest, as, bs, rfl, hlines, hnew, (hpart as bs sub rest hlines).mp hlayout⟩
          · rintro ⟨sub, rest, xs, ys, rfl, hlines, hnew, hlayout⟩
            exact ⟨sub, rest, _, _, rfl, hlines ▸ tidyLines_append xs ys, hnew,
              (hpart xs ys sub rest hlines).mpr hlayout⟩
      · refine iff_of_false (fun h => ?_) fun h => h.first_line.elim hblank hitem
        rcases h.first_line with hb | ⟨m, key, value, hm⟩
        · exact hblank (blank_reindent_iff.mp hb)
        · obtain ⟨n, hn⟩ := hm.of_reindent
          exact hitem ⟨n, key, value, hn⟩

end

theorem splitlinesFrom_unbroken {line text : Text} (hline : ∀ c ∈ line, isLineBreak c = false) :
    ∀ l ∈ splitlinesFrom line text, ∀ c ∈ l, isLineBreak c = false := by
  induction line, text using splitlinesFrom.induct with
  | case1 => simp [splitlinesFrom]
  | case2 line hne =>
    rw [splitlinesFrom, if_neg hne]
    simpa using hline
  | case3 line rest ih =>
    rw [splitlinesFrom]
    intro l hl
    rcases List.mem_cons.mp hl with rfl | hl
    · exact hline
    · exact ih (by simp) l hl
  | case4 line c rest hreturn hc ih =>
    rw [splitlinesFrom, if_pos hc]
    · intro l hl
      rcases List.mem_cons.mp hl with rfl | hl
      · exact hline
      · exact ih (by simp) l hl
    · exact hreturn
  | case5 line c rest hreturn hc ih =>
    rw [splitlinesFrom, if_neg hc]
    · refine ih fun x hx => ?_
      rcases List.mem_append.mp hx with hx | hx
      · exact hline x hx
      · rw [List.mem_singleton.mp hx]
        simpa using hc
    · exact hreturn

theorem reindent_unbroken {f : ℕ → ℕ} {raw : Text} (h : ∀ c ∈ raw, isLineBreak c = false) :
    ∀ c ∈ reindent f raw, isLineBreak c = false := by
  intro c hc
  rcases List.mem_append.mp hc with hc | hc
  · rw [(List.mem_replicate.mp hc).2]
    decide
  · exact h c ((List.dropWhile_sublist _).subset hc)

theorem splitlines_tidy (f : ℕ → ℕ) (text : Text) :
    splitlines (tidy f text) = tidyLines f (splitlines text) := by
  have hlines : ∀ l ∈ tidyLines f (splitlines text), ∀ c ∈ l, isLineBreak c = false := by
    intro l hl
    obtain ⟨raw, hraw, rfl⟩ := List.mem_map.mp hl
    exact reindent_unbroken
      (splitlinesFrom_unbroken (by simp) raw (List.mem_filter.mp hraw).1)
  have hsplit := splitlines_unlines hlines []
  rw [List.append_nil] at hsplit
  exact hsplit.trans (List.append_nil _)

/-- Without its comments and blank lines, and indented otherwise in the same order, a manifest is read
as the same document, and one that cannot be read is not made readable. -/
theorem tidy_reads_same (py : Python) (path : Text) {f : ℕ → ℕ} (hf : StrictMono f) (text : Text)
    (doc : Entries) :
    loadSimpleYaml py path (tidy f text) = .ok doc ↔ loadSimpleYaml py path text = .ok doc := by
  rw [loadSimpleYaml_ok_iff_layout, loadSimpleYaml_ok_iff_layout, splitlines_tidy]
  exact layout_tidyLines_iff hf (splitlines text) (-1) none doc

theorem tidy_reads_same_doubled :
    loadSimpleYaml ⟨none, fun _ => none⟩ (lit "m") (lit "limits:\n    a: 1\n") =
      .ok [(lit "limits", .map [(lit "a", .int 1)])] :=
  (tidy_reads_same ⟨none, fun _ => none⟩ (lit "m")
    (show StrictMono fun n : ℕ => 2 * n from fun _ _ h => Nat.mul_lt_mul_of_pos_left h Nat.two_pos)
    (lit "# sizes\nlimits:\n\n  a: 1\n") _).mpr rfl

end BuildManifest
end HakoniwaCorePro
