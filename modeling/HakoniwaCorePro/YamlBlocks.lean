import HakoniwaCorePro.SimpleYaml

/-!
# Manifests of two levels

A file of items and of sections of items, each on a line of its own, is read back item by item if its
keys are different and its values can be read.
-/

namespace HakoniwaCorePro
namespace BuildManifest

open Launch (Text lit)

theorem parseScalar_header (py : Python) : parseScalar py (stripComment []) = .ok (.map []) := rfl

theorem parseScalar_bool (py : Python) (b : Bool) :
    parseScalar py (stripComment (lit (if b then " true" else " false"))) = .ok (.bool b) := by
  cases b <;> rfl

theorem lower_ne {c : ℕ} (hc : c < 65) (s : Text) {w : Text} (hw : ∀ x, w.head? = some x → 65 ≤ x) :
    lower (c :: s) ≠ w := by
  intro he
  have hhead : w.head? = some c := by
    rw [← he]
    simp only [lower, List.map_cons, List.head?_cons, Option.some.injEq]
    exact if_neg (by omega)
  have hlarge := hw c hhead
  omega

section Quoted

open JsonString

theorem uncommented_quote (s rest : Text) :
    uncommented none false (32 :: 34 :: (escaped s ++ rest)) =
      32 :: 34 :: (escaped s ++ uncommented (some 34) false rest) := by
  rw [← uncommented_escaped]
  rfl

theorem stripComment_quoted (s : Text) : stripComment (32 :: quoted s) = 32 :: quoted s := by
  unfold stripComment quoted
  rw [uncommented_quote]
  exact rstrip_append (c := 34) (by decide) (32 :: 34 :: escaped s) []

theorem parseScalar_quote_ok_iff (py : Python) {text q : Text} {value : Yaml} (h : strip text = 34 :: q) :
    parseScalar py text = .ok value ↔ (q ≠ [] ∧ (34 :: q).getLast? = some 34) ∧
      ∃ s, decode (34 :: q) = some s ∧ value = .str s := by
  have hword : ∀ w : Text, (∀ x, w.head? = some x → 65 ≤ x) → lower (34 :: q) ≠ w := by
    intro w hw
    exact lower_ne (by decide) q hw
  have hlength : (34 :: q).length < 2 ↔ q = [] := by
    cases q <;> simp
  unfold parseScalar
  rw [h]
  simp only [hlength, List.head?_cons]
  rw [if_neg (List.cons_ne_nil 34 q), if_neg (hword _ (by decide)), if_neg (hword _ (by decide)),
    if_neg (not_or.mpr ⟨hword _ (by decide), hword _ (by decide)⟩), if_pos (Or.inl trivial)]
  by_cases hclosed : q ≠ [] ∧ (34 :: q).getLast? = some 34
  · rw [if_neg (by simp [hclosed])]
    cases decode (34 :: q) with
    | none => simp
    | some s => simp [hclosed, eq_comm]
  · have hopen : q = [] ∨ (34 :: q).getLast? ≠ some 34 := by
      by_contra hboth
      exact hclosed (by simpa using hboth)
    rw [if_pos hopen]
    simp [hclosed]

theorem parseScalar_quoted (py : Python) (s : Text) :
    parseScalar py (stripComment (32 :: quoted s)) = .ok (.str s) := by
  have hstrip : strip (32 :: quoted s) = quoted s := rstrip_append (c := 34) (by decide) (34 :: escaped s) []
  have hlast : (34 :: (escaped s ++ [34])).getLast? = some 34 := List.getLast?_concat (l := 34 :: escaped s)
  rw [stripComment_quoted, parseScalar_quote_ok_iff py hstrip]
  exact ⟨⟨by simp, hlast⟩, s, decode_quoted s, rfl⟩

theorem parseScalar_cut (py : Python) (s : Text) (value : Yaml) :
    parseScalar py (stripComment (32 :: 34 :: escaped s)) ≠ .ok value := by
  have hcomment : stripComment (32 :: 34 :: escaped s) = 32 :: 34 :: rstrip (escaped s) := by
    have huncommented := uncommented_quote s []
    rw [List.append_nil] at huncommented
    unfold stripComment
    rw [huncommented]
    change rstrip ([32] ++ 34 :: (escaped s ++ [])) = _
    rw [List.append_nil, rstrip_append (by decide)]
    rfl
  have hstrip : strip (32 :: 34 :: rstrip (escaped s)) = 34 :: rstrip (rstrip (escaped s)) :=
    rstrip_append (c := 34) (by decide) [] _
  have hcut : rstrip (rstrip (escaped s)) <+: escaped s :=
    (List.rdropWhile_prefix _ _).trans (List.rdropWhile_prefix _ _)
  have hdecode : decode (34 :: rstrip (rstrip (escaped s))) = none := by
    rw [decode, scan_cut hcut]
    rfl
  rw [hcomment, ne_eq, parseScalar_quote_ok_iff py hstrip, hdecode]
  simp

end Quoted

theorem strNat_digit {n c : ℕ} (h : c ∈ strNat n) : 48 ≤ c ∧ c ≤ 57 := by
  obtain ⟨d, hd, rfl⟩ := List.mem_map.mp h
  have hdigit := Nat.isDigit_of_mem_toDigits (by decide) (by decide) hd
  simp only [Char.isDigit, Bool.and_eq_true, decide_eq_true_eq, ge_iff_le, UInt32.le_iff_toNat_le] at hdigit
  exact hdigit

theorem isSpace_digit {c : ℕ} (h : 48 ≤ c ∧ c ≤ 57) : isSpace c = false := by
  unfold isSpace
  rw [decide_eq_false_iff_not]
  omega

theorem strNat_ne_nil (n : ℕ) : strNat n ≠ [] := by simp [strNat, Nat.toDigits_ne_nil]

theorem length_strNat (n : ℕ) : (strNat n).length = (Nat.toDigits 10 n).length := List.length_map _

theorem digits_ascii (py : Python) {s : Text} (hne : s ≠ []) (h : ∀ c ∈ s, 48 ≤ c ∧ c ≤ 57) :
    py.digits s = some (s.map (· - 48)) := by
  induction s with
  | nil => exact absurd rfl hne
  | cons c s ih =>
    have hc := h c List.mem_cons_self
    have hdigit : py.digit c = some (c - 48) := by
      unfold Python.digit
      rw [if_pos (by omega), if_pos hc]
    rw [Python.digits, hdigit]
    cases s with
    | nil => rfl
    | cons x s =>
      have hx := h x (by simp)
      have hrest := ih (List.cons_ne_nil x s) fun y hy => h y (List.mem_cons_of_mem c hy)
      simp only
      split
      · next heq => cases heq
      · next heq =>
        cases heq
        omega
      · rw [hrest]
        rfl

theorem foldl_strNat (n : ℕ) : ((strNat n).map (· - 48)).foldl (fun n d => 10 * n + d) 0 = n := by
  have hdigits := Nat.ofDigitChars_ten_toDigits (n := n)
  rw [Nat.ofDigitChars_eq_foldl] at hdigits
  rw [strNat, List.map_map, List.foldl_map]
  exact hdigits

theorem nat_strNat {py : Python} {n : ℕ} (h : py.converts (strNat n).length = true) :
    py.nat (strNat n) = some n := by
  unfold Python.nat
  rw [digits_ascii py (strNat_ne_nil n) fun c hc => strNat_digit hc]
  simp only [List.length_map, h, if_true, foldl_strNat]

theorem stripComment_digits {s : Text} (hne : s ≠ []) (h : ∀ c ∈ s, 48 ≤ c ∧ c ≤ 57) :
    stripComment (32 :: s) = 32 :: s := by
  have hplain : ∀ x ∈ 32 :: s, x ≠ 34 ∧ x ≠ 35 ∧ x ≠ 39 := by
    intro x hx
    rcases List.mem_cons.mp hx with rfl | hx
    · decide
    · have hrange := h x hx
      omega
  have huncommented := uncommented_plain hplain []
  rw [List.append_nil, uncommented, List.append_nil] at huncommented
  unfold stripComment
  rw [huncommented]
  exact rstrip_visible [32] hne fun c hc => isSpace_digit (h c hc)

theorem int_digits {py : Python} {c : ℕ} (hc : 48 ≤ c ∧ c ≤ 57) (s : Text) :
    py.int (c :: s) = (py.nat (c :: s)).map fun n : ℕ => (n : ℤ) := by
  rw [Python.int]
  · intro text he
    cases he
    omega
  · intro text he
    cases he
    omega

theorem parseScalar_nat {py : Python} {n : ℕ} (h : py.converts (strNat n).length = true) :
    parseScalar py (stripComment (32 :: strNat n)) = .ok (.int n) := by
  have hnat := nat_strNat h
  have hdigits : ∀ c ∈ strNat n, 48 ≤ c ∧ c ≤ 57 := fun c hc => strNat_digit hc
  have hcomment := stripComment_digits (strNat_ne_nil n) hdigits
  have hstrip : strip (32 :: strNat n) = strNat n :=
    (strip_blank _).trans (strip_visible fun c hc => isSpace_digit (hdigits c hc))
  obtain ⟨c, s, hs⟩ := List.exists_cons_of_ne_nil (strNat_ne_nil n)
  rw [hcomment]
  rw [hs] at hnat hdigits hstrip ⊢
  have hc := hdigits c List.mem_cons_self
  have hword : ∀ w : Text, (∀ x, w.head? = some x → 65 ≤ x) → lower (c :: s) ≠ w := by
    intro w hw
    exact lower_ne (by omega) s hw
  have hint : py.int (c :: s) = some (n : ℤ) := by
    rw [int_digits hc, hnat]
    rfl
  have hquote : ¬ ((c :: s).head? = some 34 ∨ (c :: s).head? = some 39) := by
    simp only [List.head?_cons, Option.some.injEq]
    omega
  unfold parseScalar
  rw [hstrip]
  simp only [hquote, hint]
  rw [if_neg (List.cons_ne_nil c s), if_neg (hword _ (by decide)), if_neg (hword _ (by decide)),
    if_neg (not_or.mpr ⟨hword _ (by decide), hword _ (by decide)⟩)]
  rfl

def written (indent : ℕ) (key raw : Text) : Text := List.replicate indent 32 ++ (key ++ 58 :: raw)

structure Field where
  key : Text
  raw : Text
  value : Yaml

structure Field.Readable (py : Python) (f : Field) : Prop where
  word : Word f.key
  tabless : 9 ∉ f.raw
  plain : ∀ es, f.value ≠ .map es
  parsed : parseScalar py (stripComment f.raw) = .ok f.value

def Field.item (f : Field) : Text × Yaml := (f.key, f.value)

inductive Block
  | single (field : Field) | mapping (key : Text) (fields : List Field)

def Block.key : Block → Text
  | .single field => field.key
  | .mapping key _ => key

def Block.lines : Block → List Text
  | .single field => [written 0 field.key field.raw]
  | .mapping key fields => written 0 key [] :: fields.map fun f => written 2 f.key f.raw

def Block.item : Block → Text × Yaml
  | .single field => field.item
  | .mapping key fields => (key, .map (fields.map Field.item))

def Block.fields : Block → List Field
  | .single field => [field]
  | .mapping _ fields => fields

def Block.stack : Block → List (ℤ × List Text)
  | .single _ => [(-1, [])]
  | .mapping key _ => [(0, [key]), (-1, [])]

def Block.Readable (py : Python) : Block → Prop
  | .single field => field.Readable py
  | .mapping key fields => Word key ∧ (∀ f ∈ fields, f.Readable py) ∧ (fields.map Field.key).Nodup

theorem Block.readable_of_fields {py : Python} {b : Block} (hkey : Word b.key)
    (hfields : ∀ f ∈ b.fields, f.Readable py) (hnodup : (b.fields.map Field.key).Nodup) : b.Readable py := by
  cases b with
  | single f => exact hfields f List.mem_cons_self
  | mapping key fields => exact ⟨hkey, hfields, hnodup⟩

/-- The lines are read, wherever they stand. -/
def Reads (py : Python) (path : Text) (st : Reading) (lines : List Text) (st' : Reading) : Prop :=
  ∀ lineno, readLines py path lineno st lines = .ok st'

theorem Reads.append {py : Python} {path : Text} {st st' st'' : Reading} {xs ys : List Text}
    (hx : Reads py path st xs st') (hy : Reads py path st' ys st'') : Reads py path st (xs ++ ys) st'' := by
  intro lineno
  rw [readLines_append, hx lineno]
  exact hy _

theorem reads_line {py : Python} (path : Text) (st : Reading) (indent : ℕ) {key raw : Text}
    {frame : ℤ × List Text} {stack : List (ℤ × List Text)} {value : Yaml} (hkey : Word key) (htab : 9 ∉ raw)
    (hstack : (st.stack.dropWhile fun frame => (indent : ℤ) ≤ frame.1) = frame :: stack)
    (hnew : (mappingAt frame.2 st.root).bind (entry key) = none)
    (hvalue : parseScalar py (stripComment raw) = .ok value) :
    Reads py path st [written indent key raw] (st.put indent key frame stack value) := by
  intro lineno
  have hline := lineEntry_word hkey path lineno indent htab
  rw [readLines, written, readLine_item hline hstack hnew, hvalue]
  rfl

/-- The next line that is not indented is an item of the root. -/
def Reading.AtRoot (st : Reading) : Prop := (st.stack.dropWhile fun frame => (0 : ℤ) ≤ frame.1) = [(-1, [])]

theorem Block.atRoot (b : Block) (es : Entries) : Reading.AtRoot ⟨es, b.stack⟩ := by
  cases b <;> rfl

theorem Reading.put_plain (st : Reading) (indent : ℕ) (key : Text) (frame : ℤ × List Text)
    (stack : List (ℤ × List Text)) {value : Yaml} (h : ∀ es, value ≠ .map es) :
    st.put indent key frame stack value = ⟨insertAt frame.2 key value st.root, frame :: stack⟩ := by
  cases value with
  | map es => exact absurd rfl (h es)
  | _ => rfl

theorem mappingAt_last {es : Entries} {key : Text} (hkey : key ∉ es.map Prod.fst) (sub : Entries) :
    mappingAt [key] (es ++ [(key, .map sub)]) = some sub := by
  rw [mappingAt, entry_append, (entry_eq_none_iff key es).mpr hkey]
  simp [entry, mappingAt]

theorem insertAt_last {es : Entries} {key : Text} (hkey : key ∉ es.map Prod.fst) (sub : Entries) (k : Text)
    (v : Yaml) : insertAt [key] k v (es ++ [(key, .map sub)]) = es ++ [(key, .map (sub ++ [(k, v)]))] := by
  have hother : ∀ e ∈ es, e.1 ≠ key := by
    intro e he h
    exact hkey (List.mem_map.mpr ⟨e, he, h⟩)
  rw [insertAt, List.map_append]
  congr 1
  · apply (List.map_congr_left _).trans (List.map_id es)
    intro e he
    rw [if_neg (hother e he)]
    rfl
  · simp [insertAt]

theorem reads_fields {py : Python} {path : Text} {es : Entries} {key : Text} (read : List Field)
    {fields : List Field} (hkey : key ∉ es.map Prod.fst) (h : ∀ f ∈ fields, f.Readable py)
    (hnodup : ((read ++ fields).map Field.key).Nodup) :
    Reads py path ⟨es ++ [(key, .map (read.map Field.item))], [(0, [key]), (-1, [])]⟩
      (fields.map fun f => written 2 f.key f.raw)
      ⟨es ++ [(key, .map ((read ++ fields).map Field.item))], [(0, [key]), (-1, [])]⟩ := by
  induction fields generalizing read with
  | nil =>
    intro lineno
    rw [List.append_nil]
    rfl
  | cons f fields ih =>
    have hf := h f List.mem_cons_self
    have hassoc : read ++ f :: fields = (read ++ [f]) ++ fields := by simp
    rw [hassoc] at hnodup ⊢
    have hnew : f.key ∉ (read.map Field.item).map Prod.fst := by
      rw [List.map_append, List.map_append, List.append_assoc] at hnodup
      have hdisjoint := (List.nodup_append.mp hnodup).2.2
      intro hmem
      rw [List.map_map] at hmem
      exact hdisjoint f.key hmem f.key (by simp) rfl
    have hline : Reads py path ⟨es ++ [(key, .map (read.map Field.item))], [(0, [key]), (-1, [])]⟩
        [written 2 f.key f.raw] ⟨es ++ [(key, .map ((read ++ [f]).map Field.item))], [(0, [key]), (-1, [])]⟩ := by
      have habsent : (mappingAt [key] (es ++ [(key, .map (read.map Field.item))])).bind (entry f.key) = none := by
        rw [mappingAt_last hkey]
        exact (entry_eq_none_iff _ _).mpr hnew
      have hput := reads_line path ⟨es ++ [(key, .map (read.map Field.item))], [(0, [key]), (-1, [])]⟩ 2
        hf.word hf.tabless rfl habsent hf.parsed
      rw [Reading.put_plain _ _ _ _ _ hf.plain, insertAt_last hkey] at hput
      rw [List.map_append]
      exact hput
    exact hline.append (ih (read ++ [f]) (fun g hg => h g (List.mem_cons_of_mem f hg)) hnodup)

theorem Block.reads {py : Python} (path : Text) {st : Reading} {b : Block} (h : b.Readable py)
    (hst : st.AtRoot) (hnew : b.key ∉ st.root.map Prod.fst) :
    Reads py path st b.lines ⟨st.root ++ [b.item], b.stack⟩ := by
  have habsent : (mappingAt [] st.root).bind (entry b.key) = none := (entry_eq_none_iff _ _).mpr hnew
  cases b with
  | single f =>
    have hline := reads_line path st 0 h.word h.tabless hst habsent h.parsed
    rwa [Reading.put_plain _ _ _ _ _ h.plain] at hline
  | mapping key fields =>
    obtain ⟨hkey, hfields, hnodup⟩ := h
    have hheader := reads_line path st 0 hkey List.not_mem_nil hst habsent
      (parseScalar_header py)
    exact hheader.append (reads_fields [] hnew hfields hnodup)

theorem reads_blocks {py : Python} {path : Text} {st : Reading} {blocks : List Block} {last : Block}
    (h : ∀ b ∈ blocks ++ [last], b.Readable py) (hst : st.AtRoot)
    (hnodup : (st.root.map Prod.fst ++ (blocks ++ [last]).map Block.key).Nodup) :
    Reads py path st ((blocks ++ [last]).flatMap Block.lines)
      ⟨st.root ++ (blocks ++ [last]).map Block.item, last.stack⟩ := by
  induction blocks generalizing st with
  | nil =>
    have hnew : last.key ∉ st.root.map Prod.fst := by
      intro hmem
      exact (List.nodup_append.mp hnodup).2.2 _ hmem last.key (by simp) rfl
    simpa using Block.reads path (h last (by simp)) hst hnew
  | cons b blocks ih =>
    have hnew : b.key ∉ st.root.map Prod.fst := by
      intro hmem
      exact (List.nodup_append.mp hnodup).2.2 _ hmem b.key (by simp) rfl
    have hfirst := Block.reads path (h b (by simp)) hst hnew
    have hkey : b.item.1 = b.key := by
      cases b <;> rfl
    have hrest : Reads py path ⟨st.root ++ [b.item], b.stack⟩ _ _ :=
      ih (fun x hx => h x (List.mem_cons_of_mem b hx)) (b.atRoot _) (by simpa [hkey] using hnodup)
    simpa using hfirst.append hrest

end BuildManifest
end HakoniwaCorePro
