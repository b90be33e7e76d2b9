import HakoniwaCorePro.SimpleYaml

/-!
# The files that are read

`load_simple_yaml` pushes and pops; `Layout` says which files it reads and as what, mapping by mapping:
the items of a mapping stand deeper than its key, and behind a nested mapping no deeper than its key.
The stack of the reader is a place in the document (`plug`), and what is still to come (`Rest`) is laid
out for each of the open mappings.
-/

namespace HakoniwaCorePro
namespace BuildManifest

open Launch (Text lit)

theorem lineEntry_anywhere {path raw : Text} {lineno : ℕ} {r : Option (ℕ × Text × Text)}
    (h : lineEntry path lineno raw = .ok r) (path' : Text) (lineno' : ℕ) :
    lineEntry path' lineno' raw = .ok r := by
  unfold lineEntry at h ⊢
  split at h
  · cases h
  · next htab =>
    rw [if_neg htab]
    dsimp only at h ⊢
    split at h
    · next hblank =>
      rw [if_pos hblank]
      exact h
    · next hblank =>
      rw [if_neg hblank]
      split at h
      · cases h
      · next hdash =>
        rw [if_neg hdash]
        split at h
        · cases h
        · next hcolon =>
          rw [if_neg hcolon]
          split at h
          · cases h
          · next hkey =>
            rw [if_neg hkey]
            exact h

/-- A blank line or a comment. -/
def Blank (raw : Text) : Prop := lineEntry [] 0 raw = .ok none

/-- An item, with its indentation; the value of a key that opens a mapping is empty. -/
def Item (py : Python) (raw : Text) (indent : ℕ) (key : Text) (value : Yaml) : Prop :=
  ∃ rawValue, lineEntry [] 0 raw = .ok (some (indent, key, rawValue)) ∧
    parseScalar py rawValue = .ok value

section

variable {py : Python} {raw key : Text} {indent : ℕ} {value : Yaml}

theorem Blank.not_item (h : Blank raw) : ¬ Item py raw indent key value := by
  rintro ⟨rawValue, hline, -⟩
  rw [h] at hline
  cases hline

theorem Item.unique {indent' : ℕ} {key' : Text} {value' : Yaml} (h : Item py raw indent key value)
    (h' : Item py raw indent' key' value') : indent' = indent ∧ key' = key ∧ value' = value := by
  obtain ⟨rawValue, hline, hvalue⟩ := h
  obtain ⟨rawValue', hline', hvalue'⟩ := h'
  rw [hline] at hline'
  cases hline'
  rw [hvalue] at hvalue'
  cases hvalue'
  exact ⟨rfl, rfl, rfl⟩

theorem parseScalar_map {rawValue : Text} {sub : Entries} (h : parseScalar py rawValue = .ok (.map sub)) :
    sub = [] := by
  unfold parseScalar at h
  dsimp only at h
  split at h
  · cases h
    rfl
  · split at h
    · cases h
    · split at h
      · cases h
      · split at h
        · cases h
        · split at h
          · split at h
            · cases h
            · split at h
              · split at h <;> cases h
              · cases h
          · split at h <;> cases h

end

theorem Item.map_empty {py : Python} {raw key : Text} {indent : ℕ} {sub : Entries}
    (h : Item py raw indent key (.map sub)) : sub = [] := by
  obtain ⟨rawValue, -, hvalue⟩ := h
  exact parseScalar_map hvalue

def keys (es : Entries) : List Text := es.map Prod.fst

/-- Deeper than the key of the mapping, and not deeper than the bound. -/
def Fits (parent : ℤ) (bound : Option ℤ) (indent : ℕ) : Prop :=
  parent < indent ∧ ∀ n, bound = some n → (indent : ℤ) ≤ n

/-- The lines lay out the items of a mapping whose key is indented by `parent`; the first of them is
not indented deeper than the bound. -/
inductive Layout (py : Python) : ℤ → Option ℤ → Entries → List Text → Prop
  | nil (parent : ℤ) (bound : Option ℤ) : Layout py parent bound [] []
  | blank {parent : ℤ} {bound : Option ℤ} {es : Entries} {raw : Text} {lines : List Text}
      (hraw : Blank raw) (rest : Layout py parent bound es lines) :
      Layout py parent bound es (raw :: lines)
  | single {parent : ℤ} {bound : Option ℤ} {es : Entries} {raw key : Text} {value : Yaml} {indent : ℕ}
      {lines : List Text} (hraw : Item py raw indent key value) (hfits : Fits parent bound indent)
      (hplain : ∀ sub, value ≠ .map sub) (hnew : key ∉ keys es) (rest : Layout py parent none es lines) :
      Layout py parent bound ((key, value) :: es) (raw :: lines)
  | mapping {parent : ℤ} {bound : Option ℤ} {sub es : Entries} {raw key : Text} {indent : ℕ}
      {xs ys : List Text} (hraw : Item py raw indent key (.map [])) (hfits : Fits parent bound indent)
      (hsub : Layout py indent none sub xs) (hnew : key ∉ keys es)
      (rest : Layout py parent (some (indent : ℤ)) es ys) :
      Layout py parent bound ((key, .map sub) :: es) (raw :: (xs ++ ys))

section

variable {py : Python} {parent : ℤ} {bound : Option ℤ} {es : Entries} {raw key : Text} {lines : List Text}
  {indent : ℕ} {value : Yaml}

theorem Layout.nil_iff : Layout py parent bound es [] ↔ es = [] := by
  constructor
  · intro h
    cases h
    rfl
  · rintro rfl
    exact .nil parent bound

theorem Layout.blank_iff (hraw : Blank raw) :
    Layout py parent bound es (raw :: lines) ↔ Layout py parent bound es lines := by
  constructor
  · intro h
    cases h with
    | blank _ rest => exact rest
    | single hitem => exact absurd hitem hraw.not_item
    | mapping hitem => exact absurd hitem hraw.not_item
  · exact .blank hraw

theorem Layout.single_iff (hraw : Item py raw indent key value) (hplain : ∀ sub, value ≠ .map sub) :
    Layout py parent bound es (raw :: lines) ↔ Fits parent bound indent ∧
      ∃ rest, es = (key, value) :: rest ∧ key ∉ keys rest ∧ Layout py parent none rest lines := by
  constructor
  · intro h
    cases h with
    | blank hblank => exact absurd hraw hblank.not_item
    | single hitem hfits _ hnew rest =>
      obtain ⟨rfl, rfl, rfl⟩ := hraw.unique hitem
      exact ⟨hfits, _, rfl, hnew, rest⟩
    | mapping hitem =>
      obtain ⟨-, -, rfl⟩ := hraw.unique hitem
      exact absurd rfl (hplain [])
  · rintro ⟨hfits, rest, rfl, hnew, hrest⟩
    exact .single hraw hfits hplain hnew hrest

theorem Layout.mapping_iff (hraw : Item py raw indent key (.map [])) :
    Layout py parent bound es (raw :: lines) ↔ Fits parent bound indent ∧
      ∃ sub rest xs ys, es = (key, .map sub) :: rest ∧ lines = xs ++ ys ∧ key ∉ keys rest ∧
        Layout py indent none sub xs ∧ Layout py parent (some (indent : ℤ)) rest ys := by
  constructor
  · intro h
    cases h with
    | blank hblank => exact absurd hraw hblank.not_item
    | single hitem _ hplain =>
      obtain ⟨-, -, rfl⟩ := hraw.unique hitem
      exact absurd rfl (hplain [])
    | mapping hitem hfits hsub hnew rest =>
      obtain ⟨rfl, rfl, -⟩ := hraw.unique hitem
      exact ⟨hfits, _, _, _, _, rfl, rfl, hnew, hsub, rest⟩
  · rintro ⟨hfits, sub, rest, xs, ys, rfl, rfl, hnew, hsub, hrest⟩
    exact .mapping hraw hfits hsub hnew hrest

theorem Layout.fits (hraw : Item py raw indent key value)
    (h : Layout py parent bound es (raw :: lines)) : Fits parent bound indent := by
  cases h with
  | blank hblank => exact absurd hraw hblank.not_item
  | single hitem hfits =>
    obtain ⟨rfl, -, -⟩ := hraw.unique hitem
    exact hfits
  | mapping hitem hfits =>
    obtain ⟨rfl, -, -⟩ := hraw.unique hitem
    exact hfits

end

/-- A mapping around the innermost one: its indentation, its items, and the key of the mapping that is
open in it, behind them. -/
structure Outer where
  indent : ℤ
  items : Entries
  key : Text

def plug (es : Entries) : List Outer → Entries
  | [] => es
  | o :: outer => plug (o.items ++ [(o.key, .map es)]) outer

def pathOf : List Outer → List Text
  | [] => []
  | o :: outer => pathOf outer ++ [o.key]

def framesOf (indent : ℤ) : List Outer → List (ℤ × List Text)
  | [] => [(indent, [])]
  | o :: outer => (indent, pathOf (o :: outer)) :: framesOf o.indent outer

/-- The open keys are new, and each mapping stands deeper than the one around it. -/
def Nested (indent : ℤ) : List Outer → Prop
  | [] => True
  | o :: outer => o.indent < indent ∧ o.key ∉ keys o.items ∧ Nested o.indent outer

theorem insertAt_cons_last {es : Entries} {key : Text} (hkey : key ∉ keys es) (sub : Entries)
    (path : List Text) (k : Text) (v : Yaml) :
    insertAt (key :: path) k v (es ++ [(key, .map sub)]) =
      es ++ [(key, .map (insertAt path k v sub))] := by
  have hother : ∀ e ∈ es, e.1 ≠ key := by
    intro e he h
    exact hkey (List.mem_map.mpr ⟨e, he, h⟩)
  rw [insertAt, List.map_append]
  congr 1
  · apply (List.map_congr_left _).trans (List.map_id es)
    intro e he
    rw [if_neg (hother e he)]
    rfl
  · simp

theorem mappingAt_cons_last {es : Entries} {key : Text} (hkey : key ∉ keys es) (sub : Entries)
    (path : List Text) : mappingAt (key :: path) (es ++ [(key, .map sub)]) = mappingAt path sub := by
  rw [mappingAt, entry_append, (entry_eq_none_iff key es).mpr hkey]
  simp [entry]

/-- The path of the innermost mapping leads to it. -/
theorem mappingAt_plug {indent : ℤ} {outer : List Outer} (h : Nested indent outer) (es : Entries)
    (path : List Text) : mappingAt (pathOf outer ++ path) (plug es outer) = mappingAt path es := by
  induction outer generalizing indent es path with
  | nil => rfl
  | cons o outer ih =>
    obtain ⟨-, hkey, hrest⟩ := h
    rw [pathOf, plug, List.append_assoc, ih hrest]
    exact mappingAt_cons_last hkey es path

theorem insertAt_plug {indent : ℤ} {outer : List Outer} (h : Nested indent outer) (es : Entries)
    (path : List Text) (k : Text) (v : Yaml) :
    insertAt (pathOf outer ++ path) k v (plug es outer) = plug (insertAt path k v es) outer := by
  induction outer generalizing indent es path with
  | nil => rfl
  | cons o outer ih =>
    obtain ⟨-, hkey, hrest⟩ := h
    rw [pathOf, plug, plug, List.append_assoc, ih hrest]
    exact congrArg (plug · outer) (insertAt_cons_last hkey es path k v)

/-- Behind the items of the innermost mapping, the lines lay out the rest of each mapping around it, and
the document is whole. -/
def After (py : Python) : ℤ → Entries → List Outer → List Text → Entries → Prop
  | _, es, [], lines, doc => lines = [] ∧ doc = es
  | indent, es, o :: outer, lines, doc =>
    ∃ fs xs ys, lines = xs ++ ys ∧ Layout py o.indent (some indent) fs xs ∧
      (keys (o.items ++ [(o.key, .map es)])).Disjoint (keys fs) ∧
      After py o.indent (o.items ++ [(o.key, .map es)] ++ fs) outer ys doc

/-- The lines that are left lay out the rest of every open mapping. -/
def Rest (py : Python) (indent : ℤ) (bound : Option ℤ) (es : Entries) (outer : List Outer)
    (lines : List Text) (doc : Entries) : Prop :=
  ∃ fs xs ys, lines = xs ++ ys ∧ Layout py indent bound fs xs ∧ (keys es).Disjoint (keys fs) ∧
    After py indent (es ++ fs) outer ys doc

section

variable {py : Python} {indent : ℤ} {bound : Option ℤ} {es doc : Entries} {outer : List Outer}
  {raw key : Text} {lines : List Text} {n : ℕ} {value : Yaml}

theorem rest_of_after (h : After py indent es outer lines doc) :
    Rest py indent bound es outer lines doc :=
  ⟨[], [], lines, rfl, .nil _ _, List.disjoint_nil_right _, by rwa [List.append_nil]⟩

theorem after_nil (py : Python) (indent : ℤ) (es : Entries) (outer : List Outer) :
    After py indent es outer [] (plug es outer) := by
  induction outer generalizing indent es with
  | nil => exact ⟨rfl, rfl⟩
  | cons o outer ih => exact rest_of_after (ih o.indent _)

theorem rest_nil_iff : Rest py indent bound es outer [] doc ↔ doc = plug es outer := by
  constructor
  · intro h
    induction outer generalizing indent bound es with
    | nil =>
      obtain ⟨fs, xs, ys, hsplit, hlayout, -, -, rfl⟩ := h
      obtain ⟨rfl, -⟩ := List.append_eq_nil_iff.mp hsplit.symm
      rw [Layout.nil_iff.mp hlayout, List.append_nil]
      rfl
    | cons o outer ih =>
      obtain ⟨fs, xs, ys, hsplit, hlayout, -, hafter⟩ := h
      obtain ⟨rfl, rfl⟩ := List.append_eq_nil_iff.mp hsplit.symm
      rw [Layout.nil_iff.mp hlayout, List.append_nil] at hafter
      exact ih hafter
  · intro h
    rw [h]
    exact rest_of_after (after_nil py indent es outer)

theorem rest_blank_iff (hraw : Blank raw) :
    Rest py indent bound es outer (raw :: lines) doc ↔ Rest py indent bound es outer lines doc := by
  constructor
  · intro h
    induction outer generalizing indent bound es with
    | nil =>
      obtain ⟨fs, xs, ys, hsplit, hlayout, hnew, rfl, hdoc⟩ := h
      rw [List.append_nil] at hsplit
      rw [← hsplit] at hlayout
      exact ⟨fs, lines, [], (List.append_nil lines).symm, (Layout.blank_iff hraw).mp hlayout, hnew, rfl, hdoc⟩
    | cons o outer ih =>
      obtain ⟨fs, xs, ys, hsplit, hlayout, hnew, hafter⟩ := h
      cases xs with
      | nil =>
        rw [List.nil_append] at hsplit
        rw [← hsplit] at hafter
        exact ⟨fs, [], lines, rfl, hlayout, hnew, ih hafter⟩
      | cons x xs =>
        rw [List.cons_append, List.cons.injEq] at hsplit
        obtain ⟨rfl, rfl⟩ := hsplit
        exact ⟨fs, xs, ys, rfl, (Layout.blank_iff hraw).mp hlayout, hnew, hafter⟩
  · rintro ⟨fs, xs, ys, rfl, hlayout, hnew, hafter⟩
    exact ⟨fs, raw :: xs, ys, rfl, .blank hraw hlayout, hnew, hafter⟩

/-- The place that an item of indentation `n` leads to: the mappings that it closes are left. -/
def popped (n : ℕ) : ℤ → Entries → List Outer → Option (ℤ × Entries × List Outer)
  | indent, es, [] => if (n : ℤ) ≤ indent then none else some (indent, es, [])
  | indent, es, o :: outer =>
    if (n : ℤ) ≤ indent then popped n o.indent (o.items ++ [(o.key, .map es)]) outer
    else some (indent, es, o :: outer)

/-- The item goes into the innermost mapping. -/
def Put (py : Python) (n : ℕ) (key : Text) (value : Yaml) (lines : List Text) (doc : Entries)
    (indent : ℤ) (es : Entries) (outer : List Outer) : Prop :=
  key ∉ keys es ∧
    match value with
    | .map _ => Rest py n none [] (⟨indent, es, key⟩ :: outer) lines doc
    | _ => Rest py indent none (es ++ [(key, value)]) outer lines doc

theorem put_plain_iff (hplain : ∀ sub, value ≠ .map sub) :
    Put py n key value lines doc indent es outer ↔
      key ∉ keys es ∧ Rest py indent none (es ++ [(key, value)]) outer lines doc := by
  cases value with
  | map sub => exact absurd rfl (hplain sub)
  | _ => rfl

theorem disjoint_cons_iff {fs : Entries} :
    (keys es).Disjoint (keys ((key, value) :: fs)) ∧ key ∉ keys fs ↔
      key ∉ keys es ∧ (keys (es ++ [(key, value)])).Disjoint (keys fs) := by
  simp only [keys, List.map_append, List.map_cons, List.map_nil, List.disjoint_cons_right,
    List.disjoint_append_left, List.singleton_disjoint]
  tauto

theorem rest_deeper_iff (hraw : Item py raw n key value) (hdeep : indent < n)
    (hbound : ∀ m, bound = some m → (n : ℤ) ≤ m)
    (hafter : ∀ fs, ¬ After py indent fs outer (raw :: lines) doc) :
    Rest py indent bound es outer (raw :: lines) doc ↔
      Put py n key value lines doc indent es outer := by
  have hfirst : Rest py indent bound es outer (raw :: lines) doc ↔
      ∃ fs xs ys, lines = xs ++ ys ∧ Layout py indent bound fs (raw :: xs) ∧
        (keys es).Disjoint (keys fs) ∧ After py indent (es ++ fs) outer ys doc := by
    constructor
    · rintro ⟨fs, xs, ys, hsplit, hlayout, hnew, hrest⟩
      cases xs with
      | nil =>
        rw [List.nil_append] at hsplit
        rw [← hsplit] at hrest
        exact absurd hrest (hafter _)
      | cons x xs =>
        rw [List.cons_append, List.cons.injEq] at hsplit
        obtain ⟨rfl, rfl⟩ := hsplit
        exact ⟨fs, xs, ys, rfl, hlayout, hnew, hrest⟩
    · rintro ⟨fs, xs, ys, rfl, hlayout, hnew, hrest⟩
      exact ⟨fs, raw :: xs, ys, rfl, hlayout, hnew, hrest⟩
  rw [hfirst]
  by_cases hplain : ∀ sub, value ≠ .map sub
  · rw [put_plain_iff hplain]
    constructor
    · rintro ⟨fs, xs, ys, rfl, hlayout, hnew, hrest⟩
      obtain ⟨-, rest, rfl, hkey, hlayout⟩ := (Layout.single_iff hraw hplain).mp hlayout
      obtain ⟨hes, hdisjoint⟩ := disjoint_cons_iff.mp ⟨hnew, hkey⟩
      refine ⟨hes, rest, xs, ys, rfl, hlayout, hdisjoint, ?_⟩
      rwa [List.append_assoc]
    · rintro ⟨hes, rest, xs, ys, rfl, hlayout, hdisjoint, hrest⟩
      obtain ⟨hnew, hkey⟩ := disjoint_cons_iff.mpr ⟨hes, hdisjoint⟩
      refine ⟨(key, value) :: rest, xs, ys, rfl,
        (Layout.single_iff hraw hplain).mpr ⟨⟨hdeep, hbound⟩, rest, rfl, hkey, hlayout⟩, hnew, ?_⟩
      rwa [List.append_assoc] at hrest
  · obtain ⟨sub, rfl⟩ := not_forall_not.mp hplain
    obtain rfl : sub = [] := hraw.map_empty
    constructor
    · rintro ⟨fs, xs, ys, rfl, hlayout, hnew, hrest⟩
      obtain ⟨-, sub, rest, xs, zs, rfl, rfl, hkey, hsub, hlayout⟩ :=
        (Layout.mapping_iff hraw).mp hlayout
      obtain ⟨hes, hdisjoint⟩ := disjoint_cons_iff.mp ⟨hnew, hkey⟩
      refine ⟨hes, sub, xs, zs ++ ys, List.append_assoc .., hsub, List.disjoint_nil_left _, rest, zs, ys,
        rfl, hlayout, hdisjoint, ?_⟩
      rwa [List.append_assoc]
    · rintro ⟨hes, sub, xs, -, rfl, hsub, -, rest, zs, ys, rfl, hlayout, hdisjoint, hrest⟩
      obtain ⟨hnew, hkey⟩ := disjoint_cons_iff.mpr ⟨hes, hdisjoint⟩
      refine ⟨(key, .map sub) :: rest, xs ++ zs, ys, (List.append_assoc ..).symm,
        (Layout.mapping_iff hraw).mpr
          ⟨⟨hdeep, hbound⟩, sub, rest, xs, zs, rfl, rfl, hkey, hsub, hlayout⟩, hnew, ?_⟩
      rwa [List.append_assoc] at hrest

theorem after_bound (hraw : Item py raw n key value) (hnested : Nested indent outer)
    (h : After py indent es outer (raw :: lines) doc) : (n : ℤ) ≤ indent := by
  induction outer generalizing indent es with
  | nil => cases h.1
  | cons o outer ih =>
    obtain ⟨hlt, -, hnested⟩ := hnested
    obtain ⟨fs, xs, ys, hsplit, hlayout, -, hafter⟩ := h
    cases xs with
    | nil =>
      rw [List.nil_append] at hsplit
      rw [← hsplit] at hafter
      exact (ih hnested hafter).trans hlt.le
    | cons x xs =>
      rw [List.cons_append, List.cons.injEq] at hsplit
      obtain ⟨rfl, rfl⟩ := hsplit
      exact (hlayout.fits hraw).2 indent rfl

theorem rest_shallow_iff (hraw : Item py raw n key value) (hshallow : (n : ℤ) ≤ indent) :
    Rest py indent bound es outer (raw :: lines) doc ↔
      After py indent es outer (raw :: lines) doc := by
  constructor
  · rintro ⟨fs, xs, ys, hsplit, hlayout, -, hafter⟩
    cases xs with
    | nil =>
      rw [Layout.nil_iff.mp hlayout, List.append_nil] at hafter
      rw [List.nil_append] at hsplit
      rwa [hsplit]
    | cons x xs =>
      rw [List.cons_append, List.cons.injEq] at hsplit
      obtain ⟨rfl, rfl⟩ := hsplit
      have hdeep := (hlayout.fits hraw).1
      omega
  · exact rest_of_after

theorem popped_deep (hdeep : indent < n) (es : Entries) (outer : List Outer) :
    popped n indent es outer = some (indent, es, outer) := by
  have hnot : ¬ (n : ℤ) ≤ indent := by omega
  cases outer <;> simp [popped, hnot]

theorem rest_item_iff (hraw : Item py raw n key value) (hnested : Nested indent outer)
    (hbound : ∀ m, bound = some m → (n : ℤ) ≤ m) :
    Rest py indent bound es outer (raw :: lines) doc ↔
      ∃ i fs os, popped n indent es outer = some (i, fs, os) ∧ Put py n key value lines doc i fs os := by
  induction outer generalizing indent bound es with
  | nil =>
    by_cases hshallow : (n : ℤ) ≤ indent
    · rw [rest_shallow_iff hraw hshallow]
      simp [After, popped, hshallow]
    · have hdeep : indent < n := by omega
      rw [rest_deeper_iff hraw hdeep hbound (by simp [After]), popped_deep hdeep]
      simp
  | cons o outer ih =>
    by_cases hshallow : (n : ℤ) ≤ indent
    · have hnext : Rest py o.indent (some indent) (o.items ++ [(o.key, .map es)]) outer (raw :: lines) doc ↔ _ :=
        ih hnested.2.2 (by simpa using hshallow)
      rw [rest_shallow_iff hraw hshallow]
      simp only [popped, if_pos hshallow]
      exact hnext
    · have hdeep : indent < n := by omega
      have hafter : ∀ fs, ¬ After py indent fs (o :: outer) (raw :: lines) doc := by
        intro fs h
        have hle := after_bound hraw hnested h
        omega
      rw [rest_deeper_iff hraw hdeep hbound hafter, popped_deep hdeep]
      simp

end

/-- The reader is at a place in the document. -/
structure Reading.At (st : Reading) (indent : ℤ) (es : Entries) (outer : List Outer) : Prop where
  root : st.root = plug es outer
  stack : st.stack = framesOf indent outer
  nested : Nested indent outer

theorem Reading.start_at : Reading.start.At (-1) [] [] := ⟨rfl, rfl, trivial⟩

theorem framesOf_cons (indent : ℤ) (outer : List Outer) :
    ∃ frames, framesOf indent outer = (indent, pathOf outer) :: frames := by
  cases outer with
  | nil => exact ⟨[], rfl⟩
  | cons o outer => exact ⟨_, rfl⟩

theorem popped_frames (n : ℕ) {indent : ℤ} (es : Entries) {outer : List Outer}
    (hnested : Nested indent outer) :
    (popped n indent es outer = none ∧
      (framesOf indent outer).dropWhile (fun frame => (n : ℤ) ≤ frame.1) = []) ∨
    ∃ i fs os, popped n indent es outer = some (i, fs, os) ∧
      (framesOf indent outer).dropWhile (fun frame => (n : ℤ) ≤ frame.1) = framesOf i os ∧
      plug es outer = plug fs os ∧ Nested i os ∧ i < n := by
  induction outer generalizing indent es with
  | nil =>
    by_cases hshallow : (n : ℤ) ≤ indent
    · exact Or.inl (by simp [popped, framesOf, hshallow])
    · exact Or.inr ⟨indent, es, [], by simp [popped, hshallow], by simp [framesOf, hshallow], rfl,
        trivial, by omega⟩
  | cons o outer ih =>
    by_cases hshallow : (n : ℤ) ≤ indent
    · simp only [popped, if_pos hshallow, framesOf]
      rw [List.dropWhile_cons_of_pos (by simpa using hshallow)]
      exact ih _ hnested.2.2
    · refine Or.inr ⟨indent, es, o :: outer, by simp [popped, hshallow], ?_, rfl, hnested, by omega⟩
      rw [framesOf, List.dropWhile_cons_of_neg (by simpa using hshallow)]

section

variable {py : Python} {path raw key : Text} {lineno n : ℕ} {st : Reading} {value : Yaml} {indent : ℤ}
  {es doc : Entries} {outer : List Outer} {lines : List Text}

theorem insertAt_pathOf (hnested : Nested indent outer) :
    insertAt (pathOf outer) key value (plug es outer) = plug (es ++ [(key, value)]) outer := by
  have h := insertAt_plug hnested es [] key value
  rwa [List.append_nil] at h

theorem mappingAt_pathOf (hnested : Nested indent outer) :
    mappingAt (pathOf outer) (plug es outer) = some es := by
  have h := mappingAt_plug hnested es []
  rwa [List.append_nil] at h

theorem Reading.put_mapping {frames : List (ℤ × List Text)} (hroot : st.root = plug es outer)
    (hframes : framesOf indent outer = (indent, pathOf outer) :: frames) (hnested : Nested indent outer)
    (hdeep : indent < n) (hkey : key ∉ keys es) :
    (st.put n key (indent, pathOf outer) frames (.map [])).At n [] (⟨indent, es, key⟩ :: outer) := by
  refine ⟨?_, ?_, hdeep, hkey, hnested⟩
  · show insertAt (pathOf outer) key _ st.root = _
    rw [hroot]
    exact insertAt_pathOf hnested
  · rw [framesOf, hframes]
    rfl

theorem Reading.put_single {frames : List (ℤ × List Text)} (hroot : st.root = plug es outer)
    (hframes : framesOf indent outer = (indent, pathOf outer) :: frames) (hnested : Nested indent outer)
    (hplain : ∀ sub, value ≠ .map sub) :
    (st.put n key (indent, pathOf outer) frames value).At indent (es ++ [(key, value)]) outer := by
  refine ⟨?_, ?_, hnested⟩
  · show insertAt (pathOf outer) key _ st.root = _
    rw [hroot]
    exact insertAt_pathOf hnested
  · rw [hframes]
    cases value with
    | map sub => exact absurd rfl (hplain sub)
    | _ => rfl

theorem readLine_item_iff (h : st.At indent es outer) (hraw : Item py raw n key value) {next : Reading} :
    readLine py path lineno st raw = .ok next ↔ ∃ i fs os frames,
      popped n indent es outer = some (i, fs, os) ∧ st.root = plug fs os ∧
      framesOf i os = (i, pathOf os) :: frames ∧ Nested i os ∧ i < n ∧ key ∉ keys fs ∧
      next = st.put n key (i, pathOf os) frames value := by
  obtain ⟨rawValue, hline, hvalue⟩ := hraw
  replace hline := lineEntry_anywhere hline path lineno
  rcases popped_frames n es h.nested with
    ⟨hnone, hdrop⟩ | ⟨i, fs, os, hpopped, hdrop, hplug, hnested, hdeep⟩
  · rw [hnone]
    refine iff_of_false (fun hread => ?_) (by simp)
    cases readLine_ok_iff.mp hread with
    | empty hempty =>
      rw [hline] at hempty
      cases hempty
    | item hitem hstack =>
      rw [hline] at hitem
      cases hitem
      rw [h.stack, hdrop] at hstack
      cases hstack
  · obtain ⟨frames, hframes⟩ := framesOf_cons i os
    have hstack : (st.stack.dropWhile fun frame => (n : ℤ) ≤ frame.1) = (i, pathOf os) :: frames := by
      rw [h.stack, hdrop, hframes]
    have hmapping : (mappingAt (pathOf os) st.root).bind (entry key) = entry key fs := by
      rw [h.root, hplug, mappingAt_pathOf hnested]
      rfl
    constructor
    · intro hread
      cases readLine_ok_iff.mp hread with
      | empty hempty =>
        rw [hline] at hempty
        cases hempty
      | item hitem hstack' hnew hvalue' =>
        rw [hline] at hitem
        cases hitem
        rw [hstack] at hstack'
        cases hstack'
        rw [hmapping, entry_eq_none_iff] at hnew
        rw [hvalue] at hvalue'
        cases hvalue'
        exact ⟨i, fs, os, frames, hpopped, h.root.trans hplug, hframes, hnested, hdeep, hnew, rfl⟩
    · rintro ⟨i', fs', os', frames', hpopped', -, hframes', -, -, hkey, rfl⟩
      rw [hpopped] at hpopped'
      cases hpopped'
      rw [hframes] at hframes'
      cases hframes'
      rw [readLine_item hline hstack (by rwa [hmapping, entry_eq_none_iff]), hvalue]
      rfl

theorem Layout.first_line {parent : ℤ} {bound : Option ℤ} (h : Layout py parent bound es (raw :: lines)) :
    Blank raw ∨ ∃ n key value, Item py raw n key value := by
  cases h with
  | blank hblank => exact Or.inl hblank
  | single hitem => exact Or.inr ⟨_, _, _, hitem⟩
  | mapping hitem => exact Or.inr ⟨_, _, _, hitem⟩

theorem Rest.first_line {bound : Option ℤ} (h : Rest py indent bound es outer (raw :: lines) doc) :
    Blank raw ∨ ∃ n key value, Item py raw n key value := by
  induction outer generalizing indent bound es with
  | nil =>
    obtain ⟨fs, xs, ys, hsplit, hlayout, -, rfl, -⟩ := h
    rw [List.append_nil] at hsplit
    rw [← hsplit] at hlayout
    exact hlayout.first_line
  | cons o outer ih =>
    obtain ⟨fs, xs, ys, hsplit, hlayout, -, hafter⟩ := h
    cases xs with
    | nil =>
      rw [List.nil_append] at hsplit
      rw [← hsplit] at hafter
      exact ih hafter
    | cons x xs =>
      rw [List.cons_append, List.cons.injEq] at hsplit
      obtain ⟨rfl, rfl⟩ := hsplit
      exact hlayout.first_line

theorem readLine_line {next : Reading} (h : readLine py path lineno st raw = .ok next) :
    Blank raw ∨ ∃ n key value, Item py raw n key value := by
  cases readLine_ok_iff.mp h with
  | empty hempty => exact Or.inl (lineEntry_anywhere hempty [] 0)
  | item hitem _ _ hvalue => exact Or.inr ⟨_, _, _, _, lineEntry_anywhere hitem [] 0, hvalue⟩

theorem readLine_blank (hraw : Blank raw) : readLine py path lineno st raw = .ok st :=
  readLine_ok_iff.mpr (.empty (lineEntry_anywhere hraw path lineno))

/-- From any place in a document, the reader reads what is laid out from there. -/
theorem readLines_at_iff (lineno : ℕ) (h : st.At indent es outer) :
    (∃ st', readLines py path lineno st lines = .ok st' ∧ st'.root = doc) ↔
      Rest py indent none es outer lines doc := by
  induction lines generalizing lineno st indent es outer with
  | nil =>
    rw [rest_nil_iff, ← h.root]
    simp [readLines, eq_comm]
  | cons raw lines ih =>
    simp only [readLines, Fallible.bind_ok_iff]
    by_cases hblank : Blank raw
    · rw [rest_blank_iff hblank, readLine_blank hblank, ← ih (lineno + 1) h]
      simp
    by_cases hitem : ∃ n key value, Item py raw n key value
    · obtain ⟨n, key, value, hraw⟩ := hitem
      have hput : ∀ i fs os frames, st.root = plug fs os →
          framesOf i os = (i, pathOf os) :: frames → Nested i os → i < n → key ∉ keys fs →
          ((∃ st', readLines py path (lineno + 1) (st.put n key (i, pathOf os) frames value) lines =
              .ok st' ∧ st'.root = doc) ↔ Put py n key value lines doc i fs os) := by
        intro i fs os frames hroot hframes hnested hdeep hkey
        by_cases hplain : ∀ sub, value ≠ .map sub
        · rw [put_plain_iff hplain, and_iff_right hkey]
          exact ih (lineno + 1) (Reading.put_single hroot hframes hnested hplain)
        · obtain ⟨sub, rfl⟩ := not_forall_not.mp hplain
          obtain rfl : sub = [] := hraw.map_empty
          exact (ih (lineno + 1) (Reading.put_mapping hroot hframes hnested hdeep hkey)).trans
            (and_iff_right hkey).symm
      rw [rest_item_iff hraw h.nested (by simp)]
      constructor
      · rintro ⟨st', ⟨next, hread, hrest⟩, hdoc⟩
        obtain ⟨i, fs, os, frames, hpopped, hroot, hframes, hnested, hdeep, hkey, rfl⟩ :=
          (readLine_item_iff h hraw).mp hread
        exact ⟨i, fs, os, hpopped, (hput i fs os frames hroot hframes hnested hdeep hkey).mp
          ⟨st', hrest, hdoc⟩⟩
      · rintro ⟨i, fs, os, hpopped, hfs⟩
        obtain ⟨frames, hframes⟩ := framesOf_cons i os
        rcases popped_frames n es h.nested with
          ⟨hnone, -⟩ | ⟨i', fs', os', hpopped', -, hplug, hnested, hdeep⟩
        · rw [hpopped] at hnone
          cases hnone
        · rw [hpopped] at hpopped'
          cases hpopped'
          have hroot := h.root.trans hplug
          obtain ⟨st', hrest, hdoc⟩ := (hput i fs os frames hroot hframes hnested hdeep hfs.1).mpr hfs
          exact ⟨st', ⟨_, (readLine_item_iff h hraw).mpr
            ⟨i, fs, os, frames, hpopped, hroot, hframes, hnested, hdeep, hfs.1, rfl⟩, hrest⟩, hdoc⟩
    · refine iff_of_false ?_ fun hrest => hrest.first_line.elim hblank hitem
      rintro ⟨st', ⟨next, hread, -⟩, -⟩
      exact (readLine_line hread).elim hblank hitem

end

/-- A build manifest is read exactly if its lines are laid out, and as the document they lay out. -/
theorem loadSimpleYaml_ok_iff_layout (py : Python) (path text : Text) (doc : Entries) :
    loadSimpleYaml py path text = .ok doc ↔ Layout py (-1) none doc (splitlines text) := by
  rw [loadSimpleYaml_ok_iff, readLines_at_iff 1 Reading.start_at]
  constructor
  · rintro ⟨fs, xs, ys, hsplit, hlayout, -, rfl, rfl⟩
    rw [hsplit, List.append_nil]
    exact hlayout
  · intro hlayout
    exact ⟨doc, _, [], (List.append_nil _).symm, hlayout, List.disjoint_nil_left _, rfl, rfl⟩

end BuildManifest
end HakoniwaCorePro
