import HakoniwaCorePro.PreparedBuild

/-!
# Native build defaults

The limits go to the native build in a file of lines `KEY=digits`. Here `build.bash` reads it, in the
C locale: which files it accepts, and what it takes from them.
-/

namespace HakoniwaCorePro
namespace NativeBuild

open Launch (Text lit)
open BuildManifest Fallible

/-- The values of `MANIFEST_TO_NATIVE_KEY`, which are also the keys that the readers know. -/
def nativeKeys : List Text :=
  [lit "HAKO_DATA_MAX_ASSET_NUM", lit "HAKO_PDU_CHANNEL_MAX", lit "HAKO_RECV_EVENT_MAX",
    lit "HAKO_SERVICE_CLIENT_MAX", lit "HAKO_SERVICE_MAX", lit "HAKO_CLIENT_NAMELEN_MAX",
    lit "HAKO_SERVICE_NAMELEN_MAX"]

/-- `[:space:]` in the C locale -/
def isBlank (c : ℕ) : Bool := c = 32 ∨ 9 ≤ c ∧ c ≤ 13

/-- `[A-Z0-9_]` -/
def isKeyChar (c : ℕ) : Bool := 65 ≤ c ∧ c ≤ 90 ∨ 48 ≤ c ∧ c ≤ 57 ∨ c = 95

/-- `[0-9]` -/
def isDigit (c : ℕ) : Bool := 48 ≤ c ∧ c ≤ 57

/-- The two expansions that cut off blanks. -/
def trim (line : Text) : Text := (line.dropWhile isBlank).rdropWhile isBlank

/-- `read -r` with an empty `IFS`, until nothing comes any more. The shell cannot hold a zero byte. -/
def readLinesFrom : Text → Text → List Text
  | line, [] => if line = [] then [] else [line]
  | line, c :: rest =>
    if c = 10 then line :: readLinesFrom [] rest
    else if c = 0 then readLinesFrom line rest
    else readLinesFrom (line ++ [c]) rest

def readLines (text : Text) : List Text := readLinesFrom [] text

/-- `^([A-Z0-9_]+)=([0-9]+)$`, and what its groups are. -/
def matchEntry (line : Text) : Option (Text × Text) :=
  match line.dropWhile isKeyChar with
  | 61 :: value =>
    if line.takeWhile isKeyChar ≠ [] ∧ value ≠ [] ∧ value.all isDigit then
      some (line.takeWhile isKeyChar, value)
    else none
  | _ => none

def numeral (digits : Text) : ℕ := (digits.map (· - 48)).foldl (fun n d => 10 * n + d) 0

def splitSign : Text → Bool × Text
  | 45 :: s => (true, s)
  | 43 :: s => (false, s)
  | s => (false, s)

/-- What `[` takes for an integer: what `strtoimax` reads, if nothing but blanks follows. -/
def legalNumber (s : Text) : Option ℤ :=
  let signed := splitSign (s.dropWhile isBlank)
  let digits := signed.2.takeWhile isDigit
  let n : ℤ := if signed.1 then -numeral digits else numeral digits
  if digits ≠ [] ∧ (signed.2.dropWhile isDigit).all (fun c => c = 32 ∨ c = 9) ∧
      -2 ^ 63 ≤ n ∧ n < 2 ^ 63 then some n
  else none

/-- `[ s -le t ]`, which fails on what is no integer. -/
def testLe (s t : Text) : Bool :=
  match legalNumber s, legalNumber t with
  | some m, some n => m ≤ n
  | _, _ => false

def testGt (s t : Text) : Bool :=
  match legalNumber s, legalNumber t with
  | some m, some n => n < m
  | _, _ => false

/-- One line: nothing, an entry, or the message before `exit 1`. -/
def readLine (line : Text) : Except Text (Option (Text × Text)) :=
  if trim line = [] ∨ (trim line).head? = some 35 then .ok none
  else
    match matchEntry (trim line) with
    | none => .error (lit "ERROR: invalid build defaults entry: " ++ trim line)
    | some (key, value) =>
      if nativeKeys.all (· ≠ key) then .error (lit "ERROR: unknown build defaults key: " ++ key)
      else if testLe value (lit "0") then
        .error (lit "ERROR: build default must be a positive integer: " ++ key)
      else .ok (some (key, value))

abbrev Defaults := Text → Text

/-- `printf -v` -/
def store (vals : Defaults) : Option (Text × Text) → Defaults
  | none => vals
  | some (key, value) => Function.update vals key value

def checkPresent (vals : Defaults) : List Text → Except Text Unit
  | [] => .ok ()
  | key :: keys =>
    if vals key = [] then .error (lit "ERROR: missing build defaults key: " ++ key)
    else checkPresent vals keys

def readBuildDefaults (text : Text) : Except Text Defaults := do
  let vals ← (readLines text).foldlM (fun vals line => do return store vals (← readLine line)) fun _ => []
  checkPresent vals nativeKeys
  return vals

def Skipped (line : Text) : Prop := trim line = [] ∨ (trim line).head? = some 35

/-- A line that gives a key a positive value. -/
structure Entry (line key value : Text) : Prop where
  line_eq : trim line = key ++ 61 :: value
  known : key ∈ nativeKeys
  digits : ∀ c ∈ value, isDigit c = true
  positive : 0 < numeral value

def Means (line : Text) : Option (Text × Text) → Prop
  | none => Skipped line
  | some e => Entry line e.1 e.2

/-- The last of the entries of the key. -/
def LastOf (es : List (Option (Text × Text))) (key value : Text) : Prop :=
  ∃ before after, es = before ++ some (key, value) :: after ∧ ∀ v, some (key, v) ∉ after

/-- A file of positive entries, one at least for each key; the last one counts. -/
def DefaultsFile (text : Text) (vals : Defaults) : Prop :=
  ∃ es, List.Forall₂ Means (readLines text) es ∧ (∀ key ∈ nativeKeys, LastOf es key (vals key)) ∧
    ∀ key ∉ nativeKeys, vals key = []

theorem splitSign_digits {s : Text} (h : ∀ c ∈ s, isDigit c = true) : splitSign s = (false, s) := by
  unfold splitSign
  split
  · exact absurd (h 45 List.mem_cons_self) (by decide)
  · exact absurd (h 43 List.mem_cons_self) (by decide)
  · rfl

theorem dropWhile_blank_digits {s : Text} (h : ∀ c ∈ s, isDigit c = true) : s.dropWhile isBlank = s := by
  cases s with
  | nil => rfl
  | cons c s =>
    have hc := h c List.mem_cons_self
    have hblank : isBlank c = false := by
      simp only [isDigit, isBlank, decide_eq_true_eq, decide_eq_false_iff_not] at hc ⊢
      omega
    rw [List.dropWhile_cons, hblank]
    rfl

/-- Digits are an integer unless they are too large. -/
theorem legalNumber_digits {s : Text} (hne : s ≠ []) (h : ∀ c ∈ s, isDigit c = true) :
    legalNumber s = if numeral s < 2 ^ 63 then some (numeral s : ℤ) else none := by
  have hlow : (-2 ^ 63 : ℤ) ≤ (numeral s : ℤ) := by omega
  have hhigh : (numeral s : ℤ) < 2 ^ 63 ↔ numeral s < 2 ^ 63 := by omega
  have htake : s.takeWhile isDigit = s := List.takeWhile_eq_self_iff.mpr h
  have hdrop : s.dropWhile isDigit = [] := List.dropWhile_eq_nil_iff.mpr h
  simp only [legalNumber, dropWhile_blank_digits h, splitSign_digits h, htake, hdrop,
    Bool.false_eq_true, if_false, List.all_nil, ne_eq, hne, not_false_eq_true, true_and, hlow, hhigh]

theorem testLe_zero_iff {s : Text} (hne : s ≠ []) (h : ∀ c ∈ s, isDigit c = true) :
    testLe s (lit "0") = true ↔ numeral s = 0 := by
  have hzero : legalNumber (lit "0") = some 0 := by decide
  unfold testLe
  rw [legalNumber_digits hne h, hzero]
  by_cases hlt : numeral s < 2 ^ 63
  · rw [if_pos hlt]
    simp
  · rw [if_neg hlt]
    simp only [Bool.false_eq_true, false_iff]
    omega

theorem ne_nil_of_positive {s : Text} (h : 0 < numeral s) : s ≠ [] := by
  rintro rfl
  exact absurd h (by decide)

theorem span_key {p : ℕ → Bool} {key : Text} (hkey : ∀ c ∈ key, p c = true) (hp : p 61 = false)
    (value : Text) : (key ++ 61 :: value).takeWhile p = key ∧
      (key ++ 61 :: value).dropWhile p = 61 :: value := by
  have hneg : ¬ p 61 = true := by simp [hp]
  rw [List.takeWhile_append_of_pos hkey, List.takeWhile_cons_of_neg hneg, List.append_nil,
    List.dropWhile_append_of_pos hkey, List.dropWhile_cons_of_neg hneg]
  exact ⟨rfl, rfl⟩

theorem matchEntry_some_iff {line key value : Text} :
    matchEntry line = some (key, value) ↔ line = key ++ 61 :: value ∧ key ≠ [] ∧
      (∀ c ∈ key, isKeyChar c = true) ∧ value ≠ [] ∧ ∀ c ∈ value, isDigit c = true := by
  constructor
  · intro h
    unfold matchEntry at h
    split at h
    · next rest hrest =>
      split at h
      · next hgroups =>
        obtain ⟨rfl, rfl⟩ := Prod.mk.inj (Option.some.inj h)
        refine ⟨?_, hgroups.1, fun c hc => List.mem_takeWhile_imp hc, hgroups.2.1, ?_⟩
        · rw [← hrest, List.takeWhile_append_dropWhile]
        · exact fun c hc => List.all_eq_true.mp hgroups.2.2 c hc
      · cases h
    · cases h
  · rintro ⟨rfl, hkey, hchars, hvalue, hdigits⟩
    obtain ⟨htake, hdrop⟩ := span_key hchars (by decide) value
    unfold matchEntry
    rw [hdrop, htake]
    exact if_pos ⟨hkey, hvalue, List.all_eq_true.mpr hdigits⟩

theorem nativeKeys_chars : ∀ key ∈ nativeKeys, key ≠ [] ∧ ∀ c ∈ key, isKeyChar c = true := by decide

theorem all_ne_iff {key : Text} {keys : List Text} : keys.all (· ≠ key) = true ↔ key ∉ keys := by
  rw [List.all_eq_true]
  constructor
  · exact fun h hmem => of_decide_eq_true (h key hmem) rfl
  · exact fun h x hx => decide_eq_true fun heq => h (heq ▸ hx)

theorem readLine_none_iff {line : Text} : readLine line = .ok none ↔ Skipped line := by
  constructor
  · intro h
    by_contra hskipped
    unfold Skipped at hskipped
    unfold readLine at h
    rw [if_neg hskipped] at h
    split at h
    · cases h
    · split at h
      · cases h
      · split at h <;> cases h
  · exact fun h => if_pos h

theorem entry_not_skipped {line key value : Text} (h : Entry line key value) : ¬ Skipped line := by
  obtain ⟨hne, hchars⟩ := nativeKeys_chars key h.known
  obtain ⟨c, rest, rfl⟩ := List.exists_cons_of_ne_nil hne
  intro hskipped
  unfold Skipped at hskipped
  rw [h.line_eq] at hskipped
  rcases hskipped with hnil | hhash
  · cases hnil
  · obtain rfl : c = 35 := Option.some.inj hhash
    exact absurd (hchars 35 List.mem_cons_self) (by decide)

theorem readLine_some_iff {line : Text} {e : Text × Text} :
    readLine line = .ok (some e) ↔ Entry line e.1 e.2 := by
  obtain ⟨key, value⟩ := e
  constructor
  · intro h
    unfold readLine at h
    split at h
    · cases h
    · split at h
      · cases h
      · next k v hmatch =>
        obtain ⟨hline, -, -, hvalue, hdigits⟩ := matchEntry_some_iff.mp hmatch
        split at h
        · cases h
        · next hknown =>
          split at h
          · cases h
          · next hpositive =>
            obtain ⟨rfl, rfl⟩ := Prod.mk.inj (Option.some.inj (Except.ok.inj h))
            rw [testLe_zero_iff hvalue hdigits] at hpositive
            rw [all_ne_iff, not_not] at hknown
            exact ⟨hline, hknown, hdigits, Nat.pos_of_ne_zero hpositive⟩
  · intro h
    have hvalue := ne_nil_of_positive h.positive
    obtain ⟨hne, hchars⟩ := nativeKeys_chars key h.known
    have hmatch : matchEntry (trim line) = some (key, value) :=
      matchEntry_some_iff.mpr ⟨h.line_eq, hne, hchars, hvalue, h.digits⟩
    have hpositive : testLe value (lit "0") = false := by
      rw [Bool.eq_false_iff, ne_eq, testLe_zero_iff hvalue h.digits]
      exact h.positive.ne'
    have hskipped : ¬ (trim line = [] ∨ (trim line).head? = some 35) := entry_not_skipped h
    have hknown : ¬ nativeKeys.all (· ≠ key) = true := by
      rw [all_ne_iff, not_not]
      exact h.known
    unfold readLine
    rw [if_neg hskipped, hmatch]
    simp only [if_neg hknown, hpositive, Bool.false_eq_true, if_false]

theorem readLine_ok_iff {line : Text} {e : Option (Text × Text)} :
    readLine line = .ok e ↔ Means line e := by
  cases e with
  | none => exact readLine_none_iff
  | some e => exact readLine_some_iff

theorem checkPresent_ok_iff {vals : Defaults} {keys : List Text} :
    checkPresent vals keys = .ok () ↔ ∀ key ∈ keys, vals key ≠ [] := by
  induction keys with
  | nil => simp [checkPresent]
  | cons key keys ih =>
    unfold checkPresent
    by_cases h : vals key = []
    · simp [h]
    · simp [h, ih]

theorem LastOf.mem {es : List (Option (Text × Text))} {key value : Text} (h : LastOf es key value) :
    some (key, value) ∈ es := by
  obtain ⟨before, after, rfl, -⟩ := h
  exact List.mem_append_right before List.mem_cons_self

theorem lastOf_concat {es : List (Option (Text × Text))} {e : Option (Text × Text)} {key value : Text} :
    LastOf (es ++ [e]) key value ↔
      e = some (key, value) ∨ (∀ v, e ≠ some (key, v)) ∧ LastOf es key value := by
  constructor
  · rintro ⟨before, after, hsplit, hlast⟩
    cases after using List.reverseRecOn with
    | nil =>
      obtain ⟨-, he⟩ := List.append_inj' hsplit rfl
      exact Or.inl (List.cons.inj he).1
    | append_singleton after x =>
      rw [← List.cons_append, ← List.append_assoc] at hsplit
      obtain ⟨hes, he⟩ := List.append_inj' hsplit rfl
      obtain rfl := (List.cons.inj he).1
      refine Or.inr ⟨fun v hv => hlast v (by simp [hv]), before, after, hes, fun v hv => hlast v ?_⟩
      exact List.mem_append_left _ hv
  · rintro (rfl | ⟨hother, before, after, rfl, hlast⟩)
    · exact ⟨es, [], rfl, fun _ => List.not_mem_nil⟩
    · refine ⟨before, after ++ [e], by simp, fun v hv => ?_⟩
      rcases List.mem_append.mp hv with hv | hv
      · exact hlast v hv
      · exact hother v (List.mem_singleton.mp hv).symm

theorem foldl_store {es : List (Option (Text × Text))} {key value : Text} (hvalue : value ≠ []) :
    es.foldl store (fun _ => []) key = value ↔ LastOf es key value := by
  induction es using List.reverseRecOn with
  | nil =>
    constructor
    · exact fun h => absurd h.symm hvalue
    · rintro ⟨before, after, hsplit, -⟩
      exact absurd hsplit (by simp)
  | append_singleton es e ih =>
    rw [List.foldl_append, List.foldl_cons, List.foldl_nil, lastOf_concat]
    cases e with
    | none => simpa [store] using ih
    | some e =>
      obtain ⟨k, v⟩ := e
      by_cases hk : k = key
      · subst hk
        simp [store]
      · have hupdate : store (es.foldl store fun _ => []) (some (k, v)) key =
            es.foldl store (fun _ => []) key := Function.update_of_ne (Ne.symm hk) _ _
        rw [hupdate, ih]
        simp [hk]

theorem foldl_store_unknown {es : List (Option (Text × Text))} {key : Text}
    (h : ∀ v, some (key, v) ∉ es) : es.foldl store (fun _ => []) key = [] := by
  by_contra hne
  exact h _ ((foldl_store hne).mp rfl).mem

theorem forall₂_means {lines : List Text} {es : List (Option (Text × Text))}
    (h : List.Forall₂ Means lines es) {key value : Text} (he : some (key, value) ∈ es) :
    ∃ line, Entry line key value := by
  induction h with
  | nil => cases he
  | cons hline _ ih =>
    rcases List.mem_cons.mp he with rfl | he
    · exact ⟨_, hline⟩
    · exact ih he

/-- `build.bash` reads exactly the files whose lines are blank, comments or positive entries, with one
at least for each of the keys, and takes the last entry of each. -/
theorem readBuildDefaults_ok_iff (text : Text) (vals : Defaults) :
    readBuildDefaults text = .ok vals ↔ DefaultsFile text vals := by
  unfold readBuildDefaults DefaultsFile
  rw [foldlM_eq_mapM]
  simp only [bind_ok_iff, mapM_ok_iff, readLine_ok_iff]
  constructor
  · rintro ⟨_, ⟨es, hes, hfold⟩, _, hpresent, hvals⟩
    obtain rfl := Except.ok.inj hfold
    obtain rfl := Except.ok.inj hvals
    refine ⟨es, hes, fun key hkey => ?_, fun key hkey => ?_⟩
    · exact (foldl_store (checkPresent_ok_iff.mp hpresent key hkey)).mp rfl
    · apply foldl_store_unknown
      intro v hv
      obtain ⟨line, hentry⟩ := forall₂_means hes hv
      exact hkey hentry.known
  · rintro ⟨es, hes, hlast, hunknown⟩
    have hvals : es.foldl store (fun _ => []) = vals := by
      funext key
      by_cases hkey : key ∈ nativeKeys
      · obtain ⟨line, hentry⟩ := forall₂_means hes (hlast key hkey).mem
        exact (foldl_store (ne_nil_of_positive hentry.positive)).mpr (hlast key hkey)
      · rw [hunknown key hkey]
        apply foldl_store_unknown
        intro v hv
        obtain ⟨line, hentry⟩ := forall₂_means hes hv
        exact hkey hentry.known
    refine ⟨vals, ⟨es, hes, by rw [hvals]; rfl⟩, (), ?_, rfl⟩
    rw [checkPresent_ok_iff]
    intro key hkey
    obtain ⟨line, hentry⟩ := forall₂_means hes (hlast key hkey).mem
    exact ne_nil_of_positive hentry.positive

end NativeBuild
end HakoniwaCorePro
