import HakoniwaCorePro.Fallible
import HakoniwaCorePro.JsonString
import HakoniwaCorePro.LaunchSpec
import Mathlib.Data.List.DropRight

/-!
# Build manifests

`load_simple_yaml` in `tools/hako.py`: a file of lines `key: value`, nested by their indentation. The
mappings that are open stand on a stack; here they are named by their paths from the root.
-/

namespace HakoniwaCorePro
namespace BuildManifest

open Launch (Text lit)

inductive HakoError
  | config (message : Text) | value | unicode

/-- What the interpreter brings along: how many digits of a number it converts, and the digits that are
not ASCII. The limit cannot be set to less than 640. -/
structure Python where
  digitLimit : Option {n : ℕ // 640 ≤ n}
  otherDigit : ℕ → Option (Fin 10)

/-- A mapping is the list of its items, in order. -/
inductive Yaml
  | null | bool (b : Bool) | int (n : ℤ) | str (s : Text) | map (entries : List (Text × Yaml))

abbrev Entries := List (Text × Yaml)

def isLineBreak (c : ℕ) : Bool :=
  10 ≤ c ∧ c ≤ 13 ∨ 28 ≤ c ∧ c ≤ 30 ∨ c = 0x85 ∨ c = 0x2028 ∨ c = 0x2029

def isSpace (c : ℕ) : Bool :=
  9 ≤ c ∧ c ≤ 13 ∨ 28 ≤ c ∧ c ≤ 32 ∨ c = 0x85 ∨ c = 0xA0 ∨ c = 0x1680 ∨ 0x2000 ≤ c ∧ c ≤ 0x200A ∨
    c = 0x2028 ∨ c = 0x2029 ∨ c = 0x202F ∨ c = 0x205F ∨ c = 0x3000

def rstrip (s : Text) : Text := s.rdropWhile isSpace
def strip (s : Text) : Text := rstrip (s.dropWhile isSpace)

/-- The lines of a text, of the first of which there is a part already. -/
def splitlinesFrom : Text → Text → List Text
  | line, [] => if line = [] then [] else [line]
  | line, 13 :: 10 :: rest => line :: splitlinesFrom [] rest
  | line, c :: rest =>
    if isLineBreak c then line :: splitlinesFrom [] rest else splitlinesFrom (line ++ [c]) rest

def splitlines (text : Text) : List Text := splitlinesFrom [] text

/-- Lower case in ASCII: no other character has a lower case that is a letter of `true`, `false` or `null`. -/
def lower (s : Text) : Text := s.map fun c => if 65 ≤ c ∧ c ≤ 90 then c + 32 else c

def strNat (n : ℕ) : Text := (Nat.toDigits 10 n).map Char.toNat

def Python.converts (py : Python) (digits : ℕ) : Bool :=
  match py.digitLimit with
  | none => true
  | some limit => digits ≤ limit.1

def Python.digit (py : Python) (c : ℕ) : Option ℕ :=
  if c < 128 then if 48 ≤ c ∧ c ≤ 57 then some (c - 48) else none else (py.otherDigit c).map Fin.val

def Python.digits (py : Python) : Text → Option (List ℕ)
  | [] => none
  | c :: rest =>
    match py.digit c with
    | none => none
    | some d =>
      match rest with
      | [] => some [d]
      | 95 :: rest => (py.digits rest).map (d :: ·)
      | rest => (py.digits rest).map (d :: ·)

def Python.nat (py : Python) (text : Text) : Option ℕ :=
  match py.digits text with
  | none => none
  | some digits => if py.converts digits.length then some (digits.foldl (fun n d => 10 * n + d) 0) else none

/-- `int(text)`, of a text without blanks around it. -/
def Python.int (py : Python) : Text → Option ℤ
  | 43 :: text => (py.nat text).map fun n : ℕ => (n : ℤ)
  | 45 :: text => (py.nat text).map fun n : ℕ => -(n : ℤ)
  | text => (py.nat text).map fun n : ℕ => (n : ℤ)

/-- The loop of `_strip_comment`. -/
def uncommented : Option ℕ → Bool → Text → Text
  | _, _, [] => []
  | quote, true, ch :: rest => ch :: uncommented quote false rest
  | quote, false, ch :: rest =>
    if ch = 92 ∧ quote.isSome then ch :: uncommented quote true rest
    else if ch = 39 ∨ ch = 34 then
      let quote := if quote = none then some ch else if quote = some ch then none else quote
      ch :: uncommented quote false rest
    else if ch = 35 ∧ quote = none then []
    else ch :: uncommented quote false rest

def stripComment (text : Text) : Text := rstrip (uncommented none false text)

/-- `replace` of two apostrophes by one. -/
def singleApostrophes : Text → Text
  | 39 :: 39 :: rest => 39 :: singleApostrophes rest
  | c :: rest => c :: singleApostrophes rest
  | [] => []

def parseScalar (py : Python) (text : Text) : Except HakoError Yaml :=
  let value := strip text
  if value = [] then .ok (.map [])
  else if lower value = lit "true" then .ok (.bool true)
  else if lower value = lit "false" then .ok (.bool false)
  else if lower value = lit "null" ∨ lower value = lit "~" then .ok .null
  else if value.head? = some 34 ∨ value.head? = some 39 then
    if value.length < 2 ∨ value.getLast? ≠ value.head? then
      .error (.config (lit "unterminated quoted scalar: " ++ value))
    else if value.head? = some 34 then
      match JsonString.decode value with
      | some s => .ok (.str s)
      | none => .error (.config (lit "invalid quoted scalar: " ++ value))
    else .ok (.str (singleApostrophes (value.drop 1).dropLast))
  else
    match py.int value with
    | some n => .ok (.int n)
    | none => .ok (.str value)

def atLine (path : Text) (lineno : ℕ) (message : Text) : HakoError :=
  .config (path ++ lit ":" ++ strNat lineno ++ lit ": " ++ message)

/-- The indentation of a line, its key, and what stands behind the colon; nothing of an empty line. -/
def lineEntry (path : Text) (lineno : ℕ) (raw : Text) : Except HakoError (Option (ℕ × Text × Text)) :=
  if 9 ∈ raw then .error (atLine path lineno (lit "tabs are not allowed"))
  else
    let line := stripComment raw
    if strip line = [] then .ok none
    else
      let stripped := line.dropWhile (· = 32)
      let indent := line.length - stripped.length
      if stripped.head? = some 45 then
        .error (atLine path lineno (lit "sequences are not supported in build manifest v1"))
      else if 58 ∉ stripped then .error (atLine path lineno (lit "expected 'key: value'"))
      else
        let key := strip (stripped.takeWhile (· ≠ 58))
        if key = [] then .error (atLine path lineno (lit "empty key"))
        else .ok (some (indent, key, (stripped.dropWhile (· ≠ 58)).drop 1))

def entry (key : Text) : Entries → Option Yaml
  | [] => none
  | (k, v) :: rest => if k = key then some v else entry key rest

def mappingAt : List Text → Entries → Option Entries
  | [], es => some es
  | k :: path, es =>
    match entry k es with
    | some (.map sub) => mappingAt path sub
    | _ => none

def insertAt : List Text → Text → Yaml → Entries → Entries
  | [], key, v, es => es ++ [(key, v)]
  | k :: path, key, v, es => es.map fun e =>
    (e.1, if e.1 = k then
        match e.2 with
        | .map sub => .map (insertAt path key v sub)
        | w => w
      else e.2)

/-- The root, and the indentation and the path of each open mapping, the innermost first. -/
structure Reading where
  root : Entries
  stack : List (ℤ × List Text)

def Reading.start : Reading := ⟨[], [(-1, [])]⟩

def readLine (py : Python) (path : Text) (lineno : ℕ) (st : Reading) (raw : Text) :
    Except HakoError Reading := do
  match ← lineEntry path lineno raw with
  | none => return st
  | some (indent, key, rawValue) =>
    match st.stack.dropWhile fun frame => (indent : ℤ) ≤ frame.1 with
    | [] => .error (atLine path lineno (lit "invalid indentation"))
    | frame :: stack =>
      if (((mappingAt frame.2 st.root).bind (entry key)).isSome : Bool) then
        .error (atLine path lineno (lit "duplicate key: " ++ key))
      else
        let parsed ← parseScalar py rawValue
        let root := insertAt frame.2 key parsed st.root
        match parsed with
        | .map _ => return ⟨root, (indent, frame.2 ++ [key]) :: frame :: stack⟩
        | _ => return ⟨root, frame :: stack⟩

def readLines (py : Python) (path : Text) : ℕ → Reading → List Text → Except HakoError Reading
  | _, st, [] => .ok st
  | lineno, st, raw :: rest => do
    let st ← readLine py path lineno st raw
    readLines py path (lineno + 1) st rest

/-- The text is that of the file `path`. -/
def loadSimpleYaml (py : Python) (path text : Text) : Except HakoError Entries := do
  let st ← readLines py path 1 Reading.start (splitlines text)
  return st.root

theorem splitlinesFrom_cons (line : Text) {c : ℕ} (hc : c ≠ 13) (rest : Text) :
    splitlinesFrom line (c :: rest) =
      if isLineBreak c then line :: splitlinesFrom [] rest else splitlinesFrom (line ++ [c]) rest := by
  rw [splitlinesFrom]
  intro rest' h
  exact absurd h hc

theorem splitlinesFrom_break (line : Text) {s : Text} (hs : ∀ c ∈ s, isLineBreak c = false) {b : ℕ}
    (hb : isLineBreak b = true) (hreturn : b ≠ 13) (rest : Text) :
    splitlinesFrom line (s ++ b :: rest) = (line ++ s) :: splitlines rest := by
  induction s generalizing line with
  | nil =>
    rw [List.nil_append, splitlinesFrom_cons line hreturn, if_pos hb, List.append_nil]
    rfl
  | cons c s ih =>
    have hc : isLineBreak c = false := hs c List.mem_cons_self
    have hne : c ≠ 13 := by
      intro h
      subst h
      exact absurd hc (by decide)
    rw [List.cons_append, splitlinesFrom_cons line hne, if_neg (by simp [hc]),
      ih (line ++ [c]) fun x hx => hs x (List.mem_cons_of_mem c hx), List.append_assoc]
    rfl

theorem splitlines_break {s : Text} (hs : ∀ c ∈ s, isLineBreak c = false) {b : ℕ}
    (hb : isLineBreak b = true) (hreturn : b ≠ 13) (rest : Text) :
    splitlines (s ++ b :: rest) = s :: splitlines rest :=
  splitlinesFrom_break [] hs hb hreturn rest

def unlines (lines : List Text) : Text := lines.flatMap fun line => line ++ [10]

theorem splitlines_unlines {lines : List Text} (h : ∀ line ∈ lines, ∀ c ∈ line, isLineBreak c = false)
    (rest : Text) : splitlines (unlines lines ++ rest) = lines ++ splitlines rest := by
  induction lines with
  | nil => rfl
  | cons line lines ih =>
    have hfirst : unlines (line :: lines) ++ rest = line ++ 10 :: (unlines lines ++ rest) := by
      simp [unlines]
    rw [hfirst, splitlines_break (h line List.mem_cons_self) (by decide) (by decide),
      ih fun l hl => h l (List.mem_cons_of_mem line hl)]
    rfl

theorem uncommented_plain {s : Text} (h : ∀ c ∈ s, c ≠ 34 ∧ c ≠ 35 ∧ c ≠ 39) (rest : Text) :
    uncommented none false (s ++ rest) = s ++ uncommented none false rest := by
  induction s with
  | nil => rfl
  | cons c s ih =>
    obtain ⟨h1, h2, h3⟩ := h c List.mem_cons_self
    rw [List.cons_append, uncommented, if_neg (by simp), if_neg (by omega), if_neg (by simp [h2]),
      ih fun x hx => h x (List.mem_cons_of_mem c hx)]
    rfl

open JsonString in
/-- Inside of the marks, an escaped character neither ends the string nor begins a comment. -/
theorem uncommented_form {c : ℕ} {text : Text} (h : EscapeForm c text) (rest : Text) :
    uncommented (some 34) false (text ++ rest) = text ++ uncommented (some 34) false rest := by
  cases h with
  | raw hlow hquote hslash =>
    by_cases hc : c = 39
    · subst hc
      rfl
    · rw [List.singleton_append, uncommented, if_neg (by simp [hslash]), if_neg (by omega),
        if_neg (by simp)]
      rfl
  | short x hx hvisible hread => rfl
  | long hlow =>
    have hdigit : ∀ d < 16, hexDigit d ≠ 34 ∧ hexDigit d ≠ 39 ∧ hexDigit d ≠ 92 := by decide
    obtain ⟨h1, h2, h3⟩ := hdigit (c / 16) (by omega)
    obtain ⟨h4, h5, h6⟩ := hdigit (c % 16) (by omega)
    simp [uncommented, h1, h2, h3, h4, h5, h6]

open JsonString in
theorem uncommented_escaped (s rest : Text) :
    uncommented (some 34) false (escaped s ++ rest) = escaped s ++ uncommented (some 34) false rest := by
  induction s with
  | nil => rfl
  | cons c s ih =>
    rw [escaped_cons, List.append_assoc, uncommented_form (escapeChar_form c), ih, List.append_assoc]

theorem rstrip_append {c : ℕ} (hc : isSpace c = false) (s t : Text) :
    rstrip (s ++ c :: t) = s ++ c :: rstrip t := by
  induction t using List.reverseRecOn with
  | nil =>
    rw [rstrip, List.rdropWhile_concat_neg _ _ _ (by simp [hc])]
    rfl
  | append_singleton t x ih =>
    have hassoc : s ++ c :: (t ++ [x]) = (s ++ c :: t) ++ [x] := by simp
    unfold rstrip at ih ⊢
    rw [hassoc]
    by_cases hx : isSpace x = true
    · rw [List.rdropWhile_concat_pos _ _ _ hx, ih, List.rdropWhile_concat_pos _ _ _ hx]
    · rw [List.rdropWhile_concat_neg _ _ _ hx, List.rdropWhile_concat_neg _ _ _ hx, hassoc]

theorem rstrip_visible (s : Text) {t : Text} (hne : t ≠ []) (h : ∀ c ∈ t, isSpace c = false) :
    rstrip (s ++ t) = s ++ t := by
  refine List.rdropWhile_eq_self_iff.mpr fun hl => ?_
  rw [List.getLast_append_of_ne_nil _ hne]
  simp [h _ (List.getLast_mem hne)]

theorem strip_visible {s : Text} (h : ∀ c ∈ s, isSpace c = false) : strip s = s := by
  cases s with
  | nil => rfl
  | cons c s =>
    unfold strip
    rw [List.dropWhile_cons_of_neg (by simp [h c])]
    exact rstrip_visible [] (List.cons_ne_nil c s) h

theorem strip_blank (s : Text) : strip (32 :: s) = strip s := by
  unfold strip
  rw [List.dropWhile_cons_of_pos (by decide)]

/-- The keys that are written: letters and underscores. -/
def Word (key : Text) : Prop := key ≠ [] ∧ ∀ c ∈ key, 97 ≤ c ∧ c ≤ 122 ∨ c = 95

instance (key : Text) : Decidable (Word key) := inferInstanceAs (Decidable (_ ∧ _))

theorem isSpace_letter {c : ℕ} (h : 97 ≤ c ∧ c ≤ 122 ∨ c = 95) : isSpace c = false := by
  unfold isSpace
  rw [decide_eq_false_iff_not]
  omega

theorem Word.strip_eq {key : Text} (hkey : Word key) : strip key = key :=
  strip_visible fun c hc => isSpace_letter (hkey.2 c hc)

theorem Word.letter {key : Text} (hkey : Word key) {c : ℕ} (hc : c ∈ key) :
    c ≠ 9 ∧ c ≠ 32 ∧ c ≠ 34 ∧ c ≠ 35 ∧ c ≠ 39 ∧ c ≠ 45 ∧ c ≠ 58 := by
  have hrange := hkey.2 c hc
  omega

theorem dropWhile_indent {p : ℕ → Bool} (hp : p 32 = true) (indent : ℕ) (s : Text) :
    (List.replicate indent 32 ++ s).dropWhile p = s.dropWhile p := by
  apply List.dropWhile_append_of_pos
  intro c hc
  rwa [(List.mem_replicate.mp hc).2]

theorem stripComment_entry {key : Text} (hkey : Word key) (indent : ℕ) (raw : Text) :
    stripComment (List.replicate indent 32 ++ (key ++ 58 :: raw)) =
      List.replicate indent 32 ++ (key ++ 58 :: stripComment raw) := by
  have hplain : ∀ c ∈ List.replicate indent 32 ++ key ++ [58], c ≠ 34 ∧ c ≠ 35 ∧ c ≠ 39 := by
    intro c hc
    simp only [List.mem_append, List.mem_replicate, List.mem_singleton] at hc
    rcases hc with (hc | hc) | hc
    · omega
    · have hletter := hkey.letter hc
      omega
    · omega
  have hsplit := uncommented_plain hplain raw
  simp only [List.append_assoc, List.singleton_append] at hsplit
  unfold stripComment
  rw [hsplit, ← List.append_assoc, ← List.append_assoc, rstrip_append (by decide)]

theorem lineEntry_word {key : Text} (hkey : Word key) (path : Text) (lineno indent : ℕ) {raw : Text}
    (htab : 9 ∉ raw) :
    lineEntry path lineno (List.replicate indent 32 ++ (key ++ 58 :: raw)) =
      .ok (some (indent, key, stripComment raw)) := by
  obtain ⟨k, ks, rfl⟩ := List.exists_cons_of_ne_nil hkey.1
  have hk := hkey.letter List.mem_cons_self
  have hnotab : 9 ∉ List.replicate indent 32 ++ (k :: ks ++ 58 :: raw) := by
    simp only [List.mem_append, List.mem_replicate, List.mem_cons]
    rintro (⟨_, h⟩ | h | h | h)
    · omega
    · exact (hkey.letter (List.mem_cons.mpr h)).1 rfl
    · omega
    · exact htab h
  have hblank : strip (List.replicate indent 32 ++ (k :: ks ++ 58 :: stripComment raw)) ≠ [] := by
    have hspace := isSpace_letter (hkey.2 k List.mem_cons_self)
    unfold strip rstrip
    rw [dropWhile_indent (by decide), List.cons_append, List.dropWhile_cons_of_neg (by simp [hspace]), ne_eq,
      List.rdropWhile_eq_nil_iff]
    intro hall
    exact absurd (hall k List.mem_cons_self) (by simp [hspace])
  have hstripped : (List.replicate indent 32 ++ (k :: ks ++ 58 :: stripComment raw)).dropWhile (· = 32) =
      k :: ks ++ 58 :: stripComment raw := by
    rw [dropWhile_indent (by decide), List.cons_append, List.dropWhile_cons_of_neg (by simp [hk.2.1])]
  have hcolon : ∀ c ∈ k :: ks, (decide (c ≠ 58)) = true := by
    intro c hc
    simp [hkey.letter hc]
  have htake : (k :: ks ++ 58 :: stripComment raw).takeWhile (· ≠ 58) = k :: ks := by
    rw [List.takeWhile_append_of_pos hcolon]
    simp
  have hdrop : (k :: ks ++ 58 :: stripComment raw).dropWhile (· ≠ 58) = 58 :: stripComment raw := by
    rw [List.dropWhile_append_of_pos hcolon]
    simp
  unfold lineEntry
  rw [if_neg hnotab, stripComment_entry hkey]
  simp only [if_neg hblank, hstripped, htake, hdrop, hkey.strip_eq]
  simp [hk]

/-- The innermost open mapping is left open if the item is not a mapping itself. -/
def Reading.put (st : Reading) (indent : ℕ) (key : Text) (frame : ℤ × List Text)
    (stack : List (ℤ × List Text)) (value : Yaml) : Reading where
  root := insertAt frame.2 key value st.root
  stack := match value with
    | .map _ => (indent, frame.2 ++ [key]) :: frame :: stack
    | _ => frame :: stack

/-- What a line does that is read without an error. -/
inductive LineRead (py : Python) (path : Text) (lineno : ℕ) (st : Reading) (raw : Text) : Reading → Prop
  | empty (hline : lineEntry path lineno raw = .ok none) : LineRead py path lineno st raw st
  | item {indent : ℕ} {key rawValue : Text} {frame : ℤ × List Text} {stack : List (ℤ × List Text)} {value : Yaml}
    (hline : lineEntry path lineno raw = .ok (some (indent, key, rawValue)))
    (hstack : (st.stack.dropWhile fun frame => (indent : ℤ) ≤ frame.1) = frame :: stack)
    (hnew : (mappingAt frame.2 st.root).bind (entry key) = none)
    (hvalue : parseScalar py rawValue = .ok value) :
    LineRead py path lineno st raw (st.put indent key frame stack value)

theorem readLine_item {py : Python} {path : Text} {lineno indent : ℕ} {st : Reading} {raw key rawValue : Text}
    {frame : ℤ × List Text} {stack : List (ℤ × List Text)}
    (hline : lineEntry path lineno raw = .ok (some (indent, key, rawValue)))
    (hstack : (st.stack.dropWhile fun frame => (indent : ℤ) ≤ frame.1) = frame :: stack)
    (hnew : (mappingAt frame.2 st.root).bind (entry key) = none) :
    readLine py path lineno st raw = (parseScalar py rawValue).map (st.put indent key frame stack) := by
  unfold readLine
  rw [hline]
  simp only [bind, Except.bind, hstack, hnew]
  cases parseScalar py rawValue with
  | error e => rfl
  | ok value => cases value <;> rfl

theorem readLine_ok_iff {py : Python} {path : Text} {lineno : ℕ} {st st' : Reading} {raw : Text} :
    readLine py path lineno st raw = .ok st' ↔ LineRead py path lineno st raw st' := by
  constructor
  · intro h
    cases hline : lineEntry path lineno raw with
    | error e =>
      rw [readLine, hline] at h
      cases h
    | ok entry =>
      cases entry with
      | none =>
        rw [readLine, hline] at h
        cases h
        exact .empty hline
      | some entry =>
        obtain ⟨indent, key, rawValue⟩ := entry
        cases hstack : st.stack.dropWhile fun frame => (indent : ℤ) ≤ frame.1 with
        | nil =>
          simp [readLine, hline, hstack, bind, Except.bind] at h
        | cons frame stack =>
          cases hnew : (mappingAt frame.2 st.root).bind (entry key) with
          | some value => simp [readLine, hline, hstack, hnew, bind, Except.bind] at h
          | none =>
            rw [readLine_item hline hstack hnew] at h
            cases hvalue : parseScalar py rawValue with
            | error e =>
              rw [hvalue] at h
              cases h
            | ok value =>
              rw [hvalue] at h
              cases h
              exact .item hline hstack hnew hvalue
  · intro h
    cases h with
    | empty hline =>
      rw [readLine, hline]
      rfl
    | item hline hstack hnew hvalue =>
      rw [readLine_item hline hstack hnew, hvalue]
      rfl

theorem readLines_append (py : Python) (path : Text) (lineno : ℕ) (st : Reading) (xs ys : List Text) :
    readLines py path lineno st (xs ++ ys) =
      readLines py path lineno st xs >>= fun st => readLines py path (lineno + xs.length) st ys := by
  induction xs generalizing lineno st with
  | nil => rfl
  | cons x xs ih =>
    simp only [List.cons_append, readLines, ih, bind_assoc, List.length_cons]
    congr 1
    funext st
    rw [Nat.add_right_comm, Nat.add_assoc]

theorem readLines_invariant {py : Python} {path : Text} {I : Reading → Prop}
    (hstep : ∀ lineno st raw st', I st → LineRead py path lineno st raw st' → I st') {lineno : ℕ}
    {st st' : Reading} {lines : List Text} (hst : I st) (h : readLines py path lineno st lines = .ok st') :
    I st' := by
  induction lines generalizing lineno st with
  | nil =>
    cases h
    exact hst
  | cons raw lines ih =>
    obtain ⟨next, hline, hrest⟩ := Fallible.bind_ok_iff.mp h
    exact ih (hstep lineno st raw next hst (readLine_ok_iff.mp hline)) hrest

theorem readLines_mem {py : Python} {path : Text} {lineno : ℕ} {st st' : Reading} {lines : List Text}
    (h : readLines py path lineno st lines = .ok st') {raw : Text} (hraw : raw ∈ lines) :
    ∃ n s s', LineRead py path n s raw s' := by
  induction lines generalizing lineno st with
  | nil => cases hraw
  | cons line lines ih =>
    obtain ⟨next, hline, hrest⟩ := Fallible.bind_ok_iff.mp h
    rcases List.mem_cons.mp hraw with rfl | hmem
    · exact ⟨lineno, st, next, readLine_ok_iff.mp hline⟩
    · exact ih hrest hmem

theorem loadSimpleYaml_ok_iff {py : Python} {path text : Text} {doc : Entries} :
    loadSimpleYaml py path text = .ok doc ↔
      ∃ st, readLines py path 1 Reading.start (splitlines text) = .ok st ∧ st.root = doc := by
  unfold loadSimpleYaml
  rw [Fallible.bind_ok_iff]
  simp [pure, Except.pure]

theorem entry_eq_none_iff (key : Text) (es : Entries) : entry key es = none ↔ key ∉ es.map Prod.fst := by
  induction es with
  | nil => simp [entry]
  | cons e es ih =>
    by_cases h : e.1 = key
    · simp [entry, h]
    · have hne : ¬ key = e.1 := fun he => h he.symm
      simp [entry, h, hne, ih]

theorem entry_append (key : Text) (es fs : Entries) :
    entry key (es ++ fs) = (entry key es).or (entry key fs) := by
  induction es with
  | nil => rfl
  | cons e es ih =>
    by_cases h : e.1 = key
    · simp [entry, h]
    · simp [entry, h, ih]

theorem entry_insertAt {key : Text} {v : Yaml} {es : Entries} (h : entry key es = some v) {path : List Text}
    (hpath : path.head? ≠ some key) (k : Text) (w : Yaml) : entry key (insertAt path k w es) = some v := by
  cases path with
  | nil =>
    rw [insertAt, entry_append, h]
    rfl
  | cons p path =>
    have hne : key ≠ p := fun he => hpath (congrArg some he.symm)
    rw [insertAt]
    induction es with
    | nil => cases h
    | cons e es ih =>
      obtain ⟨k', v'⟩ := e
      rw [List.map_cons, entry]
      by_cases hk : k' = key
      · subst hk
        rw [entry, if_pos rfl] at h
        rw [if_pos rfl, if_neg hne]
        exact h
      · rw [entry, if_neg hk] at h
        rw [if_neg hk]
        exact ih h

/-- An item of the root that no line can change any more: it is not among the open mappings. -/
structure Closed (key : Text) (value : Yaml) (st : Reading) : Prop where
  found : entry key st.root = some value
  notOpen : ∀ frame ∈ st.stack, frame.2.head? ≠ some key

theorem Closed.step {key : Text} {value : Yaml} {py : Python} {path : Text} {lineno : ℕ} {st st' : Reading}
    {raw : Text} (h : Closed key value st) (hline : LineRead py path lineno st raw st') :
    Closed key value st' := by
  cases hline with
  | empty hempty => exact h
  | @item indent k rawValue frame stack v hitem hstack hnew hvalue =>
    have hopen : ∀ f ∈ frame :: stack, f.2.head? ≠ some key := by
      intro f hf
      rw [← hstack] at hf
      exact h.notOpen f ((List.dropWhile_sublist _).subset hf)
    have hchild : (frame.2 ++ [k]).head? ≠ some key := by
      cases hpath : frame.2 with
      | nil =>
        intro hk
        cases hk
        rw [hpath] at hnew
        cases h.found.symm.trans hnew
      | cons p path =>
        have hframe := hopen frame List.mem_cons_self
        rwa [hpath] at hframe
    refine ⟨entry_insertAt h.found (hopen frame List.mem_cons_self) k v, ?_⟩
    intro f hf
    cases v with
    | map es =>
      rcases List.mem_cons.mp hf with rfl | hf
      · exact hchild
      · exact hopen f hf
    | _ => exact hopen f hf

theorem Closed.readLines {key : Text} {value : Yaml} {py : Python} {path : Text} {lineno : ℕ}
    {st st' : Reading} {lines : List Text} (h : Closed key value st)
    (hread : readLines py path lineno st lines = .ok st') : Closed key value st' :=
  readLines_invariant (fun _ _ _ _ hst hline => hst.step hline) h hread

end BuildManifest
end HakoniwaCorePro
