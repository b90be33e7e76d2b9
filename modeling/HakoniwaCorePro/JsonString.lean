import Mathlib.Data.List.Infix
import Mathlib.Tactic.Common
import Mathlib.Tactic.IntervalCases

/-!
# JSON strings

A string is the list of its code points. 34 is the quotation mark, 92 the backslash. Characters that
are not in ASCII are written as they are.
-/

namespace JsonString

def hexDigit (d : ℕ) : ℕ := if d < 10 then 48 + d else 87 + d

def hexValue (c : ℕ) : Option ℕ :=
  if 48 ≤ c ∧ c ≤ 57 then some (c - 48)
  else if 97 ≤ c ∧ c ≤ 102 then some (c - 87)
  else if 65 ≤ c ∧ c ≤ 70 then some (c - 55)
  else none

theorem hexValue_hexDigit : ∀ d < 16, hexValue (hexDigit d) = some d := by decide

def escapeChar (c : ℕ) : List ℕ :=
  if c = 34 then [92, 34]
  else if c = 92 then [92, 92]
  else if c = 8 then [92, 98]
  else if c = 12 then [92, 102]
  else if c = 10 then [92, 110]
  else if c = 13 then [92, 114]
  else if c = 9 then [92, 116]
  else if c < 32 then [92, 117, 48, 48, hexDigit (c / 16), hexDigit (c % 16)]
  else [c]

def escaped (s : List ℕ) : List ℕ := s.flatMap escapeChar

def quoted (s : List ℕ) : List ℕ := 34 :: (escaped s ++ [34])

/-- The character for which a letter stands behind a backslash. -/
def unescape (c : ℕ) : Option ℕ :=
  if c = 34 ∨ c = 92 ∨ c = 47 then some c
  else if c = 98 then some 8
  else if c = 102 then some 12
  else if c = 110 then some 10
  else if c = 114 then some 13
  else if c = 116 then some 9
  else none

def hexFour (a b c d : ℕ) : Option ℕ := do
  let w ← hexValue a
  let x ← hexValue b
  let y ← hexValue c
  let z ← hexValue d
  return 4096 * w + 256 * x + 16 * y + z

def escapedUnit : List ℕ → Option ℕ
  | 92 :: 117 :: a :: b :: c :: d :: _ => hexFour a b c d
  | _ => none

/-- A unit before what has been read of the rest: two halves of a pair become one character. -/
def pairUp (unit : ℕ) (rest read : List ℕ) : List ℕ :=
  match escapedUnit rest with
  | none => unit :: read
  | some low =>
    if 0xD800 ≤ unit ∧ unit ≤ 0xDBFF ∧ 0xDC00 ≤ low ∧ low ≤ 0xDFFF then
      (0x10000 + (unit - 0xD800) * 1024 + (low - 0xDC00)) :: read.drop 1
    else unit :: read

/-- What is read behind the opening mark, and what is left behind the closing one. Control
characters have to be escaped. -/
def scan : List ℕ → Option (List ℕ × List ℕ)
  | [] => none
  | 34 :: rest => some ([], rest)
  | 92 :: 117 :: a :: b :: c :: d :: rest =>
    match hexFour a b c d with
    | none => none
    | some unit => (scan rest).map fun p => (pairUp unit rest p.1, p.2)
  | 92 :: c :: rest =>
    match unescape c with
    | none => none
    | some x => (scan rest).map fun p => (x :: p.1, p.2)
  | c :: rest => if c < 32 ∨ c = 92 then none else (scan rest).map fun p => (c :: p.1, p.2)

def isBlank (c : ℕ) : Bool := c = 32 ∨ c = 9 ∨ c = 10 ∨ c = 13

def decode : List ℕ → Option (List ℕ)
  | 34 :: rest => (scan rest).bind fun p => if p.2.all isBlank then some p.1 else none
  | _ => none

inductive EscapeForm (c : ℕ) : List ℕ → Prop
  | raw (hlow : 32 ≤ c) (hquote : c ≠ 34) (hslash : c ≠ 92) : EscapeForm c [c]
  | short (x : ℕ) (hx : x ≠ 117) (hvisible : 32 ≤ x ∧ x < 127) (hread : unescape x = some c) :
    EscapeForm c [92, x]
  | long (hlow : c < 32) : EscapeForm c [92, 117, 48, 48, hexDigit (c / 16), hexDigit (c % 16)]

theorem escapeChar_form (c : ℕ) : EscapeForm c (escapeChar c) := by
  unfold escapeChar
  split_ifs with h1 h2 h3 h4 h5 h6 h7 h8
  · subst h1
    exact .short 34 (by decide) (by decide) rfl
  · subst h2
    exact .short 92 (by decide) (by decide) rfl
  · subst h3
    exact .short 98 (by decide) (by decide) rfl
  · subst h4
    exact .short 102 (by decide) (by decide) rfl
  · subst h5
    exact .short 110 (by decide) (by decide) rfl
  · subst h6
    exact .short 114 (by decide) (by decide) rfl
  · subst h7
    exact .short 116 (by decide) (by decide) rfl
  · exact .long h8
  · exact .raw (by omega) h1 h2

theorem hexFour_low {c : ℕ} (h : c < 32) :
    hexFour 48 48 (hexDigit (c / 16)) (hexDigit (c % 16)) = some c := by
  have hhigh := hexValue_hexDigit (c / 16) (by omega)
  have hlow := hexValue_hexDigit (c % 16) (by omega)
  have hzero : hexValue 48 = some 0 := rfl
  simp only [hexFour, hhigh, hlow, hzero, Option.bind_eq_bind, Option.bind_some]
  change some _ = some c
  congr 1
  omega

theorem pairUp_low {c : ℕ} (h : c < 32) (rest read : List ℕ) : pairUp c rest read = c :: read := by
  unfold pairUp
  cases escapedUnit rest with
  | none => rfl
  | some low => exact if_neg (by omega)

theorem scan_raw {c : ℕ} (hlow : 32 ≤ c) (hquote : c ≠ 34) (hslash : c ≠ 92) (rest : List ℕ) :
    scan (c :: rest) = (scan rest).map fun p => (c :: p.1, p.2) := by
  rw [scan, if_neg (by omega)]
  · exact hquote
  · intro a b c d rest h
    exact absurd h hslash
  · intro c rest h
    exact absurd h hslash

theorem scan_short {x c : ℕ} (hx : x ≠ 117) (hread : unescape x = some c) (rest : List ℕ) :
    scan (92 :: x :: rest) = (scan rest).map fun p => (c :: p.1, p.2) := by
  rw [scan]
  · rw [hread]
  · intro a b c d rest h
    exact absurd h hx

theorem EscapeForm.scan {c : ℕ} {text : List ℕ} (h : EscapeForm c text) (rest : List ℕ) :
    scan (text ++ rest) = (scan rest).map fun p => (c :: p.1, p.2) := by
  cases h with
  | raw hlow hquote hslash => exact scan_raw hlow hquote hslash rest
  | short x hx hvisible hread => exact scan_short hx hread rest
  | long hlow =>
    simp only [List.cons_append, List.nil_append, JsonString.scan, hexFour_low hlow, pairUp_low hlow]

theorem escaped_cons (c : ℕ) (s : List ℕ) : escaped (c :: s) = escapeChar c ++ escaped s := rfl

theorem escaped_append (s t : List ℕ) : escaped (s ++ t) = escaped s ++ escaped t := List.flatMap_append

theorem scan_escaped (s rest : List ℕ) : scan (escaped s ++ 34 :: rest) = some (s, rest) := by
  induction s with
  | nil => rfl
  | cons c s ih =>
    rw [escaped_cons, List.append_assoc, (escapeChar_form c).scan, ih]
    rfl

theorem decode_quoted (s : List ℕ) : decode (quoted s) = some s := by
  simp [decode, quoted, scan_escaped]

/-- Of an escaped character that is cut off, nothing is read. -/
theorem EscapeForm.scan_cut {c : ℕ} {text p : List ℕ} (h : EscapeForm c text) (hp : p <+: text)
    (hcut : p ≠ text) : JsonString.scan p = none := by
  cases h with
  | raw hlow hquote hslash =>
    rcases List.prefix_cons_iff.mp hp with rfl | ⟨t, rfl, ht⟩
    · rfl
    · rw [List.prefix_nil.mp ht] at hcut
      exact absurd rfl hcut
  | short x hx hvisible hread =>
    rcases List.prefix_cons_iff.mp hp with rfl | ⟨t, rfl, ht⟩
    · rfl
    · rcases List.prefix_cons_iff.mp ht with rfl | ⟨u, rfl, hu⟩
      · rfl
      · rw [List.prefix_nil.mp hu] at hcut
        exact absurd rfl hcut
  | long hlow =>
    have hlength : p.length < 6 := lt_of_le_of_ne hp.length_le fun h => hcut (hp.eq_of_length h)
    have htake := List.prefix_iff_eq_take.mp hp
    rw [htake]
    interval_cases p.length <;> rfl

theorem scan_cut {s p : List ℕ} (h : p <+: escaped s) : scan p = none := by
  induction s generalizing p with
  | nil =>
    rw [List.prefix_nil.mp h]
    rfl
  | cons c s ih =>
    rw [escaped_cons] at h
    rcases List.prefix_or_prefix_of_prefix h (List.prefix_append _ _) with hshort | ⟨q, rfl⟩
    · by_cases hall : p = escapeChar c
      · have hform := (escapeChar_form c).scan []
        rw [List.append_nil] at hform
        rw [hall, hform]
        rfl
      · exact (escapeChar_form c).scan_cut hshort hall
    · rw [(escapeChar_form c).scan, ih ((List.prefix_append_right_inj _).mp h)]
      rfl

theorem EscapeForm.mem {c x : ℕ} {text : List ℕ} (h : EscapeForm c text) (hx : x ∈ text) :
    32 ≤ x ∧ (x < 127 ∨ x = c) := by
  cases h with
  | raw hlow hquote hslash =>
    rw [List.mem_singleton.mp hx]
    exact ⟨hlow, Or.inr rfl⟩
  | short y hy hvisible hread =>
    simp only [List.mem_cons, List.not_mem_nil, or_false] at hx
    omega
  | long hlow =>
    have hdigit : ∀ d < 16, 32 ≤ hexDigit d ∧ hexDigit d < 127 := by decide
    have hfirst := hdigit (c / 16) (by omega)
    have hsecond := hdigit (c % 16) (by omega)
    simp only [List.mem_cons, List.not_mem_nil, or_false] at hx
    omega

theorem mem_escaped {s : List ℕ} {x : ℕ} (h : x ∈ escaped s) : 32 ≤ x ∧ (x < 127 ∨ x ∈ s) := by
  obtain ⟨c, hc, hx⟩ := List.mem_flatMap.mp h
  obtain ⟨hlow, hx⟩ := (escapeChar_form c).mem hx
  refine ⟨hlow, hx.imp_right ?_⟩
  intro he
  rwa [he]

theorem escaped_split {s t : List ℕ} {c : ℕ} (h : 127 ≤ c) :
    escaped (s ++ c :: t) = escaped s ++ c :: escaped t := by
  have hraw : escapeChar c = [c] := by
    unfold escapeChar
    split_ifs <;> first | rfl | omega
  rw [escaped_append, escaped_cons, hraw]
  rfl

end JsonString
