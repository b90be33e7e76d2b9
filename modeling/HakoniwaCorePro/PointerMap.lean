import Mathlib.Data.List.Perm.Basic
import Mathlib.Logic.Function.Basic
import Mathlib.Tactic.Common

/-!
# Maps of pointers

A map from keys to pointers that may be null. Indexing it with a key that has no entry makes one,
with a null pointer; a walk over the map, in whatever order, follows each pointer without a test.
-/

namespace PointerMap

variable {K V : Type*}

/-- The keys that have an entry, and what the pointers point to. -/
structure PtrMap (K V : Type*) where
  keys : List K
  get : K → Option V
  mem_keys : ∀ k v, get k = some v → k ∈ keys

def PtrMap.empty : PtrMap K V := ⟨[], fun _ => none, nofun⟩

section

variable [DecidableEq K]

/-- `map[k]` -/
def PtrMap.index (k : K) (m : PtrMap K V) : PtrMap K V where
  keys := if k ∈ m.keys then m.keys else k :: m.keys
  get := m.get
  mem_keys := by
    intro i v hi
    have hmem := m.mem_keys i v hi
    split
    · exact hmem
    · exact List.mem_cons_of_mem k hmem

/-- `map[k] = v` -/
def PtrMap.insert (k : K) (v : V) (m : PtrMap K V) : PtrMap K V where
  keys := (m.index k).keys
  get := Function.update m.get k (some v)
  mem_keys := by
    intro i w hi
    by_cases hik : i = k
    · subst hik
      simp only [index]
      split
      · assumption
      · exact List.mem_cons_self
    · rw [Function.update_of_ne hik] at hi
      exact (m.index k).mem_keys i w hi

@[simp] theorem get_index (k : K) (m : PtrMap K V) : (m.index k).get = m.get := rfl

@[simp] theorem get_insert (k : K) (v : V) (m : PtrMap K V) :
    (m.insert k v).get = Function.update m.get k (some v) := rfl

end

/-- An order in which the map may be walked: any. -/
structure Order (K : Type*) where
  visit : List K → List K
  perm : ∀ l, (visit l).Perm l

inductive Walked (K : Type*)
  | found (k : K)
  | nullDereference
  | exhausted
  deriving DecidableEq

/-- The walk looks for what satisfies `p`. -/
def PtrMap.walk (p : V → Bool) (m : PtrMap K V) : List K → Walked K
  | [] => .exhausted
  | k :: ks =>
    match m.get k with
    | none => .nullDereference
    | some v => if p v then .found k else m.walk p ks

/-- All these entries point to something else. -/
def PtrMap.Passed (p : V → Bool) (m : PtrMap K V) (ks : List K) : Prop :=
  ∀ k ∈ ks, ∃ v, m.get k = some v ∧ p v = false

/-- A null pointer comes before what is looked for. -/
def PtrMap.NullFirst (p : V → Bool) (m : PtrMap K V) (ks : List K) : Prop :=
  ∃ ks₁ k ks₂, ks = ks₁ ++ k :: ks₂ ∧ m.get k = none ∧ m.Passed p ks₁

section

variable {p : V → Bool} {m : PtrMap K V}

theorem passed_cons {k : K} {ks : List K} {v : V} (hv : m.get k = some v) (hp : p v = false) :
    m.Passed p (k :: ks) ↔ m.Passed p ks := by
  simp [PtrMap.Passed, hv, hp]

theorem nullFirst_cons {k : K} {ks : List K} {v : V} (hv : m.get k = some v) (hp : p v = false) :
    m.NullFirst p (k :: ks) ↔ m.NullFirst p ks := by
  constructor
  · rintro ⟨ks₁, j, ks₂, hsplit, hnull, hpassed⟩
    cases ks₁ with
    | nil =>
      obtain ⟨rfl, -⟩ := List.cons.inj hsplit
      rw [hv] at hnull
      cases hnull
    | cons i ks₁ =>
      obtain ⟨rfl, rfl⟩ := List.cons.inj hsplit
      exact ⟨ks₁, j, ks₂, rfl, hnull, (passed_cons hv hp).mp hpassed⟩
  · rintro ⟨ks₁, j, ks₂, rfl, hnull, hpassed⟩
    exact ⟨k :: ks₁, j, ks₂, rfl, hnull, (passed_cons hv hp).mpr hpassed⟩

theorem walk_found {ks : List K} {k : K} (h : m.walk p ks = .found k) :
    ∃ v, m.get k = some v ∧ p v = true := by
  induction ks with
  | nil => cases h
  | cons j ks ih =>
    simp only [PtrMap.walk] at h
    split at h
    · cases h
    · next v hv =>
      split at h
      · next hp =>
        obtain rfl := Walked.found.inj h
        exact ⟨v, hv, hp⟩
      · exact ih h

theorem walk_exhausted_iff {ks : List K} : m.walk p ks = .exhausted ↔ m.Passed p ks := by
  induction ks with
  | nil => simp [PtrMap.walk, PtrMap.Passed]
  | cons k ks ih =>
    cases hv : m.get k with
    | none => simp [PtrMap.walk, PtrMap.Passed, hv]
    | some v =>
      cases hp : p v with
      | true => simp [PtrMap.walk, PtrMap.Passed, hv, hp]
      | false => simp [PtrMap.walk, hv, hp, ih, passed_cons hv hp]

theorem walk_null_iff {ks : List K} : m.walk p ks = .nullDereference ↔ m.NullFirst p ks := by
  induction ks with
  | nil => simp [PtrMap.walk, PtrMap.NullFirst]
  | cons k ks ih =>
    cases hv : m.get k with
    | none =>
      simp only [PtrMap.walk, hv, true_iff]
      exact ⟨[], k, ks, rfl, hv, nofun⟩
    | some v =>
      cases hp : p v with
      | false => simp [PtrMap.walk, hv, hp, ih, nullFirst_cons hv hp]
      | true =>
        simp only [PtrMap.walk, hv, hp, if_true, reduceCtorEq, false_iff]
        rintro ⟨ks₁, j, ks₂, hsplit, hnull, hpassed⟩
        cases ks₁ with
        | nil =>
          obtain ⟨rfl, -⟩ := List.cons.inj hsplit
          rw [hv] at hnull
          cases hnull
        | cons i ks₁ =>
          obtain ⟨rfl, rfl⟩ := List.cons.inj hsplit
          obtain ⟨w, hw, hpw⟩ := hpassed k List.mem_cons_self
          rw [hv, Option.some.injEq] at hw
          rw [← hw, hp] at hpw
          cases hpw

theorem passed_visit {o : Order K} (h : m.Passed p (o.visit m.keys)) {k : K} {v : V}
    (hv : m.get k = some v) : p v = false := by
  obtain ⟨w, hw, hp⟩ := h k ((o.perm m.keys).mem_iff.mpr (m.mem_keys k v hv))
  rw [hv, Option.some.injEq] at hw
  rwa [hw]

end

end PointerMap
