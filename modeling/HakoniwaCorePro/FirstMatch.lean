import Mathlib.Data.List.Basic
import Mathlib.Tactic.Common

/-!
# Loops that stop at the first match

`updateFirst p f` is the loop that walks a table, skips what does not satisfy `p`, changes
the first entry that does, and leaves. `List.findIdx?` is the index at which it stops.
-/

namespace FirstMatch

variable {α β : Type*}

def updateFirst (p : α → Bool) (f : α → α) : List α → List α
  | [] => []
  | x :: xs => if p x then f x :: xs else x :: updateFirst p f xs

theorem getElem?_updateFirst (p : α → Bool) (f : α → α) (l : List α) (j : ℕ) :
    (updateFirst p f l)[j]? = if l.findIdx? p = some j then l[j]?.map f else l[j]? := by
  induction l generalizing j with
  | nil => simp [updateFirst]
  | cons x xs ih =>
    by_cases hx : p x
    · cases j <;> simp [updateFirst, List.findIdx?_cons, hx]
    · cases j <;> simp [updateFirst, List.findIdx?_cons, hx, ih]

theorem map_updateFirst (p : α → Bool) (f : α → α) (g : α → β) (hg : ∀ x, g (f x) = g x)
    (l : List α) : (updateFirst p f l).map g = l.map g := by
  induction l with
  | nil => rfl
  | cons x xs ih =>
    simp only [updateFirst]
    split <;> simp [hg, ih]

theorem updateFirst_eq_modify {p : α → Bool} (f : α → α) {l : List α} {i : ℕ}
    (hi : l.findIdx? p = some i) : updateFirst p f l = l.modify i f := by
  refine List.ext_getElem? fun j => ?_
  rw [getElem?_updateFirst, List.getElem?_modify, hi]
  by_cases hj : i = j <;> simp [hj]

/-- Seen through `g`, the loop is an assignment at the index at which it stops. -/
theorem map_updateFirst_set {p : α → Bool} {f : α → α} (g : α → β) {l : List α} {i : ℕ} {x : α}
    (hi : l.findIdx? p = some i) (hx : l[i]? = some x) :
    (updateFirst p f l).map g = (l.map g).set i (g (f x)) := by
  refine List.ext_getElem? fun j => ?_
  rw [List.getElem?_map, getElem?_updateFirst, hi, List.getElem?_set, List.length_map]
  obtain ⟨hlt, rfl⟩ := List.getElem?_eq_some_iff.mp hx
  by_cases hj : i = j
  · subst hj
    simp [hlt]
  · simp [hj]

theorem findIdx?_eq_some_of_unique {p : α → Bool} {l : List α} {i : ℕ} {x : α}
    (hi : l[i]? = some x) (hx : p x) (hu : ∀ j y, l[j]? = some y → p y → j = i) :
    l.findIdx? p = some i := by
  rw [List.findIdx?_eq_some_iff_getElem]
  obtain ⟨hlt, rfl⟩ := List.getElem?_eq_some_iff.mp hi
  refine ⟨hlt, hx, fun j hj => ?_⟩
  by_contra hp
  have := hu j _ (List.getElem?_eq_getElem (by omega)) (by simpa using hp)
  omega

end FirstMatch
