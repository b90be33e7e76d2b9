import HakoniwaCorePro.FirstOccurrences
import Mathlib.Algebra.GroupWithZero.Nat
import Mathlib.Algebra.Order.BigOperators.Group.List
import Mathlib.Algebra.Order.Group.Nat

/-!
# Lists of paths in one text

A list of texts is kept joined by a separator. `dedup` drops the empty ones and all but the first of
equal ones. Joining a text whole is not the same as joining the pieces that it splits into, once
duplicates are dropped: `Fits` says when it is.
-/

namespace PathList

open FirstOccurrences

variable {α : Type*} [DecidableEq α]

def dedup (l : List (List α)) : List (List α) := firsts id (l.filter fun p => p ≠ [])

theorem mem_dedup {l : List (List α)} {p : List α} : p ∈ dedup l ↔ p ∈ l ∧ p ≠ [] := by
  have hmem := mem_map_firsts id (l.filter fun p => p ≠ []) p
  simpa [dedup, List.mem_filter] using hmem

theorem nodup_dedup (l : List (List α)) : (dedup l).Nodup := by
  have hnodup := nodup_map_firsts id (l.filter fun p => p ≠ [])
  simpa [dedup] using hnodup

theorem dedup_append (l m : List (List α)) :
    dedup (l ++ m) = dedup l ++ (dedup m).filter fun p => p ∉ l := by
  unfold dedup
  rw [List.filter_append, firsts_append]
  congr 1
  refine List.filter_congr fun p hp => ?_
  have hne : p ≠ [] := (mem_dedup.mp hp).2
  simp [hne]

theorem dedup_eq_self {l : List (List α)} (hnodup : l.Nodup) (hne : ∀ p ∈ l, p ≠ []) : dedup l = l := by
  unfold dedup
  rw [List.filter_eq_self.mpr fun p hp => decide_eq_true (hne p hp), firsts_eq_self_iff, List.map_id]
  exact hnodup

theorem dedup_sublist (l : List (List α)) : (dedup l).Sublist l :=
  (firsts_sublist id _).trans List.filter_sublist

/-- The length of the pieces, with a separator behind each. -/
def weight (l : List (List α)) : ℕ := (l.map fun p => p.length + 1).sum

omit [DecidableEq α] in
theorem weight_append (l m : List (List α)) : weight (l ++ m) = weight l + weight m := by
  simp [weight]

omit [DecidableEq α] in
theorem length_intercalate (sep : α) {l : List (List α)} (h : l ≠ []) :
    ([sep].intercalate l).length + 1 = weight l := by
  induction l with
  | nil => exact absurd rfl h
  | cons p l ih =>
    cases l with
    | nil => simp [weight]
    | cons q l =>
      have hrest := ih (List.cons_ne_nil q l)
      rw [List.intercalate_cons_cons]
      simp only [weight, List.map_cons, List.sum_cons, List.length_append, List.length_singleton]
        at hrest ⊢
      omega

omit [DecidableEq α] in
/-- A part of a list that weighs as much as the list is the list. -/
theorem eq_of_sublist_of_weight {l m : List (List α)} (h : l.Sublist m) (hw : weight m ≤ weight l) :
    l = m := by
  induction h with
  | slnil => rfl
  | cons p hsub ih =>
    have hle := (hsub.map fun p => p.length + 1).sum_le_sum fun _ _ => Nat.zero_le _
    simp only [weight, List.map_cons, List.sum_cons] at hw
    omega
  | cons_cons p hsub ih =>
    simp only [weight, List.map_cons, List.sum_cons] at hw ih
    rw [ih (by omega)]

theorem intercalate_append_splitOn (sep : α) (l : List (List α)) (v : List α) :
    [sep].intercalate (l ++ v.splitOn sep) = [sep].intercalate (l ++ [v]) := by
  induction l with
  | nil => simp
  | cons p l ih =>
    have hne : ∀ m : List (List α), m ≠ [] → l ++ m ≠ [] := fun _ hm =>
      List.append_ne_nil_of_right_ne_nil l hm
    rw [List.cons_append, List.cons_append, List.intercalate_cons_of_ne_nil (hne _ (List.splitOn_ne_nil _ _)),
      List.intercalate_cons_of_ne_nil (hne _ (List.cons_ne_nil _ _)), ih]

/-- Behind the texts `E`, the text `v` is as good as its pieces: there is nothing in it, or its pieces
are all new, or none is while it stands among `E` itself. -/
def Fits (sep : α) (E : List (List α)) (v : List α) : Prop :=
  v = [] ∨ (v ∉ E ∧ (v.splitOn sep).Nodup ∧ ∀ p ∈ v.splitOn sep, p ≠ [] ∧ p ∉ E) ∨
    (v ∈ E ∧ ∀ p ∈ v.splitOn sep, p ≠ [] → p ∈ E)

instance (sep : α) (E : List (List α)) (v : List α) : Decidable (Fits sep E v) :=
  inferInstanceAs (Decidable (_ ∨ _ ∧ _ ∧ _ ∨ _ ∧ _))

/-- What `v` adds in pieces. -/
def added (sep : α) (E : List (List α)) (v : List α) : List (List α) :=
  (dedup (v.splitOn sep)).filter fun p => p ∉ E

theorem added_sublist (sep : α) (E : List (List α)) (v : List α) :
    (added sep E v).Sublist (v.splitOn sep) :=
  List.filter_sublist.trans (dedup_sublist _)

theorem added_eq_splitOn_iff (sep : α) (E : List (List α)) (v : List α) : added sep E v = v.splitOn sep ↔
    (v.splitOn sep).Nodup ∧ ∀ p ∈ v.splitOn sep, p ≠ [] ∧ p ∉ E := by
  constructor
  · intro h
    refine ⟨?_, ?_⟩
    · rw [← h]
      exact (nodup_dedup _).filter _
    · intro p hp
      rw [← h] at hp
      obtain ⟨hp, hnew⟩ := List.mem_filter.mp hp
      exact ⟨(mem_dedup.mp hp).2, by simpa using hnew⟩
  · rintro ⟨hnodup, hpieces⟩
    unfold added
    rw [dedup_eq_self hnodup fun p hp => (hpieces p hp).1]
    exact List.filter_eq_self.mpr fun p hp => decide_eq_true (hpieces p hp).2

theorem added_eq_nil_iff (sep : α) (E : List (List α)) (v : List α) :
    added sep E v = [] ↔ ∀ p ∈ v.splitOn sep, p ≠ [] → p ∈ E := by
  simp [added, List.filter_eq_nil_iff, mem_dedup]

theorem dedup_append_whole (E : List (List α)) (v : List α) :
    dedup (E ++ if v = [] then [] else [v]) = dedup E ++ if v = [] ∨ v ∈ E then [] else [v] := by
  rw [dedup_append]
  congr 1
  by_cases hv : v = []
  · simp [hv, dedup]
  · have hone : dedup [v] = [v] := dedup_eq_self (List.nodup_singleton v) (by simpa using hv)
    rw [if_neg hv, hone]
    by_cases hE : v ∈ E <;> simp [hv, hE]

theorem intercalate_whole_eq_pieces_iff (sep : α) (E : List (List α)) (v : List α) :
    [sep].intercalate (dedup (E ++ if v = [] then [] else [v])) =
      [sep].intercalate (dedup (E ++ v.splitOn sep)) ↔ Fits sep E v := by
  rw [dedup_append_whole, dedup_append]
  change _ = [sep].intercalate (dedup E ++ added sep E v) ↔ _
  by_cases hv : v = []
  · have hnone : added sep E v = [] := (added_eq_nil_iff sep E v).mpr (by simp [hv])
    simp [hv ▸ hnone, hv, Fits]
  · by_cases hE : v ∈ E
    · have hfits : Fits sep E v ↔ added sep E v = [] := by
        rw [added_eq_nil_iff]
        simp [Fits, hv, hE]
      rw [hfits, if_pos (Or.inr hE), List.append_nil]
      constructor
      · intro h
        have hne : dedup E ≠ [] := List.ne_nil_of_mem (mem_dedup.mpr ⟨hE, hv⟩)
        have hlen := congrArg (fun t => t.length + 1) h
        simp only [length_intercalate sep hne, length_intercalate sep (List.append_ne_nil_of_left_ne_nil hne _),
          weight_append] at hlen
        have hzero : weight (added sep E v) = 0 := by omega
        cases hadd : added sep E v with
        | nil => rfl
        | cons p l => simp [hadd, weight] at hzero
      · intro h
        rw [h, List.append_nil]
    · have hfits : Fits sep E v ↔ added sep E v = v.splitOn sep := by
        rw [added_eq_splitOn_iff]
        simp [Fits, hv, hE]
      rw [hfits, if_neg (by simp [hv, hE]), ← intercalate_append_splitOn]
      constructor
      · intro h
        refine eq_of_sublist_of_weight (added_sublist sep E v) ?_
        have hleft : dedup E ++ v.splitOn sep ≠ [] := by simp
        have hlen := congrArg (fun t => t.length + 1) h
        by_cases hright : dedup E ++ added sep E v = []
        · -- nothing is joined on the right, but `v` is not empty
          obtain ⟨hD, -⟩ := List.append_eq_nil_iff.mp hright
          rw [hright, hD, List.nil_append, List.intercalate_splitOn, List.intercalate_nil] at h
          exact absurd h hv
        · simp only [length_intercalate sep hleft, length_intercalate sep hright, weight_append] at hlen
          omega
      · intro h
        rw [h]

end PathList
