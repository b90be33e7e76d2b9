import Mathlib.Algebra.GroupWithZero.Nat
import Mathlib.Algebra.Order.BigOperators.Group.List
import Mathlib.Algebra.Order.Group.Nat
import Mathlib.Data.List.Induction
import Mathlib.Data.List.Nodup
import Mathlib.Logic.Relation
import Mathlib.Order.WellFounded
import Mathlib.Data.Fintype.Card
import Mathlib.Data.Set.Finite.Basic
import Mathlib.Tactic.Common

/-!
# Counting dependencies

Kahn's algorithm lets a node go when as many of its dependencies have gone as it has. `credit` counts
them, a node of the list as often as it stands there; `Waiting` is the invariant of the loop that
spends the credits one by one. Without repetitions the list is then in order, and what never goes
is a set in which everything waits for something of the set.
-/

namespace Kahn

open Relation

variable {N : Type*} [DecidableEq N] (deps : N → List N)

/-- How many dependencies of `m` the list `l` accounts for. -/
def credit (m : N) (l : List N) : ℕ := ((deps m).map fun d => l.count d).sum

@[simp] theorem credit_nil (m : N) : credit deps m [] = 0 := by simp [credit]

theorem credit_append (m : N) (l₁ l₂ : List N) :
    credit deps m (l₁ ++ l₂) = credit deps m l₁ + credit deps m l₂ := by
  simp [credit, List.count_append, List.sum_map_add]

theorem credit_singleton (m n : N) : credit deps m [n] = (deps m).count n := by
  unfold credit
  induction deps m with
  | nil => rfl
  | cons d ds ih =>
    rw [List.map_cons, List.sum_cons, ih, List.count_cons, List.count_cons, List.count_nil]
    by_cases hd : n = d
    · simp [hd, add_comm]
    · simp [hd, Ne.symm hd]

theorem credit_concat (m n : N) (l : List N) :
    credit deps m (l ++ [n]) = credit deps m l + (deps m).count n := by
  rw [credit_append, credit_singleton]

theorem credit_le {m : N} {l l' : List N} (h : ∀ d ∈ deps m, l.count d ≤ l'.count d) :
    credit deps m l ≤ credit deps m l' :=
  List.sum_le_sum h

theorem length_le_credit {m : N} {l : List N} (h : ∀ d ∈ deps m, d ∈ l) :
    (deps m).length ≤ credit deps m l := by
  have hle : ((deps m).map fun _ => 1).sum ≤ credit deps m l :=
    List.sum_le_sum fun d hd => List.count_pos_iff.mpr (h d hd)
  simpa using hle

/-- Every node of the list has its dependencies accounted for by the nodes before it. -/
def Served (l : List N) : Prop :=
  ∀ l₁ m l₂, l = l₁ ++ m :: l₂ → (deps m).length ≤ credit deps m l₁

theorem served_concat {l : List N} {m : N} (h : Served deps l) (hm : (deps m).length ≤ credit deps m l) :
    Served deps (l ++ [m]) := by
  intro l₁ n l₂ he
  rcases List.eq_nil_or_concat l₂ with rfl | ⟨l₂, x, rfl⟩
  · obtain ⟨rfl, he⟩ := List.append_inj' he rfl
    obtain rfl : m = n := by simpa using he
    exact hm
  · have he : l ++ [m] = (l₁ ++ n :: l₂) ++ [x] := by simpa using he
    exact h l₁ n l₂ (List.append_inj' he rfl).1

theorem served_of_free {l : List N} (h : ∀ m ∈ l, deps m = []) : Served deps l := by
  intro l₁ m l₂ he
  rw [h m (by simp [he])]
  exact Nat.zero_le _

omit [DecidableEq N] in
theorem sum_map_lt_length {l : List N} {f : N → ℕ} (hone : ∀ d ∈ l, f d ≤ 1) {d : N} (hd : d ∈ l)
    (hzero : f d = 0) : (l.map f).sum < l.length := by
  have hlt : (l.map f).sum < (l.map fun _ => 1).sum :=
    List.sum_lt_sum f (fun _ => 1) hone ⟨d, hd, by omega⟩
  simpa using hlt

variable {deps} in
theorem Served.before {l l₁ l₂ : List N} {m : N} (h : Served deps l) (hl : l.Nodup)
    (he : l = l₁ ++ m :: l₂) {d : N} (hd : d ∈ deps m) : d ∈ l₁ := by
  by_contra hnot
  have hone : ∀ x ∈ deps m, l₁.count x ≤ 1 := by
    intro x _
    rw [he] at hl
    exact List.nodup_iff_count_le_one.mp hl.of_append_left x
  have hlt := sum_map_lt_length hone hd (List.count_eq_zero.mpr hnot)
  exact absurd (h l₁ m l₂ he) (not_le.mpr hlt)

/-- What a loop holds that has spent `spent m` credits of each node `m` and has let the nodes `out` go:
first those of `free`, then, once each, the nodes whose credits reach their dependencies. -/
structure Waiting (free : List N) (spent : N → ℕ) (indeg : N → ℤ) (out : List N) : Prop where
  level : ∀ m, indeg m = (deps m).length - spent m
  released : ∃ later, out = free ++ later ∧ later.Nodup ∧
    ∀ m, m ∈ later ↔ deps m ≠ [] ∧ (deps m).length ≤ spent m
  served : Served deps out

theorem waiting_init {free : List N} (hfree : ∀ m ∈ free, deps m = []) :
    Waiting deps free (fun _ => 0) (fun m => (deps m).length) free where
  level m := by simp
  released := ⟨[], by simp, List.nodup_nil, fun m => by simp⟩
  served := served_of_free deps hfree

variable {deps}

theorem Waiting.spend {free out : List N} {spent : N → ℕ} {indeg : N → ℤ}
    (h : Waiting deps free spent indeg out) {m : N} (hm : spent m + 1 ≤ credit deps m out) :
    Waiting deps free (Function.update spent m (spent m + 1)) (Function.update indeg m (indeg m - 1))
      (if indeg m - 1 = 0 then out ++ [m] else out) := by
  obtain ⟨later, hout, hnodup, hmem⟩ := h.released
  have hlevel := h.level m
  refine ⟨?_, ?_, ?_⟩
  · intro x
    by_cases hx : x = m
    · subst hx
      simp only [Function.update_self]
      push_cast
      omega
    · simp only [Function.update_of_ne hx, h.level x]
  · split
    · next hlast =>
      have hnot : m ∉ later := by
        rw [hmem]
        omega
      have hdeps : deps m ≠ [] := by
        intro hnil
        rw [hnil, List.length_nil] at hlevel
        omega
      refine ⟨later ++ [m], by rw [hout, List.append_assoc], ?_, ?_⟩
      · rw [List.nodup_append]
        refine ⟨hnodup, List.nodup_singleton m, ?_⟩
        intro a ha b hb hab
        rw [List.mem_singleton] at hb
        exact hnot (hb ▸ hab ▸ ha)
      · intro x
        rw [List.mem_append, List.mem_singleton, hmem]
        by_cases hx : x = m
        · subst hx
          simp only [Function.update_self, or_true, true_iff]
          exact ⟨hdeps, by omega⟩
        · simp only [Function.update_of_ne hx, hx, or_false]
    · next hmore =>
      refine ⟨later, hout, hnodup, ?_⟩
      intro x
      rw [hmem]
      by_cases hx : x = m
      · subst hx
        simp only [Function.update_self]
        refine and_congr_right fun _ => ?_
        omega
      · simp only [Function.update_of_ne hx]
  · split
    · exact served_concat deps h.served (by omega)
    · exact h.served

section

variable {α : Type*} {R : α → α → Prop}

/-- A finite set in which everything is related to something of the set has a cycle. -/
theorem exists_cycle_of_closed {Z : Set α} (hfinite : Z.Finite) (hne : Z.Nonempty)
    (hclosed : ∀ a ∈ Z, ∃ b ∈ Z, R a b) : ∃ a, TransGen R a a := by
  by_contra hno
  have hfin : Finite Z := hfinite.to_subtype
  let below : Z → Z → Prop := fun b a => TransGen R a b
  have htrans : IsTrans Z below := ⟨fun _ _ _ hab hbc => hbc.trans hab⟩
  have hirrefl : Std.Irrefl below := ⟨fun a ha => hno ⟨a, ha⟩⟩
  have hwf : WellFounded below := Finite.wellFounded_of_trans_of_irrefl below
  obtain ⟨m, -, hmin⟩ := hwf.has_min Set.univ ⟨⟨hne.choose, hne.choose_spec⟩, trivial⟩
  obtain ⟨b, hb, hmb⟩ := hclosed m m.2
  exact hmin ⟨b, hb⟩ trivial (TransGen.single hmb)

theorem not_cycle_of_order [DecidableEq α] {l : List α} (hmem : ∀ a b, R a b → a ∈ l)
    (horder : ∀ l₁ a l₂, l = l₁ ++ a :: l₂ → ∀ b, R a b → b ∈ l₁) : ¬ ∃ a, TransGen R a a := by
  have hstep : ∀ a b, R a b → l.idxOf b < l.idxOf a := by
    intro a b hab
    obtain ⟨l₁, l₂, he, hfirst⟩ := List.eq_append_cons_of_mem (hmem a b hab)
    have hb : b ∈ l₁ := horder l₁ a l₂ he b hab
    calc l.idxOf b = l₁.idxOf b := by rw [he, List.idxOf_append_of_mem hb]
      _ < l₁.length := List.idxOf_lt_length_of_mem hb
      _ = l.idxOf a := by rw [he, List.idxOf_append_of_notMem hfirst, List.idxOf_cons_self, Nat.add_zero]
  have hpath : ∀ a b, TransGen R a b → l.idxOf b < l.idxOf a := by
    intro a b hab
    induction hab with
    | single hab => exact hstep _ _ hab
    | tail _ hbc ih => exact (hstep _ _ hbc).trans ih
  rintro ⟨a, ha⟩
  exact lt_irrefl _ (hpath a a ha)

end

end Kahn
