import Mathlib.Data.List.Forall2
import Mathlib.Tactic.Common

/-!
# Computations that may fail

A sequence of fallible steps gives a value exactly if each of them does, on what those before it
have given; a list of them, if all do.
-/

namespace Fallible

universe u v

variable {ε : Type u} {α β : Type v}

theorem bind_ok_iff {x : Except ε α} {f : α → Except ε β} {b : β} :
    (x >>= f) = .ok b ↔ ∃ a, x = .ok a ∧ f a = .ok b := by
  cases x <;> simp [bind, Except.bind]

theorem bind_error_iff {x : Except ε α} {f : α → Except ε β} {e : ε} :
    (x >>= f) = .error e ↔ x = .error e ∨ ∃ a, x = .ok a ∧ f a = .error e := by
  cases x <;> simp [bind, Except.bind]

theorem mapM_ok_iff {f : α → Except ε β} {l : List α} {r : List β} :
    l.mapM f = .ok r ↔ List.Forall₂ (fun a b => f a = .ok b) l r := by
  induction l generalizing r with
  | nil => simp [pure, Except.pure, eq_comm]
  | cons a l ih =>
    simp only [List.mapM_cons, bind_ok_iff, ih, pure, Except.pure, Except.ok.injEq,
      List.forall₂_cons_left_iff]
    constructor
    · rintro ⟨b, hb, r', hr, rfl⟩
      exact ⟨b, r', hb, hr, rfl⟩
    · rintro ⟨b, r', hb, hr, rfl⟩
      exact ⟨b, hb, r', hr, rfl⟩

/-- A loop whose steps may fail only where they read: all is read first, then collected. -/
theorem foldlM_eq_mapM {σ : Type v} (f : α → Except ε β) (g : σ → β → σ) (l : List α) (s : σ) :
    l.foldlM (fun s a => do return g s (← f a)) s = do return (← l.mapM f).foldl g s := by
  induction l generalizing s with
  | nil => rfl
  | cons a l ih =>
    simp only [List.foldlM_cons, List.mapM_cons, bind_assoc, pure_bind, List.foldl_cons]
    exact congrArg (f a >>= ·) (funext fun b => ih (g s b))

end Fallible
