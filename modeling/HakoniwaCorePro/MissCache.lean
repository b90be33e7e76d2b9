import Mathlib.Logic.Function.Basic
import Mathlib.Tactic.Common

/-!
# A cache that is filled on a miss

Anybody may rewrite a shared store. A reader answers from what it has seen of the store when it
last filled its cache; it looks into the store, and fills the cache, only when that has no answer.
-/

namespace MissCache

variable {P T K V : Type*}

structure State (P T : Type*) where
  store : T
  seen : P → T

def answer (scan : T → K → Option V) (s : State P T) (p : P) (k : K) : Option V :=
  (scan (s.seen p) k).or (scan s.store k)

/-- An answer that is valid of the store, or the answer that nothing is. -/
structure Right (valid : T → K → V → Prop) (t : T) (k : K) (o : Option V) : Prop where
  some : ∀ v, o = Option.some v → valid t k v
  none : o = Option.none → ∀ v, ¬ valid t k v

section

variable {scan : T → K → Option V} {valid : T → K → V → Prop}
  (hscan : ∀ t k, Right valid t k (scan t k))
include hscan

/-- What is cached is right if and only if it is still valid. -/
theorem right_answer_iff (s : State P T) (p : P) (k : K) :
    Right valid s.store k (answer scan s p k) ↔
      ∀ v, scan (s.seen p) k = some v → valid s.store k v := by
  cases hseen : scan (s.seen p) k with
  | none =>
    simp only [answer, hseen, Option.none_or, reduceCtorEq, false_implies, implies_true, iff_true]
    exact hscan s.store k
  | some v =>
    simp only [answer, hseen, Option.some_or, Option.some.injEq, forall_eq']
    constructor
    · intro h
      exact h.some v rfl
    · intro h
      exact ⟨fun x hx => Option.some.inj hx ▸ h, nofun⟩

theorem answer_isSome_iff (s : State P T) (p : P) (k : K) :
    ((answer scan s p k).isSome ↔ ∃ v, valid s.store k v) ↔
      ((scan (s.seen p) k).isSome → ∃ v, valid s.store k v) := by
  cases hseen : scan (s.seen p) k with
  | some v => simp [answer, hseen]
  | none =>
    simp only [answer, hseen, Option.none_or, Option.isSome_none, Bool.false_eq_true,
      false_implies, iff_true]
    constructor
    · intro h
      obtain ⟨v, hv⟩ := Option.isSome_iff_exists.mp h
      exact ⟨v, (hscan s.store k).some v hv⟩
    · rintro ⟨v, hv⟩
      by_contra hnone
      exact (hscan s.store k).none (Option.not_isSome_iff_eq_none.mp hnone) v hv

end

variable [DecidableEq P]

inductive Action (P T K : Type*)
  | rewrite (p : P) (f : T → T)
  | fill (p : P)
  | lookup (p : P) (k : K)

def State.fill (p : P) (s : State P T) : State P T :=
  { s with seen := Function.update s.seen p s.store }

def step (scan : T → K → Option V) (s : State P T) : Action P T K → State P T
  | .rewrite p f => State.fill p { s with store := f s.store }
  | .fill p => s.fill p
  | .lookup p k => if (scan (s.seen p) k).isSome then s else s.fill p

/-- What every rewriting keeps holds between what a reader has seen and the store. -/
theorem step_kept {scan : T → K → Option V} {R : T → T → Prop} (hrefl : ∀ t, R t t)
    (htrans : ∀ t u v, R t u → R u v → R t v) {s : State P T} {a : Action P T K}
    (ha : ∀ p f, a = .rewrite p f → ∀ t, R t (f t)) (h : ∀ p, R (s.seen p) s.store) (p : P) :
    R ((step scan s a).seen p) (step scan s a).store := by
  have hfill : ∀ (q : P) (u : State P T), (∀ p, R (u.seen p) u.store) →
      R ((u.fill q).seen p) (u.fill q).store := by
    intro q u hu
    by_cases hp : p = q
    · subst hp
      simpa [State.fill] using hrefl u.store
    · simpa [State.fill, hp] using hu p
  cases a with
  | rewrite q f => exact hfill q _ fun p => htrans _ _ _ (h p) (ha q f rfl s.store)
  | fill q => exact hfill q s h
  | lookup q k =>
    simp only [step]
    split
    · exact h p
    · exact hfill q s h

end MissCache
