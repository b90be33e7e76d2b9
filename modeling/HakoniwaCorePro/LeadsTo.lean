import Mathlib.Data.Nat.Init
import Mathlib.Tactic.Common

/-!
# What must come

Properties of the moments of one infinite run. `LeadsTo p q` says that every `p` is followed by a
`q`. It is proved from one helpful step that does not stay out for ever (`ensures`), put together
by transitivity, and repeated as long as a rank falls (`of_rank`).
-/

/-- Whenever `p` holds, `q` holds then or later. -/
def LeadsTo (p q : ℕ → Prop) : Prop := ∀ n, p n → ∃ k, n ≤ k ∧ q k

namespace LeadsTo

variable {p q r : ℕ → Prop}

theorem trans (hpq : LeadsTo p q) (hqr : LeadsTo q r) : LeadsTo p r := by
  intro n hp
  obtain ⟨m, hnm, hq⟩ := hpq n hp
  obtain ⟨k, hmk, hr⟩ := hqr m hq
  exact ⟨k, Nat.le_trans hnm hmk, hr⟩

/-- A goal of the next moment is a goal. -/
theorem of_succ (h : LeadsTo p fun n => q (n + 1)) : LeadsTo p q := by
  intro n hp
  obtain ⟨k, hnk, hq⟩ := h n hp
  exact ⟨k + 1, by omega, hq⟩

/-- What is kept until the goal is reached still holds at a later moment, or the goal was reached
before it. -/
theorem kept_until (hkept : ∀ n, p n → q n ∨ p (n + 1)) {n k : ℕ} (hnk : n ≤ k) (hp : p n) :
    p k ∨ ∃ m, n ≤ m ∧ q m := by
  induction k, hnk using Nat.le_induction with
  | base => exact Or.inl hp
  | succ k hnk ih =>
    rcases ih with hpk | hreached
    · rcases hkept k hpk with hq | hnext
      · exact Or.inr ⟨k, hnk, hq⟩
      · exact Or.inl hnext
    · exact Or.inr hreached

/-- `p` is kept until the goal is reached, and there is always a later moment at which it is reached
if `p` still holds. -/
theorem ensures (hkept : ∀ n, p n → q n ∨ p (n + 1))
    (hhelp : ∀ n, p n → ∃ k, n ≤ k ∧ (p k → q k)) : LeadsTo p q := by
  intro n hp
  obtain ⟨k, hnk, hk⟩ := hhelp n hp
  rcases kept_until hkept hnk hp with hpk | hreached
  · exact ⟨k, hnk, hk hpk⟩
  · exact hreached

theorem of_rank (rank : ℕ → ℕ)
    (h : ∀ d, LeadsTo (fun n => p n ∧ rank n = d) fun n => q n ∨ p n ∧ rank n < d) :
    LeadsTo p q := by
  have hreach : ∀ d n, p n → rank n = d → ∃ k, n ≤ k ∧ q k := by
    intro d
    induction d using Nat.strong_induction_on with
    | _ d ih =>
      intro n hp hd
      obtain ⟨m, hnm, hq | ⟨hpm, hlt⟩⟩ := h d n ⟨hp, hd⟩
      · exact ⟨m, hnm, hq⟩
      · obtain ⟨k, hmk, hq⟩ := ih (rank m) hlt m hpm rfl
        exact ⟨k, Nat.le_trans hnm hmk, hq⟩
  exact fun n hp => hreach (rank n) n hp rfl

end LeadsTo
