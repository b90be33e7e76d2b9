import Mathlib.Data.Nat.ModEq
import Mathlib.Logic.Function.Iterate
import Mathlib.Tactic.Common

/-!
# A turn passed round `n` places

`next n c` is the place after `c`, and `ahead n c i` is how often the turn has to be passed
on from `c` before it is at `i`. Fairness arguments about a round robin compare two
`ahead`s: passing the turn on lowers both, so their order stays as it is until the turn
reaches the nearer place.
-/

namespace Turn

def next (n c : ℕ) : ℕ := (c + 1) % n

def ahead (n c i : ℕ) : ℕ := (i + n - c) % n

theorem next_lt {n : ℕ} (hn : 0 < n) (c : ℕ) : next n c < n := Nat.mod_lt _ hn

theorem next_eq {n c : ℕ} (hc : c < n) : next n c = if c + 1 = n then 0 else c + 1 := by
  unfold next
  split
  · next h => rw [h, Nat.mod_self]
  · exact Nat.mod_eq_of_lt (by omega)

theorem ahead_eq {n c i : ℕ} (hc : c < n) (hi : i < n) :
    ahead n c i = if c ≤ i then i - c else i + n - c := by
  unfold ahead
  split
  · rw [show i + n - c = (i - c) + n by omega, Nat.add_mod_right]
    exact Nat.mod_eq_of_lt (by omega)
  · exact Nat.mod_eq_of_lt (by omega)

theorem ahead_lt {n : ℕ} (hn : 0 < n) (c i : ℕ) : ahead n c i < n := Nat.mod_lt _ hn

theorem ahead_eq_zero {n c i : ℕ} (hc : c < n) (hi : i < n) : ahead n c i = 0 ↔ c = i := by
  rw [ahead_eq hc hi]
  split <;> omega

theorem ahead_next {n c i : ℕ} (hc : c < n) (hi : i < n) (hne : c ≠ i) :
    ahead n (next n c) i + 1 = ahead n c i := by
  rw [ahead_eq (next_lt (by omega) c) hi, ahead_eq hc hi, next_eq hc]
  split <;> split <;> split <;> omega

theorem ahead_next_self {n c : ℕ} (hc : c < n) : ahead n (next n c) c = n - 1 := by
  rw [ahead_eq (next_lt (by omega) c) hc, next_eq hc]
  split <;> split <;> omega

theorem ahead_next_lt {n c i : ℕ} (hc : c < n) (hi : i < n) (hne : c ≠ i) :
    ahead n (next n c) i < ahead n (next n c) c := by
  have h := ahead_next hc hi hne
  have hlt := ahead_lt (n := n) (by omega) c i
  rw [ahead_next_self hc]
  omega

theorem next_nearer {n c i j : ℕ} (hc : c < n) (hi : i < n) (hj : j < n) (hci : c ≠ i)
    (hnear : c = j ∨ ahead n c i < ahead n c j) :
    ahead n (next n c) i < ahead n (next n c) j := by
  by_cases hcj : c = j
  · rw [← hcj]
    exact ahead_next_lt hc hi hci
  · have hlt := hnear.resolve_left hcj
    have hstep_i := ahead_next hc hi hci
    have hstep_j := ahead_next hc hj hcj
    omega

theorem next_ne_self {n c : ℕ} (hn : 1 < n) (hc : c < n) : next n c ≠ c := by
  rw [next_eq hc]
  split <;> omega

theorem next_one (c : ℕ) : next 1 c = 0 := Nat.mod_one _

theorem next_next_ne_next {n : ℕ} (hn : 1 < n) (c : ℕ) : next n (next n c) ≠ next n c :=
  next_ne_self hn (next_lt (by omega) c)

theorem next_next_eq_self {n c : ℕ} (hc : c < n) : next n (next n c) = c ↔ n ≤ 2 := by
  rw [next_eq (next_lt (by omega) c), next_eq hc]
  split <;> split <;> omega

theorem next_add_mod (n c k : ℕ) : (next n c + k) % n = (c + (k + 1)) % n := by
  rw [next, Nat.mod_add_mod, Nat.add_assoc, Nat.add_comm 1 k]

/-- To look for a place with `P`, over places with `Q`, is to look here and then from the next
place on. -/
theorem comes_succ {n c : ℕ} (hc : c < n) (P Q : ℕ → Prop) (m : ℕ) :
    (∃ k < m + 1, P ((c + k) % n) ∧ ∀ i < k, Q ((c + i) % n)) ↔
      P c ∨ Q c ∧ ∃ k < m, P ((next n c + k) % n) ∧ ∀ i < k, Q ((next n c + i) % n) := by
  have hhere : (c + 0) % n = c := Nat.mod_eq_of_lt hc
  simp only [next_add_mod]
  constructor
  · rintro ⟨k, hk, hp, hq⟩
    cases k with
    | zero =>
      rw [hhere] at hp
      exact Or.inl hp
    | succ k =>
      have hzero := hq 0 (by omega)
      rw [hhere] at hzero
      exact Or.inr ⟨hzero, k, by omega, hp, fun i hi => hq (i + 1) (by omega)⟩
  · rintro (hp | ⟨hzero, k, hk, hp, hq⟩)
    · exact ⟨0, by omega, by rwa [hhere], by omega⟩
    · refine ⟨k + 1, by omega, hp, fun i hi => ?_⟩
      cases i with
      | zero => rwa [hhere]
      | succ i => exact hq i (by omega)

theorem add_mod_ne {n c k : ℕ} (hc : c < n) (hk : 0 < k) (hkn : k < n) : (c + k) % n ≠ c := by
  rcases Nat.lt_or_ge (c + k) n with hlt | hge
  · rw [Nat.mod_eq_of_lt hlt]
    omega
  · rw [Nat.mod_eq_sub_mod hge, Nat.mod_eq_of_lt (by omega)]
    omega

end Turn
