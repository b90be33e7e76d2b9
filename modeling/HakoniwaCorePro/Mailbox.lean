import HakoniwaCorePro.Runs

/-!
# A one-place mailbox with a reader in two steps

The writer may store a value when the place is not marked full. The reader first takes the
mark away and only in a second step copies the value, so that between its two steps the
place looks empty while its value is still wanted. Every value comes out once, in order,
on the runs that leave the place alone in between.
-/

namespace Mailbox

open Runs

variable {α : Type*}

structure State (α : Type*) where
  cell : α
  full : Bool
  /-- The reader has taken the mark and has not copied the value yet. -/
  holding : Bool
  accepted : List α
  returned : List α

/-- `get ok` is the reader's next step; `ok` says whether copying the value works. -/
inductive Action (α : Type*)
  | put (a : α)
  | get (ok : Bool)

def step (s : State α) : Action α → State α
  | .put a =>
    if s.full then s
    else { s with cell := a, full := true, accepted := s.accepted ++ [a] }
  | .get ok =>
    if s.holding then
      { s with holding := false, returned := if ok then s.returned ++ [s.cell] else s.returned }
    else if s.full then { s with full := false, holding := true }
    else s

/-- Nothing is put between the reader's two steps, and the second one works. -/
def Quiet (holding : Bool) : Action α → Prop
  | .put _ => holding = false
  | .get ok => holding = true → ok = true

instance (holding : Bool) : ∀ a : Action α, Decidable (Quiet holding a)
  | .put _ => inferInstanceAs (Decidable (holding = false))
  | .get ok => inferInstanceAs (Decidable (holding = true → ok = true))

/-- What has been accepted is what was returned, and the value on its way. -/
structure Inv (s : State α) : Prop where
  accepted_eq : s.accepted = s.returned ++ if s.full || s.holding then [s.cell] else []
  apart : s.full = true → s.holding = false

theorem inv_step (s : State α) (a : Action α) (h : Inv s) (hq : Quiet s.holding a) :
    Inv (step s a) := by
  obtain ⟨hacc, hapart⟩ := h
  cases a with
  | put a =>
    have hidle : s.holding = false := hq
    simp only [step]
    split
    · exact ⟨hacc, hapart⟩
    · next hfull =>
      have hall : s.accepted = s.returned := by simpa [hidle, hfull] using hacc
      exact ⟨by simp [hall], fun _ => hidle⟩
  | get ok =>
    simp only [step]
    split
    · next hhold =>
      have hfull : s.full = false := by
        by_contra hf
        have := hapart (by simpa using hf)
        simp [hhold] at this
      have hok : ok = true := hq hhold
      have hall : s.accepted = s.returned ++ [s.cell] := by simpa [hhold] using hacc
      exact ⟨by simp [hall, hok, hfull], fun _ => rfl⟩
    · next hhold =>
      split
      · next hfull =>
        have hall : s.accepted = s.returned ++ [s.cell] := by simpa [hfull] using hacc
        exact ⟨by simp [hall], by simp⟩
      · exact ⟨hacc, hapart⟩

theorem Inv.returned_prefix_accepted {s : State α} (h : Inv s) : s.returned <+: s.accepted :=
  ⟨_, h.accepted_eq.symm⟩

theorem run_inv {s : State α} (h : Inv s) {as : List (Action α)}
    (hq : Along step (fun t => Quiet t.holding) s as) : Inv (run step s as) :=
  run_invariant inv_step h hq

end Mailbox
