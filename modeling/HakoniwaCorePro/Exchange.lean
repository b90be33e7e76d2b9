import Mathlib.Data.List.Induction
import Mathlib.Tactic.Common

/-!
# One exchange at a time

What can be seen of one client's requests when it waits for each response before it asks
again: rounds, one after another, in which everything carries the id of the request. `track`
follows the rounds; where it does not get stuck, what was seen is a list of whole rounds and
the beginning of one more.
-/

namespace Exchange

variable {I : Type*}

inductive Event (I : Type*)
  | requested (id : I)
  | accepted (id : I)
  | canceled (id : I)
  | replied (id : I)
  | finished (id : I)
  deriving DecidableEq

inductive Phase (I : Type*)
  | idle
  | sent (id : I)
  | serving (id : I)
  | canceling (id : I)
  | answered (id : I)

/-- One round: a request is accepted, perhaps canceled while it is served, replied to, and the
reply arrives. -/
def round (id : I) (cancel : Bool) : List (Event I) :=
  [.requested id, .accepted id] ++ (if cancel then [.canceled id] else []) ++
    [.replied id, .finished id]

/-- The part of a round that is over. -/
inductive Begun : Phase I → List (Event I) → Prop
  | idle : Begun .idle []
  | sent (id : I) : Begun (.sent id) [.requested id]
  | serving (id : I) : Begun (.serving id) [.requested id, .accepted id]
  | canceling (id : I) : Begun (.canceling id) [.requested id, .accepted id, .canceled id]
  | answered (id : I) (cancel : Bool) : Begun (.answered id)
      ([.requested id, .accepted id] ++ (if cancel then [.canceled id] else []) ++ [.replied id])

theorem Begun.eq_nil_iff {ph : Phase I} {l : List (Event I)} (hb : Begun ph l) :
    l = [] ↔ ph = .idle := by
  cases hb <;> simp

variable [DecidableEq I]

def Phase.step : Phase I → Event I → Option (Phase I)
  | .idle, .requested id => some (.sent id)
  | .sent id, .accepted x => if x = id then some (.serving id) else none
  | .serving id, .canceled x => if x = id then some (.canceling id) else none
  | .serving id, .replied x => if x = id then some (.answered id) else none
  | .canceling id, .replied x => if x = id then some (.answered id) else none
  | .answered id, .finished x => if x = id then some .idle else none
  | _, _ => none

/-- The phase after `h`. -/
def track (h : List (Event I)) : Option (Phase I) :=
  h.foldl (fun ph e => ph.bind (Phase.step · e)) (some .idle)

@[simp] theorem track_nil : track ([] : List (Event I)) = some .idle := rfl

theorem track_concat (h : List (Event I)) (e : Event I) :
    track (h ++ [e]) = (track h).bind (Phase.step · e) := by
  simp [track]

theorem Begun.step {ph ph' : Phase I} {l : List (Event I)} {e : Event I} (hb : Begun ph l)
    (he : ph.step e = some ph') :
    Begun ph' (l ++ [e]) ∨ ph' = .idle ∧ ∃ id cancel, l ++ [e] = round id cancel := by
  cases hb with
  | idle =>
    cases e with
    | requested id =>
      cases he
      exact Or.inl (.sent id)
    | _ => cases he
  | sent id =>
    cases e with
    | accepted x =>
      obtain ⟨rfl, rfl⟩ : x = id ∧ Phase.serving id = ph' := by simpa [Phase.step] using he
      exact Or.inl (.serving x)
    | _ => cases he
  | serving id =>
    cases e with
    | canceled x =>
      obtain ⟨rfl, rfl⟩ : x = id ∧ Phase.canceling id = ph' := by simpa [Phase.step] using he
      exact Or.inl (.canceling x)
    | replied x =>
      obtain ⟨rfl, rfl⟩ : x = id ∧ Phase.answered id = ph' := by simpa [Phase.step] using he
      exact Or.inl (.answered x false)
    | _ => cases he
  | canceling id =>
    cases e with
    | replied x =>
      obtain ⟨rfl, rfl⟩ : x = id ∧ Phase.answered id = ph' := by simpa [Phase.step] using he
      exact Or.inl (.answered x true)
    | _ => cases he
  | answered id cancel =>
    cases e with
    | finished x =>
      obtain ⟨rfl, rfl⟩ : x = id ∧ Phase.idle = ph' := by simpa [Phase.step] using he
      exact Or.inr ⟨rfl, x, cancel, by simp [round]⟩
    | _ => cases he

/-- What `track` accepts is whole rounds and the beginning of one. -/
theorem rounds_of_track {h : List (Event I)} {ph : Phase I} (hh : track h = some ph) :
    ∃ (rounds : List (I × Bool)) (rest : List (Event I)),
      h = rounds.flatMap (fun r => round r.1 r.2) ++ rest ∧ Begun ph rest := by
  induction h using List.reverseRecOn generalizing ph with
  | nil =>
    cases hh
    exact ⟨[], [], rfl, .idle⟩
  | append_singleton h e ih =>
    rw [track_concat] at hh
    obtain ⟨ph₀, hph₀, he⟩ := Option.bind_eq_some_iff.mp hh
    obtain ⟨rounds, rest, rfl, hb⟩ := ih hph₀
    rcases hb.step he with hgoes | ⟨rfl, id, cancel, hwhole⟩
    · exact ⟨rounds, rest ++ [e], by simp, hgoes⟩
    · refine ⟨rounds ++ [(id, cancel)], [], ?_, .idle⟩
      rw [List.append_assoc, hwhole]
      simp

end Exchange
