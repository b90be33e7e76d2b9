import HakoniwaCorePro.Exchange
import HakoniwaCorePro.LeadsTo
import HakoniwaCorePro.Turn
import Mathlib.Logic.Function.Basic

/-!
# A server that goes round

A server has one exchange with each of `n` clients. It takes, cancels and answers only at the
client whose turn it is, and only an answer passes the turn on. Where server and clients go on again
and again, a request is finished, or the turn rests with a client that does not ask.
-/

namespace RoundRobin

open Exchange

variable {I : Type*}

structure State (I : Type*) where
  turn : ℕ
  phase : ℕ → Phase I

/-- The server is busy with the request `id`. -/
def Busy (ph : Phase I) (id : I) : Prop := ph = .serving id ∨ ph = .canceling id

@[simp] theorem not_busy_idle (id : I) : ¬ Busy .idle id := by simp [Busy]

@[simp] theorem not_busy_sent (x id : I) : ¬ Busy (.sent x) id := by simp [Busy]

@[simp] theorem not_busy_answered (x id : I) : ¬ Busy (.answered x) id := by simp [Busy]

def AtTurn (s : State I) : Prop := ∀ i id, Busy (s.phase i) id → i = s.turn

variable [DecidableEq I]

/-- One step, with what shows of it and at which client. -/
inductive Step (n : ℕ) (s : State I) : Option (ℕ × Event I) → State I → Prop
  | silent : Step n s none s
  | requested (i : ℕ) (id : I) (p : Phase I) (h : (s.phase i).step (.requested id) = some p) :
      Step n s (some (i, .requested id)) ⟨s.turn, Function.update s.phase i p⟩
  | finished (i : ℕ) (id : I) (p : Phase I) (h : (s.phase i).step (.finished id) = some p) :
      Step n s (some (i, .finished id)) ⟨s.turn, Function.update s.phase i p⟩
  | accepted (id : I) (p : Phase I) (h : (s.phase s.turn).step (.accepted id) = some p) :
      Step n s (some (s.turn, .accepted id)) ⟨s.turn, Function.update s.phase s.turn p⟩
  | canceled (id : I) (p : Phase I) (h : (s.phase s.turn).step (.canceled id) = some p) :
      Step n s (some (s.turn, .canceled id)) ⟨s.turn, Function.update s.phase s.turn p⟩
  | replied (id : I) (p : Phase I) (h : (s.phase s.turn).step (.replied id) = some p) :
      Step n s (some (s.turn, .replied id))
        ⟨Turn.next n s.turn, Function.update s.phase s.turn p⟩

section

variable {n : ℕ} {s s' : State I} {e : Option (ℕ × Event I)}

theorem Step.phase (h : Step n s e s') (j : ℕ) :
    s'.phase j = s.phase j ∨ ∃ v, e = some (j, v) ∧ (s.phase j).step v = some (s'.phase j) := by
  have hupdate : ∀ (i : ℕ) (v : Event I) (p : Phase I), (s.phase i).step v = some p →
      Function.update s.phase i p j = s.phase j ∨ ∃ w, some (i, v) = some (j, w) ∧
        (s.phase j).step w = some (Function.update s.phase i p j) := by
    intro i v p hp
    by_cases hji : j = i
    · subst hji
      exact Or.inr ⟨v, rfl, by rw [Function.update_self, hp]⟩
    · exact Or.inl (Function.update_of_ne hji _ _)
  cases h with
  | silent => exact Or.inl rfl
  | requested i id p hp => exact hupdate i _ p hp
  | finished i id p hp => exact hupdate i _ p hp
  | accepted id p hp => exact hupdate _ _ p hp
  | canceled id p hp => exact hupdate _ _ p hp
  | replied id p hp => exact hupdate _ _ p hp

theorem Step.at_turn (h : Step n s e s') {j : ℕ} {v : Event I} (he : e = some (j, v)) :
    (∃ id, v = .requested id ∨ v = .finished id) ∨ j = s.turn := by
  cases h with
  | silent => cases he
  | requested i id p hp =>
    cases he
    exact Or.inl ⟨id, Or.inl rfl⟩
  | finished i id p hp =>
    cases he
    exact Or.inl ⟨id, Or.inr rfl⟩
  | accepted id p hp | canceled id p hp | replied id p hp =>
    cases he
    exact Or.inr rfl

theorem Step.shown (h : Step n s e s') {j : ℕ} {v : Event I} (he : e = some (j, v)) :
    (s.phase j).step v = some (s'.phase j) := by
  cases h with
  | silent => cases he
  | requested i id p hp | finished i id p hp | accepted id p hp | canceled id p hp
  | replied id p hp =>
    cases he
    simpa using hp

theorem Step.turn (h : Step n s e s') :
    s'.turn = s.turn ∧ (∀ id, e ≠ some (s.turn, .replied id)) ∨
      s'.turn = Turn.next n s.turn ∧ ∃ id, e = some (s.turn, .replied id) := by
  cases h with
  | replied id p hp => exact Or.inr ⟨rfl, id, rfl⟩
  | _ => exact Or.inl ⟨rfl, by simp⟩

theorem step_sent {id : I} {v : Event I} {p : Phase I} (h : (Phase.sent id).step v = some p) :
    v = .accepted id ∧ p = .serving id := by
  cases v <;> simp [Phase.step] at h
  exact ⟨by rw [h.1], h.2.symm⟩

theorem step_answered {id : I} {v : Event I} {p : Phase I} (h : (Phase.answered id).step v = some p) :
    v = .finished id ∧ p = .idle := by
  cases v <;> simp [Phase.step] at h
  exact ⟨by rw [h.1], h.2.symm⟩

theorem step_idle {v : Event I} {p : Phase I} (h : (Phase.idle : Phase I).step v = some p) :
    ∃ id, v = .requested id ∧ p = .sent id := by
  cases v <;> simp [Phase.step] at h
  exact ⟨_, rfl, h.symm⟩

theorem step_busy {id : I} {ph p : Phase I} {v : Event I} (hb : Busy ph id)
    (h : ph.step v = some p) :
    v = .canceled id ∧ Busy p id ∨ v = .replied id ∧ p = .answered id := by
  rcases hb with rfl | rfl
  · cases v <;> simp [Phase.step] at h
    · exact Or.inl ⟨by rw [h.1], Or.inr h.2.symm⟩
    · exact Or.inr ⟨by rw [h.1], h.2.symm⟩
  · cases v <;> simp [Phase.step] at h
    exact Or.inr ⟨by rw [h.1], h.2.symm⟩

theorem Step.sent (h : Step n s e s') {j : ℕ} {id : I} (hj : s.phase j = .sent id) :
    s'.phase j = .sent id ∨ j = s.turn ∧ s'.turn = s.turn ∧ s'.phase j = .serving id := by
  rcases h.phase j with hsame | ⟨v, he, hv⟩
  · exact Or.inl (hsame.trans hj)
  · rw [hj] at hv
    obtain ⟨rfl, hp⟩ := step_sent hv
    refine Or.inr ⟨?_, ?_, hp⟩
    · rcases h.at_turn he with ⟨x, hx | hx⟩ | ht
      · cases hx
      · cases hx
      · exact ht
    · rcases h.turn with ⟨ht, -⟩ | ⟨-, x, hx⟩
      · exact ht
      · rw [he] at hx
        cases hx

theorem Step.answered (h : Step n s e s') {j : ℕ} {id : I} (hj : s.phase j = .answered id) :
    s'.phase j = .answered id ∨ e = some (j, .finished id) ∧ s'.phase j = .idle := by
  rcases h.phase j with hsame | ⟨v, he, hv⟩
  · exact Or.inl (hsame.trans hj)
  · rw [hj] at hv
    obtain ⟨rfl, hp⟩ := step_answered hv
    exact Or.inr ⟨he, hp⟩

theorem Step.idle (h : Step n s e s') {j : ℕ} (hj : s.phase j = .idle) :
    s'.phase j = .idle ∨ ∃ id, s'.phase j = .sent id := by
  rcases h.phase j with hsame | ⟨v, he, hv⟩
  · exact Or.inl (hsame.trans hj)
  · rw [hj] at hv
    obtain ⟨id, -, hp⟩ := step_idle hv
    exact Or.inr ⟨id, hp⟩

theorem Step.turn_free (h : Step n s e s') (hfree : ∀ id, ¬ Busy (s.phase s.turn) id) :
    s'.turn = s.turn := by
  cases h with
  | replied id p hp =>
    exfalso
    cases hph : s.phase s.turn with
    | serving x => exact hfree x (Or.inl hph)
    | canceling x => exact hfree x (Or.inr hph)
    | idle | sent x | answered x =>
      rw [hph] at hp
      cases hp
  | _ => rfl

theorem Step.busy (h : Step n s e s') {id : I} (hb : Busy (s.phase s.turn) id) :
    s'.turn = s.turn ∧ Busy (s'.phase s.turn) id ∨
      e = some (s.turn, .replied id) ∧ s'.turn = Turn.next n s.turn ∧
        s'.phase s.turn = .answered id := by
  rcases h.turn with ⟨ht, hnot⟩ | ⟨ht, x, hx⟩
  · left
    refine ⟨ht, ?_⟩
    rcases h.phase s.turn with hsame | ⟨v, he, hv⟩
    · rwa [hsame]
    · rcases step_busy hb hv with ⟨-, hp⟩ | ⟨rfl, -⟩
      · exact hp
      · exact absurd he (hnot id)
  · right
    rcases step_busy hb (h.shown hx) with ⟨hc, -⟩ | ⟨hc, hp⟩
    · cases hc
    · exact ⟨hc ▸ hx, ht, hp⟩

theorem Step.becomes_busy (h : Step n s e s') {j : ℕ} {id : I} (hb : Busy (s'.phase j) id) :
    (∃ x, Busy (s.phase j) x) ∨ s.phase j = .sent id := by
  rcases h.phase j with hsame | ⟨v, -, hv⟩
  · rw [hsame] at hb
    exact Or.inl ⟨id, hb⟩
  · cases hph : s.phase j with
    | serving x => exact Or.inl ⟨x, Or.inl rfl⟩
    | canceling x => exact Or.inl ⟨x, Or.inr rfl⟩
    | idle =>
      rw [hph] at hv
      obtain ⟨x, -, hp⟩ := step_idle hv
      simp [hp] at hb
    | sent x =>
      rw [hph] at hv
      rw [(step_sent hv).2] at hb
      rcases hb with hb | hb <;> cases hb
      exact Or.inr rfl
    | answered x =>
      rw [hph] at hv
      simp [(step_answered hv).2] at hb

theorem Step.atTurn (h : Step n s e s') (hs : AtTurn s) : AtTurn s' := by
  intro i id hb
  rcases h.becomes_busy hb with ⟨x, hbusy⟩ | hsent
  · obtain rfl := hs i x hbusy
    rcases h.busy hbusy with ⟨ht, -⟩ | ⟨-, -, hp⟩
    · exact ht.symm
    · simp [hp] at hb
  · rcases h.sent hsent with hp | ⟨hi, ht, -⟩
    · simp [hp] at hb
    · rw [ht, hi]

end

/-- An infinite run in which the server looks at its turn, the clients look for their answers and
the server answers, again and again. -/
structure Run (n : ℕ) (x : ℕ → State I) (e : ℕ → Option (ℕ × Event I)) : Prop where
  turn : (x 0).turn < n
  atTurn : AtTurn (x 0)
  step : ∀ t, Step n (x t) (e t) (x (t + 1))
  looks : ∀ t, ∃ k, t ≤ k ∧ ∀ id, (x k).phase (x k).turn = .sent id →
    e k = some ((x k).turn, .accepted id)
  fetches : ∀ i < n, ∀ t, ∃ k, t ≤ k ∧ ∀ id, (x k).phase i = .answered id →
    e k = some (i, .finished id)
  answers : ∀ t, ∃ k, t ≤ k ∧ ∀ id, Busy ((x k).phase (x k).turn) id →
    e k = some ((x k).turn, .replied id)

/-- From some time on the turn is with client `i`, which does not ask, and `j` waits. -/
def RestsAt (x : ℕ → State I) (i j : ℕ) (id : I) : Prop :=
  ∃ m, ∀ k, m ≤ k → (x k).turn = i ∧ (x k).phase i = .idle ∧ (x k).phase j = .sent id

namespace Run

variable {n : ℕ} {x : ℕ → State I} {e : ℕ → Option (ℕ × Event I)} {i j : ℕ} {id y : I}

theorem inRange (hr : Run n x e) (t : ℕ) : (x t).turn < n := by
  induction t with
  | zero => exact hr.turn
  | succ t ih =>
    rcases (hr.step t).turn with ⟨ht, -⟩ | ⟨ht, -⟩
    · rw [ht]
      exact ih
    · rw [ht]
      exact Turn.next_lt (Nat.zero_lt_of_lt ih) _

theorem busy_atTurn (hr : Run n x e) (t : ℕ) : AtTurn (x t) := by
  induction t with
  | zero => exact hr.atTurn
  | succ t ih => exact (hr.step t).atTurn ih

/-- Client `j` waits while the turn is with `i`. -/
def Waits (x : ℕ → State I) (i j : ℕ) (id : I) (t : ℕ) : Prop :=
  (x t).turn = i ∧ (x t).phase j = .sent id

theorem waits_kept (hr : Run n x e) {t : ℕ} (hij : i ≠ j) (hw : Waits x i j id t)
    (hturn : (x (t + 1)).turn = i) : Waits x i j id (t + 1) := by
  obtain ⟨ht, hj⟩ := hw
  rcases (hr.step t).sent hj with hsent | ⟨hc, -⟩
  · exact ⟨hturn, hsent⟩
  · exact absurd (hc.trans ht) hij.symm

theorem waits_free (hr : Run n x e) {t : ℕ} (hij : i ≠ j) (hw : Waits x i j id t)
    (hfree : ∀ z, ¬ Busy ((x t).phase i) z) : Waits x i j id (t + 1) := by
  obtain ⟨rfl, hj⟩ := hw
  exact hr.waits_kept hij ⟨rfl, hj⟩ ((hr.step t).turn_free hfree)

theorem served (hr : Run n x e) (hij : i ≠ j) :
    LeadsTo (fun t => Waits x i j id t ∧ Busy ((x t).phase i) y)
      (fun t => Waits x (Turn.next n i) j id t) := by
  refine LeadsTo.of_succ (LeadsTo.ensures ?_ ?_)
  · rintro t ⟨⟨rfl, hj⟩, hb⟩
    rcases (hr.step t).busy hb with ⟨ht, hb'⟩ | ⟨-, ht, -⟩
    · exact Or.inr ⟨hr.waits_kept hij ⟨rfl, hj⟩ ht, hb'⟩
    · rcases (hr.step t).sent hj with hsent | ⟨hc, -⟩
      · exact Or.inl ⟨ht, hsent⟩
      · exact absurd hc.symm hij
  · rintro t -
    obtain ⟨k, htk, hk⟩ := hr.answers t
    refine ⟨k, htk, ?_⟩
    rintro ⟨⟨rfl, hj⟩, hb⟩
    rcases (hr.step k).turn with ⟨-, hnot⟩ | ⟨ht, -⟩
    · exact absurd (hk y hb) (hnot y)
    · rcases (hr.step k).sent hj with hsent | ⟨hc, -⟩
      · exact ⟨ht, hsent⟩
      · exact absurd hc.symm hij

theorem taken (hr : Run n x e) (hij : i ≠ j) :
    LeadsTo (fun t => Waits x i j id t ∧ (x t).phase i = .sent y)
      (fun t => Waits x i j id t ∧ Busy ((x t).phase i) y) := by
  refine LeadsTo.of_succ (LeadsTo.ensures ?_ ?_)
  · rintro t ⟨hw, hi⟩
    have hnext := hr.waits_free hij hw (by simp [hi])
    rcases (hr.step t).sent hi with hsent | ⟨-, -, hp⟩
    · exact Or.inr ⟨hnext, hsent⟩
    · exact Or.inl ⟨hnext, Or.inl hp⟩
  · rintro t -
    obtain ⟨k, htk, hk⟩ := hr.looks t
    refine ⟨k, htk, ?_⟩
    rintro ⟨⟨rfl, hj⟩, hi⟩
    refine ⟨hr.waits_free hij ⟨rfl, hj⟩ (by simp [hi]), Or.inl ?_⟩
    have hv := (hr.step k).shown (hk y hi)
    rw [hi] at hv
    exact (step_sent hv).2

theorem fetched (hr : Run n x e) (hij : i ≠ j) (hi : i < n) :
    LeadsTo (fun t => Waits x i j id t ∧ (x t).phase i = .answered y)
      (fun t => Waits x i j id t ∧ (x t).phase i = .idle) := by
  refine LeadsTo.of_succ (LeadsTo.ensures ?_ ?_)
  · rintro t ⟨hw, hph⟩
    have hnext := hr.waits_free hij hw (by simp [hph])
    rcases (hr.step t).answered hph with hstill | ⟨-, hp⟩
    · exact Or.inr ⟨hnext, hstill⟩
    · exact Or.inl ⟨hnext, hp⟩
  · rintro t -
    obtain ⟨k, htk, hk⟩ := hr.fetches i hi t
    refine ⟨k, htk, ?_⟩
    rintro ⟨hw, hph⟩
    refine ⟨hr.waits_free hij hw (by simp [hph]), ?_⟩
    have hv := (hr.step k).shown (hk y hph)
    rw [hph] at hv
    exact (step_answered hv).2

theorem asked (hr : Run n x e) (hij : i ≠ j) (hrest : ¬ RestsAt x i j id) :
    LeadsTo (fun t => Waits x i j id t ∧ (x t).phase i = .idle)
      (fun t => ∃ z, Waits x i j id t ∧ (x t).phase i = .sent z) := by
  refine LeadsTo.of_succ (LeadsTo.ensures ?_ ?_)
  · rintro t ⟨hw, hi⟩
    have hnext := hr.waits_free hij hw (by simp [hi])
    rcases (hr.step t).idle hi with hidle | ⟨z, hz⟩
    · exact Or.inr ⟨hnext, hidle⟩
    · exact Or.inl ⟨z, hnext, hz⟩
  · rintro t -
    have hleaves : ∃ k, t ≤ k ∧ ¬ ((x k).turn = i ∧ (x k).phase i = .idle ∧
        (x k).phase j = .sent id) := by
      by_contra hnone
      exact hrest ⟨t, fun k htk => by_contra fun hk => hnone ⟨k, htk, hk⟩⟩
    obtain ⟨k, htk, hk⟩ := hleaves
    exact ⟨k, htk, fun ⟨hw, hi⟩ => absurd ⟨hw.1, hi, hw.2⟩ hk⟩

theorem passed (hr : Run n x e) (hij : i ≠ j) (hi : i < n) (hrest : ¬ RestsAt x i j id) :
    LeadsTo (Waits x i j id) (Waits x (Turn.next n i) j id) := by
  have hsent : LeadsTo (fun t => ∃ z, Waits x i j id t ∧ (x t).phase i = .sent z)
      (Waits x (Turn.next n i) j id) := by
    rintro t ⟨z, ht⟩
    exact ((hr.taken hij).trans (hr.served hij)) t ht
  have hidle := (hr.asked hij hrest).trans hsent
  intro t hw
  cases hph : (x t).phase i with
  | idle => exact hidle t ⟨hw, hph⟩
  | sent z => exact hsent t ⟨z, hw, hph⟩
  | serving z => exact hr.served hij t ⟨hw, Or.inl hph⟩
  | canceling z => exact hr.served hij t ⟨hw, Or.inr hph⟩
  | answered z => exact ((hr.fetched hij hi).trans hidle) t ⟨hw, hph⟩

/-- The turn comes to a client that waits. -/
theorem comes (hr : Run n x e) (hj : j < n) (hrest : ∀ i, i ≠ j → ¬ RestsAt x i j id) :
    LeadsTo (fun t => (x t).phase j = .sent id) (Waits x j j id) := by
  refine LeadsTo.of_rank (fun t => Turn.ahead n (x t).turn j) fun d t ⟨hw, hd⟩ => ?_
  by_cases htj : (x t).turn = j
  · exact ⟨t, Nat.le_refl t, Or.inl ⟨htj, hw⟩⟩
  · have hlt := hr.inRange t
    obtain ⟨k, htk, ht, hsent⟩ := hr.passed htj hlt (hrest _ htj) t ⟨rfl, hw⟩
    refine ⟨k, htk, Or.inr ⟨hsent, ?_⟩⟩
    have hahead := Turn.ahead_next hlt hj htj
    rw [ht]
    omega

theorem finishes (hr : Run n x e) (hj : j < n) :
    LeadsTo (Waits x j j id) (fun t => e t = some (j, .finished id)) := by
  have htaken : LeadsTo (Waits x j j id) (fun t => Busy ((x t).phase j) id) := by
    refine LeadsTo.of_succ (LeadsTo.ensures ?_ ?_)
    · rintro t ⟨rfl, hsent⟩
      rcases (hr.step t).sent hsent with hstill | ⟨-, -, hp⟩
      · exact Or.inr ⟨(hr.step t).turn_free (by simp [hsent]), hstill⟩
      · exact Or.inl (Or.inl hp)
    · rintro t -
      obtain ⟨k, htk, hk⟩ := hr.looks t
      refine ⟨k, htk, ?_⟩
      rintro ⟨rfl, hsent⟩
      have hv := (hr.step k).shown (hk id hsent)
      rw [hsent] at hv
      exact Or.inl (step_sent hv).2
  have hanswered : LeadsTo (fun t => Busy ((x t).phase j) id)
      (fun t => (x t).phase j = .answered id) := by
    refine LeadsTo.of_succ (LeadsTo.ensures ?_ ?_)
    · intro t hb
      obtain rfl := hr.busy_atTurn t j id hb
      rcases (hr.step t).busy hb with ⟨-, hb'⟩ | ⟨-, -, hp⟩
      · exact Or.inr hb'
      · exact Or.inl hp
    · intro t _
      obtain ⟨k, htk, hk⟩ := hr.answers t
      refine ⟨k, htk, fun hb => ?_⟩
      obtain rfl := hr.busy_atTurn k j id hb
      rcases step_busy hb ((hr.step k).shown (hk id hb)) with ⟨hc, -⟩ | ⟨-, hp⟩
      · cases hc
      · exact hp
  have hfinished : LeadsTo (fun t => (x t).phase j = .answered id)
      (fun t => e t = some (j, .finished id)) := by
    refine LeadsTo.ensures (fun t hph => ?_) fun t _ => hr.fetches j hj t |>.imp
      fun k ⟨htk, hk⟩ => ⟨htk, hk id⟩
    rcases (hr.step t).answered hph with hstill | ⟨he, -⟩
    · exact Or.inr hstill
    · exact Or.inl he
  exact htaken.trans (hanswered.trans hfinished)

/-- A request is finished, or the turn comes to rest with a client that does not ask. -/
theorem finishes_or_rests (hr : Run n x e) (hj : j < n) {t : ℕ} (hsent : (x t).phase j = .sent id) :
    (∃ k, t ≤ k ∧ e k = some (j, .finished id)) ∨ ∃ i, i ≠ j ∧ RestsAt x i j id := by
  by_cases hrest : ∃ i, i ≠ j ∧ RestsAt x i j id
  · exact Or.inr hrest
  · have hnone : ∀ i, i ≠ j → ¬ RestsAt x i j id := fun i hi hr => hrest ⟨i, hi, hr⟩
    exact Or.inl ((hr.comes hj hnone).trans (hr.finishes hj) t hsent)

end Run
end RoundRobin
