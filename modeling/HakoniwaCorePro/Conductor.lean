import HakoniwaCorePro.Runs

/-!
# The conductor's thread

`hako_conductor_impl_start` and `hako_conductor_impl_stop`, called one after the other, against the
loop of the thread that a start makes. Pointer and stop flag are shared by all of them; a step of a
thread is one access to them or one call of `execute`. The controller and the creation of a thread
are from outside, their answers are part of the actions.
-/

namespace HakoniwaCorePro
namespace Conductor

open Runs

/-- Where a thread of `hako_conductor_impl_thread_run` stands: before the test of the flag, inside
`execute`, before the pointer is cleared, behind that, or at a call through a null pointer. -/
inductive Pc
  | testing | executing | clearing | ended | crashed
  deriving DecidableEq

structure Worker where
  pc : Pc
  /-- How often the thread has called `execute`. -/
  executions : ℕ
  /-- Whether a stop has been called since the thread was made. -/
  stopped : Bool
  deriving DecidableEq

/-- What `execute` does: it returns whether the world time moved, or it throws. -/
inductive Execution
  | returned (moved : Bool)
  | thrown
  deriving DecidableEq

inductive StartAnswer
  | masterThrown | noMaster | configThrown | threadThrown | started
  deriving DecidableEq

structure State where
  /-- `hako_conductor` is not null. -/
  conductor : Bool
  cmdStop : Bool
  /-- The caller is inside `hako_conductor_impl_stop`. -/
  stopping : Bool
  workers : List Worker
  deriving DecidableEq

def initial : State := ⟨false, false, false, []⟩

/-- `hako_conductor_impl_start`; `none` is an exception. Nothing else runs while the pointer is null,
so that the call is one step. -/
def State.start (answer : StartAnswer) (s : State) : Option Bool × State :=
  if s.conductor then (some false, s)
  else
    match answer with
    | .masterThrown | .configThrown => (none, s)
    | .noMaster => (some false, s)
    -- the thread is made outside the `try`, with the pointer set
    | .threadThrown => (none, { s with conductor := true })
    | .started => (some true, { s with
        conductor := true
        workers := s.workers ++ [⟨.testing, 0, false⟩] })

/-- The first statement of `hako_conductor_impl_stop`. -/
def State.stop (s : State) : State where
  conductor := s.conductor
  cmdStop := true
  stopping := true
  workers := s.workers.map fun w => { w with stopped := true }

/-- The test of the loop of `hako_conductor_impl_stop`. -/
def State.poll (s : State) : State := if s.conductor then s else { s with stopping := false }

/-- One step of a thread, with the pointer and the flag that it finds; the pointer is returned. -/
def Worker.step (conductor cmdStop : Bool) (e : Execution) (w : Worker) : Worker × Bool :=
  match w.pc with
  | .testing =>
    if cmdStop then ({ w with pc := .clearing }, conductor)
    else if conductor then ({ w with pc := .executing, executions := w.executions + 1 }, conductor)
    else ({ w with pc := .crashed }, conductor)
  | .executing =>
    match e with
    | .returned _ => ({ w with pc := .testing }, conductor)
    | .thrown => ({ w with pc := .clearing }, conductor)
  | .clearing => ({ w with pc := .ended }, false)
  | .ended | .crashed => (w, conductor)

def State.work (i : ℕ) (e : Execution) (s : State) : State :=
  match s.workers[i]? with
  | none => s
  | some w =>
    let r := w.step s.conductor s.cmdStop e
    { s with conductor := r.2, workers := s.workers.set i r.1 }

/-- The caller's calls and the steps of the threads, in any order. A caller inside a stop only polls. -/
inductive Action
  | start (answer : StartAnswer)
  | stop
  | poll
  | worker (i : ℕ) (e : Execution)
  deriving DecidableEq

def act (s : State) : Action → State
  | .start answer => if s.stopping then s else (s.start answer).2
  | .stop => if s.stopping then s else s.stop
  | .poll => if s.stopping then s.poll else s
  | .worker i e => s.work i e

/-- The same action with the threads numbered from `k` on. -/
def Action.shift (k : ℕ) : Action → Action
  | .worker i e => .worker (k + i) e
  | a => a

/-- What is seen of the caller and of the threads from number `k` on. -/
def State.seen (k : ℕ) (s : State) : Bool × List Worker := (s.stopping, s.workers.drop k)

/-- The call returns what the first start of a process returns with this answer, and when it returns
true, all that can happen later is what can happen after that first start. -/
def LikeFirst (s : State) (answer : StartAnswer) : Prop :=
  (s.start answer).1 = (initial.start answer).1 ∧
    ((s.start answer).1 = some true → ∀ as : List Action,
      (run act (s.start answer).2 (as.map (Action.shift s.workers.length))).seen s.workers.length =
        (run act (initial.start answer).2 as).seen 0)

/-- A thread after its step: it goes from the test into `execute`, and from `execute` back to the
test unless there was an exception. -/
def GoesOn (e : Execution) (w w' : Worker) : Prop :=
  (w.pc = .testing → w'.pc = .executing ∧ w'.executions = w.executions + 1) ∧
    (w.pc = .executing → e ≠ .thrown → w'.pc = .testing)

def KeepsLifeCycle (s : State) : Action → Prop
  | .start answer => s.stopping = false → s.conductor = false → LikeFirst s answer
  | .stop => True
  | .poll => s.stopping = true → (act s .poll).stopping = false → ∀ w ∈ s.workers, w.pc = .ended
  | .worker i e => ∀ w, s.workers[i]? = some w → w.stopped = false →
      ∃ w', (act s (.worker i e)).workers[i]? = some w' ∧ GoesOn e w w'

/-- A start that makes a thread finds the flag as the process began with it. -/
def FlagClear (s : State) (a : Action) : Prop :=
  a = .start .started → s.stopping = false → s.conductor = false → s.cmdStop = false

theorem start_cmdStop (s : State) (answer : StartAnswer) : (s.start answer).2.cmdStop = s.cmdStop := by
  unfold State.start
  split
  · rfl
  · cases answer <;> rfl

theorem work_cmdStop (s : State) (i : ℕ) (e : Execution) : (s.work i e).cmdStop = s.cmdStop := by
  unfold State.work
  split <;> rfl

theorem act_flag (s : State) (h : s.stopping = true → s.cmdStop = true) (a : Action) :
    (act s a).cmdStop = (s.cmdStop || decide (a = .stop)) ∧
      ((act s a).stopping = true → (act s a).cmdStop = true) := by
  cases a with
  | start answer =>
    simp only [act]
    split
    · exact ⟨by simp, h⟩
    · have hstopping : (s.start answer).2.stopping = s.stopping := by
        unfold State.start
        split
        · rfl
        · cases answer <;> rfl
      rw [start_cmdStop, hstopping]
      exact ⟨by simp, h⟩
  | stop =>
    simp only [act]
    split
    · next hstopping => exact ⟨by simp [h hstopping], h⟩
    · exact ⟨by simp [State.stop], fun _ => rfl⟩
  | poll =>
    simp only [act, State.poll]
    split
    · split
      · exact ⟨by simp, h⟩
      · exact ⟨by simp, by simp⟩
    · exact ⟨by simp, h⟩
  | worker i e =>
    have hstopping : (s.work i e).stopping = s.stopping := by
      unfold State.work
      split <;> rfl
    simp only [act, work_cmdStop, hstopping]
    exact ⟨by simp, h⟩

theorem cmdStop_run (as : List Action) : (run act initial as).cmdStop = decide (.stop ∈ as) := by
  have hboth : (run act initial as).cmdStop = decide (.stop ∈ as) ∧
      ((run act initial as).stopping = true → (run act initial as).cmdStop = true) := by
    induction as using List.reverseRecOn with
    | nil => exact ⟨rfl, id⟩
    | append_singleton as a ih =>
      obtain ⟨hflag, hstopping⟩ := act_flag _ ih.2 a
      rw [run_concat]
      refine ⟨?_, hstopping⟩
      rw [hflag, ih.1]
      by_cases ha : a = .stop
      · simp [ha]
      · simp [ha, Ne.symm ha]
  exact hboth.1

/-- A process whose threads from number `k` on are the threads of another one. -/
structure Follows (k : ℕ) (s t : State) : Prop where
  conductor : s.conductor = t.conductor
  cmdStop : s.cmdStop = t.cmdStop
  stopping : s.stopping = t.stopping
  workers : s.workers.drop k = t.workers
  old : k ≤ s.workers.length

theorem Follows.start {k : ℕ} {s t : State} (h : Follows k s t) (answer : StartAnswer) :
    Follows k (s.start answer).2 (t.start answer).2 := by
  unfold State.start
  rw [h.conductor]
  cases t.conductor with
  | true => exact h
  | false =>
    cases answer with
    | started =>
      refine ⟨rfl, h.cmdStop, h.stopping, ?_, ?_⟩
      · change (s.workers ++ _).drop k = t.workers ++ _
        rw [List.drop_append_of_le_length h.old, h.workers]
      · exact Nat.le_trans h.old (by simp)
    | threadThrown => exact ⟨rfl, h.cmdStop, h.stopping, h.workers, h.old⟩
    | _ => exact h

theorem Follows.work {k : ℕ} {s t : State} (h : Follows k s t) (i : ℕ) (e : Execution) :
    Follows k (s.work (k + i) e) (t.work i e) := by
  have hget : s.workers[k + i]? = t.workers[i]? := by rw [← h.workers, List.getElem?_drop]
  unfold State.work
  rw [hget]
  cases t.workers[i]? with
  | none => exact h
  | some w =>
    refine ⟨?_, h.cmdStop, h.stopping, ?_, ?_⟩
    · simp only [h.conductor, h.cmdStop]
    · simp only [h.conductor, h.cmdStop, List.drop_set, h.workers]
      rw [if_neg (by omega), Nat.add_sub_cancel_left]
    · simpa using h.old

theorem Follows.act {k : ℕ} {s t : State} (h : Follows k s t) (a : Action) :
    Follows k (act s (a.shift k)) (Conductor.act t a) := by
  cases a with
  | start answer =>
    simp only [Action.shift, Conductor.act, h.stopping]
    split
    · exact h
    · exact h.start answer
  | stop =>
    simp only [Action.shift, Conductor.act, h.stopping]
    split
    · exact h
    · exact ⟨h.conductor, rfl, rfl, by simp [State.stop, ← List.map_drop, h.workers], by simpa [State.stop] using h.old⟩
  | poll =>
    simp only [Action.shift, Conductor.act, State.poll, h.stopping, h.conductor]
    split
    · split
      · exact h
      · exact ⟨rfl, h.cmdStop, rfl, h.workers, h.old⟩
    · exact h
  | worker i e => exact h.work i e

theorem Follows.run {k : ℕ} {s t : State} (h : Follows k s t) (as : List Action) :
    Follows k (run Conductor.act s (as.map (Action.shift k))) (Runs.run Conductor.act t as) := by
  induction as generalizing s t with
  | nil => exact h
  | cons a as ih => exact ih (h.act a)

theorem start_started {s : State} (hc : s.conductor = false) : s.start .started =
    (some true, { s with conductor := true, workers := s.workers ++ [⟨.testing, 0, false⟩] }) := by
  simp [State.start, hc]

theorem likeFirst_iff {s : State} (hs : s.stopping = false) (hc : s.conductor = false)
    (answer : StartAnswer) : LikeFirst s answer ↔ (answer = .started → s.cmdStop = false) := by
  constructor
  · rintro ⟨hresult, hfuture⟩ rfl
    by_contra hflag
    rw [Bool.not_eq_false] at hflag
    -- the thread alone, one step: it leaves the loop, the first one calls `execute`
    have hone := hfuture (by rw [start_started hc]) [.worker 0 (.returned true)]
    rw [start_started hc] at hone
    simp [State.seen, act, Action.shift, State.work, Worker.step, State.start, initial, hflag] at hone
  · intro hflag
    constructor
    · unfold State.start
      simp only [hc, initial, Bool.false_eq_true, if_false]
      cases answer <;> rfl
    · intro htrue as
      have hstarted : answer = .started := by
        cases answer <;> simp [State.start, hc] at htrue ⊢
      have hbefore : Follows s.workers.length s initial :=
        ⟨hc, hflag hstarted, hs, List.drop_length, Nat.le_refl _⟩
      have hafter := (hbefore.start answer).run as
      unfold State.seen
      rw [hafter.stopping, hafter.workers, List.drop_zero]

/-- Only the last thread can still run, the pointer is there while it does, and a thread that no stop has
been called for finds the flag clear. -/
structure Orderly (s : State) : Prop where
  cleared : s.conductor = false → ∀ (i : ℕ) (w : Worker), s.workers[i]? = some w → w.pc = .ended
  last : ∀ (i : ℕ) (w : Worker), s.workers[i]? = some w → w.pc ≠ .ended → i + 1 = s.workers.length
  going : ∀ (i : ℕ) (w : Worker), s.workers[i]? = some w → w.pc ≠ .ended → w.stopped = false → s.cmdStop = false
  sound : ∀ (i : ℕ) (w : Worker), s.workers[i]? = some w → w.pc ≠ .crashed

theorem orderly_initial : Orderly initial := by
  constructor <;> simp [initial]

theorem Orderly.start {s : State} (h : Orderly s) {answer : StartAnswer}
    (hflag : answer = .started → s.conductor = false → s.cmdStop = false) :
    Orderly (s.start answer).2 := by
  cases hc : s.conductor with
  | true => simpa [State.start, hc] using h
  | false =>
    cases answer with
    | started =>
      rw [start_started hc]
      have hcases : ∀ (i : ℕ) (w : Worker), (s.workers ++ [⟨.testing, 0, false⟩])[i]? = some w →
          w.pc = .ended ∨ (i = s.workers.length ∧ w = ⟨.testing, 0, false⟩) := by
        intro i w hw
        rw [List.getElem?_append] at hw
        split at hw
        · exact Or.inl (h.cleared hc i w hw)
        · next hlen =>
          obtain ⟨hi, hw⟩ := List.getElem?_eq_some_iff.mp hw
          simp only [List.length_singleton] at hi
          refine Or.inr ⟨by omega, ?_⟩
          simpa using hw.symm
      constructor
      · intro hnull
        exact absurd hnull (by simp)
      · intro i w hw hlive
        rcases hcases i w hw with hended | ⟨rfl, -⟩
        · exact absurd hended hlive
        · simp
      · intro i w hw hlive _
        exact hflag rfl hc
      · intro i w hw
        rcases hcases i w hw with hended | ⟨-, rfl⟩
        · simp [hended]
        · simp
    | threadThrown =>
      have heq : (s.start .threadThrown).2 = { s with conductor := true } := by simp [State.start, hc]
      rw [heq]
      exact ⟨fun hnull => absurd hnull (by simp), h.last, h.going, h.sound⟩
    | _ => simpa [State.start, hc] using h

theorem Orderly.stop {s : State} (h : Orderly s) : Orderly s.stop := by
  have hold : ∀ (i : ℕ) (w : Worker), s.stop.workers[i]? = some w →
      ∃ v, s.workers[i]? = some v ∧ w.pc = v.pc ∧ w.stopped = true := by
    intro i w hw
    simp only [State.stop, List.getElem?_map, Option.map_eq_some_iff] at hw
    obtain ⟨v, hv, rfl⟩ := hw
    exact ⟨v, hv, rfl, rfl⟩
  constructor
  · intro hnull i w hw
    obtain ⟨v, hv, hpc, -⟩ := hold i w hw
    rw [hpc]
    exact h.cleared hnull i v hv
  · intro i w hw hlive
    obtain ⟨v, hv, hpc, -⟩ := hold i w hw
    rw [hpc] at hlive
    simpa [State.stop] using h.last i v hv hlive
  · intro i w hw _ hstopped
    obtain ⟨v, -, -, hset⟩ := hold i w hw
    rw [hset] at hstopped
    exact absurd hstopped (by decide)
  · intro i w hw
    obtain ⟨v, hv, hpc, -⟩ := hold i w hw
    rw [hpc]
    exact h.sound i v hv

theorem Orderly.poll {s : State} (h : Orderly s) : Orderly s.poll := by
  unfold State.poll
  split
  · exact h
  · exact ⟨h.cleared, h.last, h.going, h.sound⟩

theorem work_getElem? {s : State} {i : ℕ} {w : Worker} (hw : s.workers[i]? = some w) (e : Execution)
    (j : ℕ) : (s.work i e).workers[j]? =
      if j = i then some (w.step s.conductor s.cmdStop e).1 else s.workers[j]? := by
  obtain ⟨hi, -⟩ := List.getElem?_eq_some_iff.mp hw
  simp only [State.work, hw, List.getElem?_set]
  by_cases hj : j = i
  · simp [hj, hi]
  · simp [hj, Ne.symm hj]

theorem work_conductor {s : State} {i : ℕ} {w : Worker} (hw : s.workers[i]? = some w) (e : Execution) :
    (s.work i e).conductor = (s.conductor && decide (w.pc ≠ .clearing)) := by
  simp only [State.work, hw, Worker.step]
  cases hpc : w.pc with
  | testing =>
    dsimp only
    split
    · simp
    · split <;> simp
  | executing => cases e <;> simp
  | _ => simp

/-- What a thread does in an orderly process. -/
theorem Orderly.step {s : State} (h : Orderly s) {i : ℕ} {w : Worker} (hw : s.workers[i]? = some w)
    (e : Execution) : (w.step s.conductor s.cmdStop e).1.pc ≠ .crashed ∧
      (w.step s.conductor s.cmdStop e).1.stopped = w.stopped ∧
      ((w.step s.conductor s.cmdStop e).1.pc ≠ .ended → w.pc ≠ .ended ∧ w.pc ≠ .clearing) ∧
      (w.stopped = false → GoesOn e w (w.step s.conductor s.cmdStop e).1) := by
  have hsound := h.sound i w hw
  unfold Worker.step GoesOn
  cases hpc : w.pc with
  | testing =>
    have hlive : w.pc ≠ .ended := by simp [hpc]
    have hthere : s.conductor = true := by
      by_contra hnull
      exact hlive (h.cleared (by simpa using hnull) i w hw)
    cases hflag : s.cmdStop with
    | false => simp [hthere]
    | true =>
      have hstopped : w.stopped ≠ false := by
        intro hgoing
        have hclear := h.going i w hw hlive hgoing
        rw [hflag] at hclear
        exact absurd hclear (by decide)
      simp [hstopped]
  | executing => cases e <;> simp
  | clearing => simp
  | ended => simp [hpc]
  | crashed => exact absurd hpc hsound

theorem Orderly.work {s : State} (h : Orderly s) (i : ℕ) (e : Execution) : Orderly (s.work i e) := by
  cases hw : s.workers[i]? with
  | none => simpa [State.work, hw] using h
  | some w =>
    obtain ⟨hsound, hstopped, hlive, -⟩ := h.step hw e
    have hget := work_getElem? hw e
    have hlength : (s.work i e).workers.length = s.workers.length := by simp [State.work, hw]
    constructor
    · intro hnull j v hv
      rw [hget] at hv
      rw [work_conductor hw] at hnull
      by_contra hrun
      cases hc : s.conductor with
      | false =>
        split at hv
        · cases hv
          exact (hlive hrun).1 (h.cleared hc i w hw)
        · exact hrun (h.cleared hc j v hv)
      | true =>
        have hclearing : w.pc = .clearing := by simpa [hc] using hnull
        split at hv
        · cases hv
          exact (hlive hrun).2 hclearing
        · next hj =>
          have hlast := h.last j v hv hrun
          have hthis := h.last i w hw (by simp [hclearing])
          omega
    · intro j v hv hrun
      rw [hget] at hv
      rw [hlength]
      split at hv
      · next hj =>
        cases hv
        rw [hj]
        exact h.last i w hw (hlive hrun).1
      · exact h.last j v hv hrun
    · intro j v hv hrun hgoing
      rw [hget] at hv
      rw [work_cmdStop]
      split at hv
      · cases hv
        exact h.going i w hw (hlive hrun).1 (hstopped ▸ hgoing)
      · exact h.going j v hv hrun hgoing
    · intro j v hv
      rw [hget] at hv
      split at hv
      · cases hv
        exact hsound
      · exact h.sound j v hv

theorem Orderly.act {s : State} (h : Orderly s) {a : Action} (hflag : FlagClear s a) :
    Orderly (act s a) := by
  cases a with
  | start answer =>
    simp only [Conductor.act]
    split
    · exact h
    · next hs => exact h.start fun hstarted => hflag (by rw [hstarted]) (by simpa using hs)
  | stop =>
    simp only [Conductor.act]
    split
    · exact h
    · exact h.stop
  | poll =>
    simp only [Conductor.act]
    split
    · exact h.poll
    · exact h
  | worker i e => exact h.work i e

theorem Orderly.keepsLifeCycle_iff {s : State} (h : Orderly s) (a : Action) :
    KeepsLifeCycle s a ↔ FlagClear s a := by
  cases a with
  | start answer =>
    simp only [KeepsLifeCycle, FlagClear, Action.start.injEq]
    constructor
    · intro hlike hstarted hs hc
      exact (likeFirst_iff hs hc answer).mp (hlike hs hc) hstarted
    · intro hflag hs hc
      exact (likeFirst_iff hs hc answer).mpr fun hstarted => hflag hstarted hs hc
  | stop => simp [KeepsLifeCycle, FlagClear]
  | poll =>
    simp only [KeepsLifeCycle, FlagClear, reduceCtorEq, false_imp_iff, iff_true]
    intro hs hreturned w hw
    obtain ⟨i, hi⟩ := List.mem_iff_getElem?.mp hw
    refine h.cleared ?_ i w hi
    by_contra hc
    rw [Bool.not_eq_false] at hc
    simp [Conductor.act, hs, State.poll, hc] at hreturned
  | worker i e =>
    simp only [KeepsLifeCycle, FlagClear, reduceCtorEq, false_imp_iff, iff_true]
    intro w hw hgoing
    obtain ⟨-, -, -, hgoes⟩ := h.step hw e
    refine ⟨(w.step s.conductor s.cmdStop e).1, ?_, hgoes hgoing⟩
    have hget := work_getElem? hw e i
    rwa [if_pos rfl] at hget

/-- Start and stop keep their promise over exactly the runs in which no thread is made once a stop has
been called. -/
theorem lifeCycle_iff (as : List Action) :
    Along act KeepsLifeCycle initial as ↔ Along act FlagClear initial as :=
  along_iff_of_invariant (I := Orderly)
    (fun _ a h hkeeps => h.act ((h.keepsLifeCycle_iff a).mp hkeeps))
    (fun _ a h => h.keepsLifeCycle_iff a) orderly_initial

/-- Start, stop, and start again: the second start returns true, but its thread leaves the loop without
a call of `execute`. -/
theorem second_start_does_nothing :
    let as : List Action := [.start .started, .stop, .worker 0 (.returned true),
      .worker 0 (.returned true), .poll, .start .started, .worker 1 (.returned true)]
    ((run act initial (as.take 5)).start .started).1 = some true ∧
      (run act initial as).workers = [⟨.ended, 0, true⟩, ⟨.clearing, 0, false⟩] ∧
      ¬ Along act KeepsLifeCycle initial as := by
  refine ⟨by decide, by decide, ?_⟩
  rintro ⟨-, -, -, -, -, -, hworker, -⟩
  obtain ⟨w', hw', hgoes⟩ := hworker ⟨.testing, 0, false⟩ (by decide) rfl
  obtain rfl : ⟨.clearing, 0, false⟩ = w' := Option.some.inj hw'
  exact absurd (hgoes.1 rfl).1 (by decide)

end Conductor
end HakoniwaCorePro
