import HakoniwaCorePro.LauncherService
import Mathlib.Tactic.Common

/-!
# No orphans

Whether `terminate` cleans up depends on the name of the state, and on a flag that another
thread may have set. It does where no `activate` is cut off behind its first process, and no
thread answers for a monitor that is not its own.
-/

namespace HakoniwaCorePro
namespace Launcher

open Runs

variable {Asset : Type*}

/-- Spawned since the last `activate` began, running, and not told to stop. -/
def Service.Orphan (s : Service Asset) (pid : ℕ) : Prop :=
  s.since ≤ pid ∧ pid < s.processes.length ∧ s.alive pid = true ∧ s.told pid = false

def LauncherState.Resting (t : LauncherState) : Prop := t = .idle ∨ t = .terminated

instance (t : LauncherState) : Decidable t.Resting := inferInstanceAs (Decidable (_ ∨ _))

/-- `terminate` returns with this step: because of the state, or at its end. -/
def TerminateReturns (s : Service Asset) : Action → Prop
  | .call .terminate => s.pc = .ready ∧ s.state.Resting
  | .interrupt => s.pc ≠ .left ∧ s.state.Resting
  | .advance _ => ∃ leaves, s.pc = .terminating leaves
  | _ => False

/-- After `terminate` there are no orphans. Since its beginning the last `activate` has started no
asset twice, and where it returns without an abort it has started each. -/
def LeavesNoOrphan (assets : List Asset) (s : Service Asset) (a : Action) : Prop :=
  let s' := step assets s a
  (TerminateReturns s a → ∀ pid, ¬ s'.Orphan pid) ∧
    s'.processes.drop s'.since <+: assets ∧
    (ActivateReturns s a → s.monitor.aborted = false → s'.processes.drop s'.since = assets)

/-- In `terminate`, stopping the processes. -/
def CommandPc.stops : CommandPc Asset → Bool
  | .aborting p _ => p.underway
  | _ => false

/-- In `abort` of monitor `m`, stopping its processes. -/
def WatchPc.stops (m : ℕ) : WatchPc → Bool
  | .aborting k p => decide (k = m) && p.underway
  | _ => false

/-- No watch thread is stopping the processes of the current monitor. -/
def Service.Unattended (s : Service Asset) : Prop := ∀ w ∈ s.watchers, w.stops s.current = false

instance (s : Service Asset) : Decidable s.Unattended := inferInstanceAs (Decidable (∀ _ ∈ _, _))

/-- Spawning raises at the first asset only; `terminate` does not find that a watch thread has begun
to stop the processes and is not done. -/
def Service.Advances (s : Service Asset) (o : Answer) : CommandPc Asset → Prop
  | .spawning _ _ => o.raises = true → s.monitor.procs = []
  | .aborting .checking _ => s.monitor.aborted = true → s.Unattended
  | _ => True

/-- A watch thread neither aborts the monitor of an `activate` that is under way nor reports the
end of a monitor that is not the current one. -/
def Service.Watches (s : Service Asset) : WatchPc → Prop
  | .aborting m .setting => m = s.current → s.pc.inActivate = false
  | .assigning => s.pc.inActivate = true ∨ s.monitor.aborted = true
  | _ => True

/-- With the two conditions above: SIGINT comes neither in `activate`, once there is a process, nor
while `terminate` is stopping them; and where the state is `TERMINATED` already, no watch thread is
still at it when `terminate` is called. -/
def Undisturbed (s : Service Asset) : Action → Prop
  | .call c => c = .terminate → s.state = .terminated → s.Unattended
  | .advance o => s.Advances o s.pc
  | .watch i => ∀ w ∈ s.watchers[i]?, s.Watches w
  | .exit _ => True
  | .interrupt =>
    (s.pc.inActivate = true → s.monitor.procs = []) ∧ s.pc.stops = false ∧
      (s.state = .terminated → s.Unattended)

instance advancesDecidable (s : Service Asset) (o : Answer) :
    ∀ pc, Decidable (s.Advances o pc)
  | .spawning _ _ => inferInstanceAs (Decidable (_ → _))
  | .aborting .checking _ => inferInstanceAs (Decidable (_ → _))
  | .aborting .setting _ | .aborting (.reversing _) _ | .aborting (.telling _ _) _ => isTrue trivial
  | .ready | .starting _ | .waiting _ _ _ | .startFailed _ | .clearing | .creating => isTrue trivial
  | .activating | .executing _ | .assigning _ | .stopping _ | .terminating _ => isTrue trivial
  | .left => isTrue trivial

instance watchesDecidable (s : Service Asset) : ∀ w, Decidable (s.Watches w)
  | .aborting _ .setting => inferInstanceAs (Decidable (_ → _))
  | .assigning => inferInstanceAs (Decidable (_ ∨ _))
  | .aborting _ .checking | .aborting _ (.reversing _) | .aborting _ (.telling _ _) => isTrue trivial
  | .looping | .listing | .scanning _ | .detected | .stopping | .ended => isTrue trivial

instance (s : Service Asset) : ∀ a, Decidable (Undisturbed s a)
  | .call _ => inferInstanceAs (Decidable (_ → _ → _))
  | .advance o => advancesDecidable s o s.pc
  | .watch i => inferInstanceAs (Decidable (∀ w ∈ s.watchers[i]?, s.Watches w))
  | .exit _ => isTrue trivial
  | .interrupt => inferInstanceAs (Decidable (_ ∧ _ ∧ _))

def CommandPc.abort : CommandPc Asset → Option AbortPc
  | .startFailed p | .aborting p _ => some p
  | _ => none

/-- A thread that is stopping the processes of the current monitor is going to come to this one. -/
def Service.Attended (s : Service Asset) (pid : ℕ) : Prop :=
  (∃ p, s.pc.abort = some p ∧ p.Covers pid) ∨
    ∃ (i : ℕ) (p : AbortPc), s.watchers[i]? = some (.aborting s.current p) ∧ p.Covers pid

/-- The thread that takes the calls will come to all orphans, once it has set the flag. -/
def Service.Cleaning (s : Service Asset) (p : AbortPc) : Prop :=
  p.underway = true → s.monitor.aborted = true ∧ ∀ pid, s.Orphan pid → p.Covers pid

def Service.Progress (assets : List Asset) (s : Service Asset) : CommandPc Asset → Prop
  | .starting rest => s.monitor.aborted = false ∧ s.processes.drop s.since ++ rest = assets
  | .spawning a rest => s.monitor.aborted = false ∧ s.processes.drop s.since ++ a :: rest = assets
  | .waiting _ _ rest => s.monitor.aborted = false ∧ s.processes.drop s.since ++ rest = assets
  | .clearing | .creating | .activating =>
    s.monitor.aborted = false → s.processes.drop s.since = assets
  | .startFailed p | .aborting p _ => s.Cleaning p
  | .stopping _ | .terminating _ => s.monitor.aborted = true ∧ ∀ pid, ¬ s.Orphan pid
  | _ => True

/-- The current monitor has the processes since the last `activate`; where it has been aborted,
somebody looks after each that still runs; and the name of the state says no less. -/
structure Tended (assets : List Asset) (s : Service Asset) : Prop where
  since_le : s.since ≤ s.processes.length
  mem_procs : ∀ pid, pid ∈ s.monitor.procs ↔ s.since ≤ pid ∧ pid < s.processes.length
  started : s.processes.drop s.since <+: assets
  progress : s.Progress assets s.pc
  attended : s.monitor.aborted = true → ∀ pid, s.Orphan pid → s.Attended pid
  terminated : s.state = .terminated →
    s.pc.inActivate = true ∨ s.monitor.aborted = true ∨ s.monitor.procs = []
  idle : s.state = .idle → s.pc = .left ∨ s.pc.inActivate = true ∨
    s.pc = .ready ∧ s.monitor.procs = [] ∧ s.monitor.aborted = false
  watched : s.state = .idle → s.pc = .activating ∨ s.watchers = []

theorem tended_init (assets : List Asset) : Tended assets (.init : Service Asset) where
  since_le := Nat.le_refl _
  mem_procs pid := by simp [Service.init, Service.monitor, Monitor.fresh]
  started := by simp [Service.init]
  progress := trivial
  attended := nofun
  terminated := nofun
  idle _ := Or.inr (Or.inr ⟨rfl, rfl, rfl⟩)
  watched _ := Or.inr rfl

section

variable {assets : List Asset} {s s' : Service Asset}

/-- From `s` to `s'` no process has been started, and none has become an orphan. -/
structure Calmed (s s' : Service Asset) : Prop where
  processes : s'.processes = s.processes
  since : s'.since = s.since
  procs : s'.monitor.procs = s.monitor.procs
  orphan : ∀ pid, s'.Orphan pid → s.Orphan pid
  aborted : s.monitor.aborted = true → s'.monitor.aborted = true

theorem AbortEffect.calmed {m : ℕ} {p : AbortPc} {next : Option AbortPc}
    (e : AbortEffect m s p s' next) : Calmed s s' := by
  have hframe := e.frame
  refine ⟨by rw [hframe], by rw [hframe], e.monitor_procs, ?_, ?_⟩
  · rintro pid ⟨hle, hlt, halive, htold⟩
    refine ⟨?_, ?_, ?_, ?_⟩
    · rw [hframe] at hle
      exact hle
    · rw [hframe] at hlt
      exact hlt
    · rw [hframe] at halive
      exact halive
    · by_contra hnot
      rw [e.told pid (by simpa using hnot)] at htold
      cases htold
  · intro haborted
    rw [e.monitor_aborted, haborted]
    rfl

theorem Tended.of_calmed (h : Tended assets s) (hc : Calmed s s') (hprogress : s'.Progress assets s'.pc)
    (hattended : s'.monitor.aborted = true → ∀ pid, s'.Orphan pid → s'.Attended pid)
    (hterminated : s'.state = .terminated →
      s'.pc.inActivate = true ∨ s'.monitor.aborted = true ∨ s'.monitor.procs = [])
    (hidle : s'.state = .idle → s'.pc = .left ∨ s'.pc.inActivate = true ∨
      s'.pc = .ready ∧ s'.monitor.procs = [] ∧ s'.monitor.aborted = false)
    (hwatched : s'.state = .idle → s'.pc = .activating ∨ s'.watchers = []) : Tended assets s' where
  since_le := by
    rw [hc.processes, hc.since]
    exact h.since_le
  mem_procs := by
    rw [hc.processes, hc.since, hc.procs]
    exact h.mem_procs
  started := by
    rw [hc.processes, hc.since]
    exact h.started
  progress := hprogress
  attended := hattended
  terminated := hterminated
  idle := hidle
  watched := hwatched

theorem Tended.no_orphan_of_procs (h : Tended assets s) (hprocs : s.monitor.procs = []) (pid : ℕ) :
    ¬ s.Orphan pid := by
  rintro ⟨hle, hlt, -, -⟩
  have hmem := (h.mem_procs pid).mpr ⟨hle, hlt⟩
  rw [hprocs] at hmem
  cases hmem

theorem Tended.orphan_mem_procs (h : Tended assets s) {pid : ℕ} (ho : s.Orphan pid) :
    pid ∈ s.monitor.procs := (h.mem_procs pid).mpr ⟨ho.1, ho.2.1⟩

theorem Service.Unattended.not_covers (h : s.Unattended) {i : ℕ} {p : AbortPc}
    (hi : s.watchers[i]? = some (.aborting s.current p)) {pid : ℕ} : ¬ p.Covers pid := by
  intro hcovers
  have hstops := h _ (List.mem_of_getElem? hi)
  simp [WatchPc.stops, hcovers.underway] at hstops

/-- Where `terminate` may be called: the calling thread has not left orphans behind that it was
about to stop, and no watch thread is at it. -/
structure Callable (s : Service Asset) (leaves : Bool) : Prop where
  here : s.pc ≠ .left
  ready : leaves = false → s.pc = .ready
  covers : ∀ p, s.pc.abort = some p → p.underway = true → s.monitor.procs = []
  activate : s.pc.inActivate = true → s.monitor.procs = []
  unattended : s.state = .terminated → s.Unattended

theorem Tended.attended_by_watcher (h : Tended assets s) {leaves : Bool} (hc : Callable s leaves)
    (haborted : s.monitor.aborted = true) {pid : ℕ} (ho : s.Orphan pid) :
    ∃ (i : ℕ) (p : AbortPc), s.watchers[i]? = some (.aborting s.current p) ∧ p.Covers pid := by
  rcases h.attended haborted pid ho with ⟨p, hp, hcovers⟩ | hwatcher
  · exact absurd ho (h.no_orphan_of_procs (hc.covers p hp hcovers.underway) pid)
  · exact hwatcher

theorem Tended.no_orphan_resting (h : Tended assets s) {leaves : Bool} (hc : Callable s leaves)
    (hrest : s.state.Resting) (pid : ℕ) : ¬ s.Orphan pid := by
  rcases hrest with hidle | hterminated
  · rcases h.idle hidle with hleft | hactivate | ⟨-, hprocs, -⟩
    · exact absurd hleft hc.here
    · exact h.no_orphan_of_procs (hc.activate hactivate) pid
    · exact h.no_orphan_of_procs hprocs pid
  · rcases h.terminated hterminated with hactivate | haborted | hprocs
    · exact h.no_orphan_of_procs (hc.activate hactivate) pid
    · intro ho
      obtain ⟨i, p, hi, hcovers⟩ := h.attended_by_watcher hc haborted ho
      exact (hc.unattended hterminated).not_covers hi hcovers
    · exact h.no_orphan_of_procs hprocs pid

theorem terminate_resting (leaves : Bool) (hrest : s.state.Resting) :
    terminate leaves s = s.afterTerminate leaves := by
  rcases hrest with hstate | hstate
  · rw [terminate, hstate]
  · rw [terminate, hstate]

theorem terminate_active (leaves : Bool) (hrest : ¬ s.state.Resting) :
    terminate leaves s = s.setPc (.aborting .checking leaves) := by
  rw [terminate]
  cases hstate : s.state with
  | idle => exact absurd (Or.inl hstate) hrest
  | terminated => exact absurd (Or.inr hstate) hrest
  | activated => rfl
  | running => rfl
  | stopped => rfl

theorem Tended.afterTerminate (h : Tended assets s) (leaves : Bool)
    (hnone : ∀ pid, ¬ s.Orphan pid)
    (hterminated : s.state = .terminated → s.monitor.aborted = true ∨ s.monitor.procs = [])
    (hidle : s.state = .idle → leaves = false → s.pc = .ready) :
    Tended assets (s.afterTerminate leaves) := by
  cases leaves with
  | true =>
    exact h.of_calmed ⟨rfl, rfl, rfl, fun _ ho => ho, fun hab => hab⟩ trivial
      (fun _ pid ho => absurd ho (hnone pid)) (fun ht => Or.inr (hterminated ht))
      (fun _ => Or.inl rfl) fun _ => Or.inr rfl
  | false =>
    refine h.of_calmed ⟨rfl, rfl, rfl, fun _ ho => ho, fun hab => hab⟩ trivial
      (fun _ pid ho => absurd ho (hnone pid)) (fun ht => Or.inr (hterminated ht)) ?_ ?_
    · intro hi
      rcases h.idle hi with hleft | hactivate | hfresh
      · rw [hidle hi rfl] at hleft
        cases hleft
      · rw [hidle hi rfl] at hactivate
        cases hactivate
      · exact Or.inr (Or.inr ⟨rfl, hfresh.2⟩)
    · intro hi
      rcases h.watched hi with hactivating | hwatchers
      · rw [hidle hi rfl] at hactivating
        cases hactivating
      · exact Or.inr hwatchers

theorem tended_terminate (h : Tended assets s) {leaves : Bool} (hc : Callable s leaves) :
    Tended assets (terminate leaves s) := by
  by_cases hrest : s.state.Resting
  · rw [terminate_resting leaves hrest]
    refine h.afterTerminate leaves (h.no_orphan_resting hc hrest) ?_ fun _ => hc.ready
    intro ht
    rcases h.terminated ht with hactivate | haborted | hprocs
    · exact Or.inr (hc.activate hactivate)
    · exact Or.inl haborted
    · exact Or.inr hprocs
  · rw [terminate_active leaves hrest]
    refine h.of_calmed ⟨rfl, rfl, rfl, fun _ ho => ho, fun hab => hab⟩ nofun ?_ ?_ ?_ ?_
    · intro haborted pid ho
      exact Or.inr (h.attended_by_watcher hc haborted ho)
    · exact fun ht => absurd (Or.inr ht) hrest
    · exact fun hi => absurd (Or.inl hi) hrest
    · exact fun hi => absurd (Or.inl hi) hrest

theorem callable_ready (hready : s.pc = .ready) (hc : s.state = .terminated → s.Unattended) :
    Callable s false where
  here := by rw [hready]; nofun
  ready _ := hready
  covers := by rw [hready]; nofun
  activate := by rw [hready]; nofun
  unattended := hc

theorem callable_interrupt (hhere : s.pc ≠ .left) (hc : Undisturbed s .interrupt) :
    Callable s true where
  here := hhere
  ready := nofun
  covers p hp hunderway := by
    cases hpc : s.pc with
    | startFailed q => exact hc.1 (by rw [hpc]; rfl)
    | aborting q leaves =>
      rw [hpc] at hp
      cases hp
      have hstops := hc.2.1
      rw [hpc, CommandPc.stops, hunderway] at hstops
      cases hstops
    | _ =>
      rw [hpc] at hp
      cases hp
  activate := hc.1
  unattended := hc.2.2

theorem tended_begin (hprocs : s.monitor.procs = []) (haborted : s.monitor.aborted = false)
    (hwatched : s.state = .idle → s.watchers = []) :
    Tended assets (s.beginActivate assets) := by
  have hmonitor : (s.beginActivate assets).monitor = s.monitor := rfl
  constructor
  · exact Nat.le_refl _
  · intro pid
    rw [hmonitor, hprocs]
    simp [Service.beginActivate]
  · simp [Service.beginActivate]
  · exact ⟨haborted, by simp [Service.beginActivate]⟩
  · intro hab
    rw [hmonitor, haborted] at hab
    cases hab
  · exact fun _ => Or.inl rfl
  · exact fun _ => Or.inr (Or.inl rfl)
  · exact fun hi => Or.inr (hwatched hi)

theorem tended_activate (h : Tended assets s) (hready : s.pc = .ready) :
    Tended assets (activate assets s) := by
  cases hstate : s.state with
  | idle =>
    rw [activate, hstate]
    have hfresh : s.monitor.procs = [] ∧ s.monitor.aborted = false := by
      have hidle := h.idle hstate
      rw [hready] at hidle
      simpa [CommandPc.inActivate] using hidle
    have hwatchers : s.watchers = [] := by
      have hwatched := h.watched hstate
      rw [hready] at hwatched
      simpa using hwatched
    exact tended_begin hfresh.1 hfresh.2 fun _ => hwatchers
  | terminated =>
    rw [activate, hstate]
    have hmonitor : s.renewMonitor.monitor = Monitor.fresh := by
      simp [Service.renewMonitor, Service.monitor, Service.setMonitor]
    refine tended_begin ?_ ?_ ?_
    · rw [hmonitor]
      rfl
    · rw [hmonitor]
      rfl
    · intro hi
      cases hi.symm.trans hstate
  | activated =>
    rw [activate, hstate]
    exact h
  | running =>
    rw [activate, hstate]
    exact h
  | stopped =>
    rw [activate, hstate]
    exact h

theorem Tended.moved (h : Tended assets s) {q : CommandPc Asset} {stop : Bool} {l : List Asset}
    {rc : Option ℤ} (hprogress : s.Progress assets q) (hfrom : s.pc.abort = none)
    (hactivate : s.pc.inActivate = true → q.inActivate = true)
    (hidle : s.pc = .left ∨ s.pc = .ready ∨ s.pc = .activating → s.state ≠ .idle) :
    Tended assets { s with pc := q, stopWatch := stop, survived := l, lastStart := rc } := by
  refine h.of_calmed ⟨rfl, rfl, rfl, fun _ ho => ho, fun hab => hab⟩ hprogress ?_ ?_ ?_ ?_
  · intro haborted pid ho
    rcases h.attended haborted pid ho with ⟨p, hp, -⟩ | hwatcher
    · rw [hfrom] at hp
      cases hp
    · exact Or.inr hwatcher
  · exact fun ht => (h.terminated ht).imp_left hactivate
  · intro hi
    rcases h.idle hi with hleft | hin | ⟨hready, -⟩
    · exact absurd hi (hidle (Or.inl hleft))
    · exact Or.inr (Or.inl (hactivate hin))
    · exact absurd hi (hidle (Or.inr (Or.inl hready)))
  · intro hi
    rcases h.watched hi with hactivating | hwatchers
    · exact absurd hi (hidle (Or.inr (Or.inr hactivating)))
    · exact Or.inr hwatchers

theorem tended_cmd (h : Tended assets s) (hready : s.pc = .ready) (command : Option HakoCommand) :
    Tended assets (cmd command s) := by
  unfold cmd
  split
  · exact h
  · exact h
  · rename_i hidle _
    cases command with
    | none => exact h
    | some c =>
      refine h.moved (q := .executing c) trivial ?_ ?_ fun _ => hidle
      · rw [hready]
        rfl
      · rw [hready]
        nofun

theorem tended_callStep (h : Tended assets s) {c : Call}
    (hc : c = .terminate → s.state = .terminated → s.Unattended) :
    Tended assets (callStep assets c s) := by
  unfold callStep
  split
  · rename_i hready
    cases c with
    | activate => exact tended_activate h hready
    | cmd command => exact tended_cmd h hready command
    | terminate => exact tended_terminate h (callable_ready hready (hc rfl))
  · exact h

theorem tended_interrupt (h : Tended assets s) (hc : Undisturbed s .interrupt) :
    Tended assets (interrupt s) := by
  unfold interrupt
  split
  · exact h
  · rename_i hhere
    exact tended_terminate h (callable_interrupt hhere hc)

theorem Tended.cleaning (h : Tended assets s) {p : AbortPc} (hp : s.pc.abort = some p) :
    s.Cleaning p := by
  have hprogress := h.progress
  cases hpc : s.pc with
  | startFailed q =>
    rw [hpc] at hp hprogress
    cases hp
    exact hprogress
  | aborting q leaves =>
    rw [hpc] at hp hprogress
    cases hp
    exact hprogress
  | _ =>
    rw [hpc] at hp
    cases hp

/-- After a step of its `abort` an orphan is one that it will come to, or a watch thread will. -/
theorem Tended.attended_abort (h : Tended assets s) {p : AbortPc} {next : Option AbortPc}
    (hp : s.pc.abort = some p) (e : AbortEffect s.current s p s' next)
    (haborted : s'.monitor.aborted = true) {pid : ℕ} (ho : s'.Orphan pid) :
    (∃ p', next = some p' ∧ p'.Covers pid) ∨
      ∃ (i : ℕ) (q : AbortPc), s.watchers[i]? = some (.aborting s.current q) ∧ q.Covers pid := by
  have hbefore := e.calmed.orphan pid ho
  have hnext : p.Covers pid ∨ p = .setting → ∃ p', next = some p' ∧ p'.Covers pid :=
    e.covers pid (h.orphan_mem_procs hbefore) hbefore.2.2.1 ho.2.2.2
  by_cases hset : p = .setting
  · exact Or.inl (hnext (Or.inr hset))
  · have hflag : s.monitor.aborted = true := by
      rw [e.monitor_aborted] at haborted
      simpa [hset] using haborted
    rcases h.attended hflag pid hbefore with ⟨q, hq, hcovers⟩ | hwatcher
    · rw [hp] at hq
      cases hq
      exact Or.inl (hnext (Or.inl hcovers))
    · exact Or.inr hwatcher

theorem Tended.cleaning_abort (h : Tended assets s) {p p' : AbortPc}
    (hp : s.pc.abort = some p) (e : AbortEffect s.current s p s' (some p')) : s'.Cleaning p' := by
  intro hunderway
  have hcovers : ∀ pid, s'.Orphan pid → p.Covers pid ∨ p = .setting → p'.Covers pid := by
    intro pid ho hp
    have hbefore := e.calmed.orphan pid ho
    obtain ⟨q, hq, hq'⟩ :=
      e.covers pid (h.orphan_mem_procs hbefore) hbefore.2.2.1 ho.2.2.2 hp
    cases hq
    exact hq'
  rcases (e.underway p' rfl).mp hunderway with hbefore | hset
  · obtain ⟨hflag, hall⟩ := h.cleaning hp hbefore
    exact ⟨e.calmed.aborted hflag, fun pid ho =>
      hcovers pid ho (Or.inl (hall pid (e.calmed.orphan pid ho)))⟩
  · refine ⟨?_, fun pid ho => hcovers pid ho (Or.inr hset)⟩
    rw [e.monitor_aborted]
    simp [hset]

theorem Tended.aborted_of_returned (h : Tended assets s) {p : AbortPc} (hp : s.pc.abort = some p)
    (e : AbortEffect s.current s p s' none) : s'.monitor.aborted = true := by
  rcases (e.returned rfl).2 with hflag | hunderway
  · exact e.calmed.aborted hflag
  · exact e.calmed.aborted (h.cleaning hp hunderway).1

theorem Tended.no_orphan_of_returned (h : Tended assets s) {p : AbortPc}
    (hp : s.pc.abort = some p) (e : AbortEffect s.current s p s' none)
    (hun : p.underway = false → s.Unattended) (pid : ℕ) : ¬ s'.Orphan pid := by
  intro ho
  rcases h.attended_abort hp e (h.aborted_of_returned hp e) ho with ⟨p', hnext, -⟩ | hwatcher
  · cases hnext
  · cases hunderway : p.underway with
    | true =>
      have hbefore := e.calmed.orphan pid ho
      obtain ⟨p', hnext, -⟩ := e.covers pid (h.orphan_mem_procs hbefore) hbefore.2.2.1 ho.2.2.2
        (Or.inl ((h.cleaning hp hunderway).2 pid hbefore))
      cases hnext
    | false =>
      obtain ⟨i, q, hi, hcovers⟩ := hwatcher
      exact (hun hunderway).not_covers hi hcovers

theorem ne_of_abort {pc q : CommandPc Asset} {p : AbortPc} (hp : pc.abort = some p) (hq : q.abort = none) :
    pc ≠ q := by
  rintro rfl
  cases hp.symm.trans hq

theorem tended_resume (h : Tended assets s) {p : AbortPc} {within : AbortPc → CommandPc Asset}
    {behind : CommandPc Asset} (hp : s.pc.abort = some p)
    (hwithin : ∀ p', (within p').abort = some p')
    (hprogress : ∀ (s' : Service Asset) p', s'.Cleaning p' → s'.Progress assets (within p'))
    (hbehind : ∀ s', AbortEffect s.current s p s' none → s'.Progress assets behind)
    (hactivate : s.pc.inActivate = true →
      (∀ p', (within p').inActivate = true) ∧ behind.inActivate = true) :
    Tended assets (.resume (abortStep s.current s p) within behind) := by
  have hleft : s.pc ≠ .left := ne_of_abort hp rfl
  have hready : s.pc ≠ .ready := ne_of_abort hp rfl
  have hactivating : s.pc ≠ .activating := ne_of_abort hp rfl
  -- what the state says does not depend on where in `abort` the thread is
  have hgo : ∀ (s' : Service Asset) (next : Option AbortPc) (pc : CommandPc Asset),
      AbortEffect s.current s p s' next → (s.pc.inActivate = true → pc.inActivate = true) →
      s'.Progress assets pc → (∀ p', next = some p' → pc.abort = some p') →
      Tended assets (s'.setPc pc) := by
    intro s' next pc e hin hpc hnext
    obtain ⟨hstate, hcurrent, -, hwatchers, -⟩ := e.unchanged
    have hcalm := e.calmed
    refine h.of_calmed ⟨hcalm.processes, hcalm.since, hcalm.procs, hcalm.orphan, hcalm.aborted⟩
      hpc ?_ ?_ ?_ ?_
    · intro haborted pid ho
      rcases h.attended_abort hp e haborted ho with ⟨q, hq, hcovers⟩ | ⟨i, q, hi, hcovers⟩
      · exact Or.inl ⟨q, hnext q hq, hcovers⟩
      · refine Or.inr ⟨i, q, ?_, hcovers⟩
        change s'.watchers[i]? = some (.aborting s'.current q)
        rw [hwatchers, hcurrent]
        exact hi
    · intro ht
      rcases h.terminated (hstate.symm.trans ht) with hin' | hflag | hprocs
      · exact Or.inl (hin hin')
      · exact Or.inr (Or.inl (hcalm.aborted hflag))
      · exact Or.inr (Or.inr (hcalm.procs.trans hprocs))
    · intro hi
      rcases h.idle (hstate.symm.trans hi) with hl | hin' | ⟨hr, -⟩
      · exact absurd hl hleft
      · exact Or.inr (Or.inl (hin hin'))
      · exact absurd hr hready
    · intro hi
      rcases h.watched (hstate.symm.trans hi) with ha | hw
      · exact absurd ha hactivating
      · exact Or.inr (hwatchers.trans hw)
  refine resume_of_effect (fun s' p' e => ?_) fun s' e => ?_
  · refine hgo s' _ (within p') e (fun hin => (hactivate hin).1 p')
      (hprogress _ _ (h.cleaning_abort hp e)) fun q hq => ?_
    cases hq
    exact hwithin p'
  · exact hgo s' _ behind e (fun hin => (hactivate hin).2) (hbehind s' e) nofun

theorem tended_spawn (h : Tended assets s) {a : Asset} {rest : List Asset}
    (hpc : s.pc = .spawning a rest) : Tended assets (s.spawn a rest) := by
  obtain ⟨haborted, hassets⟩ : s.monitor.aborted = false ∧
      s.processes.drop s.since ++ a :: rest = assets := by
    have hprogress := h.progress
    rw [hpc] at hprogress
    exact hprogress
  have hprocs : (s.spawn a rest).monitor.procs = s.monitor.procs ++ [s.processes.length] := by
    simp [Service.spawn, Service.monitor, Service.setMonitor]
  have hflag : (s.spawn a rest).monitor.aborted = false := by
    simpa [Service.spawn, Service.monitor, Service.setMonitor] using haborted
  have hdrop : (s.spawn a rest).processes.drop s.since = s.processes.drop s.since ++ [a] :=
    List.drop_append_of_le_length h.since_le
  constructor
  · have hle := h.since_le
    simp [Service.spawn, Service.setMonitor]
    omega
  · intro pid
    have hmem := h.mem_procs pid
    have hle := h.since_le
    rw [hprocs, List.mem_append, hmem]
    simp [Service.spawn, Service.setMonitor]
    omega
  · change (s.spawn a rest).processes.drop s.since <+: assets
    rw [hdrop, ← hassets]
    exact ⟨rest, by simp⟩
  · refine ⟨hflag, ?_⟩
    change (s.spawn a rest).processes.drop s.since ++ rest = assets
    rw [hdrop, ← hassets]
    simp
  · intro hab
    rw [hflag] at hab
    cases hab
  · exact fun _ => Or.inl rfl
  · exact fun _ => Or.inr (Or.inl rfl)
  · intro hi
    rcases h.watched hi with hactivating | hwatchers
    · rw [hpc] at hactivating
      cases hactivating
    · exact Or.inr hwatchers

theorem not_quiet {P : Prop} {pc : CommandPc Asset} (hpc : s.pc = pc)
    (h : pc ≠ .left ∧ pc ≠ .ready ∧ pc ≠ .activating) :
    s.pc = .left ∨ s.pc = .ready ∨ s.pc = .activating → P := by
  rw [hpc]
  rintro (hl | hr | ha)
  · exact absurd hl h.1
  · exact absurd hr h.2.1
  · exact absurd ha h.2.2

theorem tended_starting (h : Tended assets s) {rest : List Asset} (hpc : s.pc = .starting rest)
    (o : Answer) : Tended assets (advance o s) := by
  obtain ⟨haborted, hassets⟩ : s.monitor.aborted = false ∧
      s.processes.drop s.since ++ rest = assets := by
    have hprogress := h.progress
    rw [hpc] at hprogress
    exact hprogress
  cases rest with
  | nil =>
    rw [advance, hpc]
    refine h.moved (q := .clearing) (fun _ => ?_) (by rw [hpc]; rfl) (fun _ => rfl)
      (not_quiet hpc ⟨nofun, nofun, nofun⟩)
    rw [List.append_nil] at hassets
    exact hassets
  | cons a rest =>
    rw [advance, hpc]
    simp only [haborted, Bool.false_eq_true, if_false]
    exact h.moved (q := .spawning a rest) ⟨haborted, hassets⟩ (by rw [hpc]; rfl) (fun _ => rfl)
      (not_quiet hpc ⟨nofun, nofun, nofun⟩)

theorem tended_spawning (h : Tended assets s) {a : Asset} {rest : List Asset}
    (hpc : s.pc = .spawning a rest) (o : Answer) (hc : o.raises = true → s.monitor.procs = []) :
    Tended assets (advance o s) := by
  have haborted : s.monitor.aborted = false := by
    have hprogress := h.progress
    rw [hpc] at hprogress
    exact hprogress.1
  rw [advance, hpc]
  dsimp only
  split_ifs with hraises
  · have hprocs := hc hraises
    refine h.of_calmed ⟨rfl, rfl, rfl, fun _ ho => ho, fun hab => hab⟩ trivial ?_
      (fun _ => Or.inr (Or.inr hprocs)) (fun _ => Or.inr (Or.inr ⟨rfl, hprocs, haborted⟩)) ?_
    · intro _ pid ho
      exact absurd ho (h.no_orphan_of_procs hprocs pid)
    · intro hi
      rcases h.watched hi with hactivating | hwatchers
      · rw [hpc] at hactivating
        cases hactivating
      · exact Or.inr hwatchers
  · exact tended_spawn h hpc

theorem tended_waiting (h : Tended assets s) {a : Asset} {pid : ℕ} {rest : List Asset}
    (hpc : s.pc = .waiting a pid rest) (o : Answer) : Tended assets (advance o s) := by
  have hprogress := h.progress
  rw [hpc] at hprogress
  rw [advance, hpc]
  dsimp only
  split_ifs
  · exact h.moved (q := .starting rest) hprogress (by rw [hpc]; rfl) (fun _ => rfl)
      (not_quiet hpc ⟨nofun, nofun, nofun⟩)
  · exact h
  · exact h.moved (q := .startFailed .checking) nofun (by rw [hpc]; rfl) (fun _ => rfl)
      (not_quiet hpc ⟨nofun, nofun, nofun⟩)

theorem tended_creating (h : Tended assets s) (hpc : s.pc = .creating) (o : Answer) :
    Tended assets (advance o s) := by
  have hprogress := h.progress
  rw [hpc] at hprogress
  rw [advance, hpc]
  refine h.of_calmed ⟨rfl, rfl, rfl, fun _ ho => ho, fun hab => hab⟩ hprogress ?_
    (fun _ => Or.inl rfl) (fun _ => Or.inr (Or.inl rfl)) fun _ => Or.inl rfl
  intro haborted pid ho
  rcases h.attended haborted pid ho with ⟨p, hp, -⟩ | ⟨i, p, hi, hcovers⟩
  · rw [hpc] at hp
    cases hp
  · refine Or.inr ⟨i, p, ?_, hcovers⟩
    have hlt := (List.getElem?_eq_some_iff.mp hi).1
    exact (List.getElem?_append_left hlt).trans hi

theorem tended_assign (h : Tended assets s) {t : LauncherState} (ht : ¬ t.Resting)
    (hfrom : s.pc.abort = none) : Tended assets { s with state := t, pc := .ready } := by
  refine h.of_calmed ⟨rfl, rfl, rfl, fun _ ho => ho, fun hab => hab⟩ trivial ?_
    (fun hstate => absurd (Or.inr hstate) ht) (fun hstate => absurd (Or.inl hstate) ht)
    fun hstate => absurd (Or.inl hstate) ht
  intro haborted pid ho
  rcases h.attended haborted pid ho with ⟨p, hp, -⟩ | hwatcher
  · rw [hfrom] at hp
    cases hp
  · exact Or.inr hwatcher

theorem tended_stopping (h : Tended assets s) {leaves : Bool} (hpc : s.pc = .stopping leaves)
    (o : Answer) : Tended assets (advance o s) := by
  have hprogress := h.progress
  rw [hpc] at hprogress
  rw [advance, hpc]
  exact h.moved (q := .terminating leaves) hprogress (by rw [hpc]; rfl) (by rw [hpc]; nofun)
    (not_quiet hpc ⟨nofun, nofun, nofun⟩)

theorem tended_terminating (h : Tended assets s) {leaves : Bool} (hpc : s.pc = .terminating leaves)
    (o : Answer) : Tended assets (advance o s) := by
  obtain ⟨haborted, hnone⟩ : s.monitor.aborted = true ∧ ∀ pid, ¬ s.Orphan pid := by
    have hprogress := h.progress
    rw [hpc] at hprogress
    exact hprogress
  have hwritten : Tended assets { s with state := .terminated } := by
    refine h.of_calmed ⟨rfl, rfl, rfl, fun _ ho => ho, fun hab => hab⟩ h.progress ?_
      (fun _ => Or.inr (Or.inl haborted)) nofun nofun
    intro _ pid ho
    exact absurd ho (hnone pid)
  rw [advance, hpc]
  exact hwritten.afterTerminate leaves hnone (fun _ => Or.inl haborted) nofun

theorem unattended_of_returned {p : AbortPc} {leaves : Bool} {o : Answer}
    (hpc : s.pc = .aborting p leaves) (hc : Undisturbed s (.advance o))
    (e : AbortEffect s.current s p s' none) (hunderway : p.underway = false) : s.Unattended := by
  have hflag : s.monitor.aborted = true := by
    rcases (e.returned rfl).2 with hflag | hnot
    · exact hflag
    · exact nomatch hunderway.symm.trans hnot
  cases p with
  | checking =>
    rw [Undisturbed, hpc] at hc
    exact hc hflag
  | setting => exact absurd rfl (e.returned rfl).1
  | reversing kill => cases hunderway
  | telling kill rest => cases hunderway

theorem tended_advance (h : Tended assets s) {o : Answer} (hc : Undisturbed s (.advance o)) :
    Tended assets (advance o s) := by
  cases hpc : s.pc with
  | ready =>
    rw [advance, hpc]
    exact h
  | left =>
    rw [advance, hpc]
    exact h
  | starting rest => exact tended_starting h hpc o
  | spawning a rest =>
    rw [Undisturbed, hpc] at hc
    exact tended_spawning h hpc o hc
  | waiting a pid rest => exact tended_waiting h hpc o
  | startFailed p =>
    rw [advance, hpc]
    have hp : s.pc.abort = some p := by rw [hpc]; rfl
    refine tended_resume h hp (fun _ => rfl) (fun _ _ hcleaning => hcleaning) ?_
      fun _ => ⟨fun _ => rfl, rfl⟩
    intro s' e hclear
    rw [h.aborted_of_returned hp e] at hclear
    cases hclear
  | clearing =>
    have hprogress := h.progress
    rw [hpc] at hprogress
    rw [advance, hpc]
    exact h.moved (q := .creating) hprogress (by rw [hpc]; rfl) (fun _ => rfl)
      (not_quiet hpc ⟨nofun, nofun, nofun⟩)
  | creating => exact tended_creating h hpc o
  | activating =>
    rw [advance, hpc]
    exact tended_assign h (by decide) (by rw [hpc]; rfl)
  | executing c =>
    rw [advance, hpc]
    cases o.returnCode with
    | none =>
      exact h.moved (q := .ready) trivial (by rw [hpc]; rfl) (by rw [hpc]; nofun)
        (not_quiet hpc ⟨nofun, nofun, nofun⟩)
    | some rc =>
      exact h.moved (q := .assigning c) trivial (by rw [hpc]; rfl) (by rw [hpc]; nofun)
        (not_quiet hpc ⟨nofun, nofun, nofun⟩)
  | assigning c =>
    rw [advance, hpc]
    exact tended_assign h (by cases c <;> decide) (by rw [hpc]; rfl)
  | aborting p leaves =>
    rw [advance, hpc]
    have hp : s.pc.abort = some p := by rw [hpc]; rfl
    refine tended_resume h hp (fun _ => rfl) (fun _ _ hcleaning => hcleaning) ?_ (by rw [hpc]; nofun)
    exact fun s' e => ⟨h.aborted_of_returned hp e,
      h.no_orphan_of_returned hp e (unattended_of_returned hpc hc e)⟩
  | stopping leaves => exact tended_stopping h hpc o
  | terminating leaves => exact tended_terminating h hpc o

theorem Calmed.cleaning (hc : Calmed s s') {p : AbortPc} (h : s.Cleaning p) : s'.Cleaning p := by
  intro hunderway
  obtain ⟨hflag, hall⟩ := h hunderway
  exact ⟨hc.aborted hflag, fun pid ho => hall pid (hc.orphan pid ho)⟩

theorem Calmed.progress (hc : Calmed s s') {pc : CommandPc Asset}
    (hflag : pc.inActivate = true → s'.monitor.aborted = s.monitor.aborted)
    (h : s.Progress assets pc) : s'.Progress assets pc := by
  have hdrop : s'.processes.drop s'.since = s.processes.drop s.since := by
    rw [hc.processes, hc.since]
  cases pc with
  | ready | executing | assigning | left => trivial
  | starting | spawning | waiting | clearing | creating | activating =>
    simp only [Service.Progress, hdrop, hflag rfl]
    exact h
  | startFailed p => exact hc.cleaning h
  | aborting p leaves => exact hc.cleaning h
  | stopping | terminating => exact ⟨hc.aborted h.1, fun pid ho => h.2 pid (hc.orphan pid ho)⟩

theorem Tended.activating_of_watcher (h : Tended assets s) {i : ℕ} {w : WatchPc}
    (hi : s.watchers[i]? = some w) (hidle : s.state = .idle) : s.pc = .activating := by
  rcases h.watched hidle with hactivating | hwatchers
  · exact hactivating
  · rw [hwatchers] at hi
    cases hi

theorem Tended.setWatcher (h : Tended assets s) {i : ℕ} {w : WatchPc}
    (hi : s.watchers[i]? = some w) (hw : ∀ m p, w ≠ .aborting m p) (w' : WatchPc)
    {t : LauncherState} {stop : Bool}
    (ht : t = s.state ∨ t = .terminated ∧ (s.pc.inActivate = true ∨ s.monitor.aborted = true)) :
    Tended assets ({ s with state := t, stopWatch := stop }.setWatcher i w') := by
  have hidle : t = .idle → s.pc = .activating := by
    rintro rfl
    rcases ht with hstate | ⟨hstate, -⟩
    · exact h.activating_of_watcher hi hstate.symm
    · cases hstate
  refine h.of_calmed ⟨rfl, rfl, rfl, fun _ ho => ho, fun hab => hab⟩ h.progress ?_ ?_ ?_ ?_
  · intro haborted pid ho
    rcases h.attended haborted pid ho with hmine | ⟨j, p, hj, hcovers⟩
    · exact Or.inl hmine
    · refine Or.inr ⟨j, p, ?_, hcovers⟩
      have hne : i ≠ j := by
        rintro rfl
        rw [hi] at hj
        cases hj
        exact hw s.current p rfl
      exact (List.getElem?_set_ne hne).trans hj
  · intro hterminated
    rcases ht with hstate | ⟨-, hin | hflag⟩
    · exact h.terminated (hstate.symm.trans hterminated)
    · exact Or.inl hin
    · exact Or.inr (Or.inl hflag)
  · intro hi
    have hactivating := hidle hi
    refine Or.inr (Or.inl ?_)
    change s.pc.inActivate = true
    rw [hactivating]
    rfl
  · exact fun hi => Or.inl (hidle hi)

theorem tended_watch_abort (h : Tended assets s) {i m : ℕ} {p : AbortPc} {next : Option AbortPc}
    {w' : WatchPc} (hi : s.watchers[i]? = some (.aborting m p)) (e : AbortEffect m s p s' next)
    (hw : ∀ p', next = some p' → w' = .aborting m p')
    (hc : m = s.current → p = .setting → s.pc.inActivate = false) :
    Tended assets (s'.setWatcher i w') := by
  have hcalm := e.calmed
  have hset := e.watcher_self hi w'
  obtain ⟨hstate, hcurrent, hpc, -⟩ := e.unchanged
  have hidle : s'.state = .idle → s.pc = .activating := fun hidle =>
    h.activating_of_watcher hi (hstate.symm.trans hidle)
  -- the thread itself will come to what it covers
  have hself : m = s.current → ∀ pid, s'.Orphan pid → p.Covers pid ∨ p = .setting →
      (s'.setWatcher i w').Attended pid := by
    intro hm pid ho hp
    have hbefore := hcalm.orphan pid ho
    rw [hm] at e hw
    obtain ⟨p', hnext, hcovers⟩ :=
      e.covers pid (h.orphan_mem_procs hbefore) hbefore.2.2.1 ho.2.2.2 hp
    refine Or.inr ⟨i, p', ?_, hcovers⟩
    rw [hset, hw p' hnext]
    change some (WatchPc.aborting s.current p') = some (.aborting s'.current p')
    rw [hcurrent]
  refine h.of_calmed ⟨hcalm.processes, hcalm.since, hcalm.procs, hcalm.orphan, hcalm.aborted⟩ ?_ ?_ ?_ ?_ ?_
  · change (s'.setWatcher i w').Progress assets s'.pc
    rw [hpc]
    exact Calmed.progress ⟨hcalm.processes, hcalm.since, hcalm.procs, hcalm.orphan, hcalm.aborted⟩
      (fun hin => e.aborted_activate hc hin) h.progress
  · intro haborted pid ho
    by_cases hbefore : s.monitor.aborted = true
    · rcases h.attended hbefore pid (hcalm.orphan pid ho) with ⟨q, hq, hcovers⟩ | ⟨j, q, hj, hcovers⟩
      · exact Or.inl ⟨q, (congrArg CommandPc.abort hpc).trans hq, hcovers⟩
      · by_cases hij : i = j
        · rw [← hij, hi] at hj
          cases hj
          exact hself rfl pid ho (Or.inl hcovers)
        · refine Or.inr ⟨j, q, ?_, hcovers⟩
          change (s'.setWatcher i w').watchers[j]? = some (.aborting s'.current q)
          rw [e.watcher_other hij, hcurrent]
          exact hj
    · obtain ⟨hm, hset⟩ := e.aborted_now haborted hbefore
      exact hself hm.symm pid ho (Or.inr hset)
  · intro ht
    rcases h.terminated (hstate.symm.trans ht) with hin | hab | hprocs
    · exact Or.inl ((congrArg CommandPc.inActivate hpc).trans hin)
    · exact Or.inr (Or.inl (hcalm.aborted hab))
    · exact Or.inr (Or.inr (hcalm.procs.trans hprocs))
  · intro hi
    refine Or.inr (Or.inl ((congrArg CommandPc.inActivate hpc).trans ?_))
    rw [hidle hi]
    rfl
  · exact fun hi => Or.inl (hpc.trans (hidle hi))

theorem tended_watch (h : Tended assets s) {i : ℕ} (hc : Undisturbed s (.watch i)) :
    Tended assets (watch i s) := by
  have hwatched := watch_watched i s
  generalize watch i s = s' at hwatched
  cases hwatched with
  | ended => exact h
  | moved w w' stop hi hw => exact h.setWatcher hi hw.2 w' (Or.inl rfl)
  | aborted m p s' next hi e =>
    refine tended_watch_abort h hi e (fun p' hnext => ?_) ?_
    · rw [hnext]
      rfl
    · rintro rfl rfl
      exact hc _ hi rfl
  | reported hi => exact h.setWatcher hi nofun .stopping (Or.inr ⟨rfl, hc _ hi⟩)

theorem tended_exit (h : Tended assets s) (pid : ℕ) :
    Tended assets { s with alive := Function.update s.alive pid false } := by
  have horphan : ∀ q, ({ s with alive := Function.update s.alive pid false } : Service Asset).Orphan q →
      s.Orphan q := by
    rintro q ⟨hle, hlt, halive, htold⟩
    by_cases hq : q = pid
    · simp [hq] at halive
    · exact ⟨hle, hlt, by simpa [hq] using halive, htold⟩
  have hcalm : Calmed s { s with alive := Function.update s.alive pid false } :=
    ⟨rfl, rfl, rfl, horphan, fun hab => hab⟩
  exact h.of_calmed hcalm (hcalm.progress (fun _ => rfl) h.progress)
    (fun hab q ho => h.attended hab q (horphan q ho)) h.terminated h.idle h.watched

theorem tended_step (h : Tended assets s) {a : Action} (hc : Undisturbed s a) :
    Tended assets (step assets s a) := by
  cases a with
  | call c => exact tended_callStep h hc
  | advance o => exact tended_advance h hc
  | watch i => exact tended_watch h hc
  | exit pid => exact tended_exit h pid
  | interrupt => exact tended_interrupt h hc

theorem afterTerminate_orphan (s : Service Asset) (leaves : Bool) (pid : ℕ) :
    (s.afterTerminate leaves).Orphan pid ↔ s.Orphan pid := by
  cases leaves <;> rfl

theorem Tended.no_orphan_after (h : Tended assets s) {a : Action} (hc : Undisturbed s a)
    (hreturns : TerminateReturns s a) (pid : ℕ) : ¬ (step assets s a).Orphan pid := by
  cases a with
  | call c =>
    cases c with
    | terminate =>
      obtain ⟨hready, hrest⟩ := hreturns
      have hstep : step assets s (.call .terminate) = s.afterTerminate false := by
        rw [← terminate_resting false hrest, step, callStep, hready]
      rw [hstep, afterTerminate_orphan]
      exact h.no_orphan_resting (callable_ready hready (hc rfl)) hrest pid
    | activate => exact hreturns.elim
    | cmd command => exact hreturns.elim
  | advance o =>
    obtain ⟨leaves, hpc⟩ := hreturns
    have hprogress := h.progress
    rw [hpc] at hprogress
    rw [step, advance, hpc]
    simp only [afterTerminate_orphan]
    exact hprogress.2 pid
  | interrupt =>
    obtain ⟨hhere, hrest⟩ := hreturns
    have hstep : step assets s .interrupt = s.afterTerminate true := by
      rw [← terminate_resting true hrest, step]
      unfold interrupt
      split
      · rename_i hleft
        exact absurd hleft hhere
      · rfl
    rw [hstep, afterTerminate_orphan]
    exact h.no_orphan_resting (callable_interrupt hhere hc) hrest pid
  | watch i => exact hreturns.elim
  | exit q => exact hreturns.elim

theorem Tended.leavesNoOrphan (h : Tended assets s) {a : Action} (hc : Undisturbed s a) :
    LeavesNoOrphan assets s a := by
  refine ⟨h.no_orphan_after hc, (tended_step h hc).started, fun hreturns hclear => ?_⟩
  cases a with
  | advance o =>
    have hpc : s.pc = .activating := hreturns
    have hprogress := h.progress
    rw [hpc] at hprogress
    rw [step, advance, hpc]
    exact hprogress hclear
  | call c => exact hreturns.elim
  | watch i => exact hreturns.elim
  | exit pid => exact hreturns.elim
  | interrupt => exact hreturns.elim

end

/-- In every run that is not disturbed, `terminate` leaves no orphan, and `activate` starts each
asset once. -/
theorem launcher_leaves_no_orphan (assets : List Asset) (as : List Action)
    (h : Along (step assets) Undisturbed .init as) :
    Along (step assets) (LeavesNoOrphan assets) .init as :=
  along_of_invariant (I := Tended assets) (fun _ _ ht hc => tended_step ht hc)
    (fun _ _ ht hc => ht.leavesNoOrphan hc) (tended_init assets) h

/-- Two assets are started and one ends; its watch thread stops the other. After that the launcher is
told to terminate, and to activate again. -/
def oneEnds : List Action :=
  .call .activate :: List.replicate 10 (.advance smooth) ++ .exit 0 :: List.replicate 16 (.watch 0) ++
    .call .terminate :: .call .activate :: List.replicate 10 (.advance smooth)

theorem launcher_leaves_no_orphan_one_ends :
    Along (step ["pdu", "drone"]) Undisturbed .init oneEnds ∧
      Along (step ["pdu", "drone"]) (LeavesNoOrphan ["pdu", "drone"]) .init oneEnds :=
  ⟨by decide +kernel, launcher_leaves_no_orphan _ _ (by decide +kernel)⟩

/-- The second asset cannot be spawned: `terminate` finds the state `IDLE`, and the first runs on. -/
theorem first_asset_orphaned :
    ¬ Along (step ["pdu", "drone"]) (LeavesNoOrphan ["pdu", "drone"]) .init
      (.call .activate :: List.replicate 4 (.advance smooth) ++ [.advance ⟨true, false, none⟩] ++
        [.call .terminate]) := by
  intro h
  obtain ⟨hnone, -⟩ := ((along_append _ _ _ _ _).mp h).2.1
  exact hnone ⟨rfl, Or.inl rfl⟩ 0 ⟨by decide, by decide, rfl, rfl⟩

end Launcher
end HakoniwaCorePro
