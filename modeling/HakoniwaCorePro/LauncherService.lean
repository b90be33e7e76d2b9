import HakoniwaCorePro.Runs
import Mathlib.Data.Int.Notation
import Mathlib.Logic.Function.Basic

/-!
# The launcher

`LauncherService` with its monitor: the thread that takes the calls `activate`, `cmd` and
`terminate`, and the watch threads that `activate` creates. A step is what one thread does
between two places where another can come in; which thread goes on, when a process ends and what
the system answers is chosen by the action.
-/

namespace HakoniwaCorePro
namespace Launcher

/-- `self.state` -/
inductive LauncherState
  | idle | activated | running | stopped | terminated
  deriving DecidableEq

inductive HakoCommand
  | start | stop | reset
  deriving DecidableEq

/-- The state after a command, whatever `hako-cmd` returned. -/
def HakoCommand.target : HakoCommand → LauncherState
  | .start => .running
  | .stop => .stopped
  | .reset => .activated

/-- `HakoMonitor`: the processes it started, by their numbers, and `_aborted`. -/
structure Monitor where
  procs : List ℕ
  aborted : Bool
  deriving DecidableEq

def Monitor.fresh : Monitor := ⟨[], false⟩

/-- Where a thread is in `abort`: before the test of `_aborted`, before it is set, before one of
the two loops, in one of them. The second loop kills. -/
inductive AbortPc
  | checking | setting
  | reversing (kill : Bool)
  | telling (kill : Bool) (rest : List ℕ)
  deriving DecidableEq

/-- Where the thread is that takes the calls. `leaves` is that `terminate` runs in the handler of
SIGINT, which leaves the program. -/
inductive CommandPc (Asset : Type*)
  | ready
  | starting (rest : List Asset)
  | spawning (a : Asset) (rest : List Asset)
  | waiting (a : Asset) (pid : ℕ) (rest : List Asset)
  | startFailed (p : AbortPc)
  | clearing | creating | activating
  | executing (c : HakoCommand)
  | assigning (c : HakoCommand)
  | aborting (p : AbortPc) (leaves : Bool)
  | stopping (leaves : Bool)
  | terminating (leaves : Bool)
  | left
  deriving DecidableEq

/-- Where a thread is in `_watch_loop`. -/
inductive WatchPc
  | looping | listing
  | scanning (rest : List ℕ)
  | detected
  | aborting (m : ℕ) (p : AbortPc)
  | assigning | stopping | ended
  deriving DecidableEq

/-- A process is numbered by its place in `processes`. The last three fields are a record of the
run: how many processes there were when the last `activate` began, which assets have outlived
their grace period since then, and what the last `hako-cmd start` returned. -/
structure Service (Asset : Type*) where
  state : LauncherState
  monitors : ℕ → Monitor
  current : ℕ
  stopWatch : Bool
  processes : List Asset
  alive : ℕ → Bool
  told : ℕ → Bool
  pc : CommandPc Asset
  watchers : List WatchPc
  since : ℕ
  survived : List Asset
  lastStart : Option ℤ

inductive Call
  | activate
  | cmd (command : Option HakoCommand)
  | terminate
  deriving DecidableEq

structure Answer where
  raises : Bool
  graceOver : Bool
  returnCode : Option ℤ

inductive Action
  | call (c : Call)
  | advance (o : Answer)
  | watch (i : ℕ)
  | exit (pid : ℕ)
  | interrupt

section

variable {Asset : Type*}

def Service.init : Service Asset where
  state := .idle
  monitors := fun _ => .fresh
  current := 0
  stopWatch := false
  processes := []
  alive := fun _ => false
  told := fun _ => false
  pc := .ready
  watchers := []
  since := 0
  survived := []
  lastStart := none

/-- `self.monitor` -/
def Service.monitor (s : Service Asset) : Monitor := s.monitors s.current

def Service.setPc (s : Service Asset) (pc : CommandPc Asset) : Service Asset := { s with pc := pc }

def Service.setMonitor (s : Service Asset) (m : ℕ) (x : Monitor) : Service Asset :=
  { s with monitors := Function.update s.monitors m x }

/-- `terminate` and `kill` of one process, which do nothing where it has ended. -/
def Service.tell (s : Service Asset) (pid : ℕ) : Service Asset :=
  if s.alive pid then { s with told := Function.update s.told pid true } else s

/-- One step of `abort` of monitor `m`; `none` is that it returns. -/
def abortStep (m : ℕ) (s : Service Asset) : AbortPc → Service Asset × Option AbortPc
  | .checking => if (s.monitors m).aborted then (s, none) else (s, some .setting)
  | .setting => (s.setMonitor m { s.monitors m with aborted := true }, some (.reversing false))
  | .reversing kill => (s, some (.telling kill (s.monitors m).procs.reverse))
  | .telling kill (pid :: rest) => (s.tell pid, some (.telling kill rest))
  | .telling false [] => (s, some (.reversing true))
  | .telling true [] => (s, none)

def Service.beginActivate (assets : List Asset) (s : Service Asset) : Service Asset :=
  { s with since := s.processes.length, survived := [], pc := .starting assets }

def Service.renewMonitor (s : Service Asset) : Service Asset :=
  { s.setMonitor (s.current + 1) .fresh with current := s.current + 1 }

/-- After `TERMINATED` there is a new monitor. -/
def activate (assets : List Asset) (s : Service Asset) : Service Asset :=
  match s.state with
  | .idle => s.beginActivate assets
  | .terminated => s.renewMonitor.beginActivate assets
  | _ => s

/-- `none` is any other word. -/
def cmd (command : Option HakoCommand) (s : Service Asset) : Service Asset :=
  match s.state with
  | .idle | .terminated => s
  | _ =>
    match command with
    | none => s
    | some c => s.setPc (.executing c)

/-- `terminate` has returned. The watch threads are daemons and end with the program. -/
def Service.afterTerminate (leaves : Bool) (s : Service Asset) : Service Asset :=
  if leaves then { s with pc := .left, watchers := [] } else s.setPc .ready

def terminate (leaves : Bool) (s : Service Asset) : Service Asset :=
  match s.state with
  | .idle | .terminated => s.afterTerminate leaves
  | _ => s.setPc (.aborting .checking leaves)

def callStep (assets : List Asset) (c : Call) (s : Service Asset) : Service Asset :=
  match s.pc with
  | .ready =>
    match c with
    | .activate => activate assets s
    | .cmd command => cmd command s
    | .terminate => terminate false s
  | _ => s

/-- `spawn`, and the entry in `procs`. -/
def Service.spawn (a : Asset) (rest : List Asset) (s : Service Asset) : Service Asset :=
  { s.setMonitor s.current { s.monitor with procs := s.monitor.procs ++ [s.processes.length] } with
    processes := s.processes ++ [a]
    alive := Function.update s.alive s.processes.length true
    told := Function.update s.told s.processes.length false
    pc := .waiting a s.processes.length rest }

/-- The end of a wait in which the process was never found dead. -/
def Service.graceOver (a : Asset) (pid : ℕ) (rest : List Asset) (s : Service Asset) :
    Service Asset :=
  { s with
    survived := if s.alive pid then s.survived ++ [a] else s.survived
    pc := .starting rest }

/-- `hako-cmd` has returned. -/
def Service.executed (c : HakoCommand) (rc : ℤ) (s : Service Asset) : Service Asset :=
  { s with
    lastStart := if c = .start then some rc else s.lastStart
    pc := .assigning c }

/-- After a step of `abort`: on in it, or behind it. -/
def Service.resume (r : Service Asset × Option AbortPc) (within : AbortPc → CommandPc Asset)
    (behind : CommandPc Asset) : Service Asset :=
  match r.2 with
  | some p => r.1.setPc (within p)
  | none => r.1.setPc behind

def advance (o : Answer) (s : Service Asset) : Service Asset :=
  match s.pc with
  | .ready | .left => s
  | .starting [] => s.setPc .clearing
  | .starting (a :: rest) =>
    if s.monitor.aborted then s.setPc .clearing else s.setPc (.spawning a rest)
  | .spawning a rest => if o.raises then s.setPc .ready else s.spawn a rest
  | .waiting a pid rest =>
    if o.graceOver then s.graceOver a pid rest
    else if s.alive pid then s
    else s.setPc (.startFailed .checking)
  | .startFailed p => .resume (abortStep s.current s p) .startFailed .clearing
  | .clearing => { s with stopWatch := false, pc := .creating }
  | .creating => { s with watchers := s.watchers ++ [.looping], pc := .activating }
  | .activating => { s with state := .activated, pc := .ready }
  | .executing c =>
    match o.returnCode with
    | none => s.setPc .ready
    | some rc => s.executed c rc
  | .assigning c => { s with state := c.target, pc := .ready }
  | .aborting p leaves => .resume (abortStep s.current s p) (.aborting · leaves) (.stopping leaves)
  | .stopping leaves => { s with stopWatch := true, pc := .terminating leaves }
  | .terminating leaves => { s with state := .terminated }.afterTerminate leaves

def Service.setWatcher (s : Service Asset) (i : ℕ) (w : WatchPc) : Service Asset :=
  { s with watchers := s.watchers.set i w }

/-- Watch thread `i` goes on; `self.monitor` is read where the code reads it. -/
def watch (i : ℕ) (s : Service Asset) : Service Asset :=
  match s.watchers[i]? with
  | none | some .ended => s
  | some .looping =>
    if s.stopWatch || s.monitor.procs.isEmpty then s.setWatcher i .ended
    else s.setWatcher i .listing
  | some .listing => s.setWatcher i (.scanning s.monitor.procs)
  | some (.scanning []) => s.setWatcher i .looping
  | some (.scanning (pid :: rest)) =>
    if s.alive pid then s.setWatcher i (.scanning rest) else s.setWatcher i .detected
  | some .detected => s.setWatcher i (.aborting s.current .checking)
  | some (.aborting m p) =>
    match abortStep m s p with
    | (s', some p') => s'.setWatcher i (.aborting m p')
    | (s', none) => s'.setWatcher i .assigning
  | some .assigning => { s with state := .terminated }.setWatcher i .stopping
  | some .stopping => { s with stopWatch := true }.setWatcher i .ended

/-- The handler of SIGINT runs in the thread that takes the calls, wherever that is. -/
def interrupt (s : Service Asset) : Service Asset :=
  match s.pc with
  | .left => s
  | _ => terminate true s

def step (assets : List Asset) (s : Service Asset) : Action → Service Asset
  | .call c => callStep assets c s
  | .advance o => advance o s
  | .watch i => watch i s
  | .exit pid => { s with alive := Function.update s.alive pid false }
  | .interrupt => interrupt s

def smooth : Answer := ⟨false, true, some 0⟩

/-- In `activate`, behind the test of the state. -/
def CommandPc.inActivate : CommandPc Asset → Bool
  | .starting _ | .spawning _ _ | .waiting _ _ _ | .startFailed _ => true
  | .clearing | .creating | .activating => true
  | _ => false

/-- `activate` returns with this step, and has written `ACTIVATED`. -/
def ActivateReturns (s : Service Asset) : Action → Prop
  | .advance _ => s.pc = .activating
  | _ => False

/-- Between the setting of `_aborted` and the return. -/
def AbortPc.underway : AbortPc → Bool
  | .checking | .setting => false
  | .reversing _ | .telling _ _ => true

/-- The thread is still going to come to process `pid`. -/
def AbortPc.Covers : AbortPc → ℕ → Prop
  | .checking, _ | .setting, _ => False
  | .reversing _, _ => True
  | .telling _ rest, pid => pid ∈ rest

theorem AbortPc.Covers.underway {p : AbortPc} {pid : ℕ} (h : p.Covers pid) : p.underway = true := by
  cases p with
  | checking => exact h.elim
  | setting => exact h.elim
  | reversing kill => rfl
  | telling kill rest => rfl

/-- From `s` in place `p` to `s'` and what is next: only `_aborted` of monitor `m` and what the
processes have been told can differ. -/
structure AbortEffect (m : ℕ) (s : Service Asset) (p : AbortPc) (s' : Service Asset)
    (next : Option AbortPc) : Prop where
  frame : s' = { s with monitors := s'.monitors, told := s'.told }
  procs : ∀ k, (s'.monitors k).procs = (s.monitors k).procs
  aborted : ∀ k, (s'.monitors k).aborted = ((s.monitors k).aborted || decide (k = m ∧ p = .setting))
  told : ∀ pid, s.told pid = true → s'.told pid = true
  covers : ∀ pid ∈ (s.monitors m).procs, s.alive pid = true → s'.told pid = false →
    p.Covers pid ∨ p = .setting → ∃ p', next = some p' ∧ p'.Covers pid
  returned : next = none → p ≠ .setting ∧ ((s.monitors m).aborted = true ∨ p.underway = true)
  underway : ∀ p', next = some p' → (p'.underway = true ↔ p.underway = true ∨ p = .setting)

theorem Service.tell_told (s : Service Asset) (q pid : ℕ) :
    (s.tell q).told pid = true ↔ s.told pid = true ∨ pid = q ∧ s.alive q = true := by
  unfold Service.tell
  split_ifs with halive
  · by_cases hq : pid = q
    · simp [hq, halive]
    · simp [hq]
  · simp [halive]

theorem Service.tell_frame (s : Service Asset) (q : ℕ) : s.tell q = { s with told := (s.tell q).told } := by
  unfold Service.tell
  split_ifs <;> rfl

theorem abortEffect_pass {m : ℕ} {s s' : Service Asset} {p p' : AbortPc}
    (hframe : s' = { s with told := s'.told }) (hp : p.underway = true) (hp' : p'.underway = true)
    (htold : ∀ pid, s.told pid = true → s'.told pid = true)
    (hcovers : ∀ pid ∈ (s.monitors m).procs, s.alive pid = true → s'.told pid = false →
      p.Covers pid → p'.Covers pid) : AbortEffect m s p s' (some p') := by
  have hset : p ≠ .setting := by
    rintro rfl
    cases hp
  have hmonitors : s'.monitors = s.monitors := by rw [hframe]
  refine ⟨?_, fun k => ?_, fun k => ?_, htold, ?_, nofun, ?_⟩
  · rw [hmonitors]
    exact hframe
  · rw [hmonitors]
  · rw [hmonitors]
    simp [hset]
  · intro pid hpid halive hnot hor
    exact ⟨p', rfl, hcovers pid hpid halive hnot (hor.resolve_right hset)⟩
  · rintro q hq
    cases hq
    exact iff_of_true hp' (Or.inl hp)

theorem abortStep_effect (m : ℕ) (s : Service Asset) (p : AbortPc) :
    AbortEffect m s p (abortStep m s p).1 (abortStep m s p).2 := by
  cases p with
  | checking =>
    rw [abortStep]
    split_ifs with haborted
    · exact ⟨rfl, fun _ => rfl, by simp, fun _ h => h, by simp [AbortPc.Covers],
        fun _ => ⟨nofun, Or.inl haborted⟩, nofun⟩
    · exact ⟨rfl, fun _ => rfl, by simp, fun _ h => h, by simp [AbortPc.Covers], nofun,
        by simp [AbortPc.underway]⟩
  | setting =>
    refine ⟨rfl, fun k => ?_, fun k => ?_, fun _ h => h, fun pid _ _ _ _ => ⟨_, rfl, trivial⟩, nofun, ?_⟩
    · by_cases hk : k = m
      · subst hk
        simp [abortStep, Service.setMonitor]
      · simp [abortStep, Service.setMonitor, hk]
    · by_cases hk : k = m
      · subst hk
        simp [abortStep, Service.setMonitor]
      · simp [abortStep, Service.setMonitor, hk]
    · rintro p' hnext
      cases hnext
      simp [AbortPc.underway]
  | reversing kill =>
    exact abortEffect_pass rfl rfl rfl (fun _ h => h) fun pid hpid _ _ _ => List.mem_reverse.mpr hpid
  | telling kill rest =>
    cases rest with
    | cons q rest =>
      refine abortEffect_pass (s.tell_frame q) rfl rfl (fun pid h => (s.tell_told q pid).mpr (Or.inl h)) ?_
      intro pid _ halive hnot hcovers
      rcases List.mem_cons.mp hcovers with rfl | hrest
      · exact absurd ((s.tell_told pid pid).mpr (Or.inr ⟨rfl, halive⟩)) (ne_true_of_eq_false hnot)
      · exact hrest
    | nil =>
      cases kill with
      | false => exact abortEffect_pass rfl rfl rfl (fun _ h => h) fun _ _ _ _ h => nomatch h
      | true =>
        exact ⟨rfl, fun _ => rfl, by simp [abortStep], fun _ h => h, by simp [AbortPc.Covers],
          fun _ => ⟨nofun, Or.inr rfl⟩, nofun⟩

section

variable {m : ℕ} {s s' : Service Asset} {p : AbortPc} {next : Option AbortPc}

theorem AbortEffect.unchanged (e : AbortEffect m s p s' next) : s'.state = s.state ∧
    s'.current = s.current ∧ s'.pc = s.pc ∧ s'.watchers = s.watchers ∧ s'.lastStart = s.lastStart := by
  rw [e.frame]
  exact ⟨rfl, rfl, rfl, rfl, rfl⟩

theorem AbortEffect.monitor_procs (e : AbortEffect m s p s' next) :
    s'.monitor.procs = s.monitor.procs := by
  rw [Service.monitor, e.unchanged.2.1]
  exact e.procs s.current

theorem AbortEffect.monitor_aborted (e : AbortEffect m s p s' next) :
    s'.monitor.aborted = (s.monitor.aborted || decide (s.current = m ∧ p = .setting)) := by
  rw [Service.monitor, e.unchanged.2.1]
  exact e.aborted s.current

theorem AbortEffect.aborted_now (e : AbortEffect m s p s' next) (hab : s'.monitor.aborted = true)
    (hbefore : ¬ s.monitor.aborted = true) : s.current = m ∧ p = .setting := by
  rw [e.monitor_aborted] at hab
  simpa [hbefore] using hab

theorem AbortEffect.aborted_activate (e : AbortEffect m s p s' next)
    (hc : m = s.current → p = .setting → s.pc.inActivate = false)
    (hin : s.pc.inActivate = true) : s'.monitor.aborted = s.monitor.aborted := by
  have hnot : ¬ (s.current = m ∧ p = .setting) := by
    rintro ⟨hm, hset⟩
    rw [hc hm.symm hset] at hin
    cases hin
  rw [e.monitor_aborted]
  simp [hnot]

theorem AbortEffect.watcher_self (e : AbortEffect m s p s' next) {i : ℕ} {w : WatchPc}
    (hi : s.watchers[i]? = some w) (w' : WatchPc) : (s'.setWatcher i w').watchers[i]? = some w' := by
  change (s'.watchers.set i w')[i]? = some w'
  rw [e.unchanged.2.2.2.1, List.getElem?_set_self (List.getElem?_eq_some_iff.mp hi).1]

theorem AbortEffect.watcher_other (e : AbortEffect m s p s' next) {i j : ℕ} (hij : i ≠ j)
    (w' : WatchPc) : (s'.setWatcher i w').watchers[j]? = s.watchers[j]? := by
  change (s'.watchers.set i w')[j]? = _
  rw [List.getElem?_set_ne hij, e.unchanged.2.2.2.1]

theorem exists_abortStep (m : ℕ) (s : Service Asset) (p : AbortPc) :
    ∃ s' next, abortStep m s p = (s', next) ∧ AbortEffect m s p s' next :=
  ⟨_, _, rfl, abortStep_effect m s p⟩

theorem resume_of_effect {P : Service Asset → Prop} {within : AbortPc → CommandPc Asset}
    {behind : CommandPc Asset}
    (hwithin : ∀ s' p', AbortEffect m s p s' (some p') → P (s'.setPc (within p')))
    (hbehind : ∀ s', AbortEffect m s p s' none → P (s'.setPc behind)) :
    P (.resume (abortStep m s p) within behind) := by
  obtain ⟨s', next, heq, e⟩ := exists_abortStep m s p
  rw [heq]
  cases next with
  | some p' => exact hwithin s' p' e
  | none => exact hbehind s' e

/-- What a step of the thread that takes the calls can do; a step that only moves it may besides
write `_stop_watch` and the record of the run. -/
inductive Advanced (s : Service Asset) : Service Asset → Prop
  | moved (pc : CommandPc Asset) (stop : Bool) (l : List Asset) (rc : Option ℤ) :
      Advanced s { s with pc := pc, stopWatch := stop, survived := l, lastStart := rc }
  | spawned (a : Asset) (rest : List Asset) (hpc : s.pc = .spawning a rest) :
      Advanced s (s.spawn a rest)
  | created : Advanced s { s with watchers := s.watchers ++ [.looping], pc := .activating }
  | activated (hpc : s.pc = .activating) : Advanced s { s with state := .activated, pc := .ready }
  | assigned (c : HakoCommand) (hpc : s.pc = .assigning c) :
      Advanced s { s with state := c.target, pc := .ready }
  | aborted (p : AbortPc) (within : AbortPc → CommandPc Asset) (behind : CommandPc Asset) :
      Advanced s (.resume (abortStep s.current s p) within behind)
  | terminated (leaves : Bool) : Advanced s ({ s with state := .terminated }.afterTerminate leaves)

theorem advance_advanced (o : Answer) (s : Service Asset) : Advanced s (advance o s) := by
  have hself : Advanced s s := .moved s.pc s.stopWatch s.survived s.lastStart
  have hmoved : ∀ pc, Advanced s (s.setPc pc) := fun pc =>
    .moved pc s.stopWatch s.survived s.lastStart
  unfold advance
  split
  · exact hself
  · exact hself
  · exact hmoved _
  · split_ifs
    · exact hmoved _
    · exact hmoved _
  · rename_i a rest hpc
    split_ifs
    · exact hmoved _
    · exact .spawned a rest hpc
  · rename_i a pid rest hpc
    split_ifs
    · exact .moved (.starting rest) s.stopWatch _ s.lastStart
    · exact hself
    · exact hmoved _
  · exact .aborted _ _ _
  · exact .moved .creating false s.survived s.lastStart
  · exact .created
  · rename_i hpc
    exact .activated hpc
  · split
    · exact hmoved _
    · exact .moved _ s.stopWatch s.survived _
  · rename_i c hpc
    exact .assigned c hpc
  · exact .aborted _ _ _
  · exact .moved _ true s.survived s.lastStart
  · exact .terminated _

/-- What a step of watch thread `i` can do. -/
inductive Watched (i : ℕ) (s : Service Asset) : Service Asset → Prop
  | ended : Watched i s s
  | moved (w w' : WatchPc) (stop : Bool) (hi : s.watchers[i]? = some w)
      (hw : w ≠ .assigning ∧ ∀ m p, w ≠ .aborting m p)
      (hw' : ∀ m p, w' = .aborting m p → m = s.current ∧ p = .checking) :
      Watched i s ({ s with stopWatch := stop }.setWatcher i w')
  | aborted (m : ℕ) (p : AbortPc) (s' : Service Asset) (next : Option AbortPc)
      (hi : s.watchers[i]? = some (.aborting m p)) (e : AbortEffect m s p s' next) :
      Watched i s (s'.setWatcher i (next.elim .assigning (.aborting m)))
  | reported (hi : s.watchers[i]? = some .assigning) :
      Watched i s ({ s with state := .terminated }.setWatcher i .stopping)

theorem watch_watched (i : ℕ) (s : Service Asset) : Watched i s (watch i s) := by
  unfold watch
  split
  · exact .ended
  · exact .ended
  · rename_i hi
    split_ifs
    · exact .moved _ .ended s.stopWatch hi ⟨nofun, nofun⟩ nofun
    · exact .moved _ .listing s.stopWatch hi ⟨nofun, nofun⟩ nofun
  · rename_i hi
    exact .moved _ (.scanning s.monitor.procs) s.stopWatch hi ⟨nofun, nofun⟩ nofun
  · rename_i hi
    exact .moved _ .looping s.stopWatch hi ⟨nofun, nofun⟩ nofun
  · rename_i pid rest hi
    split_ifs
    · exact .moved _ (.scanning rest) s.stopWatch hi ⟨nofun, nofun⟩ nofun
    · exact .moved _ .detected s.stopWatch hi ⟨nofun, nofun⟩ nofun
  · rename_i hi
    refine .moved _ (.aborting s.current .checking) s.stopWatch hi ⟨nofun, nofun⟩ fun m p heq => ?_
    cases heq
    exact ⟨rfl, rfl⟩
  · rename_i m p hi
    obtain ⟨s', next, heq, e⟩ := exists_abortStep m s p
    rw [heq]
    cases next with
    | some p' => exact .aborted m p s' (some p') hi e
    | none => exact .aborted m p s' none hi e
  · rename_i hi
    exact .reported hi
  · rename_i hi
    exact .moved _ .ended true hi ⟨nofun, nofun⟩ nofun

end

end

end Launcher
end HakoniwaCorePro
