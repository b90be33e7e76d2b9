import Mathlib.Order.Bounds.Basic
import Mathlib.Data.Int.Notation
import Mathlib.Tactic.Ring

/-!
# The time steps of a callback asset

The loops that move `current_usec`: `hako_asset_impl_execute`, which takes one time step if it is
time for it, the waiting around it, and the sleeping above. Each turn of a loop reads one record of
answers. The callbacks neither step nor sleep themselves.
-/

namespace HakoniwaCorePro
namespace CallbackAsset

/-- `long long int`, 64 bits wide. -/
abbrev HakoTime := Int64

structure Callbacks where
  onSimulationStep : Bool
  onManualTimingControl : Bool
  deriving DecidableEq

/-- `hako_asset_instance`; of the controllers, whether they are there. -/
structure Instance where
  isInitialized : Bool
  externalUse : Bool
  deltaUsec : HakoTime
  currentUsec : HakoTime
  callback : Option Callbacks
  hakoAsset : Bool
  hakoSim : Bool
  deriving DecidableEq

def Instance.HasControllers (a : Instance) : Prop := a.hakoAsset = true ∧ a.hakoSim = true

instance (a : Instance) : Decidable a.HasControllers := inferInstanceAs (Decidable (_ ∧ _))

def Instance.callsSimulationStep (a : Instance) : Bool :=
  a.callback.any Callbacks.onSimulationStep

/-- The events that `asset_get_event` reports. Of the other values none is expected. -/
inductive AssetEvent
  | none | start | stop | reset | unknown
  deriving DecidableEq

/-- What is answered during one turn of a loop. The state is asked for a second time after a turn
without a step. -/
structure Answers where
  running : Bool
  pduCreated : Bool
  pduSyncMode : Bool
  simulationMode : Bool
  worldTime : HakoTime
  forceStop : Bool
  stillRunning : Bool
  event : AssetEvent
  deriving DecidableEq

/-- One time step, and whether `on_simulation_step` was called in it. -/
structure TimeStep where
  worldTime : HakoTime
  before : HakoTime
  after : HakoTime
  called : Bool
  deriving DecidableEq

inductive Executed
  | nullDereference
  | refused
  | stepped (a : Instance) (s : TimeStep)

/-- `hako_asset_impl_execute` -/
def execute (e : Answers) (a : Instance) : Executed :=
  if ¬ a.HasControllers then .nullDereference
  else if ¬ e.running then .refused
  else if ¬ e.pduCreated then .refused
  else if e.pduSyncMode then .refused
  else if ¬ e.simulationMode then .refused
  else
    let nextTime := a.currentUsec + a.deltaUsec
    if nextTime > e.worldTime then .refused
    else
      .stepped { a with currentUsec := nextTime }
        ⟨e.worldTime, a.currentUsec, nextTime, a.callsSimulationStep⟩

/-- How a call ends. It is pending if it waits when the answers end. -/
inductive Exit
  | done
  | forceStopped
  | unknownEvent
  | stopAndReset
  | pending
  | nullDereference
  | divisionByZero
  deriving DecidableEq

/-- What `step` returns. -/
def Exit.returned : Exit → Option Bool
  | .done => some true
  | .forceStopped | .unknownEvent | .stopAndReset => some false
  | .pending | .nullDereference | .divisionByZero => none

/-- What the C functions return; `ok` is 0. -/
inductive Code
  | ok | eintr | einval | eio | enoent
  deriving DecidableEq

/-- 0 for true and `EINTR` for false. -/
def Exit.code (x : Exit) : Option Code := x.returned.map fun ok => if ok then .ok else .eintr

/-- What a call leaves: the instance, the time steps that it has taken, and the answers to come. -/
structure Outcome where
  exit : Exit
  asset : Instance
  steps : List TimeStep
  rest : List Answers
  deriving DecidableEq

/-- The number of calls of `on_simulation_step`. -/
def Outcome.calls (r : Outcome) : ℕ := r.steps.countP TimeStep.called

theorem Exit.returned_iff (x : Exit) : x.returned = some true ↔ x = .done := by
  cases x <;> decide

theorem Exit.code_iff (x : Exit) : x.code = some .ok ↔ x = .done := by
  cases x <;> decide

def handleEvent (event : AssetEvent) (a : Instance) : Instance :=
  if event = .reset then { a with currentUsec := 0 } else a

/-- `hako_asset_impl_wait_event`; it is done when the event has occurred. -/
def waitEvent (target : AssetEvent) : List Answers → Instance → Outcome
  | [], a => ⟨.pending, a, [], []⟩
  | e :: env, a =>
    if e.forceStop then ⟨.forceStopped, a, [], env⟩
    else if ¬ a.hakoAsset then ⟨.nullDereference, a, [], env⟩
    else if e.event = .unknown then ⟨.unknownEvent, a, [], env⟩
    else
      let a := handleEvent e.event a
      if e.event = target then ⟨.done, a, [], env⟩ else waitEvent target env a

/-- The waiting of `hako_asset_impl_proc` after the state was left. -/
def waitStopReset (env : List Answers) (a : Instance) : Outcome :=
  let stop := waitEvent .stop env a
  if stop.exit = .done then
    let reset := waitEvent .reset stop.rest stop.asset
    if reset.exit = .done then { reset with exit := .stopAndReset } else reset
  else stop

/-- `hako_asset_impl_proc`; it is done after one time step. -/
def proc : List Answers → Instance → Outcome
  | [], a => ⟨if a.HasControllers then .pending else .nullDereference, a, [], []⟩
  | e :: env, a =>
    match execute e a with
    | .nullDereference => ⟨.nullDereference, a, [], env⟩
    | .stepped a s => ⟨.done, a, [s], env⟩
    | .refused =>
      if e.forceStop then ⟨.forceStopped, a, [], env⟩
      else if ¬ e.stillRunning then waitStopReset env a
      else proc env a

def SameButTime (a b : Instance) : Prop := b = { a with currentUsec := b.currentUsec }

theorem SameButTime.refl (a : Instance) : SameButTime a a := rfl

theorem SameButTime.trans {a b c : Instance} (hab : SameButTime a b) (hbc : SameButTime b c) :
    SameButTime a c := by
  unfold SameButTime at *
  rw [hbc, hab]

theorem SameButTime.hasControllers {a b : Instance} (h : SameButTime a b) :
    b.HasControllers ↔ a.HasControllers := by
  rw [h]
  rfl

theorem handleEvent_same (event : AssetEvent) (a : Instance) :
    SameButTime a (handleEvent event a) := by
  unfold handleEvent
  split
  · rfl
  · rfl

structure Idle (a : Instance) (r : Outcome) : Prop where
  same : SameButTime a r.asset
  steps : r.steps = []

theorem Idle.after {a b : Instance} {r : Outcome} (hab : SameButTime a b) (h : Idle b r) : Idle a r :=
  ⟨hab.trans h.same, h.steps⟩

theorem waitEvent_idle (target : AssetEvent) (env : List Answers) (a : Instance) :
    Idle a (waitEvent target env a) := by
  induction env generalizing a with
  | nil => exact ⟨rfl, rfl⟩
  | cons e env ih =>
    unfold waitEvent
    dsimp only
    split_ifs with hforce hasset hunknown htarget
    · exact ⟨rfl, rfl⟩
    · exact ⟨rfl, rfl⟩
    · exact ⟨handleEvent_same e.event a, rfl⟩
    · exact (ih _).after (handleEvent_same e.event a)
    · exact ⟨rfl, rfl⟩

theorem waitEvent_reset {env : List Answers} {a : Instance} (h : (waitEvent .reset env a).exit = .done) :
    (waitEvent .reset env a).asset.currentUsec = 0 := by
  induction env generalizing a with
  | nil => cases h
  | cons e env ih =>
    unfold waitEvent at h ⊢
    split_ifs at h ⊢ with hstop hasset hunknown htarget
    · simp [handleEvent, htarget]
    · exact ih h

/-- The end of `proc` without a time step; after Stop and Reset the time is 0. -/
structure Left (a : Instance) (r : Outcome) : Prop extends Idle a r where
  notDone : r.exit ≠ .done
  reset : r.exit = .stopAndReset → r.asset.currentUsec = 0

theorem waitEvent_exit (target : AssetEvent) (env : List Answers) (a : Instance) :
    (waitEvent target env a).exit ≠ .stopAndReset := by
  induction env generalizing a with
  | nil => exact nofun
  | cons e env ih =>
    unfold waitEvent
    dsimp only
    split_ifs
    · exact nofun
    · exact nofun
    · exact nofun
    · exact ih _
    · exact nofun

theorem waitStopReset_left (env : List Answers) (a : Instance) : Left a (waitStopReset env a) := by
  have hstop := waitEvent_idle .stop env a
  have hreset := (waitEvent_idle .reset (waitEvent .stop env a).rest
    (waitEvent .stop env a).asset).after hstop.same
  unfold waitStopReset
  dsimp only
  split_ifs with hs hr
  · exact ⟨⟨hreset.same, hreset.steps⟩, nofun, fun _ => waitEvent_reset hr⟩
  · exact ⟨hreset, hr, fun h => absurd h (waitEvent_exit _ _ _)⟩
  · exact ⟨hstop, hs, fun h => absurd h (waitEvent_exit _ _ _)⟩

theorem execute_stepped {e : Answers} {a b : Instance} {s : TimeStep}
    (h : execute e a = .stepped b s) :
    a.HasControllers ∧ a.currentUsec + a.deltaUsec ≤ e.worldTime ∧
      b = { a with currentUsec := a.currentUsec + a.deltaUsec } ∧
      s = ⟨e.worldTime, a.currentUsec, a.currentUsec + a.deltaUsec, a.callsSimulationStep⟩ := by
  unfold execute at h
  dsimp only at h
  split_ifs at h with hcontrollers _ _ _ _ hlate
  cases h
  exact ⟨hcontrollers, Int64.not_lt.mp hlate, rfl, rfl⟩

/-- `proc` ends with one time step, or it is left without one. -/
inductive ProcEnd (env : List Answers) (a : Instance) : Outcome → Prop
  | stepped (e : Answers) (b : Instance) (s : TimeStep) (rest : List Answers)
      (executed : execute e a = .stepped b s) (shorter : rest.length < env.length) :
      ProcEnd env a ⟨.done, b, [s], rest⟩
  | left (r : Outcome) (h : Left a r) : ProcEnd env a r

theorem ProcEnd.later {env : List Answers} {a : Instance} {r : Outcome} (e : Answers)
    (h : ProcEnd env a r) : ProcEnd (e :: env) a r := by
  cases h with
  | stepped e' b s rest hexec hshorter =>
    exact .stepped e' b s rest hexec (Nat.lt_succ_of_lt hshorter)
  | left r h => exact .left r h

theorem proc_end (env : List Answers) (a : Instance) : ProcEnd env a (proc env a) := by
  induction env with
  | nil =>
    refine .left _ ⟨⟨rfl, rfl⟩, ?_, ?_⟩
    · by_cases h : a.HasControllers <;> simp [proc, h]
    · by_cases h : a.HasControllers <;> simp [proc, h]
  | cons e env ih =>
    unfold proc
    cases hexec : execute e a with
    | nullDereference => exact .left _ ⟨⟨rfl, rfl⟩, nofun, nofun⟩
    | stepped b s => exact .stepped e b s env hexec (Nat.lt_succ_self _)
    | refused =>
      dsimp only
      split_ifs with hforce hrunning
      · exact .left _ ⟨⟨rfl, rfl⟩, nofun, nofun⟩
      · exact ih.later e
      · exact .left _ (waitStopReset_left env a)

theorem proc_rest_lt {env : List Answers} {a : Instance} (h : (proc env a).exit = .done) :
    (proc env a).rest.length < env.length := by
  have hend := proc_end env a
  generalize proc env a = r at h hend
  cases hend with
  | stepped e b s rest hexec hshorter => exact hshorter
  | left r hleft => exact absurd h hleft.notDone

/-- The loop of `hako_asset_impl_step`. -/
def stepUntil (target : HakoTime) (env : List Answers) (a : Instance) : Outcome :=
  if a.currentUsec < target then
    if _h : (proc env a).exit = .done then
      let r := stepUntil target (proc env a).rest (proc env a).asset
      { r with steps := (proc env a).steps ++ r.steps }
    else proc env a
  else ⟨.done, a, [], env⟩
termination_by env.length
decreasing_by exact proc_rest_lt _h

/-- `hako_asset_impl_step` -/
def step (incrementStep : HakoTime) (env : List Answers) (a : Instance) : Outcome :=
  stepUntil (a.currentUsec + incrementStep * a.deltaUsec) env a

/-- `hako_asset_usleep_no_wait` -/
def usleepNoWait (sleepTimeUsec : HakoTime) (env : List Answers) (a : Instance) : Outcome :=
  if a.externalUse then ⟨.done, a, [], env⟩
  else if sleepTimeUsec = 0 then step 1 env a
  else if a.deltaUsec = 0 then ⟨.divisionByZero, a, [], env⟩
  else step ((sleepTimeUsec + (a.deltaUsec - 1)) / a.deltaUsec) env a

structure Registered (a : Instance) : Prop where
  isInitialized : a.isInitialized = true
  notExternal : a.externalUse = false
  hasControllers : a.HasControllers
  delta : 1 ≤ a.deltaUsec
  callback : a.callback.isSome

/-- A `HakoTime` can have this value. -/
def Fits (n : ℤ) : Prop := -2 ^ 63 ≤ n ∧ n < 2 ^ 63

instance (n : ℤ) : Decidable (Fits n) := inferInstanceAs (Decidable (_ ∧ _))

theorem bmod_of_fits {n : ℤ} (h : Fits n) : n.bmod (2 ^ 64) = n :=
  Int.bmod_eq_of_le (by unfold Fits at h; omega) (by unfold Fits at h; omega)

theorem toInt_fits (t : HakoTime) : Fits t.toInt := ⟨t.le_toInt, t.toInt_lt⟩

theorem toInt_add_of_fits {s t : HakoTime} (h : Fits (s.toInt + t.toInt)) :
    (s + t).toInt = s.toInt + t.toInt := by
  rw [Int64.toInt_add, bmod_of_fits h]

theorem toInt_target {c k d : HakoTime} (h : Fits (c.toInt + k.toInt * d.toInt)) :
    (c + k * d).toInt = c.toInt + k.toInt * d.toInt := by
  rw [Int64.toInt_add, Int64.toInt_mul, Int.add_bmod_bmod, bmod_of_fits h]

theorem one_le_iff {d : HakoTime} : 1 ≤ d ↔ 1 ≤ d.toInt := by
  rw [Int64.le_iff_toInt_le]
  rfl

/-- The time steps of a call: each starts where the one before has ended. -/
structure Paced (a : Instance) (r : Outcome) : Prop where
  starts : ∀ (i : ℕ) s, r.steps[i]? = some s →
    s.before.toInt = a.currentUsec.toInt + i * a.deltaUsec.toInt
  notEarly : ∀ s ∈ r.steps, s.before.toInt + a.deltaUsec.toInt ≤ s.worldTime.toInt
  raised : ∀ s ∈ r.steps, s.after.toInt = s.before.toInt + a.deltaUsec.toInt
  called : ∀ s ∈ r.steps, s.called = a.callsSimulationStep
  reset : r.exit = .stopAndReset → r.asset.currentUsec = 0

/-- The call has taken `n` time steps. -/
structure Advanced (a : Instance) (n : ℕ) (r : Outcome) : Prop where
  steps : r.steps.length = n
  calls : r.calls = if a.callsSimulationStep then n else 0
  current : r.asset.currentUsec.toInt = a.currentUsec.toInt + n * a.deltaUsec.toInt

theorem Paced.nil {a : Instance} {r : Outcome} (hsteps : r.steps = [])
    (hreset : r.exit = .stopAndReset → r.asset.currentUsec = 0) : Paced a r := by
  constructor
  case starts => simp [hsteps]
  case notEarly => simp [hsteps]
  case raised => simp [hsteps]
  case called => simp [hsteps]
  case reset => exact hreset

theorem Paced.cons {a b : Instance} {r : Outcome} {w : HakoTime}
    (hstep : (a.currentUsec + a.deltaUsec).toInt = a.currentUsec.toInt + a.deltaUsec.toInt)
    (htime : a.currentUsec + a.deltaUsec ≤ w)
    (hb : b = { a with currentUsec := a.currentUsec + a.deltaUsec }) (h : Paced b r) :
    Paced a { r with
      steps := ⟨w, a.currentUsec, a.currentUsec + a.deltaUsec, a.callsSimulationStep⟩ :: r.steps } := by
  subst hb
  constructor
  case starts =>
    intro i s hs
    cases i with
    | zero =>
      cases hs
      simp
    | succ i =>
      have hlater := h.starts i s hs
      rw [hstep] at hlater
      rw [hlater]
      push_cast
      ring
  case notEarly =>
    refine List.forall_mem_cons.mpr ⟨?_, h.notEarly⟩
    rw [← hstep]
    exact Int64.le_iff_toInt_le.mp htime
  case raised => exact List.forall_mem_cons.mpr ⟨hstep, h.raised⟩
  case called => exact List.forall_mem_cons.mpr ⟨rfl, h.called⟩
  case reset => exact h.reset

theorem Advanced.cons {a b : Instance} {r : Outcome} {n : ℕ} {w : HakoTime}
    (hstep : (a.currentUsec + a.deltaUsec).toInt = a.currentUsec.toInt + a.deltaUsec.toInt)
    (hb : b = { a with currentUsec := a.currentUsec + a.deltaUsec }) (h : Advanced b n r) :
    Advanced a (n + 1) { r with
      steps := ⟨w, a.currentUsec, a.currentUsec + a.deltaUsec, a.callsSimulationStep⟩ :: r.steps } := by
  subst hb
  constructor
  case steps => exact congrArg (· + 1) h.steps
  case calls =>
    have hcalls := h.calls
    unfold Outcome.calls at hcalls ⊢
    rw [List.countP_cons, hcalls]
    change (if a.callsSimulationStep then n else 0) + (if a.callsSimulationStep then 1 else 0) = _
    split_ifs
    · rfl
    · rfl
  case current =>
    rw [h.current]
    change (a.currentUsec + a.deltaUsec).toInt + n * a.deltaUsec.toInt = _
    rw [hstep]
    push_cast
    ring

theorem stepUntil_reached {target : HakoTime} (env : List Answers) {a : Instance}
    (h : target ≤ a.currentUsec) : stepUntil target env a = ⟨.done, a, [], env⟩ := by
  rw [stepUntil, if_neg (Int64.not_lt.mpr h)]

theorem target_succ {target c d : HakoTime} {n : ℕ} (hd : 1 ≤ d.toInt)
    (h : target.toInt = c.toInt + (n + 1 : ℕ) * d.toInt) :
    c < target ∧ (c + d).toInt = c.toInt + d.toInt ∧ target.toInt = (c + d).toInt + n * d.toInt := by
  have hmore : 0 ≤ (n : ℤ) * d.toInt := Int.mul_nonneg (Int.natCast_nonneg n) (by omega)
  have hsucc : target.toInt = c.toInt + d.toInt + n * d.toInt := by
    rw [h]
    push_cast
    ring
  have hlow := c.le_toInt
  have hhigh := target.toInt_lt
  have hnext : (c + d).toInt = c.toInt + d.toInt := toInt_add_of_fits ⟨by omega, by omega⟩
  refine ⟨?_, hnext, by rw [hsucc, hnext]⟩
  rw [Int64.lt_iff_toInt_lt]
  omega

/-- The target is `n` steps away. Each time step leads to the next one, up to the target. -/
theorem stepUntil_paced {target : HakoTime} {n : ℕ} (env : List Answers) (a : Instance)
    (hdelta : 1 ≤ a.deltaUsec)
    (htarget : target.toInt = a.currentUsec.toInt + n * a.deltaUsec.toInt) :
    Paced a (stepUntil target env a) ∧
      ((stepUntil target env a).exit = .done → Advanced a n (stepUntil target env a)) := by
  induction n generalizing env a with
  | zero =>
    have hge : target ≤ a.currentUsec := by
      rw [Int64.le_iff_toInt_le]
      simpa using le_of_eq htarget
    rw [stepUntil_reached env hge]
    exact ⟨.nil rfl nofun, fun _ => ⟨rfl, by simp [Outcome.calls], by simp⟩⟩
  | succ n ih =>
    obtain ⟨hlt, hstep, hnext⟩ := target_succ (one_le_iff.mp hdelta) htarget
    rw [stepUntil, if_pos hlt]
    have hend := proc_end env a
    generalize proc env a = r at hend ⊢
    cases hend with
    | stepped e b s rest hexec hshorter =>
      obtain ⟨-, htime, hb, rfl⟩ := execute_stepped hexec
      obtain ⟨hpaced, hadvanced⟩ := ih rest b (hb ▸ hdelta) (hb ▸ hnext)
      exact ⟨hpaced.cons hstep htime hb, fun hdone => (hadvanced hdone).cons hstep hb⟩
    | left r hleft =>
      rw [dif_neg hleft.notDone]
      exact ⟨.nil hleft.steps hleft.reset, fun hdone => absurd hdone hleft.notDone⟩

theorem step_paced {k : HakoTime} (env : List Answers) {a : Instance} (hdelta : 1 ≤ a.deltaUsec)
    (hfits : Fits (a.currentUsec.toInt + k.toInt * a.deltaUsec.toInt)) :
    Paced a (step k env a) ∧ ((step k env a).exit = .done → Advanced a k.toInt.toNat (step k env a)) := by
  have htarget := toInt_target hfits
  have hpos : 1 ≤ a.deltaUsec.toInt := one_le_iff.mp hdelta
  by_cases hk : 0 ≤ k.toInt
  · refine stepUntil_paced env a hdelta ?_
    rw [htarget, Int.toNat_of_nonneg hk]
  · -- The target lies in the past.
    have hge : a.currentUsec + k * a.deltaUsec ≤ a.currentUsec := by
      have hneg : k.toInt * a.deltaUsec.toInt ≤ 0 :=
        Int.mul_nonpos_of_nonpos_of_nonneg (by omega) (by omega)
      rw [Int64.le_iff_toInt_le, htarget]
      omega
    have hzero : k.toInt.toNat = 0 := Int.toNat_of_nonpos (by omega)
    rw [step, stepUntil_reached env hge, hzero]
    exact ⟨.nil rfl nofun, fun _ => ⟨rfl, by simp [Outcome.calls], by simp⟩⟩

def sleepSteps (delta sleepTimeUsec : ℤ) : ℤ :=
  if sleepTimeUsec = 0 then 1 else (sleepTimeUsec + (delta - 1)).tdiv delta

theorem sleepSteps_least {d t : ℤ} (hd : 1 ≤ d) (ht : t ≠ 0) :
    IsLeast {x : ℤ | ∃ n : ℕ, x = n * d ∧ t ≤ x} ((sleepSteps d t).toNat * d) := by
  have hd0 : 0 < d := by omega
  rw [sleepSteps, if_neg ht]
  by_cases hpos : 0 < t
  · have hdiv : (t + (d - 1)).tdiv d = (t + (d - 1)) / d := Int.tdiv_eq_ediv_of_nonneg (by omega)
    have hnonneg : 0 ≤ (t + (d - 1)) / d := Int.ediv_nonneg (by omega) (by omega)
    rw [hdiv, Int.toNat_of_nonneg hnonneg]
    constructor
    · refine ⟨((t + (d - 1)) / d).toNat, by rw [Int.toNat_of_nonneg hnonneg], ?_⟩
      have hlt := Int.lt_ediv_add_one_mul_self (t + (d - 1)) hd0
      rw [Int.add_mul] at hlt
      omega
    · rintro x ⟨n, rfl, hx⟩
      apply Int.mul_le_mul_of_nonneg_right _ (by omega)
      apply Int.le_of_lt_add_one
      apply Int.ediv_lt_of_lt_mul hd0
      rw [Int.add_mul]
      omega
  · have hdiv : (t + (d - 1)).tdiv d ≤ 0 := by
      by_cases hsum : 0 ≤ t + (d - 1)
      · exact le_of_eq (Int.tdiv_eq_zero_of_lt hsum (by omega))
      · have hneg := Int.tdiv_nonneg (a := -(t + (d - 1))) (b := d) (by omega) (by omega)
        rw [Int.neg_tdiv] at hneg
        omega
    rw [Int.toNat_of_nonpos hdiv, Int.natCast_zero, Int.zero_mul]
    constructor
    · exact ⟨0, (Int.zero_mul d).symm, by omega⟩
    · rintro x ⟨n, rfl, hx⟩
      exact Int.mul_nonneg (Int.natCast_nonneg n) (by omega)

theorem toInt_sub_one {d : HakoTime} (hd : 1 ≤ d) : (d - 1).toInt = d.toInt - 1 := by
  have hpos : 1 ≤ d.toInt := one_le_iff.mp hd
  have hhigh := d.toInt_lt
  rw [Int64.toInt_sub]
  exact bmod_of_fits ⟨by change -2 ^ 63 ≤ d.toInt - 1; omega, by change d.toInt - 1 < _; omega⟩

theorem toInt_div_of_pos {d : HakoTime} (hd : 1 ≤ d) (s : HakoTime) :
    (s / d).toInt = s.toInt.tdiv d.toInt := by
  apply Int64.toInt_div_of_ne_right
  rintro rfl
  exact absurd hd (by decide)

theorem toInt_sleepSteps {t d : HakoTime} (hd : 1 ≤ d) (hfits : Fits (t.toInt + d.toInt - 1))
    (ht : t ≠ 0) : ((t + (d - 1)) / d).toInt = sleepSteps d.toInt t.toInt := by
  have hsum : (t + (d - 1)).toInt = t.toInt + (d.toInt - 1) := by
    rw [toInt_add_of_fits, toInt_sub_one hd]
    rwa [toInt_sub_one hd, ← Int.add_sub_assoc]
  have ht0 : t.toInt ≠ 0 := fun h => ht (Int64.toInt_inj.mp h)
  rw [toInt_div_of_pos hd, hsum, sleepSteps, if_neg ht0]

/-- How far a sleep that returns 0 moves the time: to the least multiple of the delta that is not
shorter, and by one delta for a sleep of 0. -/
def Slept (a : Instance) (t : HakoTime) (r : Outcome) : Prop :=
  let advance := r.asset.currentUsec.toInt - a.currentUsec.toInt
  if t = 0 then advance = a.deltaUsec.toInt
  else IsLeast {x : ℤ | ∃ n : ℕ, x = n * a.deltaUsec.toInt ∧ t.toInt ≤ x} advance

theorem usleepNoWait_slept {t : HakoTime} (env : List Answers) {a : Instance} (ha : Registered a)
    (hsum : Fits (t.toInt + a.deltaUsec.toInt - 1))
    (hfits : Fits (a.currentUsec.toInt +
      sleepSteps a.deltaUsec.toInt t.toInt * a.deltaUsec.toInt)) :
    Paced a (usleepNoWait t env a) ∧
      ((usleepNoWait t env a).exit = .done → Slept a t (usleepNoWait t env a)) := by
  have hpos : 1 ≤ a.deltaUsec.toInt := one_le_iff.mp ha.delta
  unfold usleepNoWait Slept
  rw [if_neg (Bool.eq_false_iff.mp ha.notExternal)]
  by_cases ht : t = 0
  · subst ht
    simp only [if_true]
    obtain ⟨hpaced, hadvanced⟩ := step_paced (k := 1) env ha.delta hfits
    refine ⟨hpaced, fun hdone => ?_⟩
    rw [(hadvanced hdone).current]
    change a.currentUsec.toInt + 1 * a.deltaUsec.toInt - _ = _
    omega
  · have hdelta : a.deltaUsec ≠ 0 := by
      intro hzero
      rw [hzero] at hpos
      exact absurd hpos (by decide)
    simp only [if_neg ht, if_neg hdelta]
    have hk := toInt_sleepSteps ha.delta hsum ht
    rw [← hk] at hfits
    obtain ⟨hpaced, hadvanced⟩ := step_paced env ha.delta hfits
    refine ⟨hpaced, fun hdone => ?_⟩
    rw [(hadvanced hdone).current, add_sub_cancel_left, hk]
    exact sleepSteps_least hpos (fun h => ht (Int64.toInt_inj.mp h))

/-- In every call, whatever is answered, the time steps of a registered asset neither overtake the
world time nor leave anything out. -/
theorem time_steps (a : Instance) (ha : Registered a) (env : List Answers) :
    (∀ k : HakoTime, Fits (a.currentUsec.toInt + k.toInt * a.deltaUsec.toInt) →
      Paced a (step k env a) ∧
        ((step k env a).exit.returned = some true → Advanced a k.toInt.toNat (step k env a))) ∧
    (∀ t : HakoTime, Fits (t.toInt + a.deltaUsec.toInt - 1) →
      Fits (a.currentUsec.toInt + sleepSteps a.deltaUsec.toInt t.toInt * a.deltaUsec.toInt) →
      Paced a (usleepNoWait t env a) ∧
        ((usleepNoWait t env a).exit.code = some .ok → Slept a t (usleepNoWait t env a))) := by
  constructor
  · intro k hfits
    rw [Exit.returned_iff]
    exact step_paced env ha.delta hfits
  · intro t hsum hfits
    rw [Exit.code_iff]
    exact usleepNoWait_slept env ha hsum hfits

def inTime (worldTime : HakoTime) : Answers := ⟨true, true, false, true, worldTime, false, true, .none⟩

/-- An asset with an `on_simulation_step`. -/
def steppingAsset : Instance := ⟨true, false, 2, 0, some ⟨true, false⟩, true, true⟩

theorem steppingAsset_registered : Registered steppingAsset :=
  ⟨rfl, rfl, ⟨rfl, rfl⟩, by decide, rfl⟩

/-- The first answer comes too early for the step, and the loop waits for one turn. -/
theorem time_steps_called :
    (step 2 [inTime 1, inTime 2, inTime 4] steppingAsset).calls = 2 ∧
      Advanced steppingAsset 2 (step 2 [inTime 1, inTime 2, inTime 4] steppingAsset) ∧
      Slept steppingAsset 3 (usleepNoWait 3 [inTime 1, inTime 2, inTime 4] steppingAsset) := by
  obtain ⟨hstep, hsleep⟩ :=
    time_steps steppingAsset steppingAsset_registered [inTime 1, inTime 2, inTime 4]
  have hadvanced : Advanced steppingAsset 2 (step 2 [inTime 1, inTime 2, inTime 4] steppingAsset) := by
    apply (hstep 2 (by decide)).2
    simp [step, stepUntil, proc, execute, Instance.HasControllers, Exit.returned, steppingAsset, inTime]
  refine ⟨hadvanced.calls, hadvanced, ?_⟩
  apply (hsleep 3 (by decide) (by decide)).2
  simp [usleepNoWait, step, stepUntil, proc, execute, Instance.HasControllers, Exit.code,
    Exit.returned, steppingAsset, inTime]

def manualAsset : Instance := ⟨true, false, 2, 0, some ⟨false, true⟩, true, true⟩

theorem manualAsset_registered : Registered manualAsset :=
  ⟨rfl, rfl, ⟨rfl, rfl⟩, by decide, rfl⟩

/-- A step that is taken without a call of `on_simulation_step`. -/
theorem manual_control_not_called :
    Registered manualAsset ∧ (step 1 [inTime 2] manualAsset).exit.returned = some true ∧
      (step 1 [inTime 2] manualAsset).calls = 0 := by
  refine ⟨manualAsset_registered, ?_⟩
  rw [step, stepUntil, stepUntil]
  decide

end CallbackAsset
end HakoniwaCorePro
