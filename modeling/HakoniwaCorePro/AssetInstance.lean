import HakoniwaCorePro.AssetSteps
import HakoniwaCorePro.Runs

/-!
# The set-up of the asset instance

The four entry points that fill `hako_asset_instance`, each free to fail at any of its steps, and
the calls that use it then.
-/

namespace HakoniwaCorePro
namespace CallbackAsset

open Runs

def Instance.initial : Instance := ⟨false, false, 0, 0, none, false, false⟩

/-- What becomes of the steps of a set-up call. A step that throws has failed. -/
structure SetUpAnswers where
  configExists : Bool
  configOpens : Bool
  configParses : Bool
  assetController : Bool
  simeventController : Bool
  assetRegistered : Bool
  proData : Bool
  channelsCreated : Bool

/-- `create_asset_controller` and, after it, `get_simevent_controller`. -/
def createControllers (e : SetUpAnswers) (a : Instance) : Bool × Instance :=
  let a := { a with hakoAsset := e.assetController }
  if ¬ e.assetController then (false, a)
  else
    let a := { a with hakoSim := e.simeventController }
    (e.simeventController, a)

/-- `hako_asset_impl_init`. The delta and the time are kept if the file cannot be opened. -/
def implInit (deltaUsec : HakoTime) (e : SetUpAnswers) (a : Instance) : Bool × Instance :=
  let a := { a with
    isInitialized := false, externalUse := false, callback := none, hakoAsset := false, hakoSim := false }
  if ¬ e.configOpens then (false, a)
  else
    let a := { a with deltaUsec := deltaUsec, currentUsec := 0 }
    if ¬ e.configParses then (false, a)
    else
      let (ok, a) := createControllers e a
      if ¬ ok then (false, a)
      else if ¬ e.assetRegistered then (false, a)
      else if ¬ e.proData then (false, a)
      else if ¬ e.channelsCreated then (false, a)
      else (true, { a with isInitialized := true })

def resetForAttach (externalUse : Bool) : Instance := ⟨false, externalUse, 0, 0, none, false, false⟩

def finishAttach (e : SetUpAnswers) (a : Instance) : Bool × Instance :=
  let (ok, a) := createControllers e a
  if ¬ ok then (false, a) else (true, { a with isInitialized := true })

/-- `hako_asset_impl_initialize_for_external` -/
def implInitializeForExternal (e : SetUpAnswers) (a : Instance) : Bool × Instance :=
  if a.isInitialized then (false, a) else finishAttach e (resetForAttach true)

def notSet (s : Option String) : Prop := s = none ∨ s = some ""

instance (s : Option String) : Decidable (notSet s) := inferInstanceAs (Decidable (_ ∨ _))

/-- `hako_asset_impl_attach_core` -/
def implAttachCore (assetName configPath : Option String) (e : SetUpAnswers) (a : Instance) :
    Bool × Instance :=
  if a.isInitialized then (false, a)
  else if notSet assetName then (false, a)
  else if configPath = none then (false, a)
  else if ¬ e.configOpens then (false, resetForAttach false)
  else if ¬ e.configParses then (false, resetForAttach false)
  else finishAttach e (resetForAttach false)

/-- `hako_asset_impl_register_callback` -/
def implRegisterCallback (callbacks : Callbacks) (a : Instance) : Instance :=
  if a.externalUse then a else { a with callback := some callbacks }

/-- `hako_asset_register` -/
def register (assetName configPath : Option String) (callbacks : Option Callbacks)
    (deltaUsec : HakoTime) (e : SetUpAnswers) (a : Instance) : Code × Instance :=
  if notSet assetName then (.einval, a)
  else if configPath = none ∨ ¬ e.configExists then (.enoent, a)
  else
    match callbacks with
    | none => (.einval, a)
    | some c =>
      if c.onSimulationStep ∧ c.onManualTimingControl then (.einval, a)
      else if deltaUsec < 1 then (.einval, a)
      else
        let (ok, a) := implInit deltaUsec e a
        if ¬ ok then (.eio, a) else (.ok, implRegisterCallback c a)

/-- `hako_asset_attach_core` -/
def attachCore (e : SetUpAnswers) (a : Instance) : Code × Instance :=
  if a.isInitialized then (.ok, a)
  else
    let (ok, a) := implInitializeForExternal e a
    (if ok then .ok else .eio, a)

/-- `hako_asset_attach_core_with_name` -/
def attachCoreWithName (assetName configPath : Option String) (e : SetUpAnswers) (a : Instance) :
    Code × Instance :=
  if a.isInitialized then (.ok, a)
  else if notSet assetName then (.einval, a)
  else if configPath = none ∨ ¬ e.configExists then (.enoent, a)
  else
    let (ok, a) := implAttachCore assetName configPath e a
    (if ok then .ok else .eio, a)

/-- `hako_initialize_for_external` -/
def initializeForExternal (e : SetUpAnswers) (a : Instance) : Code × Instance :=
  let (ok, a) := implInitializeForExternal e a
  (if ok then .ok else .eio, a)

inductive SetUpCall
  | register (assetName configPath : Option String) (callbacks : Option Callbacks)
      (deltaUsec : HakoTime)
  | attachCore
  | attachCoreWithName (assetName configPath : Option String)
  | initializeForExternal

def setUp (a : Instance) (c : SetUpCall × SetUpAnswers) : Code × Instance :=
  match c.1 with
  | .register assetName configPath callbacks deltaUsec =>
    register assetName configPath callbacks deltaUsec c.2 a
  | .attachCore => attachCore c.2 a
  | .attachCoreWithName assetName configPath => attachCoreWithName assetName configPath c.2 a
  | .initializeForExternal => initializeForExternal c.2 a

def setUpStep (a : Instance) (c : SetUpCall × SetUpAnswers) : Instance := (setUp a c).2

def afterSetUp (calls : List (SetUpCall × SetUpAnswers)) : Instance := run setUpStep .initial calls

inductive Result
  | code (c : Code)
  | time (t : HakoTime)
  | pending
  | nullDereference
  | divisionByZero
  deriving DecidableEq

def Exit.result : Exit → Result
  | .done => .code .ok
  | .forceStopped | .unknownEvent | .stopAndReset => .code .eintr
  | .pending => .pending
  | .nullDereference => .nullDereference
  | .divisionByZero => .divisionByZero

/-- `hako_asset_simulation_time` and `hako_asset_min_asset_time`, which ask the controller for a
time. -/
def controllerTime (answer : HakoTime) (a : Instance) : Result :=
  if a.hakoAsset then .time answer else .nullDereference

def simulationTime (worldTime : HakoTime) (a : Instance) : Result := controllerTime worldTime a

def minAssetTime (minTime : HakoTime) (a : Instance) : Result := controllerTime minTime a

/-- What reading and writing have in common; `buffer` is null or not. -/
def pduAccess (roboName : Option String) (buffer : Bool) (bufferLen : ℕ) (answer : Bool)
    (a : Instance) : Result :=
  if ¬ a.isInitialized then .code .einval
  else if notSet roboName then .code .einval
  else if ¬ buffer ∨ bufferLen = 0 then .code .einval
  else if ¬ a.hakoAsset then .nullDereference
  else if answer then .code .ok else .code .eio

def pduRead (roboName : Option String) (buffer : Bool) (bufferLen : ℕ) (answer : Bool)
    (a : Instance) : Result := pduAccess roboName buffer bufferLen answer a

def pduWrite (roboName : Option String) (buffer : Bool) (bufferLen : ℕ) (answer : Bool)
    (a : Instance) : Result := pduAccess roboName buffer bufferLen answer a

/-- A loop that waits until an answer is there, unless it is stopped before. -/
def waitUntil (controller : Instance → Bool) (stopped ready : Answers → Bool) :
    List Answers → Instance → Outcome
  | [], a => ⟨.pending, a, [], []⟩
  | e :: env, a =>
    if stopped e then ⟨.forceStopped, a, [], env⟩
    else if ¬ controller a then ⟨.nullDereference, a, [], env⟩
    else if ready e then ⟨.done, a, [], env⟩
    else waitUntil controller stopped ready env a

/-- `hako_asset_impl_wait_state` for the running state. -/
def waitState : List Answers → Instance → Outcome :=
  waitUntil Instance.hakoSim Answers.forceStop Answers.running

def waitPduCreated : List Answers → Instance → Outcome :=
  waitUntil Instance.hakoAsset (fun _ => false) Answers.pduCreated

/-- `hako_asset_impl_wait_running` -/
def waitRunning (env : List Answers) (a : Instance) : Outcome :=
  let event := waitEvent .start env a
  if event.exit = .done then
    let state := waitState event.rest event.asset
    if state.exit = .done then waitPduCreated state.rest state.asset else state
  else event

/-- How far `hako_asset_start_no_wait` comes before its own stepping: it returns, the callback
controls the time, or the loop begins. -/
inductive Started
  | returned (r : Result)
  | manual (a : Instance) (env : List Answers)
  | looping (a : Instance) (env : List Answers)

def afterWaiting (r : Outcome) : Started :=
  match r.exit.returned with
  | none => .returned r.exit.result
  | some false => .returned (.code .eio)
  | some true =>
    if r.asset.callback.any Callbacks.onManualTimingControl then .manual r.asset r.rest
    else .looping r.asset r.rest

/-- `hako_asset_start_no_wait`; `stopped` is whether the simulation is in its stopped state. -/
def startNoWait (stopped : Bool) (env : List Answers) (a : Instance) : Started :=
  if ¬ a.isInitialized then .returned (.code .einval)
  else if ¬ a.hakoSim then .returned .nullDereference
  else if ¬ stopped then .returned (.code .einval)
  else afterWaiting (waitRunning env a)

/-- The states in which the stepping loop begins an iteration. It goes on as long as the steps
succeed. -/
inductive Iterates (stopped : Bool) (env : List Answers) (a : Instance) : Instance → List Answers → Prop
  | first (b : Instance) (rest : List Answers) (started : startNoWait stopped env a = .looping b rest) :
      Iterates stopped env a b rest
  | next (b : Instance) (rest : List Answers) (before : Iterates stopped env a b rest)
      (succeeded : (step 1 rest b).exit = .done) :
      Iterates stopped env a (step 1 rest b).asset (step 1 rest b).rest

inductive FollowingCall
  | usleep (sleepTimeUsec : HakoTime) (env : List Answers)
  | simulationTime (worldTime : HakoTime)
  | minAssetTime (minTime : HakoTime)
  | pduRead (roboName : Option String) (buffer : Bool) (bufferLen : ℕ) (answer : Bool)
  | pduWrite (roboName : Option String) (buffer : Bool) (bufferLen : ℕ) (answer : Bool)
  | start (stopped : Bool) (env : List Answers)

def Result.Faults (r : Result) : Prop := r = .nullDereference ∨ r = .divisionByZero

instance (r : Result) : Decidable r.Faults := inferInstanceAs (Decidable (_ ∨ _))

def Grows (env : List Answers) (a : Instance) : Prop :=
  (step 1 env a).exit = .done → a.currentUsec < (step 1 env a).asset.currentUsec

/-- No fault, and no iteration that gets nowhere. -/
def Safe (a : Instance) : FollowingCall → Prop
  | .usleep t env => ¬ (usleepNoWait t env a).exit.result.Faults
  | .simulationTime t => ¬ (simulationTime t a).Faults
  | .minAssetTime t => ¬ (minAssetTime t a).Faults
  | .pduRead name buffer len answer => ¬ (pduRead name buffer len answer a).Faults
  | .pduWrite name buffer len answer => ¬ (pduWrite name buffer len answer a).Faults
  | .start stopped env =>
    (∀ r, startNoWait stopped env a = .returned r → ¬ r.Faults) ∧
      ∀ b rest, Iterates stopped env a b rest → ¬ (step 1 rest b).exit.result.Faults ∧ Grows rest b

/-- What a sleep needs of the instance. Without controllers it must have nothing to do, because it
is negative or because its sum overflows. -/
def SleepsWell (a : Instance) (t : HakoTime) : Prop :=
  a.externalUse = true ∨ (a.deltaUsec = 0 ∧ t = 0) ∨
    (1 ≤ a.deltaUsec ∧ (a.HasControllers ∨ t < 0 ∨ ¬ Fits (t.toInt + a.deltaUsec.toInt - 1)))

/-- What the calls need of the instance. -/
def SafeWhen (a : Instance) : FollowingCall → Prop
  | .usleep t _ => SleepsWell a t
  | .simulationTime _ | .minAssetTime _ => a.hakoAsset = true
  | .pduRead .. | .pduWrite .. => True
  | .start stopped env => ∀ b rest, Iterates stopped env a b rest →
      1 ≤ b.deltaUsec ∧ Fits (b.currentUsec.toInt + b.deltaUsec.toInt)

/-- What all set-up calls leave: an initialized instance has its controllers, and no time has
passed. -/
structure Settled (a : Instance) : Prop where
  initialized : a.isInitialized = true → a.HasControllers
  current : a.currentUsec = 0
  delta : a.deltaUsec = 0 ∨ 1 ≤ a.deltaUsec

theorem initial_settled : Settled .initial := ⟨nofun, rfl, Or.inl rfl⟩

theorem resetForAttach_settled (externalUse : Bool) : Settled (resetForAttach externalUse) :=
  ⟨nofun, rfl, Or.inl rfl⟩

theorem createControllers_eq (e : SetUpAnswers) (a : Instance) (ha : a.hakoSim = false) :
    createControllers e a = (e.assetController && e.simeventController,
      { a with hakoAsset := e.assetController,
               hakoSim := e.assetController && e.simeventController }) := by
  cases hasset : e.assetController
  · simp [createControllers, hasset, ha]
  · simp [createControllers, hasset]

theorem Settled.waiting {a : Instance} (ha : Settled a) (hinit : a.isInitialized = false)
    (asset sim : Bool) : Settled { a with hakoAsset := asset, hakoSim := sim } :=
  ⟨fun h => by simp [hinit] at h, ha.current, ha.delta⟩

theorem finishAttach_settled (e : SetUpAnswers) (externalUse : Bool) :
    Settled (finishAttach e (resetForAttach externalUse)).2 := by
  unfold finishAttach
  rw [createControllers_eq e _ rfl]
  dsimp only
  split_ifs with hok
  · obtain ⟨hasset, hsim⟩ := Bool.and_eq_true_iff.mp hok
    exact ⟨fun _ => ⟨hasset, hok⟩, rfl, Or.inl rfl⟩
  · exact (resetForAttach_settled externalUse).waiting rfl _ _

theorem implInit_settled {deltaUsec : HakoTime} (hdelta : 1 ≤ deltaUsec) (e : SetUpAnswers)
    {a : Instance} (ha : Settled a) : Settled (implInit deltaUsec e a).2 := by
  have hbegun : Settled ⟨false, false, deltaUsec, 0, none, false, false⟩ := ⟨nofun, rfl, Or.inr hdelta⟩
  unfold implInit
  dsimp only
  rw [createControllers_eq e _ rfl]
  dsimp only
  split_ifs with hopens hparses hok hregistered hdata hchannels
  · exact ⟨fun _ => ⟨(Bool.and_eq_true_iff.mp hok).1, hok⟩, rfl, Or.inr hdelta⟩
  · exact hbegun.waiting rfl _ _
  · exact hbegun.waiting rfl _ _
  · exact hbegun.waiting rfl _ _
  · exact hbegun.waiting rfl _ _
  · exact hbegun
  · exact ⟨nofun, ha.current, ha.delta⟩

theorem implInitializeForExternal_settled (e : SetUpAnswers) {a : Instance} (ha : Settled a) :
    Settled (implInitializeForExternal e a).2 := by
  unfold implInitializeForExternal
  split_ifs
  · exact ha
  · exact finishAttach_settled e true

theorem implAttachCore_settled (assetName configPath : Option String) (e : SetUpAnswers)
    {a : Instance} (ha : Settled a) : Settled (implAttachCore assetName configPath e a).2 := by
  unfold implAttachCore
  split_ifs
  · exact ha
  · exact ha
  · exact ha
  · exact finishAttach_settled e false
  · exact resetForAttach_settled false
  · exact resetForAttach_settled false

theorem implRegisterCallback_settled (callbacks : Callbacks) {a : Instance} (ha : Settled a) :
    Settled (implRegisterCallback callbacks a) := by
  unfold implRegisterCallback
  split_ifs
  · exact ha
  · exact ⟨ha.initialized, ha.current, ha.delta⟩

theorem register_settled (assetName configPath : Option String) (callbacks : Option Callbacks)
    (deltaUsec : HakoTime) (e : SetUpAnswers) {a : Instance} (ha : Settled a) :
    Settled (register assetName configPath callbacks deltaUsec e a).2 := by
  unfold register
  cases callbacks with
  | none =>
    dsimp only
    split_ifs
    · exact ha
    · exact ha
    · exact ha
  | some c =>
    dsimp only
    split_ifs with hname hconfig hboth hdelta hok
    · exact ha
    · exact ha
    · exact ha
    · exact ha
    · exact implRegisterCallback_settled c (implInit_settled (Int64.not_lt.mp hdelta) e ha)
    · exact implInit_settled (Int64.not_lt.mp hdelta) e ha

theorem setUpStep_settled {a : Instance} (ha : Settled a) (c : SetUpCall × SetUpAnswers) :
    Settled (setUpStep a c) := by
  obtain ⟨call, e⟩ := c
  cases call with
  | register assetName configPath callbacks deltaUsec =>
    exact register_settled assetName configPath callbacks deltaUsec e ha
  | attachCore =>
    change Settled (attachCore e a).2
    unfold attachCore
    split_ifs
    · exact ha
    · exact implInitializeForExternal_settled e ha
  | attachCoreWithName assetName configPath =>
    change Settled (attachCoreWithName assetName configPath e a).2
    unfold attachCoreWithName
    split_ifs
    · exact ha
    · exact ha
    · exact ha
    · exact implAttachCore_settled assetName configPath e ha
  | initializeForExternal => exact implInitializeForExternal_settled e ha

theorem afterSetUp_settled (calls : List (SetUpCall × SetUpAnswers)) : Settled (afterSetUp calls) :=
  run_invariant (I := Settled) (P := fun _ _ => True) (fun _ c ha _ => setUpStep_settled ha c)
    initial_settled (along_forall_iff.mpr fun _ _ => trivial)

@[simp] theorem Exit.faults_iff (x : Exit) :
    x.result.Faults ↔ x = .nullDereference ∨ x = .divisionByZero := by
  cases x <;> decide

theorem handleEvent_hakoAsset (event : AssetEvent) (a : Instance) :
    (handleEvent event a).hakoAsset = a.hakoAsset := by
  rw [handleEvent_same event a]

theorem waitEvent_noFault (target : AssetEvent) (env : List Answers) {a : Instance}
    (ha : a.hakoAsset = true) : ¬ (waitEvent target env a).exit.result.Faults := by
  induction env generalizing a with
  | nil => simp [waitEvent]
  | cons e env ih =>
    unfold waitEvent
    dsimp only
    split_ifs
    · simp
    · simp
    · simp
    · exact ih ((handleEvent_hakoAsset e.event a).trans ha)

theorem waitStopReset_noFault (env : List Answers) {a : Instance} (ha : a.hakoAsset = true) :
    ¬ (waitStopReset env a).exit.result.Faults := by
  have hstop : (waitEvent .stop env a).asset.hakoAsset = true := by
    rw [(waitEvent_idle .stop env a).same]
    exact ha
  unfold waitStopReset
  dsimp only
  split_ifs
  · simp
  · exact waitEvent_noFault .reset _ hstop
  · exact waitEvent_noFault .stop env ha

theorem proc_noFault (env : List Answers) {a : Instance} (ha : a.HasControllers) :
    ¬ (proc env a).exit.result.Faults := by
  induction env with
  | nil =>
    simp [proc, ha]
  | cons e env ih =>
    unfold proc
    cases hexec : execute e a with
    | nullDereference =>
      unfold execute at hexec
      dsimp only at hexec
      split_ifs at hexec
    | stepped b s => simp
    | refused =>
      dsimp only
      split_ifs
      · simp
      · exact ih
      · exact waitStopReset_noFault env ha.1

theorem proc_fault (env : List Answers) {a : Instance} (ha : ¬ a.HasControllers) :
    (proc env a).exit = .nullDereference := by
  cases env with
  | nil => rw [proc, if_neg ha]
  | cons e env =>
    rw [proc, execute, if_pos ha]

theorem proc_same (env : List Answers) (a : Instance) : SameButTime a (proc env a).asset := by
  have hend := proc_end env a
  generalize proc env a = r at hend
  cases hend with
  | stepped e b s rest hexec hshorter =>
    obtain ⟨-, -, rfl, -⟩ := execute_stepped hexec
    rfl
  | left r hleft => exact hleft.same

theorem stepUntil_same (target : HakoTime) (env : List Answers) (a : Instance) :
    SameButTime a (stepUntil target env a).asset := by
  induction env, a using stepUntil.induct target with
  | case1 env a hlt hdone ih =>
    rw [stepUntil, if_pos hlt, dif_pos hdone]
    exact (proc_same env a).trans ih
  | case2 env a hlt hdone =>
    rw [stepUntil, if_pos hlt, dif_neg hdone]
    exact proc_same env a
  | case3 env a hge =>
    rw [stepUntil, if_neg hge]
    rfl

theorem stepUntil_noFault (target : HakoTime) (env : List Answers) (a : Instance)
    (ha : a.HasControllers) : ¬ (stepUntil target env a).exit.result.Faults := by
  induction env, a using stepUntil.induct target with
  | case1 env a hlt hdone ih =>
    rw [stepUntil, if_pos hlt, dif_pos hdone]
    exact ih ((proc_same env a).hasControllers.mpr ha)
  | case2 env a hlt hdone =>
    rw [stepUntil, if_pos hlt, dif_neg hdone]
    exact proc_noFault env ha
  | case3 env a hge =>
    rw [stepUntil, if_neg hge]
    simp

theorem stepUntil_fault {target : HakoTime} (env : List Answers) {a : Instance}
    (ha : ¬ a.HasControllers) (hlt : a.currentUsec < target) :
    (stepUntil target env a).exit = .nullDereference := by
  have hfault := proc_fault env ha
  have hnot : (proc env a).exit ≠ .done := by simp [hfault]
  rw [stepUntil, if_pos hlt, dif_neg hnot, hfault]

theorem step_safe_iff {k : HakoTime} (env : List Answers) {a : Instance} :
    ¬ (step k env a).exit.result.Faults ↔
      a.HasControllers ∨ a.currentUsec + k * a.deltaUsec ≤ a.currentUsec := by
  by_cases ha : a.HasControllers
  · exact iff_of_true (stepUntil_noFault _ env a ha) (Or.inl ha)
  · by_cases hle : a.currentUsec + k * a.deltaUsec ≤ a.currentUsec
    · rw [step, stepUntil_reached env hle]
      exact iff_of_true (by simp) (Or.inr hle)
    · rw [step, stepUntil_fault env ha (Int64.not_le.mp hle)]
      exact iff_of_false (by simp) (not_or_intro ha hle)

theorem toInt_add_of_overflow {s t : HakoTime} (h : 2 ^ 63 ≤ s.toInt + t.toInt) :
    (s + t).toInt = s.toInt + t.toInt - 2 ^ 64 := by
  have hs := s.toInt_lt
  have ht := t.toInt_lt
  rw [Int64.toInt_add, ← Int.sub_bmod_right]
  exact bmod_of_fits ⟨by norm_num; omega, by norm_num; omega⟩

theorem tdiv_mul_pos_iff {s d : ℤ} (hd : 1 ≤ d) : 0 < s.tdiv d * d ↔ d ≤ s := by
  by_cases hs : 0 ≤ s
  · rw [Int.tdiv_eq_ediv_of_nonneg hs]
    have hquot : 1 ≤ s / d ↔ 1 * d ≤ s := Int.le_ediv_iff_mul_le (by omega)
    rw [Int.one_mul] at hquot
    rw [← hquot]
    constructor
    · exact fun hmul => Int.pos_of_mul_pos_left hmul (by omega)
    · exact fun hle => Int.mul_pos hle (by omega)
  · have hneg := Int.tdiv_nonneg (a := -s) (b := d) (by omega) (by omega)
    rw [Int.neg_tdiv] at hneg
    have hmul := Int.mul_nonpos_of_nonpos_of_nonneg (a := s.tdiv d) (b := d) (by omega) (by omega)
    exact iff_of_false (by omega) (by omega)

theorem tdiv_mul_fits {s d : ℤ} (hd : 1 ≤ d) (hs : Fits s) : Fits (s.tdiv d * d) := by
  have hsplit := Int.tdiv_mul_add_tmod s d
  unfold Fits at hs ⊢
  by_cases hpos : 0 ≤ s
  · have hlow := Int.tmod_nonneg d hpos
    have hquot := Int.mul_nonneg (Int.tdiv_nonneg hpos (by omega : 0 ≤ d)) (by omega : 0 ≤ d)
    omega
  · have hneg := Int.tmod_nonneg d (by omega : 0 ≤ -s)
    have hquot := (tdiv_mul_pos_iff (s := s) hd).not.mpr (by omega)
    rw [Int.neg_tmod] at hneg
    omega

/-- A sleep has something to do if it is positive, unless its sum overflows. -/
theorem sleep_target_le_iff {t d : HakoTime} (hd : 1 ≤ d) :
    0 + (t + (d - 1)) / d * d ≤ 0 ↔ t.toInt ≤ 0 ∨ ¬ Fits (t.toInt + d.toInt - 1) := by
  have hpos : 1 ≤ d.toInt := one_le_iff.mp hd
  have hquot := toInt_div_of_pos hd (t + (d - 1))
  have hfits : Fits ((0 : HakoTime).toInt + ((t + (d - 1)) / d).toInt * d.toInt) := by
    rw [hquot, Int64.toInt_zero, Int.zero_add]
    exact tdiv_mul_fits hpos (toInt_fits _)
  have htarget : 0 + (t + (d - 1)) / d * d ≤ 0 ↔ ¬ d.toInt ≤ (t + (d - 1)).toInt := by
    rw [← tdiv_mul_pos_iff hpos, Int64.le_iff_toInt_le, toInt_target hfits, hquot,
      Int64.toInt_zero, Int.zero_add, Int.not_lt]
  rw [htarget]
  have hlow := t.le_toInt
  have hhigh := t.toInt_lt
  have hdhigh := d.toInt_lt
  have hone := toInt_sub_one hd
  by_cases hsum : t.toInt + d.toInt - 1 < 2 ^ 63
  · have hsumfits : Fits (t.toInt + d.toInt - 1) := ⟨by omega, hsum⟩
    have hs : (t + (d - 1)).toInt = t.toInt + d.toInt - 1 := by
      rw [toInt_add_of_fits, hone]
      · omega
      · rwa [hone, ← Int.add_sub_assoc]
    rw [hs]
    simp only [hsumfits, not_true, or_false]
    omega
  · have hs : (t + (d - 1)).toInt = t.toInt + (d.toInt - 1) - 2 ^ 64 := by
      rw [toInt_add_of_overflow, hone]
      rw [hone]
      omega
    rw [hs]
    exact iff_of_true (by omega) (Or.inr fun hfits => hsum hfits.2)

theorem usleep_safe_iff (t : HakoTime) (env : List Answers) {a : Instance} (ha : Settled a) :
    ¬ (usleepNoWait t env a).exit.result.Faults ↔ SleepsWell a t := by
  unfold usleepNoWait SleepsWell
  by_cases hexternal : a.externalUse = true
  · simp [hexternal]
  rw [if_neg hexternal]
  rcases ha.delta with hzero | hdelta
  · have hnot : ¬ (1 : HakoTime) ≤ 0 := by decide
    by_cases ht : t = 0
    · rw [if_pos ht, step_safe_iff, hzero, ha.current]
      exact iff_of_true (Or.inr (by decide)) (Or.inr (Or.inl ⟨rfl, ht⟩))
    · simp [hexternal, hzero, ht, hnot]
  · have hpos : 1 ≤ a.deltaUsec.toInt := one_le_iff.mp hdelta
    have hne : a.deltaUsec ≠ 0 := by
      intro hzero
      rw [hzero] at hpos
      exact absurd hpos (by decide)
    by_cases ht : t = 0
    · have hstep : ¬ 0 + 1 * a.deltaUsec ≤ 0 := by
        rw [Int64.zero_add, Int64.one_mul, Int64.le_iff_toInt_le, Int64.toInt_zero]
        omega
      have hfits : Fits ((0 : HakoTime).toInt + a.deltaUsec.toInt - 1) := by
        have hhigh := a.deltaUsec.toInt_lt
        rw [Int64.toInt_zero]
        exact ⟨by omega, by omega⟩
      rw [if_pos ht, step_safe_iff, ha.current, ht]
      simp only [hexternal, hne, hdelta, hstep, hfits, Int64.lt_irrefl, not_true, false_and, or_false,
        false_or, true_and, Bool.false_eq_true]
    · have hneg : t < 0 ↔ t.toInt ≤ 0 := by
        have ht0 : t.toInt ≠ 0 := fun h => ht (Int64.toInt_inj.mp h)
        rw [Int64.lt_iff_toInt_lt, Int64.toInt_zero]
        omega
      rw [if_neg ht, if_neg hne, step_safe_iff, ha.current, sleep_target_le_iff hdelta, hneg]
      simp only [hexternal, hne, hdelta, false_and, false_or, true_and, Bool.false_eq_true]

theorem pduAccess_noFault (name : Option String) (buffer : Bool) (len : ℕ) (answer : Bool)
    {a : Instance} (ha : Settled a) : ¬ (pduAccess name buffer len answer a).Faults := by
  unfold pduAccess
  split_ifs with hinit hname hbuffer hasset hanswer
  · decide
  · decide
  · decide
  · decide
  · exact absurd (ha.initialized hinit).1 hasset
  · decide

theorem controllerTime_safe_iff (answer : HakoTime) (a : Instance) :
    ¬ (controllerTime answer a).Faults ↔ a.hakoAsset = true := by
  unfold controllerTime
  split_ifs with hasset
  · simp [Result.Faults, hasset]
  · simp [Result.Faults, hasset]

theorem grows_iff (env : List Answers) {a : Instance} (ha : a.deltaUsec = 0 ∨ 1 ≤ a.deltaUsec) :
    Grows env a ↔ 1 ≤ a.deltaUsec ∧ Fits (a.currentUsec.toInt + a.deltaUsec.toInt) := by
  have hstuck : a.currentUsec + 1 * a.deltaUsec ≤ a.currentUsec → ¬ Grows env a := by
    intro hle hgrows
    have hstep : step 1 env a = ⟨.done, a, [], env⟩ := stepUntil_reached env hle
    unfold Grows at hgrows
    rw [hstep] at hgrows
    exact Int64.lt_irrefl (hgrows rfl)
  rcases ha with hzero | hdelta
  · refine iff_of_false (hstuck ?_) fun h => ?_
    · rw [hzero, Int64.mul_zero, Int64.add_zero]
      exact Int64.le_refl _
    · rw [hzero] at h
      exact absurd h.1 (by decide)
  · have hpos : 1 ≤ a.deltaUsec.toInt := one_le_iff.mp hdelta
    have hlow := a.currentUsec.le_toInt
    have hhigh := a.deltaUsec.toInt_lt
    by_cases hsum : a.currentUsec.toInt + a.deltaUsec.toInt < 2 ^ 63
    · have hfits : Fits (a.currentUsec.toInt + a.deltaUsec.toInt) := ⟨by omega, hsum⟩
      refine iff_of_true (fun hdone => ?_) ⟨hdelta, hfits⟩
      have hone : Fits (a.currentUsec.toInt + (1 : HakoTime).toInt * a.deltaUsec.toInt) := by
        change Fits (_ + 1 * _)
        rwa [Int.one_mul]
      have hcurrent := ((step_paced env hdelta hone).2 hdone).current
      change _ = _ + 1 * _ at hcurrent
      rw [Int64.lt_iff_toInt_lt]
      omega
    · refine iff_of_false (hstuck ?_) fun h => hsum h.2.2
      have hoverflow := toInt_add_of_overflow (Int.not_lt.mp hsum)
      rw [Int64.one_mul, Int64.le_iff_toInt_le]
      omega

theorem waitUntil_asset (controller : Instance → Bool) (stopped ready : Answers → Bool)
    (env : List Answers) (a : Instance) : (waitUntil controller stopped ready env a).asset = a := by
  induction env with
  | nil => rfl
  | cons e env ih =>
    unfold waitUntil
    split_ifs
    · rfl
    · rfl
    · exact ih
    · rfl

theorem waitUntil_noFault {controller : Instance → Bool} (stopped ready : Answers → Bool)
    (env : List Answers) {a : Instance} (ha : controller a = true) :
    ¬ (waitUntil controller stopped ready env a).exit.result.Faults := by
  induction env with
  | nil => simp [waitUntil]
  | cons e env ih =>
    unfold waitUntil
    split_ifs
    · simp
    · simp
    · exact ih

theorem waitRunning_same (env : List Answers) (a : Instance) :
    SameButTime a (waitRunning env a).asset := by
  have hevent := (waitEvent_idle .start env a).same
  unfold waitRunning waitState waitPduCreated
  dsimp only
  split_ifs
  · rwa [waitUntil_asset, waitUntil_asset]
  · rwa [waitUntil_asset]
  · exact hevent

theorem waitRunning_noFault (env : List Answers) {a : Instance} (ha : a.HasControllers) :
    ¬ (waitRunning env a).exit.result.Faults := by
  have hcontrollers := (waitEvent_idle .start env a).same.hasControllers.mpr ha
  unfold waitRunning waitState waitPduCreated
  dsimp only
  split_ifs
  · rw [waitUntil_asset]
    exact waitUntil_noFault _ _ _ hcontrollers.1
  · exact waitUntil_noFault _ _ _ hcontrollers.2
  · exact waitEvent_noFault .start env ha.1

theorem afterWaiting_noFault {r : Outcome} (hr : ¬ r.exit.result.Faults) {x : Result}
    (h : afterWaiting r = .returned x) : ¬ x.Faults := by
  unfold afterWaiting at h
  split at h
  · cases h
    exact hr
  · cases h
    decide
  · split_ifs at h

theorem afterWaiting_looping {r : Outcome} {b : Instance} {rest : List Answers}
    (h : afterWaiting r = .looping b rest) : b = r.asset := by
  unfold afterWaiting at h
  split at h
  · cases h
  · cases h
  · split_ifs at h
    cases h
    rfl

theorem startNoWait_noFault {stopped : Bool} {env : List Answers} {a : Instance} (ha : Settled a)
    {x : Result} (h : startNoWait stopped env a = .returned x) : ¬ x.Faults := by
  unfold startNoWait at h
  split_ifs at h with hinit hsim hstopped
  · exact afterWaiting_noFault (waitRunning_noFault env (ha.initialized hinit)) h
  · cases h
    decide
  · exact absurd (ha.initialized hinit).2 hsim
  · cases h
    decide

theorem startNoWait_looping {stopped : Bool} {env rest : List Answers} {a b : Instance}
    (h : startNoWait stopped env a = .looping b rest) : a.isInitialized = true ∧ SameButTime a b := by
  unfold startNoWait at h
  split_ifs at h with hinit hsim hstopped
  rw [afterWaiting_looping h]
  exact ⟨hinit, waitRunning_same env a⟩

theorem iterates_same {stopped : Bool} {env rest : List Answers} {a b : Instance}
    (h : Iterates stopped env a b rest) : a.isInitialized = true ∧ SameButTime a b := by
  induction h with
  | first b rest hstarted => exact startNoWait_looping hstarted
  | next b rest hbefore hsucceeded ih => exact ⟨ih.1, ih.2.trans (stepUntil_same _ _ _)⟩

theorem start_safe_iff (stopped : Bool) (env : List Answers) {a : Instance} (ha : Settled a) :
    Safe a (.start stopped env) ↔ SafeWhen a (.start stopped env) := by
  constructor
  · intro hsafe b rest hb
    have hdelta : b.deltaUsec = a.deltaUsec := by rw [(iterates_same hb).2]
    exact (grows_iff rest (hdelta ▸ ha.delta)).mp (hsafe.2 b rest hb).2
  · intro hneeds
    refine ⟨fun x hx => startNoWait_noFault ha hx, fun b rest hb => ?_⟩
    obtain ⟨hinit, hsame⟩ := iterates_same hb
    have hdelta : b.deltaUsec = a.deltaUsec := by rw [hsame]
    exact ⟨stepUntil_noFault _ rest b (hsame.hasControllers.mpr (ha.initialized hinit)),
      (grows_iff rest (hdelta ▸ ha.delta)).mpr (hneeds b rest hb)⟩

/-- After every sequence of set-up calls, a call is safe exactly when the instance has what it
needs. -/
theorem callback_api_safe_iff (calls : List (SetUpCall × SetUpAnswers)) (c : FollowingCall) :
    Safe (afterSetUp calls) c ↔ SafeWhen (afterSetUp calls) c := by
  have ha := afterSetUp_settled calls
  cases c with
  | usleep t env => exact usleep_safe_iff t env ha
  | simulationTime t => exact controllerTime_safe_iff t _
  | minAssetTime t => exact controllerTime_safe_iff t _
  | pduRead name buffer len answer =>
    exact iff_of_true (pduAccess_noFault name buffer len answer ha) trivial
  | pduWrite name buffer len answer =>
    exact iff_of_true (pduAccess_noFault name buffer len answer ha) trivial
  | start stopped env => exact start_safe_iff stopped env ha

def allSucceed : SetUpAnswers := ⟨true, true, true, true, true, true, true, true⟩

def toRunning : List Answers := [{ inTime 0 with event := .start }, inTime 0, inTime 0]

def attachment : SetUpCall × SetUpAnswers :=
  (.attachCoreWithName (some "drone") (some "config.json"), allSucceed)

def attachedInstance : Instance := ⟨true, false, 0, 0, none, true, true⟩

/-- A sleep and a question for the time before any set-up; a sleep after an attachment, and a start
that never moves. -/
theorem unsafe_calls :
    ¬ Safe (afterSetUp []) (.usleep 1 []) ∧
    ¬ Safe (afterSetUp []) (.simulationTime 0) ∧
    ¬ Safe (afterSetUp [attachment]) (.usleep 1 []) ∧
    ¬ Safe (afterSetUp [attachment]) (.start true toRunning) := by
  have hbegins : Iterates true toRunning attachedInstance attachedInstance [] := .first _ _ rfl
  refine ⟨not_not_intro (by decide), not_not_intro (by decide), not_not_intro (by decide), ?_⟩
  intro hsafe
  have hgrows := (hsafe.2 attachedInstance [] hbegins).2
  exact absurd ((grows_iff [] (Or.inl rfl)).mp hgrows).1 (by decide)

end CallbackAsset
end HakoniwaCorePro
