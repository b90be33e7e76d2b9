import HakoniwaCorePro.Runs

/-!
# Attaching to the core

The process-wide pointers of `hako_pro.cpp` and the calls that fill and clear them. What is
outside, the configuration file, the master memory and the memory of the session tables, is
free to answer differently at each call; a call that throws or dereferences a null pointer says
so in its outcome.
-/

namespace HakoniwaCorePro
namespace Attach

open Runs

/-- `hako_config_load`: the file is read, or missing (`config.param` is null), or reading it
throws, or it has no `shm_type` that is a string, which throws when that is looked up. -/
inductive Config
  | found | missing | unreadable | untyped
  deriving DecidableEq

/-- What the outside answers during one call. -/
structure Surroundings where
  config : Config
  load : Bool
  createSessionMemory : Bool
  isMaster : Bool

/-- `HakoMasterData`, which is made empty and then loaded or created. -/
structure MasterData where
  attached : Bool
  deriving DecidableEq

/-- `HakoProData`, with or without the session tables. -/
structure ProData where
  sessionTables : Bool
  deriving DecidableEq

/-- `master_data_ptr`, `pro_data_ptr`, `asset_ptr` and `simevent_ptr`. -/
structure Pointers where
  masterData : Option MasterData
  proData : Option ProData
  asset : Bool
  simevent : Bool
  deriving DecidableEq

def Pointers.null : Pointers := ⟨none, none, false, false⟩

/-- `returned false` is false or a null controller. -/
inductive Outcome
  | returned (ok : Bool)
  | threw
  | nullDereference
  deriving DecidableEq

inductive Call
  | init | createAssetController | getSimeventController | destroy
  deriving DecidableEq

/-- The second half of `init`. -/
def initProData (e : Surroundings) (s : Pointers) : Pointers × Outcome :=
  match s.proData with
  | some _ => (s, .returned true)
  | none =>
    ({ s with proData := some ⟨e.createSessionMemory⟩ }, .returned e.createSessionMemory)

/-- `master_data_ptr` is set before the type of the memory is looked up. -/
def init (e : Surroundings) (s : Pointers) : Pointers × Outcome :=
  match s.masterData with
  | some _ => initProData e s
  | none =>
    match e.config with
    | .unreadable => (s, .threw)
    | .untyped => ({ s with masterData := some ⟨false⟩ }, .threw)
    | .found | .missing => initProData e { s with masterData := some ⟨true⟩ }

/-- What the two controllers do while there is no master data; `none` is that they go on. The
pointer is set before anything can fail. -/
def loadMasterData (e : Surroundings) (s : Pointers) : Pointers × Option Outcome :=
  match s.masterData with
  | some _ => (s, none)
  | none =>
    let s' := { s with masterData := some ⟨false⟩ }
    match e.config with
    | .unreadable | .untyped => (s', some .threw)
    | .missing => (s', some (.returned false))
    | .found =>
      if e.load then
        ({ s with
            masterData := some ⟨true⟩
            proData := some (s.proData.getD ⟨false⟩) }, none)
      else (s', some (.returned false))

/-- `create_asset_controller`; the extension is asked of `pro_data_ptr` without a test. -/
def createAssetController (e : Surroundings) (s : Pointers) : Pointers × Outcome :=
  if s.asset then (s, .returned true)
  else
    match loadMasterData e s with
    | (s', some o) => (s', o)
    | (s', none) =>
      ({ s' with asset := true },
        if s'.proData.isSome then .returned true else .nullDereference)

/-- `get_simevent_controller` -/
def getSimeventController (e : Surroundings) (s : Pointers) : Pointers × Outcome :=
  if s.simevent then (s, .returned true)
  else
    match loadMasterData e s with
    | (s', some o) => (s', o)
    | (s', none) => ({ s' with simevent := true }, .returned true)

/-- `destroy` asks the master data for the conductor's process, whether there is one or not. -/
def destroy (e : Surroundings) (s : Pointers) : Pointers × Outcome :=
  match s.masterData with
  | none => (s, .nullDereference)
  | some _ => (if e.isMaster then .null else s, .returned true)

def perform (s : Pointers) (c : Call × Surroundings) : Pointers × Outcome :=
  match c.1 with
  | .init => init c.2 s
  | .createAssetController => createAssetController c.2 s
  | .getSimeventController => getSimeventController c.2 s
  | .destroy => destroy c.2 s

def attachStep (s : Pointers) (c : Call × Surroundings) : Pointers := (perform s c).1

/-- The master data was loaded or created. -/
def Pointers.Attached (s : Pointers) : Prop := s.masterData = some ⟨true⟩

def Pointers.HasTables (s : Pointers) : Prop := s.proData = some ⟨true⟩

/-- What a call that returned its controller, or true, promises. -/
def Promised (s : Pointers) : Call → Prop
  | .init => s.Attached ∧ s.HasTables
  | .createAssetController | .getSimeventController => s.Attached
  | .destroy => True

def Surroundings.Works (e : Surroundings) : Prop :=
  e.config = .found ∧ e.load = true ∧ e.createSessionMemory = true

/-- The call, made with everything working, returns what a first call would. -/
def Succeeds (s : Pointers) (c : Call) : Prop :=
  ∀ e : Surroundings, e.Works →
    (perform s (c, e)).2 = (perform .null (c, e)).2 ∧ Promised (perform s (c, e)).1 c

/-- No null pointer is dereferenced; what is returned can be used; what failed can be retried. -/
def KeepsContract (s : Pointers) (c : Call × Surroundings) : Prop :=
  let r := perform s c
  r.2 ≠ .nullDereference ∧ (r.2 = .returned true → Promised r.1 c.1) ∧
    (r.2 = .returned false ∨ r.2 = .threw → Succeeds r.1 c.1)

/-- The first call finds the configuration, and what it loads or creates; the conductor does not
attach as an asset first; `destroy` is called when there is something to destroy. -/
def Orderly (s : Pointers) (c : Call × Surroundings) : Prop :=
  match c.1 with
  | .init => s.proData ≠ some ⟨false⟩ ∧ (s.masterData = none → c.2.config = .unreadable ∨
      c.2.config ≠ .untyped ∧ c.2.createSessionMemory = true)
  | .createAssetController | .getSimeventController =>
    s.masterData = none → c.2.config = .found ∧ c.2.load = true
  | .destroy => s.masterData ≠ none

/-- All pointers are null, or the data is attached and the extension made. -/
inductive Settled : Pointers → Prop
  | null : Settled .null
  | attached (tables asset simevent : Bool) :
      Settled ⟨some ⟨true⟩, some ⟨tables⟩, asset, simevent⟩

def unattached : Pointers := ⟨some ⟨false⟩, none, false, false⟩

def working : Surroundings := ⟨.found, true, true, true⟩

theorem working_works : working.Works := ⟨rfl, rfl, rfl⟩

theorem unattached_not_succeeds {c : Call} (hc : c ≠ .destroy) : ¬ Succeeds unattached c := by
  intro h
  obtain ⟨houtcome, hpromised⟩ := h working working_works
  cases c with
  | init => exact nomatch hpromised.1
  | createAssetController => exact nomatch houtcome
  | getSimeventController => exact nomatch hpromised
  | destroy => exact hc rfl

theorem without_tables_not_succeeds (asset simevent : Bool) :
    ¬ Succeeds ⟨some ⟨true⟩, some ⟨false⟩, asset, simevent⟩ .init := by
  intro h
  have htables := (h working working_works).2.2
  simp [Pointers.HasTables, perform, init, initProData] at htables

theorem null_succeeds (c : Call) (hc : c ≠ .destroy) : Succeeds .null c := by
  rintro ⟨config, load, session, isMaster⟩ ⟨rfl, rfl, rfl⟩
  refine ⟨rfl, ?_⟩
  cases c with
  | init => exact ⟨rfl, rfl⟩
  | createAssetController => rfl
  | getSimeventController => rfl
  | destroy => exact absurd rfl hc

theorem null_init_iff (e : Surroundings) :
    KeepsContract .null (.init, e) ↔ Orderly .null (.init, e) := by
  obtain ⟨config, load, session, isMaster⟩ := e
  cases config with
  | unreadable =>
    refine iff_of_true ⟨nofun, nofun, fun _ => null_succeeds .init (by decide)⟩ ?_
    exact ⟨nofun, fun _ => Or.inl rfl⟩
  | untyped =>
    refine iff_of_false (fun h => ?_) fun h => ?_
    · exact unattached_not_succeeds (c := .init) (by decide) (h.2.2 (Or.inr rfl))
    · simp [Orderly, Pointers.null] at h
  | found | missing =>
    cases session with
    | true => exact iff_of_true ⟨nofun, fun _ => ⟨rfl, rfl⟩, nofun⟩ (by simp [Orderly, Pointers.null])
    | false =>
      refine iff_of_false (fun h => ?_) (by simp [Orderly, Pointers.null])
      exact without_tables_not_succeeds false false (h.2.2 (Or.inl rfl))

theorem loadMasterData_null (e : Surroundings) :
    ((e.config = .found ∧ e.load = true) ∧
      loadMasterData e .null = (⟨some ⟨true⟩, some ⟨false⟩, false, false⟩, none)) ∨
    (¬ (e.config = .found ∧ e.load = true) ∧ ∃ o, (o = .returned false ∨ o = .threw) ∧
      loadMasterData e .null = (unattached, some o)) := by
  obtain ⟨config, load, session, isMaster⟩ := e
  cases config with
  | found =>
    cases load with
    | true => exact Or.inl ⟨⟨rfl, rfl⟩, rfl⟩
    | false => exact Or.inr ⟨nofun, .returned false, Or.inl rfl, rfl⟩
  | missing => exact Or.inr ⟨nofun, .returned false, Or.inl rfl, rfl⟩
  | unreadable => exact Or.inr ⟨nofun, .threw, Or.inr rfl, rfl⟩
  | untyped => exact Or.inr ⟨nofun, .threw, Or.inr rfl, rfl⟩

theorem keepsContract_failed_iff {s s' : Pointers} {c : Call × Surroundings} {o : Outcome}
    (ho : o = .returned false ∨ o = .threw) (hperform : perform s c = (s', o)) :
    KeepsContract s c ↔ Succeeds s' c.1 := by
  rw [KeepsContract, hperform]
  rcases ho with rfl | rfl
  · simp
  · simp

theorem keepsContract_returned_iff {s s' : Pointers} {c : Call × Surroundings}
    (hperform : perform s c = (s', .returned true)) : KeepsContract s c ↔ Promised s' c.1 := by
  rw [KeepsContract, hperform]
  simp

theorem null_createAssetController_iff (e : Surroundings) :
    KeepsContract .null (.createAssetController, e) ↔ Orderly .null (.createAssetController, e) := by
  rcases loadMasterData_null e with ⟨hloads, heq⟩ | ⟨hfails, o, ho, heq⟩
  · have hperform : perform .null (.createAssetController, e) =
        (⟨some ⟨true⟩, some ⟨false⟩, true, false⟩, .returned true) := by
      simp only [perform, createAssetController, heq]
      rfl
    rw [keepsContract_returned_iff hperform]
    exact iff_of_true rfl fun _ => hloads
  · have hperform : perform .null (.createAssetController, e) = (unattached, o) := by
      simp only [perform, createAssetController, heq]
      rfl
    rw [keepsContract_failed_iff ho hperform]
    exact iff_of_false (unattached_not_succeeds nofun) fun h => hfails (h rfl)

theorem null_getSimeventController_iff (e : Surroundings) :
    KeepsContract .null (.getSimeventController, e) ↔ Orderly .null (.getSimeventController, e) := by
  rcases loadMasterData_null e with ⟨hloads, heq⟩ | ⟨hfails, o, ho, heq⟩
  · have hperform : perform .null (.getSimeventController, e) =
        (⟨some ⟨true⟩, some ⟨false⟩, false, true⟩, .returned true) := by
      simp only [perform, getSimeventController, heq]
      rfl
    rw [keepsContract_returned_iff hperform]
    exact iff_of_true rfl fun _ => hloads
  · have hperform : perform .null (.getSimeventController, e) = (unattached, o) := by
      simp only [perform, getSimeventController, heq]
      rfl
    rw [keepsContract_failed_iff ho hperform]
    exact iff_of_false (unattached_not_succeeds nofun) fun h => hfails (h rfl)

theorem attached_perform (tables asset simevent : Bool) (c : Call × Surroundings) :
    ∃ s', perform ⟨some ⟨true⟩, some ⟨tables⟩, asset, simevent⟩ c = (s', .returned true) ∧
      Settled s' ∧ (c.1 ≠ .destroy → s'.Attached ∧ s'.proData = some ⟨tables⟩) := by
  obtain ⟨call, e⟩ := c
  cases call with
  | init => exact ⟨_, rfl, .attached tables asset simevent, fun _ => ⟨rfl, rfl⟩⟩
  | createAssetController =>
    refine ⟨⟨some ⟨true⟩, some ⟨tables⟩, true, simevent⟩, ?_, .attached _ _ _, fun _ => ⟨rfl, rfl⟩⟩
    cases asset <;> rfl
  | getSimeventController =>
    refine ⟨⟨some ⟨true⟩, some ⟨tables⟩, asset, true⟩, ?_, .attached _ _ _, fun _ => ⟨rfl, rfl⟩⟩
    cases simevent <;> rfl
  | destroy =>
    obtain ⟨config, load, session, isMaster⟩ := e
    cases isMaster with
    | true => exact ⟨.null, rfl, .null, fun h => absurd rfl h⟩
    | false => exact ⟨_, rfl, .attached tables asset simevent, fun h => absurd rfl h⟩

theorem keepsContract_iff {s : Pointers} (hs : Settled s) (c : Call × Surroundings) :
    KeepsContract s c ↔ Orderly s c := by
  cases hs with
  | null =>
    obtain ⟨call, e⟩ := c
    cases call with
    | init => exact null_init_iff e
    | createAssetController => exact null_createAssetController_iff e
    | getSimeventController => exact null_getSimeventController_iff e
    | destroy => exact iff_of_false (fun h => h.1 rfl) fun h => h rfl
  | attached tables asset simevent =>
    obtain ⟨s', hperform, -, hattached⟩ := attached_perform tables asset simevent c
    rw [keepsContract_returned_iff hperform]
    obtain ⟨call, e⟩ := c
    cases call with
    | init =>
      obtain ⟨hmaster, hpro⟩ := hattached nofun
      cases tables with
      | true => exact iff_of_true ⟨hmaster, hpro⟩ ⟨by simp, nofun⟩
      | false => exact iff_of_false (fun h => nomatch hpro.symm.trans h.2) fun h => h.1 rfl
    | createAssetController => exact iff_of_true (hattached nofun).1 nofun
    | getSimeventController => exact iff_of_true (hattached nofun).1 nofun
    | destroy => exact iff_of_true trivial nofun

theorem settled_step {s : Pointers} {c : Call × Surroundings} (hs : Settled s)
    (hc : Orderly s c) : Settled (attachStep s c) := by
  cases hs with
  | attached tables asset simevent =>
    obtain ⟨s', hperform, hsettled, -⟩ := attached_perform tables asset simevent c
    rwa [attachStep, hperform]
  | null =>
    obtain ⟨call, config, load, session, isMaster⟩ := c
    cases call with
    | init =>
      obtain ⟨-, hconfig⟩ := hc
      rcases hconfig rfl with hun | ⟨htyped, hsession⟩
      · cases hun
        exact .null
      · cases hsession
        cases config with
        | unreadable => exact .null
        | untyped => exact absurd rfl htyped
        | found => exact .attached true false false
        | missing => exact .attached true false false
    | createAssetController =>
      obtain ⟨hfound, hload⟩ := hc rfl
      cases hfound
      cases hload
      exact .attached false true false
    | getSimeventController =>
      obtain ⟨hfound, hload⟩ := hc rfl
      cases hfound
      cases hload
      exact .attached false false true
    | destroy => exact absurd rfl hc

/-- In one process, from its start: all calls keep the contract if and only if all are orderly. -/
theorem attach_contract_iff (calls : List (Call × Surroundings)) :
    Along attachStep KeepsContract .null calls ↔ Along attachStep Orderly .null calls :=
  along_iff_of_invariant (I := Settled)
    (fun _ c hs hkeeps => settled_step hs ((keepsContract_iff hs c).mp hkeeps))
    (fun _ c hs => keepsContract_iff hs c) .null

/-- An asset that starts before the conductor: its first attempt finds no master memory. -/
theorem asset_before_conductor :
    ¬ Along attachStep KeepsContract .null
      [(.createAssetController, ⟨.found, false, true, false⟩), (.createAssetController, working)] := by
  rintro ⟨-, ⟨hdereference, -⟩, -⟩
  exact hdereference rfl

end Attach
end HakoniwaCorePro
