import HakoniwaCorePro.MissCache
import HakoniwaCorePro.ServiceLoad

/-!
# The index of service names

Any process may rewrite the shared table with `set_service_data`, which rebuilds its own index
from names to ids; the others rebuild theirs when a name is not in it, and else answer from it.
The index is a cache that is filled on a miss.
-/

namespace HakoniwaCorePro
namespace Service

open RecvEvent Runs

/-- `get_service_entry`: the place of the entry, `none` where it throws. -/
def getServiceEntry (name : Name) (t : ServiceTable) (ix : NameIndex) : NameIndex × Option ℕ :=
  getServiceId name t ix

def isExistService (name : Name) (t : ServiceTable) (ix : NameIndex) : NameIndex × Bool :=
  let ix := if (ix name).isNone then rebuildServiceNameIndexes t else ix
  (ix, (ix name).isSome)

inductive LookupFunction
  | getServiceId | getServiceEntry | isExistService
  deriving DecidableEq

/-- An entry of the table or that there is none, or whether there is one. -/
inductive LookupAnswer
  | place (i : Option ℕ)
  | exist (b : Bool)
  deriving DecidableEq

def LookupFunction.call (f : LookupFunction) (name : Name) (t : ServiceTable) (ix : NameIndex) :
    NameIndex × LookupAnswer :=
  match f with
  | .getServiceId => ((Service.getServiceId name t ix).1, .place (Service.getServiceId name t ix).2)
  | .getServiceEntry =>
    ((Service.getServiceEntry name t ix).1, .place (Service.getServiceEntry name t ix).2)
  | .isExistService =>
    ((Service.isExistService name t ix).1, .exist (Service.isExistService name t ix).2)

/-- `load` is `on_pdu_data_load`, by which a process attaches to the table. -/
inductive LookupAction
  | setServiceData (pid : Pid) (services : List ServiceDef)
  | load (pid : Pid)
  | lookup (f : LookupFunction) (pid : Pid) (name : Name)

/-- The shared table and the index of each process. `builtFrom` is the table as it was when the
index was built: the code has nothing like it. -/
structure Lookups where
  table : ServiceTable
  index : Pid → NameIndex
  builtFrom : Pid → ServiceTable

def Lookups.start (t : ServiceTable) : Lookups := ⟨t, fun _ _ => none, fun _ => World.start.services⟩

def Lookups.rebuild (pid : Pid) (w : Lookups) : Lookups :=
  { w with
    index := Function.update w.index pid (rebuildServiceNameIndexes w.table)
    builtFrom := Function.update w.builtFrom pid w.table }

def Lookups.call (f : LookupFunction) (pid : Pid) (name : Name) (w : Lookups) :
    NameIndex × LookupAnswer :=
  f.call name w.table (w.index pid)

def lookupStep (w : Lookups) : LookupAction → Lookups
  | .setServiceData pid services =>
    Lookups.rebuild pid { w with table := setServiceData services w.table }
  | .load pid => w.rebuild pid
  | .lookup f pid name =>
    { w with
      index := Function.update w.index pid (w.call f pid name).1
      builtFrom := Function.update w.builtFrom pid
        (if (w.index pid name).isNone then w.table else w.builtFrom pid) }

def LookupAnswer.Right (t : ServiceTable) (name : Name) : LookupAnswer → Prop
  | .place i => MissCache.Right ServiceTable.Carries t name i
  | .exist b => b = true ↔ ∃ i, t.Carries name i

/-- What is answered is what a scan of the table answers now. -/
def AnsweredRight (w : Lookups) : LookupAction → Prop
  | .lookup f pid name => (w.call f pid name).2.Right w.table name
  | _ => True

/-- The entry is still in the table, under the name it had in `old`. -/
def ServiceTable.StillNamed (old t : ServiceTable) (i : ℕ) : Prop :=
  i < t.entryNum ∧ (t.entries i).serviceName = (old.entries i).serviceName

/-- Nobody has moved, since the process built its index, the service that the index holds. Whether
there is a service is answered right as long as it has not been removed. -/
def Unmoved (w : Lookups) : LookupAction → Prop
  | .lookup .isExistService pid name =>
    (w.index pid name).isSome → ∃ i, w.table.Carries name i
  | .lookup _ pid name => ∀ i, w.index pid name = some i → (w.builtFrom pid).StillNamed w.table i
  | _ => True

def Lookups.toCache (w : Lookups) : MissCache.State Pid ServiceTable := ⟨w.table, w.builtFrom⟩

def LookupAction.toCache : LookupAction → MissCache.Action Pid ServiceTable Name
  | .setServiceData pid services => .rewrite pid (Service.setServiceData services)
  | .load pid => .fill pid
  | .lookup _ pid name => .lookup pid name

def Lookups.Indexed (w : Lookups) : Prop :=
  ∀ pid, w.index pid = rebuildServiceNameIndexes (w.builtFrom pid)

theorem rebuild_right (t : ServiceTable) (name : Name) :
    MissCache.Right ServiceTable.Carries t name (rebuildServiceNameIndexes t name) := by
  constructor
  case some => exact fun i hi => rebuild_carries hi
  case none => exact (rebuild_none_iff t name).mp

theorem call_index (f : LookupFunction) (name : Name) (t : ServiceTable) (ix : NameIndex) :
    (f.call name t ix).1 = if (ix name).isNone then rebuildServiceNameIndexes t else ix := by
  have hget : (Service.getServiceId name t ix).1 =
      if (ix name).isNone then rebuildServiceNameIndexes t else ix := by
    cases h : ix name with
    | none => simp [getServiceId_of_none h]
    | some i => simp [getServiceId_of_some h]
  cases f with
  | getServiceId => exact hget
  | getServiceEntry => exact hget
  | isExistService => rfl

theorem update_indexed {w : Lookups} (h : w.Indexed) (pid : Pid) (t : ServiceTable) (p : Pid) :
    Function.update w.index pid (rebuildServiceNameIndexes t) p =
      rebuildServiceNameIndexes (Function.update w.builtFrom pid t p) := by
  by_cases hp : p = pid
  · subst hp
    simp
  · simpa [hp] using h p

theorem lookupStep_indexed {w : Lookups} (h : w.Indexed) (a : LookupAction) :
    (lookupStep w a).Indexed := by
  cases a with
  | setServiceData pid services => exact update_indexed h pid _
  | load pid => exact update_indexed h pid _
  | lookup f pid name =>
    have hbuilt : (w.call f pid name).1 = rebuildServiceNameIndexes
        (if (w.index pid name).isNone then w.table else w.builtFrom pid) := by
      rw [Lookups.call, call_index]
      split
      · rfl
      · exact h pid
    intro p
    simp only [lookupStep, hbuilt]
    exact update_indexed h pid _ p

theorem lookupStep_toCache {w : Lookups} (h : w.Indexed) (a : LookupAction) :
    (lookupStep w a).toCache = MissCache.step rebuildServiceNameIndexes w.toCache a.toCache := by
  cases a with
  | setServiceData pid services => rfl
  | load pid => rfl
  | lookup f pid name =>
    simp only [LookupAction.toCache, MissCache.step, Lookups.toCache, lookupStep, ← h pid]
    cases w.index pid name with
    | none => rfl
    | some i => simp

theorem getServiceId_toCache {w : Lookups} (h : w.Indexed) (pid : Pid) (name : Name) :
    (Service.getServiceId name w.table (w.index pid)).2 =
      MissCache.answer rebuildServiceNameIndexes w.toCache pid name := by
  simp only [MissCache.answer, Lookups.toCache, ← h pid]
  cases hix : w.index pid name with
  | none => rw [getServiceId_of_none hix, Option.none_or]
  | some i => rw [getServiceId_of_some hix, Option.some_or]

theorem isExistService_toCache {w : Lookups} (h : w.Indexed) (pid : Pid) (name : Name) :
    (Service.isExistService name w.table (w.index pid)).2 =
      (MissCache.answer rebuildServiceNameIndexes w.toCache pid name).isSome := by
  simp only [MissCache.answer, Lookups.toCache, ← h pid, Service.isExistService]
  cases hix : w.index pid name with
  | none => simp
  | some i => simp [hix]

/-- No entry is disabled any more once it was filled. -/
def ServiceTable.EnabledKept (old t : ServiceTable) : Prop :=
  ∀ i, (old.entries i).enabled = true → (t.entries i).enabled = true

theorem setServiceEntries_enabledKept (ss : List ServiceDef) {es : ℕ → ServiceEntry} (i : ℕ)
    {k : ℕ} (hk : (es k).enabled = true) : (setServiceEntries i ss es k).enabled = true := by
  induction ss generalizing i es with
  | nil => exact hk
  | cons s ss ih =>
    have hupdate : ∀ e : ServiceEntry, e.enabled = true →
        (Function.update es i e k).enabled = true := by
      intro e he
      by_cases hki : k = i
      · subst hki
        simpa using he
      · simpa [hki] using hk
    rw [setServiceEntries]
    split
    · exact hupdate _ rfl
    · exact ih (i + 1) (hupdate _ rfl)

/-- Every index was built from the table that is noted, no entry of which has been disabled. -/
structure Lookups.Ok (w : Lookups) : Prop where
  indexed : w.Indexed
  enabled : ∀ pid, (w.builtFrom pid).EnabledKept w.table

theorem lookupStep_ok {w : Lookups} (h : w.Ok) (a : LookupAction) : (lookupStep w a).Ok := by
  constructor
  case indexed => exact lookupStep_indexed h.indexed a
  case enabled =>
    have hkept : ∀ pid, ServiceTable.EnabledKept (((lookupStep w a).toCache).seen pid)
        ((lookupStep w a).toCache).store := by
      rw [lookupStep_toCache h.indexed]
      apply MissCache.step_kept
      · intro t i hi
        exact hi
      · intro t u v htu huv i hi
        exact huv i (htu i hi)
      · intro p f ha t i hi
        cases a with
        | setServiceData pid services =>
          obtain ⟨-, rfl⟩ := MissCache.Action.rewrite.inj ha
          exact setServiceEntries_enabledKept services 0 hi
        | load pid => cases ha
        | lookup g pid name => cases ha
      · exact h.enabled
    exact hkept

theorem start_indexOk (t : ServiceTable) : (Lookups.start t).Ok := by
  constructor
  case indexed => exact fun pid => rfl
  case enabled =>
    intro pid i hi
    cases hi

theorem carries_iff_stillNamed {old t : ServiceTable} (h : old.EnabledKept t) {name : Name} {i : ℕ}
    (hi : rebuildServiceNameIndexes old name = some i) :
    t.Carries name i ↔ old.StillNamed t i := by
  obtain ⟨-, henabled, hname⟩ := rebuild_carries hi
  constructor
  · rintro ⟨hlt, -, hnow⟩
    exact ⟨hlt, hnow.trans hname.symm⟩
  · rintro ⟨hlt, hnow⟩
    exact ⟨hlt, h i henabled, hnow.trans hname⟩

theorem place_right_iff {w : Lookups} (h : w.Ok) (pid : Pid) (name : Name) :
    LookupAnswer.Right w.table name (.place (Service.getServiceId name w.table (w.index pid)).2) ↔
      ∀ i, w.index pid name = some i → (w.builtFrom pid).StillNamed w.table i := by
  rw [getServiceId_toCache h.indexed, h.indexed pid]
  have hright : MissCache.Right ServiceTable.Carries w.table name _ ↔ _ :=
    MissCache.right_answer_iff rebuild_right w.toCache pid name
  simp only [LookupAnswer.Right]
  rw [hright]
  apply forall_congr'
  intro i
  apply imp_congr_right
  intro hi
  exact carries_iff_stillNamed (h.enabled pid) hi

theorem answeredRight_iff {w : Lookups} (h : w.Ok) (a : LookupAction) :
    AnsweredRight w a ↔ Unmoved w a := by
  cases a with
  | setServiceData pid services => rfl
  | load pid => rfl
  | lookup f pid name =>
    cases f with
    | getServiceId => exact place_right_iff h pid name
    | getServiceEntry => exact place_right_iff h pid name
    | isExistService =>
      have hright := MissCache.answer_isSome_iff rebuild_right w.toCache pid name
      rw [← isExistService_toCache h.indexed] at hright
      simp only [Unmoved, h.indexed pid]
      exact hright

/-- Every lookup of a run answers right if and only if each is made while nobody has moved what
the index of its process holds. -/
theorem lookups_right_iff (t : ServiceTable) (as : List LookupAction) :
    Along lookupStep AnsweredRight (Lookups.start t) as ↔
      Along lookupStep Unmoved (Lookups.start t) as :=
  along_iff_of_invariant (fun _ a hok _ => lookupStep_ok hok a) (fun _ a hok => answeredRight_iff hok a)
    (start_indexOk t)

/-- A process fills the table with x and y, another with y and x: the first still answers 0 for x,
where y is now. -/
theorem stale_index :
    let as := [.setServiceData 0 [⟨[120], 1, 100, 100⟩, ⟨[121], 1, 100, 100⟩],
      .setServiceData 1 [⟨[121], 1, 100, 100⟩, ⟨[120], 1, 100, 100⟩]]
    let w := run lookupStep (Lookups.start World.start.services) as
    (w.call .getServiceId 0 [120]).2 = .place (some 0) ∧ (w.table.entries 0).serviceName = [121] ∧
    ¬ Along lookupStep AnsweredRight (Lookups.start World.start.services)
      (as ++ [.lookup .getServiceId 0 [120]]) := by
  refine ⟨by decide, by decide, ?_⟩
  intro h
  obtain ⟨-, hlast⟩ := (along_append _ _ _ _ _).mp h
  have hname := (hlast.1.some 0 (by decide)).2.2
  revert hname
  decide

end Service
end HakoniwaCorePro
