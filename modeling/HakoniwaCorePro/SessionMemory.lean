import HakoniwaCorePro.Runs

/-!
# The memory of the session tables

The pointers of `HakoProData` into the segment that holds the session tables, from `init` on. The
shared memory itself is outside: where a segment is mapped, and whether it can be created or
loaded, is decided anew at each call.
-/

namespace HakoniwaCorePro
namespace SessionMemory

open Runs

abbrev Address := ℕ

/-- `HAKO_SHARED_MEMORY_ID_1` and `HAKO_SHARED_MEMORY_ID_2` -/
inductive SegmentId
  | id1 | id2
  deriving DecidableEq

/-- The sizes of the two tables. The run information follows them. -/
structure Layout where
  recvEventTableSize : ℕ
  serviceTableSize : ℕ

/-- `shmp_` is null or not; `mapped` is where the segment of the tables was mapped last. -/
structure ProData where
  shmp : Bool
  mapped : Option Address
  recvEventTable : Option Address
  serviceTable : Option Address
  runInfo : Option Address
  deriving DecidableEq

/-- After `init`. -/
def ProData.initial : ProData := ⟨true, none, none, none, none⟩

/-- What the outside answers during one call: whether there is a lock file, and where the segment
was loaded or created. -/
structure Surroundings where
  lock : Bool
  load : Option Address
  create : Option Address

inductive Outcome
  | returned (ok : Bool)
  | nullDereference
  deriving DecidableEq

/-- What a call leaves and answers, and the segments that it has released. -/
structure Performed where
  data : ProData
  outcome : Outcome
  released : List SegmentId
  deriving DecidableEq

inductive Call
  | createSessionMemory | onPduDataCreate | onPduDataLoad | onPduDataReset | onPduDataDestroy
  deriving DecidableEq

def ProData.setRecvEventTable (table : Option Address) (s : ProData) : ProData :=
  { s with recvEventTable := table }

def ProData.setServiceTable (l : Layout) (table : Option Address) (s : ProData) : ProData :=
  { s with serviceTable := table, runInfo := table.map (· + l.serviceTableSize) }

/-- The part of creating and loading that is the same; the memory is asked of `shmp_` without a
test. -/
def mapTables (l : Layout) (datap : Option Address) (s : ProData) : Performed :=
  if s.shmp then
    match datap with
    | none => ⟨s, .returned false, []⟩
    | some p =>
      let s := ProData.setRecvEventTable (some p) { s with mapped := some p }
      ⟨s.setServiceTable l (some (p + l.recvEventTableSize)), .returned true, []⟩
  else ⟨s, .nullDereference, []⟩

def createEmptyTables (l : Layout) (e : Surroundings) : ProData → Performed := mapTables l e.create

def loadTables (l : Layout) (e : Surroundings) : ProData → Performed := mapTables l e.load

def createSessionMemory (l : Layout) (e : Surroundings) (s : ProData) : Performed :=
  if e.lock then createEmptyTables l e s else ⟨s, .returned false, []⟩

/-- The tables are loaded, or else created, unless there are some already. -/
def onPduDataCreate (l : Layout) (e : Surroundings) (s : ProData) : Performed :=
  if e.lock then
    match s.serviceTable with
    | some _ => ⟨s, .returned true, []⟩
    | none =>
      let r := loadTables l e s
      if r.outcome = .returned false then createEmptyTables l e s else r
  else ⟨s, .returned false, []⟩

def onPduDataLoad (l : Layout) (e : Surroundings) (s : ProData) : Performed :=
  if e.lock then loadTables l e s else ⟨s, .returned false, []⟩

def onPduDataReset (s : ProData) : Performed := ⟨s, .returned s.recvEventTable.isSome, []⟩

/-- `run_info_` is not among the pointers that are set to null. -/
def destroy (s : ProData) : Performed :=
  if s.shmp then
    ⟨{ s with shmp := false, recvEventTable := none, serviceTable := none }, .returned true, [.id1]⟩
  else ⟨s, .returned true, []⟩

def perform (l : Layout) (s : ProData) (c : Call × Surroundings) : Performed :=
  match c.1 with
  | .createSessionMemory => createSessionMemory l c.2 s
  | .onPduDataCreate => onPduDataCreate l c.2 s
  | .onPduDataLoad => onPduDataLoad l c.2 s
  | .onPduDataReset => onPduDataReset s
  | .onPduDataDestroy => destroy s

def sessionStep (l : Layout) (s : ProData) (c : Call × Surroundings) : ProData := (perform l s c).data

/-- All three pointers are null, or they point to their places in one mapping. -/
inductive Consistent (l : Layout) (s : ProData) : Prop
  | null (recvEventTable : s.recvEventTable = none) (serviceTable : s.serviceTable = none)
      (runInfo : s.runInfo = none)
  | mapped (p : Address) (mapped : s.mapped = some p) (recvEventTable : s.recvEventTable = some p)
      (serviceTable : s.serviceTable = some (p + l.recvEventTableSize))
      (runInfo : s.runInfo = some (p + l.recvEventTableSize + l.serviceTableSize))

/-- The segment that creation or load has mapped. -/
def ProData.mappedSegments (s : ProData) : List SegmentId := if s.mapped.isSome then [.id2] else []

structure KeepsLifeCycle (l : Layout) (s : ProData) (c : Call × Surroundings) : Prop where
  consistent : Consistent l (perform l s c).data
  notNull : (perform l s c).outcome ≠ .nullDereference
  released : (perform l s c).released = if c.1 = .onPduDataDestroy then s.mappedSegments else []

/-- The pointers are as they should be, and the memory has not been destroyed. -/
structure Live (l : Layout) (s : ProData) : Prop where
  shmp : s.shmp = true
  consistent : Consistent l s

theorem mapTables_live {l : Layout} {s : ProData} (h : Live l s) (datap : Option Address) :
    Live l (mapTables l datap s).data ∧ (mapTables l datap s).outcome ≠ .nullDereference ∧
      (mapTables l datap s).released = [] := by
  simp only [mapTables, h.shmp, if_true]
  cases datap with
  | none => exact ⟨h, nofun, rfl⟩
  | some p => exact ⟨⟨rfl, .mapped p rfl rfl rfl rfl⟩, nofun, rfl⟩

theorem perform_live {l : Layout} {s : ProData} (h : Live l s) {c : Call × Surroundings}
    (hc : c.1 ≠ .onPduDataDestroy) :
    Live l (perform l s c).data ∧ (perform l s c).outcome ≠ .nullDereference ∧
      (perform l s c).released = [] := by
  obtain ⟨call, e⟩ := c
  cases call with
  | createSessionMemory =>
    simp only [perform, createSessionMemory]
    split
    · exact mapTables_live h e.create
    · exact ⟨h, nofun, rfl⟩
  | onPduDataCreate =>
    simp only [perform, onPduDataCreate]
    split
    · split
      · exact ⟨h, nofun, rfl⟩
      · split
        · exact mapTables_live h e.create
        · exact mapTables_live h e.load
    · exact ⟨h, nofun, rfl⟩
  | onPduDataLoad =>
    simp only [perform, onPduDataLoad]
    split
    · exact mapTables_live h e.load
    · exact ⟨h, nofun, rfl⟩
  | onPduDataReset => exact ⟨h, nofun, rfl⟩
  | onPduDataDestroy => exact absurd rfl hc

/-- `destroy` releases another segment than the one that is mapped. -/
theorem destroy_not_keeps {l : Layout} {s : ProData} (h : Live l s) (e : Surroundings) :
    ¬ KeepsLifeCycle l s (.onPduDataDestroy, e) := by
  intro hkeeps
  have hreleased := hkeeps.released
  simp only [perform, destroy, h.shmp, if_true, ProData.mappedSegments] at hreleased
  split at hreleased
  · cases hreleased
  · cases hreleased

theorem keepsLifeCycle_iff {l : Layout} {s : ProData} (h : Live l s) (c : Call × Surroundings) :
    KeepsLifeCycle l s c ↔ c.1 ≠ .onPduDataDestroy := by
  constructor
  · intro hkeeps hc
    obtain ⟨call, e⟩ := c
    obtain rfl : call = .onPduDataDestroy := hc
    exact destroy_not_keeps h e hkeeps
  · intro hc
    obtain ⟨hlive, hnull, hreleased⟩ := perform_live h hc
    exact ⟨hlive.consistent, hnull, by rw [if_neg hc, hreleased]⟩

theorem initial_live (l : Layout) : Live l .initial := ⟨rfl, .null rfl rfl rfl⟩

/-- The pointers live and die together, along a sequence of calls, if and only if there is no
`on_pdu_data_destroy` among them. -/
theorem life_cycle_iff (l : Layout) (calls : List (Call × Surroundings)) :
    Along (sessionStep l) (KeepsLifeCycle l) .initial calls ↔
      ∀ c ∈ calls, c.1 ≠ .onPduDataDestroy := by
  rw [← along_forall_iff]
  apply along_iff_of_invariant (I := Live l)
  · intro s c hlive hkeeps
    exact (perform_live hlive ((keepsLifeCycle_iff hlive c).mp hkeeps)).1
  · intro s c hlive
    exact keepsLifeCycle_iff hlive c
  · exact initial_live l

/-- After a creation, `destroy` releases the segment 1 instead of 2 and leaves the run information
where it was; the next load dereferences a null pointer. -/
theorem destroyed_then_loaded :
    let l : Layout := ⟨100, 200⟩
    let e : Surroundings := ⟨true, some 0, some 0⟩
    let s := sessionStep l .initial (.createSessionMemory, e)
    let r := perform l s (.onPduDataDestroy, e)
    s.mappedSegments = [.id2] ∧ r.released = [.id1] ∧ r.data.serviceTable = none ∧
    r.data.runInfo = some 300 ∧ (perform l r.data (.onPduDataLoad, e)).outcome = .nullDereference ∧
    ¬ Along (sessionStep l) (KeepsLifeCycle l) .initial
      [(.createSessionMemory, e), (.onPduDataDestroy, e)] := by
  refine ⟨rfl, rfl, rfl, rfl, rfl, ?_⟩
  rintro ⟨-, hkeeps, -⟩
  cases hkeeps.released

end SessionMemory
end HakoniwaCorePro
