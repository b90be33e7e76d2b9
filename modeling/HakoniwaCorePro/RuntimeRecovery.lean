import HakoniwaCorePro.Fallible
import Mathlib.Data.List.Dedup
import Mathlib.Data.List.Sort
import Mathlib.Tactic.Common

/-!
# `hako-cmd recover`

`recover_runtime_files`: a row of checks on the configuration, the runtime directory, the lock
and the recorded processes, and after them the removal of the known runtime files. A check
answers `refused` or, where it calls the file system without an error code, may throw.
-/

namespace HakoniwaCorePro
namespace Recovery

open Fallible

/-- `shm_type` and `core_mmap_path`, where they are there and strings. -/
structure CoreConfig where
  shmType : Option String
  coreMmapPath : Option String

inductive ConfigFile
  | unreadable (what : String)
  | missing
  | read (config : CoreConfig)

/-- What the file system answers with an error code: `none` is an error. -/
structure RootStatus where
  isSymlink : Option Bool
  present : Option Bool
  isDirectory : Option Bool

/-- A file that is read as a whole: it cannot be opened, has no size, cannot be read, or these
are its bytes. -/
inductive Contents
  | unopened | unsized | unread
  | bytes (b : List UInt8)

structure Entry where
  name : String
  isSymlink : Option Bool
  isRegularFile : Option Bool
  contents : Contents

/-- `directory_iterator`: opening the directory reports an error, going on throws one. -/
inductive Listing
  | unopened | broken
  | entries (l : List Entry)

inductive LockHealth
  | ok | abort | unknown
  deriving DecidableEq

inductive UnknownCause
  | identity | contention | system | other
  deriving DecidableEq

/-- `MasterLockInspection` -/
structure LockInspection where
  health : LockHealth
  unknownCause : UnknownCause
  unlocked : Bool
  ownerPid : ℤ
  ownerStartToken : ℕ
  reason : String

/-- What the system answers about a process: to `kill(pid, 0)`, or to `OpenProcess` and
`GetExitCodeProcess`. -/
inductive ProcessAnswer
  | signalled | noSuchProcess | signalRefused
  | opened (exitCode : Option ℕ)
  | invalidParameter | openRefused
  deriving DecidableEq

structure Environment where
  config : ConfigFile
  root : RootStatus
  listing : Listing
  /-- Looking for a `flock.bin` that is not in the directory fails. -/
  lookupThrows : Bool
  lock : LockInspection
  process : ℤ → ProcessAnswer

/-- The layout of the shared memory, which is Core's: the sizes and the fields that are read. -/
structure MemoryLayout where
  headerSize : ℕ
  masterSize : ℕ
  currentMagic : ℕ
  currentVersion : ℕ
  maxAssets : ℕ
  magic : List UInt8 → ℕ
  version : List UInt8 → ℕ
  dataSize : List UInt8 → ℕ
  assetNum : List UInt8 → ℕ
  masterPid : List UInt8 → ℤ
  assetPid : List UInt8 → ℕ → ℤ

inductive Stop
  | refused (reason : String)
  | thrown

abbrev Check := Except Stop

def refuse {α : Type} (reason : String) : Check α := .error (.refused reason)

def mmapRoot : ConfigFile → Check String
  | .unreadable what => refuse what
  | .missing => refuse "recovery requires a valid mmap core_mmap_path"
  | .read c =>
    match c.coreMmapPath with
    | some root =>
      if c.shmType = some "mmap" then .ok root
      else refuse "recovery requires a valid mmap core_mmap_path"
    | none => refuse "recovery requires a valid mmap core_mmap_path"

/-- A directory that is no symbolic link. -/
def RootStatus.Real (r : RootStatus) : Prop :=
  r.isSymlink = some false ∧ r.present = some true ∧ r.isDirectory = some true

instance (r : RootStatus) : Decidable r.Real := inferInstanceAs (Decidable (_ ∧ _))

def checkRoot (r : RootStatus) : Check Unit :=
  if r.Real then .ok () else refuse "core_mmap_path does not exist or is not a directory"

def isHexDigit (c : Char) : Bool :=
  c.isDigit || decide ('a' ≤ c ∧ c ≤ 'f') || decide ('A' ≤ c ∧ c ≤ 'F')

/-- `mmap-0x[0-9a-fA-F]+\.bin`, as a whole. -/
def isMmapName (name : String) : Bool :=
  let chars := name.toList
  let digits := (chars.drop 7).dropLast.dropLast.dropLast.dropLast
  decide (chars = "mmap-0x".toList ++ digits ++ ".bin".toList) && !digits.isEmpty &&
    digits.all isHexDigit

/-- The names that `recover` may remove. -/
def isKnownName (name : String) : Bool :=
  isMmapName name || name == "flock.bin" || name == "pdu_init.lock" || name == "pro_init.lock"

def enumerate : Listing → Check (List Entry)
  | .unopened => refuse "cannot enumerate core_mmap_path"
  | .broken => .error .thrown
  | .entries l => .ok l

def knownFiles (l : List Entry) : List Entry := l.filter fun f => isKnownName f.name

structure RuntimePath where
  directory : String
  filename : String
  deriving DecidableEq

def RuntimePath.string (p : RuntimePath) : String := p.directory ++ "/" ++ p.filename

def Entry.Regular (f : Entry) : Prop := f.isSymlink = some false ∧ f.isRegularFile = some true

instance (f : Entry) : Decidable f.Regular := inferInstanceAs (Decidable (_ ∧ _))

/-- The whole set is validated before anything else is read. -/
def checkRegular (root : String) : List Entry → Check Unit
  | [] => .ok ()
  | f :: l =>
    if f.Regular then checkRegular root l
    else refuse ("known runtime path is not a regular file: " ++ (RuntimePath.mk root f.name).string)

/-- Nobody can say who has the lock. -/
def LockInspection.Unverifiable (lock : LockInspection) : Prop :=
  lock.health = .unknown ∧ (lock.unknownCause = .identity ∨ lock.unknownCause = .contention ∨
    lock.unknownCause = .system)

def LockInspection.Owned (lock : LockInspection) : Prop :=
  lock.health = .ok ∧ (lock.unlocked = false ∨ lock.ownerPid ≠ 0 ∨ lock.ownerStartToken ≠ 0)

instance (lock : LockInspection) : Decidable lock.Unverifiable :=
  inferInstanceAs (Decidable (_ ∧ _))

instance (lock : LockInspection) : Decidable lock.Owned := inferInstanceAs (Decidable (_ ∧ _))

def hasFile (name : String) (l : List Entry) : Bool := l.any fun f => f.name == name

/-- `flock_path` is looked for without an error code. -/
def checkLock (e : Environment) (l : List Entry) : Check Unit :=
  if hasFile "flock.bin" l then
    if e.lock.Unverifiable then
      refuse ("master lock ownership cannot be verified: " ++ e.lock.reason)
    else if e.lock.Owned then
      refuse ("master lock is owned by a live process: pid=" ++ toString e.lock.ownerPid)
    else .ok ()
  else if e.lookupThrows then .error .thrown
  else .ok ()

/-- What opening `mmap-0xff.bin` gives; a file that is not there cannot be opened either. -/
def masterContents (l : List Entry) : Contents :=
  match l.find? fun f => f.name == "mmap-0xff.bin" with
  | some f => f.contents
  | none => .unopened

/-- Master memory of an older Core: of another layout version, or without a layout header. -/
def MemoryLayout.Older (m : MemoryLayout) (b : List UInt8) : Prop :=
  (m.headerSize ≤ b.length ∧ m.magic b = m.currentMagic ∧ m.version b ≠ m.currentVersion) ∨
    ((b.length < m.headerSize ∨ m.magic b ≠ m.currentMagic) ∧ m.masterSize ≤ b.length)

instance (m : MemoryLayout) (b : List UInt8) : Decidable (m.Older b) :=
  inferInstanceAs (Decidable (_ ∨ _))

def MemoryLayout.recordedPids (m : MemoryLayout) (b : List UInt8) : List ℤ :=
  (m.masterPid b :: (List.range (m.assetNum b)).map (m.assetPid b)).filter fun pid => 0 < pid

def readRuntimePids (m : MemoryLayout) : Contents → Check (List ℤ)
  | .unopened => .ok []
  | .unsized | .unread => refuse "master memory cannot be read"
  | .bytes b =>
    if m.Older b then .ok []
    else if b.length < m.headerSize + m.masterSize ∨ m.dataSize b < m.masterSize then
      refuse "master memory is too small or inconsistent to prove that no process remains"
    else if m.maxAssets < m.assetNum b then refuse "master memory asset count is invalid"
    else .ok (m.recordedPids b)

inductive ProcessStatus
  | alive | dead | unknown
  deriving DecidableEq

/-- `STILL_ACTIVE` -/
def stillActive : ℕ := 259

/-- `process_status`; the last three answers are those of its Windows branch. -/
def processStatus (answer : ProcessAnswer) : ProcessStatus :=
  match answer with
  | .signalled => .alive
  | .noSuchProcess => .dead
  | .signalRefused => .unknown
  | .opened exitCode => if exitCode = some stillActive then .alive else .dead
  | .invalidParameter => .dead
  | .openRefused => .unknown

def probeProcess (e : Environment) (pid : ℤ) : ProcessStatus :=
  if pid ≤ 0 then .dead else processStatus (e.process pid)

def checkDead (e : Environment) : List ℤ → Check Unit
  | [] => .ok ()
  | pid :: pids =>
    match probeProcess e pid with
    | .alive => refuse ("a Hakoniwa process is still alive: pid=" ++ toString pid)
    | .unknown => refuse ("process liveness is uncertain: pid=" ++ toString pid)
    | .dead => checkDead e pids

inductive Status
  | recovered | partialRemoval
  deriving DecidableEq

/-- `RuntimeRecoveryResult`, where nothing was refused. -/
structure RecoveryResult where
  status : Status
  reason : String
  removed : List RuntimePath
  remaining : List RuntimePath
  failures : List (RuntimePath × String)

/-- The remover's answer; `failed` has the error's message, or says that it returned false. -/
inductive Removal
  | removed
  | failed (message : String)

/-- `flock.bin` is the evidence of ownership, and goes last. -/
def removedBefore (left right : RuntimePath) : Prop :=
  if (left.filename = "flock.bin") ≠ (right.filename = "flock.bin") then
    left.filename ≠ "flock.bin"
  else left.filename ≤ right.filename

instance : DecidableRel removedBefore := fun _ _ => inferInstanceAs (Decidable (ite ..))

def removeInOrder (remove : RuntimePath → Removal) : List RuntimePath → List RuntimePath →
    RecoveryResult
  | removed, [] => ⟨.recovered, "runtime files removed", removed, [], []⟩
  | removed, p :: ps =>
    match remove p with
    | .removed => removeInOrder remove (removed ++ [p]) ps
    | .failed message =>
      ⟨.partialRemoval, "failed to remove one or more runtime files", removed, p :: ps,
        [(p, message)]⟩

def removeKnownRuntimeFiles (remove : RuntimePath → Removal) (paths : List RuntimePath) :
    RecoveryResult :=
  removeInOrder remove [] (paths.insertionSort removedBefore)

/-- The paths that were passed to the remover. -/
def RecoveryResult.attempted (r : RecoveryResult) : List RuntimePath :=
  r.removed ++ r.failures.map (·.1)

def recoverRuntimeFiles (m : MemoryLayout) (e : Environment) (remove : RuntimePath → Removal) :
    Check RecoveryResult := do
  let root ← mmapRoot e.config
  checkRoot e.root
  let l ← enumerate e.listing
  checkRegular root (knownFiles l)
  checkLock e l
  let pids ← readRuntimePids m (masterContents l)
  checkDead e (pids.dedup.insertionSort (· ≤ ·))
  return removeKnownRuntimeFiles remove ((knownFiles l).map fun f => ⟨root, f.name⟩)

section

variable {m : MemoryLayout} {e : Environment}

@[simp] theorem refuse_ne_ok {α : Type} (reason : String) (a : α) : refuse reason ≠ .ok a := nofun

@[simp] theorem refuse_ne_thrown {α : Type} (reason : String) :
    (refuse reason : Check α) ≠ .error .thrown := nofun

theorem mmapRoot_ne_thrown (c : ConfigFile) : mmapRoot c ≠ .error .thrown := by
  unfold mmapRoot
  split
  · simp
  · simp
  · split
    · split <;> simp
    · simp

theorem checkRoot_ok_iff {r : RootStatus} {u : Unit} : checkRoot r = .ok u ↔ r.Real := by
  unfold checkRoot
  split <;> simp [*]

theorem checkRoot_ne_thrown (r : RootStatus) : checkRoot r ≠ .error .thrown := by
  unfold checkRoot
  split <;> simp

theorem enumerate_ok_iff {listing : Listing} {l : List Entry} :
    enumerate listing = .ok l ↔ listing = .entries l := by
  cases listing <;> simp [enumerate]

theorem enumerate_thrown_iff {listing : Listing} :
    enumerate listing = .error .thrown ↔ listing = .broken := by
  cases listing <;> simp [enumerate]

theorem checkRegular_ok_iff {root : String} {l : List Entry} {u : Unit} :
    checkRegular root l = .ok u ↔ ∀ f ∈ l, f.Regular := by
  induction l with
  | nil => simp [checkRegular]
  | cons f l ih => by_cases hf : f.Regular <;> simp [checkRegular, hf, ih]

theorem checkRegular_ne_thrown (root : String) (l : List Entry) :
    checkRegular root l ≠ .error .thrown := by
  induction l with
  | nil => simp [checkRegular]
  | cons f l ih => by_cases hf : f.Regular <;> simp [checkRegular, hf, ih]

/-- `flock.bin` is there and free, or it can be told that it is not there. -/
def FreeLock (e : Environment) (l : List Entry) : Prop :=
  if hasFile "flock.bin" l then ¬ e.lock.Unverifiable ∧ ¬ e.lock.Owned
  else e.lookupThrows = false

theorem checkLock_ok_iff {l : List Entry} {u : Unit} : checkLock e l = .ok u ↔ FreeLock e l := by
  unfold checkLock FreeLock
  split
  · split
    · simp [*]
    · split <;> simp [*]
  · split <;> simp [*]

theorem checkLock_thrown_iff {l : List Entry} :
    checkLock e l = .error .thrown ↔ hasFile "flock.bin" l = false ∧ e.lookupThrows = true := by
  unfold checkLock
  split
  · split
    · simp [*]
    · split <;> simp [*]
  · split <;> simp [*]

/-- A master memory of the present layout whose process table is all there. -/
def MemoryLayout.Complete (m : MemoryLayout) (b : List UInt8) : Prop :=
  m.headerSize + m.masterSize ≤ b.length ∧ m.masterSize ≤ m.dataSize b ∧ m.assetNum b ≤ m.maxAssets

theorem readRuntimePids_ok_iff {c : Contents} {pids : List ℤ} :
    readRuntimePids m c = .ok pids ↔ (c = .unopened ∧ pids = []) ∨ ∃ b, c = .bytes b ∧
      (m.Older b ∧ pids = [] ∨ ¬ m.Older b ∧ m.Complete b ∧ pids = m.recordedPids b) := by
  cases c with
  | unopened => simp [readRuntimePids, eq_comm]
  | unsized => simp [readRuntimePids]
  | unread => simp [readRuntimePids]
  | bytes b =>
    by_cases hold : m.Older b
    · simp [readRuntimePids, hold, eq_comm]
    · by_cases hsmall : b.length < m.headerSize + m.masterSize ∨ m.dataSize b < m.masterSize
      · have hnot : ¬ m.Complete b := fun h => by
          obtain ⟨hlength, hdata, -⟩ := h
          omega
        simp [readRuntimePids, hold, hsmall, hnot]
      · by_cases hnum : m.maxAssets < m.assetNum b
        · have hnot : ¬ m.Complete b := fun h => absurd h.2.2 (by omega)
          simp [readRuntimePids, hold, hsmall, hnum, hnot]
        · have hcomplete : m.Complete b := ⟨by omega, by omega, by omega⟩
          simp [readRuntimePids, hold, hsmall, hnum, hcomplete, eq_comm]

theorem readRuntimePids_ne_thrown (m : MemoryLayout) (c : Contents) :
    readRuntimePids m c ≠ .error .thrown := by
  cases c with
  | bytes b =>
    rw [readRuntimePids]
    split_ifs <;> simp
  | _ => simp [readRuntimePids]

theorem checkDead_ok_iff {pids : List ℤ} {u : Unit} :
    checkDead e pids = .ok u ↔ ∀ pid ∈ pids, probeProcess e pid = .dead := by
  induction pids with
  | nil => simp [checkDead]
  | cons pid pids ih => cases hprobe : probeProcess e pid <;> simp [checkDead, hprobe, ih]

theorem checkDead_ne_thrown (e : Environment) (pids : List ℤ) :
    checkDead e pids ≠ .error .thrown := by
  induction pids with
  | nil => simp [checkDead]
  | cons pid pids ih => cases hprobe : probeProcess e pid <;> simp [checkDead, hprobe, ih]

/-- The checks up to the lock pass, and these are the directory's entries. -/
structure Reaches (e : Environment) (root : String) (l : List Entry) : Prop where
  config : mmapRoot e.config = .ok root
  directory : e.root.Real
  listing : e.listing = .entries l
  regular : ∀ f ∈ knownFiles l, f.Regular

theorem recover_ok_iff {remove : RuntimePath → Removal} {r : RecoveryResult} :
    recoverRuntimeFiles m e remove = .ok r ↔ ∃ root l pids, Reaches e root l ∧ FreeLock e l ∧
      readRuntimePids m (masterContents l) = .ok pids ∧
      (∀ pid ∈ pids, probeProcess e pid = .dead) ∧
      removeKnownRuntimeFiles remove ((knownFiles l).map fun f => ⟨root, f.name⟩) = r := by
  simp only [recoverRuntimeFiles, bind_ok_iff, checkRoot_ok_iff, enumerate_ok_iff,
    checkRegular_ok_iff, checkLock_ok_iff, checkDead_ok_iff, List.mem_insertionSort,
    List.mem_dedup, pure, Except.pure, Except.ok.injEq]
  constructor
  · rintro ⟨root, hroot, _, hdir, l, hl, _, hregular, _, hlock, pids, hpids, _, hdead, hr⟩
    exact ⟨root, l, pids, ⟨hroot, hdir, hl, hregular⟩, hlock, hpids, hdead, hr⟩
  · rintro ⟨root, l, pids, ⟨hroot, hdir, hl, hregular⟩, hlock, hpids, hdead, hr⟩
    exact ⟨root, hroot, (), hdir, l, hl, (), hregular, (), hlock, pids, hpids, (), hdead, hr⟩

/-- An exception leaves the function where a directory cannot be read to its end, and where
`flock.bin` cannot be looked for. -/
theorem recover_thrown_iff {remove : RuntimePath → Removal} :
    recoverRuntimeFiles m e remove = .error .thrown ↔
      (∃ root, mmapRoot e.config = .ok root ∧ e.root.Real ∧ e.listing = .broken) ∨
      ∃ root l, Reaches e root l ∧ hasFile "flock.bin" l = false ∧ e.lookupThrows = true := by
  simp only [recoverRuntimeFiles, bind_error_iff, mmapRoot_ne_thrown, checkRoot_ne_thrown,
    enumerate_thrown_iff, checkRegular_ne_thrown, checkLock_thrown_iff, readRuntimePids_ne_thrown,
    checkDead_ne_thrown, checkRoot_ok_iff, enumerate_ok_iff, checkRegular_ok_iff, pure,
    Except.pure, false_or, reduceCtorEq, and_false, exists_false, or_false]
  constructor
  · rintro ⟨root, hroot, _, hdir, hbroken | ⟨l, hl, _, hregular, hthrows⟩⟩
    · exact Or.inl ⟨root, hroot, hdir, hbroken⟩
    · exact Or.inr ⟨root, l, ⟨hroot, hdir, hl, hregular⟩, hthrows⟩
  · rintro (⟨root, hroot, hdir, hbroken⟩ | ⟨root, l, ⟨hroot, hdir, hl, hregular⟩, hthrows⟩)
    · exact ⟨root, hroot, (), hdir, Or.inl hbroken⟩
    · exact ⟨root, hroot, (), hdir, Or.inr ⟨l, hl, (), hregular, hthrows⟩⟩

theorem mem_attempted {remove : RuntimePath → Removal} {removed ps : List RuntimePath}
    {p : RuntimePath} (hp : p ∈ (removeInOrder remove removed ps).attempted) :
    p ∈ removed ∨ p ∈ ps := by
  induction ps generalizing removed with
  | nil =>
    left
    simpa [removeInOrder, RecoveryResult.attempted] using hp
  | cons q ps ih =>
    rw [removeInOrder] at hp
    cases hq : remove q with
    | removed =>
      rw [hq] at hp
      rcases ih hp with hmem | hmem
      · rcases List.mem_append.mp hmem with hmem | hmem
        · exact Or.inl hmem
        · exact Or.inr (by simp_all)
      · exact Or.inr (by simp [hmem])
    | failed message =>
      rw [hq] at hp
      simp only [RecoveryResult.attempted, List.map_cons, List.map_nil, List.mem_append,
        List.mem_singleton] at hp
      rcases hp with hp | rfl
      · exact Or.inl hp
      · exact Or.inr (by simp)

theorem mem_attempted_known {remove : RuntimePath → Removal} {paths : List RuntimePath}
    {p : RuntimePath} (hp : p ∈ (removeKnownRuntimeFiles remove paths).attempted) : p ∈ paths := by
  rcases mem_attempted hp with hmem | hmem
  · cases hmem
  · simpa using hmem

/-- The system's answer shows that there is no such process any more. -/
def ProcessAnswer.ShowsDead : ProcessAnswer → Prop
  | .noSuchProcess | .invalidParameter => True
  | .opened (some code) => code ≠ stillActive
  | _ => False

/-- There is no master memory, or it is an older Core's, or it was read and all its processes
have ended. -/
def MasterGone (m : MemoryLayout) (e : Environment) (l : List Entry) : Prop :=
  hasFile "mmap-0xff.bin" l = false ∨ ∃ b, masterContents l = .bytes b ∧
    (m.Older b ∨ m.Complete b ∧ ∀ pid ∈ m.recordedPids b, (e.process pid).ShowsDead)

/-- The runtime files in `root` may be removed. -/
structure Permitted (m : MemoryLayout) (e : Environment) (root : String) (l : List Entry) :
    Prop where
  reaches : Reaches e root l
  lock : FreeLock e l
  master : MasterGone m e l

/-- What is removed are known files of a directory that may be cleared; where it may not, the
answer is REFUSED, and nothing is removed. -/
def KeepsEvidence (m : MemoryLayout) (e : Environment) : Prop :=
  ∀ remove : RuntimePath → Removal,
    (∀ r, recoverRuntimeFiles m e remove = .ok r → r.attempted ≠ [] → ∃ root l,
      Permitted m e root l ∧ ∀ p ∈ r.attempted, p.directory = root ∧
        ∃ f ∈ l, f.name = p.filename ∧ isKnownName f.name ∧ f.Regular) ∧
    ((¬ ∃ root l, Permitted m e root l) →
      ∃ reason, recoverRuntimeFiles m e remove = .error (.refused reason))

/-- The directory can be read to its end and searched; a master memory that is there can be
opened; and the exit code of a recorded process that could be opened can be read. -/
structure Certain (m : MemoryLayout) (e : Environment) : Prop where
  enumerated : ∀ root, mmapRoot e.config = .ok root → e.root.Real → e.listing ≠ .broken
  searched : ∀ root l, Reaches e root l → hasFile "flock.bin" l = true ∨ e.lookupThrows = false
  opened : ∀ root l, Reaches e root l → FreeLock e l → hasFile "mmap-0xff.bin" l = true →
    masterContents l ≠ .unopened
  exitCodes : ∀ root l, Reaches e root l → FreeLock e l → ∀ b, masterContents l = .bytes b →
    ¬ m.Older b → m.Complete b → (∀ pid ∈ m.recordedPids b, probeProcess e pid = .dead) →
    ∀ pid ∈ m.recordedPids b, e.process pid ≠ .opened none

theorem probeProcess_recorded {b : List UInt8} {pid : ℤ} (hpid : pid ∈ m.recordedPids b) :
    probeProcess e pid = processStatus (e.process pid) := by
  have hpos : 0 < pid := by
    simp only [MemoryLayout.recordedPids, List.mem_filter, decide_eq_true_eq] at hpid
    exact hpid.2
  rw [probeProcess, if_neg (by omega)]

theorem showsDead_iff (a : ProcessAnswer) :
    a.ShowsDead ↔ processStatus a = .dead ∧ a ≠ .opened none := by
  cases a with
  | opened exitCode =>
    cases exitCode with
    | none => simp [ProcessAnswer.ShowsDead]
    | some code => simp [ProcessAnswer.ShowsDead, processStatus]
  | _ => simp [ProcessAnswer.ShowsDead, processStatus]

theorem Reaches.unique {root root' : String} {l l' : List Entry} (h : Reaches e root l)
    (h' : Reaches e root' l') : l = l' := by
  have heq := h.listing.symm.trans h'.listing
  cases heq
  rfl

theorem masterContents_of_absent {l : List Entry} (h : hasFile "mmap-0xff.bin" l = false) :
    masterContents l = .unopened := by
  have hnone : l.find? (fun f => f.name == "mmap-0xff.bin") = none := by
    rw [List.find?_eq_none]
    intro f hf hname
    rw [hasFile, List.any_eq_false] at h
    exact h f hf hname
  rw [masterContents, hnone]

theorem Certain.permitted (hc : Certain m e) {root : String} {l : List Entry} {pids : List ℤ}
    (hreaches : Reaches e root l) (hlock : FreeLock e l)
    (hpids : readRuntimePids m (masterContents l) = .ok pids)
    (hdead : ∀ pid ∈ pids, probeProcess e pid = .dead) : Permitted m e root l := by
  refine ⟨hreaches, hlock, ?_⟩
  rcases readRuntimePids_ok_iff.mp hpids with ⟨hunopened, -⟩ | ⟨b, hb, hold | hnew⟩
  · left
    by_contra hpresent
    exact hc.opened root l hreaches hlock (by simpa using hpresent) hunopened
  · exact Or.inr ⟨b, hb, Or.inl hold.1⟩
  · obtain ⟨hnot, hcomplete, rfl⟩ := hnew
    refine Or.inr ⟨b, hb, Or.inr ⟨hcomplete, fun pid hpid => (showsDead_iff _).mpr ⟨?_, ?_⟩⟩⟩
    · rw [← probeProcess_recorded hpid]
      exact hdead pid hpid
    · exact hc.exitCodes root l hreaches hlock b hb hnot hcomplete hdead pid hpid

theorem keepsEvidence_of_certain (hc : Certain m e) : KeepsEvidence m e := by
  intro remove
  constructor
  · intro r hr _
    obtain ⟨root, l, pids, hreaches, hlock, hpids, hdead, rfl⟩ := recover_ok_iff.mp hr
    refine ⟨root, l, hc.permitted hreaches hlock hpids hdead, fun p hp => ?_⟩
    obtain ⟨f, hf, rfl⟩ := List.mem_map.mp (mem_attempted_known hp)
    have hregular := hreaches.regular f hf
    rw [knownFiles, List.mem_filter] at hf
    exact ⟨rfl, f, hf.1, rfl, hf.2, hregular⟩
  · intro hforbidden
    cases hr : recoverRuntimeFiles m e remove with
    | ok r =>
      obtain ⟨root, l, pids, hreaches, hlock, hpids, hdead, -⟩ := recover_ok_iff.mp hr
      exact absurd ⟨root, l, hc.permitted hreaches hlock hpids hdead⟩ hforbidden
    | error stop =>
      cases stop with
      | refused reason => exact ⟨reason, rfl⟩
      | thrown =>
        rcases recover_thrown_iff.mp hr with
          ⟨root, hroot, hdir, hbroken⟩ | ⟨root, l, hreaches, habsent, hthrows⟩
        · exact absurd hbroken (hc.enumerated root hroot hdir)
        · rcases hc.searched root l hreaches with hthere | hquiet
          · rw [habsent] at hthere
            cases hthere
          · rw [hthrows] at hquiet
            cases hquiet

/-- A remover for the cases in which what it does plays no role. -/
def removeNothing (_ : RuntimePath) : Removal := .failed "not removed"

theorem KeepsEvidence.not_ok (h : KeepsEvidence m e)
    (hforbidden : ¬ ∃ root l, Permitted m e root l) (r : RecoveryResult) :
    recoverRuntimeFiles m e removeNothing ≠ .ok r := by
  intro hr
  obtain ⟨reason, hrefused⟩ := (h removeNothing).2 hforbidden
  rw [hr] at hrefused
  cases hrefused

theorem KeepsEvidence.not_thrown (h : KeepsEvidence m e)
    (hforbidden : ¬ ∃ root l, Permitted m e root l) :
    recoverRuntimeFiles m e removeNothing ≠ .error .thrown := by
  intro hr
  obtain ⟨reason, hrefused⟩ := (h removeNothing).2 hforbidden
  rw [hr] at hrefused
  cases hrefused

theorem not_permitted {root : String} {l : List Entry} (hreaches : Reaches e root l)
    (h : FreeLock e l → ¬ MasterGone m e l) : ¬ ∃ root l, Permitted m e root l := by
  rintro ⟨root', l', hp⟩
  obtain rfl := hreaches.unique hp.reaches
  exact h hp.lock hp.master

theorem certain_of_keepsEvidence (h : KeepsEvidence m e) : Certain m e := by
  constructor
  · intro root hroot hdir hbroken
    refine h.not_thrown ?_ (recover_thrown_iff.mpr (Or.inl ⟨root, hroot, hdir, hbroken⟩))
    rintro ⟨root', l, hp⟩
    have heq := hbroken.symm.trans hp.reaches.listing
    cases heq
  · intro root l hreaches
    by_contra hnot
    simp only [not_or, Bool.not_eq_true, Bool.not_eq_false] at hnot
    refine h.not_thrown (not_permitted hreaches fun hlock _ => ?_)
      (recover_thrown_iff.mpr (Or.inr ⟨root, l, hreaches, hnot⟩))
    rw [FreeLock, hnot.1, if_neg (by simp), hnot.2] at hlock
    cases hlock
  · intro root l hreaches hlock hthere hunopened
    have hpids : readRuntimePids m (masterContents l) = .ok [] :=
      readRuntimePids_ok_iff.mpr (Or.inl ⟨hunopened, rfl⟩)
    refine h.not_ok (not_permitted hreaches fun _ hgone => ?_) _
      (recover_ok_iff.mpr ⟨root, l, [], hreaches, hlock, hpids, nofun, rfl⟩)
    rcases hgone with habsent | ⟨b, hb, -⟩
    · rw [hthere] at habsent
      cases habsent
    · rw [hunopened] at hb
      cases hb
  · intro root l hreaches hlock b hb hnot hcomplete hdead pid hpid hopened
    have hpids : readRuntimePids m (masterContents l) = .ok (m.recordedPids b) :=
      readRuntimePids_ok_iff.mpr (Or.inr ⟨b, hb, Or.inr ⟨hnot, hcomplete, rfl⟩⟩)
    refine h.not_ok (not_permitted hreaches fun _ hgone => ?_) _
      (recover_ok_iff.mpr ⟨root, l, _, hreaches, hlock, hpids, hdead, rfl⟩)
    rcases hgone with habsent | ⟨b', hb', hold | ⟨-, hall⟩⟩
    · rw [masterContents_of_absent habsent] at hb
      cases hb
    · rw [hb] at hb'
      cases hb'
      exact hnot hold
    · rw [hb] at hb'
      cases hb'
      have hshows := hall pid hpid
      rw [hopened] at hshows
      exact hshows

/-- `recover` keeps the evidence if and only if the outside leaves nothing uncertain where the
code does not ask: the end of the directory, a file that cannot be opened, an exit code. -/
theorem keepsEvidence_iff (m : MemoryLayout) (e : Environment) :
    KeepsEvidence m e ↔ Certain m e :=
  ⟨certain_of_keepsEvidence, keepsEvidence_of_certain⟩

end

/-- A layout in which the first byte is the number of assets, and the next are pids. -/
def byteLayout : MemoryLayout where
  headerSize := 0
  masterSize := 2
  currentMagic := 1
  currentVersion := 1
  maxAssets := 4
  magic := fun _ => 1
  version := fun _ => 1
  dataSize := List.length
  assetNum := fun b => (b.headD 0).toNat
  masterPid := fun b => (b.getD 1 0).toNat
  assetPid := fun b i => (b.getD (i + 2) 0).toNat

/-- A runtime directory whose master memory may not be opened, while process 7 runs. -/
def unreadableMaster : Environment where
  config := .read ⟨some "mmap", some "/var/lib/hakoniwa/mmap"⟩
  root := ⟨some false, some true, some true⟩
  listing := .entries [⟨"mmap-0xff.bin", some false, some true, .unopened⟩]
  lookupThrows := false
  lock := ⟨.ok, .other, true, 0, 0, ""⟩
  process := fun _ => .signalled

theorem unreadable_master_removed : ¬ KeepsEvidence byteLayout unreadableMaster := by
  intro h
  have hreaches : Reaches unreadableMaster "/var/lib/hakoniwa/mmap"
      [⟨"mmap-0xff.bin", some false, some true, .unopened⟩] :=
    ⟨rfl, by decide, rfl, by decide⟩
  have hlock : FreeLock unreadableMaster
      [⟨"mmap-0xff.bin", some false, some true, .unopened⟩] := by
    simp [FreeLock, hasFile, unreadableMaster]
  exact (certain_of_keepsEvidence h).opened _ _ hreaches hlock (by decide) rfl

end Recovery
end HakoniwaCorePro
