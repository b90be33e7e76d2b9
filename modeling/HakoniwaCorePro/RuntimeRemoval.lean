import HakoniwaCorePro.RuntimeRecovery

/-!
# The removal of the runtime files, call by call

`remove_known_runtime_files` with a remover that may answer differently at each call. The calls
are written down by a remover that passes them on.
-/

namespace HakoniwaCorePro
namespace Recovery

/-- What the remover returns, and the message of the error code that it has set. -/
structure RemoverAnswer where
  returned : Bool
  error : Option String
  deriving DecidableEq

def RemoverAnswer.Succeeded (a : RemoverAnswer) : Prop := a.returned = true ∧ a.error = none

instance (a : RemoverAnswer) : Decidable a.Succeeded := inferInstanceAs (Decidable (_ ∧ _))

def RemoverAnswer.message (a : RemoverAnswer) : String :=
  a.error.getD "remove operation returned false"

def RemoverAnswer.removal (a : RemoverAnswer) : Removal :=
  if a.Succeeded then .removed else .failed a.message

/-- A remover that keeps a state. -/
abbrev Remover (σ : Type) := RuntimePath → σ → RemoverAnswer × σ

abbrev RemoverCall := RuntimePath × RemoverAnswer

section

variable {σ : Type}

def removeFiles (remove : Remover σ) : List RuntimePath → List RuntimePath → σ → RecoveryResult × σ
  | removed, [], s => (⟨.recovered, "runtime files removed", removed, [], []⟩, s)
  | removed, p :: ps, s =>
    let (a, s) := remove p s
    if a.Succeeded then removeFiles remove (removed ++ [p]) ps s
    else
      (⟨.partialRemoval, "failed to remove one or more runtime files", removed, p :: ps,
        [(p, a.message)]⟩, s)

/-- The comparator that is given to `stable_sort`. One name is less than another if that is not
less or equal. -/
def comesBefore (left right : RuntimePath) : Prop :=
  if (left.filename = "flock.bin") ≠ (right.filename = "flock.bin") then
    left.filename ≠ "flock.bin"
  else ¬ right.filename ≤ left.filename

/-- `remove_known_runtime_files` -/
def removeKnown (remove : Remover σ) (paths : List RuntimePath) (s : σ) : RecoveryResult × σ :=
  removeFiles remove [] (paths.insertionSort removedBefore) s

def recording (remove : Remover σ) : Remover (σ × List RemoverCall) := fun p (s, calls) =>
  ((remove p s).1, (remove p s).2, calls ++ [(p, (remove p s).1)])

def callsMade (remove : Remover σ) (paths : List RuntimePath) (s : σ) : List RemoverCall :=
  (removeKnown (recording remove) paths (s, [])).2.2

end

theorem removedBefore_names {p q : RuntimePath} (hp : p.filename ≠ "flock.bin")
    (hq : q.filename ≠ "flock.bin") : removedBefore p q ↔ p.filename ≤ q.filename := by
  simp [removedBefore, hp, hq]

theorem comesBefore_names {p q : RuntimePath} (hp : p.filename ≠ "flock.bin")
    (hq : q.filename ≠ "flock.bin") : comesBefore p q ↔ ¬ q.filename ≤ p.filename := by
  simp only [comesBefore, hp, hq, ne_eq, not_true, if_false]

theorem removedBefore_iff (left right : RuntimePath) :
    removedBefore left right ↔ ¬ comesBefore right left := by
  by_cases hl : left.filename = "flock.bin"
  · by_cases hr : right.filename = "flock.bin"
    · simp [removedBefore, comesBefore, hl, hr]
    · simp [removedBefore, comesBefore, hl, hr]
  · by_cases hr : right.filename = "flock.bin"
    · simp [removedBefore, comesBefore, hl, hr]
    · rw [removedBefore_names hl hr, comesBefore_names hr hl, not_not]

theorem removedBefore_of_flock {p q : RuntimePath} (h : q.filename = "flock.bin") :
    removedBefore p q := by
  unfold removedBefore
  by_cases hp : p.filename = "flock.bin"
  · simp [h, hp]
  · simp [h, hp]

theorem removedBefore_flock {p q : RuntimePath} (h : removedBefore p q)
    (hp : p.filename = "flock.bin") : q.filename = "flock.bin" := by
  by_contra hq
  simp [removedBefore, hp, hq] at h

instance : Std.Total removedBefore where
  total := by
    intro p q
    by_cases hq : q.filename = "flock.bin"
    · exact Or.inl (removedBefore_of_flock hq)
    · by_cases hp : p.filename = "flock.bin"
      · exact Or.inr (removedBefore_of_flock hp)
      · rw [removedBefore_names hp hq, removedBefore_names hq hp]
        exact String.le_total p.filename q.filename

instance : IsTrans RuntimePath removedBefore where
  trans := by
    intro p q r hpq hqr
    by_cases hr : r.filename = "flock.bin"
    · exact removedBefore_of_flock hr
    · have hq : q.filename ≠ "flock.bin" := fun hq => hr (removedBefore_flock hqr hq)
      have hp : p.filename ≠ "flock.bin" := fun hp => hq (removedBefore_flock hpq hp)
      rw [removedBefore_names hp hr]
      exact String.le_trans ((removedBefore_names hp hq).mp hpq) ((removedBefore_names hq hr).mp hqr)

/-- What `stable_sort` asks of its comparator. -/
instance : IsStrictWeakOrder RuntimePath comesBefore where
  irrefl := by
    intro p hp
    exact (removedBefore_iff p p).mp (or_self_iff.mp (total_of removedBefore p p)) hp
  trans := by
    intro p q r hpq hqr
    by_contra hpr
    have hrp := (removedBefore_iff r p).mpr hpr
    rcases total_of removedBefore q r with h | h
    · exact (removedBefore_iff q p).mp (trans_of removedBefore h hrp) hpq
    · exact (removedBefore_iff r q).mp h hqr
  incomp_trans := by
    intro p q r hpq hqr
    simp only [← removedBefore_iff] at hpq hqr ⊢
    exact ⟨trans_of removedBefore hqr.1 hpq.1, trans_of removedBefore hpq.2 hqr.2⟩

/-- The evidence of ownership comes last. -/
def FlockLast (ordered : List RuntimePath) : Prop :=
  ordered.Pairwise fun p q => p.filename = "flock.bin" → q.filename = "flock.bin"

theorem insertionSort_flockLast (paths : List RuntimePath) :
    FlockLast (paths.insertionSort removedBefore) :=
  (List.pairwise_insertionSort removedBefore paths).imp removedBefore_flock

inductive LoopEnd (removed ps : List RuntimePath) : List RemoverCall → RecoveryResult → Prop
  | all (calls : List RemoverCall) (done : ∀ c ∈ calls, c.2.Succeeded) (paths : calls.map Prod.fst = ps) :
      LoopEnd removed ps calls ⟨.recovered, "runtime files removed", removed ++ ps, [], []⟩
  | stopped (calls : List RemoverCall) (done : ∀ c ∈ calls, c.2.Succeeded) (p : RuntimePath)
      (a : RemoverAnswer) (failed : ¬ a.Succeeded) (rest : List RuntimePath)
      (paths : calls.map Prod.fst ++ p :: rest = ps) :
      LoopEnd removed ps (calls ++ [(p, a)])
        ⟨.partialRemoval, "failed to remove one or more runtime files",
          removed ++ calls.map Prod.fst, p :: rest, [(p, a.message)]⟩

theorem LoopEnd.cons {removed ps : List RuntimePath} {p : RuntimePath} {a : RemoverAnswer}
    {calls : List RemoverCall} {r : RecoveryResult} (ha : a.Succeeded)
    (h : LoopEnd (removed ++ [p]) ps calls r) : LoopEnd removed (p :: ps) ((p, a) :: calls) r := by
  have hmore : ∀ done : List RemoverCall, (∀ c ∈ done, c.2.Succeeded) →
      ∀ c ∈ (p, a) :: done, c.2.Succeeded := by
    intro done hdone
    exact List.forall_mem_cons.mpr ⟨ha, hdone⟩
  cases h with
  | all calls hdone hpaths =>
    have hend : LoopEnd removed (p :: ps) ((p, a) :: calls) _ :=
      .all _ (hmore calls hdone) (congrArg (p :: ·) hpaths)
    simpa using hend
  | stopped calls hdone q b hfailed rest hpaths =>
    have hend : LoopEnd removed (p :: ps) (((p, a) :: calls) ++ [(q, b)]) _ :=
      .stopped _ (hmore calls hdone) q b hfailed rest (congrArg (p :: ·) hpaths)
    simpa using hend

section

variable {σ : Type} (remove : Remover σ)

theorem removeFiles_recording (removed ps : List RuntimePath) (s : σ) (calls : List RemoverCall) :
    (removeFiles (recording remove) removed ps (s, calls)).1 =
      (removeFiles remove removed ps s).1 := by
  induction ps generalizing removed s calls with
  | nil => rfl
  | cons p ps ih =>
    by_cases ha : (remove p s).1.Succeeded
    · simpa [removeFiles, recording, ha] using ih _ _ _
    · simp [removeFiles, recording, ha]

theorem removeFiles_loopEnd (removed ps : List RuntimePath) (s : σ) (before : List RemoverCall) :
    ∃ calls, (removeFiles (recording remove) removed ps (s, before)).2.2 = before ++ calls ∧
      LoopEnd removed ps calls (removeFiles (recording remove) removed ps (s, before)).1 := by
  induction ps generalizing removed s before with
  | nil =>
    refine ⟨[], (List.append_nil before).symm, ?_⟩
    have hend : LoopEnd removed [] [] _ := .all [] nofun rfl
    simpa [removeFiles] using hend
  | cons p ps ih =>
    by_cases ha : (remove p s).1.Succeeded
    · obtain ⟨calls, hcalls, hend⟩ :=
        ih (removed ++ [p]) (remove p s).2 (before ++ [(p, (remove p s).1)])
      refine ⟨(p, (remove p s).1) :: calls, ?_, ?_⟩
      · simpa [removeFiles, recording, ha] using hcalls
      · simp only [removeFiles, recording, ha, if_true]
        exact hend.cons ha
    · refine ⟨[(p, (remove p s).1)], ?_, ?_⟩
      · simp [removeFiles, recording, ha]
      · have hend : LoopEnd removed (p :: ps) ([] ++ [(p, (remove p s).1)]) _ :=
          .stopped [] nofun p (remove p s).1 ha ps rfl
        simpa [removeFiles, recording, ha] using hend

end

structure RemovalRun (paths ordered : List RuntimePath) (calls : List RemoverCall)
    (r : RecoveryResult) : Prop where
  perm : ordered.Perm paths
  flockLast : FlockLast ordered
  calledInOrder : calls.map Prod.fst <+: ordered
  /-- Only the last call can have failed. -/
  stops : ∀ c ∈ calls.dropLast, c.2.Succeeded
  partition : r.removed ++ r.remaining = ordered
  removed : r.removed = (calls.filter fun c => c.2.Succeeded).map Prod.fst
  /-- Where a `flock.bin` is attempted, nothing else remains. -/
  evidence : ∀ c ∈ calls, c.1.filename = "flock.bin" → ∀ p ∈ r.remaining, p.filename = "flock.bin"
  recovered : r.status = .recovered ↔ r.failures = []
  complete : r.failures = [] ↔ r.remaining = []
  failure : ∀ p rest, r.remaining = p :: rest → ∃ a, calls.getLast? = some (p, a) ∧
    ¬ a.Succeeded ∧ r.failures = [(p, a.message)]

theorem filter_succeeded {calls : List RemoverCall} (h : ∀ c ∈ calls, c.2.Succeeded) :
    (calls.filter fun c => c.2.Succeeded) = calls :=
  List.filter_eq_self.mpr fun c hc => decide_eq_true (h c hc)

theorem LoopEnd.removalRun {paths ordered : List RuntimePath} {calls : List RemoverCall}
    {r : RecoveryResult} (hperm : ordered.Perm paths) (hlast : FlockLast ordered)
    (h : LoopEnd [] ordered calls r) : RemovalRun paths ordered calls r := by
  cases h with
  | all calls hdone hpaths =>
    subst hpaths
    constructor
    case perm => exact hperm
    case flockLast => exact hlast
    case calledInOrder => exact List.prefix_refl _
    case stops => exact fun c hc => hdone c ((List.dropLast_sublist calls).subset hc)
    case partition => exact List.append_nil _
    case removed => rw [filter_succeeded hdone, List.nil_append]
    case evidence => exact fun _ _ _ => nofun
    case recovered => exact iff_of_true rfl rfl
    case complete => exact iff_of_true rfl rfl
    case failure => exact nofun
  | stopped calls hdone p a hfailed rest hpaths =>
    subst hpaths
    obtain ⟨-, hrest, hcross⟩ := List.pairwise_append.mp hlast
    constructor
    case perm => exact hperm
    case flockLast => exact hlast
    case calledInOrder => exact ⟨rest, by simp⟩
    case stops =>
      rw [List.dropLast_concat]
      exact hdone
    case partition => rfl
    case removed =>
      rw [List.filter_append, filter_succeeded hdone]
      simp [hfailed]
    case evidence =>
      intro c hc hflock
      have hp : p.filename = "flock.bin" := by
        rcases List.mem_append.mp hc with hc | hc
        · exact hcross c.1 (List.mem_map_of_mem hc) p List.mem_cons_self hflock
        · rwa [List.mem_singleton.mp hc] at hflock
      intro q hq
      rcases List.mem_cons.mp hq with rfl | hq
      · exact hp
      · exact List.rel_of_pairwise_cons hrest hq hp
    case recovered => exact iff_of_false nofun nofun
    case complete => exact iff_of_false nofun nofun
    case failure =>
      intro q rest' hremaining
      obtain ⟨rfl, rfl⟩ := List.cons.inj hremaining
      exact ⟨a, List.getLast?_concat, hfailed, rfl⟩

/-- Whatever the remover answers, the files are removed one after the other, the evidence of
ownership last, until the first failure. -/
theorem removal_in_order {σ : Type} (remove : Remover σ) (paths : List RuntimePath) (s : σ) :
    ∃ ordered, RemovalRun paths ordered (callsMade remove paths s) (removeKnown remove paths s).1 := by
  obtain ⟨calls, hcalls, hend⟩ :=
    removeFiles_loopEnd remove [] (paths.insertionSort removedBefore) s []
  rw [List.nil_append] at hcalls
  refine ⟨paths.insertionSort removedBefore, ?_⟩
  rw [removeFiles_recording] at hend
  rw [callsMade, removeKnown, hcalls]
  exact hend.removalRun (List.perm_insertionSort _ _) (insertionSort_flockLast paths)

end Recovery
end HakoniwaCorePro
