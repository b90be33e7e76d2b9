import HakoniwaCorePro.LaunchOrder
import HakoniwaCorePro.LauncherRuns

/-!
# Dependencies at run time

The loader hands the sorted assets to the monitor, and `start_all` works through them. Whatever the
watch threads, the processes and the calls do in between: when an asset is spawned, all it depends
on has been spawned since the same `activate` began, the wait for it is over, and no look at it while
it was waited for has found it dead. It may have died since the last look. An asset is its place in
the launch file.
-/

namespace HakoniwaCorePro
namespace Launcher

open Runs

/-- What is seen of the start of the assets. -/
inductive LaunchEvent
  | activates
  | spawned (a : ℕ)
  /-- A look at the asset while it is waited for, after its end. -/
  | foundDead (a : ℕ)
  /-- The wait for the asset is over. -/
  | settled (a : ℕ)
  deriving DecidableEq

def launchSeen (s : Service ℕ) : Action → List LaunchEvent
  | .call .activate => if s.pc = .ready ∧ s.state.Resting then [.activates] else []
  | .advance o =>
    match s.pc with
    | .spawning a _ => if o.raises then [] else [.spawned a]
    | .waiting a pid _ =>
      if o.graceOver then [.settled a] else if s.alive pid then [] else [.foundDead a]
    | _ => []
  | _ => []

def launchHistory (order : List ℕ) (as : List Action) : List LaunchEvent :=
  history (step order) launchSeen .init as

/-- Seen since the last `activate` began. -/
def Lately (o : LaunchEvent) (h : List LaunchEvent) : Prop := Since (· = o) (· = .activates) h

theorem lately_concat {o x : LaunchEvent} {h : List LaunchEvent} (hx : x ≠ .activates) :
    Lately o (h ++ [x]) ↔ x = o ∨ Lately o h := by
  simp [Lately, since_concat, hx]

theorem not_lately_activates {o : LaunchEvent} (ho : o ≠ .activates) (h : List LaunchEvent) :
    ¬ Lately o (h ++ [.activates]) := by
  simp [Lately, since_concat, Ne.symm ho]

/-- The assets `l` have settled, these and the ones in `more` are those that have been spawned, and none
has been found dead. -/
structure Started (h : List LaunchEvent) (l more : List ℕ) : Prop where
  settled : ∀ a ∈ l, Lately (.settled a) h
  spawned : ∀ a, Lately (.spawned a) h ↔ a ∈ l ++ more
  alive : ∀ a, ¬ Lately (.foundDead a) h

/-- How far `start_all` is. -/
def Sequenced (order : List ℕ) (h : List LaunchEvent) : CommandPc ℕ → Prop
  | .starting rest => ∃ l, l ++ rest = order ∧ Started h l []
  | .spawning a rest => ∃ l, l ++ a :: rest = order ∧ Started h l []
  | .waiting a _ rest => ∃ l, l ++ a :: rest = order ∧ Started h l [a]
  | _ => True

/-- In the loop of `start_all`. -/
def CommandPc.starts : CommandPc ℕ → Bool
  | .starting _ | .spawning _ _ | .waiting _ _ _ => true
  | _ => false

section

variable {order : List ℕ} {s : Service ℕ} {h : List LaunchEvent}

theorem sequenced_elsewhere {pc : CommandPc ℕ} (hpc : pc.starts = false) : Sequenced order h pc := by
  cases pc with
  | starting rest => cases hpc
  | spawning a rest => cases hpc
  | waiting a pid rest => cases hpc
  | _ => trivial

theorem sequenced_begin (order : List ℕ) (h : List LaunchEvent) :
    Sequenced order (h ++ [.activates]) (.starting order) :=
  ⟨[], rfl, by simp, fun a => iff_of_false (not_lately_activates (by simp) h) List.not_mem_nil,
    fun a => not_lately_activates (by simp) h⟩

theorem Sequenced.spawned {a : ℕ} {rest : List ℕ} (hs : Sequenced order h (.spawning a rest))
    (pid : ℕ) : Sequenced order (h ++ [.spawned a]) (.waiting a pid rest) := by
  obtain ⟨l, hl, hst⟩ := hs
  refine ⟨l, hl, fun b hb => (lately_concat (by simp)).mpr (Or.inr (hst.settled b hb)),
    fun b => ?_, fun b hb => ?_⟩
  · rw [lately_concat (by simp), hst.spawned b]
    simp [or_comm, eq_comm]
  · rcases (lately_concat (by simp)).mp hb with heq | hb
    · cases heq
    · exact hst.alive b hb

theorem Sequenced.settled {a pid : ℕ} {rest : List ℕ}
    (hs : Sequenced order h (.waiting a pid rest)) :
    Sequenced order (h ++ [.settled a]) (.starting rest) := by
  obtain ⟨l, hl, hst⟩ := hs
  refine ⟨l ++ [a], by simpa using hl, fun b hb => (lately_concat (by simp)).mpr ?_,
    fun b => ?_, fun b hb => ?_⟩
  · rcases List.mem_append.mp hb with hb | hb
    · exact Or.inr (hst.settled b hb)
    · exact Or.inl (by rw [List.mem_singleton.mp hb])
  · rw [lately_concat (by simp), hst.spawned b]
    simp
  · rcases (lately_concat (by simp)).mp hb with heq | hb
    · cases heq
    · exact hst.alive b hb

theorem watch_pc (i : ℕ) (s : Service ℕ) : (watch i s).pc = s.pc := by
  generalize hs' : watch i s = s'
  have hw := watch_watched i s
  rw [hs'] at hw
  cases hw with
  | ended => rfl
  | moved => rfl
  | aborted m p s'' next hi e => exact e.unchanged.2.2.1
  | reported => rfl

theorem terminate_starts (leaves : Bool) (s : Service ℕ) :
    (terminate leaves s).pc.starts = false := by
  by_cases hrest : s.state.Resting
  · rw [terminate_resting leaves hrest]
    cases leaves with
    | true => rfl
    | false => rfl
  · rw [terminate_active leaves hrest]
    rfl

theorem cmd_starts (command : Option HakoCommand) (hs : s.pc.starts = false) :
    (cmd command s).pc.starts = false := by
  unfold cmd
  split
  · exact hs
  · exact hs
  · cases command with
    | none => exact hs
    | some c => rfl

theorem activate_sequenced (hready : s.pc = .ready) :
    Sequenced order (h ++ launchSeen s (.call .activate)) (activate order s).pc := by
  have hnone : s.pc.starts = false := by rw [hready]; rfl
  simp only [launchSeen, hready, true_and, activate]
  cases s.state with
  | idle => exact sequenced_begin order h
  | terminated => exact sequenced_begin order h
  | activated => exact sequenced_elsewhere hnone
  | running => exact sequenced_elsewhere hnone
  | stopped => exact sequenced_elsewhere hnone

theorem call_sequenced (c : Call) (hs : Sequenced order h s.pc) :
    Sequenced order (h ++ launchSeen s (.call c)) (callStep order c s).pc := by
  by_cases hready : s.pc = .ready
  · have hnone : s.pc.starts = false := by rw [hready]; rfl
    simp only [callStep, hready]
    cases c with
    | activate => exact activate_sequenced hready
    | cmd command => exact sequenced_elsewhere (cmd_starts command hnone)
    | terminate => exact sequenced_elsewhere (terminate_starts false s)
  · have hsame : callStep order c s = s := by
      unfold callStep
      split
      · next hpc => exact absurd hpc hready
      · rfl
    have hnone : launchSeen s (.call c) = [] := by
      cases c <;> simp [launchSeen, hready]
    rw [hsame, hnone, List.append_nil]
    exact hs

theorem resume_starts {r : Service ℕ × Option AbortPc} {within : AbortPc → CommandPc ℕ}
    {behind : CommandPc ℕ} (hwithin : ∀ p, (within p).starts = false)
    (hbehind : behind.starts = false) : (Service.resume r within behind).pc.starts = false := by
  unfold Service.resume
  cases r.2 with
  | some p => exact hwithin p
  | none => exact hbehind

theorem advance_sequenced (o : Answer) (hs : Sequenced order h s.pc) :
    Sequenced order (h ++ launchSeen s (.advance o)) (advance o s).pc := by
  unfold advance launchSeen
  cases hpc : s.pc with
  | ready | left => exact sequenced_elsewhere (by rw [hpc]; rfl)
  | starting rest =>
    rw [hpc] at hs
    cases rest with
    | nil => exact sequenced_elsewhere rfl
    | cons a rest =>
      simp only [List.append_nil]
      split
      · exact sequenced_elsewhere rfl
      · exact hs
  | spawning a rest =>
    rw [hpc] at hs
    simp only
    split
    · exact sequenced_elsewhere rfl
    · exact hs.spawned s.processes.length
  | waiting a pid rest =>
    rw [hpc] at hs
    simp only
    split
    · exact hs.settled
    · split
      · rwa [List.append_nil, hpc]
      · exact sequenced_elsewhere rfl
  | startFailed p => exact sequenced_elsewhere (resume_starts (fun _ => rfl) rfl)
  | clearing | creating | activating => exact sequenced_elsewhere rfl
  | executing c =>
    simp only
    split
    · exact sequenced_elsewhere rfl
    · exact sequenced_elsewhere rfl
  | assigning c => exact sequenced_elsewhere rfl
  | aborting p leaves => exact sequenced_elsewhere (resume_starts (fun _ => rfl) rfl)
  | stopping leaves => exact sequenced_elsewhere rfl
  | terminating leaves =>
    cases leaves with
    | true => exact sequenced_elsewhere rfl
    | false => exact sequenced_elsewhere rfl

theorem step_sequenced (a : Action) (hs : Sequenced order h s.pc) :
    Sequenced order (h ++ launchSeen s a) (step order s a).pc := by
  cases a with
  | call c => exact call_sequenced c hs
  | advance o => exact advance_sequenced o hs
  | watch i =>
    simp only [launchSeen, List.append_nil, step, watch_pc]
    exact hs
  | exit pid => simpa [launchSeen, step] using hs
  | interrupt =>
    simp only [launchSeen, List.append_nil, step, interrupt]
    split
    · exact hs
    · exact sequenced_elsewhere (terminate_starts true s)

end

theorem run_sequenced (order : List ℕ) (as : List Action) :
    Sequenced order (launchHistory order as) (run (step order) .init as).pc := by
  induction as using List.reverseRecOn with
  | nil => trivial
  | append_singleton as a ih =>
    rw [launchHistory, history_concat, run_concat]
    exact step_sequenced a ih

theorem spawned_seen {s : Service ℕ} {a : Action} {i : ℕ} (h : .spawned i ∈ launchSeen s a) :
    ∃ rest, s.pc = .spawning i rest := by
  cases a with
  | call c =>
    cases c with
    | activate =>
      simp only [launchSeen] at h
      split at h <;> simp at h
    | cmd _ | terminate => simp [launchSeen] at h
  | advance o =>
    simp only [launchSeen] at h
    split at h
    · next b rest hpc =>
      split at h
      · simp at h
      · obtain rfl : i = b := by simpa using h
        exact ⟨rest, hpc⟩
    · split at h <;> simp at h
    · simp at h
  | watch _ | exit _ | interrupt => simp [launchSeen] at h

theorem launchSeen_length (s : Service ℕ) (a : Action) : (launchSeen s a).length ≤ 1 := by
  cases a with
  | call c =>
    cases c with
    | activate =>
      simp only [launchSeen]
      split <;> simp
    | cmd _ | terminate => simp [launchSeen]
  | advance o =>
    simp only [launchSeen]
    split
    · split <;> simp
    · split
      · simp
      · split <;> simp
    · simp
  | watch _ | exit _ | interrupt => simp [launchSeen]

/-- In every run of the launcher on a file whose assets have names of their own: before an asset is
spawned, all it depends on has been spawned and has settled since the last `activate` began, none of
it was found dead, and the asset has not been spawned itself since then. -/
theorem dependencies_settled (assets : List Launch.Asset) (order : List ℕ)
    (hnames : (assets.map Launch.Asset.name).Nodup)
    (horder : Launch.toposortAssets assets = some (.ok order)) (as : List Action)
    {h₁ h₂ : List LaunchEvent} {i : ℕ}
    (hspawn : launchHistory order as = h₁ ++ .spawned i :: h₂) :
    (∀ j, Launch.Needs assets i j →
      Lately (.spawned j) h₁ ∧ Lately (.settled j) h₁ ∧ ¬ Lately (.foundDead j) h₁) ∧
    ¬ Lately (.spawned i) h₁ := by
  obtain ⟨as₁, a, as₂, -, rfl, hseen⟩ := history_split launchSeen_length hspawn
  obtain ⟨rest, hpc⟩ := spawned_seen hseen
  have hseq := run_sequenced order as₁
  rw [hpc] at hseq
  obtain ⟨l, hl, hst⟩ := hseq
  have hknown : Launch.Known assets := by
    by_contra hnot
    obtain ⟨b, d, hb⟩ := Launch.toposortAssets_unknown hnot
    rw [horder] at hb
    simp at hb
  obtain ⟨outcome, hout, hsorts⟩ := Launch.sorts_of_nodup hknown hnames
  obtain rfl := Option.some.inj (horder.symm.trans hout)
  obtain ⟨hperm, hbehind, -⟩ := hsorts.order order rfl
  refine ⟨fun j hj => ?_, fun hi => ?_⟩
  · have hbefore := hbehind l i rest hl.symm j hj
    exact ⟨(hst.spawned j).mpr (List.mem_append_left _ hbefore), hst.settled j hbefore, hst.alive j⟩
  · have hmem := (hst.spawned i).mp hi
    have hnodup : (l ++ i :: rest).Nodup := hl ▸ hperm.nodup_iff.mpr List.nodup_range
    exact (List.nodup_append.mp hnodup).2.2 i (by simpa using hmem) i List.mem_cons_self rfl

def droneOnPhysics : List Launch.Asset :=
  [⟨Launch.lit "drone", none, [Launch.lit "physics"]⟩, ⟨Launch.lit "physics", none, []⟩]

theorem drone_waits :
    (∀ j, Launch.Needs droneOnPhysics 0 j →
      Lately (.spawned j) [.activates, .spawned 1, .settled 1] ∧
      Lately (.settled j) [.activates, .spawned 1, .settled 1] ∧
      ¬ Lately (.foundDead j) [.activates, .spawned 1, .settled 1]) ∧
    ¬ Lately (.spawned 0) [.activates, .spawned 1, .settled 1] :=
  dependencies_settled droneOnPhysics [1, 0] (by decide) (by decide)
    (.call .activate :: List.replicate 6 (.advance smooth))
    (show _ = [LaunchEvent.activates, .spawned 1, .settled 1] ++ .spawned 0 :: [.settled 0] by decide)

end Launcher
end HakoniwaCorePro
