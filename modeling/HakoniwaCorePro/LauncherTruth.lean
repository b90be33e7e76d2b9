import HakoniwaCorePro.LauncherService
import Mathlib.Tactic.Common

/-!
# The state tells the truth

What `self.state` says against what has happened: the monitor's flag, the return code of
`hako-cmd start`, the grace periods. The code computes all three and consults none of them where
it writes the state.
-/

namespace HakoniwaCorePro
namespace Launcher

open Runs

variable {Asset : Type*}

/-- Between the test of the state in `cmd` and its write. -/
def CommandPc.inCommand : CommandPc Asset → Bool
  | .executing _ | .assigning _ => true
  | _ => false

/-- The command that `hako-cmd` is running. -/
def CommandPc.command : CommandPc Asset → Option HakoCommand
  | .executing c => some c
  | _ => none

def CommandPc.awaited : CommandPc Asset → Option ℕ
  | .waiting _ pid _ => some pid
  | _ => none

/-- A watch thread does not abort the monitor of an `activate` that is under way, and does not
report the end between the test of the state in `cmd` and its write. -/
def Service.Reports (s : Service Asset) : WatchPc → Prop
  | .aborting m .setting => m = s.current → s.pc.inActivate = false
  | .assigning => s.pc.inCommand = false
  | _ => True

/-- Besides: every process outlives its grace period, and `hako-cmd start` returns 0. -/
def Steady (s : Service Asset) : Action → Prop
  | .advance o => s.pc.command = some .start → o.returnCode = none ∨ o.returnCode = some 0
  | .watch i => ∀ w ∈ s.watchers[i]?, s.Reports w
  | .exit pid => s.pc.awaited ≠ some pid
  | _ => True

instance reportsDecidable (s : Service Asset) : ∀ w, Decidable (s.Reports w)
  | .aborting _ .setting => inferInstanceAs (Decidable (_ → _))
  | .assigning => inferInstanceAs (Decidable (_ = _))
  | .aborting _ .checking | .aborting _ (.reversing _) | .aborting _ (.telling _ _) => isTrue trivial
  | .looping | .listing | .scanning _ | .detected | .stopping | .ended => isTrue trivial

instance (s : Service Asset) : ∀ a, Decidable (Steady s a)
  | .advance _ => inferInstanceAs (Decidable (_ → _ ∨ _))
  | .watch i => inferInstanceAs (Decidable (∀ w ∈ s.watchers[i]?, s.Reports w))
  | .exit _ => inferInstanceAs (Decidable (_ ≠ _))
  | .call _ | .interrupt => isTrue trivial

inductive Thread
  | command
  | watcher (i : ℕ)

def Thread.mine : Thread → Action → Bool
  | .command, .advance _ => true
  | .watcher i, .watch j => decide (i = j)
  | _, _ => false

/-- Some thread reaches `TERMINATED` with its next steps, however many others come in between. -/
def Becomes (assets : List Asset) (s : Service Asset) : Prop :=
  ∃ (t : Thread) (n : ℕ), ∀ as : List Action,
    Along (step assets) (fun s a => Steady s a ∧ a ≠ .interrupt) s as → n ≤ as.countP t.mine →
      ∃ as₁ as₂, as = as₁ ++ as₂ ∧ (run (step assets) s as₁).state = .terminated

/-- Once the monitor has been aborted the state is or becomes `TERMINATED`, which only `activate`
ends; it is `RUNNING` only if the last `hako-cmd start` returned 0; and after `activate` it is
`ACTIVATED` only if every asset has outlived its grace period. -/
def TellsTruth (assets : List Asset) (s : Service Asset) (a : Action) : Prop :=
  let s' := step assets s a
  (s'.monitor.aborted = true → s'.state = .terminated ∨ Becomes assets s') ∧
    (s.state = .terminated → s'.state = .terminated ∨ ActivateReturns s a) ∧
    (s'.state = .running → s'.lastStart = some 0) ∧
    (ActivateReturns s a → s'.survived = assets)

def CommandPc.inTerminate : CommandPc Asset → Bool
  | .aborting _ _ | .stopping _ | .terminating _ => true
  | _ => false

/-- The watch thread has set the flag and is going to report the end. -/
def WatchPc.ends : WatchPc → Bool
  | .aborting _ p => p.underway
  | .assigning => true
  | _ => false

/-- Some thread is going to write `TERMINATED`. -/
def Service.Pending (s : Service Asset) : Prop :=
  s.pc.inTerminate = true ∨ ∃ (i : ℕ) (w : WatchPc), s.watchers[i]? = some w ∧ w.ends = true

/-- With `l`, the assets that have outlived their grace period since `activate` began, and the
others still to come, it is the list of all. -/
def Surviving (assets : List Asset) (alive : ℕ → Bool) (l : List Asset) : CommandPc Asset → Prop
  | .starting rest => l ++ rest = assets
  | .spawning a rest => l ++ a :: rest = assets
  | .waiting a pid rest => l ++ a :: rest = assets ∧ alive pid = true
  | .clearing | .creating | .activating => l = assets
  | .startFailed _ => False
  | _ => True

structure Honest (assets : List Asset) (s : Service Asset) : Prop where
  fresh : s.pc.inActivate = true → s.monitor.aborted = false
  idle : s.state = .idle → s.monitor.aborted = false ∧
    (s.pc = .left ∨ s.pc = .ready ∨ s.pc.inActivate = true)
  watched : s.state = .idle → s.pc = .activating ∨ s.watchers = []
  command : s.pc.inCommand = true → s.state ≠ .terminated
  pending : s.monitor.aborted = true → s.state = .terminated ∨ s.Pending
  left : s.pc = .left → s.watchers = []
  running : s.state = .running → s.lastStart = some 0
  started : s.pc = .assigning .start → s.lastStart = some 0
  survived : Surviving assets s.alive s.survived s.pc
  aborting : ∀ (i m : ℕ) (p : AbortPc), s.watchers[i]? = some (.aborting m p) →
    m ≤ s.current ∧ (p.underway = true → (s.monitors m).aborted = true)

theorem honest_init (assets : List Asset) : Honest assets (.init : Service Asset) where
  fresh := nofun
  idle _ := ⟨rfl, Or.inr (Or.inl rfl)⟩
  watched _ := Or.inr rfl
  command := nofun
  pending := nofun
  left := nofun
  running := nofun
  started := nofun
  survived := trivial
  aborting := nofun

section

variable {assets : List Asset} {s s' : Service Asset}

theorem Honest.moved (h : Honest assets s) {q : CommandPc Asset} {stop : Bool} {l : List Asset}
    {r : Option ℤ} (hfresh : q.inActivate = true → s.pc.inActivate = true)
    (hidle : s.state = .idle → s.pc ≠ .activating ∧ (q = .ready ∨ q.inActivate = true))
    (hcommand : q.inCommand = true → s.state ≠ .terminated)
    (hpending : s.pc.inTerminate = true → q.inTerminate = true) (hleft : q ≠ .left)
    (hrunning : s.state = .running ∨ q = .assigning .start → r = some 0)
    (hsurvived : Surviving assets s.alive l q) :
    Honest assets { s with pc := q, stopWatch := stop, survived := l, lastStart := r } where
  fresh hin := h.fresh (hfresh hin)
  idle hi := ⟨(h.idle hi).1, Or.inr (hidle hi).2⟩
  watched hi := Or.inr ((h.watched hi).resolve_left (hidle hi).1)
  command := hcommand
  pending hab := (h.pending hab).imp_right fun hp => hp.imp_left hpending
  left hl := absurd hl hleft
  running hr := hrunning (Or.inl hr)
  started hs := hrunning (Or.inr hs)
  survived := hsurvived
  aborting := h.aborting

theorem honest_begin (haborted : s.monitor.aborted = false)
    (hwatched : s.state = .idle → s.watchers = []) (hrunning : s.state ≠ .running)
    (haborting : ∀ (i m : ℕ) (p : AbortPc), s.watchers[i]? = some (.aborting m p) →
      m ≤ s.current ∧ (p.underway = true → (s.monitors m).aborted = true)) :
    Honest assets (s.beginActivate assets) where
  fresh _ := haborted
  idle _ := ⟨haborted, Or.inr (Or.inr rfl)⟩
  watched hi := Or.inr (hwatched hi)
  command := nofun
  pending hab := by
    rw [show (s.beginActivate assets).monitor = s.monitor from rfl, haborted] at hab
    cases hab
  left := nofun
  running hr := absurd hr hrunning
  started := nofun
  survived := rfl
  aborting := haborting

theorem honest_activate (h : Honest assets s) (hready : s.pc = .ready) :
    Honest assets (activate assets s) := by
  cases hstate : s.state with
  | idle =>
    rw [activate, hstate]
    refine honest_begin (h.idle hstate).1 (fun hi => (h.watched hi).resolve_left ?_) ?_ h.aborting
    · rw [hready]
      intro h
      cases h
    · rw [hstate]
      intro h
      cases h
  | terminated =>
    rw [activate, hstate]
    have hmonitor : s.renewMonitor.monitor = Monitor.fresh := by
      simp [Service.renewMonitor, Service.monitor, Service.setMonitor]
    refine honest_begin ?_ ?_ ?_ ?_
    · rw [hmonitor]
      rfl
    · intro hi
      cases hi.symm.trans hstate
    · intro hr
      cases hr.symm.trans hstate
    · intro i m p hi
      obtain ⟨hle, hflag⟩ := h.aborting i m p hi
      have hne : m ≠ s.current + 1 := by omega
      refine ⟨Nat.le_succ_of_le hle, fun hunderway => ?_⟩
      simpa [Service.renewMonitor, Service.setMonitor, hne] using hflag hunderway
  | activated =>
    rw [activate, hstate]
    exact h
  | running =>
    rw [activate, hstate]
    exact h
  | stopped =>
    rw [activate, hstate]
    exact h

theorem honest_cmd (h : Honest assets s) (hready : s.pc = .ready) (command : Option HakoCommand) :
    Honest assets (cmd command s) := by
  unfold cmd
  split
  · exact h
  · exact h
  · rename_i hidle hterminated
    cases command with
    | none => exact h
    | some c =>
      refine h.moved (q := .executing c) nofun (fun hi => absurd hi hidle) (fun _ => hterminated)
        ?_ nofun ?_ trivial
      · rw [hready]
        nofun
      · rintro (hr | hs)
        · exact h.running hr
        · cases hs

theorem honest_terminate (h : Honest assets s) {leaves : Bool}
    (hready : leaves = false → s.pc = .ready) : Honest assets (terminate leaves s) := by
  have hresting : s.state = .idle ∨ s.state = .terminated →
      Honest assets (s.afterTerminate leaves) := by
    intro hrest
    cases leaves with
    | true =>
      refine ⟨nofun, fun hi => ⟨(h.idle hi).1, Or.inl rfl⟩, fun _ => Or.inr rfl, nofun, fun hab => ?_,
        fun _ => rfl, h.running, nofun, trivial, nofun⟩
      rcases hrest with hi | ht
      · have hclear := (h.idle hi).1
        rw [show (s.afterTerminate true).monitor = s.monitor from rfl, hclear] at hab
        cases hab
      · exact Or.inl ht
    | false =>
      have hsame : s.afterTerminate false = s := by
        rw [Service.afterTerminate, Service.setPc, ← hready rfl]
        rfl
      rw [hsame]
      exact h
  unfold terminate
  split
  · rename_i hidle
    exact hresting (Or.inl hidle)
  · rename_i hterminated
    exact hresting (Or.inr hterminated)
  · rename_i hidle _
    refine h.moved (q := .aborting .checking leaves) nofun (fun hi => absurd hi hidle) nofun
      (fun _ => rfl) nofun ?_ trivial
    rintro (hr | hs)
    · exact h.running hr
    · cases hs

theorem honest_callStep (h : Honest assets s) (c : Call) : Honest assets (callStep assets c s) := by
  unfold callStep
  split
  · rename_i hready
    cases c with
    | activate => exact honest_activate h hready
    | cmd command => exact honest_cmd h hready command
    | terminate => exact honest_terminate h fun _ => hready
  · exact h

theorem honest_interrupt (h : Honest assets s) : Honest assets (interrupt s) := by
  unfold interrupt
  split
  · exact h
  · exact honest_terminate h nofun

theorem Honest.surviving (h : Honest assets s) {q : CommandPc Asset} (hpc : s.pc = q) :
    Surviving assets s.alive s.survived q := hpc ▸ h.survived

theorem Honest.not_idle (h : Honest assets s) {q : CommandPc Asset} (hpc : s.pc = q)
    (hq : q ≠ .left ∧ q ≠ .ready ∧ q.inActivate = false) : s.state ≠ .idle := by
  intro hi
  rcases (h.idle hi).2 with hl | hr | hin
  · exact hq.1 (hpc.symm.trans hl)
  · exact hq.2.1 (hpc.symm.trans hr)
  · rw [hpc, hq.2.2] at hin
    cases hin

theorem CommandPc.not_of_inActivate {q : CommandPc Asset} (hq : q.inActivate = true) :
    q.inCommand = false ∧ q.inTerminate = false := by
  cases q with
  | executing | assigning | aborting | stopping | terminating => cases hq
  | _ => exact ⟨rfl, rfl⟩

theorem Honest.activated (h : Honest assets s) {q₀ q : CommandPc Asset} (hpc : s.pc = q₀)
    (hfrom : q₀.inActivate = true ∧ q₀ ≠ .activating) (hto : q.inActivate = true) {stop : Bool}
    {l : List Asset} (hsurvived : Surviving assets s.alive l q) :
    Honest assets { s with pc := q, stopWatch := stop, survived := l, lastStart := s.lastStart } := by
  refine h.moved (fun _ => ?_) (fun _ => ⟨?_, Or.inr hto⟩) ?_ ?_ ?_ ?_ hsurvived
  · rw [hpc]
    exact hfrom.1
  · rw [hpc]
    exact hfrom.2
  · intro hc
    exact nomatch (CommandPc.not_of_inActivate hto).1.symm.trans hc
  · intro hin
    rw [hpc, (CommandPc.not_of_inActivate hfrom.1).2] at hin
    cases hin
  · rintro rfl
    cases hto
  · rintro (hr | rfl)
    · exact h.running hr
    · cases hto

theorem honest_spawn (h : Honest assets s) {a : Asset} {rest : List Asset}
    (hpc : s.pc = .spawning a rest) : Honest assets (s.spawn a rest) := by
  have hsurvived : s.survived ++ a :: rest = assets := h.surviving hpc
  have haborted : (s.spawn a rest).monitor.aborted = false := by
    have hclear := h.fresh (by rw [hpc]; rfl)
    simpa [Service.spawn, Service.monitor, Service.setMonitor] using hclear
  have hflags : ∀ m, ((s.spawn a rest).monitors m).aborted = (s.monitors m).aborted := by
    intro m
    by_cases hm : m = s.current
    · subst hm
      simp [Service.spawn, Service.monitor, Service.setMonitor]
    · simp [Service.spawn, Service.setMonitor, hm]
  constructor
  · exact fun _ => haborted
  · exact fun _ => ⟨haborted, Or.inr (Or.inr rfl)⟩
  · intro hi
    refine Or.inr ((h.watched hi).resolve_left ?_)
    rw [hpc]
    intro h
    cases h
  · intro h
    cases h
  · intro hab
    rw [haborted] at hab
    cases hab
  · intro h
    cases h
  · exact h.running
  · intro h
    cases h
  · exact ⟨hsurvived, by simp [Service.spawn]⟩
  · intro i m p hi
    obtain ⟨hle, hflag⟩ := h.aborting i m p hi
    refine ⟨hle, fun hunderway => ?_⟩
    rw [hflags]
    exact hflag hunderway

theorem honest_creating (h : Honest assets s) (hpc : s.pc = .creating) (o : Answer) :
    Honest assets (advance o s) := by
  have hclear := h.fresh (by rw [hpc]; rfl)
  have hsurvived : s.survived = assets := h.surviving hpc
  rw [advance, hpc]
  refine ⟨fun _ => hclear, fun _ => ⟨hclear, Or.inr (Or.inr rfl)⟩, fun _ => Or.inl rfl, nofun,
    fun hab => ?_, nofun, h.running, nofun, hsurvived, fun i m p hi => ?_⟩
  · exact nomatch hclear.symm.trans hab
  · rcases List.mem_append.mp (List.mem_of_getElem? hi) with hmem | hmem
    · obtain ⟨j, hj⟩ := List.mem_iff_getElem?.mp hmem
      exact h.aborting j m p hj
    · simp at hmem

theorem honest_assign (h : Honest assets s) {t : LauncherState}
    (hidle : t ≠ .idle) (hrunning : t = .running → s.lastStart = some 0)
    (hpending : s.monitor.aborted = true →
      ∃ (i : ℕ) (w : WatchPc), s.watchers[i]? = some w ∧ w.ends = true) :
    Honest assets { s with state := t, pc := .ready } where
  fresh := nofun
  idle hi := absurd hi hidle
  watched hi := absurd hi hidle
  command := nofun
  pending hab := Or.inr (Or.inr (hpending hab))
  left := nofun
  running := hrunning
  started := nofun
  survived := trivial
  aborting := h.aborting

theorem honest_abort (h : Honest assets s) {p : AbortPc} {leaves : Bool}
    (hpc : s.pc = .aborting p leaves) (o : Answer) : Honest assets (advance o s) := by
  have hidle := h.not_idle hpc ⟨nofun, nofun, rfl⟩
  have hgo : ∀ (s' : Service Asset) (next : Option AbortPc) (q : CommandPc Asset),
      AbortEffect s.current s p s' next → q.inTerminate = true → Honest assets (s'.setPc q) := by
    intro s' next q e hq
    obtain ⟨hstate, hcurrent, -, hwatchers, hlast⟩ := e.unchanged
    have hnot : q.inActivate = false ∧ q.inCommand = false ∧ q ≠ .left ∧ q ≠ .assigning .start ∧
        Surviving assets s'.alive s'.survived q := by
      cases q with
      | aborting | stopping | terminating => exact ⟨rfl, rfl, nofun, nofun, trivial⟩
      | _ => cases hq
    obtain ⟨hin, hcommand, hleft, hassigning, hsurviving⟩ := hnot
    refine ⟨fun hi => ?_, fun hi => ?_, fun hi => ?_, fun hc => ?_, fun _ => Or.inr (Or.inl hq),
      fun hl => absurd hl hleft, fun hr => ?_, fun hs => absurd hs hassigning, hsurviving, ?_⟩
    · exact nomatch hin.symm.trans hi
    · exact absurd (hstate.symm.trans hi) hidle
    · exact absurd (hstate.symm.trans hi) hidle
    · exact nomatch hcommand.symm.trans hc
    · exact hlast.trans (h.running (hstate.symm.trans hr))
    · intro i m p hi
      obtain ⟨hle, hflag⟩ := h.aborting i m p ((congrArg (·[i]?) hwatchers).symm.trans hi)
      refine ⟨?_, fun hunderway => ?_⟩
      · change m ≤ s'.current
        rw [hcurrent]
        exact hle
      · rw [show (s'.setPc q).monitors = s'.monitors from rfl, e.aborted, hflag hunderway]
        rfl
  rw [advance, hpc]
  exact resume_of_effect (fun s' p' e => hgo s' _ (.aborting p' leaves) e rfl)
    fun s' e => hgo s' _ (.stopping leaves) e rfl

theorem honest_terminating (h : Honest assets s) {leaves : Bool} (hpc : s.pc = .terminating leaves)
    (o : Answer) : Honest assets (advance o s) := by
  rw [advance, hpc]
  cases leaves with
  | true =>
    exact ⟨nofun, nofun, nofun, nofun, fun _ => Or.inl rfl, fun _ => rfl, nofun, nofun, trivial, nofun⟩
  | false =>
    exact ⟨nofun, nofun, nofun, nofun, fun _ => Or.inl rfl, nofun, nofun, nofun, trivial, h.aborting⟩

theorem Honest.ending_watcher (h : Honest assets s) (hstate : s.state ≠ .terminated)
    (hpc : s.pc.inTerminate = false) (haborted : s.monitor.aborted = true) :
    ∃ (i : ℕ) (w : WatchPc), s.watchers[i]? = some w ∧ w.ends = true := by
  rcases h.pending haborted with ht | hmine | hwatcher
  · exact absurd ht hstate
  · rw [hpc] at hmine
    cases hmine
  · exact hwatcher

theorem honest_executing (h : Honest assets s) {c : HakoCommand} (hpc : s.pc = .executing c)
    {o : Answer} (ho : c = .start → o.returnCode = none ∨ o.returnCode = some 0) :
    Honest assets (advance o s) := by
  have hidle := h.not_idle hpc ⟨nofun, nofun, rfl⟩
  have hcommand := h.command (by rw [hpc]; rfl)
  have hnot : s.pc.inTerminate = true → (CommandPc.inTerminate (.ready : CommandPc Asset)) = true := by
    rw [hpc]
    nofun
  rw [advance, hpc]
  cases hcode : o.returnCode with
  | none =>
    dsimp only
    refine h.moved (q := .ready) nofun (fun hi => absurd hi hidle) nofun hnot nofun ?_ trivial
    rintro (hr | hs)
    · exact h.running hr
    · cases hs
  | some rc =>
    dsimp only
    refine h.moved (q := .assigning c) nofun (fun hi => absurd hi hidle) (fun _ => hcommand) ?_ nofun ?_
      trivial
    · rw [hpc]
      nofun
    · intro hreason
      split_ifs with hc
      · rcases ho hc with hnone | hzero
        · rw [hcode] at hnone
          cases hnone
        · rw [← hcode, hzero]
      · rcases hreason with hr | hs
        · exact h.running hr
        · cases hs
          exact absurd rfl hc

theorem honest_advance (h : Honest assets s) {o : Answer} (hc : Steady s (.advance o)) :
    Honest assets (advance o s) := by
  cases hpc : s.pc with
  | ready =>
    rw [advance, hpc]
    exact h
  | left =>
    rw [advance, hpc]
    exact h
  | starting rest =>
    have hclear := h.fresh (by rw [hpc]; rfl)
    have hsurvived := h.surviving hpc
    cases rest with
    | nil =>
      rw [advance, hpc]
      exact h.activated hpc ⟨rfl, nofun⟩ (q := .clearing) rfl (by simpa [Surviving] using hsurvived)
    | cons a rest =>
      rw [advance, hpc]
      simp only [hclear, Bool.false_eq_true, if_false]
      exact h.activated hpc ⟨rfl, nofun⟩ (q := .spawning a rest) rfl hsurvived
  | spawning a rest =>
    rw [advance, hpc]
    dsimp only
    split_ifs
    · refine h.moved (q := .ready) nofun (fun _ => ⟨?_, Or.inl rfl⟩) nofun ?_ nofun ?_ trivial
      · rw [hpc]
        nofun
      · rw [hpc]
        nofun
      · rintro (hr | hs)
        · exact h.running hr
        · cases hs
    · exact honest_spawn h hpc
  | waiting a pid rest =>
    obtain ⟨hsurvived, halive⟩ := h.surviving hpc
    rw [advance, hpc]
    simp only [halive, if_true]
    split_ifs
    · refine h.activated hpc ⟨rfl, nofun⟩ (q := .starting rest) rfl ?_
      simpa [Surviving, halive] using hsurvived
    · exact h
  | startFailed p => exact (h.surviving hpc).elim
  | clearing =>
    have hsurvived : s.survived = assets := h.surviving hpc
    rw [advance, hpc]
    exact h.activated hpc ⟨rfl, nofun⟩ (q := .creating) rfl hsurvived
  | creating => exact honest_creating h hpc o
  | activating =>
    have hclear := h.fresh (by rw [hpc]; rfl)
    rw [advance, hpc]
    refine honest_assign h nofun nofun fun hab => ?_
    exact nomatch hclear.symm.trans hab
  | executing c =>
    refine honest_executing h hpc fun hstart => hc ?_
    rw [hpc, hstart]
    rfl
  | assigning c =>
    rw [advance, hpc]
    refine honest_assign h (by cases c <;> nofun) ?_ fun hab => ?_
    · intro htarget
      refine h.started (hpc.trans ?_)
      cases c with
      | start => rfl
      | stop => cases htarget
      | reset => cases htarget
    · exact h.ending_watcher (h.command (by rw [hpc]; rfl)) (by rw [hpc]; rfl) hab
  | aborting p leaves => exact honest_abort h hpc o
  | stopping leaves =>
    have hidle := h.not_idle hpc ⟨nofun, nofun, rfl⟩
    rw [advance, hpc]
    refine h.moved (q := .terminating leaves) nofun (fun hi => absurd hi hidle) nofun (fun _ => rfl)
      nofun ?_ trivial
    rintro (hr | hs)
    · exact h.running hr
    · cases hs
  | terminating leaves => exact honest_terminating h hpc o

theorem Honest.activating_of_watcher (h : Honest assets s) {i : ℕ} {w : WatchPc}
    (hi : s.watchers[i]? = some w) (hidle : s.state = .idle) : s.pc = .activating := by
  refine (h.watched hidle).resolve_right fun hwatchers => ?_
  rw [hwatchers] at hi
  cases hi

theorem Honest.not_left_of_watcher (h : Honest assets s) {i : ℕ} {w : WatchPc}
    (hi : s.watchers[i]? = some w) : s.pc ≠ .left := by
  intro hleft
  rw [h.left hleft] at hi
  cases hi

theorem Honest.setWatcher (h : Honest assets s) {i : ℕ} {w w' : WatchPc}
    (hi : s.watchers[i]? = some w) {t : LauncherState} {stop : Bool}
    (hends : w.ends = true → t = .terminated)
    (hw' : ∀ m p, w' = .aborting m p → m ≤ s.current ∧ p.underway = false)
    (ht : t = s.state ∨ t = .terminated ∧ s.pc.inCommand = false) :
    Honest assets ({ s with state := t, stopWatch := stop }.setWatcher i w') := by
  have hsame : t ≠ .terminated → s.state = t := fun hne =>
    (ht.resolve_right fun hterm => hne hterm.1).symm
  have hidle : t = .idle → s.state = .idle := by
    rintro rfl
    exact hsame nofun
  refine ⟨h.fresh, fun hi' => h.idle (hidle hi'),
    fun hi' => Or.inl (h.activating_of_watcher hi (hidle hi')), ?_, ?_,
    fun hleft => absurd hleft (h.not_left_of_watcher hi), ?_, h.started, h.survived, ?_⟩
  · intro hc
    rcases ht with hstate | ⟨-, hnot⟩
    · intro hterm
      exact h.command hc (hstate.symm.trans hterm)
    · exact nomatch hnot.symm.trans hc
  · intro hab
    rcases h.pending hab with hstate | hmine | ⟨j, w₀, hj, hw₀⟩
    · left
      rcases ht with hsame | hterm
      · exact hsame.trans hstate
      · exact hterm.1
    · exact Or.inr (Or.inl hmine)
    · by_cases hij : i = j
      · rw [← hij, hi] at hj
        cases hj
        exact Or.inl (hends hw₀)
      · exact Or.inr (Or.inr ⟨j, w₀, (List.getElem?_set_ne hij).trans hj, hw₀⟩)
  · rintro rfl
    exact h.running (hsame nofun)
  · intro j m p hj
    by_cases hij : i = j
    · rw [← hij] at hj
      have hset := List.getElem?_set_self (a := w') (List.getElem?_eq_some_iff.mp hi).1
      obtain ⟨hle, hnot⟩ := hw' m p (Option.some.inj (hset.symm.trans hj))
      exact ⟨hle, fun hunderway => nomatch hnot.symm.trans hunderway⟩
    · exact h.aborting j m p ((List.getElem?_set_ne hij).symm.trans hj)

theorem Honest.watch_aborting (h : Honest assets s) {i m : ℕ} {p : AbortPc} {next : Option AbortPc}
    {w' : WatchPc} (hi : s.watchers[i]? = some (.aborting m p)) (e : AbortEffect m s p s' next)
    (hw : w' = next.elim .assigning (.aborting m)) {j k : ℕ} {q : AbortPc}
    (hj : (s'.setWatcher i w').watchers[j]? = some (.aborting k q)) :
    k ≤ s.current ∧ (q.underway = true → (s'.monitors k).aborted = true) := by
  by_cases hij : i = j
  · rw [← hij, e.watcher_self hi, hw] at hj
    cases next with
    | none => cases hj
    | some p' =>
      cases hj
      obtain ⟨hle, hflag⟩ := h.aborting i m p hi
      refine ⟨hle, fun hunderway => ?_⟩
      rw [e.aborted]
      rcases (e.underway _ rfl).mp hunderway with hp | hp
      · rw [hflag hp]
        rfl
      · simp [hp]
  · obtain ⟨hle, hflag⟩ := h.aborting j k q ((e.watcher_other hij w').symm.trans hj)
    refine ⟨hle, fun hunderway => ?_⟩
    rw [e.aborted, hflag hunderway]
    rfl

theorem Honest.watch_pending (h : Honest assets s) {i m : ℕ} {p : AbortPc} {next : Option AbortPc}
    {w' : WatchPc} (hi : s.watchers[i]? = some (.aborting m p)) (e : AbortEffect m s p s' next)
    (hw : w' = next.elim .assigning (.aborting m)) (hab : s'.monitor.aborted = true) :
    s.state = .terminated ∨ (s'.setWatcher i w').Pending := by
  have hends : p.underway = true ∨ p = .setting → w'.ends = true := by
    intro hp
    rw [hw]
    cases next with
    | none => rfl
    | some p' => exact (e.underway p' rfl).mpr hp
  by_cases hbefore : s.monitor.aborted = true
  · rcases h.pending hbefore with hterm | hmine | ⟨j, w₀, hj, hw₀⟩
    · exact Or.inl hterm
    · exact Or.inr (Or.inl ((congrArg CommandPc.inTerminate e.unchanged.2.2.1).trans hmine))
    · by_cases hij : i = j
      · rw [← hij, hi] at hj
        cases hj
        exact Or.inr (Or.inr ⟨i, w', e.watcher_self hi w', hends (Or.inl hw₀)⟩)
      · exact Or.inr (Or.inr ⟨j, w₀, (e.watcher_other hij w').trans hj, hw₀⟩)
  · obtain ⟨-, hset⟩ := e.aborted_now hab hbefore
    exact Or.inr (Or.inr ⟨i, w', e.watcher_self hi w', hends (Or.inr hset)⟩)

theorem honest_watch_abort (h : Honest assets s) {i m : ℕ} {p : AbortPc} {next : Option AbortPc}
    {w' : WatchPc} (hi : s.watchers[i]? = some (.aborting m p)) (e : AbortEffect m s p s' next)
    (hw : w' = next.elim .assigning (.aborting m))
    (hc : m = s.current → p = .setting → s.pc.inActivate = false) :
    Honest assets (s'.setWatcher i w') := by
  obtain ⟨hstate, hcurrent, hpc, -, hlast⟩ := e.unchanged
  obtain ⟨hsurvived, halive⟩ : s'.survived = s.survived ∧ s'.alive = s.alive := by
    rw [e.frame]
    exact ⟨rfl, rfl⟩
  have hclear : s.pc.inActivate = true → s'.monitor.aborted = false := fun hin =>
    (e.aborted_activate hc hin).trans (h.fresh hin)
  have hactivating : s'.state = .idle → s.pc = .activating := fun hidle =>
    h.activating_of_watcher hi (hstate.symm.trans hidle)
  refine ⟨fun hin => hclear ((congrArg CommandPc.inActivate hpc).symm.trans hin), ?_,
    fun hidle => Or.inl (hpc.trans (hactivating hidle)), ?_, ?_,
    fun hleft => absurd (hpc.symm.trans hleft) (h.not_left_of_watcher hi), ?_, ?_, ?_, ?_⟩
  · intro hidle
    have hin : s.pc.inActivate = true := by
      rw [hactivating hidle]
      rfl
    exact ⟨hclear hin, Or.inr (Or.inr ((congrArg CommandPc.inActivate hpc).trans hin))⟩
  · intro hcommand hterm
    exact h.command ((congrArg CommandPc.inCommand hpc).symm.trans hcommand) (hstate.symm.trans hterm)
  · intro hab
    exact (h.watch_pending hi e hw hab).imp_left hstate.trans
  · exact fun hrunning => hlast.trans (h.running (hstate.symm.trans hrunning))
  · exact fun hstarted => hlast.trans (h.started (hpc.symm.trans hstarted))
  · change Surviving assets s'.alive s'.survived s'.pc
    rw [halive, hsurvived, hpc]
    exact h.survived
  · intro j k q hj
    obtain ⟨hle, hflag⟩ := h.watch_aborting hi e hw hj
    exact ⟨Nat.le_trans hle (Nat.le_of_eq hcurrent.symm), hflag⟩

theorem WatchPc.not_ends {w : WatchPc} (hw : w ≠ .assigning ∧ ∀ m p, w ≠ .aborting m p) :
    w.ends = false := by
  cases w with
  | aborting m p => exact absurd rfl (hw.2 m p)
  | assigning => exact absurd rfl hw.1
  | _ => rfl

theorem honest_watch (h : Honest assets s) {i : ℕ} (hc : Steady s (.watch i)) :
    Honest assets (watch i s) := by
  have hwatched := watch_watched i s
  generalize watch i s = s' at hwatched
  cases hwatched with
  | ended => exact h
  | moved w w' stop hi hw hw' =>
    refine h.setWatcher hi (fun hends => ?_) (fun m p heq => ?_) (Or.inl rfl)
    · exact nomatch (WatchPc.not_ends hw).symm.trans hends
    · obtain ⟨rfl, rfl⟩ := hw' m p heq
      exact ⟨Nat.le_refl _, rfl⟩
  | aborted m p s' next hi e =>
    refine honest_watch_abort h hi e rfl ?_
    rintro rfl rfl
    exact hc _ hi rfl
  | reported hi => exact h.setWatcher hi (fun _ => rfl) nofun (Or.inr ⟨rfl, hc _ hi⟩)

theorem honest_exit (h : Honest assets s) {pid : ℕ} (hc : Steady s (.exit pid)) :
    Honest assets { s with alive := Function.update s.alive pid false } := by
  have hsurvived : Surviving assets (Function.update s.alive pid false) s.survived s.pc := by
    cases hpc : s.pc with
    | waiting a q rest =>
      obtain ⟨hassets, halive⟩ := h.surviving hpc
      have hne : q ≠ pid := by
        rintro rfl
        exact hc (by rw [hpc]; rfl)
      exact ⟨hassets, by simpa [hne] using halive⟩
    | _ => exact h.surviving hpc
  exact ⟨h.fresh, h.idle, h.watched, h.command, h.pending, h.left, h.running, h.started, hsurvived,
    h.aborting⟩

theorem honest_step (h : Honest assets s) {a : Action} (hc : Steady s a) :
    Honest assets (step assets s a) := by
  cases a with
  | call c => exact honest_callStep h c
  | advance o => exact honest_advance h hc
  | watch i => exact honest_watch h hc
  | exit pid => exact honest_exit h hc
  | interrupt => exact honest_interrupt h

/-- At most so many steps of `abort` are left, where the monitor has `l` processes. -/
def AbortPc.rank (l : ℕ) : AbortPc → ℕ
  | .checking => 2 * l + 6
  | .setting => 2 * l + 5
  | .reversing false => 2 * l + 4
  | .telling false rest => rest.length + l + 3
  | .reversing true => l + 2
  | .telling true rest => rest.length + 1

theorem AbortPc.rank_pos (l : ℕ) (p : AbortPc) : 0 < p.rank l := by
  cases p with
  | checking => simp [AbortPc.rank]
  | setting => simp [AbortPc.rank]
  | reversing kill => cases kill <;> simp [AbortPc.rank]
  | telling kill rest => cases kill <;> simp [AbortPc.rank]

theorem abortStep_rank {m : ℕ} {p p' : AbortPc} (h : (abortStep m s p).2 = some p') :
    p'.rank (s.monitors m).procs.length < p.rank (s.monitors m).procs.length := by
  cases p with
  | checking =>
    rw [abortStep] at h
    split_ifs at h
    cases h
    simp [AbortPc.rank]
  | setting =>
    cases h
    simp [AbortPc.rank]
  | reversing kill =>
    cases h
    cases kill with
    | false =>
      simp [AbortPc.rank]
      omega
    | true => simp [AbortPc.rank]
  | telling kill rest =>
    cases rest with
    | cons pid rest =>
      cases h
      cases kill <;> simp [AbortPc.rank]
    | nil =>
      cases kill with
      | false =>
        cases h
        simp [AbortPc.rank]
      | true => cases h

/-- 0 where the thread is not going to write `TERMINATED`. -/
def CommandPc.rank (l : ℕ) : CommandPc Asset → ℕ
  | .aborting p _ => p.rank l + 2
  | .stopping _ => 2
  | .terminating _ => 1
  | _ => 0

def WatchPc.rank (l : ℕ → ℕ) : WatchPc → ℕ
  | .aborting m p => if p.underway then p.rank (l m) + 1 else 0
  | .assigning => 1
  | _ => 0

def Service.rank (s : Service Asset) : Thread → ℕ
  | .command => s.pc.rank s.monitor.procs.length
  | .watcher i => (s.watchers[i]?).elim 0 (WatchPc.rank fun m => (s.monitors m).procs.length)

theorem Service.Pending.rank_pos (h : s.Pending) : ∃ t, 0 < s.rank t := by
  rcases h with hmine | ⟨i, w, hi, hw⟩
  · refine ⟨.command, ?_⟩
    rw [Service.rank]
    cases hpc : s.pc with
    | aborting | stopping | terminating => simp [CommandPc.rank]
    | _ =>
      rw [hpc] at hmine
      cases hmine
  · refine ⟨.watcher i, ?_⟩
    rw [Service.rank, hi, Option.elim_some]
    cases w with
    | aborting m p =>
      have hunderway : p.underway = true := hw
      simp [WatchPc.rank, hunderway]
    | assigning => simp [WatchPc.rank]
    | _ => cases hw

/-- What a watch thread leaves alone. -/
structure WatchFrame (i : ℕ) (s s' : Service Asset) : Prop where
  state : s'.state = s.state ∨ s'.state = .terminated
  pc : s'.pc = s.pc
  procs : ∀ m, (s'.monitors m).procs = (s.monitors m).procs
  current : s'.current = s.current
  watchers : ∀ j, i ≠ j → s'.watchers[j]? = s.watchers[j]?

theorem watch_frame (i : ℕ) (s : Service Asset) : WatchFrame i s (watch i s) := by
  have hset : ∀ (t : LauncherState) (stop : Bool) (w : WatchPc), t = s.state ∨ t = .terminated →
      WatchFrame i s ({ s with state := t, stopWatch := stop }.setWatcher i w) :=
    fun _ _ _ ht => ⟨ht, rfl, fun _ => rfl, rfl, fun _ hij => List.getElem?_set_ne hij⟩
  have hwatched := watch_watched i s
  generalize watch i s = s' at hwatched
  cases hwatched with
  | ended => exact ⟨Or.inl rfl, rfl, fun _ => rfl, rfl, fun _ _ => rfl⟩
  | moved w w' stop => exact hset s.state stop w' (Or.inl rfl)
  | aborted m p s' next hi e =>
    obtain ⟨hstate, hcurrent, hpc, hwatchers, -⟩ := e.unchanged
    exact ⟨Or.inl hstate, hpc, e.procs, hcurrent, fun j hij =>
      (List.getElem?_set_ne hij).trans (congrArg (·[j]?) hwatchers)⟩
  | reported => exact hset .terminated s.stopWatch .stopping (Or.inr rfl)

/-- The watch threads are where they were, and an aborted monitor has no new processes. -/
structure AdvanceFrame (s s' : Service Asset) : Prop where
  watchers : ∀ (i : ℕ) (w : WatchPc), s.watchers[i]? = some w → s'.watchers[i]? = some w
  procs : ∀ m, (s.monitors m).aborted = true → (s'.monitors m).procs = (s.monitors m).procs

theorem Honest.advance_frame (h : Honest assets s) (o : Answer) :
    (advance o s).state = .terminated ∨ AdvanceFrame s (advance o s) := by
  have hadvanced := advance_advanced o s
  generalize advance o s = s' at hadvanced
  cases hadvanced with
  | moved | activated | assigned => exact Or.inr ⟨fun _ _ hi => hi, fun _ _ => rfl⟩
  | spawned a rest hpc =>
    refine Or.inr ⟨fun _ _ hi => hi, fun m hflag => ?_⟩
    have hne : m ≠ s.current := by
      rintro rfl
      have hclear := h.fresh (by rw [hpc]; rfl)
      exact nomatch hclear.symm.trans hflag
    simp [Service.spawn, Service.setMonitor, hne]
  | created =>
    refine Or.inr ⟨fun i w hi => ?_, fun _ _ => rfl⟩
    exact (List.getElem?_append_left (List.getElem?_eq_some_iff.mp hi).1).trans hi
  | aborted p within behind =>
    right
    have hkeep : ∀ (s' : Service Asset) next pc, AbortEffect s.current s p s' next →
        AdvanceFrame s (s'.setPc pc) := by
      intro s' next pc e
      obtain ⟨-, -, -, hwatchers, -⟩ := e.unchanged
      exact ⟨fun i w hi => (congrArg (·[i]?) hwatchers).trans hi, fun m _ => e.procs m⟩
    exact resume_of_effect (fun s' p' e => hkeep s' _ _ e) fun s' e => hkeep s' _ _ e
  | terminated leaves =>
    left
    cases leaves <;> rfl

theorem callStep_frame (assets : List Asset) (c : Call) (s : Service Asset) :
    (callStep assets c s).state = s.state ∧ (callStep assets c s).watchers = s.watchers ∧
      ∀ m ≤ s.current, (callStep assets c s).monitors m = s.monitors m := by
  unfold callStep
  split
  · cases c with
    | activate =>
      dsimp only
      unfold activate
      split
      · exact ⟨rfl, rfl, fun _ _ => rfl⟩
      · refine ⟨rfl, rfl, fun m hm => ?_⟩
        have hne : m ≠ s.current + 1 := by omega
        simp [Service.beginActivate, Service.renewMonitor, Service.setMonitor, hne]
      · exact ⟨rfl, rfl, fun _ _ => rfl⟩
    | cmd command =>
      dsimp only
      unfold cmd
      split
      · exact ⟨rfl, rfl, fun _ _ => rfl⟩
      · exact ⟨rfl, rfl, fun _ _ => rfl⟩
      · cases command with
        | none => exact ⟨rfl, rfl, fun _ _ => rfl⟩
        | some c => exact ⟨rfl, rfl, fun _ _ => rfl⟩
    | terminate =>
      dsimp only
      unfold terminate
      split
      · exact ⟨rfl, rfl, fun _ _ => rfl⟩
      · exact ⟨rfl, rfl, fun _ _ => rfl⟩
      · exact ⟨rfl, rfl, fun _ _ => rfl⟩
  · exact ⟨rfl, rfl, fun _ _ => rfl⟩

theorem advance_rank {o : Answer} (hrank : 0 < s.rank .command) :
    (advance o s).state = .terminated ∨
      (0 < (advance o s).rank .command ∧ (advance o s).rank .command < s.rank .command) := by
  rw [Service.rank] at hrank
  cases hpc : s.pc with
  | aborting p leaves =>
    right
    obtain ⟨s', next, heq, e⟩ := exists_abortStep s.current s p
    have hpos := p.rank_pos s.monitor.procs.length
    rw [Service.rank, Service.rank, advance, hpc]
    dsimp only
    rw [heq]
    have hprocs : s'.monitor.procs = s.monitor.procs := e.monitor_procs
    cases next with
    | some p' =>
      have hlt : p'.rank s.monitor.procs.length < p.rank s.monitor.procs.length :=
        abortStep_rank (by rw [heq])
      change 0 < p'.rank s'.monitor.procs.length + 2 ∧
        p'.rank s'.monitor.procs.length + 2 < p.rank s.monitor.procs.length + 2
      rw [hprocs]
      omega
    | none =>
      change 0 < 2 ∧ 2 < p.rank s.monitor.procs.length + 2
      omega
  | stopping leaves =>
    right
    rw [Service.rank, Service.rank, advance, hpc]
    exact ⟨Nat.one_pos, Nat.one_lt_two⟩
  | terminating leaves =>
    left
    rw [advance, hpc]
    cases leaves <;> rfl
  | _ =>
    rw [hpc] at hrank
    cases hrank

theorem watch_rank {i : ℕ} (hrank : 0 < s.rank (.watcher i)) :
    (watch i s).state = .terminated ∨
      (0 < (watch i s).rank (.watcher i) ∧ (watch i s).rank (.watcher i) < s.rank (.watcher i)) := by
  rw [Service.rank] at hrank
  cases hi : s.watchers[i]? with
  | none =>
    rw [hi] at hrank
    cases hrank
  | some w =>
    rw [hi, Option.elim_some] at hrank
    have hlt := (List.getElem?_eq_some_iff.mp hi).1
    cases w with
    | aborting m p =>
      right
      have hunderway : p.underway = true := by
        by_contra hnot
        simp [WatchPc.rank, hnot] at hrank
      obtain ⟨s', next, heq, e⟩ := exists_abortStep m s p
      have hpos := p.rank_pos (s.monitors m).procs.length
      have hbefore : s.rank (.watcher i) = p.rank (s.monitors m).procs.length + 1 := by
        simp [Service.rank, hi, WatchPc.rank, hunderway]
      rw [hbefore]
      rw [watch, hi]
      dsimp only
      rw [heq]
      have hset : ∀ w', (s'.setWatcher i w').watchers[i]? = some w' := by
        intro w'
        obtain ⟨-, -, -, hwatchers, -⟩ := e.unchanged
        change (s'.watchers.set i w')[i]? = some w'
        rw [hwatchers, List.getElem?_set_self hlt]
      cases next with
      | some p' =>
        have hnext := (e.underway p' rfl).mpr (Or.inl hunderway)
        have hlt : p'.rank (s.monitors m).procs.length < p.rank (s.monitors m).procs.length :=
          abortStep_rank (by rw [heq])
        have hafter : (s'.setWatcher i (.aborting m p')).rank (.watcher i) =
            p'.rank (s.monitors m).procs.length + 1 := by
          rw [Service.rank, hset, Option.elim_some, WatchPc.rank, hnext, if_pos rfl, ← e.procs m]
          rfl
        change 0 < (s'.setWatcher i (.aborting m p')).rank (.watcher i) ∧
          (s'.setWatcher i (.aborting m p')).rank (.watcher i) < _
        rw [hafter]
        omega
      | none =>
        have hafter : (s'.setWatcher i .assigning).rank (.watcher i) = 1 := by
          rw [Service.rank, hset]
          rfl
        change 0 < (s'.setWatcher i .assigning).rank (.watcher i) ∧
          (s'.setWatcher i .assigning).rank (.watcher i) < _
        rw [hafter]
        omega
    | assigning =>
      left
      rw [watch, hi]
      rfl
    | _ => cases hrank

theorem Honest.rank_other (h : Honest assets s) {t : Thread} {a : Action}
    (hrank : 0 < s.rank t) (hmine : t.mine a = false) (ha : a ≠ .interrupt) :
    (step assets s a).state = .terminated ∨ (step assets s a).rank t = s.rank t := by
  cases t with
  | command =>
    right
    cases a with
    | call c =>
      have hstay : callStep assets c s = s := by
        unfold callStep
        split
        · rename_i hready
          rw [Service.rank, hready] at hrank
          cases hrank
        · rfl
      rw [step, hstay]
    | advance o => cases hmine
    | watch i =>
      have hframe := watch_frame i s
      rw [step, Service.rank, Service.rank, hframe.pc, Service.monitor, hframe.current, hframe.procs]
      rfl
    | exit pid => rfl
    | interrupt => exact absurd rfl ha
  | watcher i =>
    cases hi : s.watchers[i]? with
    | none =>
      rw [Service.rank, hi] at hrank
      cases hrank
    | some w =>
      -- the rank is read off the thread's place and the monitor that it has aborted
      have hkeep : ∀ s' : Service Asset, s'.watchers[i]? = some w →
          (∀ m, m ≤ s.current → (s.monitors m).aborted = true →
            (s'.monitors m).procs = (s.monitors m).procs) →
          s'.rank (.watcher i) = s.rank (.watcher i) := by
        intro s' hi' hprocs
        rw [Service.rank, Service.rank, hi, hi', Option.elim_some, Option.elim_some]
        cases w with
        | aborting m p =>
          rw [WatchPc.rank, WatchPc.rank]
          split_ifs with hunderway
          · obtain ⟨hle, hflag⟩ := h.aborting i m p hi
            rw [hprocs m hle (hflag hunderway)]
          · rfl
        | _ => rfl
      cases a with
      | call c =>
        right
        obtain ⟨-, hwatchers, hmonitors⟩ := callStep_frame assets c s
        refine hkeep _ ((congrArg (·[i]?) hwatchers).trans hi) fun m hle _ => ?_
        rw [step, hmonitors m hle]
      | advance o =>
        refine (h.advance_frame o).imp_right fun hframe => ?_
        exact hkeep _ (hframe.watchers i w hi) fun m _ => hframe.procs m
      | watch j =>
        right
        have hframe := watch_frame j s
        have hne : j ≠ i := by
          rintro rfl
          simp [Thread.mine] at hmine
        exact hkeep _ ((hframe.watchers i hne).trans hi) fun m _ _ => hframe.procs m
      | exit pid =>
        right
        exact hkeep _ hi fun _ _ _ => rfl
      | interrupt => exact absurd rfl ha

/-- A thread that is going to write `TERMINATED` does so. -/
theorem Honest.becomes (h : Honest assets s) (hpending : s.Pending) : Becomes assets s := by
  obtain ⟨t, hrank⟩ := hpending.rank_pos
  refine ⟨t, s.rank t, fun as has hcount => ?_⟩
  refine reached_of_rank (I := Honest assets) (G := fun s => s.state = .terminated)
    (R := fun s n => 0 < n ∧ s.rank t = n)
    (fun s a hs hc => honest_step hs hc.1) (fun s n hr => hr.1) ?_ ?_ h ⟨hrank, rfl⟩ has hcount
  · rintro s a n - - ⟨hn, rfl⟩ hmine
    cases t with
    | command =>
      cases a with
      | advance o =>
        refine (advance_rank (o := o) hn).imp_right fun hless => ?_
        exact ⟨_, hless.2, hless.1, rfl⟩
      | _ => cases hmine
    | watcher i =>
      cases a with
      | watch j =>
        have hij : i = j := by simpa [Thread.mine] using hmine
        subst hij
        refine (watch_rank hn).imp_right fun hless => ?_
        exact ⟨_, hless.2, hless.1, rfl⟩
      | _ => cases hmine
  · rintro s a n hs hc ⟨hn, rfl⟩ hmine
    exact (hs.rank_other hn hmine hc.2).imp_right fun hsame => ⟨hn, hsame⟩

theorem interrupt_state (s : Service Asset) : (interrupt s).state = s.state := by
  unfold interrupt
  split
  · rfl
  · unfold terminate
    split
    · rfl
    · rfl
    · rfl

theorem Honest.advance_terminated (h : Honest assets s) (o : Answer) (hstate : s.state = .terminated) :
    (advance o s).state = .terminated ∨ s.pc = .activating := by
  have hadvanced := advance_advanced o s
  generalize advance o s = s' at hadvanced
  cases hadvanced with
  | moved | spawned | created => exact Or.inl hstate
  | activated hpc => exact Or.inr hpc
  | assigned c hpc => exact absurd hstate (h.command (by rw [hpc]; rfl))
  | aborted p within behind =>
    left
    exact resume_of_effect (P := fun s' => s'.state = .terminated)
      (fun s' p' e => e.unchanged.1.trans hstate) fun s' e => e.unchanged.1.trans hstate
  | terminated leaves =>
    left
    cases leaves <;> rfl

theorem Honest.leaves_terminated (h : Honest assets s) (a : Action) (hstate : s.state = .terminated) :
    (step assets s a).state = .terminated ∨ ActivateReturns s a := by
  cases a with
  | call c => exact Or.inl ((callStep_frame assets c s).1.trans hstate)
  | advance o => exact h.advance_terminated o hstate
  | watch i =>
    left
    rcases (watch_frame i s).state with hsame | hterm
    · exact hsame.trans hstate
    · exact hterm
  | exit pid => exact Or.inl hstate
  | interrupt => exact Or.inl ((interrupt_state s).trans hstate)

theorem Honest.tellsTruth (h : Honest assets s) {a : Action} (hc : Steady s a) :
    TellsTruth assets s a := by
  have hnext := honest_step h hc
  refine ⟨fun hab => (hnext.pending hab).imp_right hnext.becomes, h.leaves_terminated a,
    hnext.running, fun hreturns => ?_⟩
  cases a with
  | advance o =>
    have hpc : s.pc = .activating := hreturns
    have hsurvived : s.survived = assets := h.surviving hpc
    rw [step, advance, hpc]
    exact hsurvived
  | call c => exact hreturns.elim
  | watch i => exact hreturns.elim
  | exit pid => exact hreturns.elim
  | interrupt => exact hreturns.elim

end

/-- In every steady run the state tells the truth, in whatever order the threads take their steps. -/
theorem launcher_tells_truth (assets : List Asset) (as : List Action)
    (h : Along (step assets) Steady .init as) : Along (step assets) (TellsTruth assets) .init as :=
  along_of_invariant (I := Honest assets) (fun _ _ ht hc => honest_step ht hc)
    (fun _ _ ht hc => ht.tellsTruth hc) (honest_init assets) h

/-- The simulation is started; then an asset ends, and its watch thread stops the other. -/
def runsAndEnds : List Action :=
  .call .activate :: List.replicate 10 (.advance smooth) ++ .call (.cmd (some .start)) ::
    List.replicate 2 (.advance smooth) ++ .exit 1 :: List.replicate 18 (.watch 0) ++ [.call .activate]

theorem launcher_tells_truth_runs_and_ends :
    Along (step ["pdu", "drone"]) Steady .init runsAndEnds ∧
      Along (step ["pdu", "drone"]) (TellsTruth ["pdu", "drone"]) .init runsAndEnds :=
  ⟨by decide +kernel, launcher_tells_truth _ _ (by decide +kernel)⟩

/-- The only asset dies in its grace period: `start_all` has aborted, and `activate` writes
`ACTIVATED` all the same. -/
theorem activated_without_assets :
    ¬ Along (step ["pdu"]) (TellsTruth ["pdu"]) .init
      ([.call .activate, .advance smooth, .advance smooth, .exit 0, .advance ⟨false, false, none⟩] ++
        List.replicate 10 (.advance smooth) ++ [.advance smooth]) := by
  intro h
  obtain ⟨-, -, -, hsurvived⟩ := ((along_append _ _ _ _ _).mp h).2.1
  exact nomatch hsurvived rfl

end Launcher
end HakoniwaCorePro
