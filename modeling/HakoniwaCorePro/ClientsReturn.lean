import HakoniwaCorePro.ClientsAtomic
import Mathlib.Algebra.Order.BigOperators.Group.Finset
import Mathlib.Data.Finset.Lattice.Fold
import Mathlib.Data.Nat.Pairing

/-!
# What creating clients at the same time guarantees

Since the calls are as good as atomic, a slot that was handed out belongs to one name, whatever the
processes do at the same time. The two spin locks cannot stop the processes for good: the table's
lock is asked for by a process that holds an entry, never the other way round, so that a schedule
which leaves no process out brings every call to its end.
-/

namespace HakoniwaCorePro
namespace ConcurrentClients

open RecvEvent Service Runs Linearization

/-- A request whose name leaves room for its zero byte in `clientName`. -/
def Request.Short : Request → Prop
  | .createServiceClient q => q.client.bytes.length < clientNamelenMax
  | .registerDataRecvEvent _ _ => True

def Granted (q : Request) (a : Answer) (w : World) : Prop :=
  ∀ r i k, q = .createServiceClient r → a = .ids ⟨some i, some k⟩ →
    k < (w.services.entries i).maxClients ∧
    ((w.services.entries i).clientChannelMap k).enabled = true ∧
    ((w.services.entries i).clientChannelMap k).name = r.client.bytes

/-- A loaded table that is well formed. -/
def Usable (w : World) : Prop := w.services.entryNum ≠ 0 ∧ w.services.Ok

section Served

variable (config : Pid → ServiceConfig)

theorem serve_kept {w : World} (hw : Usable w) {p : Pid} {q : Request} (hq : q.Short) :
    Usable (serve (listed config) w p q).1 ∧
      w.services.Kept (serve (listed config) w p q).1.services := by
  cases q with
  | registerDataRecvEvent real onRecv => exact ⟨hw, rfl, fun _ => .refl _⟩
  | createServiceClient q =>
    have hfit : ∀ pid, ∀ s ∈ listed config pid, s.name.length < serviceNamelenMax :=
      fun pid => (config pid).names_fit
    have hshort : (Call.createServiceClient p q.real q.name q.client).Short := by
      rintro _ ⟨⟩
      exact hq
    have hkept := worldStep_kept hfit w _ hw.2 hshort hw.1
    have hok := worldStep_ok hfit w _ hw.2 hshort
    exact ⟨⟨fun h0 => hw.1 (hkept.entryNum.symm.trans h0), hok⟩, hkept⟩

theorem serve_granted {w : World} (hw : Usable w) {p : Pid} {q : Request} (hq : q.Short) :
    Granted q (serve (listed config) w p q).2 (serve (listed config) w p q).1 := by
  rintro r i k rfl ha
  have hfit : ∀ pid, ∀ s ∈ listed config pid, s.name.length < serviceNamelenMax :=
    fun pid => (config pid).names_fit
  have hshort : (Call.createServiceClient p r.real r.name r.client).Short := by
    rintro _ ⟨⟩
    exact hq
  exact answer_client hfit hw.2 hshort rfl (Answer.ids.inj ha)

theorem Granted.kept {w w' : World} (hk : w.services.Kept w'.services) {q : Request} {a : Answer}
    (h : Granted q a w) : Granted q a w' := by
  intro r i k hq ha
  obtain ⟨hlt, hen, hname⟩ := h r i k hq ha
  have hslot := (hk.entries i).slots k hlt hen
  exact ⟨by rw [(hk.entries i).maxClients]; exact hlt, hslot.enabled, hslot.name.trans hname⟩

end Served

/-- Two calls that have come back with clients of one service: they have the same slot exactly if
they asked for the same name, in whatever order all the steps were made. -/
theorem clients_apart (config : Pid → ServiceConfig) (w : World) (hw : Loaded w)
    (hok : w.services.Ok) (as : List Action)
    (hshort : ∀ p q, .invoke p q ∈ calledIn (listed config) w as → q.Short)
    {p p' : Pid} {q q' : ClientCall} {i k k' : ℕ}
    (h : .ret p (.createServiceClient q) (.ids ⟨some i, some k⟩) ∈
      calledIn (listed config) w as)
    (h' : .ret p' (.createServiceClient q') (.ids ⟨some i, some k'⟩) ∈
      calledIn (listed config) w as) :
    k = k' ↔ q.client.bytes = q'.client.bytes := by
  obtain ⟨m, hacc, -⟩ := run_stands (listed config) hw as
  have hl : Linearized (serve (listed config)) w (calledIn (listed config) w as) m.state :=
    hacc.linearized fun _ => rfl
  obtain ⟨⟨-, hok'⟩, hall⟩ := hl.promised (I := Usable) (D := fun _ q => q.Short)
    (P := fun _ => Granted) (fun _ _ _ hi hd => (serve_kept config hi hd).1)
    (fun _ _ _ hi hd => serve_granted config hi hd)
    (fun _ _ _ _ _ _ hi hd hg => hg.kept (serve_kept config hi hd).2) ⟨hw.loaded, hok⟩ hshort
  obtain ⟨hk, hen, hname⟩ := hall _ _ _ h q i k rfl rfl
  obtain ⟨hk', hen', hname'⟩ := hall _ _ _ h' q' i k' rfl rfl
  constructor
  · rintro rfl
    exact hname.symm.trans hname'
  · intro heq
    exact (hok' i).apart k hk k' hk' hen hen' (hname.trans (heq.trans hname'.symm))

theorem race_history : calledIn (listed fun _ => roomForTwo) loadedWorld race =
    [.invoke 1 (.createServiceClient (clientOfX 97 (by decide))),
      .invoke 2 (.createServiceClient (clientOfX 98 (by decide))),
      .commit 1 (.createServiceClient (clientOfX 97 (by decide))) (.ids ⟨some 0, some 0⟩),
      .ret 1 (.createServiceClient (clientOfX 97 (by decide))) (.ids ⟨some 0, some 0⟩),
      .commit 2 (.createServiceClient (clientOfX 98 (by decide))) (.ids ⟨some 0, some 1⟩),
      .ret 2 (.createServiceClient (clientOfX 98 (by decide))) (.ids ⟨some 0, some 1⟩)] := by
  rfl

theorem loadedWorld_ok : loadedWorld.services.Ok :=
  setServiceData_ok roomForTwo.names_fit start_ok

theorem race_short (p : Pid) (q : Request)
    (hq : .invoke p q ∈ calledIn (listed fun _ => roomForTwo) loadedWorld race) : q.Short := by
  rw [race_history] at hq
  simp only [List.mem_cons, Event.invoke.injEq, reduceCtorEq, List.not_mem_nil, or_false] at hq
  rcases hq with ⟨-, rfl⟩ | ⟨-, rfl⟩ <;>
    exact (by decide : [(0 : UInt8)].length < clientNamelenMax)

theorem race_first : .ret 1 (.createServiceClient (clientOfX 97 (by decide)))
    (.ids ⟨some 0, some 0⟩) ∈ calledIn (listed fun _ => roomForTwo) loadedWorld race := by
  rw [race_history]
  simp

theorem race_second : .ret 2 (.createServiceClient (clientOfX 98 (by decide)))
    (.ids ⟨some 0, some 1⟩) ∈ calledIn (listed fun _ => roomForTwo) loadedWorld race := by
  rw [race_history]
  simp

theorem race_apart : ∃ k k',
    .ret 1 (.createServiceClient (clientOfX 97 (by decide))) (.ids ⟨some 0, some k⟩) ∈
      calledIn (listed fun _ => roomForTwo) loadedWorld race ∧
    .ret 2 (.createServiceClient (clientOfX 98 (by decide))) (.ids ⟨some 0, some k'⟩) ∈
      calledIn (listed fun _ => roomForTwo) loadedWorld race ∧
    (k = k' ↔ (clientOfX 97 (by decide)).client.bytes = (clientOfX 98 (by decide)).client.bytes) :=
  ⟨0, 1, race_first, race_second, clients_apart (fun _ => roomForTwo) loadedWorld
    loadedWorld_loaded loadedWorld_ok race race_short race_first race_second⟩

structure Limits where
  slots : ℕ
  events : ℕ

structure Limits.Hold (l : Limits) (c : Shared) : Prop where
  maxClients : ∀ i < c.services.entryNum, (c.services.entries i).maxClients ≤ l.slots
  nextClientId : ∀ i < c.services.entryNum, (c.services.entries i).nextClientId ≤ l.slots
  room : recvEventMax ≤ l.events
  events : c.events.entryNum ≤ l.events

/-- How many steps the call can still take, not counting those that wait for a lock. -/
def Pc.left (l : Limits) : Pc → ℕ
  | .outside => 0
  | .leaving _ _ => 1
  | .unlockServiceEntry _ _ _ => 2
  | .countSlot _ _ _ => 3
  | .assignSlot _ _ _ _ => 4
  | .unlockAppend _ _ _ => 5
  | .appendEvent _ _ => 6
  | .recheckFull _ _ => 7
  | .lockForAppend _ _ => 8
  | .checkFull _ _ => 9
  | .checkRoom _ _ => 10
  | .unlockUpdate _ _ _ => 3
  | .updateEvent _ _ _ _ _ => 4
  | .lockForUpdate _ _ _ _ _ => 5
  | .findEvent _ _ _ _ j => 6 + (l.events - j)
  | .findExisting _ _ k => 11 + l.events + (l.slots - k)
  | .lockServiceEntry _ _ => 12 + l.events + l.slots
  | .entered _ => 13 + l.events + l.slots

def Shared.Blocked (c : Shared) (p : Pid) : Prop :=
  match c.pc p with
  | .outside => True
  | .lockServiceEntry _ i => (c.entryLock i).isSome = true
  | .lockForUpdate _ _ _ _ _ | .lockForAppend _ _ => c.tableLock.isSome = true
  | _ => False

structure GoesOn (l : Limits) (c c' : Shared) (p : Pid) : Prop where
  others : ∀ r ≠ p, c'.pc r = c.pc r
  left : (c'.pc p).left l < (c.pc p).left l
  hold : l.Hold c'

theorem GoesOn.goto {l : Limits} {c c₀ : Shared} {p : Pid} {pc old : Pc} (hpc : c.pc p = old)
    (hsame : c₀.pc = c.pc) (hl : l.Hold c₀) (h : pc.left l < old.left l) :
    GoesOn l c (c₀.goto p pc) p :=
  ⟨fun r hr => by simp [hr, hsame], by simpa [hpc] using h,
    ⟨hl.maxClients, hl.nextClientId, hl.room, hl.events⟩⟩

section Steps

variable {config : Pid → List ServiceDef} {c : Shared} {m : Monitor World Pid Request Answer}
  {l : Limits} {p : Pid} {pc old : Pc}

theorem enter_goesOn (h : Stands config c m) (hl : l.Hold c) {q : Request}
    (hpc : c.pc p = .entered q) : GoesOn l c (c.enter config p q).1 p := by
  cases q with
  | registerDataRecvEvent real onRecv =>
    cases real with
    | none => exact .goto hpc rfl hl (by simp only [Pc.left]; omega)
    | some ch => exact .goto hpc rfl hl (by simp only [Pc.left]; omega)
  | createServiceClient q =>
    have hload : c.services.entryNum ≠ 0 := h.entryNum ▸ h.loaded
    rcases hfind : findServiceForClient (config p) q.name.bytes q.client.bytes
      ⟨c.services, c.events, c.index p⟩ with ⟨u, o⟩
    obtain ⟨hu, -⟩ := findServiceForClient_within hload (h.within p) hfind
    have hhold : l.Hold { c with
        services := u.services, index := Function.update c.index p u.index } := by
      rw [hu]
      exact ⟨hl.maxClients, hl.nextClientId, hl.room, hl.events⟩
    simp only [Shared.enter, hfind]
    cases o with
    | none => exact .goto hpc rfl hhold (by simp only [Pc.left]; omega)
    | some i => exact .goto hpc rfl hhold (by simp only [Pc.left]; omega)

theorem lockTable_goesOn (hpc : c.pc p = old) (hl : l.Hold c) (h : pc.left l < old.left l) :
    (c.tableLock.isSome = true ∧ (c.lockRecvEventTable p pc).1 = c) ∨
      GoesOn l c (c.lockRecvEventTable p pc).1 p := by
  unfold Shared.lockRecvEventTable
  split
  · next hlock => exact Or.inl ⟨hlock, rfl⟩
  · exact Or.inr (.goto hpc rfl ⟨hl.maxClients, hl.nextClientId, hl.room, hl.events⟩ h)

theorem unlockTable_goesOn (hpc : c.pc p = old) (hl : l.Hold c) (h : pc.left l < old.left l) :
    GoesOn l c (c.unlockRecvEventTable p pc).1 p :=
  .goto hpc rfl ⟨hl.maxClients, hl.nextClientId, hl.room, hl.events⟩ h

theorem Limits.Hold.store (hl : l.Hold c) {i : ℕ} {e : ServiceEntry} (hmax : e.maxClients ≤ l.slots)
    (hnext : e.nextClientId ≤ l.slots) : l.Hold { c with
      services := { c.services with entries := Function.update c.services.entries i e } } := by
  refine ⟨fun k hk => ?_, fun k hk => ?_, hl.room, hl.events⟩
  · by_cases hki : k = i
    · subst hki
      simpa using hmax
    · simpa [hki] using hl.maxClients k hk
  · by_cases hki : k = i
    · subst hki
      simpa using hnext
    · simpa [hki] using hl.nextClientId k hk

theorem lockServiceEntry_goesOn (h : Stands config c m) (hl : l.Hold c) {q : ClientCall} {i : ℕ}
    (hpc : c.pc p = .lockServiceEntry q i) :
    (c.Blocked p ∧ (c.next config p).1 = c) ∨ GoesOn l c (c.next config p).1 p := by
  have hi := ((h.localAt hpc).looked q i rfl).1
  cases hlock : c.entryLock i with
  | some r =>
    refine Or.inl ⟨by simp [Shared.Blocked, hpc, hlock], ?_⟩
    simp only [Shared.next, hpc, hlock, if_neg (Nat.not_le.mpr hi)]
    rfl
  | none =>
    refine Or.inr ?_
    simp only [Shared.next, hpc, hlock, if_neg (Nat.not_le.mpr hi)]
    refine .goto hpc rfl ⟨hl.maxClients, hl.nextClientId, hl.room, hl.events⟩ ?_
    simp only [Pc.left]
    omega

theorem findExisting_goesOn (h : Stands config c m) (hl : l.Hold c) {q : ClientCall} {i k : ℕ}
    (hpc : c.pc p = .findExisting q i k) : GoesOn l c (c.next config p).1 p := by
  have hk := hl.nextClientId i ((h.localAt hpc).inside i rfl)
  simp only [Shared.next, hpc]
  split
  · exact .goto hpc rfl hl (by simp only [Pc.left]; omega)
  · split
    · split
      · exact .goto hpc rfl hl (by simp only [Pc.left]; omega)
      · exact .goto hpc rfl hl (by simp only [Pc.left]; omega)
    · exact .goto hpc rfl hl (by simp only [Pc.left]; omega)

theorem findEvent_goesOn (hl : l.Hold c) {q : ClientCall} {i k : ℕ} {ch : ChannelId} {j : ℕ}
    (hpc : c.pc p = .findEvent q i k ch j) : GoesOn l c (c.next config p).1 p := by
  simp only [Shared.next, hpc]
  split
  · exact .goto hpc rfl hl (by simp only [Pc.left]; omega)
  · next e he =>
    have hj : j < c.events.entryNum := (List.getElem?_eq_some_iff.mp he).1
    have hle := hl.events
    split
    · exact .goto hpc rfl hl (by simp only [Pc.left]; omega)
    · exact .goto hpc rfl hl (by simp only [Pc.left]; omega)

theorem updateEvent_goesOn (hl : l.Hold c) {q : ClientCall} {i k : ℕ} {ch : ChannelId} {j : ℕ}
    (hpc : c.pc p = .updateEvent q i k ch j) : GoesOn l c (c.next config p).1 p := by
  simp only [Shared.next, hpc]
  refine .goto hpc rfl ⟨hl.maxClients, hl.nextClientId, hl.room, ?_⟩ (by simp only [Pc.left]; omega)
  simpa [Table.entryNum] using hl.events

theorem checkRoom_goesOn (hl : l.Hold c) {q : ClientCall} {i : ℕ} (hpc : c.pc p = .checkRoom q i) :
    GoesOn l c (c.next config p).1 p := by
  simp only [Shared.next, hpc]
  split
  · exact .goto hpc rfl hl (by simp only [Pc.left]; omega)
  · split
    · exact .goto hpc rfl hl (by simp only [Pc.left]; omega)
    · exact .goto hpc rfl hl (by simp only [Pc.left]; omega)

theorem appendEvent_goesOn (h : Stands config c m) (hl : l.Hold c) {o : Caller} {ch : ChannelId}
    (hpc : c.pc p = .appendEvent o ch) : GoesOn l c (c.next config p).1 p := by
  obtain ⟨-, hroom⟩ : o.Knows c.services ch ∧ c.events.entryNum < recvEventMax :=
    (h.localAt hpc).knows
  have hmax := hl.room
  simp only [Shared.next, hpc]
  refine .goto hpc rfl ⟨hl.maxClients, hl.nextClientId, hl.room, ?_⟩ (by simp only [Pc.left]; omega)
  simp only [Table.entryNum, List.length_append, List.length_singleton] at hroom ⊢
  omega

theorem assignSlot_goesOn (h : Stands config c m) (hl : l.Hold c) {q : ClientCall} {i k id : ℕ}
    (hpc : c.pc p = .assignSlot q i k id) : GoesOn l c (c.next config p).1 p := by
  have hi := (h.localAt hpc).inside i rfl
  simp only [Shared.next, hpc]
  exact .goto hpc rfl (hl.store (hl.maxClients i hi) (hl.nextClientId i hi))
    (by simp only [Pc.left]; omega)

theorem countSlot_goesOn (h : Stands config c m) (hl : l.Hold c) {q : ClientCall} {i k : ℕ}
    (hpc : c.pc p = .countSlot q i k) : GoesOn l c (c.next config p).1 p := by
  have hp := h.localAt hpc
  have hroom : (c.services.entries i).nextClientId < (c.services.entries i).maxClients := hp.knows
  have hmax := hl.maxClients i (hp.inside i rfl)
  simp only [Shared.next, hpc]
  exact .goto hpc rfl (hl.store hmax (by show _ + 1 ≤ _; omega)) (by simp only [Pc.left]; omega)

theorem next_goesOn (h : Stands config c m) (hl : l.Hold c) (p : Pid) :
    (c.Blocked p ∧ (c.next config p).1 = c) ∨ GoesOn l c (c.next config p).1 p := by
  cases hpc : c.pc p with
  | outside => exact Or.inl ⟨by simp [Shared.Blocked, hpc], by simp [Shared.next, hpc]⟩
  | entered q =>
    refine Or.inr ?_
    simp only [Shared.next, hpc]
    exact enter_goesOn h hl hpc
  | lockServiceEntry q i => exact lockServiceEntry_goesOn h hl hpc
  | findExisting q i k => exact Or.inr (findExisting_goesOn h hl hpc)
  | findEvent q i k ch j => exact Or.inr (findEvent_goesOn hl hpc)
  | lockForUpdate q i k ch j =>
    simp only [Shared.next, Shared.Blocked, hpc]
    exact lockTable_goesOn hpc hl (by simp only [Pc.left]; omega)
  | lockForAppend o ch =>
    simp only [Shared.next, Shared.Blocked, hpc]
    exact lockTable_goesOn hpc hl (by simp only [Pc.left]; omega)
  | updateEvent q i k ch j => exact Or.inr (updateEvent_goesOn hl hpc)
  | unlockUpdate q i k =>
    refine Or.inr ?_
    simp only [Shared.next, hpc]
    exact unlockTable_goesOn hpc hl (by simp only [Pc.left]; omega)
  | checkRoom q i => exact Or.inr (checkRoom_goesOn hl hpc)
  | checkFull o ch =>
    refine Or.inr ?_
    simp only [Shared.next, hpc]
    split
    · exact .goto hpc rfl hl (by cases o <;> simp only [Caller.next, Pc.left] <;> omega)
    · exact .goto hpc rfl hl (by simp only [Pc.left]; omega)
  | recheckFull o ch =>
    refine Or.inr ?_
    simp only [Shared.next, hpc]
    split
    · exact .goto hpc rfl hl (by simp only [Pc.left]; omega)
    · exact .goto hpc rfl hl (by simp only [Pc.left]; omega)
  | appendEvent o ch => exact Or.inr (appendEvent_goesOn h hl hpc)
  | unlockAppend o ch id =>
    refine Or.inr ?_
    simp only [Shared.next, hpc]
    refine unlockTable_goesOn hpc hl ?_
    cases o <;> cases id <;> simp only [Caller.next, Pc.left] <;> omega
  | assignSlot q i k id => exact Or.inr (assignSlot_goesOn h hl hpc)
  | countSlot q i k => exact Or.inr (countSlot_goesOn h hl hpc)
  | unlockServiceEntry q i ids =>
    refine Or.inr ?_
    simp only [Shared.next, hpc]
    exact .goto hpc rfl ⟨hl.maxClients, hl.nextClientId, hl.room, hl.events⟩
      (by simp only [Pc.left]; omega)
  | leaving q a =>
    refine Or.inr ?_
    simp only [Shared.next, hpc]
    exact .goto hpc rfl hl (by simp only [Pc.left]; omega)

/-- As long as a process is in a call, there is one that need not wait. -/
theorem someone_moves (h : Stands config c m) (hin : c.pc p ≠ .outside) : ∃ r, ¬ c.Blocked r := by
  cases htable : c.tableLock with
  | some r =>
    have hr := (h.here r).table.mp htable
    refine ⟨r, fun hb => ?_⟩
    unfold Shared.Blocked at hb
    split at hb <;> simp_all [Pc.inTable]
  | none =>
    by_cases hb : c.Blocked p
    · -- It waits for an entry, whose holder waits for nothing.
      have hwait : ∃ q i r, c.pc p = .lockServiceEntry q i ∧ c.entryLock i = some r := by
        unfold Shared.Blocked at hb
        split at hb
        · next hpc => exact absurd hpc hin
        · next q i hpc =>
          obtain ⟨r, hr⟩ := Option.isSome_iff_exists.mp hb
          exact ⟨q, i, r, hpc, hr⟩
        · simp [htable] at hb
        · simp [htable] at hb
        · exact hb.elim
      obtain ⟨q, i, r, -, hlock⟩ := hwait
      have hr := ((h.here r).entry i).mp hlock
      refine ⟨r, fun hbr => ?_⟩
      unfold Shared.Blocked at hbr
      split at hbr <;> simp_all [Pc.inEntry]
    · exact ⟨p, hb⟩

end Steps

/-- A memory as the runs leave it; only the processes in `ps` are in a call. -/
structure InUse (config : Pid → List ServiceDef) (l : Limits) (ps : Finset Pid) (c : Shared) :
    Prop where
  stands : ∃ m, Stands config c m
  hold : l.Hold c
  outside : ∀ p ∉ ps, c.pc p = .outside

theorem InUse.act {config : Pid → List ServiceDef} {l : Limits} {ps : Finset Pid} {c : Shared}
    (h : InUse config l ps c) (a : Action) : ∃ ps', InUse config l ps' (move config c a.erased) := by
  obtain ⟨m, hm⟩ := h.stands
  obtain ⟨m', -, hm'⟩ := act_follows hm a
  cases a with
  | response i k id => exact ⟨ps, ⟨m', hm'⟩, h.hold, h.outside⟩
  | flags f =>
    have hnum : (f.op c.events).entryNum = c.events.entryNum := by
      have hlen := congrArg List.length (f.keeps c.events)
      simpa [Table.registrations, Table.entryNum] using hlen
    exact ⟨ps, ⟨m', hm'⟩, ⟨h.hold.maxClients, h.hold.nextClientId, h.hold.room,
      hnum ▸ h.hold.events⟩, h.outside⟩
  | step p =>
    rcases next_goesOn hm h.hold p with ⟨-, hsame⟩ | hgo
    · refine ⟨ps, ?_⟩
      show InUse config l ps (c.next config p).1
      rwa [hsame]
    · refine ⟨insert p ps, ⟨m', hm'⟩, hgo.hold, fun r hr => ?_⟩
      obtain ⟨hrp, hrs⟩ : r ≠ p ∧ r ∉ ps := by simpa using hr
      exact (hgo.others r hrp).trans (h.outside r hrs)
  | invoke p q =>
    simp only [move, Action.erased, Shared.act] at hm' ⊢
    split at hm'
    · refine ⟨insert p ps, ⟨m', hm'⟩,
        ⟨h.hold.maxClients, h.hold.nextClientId, h.hold.room, h.hold.events⟩, fun r hr => ?_⟩
      obtain ⟨hrp, hrs⟩ : r ≠ p ∧ r ∉ ps := by simpa using hr
      simpa [hrp] using h.outside r hrs
    · exact ⟨ps, h⟩

theorem start_inUse (config : Pid → List ServiceDef) {w : World} (hw : Loaded w) :
    ∃ l, InUse config l ∅ (Shared.start w) := by
  let slots := (Finset.range w.services.entryNum).sup fun i =>
    max (w.services.entries i).maxClients (w.services.entries i).nextClientId
  have hslots : ∀ i < w.services.entryNum, max (w.services.entries i).maxClients
      (w.services.entries i).nextClientId ≤ slots := fun i hi =>
    Finset.le_sup (f := fun i => max (w.services.entries i).maxClients
      (w.services.entries i).nextClientId) (Finset.mem_range.mpr hi)
  exact ⟨⟨slots, max recvEventMax w.events.entryNum⟩, ⟨_, start_stands config hw⟩,
    ⟨fun i hi => (Nat.le_max_left _ _).trans (hslots i hi),
      fun i hi => (Nat.le_max_right _ _).trans (hslots i hi), Nat.le_max_left _ _,
      Nat.le_max_right _ _⟩, fun _ _ => rfl⟩

theorem run_inUse (config : Pid → List ServiceDef) {w : World} (hw : Loaded w) (as : List Action) :
    ∃ l ps d, InUse config l ps d ∧ (run (move config) (Shared.start w) as).forget = d.forget := by
  obtain ⟨l, hl⟩ := start_inUse config hw
  refine ⟨l, ?_⟩
  induction as using List.reverseRecOn with
  | nil => exact ⟨∅, _, hl, rfl⟩
  | append_singleton as a ih =>
    obtain ⟨ps, d, hd, hsame⟩ := ih
    obtain ⟨ps', hps'⟩ := hd.act a
    rw [run_concat]
    exact ⟨ps', _, hps', (Prod.mk.inj (act_alike config hsame a)).1⟩

theorem after_alike (config : Pid → List ServiceDef) {c d : Shared} (h : c.forget = d.forget)
    (σ : ℕ → Pid) (n : ℕ) :
    (after (fun c p => move config c (.step p)) c σ n).forget =
      (after (fun c p => move config c (.step p)) d σ n).forget := by
  induction n with
  | zero => exact h
  | succ n ih =>
    rw [after_succ, after_succ]
    exact (Prod.mk.inj (act_alike config ih (.step (σ n)))).1

/-- From every state that is reached, a schedule of steps that leaves no process out brings every
call to its end. -/
theorem calls_return (config : Pid → List ServiceDef) (w : World) (hw : Loaded w)
    (as : List Action) (σ : ℕ → Pid) (hfair : ∀ p n, ∃ k, n ≤ k ∧ σ k = p) :
    ∃ n, ∀ p, (after (fun c p => move config c (.step p))
      (run (move config) (Shared.start w) as) σ n).pc p = .outside := by
  obtain ⟨l, ps, d, hstart, hsame⟩ := run_inUse config hw as
  suffices hd : ∃ n, ∀ p, (after (fun c p => move config c (.step p)) d σ n).pc p = .outside by
    obtain ⟨n, hn⟩ := hd
    refine ⟨n, fun p => ?_⟩
    have hpc := congrArg (fun c => c.pc p) (after_alike config hsame σ n)
    exact hpc.trans (hn p)
  have hnone : ∀ c, InUse config l ps c → ∀ p, p ∉ ps → move config c (.step p) = c := by
    intro c h p hp
    simp [move, Shared.act, Shared.next, h.outside p hp]
  have hstep : ∀ c p, InUse config l ps c → (c.Blocked p ∧ move config c (.step p) = c) ∨
      GoesOn l c (move config c (.step p)) p := by
    intro c p h
    obtain ⟨m, hm⟩ := h.stands
    exact next_goesOn hm h.hold p
  refine fair_reaches (fun c => ∑ p ∈ ps, (c.pc p).left l) (I := InUse config l ps)
    (G := fun c => ∀ p, c.pc p = .outside) (fun c p h => ?_) (fun c p h => ?_) (fun c h => ?_)
    hstart hfair
  · rcases hstep c p h with ⟨-, hsame⟩ | hgo
    · exact hsame.symm ▸ h
    · obtain ⟨m, hm⟩ := h.stands
      obtain ⟨m', -, hm'⟩ := act_follows hm (.step p)
      refine ⟨⟨m', hm'⟩, hgo.hold, fun r hr => ?_⟩
      by_cases hrp : r = p
      · subst hrp
        rw [hnone c h r hr]
        exact h.outside r hr
      · exact (hgo.others r hrp).trans (h.outside r hr)
  · rcases hstep c p h with ⟨-, hsame⟩ | hgo
    · exact Or.inl hsame
    · refine Or.inr (Finset.sum_lt_sum (fun r _ => ?_) ⟨p, ?_, hgo.left⟩)
      · by_cases hrp : r = p
        · subst hrp
          exact hgo.left.le
        · rw [hgo.others r hrp]
      · by_contra hp
        rw [hnone c h p hp] at hgo
        exact absurd hgo.left (lt_irrefl _)
  · by_cases hall : ∀ p, c.pc p = .outside
    · exact Or.inl hall
    · obtain ⟨p, hp⟩ := not_forall.mp hall
      obtain ⟨m, hm⟩ := h.stands
      obtain ⟨r, hr⟩ := someone_moves hm hp
      refine Or.inr ⟨r, fun hsame => ?_⟩
      rcases hstep c r h with ⟨hb, -⟩ | hgo
      · exact hr hb
      · rw [hsame] at hgo
        exact absurd hgo.left (lt_irrefl _)

theorem unpair_fair (p n : ℕ) : ∃ k, n ≤ k ∧ (Nat.unpair k).1 = p :=
  ⟨Nat.pair p n, Nat.right_le_pair p n, by simp⟩

theorem race_returns : ∃ n, ∀ p,
    (after (fun c p => move (listed fun _ => roomForTwo) c (.step p))
      (run (move (listed fun _ => roomForTwo)) (Shared.start loadedWorld) (race.take 8))
      (fun n => (Nat.unpair n).1) n).pc p = .outside :=
  calls_return (listed fun _ => roomForTwo) loadedWorld loadedWorld_loaded (race.take 8)
    (fun n => (Nat.unpair n).1) unpair_fair

end ConcurrentClients
end HakoniwaCorePro
