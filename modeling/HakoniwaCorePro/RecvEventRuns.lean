import HakoniwaCorePro.RpcChannel
import HakoniwaCorePro.ResponseReads
import Mathlib.Data.Finset.Card
import Mathlib.Data.List.Nodup

/-!
# Receive event registrations over runs

The table outlives start, stop and reset. Registering appends to it without looking, while
a client that comes back by its name takes an entry over in place. The table stays free of
doubles on the runs that never register a pair of process and channel twice.
-/

namespace HakoniwaCorePro
namespace RecvEvent

open Runs Service

def Registration.pair (r : Registration) : Pid × ChannelId := (r.procId, r.realChannelId)

def Table.pairs (t : Table) : List (Pid × ChannelId) := t.registrations.map Registration.pair

def Table.Watched (t : Table) (pid : Pid) (c : ChannelId) : Prop :=
  t.entries.any (Entry.isOwn pid c) = true

structure Table.Unique (t : Table) : Prop where
  enabled : ∀ r ∈ t.registrations, r.enabled = true
  nodup : t.pairs.Nodup

theorem Table.Unique.of_registrations {t t' : Table} (h : t.Unique)
    (hr : t'.registrations = t.registrations) : t'.Unique :=
  ⟨by rw [hr]; exact h.enabled, by rw [Table.pairs, hr]; exact h.nodup⟩

theorem Table.mem_pairs {t : Table} {pid : Pid} {c : ChannelId} :
    (pid, c) ∈ t.pairs ↔ ∃ e ∈ t.entries, e.procId = pid ∧ e.realChannelId = c := by
  simp [Table.pairs, Table.registrations, Registration.pair]

theorem Table.Unique.watched_iff {t : Table} (h : t.Unique) {pid : Pid} {c : ChannelId} :
    t.Watched pid c ↔ (pid, c) ∈ t.pairs := by
  rw [Table.mem_pairs, Table.Watched, List.any_eq_true]
  constructor
  · rintro ⟨e, he, hown⟩
    simp only [Entry.isOwn, Bool.and_eq_true, beq_iff_eq] at hown
    exact ⟨e, he, hown.1.2, hown.2⟩
  · rintro ⟨e, he, hp, hc⟩
    have hen := h.enabled e.toRegistration (List.mem_map_of_mem he)
    exact ⟨e, he, by simp [Entry.isOwn, hen, hp, hc]⟩

/-- The pair is not in the table yet, or the table is full. -/
def RegistersNew (pid : Pid) (real : Option ChannelId) (t : Table) : Prop :=
  ∀ c, real = some c → t.entryNum < recvEventMax → ¬ t.Watched pid c

/-- The entry that is taken over is the process' own, or the process has none of the channel. -/
def UpdatesOwn (pid : Pid) (real : Option ChannelId) (t : Table) : Prop :=
  ∀ c e, real = some c → t.entries.find? (Entry.watches c) = some e →
    e.procId = pid ∨ ¬ t.Watched pid c

theorem register_unique {pid : Pid} {real : Option ChannelId} {t : Table} (h : t.Unique)
    (hnew : RegistersNew pid real t) (onRecv : Option Callback) :
    (registerDataRecvEvent pid real onRecv t).1.Unique := by
  cases real with
  | none => exact h
  | some c =>
    simp only [registerDataRecvEvent]
    split
    · exact h
    · next hroom =>
      have hpair : (pid, c) ∉ t.pairs := by
        rw [← h.watched_iff]
        exact hnew c rfl (Nat.lt_of_not_le hroom)
      constructor
      · intro r hr
        simp only [Table.registrations, List.map_append, List.mem_append] at hr
        rcases hr with hr | hr
        · exact h.enabled r hr
        · obtain rfl : r = (newEntry pid c onRecv).toRegistration := by simpa using hr
          rfl
      · have hcat := List.Nodup.concat hpair h.nodup
        rw [List.concat_eq_append] at hcat
        simpa [Table.pairs, Table.registrations, Registration.pair, newEntry] using hcat

theorem update_unique {pid : Pid} {real : Option ChannelId} {t : Table} (h : t.Unique)
    (hown : UpdatesOwn pid real t) (onRecv : Option Callback) :
    (updateDataRecvEvent pid real onRecv t).1.Unique := by
  cases real with
  | none => exact h
  | some c =>
    simp only [updateDataRecvEvent]
    split
    · exact h
    · next i hi =>
      obtain ⟨hlt, hwatch, hbefore⟩ := List.findIdx?_eq_some_iff_getElem.mp hi
      have hget : t.entries[i]? = some t.entries[i] := List.getElem?_eq_getElem hlt
      have hfind : t.entries.find? (Entry.watches c) = some t.entries[i] := by
        rw [List.find?_eq_some_iff_getElem]
        exact ⟨hwatch, i, hlt, rfl, fun j hj => by simpa using hbefore j hj⟩
      simp only [Entry.watches, Bool.and_eq_true, beq_iff_eq] at hwatch
      have hset := FirstMatch.map_updateFirst_set (f := Entry.takeOver pid onRecv)
        Entry.toRegistration hi hget
      have hpairs : (Table.pairs ⟨FirstMatch.updateFirst (Entry.watches c)
          (Entry.takeOver pid onRecv) t.entries⟩) = t.pairs.set i (pid, c) := by
        simp [Table.pairs, Table.registrations, hset, List.map_set, Registration.pair,
          Entry.takeOver, hwatch.2]
      constructor
      · intro r hr
        simp only [Table.registrations, hset] at hr
        rcases List.mem_or_eq_of_mem_set hr with hr | rfl
        · exact h.enabled r hr
        · exact hwatch.1
      · rw [hpairs]
        rcases hown c _ rfl hfind with hp | hnone
        · have hlen : i < t.pairs.length := by
            simpa [Table.pairs, Table.registrations] using hlt
          have hself : (pid, c) = t.pairs[i] := by
            simp [Table.pairs, Table.registrations, Registration.pair, hp, hwatch.2]
          rw [hself, List.set_getElem_self]
          exact h.nodup
        · rw [h.watched_iff] at hnone
          exact h.nodup.set hnone

theorem Table.Unique.holds {t : Table} (h : t.Unique) {pid : Pid} {c : ChannelId}
    (hsole : ∀ e ∈ t.entries, e.watches c = true → e.procId = pid) {i : ℕ} {e : Entry}
    (he : t.entries[i]? = some e) (hw : e.watches c = true) : t.Holds i e := by
  have hpair : ∀ (j : ℕ) (x : Entry), t.entries[j]? = some x → x.watches c = true →
      t.pairs[j]? = some (pid, c) := by
    intro j x hx hxw
    have hp := hsole x (List.mem_of_getElem? hx) hxw
    simp only [Entry.watches, Bool.and_eq_true, beq_iff_eq] at hxw
    simp [Table.pairs, Table.registrations, hx, Registration.pair, hp, hxw.2]
  have hwe : e.enabled = true ∧ e.realChannelId = c := by simpa [Entry.watches] using hw
  refine ⟨he, ⟨by simp [Table.registrations, he], hwe.1, fun j q hq hen hch => ?_⟩⟩
  simp only [Table.registrations, List.getElem?_map, Option.map_eq_some_iff] at hq
  obtain ⟨x, hx, rfl⟩ := hq
  have hxw : x.watches c = true := by simp [Entry.watches, hen, hch, hwe.2]
  have hj := hpair j x hx hxw
  have hi := hpair i e he hw
  obtain ⟨hlt, -⟩ := List.getElem?_eq_some_iff.mp hj
  exact (List.getElem?_inj hlt h.nodup).mp (hj.trans hi.symm)

theorem before_write_of_none {c : ChannelId} {t : Table}
    (hnone : ∀ e ∈ t.entries, e.watches c = false) : onPduDataBeforeWrite c t = true := by
  simp only [onPduDataBeforeWrite, Bool.not_eq_true', List.any_eq_false]
  intro e he
  simp [hnone e he]

theorem Table.Unique.accepted_after_check {t : Table} (h : t.Unique) {pid : Pid} {c : ChannelId}
    (hc : c < pduChannelMax) (hsole : ∀ e ∈ t.entries, e.watches c = true → e.procId = pid) :
    onPduDataBeforeWrite c (getRecvEvent pid c t).1 = true := by
  by_cases hw : ∃ e ∈ t.entries, e.watches c = true
  · obtain ⟨e, hmem, hw⟩ := hw
    obtain ⟨i, hi⟩ := List.getElem?_of_mem hmem
    have hp := hsole e hmem hw
    have he := h.holds hsole hi hw
    have hch : e.realChannelId = c := (he.watches_iff c).mp hw
    have hk := he.check (by rwa [hch]) pid c
    rw [if_pos ⟨hp.symm, hch.symm⟩] at hk
    have hbefore := hk.beforeWrite
    rw [consume_isUnread, show e.consume.realChannelId = c by simpa using hch] at hbefore
    exact hbefore
  · have hnone : ∀ e ∈ t.entries, e.watches c = false := fun e he => by
      simpa using fun hwe => hw ⟨e, he, hwe⟩
    have hfind : t.entries.find? (Entry.isOwn pid c) = none := by
      rw [List.find?_eq_none]
      intro e he hown
      have := hnone e he
      simp only [Entry.isOwn, Bool.and_eq_true, beq_iff_eq] at hown
      simp [Entry.watches, hown] at this
    simp only [getRecvEvent, ge_iff_le, Nat.not_le.mpr hc, if_false, hfind]
    exact before_write_of_none hnone

theorem Table.Unique.accepted_after_callbacks {t : Table} (h : t.Unique) {pid : Pid}
    {c : ChannelId} (hsole : ∀ e ∈ t.entries, e.watches c = true → e.procId = pid)
    (hcall : ∃ e ∈ t.entries, e.watches c = true ∧ e.onRecv.isSome = true) :
    onPduDataBeforeWrite c (callRecvEventCallbacks pid t).1 = true := by
  obtain ⟨e, hmem, hw, hon⟩ := hcall
  obtain ⟨i, hi⟩ := List.getElem?_of_mem hmem
  have hp := hsole e hmem hw
  have he := h.holds hsole hi hw
  have hch : e.realChannelId = c := (he.watches_iff c).mp hw
  have hk := he.callbacks pid
  rw [if_pos ⟨hp.symm, hon⟩] at hk
  have hbefore := hk.beforeWrite
  rw [consume_isUnread, show e.consume.realChannelId = c by simpa using hch] at hbefore
  exact hbefore

/-- Every request channel that `create_service` comes to register is new to the process. -/
def RegistersAllNew (pid : Pid) (real : ℕ → Option ChannelId) : List ℕ → Table → Prop
  | [], _ => True
  | j :: js, t =>
    RegistersNew pid (real (serverChannelId j)) t ∧
      ((registerDataRecvEvent pid (real (serverChannelId j)) none t).2.isSome →
        RegistersAllNew pid real js (registerDataRecvEvent pid (real (serverChannelId j)) none t).1)

theorem registerSlots_unique {pid : Pid} {real : ℕ → Option ChannelId} (js : List ℕ) {t : Table}
    (h : t.Unique) (hnew : RegistersAllNew pid real js t) (m : ℕ → ClientChannelMap) :
    (registerSlots pid real js t m).1.Unique := by
  induction js generalizing t m with
  | nil => exact h
  | cons j js ih =>
    have hone := register_unique h hnew.1 none
    have hrest := hnew.2
    simp only [registerSlots]
    split
    · next t' hreg =>
      rw [hreg] at hone
      exact hone
    · next t' id hreg =>
      rw [hreg] at hone hrest
      exact ih hone (hrest rfl) _

/-- What a call registers is new to its process, and what it takes over is the process' own. -/
def CallDistinct (config : Pid → List ServiceDef) (a : Call) (s : Tables) : Prop :=
  match a with
  | .createService pid real name =>
    let (u, i) := findService (config pid) name.bytes s
    ∀ k ∈ i, RegistersAllNew pid (real name.bytes)
      (List.range (u.services.entries k).maxClients) u.events
  | .createServiceClient pid real name client =>
    let (u, i) := findServiceForClient (config pid) name.bytes client.bytes s
    ∀ k ∈ i, match (u.services.entries k).findClient client.bytes with
      | some j => UpdatesOwn pid
          (real name.bytes ((u.services.entries k).clientChannelMap j).responseChannelId) u.events
      | none => (u.services.entries k).nextClientId < (u.services.entries k).maxClients →
          RegistersNew pid (real name.bytes ((u.services.entries k).clientChannelMap
            (u.services.entries k).nextClientId).responseChannelId) u.events

theorem createClientSlot_unique {pid : Pid} {real : ℕ → Option ChannelId} {client : Name} {i : ℕ}
    {u : Tables} (h : u.events.Unique)
    (hd : match (u.services.entries i).findClient client with
      | some j => UpdatesOwn pid
          (real ((u.services.entries i).clientChannelMap j).responseChannelId) u.events
      | none => (u.services.entries i).nextClientId < (u.services.entries i).maxClients →
          RegistersNew pid (real ((u.services.entries i).clientChannelMap
            (u.services.entries i).nextClientId).responseChannelId) u.events) :
    (createClientSlot pid real client i u).1.events.Unique := by
  simp only [createClientSlot]
  split
  · next k hk =>
    rw [hk] at hd
    exact update_unique h hd none
  · next hk =>
    rw [hk] at hd
    split
    · exact h
    · next hroom =>
      have hone := register_unique h (hd (Nat.lt_of_not_le hroom)) none
      split
      · next t' hreg =>
        rw [hreg] at hone
        exact hone
      · next t' id hreg =>
        rw [hreg] at hone
        exact hone

theorem call_unique {config : Pid → List ServiceDef} {a : Call} {s : Tables} (h : s.events.Unique)
    (hd : CallDistinct config a s) : (a.run config s).1.events.Unique := by
  cases a with
  | createService pid real name =>
    have hev := (findService_cases (config pid) name.bytes s).events
    simp only [CallDistinct] at hd
    simp only [Call.run, Service.createService]
    split
    · next u hfind =>
      rw [hfind] at hev
      exact hev ▸ h
    · next u i hfind =>
      rw [hfind] at hev hd
      exact registerSlots_unique _ (hev ▸ h) (hd i rfl) _
  | createServiceClient pid real name client =>
    have hev := (findServiceForClient_cases (config pid) name.bytes client.bytes s).events
    simp only [CallDistinct] at hd
    simp only [Call.run, Service.createServiceClient]
    split
    · next u hfind =>
      rw [hfind] at hev
      exact hev ▸ h
    · next u i hfind =>
      rw [hfind] at hev hd
      exact createClientSlot_unique (hev ▸ h) (hd i rfl)

/-- A session: the shared tables and the channel data of all processes. -/
structure Session (Pdu : Type) where
  world : World
  data : ChannelId → Pdu

/-- Start and reset are `restart`; a stop leaves the tables alone. `register` is
`register_data_recv_event`, which an asset calls at will, also at every start. -/
inductive SessionAction (Pdu : Type)
  | bus (a : BusAction Pdu)
  | restart (pid : Pid)
  | register (pid : Pid) (real : Option ChannelId) (onRecv : Option Callback)
  | call (a : Call)
  | getResponse (pid : Pid) (real : Name → ℕ → Option ChannelId) (i k : ℕ)

def sessionStep {Pdu : Type} (config : Pid → List ServiceDef) (s : Session Pdu) :
    SessionAction Pdu → Session Pdu
  | .bus a =>
    let b := busStep ⟨s.data, s.world.events⟩ a
    ⟨{ s.world with events := b.table }, b.data⟩
  | .restart pid =>
    { s with world := { s.world with
        events := RecvEvent.clearRunFlags s.world.events
        index := Function.update s.world.index pid (rebuildServiceNameIndexes s.world.services) } }
  | .register pid real onRecv =>
    { s with world := { s.world with
        events := (registerDataRecvEvent pid real onRecv s.world.events).1 } }
  | .call a => { s with world := worldStep config s.world a }
  | .getResponse pid real i k =>
    let (t, ev, _) := Service.getResponse pid real i k s.world.services s.world.events
    { s with world := { s.world with services := t, events := ev } }

/-- The step registers no pair of process and channel a second time. -/
def Distinct {Pdu : Type} (config : Pid → List ServiceDef) (s : Session Pdu) :
    SessionAction Pdu → Prop
  | .bus _ => True
  | .restart _ => True
  | .register pid real _ => RegistersNew pid real s.world.events
  | .call a => CallDistinct config a (s.world.tables a.pid)
  | .getResponse .. => True

theorem busStep_registrations {Pdu : Type} (b : Bus Pdu) (a : BusAction Pdu) :
    (busStep b a).table.registrations = b.table.registrations := by
  cases a with
  | write c p => exact writePdu_registrations c p b
  | _ => simp [busStep]

theorem session_unique {Pdu : Type} {config : Pid → List ServiceDef} (s : Session Pdu)
    (a : SessionAction Pdu) (h : s.world.events.Unique) (hd : Distinct config s a) :
    (sessionStep config s a).world.events.Unique := by
  cases a with
  | bus a => exact h.of_registrations (busStep_registrations ⟨s.data, s.world.events⟩ a)
  | restart pid => exact h.of_registrations (clearRunFlags_registrations _)
  | register pid real onRecv => exact register_unique h hd onRecv
  | call a => exact call_unique (s := s.world.tables a.pid) h hd
  | getResponse pid real i k =>
    exact h.of_registrations (getResponse_registrations pid real i k s.world.services s.world.events)

/-- The pairs that have been registered: each is in the table right after its registration. -/
def registered {Pdu : Type} (config : Pid → List ServiceDef) (s : Session Pdu)
    (as : List (SessionAction Pdu)) : List (Pid × ChannelId) :=
  history (sessionStep config) (fun s a => (sessionStep config s a).world.events.pairs) s as

/-- No doubles, no more entries than pairs registered, and a channel that is watched by one
live process and by no ended one takes a write again once that process has consumed. -/
structure RegistrationsSound (t : Table) (registered : List (Pid × ChannelId)) : Prop where
  once : ∀ pid c, t.entries.countP (Entry.isOwn pid c) ≤ 1
  entryNum : t.entryNum ≤ registered.toFinset.card
  accepted : ∀ (live : Pid → Prop) pid c, c < pduChannelMax →
    (∀ e ∈ t.entries, e.watches c = true → live e.procId) →
    (∀ e ∈ t.entries, e.watches c = true → live e.procId → e.procId = pid) →
    onPduDataBeforeWrite c (getRecvEvent pid c t).1 = true ∧
    ((∃ e ∈ t.entries, e.watches c = true ∧ e.onRecv.isSome = true) →
      onPduDataBeforeWrite c (callRecvEventCallbacks pid t).1 = true)

theorem Table.Unique.countP_le {t : Table} (h : t.Unique) (pid : Pid) (c : ChannelId) :
    t.entries.countP (Entry.isOwn pid c) ≤ 1 := by
  have hcount : t.pairs.count (pid, c) ≤ 1 := List.nodup_iff_count_le_one.mp h.nodup (pid, c)
  have hle : t.entries.countP (Entry.isOwn pid c) ≤ t.pairs.count (pid, c) := by
    simp only [Table.pairs, Table.registrations, List.map_map, List.count, List.countP_map]
    refine List.countP_mono_left fun e _ hown => ?_
    simp only [Entry.isOwn, Bool.and_eq_true, beq_iff_eq] at hown
    simp [Registration.pair, hown]
  omega

/-- On every run from the empty tables in which no pair is registered twice, the table stays
sound. -/
theorem registrations_sound {Pdu : Type} (config : Pid → List ServiceDef) (data : ChannelId → Pdu)
    (as : List (SessionAction Pdu))
    (hd : Along (sessionStep config) (Distinct config) ⟨World.start, data⟩ as) :
    RegistrationsSound (run (sessionStep config) ⟨World.start, data⟩ as).world.events
      (registered config ⟨World.start, data⟩ as) := by
  have hstart : (⟨World.start, data⟩ : Session Pdu).world.events.Unique :=
    ⟨by simp [World.start, Table.registrations], List.nodup_nil⟩
  have hend := run_invariant (I := fun s : Session Pdu => s.world.events.Unique)
    session_unique hstart hd
  have hpairs : (run (sessionStep config) ⟨World.start, data⟩ as).world.events.pairs ⊆
      registered config ⟨World.start, data⟩ as := by
    rcases List.eq_nil_or_concat as with rfl | ⟨bs, a, rfl⟩
    · exact List.nil_subset _
    · rw [List.concat_eq_append, run_concat, registered, history_concat]
      exact List.subset_append_right _ _
  constructor
  case once => exact hend.countP_le
  case entryNum =>
    have hcard := List.toFinset_card_of_nodup hend.nodup
    have hsub := Finset.card_le_card fun x hx =>
      List.mem_toFinset.mpr (hpairs (List.mem_toFinset.mp hx))
    rw [hcard] at hsub
    simpa [Table.pairs, Table.registrations, Table.entryNum] using hsub
  case accepted =>
    intro live pid c hc hlive hsole
    have hall := fun e he hw => hsole e he hw (hlive e he hw)
    exact ⟨hend.accepted_after_check hc hall, hend.accepted_after_callbacks hall⟩

/-- An asset that registers at a start, is started again, and checks what was written. -/
def twoStarts (again : List (SessionAction ℕ)) : List (SessionAction ℕ) :=
  [.restart 0, .register 7 (some 3) none, .restart 0] ++ again ++ [.bus (.write 3 5)]

theorem registrations_sound_once :
    RegistrationsSound
      (run (sessionStep fun _ => []) ⟨World.start, fun _ => 0⟩ (twoStarts [])).world.events
      (registered (fun _ => []) ⟨World.start, fun _ => 0⟩ (twoStarts [])) :=
  registrations_sound (fun _ => []) (fun _ => 0) (twoStarts [])
    (by simp [twoStarts, Distinct, RegistersNew, Table.Watched, sessionStep, World.start,
      RecvEvent.clearRunFlags])

/-- An `on_initialize` that registers at every start: after two starts the process has two
entries of the channel, and the write after its check is refused. -/
theorem registered_twice :
    let t := (run (sessionStep fun _ => []) ⟨World.start, fun _ => 0⟩
      (twoStarts [.register 7 (some 3) none])).world.events
    t.entries.countP (Entry.isOwn 7 3) = 2 ∧ t.entryNum = 2 ∧
    (registered (fun _ => []) ⟨World.start, fun _ => 0⟩
      (twoStarts [.register 7 (some 3) none])).toFinset.card = 1 ∧
    (∀ e ∈ t.entries, e.procId = 7) ∧
    (getRecvEvent 7 3 t).2.received = true ∧
    onPduDataBeforeWrite 3 (getRecvEvent 7 3 t).1 = false := by
  decide

end RecvEvent
end HakoniwaCorePro
