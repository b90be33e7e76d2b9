import HakoniwaCorePro.ConcurrentClients
import HakoniwaCorePro.ResponseReads

/-!
# Clients are created one at a time

Whatever the processes do at the same time, their calls are as good as made at once, one after
another: a call for a new client in the step that enters its event, a call for a known client in
the step that takes the event over, and a call that fails in the test that fails. The invariant says
which lock a process holds, what it has found out so far, and that a slot which is not yet filled
belongs to the process that has locked its entry.
-/

namespace HakoniwaCorePro

namespace RecvEvent

def Registration.watched (r : Registration) : Option ChannelId :=
  if r.enabled then some r.realChannelId else none

def Registration.takeOver (pid : Pid) (onRecv : Option Callback) (r : Registration) :
    Registration :=
  { r with
    procId := pid
    type := if onRecv.isSome then .callback else .flag
    onRecv := onRecv }

/-- The channels of the entries, which a process may look at without the lock. -/
def Table.channels (t : Table) : List (Option ChannelId) := t.registrations.map Registration.watched

theorem watches_eq (c : ChannelId) (e : Entry) :
    e.watches c = (e.toRegistration.watched == some c) := by
  unfold Entry.watches Registration.watched
  split <;> simp [*]

@[simp] theorem length_channels (t : Table) : t.channels.length = t.entryNum := by
  simp [Table.channels, Table.registrations, Table.entryNum]

theorem channels_getElem? (t : Table) (j : ℕ) :
    t.channels[j]? = t.entries[j]?.map fun e => e.toRegistration.watched := by
  simp only [Table.channels, Table.registrations, List.map_map, List.getElem?_map]
  rfl

theorem findIdx?_watches (c : ChannelId) (t : Table) :
    t.entries.findIdx? (Entry.watches c) = t.channels.findIdx? (· == some c) := by
  simp only [Table.channels, Table.registrations, List.map_map, List.findIdx?_map]
  congr 1
  funext e
  exact watches_eq c e

theorem channels_modify (t : Table) (pid : Pid) (onRecv : Option Callback) (j : ℕ) :
    (Table.mk (t.entries.modify j (Entry.takeOver pid onRecv))).channels = t.channels := by
  refine List.ext_getElem? fun l => ?_
  simp only [channels_getElem?, List.getElem?_modify]
  cases t.entries[l]? with
  | none => rfl
  | some e => by_cases hj : j = l <;> simp [hj, Entry.takeOver, Registration.watched]

theorem registrations_modify (t : Table) (pid : Pid) (onRecv : Option Callback) (j : ℕ) :
    (Table.mk (t.entries.modify j (Entry.takeOver pid onRecv))).registrations =
      t.registrations.modify j (Registration.takeOver pid onRecv) := by
  refine List.ext_getElem? fun l => ?_
  simp only [Table.registrations, List.getElem?_map, List.getElem?_modify]
  cases t.entries[l]? with
  | none => rfl
  | some e => by_cases hj : j = l <;> simp [hj, Entry.takeOver, Registration.takeOver]

theorem channels_append (t : Table) (e : Entry) :
    (Table.mk (t.entries ++ [e])).channels = t.channels ++ [e.toRegistration.watched] := by
  simp [Table.channels, Table.registrations]

theorem registrations_append {t t' : Table} (h : t.registrations = t'.registrations) (e : Entry) :
    (Table.mk (t.entries ++ [e])).registrations = (Table.mk (t'.entries ++ [e])).registrations := by
  simp only [Table.registrations, List.map_append] at h ⊢
  rw [h]

theorem updateDataRecvEvent_registrations (pid : Pid) {c : ChannelId}
    (onRecv : Option Callback) {t : Table} {j : ℕ}
    (hj : t.channels.findIdx? (· == some c) = some j) :
    (updateDataRecvEvent pid (some c) onRecv t).1.registrations =
        t.registrations.modify j (Registration.takeOver pid onRecv) ∧
      (updateDataRecvEvent pid (some c) onRecv t).2 = some j := by
  rw [← findIdx?_watches] at hj
  simp only [updateDataRecvEvent, hj, and_true]
  rw [FirstMatch.updateFirst_eq_modify _ hj]
  exact registrations_modify t pid onRecv j

theorem updateDataRecvEvent_none (pid : Pid) {real : Option ChannelId} (onRecv : Option Callback)
    {t : Table} (h : ∀ c ∈ real, t.channels.findIdx? (· == some c) = none) :
    updateDataRecvEvent pid real onRecv t = (t, none) := by
  cases real with
  | none => rfl
  | some c => simp [updateDataRecvEvent, findIdx?_watches, h c rfl]

end RecvEvent

namespace ConcurrentClients

open RecvEvent Service Runs Linearization

def Caller.entry : Caller → Option ℕ
  | .client _ i _ => some i
  | .asset _ => none

def Pc.inEntry : Pc → Option ℕ
  | .findExisting _ i _ | .findEvent _ i _ _ _ | .lockForUpdate _ i _ _ _ | .updateEvent _ i _ _ _
  | .unlockUpdate _ i _ | .checkRoom _ i | .assignSlot _ i _ _ | .countSlot _ i _
  | .unlockServiceEntry _ i _ => some i
  | .checkFull o _ | .lockForAppend o _ | .recheckFull o _ | .appendEvent o _
  | .unlockAppend o _ _ => o.entry
  | .outside | .entered _ | .lockServiceEntry _ _ | .leaving _ _ => none

def Pc.inTable : Pc → Bool
  | .updateEvent _ _ _ _ _ | .unlockUpdate _ _ _ | .recheckFull _ _ | .appendEvent _ _
  | .unlockAppend _ _ _ => true
  | _ => false

def Caller.looked : Caller → Option (ClientCall × ℕ)
  | .client q i _ => some (q, i)
  | .asset _ => none

/-- The service id a call has found, until it is decided. -/
def Pc.looked : Pc → Option (ClientCall × ℕ)
  | .lockServiceEntry q i | .findExisting q i _ | .findEvent q i _ _ _ | .lockForUpdate q i _ _ _
  | .updateEvent q i _ _ _ | .checkRoom q i => some (q, i)
  | .checkFull o _ | .lockForAppend o _ | .recheckFull o _ | .appendEvent o _ => o.looked
  | _ => none

/-- How far the call is: decided in one of its steps, or not yet. -/
def Pc.phase : Pc → Phase Request Answer
  | .outside => .outside
  | .entered q => .pending q
  | .lockServiceEntry q _ | .findExisting q _ _ | .findEvent q _ _ _ _ | .lockForUpdate q _ _ _ _
  | .updateEvent q _ _ _ _ | .checkRoom q _ => .pending (.createServiceClient q)
  | .checkFull o c | .lockForAppend o c | .recheckFull o c | .appendEvent o c =>
    .pending (o.request c)
  | .unlockAppend o c id => .done (o.request c) (o.answer id)
  | .unlockUpdate q i k | .assignSlot q i k _ | .countSlot q i k =>
    .done (.createServiceClient q) (.ids ⟨some i, some k⟩)
  | .unlockServiceEntry q _ ids => .done (.createServiceClient q) (.ids ids)
  | .leaving q a => .done q a

/-- Slot `k` is given to the client. -/
def takeSlot (client : Name) (k recvEventId : ℕ) (e : ServiceEntry) : ServiceEntry :=
  { e with
    clientChannelMap := Function.update e.clientChannelMap k
      ((e.clientChannelMap k).assign client recvEventId)
    nextClientId := e.nextClientId + 1 }

def Caller.filled : Caller → Option ℕ → ServiceEntry → ServiceEntry
  | .client q _ k, some id, e => takeSlot q.client.bytes k id e
  | _, _, e => e

/-- The entry as it will be when the process has stored what it has decided. -/
def Pc.filled : Pc → ServiceEntry → ServiceEntry
  | .unlockAppend o _ id, e => o.filled id e
  | .assignSlot q _ k id, e => takeSlot q.client.bytes k id e
  | .countSlot _ _ _, e => { e with nextClientId := e.nextClientId + 1 }
  | _, e => e

/-- A client that registers its event has found its name in no slot, and takes a free one. -/
def Caller.Knows (t : ServiceTable) (ch : ChannelId) : Caller → Prop
  | .client q i k => (t.entries i).findClient q.client.bytes = none ∧
      k = (t.entries i).nextClientId ∧ k < (t.entries i).maxClients ∧
      q.real q.name.bytes ((t.entries i).clientChannelMap k).responseChannelId = some ch
  | .asset _ => True

def Caller.HasRoom (t : ServiceTable) : Caller → Prop
  | .client _ i _ => (t.entries i).nextClientId < (t.entries i).maxClients
  | .asset _ => True

/-- What the process has found out. -/
def Pc.Knows (t : ServiceTable) (ev : RecvEvent.Table) : Pc → Prop
  | .findExisting q i k => k ≤ (t.entries i).nextClientId ∧ ∀ l < k,
      ¬ ((t.entries i).clientChannelMap l).enabled ∨
        ((t.entries i).clientChannelMap l).name ≠ q.client.bytes
  | .findEvent q i k ch j => (t.entries i).findClient q.client.bytes = some k ∧
      q.real q.name.bytes ((t.entries i).clientChannelMap k).responseChannelId = some ch ∧
      j ≤ ev.channels.length ∧ some ch ∉ ev.channels.take j
  | .lockForUpdate q i k ch j | .updateEvent q i k ch j =>
      (t.entries i).findClient q.client.bytes = some k ∧
      q.real q.name.bytes ((t.entries i).clientChannelMap k).responseChannelId = some ch ∧
      ev.channels.findIdx? (· == some ch) = some j
  | .checkRoom q i => (t.entries i).findClient q.client.bytes = none
  | .checkFull o ch | .lockForAppend o ch | .recheckFull o ch => o.Knows t ch
  | .appendEvent o ch => o.Knows t ch ∧ ev.entryNum < recvEventMax
  | .unlockAppend o _ id => id.isSome → o.HasRoom t
  | .assignSlot _ i _ _ | .countSlot _ i _ =>
      (t.entries i).nextClientId < (t.entries i).maxClients
  | _ => True

structure Local (config : Pid → List ServiceDef) (c : Shared) (w : World) (p : Pid) (pc : Pc) :
    Prop where
  entry : ∀ i, c.entryLock i = some p ↔ pc.inEntry = some i
  table : c.tableLock = some p ↔ pc.inTable = true
  inside : ∀ i, pc.inEntry = some i → i < c.services.entryNum
  looked : ∀ q i, pc.looked = some (q, i) → i < c.services.entryNum ∧
    findServiceForClient (config p) q.name.bytes q.client.bytes (w.tables p) =
      (⟨w.services, w.events, c.index p⟩, some i)
  index : pc.looked = none → c.index p = w.index p
  knows : pc.Knows c.services c.events

/-- The shared memory stands for the world of the calls that are decided. -/
structure Stands (config : Pid → List ServiceDef) (c : Shared)
    (m : Monitor World Pid Request Answer) : Prop where
  loaded : m.state.services.entryNum ≠ 0
  entryNum : c.services.entryNum = m.state.services.entryNum
  entries : ∀ i, m.state.services.entries i =
    (c.entryLock i).elim (c.services.entries i) fun p => (c.pc p).filled (c.services.entries i)
  events : c.events.registrations = m.state.events.registrations
  /-- The ids in the processes' own indexes are those of the table. -/
  within : ∀ p name i, c.index p name = some i → i < c.services.entryNum
  phase : ∀ p, m.phase p = (c.pc p).phase
  here : ∀ p, Local config c m.state p (c.pc p)

theorem findServiceForClient_congr {services : List ServiceDef} {name client : Name} {s t : Tables}
    (hs : s.services.entryNum ≠ 0) (hnum : t.services.entryNum = s.services.entryNum)
    (hnames : rebuildServiceNameIndexes t.services = rebuildServiceNameIndexes s.services)
    (hix : t.index = s.index) {ix : NameIndex} {o : Option ℕ}
    (h : findServiceForClient services name client s = (⟨s.services, s.events, ix⟩, o)) :
    findServiceForClient services name client t = (⟨t.services, t.events, ix⟩, o) := by
  have ht : t.services.entryNum ≠ 0 := hnum ▸ hs
  simp only [findServiceForClient, if_neg hs, if_neg ht, getServiceId, hnames, hix] at h ⊢
  split at h
  · next hbad =>
    obtain ⟨h₁, rfl⟩ := Prod.mk.inj h
    obtain rfl : t.index = ix := hix.trans (congrArg Tables.index h₁)
    rw [if_pos hbad]
  · next hbad =>
    rw [if_neg hbad]
    obtain ⟨h₁, h₂⟩ := Prod.mk.inj h
    exact Prod.ext (congrArg (fun x : Tables => (⟨t.services, t.events, x.index⟩ : Tables)) h₁) h₂

theorem Pc.Knows.frame {t t' : ServiceTable} {ev ev' : RecvEvent.Table} {pc : Pc}
    (h : pc.Knows t ev) (hentry : ∀ i, pc.inEntry = some i → t'.entries i = t.entries i)
    (hev : ev.channels <+: ev'.channels) (hfull : pc.inTable = true → ev'.entryNum = ev.entryNum) :
    pc.Knows t' ev' := by
  have hcaller : ∀ (o : Caller) (ch : ChannelId), (∀ i, o.entry = some i →
      t'.entries i = t.entries i) → o.Knows t ch → o.Knows t' ch := by
    intro o ch ho hk
    cases o with
    | client q i k => simpa only [Caller.Knows, ho i rfl] using hk
    | asset => trivial
  obtain ⟨more, hmore⟩ := hev
  cases pc with
  | findExisting q i k => simpa only [Pc.Knows, hentry i rfl] using h
  | findEvent q i k ch j =>
    obtain ⟨hk, hch, hj, hno⟩ := h
    refine ⟨by rw [hentry i rfl]; exact hk, by rw [hentry i rfl]; exact hch, ?_, ?_⟩
    · rw [← hmore, List.length_append]
      omega
    · rwa [← hmore, List.take_append_of_le_length hj]
  | lockForUpdate q i k ch j | updateEvent q i k ch j =>
    obtain ⟨hk, hch, hj⟩ := h
    refine ⟨by rw [hentry i rfl]; exact hk, by rw [hentry i rfl]; exact hch, ?_⟩
    rw [← hmore, List.findIdx?_append, hj]
    rfl
  | checkRoom q i => simpa only [Pc.Knows, hentry i rfl] using h
  | checkFull o ch | lockForAppend o ch | recheckFull o ch => exact hcaller o ch hentry h
  | appendEvent o ch => exact ⟨hcaller o ch hentry h.1, by rw [hfull rfl]; exact h.2⟩
  | unlockAppend o ch id =>
    cases o with
    | client q i k => simpa only [Pc.Knows, Caller.HasRoom, hentry i rfl] using h
    | asset => exact fun _ => trivial
  | assignSlot q i k id => simpa only [Pc.Knows, hentry i rfl] using h
  | countSlot q i k => simpa only [Pc.Knows, hentry i rfl] using h
  | _ => trivial

/-- A step of the process `p`: what it does not own stays. -/
structure StepOf (p : Pid) (c c' : Shared) (w w' : World) (pc : Pc) : Prop where
  pc : c'.pc = Function.update c.pc p pc
  entryLock : ∀ i, ∀ q ≠ p, c'.entryLock i = some q ↔ c.entryLock i = some q
  tableLock : ∀ q ≠ p, c'.tableLock = some q ↔ c.tableLock = some q
  entryNum : c'.services.entryNum = c.services.entryNum
  entries : ∀ i, c.entryLock i ≠ some p → c'.services.entries i = c.services.entries i ∧
    w'.services.entries i = w.services.entries i
  channels : c.events.channels <+: c'.events.channels
  full : ∀ q ≠ p, c.tableLock = some q → c'.events.entryNum = c.events.entryNum
  index : ∀ q ≠ p, c'.index q = c.index q ∧ w'.index q = w.index q
  worldNum : w'.services.entryNum = w.services.entryNum
  names : rebuildServiceNameIndexes w'.services = rebuildServiceNameIndexes w.services

theorem Local.frame {config : Pid → List ServiceDef} {p q : Pid} {c c' : Shared} {w w' : World}
    {pc pc' : Pc} (hload : w.services.entryNum ≠ 0) (h : Local config c w q pc')
    (hs : StepOf p c c' w w' pc) (hq : q ≠ p) : Local config c' w' q pc' := by
  have hown : ∀ i, pc'.inEntry = some i → c'.services.entries i = c.services.entries i := by
    intro i hi
    have hlock := (h.entry i).mpr hi
    exact (hs.entries i (by rw [hlock]; simpa using hq)).1
  constructor
  case entry => exact fun i => (hs.entryLock i q hq).trans (h.entry i)
  case table => exact (hs.tableLock q hq).trans h.table
  case inside => exact fun i hi => by rw [hs.entryNum]; exact h.inside i hi
  case looked =>
    intro r i hl
    obtain ⟨hi, hfind⟩ := h.looked r i hl
    refine ⟨by rw [hs.entryNum]; exact hi, ?_⟩
    rw [(hs.index q hq).1]
    exact findServiceForClient_congr (s := w.tables q) hload hs.worldNum hs.names (hs.index q hq).2
      hfind
  case index =>
    intro hl
    rw [(hs.index q hq).1, (hs.index q hq).2]
    exact h.index hl
  case knows => exact h.knows.frame hown hs.channels fun ht => hs.full q hq (h.table.mpr ht)

/-- The rule for a step of one process. -/
theorem Stands.step {config : Pid → List ServiceDef} {c c' : Shared}
    {m : Monitor World Pid Request Answer} (h : Stands config c m) {p : Pid} {pc : Pc} {w' : World}
    (hs : StepOf p c c' m.state w' pc) (hlocal : Local config c' w' p pc)
    (hown : ∀ i, c.entryLock i = some p ∨ c'.entryLock i = some p →
      w'.services.entries i = (c'.entryLock i).elim (c'.services.entries i)
        fun _ => pc.filled (c'.services.entries i))
    (hevents : c'.events.registrations = w'.events.registrations)
    (hwithin : ∀ name i, c'.index p name = some i → i < c.services.entryNum) :
    Stands config c' ⟨w', Function.update m.phase p pc.phase⟩ := by
  constructor
  case loaded => exact fun h0 => h.loaded (hs.worldNum.symm.trans h0)
  case entryNum => exact hs.entryNum.trans (h.entryNum.trans hs.worldNum.symm)
  case entries =>
    intro i
    show w'.services.entries i = _
    by_cases hi : c.entryLock i = some p ∨ c'.entryLock i = some p
    · rw [hown i hi]
      rcases hlock : c'.entryLock i with _ | q
      · rfl
      · by_cases hq : q = p
        · subst hq
          simp [hs.pc]
        · have hi' := (hs.entryLock i q hq).mp hlock
          rcases hi with hi | hi
          · exact absurd (Option.some.inj (hi'.symm.trans hi)) hq
          · exact absurd (Option.some.inj (hlock.symm.trans hi)) hq
    · obtain ⟨hi₁, hi₂⟩ := not_or.mp hi
      obtain ⟨hc, hw⟩ := hs.entries i hi₁
      rw [hc, hw, h.entries i]
      rcases hlock : c.entryLock i with _ | q
      · rcases hlock' : c'.entryLock i with _ | q
        · rfl
        · have hq : q ≠ p := fun hqp => hi₂ (hqp ▸ hlock')
          rw [(hs.entryLock i q hq).mp hlock'] at hlock
          simp at hlock
      · have hq : q ≠ p := fun hqp => hi₁ (hqp ▸ hlock)
        rw [(hs.entryLock i q hq).mpr hlock]
        simp [hs.pc, hq]
  case events => exact hevents
  case within =>
    intro q name i hi
    rw [hs.entryNum]
    by_cases hq : q = p
    · subst hq
      exact hwithin name i hi
    · rw [(hs.index q hq).1] at hi
      exact h.within q name i hi
  case phase =>
    intro q
    by_cases hq : q = p
    · subst hq
      simp [hs.pc]
    · simp [hs.pc, hq, h.phase q]
  case here =>
    intro q
    by_cases hq : q = p
    · subst hq
      simpa [hs.pc] using hlocal
    · simpa [hs.pc, hq] using (h.here q).frame h.loaded hs hq

/-- What the step shows is accepted, and the memory it leaves still stands for the world. -/
def Follows (config : Pid → List ServiceDef) (m : Monitor World Pid Request Answer)
    (r : Shared × Seen) : Prop :=
  ∃ m', Accepts (serve config) m r.2 m' ∧ Stands config r.1 m'

theorem follows_silent {config : Pid → List ServiceDef} {m : Monitor World Pid Request Answer}
    {c : Shared} (h : Stands config c m) : Follows config m (c, []) :=
  ⟨m, .nil, h⟩

theorem follows_event {config : Pid → List ServiceDef} {m : Monitor World Pid Request Answer}
    {c : Shared} {e : Event Pid Request Answer} {w : World} {ph : Phase Request Answer}
    (hserved : Served (serve config) m.state e w) (hnext : (m.phase e.thread).Next e ph)
    (h : Stands config c ⟨w, Function.update m.phase e.thread ph⟩) : Follows config m (c, [e]) :=
  ⟨_, Accepts.nil.concat hserved hnext, h⟩

section Moves

variable {config : Pid → List ServiceDef} {c : Shared} {m : Monitor World Pid Request Answer}
  {p : Pid} {pc old : Pc}

/-- How the next place in a call has to fit to the last one, when no lock is touched. -/
structure SamePlace (pc pc' : Pc) : Prop where
  entry : pc'.inEntry = pc.inEntry
  table : pc'.inTable = pc.inTable
  filled : ∀ e, pc'.filled e = pc.filled e

theorem Stands.localAt (h : Stands config c m) (hpc : c.pc p = pc) : Local config c m.state p pc :=
  hpc ▸ h.here p

theorem Stands.reindex (h : Stands config c m) (hpc : c.pc p = old) (pc : Pc) (ix ix' : NameIndex)
    (hsame : SamePlace old pc)
    (hwithin : ∀ name i, ix name = some i → i < c.services.entryNum)
    (hlooked : ∀ q i, pc.looked = some (q, i) → i < c.services.entryNum ∧
      findServiceForClient (config p) q.name.bytes q.client.bytes
        ⟨m.state.services, m.state.events, ix'⟩ =
        (⟨m.state.services, m.state.events, ix⟩, some i))
    (hindex : pc.looked = none → ix = ix') (hknows : pc.Knows c.services c.events) :
    Stands config (Shared.goto { c with index := Function.update c.index p ix } p pc)
      ⟨⟨m.state.services, m.state.events, Function.update m.state.index p ix'⟩,
        Function.update m.phase p pc.phase⟩ := by
  subst hpc
  have hp := h.here p
  refine h.step ⟨rfl, fun _ _ _ => Iff.rfl, fun _ _ => Iff.rfl, rfl, fun _ _ => ⟨rfl, rfl⟩,
    List.prefix_refl _, fun _ _ _ => rfl, fun q hq => by simp [hq], rfl, rfl⟩ ?_ (fun i hi => ?_)
    h.events (by simpa using hwithin)
  · refine ⟨fun i => ?_, ?_, fun i hi => ?_, fun q i hl => ?_, fun hl => ?_, hknows⟩
    · rw [hsame.entry]
      exact hp.entry i
    · rw [hsame.table]
      exact hp.table
    · exact hp.inside i (hsame.entry ▸ hi)
    · simpa [World.tables] using hlooked q i hl
    · simpa using hindex hl
  · have hlock : c.entryLock i = some p := hi.elim id id
    have hent := h.entries i
    rw [hlock] at hent
    simpa [hlock, hsame.filled] using hent

theorem Stands.place (h : Stands config c m) (hpc : c.pc p = old) (pc : Pc) (ix : NameIndex)
    (hsame : SamePlace old pc)
    (hlooked : ∀ q i, pc.looked = some (q, i) → i < c.services.entryNum ∧
      findServiceForClient (config p) q.name.bytes q.client.bytes
        ⟨m.state.services, m.state.events, ix⟩ =
        (⟨m.state.services, m.state.events, c.index p⟩, some i))
    (hindex : pc.looked = none → c.index p = ix) (hknows : pc.Knows c.services c.events) :
    Stands config (c.goto p pc)
      ⟨⟨m.state.services, m.state.events, Function.update m.state.index p ix⟩,
        Function.update m.phase p pc.phase⟩ := by
  subst hpc
  have hst := h.reindex rfl pc (c.index p) ix hsame (h.within p) hlooked hindex hknows
  rwa [Function.update_eq_self] at hst

theorem Stands.look (h : Stands config c m) (hpc : c.pc p = old) (hsame : SamePlace old pc)
    (hlooked : pc.looked = old.looked) (hphase : pc.phase = old.phase)
    (hknows : pc.Knows c.services c.events) : Follows config m (c.goto p pc, []) := by
  subst hpc
  have hp := h.here p
  have hst := h.place rfl pc (m.state.index p) hsame
    (fun q i hl => hp.looked q i (hlooked ▸ hl)) (fun hl => hp.index (hlooked ▸ hl)) hknows
  refine follows_silent ?_
  rw [Function.update_eq_self, hphase, ← h.phase p, Function.update_eq_self] at hst
  exact hst

theorem Stands.decide (h : Stands config c m) (hpc : c.pc p = old) {q : Request} {a : Answer}
    (hserve : serve config m.state p q =
      (⟨m.state.services, m.state.events, Function.update m.state.index p (c.index p)⟩, a))
    (hpending : old.phase = .pending q) (hdone : pc.phase = .done q a)
    (hsame : SamePlace old pc) (hlooked : pc.looked = none)
    (hknows : pc.Knows c.services c.events) : Follows config m (c.decide p pc q a) := by
  subst hpc
  have hst := h.place rfl pc (c.index p) hsame (by simp [hlooked]) (fun _ => rfl) hknows
  have hserved : Served (serve config) m.state (.commit p q (serve config m.state p q).2)
      (serve config m.state p q).1 := .commit m.state p q
  have hnext : (m.phase p).Next (.commit p q a) (.done q a) := by
    rw [h.phase p, hpending]
    exact .commit p q a
  rw [hserve] at hserved
  exact follows_event hserved hnext (hdone ▸ hst)

theorem Stands.entry (h : Stands config c m) (hpc : c.pc p = old) {i : ℕ} (hi : old.inEntry = some i)
    (hfilled : ∀ e, old.filled e = e) : m.state.services.entries i = c.services.entries i := by
  subst hpc
  rw [h.entries i, ((h.here p).entry i).mpr hi]
  exact hfilled _

theorem Stands.channels (h : Stands config c m) : c.events.channels = m.state.events.channels := by
  rw [Table.channels, Table.channels, h.events]

theorem Stands.eventNum (h : Stands config c m) : c.events.entryNum = m.state.events.entryNum := by
  rw [← length_channels, h.channels, length_channels]

theorem Pc.filled_names (pc : Pc) (e : ServiceEntry) :
    (pc.filled e).enabled = e.enabled ∧ (pc.filled e).serviceName = e.serviceName := by
  cases pc with
  | unlockAppend o ch id => cases o <;> cases id <;> exact ⟨rfl, rfl⟩
  | _ => exact ⟨rfl, rfl⟩

theorem Stands.names (h : Stands config c m) :
    rebuildServiceNameIndexes c.services = rebuildServiceNameIndexes m.state.services := by
  have hentry : ∀ i, (m.state.services.entries i).enabled = (c.services.entries i).enabled ∧
      (m.state.services.entries i).serviceName = (c.services.entries i).serviceName := by
    intro i
    rw [h.entries i]
    cases c.entryLock i with
    | none => exact ⟨rfl, rfl⟩
    | some r => exact (c.pc r).filled_names _
  funext name
  simp only [rebuildServiceNameIndexes, h.entryNum, (hentry _).1, (hentry _).2]

theorem serve_client {config : Pid → List ServiceDef} {w : World} {p : Pid} {q : ClientCall}
    {ix : NameIndex} {i : ℕ}
    (h : findServiceForClient (config p) q.name.bytes q.client.bytes (w.tables p) =
      (⟨w.services, w.events, ix⟩, some i)) :
    serve config w p (.createServiceClient q) =
      (w.put p (createClientSlot p (q.real q.name.bytes) q.client.bytes i
          ⟨w.services, w.events, ix⟩).1,
        .ids (createClientSlot p (q.real q.name.bytes) q.client.bytes i
          ⟨w.services, w.events, ix⟩).2) := by
  simp [serve, worldStep, answer, Call.run, Call.pid, Service.createServiceClient, h]

theorem Stands.fail (h : Stands config c m) (hpc : c.pc p = old) {q : ClientCall} {i : ℕ} {ids : ClientIds}
    (hlooked : old.looked = some (q, i))
    (hslot : createClientSlot p (q.real q.name.bytes) q.client.bytes i
        ⟨m.state.services, m.state.events, c.index p⟩ =
      (⟨m.state.services, m.state.events, c.index p⟩, ids))
    (hpending : old.phase = .pending (.createServiceClient q))
    (hdone : pc.phase = .done (.createServiceClient q) (.ids ids))
    (hsame : SamePlace old pc) (hout : pc.looked = none)
    (hknows : pc.Knows c.services c.events) :
    Follows config m (c.decide p pc (.createServiceClient q) (.ids ids)) := by
  subst hpc
  refine h.decide rfl ?_ hpending hdone hsame hout hknows
  rw [serve_client ((h.here p).looked q i hlooked).2, hslot]
  rfl

theorem createClientSlot_notUpdated {pid : Pid} {real : ℕ → Option ChannelId} {client : Name}
    {i k : ℕ} {s : Tables} (hk : (s.services.entries i).findClient client = some k)
    (hev : ∀ ch ∈ real ((s.services.entries i).clientChannelMap k).responseChannelId,
      s.events.channels.findIdx? (· == some ch) = none) :
    createClientSlot pid real client i s = (s, ⟨none, some k⟩) := by
  simp only [createClientSlot, hk]
  rw [updateDataRecvEvent_none pid none hev]
  rfl

theorem createClientSlot_noRoom {pid : Pid} {real : ℕ → Option ChannelId} {client : Name} {i : ℕ}
    {s : Tables} (hk : (s.services.entries i).findClient client = none)
    (hroom : (s.services.entries i).maxClients ≤ (s.services.entries i).nextClientId ∨
      real ((s.services.entries i).clientChannelMap
        (s.services.entries i).nextClientId).responseChannelId = none) :
    createClientSlot pid real client i s = (s, ⟨none, none⟩) := by
  simp only [createClientSlot, hk]
  split
  · rfl
  · next hlt =>
    rw [hroom.resolve_left hlt]
    rfl

theorem findClient_of_scan {client : Name} {e : ServiceEntry} {k : ℕ} (hk : k < e.nextClientId)
    (hbefore : ∀ l < k, ¬ (e.clientChannelMap l).enabled ∨ (e.clientChannelMap l).name ≠ client)
    (hhere : ((e.clientChannelMap k).enabled && (e.clientChannelMap k).name == client) = true) :
    e.findClient client = some k := by
  refine List.find?_range_eq_some.mpr ⟨hhere, by simpa using hk, fun l hl => ?_⟩
  have := hbefore l hl
  simpa [or_iff_not_imp_left] using this

theorem findClient_of_end {client : Name} {e : ServiceEntry} {k : ℕ} (hk : e.nextClientId ≤ k)
    (hbefore : ∀ l < k, ¬ (e.clientChannelMap l).enabled ∨ (e.clientChannelMap l).name ≠ client) :
    e.findClient client = none := by
  refine List.find?_eq_none.mpr fun l hl => ?_
  have := hbefore l (by have := List.mem_range.mp hl; omega)
  simpa [or_iff_not_imp_left] using this

theorem next_findExisting (h : Stands config c m) {q : ClientCall} {i k : ℕ}
    (hpc : c.pc p = .findExisting q i k) : Follows config m (c.next config p) := by
  have hp := h.localAt hpc
  obtain ⟨hle, hbefore⟩ : k ≤ (c.services.entries i).nextClientId ∧ _ := hp.knows
  have hent : m.state.services.entries i = c.services.entries i :=
    h.entry hpc rfl (fun _ => rfl)
  simp only [Shared.next, hpc]
  split
  · next hend =>
    exact h.look hpc ⟨rfl, rfl, fun _ => rfl⟩ rfl rfl (findClient_of_end hend hbefore)
  · next hend =>
    split
    · next hhere =>
      have hfound := findClient_of_scan (by omega) hbefore hhere
      split
      · next hreal =>
        refine h.fail hpc (i := i) rfl (createClientSlot_notUpdated ?_ ?_)
          rfl rfl ⟨rfl, rfl, fun _ => rfl⟩ rfl trivial
        · rwa [← hent] at hfound
        · simp [hent, hreal]
      · next ch hreal =>
        exact h.look hpc ⟨rfl, rfl, fun _ => rfl⟩ rfl rfl ⟨hfound, hreal, Nat.zero_le _, by simp⟩
    · next hhere =>
      refine h.look hpc ⟨rfl, rfl, fun _ => rfl⟩ rfl rfl ⟨by omega, fun l hl => ?_⟩
      by_cases hlk : l = k
      · subst hlk
        simpa [or_iff_not_imp_left] using hhere
      · exact hbefore l (by omega)

theorem next_findEvent (h : Stands config c m) {q : ClientCall} {i k : ℕ} {ch : ChannelId} {j : ℕ}
    (hpc : c.pc p = .findEvent q i k ch j) : Follows config m (c.next config p) := by
  have hp := h.localAt hpc
  obtain ⟨hfound, hreal, hj, hno⟩ : (c.services.entries i).findClient q.client.bytes = some k ∧
    q.real q.name.bytes ((c.services.entries i).clientChannelMap k).responseChannelId = some ch ∧
    j ≤ c.events.channels.length ∧ some ch ∉ c.events.channels.take j := hp.knows
  have hent : m.state.services.entries i = c.services.entries i :=
    h.entry hpc rfl (fun _ => rfl)
  simp only [Shared.next, hpc]
  split
  · next hend =>
    -- No event of the channel up to `entry_num`: this is the test that fails.
    refine h.fail hpc (i := i) rfl (createClientSlot_notUpdated ?_ ?_)
      rfl rfl ⟨rfl, rfl, fun _ => rfl⟩ rfl trivial
    · rwa [hent]
    · have hlen : c.events.channels.length ≤ j := by
        rw [length_channels]
        exact List.getElem?_eq_none_iff.mp hend
      rw [List.take_of_length_le hlen, h.channels] at hno
      rw [hent, hreal]
      rintro _ ⟨⟩
      refine List.findIdx?_eq_none_iff.mpr fun x hx => ?_
      exact beq_eq_false_iff_ne.mpr fun hxe => hno (hxe ▸ hx)
  · next e he =>
    have hhere : c.events.channels[j]? = some e.toRegistration.watched := by
      rw [channels_getElem?, he]
      rfl
    obtain ⟨hlt, hget⟩ := List.getElem?_eq_some_iff.mp hhere
    split
    · next hwatch =>
      refine h.look hpc ⟨rfl, rfl, fun _ => rfl⟩ rfl rfl ⟨hfound, hreal, ?_⟩
      rw [List.findIdx?_eq_some_iff_getElem]
      refine ⟨hlt, by rwa [hget, ← watches_eq], fun l hl hl' => hno ?_⟩
      rw [List.mem_take_iff_getElem]
      exact ⟨l, by omega, by simpa using hl'⟩
    · next hwatch =>
      refine h.look hpc ⟨rfl, rfl, fun _ => rfl⟩ rfl rfl ⟨hfound, hreal, hlt, ?_⟩
      rw [List.take_add_one, hhere, List.mem_append, not_or]
      refine ⟨hno, fun hmem => hwatch ?_⟩
      rw [watches_eq, ← List.mem_singleton.mp hmem]
      exact beq_self_eq_true _

theorem next_checkRoom (h : Stands config c m) {q : ClientCall} {i : ℕ}
    (hpc : c.pc p = .checkRoom q i) : Follows config m (c.next config p) := by
  have hp := h.localAt hpc
  have hnone : (c.services.entries i).findClient q.client.bytes = none := hp.knows
  have hent : m.state.services.entries i = c.services.entries i :=
    h.entry hpc rfl (fun _ => rfl)
  have hfull : (c.services.entries i).maxClients ≤ (c.services.entries i).nextClientId ∨
      q.real q.name.bytes ((c.services.entries i).clientChannelMap
        (c.services.entries i).nextClientId).responseChannelId = none →
      Follows config m (c.noRoom p q i) := by
    intro hroom
    refine h.fail hpc (i := i) rfl (createClientSlot_noRoom ?_ ?_)
      rfl rfl ⟨rfl, rfl, fun _ => rfl⟩ rfl trivial
    · rwa [hent]
    · rwa [hent]
  simp only [Shared.next, hpc]
  split
  · next hmax => exact hfull (Or.inl hmax)
  · next hmax =>
    split
    · next hreal => exact hfull (Or.inr hreal)
    · next ch hreal =>
      exact h.look hpc ⟨rfl, rfl, fun _ => rfl⟩ rfl rfl ⟨hnone, rfl, by omega, hreal⟩

theorem Stands.locked (h : Stands config c m) (hpc : c.pc p = old) {entryLock : ℕ → Option Pid}
    {tableLock : Option Pid}
    (hother : ∀ i, ∀ q ≠ p, entryLock i = some q ↔ c.entryLock i = some q)
    (hothers : ∀ q ≠ p, tableLock = some q ↔ c.tableLock = some q)
    (hentry : ∀ i, entryLock i = some p ↔ pc.inEntry = some i)
    (htable : tableLock = some p ↔ pc.inTable = true)
    (hinside : ∀ i, pc.inEntry = some i → i < c.services.entryNum)
    (hfilled : ∀ i, c.entryLock i = some p ∨ entryLock i = some p →
      m.state.services.entries i = (entryLock i).elim (c.services.entries i)
        fun _ => pc.filled (c.services.entries i))
    (hlooked : pc.looked = old.looked) (hphase : pc.phase = old.phase)
    (hknows : pc.Knows c.services c.events) :
    Follows config m (Shared.goto { c with entryLock := entryLock, tableLock := tableLock } p pc,
      []) := by
  subst hpc
  have hp := h.here p
  have hstep : StepOf p c (Shared.goto { c with entryLock := entryLock, tableLock := tableLock } p
      pc) m.state m.state pc :=
    ⟨rfl, hother, hothers, rfl, fun _ _ => ⟨rfl, rfl⟩, List.prefix_refl _, fun _ _ _ => rfl,
      fun _ _ => ⟨rfl, rfl⟩, rfl, rfl⟩
  have hst := h.step hstep ⟨hentry, htable, hinside, fun q i hl => hp.looked q i (hlooked ▸ hl),
    fun hl => hp.index (hlooked ▸ hl), hknows⟩ hfilled h.events (h.within p)
  rw [hphase, ← h.phase p, Function.update_eq_self] at hst
  exact follows_silent hst

theorem next_lockServiceEntry (h : Stands config c m) {q : ClientCall} {i : ℕ}
    (hpc : c.pc p = .lockServiceEntry q i) : Follows config m (c.next config p) := by
  have hp := h.localAt hpc
  have hi := (hp.looked q i rfl).1
  simp only [Shared.next, hpc]
  rw [if_neg (by omega)]
  cases hlock : c.entryLock i with
  | some r => exact follows_silent h
  | none =>
    have hnot : ∀ l, c.entryLock l ≠ some p := fun l hl => by
      have := (hp.entry l).mp hl
      simp [Pc.inEntry] at this
    refine h.locked hpc (fun l r hr => ?_) (fun _ _ => Iff.rfl) (fun l => ?_) hp.table
      (fun l hl => ?_) (fun l hl => ?_) rfl rfl
      ⟨Nat.zero_le _, by simp⟩
    · by_cases hli : l = i
      · subst hli
        simp [hlock, Ne.symm hr]
      · simp [hli]
    · by_cases hli : l = i
      · subst hli
        simp [Pc.inEntry]
      · simp [hli, hnot l, Pc.inEntry, Ne.symm hli]
    · obtain rfl : i = l := Option.some.inj hl
      exact hi
    · by_cases hli : l = i
      · subst hli
        simpa [hlock, Pc.filled] using h.entries l
      · simp [hnot l, hli] at hl

theorem next_unlockServiceEntry (h : Stands config c m) {q : ClientCall} {i : ℕ} {ids : ClientIds}
    (hpc : c.pc p = .unlockServiceEntry q i ids) : Follows config m (c.next config p) := by
  have hp := h.localAt hpc
  have hi := hp.inside i rfl
  have hmine := (hp.entry i).mpr rfl
  have hother : ∀ l, l ≠ i → c.entryLock l ≠ some p := fun l hl hlock =>
    hl (Option.some.inj ((hp.entry l).mp hlock)).symm
  simp only [Shared.next, hpc]
  rw [if_neg (by omega)]
  refine h.locked hpc (fun l r hr => ?_) (fun _ _ => Iff.rfl) (fun l => ?_) hp.table
    (fun l hl => by simp [Pc.inEntry] at hl) (fun l hl => ?_) rfl
    rfl trivial
  · by_cases hli : l = i
    · subst hli
      simp [hmine, Ne.symm hr]
    · simp [hli]
  · by_cases hli : l = i
    · subst hli
      simp [Pc.inEntry]
    · simp [hli, hother l hli, Pc.inEntry]
  · by_cases hli : l = i
    · subst hli
      have hent := h.entries l
      rw [hmine] at hent
      simpa [hpc, Pc.filled] using hent
    · simp [hother l hli, hli] at hl

theorem lockTable_follows (h : Stands config c m) (hpc : c.pc p = old) (hafter : pc.inTable = true)
    (hentry : pc.inEntry = old.inEntry) (hfilled : ∀ e, pc.filled e = old.filled e)
    (hlooked : pc.looked = old.looked) (hphase : pc.phase = old.phase)
    (hknows : pc.Knows c.services c.events) :
    Follows config m (c.lockRecvEventTable p pc) := by
  subst hpc
  have hp := h.here p
  unfold Shared.lockRecvEventTable
  cases hlock : c.tableLock with
  | some r => exact follows_silent h
  | none =>
    refine h.locked rfl (fun _ _ _ => Iff.rfl) (fun r hr => ?_) (fun l => ?_) (by simp [hafter])
      (fun l hl => hp.inside l (hentry ▸ hl)) (fun l hl => ?_) hlooked hphase hknows
    · simp [hlock, Ne.symm hr]
    · rw [hentry]
      exact hp.entry l
    · have hmine : c.entryLock l = some p := hl.elim id id
      have hent := h.entries l
      rw [hmine] at hent
      simpa [hmine, hfilled] using hent

theorem unlockTable_follows (h : Stands config c m) (hpc : c.pc p = old) (hbefore : old.inTable = true)
    (hafter : pc.inTable = false) (hentry : pc.inEntry = old.inEntry)
    (hfilled : ∀ e, pc.filled e = old.filled e) (hlooked : pc.looked = old.looked)
    (hphase : pc.phase = old.phase) (hknows : pc.Knows c.services c.events) :
    Follows config m (c.unlockRecvEventTable p pc) := by
  subst hpc
  have hp := h.here p
  have hmine := hp.table.mpr hbefore
  refine h.locked rfl (fun _ _ _ => Iff.rfl) (fun r hr => ?_) (fun l => ?_) (by simp [hafter])
    (fun l hl => hp.inside l (hentry ▸ hl)) (fun l hl => ?_) hlooked hphase hknows
  · simp [hmine, Ne.symm hr]
  · rw [hentry]
    exact hp.entry l
  · have hown : c.entryLock l = some p := hl.elim id id
    have hent := h.entries l
    rw [hown] at hent
    simpa [hown, hfilled] using hent

theorem Stands.commit (h : Stands config c m) (hpc : c.pc p = old) (pc : Pc) {c' : Shared} {q : Request}
    {w' : World} {a : Answer}
    (hserve : serve config m.state p q = (w', a)) (hpending : old.phase = .pending q)
    (hdone : pc.phase = .done q a)
    (hst : Stands config c' ⟨w', Function.update m.phase p pc.phase⟩) :
    Follows config m (c', [.commit p q a]) := by
  subst hpc
  have hserved : Served (serve config) m.state (.commit p q (serve config m.state p q).2)
      (serve config m.state p q).1 := .commit m.state p q
  have hnext : (m.phase p).Next (.commit p q a) (.done q a) := by
    rw [h.phase p, hpending]
    exact .commit p q a
  rw [hserve] at hserved
  exact follows_event hserved hnext (hdone ▸ hst)

theorem next_updateEvent (h : Stands config c m) {q : ClientCall} {i k : ℕ} {ch : ChannelId}
    {j : ℕ} (hpc : c.pc p = .updateEvent q i k ch j) : Follows config m (c.next config p) := by
  have hp := h.localAt hpc
  obtain ⟨hfound, hreal, hj⟩ : (c.services.entries i).findClient q.client.bytes = some k ∧
    q.real q.name.bytes ((c.services.entries i).clientChannelMap k).responseChannelId = some ch ∧
    c.events.channels.findIdx? (· == some ch) = some j := hp.knows
  have hent : m.state.services.entries i = c.services.entries i :=
    h.entry hpc rfl (fun _ => rfl)
  obtain ⟨hreg, hid⟩ := updateDataRecvEvent_registrations p none (h.channels ▸ hj)
  have hslot : createClientSlot p (q.real q.name.bytes) q.client.bytes i
      ⟨m.state.services, m.state.events, c.index p⟩ =
      (⟨m.state.services, (updateDataRecvEvent p (some ch) none m.state.events).1, c.index p⟩,
        ⟨some i, some k⟩) := by
    simp [createClientSlot, hent, hfound, hreal, hid]
  have hserve := serve_client (hp.looked q i rfl).2
  rw [hslot] at hserve
  simp only [Shared.next, hpc]
  refine h.commit hpc (.unlockUpdate q i k) hserve rfl rfl ?_
  refine h.step ⟨rfl, fun _ _ _ => Iff.rfl, fun _ _ => Iff.rfl, rfl, fun _ _ => ⟨rfl, rfl⟩, ?_,
    fun _ _ _ => ?_, fun r hr => ⟨rfl, ?_⟩, rfl, rfl⟩
    ⟨hp.entry, hp.table, hp.inside, fun _ _ hl => by simp [Pc.looked] at hl, fun _ => ?_, trivial⟩
    (fun l hl => ?_) ?_ (h.within p)
  · exact (channels_modify c.events p none j).symm ▸ List.prefix_refl _
  · simp [Table.entryNum]
  · simp [World.put, hr]
  · simp [World.put]
  · have hmine : c.entryLock l = some p := hl.elim id id
    have hl' := h.entries l
    rw [hmine] at hl'
    simpa [hmine, hpc, Pc.filled, World.put] using hl'
  · show (Table.mk (c.events.entries.modify j (Entry.takeOver p none))).registrations = _
    rw [registrations_modify, h.events]
    exact hreg.symm

theorem rebuild_update {t : ServiceTable} {i : ℕ} {e : ServiceEntry}
    (henabled : e.enabled = (t.entries i).enabled)
    (hname : e.serviceName = (t.entries i).serviceName) :
    rebuildServiceNameIndexes { t with entries := Function.update t.entries i e } =
      rebuildServiceNameIndexes t := by
  funext name
  unfold rebuildServiceNameIndexes
  congr 1
  funext l
  by_cases hl : l = i
  · subst hl
    simp [henabled, hname]
  · simp [hl]

theorem registerDataRecvEvent_room {pid : Pid} {ch : ChannelId} {onRecv : Option Callback}
    {t : RecvEvent.Table} (h : t.entryNum < recvEventMax) :
    registerDataRecvEvent pid (some ch) onRecv t =
      (⟨t.entries ++ [newEntry pid ch onRecv]⟩, some t.entryNum) := by
  simp [registerDataRecvEvent, Nat.not_le.mpr h]

theorem registerDataRecvEvent_full {pid : Pid} {real : Option ChannelId} {onRecv : Option Callback}
    {t : RecvEvent.Table} (h : recvEventMax ≤ t.entryNum) :
    registerDataRecvEvent pid real onRecv t = (t, none) := by
  cases real with
  | none => rfl
  | some c => simp [registerDataRecvEvent, h]

theorem createClientSlot_room {pid : Pid} {real : ℕ → Option ChannelId} {client : Name} {i : ℕ}
    {c : ChannelId} {s : Tables} (hk : (s.services.entries i).findClient client = none)
    (hroom : (s.services.entries i).nextClientId < (s.services.entries i).maxClients)
    (hreal : real ((s.services.entries i).clientChannelMap
      (s.services.entries i).nextClientId).responseChannelId = some c)
    (hev : s.events.entryNum < recvEventMax) :
    createClientSlot pid real client i s =
      ({ s with
          services := { s.services with
            entries := Function.update s.services.entries i
              ((s.services.entries i).addClient client s.events.entryNum) }
          events := ⟨s.events.entries ++ [newEntry pid c none]⟩ },
        ⟨some i, some (s.services.entries i).nextClientId⟩) := by
  simp only [createClientSlot, hk, if_neg (Nat.not_le.mpr hroom), hreal,
    registerDataRecvEvent_room hev]

theorem createClientSlot_full {pid : Pid} {real : ℕ → Option ChannelId} {client : Name} {i : ℕ}
    {s : Tables} (hk : (s.services.entries i).findClient client = none)
    (hev : recvEventMax ≤ s.events.entryNum) :
    createClientSlot pid real client i s = (s, ⟨none, none⟩) := by
  simp only [createClientSlot, hk, registerDataRecvEvent_full hev]
  split <;> rfl

theorem Stands.full (h : Stands config c m) (hpc : c.pc p = old) {o : Caller} {ch : ChannelId}
    (hlooked : old.looked = o.looked) (hentry : old.inEntry = o.entry)
    (hfilled : ∀ e, old.filled e = e) (hknows : o.Knows c.services ch)
    (hfull : recvEventMax ≤ c.events.entryNum) :
    serve config m.state p (o.request ch) =
      (⟨m.state.services, m.state.events, Function.update m.state.index p (c.index p)⟩,
        o.answer none) := by
  subst hpc
  have hp := h.here p
  rw [h.eventNum] at hfull
  cases o with
  | client q i k =>
    have hent := h.entry rfl hentry hfilled
    refine (serve_client (hp.looked q i hlooked).2).trans ?_
    rw [createClientSlot_full (by rw [hent]; exact hknows.1) hfull]
    rfl
  | asset onRecv =>
    simp only [Caller.request, serve, registerDataRecvEvent_full hfull, hp.index hlooked,
      Function.update_eq_self]
    rfl

theorem next_checkFull (h : Stands config c m) {o : Caller} {ch : ChannelId}
    (hpc : c.pc p = .checkFull o ch) : Follows config m (c.next config p) := by
  have hp := h.localAt hpc
  simp only [Shared.next, hpc]
  split
  · next hfull =>
    have hserve := h.full hpc (o := o) rfl rfl (fun _ => rfl) hp.knows hfull
    cases o with
    | client q i k =>
      exact h.decide hpc hserve rfl rfl ⟨rfl, rfl, fun _ => rfl⟩ rfl trivial
    | asset onRecv =>
      exact h.decide hpc hserve rfl rfl ⟨rfl, rfl, fun _ => rfl⟩ rfl trivial
  · exact h.look hpc ⟨rfl, rfl, fun _ => rfl⟩ rfl rfl hp.knows

theorem next_recheckFull (h : Stands config c m) {o : Caller} {ch : ChannelId}
    (hpc : c.pc p = .recheckFull o ch) : Follows config m (c.next config p) := by
  have hp := h.localAt hpc
  simp only [Shared.next, hpc]
  split
  · next hfull =>
    have hserve := h.full hpc (o := o) rfl rfl (fun _ => rfl) hp.knows hfull
    exact h.decide hpc hserve rfl rfl ⟨rfl, rfl, fun _ => by cases o <;> rfl⟩ rfl (by simp [Pc.Knows])
  · next hroom =>
    exact h.look hpc ⟨rfl, rfl, fun _ => rfl⟩ rfl rfl ⟨hp.knows, by omega⟩

theorem Stands.room (h : Stands config c m) (hpc : c.pc p = old) {o : Caller} {ch : ChannelId}
    (hlooked : old.looked = o.looked) (hentry : old.inEntry = o.entry)
    (hfilled : ∀ e, old.filled e = e) (hknows : o.Knows c.services ch)
    (hroom : c.events.entryNum < recvEventMax) :
    ∃ services, serve config m.state p (o.request ch) =
        (⟨services, ⟨m.state.events.entries ++ [newEntry p ch o.onRecv]⟩,
          Function.update m.state.index p (c.index p)⟩, o.answer (some c.events.entryNum)) ∧
      services.entryNum = m.state.services.entryNum ∧
      rebuildServiceNameIndexes services = rebuildServiceNameIndexes m.state.services ∧
      ∀ i, services.entries i = if o.entry = some i
        then o.filled (some c.events.entryNum) (m.state.services.entries i)
        else m.state.services.entries i := by
  subst hpc
  have hp := h.here p
  have hnum := h.eventNum
  cases o with
  | client q i k =>
    obtain ⟨hnone, rfl, hlt, hreal⟩ := hknows
    have hent := h.entry rfl hentry hfilled
    refine ⟨{ m.state.services with
      entries := Function.update m.state.services.entries i
        ((m.state.services.entries i).addClient q.client.bytes m.state.events.entryNum) },
      ?_, rfl, rebuild_update rfl rfl, fun l => ?_⟩
    · refine (serve_client (hp.looked q i hlooked).2).trans ?_
      rw [createClientSlot_room (c := ch) (by rw [hent]; exact hnone) (by rw [hent]; exact hlt)
        (by rw [hent]; exact hreal) (hnum ▸ hroom)]
      simp [World.put, hent, Caller.onRecv, Caller.answer]
    · by_cases hl : l = i
      · subst hl
        simp [Caller.entry, Caller.filled, ServiceEntry.addClient, takeSlot, hnum, hent]
      · simp [Caller.entry, hl, Ne.symm hl]
  | asset onRecv =>
    refine ⟨m.state.services, ?_, rfl, rfl, fun i => by simp [Caller.entry]⟩
    simp [Caller.request, serve, registerDataRecvEvent_room (hnum ▸ hroom), Caller.onRecv,
      Caller.answer, hp.index hlooked, hnum]

theorem next_appendEvent (h : Stands config c m) {o : Caller} {ch : ChannelId}
    (hpc : c.pc p = .appendEvent o ch) : Follows config m (c.next config p) := by
  have hp := h.localAt hpc
  obtain ⟨hknows, hroom⟩ : o.Knows c.services ch ∧ c.events.entryNum < recvEventMax := hp.knows
  obtain ⟨services, hserve, hnum, hnames, hentries⟩ :=
    h.room hpc rfl rfl (fun _ => rfl) hknows hroom
  have hmine := hp.table.mpr rfl
  have hcount : o.HasRoom c.services := by
    cases o with
    | client q i k => exact hknows.2.1 ▸ hknows.2.2.1
    | asset => trivial
  simp only [Shared.next, hpc]
  refine h.commit hpc (.unlockAppend o ch (some c.events.entryNum)) hserve rfl rfl ?_
  refine h.step ⟨rfl, fun _ _ _ => Iff.rfl, fun _ _ => Iff.rfl, rfl, fun l hl => ⟨rfl, ?_⟩, ?_,
    fun r hr hlock => ?_, fun r hr => ⟨rfl, by simp [hr]⟩, hnum, hnames⟩
    ⟨hp.entry, hp.table, hp.inside, fun _ _ hl => by simp [Pc.looked] at hl, fun _ => by simp,
      fun _ => hcount⟩ (fun l hl => ?_) ?_ (h.within p)
  · -- An entry that the process has not locked is not the one it works on.
    have hnot : o.entry ≠ some l := fun he => hl ((hp.entry l).mpr he)
    rw [hentries l, if_neg hnot]
  · exact (channels_append c.events _).symm ▸ List.prefix_append _ _
  · exact absurd (Option.some.inj (hlock.symm.trans hmine)) hr
  · have hlock : c.entryLock l = some p := hl.elim id id
    have hl' := h.entries l
    rw [hlock] at hl'
    have hin : o.entry = some l := (hp.entry l).mp hlock
    rw [hentries l, if_pos hin, hl', Option.elim_some, hpc]
    simp [hlock, Pc.filled]
  · exact registrations_append h.events _

theorem Stands.store (h : Stands config c m) (hpc : c.pc p = old) {i : ℕ} {e : ServiceEntry}
    (hi : old.inEntry = some i) (hentry : pc.inEntry = some i)
    (htable : pc.inTable = old.inTable) (hlooked : pc.looked = none)
    (hold : old.looked = none) (hphase : pc.phase = old.phase)
    (hstored : pc.filled e = old.filled (c.services.entries i))
    (hknows : pc.Knows { c.services with entries := Function.update c.services.entries i e }
      c.events) :
    Follows config m (Shared.goto { c with
      services := { c.services with entries := Function.update c.services.entries i e } } p pc,
      []) := by
  subst hpc
  have hp := h.here p
  have hmine := (hp.entry i).mpr hi
  have hother : ∀ l, l ≠ i → c.entryLock l ≠ some p := fun l hl hlock =>
    hl (Option.some.inj (((hp.entry l).mp hlock).symm.trans hi))
  have hstep : StepOf p c (Shared.goto { c with
      services := { c.services with entries := Function.update c.services.entries i e } } p pc)
      m.state m.state pc := by
    refine ⟨rfl, fun _ _ _ => Iff.rfl, fun _ _ => Iff.rfl, rfl, fun l hl => ⟨?_, rfl⟩,
      List.prefix_refl _, fun _ _ _ => rfl, fun _ _ => ⟨rfl, rfl⟩, rfl, rfl⟩
    have hli : l ≠ i := fun hli => hl (hli ▸ hmine)
    simp [hli]
  have hst := h.step hstep ⟨fun l => ?_, ?_, fun l hl => ?_, by simp [hlooked],
    fun _ => hp.index hold, hknows⟩ (fun l hl => ?_) h.events (h.within p)
  · rw [hphase, ← h.phase p, Function.update_eq_self] at hst
    exact follows_silent hst
  · rw [hentry, ← hi]
    exact hp.entry l
  · rw [htable]
    exact hp.table
  · exact hp.inside l (hi.trans (hentry.symm.trans hl))
  · have hlock : c.entryLock l = some p := hl.elim id id
    obtain rfl : l = i := by
      by_contra hne
      exact hother l hne hlock
    have hl' := h.entries l
    rw [hlock, Option.elim_some, ← hstored] at hl'
    simpa [hlock] using hl'

theorem next_assignSlot (h : Stands config c m) {q : ClientCall} {i k id : ℕ}
    (hpc : c.pc p = .assignSlot q i k id) : Follows config m (c.next config p) := by
  have hp := h.localAt hpc
  have hroom : (c.services.entries i).nextClientId < (c.services.entries i).maxClients := hp.knows
  simp only [Shared.next, hpc]
  exact h.store hpc rfl rfl rfl rfl rfl rfl rfl (by simpa [Pc.Knows] using hroom)

theorem next_countSlot (h : Stands config c m) {q : ClientCall} {i k : ℕ}
    (hpc : c.pc p = .countSlot q i k) : Follows config m (c.next config p) := by
  simp only [Shared.next, hpc]
  exact h.store hpc rfl rfl rfl rfl rfl rfl rfl trivial

theorem findServiceForClient_within {services : List ServiceDef} {name client : Name} {s u : Tables}
    {o : Option ℕ} (hload : s.services.entryNum ≠ 0)
    (hin : ∀ n i, s.index n = some i → i < s.services.entryNum)
    (h : findServiceForClient services name client s = (u, o)) :
    u.services = s.services ∧ u.events = s.events ∧
      (∀ n i, u.index n = some i → i < s.services.entryNum) ∧
      ∀ i, o = some i → i < s.services.entryNum := by
  simp only [findServiceForClient, if_neg hload] at h
  split at h
  · obtain ⟨rfl, rfl⟩ := Prod.mk.inj h
    exact ⟨rfl, rfl, hin, by simp⟩
  · obtain ⟨rfl, rfl⟩ := Prod.mk.inj h
    have hget : ∀ n i, (getServiceId name s.services s.index).1 n = some i →
        i < s.services.entryNum := by
      intro n i hi
      unfold getServiceId at hi
      split at hi
      · exact hin n i hi
      · exact (rebuild_fresh s.services n i hi).1
    refine ⟨rfl, rfl, hget, fun i hi => hget name i ?_⟩
    exact getServiceId_index (Prod.ext rfl hi)

theorem next_entered (h : Stands config c m) {q : Request} (hpc : c.pc p = .entered q) :
    Follows config m (c.next config p) := by
  have hp := h.localAt hpc
  have hix : c.index p = m.state.index p := hp.index rfl
  simp only [Shared.next, hpc]
  cases q with
  | registerDataRecvEvent real onRecv =>
    cases real with
    | none =>
      refine h.decide hpc ?_ rfl rfl ⟨rfl, rfl, fun _ => rfl⟩ rfl trivial
      rw [hix, Function.update_eq_self]
      rfl
    | some ch =>
      exact h.look hpc ⟨rfl, rfl, fun _ => rfl⟩ rfl rfl trivial
  | createServiceClient q =>
    have hload : c.services.entryNum ≠ 0 := h.entryNum ▸ h.loaded
    simp only [Shared.enter]
    rcases hfind : findServiceForClient (config p) q.name.bytes q.client.bytes
      ⟨c.services, c.events, c.index p⟩ with ⟨u, o⟩
    obtain ⟨hu₁, hu₂, hin, hid⟩ := findServiceForClient_within hload (h.within p) hfind
    have hworld : findServiceForClient (config p) q.name.bytes q.client.bytes
        (m.state.tables p) = (⟨m.state.services, m.state.events, u.index⟩, o) := by
      refine findServiceForClient_congr hload h.entryNum.symm h.names.symm hix.symm
        (hfind.trans ?_)
      rw [← hu₁, ← hu₂]
    cases o with
    | none =>
      have hserve : serve config m.state p (.createServiceClient q) =
          (⟨m.state.services, m.state.events, Function.update m.state.index p u.index⟩,
            .ids ⟨none, none⟩) := by
        simp [serve, worldStep, answer, Call.run, Call.pid, Service.createServiceClient, hworld,
          World.put]
      refine h.commit hpc (.leaving (.createServiceClient q) (.ids ⟨none, none⟩)) hserve rfl rfl ?_
      rw [hu₁]
      exact h.reindex hpc _ u.index u.index ⟨rfl, rfl, fun _ => rfl⟩ hin
        (by simp [Pc.looked]) (fun _ => rfl) trivial
    | some i =>
      refine follows_silent (m := m) ?_
      have hst := h.reindex hpc (.lockServiceEntry q i) u.index (m.state.index p)
        ⟨rfl, rfl, fun _ => rfl⟩ hin (fun r l hl => ?_) (by simp [Pc.looked]) trivial
      · have hphase : Pc.phase (.lockServiceEntry q i) = m.phase p := by
          rw [h.phase p, hpc]
          rfl
        rw [Function.update_eq_self, hphase, Function.update_eq_self] at hst
        rw [hu₁]
        exact hst
      · obtain ⟨rfl, rfl⟩ : q = r ∧ i = l := by simpa [Pc.looked] using hl
        exact ⟨hid i rfl, hworld⟩

theorem next_leaving (h : Stands config c m) {q : Request} {a : Answer}
    (hpc : c.pc p = .leaving q a) : Follows config m (c.next config p) := by
  have hp := h.localAt hpc
  simp only [Shared.next, hpc]
  have hst := h.place hpc .outside (m.state.index p) ⟨rfl, rfl, fun _ => rfl⟩
    (by simp [Pc.looked]) (fun _ => hp.index rfl) trivial
  have hnext : (m.phase p).Next (.ret p q a) .outside := by
    rw [h.phase p, hpc]
    exact .ret p q a
  rw [Function.update_eq_self] at hst
  exact follows_event (.ret m.state p q a) hnext hst

theorem invoke_follows (h : Stands config c m) (q : Request) (hpc : c.pc p = .outside) :
    Follows config m (c.goto p (.entered q), [.invoke p q]) := by
  have hp := h.localAt hpc
  have hst := h.place hpc (.entered q) (m.state.index p)
    ⟨rfl, rfl, fun _ => rfl⟩ (by simp [Pc.looked]) (fun _ => hp.index rfl)
    trivial
  have hnext : (m.phase p).Next (.invoke p q) (.pending q) := by
    rw [h.phase p, hpc]
    exact .invoke p q
  rw [Function.update_eq_self] at hst
  exact follows_event (.invoke m.state p q) hnext hst

theorem next_follows (h : Stands config c m) (p : Pid) : Follows config m (c.next config p) := by
  cases hpc : c.pc p with
  | outside =>
    simp only [Shared.next, hpc]
    exact follows_silent h
  | entered q => exact next_entered h hpc
  | lockServiceEntry q i => exact next_lockServiceEntry h hpc
  | findExisting q i k => exact next_findExisting h hpc
  | findEvent q i k ch j => exact next_findEvent h hpc
  | lockForUpdate q i k ch j =>
    have hknows := (h.localAt hpc).knows
    simp only [Shared.next, hpc]
    exact lockTable_follows h hpc rfl rfl (fun _ => rfl) rfl rfl hknows
  | updateEvent q i k ch j => exact next_updateEvent h hpc
  | unlockUpdate q i k =>
    simp only [Shared.next, hpc]
    exact unlockTable_follows h hpc rfl rfl rfl (fun _ => rfl) rfl rfl trivial
  | checkRoom q i => exact next_checkRoom h hpc
  | checkFull o ch => exact next_checkFull h hpc
  | lockForAppend o ch =>
    have hknows := (h.localAt hpc).knows
    simp only [Shared.next, hpc]
    exact lockTable_follows h hpc rfl rfl (fun _ => rfl) rfl rfl hknows
  | recheckFull o ch => exact next_recheckFull h hpc
  | appendEvent o ch => exact next_appendEvent h hpc
  | unlockAppend o ch id =>
    have hknows := (h.localAt hpc).knows
    have hafter : (o.next ch id).Knows c.services c.events := by
      cases o with
      | client q i k =>
        cases id with
        | none => trivial
        | some id => exact hknows rfl
      | asset => trivial
    simp only [Shared.next, hpc]
    cases o <;> cases id <;>
      exact unlockTable_follows h hpc rfl rfl rfl (fun _ => rfl) rfl rfl hafter
  | assignSlot q i k id => exact next_assignSlot h hpc
  | countSlot q i k => exact next_countSlot h hpc
  | unlockServiceEntry q i ids => exact next_unlockServiceEntry h hpc
  | leaving q a => exact next_leaving h hpc

theorem flags_follows (h : Stands config c m) (f : FlagOp) :
    Follows config m ({ c with events := f.op c.events }, []) := by
  have hchannels : (f.op c.events).channels = c.events.channels :=
    congrArg (List.map Registration.watched) (f.keeps c.events)
  have hnum : (f.op c.events).entryNum = c.events.entryNum := by
    rw [← length_channels, hchannels, length_channels]
  refine follows_silent ⟨h.loaded, h.entryNum, h.entries, (f.keeps _).trans h.events, h.within,
    h.phase, fun p => ?_⟩
  have hp := h.here p
  exact ⟨hp.entry, hp.table, hp.inside, hp.looked, hp.index,
    hp.knows.frame (fun _ _ => rfl) (hchannels ▸ List.prefix_refl _) fun _ => hnum⟩

/-- The action without the store into a slot. -/
def Action.erased : Action → Action
  | .response _ _ _ => .flags ⟨id, fun _ => rfl⟩
  | a => a

theorem act_follows (h : Stands config c m) (a : Action) :
    Follows config m (c.act config a.erased) := by
  cases a with
  | invoke p q =>
    simp only [Action.erased, Shared.act]
    split
    · next hpc => exact invoke_follows h q hpc
    · exact follows_silent h
  | step p => exact next_follows h p
  | flags f => exact flags_follows h f
  | response i k id => exact flags_follows h _

end Moves

def Shared.forget (c : Shared) : Shared := { c with services := c.services.forget }

def forgetStep (r : Shared × Seen) : Shared × Seen := (r.1.forget, r.2)

theorem enter_forget (config : Pid → List ServiceDef) (c : Shared) (p : Pid) (q : Request) :
    forgetStep (c.forget.enter config p q) = forgetStep (c.enter config p q) := by
  cases q with
  | registerDataRecvEvent real onRecv => cases real <;> rfl
  | createServiceClient q =>
    have hfind := findServiceForClient_forget (config p) q.name.bytes q.client.bytes
      ⟨c.services, c.events, c.index p⟩
    simp only [Shared.enter]
    rw [show (⟨c.forget.services, c.forget.events, c.forget.index p⟩ : Tables) =
      ⟨c.services.forget, c.events, c.index p⟩ from rfl, hfind]
    rcases findServiceForClient (config p) q.name.bytes q.client.bytes
      ⟨c.services, c.events, c.index p⟩ with ⟨u, o⟩
    cases o <;> rfl

theorem next_forget (config : Pid → List ServiceDef) (c : Shared) (p : Pid) :
    forgetStep (c.forget.next config p) = forgetStep (c.next config p) := by
  cases hpc : c.pc p with
  | entered q =>
    have hpc' : c.forget.pc p = .entered q := hpc
    simp only [Shared.next, hpc, hpc']
    exact enter_forget config c p q
  | findExisting q i k =>
    have hpc' : c.forget.pc p = .findExisting q i k := hpc
    simp only [Shared.next, hpc, hpc', apply_ite forgetStep]
    refine if_congr Iff.rfl rfl (if_congr Iff.rfl ?_ rfl)
    have hreal : ((c.forget.services.entries i).clientChannelMap k).responseChannelId =
      ((c.services.entries i).clientChannelMap k).responseChannelId := rfl
    rw [hreal]
    cases q.real q.name.bytes ((c.services.entries i).clientChannelMap k).responseChannelId <;> rfl
  | findEvent q i k ch j =>
    have hpc' : c.forget.pc p = .findEvent q i k ch j := hpc
    have hevents : c.forget.events = c.events := rfl
    simp only [Shared.next, hpc, hpc', hevents]
    cases c.events.entries[j]? with
    | none => rfl
    | some e =>
      simp only [apply_ite forgetStep]
      rfl
  | checkRoom q i =>
    have hpc' : c.forget.pc p = .checkRoom q i := hpc
    simp only [Shared.next, hpc, hpc', apply_ite forgetStep]
    refine if_congr Iff.rfl rfl ?_
    have hreal : ((c.forget.services.entries i).clientChannelMap
        (c.forget.services.entries i).nextClientId).responseChannelId =
      ((c.services.entries i).clientChannelMap
        (c.services.entries i).nextClientId).responseChannelId := rfl
    rw [hreal]
    cases q.real q.name.bytes ((c.services.entries i).clientChannelMap
      (c.services.entries i).nextClientId).responseChannelId <;> rfl
  | assignSlot q i k id =>
    have hpc' : c.forget.pc p = .assignSlot q i k id := hpc
    simp only [Shared.next, hpc, hpc']
    exact congrArg (fun t => (Shared.goto { c with services := t } p (.countSlot q i k), []))
      (assign_forget c.services i k id q.client.bytes)
  | countSlot q i k =>
    have hpc' : c.forget.pc p = .countSlot q i k := hpc
    simp only [Shared.next, hpc, hpc']
    exact congrArg (fun t => (Shared.goto { c with services := t } p
      (.unlockServiceEntry q i ⟨some i, some k⟩), [])) (count_forget c.services i)
  | _ =>
    have hpc' := hpc
    rw [show c.pc p = c.forget.pc p from rfl] at hpc'
    simp only [Shared.next, Shared.lockRecvEventTable, hpc, hpc', apply_ite forgetStep]
    rfl

theorem act_forget (config : Pid → List ServiceDef) (c : Shared) (a : Action) :
    forgetStep (c.forget.act config a.erased) = forgetStep (c.act config a) := by
  cases a with
  | invoke p q =>
    simp only [Action.erased, Shared.act, show c.forget.pc p = c.pc p from rfl]
    cases c.pc p <;> rfl
  | step p => exact next_forget config c p
  | flags f => rfl
  | response i k id =>
    exact congrArg (fun t => ({ c with services := t }, []))
      (responseRead_forget c.services i k id).symm

/-- No step reads what `get_response` stores. -/
theorem act_alike (config : Pid → List ServiceDef) {c d : Shared} (h : c.forget = d.forget)
    (a : Action) : forgetStep (c.act config a) = forgetStep (d.act config a.erased) := by
  have herased : a.erased.erased = a.erased := by cases a <;> rfl
  rw [← act_forget config c a, ← act_forget config d a.erased, herased, h]

/-- The memory stands for the world, but for what `get_response` has stored. -/
def StandsBut (config : Pid → List ServiceDef) (c : Shared) (m : Monitor World Pid Request Answer) :
    Prop :=
  ∃ d : Shared, c.forget = d.forget ∧ Stands config d m

theorem StandsBut.act {config : Pid → List ServiceDef} {c : Shared}
    {m : Monitor World Pid Request Answer} (h : StandsBut config c m) (a : Action) :
    ∃ m', Accepts (serve config) m (seen config c a) m' ∧ StandsBut config (move config c a) m' := by
  obtain ⟨d, hd, hst⟩ := h
  obtain ⟨m', hacc, hst'⟩ := act_follows hst a
  obtain ⟨hmemory, hseen⟩ := Prod.mk.inj (act_alike config hd a)
  exact ⟨m', (hseen ▸ hacc : Accepts (serve config) m (c.act config a).2 m'), _, hmemory, hst'⟩

/-- A world with a loaded table, in which the processes' indexes know only ids of that table. -/
structure Loaded (w : World) : Prop where
  loaded : w.services.entryNum ≠ 0
  within : ∀ p name i, w.index p name = some i → i < w.services.entryNum

theorem start_stands (config : Pid → List ServiceDef) {w : World} (hw : Loaded w) :
    Stands config (Shared.start w) ⟨w, fun _ => .outside⟩ := by
  refine ⟨hw.loaded, rfl, fun _ => rfl, rfl, hw.within, fun _ => rfl, fun p => ?_⟩
  exact ⟨by simp [Shared.start, Pc.inEntry], by simp [Shared.start, Pc.inTable],
    by simp [Shared.start, Pc.inEntry], by simp [Shared.start, Pc.looked], fun _ => rfl, trivial⟩

/-- What the processes have seen of their calls in a run. -/
def calledIn (config : Pid → List ServiceDef) (w : World) (as : List Action) : Seen :=
  history (move config) (seen config) (Shared.start w) as

theorem run_stands (config : Pid → List ServiceDef) {w : World} (hw : Loaded w)
    (as : List Action) :
    ∃ m, Accepts (serve config) ⟨w, fun _ => .outside⟩ (calledIn config w as) m ∧
      StandsBut config (run (move config) (Shared.start w) as) m :=
  accepts_run (R := StandsBut config) (fun _ _ a h => h.act a)
    ⟨_, rfl, start_stands config hw⟩ as

/-- The tables stand for the world, but for the entries in which a process is at work, and for the
field of each slot that its client's reads overwrite. -/
structure Agrees (c : Shared) (w : World) : Prop where
  entries : ∀ i, c.entryLock i = none → (c.services.entries i).forget = (w.services.entries i).forget
  events : c.events.registrations = w.events.registrations
  index : ∀ p, c.pc p = .outside → c.index p = w.index p

theorem StandsBut.agrees {config : Pid → List ServiceDef} {c : Shared}
    {m : Monitor World Pid Request Answer} (h : StandsBut config c m) : Agrees c m.state := by
  obtain ⟨d, hd, hst⟩ := h
  refine ⟨fun i hi => ?_, (congrArg (fun x => x.events.registrations) hd).trans hst.events,
    fun p hpc => ?_⟩
  · have hentry : (c.services.entries i).forget = (d.services.entries i).forget :=
      congrArg (fun x => x.services.entries i) hd
    have hlock : d.entryLock i = none := (congrArg (fun x => x.entryLock i) hd).symm.trans hi
    rw [hentry, hst.entries i, hlock]
    rfl
  · have hout : d.pc p = .outside := (congrArg (fun x => x.pc p) hd).symm.trans hpc
    exact (congrArg (fun x => x.index p) hd).trans ((hst.localAt hout).index rfl)

/-- In every interleaving the calls are as good as atomic, and the tables are what the atomic
calls make of them. -/
theorem clients_linearized (config : Pid → List ServiceDef) (w : World) (hw : Loaded w)
    (as : List Action) :
    ∃ w', Linearized (serve config) w (calledIn config w as) w' ∧
      Agrees (run (move config) (Shared.start w) as) w' := by
  obtain ⟨m, hacc, hst⟩ := run_stands config hw as
  exact ⟨m.state, hacc.linearized fun _ => rfl, hst.agrees⟩

def roomForTwo : ServiceConfig where
  services := [⟨[120], 2, 100, 100⟩]
  entries_fit := by simp [serviceMax]
  slots_fit := by simp [serviceClientMax]
  names_fit := by simp [serviceNamelenMax]

def loadedWorld : World where
  services := setServiceData roomForTwo.services World.start.services
  events := ⟨[]⟩
  index := fun _ _ => none

theorem loadedWorld_loaded : Loaded loadedWorld := ⟨by decide, by simp [loadedWorld]⟩

def clientOfX (letter : UInt8) (h : letter ≠ 0) : ClientCall :=
  ⟨fun _ c => some c, letterName 120 (by decide), letterName letter h⟩

/-- Two processes create the clients a and b, step against step; the second one waits for the
entry until the first has counted its slot, and the first polls once while the second goes on. -/
def race : List Action :=
  [.invoke 1 (.createServiceClient (clientOfX 97 (by decide))),
    .invoke 2 (.createServiceClient (clientOfX 98 (by decide)))] ++
  (List.replicate 13 [.step 1, .step 2]).flatten ++ .response 0 0 none ::
  List.replicate 11 (.step 2)

theorem race_linearized : ∃ w', Linearized (serve (listed fun _ => roomForTwo)) loadedWorld
      (calledIn (listed fun _ => roomForTwo) loadedWorld race) w' ∧
    Agrees (run (move (listed fun _ => roomForTwo)) (Shared.start loadedWorld) race) w' :=
  clients_linearized (listed fun _ => roomForTwo) loadedWorld loadedWorld_loaded race

end ConcurrentClients
end HakoniwaCorePro
