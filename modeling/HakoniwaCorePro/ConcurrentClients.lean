import HakoniwaCorePro.Linearization
import HakoniwaCorePro.ServiceRegistration

/-!
# Processes that create clients at the same time

`create_service_client` holds a spin lock of the service's entry, and takes a second one, of the
receive event table, for the few stores in which it enters or takes over an event. Here every
process runs its call step by step, in any order with the steps of the others, and next to calls of
`register_data_recv_event`, to traffic that sets and clears flags and to clients that look for
responses. A step is one test of the
shared memory, one lock operation, or stores that no other step looks at before a later one of the
same process: those of a new event before `entry_num++`, those of a new slot before `nextClientId++`,
and those that hand over an event, which are made under the table's lock.
-/

namespace HakoniwaCorePro
namespace ConcurrentClients

open RecvEvent Service Runs Linearization

/-- The arguments of `create_service_client`, with the channels the core knows. -/
structure ClientCall where
  real : Name → ℕ → Option ChannelId
  name : CName
  client : CName

inductive Request
  | createServiceClient (q : ClientCall)
  | registerDataRecvEvent (real : Option ChannelId) (onRecv : Option Callback)

inductive Answer
  | ids (ids : ClientIds)
  | event (recvEventId : Option ℕ)

/-- A call made at once. -/
def serve (config : Pid → List ServiceDef) (w : World) (p : Pid) : Request → World × Answer
  | .createServiceClient q =>
    (worldStep config w (.createServiceClient p q.real q.name q.client),
      .ids (answer config w (.createServiceClient p q.real q.name q.client)))
  | .registerDataRecvEvent real onRecv =>
    ({ w with events := (registerDataRecvEvent p real onRecv w.events).1 },
      .event (registerDataRecvEvent p real onRecv w.events).2)

/-- Who has called `register_data_recv_event`: a client that takes the slot `k`, or the asset. -/
inductive Caller
  | client (q : ClientCall) (i k : ℕ)
  | asset (onRecv : Option Callback)

/-- Where a process is in its call. -/
inductive Pc
  | outside
  | entered (q : Request)
  | lockServiceEntry (q : ClientCall) (i : ℕ)
  /-- The loop over the slots, at slot `k`. -/
  | findExisting (q : ClientCall) (i k : ℕ)
  /-- The loop of `update_data_recv_event` for slot `k`, at event `j`. -/
  | findEvent (q : ClientCall) (i k : ℕ) (c : ChannelId) (j : ℕ)
  | lockForUpdate (q : ClientCall) (i k : ℕ) (c : ChannelId) (j : ℕ)
  | updateEvent (q : ClientCall) (i k : ℕ) (c : ChannelId) (j : ℕ)
  | unlockUpdate (q : ClientCall) (i k : ℕ)
  /-- No slot has the name. -/
  | checkRoom (q : ClientCall) (i : ℕ)
  /-- The tests of `entry_num` before and after the table is locked. -/
  | checkFull (o : Caller) (c : ChannelId)
  | lockForAppend (o : Caller) (c : ChannelId)
  | recheckFull (o : Caller) (c : ChannelId)
  | appendEvent (o : Caller) (c : ChannelId)
  | unlockAppend (o : Caller) (c : ChannelId) (recvEventId : Option ℕ)
  | assignSlot (q : ClientCall) (i k recvEventId : ℕ)
  | countSlot (q : ClientCall) (i k : ℕ)
  | unlockServiceEntry (q : ClientCall) (i : ℕ) (ids : ClientIds)
  | leaving (q : Request) (a : Answer)

def Caller.request : Caller → ChannelId → Request
  | .client q _ _, _ => .createServiceClient q
  | .asset onRecv, c => .registerDataRecvEvent (some c) onRecv

def Caller.onRecv : Caller → Option Callback
  | .client _ _ _ => none
  | .asset onRecv => onRecv

def Caller.answer : Caller → Option ℕ → Answer
  | .client _ i k, some _ => .ids ⟨some i, some k⟩
  | .client _ _ _, none => .ids ⟨none, none⟩
  | .asset _, id => .event id

/-- Where the call goes on after `register_data_recv_event`. -/
def Caller.next : Caller → ChannelId → Option ℕ → Pc
  | .client q i k, _, some id => .assignSlot q i k id
  | .client q i _, _, none => .unlockServiceEntry q i ⟨none, none⟩
  | .asset onRecv, c, id => .leaving (.registerDataRecvEvent (some c) onRecv) (.event id)

/-- A lock is `atomic_is_busy`, with the process that has set it; no step looks at which. -/
structure Shared where
  services : ServiceTable
  events : RecvEvent.Table
  index : Pid → NameIndex
  entryLock : ℕ → Option Pid
  tableLock : Option Pid
  pc : Pid → Pc

abbrev Seen := List (Event Pid Request Answer)

def Shared.goto (c : Shared) (p : Pid) (pc : Pc) : Shared :=
  { c with pc := Function.update c.pc p pc }

section Goto

variable (c : Shared) (p : Pid) (pc : Pc)

@[simp] theorem goto_services : (c.goto p pc).services = c.services := rfl
@[simp] theorem goto_events : (c.goto p pc).events = c.events := rfl
@[simp] theorem goto_index : (c.goto p pc).index = c.index := rfl
@[simp] theorem goto_entryLock : (c.goto p pc).entryLock = c.entryLock := rfl
@[simp] theorem goto_tableLock : (c.goto p pc).tableLock = c.tableLock := rfl
@[simp] theorem goto_pc : (c.goto p pc).pc = Function.update c.pc p pc := rfl

end Goto

/-- A step that decides what the call of the process does and answers. -/
def Shared.decide (c : Shared) (p : Pid) (pc : Pc) (q : Request) (a : Answer) : Shared × Seen :=
  (c.goto p pc, [.commit p q a])

def Shared.enter (config : Pid → List ServiceDef) (c : Shared) (p : Pid) :
    Request → Shared × Seen
  | .createServiceClient q =>
    -- `service_name_to_id_` is the process' own, and what it is rebuilt from is not changed by
    -- any step below.
    match findServiceForClient (config p) q.name.bytes q.client.bytes
        ⟨c.services, c.events, c.index p⟩ with
    | (u, none) =>
      Shared.decide { c with services := u.services, index := Function.update c.index p u.index } p
        (.leaving (.createServiceClient q) (.ids ⟨none, none⟩)) (.createServiceClient q)
        (.ids ⟨none, none⟩)
    | (u, some i) =>
      (Shared.goto { c with services := u.services, index := Function.update c.index p u.index } p
        (.lockServiceEntry q i), [])
  | .registerDataRecvEvent none onRecv =>
    c.decide p (.leaving (.registerDataRecvEvent none onRecv) (.event none))
      (.registerDataRecvEvent none onRecv) (.event none)
  | .registerDataRecvEvent (some ch) onRecv => (c.goto p (.checkFull (.asset onRecv) ch), [])

/-- `client_id` is the slot's also when its event cannot be updated. -/
def Shared.updateFailed (c : Shared) (p : Pid) (q : ClientCall) (i k : ℕ) : Shared × Seen :=
  c.decide p (.unlockServiceEntry q i ⟨none, some k⟩) (.createServiceClient q)
    (.ids ⟨none, some k⟩)

def Shared.noRoom (c : Shared) (p : Pid) (q : ClientCall) (i : ℕ) : Shared × Seen :=
  c.decide p (.unlockServiceEntry q i ⟨none, none⟩) (.createServiceClient q) (.ids ⟨none, none⟩)

def Shared.lockRecvEventTable (c : Shared) (p : Pid) (pc : Pc) : Shared × Seen :=
  if c.tableLock.isSome then (c, [])
  else (Shared.goto { c with tableLock := some p } p pc, [])

def Shared.unlockRecvEventTable (c : Shared) (p : Pid) (pc : Pc) : Shared × Seen :=
  (Shared.goto { c with tableLock := none } p pc, [])

def Shared.next (config : Pid → List ServiceDef) (c : Shared) (p : Pid) : Shared × Seen :=
  match c.pc p with
  | .outside => (c, [])
  | .entered q => c.enter config p q
  | .lockServiceEntry q i =>
    -- `lock_service_entry` does nothing for an id that is not in the table.
    if c.services.entryNum ≤ i then (c.goto p (.findExisting q i 0), [])
    else if (c.entryLock i).isSome then (c, [])
    else (Shared.goto { c with entryLock := Function.update c.entryLock i (some p) } p
      (.findExisting q i 0), [])
  | .findExisting q i k =>
    if (c.services.entries i).nextClientId ≤ k then (c.goto p (.checkRoom q i), [])
    else if ((c.services.entries i).clientChannelMap k).enabled &&
        ((c.services.entries i).clientChannelMap k).name == q.client.bytes then
      match q.real q.name.bytes ((c.services.entries i).clientChannelMap k).responseChannelId with
      | none => c.updateFailed p q i k
      | some ch => (c.goto p (.findEvent q i k ch 0), [])
    else (c.goto p (.findExisting q i (k + 1)), [])
  | .findEvent q i k ch j =>
    match c.events.entries[j]? with
    | none => c.updateFailed p q i k
    | some e =>
      if e.watches ch then (c.goto p (.lockForUpdate q i k ch j), [])
      else (c.goto p (.findEvent q i k ch (j + 1)), [])
  | .lockForUpdate q i k ch j => c.lockRecvEventTable p (.updateEvent q i k ch j)
  | .updateEvent q i k _ j =>
    Shared.decide { c with events := ⟨c.events.entries.modify j (Entry.takeOver p none)⟩ } p
      (.unlockUpdate q i k) (.createServiceClient q) (.ids ⟨some i, some k⟩)
  | .unlockUpdate q i k => c.unlockRecvEventTable p (.unlockServiceEntry q i ⟨some i, some k⟩)
  | .checkRoom q i =>
    if (c.services.entries i).maxClients ≤ (c.services.entries i).nextClientId then c.noRoom p q i
    else
      match q.real q.name.bytes ((c.services.entries i).clientChannelMap
          (c.services.entries i).nextClientId).responseChannelId with
      | none => c.noRoom p q i
      | some ch =>
        (c.goto p (.checkFull (.client q i (c.services.entries i).nextClientId) ch), [])
  | .checkFull o ch =>
    if recvEventMax ≤ c.events.entryNum then
      c.decide p (o.next ch none) (o.request ch) (o.answer none)
    else (c.goto p (.lockForAppend o ch), [])
  | .lockForAppend o ch => c.lockRecvEventTable p (.recheckFull o ch)
  | .recheckFull o ch =>
    if recvEventMax ≤ c.events.entryNum then
      c.decide p (.unlockAppend o ch none) (o.request ch) (o.answer none)
    else (c.goto p (.appendEvent o ch), [])
  | .appendEvent o ch =>
    Shared.decide { c with events := ⟨c.events.entries ++ [newEntry p ch o.onRecv]⟩ } p
      (.unlockAppend o ch (some c.events.entryNum)) (o.request ch)
      (o.answer (some c.events.entryNum))
  | .unlockAppend o ch id => c.unlockRecvEventTable p (o.next ch id)
  | .assignSlot q i k id =>
    (Shared.goto { c with
        services := c.services.setSlots i (Function.update (c.services.entries i).clientChannelMap k
          (((c.services.entries i).clientChannelMap k).assign q.client.bytes id)) } p
      (.countSlot q i k), [])
  | .countSlot q i k =>
    (Shared.goto { c with
        services := { c.services with
          entries := Function.update c.services.entries i
            { c.services.entries i with nextClientId := (c.services.entries i).nextClientId + 1 } } } p
      (.unlockServiceEntry q i ⟨some i, some k⟩), [])
  | .unlockServiceEntry q i ids =>
    (Shared.goto { c with
        entryLock := if c.services.entryNum ≤ i then c.entryLock
          else Function.update c.entryLock i none } p
      (.leaving (.createServiceClient q) (.ids ids)), [])
  | .leaving q a => (c.goto p .outside, [.ret p q a])

/-- What only changes flags: the hooks of a write, a reader's test-and-clear, the gate. -/
structure FlagOp where
  op : RecvEvent.Table → RecvEvent.Table
  keeps : ∀ t, (op t).registrations = t.registrations

/-- `response` is the store of `get_response` into its slot, made without a lock; what it does to the
event is among `flags`. -/
inductive Action
  | invoke (p : Pid) (q : Request)
  | step (p : Pid)
  | flags (f : FlagOp)
  | response (i k : ℕ) (recvEventId : Option ℕ)

def Shared.act (config : Pid → List ServiceDef) (c : Shared) : Action → Shared × Seen
  | .invoke p q =>
    match c.pc p with
    | .outside => (c.goto p (.entered q), [.invoke p q])
    | _ => (c, [])
  | .step p => c.next config p
  | .flags f => ({ c with events := f.op c.events }, [])
  | .response i k id => ({ c with services := c.services.responseRead i k id }, [])

def move (config : Pid → List ServiceDef) (c : Shared) (a : Action) : Shared := (c.act config a).1
def seen (config : Pid → List ServiceDef) (c : Shared) (a : Action) : Seen := (c.act config a).2

def Shared.start (w : World) : Shared where
  services := w.services
  events := w.events
  index := w.index
  entryLock := fun _ => none
  tableLock := none
  pc := fun _ => .outside

end ConcurrentClients
end HakoniwaCorePro
