import HakoniwaCorePro.FirstMatch
import Mathlib.Logic.Function.Basic

/-!
# The receive event table

The table of `hako_pro_data_types.hpp` and the functions of `hako_pro_data_recv_event.cpp`
and `hako_pro_data.cpp` that read and write it. Only `entries[0 .. entry_num)` is kept: no
function looks at an entry past `entry_num` that is not still all zero, that is disabled.
`get_pdu_channel`, which turns a robot name and a logical channel into a real channel, is
part of the core; its answer is an argument here, `none` for a negative id.
-/

namespace HakoniwaCorePro
namespace RecvEvent

abbrev Pid := ℕ
abbrev ChannelId := ℕ
/-- The address of an `on_recv` function. -/
abbrev Callback := ℕ

/-- `HAKO_RECV_EVENT_MAX` -/
def recvEventMax : ℕ := 4096
/-- `HAKO_PDU_CHANNEL_MAX` -/
def pduChannelMax : ℕ := 8192

inductive EventType
  | flag | callback
  deriving DecidableEq

/-- The fields of `HakoRecvEventEntryType` that a registration fixes. -/
structure Registration where
  enabled : Bool
  procId : Pid
  realChannelId : ChannelId
  type : EventType
  onRecv : Option Callback
  deriving DecidableEq

/-- `HakoRecvEventEntryType`; the two flags are what a run changes. -/
structure Entry extends Registration where
  recvFlag : Bool
  pendingFlag : Bool
  deriving DecidableEq

structure Table where
  entries : List Entry
  deriving DecidableEq

def Table.entryNum (t : Table) : ℕ := t.entries.length

def Table.registrations (t : Table) : List Registration := t.entries.map Entry.toRegistration

/-- The two tests of the writer's loops: the entry watches the channel. -/
def Entry.watches (c : ChannelId) (e : Entry) : Bool := e.enabled && e.realChannelId == c

/-- The three tests of the reader's loops: the entry is the process' own watch of the channel. -/
def Entry.isOwn (pid : Pid) (c : ChannelId) (e : Entry) : Bool :=
  e.enabled && e.procId == pid && e.realChannelId == c

/-- Marked, and the gate is open. -/
def Entry.isUnread (e : Entry) : Bool := e.recvFlag && !e.pendingFlag

def Entry.mark (e : Entry) : Entry := { e with recvFlag := true }
def Entry.setPending (pending : Bool) (e : Entry) : Entry := { e with pendingFlag := pending }
/-- The test-and-clear made under the channel's read lock. -/
def Entry.consume (e : Entry) : Entry := if e.isUnread then { e with recvFlag := false } else e
def Entry.clear (e : Entry) : Entry := { e with recvFlag := false, pendingFlag := false }

def newEntry (pid : Pid) (real : ChannelId) (onRecv : Option Callback) : Entry where
  enabled := true
  procId := pid
  realChannelId := real
  type := if onRecv.isSome then .callback else .flag
  onRecv := onRecv
  recvFlag := false
  pendingFlag := false

/-- Always appends; whether the process watches the channel already is not looked at. -/
def registerDataRecvEvent (pid : Pid) (real : Option ChannelId) (onRecv : Option Callback)
    (t : Table) : Table × Option ℕ :=
  match real with
  | none => (t, none)
  | some c =>
    if t.entryNum ≥ recvEventMax then (t, none)
    else (⟨t.entries ++ [newEntry pid c onRecv]⟩, some t.entryNum)

/-- What `update_data_recv_event` overwrites; the pending flag is not among it. -/
def Entry.takeOver (pid : Pid) (onRecv : Option Callback) (e : Entry) : Entry :=
  { e with
    recvFlag := false
    procId := pid
    type := if onRecv.isSome then .callback else .flag
    onRecv := onRecv }

/-- Takes over the first enabled entry of the channel, whoever owns it. -/
def updateDataRecvEvent (pid : Pid) (real : Option ChannelId) (onRecv : Option Callback)
    (t : Table) : Table × Option ℕ :=
  match real with
  | none => (t, none)
  | some c =>
    match t.entries.findIdx? (Entry.watches c) with
    | none => (t, none)
    | some i => (⟨FirstMatch.updateFirst (Entry.watches c) (Entry.takeOver pid onRecv) t.entries⟩,
        some i)

/-- The result of `get_recv_event`, with the event id it hands back. -/
structure Checked where
  received : Bool
  recvEventId : Option ℕ
  deriving DecidableEq

def getRecvEvent (pid : Pid) (c : ChannelId) (t : Table) : Table × Checked :=
  if c ≥ pduChannelMax then (t, ⟨false, none⟩)
  else
    match t.entries.find? (Entry.isOwn pid c) with
    | none => (t, ⟨false, none⟩)
    | some e =>
      (⟨FirstMatch.updateFirst (Entry.isOwn pid c) Entry.consume t.entries⟩,
        ⟨if e.pendingFlag then false else e.recvFlag,
          if e.isUnread then t.entries.findIdx? (Entry.isOwn pid c) else none⟩)

/-- The process' entries with a callback, which one pass looks at. -/
def Entry.hasCallback (pid : Pid) (e : Entry) : Bool :=
  e.enabled && e.procId == pid && e.onRecv.isSome

/-- The ids of the events whose callback a pass over `entries[i ..]` calls. -/
def calledFrom (pid : Pid) : ℕ → List Entry → List ℕ
  | _, [] => []
  | i, e :: es =>
    if e.hasCallback pid && e.isUnread then i :: calledFrom pid (i + 1) es
    else calledFrom pid (i + 1) es

/-- One pass: consumes every unread event of the process that has a callback, and calls it. -/
def callRecvEventCallbacks (pid : Pid) (t : Table) : Table × List ℕ :=
  (⟨t.entries.map fun e => if e.hasCallback pid then e.consume else e⟩, calledFrom pid 0 t.entries)

/-- `set_recv_event_pending` by event id. -/
def setRecvEventPending (pid : Pid) (id : ℕ) (pending : Bool) (t : Table) : Table × Bool :=
  match t.entries[id]? with
  | none => (t, false)
  | some e =>
    if e.enabled = false ∨ e.procId ≠ pid then (t, false)
    else (⟨t.entries.set id (e.setPending pending)⟩, true)

/-- `set_recv_event_pending` by robot name and logical channel. -/
def setChannelPending (pid : Pid) (real : Option ChannelId) (pending : Bool) (t : Table) :
    Table × Bool :=
  match real with
  | none => (t, false)
  | some c =>
    (⟨FirstMatch.updateFirst (Entry.isOwn pid c) (Entry.setPending pending) t.entries⟩,
      t.entries.any (Entry.isOwn pid c))

/-- The hook the core calls under the channel lock after it has stored the data. -/
def onPduDataWrite (c : ChannelId) (t : Table) : Table :=
  ⟨t.entries.map fun e => if e.watches c then e.mark else e⟩

/-- The hook the core asks first: `false` is busy, and the write is refused. -/
def onPduDataBeforeWrite (c : ChannelId) (t : Table) : Bool :=
  !(t.entries.any fun e => e.watches c && e.isUnread)

/-- Start and reset clear the flags of one run and keep the registrations. -/
def clearRunFlags (t : Table) : Table :=
  ⟨t.entries.map fun e => if e.enabled then e.clear else e⟩

/-- The channel data of the core and the table that its hooks use. -/
structure Bus (Pdu : Type) where
  data : ChannelId → Pdu
  table : Table

/-- The core's `write_pdu`, all under the channel lock: ask, store, mark. -/
def writePdu {Pdu : Type} (c : ChannelId) (p : Pdu) (b : Bus Pdu) : Bus Pdu × Bool :=
  if onPduDataBeforeWrite c b.table then
    (⟨Function.update b.data c p, onPduDataWrite c b.table⟩, true)
  else (b, false)

@[simp] theorem mark_registration (e : Entry) : e.mark.toRegistration = e.toRegistration := rfl
@[simp] theorem clear_registration (e : Entry) : e.clear.toRegistration = e.toRegistration := rfl
@[simp] theorem setPending_registration (b : Bool) (e : Entry) :
    (e.setPending b).toRegistration = e.toRegistration := rfl
@[simp] theorem consume_registration (e : Entry) : e.consume.toRegistration = e.toRegistration := by
  unfold Entry.consume
  split <;> rfl

theorem map_registrations (f : Entry → Entry) (hf : ∀ e, (f e).toRegistration = e.toRegistration)
    (es : List Entry) : (es.map f).map Entry.toRegistration = es.map Entry.toRegistration := by
  simp [hf]

@[simp] theorem getRecvEvent_registrations (pid : Pid) (c : ChannelId) (t : Table) :
    (getRecvEvent pid c t).1.registrations = t.registrations := by
  unfold getRecvEvent
  split
  · rfl
  · split
    · rfl
    · exact FirstMatch.map_updateFirst _ _ _ consume_registration _

@[simp] theorem callRecvEventCallbacks_registrations (pid : Pid) (t : Table) :
    (callRecvEventCallbacks pid t).1.registrations = t.registrations := by
  refine map_registrations _ (fun e => ?_) _
  split <;> simp

@[simp] theorem setRecvEventPending_registrations (pid : Pid) (id : ℕ) (b : Bool) (t : Table) :
    (setRecvEventPending pid id b t).1.registrations = t.registrations := by
  unfold setRecvEventPending
  split
  · rfl
  · next e he =>
    split
    · rfl
    · obtain ⟨hlt, rfl⟩ := List.getElem?_eq_some_iff.mp he
      have hlen : id < (t.entries.map Entry.toRegistration).length := by simpa using hlt
      have hset := List.set_getElem_self hlen
      simpa [Table.registrations, List.map_set] using hset

@[simp] theorem setChannelPending_registrations (pid : Pid) (real : Option ChannelId) (b : Bool)
    (t : Table) : (setChannelPending pid real b t).1.registrations = t.registrations := by
  cases real with
  | none => rfl
  | some c => exact FirstMatch.map_updateFirst _ _ _ (setPending_registration b) _

@[simp] theorem onPduDataWrite_registrations (c : ChannelId) (t : Table) :
    (onPduDataWrite c t).registrations = t.registrations := by
  refine map_registrations _ (fun e => ?_) _
  split <;> simp

@[simp] theorem clearRunFlags_registrations (t : Table) :
    (clearRunFlags t).registrations = t.registrations := by
  refine map_registrations _ (fun e => ?_) _
  split <;> simp

theorem writePdu_refused {Pdu : Type} {c : ChannelId} {p : Pdu} {b : Bus Pdu}
    (h : (writePdu c p b).2 = false) : (writePdu c p b).1 = b := by
  unfold writePdu at h ⊢
  split
  · next hok => simp [hok] at h
  · rfl

theorem writePdu_registrations {Pdu : Type} (c : ChannelId) (p : Pdu) (b : Bus Pdu) :
    (writePdu c p b).1.table.registrations = b.table.registrations := by
  unfold writePdu
  split <;> simp

end RecvEvent
end HakoniwaCorePro
