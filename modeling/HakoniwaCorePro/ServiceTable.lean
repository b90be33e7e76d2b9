import HakoniwaCorePro.RecvEventTable
import Mathlib.Data.Int.Notation

/-!
# The shared service table

`HakoServiceTableType` and the functions of `hako_pro_data_service.cpp` that fill it. Every
process has its own list of services, read from its configuration file, and its own index
from service names to ids. The core's `get_pdu_channel` is the argument `real`.
-/

namespace HakoniwaCorePro
namespace Service

open RecvEvent

/-- The bytes of a name. -/
abbrev Name := List UInt8

def serviceMax : ℕ := 1024
def serviceClientMax : ℕ := 256
def serviceNamelenMax : ℕ := 128
def clientNamelenMax : ℕ := 64

def serverChannelId (j : ℕ) : ℕ := 2 * j
def clientChannelId (j : ℕ) : ℕ := 2 * j + 1

/-- The string a reader finds in memory: everything before the first zero byte. -/
def cString (bytes : List UInt8) : Name := bytes.takeWhile (· ≠ 0)

def intBytes (n : ℕ) : List UInt8 :=
  [UInt8.ofNat n, UInt8.ofNat (n / 256), UInt8.ofNat (n / 65536), UInt8.ofNat (n / 16777216)]

/-- `char clientName[HAKO_CLIENT_NAMELEN_MAX]` -/
structure NameBuffer where
  bytes : List UInt8
  length_eq : bytes.length = clientNamelenMax

/-- The bytes that `memcpy` and the zero byte after it leave inside the array. -/
def NameBuffer.write (name : Name) (buf : NameBuffer) : NameBuffer where
  bytes := (name ++ [0]).take clientNamelenMax ++ buf.bytes.drop (name.length + 1)
  length_eq := by
    have h := buf.length_eq
    simp only [List.length_append, List.length_take, List.length_drop, List.length_cons,
      List.length_nil]
    omega

/-- `HakoServiceClientChannelMapType`. The channel id follows the name in memory; the response
event's id becomes -1 when `get_response` finds nothing. -/
structure ClientChannelMap where
  enabled : Bool
  clientName : NameBuffer
  requestChannelId : ℕ
  requestRecvEventId : ℕ
  responseChannelId : ℕ
  responseRecvEventId : ℤ

/-- The name as `clientName == client_entry.clientName` reads it: an array without a zero
byte is read on into the channel id. -/
def ClientChannelMap.name (m : ClientChannelMap) : Name :=
  cString (m.clientName.bytes ++ intBytes m.requestChannelId)

/-- A name of `HAKO_CLIENT_NAMELEN_MAX` bytes puts its zero byte on the low byte of the
channel id. -/
def ClientChannelMap.assign (name : Name) (recvEventId : ℕ) (m : ClientChannelMap) :
    ClientChannelMap where
  enabled := true
  clientName := m.clientName.write name
  requestChannelId :=
    if name.length = clientNamelenMax then m.requestChannelId / 256 * 256 else m.requestChannelId
  requestRecvEventId := m.requestRecvEventId
  responseChannelId := m.responseChannelId
  responseRecvEventId := recvEventId

/-- `HakoServiceEntryTye` -/
structure ServiceEntry where
  enabled : Bool
  serviceName : Name
  maxClients : ℕ
  nextClientId : ℕ
  pduSizeRequest : ℕ
  pduSizeResponse : ℕ
  clientChannelMap : ℕ → ClientChannelMap

structure ServiceTable where
  entryNum : ℕ
  entries : ℕ → ServiceEntry

/-- What `set_service_data` reads of a configured service. -/
structure ServiceDef where
  name : Name
  maxClients : ℕ
  serverTotalSize : ℕ
  clientTotalSize : ℕ

/-- The first assignments of the loop body, made before the name is looked at. -/
def ServiceEntry.open (s : ServiceDef) (e : ServiceEntry) : ServiceEntry :=
  { e with
    enabled := true
    maxClients := s.maxClients
    nextClientId := 0
    pduSizeRequest := s.serverTotalSize
    pduSizeResponse := s.clientTotalSize }

def ServiceEntry.fill (s : ServiceDef) (e : ServiceEntry) : ServiceEntry :=
  { e.open s with
    serviceName := cString s.name
    clientChannelMap := fun j =>
      if j < s.maxClients then
        { e.clientChannelMap j with
          enabled := false
          requestChannelId := serverChannelId j
          responseChannelId := clientChannelId j }
      else e.clientChannelMap j }

/-- The loop of `set_service_data`, which ends at a name that is too long. -/
def setServiceEntries : ℕ → List ServiceDef → (ℕ → ServiceEntry) → ℕ → ServiceEntry
  | _, [], es => es
  | i, s :: ss, es =>
    if s.name.length ≥ serviceNamelenMax then Function.update es i ((es i).open s)
    else setServiceEntries (i + 1) ss (Function.update es i ((es i).fill s))

/-- `set_service_data` without the rebuilding of the caller's index. -/
def setServiceData (services : List ServiceDef) (t : ServiceTable) : ServiceTable :=
  ⟨services.length, setServiceEntries 0 services t.entries⟩

/-- `service_name_to_id_` of one process. -/
abbrev NameIndex := Name → Option ℕ

/-- The entries are put into the index in order, so that the last one of a name stays. -/
def rebuildServiceNameIndexes (t : ServiceTable) : NameIndex := fun name =>
  (List.range t.entryNum).reverse.find? fun i =>
    (t.entries i).enabled && (t.entries i).serviceName == name

/-- Looks into the shared table only when the index has no answer. -/
def getServiceId (name : Name) (t : ServiceTable) (ix : NameIndex) : NameIndex × Option ℕ :=
  match ix name with
  | some i => (ix, some i)
  | none => (rebuildServiceNameIndexes t, rebuildServiceNameIndexes t name)

/-- What a call changes: the two shared tables and the caller's own index. -/
structure Tables where
  services : ServiceTable
  events : RecvEvent.Table
  index : NameIndex

def Tables.load (services : List ServiceDef) (s : Tables) : Tables :=
  { s with
    services := setServiceData services s.services
    index := rebuildServiceNameIndexes (setServiceData services s.services) }

def ServiceTable.setSlots (t : ServiceTable) (i : ℕ) (m : ℕ → ClientChannelMap) : ServiceTable :=
  { t with entries := Function.update t.entries i { t.entries i with clientChannelMap := m } }

def ClientChannelMap.watched (j recvEventId : ℕ) (m : ClientChannelMap) : ClientChannelMap :=
  { m with requestChannelId := serverChannelId j, requestRecvEventId := recvEventId }

/-- The loop of `create_service`; `false` when a registration fails, with what was done before. -/
def registerSlots (pid : Pid) (real : ℕ → Option ChannelId) :
    List ℕ → RecvEvent.Table → (ℕ → ClientChannelMap) →
      RecvEvent.Table × (ℕ → ClientChannelMap) × Bool
  | [], t, m => (t, m, true)
  | j :: js, t, m =>
    match registerDataRecvEvent pid (real (serverChannelId j)) none t with
    | (t', none) => (t', m, false)
    | (t', some id) =>
      registerSlots pid real js t' (Function.update m j ((m j).watched j id))

/-- The first half of `create_service`: the table is loaded when it has another number of
services than the caller's list, and once more when the name is not in it. -/
def findService (services : List ServiceDef) (name : Name) (s : Tables) : Tables × Option ℕ :=
  let s := if s.services.entryNum ≠ services.length then s.load services else s
  if s.services.entryNum ≥ serviceMax then (s, none)
  else
    match getServiceId name s.services s.index with
    | (ix, some i) => ({ s with index := ix }, some i)
    | (ix, none) =>
      let s := Tables.load services { s with index := ix }
      let (ix, i) := getServiceId name s.services s.index
      ({ s with index := ix }, i)

def createServiceSlots (pid : Pid) (real : ℕ → Option ChannelId) (i : ℕ) (s : Tables) :
    Tables × Option ℕ :=
  let e := s.services.entries i
  let (t, m, ok) := registerSlots pid real (List.range e.maxClients) s.events e.clientChannelMap
  ({ s with services := s.services.setSlots i m, events := t }, if ok then some i else none)

/-- `create_service`: the id of the service, `none` for -1. -/
def createService (pid : Pid) (services : List ServiceDef) (real : Name → ℕ → Option ChannelId)
    (name : Name) (s : Tables) : Tables × Option ℕ :=
  match findService services name s with
  | (s, none) => (s, none)
  | (s, some i) => createServiceSlots pid (real name) i s

/-- What `create_service_client` gives back: the service id, and `client_id`. -/
structure ClientIds where
  serviceId : Option ℕ
  clientId : Option ℕ
  deriving DecidableEq

def ServiceEntry.findClient (client : Name) (e : ServiceEntry) : Option ℕ :=
  (List.range e.nextClientId).find? fun k =>
    (e.clientChannelMap k).enabled && (e.clientChannelMap k).name == client

def ServiceEntry.addClient (client : Name) (recvEventId : ℕ) (e : ServiceEntry) : ServiceEntry :=
  { e with
    clientChannelMap := Function.update e.clientChannelMap e.nextClientId
      ((e.clientChannelMap e.nextClientId).assign client recvEventId)
    nextClientId := e.nextClientId + 1 }

/-- The first half of `create_service_client`. -/
def findServiceForClient (services : List ServiceDef) (name client : Name) (s : Tables) :
    Tables × Option ℕ :=
  let s := if s.services.entryNum = 0 then s.load services else s
  if name = [] ∨ client = [] ∨ name.length > serviceNamelenMax ∨ client.length > clientNamelenMax
  then (s, none)
  else
    let (ix, i) := getServiceId name s.services s.index
    ({ s with index := ix }, i)

/-- The second half: a known client's event is updated, a new one takes the next slot. -/
def createClientSlot (pid : Pid) (real : ℕ → Option ChannelId) (client : Name) (i : ℕ)
    (s : Tables) : Tables × ClientIds :=
  let e := s.services.entries i
  match e.findClient client with
  | some k =>
    let (t, id) := updateDataRecvEvent pid (real (e.clientChannelMap k).responseChannelId) none
      s.events
    ({ s with events := t }, ⟨if id.isSome then some i else none, some k⟩)
  | none =>
    if e.nextClientId ≥ e.maxClients then (s, ⟨none, none⟩)
    else
      match registerDataRecvEvent pid (real (e.clientChannelMap e.nextClientId).responseChannelId)
          none s.events with
      | (t, none) => ({ s with events := t }, ⟨none, none⟩)
      | (t, some id) =>
        ({ s with
            services := { s.services with
              entries := Function.update s.services.entries i (e.addClient client id) }
            events := t },
          ⟨some i, some e.nextClientId⟩)

def createServiceClient (pid : Pid) (services : List ServiceDef)
    (real : Name → ℕ → Option ChannelId) (name client : Name) (s : Tables) : Tables × ClientIds :=
  match findServiceForClient services name client s with
  | (s, none) => (s, ⟨none, none⟩)
  | (s, some i) => createClientSlot pid (real name) client i s

/-- The id that `get_recv_event` hands back, in the field that `get_response` gives it. -/
def ClientChannelMap.responseRead (recvEventId : Option ℕ) (m : ClientChannelMap) :
    ClientChannelMap :=
  { m with responseRecvEventId := recvEventId.elim (-1) Int.ofNat }

def ServiceTable.responseRead (t : ServiceTable) (i k : ℕ) (recvEventId : Option ℕ) : ServiceTable :=
  t.setSlots i (Function.update (t.entries i).clientChannelMap k
    (((t.entries i).clientChannelMap k).responseRead recvEventId))

/-- `get_response` up to `read_pdu`, which is reached with `true`. It holds no lock of the entry. -/
def getResponse (pid : Pid) (real : Name → ℕ → Option ChannelId) (i k : ℕ) (t : ServiceTable)
    (ev : RecvEvent.Table) : ServiceTable × RecvEvent.Table × Bool :=
  let e := t.entries i
  if i ≥ serviceMax ∨ e.enabled = false ∨ k ≥ e.maxClients then (t, ev, false)
  else
    match real e.serviceName (e.clientChannelMap k).responseChannelId with
    | none => (t, ev, false)
    | some c =>
      let (ev', r) := getRecvEvent pid c ev
      (t.responseRead i k r.recvEventId, ev', r.received)

end Service
end HakoniwaCorePro
