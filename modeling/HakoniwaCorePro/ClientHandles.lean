import HakoniwaCorePro.ClientOps
import HakoniwaCorePro.Families

/-!
# The clients of a process

`hako_asset_service_client.cpp` keeps each client as one shared object, to which two maps point:
`service_clients` under a key made of both ids of its handle, `service_protocols_by_service_id`
under the service id alone. A client that is created once more under its name gets the same ids,
and a new object. Seen from outside, each handle is a client of its own.
-/

namespace HakoniwaCorePro
namespace ClientHandles

open Service Runs Families

variable {Pdu : Type}

/-- `HakoServiceHandleType` -/
structure Handle where
  serviceId : Int32
  clientId : Int32
  deriving DecidableEq

/-- A client object: its protocol, and what `HakoServiceClient` keeps besides. -/
structure ClientObject (Pdu : Type) where
  assetId : Int32
  handle : Handle
  requestPduSize : ℤ
  responsePduSize : ℤ
  protocol : ClientProtocol Pdu

def makeServiceClientKey (h : Handle) : UInt64 :=
  h.serviceId.toUInt32.toUInt64 <<< 32 ||| h.clientId.toUInt32.toUInt64

/-- The objects in the order of their creation, and the two maps. A pointer is the number of its
object. -/
structure Clients (Pdu : Type) where
  objects : List (ClientObject Pdu)
  serviceClients : UInt64 → Option (Int32 × ℕ)
  serviceProtocolsByServiceId : Int32 → Option ℕ

def Clients.empty : Clients Pdu := ⟨[], fun _ => none, fun _ => none⟩

/-- The shared memory during a call. What the channels answer depends on the ids of the caller. -/
structure SharedView (Pdu : Type) where
  worldTimeUsec : ℤ
  generation : ℕ
  rpcAllowed : Bool
  getResponse : Int32 → Handle → Option Pdu
  putRequest : Handle → Bool
  entry : Name → ServiceEntry

def SharedView.of (w : SharedView Pdu) (o : ClientObject Pdu) : ClientWorld Pdu where
  worldTimeUsec := w.worldTimeUsec
  getResponse := w.getResponse o.assetId o.handle
  putRequest := w.putRequest o.handle
  generation := w.generation
  rpcAllowed := w.rpcAllowed

/-- What a call hands out through its arguments. The response buffer is zero until a response has
been copied into it. -/
inductive Output (Pdu : Type)
  | nothing
  | handle (h : Handle)
  | channels (request response : ℤ)
  | status (code : ℤ)
  | requestBuffer (packet : Pdu) (packetLen : ℤ)
  | responseBuffer (packet : Option Pdu) (packetLen : ℤ)

/-- The result of a call, and the packet that the request channel has accepted. -/
structure Reply (Pdu : Type) where
  code : ℤ
  output : Output Pdu
  written : Option Pdu

def Reply.failed : Reply Pdu := ⟨-1, .nothing, none⟩

section

variable (conv : Convertors Pdu) (w : SharedView Pdu)

/-- `HAKO_SERVICE_CLIENT_API_*` -/
def apiEvent : ClientEvent → ℤ
  | .none => 0
  | .responseIn => 1
  | .requestTimeout => 2
  | .requestCancelDone => 3

def apiState : ClientState → ℤ
  | .idle => 0
  | .doing => 1
  | .canceling => 2

namespace ClientObject

variable (o : ClientObject Pdu)

def poll : ClientProtocol Pdu × Reply Pdu :=
  let r := callPoll conv (w.of o) o.protocol
  (r.1, ⟨apiEvent r.2.event, .nothing, r.2.written⟩)

def slot : ClientChannelMap :=
  (w.entry o.protocol.client.serviceName).clientChannelMap o.handle.clientId.toInt.toNat

def channels : Reply Pdu :=
  ⟨0, .channels (o.slot w).requestChannelId (o.slot w).responseChannelId, none⟩

def getChannelId (nullArgument : Bool) : ClientProtocol Pdu × Reply Pdu :=
  (o.protocol, if nullArgument then .failed else o.channels w)

def getRequestBuffer (opcode : OperationCode) (pollIntervalMsec : ℤ) :
    ClientProtocol Pdu × Reply Pdu :=
  (o.protocol,
    match Service.getRequestBuffer conv opcode pollIntervalMsec o.protocol with
    | none => .failed
    | some p => ⟨0, .requestBuffer p o.requestPduSize, none⟩)

/-- Without a timeout the response is handed out only while the client is still DOING. -/
def getResponse : ClientProtocol Pdu × Reply Pdu :=
  (o.protocol,
    if o.protocol.state ≠ .doing then .failed
    else ⟨0, .responseBuffer o.protocol.responseUserBuffer o.responsePduSize, none⟩)

/-- The timeout is not looked at, nor is the state. -/
def getResponseTimeout (_timeout : ℤ) : ClientProtocol Pdu × Reply Pdu :=
  (o.protocol, ⟨0, .responseBuffer o.protocol.responseUserBuffer o.responsePduSize, none⟩)

def callRequest (packet : Pdu) (timeoutMsec : ℤ) : ClientProtocol Pdu × Reply Pdu :=
  let r := Service.callRequest conv (w.of o) packet timeoutMsec o.protocol
  (r.1, ⟨if r.2.returned then 0 else -1, .nothing, r.2.written⟩)

def cancelRequest : ClientProtocol Pdu × Reply Pdu :=
  let r := callCancelRequest conv (w.of o) o.protocol
  (r.1, ⟨if r.2.returned then 0 else -1, .nothing, r.2.written⟩)

def getProgress : ClientProtocol Pdu × Reply Pdu :=
  (o.protocol, ⟨o.protocol.percentage, .nothing, none⟩)

def status (nullArgument : Bool) : ClientProtocol Pdu × Reply Pdu :=
  (o.protocol, if nullArgument then .failed else ⟨0, .status (apiState o.protocol.state), none⟩)

end ClientObject

end

/-- A function of the client of a handle, which need not have one. A null handle is `none`. -/
def withClient (allowed : Bool) (f : ClientObject Pdu → ClientProtocol Pdu × Reply Pdu)
    (handle : Option Handle) (c : Clients Pdu) : Clients Pdu × Reply Pdu :=
  if ¬ allowed then (c, .failed)
  else
    match handle with
    | none => (c, .failed)
    | some h =>
      match c.serviceClients (makeServiceClientKey h) with
      | none => (c, .failed)
      | some (_, i) =>
        match c.objects[i]? with
        | none => (c, .failed)
        | some o => ({ c with objects := c.objects.set i { o with protocol := (f o).1 } }, (f o).2)

section

variable (conv : Convertors Pdu) (w : SharedView Pdu)

def serviceClientPoll : Option Handle → Clients Pdu → Clients Pdu × Reply Pdu :=
  withClient true fun o => o.poll conv w

def serviceClientGetChannelIdByHandle (nullArgument : Bool) :
    Option Handle → Clients Pdu → Clients Pdu × Reply Pdu :=
  withClient true fun o => o.getChannelId w nullArgument

def serviceClientGetRequestBuffer (opcode : OperationCode) (pollIntervalMsec : ℤ) :
    Option Handle → Clients Pdu → Clients Pdu × Reply Pdu :=
  withClient true fun o => o.getRequestBuffer conv opcode pollIntervalMsec

def serviceClientGetResponse : Option Handle → Clients Pdu → Clients Pdu × Reply Pdu :=
  withClient true fun o => o.getResponse

def serviceClientGetResponseTimeout (timeout : ℤ) :
    Option Handle → Clients Pdu → Clients Pdu × Reply Pdu :=
  withClient true fun o => o.getResponseTimeout timeout

def serviceClientCallRequest (packet : Pdu) (timeoutMsec : ℤ) :
    Option Handle → Clients Pdu → Clients Pdu × Reply Pdu :=
  withClient w.rpcAllowed fun o => o.callRequest conv w packet timeoutMsec

def serviceClientCancelRequest : Option Handle → Clients Pdu → Clients Pdu × Reply Pdu :=
  withClient true fun o => o.cancelRequest conv w

def serviceClientGetProgress : Option Handle → Clients Pdu → Clients Pdu × Reply Pdu :=
  withClient true fun o => o.getProgress

def serviceClientStatus (nullArgument : Bool) :
    Option Handle → Clients Pdu → Clients Pdu × Reply Pdu :=
  withClient true fun o => o.status nullArgument

end

/-- What `initialize` has left in a new client. -/
structure Initialized where
  assetId : Int32
  handle : Handle
  requestPduSize : ℤ
  responsePduSize : ℤ
  serviceName : Name
  clientName : Name
  runGeneration : ℕ

def Initialized.object (i : Initialized) : ClientObject Pdu where
  assetId := i.assetId
  handle := i.handle
  requestPduSize := i.requestPduSize
  responsePduSize := i.responsePduSize
  protocol := .initial i.serviceName i.clientName i.runGeneration

/-- `init` is `none` where `initialize` fails. -/
def serviceClientCreate (nullArgument : Bool) (init : Option Initialized) (c : Clients Pdu) :
    Clients Pdu × Reply Pdu :=
  if nullArgument then (c, .failed)
  else
    match init with
    | none => (c, .failed)
    | some i =>
      if i.handle.serviceId < 0 then (c, .failed)
      else
        ({ objects := c.objects ++ [i.object]
           serviceClients := Function.update c.serviceClients (makeServiceClientKey i.handle)
            (some (i.handle.serviceId, c.objects.length))
           serviceProtocolsByServiceId := Function.update c.serviceProtocolsByServiceId
            i.handle.serviceId (some c.objects.length) },
          ⟨0, .handle i.handle, none⟩)

def serviceClientGetChannelId (w : SharedView Pdu) (serviceId : Int32) (nullArgument : Bool)
    (c : Clients Pdu) : Clients Pdu × Reply Pdu :=
  if nullArgument then (c, .failed)
  else
    match c.serviceProtocolsByServiceId serviceId with
    | none => (c, .failed)
    | some i =>
      match c.objects[i]? with
      | none => (c, .failed)
      | some o => (c, o.channels w)

inductive HandleOp (Pdu : Type)
  | poll
  | getChannelIdByHandle (nullArgument : Bool)
  | getRequestBuffer (opcode : OperationCode) (pollIntervalMsec : ℤ)
  | getResponse
  | getResponseTimeout (timeout : ℤ)
  | callRequest (packet : Pdu) (timeoutMsec : ℤ)
  | cancelRequest
  | getProgress
  | status (nullArgument : Bool)

inductive ApiCall (Pdu : Type)
  | create (nullArgument : Bool) (init : Option Initialized)
  | getChannelId (serviceId : Int32) (nullArgument : Bool) (w : SharedView Pdu)
  | onHandle (op : HandleOp Pdu) (handle : Option Handle) (w : SharedView Pdu)

section

variable (conv : Convertors Pdu)

def HandleOp.perform (w : SharedView Pdu) :
    HandleOp Pdu → Option Handle → Clients Pdu → Clients Pdu × Reply Pdu
  | .poll => serviceClientPoll conv w
  | .getChannelIdByHandle nullArgument => serviceClientGetChannelIdByHandle w nullArgument
  | .getRequestBuffer opcode pollIntervalMsec =>
    serviceClientGetRequestBuffer conv opcode pollIntervalMsec
  | .getResponse => serviceClientGetResponse
  | .getResponseTimeout timeout => serviceClientGetResponseTimeout timeout
  | .callRequest packet timeoutMsec => serviceClientCallRequest conv w packet timeoutMsec
  | .cancelRequest => serviceClientCancelRequest conv w
  | .getProgress => serviceClientGetProgress
  | .status nullArgument => serviceClientStatus nullArgument

def perform (c : Clients Pdu) : ApiCall Pdu → Clients Pdu × Reply Pdu
  | .create nullArgument init => serviceClientCreate nullArgument init c
  | .getChannelId serviceId nullArgument w => serviceClientGetChannelId w serviceId nullArgument c
  | .onHandle op handle w => op.perform conv w handle c

def clientsStep (c : Clients Pdu) (k : ApiCall Pdu) : Clients Pdu := (perform conv c k).1

def HandleOp.allowed (w : SharedView Pdu) : HandleOp Pdu → Bool
  | .callRequest _ _ => w.rpcAllowed
  | _ => true

def HandleOp.apply (w : SharedView Pdu) (o : ClientObject Pdu) :
    HandleOp Pdu → ClientProtocol Pdu × Reply Pdu
  | .poll => o.poll conv w
  | .getChannelIdByHandle nullArgument => o.getChannelId w nullArgument
  | .getRequestBuffer opcode pollIntervalMsec => o.getRequestBuffer conv opcode pollIntervalMsec
  | .getResponse => o.getResponse
  | .getResponseTimeout timeout => o.getResponseTimeout timeout
  | .callRequest packet timeoutMsec => o.callRequest conv w packet timeoutMsec
  | .cancelRequest => o.cancelRequest conv w
  | .getProgress => o.getProgress
  | .status nullArgument => o.status nullArgument

def made (nullArgument : Bool) (init : Option Initialized) : Option Initialized :=
  if nullArgument then none else init.filter fun i => 0 ≤ i.handle.serviceId

def ApiCall.handle? : ApiCall Pdu → Option Handle
  | .create nullArgument init => (made nullArgument init).map Initialized.handle
  | .getChannelId _ _ _ => none
  | .onHandle _ handle _ => handle

def ApiCall.service? : ApiCall Pdu → Option Int32
  | .create nullArgument init => (made nullArgument init).map fun i => i.handle.serviceId
  | _ => none

def handleStep (o : Option (ClientObject Pdu)) : ApiCall Pdu → Option (ClientObject Pdu)
  | .create nullArgument init =>
    match made nullArgument init with
    | none => o
    | some i => some i.object
  | .getChannelId _ _ _ => o
  | .onHandle op _ w =>
    if op.allowed w then o.map fun o => { o with protocol := (op.apply conv w o).1 } else o

/-- The client of a handle when no other handle is ever spoken of. -/
def alone (h : Handle) (calls : List (ApiCall Pdu)) : Option (ClientObject Pdu) :=
  run (handleStep conv) none (calls.filter fun k => k.handle? = some h)

def latestStep (last : Option Int32) : ApiCall Pdu → Option Int32
  | .create nullArgument init =>
    match made nullArgument init with
    | none => last
    | some i => some i.handle.clientId
  | _ => last

def latest (serviceId : Int32) (calls : List (ApiCall Pdu)) : Option Int32 :=
  run latestStep none (calls.filter fun k => k.service? = some serviceId)

/-- The reply that a call gets after others, from the history of its own handle. -/
def aloneReply (calls : List (ApiCall Pdu)) : ApiCall Pdu → Reply Pdu
  | .create nullArgument init =>
    match made nullArgument init with
    | none => .failed
    | some i => ⟨0, .handle i.handle, none⟩
  | .getChannelId serviceId nullArgument w =>
    if nullArgument then .failed
    else
      match (latest serviceId calls).bind fun clientId => alone conv ⟨serviceId, clientId⟩ calls with
      | none => .failed
      | some o => o.channels w
  | .onHandle op handle w =>
    match if op.allowed w then handle.bind fun h => alone conv h calls else none with
    | none => .failed
    | some o => (op.apply conv w o).2

end

theorem makeServiceClientKey_toNat (h : Handle) : (makeServiceClientKey h).toNat =
    h.serviceId.toUInt32.toNat * 2 ^ 32 + h.clientId.toUInt32.toNat := by
  have hs := h.serviceId.toUInt32.toNat_lt
  have hc := h.clientId.toUInt32.toNat_lt
  have hshift : (h.serviceId.toUInt32.toUInt64 <<< 32).toNat = h.serviceId.toUInt32.toNat <<< 32 := by
    rw [UInt64.toNat_shiftLeft, UInt32.toNat_toUInt64, Nat.mod_eq_of_lt]
    · rfl
    · change h.serviceId.toUInt32.toNat <<< 32 < _
      rw [Nat.shiftLeft_eq]
      omega
  rw [makeServiceClientKey, UInt64.toNat_or, hshift, UInt32.toNat_toUInt64,
    ← Nat.shiftLeft_add_eq_or_of_lt hc, Nat.shiftLeft_eq]

theorem makeServiceClientKey_injective : Function.Injective makeServiceClientKey := by
  intro g h heq
  have hnat := congrArg UInt64.toNat heq
  rw [makeServiceClientKey_toNat, makeServiceClientKey_toNat] at hnat
  have hg := g.clientId.toUInt32.toNat_lt
  have hh := h.clientId.toUInt32.toNat_lt
  have hservice : g.serviceId.toUInt32.toNat = h.serviceId.toUInt32.toNat := by omega
  have hclient : g.clientId.toUInt32.toNat = h.clientId.toUInt32.toNat := by omega
  cases g
  cases h
  congr
  · exact congrArg Int32.ofUInt32 (UInt32.toNat_inj.mp hservice)
  · exact congrArg Int32.ofUInt32 (UInt32.toNat_inj.mp hclient)

/-- Each handle points to an object of its own, and each service to the object of its latest
client. -/
structure Refines (c : Clients Pdu) (client : Handle → Option (ClientObject Pdu))
    (last : Int32 → Option Int32) : Prop where
  clients : ∀ h, client h =
    (c.serviceClients (makeServiceClientKey h)).bind fun p => c.objects[p.2]?
  owned : ∀ k p, c.serviceClients k = some p →
    ∃ o, c.objects[p.2]? = some o ∧ makeServiceClientKey o.handle = k
  services : ∀ s, c.serviceProtocolsByServiceId s = (last s).bind fun j =>
    (c.serviceClients (makeServiceClientKey ⟨s, j⟩)).map Prod.snd
  registered : ∀ s j, last s = some j → client ⟨s, j⟩ ≠ none

theorem refines_empty : Refines (.empty : Clients Pdu) (fun _ => none) fun _ => none where
  clients _ := rfl
  owned := nofun
  services _ := rfl
  registered := nofun

section

variable {c : Clients Pdu} {client : Handle → Option (ClientObject Pdu)}
  {last : Int32 → Option Int32}

theorem Refines.client_some (h : Refines c client last) {g : Handle} {o : ClientObject Pdu}
    (ho : client g = some o) : ∃ s i, c.serviceClients (makeServiceClientKey g) = some (s, i) ∧
      c.objects[i]? = some o ∧ o.handle = g := by
  rw [h.clients, Option.bind_eq_some_iff] at ho
  obtain ⟨p, hp, hobject⟩ := ho
  obtain ⟨o', ho', hkey⟩ := h.owned _ p hp
  obtain rfl : o' = o := Option.some.inj (ho'.symm.trans hobject)
  exact ⟨p.1, p.2, hp, hobject, makeServiceClientKey_injective hkey⟩

theorem Refines.client_none (h : Refines c client last) {g : Handle} (ho : client g = none) :
    c.serviceClients (makeServiceClientKey g) = none := by
  cases hp : c.serviceClients (makeServiceClientKey g) with
  | none => rfl
  | some p =>
    obtain ⟨o, hobject, -⟩ := h.owned _ p hp
    rw [h.clients, hp, Option.bind_some, hobject] at ho
    cases ho

theorem Refines.set (h : Refines c client last) {g : Handle} {s : Int32} {i : ℕ}
    {o o' : ClientObject Pdu} (hpointer : c.serviceClients (makeServiceClientKey g) = some (s, i))
    (hobject : c.objects[i]? = some o) (hhandle : o.handle = g) (hsame : o'.handle = o.handle) :
    Refines { c with objects := c.objects.set i o' } (Function.update client g (some o')) last where
  clients j := by
    obtain ⟨hi, -⟩ := List.getElem?_eq_some_iff.mp hobject
    by_cases hj : j = g
    · subst hj
      simp [hpointer, hi]
    · rw [Function.update_of_ne hj, h.clients]
      cases hp : c.serviceClients (makeServiceClientKey j) with
      | none => rfl
      | some p =>
        -- the two handles would have one key if they had one object
        have hne : i ≠ p.2 := by
          rintro rfl
          obtain ⟨q, hq, hkey⟩ := h.owned _ p hp
          obtain rfl : q = o := Option.some.inj (hq.symm.trans hobject)
          exact hj (makeServiceClientKey_injective (hkey.symm.trans (by rw [hhandle])))
        simp only [Option.bind_some, List.getElem?_set_ne hne]
  owned k p hp := by
    obtain ⟨q, hq, hkey⟩ := h.owned k p hp
    obtain ⟨hi, -⟩ := List.getElem?_eq_some_iff.mp hobject
    by_cases hne : i = p.2
    · refine ⟨o', ?_, ?_⟩
      · rw [← hne]
        exact List.getElem?_set_self hi
      · obtain rfl : q = o := Option.some.inj (hq.symm.trans (hne ▸ hobject))
        rw [hsame, hkey]
    · exact ⟨q, by rw [List.getElem?_set_ne hne, hq], hkey⟩
  services := h.services
  registered t j hlast := by
    by_cases hj : (⟨t, j⟩ : Handle) = g
    · rw [hj, Function.update_self]
      nofun
    · rw [Function.update_of_ne hj]
      exact h.registered t j hlast

/-- The client of the handle, if the call is allowed and the handle has one. -/
def spokenTo (allowed : Bool) (handle : Option Handle) (client : Handle → Option (ClientObject Pdu)) :
    Option (ClientObject Pdu) :=
  if allowed then handle.bind client else none

theorem withClient_none (h : Refines c client last) {allowed : Bool} {handle : Option Handle}
    (hnone : spokenTo allowed handle client = none)
    (f : ClientObject Pdu → ClientProtocol Pdu × Reply Pdu) :
    withClient allowed f handle c = (c, .failed) := by
  cases allowed with
  | false => rfl
  | true =>
    cases handle with
    | none => rfl
    | some g => simp [withClient, h.client_none hnone]

theorem withClient_some (h : Refines c client last) {allowed : Bool} {handle : Option Handle}
    {o : ClientObject Pdu} (hsome : spokenTo allowed handle client = some o)
    (f : ClientObject Pdu → ClientProtocol Pdu × Reply Pdu) :
    (withClient allowed f handle c).2 = (f o).2 ∧
      Refines (withClient allowed f handle c).1
        (Function.update client o.handle (some { o with protocol := (f o).1 })) last := by
  cases allowed with
  | false => cases hsome
  | true =>
    cases handle with
    | none => cases hsome
    | some g =>
      obtain ⟨s, i, hpointer, hobject, rfl⟩ := h.client_some (show client g = some o from hsome)
      have hdone : withClient true f (some o.handle) c =
          ({ c with objects := c.objects.set i { o with protocol := (f o).1 } }, (f o).2) := by
        simp [withClient, hpointer, hobject]
      rw [hdone]
      exact ⟨rfl, h.set hpointer hobject rfl rfl⟩

theorem Refines.create (h : Refines c client last) {i : Initialized}
    (hid : ¬ i.handle.serviceId < 0) :
    Refines (serviceClientCreate false (some i) c).1
      (Function.update client i.handle (some i.object))
      (Function.update last i.handle.serviceId (some i.handle.clientId)) := by
  simp only [serviceClientCreate, hid, if_false, Bool.false_eq_true]
  constructor
  case clients =>
    intro g
    by_cases hg : g = i.handle
    · subst hg
      simp
    · have hkey := makeServiceClientKey_injective.ne hg
      simp only [Function.update_of_ne hg, Function.update_of_ne hkey, h.clients]
      cases hp : c.serviceClients (makeServiceClientKey g) with
      | none => rfl
      | some p =>
        obtain ⟨o, ho, -⟩ := h.owned _ p hp
        obtain ⟨hlt, -⟩ := List.getElem?_eq_some_iff.mp ho
        simp only [Option.bind_some, List.getElem?_append_left hlt]
  case owned =>
    intro k p hp
    by_cases hk : k = makeServiceClientKey i.handle
    · subst hk
      obtain rfl : (_, _) = p := by simpa using hp
      exact ⟨i.object, by simp, rfl⟩
    · change Function.update c.serviceClients _ _ k = some p at hp
      rw [Function.update_of_ne hk] at hp
      obtain ⟨o, ho, hkey⟩ := h.owned k p hp
      obtain ⟨hlt, -⟩ := List.getElem?_eq_some_iff.mp ho
      exact ⟨o, by rw [List.getElem?_append_left hlt, ho], hkey⟩
  case services =>
    intro s
    by_cases hs : s = i.handle.serviceId
    · subst hs
      simp
    · have hkey : ∀ j, makeServiceClientKey ⟨s, j⟩ ≠ makeServiceClientKey i.handle := fun j heq =>
        hs (congrArg Handle.serviceId (makeServiceClientKey_injective heq))
      simp only [Function.update_of_ne hs, Function.update_of_ne (hkey _), h.services]
  case registered =>
    intro s j hlast
    by_cases hg : (⟨s, j⟩ : Handle) = i.handle
    · rw [hg, Function.update_self]
      nofun
    · rw [Function.update_of_ne hg]
      by_cases hs : s = i.handle.serviceId
      · subst hs
        rw [Function.update_self] at hlast
        exact absurd (congrArg (Handle.mk i.handle.serviceId) (Option.some.inj hlast)).symm hg
      · rw [Function.update_of_ne hs] at hlast
        exact h.registered s j hlast

theorem serviceClientCreate_of_made_none {nullArgument : Bool} {init : Option Initialized}
    (hmade : made nullArgument init = none) (c : Clients Pdu) :
    serviceClientCreate nullArgument init c = (c, .failed) := by
  cases nullArgument with
  | true => rfl
  | false =>
    cases init with
    | none => rfl
    | some i =>
      have hid : i.handle.serviceId < 0 := by simpa [made, Option.filter] using hmade
      simp [serviceClientCreate, hid]

theorem of_made_some {nullArgument : Bool} {init : Option Initialized} {i : Initialized}
    (hmade : made nullArgument init = some i) :
    nullArgument = false ∧ init = some i ∧ ¬ i.handle.serviceId < 0 := by
  cases nullArgument with
  | true => cases hmade
  | false =>
    obtain ⟨hinit, hid⟩ := Option.filter_eq_some_iff.mp hmade
    exact ⟨rfl, hinit, Int32.not_lt.mpr (by simpa using hid)⟩

theorem handleOp_perform (conv : Convertors Pdu) (w : SharedView Pdu) (op : HandleOp Pdu) :
    op.perform conv w = withClient (op.allowed w) fun o => op.apply conv w o := by
  cases op <;> rfl

theorem serviceClientGetChannelId_reply (h : Refines c client last) (w : SharedView Pdu)
    (s : Int32) (nullArgument : Bool) :
    serviceClientGetChannelId w s nullArgument c =
      (c, if nullArgument then .failed
        else
          match (last s).bind fun j => client ⟨s, j⟩ with
          | none => .failed
          | some o => o.channels w) := by
  cases nullArgument with
  | true => rfl
  | false =>
    cases hlast : last s with
    | none => simp [serviceClientGetChannelId, h.services, hlast]
    | some j =>
      obtain ⟨o, ho⟩ := Option.ne_none_iff_exists'.mp (h.registered s j hlast)
      obtain ⟨t, i, hpointer, hobject, -⟩ := h.client_some ho
      simp [serviceClientGetChannelId, h.services, hlast, hpointer, hobject, ho]

theorem onHandle_family (conv : Convertors Pdu) (op : HandleOp Pdu) (g : Handle)
    (w : SharedView Pdu) (client : Handle → Option (ClientObject Pdu)) :
    familyStep ApiCall.handle? (handleStep conv) client (.onHandle op (some g) w) =
      Function.update client g (handleStep conv (client g) (.onHandle op (some g) w)) := by
  have hkey : (ApiCall.onHandle op (some g) w).handle? = some g := rfl
  rw [familyStep_some hkey]

theorem onHandle_refines (h : Refines c client last) (conv : Convertors Pdu) (op : HandleOp Pdu)
    (handle : Option Handle) (w : SharedView Pdu) :
    Refines (clientsStep conv c (.onHandle op handle w))
      (familyStep ApiCall.handle? (handleStep conv) client (.onHandle op handle w)) last := by
  change Refines (op.perform conv w handle c).1 _ _
  rw [handleOp_perform]
  cases hspoken : spokenTo (op.allowed w) handle client with
  | none =>
    rw [withClient_none h hspoken]
    cases handle with
    | none => exact h
    | some g =>
      have hsame : handleStep conv (client g) (.onHandle op (some g) w) = client g := by
        cases hallowed : op.allowed w with
        | false => simp [handleStep, hallowed]
        | true =>
          have hnone : client g = none := by simpa [spokenTo, hallowed] using hspoken
          simp [handleStep, hnone]
      rw [onHandle_family, hsame, Function.update_eq_self]
      exact h
  | some o =>
    have hstep := (withClient_some h hspoken fun o => op.apply conv w o).2
    cases handle with
    | none => cases hallowed : op.allowed w <;> simp [spokenTo, hallowed] at hspoken
    | some g =>
      cases hallowed : op.allowed w with
      | false => simp [spokenTo, hallowed] at hspoken
      | true =>
        have hsome : client g = some o := by simpa [spokenTo, hallowed] using hspoken
        obtain ⟨-, -, -, -, rfl⟩ := h.client_some hsome
        have hnext : handleStep conv (client o.handle) (.onHandle op (some o.handle) w) =
            some { o with protocol := (op.apply conv w o).1 } := by
          simp [handleStep, hallowed, hsome]
        rw [onHandle_family, hnext, ← hallowed]
        exact hstep

theorem clientsStep_refines (h : Refines c client last) (conv : Convertors Pdu) (k : ApiCall Pdu) :
    Refines (clientsStep conv c k) (familyStep ApiCall.handle? (handleStep conv) client k)
      (familyStep ApiCall.service? latestStep last k) := by
  cases k with
  | create nullArgument init =>
    cases hmade : made nullArgument init with
    | none =>
      have hsame : clientsStep conv c (.create nullArgument init) = c :=
        congrArg Prod.fst (serviceClientCreate_of_made_none hmade c)
      rw [hsame, familyStep_none (by simp [ApiCall.handle?, hmade]),
        familyStep_none (by simp [ApiCall.service?, hmade])]
      exact h
    | some i =>
      have hhandle : handleStep conv (client i.handle) (.create nullArgument init) =
          some i.object := by simp only [handleStep, hmade]
      have hlatest : latestStep (last i.handle.serviceId) (.create nullArgument init : ApiCall Pdu) =
          some i.handle.clientId := by simp only [latestStep, hmade]
      rw [familyStep_some (k := i.handle) (by simp [ApiCall.handle?, hmade]), hhandle,
        familyStep_some (k := i.handle.serviceId) (by simp [ApiCall.service?, hmade]), hlatest]
      obtain ⟨rfl, rfl, hid⟩ := of_made_some hmade
      exact h.create hid
  | getChannelId s nullArgument w =>
    have hsame : clientsStep conv c (.getChannelId s nullArgument w) = c :=
      congrArg Prod.fst (serviceClientGetChannelId_reply h w s nullArgument)
    rw [hsame]
    exact h
  | onHandle op handle w => exact onHandle_refines h conv op handle w

theorem run_refines (conv : Convertors Pdu) (calls : List (ApiCall Pdu))
    (h : Refines c client last) :
    Refines (run (clientsStep conv) c calls)
      (run (familyStep ApiCall.handle? (handleStep conv)) client calls)
      (run (familyStep ApiCall.service? latestStep) last calls) := by
  induction calls generalizing c client last with
  | nil => exact h
  | cons k calls ih => exact ih (clientsStep_refines h conv k)

end

theorem alone_refines (conv : Convertors Pdu) (calls : List (ApiCall Pdu)) :
    Refines (run (clientsStep conv) .empty calls) (fun h => alone conv h calls)
      fun s => latest s calls := by
  have hrun := run_refines conv calls refines_empty
  have hclient : run (familyStep ApiCall.handle? (handleStep conv)) (fun _ => none) calls =
      fun h => alone conv h calls := funext fun h => run_family _ calls h
  have hlast : run (familyStep ApiCall.service? latestStep) (fun _ => none) calls =
      fun s => latest s calls := funext fun s => run_family _ calls s
  rwa [hclient, hlast] at hrun

/-- Whatever was called before, in whatever order and on whatever handles: a call on a handle is
answered as by a client that has only ever got the calls on this handle, since its last creation
a new one, and a question for the channels of a service as by the client created last for it. -/
theorem clients_reply_alone (conv : Convertors Pdu) (calls : List (ApiCall Pdu)) (k : ApiCall Pdu) :
    (perform conv (run (clientsStep conv) .empty calls) k).2 = aloneReply conv calls k := by
  have h := alone_refines conv calls
  cases k with
  | create nullArgument init =>
    cases hmade : made nullArgument init with
    | none => simp [perform, aloneReply, hmade, serviceClientCreate_of_made_none hmade]
    | some i =>
      obtain ⟨rfl, rfl, hid⟩ := of_made_some hmade
      simp [perform, aloneReply, hmade, serviceClientCreate, hid]
  | getChannelId s nullArgument w =>
    exact congrArg Prod.snd (serviceClientGetChannelId_reply h w s nullArgument)
  | onHandle op handle w =>
    change (op.perform conv w handle _).2 = _
    rw [handleOp_perform, aloneReply]
    cases hspoken : spokenTo (op.allowed w) handle fun g => alone conv g calls with
    | none =>
      rw [withClient_none h hspoken]
      unfold spokenTo at hspoken
      rw [hspoken]
    | some o =>
      rw [(withClient_some h hspoken _).1]
      unfold spokenTo at hspoken
      rw [hspoken]

end ClientHandles
end HakoniwaCorePro
