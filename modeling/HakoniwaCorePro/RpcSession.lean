import HakoniwaCorePro.Exchange
import HakoniwaCorePro.ServiceBus
import HakoniwaCorePro.ServiceClient

/-!
# A server and its clients

The server, one client for each slot, and the channels between them, in one run of the
simulation. No request id is ever compared by the code; that each response ends the request
it belongs to rests on what the slots can hold together, which `Link` says phase by phase.
-/

namespace HakoniwaCorePro
namespace Service

open RecvEvent Runs

/-- The service, its clients, and whether the application still owes a response. -/
structure RpcState (Pdu : Type) extends ServiceState Pdu where
  clients : ℕ → ClientProtocol Pdu
  owed : Bool

inductive RpcAction (Pdu : Type)
  | request (clientId : ℕ) (time timeoutMsec : ℤ) (p : Pdu)
  | cancelRequest (clientId : ℕ)
  | pollClient (clientId : ℕ) (time : ℤ)
  | poll (time : ℤ)
  | putResponse (p : Pdu)

structure RpcEvent where
  clientId : ℕ
  event : Exchange.Event ℕ
  deriving DecidableEq

def slotEvents (j : ℕ) (h : List RpcEvent) : List (Exchange.Event ℕ) :=
  h.filterMap fun e => if e.clientId = j then some e.event else none

section

variable {Pdu : Type} (u : Setup Pdu)

def Setup.clientView (time : ℤ) (j : ℕ) (b : Bus Pdu) : ClientView Pdu :=
  ⟨time, (u.get (.response j) b).2, u.accepts (.request j) b⟩

/-- The packet that a client hands to `put_request`, on the bus. -/
def Setup.submit (j : ℕ) (sent : Option Pdu) (b : Bus Pdu) : Bus Pdu :=
  match sent with
  | none => b
  | some p => (u.put (.request j) p b).1

def Setup.request (j : ℕ) (time timeoutMsec : ℤ) (p : Pdu) (s : RpcState Pdu) : Requested Pdu :=
  (s.clients j).request u.conv u.generation (u.clientView time j s.bus) p timeoutMsec

def Setup.cancelRequest (j : ℕ) (s : RpcState Pdu) : Requested Pdu :=
  (s.clients j).cancelRequest u.conv (u.clientView 0 j s.bus)

def Setup.pollClient (j : ℕ) (time : ℤ) (s : RpcState Pdu) : ClientProtocol Pdu × ClientEvent :=
  (s.clients j).poll u.conv u.generation (u.clientView time j s.bus)

def Setup.rpcStep (s : RpcState Pdu) : RpcAction Pdu → RpcState Pdu
  | .request j time timeoutMsec p =>
    let r := u.request j time timeoutMsec p s
    { s with
      bus := u.submit j r.sent s.bus
      clients := Function.update s.clients j r.protocol }
  | .cancelRequest j =>
    let r := u.cancelRequest j s
    { s with
      bus := u.submit j r.sent s.bus
      clients := Function.update s.clients j r.protocol }
  | .pollClient j time =>
    { s with
      bus := if (s.clients j).looks u.generation then (u.get (.response j) s.bus).1 else s.bus
      clients := Function.update s.clients j (u.pollClient j time s).1 }
  | .poll time =>
    let r := u.poll time s.toServiceState
    ⟨r.1, s.clients, s.owed || r.2 == .requestIn⟩
  | .putResponse p =>
    let r := u.putResponse p s.toServiceState
    ⟨r.1, s.clients, s.owed && !r.2⟩

def Setup.waitingId (j : ℕ) (b : Bus Pdu) : ℕ :=
  (((u.get (.request j) b).2.bind u.conv.request.pdu2cpp).map (·.requestId)).getD 0

/-- A request that was sent; a request or its cancellation that the server has taken; a response
that was written; a final event at the client. -/
def Setup.rpcEvents (s : RpcState Pdu) : RpcAction Pdu → List RpcEvent
  | .request j time timeoutMsec p =>
    let r := u.request j time timeoutMsec p s
    if r.returned then [⟨j, .requested r.protocol.requestHeader.requestId⟩] else []
  | .cancelRequest _ => []
  | .pollClient j time =>
    let r := u.pollClient j time s
    if r.2 = .responseIn ∨ r.2 = .requestCancelDone then
      [⟨j, .finished r.1.responseHeader.requestId⟩]
    else []
  | .poll time =>
    let j := u.turn s.protocol
    match (u.poll time s.toServiceState).2 with
    | .none => []
    | .requestIn => [⟨j, .accepted (u.waitingId j s.bus)⟩]
    | .requestCancel => [⟨j, .canceled (u.waitingId j s.bus)⟩]
  | .putResponse p =>
    match (replyToCurrentRequest u.generation (u.view 0 (fun _ => none) s.bus) p s.protocol).sent with
    | none => []
    | some r =>
      if r.accepted then
        [⟨r.clientId, .replied (((u.conv.response.pdu2cpp r.packet).map (·.requestId)).getD 0)⟩]
      else []

/-- Clients ask while they are IDLE, without a status poll interval, and with the header that
`get_request_buffer` gave them; the application answers each `REQUEST_IN` once, as DONE, with
the header of `get_response_buffer`. -/
def Legal (s : RpcState Pdu) : RpcAction Pdu → Prop
  | .request j _ _ p =>
    j < u.entry.maxClients ∧ (s.clients j).state = .idle ∧ ∃ interval ≤ 0,
      u.conv.request.pdu2cpp p = some (setRequestHeader .request interval (s.clients j))
  | .cancelRequest j => j < u.entry.maxClients
  | .pollClient j _ => j < u.entry.maxClients
  | .poll _ => True
  | .putResponse p =>
    s.owed = true ∧ ∃ code, u.conv.response.pdu2cpp p =
      some (setResponseHeader (u.view 0 (fun _ => none) s.bus) s.protocol .done code)

/-- All slots are registered, and the headers of the service's own requests can be read back. -/
structure Setup.Registered (name : Name) : Prop where
  enabled : ∀ j < u.entry.maxClients, (u.entry.clientChannelMap j).enabled = true
  roundTrip : ∀ h p, h.serviceName = name →
    (∃ j < u.entry.maxClients, h.clientName = u.entry.getClientName j) →
    u.conv.request.cpp2pdu h = some p → u.conv.request.pdu2cpp p = some h

structure Setup.Knows (name : Name) (j : ℕ) (c : ClientProtocol Pdu) : Prop where
  serviceName : c.client.serviceName = name
  clientName : c.client.clientName = u.entry.getClientName j
  generation : c.runGeneration = u.generation

/-- At the beginning of a run nothing is on its way. -/
structure Setup.Fresh (name : Name) (s : RpcState Pdu) : Prop where
  wired : u.Wired s.bus
  empty : ∀ x, x.slot < u.entry.maxClients → u.box s.bus x = none
  protocol : s.protocol = .initial name u.entry.maxClients u.generation
  owed : s.owed = false
  clients : ∀ j < u.entry.maxClients, u.Knows name j (s.clients j) ∧ (s.clients j).state = .idle

end

/-- One slot: its client, its two channels, the server's state for it, and the request header
while the turn is here. -/
structure SlotView (Pdu : Type) where
  client : ClientProtocol Pdu
  request : Option Pdu
  response : Option Pdu
  state : ServerState
  current : Option RequestHeader

section

variable {Pdu : Type} (u : Setup Pdu) (name : Name)

def Setup.slot (s : RpcState Pdu) (j : ℕ) : SlotView Pdu where
  client := s.clients j
  request := u.box s.bus (.request j)
  response := u.box s.bus (.response j)
  state := s.protocol.server.state j
  current := if s.protocol.currentClientId = j then some s.protocol.requestHeader else none

def HoldsRequest (q : Option Pdu) (id : ℕ) : Prop :=
  ∃ h p, u.judge name q = .valid h p ∧ h.opcode = OperationCode.request.code ∧ h.requestId = id ∧
    h.statusPollIntervalMsec ≤ 0

def HoldsCancel (q : Option Pdu) (id : ℕ) : Prop :=
  ∃ h p, u.judge name q = .valid h p ∧ h.opcode = OperationCode.cancel.code ∧ h.requestId = id

def HoldsResponse (c : ServiceClient) (r : Option Pdu) (id : ℕ) : Prop :=
  ∃ h p, r = some p ∧ u.conv.response.pdu2cpp p = some h ∧ validateResponseHeader c h = true ∧
    h.status = ServiceStatus.done.code ∧ h.requestId = id

/-- The server serves the request `id` of this slot. -/
def SlotView.Serves (v : SlotView Pdu) (id : ℕ) : Prop :=
  ∃ h, v.current = some h ∧ h.requestId = id ∧ h.statusPollIntervalMsec ≤ 0

/-- What the slot holds in each phase of an exchange. A `CANCEL` can be left over from the
request before, but then the next request cannot be sent yet. -/
def Link (v : SlotView Pdu) : Exchange.Phase ℕ → Prop
  | .idle => v.client.state = .idle ∧ v.state = .idle ∧ v.response = none ∧
      (v.request = none ∨ ∃ id, HoldsCancel u name v.request id)
  | .sent id => v.client.state = .doing ∧ v.state = .idle ∧ v.response = none ∧
      HoldsRequest u name v.request id ∧ uint32 v.client.requestId = id
  | .serving id => v.state = .doing ∧ v.response = none ∧ v.Serves id ∧
      uint32 v.client.requestId = id ∧
      (v.client.state = .doing ∧ v.request = none ∨
        v.client.state = .canceling ∧ HoldsCancel u name v.request id)
  | .canceling id => v.state = .canceling ∧ v.response = none ∧ v.Serves id ∧
      v.client.state = .canceling ∧ v.request = none
  | .answered id => v.state = .idle ∧ HoldsResponse u v.client.client v.response id ∧
      (v.client.state = .doing ∧ v.request = none ∨
        v.client.state = .canceling ∧ (v.request = none ∨ ∃ x, HoldsCancel u name v.request x))

/-- The server is in the present run, every slot is linked to its phase, and what is owed is the
request of the slot with the turn. -/
structure RpcInv (s : RpcState Pdu) (ph : ℕ → Exchange.Phase ℕ) : Prop where
  wired : u.Wired s.bus
  ok : ServerOk u.entry.maxClients s.protocol
  generation : s.protocol.runGeneration = u.generation
  serviceName : s.protocol.server.serviceName = name
  knows : ∀ j < u.entry.maxClients, u.Knows name j (s.clients j)
  link : ∀ j < u.entry.maxClients, Link u name (u.slot s j) (ph j)
  owes : s.owed = true → s.protocol.currentState ≠ .idle

end

end Service
end HakoniwaCorePro
