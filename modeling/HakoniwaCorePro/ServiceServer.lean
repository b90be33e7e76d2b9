import HakoniwaCorePro.ServiceProtocol
import HakoniwaCorePro.Turn

/-!
# The service server

`HakoServiceServer` and `HakoServiceServerProtocol`. A function gets, besides the server, the
shared run generation `g` and a `ServerView`: what the shared memory answers during the call.
It returns the new server and the response that was put, if any.
-/

namespace HakoniwaCorePro
namespace Service

inductive ServerState
  | idle | doing | canceling
  deriving DecidableEq

/-- `HakoServiceServer`: one state for each client, and whose turn it is. -/
structure ServiceServer where
  serviceName : Name
  maxClients : ℕ
  currentClientId : ℕ
  state : ℕ → ServerState

def ServiceServer.getState (s : ServiceServer) : ServerState := s.state s.currentClientId

def ServiceServer.nextClient (s : ServiceServer) : ServiceServer :=
  { s with currentClientId := Turn.next s.maxClients s.currentClientId }

def ServiceServer.resetRunState (s : ServiceServer) : ServiceServer :=
  { s with currentClientId := 0, state := fun _ => .idle }

/-- The three events change the state of one client; `none` is the refusal, which changes
nothing. -/
def ServiceServer.eventStartService (j : ℕ) (s : ServiceServer) : Option ServiceServer :=
  if j ≥ s.maxClients then none
  else if s.state j ≠ .idle then none
  else some { s with state := Function.update s.state j .doing }

def ServiceServer.eventDoneService (j : ℕ) (s : ServiceServer) : Option ServiceServer :=
  if j ≥ s.maxClients then none
  else if s.state j ≠ .doing ∧ s.state j ≠ .canceling then none
  else some { s with state := Function.update s.state j .idle }

def ServiceServer.eventCancelService (j : ℕ) (s : ServiceServer) : Option ServiceServer :=
  if j ≥ s.maxClients then none
  else if s.state j ≠ .doing then none
  else some { s with state := Function.update s.state j .canceling }

/-- `HakoServiceServerProtocol`; the buffers of one request serve all clients. -/
structure ServerProtocol (Pdu : Type) where
  server : ServiceServer
  requestHeader : RequestHeader
  requestUserBuffer : Option Pdu
  percentage : ℤ
  lastPollTime : ℤ
  runGeneration : ℕ
  requestGeneration : ℕ

/-- What the shared memory answers during one call: the world time, the service's entry, the
packet on each client's request channel, and whether a response can be written to it. -/
structure ServerView (Pdu : Type) where
  worldTimeUsec : ℤ
  entry : ServiceEntry
  getRequest : ℕ → Option Pdu
  putResponse : ℕ → Bool

/-- A response handed to `put_response`, and its answer. -/
structure Sent (Pdu : Type) where
  clientId : ℕ
  packet : Pdu
  accepted : Bool
  deriving DecidableEq

inductive ServerEvent
  | none | requestIn | requestCancel
  deriving DecidableEq

/-- The outcome of `recv_request`. -/
inductive Received (Pdu : Type)
  | nothing
  | rejected
  | valid (header : RequestHeader) (packet : Pdu)
  deriving DecidableEq

section

variable {Pdu : Type}

/-- The new server, and the response that was put on the way. -/
structure Replied (Pdu : Type) where
  protocol : ServerProtocol Pdu
  sent : Option (Sent Pdu)

structure Polled (Pdu : Type) extends Replied Pdu where
  event : ServerEvent

abbrev ServerProtocol.currentClientId (s : ServerProtocol Pdu) : ℕ := s.server.currentClientId

abbrev ServerProtocol.currentState (s : ServerProtocol Pdu) : ServerState := s.server.getState

def validateRequestHeader (v : ServerView Pdu) (s : ServerProtocol Pdu) (h : RequestHeader) :
    Bool :=
  h.serviceName == s.server.serviceName && v.entry.isExistClient h.clientName &&
    decide (h.opcode < operationNum)

def recvRequest (conv : Convertors Pdu) (v : ServerView Pdu) (s : ServerProtocol Pdu)
    (j : ℕ) : Received Pdu :=
  if j ≥ s.server.maxClients then .nothing
  else
    match v.getRequest j with
    | none => .nothing
    | some p =>
      match conv.request.pdu2cpp p with
      | none => .rejected
      | some h => if validateRequestHeader v s h then .valid h p else .rejected

/-- `copy_user_buffer` of the server -/
def copyRequest (h : RequestHeader) (p : Pdu) (s : ServerProtocol Pdu) : ServerProtocol Pdu :=
  { s with requestUserBuffer := some p, requestHeader := h, requestGeneration := s.runGeneration }

def ServerProtocol.resetIfNewRun (g : ℕ) (s : ServerProtocol Pdu) : ServerProtocol Pdu :=
  if g = s.runGeneration then s
  else
    { s with
      server := s.server.resetRunState
      requestHeader := .empty
      percentage := 0
      lastPollTime := 0
      runGeneration := g }

def setResponseHeader (v : ServerView Pdu) (s : ServerProtocol Pdu) (status : ServiceStatus)
    (code : ResultCode) : ResponseHeader where
  requestId := s.requestHeader.requestId
  serviceName := s.server.serviceName
  clientName := v.entry.getClientName s.currentClientId
  status := status.code
  processingPercentage := uint8 s.percentage
  resultCode := code.code

/-- Whether `put_response` for the current client is going to work. -/
def canPut (v : ServerView Pdu) (s : ServerProtocol Pdu) : Bool :=
  decide (s.currentClientId < s.server.maxClients) && v.putResponse s.currentClientId

/-- The turn is passed on whether the write worked or not. -/
def reply (v : ServerView Pdu) (p : Pdu) (s : ServerProtocol Pdu) : Replied Pdu :=
  let server := if canPut v s then (s.server.eventDoneService s.currentClientId).getD s.server
    else s.server
  ⟨{ s with server := server.nextClient }, some ⟨s.currentClientId, p, canPut v s⟩⟩

def sendResponse (conv : Convertors Pdu) (v : ServerView Pdu) (status : ServiceStatus)
    (code : ResultCode) (s : ServerProtocol Pdu) : Replied Pdu :=
  match conv.response.cpp2pdu (setResponseHeader v s status code) with
  | none => ⟨s, none⟩
  | some p => reply v p s

/-- `get_response_buffer` -/
def getResponseBuffer (conv : Convertors Pdu) (v : ServerView Pdu) (status : ServiceStatus)
    (code : ResultCode) (s : ServerProtocol Pdu) : Option Pdu :=
  conv.response.cpp2pdu (setResponseHeader v s status code)

/-- `reply()` for the application: there must be a request in progress, of this run. -/
def canReply (g : ℕ) (s : ServerProtocol Pdu) : Bool :=
  g == s.requestGeneration && (s.currentState == .doing || s.currentState == .canceling)

def replyToCurrentRequest (g : ℕ) (v : ServerView Pdu) (p : Pdu) (s : ServerProtocol Pdu) :
    Replied Pdu :=
  if canReply g s then reply v p s else ⟨s, none⟩

/-- What the application learns of its `put_response`. -/
def Replied.returned (r : Replied Pdu) : Bool := r.sent.any (·.accepted)

def cancelDone (conv : Convertors Pdu) (v : ServerView Pdu) (s : ServerProtocol Pdu) :
    Replied Pdu :=
  let r := sendResponse conv v .done .canceled s
  let server := (r.protocol.server.eventDoneService r.protocol.currentClientId).getD
    r.protocol.server
  ⟨{ r.protocol with server := server.nextClient }, r.sent⟩

def putProgress (percentage : ℤ) (s : ServerProtocol Pdu) : ServerProtocol Pdu :=
  { s with percentage := percentage }

/-- The interval is multiplied as an `int`. -/
def progressDue (v : ServerView Pdu) (s : ServerProtocol Pdu) : Bool :=
  decide (s.lastPollTime = 0) ||
    decide (v.worldTimeUsec - s.lastPollTime > int32 (s.requestHeader.statusPollIntervalMsec * 1000))

/-- The branch of `poll` for an empty request channel. -/
def pollNothing (conv : Convertors Pdu) (v : ServerView Pdu) (s : ServerProtocol Pdu) :
    Replied Pdu :=
  if s.currentState = .doing ∧ s.requestHeader.statusPollIntervalMsec > 0 then
    let r := if progressDue v s then sendResponse conv v .doing .ok s else ⟨s, none⟩
    ⟨{ r.protocol with lastPollTime := v.worldTimeUsec }, r.sent⟩
  else ⟨s, none⟩

def acceptRequest (h : RequestHeader) (p : Pdu) (s : ServerProtocol Pdu) : ServerProtocol Pdu :=
  let s' := copyRequest h p s
  { s' with
    server := (s'.server.eventStartService s.currentClientId).getD s'.server
    percentage := 0 }

/-- The branches of `poll` for a packet with a valid header. -/
def pollValid (conv : Convertors Pdu) (v : ServerView Pdu) (h : RequestHeader) (p : Pdu)
    (s : ServerProtocol Pdu) : Polled Pdu :=
  match s.currentState with
  | .idle =>
    if h.opcode = OperationCode.request.code then ⟨⟨acceptRequest h p s, none⟩, .requestIn⟩
    else if h.opcode = OperationCode.cancel.code then ⟨⟨s, none⟩, .none⟩
    else ⟨sendResponse conv v .error .invalid s, .none⟩
  | .doing =>
    if h.opcode = OperationCode.cancel.code then
      ⟨⟨{ s with server := (s.server.eventCancelService s.currentClientId).getD s.server }, none⟩,
        .requestCancel⟩
    else ⟨sendResponse conv v .doing .busy s, .none⟩
  | .canceling => ⟨sendResponse conv v .canceling .busy s, .none⟩

/-- `poll` after `reset_if_new_run`. -/
def pollCurrent (conv : Convertors Pdu) (v : ServerView Pdu) (s : ServerProtocol Pdu) :
    Polled Pdu :=
  match recvRequest conv v s s.currentClientId with
  | .rejected => ⟨sendResponse conv v .error .invalid s, .none⟩
  | .nothing => ⟨pollNothing conv v s, .none⟩
  | .valid h p => pollValid conv v h p s

def poll (conv : Convertors Pdu) (g : ℕ) (v : ServerView Pdu) (s : ServerProtocol Pdu) :
    Polled Pdu :=
  pollCurrent conv v (s.resetIfNewRun g)

def getRequest (s : ServerProtocol Pdu) : Option Pdu :=
  if s.currentState = .doing then s.requestUserBuffer else none

/-- A server as `initialize` leaves it in the run `g`. -/
def ServerProtocol.initial (name : Name) (maxClients g : ℕ) : ServerProtocol Pdu where
  server := ⟨name, maxClients, 0, fun _ => .idle⟩
  requestHeader := .empty
  requestUserBuffer := none
  percentage := 0
  lastPollTime := 0
  runGeneration := g
  requestGeneration := 0

end

end Service
end HakoniwaCorePro
