import HakoniwaCorePro.ServiceProtocol

/-!
# The service client

`HakoServiceClient` and `HakoServiceClientProtocol`. A function gets, besides the client, the
shared run generation `g` where it looks at it, and a `ClientView`: what the shared memory
answers during the call.
-/

namespace HakoniwaCorePro
namespace Service

inductive ClientState
  | idle | doing | canceling
  deriving DecidableEq

/-- `HakoServiceClient` -/
structure ServiceClient where
  serviceName : Name
  clientName : Name
  state : ClientState

/-- As for the server, `none` is the refusal of an event. -/
def ServiceClient.eventStartService (c : ServiceClient) : Option ServiceClient :=
  if c.state ≠ .idle then none else some { c with state := .doing }

def ServiceClient.eventDoneService (c : ServiceClient) : Option ServiceClient :=
  if c.state ≠ .doing ∧ c.state ≠ .canceling then none else some { c with state := .idle }

def ServiceClient.eventCancelService (c : ServiceClient) : Option ServiceClient :=
  if c.state ≠ .doing then none else some { c with state := .canceling }

def ServiceClient.resetRunState (c : ServiceClient) : ServiceClient := { c with state := .idle }

/-- `HakoServiceClientProtocol` -/
structure ClientProtocol (Pdu : Type) where
  client : ServiceClient
  requestHeader : RequestHeader
  responseHeader : ResponseHeader
  responseUserBuffer : Option Pdu
  percentage : ℕ
  requestId : ℤ
  timeoutMsec : ℤ
  heartbeatConfirmedTime : ℤ
  lastPollTime : ℤ
  runGeneration : ℕ

/-- What the shared memory answers during one call: the world time, the packet on the response
channel, and whether a request can be written. -/
structure ClientView (Pdu : Type) where
  worldTimeUsec : ℤ
  getResponse : Option Pdu
  putRequest : Bool

inductive ClientEvent
  | none | responseIn | requestTimeout | requestCancelDone
  deriving DecidableEq

/-- The outcome of `recv_response`. -/
inductive ReceivedResponse (Pdu : Type)
  | nothing
  | rejected
  | valid (header : ResponseHeader) (packet : Pdu)

section

variable {Pdu : Type}

abbrev ClientProtocol.state (c : ClientProtocol Pdu) : ClientState := c.client.state

def validateResponseHeader (c : ServiceClient) (h : ResponseHeader) : Bool :=
  h.serviceName == c.serviceName && h.clientName == c.clientName &&
    decide (h.resultCode < resultCodeNum)

def recvResponse (conv : Convertors Pdu) (v : ClientView Pdu) (c : ClientProtocol Pdu) :
    ReceivedResponse Pdu :=
  match v.getResponse with
  | none => .nothing
  | some p =>
    match conv.response.pdu2cpp p with
    | none => .rejected
    | some h => if validateResponseHeader c.client h then .valid h p else .rejected

/-- `copy_user_buffer` of the client -/
def copyResponse (h : ResponseHeader) (p : Pdu) (c : ClientProtocol Pdu) : ClientProtocol Pdu :=
  { c with responseUserBuffer := some p, responseHeader := h }

def ClientProtocol.resetIfNewRun (g : ℕ) (c : ClientProtocol Pdu) : ClientProtocol Pdu :=
  if g = c.runGeneration then c
  else
    { c with
      client := c.client.resetRunState
      percentage := 0
      lastPollTime := 0
      heartbeatConfirmedTime := 0
      runGeneration := g }

/-- The time is kept in an `int`, and the timeout multiplied as one. -/
def isHeartbeatTimeout (v : ClientView Pdu) (c : ClientProtocol Pdu) : Bool :=
  decide (c.timeoutMsec > 0) &&
    decide (v.worldTimeUsec - c.heartbeatConfirmedTime > int32 (c.timeoutMsec * 1000))

/-- The end of a request: the response is kept, and the next request has the next id. -/
def finishRequest (h : ResponseHeader) (p : Pdu) (c : ClientProtocol Pdu) : ClientProtocol Pdu :=
  let c' := copyResponse h p c
  { c' with
    client := c'.client.eventDoneService.getD c'.client
    requestId := c'.requestId + 1 }

/-- The branches of `poll` for a packet with a valid header. -/
def pollResponse (v : ClientView Pdu) (h : ResponseHeader) (p : Pdu) (c : ClientProtocol Pdu) :
    ClientProtocol Pdu × ClientEvent :=
  let event := if h.resultCode = ResultCode.canceled.code then .requestCancelDone else .responseIn
  let c' := { c with heartbeatConfirmedTime := int32 v.worldTimeUsec }
  if h.status = ServiceStatus.done.code then (finishRequest h p c', event)
  else if h.status = ServiceStatus.error.code then (finishRequest h p c', event)
  else if h.status = ServiceStatus.doing.code then
    if c.requestHeader.statusPollIntervalMsec > 0 then
      let due := c.lastPollTime = 0 ∨ v.worldTimeUsec - c.lastPollTime >
        int32 (c.requestHeader.statusPollIntervalMsec * 1000)
      ({ c' with
          percentage := if due then h.processingPercentage else c.percentage
          lastPollTime := v.worldTimeUsec }, .none)
    else (c', .none)
  else (c', .none)

/-- Whether `poll` looks at the response channel at all. -/
def ClientProtocol.looks (g : ℕ) (c : ClientProtocol Pdu) : Bool :=
  (c.resetIfNewRun g).state != .idle

/-- `poll` after `reset_if_new_run`. -/
def ClientProtocol.pollCurrent (conv : Convertors Pdu) (v : ClientView Pdu)
    (c : ClientProtocol Pdu) : ClientProtocol Pdu × ClientEvent :=
  if c.state = .idle then (c, .none)
  else
    match recvResponse conv v c with
    | .rejected => (c, .none)
    | .nothing =>
      if c.state ≠ .canceling ∧ isHeartbeatTimeout v c then (c, .requestTimeout) else (c, .none)
    | .valid h p => pollResponse v h p c

def ClientProtocol.poll (conv : Convertors Pdu) (g : ℕ) (v : ClientView Pdu)
    (c : ClientProtocol Pdu) : ClientProtocol Pdu × ClientEvent :=
  (c.resetIfNewRun g).pollCurrent conv v

def setRequestHeader (opcode : OperationCode) (pollIntervalMsec : ℤ) (c : ClientProtocol Pdu) :
    RequestHeader where
  requestId := uint32 c.requestId
  serviceName := c.client.serviceName
  clientName := c.client.clientName
  opcode := opcode.code
  statusPollIntervalMsec := pollIntervalMsec

/-- `get_request_buffer` -/
def getRequestBuffer (conv : Convertors Pdu) (opcode : OperationCode) (pollIntervalMsec : ℤ)
    (c : ClientProtocol Pdu) : Option Pdu :=
  conv.request.cpp2pdu (setRequestHeader opcode pollIntervalMsec c)

/-- The new client, the packet that was handed to `put_request`, and what the caller is told. -/
structure Requested (Pdu : Type) where
  protocol : ClientProtocol Pdu
  sent : Option Pdu
  returned : Bool

/-- A packet that `pdu2cpp` cannot read is sent all the same: its result is compared with 0. -/
def ClientProtocol.request (conv : Convertors Pdu) (g : ℕ) (v : ClientView Pdu)
    (p : Pdu) (timeoutMsec : ℤ) (c : ClientProtocol Pdu) : Requested Pdu :=
  let c' := c.resetIfNewRun g
  if v.putRequest then
    ⟨{ c' with
        timeoutMsec := timeoutMsec
        lastPollTime := 0
        heartbeatConfirmedTime := int32 v.worldTimeUsec
        requestHeader := (conv.request.pdu2cpp p).getD .empty
        client := c'.client.eventStartService.getD c'.client }, some p, true⟩
  else ⟨c', some p, false⟩

/-- The packet of `send_request`, made by the library. -/
def ClientProtocol.cancelRequest (conv : Convertors Pdu) (v : ClientView Pdu)
    (c : ClientProtocol Pdu) : Requested Pdu :=
  if c.state ≠ .doing then ⟨c, none, false⟩
  else
    match conv.request.cpp2pdu (setRequestHeader .cancel (-1) c) with
    | none => ⟨c, none, false⟩
    | some p =>
      if v.putRequest then
        ⟨{ c with client := c.client.eventCancelService.getD c.client }, some p, true⟩
      else ⟨c, some p, false⟩

end

end Service
end HakoniwaCorePro
