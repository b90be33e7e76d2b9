import HakoniwaCorePro.Runs
import HakoniwaCorePro.ServiceServer

/-!
# What one operation of a service server can do

`reply` and `poll` are taken apart once; every invariant of a server is read off from there.
A server in its surroundings is a `ServerSystem`: the shared run generation, which a start of
the simulation increments, and the server, which learns of it when it polls.
-/

namespace HakoniwaCorePro
namespace Service

open Runs

variable {Pdu : Type}

theorem eventDone_getD {s : ServiceServer} {j : ℕ} (hj : j < s.maxClients) :
    (s.eventDoneService j).getD s = { s with state := Function.update s.state j .idle } := by
  unfold ServiceServer.eventDoneService
  rw [if_neg (by omega)]
  cases hs : s.state j with
  | idle =>
    have hsame : Function.update s.state j .idle = s.state := by rw [← hs, Function.update_eq_self]
    simp [hsame]
  | doing => simp
  | canceling => simp

theorem reply_protocol (v : ServerView Pdu) (p : Pdu) (s : ServerProtocol Pdu) :
    (reply v p s).protocol =
      { s with server := { s.server with
          currentClientId := Turn.next s.server.maxClients s.currentClientId
          state := if canPut v s then Function.update s.server.state s.currentClientId .idle
            else s.server.state } } := by
  cases hc : canPut v s with
  | false => simp [reply, hc, ServiceServer.nextClient]
  | true =>
    have hcur : s.currentClientId < s.server.maxClients := by
      simp only [canPut, Bool.and_eq_true, decide_eq_true_eq] at hc
      exact hc.1
    simp [reply, hc, ServiceServer.nextClient, eventDone_getD hcur]

theorem reply_currentClientId (v : ServerView Pdu) (p : Pdu) (s : ServerProtocol Pdu) :
    (reply v p s).protocol.currentClientId = Turn.next s.server.maxClients s.currentClientId := by
  rw [reply_protocol]

theorem reply_state (v : ServerView Pdu) (p : Pdu) (s : ServerProtocol Pdu) :
    (reply v p s).protocol.server.state =
      if canPut v s then Function.update s.server.state s.currentClientId .idle
      else s.server.state := by
  rw [reply_protocol]

theorem reply_sent (v : ServerView Pdu) (p : Pdu) (s : ServerProtocol Pdu) :
    (reply v p s).sent = some ⟨s.currentClientId, p, canPut v s⟩ := rfl

theorem sendResponse_cases (conv : Convertors Pdu) (v : ServerView Pdu)
    (status : ServiceStatus) (code : ResultCode) (s : ServerProtocol Pdu) :
    (conv.response.cpp2pdu (setResponseHeader v s status code) = none ∧
      sendResponse conv v status code s = ⟨s, none⟩) ∨
    ∃ p, conv.response.cpp2pdu (setResponseHeader v s status code) = some p ∧
      sendResponse conv v status code s = reply v p s := by
  unfold sendResponse
  split
  · next h => exact Or.inl ⟨h, rfl⟩
  · next p h => exact Or.inr ⟨p, h, rfl⟩

/-- The status report that `poll` sends to the current client, if it comes to send one. -/
def report (conv : Convertors Pdu) (v : ServerView Pdu) (s : ServerProtocol Pdu) :
    Option (ServiceStatus × ResultCode) :=
  match recvRequest conv v s s.currentClientId with
  | .rejected => some (.error, .invalid)
  | .nothing =>
    if s.currentState = .doing ∧ s.requestHeader.statusPollIntervalMsec > 0 ∧ progressDue v s then
      some (.doing, .ok)
    else none
  | .valid h _ =>
    match s.currentState with
    | .idle => none
    | .doing => if h.opcode = OperationCode.cancel.code then none else some (.doing, .busy)
    | .canceling => some (.canceling, .busy)

theorem recvRequest_opcode {conv : Convertors Pdu} {v : ServerView Pdu}
    {s : ServerProtocol Pdu} {j : ℕ} {h : RequestHeader} {p : Pdu}
    (hr : recvRequest conv v s j = .valid h p) :
    h.opcode = OperationCode.request.code ∨ h.opcode = OperationCode.cancel.code := by
  simp only [recvRequest] at hr
  split at hr
  · cases hr
  · split at hr
    · cases hr
    · split at hr
      · cases hr
      · split at hr
        · next hv =>
          cases hr
          rw [validateRequestHeader, Bool.and_eq_true] at hv
          have hlt : h.opcode < 2 := of_decide_eq_true hv.2
          simp only [OperationCode.code]
          omega
        · cases hr

theorem report_idle {conv : Convertors Pdu} {v : ServerView Pdu} {s : ServerProtocol Pdu}
    (hidle : s.currentState = .idle) {status : ServiceStatus} {code : ResultCode}
    (hr : report conv v s = some (status, code)) :
    recvRequest conv v s s.currentClientId = .rejected ∧ status = .error ∧ code = .invalid := by
  simp only [report, hidle] at hr
  split at hr
  · next hrecv =>
    cases hr
    exact ⟨hrecv, rfl, rfl⟩
  · simp at hr
  · cases hr

theorem report_of_cancel {conv : Convertors Pdu} {v : ServerView Pdu} {s : ServerProtocol Pdu}
    {h : RequestHeader} {p : Pdu} (hrecv : recvRequest conv v s s.currentClientId = .valid h p)
    (hop : h.opcode = OperationCode.cancel.code) (hst : s.currentState ≠ .canceling) :
    report conv v s = none := by
  simp only [report, hrecv, hop]
  cases hc : s.currentState with
  | idle => rfl
  | doing => rfl
  | canceling => exact absurd hc hst

theorem report_of_nothing {conv : Convertors Pdu} {v : ServerView Pdu} {s : ServerProtocol Pdu}
    (hrecv : recvRequest conv v s s.currentClientId = .nothing)
    (hint : s.currentState = .doing → s.requestHeader.statusPollIntervalMsec ≤ 0) :
    report conv v s = none := by
  simp only [report, hrecv]
  refine if_neg fun hdue => ?_
  have hle := hint hdue.1
  omega

/-- A poll sends a report, does nothing, takes a request, or takes its cancellation. -/
inductive PollOutcome (conv : Convertors Pdu) (v : ServerView Pdu) (s : ServerProtocol Pdu) :
    Polled Pdu → Prop
  | reported (status : ServiceStatus) (code : ResultCode) (t : ℤ)
      (hr : report conv v s = some (status, code)) :
      PollOutcome conv v s ⟨⟨{ (sendResponse conv v status code s).protocol with
        lastPollTime := t }, (sendResponse conv v status code s).sent⟩, .none⟩
  | quiet (t : ℤ) (hr : report conv v s = none)
      (hrecv : recvRequest conv v s s.currentClientId = .nothing ∨
        s.currentState = .idle ∧ ∃ h p, recvRequest conv v s s.currentClientId = .valid h p ∧
          h.opcode = OperationCode.cancel.code) :
      PollOutcome conv v s ⟨⟨{ s with lastPollTime := t }, none⟩, .none⟩
  | accepted (h : RequestHeader) (p : Pdu)
      (hrecv : recvRequest conv v s s.currentClientId = .valid h p)
      (hidle : s.currentState = .idle) (hop : h.opcode = OperationCode.request.code) :
      PollOutcome conv v s ⟨⟨acceptRequest h p s, none⟩, .requestIn⟩
  | canceled (h : RequestHeader) (p : Pdu)
      (hrecv : recvRequest conv v s s.currentClientId = .valid h p)
      (hdoing : s.currentState = .doing) (hop : h.opcode = OperationCode.cancel.code) :
      PollOutcome conv v s ⟨⟨{ s with
        server := (s.server.eventCancelService s.currentClientId).getD s.server }, none⟩,
        .requestCancel⟩

theorem pollNothing_outcome {conv : Convertors Pdu} {v : ServerView Pdu}
    {s : ServerProtocol Pdu} (hrecv : recvRequest conv v s s.currentClientId = .nothing) :
    PollOutcome conv v s ⟨pollNothing conv v s, .none⟩ := by
  by_cases hd : s.currentState = .doing ∧ s.requestHeader.statusPollIntervalMsec > 0
  · by_cases hdue : progressDue v s = true
    · have hr : report conv v s = some (.doing, .ok) := by simp [report, hrecv, hd, hdue]
      have h : PollOutcome conv v s _ := .reported .doing .ok v.worldTimeUsec hr
      simpa [pollNothing, hd, hdue] using h
    · have hr : report conv v s = none := by simp [report, hrecv, hdue]
      have h : PollOutcome conv v s _ := .quiet v.worldTimeUsec hr (Or.inl hrecv)
      simpa [pollNothing, hd, hdue] using h
  · have hr : report conv v s = none := by
      simp only [report, hrecv]
      exact if_neg fun h => hd ⟨h.1, h.2.1⟩
    have h : PollOutcome conv v s _ := .quiet s.lastPollTime hr (Or.inl hrecv)
    simpa only [pollNothing, if_neg hd] using h

theorem pollValid_outcome {conv : Convertors Pdu} {v : ServerView Pdu}
    {s : ServerProtocol Pdu} {h : RequestHeader} {p : Pdu}
    (hrecv : recvRequest conv v s s.currentClientId = .valid h p) :
    PollOutcome conv v s (pollValid conv v h p s) := by
  cases hst : s.currentState with
  | idle =>
    rcases recvRequest_opcode hrecv with hop | hop
    · simpa [pollValid, hst, hop] using PollOutcome.accepted h p hrecv hst hop
    · have hr : report conv v s = none := report_of_cancel hrecv hop (by simp [hst])
      have hne : ¬ h.opcode = OperationCode.request.code := by simp [hop, OperationCode.code]
      have hquiet : PollOutcome conv v s _ :=
        .quiet s.lastPollTime hr (Or.inr ⟨hst, h, p, hrecv, hop⟩)
      simpa only [pollValid, hst, if_neg hne, if_pos hop] using hquiet
  | doing =>
    by_cases hop : h.opcode = OperationCode.cancel.code
    · simpa [pollValid, hst, hop] using PollOutcome.canceled h p hrecv hst hop
    · have hr : report conv v s = some (.doing, .busy) := by simp [report, hrecv, hst, hop]
      have hsend : PollOutcome conv v s _ :=
        .reported .doing .busy (sendResponse conv v .doing .busy s).protocol.lastPollTime hr
      simpa only [pollValid, hst, if_neg hop] using hsend
  | canceling =>
    have hr : report conv v s = some (.canceling, .busy) := by simp [report, hrecv, hst]
    have hsend : PollOutcome conv v s _ :=
      .reported .canceling .busy (sendResponse conv v .canceling .busy s).protocol.lastPollTime hr
    simpa only [pollValid, hst] using hsend

theorem pollCurrent_outcome (conv : Convertors Pdu) (v : ServerView Pdu)
    (s : ServerProtocol Pdu) : PollOutcome conv v s (pollCurrent conv v s) := by
  simp only [pollCurrent]
  split
  · next hrecv =>
    have hr : report conv v s = some (.error, .invalid) := by simp [report, hrecv]
    exact .reported .error .invalid
      (sendResponse conv v .error .invalid s).protocol.lastPollTime hr
  · next hrecv => exact pollNothing_outcome hrecv
  · next h p hrecv => exact pollValid_outcome hrecv

theorem resetIfNewRun_self (s : ServerProtocol Pdu) : s.resetIfNewRun s.runGeneration = s :=
  if_pos rfl

theorem sendResponse_runGeneration (conv : Convertors Pdu) (v : ServerView Pdu)
    (status : ServiceStatus) (code : ResultCode) (s : ServerProtocol Pdu) :
    (sendResponse conv v status code s).protocol.runGeneration = s.runGeneration := by
  rcases sendResponse_cases conv v status code s with ⟨-, hs⟩ | ⟨p, -, hs⟩
  · rw [hs]
  · rw [hs]
    rfl

theorem pollCurrent_runGeneration (conv : Convertors Pdu) (v : ServerView Pdu)
    (s : ServerProtocol Pdu) : (pollCurrent conv v s).protocol.runGeneration = s.runGeneration := by
  have hout := pollCurrent_outcome conv v s
  generalize pollCurrent conv v s = r at hout
  cases hout with
  | reported status code t hr => exact sendResponse_runGeneration conv v status code s
  | _ => rfl

theorem resetIfNewRun_runGeneration (g : ℕ) (s : ServerProtocol Pdu) :
    (s.resetIfNewRun g).runGeneration = g := by
  unfold ServerProtocol.resetIfNewRun
  split
  · next h => exact h.symm
  · rfl

/-- A server for `N` clients whose turn is in range, and whose requests in progress all
belong to the run it last saw. -/
structure ServerOk (N : ℕ) (s : ServerProtocol Pdu) : Prop where
  maxClients : s.server.maxClients = N
  inRange : s.currentClientId < N
  generation : ∀ j, s.server.state j ≠ .idle → s.requestGeneration = s.runGeneration

theorem update_idle_ne {st : ℕ → ServerState} {j k : ℕ}
    (h : Function.update st j .idle k ≠ .idle) : st k ≠ .idle := by
  by_cases hk : k = j
  · subst hk
    simp at h
  · simpa [hk] using h

theorem update_idle {st : ℕ → ServerState} {k : ℕ} (h : st k = .idle) (j : ℕ) :
    Function.update st j .idle k = .idle :=
  by_contra fun hne => update_idle_ne hne h

section ServerOk

variable {N : ℕ} {s : ServerProtocol Pdu}

theorem ServerOk.reply (h : ServerOk N s) (v : ServerView Pdu) (p : Pdu) :
    ServerOk N (Service.reply v p s).protocol := by
  have hpos : 0 < N := by
    have := h.inRange
    omega
  rw [reply_protocol]
  refine ⟨h.maxClients, ?_, fun j hj => ?_⟩
  · show Turn.next s.server.maxClients s.currentClientId < N
    rw [h.maxClients]
    exact Turn.next_lt hpos _
  · refine h.generation j ?_
    by_cases hc : canPut v s = true
    · simp only [hc, if_true] at hj
      exact update_idle_ne hj
    · simpa [hc] using hj

theorem ServerOk.sendResponse (h : ServerOk N s) (conv : Convertors Pdu) (v : ServerView Pdu)
    (status : ServiceStatus) (code : ResultCode) :
    ServerOk N (Service.sendResponse conv v status code s).protocol := by
  rcases sendResponse_cases conv v status code s with ⟨-, hs⟩ | ⟨p, -, hs⟩
  · rw [hs]
    exact h
  · rw [hs]
    exact h.reply v p

theorem ServerOk.resetIfNewRun (h : ServerOk N s) (g : ℕ) : ServerOk N (s.resetIfNewRun g) := by
  unfold ServerProtocol.resetIfNewRun
  split
  · exact h
  · exact ⟨h.maxClients, Nat.lt_of_le_of_lt (Nat.zero_le _) h.inRange, fun j hj => absurd rfl hj⟩

theorem eventStart_getD {t : ServiceServer} {j : ℕ} (hj : j < t.maxClients)
    (hidle : t.state j = .idle) :
    (t.eventStartService j).getD t = { t with state := Function.update t.state j .doing } := by
  simp [ServiceServer.eventStartService, Nat.not_le.mpr hj, hidle]

theorem eventCancel_getD {t : ServiceServer} {j : ℕ} (hj : j < t.maxClients)
    (hdoing : t.state j = .doing) :
    (t.eventCancelService j).getD t = { t with state := Function.update t.state j .canceling } := by
  simp [ServiceServer.eventCancelService, Nat.not_le.mpr hj, hdoing]

theorem ServerOk.inMax (h : ServerOk N s) : s.currentClientId < s.server.maxClients := by
  rw [h.maxClients]
  exact h.inRange

theorem ServerOk.canPut_eq (h : ServerOk N s) (v : ServerView Pdu) :
    canPut v s = v.putResponse s.currentClientId := by
  rw [canPut, decide_eq_true h.inMax, Bool.true_and]

theorem ServerOk.next_eq_self_iff (h : ServerOk N s) :
    Turn.next s.server.maxClients s.currentClientId = s.currentClientId ↔
      s.server.maxClients = 1 := by
  have hcur := h.inMax
  constructor
  · intro hnext
    by_contra hne
    exact Turn.next_ne_self (by omega) hcur hnext
  · intro hone
    rw [hone, Turn.next_one]
    omega

theorem ServerOk.acceptRequest_server (h : ServerOk N s) (hidle : s.currentState = .idle)
    (hd : RequestHeader) (p : Pdu) :
    (acceptRequest hd p s).server =
      { s.server with state := Function.update s.server.state s.currentClientId .doing } :=
  eventStart_getD h.inMax hidle

theorem ServerOk.cancel_server (h : ServerOk N s) (hdoing : s.currentState = .doing) :
    (s.server.eventCancelService s.currentClientId).getD s.server =
      { s.server with state := Function.update s.server.state s.currentClientId .canceling } :=
  eventCancel_getD h.inMax hdoing

theorem ServerOk.pollCurrent (h : ServerOk N s) (conv : Convertors Pdu)
    (v : ServerView Pdu) : ServerOk N (Service.pollCurrent conv v s).protocol := by
  have hout := pollCurrent_outcome conv v s
  generalize Service.pollCurrent conv v s = r at hout
  cases hout with
  | reported status code t hr =>
    have hsend := h.sendResponse conv v status code
    exact ⟨hsend.maxClients, hsend.inRange, hsend.generation⟩
  | quiet t hr hrecv => exact ⟨h.maxClients, h.inRange, h.generation⟩
  | accepted hd p hrecv hidle hop =>
    have hserver := h.acceptRequest_server hidle hd p
    refine ⟨?_, ?_, fun _ _ => rfl⟩
    · show (acceptRequest hd p s).server.maxClients = N
      rw [hserver]
      exact h.maxClients
    · show (acceptRequest hd p s).server.currentClientId < N
      rw [hserver]
      exact h.inRange
  | canceled hd p hrecv hdoing hop =>
    have hreq := h.generation s.currentClientId (by
      rw [show s.server.state s.currentClientId = .doing from hdoing]
      simp)
    have hserver := h.cancel_server hdoing
    refine ⟨?_, ?_, fun _ _ => hreq⟩
    · show ((s.server.eventCancelService s.currentClientId).getD s.server).maxClients = N
      rw [hserver]
      exact h.maxClients
    · show ((s.server.eventCancelService s.currentClientId).getD s.server).currentClientId < N
      rw [hserver]
      exact h.inRange

theorem ServerOk.poll (h : ServerOk N s) (conv : Convertors Pdu) (g : ℕ)
    (v : ServerView Pdu) : ServerOk N (Service.poll conv g v s).protocol :=
  (h.resetIfNewRun g).pollCurrent conv v

theorem ServerOk.replyToCurrentRequest (h : ServerOk N s) (g : ℕ) (v : ServerView Pdu) (p : Pdu) :
    ServerOk N (Service.replyToCurrentRequest g v p s).protocol := by
  unfold Service.replyToCurrentRequest
  split
  · exact h.reply v p
  · exact h

theorem ServerOk.cancelDone (h : ServerOk N s) (conv : Convertors Pdu) (v : ServerView Pdu) :
    ServerOk N (Service.cancelDone conv v s).protocol := by
  have hsend := h.sendResponse conv v .done .canceled
  have hpos : 0 < N := by
    have := h.inRange
    omega
  refine ⟨?_, ?_, fun j hj => hsend.generation j ?_⟩
  · simp only [Service.cancelDone, ServiceServer.nextClient, eventDone_getD hsend.inMax]
    exact hsend.maxClients
  · simp only [Service.cancelDone, ServiceServer.nextClient, eventDone_getD hsend.inMax]
    rw [hsend.maxClients]
    exact Turn.next_lt hpos _
  · simp only [Service.cancelDone, ServiceServer.nextClient, eventDone_getD hsend.inMax] at hj
    exact update_idle_ne hj

end ServerOk

structure ServerSystem (Pdu : Type) where
  generation : ℕ
  protocol : ServerProtocol Pdu

/-- `start` is `on_pdu_data_create`; the rest are the operations of the server, each with
what the shared memory answers. -/
inductive ServerAction (Pdu : Type)
  | start
  | poll (v : ServerView Pdu)
  | putResponse (v : ServerView Pdu) (p : Pdu)
  | reply (v : ServerView Pdu) (p : Pdu)
  | cancelDone (v : ServerView Pdu)
  | putProgress (percentage : ℤ)

def operation (conv : Convertors Pdu) (s : ServerSystem Pdu) : ServerAction Pdu → Replied Pdu
  | .start => ⟨s.protocol, none⟩
  | .poll v => (poll conv s.generation v s.protocol).toReplied
  | .putResponse v p => replyToCurrentRequest s.generation v p s.protocol
  | .reply v p => reply v p s.protocol
  | .cancelDone v => cancelDone conv v s.protocol
  | .putProgress percentage => ⟨putProgress percentage s.protocol, none⟩

def serverStep (conv : Convertors Pdu) (s : ServerSystem Pdu) (a : ServerAction Pdu) :
    ServerSystem Pdu where
  generation :=
    match a with
    | .start => (s.generation + 1) % 2 ^ 32
    | _ => s.generation
  protocol := (operation conv s a).protocol

/-- A server that was initialized in the run `g`. -/
def ServerSystem.initial (name : Name) (N g : ℕ) : ServerSystem Pdu := ⟨g, .initial name N g⟩

theorem serverStep_ok {conv : Convertors Pdu} {N : ℕ} {s : ServerSystem Pdu}
    (h : ServerOk N s.protocol) (a : ServerAction Pdu) : ServerOk N (serverStep conv s a).protocol := by
  cases a with
  | start => exact h
  | poll v => exact h.poll conv s.generation v
  | putResponse v p => exact h.replyToCurrentRequest s.generation v p
  | reply v p => exact h.reply v p
  | cancelDone v => exact h.cancelDone conv v
  | putProgress percentage => exact ⟨h.maxClients, h.inRange, h.generation⟩

theorem initial_ok (name : Name) {N : ℕ} (hN : 0 < N) (g : ℕ) :
    ServerOk N (ServerSystem.initial name N g : ServerSystem Pdu).protocol :=
  ⟨rfl, hN, fun _ hj => absurd rfl hj⟩

theorem reachable_ok (conv : Convertors Pdu) (name : Name) {N : ℕ} (hN : 0 < N) (g : ℕ)
    (as : List (ServerAction Pdu)) :
    ServerOk N (run (serverStep conv) (.initial name N g) as).protocol := by
  induction as using List.reverseRecOn with
  | nil => exact initial_ok name hN g
  | append_singleton as a ih =>
    rw [run_concat]
    exact serverStep_ok ih a

abbrev PlainPacket := RequestHeader ⊕ ResponseHeader

def plainConvertors : Convertors PlainPacket where
  request := ⟨Sum.getLeft?, fun h => some (.inl h)⟩
  response := ⟨Sum.getRight?, fun h => some (.inr h)⟩

theorem length_zeros : (List.replicate 64 (0 : UInt8)).length = clientNamelenMax := rfl

def plainEntry (N : ℕ) : ServiceEntry where
  enabled := true
  serviceName := [120]
  maxClients := N
  nextClientId := N
  pduSizeRequest := 100
  pduSizeResponse := 100
  clientChannelMap := fun j =>
    ⟨true, NameBuffer.write [97 + UInt8.ofNat j] ⟨List.replicate 64 0, length_zeros⟩, serverChannelId j,
      0, clientChannelId j, 0⟩

/-- A request of the client in slot `j`, with a status poll interval in milliseconds. -/
def plainRequest (j : ℕ) (interval : ℤ) : PlainPacket :=
  .inl ⟨1, [120], [97 + UInt8.ofNat j], OperationCode.request.code, interval⟩

/-- The world at `time`, with the packets `requests`, where every write works. -/
def plainView (N : ℕ) (time : ℤ) (requests : ℕ → Option PlainPacket) : ServerView PlainPacket :=
  ⟨time, plainEntry N, requests, fun _ => true⟩

/-- Only the client in slot `j` has sent something, its request. -/
def asking (j : ℕ) (interval : ℤ) (k : ℕ) : Option PlainPacket :=
  if k = j then some (plainRequest j interval) else none

def silent (_ : ℕ) : Option PlainPacket := none

end Service
end HakoniwaCorePro
