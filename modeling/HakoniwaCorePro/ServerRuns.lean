import HakoniwaCorePro.ServerSteps

/-!
# Requests in progress

A request is in progress from the poll that takes it to the response of the application. All
replies go through one function that ends the current client's request and passes the turn
on, so status reports end requests as well; here is exactly when they do not.
-/

namespace HakoniwaCorePro
namespace Service

open Runs

variable {Pdu : Type}

/-- A valid `CANCEL` moves a request in progress to CANCELING; nothing else moves it. -/
def expectedState (conv : Convertors Pdu) (v : ServerView Pdu) (s : ServerProtocol Pdu) :
    ServerState :=
  match recvRequest conv v s s.currentClientId with
  | .valid h _ =>
    if s.currentState = .doing ∧ h.opcode = OperationCode.cancel.code then .canceling
    else s.currentState
  | _ => s.currentState

/-- The poll has left the request of the current client where it was. -/
structure RequestKept (conv : Convertors Pdu) (v : ServerView Pdu) (s s' : ServerProtocol Pdu) :
    Prop where
  client : s'.currentClientId = s.currentClientId
  header : s'.requestHeader = s.requestHeader
  state : s'.server.state s.currentClientId = expectedState conv v s

/-- The poll sends no status report; or the report cannot be encoded; or it is refused by the
channel, and there is no other client to pass the turn to. -/
def Undisturbed (conv : Convertors Pdu) (v : ServerView Pdu) (s : ServerProtocol Pdu) : Prop :=
  ∀ status code, report conv v s = some (status, code) →
    (conv.response.cpp2pdu (setResponseHeader v s status code)).isSome = true →
    s.server.maxClients = 1 ∧ v.putResponse s.currentClientId = false

theorem expectedState_of_report {conv : Convertors Pdu} {v : ServerView Pdu}
    {s : ServerProtocol Pdu} {status : ServiceStatus} {code : ResultCode}
    (hr : report conv v s = some (status, code)) : expectedState conv v s = s.currentState := by
  simp only [report] at hr
  simp only [expectedState]
  split
  · next h p hrecv =>
    rw [hrecv] at hr
    refine if_neg fun hc => ?_
    simp [hc.1, hc.2] at hr
  · rfl

theorem expectedState_ne_idle (conv : Convertors Pdu) (v : ServerView Pdu)
    {s : ServerProtocol Pdu} (hbusy : s.currentState ≠ .idle) : expectedState conv v s ≠ .idle := by
  simp only [expectedState]
  split
  · split
    · simp
    · exact hbusy
  · exact hbusy

theorem reply_kept_iff {N : ℕ} {conv : Convertors Pdu} {v : ServerView Pdu}
    {s : ServerProtocol Pdu} (h : ServerOk N s) (hbusy : s.currentState ≠ .idle)
    (hexp : expectedState conv v s = s.currentState) (p : Pdu) :
    RequestKept conv v s (reply v p s).protocol ↔
      s.server.maxClients = 1 ∧ v.putResponse s.currentClientId = false := by
  rw [reply_protocol, h.canPut_eq]
  constructor
  · rintro ⟨hclient, -, hstate⟩
    constructor
    · exact h.next_eq_self_iff.mp hclient
    · by_contra hwrite
      simp only [Bool.not_eq_false] at hwrite
      rw [hexp] at hstate
      simp only [hwrite, if_true, Function.update_self] at hstate
      exact hbusy hstate.symm
  · rintro ⟨hone, hwrite⟩
    refine ⟨h.next_eq_self_iff.mpr hone, rfl, ?_⟩
    · rw [hexp]
      simp [hwrite, ServiceServer.getState]

theorem pollCurrent_kept_iff {N : ℕ} {conv : Convertors Pdu} {s : ServerProtocol Pdu}
    (h : ServerOk N s) (hbusy : s.currentState ≠ .idle) (v : ServerView Pdu) :
    RequestKept conv v s (pollCurrent conv v s).protocol ↔ Undisturbed conv v s := by
  have hout := pollCurrent_outcome conv v s
  generalize pollCurrent conv v s = r at hout
  cases hout with
  | reported status code t hr =>
    have hexp := expectedState_of_report hr
    have hkept : ∀ q : ServerProtocol Pdu, RequestKept conv v s { q with lastPollTime := t } ↔
        RequestKept conv v s q :=
      fun q => ⟨fun ⟨h₁, h₂, h₃⟩ => ⟨h₁, h₂, h₃⟩, fun ⟨h₁, h₂, h₃⟩ => ⟨h₁, h₂, h₃⟩⟩
    have hund : Undisturbed conv v s ↔
        ((conv.response.cpp2pdu (setResponseHeader v s status code)).isSome = true →
          s.server.maxClients = 1 ∧ v.putResponse s.currentClientId = false) := by
      constructor
      · exact fun hu => hu status code hr
      · intro hu status' code' hr'
        rw [hr] at hr'
        cases hr'
        exact hu
    rw [hkept, hund]
    rcases sendResponse_cases conv v status code s with ⟨henc, hs⟩ | ⟨p, henc, hs⟩
    · rw [hs, henc]
      exact ⟨fun _ hsome => by simp at hsome, fun _ => ⟨rfl, rfl, hexp.symm⟩⟩
    · rw [hs, henc, reply_kept_iff h hbusy hexp]
      simp
  | quiet t hr hrecv =>
    have hnothing := hrecv.resolve_right fun h => hbusy h.1
    have hexp : expectedState conv v s = s.currentState := by simp [expectedState, hnothing]
    refine ⟨fun _ status code hr' => ?_, fun _ => ⟨rfl, rfl, hexp.symm⟩⟩
    rw [hr] at hr'
    cases hr'
  | accepted hd p hrecv hidle hop => exact absurd hidle hbusy
  | canceled hd p hrecv hdoing hop =>
    have hexp : expectedState conv v s = .canceling := by simp [expectedState, hrecv, hdoing, hop]
    have hnone : report conv v s = none := report_of_cancel hrecv hop (by simp [hdoing])
    have hserver := h.cancel_server hdoing
    refine ⟨fun _ status code hr' => ?_, fun _ => ⟨?_, rfl, ?_⟩⟩
    · rw [hnone] at hr'
      cases hr'
    · show ((s.server.eventCancelService s.currentClientId).getD s.server).currentClientId = _
      rw [hserver]
    · show ((s.server.eventCancelService s.currentClientId).getD s.server).state _ = _
      rw [hserver, hexp]
      simp

/-- The server as it stands during one request of the client `j` in the run `g`. -/
structure Serving (N g j : ℕ) (hd : RequestHeader) (s : ServerProtocol Pdu) : Prop where
  ok : ServerOk N s
  client : s.currentClientId = j
  header : s.requestHeader = hd
  busy : s.currentState ≠ .idle
  generation : s.runGeneration = g

theorem Serving.poll {N g j : ℕ} {hd : RequestHeader} {conv : Convertors Pdu}
    {s : ServerProtocol Pdu} (h : Serving N g j hd s) {v : ServerView Pdu}
    (hu : Undisturbed conv v s) : Serving N g j hd (Service.poll conv g v s).protocol := by
  have hpoll : Service.poll conv g v s = pollCurrent conv v s := by
    rw [Service.poll, ← h.generation, resetIfNewRun_self]
  obtain ⟨hclient, hheader, hstate⟩ := (pollCurrent_kept_iff h.ok h.busy v).mpr hu
  rw [hpoll]
  refine ⟨h.ok.pollCurrent conv v, hclient.trans h.client, hheader.trans h.header, ?_,
    (pollCurrent_runGeneration conv v s).trans h.generation⟩
  have hne := expectedState_ne_idle conv v h.busy
  rw [← hstate, ← hclient] at hne
  exact hne

theorem Serving.reply_sent {N g j : ℕ} {hd : RequestHeader} {s : ServerProtocol Pdu}
    (h : Serving N g j hd s) (v : ServerView Pdu) (p : Pdu) :
    (replyToCurrentRequest g v p s).sent = some ⟨j, p, v.putResponse j⟩ := by
  have hgen : s.requestGeneration = g := (h.ok.generation _ h.busy).trans h.generation
  have hstate : s.currentState = .doing ∨ s.currentState = .canceling := by
    have hne := h.busy
    cases hs : s.currentState with
    | idle => exact absurd hs hne
    | doing => exact Or.inl rfl
    | canceling => exact Or.inr rfl
  have hcan : canReply g s = true := by simp [canReply, hgen, hstate]
  rw [replyToCurrentRequest, if_pos hcan, Service.reply_sent, h.ok.canPut_eq, h.client]

/-- In every state a server can reach during a request of the present run: which polls leave
the request where it is, and that after any number of them it can still be answered. -/
theorem poll_keeps_request (conv : Convertors Pdu) (name : Name) {N : ℕ} (hN : 0 < N)
    (g : ℕ) (as : List (ServerAction Pdu)) (s : ServerSystem Pdu)
    (hs : run (serverStep conv) (.initial name N g) as = s)
    (hbusy : s.protocol.currentState ≠ .idle) (hrun : s.generation = s.protocol.runGeneration) :
    (∀ v, RequestKept conv v s.protocol (poll conv s.generation v s.protocol).protocol ↔
      Undisturbed conv v s.protocol) ∧
    ∀ vs, Along (fun q v => (poll conv s.generation v q).protocol) (fun q v => Undisturbed conv v q)
        s.protocol vs → ∀ v p,
      (replyToCurrentRequest s.generation v p
        (run (fun q v => (poll conv s.generation v q).protocol) s.protocol vs)).sent =
      some ⟨s.protocol.currentClientId, p, v.putResponse s.protocol.currentClientId⟩ := by
  have hok : ServerOk N s.protocol := hs ▸ reachable_ok conv name hN g as
  have hserving : Serving N s.generation s.protocol.currentClientId s.protocol.requestHeader
      s.protocol := ⟨hok, rfl, rfl, hbusy, hrun.symm⟩
  constructor
  · intro v
    rw [poll, hrun, resetIfNewRun_self]
    exact pollCurrent_kept_iff hok hbusy v
  · intro vs hvs v p
    have hend := run_invariant
      (I := Serving N s.generation s.protocol.currentClientId s.protocol.requestHeader)
      (fun q w hq hu => hq.poll hu) hserving hvs
    exact hend.reply_sent v p

theorem poll_keeps_request_silent :
    (replyToCurrentRequest 0 (plainView 2 7 silent) (plainRequest 0 0)
      (run (fun q v => (poll plainConvertors 0 v q).protocol)
        (run (serverStep plainConvertors) (.initial [120] 2 0)
          [.poll (plainView 2 5 (asking 0 0))]).protocol
        [plainView 2 6 silent])).sent = some ⟨0, plainRequest 0 0, true⟩ := by
  have h := poll_keeps_request plainConvertors [120] (by decide : 0 < 2) 0
    [.poll (plainView 2 5 (asking 0 0))] _ rfl (by decide) (by decide)
  refine h.2 [plainView 2 6 silent] ⟨fun status code hr => ?_, trivial⟩ (plainView 2 7 silent)
    (plainRequest 0 0)
  have hnone : report plainConvertors (plainView 2 6 silent)
      (run (serverStep plainConvertors) (.initial [120] 2 0)
        [.poll (plainView 2 5 (asking 0 0))]).protocol = none := by decide
  rw [hnone] at hr
  cases hr

/-- A request with a status poll interval of 10 ms: the first progress report ends it. The
turn is then at the other client, and the application's response is dropped. -/
theorem progress_report_ends_request :
    let s := (run (serverStep plainConvertors) (.initial [120] 2 0)
      [.poll (plainView 2 5 (asking 0 10))]).protocol
    let s' := (poll plainConvertors 0 (plainView 2 6 silent) s).protocol
    s.currentClientId = 0 ∧ s.currentState = .doing ∧
    s'.currentClientId = 1 ∧ s'.server.state 0 = .idle ∧
    (replyToCurrentRequest 0 (plainView 2 7 silent) (plainRequest 0 10) s').sent = none := by
  decide

end Service
end HakoniwaCorePro
