import HakoniwaCorePro.ServerSteps

/-!
# The progress reports of a server

While a request with a status poll interval is served and nothing comes from its client, `poll`
reports DOING from time to time. One variable remembers when that was, for all requests, and
the report goes out like a response.
-/

namespace HakoniwaCorePro
namespace Service

open Runs

section

variable {Pdu : Type} (conv : Convertors Pdu)

/-- Whether the server was polled for the request yet, and when a DOING was last sent for it. -/
structure Heartbeat where
  polled : Bool
  lastSent : Option ℤ

/-- The poll writes a DOING status to the client in slot `j`. -/
def sendsDoing (j : ℕ) (v : ServerView Pdu) (s : ServerSystem Pdu) : Bool :=
  (report conv v (s.protocol.resetIfNewRun s.generation)).any (·.1 == .doing) &&
    (poll conv s.generation v s.protocol).sent.any fun r => r.clientId == j && r.accepted

def Heartbeat.poll (sends : Bool) (now : ℤ) (hb : Heartbeat) : Heartbeat :=
  ⟨true, if sends then some now else hb.lastSent⟩

/-- A server beside the heartbeat of the request in slot `j`. -/
def heartbeatStep (j : ℕ) (s : ServerSystem Pdu × Heartbeat) (a : ServerAction Pdu) :
    ServerSystem Pdu × Heartbeat :=
  match a with
  | .poll v => (serverStep conv s.1 a, s.2.poll (sendsDoing conv j v s.1) v.worldTimeUsec)
  | _ => (serverStep conv s.1 a, s.2)

/-- While the request in slot `j` is in progress and its client silent, the server is polled,
and the application may set the progress. -/
def Awaits (j : ℕ) : ServerAction Pdu → Prop
  | .poll v => v.getRequest j = none
  | .putProgress _ => True
  | _ => False

/-- The first poll is due, and each that comes more than `period` after the last DOING. -/
def Heartbeat.Due (period now : ℤ) (hb : Heartbeat) : Prop :=
  hb.polled = false ∨ ∃ t, hb.lastSent = some t ∧ now - t > period

def PeriodKept (j : ℕ) (interval : ℤ) (s : ServerSystem Pdu × Heartbeat) : ServerAction Pdu → Prop
  | .poll v => sendsDoing conv j v s.1 = true ↔ s.2.Due (interval * 1000) v.worldTimeUsec
  | _ => True

/-- The first poll is due by the variable that all requests share, its report can be encoded and
written; and none of the later polls is due. -/
def ReportsOnce (interval : ℤ) (s : ServerSystem Pdu × Heartbeat) : ServerAction Pdu → Prop
  | .poll v =>
    (s.2.polled = false → progressDue v s.1.protocol = true ∧ canPut v s.1.protocol = true ∧
      conv.response.cpp2pdu (setResponseHeader v s.1.protocol .doing .ok) ≠ none) ∧
    (s.2.polled = true → ∀ t, s.2.lastSent = some t → v.worldTimeUsec - t ≤ interval * 1000)
  | _ => True

variable {conv}

theorem recvRequest_of_empty (conv : Convertors Pdu) {v : ServerView Pdu} {j : ℕ}
    (hempty : v.getRequest j = none) (s : ServerProtocol Pdu) : recvRequest conv v s j = .nothing := by
  unfold recvRequest
  rw [hempty]
  split <;> rfl

theorem sendResponse_other (conv : Convertors Pdu) (v : ServerView Pdu) {j : ℕ}
    {s : ServerProtocol Pdu} (hj : s.currentClientId ≠ j) (status : ServiceStatus) (code : ResultCode) :
    (sendResponse conv v status code s).protocol.server.state j = s.server.state j ∧
      ∀ r, (sendResponse conv v status code s).sent = some r → r.clientId ≠ j := by
  rcases sendResponse_cases conv v status code s with ⟨-, hs⟩ | ⟨p, -, hs⟩
  · rw [hs]
    exact ⟨rfl, fun r hr => nomatch hr⟩
  · rw [hs, reply_state, reply_sent]
    constructor
    · split
      · exact Function.update_of_ne (Ne.symm hj) _ _
      · rfl
    · intro r hr
      cases hr
      exact hj

theorem pollCurrent_idle_silent (conv : Convertors Pdu) {N : ℕ} {v : ServerView Pdu} {j : ℕ}
    {s : ServerProtocol Pdu} (hok : ServerOk N s) (hidle : s.server.state j = .idle) (hempty : v.getRequest j = none) :
    (pollCurrent conv v s).protocol.server.state j = .idle ∧
      ∀ r, (pollCurrent conv v s).sent = some r → r.clientId ≠ j := by
  have hother : (∀ h p, recvRequest conv v s s.currentClientId = .valid h p →
      s.currentClientId ≠ j) := by
    rintro h p hrecv rfl
    rw [recvRequest_of_empty conv hempty] at hrecv
    cases hrecv
  have hout := pollCurrent_outcome conv v s
  generalize pollCurrent conv v s = r at hout
  cases hout with
  | reported status code t hr =>
    have hj : s.currentClientId ≠ j := by
      rintro rfl
      obtain ⟨hrejected, -, -⟩ := report_idle hidle hr
      rw [recvRequest_of_empty conv hempty] at hrejected
      cases hrejected
    obtain ⟨hstate, hsent⟩ := sendResponse_other conv v hj status code
    exact ⟨hstate.trans hidle, hsent⟩
  | quiet t hr hrecv => exact ⟨hidle, fun r hr => nomatch hr⟩
  | accepted h p hrecv hst hop =>
    refine ⟨?_, fun r hr => nomatch hr⟩
    show (acceptRequest h p s).server.state j = .idle
    rw [hok.acceptRequest_server hst]
    exact (Function.update_of_ne (hother h p hrecv).symm _ _).trans hidle
  | canceled h p hrecv hst hop =>
    refine ⟨?_, fun r hr => nomatch hr⟩
    show ((s.server.eventCancelService s.currentClientId).getD s.server).state j = .idle
    rw [hok.cancel_server hst]
    exact (Function.update_of_ne (hother h p hrecv).symm _ _).trans hidle

theorem poll_current {s : ServerSystem Pdu} (hgen : s.generation = s.protocol.runGeneration)
    (v : ServerView Pdu) : poll conv s.generation v s.protocol = pollCurrent conv v s.protocol := by
  rw [poll, hgen, resetIfNewRun_self]

theorem pollCurrent_doing_silent (conv : Convertors Pdu) {v : ServerView Pdu}
    {s : ServerProtocol Pdu}
    (hdoing : s.currentState = .doing) (hinterval : s.requestHeader.statusPollIntervalMsec > 0)
    (hempty : v.getRequest s.currentClientId = none) :
    (progressDue v s = true ∧ report conv v s = some (.doing, .ok) ∧ pollCurrent conv v s =
      ⟨⟨{ (sendResponse conv v .doing .ok s).protocol with lastPollTime := v.worldTimeUsec },
        (sendResponse conv v .doing .ok s).sent⟩, .none⟩) ∨
    (progressDue v s = false ∧ report conv v s = none) := by
  have hrecv := recvRequest_of_empty conv hempty s
  cases hdue : progressDue v s with
  | true => exact Or.inl ⟨rfl, by simp [report, hrecv, hdoing, hinterval, hdue],
      by simp [pollCurrent, hrecv, pollNothing, hdoing, hinterval, hdue]⟩
  | false => exact Or.inr ⟨rfl, by simp [report, hrecv, hdue]⟩

theorem sendsDoing_iff {v : ServerView Pdu} {s : ServerSystem Pdu}
    (hgen : s.generation = s.protocol.runGeneration) (hdoing : s.protocol.currentState = .doing)
    (hinterval : s.protocol.requestHeader.statusPollIntervalMsec > 0)
    (hempty : v.getRequest s.protocol.currentClientId = none) :
    sendsDoing conv s.protocol.currentClientId v s = true ↔
      progressDue v s.protocol = true ∧ canPut v s.protocol = true ∧
        conv.response.cpp2pdu (setResponseHeader v s.protocol .doing .ok) ≠ none := by
  rw [sendsDoing, poll_current hgen, hgen, resetIfNewRun_self]
  rcases pollCurrent_doing_silent conv hdoing hinterval hempty with
    ⟨hdue, hreport, hpoll⟩ | ⟨hdue, hreport⟩
  · rw [hreport, hpoll]
    rcases sendResponse_cases conv v .doing .ok s.protocol with ⟨henc, hs⟩ | ⟨p, henc, hs⟩
    · simp [hs, henc]
    · simp [hs, henc, reply_sent, hdue]
  · simp [hreport, hdue]

theorem idle_of_sendsDoing {j : ℕ} {v : ServerView Pdu} {s : ServerSystem Pdu}
    (hgen : s.generation = s.protocol.runGeneration) (hsends : sendsDoing conv j v s = true) :
    (serverStep conv s (.poll v)).protocol.server.state j = .idle := by
  rw [sendsDoing, Bool.and_eq_true] at hsends
  obtain ⟨-, hsent⟩ := hsends
  show (poll conv s.generation v s.protocol).protocol.server.state j = .idle
  rw [poll_current hgen] at hsent ⊢
  have hout := pollCurrent_outcome conv v s.protocol
  generalize pollCurrent conv v s.protocol = r at hout hsent
  cases hout with
  | reported status code t hr =>
    rcases sendResponse_cases conv v status code s.protocol with ⟨-, hs⟩ | ⟨p, -, hs⟩
    · simp [hs] at hsent
    · simp only [hs, reply_sent, Option.any_some, Bool.and_eq_true, beq_iff_eq] at hsent
      obtain ⟨hj, hput⟩ := hsent
      dsimp only
      rw [hs, reply_state, if_pos hput, hj, Function.update_self]
  | quiet t hr hrecv => simp at hsent
  | accepted h p hrecv hst hop => simp at hsent
  | canceled h p hrecv hst hop => simp at hsent

/-- Before the first poll the request of slot `j` is served; after its report it is gone. -/
structure Reporting (N j : ℕ) (interval : ℤ) (s : ServerSystem Pdu × Heartbeat) : Prop where
  ok : ServerOk N s.1.protocol
  generation : s.1.generation = s.1.protocol.runGeneration
  first : s.2.polled = false → s.1.protocol.currentClientId = j ∧
    s.1.protocol.currentState = .doing ∧
    s.1.protocol.requestHeader.statusPollIntervalMsec = interval
  later : s.2.polled = true → s.1.protocol.server.state j = .idle ∧ ∃ t, s.2.lastSent = some t

theorem serverStep_poll_generation {s : ServerSystem Pdu} (v : ServerView Pdu)
    (hgen : s.generation = s.protocol.runGeneration) :
    (serverStep conv s (.poll v)).generation =
      (serverStep conv s (.poll v)).protocol.runGeneration := by
  show s.generation = (poll conv s.generation v s.protocol).protocol.runGeneration
  rw [poll_current hgen, pollCurrent_runGeneration]
  exact hgen

theorem not_sendsDoing_of_idle {N j : ℕ} {v : ServerView Pdu} {s : ServerSystem Pdu}
    (hok : ServerOk N s.protocol) (hgen : s.generation = s.protocol.runGeneration)
    (hidle : s.protocol.server.state j = .idle) (hempty : v.getRequest j = none) :
    sendsDoing conv j v s = false ∧
      (serverStep conv s (.poll v)).protocol.server.state j = .idle := by
  obtain ⟨hstate, hsent⟩ := pollCurrent_idle_silent conv hok hidle hempty
  rw [← poll_current hgen] at hstate hsent
  refine ⟨?_, hstate⟩
  rw [sendsDoing, Bool.and_eq_false_iff]
  right
  cases hr : (poll conv s.generation v s.protocol).sent with
  | none => rfl
  | some r => simp [hsent r hr]

section

variable {N j : ℕ} {interval : ℤ} {s : ServerSystem Pdu × Heartbeat}

theorem Reporting.step (h : Reporting N j interval s) {a : ServerAction Pdu} (ha : Awaits j a)
    (hkept : PeriodKept conv j interval s a) : Reporting N j interval (heartbeatStep conv j s a) := by
  cases a with
  | putProgress percentage => exact ⟨serverStep_ok h.ok _, h.generation, h.first, h.later⟩
  | poll v =>
    refine ⟨serverStep_ok h.ok _, serverStep_poll_generation v h.generation, fun hpolled => ?_,
      fun _ => ?_⟩
    · cases hpolled
    · cases hpolled : s.2.polled with
      | false =>
        have hsends : sendsDoing conv j v s.1 = true := hkept.mpr (Or.inl hpolled)
        refine ⟨idle_of_sendsDoing h.generation hsends, v.worldTimeUsec, ?_⟩
        simp [heartbeatStep, Heartbeat.poll, hsends]
      | true =>
        obtain ⟨hidle, t, ht⟩ := h.later hpolled
        obtain ⟨hsends, hnext⟩ := not_sendsDoing_of_idle h.ok h.generation hidle ha
        refine ⟨hnext, t, ?_⟩
        simpa [heartbeatStep, Heartbeat.poll, hsends] using ht
  | _ => exact absurd ha id

theorem Reporting.kept_iff (h : Reporting N j interval s) (hinterval : interval > 0)
    {a : ServerAction Pdu} (ha : Awaits j a) :
    PeriodKept conv j interval s a ↔ ReportsOnce conv interval s a := by
  cases a with
  | putProgress percentage => exact Iff.rfl
  | poll v =>
    simp only [PeriodKept, ReportsOnce, Heartbeat.Due]
    cases hpolled : s.2.polled with
    | false =>
      obtain ⟨rfl, hdoing, hasked⟩ := h.first hpolled
      rw [sendsDoing_iff h.generation hdoing (hasked ▸ hinterval) ha]
      simp
    | true =>
      obtain ⟨hidle, t, ht⟩ := h.later hpolled
      rw [(not_sendsDoing_of_idle h.ok h.generation hidle ha).1, ht]
      simp
  | _ => exact absurd ha id

end

theorem reporting_of_requestIn {N : ℕ} {s : ServerSystem Pdu} {v : ServerView Pdu}
    (hok : ServerOk N s.protocol)
    (hin : (poll conv s.generation v s.protocol).event = .requestIn) :
    Reporting N (serverStep conv s (.poll v)).protocol.currentClientId
      (serverStep conv s (.poll v)).protocol.requestHeader.statusPollIntervalMsec
      (serverStep conv s (.poll v), ⟨false, none⟩) := by
  refine ⟨serverStep_ok hok _, ?_, fun _ => ⟨rfl, ?_, rfl⟩, fun hpolled => nomatch hpolled⟩
  · show s.generation = (poll conv s.generation v s.protocol).protocol.runGeneration
    rw [poll, pollCurrent_runGeneration, resetIfNewRun_runGeneration]
  · show (poll conv s.generation v s.protocol).protocol.currentState = .doing
    have hreset := hok.resetIfNewRun s.generation
    have hout := pollCurrent_outcome conv v (s.protocol.resetIfNewRun s.generation)
    rw [poll] at hin ⊢
    generalize pollCurrent conv v (s.protocol.resetIfNewRun s.generation) = r at hout hin
    cases hout with
    | accepted h p hrecv hidle hop =>
      rw [ServerProtocol.currentState, hreset.acceptRequest_server hidle]
      exact Function.update_self ..
    | _ => cases hin

variable (conv)

/-- From the poll that takes a request with a status poll interval, while its client is silent:
the reports keep the period if and only if the first poll is due, its report is written, and no
later poll is due, since the first report ends the request. -/
theorem heartbeat_period_iff (name : Name) {N : ℕ} (hN : 0 < N) (g : ℕ)
    (as : List (ServerAction Pdu)) (s s' : ServerSystem Pdu) (v : ServerView Pdu)
    (hs : s = run (serverStep conv) (.initial name N g) as)
    (hin : (poll conv s.generation v s.protocol).event = .requestIn)
    (hs' : s' = serverStep conv s (.poll v)) (j : ℕ) (hj : j = s'.protocol.currentClientId)
    (interval : ℤ) (hinterval : interval = s'.protocol.requestHeader.statusPollIntervalMsec)
    (hpos : 0 < interval) (bs : List (ServerAction Pdu)) (hbs : ∀ b ∈ bs, Awaits j b) :
    Along (heartbeatStep conv j) (PeriodKept conv j interval) (s', ⟨false, none⟩) bs ↔
      Along (heartbeatStep conv j) (ReportsOnce conv interval) (s', ⟨false, none⟩) bs := by
  have hfirst : Reporting N j interval (s', ⟨false, none⟩) := by
    have hok : ServerOk N s.protocol := by
      rw [hs]
      exact reachable_ok conv name hN g as
    rw [hj, hinterval, hs']
    exact reporting_of_requestIn hok hin
  have hawaits : Along (heartbeatStep conv j) (fun _ b => Awaits j b) (s', ⟨false, none⟩) bs :=
    along_forall_iff.mpr hbs
  refine along_iff_within (I := Reporting N j interval) ?_ ?_ hfirst hawaits
  · intro t b ht hb hkept
    exact ht.step hb hkept
  · intro t b ht hb
    exact ht.kept_iff hpos hb

end

def askedOnce : ServerSystem PlainPacket :=
  serverStep plainConvertors (.initial [120] 1 0) (.poll (plainView 1 5 (asking 0 10)))

def askedAgain : ServerSystem PlainPacket :=
  run (serverStep plainConvertors) askedOnce
    [.poll (plainView 1 6 silent), .poll (plainView 1 7 (asking 0 10))]

theorem heartbeat_period_first :
    Along (heartbeatStep plainConvertors 0) (PeriodKept plainConvertors 0 10)
      (askedOnce, ⟨false, none⟩) [.poll (plainView 1 6 silent), .poll (plainView 1 10006 silent)] := by
  refine (heartbeat_period_iff plainConvertors [120] (by decide : 0 < 1) 0 []
    (.initial [120] 1 0) askedOnce (plainView 1 5 (asking 0 10)) rfl (by decide) rfl 0 rfl 10 rfl
    (by decide) _ ?_).mpr ?_
  · intro b hb
    simp only [List.mem_cons, List.not_mem_nil, or_false] at hb
    rcases hb with rfl | rfl <;> rfl
  · refine ⟨⟨fun _ => by decide, ?_⟩, ⟨?_, ?_⟩, trivial⟩
    · intro hpolled
      cases hpolled
    · intro hpolled
      cases hpolled
    · intro _ t ht
      have hlast : some (6 : ℤ) = some t := ht
      cases hlast
      decide

/-- The first poll of the second request, 2 usec after the report for the first. -/
theorem second_request_unreported :
    ¬ Along (heartbeatStep plainConvertors 0) (PeriodKept plainConvertors 0 10)
      (askedAgain, ⟨false, none⟩) [.poll (plainView 1 8 silent)] := by
  rintro ⟨hkept, -⟩
  have hsends := hkept.mpr (Or.inl rfl)
  revert hsends
  decide

end Service
end HakoniwaCorePro
