import HakoniwaCorePro.ServerSteps

/-!
# Which request a response names

All responses take their id from the one request header that the server keeps, which is
assigned when a request is accepted. A response that is written because of another packet, or
after another slot's request was accepted, names the wrong one.
-/

namespace HakoniwaCorePro
namespace Service

open Runs

section

variable {Pdu : Type} (conv : Convertors Pdu)

/-- The id that the request last accepted in each slot had. -/
abbrev Asked := ℕ → Option ℕ

/-- The id decoded from the packet that waits at slot `j`. -/
def decodedId (v : ServerView Pdu) (j : ℕ) : Option ℕ :=
  ((v.getRequest j).bind conv.request.pdu2cpp).map (·.requestId)

def askedStep (s : ServerSystem Pdu × Asked) (a : ServerAction Pdu) : ServerSystem Pdu × Asked :=
  match a with
  | .poll v =>
    let q := s.1.protocol.resetIfNewRun s.1.generation
    (serverStep conv s.1 a,
      if (poll conv s.1.generation v s.1.protocol).event = .requestIn then
        Function.update s.2 q.currentClientId (decodedId conv v q.currentClientId)
      else s.2)
  | _ => (serverStep conv s.1 a, s.2)

/-- A response as its receiver reads it: for the client of its slot, with the id `id`. -/
def ReadsAs (v : ServerView Pdu) (r : Sent Pdu) (id : Option ℕ) : Prop :=
  ∃ h, conv.response.pdu2cpp r.packet = some h ∧ id = some h.requestId ∧
    h.clientName = v.entry.getClientName r.clientId

def NamesRead (s : ServerSystem Pdu × Asked) (v : ServerView Pdu) : Prop :=
  let q := s.1.protocol.resetIfNewRun s.1.generation
  v.getRequest q.currentClientId ≠ none →
    ∀ r, (poll conv s.1.generation v s.1.protocol).sent = some r → r.accepted = true →
      r.clientId = q.currentClientId ∧ ReadsAs conv v r (decodedId conv v q.currentClientId)

/-- What ends a request in progress names that request. -/
def NamesAccepted (s : ServerSystem Pdu × Asked) (v : ServerView Pdu) (a : ServerAction Pdu) :
    Prop :=
  s.1.protocol.currentState ≠ .idle →
    ∀ r, (operation conv s.1 a).sent = some r → r.accepted = true →
      ReadsAs conv v r (s.2 r.clientId)

def NamesPacket (s : ServerSystem Pdu × Asked) (a : ServerAction Pdu) : Prop :=
  match a with
  | .poll v => NamesRead conv s v
  | .putResponse v _ | .reply v _ | .cancelDone v => NamesAccepted conv s v a
  | .start | .putProgress _ => True

/-- The application answers with a packet of `get_response_buffer`. -/
def UsesBuffer (s : ServerSystem Pdu × Asked) : ServerAction Pdu → Prop
  | .putResponse v p => ∃ status code, getResponseBuffer conv v status code s.1.protocol = some p
  | .reply v p => ∃ status code, getResponseBuffer conv v status code s.1.protocol = some p
  | _ => True

/-- A request comes to an IDLE slot while the requests of all other slots have ended. -/
def AcceptsAlone (s : ServerSystem Pdu × Asked) : ServerAction Pdu → Prop
  | .poll v =>
    let q := s.1.protocol.resetIfNewRun s.1.generation
    q.currentState = .idle → ∀ h p, recvRequest conv v q q.currentClientId = .valid h p →
      h.opcode = OperationCode.request.code → ∀ k ≠ q.currentClientId, q.server.state k = .idle
  | _ => True

/-- A packet that gets a status report has the id of the request header that the server keeps. -/
def AnswersOwn (s : ServerSystem Pdu × Asked) : ServerAction Pdu → Prop
  | .poll v =>
    let q := s.1.protocol.resetIfNewRun s.1.generation
    v.getRequest q.currentClientId ≠ none →
      ∀ status code, report conv v q = some (status, code) → canPut v q = true →
        conv.response.cpp2pdu (setResponseHeader v q status code) ≠ none →
        decodedId conv v q.currentClientId = some q.requestHeader.requestId
  | _ => True

variable {conv}

theorem pollCurrent_sent_iff (conv : Convertors Pdu) (v : ServerView Pdu)
    (s : ServerProtocol Pdu) (r : Sent Pdu) :
    (pollCurrent conv v s).sent = some r ↔ ∃ status code p, report conv v s = some (status, code) ∧
      conv.response.cpp2pdu (setResponseHeader v s status code) = some p ∧
      r = ⟨s.currentClientId, p, canPut v s⟩ := by
  have hout := pollCurrent_outcome conv v s
  generalize pollCurrent conv v s = t at hout
  cases hout with
  | reported status code t hr =>
    rcases sendResponse_cases conv v status code s with ⟨henc, hs⟩ | ⟨p, henc, hs⟩
    · simp [hs, hr, henc]
    · simp [hs, hr, henc, reply_sent, eq_comm]
  | quiet t hr hrecv => simp [hr]
  | accepted h p hrecv hidle hop =>
    have hr : report conv v s = none := by simp [report, hrecv, hidle]
    simp [hr]
  | canceled h p hrecv hdoing hop =>
    have hr : report conv v s = none := report_of_cancel hrecv hop (by simp [hdoing])
    simp [hr]

theorem decodedId_of_valid {v : ServerView Pdu} {s : ServerProtocol Pdu} {j : ℕ}
    {h : RequestHeader} {p : Pdu} (hrecv : recvRequest conv v s j = .valid h p) :
    decodedId conv v j = some h.requestId := by
  unfold recvRequest at hrecv
  split at hrecv
  · cases hrecv
  · split at hrecv
    · cases hrecv
    · rename_i q hget
      split at hrecv
      · cases hrecv
      · rename_i h' hdecode
        split at hrecv
        · cases hrecv
          rw [decodedId, hget, Option.bind_some, hdecode, Option.map_some]
        · cases hrecv

/-- The operation accepts nothing: the request header stays, and no slot becomes busy. -/
structure Quietens (s s' : ServerProtocol Pdu) : Prop where
  header : s'.requestHeader = s.requestHeader
  busy : ∀ k, s'.server.state k ≠ .idle → s.server.state k ≠ .idle

theorem reply_quietens (v : ServerView Pdu) (p : Pdu) (s : ServerProtocol Pdu) :
    Quietens s (reply v p s).protocol := by
  rw [reply_protocol]
  refine ⟨rfl, fun k hk => ?_⟩
  dsimp only at hk
  split at hk
  · exact update_idle_ne hk
  · exact hk

theorem sendResponse_quietens (conv : Convertors Pdu) (v : ServerView Pdu)
    (status : ServiceStatus) (code : ResultCode) (s : ServerProtocol Pdu) : Quietens s (sendResponse conv v status code s).protocol := by
  rcases sendResponse_cases conv v status code s with ⟨-, hs⟩ | ⟨p, -, hs⟩
  · rw [hs]
    exact ⟨rfl, fun _ hk => hk⟩
  · rw [hs]
    exact reply_quietens v p s

theorem cancelDone_quietens {N : ℕ} {s : ServerProtocol Pdu} (hok : ServerOk N s)
    (v : ServerView Pdu) : Quietens s (cancelDone conv v s).protocol := by
  have hsend := sendResponse_quietens conv v .done .canceled s
  have hmax := (hok.sendResponse conv v .done .canceled).inMax
  refine ⟨hsend.header, fun k hk => hsend.busy k ?_⟩
  simp only [cancelDone, ServiceServer.nextClient, eventDone_getD hmax] at hk
  exact update_idle_ne hk

/-- The requests in progress are those of the request header that the server keeps. -/
structure Recalls (N : ℕ) (s : ServerSystem Pdu × Asked) : Prop where
  ok : ServerOk N s.1.protocol
  asked : ∀ k, s.1.protocol.server.state k ≠ .idle →
    s.2 k = some s.1.protocol.requestHeader.requestId

theorem Recalls.quietens {N : ℕ} {s : ServerSystem Pdu × Asked} (h : Recalls N s)
    {t : ServerSystem Pdu} (hok : ServerOk N t.protocol) (hq : Quietens s.1.protocol t.protocol) :
    Recalls N (t, s.2) := by
  refine ⟨hok, fun k hk => ?_⟩
  rw [h.asked k (hq.busy k hk), hq.header]

theorem Recalls.reset {N : ℕ} {s : ServerSystem Pdu × Asked} (h : Recalls N s) (g : ℕ) :
    Recalls N (⟨s.1.generation, s.1.protocol.resetIfNewRun g⟩, s.2) := by
  refine ⟨h.ok.resetIfNewRun g, ?_⟩
  unfold ServerProtocol.resetIfNewRun
  split
  · exact h.asked
  · exact fun k hk => absurd rfl hk

theorem Recalls.poll {N : ℕ} {s : ServerSystem Pdu × Asked} (h : Recalls N s)
    {v : ServerView Pdu} (halone : AcceptsAlone conv s (.poll v)) :
    Recalls N (askedStep conv s (.poll v)) := by
  have hreset := h.reset s.1.generation
  simp only [AcceptsAlone] at halone
  refine ⟨serverStep_ok h.ok _, ?_⟩
  show ∀ k, (Service.poll conv s.1.generation v s.1.protocol).protocol.server.state k ≠ .idle →
    (if (Service.poll conv s.1.generation v s.1.protocol).event = .requestIn then _ else s.2) k =
      some (Service.poll conv s.1.generation v s.1.protocol).protocol.requestHeader.requestId
  rw [Service.poll]
  have hout := pollCurrent_outcome conv v (s.1.protocol.resetIfNewRun s.1.generation)
  generalize Service.pollCurrent conv v (s.1.protocol.resetIfNewRun s.1.generation) = r
    at hout ⊢
  cases hout with
  | reported status code t hr =>
    intro k hk
    have hq := sendResponse_quietens conv v status code
      (s.1.protocol.resetIfNewRun s.1.generation)
    rw [if_neg (by simp), hreset.asked k (hq.busy k hk)]
    exact congrArg (fun d : RequestHeader => some d.requestId) hq.header.symm
  | quiet t hr hrecv =>
    intro k hk
    rw [if_neg (by simp)]
    exact hreset.asked k hk
  | accepted hd p hrecv hidle hop =>
    intro k hk
    rw [if_pos rfl]
    by_cases hj : k = (s.1.protocol.resetIfNewRun s.1.generation).currentClientId
    · rw [hj, Function.update_self, decodedId_of_valid hrecv]
      rfl
    · dsimp only at hk
      rw [hreset.ok.acceptRequest_server hidle] at hk
      exact absurd (halone hidle hd p hrecv hop k hj) (by simpa [hj] using hk)
  | canceled hd p hrecv hdoing hop =>
    intro k hk
    rw [if_neg (by simp)]
    refine hreset.asked k ?_
    dsimp only at hk
    rw [hreset.ok.cancel_server hdoing] at hk
    by_cases hj : k = (s.1.protocol.resetIfNewRun s.1.generation).currentClientId
    · intro hidle
      rw [hj] at hidle
      rw [ServerProtocol.currentState, ServiceServer.getState] at hdoing
      rw [hidle] at hdoing
      cases hdoing
    · simpa [hj] using hk

theorem Recalls.step {N : ℕ} {s : ServerSystem Pdu × Asked} (h : Recalls N s)
    {a : ServerAction Pdu} (halone : AcceptsAlone conv s a) : Recalls N (askedStep conv s a) := by
  have hok : ServerOk N (serverStep conv s.1 a).protocol := serverStep_ok h.ok a
  cases a with
  | start => exact ⟨hok, h.asked⟩
  | poll v => exact h.poll halone
  | putResponse v p =>
    refine h.quietens hok ?_
    show Quietens s.1.protocol (replyToCurrentRequest s.1.generation v p s.1.protocol).protocol
    unfold replyToCurrentRequest
    split
    · exact reply_quietens v p _
    · exact ⟨rfl, fun _ hk => hk⟩
  | reply v p => exact h.quietens hok (reply_quietens v p _)
  | cancelDone v => exact h.quietens hok (cancelDone_quietens h.ok v)
  | putProgress percentage => exact h.quietens hok ⟨rfl, fun _ hk => hk⟩

/-- A header that the response convertor writes is read back by the receiver. -/
def Convertor.ReadsBack {Header : Type} (c : Convertor Header Pdu) : Prop :=
  ∀ h p, c.cpp2pdu h = some p → c.pdu2cpp p = some h

theorem readsAs_of_header (hround : conv.response.ReadsBack) {v : ServerView Pdu}
    {s : ServerProtocol Pdu} {status : ServiceStatus} {code : ResultCode} {p : Pdu} {id : Option ℕ}
    {accepted : Bool} (henc : conv.response.cpp2pdu (setResponseHeader v s status code) = some p) :
    ReadsAs conv v ⟨s.currentClientId, p, accepted⟩ id ↔ id = some s.requestHeader.requestId := by
  have hread := hround _ _ henc
  constructor
  · rintro ⟨h, hh, hid, -⟩
    rw [hread] at hh
    cases hh
    exact hid
  · intro hid
    exact ⟨_, hread, hid, rfl⟩

theorem namesRead_iff (hround : conv.response.ReadsBack) (s : ServerSystem Pdu × Asked)
    (v : ServerView Pdu) : NamesRead conv s v ↔ AnswersOwn conv s (.poll v) := by
  simp only [NamesRead, AnswersOwn, poll]
  refine forall_congr' fun _ => ?_
  constructor
  · intro hnames status code hreport hput henc
    obtain ⟨p, hp⟩ := Option.ne_none_iff_exists'.mp henc
    have hsent := (pollCurrent_sent_iff conv v
      (s.1.protocol.resetIfNewRun s.1.generation) _).mpr ⟨status, code, p, hreport, hp, rfl⟩
    exact (readsAs_of_header hround hp).mp (hnames _ hsent hput).2
  · intro hown r hsent haccepted
    obtain ⟨status, code, p, hreport, hp, rfl⟩ := (pollCurrent_sent_iff conv v _ r).mp hsent
    have hid := hown status code hreport haccepted (by simp [hp])
    exact ⟨rfl, (readsAs_of_header hround hp).mpr hid⟩

theorem Recalls.namesAccepted {N : ℕ} {s : ServerSystem Pdu × Asked} (h : Recalls N s)
    (hround : conv.response.ReadsBack) {a : ServerAction Pdu} {v : ServerView Pdu}
    (hsent : ∀ r, (operation conv s.1 a).sent = some r → ∃ status code p accepted,
      conv.response.cpp2pdu (setResponseHeader v s.1.protocol status code) = some p ∧
        r = ⟨s.1.protocol.currentClientId, p, accepted⟩) : NamesAccepted conv s v a := by
  intro hbusy r hr _
  obtain ⟨status, code, p, accepted, henc, rfl⟩ := hsent r hr
  exact (readsAs_of_header hround henc).mpr (h.asked _ hbusy)

theorem Recalls.namesPacket_iff {N : ℕ} {s : ServerSystem Pdu × Asked} (h : Recalls N s)
    (hround : conv.response.ReadsBack) {a : ServerAction Pdu} (hbuf : UsesBuffer conv s a) :
    NamesPacket conv s a ↔ AnswersOwn conv s a := by
  cases a with
  | start => exact Iff.rfl
  | poll v => exact namesRead_iff hround s v
  | putResponse v p =>
    refine iff_of_true (h.namesAccepted hround fun r hr => ?_) trivial
    obtain ⟨status, code, henc⟩ := hbuf
    simp only [operation, replyToCurrentRequest] at hr
    split at hr
    · exact ⟨status, code, p, _, henc, (Option.some.inj hr).symm⟩
    · cases hr
  | reply v p =>
    refine iff_of_true (h.namesAccepted hround fun r hr => ?_) trivial
    obtain ⟨status, code, henc⟩ := hbuf
    exact ⟨status, code, p, _, henc, (Option.some.inj hr).symm⟩
  | cancelDone v =>
    refine iff_of_true (h.namesAccepted hround fun r hr => ?_) trivial
    have hr' : (sendResponse conv v .done .canceled s.1.protocol).sent = some r := hr
    rcases sendResponse_cases conv v .done .canceled s.1.protocol with ⟨-, hs⟩ | ⟨p, henc, hs⟩
    · rw [hs] at hr'
      cases hr'
    · rw [hs] at hr'
      exact ⟨.done, .canceled, p, _, henc, (Option.some.inj hr').symm⟩
  | putProgress percentage => exact Iff.rfl

variable (conv)

/-- In a run in which the application answers with packets of `get_response_buffer` and a
request is accepted while all others have ended: every response names the packet it answers if
and only if each packet that gets a status report has the id of the server's request header. -/
theorem responses_name_packet_iff (hround : conv.response.ReadsBack) (name : Name) {N : ℕ}
    (hN : 0 < N) (g : ℕ) (as : List (ServerAction Pdu))
    (hbuf : Along (askedStep conv) (UsesBuffer conv) (.initial name N g, fun _ => none) as)
    (halone : Along (askedStep conv) (AcceptsAlone conv) (.initial name N g, fun _ => none) as) :
    Along (askedStep conv) (NamesPacket conv) (.initial name N g, fun _ => none) as ↔
      Along (askedStep conv) (AnswersOwn conv) (.initial name N g, fun _ => none) as := by
  have hfirst : Recalls N ((.initial name N g, fun _ => none) : ServerSystem Pdu × Asked) :=
    ⟨initial_ok name hN g, fun _ hk => absurd rfl hk⟩
  refine along_iff_within (I := Recalls N) ?_ ?_ hfirst (along_and hbuf halone)
  · intro s a hs ha _
    exact hs.step ha.2
  · intro s a hs ha
    exact hs.namesPacket_iff hround ha.1

end

theorem plainResponse_readsBack : plainConvertors.response.ReadsBack := by
  intro h p henc
  cases henc
  rfl

/-- The final response to the request that `asking` sends. -/
def plainReply : PlainPacket := .inr ⟨1, [120], [97], ServiceStatus.done.code, 0, 0⟩

def askedAnswered : List (ServerAction PlainPacket) :=
  [.poll (plainView 1 5 (asking 0 0)), .putResponse (plainView 1 7 silent) plainReply]

theorem responses_name_packet_answered :
    Along (askedStep plainConvertors) (NamesPacket plainConvertors)
      (.initial [120] 1 0, fun _ => none) askedAnswered := by
  refine (responses_name_packet_iff plainConvertors plainResponse_readsBack [120]
    (by decide : 0 < 1) 0 askedAnswered ?_ ?_).mpr ?_
  · exact ⟨trivial, ⟨.done, .ok, rfl⟩, trivial⟩
  · exact ⟨fun _ _ _ _ _ _ _ => rfl, trivial, trivial⟩
  · refine ⟨fun _ status code hreport => ?_, trivial, trivial⟩
    have hnone : report plainConvertors (plainView 1 5 (asking 0 0)) (.initial [120] 1 0) = none := by
      decide
    have hsome : none = some (status, code) := hnone.symm.trans hreport
    cases hsome

def secondRequest (k : ℕ) : Option PlainPacket :=
  if k = 0 then some (.inl ⟨2, [120], [97], OperationCode.request.code, 0⟩) else none

/-- While the request 1 is served, the request 2 is answered BUSY, under the id 1. -/
theorem busy_names_other :
    ¬ Along (askedStep plainConvertors) (NamesPacket plainConvertors)
      (.initial [120] 1 0, fun _ => none)
      [.poll (plainView 1 5 (asking 0 0)), .poll (plainView 1 6 secondRequest)] := by
  rintro ⟨-, hread, -⟩
  have hid := (namesRead_iff plainResponse_readsBack _ _).mp hread (by decide) .doing .busy
    (by decide) (by decide) (by decide)
  revert hid
  decide

end Service
end HakoniwaCorePro
