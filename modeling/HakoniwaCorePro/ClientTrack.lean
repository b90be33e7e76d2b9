import HakoniwaCorePro.ClientOps

/-!
# What a client is owed

The operations of `HakoServiceClientProtocol` over runs of any length, beside a record of what
has happened: the requests that were accepted and the valid responses that came. From that
record a `Track` says what the request in progress is, when it was last heard of and how far it
has got; the fields of the client are compared with it.
-/

namespace HakoniwaCorePro
namespace Service

open Runs

inductive ClientNote
  | newRun
  | accepted (header : Option RequestHeader) (timeoutMsec time : ℤ)
  | response (header : ResponseHeader) (time : ℤ)

/-- The last accepted request: its id, the time of its acceptance or last response, and the
percentage of the last progress report for it. -/
structure Track where
  requestId : ℕ
  timeoutMsec : ℤ
  confirmed : ℤ
  progress : Option ℕ
  deriving DecidableEq

/-- A response counts for the request whose id it carries. -/
def Track.respond (tr : Track) (h : ResponseHeader) (time : ℤ) : Track :=
  if h.requestId = tr.requestId then
    { tr with
      confirmed := time
      progress := if h.status = ServiceStatus.doing.code then some h.processingPercentage
        else tr.progress }
  else tr

def Track.start (header : Option RequestHeader) (timeoutMsec time : ℤ) : Track where
  requestId := (header.getD .empty).requestId
  timeoutMsec := timeoutMsec
  confirmed := time
  progress := none

def note (tr : Option Track) : ClientNote → Option Track
  | .newRun => none
  | .accepted header timeoutMsec time => some (.start header timeoutMsec time)
  | .response h time => tr.map fun t => t.respond h time

def tracked (l : List ClientNote) : Option Track := l.foldl note none

@[simp] theorem tracked_concat (l : List ClientNote) (n : ClientNote) :
    tracked (l ++ [n]) = note (tracked l) n := by
  simp [tracked]

@[simp] theorem respond_requestId (tr : Track) (h : ResponseHeader) (time : ℤ) :
    (tr.respond h time).requestId = tr.requestId := by
  unfold Track.respond
  split <;> rfl

@[simp] theorem respond_timeoutMsec (tr : Track) (h : ResponseHeader) (time : ℤ) :
    (tr.respond h time).timeoutMsec = tr.timeoutMsec := by
  unfold Track.respond
  split <;> rfl

section

variable {Pdu : Type} (conv : Convertors Pdu)

/-- The operations of `HakoServiceClientProtocol`, which do not ask whether the simulation runs. -/
def perform (c : ClientProtocol Pdu) (k : ClientCall Pdu) :
    ClientProtocol Pdu × ClientAnswer Pdu :=
  match k.op with
  | .request p timeoutMsec =>
    let r := c.request conv k.world.generation k.world.toClientView p timeoutMsec
    (r.protocol, r.answer k.world.toClientView)
  | .poll => callPoll conv k.world c
  | .cancelRequest => callCancelRequest conv k.world c

def protocolStep (c : ClientProtocol Pdu) (k : ClientCall Pdu) : ClientProtocol Pdu :=
  (perform conv c k).1

/-- What `poll` finds; an IDLE client does not look. -/
def ClientProtocol.received (v : ClientView Pdu) (c : ClientProtocol Pdu) :
    ReceivedResponse Pdu :=
  if c.state = .idle then .nothing else recvResponse conv v c

def runNotes (g : ℕ) (c : ClientProtocol Pdu) : List ClientNote :=
  if g = c.runGeneration then [] else [.newRun]

def responseNotes (time : ℤ) : ReceivedResponse Pdu → List ClientNote
  | .valid h _ => [.response h time]
  | _ => []

def notes (c : ClientProtocol Pdu) (k : ClientCall Pdu) : List ClientNote :=
  match k.op with
  | .request p timeoutMsec => runNotes k.world.generation c ++
      if k.world.putRequest then
        [.accepted (conv.request.pdu2cpp p) timeoutMsec k.world.worldTimeUsec]
      else []
  | .poll => runNotes k.world.generation c ++ responseNotes k.world.worldTimeUsec
      ((c.resetIfNewRun k.world.generation).received conv k.world.toClientView)
  | .cancelRequest => []

abbrev Observed (Pdu : Type) := ClientProtocol Pdu × List ClientNote

def observedStep : Observed Pdu → ClientCall Pdu → Observed Pdu :=
  logged (protocolStep conv) (notes conv)

/-- The client and the record as a call finds them once it has looked at the run generation. -/
def Observed.current (g : ℕ) (s : Observed Pdu) : Observed Pdu :=
  (s.1.resetIfNewRun g, s.2 ++ runNotes g s.1)

variable {conv}

theorem observedStep_request (s : Observed Pdu) (w : ClientWorld Pdu) (p : Pdu) (timeoutMsec : ℤ) :
    observedStep conv s ⟨.request p timeoutMsec, w⟩ =
      if w.putRequest then
        ((s.1.request conv w.generation w.toClientView p timeoutMsec).protocol,
          (s.current w.generation).2 ++
            [.accepted (conv.request.pdu2cpp p) timeoutMsec w.worldTimeUsec])
      else s.current w.generation := by
  cases hput : w.putRequest with
  | true => simp [observedStep, logged, protocolStep, perform, notes, Observed.current, hput]
  | false =>
    simp [observedStep, logged, protocolStep, perform, notes, Observed.current, hput,
      ClientProtocol.request]

theorem request_protocol {c : ClientProtocol Pdu} {g : ℕ} {v : ClientView Pdu}
    (hput : v.putRequest = true) (p : Pdu) (timeoutMsec : ℤ) :
    (c.request conv g v p timeoutMsec).protocol =
      { c.resetIfNewRun g with
        timeoutMsec := timeoutMsec
        lastPollTime := 0
        heartbeatConfirmedTime := int32 v.worldTimeUsec
        requestHeader := (conv.request.pdu2cpp p).getD .empty
        client := (c.resetIfNewRun g).client.eventStartService.getD (c.resetIfNewRun g).client } := by
  simp [ClientProtocol.request, hput]

theorem observedStep_poll_quiet {s : Observed Pdu} {w : ClientWorld Pdu}
    (h : ∀ h p, (s.current w.generation).1.received conv w.toClientView ≠ .valid h p) :
    observedStep conv s ⟨.poll, w⟩ = s.current w.generation := by
  have hnotes : responseNotes w.worldTimeUsec
      ((s.1.resetIfNewRun w.generation).received conv w.toClientView) = [] := by
    cases hr : (s.1.resetIfNewRun w.generation).received conv w.toClientView with
    | valid hd p => exact absurd hr (h hd p)
    | nothing => rfl
    | rejected => rfl
  have hclient : (s.1.poll conv w.generation w.toClientView).1 = s.1.resetIfNewRun w.generation := by
    unfold ClientProtocol.poll ClientProtocol.pollCurrent
    split
    · rfl
    · rename_i hbusy
      have hr := h
      simp only [Observed.current, ClientProtocol.received, hbusy, if_false] at hr
      cases hrecv : recvResponse conv w.toClientView (s.1.resetIfNewRun w.generation) with
      | valid hd p => exact absurd hrecv (hr hd p)
      | nothing =>
        simp only
        split <;> rfl
      | rejected => rfl
  simp [observedStep, logged, protocolStep, perform, callPoll, notes, Observed.current, hnotes,
    hclient]

theorem observedStep_poll_valid {s : Observed Pdu} {w : ClientWorld Pdu} {h : ResponseHeader}
    {p : Pdu} (hr : (s.current w.generation).1.received conv w.toClientView = .valid h p) :
    (s.current w.generation).1.state ≠ .idle ∧ observedStep conv s ⟨.poll, w⟩ =
      ((pollResponse w.toClientView h p (s.current w.generation).1).1,
        (s.current w.generation).2 ++ [.response h w.worldTimeUsec]) := by
  have hbusy : (s.current w.generation).1.state ≠ .idle := by
    intro hidle
    simp [ClientProtocol.received, hidle] at hr
  refine ⟨hbusy, ?_⟩
  have hrecv : recvResponse conv w.toClientView (s.1.resetIfNewRun w.generation) = .valid h p := by
    rwa [ClientProtocol.received, if_neg hbusy] at hr
  have hnotes : responseNotes w.worldTimeUsec
      ((s.1.resetIfNewRun w.generation).received conv w.toClientView) =
        [.response h w.worldTimeUsec] := by
    have hr' : (s.1.resetIfNewRun w.generation).received conv w.toClientView = .valid h p := hr
    rw [hr', responseNotes]
  have hclient : (s.1.poll conv w.generation w.toClientView).1 =
      (pollResponse w.toClientView h p (s.1.resetIfNewRun w.generation)).1 := by
    have hbusy' : (s.1.resetIfNewRun w.generation).state ≠ .idle := hbusy
    simp [ClientProtocol.poll, ClientProtocol.pollCurrent, hbusy', hrecv]
  simp [observedStep, logged, protocolStep, perform, callPoll, notes, Observed.current, hnotes,
    hclient]

theorem observedStep_cancel (conv : Convertors Pdu) (s : Observed Pdu) (w : ClientWorld Pdu) :
    observedStep conv s ⟨.cancelRequest, w⟩ = s ∨
      s.1.state = .doing ∧ observedStep conv s ⟨.cancelRequest, w⟩ =
        ({ s.1 with client := { s.1.client with state := .canceling } }, s.2) := by
  simp only [observedStep, logged, protocolStep, perform, notes, List.append_nil]
  by_cases hwrites : WritesCancel conv w.toClientView s.1
  · right
    obtain ⟨hdoing, hput, henc⟩ := hwrites
    obtain ⟨q, hq⟩ := Option.ne_none_iff_exists'.mp henc
    refine ⟨hdoing, ?_⟩
    simp only [callCancelRequest, ClientProtocol.cancelRequest]
    simp [hdoing, hq, hput, ServiceClient.eventCancelService]
  · left
    rw [callCancelRequest_of_not_writes hwrites]

theorem current_state_of_stale {s : Observed Pdu} {g : ℕ} (h : g ≠ s.1.runGeneration) :
    (s.current g).1.state = .idle := by
  rw [Observed.current, resetIfNewRun_of_ne h, fresh_state]

theorem current_of_same {s : Observed Pdu} {g : ℕ} (h : g = s.1.runGeneration) :
    s.current g = s := by
  rw [Observed.current, resetIfNewRun_of_eq h, runNotes, if_pos h, List.append_nil]

theorem current_of_busy {s : Observed Pdu} {g : ℕ} (hbusy : (s.current g).1.state ≠ .idle) :
    s.current g = s := by
  by_cases h : g = s.1.runGeneration
  · exact current_of_same h
  · exact absurd (current_state_of_stale h) hbusy

theorem pollResponse_kept (v : ClientView Pdu) (h : ResponseHeader) (p : Pdu)
    (c : ClientProtocol Pdu) :
    (pollResponse v h p c).1.requestHeader = c.requestHeader ∧
      (pollResponse v h p c).1.timeoutMsec = c.timeoutMsec ∧
      (pollResponse v h p c).1.heartbeatConfirmedTime = int32 v.worldTimeUsec := by
  unfold pollResponse
  dsimp only
  split_ifs <;> exact ⟨rfl, rfl, rfl⟩

/-- While a request is in progress, the record knows of it and `R` ties the two. -/
def Tied (R : Track → ClientProtocol Pdu → Prop) (s : Observed Pdu) : Prop :=
  s.1.state ≠ .idle → ∃ tr, tracked s.2 = some tr ∧ R tr s.1

theorem tied_current {R : Track → ClientProtocol Pdu → Prop} {s : Observed Pdu}
    (hs : Tied R s) (g : ℕ) : Tied R (s.current g) := by
  intro hbusy
  have hsame := current_of_busy hbusy
  rw [hsame] at hbusy ⊢
  exact hs hbusy

/-- What ties client and record is kept by a call if it is set up by a request, kept by a valid
response, and does not depend on whether the client is canceling. -/
theorem tied_step {R : Track → ClientProtocol Pdu → Prop} {s : Observed Pdu}
    {k : ClientCall Pdu} (hs : Tied R s)
    (hrequest : ∀ p timeoutMsec, k.op = .request p timeoutMsec → k.world.putRequest = true →
      R (.start (conv.request.pdu2cpp p) timeoutMsec k.world.worldTimeUsec)
        (s.1.request conv k.world.generation k.world.toClientView p timeoutMsec).protocol)
    (hrespond : ∀ h p tr, k.op = .poll →
      (s.current k.world.generation).1.received conv k.world.toClientView = .valid h p →
      tracked (s.current k.world.generation).2 = some tr → R tr (s.current k.world.generation).1 →
      R (tr.respond h k.world.worldTimeUsec)
        (pollResponse k.world.toClientView h p (s.current k.world.generation).1).1)
    (hcancel : ∀ tr c, R tr c → R tr { c with client := { c.client with state := .canceling } }) :
    Tied R (observedStep conv s k) := by
  obtain ⟨op, w⟩ := k
  have hcur := tied_current hs w.generation
  cases op with
  | request p timeoutMsec =>
    rw [observedStep_request]
    cases hput : w.putRequest with
    | false => simpa using hcur
    | true =>
      intro _
      exact ⟨_, tracked_concat _ _, hrequest p timeoutMsec rfl hput⟩
  | poll =>
    by_cases hvalid : ∃ h p,
        (s.current w.generation).1.received conv w.toClientView = .valid h p
    · obtain ⟨h, p, hr⟩ := hvalid
      obtain ⟨hbusy, hstep⟩ := observedStep_poll_valid hr
      obtain ⟨tr, htr, hR⟩ := hcur hbusy
      rw [hstep]
      intro _
      refine ⟨tr.respond h w.worldTimeUsec, ?_, hrespond h p tr rfl hr htr hR⟩
      rw [tracked_concat, htr, note, Option.map_some]
    · rwa [observedStep_poll_quiet fun h p hr => hvalid ⟨h, p, hr⟩]
  | cancelRequest =>
    rcases observedStep_cancel conv s w with hsame | ⟨hdoing, hstep⟩
    · rwa [hsame]
    · obtain ⟨tr, htr, hR⟩ := hs (by rw [hdoing]; decide)
      rw [hstep]
      intro _
      exact ⟨tr, htr, hcancel tr s.1 hR⟩

end

end Service
end HakoniwaCorePro
