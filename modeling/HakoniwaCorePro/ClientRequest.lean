import HakoniwaCorePro.ClientTrack

/-!
# What `request` does to a client

`request` hands its packet to the channel first and looks at the state of the client afterwards.
It takes effect as a whole or not at all where the client is IDLE and the packet can be read.
-/

namespace HakoniwaCorePro
namespace Service

open Runs

/-- The ids of the requests accepted in this run. -/
def noteId (ids : List ℕ) : ClientNote → List ℕ
  | .newRun => []
  | .accepted header _ _ => ids ++ (header.map (·.requestId)).toList
  | .response _ _ => ids

def acceptedIds (l : List ClientNote) : List ℕ := l.foldl noteId []

@[simp] theorem acceptedIds_concat (l : List ClientNote) (n : ClientNote) :
    acceptedIds (l ++ [n]) = noteId (acceptedIds l) n := by
  simp [acceptedIds]

section

variable {Pdu : Type} (conv : Convertors Pdu)

/-- The client is IDLE, the packet's header can be read, and the channel takes the packet. -/
def CanRequest (c : ClientProtocol Pdu) (v : ClientView Pdu) (p : Pdu) : Prop :=
  c.state = .idle ∧ (∃ h, conv.request.pdu2cpp p = some h) ∧ v.putRequest = true

/-- `request` takes effect as a whole, with an id that is none of `earlier`, where it can be
made, and otherwise not at all. -/
def AllOrNothing (earlier : List ℕ) (c : ClientProtocol Pdu) (w : ClientWorld Pdu) (p : Pdu)
    (timeoutMsec : ℤ) : Prop :=
  let c' := c.resetIfNewRun w.generation
  let r := c.request conv w.generation w.toClientView p timeoutMsec
  (CanRequest conv c' w.toClientView p → r.returned = true ∧ w.written r.sent = some p ∧
    r.protocol.state = .doing ∧ conv.request.pdu2cpp p = some r.protocol.requestHeader ∧
    r.protocol.requestHeader.requestId ∉ earlier) ∧
  (¬ CanRequest conv c' w.toClientView p → r.returned = false ∧ w.written r.sent = none ∧
    r.protocol = c')

/-- Each `request` of the run is all or nothing, with the ids accepted before it in this run. -/
def RequestsWhole (s : Observed Pdu) (k : ClientCall Pdu) : Prop :=
  match k.op with
  | .request p timeoutMsec =>
    AllOrNothing conv (acceptedIds (s.current k.world.generation).2) s.1 k.world p timeoutMsec
  | _ => True

/-- A request that is accepted is made while the client is IDLE, with a packet whose header has
the id that `get_request_buffer` gives now, and before the ids of this run are used up. -/
def AsksInTurn (s : Observed Pdu) (k : ClientCall Pdu) : Prop :=
  match k.op with
  | .request p _ => k.world.putRequest = true →
      (s.current k.world.generation).1.state = .idle ∧
      (∃ h, conv.request.pdu2cpp p = some h ∧ h.requestId = uint32 s.1.requestId) ∧
      (acceptedIds (s.current k.world.generation).2).length < 2 ^ 32
  | _ => True

variable {conv}

theorem allOrNothing_iff (earlier : List ℕ) (c : ClientProtocol Pdu) (w : ClientWorld Pdu) (p : Pdu)
    (timeoutMsec : ℤ) : AllOrNothing conv earlier c w p timeoutMsec ↔ (w.putRequest = true →
      (c.resetIfNewRun w.generation).state = .idle ∧
        ∃ h, conv.request.pdu2cpp p = some h ∧ h.requestId ∉ earlier) := by
  constructor
  · rintro ⟨hwhole, hnothing⟩ hput
    by_cases hcan : CanRequest conv (c.resetIfNewRun w.generation) w.toClientView p
    · obtain ⟨-, -, -, hheader, hfresh⟩ := hwhole hcan
      exact ⟨hcan.1, _, hheader, hfresh⟩
    · have hreturned := (hnothing hcan).1
      simp [ClientProtocol.request, hput] at hreturned
  · intro h
    constructor
    · rintro ⟨hidle, -, hput⟩
      obtain ⟨-, hd, hdecode, hfresh⟩ := h hput
      have hclient : (c.resetIfNewRun w.generation).client.state = .idle := hidle
      simp only [ClientProtocol.request, hput, if_true, hdecode, Option.getD_some,
        ClientView.written, ServiceClient.eventStartService, hclient]
      exact ⟨trivial, trivial, rfl, trivial, hfresh⟩
    · intro hcan
      have hput : w.putRequest = false := by
        rw [← Bool.not_eq_true]
        intro hput
        obtain ⟨hidle, hd, hdecode, -⟩ := h hput
        exact hcan ⟨hidle, ⟨hd, hdecode⟩, hput⟩
      simp [ClientProtocol.request, ClientView.written, hput]

/-- The ids of a run are consecutive: `first`, `first + 1`, and so on. -/
def consecutiveIds (first : ℤ) (n : ℕ) : List ℕ := (List.range n).map fun i : ℕ => uint32 (first + i)

theorem consecutiveIds_succ (first : ℤ) (n : ℕ) :
    consecutiveIds first (n + 1) = consecutiveIds first n ++ [uint32 (first + n)] := by
  simp [consecutiveIds, List.range_succ]

theorem next_notMem_consecutiveIds (first : ℤ) {n : ℕ} (hn : n < 2 ^ 32) :
    uint32 (first + n) ∉ consecutiveIds first n := by
  simp only [consecutiveIds, List.mem_map, List.mem_range, not_exists, not_and]
  intro i hi heq
  unfold uint32 at heq
  omega

/-- The accepted ids are consecutive, and the client's counter stands at the next one, or, while
a request is in progress, at that request's. -/
def Numbered (s : Observed Pdu) : Prop :=
  ∃ first : ℤ, ∃ n : ℕ, acceptedIds s.2 = consecutiveIds first n ∧
    (s.1.state = .idle → s.1.requestId = first + n) ∧
    (s.1.state ≠ .idle → s.1.requestId + 1 = first + n)

theorem reset_requestId (g : ℕ) (c : ClientProtocol Pdu) :
    (c.resetIfNewRun g).requestId = c.requestId := by
  unfold ClientProtocol.resetIfNewRun
  split <;> rfl

theorem numbered_current {s : Observed Pdu} (hs : Numbered s) (g : ℕ) : Numbered (s.current g) := by
  by_cases h : g = s.1.runGeneration
  · rwa [current_of_same h]
  · refine ⟨s.1.requestId, 0, ?_, fun _ => ?_, fun hbusy => absurd (current_state_of_stale h) hbusy⟩
    · simp [Observed.current, runNotes, h, noteId, consecutiveIds]
    · simp [Observed.current, resetIfNewRun_of_ne h, ClientProtocol.fresh]

theorem pollResponse_requestId (v : ClientView Pdu) (h : ResponseHeader) (p : Pdu)
    {c : ClientProtocol Pdu} (hbusy : c.state ≠ .idle) :
    ((pollResponse v h p c).1.state = .idle ∧
        (pollResponse v h p c).1.requestId = c.requestId + 1) ∨
      ((pollResponse v h p c).1.state ≠ .idle ∧
        (pollResponse v h p c).1.requestId = c.requestId) := by
  have hclient : c.client.state ≠ .idle := hbusy
  have hdone : c.client.eventDoneService = some { c.client with state := .idle } := by
    cases hstate : c.client.state <;> simp_all [ServiceClient.eventDoneService]
  unfold pollResponse finishRequest copyResponse
  dsimp only
  rw [hdone]
  split_ifs <;> first
    | exact Or.inl ⟨rfl, rfl⟩
    | exact Or.inr ⟨hbusy, rfl⟩

theorem numbered_request {s : Observed Pdu} {w : ClientWorld Pdu} {p : Pdu} {timeoutMsec : ℤ}
    (hs : Numbered s) (hasks : AsksInTurn conv s ⟨.request p timeoutMsec, w⟩) :
    Numbered (observedStep conv s ⟨.request p timeoutMsec, w⟩) := by
  have hcur := numbered_current hs w.generation
  rw [observedStep_request]
  by_cases hput : w.putRequest = true
  · rw [if_pos hput]
    obtain ⟨hidle, ⟨h, hdecode, hid⟩, -⟩ := hasks hput
    obtain ⟨first, n, hids, hnext, -⟩ := hcur
    have hcounter : s.1.requestId = first + n := by
      rw [← hnext hidle]
      exact (reset_requestId w.generation s.1).symm
    have hclient : (s.1.resetIfNewRun w.generation).client.state = .idle := hidle
    rw [request_protocol hput]
    refine ⟨first, n + 1, ?_, fun hstate => ?_, fun _ => ?_⟩
    · simp only [acceptedIds_concat, noteId, hids, hdecode, Option.map_some, Option.toList_some]
      rw [consecutiveIds_succ, hid, hcounter]
    · simp [ClientProtocol.state, ServiceClient.eventStartService, hclient] at hstate
    · have hreset : (s.1.resetIfNewRun w.generation).requestId = first + n := hnext hidle
      simp only [hreset]
      push_cast
      omega
  · rwa [if_neg hput]

theorem numbered_step {s : Observed Pdu} {k : ClientCall Pdu} (hs : Numbered s)
    (hasks : AsksInTurn conv s k) : Numbered (observedStep conv s k) := by
  obtain ⟨op, w⟩ := k
  have hcur := numbered_current hs w.generation
  cases op with
  | request p timeoutMsec => exact numbered_request hs hasks
  | poll =>
    by_cases hvalid : ∃ h p, (s.current w.generation).1.received conv w.toClientView = .valid h p
    · obtain ⟨h, p, hr⟩ := hvalid
      obtain ⟨hbusy, hstep⟩ := observedStep_poll_valid hr
      obtain ⟨first, n, hids, -, hcount⟩ := hcur
      rw [hstep]
      refine ⟨first, n, by simpa [noteId] using hids, ?_, ?_⟩
      all_goals
        intro hstate
        rcases pollResponse_requestId w.toClientView h p hbusy with ⟨hend, hnext⟩ | ⟨hend, hnext⟩
      · rw [hnext]
        exact hcount hbusy
      · exact absurd hstate hend
      · exact absurd hend hstate
      · rw [hnext]
        exact hcount hbusy
    · rwa [observedStep_poll_quiet fun h p hr => hvalid ⟨h, p, hr⟩]
  | cancelRequest =>
    rcases observedStep_cancel conv s w with hsame | ⟨hdoing, hstep⟩
    · rwa [hsame]
    · obtain ⟨first, n, hids, -, hcount⟩ := hs
      rw [hstep]
      refine ⟨first, n, hids, fun hidle => ?_, fun _ => hcount ?_⟩
      · cases hidle
      · rw [hdoing]
        decide

theorem requestsWhole_of_asksInTurn {s : Observed Pdu} {k : ClientCall Pdu} (hs : Numbered s)
    (hasks : AsksInTurn conv s k) : RequestsWhole conv s k := by
  obtain ⟨op, w⟩ := k
  cases op with
  | poll => trivial
  | cancelRequest => trivial
  | request p timeoutMsec =>
    refine (allOrNothing_iff _ _ _ _ _).mpr fun hput => ?_
    obtain ⟨hidle, ⟨h, hdecode, hid⟩, hlength⟩ := hasks hput
    obtain ⟨first, n, hids, hnext, -⟩ := numbered_current hs w.generation
    have hcounter : s.1.requestId = first + n := by
      rw [← hnext hidle]
      exact (reset_requestId w.generation s.1).symm
    refine ⟨hidle, h, hdecode, ?_⟩
    have hn : n < 2 ^ 32 := by
      rw [hids] at hlength
      simpa [consecutiveIds] using hlength
    dsimp only
    rw [hid, hids, hcounter]
    exact next_notMem_consecutiveIds first hn

theorem requestId_of_getRequestBuffer {c : ClientProtocol Pdu} {opcode : OperationCode}
    {interval : ℤ} {p : Pdu} (hbuf : getRequestBuffer conv opcode interval c = some p)
    (hround : ∀ h, conv.request.cpp2pdu h = some p → conv.request.pdu2cpp p = some h) :
    ∃ h, conv.request.pdu2cpp p = some h ∧ h.requestId = uint32 c.requestId :=
  ⟨_, hround _ hbuf, rfl⟩

variable (conv)

/-- `request` is all or nothing exactly if what is written is written while the client is IDLE,
has a header that can be read, and an id that was not used; and so it is in each run in which
requests are made while IDLE with packets of `get_request_buffer`. -/
theorem request_all_or_nothing :
    (∀ (earlier : List ℕ) (c : ClientProtocol Pdu) (w : ClientWorld Pdu) (p : Pdu)
      (timeoutMsec : ℤ), AllOrNothing conv earlier c w p timeoutMsec ↔ (w.putRequest = true →
        (c.resetIfNewRun w.generation).state = .idle ∧
          ∃ h, conv.request.pdu2cpp p = some h ∧ h.requestId ∉ earlier)) ∧
    ∀ (serviceName clientName : Name) (g : ℕ) (calls : List (ClientCall Pdu)),
      Along (observedStep conv) (AsksInTurn conv) (.initial serviceName clientName g, []) calls →
      Along (observedStep conv) (RequestsWhole conv) (.initial serviceName clientName g, [])
        calls := by
  refine ⟨allOrNothing_iff, fun serviceName clientName g calls hasks => ?_⟩
  have hfirst : Numbered ((.initial serviceName clientName g, []) : Observed Pdu) :=
    ⟨0, 0, rfl, fun _ => rfl, fun hbusy => absurd rfl hbusy⟩
  exact along_of_invariant (fun _ _ => numbered_step) (fun _ _ => requestsWhole_of_asksInTurn)
    hfirst hasks

end

/-- A request of the client a with the id `n`. -/
def requestWithId (n : ℕ) : PlainPacket := .inl ⟨n, [120], [97], OperationCode.request.code, 0⟩

/-- A request; the response to it or nothing; the next request. -/
def askTwice (response : Option PlainPacket) (second : ℕ) : List (ClientCall PlainPacket) :=
  [⟨.request (requestWithId 0) 0, ⟨⟨5, none, true⟩, 0, true⟩⟩,
    ⟨.poll, ⟨⟨6, response, true⟩, 0, true⟩⟩,
    ⟨.request (requestWithId second) 0, ⟨⟨7, none, true⟩, 0, true⟩⟩]

theorem request_all_or_nothing_answered :
    Along (observedStep plainConvertors) (RequestsWhole plainConvertors) (.initial [120] [97] 0, [])
      (askTwice (some (.inr ⟨0, [120], [97], ServiceStatus.done.code, 0, 0⟩)) 1) := by
  refine (request_all_or_nothing plainConvertors).2 [120] [97] 0 _ ?_
  exact ⟨fun _ => ⟨rfl, ⟨_, rfl, rfl⟩, by decide⟩, trivial,
    fun _ => ⟨rfl, ⟨_, rfl, rfl⟩, by decide⟩, trivial⟩

/-- The second request is accepted while the client is DOING. -/
theorem request_while_doing :
    ¬ Along (observedStep plainConvertors) (RequestsWhole plainConvertors)
      (.initial [120] [97] 0, []) (askTwice none 1) := by
  rintro ⟨-, -, hwhole, -⟩
  have hidle := ((allOrNothing_iff _ _ _ _ _).mp hwhole rfl).1
  revert hidle
  decide

end Service
end HakoniwaCorePro
