import HakoniwaCorePro.ClientTrack

/-!
# The timeout of a request

`poll` compares a 64-bit clock with a time kept in an `int` and with a product computed as one.
Where neither wraps, and every response that comes is one of the request in progress, a timeout
is reported exactly when it is due.
-/

namespace HakoniwaCorePro
namespace Service

open Runs

def int64 (n : ℤ) : ℤ := n.bmod (2 ^ 64)

theorem int64_eq {n : ℤ} (hlow : -2 ^ 63 ≤ n) (hhigh : n < 2 ^ 63) : int64 n = n := by
  unfold int64
  rw [Int.bmod_eq_of_le] <;> omega

/-- The timeout of the request in progress has passed, over the integers. -/
def Track.Overdue (tr : Track) (now : ℤ) : Prop :=
  tr.timeoutMsec > 0 ∧ now - tr.confirmed > 1000 * tr.timeoutMsec

section

variable {Pdu : Type} (conv : Convertors Pdu)

def ClientCall.Timed (k : ClientCall Pdu) : Prop :=
  0 ≤ k.world.worldTimeUsec ∧ k.world.worldTimeUsec < 2 ^ 63

def ChecksTimeout (v : ClientView Pdu) (c : ClientProtocol Pdu) : Prop :=
  c.state = .doing ∧ v.getResponse = none ∧ c.timeoutMsec > 0

/-- No value that the call stores or computes for the timeout wraps. -/
def NoWrap (s : Observed Pdu) (k : ClientCall Pdu) : Prop :=
  let now := k.world.worldTimeUsec
  let c := (s.current k.world.generation).1
  match k.op with
  | .request _ _ => k.world.putRequest = true → int32 now = now
  | .poll => (∀ h p, c.received conv k.world.toClientView = .valid h p → int32 now = now) ∧
      (ChecksTimeout k.world.toClientView c → int32 (c.timeoutMsec * 1000) = c.timeoutMsec * 1000 ∧
        int64 (now - c.heartbeatConfirmedTime) = now - c.heartbeatConfirmedTime)
  | .cancelRequest => True

/-- `REQUEST_TIMEOUT` is returned exactly when the client is DOING, nothing has come, and the
timeout has passed. -/
def TimeoutExact (s : Observed Pdu) (k : ClientCall Pdu) : Prop :=
  NoWrap conv s k ∧ (k.op = .poll →
    ((perform conv s.1 k).2.event = .requestTimeout ↔
      (s.current k.world.generation).1.state = .doing ∧ k.world.getResponse = none ∧
        ∃ tr, tracked (s.current k.world.generation).2 = some tr ∧
          tr.Overdue k.world.worldTimeUsec))

def OwnResponses (s : Observed Pdu) (k : ClientCall Pdu) : Prop :=
  let c := (s.current k.world.generation).1
  k.op = .poll → ∀ h p, c.received conv k.world.toClientView = .valid h p →
    h.requestId = c.requestHeader.requestId

/-- A time that is stored fits an `int`, and so does a timeout in microseconds that is computed. -/
def TimesFit (s : Observed Pdu) (k : ClientCall Pdu) : Prop :=
  let now := k.world.worldTimeUsec
  let c := (s.current k.world.generation).1
  match k.op with
  | .request _ _ => k.world.putRequest = true → now < 2 ^ 31
  | .poll => (∀ h p, c.received conv k.world.toClientView = .valid h p → now < 2 ^ 31) ∧
      (ChecksTimeout k.world.toClientView c → c.timeoutMsec * 1000 < 2 ^ 31)
  | .cancelRequest => True

variable {conv}

theorem pollResponse_event (v : ClientView Pdu) (h : ResponseHeader) (p : Pdu)
    (c : ClientProtocol Pdu) : (pollResponse v h p c).2 ≠ .requestTimeout := by
  unfold pollResponse
  dsimp only
  split_ifs <;> simp

theorem pollCurrent_event_iff (c : ClientProtocol Pdu) (v : ClientView Pdu) :
    (c.pollCurrent conv v).2 = .requestTimeout ↔
      c.state = .doing ∧ v.getResponse = none ∧ isHeartbeatTimeout v c = true := by
  cases hget : v.getResponse with
  | none =>
    have hnothing : recvResponse conv v c = .nothing := by simp [recvResponse, hget]
    unfold ClientProtocol.pollCurrent
    rw [hnothing]
    cases hstate : c.state with
    | idle => simp
    | doing => cases htime : isHeartbeatTimeout v c <;> simp
    | canceling => simp
  | some p =>
    have hevent : (c.pollCurrent conv v).2 ≠ .requestTimeout := by
      unfold ClientProtocol.pollCurrent
      split
      · simp
      · split
        · simp
        · rename_i hnothing
          simp only [recvResponse, hget] at hnothing
          split at hnothing
          · cases hnothing
          · split at hnothing <;> cases hnothing
        · exact pollResponse_event _ _ _ _
    simp [hevent]

theorem isHeartbeatTimeout_iff {v : ClientView Pdu} {c : ClientProtocol Pdu}
    (hfit : c.timeoutMsec > 0 → int32 (c.timeoutMsec * 1000) = c.timeoutMsec * 1000) :
    isHeartbeatTimeout v c = true ↔ c.timeoutMsec > 0 ∧
      v.worldTimeUsec - c.heartbeatConfirmedTime > 1000 * c.timeoutMsec := by
  unfold isHeartbeatTimeout
  rw [Bool.and_eq_true, decide_eq_true_iff, decide_eq_true_iff]
  refine and_congr_right fun hpos => ?_
  rw [hfit hpos, Int.mul_comm]

structure Confirms (tr : Track) (c : ClientProtocol Pdu) : Prop where
  requestId : tr.requestId = c.requestHeader.requestId
  timeoutMsec : tr.timeoutMsec = c.timeoutMsec
  confirmed : tr.confirmed = c.heartbeatConfirmedTime
  stored : 0 ≤ c.heartbeatConfirmedTime ∧ c.heartbeatConfirmedTime < 2 ^ 31

theorem stored_of_int32 {now : ℤ} (hlow : 0 ≤ now) (hfit : int32 now = now) :
    0 ≤ now ∧ now < 2 ^ 31 := ⟨hlow, ((int32_eq_iff now).mp hfit).2⟩

theorem confirms_step {s : Observed Pdu} {k : ClientCall Pdu} (hs : Tied Confirms s)
    (htimed : k.Timed) (hown : OwnResponses conv s k) (hwrap : NoWrap conv s k) :
    Tied Confirms (observedStep conv s k) := by
  refine tied_step hs ?_ ?_ ?_
  · intro p timeoutMsec hop hput
    have hnow : int32 k.world.worldTimeUsec = k.world.worldTimeUsec := by
      simp only [NoWrap, hop] at hwrap
      exact hwrap hput
    rw [request_protocol hput]
    rw [hnow]
    exact ⟨rfl, rfl, rfl, stored_of_int32 htimed.1 hnow⟩
  · intro h p tr hop hr _ hconf
    have hnow : int32 k.world.worldTimeUsec = k.world.worldTimeUsec := by
      simp only [NoWrap, hop] at hwrap
      exact hwrap.1 h p hr
    have hid : h.requestId = tr.requestId := (hown hop h p hr).trans hconf.requestId.symm
    obtain ⟨hheader, htimeout, hheart⟩ := pollResponse_kept k.world.toClientView h p
      (s.current k.world.generation).1
    rw [hnow] at hheart
    refine ⟨?_, ?_, ?_, ?_⟩
    · rw [respond_requestId, hheader, hconf.requestId]
    · rw [respond_timeoutMsec, htimeout, hconf.timeoutMsec]
    · rw [hheart, Track.respond, if_pos hid]
    · rw [hheart]
      exact stored_of_int32 htimed.1 hnow
  · intro tr c hconf
    exact ⟨hconf.requestId, hconf.timeoutMsec, hconf.confirmed, hconf.stored⟩

theorem timeout_of_noWrap {s : Observed Pdu} {w : ClientWorld Pdu} (hs : Tied Confirms s)
    (hwrap : NoWrap conv s ⟨.poll, w⟩) :
    (perform conv s.1 ⟨.poll, w⟩).2.event = .requestTimeout ↔
      (s.current w.generation).1.state = .doing ∧ w.getResponse = none ∧
        ∃ tr, tracked (s.current w.generation).2 = some tr ∧ tr.Overdue w.worldTimeUsec := by
  have hpoll : (perform conv s.1 ⟨.poll, w⟩).2.event =
      ((s.current w.generation).1.pollCurrent conv w.toClientView).2 := rfl
  rw [hpoll, pollCurrent_event_iff]
  refine and_congr_right fun hdoing => and_congr_right fun hnone => ?_
  have hbusy : (s.current w.generation).1.state ≠ .idle := by rw [hdoing]; decide
  obtain ⟨tr, htr, hconf⟩ := tied_current hs w.generation hbusy
  rw [isHeartbeatTimeout_iff fun hpos => (hwrap.2 ⟨hdoing, hnone, hpos⟩).1,
    ← hconf.timeoutMsec, ← hconf.confirmed]
  constructor
  · intro hover
    exact ⟨tr, htr, hover⟩
  · rintro ⟨tr', htr', hover⟩
    rw [htr] at htr'
    cases htr'
    exact hover

theorem noWrap_iff {s : Observed Pdu} {k : ClientCall Pdu} (hs : Tied Confirms s)
    (htimed : k.Timed) : NoWrap conv s k ↔ TimesFit conv s k := by
  obtain ⟨op, w⟩ := k
  obtain ⟨hlow, hhigh⟩ := htimed
  dsimp only at hlow hhigh
  have hstored : int32 w.worldTimeUsec = w.worldTimeUsec ↔ w.worldTimeUsec < 2 ^ 31 := by
    rw [int32_eq_iff]
    omega
  cases op with
  | request p timeoutMsec => simp only [NoWrap, TimesFit, hstored]
  | poll =>
    simp only [NoWrap, TimesFit, hstored]
    refine and_congr_right fun _ => forall_congr' fun hcheck => ?_
    have hbusy : (s.current w.generation).1.state ≠ .idle := by rw [hcheck.1]; decide
    obtain ⟨tr, -, hconf⟩ := tied_current hs w.generation hbusy
    obtain ⟨hstart, hend⟩ := hconf.stored
    have hpos := hcheck.2.2
    rw [int32_eq_iff]
    constructor
    · rintro ⟨hproduct, -⟩
      exact hproduct.2
    · intro hproduct
      have hfits : -2 ^ 31 ≤ (s.current w.generation).1.timeoutMsec * 1000 := by omega
      exact ⟨⟨hfits, hproduct⟩, int64_eq (by omega) (by omega)⟩
  | cancelRequest => exact Iff.rfl

theorem timeoutExact_iff {s : Observed Pdu} {k : ClientCall Pdu} (hs : Tied Confirms s)
    (htimed : k.Timed) : TimeoutExact conv s k ↔ TimesFit conv s k := by
  rw [← noWrap_iff hs htimed]
  refine ⟨fun h => h.1, fun hwrap => ⟨hwrap, fun hop => ?_⟩⟩
  obtain ⟨op, w⟩ := k
  cases hop
  exact timeout_of_noWrap hs hwrap

variable (conv)

/-- In a run in which each response that comes is one of the request in progress, the timeouts
are exact throughout if and only if every time that is stored and every timeout that is
computed fits an `int`. -/
theorem timeout_exact_iff_fits (serviceName clientName : Name) (g : ℕ)
    (calls : List (ClientCall Pdu)) (htimed : ∀ k ∈ calls, k.Timed)
    (hown : Along (observedStep conv) (OwnResponses conv) (.initial serviceName clientName g, [])
      calls) :
    Along (observedStep conv) (TimeoutExact conv) (.initial serviceName clientName g, []) calls ↔
      Along (observedStep conv) (TimesFit conv) (.initial serviceName clientName g, []) calls := by
  have hfirst : Tied Confirms ((.initial serviceName clientName g, []) : Observed Pdu) :=
    fun hbusy => absurd rfl hbusy
  have htimes : Along (observedStep conv) (fun _ k => k.Timed)
      (.initial serviceName clientName g, []) calls := along_forall_iff.mpr htimed
  refine along_iff_within (I := Tied Confirms) ?_ ?_ hfirst (along_and htimes hown)
  · intro s k hs hd hexact
    exact confirms_step hs hd.1 hd.2 hexact.1
  · intro s k hs hd
    exact timeoutExact_iff hs hd.1

end

/-- A request with a timeout of 1000 ms, and a poll that finds nothing later. -/
def askAndWait (timeoutMsec start now : ℤ) : List (ClientCall PlainPacket) :=
  [⟨.request (plainRequest 0 0) timeoutMsec, ⟨⟨start, none, true⟩, 0, true⟩⟩,
    ⟨.poll, ⟨⟨now, none, true⟩, 0, true⟩⟩]

theorem timeout_exact_after_a_second :
    Along (observedStep plainConvertors) (TimeoutExact plainConvertors)
      (.initial [120] [97] 0, []) (askAndWait 1000 5 1000006) := by
  refine (timeout_exact_iff_fits plainConvertors [120] [97] 0 (askAndWait 1000 5 1000006) ?_ ?_).mpr ?_
  · intro k hk
    simp only [askAndWait, List.mem_cons, List.not_mem_nil, or_false] at hk
    rcases hk with rfl | rfl <;> exact ⟨by decide, by decide⟩
  · refine ⟨?_, ?_, trivial⟩
    · intro hop
      cases hop
    · intro _ h p hr
      cases hr
  · refine ⟨fun _ => by decide, ⟨fun h p hr => ?_, fun _ => by decide⟩, trivial⟩
    cases hr

/-- 2147484 ms are more microseconds than an `int` holds. -/
theorem timeout_too_long :
    ¬ Along (observedStep plainConvertors) (TimeoutExact plainConvertors)
      (.initial [120] [97] 0, []) (askAndWait 2147484 0 0) := by
  rintro ⟨-, ⟨-, hexact⟩, -⟩
  obtain ⟨-, -, tr, htr, -, hover⟩ := (hexact rfl).mp (by decide)
  cases htr
  exact absurd hover (by decide)

end Service
end HakoniwaCorePro
