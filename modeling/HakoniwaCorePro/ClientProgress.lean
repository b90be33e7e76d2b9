import HakoniwaCorePro.ClientTrack

/-!
# The progress of a request

`get_progress` gives the percentage that `poll` has stored. It is stored when the status poll
interval has passed since the last report, whichever request that report was for, and nothing
but a new run sets it back to 0.
-/

namespace HakoniwaCorePro
namespace Service

open Runs

section

variable {Pdu : Type} (conv : Convertors Pdu)

/-- `get_progress` -/
def ClientProtocol.getProgress (c : ClientProtocol Pdu) : ℕ := c.percentage

/-- The percentage of the last report for the request in progress, and 0 before the first. -/
def reportedProgress (l : List ClientNote) : ℕ := ((tracked l).bind (·.progress)).getD 0

def ShowsProgress (s : Observed Pdu) : Prop :=
  s.1.state ≠ .idle → s.1.getProgress = reportedProgress s.2

/-- A request that is made asks for progress reports. -/
def ClientCall.AsksProgress (k : ClientCall Pdu) : Prop :=
  match k.op with
  | .request p _ => ∃ h, conv.request.pdu2cpp p = some h ∧ h.statusPollIntervalMsec > 0
  | _ => True

def StoresReport (v : ClientView Pdu) (c : ClientProtocol Pdu) : Prop :=
  c.lastPollTime = 0 ∨ v.worldTimeUsec - c.lastPollTime >
    int32 (c.requestHeader.statusPollIntervalMsec * 1000)

/-- A request is accepted with no percentage left from before; a report for it is stored, and a
report for another request is not, unless it changes nothing. -/
def ReportsFit (s : Observed Pdu) (k : ClientCall Pdu) : Prop :=
  let c := (s.current k.world.generation).1
  match k.op with
  | .request _ _ => k.world.putRequest = true → c.percentage = 0
  | .poll => ∀ h p, c.received conv k.world.toClientView = .valid h p →
      h.status = ServiceStatus.doing.code →
      (StoresReport k.world.toClientView c ↔ h.requestId = c.requestHeader.requestId) ∨
        h.processingPercentage = c.percentage
  | .cancelRequest => True

variable {conv}

/-- The request that the record has is the one whose header the client has saved. -/
structure Saved (tr : Track) (c : ClientProtocol Pdu) : Prop where
  requestId : tr.requestId = c.requestHeader.requestId
  asks : c.requestHeader.statusPollIntervalMsec > 0

theorem saved_step {s : Observed Pdu} {k : ClientCall Pdu} (hs : Tied Saved s)
    (hasks : k.AsksProgress conv) : Tied Saved (observedStep conv s k) := by
  refine tied_step hs ?_ ?_ ?_
  · intro p timeoutMsec hop hput
    simp only [ClientCall.AsksProgress, hop] at hasks
    obtain ⟨h, hdecode, hinterval⟩ := hasks
    rw [request_protocol hput, hdecode]
    exact ⟨rfl, hinterval⟩
  · intro h p tr _ _ _ hnames
    obtain ⟨hheader, -⟩ := pollResponse_kept k.world.toClientView h p
      (s.current k.world.generation).1
    constructor
    · rw [respond_requestId, hheader, hnames.requestId]
    · rw [hheader]
      exact hnames.asks
  · intro tr c hnames
    exact ⟨hnames.requestId, hnames.asks⟩

theorem showsProgress_current {s : Observed Pdu} (hs : ShowsProgress s) (g : ℕ) :
    ShowsProgress (s.current g) := by
  intro hbusy
  have hsame := current_of_busy hbusy
  rw [hsame] at hbusy ⊢
  exact hs hbusy

theorem request_busy (conv : Convertors Pdu) (c : ClientProtocol Pdu) (g : ℕ)
    {v : ClientView Pdu} (hput : v.putRequest = true) (p : Pdu) (timeoutMsec : ℤ) :
    (c.request conv g v p timeoutMsec).protocol.state ≠ .idle := by
  rw [request_protocol hput]
  cases hstate : (c.resetIfNewRun g).client.state <;>
    simp [ClientProtocol.state, ServiceClient.eventStartService, hstate]

theorem showsProgress_request_iff {s : Observed Pdu} {w : ClientWorld Pdu}
    (hput : w.putRequest = true) (p : Pdu) (timeoutMsec : ℤ) :
    ShowsProgress (observedStep conv s ⟨.request p timeoutMsec, w⟩) ↔
      (s.current w.generation).1.percentage = 0 := by
  have hbusy := request_busy conv s.1 w.generation hput p timeoutMsec
  have hpercentage : (s.1.request conv w.generation w.toClientView p timeoutMsec).protocol.percentage
      = (s.current w.generation).1.percentage := by
    rw [request_protocol hput]
    rfl
  have hreported : reportedProgress ((s.current w.generation).2 ++
      [.accepted (conv.request.pdu2cpp p) timeoutMsec w.worldTimeUsec]) = 0 := by
    simp [reportedProgress, note, Track.start]
  rw [observedStep_request, if_pos hput, ShowsProgress]
  dsimp only
  rw [hreported, ClientProtocol.getProgress, hpercentage]
  exact ⟨fun h => h hbusy, fun h _ => h⟩

theorem pollResponse_percentage_of_ne (v : ClientView Pdu) {h : ResponseHeader} (p : Pdu)
    (c : ClientProtocol Pdu) (hstatus : h.status ≠ ServiceStatus.doing.code) :
    (pollResponse v h p c).1.percentage = c.percentage := by
  unfold pollResponse
  dsimp only
  rw [if_neg hstatus]
  split_ifs <;> rfl

theorem pollResponse_of_report (v : ClientView Pdu) {h : ResponseHeader} (p : Pdu)
    {c : ClientProtocol Pdu} (hstatus : h.status = ServiceStatus.doing.code)
    (hasks : c.requestHeader.statusPollIntervalMsec > 0) :
    (pollResponse v h p c).1.state = c.state ∧
      (StoresReport v c → (pollResponse v h p c).1.percentage = h.processingPercentage) ∧
      (¬ StoresReport v c → (pollResponse v h p c).1.percentage = c.percentage) := by
  unfold pollResponse StoresReport
  rw [hstatus]
  simp only [ServiceStatus.code, hasks, if_true]
  refine ⟨rfl, fun hdue => if_pos hdue, fun hdue => if_neg hdue⟩

theorem respond_progress_of_ne {tr : Track} {h : ResponseHeader} (time : ℤ)
    (hother : h.status ≠ ServiceStatus.doing.code ∨ h.requestId ≠ tr.requestId) :
    (tr.respond h time).progress = tr.progress := by
  unfold Track.respond
  split
  · rename_i hid
    exact if_neg (hother.resolve_right fun hne => hne hid)
  · rfl

theorem respond_progress_of_report {tr : Track} {h : ResponseHeader} (time : ℤ)
    (hstatus : h.status = ServiceStatus.doing.code) (hid : h.requestId = tr.requestId) :
    (tr.respond h time).progress = some h.processingPercentage := by
  rw [Track.respond, if_pos hid]
  exact if_pos hstatus

theorem reportedProgress_of_tracked {l : List ClientNote} {tr : Track}
    (h : tracked l = some tr) : reportedProgress l = tr.progress.getD 0 := by
  rw [reportedProgress, h, Option.bind_some]

theorem showsProgress_poll_iff {s : Observed Pdu} {w : ClientWorld Pdu} (hs : ShowsProgress s)
    (hnames : Tied Saved s) {h : ResponseHeader} {p : Pdu}
    (hr : (s.current w.generation).1.received conv w.toClientView = .valid h p) :
    ShowsProgress (observedStep conv s ⟨.poll, w⟩) ↔ (h.status = ServiceStatus.doing.code →
      (StoresReport w.toClientView (s.current w.generation).1 ↔
        h.requestId = (s.current w.generation).1.requestHeader.requestId) ∨
          h.processingPercentage = (s.current w.generation).1.percentage) := by
  obtain ⟨hbusy, hstep⟩ := observedStep_poll_valid hr
  obtain ⟨tr, htr, hname⟩ := tied_current hnames w.generation hbusy
  have hshown := showsProgress_current hs w.generation hbusy
  rw [reportedProgress_of_tracked htr, ClientProtocol.getProgress] at hshown
  have hafter : reportedProgress ((s.current w.generation).2 ++ [.response h w.worldTimeUsec]) =
      (tr.respond h w.worldTimeUsec).progress.getD 0 := by
    refine reportedProgress_of_tracked ?_
    rw [tracked_concat, htr, note, Option.map_some]
  rw [hstep, ShowsProgress]
  dsimp only
  rw [hafter, ClientProtocol.getProgress]
  by_cases hstatus : h.status = ServiceStatus.doing.code
  · obtain ⟨hstate, hdue, hnot⟩ := pollResponse_of_report w.toClientView p hstatus hname.asks
    rw [hstate]
    -- what is stored, and what is reported, each depend on one test
    by_cases hstores : StoresReport w.toClientView (s.current w.generation).1
    · rw [hdue hstores]
      by_cases hid : h.requestId = tr.requestId
      · rw [respond_progress_of_report _ hstatus hid]
        simp [hstores, hstatus, hid, hname.requestId]
      · rw [respond_progress_of_ne _ (Or.inr hid), ← hshown]
        rw [hname.requestId] at hid
        simp [hstores, hstatus, hid, hbusy]
    · rw [hnot hstores]
      by_cases hid : h.requestId = tr.requestId
      · rw [respond_progress_of_report _ hstatus hid]
        rw [hname.requestId] at hid
        simp [hstores, hstatus, hid, hbusy, eq_comm]
      · rw [respond_progress_of_ne _ (Or.inr hid), ← hshown]
        rw [hname.requestId] at hid
        simp [hstores, hid]
  · rw [pollResponse_percentage_of_ne w.toClientView p _ hstatus,
      respond_progress_of_ne _ (Or.inl hstatus), ← hshown]
    simp [hstatus]

theorem showsProgress_step_iff {s : Observed Pdu} {k : ClientCall Pdu} (hs : ShowsProgress s)
    (hnames : Tied Saved s) :
    ShowsProgress (observedStep conv s k) ↔ ReportsFit conv s k := by
  obtain ⟨op, w⟩ := k
  have hcur := showsProgress_current hs w.generation
  cases op with
  | request p timeoutMsec =>
    by_cases hput : w.putRequest = true
    · simp [showsProgress_request_iff hput, ReportsFit, hput]
    · rw [observedStep_request, if_neg hput]
      exact iff_of_true hcur fun h => absurd h hput
  | poll =>
    by_cases hvalid : ∃ h p, (s.current w.generation).1.received conv w.toClientView = .valid h p
    · obtain ⟨h, p, hr⟩ := hvalid
      rw [showsProgress_poll_iff hs hnames hr, ReportsFit]
      constructor
      · intro hfit h' p' hr'
        dsimp only at hr'
        rw [hr] at hr'
        cases hr'
        exact hfit
      · intro hfit
        exact hfit h p hr
    · rw [observedStep_poll_quiet fun h p hr => hvalid ⟨h, p, hr⟩]
      exact iff_of_true hcur fun h p hr => absurd ⟨h, p, hr⟩ hvalid
  | cancelRequest =>
    refine iff_of_true ?_ trivial
    rcases observedStep_cancel conv s w with hsame | ⟨hdoing, hstep⟩
    · rwa [hsame]
    · rw [hstep]
      intro _
      exact hs (by rw [hdoing]; decide)

variable (conv)

/-- While requests ask for progress reports: the progress shown is that of the request in
progress after every call if and only if each request finds the percentage at 0, and reports
for it are stored and reports for others are not. -/
theorem progress_current_iff (serviceName clientName : Name) (g : ℕ)
    (calls : List (ClientCall Pdu)) (hasks : ∀ k ∈ calls, k.AsksProgress conv) :
    Along (observedStep conv) (fun s k => ShowsProgress (observedStep conv s k))
        (.initial serviceName clientName g, []) calls ↔
      Along (observedStep conv) (ReportsFit conv) (.initial serviceName clientName g, []) calls := by
  have hfirst : ShowsProgress ((.initial serviceName clientName g, []) : Observed Pdu) ∧
      Tied Saved ((.initial serviceName clientName g, []) : Observed Pdu) :=
    ⟨fun hbusy => absurd rfl hbusy, fun hbusy => absurd rfl hbusy⟩
  have hall : Along (observedStep conv) (fun _ k => k.AsksProgress conv)
      (.initial serviceName clientName g, []) calls := along_forall_iff.mpr hasks
  refine along_iff_within (I := fun s => ShowsProgress s ∧ Tied Saved s) ?_ ?_ hfirst hall
  · intro s k hs hask hshows
    exact ⟨hshows, saved_step hs.2 hask⟩
  · intro s k hs _
    exact showsProgress_step_iff hs.1 hs.2

end

/-- A report of the percentage `n`, and the final response, to the request 1. -/
def plainResponse (status : ServiceStatus) (n : ℕ) : PlainPacket :=
  .inr ⟨1, [120], [97], status.code, n, ResultCode.ok.code⟩

/-- A request, a report for it and its end, then the next request. -/
def twoRequests (n : ℕ) : List (ClientCall PlainPacket) :=
  [⟨.request (plainRequest 0 10) 0, ⟨⟨5, none, true⟩, 0, true⟩⟩,
    ⟨.poll, ⟨⟨20, some (plainResponse .doing n), true⟩, 0, true⟩⟩,
    ⟨.poll, ⟨⟨30, some (plainResponse .done 0), true⟩, 0, true⟩⟩,
    ⟨.request (plainRequest 0 10) 0, ⟨⟨40, none, true⟩, 0, true⟩⟩]

theorem twoRequests_ask (n : ℕ) : ∀ k ∈ twoRequests n, k.AsksProgress plainConvertors := by
  intro k hk
  simp only [twoRequests, List.mem_cons, List.not_mem_nil, or_false] at hk
  rcases hk with rfl | rfl | rfl | rfl
  · exact ⟨_, rfl, by decide⟩
  · trivial
  · trivial
  · exact ⟨_, rfl, by decide⟩

/-- A request with a report of 50 percent; the next request is made in a new run, which sets the
percentage back, and has a report of 30. -/
def reportsInTwoRuns : List (ClientCall PlainPacket) :=
  (twoRequests 50).take 2 ++
    [⟨.request (plainRequest 0 10) 0, ⟨⟨40, none, true⟩, 1, true⟩⟩,
      ⟨.poll, ⟨⟨60, some (plainResponse .doing 30), true⟩, 1, true⟩⟩]

theorem progress_current_nothing_left :
    let start : Observed PlainPacket := (.initial [120] [97] 0, [])
    (run (observedStep plainConvertors) start (reportsInTwoRuns.take 2)).1.getProgress = 50 ∧
      (run (observedStep plainConvertors) start reportsInTwoRuns).1.getProgress = 30 ∧
      Along (observedStep plainConvertors)
        (fun s k => ShowsProgress (observedStep plainConvertors s k)) start reportsInTwoRuns := by
  refine ⟨by decide, by decide, ?_⟩
  refine (progress_current_iff plainConvertors [120] [97] 0 reportsInTwoRuns ?_).mpr ?_
  · intro k hk
    rcases List.mem_append.mp hk with hk | hk
    · exact twoRequests_ask 50 k (List.mem_of_mem_take hk)
    · simp only [List.mem_cons, List.not_mem_nil, or_false] at hk
      rcases hk with rfl | rfl
      · exact ⟨_, rfl, by decide⟩
      · trivial
  · refine ⟨fun _ => rfl, fun h p hr _ => ?_, fun _ => rfl, fun h p hr _ => ?_, trivial⟩
    · cases hr
      exact .inl (iff_of_true (.inl rfl) rfl)
    · cases hr
      exact .inl (iff_of_true (.inl rfl) rfl)

/-- The second request starts at the 50 percent of the first. -/
theorem progress_left_over :
    ¬ Along (observedStep plainConvertors) (fun s k => ShowsProgress (observedStep plainConvertors s k))
        (.initial [120] [97] 0, []) (twoRequests 50) := by
  rintro ⟨-, -, -, hshows, -⟩
  have hprogress := hshows (by decide)
  revert hprogress
  decide

end Service
end HakoniwaCorePro
