import HakoniwaCorePro.ServerSteps

/-!
# Replies stay within their run

What shows of a server's run, start by start: which slot a request was taken from and to
which slot the application's `put_response` was written. The shared generation, the one the
server last saw and the one of the accepted request move at different moments; a reply gets
through only while all three are the same.
-/

namespace HakoniwaCorePro
namespace Service

open Runs

variable {Pdu : Type}

inductive RunEvent
  | started
  | requestIn (clientId : ℕ)
  | answered (clientId : ℕ)
  deriving DecidableEq

/-- The slot of a `REQUEST_IN`. -/
def RunEvent.taken : RunEvent → Option ℕ
  | .requestIn j => some j
  | _ => none

/-- The slot of a `put_response` that returned true. -/
def RunEvent.replied : RunEvent → Option ℕ
  | .answered j => some j
  | _ => none

def runEvents (conv : Convertors Pdu) (s : ServerSystem Pdu) :
    ServerAction Pdu → List RunEvent
  | .start => [.started]
  | .poll v =>
    if (poll conv s.generation v s.protocol).event = .requestIn then
      [.requestIn (s.protocol.resetIfNewRun s.generation).currentClientId]
    else []
  | .putResponse v p =>
    if (operation conv s (.putResponse v p)).returned then [.answered s.protocol.currentClientId]
    else []
  | _ => []

def ServerAction.isStart : ServerAction Pdu → Bool
  | .start => true
  | _ => false

/-- Since the last start a request was taken from slot `j`, and it is not answered yet. -/
def Open (j : ℕ) (h : List RunEvent) : Prop :=
  Since (· = .requestIn j) (fun e => e = .started ∨ e = .answered j) h

/-- What the server did and what the application was told, from its initialization on. -/
abbrev runHistory (conv : Convertors Pdu) (name : Name) (N g : ℕ)
    (as : List (ServerAction Pdu)) : List RunEvent :=
  history (serverStep conv) (runEvents conv) (.initial name N g) as

section

variable {N : ℕ} {s : ServerProtocol Pdu} {j : ℕ}

theorem reply_busy {v : ServerView Pdu} {p : Pdu}
    (hj : (reply v p s).protocol.server.state j ≠ .idle) : s.server.state j ≠ .idle := by
  rw [reply_state] at hj
  split at hj
  · exact update_idle_ne hj
  · exact hj

theorem sendResponse_busy {conv : Convertors Pdu} {v : ServerView Pdu}
    {status : ServiceStatus} {code : ResultCode}
    (hj : (sendResponse conv v status code s).protocol.server.state j ≠ .idle) :
    s.server.state j ≠ .idle := by
  rcases sendResponse_cases conv v status code s with ⟨-, hs⟩ | ⟨p, -, hs⟩
  · rw [hs] at hj
    exact hj
  · rw [hs] at hj
    exact reply_busy hj

theorem ServerOk.cancelDone_busy (h : ServerOk N s) {conv : Convertors Pdu}
    {v : ServerView Pdu} (hj : (Service.cancelDone conv v s).protocol.server.state j ≠ .idle) :
    s.server.state j ≠ .idle := by
  have hsend := h.sendResponse conv v .done .canceled
  simp only [Service.cancelDone, ServiceServer.nextClient, eventDone_getD hsend.inMax] at hj
  exact sendResponse_busy (update_idle_ne hj)

theorem ServerOk.pollCurrent_busy (h : ServerOk N s) {conv : Convertors Pdu}
    {v : ServerView Pdu} (hj : (Service.pollCurrent conv v s).protocol.server.state j ≠ .idle) :
    s.server.state j ≠ .idle ∨
      (Service.pollCurrent conv v s).event = .requestIn ∧ j = s.currentClientId := by
  have hout := pollCurrent_outcome conv v s
  generalize Service.pollCurrent conv v s = r at hout hj
  cases hout with
  | reported status code t hr => exact Or.inl (sendResponse_busy hj)
  | quiet t hr hrecv => exact Or.inl hj
  | accepted hd p hrecv hidle hop =>
    by_cases hcur : j = s.currentClientId
    · exact Or.inr ⟨rfl, hcur⟩
    · rw [h.acceptRequest_server hidle hd p] at hj
      exact Or.inl (by simpa [hcur] using hj)
  | canceled hd p hrecv hdoing hop =>
    left
    by_cases hcur : j = s.currentClientId
    · rw [hcur, show s.server.state s.currentClientId = .doing from hdoing]
      simp
    · simp only [h.cancel_server hdoing, Function.update_of_ne hcur] at hj
      exact hj

theorem resetIfNewRun_idle {g : ℕ} (hg : g ≠ s.runGeneration) (j : ℕ) :
    (s.resetIfNewRun g).server.state j = .idle := by
  simp [ServerProtocol.resetIfNewRun, hg, ServiceServer.resetRunState]

theorem currentState_ne_idle_of_canReply {g : ℕ} (h : canReply g s = true) :
    s.currentState ≠ .idle := by
  intro hidle
  simp [canReply, hidle] at h

theorem canReply_generation {g : ℕ} (h : canReply g s = true) : g = s.requestGeneration := by
  simp only [canReply, Bool.and_eq_true, beq_iff_eq] at h
  exact h.1

theorem replyToCurrentRequest_returned {g : ℕ} {v : ServerView Pdu} {p : Pdu}
    (h : (replyToCurrentRequest g v p s).returned = true) :
    canReply g s = true ∧ replyToCurrentRequest g v p s = reply v p s ∧ canPut v s = true := by
  by_cases hc : canReply g s = true
  · have hreply : replyToCurrentRequest g v p s = reply v p s := if_pos hc
    refine ⟨hc, hreply, ?_⟩
    rw [hreply] at h
    simpa [Replied.returned, reply_sent] using h
  · have hdrop : replyToCurrentRequest g v p s = ⟨s, none⟩ := if_neg hc
    rw [hdrop] at h
    simp [Replied.returned] at h

theorem replyToCurrentRequest_busy {g : ℕ} {v : ServerView Pdu} {p : Pdu}
    (hj : (replyToCurrentRequest g v p s).protocol.server.state j ≠ .idle) :
    s.server.state j ≠ .idle := by
  unfold replyToCurrentRequest at hj
  split at hj
  · exact reply_busy hj
  · exact hj

end

/-- The server last saw the `k`-th start. If there was no other since, what is busy is open;
and whatever was answered was open. -/
structure RunInv (N g : ℕ) (s : ServerSystem Pdu) (h : List RunEvent) : Prop where
  ok : ServerOk N s.protocol
  generation : s.generation = (g + h.count .started) % 2 ^ 32
  seen : ∃ k ≤ h.count .started, s.protocol.runGeneration = (g + k) % 2 ^ 32 ∧
    (k = h.count .started → ∀ j, s.protocol.server.state j ≠ .idle → Open j h)
  answered : ∀ j h₁ h₂, h = h₁ ++ .answered j :: h₂ → Open j h₁

section Invariant

variable {N g : ℕ} {s : ServerSystem Pdu} {h : List RunEvent}

/-- With fewer than 2^32 starts, the server has seen the last one if the generations agree. -/
theorem RunInv.busy_open (hi : RunInv N g s h) (hcount : h.count .started < 2 ^ 32)
    (hgen : s.generation = s.protocol.runGeneration) {j : ℕ}
    (hj : s.protocol.server.state j ≠ .idle) : Open j h := by
  obtain ⟨k, hk, hrun, hopen⟩ := hi.seen
  have hcur := hi.generation
  exact hopen (by omega) j hj

theorem RunInv.busy_open_of_canReply (hi : RunInv N g s h) (hcount : h.count .started < 2 ^ 32)
    (hc : canReply s.generation s.protocol = true) {j : ℕ}
    (hj : s.protocol.server.state j ≠ .idle) : Open j h := by
  have hgen := canReply_generation hc
  rw [hi.ok.generation j hj] at hgen
  exact hi.busy_open hcount hgen hj

theorem RunInv.reset_busy (hi : RunInv N g s h) (hcount : h.count .started < 2 ^ 32) {j : ℕ}
    (hj : (s.protocol.resetIfNewRun s.generation).server.state j ≠ .idle) : Open j h := by
  by_cases hgen : s.generation = s.protocol.runGeneration
  · rw [hgen, resetIfNewRun_self] at hj
    exact hi.busy_open hcount hgen hj
  · exact absurd (resetIfNewRun_idle hgen j) hj

theorem RunInv.silent (hi : RunInv N g s h) {t : ServerProtocol Pdu} (hok : ServerOk N t)
    (hgen : t.runGeneration = s.protocol.runGeneration)
    (hbusy : ∀ j, t.server.state j ≠ .idle → s.protocol.server.state j ≠ .idle) :
    RunInv N g ⟨s.generation, t⟩ h := by
  obtain ⟨k, hk, hrun, hopen⟩ := hi.seen
  exact ⟨hok, hi.generation, ⟨k, hk, hgen.trans hrun, fun hlast j hj => hopen hlast j (hbusy j hj)⟩,
    hi.answered⟩

theorem count_concat_requestIn (j : ℕ) :
    (h ++ [RunEvent.requestIn j]).count .started = h.count .started := by
  simp

theorem count_concat_answered (j : ℕ) :
    (h ++ [RunEvent.answered j]).count .started = h.count .started := by
  simp

theorem answered_concat {e : RunEvent}
    (hprev : ∀ j h₁ h₂, h = h₁ ++ .answered j :: h₂ → Open j h₁)
    (hlast : ∀ j, e = .answered j → Open j h) (j : ℕ) (h₁ h₂ : List RunEvent)
    (he : h ++ [e] = h₁ ++ .answered j :: h₂) : Open j h₁ := by
  rcases List.eq_nil_or_concat h₂ with rfl | ⟨l, x, rfl⟩
  · obtain ⟨hh, hx⟩ := List.append_inj' he rfl
    rw [← hh]
    exact hlast j (by simpa using hx)
  · have hsplit : h ++ [e] = (h₁ ++ .answered j :: l) ++ [x] := by simpa using he
    exact hprev j h₁ l (List.append_inj' hsplit rfl).1

theorem RunInv.start (hi : RunInv N g s h) :
    RunInv N g ⟨(s.generation + 1) % 2 ^ 32, s.protocol⟩ (h ++ [.started]) := by
  obtain ⟨k, hk, hrun, -⟩ := hi.seen
  have hcur := hi.generation
  have hcount : (h ++ [RunEvent.started]).count .started = h.count .started + 1 := by simp
  refine ⟨hi.ok, ?_, ⟨k, by omega, hrun, fun hlast => by omega⟩,
    answered_concat hi.answered (by simp)⟩
  show (s.generation + 1) % 2 ^ 32 = (g + (h ++ [RunEvent.started]).count .started) % 2 ^ 32
  rw [hcount]
  omega

theorem RunInv.poll (hi : RunInv N g s h) (hcount : h.count .started < 2 ^ 32)
    (conv : Convertors Pdu) (v : ServerView Pdu) :
    RunInv N g (serverStep conv s (.poll v)) (h ++ runEvents conv s (.poll v)) := by
  have hok := hi.ok.resetIfNewRun s.generation
  have hrun : (serverStep conv s (.poll v)).protocol.runGeneration = s.generation := by
    show (Service.poll conv s.generation v s.protocol).protocol.runGeneration = s.generation
    rw [Service.poll, pollCurrent_runGeneration, resetIfNewRun_runGeneration]
  by_cases hevent : (Service.poll conv s.generation v s.protocol).event = .requestIn
  · have hshow : runEvents conv s (.poll v) =
        [.requestIn (s.protocol.resetIfNewRun s.generation).currentClientId] := if_pos hevent
    rw [hshow]
    refine ⟨hi.ok.poll conv s.generation v, ?_, ⟨h.count .started, by rw [count_concat_requestIn], ?_, ?_⟩,
      answered_concat hi.answered (by simp)⟩
    · rw [count_concat_requestIn]
      exact hi.generation
    · rw [hrun]
      exact hi.generation
    · intro _ j hj
      refine (since_concat _ _ _ _).mpr ?_
      rcases hok.pollCurrent_busy hj with hbusy | ⟨-, hcur⟩
      · exact Or.inr ⟨hi.reset_busy hcount hbusy, by simp⟩
      · exact Or.inl (by rw [hcur])
  · have hshow : runEvents conv s (.poll v) = [] := if_neg hevent
    rw [hshow, List.append_nil]
    refine ⟨hi.ok.poll conv s.generation v, hi.generation, ⟨h.count .started, Nat.le_refl _, ?_, ?_⟩,
      hi.answered⟩
    · rw [hrun]
      exact hi.generation
    · intro _ j hj
      rcases hok.pollCurrent_busy hj with hbusy | ⟨hin, -⟩
      · exact hi.reset_busy hcount hbusy
      · exact absurd hin hevent

theorem RunInv.putResponse (hi : RunInv N g s h) (hcount : h.count .started < 2 ^ 32)
    (conv : Convertors Pdu) (v : ServerView Pdu) (p : Pdu) :
    RunInv N g (serverStep conv s (.putResponse v p)) (h ++ runEvents conv s (.putResponse v p)) := by
  have hok := hi.ok.replyToCurrentRequest s.generation v p
  by_cases hret : (operation conv s (.putResponse v p)).returned = true
  · have hshow : runEvents conv s (.putResponse v p) = [.answered s.protocol.currentClientId] :=
      if_pos hret
    obtain ⟨hc, hreply, hput⟩ := replyToCurrentRequest_returned hret
    obtain ⟨k, hk, hrun, hopen⟩ := hi.seen
    have hstate : (serverStep conv s (.putResponse v p)).protocol.server.state =
        Function.update s.protocol.server.state s.protocol.currentClientId .idle := by
      show (replyToCurrentRequest s.generation v p s.protocol).protocol.server.state = _
      rw [hreply, reply_state, if_pos hput]
    have hrun' : (serverStep conv s (.putResponse v p)).protocol.runGeneration =
        s.protocol.runGeneration := by
      show (replyToCurrentRequest s.generation v p s.protocol).protocol.runGeneration = _
      rw [hreply]
      rfl
    rw [hshow]
    refine ⟨hok, ?_, ⟨k, by rwa [count_concat_answered], hrun'.trans hrun, ?_⟩,
      answered_concat hi.answered fun j hj => ?_⟩
    · rw [count_concat_answered]
      exact hi.generation
    · intro _ j hj
      rw [hstate] at hj
      have hne : j ≠ s.protocol.currentClientId := by
        rintro rfl
        simp at hj
      refine (since_concat _ _ _ _).mpr (Or.inr ⟨?_, by simpa using Ne.symm hne⟩)
      exact hi.busy_open_of_canReply hcount hc (update_idle_ne hj)
    · cases hj
      exact hi.busy_open_of_canReply hcount hc (currentState_ne_idle_of_canReply hc)
  · have hshow : runEvents conv s (.putResponse v p) = [] := if_neg hret
    rw [hshow, List.append_nil]
    refine hi.silent hok ?_ fun j hj => replyToCurrentRequest_busy hj
    show (replyToCurrentRequest s.generation v p s.protocol).protocol.runGeneration = _
    unfold replyToCurrentRequest
    split <;> rfl

theorem RunInv.step (hi : RunInv N g s h) (hcount : h.count .started < 2 ^ 32)
    (conv : Convertors Pdu) (a : ServerAction Pdu) :
    RunInv N g (serverStep conv s a) (h ++ runEvents conv s a) := by
  cases a with
  | start => exact hi.start
  | poll v => exact hi.poll hcount conv v
  | putResponse v p => exact hi.putResponse hcount conv v p
  | reply v p =>
    rw [show runEvents conv s (.reply v p) = [] from rfl, List.append_nil]
    exact hi.silent (hi.ok.reply v p) rfl fun j hj => reply_busy hj
  | cancelDone v =>
    rw [show runEvents conv s (.cancelDone v) = [] from rfl, List.append_nil]
    have hgen : (cancelDone conv v s.protocol).protocol.runGeneration =
        s.protocol.runGeneration := sendResponse_runGeneration conv v .done .canceled s.protocol
    exact hi.silent (hi.ok.cancelDone conv v) hgen fun j hj => hi.ok.cancelDone_busy hj
  | putProgress percentage =>
    rw [show runEvents conv s (.putProgress percentage) = [] from rfl, List.append_nil]
    exact hi.silent ⟨hi.ok.maxClients, hi.ok.inRange, hi.ok.generation⟩ rfl fun _ hj => hj

end Invariant

theorem initial_runInv (name : Name) {N g : ℕ} (hN : 0 < N) (hg : g < 2 ^ 32) :
    RunInv N g (ServerSystem.initial name N g : ServerSystem Pdu) [] := by
  have hself : g = (g + 0) % 2 ^ 32 := (Nat.mod_eq_of_lt hg).symm
  exact ⟨initial_ok name hN g, hself, ⟨0, Nat.le_refl _, hself, fun _ _ hj => absurd rfl hj⟩,
    fun _ h₁ _ he => absurd he (by simp)⟩

theorem count_started (conv : Convertors Pdu) (s : ServerSystem Pdu)
    (as : List (ServerAction Pdu)) :
    (history (serverStep conv) (runEvents conv) s as).count .started =
      as.countP (·.isStart) := by
  induction as using List.reverseRecOn with
  | nil => rfl
  | append_singleton as a ih =>
    rw [history_concat, List.count_append, ih, List.countP_append]
    congr 1
    cases a with
    | start => rfl
    | poll v => simp only [runEvents]; split <;> rfl
    | putResponse v p => simp only [runEvents]; split <;> rfl
    | _ => rfl

theorem reachable_runInv (conv : Convertors Pdu) (name : Name) {N g : ℕ} (hN : 0 < N)
    (hg : g < 2 ^ 32) {as : List (ServerAction Pdu)} (hstarts : as.countP (·.isStart) < 2 ^ 32) :
    RunInv N g (run (serverStep conv) (.initial name N g) as) (runHistory conv name N g as) := by
  induction as using List.reverseRecOn with
  | nil => exact initial_runInv name hN hg
  | append_singleton as a ih =>
    rw [List.countP_append] at hstarts
    rw [run_concat, runHistory, history_concat]
    refine (ih (by omega)).step ?_ conv a
    rw [count_started]
    omega

/-- A `put_response` that returns true answers a request of the current slot that is open, and
writes to no other slot. -/
def ReplyIsolated (conv : Convertors Pdu) (s : ServerSystem Pdu) (h : List RunEvent)
    (v : ServerView Pdu) (p : Pdu) : Prop :=
  (operation conv s (.putResponse v p)).returned = true →
    (s.protocol.currentState = .doing ∨ s.protocol.currentState = .canceling) ∧
    Open s.protocol.currentClientId h ∧
    (operation conv s (.putResponse v p)).sent = some ⟨s.protocol.currentClientId, p, true⟩

theorem RunInv.replyIsolated {N g : ℕ} {s : ServerSystem Pdu} {h : List RunEvent}
    (hi : RunInv N g s h) (hcount : h.count .started < 2 ^ 32) (conv : Convertors Pdu)
    (v : ServerView Pdu) (p : Pdu) : ReplyIsolated conv s h v p := by
  intro hret
  obtain ⟨hc, hreply, hput⟩ := replyToCurrentRequest_returned hret
  have hne := currentState_ne_idle_of_canReply hc
  refine ⟨?_, hi.busy_open_of_canReply hcount hc hne, ?_⟩
  · cases hst : s.protocol.currentState with
    | idle => exact absurd hst hne
    | doing => exact Or.inl rfl
    | canceling => exact Or.inr rfl
  · show (replyToCurrentRequest s.generation v p s.protocol).sent = _
    rw [hreply, reply_sent, hput]

theorem replied_le_taken {h₁ h₂ : List RunEvent}
    (hopen : ∀ j l₁ l₂, h₁ ++ h₂ = l₁ ++ .answered j :: l₂ → Open j l₁)
    (hbegin : ∀ h₀ e, h₁ = h₀ ++ [e] → e = .started) :
    h₂.countP (·.replied.isSome) ≤ h₂.countP (·.taken.isSome) := by
  refine countP_le_of_places RunEvent.replied RunEvent.taken fun j => ?_
  have hsince : ∀ l₁ l₂, h₂ = l₁ ++ .answered j :: l₂ →
      Since (· = RunEvent.requestIn j) (fun e => e = .started ∨ e = .answered j) l₁ := by
    intro l₁ l₂ he
    have hj := hopen j (h₁ ++ l₁) l₂ (by simp [he])
    rcases since_of_append (fun h₀ e heq => Or.inl (hbegin h₀ e heq)) hj with hs | ⟨h₀, e, heq, hreq⟩
    · exact hs
    · have hstarted := hbegin h₀ e heq
      rw [hreq] at hstarted
      cases hstarted
  have hne : RunEvent.requestIn j ≠ .answered j := by simp
  have hcount := (count_le_of_since hne hsince (Or.inr rfl)).2
  have hrep : h₂.countP (fun e => e.replied == some j) = h₂.count (.answered j) :=
    List.countP_congr fun e _ => by cases e <;> simp [RunEvent.replied]
  have htak : h₂.countP (fun e => e.taken == some j) = h₂.count (.requestIn j) :=
    List.countP_congr fun e _ => by cases e <;> simp [RunEvent.taken]
  rw [hrep, htak]
  exact hcount

/-- Whatever the order of starts, polls and replies, late ones included: every reply that gets
through answers a request of the same run, and in no run there are more of them than
requests. -/
theorem replies_isolated (conv : Convertors Pdu) (name : Name) {N g : ℕ} (hN : 0 < N)
    (hg : g < 2 ^ 32) (as : List (ServerAction Pdu)) (hstarts : as.countP (·.isStart) < 2 ^ 32) :
    (∀ as₁ v p as₂, as = as₁ ++ .putResponse v p :: as₂ →
      ReplyIsolated conv (run (serverStep conv) (.initial name N g) as₁)
        (runHistory conv name N g as₁) v p) ∧
    ∀ h₁ h₂, runHistory conv name N g as = h₁ ++ h₂ → (∀ h₀ e, h₁ = h₀ ++ [e] → e = .started) →
      h₂.countP (·.replied.isSome) ≤ h₂.countP (·.taken.isSome) := by
  constructor
  · rintro as₁ v p as₂ rfl
    rw [List.countP_append] at hstarts
    have hstarts₁ : as₁.countP (·.isStart) < 2 ^ 32 := by omega
    refine (reachable_runInv conv name hN hg hstarts₁).replyIsolated ?_ conv v p
    rw [count_started]
    exact hstarts₁
  · intro h₁ h₂ he hbegin
    have hopen := (reachable_runInv conv name hN hg hstarts).answered
    rw [he] at hopen
    exact replied_le_taken hopen hbegin

/-- A request is taken, the simulation starts again, and the late reply to it comes twice:
before the server polls, and after it has taken the request of the new run. -/
def lateReply : List (ServerAction PlainPacket) :=
  [.poll (plainView 1 0 (asking 0 0)), .start, .putResponse (plainView 1 0 silent) (plainRequest 0 0),
    .poll (plainView 1 0 (asking 0 0)), .putResponse (plainView 1 0 silent) (plainRequest 0 0)]

theorem replies_isolated_late :
    runHistory plainConvertors [120] 1 0 lateReply =
        [.requestIn 0, .started] ++ [.requestIn 0, .answered 0] ∧
      Open 0 [.requestIn 0, .started, .requestIn 0] ∧
      [RunEvent.requestIn 0, .answered 0].countP (·.replied.isSome) ≤
        [RunEvent.requestIn 0, .answered 0].countP (·.taken.isSome) := by
  have hrun := replies_isolated plainConvertors [120] (N := 1) (g := 0) (by decide) (by decide)
    lateReply (by decide)
  have hhistory : runHistory plainConvertors [120] 1 0 lateReply =
      [.requestIn 0, .started] ++ [.requestIn 0, .answered 0] := by decide
  have hreply := hrun.1 (lateReply.take 4) _ _ [] rfl (by decide)
  refine ⟨hhistory, hreply.2.1, hrun.2 _ _ hhistory fun h₀ e he => ?_⟩
  simpa using (congrArg List.getLast? he).symm

end Service
end HakoniwaCorePro
