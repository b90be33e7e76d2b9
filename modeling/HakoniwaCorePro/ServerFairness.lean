import HakoniwaCorePro.ServiceBus

/-!
# Who is served next

A poll looks at one slot. Where it finds nothing there, or a `CANCEL`, the turn stays; only a
reply passes it on. Among clients that are answered the turn is fair; a client that sends
nothing keeps it.
-/

namespace HakoniwaCorePro
namespace Service

open RecvEvent Runs

variable {Pdu : Type}

/-- The server with the turn at `c`, and some time of the last poll. -/
def ServerProtocol.at (q : ServerProtocol Pdu) (c : ℕ) (t : ℤ) : ServerProtocol Pdu :=
  { q with server := { q.server with currentClientId := c }, lastPollTime := t }

/-- A valid `REQUEST` waits in slot `c`. -/
def Setup.Asks (u : Setup Pdu) (name : Name) (b : Bus Pdu) (c : ℕ) : Prop :=
  ∃ h p, u.judge name (u.box b (.request c)) = .valid h p ∧ h.opcode = OperationCode.request.code

/-- Slot `c` holds a packet that is rejected, and the error response can be encoded. -/
def Setup.Passes (u : Setup Pdu) (q : ServerProtocol Pdu) (b : Bus Pdu) (c : ℕ) : Prop :=
  u.judge q.server.serviceName (u.box b (.request c)) = .rejected ∧
    (u.conv.response.cpp2pdu
      (setResponseHeader (u.view 0 (fun _ => none) b) (q.at c 0) .error .invalid)).isSome = true

section Idle

variable {u : Setup Pdu} {q : ServerProtocol Pdu} {s : ServiceState Pdu} {c : ℕ} {t : ℤ}

theorem reply_at (v : ServerView Pdu) (p : Pdu) (hidle : q.server.state c = .idle) :
    (reply v p (q.at c t)).protocol = q.at (Turn.next q.server.maxClients c) t := by
  have hsame : Function.update q.server.state c .idle = q.server.state := by
    rw [← hidle, Function.update_eq_self]
  rw [reply_protocol]
  simp only [ServerProtocol.at, hsame, ite_self]

theorem sendResponse_at (conv : Convertors Pdu) (v : ServerView Pdu) (status : ServiceStatus)
    (code : ResultCode) (hidle : q.server.state c = .idle) :
    (sendResponse conv v status code (q.at c t)).protocol =
      q.at (if (conv.response.cpp2pdu (setResponseHeader v (q.at c t) status code)).isSome then
        Turn.next q.server.maxClients c else c) t := by
  rcases sendResponse_cases conv v status code (q.at c t) with ⟨henc, hs⟩ | ⟨p, henc, hs⟩
  · rw [hs, henc]
    rfl
  · rw [hs, henc, reply_at v p hidle]
    rfl

/-- What one poll does at an idle slot: it takes a request; or it passes the turn on over a
rejected packet; or the turn stays where it is. -/
theorem poll_idle (hw : u.Wired s.bus) (hmax : q.server.maxClients = u.entry.maxClients)
    (hgen : q.runGeneration = u.generation) (hidle : q.server.state c = .idle)
    (hc : c < u.entry.maxClients) (hs : s.protocol = q.at c t) (time : ℤ) :
    (u.Asks q.server.serviceName s.bus c ∧ (u.poll time s).2 = .requestIn ∧
      ∃ h p, (u.poll time s).1.protocol = acceptRequest h p (q.at c t)) ∨
    (u.Passes q s.bus c ∧ (u.poll time s).2 = .none ∧
      ∃ t', (u.poll time s).1.protocol = q.at (Turn.next q.server.maxClients c) t') ∨
    (¬ u.Asks q.server.serviceName s.bus c ∧ ¬ u.Passes q s.bus c ∧ (u.poll time s).2 = .none ∧
      ∃ t', (u.poll time s).1.protocol = q.at c t') := by
  have hrecv : recvRequest u.conv (u.pollView time c s.bus) (q.at c t) (q.at c t).currentClientId =
      u.judge q.server.serviceName (u.box s.bus (.request c)) :=
    hw.recvRequest_eq time c (q := q.at c t) hmax hc
  have hst : (q.at c t).currentState = .idle := hidle
  obtain ⟨hproto, hevent⟩ : (u.poll time s).1.protocol =
        (pollCurrent u.conv (u.pollView time c s.bus) (q.at c t)).protocol ∧
      (u.poll time s).2 = (pollCurrent u.conv (u.pollView time c s.bus) (q.at c t)).event := by
    rw [u.poll_eq (s := s) (by rw [hs]; exact hgen), hs]
    exact ⟨rfl, rfl⟩
  have hout := pollCurrent_outcome u.conv (u.pollView time c s.bus) (q.at c t)
  rw [hproto, hevent]
  generalize pollCurrent u.conv (u.pollView time c s.bus) (q.at c t) = r at hout
  cases hout with
  | reported status code t' hr =>
    obtain ⟨hrej, rfl, rfl⟩ := report_idle hst hr
    rw [hrecv] at hrej
    have hsend := sendResponse_at (t := t) u.conv (u.pollView time c s.bus) .error .invalid hidle
    rw [show setResponseHeader (u.pollView time c s.bus) (q.at c t) .error .invalid =
      setResponseHeader (u.view 0 (fun _ => none) s.bus) (q.at c 0) .error .invalid from rfl] at hsend
    have hnot : ¬ u.Asks q.server.serviceName s.bus c := by
      rintro ⟨h, p, hvalid, -⟩
      rw [hrej] at hvalid
      cases hvalid
    by_cases henc : (u.conv.response.cpp2pdu (setResponseHeader (u.view 0 (fun _ => none) s.bus)
        (q.at c 0) .error .invalid)).isSome = true
    · rw [if_pos henc] at hsend
      refine Or.inr (Or.inl ⟨⟨hrej, henc⟩, rfl, t', ?_⟩)
      rw [hsend]
      rfl
    · rw [if_neg henc] at hsend
      refine Or.inr (Or.inr ⟨hnot, fun h => henc h.2, rfl, t', ?_⟩)
      rw [hsend]
      rfl
  | quiet t' hr hrecv' =>
    rw [hrecv] at hrecv'
    refine Or.inr (Or.inr ⟨?_, ?_, rfl, t', rfl⟩)
    · rintro ⟨h, p, hvalid, hop⟩
      rcases hrecv' with hnone | ⟨-, h', p', hvalid', hop'⟩
      · rw [hvalid] at hnone
        cases hnone
      · rw [hvalid] at hvalid'
        cases hvalid'
        rw [hop] at hop'
        cases hop'
    · rintro ⟨hrej, -⟩
      rcases hrecv' with hnone | ⟨-, h', p', hvalid', -⟩
      · rw [hrej] at hnone
        cases hnone
      · rw [hrej] at hvalid'
        cases hvalid'
  | accepted hd p hrecv' _ hop =>
    rw [hrecv] at hrecv'
    exact Or.inl ⟨⟨hd, p, hrecv', hop⟩, rfl, hd, p, rfl⟩
  | canceled hd p hrecv' hdoing hop =>
    rw [hst] at hdoing
    cases hdoing

theorem asks_congr {name : Name} {b b' : Bus Pdu}
    (hbox : u.box b' (.request c) = u.box b (.request c)) :
    u.Asks name b' c ↔ u.Asks name b c := by
  rw [Setup.Asks, hbox]
  rfl

theorem passes_congr {b b' : Bus Pdu} (hbox : u.box b' (.request c) = u.box b (.request c)) :
    u.Passes q b' c ↔ u.Passes q b c := by
  rw [Setup.Passes, hbox]
  rfl

theorem Setup.Passes.not_asks {b : Bus Pdu} (h : u.Passes q b c) :
    ¬ u.Asks q.server.serviceName b c := by
  rintro ⟨hd, p, hvalid, -⟩
  rw [h.1] at hvalid
  cases hvalid

theorem not_asks_of_empty {name : Name} {b : Bus Pdu} (hbox : u.box b (.request c) = none) :
    ¬ u.Asks name b c := by
  rintro ⟨hd, p, hvalid, -⟩
  rw [hbox] at hvalid
  cases hvalid

theorem not_passes_of_empty {b : Bus Pdu} (hbox : u.box b (.request c) = none) :
    ¬ u.Passes q b c := by
  rintro ⟨hrej, -⟩
  rw [hbox] at hrej
  cases hrej

end Idle

def Setup.pollStep (u : Setup Pdu) (s : ServiceState Pdu) (time : ℤ) : ServiceState Pdu :=
  (u.poll time s).1

def Setup.pollEvents (u : Setup Pdu) (s : ServiceState Pdu) (time : ℤ) : List ServerEvent :=
  [(u.poll time s).2]

section Polls

variable {u : Setup Pdu} {q : ServerProtocol Pdu}

theorem polls_of_empty (hmax : q.server.maxClients = u.entry.maxClients)
    (hgen : q.runGeneration = u.generation) {c : ℕ} (hidle : q.server.state c = .idle)
    (hc : c < u.entry.maxClients) (times : List ℤ) {s : ServiceState Pdu} {t : ℤ}
    (hw : u.Wired s.bus) (hs : s.protocol = q.at c t) (hbox : u.box s.bus (.request c) = none) :
    ServerEvent.requestIn ∉ history u.pollStep u.pollEvents s times := by
  induction times generalizing s t with
  | nil => simp
  | cons time times ih =>
    obtain ⟨hasks, -⟩ | ⟨hpass, -⟩ | ⟨-, -, hevent, t', hproto⟩ :=
      poll_idle hw hmax hgen hidle hc hs time
    · exact absurd hasks (not_asks_of_empty hbox)
    · exact absurd hpass (not_passes_of_empty hbox)
    · have hbox' : u.box (u.poll time s).1.bus (.request c) = none := by
        rw [hw.box_poll_request time hc, hbox, ite_self]
      rw [history_cons, List.mem_append, not_or]
      refine ⟨?_, ih (hw.poll time) hproto hbox'⟩
      simp [Setup.pollEvents, hevent]

theorem turn_eq {s : ServiceState Pdu} {c : ℕ} {t : ℤ} (hgen : q.runGeneration = u.generation)
    (hs : s.protocol = q.at c t) : u.turn s.protocol = c := by
  rw [hs]
  exact Setup.turn_eq hgen

theorem polls_iff {N : ℕ} (hN : u.entry.maxClients = N) (hmax : q.server.maxClients = N)
    (hgen : q.runGeneration = u.generation) (hidle : ∀ j < N, q.server.state j = .idle)
    (times : List ℤ) (hlen : times.length ≤ N) {c : ℕ} (hc : c < N) {s : ServiceState Pdu} {t : ℤ}
    (hw : u.Wired s.bus) (hs : s.protocol = q.at c t) :
    .requestIn ∈ history u.pollStep u.pollEvents s times ↔
      ∃ k < times.length, u.Asks q.server.serviceName s.bus ((c + k) % N) ∧
        ∀ i < k, u.Passes q s.bus ((c + i) % N) := by
  induction times generalizing s t c with
  | nil => simp
  | cons time times ih =>
    have hc' : c < u.entry.maxClients := by omega
    rw [List.length_cons] at hlen
    rw [history_cons, List.mem_append, List.length_cons,
      Turn.comes_succ hc (u.Asks q.server.serviceName s.bus) (u.Passes q s.bus)]
    obtain ⟨hasks, hevent, -⟩ | ⟨hpass, hevent, t', hproto⟩ | ⟨hasks, hpass, hevent, t', hproto⟩ :=
      poll_idle hw (hmax.trans hN.symm) hgen (hidle c hc) hc' hs time
    · exact iff_of_true (Or.inl (by simp [Setup.pollEvents, hevent])) (Or.inl hasks)
    · rw [hmax] at hproto
      have hrest := ih (by omega) (Turn.next_lt (by omega) c) (hw.poll time) hproto
      -- a slot the turn has not come to yet holds what it held
      have hbox : ∀ k < times.length,
          u.box (u.poll time s).1.bus (.request ((Turn.next N c + k) % N)) =
            u.box s.bus (.request ((Turn.next N c + k) % N)) := fun k hk => by
        have hlt : (Turn.next N c + k) % N < u.entry.maxClients := by
          rw [hN]
          exact Nat.mod_lt _ (by omega)
        have hne : c ≠ (Turn.next N c + k) % N := by
          rw [Turn.next_add_mod]
          exact (Turn.add_mod_ne hc (by omega) (by omega)).symm
        rw [hw.box_poll_request time hlt, turn_eq hgen hs, if_neg hne]
      have hfirst : ServerEvent.requestIn ∉ u.pollEvents s time := by
        simp [Setup.pollEvents, hevent]
      rw [or_iff_right hfirst, or_iff_right hpass.not_asks, and_iff_right hpass]
      refine hrest.trans (exists_congr fun k => and_congr_right fun hk => ?_)
      refine and_congr (asks_congr (hbox k hk)) (forall_congr' fun i => imp_congr_right fun hi => ?_)
      exact passes_congr (hbox i (by omega))
    · have hempty : u.box (u.poll time s).1.bus (.request c) = none := by
        rw [hw.box_poll_request time hc', turn_eq hgen hs, if_pos rfl]
      have hrest := polls_of_empty (hmax.trans hN.symm) hgen (hidle c hc) hc' times (hw.poll time)
        hproto hempty
      refine iff_of_false ?_ fun hcome => hcome.elim hasks fun hlater => hpass hlater.1
      rw [not_or]
      exact ⟨by simp [Setup.pollEvents, hevent], hrest⟩

theorem poll_reset (time : ℤ) (s : ServiceState Pdu) :
    u.poll time ⟨s.bus, s.protocol.resetIfNewRun u.generation⟩ = u.poll time s := by
  have hself : (s.protocol.resetIfNewRun u.generation).resetIfNewRun u.generation =
      s.protocol.resetIfNewRun u.generation := by
    have h := resetIfNewRun_self (s.protocol.resetIfNewRun u.generation)
    rwa [resetIfNewRun_runGeneration] at h
  simp only [Setup.poll, Setup.turn, Service.poll, hself]

theorem resetIfNewRun_server (g : ℕ) (s : ServerProtocol Pdu) {N : ℕ}
    (hmax : s.server.maxClients = N) (hcur : s.currentClientId < N)
    (hidle : ∀ j < N, s.server.state j = .idle) :
    (s.resetIfNewRun g).server.serviceName = s.server.serviceName ∧
    (s.resetIfNewRun g).server.maxClients = N ∧ (s.resetIfNewRun g).currentClientId < N ∧
    ∀ j < N, (s.resetIfNewRun g).server.state j = .idle := by
  unfold ServerProtocol.resetIfNewRun
  split
  · exact ⟨rfl, hmax, hcur, hidle⟩
  · exact ⟨rfl, hmax, Nat.lt_of_le_of_lt (Nat.zero_le _) hcur, fun _ _ => rfl⟩

/-- A waiting client that the polls reach: from the turn on, only rejected packets come before
its request. -/
def Setup.Reaches (u : Setup Pdu) (s : ServiceState Pdu) : Prop :=
  ∃ k < u.entry.maxClients,
    u.Asks s.protocol.server.serviceName s.bus ((u.turn s.protocol + k) % u.entry.maxClients) ∧
    ∀ i < k, u.Passes (s.protocol.resetIfNewRun u.generation) s.bus
      ((u.turn s.protocol + i) % u.entry.maxClients)

theorem polls_serve_iff {s : ServiceState Pdu} (hw : u.Wired s.bus)
    (hmax : s.protocol.server.maxClients = u.entry.maxClients)
    (hcur : s.protocol.currentClientId < u.entry.maxClients)
    (hidle : ∀ j < u.entry.maxClients, s.protocol.server.state j = .idle)
    (times : List ℤ) (hlen : times.length = u.entry.maxClients) :
    .requestIn ∈ history u.pollStep u.pollEvents s times ↔ u.Reaches s := by
  obtain ⟨hname, hmax', hturn, hidle'⟩ := resetIfNewRun_server u.generation s.protocol hmax hcur hidle
  obtain ⟨time, times, rfl⟩ : ∃ time rest, times = time :: rest := by
    cases times with
    | nil =>
      rw [List.length_nil] at hlen
      omega
    | cons time rest => exact ⟨time, rest, rfl⟩
  let s' : ServiceState Pdu := ⟨s.bus, s.protocol.resetIfNewRun u.generation⟩
  have hsame : history u.pollStep u.pollEvents s (time :: times) =
      history u.pollStep u.pollEvents s' (time :: times) := by
    rw [history_cons, history_cons, Setup.pollEvents, Setup.pollEvents, Setup.pollStep,
      Setup.pollStep, poll_reset]
  have hiff := polls_iff rfl hmax' (resetIfNewRun_runGeneration _ _) hidle' (time :: times)
    (by omega) hturn (s := s') hw rfl
  rw [hsame, hiff, hlen, hname]
  rfl

end Polls

/-- The service among its clients, and whether the application still owes a response. -/
structure OwingState (Pdu : Type) extends ServiceState Pdu where
  owed : Bool

/-- The clients put any packets and take their responses; the application polls and answers. -/
inductive ServiceAction (Pdu : Type)
  | putRequest (clientId : ℕ) (p : Pdu)
  | getResponse (clientId : ℕ)
  | poll (time : ℤ)
  | putResponse (p : Pdu)

def Setup.step (u : Setup Pdu) (s : OwingState Pdu) : ServiceAction Pdu → OwingState Pdu
  | .putRequest j p => { s with bus := (u.put (.request j) p s.bus).1 }
  | .getResponse j => { s with bus := (u.get (.response j) s.bus).1 }
  | .poll time =>
    let r := u.poll time s.toServiceState
    ⟨r.1, s.owed || r.2 == .requestIn⟩
  | .putResponse p =>
    let r := u.putResponse p s.toServiceState
    ⟨r.1, s.owed && !r.2⟩

/-- The slot that an action takes a request from. -/
def Setup.serves (u : Setup Pdu) (s : OwingState Pdu) : ServiceAction Pdu → Option ℕ
  | .poll time =>
    if (u.poll time s.toServiceState).2 = .requestIn then some (u.turn s.protocol) else none
  | _ => none

/-- The application has had a final response accepted before it polls again. -/
def Polite (s : OwingState Pdu) : ServiceAction Pdu → Prop
  | .poll _ => s.owed = false
  | _ => True

/-- The service as `initialize` leaves it, on channels that hold anything. -/
def OwingState.initial (u : Setup Pdu) (name : Name) (b : Bus Pdu) : OwingState Pdu where
  bus := b
  protocol := .initial name u.entry.maxClients u.generation
  owed := false

structure Settled (u : Setup Pdu) (name : Name) (s : OwingState Pdu) : Prop where
  wired : u.Wired s.bus
  ok : ServerOk u.entry.maxClients s.protocol
  generation : s.protocol.runGeneration = u.generation
  serviceName : s.protocol.server.serviceName = name
  free : s.owed = false → ∀ j, s.protocol.server.state j = .idle
  only : ∀ j, j ≠ s.protocol.currentClientId → s.protocol.currentState ≠ .idle →
    s.protocol.server.state j = .idle

/-- Slot `i` waits, and the turn comes to it before it is with `j` again. -/
structure Before (u : Setup Pdu) (name : Name) (i j : ℕ) (s : OwingState Pdu) : Prop where
  asks : u.Asks name s.bus i
  free : s.owed = false → Turn.ahead u.entry.maxClients s.protocol.currentClientId i <
    Turn.ahead u.entry.maxClients s.protocol.currentClientId j
  owing : s.protocol.currentState ≠ .idle → s.protocol.currentClientId ≠ i ∧
    (s.protocol.currentClientId = j ∨ Turn.ahead u.entry.maxClients s.protocol.currentClientId i <
      Turn.ahead u.entry.maxClients s.protocol.currentClientId j)

section Runs

variable {u : Setup Pdu} {name : Name} {s : OwingState Pdu} {i j : ℕ}

theorem Settled.poll_cases (h : Settled u name s) (howed : s.owed = false) (time : ℤ) :
    (u.Asks name s.bus s.protocol.currentClientId ∧
      u.serves s (.poll time) = some s.protocol.currentClientId ∧
      (u.step s (.poll time)).owed = true ∧
      ∃ hd p, (u.step s (.poll time)).protocol = acceptRequest hd p s.protocol) ∨
    (u.Passes s.protocol s.bus s.protocol.currentClientId ∧ u.serves s (.poll time) = none ∧
      (u.step s (.poll time)).owed = false ∧
      ∃ t, (u.step s (.poll time)).protocol =
        s.protocol.at (Turn.next u.entry.maxClients s.protocol.currentClientId) t) ∨
    (¬ u.Asks name s.bus s.protocol.currentClientId ∧ u.serves s (.poll time) = none ∧
      (u.step s (.poll time)).owed = false ∧
      ∃ t, (u.step s (.poll time)).protocol = s.protocol.at s.protocol.currentClientId t) := by
  have hcur : s.protocol.currentClientId < u.entry.maxClients := h.ok.inRange
  have hturn := Setup.turn_eq h.generation
  obtain ⟨hasks, hevent, hd, p, hproto⟩ | ⟨hpass, hevent, t, hproto⟩ | ⟨hasks, -, hevent, t, hproto⟩ :=
    poll_idle h.wired h.ok.maxClients h.generation (h.free howed _) hcur
      (s := s.toServiceState) (t := s.protocol.lastPollTime) rfl time
  · refine Or.inl ⟨h.serviceName ▸ hasks, ?_, ?_, hd, p, hproto⟩
    · simp [Setup.serves, hevent, hturn]
    · simp [Setup.step, hevent]
  · rw [h.ok.maxClients] at hproto
    refine Or.inr (Or.inl ⟨hpass, ?_, ?_, t, hproto⟩)
    · simp [Setup.serves, hevent]
    · simp [Setup.step, hevent, howed]
  · refine Or.inr (Or.inr ⟨h.serviceName ▸ hasks, ?_, ?_, t, hproto⟩)
    · simp [Setup.serves, hevent]
    · simp [Setup.step, hevent, howed]

theorem step_putResponse (p : Pdu) :
    u.step s (.putResponse p) = s ∨
    s.protocol.currentState ≠ .idle ∧ ∃ v, (u.step s (.putResponse p)).protocol =
        (reply v p s.protocol).protocol ∧
      (u.step s (.putResponse p)).owed = (s.owed && !canPut v s.protocol) := by
  by_cases hc : canReply u.generation s.protocol = true
  · have hne : s.protocol.currentState ≠ .idle := by
      intro hidle
      simp [canReply, hidle] at hc
    refine Or.inr ⟨hne, u.view 0 (fun _ => none) s.bus, ?_, ?_⟩
    · simp [Setup.step, Setup.putResponse, replyToCurrentRequest, hc]
    · simp [Setup.step, Setup.putResponse, replyToCurrentRequest, hc, Replied.returned, reply_sent]
  · left
    simp [Setup.step, Setup.putResponse, replyToCurrentRequest, hc, Replied.returned, Setup.deliver]

theorem Settled.ended (h : Settled u name s) (hbusy : s.protocol.currentState ≠ .idle) (j : ℕ) :
    Function.update s.protocol.server.state s.protocol.currentClientId .idle j = .idle := by
  by_cases hj : j = s.protocol.currentClientId
  · rw [hj, Function.update_self]
  · rw [Function.update_of_ne hj]
    exact h.only j hj hbusy

theorem Settled.next_idle (h : Settled u name s) (hbusy : s.protocol.currentState ≠ .idle)
    (hN : 1 < u.entry.maxClients) :
    s.protocol.server.state (Turn.next u.entry.maxClients s.protocol.currentClientId) = .idle :=
  h.only _ (Turn.next_ne_self hN h.ok.inRange) hbusy

theorem Settled.replied (h : Settled u name s) (hbusy : s.protocol.currentState ≠ .idle)
    {s' : OwingState Pdu} {v : ServerView Pdu} {p : Pdu} (hw : u.Wired s'.bus)
    (hproto : s'.protocol = (reply v p s.protocol).protocol)
    (howed : s'.owed = (s.owed && !canPut v s.protocol)) : Settled u name s' := by
  have howing : s.owed = true := by
    by_contra hfree
    exact hbusy (h.free (by simpa using hfree) _)
  have hclient : s'.protocol.currentClientId =
      Turn.next u.entry.maxClients s.protocol.currentClientId := by
    rw [hproto, reply_currentClientId, h.ok.maxClients]
  have hstate := reply_state v p s.protocol
  rw [← hproto] at hstate
  refine ⟨hw, hproto ▸ h.ok.reply v p, ?_, ?_, ?_, ?_⟩
  · rw [hproto]
    exact h.generation
  · rw [hproto, reply_protocol]
    exact h.serviceName
  · intro hfree j
    rw [howed, howing, Bool.true_and] at hfree
    rw [hstate, if_pos (by simpa using hfree)]
    exact h.ended hbusy j
  · intro j hj hst
    rw [hclient] at hj
    change s'.protocol.server.state s'.protocol.currentClientId ≠ .idle at hst
    rw [hclient, hstate] at hst
    rw [hstate]
    cases hput : canPut v s.protocol with
    | true => exact h.ended hbusy j
    | false =>
      simp only [hput, Bool.false_eq_true, if_false] at hst ⊢
      by_cases hN : 1 < u.entry.maxClients
      · exact absurd (h.next_idle hbusy hN) hst
      · have hcur := h.ok.inRange
        have hone : u.entry.maxClients = 1 := by omega
        rw [hone, Turn.next_one] at hj
        exact h.only j (by omega) hbusy

theorem Settled.accepted (h : Settled u name s) (howed : s.owed = false) {s' : OwingState Pdu}
    {hd : RequestHeader} {p : Pdu} (hw : u.Wired s'.bus)
    (hproto : s'.protocol = acceptRequest hd p s.protocol) (howed' : s'.owed = true)
    (hok : ServerOk u.entry.maxClients s'.protocol) : Settled u name s' := by
  have hserver := h.ok.acceptRequest_server (h.free howed _) hd p
  rw [← hproto] at hserver
  refine ⟨hw, hok, ?_, ?_, ?_, ?_⟩
  · rw [hproto]
    exact h.generation
  · rw [hserver]
    exact h.serviceName
  · intro hfree
    rw [howed'] at hfree
    cases hfree
  · intro j hj _
    rw [ServerProtocol.currentClientId, hserver] at hj
    rw [hserver]
    exact (Function.update_of_ne hj _ _).trans (h.free howed j)

theorem Settled.moved (h : Settled u name s) (howed : s.owed = false) {s' : OwingState Pdu} {c : ℕ}
    {t : ℤ} (hc : c < u.entry.maxClients) (hw : u.Wired s'.bus)
    (hproto : s'.protocol = s.protocol.at c t) : Settled u name s' := by
  have hidle := h.free howed
  refine ⟨hw, ?_, ?_, ?_, ?_, ?_⟩
  · rw [hproto]
    exact ⟨h.ok.maxClients, hc, h.ok.generation⟩
  · rw [hproto]
    exact h.generation
  · rw [hproto]
    exact h.serviceName
  · rw [hproto]
    exact fun _ => hidle
  · rw [hproto]
    exact fun j _ _ => hidle j

theorem Settled.step (h : Settled u name s) {a : ServiceAction Pdu} (hp : Polite s a) :
    Settled u name (u.step s a) := by
  have hpos : 0 < u.entry.maxClients := by
    have := h.ok.inRange
    omega
  cases a with
  | putRequest k p =>
    exact ⟨h.wired.put _ _, h.ok, h.generation, h.serviceName, h.free, h.only⟩
  | getResponse k => exact ⟨h.wired.get _, h.ok, h.generation, h.serviceName, h.free, h.only⟩
  | poll time =>
    have hw : u.Wired (u.step s (.poll time)).bus := h.wired.poll time
    obtain ⟨-, -, howed', hd, p, hproto⟩ | ⟨-, -, -, t, hproto⟩ | ⟨-, -, -, t, hproto⟩ :=
      h.poll_cases hp time
    · exact h.accepted hp hw hproto howed' (h.ok.poll u.conv u.generation _)
    · exact h.moved hp (Turn.next_lt hpos _) hw hproto
    · exact h.moved hp h.ok.inRange hw hproto
  | putResponse p =>
    rcases step_putResponse (u := u) (s := s) p with hsame | ⟨hbusy, v, hproto, howed⟩
    · rw [hsame]
      exact h
    · exact h.replied hbusy (h.wired.putResponse p) hproto howed

theorem initial_settled (name : Name) {b : Bus Pdu} (hw : u.Wired b) (hN : 0 < u.entry.maxClients) :
    Settled u name (.initial u name b) :=
  ⟨hw, ⟨rfl, hN, fun _ hj => absurd rfl hj⟩, rfl, rfl, fun _ _ => rfl, fun _ _ _ => rfl⟩

theorem Before.asks_of_box (h : Before u name i j s) {b : Bus Pdu}
    (hbox : u.box b (.request i) = u.box s.bus (.request i)) : u.Asks name b i :=
  (asks_congr hbox).mpr h.asks

/-- A waiting packet stays where it is until the turn comes to its slot. -/
theorem box_step (hw : u.Wired s.bus) (hi : i < u.entry.maxClients)
    (hfull : u.box s.bus (.request i) ≠ none) (a : ServiceAction Pdu)
    (hturn : ∀ time, a = .poll time → u.turn s.protocol ≠ i) :
    u.box (u.step s a).bus (.request i) = u.box s.bus (.request i) := by
  cases a with
  | putRequest k p =>
    refine (hw.box_put (.request k) p (y := .request i) hi).trans (if_neg ?_)
    rintro ⟨hk, hnone⟩
    rw [hk] at hnone
    exact hfull hnone
  | getResponse k => exact (hw.box_get (.response k) (y := .request i) hi).trans (if_neg (by simp))
  | poll time => exact (hw.box_poll_request time hi).trans (if_neg (hturn time rfl))
  | putResponse p => exact hw.box_deliver_request _ hi

theorem Setup.Asks.box_ne_none {b : Bus Pdu} (h : u.Asks name b i) :
    u.box b (.request i) ≠ none :=
  fun hnone => not_asks_of_empty hnone h

theorem Before.poll (h : Settled u name s) (hb : Before u name i j s) (hi : i < u.entry.maxClients)
    (hj : j < u.entry.maxClients) (howed : s.owed = false) (time : ℤ)
    (hserves : u.serves s (.poll time) ≠ some i) : Before u name i j (u.step s (.poll time)) := by
  have hcur : s.protocol.currentClientId < u.entry.maxClients := h.ok.inRange
  have hnear := hb.free howed
  have hturn := Setup.turn_eq h.generation
  have hbox := box_step h.wired hi hb.asks.box_ne_none (.poll time)
  have hstill : s.protocol.currentClientId ≠ i → u.Asks name (u.step s (.poll time)).bus i :=
    fun hci => hb.asks_of_box (hbox fun _ _ hc => hci (hturn.symm.trans hc))
  obtain ⟨-, hslot, howed', hd, p, hproto⟩ | ⟨hpass, -, -, t, hproto⟩ | ⟨hasks, -, -, t, hproto⟩ :=
    h.poll_cases howed time
  · have hci : s.protocol.currentClientId ≠ i := fun hc => hserves (hc ▸ hslot)
    have hclient : (u.step s (.poll time)).protocol.currentClientId = s.protocol.currentClientId := by
      rw [hproto, ServerProtocol.currentClientId, h.ok.acceptRequest_server (h.free howed _)]
    refine ⟨hstill hci, fun hfree => ?_, fun _ => ?_⟩
    · rw [howed'] at hfree
      cases hfree
    · rw [hclient]
      exact ⟨hci, Or.inr hnear⟩
  · have hci : s.protocol.currentClientId ≠ i := fun hc => by
      have hnot := hpass.not_asks
      rw [h.serviceName, hc] at hnot
      exact hnot hb.asks
    refine ⟨hstill hci, fun _ => ?_, fun hbusy => absurd ?_ hbusy⟩
    · rw [hproto]
      exact Turn.next_nearer hcur hi hj hci (Or.inr hnear)
    · rw [hproto]
      exact h.free howed _
  · have hci : s.protocol.currentClientId ≠ i := fun hc => hasks (hc ▸ hb.asks)
    refine ⟨hstill hci, fun _ => ?_, fun hbusy => absurd ?_ hbusy⟩
    · rw [hproto]
      exact hnear
    · rw [hproto]
      exact h.free howed _

theorem Before.putResponse (h : Settled u name s) (hb : Before u name i j s)
    (hi : i < u.entry.maxClients) (hj : j < u.entry.maxClients) (hij : i ≠ j) (p : Pdu) :
    Before u name i j (u.step s (.putResponse p)) := by
  have hN : 1 < u.entry.maxClients := by
    rcases Nat.lt_or_gt_of_ne hij with hlt | hlt <;> omega
  have hask := hb.asks_of_box (box_step h.wired hi hb.asks.box_ne_none (.putResponse p) (by simp))
  rcases step_putResponse (u := u) (s := s) p with hsame | ⟨hbusy, v, hproto, -⟩
  · rw [hsame]
    exact hb
  · obtain ⟨hci, hnear⟩ := hb.owing hbusy
    have hclient : (u.step s (.putResponse p)).protocol.currentClientId =
        Turn.next u.entry.maxClients s.protocol.currentClientId := by
      rw [hproto, reply_currentClientId, h.ok.maxClients]
    refine ⟨hask, fun _ => ?_, fun hbusy' => absurd ?_ hbusy'⟩
    · rw [hclient]
      exact Turn.next_nearer h.ok.inRange hi hj hci hnear
    · show (u.step s (.putResponse p)).protocol.server.state
        (u.step s (.putResponse p)).protocol.currentClientId = .idle
      rw [hclient, hproto, reply_state]
      split
      · exact h.ended hbusy _
      · exact h.next_idle hbusy hN

theorem Before.step (h : Settled u name s) (hb : Before u name i j s) (hi : i < u.entry.maxClients)
    (hj : j < u.entry.maxClients) (hij : i ≠ j) {a : ServiceAction Pdu} (hp : Polite s a)
    (hserves : u.serves s a ≠ some i) : Before u name i j (u.step s a) := by
  have hbox := box_step h.wired hi hb.asks.box_ne_none a
  cases a with
  | putRequest k p => exact ⟨hb.asks_of_box (hbox (by simp)), hb.free, hb.owing⟩
  | getResponse k => exact ⟨hb.asks_of_box (hbox (by simp)), hb.free, hb.owing⟩
  | poll time => exact hb.poll h hi hj hp time hserves
  | putResponse p => exact hb.putResponse h hi hj hij p

theorem Settled.serves_turn (h : Settled u name s) {a : ServiceAction Pdu}
    (hserves : u.serves s a = some j) : s.protocol.currentClientId = j := by
  cases a with
  | poll time =>
    simp only [Setup.serves] at hserves
    split at hserves
    · rw [Setup.turn_eq h.generation, Option.some.injEq] at hserves
      exact hserves
    · cases hserves
  | _ => cases hserves

theorem before_of_served (h : Settled u name s) {a : ServiceAction Pdu} (hp : Polite s a)
    (hserves : u.serves s a = some j) (hij : i ≠ j) (hi : i < u.entry.maxClients)
    (hasks : u.Asks name s.bus i) : Before u name i j (u.step s a) := by
  have hcj := h.serves_turn hserves
  cases a with
  | poll time =>
    have hturn := Setup.turn_eq h.generation
    obtain ⟨-, -, howed', hd, p, hproto⟩ | ⟨-, hslot, -⟩ | ⟨-, hslot, -⟩ := h.poll_cases hp time
    · have hclient : (u.step s (.poll time)).protocol.currentClientId = j := by
        rw [hproto, ServerProtocol.currentClientId, h.ok.acceptRequest_server (h.free hp _)]
        exact hcj
      have hbox := box_step h.wired hi hasks.box_ne_none (.poll time) fun _ _ hc =>
        hij (hc.symm.trans (hturn.trans hcj))
      refine ⟨(asks_congr hbox).mpr hasks, fun hfree => ?_, fun _ => ?_⟩
      · rw [howed'] at hfree
        cases hfree
      · rw [hclient]
        exact ⟨hij.symm, Or.inl rfl⟩
    · rw [hslot] at hserves
      cases hserves
    · rw [hslot] at hserves
      cases hserves
  | _ => cases hserves

theorem Before.not_serves (h : Settled u name s) (hb : Before u name i j s) {a : ServiceAction Pdu}
    (hp : Polite s a) : u.serves s a ≠ some j := by
  intro hserves
  have hcj := h.serves_turn hserves
  have hcur : s.protocol.currentClientId < u.entry.maxClients := h.ok.inRange
  have hzero := (Turn.ahead_eq_zero hcur (hcj ▸ hcur)).mpr hcj
  cases a with
  | poll time =>
    have hnear := hb.free hp
    omega
  | _ => cases hserves

/-- Between two requests taken from slot `j` every other slot that waited at the first is
served. -/
theorem served_between (h : Settled u name s) {a b : ServiceAction Pdu} {as : List (ServiceAction Pdu)}
    (hp : Along u.step Polite s (a :: as ++ [b])) (ha : u.serves s a = some j)
    (hb : u.serves (run u.step (u.step s a) as) b = some j) (hij : i ≠ j)
    (hi : i < u.entry.maxClients) (hasks : u.Asks name s.bus i) :
    ∃ as₁ x as₂, as = as₁ ++ x :: as₂ ∧ u.serves (run u.step (u.step s a) as₁) x = some i := by
  obtain ⟨hpa, hprest⟩ := hp
  obtain ⟨hpas, hpb, -⟩ := (along_append u.step Polite (u.step s a) as [b]).mp hprest
  have hj : j < u.entry.maxClients := h.serves_turn ha ▸ h.ok.inRange
  by_contra hnone
  have hpassed : Along u.step (fun s x => u.serves s x ≠ some i) (u.step s a) as := by
    by_contra hnot
    obtain ⟨as₁, x, as₂, he, hx⟩ := exists_of_not_along hnot
    exact hnone ⟨as₁, x, as₂, he, not_not.mp hx⟩
  have hend : Settled u name (run u.step (u.step s a) as) ∧
      Before u name i j (run u.step (u.step s a) as) := by
    refine run_invariant (I := fun s => Settled u name s ∧ Before u name i j s)
      (fun s x hs hx => ?_) ⟨h.step hpa, before_of_served h hpa ha hij hi hasks⟩
      (along_and hpas hpassed)
    exact ⟨hs.1.step hx.1, hs.2.step hs.1 hi hj hij hx.1 hx.2⟩
  exact hend.2.not_serves hend.1 hpb hb

end Runs

/-- Which clients are served: `N` polls in a row take a request exactly when they reach one; and
where every request is answered before the next poll, no waiting client is passed over twice. -/
theorem service_turns (u : Setup Pdu) :
    (∀ (s : ServiceState Pdu) (times : List ℤ), u.Wired s.bus →
      s.protocol.server.maxClients = u.entry.maxClients →
      s.protocol.currentClientId < u.entry.maxClients →
      (∀ j < u.entry.maxClients, s.protocol.server.state j = .idle) →
      times.length = u.entry.maxClients →
      (.requestIn ∈ history u.pollStep u.pollEvents s times ↔ u.Reaches s)) ∧
    ∀ (name : Name) (bus : Bus Pdu) (as bs : List (ServiceAction Pdu)) (a b : ServiceAction Pdu)
      (i j : ℕ), 0 < u.entry.maxClients → u.Wired bus →
      Along u.step Polite (.initial u name bus) (as ++ a :: bs ++ [b]) →
      u.serves (run u.step (.initial u name bus) as) a = some j →
      u.serves (run u.step (.initial u name bus) (as ++ a :: bs)) b = some j →
      i ≠ j → i < u.entry.maxClients →
      u.Asks name (run u.step (.initial u name bus) as).bus i →
      ∃ bs₁ x bs₂, bs = bs₁ ++ x :: bs₂ ∧
        u.serves (run u.step (.initial u name bus) (as ++ a :: bs₁)) x = some i := by
  refine ⟨fun s times hw hmax hcur hidle hlen => polls_serve_iff hw hmax hcur hidle times hlen, ?_⟩
  intro name bus as bs a b i j hN hw hp ha hb hij hi hasks
  rw [List.append_assoc, along_append] at hp
  obtain ⟨hpas, hprest⟩ := hp
  have hinit := initial_settled name hw hN
  have hset : Settled u name (run u.step (.initial u name bus) as) :=
    run_invariant (fun s x hs hx => hs.step hx) hinit hpas
  simp only [run_append, run_cons] at hb ⊢
  exact served_between hset hprest ha hb hij hi hasks

/-- Slot 0 asks again as soon as it has its response; slot 1 has been waiting. -/
theorem service_turns_two :
    (.requestIn ∈ history (plainSetup 2).pollStep (plainSetup 2).pollEvents
        ⟨((plainSetup 2).put (.request 0) (plainRequest 0 0) (plainBus 2)).1, .initial [120] 2 0⟩
        [5, 6]) ∧
      ∃ bs₁ x bs₂, [.putResponse (plainRequest 0 0), .getResponse 0,
          .putRequest 0 (plainRequest 0 0), .poll 6, .putResponse (plainRequest 0 0)] =
          bs₁ ++ x :: bs₂ ∧
        (plainSetup 2).serves (run (plainSetup 2).step (.initial (plainSetup 2) [120] (plainBus 2))
          ([.putRequest 0 (plainRequest 0 0), .putRequest 1 (plainRequest 1 0)] ++
            .poll 5 :: bs₁)) x = some 1 := by
  have hwired := plainBus_wired (N := 2) (by decide)
  have hturns := service_turns (plainSetup 2)
  have hasks : ∀ b : Bus PlainPacket, ∀ j, (plainSetup 2).judge [120]
      ((plainSetup 2).box b (.request j)) =
        .valid ⟨1, [120], [97 + UInt8.ofNat j], OperationCode.request.code, 0⟩ (plainRequest j 0) →
      (plainSetup 2).Asks [120] b j :=
    fun b j hvalid => ⟨_, _, hvalid, rfl⟩
  constructor
  · refine (hturns.1 _ [5, 6] (hwired.put _ _) rfl (by decide) (fun _ _ => rfl) rfl).mpr ?_
    exact ⟨0, by decide, hasks _ 0 (by decide), fun i hi => absurd hi (by omega)⟩
  · refine hturns.2 [120] (plainBus 2) _ _ (.poll 5) (.poll 7) 1 0 (by decide) hwired ?_ (by decide)
      (by decide) (by decide) (by decide) ?_
    · exact ⟨trivial, trivial, rfl, trivial, trivial, trivial, rfl, trivial, rfl, trivial⟩
    · exact hasks _ 1 (by decide)

/-- Client 1 has sent a request and client 0 nothing; the turn is at client 0, and the polls
find nothing. -/
theorem silent_client_blocks :
    let u := plainSetup 2
    let s : ServiceState PlainPacket :=
      ⟨(u.put (.request 1) (plainRequest 1 0) (plainBus 2)).1, .initial [120] 2 0⟩
    u.judge [120] (u.box s.bus (.request 1)) =
        .valid ⟨1, [120], [98], OperationCode.request.code, 0⟩ (plainRequest 1 0) ∧
      (∀ j < 2, s.protocol.server.state j = .idle) ∧
      history u.pollStep u.pollEvents s [5, 6] = [.none, .none] := by
  decide

end Service
end HakoniwaCorePro
