import HakoniwaCorePro.RoundRobin
import HakoniwaCorePro.RpcExactlyOnce
import HakoniwaCorePro.ServerFairness

/-!
# Requests are finished

The session of `RpcSession` is a server that goes round: with the phases of the slots beside it,
every step is one of `RoundRobin`. What the server and the clients do again and again then brings
every request to its end, unless the turn comes to rest with a client that does not ask.
-/

namespace HakoniwaCorePro
namespace Service

open RecvEvent Runs RoundRobin

variable {Pdu : Type} {u : Setup Pdu} {name : Name}

def RpcState.abstractly (s : RpcState Pdu) (ph : ℕ → Exchange.Phase ℕ) : RoundRobin.State ℕ :=
  ⟨s.protocol.currentClientId, ph⟩

def shownEvents : Option (ℕ × Exchange.Event ℕ) → List RpcEvent
  | none => []
  | some (i, v) => [⟨i, v⟩]

/-- A state and the phases of its slots; what the server is busy with is owed. -/
structure Paired (u : Setup Pdu) (name : Name) (s : RpcState Pdu) (ph : ℕ → Exchange.Phase ℕ) :
    Prop where
  inv : RpcInv u name s ph
  atTurn : AtTurn (s.abstractly ph)
  owes : ∀ i id, Busy (ph i) id → s.owed = true

section

variable {s : RpcState Pdu} {ph : ℕ → Exchange.Phase ℕ}

theorem RpcInv.poll_turn (h : RpcInv u name s ph) (time : ℤ) :
    (u.rpcStep s (.poll time)).protocol.currentClientId = s.protocol.currentClientId := by
  have hi : s.protocol.currentClientId < u.entry.maxClients := h.ok.inRange
  have hrecv : recvRequest u.conv (u.pollView time s.protocol.currentClientId s.bus) s.protocol
      s.protocol.currentClientId =
      u.judge name (u.box s.bus (.request s.protocol.currentClientId)) := by
    rw [h.wired.recvRequest_eq time _ h.ok.maxClients hi, h.serviceName]
  have hreport := (h.link _ hi).no_report (currentState_eq rfl) (if_pos rfl) hrecv
  have hpoll := u.poll_eq (s := s.toServiceState) h.generation time
  have hout := pollCurrent_outcome u.conv
    (u.pollView time s.protocol.currentClientId s.bus) s.protocol
  simp only [Setup.rpcStep, hpoll]
  generalize Service.pollCurrent u.conv
    (u.pollView time s.protocol.currentClientId s.bus) s.protocol = r at hout
  cases hout with
  | reported status code t hr =>
    rw [hreport] at hr
    cases hr
  | quiet t _ _ => rfl
  | accepted hd p _ hst _ =>
    have hserver := h.ok.acceptRequest_server hst hd p
    simp only [ServerProtocol.currentClientId, hserver]
  | canceled hd p _ hst _ =>
    have hserver := h.ok.cancel_server hst
    simp only [ServerProtocol.currentClientId] at hserver ⊢
    simp only [hserver]

theorem RpcInv.poll_takes (h : RpcInv u name s ph) {id : ℕ}
    (hsent : ph s.protocol.currentClientId = .sent id) (time : ℤ) :
    u.rpcEvents s (.poll time) = [⟨s.protocol.currentClientId, .accepted id⟩] := by
  have hi : s.protocol.currentClientId < u.entry.maxClients := h.ok.inRange
  have hlink := h.link _ hi
  rw [hsent] at hlink
  obtain ⟨-, hidle, -, ⟨hd, p, hv, hop, hid, -⟩, -⟩ := hlink
  have hturn := Setup.turn_eq h.generation
  have hasks : u.Asks s.protocol.server.serviceName s.bus s.protocol.currentClientId :=
    ⟨hd, p, by rw [h.serviceName]; exact hv, hop⟩
  have hwaits := waitingId_eq h.wired hi hv
  obtain ⟨-, hevent, -⟩ | ⟨hpass, -⟩ | ⟨hnot, -⟩ :=
    poll_idle h.wired h.ok.maxClients h.generation hidle hi (s := s.toServiceState)
      (t := s.protocol.lastPollTime) rfl time
  · simp only [Setup.rpcEvents, hevent, hturn, hwaits, hid]
  · exact absurd hasks hpass.not_asks
  · exact absurd hasks hnot

theorem RpcInv.putResponse_shows (h : RpcInv u name s ph) (howed : s.owed = true) {p : Pdu}
    {code : ResultCode} (hp : u.conv.response.pdu2cpp p =
      some (setResponseHeader (u.view 0 (fun _ => none) s.bus) s.protocol .done code)) :
    u.rpcEvents s (.putResponse p) = [⟨s.protocol.currentClientId,
        .replied s.protocol.requestHeader.requestId⟩] ∧
      (u.rpcStep s (.putResponse p)).protocol.currentClientId =
        Turn.next u.entry.maxClients s.protocol.currentClientId := by
  have hi : s.protocol.currentClientId < u.entry.maxClients := h.ok.inRange
  have hbusy : s.protocol.server.state s.protocol.currentClientId ≠ .idle := h.owes howed
  obtain ⟨id, -, hnone, -⟩ := (h.link _ hi).served hbusy
  have hreply := h.reply_eq rfl hbusy hnone p
  simp only [Setup.rpcEvents, Setup.rpcStep, Setup.putResponse, hreply, if_true, hp,
    Option.map_some, Option.getD_some]
  exact ⟨rfl, by rw [h.ok.maxClients]⟩

theorem Paired.silent (h : Paired u name s ph) {s' : RpcState Pdu} (hinv : RpcInv u name s' ph)
    (hturn : s'.protocol.currentClientId = s.protocol.currentClientId) (howed : s'.owed = s.owed) :
    Paired u name s' ph ∧
      Step u.entry.maxClients (s.abstractly ph) none (s'.abstractly ph) := by
  have hsame : s'.abstractly ph = s.abstractly ph := by
    simp only [RpcState.abstractly, hturn]
  refine ⟨⟨hinv, by rw [hsame]; exact h.atTurn, by rw [howed]; exact h.owes⟩, ?_⟩
  rw [hsame]
  exact .silent

theorem Paired.shown (h : Paired u name s ph) {s' : RpcState Pdu} {ph' : ℕ → Exchange.Phase ℕ}
    {i : ℕ} {v : Exchange.Event ℕ} (hinv : RpcInv u name s' ph')
    (hstep : Step u.entry.maxClients (s.abstractly ph) (some (i, v)) (s'.abstractly ph'))
    (howed : (∀ id, v ≠ .replied id) → s.owed = true ∨ (∃ id, v = .accepted id) → s'.owed = true) :
    Paired u name s' ph' := by
  refine ⟨hinv, hstep.atTurn h.atTurn, fun k id hb => ?_⟩
  rcases hstep.becomes_busy (j := k) hb with ⟨x, hx⟩ | hsent
  · have hk : k = s.protocol.currentClientId := h.atTurn k x hx
    subst hk
    rcases hstep.turn with ⟨-, hnot⟩ | ⟨-, y, hy⟩
    · refine howed (fun y hv => ?_) (Or.inl (h.owes _ x hx))
      subst hv
      rcases hstep.at_turn rfl with ⟨z, hz | hz⟩ | hi
      · cases hz
      · cases hz
      · exact hnot y (by rw [hi])
    · rcases step_busy hx (hstep.shown hy) with ⟨hc, -⟩ | ⟨-, hp⟩
      · cases hc
      · exact absurd hb (by
          rw [show ph' s.protocol.currentClientId = .answered x from hp]
          exact not_busy_answered x id)
  · rcases hstep.phase k with hsame | ⟨w, hw, hv⟩
    · rw [hsent] at hsame
      exact absurd hb (by
        rw [show ph' k = .sent id from hsame]
        exact not_busy_sent id id)
    · rw [hsent] at hv
      obtain ⟨rfl, -⟩ := step_sent hv
      cases hw
      exact howed (by simp) (Or.inr ⟨id, rfl⟩)

def Goes (u : Setup Pdu) (name : Name) (s : RpcState Pdu) (ph : ℕ → Exchange.Phase ℕ)
    (s' : RpcState Pdu) (es : List RpcEvent) : Prop :=
  ∃ e ph', Paired u name s' ph' ∧ es = shownEvents e ∧
    Step u.entry.maxClients (s.abstractly ph) e (s'.abstractly ph')

theorem Paired.client (h : Paired u name s ph) {s' : RpcState Pdu} {es : List RpcEvent}
    (hadv : Advance u name s' ph es) (hproto : s'.protocol = s.protocol) (howed : s'.owed = s.owed)
    (hkind : ∀ i v, es = [⟨i, v⟩] → ∃ id, v = .requested id ∨ v = .finished id) :
    Goes u name s ph s' es := by
  have hturn : s'.protocol.currentClientId = s.protocol.currentClientId := by rw [hproto]
  cases hadv with
  | silent hinv =>
    obtain ⟨hpaired, hstep⟩ := h.silent hinv hturn howed
    exact ⟨none, ph, hpaired, rfl, hstep⟩
  | shown i v p hp hinv =>
    have hview : s'.abstractly (Function.update ph i p) =
        ⟨(s.abstractly ph).turn, Function.update (s.abstractly ph).phase i p⟩ := by
      simp only [RpcState.abstractly, hturn]
    have hstep : Step u.entry.maxClients (s.abstractly ph) (some (i, v))
        (s'.abstractly (Function.update ph i p)) := by
      rw [hview]
      obtain ⟨id, rfl | rfl⟩ := hkind i v rfl
      · exact .requested i id p hp
      · exact .finished i id p hp
    refine ⟨some (i, v), _, h.shown hinv hstep fun _ howes => ?_, rfl, hstep⟩
    rcases howes with howes | ⟨x, rfl⟩
    · rw [howed, howes]
    · obtain ⟨id, hc | hc⟩ := hkind i _ rfl <;> cases hc

theorem Paired.request (h : Paired u name s ph) (hr : u.Registered name) {j : ℕ}
    {time timeoutMsec : ℤ} {p : Pdu} (hl : Legal u s (.request j time timeoutMsec p)) :
    Goes u name s ph (u.rpcStep s (.request j time timeoutMsec p))
      (u.rpcEvents s (.request j time timeoutMsec p)) := by
  refine h.client (h.inv.step hr hl) rfl rfl fun i v hes => ?_
  simp only [Setup.rpcEvents] at hes
  split at hes
  · cases hes
    exact ⟨_, Or.inl rfl⟩
  · cases hes

theorem Paired.pollClient (h : Paired u name s ph) (hr : u.Registered name) {j : ℕ} {time : ℤ}
    (hl : Legal u s (.pollClient j time)) :
    Goes u name s ph (u.rpcStep s (.pollClient j time)) (u.rpcEvents s (.pollClient j time)) := by
  refine h.client (h.inv.step hr hl) rfl rfl fun i v hes => ?_
  simp only [Setup.rpcEvents] at hes
  split at hes
  · cases hes
    exact ⟨_, Or.inr rfl⟩
  · cases hes

theorem poll_shows (time : ℤ) {i : ℕ} {v : Exchange.Event ℕ}
    (hes : u.rpcEvents s (.poll time) = [⟨i, v⟩]) :
    i = u.turn s.protocol ∧ ∃ id, v = .accepted id ∧ (u.rpcStep s (.poll time)).owed = true ∨
      v = .canceled id := by
  simp only [Setup.rpcEvents] at hes
  split at hes
  · cases hes
  · next hev =>
    cases hes
    exact ⟨rfl, _, Or.inl ⟨rfl, by simp [Setup.rpcStep, hev]⟩⟩
  · cases hes
    exact ⟨rfl, _, Or.inr rfl⟩

theorem Paired.poll (h : Paired u name s ph) (time : ℤ) :
    Goes u name s ph (u.rpcStep s (.poll time)) (u.rpcEvents s (.poll time)) := by
  have hadv := h.inv.poll time
  have hturn := h.inv.poll_turn time
  have hkept : s.owed = true → (u.rpcStep s (.poll time)).owed = true := by
    intro howed
    simp [Setup.rpcStep, howed]
  have hquiet : u.rpcEvents s (.poll time) = [] → (u.rpcStep s (.poll time)).owed = s.owed := by
    intro hes
    simp only [Setup.rpcEvents] at hes
    split at hes
    · next hev => simp [Setup.rpcStep, hev]
    · cases hes
    · cases hes
  have hshows := fun i v => poll_shows (u := u) (s := s) time (i := i) (v := v)
  rw [Setup.turn_eq h.inv.generation] at hshows
  generalize u.rpcEvents s (.poll time) = es at hadv hquiet hshows
  generalize u.rpcStep s (.poll time) = s' at hadv hturn hkept hquiet hshows
  cases hadv with
  | silent hinv =>
    obtain ⟨hpaired, hstep⟩ := h.silent hinv hturn (hquiet rfl)
    exact ⟨none, ph, hpaired, rfl, hstep⟩
  | shown i v p hp hinv =>
    obtain ⟨rfl, id, hv⟩ := hshows i v rfl
    have hview : s'.abstractly (Function.update ph s.protocol.currentClientId p) =
        ⟨(s.abstractly ph).turn,
          Function.update (s.abstractly ph).phase (s.abstractly ph).turn p⟩ := by
      simp only [RpcState.abstractly, hturn]
    have hstep : Step u.entry.maxClients (s.abstractly ph) (some (s.protocol.currentClientId, v))
        (s'.abstractly (Function.update ph s.protocol.currentClientId p)) := by
      rw [hview]
      rcases hv with ⟨rfl, -⟩ | rfl
      · exact .accepted id p hp
      · exact .canceled id p hp
    refine ⟨some (_, v), _, h.shown hinv hstep fun _ howes => ?_, rfl, hstep⟩
    rcases howes with howes | ⟨x, rfl⟩
    · exact hkept howes
    · rcases hv with ⟨-, howed⟩ | hc
      · exact howed
      · cases hc

theorem Paired.putResponse (h : Paired u name s ph) (hr : u.Registered name) {p : Pdu}
    (hl : Legal u s (.putResponse p)) :
    Goes u name s ph (u.rpcStep s (.putResponse p)) (u.rpcEvents s (.putResponse p)) := by
  have hadv := h.inv.step hr hl
  obtain ⟨howed, code, hp⟩ := hl
  obtain ⟨hes, hturn⟩ := h.inv.putResponse_shows howed hp
  rw [hes] at hadv ⊢
  generalize u.rpcStep s (.putResponse p) = s' at hadv hturn
  cases hadv with
  | shown i v q hq hinv =>
    have hview : s'.abstractly (Function.update ph s.protocol.currentClientId q) =
        ⟨Turn.next u.entry.maxClients (s.abstractly ph).turn,
          Function.update (s.abstractly ph).phase (s.abstractly ph).turn q⟩ := by
      simp only [RpcState.abstractly, hturn]
    have hstep : Step u.entry.maxClients (s.abstractly ph)
        (some (s.protocol.currentClientId, .replied s.protocol.requestHeader.requestId))
        (s'.abstractly (Function.update ph s.protocol.currentClientId q)) := by
      rw [hview]
      exact .replied _ q hq
    exact ⟨_, _, h.shown hinv hstep fun hnot => absurd rfl (hnot _), rfl, hstep⟩

theorem Paired.step (h : Paired u name s ph) (hr : u.Registered name) {a : RpcAction Pdu}
    (hl : Legal u s a) : Goes u name s ph (u.rpcStep s a) (u.rpcEvents s a) := by
  cases a with
  | request j time timeoutMsec p => exact h.request hr hl
  | cancelRequest j => exact h.client (h.inv.step hr hl) rfl rfl fun i v hes => by cases hes
  | pollClient j time => exact h.pollClient hr hl
  | poll time => exact h.poll time
  | putResponse p => exact h.putResponse hr hl

theorem RpcInv.pollClient_fetches (h : RpcInv u name s ph) {j id : ℕ} (hj : j < u.entry.maxClients)
    (hph : ph j = .answered id) (time : ℤ) :
    u.rpcEvents s (.pollClient j time) = [⟨j, .finished id⟩] := by
  have hlink := h.link j hj
  have hbusy : (s.clients j).state ≠ .idle := by
    intro hidle
    have heq := hlink.eq_idle hidle
    rw [hph] at heq
    cases heq
  rw [hph] at hlink
  obtain ⟨-, ⟨hd, p, hbox, hparse, hvalid, hdone, hid⟩, -⟩ := hlink
  obtain ⟨hev, hheader, -⟩ :=
    pollClient_of_response (h.knows j hj) hj h.wired hbusy hbox hparse hvalid hdone time
  simp only [Setup.rpcEvents, if_pos hev, hheader, hid]

end

/-- The server polls, every client polls, and what is owed is answered, again and again. -/
structure Setup.Fair (u : Setup Pdu) (s : RpcState Pdu) (σ : ℕ → RpcAction Pdu) : Prop where
  polls : ∀ t, ∃ k, t ≤ k ∧ ∃ time, σ k = .poll time
  clientPolls : ∀ j < u.entry.maxClients, ∀ t, ∃ k, t ≤ k ∧ ∃ time, σ k = .pollClient j time
  answers : ∀ t, (after u.rpcStep s σ t).owed = true → ∃ k, t ≤ k ∧ ∃ p, σ k = .putResponse p

theorem Setup.Fresh.paired {s : RpcState Pdu} (hf : u.Fresh name s) (hN : 0 < u.entry.maxClients) :
    Paired u name s fun _ => .idle :=
  ⟨hf.inv hN, fun _ id hb => absurd hb (not_busy_idle id), fun _ id hb =>
    absurd hb (not_busy_idle id)⟩

theorem exists_phases {s : RpcState Pdu} (hr : u.Registered name) (hN : 0 < u.entry.maxClients)
    (hf : u.Fresh name s) {σ : ℕ → RpcAction Pdu}
    (hl : ∀ t, Legal u (after u.rpcStep s σ t) (σ t)) :
    ∃ (ph : ℕ → ℕ → Exchange.Phase ℕ) (e : ℕ → Option (ℕ × Exchange.Event ℕ)),
      (∀ t, Paired u name (after u.rpcStep s σ t) (ph t)) ∧
      (∀ t, u.rpcEvents (after u.rpcStep s σ t) (σ t) = shownEvents (e t)) ∧
      ∀ t, Step u.entry.maxClients ((after u.rpcStep s σ t).abstractly (ph t)) (e t)
        ((after u.rpcStep s σ (t + 1)).abstractly (ph (t + 1))) := by
  have hnext : ∀ t (q : {ph // Paired u name (after u.rpcStep s σ t) ph}),
      ∃ (e : Option (ℕ × Exchange.Event ℕ))
        (q' : {ph // Paired u name (after u.rpcStep s σ (t + 1)) ph}),
        u.rpcEvents (after u.rpcStep s σ t) (σ t) = shownEvents e ∧
        Step u.entry.maxClients ((after u.rpcStep s σ t).abstractly q.1) e
          ((after u.rpcStep s σ (t + 1)).abstractly q'.1) := by
    rintro t ⟨ph, hph⟩
    obtain ⟨e, ph', hph', hes, hstep⟩ := hph.step hr (hl t)
    have hsucc : after u.rpcStep s σ (t + 1) = u.rpcStep (after u.rpcStep s σ t) (σ t) :=
      after_succ s σ t
    rw [← hsucc] at hph' hstep
    exact ⟨e, ⟨ph', hph'⟩, hes, hstep⟩
  choose e next hes hstep using hnext
  let q : ∀ t, {ph // Paired u name (after u.rpcStep s σ t) ph} := fun t =>
    Nat.rec ⟨fun _ => .idle, hf.paired hN⟩ (fun t q => next t q) t
  exact ⟨fun t => (q t).1, fun t => e t (q t), fun t => (q t).2, fun t => hes t (q t),
    fun t => hstep t (q t)⟩

theorem shownEvents_eq {e : Option (ℕ × Exchange.Event ℕ)} {i : ℕ} {v : Exchange.Event ℕ}
    (h : shownEvents e = [⟨i, v⟩]) : e = some (i, v) := by
  cases e with
  | none => cases h
  | some x =>
    obtain ⟨k, w⟩ := x
    cases h
    rfl

theorem roundRobin_run {s : RpcState Pdu} {σ : ℕ → RpcAction Pdu}
    (hl : ∀ t, Legal u (after u.rpcStep s σ t) (σ t)) (hfair : u.Fair s σ)
    {ph : ℕ → ℕ → Exchange.Phase ℕ} {e : ℕ → Option (ℕ × Exchange.Event ℕ)}
    (hph : ∀ t, Paired u name (after u.rpcStep s σ t) (ph t))
    (hes : ∀ t, u.rpcEvents (after u.rpcStep s σ t) (σ t) = shownEvents (e t))
    (hstep : ∀ t, Step u.entry.maxClients ((after u.rpcStep s σ t).abstractly (ph t)) (e t)
      ((after u.rpcStep s σ (t + 1)).abstractly (ph (t + 1)))) :
    RoundRobin.Run u.entry.maxClients (fun t => (after u.rpcStep s σ t).abstractly (ph t)) e := by
  have hshown : ∀ {t i v}, u.rpcEvents (after u.rpcStep s σ t) (σ t) = [⟨i, v⟩] →
      e t = some (i, v) := fun {t _ _} h => shownEvents_eq ((hes t).symm.trans h)
  refine ⟨(hph 0).inv.ok.inRange, (hph 0).atTurn, hstep, fun t => ?_, fun i hi t => ?_, fun t => ?_⟩
  · obtain ⟨k, htk, time, hk⟩ := hfair.polls t
    refine ⟨k, htk, fun id hsent => hshown ?_⟩
    rw [hk]
    exact (hph k).inv.poll_takes hsent time
  · obtain ⟨k, htk, time, hk⟩ := hfair.clientPolls i hi t
    refine ⟨k, htk, fun id hans => hshown ?_⟩
    rw [hk]
    exact (hph k).inv.pollClient_fetches hi hans time
  · by_cases howed : (after u.rpcStep s σ t).owed = true
    · obtain ⟨k, htk, p, hk⟩ := hfair.answers t howed
      refine ⟨k, htk, fun id hb => ?_⟩
      have hlegal := hl k
      rw [hk] at hlegal
      obtain ⟨howed', code, hp⟩ := hlegal
      have hes' := ((hph k).inv.putResponse_shows howed' hp).1
      rw [← hk] at hes'
      have hev := hshown hes'
      rcases step_busy hb ((hstep k).shown hev) with ⟨hc, -⟩ | ⟨hv, -⟩
      · cases hc
      · rw [hev, hv]
        rfl
    · exact ⟨t, Nat.le_refl t, fun id hb => absurd ((hph t).owes _ id hb) howed⟩

/-- Client 0 asks once and is answered; then all look again and again. -/
def oneRequest : ℕ → RpcAction PlainPacket
  | 0 => .request 0 0 0 (.inl (setRequestHeader .request 0 (plainClient 2 0)))
  | 1 => .poll 0
  | 2 => .putResponse (.inr ⟨0, [120], (plainEntry 2).getClientName 0, 3, 0, 0⟩)
  | t + 3 => if t % 3 = 0 then .poll 0 else .pollClient (t % 3 - 1) 0

theorem oneRequest_legal (t : ℕ) :
    Legal (plainSetup 2) (after (plainSetup 2).rpcStep (plainSession 2) oneRequest t)
      (oneRequest t) := by
  have hr := plainSetup_registered 2
  match t with
  | 0 =>
    exact legal_of_getRequestBuffer hr Nat.zero_lt_two ⟨rfl, rfl, rfl⟩ rfl (Int.le_refl 0) rfl 0 0
  | 1 => trivial
  | 2 =>
    refine legal_of_getResponseBuffer (by decide) .ok (by decide) fun h hbuf => ?_
    cases hbuf
    rfl
  | t + 3 =>
    simp only [oneRequest]
    split
    · trivial
    · show t % 3 - 1 < 2
      omega

def Calm (ph : Exchange.Phase ℕ) : Prop := ph = .idle ∨ ∃ id, ph = .answered id

theorem Calm.step {ph p : Exchange.Phase ℕ} {v : Exchange.Event ℕ} (h : Calm ph)
    (hnot : ∀ id, v ≠ .requested id) (hv : ph.step v = some p) : Calm p := by
  rcases h with rfl | ⟨id, rfl⟩
  · obtain ⟨id, hc, -⟩ := step_idle hv
    exact absurd hc (hnot id)
  · exact Or.inl (step_answered hv).2

theorem oneRequest_owed {t : ℕ} (ht : 3 ≤ t) :
    (after (plainSetup 2).rpcStep (plainSession 2) oneRequest t).owed = false := by
  obtain ⟨ph, e, hph, hes, hstep⟩ := exists_phases (plainSetup_registered 2) Nat.zero_lt_two
    (plainSession_fresh (by decide)) oneRequest_legal
  have hcalm : ∀ j < 2, Calm (ph t j) := by
    induction t, ht using Nat.le_induction with
    | base =>
      intro j hj
      have hlink := (hph 3).inv.link j hj
      have hempty : (plainSetup 2).box (after (plainSetup 2).rpcStep (plainSession 2) oneRequest 3).bus
          (.request j) = none := by
        obtain rfl | rfl : j = 0 ∨ j = 1 := by omega
        · decide
        · decide
      cases hp : ph 3 j with
      | idle => exact Or.inl rfl
      | answered id => exact Or.inr ⟨id, rfl⟩
      | sent id =>
        rw [hp] at hlink
        exact absurd hempty hlink.2.2.2.1.ne_none
      | serving id => exact absurd ((hph 3).owes j id (Or.inl hp)) (by decide)
      | canceling id => exact absurd ((hph 3).owes j id (Or.inr hp)) (by decide)
    | succ t ht ih =>
      intro j hj
      rcases (hstep t).phase j with hsame | ⟨v, he, hv⟩
      · rw [show ph (t + 1) j = ph t j from hsame]
        exact ih j hj
      · refine (ih j hj).step (fun id hreq => ?_) hv
        subst hreq
        have hshow := hes t
        rw [he] at hshow
        obtain ⟨k, rfl⟩ := Nat.exists_eq_add_of_le ht
        rw [Nat.add_comm 3 k] at hshow
        simp only [oneRequest] at hshow
        split at hshow
        · obtain ⟨-, x, ⟨hc, -⟩ | hc⟩ := poll_shows 0 hshow <;> cases hc
        · simp only [Setup.rpcEvents] at hshow
          split at hshow <;> cases hshow
  by_contra howed
  have hinv := (hph t).inv
  have hturn := hinv.ok.inRange
  obtain ⟨id, hserved, -⟩ := (hinv.link _ hturn).served (hinv.owes (by simpa using howed))
  rcases hcalm _ hturn with hc | ⟨x, hc⟩
  · rw [hc] at hserved
    cases hserved
  · rw [hc] at hserved
    cases hserved

theorem oneRequest_fair : (plainSetup 2).Fair (plainSession 2) oneRequest := by
  refine ⟨fun t => ⟨3 * t + 3, by omega, 0, by simp [oneRequest]⟩, fun j hj t => ?_, fun t ht => ?_⟩
  · have hj' : j < 2 := hj
    refine ⟨3 * t + (j + 1) + 3, by omega, 0, ?_⟩
    have hmod : (3 * t + (j + 1)) % 3 = j + 1 := by omega
    simp [oneRequest, hmod]
  · by_cases hlate : 3 ≤ t
    · rw [oneRequest_owed hlate] at ht
      cases ht
    · exact ⟨2, by omega, _, rfl⟩

end Service
end HakoniwaCorePro
