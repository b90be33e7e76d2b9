import HakoniwaCorePro.ServerSteps

/-!
# The turn of a service server

One header, one buffer and one generation are kept for all clients, so a server makes sense
only while no client but the current one is busy. Every reply passes the turn on, also one
that was not written.
-/

namespace HakoniwaCorePro
namespace Service

open Runs

variable {Pdu : Type}

def OnlyCurrent (s : ServerProtocol Pdu) : Prop :=
  ∀ j, j ≠ s.currentClientId → s.server.state j = .idle

/-- After the step only the current client can be busy; a response that could not be written
has changed nothing; and a request that was ended has passed the turn on by one. -/
structure TurnKept (conv : Convertors Pdu) (s : ServerSystem Pdu) (a : ServerAction Pdu) :
    Prop where
  inRange : (operation conv s a).protocol.currentClientId < s.protocol.server.maxClients
  only : OnlyCurrent (operation conv s a).protocol
  retry : ∀ v p, a = .putResponse v p ∨ a = .reply v p → (operation conv s a).returned = false →
    (operation conv s a).protocol.currentClientId = s.protocol.currentClientId ∧
    (operation conv s a).protocol.server.state = s.protocol.server.state
  once : s.protocol.currentState ≠ .idle →
    (operation conv s a).protocol.server.state s.protocol.currentClientId = .idle →
    (operation conv s a).protocol.runGeneration = s.protocol.runGeneration →
    (operation conv s a).protocol.currentClientId =
      Turn.next s.protocol.server.maxClients s.protocol.currentClientId

/-- There is one client only; or the responses of the application and the reports sent during
a request are written; and `cancel_done` comes when it cannot take the turn two places on. -/
def TurnSafe (conv : Convertors Pdu) (s : ServerSystem Pdu) (a : ServerAction Pdu) : Prop :=
  s.protocol.server.maxClients = 1 ∨
  match a with
  | .start => True
  | .putProgress _ => True
  | .poll v =>
    let q := s.protocol.resetIfNewRun s.generation
    q.currentState ≠ .idle → ∀ status code, report conv v q = some (status, code) →
      (conv.response.cpp2pdu (setResponseHeader v q status code)).isSome = true →
      v.putResponse q.currentClientId = true
  | .putResponse v _ =>
    canReply s.generation s.protocol = true → v.putResponse s.protocol.currentClientId = true
  | .reply v _ => v.putResponse s.protocol.currentClientId = true
  | .cancelDone v =>
    s.protocol.currentState = .idle ∨
    conv.response.cpp2pdu (setResponseHeader v s.protocol .done .canceled) = none ∨
    (s.protocol.server.maxClients = 2 ∧ v.putResponse s.protocol.currentClientId = false)

section Turn

variable {N : ℕ} {conv : Convertors Pdu} {s : ServerProtocol Pdu}

theorem OnlyCurrent.resetIfNewRun (h : OnlyCurrent s) (g : ℕ) : OnlyCurrent (s.resetIfNewRun g) := by
  unfold ServerProtocol.resetIfNewRun
  split
  · exact h
  · exact fun _ _ => rfl

theorem reply_only_iff (h : ServerOk N s) (hone : OnlyCurrent s) (v : ServerView Pdu) (p : Pdu) :
    OnlyCurrent (reply v p s).protocol ↔
      s.server.maxClients = 1 ∨ v.putResponse s.currentClientId = true ∨ s.currentState = .idle := by
  rw [reply_protocol, h.canPut_eq]
  have hnext := h.next_eq_self_iff
  cases hput : v.putResponse s.currentClientId with
  | true =>
    refine ⟨fun _ => Or.inr (Or.inl rfl), fun _ j hj => ?_⟩
    by_cases hjc : j = s.currentClientId
    · subst hjc
      simp
    · simpa [hjc] using hone j hjc
  | false =>
    simp only [Bool.false_eq_true, if_false, false_or]
    constructor
    · intro honly
      by_cases hN : s.server.maxClients = 1
      · exact Or.inl hN
      · exact Or.inr (honly s.currentClientId fun he => hN (hnext.mp he.symm))
    · rintro (hN | hidle) j hj
      · refine hone j fun hjc => hj ?_
        rw [hjc]
        exact (hnext.mpr hN).symm
      · by_cases hjc : j = s.currentClientId
        · rw [hjc]
          exact hidle
        · exact hone j hjc

theorem reply_turn_iff (h : ServerOk N s) (hone : OnlyCurrent s) (v : ServerView Pdu) (p : Pdu) :
    (OnlyCurrent (reply v p s).protocol ∧
      ((reply v p s).returned = false →
        (reply v p s).protocol.currentClientId = s.currentClientId ∧
        (reply v p s).protocol.server.state = s.server.state)) ↔
    s.server.maxClients = 1 ∨ v.putResponse s.currentClientId = true := by
  have hret : (reply v p s).returned = v.putResponse s.currentClientId := by
    simp [Replied.returned, reply_sent, h.canPut_eq]
  rw [reply_only_iff h hone, hret, reply_currentClientId, reply_state, h.canPut_eq,
    h.next_eq_self_iff]
  cases v.putResponse s.currentClientId <;> simp +contextual

theorem sendResponse_only_iff (h : ServerOk N s) (hone : OnlyCurrent s) (v : ServerView Pdu)
    (status : ServiceStatus) (code : ResultCode) :
    OnlyCurrent (sendResponse conv v status code s).protocol ↔
      ((conv.response.cpp2pdu (setResponseHeader v s status code)).isSome = true →
        s.server.maxClients = 1 ∨ v.putResponse s.currentClientId = true ∨
          s.currentState = .idle) := by
  rcases sendResponse_cases conv v status code s with ⟨henc, hs⟩ | ⟨p, henc, hs⟩
  · rw [hs, henc]
    exact ⟨fun _ hsome => by simp at hsome, fun _ => hone⟩
  · rw [hs, henc, reply_only_iff h hone]
    simp

theorem sendResponse_once (hbusy : s.currentState ≠ .idle) (v : ServerView Pdu)
    (status : ServiceStatus) (code : ResultCode)
    (hidle : (sendResponse conv v status code s).protocol.server.state s.currentClientId = .idle) :
    (sendResponse conv v status code s).protocol.currentClientId =
      Turn.next s.server.maxClients s.currentClientId := by
  rcases sendResponse_cases conv v status code s with ⟨-, hs⟩ | ⟨p, -, hs⟩
  · rw [hs] at hidle
    exact absurd hidle hbusy
  · rw [hs, reply_currentClientId]

theorem OnlyCurrent.update (h : OnlyCurrent s) (st : ServerState) :
    ∀ j, j ≠ s.currentClientId → Function.update s.server.state s.currentClientId st j = .idle := by
  intro j hj
  rw [Function.update_of_ne hj]
  exact h j hj

theorem pollCurrent_only_iff (h : ServerOk N s) (hone : OnlyCurrent s) (v : ServerView Pdu) :
    OnlyCurrent (pollCurrent conv v s).protocol ↔
      s.server.maxClients = 1 ∨ (s.currentState ≠ .idle → ∀ status code,
        report conv v s = some (status, code) →
        (conv.response.cpp2pdu (setResponseHeader v s status code)).isSome = true →
        v.putResponse s.currentClientId = true) := by
  have hout := pollCurrent_outcome conv v s
  generalize pollCurrent conv v s = r at hout
  cases hout with
  | reported status code t hr =>
    show OnlyCurrent (sendResponse conv v status code s).protocol ↔ _
    rw [sendResponse_only_iff h hone]
    constructor
    · intro honly
      by_cases hN : s.server.maxClients = 1
      · exact Or.inl hN
      · refine Or.inr fun hbusy status' code' hr' hsome => ?_
        rw [hr] at hr'
        cases hr'
        have hcase := honly hsome
        tauto
    · rintro (hN | hput) hsome
      · exact Or.inl hN
      · by_cases hidle : s.currentState = .idle
        · exact Or.inr (Or.inr hidle)
        · exact Or.inr (Or.inl (hput hidle status code hr hsome))
  | quiet t hr hrecv =>
    refine ⟨fun _ => Or.inr fun _ status code hr' => ?_, fun _ => hone⟩
    rw [hr] at hr'
    cases hr'
  | accepted hd p hrecv hidle hop =>
    refine ⟨fun _ => Or.inr fun hbusy => absurd hidle hbusy, fun _ => ?_⟩
    simp only [OnlyCurrent, ServerProtocol.currentClientId, h.acceptRequest_server hidle hd p]
    exact hone.update .doing
  | canceled hd p hrecv hdoing hop =>
    refine ⟨fun _ => Or.inr fun _ status code hr' => ?_, fun _ => ?_⟩
    · simp [report, hrecv, hdoing, hop] at hr'
    · simp only [OnlyCurrent, ServerProtocol.currentClientId, h.cancel_server hdoing]
      exact hone.update .canceling

theorem pollCurrent_once (h : ServerOk N s) (hbusy : s.currentState ≠ .idle) (v : ServerView Pdu)
    (hidle : (pollCurrent conv v s).protocol.server.state s.currentClientId = .idle) :
    (pollCurrent conv v s).protocol.currentClientId =
      Turn.next s.server.maxClients s.currentClientId := by
  have hout := pollCurrent_outcome conv v s
  generalize pollCurrent conv v s = r at hout hidle
  cases hout with
  | reported status code t hr => exact sendResponse_once hbusy v status code hidle
  | quiet t hr hrecv => exact absurd hidle hbusy
  | accepted hd p hrecv hst hop => exact absurd hst hbusy
  | canceled hd p hrecv hdoing hop =>
    simp [h.cancel_server hdoing] at hidle

end Turn

section Step

variable {N : ℕ} {conv : Convertors Pdu} {s : ServerSystem Pdu}

theorem turn_inRange (h : ServerOk N s.protocol) (a : ServerAction Pdu) :
    (operation conv s a).protocol.currentClientId < s.protocol.server.maxClients := by
  have hok : ServerOk N (serverStep conv s a).protocol := serverStep_ok h a
  rw [h.maxClients]
  exact hok.inRange

theorem poll_turn_iff (h : ServerOk N s.protocol) (hone : OnlyCurrent s.protocol)
    (v : ServerView Pdu) : TurnKept conv s (.poll v) ↔ TurnSafe conv s (.poll v) := by
  have hq := h.resetIfNewRun s.generation
  have hmax : (s.protocol.resetIfNewRun s.generation).server.maxClients =
      s.protocol.server.maxClients := hq.maxClients.trans h.maxClients.symm
  have hiff : OnlyCurrent (pollCurrent conv v (s.protocol.resetIfNewRun s.generation)).protocol ↔ _ :=
    pollCurrent_only_iff hq (hone.resetIfNewRun s.generation) v
  rw [hmax] at hiff
  refine ⟨fun hk => hiff.mp hk.only, fun hp => ⟨turn_inRange h _, hiff.mpr hp, ?_, ?_⟩⟩
  · rintro w p (hw | hw) <;> cases hw
  · intro hbusy hidle hrun
    have hrun' : s.generation = s.protocol.runGeneration := by
      rw [← hrun]
      exact ((pollCurrent_runGeneration conv v _).trans (resetIfNewRun_runGeneration _ _)).symm
    simp only [operation, poll, hrun', resetIfNewRun_self] at hidle ⊢
    exact pollCurrent_once h hbusy v hidle

theorem reply_step_iff (h : ServerOk N s.protocol) (hone : OnlyCurrent s.protocol)
    (v : ServerView Pdu) (p : Pdu) : TurnKept conv s (.reply v p) ↔ TurnSafe conv s (.reply v p) := by
  have hiff := reply_turn_iff h hone v p
  refine ⟨fun hk => hiff.mp ⟨hk.only, hk.retry v p (Or.inr rfl)⟩, fun hp => ?_⟩
  obtain ⟨honly, hretry⟩ := hiff.mpr hp
  exact ⟨turn_inRange h _, honly, fun _ _ hw hret => by
    rcases hw with hw | hw <;> cases hw
    exact hretry hret, fun _ _ _ => reply_currentClientId v p s.protocol⟩

theorem put_turn_iff (h : ServerOk N s.protocol) (hone : OnlyCurrent s.protocol)
    (v : ServerView Pdu) (p : Pdu) :
    TurnKept conv s (.putResponse v p) ↔ TurnSafe conv s (.putResponse v p) := by
  by_cases hcan : canReply s.generation s.protocol = true
  · have hop : operation conv s (.putResponse v p) = reply v p s.protocol := if_pos hcan
    have hiff := reply_turn_iff h hone v p
    constructor
    · intro hk
      have honly := hk.only
      have hretry := hk.retry v p (Or.inl rfl)
      rw [hop] at honly hretry
      exact (hiff.mp ⟨honly, hretry⟩).imp id fun hput _ => hput
    · intro hp
      obtain ⟨honly, hretry⟩ := hiff.mpr (hp.imp id fun hput => hput hcan)
      refine ⟨turn_inRange h _, by rw [hop]; exact honly, fun w q hw hret => ?_, fun _ _ _ => ?_⟩
      · rw [hop] at hret ⊢
        exact hretry hret
      · rw [hop]
        exact reply_currentClientId v p s.protocol
  · have hop : operation conv s (.putResponse v p) = ⟨s.protocol, none⟩ := if_neg hcan
    refine ⟨fun _ => Or.inr fun hc => absurd hc hcan, fun _ => ?_⟩
    exact ⟨turn_inRange h _, by rw [hop]; exact hone, fun _ _ _ _ => by rw [hop]; exact ⟨rfl, rfl⟩,
      fun hbusy hidle _ => by rw [hop] at hidle; exact absurd hidle hbusy⟩

/-- Two steps of the turn with one ended request: where they lead is right only for one
client, for a request that was not in progress, or for two clients and a refused write. -/
theorem double_step_iff {N cur : ℕ} {st : ℕ → ServerState} (hcur : cur < N)
    (hone : ∀ j, j ≠ cur → st j = .idle) (put : Bool) :
    ((∀ j, j ≠ Turn.next N (Turn.next N cur) →
        Function.update (if put then Function.update st cur .idle else st) (Turn.next N cur)
          .idle j = .idle) ∧
      (st cur ≠ .idle →
        Function.update (if put then Function.update st cur .idle else st) (Turn.next N cur)
          .idle cur = .idle → Turn.next N (Turn.next N cur) = Turn.next N cur)) ↔
    N = 1 ∨ st cur = .idle ∨ (N = 2 ∧ put = false) := by
  have hfirst : ∀ j, j ≠ cur → (if put then Function.update st cur .idle else st) j = .idle :=
    fun j hj => by
      cases put
      · exact hone j hj
      · exact update_idle (hone j hj) cur
  have hother : ∀ j, j ≠ cur → Function.update (if put then Function.update st cur .idle else st)
      (Turn.next N cur) .idle j = .idle := fun j hj => update_idle (hfirst j hj) _
  by_cases hN : N = 1
  · subst hN
    have h0 : cur = 0 := by omega
    subst h0
    refine ⟨fun _ => Or.inl rfl, fun _ => ⟨fun j hj => ?_, fun _ _ => rfl⟩⟩
    rw [Turn.next_one] at hj ⊢
    exact hother j hj
  · have hne := Turn.next_ne_self (by omega) hcur
    have hself : Function.update (if put then Function.update st cur .idle else st)
        (Turn.next N cur) .idle cur = if put then .idle else st cur := by
      rw [Function.update_of_ne hne.symm]
      cases put <;> simp
    rw [hself]
    by_cases hidle : st cur = .idle
    · refine ⟨fun _ => Or.inr (Or.inl hidle), fun _ => ⟨fun j _ => ?_, fun hb => absurd hidle hb⟩⟩
      by_cases hj : j = cur
      · rw [hj, hself, hidle, ite_self]
      · exact hother j hj
    · cases put with
      | true =>
        have hstep := Turn.next_next_ne_next (by omega : 1 < N) cur
        refine ⟨fun h => absurd (h.2 hidle rfl) hstep, ?_⟩
        rintro (h | h | ⟨-, h⟩)
        · exact absurd h hN
        · exact absurd h hidle
        · cases h
      | false =>
        have hback := Turn.next_next_eq_self hcur
        constructor
        · rintro ⟨honly, -⟩
          have hcur' : cur = Turn.next N (Turn.next N cur) := by
            by_contra hc
            exact hidle (by simpa using hself.symm.trans (honly cur hc))
          have hle := hback.mp hcur'.symm
          exact Or.inr (Or.inr ⟨by omega, rfl⟩)
        · rintro (h | h | ⟨h, -⟩)
          · exact absurd h hN
          · exact absurd h hidle
          · have hcur' := hback.mpr (by omega)
            rw [hcur']
            exact ⟨hother, fun _ hst => absurd hst hidle⟩

theorem cancelDone_server (h : ServerOk N s.protocol) (v : ServerView Pdu) {r : Replied Pdu}
    (hr : sendResponse conv v .done .canceled s.protocol = r) :
    (cancelDone conv v s.protocol).protocol.currentClientId =
        Turn.next s.protocol.server.maxClients r.protocol.currentClientId ∧
      (cancelDone conv v s.protocol).protocol.server.state =
        Function.update r.protocol.server.state r.protocol.currentClientId .idle := by
  have hsend := h.sendResponse conv v .done .canceled
  rw [hr] at hsend
  have hmax : r.protocol.server.maxClients = s.protocol.server.maxClients :=
    hsend.maxClients.trans h.maxClients.symm
  simp only [cancelDone, hr, ServiceServer.nextClient, eventDone_getD hsend.inMax, hmax, and_self]

theorem cancelDone_turn_iff (h : ServerOk N s.protocol) (hone : OnlyCurrent s.protocol)
    (v : ServerView Pdu) : TurnKept conv s (.cancelDone v) ↔ TurnSafe conv s (.cancelDone v) := by
  have hsplit : TurnKept conv s (.cancelDone v) ↔
      OnlyCurrent (cancelDone conv v s.protocol).protocol ∧
      (s.protocol.currentState ≠ .idle →
        (cancelDone conv v s.protocol).protocol.server.state s.protocol.currentClientId = .idle →
        (cancelDone conv v s.protocol).protocol.currentClientId =
          Turn.next s.protocol.server.maxClients s.protocol.currentClientId) := by
    have hgen : (cancelDone conv v s.protocol).protocol.runGeneration =
        s.protocol.runGeneration := sendResponse_runGeneration conv v .done .canceled s.protocol
    refine ⟨fun hk => ⟨hk.only, fun hb hi => hk.once hb hi hgen⟩, fun hp => ?_⟩
    refine ⟨turn_inRange h _, hp.1, ?_, fun hb hi _ => hp.2 hb hi⟩
    rintro w p (hw | hw) <;> cases hw
  rw [hsplit]
  rcases sendResponse_cases conv v .done .canceled s.protocol with ⟨henc, hs⟩ | ⟨p, henc, hs⟩
  · obtain ⟨hclient, hstate⟩ := cancelDone_server h v hs
    refine ⟨fun _ => Or.inr (Or.inr (Or.inl henc)), fun _ => ⟨fun j hj => ?_, fun _ _ => hclient⟩⟩
    rw [hstate]
    by_cases hjc : j = s.protocol.currentClientId
    · rw [hjc, Function.update_self]
    · exact hone.update .idle j hjc
  · obtain ⟨hclient, hstate⟩ := cancelDone_server h v hs
    rw [reply_currentClientId] at hclient hstate
    rw [reply_state, h.canPut_eq] at hstate
    have hiff := double_step_iff h.inMax hone (v.putResponse s.protocol.currentClientId)
    simp only [OnlyCurrent, hclient, hstate]
    rw [show s.protocol.currentState = s.protocol.server.state s.protocol.currentClientId from rfl,
      hiff]
    simp [TurnSafe, henc, ServiceServer.getState]

def TurnInv (N : ℕ) (s : ServerSystem Pdu) : Prop := ServerOk N s.protocol ∧ OnlyCurrent s.protocol

theorem turn_step_iff (h : TurnInv N s) (a : ServerAction Pdu) :
    TurnKept conv s a ↔ TurnSafe conv s a := by
  obtain ⟨hok, hone⟩ := h
  cases a with
  | start =>
    refine ⟨fun _ => Or.inr trivial, fun _ => ⟨turn_inRange hok _, hone, ?_, ?_⟩⟩
    · rintro w p (hw | hw) <;> cases hw
    · exact fun hbusy hidle => absurd hidle hbusy
  | poll v => exact poll_turn_iff hok hone v
  | putResponse v p => exact put_turn_iff hok hone v p
  | reply v p => exact reply_step_iff hok hone v p
  | cancelDone v => exact cancelDone_turn_iff hok hone v
  | putProgress percentage =>
    refine ⟨fun _ => Or.inr trivial, fun _ => ⟨turn_inRange hok _, hone, ?_, ?_⟩⟩
    · rintro w p (hw | hw) <;> cases hw
    · exact fun hbusy hidle => absurd hidle hbusy

end Step

/-- In a run of a server, the turn is kept at every step exactly when every step is safe. -/
theorem turn_kept_iff (conv : Convertors Pdu) (name : Name) {N : ℕ} (hN : 0 < N) (g : ℕ)
    (as : List (ServerAction Pdu)) :
    Along (serverStep conv) (TurnKept conv) (.initial name N g) as ↔
      Along (serverStep conv) (TurnSafe conv) (.initial name N g) as := by
  have hinit : TurnInv N (.initial name N g : ServerSystem Pdu) :=
    ⟨initial_ok name hN g, fun _ _ => rfl⟩
  refine along_iff_of_invariant (fun s a hs hk => ?_) (fun s a hs => turn_step_iff hs a) hinit
  exact ⟨serverStep_ok hs.1 a, hk.only⟩

theorem turn_kept_answered :
    Along (serverStep plainConvertors) (TurnKept plainConvertors) (.initial [120] 2 0)
      [.poll (plainView 2 5 (asking 0 0)), .putResponse (plainView 2 6 silent) (plainRequest 0 0)] :=
  (turn_kept_iff plainConvertors [120] (by decide) 0
    [.poll (plainView 2 5 (asking 0 0)),
      .putResponse (plainView 2 6 silent) (plainRequest 0 0)]).mpr
    ⟨Or.inr fun hbusy => absurd rfl hbusy, Or.inr fun _ => rfl, trivial⟩

/-- The view of a server whose response channels are all full. -/
def fullView (N : ℕ) (time : ℤ) : ServerView PlainPacket :=
  { plainView N time silent with putResponse := fun _ => false }

/-- The response cannot be written, and `put_response` says so; but the turn is at the other
client now, and client 0 stays DOING behind it. -/
theorem turn_lost_by_refusal :
    let s := run (serverStep plainConvertors) (.initial [120] 2 0)
      [.poll (plainView 2 5 (asking 0 0))]
    let r := operation plainConvertors s (.putResponse (fullView 2 6) (plainRequest 0 0))
    r.returned = false ∧ s.protocol.currentClientId = 0 ∧ r.protocol.currentClientId = 1 ∧
    r.protocol.server.state 0 = .doing ∧
    (operation plainConvertors ⟨s.generation, r.protocol⟩
      (.putResponse (plainView 2 7 silent) (plainRequest 0 0))).sent = none := by
  decide

end Service
end HakoniwaCorePro
