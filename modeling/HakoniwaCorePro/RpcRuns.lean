import HakoniwaCorePro.ClientOps
import HakoniwaCorePro.RpcExactlyOnce
import HakoniwaCorePro.RunStart
import HakoniwaCorePro.ServerFairness
import HakoniwaCorePro.ServerIsolation

/-!
# Requests over many runs

A service, its server and its clients are kept while the simulation is stopped, reset and
started again. A start increments the run generation and then clears the flags entry by entry;
the parties learn of it when they next look at the generation. Until then a client may still be
DOING and the server busy with requests that nobody answers any more.
-/

namespace HakoniwaCorePro
namespace Service

open RecvEvent Runs

/-- How far the simulation is. `clear_run_flags` is at an entry, of a start or of a reset. Running
is published when the assets have acknowledged the start, which they get after that. -/
inductive RunPhase
  | stopped
  | clearing (entry : ℕ) (start : Bool)
  | created
  | running
  deriving DecidableEq

/-- The service and its clients, with the shared generation. -/
structure RunsState (Pdu : Type) extends ServiceState Pdu where
  clients : ℕ → ClientProtocol Pdu
  generation : ℕ
  phase : RunPhase

/-- The steps of the master, of which the first two are `on_pdu_data_create` and
`on_pdu_data_reset` up to their loop, and those of the parties. -/
inductive RunsAction (Pdu : Type)
  | create
  | reset
  | clearNext
  | publishRunning
  | stop
  | rpc (a : RpcAction Pdu)

/-- The functions of the API that ask `is_rpc_allowed` first. -/
def RpcAction.asksAllowed {Pdu : Type} : RpcAction Pdu → Bool
  | .request .. => true
  | .cancelRequest _ => false
  | .pollClient .. => false
  | .poll _ => true
  | .putResponse _ => true

section

variable {Pdu : Type} (u : Setup Pdu)

def RunsState.allows (s : RunsState Pdu) (a : RpcAction Pdu) : Bool :=
  !a.asksAllowed || s.phase == .running

/-- The parties as they are, and whether a reply of the application would be taken. -/
def RunsState.parties (s : RunsState Pdu) : RpcState Pdu :=
  ⟨s.toServiceState, s.clients, canReply s.generation s.protocol⟩

/-- The parties as they are once they have looked at the generation. -/
def RunsState.present (s : RunsState Pdu) : RpcState Pdu where
  bus := s.bus
  protocol := s.protocol.resetIfNewRun s.generation
  clients := fun j => (s.clients j).resetIfNewRun s.generation
  owed := canReply s.generation s.protocol

def Setup.runsStep (s : RunsState Pdu) : RunsAction Pdu → RunsState Pdu
  | .create =>
    if s.phase = .stopped then
      { s with generation := (s.generation + 1) % 2 ^ 32, phase := .clearing 0 true }
    else s
  | .reset => if s.phase = .stopped then { s with phase := .clearing 0 false } else s
  | .clearNext =>
    match s.phase with
    | .clearing i start =>
      if i ≥ s.bus.table.entryNum then { s with phase := if start then .created else .stopped }
      else
        { s with
          bus := { s.bus with table := clearEntry i s.bus.table }
          phase := .clearing (i + 1) start }
    | _ => s
  | .publishRunning => if s.phase = .created then { s with phase := .running } else s
  | .stop => if s.phase = .created ∨ s.phase = .running then { s with phase := .stopped } else s
  | .rpc a =>
    if s.allows a then
      let t := (u.inRun s.generation).rpcStep s.parties a
      { s with bus := t.bus, protocol := t.protocol, clients := t.clients }
    else s

def Setup.runsEvents (s : RunsState Pdu) : RunsAction Pdu → List RpcEvent
  | .rpc a => if s.allows a then (u.inRun s.generation).rpcEvents s.parties a else []
  | _ => []

/-- Within a run clients ask as in `Legal`; a client that has not looked at the generation since
the start does not cancel a request of an earlier run. While a request of this run is in progress
the application answers it and nothing else. An answer to an earlier one may come at any other
time. -/
def RunsLegal (s : RunsState Pdu) : RunsAction Pdu → Prop
  | .rpc (.request j time timeoutMsec p) => s.phase = .running →
      Legal (u.inRun s.generation) s.present (.request j time timeoutMsec p)
  | .rpc (.cancelRequest j) => j < u.entry.maxClients ∧
      ((s.clients j).state = .doing → (s.clients j).runGeneration = s.generation)
  | .rpc (.pollClient j _) => j < u.entry.maxClients
  | .rpc (.putResponse p) => s.phase = .running → canReply s.generation s.protocol = true →
      Legal (u.inRun s.generation) s.present (.putResponse p)
  | _ => True

/-- The parties are those of the service `name`, whatever they are doing. -/
structure Setup.Belongs (name : Name) (s : RunsState Pdu) : Prop where
  wired : u.Wired s.bus
  ok : ServerOk u.entry.maxClients s.protocol
  serviceName : s.protocol.server.serviceName = name
  clients : ∀ j < u.entry.maxClients, (s.clients j).client.serviceName = name ∧
    (s.clients j).client.clientName = u.entry.getClientName j

/-- No party is 2^32 starts behind: none carries the generation of the next run. -/
structure Setup.AllBehind (s : RunsState Pdu) : Prop where
  server : s.protocol.runGeneration ≠ (s.generation + 1) % 2 ^ 32
  clients : ∀ j < u.entry.maxClients, (s.clients j).runGeneration ≠ (s.generation + 1) % 2 ^ 32

end

section Present

variable {Pdu : Type} {u : Setup Pdu} {name : Name} {g : ℕ}

theorem resetIfNewRun_client_generation (g : ℕ) (c : ClientProtocol Pdu) :
    (c.resetIfNewRun g).runGeneration = g := by
  by_cases h : g = c.runGeneration
  · rw [resetIfNewRun_of_eq h, h]
  · rw [resetIfNewRun_of_ne h, fresh_runGeneration]

theorem resetIfNewRun_client_idem (g : ℕ) (c : ClientProtocol Pdu) :
    (c.resetIfNewRun g).resetIfNewRun g = c.resetIfNewRun g :=
  resetIfNewRun_of_eq (resetIfNewRun_client_generation g c).symm

theorem resetIfNewRun_server_idem (g : ℕ) (s : ServerProtocol Pdu) :
    (s.resetIfNewRun g).resetIfNewRun g = s.resetIfNewRun g :=
  if_pos (resetIfNewRun_runGeneration g s).symm

theorem resetIfNewRun_serviceName (g : ℕ) (s : ServerProtocol Pdu) :
    (s.resetIfNewRun g).server.serviceName = s.server.serviceName := by
  unfold ServerProtocol.resetIfNewRun
  split <;> rfl

theorem ServerOk.of_canReply {N : ℕ} {s : ServerProtocol Pdu} (h : ServerOk N s)
    (hc : canReply g s = true) : g = s.runGeneration :=
  (canReply_generation hc).trans (h.generation _ (currentState_ne_idle_of_canReply hc))

theorem ServerOk.canReply_stale {N : ℕ} {s : ServerProtocol Pdu} (h : ServerOk N s)
    (hg : g ≠ s.runGeneration) : canReply g s = false :=
  Bool.eq_false_iff.mpr fun hc => hg (h.of_canReply hc)

theorem ServerOk.canReply_resetIfNewRun {N : ℕ} {s : ServerProtocol Pdu} (h : ServerOk N s) (g : ℕ) :
    canReply g (s.resetIfNewRun g) = canReply g s := by
  by_cases hg : g = s.runGeneration
  · rw [ServerProtocol.resetIfNewRun, if_pos hg]
  · have hidle : (s.resetIfNewRun g).currentState = .idle := resetIfNewRun_idle hg _
    rw [h.canReply_stale hg]
    simp [canReply, hidle]

theorem request_reset (conv : Convertors Pdu) (g : ℕ) (v : ClientView Pdu) (p : Pdu) (timeoutMsec : ℤ)
    (c : ClientProtocol Pdu) :
    (c.resetIfNewRun g).request conv g v p timeoutMsec = c.request conv g v p timeoutMsec := by
  simp only [ClientProtocol.request, resetIfNewRun_client_idem]

theorem poll_client_reset (conv : Convertors Pdu) (g : ℕ) (v : ClientView Pdu) (c : ClientProtocol Pdu) :
    (c.resetIfNewRun g).poll conv g v = c.poll conv g v := by
  simp only [ClientProtocol.poll, resetIfNewRun_client_idem]

theorem looks_reset (g : ℕ) (c : ClientProtocol Pdu) : (c.resetIfNewRun g).looks g = c.looks g := by
  simp only [ClientProtocol.looks, resetIfNewRun_client_idem]

theorem request_runGeneration (conv : Convertors Pdu) (g : ℕ) (v : ClientView Pdu) (p : Pdu)
    (timeoutMsec : ℤ) (c : ClientProtocol Pdu) :
    (c.request conv g v p timeoutMsec).protocol.runGeneration = g := by
  unfold ClientProtocol.request
  split <;> exact resetIfNewRun_client_generation g c

theorem pollResponse_runGeneration (v : ClientView Pdu) (h : ResponseHeader) (p : Pdu)
    (c : ClientProtocol Pdu) : (pollResponse v h p c).1.runGeneration = c.runGeneration := by
  unfold pollResponse
  dsimp only
  split_ifs <;> rfl

theorem poll_client_runGeneration (conv : Convertors Pdu) (g : ℕ) (v : ClientView Pdu)
    (c : ClientProtocol Pdu) : (c.poll conv g v).1.runGeneration = g := by
  refine Eq.trans ?_ (resetIfNewRun_client_generation g c)
  unfold ClientProtocol.poll ClientProtocol.pollCurrent
  split
  · rfl
  · split
    · rfl
    · split <;> rfl
    · exact pollResponse_runGeneration _ _ _ _

theorem cancelRequest_runGeneration (conv : Convertors Pdu) (v : ClientView Pdu) (c : ClientProtocol Pdu) :
    (c.cancelRequest conv v).protocol.runGeneration = c.runGeneration := by
  unfold ClientProtocol.cancelRequest
  split
  · rfl
  · split
    · rfl
    · split <;> rfl

theorem replyToCurrentRequest_runGeneration (g : ℕ) (v : ServerView Pdu) (p : Pdu)
    (s : ServerProtocol Pdu) :
    (replyToCurrentRequest g v p s).protocol.runGeneration = s.runGeneration := by
  unfold replyToCurrentRequest
  split <;> rfl

/-- `t'` is `t` once its parties have looked at the generation. -/
structure Refreshed (g : ℕ) (t t' : RpcState Pdu) : Prop where
  bus : t'.bus = t.bus
  protocol : t'.protocol = t.protocol.resetIfNewRun g
  clients : ∀ j, t'.clients j = (t.clients j).resetIfNewRun g

theorem RunsState.refreshed (s : RunsState Pdu) : Refreshed s.generation s.parties s.present :=
  ⟨rfl, rfl, fun _ => rfl⟩

theorem Refreshed.update {t t' : RpcState Pdu} (h : Refreshed g t t') {j : ℕ} {c c' : ClientProtocol Pdu}
    (hc : c' = c.resetIfNewRun g) (k : ℕ) :
    Function.update t'.clients j c' k = (Function.update t.clients j c k).resetIfNewRun g := by
  by_cases hk : k = j
  · subst hk
    rw [Function.update_self, Function.update_self, hc]
  · rw [Function.update_of_ne hk, Function.update_of_ne hk, h.clients]

section Step

variable {t t' : RpcState Pdu}

theorem Refreshed.request (h : Refreshed u.generation t t') (j : ℕ) (time timeoutMsec : ℤ) (p : Pdu) :
    Refreshed u.generation (u.rpcStep t (.request j time timeoutMsec p))
      (u.rpcStep t' (.request j time timeoutMsec p)) ∧
    u.rpcEvents t' (.request j time timeoutMsec p) = u.rpcEvents t (.request j time timeoutMsec p) := by
  have hreq : u.request j time timeoutMsec p t' = u.request j time timeoutMsec p t := by
    simp only [Setup.request, h.clients, h.bus, request_reset]
  simp only [Setup.rpcStep, Setup.rpcEvents, hreq]
  exact ⟨⟨by rw [h.bus], h.protocol,
    h.update (resetIfNewRun_of_eq (request_runGeneration ..).symm).symm⟩, trivial⟩

theorem Refreshed.cancelRequest (h : Refreshed u.generation t t') {j : ℕ}
    (hj : (t.clients j).state = .doing → (t.clients j).runGeneration = u.generation) :
    Refreshed u.generation (u.rpcStep t (.cancelRequest j)) (u.rpcStep t' (.cancelRequest j)) := by
  have hcancel : (u.cancelRequest j t').sent = (u.cancelRequest j t).sent ∧
      (u.cancelRequest j t').protocol = (u.cancelRequest j t).protocol.resetIfNewRun u.generation := by
    by_cases hg : u.generation = (t.clients j).runGeneration
    · have hc : t'.clients j = t.clients j := by rw [h.clients, resetIfNewRun_of_eq hg]
      have hsame : u.cancelRequest j t' = u.cancelRequest j t := by
        simp only [Setup.cancelRequest, hc, h.bus]
      rw [hsame]
      exact ⟨rfl, (resetIfNewRun_of_eq (hg.trans (cancelRequest_runGeneration ..).symm)).symm⟩
    · have hst : (t.clients j).state ≠ .doing := fun hd => hg (hj hd).symm
      have hst' : (t'.clients j).state ≠ .doing := by
        rw [h.clients, resetIfNewRun_of_ne hg, fresh_state]
        simp
      simp only [Setup.cancelRequest, ClientProtocol.cancelRequest, if_pos hst, if_pos hst', true_and]
      exact h.clients j
  refine ⟨?_, h.protocol, h.update hcancel.2⟩
  simp only [Setup.rpcStep, hcancel.1, h.bus]

theorem Refreshed.pollClient (h : Refreshed u.generation t t') (j : ℕ) (time : ℤ) :
    Refreshed u.generation (u.rpcStep t (.pollClient j time)) (u.rpcStep t' (.pollClient j time)) ∧
      u.rpcEvents t' (.pollClient j time) = u.rpcEvents t (.pollClient j time) := by
  have hpoll : u.pollClient j time t' = u.pollClient j time t := by
    simp only [Setup.pollClient, h.clients, h.bus, poll_client_reset]
  have hlooks : (t'.clients j).looks u.generation = (t.clients j).looks u.generation := by
    rw [h.clients, looks_reset]
  simp only [Setup.rpcStep, Setup.rpcEvents, hpoll, hlooks, h.bus]
  exact ⟨⟨rfl, h.protocol,
    h.update (resetIfNewRun_of_eq (poll_client_runGeneration ..).symm).symm⟩, trivial⟩

theorem Refreshed.poll (h : Refreshed u.generation t t') (time : ℤ) :
    Refreshed u.generation (u.rpcStep t (.poll time)) (u.rpcStep t' (.poll time)) ∧
      u.rpcEvents t' (.poll time) = u.rpcEvents t (.poll time) := by
  have hstate : t'.toServiceState = ⟨t.bus, t.protocol.resetIfNewRun u.generation⟩ := by
    rw [← h.bus, ← h.protocol]
  have hpoll : u.poll time t'.toServiceState = u.poll time t.toServiceState := by
    rw [hstate, poll_reset]
  have hturn : u.turn t'.protocol = u.turn t.protocol := by
    rw [Setup.turn, h.protocol, resetIfNewRun_server_idem, Setup.turn]
  have hgen : (u.poll time t.toServiceState).1.protocol.runGeneration = u.generation :=
    (pollCurrent_runGeneration _ _ _).trans (resetIfNewRun_runGeneration _ _)
  simp only [Setup.rpcStep, Setup.rpcEvents, hpoll, hturn, h.bus]
  refine ⟨⟨rfl, ?_, h.clients⟩, trivial⟩
  rw [ServerProtocol.resetIfNewRun, if_pos hgen.symm]

theorem Refreshed.putResponse (h : Refreshed u.generation t t') {N : ℕ} (hok : ServerOk N t.protocol)
    (p : Pdu) :
    Refreshed u.generation (u.rpcStep t (.putResponse p)) (u.rpcStep t' (.putResponse p)) ∧
      u.rpcEvents t' (.putResponse p) = u.rpcEvents t (.putResponse p) := by
  by_cases hg : u.generation = t.protocol.runGeneration
  · have hstate : t'.toServiceState = t.toServiceState := by
      have hprotocol : t'.protocol = t.protocol := by
        rw [h.protocol, ServerProtocol.resetIfNewRun, if_pos hg]
      show ServiceState.mk t'.bus t'.protocol = ServiceState.mk t.bus t.protocol
      rw [h.bus, hprotocol]
    have hgen : (u.putResponse p t.toServiceState).1.protocol.runGeneration = u.generation :=
      (replyToCurrentRequest_runGeneration ..).trans hg.symm
    simp only [Setup.rpcStep, Setup.rpcEvents, hstate]
    refine ⟨⟨rfl, ?_, h.clients⟩, trivial⟩
    rw [ServerProtocol.resetIfNewRun, if_pos hgen.symm]
  · have hrefused : canReply u.generation t.protocol = false := hok.canReply_stale hg
    have hrefused' : canReply u.generation t'.protocol = false := by
      rw [h.protocol, hok.canReply_resetIfNewRun, hrefused]
    simp only [Setup.rpcStep, Setup.rpcEvents, Setup.putResponse, replyToCurrentRequest, hrefused,
      hrefused', Setup.deliver]
    exact ⟨⟨h.bus, h.protocol, h.clients⟩, rfl⟩

/-- Looking at the generation first makes no difference to a step, nor to what shows of it. -/
theorem Refreshed.step (h : Refreshed u.generation t t') {N : ℕ} (hok : ServerOk N t.protocol)
    {a : RpcAction Pdu} (ha : ∀ j, a = .cancelRequest j → (t.clients j).state = .doing →
      (t.clients j).runGeneration = u.generation) :
    Refreshed u.generation (u.rpcStep t a) (u.rpcStep t' a) ∧ u.rpcEvents t' a = u.rpcEvents t a := by
  cases a with
  | request j time timeoutMsec p => exact h.request j time timeoutMsec p
  | cancelRequest j => exact ⟨h.cancelRequest (ha j rfl), rfl⟩
  | pollClient j time => exact h.pollClient j time
  | poll time => exact h.poll time
  | putResponse p => exact h.putResponse hok p

end Step

end Present

section Belongs

variable {Pdu : Type} {u : Setup Pdu} {name : Name}

theorem Setup.Wired.clearEntry {b : Bus Pdu} (h : u.Wired b) (i : ℕ) :
    u.Wired { b with table := RecvEvent.clearEntry i b.table } := fun x hx => by
  obtain ⟨k, full, hs⟩ := h x hx
  exact ⟨k, _, hs.clearEntry i⟩

theorem Setup.Wired.submit {b : Bus Pdu} (h : u.Wired b) (j : ℕ) (sent : Option Pdu) :
    u.Wired (u.submit j sent b) := by
  cases sent with
  | none => exact h
  | some p => exact h.put _ _

def SameNames (c c' : ClientProtocol Pdu) : Prop :=
  c'.client.serviceName = c.client.serviceName ∧ c'.client.clientName = c.client.clientName

theorem resetIfNewRun_names (g : ℕ) (c : ClientProtocol Pdu) : SameNames c (c.resetIfNewRun g) := by
  unfold ClientProtocol.resetIfNewRun
  split <;> exact ⟨rfl, rfl⟩

theorem request_names (conv : Convertors Pdu) (g : ℕ) (v : ClientView Pdu) (p : Pdu)
    (timeoutMsec : ℤ) (c : ClientProtocol Pdu) :
    SameNames c (c.request conv g v p timeoutMsec).protocol := by
  have hreset := resetIfNewRun_names g c
  unfold ClientProtocol.request
  split
  · unfold ServiceClient.eventStartService
    dsimp only
    split <;> exact hreset
  · exact hreset

theorem cancelRequest_names (conv : Convertors Pdu) (v : ClientView Pdu) (c : ClientProtocol Pdu) :
    SameNames c (c.cancelRequest conv v).protocol := by
  unfold ClientProtocol.cancelRequest
  split
  · exact ⟨rfl, rfl⟩
  · split
    · exact ⟨rfl, rfl⟩
    · split
      · unfold ServiceClient.eventCancelService
        split <;> exact ⟨rfl, rfl⟩
      · exact ⟨rfl, rfl⟩

theorem finishRequest_names (h : ResponseHeader) (p : Pdu) (c : ClientProtocol Pdu) :
    SameNames c (finishRequest h p c) := by
  unfold finishRequest ServiceClient.eventDoneService
  dsimp only
  split <;> exact ⟨rfl, rfl⟩

theorem pollResponse_names (v : ClientView Pdu) (h : ResponseHeader) (p : Pdu) (c : ClientProtocol Pdu) :
    SameNames c (pollResponse v h p c).1 := by
  unfold pollResponse
  dsimp only
  split
  · exact finishRequest_names h p _
  · split
    · exact finishRequest_names h p _
    · split
      · split <;> exact ⟨rfl, rfl⟩
      · exact ⟨rfl, rfl⟩

theorem poll_names (conv : Convertors Pdu) (g : ℕ) (v : ClientView Pdu) (c : ClientProtocol Pdu) :
    SameNames c (c.poll conv g v).1 := by
  have hreset := resetIfNewRun_names g c
  unfold ClientProtocol.poll ClientProtocol.pollCurrent
  split
  · exact hreset
  · split
    · exact hreset
    · split <;> exact hreset
    · next h p _ =>
      have hpoll := pollResponse_names v h p (c.resetIfNewRun g)
      exact ⟨hpoll.1.trans hreset.1, hpoll.2.trans hreset.2⟩

theorem sendResponse_serviceName (conv : Convertors Pdu) (v : ServerView Pdu) (status : ServiceStatus)
    (code : ResultCode) (s : ServerProtocol Pdu) :
    (sendResponse conv v status code s).protocol.server.serviceName = s.server.serviceName := by
  rcases sendResponse_cases conv v status code s with ⟨-, hs⟩ | ⟨p, -, hs⟩
  · rw [hs]
  · rw [hs, reply_protocol]

theorem ServerOk.poll_serviceName {N : ℕ} {s : ServerProtocol Pdu} (h : ServerOk N s)
    (conv : Convertors Pdu) (g : ℕ) (v : ServerView Pdu) :
    (Service.poll conv g v s).protocol.server.serviceName = s.server.serviceName := by
  have hok := h.resetIfNewRun g
  have hout := pollCurrent_outcome conv v (s.resetIfNewRun g)
  rw [Service.poll, ← resetIfNewRun_serviceName g s]
  generalize Service.pollCurrent conv v (s.resetIfNewRun g) = r at hout
  cases hout with
  | reported status code t _ => exact sendResponse_serviceName conv v status code _
  | quiet t _ _ => rfl
  | accepted hd p _ hidle _ => rw [hok.acceptRequest_server hidle]
  | canceled hd p _ hdoing _ => rw [hok.cancel_server hdoing]

theorem replyToCurrentRequest_serviceName (g : ℕ) (v : ServerView Pdu) (p : Pdu)
    (s : ServerProtocol Pdu) :
    (replyToCurrentRequest g v p s).protocol.server.serviceName = s.server.serviceName := by
  unfold replyToCurrentRequest
  split
  · rw [reply_protocol]
  · rfl

variable {s : RunsState Pdu}

theorem Setup.Belongs.client_step (h : u.Belongs name s) {b : Bus Pdu} (hw : u.Wired b) {j : ℕ}
    {c : ClientProtocol Pdu} (hc : SameNames (s.clients j) c) :
    u.Belongs name { s with bus := b, clients := Function.update s.clients j c } := by
  refine ⟨hw, h.ok, h.serviceName, fun k hk => ?_⟩
  by_cases hkj : k = j
  · subst hkj
    obtain ⟨hservice, hclient⟩ := h.clients k hk
    simp only [Function.update_self]
    exact ⟨hc.1.trans hservice, hc.2.trans hclient⟩
  · simpa only [Function.update_of_ne hkj] using h.clients k hk

/-- Whatever the parties do, legal or not, in whatever run. -/
theorem Setup.Belongs.step (h : u.Belongs name s) (a : RunsAction Pdu) :
    u.Belongs name (u.runsStep s a) := by
  cases a with
  | clearNext =>
    simp only [Setup.runsStep]
    split
    · split
      · exact ⟨h.wired, h.ok, h.serviceName, h.clients⟩
      · exact ⟨h.wired.clearEntry _, h.ok, h.serviceName, h.clients⟩
    · exact h
  | rpc a =>
    simp only [Setup.runsStep]
    split
    · cases a with
      | request j time timeoutMsec p =>
        exact h.client_step (h.wired.submit j _) (request_names ..)
      | cancelRequest j => exact h.client_step (h.wired.submit j _) (cancelRequest_names ..)
      | pollClient j time =>
        refine h.client_step ?_ (poll_names ..)
        split
        · exact h.wired.get _
        · exact h.wired
      | poll time =>
        exact ⟨Setup.Wired.poll (u := u.inRun s.generation) h.wired time, h.ok.poll ..,
          (h.ok.poll_serviceName ..).trans h.serviceName, h.clients⟩
      | putResponse p =>
        exact ⟨Setup.Wired.putResponse (u := u.inRun s.generation) h.wired p,
          h.ok.replyToCurrentRequest .., (replyToCurrentRequest_serviceName ..).trans h.serviceName,
          h.clients⟩
    · exact h
  | _ =>
    simp only [Setup.runsStep]
    split
    · exact ⟨h.wired, h.ok, h.serviceName, h.clients⟩
    · exact h

end Belongs

section OneRun

variable {Pdu : Type} {u : Setup Pdu} {name : Name} {s : RunsState Pdu}

/-- While the flags of a start are cleared the server has not seen the run, no client has asked
for anything in it, and what is left on a channel is still ahead of the loop. -/
structure Clearing (u : Setup Pdu) (s : RunsState Pdu) (i : ℕ) : Prop where
  server : s.generation ≠ s.protocol.runGeneration
  clients : ∀ j < u.entry.maxClients, (s.present.clients j).state = .idle
  ahead : ∀ x : Port, x.slot < u.entry.maxClients → u.box s.bus x ≠ none →
    s.bus.table.Uncleared i (u.real x)

/-- A run that has started: its flags are being cleared, or its parties keep to their phases. -/
inductive InRun (u : Setup Pdu) (name : Name) (s : RunsState Pdu) (ph : ℕ → Exchange.Phase ℕ) : Prop
  | clearing (i : ℕ) (start : Bool) (hphase : s.phase = .clearing i start) (h : Clearing u s i)
      (hph : ph = fun _ => .idle) : InRun u name s ph
  | linked (hphase : ∀ i start, s.phase ≠ .clearing i start)
      (h : RpcInv (u.inRun s.generation) name s.present ph) : InRun u name s ph

theorem Clearing.create (hb : u.Belongs name s) (hbehind : u.AllBehind s) :
    Clearing u { s with generation := (s.generation + 1) % 2 ^ 32, phase := .clearing 0 true } 0 := by
  refine ⟨hbehind.server.symm, fun j hj => ?_, fun x hx _ => ?_⟩
  · show ((s.clients j).resetIfNewRun _).state = .idle
    rw [resetIfNewRun_of_ne (hbehind.clients j hj).symm, fresh_state]
  · obtain ⟨k, full, hs⟩ := hb.wired x hx
    exact (hs.uncleared_iff 0).mpr (Nat.zero_le k)

theorem Clearing.next {i : ℕ} (h : Clearing u s i) (hb : u.Belongs name s) (phase : RunPhase) :
    Clearing u { s with bus := { s.bus with table := clearEntry i s.bus.table }, phase := phase }
      (i + 1) := by
  refine ⟨h.server, h.clients, fun x hx hfull => ?_⟩
  obtain ⟨k, full, hs⟩ := hb.wired x hx
  have hs' := hs.clearEntry i
  rw [box_of_serves (b := { s.bus with table := clearEntry i s.bus.table }) hs'] at hfull
  refine (hs'.uncleared_iff (i + 1)).mpr ?_
  by_cases hik : i = k
  · simp [hik] at hfull
  · rw [if_neg hik, ← box_of_serves (b := s.bus) hs] at hfull
    have hle := (hs.uncleared_iff i).mp (h.ahead x hx hfull)
    omega

theorem Clearing.box_none {i : ℕ} (h : Clearing u s i) (hend : i ≥ s.bus.table.entryNum) {x : Port}
    (hx : x.slot < u.entry.maxClients) : u.box s.bus x = none := by
  by_contra hfull
  obtain ⟨k, r, hle, hr, -⟩ := h.ahead x hx hfull
  obtain ⟨hlt, -⟩ := List.getElem?_eq_some_iff.mp hr
  simp only [Table.registrations, List.length_map, Table.entryNum] at hlt hend
  omega

theorem Setup.Belongs.owes (hb : u.Belongs name s) (howed : s.present.owed = true) :
    s.present.protocol.currentState ≠ .idle :=
  currentState_ne_idle_of_canReply ((hb.ok.canReply_resetIfNewRun s.generation).trans howed)

theorem Clearing.created {i : ℕ} (h : Clearing u s i) (hb : u.Belongs name s)
    (hend : i ≥ s.bus.table.entryNum) :
    RpcInv (u.inRun s.generation) name s.present fun _ => .idle := by
  refine ⟨hb.wired, hb.ok.resetIfNewRun _, resetIfNewRun_runGeneration _ _,
    (resetIfNewRun_serviceName _ _).trans hb.serviceName, fun j hj => ?_, fun j hj => ?_, hb.owes⟩
  · obtain ⟨hservice, hclient⟩ := hb.clients j hj
    have hnames := resetIfNewRun_names s.generation (s.clients j)
    exact ⟨hnames.1.trans hservice, hnames.2.trans hclient, resetIfNewRun_client_generation _ _⟩
  · exact ⟨h.clients j hj, resetIfNewRun_idle h.server j, h.box_none (x := .response j) hend hj,
      Or.inl (h.box_none (x := .request j) hend hj)⟩

theorem Clearing.of_present {s' : RunsState Pdu} {i : ℕ} (h : Clearing u s i)
    (hgen : s'.generation = s.generation) (hbus : s'.bus = s.bus) (hprotocol : s'.protocol = s.protocol)
    (hclients : ∀ j, s'.present.clients j = s.present.clients j) : Clearing u s' i := by
  refine ⟨by rw [hgen, hprotocol]; exact h.server, fun j hj => ?_, fun x hx => ?_⟩
  · rw [hclients]
    exact h.clients j hj
  · rw [hbus]
    exact h.ahead x hx

theorem Clearing.rpc {i : ℕ} (h : Clearing u s i) {a : RpcAction Pdu} (ha : a.asksAllowed = false)
    (hl : RunsLegal u s (.rpc a)) :
    Clearing u (u.runsStep s (.rpc a)) i ∧ u.runsEvents s (.rpc a) = [] := by
  have hallows : s.allows a = true := by simp [RunsState.allows, ha]
  simp only [Setup.runsStep, Setup.runsEvents, hallows, if_true]
  cases a with
  | request j time timeoutMsec p => cases ha
  | poll time => cases ha
  | putResponse p => cases ha
  | cancelRequest j =>
    have hst : (s.clients j).state ≠ .doing := by
      intro hd
      have hidle : ((s.clients j).resetIfNewRun s.generation).state = .idle := h.clients j hl.1
      rw [resetIfNewRun_of_eq (hl.2 hd).symm, hd] at hidle
      cases hidle
    have hcancel : (u.inRun s.generation).cancelRequest j s.parties = ⟨s.clients j, none, false⟩ :=
      if_pos hst
    simp only [Setup.rpcStep, Setup.rpcEvents, hcancel]
    refine ⟨h.of_present rfl rfl rfl fun k => ?_, trivial⟩
    simp only [RunsState.present, RunsState.parties, Function.update_eq_self]
  | pollClient j time =>
    have hidle : ((s.clients j).resetIfNewRun s.generation).state = .idle := h.clients j hl
    have hpoll : (u.inRun s.generation).pollClient j time s.parties =
        ((s.clients j).resetIfNewRun s.generation, .none) := if_pos hidle
    have hlooks : (s.clients j).looks s.generation = false := by
      simp [ClientProtocol.looks, hidle]
    have hlooks' : (s.parties.clients j).looks (u.inRun s.generation).generation = false := hlooks
    simp only [Setup.rpcStep, Setup.rpcEvents, hpoll, hlooks']
    refine ⟨h.of_present rfl rfl rfl fun k => ?_, rfl⟩
    have hsame := s.refreshed.update (j := j)
      (resetIfNewRun_client_idem s.generation (s.clients j)).symm k
    rw [show (s.clients j).resetIfNewRun s.generation = s.present.clients j from rfl,
      Function.update_eq_self] at hsame
    exact hsame.symm

end OneRun

section EveryRun

variable {Pdu : Type} {u : Setup Pdu} {name : Name} {s : RunsState Pdu} {ph : ℕ → Exchange.Phase ℕ}

theorem RpcInv.of_parties {t t' : RpcState Pdu} (h : RpcInv u name t ph) (hbus : t'.bus = t.bus)
    (hprotocol : t'.protocol = t.protocol) (hclients : ∀ j, t'.clients j = t.clients j)
    (howes : t'.owed = true → t'.protocol.currentState ≠ .idle) : RpcInv u name t' ph := by
  have hslot : ∀ j, u.slot t' j = u.slot t j := fun j => by
    simp only [Setup.slot, hbus, hprotocol, hclients]
  refine ⟨by rw [hbus]; exact h.wired, by rw [hprotocol]; exact h.ok,
    by rw [hprotocol]; exact h.generation, by rw [hprotocol]; exact h.serviceName, fun j hj => ?_,
    fun j hj => ?_, howes⟩
  · rw [hclients]
    exact h.knows j hj
  · rw [hslot]
    exact h.link j hj

theorem putResponse_refused (hc : canReply s.generation s.protocol = false) (p : Pdu) :
    u.runsStep s (.rpc (.putResponse p)) = s ∧ u.runsEvents s (.rpc (.putResponse p)) = [] := by
  simp only [Setup.runsStep, Setup.runsEvents, Setup.rpcStep, Setup.rpcEvents, Setup.putResponse,
    RunsState.parties, replyToCurrentRequest, Setup.inRun, hc, Setup.deliver]
  split <;> exact ⟨rfl, rfl⟩

theorem legal_present {a : RpcAction Pdu} (hallows : s.allows a = true) (hl : RunsLegal u s (.rpc a))
    (hreply : ∀ p, a = .putResponse p → canReply s.generation s.protocol = true) :
    Legal (u.inRun s.generation) s.present a := by
  cases a with
  | request j time timeoutMsec p =>
    exact hl (by simpa [RunsState.allows, RpcAction.asksAllowed] using hallows)
  | cancelRequest j => exact hl.1
  | pollClient j time => exact hl
  | poll time => trivial
  | putResponse p =>
    exact hl (by simpa [RunsState.allows, RpcAction.asksAllowed] using hallows) (hreply p rfl)

theorem RpcInv.rpc (h : RpcInv (u.inRun s.generation) name s.present ph) (hr : u.Registered name)
    (hb : u.Belongs name s) {a : RpcAction Pdu} (hallows : s.allows a = true)
    (hl : RunsLegal u s (.rpc a)) {l : List RpcEvent} (ht : Tracks l ph) :
    ∃ ph', RpcInv (u.inRun s.generation) name (u.runsStep s (.rpc a)).present ph' ∧
      Tracks (l ++ u.runsEvents s (.rpc a)) ph' := by
  by_cases hrefused : ∃ p, a = .putResponse p ∧ canReply s.generation s.protocol = false
  · obtain ⟨p, rfl, hc⟩ := hrefused
    obtain ⟨hstep, hevents⟩ := putResponse_refused (u := u) hc p
    rw [hstep, hevents, List.append_nil]
    exact ⟨ph, h, ht⟩
  · have hlegal := legal_present hallows hl fun p hp =>
      Bool.eq_true_of_not_eq_false fun hc => hrefused ⟨p, hp, hc⟩
    have hcancel : ∀ j, a = .cancelRequest j → (s.clients j).state = .doing →
        (s.clients j).runGeneration = s.generation := by
      rintro j rfl
      exact hl.2
    have hr' : (u.inRun s.generation).Registered name := ⟨hr.enabled, hr.roundTrip⟩
    have href : Refreshed (u.inRun s.generation).generation s.parties s.present := s.refreshed
    obtain ⟨hstep, hevents⟩ := href.step hb.ok hcancel
    obtain ⟨ph', hinv, htracks⟩ := (h.step hr' hlegal).tracks ht
    have hb' := hb.step (.rpc a)
    refine ⟨ph', ?_, ?_⟩
    · refine hinv.of_parties ?_ ?_ ?_ hb'.owes
      · simp only [Setup.runsStep, if_pos hallows]
        exact hstep.bus.symm
      · simp only [Setup.runsStep, if_pos hallows]
        exact hstep.protocol.symm
      · simp only [Setup.runsStep, if_pos hallows]
        exact fun j => (hstep.clients j).symm
    · simp only [Setup.runsEvents, if_pos hallows]
      rw [← hevents]
      exact htracks

/-- Neither starts a run nor takes the flags of one away. -/
def RunsAction.withinRun : RunsAction Pdu → Bool
  | .create => false
  | .reset => false
  | _ => true

theorem runsStep_rpc (s : RunsState Pdu) (a : RpcAction Pdu) :
    (u.runsStep s (.rpc a)).phase = s.phase ∧ (u.runsStep s (.rpc a)).generation = s.generation := by
  simp only [Setup.runsStep]
  split <;> exact ⟨rfl, rfl⟩

theorem rpc_refused {a : RpcAction Pdu} (ha : s.allows a = false) :
    u.runsStep s (.rpc a) = s ∧ u.runsEvents s (.rpc a) = [] := by
  simp [Setup.runsStep, Setup.runsEvents, ha]

theorem InRun.master (h : InRun u name s ph) (hb : u.Belongs name s) {a : RunsAction Pdu}
    (ha : a.withinRun = true) (hmaster : ∀ b, a ≠ .rpc b) : InRun u name (u.runsStep s a) ph := by
  cases a with
  | create => cases ha
  | reset => cases ha
  | rpc b => exact absurd rfl (hmaster b)
  | clearNext =>
    cases h with
    | clearing i start hphase h hph =>
      subst hph
      by_cases hend : i ≥ s.bus.table.entryNum
      · simp only [Setup.runsStep, hphase, if_pos hend]
        refine .linked (fun _ _ => ?_) (h.created hb hend)
        cases start <;> simp
      · simp only [Setup.runsStep, hphase, if_neg hend]
        exact .clearing (i + 1) start rfl (h.next hb _) rfl
    | linked hphase h =>
      simp only [Setup.runsStep]
      exact .linked hphase h
  | publishRunning =>
    simp only [Setup.runsStep]
    split
    · next hcreated =>
      cases h with
      | clearing i start hphase h hph =>
        rw [hphase] at hcreated
        cases hcreated
      | linked hphase h => exact .linked (fun _ _ => by simp) h
    · exact h
  | stop =>
    simp only [Setup.runsStep]
    split
    · next hup =>
      cases h with
      | clearing i start hphase h hph => simp [hphase] at hup
      | linked hphase h => exact .linked (fun _ _ => by simp) h
    · exact h

theorem InRun.rpc (h : InRun u name s ph) (hr : u.Registered name) (hb : u.Belongs name s)
    {a : RpcAction Pdu} (hl : RunsLegal u s (.rpc a)) {l : List RpcEvent} (ht : Tracks l ph) :
    ∃ ph', InRun u name (u.runsStep s (.rpc a)) ph' ∧ Tracks (l ++ u.runsEvents s (.rpc a)) ph' := by
  by_cases hallows : s.allows a = true
  · obtain ⟨hphase', hgen⟩ := runsStep_rpc (u := u) s a
    cases h with
    | clearing i start hphase h hph =>
      have ha : a.asksAllowed = false := by
        simpa [RunsState.allows, hphase] using hallows
      obtain ⟨hclearing, hevents⟩ := h.rpc ha hl
      rw [hevents, List.append_nil]
      exact ⟨ph, .clearing i start (hphase'.trans hphase) hclearing hph, ht⟩
    | linked hphase h =>
      obtain ⟨ph', hinv, ht'⟩ := h.rpc hr hb hallows hl ht
      refine ⟨ph', .linked (fun i start => ?_) ?_, ht'⟩
      · rw [hphase']
        exact hphase i start
      · rw [hgen]
        exact hinv
  · obtain ⟨hstep, hevents⟩ := rpc_refused (u := u) (Bool.eq_false_iff.mpr hallows)
    rw [hstep, hevents, List.append_nil]
    exact ⟨ph, h, ht⟩

theorem InRun.step (h : InRun u name s ph) (hr : u.Registered name) (hb : u.Belongs name s)
    {a : RunsAction Pdu} (ha : a.withinRun = true) (hl : RunsLegal u s a) {l : List RpcEvent}
    (ht : Tracks l ph) :
    ∃ ph', InRun u name (u.runsStep s a) ph' ∧ Tracks (l ++ u.runsEvents s a) ph' := by
  by_cases hmaster : ∀ b, a ≠ .rpc b
  · have hevents : u.runsEvents s a = [] := by
      cases a with
      | rpc b => exact absurd rfl (hmaster b)
      | _ => rfl
    rw [hevents, List.append_nil]
    exact ⟨ph, h.master hb ha hmaster, ht⟩
  · obtain ⟨b, rfl⟩ : ∃ b, a = .rpc b := by simpa using hmaster
    exact h.rpc hr hb hl ht

theorem InRun.run {bs : List (RunsAction Pdu)} (hr : u.Registered name) (hb : u.Belongs name s)
    (h : InRun u name s fun _ => .idle) (hbs : ∀ a ∈ bs, a.withinRun = true)
    (hl : Along u.runsStep (RunsLegal u) s bs) :
    u.Belongs name (run u.runsStep s bs) ∧ ∃ ph, InRun u name (run u.runsStep s bs) ph ∧
      Tracks (history u.runsStep u.runsEvents s bs) ph := by
  induction bs using List.reverseRecOn with
  | nil => exact ⟨hb, _, h, fun _ => rfl⟩
  | append_singleton bs a ih =>
    rw [along_append] at hl
    obtain ⟨hb', ph, hrun, ht⟩ := ih (fun b hmem => hbs b (List.mem_append_left _ hmem)) hl.1
    rw [run_concat, history_concat]
    exact ⟨hb'.step a, hrun.step hr hb' (hbs a (by simp)) hl.2.1 ht⟩

theorem InRun.client_idle_iff (h : InRun u name s ph) {j : ℕ} (hj : j < u.entry.maxClients) :
    (s.present.clients j).state = .idle ↔ ph j = .idle := by
  cases h with
  | clearing i start hphase h hph =>
    rw [hph]
    exact iff_of_true (h.clients j hj) rfl
  | linked hphase h => exact (h.link j hj).client_idle_iff

end EveryRun

/-- Slot 0 has asked and its request is served when the simulation is stopped and reset. -/
def brokenOff : List (RunsAction PlainPacket) :=
  [.rpc (.request 0 0 0 (.inl (setRequestHeader .request 0 (plainClient 2 0)))), .rpc (.poll 0), .stop,
    .reset, .clearNext, .clearNext, .clearNext, .clearNext, .clearNext]

/-- In the next run the old answer comes too late, the client looks for it while the flags are
being cleared, and the slot asks again. -/
def nextRun : List (RunsAction PlainPacket) :=
  [.clearNext, .rpc (.pollClient 0 0), .clearNext, .clearNext, .clearNext, .clearNext, .publishRunning,
    .rpc (.putResponse (.inr ⟨0, [120], (plainEntry 2).getClientName 0, 3, 0, 0⟩)),
    .rpc (.request 0 0 0 (.inl (setRequestHeader .request 0 (plainClient 2 0)))), .rpc (.poll 0),
    .rpc (.putResponse (.inr ⟨0, [120], (plainEntry 2).getClientName 0, 3, 0, 0⟩)),
    .rpc (.pollClient 0 0)]

def plainRuns (N : ℕ) : RunsState PlainPacket where
  bus := plainBus N
  protocol := .initial [120] N 0
  clients := plainClient N
  generation := 0
  phase := .running

theorem plainRuns_belongs {N : ℕ} (hN : 0 < N) (hmax : 2 * N ≤ pduChannelMax) :
    (plainSetup N).Belongs [120] (plainRuns N) :=
  ⟨plainBus_wired hmax, initial_ok [120] hN 0, rfl, fun _ _ => ⟨rfl, rfl⟩⟩

end Service
end HakoniwaCorePro
