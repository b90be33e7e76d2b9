import HakoniwaCorePro.ServiceClient
import HakoniwaCorePro.ServerSteps
import HakoniwaCorePro.Runs

/-!
# The calls of a client handle

The operations of `hako_asset_service_client.cpp` on one handle, which is kept while the
simulation is stopped, reset and started again. `call_request` is refused unless the simulation
is Running; `poll` and `cancel_request` go to the protocol directly.
-/

namespace HakoniwaCorePro
namespace Service

open Runs

/-- The shared state during one call: what the channels answer, the generation of the run, and
`is_rpc_allowed`. -/
structure ClientWorld (Pdu : Type) extends ClientView Pdu where
  generation : ℕ
  rpcAllowed : Bool

inductive ClientOp (Pdu : Type)
  | request (packet : Pdu) (timeoutMsec : ℤ)
  | poll
  | cancelRequest

structure ClientCall (Pdu : Type) where
  op : ClientOp Pdu
  world : ClientWorld Pdu

/-- What a call tells its caller, and the packet that the request channel has accepted. -/
structure ClientAnswer (Pdu : Type) where
  returned : Bool
  event : ClientEvent
  written : Option Pdu

section

variable {Pdu : Type} (conv : Convertors Pdu)

/-- `put_request` writes the packet it is handed, unless it refuses. -/
def ClientView.written (v : ClientView Pdu) (sent : Option Pdu) : Option Pdu :=
  if v.putRequest then sent else none

def Requested.answer (v : ClientView Pdu) (r : Requested Pdu) : ClientAnswer Pdu :=
  ⟨r.returned, .none, v.written r.sent⟩

/-- `hako_asset_service_client_call_request` -/
def callRequest (w : ClientWorld Pdu) (p : Pdu) (timeoutMsec : ℤ) (c : ClientProtocol Pdu) :
    ClientProtocol Pdu × ClientAnswer Pdu :=
  if w.rpcAllowed then
    let r := c.request conv w.generation w.toClientView p timeoutMsec
    (r.protocol, r.answer w.toClientView)
  else (c, ⟨false, .none, none⟩)

/-- `hako_asset_service_client_poll` -/
def callPoll (w : ClientWorld Pdu) (c : ClientProtocol Pdu) :
    ClientProtocol Pdu × ClientAnswer Pdu :=
  let r := c.poll conv w.generation w.toClientView
  (r.1, ⟨true, r.2, none⟩)

/-- `hako_asset_service_client_cancel_request` -/
def callCancelRequest (w : ClientWorld Pdu) (c : ClientProtocol Pdu) :
    ClientProtocol Pdu × ClientAnswer Pdu :=
  let r := c.cancelRequest conv w.toClientView
  (r.protocol, r.answer w.toClientView)

def operate (c : ClientProtocol Pdu) (k : ClientCall Pdu) :
    ClientProtocol Pdu × ClientAnswer Pdu :=
  match k.op with
  | .request p timeoutMsec => callRequest conv k.world p timeoutMsec c
  | .poll => callPoll conv k.world c
  | .cancelRequest => callCancelRequest conv k.world c

def clientStep (c : ClientProtocol Pdu) (k : ClientCall Pdu) : ClientProtocol Pdu :=
  (operate conv c k).1

/-- The handle as a client of the run `g` that has not asked for anything yet. -/
def ClientProtocol.fresh (g : ℕ) (c : ClientProtocol Pdu) : ClientProtocol Pdu :=
  { c with
    client := { c.client with state := .idle }
    percentage := 0
    lastPollTime := 0
    heartbeatConfirmedTime := 0
    runGeneration := g }

theorem resetIfNewRun_of_ne {g : ℕ} {c : ClientProtocol Pdu} (h : g ≠ c.runGeneration) :
    c.resetIfNewRun g = c.fresh g := by
  simp [ClientProtocol.resetIfNewRun, ClientProtocol.fresh, ServiceClient.resetRunState, h]

@[simp] theorem resetIfNewRun_of_eq {g : ℕ} {c : ClientProtocol Pdu} (h : g = c.runGeneration) :
    c.resetIfNewRun g = c := by
  simp [ClientProtocol.resetIfNewRun, h]

@[simp] theorem fresh_state (g : ℕ) (c : ClientProtocol Pdu) : (c.fresh g).state = .idle := rfl

@[simp] theorem fresh_runGeneration (g : ℕ) (c : ClientProtocol Pdu) :
    (c.fresh g).runGeneration = g := rfl

@[simp] theorem resetIfNewRun_fresh (g : ℕ) (c : ClientProtocol Pdu) :
    (c.fresh g).resetIfNewRun g = c.fresh g :=
  resetIfNewRun_of_eq (fresh_runGeneration g c).symm

/-- A client as `initialize` leaves it in the run `g`. -/
def ClientProtocol.initial (serviceName clientName : Name) (g : ℕ) : ClientProtocol Pdu where
  client := ⟨serviceName, clientName, .idle⟩
  requestHeader := .empty
  responseHeader := .empty
  responseUserBuffer := none
  percentage := 0
  requestId := 0
  timeoutMsec := 0
  heartbeatConfirmedTime := 0
  lastPollTime := 0
  runGeneration := g

/-- The call does what the same call does on a fresh client of this run. A client that was not
asked to look at the generation still carries the old one. -/
def ActsFresh (c : ClientProtocol Pdu) (k : ClientCall Pdu) : Prop :=
  let r := operate conv c k
  let r' := operate conv (c.fresh k.world.generation) k
  r.2 = r'.2 ∧ r.1.resetIfNewRun k.world.generation = r'.1.resetIfNewRun k.world.generation

/-- Nothing of an earlier run shows in the call, and only a running simulation is written to. -/
def KeepsToRun (c : ClientProtocol Pdu) (k : ClientCall Pdu) : Prop :=
  (k.world.generation ≠ c.runGeneration → ActsFresh conv c k) ∧
    ((operate conv c k).2.written ≠ none → k.world.rpcAllowed = true)

/-- `cancel_request` in this state puts a packet in the request channel. -/
def WritesCancel (v : ClientView Pdu) (c : ClientProtocol Pdu) : Prop :=
  c.state = .doing ∧ v.putRequest = true ∧
    conv.request.cpp2pdu (setRequestHeader .cancel (-1) c) ≠ none

/-- A cancellation that is written is that of a request of this run, while it runs. -/
def CancelsCurrent (c : ClientProtocol Pdu) (k : ClientCall Pdu) : Prop :=
  match k.op with
  | .cancelRequest => WritesCancel conv k.world.toClientView c →
      k.world.generation = c.runGeneration ∧ k.world.rpcAllowed = true
  | _ => True

variable {conv}

theorem request_of_stale {g : ℕ} {c : ClientProtocol Pdu} (h : g ≠ c.runGeneration)
    (v : ClientView Pdu) (p : Pdu) (timeoutMsec : ℤ) :
    c.request conv g v p timeoutMsec = (c.fresh g).request conv g v p timeoutMsec := by
  simp only [ClientProtocol.request, resetIfNewRun_of_ne h, resetIfNewRun_fresh]

theorem poll_of_stale {g : ℕ} {c : ClientProtocol Pdu} (h : g ≠ c.runGeneration)
    (v : ClientView Pdu) : c.poll conv g v = (c.fresh g).poll conv g v := by
  simp only [ClientProtocol.poll, resetIfNewRun_of_ne h, resetIfNewRun_fresh]

theorem callRequest_actsFresh {c : ClientProtocol Pdu} {w : ClientWorld Pdu}
    (h : w.generation ≠ c.runGeneration) (p : Pdu) (timeoutMsec : ℤ) :
    ActsFresh conv c ⟨.request p timeoutMsec, w⟩ := by
  cases hrun : w.rpcAllowed with
  | true => simp [ActsFresh, operate, callRequest, hrun, request_of_stale h]
  | false => simp [ActsFresh, operate, callRequest, hrun, resetIfNewRun_of_ne h]

theorem callPoll_actsFresh {c : ClientProtocol Pdu} {w : ClientWorld Pdu}
    (h : w.generation ≠ c.runGeneration) : ActsFresh conv c ⟨.poll, w⟩ := by
  simp [ActsFresh, operate, callPoll, poll_of_stale h]

theorem callRequest_written {c : ClientProtocol Pdu} {w : ClientWorld Pdu} {p : Pdu}
    {timeoutMsec : ℤ} (h : (callRequest conv w p timeoutMsec c).2.written ≠ none) :
    w.rpcAllowed = true := by
  cases hrun : w.rpcAllowed with
  | true => rfl
  | false => simp [callRequest, hrun] at h

theorem callCancelRequest_of_not_writes {c : ClientProtocol Pdu} {w : ClientWorld Pdu}
    (h : ¬ WritesCancel conv w.toClientView c) :
    callCancelRequest conv w c = (c, ⟨false, .none, none⟩) := by
  unfold callCancelRequest ClientProtocol.cancelRequest
  by_cases hdoing : c.state = .doing
  · cases henc : conv.request.cpp2pdu (setRequestHeader .cancel (-1) c) with
    | none => simp [hdoing, Requested.answer, ClientView.written]
    | some q =>
      cases hput : w.putRequest with
      | true => exact absurd ⟨hdoing, hput, by simp [henc]⟩ h
      | false => simp [hdoing, Requested.answer, ClientView.written, hput]
  · simp [hdoing, Requested.answer, ClientView.written]

theorem callCancelRequest_of_writes {c : ClientProtocol Pdu} {w : ClientWorld Pdu}
    (h : WritesCancel conv w.toClientView c) :
    (callCancelRequest conv w c).2.written ≠ none ∧ (callCancelRequest conv w c).2.returned := by
  obtain ⟨hdoing, hput, henc⟩ := h
  obtain ⟨q, hq⟩ := Option.ne_none_iff_exists'.mp henc
  unfold callCancelRequest ClientProtocol.cancelRequest
  simp [hdoing, hq, hput, Requested.answer, ClientView.written]

theorem fresh_not_writes (conv : Convertors Pdu) (w : ClientView Pdu) (g : ℕ) (c : ClientProtocol Pdu) :
    ¬ WritesCancel conv w (c.fresh g) := by
  rintro ⟨hdoing, -⟩
  simp at hdoing

/-- `cancel_request` does not look at the generation: what it does on a stale handle is what it
does on a fresh one exactly when it writes nothing. -/
theorem cancel_actsFresh_iff {c : ClientProtocol Pdu} {w : ClientWorld Pdu}
    (h : w.generation ≠ c.runGeneration) :
    ActsFresh conv c ⟨.cancelRequest, w⟩ ↔ ¬ WritesCancel conv w.toClientView c := by
  have hfresh := callCancelRequest_of_not_writes (fresh_not_writes conv w.toClientView
    w.generation c)
  simp only [ActsFresh, operate]
  rw [hfresh]
  constructor
  · rintro ⟨hanswer, -⟩ hwrites
    have hwritten := (callCancelRequest_of_writes hwrites).1
    rw [hanswer] at hwritten
    exact hwritten rfl
  · intro hnot
    rw [callCancelRequest_of_not_writes hnot, resetIfNewRun_of_ne h, resetIfNewRun_fresh]
    exact ⟨rfl, rfl⟩

theorem keepsToRun_iff (c : ClientProtocol Pdu) (k : ClientCall Pdu) :
    KeepsToRun conv c k ↔ CancelsCurrent conv c k := by
  obtain ⟨op, w⟩ := k
  cases op with
  | request p timeoutMsec =>
    exact iff_of_true ⟨fun h => callRequest_actsFresh h p timeoutMsec, callRequest_written⟩ trivial
  | poll => exact iff_of_true ⟨callPoll_actsFresh, fun h => absurd rfl h⟩ trivial
  | cancelRequest =>
    simp only [KeepsToRun, CancelsCurrent, operate]
    constructor
    · rintro ⟨hstale, hrunning⟩ hwrites
      refine ⟨?_, hrunning (callCancelRequest_of_writes hwrites).1⟩
      by_contra hne
      exact (cancel_actsFresh_iff hne).mp (hstale hne) hwrites
    · intro h
      refine ⟨fun hne => (cancel_actsFresh_iff hne).mpr fun hwrites => hne (h hwrites).1, ?_⟩
      intro hwritten
      by_contra hnot
      have hquiet : ¬ WritesCancel conv w.toClientView c := fun hwrites => hnot (h hwrites).2
      rw [callCancelRequest_of_not_writes hquiet] at hwritten
      exact hwritten rfl

variable (conv)

/-- However a handle is used, over however many runs: its calls keep to the run they are made
in if and only if each `cancel_request` that writes is made in the run of its request, and while
that runs. -/
theorem client_keeps_to_run_iff (c : ClientProtocol Pdu) (calls : List (ClientCall Pdu)) :
    Along (clientStep conv) (KeepsToRun conv) c calls ↔
      Along (clientStep conv) (CancelsCurrent conv) c calls :=
  along_iff_of_invariant (I := fun _ => True) (fun _ _ _ _ => trivial)
    (fun c k _ => keepsToRun_iff c k) trivial

end

/-- A request of the run 0 is outstanding; in the run 1, `cancel_request` is the first call. -/
def cancelAfterRestart : List (ClientCall PlainPacket) :=
  [⟨.request (plainRequest 0 0) 100, ⟨⟨5, none, true⟩, 0, true⟩⟩,
    ⟨.cancelRequest, ⟨⟨7, none, true⟩, 1, true⟩⟩]

theorem cancel_crosses_run :
    ¬ Along (clientStep plainConvertors) (KeepsToRun plainConvertors) (.initial [120] [97] 0)
      cancelAfterRestart := by
  rintro ⟨-, ⟨hfresh, -⟩, -⟩
  have hanswer := congrArg ClientAnswer.returned (hfresh (by decide)).1
  revert hanswer
  decide

end Service
end HakoniwaCorePro
