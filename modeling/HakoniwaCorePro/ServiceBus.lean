import HakoniwaCorePro.RpcChannel
import HakoniwaCorePro.ServerSteps

/-!
# A service on its channels

The request and response channels of a service as real channels of the shared receive event
table, each with one event of its receiver. To the protocol every such channel is a box for
one packet: `put` is refused while the box is full, `get` empties it.
-/

namespace HakoniwaCorePro
namespace Service

open RecvEvent

inductive Port
  | request (clientId : ℕ)
  | response (clientId : ℕ)
  deriving DecidableEq

def Port.slot : Port → ℕ
  | .request j => j
  | .response j => j

/-- A service as it is registered, in the run `generation`: its entry, the real channels of
its slots, and the processes. -/
structure Setup (Pdu : Type) where
  conv : Convertors Pdu
  entry : ServiceEntry
  generation : ℕ
  server : Pid
  client : ℕ → Pid
  real : Port → ChannelId
  real_inj : ∀ x y, x.slot < entry.maxClients → y.slot < entry.maxClients → real x = real y → x = y

/-- Requests are received by the server, responses by the client of the slot. -/
def Setup.reader {Pdu : Type} (u : Setup Pdu) : Port → Pid
  | .request _ => u.server
  | .response j => u.client j

section Channels

variable {Pdu : Type} (u : Setup Pdu)

/-- `get_request` and `get_response` on the channels of the service; the core's `read_pdu` works on
a channel that exists. -/
def Setup.get (x : Port) (b : Bus Pdu) : Bus Pdu × Option Pdu :=
  if x.slot ≥ u.entry.maxClients then (b, none) else getPacket (u.reader x) (u.real x) true b

/-- `put_request` and `put_response` -/
def Setup.put (x : Port) (p : Pdu) (b : Bus Pdu) : Bus Pdu × Bool :=
  if x.slot ≥ u.entry.maxClients then (b, false) else writePdu (u.real x) p b

/-- What `put` answers, which does not depend on the packet. -/
def Setup.accepts (x : Port) (b : Bus Pdu) : Bool :=
  decide (x.slot < u.entry.maxClients) && onPduDataBeforeWrite (u.real x) b.table

/-- The packet that waits on a channel. -/
def Setup.box (b : Bus Pdu) (x : Port) : Option Pdu :=
  if onPduDataBeforeWrite (u.real x) b.table then none else some (b.data (u.real x))

/-- Every channel of the service has exactly one enabled event, its receiver's, and it is not
pending. -/
def Setup.Wired (b : Bus Pdu) : Prop :=
  ∀ x, x.slot < u.entry.maxClients → ∃ i full, b.table.Serves i (u.reader x) (u.real x) full

theorem Setup.put_accepted (x : Port) (p : Pdu) (b : Bus Pdu) : (u.put x p b).2 = u.accepts x b := by
  unfold Setup.put Setup.accepts writePdu
  by_cases hx : x.slot < u.entry.maxClients
  · rw [if_neg (by omega), decide_eq_true hx, Bool.true_and]
    split
    · next hw => exact hw.symm
    · next hw => simpa using hw
  · rw [if_pos (by omega), decide_eq_false hx, Bool.false_and]

variable {u} {b : Bus Pdu}

theorem Setup.real_ne {x y : Port} (hx : x.slot < u.entry.maxClients)
    (hy : y.slot < u.entry.maxClients) (h : x ≠ y) : u.real x ≠ u.real y :=
  fun hr => h (u.real_inj x y hx hy hr)

theorem box_of_serves {i : ℕ} {pid : Pid} {x : Port} {full : Bool}
    (h : b.table.Serves i pid (u.real x) full) :
    u.box b x = if full then some (b.data (u.real x)) else none := by
  rw [Setup.box, h.beforeWrite]
  cases full <;> rfl

theorem Setup.accepts_eq {x : Port} (hx : x.slot < u.entry.maxClients) :
    u.accepts x b = (u.box b x).isNone := by
  unfold Setup.accepts Setup.box
  rw [decide_eq_true hx, Bool.true_and]
  cases onPduDataBeforeWrite (u.real x) b.table <;> rfl

theorem Setup.put_of_box {x : Port} (hx : x.slot < u.entry.maxClients) (hbox : u.box b x = none)
    (p : Pdu) : u.put x p b =
      (⟨Function.update b.data (u.real x) p, onPduDataWrite (u.real x) b.table⟩, true) := by
  have hfree : onPduDataBeforeWrite (u.real x) b.table = true := by
    have hacc := Setup.accepts_eq (b := b) hx
    rw [hbox, Setup.accepts, decide_eq_true hx, Bool.true_and] at hacc
    exact hacc
  rw [Setup.put, if_neg (by omega), writePdu, if_pos hfree]

theorem Setup.put_refused {x : Port} {p : Pdu} (hacc : u.accepts x b = false) :
    (u.put x p b).1 = b := by
  rw [← u.put_accepted x p b] at hacc
  unfold Setup.put at hacc ⊢
  split
  · rfl
  · next hx =>
    rw [if_neg hx] at hacc
    exact writePdu_refused hacc

theorem Setup.Wired.put (h : u.Wired b) (x : Port) (p : Pdu) : u.Wired (u.put x p b).1 := by
  intro y hy
  obtain ⟨i, full, hs⟩ := h y hy
  cases hacc : u.accepts x b with
  | false =>
    rw [Setup.put_refused hacc]
    exact ⟨i, full, hs⟩
  | true =>
    have hx : x.slot < u.entry.maxClients := by
      simp only [Setup.accepts, Bool.and_eq_true, decide_eq_true_eq] at hacc
      exact hacc.1
    rw [Setup.accepts_eq hx, Option.isNone_iff_eq_none] at hacc
    rw [Setup.put_of_box hx hacc]
    by_cases hxy : x = y
    · subst hxy
      exact ⟨i, true, hs.write⟩
    · exact ⟨i, full, hs.write_other (Setup.real_ne hx hy hxy)⟩

theorem Setup.Wired.box_put (h : u.Wired b) (x : Port) (p : Pdu) {y : Port}
    (hy : y.slot < u.entry.maxClients) :
    u.box (u.put x p b).1 y = if x = y ∧ u.box b x = none then some p else u.box b y := by
  obtain ⟨i, full, hs⟩ := h y hy
  cases hacc : u.accepts x b with
  | false =>
    rw [Setup.put_refused hacc]
    refine (if_neg ?_).symm
    rintro ⟨rfl, hbox⟩
    rw [Setup.accepts_eq hy, hbox] at hacc
    cases hacc
  | true =>
    have hx : x.slot < u.entry.maxClients := by
      simp only [Setup.accepts, Bool.and_eq_true, decide_eq_true_eq] at hacc
      exact hacc.1
    rw [Setup.accepts_eq hx, Option.isNone_iff_eq_none] at hacc
    rw [Setup.put_of_box hx hacc]
    let b' : Bus Pdu := ⟨Function.update b.data (u.real x) p, onPduDataWrite (u.real x) b.table⟩
    by_cases hxy : x = y
    · subst hxy
      have hfull := box_of_serves (b := b') hs.write
      rw [if_pos ⟨rfl, hacc⟩]
      simpa [b'] using hfull
    · have hne := Setup.real_ne hx hy hxy
      have hother := box_of_serves (b := b') (hs.write_other hne)
      rw [if_neg (fun hc => hxy hc.1), box_of_serves hs]
      simpa [b', Function.update_of_ne hne.symm] using hother

theorem Setup.Wired.get (h : u.Wired b) (x : Port) : u.Wired (u.get x b).1 := by
  intro y hy
  obtain ⟨i, full, hs⟩ := h y hy
  unfold Setup.get
  split
  · exact ⟨i, full, hs⟩
  · next hx =>
    by_cases hxy : x = y
    · subst hxy
      exact ⟨i, false, hs.check⟩
    · exact ⟨i, full, hs.check_other (Setup.real_ne (by omega) hy hxy) (u.reader x)⟩

theorem Setup.Wired.get_result (h : u.Wired b) {x : Port} (hx : x.slot < u.entry.maxClients) :
    (u.get x b).2 = u.box b x := by
  obtain ⟨i, full, hs⟩ := h x hx
  rw [Setup.get, if_neg (by omega), box_of_serves hs]
  simp only [getPacket, hs.received, readPdu, if_true]

theorem Setup.Wired.box_get (h : u.Wired b) (x : Port) {y : Port}
    (hy : y.slot < u.entry.maxClients) :
    u.box (u.get x b).1 y = if x = y then none else u.box b y := by
  obtain ⟨i, full, hs⟩ := h y hy
  let b' : Bus Pdu := ⟨b.data, (getRecvEvent (u.reader x) (u.real x) b.table).1⟩
  by_cases hxy : x = y
  · subst hxy
    rw [if_pos rfl, Setup.get, if_neg (by omega)]
    exact box_of_serves (b := b') hs.check
  · rw [if_neg hxy, Setup.get]
    split
    · rfl
    · next hx =>
      have hother := hs.check_other (Setup.real_ne (by omega) hy hxy) (u.reader x)
      rw [box_of_serves hs]
      exact box_of_serves (b := b') hother

end Channels

structure ServiceState (Pdu : Type) where
  bus : Bus Pdu
  protocol : ServerProtocol Pdu

section Server

variable {Pdu : Type} (u : Setup Pdu)

def Setup.view (time : ℤ) (getRequest : ℕ → Option Pdu) (b : Bus Pdu) : ServerView Pdu where
  worldTimeUsec := time
  entry := u.entry
  getRequest := getRequest
  putResponse := fun j => u.accepts (.response j) b

def Setup.deliver (sent : Option (Sent Pdu)) (b : Bus Pdu) : Bus Pdu :=
  match sent with
  | none => b
  | some r => if r.accepted then (u.put (.response r.clientId) r.packet b).1 else b

/-- What a poll that looks at slot `j` sees: it reads the request channel first, and may write
to the response channel after that. -/
def Setup.pollView (time : ℤ) (j : ℕ) (b : Bus Pdu) : ServerView Pdu :=
  u.view time (fun k => (u.get (.request k) b).2) (u.get (.request j) b).1

/-- The slot that the next poll looks at. -/
def Setup.turn (s : ServerProtocol Pdu) : ℕ := (s.resetIfNewRun u.generation).currentClientId

/-- `poll` on the bus. -/
def Setup.poll (time : ℤ) (s : ServiceState Pdu) : ServiceState Pdu × ServerEvent :=
  let j := u.turn s.protocol
  let r := Service.poll u.conv u.generation (u.pollView time j s.bus) s.protocol
  (⟨u.deliver r.sent (u.get (.request j) s.bus).1, r.protocol⟩, r.event)

/-- `put_response` of the application on the bus. -/
def Setup.putResponse (p : Pdu) (s : ServiceState Pdu) : ServiceState Pdu × Bool :=
  let r := replyToCurrentRequest u.generation (u.view 0 (fun _ => none) s.bus) p s.protocol
  (⟨u.deliver r.sent s.bus, r.protocol⟩, r.returned)

/-- What `recv_request` says of a packet. -/
def Setup.judge (name : Name) : Option Pdu → Received Pdu
  | none => .nothing
  | some p =>
    match u.conv.request.pdu2cpp p with
    | none => .rejected
    | some h =>
      if h.serviceName == name && u.entry.isExistClient h.clientName &&
        decide (h.opcode < operationNum) then .valid h p else .rejected

variable {u}

theorem Setup.Wired.deliver {b : Bus Pdu} (h : u.Wired b) (sent : Option (Sent Pdu)) :
    u.Wired (u.deliver sent b) := by
  cases sent with
  | none => exact h
  | some r =>
    simp only [Setup.deliver]
    split
    · exact h.put _ _
    · exact h

theorem Setup.Wired.box_deliver_request {b : Bus Pdu} (h : u.Wired b) (sent : Option (Sent Pdu))
    {j : ℕ} (hj : j < u.entry.maxClients) :
    u.box (u.deliver sent b) (.request j) = u.box b (.request j) := by
  cases sent with
  | none => rfl
  | some r =>
    simp only [Setup.deliver]
    split
    · exact (h.box_put _ _ (y := .request j) hj).trans (if_neg fun hc => Port.noConfusion hc.1)
    · rfl

theorem Setup.Wired.box_deliver_response {b : Bus Pdu} (h : u.Wired b) {sent : Option (Sent Pdu)}
    {j : ℕ} (hj : j < u.entry.maxClients) (hsent : ∀ r, sent = some r → r.clientId ≠ j) :
    u.box (u.deliver sent b) (.response j) = u.box b (.response j) := by
  cases sent with
  | none => rfl
  | some r =>
    simp only [Setup.deliver]
    split
    · refine (h.box_put _ _ (y := .response j) hj).trans (if_neg fun hc => hsent r rfl ?_)
      exact Port.response.inj hc.1
    · rfl

theorem Setup.Wired.poll {s : ServiceState Pdu} (h : u.Wired s.bus) (time : ℤ) :
    u.Wired (u.poll time s).1.bus := (h.get _).deliver _

theorem Setup.Wired.putResponse {s : ServiceState Pdu} (h : u.Wired s.bus) (p : Pdu) :
    u.Wired (u.putResponse p s).1.bus := h.deliver _

theorem Setup.Wired.box_poll_request {s : ServiceState Pdu} (h : u.Wired s.bus) (time : ℤ) {j : ℕ}
    (hj : j < u.entry.maxClients) :
    u.box (u.poll time s).1.bus (.request j) =
      if u.turn s.protocol = j then none else u.box s.bus (.request j) := by
  have hget := h.box_get (.request (u.turn s.protocol)) (y := .request j) hj
  simp only [Port.request.injEq] at hget
  exact ((h.get _).box_deliver_request _ hj).trans hget

theorem Setup.turn_eq {s : ServerProtocol Pdu} (hgen : s.runGeneration = u.generation) :
    u.turn s = s.currentClientId := by
  rw [Setup.turn, ← hgen, resetIfNewRun_self]

theorem poll_sent_clientId {conv : Convertors Pdu} {g : ℕ} {v : ServerView Pdu}
    {s : ServerProtocol Pdu} {r : Sent Pdu} (hr : (Service.poll conv g v s).sent = some r) :
    r.clientId = (s.resetIfNewRun g).currentClientId := by
  have hout := pollCurrent_outcome conv v (s.resetIfNewRun g)
  rw [Service.poll] at hr
  generalize pollCurrent conv v (s.resetIfNewRun g) = polled at hout hr
  cases hout with
  | reported status code t _ =>
    rcases sendResponse_cases conv v status code (s.resetIfNewRun g) with ⟨-, hs⟩ | ⟨p, -, hs⟩
    · rw [hs] at hr
      cases hr
    · rw [hs, reply_sent, Option.some.injEq] at hr
      rw [← hr]
  | _ => cases hr

theorem Setup.Wired.box_poll_response {s : ServiceState Pdu} (h : u.Wired s.bus) (time : ℤ) {j : ℕ}
    (hj : j < u.entry.maxClients) (hturn : u.turn s.protocol ≠ j) :
    u.box (u.poll time s).1.bus (.response j) = u.box s.bus (.response j) := by
  have hget := h.box_get (.request (u.turn s.protocol)) (y := .response j) hj
  rw [if_neg (by simp)] at hget
  refine ((h.get _).box_deliver_response hj fun r hr => ?_).trans hget
  rw [poll_sent_clientId hr]
  exact hturn

theorem Setup.poll_eq {s : ServiceState Pdu} (hgen : s.protocol.runGeneration = u.generation)
    (time : ℤ) :
    u.poll time s =
      let j := s.protocol.currentClientId
      let r := pollCurrent u.conv (u.pollView time j s.bus) s.protocol
      (⟨u.deliver r.sent (u.get (.request j) s.bus).1, r.protocol⟩, r.event) := by
  simp only [Setup.poll, Setup.turn, Service.poll, ← hgen, resetIfNewRun_self]

theorem Setup.Wired.recvRequest_eq {b : Bus Pdu} (h : u.Wired b) (time : ℤ) (j : ℕ)
    {q : ServerProtocol Pdu} (hmax : q.server.maxClients = u.entry.maxClients) {k : ℕ}
    (hk : k < u.entry.maxClients) :
    recvRequest u.conv (u.pollView time j b) q k =
      u.judge q.server.serviceName (u.box b (.request k)) := by
  have hget := h.get_result (x := .request k) hk
  rw [recvRequest, if_neg (by omega)]
  simp only [Setup.pollView, Setup.view, hget]
  cases u.box b (.request j) with
  | none => rfl
  | some p => rfl

end Server

def plainReal : Port → ChannelId
  | .request j => serverChannelId j
  | .response j => clientChannelId j

theorem plainReal_inj : ∀ x y, plainReal x = plainReal y → x = y
  | .request j, .request k, h => by
    have h' : 2 * j = 2 * k := h
    rw [Nat.eq_of_mul_eq_mul_left (by decide) h']
  | .request j, .response k, h => by
    have h' : 2 * j = 2 * k + 1 := h
    omega
  | .response j, .request k, h => by
    have h' : 2 * j + 1 = 2 * k := h
    omega
  | .response j, .response k, h => by
    have h' : 2 * j + 1 = 2 * k + 1 := h
    rw [Nat.eq_of_mul_eq_mul_left (by decide) (Nat.succ_inj.mp h')]

/-- Process 1 is the server, and process 2 + j the client in slot `j`. -/
def plainSetup (N : ℕ) : Setup PlainPacket where
  conv := plainConvertors
  entry := plainEntry N
  generation := 0
  server := 1
  client := fun j => 2 + j
  real := plainReal
  real_inj := fun x y _ _ h => plainReal_inj x y h

/-- The event of channel `k`. -/
def plainEvent (k : ℕ) : Entry := newEntry (if k % 2 = 0 then 1 else 2 + k / 2) k none

/-- Channel `k` is watched by event `k`; nothing has been sent. -/
def plainBus (N : ℕ) : Bus PlainPacket where
  data := fun _ => plainRequest 0 0
  table := ⟨(List.range (2 * N)).map plainEvent⟩

theorem plainBus_serves {N k : ℕ} (hk : k < 2 * N) (hN : 2 * N ≤ pduChannelMax) :
    (plainBus N).table.Serves k (if k % 2 = 0 then 1 else 2 + k / 2) k false := by
  have hentry : (plainBus N).table.entries[k]? = some (plainEvent k) := by simp [plainBus, hk]
  have hreg : (plainBus N).table.registrations[k]? = some (plainEvent k).toRegistration := by
    rw [Table.registrations, List.getElem?_map, hentry]
    rfl
  refine ⟨⟨plainEvent k, ⟨hentry, hreg, rfl, fun j q hj _ hq => ?_⟩, rfl, rfl, rfl, rfl⟩,
    Nat.lt_of_lt_of_le hk hN⟩
  obtain ⟨hlt, rfl⟩ := List.getElem?_eq_some_iff.mp hj
  simpa [Table.registrations, plainBus, plainEvent, newEntry] using hq

theorem plainBus_port {N : ℕ} (hN : 2 * N ≤ pduChannelMax) (x : Port) (hx : x.slot < N) :
    ∃ i, (plainBus N).table.Serves i ((plainSetup N).reader x) ((plainSetup N).real x) false := by
  cases x with
  | request j =>
    have hj : j < N := hx
    have h := plainBus_serves (k := 2 * j) (by omega) hN
    rw [if_pos (by omega)] at h
    exact ⟨2 * j, h⟩
  | response j =>
    have hj : j < N := hx
    have h := plainBus_serves (k := 2 * j + 1) (by omega) hN
    rw [if_neg (by omega), show (2 * j + 1) / 2 = j by omega] at h
    exact ⟨2 * j + 1, h⟩

theorem plainBus_wired {N : ℕ} (hN : 2 * N ≤ pduChannelMax) :
    (plainSetup N).Wired (plainBus N) := by
  intro x hx
  obtain ⟨i, h⟩ := plainBus_port hN x hx
  exact ⟨i, false, h⟩

theorem plainBus_box {N : ℕ} (hN : 2 * N ≤ pduChannelMax) {x : Port} (hx : x.slot < N) :
    (plainSetup N).box (plainBus N) x = none := by
  obtain ⟨i, h⟩ := plainBus_port hN x hx
  exact box_of_serves h

end Service
end HakoniwaCorePro
