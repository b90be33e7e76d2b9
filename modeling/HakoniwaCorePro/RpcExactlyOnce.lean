import HakoniwaCorePro.RpcSession

/-!
# Requests are answered once

Every step of a client or of the server keeps `Link` at the slot it is about and leaves the
other slots alone; what shows of a slot is then a list of rounds.
-/

namespace HakoniwaCorePro
namespace Service

open RecvEvent Runs

variable {Pdu : Type} {u : Setup Pdu} {name : Name}

theorem judge_own (hr : u.Registered name) {j : ℕ} (hj : j < u.entry.maxClients)
    {c : ClientProtocol Pdu} (hk : u.Knows name j c) {opcode : OperationCode} {interval : ℤ} {p : Pdu}
    (hp : u.conv.request.pdu2cpp p = some (setRequestHeader opcode interval c)) :
    u.judge name (some p) = .valid (setRequestHeader opcode interval c) p := by
  have hname : c.client.serviceName = name := hk.serviceName
  have hexists : u.entry.isExistClient c.client.clientName = true := by
    rw [hk.clientName]
    simp only [ServiceEntry.isExistClient, List.any_eq_true, List.mem_range]
    exact ⟨j, hj, by simp [hr.enabled j hj, ServiceEntry.getClientName]⟩
  have hop : opcode.code < operationNum := by cases opcode <;> decide
  simp [Setup.judge, hp, setRequestHeader, hname, hexists, hop]

theorem HoldsRequest.ne_none {q : Option Pdu} {id : ℕ} (h : HoldsRequest u name q id) : q ≠ none := by
  rintro rfl
  obtain ⟨hd, p, hv, -⟩ := h
  cases hv

theorem HoldsCancel.ne_none {q : Option Pdu} {id : ℕ} (h : HoldsCancel u name q id) : q ≠ none := by
  rintro rfl
  obtain ⟨hd, p, hv, -⟩ := h
  cases hv

theorem judge_packet {q : Option Pdu} {h : RequestHeader} {p : Pdu}
    (hv : u.judge name q = .valid h p) : q = some p ∧ u.conv.request.pdu2cpp p = some h := by
  cases q with
  | none => cases hv
  | some x =>
    simp only [Setup.judge] at hv
    split at hv
    · cases hv
    · next hx =>
      split at hv
      · cases hv
        exact ⟨rfl, hx⟩
      · cases hv

theorem waitingId_eq {b : Bus Pdu} (hw : u.Wired b) {j : ℕ} (hj : j < u.entry.maxClients)
    {h : RequestHeader} {p : Pdu} (hv : u.judge name (u.box b (.request j)) = .valid h p) :
    u.waitingId j b = h.requestId := by
  obtain ⟨hq, hp⟩ := judge_packet hv
  have hget := hw.get_result (x := .request j) hj
  rw [Setup.waitingId, hget, hq, Option.bind_some, hp]
  rfl

section Phases

variable {v v' : SlotView Pdu} {ph : Exchange.Phase ℕ}

theorem Link.eq_idle (h : Link u name v ph) (hidle : v.client.state = .idle) : ph = .idle := by
  cases ph with
  | idle => rfl
  | sent id =>
    rw [h.1] at hidle
    cases hidle
  | serving id =>
    obtain ⟨-, -, -, -, ⟨hc, -⟩ | ⟨hc, -⟩⟩ := h <;>
    · rw [hc] at hidle
      cases hidle
  | canceling id =>
    rw [h.2.2.2.1] at hidle
    cases hidle
  | answered id =>
    obtain ⟨-, -, ⟨hc, -⟩ | ⟨hc, -⟩⟩ := h <;>
    · rw [hc] at hidle
      cases hidle

theorem Link.client_idle_iff (h : Link u name v ph) : v.client.state = .idle ↔ ph = .idle := by
  refine ⟨h.eq_idle, ?_⟩
  rintro rfl
  exact h.1

theorem Link.of_idle (h : Link u name v ph) (hs : v.state = .idle) (hs' : v'.state = .idle)
    (hc : v'.client = v.client) (hq : v'.request = v.request) (hr : v'.response = v.response) :
    Link u name v' ph := by
  cases ph with
  | idle => simpa only [Link, hs', hc, hq, hr, hs] using h
  | sent id => simpa only [Link, hs', hc, hq, hr, hs] using h
  | serving id =>
    rw [Link, hs] at h
    cases h.1
  | canceling id =>
    rw [Link, hs] at h
    cases h.1
  | answered id => simpa only [Link, hs', hc, hq, hr, hs] using h

theorem Link.idle_of_current (h : Link u name v ph) (hcur : v.current = none) : v.state = .idle := by
  cases ph with
  | idle => exact h.2.1
  | sent id => exact h.2.1
  | serving id =>
    obtain ⟨-, -, ⟨hd, hserves, -⟩, -⟩ := h
    rw [hcur] at hserves
    cases hserves
  | canceling id =>
    obtain ⟨-, -, ⟨hd, hserves, -⟩, -⟩ := h
    rw [hcur] at hserves
    cases hserves
  | answered id => exact h.1

end Phases

section Client

variable {s : RpcState Pdu} {ph : ℕ → Exchange.Phase ℕ} {i : ℕ}

theorem RpcInv.client_step (h : RpcInv u name s ph) {b : Bus Pdu} {c : ClientProtocol Pdu}
    {p : Exchange.Phase ℕ} (hw : u.Wired b)
    (hbox : ∀ y, y.slot < u.entry.maxClients → y.slot ≠ i → u.box b y = u.box s.bus y)
    (hknows : u.Knows name i c)
    (hlink : Link u name { u.slot s i with
      client := c
      request := u.box b (.request i)
      response := u.box b (.response i) } p) :
    RpcInv u name { s with bus := b, clients := Function.update s.clients i c }
      (Function.update ph i p) := by
  refine ⟨hw, h.ok, h.generation, h.serviceName, fun j hj => ?_, fun j hj => ?_, h.owes⟩
  · by_cases hji : j = i
    · rw [hji]
      simpa using hknows
    · simpa [hji] using h.knows j hj
  · by_cases hji : j = i
    · rw [hji, Function.update_self]
      simpa [Setup.slot] using hlink
    · rw [Function.update_of_ne hji]
      have hq := hbox (.request j) hj hji
      have hr := hbox (.response j) hj hji
      simpa [Setup.slot, hji, hq, hr] using h.link j hj

theorem RpcInv.client_stay (h : RpcInv u name s ph) {b : Bus Pdu} {c : ClientProtocol Pdu}
    (hb : b = s.bus) (hc : c = s.clients i) :
    RpcInv u name { s with bus := b, clients := Function.update s.clients i c } ph := by
  rw [hb, hc, Function.update_eq_self]
  exact h

theorem RpcInv.submit_step (h : RpcInv u name s ph) (hi : i < u.entry.maxClients) (q : Pdu)
    (hnone : u.box s.bus (.request i) = none) {c : ClientProtocol Pdu} {p : Exchange.Phase ℕ}
    (hknows : u.Knows name i c)
    (hlink : Link u name { u.slot s i with client := c, request := some q } p) :
    RpcInv u name
      { s with bus := u.submit i (some q) s.bus, clients := Function.update s.clients i c }
      (Function.update ph i p) := by
  have hself : u.box (u.submit i (some q) s.bus) (.request i) = some q :=
    (h.wired.box_put (.request i) q (y := .request i) hi).trans (if_pos ⟨rfl, hnone⟩)
  have hother : ∀ y, y.slot < u.entry.maxClients → y ≠ .request i →
      u.box (u.submit i (some q) s.bus) y = u.box s.bus y := fun y hy hyi =>
    (h.wired.box_put (.request i) q hy).trans (if_neg fun hc => hyi hc.1.symm)
  refine h.client_step (h.wired.put _ _)
    (fun y hy hyi => hother y hy fun hc => hyi (by rw [hc]; rfl)) hknows ?_
  rw [hself, hother (.response i) hi (by simp)]
  exact hlink

theorem RpcInv.take_step (h : RpcInv u name s ph) (hi : i < u.entry.maxClients)
    {c : ClientProtocol Pdu} {p : Exchange.Phase ℕ} (hknows : u.Knows name i c)
    (hlink : Link u name { u.slot s i with client := c, response := none } p) :
    RpcInv u name
      { s with bus := (u.get (.response i) s.bus).1, clients := Function.update s.clients i c }
      (Function.update ph i p) := by
  have hself : u.box (u.get (.response i) s.bus).1 (.response i) = none :=
    (h.wired.box_get (.response i) (y := .response i) hi).trans (if_pos rfl)
  have hother : ∀ y, y.slot < u.entry.maxClients → y ≠ .response i →
      u.box (u.get (.response i) s.bus).1 y = u.box s.bus y := fun y hy hyi =>
    (h.wired.box_get (.response i) hy).trans (if_neg (Ne.symm hyi))
  refine h.client_step (h.wired.get _)
    (fun y hy hyi => hother y hy fun hc => hyi (by rw [hc]; rfl)) hknows ?_
  rw [hself, hother (.request i) hi (by simp)]
  exact hlink

theorem submit_refused {b : Bus Pdu} {p : Pdu} (hacc : u.accepts (.request i) b = false) :
    u.submit i (some p) b = b := Setup.put_refused hacc

theorem resetIfNewRun_of_knows {c : ClientProtocol Pdu} (hk : u.Knows name i c) :
    c.resetIfNewRun u.generation = c :=
  if_pos hk.generation.symm

/-- A step shows nothing and leaves the phases alone, or it shows the next event of one slot. -/
inductive Advance (u : Setup Pdu) (name : Name) (s' : RpcState Pdu) (ph : ℕ → Exchange.Phase ℕ) :
    List RpcEvent → Prop
  | silent (h : RpcInv u name s' ph) : Advance u name s' ph []
  | shown (i : ℕ) (e : Exchange.Event ℕ) (p : Exchange.Phase ℕ) (hstep : (ph i).step e = some p)
      (h : RpcInv u name s' (Function.update ph i p)) : Advance u name s' ph [⟨i, e⟩]

theorem RpcInv.request (h : RpcInv u name s ph) (hr : u.Registered name)
    (hi : i < u.entry.maxClients) (hidle : (s.clients i).state = .idle) {time timeoutMsec interval : ℤ}
    (hint : interval ≤ 0) {p : Pdu}
    (hp : u.conv.request.pdu2cpp p = some (setRequestHeader .request interval (s.clients i))) :
    Advance u name (u.rpcStep s (.request i time timeoutMsec p)) ph
      (u.rpcEvents s (.request i time timeoutMsec p)) := by
  have hk := h.knows i hi
  have hlink := h.link i hi
  have hph : ph i = .idle := hlink.eq_idle hidle
  rw [hph] at hlink
  obtain ⟨-, hs, hresp, hq⟩ := hlink
  cases hacc : u.accepts (.request i) s.bus with
  | false =>
    have hreq : u.request i time timeoutMsec p s = ⟨s.clients i, some p, false⟩ := by
      simp [Setup.request, ClientProtocol.request, resetIfNewRun_of_knows hk, Setup.clientView, hacc]
    simp only [Setup.rpcStep, Setup.rpcEvents, hreq]
    exact .silent (h.client_stay (submit_refused hacc) rfl)
  | true =>
    let c' : ClientProtocol Pdu := { s.clients i with
      timeoutMsec := timeoutMsec
      lastPollTime := 0
      heartbeatConfirmedTime := int32 time
      requestHeader := setRequestHeader .request interval (s.clients i)
      client := { (s.clients i).client with state := .doing } }
    have hreq : u.request i time timeoutMsec p s = ⟨c', some p, true⟩ := by
      have hidle' : (s.clients i).client.state = .idle := hidle
      simp [Setup.request, ClientProtocol.request, resetIfNewRun_of_knows hk, Setup.clientView, hacc,
        hp, ServiceClient.eventStartService, hidle', c']
    have hnone : u.box s.bus (.request i) = none := by
      rwa [Setup.accepts_eq (x := .request i) hi, Option.isNone_iff_eq_none] at hacc
    simp only [Setup.rpcStep, Setup.rpcEvents, hreq]
    refine .shown i _ (.sent (uint32 (s.clients i).requestId)) (by rw [hph]; rfl) ?_
    exact h.submit_step hi p hnone ⟨hk.serviceName, hk.clientName, hk.generation⟩
      ⟨rfl, hs, hresp, ⟨_, p, judge_own hr hi hk hp, rfl, rfl, hint⟩, rfl⟩

theorem Link.cancel {v : SlotView Pdu} {ph : Exchange.Phase ℕ} (h : Link u name v ph)
    (hdoing : v.client.state = .doing) (hnone : v.request = none) {c : ClientProtocol Pdu}
    {q : Option Pdu} (hc : c.state = .canceling) (hid : c.requestId = v.client.requestId)
    (hnames : c.client.serviceName = v.client.client.serviceName ∧
      c.client.clientName = v.client.client.clientName)
    (hq : HoldsCancel u name q (uint32 v.client.requestId)) :
    Link u name { v with client := c, request := q } ph := by
  cases ph with
  | idle =>
    rw [h.1] at hdoing
    cases hdoing
  | sent id => exact absurd hnone h.2.2.2.1.ne_none
  | serving id =>
    obtain ⟨hs, hr, hserves, hreq, -⟩ := h
    rw [hreq] at hq
    refine ⟨hs, hr, hserves, ?_, Or.inr ⟨hc, hq⟩⟩
    show uint32 c.requestId = id
    rw [hid, hreq]
  | canceling id =>
    rw [h.2.2.2.1] at hdoing
    cases hdoing
  | answered id =>
    obtain ⟨hs, ⟨hd, p, hp, hparse, hvalid, hdone⟩, -⟩ := h
    refine ⟨hs, ⟨hd, p, hp, hparse, ?_, hdone⟩, Or.inr ⟨hc, Or.inr ⟨_, hq⟩⟩⟩
    simpa [validateResponseHeader, hnames.1, hnames.2] using hvalid

theorem cancelRequest_cases (hi : i < u.entry.maxClients) (s : RpcState Pdu) :
    (u.cancelRequest i s).protocol = s.clients i ∧
      u.submit i (u.cancelRequest i s).sent s.bus = s.bus ∨
    (s.clients i).client.state = .doing ∧ u.box s.bus (.request i) = none ∧ ∃ p,
      u.conv.request.cpp2pdu (setRequestHeader .cancel (-1) (s.clients i)) = some p ∧
      u.cancelRequest i s = ⟨{ s.clients i with
        client := { (s.clients i).client with state := .canceling } }, some p, true⟩ := by
  unfold Setup.cancelRequest ClientProtocol.cancelRequest
  split
  · exact Or.inl ⟨rfl, rfl⟩
  · next hne =>
    have hdoing : (s.clients i).client.state = .doing := by simpa using hne
    split
    · exact Or.inl ⟨rfl, rfl⟩
    · next p henc =>
      cases hacc : u.accepts (.request i) s.bus with
      | false => exact Or.inl (by simpa [Setup.clientView, hacc] using submit_refused hacc)
      | true =>
        rw [Setup.accepts_eq (x := .request i) hi, Option.isNone_iff_eq_none] at hacc
        refine Or.inr ⟨hdoing, hacc, p, henc, ?_⟩
        simp [Setup.clientView, Setup.accepts_eq (x := .request i) hi, hacc,
          ServiceClient.eventCancelService, hdoing]

theorem RpcInv.cancelRequest (h : RpcInv u name s ph) (hr : u.Registered name)
    (hi : i < u.entry.maxClients) :
    Advance u name (u.rpcStep s (.cancelRequest i)) ph (u.rpcEvents s (.cancelRequest i)) := by
  have hk := h.knows i hi
  simp only [Setup.rpcStep, Setup.rpcEvents]
  rcases cancelRequest_cases hi s with ⟨hc, hb⟩ | ⟨hdoing, hnone, p, henc, hreq⟩
  · exact .silent (h.client_stay hb hc)
  · have hparse := hr.roundTrip _ p hk.serviceName ⟨i, hi, hk.clientName⟩ henc
    have hcancel : HoldsCancel u name (some p) (uint32 (s.clients i).requestId) :=
      ⟨_, p, judge_own hr hi hk hparse, rfl, rfl⟩
    have hlink := (h.link i hi).cancel (c := (u.cancelRequest i s).protocol) hdoing hnone
      (by rw [hreq]) (by rw [hreq]; rfl) (by rw [hreq]; exact ⟨rfl, rfl⟩) hcancel
    have hnext := h.submit_step hi p hnone
      (by rw [hreq]; exact ⟨hk.serviceName, hk.clientName, hk.generation⟩) hlink
    rw [Function.update_eq_self i ph] at hnext
    rw [hreq] at hnext ⊢
    exact .silent hnext

theorem Link.of_response {v : SlotView Pdu} {ph : Exchange.Phase ℕ} (h : Link u name v ph)
    (hr : v.response ≠ none) : ∃ id, ph = .answered id := by
  cases ph with
  | idle => exact absurd h.2.2.1 hr
  | sent id => exact absurd h.2.2.1 hr
  | serving id => exact absurd h.2.1 hr
  | canceling id => exact absurd h.2.1 hr
  | answered id => exact ⟨id, rfl⟩

theorem pollClient_of_none (hk : u.Knows name i (s.clients i)) (hi : i < u.entry.maxClients)
    (hw : u.Wired s.bus) (hnone : u.box s.bus (.response i) = none) (time : ℤ) :
    (u.pollClient i time s).1 = s.clients i ∧ (u.pollClient i time s).2 ≠ .responseIn ∧
      (u.pollClient i time s).2 ≠ .requestCancelDone := by
  have hget := hw.get_result (x := .response i) hi
  rw [hnone] at hget
  simp only [Setup.pollClient, ClientProtocol.poll, resetIfNewRun_of_knows hk,
    ClientProtocol.pollCurrent, recvResponse, Setup.clientView, hget]
  split
  · simp
  · split <;> simp

theorem pollClient_of_response (hk : u.Knows name i (s.clients i)) (hi : i < u.entry.maxClients)
    (hw : u.Wired s.bus) (hbusy : (s.clients i).state ≠ .idle) {hd : ResponseHeader} {p : Pdu}
    (hbox : u.box s.bus (.response i) = some p) (hp : u.conv.response.pdu2cpp p = some hd)
    (hvalid : validateResponseHeader (s.clients i).client hd = true)
    (hdone : hd.status = ServiceStatus.done.code) (time : ℤ) :
    ((u.pollClient i time s).2 = .responseIn ∨ (u.pollClient i time s).2 = .requestCancelDone) ∧
      (u.pollClient i time s).1.responseHeader = hd ∧ (u.pollClient i time s).1.state = .idle ∧
      u.Knows name i (u.pollClient i time s).1 := by
  have hget := hw.get_result (x := .response i) hi
  rw [hbox] at hget
  have hdoing : (s.clients i).client.state = .doing ∨ (s.clients i).client.state = .canceling := by
    cases hst : (s.clients i).client.state with
    | idle => exact absurd hst hbusy
    | doing => exact Or.inl rfl
    | canceling => exact Or.inr rfl
  have hpoll : u.pollClient i time s =
      pollResponse (u.clientView time i s.bus) hd p (s.clients i) := by
    simp only [Setup.pollClient, ClientProtocol.poll, resetIfNewRun_of_knows hk,
      ClientProtocol.pollCurrent, if_neg hbusy, recvResponse, Setup.clientView, hget, hp, hvalid,
      if_true]
  rw [hpoll]
  simp only [pollResponse, hdone, if_true, finishRequest, copyResponse]
  refine ⟨?_, trivial, ?_, ?_⟩
  · split <;> simp
  · rcases hdoing with hst | hst <;> simp [ServiceClient.eventDoneService, hst]
  · rcases hdoing with hst | hst <;>
    exact ⟨by simpa [ServiceClient.eventDoneService, hst] using hk.serviceName,
      by simpa [ServiceClient.eventDoneService, hst] using hk.clientName, hk.generation⟩

theorem RpcInv.pollClient (h : RpcInv u name s ph) (hi : i < u.entry.maxClients) (time : ℤ) :
    Advance u name (u.rpcStep s (.pollClient i time)) ph (u.rpcEvents s (.pollClient i time)) := by
  have hk := h.knows i hi
  have hlink := h.link i hi
  by_cases hidle : (s.clients i).state = .idle
  · have hpoll : u.pollClient i time s = (s.clients i, .none) := by
      simp [Setup.pollClient, ClientProtocol.poll, resetIfNewRun_of_knows hk,
        ClientProtocol.pollCurrent, hidle]
    have hlooks : (s.clients i).looks u.generation = false := by
      simp [ClientProtocol.looks, resetIfNewRun_of_knows hk, hidle]
    simp only [Setup.rpcStep, Setup.rpcEvents, hpoll, hlooks]
    exact .silent (h.client_stay rfl rfl)
  have hlooks : (s.clients i).looks u.generation = true := by
    simp [ClientProtocol.looks, resetIfNewRun_of_knows hk, hidle]
  have hstep : u.rpcStep s (.pollClient i time) = { s with
      bus := (u.get (.response i) s.bus).1
      clients := Function.update s.clients i (u.pollClient i time s).1 } := by
    simp only [Setup.rpcStep, hlooks, if_true]
  rw [hstep]
  by_cases hnone : u.box s.bus (.response i) = none
  · obtain ⟨hc, hev₁, hev₂⟩ := pollClient_of_none hk hi h.wired hnone time
    have hnext := h.take_step hi hk (p := ph i) (by
      rw [← hnone]
      exact hlink)
    rw [Function.update_eq_self i ph] at hnext
    rw [hc]
    simp only [Setup.rpcEvents, hev₁, hev₂, or_self, if_false]
    exact .silent hnext
  · obtain ⟨id, hph⟩ := hlink.of_response hnone
    rw [hph] at hlink
    obtain ⟨hs, ⟨hd, p, hbox, hparse, hvalid, hdone, hid⟩, hq⟩ := hlink
    obtain ⟨hev, hheader, hst, hknows⟩ :=
      pollClient_of_response hk hi h.wired hidle hbox hparse hvalid hdone time
    simp only [Setup.rpcEvents, if_pos hev, hheader]
    refine .shown i _ .idle (by rw [hph, hid]; simp [Exchange.Phase.step]) ?_
    refine h.take_step hi hknows ⟨hst, hs, rfl, ?_⟩
    rcases hq with ⟨-, hq⟩ | ⟨-, hq⟩
    · exact Or.inl hq
    · exact hq

end Client

section Server

variable {s : RpcState Pdu} {ph : ℕ → Exchange.Phase ℕ} {i : ℕ}

theorem RpcInv.server_step (h : RpcInv u name s ph) {b : Bus Pdu} {q : ServerProtocol Pdu} {o : Bool}
    {p : Exchange.Phase ℕ} (hw : u.Wired b) (hok : ServerOk u.entry.maxClients q)
    (hgen : q.runGeneration = u.generation) (hname : q.server.serviceName = name)
    (howes : o = true → q.currentState ≠ .idle) (hcur : s.protocol.currentClientId = i)
    (hbox : ∀ y, y.slot < u.entry.maxClients → y.slot ≠ i → u.box b y = u.box s.bus y)
    (hstate : ∀ j, j ≠ i → q.server.state j = s.protocol.server.state j)
    (hlink : Link u name (u.slot ⟨⟨b, q⟩, s.clients, o⟩ i) p) :
    RpcInv u name ⟨⟨b, q⟩, s.clients, o⟩ (Function.update ph i p) := by
  refine ⟨hw, hok, hgen, hname, h.knows, fun j hj => ?_, howes⟩
  by_cases hji : j = i
  · rw [hji, Function.update_self]
    exact hlink
  · rw [Function.update_of_ne hji]
    have hidle : s.protocol.server.state j = .idle :=
      (h.link j hj).idle_of_current (if_neg fun hc => hji (hc.symm.trans hcur))
    exact (h.link j hj).of_idle hidle ((hstate j hji).trans hidle) rfl (hbox (.request j) hj hji)
      (hbox (.response j) hj hji)

/-- Within the discipline of the clients and the application no status report is due. -/
theorem Link.no_report {ph : Exchange.Phase ℕ} {conv : Convertors Pdu} {v : ServerView Pdu}
    {q : ServerProtocol Pdu} {w : SlotView Pdu} (h : Link u name w ph)
    (hstate : q.currentState = w.state) (hcurrent : w.current = some q.requestHeader)
    (hrecv : recvRequest conv v q q.currentClientId = u.judge name w.request) :
    report conv v q = none := by
  have hcancel : ∀ id, HoldsCancel u name w.request id → q.currentState ≠ .canceling →
      report conv v q = none := by
    rintro id ⟨hd, p, hv, hop, -⟩ hst
    exact report_of_cancel (hrecv.trans hv) hop hst
  have hempty : w.request = none →
      (q.currentState = .doing → q.requestHeader.statusPollIntervalMsec ≤ 0) →
      report conv v q = none := by
    intro hq hint
    rw [hq] at hrecv
    exact report_of_nothing hrecv hint
  cases ph with
  | idle =>
    obtain ⟨-, hs, -, hq | ⟨id, hq⟩⟩ := h
    · exact hempty hq fun hd => by rw [hstate, hs] at hd; cases hd
    · exact hcancel id hq (by rw [hstate, hs]; simp)
  | sent id =>
    obtain ⟨-, hs, -, ⟨hd, p, hv, -⟩, -⟩ := h
    rw [hv] at hrecv
    simp only [report, hrecv, hstate, hs]
  | serving id =>
    obtain ⟨hs, -, ⟨hd, hcur, -, hint⟩, -, ⟨-, hq⟩ | ⟨-, hq⟩⟩ := h
    · refine hempty hq fun _ => ?_
      rw [hcurrent, Option.some.injEq] at hcur
      rw [hcur]
      exact hint
    · exact hcancel id hq (by rw [hstate, hs]; simp)
  | canceling id =>
    obtain ⟨hs, -, -, -, hq⟩ := h
    exact hempty hq fun hd => by rw [hstate, hs] at hd; cases hd
  | answered id =>
    obtain ⟨hs, -, ⟨-, hq⟩ | ⟨-, hq | ⟨x, hq⟩⟩⟩ := h
    · exact hempty hq fun hd => by rw [hstate, hs] at hd; cases hd
    · exact hempty hq fun hd => by rw [hstate, hs] at hd; cases hd
    · exact hcancel x hq (by rw [hstate, hs]; simp)

theorem Link.drained {ph : Exchange.Phase ℕ} {w w' : SlotView Pdu} (h : Link u name w ph)
    (hidle : w.state = .idle) {hd : RequestHeader} {p : Pdu}
    (hv : u.judge name w.request = .valid hd p) (hop : hd.opcode = OperationCode.cancel.code)
    (hc : w'.client = w.client) (hs : w'.state = w.state) (hr : w'.response = w.response)
    (hq : w'.request = none) : Link u name w' ph := by
  have hfull : w.request ≠ none := by
    intro hnone
    rw [hnone] at hv
    cases hv
  cases ph with
  | idle => exact ⟨hc ▸ h.1, hs.trans h.2.1, hr.trans h.2.2.1, Or.inl hq⟩
  | sent id =>
    obtain ⟨hd', p', hv', hop', -⟩ := h.2.2.2.1
    rw [hv] at hv'
    cases hv'
    rw [hop] at hop'
    cases hop'
  | serving id =>
    rw [h.1] at hidle
    cases hidle
  | canceling id =>
    rw [h.1] at hidle
    cases hidle
  | answered id =>
    obtain ⟨-, hresp, hclient⟩ := h
    refine ⟨hs.trans hidle, by rw [hc, hr]; exact hresp, ?_⟩
    rw [hc]
    rcases hclient with ⟨-, hnone⟩ | ⟨hst, -⟩
    · exact absurd hnone hfull
    · exact Or.inr ⟨hst, Or.inl hq⟩

theorem judge_nothing {q : Option Pdu} (hq : u.judge name q = .nothing) : q = none := by
  cases q with
  | none => rfl
  | some p =>
    simp only [Setup.judge] at hq
    split at hq
    · cases hq
    · split at hq <;> cases hq

theorem Link.of_request {ph : Exchange.Phase ℕ} {w : SlotView Pdu} (h : Link u name w ph)
    (hidle : w.state = .idle) {hd : RequestHeader} {p : Pdu}
    (hv : u.judge name w.request = .valid hd p) (hop : hd.opcode = OperationCode.request.code) :
    ph = .sent hd.requestId ∧ w.client.state = .doing ∧ w.response = none ∧
      uint32 w.client.requestId = hd.requestId ∧ hd.statusPollIntervalMsec ≤ 0 := by
  have hcancel : ∀ id, ¬ HoldsCancel u name w.request id := by
    rintro id ⟨hd', p', hv', hop', -⟩
    rw [hv] at hv'
    cases hv'
    rw [hop] at hop'
    cases hop'
  have hfull : w.request ≠ none := by
    intro hnone
    rw [hnone] at hv
    cases hv
  cases ph with
  | idle =>
    obtain ⟨-, -, -, hq | ⟨id, hq⟩⟩ := h
    · exact absurd hq hfull
    · exact absurd hq (hcancel id)
  | sent id =>
    obtain ⟨hc, -, hr, ⟨hd', p', hv', -, rfl, hint⟩, hreq⟩ := h
    rw [hv] at hv'
    cases hv'
    exact ⟨rfl, hc, hr, hreq, hint⟩
  | serving id =>
    rw [h.1] at hidle
    cases hidle
  | canceling id =>
    rw [h.1] at hidle
    cases hidle
  | answered id =>
    obtain ⟨-, -, ⟨-, hq⟩ | ⟨-, hq | ⟨x, hq⟩⟩⟩ := h
    · exact absurd hq hfull
    · exact absurd hq hfull
    · exact absurd hq (hcancel x)

theorem Link.of_cancel {ph : Exchange.Phase ℕ} {w : SlotView Pdu} (h : Link u name w ph)
    (hdoing : w.state = .doing) {hd : RequestHeader} {p : Pdu}
    (hv : u.judge name w.request = .valid hd p) :
    ph = .serving hd.requestId ∧ w.response = none ∧ w.Serves hd.requestId ∧
      w.client.state = .canceling := by
  cases ph with
  | idle =>
    rw [h.2.1] at hdoing
    cases hdoing
  | sent id =>
    rw [h.2.1] at hdoing
    cases hdoing
  | serving id =>
    obtain ⟨-, hr, hserves, -, ⟨-, hq⟩ | ⟨hc, hd', p', hv', -, rfl⟩⟩ := h
    · rw [hq] at hv
      cases hv
    · rw [hv] at hv'
      cases hv'
      exact ⟨rfl, hr, hserves, hc⟩
  | canceling id =>
    rw [h.1] at hdoing
    cases hdoing
  | answered id =>
    rw [h.1] at hdoing
    cases hdoing

theorem RpcInv.read_step (h : RpcInv u name s ph) (hcur : s.protocol.currentClientId = i)
    {q : ServerProtocol Pdu} {o : Bool} {p : Exchange.Phase ℕ}
    (hok : ServerOk u.entry.maxClients q) (hgen : q.runGeneration = u.generation)
    (hname : q.server.serviceName = name) (howes : o = true → q.currentState ≠ .idle)
    (hstate : ∀ j, j ≠ i → q.server.state j = s.protocol.server.state j)
    (hlink : Link u name
      { client := s.clients i
        request := none
        response := u.box s.bus (.response i)
        state := q.server.state i
        current := if q.currentClientId = i then some q.requestHeader else none } p) :
    RpcInv u name ⟨⟨(u.get (.request i) s.bus).1, q⟩, s.clients, o⟩ (Function.update ph i p) := by
  have hi : i < u.entry.maxClients := hcur ▸ h.ok.inRange
  have hboxes : ∀ y, y.slot < u.entry.maxClients → y ≠ .request i →
      u.box (u.get (.request i) s.bus).1 y = u.box s.bus y := fun y hy hyi =>
    (h.wired.box_get (.request i) hy).trans (if_neg (Ne.symm hyi))
  have hempty : u.box (u.get (.request i) s.bus).1 (.request i) = none :=
    (h.wired.box_get (.request i) (y := .request i) hi).trans (if_pos rfl)
  have hresponse := hboxes (.response i) hi (by simp)
  refine h.server_step (h.wired.get _) hok hgen hname howes hcur
    (fun y hy hyi => hboxes y hy fun hc => hyi (by rw [hc]; rfl)) hstate ?_
  simpa only [Setup.slot, hempty, hresponse] using hlink

theorem currentState_eq (hcur : s.protocol.currentClientId = i) :
    s.protocol.currentState = (u.slot s i).state := by
  show s.protocol.server.state s.protocol.currentClientId = s.protocol.server.state i
  rw [hcur]

theorem RpcInv.quiet (h : RpcInv u name s ph) (hcur : s.protocol.currentClientId = i) (t : ℤ)
    (hquiet : u.judge name (u.box s.bus (.request i)) = .nothing ∨
      (u.slot s i).state = .idle ∧ ∃ hd p, u.judge name (u.box s.bus (.request i)) = .valid hd p ∧
        hd.opcode = OperationCode.cancel.code) :
    RpcInv u name ⟨⟨(u.get (.request i) s.bus).1, { s.protocol with lastPollTime := t }⟩, s.clients,
      s.owed⟩ ph := by
  have hlink := h.link i (hcur ▸ h.ok.inRange)
  rw [← Function.update_eq_self i ph]
  refine h.read_step hcur ⟨h.ok.maxClients, h.ok.inRange, h.ok.generation⟩ h.generation
    h.serviceName h.owes (fun _ _ => rfl) ?_
  rcases hquiet with hnothing | ⟨hidle, hd, p, hv, hop⟩
  · rw [← judge_nothing hnothing]
    exact hlink
  · exact hlink.drained hidle hv hop rfl rfl rfl rfl

theorem RpcInv.accepted (h : RpcInv u name s ph) (hcur : s.protocol.currentClientId = i)
    {hd : RequestHeader} {p : Pdu} (hv : u.judge name (u.box s.bus (.request i)) = .valid hd p)
    (hidle : s.protocol.currentState = .idle) (hop : hd.opcode = OperationCode.request.code)
    (hok : ServerOk u.entry.maxClients (acceptRequest hd p s.protocol)) (o : Bool) :
    (ph i).step (.accepted hd.requestId) = some (.serving hd.requestId) ∧
      RpcInv u name ⟨⟨(u.get (.request i) s.bus).1, acceptRequest hd p s.protocol⟩, s.clients, o⟩
        (Function.update ph i (.serving hd.requestId)) := by
  obtain ⟨hph, hclient, hnone, hid, hint⟩ := (h.link i (hcur ▸ h.ok.inRange)).of_request
    ((currentState_eq (u := u) hcur).symm.trans hidle) hv hop
  have hserver := h.ok.acceptRequest_server hidle hd p
  rw [hcur] at hserver
  have hnew : (acceptRequest hd p s.protocol).server.state i = .doing := by
    rw [hserver]
    exact Function.update_self ..
  have hturn : (acceptRequest hd p s.protocol).currentClientId = i := by
    rw [ServerProtocol.currentClientId, hserver]
    exact hcur
  refine ⟨by rw [hph]; simp [Exchange.Phase.step], h.read_step hcur hok h.generation ?_ (fun _ => ?_)
    (fun j hji => ?_) ⟨hnew, hnone, ⟨hd, if_pos hturn, rfl, hint⟩, hid, Or.inl ⟨hclient, rfl⟩⟩⟩
  · rw [hserver]
    exact h.serviceName
  · show (acceptRequest hd p s.protocol).server.state
      (acceptRequest hd p s.protocol).currentClientId ≠ .idle
    rw [hturn, hnew]
    simp
  · rw [hserver]
    exact Function.update_of_ne hji _ _

theorem RpcInv.canceled (h : RpcInv u name s ph) (hcur : s.protocol.currentClientId = i)
    {hd : RequestHeader} {p : Pdu} (hv : u.judge name (u.box s.bus (.request i)) = .valid hd p)
    (hdoing : s.protocol.currentState = .doing) {q : ServerProtocol Pdu}
    (hq : q = { s.protocol with
      server := (s.protocol.server.eventCancelService s.protocol.currentClientId).getD
        s.protocol.server })
    (hok : ServerOk u.entry.maxClients q) (o : Bool) :
    (ph i).step (.canceled hd.requestId) = some (.canceling hd.requestId) ∧
      RpcInv u name ⟨⟨(u.get (.request i) s.bus).1, q⟩, s.clients, o⟩
        (Function.update ph i (.canceling hd.requestId)) := by
  obtain ⟨hph, hnone, hserves, hclient⟩ := (h.link i (hcur ▸ h.ok.inRange)).of_cancel
    ((currentState_eq (u := u) hcur).symm.trans hdoing) hv
  rw [h.ok.cancel_server hdoing, hcur] at hq
  subst hq
  refine ⟨by rw [hph]; simp [Exchange.Phase.step], h.read_step hcur hok h.generation h.serviceName
    (fun _ => ?_) (fun j hji => Function.update_of_ne hji _ _)
    ⟨Function.update_self .., hnone, hserves, hclient, rfl⟩⟩
  show Function.update s.protocol.server.state i .canceling s.protocol.currentClientId ≠ .idle
  rw [hcur, Function.update_self]
  simp

theorem RpcInv.poll (h : RpcInv u name s ph) (time : ℤ) :
    Advance u name (u.rpcStep s (.poll time)) ph (u.rpcEvents s (.poll time)) := by
  obtain ⟨i, hcur⟩ : ∃ i, s.protocol.currentClientId = i := ⟨_, rfl⟩
  have hi : i < u.entry.maxClients := hcur ▸ h.ok.inRange
  have hrecv : recvRequest u.conv (u.pollView time i s.bus) s.protocol s.protocol.currentClientId =
      u.judge name (u.box s.bus (.request i)) := by
    rw [hcur, h.wired.recvRequest_eq time i h.ok.maxClients hi, h.serviceName]
  have hreport := (h.link i hi).no_report (currentState_eq hcur) (if_pos hcur) hrecv
  have hpoll := u.poll_eq (s := s.toServiceState) h.generation time
  have hok := h.ok.pollCurrent u.conv (u.pollView time i s.bus)
  have hout := pollCurrent_outcome u.conv (u.pollView time i s.bus) s.protocol
  simp only [hcur] at hpoll
  simp only [Setup.rpcStep, Setup.rpcEvents, Setup.turn_eq h.generation, hcur, hpoll]
  generalize Service.pollCurrent u.conv (u.pollView time i s.bus) s.protocol = r at hout hok
  cases hout with
  | reported status code t hr =>
    rw [hreport] at hr
    cases hr
  | quiet t hr hquiet =>
    rw [hrecv, currentState_eq (u := u) hcur] at hquiet
    have howed : (s.owed || ServerEvent.none == ServerEvent.requestIn) = s.owed := Bool.or_false _
    rw [howed]
    exact .silent (h.quiet hcur t hquiet)
  | accepted hd p hv hst hop =>
    rw [hrecv] at hv
    obtain ⟨hstep, hnext⟩ := h.accepted hcur hv hst hop hok _
    simp only [waitingId_eq h.wired hi hv]
    exact .shown i _ _ hstep hnext
  | canceled hd p hv hst hop =>
    rw [hrecv] at hv
    obtain ⟨hstep, hnext⟩ := h.canceled hcur hv hst rfl hok _
    simp only [waitingId_eq h.wired hi hv]
    exact .shown i _ _ hstep hnext

theorem Link.served {ph : Exchange.Phase ℕ} {w : SlotView Pdu} (h : Link u name w ph)
    (hbusy : w.state ≠ .idle) :
    ∃ id, ph.step (.replied id) = some (.answered id) ∧ w.response = none ∧ w.Serves id ∧
      (w.client.state = .doing ∧ w.request = none ∨
        w.client.state = .canceling ∧ (w.request = none ∨ ∃ x, HoldsCancel u name w.request x)) := by
  cases ph with
  | idle => exact absurd h.2.1 hbusy
  | sent id => exact absurd h.2.1 hbusy
  | serving id =>
    obtain ⟨-, hr, hserves, -, hclient | ⟨hc, hq⟩⟩ := h
    · exact ⟨id, by simp [Exchange.Phase.step], hr, hserves, Or.inl hclient⟩
    · exact ⟨id, by simp [Exchange.Phase.step], hr, hserves, Or.inr ⟨hc, Or.inr ⟨id, hq⟩⟩⟩
  | canceling id =>
    obtain ⟨-, hr, hserves, hc, hq⟩ := h
    exact ⟨id, by simp [Exchange.Phase.step], hr, hserves, Or.inr ⟨hc, Or.inl hq⟩⟩
  | answered id => exact absurd h.1 hbusy

/-- The client of the slot takes the response that the server makes for it. -/
theorem validate_own {c : ClientProtocol Pdu} {q : ServerProtocol Pdu} {v : ServerView Pdu}
    (hk : u.Knows name q.currentClientId c) (hname : q.server.serviceName = name)
    (hv : v.entry = u.entry) (status : ServiceStatus) (code : ResultCode) :
    validateResponseHeader c.client (setResponseHeader v q status code) = true := by
  have hcode : code.code < resultCodeNum := by cases code <;> decide
  simp [validateResponseHeader, setResponseHeader, hk.serviceName, hk.clientName, hname, hv, hcode]

theorem RpcInv.reply_eq (h : RpcInv u name s ph) (hcur : s.protocol.currentClientId = i)
    (hbusy : s.protocol.server.state i ≠ .idle) (hnone : u.box s.bus (.response i) = none) (p : Pdu) :
    replyToCurrentRequest u.generation (u.view 0 (fun _ => none) s.bus) p s.protocol =
      ⟨{ s.protocol with server := { s.protocol.server with
          currentClientId := Turn.next s.protocol.server.maxClients i
          state := Function.update s.protocol.server.state i .idle } }, some ⟨i, p, true⟩⟩ := by
  have hi : i < u.entry.maxClients := hcur ▸ h.ok.inRange
  have hcan : canReply u.generation s.protocol = true := by
    have hgen := (h.ok.generation i hbusy).trans h.generation
    have hstate : s.protocol.currentState = s.protocol.server.state i := currentState_eq (u := u) hcur
    cases hst : s.protocol.server.state i with
    | idle => exact absurd hst hbusy
    | doing => simp [canReply, hgen, hstate, hst]
    | canceling => simp [canReply, hgen, hstate, hst]
  have hput : canPut (u.view 0 (fun _ => none) s.bus) s.protocol = true := by
    rw [h.ok.canPut_eq]
    show u.accepts (.response s.protocol.currentClientId) s.bus = true
    rw [hcur, Setup.accepts_eq (x := .response i) hi]
    exact Option.isNone_iff_eq_none.mpr hnone
  have hprotocol := reply_protocol (u.view 0 (fun _ => none) s.bus) p s.protocol
  have hsent := reply_sent (u.view 0 (fun _ => none) s.bus) p s.protocol
  rw [hput, hcur] at hsent
  rw [hput, if_pos rfl, hcur] at hprotocol
  rw [replyToCurrentRequest, if_pos hcan, ← hprotocol, ← hsent]

theorem RpcInv.putResponse (h : RpcInv u name s ph) (howed : s.owed = true) {p : Pdu}
    {code : ResultCode} (hp : u.conv.response.pdu2cpp p =
      some (setResponseHeader (u.view 0 (fun _ => none) s.bus) s.protocol .done code)) :
    Advance u name (u.rpcStep s (.putResponse p)) ph (u.rpcEvents s (.putResponse p)) := by
  obtain ⟨i, hcur⟩ : ∃ i, s.protocol.currentClientId = i := ⟨_, rfl⟩
  have hi : i < u.entry.maxClients := hcur ▸ h.ok.inRange
  have hbusy : s.protocol.server.state i ≠ .idle := by
    have hstate := h.owes howed
    rwa [currentState_eq (u := u) hcur] at hstate
  obtain ⟨id, hstep, hnone, ⟨hd, hheader, rfl, -⟩, hclient⟩ := (h.link i hi).served hbusy
  obtain rfl : s.protocol.requestHeader = hd := by simpa [Setup.slot, hcur] using hheader
  have hreply := h.reply_eq hcur hbusy hnone p
  have hok := h.ok.replyToCurrentRequest u.generation (u.view 0 (fun _ => none) s.bus) p
  rw [hreply] at hok
  simp only [Setup.rpcStep, Setup.rpcEvents, Setup.putResponse, hreply, Setup.deliver, if_true,
    Replied.returned, Option.any_some, Bool.not_true, Bool.and_false, hp, Option.map_some,
    Option.getD_some]
  refine .shown i _ (.answered s.protocol.requestHeader.requestId) hstep ?_
  refine h.server_step (h.wired.put _ _) hok h.generation h.serviceName (fun hc => by cases hc) hcur
    (fun y hy hyi => (h.wired.box_put _ p hy).trans (if_neg fun hc => hyi (by rw [← hc.1]; rfl)))
    (fun j hji => Function.update_of_ne hji _ _) ⟨Function.update_self .., ?_, ?_⟩
  · have hbox : u.box (u.put (.response i) p s.bus).1 (.response i) = some p :=
      (h.wired.box_put (.response i) p (y := .response i) hi).trans (if_pos ⟨rfl, hnone⟩)
    exact ⟨_, p, hbox, hp, validate_own (hcur ▸ h.knows i hi) h.serviceName rfl _ _, rfl, rfl⟩
  · have hbox : u.box (u.put (.response i) p s.bus).1 (.request i) = u.box s.bus (.request i) :=
      (h.wired.box_put (.response i) p (y := .request i) hi).trans (if_neg fun hc => by cases hc.1)
    simpa only [Setup.slot, hbox] using hclient

end Server

theorem RpcInv.step {s : RpcState Pdu} {ph : ℕ → Exchange.Phase ℕ} (h : RpcInv u name s ph)
    (hr : u.Registered name) {a : RpcAction Pdu} (hl : Legal u s a) :
    Advance u name (u.rpcStep s a) ph (u.rpcEvents s a) := by
  cases a with
  | request j time timeoutMsec p =>
    obtain ⟨hj, hidle, interval, hint, hp⟩ := hl
    exact h.request hr hj hidle hint hp
  | cancelRequest j => exact h.cancelRequest hr hl
  | pollClient j time => exact h.pollClient hl time
  | poll time => exact h.poll time
  | putResponse p =>
    obtain ⟨howed, code, hp⟩ := hl
    exact h.putResponse howed hp

/-- The events of every slot lead to its phase. -/
def Tracks (h : List RpcEvent) (ph : ℕ → Exchange.Phase ℕ) : Prop :=
  ∀ j, Exchange.track (slotEvents j h) = some (ph j)

theorem slotEvents_concat_self (i : ℕ) (h : List RpcEvent) (e : Exchange.Event ℕ) :
    slotEvents i (h ++ [⟨i, e⟩]) = slotEvents i h ++ [e] := by
  simp [slotEvents]

theorem slotEvents_concat_other {i j : ℕ} (hij : i ≠ j) (h : List RpcEvent) (e : Exchange.Event ℕ) :
    slotEvents j (h ++ [⟨i, e⟩]) = slotEvents j h := by
  simp [slotEvents, hij]

theorem Advance.tracks {s' : RpcState Pdu} {ph : ℕ → Exchange.Phase ℕ} {es h : List RpcEvent}
    (ha : Advance u name s' ph es) (ht : Tracks h ph) :
    ∃ ph', RpcInv u name s' ph' ∧ Tracks (h ++ es) ph' := by
  cases ha with
  | silent hinv =>
    rw [List.append_nil]
    exact ⟨ph, hinv, ht⟩
  | shown i e p hstep hinv =>
    refine ⟨_, hinv, fun j => ?_⟩
    by_cases hij : i = j
    · subst hij
      rw [slotEvents_concat_self, Exchange.track_concat, ht i, Option.bind_some, hstep,
        Function.update_self]
    · rw [slotEvents_concat_other hij, ht j, Function.update_of_ne (Ne.symm hij)]

theorem Setup.Fresh.inv {s : RpcState Pdu} (hf : u.Fresh name s) (hN : 0 < u.entry.maxClients) :
    RpcInv u name s fun _ => .idle := by
  refine ⟨hf.wired, ?_, ?_, ?_, fun j hj => (hf.clients j hj).1, fun j hj => ?_, fun howed => ?_⟩
  · rw [hf.protocol]
    exact initial_ok name hN u.generation
  · rw [hf.protocol]
    rfl
  · rw [hf.protocol]
    rfl
  · have hstate : s.protocol.server.state j = .idle := by
      rw [hf.protocol]
      rfl
    exact ⟨(hf.clients j hj).2, hstate, hf.empty (.response j) hj, Or.inl (hf.empty (.request j) hj)⟩
  · rw [hf.owed] at howed
    cases howed

theorem run_tracks {s : RpcState Pdu} (hr : u.Registered name) (hN : 0 < u.entry.maxClients)
    (hf : u.Fresh name s) {as : List (RpcAction Pdu)} (hl : Along u.rpcStep (Legal u) s as) :
    ∃ ph, RpcInv u name (run u.rpcStep s as) ph ∧ Tracks (history u.rpcStep u.rpcEvents s as) ph := by
  induction as using List.reverseRecOn with
  | nil => exact ⟨_, hf.inv hN, fun _ => rfl⟩
  | append_singleton as a ih =>
    rw [along_append] at hl
    obtain ⟨ph, hinv, ht⟩ := ih hl.1
    rw [run_concat, history_concat]
    exact (hinv.step hr hl.2.1).tracks ht

/-- What shows of a slot is one round after another and the beginning of one more: a request is
taken, perhaps canceled while it is served, answered, and the response comes back to the slot,
all with the id of the request. The client is IDLE exactly when no round has begun. -/
theorem rpc_exactly_once {s : RpcState Pdu} (hr : u.Registered name) (hN : 0 < u.entry.maxClients)
    (hf : u.Fresh name s) {as : List (RpcAction Pdu)} (hl : Along u.rpcStep (Legal u) s as) {j : ℕ}
    (hj : j < u.entry.maxClients) :
    ∃ (rounds : List (ℕ × Bool)) (rest : List (Exchange.Event ℕ)) (ph : Exchange.Phase ℕ),
      slotEvents j (history u.rpcStep u.rpcEvents s as) =
        rounds.flatMap (fun r => Exchange.round r.1 r.2) ++ rest ∧
      Exchange.Begun ph rest ∧ (((run u.rpcStep s as).clients j).state = .idle ↔ rest = []) := by
  obtain ⟨ph, hinv, ht⟩ := run_tracks hr hN hf hl
  obtain ⟨rounds, rest, hrounds, hbegun⟩ := Exchange.rounds_of_track (ht j)
  refine ⟨rounds, rest, ph j, hrounds, hbegun, ?_⟩
  rw [hbegun.eq_nil_iff]
  exact (hinv.link j hj).client_idle_iff

theorem legal_of_getRequestBuffer {s : RpcState Pdu} {j : ℕ} (hr : u.Registered name)
    (hj : j < u.entry.maxClients) (hk : u.Knows name j (s.clients j))
    (hidle : (s.clients j).state = .idle) {interval : ℤ} (hint : interval ≤ 0) {p : Pdu}
    (hbuf : getRequestBuffer u.conv .request interval (s.clients j) = some p) (time timeoutMsec : ℤ) :
    Legal u s (.request j time timeoutMsec p) :=
  ⟨hj, hidle, interval, hint, hr.roundTrip _ p hk.serviceName ⟨j, hj, hk.clientName⟩ hbuf⟩

theorem legal_of_getResponseBuffer {s : RpcState Pdu} (howed : s.owed = true) (code : ResultCode)
    {p : Pdu} (hbuf : getResponseBuffer u.conv (u.view 0 (fun _ => none) s.bus) .done code
      s.protocol = some p)
    (hround : ∀ h, u.conv.response.cpp2pdu h = some p → u.conv.response.pdu2cpp p = some h) :
    Legal u s (.putResponse p) :=
  ⟨howed, code, hround _ hbuf⟩

/-- The client of slot `j` before its first request. -/
def plainClient (N j : ℕ) : ClientProtocol PlainPacket where
  client := ⟨[120], (plainEntry N).getClientName j, .idle⟩
  requestHeader := .empty
  responseHeader := .empty
  responseUserBuffer := none
  percentage := 0
  requestId := 0
  timeoutMsec := -1
  heartbeatConfirmedTime := 0
  lastPollTime := 0
  runGeneration := 0

def plainSession (N : ℕ) : RpcState PlainPacket where
  bus := plainBus N
  protocol := .initial [120] N 0
  clients := plainClient N
  owed := false

theorem plainSetup_registered (N : ℕ) : (plainSetup N).Registered [120] := by
  refine ⟨fun _ _ => rfl, fun h p _ _ henc => ?_⟩
  cases henc
  rfl

theorem plainSession_fresh {N : ℕ} (hN : 2 * N ≤ pduChannelMax) :
    (plainSetup N).Fresh [120] (plainSession N) :=
  ⟨plainBus_wired hN, fun _ hx => plainBus_box hN hx, rfl, rfl, fun _ _ => ⟨⟨rfl, rfl, rfl⟩, rfl⟩⟩

/-- Slot 0 asks and cancels while the server is busy with it; the response ends both. -/
theorem rpc_exactly_once_canceled :
    let u := plainSetup 2
    let as : List (RpcAction PlainPacket) :=
      [.request 0 0 0 (.inl (setRequestHeader .request 0 (plainClient 2 0))), .poll 0,
        .cancelRequest 0, .poll 0,
        .putResponse (.inr ⟨0, [120], (plainEntry 2).getClientName 0, 3, 0, 0⟩), .pollClient 0 0]
    slotEvents 0 (history u.rpcStep u.rpcEvents (plainSession 2) as) =
        [.requested 0, .accepted 0, .canceled 0, .replied 0, .finished 0] ∧
      ∃ (rounds : List (ℕ × Bool)) (rest : List (Exchange.Event ℕ)) (ph : Exchange.Phase ℕ),
        slotEvents 0 (history u.rpcStep u.rpcEvents (plainSession 2) as) =
          rounds.flatMap (fun r => Exchange.round r.1 r.2) ++ rest ∧
        Exchange.Begun ph rest ∧
          (((run u.rpcStep (plainSession 2) as).clients 0).state = .idle ↔ rest = []) := by
  have hr := plainSetup_registered 2
  refine ⟨by decide, rpc_exactly_once hr (by decide) (plainSession_fresh (by decide)) ?_ (by decide)⟩
  refine ⟨?_, trivial, Nat.zero_lt_two, trivial, ?_, Nat.zero_lt_two, trivial⟩
  · exact legal_of_getRequestBuffer hr Nat.zero_lt_two ⟨rfl, rfl, rfl⟩ rfl (Int.le_refl 0) rfl 0 0
  · refine legal_of_getResponseBuffer (by decide) .ok (by decide) fun h hbuf => ?_
    cases hbuf
    rfl

end Service
end HakoniwaCorePro
