import HakoniwaCorePro.ChannelReceivers
import HakoniwaCorePro.ServiceBus
import HakoniwaCorePro.SetupRetry

/-!
# How a service comes by its channels

Servers and clients register from any process and in any order, also while other services are
at work. The channels of a service have their one receiver each as long as the service is created
once and its channels are left to its own parties.
-/

namespace HakoniwaCorePro
namespace Service

open RecvEvent Runs

/-- What all processes are given: the configured services, and the real channel that the core
has for a name and a channel of it. -/
structure Plan where
  config : ServiceConfig
  nonempty : config.services ≠ []
  core : Name → ℕ → Option ChannelId
  core_inj : ∀ {n n' k k' c}, core n k = some c → core n' k' = some c → n = n' ∧ k = k'
  core_lt : ∀ {n k c}, core n k = some c → c < pduChannelMax

/-- The channels of the configured services. -/
def Plan.Own (d : Plan) (c : ChannelId) : Prop :=
  ∃ s ∈ d.config.services, ∃ k, d.core (cString s.name) k = some c

/-- Which services have been asked for, and which processes were given a service or a slot of
it last. -/
structure Holders where
  created : List Name
  server : Name → Option Pid
  client : Name → ℕ → Option Pid

def Holders.nobody : Holders := ⟨[], fun _ => none, fun _ _ => none⟩

/-- A call that has returned `ids`. -/
def Holders.after (o : Holders) (ids : ClientIds) : Call → Holders
  | .createService pid _ name =>
    { o with
      created := name.bytes :: o.created
      server :=
        if ids.serviceId.isSome then Function.update o.server name.bytes (some pid) else o.server }
  | .createServiceClient pid _ name _ =>
    match ids.serviceId, ids.clientId with
    | some _, some k =>
      { o with
        client := Function.update o.client name.bytes
          (Function.update (o.client name.bytes) k (some pid)) }
    | _, _ => o

/-- The tables and channels of all processes, with their holders. -/
structure Deployment (Pdu : Type) where
  session : Session Pdu
  holders : Holders

section

variable {Pdu : Type} (d : Plan)

def Plan.services : Pid → List ServiceDef := fun _ => d.config.services

def Plan.step (s : Deployment Pdu) (a : SessionAction Pdu) : Deployment Pdu where
  session := sessionStep d.services s.session a
  holders :=
    match a with
    | .call x => s.holders.after (answer d.services s.session.world x) x
    | _ => s.holders

def Deployment.start (data : ChannelId → Pdu) : Deployment Pdu := ⟨⟨World.start, data⟩, .nobody⟩

/-- A caller may not know all channels yet, but none wrongly. A configured service is asked for
once, and a client's name leaves room for its zero byte. -/
def Plan.Proper (o : Holders) : Call → Prop
  | .createService _ real name =>
    (∀ n k c, real n k = some c → d.core n k = some c) ∧
      (∃ s ∈ d.config.services, cString s.name = name.bytes) ∧ name.bytes ∉ o.created
  | .createServiceClient _ real _ client =>
    (∀ n k c, real n k = some c → d.core n k = some c) ∧ client.bytes.length < clientNamelenMax

/-- The channels of services are left to their servers and clients: nobody else registers for
one of them, or closes a gate of theirs. -/
def Plan.Legal (s : Deployment Pdu) : SessionAction Pdu → Prop
  | .bus a => a.Spares d.Own s.session.world.events
  | .restart _ => True
  | .register _ real _ => ∀ c, real = some c → ¬ d.Own c
  | .call a => d.Proper s.holders a
  | .getResponse .. => True

/-- The receivers of a service's channels: none before its server and the client of a slot are
there, and from then on these two. -/
structure Plan.Wiring (o : Holders) (t : RecvEvent.Table) (name : Name) (e : ServiceEntry) :
    Prop where
  fresh : name ∉ o.created → o.server name = none ∧
    ∀ k c, d.core name (serverChannelId k) = some c → t.Unwatched c
  served : ∀ q, o.server name = some q → ∀ k < e.maxClients, ∃ c full,
    d.core name (serverChannelId k) = some c ∧
      t.Serves (e.clientChannelMap k).requestRecvEventId q c full
  free : ∀ k, e.nextClientId ≤ k → ∀ c, d.core name (clientChannelId k) = some c → t.Unwatched c
  taken : ∀ k < e.nextClientId, (e.clientChannelMap k).enabled = true ∧ ∃ p c id full,
    o.client name k = some p ∧ d.core name (clientChannelId k) = some c ∧ t.Serves id p c full

def NameIndex.Agrees (ix : NameIndex) (t : ServiceTable) : Prop :=
  ∀ name i, ix name = some i → rebuildServiceNameIndexes t name = some i

structure Plan.Loaded (t : ServiceTable) : Prop where
  ok : t.Ok
  entryNum : t.entryNum = d.config.services.length
  found : ∀ s ∈ d.config.services, (rebuildServiceNameIndexes t (cString s.name)).isSome
  named : ∀ name i, rebuildServiceNameIndexes t name = some i →
    ∃ s ∈ d.config.services, cString s.name = name

/-- What a caller's tables are worth once the services are loaded. -/
structure Plan.Ready (o : Holders) (s : Tables) : Prop where
  loaded : d.Loaded s.services
  index : s.index.Agrees s.services
  wiring : ∀ name i, rebuildServiceNameIndexes s.services name = some i →
    d.Wiring o s.events name (s.services.entries i)

end

theorem EntryMove.lookup {e e' : ServiceEntry} (h : EntryMove e e') :
    e'.enabled = e.enabled ∧ e'.serviceName = e.serviceName := by
  cases h <;> exact ⟨rfl, rfl⟩

theorem TableMove.rebuild {t t' : ServiceTable} (h : TableMove t t') :
    rebuildServiceNameIndexes t' = rebuildServiceNameIndexes t := by
  funext name
  have hentry := fun k => (h.entries k).lookup
  simp only [rebuildServiceNameIndexes, h.entryNum, fun k => (hentry k).1, fun k => (hentry k).2]

theorem getServiceId_agrees {ix : NameIndex} {t : ServiceTable} (h : ix.Agrees t) (name : Name) :
    (getServiceId name t ix).1.Agrees t ∧
      (getServiceId name t ix).2 = rebuildServiceNameIndexes t name := by
  cases hix : ix name with
  | some i =>
    rw [getServiceId_of_some hix]
    exact ⟨h, (h name i hix).symm⟩
  | none =>
    rw [getServiceId_of_none hix]
    exact ⟨fun _ _ hi => hi, rfl⟩

section Tables

variable {d : Plan} {o o' : Holders} {s u : Tables} {t t' : RecvEvent.Table} {name : Name}
  {e e' : ServiceEntry}

theorem Plan.Loaded.move {t t' : ServiceTable} (h : d.Loaded t) (hm : TableMove t t') :
    d.Loaded t' := by
  refine ⟨hm.ok h.ok, hm.entryNum.trans h.entryNum, ?_, ?_⟩
  · rw [hm.rebuild]
    exact h.found
  · rw [hm.rebuild]
    exact h.named

theorem Plan.Loaded.own {t : ServiceTable} (h : d.Loaded t) {i : ℕ}
    (hi : rebuildServiceNameIndexes t name = some i) {k : ℕ} {c : ChannelId}
    (hc : d.core name k = some c) : d.Own c := by
  obtain ⟨s, hs, rfl⟩ := h.named name i hi
  exact ⟨s, hs, k, hc⟩

theorem Plan.ready_load (hok : s.services.Ok) (hfree : ∀ c, d.Own c → s.events.Unwatched c) :
    d.Ready .nobody (s.load d.config.services) := by
  have hentry : ∀ {i : ℕ} {x : ServiceDef}, d.config.services[i]? = some x →
      (setServiceData d.config.services s.services).entries i = (s.services.entries i).fill x :=
    fun hx => setServiceData_fill d.config.names_fit s.services hx
  have hlisted : ∀ {name : Name} {i : ℕ},
      rebuildServiceNameIndexes (setServiceData d.config.services s.services) name = some i →
      ∃ x ∈ d.config.services, cString x.name = name ∧
        (setServiceData d.config.services s.services).entries i =
          (s.services.entries i).fill x := by
    intro name i hi
    obtain ⟨hlt, -, hname⟩ := rebuild_carries hi
    have hx := List.getElem?_eq_getElem (show i < d.config.services.length from hlt)
    have hfill := hentry hx
    refine ⟨_, List.mem_of_getElem? hx, ?_, hfill⟩
    rw [← hname, hfill]
    rfl
  have hloaded : d.Loaded (setServiceData d.config.services s.services) := by
    refine ⟨setServiceData_ok d.config.names_fit hok, rfl, fun x hx => ?_, fun name i hi => ?_⟩
    · obtain ⟨n, hn, hget⟩ := List.getElem_of_mem hx
      have hfill := hentry (x := x) (by rw [List.getElem?_eq_getElem hn, hget])
      rw [Option.isSome_iff_ne_none]
      intro hnone
      refine (rebuild_none_iff _ _).mp hnone n ⟨hn, ?_, ?_⟩
      · rw [hfill]
        rfl
      · rw [hfill]
        rfl
    · obtain ⟨x, hx, hname, -⟩ := hlisted hi
      exact ⟨x, hx, hname⟩
  refine ⟨hloaded, fun _ _ hi => hi, fun name i hi => ?_⟩
  have hfree' : ∀ k c, d.core name k = some c → s.events.Unwatched c :=
    fun k c hc => hfree c (hloaded.own hi hc)
  obtain ⟨x, hx, hname, hfill⟩ := hlisted hi
  have hnext : ((s.load d.config.services).services.entries i).nextClientId = 0 := by
    rw [show (s.load d.config.services).services.entries i = _ from hfill]
    rfl
  exact ⟨fun _ => ⟨rfl, fun k c hc => hfree' _ c hc⟩,
    fun q hq => absurd hq (by simp [Holders.nobody]),
    fun k _ c hc => hfree' _ c hc, fun k hk => absurd hk (by omega)⟩

theorem Plan.Wiring.apart (h : d.Wiring o t name e) {own : ChannelId → Prop} (ht : t.Apart t' own)
    (hown : ∀ k c, d.core name k = some c → ¬ own c)
    (hcreated : name ∈ o.created → name ∈ o'.created) (hserver : o'.server name = o.server name)
    (hclient : o'.client name = o.client name) : d.Wiring o' t' name e := by
  refine ⟨fun hnew => ?_, fun q hq k hk => ?_, fun k hk c hc => ?_, fun k hk => ?_⟩
  · obtain ⟨hnone, hun⟩ := h.fresh fun hold => hnew (hcreated hold)
    exact ⟨hserver.trans hnone, fun k c hc => ht.unwatched c (hown _ c hc) (hun k c hc)⟩
  · obtain ⟨c, full, hc, hs⟩ := h.served q (hserver ▸ hq) k hk
    obtain ⟨full', hs'⟩ := ht.serves c (hown _ c hc) _ _ _ hs
    exact ⟨c, full', hc, hs'⟩
  · exact ht.unwatched c (hown _ c hc) (h.free k hk c hc)
  · obtain ⟨hen, p, c, id, full, hp, hc, hs⟩ := h.taken k hk
    obtain ⟨full', hs'⟩ := ht.serves c (hown _ c hc) _ _ _ hs
    exact ⟨hen, p, c, id, full', by rw [hclient, hp], hc, hs'⟩

/-- A call that changes the entry `i` of the service `name` only, and no receiver outside of its
channels, leaves the tables ready if it leaves that service so. -/
theorem Plan.Ready.change (h : d.Ready o s) {i : ℕ}
    (hi : rebuildServiceNameIndexes s.services name = some i)
    (hmove : TableMove s.services u.services) (hindex : u.index.Agrees s.services)
    (hentries : ∀ k, k ≠ i → u.services.entries k = s.services.entries k)
    {own : ChannelId → Prop} (hevents : s.events.Apart u.events own)
    (hown : ∀ c, own c → ∃ k, d.core name k = some c)
    (hcreated : ∀ n ∈ o.created, n ∈ o'.created)
    (hserver : ∀ n, n ≠ name → o'.server n = o.server n)
    (hclient : ∀ n, n ≠ name → o'.client n = o.client n)
    (hself : d.Wiring o' u.events name (u.services.entries i)) : d.Ready o' u := by
  refine ⟨h.loaded.move hmove, ?_, fun n k hk => ?_⟩
  · intro n k hk
    rw [hmove.rebuild]
    exact hindex n k hk
  · rw [hmove.rebuild] at hk
    by_cases hn : n = name
    · subst hn
      rw [hi, Option.some.injEq] at hk
      rwa [← hk]
    · have hki : k ≠ i := by
        rintro rfl
        obtain ⟨-, -, hname⟩ := rebuild_carries hi
        obtain ⟨-, -, hname'⟩ := rebuild_carries hk
        exact hn (hname'.symm.trans hname)
      rw [hentries k hki]
      refine (h.wiring n k hk).apart hevents ?_ (hcreated n) (hserver n hn) (hclient n hn)
      intro j c hc hmine
      obtain ⟨j', hc'⟩ := hown c hmine
      exact hn (d.core_inj hc hc').1

end Tables

theorem serverChannelId_inj {j k : ℕ} (h : serverChannelId j = serverChannelId k) : j = k :=
  Nat.eq_of_mul_eq_mul_left Nat.two_pos h

theorem clientChannelId_inj {j k : ℕ} (h : clientChannelId j = clientChannelId k) : j = k :=
  serverChannelId_inj (Nat.succ_inj.mp h)

theorem serverChannelId_ne (j k : ℕ) : serverChannelId j ≠ clientChannelId k := by
  simp only [serverChannelId, clientChannelId]
  omega

section Slots

variable (pid : Pid) (real : ℕ → Option ChannelId)

theorem registerSlots_apart (js : List ℕ) (t : RecvEvent.Table) (m : ℕ → ClientChannelMap) :
    t.Apart (registerSlots pid real js t m).1
      fun c => ∃ j ∈ js, real (serverChannelId j) = some c := by
  induction js generalizing t m with
  | nil => exact .refl t _
  | cons j js ih =>
    have hone := register_apart pid (real (serverChannelId j)) none t
    simp only [registerSlots]
    split
    · next t' hreg =>
      rw [hreg] at hone
      exact hone.mono fun c hc => ⟨j, by simp, hc⟩
    · next t' id hreg =>
      rw [hreg] at hone
      refine (hone.trans (ih t' (Function.update m j ((m j).watched j id)))).mono fun c hc => ?_
      rcases hc with hc | ⟨k, hk, hc⟩
      · exact ⟨j, by simp, hc⟩
      · exact ⟨k, by simp [hk], hc⟩

theorem registerSlots_other {js : List ℕ} {j : ℕ} (hj : j ∉ js) (t : RecvEvent.Table)
    (m : ℕ → ClientChannelMap) : (registerSlots pid real js t m).2.1 j = m j := by
  induction js generalizing t m with
  | nil => rfl
  | cons i js ih =>
    obtain ⟨hji, hj⟩ := not_or.mp (List.mem_cons.not.mp hj)
    simp only [registerSlots]
    split
    · rfl
    · rw [ih hj, Function.update_of_ne hji]

theorem registerSlots_serves (js : List ℕ) (hjs : js.Nodup)
    (hinj : ∀ i ∈ js, ∀ j ∈ js, ∀ c, real (serverChannelId i) = some c →
      real (serverChannelId j) = some c → i = j)
    {t : RecvEvent.Table} (hnew : ∀ j ∈ js, ∀ c, real (serverChannelId j) = some c →
      t.Unwatched c ∧ c < pduChannelMax) {m : ℕ → ClientChannelMap}
    (hok : (registerSlots pid real js t m).2.2 = true) :
    ∀ j ∈ js, ∃ c full, real (serverChannelId j) = some c ∧
      (registerSlots pid real js t m).1.Serves
        ((registerSlots pid real js t m).2.1 j).requestRecvEventId pid c full := by
  induction js generalizing t m with
  | nil => simp
  | cons i js ih =>
    obtain ⟨hi, hjs⟩ := List.nodup_cons.mp hjs
    by_cases hrefused : real (serverChannelId i) = none ∨ recvEventMax ≤ t.entryNum
    · simp [registerSlots, register_refused hrefused] at hok
    · obtain ⟨hreal, hroom⟩ := not_or.mp hrefused
      obtain ⟨c, hc⟩ := Option.ne_none_iff_exists'.mp hreal
      have hrest := registerSlots_apart pid real js ⟨t.entries ++ [newEntry pid c none]⟩
        (Function.update m i ((m i).watched i t.entryNum))
      have hslot := registerSlots_other pid real hi ⟨t.entries ++ [newEntry pid c none]⟩
        (Function.update m i ((m i).watched i t.entryNum))
      have hapart : ∀ j ∈ js, real (serverChannelId j) ≠ some c := fun j hj hcj =>
        hi (hinj i (by simp) j (by simp [hj]) c hc hcj ▸ hj)
      simp only [registerSlots, hc, register_accepted (Nat.not_le.mp hroom)] at hok ⊢
      intro j hj
      rcases List.mem_cons.mp hj with rfl | hj
      · obtain ⟨hun, hlt⟩ := hnew j (by simp) c hc
        obtain ⟨full, hs⟩ := hrest.serves c (by rintro ⟨k, hk, hck⟩; exact hapart k hk hck) _ _ _
          (hun.append_serves hlt pid)
        refine ⟨c, full, hc, ?_⟩
        rw [hslot, Function.update_self]
        exact hs
      · refine ih hjs ?_ ?_ hok j hj
        · exact fun a ha b hb => hinj a (by simp [ha]) b (by simp [hb])
        · intro k hk c' hc'
          obtain ⟨hun, hlt⟩ := hnew k (by simp [hk]) c' hc'
          have hne : c ≠ c' := by
            rintro rfl
            exact hapart k hk hc'
          exact ⟨hun.append (newEntry_watches hne pid none), hlt⟩

end Slots

section Calls

variable {d : Plan} {o : Holders} {s : Tables} {pid : Pid} {real : Name → ℕ → Option ChannelId}

theorem Plan.Wiring.serve {t t' : RecvEvent.Table} {name : Name} {e : ServiceEntry}
    (h : d.Wiring o t name e) {own : ChannelId → Prop} (ht : t.Apart t' own)
    (hown : ∀ k c, d.core name (clientChannelId k) = some c → ¬ own c)
    {m : ℕ → ClientChannelMap}
    (hm : ∀ j, m j = e.clientChannelMap j ∨ ∃ id, m j = (e.clientChannelMap j).watched j id)
    {server : Name → Option Pid}
    (hserver : ∀ q, server name = some q → ∀ k < e.maxClients, ∃ c full,
      d.core name (serverChannelId k) = some c ∧ t'.Serves (m k).requestRecvEventId q c full) :
    d.Wiring { o with created := name :: o.created, server := server } t' name
      { e with clientChannelMap := m } := by
  refine ⟨fun hold => absurd List.mem_cons_self hold, hserver, fun k hk c hc => ?_,
    fun k hk => ?_⟩
  · exact ht.unwatched c (hown k c hc) (h.free k hk c hc)
  · obtain ⟨hen, p, c, id, full, hp, hc, hs⟩ := h.taken k hk
    obtain ⟨full', hs'⟩ := ht.serves c (hown k c hc) _ _ _ hs
    have hslot : (m k).enabled = (e.clientChannelMap k).enabled := by
      rcases hm k with hsame | ⟨id, hsame⟩
      · rw [hsame]
      · rw [hsame]
        rfl
    exact ⟨hslot.trans hen, p, c, id, full', hp, hc, hs'⟩

theorem Plan.Ready.createServiceSlots (h : d.Ready o s) {name : CName} {i : ℕ}
    (hi : rebuildServiceNameIndexes s.services name.bytes = some i)
    (hreal : ∀ n k c, real n k = some c → d.core n k = some c) (hnew : name.bytes ∉ o.created) :
    d.Ready (o.after ⟨(Service.createServiceSlots pid (real name.bytes) i s).2, none⟩
        (.createService pid real name))
      (Service.createServiceSlots pid (real name.bytes) i s).1 := by
  have hw := h.wiring name.bytes i hi
  obtain ⟨hnobody, hun⟩ := hw.fresh hnew
  have hmove := createServiceSlots_move pid (real name.bytes) i s
  have hslot := registerSlots_slot pid (real name.bytes)
    (List.range (s.services.entries i).maxClients) s.events (s.services.entries i).clientChannelMap
  have hslots := registerSlots_apart pid (real name.bytes)
    (List.range (s.services.entries i).maxClients) s.events (s.services.entries i).clientChannelMap
  have hserves := registerSlots_serves pid (real name.bytes)
    (List.range (s.services.entries i).maxClients) List.nodup_range
    (fun a _ b _ c ha hb => serverChannelId_inj (d.core_inj (hreal _ _ _ ha) (hreal _ _ _ hb)).2)
    (fun k _ c hc => ⟨hun k c (hreal _ _ _ hc), d.core_lt (hreal _ _ _ hc)⟩)
    (m := (s.services.entries i).clientChannelMap)
  rcases hr : registerSlots pid (real name.bytes) (List.range (s.services.entries i).maxClients)
    s.events (s.services.entries i).clientChannelMap with ⟨t, m, ok⟩
  have hres : Service.createServiceSlots pid (real name.bytes) i s =
      ({ s with services := s.services.setSlots i m, events := t },
        if ok then some i else none) := by
    simp [Service.createServiceSlots, hr]
  rw [hr] at hslot hslots hserves
  rw [hres] at hmove ⊢
  refine h.change hi hmove h.index ?_ hslots ?_ ?_ ?_ (fun _ _ => rfl) ?_
  · intro k hk
    simp [ServiceTable.setSlots, hk]
  · rintro c ⟨j, -, hc⟩
    exact ⟨_, hreal _ _ _ hc⟩
  · exact fun n hn => List.mem_cons_of_mem _ hn
  · intro n hn
    simp only [Holders.after]
    split
    · exact Function.update_of_ne hn _ _
    · rfl
  · simp only [ServiceTable.setSlots, Function.update_self]
    refine hw.serve hslots ?_ hslot fun q hq k hk => ?_
    · -- a response channel is none of the request channels
      rintro k c hc ⟨j, -, hcj⟩
      exact serverChannelId_ne j k (d.core_inj (hreal _ _ _ hcj) hc).2
    · cases ok with
      | false => simp [hnobody] at hq
      | true =>
        obtain rfl : pid = q := by simpa using hq
        obtain ⟨c, full, hc, hs⟩ := hserves rfl k (List.mem_range.mpr hk)
        exact ⟨c, full, hreal _ _ _ hc, hs⟩

theorem Plan.Wiring.seat {t t' : RecvEvent.Table} {name : Name} {e e' : ServiceEntry}
    (h : d.Wiring o t name e) {k : ℕ} {c : ChannelId}
    (hc : d.core name (clientChannelId k) = some c) (ht : t.Apart t' fun x => some c = some x)
    (hmax : e'.maxClients = e.maxClients)
    (hrequest : ∀ j, (e'.clientChannelMap j).requestRecvEventId =
      (e.clientChannelMap j).requestRecvEventId)
    (hslots : ∀ j, j ≠ k → e'.clientChannelMap j = e.clientChannelMap j)
    (hseats : ∀ j, j < e'.nextClientId ↔ j < e.nextClientId ∨ j = k)
    (hen : (e'.clientChannelMap k).enabled = true)
    (hs : ∃ id full, t'.Serves id pid c full) :
    d.Wiring { o with
      client := Function.update o.client name (Function.update (o.client name) k (some pid)) }
      t' name e' := by
  have hother : ∀ j x, d.core name j = some x → j ≠ clientChannelId k → ¬ some c = some x :=
    fun j x hx hj hcx => hj (d.core_inj hx (Option.some.inj hcx ▸ hc)).2
  refine ⟨fun hnew => ?_, fun q hq j hj => ?_, fun j hj x hx => ?_, fun j hj => ?_⟩
  · obtain ⟨hnone, hun⟩ := h.fresh hnew
    exact ⟨hnone, fun j x hx =>
      ht.unwatched x (hother _ x hx (serverChannelId_ne j k)) (hun j x hx)⟩
  · obtain ⟨x, full, hx, hsx⟩ := h.served q hq j (hmax ▸ hj)
    obtain ⟨full', hs'⟩ := ht.serves x (hother _ x hx (serverChannelId_ne j k)) _ _ _ hsx
    rw [hrequest]
    exact ⟨x, full', hx, hs'⟩
  · obtain ⟨hfree, hjk⟩ := not_or.mp (mt (hseats j).mpr (Nat.not_lt.mpr hj))
    exact ht.unwatched x (hother _ x hx (mt clientChannelId_inj hjk))
      (h.free j (Nat.not_lt.mp hfree) x hx)
  · by_cases hjk : j = k
    · subst hjk
      obtain ⟨id, full, hs⟩ := hs
      exact ⟨hen, pid, c, id, full, by simp, hc, hs⟩
    · obtain ⟨henj, q, x, id, full, hq, hx, hsx⟩ := h.taken j (((hseats j).mp hj).resolve_right hjk)
      obtain ⟨full', hs'⟩ := ht.serves x (hother _ x hx (mt clientChannelId_inj hjk)) _ _ _ hsx
      rw [hslots j hjk]
      exact ⟨henj, q, x, id, full', by simp [hjk, hq], hx, hs'⟩

theorem Plan.Ready.takeOverSlot (h : d.Ready o s) {name client : CName} {i k : ℕ}
    (hi : rebuildServiceNameIndexes s.services name.bytes = some i)
    (hreal : ∀ n k c, real n k = some c → d.core n k = some c)
    (hk : (s.services.entries i).findClient client.bytes = some k) :
    d.Ready (o.after (createClientSlot pid (real name.bytes) client.bytes i s).2
        (.createServiceClient pid real name client))
      (createClientSlot pid (real name.bytes) client.bytes i s).1 := by
  have hw := h.wiring name.bytes i hi
  obtain ⟨hlt, -, -⟩ := findClient_some hk
  obtain ⟨hen, p, c, id, full, hp, hc, hs⟩ := hw.taken k hlt
  have hmax := Nat.lt_of_lt_of_le hlt (h.loaded.ok i).room
  have hch := ((h.loaded.ok i).channels k hmax).2
  cases hknown : real name.bytes (clientChannelId k) with
  | none =>
    have hres : createClientSlot pid (real name.bytes) client.bytes i s = (s, ⟨none, some k⟩) := by
      simp [createClientSlot, hk, hch, hknown, updateDataRecvEvent]
    rw [hres]
    exact h
  | some c' =>
    obtain rfl : c = c' := Option.some.inj (hc.symm.trans (hreal _ _ _ hknown))
    obtain ⟨hid, htaken⟩ := hs.update pid
    have hupdate := update_apart pid (some c) s.events
    have hres : createClientSlot pid (real name.bytes) client.bytes i s =
        ({ s with events := (updateDataRecvEvent pid (some c) none s.events).1 },
          ⟨some i, some k⟩) := by
      simp [createClientSlot, hk, hch, hknown, hid]
    rw [hres]
    refine h.change hi (.refl _) h.index (fun _ _ => rfl) hupdate ?_ (fun _ hn => hn)
      (fun _ _ => rfl) (fun n hn => Function.update_of_ne hn _ _) ?_
    · exact fun x hx => ⟨_, Option.some.inj hx ▸ hc⟩
    · refine hw.seat hc hupdate rfl (fun _ => rfl) (fun _ _ => rfl) (fun j => ?_) hen
        ⟨id, false, htaken⟩
      exact ⟨.inl, fun hj => hj.elim (fun hlt => hlt) fun hjk => hjk ▸ hlt⟩

theorem addClient_request (client : Name) (id : ℕ) (e : ServiceEntry) (j : ℕ) :
    ((e.addClient client id).clientChannelMap j).requestRecvEventId =
      (e.clientChannelMap j).requestRecvEventId := by
  by_cases hj : j = e.nextClientId
  · subst hj
    rw [addClient_slot_self]
    rfl
  · rw [addClient_slot_ne _ _ _ hj]

theorem Plan.Ready.addSlot (h : d.Ready o s) {name client : CName} {i : ℕ}
    (hi : rebuildServiceNameIndexes s.services name.bytes = some i)
    (hreal : ∀ n k c, real n k = some c → d.core n k = some c)
    (hlen : client.bytes.length < clientNamelenMax)
    (hk : (s.services.entries i).findClient client.bytes = none) :
    d.Ready (o.after (createClientSlot pid (real name.bytes) client.bytes i s).2
        (.createServiceClient pid real name client))
      (createClientSlot pid (real name.bytes) client.bytes i s).1 := by
  have hw := h.wiring name.bytes i hi
  have hmove := createClientSlot_move pid (real name.bytes) hlen client.nonul i s
  by_cases hroom : (s.services.entries i).nextClientId < (s.services.entries i).maxClients
  · have hch := ((h.loaded.ok i).channels _ hroom).2
    by_cases hrefused : real name.bytes (clientChannelId (s.services.entries i).nextClientId) = none
        ∨ recvEventMax ≤ s.events.entryNum
    · have hres : createClientSlot pid (real name.bytes) client.bytes i s = (s, ⟨none, none⟩) := by
        simp [createClientSlot, hk, hch, register_refused hrefused]
      rw [hres]
      exact h
    · obtain ⟨hsome, hfull⟩ := not_or.mp hrefused
      obtain ⟨c, hknown⟩ := Option.ne_none_iff_exists'.mp hsome
      have hc := hreal _ _ _ hknown
      have happend := register_apart pid (some c) none s.events
      rw [register_accepted (Nat.not_le.mp hfull)] at happend
      have hres : createClientSlot pid (real name.bytes) client.bytes i s =
          ({ s with
              services := { s.services with
                entries := Function.update s.services.entries i
                  ((s.services.entries i).addClient client.bytes s.events.entryNum) }
              events := ⟨s.events.entries ++ [newEntry pid c none]⟩ },
            ⟨some i, some (s.services.entries i).nextClientId⟩) := by
        simp [createClientSlot, hk, hch, hknown, register_accepted (Nat.not_le.mp hfull), hroom]
      rw [hres] at hmove ⊢
      refine h.change hi hmove h.index (fun k hki => Function.update_of_ne hki _ _) happend ?_
        (fun _ hn => hn) (fun _ _ => rfl) (fun n hn => Function.update_of_ne hn _ _) ?_
      · exact fun x hx => ⟨_, Option.some.inj hx ▸ hc⟩
      · simp only [Function.update_self]
        refine hw.seat hc happend rfl (addClient_request _ _ _)
          (fun j hj => addClient_slot_ne _ _ _ hj) (fun j => Nat.lt_succ_iff_lt_or_eq) ?_ ?_
        · rw [addClient_slot_self]
          rfl
        · exact ⟨_, false, (hw.free _ (Nat.le_refl _) c hc).append_serves (d.core_lt hc) pid⟩
  · have hres : createClientSlot pid (real name.bytes) client.bytes i s = (s, ⟨none, none⟩) := by
      simp [createClientSlot, hk, Nat.not_lt.mp hroom]
    rw [hres]
    exact h

theorem Plan.Ready.reindex (h : d.Ready o s) (ix : NameIndex) (hix : ix.Agrees s.services) :
    d.Ready o { s with index := ix } := ⟨h.loaded, hix, h.wiring⟩

theorem Plan.Ready.asked (h : d.Ready o s) (n : Name) :
    d.Ready { o with created := n :: o.created } s :=
  ⟨h.loaded, h.index, fun name i hi => (h.wiring name i hi).apart (.refl _ fun _ => False)
    (fun _ _ _ hf => hf) (List.mem_cons_of_mem n) rfl rfl⟩

theorem Plan.Ready.createService (h : d.Ready o s) {name : CName}
    (ha : d.Proper o (.createService pid real name)) :
    d.Ready (o.after ⟨(Service.createService pid d.config.services real name.bytes s).2, none⟩
        (.createService pid real name))
      (Service.createService pid d.config.services real name.bytes s).1 := by
  obtain ⟨hreal, ⟨x, hx, hname⟩, hnew⟩ := ha
  have hfound := h.loaded.found x hx
  rw [hname] at hfound
  obtain ⟨i, hi⟩ := Option.isSome_iff_exists.mp hfound
  obtain ⟨hix, hid⟩ := getServiceId_agrees h.index name.bytes
  by_cases hmax : d.config.services.length < serviceMax
  · have hfind := findService_hit h.loaded.entryNum hmax (hid.trans hi)
    rw [createService_found (by rw [hfind]), hfind]
    exact (h.reindex _ hix).createServiceSlots hi hreal hnew
  · have hfind : findService d.config.services name.bytes s = (s, none) := by
      simp [findService, h.loaded.entryNum, Nat.not_lt.mp hmax]
    rw [createService_missing (by rw [hfind]), hfind]
    exact h.asked name.bytes

theorem Plan.Ready.createServiceClient (h : d.Ready o s) {name client : CName}
    (ha : d.Proper o (.createServiceClient pid real name client)) :
    let r := Service.createServiceClient pid d.config.services real name.bytes client.bytes s
    d.Ready (o.after r.2 (.createServiceClient pid real name client)) r.1 := by
  obtain ⟨hreal, hlen⟩ := ha
  have hloaded : s.services.entryNum ≠ 0 := by
    rw [h.loaded.entryNum]
    exact mt List.length_eq_zero_iff.mp d.nonempty
  obtain ⟨hix, hid⟩ := getServiceId_agrees h.index name.bytes
  simp only [Service.createServiceClient]
  split
  · next u hfind =>
    simp only [findServiceForClient, hloaded, if_false] at hfind
    split at hfind
    · obtain ⟨rfl, -⟩ := Prod.mk.inj hfind
      exact h
    · obtain ⟨rfl, -⟩ := Prod.mk.inj hfind
      exact h.reindex _ hix
  · next u i hfind =>
    simp only [findServiceForClient, hloaded, if_false] at hfind
    split at hfind
    · cases hfind
    · obtain ⟨rfl, hi⟩ := Prod.mk.inj hfind
      rw [hid] at hi
      cases hk : (s.services.entries i).findClient client.bytes with
      | some k => exact (h.reindex _ hix).takeOverSlot hi hreal hk
      | none => exact (h.reindex _ hix).addSlot hi hreal hlen hk

theorem Plan.Ready.call (h : d.Ready o s) {a : Call} (ha : d.Proper o a) :
    d.Ready (o.after (a.run d.services s).2 a) (a.run d.services s).1 := by
  cases a with
  | createService pid real name => exact h.createService ha
  | createServiceClient pid real name client => exact h.createServiceClient ha

theorem Plan.Ready.not_loads (h : d.Ready o s) {a : Call} (ha : d.Proper o a) :
    ¬ a.Loads d.services s := by
  cases a with
  | createService pid real name =>
    obtain ⟨-, ⟨x, hx, hname⟩, -⟩ := ha
    have hfound := h.loaded.found x hx
    rw [hname] at hfound
    rintro (hnum | ⟨-, hnone⟩)
    · exact hnum h.loaded.entryNum
    · rw [(getServiceId_agrees h.index name.bytes).2] at hnone
      simp [hnone] at hfound
  | createServiceClient pid real name client =>
    intro hnum
    exact d.nonempty (List.length_eq_zero_iff.mp (h.loaded.entryNum.symm.trans hnum))

theorem Plan.Proper.short {a : Call} (ha : d.Proper o a) : a.Short := by
  cases a with
  | createService pid real name => simp [Call.Short, Call.clientName]
  | createServiceClient pid real name client =>
    intro c hc
    obtain rfl : client.bytes = c := Option.some.inj hc
    exact ha.2

theorem Plan.Ready.call_rebuild (h : d.Ready o s) {a : Call} (ha : d.Proper o a) :
    rebuildServiceNameIndexes (a.run d.services s).1.services =
      rebuildServiceNameIndexes s.services := by
  obtain ⟨u, hu, he⟩ := run_effect d.services ha.short s
  rw [he.move.rebuild, hu.same (h.not_loads ha)]

theorem run_load {a : Call} (hempty : s.services.entryNum = 0) :
    (a.run d.services s) = a.run d.services (s.load d.config.services) := by
  have hlength : d.config.services.length ≠ 0 := mt List.length_eq_zero_iff.mp d.nonempty
  cases a with
  | createService pid real name =>
    have hsame : findService d.config.services name.bytes s =
        findService d.config.services name.bytes (s.load d.config.services) := by
      simp [findService, hempty, hlength.symm, Tables.load, setServiceData]
    simp only [Call.run, Service.createService, Plan.services, hsame]
  | createServiceClient pid real name client =>
    have hsame : findServiceForClient d.config.services name.bytes client.bytes s =
        findServiceForClient d.config.services name.bytes client.bytes
          (s.load d.config.services) := by
      have hnum : (s.load d.config.services).services.entryNum ≠ 0 := hlength
      simp [findServiceForClient, hempty, hnum]
    simp only [Call.run, Service.createServiceClient, Plan.services, hsame]

end Calls

def Port.channel : Port → ℕ
  | .request k => serverChannelId k
  | .response k => clientChannelId k

section Runs

variable {Pdu : Type} {d : Plan} {s : Deployment Pdu}

def Deployment.bus (s : Deployment Pdu) : Bus Pdu := ⟨s.session.data, s.session.world.events⟩

structure Plan.Blank (d : Plan) (s : Deployment Pdu) : Prop where
  entryNum : s.session.world.services.entryNum = 0
  ok : s.session.world.services.Ok
  index : ∀ pid name, s.session.world.index pid name = none
  events : ∀ c, d.Own c → s.session.world.events.Unwatched c
  holders : s.holders = .nobody

/-- Either nobody has called yet, or the tables are ready for every process. -/
def Plan.Inv (d : Plan) (s : Deployment Pdu) : Prop :=
  d.Blank s ∨ ∀ pid, d.Ready s.holders (s.session.world.tables pid)

theorem Plan.start_blank (data : ChannelId → Pdu) : d.Blank (.start data) :=
  ⟨rfl, start_ok, fun _ _ => rfl, fun _ _ _ he => absurd he List.not_mem_nil, rfl⟩

theorem rebuild_empty {t : ServiceTable} (h : t.entryNum = 0) (name : Name) :
    rebuildServiceNameIndexes t name = none := by
  simp [rebuildServiceNameIndexes, h]

theorem Plan.Ready.put {o : Holders} {u : Tables} (h : d.Ready o u) {w : World} {q : Pid}
    (hindex : ∀ pid, (w.index pid).Agrees u.services) (pid : Pid) :
    d.Ready o ((w.put q u).tables pid) := by
  refine h.reindex (Function.update w.index q u.index pid) ?_
  by_cases hq : pid = q
  · subst hq
    rw [Function.update_self]
    exact h.index
  · rw [Function.update_of_ne hq]
    exact hindex pid

theorem Plan.Ready.events {o : Holders} {u : Tables} (h : d.Ready o u) {t : RecvEvent.Table}
    (ht : u.events.Apart t fun c => ¬ d.Own c) : d.Ready o { u with events := t } :=
  ⟨h.loaded, h.index, fun name i hi => (h.wiring name i hi).apart ht
    (fun _ _ hc => not_not.mpr (h.loaded.own hi hc)) (fun hn => hn) rfl rfl⟩

theorem getResponse_apart (own : ChannelId → Prop) (pid : Pid) (real : Name → ℕ → Option ChannelId)
    (i k : ℕ) (t : ServiceTable) (ev : RecvEvent.Table) :
    ev.Apart (getResponse pid real i k t ev).2.1 fun c => ¬ own c := by
  simp only [getResponse]
  split
  · exact .refl ev _
  · split
    · exact .refl ev _
    · exact busStep_apart (b := ⟨fun _ => (), ev⟩) (a := .check pid _) trivial

theorem Plan.Wiring.of_forget {o : Holders} {t : RecvEvent.Table} {name : Name}
    {e e' : ServiceEntry} (h : d.Wiring o t name e) (he : e'.forget = e.forget) :
    d.Wiring o t name e' := by
  have hforget : d.Wiring o t name e'.forget := by
    rw [he]
    exact ⟨h.fresh, h.served, h.free, h.taken⟩
  exact ⟨hforget.fresh, hforget.served, hforget.free, hforget.taken⟩

theorem Plan.Loaded.of_forget {t t' : ServiceTable} (h : d.Loaded t)
    (ht : t'.forget = t.forget) : d.Loaded t' := by
  have hrebuild : rebuildServiceNameIndexes t' = rebuildServiceNameIndexes t := by
    rw [← rebuild_forget t', ht, rebuild_forget]
  refine ⟨(ok_forget t').mp (ht ▸ (ok_forget t).mpr h.ok), ?_, ?_, ?_⟩
  · exact (congrArg ServiceTable.entryNum ht).trans h.entryNum
  · rw [hrebuild]
    exact h.found
  · rw [hrebuild]
    exact h.named

theorem Plan.Ready.services {o : Holders} {u : Tables} (h : d.Ready o u) {t : ServiceTable}
    (ht : t.forget = u.services.forget) : d.Ready o { u with services := t } := by
  have hrebuild : rebuildServiceNameIndexes t = rebuildServiceNameIndexes u.services := by
    rw [← rebuild_forget t, ht, rebuild_forget]
  refine ⟨h.loaded.of_forget ht, fun name i hi => ?_, fun name i hi => ?_⟩
  · rw [hrebuild]
    exact h.index name i hi
  · rw [hrebuild] at hi
    exact (h.wiring name i hi).of_forget (congrFun (congrArg ServiceTable.entries ht) i)

theorem clearRunFlags_apart (own : ChannelId → Prop) (data : ChannelId → Pdu)
    (t : RecvEvent.Table) : t.Apart (RecvEvent.clearRunFlags t) fun c => ¬ own c :=
  busStep_apart (b := ⟨data, t⟩) (a := .clearRunFlags) trivial

theorem Plan.step_ready (h : ∀ pid, d.Ready s.holders (s.session.world.tables pid))
    {a : SessionAction Pdu} (hl : d.Legal s a) (pid : Pid) :
    d.Ready (d.step s a).holders ((d.step s a).session.world.tables pid) := by
  cases a with
  | bus a => exact (h pid).events (busStep_apart (b := s.bus) hl)
  | restart q =>
    have hevents := (h q).events (clearRunFlags_apart d.Own s.session.data _)
    have hrebuilt := hevents.reindex (rebuildServiceNameIndexes s.session.world.services)
      fun _ _ hi => hi
    exact hrebuilt.put (fun p => (h p).index) pid
  | register q real onRecv =>
    exact (h pid).events ((register_apart q real onRecv _).mono hl)
  | call a =>
    refine ((h a.pid).call hl).put (fun p name i hi => ?_) pid
    rw [(h a.pid).call_rebuild hl]
    exact (h p).index name i hi
  | getResponse q real i k =>
    have hservices := (h pid).services
      (getResponse_forget q real i k s.session.world.services s.session.world.events)
    exact hservices.events (getResponse_apart d.Own q real i k _ _)

theorem Plan.Blank.step (h : d.Blank s) {a : SessionAction Pdu} (hl : d.Legal s a) :
    d.Inv (d.step s a) := by
  cases a with
  | bus a =>
    exact .inl ⟨h.entryNum, h.ok, h.index,
      fun c hc => (h.events c hc).of_registrations (busStep_registrations s.bus a), h.holders⟩
  | restart q =>
    refine .inl ⟨h.entryNum, h.ok, fun pid name => ?_,
      fun c hc => (h.events c hc).of_registrations (clearRunFlags_registrations _), h.holders⟩
    show Function.update s.session.world.index q _ pid name = none
    by_cases hq : pid = q
    · subst hq
      rw [Function.update_self]
      exact rebuild_empty h.entryNum name
    · rw [Function.update_of_ne hq]
      exact h.index pid name
  | register q real onRecv =>
    refine .inl ⟨h.entryNum, h.ok, h.index, fun c hc => ?_, h.holders⟩
    exact (register_apart q real onRecv _).unwatched c (fun hr => hl c hr hc) (h.events c hc)
  | call a =>
    right
    have hload : d.Ready .nobody ((s.session.world.tables a.pid).load d.config.services) :=
      d.ready_load h.ok h.events
    have hproper : d.Proper .nobody a := h.holders ▸ hl
    have hcall := hload.call hproper
    rw [← run_load (d := d) h.entryNum] at hcall
    intro pid
    rw [show (d.step s (.call a)).holders =
      Holders.nobody.after (answer d.services s.session.world a) a from by
        simp only [Plan.step, h.holders]]
    refine hcall.put (fun p name i hi => ?_) pid
    rw [h.index p name] at hi
    cases hi
  | getResponse q real i k =>
    have hforget := getResponse_forget q real i k s.session.world.services s.session.world.events
    exact .inl ⟨(congrArg ServiceTable.entryNum hforget).trans h.entryNum,
      (ok_forget _).mp (hforget ▸ (ok_forget _).mpr h.ok), h.index,
      fun c hc => (getResponse_apart d.Own q real i k _ _).unwatched c (not_not.mpr hc)
        (h.events c hc), h.holders⟩

theorem Plan.Inv.step (s : Deployment Pdu) (a : SessionAction Pdu) (h : d.Inv s)
    (hl : d.Legal s a) : d.Inv (d.step s a) := by
  rcases h with h | h
  · exact h.step hl
  · exact .inr (d.step_ready h hl)

/-- The service as its parties know it: its entry with every slot given away, the processes that
hold it, and the channels of the core. -/
structure Plan.Deployed (d : Plan) (s : Deployment Pdu) (name : Name) (u : Setup Pdu) : Prop where
  entry : ∃ i, rebuildServiceNameIndexes s.session.world.services name = some i ∧
    u.entry = s.session.world.services.entries i
  server : s.holders.server name = some u.server
  full : u.entry.nextClientId = u.entry.maxClients
  client : ∀ k < u.entry.maxClients, s.holders.client name k = some (u.client k)
  real : ∀ x, x.slot < u.entry.maxClients → d.core name x.channel = some (u.real x)

theorem Plan.Inv.wiring (h : d.Inv s) {name : Name} {u : Setup Pdu} (hu : d.Deployed s name u) :
    d.Wiring s.holders s.bus.table name u.entry := by
  obtain ⟨i, hi, hentry⟩ := hu.entry
  rcases h with h | h
  · rw [rebuild_empty h.entryNum] at hi
    cases hi
  · rw [hentry]
    exact (h 0).wiring name i hi

theorem Plan.Wiring.wired {u : Setup Pdu} {name : Name} (hu : d.Deployed s name u)
    (hw : d.Wiring s.holders s.bus.table name u.entry) : u.Wired s.bus := by
  intro x hx
  have hreal := hu.real x hx
  cases x with
  | request k =>
    obtain ⟨c, full, hc, hs⟩ := hw.served u.server hu.server k hx
    rw [show u.real (.request k) = c from Option.some.inj (hreal.symm.trans hc)]
    exact ⟨_, full, hs⟩
  | response k =>
    have hk : k < u.entry.maxClients := hx
    obtain ⟨-, p, c, id, full, hp, hc, hs⟩ := hw.taken k (hu.full ▸ hk)
    rw [hu.client k hk, Option.some.injEq] at hp
    rw [show u.real (.response k) = c from Option.some.inj (hreal.symm.trans hc)]
    exact ⟨_, full, hp ▸ hs⟩

/-- A read by the client of a slot, on the tables of all processes, is `get` on the channels of the
service. -/
theorem Plan.Inv.getResponse (h : d.Inv s) {name : Name} {u : Setup Pdu} (hu : d.Deployed s name u)
    {i k : ℕ} (hi : rebuildServiceNameIndexes s.session.world.services name = some i)
    (hk : k < u.entry.maxClients) :
    let r := Service.getResponse (u.client k) d.core i k s.session.world.services s.bus.table
    (d.step s (.getResponse (u.client k) d.core i k)).bus = (u.get (.response k) s.bus).1 ∧
      r.2.2 = (u.get (.response k) s.bus).2.isSome := by
  obtain ⟨j, hj, hentry⟩ := hu.entry
  obtain rfl : i = j := Option.some.inj (hi.symm.trans hj)
  rcases h with h | h
  · rw [rebuild_empty h.entryNum] at hi
    cases hi
  · obtain ⟨hlt, hen, hname⟩ := rebuild_carries hi
    have hrange : i < serviceMax := by
      have hfit := d.config.entries_fit
      have hnum := (h 0).loaded.entryNum
      exact Nat.lt_of_lt_of_le hlt (hnum.trans_le hfit)
    have hch : ((s.session.world.services.entries i).clientChannelMap k).responseChannelId =
        clientChannelId k := (((h 0).loaded.ok i).channels k (hentry ▸ hk)).2
    have hreal : d.core name (clientChannelId k) = some (u.real (.response k)) :=
      hu.real (.response k) hk
    have hget : u.get (.response k) s.bus =
        getPacket (u.client k) (u.real (.response k)) true s.bus := if_neg (Nat.not_le.mpr hk)
    have hopen : ¬ (i ≥ serviceMax ∨ (s.session.world.services.entries i).enabled = false ∨
        k ≥ (s.session.world.services.entries i).maxClients) := by
      rw [hentry] at hk
      simp [Nat.not_le.mpr hrange, hen, hk]
    have hread : (Service.getResponse (u.client k) d.core i k s.session.world.services
        s.bus.table).2 =
        ((getRecvEvent (u.client k) (u.real (.response k)) s.bus.table).1,
          (getRecvEvent (u.client k) (u.real (.response k)) s.bus.table).2.received) := by
      simp only [Service.getResponse, if_neg hopen, hname, hch, hreal]
    rw [hget]
    constructor
    · exact congrArg (Bus.mk s.bus.data) (congrArg Prod.fst hread)
    · simp only [hread, getPacket, readPdu, if_true]
      split <;> simp [*]

theorem Setup.Wired.box_cleared {u : Setup Pdu} {b : Bus Pdu} (h : u.Wired b) {x : Port}
    (hx : x.slot < u.entry.maxClients) :
    u.box { b with table := RecvEvent.clearRunFlags b.table } x = none := by
  obtain ⟨i, full, ⟨e, he, hp, hc, -, -⟩, hrange⟩ := h x hx
  have hs : (RecvEvent.clearRunFlags b.table).Serves i (u.reader x) (u.real x) false :=
    ⟨⟨e.clear, he.clear, hp, hc, rfl, rfl⟩, hrange⟩
  exact box_of_serves (b := { b with table := RecvEvent.clearRunFlags b.table }) hs

end Runs

/-- Every name of one letter has two channels, the even and the odd one of the letter. -/
def letterCore (n : Name) (k : ℕ) : Option ChannelId :=
  match n with
  | [x] => if k < 2 then some (2 * x.toNat + k) else none
  | _ => none

theorem letterCore_some {n : Name} {k c : ℕ} (h : letterCore n k = some c) :
    ∃ x : UInt8, n = [x] ∧ k < 2 ∧ c = 2 * x.toNat + k := by
  unfold letterCore at h
  split at h
  · split at h
    · next x hk => exact ⟨_, rfl, hk, (Option.some.inj h).symm⟩
    · cases h
  · cases h

def twoServices : Plan where
  config :=
    { services := [⟨[120], 1, 100, 100⟩, ⟨[121], 1, 100, 100⟩]
      entries_fit := by decide
      slots_fit := by decide
      names_fit := by decide }
  nonempty := by decide
  core := letterCore
  core_inj := by
    intro n n' k k' c h h'
    obtain ⟨x, rfl, hk, hc⟩ := letterCore_some h
    obtain ⟨y, rfl, hk', hc'⟩ := letterCore_some h'
    have hxy : x = y := UInt8.toNat_inj.mp (by omega)
    subst hxy
    exact ⟨rfl, by omega⟩
  core_lt := by
    intro n k c h
    obtain ⟨x, -, hk, hc⟩ := letterCore_some h
    have hx := x.toNat_lt
    have hlt : 2 * x.toNat + k < 8192 := by omega
    rw [hc]
    exact hlt

theorem x_ne_zero : (120 : UInt8) ≠ 0 := by decide

theorem y_ne_zero : (121 : UInt8) ≠ 0 := by decide

theorem a_ne_zero : (97 : UInt8) ≠ 0 := by decide

/-- The client of x is the first of all and polls in vain, the server of x comes before that of y, an asset watches
a channel of its own, and the client of x comes back as another process while requests are sent. -/
def comingUp : List (SessionAction PlainPacket) :=
  let x := letterName 120 x_ne_zero
  let y := letterName 121 y_ne_zero
  let client := letterName 97 a_ne_zero
  [.call (.createServiceClient 2 letterCore x client), .getResponse 2 letterCore 0 0,
    .register 9 (some 10) none, .call (.createService 1 letterCore x),
    .bus (.write 240 (plainRequest 0 0)), .restart 0,
    .call (.createServiceClient 4 letterCore y client), .bus (.check 1 240),
    .call (.createServiceClient 3 letterCore x client), .call (.createService 1 letterCore y),
    .bus (.write 241 (plainRequest 0 0))]

def upAndRunning : Deployment PlainPacket :=
  run twoServices.step (.start fun _ => plainRequest 0 0) comingUp

def xSetup : Setup PlainPacket where
  conv := plainConvertors
  entry := upAndRunning.session.world.services.entries 0
  generation := 0
  server := 1
  client := fun _ => 3
  real := fun x => 240 + x.channel
  real_inj := fun x y _ _ h => plainReal_inj x y (Nat.add_left_cancel h)

theorem comingUp_legal : Along twoServices.step twoServices.Legal
    (.start fun _ => plainRequest 0 0) comingUp := by
  have hother : ∀ c, some 10 = some c → ¬ twoServices.Own c := by
    rintro c hten ⟨s, hs, k, hc⟩
    obtain ⟨x, hx, hk, hx'⟩ := letterCore_some hc
    rw [← Option.some.inj hten] at hx'
    rcases List.mem_cons.mp hs with rfl | hs
    · obtain rfl : x = 120 := by simpa [cString] using hx.symm
      simp at hx'
      omega
    · obtain rfl := List.mem_singleton.mp hs
      obtain rfl : x = 121 := by simpa [cString] using hx.symm
      simp at hx'
      omega
  exact ⟨⟨fun _ _ _ h => h, by decide⟩, trivial, hother,
    ⟨fun _ _ _ h => h, ⟨_, List.mem_cons_self, rfl⟩, by decide⟩, trivial, trivial,
    ⟨fun _ _ _ h => h, by decide⟩, trivial, ⟨fun _ _ _ h => h, by decide⟩,
    ⟨fun _ _ _ h => h, ⟨_, List.mem_cons_of_mem _ List.mem_cons_self, rfl⟩, by decide⟩, trivial,
    trivial⟩

theorem xSetup_deployed : twoServices.Deployed upAndRunning [120] xSetup := by
  have hmax : xSetup.entry.maxClients = 1 := by decide
  refine ⟨⟨0, by decide, rfl⟩, by decide, by decide, fun k hk => ?_, fun x hx => ?_⟩
  · obtain rfl : k = 0 := by omega
    decide
  · have hslot : x.slot = 0 := by omega
    cases x with
    | request k =>
      obtain rfl : k = 0 := hslot
      decide
    | response k =>
      obtain rfl : k = 0 := hslot
      decide

end Service
end HakoniwaCorePro
