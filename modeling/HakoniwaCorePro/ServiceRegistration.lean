import HakoniwaCorePro.Runs
import HakoniwaCorePro.ServiceTable
import Mathlib.Logic.Function.Iterate

/-!
# What a registration in the service table is worth

Any process may create services and clients in any order, each with its own list of
configured services. As long as no call loads the table anew, what has been handed out
stays: the entry of a service keeps its name, the slot of a client its name and channels.
-/

namespace HakoniwaCorePro
namespace Service

open RecvEvent Runs

/-- The list a process has read, when it fits into the shared table. -/
structure ServiceConfig where
  services : List ServiceDef
  entries_fit : services.length ≤ serviceMax
  slots_fit : ∀ s ∈ services, s.maxClients ≤ serviceClientMax
  names_fit : ∀ s ∈ services, s.name.length < serviceNamelenMax

/-- A name handed in as a C string. -/
structure CName where
  bytes : Name
  nonul : 0 ∉ bytes

/-- The slots of one service: their channels, that clients fill them in order, and that no
two of them have one name. -/
structure ServiceEntry.Ok (e : ServiceEntry) : Prop where
  channels : ∀ j < e.maxClients, (e.clientChannelMap j).requestChannelId = serverChannelId j ∧
    (e.clientChannelMap j).responseChannelId = clientChannelId j
  used : ∀ j < e.maxClients, (e.clientChannelMap j).enabled = true → j < e.nextClientId
  room : e.nextClientId ≤ e.maxClients
  apart : ∀ j < e.maxClients, ∀ k < e.maxClients, (e.clientChannelMap j).enabled = true →
    (e.clientChannelMap k).enabled = true →
    (e.clientChannelMap j).name = (e.clientChannelMap k).name → j = k

/-- A slot that was given to a client has the name and the channels it had. -/
structure ClientChannelMap.Kept (m m' : ClientChannelMap) : Prop where
  enabled : m'.enabled = true
  name : m'.name = m.name
  request : m'.requestChannelId = m.requestChannelId
  response : m'.responseChannelId = m.responseChannelId

structure ServiceEntry.Kept (e e' : ServiceEntry) : Prop where
  name : e'.serviceName = e.serviceName
  maxClients : e'.maxClients = e.maxClients
  nextClientId : e.nextClientId ≤ e'.nextClientId
  slots : ∀ j < e.maxClients, (e.clientChannelMap j).enabled = true →
    (e.clientChannelMap j).Kept (e'.clientChannelMap j)

theorem ServiceEntry.Kept.refl (e : ServiceEntry) : e.Kept e :=
  ⟨rfl, rfl, Nat.le_refl _, fun _ _ he => ⟨he, rfl, rfl, rfl⟩⟩

theorem ServiceEntry.Kept.trans {e₁ e₂ e₃ : ServiceEntry} (h₁ : e₁.Kept e₂) (h₂ : e₂.Kept e₃) :
    e₁.Kept e₃ := by
  refine ⟨h₂.name.trans h₁.name, h₂.maxClients.trans h₁.maxClients,
    Nat.le_trans h₁.nextClientId h₂.nextClientId, fun j hj he => ?_⟩
  have hs₁ := h₁.slots j hj he
  have hs₂ := h₂.slots j (by rw [h₁.maxClients]; exact hj) hs₁.enabled
  exact ⟨hs₂.enabled, hs₂.name.trans hs₁.name, hs₂.request.trans hs₁.request,
    hs₂.response.trans hs₁.response⟩

theorem cString_append_zero {name : Name} (h : 0 ∉ name) (rest : List UInt8) :
    cString (name ++ 0 :: rest) = name := by
  have hall : ∀ x ∈ name, decide (x ≠ 0) = true := fun x hx =>
    decide_eq_true fun h0 => h (h0 ▸ hx)
  rw [cString, List.takeWhile_append_of_pos hall]
  simp

theorem assign_requestChannelId {name : Name} (hlen : name.length < clientNamelenMax) (id : ℕ)
    (m : ClientChannelMap) : (m.assign name id).requestChannelId = m.requestChannelId :=
  if_neg (by omega)

/-- `clientName`, and the `int` that follows it. -/
def ClientChannelMap.memory (m : ClientChannelMap) : List UInt8 :=
  m.clientName.bytes ++ intBytes m.requestChannelId

def overwrite (bytes memory : List UInt8) : List UInt8 := bytes ++ memory.drop bytes.length

theorem intBytes_clear_low (n : ℕ) : intBytes (n / 256 * 256) = 0 :: (intBytes n).drop 1 := by
  have hlow : UInt8.ofNat (n / 256 * 256) = 0 := by
    apply UInt8.toNat_inj.mp
    simp
  have h₁ : n / 256 * 256 / 256 = n / 256 := by omega
  have h₂ : n / 256 * 256 / 65536 = n / 65536 := by omega
  have h₃ : n / 256 * 256 / 16777216 = n / 16777216 := by omega
  simp [intBytes, hlow, h₁, h₂, h₃]

/-- The copy and the zero byte land at the start of the slot's memory, whichever field is there. -/
theorem assign_memory {name : Name} (hlen : name.length ≤ clientNamelenMax) (id : ℕ)
    (m : ClientChannelMap) : (m.assign name id).memory = overwrite (name ++ [0]) m.memory := by
  have hbuf : m.clientName.bytes.length = clientNamelenMax := m.clientName.length_eq
  rcases Nat.lt_or_eq_of_le hlen with hlt | heq
  · have htake : (name ++ [0]).take clientNamelenMax = name ++ [0] := by
      apply List.take_of_length_le
      simp only [List.length_append, List.length_singleton]
      omega
    have hdrop : (m.clientName.bytes ++ intBytes m.requestChannelId).drop (name.length + 1) =
        m.clientName.bytes.drop (name.length + 1) ++ intBytes m.requestChannelId := by
      apply List.drop_append_of_le_length
      omega
    have hid : (m.assign name id).requestChannelId = m.requestChannelId :=
      assign_requestChannelId hlt id m
    simp only [ClientChannelMap.memory, hid]
    simp only [ClientChannelMap.assign, NameBuffer.write, htake, overwrite, List.length_append,
      List.length_singleton, hdrop, List.append_assoc]
  · have htake : (name ++ [0]).take clientNamelenMax = name := by
      rw [← heq]
      simp
    have hnothing : m.clientName.bytes.drop (name.length + 1) = [] := by
      apply List.drop_eq_nil_of_le
      omega
    have hdrop : (m.clientName.bytes ++ intBytes m.requestChannelId).drop (name.length + 1) =
        (intBytes m.requestChannelId).drop 1 := by
      rw [List.drop_append, hnothing, hbuf, heq]
      simp
    have hid : (m.assign name id).requestChannelId = m.requestChannelId / 256 * 256 := if_pos heq
    simp only [ClientChannelMap.memory, hid, intBytes_clear_low]
    simp only [ClientChannelMap.assign, NameBuffer.write, htake, hnothing, overwrite,
      List.length_append, List.length_singleton, List.append_nil, hdrop, List.append_assoc,
      List.singleton_append]

/-- A name is read back as it was given, also one whose zero byte lies behind the array. -/
theorem assign_name {name : Name} (hlen : name.length ≤ clientNamelenMax) (h : 0 ∉ name)
    (id : ℕ) (m : ClientChannelMap) : (m.assign name id).name = name := by
  have hmemory := assign_memory hlen id m
  rw [overwrite, List.append_assoc, List.singleton_append] at hmemory
  calc (m.assign name id).name
      = cString (m.assign name id).memory := rfl
    _ = name := by rw [hmemory, cString_append_zero h]

theorem findClient_some {client : Name} {e : ServiceEntry} {k : ℕ}
    (h : e.findClient client = some k) :
    k < e.nextClientId ∧ (e.clientChannelMap k).enabled = true ∧
      (e.clientChannelMap k).name = client := by
  have hp := List.find?_some h
  have hm := List.mem_of_find?_eq_some h
  simp only [Bool.and_eq_true, beq_iff_eq] at hp
  exact ⟨by simpa using hm, hp⟩

theorem findClient_none {client : Name} {e : ServiceEntry} (h : e.findClient client = none)
    {k : ℕ} (hk : k < e.nextClientId) (he : (e.clientChannelMap k).enabled = true) :
    (e.clientChannelMap k).name ≠ client := by
  have hp := List.find?_eq_none.mp h k (by simpa using hk)
  simpa [he] using hp

theorem fill_ok (s : ServiceDef) (e : ServiceEntry) : (e.fill s).Ok := by
  constructor
  case channels =>
    intro j hj
    have hj' : j < s.maxClients := hj
    simp [ServiceEntry.fill, hj']
  case used =>
    intro j hj he
    have hj' : j < s.maxClients := hj
    simp [ServiceEntry.fill, hj'] at he
  case room => exact Nat.zero_le _
  case apart =>
    intro j hj k hk he
    have hj' : j < s.maxClients := hj
    simp [ServiceEntry.fill, hj'] at he

theorem watched_name (j id : ℕ) {m : ClientChannelMap} (h : m.requestChannelId = serverChannelId j) :
    (m.watched j id).name = m.name := by
  simp [ClientChannelMap.name, ClientChannelMap.watched, h]

theorem registerSlots_slot (pid : Pid) (real : ℕ → Option ChannelId) (js : List ℕ)
    (t : RecvEvent.Table) (m : ℕ → ClientChannelMap) (j : ℕ) :
    (registerSlots pid real js t m).2.1 j = m j ∨
      ∃ id, (registerSlots pid real js t m).2.1 j = (m j).watched j id := by
  induction js generalizing t m with
  | nil => exact Or.inl rfl
  | cons i js ih =>
    simp only [registerSlots]
    split
    · exact Or.inl rfl
    · next t' id _ =>
      have h := ih t' (Function.update m i ((m i).watched i id))
      by_cases hj : j = i
      · subst hj
        simp only [Function.update_self] at h
        rcases h with h | ⟨id', h⟩
        · exact Or.inr ⟨id, h⟩
        · exact Or.inr ⟨id', h⟩
      · simpa only [Function.update_of_ne hj] using h

/-- How one entry can change while the table is not loaded. -/
inductive EntryMove (e : ServiceEntry) : ServiceEntry → Prop
  | same : EntryMove e e
  | watched (m : ℕ → ClientChannelMap)
      (hm : ∀ j, m j = e.clientChannelMap j ∨ ∃ id, m j = (e.clientChannelMap j).watched j id) :
      EntryMove e { e with clientChannelMap := m }
  | client (name : Name) (id : ℕ) (hlen : name.length < clientNamelenMax) (hz : 0 ∉ name)
      (hnew : e.findClient name = none) (hroom : e.nextClientId < e.maxClients) :
      EntryMove e (e.addClient name id)

theorem watched_kept {e : ServiceEntry} (h : e.Ok) {j : ℕ} (hj : j < e.maxClients)
    {m : ClientChannelMap}
    (hm : m = e.clientChannelMap j ∨ ∃ id, m = (e.clientChannelMap j).watched j id) :
    m.enabled = (e.clientChannelMap j).enabled ∧ m.name = (e.clientChannelMap j).name ∧
      m.requestChannelId = (e.clientChannelMap j).requestChannelId ∧
      m.responseChannelId = (e.clientChannelMap j).responseChannelId := by
  rcases hm with rfl | ⟨id, rfl⟩
  · exact ⟨rfl, rfl, rfl, rfl⟩
  · have hreq := (h.channels j hj).1
    exact ⟨rfl, watched_name j id hreq, hreq.symm, rfl⟩

theorem addClient_slot_self (name : Name) (id : ℕ) (e : ServiceEntry) :
    (e.addClient name id).clientChannelMap e.nextClientId =
      (e.clientChannelMap e.nextClientId).assign name id := by
  simp [ServiceEntry.addClient]

theorem addClient_slot_ne (name : Name) (id : ℕ) (e : ServiceEntry) {j : ℕ}
    (hj : j ≠ e.nextClientId) : (e.addClient name id).clientChannelMap j = e.clientChannelMap j := by
  simp [ServiceEntry.addClient, hj]

theorem EntryMove.kept {e e' : ServiceEntry} (h : e.Ok) (hm : EntryMove e e') : e.Kept e' := by
  cases hm with
  | same => exact .refl e
  | watched m hm =>
    refine ⟨rfl, rfl, Nat.le_refl _, fun j hj he => ?_⟩
    obtain ⟨hen, hname, hreq, hres⟩ := watched_kept h hj (hm j)
    exact ⟨hen.trans he, hname, hreq, hres⟩
  | client name id hlen hz hnew hroom =>
    refine ⟨rfl, rfl, Nat.le_succ _, fun j hj he => ?_⟩
    have hlt := h.used j hj he
    rw [addClient_slot_ne name id e (by omega)]
    exact ⟨he, rfl, rfl, rfl⟩

theorem watched_ok {e : ServiceEntry} (h : e.Ok) {m : ℕ → ClientChannelMap}
    (hm : ∀ j, m j = e.clientChannelMap j ∨ ∃ id, m j = (e.clientChannelMap j).watched j id) :
    ServiceEntry.Ok { e with clientChannelMap := m } := by
  constructor
  case channels =>
    intro j hj
    obtain ⟨-, -, hreq, hres⟩ := watched_kept h hj (hm j)
    exact ⟨hreq.trans (h.channels j hj).1, hres.trans (h.channels j hj).2⟩
  case used =>
    intro j hj he
    exact h.used j hj ((watched_kept h hj (hm j)).1.symm.trans he)
  case room => exact h.room
  case apart =>
    intro j hj k hk hej hek hname
    obtain ⟨henj, hnj, -, -⟩ := watched_kept h hj (hm j)
    obtain ⟨henk, hnk, -, -⟩ := watched_kept h hk (hm k)
    exact h.apart j hj k hk (henj.symm.trans hej) (henk.symm.trans hek)
      (hnj.symm.trans (hname.trans hnk))

theorem addClient_ok {e : ServiceEntry} (h : e.Ok) {name : Name} (id : ℕ)
    (hlen : name.length < clientNamelenMax) (hz : 0 ∉ name) (hnew : e.findClient name = none)
    (hroom : e.nextClientId < e.maxClients) : (e.addClient name id).Ok := by
  have hother : ∀ j < e.maxClients, j ≠ e.nextClientId → (e.clientChannelMap j).enabled = true →
      (e.clientChannelMap j).name ≠ name := fun j hj _ he =>
    findClient_none hnew (h.used j hj he) he
  constructor
  case channels =>
    intro j hj
    by_cases hjn : j = e.nextClientId
    · subst hjn
      rw [addClient_slot_self, assign_requestChannelId hlen]
      exact h.channels _ hj
    · rw [addClient_slot_ne name id e hjn]
      exact h.channels j hj
  case used =>
    intro j hj he
    show j < e.nextClientId + 1
    by_cases hjn : j = e.nextClientId
    · omega
    · rw [addClient_slot_ne name id e hjn] at he
      exact Nat.lt_succ_of_lt (h.used j hj he)
  case room => exact hroom
  case apart =>
    intro j hj k hk hej hek hname
    by_cases hjn : j = e.nextClientId <;> by_cases hkn : k = e.nextClientId
    · rw [hjn, hkn]
    · rw [addClient_slot_ne name id e hkn] at hek hname
      rw [hjn, addClient_slot_self, assign_name (Nat.le_of_lt hlen) hz] at hname
      exact absurd hname.symm (hother k hk hkn hek)
    · rw [addClient_slot_ne name id e hjn] at hej hname
      rw [hkn, addClient_slot_self, assign_name (Nat.le_of_lt hlen) hz] at hname
      exact absurd hname (hother j hj hjn hej)
    · rw [addClient_slot_ne name id e hjn] at hej hname
      rw [addClient_slot_ne name id e hkn] at hek hname
      exact h.apart j hj k hk hej hek hname

theorem EntryMove.ok {e e' : ServiceEntry} (h : e.Ok) (hm : EntryMove e e') : e'.Ok := by
  cases hm with
  | same => exact h
  | watched m hm => exact watched_ok h hm
  | client name id hlen hz hnew hroom => exact addClient_ok h id hlen hz hnew hroom

def ServiceTable.Ok (t : ServiceTable) : Prop := ∀ i, (t.entries i).Ok

structure ServiceTable.Kept (t t' : ServiceTable) : Prop where
  entryNum : t'.entryNum = t.entryNum
  entries : ∀ i, (t.entries i).Kept (t'.entries i)

/-- How the table can change while it is not loaded. -/
structure TableMove (t t' : ServiceTable) : Prop where
  entryNum : t'.entryNum = t.entryNum
  entries : ∀ i, EntryMove (t.entries i) (t'.entries i)

theorem TableMove.refl (t : ServiceTable) : TableMove t t := ⟨rfl, fun _ => .same⟩

theorem TableMove.update {t : ServiceTable} {i : ℕ} {e : ServiceEntry}
    (h : EntryMove (t.entries i) e) :
    TableMove t { t with entries := Function.update t.entries i e } := by
  refine ⟨rfl, fun k => ?_⟩
  by_cases hk : k = i
  · subst hk
    simpa using h
  · simpa [hk] using EntryMove.same

theorem TableMove.ok {t t' : ServiceTable} (h : t.Ok) (hm : TableMove t t') : t'.Ok :=
  fun i => (hm.entries i).ok (h i)

theorem TableMove.kept {t t' : ServiceTable} (h : t.Ok) (hm : TableMove t t') : t.Kept t' :=
  ⟨hm.entryNum, fun i => (hm.entries i).kept (h i)⟩

theorem ServiceTable.Kept.trans {t₁ t₂ t₃ : ServiceTable} (h₁ : t₁.Kept t₂) (h₂ : t₂.Kept t₃) :
    t₁.Kept t₃ :=
  ⟨h₂.entryNum.trans h₁.entryNum, fun i => (h₁.entries i).trans (h₂.entries i)⟩

theorem setServiceEntries_ok {ss : List ServiceDef}
    (hfit : ∀ s ∈ ss, s.name.length < serviceNamelenMax) {es : ℕ → ServiceEntry}
    (h : ∀ k, (es k).Ok) (i k : ℕ) : (setServiceEntries i ss es k).Ok := by
  induction ss generalizing i es with
  | nil => exact h k
  | cons s ss ih =>
    have hs := hfit s (by simp)
    rw [setServiceEntries, if_neg (by omega)]
    refine ih (fun x hx => hfit x (by simp [hx])) (fun j => ?_) (i + 1)
    by_cases hj : j = i
    · subst hj
      simpa using fill_ok s (es j)
    · simpa [hj] using h j

theorem setServiceData_ok {services : List ServiceDef}
    (hfit : ∀ s ∈ services, s.name.length < serviceNamelenMax) {t : ServiceTable} (h : t.Ok) :
    (setServiceData services t).Ok :=
  fun k => setServiceEntries_ok hfit h 0 k

/-- What an index answers is true of the table. -/
def NameIndex.Fresh (ix : NameIndex) (t : ServiceTable) : Prop :=
  ∀ name i, ix name = some i →
    i < t.entryNum ∧ (t.entries i).enabled = true ∧ (t.entries i).serviceName = name

theorem rebuild_fresh (t : ServiceTable) : (rebuildServiceNameIndexes t).Fresh t := by
  intro name i h
  have hp := List.find?_some h
  have hm := List.mem_of_find?_eq_some h
  simp only [Bool.and_eq_true, beq_iff_eq] at hp
  exact ⟨by simpa using hm, hp⟩

theorem getServiceId_fresh {ix : NameIndex} {t : ServiceTable} (h : ix.Fresh t) (name : Name) :
    (getServiceId name t ix).1.Fresh t := by
  unfold getServiceId
  split
  · exact h
  · exact rebuild_fresh t

theorem getServiceId_index {ix ix' : NameIndex} {t : ServiceTable} {name : Name} {i : ℕ}
    (h : getServiceId name t ix = (ix', some i)) : ix' name = some i := by
  unfold getServiceId at h
  split at h
  · next hix =>
    obtain ⟨rfl, hi⟩ := Prod.mk.inj h
    rw [hix, hi]
  · obtain ⟨rfl, hi⟩ := Prod.mk.inj h
    exact hi

/-- The tables `u` that a call works on once it has looked after the service table. -/
structure Prepared (services : List ServiceDef) (loads : Prop) (s u : Tables) : Prop where
  events : u.events = s.events
  services : ∃ n, u.services = (setServiceData services)^[n] s.services ∧ (n ≠ 0 → loads)
  fresh : s.index.Fresh s.services ∨ loads → u.index.Fresh u.services

/-- `create_service` finds the table to be of another configuration. -/
def createServiceLoads (services : List ServiceDef) (name : Name) (s : Tables) : Prop :=
  s.services.entryNum ≠ services.length ∨
    (s.services.entryNum < serviceMax ∧ (getServiceId name s.services s.index).2 = none)

theorem load_fresh (services : List ServiceDef) (s : Tables) :
    (s.load services).index.Fresh (s.load services).services := rebuild_fresh _

/-- What a lookup leaves and answers. -/
structure Found (services : List ServiceDef) (loads : Prop) (name : Name) (s : Tables)
    (r : Tables × Option ℕ) : Prop extends Prepared services loads s r.1 where
  index : ∀ i, r.2 = some i → r.1.index name = some i

theorem findService_found {services : List ServiceDef} {name : Name} {s : Tables}
    (hnum : s.services.entryNum = services.length) :
    Found services (createServiceLoads services name s) name s (findService services name s) := by
  simp only [findService, hnum, ne_eq, not_true, if_false]
  by_cases hmax : services.length ≥ serviceMax
  · rw [if_pos hmax]
    refine ⟨⟨rfl, ⟨0, rfl, by simp⟩, ?_⟩, by simp⟩
    rintro (hf | hl | ⟨hlt, -⟩)
    · exact hf
    · exact absurd hnum hl
    · omega
  · rw [if_neg hmax]
    have hfresh : s.index.Fresh s.services → _ := fun hf => getServiceId_fresh hf name
    split
    · next ix i hget =>
      rw [hget] at hfresh
      refine ⟨⟨rfl, ⟨0, rfl, by simp⟩, ?_⟩, fun k hk => Option.some.inj hk ▸ getServiceId_index hget⟩
      rintro (hf | hl | ⟨-, hl⟩)
      · exact hfresh hf
      · exact absurd hnum hl
      · rw [hget] at hl
        simp at hl
    · next ix hget =>
      have hloads : createServiceLoads services name s := Or.inr ⟨by omega, by rw [hget]⟩
      have hv := load_fresh services { s with index := ix }
      exact ⟨⟨rfl, ⟨1, rfl, fun _ => hloads⟩, fun _ => getServiceId_fresh hv name⟩,
        fun i hi => getServiceId_index (Prod.ext rfl hi)⟩

theorem findService_cases (services : List ServiceDef) (name : Name) (s : Tables) :
    Found services (createServiceLoads services name s) name s (findService services name s) := by
  by_cases hnum : s.services.entryNum = services.length
  · exact findService_found hnum
  · have hloads : createServiceLoads services name s := Or.inl hnum
    have hsame : findService services name s = findService services name (s.load services) := by
      simp [findService, hnum, Tables.load, setServiceData]
    have hload : (s.load services).services.entryNum = services.length := rfl
    have hfound : Found services _ name _ _ := findService_found hload
    obtain ⟨⟨hev, ⟨n, hn, -⟩, hfr⟩, hix⟩ := hfound
    rw [← hsame] at hev hn hfr hix
    exact ⟨⟨hev, ⟨n + 1, hn, fun _ => hloads⟩, fun _ => hfr (Or.inl (load_fresh services s))⟩, hix⟩

theorem findServiceForClient_cases (services : List ServiceDef) (name client : Name) (s : Tables) :
    Found services (s.services.entryNum = 0) name s
      (findServiceForClient services name client s) := by
  have hload : Prepared services (s.services.entryNum = 0) s
      (if s.services.entryNum = 0 then s.load services else s) := by
    split
    · next h0 => exact ⟨rfl, ⟨1, rfl, fun _ => h0⟩, fun _ => load_fresh services s⟩
    · next h0 => exact ⟨rfl, ⟨0, rfl, by simp⟩, fun hf => hf.resolve_right h0⟩
  simp only [findServiceForClient]
  generalize (if s.services.entryNum = 0 then s.load services else s) = v at hload ⊢
  split
  · exact ⟨hload, by simp⟩
  · exact ⟨⟨hload.events, hload.services, fun h => getServiceId_fresh (hload.fresh h) name⟩,
      fun i hi => getServiceId_index (Prod.ext rfl hi)⟩

theorem createServiceSlots_move (pid : Pid) (real : ℕ → Option ChannelId) (i : ℕ) (u : Tables) :
    TableMove u.services (createServiceSlots pid real i u).1.services :=
  .update (.watched _ (registerSlots_slot pid real _ _ _))

theorem createClientSlot_move (pid : Pid) (real : ℕ → Option ChannelId) {client : Name}
    (hlen : client.length < clientNamelenMax) (hz : 0 ∉ client) (i : ℕ) (u : Tables) :
    TableMove u.services (createClientSlot pid real client i u).1.services := by
  simp only [createClientSlot]
  split
  · exact .refl _
  · next hnew =>
    split
    · exact .refl _
    · next hroom =>
      split
      · exact .refl _
      · exact .update (.client client _ hlen hz hnew (by omega))

theorem createClientSlot_index (pid : Pid) (real : ℕ → Option ChannelId) (client : Name) (i : ℕ)
    (u : Tables) : (createClientSlot pid real client i u).1.index = u.index := by
  simp only [createClientSlot]
  split
  · rfl
  · split
    · rfl
    · split <;> rfl

theorem createClientSlot_serviceId {pid : Pid} {real : ℕ → Option ChannelId} {client : Name}
    {i j : ℕ} {u : Tables} (h : (createClientSlot pid real client i u).2.serviceId = some j) :
    j = i := by
  simp only [createClientSlot] at h
  split at h
  · simp only [Option.ite_none_right_eq_some, Option.some.injEq] at h
    exact h.2.symm
  · split at h
    · simp at h
    · split at h
      · simp at h
      · exact (Option.some.inj h).symm

theorem createClientSlot_answer {pid : Pid} {real : ℕ → Option ChannelId} {client : Name}
    (hlen : client.length < clientNamelenMax) (hz : 0 ∉ client) {i j k : ℕ} {u : Tables}
    (hok : u.services.Ok) (h : (createClientSlot pid real client i u).2 = ⟨some j, some k⟩) :
    k < (u.services.entries i).maxClients ∧
      (((createClientSlot pid real client i u).1.services.entries i).clientChannelMap k).enabled =
        true ∧
      (((createClientSlot pid real client i u).1.services.entries i).clientChannelMap k).name =
        client := by
  have hroom := (hok i).room
  simp only [createClientSlot] at h ⊢
  split at h
  · next k' hfind =>
    obtain ⟨hk, hen, hname⟩ := findClient_some hfind
    simp only [ClientIds.mk.injEq, Option.some.injEq] at h
    obtain ⟨-, rfl⟩ := h
    exact ⟨by omega, hen, hname⟩
  · split at h
    · simp at h
    · next hfree =>
      rw [if_neg hfree]
      split at h
      · simp at h
      · simp only [ClientIds.mk.injEq, Option.some.injEq] at h
        obtain ⟨-, rfl⟩ := h
        refine ⟨by omega, ?_, ?_⟩
        · simp [addClient_slot_self, ClientChannelMap.assign]
        · simp [addClient_slot_self, assign_name (Nat.le_of_lt hlen) hz]

structure World where
  services : ServiceTable
  events : RecvEvent.Table
  index : Pid → NameIndex

def World.tables (w : World) (pid : Pid) : Tables := ⟨w.services, w.events, w.index pid⟩

def World.put (w : World) (pid : Pid) (s : Tables) : World :=
  ⟨s.services, s.events, Function.update w.index pid s.index⟩

/-- A call of the process `pid`, with the channels that the core knows at that moment. -/
inductive Call
  | createService (pid : Pid) (real : Name → ℕ → Option ChannelId) (name : CName)
  | createServiceClient (pid : Pid) (real : Name → ℕ → Option ChannelId) (name client : CName)

def Call.pid : Call → Pid
  | .createService pid _ _ => pid
  | .createServiceClient pid _ _ _ => pid

def Call.serviceName : Call → Name
  | .createService _ _ name => name.bytes
  | .createServiceClient _ _ name _ => name.bytes

def Call.clientName : Call → Option Name
  | .createService _ _ _ => none
  | .createServiceClient _ _ _ client => some client.bytes

/-- The client's name leaves room for its zero byte in `clientName`. -/
def Call.Short (a : Call) : Prop := ∀ client ∈ a.clientName, client.length < clientNamelenMax

/-- What a call does to the tables, and the ids it returns. -/
def Call.run (config : Pid → List ServiceDef) (a : Call) (s : Tables) : Tables × ClientIds :=
  match a with
  | .createService pid real name =>
    let (s', id) := Service.createService pid (config pid) real name.bytes s
    (s', ⟨id, none⟩)
  | .createServiceClient pid real name client =>
    Service.createServiceClient pid (config pid) real name.bytes client.bytes s

/-- The call rewrites the table from the caller's own configuration. -/
def Call.Loads (config : Pid → List ServiceDef) (a : Call) (s : Tables) : Prop :=
  match a with
  | .createService pid _ name => createServiceLoads (config pid) name.bytes s
  | .createServiceClient _ _ _ _ => s.services.entryNum = 0

def worldStep (config : Pid → List ServiceDef) (w : World) (a : Call) : World :=
  w.put a.pid (a.run config (w.tables a.pid)).1

def answer (config : Pid → List ServiceDef) (w : World) (a : Call) : ClientIds :=
  (a.run config (w.tables a.pid)).2

def Loads (config : Pid → List ServiceDef) (w : World) (a : Call) : Prop :=
  a.Loads config (w.tables a.pid)

def zeroSlot : ClientChannelMap := ⟨false, ⟨List.replicate 64 0, rfl⟩, 0, 0, 0, 0⟩
def zeroEntry : ServiceEntry := ⟨false, [], 0, 0, 0, 0, fun _ => zeroSlot⟩

/-- The tables as the conductor creates them, with no process attached yet. -/
def World.start : World := ⟨⟨0, fun _ => zeroEntry⟩, ⟨[]⟩, fun _ _ => none⟩

theorem start_ok : World.start.services.Ok := by
  intro i
  have hnone : ∀ j, ¬ j < (World.start.services.entries i).maxClients := fun j => Nat.not_lt_zero j
  exact ⟨fun j hj => absurd hj (hnone j), fun j hj => absurd hj (hnone j), Nat.le_refl 0,
    fun j hj => absurd hj (hnone j)⟩

/-- What a call does once the tables are prepared: it moves at most one entry, and what it
returns is true of the tables it leaves. -/
structure CallEffect (config : Pid → List ServiceDef) (a : Call) (s u : Tables) : Prop where
  move : TableMove u.services (a.run config s).1.services
  index : (a.run config s).1.index = u.index
  service : ∀ i, (a.run config s).2.serviceId = some i → u.index a.serviceName = some i
  client : u.services.Ok → ∀ client ∈ a.clientName, ∀ i k,
    (a.run config s).2 = ⟨some i, some k⟩ → k < (u.services.entries i).maxClients ∧
      (((a.run config s).1.services.entries i).clientChannelMap k).enabled = true ∧
      (((a.run config s).1.services.entries i).clientChannelMap k).name = client

theorem createService_effect (config : Pid → List ServiceDef) (pid : Pid)
    (real : Name → ℕ → Option ChannelId) (name : CName) (s : Tables) :
    ∃ u, Prepared (config pid) (createServiceLoads (config pid) name.bytes s) s u ∧
      CallEffect config (.createService pid real name) s u := by
  have hf := findService_cases (config pid) name.bytes s
  refine ⟨_, hf.toPrepared, ?_⟩
  cases hfind : findService (config pid) name.bytes s with
  | mk u o =>
    rw [hfind] at hf
    cases o with
    | none =>
      have hres : createService pid (config pid) real name.bytes s = (u, none) := by
        simp [createService, hfind]
      exact ⟨by simp [Call.run, hres, TableMove.refl], by simp [Call.run, hres],
        by simp [Call.run, hres], by simp [Call.clientName]⟩
    | some i =>
      have hres : createService pid (config pid) real name.bytes s =
          createServiceSlots pid (real name.bytes) i u := by simp [createService, hfind]
      refine ⟨?_, by simp [Call.run, hres, createServiceSlots], fun j hj => ?_,
        by simp [Call.clientName]⟩
      · simpa [Call.run, hres] using createServiceSlots_move pid (real name.bytes) i u
      · simp only [Call.run, hres, createServiceSlots] at hj
        split at hj
        · exact hf.index j (by simpa using hj)
        · simp at hj

theorem createServiceClient_effect (config : Pid → List ServiceDef) (pid : Pid)
    (real : Name → ℕ → Option ChannelId) (name client : CName)
    (hlen : client.bytes.length < clientNamelenMax) (s : Tables) :
    ∃ u, Prepared (config pid) (s.services.entryNum = 0) s u ∧
      CallEffect config (.createServiceClient pid real name client) s u := by
  have hf := findServiceForClient_cases (config pid) name.bytes client.bytes s
  refine ⟨_, hf.toPrepared, ?_⟩
  cases hfind : findServiceForClient (config pid) name.bytes client.bytes s with
  | mk u o =>
    rw [hfind] at hf
    cases o with
    | none =>
      have hres : createServiceClient pid (config pid) real name.bytes client.bytes s =
          (u, ⟨none, none⟩) := by simp [createServiceClient, hfind]
      exact ⟨by simp [Call.run, hres, TableMove.refl], by simp [Call.run, hres],
        by simp [Call.run, hres], by simp [Call.run, hres]⟩
    | some i =>
      have hres : createServiceClient pid (config pid) real name.bytes client.bytes s =
          createClientSlot pid (real name.bytes) client.bytes i u := by
        simp [createServiceClient, hfind]
      refine ⟨?_, ?_, fun j hj => ?_, ?_⟩
      · simpa [Call.run, hres] using
          createClientSlot_move pid (real name.bytes) hlen client.nonul i u
      · simpa [Call.run, hres] using
          createClientSlot_index pid (real name.bytes) client.bytes i u
      · simp only [Call.run, hres] at hj
        exact createClientSlot_serviceId hj ▸ hf.index i rfl
      · intro hok c hc j k hids
        obtain rfl : client.bytes = c := Option.some.inj hc
        simp only [Call.run, hres] at hids ⊢
        obtain rfl := createClientSlot_serviceId (congrArg ClientIds.serviceId hids)
        exact createClientSlot_answer hlen client.nonul hok hids

theorem run_effect (config : Pid → List ServiceDef) {a : Call} (hshort : a.Short) (s : Tables) :
    ∃ u, Prepared (config a.pid) (a.Loads config s) s u ∧ CallEffect config a s u := by
  cases a with
  | createService pid real name => exact createService_effect config pid real name s
  | createServiceClient pid real name client =>
    exact createServiceClient_effect config pid real name client (hshort client.bytes rfl) s

theorem iterate_setServiceData_ok {services : List ServiceDef}
    (hfit : ∀ s ∈ services, s.name.length < serviceNamelenMax) {t : ServiceTable} (h : t.Ok)
    (n : ℕ) : ((setServiceData services)^[n] t).Ok := by
  induction n with
  | zero => exact h
  | succ n ih =>
    rw [Function.iterate_succ_apply']
    exact setServiceData_ok hfit ih

theorem Prepared.ok {services : List ServiceDef} {loads : Prop} {s u : Tables}
    (hfit : ∀ s ∈ services, s.name.length < serviceNamelenMax)
    (hu : Prepared services loads s u) (h : s.services.Ok) : u.services.Ok := by
  obtain ⟨n, hn, -⟩ := hu.services
  rw [hn]
  exact iterate_setServiceData_ok hfit h n

theorem Prepared.same {services : List ServiceDef} {loads : Prop} {s u : Tables}
    (hu : Prepared services loads s u) (h : ¬ loads) : u.services = s.services := by
  obtain ⟨n, hn, hloads⟩ := hu.services
  have h0 : n = 0 := by
    by_contra hne
    exact h (hloads hne)
  rw [hn, h0, Function.iterate_zero_apply]

section Configured

variable {config : Pid → List ServiceDef}
  (hfit : ∀ pid, ∀ s ∈ config pid, s.name.length < serviceNamelenMax)
include hfit

theorem worldStep_ok (w : World) (a : Call) (hok : w.services.Ok) (hshort : a.Short) :
    (worldStep config w a).services.Ok := by
  obtain ⟨u, hu, he⟩ := run_effect config hshort (w.tables a.pid)
  exact he.move.ok (hu.ok (hfit a.pid) hok)

theorem worldStep_kept (w : World) (a : Call) (hok : w.services.Ok) (hshort : a.Short)
    (hno : ¬ Loads config w a) :
    w.services.Kept (worldStep config w a).services := by
  obtain ⟨u, hu, he⟩ := run_effect config hshort (w.tables a.pid)
  have hsame : u.services = w.services := hu.same hno
  have hkept := he.move.kept (hu.ok (hfit a.pid) hok)
  rw [hsame] at hkept
  exact hkept

theorem run_ok {w : World} (hok : w.services.Ok) {as : List Call}
    (hshort : ∀ x ∈ as, x.Short) : (run (worldStep config) w as).services.Ok := by
  induction as generalizing w with
  | nil => exact hok
  | cons a as ih =>
    exact ih (worldStep_ok hfit w a hok (hshort a (by simp))) fun x hx => hshort x (by simp [hx])

theorem run_kept {w : World} (hok : w.services.Ok) {as : List Call}
    (hshort : ∀ x ∈ as, x.Short)
    (hno : Along (worldStep config) (fun w a => ¬ Loads config w a) w as) :
    w.services.Kept (run (worldStep config) w as).services := by
  induction as generalizing w with
  | nil => exact ⟨rfl, fun i => .refl _⟩
  | cons a as ih =>
    have hstep := worldStep_kept hfit w a hok (hshort a (by simp)) hno.1
    have hok' := worldStep_ok hfit w a hok (hshort a (by simp))
    exact hstep.trans (ih hok' (fun x hx => hshort x (by simp [hx])) hno.2)

theorem answer_client {w : World} (hok : w.services.Ok) {a : Call}
    (hshort : a.Short) {client : Name} (hc : client ∈ a.clientName) {i k : ℕ}
    (hans : answer config w a = ⟨some i, some k⟩) :
    k < ((worldStep config w a).services.entries i).maxClients ∧
    (((worldStep config w a).services.entries i).clientChannelMap k).enabled = true ∧
    (((worldStep config w a).services.entries i).clientChannelMap k).name = client := by
  obtain ⟨u, hu, he⟩ := run_effect config hshort (w.tables a.pid)
  have huok := hu.ok (hfit a.pid) hok
  obtain ⟨hk, hrest⟩ := he.client huok client hc i k hans
  have hmax := ((he.move.kept huok).entries i).maxClients
  exact ⟨by rw [show ((worldStep config w a).services.entries i).maxClients = _ from hmax]; exact hk,
    hrest⟩

end Configured

/-- What was handed out by the call `a` at `w`, and what else stood in the table then, stands
in `w'`. -/
structure RegistrationKept (config : Pid → List ServiceDef) (w : World) (a : Call) (w' : World) :
    Prop where
  /-- Names, slots and counters of before are there, the counters not smaller. -/
  table : (worldStep config w a).services.Kept w'.services
  /-- The id names the service, if the caller's index was not older than the last load. -/
  service : ∀ i, (answer config w a).serviceId = some i →
    (w.index a.pid).Fresh w.services ∨ Loads config w a →
    (w'.services.entries i).serviceName = a.serviceName
  /-- The client's slot is enabled, under its name, with the channels of that slot. -/
  client : ∀ client ∈ a.clientName, ∀ i k, answer config w a = ⟨some i, some k⟩ →
    ((w'.services.entries i).clientChannelMap k).enabled = true ∧
    ((w'.services.entries i).clientChannelMap k).name = client ∧
    ((w'.services.entries i).clientChannelMap k).requestChannelId = serverChannelId k ∧
    ((w'.services.entries i).clientChannelMap k).responseChannelId = clientChannelId k
  /-- A later call for another client of the service gets another slot. -/
  apart : ∀ b : Call, b.Short → ¬ Loads config w' b → ∀ client ∈ a.clientName,
    ∀ client' ∈ b.clientName, ∀ i k, answer config w a = ⟨some i, some k⟩ →
    answer config w' b = ⟨some i, some k⟩ → client' = client

theorem kept_of_ok {config : Pid → List ServiceDef}
    (hfit : ∀ pid, ∀ s ∈ config pid, s.name.length < serviceNamelenMax) {w : World}
    (hok : w.services.Ok) {a : Call} (ha : a.Short) {bs : List Call} (hbs : ∀ x ∈ bs, x.Short)
    (hno : Along (worldStep config) (fun w x => ¬ Loads config w x) (worldStep config w a) bs) :
    RegistrationKept config w a (run (worldStep config) (worldStep config w a) bs) := by
  have hok₁ := worldStep_ok hfit w a hok ha
  have hkept := run_kept hfit hok₁ hbs hno
  have hok₂ := run_ok hfit hok₁ hbs
  have hclient : ∀ client ∈ a.clientName, ∀ i k, answer config w a = ⟨some i, some k⟩ →
      k < ((run (worldStep config) (worldStep config w a) bs).services.entries i).maxClients ∧
      (((run (worldStep config) (worldStep config w a) bs).services.entries i).clientChannelMap
        k).enabled = true ∧
      (((run (worldStep config) (worldStep config w a) bs).services.entries i).clientChannelMap
        k).name = client := by
    intro client hc i k hans
    obtain ⟨hk, hen, hname⟩ := answer_client hfit hok ha hc hans
    have hslot := (hkept.entries i).slots k hk hen
    exact ⟨by rw [(hkept.entries i).maxClients]; exact hk, hslot.enabled, hslot.name.trans hname⟩
  constructor
  case table => exact hkept
  case service =>
    intro i hi hfresh
    obtain ⟨u, hu, he⟩ := run_effect config ha (w.tables a.pid)
    have hname := (hu.fresh hfresh a.serviceName i (he.service i hi)).2.2
    have hmove := ((he.move.kept (hu.ok (hfit a.pid) hok)).entries i).name
    exact ((hkept.entries i).name.trans hmove).trans hname
  case client =>
    intro client hc i k hans
    obtain ⟨hk, hen, hname⟩ := hclient client hc i k hans
    have hch := (hok₂ i).channels k hk
    exact ⟨hen, hname, hch.1, hch.2⟩
  case apart =>
    intro b hb hnob client hc client' hc' i k hans hans'
    obtain ⟨hk, hen, hname⟩ := hclient client hc i k hans
    obtain ⟨-, -, hname'⟩ := answer_client hfit hok₂ hb hc' hans'
    have hslot := ((worldStep_kept hfit _ b hok₂ hb hnob).entries i).slots k hk hen
    rw [← hname', hslot.name, hname]

def listed (config : Pid → ServiceConfig) : Pid → List ServiceDef := fun pid => (config pid).services

/-- Between two loads of the table, what the calls of any processes have handed out stays. -/
theorem registration_kept (config : Pid → ServiceConfig) (as : List Call) (a : Call)
    (bs : List Call) (hshort : ∀ x ∈ as ++ a :: bs, x.Short)
    (hno : Along (worldStep (listed config)) (fun w x => ¬ Loads (listed config) w x)
      (worldStep (listed config) (run (worldStep (listed config)) World.start as) a) bs) :
    RegistrationKept (listed config) (run (worldStep (listed config)) World.start as) a
      (run (worldStep (listed config))
        (worldStep (listed config) (run (worldStep (listed config)) World.start as) a) bs) := by
  have hfit : ∀ pid, ∀ s ∈ listed config pid, s.name.length < serviceNamelenMax :=
    fun pid => (config pid).names_fit
  have hok : (run (worldStep (listed config)) World.start as).services.Ok :=
    run_ok hfit start_ok fun x hx => hshort x (List.mem_append_left _ hx)
  exact kept_of_ok hfit hok (hshort a (by simp)) (fun x hx => hshort x (by simp [hx])) hno

def oneService (letter : UInt8) : ServiceConfig where
  services := [⟨[letter], 1, 100, 100⟩]
  entries_fit := by simp [serviceMax]
  slots_fit := by simp [serviceClientMax]
  names_fit := by simp [serviceNamelenMax]

def splitConfig (pid : Pid) : ServiceConfig := if pid = 0 then oneService 120 else oneService 121

def letterName (letter : UInt8) (h : letter ≠ 0) : CName := ⟨[letter], by simpa using h.symm⟩

theorem registration_kept_client :
    RegistrationKept (listed splitConfig) World.start
      (.createServiceClient 0 (fun _ c => some c) (letterName 120 (by decide))
        (letterName 97 (by decide)))
      (worldStep (listed splitConfig) World.start (.createServiceClient 0 (fun _ c => some c)
        (letterName 120 (by decide)) (letterName 97 (by decide)))) :=
  registration_kept splitConfig [] (.createServiceClient 0 (fun _ c => some c)
    (letterName 120 (by decide)) (letterName 97 (by decide))) []
    (by simp [Call.Short, Call.clientName, letterName, clientNamelenMax]) trivial

/-- The client a of x holds slot 0 of entry 0, until the server of y finds the table without
its service: then entry 0 is y, and the slot is no longer taken. -/
theorem registration_lost_by_load :
    let w := worldStep (listed splitConfig) World.start (.createServiceClient 0 (fun _ c => some c)
      (letterName 120 (by decide)) (letterName 97 (by decide)))
    let w' := worldStep (listed splitConfig) w (.createService 1 (fun _ c => some c)
      (letterName 121 (by decide)))
    answer (listed splitConfig) World.start (.createServiceClient 0 (fun _ c => some c)
      (letterName 120 (by decide)) (letterName 97 (by decide))) = ⟨some 0, some 0⟩ ∧
    (w.services.entries 0).serviceName = [120] ∧ (w'.services.entries 0).serviceName = [121] ∧
    ((w.services.entries 0).clientChannelMap 0).enabled = true ∧
    ((w'.services.entries 0).clientChannelMap 0).enabled = false ∧
    (w.services.entries 0).nextClientId = 1 ∧ (w'.services.entries 0).nextClientId = 0 := by
  decide

end Service
end HakoniwaCorePro
