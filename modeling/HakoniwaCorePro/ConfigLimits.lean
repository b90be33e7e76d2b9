import HakoniwaCorePro.ServiceLoad
import HakoniwaCorePro.ServiceSetup

/-!
# Configurations within the limits

`initialize_service` compares nothing that it reads with the sizes of the shared table. What the
file says is here taken from the JSON value directly, over the integers, and compared with what
`set_service_data`, `create_service` and the server make of it.
-/

namespace HakoniwaCorePro
namespace Service

open RecvEvent Fallible

def Json.get (v : Json) (key : String) : Json :=
  match v with
  | .object members => ((members.find? fun m => m.1 == key).map Prod.snd).getD .null
  | _ => .null

def Json.at (path : List String) (v : Json) : Json := path.foldl Json.get v

def Json.number : Json → ℤ
  | .integer n | .decimal n => n
  | .boolean b => if b then 1 else 0
  | _ => 0

def Json.text : Json → Name
  | .string s => s
  | _ => []

def configuredServices (param : Json) : List Json := (param.get "services").items

def configuredName (item : Json) : Name := (item.get "name").text

/-- The number of clients as the `int` that is read. -/
def configuredClients (item : Json) : ℤ := int32 (item.get "maxClients").number

/-- `pduMetaDataSize` + `baseSize` + `heapSize` -/
def configuredSize (side : String) (param item : Json) : ℤ :=
  (param.get "pduMetaDataSize").number + (item.at ["pduSize", side, "baseSize"]).number +
    (item.at ["pduSize", side, "heapSize"]).number

theorem member_ok {key : String} {v w : Json} (h : v.member key = .ok w) : v.get key = w := by
  cases v with
  | object members =>
    simp only [Json.member] at h
    split at h
    · next m hm => simpa [Json.get, hm] using h
    · cases h
  | _ => cases h

theorem memberOrNull_ok {key : String} {v w : Json} (h : v.memberOrNull key = .ok w) :
    v.get key = w := by
  cases v with
  | object members => exact Except.ok.inj h
  | null => exact Except.ok.inj h
  | _ => cases h

theorem toInt_ok {v : Json} {n : ℤ} (h : v.toInt = .ok n) : int32 v.number = n := by
  cases v with
  | integer m => exact Except.ok.inj h
  | decimal m => exact Except.ok.inj h
  | boolean b =>
    cases b with
    | false => exact Except.ok.inj h
    | true => exact Except.ok.inj h
  | _ => cases h

theorem toName_ok {v : Json} {s : Name} (h : v.toName = .ok s) : v.text = s := by
  cases v with
  | string t => exact Except.ok.inj h
  | _ => cases h

theorem nested_ok {item pduSize v w : Json} {side key : String} {n : ℤ}
    (hpdu : item.member "pduSize" = .ok pduSize) (hv : pduSize.member side = .ok v)
    (hw : v.member key = .ok w) (hn : w.toInt = .ok n) :
    int32 (item.at ["pduSize", side, key]).number = n := by
  simp only [Json.at, List.foldl, member_ok hpdu, member_ok hv, member_ok hw]
  exact toInt_ok hn

/-- What `pdu_size_request` and `pdu_size_response`, which are `int`, hold of a `size_t`. -/
theorem int32_totalSize (a b c : ℤ) :
    int32 (totalSize (int32 a) (int32 b) (int32 c)) = int32 (a + b + c) := by
  have hmod : ∀ n : ℤ, int32 (sizeT n) = int32 n := by
    intro n
    have hpos : 0 ≤ n % 2 ^ 64 := Int.emod_nonneg _ (by decide)
    unfold int32 sizeT
    rw [Int.toNat_of_nonneg hpos]
    rw [← Int.emod_bmod (n % 2 ^ 64), ← Int.emod_bmod n]
    congr 1
    exact Int.emod_emod_of_dvd n (by decide)
  rw [totalSize, hmod]
  simp only [int32, Int.bmod_bmod, Int.bmod_add_bmod, Int.add_bmod_bmod]

structure ReadFrom (param item : Json) (s : ConfiguredService) : Prop where
  name : s.name = configuredName item
  maxClients : s.maxClients = configuredClients item
  serverTotalSize : int32 s.serverTotalSize = int32 (configuredSize "server" param item)
  clientTotalSize : int32 s.clientTotalSize = int32 (configuredSize "client" param item)

theorem readService_ok {param item : Json} {m : ℤ} {s : ConfiguredService}
    (hm : int32 (param.get "pduMetaDataSize").number = m) (h : readService m item = .ok s) :
    ReadFrom param item s := by
  simp only [readService, bind_ok_iff] at h
  obtain ⟨_, hname, name, hname', _, -, type, -, _, hmax, maxClients, hmax', pduSize, hpdu,
    _, hs₁, _, hs₂, serverBase, hs₃, _, hc₁, _, hc₂, clientBase, hc₃,
    _, hs₄, _, hs₅, serverHeap, hs₆, _, hc₄, _, hc₅, clientHeap, hc₆, h⟩ := h
  obtain rfl := Except.ok.inj h
  constructor
  case name => rw [configuredName, member_ok hname, toName_ok hname']
  case maxClients => rw [configuredClients, member_ok hmax, toInt_ok hmax']
  case serverTotalSize =>
    rw [← hm, ← nested_ok hpdu hs₁ hs₂ hs₃, ← nested_ok hpdu hs₄ hs₅ hs₆]
    exact int32_totalSize _ _ _
  case clientTotalSize =>
    rw [← hm, ← nested_ok hpdu hc₁ hc₂ hc₃, ← nested_ok hpdu hc₄ hc₅ hc₆]
    exact int32_totalSize _ _ _

/-- The services that the process keeps if the core refuses no channel. -/
def readServices (param : Json) : Access (List ConfiguredService) := do
  let (m, items) ← readConfig param
  items.mapM (readService m)

theorem readServices_ok {param : Json} {ss : List ConfiguredService}
    (h : readServices param = .ok ss) :
    List.Forall₂ (ReadFrom param) (configuredServices param) ss := by
  simp only [readServices, readConfig, bind_ok_iff, mapM_ok_iff] at h
  obtain ⟨_, ⟨_, hmeta, m, hm, services, hservices, hpair⟩, hitems⟩ := h
  obtain rfl := Except.ok.inj hpair
  rw [configuredServices, memberOrNull_ok hservices]
  refine hitems.imp fun item s hs => readService_ok ?_ hs
  rw [memberOrNull_ok hmeta]
  exact toInt_ok hm

section

variable {σ : Type}

theorem initializeItems_accepted {core : Core σ} {m : ℤ} {items : List Json} {p p' : Process σ}
    (h : initializeItems core m items p = (p', .returned true)) :
    ∃ ss, items.mapM (readService m) = .ok ss ∧ p'.services = p.services ++ ss := by
  induction items generalizing p with
  | nil =>
    obtain rfl := (Prod.mk.inj h).1
    exact ⟨[], rfl, (List.append_nil _).symm⟩
  | cons item items ih =>
    simp only [initializeItems] at h
    split at h
    · simp at h
    · simp at h
    · next s hs =>
      split at h
      · simp at h
      · obtain ⟨ss, hss, hp⟩ := ih h
        refine ⟨s :: ss, ?_, ?_⟩
        · rw [mapM_ok_iff] at hss ⊢
          exact .cons hs hss
        · simpa using hp

/-- The core creates every channel it is asked for. -/
def Core.Willing (core : Core σ) : Prop := ∀ name id size w, (core.createLchannel name id size w).1 = true

theorem createChannels_willing {core : Core σ} (h : core.Willing) (s : ConfiguredService)
    (is : List ℕ) (w : σ) : (createChannels core s is w).1 = true := by
  induction is generalizing w with
  | nil => rfl
  | cons i is ih =>
    have h₁ := h s.name (serverChannelId i) s.serverTotalSize w
    simp only [createChannels]
    split
    · next w' hw =>
      rw [hw] at h₁
      cases h₁
    · next w' hw =>
      have h₂ := h s.name (clientChannelId i) s.clientTotalSize w'
      split
      · next w'' hw' =>
        rw [hw'] at h₂
        cases h₂
      · exact ih _

theorem initializeItems_willing {core : Core σ} (hcore : core.Willing) {m : ℤ}
    {items : List Json} {ss : List ConfiguredService} (h : items.mapM (readService m) = .ok ss)
    (p : Process σ) : ∃ w, initializeItems core m items p = (⟨p.services ++ ss, w⟩, .returned true) := by
  rw [mapM_ok_iff] at h
  induction h generalizing p with
  | nil => exact ⟨p.channels, by simp [initializeItems]⟩
  | @cons item s items ss hs _ ih =>
    have hall := createChannels_willing hcore s (List.range s.maxClients.toNat) p.channels
    simp only [initializeItems, hs]
    split
    · next w hw =>
      rw [← ConfiguredService.createAll, hw] at hall
      cases hall
    · next w hw =>
      obtain ⟨w', hw'⟩ := ih ⟨p.services ++ [s], w⟩
      exact ⟨w', by simpa using hw'⟩

theorem initializeService_accepted {core : Core σ} {param : Json} {p p' : Process σ}
    (h : initializeService core (.parsed param) p = (p', .returned true)) :
    ∃ ss, readServices param = .ok ss ∧ p'.services = p.services ++ ss := by
  simp only [initializeService] at h
  split at h
  · simp at h
  · simp at h
  · next m items hread =>
    obtain ⟨ss, hss, hp⟩ := initializeItems_accepted h
    exact ⟨ss, bind_ok_iff.mpr ⟨(m, items), hread, hss⟩, hp⟩

theorem initializeService_willing {core : Core σ} (hcore : core.Willing) {param : Json}
    {ss : List ConfiguredService} (h : readServices param = .ok ss) (p : Process σ) :
    ∃ w, initializeService core (.parsed param) p = (⟨p.services ++ ss, w⟩, .returned true) := by
  obtain ⟨⟨m, items⟩, hread, hss⟩ := bind_ok_iff.mp h
  simp only [initializeService, hread]
  exact initializeItems_willing hcore hss p

end

/-- The entries that `set_service_data` indexes, in its loop and where it builds the index. -/
def indexedEntries (services : List ServiceDef) : List ℕ :=
  touchedEntries 0 services ++ List.range services.length

/-- The slots that `set_service_data` indexes, and those that `create_service` and the server
index in the entries of the table. -/
def indexedSlots (services : List ServiceDef) (t : ServiceTable) : List ℕ :=
  touchedSlots services ++
    (List.range t.entryNum).flatMap fun i => List.range (t.entries i).maxClients

/-- The clients of the server that is built for the service, by which it counts its turns; for
a negative number `state_.resize` throws. -/
def ConfiguredService.serverClients (s : ConfiguredService) : Option ℕ :=
  if s.maxClients < 0 then none else some s.maxClients.toNat

/-- The entry has the name and the sizes of the item. -/
structure ServiceEntry.Configured (param item : Json) (e : ServiceEntry) : Prop where
  enabled : e.enabled = true
  name : e.serviceName = configuredName item
  request : int32 e.pduSizeRequest = configuredSize "server" param item
  response : int32 e.pduSizeResponse = configuredSize "client" param item
  requestPositive : 0 < configuredSize "server" param item
  responsePositive : 0 < configuredSize "client" param item

/-- The table `t` was filled from the services `ss` of the file. -/
structure TableUsable (param : Json) (ss : List ConfiguredService) (t : ServiceTable) : Prop where
  entriesInBounds : ∀ i ∈ indexedEntries (ss.map ConfiguredService.toDef), i < serviceMax
  slotsInBounds : ∀ j ∈ indexedSlots (ss.map ConfiguredService.toDef) t, j < serviceClientMax
  entryNum : t.entryNum = (configuredServices param).length
  entries : ∀ i item, (configuredServices param)[i]? = some item →
    (t.entries i).Configured param item
  server : ∀ s ∈ ss, ∃ n, s.serverClients = some n ∧ 0 < n

/-- The configurations of which it is said that they are accepted. -/
structure GoodConfig (param : Json) : Prop where
  readable : ∃ ss, readServices param = .ok ss
  count : (configuredServices param).length ≤ serviceMax
  names : ∀ item ∈ configuredServices param, (configuredName item).length < serviceNamelenMax
  clients : ∀ item ∈ configuredServices param,
    1 ≤ configuredClients item ∧ configuredClients item ≤ serviceClientMax
  sizes : ∀ item ∈ configuredServices param,
    0 < configuredSize "server" param item ∧ 0 < configuredSize "client" param item

/-- The channels of the service that `create_service` finds are known to the core, and there is
room for their events. -/
def EventsAvailable (services : List ServiceDef) (real : ℕ → Option ChannelId) (name : Name)
    (u : Tables) : Prop :=
  ∀ i ∈ (findService services name u).2,
    let v := (findService services name u).1
    v.events.entryNum + (v.services.entries i).maxClients ≤ recvEventMax ∧
    ∀ j < (v.services.entries i).maxClients, (real (serverChannelId j)).isSome

theorem createService_succeeds {services : List ServiceDef} {real : Name → ℕ → Option ChannelId}
    {name : Name} {u : Tables} (hfound : (findService services name u).2.isSome)
    (havailable : EventsAvailable services (real name) name u) (pid : Pid) :
    (createService pid services real name u).2.isSome := by
  obtain ⟨i, hi⟩ := Option.isSome_iff_exists.mp hfound
  obtain ⟨hroom, hreal⟩ := havailable i hi
  have hslots := registerSlots_succeeds pid (fun j hj => hreal j (List.mem_range.mp hj))
    (by simpa using hroom)
  rw [createService_found hi]
  simp only [createServiceSlots]
  split
  · rfl
  · next hno => exact absurd (hslots _) hno

/-- A configuration that is accepted is usable, whatever the table was filled with before; and a
good one is accepted, and each of its services can be created. -/
structure AcceptedUsable (param : Json) : Prop where
  usable : ∀ {σ : Type} (core : Core σ) (w : σ) (p : Process σ),
    initializeService core (.parsed param) ⟨[], w⟩ = (p, .returned true) →
    ∀ t : ServiceTable,
      TableUsable param p.services (setServiceData (p.services.map ConfiguredService.toDef) t)
  accepted : GoodConfig param → ∀ {σ : Type} (core : Core σ) (w : σ), core.Willing →
    ∃ p : Process σ, initializeService core (.parsed param) ⟨[], w⟩ = (p, .returned true) ∧
      ∀ s ∈ p.services, ∀ pid real u,
        EventsAvailable (p.services.map ConfiguredService.toDef) (real s.name) s.name u →
        (createService pid (p.services.map ConfiguredService.toDef) real s.name u).2.isSome

/-- Sizes that are positive as an `int`, a name that its C string gives back, and clients for
every slot of which there is room, and one at least. -/
structure ItemInLimits (param item : Json) : Prop where
  nameLength : (configuredName item).length < serviceNamelenMax
  nonul : 0 ∉ configuredName item
  clients : 1 ≤ configuredClients item ∧ configuredClients item ≤ serviceClientMax
  server : 0 < configuredSize "server" param item ∧ configuredSize "server" param item < 2 ^ 31
  client : 0 < configuredSize "client" param item ∧ configuredSize "client" param item < 2 ^ 31

/-- `create_service` takes a table of `HAKO_SERVICE_MAX` services for full. -/
structure InLimits (param : Json) : Prop where
  count : (configuredServices param).length < serviceMax
  items : ∀ item ∈ configuredServices param, ItemInLimits param item

def willingCore : Core Unit := ⟨fun _ _ _ w => (true, w)⟩

theorem start_namesFit : World.start.services.NamesFit := fun _ => Nat.zero_lt_succ _

theorem fill_configured {param item : Json} {s : ConfiguredService} (hfrom : ReadFrom param item s)
    (hin : ItemInLimits param item) (e : ServiceEntry) : (e.fill s.toDef).Configured param item := by
  have hsize : ∀ side, 0 < configuredSize side param item ∧ configuredSize side param item < 2 ^ 31 →
      int32 (configuredSize side param item) = configuredSize side param item := by
    intro side hside
    apply (int32_eq_iff _).mpr
    omega
  constructor
  case enabled => rfl
  case name =>
    rw [← hfrom.name]
    exact (cString_eq_self_iff s.name).mpr (hfrom.name ▸ hin.nonul)
  case request => exact hfrom.serverTotalSize.trans (hsize "server" hin.server)
  case response => exact hfrom.clientTotalSize.trans (hsize "client" hin.client)
  case requestPositive => exact hin.server.1
  case responsePositive => exact hin.client.1

section

variable {param : Json} {ss : List ConfiguredService} (hread : readServices param = .ok ss)
include hread

theorem readServices_length : (configuredServices param).length = ss.length :=
  (readServices_ok hread).length_eq

theorem readServices_item {i : ℕ} {item : Json} (hi : (configuredServices param)[i]? = some item) :
    ∃ s, ss[i]? = some s ∧ ReadFrom param item s := by
  obtain ⟨hlt, rfl⟩ := List.getElem?_eq_some_iff.mp hi
  have hlt' : i < ss.length := readServices_length hread ▸ hlt
  refine ⟨ss[i], List.getElem?_eq_getElem hlt', ?_⟩
  exact (List.forall₂_iff_get.mp (readServices_ok hread)).2 i hlt hlt'

theorem readServices_service {s : ConfiguredService} (hs : s ∈ ss) :
    ∃ item ∈ configuredServices param, ReadFrom param item s := by
  obtain ⟨i, hlt, rfl⟩ := List.getElem_of_mem hs
  have hlt' : i < (configuredServices param).length := readServices_length hread ▸ hlt
  obtain ⟨s, hs, hfrom⟩ := readServices_item hread (List.getElem?_eq_getElem hlt')
  rw [List.getElem?_eq_getElem hlt, Option.some.injEq] at hs
  exact ⟨_, List.getElem_mem hlt', hs ▸ hfrom⟩

theorem names_fit (h : ∀ item ∈ configuredServices param,
      (configuredName item).length < serviceNamelenMax) :
    ∀ d ∈ ss.map ConfiguredService.toDef, d.name.length < serviceNamelenMax := by
  intro d hd
  obtain ⟨s, hs, rfl⟩ := List.mem_map.mp hd
  obtain ⟨item, hitem, hfrom⟩ := readServices_service hread hs
  rw [ConfiguredService.toDef, hfrom.name]
  exact h item hitem

theorem filled_entry (h : ∀ item ∈ configuredServices param,
      (configuredName item).length < serviceNamelenMax) (t : ServiceTable) {i : ℕ} {item : Json}
    (hi : (configuredServices param)[i]? = some item) :
    ∃ s, s ∈ ss ∧ ReadFrom param item s ∧
      (setServiceData (ss.map ConfiguredService.toDef) t).entries i =
        (t.entries i).fill s.toDef := by
  obtain ⟨s, hs, hfrom⟩ := readServices_item hread hi
  refine ⟨s, List.mem_of_getElem? hs, hfrom, ?_⟩
  apply setServiceData_fill (names_fit hread h)
  rw [List.getElem?_map, hs]
  rfl

theorem clients_fit (h : InLimits param) :
    ∀ d ∈ ss.map ConfiguredService.toDef, d.maxClients ≤ serviceClientMax := by
  intro d hd
  obtain ⟨s, hs, rfl⟩ := List.mem_map.mp hd
  obtain ⟨item, hitem, hfrom⟩ := readServices_service hread hs
  have hmax := (h.items item hitem).clients.2
  rw [← hfrom.maxClients] at hmax
  exact Int.toNat_le.mpr hmax

theorem usable_of_inLimits (h : InLimits param) (t : ServiceTable) :
    TableUsable param ss (setServiceData (ss.map ConfiguredService.toDef) t) := by
  have hlength := readServices_length hread
  have hnames := fun item hitem => (h.items item hitem).nameLength
  have hclients := clients_fit hread h
  constructor
  case entriesInBounds =>
    intro i hi
    have hlt : i < (configuredServices param).length := by
      rw [hlength]
      rcases List.mem_append.mp hi with hi | hi
      · simpa using (le_of_mem_touchedEntries hi).2
      · simpa using hi
    exact Nat.lt_trans hlt h.count
  case slotsInBounds =>
    intro j hj
    rcases List.mem_append.mp hj with hj | hj
    · obtain ⟨d, hd, hlt⟩ := mem_touchedSlots hj
      exact Nat.lt_of_lt_of_le hlt (hclients d hd)
    · simp only [List.mem_flatMap, List.mem_range] at hj
      obtain ⟨i, hi, hlt⟩ := hj
      have hi' : i < (configuredServices param).length := by
        rw [hlength]
        simpa [setServiceData] using hi
      obtain ⟨s, hs, -, hfill⟩ := filled_entry hread hnames t (List.getElem?_eq_getElem hi')
      rw [hfill] at hlt
      exact Nat.lt_of_lt_of_le hlt (hclients _ (List.mem_map_of_mem hs))
  case entryNum => simp [setServiceData, hlength]
  case entries =>
    intro i item hi
    obtain ⟨s, hs, hfrom, hfill⟩ := filled_entry hread hnames t hi
    rw [hfill]
    exact fill_configured hfrom (h.items item (List.mem_of_getElem? hi)) _
  case server =>
    intro s hs
    obtain ⟨item, hitem, hfrom⟩ := readServices_service hread hs
    have hmin := (h.items item hitem).clients.1
    rw [← hfrom.maxClients] at hmin
    exact ⟨s.maxClients.toNat, if_neg (by omega), by omega⟩

theorem accepted_of_inLimits (h : InLimits param) {σ : Type} {core : Core σ}
    (hcore : core.Willing) (w : σ) :
    ∃ p : Process σ, initializeService core (.parsed param) ⟨[], w⟩ = (p, .returned true) ∧
      ∀ s ∈ p.services, ∀ pid real u,
        EventsAvailable (p.services.map ConfiguredService.toDef) (real s.name) s.name u →
        (createService pid (p.services.map ConfiguredService.toDef) real s.name u).2.isSome := by
  obtain ⟨w', hp⟩ := initializeService_willing hcore hread ⟨[], w⟩
  refine ⟨⟨ss, w'⟩, hp, ?_⟩
  intro s hs pid real u havailable
  obtain ⟨item, hitem, hfrom⟩ := readServices_service hread hs
  have hz : 0 ∉ s.toDef.name := by
    rw [ConfiguredService.toDef, hfrom.name]
    exact (h.items item hitem).nonul
  have hfound := findService_isSome
    (names_fit hread fun item hitem => (h.items item hitem).nameLength)
    (List.mem_map_of_mem hs) hz (by simpa [← readServices_length hread] using h.count) u
  exact createService_succeeds hfound havailable pid

theorem AcceptedUsable.table (h : AcceptedUsable param) :
    TableUsable param ss (setServiceData (ss.map ConfiguredService.toDef) World.start.services) := by
  have hwilling : willingCore.Willing := fun _ _ _ _ => rfl
  obtain ⟨w, hp⟩ := initializeService_willing hwilling hread ⟨[], ()⟩
  exact h.usable willingCore () ⟨ss, w⟩ hp World.start.services

theorem AcceptedUsable.items (h : AcceptedUsable param) :
    ∀ item ∈ configuredServices param, ItemInLimits param item := by
  have htable := h.table hread
  have hnames : ∀ item ∈ configuredServices param,
      (configuredName item).length < serviceNamelenMax := by
    intro item hitem
    obtain ⟨i, hi⟩ := List.getElem?_of_mem hitem
    rw [← (htable.entries i item hi).name]
    exact setServiceData_namesFit _ start_namesFit i
  intro item hitem
  obtain ⟨i, hi⟩ := List.getElem?_of_mem hitem
  obtain ⟨s, hs, hfrom, hfill⟩ := filled_entry hread hnames World.start.services hi
  have hentry := htable.entries i item hi
  have hi' : i < (configuredServices param).length := (List.getElem?_eq_some_iff.mp hi).1
  have hslots := htable.slotsInBounds
  rw [hfill] at hentry
  have hrange : ∀ n : ℤ, 0 < n → int32 n = n → 0 < n ∧ n < 2 ^ 31 := by
    intro n hpos hn
    exact ⟨hpos, ((int32_eq_iff n).mp hn).2⟩
  constructor
  case nameLength => exact hnames item hitem
  case nonul =>
    rw [← hfrom.name]
    exact (cString_eq_self_iff s.name).mp (hentry.name.trans hfrom.name.symm)
  case clients =>
    obtain ⟨n, hn, hpos⟩ := htable.server s hs
    rw [← hfrom.maxClients]
    constructor
    · simp only [ConfiguredService.serverClients, Option.ite_none_left_eq_some,
        Option.some.injEq] at hn
      omega
    · by_contra hmany
      apply Nat.lt_irrefl serviceClientMax
      apply hslots
      apply List.mem_append_right
      simp only [List.mem_flatMap, List.mem_range]
      refine ⟨i, htable.entryNum ▸ hi', ?_⟩
      rw [hfill]
      exact Int.lt_toNat.mpr (Int.not_le.mp hmany)
  case server =>
    exact hrange _ hentry.requestPositive (hfrom.serverTotalSize.symm.trans hentry.request)
  case client =>
    exact hrange _ hentry.responsePositive (hfrom.clientTotalSize.symm.trans hentry.response)

theorem AcceptedUsable.inLimits (h : AcceptedUsable param) : InLimits param := by
  have hitems := h.items hread
  have hlength := readServices_length hread
  have hcount : (configuredServices param).length ≤ serviceMax := by
    by_contra hmany
    apply Nat.lt_irrefl serviceMax
    apply (h.table hread).entriesInBounds
    apply List.mem_append_right
    simp only [List.length_map, List.mem_range]
    omega
  refine ⟨Nat.lt_of_le_of_ne hcount ?_, hitems⟩
  intro hfull
  have hgood : GoodConfig param :=
    ⟨⟨ss, hread⟩, hcount, fun item hi => (hitems item hi).nameLength,
      fun item hi => (hitems item hi).clients,
      fun item hi => ⟨(hitems item hi).server.1, (hitems item hi).client.1⟩⟩
  obtain ⟨p, hp, hcreated⟩ := h.accepted hgood willingCore () (fun _ _ _ _ => rfl)
  obtain ⟨ss', hss', hservices⟩ := initializeService_accepted hp
  obtain rfl := Except.ok.inj (hread.symm.trans hss')
  rw [List.nil_append] at hservices
  rw [hservices] at hcreated
  have hpos : 0 < ss.length := by
    rw [← hlength, hfull]
    decide
  have hmem : ss[0] ∈ ss := List.getElem_mem hpos
  have hnone : ∀ name, (findService (ss.map ConfiguredService.toDef) name (World.start.tables 0)).2 = none :=
    fun name => findService_full (by simp [← hlength, hfull]) name _
  have hsome := hcreated _ hmem 0 (fun _ c => some c) (World.start.tables 0) (by simp [EventsAvailable, hnone])
  rw [createService_missing (hnone _)] at hsome
  cases hsome

end

def sizesItem : Json := .object [("baseSize", .integer 100), ("heapSize", .integer 0)]

def configOfX (maxClients : ℤ) : Json :=
  .object [("pduMetaDataSize", .integer 24),
    ("services", .array [.object [("name", .string [120]), ("type", .string [116]),
      ("maxClients", .integer maxClients),
      ("pduSize", .object [("server", sizesItem), ("client", sizesItem)])]])]

end Service
end HakoniwaCorePro
