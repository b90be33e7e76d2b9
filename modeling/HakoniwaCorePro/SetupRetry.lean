import HakoniwaCorePro.ConfigLimits

/-!
# Setting up again after a failure

`initialize_service` appends each service once it has been read and its channels are created, and
`create_service` loads the table and registers one event after the other; neither takes back what
it has done when a later step fails.
-/

namespace HakoniwaCorePro
namespace Service

open RecvEvent Fallible

section

variable {σ : Type}

/-- The list of the process is what it was before, and a call that is accepted later leaves the
list it would have left then. -/
structure ListKept (p p' : Process σ) : Prop where
  services : p'.services = p.services
  retry : ∀ (core₁ core₂ : Core σ) (text : ConfigText) (w₁ w₂ : σ) (q₁ q₂ : Process σ),
    initializeService core₁ text ⟨p'.services, w₁⟩ = (q₁, .returned true) →
    initializeService core₂ text ⟨p.services, w₂⟩ = (q₂, .returned true) →
    q₁.services = q₂.services

/-- The configuration has a first service that can be read, and the core creates its channels. -/
def FirstPasses (core : Core σ) (text : ConfigText) (w : σ) : Prop :=
  ∃ param m item items s, text = .parsed param ∧ readConfig param = .ok (m, item :: items) ∧
    readService m item = .ok s ∧ (s.createAll core w).1 = true

theorem initializeService_retry {core₁ core₂ : Core σ} {text : ConfigText} {p₁ p₂ q₁ q₂ : Process σ}
    (h₁ : initializeService core₁ text p₁ = (q₁, .returned true))
    (h₂ : initializeService core₂ text p₂ = (q₂, .returned true))
    (hsame : p₁.services = p₂.services) : q₁.services = q₂.services := by
  cases text with
  | parsed param =>
    obtain ⟨ss₁, hss₁, hq₁⟩ := initializeService_accepted h₁
    obtain ⟨ss₂, hss₂, hq₂⟩ := initializeService_accepted h₂
    obtain rfl := Except.ok.inj (hss₁.symm.trans hss₂)
    rw [hq₁, hq₂, hsame]
  | _ => simp [initializeService] at h₁

theorem listKept_iff (p p' : Process σ) : ListKept p p' ↔ p'.services = p.services := by
  constructor
  · intro h
    exact h.services
  · intro h
    refine ⟨h, ?_⟩
    intro core₁ core₂ text w₁ w₂ q₁ q₂ h₁ h₂
    exact initializeService_retry h₁ h₂ h

theorem initializeItems_prefix (core : Core σ) (m : ℤ) (items : List Json) (p : Process σ) :
    p.services <+: (initializeItems core m items p).1.services := by
  induction items generalizing p with
  | nil => exact List.prefix_refl _
  | cons item items ih =>
    simp only [initializeItems]
    split
    · exact List.prefix_refl _
    · exact List.prefix_refl _
    · next s _ =>
      split
      · exact List.prefix_refl _
      · next w _ =>
        apply List.IsPrefix.trans _ (ih ⟨p.services ++ [s], w⟩)
        exact List.prefix_append _ _

theorem initializeItems_services_iff {core : Core σ} {m : ℤ} {items : List Json}
    {p p' : Process σ} (h : initializeItems core m items p = (p', .returned false)) :
    p'.services = p.services ↔
      ¬ ∃ item rest s, items = item :: rest ∧ readService m item = .ok s ∧
        (s.createAll core p.channels).1 = true := by
  cases items with
  | nil => simp [initializeItems] at h
  | cons item items =>
    simp only [initializeItems] at h
    split at h
    · next hs =>
      obtain rfl := (Prod.mk.inj h).1
      simp [hs]
    · simp at h
    · next s hs =>
      split at h
      · next w hw =>
        obtain rfl := (Prod.mk.inj h).1
        simp [hs, hw]
      · next w hw =>
        have hmore := initializeItems_prefix core m items ⟨p.services ++ [s], w⟩
        rw [h] at hmore
        have hlonger := hmore.length_le
        constructor
        · intro hsame
          rw [hsame] at hlonger
          simp only [List.length_append, List.length_singleton] at hlonger
          omega
        · intro hnot
          exact absurd ⟨item, items, s, rfl, hs, by rw [hw]⟩ hnot

theorem initializeService_kept_iff {core : Core σ} {text : ConfigText} {p p' : Process σ}
    (h : initializeService core text p = (p', .returned false)) :
    ListKept p p' ↔ ¬ FirstPasses core text p.channels := by
  rw [listKept_iff]
  cases text with
  | parsed param =>
    simp only [initializeService] at h
    split at h
    · next hread =>
      obtain rfl := (Prod.mk.inj h).1
      simp [FirstPasses, hread]
    · simp at h
    · next m items hread =>
      rw [initializeItems_services_iff h]
      simp [FirstPasses, hread]
  | _ =>
    obtain rfl := (Prod.mk.inj h).1
    simp [FirstPasses]

end

/-- The shared tables are what they were before, and the service is created later as it would
have been then. -/
structure TablesKept (name : Name) (s s' : Tables) : Prop where
  services : s'.services = s.services
  events : s'.events = s.events
  retry : ∀ (pid : Pid) (services : List ServiceDef) (real : Name → ℕ → Option ChannelId),
    let r := createService pid services real name s
    let r' := createService pid services real name s'
    r'.2 = r.2 ∧ r'.1.services = r.1.services ∧ r'.1.events = r.1.events

/-- Equal tables in which a lookup of the name gives the same. -/
structure SameLookup (name : Name) (s s' : Tables) : Prop where
  services : s'.services = s.services
  events : s'.events = s.events
  lookup : (getServiceId name s'.services s'.index).2 = (getServiceId name s.services s.index).2

theorem findService_sameLookup {name : Name} {s s' : Tables} (h : SameLookup name s s')
    (services : List ServiceDef) :
    (findService services name s').2 = (findService services name s).2 ∧
      (findService services name s').1.services = (findService services name s).1.services ∧
      (findService services name s').1.events = (findService services name s).1.events := by
  obtain ⟨t', e', ix'⟩ := s'
  obtain ⟨t, e, ix⟩ := s
  obtain ⟨rfl, rfl, hlookup⟩ := h
  by_cases hnum : t'.entryNum = services.length
  · by_cases hmax : services.length ≥ serviceMax
    · simp [findService, hnum, hmax]
    · simp only [findService, hnum, ne_eq, not_true, if_false, hmax]
      cases hget : getServiceId name t' ix with
      | mk ix₁ o =>
        cases hget' : getServiceId name t' ix' with
        | mk ix₁' o' =>
          simp only [hget, hget'] at hlookup
          subst hlookup
          cases o' with
          | some i => exact ⟨rfl, rfl, rfl⟩
          | none => simp [Tables.load]
  · simp [findService, hnum, Tables.load]

theorem createService_sameLookup {name : Name} {s s' : Tables} (h : SameLookup name s s')
    (pid : Pid) (services : List ServiceDef) (real : Name → ℕ → Option ChannelId) :
    let r := createService pid services real name s
    let r' := createService pid services real name s'
    r'.2 = r.2 ∧ r'.1.services = r.1.services ∧ r'.1.events = r.1.events := by
  obtain ⟨hfound, hservices, hevents⟩ := findService_sameLookup h services
  cases hfind : (findService services name s).2 with
  | none =>
    simp only [createService_missing hfind, createService_missing (hfound.trans hfind)]
    exact ⟨trivial, hservices, hevents⟩
  | some i =>
    simp only [createService_found hfind, createService_found (hfound.trans hfind),
      createServiceSlots, hservices, hevents]
    exact ⟨trivial, trivial, trivial⟩

theorem findService_hit {services : List ServiceDef} {name : Name} {s : Tables} {i : ℕ}
    (hnum : s.services.entryNum = services.length) (hmax : services.length < serviceMax)
    (h : (getServiceId name s.services s.index).2 = some i) :
    findService services name s =
      ({ s with index := (getServiceId name s.services s.index).1 }, some i) := by
  simp only [findService, hnum, ne_eq, not_true, if_false, ge_iff_le, Nat.not_le.mpr hmax]
  cases hget : getServiceId name s.services s.index with
  | mk ix o =>
    rw [hget] at h
    subst h
    rfl

theorem findService_miss {services : List ServiceDef} {name : Name} {s : Tables}
    (hnum : s.services.entryNum = services.length) (hmax : services.length < serviceMax)
    (h : (getServiceId name s.services s.index).2 = none) :
    findService services name s =
      (s.load services, rebuildServiceNameIndexes (setServiceData services s.services) name) := by
  simp only [findService, hnum, ne_eq, not_true, if_false, ge_iff_le, Nat.not_le.mpr hmax]
  cases hget : getServiceId name s.services s.index with
  | mk ix o =>
    rw [hget] at h
    subst h
    simp [Tables.load]

theorem findService_entryNum (services : List ServiceDef) (name : Name) (s : Tables) :
    (findService services name s).1.services.entryNum = services.length := by
  by_cases hnum : s.services.entryNum = services.length
  · by_cases hmax : services.length < serviceMax
    · cases hget : (getServiceId name s.services s.index).2 with
      | some i =>
        rw [findService_hit hnum hmax hget]
        exact hnum
      | none =>
        rw [findService_miss hnum hmax hget]
        rfl
    · simp [findService, hnum, Nat.not_lt.mp hmax]
  · simp only [findService, ne_eq, hnum, not_false_eq_true, if_true]
    split
    · rfl
    · split
      · rfl
      · rfl

theorem getServiceId_again (name : Name) (t : ServiceTable) (ix : NameIndex) :
    (getServiceId name t (getServiceId name t ix).1).2 = (getServiceId name t ix).2 := by
  cases h : ix name with
  | some i => rw [getServiceId_of_some h, getServiceId_of_some h]
  | none => rw [getServiceId_of_none h, getServiceId_rebuilt]

theorem rebuild_setSlots (t : ServiceTable) (i : ℕ) (m : ℕ → ClientChannelMap) :
    rebuildServiceNameIndexes (t.setSlots i m) = rebuildServiceNameIndexes t := by
  funext name
  have hentry : ∀ k, ((t.setSlots i m).entries k).enabled = (t.entries k).enabled ∧
      ((t.setSlots i m).entries k).serviceName = (t.entries k).serviceName := by
    intro k
    by_cases hk : k = i
    · subst hk
      simp [ServiceTable.setSlots]
    · simp [ServiceTable.setSlots, hk]
  simp only [rebuildServiceNameIndexes, hentry]
  rfl

@[simp] theorem setSlots_self (t : ServiceTable) (i : ℕ) :
    t.setSlots i (t.entries i).clientChannelMap = t := by
  simp [ServiceTable.setSlots]

theorem registerSlots_entryNum (pid : Pid) (real : ℕ → Option ChannelId) (js : List ℕ)
    (t : RecvEvent.Table) (m : ℕ → ClientChannelMap) :
    t.entryNum ≤ (registerSlots pid real js t m).1.entryNum := by
  induction js generalizing t m with
  | nil => exact Nat.le_refl _
  | cons j js ih =>
    by_cases hrefused : real (serverChannelId j) = none ∨ recvEventMax ≤ t.entryNum
    · simp only [registerSlots, register_refused hrefused, Nat.le_refl]
    · obtain ⟨hreal, hroom⟩ := not_or.mp hrefused
      obtain ⟨c, hc⟩ := Option.ne_none_iff_exists'.mp hreal
      simp only [registerSlots, hc, register_accepted (Nat.not_le.mp hroom)]
      have hrest := ih ⟨t.entries ++ [newEntry pid c none]⟩
        (Function.update m j ((m j).watched j t.entryNum))
      simp only [RecvEvent.Table.entryNum, List.length_append, List.length_singleton] at hrest ⊢
      omega

theorem registerSlots_refused {real : ℕ → Option ChannelId} {t : RecvEvent.Table}
    (h : real (serverChannelId 0) = none ∨ recvEventMax ≤ t.entryNum) (pid : Pid) (n : ℕ)
    (m : ℕ → ClientChannelMap) :
    registerSlots pid real (List.range (n + 1)) t m = (t, m, false) := by
  rw [List.range_succ_eq_map, registerSlots, register_refused h]

theorem registerSlots_events_iff (pid : Pid) (real : ℕ → Option ChannelId) (n : ℕ)
    (t : RecvEvent.Table) (m : ℕ → ClientChannelMap) :
    (registerSlots pid real (List.range (n + 1)) t m).1 = t ↔
      real (serverChannelId 0) = none ∨ recvEventMax ≤ t.entryNum := by
  constructor
  · intro hsame
    by_contra hpassed
    obtain ⟨hreal, hroom⟩ := not_or.mp hpassed
    obtain ⟨c, hc⟩ := Option.ne_none_iff_exists'.mp hreal
    rw [List.range_succ_eq_map, registerSlots, hc, register_accepted (Nat.not_le.mp hroom)] at hsame
    have hmore := registerSlots_entryNum pid real ((List.range n).map Nat.succ)
      ⟨t.entries ++ [newEntry pid c none]⟩ (Function.update m 0 ((m 0).watched 0 t.entryNum))
    rw [hsame] at hmore
    simp only [RecvEvent.Table.entryNum, List.length_append, List.length_singleton] at hmore
    omega
  · intro hrefused
    rw [registerSlots_refused hrefused]

theorem createServiceSlots_kept_iff {pid : Pid} {real : ℕ → Option ChannelId} {i : ℕ}
    {u : Tables} (h : (createServiceSlots pid real i u).2 = none) :
    (createServiceSlots pid real i u).1.events = u.events ∧
        (createServiceSlots pid real i u).1.services = u.services ↔
      real (serverChannelId 0) = none ∨ recvEventMax ≤ u.events.entryNum := by
  cases hmax : (u.services.entries i).maxClients with
  | zero => simp [createServiceSlots, hmax, registerSlots] at h
  | succ n =>
    simp only [createServiceSlots, hmax]
    constructor
    · rintro ⟨hevents, -⟩
      exact (registerSlots_events_iff pid real n _ _).mp hevents
    · intro hrefused
      rw [registerSlots_refused hrefused]
      exact ⟨rfl, setSlots_self _ _⟩

theorem scan_of_miss {name : Name} {t : ServiceTable} {ix : NameIndex}
    (h : (getServiceId name t ix).2 = none) : rebuildServiceNameIndexes t name = none := by
  cases hix : ix name with
  | some i =>
    rw [getServiceId_of_some hix] at h
    cases h
  | none =>
    rw [getServiceId_of_none hix] at h
    exact h

theorem createServiceSlots_scan (pid : Pid) (real : ℕ → Option ChannelId) (i : ℕ) (u : Tables) :
    rebuildServiceNameIndexes (createServiceSlots pid real i u).1.services =
      rebuildServiceNameIndexes u.services :=
  rebuild_setSlots _ _ _

/-- The call fails before anything has been changed: the table is what the list of the process
would be loaded as, and a service that is found fails at its first event. -/
structure FailsEarly (services : List ServiceDef) (real : Name → ℕ → Option ChannelId)
    (name : Name) (s : Tables) : Prop where
  loaded : createServiceLoads services name s → setServiceData services s.services = s.services
  first : ∀ i, (getServiceId name s.services s.index).2 = some i →
    s.services.entryNum < serviceMax →
    real name (serverChannelId 0) = none ∨ recvEventMax ≤ s.events.entryNum

theorem tablesKept_of_same {name : Name} {s s' : Tables} (h : SameLookup name s s') :
    TablesKept name s s' :=
  ⟨h.services, h.events, fun pid services real => createService_sameLookup h pid services real⟩

section

variable {services : List ServiceDef} {name : Name} {s : Tables}
  (hnum : s.services.entryNum = services.length) (hmax : services.length < serviceMax)
include hnum hmax

theorem createServiceLoads_iff :
    createServiceLoads services name s ↔ (getServiceId name s.services s.index).2 = none := by
  simp [createServiceLoads, hnum, hmax]

theorem createService_hit_iff {pid : Pid} {real : Name → ℕ → Option ChannelId} {i : ℕ}
    (hget : (getServiceId name s.services s.index).2 = some i)
    (h : (createService pid services real name s).2 = none) :
    TablesKept name s (createService pid services real name s).1 ↔
      FailsEarly services real name s := by
  have hfind := findService_hit hnum hmax hget
  rw [createService_found (congrArg Prod.snd hfind), hfind] at h ⊢
  have hiff := createServiceSlots_kept_iff h
  constructor
  · intro hkept
    constructor
    case loaded =>
      intro hloads
      rw [createServiceLoads_iff hnum hmax, hget] at hloads
      cases hloads
    case first => exact fun _ _ _ => hiff.mp ⟨hkept.events, hkept.services⟩
  · intro hearly
    obtain ⟨hevents, hservices⟩ := hiff.mpr (hearly.first i hget (hnum ▸ hmax))
    apply tablesKept_of_same
    refine ⟨hservices, hevents, ?_⟩
    rw [hservices]
    exact getServiceId_again name s.services s.index

theorem createService_miss_iff (pid : Pid) (real : Name → ℕ → Option ChannelId)
    (hget : (getServiceId name s.services s.index).2 = none) :
    TablesKept name s (createService pid services real name s).1 ↔
      FailsEarly services real name s := by
  have hfind := findService_miss hnum hmax hget
  have hscan := scan_of_miss hget
  have hloads : createServiceLoads services name s := (createServiceLoads_iff hnum hmax).mpr hget
  have hfirst : ∀ i, (getServiceId name s.services s.index).2 ≠ some i := by
    intro i hi
    rw [hget] at hi
    cases hi
  cases hagain : rebuildServiceNameIndexes (setServiceData services s.services) name with
  | none =>
    rw [hagain] at hfind
    rw [createService_missing (congrArg Prod.snd hfind), hfind]
    constructor
    · intro hkept
      exact ⟨fun _ => hkept.services, fun i hi => absurd hi (hfirst i)⟩
    · intro hearly
      have hsame := hearly.loaded hloads
      apply tablesKept_of_same
      refine ⟨hsame, rfl, ?_⟩
      simp only [Tables.load, getServiceId_rebuilt, hget, hagain]
  | some i =>
    rw [hagain] at hfind
    rw [createService_found (congrArg Prod.snd hfind), hfind]
    constructor
    · intro hkept
      have hslots := createServiceSlots_scan pid (real name) i (s.load services)
      rw [hkept.services] at hslots
      have hfound := (congrFun hslots name).trans hagain
      rw [hscan] at hfound
      cases hfound
    · intro hearly
      rw [hearly.loaded hloads, hscan] at hagain
      cases hagain

end

theorem createService_entryNum (pid : Pid) (services : List ServiceDef)
    (real : Name → ℕ → Option ChannelId) (name : Name) (s : Tables) :
    (createService pid services real name s).1.services.entryNum = services.length := by
  rw [← findService_entryNum services name s]
  cases hfind : (findService services name s).2 with
  | none => rw [createService_missing hfind]
  | some i =>
    rw [createService_found hfind]
    rfl

theorem createService_kept_iff {pid : Pid} {services : List ServiceDef}
    {real : Name → ℕ → Option ChannelId} {name : Name} {s : Tables}
    (h : (createService pid services real name s).2 = none) :
    TablesKept name s (createService pid services real name s).1 ↔
      FailsEarly services real name s := by
  by_cases hnum : s.services.entryNum = services.length
  · by_cases hmax : services.length < serviceMax
    · cases hget : (getServiceId name s.services s.index).2 with
      | some i => exact createService_hit_iff hnum hmax hget h
      | none => exact createService_miss_iff hnum hmax pid real hget
    · have hfind : findService services name s = (s, none) := by
        simp [findService, hnum, Nat.not_lt.mp hmax]
      rw [createService_missing (congrArg Prod.snd hfind), hfind]
      constructor
      · intro _
        constructor
        case loaded => exact fun hloads => absurd hloads (by simp [createServiceLoads, hnum, hmax])
        case first => exact fun _ _ hlt => absurd (hnum ▸ hlt) hmax
      · intro _
        exact tablesKept_of_same ⟨rfl, rfl, rfl⟩
  · constructor
    · intro hkept
      have hsize := createService_entryNum pid services real name s
      rw [hkept.services] at hsize
      exact absurd hsize hnum
    · intro hearly
      have hsize := congrArg ServiceTable.entryNum (hearly.loaded (Or.inl hnum))
      exact absurd hsize.symm hnum

/-- A set-up that fails has changed nothing that stays if and only if it fails at the first
service of the configuration, or before the first event of the service. -/
theorem failed_setup_iff {σ : Type} (core : Core σ) (pid : Pid) (services : List ServiceDef)
    (real : Name → ℕ → Option ChannelId) (name : Name) :
    (∀ (text : ConfigText) (p p' : Process σ), initializeService core text p = (p', .returned false) →
      (ListKept p p' ↔ ¬ FirstPasses core text p.channels)) ∧
    ∀ s : Tables, (createService pid services real name s).2 = none →
      (TablesKept name s (createService pid services real name s).1 ↔
        FailsEarly services real name s) := by
  constructor
  · intro text p p' h
    exact initializeService_kept_iff h
  · intro s h
    exact createService_kept_iff h

/-- A service x with the number of clients, in a table that was loaded from it. -/
def xService (maxClients : ℕ) : List ServiceDef := [⟨[120], maxClients, 100, 100⟩]

def xLoaded (maxClients : ℕ) : Tables := (World.start.tables 0).load (xService maxClients)

/-- A core that has a channel for the first client only. -/
def firstClientOnly (_ : Name) (c : ℕ) : Option ChannelId := if c = 0 then some 0 else none

/-- A configuration of the services x and a nameless one. -/
def secondMalformed : Json :=
  .object [("pduMetaDataSize", .integer 24),
    ("services", .array [.object [("name", .string [120]), ("type", .string [116]),
        ("maxClients", .integer 1),
        ("pduSize", .object [("server", sizesItem), ("client", sizesItem)])],
      .object [("name", .null)]])]

def firstMalformed : Json :=
  .object [("pduMetaDataSize", .integer 24), ("services", .array [.object [("name", .null)]])]

theorem failed_setup_first :
    ListKept (⟨[], ()⟩ : Process Unit)
      (initializeService willingCore (.parsed firstMalformed) ⟨[], ()⟩).1 ∧
    TablesKept [120] (xLoaded 1) (createService 0 (xService 1) (fun _ _ => none) [120] (xLoaded 1)).1 := by
  obtain ⟨hconfig, hcreate⟩ := failed_setup_iff willingCore 0 (xService 1) (fun _ _ => none) [120]
  constructor
  · have hfails : initializeService willingCore (.parsed firstMalformed) ⟨[], ()⟩ =
        (⟨[], ()⟩, .returned false) := rfl
    apply (hconfig _ _ _ hfails).mpr
    rintro ⟨param, m, item, items, s, hparam, hread, hitem, -⟩
    obtain rfl := ConfigText.parsed.inj hparam
    obtain ⟨rfl, hitems⟩ := Prod.mk.inj (Except.ok.inj hread)
    obtain ⟨rfl, rfl⟩ := List.cons.inj hitems
    cases hitem
  · apply (hcreate (xLoaded 1) (by decide)).mpr
    constructor
    case loaded => exact fun hloads => absurd hloads (by simp [createServiceLoads]; decide)
    case first => exact fun _ _ _ => Or.inl rfl

/-- The first service stays in the list where the second is malformed, and the event of the first
client in the table where the channel of the second is unknown. -/
theorem setup_leftovers :
    (initializeService willingCore (.parsed secondMalformed) ⟨[], ()⟩).2 = .returned false ∧
    ¬ ListKept (⟨[], ()⟩ : Process Unit)
      (initializeService willingCore (.parsed secondMalformed) ⟨[], ()⟩).1 ∧
    (createService 0 (xService 2) firstClientOnly [120] (xLoaded 2)).2 = none ∧
    ¬ TablesKept [120] (xLoaded 2)
      (createService 0 (xService 2) firstClientOnly [120] (xLoaded 2)).1 := by
  refine ⟨rfl, ?_, by decide, ?_⟩
  · intro h
    cases h.services
  · intro h
    have hevents := h.events
    revert hevents
    decide

end Service
end HakoniwaCorePro
