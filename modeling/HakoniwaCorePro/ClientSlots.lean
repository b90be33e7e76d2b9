import HakoniwaCorePro.ServiceRegistration

/-!
# The name of a client and the channels of its slot

`create_service_client` copies a new client's name into `clientName` and puts a zero byte after
it. The next field of the slot is the request channel id, and a name of
`HAKO_CLIENT_NAMELEN_MAX` bytes is let through.
-/

namespace HakoniwaCorePro
namespace Service

open RecvEvent

/-- The offsets from the start of `clientName` at which a byte is written. -/
def writtenOffsets (name : Name) : List ℕ := List.range name.length ++ [name.length]

theorem writtenOffsets_inside_iff (name : Name) :
    (∀ o ∈ writtenOffsets name, o < clientNamelenMax) ↔ name.length < clientNamelenMax := by
  constructor
  · intro h
    apply h
    simp [writtenOffsets]
  · intro hlen o ho
    simp only [writtenOffsets, List.mem_append, List.mem_range, List.mem_singleton] at ho
    omega

/-- Slot `j` has the channels `2j` and `2j + 1`. -/
def ServiceEntry.HasChannels (e : ServiceEntry) : Prop :=
  ∀ j < e.maxClients, (e.clientChannelMap j).requestChannelId = serverChannelId j ∧
    (e.clientChannelMap j).responseChannelId = clientChannelId j

def ClientChannelMap.channels (m : ClientChannelMap) : List ℕ :=
  [m.requestChannelId, m.responseChannelId]

theorem ServiceEntry.HasChannels.apart {e : ServiceEntry} (h : e.HasChannels) {j k : ℕ}
    (hj : j < e.maxClients) (hk : k < e.maxClients) (hne : j ≠ k) :
    (e.clientChannelMap j).channels.Disjoint (e.clientChannelMap k).channels := by
  intro c hcj hck
  simp only [ClientChannelMap.channels, (h j hj).1, (h j hj).2, (h k hk).1, (h k hk).2,
    serverChannelId, clientChannelId, List.mem_cons, List.not_mem_nil, or_false] at hcj hck
  omega

theorem addClient_hasChannels {e : ServiceEntry} (h : e.HasChannels) {name : Name}
    (hlen : name.length < clientNamelenMax) (id : ℕ) : (e.addClient name id).HasChannels := by
  intro j hj
  by_cases hjn : j = e.nextClientId
  · subst hjn
    rw [addClient_slot_self, assign_requestChannelId hlen]
    exact h _ hj
  · rw [addClient_slot_ne name id e hjn]
    exact h j hj

/-- The offsets that `create_service_client` writes: it leaves the slot of a known client alone. -/
def ServiceEntry.nameWrites (client : Name) (e : ServiceEntry) : List ℕ :=
  match e.findClient client with
  | some _ => []
  | none => writtenOffsets client

/-- The entry after a client was given slot `k`. -/
structure SlotSound (client : Name) (k : ℕ) (written : List ℕ) (e : ServiceEntry) : Prop where
  inside : ∀ o ∈ written, o < clientNamelenMax
  name : (e.clientChannelMap k).name = client
  channels : e.HasChannels
  apart : ∀ i < e.maxClients, ∀ j < e.maxClients, i ≠ j →
    (e.clientChannelMap i).channels.Disjoint (e.clientChannelMap j).channels

theorem createServiceClient_some {pid : Pid} {services : List ServiceDef}
    {real : Name → ℕ → Option ChannelId} {name client : Name} {s : Tables} {i k : ℕ}
    (h : (createServiceClient pid services real name client s).2 = ⟨some i, some k⟩) :
    createServiceClient pid services real name client s =
      createClientSlot pid (real name) client i
        (findServiceForClient services name client s).1 := by
  simp only [createServiceClient] at h ⊢
  split at h
  · simp at h
  · next u j hfind =>
    have hj := createClientSlot_serviceId (congrArg ClientIds.serviceId h)
    subst hj
    rw [hfind]

theorem createClientSlot_entry {pid : Pid} {real : ℕ → Option ChannelId} {client : Name}
    {i k : ℕ} {u : Tables} (h : (createClientSlot pid real client i u).2 = ⟨some i, some k⟩) :
    ((u.services.entries i).findClient client = some k ∧
      (createClientSlot pid real client i u).1.services = u.services) ∨
    ((u.services.entries i).findClient client = none ∧
      (u.services.entries i).nextClientId = k ∧ k < (u.services.entries i).maxClients ∧
      ∃ id, (createClientSlot pid real client i u).1.services.entries i =
        (u.services.entries i).addClient client id) := by
  simp only [createClientSlot] at h ⊢
  split at h
  · next k' hfind =>
    simp only [ClientIds.mk.injEq, Option.some.injEq] at h
    rw [h.2] at hfind
    exact Or.inl ⟨hfind, rfl⟩
  · next hfind =>
    split at h
    · simp at h
    · next hroom =>
      rw [if_neg hroom]
      split at h
      · simp at h
      · next t id _ =>
        simp only [ClientIds.mk.injEq, Option.some.injEq] at h
        exact Or.inr ⟨hfind, h.2, by omega, id, by simp⟩

/-- In an entry with the channels of its slots, a client is registered soundly if and only if it
is known already or its name leaves room for the zero byte. -/
theorem slot_sound_iff (pid : Pid) (services : List ServiceDef)
    (real : Name → ℕ → Option ChannelId) (name : Name) (client : CName) (s : Tables) {i k : ℕ}
    (hcreated : (createServiceClient pid services real name client.bytes s).2 = ⟨some i, some k⟩)
    (hchannels :
      ((findServiceForClient services name client.bytes s).1.services.entries i).HasChannels) :
    let e := (findServiceForClient services name client.bytes s).1.services.entries i
    SlotSound client.bytes k (e.nameWrites client.bytes)
      ((createServiceClient pid services real name client.bytes s).1.services.entries i) ↔
    (e.findClient client.bytes).isSome ∨ client.bytes.length < clientNamelenMax := by
  have hcall := createServiceClient_some hcreated
  rw [hcall] at hcreated
  simp only [hcall]
  rcases createClientSlot_entry hcreated with ⟨hknown, hsame⟩ | ⟨hnew, hnext, hroom, id, hentry⟩
  · obtain ⟨-, -, hname⟩ := findClient_some hknown
    rw [hsame]
    simp only [ServiceEntry.nameWrites, hknown, Option.isSome_some, true_or, iff_true]
    exact ⟨nofun, hname, hchannels, fun i hi j hj => hchannels.apart hi hj⟩
  · rw [hentry]
    simp only [ServiceEntry.nameWrites, hnew, Option.isSome_none, Bool.false_eq_true, false_or]
    constructor
    · intro h
      exact (writtenOffsets_inside_iff client.bytes).mp h.inside
    · intro hlen
      have hkept := addClient_hasChannels hchannels hlen id
      constructor
      case inside => exact (writtenOffsets_inside_iff client.bytes).mpr hlen
      case name => rw [← hnext, addClient_slot_self, assign_name (Nat.le_of_lt hlen) client.nonul]
      case channels => exact hkept
      case apart => exact fun i hi j hj => hkept.apart hi hj

instance (e : ServiceEntry) : Decidable e.HasChannels :=
  inferInstanceAs (Decidable (∀ j < e.maxClients, _ ∧ _))

/-- The tables after the client `client` of a service x with two clients was created in `s`. -/
def createOnX (client : Name) (s : Tables) : Tables × ClientIds :=
  createServiceClient 0 [⟨[120], 2, 100, 100⟩] (fun _ c => some c) [120] client s

theorem slot_sound_first :
    SlotSound [97] 0 (writtenOffsets [97])
      ((createOnX [97] (World.start.tables 0)).1.services.entries 0) :=
  (slot_sound_iff (i := 0) (k := 0) 0 [⟨[120], 2, 100, 100⟩] (fun _ c => some c) [120]
    (letterName 97 (by decide)) (World.start.tables 0) (by decide) (by decide)).mpr
    (Or.inr (by decide))

/-- A second client with a name of 64 letters: its zero byte is written behind the array, on the
channel id 2, and the client gets the request channel of the first. -/
theorem long_name_redirects :
    let s := (createOnX [97] (World.start.tables 0)).1
    let client := List.replicate 64 98
    let s' := (createOnX client s).1
    (createOnX client s).2 = ⟨some 0, some 1⟩ ∧ (s.services.entries 0).HasChannels ∧
    ((s'.services.entries 0).clientChannelMap 1).requestChannelId =
      ((s'.services.entries 0).clientChannelMap 0).requestChannelId ∧
    ¬ SlotSound client 1 ((s.services.entries 0).nameWrites client) (s'.services.entries 0) := by
  refine ⟨by decide, by decide, by decide, ?_⟩
  intro h
  have hslot := (h.channels 1 (by decide)).1
  revert hslot
  decide

end Service
end HakoniwaCorePro
