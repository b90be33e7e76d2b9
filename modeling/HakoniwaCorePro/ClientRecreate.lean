import HakoniwaCorePro.ClientSlots
import HakoniwaCorePro.ServiceLoad

/-!
# Creating a client again

A client that is known by its name keeps its slot. Its first creation appended an event to the
table; a later one takes over the first enabled event of the channel, which need not be the
slot's own, and leaves its pending flag as it is.
-/

namespace HakoniwaCorePro
namespace Service

open RecvEvent FirstMatch

/-- The entry of an id; -1 is the id of none. -/
def eventOf (t : RecvEvent.Table) (id : ℤ) : Option Entry :=
  if id < 0 then none else t.entries[id.toNat]?

/-- What a first registration by the process would have left in the event of slot `k` of entry
`i`, and nothing else changed. -/
structure Recreated (pid : Pid) (real : ℕ → Option ChannelId) (i k : ℕ) (s : Tables)
    (r : Tables × ClientIds) : Prop where
  answer : r.2 = ⟨some i, some k⟩
  own : ∃ c, real ((s.services.entries i).clientChannelMap k).responseChannelId = some c ∧
    eventOf r.1.events ((s.services.entries i).clientChannelMap k).responseRecvEventId =
      some (newEntry pid c none)
  others : ∀ j : ℕ, (j : ℤ) ≠ ((s.services.entries i).clientChannelMap k).responseRecvEventId →
    r.1.events.entries[j]? = s.events.entries[j]?
  slots : r.1.services = s.services

/-- The event `m`, the first of its channel, is the event `id` and not pending; or it is another
that the process has taken over already, and the event `id` is as new. -/
def TakesOverOwn (pid : Pid) (c : ChannelId) (id : ℤ) (m : ℕ) (t : RecvEvent.Table) : Prop :=
  ∀ e, t.entries[m]? = some e →
    ((m : ℤ) = id ∧ e.pendingFlag = false) ∨
    ((m : ℤ) ≠ id ∧ e.takeOver pid none = e ∧ eventOf t id = some (newEntry pid c none))

/-- The index of the process does not hold another entry for the service, and the event that is
taken over is the slot's own. -/
structure Recreatable (pid : Pid) (real : ℕ → Option ChannelId) (name : Name) (i k : ℕ)
    (s : Tables) : Prop where
  index : ∀ j, s.index name = some j → j = i
  event : ∀ c, real ((s.services.entries i).clientChannelMap k).responseChannelId = some c →
    ∀ m, s.events.entries.findIdx? (Entry.watches c) = some m →
      TakesOverOwn pid c ((s.services.entries i).clientChannelMap k).responseRecvEventId m s.events

theorem takeOver_eq_newEntry_iff {c : ChannelId} {e : Entry} (h : e.watches c = true) (pid : Pid) :
    e.takeOver pid none = newEntry pid c none ↔ e.pendingFlag = false := by
  obtain ⟨⟨enabled, procId, realChannelId, type, onRecv⟩, recvFlag, pendingFlag⟩ := e
  simp only [Entry.watches, Bool.and_eq_true, beq_iff_eq] at h
  simp [Entry.takeOver, newEntry, h.1, h.2]

@[simp] theorem eventOf_ofNat (t : RecvEvent.Table) (n : ℕ) : eventOf t n = t.entries[n]? :=
  if_neg (Int.not_lt.mpr (Int.natCast_nonneg n))

theorem eventOf_negSucc (t : RecvEvent.Table) (n : ℕ) : eventOf t (Int.negSucc n) = none :=
  if_pos (Int.negSucc_lt_zero n)

theorem not_takesOverOwn_of_negative {c : ChannelId} {m : ℕ} {t : RecvEvent.Table} (pid : Pid)
    (n : ℕ) (hm : m < t.entries.length) : ¬ TakesOverOwn pid c (Int.negSucc n) m t := by
  intro h
  rcases h _ (List.getElem?_eq_getElem hm) with ⟨hid, -⟩ | ⟨-, -, hown⟩
  · exact absurd hid (by simp)
  · rw [eventOf_negSucc] at hown
    cases hown

theorem takesOverOwn_iff {c : ChannelId} {m : ℕ} {t : RecvEvent.Table} (pid : Pid) (id : ℤ)
    (hm : t.entries.findIdx? (Entry.watches c) = some m) :
    (eventOf ⟨updateFirst (Entry.watches c) (Entry.takeOver pid none) t.entries⟩ id =
        some (newEntry pid c none) ∧
      ∀ j : ℕ, (j : ℤ) ≠ id →
        (updateFirst (Entry.watches c) (Entry.takeOver pid none) t.entries)[j]? =
          t.entries[j]?) ↔ TakesOverOwn pid c id m t := by
  obtain ⟨hlt, hwatches, -⟩ := List.findIdx?_eq_some_iff_getElem.mp hm
  have he := List.getElem?_eq_getElem hlt
  have hother : ∀ j, j ≠ m →
      (updateFirst (Entry.watches c) (Entry.takeOver pid none) t.entries)[j]? = t.entries[j]? := by
    intro j hj
    rw [getElem?_updateFirst, hm, if_neg (by simpa using hj.symm)]
  have hself : (updateFirst (Entry.watches c) (Entry.takeOver pid none) t.entries)[m]? =
      some (t.entries[m].takeOver pid none) := by
    rw [getElem?_updateFirst, hm, if_pos rfl, he, Option.map_some]
  cases id with
  | negSucc n =>
    rw [eventOf_negSucc]
    exact iff_of_false (by simp) (not_takesOverOwn_of_negative pid n hlt)
  | ofNat id =>
    simp only [TakesOverOwn, Int.ofNat_eq_natCast, eventOf_ofNat, he, Option.some.injEq, forall_eq',
      ne_eq, Int.natCast_inj]
    by_cases hid : m = id
    · subst hid
      simp only [hself, Option.some.injEq, takeOver_eq_newEntry_iff hwatches, true_and,
        not_true, false_and, or_false]
      exact and_iff_left hother
    · rw [hother id (Ne.symm hid)]
      constructor
      · rintro ⟨hown, hothers⟩
        have hsame := hothers m hid
        rw [hself, he, Option.some.injEq] at hsame
        exact Or.inr ⟨hid, hsame, hown⟩
      · rintro (⟨hm, -⟩ | ⟨-, hsame, hown⟩)
        · exact absurd hm hid
        · refine ⟨hown, ?_⟩
          intro j hj
          by_cases hjm : j = m
          · subst hjm
            rw [hself, he, hsame]
          · exact hother j hjm

theorem findServiceForClient_some {services : List ServiceDef} {name client : Name} {s u : Tables}
    {i : ℕ} (hloaded : s.services.entryNum ≠ 0)
    (h : findServiceForClient services name client s = (u, some i)) :
    u.services = s.services ∧ u.events = s.events ∧
      (getServiceId name s.services s.index).2 = some i := by
  simp only [findServiceForClient, hloaded, if_false] at h
  split at h
  · cases h
  · obtain ⟨rfl, hi⟩ := Prod.mk.inj h
    exact ⟨rfl, rfl, hi⟩

theorem getServiceId_eq_iff {name : Name} {t : ServiceTable} {i : ℕ} (ix : NameIndex)
    (hscan : rebuildServiceNameIndexes t name = some i) :
    (getServiceId name t ix).2 = some i ↔ ∀ j, ix name = some j → j = i := by
  cases hix : ix name with
  | none => simp [getServiceId_of_none hix, hscan]
  | some j => simp [getServiceId_of_some hix]

theorem createClientSlot_known {pid : Pid} {real : ℕ → Option ChannelId} {client : Name}
    {i k : ℕ} {u : Tables} (hk : (u.services.entries i).findClient client = some k)
    (h : (createClientSlot pid real client i u).2.serviceId.isSome) :
    ∃ c m, real ((u.services.entries i).clientChannelMap k).responseChannelId = some c ∧
      u.events.entries.findIdx? (Entry.watches c) = some m ∧
      createClientSlot pid real client i u =
        ({ u with events :=
            ⟨updateFirst (Entry.watches c) (Entry.takeOver pid none) u.events.entries⟩ },
          ⟨some i, some k⟩) := by
  cases hc : real ((u.services.entries i).clientChannelMap k).responseChannelId with
  | none => simp [createClientSlot, hk, updateDataRecvEvent, hc] at h
  | some c =>
    cases hm : u.events.entries.findIdx? (Entry.watches c) with
    | none => simp [createClientSlot, hk, updateDataRecvEvent, hc, hm] at h
    | some m =>
      refine ⟨c, m, rfl, hm, ?_⟩
      simp [createClientSlot, hk, updateDataRecvEvent, hc, hm]

theorem createClientSlot_recreated_iff {pid : Pid} {real : ℕ → Option ChannelId} {client : Name}
    {i k : ℕ} {s u : Tables} (hservices : u.services = s.services) (hevents : u.events = s.events)
    (hk : (s.services.entries i).findClient client = some k)
    (h : (createClientSlot pid real client i u).2.serviceId.isSome) :
    Recreated pid real i k s (createClientSlot pid real client i u) ↔
      ∀ c, real ((s.services.entries i).clientChannelMap k).responseChannelId = some c →
        ∀ m, s.events.entries.findIdx? (Entry.watches c) = some m →
        TakesOverOwn pid c ((s.services.entries i).clientChannelMap k).responseRecvEventId m
          s.events := by
  obtain ⟨services, events, ix⟩ := u
  simp only at hservices hevents
  subst hservices hevents
  obtain ⟨c, m, hc, hm, hcall⟩ := createClientSlot_known (u := ⟨s.services, s.events, ix⟩) hk h
  have hown := takesOverOwn_iff pid
    ((s.services.entries i).clientChannelMap k).responseRecvEventId hm
  rw [hcall]
  constructor
  · intro hrecreated c' hc' m' hm'
    obtain rfl := Option.some.inj (hc.symm.trans hc')
    obtain rfl := Option.some.inj (hm.symm.trans hm')
    obtain ⟨c', hc', hentry⟩ := hrecreated.own
    obtain rfl := Option.some.inj (hc.symm.trans hc')
    exact hown.mp ⟨hentry, hrecreated.others⟩
  · intro htakes
    obtain ⟨hentry, hothers⟩ := hown.mpr (htakes c hc m hm)
    exact ⟨rfl, ⟨c, hc, hentry⟩, hothers, rfl⟩

/-- A client that is registered is created again as if for the first time if and only if the
process' index is not misleading and the event that is taken over is the client's own. -/
theorem recreated_iff (pid : Pid) (services : List ServiceDef) (real : Name → ℕ → Option ChannelId)
    (name client : Name) (s : Tables) {i k : ℕ}
    (hservice : rebuildServiceNameIndexes s.services name = some i)
    (hclient : (s.services.entries i).findClient client = some k)
    (hcreated : (createServiceClient pid services real name client s).2.serviceId.isSome) :
    Recreated pid (real name) i k s (createServiceClient pid services real name client s) ↔
      Recreatable pid (real name) name i k s := by
  have hloaded : s.services.entryNum ≠ 0 := Nat.ne_zero_of_lt (rebuild_carries hservice).1
  cases hfind : findServiceForClient services name client s with
  | mk u o =>
    cases o with
    | none => simp [createServiceClient, hfind] at hcreated
    | some j =>
      have hcall : createServiceClient pid services real name client s =
          createClientSlot pid (real name) client j u := by simp [createServiceClient, hfind]
      obtain ⟨hservices, hevents, hget⟩ := findServiceForClient_some hloaded hfind
      have hindex := getServiceId_eq_iff s.index hservice
      rw [hget, Option.some.injEq] at hindex
      rw [hcall] at hcreated ⊢
      by_cases hj : j = i
      · subst hj
        rw [createClientSlot_recreated_iff hservices hevents hclient hcreated]
        constructor
        · intro hevent
          exact ⟨hindex.mp rfl, hevent⟩
        · intro h
          exact h.event
      · constructor
        · intro h
          have hid := createClientSlot_serviceId (congrArg ClientIds.serviceId h.answer)
          exact absurd hid.symm hj
        · intro h
          exact absurd (hindex.mpr h.index) hj

/-- A restarted process finds the client a of x in the tables, with its event held back by the
process that has died, or not. -/
def restartedClient (pending : Bool) : Tables :=
  let s := (createOnX [97] (World.start.tables 0)).1
  ⟨s.services, (setRecvEventPending 0 0 pending s.events).1, fun _ => none⟩

def recreateOnX (s : Tables) : Tables × ClientIds :=
  createServiceClient 1 [⟨[120], 2, 100, 100⟩] (fun _ c => some c) [120] [97] s

theorem recreated_open :
    Recreated 1 some 0 0 (restartedClient false) (recreateOnX (restartedClient false)) := by
  apply (recreated_iff 1 [⟨[120], 2, 100, 100⟩] (fun _ c => some c) [120] [97]
    (restartedClient false) (by decide) (by decide) (by decide)).mpr
  constructor
  case index => exact nofun
  case event =>
    intro c hc m hm e he
    obtain rfl := Option.some.inj hc
    obtain rfl : 0 = m := Option.some.inj hm
    obtain rfl := Option.some.inj he
    decide

/-- The client of process 0 has looked for a response before it died, and there was none. -/
def polledClient : Tables :=
  let s := (createOnX [97] (World.start.tables 0)).1
  let r := getResponse 0 (fun _ c => some c) 0 0 s.services s.events
  ⟨r.1, r.2.1, fun _ => none⟩

/-- The event of a process that has died while it was held back stays held back. A slot whose
client has looked for a response in vain has lost its event. -/
theorem recreated_held_back :
    ((recreateOnX (restartedClient true)).2 = ⟨some 0, some 0⟩ ∧
      ¬ Recreated 1 some 0 0 (restartedClient true) (recreateOnX (restartedClient true))) ∧
    ((recreateOnX polledClient).2 = ⟨some 0, some 0⟩ ∧
      ¬ Recreated 1 some 0 0 polledClient (recreateOnX polledClient)) := by
  refine ⟨⟨by decide, ?_⟩, by decide, ?_⟩
  · intro h
    obtain ⟨c, hc, hown⟩ := h.own
    obtain rfl := Option.some.inj hc
    revert hown
    decide
  · intro h
    obtain ⟨c, hc, hown⟩ := h.own
    revert hown
    rw [show eventOf _ _ = none from rfl]
    exact nofun

end Service
end HakoniwaCorePro
