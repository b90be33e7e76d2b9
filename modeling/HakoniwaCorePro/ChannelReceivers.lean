import HakoniwaCorePro.RecvEventRuns

/-!
# The receiver of a channel

Registering an event appends to the table without looking. A channel gets its one receiver by
the first registration, keeps it through all traffic and through what happens on other channels,
and changes it only when its event is taken over.
-/

namespace HakoniwaCorePro
namespace RecvEvent

open Runs

def Table.Unwatched (t : Table) (c : ChannelId) : Prop := ∀ e ∈ t.entries, e.watches c = false

theorem Table.Unwatched.of_watches {t t' : Table} {c : ChannelId} (h : t.Unwatched c)
    (hw : t'.entries.map (Entry.watches c) = t.entries.map (Entry.watches c)) : t'.Unwatched c := by
  intro e he
  have hmem := List.mem_map_of_mem (f := Entry.watches c) he
  rw [hw] at hmem
  obtain ⟨x, hx, hsame⟩ := List.mem_map.mp hmem
  rw [← hsame, h x hx]

theorem Table.Unwatched.of_registrations {t t' : Table} {c : ChannelId} (h : t.Unwatched c)
    (hr : t'.registrations = t.registrations) : t'.Unwatched c := by
  refine h.of_watches ?_
  have hmap := congrArg (List.map fun r : Registration => r.enabled && r.realChannelId == c) hr
  simp only [Table.registrations, List.map_map] at hmap
  exact hmap

theorem Table.Unwatched.update {t : Table} {c : ChannelId} (h : t.Unwatched c) (pid : Pid)
    (real : Option ChannelId) (onRecv : Option Callback) :
    (updateDataRecvEvent pid real onRecv t).1.Unwatched c := by
  cases real with
  | none => exact h
  | some d =>
    simp only [updateDataRecvEvent]
    split
    · exact h
    · exact h.of_watches
        (FirstMatch.map_updateFirst _ (Entry.takeOver pid onRecv) _ (fun _ => rfl) _)

theorem newEntry_watches {c d : ChannelId} (hd : d ≠ c) (pid : Pid) (onRecv : Option Callback) :
    (newEntry pid d onRecv).watches c = false := by
  simp [newEntry, Entry.watches, hd]

theorem Table.Unwatched.append {t : Table} {c : ChannelId} (h : t.Unwatched c) {e : Entry}
    (he : e.watches c = false) : Table.Unwatched ⟨t.entries ++ [e]⟩ c := by
  intro x hx
  rcases List.mem_append.mp hx with hx | hx
  · exact h x hx
  · rw [List.mem_singleton.mp hx, he]

theorem Table.Unwatched.append_serves {t : Table} {c : ChannelId} (h : t.Unwatched c)
    (hc : c < pduChannelMax) (pid : Pid) :
    Table.Serves ⟨t.entries ++ [newEntry pid c none]⟩ t.entryNum pid c false := by
  refine ⟨⟨newEntry pid c none, ⟨?_, ?_⟩, rfl, rfl, rfl, rfl⟩, hc⟩
  · simp [Table.entryNum]
  · refine ⟨by simp [Table.registrations, Table.entryNum], rfl, fun j q hq hen hch => ?_⟩
    simp only [Table.registrations, List.getElem?_map, Option.map_eq_some_iff] at hq
    obtain ⟨x, hx, rfl⟩ := hq
    by_contra hj
    have hx' : x ∈ t.entries := by
      rw [List.getElem?_append] at hx
      split at hx
      · exact List.mem_of_getElem? hx
      · next hlt =>
        have hlen : t.entries.length ≠ j := fun hlen => hj hlen.symm
        rw [List.getElem?_singleton, if_neg (by omega)] at hx
        cases hx
    have hw := h x hx'
    simp [Entry.watches, hen, hch, newEntry] at hw

section Serves

variable {t : Table} {i : ℕ} {pid : Pid} {c : ChannelId} {full : Bool}

theorem Table.Serves.append (h : t.Serves i pid c full) {e : Entry} (he : e.watches c = false) :
    Table.Serves ⟨t.entries ++ [e]⟩ i pid c full := by
  obtain ⟨⟨x, hx, hp, rfl, hg, hf⟩, hrange⟩ := h
  obtain ⟨hlt, hget⟩ := List.getElem?_eq_some_iff.mp hx.entry
  have hentry : (t.entries ++ [e])[i]? = some x := by
    rw [List.getElem?_append_left hlt, hx.entry]
  have hreg : (Table.registrations ⟨t.entries ++ [e]⟩)[i]? = some x.toRegistration := by
    rw [Table.registrations, List.getElem?_map, hentry, Option.map_some]
  refine ⟨⟨x, ⟨hentry, hreg, hx.enabled, ?_⟩, hp, rfl, hg, hf⟩, hrange⟩
  intro j q hq hen hch
  simp only [Table.registrations, List.getElem?_map, Option.map_eq_some_iff] at hq
  obtain ⟨y, hy, rfl⟩ := hq
  have hw : y.watches x.realChannelId = true := by simp [Entry.watches, hen, hch]
  rw [List.getElem?_append] at hy
  split at hy
  · exact hx.unique hy hw
  · rw [List.getElem?_singleton] at hy
    split at hy
    · rw [← Option.some.inj hy, he] at hw
      cases hw
    · cases hy

theorem Table.Serves.findIdx?_watches (h : t.Serves i pid c full) :
    t.entries.findIdx? (Entry.watches c) = some i := by
  obtain ⟨⟨e, he, -, rfl, -, -⟩, -⟩ := h
  refine FirstMatch.findIdx?_eq_some_of_unique he.entry ?_ fun j x hj hw => he.unique hj hw
  simp [he.watches_iff]

theorem Table.Serves.update (h : t.Serves i pid c full) (q : Pid) :
    (updateDataRecvEvent q (some c) none t).2 = some i ∧
      (updateDataRecvEvent q (some c) none t).1.Serves i q c false := by
  have hfirst := h.findIdx?_watches
  obtain ⟨⟨e, he, -, rfl, hg, -⟩, hrange⟩ := h
  simp only [updateDataRecvEvent, hfirst, true_and]
  have hother : ∀ j, j ≠ i →
      (FirstMatch.updateFirst (Entry.watches e.realChannelId) (Entry.takeOver q none)
        t.entries)[j]? =
        t.entries[j]? := by
    intro j hj
    rw [FirstMatch.getElem?_updateFirst, hfirst, if_neg (by simpa using hj.symm)]
  have hself :
      (FirstMatch.updateFirst (Entry.watches e.realChannelId) (Entry.takeOver q none)
        t.entries)[i]? =
        some (e.takeOver q none) := by
    rw [FirstMatch.getElem?_updateFirst, hfirst, if_pos rfl, he.entry, Option.map_some]
  refine ⟨⟨e.takeOver q none, ⟨hself, ?_⟩, rfl, rfl, hg, rfl⟩, hrange⟩
  refine ⟨by simp [Table.registrations, hself], he.enabled, fun j r hr hen hch => ?_⟩
  by_contra hj
  simp only [Table.registrations, List.getElem?_map, hother j hj, Option.map_eq_some_iff] at hr
  obtain ⟨x, hx, rfl⟩ := hr
  have hw : x.watches e.realChannelId = true := by
    simp only [Entry.watches, hen, Bool.true_and, beq_iff_eq]
    exact hch
  exact hj (he.unique hx hw)

theorem Table.Serves.update_other (h : t.Serves i pid c full) {d : ChannelId} (hd : d ≠ c)
    (q : Pid) : (updateDataRecvEvent q (some d) none t).1.Serves i pid c full := by
  obtain ⟨⟨e, he, hp, rfl, hg, hf⟩, hrange⟩ := h
  simp only [updateDataRecvEvent]
  split
  · exact ⟨⟨e, he, hp, rfl, hg, hf⟩, hrange⟩
  · next k hk =>
    obtain ⟨hlt, hwatch, -⟩ := List.findIdx?_eq_some_iff_getElem.mp hk
    simp only [Entry.watches, Bool.and_eq_true, beq_iff_eq] at hwatch
    have hki : k ≠ i := by
      rintro rfl
      have hget := he.entry
      rw [List.getElem?_eq_getElem hlt, Option.some.injEq] at hget
      rw [hget] at hwatch
      exact hd hwatch.2.symm
    have hentry : (FirstMatch.updateFirst (Entry.watches d) (Entry.takeOver q none) t.entries)[i]? =
        some e := by
      rw [FirstMatch.getElem?_updateFirst, hk, if_neg (by simpa using hki), he.entry]
    refine ⟨⟨e, ⟨hentry, by simp [Table.registrations, hentry], he.enabled, ?_⟩, hp, rfl, hg, hf⟩,
      hrange⟩
    intro j r hr hen hch
    simp only [Table.registrations, List.getElem?_map, FirstMatch.getElem?_updateFirst, hk,
      Option.map_eq_some_iff] at hr
    obtain ⟨x, hx, rfl⟩ := hr
    split at hx
    · next hkj =>
      obtain rfl := Option.some.inj hkj
      rw [List.getElem?_eq_getElem hlt, Option.map_some] at hx
      rw [← Option.some.inj hx] at hch
      exact absurd (hwatch.2.symm.trans hch) hd
    · exact he.unique hx (by simp [Entry.watches, hen, hch])

end Serves

def BusAction.Spares {Pdu : Type} (own : ChannelId → Prop) (t : Table) : BusAction Pdu → Prop
  | .setPending _ id _ => ∀ e, t.entries[id]? = some e → ¬ own e.realChannelId
  | .setChannelPending _ real _ => ∀ c, real = some c → ¬ own c
  | _ => True

theorem Table.Serves.busStep {Pdu : Type} {b : Bus Pdu} {i : ℕ} {pid : Pid} {c : ChannelId}
    {full : Bool} (h : b.table.Serves i pid c full) {own : ChannelId → Prop} (hown : own c)
    {a : BusAction Pdu} (ha : a.Spares own b.table) :
    ∃ full', (RecvEvent.busStep b a).table.Serves i pid c full' := by
  obtain ⟨⟨e, he, hp, rfl, hg, hf⟩, hrange⟩ := h
  have hkeep : ∀ e', (RecvEvent.busStep b a).table.Holds i e' →
      e'.toRegistration = e.toRegistration → e'.pendingFlag = false →
      ∃ full', (RecvEvent.busStep b a).table.Serves i pid e.realChannelId full' := by
    intro e' h' hreg hg'
    refine ⟨e'.recvFlag, ⟨e', h', ?_, ?_, hg', rfl⟩, hrange⟩
    · rw [hreg, hp]
    · rw [hreg]
  cases a with
  | write d p =>
    by_cases hfree : onPduDataBeforeWrite d b.table = true
    · refine hkeep _ (by simpa [RecvEvent.busStep, writePdu, hfree] using he.write d) ?_ ?_
      · split <;> rfl
      · split
        · exact hg
        · exact hg
    · exact hkeep e (by simpa [RecvEvent.busStep, writePdu, hfree] using he) rfl hg
  | check q d =>
    refine hkeep _ (he.check hrange q d) ?_ ?_
    · split
      · exact consume_registration e
      · rfl
    · split
      · rw [Entry.consume]
        split <;> exact hg
      · exact hg
  | callbacks q =>
    refine hkeep _ (he.callbacks q) ?_ ?_
    · split
      · exact consume_registration e
      · rfl
    · split
      · rw [Entry.consume]
        split <;> exact hg
      · exact hg
  | setPending q id v =>
    have hk := he.setPending q id v
    rw [if_neg] at hk
    · exact hkeep e hk rfl hg
    · rintro ⟨rfl, -⟩
      exact ha e he.entry hown
  | setChannelPending q real v =>
    have hk := he.setChannelPending q real v
    rw [if_neg] at hk
    · exact hkeep e hk rfl hg
    · rintro ⟨-, rfl⟩
      exact ha e.realChannelId rfl hown
  | clearRunFlags => exact hkeep e.clear he.clear rfl rfl

/-- Outside of the channels `own` no channel gets a receiver, and none gets another one. -/
structure Table.Apart (t t' : Table) (own : ChannelId → Prop) : Prop where
  unwatched : ∀ c, ¬ own c → t.Unwatched c → t'.Unwatched c
  serves : ∀ c, ¬ own c → ∀ i pid full, t.Serves i pid c full → ∃ full', t'.Serves i pid c full'

theorem Table.Apart.refl (t : Table) (own : ChannelId → Prop) : t.Apart t own :=
  ⟨fun _ _ h => h, fun _ _ _ _ full h => ⟨full, h⟩⟩

theorem Table.Apart.trans {t₁ t₂ t₃ : Table} {own own' : ChannelId → Prop} (h : t₁.Apart t₂ own)
    (h' : t₂.Apart t₃ own') : t₁.Apart t₃ fun c => own c ∨ own' c := by
  constructor
  · intro c hc hu
    obtain ⟨hown, hown'⟩ := not_or.mp hc
    exact h'.unwatched c hown' (h.unwatched c hown hu)
  · intro c hc i pid full hs
    obtain ⟨hown, hown'⟩ := not_or.mp hc
    obtain ⟨full', hs'⟩ := h.serves c hown i pid full hs
    exact h'.serves c hown' i pid full' hs'

theorem Table.Apart.mono {t t' : Table} {own own' : ChannelId → Prop} (h : t.Apart t' own)
    (hle : ∀ c, own c → own' c) : t.Apart t' own' :=
  ⟨fun c hc => h.unwatched c fun hown => hc (hle c hown),
    fun c hc => h.serves c fun hown => hc (hle c hown)⟩

theorem register_apart (pid : Pid) (real : Option ChannelId) (onRecv : Option Callback)
    (t : Table) : t.Apart (registerDataRecvEvent pid real onRecv t).1 fun c => real = some c := by
  cases real with
  | none => exact .refl t _
  | some d =>
    simp only [registerDataRecvEvent]
    split
    · exact .refl t _
    · have hother : ∀ c, ¬ some d = some c → (newEntry pid d onRecv).watches c = false :=
        fun c hc => newEntry_watches (fun hd => hc (congrArg some hd)) pid onRecv
      exact ⟨fun c hc hu => hu.append (hother c hc),
        fun c hc _ _ full hs => ⟨full, hs.append (hother c hc)⟩⟩

theorem update_apart (pid : Pid) (real : Option ChannelId) (t : Table) :
    t.Apart (updateDataRecvEvent pid real none t).1 fun c => real = some c := by
  refine ⟨fun c _ hu => hu.update pid real none, fun c hc i q full hs => ?_⟩
  cases real with
  | none => exact ⟨full, hs⟩
  | some d => exact ⟨full, hs.update_other (fun hd => hc (congrArg some hd)) pid⟩

theorem busStep_apart {Pdu : Type} {b : Bus Pdu} {own : ChannelId → Prop} {a : BusAction Pdu}
    (ha : a.Spares own b.table) : b.table.Apart (busStep b a).table fun c => ¬ own c :=
  ⟨fun _ _ hu => hu.of_registrations (busStep_registrations b a),
    fun _ hc _ _ _ hs => hs.busStep (not_not.mp hc) ha⟩

end RecvEvent
end HakoniwaCorePro
