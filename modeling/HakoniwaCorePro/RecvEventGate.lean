import HakoniwaCorePro.Runs
import HakoniwaCorePro.RecvEventTable

/-!
# One receive event as a gated notification

A channel with one enabled event behaves as two flags: the unread mark, set by an accepted
write, and the gate, closed by pending and opened by resume. The flags are compared with
what has been observed at the event so far, in the sense of `Runs.Since`.
-/

namespace HakoniwaCorePro
namespace RecvEvent

open FirstMatch Runs

/-- The event with id `i` and registration `r` is the only enabled one of its channel. -/
structure SoleEvent (rs : List Registration) (i : ℕ) (r : Registration) : Prop where
  at_id : rs[i]? = some r
  enabled : r.enabled = true
  unique : ∀ j q, rs[j]? = some q → q.enabled = true → q.realChannelId = r.realChannelId → j = i

/-- The table's entry `i` is `e`, and no other enabled entry watches `e`'s channel. -/
structure Table.Holds (t : Table) (i : ℕ) (e : Entry) : Prop where
  entry : t.entries[i]? = some e
  sole : SoleEvent t.registrations i e.toRegistration

section Holds

variable {t : Table} {i : ℕ} {e : Entry}

theorem Table.Holds.enabled (h : t.Holds i e) : e.enabled = true := h.sole.enabled

theorem Table.Holds.unique (h : t.Holds i e) {j : ℕ} {x : Entry} (hj : t.entries[j]? = some x)
    (hx : x.watches e.realChannelId) : j = i := by
  simp only [Entry.watches, Bool.and_eq_true, beq_iff_eq] at hx
  exact h.sole.unique j x.toRegistration (by simp [Table.registrations, hj]) hx.1 hx.2

theorem Table.Holds.of_registrations {t' : Table} {e' : Entry} (h : t.Holds i e)
    (hr : t'.registrations = t.registrations) (he : t'.entries[i]? = some e') : t'.Holds i e' := by
  have hreg : e'.toRegistration = e.toRegistration := by
    have h₁ : t'.registrations[i]? = some e'.toRegistration := by simp [Table.registrations, he]
    rw [hr, h.sole.at_id] at h₁
    exact (Option.some.inj h₁).symm
  exact ⟨he, by rw [hr, hreg]; exact h.sole⟩

theorem Table.Holds.watches_iff (h : t.Holds i e) (c : ChannelId) :
    e.watches c = true ↔ e.realChannelId = c := by
  simp [Entry.watches, h.enabled]

theorem Table.Holds.findIdx?_isOwn (h : t.Holds i e) :
    t.entries.findIdx? (Entry.isOwn e.procId e.realChannelId) = some i := by
  refine findIdx?_eq_some_of_unique h.entry (by simp [Entry.isOwn, h.enabled]) fun j y hj hy => ?_
  simp only [Entry.isOwn, Bool.and_eq_true, beq_iff_eq] at hy
  exact h.unique hj (by simp [Entry.watches, hy])

theorem Table.Holds.find?_isOwn (h : t.Holds i e) :
    t.entries.find? (Entry.isOwn e.procId e.realChannelId) = some e := by
  obtain ⟨hlt, he⟩ := List.getElem?_eq_some_iff.mp h.entry
  have hf := List.findIdx?_eq_some_iff_getElem.mp h.findIdx?_isOwn
  rw [List.find?_eq_some_iff_getElem]
  exact ⟨by simp [Entry.isOwn, h.enabled], i, hlt, he, fun j hj => by simpa using hf.2.2 j hj⟩

theorem Table.Holds.findIdx?_ne (h : t.Holds i e) {pid : Pid} {c : ChannelId}
    (hne : ¬ (pid = e.procId ∧ c = e.realChannelId)) :
    t.entries.findIdx? (Entry.isOwn pid c) ≠ some i := by
  intro hf
  obtain ⟨hlt, hi, -⟩ := List.findIdx?_eq_some_iff_getElem.mp hf
  obtain ⟨_, he⟩ := List.getElem?_eq_some_iff.mp h.entry
  simp only [he, Entry.isOwn, Bool.and_eq_true, beq_iff_eq] at hi
  exact hne ⟨hi.1.2.symm, hi.2.symm⟩

theorem Table.Holds.beforeWrite (h : t.Holds i e) :
    onPduDataBeforeWrite e.realChannelId t = !e.isUnread := by
  unfold onPduDataBeforeWrite
  congr 1
  rw [Bool.eq_iff_iff, List.any_eq_true]
  constructor
  · rintro ⟨x, hx, hw⟩
    rw [Bool.and_eq_true] at hw
    obtain ⟨j, hj⟩ := List.getElem?_of_mem hx
    have hji := h.unique hj hw.1
    rw [hji, h.entry] at hj
    rw [Option.some.inj hj]
    exact hw.2
  · intro he
    exact ⟨e, List.mem_of_getElem? h.entry, by simp [(h.watches_iff _).mpr rfl, he]⟩

theorem Table.Holds.write (h : t.Holds i e) (c : ChannelId) :
    (onPduDataWrite c t).Holds i (if c = e.realChannelId then e.mark else e) := by
  refine h.of_registrations (onPduDataWrite_registrations c t) ?_
  simp only [onPduDataWrite, List.getElem?_map, h.entry, Option.map_some, Option.some.injEq]
  simp only [h.watches_iff, eq_comm]

theorem Table.Holds.clear (h : t.Holds i e) : (clearRunFlags t).Holds i e.clear := by
  refine h.of_registrations (clearRunFlags_registrations t) ?_
  simp [clearRunFlags, h.entry, h.enabled]

theorem Table.Holds.callbacks (h : t.Holds i e) (pid : Pid) :
    (callRecvEventCallbacks pid t).1.Holds i
      (if pid = e.procId ∧ e.onRecv.isSome then e.consume else e) := by
  refine h.of_registrations (callRecvEventCallbacks_registrations pid t) ?_
  have hcb : e.hasCallback pid = true ↔ pid = e.procId ∧ e.onRecv.isSome := by
    rw [@eq_comm _ pid]
    simp [Entry.hasCallback, h.enabled]
  simp only [callRecvEventCallbacks, List.getElem?_map, h.entry, Option.map_some, hcb]

theorem Table.Holds.setPending (h : t.Holds i e) (pid : Pid) (id : ℕ) (b : Bool) :
    (setRecvEventPending pid id b t).1.Holds i
      (if id = i ∧ pid = e.procId then e.setPending b else e) := by
  refine h.of_registrations (setRecvEventPending_registrations pid id b t) ?_
  unfold setRecvEventPending
  by_cases hid : id = i
  · subst hid
    obtain ⟨hlt, -⟩ := List.getElem?_eq_some_iff.mp h.entry
    simp only [h.entry, h.enabled]
    by_cases hp : e.procId = pid
    · simp [hp, hlt]
    · simp [h.entry, hp, Ne.symm hp]
  · split
    · simp [h.entry, hid]
    · split <;> simp [h.entry, hid]

theorem Table.Holds.setChannelPending (h : t.Holds i e) (pid : Pid) (real : Option ChannelId)
    (b : Bool) :
    (setChannelPending pid real b t).1.Holds i
      (if pid = e.procId ∧ real = some e.realChannelId then e.setPending b else e) := by
  refine h.of_registrations (setChannelPending_registrations pid real b t) ?_
  cases real with
  | none => simp [RecvEvent.setChannelPending, h.entry]
  | some c =>
    simp only [RecvEvent.setChannelPending, getElem?_updateFirst, h.entry, Option.some.injEq]
    by_cases hown : pid = e.procId ∧ c = e.realChannelId
    · obtain ⟨rfl, rfl⟩ := hown
      simp [h.findIdx?_isOwn]
    · simp [h.findIdx?_ne hown, hown]

theorem Table.Holds.check (h : t.Holds i e) (hc : e.realChannelId < pduChannelMax) (pid : Pid)
    (c : ChannelId) :
    (getRecvEvent pid c t).1.Holds i
      (if pid = e.procId ∧ c = e.realChannelId then e.consume else e) := by
  refine h.of_registrations (getRecvEvent_registrations pid c t) ?_
  by_cases hown : pid = e.procId ∧ c = e.realChannelId
  · obtain ⟨rfl, rfl⟩ := hown
    simp [getRecvEvent, Nat.not_le.mpr hc, h.find?_isOwn, getElem?_updateFirst, h.findIdx?_isOwn,
      h.entry]
  · rw [if_neg hown]
    unfold getRecvEvent
    split
    · exact h.entry
    · split
      · exact h.entry
      · simp [getElem?_updateFirst, h.findIdx?_ne hown, h.entry]

theorem Table.Holds.check_result (h : t.Holds i e) (hc : e.realChannelId < pduChannelMax) :
    (getRecvEvent e.procId e.realChannelId t).2 =
      ⟨e.isUnread, if e.isUnread then some i else none⟩ := by
  simp only [getRecvEvent, ge_iff_le, Nat.not_le.mpr hc, if_false, h.find?_isOwn,
    h.findIdx?_isOwn]
  cases hr : e.recvFlag <;> cases hp : e.pendingFlag <;> simp [Entry.isUnread, hr, hp]

theorem consume_eq_self {e : Entry} (hu : e.isUnread = false) : e.consume = e := by
  simp [Entry.consume, hu]

@[simp] theorem consume_isUnread (e : Entry) : e.consume.isUnread = false := by
  unfold Entry.consume
  split
  · rfl
  · simp_all

theorem Table.Holds.check_closed (h : t.Holds i e) (hc : e.realChannelId < pduChannelMax)
    (hu : e.isUnread = false) : (getRecvEvent e.procId e.realChannelId t).1 = t := by
  have hsame : updateFirst (Entry.isOwn e.procId e.realChannelId) Entry.consume t.entries =
      t.entries := by
    refine List.ext_getElem? fun j => ?_
    rw [getElem?_updateFirst, h.findIdx?_isOwn]
    split
    · next hj =>
      obtain rfl := Option.some.inj hj
      rw [h.entry, Option.map_some, consume_eq_self hu]
    · rfl
  simp only [getRecvEvent, ge_iff_le, Nat.not_le.mpr hc, if_false, h.find?_isOwn, hsame]

theorem calledFrom_le (pid : Pid) (k : ℕ) (es : List Entry) : ∀ j ∈ calledFrom pid k es, k ≤ j := by
  induction es generalizing k with
  | nil => simp [calledFrom]
  | cons x xs ih =>
    have htail : ∀ j ∈ calledFrom pid (k + 1) xs, k ≤ j := fun j hj => by
      have := ih (k + 1) j hj
      omega
    simp only [calledFrom]
    split
    · simpa using htail
    · exact htail

theorem count_calledFrom (pid : Pid) (k : ℕ) (es : List Entry) (j : ℕ) (x : Entry)
    (hj : es[j]? = some x) :
    (calledFrom pid k es).count (k + j) = if x.hasCallback pid && x.isUnread then 1 else 0 := by
  induction es generalizing k j with
  | nil => simp at hj
  | cons y ys ih =>
    simp only [calledFrom]
    cases j with
    | zero =>
      have hy : y = x := by simpa using hj
      have hrest : (calledFrom pid (k + 1) ys).count k = 0 := by
        rw [List.count_eq_zero]
        intro hk
        have := calledFrom_le pid (k + 1) ys k hk
        omega
      subst hy
      split <;> simp [hrest]
    | succ j =>
      have hrest := ih (k + 1) j (by simpa using hj)
      rw [show k + 1 + j = k + (j + 1) by omega] at hrest
      split
      · rw [List.count_cons_of_ne (by omega), hrest]
      · exact hrest

theorem Table.Holds.callbacks_count (h : t.Holds i e) (pid : Pid) :
    (callRecvEventCallbacks pid t).2.count i =
      if e.hasCallback pid && e.isUnread then 1 else 0 := by
  have hcount := count_calledFrom pid 0 t.entries i e h.entry
  rwa [Nat.zero_add] at hcount

end Holds

/-- What any process does to the bus between two registrations. -/
inductive BusAction (Pdu : Type)
  | write (c : ChannelId) (p : Pdu)
  | check (pid : Pid) (c : ChannelId)
  | callbacks (pid : Pid)
  | setPending (pid : Pid) (id : ℕ) (pending : Bool)
  | setChannelPending (pid : Pid) (real : Option ChannelId) (pending : Bool)
  | clearRunFlags

def busStep {Pdu : Type} (b : Bus Pdu) : BusAction Pdu → Bus Pdu
  | .write c p => (writePdu c p b).1
  | .check pid c => { b with table := (getRecvEvent pid c b.table).1 }
  | .callbacks pid => { b with table := (callRecvEventCallbacks pid b.table).1 }
  | .setPending pid id v => { b with table := (setRecvEventPending pid id v b.table).1 }
  | .setChannelPending pid real v => { b with table := (setChannelPending pid real v b.table).1 }
  | .clearRunFlags => { b with table := clearRunFlags b.table }

/-- What can be observed at one event. -/
inductive GateEvent
  | accepted | refused | consumed | unanswered | pended | resumed | cleared
  deriving DecidableEq

/-- What an action shows at the event `i` of the process `pid` on the channel `c`, read off
from what the functions return. -/
def gateEvents {Pdu : Type} (i : ℕ) (pid : Pid) (c : ChannelId) (b : Bus Pdu) :
    BusAction Pdu → List GateEvent
  | .write d p => if d = c then [if (writePdu d p b).2 then .accepted else .refused] else []
  | .check q d =>
    if q = pid ∧ d = c then
      [if (getRecvEvent q d b.table).2.received then .consumed else .unanswered]
    else []
  | .callbacks q => if i ∈ (callRecvEventCallbacks q b.table).2 then [.consumed] else []
  | .setPending q id v => if id = i ∧ q = pid then [if v then .pended else .resumed] else []
  | .setChannelPending q real v =>
    if q = pid ∧ real = some c then [if v then .pended else .resumed] else []
  | .clearRunFlags => [.cleared]

def Takes (g : GateEvent) : Prop := g = .consumed ∨ g = .cleared

/-- A write was accepted since the last true check, callback or clear. -/
def Unread (h : List GateEvent) : Prop := Since (· = .accepted) Takes h

/-- The gate was closed since the last resume or clear. -/
def Pending (h : List GateEvent) : Prop :=
  Since (· = .pended) (fun g => g = .resumed ∨ g = .cleared) h

theorem unread_concat (h : List GateEvent) (g : GateEvent) :
    Unread (h ++ [g]) ↔ g = .accepted ∨ (Unread h ∧ ¬ Takes g) := since_concat _ _ h g

theorem pending_concat (h : List GateEvent) (g : GateEvent) :
    Pending (h ++ [g]) ↔ g = .pended ∨ (Pending h ∧ ¬ (g = .resumed ∨ g = .cleared)) :=
  since_concat _ _ h g

/-- How the entry is after `g` has been observed at it. -/
inductive GateMove (e : Entry) : GateEvent → Entry → Prop
  | accepted (hu : e.isUnread = false) : GateMove e .accepted e.mark
  | refused (hu : e.isUnread = true) : GateMove e .refused e
  | consumed (hu : e.isUnread = true) : GateMove e .consumed e.consume
  | unanswered (hu : e.isUnread = false) : GateMove e .unanswered e
  | pended : GateMove e .pended (e.setPending true)
  | resumed : GateMove e .resumed (e.setPending false)
  | cleared : GateMove e .cleared e.clear

theorem GateMove.ofSetPending (e : Entry) (v : Bool) :
    GateMove e (if v then .pended else .resumed) (e.setPending v) := by
  cases v
  · exact .resumed
  · exact .pended

/-- What is seen of a step that leads to the table `t`: nothing, and the event is as it was, or
one move of it. -/
inductive GateStep (i : ℕ) (e : Entry) (t : Table) : List GateEvent → Prop
  | unseen (h : t.Holds i e) : GateStep i e t []
  | seen (g : GateEvent) (e' : Entry) (m : GateMove e g e') (h : t.Holds i e') : GateStep i e t [g]

section Steps

variable {Pdu : Type} {i : ℕ} {e : Entry} {b : Bus Pdu}

theorem write_gate (h : b.table.Holds i e) (d : ChannelId) (p : Pdu) :
    GateStep i e (busStep b (.write d p)).table
      (gateEvents i e.procId e.realChannelId b (.write d p)) := by
  by_cases hd : d = e.realChannelId
  · subst hd
    simp only [gateEvents, busStep, writePdu, h.beforeWrite, if_true]
    cases hu : e.isUnread with
    | false => exact .seen _ e.mark (.accepted hu) (by simpa using h.write e.realChannelId)
    | true => exact .seen _ e (.refused hu) h
  · have hw := h.write d
    rw [if_neg hd] at hw
    simp only [gateEvents, busStep, writePdu, if_neg hd]
    split
    · exact .unseen hw
    · exact .unseen h

theorem check_gate (h : b.table.Holds i e) (hc : e.realChannelId < pduChannelMax) (q : Pid)
    (d : ChannelId) :
    GateStep i e (busStep b (.check q d)).table
      (gateEvents i e.procId e.realChannelId b (.check q d)) := by
  have hk := h.check hc q d
  by_cases hown : q = e.procId ∧ d = e.realChannelId
  · rw [if_pos hown] at hk
    obtain ⟨rfl, rfl⟩ := hown
    simp only [gateEvents, h.check_result hc, and_self, if_true]
    cases hu : e.isUnread with
    | false =>
      rw [consume_eq_self hu] at hk
      exact .seen _ e (.unanswered hu) hk
    | true => exact .seen _ e.consume (.consumed hu) hk
  · rw [if_neg hown] at hk
    simp only [gateEvents, if_neg hown]
    exact .unseen hk

theorem callbacks_called (h : b.table.Holds i e) (q : Pid) :
    i ∈ (callRecvEventCallbacks q b.table).2 ↔
      (q = e.procId ∧ e.onRecv.isSome) ∧ e.isUnread := by
  have hcb : e.hasCallback q = true ↔ q = e.procId ∧ e.onRecv.isSome := by
    rw [@eq_comm _ q]
    simp [Entry.hasCallback, h.enabled]
  rw [← hcb, ← List.count_pos_iff, h.callbacks_count q]
  split <;> simp_all

theorem callbacks_gate (h : b.table.Holds i e) (q : Pid) :
    GateStep i e (busStep b (.callbacks q)).table
      (gateEvents i e.procId e.realChannelId b (.callbacks q)) := by
  have hk := h.callbacks q
  simp only [gateEvents, callbacks_called h q]
  by_cases hcall : (q = e.procId ∧ e.onRecv.isSome) ∧ e.isUnread
  · rw [if_pos hcall.1] at hk
    rw [if_pos hcall]
    exact .seen _ e.consume (.consumed hcall.2) hk
  · have hsame : (if q = e.procId ∧ e.onRecv.isSome then e.consume else e) = e := by
      split
      · next hq => exact consume_eq_self (by simpa [hq] using hcall)
      · rfl
    rw [hsame] at hk
    rw [if_neg hcall]
    exact .unseen hk

theorem busStep_gate (h : b.table.Holds i e) (hc : e.realChannelId < pduChannelMax)
    (a : BusAction Pdu) :
    GateStep i e (busStep b a).table (gateEvents i e.procId e.realChannelId b a) := by
  cases a with
  | write d p => exact write_gate h d p
  | check q d => exact check_gate h hc q d
  | callbacks q => exact callbacks_gate h q
  | setPending q id v =>
    have hk := h.setPending q id v
    simp only [gateEvents]
    split
    · next hown =>
      rw [if_pos hown] at hk
      exact .seen _ (e.setPending v) (.ofSetPending e v) hk
    · next hown =>
      rw [if_neg (by tauto)] at hk
      exact .unseen hk
  | setChannelPending q real v =>
    have hk := h.setChannelPending q real v
    simp only [gateEvents]
    split
    · next hown =>
      rw [if_pos hown] at hk
      exact .seen _ (e.setPending v) (.ofSetPending e v) hk
    · next hown =>
      rw [if_neg hown] at hk
      exact .unseen hk
  | clearRunFlags => exact .seen _ e.clear .cleared h.clear

end Steps

theorem GateMove.registration {e e' : Entry} {g : GateEvent} (m : GateMove e g e') :
    e'.toRegistration = e.toRegistration := by
  cases m <;> simp

theorem GateMove.recvFlag {e e' : Entry} {g : GateEvent} (m : GateMove e g e') :
    e'.recvFlag = true ↔ g = .accepted ∨ (e.recvFlag = true ∧ ¬ Takes g) := by
  cases m <;> simp_all [Entry.mark, Entry.consume, Entry.setPending, Entry.clear, Takes]

theorem GateMove.pendingFlag {e e' : Entry} {g : GateEvent} (m : GateMove e g e') :
    e'.pendingFlag = true ↔
      g = .pended ∨ (e.pendingFlag = true ∧ ¬ (g = .resumed ∨ g = .cleared)) := by
  cases m <;> simp_all [Entry.mark, Entry.consume, Entry.setPending, Entry.clear]

/-- The flags say what the history says, and no write was accepted over an unread mark
while the gate was open. -/
structure GateInv {Pdu : Type} (i : ℕ) (r : Registration) (b : Bus Pdu) (h : List GateEvent) :
    Prop where
  entry : ∃ e, b.table.Holds i e ∧ e.toRegistration = r ∧
    (e.recvFlag = true ↔ Unread h) ∧ (e.pendingFlag = true ↔ Pending h)
  accepted : ∀ h₁ h₂, h = h₁ ++ .accepted :: h₂ → Unread h₁ → Pending h₁

theorem accepted_concat {h : List GateEvent} {g : GateEvent}
    (hacc : ∀ h₁ h₂, h = h₁ ++ .accepted :: h₂ → Unread h₁ → Pending h₁)
    (hg : g = .accepted → Unread h → Pending h) :
    ∀ h₁ h₂, h ++ [g] = h₁ ++ .accepted :: h₂ → Unread h₁ → Pending h₁ := by
  intro h₁ h₂ he
  rcases List.eq_nil_or_concat h₂ with rfl | ⟨l, x, rfl⟩
  · obtain ⟨rfl, hx⟩ := List.append_inj' he rfl
    exact hg (by simpa using hx)
  · have hsplit : h ++ [g] = (h₁ ++ .accepted :: l) ++ [x] := by simpa using he
    exact hacc h₁ l (List.append_inj' hsplit rfl).1

theorem GateInv.step {Pdu : Type} {i : ℕ} {r : Registration} {b : Bus Pdu} {h : List GateEvent}
    (hc : r.realChannelId < pduChannelMax) (hinv : GateInv i r b h) (a : BusAction Pdu) :
    GateInv i r (busStep b a) (h ++ gateEvents i r.procId r.realChannelId b a) := by
  obtain ⟨⟨e, he, rfl, hrecv, hpend⟩, hacc⟩ := hinv
  have hgate := busStep_gate he hc a
  generalize gateEvents i e.procId e.realChannelId b a = gs at hgate
  cases hgate with
  | unseen he' =>
    rw [List.append_nil]
    exact ⟨⟨e, he', rfl, hrecv, hpend⟩, hacc⟩
  | seen g e' hm he' =>
    refine ⟨⟨e', he', hm.registration, ?_, ?_⟩, accepted_concat hacc ?_⟩
    · rw [hm.recvFlag, unread_concat, hrecv]
    · rw [hm.pendingFlag, pending_concat, hpend]
    · rintro rfl hu
      cases hm with
      | accepted hclosed =>
        rw [← hpend]
        simpa [Entry.isUnread, hrecv.mpr hu] using hclosed

theorem GateInv.run {Pdu : Type} {i : ℕ} {r : Registration} {b : Bus Pdu}
    (hc : r.realChannelId < pduChannelMax) (hinv : GateInv i r b []) (as : List (BusAction Pdu)) :
    GateInv i r (run busStep b as) (history busStep (gateEvents i r.procId r.realChannelId) b as) := by
  induction as using List.reverseRecOn with
  | nil => exact hinv
  | append_singleton as a ih =>
    rw [run_concat, history_concat]
    exact ih.step hc a

/-- The notification contract of one event, after the history `h` has led to the bus `b`. -/
structure GateContract {Pdu : Type} (i : ℕ) (r : Registration) (b : Bus Pdu)
    (h : List GateEvent) : Prop where
  /-- The two flags are the mark and the gate. -/
  flags : ∃ e, b.table.entries[i]? = some e ∧
    (e.recvFlag = true ↔ Unread h) ∧ (e.pendingFlag = true ↔ Pending h)
  refused : ∀ p, (writePdu r.realChannelId p b).2 = false ↔ Unread h ∧ ¬ Pending h
  refused_same : ∀ p, (writePdu r.realChannelId p b).2 = false →
    (writePdu r.realChannelId p b).1 = b
  received : (getRecvEvent r.procId r.realChannelId b.table).2.received = true ↔
    Unread h ∧ ¬ Pending h
  received_consumes : (getRecvEvent r.procId r.realChannelId b.table).2.received = true →
    ∃ e, (getRecvEvent r.procId r.realChannelId b.table).1.entries[i]? = some e ∧
      e.recvFlag = false
  called : (callRecvEventCallbacks r.procId b.table).2.count i = 1 ↔
    r.onRecv.isSome ∧ Unread h ∧ ¬ Pending h
  called_once : (callRecvEventCallbacks r.procId b.table).2.count i ≤ 1
  called_consumes : (callRecvEventCallbacks r.procId b.table).2.count i = 1 →
    ∃ e, (callRecvEventCallbacks r.procId b.table).1.entries[i]? = some e ∧ e.recvFlag = false
  /-- A second write is accepted only while the gate is closed. -/
  twice : ∀ h₁ h₂ h₃, h = h₁ ++ .accepted :: h₂ ++ .accepted :: h₃ → (∀ g ∈ h₂, ¬ Takes g) →
    Pending (h₁ ++ .accepted :: h₂)
  /-- After the gate was opened the first check reports what is marked, and reports it once. -/
  resumed : ∀ h₁ h₂, h = h₁ ++ .resumed :: h₂ → Unread h₁ →
    (∀ g ∈ h₂, ¬ Takes g ∧ g ≠ .pended) →
    (getRecvEvent r.procId r.realChannelId b.table).2.received = true ∧
    (getRecvEvent r.procId r.realChannelId
      (getRecvEvent r.procId r.realChannelId b.table).1).2.received = false
  /-- While the gate is closed a check answers no and leaves the table as it is. -/
  held : Pending h → (getRecvEvent r.procId r.realChannelId b.table).2.received = false ∧
    (getRecvEvent r.procId r.realChannelId b.table).1 = b.table

theorem GateInv.contract {Pdu : Type} {i : ℕ} {r : Registration} {b : Bus Pdu}
    {h : List GateEvent} (hc : r.realChannelId < pduChannelMax) (hinv : GateInv i r b h) :
    GateContract i r b h := by
  obtain ⟨⟨e, he, rfl, hrecv, hpend⟩, hacc⟩ := hinv
  have hunread : e.isUnread = true ↔ Unread h ∧ ¬ Pending h := by
    rw [← hrecv, ← hpend]
    simp [Entry.isUnread]
  have hcheck := he.check hc e.procId e.realChannelId
  rw [if_pos ⟨rfl, rfl⟩] at hcheck
  have hreceived : (getRecvEvent e.procId e.realChannelId b.table).2.received = e.isUnread := by
    rw [he.check_result hc]
  have hcalls := he.callbacks_count e.procId
  have hcb : e.hasCallback e.procId = e.onRecv.isSome := by simp [Entry.hasCallback, he.enabled]
  rw [hcb] at hcalls
  constructor
  case flags => exact ⟨e, he.entry, hrecv, hpend⟩
  case refused =>
    intro p
    rw [← hunread]
    simp only [writePdu, he.beforeWrite]
    cases e.isUnread <;> simp
  case refused_same => exact fun p hw => writePdu_refused hw
  case received => rw [hreceived, hunread]
  case received_consumes =>
    intro hr
    rw [hreceived] at hr
    exact ⟨e.consume, hcheck.entry, by simp [Entry.consume, hr]⟩
  case called =>
    rw [hcalls, ← hunread]
    cases e.onRecv.isSome <;> cases e.isUnread <;> simp
  case called_once =>
    rw [hcalls]
    split <;> omega
  case called_consumes =>
    intro hcount
    rw [hcalls] at hcount
    have hboth : e.onRecv.isSome = true ∧ e.isUnread = true := by
      split at hcount
      · next hb => simpa using hb
      · omega
    have hpass := he.callbacks e.procId
    rw [if_pos ⟨rfl, hboth.1⟩] at hpass
    exact ⟨e.consume, hpass.entry, by simp [Entry.consume, hboth.2]⟩
  case twice =>
    intro h₁ h₂ h₃ hsplit hno
    have hmarked : Unread (h₁ ++ .accepted :: h₂) := ⟨h₁, .accepted, h₂, rfl, rfl, hno⟩
    exact hacc _ h₃ hsplit hmarked
  case resumed =>
    intro h₁ h₂ hsplit hmarked hno
    have hstill : Unread h := by
      rw [hsplit]
      refine since_append hmarked _ fun g hg => ?_
      rcases List.mem_cons.mp hg with rfl | hg
      · simp [Takes]
      · exact (hno g hg).1
    have hopen : ¬ Pending h := by
      rw [hsplit]
      exact not_since_of_stop h₁ (Or.inl rfl) (by simp) h₂ fun g hg => (hno g hg).2
    have hagain := hcheck.check_result (by simpa using hc)
    simp only [consume_registration, consume_isUnread] at hagain
    exact ⟨by rw [hreceived, hunread]; exact ⟨hstill, hopen⟩, by rw [hagain]⟩
  case held =>
    intro hclosed
    have hu : e.isUnread = false := by simp [Entry.isUnread, hpend.mpr hclosed]
    exact ⟨by rw [hreceived, hu], he.check_closed hc hu⟩

/-- Whatever is done to the bus, the sole event of a channel keeps its contract. -/
theorem recvEvent_gate_contract {Pdu : Type} (b : Bus Pdu) (i : ℕ) (e : Entry)
    (hsole : b.table.Holds i e) (hflags : e.recvFlag = false ∧ e.pendingFlag = false)
    (hc : e.realChannelId < pduChannelMax) (as : List (BusAction Pdu)) :
    GateContract i e.toRegistration (run busStep b as)
      (history busStep (gateEvents i e.procId e.realChannelId) b as) := by
  have hinit : GateInv i e.toRegistration b [] := by
    refine ⟨⟨e, hsole, rfl, ?_, ?_⟩, by simp⟩
    · simp [hflags.1, Unread]
    · simp [hflags.2, Pending]
  exact (hinit.run hc as).contract hc

theorem recvEvent_gate_contract_single :
    GateContract 0 (newEntry 7 3 (some 1)).toRegistration
      (run busStep (⟨fun _ => 0, ⟨[newEntry 7 3 (some 1)]⟩⟩ : Bus ℕ)
        [.write 3 5, .setPending 7 0 true, .write 3 6, .setPending 7 0 false])
      [.accepted, .pended, .accepted, .resumed] := by
  have hsole : (⟨[newEntry 7 3 (some 1)]⟩ : Table).Holds 0 (newEntry 7 3 (some 1)) := by
    refine ⟨rfl, rfl, rfl, fun j q hj _ _ => ?_⟩
    obtain ⟨hlt, -⟩ := List.getElem?_eq_some_iff.mp hj
    simpa [Table.registrations] using hlt
  exact recvEvent_gate_contract ⟨fun _ => 0, ⟨[newEntry 7 3 (some 1)]⟩⟩ 0 (newEntry 7 3 (some 1))
    hsole ⟨rfl, rfl⟩ (by decide)
    [.write 3 5, .setPending 7 0 true, .write 3 6, .setPending 7 0 false]

end RecvEvent
end HakoniwaCorePro
