import HakoniwaCorePro.ServiceRegistration
import Mathlib.Data.List.TakeWhile

/-!
# What `set_service_data` leaves in the table

The loop fills one entry after the other until a name is too long; the entries behind keep what
they had. A name that was filled in is found by `get_service_id`, so that a service of the
caller's own list is found by `create_service`.
-/

namespace HakoniwaCorePro
namespace Service

open RecvEvent

def touchedEntries : ℕ → List ServiceDef → List ℕ
  | _, [] => []
  | i, s :: ss =>
    if s.name.length ≥ serviceNamelenMax then [i] else i :: touchedEntries (i + 1) ss

/-- The indices into `clientChannelMap` that the loop assigns to, in any entry. -/
def touchedSlots : List ServiceDef → List ℕ
  | [] => []
  | s :: ss =>
    if s.name.length ≥ serviceNamelenMax then []
    else List.range s.maxClients ++ touchedSlots ss

theorem setServiceEntries_untouched (ss : List ServiceDef) (es : ℕ → ServiceEntry) {i k : ℕ}
    (hk : k ∉ touchedEntries i ss) : setServiceEntries i ss es k = es k := by
  induction ss generalizing i es with
  | nil => rfl
  | cons s ss ih =>
    simp only [touchedEntries, setServiceEntries] at hk ⊢
    split
    · next hlong =>
      rw [if_pos hlong, List.mem_singleton] at hk
      exact Function.update_of_ne hk _ _
    · next hfit =>
      rw [if_neg hfit, List.mem_cons, not_or] at hk
      rw [ih _ hk.2]
      exact Function.update_of_ne hk.1 _ _

theorem le_of_mem_touchedEntries {ss : List ServiceDef} {i k : ℕ} (hk : k ∈ touchedEntries i ss) :
    i ≤ k ∧ k < i + ss.length := by
  induction ss generalizing i with
  | nil => simp [touchedEntries] at hk
  | cons s ss ih =>
    simp only [touchedEntries] at hk
    split at hk
    · rw [List.mem_singleton] at hk
      simp only [List.length_cons]
      omega
    · rcases List.mem_cons.mp hk with hk | hk
      · simp only [List.length_cons]
        omega
      · have h := ih hk
        simp only [List.length_cons]
        omega

theorem mem_touchedSlots {ss : List ServiceDef} {j : ℕ} (hj : j ∈ touchedSlots ss) :
    ∃ s ∈ ss, j < s.maxClients := by
  induction ss with
  | nil => simp [touchedSlots] at hj
  | cons s ss ih =>
    simp only [touchedSlots] at hj
    split at hj
    · simp at hj
    · rcases List.mem_append.mp hj with hj | hj
      · exact ⟨s, by simp, by simpa using hj⟩
      · obtain ⟨x, hx, hlt⟩ := ih hj
        exact ⟨x, by simp [hx], hlt⟩

theorem setServiceEntries_before (ss : List ServiceDef) (es : ℕ → ServiceEntry) {i k : ℕ}
    (hk : k < i) : setServiceEntries i ss es k = es k := by
  apply setServiceEntries_untouched
  intro hmem
  have := le_of_mem_touchedEntries hmem
  omega

theorem setServiceEntries_fill {ss : List ServiceDef}
    (hfit : ∀ s ∈ ss, s.name.length < serviceNamelenMax) (es : ℕ → ServiceEntry) (i : ℕ) {n : ℕ}
    {s : ServiceDef} (hs : ss[n]? = some s) :
    setServiceEntries i ss es (i + n) = (es (i + n)).fill s := by
  induction ss generalizing i n es with
  | nil => simp at hs
  | cons x ss ih =>
    have hx := hfit x (by simp)
    rw [setServiceEntries, if_neg (by omega)]
    cases n with
    | zero =>
      obtain rfl : x = s := by simpa using hs
      rw [setServiceEntries_before ss _ (by omega), Nat.add_zero, Function.update_self]
    | succ n =>
      have hrest := ih (fun s hs => hfit s (by simp [hs]))
        (Function.update es i ((es i).fill x)) (i + 1) (n := n) (by simpa using hs)
      rw [Nat.add_right_comm, Nat.add_assoc] at hrest
      rw [hrest, Function.update_of_ne (by omega)]

theorem setServiceData_fill {ss : List ServiceDef}
    (hfit : ∀ s ∈ ss, s.name.length < serviceNamelenMax) (t : ServiceTable) {n : ℕ}
    {s : ServiceDef} (hs : ss[n]? = some s) :
    (setServiceData ss t).entries n = (t.entries n).fill s := by
  have h := setServiceEntries_fill hfit t.entries 0 hs
  rwa [Nat.zero_add] at h

/-- What holds of an entry that was opened or filled, and held of the old entries, holds of all. -/
theorem setServiceEntries_induction {P : ServiceEntry → Prop} {ss : List ServiceDef}
    (hopen : ∀ s ∈ ss, ∀ e, P e → P (e.open s))
    (hfill : ∀ s ∈ ss, s.name.length < serviceNamelenMax → ∀ e, P e → P (e.fill s))
    {es : ℕ → ServiceEntry} (h : ∀ k, P (es k)) (i k : ℕ) : P (setServiceEntries i ss es k) := by
  induction ss generalizing i es with
  | nil => exact h k
  | cons s ss ih =>
    have hupdate : ∀ e, P e → ∀ j, P (Function.update es i e j) := by
      intro e he j
      by_cases hj : j = i
      · subst hj
        simpa using he
      · simpa [hj] using h j
    rw [setServiceEntries]
    split
    · exact hupdate _ (hopen s (by simp) _ (h i)) k
    · next hfit =>
      apply ih
      · exact fun x hx => hopen x (by simp [hx])
      · exact fun x hx => hfill x (by simp [hx])
      · exact hupdate _ (hfill s (by simp) (by omega) _ (h i))

/-- `serviceName` is an array of `HAKO_SERVICE_NAMELEN_MAX` bytes, the last of them zero. -/
def ServiceTable.NamesFit (t : ServiceTable) : Prop :=
  ∀ i, (t.entries i).serviceName.length < serviceNamelenMax

theorem cString_length_le (bytes : List UInt8) : (cString bytes).length ≤ bytes.length :=
  (List.takeWhile_sublist _).length_le

theorem cString_eq_self_iff (name : Name) : cString name = name ↔ 0 ∉ name := by
  simp only [cString, List.takeWhile_eq_self_iff, decide_eq_true_eq]
  constructor
  · intro h hzero
    exact h 0 hzero rfl
  · intro h x hx hzero
    exact h (hzero ▸ hx)

theorem setServiceData_namesFit (ss : List ServiceDef) {t : ServiceTable} (h : t.NamesFit) :
    (setServiceData ss t).NamesFit := by
  intro k
  apply setServiceEntries_induction (P := fun e => e.serviceName.length < serviceNamelenMax)
  case hopen => exact fun _ _ _ he => he
  case hfill => exact fun s _ hs _ _ => Nat.lt_of_le_of_lt (cString_length_le s.name) hs
  case h => exact h

/-- The entry that a lookup of the name may answer. -/
def ServiceTable.Carries (t : ServiceTable) (name : Name) (i : ℕ) : Prop :=
  i < t.entryNum ∧ (t.entries i).enabled = true ∧ (t.entries i).serviceName = name

theorem rebuild_carries {t : ServiceTable} {name : Name} {i : ℕ}
    (h : rebuildServiceNameIndexes t name = some i) : t.Carries name i :=
  rebuild_fresh t name i h

theorem rebuild_none_iff (t : ServiceTable) (name : Name) :
    rebuildServiceNameIndexes t name = none ↔ ∀ i, ¬ t.Carries name i := by
  simp only [rebuildServiceNameIndexes, List.find?_eq_none, List.mem_reverse, List.mem_range,
    Bool.and_eq_true, beq_iff_eq]
  constructor
  · intro h i hi
    exact h i hi.1 hi.2
  · intro h i hi hname
    exact h i ⟨hi, hname⟩

theorem getServiceId_of_some {name : Name} {t : ServiceTable} {ix : NameIndex} {i : ℕ}
    (h : ix name = some i) : getServiceId name t ix = (ix, some i) := by
  simp [getServiceId, h]

theorem getServiceId_of_none {name : Name} {t : ServiceTable} {ix : NameIndex}
    (h : ix name = none) :
    getServiceId name t ix = (rebuildServiceNameIndexes t, rebuildServiceNameIndexes t name) := by
  simp [getServiceId, h]

@[simp] theorem getServiceId_rebuilt (name : Name) (t : ServiceTable) :
    getServiceId name t (rebuildServiceNameIndexes t) =
      (rebuildServiceNameIndexes t, rebuildServiceNameIndexes t name) := by
  simp only [getServiceId]
  split
  · next i hi => rw [hi]
  · rfl

theorem load_carries {services : List ServiceDef}
    (hfit : ∀ s ∈ services, s.name.length < serviceNamelenMax) {s : ServiceDef}
    (hs : s ∈ services) (hz : 0 ∉ s.name) (t : ServiceTable) :
    ∃ i, (setServiceData services t).Carries s.name i := by
  obtain ⟨n, hn, hget⟩ := List.getElem_of_mem hs
  refine ⟨n, hn, ?_⟩
  rw [setServiceData_fill hfit t (s := s) (by rw [List.getElem?_eq_getElem hn, hget])]
  exact ⟨rfl, (cString_eq_self_iff s.name).mpr hz⟩

theorem findService_isSome {services : List ServiceDef}
    (hfit : ∀ s ∈ services, s.name.length < serviceNamelenMax) {s : ServiceDef}
    (hs : s ∈ services) (hz : 0 ∉ s.name) (hmax : services.length < serviceMax) (u : Tables) :
    (findService services s.name u).2.isSome := by
  have hfound : ∀ t, (rebuildServiceNameIndexes (setServiceData services t) s.name).isSome := by
    intro t
    rw [Option.isSome_iff_ne_none]
    intro hnone
    obtain ⟨i, hi⟩ := load_carries hfit hs hz t
    exact (rebuild_none_iff _ _).mp hnone i hi
  by_cases hnum : u.services.entryNum = services.length
  · simp only [findService, hnum, ne_eq, not_true, if_false, ge_iff_le, Nat.not_le.mpr hmax]
    split
    · rfl
    · simpa [Tables.load] using hfound _
  · have hload : (u.load services).services.entryNum = services.length := rfl
    simp only [findService, ne_eq, hnum, not_false_eq_true, if_true, hload, ge_iff_le,
      Nat.not_le.mpr hmax, if_false]
    split
    · rfl
    · simpa [Tables.load] using hfound _

theorem findService_full {services : List ServiceDef} (hmax : services.length ≥ serviceMax)
    (name : Name) (u : Tables) : (findService services name u).2 = none := by
  by_cases hnum : u.services.entryNum = services.length
  · simp [findService, hnum, hmax]
  · have hload : (u.load services).services.entryNum = services.length := rfl
    simp [findService, hnum, hload, hmax]

theorem createService_missing {services : List ServiceDef} {name : Name} {s : Tables}
    (h : (findService services name s).2 = none) (pid : Pid)
    (real : Name → ℕ → Option ChannelId) :
    createService pid services real name s = ((findService services name s).1, none) := by
  simp only [createService]
  split
  · next u hu => rw [hu]
  · next u i hu =>
    rw [hu] at h
    cases h

theorem createService_found {services : List ServiceDef} {name : Name} {s : Tables} {i : ℕ}
    (h : (findService services name s).2 = some i) (pid : Pid)
    (real : Name → ℕ → Option ChannelId) :
    createService pid services real name s =
      createServiceSlots pid (real name) i (findService services name s).1 := by
  simp only [createService]
  split
  · next u hu =>
    rw [hu] at h
    cases h
  · next u j hu =>
    rw [hu] at h ⊢
    rw [Option.some.inj h]

theorem register_refused {real : Option ChannelId} {t : RecvEvent.Table}
    (h : real = none ∨ recvEventMax ≤ t.entryNum) (pid : Pid) (onRecv : Option Callback) :
    registerDataRecvEvent pid real onRecv t = (t, none) := by
  cases real with
  | none => rfl
  | some c => exact if_pos (h.resolve_left (Option.some_ne_none c))

theorem register_accepted {t : RecvEvent.Table} (h : t.entryNum < recvEventMax) (pid : Pid)
    (c : ChannelId) (onRecv : Option Callback) :
    registerDataRecvEvent pid (some c) onRecv t =
      (⟨t.entries ++ [newEntry pid c onRecv]⟩, some t.entryNum) :=
  if_neg (Nat.not_le.mpr h)

theorem registerSlots_succeeds (pid : Pid) {real : ℕ → Option ChannelId} {js : List ℕ}
    (hreal : ∀ j ∈ js, (real (serverChannelId j)).isSome) {t : RecvEvent.Table}
    (hroom : t.entryNum + js.length ≤ recvEventMax) (m : ℕ → ClientChannelMap) :
    (registerSlots pid real js t m).2.2 = true := by
  induction js generalizing t m with
  | nil => rfl
  | cons j js ih =>
    obtain ⟨c, hc⟩ := Option.isSome_iff_exists.mp (hreal j (by simp))
    rw [List.length_cons] at hroom
    rw [registerSlots, hc, register_accepted (by omega)]
    apply ih
    · exact fun i hi => hreal i (by simp [hi])
    · simp only [RecvEvent.Table.entryNum, List.length_append, List.length_singleton] at hroom ⊢
      omega

end Service
end HakoniwaCorePro
