import HakoniwaCorePro.ServiceRegistration

/-!
# What the reads of responses change

`get_response` hands the slot's own `responseRecvEventId` to `get_recv_event` as the place for the
id that it finds. Every read overwrites it, also the read of a client that polls in vain, and no
lock is held. Nothing else of the table is changed, and nothing that is done later reads the field.
-/

namespace HakoniwaCorePro
namespace Service

open RecvEvent

def ClientChannelMap.forget (m : ClientChannelMap) : ClientChannelMap :=
  { m with responseRecvEventId := 0 }

/-- The entry but for the events of its responses. -/
def ServiceEntry.forget (e : ServiceEntry) : ServiceEntry :=
  { e with clientChannelMap := ClientChannelMap.forget ∘ e.clientChannelMap }

def ServiceTable.forget (t : ServiceTable) : ServiceTable :=
  { t with entries := ServiceEntry.forget ∘ t.entries }

theorem forget_entry (t : ServiceTable) (i : ℕ) (e : ServiceEntry) :
    ServiceTable.forget { t with entries := Function.update t.entries i e } =
      { t.forget with entries := Function.update t.forget.entries i e.forget } :=
  congrArg (ServiceTable.mk t.entryNum) (Function.comp_update ServiceEntry.forget t.entries i e)

theorem forget_slots (t : ServiceTable) (i k : ℕ) (m : ClientChannelMap) :
    (t.setSlots i (Function.update (t.entries i).clientChannelMap k m)).forget =
      t.forget.setSlots i
        (Function.update (t.forget.entries i).clientChannelMap k m.forget) := by
  rw [ServiceTable.setSlots, forget_entry]
  simp only [ServiceEntry.forget, Function.comp_update]
  rfl

theorem assign_forget (t : ServiceTable) (i k id : ℕ) (client : Name) :
    (t.forget.setSlots i (Function.update (t.forget.entries i).clientChannelMap k
      (((t.forget.entries i).clientChannelMap k).assign client id))).forget =
    (t.setSlots i (Function.update (t.entries i).clientChannelMap k
      (((t.entries i).clientChannelMap k).assign client id))).forget := by
  rw [forget_slots, forget_slots]
  rfl

theorem count_forget (t : ServiceTable) (i : ℕ) :
    ServiceTable.forget { t.forget with
      entries := Function.update t.forget.entries i
        { t.forget.entries i with nextClientId := (t.forget.entries i).nextClientId + 1 } } =
    ServiceTable.forget { t with
      entries := Function.update t.entries i
        { t.entries i with nextClientId := (t.entries i).nextClientId + 1 } } := by
  rw [forget_entry, forget_entry]
  rfl

theorem responseRead_forget (t : ServiceTable) (i k : ℕ) (id : Option ℕ) :
    (t.responseRead i k id).forget = t.forget := by
  have hslot : (((t.entries i).clientChannelMap k).responseRead id).forget =
      (t.forget.entries i).clientChannelMap k := rfl
  rw [ServiceTable.responseRead, forget_slots, hslot, Function.update_eq_self]
  exact congrArg (ServiceTable.mk t.entryNum) (Function.update_eq_self i t.forget.entries)

theorem fill_forget (s : ServiceDef) (e : ServiceEntry) : (e.fill s).forget = e.forget.fill s := by
  simp only [ServiceEntry.fill, ServiceEntry.forget]
  congr 1
  funext j
  simp only [Function.comp_apply]
  split <;> rfl

theorem setServiceEntries_forget (ss : List ServiceDef) (i : ℕ) (es : ℕ → ServiceEntry) :
    ServiceEntry.forget ∘ setServiceEntries i ss es =
      setServiceEntries i ss (ServiceEntry.forget ∘ es) := by
  induction ss generalizing i es with
  | nil => rfl
  | cons s ss ih =>
    simp only [setServiceEntries]
    split
    · exact Function.comp_update _ _ _ _
    · rw [ih, Function.comp_update, fill_forget]
      rfl

theorem findServiceForClient_forget (services : List ServiceDef) (name client : Name) (s : Tables) :
    findServiceForClient services name client { s with services := s.services.forget } =
      ({ (findServiceForClient services name client s).1 with
          services := (findServiceForClient services name client s).1.services.forget },
        (findServiceForClient services name client s).2) := by
  have hload : (Tables.load services { s with services := s.services.forget }) =
      { s.load services with services := (s.load services).services.forget } := by
    have hdata : setServiceData services s.services.forget =
        (setServiceData services s.services).forget :=
      congrArg (ServiceTable.mk services.length)
        (setServiceEntries_forget services 0 s.services.entries).symm
    simp only [Tables.load, hdata]
    rfl
  have hstart : (if s.services.forget.entryNum = 0
      then Tables.load services { s with services := s.services.forget }
      else { s with services := s.services.forget }) =
      { (if s.services.entryNum = 0 then s.load services else s) with
        services := (if s.services.entryNum = 0 then s.load services else s).services.forget } := by
    by_cases hnum : s.services.entryNum = 0
    · simp only [if_pos hnum]
      exact (if_pos hnum).trans hload
    · simp only [if_neg hnum]
      exact if_neg hnum
  simp only [findServiceForClient]
  rw [hstart]
  generalize (if s.services.entryNum = 0 then s.load services else s) = u
  by_cases hbad : name = [] ∨ client = [] ∨ name.length > serviceNamelenMax ∨
      client.length > clientNamelenMax
  · rw [if_pos hbad, if_pos hbad]
  · rw [if_neg hbad, if_neg hbad]
    rfl

/-- What the forgotten fields do not decide. -/
theorem ok_forget (t : ServiceTable) : t.forget.Ok ↔ t.Ok :=
  forall_congr' fun _ => ⟨fun h => ⟨h.channels, h.used, h.room, h.apart⟩,
    fun h => ⟨h.channels, h.used, h.room, h.apart⟩⟩

theorem rebuild_forget (t : ServiceTable) :
    rebuildServiceNameIndexes t.forget = rebuildServiceNameIndexes t := rfl

section Read

variable (pid : Pid) (real : Name → ℕ → Option ChannelId) (i k : ℕ) (t : ServiceTable)
  (ev : RecvEvent.Table)

theorem getResponse_forget : (getResponse pid real i k t ev).1.forget = t.forget := by
  simp only [getResponse]
  split
  · rfl
  · split
    · rfl
    · exact responseRead_forget t i k _

theorem getResponse_registrations :
    (getResponse pid real i k t ev).2.1.registrations = ev.registrations := by
  simp only [getResponse]
  split
  · rfl
  · split
    · rfl
    · exact getRecvEvent_registrations pid _ ev

end Read

end Service
end HakoniwaCorePro
