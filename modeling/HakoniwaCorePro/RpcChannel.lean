import HakoniwaCorePro.Mailbox
import HakoniwaCorePro.RecvEventGate

/-!
# Request and response channels

`put_request` and `put_response` write one packet under the channel lock. `get_request` and
`get_response` test and clear the receive event first, and copy the packet in a second
locked step. On a channel whose sole event is not pending this is `Mailbox`.
-/

namespace HakoniwaCorePro
namespace RecvEvent

open Runs

/-- The second half of `get_request`, when the event was found: `read_pdu`, which may fail. -/
def readPdu {Pdu : Type} (c : ChannelId) (ok : Bool) (b : Bus Pdu) : Option Pdu :=
  if ok then some (b.data c) else none

/-- `get_request` and `get_response` as one step on the channel. What `get_response` stores into
the service table is in `getResponse`. -/
def getPacket {Pdu : Type} (pid : Pid) (c : ChannelId) (ok : Bool) (b : Bus Pdu) :
    Bus Pdu × Option Pdu :=
  let (t, k) := getRecvEvent pid c b.table
  ({ b with table := t }, if k.received then readPdu c ok b else none)

/-- One channel, between its writer and its reader. -/
structure ChannelState (Pdu : Type) where
  bus : Bus Pdu
  /-- The reader is between `get_recv_event` and `read_pdu`. -/
  reading : Bool
  accepted : List Pdu
  returned : List Pdu

/-- The writer's step is `put`; the reader's next step, whichever it is, is `get`. -/
def channelStep {Pdu : Type} (pid : Pid) (c : ChannelId) (s : ChannelState Pdu) :
    Mailbox.Action Pdu → ChannelState Pdu
  | .put p =>
    let (b, ok) := writePdu c p s.bus
    { s with bus := b, accepted := if ok then s.accepted ++ [p] else s.accepted }
  | .get ok =>
    if s.reading then
      { s with reading := false, returned := s.returned ++ (readPdu c ok s.bus).toList }
    else
      let (t, k) := getRecvEvent pid c s.bus.table
      { s with bus := { s.bus with table := t }, reading := k.received }

/-- The channel `c` has the one enabled event `i`, of process `pid`, and its gate is open. -/
structure Table.Serves (t : Table) (i : ℕ) (pid : Pid) (c : ChannelId) (full : Bool) : Prop where
  event : ∃ e, t.Holds i e ∧ e.procId = pid ∧ e.realChannelId = c ∧ e.pendingFlag = false ∧
    e.recvFlag = full
  inRange : c < pduChannelMax

section Serves

variable {Pdu : Type} {t : Table} {i : ℕ} {pid : Pid} {c : ChannelId} {full : Bool}

theorem Table.Serves.unread (h : t.Serves i pid c full) :
    ∃ e, t.Holds i e ∧ e.procId = pid ∧ e.realChannelId = c ∧ e.pendingFlag = false ∧
      e.recvFlag = full ∧ e.isUnread = full := by
  obtain ⟨⟨e, he, hp, hc, hg, hf⟩, -⟩ := h
  exact ⟨e, he, hp, hc, hg, hf, by simp [Entry.isUnread, hf, hg]⟩

theorem Table.Serves.received (h : t.Serves i pid c full) :
    (getRecvEvent pid c t).2.received = full := by
  obtain ⟨e, he, rfl, rfl, -, -, hu⟩ := h.unread
  rw [he.check_result h.inRange, hu]

theorem Table.Serves.check (h : t.Serves i pid c full) :
    (getRecvEvent pid c t).1.Serves i pid c false := by
  obtain ⟨e, he, hp, hc, hg, hf, hu⟩ := h.unread
  have hrange := h.inRange
  rw [← hc] at hrange
  have hk := he.check hrange pid c
  rw [if_pos ⟨hp.symm, hc.symm⟩] at hk
  refine ⟨⟨e.consume, hk, by simpa using hp, by simpa using hc, ?_, ?_⟩, h.inRange⟩
  · simp only [Entry.consume]
    split <;> exact hg
  · simp only [Entry.consume, hu]
    cases full with
    | false => exact hf
    | true => rfl

theorem Table.Serves.check_other (h : t.Serves i pid c full) {d : ChannelId} (hd : d ≠ c)
    (q : Pid) : (getRecvEvent q d t).1.Serves i pid c full := by
  obtain ⟨⟨e, he, hp, hc, hg, hf⟩, hrange⟩ := h
  have hk := he.check (by rwa [hc]) q d
  rw [if_neg (fun hown => hd (hown.2.trans hc))] at hk
  exact ⟨⟨e, hk, hp, hc, hg, hf⟩, hrange⟩

theorem Table.Serves.beforeWrite (h : t.Serves i pid c full) :
    onPduDataBeforeWrite c t = !full := by
  obtain ⟨e, he, -, rfl, -, -, hu⟩ := h.unread
  rw [he.beforeWrite, hu]

theorem Table.Serves.write (h : t.Serves i pid c full) :
    (onPduDataWrite c t).Serves i pid c true := by
  obtain ⟨⟨e, he, hp, hc, hg, hf⟩, hrange⟩ := h
  have hw := he.write c
  rw [if_pos hc.symm] at hw
  exact ⟨⟨e.mark, hw, hp, hc, hg, rfl⟩, hrange⟩

theorem Table.Serves.write_other (h : t.Serves i pid c full) {d : ChannelId} (hd : d ≠ c) :
    (onPduDataWrite d t).Serves i pid c full := by
  obtain ⟨⟨e, he, hp, hc, hg, hf⟩, hrange⟩ := h
  have hw := he.write d
  rw [if_neg (fun hdc => hd (hdc.trans hc))] at hw
  exact ⟨⟨e, hw, hp, hc, hg, hf⟩, hrange⟩

end Serves

/-- The channel's table entry and data are the mailbox's mark and cell. -/
structure Sim {Pdu : Type} (i : ℕ) (pid : Pid) (c : ChannelId) (s : ChannelState Pdu)
    (m : Mailbox.State Pdu) : Prop where
  serves : s.bus.table.Serves i pid c m.full
  cell : s.bus.data c = m.cell
  holding : s.reading = m.holding
  accepted : s.accepted = m.accepted
  returned : s.returned = m.returned

theorem sim_step {Pdu : Type} {i : ℕ} {pid : Pid} {c : ChannelId} (s : ChannelState Pdu)
    (m : Mailbox.State Pdu) (a : Mailbox.Action Pdu) (h : Sim i pid c s m) :
    Sim i pid c (channelStep pid c s a) (Mailbox.step m a) := by
  obtain ⟨hs, hcell, hhold, hacc, hret⟩ := h
  cases a with
  | put p =>
    simp only [channelStep, Mailbox.step, writePdu, hs.beforeWrite]
    cases hf : m.full with
    | true =>
      rw [hf] at hs
      exact ⟨by simpa [hf] using hs, by simpa using hcell, by simpa using hhold,
        by simpa using hacc, by simpa using hret⟩
    | false =>
      exact ⟨by simpa using hs.write, by simp, by simpa using hhold, by simp [hacc],
        by simpa using hret⟩
  | get ok =>
    simp only [channelStep, Mailbox.step, hhold]
    cases hh : m.holding with
    | true =>
      refine ⟨by simpa using hs, by simpa using hcell, rfl, by simpa using hacc, ?_⟩
      cases ok <;> simp [readPdu, hret, hcell]
    | false =>
      have hk := hs.check
      cases hf : m.full with
      | true =>
        rw [hf] at hs
        exact ⟨by simpa using hk, by simpa using hcell, by simp [hs.received],
          by simpa using hacc, by simpa using hret⟩
      | false =>
        rw [hf] at hs
        exact ⟨by simpa [hf] using hk, by simpa using hcell, by simp [hs.received, hh],
          by simpa using hacc, by simpa using hret⟩

/-- On a run in which no packet is put between the reader's test-and-clear and its
`read_pdu`, and every `read_pdu` works, packets come out once and in order. -/
theorem channel_returned_prefix {Pdu : Type} {i : ℕ} {pid : Pid} {c : ChannelId}
    (s : ChannelState Pdu) (hs : s.bus.table.Serves i pid c false) (hidle : s.reading = false)
    (hacc : s.accepted = []) (hret : s.returned = []) (as : List (Mailbox.Action Pdu))
    (hquiet : Along (channelStep pid c) (fun s => Mailbox.Quiet s.reading) s as) :
    (run (channelStep pid c) s as).returned <+: (run (channelStep pid c) s as).accepted := by
  let m : Mailbox.State Pdu := ⟨s.bus.data c, false, false, [], []⟩
  have hsim : Sim i pid c s m := ⟨hs, rfl, hidle, hacc, hret⟩
  have hcond : ∀ (s : ChannelState Pdu) (m : Mailbox.State Pdu) (a : Mailbox.Action Pdu),
      Sim i pid c s m → Mailbox.Quiet s.reading a → Mailbox.Quiet m.holding (id a) :=
    fun s m a h hq => h.holding ▸ hq
  have hmail := along_simulation sim_step hcond hsim hquiet
  have hend := run_simulation sim_step hsim as
  have hinv : Mailbox.Inv m := ⟨rfl, fun _ => rfl⟩
  have hprefix := (Mailbox.run_inv hinv hmail).returned_prefix_accepted
  rw [List.map_id'] at hprefix hend
  rwa [hend.returned, hend.accepted]

/-- The process 7 watches channel 3; nothing has been sent. -/
def quietChannel : ChannelState ℕ := ⟨⟨fun _ => 0, ⟨[newEntry 7 3 none]⟩⟩, false, [], []⟩

theorem quietChannel_serves : quietChannel.bus.table.Serves 0 7 3 false := by
  refine ⟨⟨newEntry 7 3 none, ⟨rfl, rfl, rfl, fun j q hj _ _ => ?_⟩, rfl, rfl, rfl, rfl⟩,
    by decide⟩
  obtain ⟨hlt, -⟩ := List.getElem?_eq_some_iff.mp hj
  simpa [quietChannel, Table.registrations] using hlt

/-- Two packets have been put, and the reader is at the second one. -/
theorem channel_returned_prefix_two :
    let s := run (channelStep 7 3) quietChannel
      [.put 1, .get true, .get true, .put 2, .put 3, .get true]
    s.accepted = [1, 2] ∧ s.returned = [1] ∧ s.returned <+: s.accepted :=
  ⟨rfl, rfl, channel_returned_prefix quietChannel quietChannel_serves rfl rfl rfl
    [.put 1, .get true, .get true, .put 2, .put 3, .get true] (by decide)⟩

/-- The writer is let in between the test-and-clear and the copy: the first packet is
overwritten, and the second one comes out twice. -/
theorem channel_put_in_window :
    ¬ (run (channelStep 7 3) quietChannel
        [.put 1, .get true, .put 2, .get true, .get true, .get true]).returned <+:
      (run (channelStep 7 3) quietChannel
        [.put 1, .get true, .put 2, .get true, .get true, .get true]).accepted := by
  decide

end RecvEvent
end HakoniwaCorePro
