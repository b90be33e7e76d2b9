import HakoniwaCorePro.ServiceBus

/-!
# A start, step by step

`on_pdu_data_create` increments the run generation, and then clears the flags of the enabled
entries one by one. A reply of the server compares the generation first and writes later. Both
are taken apart here, with a record of where the last reply on each response channel came from.
-/

namespace HakoniwaCorePro

namespace RecvEvent

/-- One round of the loop of `clear_run_flags`, under the lock of the entry's channel. -/
def clearEntry (i : ℕ) (t : Table) : Table :=
  ⟨t.entries.modify i fun e => if e.enabled then e.clear else e⟩

/-- An entry of the channel is still ahead of the loop, which is at entry `i`. -/
def Table.Uncleared (t : Table) (i : ℕ) (c : ChannelId) : Prop :=
  ∃ k r, i ≤ k ∧ t.registrations[k]? = some r ∧ r.enabled = true ∧ r.realChannelId = c

theorem clearEntry_registrations (i : ℕ) (t : Table) :
    (clearEntry i t).registrations = t.registrations := by
  refine List.ext_getElem? fun j => ?_
  simp only [clearEntry, Table.registrations, List.getElem?_map, List.getElem?_modify]
  cases t.entries[j]? with
  | none => rfl
  | some e =>
    by_cases hj : i = j
    · simp only [hj, if_true, Option.map_eq_map, Option.map_some]
      split <;> rfl
    · simp [hj]

theorem clearEntry_append (l₁ l₂ : List Entry) (e : Entry) :
    clearEntry l₁.length ⟨l₁ ++ e :: l₂⟩ = ⟨l₁ ++ (if e.enabled then e.clear else e) :: l₂⟩ :=
  congrArg Table.mk (List.modifyTailIdx_add (List.modifyHead _) 0 l₁ (e :: l₂))

section Serves

variable {t : Table} {k : ℕ} {pid : Pid} {c : ChannelId} {full : Bool}

theorem Table.Serves.clearEntry (h : t.Serves k pid c full) (i : ℕ) :
    (RecvEvent.clearEntry i t).Serves k pid c (if i = k then false else full) := by
  obtain ⟨⟨e, he, hp, hc, hg, hf⟩, hrange⟩ := h
  by_cases hik : i = k
  · have hentry : (RecvEvent.clearEntry i t).entries[k]? = some e.clear := by
      simp [RecvEvent.clearEntry, hik, he.entry, he.enabled]
    rw [if_pos hik]
    exact ⟨⟨e.clear, he.of_registrations (clearEntry_registrations i t) hentry, hp, hc, rfl, rfl⟩,
      hrange⟩
  · have hentry : (RecvEvent.clearEntry i t).entries[k]? = some e := by
      simp [RecvEvent.clearEntry, hik, he.entry]
    rw [if_neg hik]
    exact ⟨⟨e, he.of_registrations (clearEntry_registrations i t) hentry, hp, hc, hg, hf⟩, hrange⟩

theorem Table.Serves.uncleared_iff (h : t.Serves k pid c full) (i : ℕ) :
    t.Uncleared i c ↔ i ≤ k := by
  obtain ⟨⟨e, he, -, rfl, -, -⟩, -⟩ := h
  constructor
  · rintro ⟨k', r, hi, hr, hon, hc⟩
    rw [he.sole.unique k' r hr hon hc] at hi
    exact hi
  · intro hi
    exact ⟨k, e.toRegistration, hi, he.sole.at_id, he.enabled, rfl⟩

theorem Table.Serves.recvFlag (h : t.Serves k pid c full) {e : Entry} (he : e ∈ t.entries)
    (hc : e.watches c = true) : e.recvFlag = full := by
  obtain ⟨⟨x, hx, -, rfl, -, hf⟩, -⟩ := h
  obtain ⟨j, hj⟩ := List.mem_iff_getElem?.mp he
  have hjk := hx.unique hj hc
  rw [hjk, hx.entry, Option.some.injEq] at hj
  rw [← hj, hf]

end Serves

end RecvEvent

namespace Service

open RecvEvent Runs

/-- The service while the simulation may be started: how far the master's loop is, the packet
that the server has checked and not yet written, the number of starts, and for each slot the
start after which its request was taken and the request that the last reply belonged to. -/
structure StartState (Pdu : Type) where
  bus : Bus Pdu
  protocol : ServerProtocol Pdu
  generation : ℕ
  master : Option ℕ
  checked : Option Pdu
  starts : ℕ
  requestRun : ℕ → ℕ
  repliedRun : ℕ → Option ℕ

inductive StartAction (Pdu : Type)
  | increment
  | clearNext
  | poll (time : ℤ)
  | check (p : Pdu)
  | write
  | putRequest (clientId : ℕ) (p : Pdu)
  | getResponse (clientId : ℕ)

section

variable {Pdu : Type} (u : Setup Pdu)

def Setup.inRun (g : ℕ) : Setup Pdu := { u with generation := g }

/-- The master holds the init lock from the increment to the end of the loop; the server's
thread does nothing else between the check and the write. -/
def Setup.startStep (s : StartState Pdu) : StartAction Pdu → StartState Pdu
  | .increment =>
    match s.master with
    | some _ => s
    | none =>
      { s with
        generation := (s.generation + 1) % 2 ^ 32
        master := some 0
        starts := s.starts + 1 }
  | .clearNext =>
    match s.master with
    | none => s
    | some i =>
      if i ≥ s.bus.table.entryNum then { s with master := none }
      else
        { s with
          bus := { s.bus with table := clearEntry i s.bus.table }
          master := some (i + 1) }
  | .poll time =>
    if s.checked.isSome then s
    else
      let r := (u.inRun s.generation).poll time ⟨s.bus, s.protocol⟩
      let j := (u.inRun s.generation).turn s.protocol
      { s with
        bus := r.1.bus
        protocol := r.1.protocol
        requestRun :=
          if r.2 = .requestIn then Function.update s.requestRun j s.starts else s.requestRun
        -- what a poll puts on an empty channel is a report, no reply
        repliedRun :=
          if (u.box s.bus (.response j)).isNone then Function.update s.repliedRun j none
          else s.repliedRun }
  | .check p =>
    if s.checked.isNone && canReply s.generation s.protocol then { s with checked := some p } else s
  | .write =>
    match s.checked with
    | none => s
    | some p =>
      let v := u.view 0 (fun _ => none) s.bus
      let r := reply v p s.protocol
      let j := s.protocol.currentClientId
      { s with
        bus := u.deliver r.sent s.bus
        protocol := r.protocol
        checked := none
        repliedRun :=
          if canPut v s.protocol then Function.update s.repliedRun j (some (s.requestRun j))
          else s.repliedRun }
  | .putRequest j p => { s with bus := (u.put (.request j) p s.bus).1 }
  | .getResponse j => { s with bus := (u.get (.response j) s.bus).1 }

def StartState.initial (name : Name) (b : Bus Pdu) (g : ℕ) : StartState Pdu where
  bus := b
  protocol := .initial name u.entry.maxClients g
  generation := g
  master := none
  checked := none
  starts := 0
  requestRun := fun _ => 0
  repliedRun := fun _ => none

/-- Between starts no response channel is marked by a reply to a request of an earlier run. -/
def NoStale (s : StartState Pdu) : Prop :=
  s.master = none → ∀ j < u.entry.maxClients, ∀ k, s.repliedRun j = some k → k < s.starts →
    ∀ e ∈ s.bus.table.entries, e.watches (u.real (.response j)) = true → e.recvFlag = false

/-- The loop of the start that is going on has yet to come to the response channel of slot `j`. -/
def StartState.Ahead (s : StartState Pdu) (j : ℕ) : Prop :=
  ∃ i, s.master = some i ∧ s.bus.table.Uncleared i (u.real (.response j))

/-- A reply is written before the next start increments the generation, or else before that
start has cleared the channel; or the channel refuses it. -/
def Timely (s : StartState Pdu) : StartAction Pdu → Prop
  | .write =>
    s.checked.isSome = true →
    u.accepts (.response s.protocol.currentClientId) s.bus = true →
      s.requestRun s.protocol.currentClientId = s.starts ∨ s.Ahead u s.protocol.currentClientId
  | _ => True

end

section Start

variable {Pdu : Type} {u : Setup Pdu} {s : StartState Pdu}

theorem run_clearNext (l₁ l₂ : List Entry)
    (hentries : s.bus.table.entries = l₁.map (fun e => if e.enabled then e.clear else e) ++ l₂)
    (hmaster : s.master = some l₁.length) :
    run u.startStep s (List.replicate (l₂.length + 1) .clearNext) =
      { s with bus := { s.bus with table := clearRunFlags ⟨l₁ ++ l₂⟩ }, master := none } := by
  induction l₂ generalizing s l₁ with
  | nil =>
    have hall : s.bus.table = clearRunFlags ⟨l₁ ++ []⟩ := by
      rw [List.append_nil] at hentries ⊢
      exact congrArg Table.mk hentries
    have hnum : s.bus.table.entryNum ≤ l₁.length := by simp [Table.entryNum, hentries]
    simp only [List.length_nil, List.replicate, run_cons, run_nil, Setup.startStep, hmaster, if_pos hnum]
    rw [← hall]
  | cons e l₂ ih =>
    have hnum : ¬ l₁.length ≥ s.bus.table.entryNum := by simp [Table.entryNum, hentries]
    have hclear : (clearEntry l₁.length s.bus.table).entries =
        (l₁ ++ [e]).map (fun e => if e.enabled then e.clear else e) ++ l₂ := by
      have hround := clearEntry_append (l₁.map fun e => if e.enabled then e.clear else e) l₂ e
      rw [List.length_map, ← hentries] at hround
      rw [show s.bus.table = ⟨s.bus.table.entries⟩ from rfl, hround]
      simp
    have hstep : u.startStep s .clearNext =
        { s with
          bus := { s.bus with table := clearEntry l₁.length s.bus.table }
          master := some (l₁.length + 1) } := by
      simp only [Setup.startStep, hmaster, if_neg hnum]
    rw [List.length_cons, List.replicate_succ, run_cons, hstep]
    have hrest := ih (s := { s with
      bus := { s.bus with table := clearEntry l₁.length s.bus.table }
      master := some (l₁.length + 1) }) (l₁ ++ [e]) hclear (by simp)
    simpa using hrest

theorem run_start (hmaster : s.master = none) :
    run u.startStep s (.increment :: List.replicate (s.bus.table.entryNum + 1) .clearNext) =
      { s with
        bus := { s.bus with table := clearRunFlags s.bus.table }
        generation := (s.generation + 1) % 2 ^ 32
        starts := s.starts + 1 } := by
  have hstep : u.startStep s .increment =
      { s with
        generation := (s.generation + 1) % 2 ^ 32
        master := some 0
        starts := s.starts + 1 } := by
    simp only [Setup.startStep, hmaster]
  rw [run_cons, hstep]
  have hloop := run_clearNext (u := u) (s := { s with
    generation := (s.generation + 1) % 2 ^ 32
    master := some 0
    starts := s.starts + 1 }) [] s.bus.table.entries rfl rfl
  simpa [Table.entryNum, hmaster] using hloop

/-- What is left of replies of earlier runs is still ahead of the clearing loop. -/
structure StartInv (u : Setup Pdu) (s : StartState Pdu) : Prop where
  wired : u.Wired s.bus
  ahead : ∀ j < u.entry.maxClients, ∀ k, s.repliedRun j = some k → k < s.starts →
    u.box s.bus (.response j) ≠ none → s.Ahead u j

theorem ahead_of_registrations {s' : StartState Pdu} {j : ℕ} (h : s.Ahead u j)
    (hreg : s'.bus.table.registrations = s.bus.table.registrations)
    (hmaster : s'.master = s.master) : s'.Ahead u j := by
  obtain ⟨i, hi, k, r, hk, hr, hon, hc⟩ := h
  exact ⟨i, by rw [hmaster, hi], k, r, hk, by rw [hreg, hr], hon, hc⟩

theorem put_registrations (x : Port) (p : Pdu) (b : Bus Pdu) :
    (u.put x p b).1.table.registrations = b.table.registrations := by
  unfold Setup.put
  split
  · rfl
  · exact writePdu_registrations _ _ _

theorem get_registrations (x : Port) (b : Bus Pdu) :
    (u.get x b).1.table.registrations = b.table.registrations := by
  unfold Setup.get
  split
  · rfl
  · exact getRecvEvent_registrations _ _ _

theorem deliver_registrations (sent : Option (Sent Pdu)) (b : Bus Pdu) :
    (u.deliver sent b).table.registrations = b.table.registrations := by
  cases sent with
  | none => rfl
  | some r =>
    simp only [Setup.deliver]
    split
    · exact put_registrations _ _ _
    · rfl

theorem recvFlag_of_box {b : Bus Pdu} (hw : u.Wired b) {x : Port} (hx : x.slot < u.entry.maxClients)
    (hbox : u.box b x = none) {e : Entry} (he : e ∈ b.table.entries)
    (hc : e.watches (u.real x) = true) : e.recvFlag = false := by
  obtain ⟨i, full, hs⟩ := hw x hx
  rw [box_of_serves hs] at hbox
  cases full with
  | true => cases hbox
  | false => exact hs.recvFlag he hc

theorem StartInv.noStale (h : StartInv u s) : NoStale u s := by
  intro hmaster j hj k hk hlt e he hc
  refine recvFlag_of_box (x := .response j) h.wired hj ?_ he hc
  by_contra hbox
  obtain ⟨i, hi, -⟩ := h.ahead j hj k hk hlt hbox
  rw [hmaster] at hi
  cases hi

/-- A step that is no step of the master, and that fills no response channel with a reply. -/
theorem StartInv.kept (h : StartInv u s) {s' : StartState Pdu} (hw : u.Wired s'.bus)
    (hreg : s'.bus.table.registrations = s.bus.table.registrations)
    (hmaster : s'.master = s.master) (hstarts : s'.starts = s.starts)
    (hbox : ∀ j < u.entry.maxClients, ∀ k, s'.repliedRun j = some k →
      u.box s'.bus (.response j) ≠ none →
      s.repliedRun j = some k ∧ u.box s.bus (.response j) ≠ none) : StartInv u s' := by
  refine ⟨hw, fun j hj k hk hlt hfull => ?_⟩
  obtain ⟨hk', hfull'⟩ := hbox j hj k hk hfull
  rw [hstarts] at hlt
  exact ahead_of_registrations (h.ahead j hj k hk' hlt hfull') hreg hmaster

theorem StartInv.increment (h : StartInv u s) : StartInv u (u.startStep s .increment) := by
  simp only [Setup.startStep]
  cases hm : s.master with
  | some i => exact h
  | none =>
    refine ⟨h.wired, fun j hj _ _ _ _ => ?_⟩
    obtain ⟨k, full, hs⟩ := h.wired (.response j) hj
    exact ⟨0, rfl, (hs.uncleared_iff 0).mpr (Nat.zero_le k)⟩

theorem StartInv.clearNext (h : StartInv u s) : StartInv u (u.startStep s .clearNext) := by
  simp only [Setup.startStep]
  cases hm : s.master with
  | none => exact h
  | some i =>
    dsimp only
    split
    · next hend =>
      -- the loop is past every entry, so there was nothing left
      refine ⟨h.wired, fun j hj k hk hlt hfull => ?_⟩
      obtain ⟨i', hi', k', r, hle, hr, -⟩ := h.ahead j hj k hk hlt hfull
      rw [hm, Option.some.injEq] at hi'
      obtain ⟨hlt', -⟩ := List.getElem?_eq_some_iff.mp hr
      simp only [Table.registrations, List.length_map, Table.entryNum] at hlt' hend
      omega
    · have hwired : u.Wired { s.bus with table := clearEntry i s.bus.table } := fun x hx => by
        obtain ⟨k, full, hs⟩ := h.wired x hx
        exact ⟨k, _, hs.clearEntry i⟩
      refine ⟨hwired, fun j hj k hk hlt hfull => ⟨i + 1, rfl, ?_⟩⟩
      obtain ⟨e, full, hs⟩ := h.wired (.response j) hj
      have hs' := hs.clearEntry i
      refine (hs'.uncleared_iff (i + 1)).mpr ?_
      have hbox' := box_of_serves (b := { s.bus with table := clearEntry i s.bus.table }) hs'
      rw [hbox'] at hfull
      by_cases hie : i = e
      · simp [hie] at hfull
      · rw [if_neg hie, ← box_of_serves (b := s.bus) hs] at hfull
        obtain ⟨i', hi', hun⟩ := h.ahead j hj k hk hlt hfull
        rw [hm, Option.some.injEq] at hi'
        have hle := (hs.uncleared_iff i').mp hun
        omega

theorem StartInv.poll (h : StartInv u s) (time : ℤ) : StartInv u (u.startStep s (.poll time)) := by
  simp only [Setup.startStep]
  split
  · exact h
  · let w := u.inRun s.generation
    have hw : w.Wired s.bus := h.wired
    have hreg : (w.poll time ⟨s.bus, s.protocol⟩).1.bus.table.registrations =
        s.bus.table.registrations :=
      (deliver_registrations _ _).trans (get_registrations _ _)
    refine h.kept (hw.poll (s := ⟨s.bus, s.protocol⟩) time) hreg rfl rfl fun j hj k hk hfull => ?_
    change (if (u.box s.bus (.response (w.turn s.protocol))).isNone then
      Function.update s.repliedRun (w.turn s.protocol) none else s.repliedRun) j = some k at hk
    by_cases hturn : w.turn s.protocol = j
    · rw [hturn] at hk
      split at hk
      · rw [Function.update_self] at hk
        cases hk
      · next hne =>
        refine ⟨hk, fun hnone => hne ?_⟩
        rw [hnone, Option.isNone_none]
    · have hbox := hw.box_poll_response (s := ⟨s.bus, s.protocol⟩) time hj hturn
      refine ⟨?_, fun hnone => hfull (hbox.trans hnone)⟩
      split at hk
      · rwa [Function.update_of_ne (Ne.symm hturn)] at hk
      · exact hk

theorem StartInv.write (h : StartInv u s) (htime : Timely u s .write) :
    StartInv u (u.startStep s .write) := by
  simp only [Setup.startStep]
  cases hp : s.checked with
  | none => exact h
  | some p =>
    dsimp only
    have hreg := deliver_registrations (u := u)
      (reply (u.view 0 (fun _ => none) s.bus) p s.protocol).sent s.bus
    cases hput : canPut (u.view 0 (fun _ => none) s.bus) s.protocol with
    | false =>
      have hsame : u.deliver (reply (u.view 0 (fun _ => none) s.bus) p s.protocol).sent s.bus =
          s.bus := by
        simp [reply_sent, Setup.deliver, hput]
      rw [hsame]
      exact h.kept h.wired rfl rfl rfl fun j _ k hk hfull => ⟨by simpa using hk, hfull⟩
    | true =>
      have hacc : u.accepts (.response s.protocol.currentClientId) s.bus = true := by
        simp only [canPut, Bool.and_eq_true] at hput
        exact hput.2
      refine ⟨h.wired.deliver _, fun j hj k hk hlt hfull => ?_⟩
      simp only [if_true] at hk
      by_cases hcur : s.protocol.currentClientId = j
      · rw [hcur, Function.update_self, Option.some.injEq] at hk
        have hwhen := htime (by rw [hp]; rfl) hacc
        rw [hcur] at hwhen
        refine ahead_of_registrations (hwhen.resolve_left fun heq => ?_) hreg rfl
        rw [hk] at heq
        exact absurd heq (Nat.ne_of_lt hlt)
      · rw [Function.update_of_ne (Ne.symm hcur)] at hk
        have hbox := h.wired.box_deliver_response hj (fun r hr => by
          rw [reply_sent, Option.some.injEq] at hr
          rw [← hr]
          exact hcur : ∀ r, (reply (u.view 0 (fun _ => none) s.bus) p s.protocol).sent = some r →
            r.clientId ≠ j)
        exact ahead_of_registrations (h.ahead j hj k hk hlt fun hnone => hfull (hbox.trans hnone))
          hreg rfl

theorem StartInv.step (h : StartInv u s) {a : StartAction Pdu} (ha : Timely u s a) :
    StartInv u (u.startStep s a) := by
  cases a with
  | increment => exact h.increment
  | clearNext => exact h.clearNext
  | poll time => exact h.poll time
  | check p =>
    simp only [Setup.startStep]
    split
    · exact h.kept h.wired rfl rfl rfl fun j _ k hk hfull => ⟨hk, hfull⟩
    · exact h
  | write => exact h.write ha
  | putRequest c p =>
    refine h.kept (h.wired.put _ _) (put_registrations _ _ _) rfl rfl fun j hj k hk hfull => ?_
    have hbox := h.wired.box_put (.request c) p (y := .response j) hj
    rw [if_neg (fun hc => Port.noConfusion hc.1)] at hbox
    exact ⟨hk, fun hnone => hfull (hbox.trans hnone)⟩
  | getResponse c =>
    refine h.kept (h.wired.get _) (get_registrations _ _) rfl rfl fun j hj k hk hfull => ?_
    have hbox := h.wired.box_get (.response c) (y := .response j) hj
    refine ⟨hk, fun hnone => hfull (hbox.trans ?_)⟩
    rw [hnone, ite_self]

/-- In every run whose replies are written in time, a completed start has left no response of an
earlier run behind. -/
theorem start_leaves_no_stale (name : Name) {b : Bus Pdu} (hw : u.Wired b) (g : ℕ)
    (as : List (StartAction Pdu))
    (htime : Along u.startStep (Timely u) (.initial u name b g) as) :
    NoStale u (run u.startStep (.initial u name b g) as) := by
  have hinit : StartInv u (.initial u name b g) :=
    ⟨hw, fun j _ k hk => absurd hk (by simp [StartState.initial])⟩
  exact (run_invariant (fun s a hs ha => hs.step ha) hinit htime).noStale

end Start

/-- The server of one client takes its request and has checked the reply to it. -/
def checkedReply : List (StartAction PlainPacket) :=
  [.putRequest 0 (plainRequest 0 0), .poll 5, .check (plainRequest 0 0)]

/-- The reply is written while the master is at the entry before the response channel's. -/
theorem start_leaves_no_stale_in_loop :
    NoStale (plainSetup 1) (run (plainSetup 1).startStep
      (.initial (plainSetup 1) [120] (plainBus 1) 0)
      (checkedReply ++ [.increment, .clearNext, .write, .clearNext, .clearNext])) := by
  refine start_leaves_no_stale [120] (plainBus_wired (by decide)) 0 _ ?_
  refine ⟨trivial, trivial, trivial, trivial, trivial, fun _ _ => Or.inr ?_, trivial, trivial, trivial⟩
  exact ⟨1, rfl, 1, (plainEvent 1).toRegistration, Nat.le_refl 1, rfl, rfl, rfl⟩

/-- The reply is checked before the start and written after it: the start is complete, the
server has taken no request since, and the old response is there. -/
theorem stale_reply_after_start :
    ¬ NoStale (plainSetup 1) (run (plainSetup 1).startStep
      (.initial (plainSetup 1) [120] (plainBus 1) 0)
      (checkedReply ++ [.increment, .clearNext, .clearNext, .clearNext, .write])) := by
  intro h
  have hflag := h rfl 0 (by decide) 0 rfl (by decide) ((plainEvent 1).mark) (by decide) rfl
  cases hflag

end Service
end HakoniwaCorePro
