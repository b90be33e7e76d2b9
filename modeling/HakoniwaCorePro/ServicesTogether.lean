import HakoniwaCorePro.ChannelReceivers
import HakoniwaCorePro.RpcExactlyOnce

/-!
# Many services on one bus

All services of a simulation, and the PDUs of its assets, share the channel data and one receive
event table. A service is not disturbed by what happens on channels that are not its own, however
its steps and those of others are interleaved.
-/

namespace HakoniwaCorePro
namespace Service

open RecvEvent Runs

section Frame

variable {Pdu : Type} {u w : Setup Pdu} {b b' : Bus Pdu}

def Setup.Has (w : Setup Pdu) (c : ChannelId) : Prop :=
  ∃ x, x.slot < w.entry.maxClients ∧ w.real x = c

/-- The service finds its channels as they were. -/
structure Setup.Untouched (w : Setup Pdu) (b b' : Bus Pdu) : Prop where
  serves : ∀ c, w.Has c → ∀ i pid full, b.table.Serves i pid c full → b'.table.Serves i pid c full
  data : ∀ c, w.Has c → b'.data c = b.data c

theorem Setup.Untouched.refl (w : Setup Pdu) (b : Bus Pdu) : w.Untouched b b :=
  ⟨fun _ _ _ _ _ h => h, fun _ _ => rfl⟩

theorem Setup.Untouched.trans {b₁ b₂ b₃ : Bus Pdu} (h : w.Untouched b₁ b₂)
    (h' : w.Untouched b₂ b₃) : w.Untouched b₁ b₃ :=
  ⟨fun c hc i pid full hs => h'.serves c hc i pid full (h.serves c hc i pid full hs),
    fun c hc => (h'.data c hc).trans (h.data c hc)⟩

theorem Setup.Untouched.wired (h : w.Untouched b b') (hw : w.Wired b) : w.Wired b' := by
  intro x hx
  obtain ⟨i, full, hs⟩ := hw x hx
  exact ⟨i, full, h.serves _ ⟨x, hx, rfl⟩ _ _ _ hs⟩

theorem Setup.Untouched.box (h : w.Untouched b b') (hw : w.Wired b) {x : Port}
    (hx : x.slot < w.entry.maxClients) : w.box b' x = w.box b x := by
  obtain ⟨i, full, hs⟩ := hw x hx
  have hc : w.Has (w.real x) := ⟨x, hx, rfl⟩
  rw [box_of_serves hs, box_of_serves (h.serves _ hc _ _ _ hs), h.data _ hc]

theorem Setup.Untouched.holds {t : RecvEvent.Table}
    (h : ∀ j e, w.Has e.realChannelId → b.table.Holds j e → t.Holds j e) :
    w.Untouched b { b with table := t } := by
  refine ⟨fun c hc i pid full hs => ?_, fun _ _ => rfl⟩
  obtain ⟨⟨e, he, hp, rfl, hg, hf⟩, hrange⟩ := hs
  exact ⟨⟨e, h i e hc he, hp, rfl, hg, hf⟩, hrange⟩

theorem Setup.Untouched.write {c : ChannelId} (hc : ¬ w.Has c) (p : Pdu) (b : Bus Pdu) :
    w.Untouched b (writePdu c p b).1 := by
  have hne : ∀ d, w.Has d → c ≠ d := fun d hd heq => hc (heq ▸ hd)
  unfold writePdu
  split
  · exact ⟨fun d hd _ _ _ hs => hs.write_other (hne d hd),
      fun d hd => Function.update_of_ne (hne d hd).symm _ _⟩
  · exact .refl w b

theorem Setup.Untouched.check {c : ChannelId} (hc : ¬ w.Has c) (pid : Pid) (b : Bus Pdu) :
    w.Untouched b { b with table := (getRecvEvent pid c b.table).1 } :=
  ⟨fun d hd _ _ _ hs => hs.check_other (fun heq : c = d => hc (heq ▸ hd)) pid, fun _ _ => rfl⟩

theorem Setup.Untouched.register {real : Option ChannelId} (hreal : ∀ c, real = some c → ¬ w.Has c)
    (pid : Pid) (onRecv : Option Callback) (b : Bus Pdu) :
    w.Untouched b { b with table := (registerDataRecvEvent pid real onRecv b.table).1 } := by
  refine ⟨fun d hd i q full hs => ?_, fun _ _ => rfl⟩
  cases real with
  | none => exact hs
  | some c =>
    simp only [registerDataRecvEvent]
    split
    · exact hs
    · exact hs.append (newEntry_watches (fun heq : c = d => hreal c rfl (heq ▸ hd)) pid onRecv)

theorem Setup.Untouched.update {real : Option ChannelId} (hreal : ∀ c, real = some c → ¬ w.Has c)
    (pid : Pid) (b : Bus Pdu) :
    w.Untouched b { b with table := (updateDataRecvEvent pid real none b.table).1 } := by
  refine ⟨fun d hd i q full hs => ?_, fun _ _ => rfl⟩
  cases real with
  | none => exact hs
  | some c => exact hs.update_other (fun heq : c = d => hreal c rfl (heq ▸ hd)) pid

/-- The action is about other channels; a pass over callbacks finds none at the events of the
service, which are registered without. A start or reset clears everything. -/
def Setup.Foreign (w : Setup Pdu) (t : RecvEvent.Table) : BusAction Pdu → Prop
  | .write c _ => ¬ w.Has c
  | .check _ c => ¬ w.Has c
  | .callbacks _ => ∀ e ∈ t.entries, w.Has e.realChannelId → e.onRecv = none
  | .setPending _ id _ => ∀ e, t.entries[id]? = some e → ¬ w.Has e.realChannelId
  | .setChannelPending _ real _ => ∀ c, real = some c → ¬ w.Has c
  | .clearRunFlags => False

theorem Setup.Foreign.untouched {a : BusAction Pdu} (ha : w.Foreign b.table a) :
    w.Untouched b (busStep b a) := by
  cases a with
  | write c p => exact .write ha p b
  | check pid c => exact .check ha pid b
  | callbacks pid =>
    refine .holds fun j e hc he => ?_
    have hk := he.callbacks pid
    rwa [if_neg (by simp [ha e (List.mem_of_getElem? he.entry) hc])] at hk
  | setPending pid id v =>
    refine .holds fun j e hc he => ?_
    have hk := he.setPending pid id v
    rwa [if_neg (by rintro ⟨rfl, -⟩; exact ha e he.entry hc)] at hk
  | setChannelPending pid real v =>
    refine .holds fun j e hc he => ?_
    have hk := he.setChannelPending pid real v
    rwa [if_neg (by rintro ⟨-, rfl⟩; exact ha _ rfl hc)] at hk
  | clearRunFlags => exact ha.elim

/-- No channel of one service is a channel of the other. -/
def Setup.Beside (u w : Setup Pdu) : Prop := ∀ c, u.Has c → ¬ w.Has c

theorem Setup.Beside.put (h : u.Beside w) (x : Port) (p : Pdu) (b : Bus Pdu) :
    w.Untouched b (u.put x p b).1 := by
  unfold Setup.put
  split
  · exact .refl w b
  · next hx => exact .write (h _ ⟨x, by omega, rfl⟩) p b

theorem Setup.Beside.get (h : u.Beside w) (x : Port) (b : Bus Pdu) :
    w.Untouched b (u.get x b).1 := by
  unfold Setup.get
  split
  · exact .refl w b
  · next hx => exact .check (h _ ⟨x, by omega, rfl⟩) (u.reader x) b

theorem Setup.Beside.submit (h : u.Beside w) (j : ℕ) (sent : Option Pdu) (b : Bus Pdu) :
    w.Untouched b (u.submit j sent b) := by
  cases sent with
  | none => exact .refl w b
  | some p => exact h.put _ p b

theorem Setup.Beside.deliver (h : u.Beside w) (sent : Option (Sent Pdu)) (b : Bus Pdu) :
    w.Untouched b (u.deliver sent b) := by
  cases sent with
  | none => exact .refl w b
  | some r =>
    simp only [Setup.deliver]
    split
    · exact h.put _ r.packet b
    · exact .refl w b

theorem Setup.Beside.rpcStep (h : u.Beside w) (s : RpcState Pdu) (a : RpcAction Pdu) :
    w.Untouched s.bus (u.rpcStep s a).bus := by
  cases a with
  | request j time timeoutMsec p => exact h.submit j _ s.bus
  | cancelRequest j => exact h.submit j _ s.bus
  | pollClient j time =>
    simp only [Setup.rpcStep]
    split
    · exact h.get _ s.bus
    · exact .refl w s.bus
  | poll time => exact (h.get _ s.bus).trans (h.deliver _ _)
  | putResponse p => exact h.deliver _ s.bus

theorem Setup.Untouched.slot (h : w.Untouched b b') (hw : w.Wired b) {s : RpcState Pdu}
    (hs : s.bus = b) {j : ℕ} (hj : j < w.entry.maxClients) :
    w.slot { s with bus := b' } j = w.slot s j := by
  subst hs
  simp only [Setup.slot, h.box hw (x := .request j) hj, h.box hw (x := .response j) hj]

theorem RpcInv.untouched {name : Name} {s : RpcState Pdu} {ph : ℕ → Exchange.Phase ℕ}
    (h : RpcInv w name s ph) (hb : w.Untouched s.bus b') : RpcInv w name { s with bus := b' } ph := by
  refine ⟨hb.wired h.wired, h.ok, h.generation, h.serviceName, h.knows, fun j hj => ?_, h.owes⟩
  rw [hb.slot h.wired rfl hj]
  exact h.link j hj

end Frame

structure Parties (Pdu : Type) where
  protocol : ServerProtocol Pdu
  clients : ℕ → ClientProtocol Pdu
  owed : Bool

structure Site (S Pdu : Type) where
  bus : Bus Pdu
  parties : S → Parties Pdu

/-- `bus`, `register` and `update` are the traffic and the registrations of all other processes. -/
inductive SiteAction (S Pdu : Type)
  | rpc (k : S) (a : RpcAction Pdu)
  | bus (a : BusAction Pdu)
  | register (pid : Pid) (real : Option ChannelId) (onRecv : Option Callback)
  | update (pid : Pid) (real : Option ChannelId)

section

variable {S Pdu : Type} [DecidableEq S]

def Site.at (s : Site S Pdu) (k : S) : RpcState Pdu :=
  ⟨⟨s.bus, (s.parties k).protocol⟩, (s.parties k).clients, (s.parties k).owed⟩

variable (u : S → Setup Pdu)

def siteStep (s : Site S Pdu) : SiteAction S Pdu → Site S Pdu
  | .rpc k a =>
    let t := (u k).rpcStep (s.at k) a
    ⟨t.bus, Function.update s.parties k ⟨t.protocol, t.clients, t.owed⟩⟩
  | .bus a => { s with bus := busStep s.bus a }
  | .register pid real onRecv =>
    { s with bus := { s.bus with table := (registerDataRecvEvent pid real onRecv s.bus.table).1 } }
  | .update pid real =>
    { s with bus := { s.bus with table := (updateDataRecvEvent pid real none s.bus.table).1 } }

/-- What shows at the slots of the service `i`. -/
def siteEvents (i : S) (s : Site S Pdu) : SiteAction S Pdu → List RpcEvent
  | .rpc k a => if k = i then (u i).rpcEvents (s.at i) a else []
  | _ => []

/-- The parties of the service `i` keep to their protocol; of all others it is only asked that
they leave the channels of `i` alone. -/
def SiteLegal (i : S) (s : Site S Pdu) : SiteAction S Pdu → Prop
  | .rpc k a => k = i → Legal (u i) (s.at i) a
  | .bus a => (u i).Foreign s.bus.table a
  | .register _ real _ => ∀ c, real = some c → ¬ (u i).Has c
  | .update _ real => ∀ c, real = some c → ¬ (u i).Has c

variable {u} {i : S} {name : Name}

theorem siteStep_advance (hr : (u i).Registered name) (hbeside : ∀ k, k ≠ i → (u k).Beside (u i))
    {s : Site S Pdu} {ph : ℕ → Exchange.Phase ℕ} (h : RpcInv (u i) name (s.at i) ph)
    {a : SiteAction S Pdu} (hl : SiteLegal u i s a) :
    Advance (u i) name ((siteStep u s a).at i) ph (siteEvents u i s a) := by
  cases a with
  | rpc k a =>
    by_cases hk : k = i
    · subst hk
      have hstep := h.step hr (hl rfl)
      have hat : (siteStep u s (.rpc k a)).at k = (u k).rpcStep (s.at k) a := by
        simp [siteStep, Site.at]
      rw [hat, siteEvents, if_pos rfl]
      exact hstep
    · have hat : (siteStep u s (.rpc k a)).at i =
          { s.at i with bus := ((u k).rpcStep (s.at k) a).bus } := by
        simp [siteStep, Site.at, Ne.symm hk]
      rw [hat, siteEvents, if_neg hk]
      exact .silent (h.untouched ((hbeside k hk).rpcStep (s.at k) a))
  | bus a => exact .silent (h.untouched (Setup.Foreign.untouched (b := s.bus) hl))
  | register pid real onRecv => exact .silent (h.untouched (.register hl pid onRecv s.bus))
  | update pid real => exact .silent (h.untouched (.update hl pid s.bus))

/-- Whatever else goes on at the site, every request of a service is answered once. -/
theorem services_side_by_side (hr : (u i).Registered name) (hN : 0 < (u i).entry.maxClients)
    (hbeside : ∀ k, k ≠ i → (u k).Beside (u i)) {s : Site S Pdu} (hf : (u i).Fresh name (s.at i))
    {as : List (SiteAction S Pdu)} (hl : Along (siteStep u) (SiteLegal u i) s as) {j : ℕ}
    (hj : j < (u i).entry.maxClients) :
    ∃ (rounds : List (ℕ × Bool)) (rest : List (Exchange.Event ℕ)) (ph : Exchange.Phase ℕ),
      slotEvents j (history (siteStep u) (siteEvents u i) s as) =
        rounds.flatMap (fun r => Exchange.round r.1 r.2) ++ rest ∧
      Exchange.Begun ph rest ∧
      ((((run (siteStep u) s as).at i).clients j).state = .idle ↔ rest = []) := by
  have htracks : ∃ ph, RpcInv (u i) name ((run (siteStep u) s as).at i) ph ∧
      Tracks (history (siteStep u) (siteEvents u i) s as) ph := by
    induction as using List.reverseRecOn with
    | nil => exact ⟨_, hf.inv hN, fun _ => rfl⟩
    | append_singleton as a ih =>
      rw [along_append] at hl
      obtain ⟨ph, hinv, ht⟩ := ih hl.1
      rw [run_concat, history_concat]
      exact (siteStep_advance hr hbeside hinv hl.2.1).tracks ht
  obtain ⟨ph, hinv, ht⟩ := htracks
  obtain ⟨rounds, rest, hrounds, hbegun⟩ := Exchange.rounds_of_track (ht j)
  refine ⟨rounds, rest, ph j, hrounds, hbegun, ?_⟩
  rw [hbegun.eq_nil_iff]
  exact (hinv.link j hj).client_idle_iff

end

/-- The service of `plainSetup 2` on the channels below 4, and another of process 1 on 4 and 5. -/
def twoPlain : Bool → Setup PlainPacket
  | false => plainSetup 2
  | true =>
    { plainSetup 1 with
      client := fun _ => 4
      real := fun x => 4 + plainReal x
      real_inj := fun x y _ _ h => plainReal_inj x y (Nat.add_left_cancel h) }

def plainSite : Site Bool PlainPacket where
  bus := plainBus 2
  parties
    | false => ⟨.initial [120] 2 0, plainClient 2, false⟩
    | true => ⟨.initial [121] 1 0, plainClient 1, false⟩

/-- The events of the second service are registered when a request of the first is on its way; its
client asks for the wrong service, and its server looks. -/
def sideBySide : List (SiteAction Bool PlainPacket) :=
  [.rpc false (.request 0 0 0 (.inl (setRequestHeader .request 0 (plainClient 2 0)))),
    .register 1 (some 4) none, .register 4 (some 5) none,
    .rpc true (.request 0 0 0 (.inl (setRequestHeader .request 0 (plainClient 1 0)))),
    .rpc false (.poll 0), .rpc true (.poll 0), .bus (.check 9 4), .update 6 (some 5),
    .rpc false (.putResponse (.inr ⟨0, [120], (plainEntry 2).getClientName 0, 3, 0, 0⟩)),
    .rpc true (.cancelRequest 0), .rpc false (.pollClient 0 0)]

theorem twoPlain_beside (c : ChannelId) (hc : 4 ≤ c) : ¬ (twoPlain false).Has c := by
  rintro ⟨x, hx, rfl⟩
  have hslot : x.slot < 2 := hx
  cases x with
  | request j =>
    have hj : 4 ≤ 2 * j := hc
    have hlt : j < 2 := hslot
    omega
  | response j =>
    have hj : 4 ≤ 2 * j + 1 := hc
    have hlt : j < 2 := hslot
    omega

theorem services_side_by_side_plain :
    ∃ (rounds : List (ℕ × Bool)) (rest : List (Exchange.Event ℕ)) (ph : Exchange.Phase ℕ),
      slotEvents 0 (history (siteStep twoPlain) (siteEvents twoPlain false) plainSite sideBySide) =
        rounds.flatMap (fun r => Exchange.round r.1 r.2) ++ rest ∧
      Exchange.Begun ph rest ∧
      ((((run (siteStep twoPlain) plainSite sideBySide).at false).clients 0).state = .idle ↔
        rest = []) := by
  have hr : (twoPlain false).Registered [120] := plainSetup_registered 2
  have hf : (twoPlain false).Fresh [120] (plainSite.at false) :=
    plainSession_fresh (N := 2) (by decide)
  refine services_side_by_side (s := plainSite) hr (by decide) ?_ hf ?_ (by decide)
  · intro k hk c hc
    obtain rfl : k = true := by simpa using hk
    obtain ⟨x, -, rfl⟩ := hc
    exact twoPlain_beside _ (Nat.le_add_right 4 (plainReal x))
  · have hreq : ∀ n, 4 ≤ n → ∀ c, some n = some c → ¬ (twoPlain false).Has c :=
      fun n hn c hc => twoPlain_beside c (Option.some.inj hc ▸ hn)
    have hother : ∀ P : Prop, true = false → P := fun P h => absurd h (by decide)
    refine ⟨fun _ => ?_, hreq 4 (by decide), hreq 5 (by decide), hother _, fun _ => trivial,
      hother _, twoPlain_beside 4 (by decide), hreq 5 (by decide), fun _ => ?_, hother _,
      fun _ => Nat.zero_lt_two, trivial⟩
    · exact legal_of_getRequestBuffer hr Nat.zero_lt_two ⟨rfl, rfl, rfl⟩ rfl (Int.le_refl 0) rfl 0 0
    · refine legal_of_getResponseBuffer (by decide) .ok (by decide) fun h hbuf => ?_
      cases hbuf
      rfl

end Service
end HakoniwaCorePro
