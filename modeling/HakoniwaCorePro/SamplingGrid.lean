import HakoniwaCorePro.Binary64
import HakoniwaCorePro.Runs
import Mathlib.Data.Rat.Floor
import Mathlib.Tactic.Linarith
import Mathlib.Tactic.NormNum

/-!
# The schedule of the machine monitor

`MachineResourceMonitor`: samples are taken when a poll finds the deadline reached, and the deadline
moves on by whole intervals past the observation. The interval is an exact number, or a float,
whose product with 10^9 is rounded. The backend that reads the host is a parameter; an exception of
it is `none`.
-/

namespace HakoniwaCorePro
namespace Measurement

open Binary64 Runs

inductive MonitorError
  | valueError (text : String)
  | runtimeError (text : String)
  | zeroDivisionError
  | overflowError
  | backendError
  deriving DecidableEq

/-- `MachineResourceMonitor` with a backend in the state `β`. -/
structure Monitor (β Sample : Type) where
  intervalNs : ℤ
  backend : β
  nextSampleNs : Option ℤ
  samples : List Sample
  finished : Bool

/-- An integer or a fraction, with which Python calculates exactly, or a finite float. -/
inductive PyNumber
  | exact (q : ℚ)
  | float (x : Double)

def PyNumber.value : PyNumber → ℚ
  | .exact q => q
  | .float x => x.value

/-- `float(x)` -/
def PyNumber.toFloat : PyNumber → Except MonitorError Double
  | .exact q => (Double.ofRat q).elim (.error .overflowError) .ok
  | .float x => .ok x

/-- The integer 1_000_000_000, as it is converted to be multiplied with a float. -/
def billion : Double := ⟨10 ^ 9, 10 ^ 9, 0, by norm_num, by norm_num, by norm_num, by norm_num⟩

/-- `int(x)` drops the fraction. -/
def pyInt (x : ℚ) : ℤ := x.num.tdiv x.den

/-- `int(x * 1_000_000_000)`, which raises for the infinity that a product can overflow to. -/
def PyNumber.toNs : PyNumber → Except MonitorError ℤ
  | .exact q => .ok (pyInt (q * 1000000000))
  | .float x => (x.mul billion).elim (.error .overflowError) fun p => .ok (pyInt p.value)

section

variable {β Sample : Type}

def Monitor.init (samplingIntervalSec : PyNumber) (backend : β) :
    Except MonitorError (Monitor β Sample) :=
  if samplingIntervalSec.value ≤ 0 then .error (.valueError "sampling_interval_sec must be > 0")
  else do
    let _ ← samplingIntervalSec.toFloat
    let intervalNs ← samplingIntervalSec.toNs
    return {
      intervalNs := intervalNs
      backend := backend
      nextSampleNs := none
      samples := []
      finished := false }

variable (sample : β → ℤ → Option Sample × β)

def Monitor.start (startNs : ℤ) (m : Monitor β Sample) : Except MonitorError Unit × Monitor β Sample :=
  if m.nextSampleNs.isSome then
    (.error (.runtimeError "machine resource measurement already started"), m)
  else
    match sample m.backend startNs with
    | (none, b) => (.error .backendError, { m with backend := b })
    | (some _, b) => (.ok (), { m with backend := b, nextSampleNs := some (startNs + m.intervalNs) })

def Monitor.pollIfDue (observedNs : ℤ) (m : Monitor β Sample) :
    Except MonitorError (Option Sample) × Monitor β Sample :=
  match m.nextSampleNs with
  | none => (.error (.runtimeError "machine resource measurement has not started"), m)
  | some next =>
    if m.finished then (.error (.runtimeError "machine resource measurement already finished"), m)
    else if observedNs < next then (.ok none, m)
    else
      match sample m.backend observedNs with
      | (none, b) => (.error .backendError, { m with backend := b })
      | (some s, b) =>
        let m := { m with backend := b, samples := m.samples ++ [s] }
        -- the sample is already in the list when the division fails
        if m.intervalNs = 0 then (.error .zeroDivisionError, m)
        else
          let skippedIntervals := max 1 ((observedNs - next).fdiv m.intervalNs + 1)
          (.ok (some s), { m with nextSampleNs := some (next + skippedIntervals * m.intervalNs) })

/-- The monitor after a poll, whatever the poll returns. -/
def poll (m : Monitor β Sample) (observedNs : ℤ) : Monitor β Sample := (m.pollIfDue sample observedNs).2

/-- Whether a poll returns a sample. -/
def takes (m : Monitor β Sample) (observedNs : ℤ) : Bool :=
  match (m.pollIfDue sample observedNs).1 with
  | .ok (some _) => true
  | _ => false

/-- The times of the polls of a run that return a sample. -/
def sampleTimes : Monitor β Sample → List ℤ → List ℤ
  | _, [] => []
  | m, o :: os =>
    let rest := sampleTimes (poll sample m o) os
    if takes sample m o then o :: rest else rest

/-- A poll does not divide by zero, and after a sample at the time `o` the next deadline is behind `o`,
at most `I` away, and on the grid of `start`. -/
def OnSchedule (start I : ℤ) (m : Monitor β Sample) (o : ℤ) : Prop :=
  (m.pollIfDue sample o).1 ≠ .error .zeroDivisionError ∧
    (takes sample m o = true → ∃ d, (poll sample m o).nextSampleNs = some d ∧
      o < d ∧ d ≤ o + I ∧ ∃ n : ℤ, d = start + n * I)

end

/-- The interval is accepted by the constructor. -/
def Accepted (x : PyNumber) : Prop := ∃ m : Monitor Unit Unit, Monitor.init x () = .ok m

/-- The number of nanoseconds that the interval is meant to have. -/
def PyNumber.ns (x : PyNumber) : ℤ := ⌊x.value * 10 ^ 9⌋

/-- What the schedule of the interval `x` is for: of whatever backend, with whatever start and whatever
times of polls that do not go back, all polls are on schedule and no interval of the grid has two
samples. -/
def SamplingGrid (x : PyNumber) : Prop :=
  ∀ (β Sample : Type) (sample : β → ℤ → Option Sample × β) (b : β) (m₀ m : Monitor β Sample)
    (start : ℤ) (os : List ℤ), Monitor.init x b = .ok m₀ → m₀.start sample start = (.ok (), m) →
    os.Pairwise (· ≤ ·) →
      Along (poll sample) (OnSchedule sample start x.ns) m os ∧
      ∀ n : ℤ, (sampleTimes sample m os).countP (fun o =>
        decide (start + n * x.ns ≤ o ∧ o < start + (n + 1) * x.ns)) ≤ 1

/-- The rounding of the product leaves its integer part. -/
def PyNumber.KeepsFloor : PyNumber → Prop
  | .exact _ => True
  | .float x => Binary64.KeepsFloor (x.value * 10 ^ 9)

theorem pyInt_eq_floor {q : ℚ} (hq : 0 ≤ q) : pyInt q = ⌊q⌋ := by
  unfold pyInt
  rw [Rat.floor_def', Int.tdiv_eq_ediv_of_nonneg (Rat.num_nonneg.mpr hq)]

theorem Accepted.toNs {x : PyNumber} (h : Accepted x) : 0 < x.value ∧ ∃ I, x.toNs = .ok I ∧
    ∀ (β Sample : Type) (b : β),
      Monitor.init x b = .ok (⟨I, b, none, [], false⟩ : Monitor β Sample) := by
  obtain ⟨m, hm⟩ := h
  unfold Monitor.init at hm ⊢
  split at hm
  · cases hm
  · next hpos =>
    cases hfloat : x.toFloat with
    | error e => simp [hfloat, bind, Except.bind] at hm
    | ok f =>
      cases hns : x.toNs with
      | error e => simp [hfloat, hns, bind, Except.bind] at hm
      | ok I => exact ⟨not_le.mp hpos, I, rfl, fun β Sample b => if_neg hpos⟩

/-- The nanoseconds are the integer part of the product that is stored, the right one exactly if no
rounding gets in the way. -/
theorem PyNumber.toNs_floor {x : PyNumber} (hpos : 0 < x.value) {I : ℤ} (h : x.toNs = .ok I) :
    0 ≤ I ∧ (I = x.ns ↔ x.KeepsFloor) := by
  have hnonneg : 0 ≤ x.value * 10 ^ 9 := (mul_pos hpos (by norm_num)).le
  cases x with
  | exact q =>
    have hI : I = ⌊(exact q).value * 10 ^ 9⌋ := by
      rw [← pyInt_eq_floor hnonneg, ← Except.ok.inj h]
      norm_num [value]
    exact ⟨hI ▸ Int.floor_nonneg.mpr hnonneg, iff_of_true hI trivial⟩
  | float x =>
    cases hp : x.mul billion with
    | none => simp [toNs, hp] at h
    | some p =>
      have hround : 0 ≤ Binary64.round (x.value * 10 ^ 9) := round_nonneg hnonneg
      have hvalue : p.value = Binary64.round (x.value * 10 ^ 9) := Double.ofRat_value hp
      have hI : I = ⌊Binary64.round (x.value * 10 ^ 9)⌋ := by
        rw [← pyInt_eq_floor hround, ← hvalue]
        simpa [toNs, hp] using h.symm
      rw [hI]
      exact ⟨Int.floor_nonneg.mpr hround, floor_round_iff _⟩

theorem catch_up {I d o : ℤ} (hI : 0 < I) (hdue : d ≤ o) :
    o < d + max 1 ((o - d).fdiv I + 1) * I ∧ d + max 1 ((o - d).fdiv I + 1) * I ≤ o + I := by
  rw [Int.fdiv_eq_ediv_of_nonneg _ hI.le]
  have hnonneg : 0 ≤ (o - d) / I := Int.ediv_nonneg (by omega) hI.le
  rw [max_eq_right (by omega)]
  have hlow : (o - d) / I * I ≤ o - d := Int.ediv_mul_le _ hI.ne'
  have hhigh : o - d < ((o - d) / I + 1) * I := Int.lt_ediv_add_one_mul_self _ hI
  constructor
  · linarith
  · linarith

theorem countP_le_one {l : List ℤ} {R : ℤ → ℤ → Prop} {p : ℤ → Bool} (hl : l.Pairwise R)
    (hp : ∀ a b, R a b → p a = true → p b = false) : l.countP p ≤ 1 := by
  induction l with
  | nil => simp
  | cons a l ih =>
    obtain ⟨ha, hl⟩ := List.pairwise_cons.mp hl
    cases hpa : p a with
    | false =>
      rw [List.countP_cons_of_neg (by simp [hpa])]
      exact ih hl
    | true =>
      have hnone : l.countP p = 0 := List.countP_eq_zero.mpr fun b hb => by
        simp [hp a b (ha b hb) hpa]
      rw [List.countP_cons_of_pos hpa, hnone]

section

variable {β Sample : Type} (sample : β → ℤ → Option Sample × β)

section

variable {m : Monitor β Sample} {d o : ℤ} (hnext : m.nextSampleNs = some d) (hfin : m.finished = false)
include hnext hfin

theorem pollIfDue_early (ho : o < d) : m.pollIfDue sample o = (.ok none, m) := by
  simp [Monitor.pollIfDue, hnext, hfin, ho]

theorem pollIfDue_raises (ho : ¬ o < d) {b : β} (hs : sample m.backend o = (none, b)) :
    m.pollIfDue sample o = (.error .backendError, { m with backend := b }) := by
  simp [Monitor.pollIfDue, hnext, hfin, ho, hs]

theorem pollIfDue_zero (ho : ¬ o < d) {s : Sample} {b : β} (hs : sample m.backend o = (some s, b))
    (hI : m.intervalNs = 0) : m.pollIfDue sample o =
      (.error .zeroDivisionError, { m with backend := b, samples := m.samples ++ [s] }) := by
  simp [Monitor.pollIfDue, hnext, hfin, ho, hs, hI]

theorem pollIfDue_sample (ho : ¬ o < d) {s : Sample} {b : β} (hs : sample m.backend o = (some s, b))
    (hI : m.intervalNs ≠ 0) : m.pollIfDue sample o = (.ok (some s), { m with
      backend := b
      samples := m.samples ++ [s]
      nextSampleNs := some (d + max 1 ((o - d).fdiv m.intervalNs + 1) * m.intervalNs) }) := by
  simp [Monitor.pollIfDue, hnext, hfin, ho, hs, hI]

end

/-- A monitor that runs, with its deadline `d` on the grid. -/
structure Running (start I d : ℤ) (m : Monitor β Sample) : Prop where
  interval : m.intervalNs = I
  unfinished : m.finished = false
  next : m.nextSampleNs = some d
  onGrid : ∃ n : ℤ, d = start + n * I

theorem pollIfDue_cases {start I d : ℤ} {m : Monitor β Sample} (h : Running start I d m) (hI : 0 < I)
    (o : ℤ) :
    (takes sample m o = false ∧ (m.pollIfDue sample o).1 ≠ .error .zeroDivisionError ∧
      Running start I d (poll sample m o)) ∨
    (takes sample m o = true ∧ (m.pollIfDue sample o).1 ≠ .error .zeroDivisionError ∧ d ≤ o ∧
      ∃ d', o < d' ∧ d' ≤ o + I ∧ Running start I d' (poll sample m o)) := by
  obtain ⟨n, hn⟩ := h.onGrid
  have hzero : m.intervalNs ≠ 0 := by
    rw [h.interval]
    omega
  by_cases hdue : o < d
  · left
    unfold takes poll
    rw [pollIfDue_early sample h.next h.unfinished hdue]
    exact ⟨rfl, by simp, h⟩
  · cases hs : sample m.backend o with
    | mk r b =>
      cases r with
      | none =>
        left
        unfold takes poll
        rw [pollIfDue_raises sample h.next h.unfinished hdue hs]
        exact ⟨rfl, by simp, h.interval, h.unfinished, h.next, h.onGrid⟩
      | some s =>
        right
        unfold takes poll
        rw [pollIfDue_sample sample h.next h.unfinished hdue hs hzero, h.interval]
        obtain ⟨hbehind, hnear⟩ := catch_up hI (not_lt.mp hdue)
        refine ⟨rfl, by simp, not_lt.mp hdue, _, hbehind, hnear, rfl, h.unfinished, rfl, ?_⟩
        refine ⟨n + max 1 ((o - d).fdiv I + 1), ?_⟩
        rw [hn]
        ring

theorem poll_onSchedule {start I d : ℤ} {m : Monitor β Sample} (h : Running start I d m) (hI : 0 < I)
    (o : ℤ) : OnSchedule sample start I m o ∧ ∃ d', Running start I d' (poll sample m o) := by
  rcases pollIfDue_cases sample h hI o with
    ⟨hnot, hdiv, hrun⟩ | ⟨-, hdiv, -, d', hbehind, hnear, hrun⟩
  · refine ⟨⟨hdiv, fun htakes => ?_⟩, d, hrun⟩
    rw [hnot] at htakes
    exact absurd htakes (by decide)
  · exact ⟨⟨hdiv, fun _ => ⟨d', hrun.next, hbehind, hnear, hrun.onGrid⟩⟩, d', hrun⟩

theorem along_onSchedule {start I d : ℤ} {m : Monitor β Sample} (h : Running start I d m) (hI : 0 < I)
    (os : List ℤ) : Along (poll sample) (OnSchedule sample start I) m os := by
  induction os generalizing m d with
  | nil => trivial
  | cons o os ih =>
    obtain ⟨hon, d', hrun⟩ := poll_onSchedule sample h hI o
    exact ⟨hon, ih hrun⟩

theorem sampleTimes_pairwise {start I d : ℤ} {m : Monitor β Sample} (h : Running start I d m) (hI : 0 < I)
    (os : List ℤ) : (∀ o ∈ sampleTimes sample m os, d ≤ o) ∧
      (sampleTimes sample m os).Pairwise fun o o' => ∃ n : ℤ, o < start + n * I ∧ start + n * I ≤ o' := by
  induction os generalizing m d with
  | nil => simp [sampleTimes]
  | cons o os ih =>
    simp only [sampleTimes]
    rcases pollIfDue_cases sample h hI o with
      ⟨hnot, -, hrun⟩ | ⟨htakes, -, hdue, d', hbehind, -, hrun⟩
    · simp only [hnot, Bool.false_eq_true, if_false]
      exact ih hrun
    · obtain ⟨hfrom, hpairs⟩ := ih hrun
      obtain ⟨n, hn⟩ := hrun.onGrid
      simp only [htakes, if_true]
      constructor
      · intro o' ho'
        rcases List.mem_cons.mp ho' with rfl | ho'
        · exact hdue
        · have hlater := hfrom o' ho'
          omega
      · refine List.pairwise_cons.mpr ⟨fun o' ho' => ⟨n, ?_, ?_⟩, hpairs⟩
        · omega
        · rw [← hn]
          exact hfrom o' ho'

theorem countP_sampleTimes {start I d : ℤ} {m : Monitor β Sample} (h : Running start I d m) (hI : 0 < I)
    (os : List ℤ) (n : ℤ) : (sampleTimes sample m os).countP (fun o =>
      decide (start + n * I ≤ o ∧ o < start + (n + 1) * I)) ≤ 1 := by
  refine countP_le_one (sampleTimes_pairwise sample h hI os).2 fun o o' ⟨k, hk, hk'⟩ ho => ?_
  simp only [decide_eq_true_eq] at ho
  simp only [decide_eq_false_iff_not, not_and, not_lt]
  intro _
  have hnk : n * I < k * I := by linarith
  have hlt : n < k := lt_of_mul_lt_mul_right hnk hI.le
  have hle : (n + 1) * I ≤ k * I := mul_le_mul_of_nonneg_right hlt hI.le
  linarith

theorem running_of_start {I : ℤ} {b : β} {m : Monitor β Sample} {start : ℤ}
    (hstart : (⟨I, b, none, [], false⟩ : Monitor β Sample).start sample start = (.ok (), m)) :
    Running start I (start + I) m := by
  unfold Monitor.start at hstart
  simp only [Option.isSome_none, Bool.false_eq_true, if_false] at hstart
  split at hstart
  · cases hstart
  · cases hstart
    exact ⟨rfl, rfl, rfl, 1, by ring⟩

theorem poll_at_deadline {start I d : ℤ} {m : Monitor β Sample} (h : Running start I d m) (hI : I ≠ 0)
    {s : Sample} {b : β} (hs : sample m.backend d = (some s, b)) :
    takes sample m d = true ∧ Running start I (d + I) (poll sample m d) := by
  obtain ⟨n, hn⟩ := h.onGrid
  have hdue := pollIfDue_sample sample h.next h.unfinished (lt_irrefl d) hs (h.interval.trans_ne hI)
  have hstep : max 1 ((d - d).fdiv m.intervalNs + 1) = 1 := by simp
  unfold takes poll
  rw [hdue]
  refine ⟨rfl, h.interval, h.unfinished, ?_, n + 1, ?_⟩
  · rw [hstep, h.interval, one_mul]
  · rw [hn]
    ring

end

/-- Two deadlines of the interval `I` behind each other on the grid of `i`, and not more than `i` ahead. -/
theorem interval_eq {I i : ℤ} (hI : 0 < I) (hle : I ≤ i) (htwo : ∃ n : ℤ, I + I = n * i)
    (hthree : ∃ n : ℤ, I + I + I = n * i) : I = i := by
  obtain ⟨n, hn⟩ := htwo
  obtain ⟨k, hk⟩ := hthree
  have hone : I = (k - n) * i := by linarith
  have hpos : 0 < k - n := by
    by_contra hneg
    nlinarith
  nlinarith

/-- The schedule holds exactly if the constructor finds the right number of nanoseconds, and it is not
zero: with another one the second and the third deadline are not both on the grid. -/
theorem samplingGrid_iff_ns {x : PyNumber} (hx : Accepted x) {I : ℤ} (hI : x.toNs = .ok I) :
    SamplingGrid x ↔ 0 < I ∧ I = x.ns := by
  obtain ⟨hpos, J, hJ, hinit⟩ := hx.toNs
  obtain rfl : J = I := Except.ok.inj (hJ.symm.trans hI)
  constructor
  · intro h
    let sample : Unit → ℤ → Option Unit × Unit := fun _ _ => (some (), ())
    have hrun : Running 0 J (0 + J) (Monitor.start sample 0 ⟨J, (), none, [], false⟩).2 :=
      running_of_start sample rfl
    have hnonneg := (PyNumber.toNs_floor hpos hI).1
    have hgrid := (h Unit Unit sample () _ _ 0 [0 + J, 0 + J + J] (hinit _ _ _) rfl
      (by simpa using hnonneg)).1
    obtain ⟨⟨hdiv, hfirst⟩, ⟨-, hsecond⟩, -⟩ := hgrid
    have hzero : J ≠ 0 := by
      intro hzero
      exact hdiv (congrArg Prod.fst (pollIfDue_zero sample hrun.next hrun.unfinished (lt_irrefl _) rfl
        (hrun.interval.trans hzero)))
    obtain ⟨htakes, hrun'⟩ := poll_at_deadline sample hrun hzero rfl
    obtain ⟨htakes', hrun''⟩ := poll_at_deadline sample hrun' hzero rfl
    obtain ⟨d, hd, -, hnear, hon⟩ := hfirst htakes
    obtain ⟨d', hd', -, -, hon'⟩ := hsecond htakes'
    obtain rfl : 0 + J + J = d := Option.some.inj (hrun'.next.symm.trans hd)
    obtain rfl : 0 + J + J + J = d' := Option.some.inj (hrun''.next.symm.trans hd')
    simp only [zero_add] at hon hon' hnear
    have hJ : 0 < J := by omega
    exact ⟨hJ, interval_eq hJ (by omega) hon hon'⟩
  · rintro ⟨hJ, hns⟩ β Sample sample b m₀ m start os hm₀ hstart _
    rw [hinit] at hm₀
    cases hm₀
    have hrun := running_of_start sample hstart
    rw [hns] at hrun hJ
    exact ⟨along_onSchedule sample hrun hJ os, countP_sampleTimes sample hrun hJ os⟩

/-- An interval below a nanosecond is accepted as well, and then the schedule has no deadline to move
to. From a nanosecond on it holds for every exact number, and for the floats whose product with 10^9
keeps its integer part when it is rounded. -/
theorem samplingGrid_iff (x : PyNumber) (hx : Accepted x) :
    SamplingGrid x ↔ 1 / 10 ^ 9 ≤ x.value ∧ x.KeepsFloor := by
  obtain ⟨hpos, I, hI, -⟩ := hx.toNs
  have hone : 0 < x.ns ↔ 1 / 10 ^ 9 ≤ x.value := by
    rw [PyNumber.ns, Int.floor_pos, div_le_iff₀ (by norm_num)]
  rw [samplingGrid_iff_ns hx hI, (PyNumber.toNs_floor hpos hI).2.symm, ← hone]
  constructor <;> rintro ⟨h, rfl⟩ <;> exact ⟨h, rfl⟩

theorem accepted_float {x : Double} {e : ℤ} (hlow : 2 ^ (e + 52) ≤ x.value * 10 ^ 9)
    (hhigh : x.value * 10 ^ 9 < 2 ^ (e + 53)) (he : -1074 ≤ e ∧ e ≤ 970) :
    (PyNumber.float x).toNs = .ok ⌊Binary64.round (x.value * 10 ^ 9)⌋ ∧ Accepted (.float x) := by
  have hpos : 0 < x.value * 10 ^ 9 := lt_of_lt_of_le (zpow_pos (by norm_num) _) hlow
  have hvalue : 0 < (PyNumber.float x).value := pos_of_mul_pos_left hpos (by norm_num)
  have hfits : |Binary64.round (x.value * 10 ^ 9)| < 2 ^ 1024 := by
    have hle := abs_round_le_spacing (x.value * 10 ^ 9)
    rw [spacing_eq hlow hhigh he.1] at hle
    have hbig : (2 : ℚ) ^ 53 * 2 ^ e < 2 ^ 1024 := by
      have hlt := zpow_lt_zpow_right₀ (by norm_num : (1 : ℚ) < 2) (by omega : 53 + e < 1024)
      rw [zpow_add₀ (by norm_num)] at hlt
      exact_mod_cast hlt
    exact lt_of_le_of_lt hle hbig
  have hmul : x.mul billion = some ⟨_, round_isDouble hfits⟩ := dif_pos hfits
  have hns : (PyNumber.float x).toNs = .ok ⌊Binary64.round (x.value * 10 ^ 9)⌋ := by
    rw [PyNumber.toNs, hmul, ← pyInt_eq_floor (round_nonneg hpos.le)]
    rfl
  refine ⟨hns, ⟨⌊Binary64.round (x.value * 10 ^ 9)⌋, (), none, [], false⟩, ?_⟩
  rw [Monitor.init, if_neg (not_le.mpr hvalue), hns]
  rfl

def oneSecond : Double := ⟨1, 1, 0, by norm_num, by norm_num, by norm_num, by norm_num⟩

theorem samplingGrid_second : Accepted (.float oneSecond) ∧ SamplingGrid (.float oneSecond) := by
  have hacc := (accepted_float (x := oneSecond) (e := -23) (by norm_num [oneSecond])
    (by norm_num [oneSecond]) (by omega)).2
  refine ⟨hacc, (samplingGrid_iff _ hacc).mpr ⟨by norm_num [PyNumber.value, oneSecond], ?_⟩⟩
  have hplace : spacing (oneSecond.value * 10 ^ 9) = 2 ^ (-23 : ℤ) :=
    spacing_eq (by norm_num [oneSecond]) (by norm_num [oneSecond]) (by norm_num)
  rw [PyNumber.KeepsFloor, KeepsFloor, hplace, if_pos (by norm_num)]
  left
  norm_num [oneSecond]

def halfNanosecond : Double := ⟨4835703278458517 / 2 ^ 83, 4835703278458517, -83, by norm_num,
  by norm_num, by norm_num, by norm_num⟩

def threeTenths : Double := ⟨5404319552844595 / 2 ^ 54, 5404319552844595, -54, by norm_num,
  by norm_num, by norm_num, by norm_num⟩

theorem halfNanosecond_toNs :
    (PyNumber.float halfNanosecond).toNs = .ok 0 ∧ Accepted (.float halfNanosecond) := by
  have hlow : (2 : ℚ) ^ (-53 + 52 : ℤ) ≤ halfNanosecond.value * 10 ^ 9 := by
    norm_num [halfNanosecond]
  have hhigh : halfNanosecond.value * 10 ^ 9 < (2 : ℚ) ^ (-53 + 53 : ℤ) := by
    norm_num [halfNanosecond]
  obtain ⟨hns, hacc⟩ := accepted_float hlow hhigh (by norm_num)
  have hfloor : ⌊halfNanosecond.value * 10 ^ 9⌋ = 0 := by
    rw [Int.floor_eq_zero_iff]
    norm_num [halfNanosecond]
  have hkeeps : KeepsFloor (halfNanosecond.value * 10 ^ 9) := by
    rw [KeepsFloor, spacing_eq hlow hhigh (by norm_num), if_pos (by norm_num), hfloor]
    left
    norm_num [halfNanosecond]
  rw [(floor_round_iff _).mpr hkeeps, hfloor] at hns
  exact ⟨hns, hacc⟩

theorem threeTenths_toNs :
    (PyNumber.float threeTenths).toNs = .ok 300000000 ∧ Accepted (.float threeTenths) := by
  have hlow : (2 : ℚ) ^ (-24 + 52 : ℤ) ≤ threeTenths.value * 10 ^ 9 := by
    norm_num [threeTenths]
  have hhigh : threeTenths.value * 10 ^ 9 < (2 : ℚ) ^ (-24 + 53 : ℤ) := by
    norm_num [threeTenths]
  obtain ⟨hns, hacc⟩ := accepted_float hlow hhigh (by norm_num)
  have hmantissa : roundEven (threeTenths.value * 10 ^ 9 / 2 ^ (-24 : ℤ)) = 300000000 * 2 ^ 24 := by
    refine le_antisymm (roundEven_le ?_) (not_lt.mp ?_)
    · norm_num [threeTenths]
    · rw [roundEven_lt_iff]
      norm_num [threeTenths]
  have hround : Binary64.round (threeTenths.value * 10 ^ 9) = 300000000 := by
    rw [Binary64.round, spacing_eq hlow hhigh (by norm_num), hmantissa]
    norm_num
  rw [hround, Int.floor_ofNat] at hns
  exact ⟨hns, hacc⟩

/-- Half a nanosecond is accepted, and a poll at the time of the start divides by zero. Three tenths
of a second are 299999999 nanoseconds and a fraction, but the deadlines are 300000000 apart. -/
theorem half_nanosecond_and_three_tenths :
    (∃ m₀ m : Monitor Unit Unit, Monitor.init (.float halfNanosecond) () = .ok m₀ ∧
      m₀.start (fun _ _ => (some (), ())) 0 = (.ok (), m) ∧
      (m.pollIfDue (fun _ _ => (some (), ())) 0).1 = .error .zeroDivisionError) ∧
    (∃ m₀ m : Monitor Unit Unit, Monitor.init (.float threeTenths) () = .ok m₀ ∧
      m₀.start (fun _ _ => (some (), ())) 0 = (.ok (), m) ∧
      takes (fun _ _ => (some (), ())) m 300000000 = true ∧
      (poll (fun _ _ => (some (), ())) m 300000000).nextSampleNs = some 600000000 ∧
      300000000 + (PyNumber.float threeTenths).ns < 600000000) ∧
    ¬ SamplingGrid (.float halfNanosecond) ∧ ¬ SamplingGrid (.float threeTenths) := by
  obtain ⟨hhalf, hhalf'⟩ := halfNanosecond_toNs
  obtain ⟨htenths, htenths'⟩ := threeTenths_toNs
  have hns : (PyNumber.float threeTenths).ns = 299999999 := by
    rw [PyNumber.ns, Int.floor_eq_iff]
    norm_num [PyNumber.value, threeTenths]
  refine ⟨?_, ?_, ?_, ?_⟩
  · obtain ⟨-, I, hI, hinit⟩ := hhalf'.toNs
    obtain rfl : I = 0 := Except.ok.inj (hI.symm.trans hhalf)
    exact ⟨_, ⟨0, (), some 0, [], false⟩, hinit _ _ _, rfl, by decide⟩
  · obtain ⟨-, I, hI, hinit⟩ := htenths'.toNs
    obtain rfl : I = 300000000 := Except.ok.inj (hI.symm.trans htenths)
    refine ⟨_, ⟨300000000, (), some 300000000, [], false⟩, hinit _ _ _, rfl, by decide, by decide, ?_⟩
    rw [hns]
    norm_num
  · rw [samplingGrid_iff_ns hhalf' hhalf]
    simp
  · rw [samplingGrid_iff_ns htenths' htenths, hns]
    norm_num

end Measurement
end HakoniwaCorePro
