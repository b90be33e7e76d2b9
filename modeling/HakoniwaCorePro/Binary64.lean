import Mathlib.Data.Int.Log
import Mathlib.Data.Rat.Floor
import Mathlib.Algebra.Order.Ring.Int
import Mathlib.Tactic.Linarith
import Mathlib.Tactic.NormNum
import Mathlib.Tactic.FieldSimp

/-!
# Double precision

The numbers of double precision as rationals, and the nearest of them to a rational, from half way
the one with the even mantissa. What the rounding does to the integer part depends on how far the
next integer is away, in units of the last place.
-/

namespace HakoniwaCorePro
namespace Binary64

/-- The nearest integer, from half way the even one. -/
def roundEven (x : ℚ) : ℤ :=
  if 2 * Int.fract x < 1 ∨ 2 * Int.fract x = 1 ∧ Even ⌊x⌋ then ⌊x⌋ else ⌊x⌋ + 1

/-- The exponent of the last place, for mantissas of 53 bits; small numbers have fewer. -/
def lastPlace (q : ℚ) : ℤ := max (Int.log 2 |q| - 52) (-1074)

/-- How far the doubles at `q` are apart. -/
def spacing (q : ℚ) : ℚ := 2 ^ lastPlace q

def round (q : ℚ) : ℚ := roundEven (q / spacing q) * spacing q

def IsDouble (q : ℚ) : Prop := ∃ m e : ℤ, |m| < 2 ^ 53 ∧ -1074 ≤ e ∧ e ≤ 971 ∧ q = m * 2 ^ e

structure Double where
  value : ℚ
  isDouble : IsDouble value

/-- The integer part stays: below 1 unit per place, the next integer is too far away to be the
nearer double, and above, the integer part is a double itself. -/
def KeepsFloor (q : ℚ) : Prop :=
  if spacing q ≤ 1 then
    spacing q / 2 < ⌊q⌋ + 1 - q ∨ spacing q = 1 ∧ ⌊q⌋ + 1 - q = 1 / 2 ∧ Even ⌊q⌋
  else ∃ t : ℤ, (⌊q⌋ : ℚ) = t * spacing q

theorem roundEven_lt_iff (x : ℚ) (k : ℤ) :
    roundEven x < k ↔ x < k - 1 / 2 ∨ x = k - 1 / 2 ∧ Odd k := by
  have hsplit : (⌊x⌋ : ℚ) + Int.fract x = x := Int.floor_add_fract x
  have hnonneg := Int.fract_nonneg x
  have hone := Int.fract_lt_one x
  unfold roundEven
  split
  · next hdown =>
    constructor
    · intro hlt
      have hk : (⌊x⌋ : ℚ) + 1 ≤ k := by exact_mod_cast hlt
      rcases hdown with hdown | ⟨hhalf, heven⟩
      · exact .inl (by linarith)
      · rcases (Int.add_one_le_of_lt hlt).eq_or_lt with heq | hlt'
        · exact .inr ⟨by rw [← heq]; push_cast; linarith, heq ▸ heven.add_one⟩
        · have hk' : (⌊x⌋ : ℚ) + 1 + 1 ≤ k := by exact_mod_cast hlt'
          exact .inl (by linarith)
    · intro h
      have hx : x < k := by
        rcases h with h | ⟨h, -⟩ <;> linarith
      exact Int.floor_lt.mpr hx
  · next hup =>
    obtain ⟨hhalf, hodd⟩ := not_or.mp hup
    constructor
    · intro hlt
      have hk : (⌊x⌋ : ℚ) + 1 + 1 ≤ k := by exact_mod_cast hlt
      exact .inl (by linarith)
    · rintro (h | ⟨h, hk⟩)
      · have hlt : (⌊x⌋ : ℚ) + 1 < k := by linarith
        exact_mod_cast hlt
      · have hle : (⌊x⌋ : ℚ) + 1 ≤ k := by linarith
        have hle' : ⌊x⌋ + 1 ≤ k := by exact_mod_cast hle
        refine lt_of_le_of_ne hle' ?_
        rintro rfl
        push_cast at h
        exact hodd ⟨by linarith, by simpa [Int.even_add_one, parity_simps] using hk⟩

theorem le_roundEven {x : ℚ} {k : ℤ} (h : (k : ℚ) ≤ x) : k ≤ roundEven x := by
  rw [← not_lt, roundEven_lt_iff]
  rintro (hlt | ⟨heq, -⟩) <;> linarith

theorem roundEven_le {x : ℚ} {k : ℤ} (h : x ≤ k) : roundEven x ≤ k := by
  rw [← Int.lt_add_one_iff, roundEven_lt_iff]
  left
  push_cast
  linarith

theorem spacing_pos (q : ℚ) : 0 < spacing q := zpow_pos (by norm_num) _

/-- The mantissa has 53 bits before it is rounded. -/
theorem abs_lt_spacing (q : ℚ) : |q| < 2 ^ 53 * spacing q := by
  have hlog : |q| < (2 : ℚ) ^ (Int.log 2 |q| + 1) := Int.lt_zpow_succ_log_self (by norm_num) |q|
  have hplace : Int.log 2 |q| + 1 ≤ 53 + lastPlace q := by
    have := le_max_left (Int.log 2 |q| - 52) (-1074)
    unfold lastPlace
    omega
  calc |q| < (2 : ℚ) ^ (Int.log 2 |q| + 1) := hlog
    _ ≤ 2 ^ (53 + lastPlace q) := zpow_le_zpow_right₀ (by norm_num) hplace
    _ = 2 ^ 53 * spacing q := by rw [zpow_add₀ (by norm_num)]; rfl

theorem abs_round_le {q : ℚ} {k : ℤ} (h : |q| ≤ k * spacing q) : |round q| ≤ k * spacing q := by
  have hs := spacing_pos q
  obtain ⟨hlow, hhigh⟩ := abs_le.mp h
  have hlow' : -k ≤ roundEven (q / spacing q) := by
    refine le_roundEven ?_
    rw [le_div_iff₀ hs]
    push_cast
    linarith
  have hhigh' : roundEven (q / spacing q) ≤ k := roundEven_le (by rwa [div_le_iff₀ hs])
  have habs : |(roundEven (q / spacing q) : ℚ)| ≤ k :=
    abs_le.mpr ⟨by exact_mod_cast hlow', by exact_mod_cast hhigh'⟩
  rw [round, abs_mul, abs_of_pos hs]
  exact mul_le_mul_of_nonneg_right habs hs.le

theorem abs_round_le_spacing (q : ℚ) : |round q| ≤ 2 ^ 53 * spacing q := by
  have hle := abs_round_le (q := q) (k := 2 ^ 53) (by exact_mod_cast (abs_lt_spacing q).le)
  exact_mod_cast hle

theorem le_abs_round {q : ℚ} {k : ℤ} (h : k * spacing q ≤ |q|) : k * spacing q ≤ |round q| := by
  have hs := spacing_pos q
  have habs : (k : ℚ) ≤ |(roundEven (q / spacing q) : ℚ)| := by
    rcases le_abs.mp h with h | h
    · have hk : k ≤ roundEven (q / spacing q) := le_roundEven (by rwa [le_div_iff₀ hs])
      exact le_abs.mpr (.inl (by exact_mod_cast hk))
    · have hk : roundEven (q / spacing q) ≤ -k := by
        refine roundEven_le ?_
        rw [div_le_iff₀ hs]
        push_cast
        linarith
      have hk' : k ≤ -roundEven (q / spacing q) := by omega
      exact le_abs.mpr (.inr (by exact_mod_cast hk'))
  rw [round, abs_mul, abs_of_pos hs]
  exact mul_le_mul_of_nonneg_right habs hs.le

theorem round_nonneg {q : ℚ} (h : 0 ≤ q) : 0 ≤ round q := by
  have hzero : 0 ≤ roundEven (q / spacing q) :=
    le_roundEven (by rw [Int.cast_zero]; exact div_nonneg h (spacing_pos q).le)
  exact mul_nonneg (by exact_mod_cast hzero) (spacing_pos q).le

theorem lastPlace_le {q : ℚ} (h : |round q| < 2 ^ 1024) : lastPlace q ≤ 971 := by
  by_contra hplace
  have hlog : lastPlace q = Int.log 2 |q| - 52 := by
    unfold lastPlace at hplace ⊢
    omega
  have hq : 0 < |q| := by
    by_contra hzero
    rw [hlog, Int.log_of_right_le_zero 2 (not_lt.mp hzero)] at hplace
    omega
  have hunit : ((2 ^ 52 : ℤ) : ℚ) * spacing q = 2 ^ Int.log 2 |q| := by
    rw [spacing, hlog, zpow_sub₀ (by norm_num)]
    norm_num
    ring
  have hlow : (2 : ℚ) ^ Int.log 2 |q| ≤ |q| := Int.zpow_log_le_self (by norm_num) hq
  have hround := le_abs_round (hunit ▸ hlow)
  rw [hunit] at hround
  have hbig : (2 : ℚ) ^ (1024 : ℤ) ≤ 2 ^ Int.log 2 |q| :=
    zpow_le_zpow_right₀ (by norm_num) (by omega)
  norm_cast at hbig h hround
  linarith

/-- A rounded number is a double, unless it overflows. A mantissa that is rounded up to `2 ^ 53` has
its last bit cut off. -/
theorem round_isDouble {q : ℚ} (h : |round q| < 2 ^ 1024) : IsDouble (round q) := by
  have hmin : -1074 ≤ lastPlace q := le_max_right _ _
  have hmantissa : |roundEven (q / spacing q)| ≤ 2 ^ 53 := by
    have hle := abs_round_le_spacing q
    rw [round, abs_mul, abs_of_pos (spacing_pos q)] at hle
    exact_mod_cast le_of_mul_le_mul_right hle (spacing_pos q)
  rcases hmantissa.lt_or_eq with hlt | heq
  · exact ⟨_, _, hlt, hmin, lastPlace_le h, rfl⟩
  · have hsize : |round q| = 2 ^ (53 + lastPlace q) := by
      rw [round, abs_mul, abs_of_pos (spacing_pos q), ← Int.cast_abs, heq, zpow_add₀ (by norm_num)]
      norm_num [spacing]
    have hplace : lastPlace q + 1 ≤ 971 := by
      rw [hsize] at h
      have hlt : 53 + lastPlace q < 1024 :=
        (zpow_lt_zpow_iff_right₀ (by norm_num : (1 : ℚ) < 2)).mp (h.trans_eq (zpow_ofNat 2 1024).symm)
      omega
    obtain ⟨t, ht, hts⟩ : ∃ t : ℤ, roundEven (q / spacing q) = 2 * t ∧ |t| < 2 ^ 53 := by
      rcases (abs_eq (by norm_num)).mp heq with hm | hm
      · exact ⟨2 ^ 52, by rw [hm]; norm_num, by norm_num⟩
      · exact ⟨-2 ^ 52, by rw [hm]; norm_num, by norm_num⟩
    refine ⟨t, lastPlace q + 1, hts, by omega, hplace, ?_⟩
    rw [round, ht, spacing, zpow_add_one₀ (by norm_num)]
    push_cast
    ring

/-- The double that a result is stored as, none where it overflows. -/
def Double.ofRat (q : ℚ) : Option Double :=
  if h : |round q| < 2 ^ 1024 then some ⟨round q, round_isDouble h⟩ else none

theorem Double.ofRat_value {q : ℚ} {x : Double} (h : ofRat q = some x) : x.value = round q := by
  unfold ofRat at h
  split at h
  · rw [← Option.some.inj h]
  · cases h

theorem spacing_eq {q : ℚ} {e : ℤ} (hlow : 2 ^ (e + 52) ≤ q) (hhigh : q < 2 ^ (e + 53))
    (he : -1074 ≤ e) : spacing q = 2 ^ e := by
  have hq : 0 < q := lt_of_lt_of_le (zpow_pos (by norm_num) _) hlow
  have hfrom := (Int.zpow_le_iff_le_log (b := 2) (by norm_num) hq).mp hlow
  have hbelow := (Int.lt_zpow_iff_log_lt (b := 2) (by norm_num) hq).mp hhigh
  rw [spacing, lastPlace, abs_of_pos hq]
  congr 1
  omega

def Double.mul (x y : Double) : Option Double := ofRat (x.value * y.value)

theorem places_of_le_one {q : ℚ} (h : spacing q ≤ 1) :
    ∃ k : ℕ, (k : ℚ) * spacing q = 1 ∧ (Odd k ↔ spacing q = 1) := by
  have hplace : lastPlace q ≤ 0 := by
    by_contra hpos
    have hbig : (2 : ℚ) ^ (1 : ℤ) ≤ spacing q := zpow_le_zpow_right₀ (by norm_num) (by omega)
    norm_num at hbig
    linarith
  obtain ⟨j, hj⟩ := Int.exists_eq_neg_ofNat hplace
  have hprod : ((2 ^ j : ℕ) : ℚ) * spacing q = 1 := by
    rw [spacing, hj, zpow_neg, zpow_natCast]
    push_cast
    exact mul_inv_cancel₀ (by positivity)
  refine ⟨2 ^ j, hprod, fun hodd => ?_, fun hone => ?_⟩
  · obtain rfl : j = 0 := by
      by_contra hj
      exact Nat.not_odd_iff_even.mpr (Nat.even_pow.mpr ⟨even_two, hj⟩) hodd
    simpa using hprod
  · rw [hone, mul_one] at hprod
    have hunit : 2 ^ j = 1 := by exact_mod_cast hprod
    rw [hunit]
    exact odd_one

theorem spacing_of_one_lt {q : ℚ} (h : 1 < spacing q) : ∃ k : ℕ, 2 ≤ k ∧ spacing q = k := by
  have hplace : 1 ≤ lastPlace q := by
    have hlt : (0 : ℤ) < lastPlace q :=
      (zpow_lt_zpow_iff_right₀ (by norm_num : (1 : ℚ) < 2)).mp (by simpa [spacing] using h)
    omega
  obtain ⟨j, hj⟩ := Int.eq_ofNat_of_zero_le (by omega : 0 ≤ lastPlace q - 1)
  refine ⟨2 ^ (j + 1), ?_, ?_⟩
  · exact Nat.le_self_pow (Nat.succ_ne_zero j) 2
  · rw [spacing, show lastPlace q = ((j + 1 : ℕ) : ℤ) by omega, zpow_natCast]
    push_cast
    rfl

theorem floor_round_iff_of_le_one {q : ℚ} (hle : spacing q ≤ 1) :
    ⌊round q⌋ = ⌊q⌋ ↔
      spacing q / 2 < ⌊q⌋ + 1 - q ∨ spacing q = 1 ∧ ⌊q⌋ + 1 - q = 1 / 2 ∧ Even ⌊q⌋ := by
  have hs := spacing_pos q
  have hlow : (⌊q⌋ : ℚ) ≤ q := Int.floor_le q
  obtain ⟨k, hk, hodd⟩ := places_of_le_one hle
  -- in units of the last place, `q` lies between two whole numbers
  have hunits : ∀ n : ℤ, (n : ℚ) = ((n * k : ℤ) : ℚ) * spacing q := fun n => by
    push_cast
    rw [mul_assoc, hk, mul_one]
  have hnext := hunits (⌊q⌋ + 1)
  push_cast at hnext
  have hfrom : (⌊q⌋ : ℚ) ≤ round q := by
    have hround : ⌊q⌋ * k ≤ roundEven (q / spacing q) :=
      le_roundEven (by rwa [le_div_iff₀ hs, ← hunits])
    rw [hunits ⌊q⌋]
    exact mul_le_mul_of_nonneg_right (by exact_mod_cast hround) hs.le
  have hbelow : round q < ⌊q⌋ + 1 ↔ roundEven (q / spacing q) < (⌊q⌋ + 1) * k := by
    rw [round, hnext, mul_lt_mul_iff_left₀ hs]
    norm_cast
  have hgap : (((⌊q⌋ + 1) * k : ℤ) : ℚ) = q / spacing q + (⌊q⌋ + 1 - q) / spacing q := by
    field_simp
    push_cast
    linarith
  rw [Int.floor_eq_iff, and_iff_right hfrom, hbelow, roundEven_lt_iff, hgap]
  refine or_congr ?_ ?_
  · have hhalf : 1 / 2 < (⌊q⌋ + 1 - q) / spacing q ↔ spacing q / 2 < ⌊q⌋ + 1 - q := by
      rw [lt_div_iff₀ hs, one_div_mul_eq_div]
    rw [← hhalf]
    constructor <;> intro h <;> linarith
  · have hhalf : (⌊q⌋ + 1 - q) / spacing q = 1 / 2 ↔ ⌊q⌋ + 1 - q = spacing q / 2 := by
      rw [div_eq_iff hs.ne', one_div_mul_eq_div]
    rw [Int.odd_mul, Int.odd_coe_nat, hodd]
    constructor
    · rintro ⟨heq, ⟨t, ht⟩, hone⟩
      have hg := hhalf.mp (by linarith)
      rw [hone] at hg
      exact ⟨hone, hg, t, by omega⟩
    · rintro ⟨hone, hg, heven⟩
      have heq := hhalf.mpr (by rw [hone, hg])
      exact ⟨by linarith, heven.add_one, hone⟩

theorem floor_round_iff_of_one_lt {q : ℚ} (hgt : 1 < spacing q) :
    ⌊round q⌋ = ⌊q⌋ ↔ ∃ t : ℤ, (⌊q⌋ : ℚ) = t * spacing q := by
  have hs := spacing_pos q
  have hlow : (⌊q⌋ : ℚ) ≤ q := Int.floor_le q
  have hhigh : q < ⌊q⌋ + 1 := Int.lt_floor_add_one q
  obtain ⟨k, hk, hspacing⟩ := spacing_of_one_lt hgt
  constructor
  · intro h
    refine ⟨roundEven (q / spacing q), ?_⟩
    rw [← h, round, hspacing]
    norm_cast
  · rintro ⟨t, ht⟩
    have htwo : (2 : ℚ) ≤ spacing q := by
      rw [hspacing]
      exact_mod_cast hk
    have hfrom : t ≤ roundEven (q / spacing q) := le_roundEven (by rwa [le_div_iff₀ hs, ← ht])
    have hbelow : roundEven (q / spacing q) < t + 1 := by
      rw [roundEven_lt_iff]
      left
      rw [div_lt_iff₀ hs]
      push_cast
      linarith
    have hround : roundEven (q / spacing q) = t := by omega
    rw [round, hround, ← ht, Int.floor_intCast]

theorem floor_round_iff (q : ℚ) : ⌊round q⌋ = ⌊q⌋ ↔ KeepsFloor q := by
  unfold KeepsFloor
  split
  · next hle => exact floor_round_iff_of_le_one hle
  · next hgt => exact floor_round_iff_of_one_lt (not_le.mp hgt)

end Binary64
end HakoniwaCorePro
