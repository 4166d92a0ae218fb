import Mathlib.Data.Int.Log
import Mathlib.Data.Rat.Floor
import Mathlib.Algebra.Order.Field.Power
import Mathlib.Tactic.Linarith
import Mathlib.Tactic.NormNum
import Mathlib.Tactic.Positivity
import Mathlib.Tactic.Ring

/-!
# Binary64 arithmetic

A finite double is kept as the rational number that it is, with one zero. The result of an operation
is the double that is nearest to the exact one, the even one of two (`nearest`); what lies beyond
the largest double becomes infinite.
-/

namespace Neemata.Binary64

/-- The nearest integer, the even one of two. -/
def nearestEven (x : ℚ) : ℤ :=
  if Int.fract x < 1 / 2 then ⌊x⌋
  else if 1 / 2 < Int.fract x then ⌊x⌋ + 1
  else if Even ⌊x⌋ then ⌊x⌋
  else ⌊x⌋ + 1

/-- The distance of the doubles around a number. -/
def ulp (x : ℚ) : ℚ := 2 ^ (max (Int.log 2 |x|) (-1022) - 52)

/-- The nearest multiple of the distance. -/
def nearest (x : ℚ) : ℚ := nearestEven (x / ulp x) * ulp x

variable {x : ℚ}

/-! ## Rounding to an integer -/

theorem floor_le_nearestEven (x : ℚ) : ⌊x⌋ ≤ nearestEven x := by
  unfold nearestEven
  split
  · exact le_refl _
  · split
    · omega
    · split <;> omega

theorem nearestEven_le_ceil (x : ℚ) : nearestEven x ≤ ⌈x⌉ := by
  have hfloor : ⌊x⌋ ≤ ⌈x⌉ := Int.floor_le_ceil x
  have hceil : Int.fract x ≠ 0 → ⌊x⌋ + 1 ≤ ⌈x⌉ := by
    intro h
    have hne : ⌊x⌋ < x := lt_of_le_of_ne (Int.floor_le x) fun heq => h (by
      rw [← Int.self_sub_floor, ← heq, Int.floor_intCast, sub_self])
    exact Int.lt_ceil.mpr hne
  unfold nearestEven
  split
  · exact hfloor
  · next hfract =>
    have hup := hceil fun h => hfract (by rw [h]; norm_num)
    split
    · exact hup
    · split
      · exact hfloor
      · exact hup

theorem abs_nearestEven_sub_le (x : ℚ) : |(nearestEven x : ℚ) - x| ≤ 1 / 2 := by
  have hsplit : (⌊x⌋ : ℚ) + Int.fract x = x := Int.floor_add_fract x
  have hnonneg := Int.fract_nonneg x
  have hlt := Int.fract_lt_one x
  rw [abs_le]
  unfold nearestEven
  split
  · constructor <;> linarith
  · next hhalf =>
    rw [not_lt] at hhalf
    split
    · next habove =>
      push_cast
      constructor <;> linarith
    · next hbelow =>
      rw [not_lt] at hbelow
      split
      · constructor <;> linarith
      · push_cast
        constructor <;> linarith

/-! ## Rounding to a double -/

theorem ulp_pos (x : ℚ) : 0 < ulp x := zpow_pos (by norm_num) _

theorem le_nearest {k : ℤ} (h : k * ulp x ≤ x) : k * ulp x ≤ nearest x := by
  have hle : k ≤ ⌊x / ulp x⌋ := Int.le_floor.mpr ((le_div_iff₀ (ulp_pos x)).mpr h)
  have hcast : (k : ℚ) ≤ nearestEven (x / ulp x) :=
    Int.cast_le.mpr (hle.trans (floor_le_nearestEven _))
  exact mul_le_mul_of_nonneg_right hcast (ulp_pos x).le

theorem nearest_le {k : ℤ} (h : x ≤ k * ulp x) : nearest x ≤ k * ulp x := by
  have hle : ⌈x / ulp x⌉ ≤ k := Int.ceil_le.mpr ((div_le_iff₀ (ulp_pos x)).mpr h)
  have hcast : (nearestEven (x / ulp x) : ℚ) ≤ k :=
    Int.cast_le.mpr ((nearestEven_le_ceil _).trans hle)
  exact mul_le_mul_of_nonneg_right hcast (ulp_pos x).le

theorem abs_nearest_sub_le (x : ℚ) : |nearest x - x| ≤ ulp x / 2 := by
  have hpos := ulp_pos x
  have hdiff : nearest x - x = (nearestEven (x / ulp x) - x / ulp x) * ulp x := by
    rw [sub_mul, div_mul_cancel₀ _ hpos.ne']
    rfl
  rw [hdiff, abs_mul, abs_of_pos hpos]
  calc |(nearestEven (x / ulp x) : ℚ) - x / ulp x| * ulp x
      ≤ 1 / 2 * ulp x := mul_le_mul_of_nonneg_right (abs_nearestEven_sub_le _) hpos.le
    _ = ulp x / 2 := by ring

/-- The distance below `2 ^ 53` divides one. -/
theorem exists_int_mul_ulp (hx : |x| < 2 ^ 53) (m : ℤ) : ∃ k : ℤ, (m : ℚ) = k * ulp x := by
  have hexp : max (Int.log 2 |x|) (-1022) ≤ 52 := by
    rcases eq_or_lt_of_le (abs_nonneg x) with hzero | hpos
    · rw [← hzero, Int.log_zero_right]
      decide
    · have hlog : Int.log 2 |x| < 53 := (Int.lt_zpow_iff_log_lt (by decide) hpos).mp (by exact_mod_cast hx)
      omega
  obtain ⟨n, hn⟩ := Int.eq_ofNat_of_zero_le (a := 52 - max (Int.log 2 |x|) (-1022)) (by omega)
  refine ⟨m * 2 ^ n, ?_⟩
  have hexp' : max (Int.log 2 |x|) (-1022) - 52 = -(n : ℤ) := by omega
  rw [ulp, hexp', zpow_neg, zpow_natCast]
  push_cast
  rw [mul_assoc, mul_inv_cancel₀ (by positivity), mul_one]

theorem nearest_le_intCast (hx : |x| < 2 ^ 53) {m : ℤ} (h : x ≤ m) : nearest x ≤ m := by
  obtain ⟨k, hk⟩ := exists_int_mul_ulp hx m
  rw [hk] at h ⊢
  exact nearest_le h

theorem le_nearest_intCast (hx : |x| < 2 ^ 53) {m : ℤ} (h : m ≤ x) : m ≤ nearest x := by
  obtain ⟨k, hk⟩ := exists_int_mul_ulp hx m
  rw [hk] at h ⊢
  exact le_nearest h

/-- The distance of the doubles of a binade. -/
theorem ulp_eq (hx : 2 ^ (-1022 : ℤ) ≤ |x|) : ulp x = 2 ^ Int.log 2 |x| / 2 ^ 52 := by
  have hpos : 0 < |x| := lt_of_lt_of_le (zpow_pos (by norm_num) _) hx
  have hlog : -1022 ≤ Int.log 2 |x| :=
    (Int.zpow_le_iff_le_log (by decide) hpos).mp (by exact_mod_cast hx)
  rw [ulp, max_eq_left hlog, zpow_sub₀ (by norm_num)]
  norm_num

theorem ulp_le (hx : 2 ^ (-1022 : ℤ) ≤ |x|) : ulp x ≤ |x| / 2 ^ 52 := by
  have hpos : 0 < |x| := lt_of_lt_of_le (zpow_pos (by norm_num) _) hx
  have hlog : (2 : ℚ) ^ Int.log 2 |x| ≤ |x| := by
    exact_mod_cast Int.zpow_log_le_self (by decide) hpos
  rw [ulp_eq hx]
  exact div_le_div_of_nonneg_right hlog (by norm_num)

/-- Rounding does not go below an integer that a double can be. -/
theorem intCast_le_nearest {m : ℤ} (hm : m ≤ 2 ^ 53) (hx : 0 ≤ x) (h : m ≤ x) : m ≤ nearest x := by
  rcases lt_or_ge |x| (2 ^ 53) with hlt | hge
  · exact le_nearest_intCast hlt h
  · have hnormal : (2 : ℚ) ^ (-1022 : ℤ) ≤ |x| := by
      refine le_trans ?_ hge
      exact le_trans (zpow_le_one_of_nonpos₀ (by norm_num) (by norm_num)) (by norm_num)
    have hpos : 0 < |x| := lt_of_lt_of_le (by norm_num) hge
    have hlog : 53 ≤ Int.log 2 |x| :=
      (Int.zpow_le_iff_le_log (by decide) hpos).mp (by exact_mod_cast hge)
    have hpower : ((2 ^ 52 : ℤ) : ℚ) * ulp x = 2 ^ Int.log 2 |x| := by
      rw [ulp_eq hnormal, Int.cast_pow, Int.cast_ofNat]
      exact mul_div_cancel₀ _ (by norm_num)
    have hself : (2 : ℚ) ^ Int.log 2 |x| ≤ x := by
      have hle := Int.zpow_log_le_self (b := 2) (by decide) hpos
      rw [abs_of_nonneg hx] at hle ⊢
      exact_mod_cast hle
    calc (m : ℚ) ≤ 2 ^ (53 : ℤ) := by exact_mod_cast hm
      _ ≤ 2 ^ Int.log 2 |x| := zpow_le_zpow_right₀ (by norm_num) hlog
      _ = (2 ^ 52 : ℤ) * ulp x := hpower.symm
      _ ≤ nearest x := le_nearest (hpower.trans_le hself)

theorem nearest_intCast {m : ℤ} (hm : |m| < 2 ^ 53) : nearest m = m := by
  have hcast : |(m : ℚ)| < 2 ^ 53 := by exact_mod_cast hm
  exact le_antisymm (nearest_le_intCast hcast (le_refl _)) (le_nearest_intCast hcast (le_refl _))

/-- The relative error is at most `2 ^ -53`. -/
theorem nearest_le_mul (hx : 0 ≤ x) (hnormal : 2 ^ (-1022 : ℤ) ≤ x) :
    nearest x ≤ x * (1 + 1 / 2 ^ 53) := by
  have herror := (abs_le.mp (abs_nearest_sub_le x)).2
  have hulp := ulp_le (x := x) (by rwa [abs_of_nonneg hx])
  rw [abs_of_nonneg hx] at hulp
  have hhalf : ulp x / 2 ≤ x / 2 ^ 53 := by
    calc ulp x / 2 ≤ x / 2 ^ 52 / 2 := div_le_div_of_nonneg_right hulp (by norm_num)
      _ = x / 2 ^ 53 := by ring
  linarith

/-! ## Doubles -/

inductive Double where
  | finite (value : ℚ)
  | infinite (negative : Bool)
  | nan
deriving DecidableEq, Repr

namespace Double

/-- From here on a number becomes infinite. -/
def limit : ℚ := 2 ^ 1024

def round (x : ℚ) : Double :=
  if limit ≤ |nearest x| then .infinite (decide (x < 0)) else .finite (nearest x)

def add : Double → Double → Double
  | .finite x, .finite y => round (x + y)
  | .infinite s, .infinite t => if s = t then .infinite s else .nan
  | .infinite s, .finite _ | .finite _, .infinite s => .infinite s
  | .nan, _ | _, .nan => .nan

def mul : Double → Double → Double
  | .finite x, .finite y => round (x * y)
  | .infinite s, .infinite t => .infinite (s != t)
  | .infinite s, .finite x | .finite x, .infinite s =>
    if x = 0 then .nan else .infinite (s != decide (x < 0))
  | .nan, _ | _, .nan => .nan

/-- By a number that is not zero. -/
def div : Double → Double → Double
  | .finite x, .finite y => round (x / y)
  | .infinite _, .infinite _ => .nan
  | .infinite s, .finite y => .infinite (s != decide (y < 0))
  | .finite _, .infinite _ => .finite 0
  | .nan, _ | _, .nan => .nan

/-- `Math.floor` -/
def floor : Double → Double
  | .finite x => .finite ⌊x⌋
  | x => x

/-- `x < y` -/
def lt : Double → Double → Bool
  | .finite x, .finite y => x < y
  | .infinite s, .infinite t => s && !t
  | .infinite s, .finite _ => s
  | .finite _, .infinite s => !s
  | .nan, _ | _, .nan => false

theorem lt_of_lt_of_not_lt {x y : ℚ} {d : Double} (h : (finite x).lt d)
    (hnot : (finite y).lt d = false) : x < y := by
  cases d with
  | finite z => exact (of_decide_eq_true h).trans_le (not_lt.mp (of_decide_eq_false hnot))
  | infinite negative => exact absurd (h.symm.trans hnot) (by decide)
  | nan => cases h

/-- What is no larger than an integer below `2 ^ 53` stays finite. -/
theorem round_of_abs_le {m : ℤ} (hm : m < 2 ^ 53) (hx : |x| ≤ m) :
    round x = .finite (nearest x) := by
  have hcast : (m : ℚ) < 2 ^ 53 := by exact_mod_cast hm
  have hlt : |x| < 2 ^ 53 := hx.trans_lt hcast
  have hupper : nearest x ≤ m := nearest_le_intCast hlt ((le_abs_self x).trans hx)
  have hlower : ((-m : ℤ) : ℚ) ≤ nearest x := by
    refine le_nearest_intCast hlt ?_
    push_cast
    exact (abs_le.mp hx).1
  have habs : |nearest x| ≤ m := abs_le.mpr ⟨by exact_mod_cast hlower, hupper⟩
  have hlimit : (2 : ℚ) ^ 53 ≤ limit := pow_le_pow_right₀ (by norm_num) (by norm_num)
  exact if_neg (not_le.mpr ((habs.trans_lt hcast).trans_le hlimit))

theorem round_intCast {m : ℤ} (hm : |m| < 2 ^ 53) : round m = .finite m := by
  rw [round_of_abs_le hm (by push_cast; exact le_refl _), nearest_intCast hm]

/-- Zero or less, an infinity included. -/
def NonPos : Double → Prop
  | .finite x => x ≤ 0
  | .infinite negative => negative = true
  | .nan => False

theorem nonPos_round (hx : x ≤ 0) : (round x).NonPos := by
  have hnearest : nearest x ≤ 0 := by
    have hle := nearest_le (x := x) (k := 0) (by rw [Int.cast_zero, zero_mul]; exact hx)
    rwa [Int.cast_zero, zero_mul] at hle
  unfold round
  split
  · next hlimit =>
    have hne : x ≠ 0 := by
      rintro rfl
      have hzero : nearest ((0 : ℤ) : ℚ) = (0 : ℤ) := nearest_intCast (by norm_num)
      rw [Int.cast_zero] at hzero
      rw [hzero, abs_zero] at hlimit
      exact absurd hlimit (not_le.mpr (pow_pos (by norm_num) _))
    exact decide_eq_true (lt_of_le_of_ne hx hne)
  · exact hnearest

theorem NonPos.div {d : Double} (h : d.NonPos) {y : ℚ} (hy : 0 < y) :
    (d.div (.finite y)).NonPos := by
  cases d with
  | finite x => exact nonPos_round (div_nonpos_of_nonpos_of_nonneg h hy.le)
  | infinite negative =>
    cases (show negative = true from h)
    rw [Double.div, decide_eq_false (not_lt.mpr hy.le)]
    rfl
  | nan => cases h

theorem NonPos.floor {d : Double} (h : d.NonPos) : d.floor.NonPos := by
  cases d with
  | finite x => exact Int.cast_nonpos.mpr (Int.floor_nonpos h)
  | infinite negative => exact h
  | nan => cases h

end Double

end Neemata.Binary64
