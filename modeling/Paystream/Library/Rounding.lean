import Mathlib.Data.Int.Log
import Mathlib.Algebra.Order.BigOperators.Group.List
import Mathlib.Tactic

/-!
# Binary numbers of a fixed precision

A format keeps the numbers `m * 2 ^ e` with at most `precision` binary digits and an
exponent from `minExponent` on.  `Format.round` takes the nearest of them, and of two
the one with an even last digit.  There is no largest number.  `Format.Number` is the
type of these numbers, with an arithmetic that rounds every result.

* What is a number stays as it is (`round_of_isNumber`), and rounding keeps the order
  (`round_mono`).
* Multiples of a power of two are numbers up to a bound (`isNumber_of_onGrid`).
* A sum is exact where all its beginnings are numbers (`val_sum`), and
  `sum_capped_iff` says when its parts may be capped one by one.
-/

namespace Paystream
namespace Library

/-! ## The nearest integer -/

/-- The nearest integer, of two the even one. -/
def halfEven (y : ℚ) : ℤ :=
  if Int.fract y < 1 / 2 then ⌊y⌋
  else if 1 / 2 < Int.fract y then ⌊y⌋ + 1
  else if ⌊y⌋ % 2 = 0 then ⌊y⌋ else ⌊y⌋ + 1

theorem floor_le_halfEven (y : ℚ) : ⌊y⌋ ≤ halfEven y := by
  unfold halfEven
  split_ifs <;> omega

theorem halfEven_le (y : ℚ) : halfEven y ≤ ⌊y⌋ + 1 := by
  unfold halfEven
  split_ifs <;> omega

@[simp] theorem halfEven_intCast (n : ℤ) : halfEven (n : ℚ) = n := by
  unfold halfEven
  rw [Int.fract_intCast, Int.floor_intCast, if_pos (by norm_num)]

theorem halfEven_mono {x y : ℚ} (h : x ≤ y) : halfEven x ≤ halfEven y := by
  rcases (Int.floor_mono h).lt_or_eq with hlt | heq
  · have hx := halfEven_le x
    have hy := floor_le_halfEven y
    omega
  · -- the same integer is below both, so the fractions decide
    have hfract : Int.fract x ≤ Int.fract y := by
      unfold Int.fract
      rw [heq]
      exact sub_le_sub_right h _
    unfold halfEven
    rw [heq]
    split_ifs <;> first | omega | (exfalso; linarith)

theorem halfEven_nonneg {y : ℚ} (h : 0 ≤ y) : 0 ≤ halfEven y :=
  (Int.floor_nonneg.mpr h).trans (floor_le_halfEven y)

/-! ## Grids -/

/-- A multiple of a power of two. -/
def OnGrid (e : ℤ) (x : ℚ) : Prop := ∃ m : ℤ, x = m * 2 ^ e

namespace OnGrid

variable {e : ℤ} {x y : ℚ}

theorem add (hx : OnGrid e x) (hy : OnGrid e y) : OnGrid e (x + y) := by
  obtain ⟨m, rfl⟩ := hx
  obtain ⟨n, rfl⟩ := hy
  exact ⟨m + n, by push_cast; ring⟩

theorem sub (hx : OnGrid e x) (hy : OnGrid e y) : OnGrid e (x - y) := by
  obtain ⟨m, rfl⟩ := hx
  obtain ⟨n, rfl⟩ := hy
  exact ⟨m - n, by push_cast; ring⟩

theorem neg (hx : OnGrid e x) : OnGrid e (-x) := by
  obtain ⟨m, rfl⟩ := hx
  exact ⟨-m, by push_cast; ring⟩

theorem intCast_mul (n : ℤ) (hx : OnGrid e x) : OnGrid e (n * x) := by
  obtain ⟨m, rfl⟩ := hx
  exact ⟨n * m, by push_cast; ring⟩

theorem max (hx : OnGrid e x) (hy : OnGrid e y) : OnGrid e (max x y) := by
  rcases max_choice x y with h | h <;> rw [h] <;> assumption

theorem min (hx : OnGrid e x) (hy : OnGrid e y) : OnGrid e (min x y) := by
  rcases min_choice x y with h | h <;> rw [h] <;> assumption

/-- A coarse grid is part of a fine one. -/
theorem of_le {e' : ℤ} (hx : OnGrid e' x) (hle : e ≤ e') : OnGrid e x := by
  obtain ⟨m, rfl⟩ := hx
  obtain ⟨n, hn⟩ := Int.le.dest hle
  refine ⟨m * 2 ^ n, ?_⟩
  rw [← hn, zpow_add₀ two_ne_zero, zpow_natCast]
  push_cast
  ring

/-- Integers are on every grid up to that of the units. -/
theorem intCast (n : ℤ) (hle : e ≤ 0) : OnGrid e (n : ℚ) := by
  have hunit : OnGrid 0 (n : ℚ) := ⟨n, by simp⟩
  exact hunit.of_le hle

/-- A positive multiple is at least the power itself. -/
theorem two_zpow_le (hx : OnGrid e x) (hpos : 0 < x) : (2 : ℚ) ^ e ≤ x := by
  obtain ⟨m, rfl⟩ := hx
  have hpower : (0 : ℚ) < 2 ^ e := by positivity
  have hm : 0 < m := by
    have hcast : (0 : ℚ) < m := pos_of_mul_pos_left hpos hpower.le
    exact_mod_cast hcast
  have hone : (1 : ℚ) ≤ m := by exact_mod_cast hm
  nlinarith

end OnGrid

/-! ## Formats -/

structure Format where
  precision : Nat
  minExponent : ℤ
  precision_pos : 0 < precision

namespace Format

variable (f : Format)

/-- The exponent of the last digit. -/
def exponent (x : ℚ) : ℤ :=
  max (Int.log 2 |x| + 1 - f.precision) f.minExponent

def round (x : ℚ) : ℚ :=
  let magnitude : ℚ := (halfEven (|x| / 2 ^ f.exponent x) : ℤ) * 2 ^ f.exponent x
  if x < 0 then -magnitude else magnitude

/-- The number has the precision of the format. -/
def IsNumber (x : ℚ) : Prop :=
  ∃ m e : ℤ, |m| ≤ 2 ^ f.precision ∧ f.minExponent ≤ e ∧ x = m * 2 ^ e

variable {f}

theorem abs_lt_zpow (x : ℚ) : |x| < (2 : ℚ) ^ (f.precision + f.exponent x) := by
  refine (Int.lt_zpow_succ_log_self one_lt_two |x|).trans_le ?_
  rw [Nat.cast_ofNat]
  refine zpow_le_zpow_right₀ one_le_two ?_
  have hle := le_max_left (Int.log 2 |x| + 1 - f.precision) f.minExponent
  unfold exponent
  omega

/-- Above the smallest exponent all digits are in use. -/
theorem zpow_le_abs {x : ℚ} (hx : x ≠ 0) (h : f.minExponent < f.exponent x) :
    (2 : ℚ) ^ (f.precision - 1 + f.exponent x) ≤ |x| := by
  have hlog := Int.zpow_log_le_self one_lt_two (abs_pos.mpr hx)
  have hexponent : f.precision - 1 + f.exponent x = Int.log 2 |x| := by
    unfold exponent at h ⊢
    omega
  rwa [Nat.cast_ofNat, ← hexponent] at hlog

theorem minExponent_le (x : ℚ) : f.minExponent ≤ f.exponent x :=
  le_max_right _ _

theorem exponent_mono {x y : ℚ} (hx : x ≠ 0) (h : |x| ≤ |y|) :
    f.exponent x ≤ f.exponent y := by
  have hlog := Int.log_mono_right (b := 2) (abs_pos.mpr hx) h
  exact max_le_max (by omega) le_rfl

/-! ## Numbers -/

theorem isNumber_of_onGrid {e : ℤ} {x : ℚ} (hx : OnGrid e x) (he : f.minExponent ≤ e)
    (hle : |x| ≤ 2 ^ f.precision * 2 ^ e) : f.IsNumber x := by
  obtain ⟨m, rfl⟩ := hx
  refine ⟨m, e, ?_, he, rfl⟩
  have hpower : (0 : ℚ) < 2 ^ e := by positivity
  rw [abs_mul, abs_of_pos hpower, mul_le_mul_iff_left₀ hpower] at hle
  exact_mod_cast hle

/-- A number is a multiple of its last digit. -/
theorem IsNumber.onGrid_exponent {x : ℚ} (h : f.IsNumber x) :
    OnGrid (f.exponent x) x := by
  obtain ⟨m, e, hm, he, rfl⟩ := h
  generalize hx : (m : ℚ) * 2 ^ e = x
  have hgrid : OnGrid e x := ⟨m, hx.symm⟩
  rcases le_or_gt (f.exponent x) e with hle | hlt
  · exact hgrid.of_le hle
  rcases eq_or_ne x 0 with rfl | hzero
  · exact ⟨0, by simp⟩
  -- all digits of the mantissa are in use, so it is a power of two
  have hpower : (0 : ℚ) < 2 ^ e := by positivity
  have hlarge : (2 : ℚ) ^ (f.precision - 1 + f.exponent x - e) ≤ |(m : ℚ)| := by
    have habs := zpow_le_abs hzero (he.trans_lt hlt)
    rw [← hx, abs_mul, abs_of_pos hpower, hx] at habs
    rw [zpow_sub₀ two_ne_zero, div_le_iff₀ hpower]
    exact habs
  have hsmall : |(m : ℚ)| ≤ 2 ^ (f.precision : ℤ) := by
    rw [zpow_natCast]
    exact_mod_cast hm
  have hexponent : f.precision - 1 + f.exponent x - e = f.precision := by
    have hle := (zpow_le_zpow_iff_right₀ (one_lt_two (α := ℚ))).mp (hlarge.trans hsmall)
    omega
  rw [hexponent] at hlarge
  have habs : OnGrid (f.exponent x) |x| := by
    have hpos := f.precision_pos
    refine ⟨2 ^ (f.precision - 1), ?_⟩
    rw [← hx, abs_mul, abs_of_pos hpower, hx, le_antisymm hsmall hlarge]
    push_cast
    rw [← zpow_natCast, ← zpow_add₀ two_ne_zero, ← zpow_add₀ two_ne_zero]
    congr 1
    omega
  rcases abs_choice x with h | h
  · rwa [h] at habs
  · rw [h] at habs
    simpa using habs.neg

/-- A number is on the grid of every number that is not larger. -/
theorem IsNumber.onGrid_of_le {x y : ℚ} (hy : f.IsNumber y) (hx : 0 < x) (hle : x ≤ y) :
    OnGrid (f.exponent x) y := by
  refine hy.onGrid_exponent.of_le (exponent_mono hx.ne' ?_)
  rwa [abs_of_pos hx, abs_of_pos (hx.trans_le hle)]

/-! ## Rounding -/

theorem round_of_nonneg {x : ℚ} (hx : 0 ≤ x) :
    f.round x = (halfEven (x / 2 ^ f.exponent x) : ℤ) * 2 ^ f.exponent x := by
  unfold round
  rw [if_neg (not_lt.mpr hx), abs_of_nonneg hx]

theorem exponent_neg (x : ℚ) : f.exponent (-x) = f.exponent x := by
  unfold exponent
  rw [abs_neg]

theorem round_neg (x : ℚ) : f.round (-x) = -f.round x := by
  unfold round
  rw [abs_neg, exponent_neg]
  rcases lt_trichotomy x 0 with hx | rfl | hx
  · rw [if_neg (by linarith), if_pos hx, neg_neg]
  · simp [halfEven]
  · rw [if_pos (by linarith), if_neg (by linarith)]

/-- What is a number stays as it is. -/
theorem round_of_isNumber {x : ℚ} (h : f.IsNumber x) : f.round x = x := by
  have hnonneg : ∀ {y : ℚ}, 0 ≤ y → f.IsNumber y → f.round y = y := by
    intro y hy hnumber
    obtain ⟨m, hm⟩ := hnumber.onGrid_exponent
    have hpower : (2 : ℚ) ^ f.exponent y ≠ 0 := by positivity
    rw [round_of_nonneg hy, (eq_div_iff hpower).mpr hm.symm |>.symm, halfEven_intCast,
      ← hm]
  rcases le_total 0 x with hx | hx
  · exact hnonneg hx h
  · obtain ⟨m, e, hm, he, rfl⟩ := h
    have hneg := hnonneg (y := -(m * 2 ^ e)) (by linarith)
      ⟨-m, e, by rwa [abs_neg], he, by push_cast; ring⟩
    rw [round_neg] at hneg
    exact neg_injective hneg

theorem isNumber_round (x : ℚ) : f.IsNumber (f.round x) := by
  have hnonneg : ∀ {y : ℚ}, 0 ≤ y → f.IsNumber (f.round y) := by
    intro y hy
    rw [round_of_nonneg hy]
    refine ⟨_, _, ?_, minExponent_le y, rfl⟩
    have hpower : (0 : ℚ) < 2 ^ f.exponent y := by positivity
    have hlt := abs_lt_zpow (f := f) y
    rw [zpow_add₀ two_ne_zero, zpow_natCast, ← div_lt_iff₀ hpower, abs_of_nonneg hy] at hlt
    have hfloor : ⌊y / 2 ^ f.exponent y⌋ < 2 ^ f.precision :=
      Int.floor_lt.mpr (by exact_mod_cast hlt)
    have hle := halfEven_le (y / 2 ^ f.exponent y)
    rw [abs_of_nonneg (halfEven_nonneg (div_nonneg hy hpower.le))]
    omega
  rcases le_total 0 x with hx | hx
  · exact hnonneg hx
  · obtain ⟨m, e, hm, he, hvalue⟩ := hnonneg (y := -x) (by linarith)
    rw [round_neg] at hvalue
    exact ⟨-m, e, by rwa [abs_neg], he, by push_cast; linarith⟩

theorem round_nonneg {x : ℚ} (hx : 0 ≤ x) : 0 ≤ f.round x := by
  rw [round_of_nonneg hx]
  have hpower : (0 : ℚ) < 2 ^ f.exponent x := by positivity
  have hdigits : (0 : ℚ) ≤ halfEven (x / 2 ^ f.exponent x) := by
    exact_mod_cast halfEven_nonneg (div_nonneg hx hpower.le)
  positivity

/-- The rounded value stays within the powers of two around it. -/
theorem round_le_zpow {x : ℚ} (hx : 0 ≤ x) :
    f.round x ≤ 2 ^ (f.precision + f.exponent x) := by
  obtain ⟨m, e, hm, he, hvalue⟩ := isNumber_round (f := f) x
  have hpower : (0 : ℚ) < 2 ^ f.exponent x := by positivity
  have hlt := abs_lt_zpow (f := f) x
  rw [zpow_add₀ two_ne_zero, zpow_natCast, ← div_lt_iff₀ hpower, abs_of_nonneg hx] at hlt
  have hfloor : ⌊x / 2 ^ f.exponent x⌋ < 2 ^ f.precision :=
    Int.floor_lt.mpr (by exact_mod_cast hlt)
  have hle := halfEven_le (x / 2 ^ f.exponent x)
  have hcast : (halfEven (x / 2 ^ f.exponent x) : ℚ) ≤ 2 ^ f.precision := by
    exact_mod_cast hle.trans hfloor
  rw [round_of_nonneg hx, zpow_add₀ two_ne_zero, zpow_natCast]
  exact mul_le_mul_of_nonneg_right hcast hpower.le

theorem zpow_le_round {x : ℚ} (hx : 0 < x) (h : f.minExponent < f.exponent x) :
    (2 : ℚ) ^ (f.precision - 1 + f.exponent x) ≤ f.round x := by
  have hpos := f.precision_pos
  have hpower : (0 : ℚ) < 2 ^ f.exponent x := by positivity
  have habs := zpow_le_abs hx.ne' h
  have hnat : ((f.precision : ℤ) - 1) = (f.precision - 1 : ℕ) := by omega
  rw [abs_of_pos hx, zpow_add₀ two_ne_zero, ← le_div_iff₀ hpower, hnat, zpow_natCast]
    at habs
  have hfloor : (2 : ℤ) ^ (f.precision - 1) ≤ halfEven (x / 2 ^ f.exponent x) :=
    (Int.le_floor.mpr (by exact_mod_cast habs)).trans (floor_le_halfEven _)
  have hcast : (2 : ℚ) ^ (f.precision - 1) ≤ halfEven (x / 2 ^ f.exponent x) := by
    exact_mod_cast hfloor
  rw [round_of_nonneg hx.le, zpow_add₀ two_ne_zero, hnat, zpow_natCast]
  exact mul_le_mul_of_nonneg_right hcast hpower.le

theorem round_mono_of_pos {x y : ℚ} (hx : 0 < x) (h : x ≤ y) : f.round x ≤ f.round y := by
  have hy := hx.trans_le h
  have hexponent : f.exponent x ≤ f.exponent y := by
    refine exponent_mono hx.ne' ?_
    rwa [abs_of_pos hx, abs_of_pos hy]
  rcases hexponent.lt_or_eq with hlt | heq
  · -- a power of two lies between them
    refine (round_le_zpow hx.le).trans (le_trans ?_
      (zpow_le_round hy ((minExponent_le x).trans_lt hlt)))
    refine zpow_le_zpow_right₀ one_le_two ?_
    omega
  · have hpower : (0 : ℚ) < 2 ^ f.exponent y := by positivity
    rw [round_of_nonneg hx.le, round_of_nonneg hy.le, heq]
    refine mul_le_mul_of_nonneg_right ?_ hpower.le
    exact_mod_cast halfEven_mono (div_le_div_of_nonneg_right h hpower.le)

/-- Rounding keeps the order. -/
theorem round_mono {x y : ℚ} (h : x ≤ y) : f.round x ≤ f.round y := by
  rcases lt_or_ge 0 x with hx | hx
  · exact round_mono_of_pos hx h
  rcases lt_or_ge y 0 with hy | hy
  · have hneg := round_mono_of_pos (f := f) (x := -y) (y := -x) (by linarith) (by linarith)
    rw [round_neg, round_neg] at hneg
    linarith
  · have hleft := round_nonneg (f := f) (x := -x) (by linarith)
    rw [round_neg] at hleft
    have hright := round_nonneg (f := f) hy
    linarith

theorem round_le {x y : ℚ} (hy : f.IsNumber y) (h : x ≤ y) : f.round x ≤ y := by
  have hmono := round_mono (f := f) h
  rwa [round_of_isNumber hy] at hmono

theorem le_round {x y : ℚ} (hx : f.IsNumber x) (h : x ≤ y) : x ≤ f.round y := by
  have hmono := round_mono (f := f) h
  rwa [round_of_isNumber hx] at hmono

/-! ## Sums -/

theorem isNumber_zero : f.IsNumber 0 :=
  ⟨0, f.minExponent, by simp, le_rfl, by simp⟩

theorem isNumber_double {x : ℚ} (h : f.IsNumber x) : f.IsNumber (2 * x) := by
  obtain ⟨m, e, hm, he, rfl⟩ := h
  refine ⟨m, e + 1, hm, by omega, ?_⟩
  rw [zpow_add_one₀ two_ne_zero]
  ring

/-- What a larger number can take without rounding carries a smaller one. -/
theorem lt_round_add {x y z : ℚ} (hx : f.IsNumber x) (hpos : 0 < x) (hz : 0 < z)
    (hy : f.IsNumber y) (hle : x ≤ y) (hsum : f.IsNumber (y + z)) :
    x < f.round (x + z) := by
  have hpower : (0 : ℚ) < 2 ^ f.exponent x := by positivity
  have hgrid : OnGrid (f.exponent x) z := by
    have hdifference := (hsum.onGrid_of_le hpos (by linarith)).sub (hy.onGrid_of_le hpos hle)
    rwa [add_sub_cancel_left] at hdifference
  -- the next number on the grid is not above the sum
  have hstep := hgrid.two_zpow_le hz
  have hnext : f.IsNumber (x + 2 ^ f.exponent x) := by
    refine isNumber_of_onGrid (hx.onGrid_exponent.add ⟨1, by simp⟩) (minExponent_le x) ?_
    obtain ⟨m, hm⟩ := hx.onGrid_exponent
    have hlt := abs_lt_zpow (f := f) x
    rw [zpow_add₀ two_ne_zero, zpow_natCast, abs_of_pos hpos] at hlt
    nth_rewrite 1 [hm] at hlt
    have hdigits : m < 2 ^ f.precision := by
      have hcast := lt_of_mul_lt_mul_right hlt hpower.le
      exact_mod_cast hcast
    have hcast : (m : ℚ) + 1 ≤ 2 ^ f.precision := by exact_mod_cast hdigits
    have hsame : x + 2 ^ f.exponent x = (m + 1) * 2 ^ f.exponent x := by
      rw [add_mul, one_mul, ← hm]
    rw [abs_of_pos (by linarith), hsame]
    exact mul_le_mul_of_nonneg_right hcast hpower.le
  exact (lt_add_of_pos_right x hpower).trans_le (le_round hnext (by linarith))

/-! ## Arithmetic -/

variable (f)

/-- The numbers of the format. -/
abbrev Number := {x : ℚ // f.IsNumber x}

variable {f}

namespace Number

/-- The nearest number. -/
def ofRat (x : ℚ) : f.Number := ⟨f.round x, isNumber_round x⟩

instance : Zero f.Number := ⟨⟨0, isNumber_zero⟩⟩

instance : Add f.Number := ⟨fun x y => ofRat (x.val + y.val)⟩

instance : Sub f.Number := ⟨fun x y => ofRat (x.val - y.val)⟩

instance : Mul f.Number := ⟨fun x y => ofRat (x.val * y.val)⟩

instance : Div f.Number := ⟨fun x y => ofRat (x.val / y.val)⟩

instance : Max f.Number := Subtype.instMax

instance : Min f.Number := Subtype.instMin

theorem val_ofRat {x : ℚ} (h : f.IsNumber x) : (ofRat x : f.Number).val = x :=
  round_of_isNumber h

@[simp] theorem val_zero : (0 : f.Number).val = 0 := rfl

theorem coe_add (x y : f.Number) : (x + y).val = f.round (x.val + y.val) := rfl

theorem val_add {x y : f.Number} (h : f.IsNumber (x.val + y.val)) :
    (x + y).val = x.val + y.val := round_of_isNumber h

theorem val_sub {x y : f.Number} (h : f.IsNumber (x.val - y.val)) :
    (x - y).val = x.val - y.val := round_of_isNumber h

protected theorem sub_zero (x : f.Number) : x - 0 = x := by
  have hnumber : f.IsNumber (x.val - (0 : f.Number).val) := by
    rw [val_zero, sub_zero]
    exact x.property
  exact Subtype.ext ((val_sub hnumber).trans (sub_zero x.val))

theorem val_max (x y : f.Number) : (max x y).val = max x.val y.val := by
  rcases le_total x y with h | h
  · rw [max_eq_right h, max_eq_right (Subtype.coe_le_coe.mpr h)]
  · rw [max_eq_left h, max_eq_left (Subtype.coe_le_coe.mpr h)]

theorem val_min (x y : f.Number) : (min x y).val = min x.val y.val := by
  rcases le_total x y with h | h
  · rw [min_eq_left h, min_eq_left (Subtype.coe_le_coe.mpr h)]
  · rw [min_eq_right h, min_eq_right (Subtype.coe_le_coe.mpr h)]

/-- Numbers that grow leave every bound behind: they are at least one step of the
grid of the first positive one apart. -/
theorem exists_lt_of_increasing {c : ℕ → f.Number} (hnonneg : 0 ≤ c 0)
    (h : ∀ k, c k < c (k + 1)) (bound : ℚ) : ∃ k, bound < (c k).val := by
  have hpos : 0 < (c 1).val := lt_of_le_of_lt hnonneg (h 0)
  have hmono : ∀ k, (c 1).val ≤ (c (k + 1)).val := by
    intro k
    induction k with
    | zero => exact le_rfl
    | succ k ih => exact ih.trans (h (k + 1)).le
  have hpower : (0 : ℚ) < 2 ^ f.exponent (c 1).val := by positivity
  have hstep : ∀ k, (c (k + 1)).val + 2 ^ f.exponent (c 1).val ≤ (c (k + 2)).val := by
    intro k
    have hgrid := ((c (k + 2)).property.onGrid_of_le hpos (hmono (k + 1))).sub
      ((c (k + 1)).property.onGrid_of_le hpos (hmono k))
    have hlt : (c (k + 1)).val < (c (k + 2)).val := h (k + 1)
    have hle := hgrid.two_zpow_le (sub_pos.mpr hlt)
    linarith
  have hgrows : ∀ k : ℕ, (k : ℚ) * 2 ^ f.exponent (c 1).val ≤ (c (k + 1)).val := by
    intro k
    induction k with
    | zero =>
        rw [Nat.cast_zero, zero_mul]
        exact hpos.le
    | succ k ih =>
        have hnext := hstep k
        push_cast
        linarith
  obtain ⟨k, hk⟩ := exists_nat_gt (bound / 2 ^ f.exponent (c 1).val)
  exact ⟨k + 1, ((div_lt_iff₀ hpower).mp hk).trans_le (hgrows k)⟩

/-! ## Sums -/

/-- The sum in the order of the list. -/
def sum (parts : List f.Number) : f.Number := parts.foldl (· + ·) 0

theorem sum_append_singleton (parts : List f.Number) (part : f.Number) :
    sum (parts ++ [part]) = sum parts + part := by
  unfold sum
  rw [List.foldl_append, List.foldl_cons, List.foldl_nil]

/-- The sum without rounding. -/
def exactSum (parts : List f.Number) : ℚ := (parts.map Subtype.val).sum

theorem exactSum_append_singleton (parts : List f.Number) (part : f.Number) :
    exactSum (parts ++ [part]) = exactSum parts + part.val := by
  simp [exactSum]

/-- No beginning of the list has a sum that must be rounded. -/
def SumsAreNumbers (parts : List f.Number) : Prop :=
  ∀ before, before <+: parts → f.IsNumber (exactSum before)

theorem SumsAreNumbers.of_append {parts later : List f.Number}
    (h : SumsAreNumbers (parts ++ later)) : SumsAreNumbers parts :=
  fun before hbefore => h before (hbefore.trans (List.prefix_append parts later))

theorem val_sum {parts : List f.Number} (h : SumsAreNumbers parts) :
    (sum parts).val = exactSum parts := by
  induction parts using List.reverseRecOn with
  | nil => rfl
  | append_singleton before part ih =>
      have hwhole := h _ List.prefix_rfl
      rw [exactSum_append_singleton, ← ih h.of_append] at hwhole
      rw [sum_append_singleton, val_add hwhole, exactSum_append_singleton, ih h.of_append]

theorem exactSum_nonneg {parts : List f.Number} (h : ∀ part ∈ parts, 0 ≤ part) :
    0 ≤ exactSum parts := by
  refine List.sum_nonneg ?_
  intro value hvalue
  obtain ⟨part, hpart, rfl⟩ := List.mem_map.mp hvalue
  exact h part hpart

theorem le_exactSum {parts : List f.Number} (h : ∀ part ∈ parts, 0 ≤ part)
    {part : f.Number} (hpart : part ∈ parts) : part.val ≤ exactSum parts := by
  refine List.single_le_sum ?_ _ (List.mem_map_of_mem hpart)
  intro value hvalue
  obtain ⟨other, hother, rfl⟩ := List.mem_map.mp hvalue
  exact h other hother

/-! ## Capped parts -/

/-- Each part cut off at the cap. -/
def capped (cap : f.Number) (parts : List f.Number) : List f.Number :=
  parts.map fun part => min part cap

/-- Parts below the cap are not cut off. -/
theorem capped_eq_self {cap : f.Number} {parts : List f.Number}
    (h : ∀ part ∈ parts, part ≤ cap) : capped cap parts = parts := by
  unfold capped
  rw [List.map_congr_left (fun part hpart => min_eq_left (h part hpart)), List.map_id']

theorem sum_capped_append (cap : f.Number) (parts : List f.Number) (part : f.Number) :
    sum (capped cap (parts ++ [part])) = sum (capped cap parts) + min part cap := by
  unfold capped
  rw [List.map_append, List.map_singleton, sum_append_singleton]

/-- A cap of zero leaves nothing. -/
theorem sum_capped_zero {parts : List f.Number} (h : ∀ part ∈ parts, 0 ≤ part) :
    (sum (capped 0 parts)).val = 0 := by
  induction parts using List.reverseRecOn with
  | nil => rfl
  | append_singleton before part ih =>
      have hbefore := ih fun other hother => h other (List.mem_append_left _ hother)
      have hpart : min part 0 = 0 := min_eq_right (h part (by simp))
      have hsum : (sum (capped 0 before)).val + (0 : f.Number).val = 0 := by
        rw [hbefore, val_zero, add_zero]
      rw [sum_capped_append, hpart, val_add (hsum ▸ isNumber_zero), hsum]

/-- What the sum of the capped parts comes to: below the cap it is the sum of the
parts, and beyond it exceeds the cap unless one part is the whole. -/
def CappedSum (cap : f.Number) (parts : List f.Number) : Prop :=
  (exactSum parts ≤ cap.val ∧ (sum (capped cap parts)).val = exactSum parts) ∨
    (cap.val < exactSum parts ∧ cap.val ≤ (sum (capped cap parts)).val ∧
      ((sum (capped cap parts)).val = cap.val ↔ ∃ part ∈ parts, part.val = exactSum parts))

/-- No part is the whole sum once there is something beside the largest. -/
theorem not_whole_of_pos {parts : List f.Number} (h : ∀ part ∈ parts, 0 ≤ part)
    (last : f.Number) (hlast : 0 < last.val) (hsum : 0 < exactSum parts) :
    ¬ ∃ part ∈ parts ++ [last], part.val = exactSum (parts ++ [last]) := by
  rintro ⟨part, hpart, hwhole⟩
  rw [exactSum_append_singleton] at hwhole
  rcases List.mem_append.mp hpart with hbefore | hsame
  · have hle := le_exactSum h hbefore
    linarith
  · obtain rfl := List.mem_singleton.mp hsame
    linarith

section Step

variable {cap part : f.Number} {before : List f.Number} (hcap : 0 < cap.val)
  (hbefore : ∀ other ∈ before, 0 ≤ other) (hsums : SumsAreNumbers (before ++ [part]))

include hcap hbefore hsums

/-- One more part while the sum has stayed below the cap. -/
theorem cappedSum_append_of_le (hbelow : exactSum before ≤ cap.val)
    (hsum : (sum (capped cap before)).val = exactSum before) :
    CappedSum cap (before ++ [part]) := by
  have hnonneg := exactSum_nonneg hbefore
  have hwhole := hsums _ List.prefix_rfl
  rw [exactSum_append_singleton] at hwhole
  have hstep : (sum (capped cap (before ++ [part]))).val =
      f.round (exactSum before + min part.val cap.val) := by
    rw [sum_capped_append, ← val_min, ← hsum]
    rfl
  unfold CappedSum
  rw [hstep]
  rcases le_or_gt (exactSum before + part.val) cap.val with hle | hover
  · have hsmall : min part.val cap.val = part.val := min_eq_left (by linarith)
    rw [hsmall, round_of_isNumber hwhole, exactSum_append_singleton]
    exact Or.inl ⟨hle, rfl⟩
  right
  rcases le_or_gt part.val cap.val with hsmall | hlarge
  · have hnone := not_whole_of_pos hbefore part (by linarith) (by linarith)
    rw [min_eq_left hsmall, round_of_isNumber hwhole]
    rw [exactSum_append_singleton] at hnone ⊢
    exact ⟨hover, hover.le, iff_of_false hover.ne' hnone⟩
  rw [min_eq_right hlarge.le]
  rcases hnonneg.eq_or_lt with hzero | hpos
  · -- the new part is all there is
    rw [← hzero, zero_add, round_of_isNumber cap.property, exactSum_append_singleton,
      ← hzero, zero_add]
    exact ⟨hlarge, le_rfl, iff_of_true rfl ⟨part, by simp, rfl⟩⟩
  · have hnone := not_whole_of_pos hbefore part (hcap.trans hlarge) hpos
    rw [add_comm] at hwhole
    have hgrows := lt_round_add cap.property hcap hpos part.property hlarge.le hwhole
    rw [add_comm (exactSum before)]
    rw [exactSum_append_singleton] at hnone ⊢
    exact ⟨hover, hgrows.le, iff_of_false hgrows.ne' hnone⟩

/-- One more part behind the cap: from now on every part shows. -/
theorem cappedSum_append_of_lt (hpart : 0 ≤ part.val)
    (hover : cap.val < exactSum before) (hsum : cap.val ≤ (sum (capped cap before)).val)
    (hiff : (sum (capped cap before)).val = cap.val ↔
      ∃ part ∈ before, part.val = exactSum before) :
    CappedSum cap (before ++ [part]) := by
  have hnumber := hsums.of_append before List.prefix_rfl
  have hwhole := hsums _ List.prefix_rfl
  rw [exactSum_append_singleton] at hwhole
  have hstep : (sum (capped cap (before ++ [part]))).val =
      f.round ((sum (capped cap before)).val + min part.val cap.val) := by
    rw [sum_capped_append, ← val_min]
    rfl
  unfold CappedSum
  rw [hstep, exactSum_append_singleton]
  refine Or.inr ⟨by linarith, ?_⟩
  -- a part of nothing changes neither side; any other keeps the rounded sum past the cap
  rcases hpart.eq_or_lt with hzero | hpos
  · have hsame : (∃ other ∈ before ++ [part], other.val = exactSum before) ↔
        ∃ other ∈ before, other.val = exactSum before := by
      constructor
      · rintro ⟨other, hother, hvalue⟩
        rcases List.mem_append.mp hother with hmem | hlast
        · exact ⟨other, hmem, hvalue⟩
        · obtain rfl := List.mem_singleton.mp hlast
          linarith
      · rintro ⟨other, hother, hvalue⟩
        exact ⟨other, List.mem_append_left _ hother, hvalue⟩
    rw [← hzero, min_eq_left hcap.le, add_zero, add_zero,
      round_of_isNumber (sum (capped cap before)).property, hsame]
    exact ⟨hsum, hiff⟩
  · have hnone := not_whole_of_pos hbefore part hpos (hcap.trans hover)
    have hgrows : cap.val < f.round ((sum (capped cap before)).val +
        min part.val cap.val) := by
      rcases hsum.lt_or_eq with hlt | heq
      · refine hlt.trans_le (le_round (Subtype.property _) ?_)
        exact le_add_of_nonneg_right (le_min hpart hcap.le)
      rw [← heq]
      rcases le_or_gt part.val cap.val with hsmall | hlarge
      · rw [min_eq_left hsmall]
        exact lt_round_add cap.property hcap hpos hnumber hover.le hwhole
      · rw [min_eq_right hlarge.le, ← two_mul,
          round_of_isNumber (isNumber_double cap.property)]
        linarith
    rw [exactSum_append_singleton] at hnone
    exact ⟨hgrows.le, iff_of_false hgrows.ne' hnone⟩

end Step

theorem cappedSum {cap : f.Number} (hcap : 0 < cap.val) {parts : List f.Number}
    (hparts : ∀ part ∈ parts, 0 ≤ part) (hsums : SumsAreNumbers parts) :
    CappedSum cap parts := by
  induction parts using List.reverseRecOn with
  | nil => exact Or.inl ⟨hcap.le, rfl⟩
  | append_singleton before part ih =>
      have hbefore : ∀ other ∈ before, 0 ≤ other :=
        fun other hother => hparts other (List.mem_append_left _ hother)
      have hpart : 0 ≤ part.val := hparts part (by simp)
      rcases ih hbefore hsums.of_append with ⟨hbelow, hsum⟩ | ⟨hover, hsum, hiff⟩
      · exact cappedSum_append_of_le hcap hbefore hsums hbelow hsum
      · exact cappedSum_append_of_lt hcap hbefore hsums hpart hover hsum hiff

/-- Capping the parts comes to capping the sum exactly when the sum stays below
the cap, the cap is zero, or one part is all of the sum. -/
theorem sum_capped_iff {cap : f.Number} (hcap : 0 ≤ cap) {parts : List f.Number}
    (hparts : ∀ part ∈ parts, 0 ≤ part) (hsums : SumsAreNumbers parts) :
    (sum (capped cap parts)).val = min cap.val (exactSum parts) ↔
      exactSum parts ≤ cap.val ∨ cap = 0 ∨ ∃ part ∈ parts, part.val = exactSum parts := by
  rcases hcap.eq_or_lt with rfl | hpos
  · rw [sum_capped_zero hparts, val_zero, min_eq_left (exactSum_nonneg hparts)]
    exact iff_of_true rfl (Or.inr (Or.inl rfl))
  rcases cappedSum hpos hparts hsums with ⟨hbelow, hsum⟩ | ⟨hover, -, hiff⟩
  · rw [hsum, min_eq_right hbelow]
    exact iff_of_true rfl (Or.inl hbelow)
  · rw [min_eq_left hover.le, hiff, or_iff_right (not_le.mpr hover), or_iff_right hpos.ne']

end Number

end Format

end Library
end Paystream
