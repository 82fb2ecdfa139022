import Mathlib.Data.Int.Log
import Mathlib.Data.Rat.Floor
import Mathlib.Tactic

/-!
# Rounding to a binary floating-point format

Finite floating-point values are treated as exact rationals. A format fixes
the number of significant bits and the exponent of its least positive number;
`BinaryFormat.round` rounds to nearest with ties to even. The two results
the readers need are that rounding gives a number of the format, and that such
a number is left alone, so integers up to `2 ^ precision` and every widened or
narrowed value survive conversion. A sum rounded at every step is exact while it
stays within the precision.
-/

namespace QioParquet
namespace Lib

section BinaryFormat

/-- A binary floating-point format without its overflow threshold. -/
structure BinaryFormat where
  precision : Nat
  minExp : ℤ
deriving DecidableEq

/-- Nearest integer, ties to even. -/
def roundHalfEven (q : ℚ) : ℤ :=
  if q - ⌊q⌋ < 1 / 2 then
    ⌊q⌋
  else if 1 / 2 < q - ⌊q⌋ then
    ⌊q⌋ + 1
  else if ⌊q⌋ % 2 = 0 then
    ⌊q⌋
  else
    ⌊q⌋ + 1

@[simp] theorem roundHalfEven_intCast
    (z : ℤ) :
    roundHalfEven (z : ℚ) = z := by
  simp [roundHalfEven]

/-- Rounding to an integer moves by at most one half. -/
theorem abs_roundHalfEven_sub_le
    (q : ℚ) :
    |(roundHalfEven q : ℚ) - q| ≤ 1 / 2 := by
  have hfloor := Int.floor_le q
  have hfloor' := Int.lt_floor_add_one q
  rw [abs_le]
  unfold roundHalfEven
  split_ifs <;> push_cast <;> constructor <;> linarith

/-- Rounding to an integer keeps an integer bound. -/
theorem abs_roundHalfEven_le
    {q : ℚ} {n : ℤ}
    (h : |q| ≤ n) :
    |roundHalfEven q| ≤ n := by
  obtain ⟨hlower, hupper⟩ := abs_le.mp (abs_roundHalfEven_sub_le q)
  rw [abs_le] at h ⊢
  constructor
  · have hlt : ((-n - 1 : ℤ) : ℚ) < roundHalfEven q := by
      push_cast
      linarith [h.1]
    have := Int.cast_lt.mp hlt
    omega
  · have hlt : (roundHalfEven q : ℚ) < ((n + 1 : ℤ) : ℚ) := by
      push_cast
      linarith [h.2]
    have := Int.cast_lt.mp hlt
    omega

namespace BinaryFormat

/-- Exponent of the last place of a number of the magnitude of `q`. -/
def ulpExp (F : BinaryFormat) (q : ℚ) : ℤ :=
  max (Int.log 2 |q| + 1 - F.precision) F.minExp

/-- Round to the format, to nearest with ties to even. -/
def round (F : BinaryFormat) (q : ℚ) : ℚ :=
  roundHalfEven (q / 2 ^ F.ulpExp q) * 2 ^ F.ulpExp q

/-- Rounding moves by at most half a last place. -/
theorem abs_round_sub_le
    (F : BinaryFormat) (q : ℚ) :
    |F.round q - q| ≤ 2 ^ F.ulpExp q / 2 := by
  have hpow : (0 : ℚ) < 2 ^ F.ulpExp q := by
    positivity
  have hsplit : F.round q - q =
      (roundHalfEven (q / 2 ^ F.ulpExp q) - q / 2 ^ F.ulpExp q) *
        2 ^ F.ulpExp q := by
    rw [round, sub_mul, div_mul_cancel₀ _ hpow.ne']
  have hhalf := abs_roundHalfEven_sub_le (q / 2 ^ F.ulpExp q)
  rw [hsplit, abs_mul, abs_of_pos hpow]
  linarith [mul_le_mul_of_nonneg_right hhalf hpow.le]

theorem ulpExp_le
    {F : BinaryFormat} {q : ℚ} {k : ℤ}
    (hq : q ≠ 0)
    (hlt : |q| < 2 ^ k)
    (hexp : F.minExp ≤ k - F.precision) :
    F.ulpExp q ≤ k - F.precision := by
  have hlog : Int.log 2 |q| < k := by
    rw [← Int.lt_zpow_iff_log_lt (by norm_num) (abs_pos.mpr hq)]
    exact_mod_cast hlt
  refine max_le ?_ hexp
  omega

/-- The numbers the format holds exactly. -/
def Representable (F : BinaryFormat) (q : ℚ) : Prop :=
  ∃ m e : ℤ, q = m * 2 ^ e ∧ |m| < 2 ^ F.precision ∧ F.minExp ≤ e

theorem ulpExp_le_of_representable
    {F : BinaryFormat} {m e : ℤ}
    (hm : m ≠ 0)
    (hlt : |m| < 2 ^ F.precision)
    (he : F.minExp ≤ e) :
    F.ulpExp ((m : ℚ) * 2 ^ e) ≤ e := by
  have hmpos : (0 : ℚ) < |(m : ℚ)| := by
    simpa using hm
  have hpow : (0 : ℚ) < 2 ^ e := by
    positivity
  have habs : |(m : ℚ) * 2 ^ e| = |(m : ℚ)| * 2 ^ e := by
    rw [abs_mul, abs_of_pos hpow]
  have hbound : |(m : ℚ) * 2 ^ e| < ((2 : ℕ) : ℚ) ^ (F.precision + e) := by
    have hcast : |(m : ℚ)| < 2 ^ F.precision := by
      exact_mod_cast hlt
    rw [habs, Nat.cast_ofNat, zpow_add₀ (by norm_num : (2 : ℚ) ≠ 0),
      zpow_natCast]
    exact mul_lt_mul_of_pos_right hcast hpow
  have hpos : (0 : ℚ) < |(m : ℚ) * 2 ^ e| := by
    rw [habs]
    positivity
  have hlog : Int.log 2 |(m : ℚ) * 2 ^ e| < F.precision + e :=
    (Int.lt_zpow_iff_log_lt (by norm_num) hpos).mp hbound
  refine max_le ?_ he
  omega

/-- Rounding at a place that divides the number exactly gives it back. -/
theorem roundHalfEven_scale
    {m e u : ℤ}
    (hle : u ≤ e) :
    (roundHalfEven ((m : ℚ) * 2 ^ e / 2 ^ u) : ℚ) * 2 ^ u =
      (m : ℚ) * 2 ^ e := by
  obtain ⟨k, rfl⟩ : ∃ k : ℕ, e = u + k :=
    ⟨(e - u).toNat, by omega⟩
  have hpow : (2 : ℚ) ^ u ≠ 0 := by
    positivity
  have hscaled :
      (m : ℚ) * 2 ^ (u + (k : ℤ)) / 2 ^ u = ((m * 2 ^ k : ℤ) : ℚ) := by
    rw [zpow_add₀ (by norm_num : (2 : ℚ) ≠ 0), zpow_natCast]
    push_cast
    field_simp
  rw [hscaled, roundHalfEven_intCast, ← hscaled, div_mul_cancel₀ _ hpow]

/-- Rounding leaves a representable number alone. -/
theorem round_of_representable
    {F : BinaryFormat} {q : ℚ}
    (h : F.Representable q) :
    F.round q = q := by
  obtain ⟨m, e, rfl, hlt, he⟩ := h
  by_cases hm : m = 0
  · subst hm
    have hzero : roundHalfEven 0 = 0 := by
      simpa using roundHalfEven_intCast 0
    simp [round, hzero]
  · exact roundHalfEven_scale (ulpExp_le_of_representable hm hlt he)

/-- A full-width significand is a shifted one. -/
theorem representable_scaled
    {F : BinaryFormat} {m e : ℤ}
    (hprec : 0 < F.precision)
    (hle : |m| ≤ 2 ^ F.precision)
    (he : F.minExp ≤ e) :
    F.Representable ((m : ℚ) * 2 ^ e) := by
  rcases lt_or_eq_of_le hle with hlt | heq
  · exact ⟨m, e, rfl, hlt, he⟩
  · have hone : (1 : ℤ) < 2 ^ F.precision :=
      one_lt_pow₀ (by norm_num) (by omega)
    have hcast : ((2 ^ F.precision : ℤ) : ℚ) * 2 ^ e =
        2 ^ ((F.precision : ℤ) + e) := by
      rw [zpow_add₀ (by norm_num : (2 : ℚ) ≠ 0), zpow_natCast]
      push_cast
      rfl
    rcases abs_choice m with hm | hm
    · refine ⟨1, F.precision + e, ?_, by simpa using hone, by omega⟩
      rw [← hcast, ← heq, hm, Int.cast_one, one_mul]
    · refine ⟨-1, F.precision + e, ?_, by simpa using hone, by omega⟩
      rw [← hcast, ← heq, hm]
      push_cast
      ring

/-- A format holds every integer up to `2 ^ precision`. -/
theorem representable_intCast
    {F : BinaryFormat} {z : ℤ}
    (hexp : F.minExp ≤ 0)
    (hle : |z| ≤ 2 ^ F.precision)
    (hprec : 0 < F.precision) :
    F.Representable (z : ℚ) := by
  simpa using representable_scaled (e := 0) hprec hle hexp

theorem round_intCast
    {F : BinaryFormat} {z : ℤ}
    (hexp : F.minExp ≤ 0)
    (hle : |z| ≤ 2 ^ F.precision)
    (hprec : 0 < F.precision) :
    F.round (z : ℚ) = z :=
  round_of_representable (representable_intCast hexp hle hprec)

/-- Rounding gives a number of the format. -/
theorem representable_round
    {F : BinaryFormat}
    (hprec : 0 < F.precision)
    (q : ℚ) :
    F.Representable (F.round q) := by
  refine representable_scaled hprec ?_ (le_max_right _ _)
  have hpow : (0 : ℚ) < 2 ^ F.ulpExp q := by
    positivity
  apply abs_roundHalfEven_le
  rw [abs_div, abs_of_pos hpow, div_le_iff₀ hpow]
  have hlog : |q| < 2 ^ (Int.log 2 |q| + 1) := by
    simpa using Int.lt_zpow_succ_log_self (b := 2) (by norm_num) |q|
  have hexp : Int.log 2 |q| + 1 ≤ F.precision + F.ulpExp q := by
    have := le_max_left (Int.log 2 |q| + 1 - F.precision) F.minExp
    rw [ulpExp]
    omega
  calc |q| ≤ 2 ^ (Int.log 2 |q| + 1) := hlog.le
    _ ≤ 2 ^ ((F.precision : ℤ) + F.ulpExp q) :=
        zpow_le_zpow_right₀ (by norm_num) hexp
    _ = ((2 ^ F.precision : ℤ) : ℚ) * 2 ^ F.ulpExp q := by
        rw [zpow_add₀ (by norm_num : (2 : ℚ) ≠ 0), zpow_natCast]
        push_cast
        rfl

/-- An integer other than zero does not round to zero. -/
theorem round_intCast_ne_zero
    {F : BinaryFormat} {z : ℤ}
    (hexp : F.minExp ≤ 0)
    (hprec : 0 < F.precision)
    (hz : z ≠ 0) :
    F.round (z : ℚ) ≠ 0 := by
  intro hzero
  have hq : (0 : ℚ) < |(z : ℚ)| := abs_pos.mpr (Int.cast_ne_zero.mpr hz)
  have hone : (1 : ℚ) ≤ |(z : ℚ)| := by
    exact_mod_cast Int.one_le_abs hz
  -- The last place of a number is not above the number itself.
  have hulp : (2 : ℚ) ^ F.ulpExp z ≤ |(z : ℚ)| := by
    rcases max_choice (Int.log 2 |(z : ℚ)| + 1 - F.precision) F.minExp with h | h
    · calc (2 : ℚ) ^ F.ulpExp z ≤ 2 ^ Int.log 2 |(z : ℚ)| := by
            rw [ulpExp, h]
            exact zpow_le_zpow_right₀ (by norm_num) (by omega)
        _ ≤ |(z : ℚ)| := by
            simpa using Int.zpow_log_le_self (b := 2) (by norm_num) hq
    · calc (2 : ℚ) ^ F.ulpExp z ≤ 2 ^ (0 : ℤ) := by
            rw [ulpExp, h]
            exact zpow_le_zpow_right₀ (by norm_num) hexp
        _ ≤ |(z : ℚ)| := by
            simpa using hone
  have hmoved := abs_round_sub_le F (z : ℚ)
  rw [hzero, zero_sub, abs_neg] at hmoved
  linarith

/-- A running sum, rounded after every addition. -/
def sum (F : BinaryFormat) (values : List ℚ) : ℚ :=
  values.foldl (fun total value => F.round (total + value)) 0

/-- Integers that are not negative and stay within the precision are added
exactly. -/
theorem sum_intCast
    {F : BinaryFormat} {values : List ℤ}
    (hexp : F.minExp ≤ 0)
    (hprec : 0 < F.precision)
    (hpos : ∀ value ∈ values, 0 ≤ value)
    (hle : values.sum ≤ 2 ^ F.precision) :
    F.sum (values.map fun value : ℤ => (value : ℚ)) = values.sum := by
  suffices hrun : ∀ total : ℤ, 0 ≤ total →
      total + values.sum ≤ 2 ^ F.precision →
      (values.map fun value : ℤ => (value : ℚ)).foldl
        (fun total value => F.round (total + value)) total =
          ((total + values.sum : ℤ) : ℚ) by
    simpa [sum] using hrun 0 le_rfl (by simpa using hle)
  clear hle
  induction values with
  | nil =>
      simp
  | cons value values ih =>
      intro total htotal hle
      have hvalue : 0 ≤ value := hpos value (by simp)
      have hrest : ∀ value ∈ values, 0 ≤ value := fun v hv => hpos v (by simp [hv])
      have hsum : 0 ≤ values.sum := List.sum_nonneg hrest
      rw [List.sum_cons] at hle
      have hstep : F.round ((total : ℚ) + (value : ℚ)) = ((total + value : ℤ) : ℚ) := by
        rw [← Int.cast_add]
        apply round_intCast hexp _ hprec
        rw [abs_of_nonneg (by omega)]
        omega
      rw [List.map_cons, List.foldl_cons, hstep, ih hrest (total + value) (by omega) (by omega),
        List.sum_cons, add_assoc]

end BinaryFormat

end BinaryFormat

end Lib
end QioParquet
