import QioParquet.Plan.Bloom
import Mathlib.Data.List.TakeWhile
import Mathlib.Tactic

/-!
# What a Bloom filter can rule out

The reduction of an R value back to a physical value is followed for every
type and converter, and compared with the condition `BloomSafe`. Since the
filter that answers exactly for the stored rows is one without false negatives,
the condition is not only sufficient. The last section is a column of
timestamps, which R holds in seconds and the file in milliseconds.
-/

namespace QioParquet
namespace Plan

open Lib Read

section Reduction

/-- A reduced value no filter of these rows can rule out. -/
def Reduced.Safe (rows : List Row) : Reduced → Prop
  | .key value => Row.present value ∈ rows
  | .na => True
  | .undefined => False

/-- The condition for a number in a column of a numeric type. -/
def NumberStored (type : PhysicalType) (rows : List Row) (d : RDouble) : Prop :=
  match type with
  | .int32 => IntegerStored .int32 rows d
  | .int64 => IntegerStored .int64 rows d
  | .float => FloatStored rows d
  | _ => DoubleStored rows d

def isNumeric : PhysicalType → Bool
  | .int32 => true
  | .int64 => true
  | .float => true
  | .double => true
  | _ => false

variable {rows : List Row}

theorem reduceInt_safe_iff {width : Nat}
    {make : BitVec width → PhysValue Bytes} {d : RDouble}
    (hd : d ≠ .na) :
    (reduceInt make d).Safe rows ↔ IntegerStored make rows d := by
  cases d with
  | na =>
      exact absurd rfl hd
  | nan =>
      simp [reduceInt, castInt, Reduced.Safe, IntegerStored]
  | inf =>
      simp [reduceInt, castInt, Reduced.Safe, IntegerStored]
  | num q =>
      simp only [reduceInt, castInt, IntegerStored]
      by_cases h : -2 ^ (width - 1) ≤ truncate q ∧
          truncate q < 2 ^ (width - 1)
      · rw [if_pos h]
        simp [Reduced.Safe, h]
      · rw [if_neg h]
        simp only [Reduced.Safe, false_iff]
        exact fun hstored => h ⟨hstored.1, hstored.2.1⟩

/-- The reduction of an element of a numeric column. -/
theorem reduceValue_safe_iff
    {type : PhysicalType}
    (hnumeric : isNumeric type = true)
    (cell : RCell) :
    (reduceValue type cell).Safe rows ↔
      NumberStored type rows (cellNumber cell) := by
  cases type with
  | int32 =>
      simp only [reduceValue, NumberStored]
      split_ifs with h
      · simp [h, Reduced.Safe, IntegerStored]
      · exact reduceInt_safe_iff h
  | int64 =>
      simp only [reduceValue, NumberStored]
      split_ifs with h
      · simp [h, Reduced.Safe, IntegerStored]
      · exact reduceInt_safe_iff h
  | float =>
      simp only [reduceValue, NumberStored]
      split_ifs with h <;> simp [h, Reduced.Safe, FloatStored, reduceNumber]
  | double =>
      simp only [reduceValue, NumberStored]
      split_ifs with h <;> simp [h, Reduced.Safe, DoubleStored, reduceNumber]
  | _ =>
      cases hnumeric

/-- A stored integer that R has exactly is found. -/
theorem integerStored_toInt {width : Nat}
    {make : BitVec width → PhysValue Bytes} {word : BitVec width}
    (hmem : Row.present (make word) ∈ rows) :
    IntegerStored make rows (.num word.toInt) := by
  simp only [IntegerStored, truncate_intCast, BitVec.ofInt_toInt]
  exact ⟨BitVec.le_toInt word, BitVec.toInt_lt, hmem⟩

/-- A stored unsigned integer is found if it fits the signed type. -/
theorem integerStored_toNat_iff {width : Nat}
    {make : BitVec width → PhysValue Bytes} {word : BitVec width}
    (hmem : Row.present (make word) ∈ rows) :
    IntegerStored make rows (.num word.toNat) ↔
      word.toNat < 2 ^ (width - 1) := by
  have htruncate : truncate (word.toNat : ℚ) = word.toNat := by
    simpa using truncate_intCast word.toNat
  simp only [IntegerStored, htruncate, BitVec.ofInt_natCast,
    BitVec.ofNat_toNat, BitVec.setWidth_eq]
  constructor
  · rintro ⟨-, hlt, -⟩
    exact_mod_cast hlt
  · intro hlt
    refine ⟨?_, by exact_mod_cast hlt, hmem⟩
    have hpos : (0 : ℤ) < 2 ^ (width - 1) := by
      positivity
    omega

theorem integerStored_zero :
    IntegerStored .int64 rows (.num 0) ↔ Row.present (.int64 0) ∈ rows := by
  simp [IntegerStored, truncate]

end Reduction

section Numbers

/-- What a converter does to a number. -/
def convertNumber
    (platform : Platform) (c : Converter) (d : RDouble) : RDouble :=
  match c with
  | .decimalInt scale => divide d (platform.pow10 scale)
  | .timestamp adjusted unit tz =>
      if adjusted ∨ tz = "UTC" then
        secondsOf unit d
      else
        platform.reanchor tz (secondsOf unit d)
  | .time _ unit => secondsOf unit d
  | _ => d

/-- An element of a numeric vector. -/
def IsNumber (cell : RCell) : Prop :=
  cell.sexptype = some .intsxp ∨ cell.sexptype = some .realsxp

variable {platform : Platform} {mode : Int64Mode}
variable {type : PhysicalType} {c : Converter}
variable {cell value : RCell} {sexptype : SexpType} {rows : List Row}

theorem asDouble_of_isNumber
    (hcell : IsNumber cell) :
    asDouble platform cell = .ok (cellNumber cell) := by
  cases cell <;> first
    | rfl
    | simp [IsNumber, RCell.sexptype] at hcell

theorem cellNumber_convertCell
    (hnumeric : isNumeric type = true)
    (hfits : converterFits mode type c = true)
    (hnull : c ≠ .nullLogical)
    (hcell : IsNumber cell)
    (h : convertCell platform c cell = .ok value) :
    cellNumber value = convertNumber platform c (cellNumber cell) := by
  have hdouble : asDouble platform cell = .ok (cellNumber cell) :=
    asDouble_of_isNumber hcell
  have hforeign (hc : converterFits mode type c = false) :
      cellNumber value = convertNumber platform c (cellNumber cell) := by
    rw [hc] at hfits
    cases hfits
  cases c with
  | nullLogical =>
      exact absurd rfl hnull
  | decimalBinary | float16 | int96 =>
      exact hforeign (by cases type <;> first | rfl | cases hnumeric)
  | decimalInt | timestamp | time | date32 =>
      simp only [convertCell, hdouble, ok_bind, pure_eq_ok] at h
      cases h
      rfl
  | _ =>
      cases h
      rfl

/-- A numeric column reaches the check as a numeric vector. -/
theorem checkValuesType_numeric
    (hnumeric : isNumeric type = true)
    (hfits : converterFits mode type c = true)
    (hnull : c ≠ .nullLogical)
    (hsexptype : columnSexpType type (kindOf c) = .ok sexptype) :
    checkValuesType type (c.sexptype sexptype) = .ok () := by
  cases c <;> cases type <;> first
    | exact absurd rfl hnull
    | (cases hsexptype; rfl)
    | (cases hnumeric; done)
    | cases hfits

/-- What can be ruled out in a numeric column. -/
theorem numeric_safe_iff
    (hnumeric : isNumeric type = true)
    (hfits : converterFits mode type c = true)
    (hnull : c ≠ .nullLogical)
    (hsexptype : columnSexpType type (kindOf c) = .ok sexptype)
    (hcell : IsNumber cell)
    (hconvert : convertCell platform c cell = .ok value) :
    (checkValuesType type (c.sexptype sexptype) = .ok () →
        (reduceValue type value).Safe rows) ↔
      NumberStored type rows
        (convertNumber platform c (cellNumber cell)) := by
  rw [checkValuesType_numeric hnumeric hfits hnull hsexptype,
    reduceValue_safe_iff hnumeric,
    cellNumber_convertCell hnumeric hfits hnull hcell hconvert]
  simp

/-- A logical vector is refused for every type. -/
theorem checkValuesType_lglsxp (type : PhysicalType) :
    checkValuesType type .lglsxp ≠ .ok () := by
  cases type <;> simp [checkValuesType]

end Numbers

section Rows

variable {platform : Platform} {options : ReadOptions} {own : SchemaLeaf}
variable {rows : List Row} {sexptype : SexpType} {cell value : RCell}

/-- What the check makes of an R value of a leaf, for any filter. -/
def ValueSafe
    (options : ReadOptions) (own : SchemaLeaf) (rows : List Row)
    (sexptype : SexpType) (value : RCell) : Prop :=
  checkValuesType own.physicalType
      ((planConverter options own).sexptype sexptype) = .ok () →
    (reduceValue own.physicalType value).Safe rows

theorem valueSafe_of_nullLogical
    (hnull : planConverter options own = .nullLogical) :
    ValueSafe options own rows sexptype value := by
  intro hcheck
  rw [hnull] at hcheck
  exact absurd hcheck (checkValuesType_lglsxp _)

theorem int32_safe_iff
    {word : BitVec 32}
    (htype : own.physicalType = .int32)
    (hmem : Row.present (.int32 word) ∈ rows)
    (hsexptype : columnSexpType own.physicalType
      (kindOf (planConverter options own)) = .ok sexptype)
    (hcell : valueCell (planSpec options own) (.int32 word) = some cell)
    (hconvert : convertCell platform (planConverter options own) cell =
      .ok value) :
    ValueSafe options own rows sexptype value ↔
      BloomSafe platform options own rows (.present (.int32 word)) := by
  have hfits := planConverter_fits options own
  have hself : IntegerStored .int32 rows (int32Number word) := by
    unfold int32Number
    split_ifs
    · trivial
    · exact integerStored_toInt hmem
  simp only [planSpec, valueCell, Leaf.column] at hcell
  unfold ValueSafe BloomSafe
  rw [htype] at hfits hsexptype ⊢
  generalize planConverter options own = c at *
  cases c with
  | nullLogical =>
      simp [Converter.sexptype, checkValuesType]
  | int32 | date32 =>
      cases hcell
      rw [numeric_safe_iff rfl hfits (by simp) hsexptype (Or.inl rfl) hconvert]
      exact iff_of_true hself trivial
  | uint32 =>
      cases hcell
      rw [numeric_safe_iff rfl hfits (by simp) hsexptype (Or.inr rfl) hconvert]
      have hexact : intToDouble word.toNat = .num word.toNat :=
        intToDouble_natCast (by have := word.isLt; omega)
      simp only [NumberStored, convertNumber, cellNumber, hexact]
      exact integerStored_toNat_iff hmem
  | decimalInt | time =>
      cases hcell
      rw [numeric_safe_iff rfl hfits (by simp) hsexptype (Or.inl rfl) hconvert]
      rfl
  | _ =>
      cases hfits

/-- An INT64 value R has as an exact double, or as `NA`, is found. -/
theorem integerStored_placeInt64
    {word : BitVec 64} {isUnsigned : Bool}
    (hmem : Row.present (.int64 word) ∈ rows) :
    IntegerStored .int64 rows
      (cellNumber (placeInt64 word .double isUnsigned).1) := by
  unfold placeInt64
  simp only
  split_ifs with hunsigned hlost hlost'
  · trivial
  · have hsmall : word.toNat ≤ 9007199254740992 := by
      simpa [doubleExactMax] using hlost
    have hexact : intToDouble word.toNat = .num word.toNat :=
      intToDouble_natCast hsmall
    simp only [cellNumber, hexact]
    exact (integerStored_toNat_iff hmem).mpr (by omega)
  · trivial
  · rw [not_or, not_lt, not_lt, doubleExactMax] at hlost'
    have hexact : intToDouble word.toInt = .num word.toInt :=
      intToDouble_exact (abs_le.mpr hlost')
    simp only [cellNumber, hexact]
    exact integerStored_toInt hmem

/-- The bits bit64 gets: its missing value in place of one it cannot hold. -/
theorem placeInt64_bit64
    (word : BitVec 64) (isUnsigned : Bool) :
    (placeInt64 word .bit64 isUnsigned).1 =
      .bits (if isUnsigned = true ∧ word.toInt < 0 then
        BitVec.intMin 64
      else
        word) := by
  by_cases hlost : isUnsigned = true ∧ word.toInt < 0
  · simp only [placeInt64, if_pos hlost]
  · simp only [placeInt64, if_neg hlost]
    split_ifs <;> rfl

theorem doubleOfBits_intMin :
    doubleOfBits (BitVec.intMin 64) = .num 0 := by
  decide +kernel

theorem int64_safe_iff
    {word : BitVec 64}
    (htype : own.physicalType = .int64)
    (hmem : Row.present (.int64 word) ∈ rows)
    (hsexptype : columnSexpType own.physicalType
      (kindOf (planConverter options own)) = .ok sexptype)
    (hcell : valueCell (planSpec options own) (.int64 word) = some cell)
    (hconvert : convertCell platform (planConverter options own) cell =
      .ok value) :
    ValueSafe options own rows sexptype value ↔
      BloomSafe platform options own rows (.present (.int64 word)) := by
  have hfits := planConverter_fits options own
  simp only [planSpec, valueCell, Leaf.column] at hcell
  unfold ValueSafe BloomSafe
  rw [htype] at hfits hsexptype ⊢
  generalize planConverter options own = c at *
  cases c with
  | nullLogical =>
      simp [Converter.sexptype, checkValuesType]
  | int64Double =>
      have hmode : options.int64 = .double := by
        simpa [converterFits] using hfits
      have hnumber : IsNumber cell := by
        cases hcell
        rw [hmode, placeInt64]
        split_ifs <;> exact Or.inr rfl
      rw [numeric_safe_iff rfl hfits (by simp) hsexptype hnumber hconvert]
      cases hcell
      rw [hmode]
      exact iff_of_true (integerStored_placeInt64 hmem) trivial
  | int64Bit64 =>
      have hmode : options.int64 = .bit64 := by
        simpa [converterFits] using hfits
      have hbits : cell = .bits
          (if own.leaf.isUnsigned64 = true ∧ word.toInt < 0 then
            BitVec.intMin 64
          else
            word) := by
        cases hcell
        rw [hmode, placeInt64_bit64]
      subst hbits
      rw [numeric_safe_iff rfl hfits (by simp) hsexptype (Or.inr rfl)
        hconvert]
      simp only [NumberStored, convertNumber, cellNumber]
      split_ifs with hlost
      · rw [doubleOfBits_intMin]
        exact integerStored_zero
      · rfl
  | int64 | int32 | uint32 | decimalInt | time | timestamp =>
      cases hcell
      rw [numeric_safe_iff rfl hfits (by simp) hsexptype (Or.inr rfl)
        hconvert]
      rfl
  | _ =>
      cases hfits

/-- Widening and narrowing a float changes a signalling NaN only. -/
theorem castFloat_floatToDouble_num
    {q : ℚ}
    (hrep : binary32.Representable q)
    (hfinite : |q| < 2 ^ 128) :
    castFloat (floatToDouble (.num q hrep hfinite)) = .num q hrep hfinite := by
  have hround := BinaryFormat.round_of_representable hrep
  simp only [floatToDouble, castFloat, hround]
  rw [dif_pos hfinite]

theorem extract_widened
    (fraction : BitVec 23) :
    (fraction.setWidth 52 <<< 29).extractLsb' 29 23 = fraction := by
  apply BitVec.eq_of_toNat_eq
  have hlt := fraction.isLt
  simp only [BitVec.extractLsb'_toNat, BitVec.toNat_shiftLeft,
    BitVec.toNat_setWidth, Nat.shiftLeft_eq, Nat.shiftRight_eq_div_pow]
  omega

theorem castFloat_floatToDouble_nan
    (negative : Bool) (fraction : BitVec 23) :
    castFloat (floatToDouble (.nan negative fraction)) =
      .nan negative (fraction ||| quietBit) := by
  rw [floatToDouble, castFloat, extract_widened, BitVec.or_assoc,
    BitVec.or_self]

theorem float_safe_iff
    {stored : FloatValue}
    (htype : own.physicalType = .float)
    (hmem : Row.present (.float stored) ∈ rows)
    (hsexptype : columnSexpType own.physicalType
      (kindOf (planConverter options own)) = .ok sexptype)
    (hcell : valueCell (planSpec options own) (.float stored) = some cell)
    (hconvert : convertCell platform (planConverter options own) cell =
      .ok value) :
    ValueSafe options own rows sexptype value ↔
      BloomSafe platform options own rows (.present (.float stored)) := by
  have hfits := planConverter_fits options own
  have hself : FloatStored rows (floatToDouble stored) ↔
      QuietStored rows stored := by
    cases stored with
    | nan negative fraction =>
        rw [FloatStored, castFloat_floatToDouble_nan]
        simp [QuietStored, floatToDouble]
    | inf negative =>
        exact iff_of_true (Or.inr hmem) trivial
    | num q hrep hfinite =>
        rw [FloatStored, castFloat_floatToDouble_num]
        exact iff_of_true (Or.inr hmem) trivial
  simp only [planSpec, valueCell, Leaf.column] at hcell
  unfold ValueSafe BloomSafe
  rw [htype] at hfits hsexptype ⊢
  generalize planConverter options own = c at *
  cases c with
  | nullLogical =>
      simp [Converter.sexptype, checkValuesType]
  | float | int32 | uint32 =>
      cases hcell
      rw [numeric_safe_iff rfl hfits (by simp) hsexptype (Or.inr rfl)
        hconvert]
      exact hself
  | decimalInt | time =>
      cases hcell
      rw [numeric_safe_iff rfl hfits (by simp) hsexptype (Or.inr rfl)
        hconvert]
      rfl
  | _ =>
      cases hfits

theorem double_safe_iff
    {stored : RDouble}
    (htype : own.physicalType = .double)
    (hmem : Row.present (.double stored) ∈ rows)
    (hsexptype : columnSexpType own.physicalType
      (kindOf (planConverter options own)) = .ok sexptype)
    (hcell : valueCell (planSpec options own) (.double stored) = some cell)
    (hconvert : convertCell platform (planConverter options own) cell =
      .ok value) :
    ValueSafe options own rows sexptype value ↔
      BloomSafe platform options own rows (.present (.double stored)) := by
  have hfits := planConverter_fits options own
  simp only [planSpec, valueCell, Leaf.column] at hcell
  unfold ValueSafe BloomSafe
  rw [htype] at hfits hsexptype ⊢
  generalize planConverter options own = c at *
  cases c with
  | nullLogical =>
      simp [Converter.sexptype, checkValuesType]
  | double | int32 | uint32 =>
      cases hcell
      rw [numeric_safe_iff rfl hfits (by simp) hsexptype (Or.inr rfl)
        hconvert]
      exact iff_of_true (Or.inr hmem) trivial
  | decimalInt | time =>
      cases hcell
      rw [numeric_safe_iff rfl hfits (by simp) hsexptype (Or.inr rfl)
        hconvert]
      rfl
  | _ =>
      cases hfits

theorem byteArray_safe
    {bytes : Bytes}
    (htype : own.physicalType = .byteArray)
    (hmem : Row.present (.byteArray bytes) ∈ rows)
    (hsexptype : columnSexpType own.physicalType
      (kindOf (planConverter options own)) = .ok sexptype)
    (hcell : valueCell (planSpec options own) (.byteArray bytes) = some cell)
    (hconvert : convertCell platform (planConverter options own) cell =
      .ok value) :
    ValueSafe options own rows sexptype value := by
  have hfits := planConverter_fits options own
  simp only [planSpec, valueCell, Leaf.column] at hcell
  unfold ValueSafe
  rw [htype] at hfits hsexptype ⊢
  generalize planConverter options own = c at *
  cases c with
  | text | int32 =>
      simp only [kindOf] at hcell
      split_ifs at hcell with hfault
      cases hcell
      cases hconvert
      intro _
      rw [TextFault, not_or] at hfault
      simpa [reduceValue, Reduced.Safe, cString_of_nul_free hfault.1] using
        hmem
  | nullLogical | time | binary | decimalBinary | uint32 =>
      cases hsexptype
      simp [Converter.sexptype, checkValuesType]
  | _ =>
      cases hfits

theorem hexByte_nul_free :
    ∀ byte, (0 : UInt8) ∉ hexByte byte :=
  forall_uint8 (by decide +kernel)

theorem formatUuidGroups_nul_free
    (bytes : Bytes) (widths : List Nat) :
    (0 : UInt8) ∉ formatUuidGroups bytes widths := by
  have hgroup (part : Bytes) : (0 : UInt8) ∉ part.flatMap hexByte := by
    intro hmem
    obtain ⟨byte, -, hbyte⟩ := List.mem_flatMap.mp hmem
    exact hexByte_nul_free byte hbyte
  induction widths generalizing bytes with
  | nil =>
      simp [formatUuidGroups]
  | cons width widths ih =>
      cases widths with
      | nil =>
          exact hgroup _
      | cons next widths =>
          simp only [formatUuidGroups, List.mem_append, List.mem_cons, not_or]
          exact ⟨hgroup _, by decide, ih _⟩

theorem fixed_safe_iff
    {bytes : Bytes}
    (htype : own.physicalType = .fixedLenByteArray)
    (hsexptype : columnSexpType own.physicalType
      (kindOf (planConverter options own)) = .ok sexptype)
    (hcell : valueCell (planSpec options own) (.fixed bytes) = some cell)
    (hconvert : convertCell platform (planConverter options own) cell =
      .ok value) :
    ValueSafe options own rows sexptype value ↔
      BloomSafe platform options own rows (.present (.fixed bytes)) := by
  have hfits := planConverter_fits options own
  simp only [planSpec, valueCell, Leaf.column] at hcell
  unfold ValueSafe BloomSafe
  rw [htype] at hfits hsexptype ⊢
  generalize planConverter options own = c at *
  cases c with
  | uuid =>
      cases hsexptype
      cases hcell
      cases hconvert
      simp [Converter.sexptype, checkValuesType, reduceValue, Reduced.Safe,
        formatUuid, cString_of_nul_free (formatUuidGroups_nul_free _ _)]
  | binary | decimalBinary | float16 =>
      cases hsexptype
      simp [Converter.sexptype, checkValuesType]
  | nullLogical | time | int32 | uint32 =>
      cases hcell
  | _ =>
      cases hfits

/-- A missing row of a numeric column that is not a bit64 one is `NA`. -/
theorem numberStored_na
    (type : PhysicalType) :
    NumberStored type rows .na := by
  cases type <;> simp [NumberStored, IntegerStored, FloatStored, DoubleStored]

theorem convertNumber_na
    (platform : Platform) (c : Converter) :
    convertNumber platform c .na = .na := by
  cases c <;> simp [convertNumber, secondsOf, divide, platform.reanchor_na]

theorem null_numeric_safe
    (hnumeric : isNumeric own.physicalType = true)
    (hbits : planConverter options own ≠ .int64Bit64)
    (hsexptype : columnSexpType own.physicalType
      (kindOf (planConverter options own)) = .ok sexptype)
    (hconvert : convertCell platform (planConverter options own)
      (naCell (planSpec options own)) = .ok value) :
    ValueSafe options own rows sexptype value := by
  have hfits := planConverter_fits options own
  by_cases hnull : planConverter options own = .nullLogical
  · exact valueSafe_of_nullLogical hnull
  · have hcell : IsNumber (naCell (planSpec options own)) ∧
        cellNumber (naCell (planSpec options own)) = .na := by
      simp only [planSpec, naCell, Leaf.column, SchemaLeaf.leaf]
      generalize planConverter options own = c at *
      generalize own.physicalType = type at *
      generalize options.int64 = mode at *
      cases c <;> cases type <;> cases mode <;> first
        | exact ⟨Or.inl rfl, rfl⟩
        | exact ⟨Or.inr rfl, rfl⟩
        | (cases hnumeric; done)
        | (cases hfits; done)
        | exact absurd rfl hbits
    rw [ValueSafe, numeric_safe_iff hnumeric hfits hnull hsexptype hcell.1
      hconvert, hcell.2, convertNumber_na]
    exact numberStored_na _

theorem null_bytes_safe
    (hbytes : storedAsBytes own.physicalType = true)
    (hconvert : convertCell platform (planConverter options own)
      (naCell (planSpec options own)) = .ok value) :
    ValueSafe options own rows sexptype value := by
  have hfits := planConverter_fits options own
  simp only [planSpec, naCell, Leaf.column, SchemaLeaf.leaf] at hconvert
  unfold ValueSafe
  generalize planConverter options own = c at *
  generalize own.physicalType = type at *
  -- A text element is `NA`; every other vector is refused.
  cases c <;> cases type <;> first
    | (cases hbytes; done)
    | (cases hfits; done)
    | (cases hconvert; exact fun _ => trivial)
    | simp [Converter.sexptype, checkValuesType]

theorem null_safe_iff
    {level : Nat}
    (hsexptype : columnSexpType own.physicalType
      (kindOf (planConverter options own)) = .ok sexptype)
    (hconvert : convertCell platform (planConverter options own)
      (naCell (planSpec options own)) = .ok value) :
    ValueSafe options own rows sexptype value ↔
      BloomSafe platform options own rows (.null level) := by
  by_cases hbits : planConverter options own = .int64Bit64
  · have hfits := planConverter_fits options own
    rw [hbits] at hfits
    have htype : own.physicalType = .int64 := by
      revert hfits
      cases own.physicalType <;> simp [converterFits]
    rw [htype] at hfits
    have hmode : options.int64 = .bit64 := by
      simpa [converterFits] using hfits
    have hcell : naCell (planSpec options own) =
        .bits (BitVec.intMin 64) := by
      simp [planSpec, naCell, Leaf.column, SchemaLeaf.leaf, hbits, htype,
        kindOf, hmode, placeInt64NA]
    rw [hcell, hbits] at hconvert
    rw [hbits, htype] at hsexptype
    unfold ValueSafe BloomSafe
    rw [hbits, htype, numeric_safe_iff rfl hfits (by simp) hsexptype
      (Or.inr rfl) hconvert]
    simp only [NumberStored, convertNumber, cellNumber, doubleOfBits_intMin]
    exact integerStored_zero
  · have hsafe : BloomSafe platform options own rows (.null level) := by
      unfold BloomSafe
      generalize planConverter options own = c at hbits
      cases c <;> trivial
    refine iff_of_true ?_ hsafe
    by_cases hnumeric : isNumeric own.physicalType = true
    · exact null_numeric_safe hnumeric hbits hsexptype hconvert
    · by_cases hbytes : storedAsBytes own.physicalType = true
      · exact null_bytes_safe hbytes hconvert
      · intro hcheck
        revert hcheck hnumeric hbytes
        cases own.physicalType <;>
          simp [isNumeric, storedAsBytes, checkValuesType]

/-- A filter of the chunk cannot rule out the R value of one of its rows
exactly when the row is safe. -/
theorem valueSafe_iff
    {row : Row}
    (hmem : row ∈ rows)
    (hfits : row.Fits (planSpec options own))
    (hsexptype : columnSexpType own.physicalType
      (kindOf (planConverter options own)) = .ok sexptype)
    (hcell : nativeCell (planSpec options own) row.value = some cell)
    (hconvert : convertCell platform (planConverter options own) cell =
      .ok value) :
    ValueSafe options own rows sexptype value ↔
      BloomSafe platform options own rows row := by
  cases row with
  | null level =>
      cases hcell
      exact null_safe_iff hsexptype hconvert
  | present stored =>
      have htype : own.physicalType = stored.type := hfits.1.symm
      cases stored with
      | boolean | int96 =>
          unfold ValueSafe BloomSafe
          rw [htype]
          cases planConverter options own <;>
            simp [PhysValue.type, checkValuesType]
      | int32 word =>
          exact int32_safe_iff htype hmem hsexptype hcell hconvert
      | int64 word =>
          exact int64_safe_iff htype hmem hsexptype hcell hconvert
      | float stored =>
          exact float_safe_iff htype hmem hsexptype hcell hconvert
      | double stored =>
          exact double_safe_iff htype hmem hsexptype hcell hconvert
      | byteArray bytes =>
          refine iff_of_true
            (byteArray_safe htype hmem hsexptype hcell hconvert) ?_
          unfold BloomSafe
          cases planConverter options own <;> trivial
      | fixed bytes =>
          exact fixed_safe_iff htype hsexptype hcell hconvert

end Rows

section Filters

/-- No false negatives on the values a chunk was written from. -/
def NoFalseNegatives (filter : BloomFilter) (rows : List Row) : Prop :=
  ∀ v, Row.present v ∈ rows → filter v = true

/-- A call that raises, or whose answers are all TRUE or `NA`. -/
def NeverRulesOut (result : Except BloomError (List BloomAnswer)) : Prop :=
  ∀ answers, result = .ok answers →
    ∀ answer ∈ answers, answer = .mayContain true ∨ answer = .na

variable {rows : List Row}

/-- Every filter without false negatives is kind to a reduced value exactly
when the value is safe: the filter that knows the rows exactly decides. -/
theorem reduced_safe_iff
    (reduced : Reduced) :
    (∀ filter, NoFalseNegatives filter rows →
        reduced.answer filter = .mayContain true ∨
          reduced.answer filter = .na) ↔
      reduced.Safe rows := by
  cases reduced with
  | key value =>
      constructor
      · intro h
        have hexact := h (fun v => decide (Row.present v ∈ rows))
          (by intro v hv; simpa using hv)
        simpa [Reduced.answer, Reduced.Safe] using hexact
      · intro hmem filter hfilter
        left
        rw [Reduced.answer, hfilter value hmem]
  | na =>
      simp [Reduced.answer, Reduced.Safe]
  | undefined =>
      simp only [Reduced.answer, Reduced.Safe, iff_false]
      intro h
      simpa using h (fun _ => true) (by intro v _; rfl)

/-- The check of one value of a column that has a filter. -/
theorem bloomFilterMayContain_eq
    {file : ParquetFile} {filters : Nat → Nat → Option BloomFilter}
    {filter : BloomFilter} {column : String} {leaf : Leaf}
    {k g : Nat} (sexptype : SexpType) (value : RCell)
    (hname : (file.leaves.findIdx? fun leaf => leaf.dottedPath == column) =
      some k)
    (hleaf : file.leaves[k]? = some leaf)
    (hgroup : g < file.rowGroups.length)
    (hfilter : filters g k = some filter) :
    bloomFilterMayContain file filters column ⟨sexptype, [value]⟩ (g + 1) =
      (checkValuesType leaf.type sexptype).map fun _ =>
        [(reduceValue leaf.type value).answer filter] := by
  have hrange : ¬ (g + 1 < 1 ∨ file.rowGroups.length < g + 1) := by
    omega
  simp only [bloomFilterMayContain, hname, bloomCheck]
  rw [if_neg (by omega), Nat.add_sub_cancel, hleaf]
  simp only [if_neg hrange, Nat.add_sub_cancel, hfilter]
  cases checkValuesType leaf.type sexptype <;> rfl

end Filters

section Collected

/-- The R value that `collect()` returns for a row, given to the check for the
same column and row group, is never ruled out by any filter without false
negatives exactly when the row is safe. The column is the one its path names:
the first leaf with that path. -/
theorem bloom_never_rules_out_iff
    (c : PlannedCollect) {i k g m : Nat} {own : SchemaLeaf} {group : RowGroup}
    {before after : List (Nat × RowGroup)} {row : Row}
    (hk : c.selected[i]? = some k)
    (hown : c.schema[k]? = some own)
    (hname : (c.file.leaves.findIdx? fun leaf =>
      leaf.dottedPath == own.leaf.dottedPath) = some k)
    (hgroups : c.ctx.groups = before ++ (g, group) :: after)
    (hrow : (group.chunk k)[m]? = some row) :
    ∃ column value, c.result[i]? = some column ∧
      column.vector.cells[rowsOf before + m]? = some value ∧
      ((∀ filters filter, filters g k = some filter →
          NoFalseNegatives filter (group.chunk k) →
          NeverRulesOut (bloomFilterMayContain c.file filters
            own.leaf.dottedPath ⟨column.vector.sexptype, [value]⟩ (g + 1))) ↔
        BloomSafe c.platform c.options own (group.chunk k) row) := by
  have hmem : (g, group) ∈ c.ctx.groups := by
    rw [hgroups]
    simp
  have hleaf : c.file.leaves[k]? = some own.leaf := by
    simp [c.leaves, hown]
  have hgroup : g < c.file.rowGroups.length := by
    rw [c.groups] at hmem
    exact (List.getElem?_eq_some_iff.mp (Selection.mem_groups hmem)).1
  have hfirst : FirstOfPathAgrees c.schema c.options k := by
    intro own' hown' j first hlt hj hpath _
    obtain rfl : own = own' := Option.some.inj (hown.symm.trans hown')
    have hbefore := (List.findIdx?_eq_some_iff_getElem.mp hname).2.2 j hlt
    rw [List.getElem?_eq_some_iff] at hj
    obtain ⟨hjlt, rfl⟩ := hj
    simp [c.leaves, hpath] at hbefore
  obtain ⟨column, sexptype, cell, value, hcolumn, hsexptype, hvector, hcell,
    hconvert, hvalue⟩ := c.element hk hown hfirst
      (c.rows_getElem? hk hown hgroups hrow)
  refine ⟨column, value, hcolumn, hvalue, ?_⟩
  rw [← valueSafe_iff (List.mem_of_getElem? hrow)
    ((c.chunk hk hown hmem).2 row (List.mem_of_getElem? hrow)) hsexptype hcell
    hconvert, ValueSafe, ← hvector]
  have htype : own.leaf.type = own.physicalType := rfl
  constructor
  · intro h hcheck
    rw [← reduced_safe_iff]
    intro filter hfilter
    refine h (fun _ _ => some filter) filter rfl hfilter
      [(reduceValue own.physicalType value).answer filter] ?_ _
      (List.mem_singleton.mpr rfl)
    rw [bloomFilterMayContain_eq _ _ hname hleaf hgroup rfl, htype, hcheck]
    rfl
  · intro hsafe filters filter hget hfilter answers hanswers
    rw [bloomFilterMayContain_eq _ _ hname hleaf hgroup hget, htype]
      at hanswers
    cases hcheck : checkValuesType own.physicalType
        column.vector.sexptype with
    | error e =>
        rw [hcheck] at hanswers
        cases hanswers
    | ok _ =>
        rw [hcheck] at hanswers
        cases hanswers
        intro answer hanswer
        rw [List.mem_singleton.mp hanswer]
        exact (reduced_safe_iff _).mpr (hsafe hcheck) filter hfilter

end Collected

section Timestamps

/-- A flat column of UTC milliseconds. -/
def stampLeaf : SchemaLeaf :=
  ⟨["t"], .int64, some (.timestamp (some .millis) true), 0, 0, 0, .required⟩

/-- The epoch in one row group, 1.5 s after it in the next. -/
def stampFile : ParquetFile where
  leaves := [stampLeaf.leaf]
  rowGroups := [⟨1, fun _ => [.present (.int64 0)]⟩,
    ⟨1, fun _ => [.present (.int64 1500)]⟩]
  chunk_length := by simp
  chunk_fits := by
    intro group hgroup index leaf hleaf _ row hrow
    obtain rfl : stampLeaf.leaf = leaf := by
      rcases index with _ | _
      · exact Option.some.inj hleaf
      · simp at hleaf
    have hrow' : ∃ word, row = .present (.int64 word) := by
      rcases List.mem_cons.mp hgroup with rfl | hgroup
      · exact ⟨_, List.mem_singleton.mp hrow⟩
      · obtain rfl := List.mem_singleton.mp hgroup
        exact ⟨_, List.mem_singleton.mp hrow⟩
    obtain ⟨word, rfl⟩ := hrow'
    exact ⟨rfl, by simp⟩

def stampSelection : Selection :=
  ⟨[⟨0, planSpec utcOptions stampLeaf⟩], [true, true], 2⟩

def stampNative : NativeReader :=
  ⟨fun _ rowGroup _ => .ok (rowReader (planSpec utcOptions stampLeaf)
    (if rowGroup = 0 then [.present (.int64 0)]
      else [.present (.int64 1500)])), fun _ _ => none⟩

def stampContext : CollectContext :=
  ⟨stampNative, stampSelection, stampSelection.groups stampFile, 1024⟩

theorem stampContext_groups :
    stampContext.groups = [(0, ⟨1, fun _ => [.present (.int64 0)]⟩),
      (1, ⟨1, fun _ => [.present (.int64 1500)]⟩)] :=
  rfl

theorem stampContext_delivers : ColumnsDeliver stampContext := by
  intro entry hentry s hs attempt r hget
  obtain rfl := List.mem_singleton.mp hs
  rw [stampContext_groups] at hentry
  cases hget
  rcases List.mem_cons.mp hentry with rfl | hentry
  · exact ⟨rowReader_faithful _ _, by intro page offsets hpage; cases hpage⟩
  · obtain rfl := List.mem_singleton.mp hentry
    exact ⟨rowReader_faithful _ _, by intro page offsets hpage; cases hpage⟩

def stampTargets : List TargetColumn :=
  [⟨0, ⟨0, planSpec utcOptions stampLeaf⟩, .realsxp⟩]

theorem stampContext_alloc :
    allocateResult stampContext.selection = .ok stampTargets :=
  rfl

theorem stampContext_main :
    stampContext.main stampTargets = .ok ⟨[], fun _ => Flags.none⟩ :=
  rfl

theorem stampContext_collect :
    ∃ run r, CollectRun stampContext mappedHandle run (.ok r) :=
  ⟨_, _, .read (by decide) stampContext_alloc (by decide)
    (by simp [stampContext, stampSelection])
    (.parallelDone (by decide) stampContext_main
      (Interleaving.sequential _))⟩

/-- The collect of the two row groups, converted to POSIXct. -/
theorem stamp_collected :
    ∃ c : PlannedCollect,
      c.platform = exactPlatform ∧ c.schema = [stampLeaf] ∧
        c.options = utcOptions ∧ c.file = stampFile ∧
        c.ctx = stampContext ∧ c.indexes = none ∧
        c.result = [⟨⟨.realsxp, [.dbl (.num 0), .dbl (.num (3 / 2))]⟩,
          .posixct "UTC"⟩] := by
  obtain ⟨run, r, hrun⟩ := stampContext_collect
  have hselection : prepareSelection stampFile (nativeColumns none) none
      (columnKinds (buildPlan [stampLeaf] utcOptions) none)
      utcOptions.int64 = .ok stampContext.selection := by
    rfl
  obtain ⟨targets, halloc, -, hframe⟩ := hrun.columns_native
    ⟨⟨_, _, _, _, hselection⟩, rfl⟩ stampContext_delivers
  rw [stampContext_alloc] at halloc
  cases halloc
  have hcolumns : r.frame.columns =
      [⟨.realsxp, [.dbl (.num 0), .dbl (.num 1500)]⟩] := by
    rw [hframe]
    decide +kernel
  refine ⟨⟨exactPlatform, [stampLeaf], utcOptions, none, none, none, stampFile,
    stampContext, mappedHandle, run, r, _, rfl, by decide +kernel, hselection,
    rfl, stampContext_delivers, hrun, ?_⟩, rfl, rfl, rfl, rfl, rfl, rfl, rfl⟩
  rw [hcolumns]
  decide +kernel

/-- The epoch is 0 in milliseconds and in seconds, so it is found again. -/
theorem bloom_never_rules_out_iff_epoch :
    ∃ c : PlannedCollect, c.file = stampFile ∧
      ∃ column value, c.result[0]? = some column ∧
        column.vector.cells[0]? = some value ∧
        ∀ filters filter, filters 0 0 = some filter →
          NoFalseNegatives filter [.present (.int64 0)] →
          NeverRulesOut (bloomFilterMayContain c.file filters "t"
            ⟨column.vector.sexptype, [value]⟩ 1) := by
  obtain ⟨c, hplatform, hschema, hoptions, hfile, hctx, hindexes, -⟩ :=
    stamp_collected
  have hk : c.selected[0]? = some 0 := by
    simp [PlannedCollect.selected, selectedIndexes, hindexes, hschema]
  have hown : c.schema[0]? = some stampLeaf := by
    simp [hschema]
  have hname : (c.file.leaves.findIdx? fun leaf =>
      leaf.dottedPath == stampLeaf.leaf.dottedPath) = some 0 := by
    rw [hfile]
    decide +kernel
  have hgroups : c.ctx.groups =
      [] ++ (0, ⟨1, fun _ => [.present (.int64 0)]⟩) ::
        [(1, ⟨1, fun _ => [.present (.int64 1500)]⟩)] := by
    rw [hctx]
    exact stampContext_groups
  have hrow : ((⟨1, fun _ => [.present (.int64 0)]⟩ : RowGroup).chunk 0)[0]? =
      some (.present (.int64 0)) :=
    rfl
  obtain ⟨column, value, hcolumn, hvalue, hiff⟩ :=
    bloom_never_rules_out_iff c hk hown hname hgroups hrow
  refine ⟨c, hfile, column, value, hcolumn, hvalue, hiff.mpr ?_⟩
  have hseconds : secondsOf .millis (intToDouble 0) = .num 0 := by
    decide +kernel
  rw [hplatform, hoptions]
  change IntegerStored .int64 _ (secondsOf .millis (intToDouble 0))
  rw [hseconds, integerStored_zero]
  simp

/-- The value 1.5 s after the epoch is stored as 1500, looked up as 1, and
ruled out by an exact filter. -/
theorem timestamp_ruled_out :
    ∃ c : PlannedCollect, c.file = stampFile ∧ c.options = utcOptions ∧
      c.schema = [stampLeaf] ∧
      ∃ column value, c.result[0]? = some column ∧
        column.vector.cells[1]? = some value ∧
        ∃ filters filter, filters 1 0 = some filter ∧
          NoFalseNegatives filter [.present (.int64 1500)] ∧
          bloomFilterMayContain c.file filters "t"
            ⟨column.vector.sexptype, [value]⟩ 2 =
              .ok [.mayContain false] := by
  obtain ⟨c, -, hschema, hoptions, hfile, -, -, hresult⟩ := stamp_collected
  refine ⟨c, hfile, hoptions, hschema, _, _, by rw [hresult]; rfl, rfl,
    fun _ _ => some fun v => decide (v = .int64 1500),
    fun v => decide (v = .int64 1500), rfl, ?_, ?_⟩
  · intro v hv
    simpa using hv
  · rw [hfile]
    decide +kernel

end Timestamps

end Plan
end QioParquet
