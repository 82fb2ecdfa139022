import QioParquet.Plan.ReadPlan
import Mathlib.Data.List.TakeWhile
import Mathlib.Tactic

/-!
# Converters

`qio_apply_converter`: what becomes of a native vector on its way into the
result. Numbers go through R's double arithmetic, one rounding for each
operation. Three functions of R itself are parameters, collected in `Platform`:
powers of ten, reading a number from text, and anchoring a civil time in a time
zone.
-/

namespace QioParquet
namespace Plan

open Lib Read

section Arithmetic

/-- The fraction bit that makes a 64-bit NaN a quiet one. -/
def quietBit52 : BitVec 52 := 0x8000000000000#52

/-- R's `NaN`. -/
def rNaN : RDouble := .nan true quietBit52

/-- An operand that is not a number comes out of an operation quieted. -/
def quieted : RDouble → RDouble
  | .nan negative fraction => .nan negative (fraction ||| quietBit52)
  | d => d

/-- The double nearest to an exact result. -/
def nearestDouble (q : ℚ) : RDouble :=
  let r := binary64.round q
  if 2 ^ 1024 ≤ |r| then .inf (decide (r < 0)) else .num r

/-- R's `x / y` on doubles. -/
def divide (x y : RDouble) : RDouble :=
  match x, y with
  | .na, _ => .na
  | .nan negative fraction, _ => quieted (.nan negative fraction)
  | _, .na => .na
  | _, .nan negative fraction => quieted (.nan negative fraction)
  | .inf _, .inf _ => rNaN
  | .inf negative, .num b => .inf (negative != decide (b < 0))
  | .num _, .inf _ => .num 0
  | .num a, .num b =>
      if b = 0 then
        if a = 0 then rNaN else .inf (decide (a < 0))
      else
        nearestDouble (a / b)

/-- R's `x * 256 + byte`. -/
def shiftByte (x : RDouble) (byte : Nat) : RDouble :=
  match x with
  | .num a =>
      match nearestDouble (a * 256) with
      | .num b => nearestDouble (b + byte)
      | d => d
  | d => d

/-- R's `-(x + 1)`. -/
def negateSucc (x : RDouble) : RDouble :=
  match x with
  | .num a =>
      match nearestDouble (a + 1) with
      | .num b => .num (-b)
      | .inf negative => .inf (!negative)
      | d => d
  | .inf negative => .inf (!negative)
  | d => d

/-- `is.na()` of a double. -/
def isMissing : RDouble → Bool
  | .na => true
  | .nan _ _ => true
  | _ => false

/-- The double with the given bits. -/
def doubleOfBits (word : BitVec 64) : RDouble :=
  let negative := word.msb
  let exponent := (word.extractLsb' 52 11).toNat
  let fraction := word.extractLsb' 0 52
  let sign : ℚ := if negative then -1 else 1
  if exponent = 2047 then
    if fraction = 0 then
      .inf negative
    else if word.extractLsb' 0 32 = 1954#32 then
      .na
    else
      .nan negative fraction
  else if exponent = 0 then
    .num (sign * fraction.toNat * 2 ^ (-1074 : ℤ))
  else
    .num (sign * (2 ^ 52 + fraction.toNat) * 2 ^ ((exponent : ℤ) - 1075))

end Arithmetic

section Casts

/-- C's truncation toward zero. -/
def truncate (q : ℚ) : ℤ :=
  if 0 ≤ q then ⌊q⌋ else ⌈q⌉

@[simp] theorem truncate_intCast
    (z : ℤ) :
    truncate (z : ℚ) = z := by
  simp [truncate]

/-- C's conversion of a double to a signed integer; out of range it is
undefined. -/
def castInt (width : Nat) : RDouble → Option (BitVec width)
  | .num q =>
      if -2 ^ (width - 1) ≤ truncate q ∧ truncate q < 2 ^ (width - 1) then
        some (BitVec.ofInt width (truncate q))
      else
        none
  | _ => none

/-- C's conversion of a double to `float`. -/
def castFloat : RDouble → FloatValue
  | .na => .nan false quietBit
  | .nan negative fraction =>
      .nan negative (fraction.extractLsb' 29 23 ||| quietBit)
  | .inf negative => .inf negative
  | .num q =>
      if h : |binary32.round q| < 2 ^ 128 then
        .num (binary32.round q)
          (BinaryFormat.representable_round (by decide) q) h
      else
        .inf (decide (q < 0))

/-- The bytes of a C string. -/
def cString (bytes : Bytes) : Bytes :=
  bytes.takeWhile fun b => b != 0

theorem nul_not_mem_cString
    (bytes : Bytes) :
    (0 : UInt8) ∉ cString bytes := by
  intro hmem
  exact absurd (List.mem_takeWhile_imp hmem) (by simp)

theorem cString_of_nul_free
    {bytes : Bytes}
    (hnul : (0 : UInt8) ∉ bytes) :
    cString bytes = bytes := by
  rw [cString, List.takeWhile_eq_self_iff]
  intro b hb
  simpa using fun h : b = 0 => hnul (h ▸ hb)

end Casts

section Converting

/-- The class a converter leaves on its result. -/
inductive RClass where
  | none
  | date
  | posixct (tz : String)
  | hms
  | integer64
deriving DecidableEq

/-- A column of the result. -/
structure RColumn where
  vector : RVector
  rclass : RClass
deriving DecidableEq

def realVector (values : List RDouble) : RVector :=
  ⟨.realsxp, values.map .dbl⟩

/-- What conversion takes from R: `10^scale`, `as.double()` of a string,
`as.POSIXct()` of civil seconds in a time zone, which leaves a missing value
missing, and `hms::as_hms()`, which keeps the seconds it is given under its own
class. -/
structure Platform where
  pow10 : ℤ → RDouble
  parseNumber : Bytes → RDouble
  reanchor : String → RDouble → RDouble
  reanchor_na : ∀ tz, reanchor tz .na = .na
  asHms : List RDouble → RColumn
  asHms_seconds : ∀ seconds, asHms seconds = ⟨realVector seconds, .hms⟩

/-- The errors of the converters. The last one stands for a vector of a type
the converter's own kind never produces; R's outcome there is not modelled. -/
inductive ConvertError where
  | coerceList
  | timeRange
  | float16Width (bytes : Nat)
  | foreignVector
deriving DecidableEq

/-- The text of each message; the first is R's own. -/
def ConvertError.message : ConvertError → String
  | .coerceList => "'list' object cannot be coerced to type 'double'"
  | .timeRange =>
      "A TIME column contains a value outside the range of one day."
  | .float16Width bytes =>
      s!"A FLOAT16 column contains a value of {bytes} bytes; FLOAT16 " ++
        "requires exactly 2."
  | .foreignVector => ""

variable (platform : Platform)

/-- `as.double()` of one element. -/
def asDouble : RCell → Except ConvertError RDouble
  | .lgl value => .ok (.num (if value then 1 else 0))
  | .lglNA => .ok .na
  | .int word => .ok (if word = naInteger then .na else .num word.toInt)
  | .dbl value => .ok value
  | .bits word => .ok (doubleOfBits word)
  | .str bytes => .ok (platform.parseNumber bytes)
  | .strNA => .ok .na
  | .raw _ => .error .coerceList
  | .null => .error .coerceList
  | .unset => .error .foreignVector

/-- `as.double(x) / divisor`. -/
def scaleDown (x : RVector) (divisor : RDouble) :
    Except ConvertError (List RDouble) :=
  x.cells.mapM fun cell => do
    let d ← asDouble platform cell
    return divide d divisor

/-- `qio_as_posixct`. -/
def asPosixct
    (x : RVector) (perSecond : ℚ) (tz : String) (adjusted : Bool) :
    Except ConvertError RColumn := do
  let seconds ← scaleDown platform x (.num perSecond)
  if adjusted then
    return ⟨realVector seconds, .posixct tz⟩
  else if tz = "UTC" then
    return ⟨realVector seconds, .posixct "UTC"⟩
  else
    return ⟨realVector (seconds.map (platform.reanchor tz)), .posixct tz⟩

/-- A number of seconds outside one day. -/
def outsideDay : RDouble → Bool
  | .num q => decide (q < 0) || decide (86400 ≤ q)
  | .inf _ => true
  | _ => false

/-- `qio_as_time_of_day`. -/
def asTimeOfDay
    (x : RVector) (perSecond : ℚ) (mode : TimeMode) :
    Except ConvertError RColumn := do
  let seconds ← scaleDown platform x (.num perSecond)
  if (seconds.filter fun s => !isMissing s).any outsideDay then
    .error .timeRange
  else
    match mode with
    | .hms => return platform.asHms seconds
    | .numeric => return ⟨realVector seconds, .none⟩

/-- The number big-endian two's-complement bytes stand for, as
`qio_decimal_from_binary` accumulates it. No bytes are a missing value. -/
def decimalOfBytes (bytes : Bytes) : RDouble :=
  match bytes with
  | [] => .na
  | first :: _ =>
      if 128 ≤ first.toNat then
        negateSucc
          (bytes.foldl (fun acc b => shiftByte acc (255 - b.toNat)) (.num 0))
      else
        bytes.foldl (fun acc b => shiftByte acc b.toNat) (.num 0)

/-- The bytes of a list element; NULL has none. -/
def listBytes : RCell → Except ConvertError Bytes
  | .raw bytes => .ok bytes
  | .null => .ok []
  | _ => .error .foreignVector

/-- `qio_decimal_from_binary`. -/
def decimalFromBinary (x : RVector) (scale : ℤ) :
    Except ConvertError RColumn := do
  let values ← x.cells.mapM listBytes
  return ⟨realVector (values.map fun bytes =>
    divide (decimalOfBytes bytes) (platform.pow10 scale)), .none⟩

/-- One little-endian binary16 number. -/
def float16OfBits (bits : Nat) : RDouble :=
  let sign : ℚ := if 32768 ≤ bits then -1 else 1
  let exponent := bits / 1024 % 32
  let mantissa := bits % 1024
  if exponent = 0 then
    .num (sign * mantissa * 2 ^ (-24 : ℤ))
  else if exponent = 31 then
    if mantissa = 0 then .inf (decide (32768 ≤ bits)) else rNaN
  else
    .num (sign * (1 + mantissa / 1024) * 2 ^ ((exponent : ℤ) - 15))

/-- The element `qio_decode_float16` makes of a value's bytes. -/
def float16OfBytes : Bytes → Except ConvertError RDouble
  | [] => .ok .na
  | [low, high] => .ok (float16OfBits (low.toNat + 256 * high.toNat))
  | bytes => .error (.float16Width bytes.length)

/-- `qio_decode_float16`. -/
def decodeFloat16 (x : RVector) : Except ConvertError RColumn := do
  let values ← x.cells.mapM listBytes
  let decoded ← values.mapM float16OfBytes
  return ⟨realVector decoded, .none⟩

/-- `qio_apply_converter`. -/
def applyConverter (x : RVector) : Converter → Except ConvertError RColumn
  | .decimalInt scale => do
      let values ← scaleDown platform x (platform.pow10 scale)
      return ⟨realVector values, .none⟩
  | .decimalBinary scale => decimalFromBinary platform x scale
  | .timestamp adjusted unit tz =>
      asPosixct platform x unit.perSecond tz adjusted
  | .time mode unit => asTimeOfDay platform x unit.perSecond mode
  | .date32 => do
      let values ← x.cells.mapM (asDouble platform)
      return ⟨realVector values, .date⟩
  | .int96 => do
      let seconds ← scaleDown platform x (.num 1)
      return ⟨realVector seconds, .posixct "UTC"⟩
  | .int64Bit64 => .ok ⟨x, .integer64⟩
  | .nullLogical =>
      .ok ⟨⟨.lglsxp, List.replicate x.cells.length .lglNA⟩, .none⟩
  | .float16 => decodeFloat16 x
  | .int64Double => .ok ⟨x, .none⟩
  | .uint32 => .ok ⟨x, .none⟩
  | .text => .ok ⟨x, .none⟩
  | .binary => .ok ⟨x, .none⟩
  | .uuid => .ok ⟨x, .none⟩
  | .boolean => .ok ⟨x, .none⟩
  | .int32 => .ok ⟨x, .none⟩
  | .int64 => .ok ⟨x, .none⟩
  | .float => .ok ⟨x, .none⟩
  | .double => .ok ⟨x, .none⟩

end Converting

end Plan
end QioParquet
