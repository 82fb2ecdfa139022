import QioParquet.Plan.Collected
import Mathlib.Tactic

/-!
# Bloom filters and the values R sees

`bloom_filter_may_contain()` reduces an R value to a value of the column's
physical type and asks the filter of a column chunk for it. A filter has no
false negatives on the values it was built from; whether it can rule out a
value that `collect()` returned depends on the reduction undoing the read
mapping. `BloomSafe` lists, by type and converter, when it does.
-/

namespace QioParquet
namespace Plan

open Lib Read

section Checking

/-- The filter of a column chunk: its answer for a physical value. -/
abbrev BloomFilter := PhysValue Bytes → Bool

inductive BloomError where
  | unknownColumn (column : String)
  | columnRange
  | rowGroupRange
  | notNumeric
  | notCharacter
  | undefinedType (type : PhysicalType)
  | noFilter (column : String) (rowGroup : Nat)
deriving DecidableEq

/-- Texts of the messages. -/
def BloomError.message : BloomError → String
  | .unknownColumn column => "Unknown column: " ++ column
  | .columnRange => "qio: column index out of range"
  | .rowGroupRange => "qio: row group index out of range"
  | .notNumeric => "qio: `values` must be numeric for this column"
  | .notCharacter => "qio: `values` must be character for this column"
  | .undefinedType type =>
      s!"qio: bloom filters are not defined for {type.name} columns"
  | .noFilter column rowGroup =>
      s!"qio: column '{column}' has no bloom filter in row group {rowGroup}"

/-- An element of the result: an answer, `NA`, or the outcome of an undefined
conversion, which may be anything. -/
inductive BloomAnswer where
  | mayContain (answer : Bool)
  | na
  | undefined
deriving DecidableEq

/-- An R value reduced to the physical type of a column. -/
inductive Reduced where
  | key (value : PhysValue Bytes)
  | na
  | undefined
deriving DecidableEq

/-- The check of the type of the values, before the filter is opened. -/
def checkValuesType
    (type : PhysicalType) (sexptype : SexpType) : Except BloomError Unit :=
  match type with
  | .int32 | .int64 | .float | .double =>
      if sexptype = .intsxp ∨ sexptype = .realsxp then
        .ok ()
      else
        .error .notNumeric
  | .byteArray | .fixedLenByteArray =>
      if sexptype = .strsxp then .ok () else .error .notCharacter
  | .boolean | .int96 => .error (.undefinedType type)

/-- A numeric element as a double. -/
def cellNumber : RCell → RDouble
  | .int word => if word = naInteger then .na else .num word.toInt
  | .dbl value => value
  | .bits word => doubleOfBits word
  | _ => .na

/-- A conversion to an integer type as a reduced value. -/
def reduceInt {width : Nat}
    (make : BitVec width → PhysValue Bytes) (d : RDouble) : Reduced :=
  match castInt width d with
  | some word => .key (make word)
  | none => .undefined

/-- The reduction of a number that is not `NA`. -/
def reduceNumber (type : PhysicalType) (d : RDouble) : Reduced :=
  match type with
  | .int32 => reduceInt PhysValue.int32 d
  | .int64 => reduceInt PhysValue.int64 d
  | .float => .key (.float (castFloat d))
  | _ => .key (.double d)

/-- The reduction of one element in `qio_parquet_bloom_check`. -/
def reduceValue (type : PhysicalType) (cell : RCell) : Reduced :=
  match type with
  | .byteArray =>
      match cell with
      | .str bytes => .key (.byteArray (cString bytes))
      | _ => .na
  | .fixedLenByteArray =>
      match cell with
      | .str bytes => .key (.fixed (cString bytes))
      | _ => .na
  | _ =>
      if cellNumber cell = .na then
        .na
      else
        reduceNumber type (cellNumber cell)

def Reduced.answer (filter : BloomFilter) : Reduced → BloomAnswer
  | .key value => .mayContain (filter value)
  | .na => .na
  | .undefined => .undefined

/-- `qio_parquet_bloom_check`. Column and row group are counted from 1. -/
def bloomCheck
    (file : ParquetFile) (filters : Nat → Nat → Option BloomFilter)
    (column : Nat) (values : RVector) (rowGroup : Nat) :
    Except BloomError (List BloomAnswer) :=
  match if column < 1 then none else file.leaves[column - 1]? with
  | none => .error .columnRange
  | some leaf =>
      if rowGroup < 1 ∨ file.rowGroups.length < rowGroup then
        .error .rowGroupRange
      else do
        checkValuesType leaf.type values.sexptype
        match filters (rowGroup - 1) (column - 1) with
        | none => .error (.noFilter leaf.name rowGroup)
        | some filter =>
            return values.cells.map fun cell =>
              (reduceValue leaf.type cell).answer filter

/-- `bloom_filter_may_contain`. -/
def bloomFilterMayContain
    (file : ParquetFile) (filters : Nat → Nat → Option BloomFilter)
    (column : String) (values : RVector) (rowGroup : Nat) :
    Except BloomError (List BloomAnswer) :=
  match file.leaves.findIdx? fun leaf => leaf.dottedPath == column with
  | none => .error (.unknownColumn column)
  | some index => bloomCheck file filters (index + 1) values rowGroup

end Checking

section Condition

/-- A number that is `NA`, or is a stored integer once truncated. -/
def IntegerStored {width : Nat}
    (make : BitVec width → PhysValue Bytes) (rows : List Row) :
    RDouble → Prop
  | .na => True
  | .num q =>
      -2 ^ (width - 1) ≤ truncate q ∧ truncate q < 2 ^ (width - 1) ∧
        Row.present (make (BitVec.ofInt width (truncate q))) ∈ rows
  | _ => False

/-- A number that is `NA`, or is stored once narrowed. -/
def FloatStored (rows : List Row) (d : RDouble) : Prop :=
  d = .na ∨ Row.present (.float (castFloat d)) ∈ rows

/-- A number that is `NA` or stored. -/
def DoubleStored (rows : List Row) (d : RDouble) : Prop :=
  d = .na ∨ Row.present (.double d) ∈ rows

/-- A quiet NaN, or no NaN at all. -/
def QuietStored (rows : List Row) : FloatValue → Prop
  | .nan negative fraction =>
      Row.present (.float (.nan negative (fraction ||| quietBit))) ∈ rows
  | _ => True

/-- Seconds of a time of day or a timestamp, from the count in the file. -/
def secondsOf (unit : TimeUnit) (d : RDouble) : RDouble :=
  divide d (.num unit.perSecond)

/-- A count of an INT32 column as R has it: the least one is `NA`. -/
def int32Number (word : BitVec 32) : RDouble :=
  if word = naInteger then .na else .num word.toInt

/-- When the filter of a chunk with these rows cannot rule out the R value of
one of them. Types that the check refuses, and values that survive the read
mapping, are always safe. -/
def BloomSafe
    (platform : Platform) (options : ReadOptions) (s : SchemaLeaf)
    (rows : List Row) (row : Row) : Prop :=
  match row, planConverter options s with
  -- bit64's missing value is the number 0 to the check.
  | .null _, .int64Bit64 => Row.present (.int64 0) ∈ rows
  | .null _, _ => True
  | .present (.int32 word), .uint32 => word.toNat < 2 ^ 31
  | .present (.int32 word), .decimalInt scale =>
      IntegerStored .int32 rows
        (divide (int32Number word) (platform.pow10 scale))
  | .present (.int32 word), .time _ unit =>
      IntegerStored .int32 rows (secondsOf unit (int32Number word))
  | .present (.int64 word), .int64Bit64 =>
      if s.leaf.isUnsigned64 = true ∧ word.toInt < 0 then
        Row.present (.int64 0) ∈ rows
      else
        IntegerStored .int64 rows (doubleOfBits word)
  | .present (.int64 word), .decimalInt scale =>
      IntegerStored .int64 rows
        (divide (intToDouble word.toInt) (platform.pow10 scale))
  | .present (.int64 word), .time _ unit =>
      IntegerStored .int64 rows (secondsOf unit (intToDouble word.toInt))
  | .present (.int64 word), .timestamp adjusted unit tz =>
      IntegerStored .int64 rows
        (if adjusted ∨ tz = "UTC" then
          secondsOf unit (intToDouble word.toInt)
        else
          platform.reanchor tz (secondsOf unit (intToDouble word.toInt)))
  -- Annotations the plan has no use for leave the plain, rounding conversion.
  | .present (.int64 word), .int64 =>
      IntegerStored .int64 rows (intToDouble word.toInt)
  | .present (.int64 word), .int32 =>
      IntegerStored .int64 rows (intToDouble word.toInt)
  | .present (.int64 word), .uint32 =>
      IntegerStored .int64 rows (intToDouble word.toInt)
  | .present (.float value), .decimalInt scale =>
      FloatStored rows (divide (floatToDouble value) (platform.pow10 scale))
  | .present (.float value), .time _ unit =>
      FloatStored rows (secondsOf unit (floatToDouble value))
  | .present (.float _), .nullLogical => True
  | .present (.float value), _ => QuietStored rows value
  | .present (.double value), .decimalInt scale =>
      DoubleStored rows (divide value (platform.pow10 scale))
  | .present (.double value), .time _ unit =>
      DoubleStored rows (secondsOf unit value)
  -- The text of a UUID is not its 16 bytes.
  | .present (.fixed bytes), .uuid =>
      Row.present (.fixed (formatUuid bytes)) ∈ rows
  | .present _, _ => True

end Condition

end Plan
end QioParquet
