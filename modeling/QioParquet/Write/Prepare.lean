import QioParquet.Plan.Convert
import Mathlib.Tactic

/-!
# Columns on their way to a file

`qio_prepare_write_column` checks a column of the data frame against its row of
the writer schema and turns it into the vector the native writer expects. A
schema row is one of the physical and logical pairs `qio_validate_schema_object`
allows, so the source's last branch (an unsupported mapping) has no counterpart.
-/

namespace QioParquet
namespace Write

open Lib Read Plan

section Schema

/-- The physical and logical pairs of a writer schema. -/
inductive WriteType where
  | boolean
  | int32
  | int64
  | float
  | double
  | string
  | date
  | timestamp (unit : TimeUnit)
deriving DecidableEq, Repr

def WriteType.physical : WriteType → PhysicalType
  | .boolean => .boolean
  | .int32 => .int32
  | .int64 => .int64
  | .float => .float
  | .double => .double
  | .string => .byteArray
  | .date => .int32
  | .timestamp _ => .int64

def WriteType.logical : WriteType → Option Logical
  | .string => some .string
  | .date => some .date
  | .timestamp unit => some (.timestamp (some unit) true)
  | _ => none

/-- How the messages call a type. -/
def WriteType.label : WriteType → String
  | .string => "STRING"
  | .date => "DATE"
  | .timestamp _ => "TIMESTAMP"
  | type => type.physical.name

/-- What the messages ask of a column of the type. -/
def WriteType.expected : WriteType → String
  | .boolean => "logical"
  | .string => "character or factor"
  | .date => "Date or numeric"
  | .timestamp _ => "POSIXct"
  | _ => "numeric"

/-- One row of a resolved writer schema. -/
structure WriteSpec where
  name : String
  type : WriteType
  nullable : Bool
deriving DecidableEq

/-- The leaf `qio_write_body` adds to the file's schema. -/
def WriteSpec.schemaLeaf (s : WriteSpec) : SchemaLeaf where
  path := [s.name]
  physicalType := s.type.physical
  logicalType := s.type.logical
  typeLength := 0
  maxDef := if s.nullable then 1 else 0
  maxRep := 0
  repetition := if s.nullable then .optional else .required

end Schema

section Errors

/-- The errors of a write, one constructor for each message. -/
inductive WriteError where
  | columnType (name : String) (type : WriteType)
  | notANumber (name : String) (type : WriteType)
  | notWhole (name : String)
  | range (name : String)
  | timestampRange (name : String)
  | requiredMissing (name : String)
  | malformedFactor
  | convert (error : ConvertError)
  | rowGroupSize
  | requiredColumn (column : Nat)
  | writeBatch (column row : Nat) (status : String)
  | newRowGroup (group : Nat) (status : String)
  | finalize (path : String)
  | translation
  | interrupted
  | undefinedBehaviour
deriving DecidableEq

/-- The text of each message. R's own errors and undefined behaviour have none
of qio's. -/
def WriteError.message : WriteError → String
  | .columnType name type =>
      type.label ++ s!" column `{name}` must be " ++ type.expected ++ "."
  | .notANumber name type =>
      type.label ++ s!" column `{name}` cannot contain NaN."
  | .notWhole name =>
      s!"Column `{name}` must contain finite whole numbers."
  | .range name =>
      s!"Column `{name}` contains values outside the supported range."
  | .timestampRange name =>
      s!"TIMESTAMP column `{name}` is outside the INT64 range."
  | .requiredMissing name =>
      s!"Required column `{name}` contains missing values."
  | .malformedFactor => "malformed factor"
  | .convert error => error.message
  | .rowGroupSize =>
      "`row_group_size` must be a single positive whole number, or NULL."
  | .requiredColumn column =>
      s!"qio: column {column + 1} is REQUIRED but contains missing values"
  | .writeBatch column row status =>
      s!"qio: failed to write column {column + 1} at row {row + 1}: " ++
        status
  | .newRowGroup group status =>
      s!"qio: failed to close row group {group + 1}: " ++ status
  | .finalize path => s!"qio: failed to finalize '{path}'"
  | .translation => ""
  | .interrupted => ""
  | .undefinedBehaviour => ""

end Errors

section Inputs

/-- The declared encoding of an R string. -/
inductive Encoding where
  | ascii
  | utf8
  | latin1
  | native
  | bytes
deriving DecidableEq, Repr

/-- The classes that decide how a column is taken. A class without a method of
its own for the functions used here is `none`. A factor has its levels and their
declared encodings. -/
inductive InputClass where
  | none
  | date
  | posixct
  | difftime
  | factor (levels : List RCell) (marks : List Encoding)
deriving DecidableEq

/-- R's strings have no NUL inside and a length that fits an `int`. -/
def StringLimits (cell : RCell) : Prop :=
  ∀ bytes, cell = .str bytes → (0 : UInt8) ∉ bytes ∧ bytes.length < 2 ^ 31

/-- A column of the data frame, with the declared encodings of its strings. -/
structure InputColumn where
  vector : RVector
  marks : List Encoding
  rclass : InputClass
  elements : ∀ cell ∈ vector.cells, cell.sexptype = some vector.sexptype
  strings : ∀ cell ∈ vector.cells, StringLimits cell
  levels : ∀ levels marks, rclass = .factor levels marks →
    ∀ cell ∈ levels, cell.sexptype = some .strsxp ∧ StringLimits cell

/-- A column that is not a factor has no levels. -/
theorem no_levels
    (levels : List RCell) (marks : List Encoding)
    (hclass : InputClass.none = .factor levels marks) :
    ∀ cell ∈ levels, cell.sexptype = some .strsxp ∧ StringLimits cell := by
  cases hclass

/-- `is.numeric()`. -/
def InputColumn.isNumeric (x : InputColumn) : Bool :=
  (x.vector.sexptype == .intsxp || x.vector.sexptype == .realsxp) &&
    x.rclass == .none

def InputColumn.isFactor (x : InputColumn) : Bool :=
  match x.rclass with
  | .factor _ _ => true
  | _ => false

/-- The string a factor code stands for. -/
def levelOf (levels : List RCell) (cell : RCell) : Except WriteError RCell :=
  match cell with
  | .int word =>
      if word = naInteger then
        .ok .strNA
      else if word.toInt < 1 then
        .error .malformedFactor
      else
        match levels[word.toInt.toNat - 1]? with
        | some level => .ok level
        | none => .error .malformedFactor
  | _ => .error .malformedFactor

/-- `as.character()` of a factor, and a character vector as it is. -/
def asCharacter (x : InputColumn) : Except WriteError RVector :=
  match x.rclass with
  | .factor levels _ => do
      let cells ← x.vector.cells.mapM (levelOf levels)
      return ⟨.strsxp, cells⟩
  | _ => .ok x.vector

/-- The declared encodings of the strings of `as.character()`. -/
def characterMarks (x : InputColumn) : List Encoding :=
  match x.rclass with
  | .factor _ marks =>
      x.vector.cells.map fun cell =>
        match cell with
        | .int word => marks.getD (word.toInt.toNat - 1) .native
        | _ => .native
  | _ => x.marks

end Inputs

section Checks

/-- `is.nan()` of a double; `NA` is not one. -/
def isNaN : RDouble → Bool
  | .nan _ _ => true
  | _ => false

def isFinite : RDouble → Bool
  | .num _ => true
  | _ => false

/-- `x == trunc(x)` of a finite double. -/
def isWhole : RDouble → Bool
  | .num q => (truncate q : ℚ) == q
  | _ => false

/-- `x < min | x > max`. -/
def outside (min max : ℚ) : RDouble → Bool
  | .num q => decide (q < min) || decide (max < q)
  | .inf _ => true
  | _ => false

/-- `qio_validate_integral`. -/
def validateIntegral
    (x : List RDouble) (name : String) (min max : ℚ) :
    Except WriteError Unit :=
  let present := x.filter fun d => !isMissing d
  if present.any (fun d => !isFinite d) || present.any (fun d => !isWhole d) then
    .error (.notWhole name)
  else if present.any (outside min max) then
    .error (.range name)
  else
    .ok ()

/-- R's `x * factor` for a positive finite factor. -/
def scaleUp (factor : ℚ) : RDouble → RDouble
  | .num q => nearestDouble (q * factor)
  | d => quieted d

/-- `scaled <= -2^63 | scaled >= 2^63`. -/
def outsideInt64 : RDouble → Bool
  | .num q => decide (q ≤ -2 ^ 63) || decide (2 ^ 63 ≤ q)
  | .inf _ => true
  | _ => false

/-- `as.integer()` of a double: what does not fit is missing. -/
def asInteger : RDouble → BitVec 32
  | .num q =>
      if -2 ^ 31 < q ∧ q < 2 ^ 31 then
        BitVec.ofInt 32 (truncate q)
      else
        naInteger
  | _ => naInteger

variable (platform : Platform)

/-- `as.double(x)`. -/
def asDoubles (x : InputColumn) : Except WriteError (List RDouble) :=
  match x.vector.cells.mapM (asDouble platform) with
  | .ok values => .ok values
  | .error error => .error (.convert error)

end Checks

section Preparing

theorem mapM_of_asDoubles
    {platform : Platform} {x : InputColumn} {values : List RDouble}
    (h : asDoubles platform x = .ok values) :
    x.vector.cells.mapM (asDouble platform) = .ok values := by
  rw [asDoubles] at h
  split at h
  · rename_i doubles hmap
    rw [hmap, Except.ok.inj h]
  · cases h

variable (platform : Platform)

/-- `as.double(x)` of a column that may not contain NaN. -/
def doublesWithoutNaN (x : InputColumn) (s : WriteSpec) :
    Except WriteError (List RDouble) := do
  let value ← asDoubles platform x
  if value.any isNaN then
    .error (.notANumber s.name s.type)
  else
    return value

/-- `qio_prepare_write_column`. -/
def prepareWriteColumn (x : InputColumn) (s : WriteSpec) :
    Except WriteError RVector :=
  match s.type with
  | .date =>
      if x.rclass ≠ .date ∧ ¬ x.isNumeric then
        .error (.columnType s.name s.type)
      else do
        let value ← doublesWithoutNaN platform x s
        validateIntegral value s.name (-2 ^ 31) (2 ^ 31 - 1)
        return realVector value
  | .timestamp unit =>
      if x.rclass ≠ .posixct then
        .error (.columnType s.name s.type)
      else do
        let value ← doublesWithoutNaN platform x s
        let present := value.filter fun d => !isMissing d
        let scaled := present.map (scaleUp unit.perSecond)
        if present.any (fun d => !isFinite d) ||
            scaled.any (fun d => !isFinite d) || scaled.any outsideInt64 then
          .error (.timestampRange s.name)
        else
          return realVector value
  | .boolean =>
      if x.vector.sexptype ≠ .lglsxp then
        .error (.columnType s.name s.type)
      else
        .ok x.vector
  | .int32 =>
      if ¬ x.isNumeric then
        .error (.columnType s.name s.type)
      else do
        let value ← doublesWithoutNaN platform x s
        validateIntegral value s.name (-2 ^ 31) (2 ^ 31 - 1)
        return ⟨.intsxp, value.map fun d => .int (asInteger d)⟩
  | .int64 =>
      if ¬ x.isNumeric then
        .error (.columnType s.name s.type)
      else do
        let value ← doublesWithoutNaN platform x s
        validateIntegral value s.name (-2 ^ 53) (2 ^ 53)
        return realVector value
  | .float =>
      if ¬ x.isNumeric then
        .error (.columnType s.name s.type)
      else do
        let value ← asDoubles platform x
        return realVector value
  | .double =>
      if ¬ x.isNumeric then
        .error (.columnType s.name s.type)
      else do
        let value ← asDoubles platform x
        return realVector value
  | .string => do
      let text ← asCharacter x
      if text.sexptype ≠ .strsxp then
        .error (.columnType s.name s.type)
      else
        return text

/-- A missing value, in the sense of `qio_has_null`. -/
def isNull : RCell → Bool
  | .lglNA => true
  | .int word => word == naInteger
  | .dbl .na => true
  | .strNA => true
  | _ => false

theorem isNull_cases
    {cell : RCell}
    (hnull : isNull cell = true) :
    cell = .lglNA ∨ cell = .int naInteger ∨ cell = .dbl .na ∨ cell = .strNA := by
  cases cell with
  | lglNA =>
      exact Or.inl rfl
  | int word =>
      obtain rfl : word = naInteger := eq_of_beq hnull
      exact Or.inr (Or.inl rfl)
  | dbl value =>
      cases value with
      | na =>
          exact Or.inr (Or.inr (Or.inl rfl))
      | _ =>
          cases hnull
  | strNA =>
      exact Or.inr (Or.inr (Or.inr rfl))
  | _ =>
      cases hnull

/-- `qio_has_null`. -/
def hasNull (x : RVector) : Bool :=
  x.cells.any isNull

/-- One turn of the loop of `qio_prepare_write_columns`. -/
def prepareRequired (x : InputColumn) (s : WriteSpec) :
    Except WriteError RVector := do
  let column ← prepareWriteColumn platform x s
  if ¬ s.nullable ∧ hasNull column then
    .error (.requiredMissing s.name)
  else
    return column

/-- `qio_prepare_write_columns`. -/
def prepareWriteColumns (x : List InputColumn) (schema : List WriteSpec) :
    Except WriteError (List RVector) :=
  (x.zip schema).mapM fun entry => prepareRequired platform entry.1 entry.2

def belowOne : RDouble → Bool
  | .num q => decide (q < 1)
  | .inf negative => negative
  | _ => false

/-- `qio_row_group_size`, of a number. -/
def rowGroupSize : Option RDouble → Except WriteError (Option RDouble)
  | none => .ok none
  | some size =>
      if isMissing size ∨ ¬ isFinite size ∨ belowOne size ∨ ¬ isWhole size then
        .error .rowGroupSize
      else
        .ok (some size)

end Preparing

end Write
end QioParquet
