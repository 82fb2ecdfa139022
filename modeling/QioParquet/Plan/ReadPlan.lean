import QioParquet.Read.File
import Mathlib.Tactic

/-!
# The read plan

`read_plan()` gives every leaf of a schema a converter: the physical fallback,
or the one its logical annotation calls for. A selection of columns is resolved
against the plan by dotted path, and turned into leaf indexes and one kind code
for each selected leaf, which is all the native layer is told.

An annotation is kept with the details the plan parses out of it. A converter
is a value of `Converter`; the source spells the same data into a name
(`timestamp_utc_millis_UTC`) and reads it back from there.
-/

namespace QioParquet
namespace Plan

open Lib Read

section Schema

inductive TimeUnit where
  | millis
  | micros
  | nanos
deriving DecidableEq, Repr

/-- Units in one second: `per_second`. -/
def TimeUnit.perSecond : TimeUnit → ℚ
  | .millis => 1000
  | .micros => 1000000
  | .nanos => 1000000000

/-- A logical annotation. A unit the footer does not name is `none`. The
annotations the plan has no rule for are one constructor. -/
inductive Logical where
  | string
  | enum
  | json
  | decimal (scale : ℤ)
  | date
  | time (unit : Option TimeUnit)
  | timestamp (unit : Option TimeUnit) (adjustedToUtc : Bool)
  | integer (bitWidth : ℤ) (isSigned : Bool)
  | null
  | uuid
  | float16
  | other
deriving DecidableEq, Repr

/-- `carquet_field_repetition_t`; a footer may have any other code. -/
inductive Repetition where
  | required
  | optional
  | repeated
  | unknown (code : ℤ)
deriving DecidableEq, Repr

/-- One row of `schema()`. -/
structure SchemaLeaf where
  path : List String
  physicalType : PhysicalType
  logicalType : Option Logical
  typeLength : ℤ
  maxDef : Nat
  maxRep : Nat
  repetition : Repetition
deriving DecidableEq

/-- The leaf as the native layer knows it. -/
def SchemaLeaf.leaf (s : SchemaLeaf) : Leaf where
  path := s.path
  type := s.physicalType
  typeLength := s.typeLength
  maxDef := s.maxDef
  maxRep := s.maxRep
  integer :=
    match s.logicalType with
    | some (.integer width isSigned) => some (width.toNat, isSigned)
    | _ => none

end Schema

section Options

inductive TimeMode where
  | numeric
  | hms
deriving DecidableEq, Repr

/-- `qio_read_options`. -/
structure ReadOptions where
  int64 : Int64Mode
  time : TimeMode
  tz : String
deriving DecidableEq

end Options

section Converters

/-- The converters of `qio_apply_converter`. -/
inductive Converter where
  | boolean
  | int32
  | int64
  | int96
  | float
  | double
  | binary
  | nullLogical
  | date32
  | timestamp (adjustedToUtc : Bool) (unit : TimeUnit) (tz : String)
  | time (mode : TimeMode) (unit : TimeUnit)
  | uint32
  | decimalInt (scale : ℤ)
  | decimalBinary (scale : ℤ)
  | text
  | uuid
  | float16
  | int64Double
  | int64Bit64
deriving DecidableEq, Repr

/-- The physical fallback: `qio_type_registry`. -/
def typeRegistry : PhysicalType → Converter
  | .boolean => .boolean
  | .int32 => .int32
  | .int64 => .int64
  | .int96 => .int96
  | .float => .float
  | .double => .double
  | .byteArray => .binary
  | .fixedLenByteArray => .binary

/-- Physical types stored as bytes. -/
def storedAsBytes (type : PhysicalType) : Bool :=
  type == .byteArray || type == .fixedLenByteArray

/-- The rule for an INTEGER annotation, which fills only rows no rule before it
has claimed. -/
def integerRule (bitWidth : ℤ) (isSigned : Bool) : Option Converter :=
  if isSigned = false ∧ bitWidth = 32 then
    some .uint32
  else if bitWidth = 8 ∨ bitWidth = 16 ∨ bitWidth = 32 then
    some .int32
  else
    none

theorem integerRule_values
    (bitWidth : ℤ) (isSigned : Bool) :
    integerRule bitWidth isSigned = none ∨
      integerRule bitWidth isSigned = some .uint32 ∨
      integerRule bitWidth isSigned = some .int32 := by
  rw [integerRule]
  split_ifs <;> simp

/-- `qio_resolve_logical`, one schema row. The rules run in the order of the
source, each over the result of the ones before it. -/
def resolveLogical (options : ReadOptions) (s : SchemaLeaf) : Option Converter :=
  let c : Option Converter :=
    if s.logicalType = some .null then some .nullLogical else none
  let c :=
    if s.physicalType = .int32 ∧ s.logicalType = some .date then
      some .date32
    else
      c
  let c :=
    match s.physicalType, s.logicalType with
    | .int64, some (.timestamp (some unit) adjustedToUtc) =>
        some (.timestamp adjustedToUtc unit options.tz)
    | _, _ => c
  let c :=
    match s.logicalType with
    | some (.time (some unit)) => some (.time options.time unit)
    | _ => c
  let c :=
    match c, s.logicalType with
    | none, some (.integer bitWidth isSigned) => integerRule bitWidth isSigned
    | _, _ => c
  let c :=
    match s.logicalType with
    | some (.decimal scale) =>
        if storedAsBytes s.physicalType then
          some (.decimalBinary scale)
        else
          some (.decimalInt scale)
    | _ => c
  let c :=
    if (s.logicalType = some .string ∨ s.logicalType = some .enum ∨
        s.logicalType = some .json) ∧ s.physicalType = .byteArray then
      some .text
    else
      c
  let c :=
    if s.logicalType = some .uuid ∧ s.physicalType = .fixedLenByteArray then
      some .uuid
    else
      c
  let c :=
    if s.logicalType = some .float16 ∧
        s.physicalType = .fixedLenByteArray then
      some .float16
    else
      c
  let c :=
    if c = none ∧ storedAsBytes s.physicalType then some .binary else c
  match c, s.physicalType, s.logicalType with
  | none, .int64, none => some (int64Rule options)
  | none, .int64, some (.integer _ _) => some (int64Rule options)
  | _, _, _ => c
where
  /-- The rule for 64-bit integers. -/
  int64Rule (options : ReadOptions) : Converter :=
    match options.int64 with
    | .bit64 => .int64Bit64
    | .double => .int64Double

/-- The converter of a schema row: the annotation's, or the fallback. -/
def planConverter (options : ReadOptions) (s : SchemaLeaf) : Converter :=
  (resolveLogical options s).getD (typeRegistry s.physicalType)

/-- The converters a plan can give a leaf of a physical type. -/
def converterFits (mode : Int64Mode) : PhysicalType → Converter → Bool
  | _, .nullLogical => true
  | _, .time _ _ => true
  | _, .int32 => true
  | _, .uint32 => true
  | .boolean, .boolean => true
  | .int32, .date32 => true
  | .int64, .int64 => true
  | .int64, .int64Double => mode == .double
  | .int64, .int64Bit64 => mode == .bit64
  | .int64, .timestamp _ _ _ => true
  | .int96, .int96 => true
  | .float, .float => true
  | .double, .double => true
  | .byteArray, .text => true
  | .fixedLenByteArray, .uuid => true
  | .fixedLenByteArray, .float16 => true
  | type, .binary => storedAsBytes type
  | type, .decimalBinary _ => storedAsBytes type
  | type, .decimalInt _ => !storedAsBytes type
  | _, _ => false

theorem planConverter_fits (options : ReadOptions) (s : SchemaLeaf) :
    converterFits options.int64 s.physicalType (planConverter options s) =
      true := by
  obtain ⟨path, type, logical, length, maxDef, maxRep, repetition⟩ := s
  obtain ⟨int64, time, tz⟩ := options
  rcases logical with _ | annotation
  · cases type <;> cases int64 <;> rfl
  · cases annotation with
    | integer width isSigned =>
        rcases integerRule_values width isSigned with hrule | hrule | hrule <;>
          cases type <;> cases int64 <;>
          simp [planConverter, resolveLogical, resolveLogical.int64Rule,
            hrule, converterFits, storedAsBytes, typeRegistry]
    | time unit =>
        cases unit <;> cases type <;> rfl
    | timestamp unit adjusted =>
        cases unit <;> cases type <;> rfl
    | _ => cases type <;> rfl
end Converters

section Plans

/-- One row of a plan; the columns no read uses are left out. -/
structure PlanRow where
  path : String
  converter : Converter
  nested : Bool
deriving DecidableEq

/-- A row is nested when it is repeated, or its path is not just its name. -/
def SchemaLeaf.nested (s : SchemaLeaf) : Bool :=
  decide (0 < s.maxRep) || s.leaf.dottedPath != s.leaf.name

def planRow (options : ReadOptions) (s : SchemaLeaf) : PlanRow where
  path := s.leaf.dottedPath
  converter := planConverter options s
  nested := s.nested

/-- `qio_build_plan`. -/
def buildPlan (schema : List SchemaLeaf) (options : ReadOptions) :
    List PlanRow :=
  schema.map (planRow options)

@[simp] theorem length_buildPlan
    (schema : List SchemaLeaf) (options : ReadOptions) :
    (buildPlan schema options).length = schema.length := by
  simp [buildPlan]

theorem buildPlan_getElem?
    (schema : List SchemaLeaf) (options : ReadOptions) (index : Nat) :
    (buildPlan schema options)[index]? =
      schema[index]?.map (planRow options) := by
  simp [buildPlan]

end Plans

section Selecting

/-- The errors of a column selection. -/
inductive PlanError where
  | unknown (columns : List String)
  | ambiguous (columns : List String)
deriving DecidableEq

/-- Text of each message. -/
def PlanError.message : PlanError → String
  | .unknown columns =>
      "Unknown Parquet column" ++ (if columns.length = 1 then "" else "s") ++
        ": " ++ ", ".intercalate (columns.map fun c => "`" ++ c ++ "`") ++ "."
  | .ambiguous columns =>
      "Ambiguous Parquet column" ++ (if columns.length = 1 then "" else "s") ++
        ": " ++ ", ".intercalate (columns.map fun c => "`" ++ c ++ "`") ++
        ". More than one leaf has that path."

/-- `which(plan$path == path)`, counted from 0. -/
def whichPath (plan : List PlanRow) (path : String) : List Nat :=
  (List.range plan.length).filter fun index =>
    (plan[index]?.map PlanRow.path) == some path

/-- `qio_resolve_columns`, with indexes counted from 0. -/
def resolveColumns (plan : List PlanRow) (columns : Option (List String)) :
    Except PlanError (Option (List Nat)) :=
  match columns with
  | none => .ok none
  | some paths =>
      let unknown := paths.filter fun path => (whichPath plan path).length == 0
      let ambiguous :=
        paths.filter fun path => decide (1 < (whichPath plan path).length)
      if unknown ≠ [] then
        .error (.unknown unknown)
      else if ambiguous ≠ [] then
        .error (.ambiguous ambiguous)
      else
        .ok (some (paths.flatMap (whichPath plan)))

/-- `qio_select_columns`. `none` asks the native layer for every column. -/
def selectColumns (plan : List PlanRow) (columns : Option (List String)) :
    Except PlanError (Option (List Nat)) := do
  let indexes ← resolveColumns plan columns
  match indexes with
  | none =>
      if plan.any PlanRow.nested then
        return some (dropNested plan (List.range plan.length))
      else
        return none
  | some list => return some (dropNested plan list)
where
  /-- `indexes[!plan$nested[indexes]]`. -/
  dropNested (plan : List PlanRow) (indexes : List Nat) : List Nat :=
    indexes.filter fun index =>
      !(plan[index]?.map PlanRow.nested).getD false

/-- The selected leaves, in the order of the result. -/
def selectedIndexes (plan : List PlanRow) (columns : Option (List Nat)) :
    List Nat :=
  columns.getD (List.range plan.length)

/-- The kind code of a converter. -/
def Converter.kindCode : Converter → ℤ
  | .int64Double => 1
  | .int64Bit64 => 1
  | .text => 2
  | .binary => 3
  | .float16 => 3
  | .uuid => 5
  | .decimalBinary _ => 3
  | .uint32 => 4
  | _ => 0

/-- `qio_column_kinds`. -/
def columnKinds (plan : List PlanRow) (columns : Option (List Nat)) : List ℤ :=
  (selectedIndexes plan columns).map fun index =>
    (plan[index]?.map fun row => row.converter.kindCode).getD 0

end Selecting

end Plan
end QioParquet
