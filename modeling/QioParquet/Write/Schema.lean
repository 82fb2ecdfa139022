import QioParquet.Plan.LogicalText
import QioParquet.Write.Pack
import Mathlib.Tactic

/-!
# The writer schema

`qio_resolve_write_schema` gives every column of a data frame a row of the writer
schema: the inferred one, or what the entry of an explicit schema says instead. The
rows are text, as in the source. Names may be missing or empty; `qio_write_body`
completes them when it adds the columns to the file's schema.

A name is a string of R. How R compares two of them, and what a file stores of one, is
not the same question: `duplicated()` and `match()` ask the first, and
`Rf_translateCharUTF8` answers the second.
-/

namespace QioParquet
namespace Write

open Lib Read Plan

section Names

/-- The strings that are names: how R compares and shows them, and what is stored. -/
structure NameKind (ν : Type) where
  same : ν → ν → Bool
  isEmpty : ν → Bool
  text : ν → String
  store : ν → Except WriteError String

/-- Names whose text is all there is to them. -/
def plainNames : NameKind String where
  same a b := a == b
  isEmpty name := name == ""
  text name := name
  store name := .ok name

variable {ν : Type} (names : NameKind ν)

/-- A comparison of two elements of a character vector. `NA` is only itself. -/
def NameKind.sameName : Option ν → Option ν → Bool
  | some a, some b => names.same a b
  | none, none => true
  | _, _ => false

/-- A name as `paste()` has it. -/
def nameText (name : Option String) : String :=
  name.getD "NA"

def NameKind.shown (name : Option ν) : Option String :=
  name.map names.text

/-- `names[duplicated(names)]`: the names that come a second time. -/
def NameKind.duplicated (xs : List (Option ν)) : List (Option ν) :=
  xs.zipIdx.filterMap fun entry =>
    if (xs.take entry.2).any (names.sameName entry.1) then some entry.1 else none

end Names

section Rows

/-- A row of a `qio_parquet_schema`. A missing physical or repetition type is
refused like one that is not known, so it needs no value of its own. -/
structure SchemaRow (ν : Type) where
  name : Option ν
  physicalType : String
  logicalType : Option String
  logicalDetails : Option String
  repetitionType : String
deriving DecidableEq

/-- A column of the data frame with its name, which may be `NA`. -/
structure FrameColumn (ν : Type) where
  name : Option ν
  x : InputColumn

/-- The errors of resolving a schema. -/
inductive SchemaError where
  | duplicatedNames (names : List (Option String))
  | noColumns
  | unsupportedType (name : Option String) (type : String)
  | missingColumns (names : List (Option String))
  | schemaNames
  | schemaTypes
  | schemaPairs
  | schemaTimestamp
  | unsupportedMapping (name : Option String)
  | write (error : WriteError)
deriving DecidableEq

def quotedNames (names : List (Option String)) : String :=
  ", ".intercalate (names.map fun name => "`" ++ nameText name ++ "`")

def SchemaError.message : SchemaError → String
  | .duplicatedNames names =>
      "`x` must have unique column names. Duplicated: " ++ quotedNames names ++ "."
  | .noColumns => "`x` has no columns."
  | .unsupportedType name type =>
      "Column `" ++ nameText name ++ "` has unsupported type `" ++ type ++ "`."
  | .missingColumns names =>
      "Schema refers to missing column(s): " ++
        ", ".intercalate (names.map nameText) ++ "."
  | .schemaNames => "Schema column names must be non-missing and unique."
  | .schemaTypes => "`schema` contains an unsupported type or repetition."
  | .schemaPairs =>
      "`schema` contains an invalid physical and logical type combination."
  | .schemaTimestamp => "`schema` contains an invalid TIMESTAMP declaration."
  | .unsupportedMapping name =>
      "Unsupported writer mapping for column `" ++ nameText name ++ "`."
  | .write error => error.message

end Rows

section Inferring

variable {ν : Type} (names : NameKind ν)

/-- `typeof()`. -/
def typeofName : SexpType → String
  | .lglsxp => "logical"
  | .intsxp => "integer"
  | .realsxp => "double"
  | .strsxp => "character"
  | .vecsxp => "list"

/-- `qio_column_repetition`. -/
def columnRepetition (x : InputColumn) : String :=
  if hasNull x.vector then "OPTIONAL" else "REQUIRED"

/-- The physical type, logical type and details `qio_infer_column` gives a column. -/
def inferType (x : InputColumn) : Option (String × Option String × Option String) :=
  if x.rclass = .date then
    some ("INT32", some "DATE", none)
  else if x.rclass = .posixct then
    some ("INT64", some "TIMESTAMP", some "unit=MICROS, adjusted_to_utc=true")
  else if x.isFactor ∨ x.vector.sexptype = .strsxp then
    some ("BYTE_ARRAY", some "STRING", none)
  else
    match x.vector.sexptype with
    | .lglsxp => some ("BOOLEAN", none, none)
    | .intsxp => some ("INT32", none, none)
    | .realsxp => some ("DOUBLE", none, none)
    | _ => none

/-- `qio_infer_column`. -/
def inferColumn (column : FrameColumn ν) : Except SchemaError (SchemaRow ν) :=
  match inferType column.x with
  | some (physical, logical, details) =>
      .ok ⟨column.name, physical, logical, details, columnRepetition column.x⟩
  | none =>
      .error (.unsupportedType (names.shown column.name)
        (typeofName column.x.vector.sexptype))

/-- `qio_infer_schema`. -/
def inferSchema (frame : List (FrameColumn ν)) :
    Except SchemaError (List (SchemaRow ν)) :=
  if frame.isEmpty then
    .error .noColumns
  else
    frame.mapM (inferColumn names)

end Inferring

section Validating

variable {ν : Type} (names : NameKind ν)

def allowedPhysical : List String :=
  ["AUTO", "BOOLEAN", "INT32", "INT64", "FLOAT", "DOUBLE", "BYTE_ARRAY"]

def allowedRepetition : List String :=
  ["AUTO", "REQUIRED", "OPTIONAL"]

def allowedPairs : List (String × String) :=
  [("AUTO", "NA"), ("BOOLEAN", "NA"), ("INT32", "NA"), ("INT64", "NA"),
    ("FLOAT", "NA"), ("DOUBLE", "NA"), ("BYTE_ARRAY", "STRING"), ("INT32", "DATE"),
    ("INT64", "TIMESTAMP")]

/-- The pair of types of a row; a missing logical type is spelled `NA`. -/
def SchemaRow.pair (row : SchemaRow ν) : String × String :=
  (row.physicalType, row.logicalType.getD "NA")

/-- A row whose TIMESTAMP details name a unit and UTC. -/
def validTimestamp (row : SchemaRow ν) : Bool :=
  let details := parseTimeDetails row.logicalDetails
  (knownUnit details.unit).isSome && details.adjustedToUtc

/-- `qio_validate_schema_object`, of an object with the right columns. -/
def validateSchemaObject (schema : List (SchemaRow ν)) : Except SchemaError Unit :=
  if (∃ row ∈ schema, row.name.all names.isEmpty) ∨
      names.duplicated (schema.map SchemaRow.name) ≠ [] then
    .error .schemaNames
  else if ∃ row ∈ schema, row.physicalType ∉ allowedPhysical ∨
      row.repetitionType ∉ allowedRepetition then
    .error .schemaTypes
  else if ∃ row ∈ schema, row.pair ∉ allowedPairs then
    .error .schemaPairs
  else if ∃ row ∈ schema, row.logicalType = some "TIMESTAMP" ∧
      validTimestamp row = false then
    .error .schemaTimestamp
  else
    .ok ()

end Validating

section Resolving

variable {ν : Type} (names : NameKind ν)

/-- An entry of the explicit schema in the place of an inferred row. -/
def overrideRow (entry row : SchemaRow ν) : SchemaRow ν :=
  if entry.physicalType ≠ "AUTO" then
    entry
  else if entry.repetitionType ≠ "AUTO" then
    { row with repetitionType := entry.repetitionType }
  else
    row

/-- `match()`: the place of a name among others, or their number. -/
def NameKind.find (name : Option ν) (xs : List (Option ν)) : Nat :=
  xs.findIdx fun x => names.sameName x name

/-- One turn of the loop over the explicit schema, for an entry and its place. -/
def applyEntry (rows : List (SchemaRow ν)) (entry : SchemaRow ν × Nat) :
    List (SchemaRow ν) :=
  rows.modify entry.2 (overrideRow entry.1)

/-- The inferred rows with the entries of an explicit schema. -/
def declaredRows (frame : List (FrameColumn ν)) (inferred : List (SchemaRow ν)) :
    Option (List (SchemaRow ν)) → Except SchemaError (List (SchemaRow ν))
  | none => .ok inferred
  | some schema => do
      validateSchemaObject names schema
      let missing := (schema.map SchemaRow.name).filter fun name =>
        !(frame.map FrameColumn.name).any fun x => names.sameName x name
      if missing.isEmpty then
        let idx := schema.map fun entry =>
          names.find entry.name (inferred.map SchemaRow.name)
        return (schema.zip idx).foldl applyEntry inferred
      else
        .error (.missingColumns (missing.map names.shown))

/-- The repetition of a row that leaves it to the data. -/
def autoRepetition (column : FrameColumn ν) (row : SchemaRow ν) : SchemaRow ν :=
  if row.repetitionType = "AUTO" then
    { row with repetitionType := columnRepetition column.x }
  else
    row

/-- The part of `qio_resolve_write_schema` before the columns are prepared. -/
def resolveRows (frame : List (FrameColumn ν)) (schema : Option (List (SchemaRow ν))) :
    Except SchemaError (List (SchemaRow ν)) := do
  let duplicated := names.duplicated (frame.map FrameColumn.name)
  if duplicated.isEmpty then
    let inferred ← inferSchema names frame
    let rows ← declaredRows names frame inferred schema
    return List.zipWith autoRepetition frame rows
  else
    .error (.duplicatedNames ((duplicated.eraseDupsBy names.sameName).map names.shown))

end Resolving

section Preparing

variable {ν : Type}

/-- The mapping a row asks for: the branches of `qio_prepare_write_column`. -/
def SchemaRow.type (row : SchemaRow ν) : Option WriteType :=
  if row.logicalType = some "DATE" then
    some .date
  else if row.logicalType = some "TIMESTAMP" then
    match (parseTimeDetails row.logicalDetails).unit with
    | some "MILLIS" => some (.timestamp .millis)
    | some "MICROS" => some (.timestamp .micros)
    | some "NANOS" => some (.timestamp .nanos)
    | _ => none
  else if row.physicalType = "BOOLEAN" then
    some .boolean
  else if row.physicalType = "INT32" then
    some .int32
  else if row.physicalType = "INT64" then
    some .int64
  else if row.physicalType = "FLOAT" then
    some .float
  else if row.physicalType = "DOUBLE" then
    some .double
  else if row.physicalType = "BYTE_ARRAY" ∧ row.logicalType = some "STRING" then
    some .string
  else
    none

/-- A column of `prepared`: its name in the data frame, its row, what the native
writer is told, and its vector. -/
structure PreparedColumn (ν : Type) where
  name : Option ν
  row : SchemaRow ν
  type : WriteType
  nullable : Bool
  vector : RVector
  marks : List Encoding

variable (names : NameKind ν) (platform : Platform)

/-- One turn of the loop of `qio_prepare_write_columns`. -/
def prepareColumn (column : FrameColumn ν) (row : SchemaRow ν) :
    Except SchemaError (PreparedColumn ν) :=
  match row.type with
  | none => .error (.unsupportedMapping (names.shown row.name))
  | some type =>
      let nullable := row.repetitionType == "OPTIONAL"
      match prepareRequired platform column.x
          ⟨nameText (names.shown row.name), type, nullable⟩ with
      | .error error => .error (.write error)
      | .ok vector =>
          .ok ⟨column.name, row, type, nullable, vector, characterMarks column.x⟩

/-- `qio_resolve_write_schema`. -/
def resolveWriteSchema (frame : List (FrameColumn ν))
    (schema : Option (List (SchemaRow ν))) :
    Except SchemaError (List (PreparedColumn ν)) := do
  let rows ← resolveRows names frame schema
  (frame.zip rows).mapM fun entry => prepareColumn names platform entry.1 entry.2

/-- The name completed for a column without one. -/
def completedName (index : Nat) : String :=
  "V" ++ toString (index + 1)

/-- The name `qio_write_body` stores for a column. -/
def storedName (index : Nat) (name : Option ν) : Except WriteError String :=
  match name with
  | some name =>
      if names.isEmpty name then .ok (completedName index) else names.store name
  | none => .ok (completedName index)

/-- The column `qio_write_body` is given at an index. -/
def namedColumn (column : PreparedColumn ν) (index : Nat) :
    Except WriteError WriteColumn := do
  let name ← storedName names index column.name
  return {
    spec := ⟨name, column.type, column.nullable⟩
    vector := column.vector
    marks := column.marks }

/-- The columns `qio_write_body` is given. -/
def writeColumns (prepared : List (PreparedColumn ν)) :
    Except WriteError (List WriteColumn) :=
  prepared.zipIdx.mapM fun entry => namedColumn names entry.1 entry.2

end Preparing

end Write
end QioParquet
