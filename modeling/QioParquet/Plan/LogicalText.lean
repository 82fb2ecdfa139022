import QioParquet.Lib.Text
import QioParquet.Plan.Convert
import Mathlib.Tactic

/-!
# Annotations as text

The footer's annotations reach R as text: `schema()` gives the name of each
annotation and its parameters (`unit=MICROS, adjusted_to_utc=true`). The plan
parses the parameters, spells them into the name of a converter
(`timestamp_utc_micros_UTC`), and `qio_apply_converter` reads them from there. The
plan of `ReadPlan` keeps the parameters as they are; here both texts are written
and read, and the two plans agree.
-/

namespace QioParquet
namespace Plan

open Lib Read

section Rendering

/-- `carquet_geospatial_edge_algorithm_t`. -/
inductive EdgeAlgorithm where
  | spherical
  | vincenty
  | thomas
  | andoyer
  | karney
  | unknown
deriving DecidableEq, Repr

/-- `carquet_logical_type_t`. A time unit outside the enumeration is `none`. -/
inductive LogicalType where
  | unknown
  | string
  | map
  | list
  | enum
  | decimal (precision scale : ℤ)
  | date
  | time (unit : Option TimeUnit) (adjustedToUtc : Bool)
  | timestamp (unit : Option TimeUnit) (adjustedToUtc : Bool)
  | integer (bitWidth : ℤ) (isSigned : Bool)
  | null
  | json
  | bson
  | uuid
  | float16
  | variant (specificationVersion : ℤ)
  | geometry (crs : String)
  | geography (crs : String) (algorithm : Option EdgeAlgorithm)
  | interval
deriving DecidableEq, Repr

/-- `%d`. -/
def numberText (n : ℤ) : String :=
  String.ofList (decimalText n)

def flagText (flag : Bool) : String :=
  if flag then "true" else "false"

/-- `qio_time_unit_name`. -/
def timeUnitName : Option TimeUnit → String
  | some .millis => "MILLIS"
  | some .micros => "MICROS"
  | some .nanos => "NANOS"
  | none => "UNKNOWN"

/-- `qio_edge_algorithm_name`. -/
def edgeAlgorithmName : EdgeAlgorithm → String
  | .spherical => "SPHERICAL"
  | .vincenty => "VINCENTY"
  | .thomas => "THOMAS"
  | .andoyer => "ANDOYER"
  | .karney => "KARNEY"
  | .unknown => "UNKNOWN"

/-- `qio_logical_type_name`. -/
def logicalTypeName : LogicalType → String
  | .unknown => "UNKNOWN"
  | .string => "STRING"
  | .map => "MAP"
  | .list => "LIST"
  | .enum => "ENUM"
  | .decimal _ _ => "DECIMAL"
  | .date => "DATE"
  | .time _ _ => "TIME"
  | .timestamp _ _ => "TIMESTAMP"
  | .integer _ _ => "INTEGER"
  | .null => "NULL"
  | .json => "JSON"
  | .bson => "BSON"
  | .uuid => "UUID"
  | .float16 => "FLOAT16"
  | .variant _ => "VARIANT"
  | .geometry _ => "GEOMETRY"
  | .geography _ _ => "GEOGRAPHY"
  | .interval => "INTERVAL"

/-- The two fields of a time annotation. -/
def timeText (unit : Option TimeUnit) (adjustedToUtc : Bool) : String :=
  "unit=" ++ timeUnitName unit ++ ", adjusted_to_utc=" ++ flagText adjustedToUtc

def crsText (crs : String) : String :=
  if crs = "" then "OGC:CRS84" else crs

/-- `qio_logical_type_details`. -/
def logicalTypeDetails : LogicalType → Option String
  | .decimal precision scale =>
      some ("precision=" ++ numberText precision ++ ", scale=" ++ numberText scale)
  | .integer bitWidth isSigned =>
      some ("bit_width=" ++ numberText bitWidth ++ ", signed=" ++ flagText isSigned)
  | .time unit adjustedToUtc => some (timeText unit adjustedToUtc)
  | .timestamp unit adjustedToUtc => some (timeText unit adjustedToUtc)
  | .variant version =>
      some ("specification_version=" ++ numberText (if version = 0 then 1 else version))
  | .geometry crs => some ("crs=" ++ crsText crs)
  | .geography crs algorithm =>
      some ("crs=" ++ crsText crs ++ ", algorithm=" ++
        edgeAlgorithmName (algorithm.getD .spherical))
  | _ => none

/-- The columns of `schema()` that the annotations are read from. -/
structure SchemaText where
  physicalType : String
  logicalType : Option String
  logicalDetails : Option String
deriving DecidableEq

/-- Their row for a leaf, as `qio_parquet_schema` fills it. -/
def schemaText (type : PhysicalType) (logical : Option LogicalType) : SchemaText where
  physicalType := type.name
  logicalType := logical.map logicalTypeName
  logicalDetails := logical.bind logicalTypeDetails

end Rendering

section Parsing

/-- `grepl(pattern, text, fixed = TRUE)`. -/
def grepl (pattern text : String) : Bool :=
  decide (pattern.toList <:+: text.toList)

/-- `sub("^.*key(group).*$", "\\1", text)`. -/
def subText (group : List Char → Option (List Char)) (key text : String) : String :=
  String.ofList (subGroup group key.toList text.toList)

/-- `as.integer()` of a text: `NA` if it is no number or does not fit. -/
def asIntegerText (text : String) : Option ℤ :=
  (readDecimal text.toList).filter fun n =>
    decide (-2 ^ 31 < n) && decide (n < 2 ^ 31)

structure DecimalDetails where
  precision : ℤ
  scale : ℤ
deriving DecidableEq

/-- The `number()` of `qio_parse_decimal_details`. -/
def decimalField (field details : String) : ℤ :=
  if grepl (field ++ "=") details then
    (asIntegerText (subText numberGroup (field ++ "=") details)).getD 0
  else
    0

/-- `qio_parse_decimal_details`. -/
def parseDecimalDetails (details : Option String) : DecimalDetails where
  precision := decimalField "precision" (details.getD "")
  scale := decimalField "scale" (details.getD "")

structure IntegerDetails where
  bitWidth : Option ℤ
  isSigned : Bool
deriving DecidableEq

/-- `qio_parse_integer_details`. -/
def parseIntegerDetails (details : Option String) : IntegerDetails where
  bitWidth :=
    if grepl "bit_width=" (details.getD "") then
      asIntegerText (subText (spanGroup Char.isDigit) "bit_width=" (details.getD ""))
    else
      none
  isSigned := !grepl "signed=false" (details.getD "")

structure TimeDetails where
  unit : Option String
  adjustedToUtc : Bool
deriving DecidableEq

/-- `qio_parse_time_details`. -/
def parseTimeDetails (details : Option String) : TimeDetails where
  unit :=
    if grepl "unit=" (details.getD "") then
      some (subText (spanGroup Char.isAlpha) "unit=" (details.getD ""))
    else
      none
  adjustedToUtc := grepl "adjusted_to_utc=true" (details.getD "")

end Parsing

section Naming

/-- `tolower()`. -/
def toLowerText (text : String) : String :=
  String.ofList (text.toList.map Char.toLower)

/-- `unit %in% c("MILLIS", "MICROS", "NANOS")`. -/
def knownUnit : Option String → Option String
  | none => none
  | some unit =>
      if unit = "MILLIS" ∨ unit = "MICROS" ∨ unit = "NANOS" then some unit else none

def TimeMode.name : TimeMode → String
  | .numeric => "numeric"
  | .hms => "hms"

def timestampName (adjustedToUtc : Bool) (unit tz : String) : String :=
  (if adjustedToUtc then "timestamp_utc_" else "timestamp_local_") ++
    toLowerText unit ++ "_" ++ tz

def timeName (mode unit : String) : String :=
  "time_" ++ mode ++ "_" ++ toLowerText unit

def decimalName (binaryStorage : Bool) (scale : ℤ) : String :=
  (if binaryStorage then "decimal_binary_" else "decimal_int_") ++ numberText scale

/-- The rule for an INTEGER annotation; a missing width claims nothing. -/
def integerName (details : IntegerDetails) : Option String :=
  if details.isSigned = false ∧ details.bitWidth = some 32 then
    some "uint32"
  else if details.bitWidth = some 8 ∨ details.bitWidth = some 16 ∨
      details.bitWidth = some 32 then
    some "int32"
  else
    none

def binaryStorage (physicalType : String) : Bool :=
  physicalType = "BYTE_ARRAY" ∨ physicalType = "FIXED_LEN_BYTE_ARRAY"

/-- `qio_resolve_logical`, one schema row: the name of the converter. -/
def resolveLogicalText (options : ReadOptions) (row : SchemaText) : Option String :=
  let c : Option String :=
    if row.logicalType = some "NULL" then some "null_logical" else none
  let c :=
    if row.physicalType = "INT32" ∧ row.logicalType = some "DATE" then
      some "date32"
    else
      c
  let stamp := parseTimeDetails row.logicalDetails
  let c :=
    if row.logicalType = some "TIMESTAMP" ∧ row.physicalType = "INT64" then
      match knownUnit stamp.unit with
      | some unit => some (timestampName stamp.adjustedToUtc unit options.tz)
      | none => c
    else
      c
  let c :=
    if row.logicalType = some "TIME" then
      match knownUnit stamp.unit with
      | some unit => some (timeName options.time.name unit)
      | none => c
    else
      c
  let c :=
    if c = none ∧ row.logicalType = some "INTEGER" then
      integerName (parseIntegerDetails row.logicalDetails)
    else
      c
  let c :=
    if row.logicalType = some "DECIMAL" then
      some (decimalName (binaryStorage row.physicalType)
        (parseDecimalDetails row.logicalDetails).scale)
    else
      c
  let c :=
    if (row.logicalType = some "STRING" ∨ row.logicalType = some "ENUM" ∨
        row.logicalType = some "JSON") ∧ row.physicalType = "BYTE_ARRAY" then
      some "text"
    else
      c
  let c :=
    if row.logicalType = some "UUID" ∧ row.physicalType = "FIXED_LEN_BYTE_ARRAY" then
      some "uuid"
    else
      c
  let c :=
    if row.logicalType = some "FLOAT16" ∧
        row.physicalType = "FIXED_LEN_BYTE_ARRAY" then
      some "float16"
    else
      c
  let c :=
    if c = none ∧ binaryStorage row.physicalType then some "binary" else c
  if c = none ∧ row.physicalType = "INT64" ∧
      (row.logicalType = none ∨ row.logicalType = some "INTEGER") then
    match options.int64 with
    | .bit64 => some "int64_bit64"
    | .double => some "int64_double"
  else
    c

end Naming

section Dispatch

/-- What `qio_apply_converter` runs. -/
inductive ConverterCall where
  | applyDecimalScale (scale : ℤ)
  | decimalFromBinary (scale : ℤ)
  | asPosixct (unit : TimeUnit) (tz : String) (adjusted : Bool)
  | asTimeOfDay (unit : TimeUnit) (mode : String)
  | date
  | int96
  | integer64
  | nullLogical
  | float16
  | unchanged
deriving DecidableEq

/-- The names of `per_second`. -/
def perSecondName (name : List Char) : Option TimeUnit :=
  if name = "millis".toList then
    some .millis
  else if name = "micros".toList then
    some .micros
  else if name = "nanos".toList then
    some .nanos
  else
    none

/-- The last `switch` of `qio_apply_converter`. Its names that begin with
`timestamp_` are never reached. -/
def converterSwitch (name : String) : ConverterCall :=
  if name = "date32" then .date
  else if name = "int96" then .int96
  else if name = "int64_bit64" then .integer64
  else if name = "null_logical" then .nullLogical
  else if name = "float16" then .float16
  else .unchanged

/-- The dispatch of `qio_apply_converter`. It is `none` where R raises, or goes on
with a missing scale; no name the plan builds gets there. -/
def decodeConverter (name : String) : Option ConverterCall :=
  if "decimal_int_".toList <+: name.toList then
    (asIntegerText (String.ofList (name.toList.drop 12))).map .applyDecimalScale
  else if "decimal_binary_".toList <+: name.toList then
    (asIntegerText (String.ofList (name.toList.drop 15))).map .decimalFromBinary
  else if "timestamp_".toList <+: name.toList then
    match strsplit '_' (name.toList.drop 10) with
    | zone :: unit :: rest =>
        (perSecondName unit).map fun unit =>
          .asPosixct unit (String.ofList (['_'].intercalate rest))
            (zone == "utc".toList)
    | _ => none
  else if "time_".toList <+: name.toList then
    match strsplit '_' (name.toList.drop 5) with
    | mode :: unit :: _ =>
        (perSecondName unit).map fun unit => .asTimeOfDay unit (String.ofList mode)
    | _ => none
  else
    some (converterSwitch name)

variable (platform : Platform)

/-- Running it on a column. -/
def ConverterCall.run (x : RVector) : ConverterCall → Except ConvertError RColumn
  | .applyDecimalScale scale => do
      let values ← scaleDown platform x (platform.pow10 scale)
      return ⟨realVector values, .none⟩
  | .decimalFromBinary scale => Plan.decimalFromBinary platform x scale
  | .asPosixct unit tz adjusted => Plan.asPosixct platform x unit.perSecond tz adjusted
  | .asTimeOfDay unit mode =>
      Plan.asTimeOfDay platform x unit.perSecond (if mode = "hms" then .hms else .numeric)
  | .date => do
      let values ← x.cells.mapM (asDouble platform)
      return ⟨realVector values, .date⟩
  | .int96 => do
      let seconds ← scaleDown platform x (.num 1)
      return ⟨realVector seconds, .posixct "UTC"⟩
  | .integer64 => .ok ⟨x, .integer64⟩
  | .nullLogical =>
      .ok ⟨⟨.lglsxp, List.replicate x.cells.length .lglNA⟩, .none⟩
  | .float16 => decodeFloat16 x
  | .unchanged => .ok ⟨x, .none⟩

end Dispatch

section Converters

/-- The name the plan gives a converter. -/
def Converter.name : Converter → String
  | .boolean => "boolean"
  | .int32 => "int32"
  | .int64 => "int64"
  | .int96 => "int96"
  | .float => "float"
  | .double => "double"
  | .binary => "binary"
  | .nullLogical => "null_logical"
  | .date32 => "date32"
  | .timestamp adjusted unit tz => timestampName adjusted (timeUnitName (some unit)) tz
  | .time mode unit => timeName mode.name (timeUnitName (some unit))
  | .uint32 => "uint32"
  | .decimalInt scale => decimalName false scale
  | .decimalBinary scale => decimalName true scale
  | .text => "text"
  | .uuid => "uuid"
  | .float16 => "float16"
  | .int64Double => "int64_double"
  | .int64Bit64 => "int64_bit64"

/-- What a converter runs. -/
def Converter.call : Converter → ConverterCall
  | .decimalInt scale => .applyDecimalScale scale
  | .decimalBinary scale => .decimalFromBinary scale
  | .timestamp adjusted unit tz => .asPosixct unit tz adjusted
  | .time mode unit => .asTimeOfDay unit mode.name
  | .date32 => .date
  | .int96 => .int96
  | .int64Bit64 => .integer64
  | .nullLogical => .nullLogical
  | .float16 => .float16
  | _ => .unchanged

/-- A call runs what the converter stands for. -/
theorem run_call
    (platform : Platform) (x : RVector) (converter : Converter) :
    converter.call.run platform x = applyConverter platform x converter := by
  cases converter with
  | time mode unit =>
      cases mode <;> rfl
  | _ =>
      rfl

end Converters

end Plan
end QioParquet
