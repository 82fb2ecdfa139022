import QioParquet.Lib.BinaryFormat
import Mathlib.Tactic

/-!
# Stored values and R vectors

The physical values of a Parquet column chunk, the elements of the R vectors
they are placed in, and the errors a native read can raise.

Doubles are exact rationals with `NA`, the other NaNs and the infinities as
symbols of their own; the sign of zero is not kept. A variable-length value
occurs in two forms: its bytes, and the descriptor (address and length) a
decoder hands out, which points into memory that lives for one batch only.
`PhysValue` is generic in that form.
-/

namespace QioParquet
namespace Read

open Lib

abbrev Bytes := List UInt8

section Doubles

def binary64 : BinaryFormat := ⟨53, -1074⟩

def binary32 : BinaryFormat := ⟨24, -149⟩

/-- An R double. `na` stands for the NaNs whose low word is R's 1954. -/
inductive RDouble where
  | na
  | nan (negative : Bool) (fraction : BitVec 52)
  | inf (negative : Bool)
  | num (value : ℚ)
deriving DecidableEq

/-- A stored FLOAT. A finite one is a number the 32-bit format holds. -/
inductive FloatValue where
  | nan (negative : Bool) (fraction : BitVec 23)
  | inf (negative : Bool)
  | num (value : ℚ) (representable : binary32.Representable value)
      (finite : |value| < 2 ^ 128)
deriving DecidableEq

/-- The fraction bit that makes a 32-bit NaN a quiet one. -/
def quietBit : BitVec 23 := 0x400000#23

/-- The integers a signed 64-bit variable holds. -/
def IsInt64 (z : ℤ) : Prop :=
  -2 ^ 63 ≤ z ∧ z < 2 ^ 63

instance (z : ℤ) : Decidable (IsInt64 z) :=
  inferInstanceAs (Decidable (_ ∧ _))

/-- C's conversion of an integer to `double`. -/
def intToDouble (z : ℤ) : RDouble :=
  .num (binary64.round z)

/-- C's conversion of a `float` to `double`; hardware quiets a NaN on the way. -/
def floatToDouble : FloatValue → RDouble
  | .nan negative fraction =>
      .nan negative ((fraction ||| quietBit).setWidth 52 <<< 29)
  | .inf negative => .inf negative
  | .num value _ _ => .num value

/-- Integers up to `2 ^ 53` are converted exactly. -/
theorem intToDouble_exact
    {z : ℤ}
    (hle : |z| ≤ 2 ^ 53) :
    intToDouble z = .num z := by
  rw [intToDouble,
    BinaryFormat.round_intCast (F := binary64) (by decide) hle (by decide)]

theorem intToDouble_natCast
    {n : Nat}
    (hle : n ≤ 2 ^ 53) :
    intToDouble n = .num n := by
  rw [intToDouble_exact (by rw [Nat.abs_cast]; exact_mod_cast hle), Int.cast_natCast]

end Doubles

section Physical

inductive PhysicalType where
  | boolean
  | int32
  | int64
  | int96
  | float
  | double
  | byteArray
  | fixedLenByteArray
deriving DecidableEq, Repr

/-- `carquet_physical_type_name`. -/
def PhysicalType.name : PhysicalType → String
  | .boolean => "BOOLEAN"
  | .int32 => "INT32"
  | .int64 => "INT64"
  | .int96 => "INT96"
  | .float => "FLOAT"
  | .double => "DOUBLE"
  | .byteArray => "BYTE_ARRAY"
  | .fixedLenByteArray => "FIXED_LEN_BYTE_ARRAY"

/-- How the read plan asks for a column: the `QIO_KIND_*` codes. -/
inductive Kind where
  | default
  | int64
  | text
  | binary
  | uint32
  | uuid
deriving DecidableEq, Repr

def Kind.ofCode : ℤ → Option Kind
  | 0 => some .default
  | 1 => some .int64
  | 2 => some .text
  | 3 => some .binary
  | 4 => some .uint32
  | 5 => some .uuid
  | _ => none

/-- The read's `int64` option. Columns of another kind pass no mode. -/
inductive Int64Mode where
  | double
  | bit64
deriving DecidableEq, Repr

/-- One physical value, with variable-length data in the form `β`. -/
inductive PhysValue (β : Type) where
  | boolean (byte : UInt8)
  | int32 (word : BitVec 32)
  | int64 (word : BitVec 64)
  | int96 (word0 word1 word2 : BitVec 32)
  | float (value : FloatValue)
  | double (value : RDouble)
  | byteArray (value : β)
  | fixed (bytes : Bytes)
deriving DecidableEq

variable {β γ : Type}

def PhysValue.type : PhysValue β → PhysicalType
  | .boolean _ => .boolean
  | .int32 _ => .int32
  | .int64 _ => .int64
  | .int96 _ _ _ => .int96
  | .float _ => .float
  | .double _ => .double
  | .byteArray _ => .byteArray
  | .fixed _ => .fixedLenByteArray

/-- Change the form of variable-length data. -/
def PhysValue.map (f : β → γ) : PhysValue β → PhysValue γ
  | .boolean byte => .boolean byte
  | .int32 word => .int32 word
  | .int64 word => .int64 word
  | .int96 word0 word1 word2 => .int96 word0 word1 word2
  | .float value => .float value
  | .double value => .double value
  | .byteArray value => .byteArray (f value)
  | .fixed bytes => .fixed bytes

@[simp] theorem PhysValue.type_map
    (f : β → γ) (v : PhysValue β) :
    (v.map f).type = v.type := by
  cases v <;> rfl

/-- `carquet_byte_array_t`: where the bytes are, and how many. -/
structure ByteArrayRef where
  data : Option Nat
  length : ℤ
deriving DecidableEq

/-- The addressable bytes during one batch. -/
abbrev Memory := Nat → UInt8

/-- The bytes a descriptor denotes. -/
def ByteArrayRef.bytes (memory : Memory) (ref : ByteArrayRef) : Bytes :=
  match ref.data with
  | none => []
  | some address =>
      (List.range ref.length.toNat).map fun k => memory (address + k)

/-- A descriptor a decoder may hand out: a length that is not negative, and
bytes behind it when there are any. -/
def ByteArrayRef.Valid (ref : ByteArrayRef) : Prop :=
  0 ≤ ref.length ∧ (0 < ref.length → ref.data.isSome)

instance (ref : ByteArrayRef) : Decidable ref.Valid :=
  inferInstanceAs (Decidable (_ ∧ _))

theorem ByteArrayRef.length_bytes
    (memory : Memory) {ref : ByteArrayRef}
    (hvalid : ref.Valid) :
    (ref.bytes memory).length = ref.length.toNat := by
  obtain ⟨data, length⟩ := ref
  cases data with
  | none =>
      have hlen : ¬ 0 < length := fun h => by
        simpa using hvalid.2 h
      simp only [ByteArrayRef.bytes, List.length_nil]
      omega
  | some address =>
      simp [ByteArrayRef.bytes]

end Physical

section Vectors

/-- One element of an R vector. -/
inductive RCell where
  | lgl (value : Bool)
  | lglNA
  | int (word : BitVec 32)
  | dbl (value : RDouble)
  | bits (word : BitVec 64)
  | str (bytes : Bytes)
  | strNA
  | raw (bytes : Bytes)
  | null
  | unset
deriving DecidableEq

inductive SexpType where
  | lglsxp
  | intsxp
  | realsxp
  | strsxp
  | vecsxp
deriving DecidableEq, Repr

/-- An R vector. A REALSXP element is a double, or the 64 bits of a bit64
integer; a fresh numeric vector holds no value yet. -/
structure RVector where
  sexptype : SexpType
  cells : List RCell
deriving DecidableEq

/-- R's `NA_INTEGER`. -/
def naInteger : BitVec 32 := BitVec.intMin 32

/-- What `Rf_allocVector` fills a new vector with. -/
def SexpType.fresh : SexpType → RCell
  | .lglsxp => .unset
  | .intsxp => .unset
  | .realsxp => .unset
  | .strsxp => .str []
  | .vecsxp => .null

def allocVector (sexptype : SexpType) (length : Nat) : RVector :=
  ⟨sexptype, List.replicate length sexptype.fresh⟩

end Vectors

section Errors

/-- The errors of the native readers, one constructor for each message. -/
inductive ReadError where
  | invalidByteArray (column : String)
  | embeddedNul (column : String) (row : Nat)
  | invalidUtf8 (column : String) (row : Nat) (offset : Nat)
  | uuidWidth (column : String) (width : ℤ)
  | unsupportedType (type : PhysicalType)
  | dictionaryEntryStart (column : String) (entry : Nat) (size : Nat)
  | dictionaryEntryLength (column : String) (entry length size : Nat)
  | dictionaryIndex (column : String) (index count row : Nat)
  | openColumn (fileColumn rowGroup : Nat) (reason : String)
  | decodeFailed (column : String) (rowGroup : Nat) (encodings : String)
  | shortRead (column : String) (rowGroup : Nat) (got rows : ℤ)
  | taskMessage (text : String)
  | columnIndex (index : ℤ) (columns : Nat)
  | columnKinds
  | invalidKind (kind : ℤ)
  | nestedColumn (path : String)
  | fixedNotRaw (path : String)
  | fixedWidth (path : String) (width : ℤ)
  | rowGroupRange (value : ℤ) (groups : Nat)
  | rowCount
  | tooManyRows
  | batchReader (reason : String)
  | batchColumnCount
  | batchColumn (column : Nat) (status : String)
  | batchFailed (status : String)
  | batchMissing
  | batchRowCount
  | wrongVectorType
  | undefinedBehaviour
  | interrupted
deriving DecidableEq

/-- The text of each message. R's own errors and undefined behaviour have
none of qio's. -/
def ReadError.message : ReadError → String
  | .invalidByteArray column =>
      s!"qio: column '{column}' returned an invalid byte array"
  | .embeddedNul column row =>
      s!"qio: column '{column}' contains an embedded nul at row {row}; R " ++
        "character vectors cannot represent it"
  | .invalidUtf8 column row offset =>
      s!"qio: column '{column}' is annotated as text but row {row} is " ++
        s!"not valid UTF-8 (first bad byte at offset {offset})"
  | .uuidWidth column width =>
      s!"qio: column '{column}' is annotated as UUID but its values are " ++
        s!"{width} bytes; UUID requires exactly 16"
  | .unsupportedType type =>
      s!"qio: unsupported physical type '{type.name}'"
  | .dictionaryEntryStart column entry size =>
      s!"qio: column '{column}' has a dictionary entry ({entry}) starting " ++
        s!"past the end of its {size}-byte dictionary"
  | .dictionaryEntryLength column entry length size =>
      s!"qio: column '{column}' has a dictionary entry ({entry}) of " ++
        s!"{length} bytes, which does not fit in its {size}-byte dictionary"
  | .dictionaryIndex column index count row =>
      s!"qio: column '{column}' has a dictionary index ({index}) past the " ++
        s!"end of its {count}-entry dictionary at row {row}"
  | .openColumn fileColumn rowGroup reason =>
      s!"qio: cannot open column {fileColumn} of row group {rowGroup}: " ++
        reason
  | .decodeFailed column rowGroup encodings =>
      s!"qio: cannot decode column '{column}' of row group {rowGroup}; its " ++
        s!"encodings are {encodings} and one of them is not supported"
  | .shortRead column rowGroup got rows =>
      s!"qio: column '{column}' of row group {rowGroup} yielded {got} of " ++
        s!"{rows} rows"
  | .taskMessage text => "qio: " ++ text
  | .columnIndex index columns =>
      s!"qio: column index {index} is out of range [1, {columns}]"
  | .columnKinds =>
      "qio: `column_kinds` must have one entry per selected column"
  | .invalidKind kind => s!"qio: invalid column kind {kind}"
  | .nestedColumn path =>
      s!"qio: column '{path}' is nested or repeated; nested reading is " ++
        "deferred to qio 0.2.0"
  | .fixedNotRaw path =>
      s!"qio: column '{path}' is FIXED_LEN_BYTE_ARRAY but the read plan " ++
        "did not ask for raw bytes"
  | .fixedWidth path width =>
      s!"qio: column '{path}' declares an invalid FIXED_LEN_BYTE_ARRAY " ++
        s!"width of {width}"
  | .rowGroupRange value groups =>
      s!"qio: row group {value} is out of range [1, {groups}]"
  | .rowCount => "qio: invalid or overflowing parquet row count"
  | .tooManyRows =>
      "qio: `collect()` cannot return more than 2147483647 rows; use " ++
        "`walk_batches()` instead"
  | .batchReader reason =>
      "qio: cannot create parquet batch reader: " ++ reason
  | .batchColumnCount =>
      "qio: parquet batch returned an unexpected column count"
  | .batchColumn column status =>
      s!"qio: cannot materialize parquet batch column {column}: " ++ status
  | .batchFailed status => "qio: parquet batch read failed: " ++ status
  | .batchMissing => "qio: parquet batch reader returned no batch"
  | .batchRowCount =>
      "qio: parquet batch returned an invalid row count"
  | .wrongVectorType => ""
  | .undefinedBehaviour => ""
  | .interrupted => ""

/-- The errors about the text of a value. -/
def ReadError.isTextFault : ReadError → Bool
  | .embeddedNul _ _ => true
  | .invalidUtf8 _ _ _ => true
  | _ => false

end Errors

end Read
end QioParquet
