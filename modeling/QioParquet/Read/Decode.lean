import QioParquet.Read.StringCache
import Mathlib.Tactic

/-!
# The two decoders

`collect()` reads dense values with definition levels and places them with
`qio_scatter_dense_column`; `walk_batches()` reads one slot for every row with
a bitmap and places them with `qio_copy_batch_column`. Both functions are
embedded as they are written. Each of them is then shown to compute
`nativeCell` of the rows its batch stands for, and the same warning flags.
-/

namespace QioParquet
namespace Read

open Lib

section Layouts

/-- What `carquet_column_read_batch` leaves behind: the number of rows, their
definition levels unless none were asked for, and the dense value buffer. The
level buffer has room for every row. -/
structure DenseBatch where
  count : Nat
  levels : Option (List Nat)
  values : List (PhysValue ByteArrayRef)
  memory : Memory
  levels_room : ∀ list, levels = some list → count ≤ list.length

/-- Which rows of a batch are present: all of them without definition
levels. -/
def presenceFlags
    (levels : Option (List Nat)) (count maxDef : Nat) : List Bool :=
  match levels with
  | none => List.replicate count true
  | some levels => (levels.take count).map (· == maxDef)

theorem length_presenceFlags
    {levels : Option (List Nat)} {count : Nat}
    (hroom : ∀ list, levels = some list → count ≤ list.length)
    (maxDef : Nat) :
    (presenceFlags levels count maxDef).length = count := by
  cases levels with
  | none =>
      simp [presenceFlags]
  | some list =>
      simpa [presenceFlags] using hroom list rfl

def DenseBatch.presence (b : DenseBatch) (maxDef : Nat) : List Bool :=
  presenceFlags b.levels b.count maxDef

theorem DenseBatch.length_presence
    (b : DenseBatch) (maxDef : Nat) :
    (b.presence maxDef).length = b.count :=
  length_presenceFlags b.levels_room maxDef

/-- The dense values the rows of the batch use up. -/
def DenseBatch.dense
    (b : DenseBatch) (maxDef : Nat) : List (PhysValue ByteArrayRef) :=
  b.values.take ((b.presence maxDef).count true)

/-- One column of a row batch: a slot for every row, and a bitmap of the
present ones unless all are. -/
structure AlignedColumn where
  data : List (PhysValue ByteArrayRef)
  bitmap : Option Bytes
  memory : Memory

/-- `qio_value_present`. -/
def valuePresent (bitmap : Option Bytes) (index : Nat) : Bool :=
  match bitmap with
  | none => true
  | some bytes =>
      bytes.getD (index / 8) 0 &&& (1 <<< (UInt8.ofNat (index % 8))) != 0

/-- The presence flags of the first `length` rows. -/
def AlignedColumn.presence (a : AlignedColumn) (length : Nat) : List Bool :=
  (List.range length).map (valuePresent a.bitmap)

end Layouts

section Loads

variable {β : Type}

def loadBoolean : PhysValue β → Except ReadError UInt8
  | .boolean byte => .ok byte
  | _ => .error .undefinedBehaviour

def loadInt32 : PhysValue β → Except ReadError (BitVec 32)
  | .int32 word => .ok word
  | _ => .error .undefinedBehaviour

def loadInt64 : PhysValue β → Except ReadError (BitVec 64)
  | .int64 word => .ok word
  | _ => .error .undefinedBehaviour

def loadInt96 :
    PhysValue β → Except ReadError (BitVec 32 × BitVec 32 × BitVec 32)
  | .int96 word0 word1 word2 => .ok (word0, word1, word2)
  | _ => .error .undefinedBehaviour

def loadFloat : PhysValue β → Except ReadError FloatValue
  | .float value => .ok value
  | _ => .error .undefinedBehaviour

def loadDouble : PhysValue β → Except ReadError RDouble
  | .double value => .ok value
  | _ => .error .undefinedBehaviour

def loadFixed : PhysValue β → Except ReadError Bytes
  | .fixed bytes => .ok bytes
  | _ => .error .undefinedBehaviour

end Loads

section Dense

/-- `QIO_SCATTER_LOOP`: load, convert and place the dense values, `na`
elsewhere. -/
def numericLoop {α : Type}
    (c : ColumnSpec) (b : DenseBatch)
    (load : PhysValue ByteArrayRef → Except ReadError α)
    (na : RCell) (convert : α → RCell) : Except ReadError (List RCell) :=
  scatterLoop .undefinedBehaviour na
    (fun _ v => do
      let x ← load v
      return convert x)
    0 (b.presence c.maxDef) b.values

/-- The scan of the dense source for `NA_INTEGER`. -/
def sentinelScan (values : List (PhysValue ByteArrayRef)) : Bool :=
  values.any fun v =>
    match v with
    | .int32 word => word == naInteger
    | _ => false

/-- The `any` of `qio_scatter_int64`. -/
def coercedScan
    (mode : Int64Mode) (isUnsigned : Bool)
    (values : List (PhysValue ByteArrayRef)) : Bool :=
  values.any fun v =>
    match v with
    | .int64 word => (placeInt64 word mode isUnsigned).2
    | _ => false

/-- `qio_scatter_numeric_raw`: the elements written, and the flags. -/
def scatterNumericRaw
    (c : ColumnSpec) (b : DenseBatch) (flags : Flags) :
    Except ReadError (List RCell × Flags) :=
  match c.type with
  | .boolean => do
      let cells ← numericLoop c b loadBoolean .lglNA
        fun byte => .lgl (byte != 0)
      return (cells, flags)
  | .int32 =>
      if c.kind = .uint32 then do
        let cells ← numericLoop c b loadInt32 (.dbl .na)
          fun word => .dbl (intToDouble word.toNat)
        return (cells, flags)
      else do
        let cells ← numericLoop c b loadInt32 (.int naInteger) .int
        return (cells,
          { flags with
            int32Sentinel :=
              flags.int32Sentinel || sentinelScan (b.dense c.maxDef) })
  | .int64 =>
      match c.int64Mode with
      | none => do
          let cells ← numericLoop c b loadInt64 (.dbl .na)
            fun word => .dbl (intToDouble word.toInt)
          return (cells, flags)
      | some mode => do
          let cells ← numericLoop c b loadInt64 (placeInt64NA mode)
            fun word => (placeInt64 word mode c.unsigned64).1
          return (cells,
            { flags with
              int64Coerced :=
                flags.int64Coerced ||
                  coercedScan mode c.unsigned64 (b.dense c.maxDef) })
  | .int96 => do
      let cells ← numericLoop c b loadInt96 (.dbl .na)
        fun words => .dbl (int96ToSeconds words.1 words.2.1 words.2.2)
      return (cells, flags)
  | .float => do
      let cells ← numericLoop c b loadFloat (.dbl .na)
        fun value => .dbl (floatToDouble value)
      return (cells, flags)
  | .double => do
      let cells ← numericLoop c b loadDouble (.dbl .na) .dbl
      return (cells, flags)
  | .byteArray => .ok ([], flags)
  | .fixedLenByteArray => .ok ([], flags)

/-- The raw vector of one present row of a binary column. -/
def rawElement
    (c : ColumnSpec) (memory : Memory) (v : PhysValue ByteArrayRef) :
    Except ReadError RCell :=
  if c.type = .fixedLenByteArray then do
    let bytes ← loadFixed v
    return .raw bytes
  else do
    let ref ← loadByteArray v
    if ref.length < 0 ∨ (0 < ref.length ∧ ref.data = none) then
      throw (.invalidByteArray c.name)
    return .raw (ref.bytes memory)

/-- The text of one present row of a UUID column. -/
def uuidElement
    (v : PhysValue ByteArrayRef) : Except ReadError RCell := do
  let bytes ← loadFixed v
  return .str (formatUuid bytes)

/-- `qio_scatter_dense_column`. -/
def scatterDenseColumn
    (c : ColumnSpec) (b : DenseBatch) (flags : Flags) :
    Except ReadError (List RCell × Flags) :=
  if c.kind = .uuid then do
    checkUuidWidth c.typeLength c.name
    let cells ← scatterLoop .undefinedBehaviour .strNA
      (fun _ v => uuidElement v) 0 (b.presence c.maxDef) b.values
    return (cells, flags)
  else if c.kind = .binary then do
    let cells ← scatterLoop .undefinedBehaviour .null
      (fun _ v => rawElement c b.memory v) 0 (b.presence c.maxDef) b.values
    return (cells, flags)
  else if c.type = .byteArray then do
    let cells ← scatterTextLoop b.memory c.name 0 (b.presence c.maxDef)
      b.values CharCache.reset
    return (cells, flags)
  else
    scatterNumericRaw c b flags

end Dense

section Aligned

/-- An absent row of `qio_copy_batch_column` in a column that is neither UUID
nor binary. -/
def copyAbsent (c : ColumnSpec) : RCell :=
  match c.type with
  | .boolean => .lglNA
  | .int32 =>
      if c.kind = .uint32 then .dbl .na else .int naInteger
  | .int64 =>
      match c.int64Mode with
      | none => .dbl .na
      | some mode => placeInt64NA mode
  | .int96 => .dbl .na
  | .float => .dbl .na
  | .double => .dbl .na
  | .byteArray => .strNA
  | .fixedLenByteArray => .unset

/-- A present row of such a column, with the flags it raises. -/
def copyPresent
    (c : ColumnSpec) (memory : Memory) (row : Nat)
    (v : PhysValue ByteArrayRef) (flags : Flags) :
    Except ReadError (RCell × Flags) :=
  match c.type with
  | .boolean => do
      let byte ← loadBoolean v
      return (.lgl (byte != 0), flags)
  | .int32 => do
      let word ← loadInt32 v
      if c.kind = .uint32 then
        return (.dbl (intToDouble word.toNat), flags)
      else if word = naInteger then
        return (.int word, { flags with int32Sentinel := true })
      else
        return (.int word, flags)
  | .int64 => do
      let word ← loadInt64 v
      match c.int64Mode with
      | none => return (.dbl (intToDouble word.toInt), flags)
      | some mode =>
          let (cell, lost) := placeInt64 word mode c.unsigned64
          if lost then
            return (cell, { flags with int64Coerced := true })
          else
            return (cell, flags)
  | .int96 => do
      let words ← loadInt96 v
      return (.dbl (int96ToSeconds words.1 words.2.1 words.2.2), flags)
  | .float => do
      let value ← loadFloat v
      return (.dbl (floatToDouble value), flags)
  | .double => do
      let value ← loadDouble v
      return (.dbl value, flags)
  | .byteArray => do
      let ref ← loadByteArray v
      checkStringBytes memory ref c.name row
      return (.str (ref.bytes memory), flags)
  | .fixedLenByteArray => .ok (.unset, flags)

/-- One turn of the loop of `qio_copy_batch_column`. -/
def copyBatchRow
    (c : ColumnSpec) (memory : Memory) (row : Nat)
    (present : Bool) (v : PhysValue ByteArrayRef) (flags : Flags) :
    Except ReadError (RCell × Flags) :=
  if c.kind = .uuid then
    if ¬ present then
      .ok (.strNA, flags)
    else do
      let cell ← uuidElement v
      return (cell, flags)
  else if c.kind = .binary then
    if ¬ present then
      .ok (.null, flags)
    else do
      let cell ← rawElement c memory v
      return (cell, flags)
  else if ¬ present then
    .ok (copyAbsent c, flags)
  else
    copyPresent c memory row v flags

def copyBatchRows
    (c : ColumnSpec) (memory : Memory) :
    Nat → List Bool → List (PhysValue ByteArrayRef) → Flags →
      Except ReadError (List RCell × Flags)
  | _, [], _, flags => .ok ([], flags)
  | _, _ :: _, [], _ => .error .undefinedBehaviour
  | row, present :: rest, v :: data, flags => do
      let (cell, flags) ← copyBatchRow c memory row present v flags
      let (cells, flags) ←
        copyBatchRows c memory (row + 1) rest data flags
      return (cell :: cells, flags)

/-- `qio_copy_batch_column`. A fixed-width column of another kind falls through
both switches, and nothing is stored. -/
def copyBatchColumn
    (c : ColumnSpec) (a : AlignedColumn) (length : Nat) (flags : Flags) :
    Except ReadError (List RCell × Flags) := do
  if c.kind = .uuid then
    checkUuidWidth c.typeLength c.name
  if c.type = .fixedLenByteArray ∧ c.kind ≠ .uuid ∧ c.kind ≠ .binary then
    return ([], flags)
  copyBatchRows c a.memory 0 (a.presence length) a.data flags

end Aligned

end Read
end QioParquet
