import QioParquet.Read.Utf8
import QioParquet.Lib.Overwrite
import Mathlib.Tactic

/-!
# One value in an R vector

What a selected column asks of its decoder, the placement of 64-bit integers
and legacy timestamps, and `nativeCell`, the R element a stored value stands
for. `nativeCell` is this development's own statement of the read mapping; the
two decoders of the reader are separate functions that are compared with it.
-/

namespace QioParquet
namespace Read

open Lib

section Column

/-- What a decoder knows about the selected column it fills. -/
structure ColumnSpec where
  name : String
  type : PhysicalType
  kind : Kind
  typeLength : ℤ
  maxDef : Nat
  int64Option : Int64Mode
  unsigned64 : Bool
deriving DecidableEq

/-- The mode handed to a decoder: only a column of kind INT64 has one. -/
def ColumnSpec.int64Mode (c : ColumnSpec) : Option Int64Mode :=
  if c.kind = .int64 then some c.int64Option else none

/-- `qio_needs_main_thread`. -/
def needsMainThread (type : PhysicalType) (kind : Kind) : Bool :=
  kind == .binary || kind == .uuid || type == .byteArray ||
    type == .fixedLenByteArray

/-- Vector type chosen by `qio_allocate_column`. -/
def columnSexpType
    (type : PhysicalType) (kind : Kind) : Except ReadError SexpType :=
  if kind = .binary then
    .ok .vecsxp
  else if kind = .uuid then
    .ok .strsxp
  else if kind = .uint32 then
    .ok .realsxp
  else
    match type with
    | .boolean => .ok .lglsxp
    | .int32 => .ok .intsxp
    | .int64 => .ok .realsxp
    | .int96 => .ok .realsxp
    | .float => .ok .realsxp
    | .double => .ok .realsxp
    | .byteArray => .ok .strsxp
    | .fixedLenByteArray => .error (.unsupportedType type)

/-- `qio_allocate_column`. -/
def allocateColumn
    (type : PhysicalType) (length : Nat) (kind : Kind) :
    Except ReadError RVector := do
  let sexptype ← columnSexpType type kind
  return allocVector sexptype length

/-- Per-column warning flags of one read. -/
structure Flags where
  int32Sentinel : Bool
  int64Coerced : Bool
deriving DecidableEq

def Flags.none : Flags := ⟨false, false⟩

def Flags.or (a b : Flags) : Flags :=
  ⟨a.int32Sentinel || b.int32Sentinel, a.int64Coerced || b.int64Coerced⟩

@[simp] theorem Flags.none_or
    (a : Flags) :
    Flags.none.or a = a := by
  simp [Flags.or, Flags.none]

@[simp] theorem Flags.or_none
    (a : Flags) :
    a.or Flags.none = a := by
  simp [Flags.or, Flags.none]

theorem Flags.or_assoc
    (a b c : Flags) :
    (a.or b).or c = a.or (b.or c) := by
  simp [Flags.or, Bool.or_assoc]

end Column

section Placement

/-- `QIO_DOUBLE_EXACT_MAX`, 2^53. -/
def doubleExactMax : ℤ := 9007199254740992

/-- `qio_place_int64`: the element stored, and whether the value was lost. -/
def placeInt64
    (raw : BitVec 64) (mode : Int64Mode) (isUnsigned : Bool) :
    RCell × Bool :=
  match mode with
  | .bit64 =>
      if isUnsigned ∧ raw.toInt < 0 then
        (.bits (BitVec.intMin 64), true)
      else if ¬ isUnsigned ∧ raw = BitVec.intMin 64 then
        (.bits raw, true)
      else
        (.bits raw, false)
  | .double =>
      if isUnsigned then
        if doubleExactMax < raw.toNat then
          (.dbl .na, true)
        else
          (.dbl (intToDouble raw.toNat), false)
      else if raw.toInt < -doubleExactMax ∨ doubleExactMax < raw.toInt then
        (.dbl .na, true)
      else
        (.dbl (intToDouble raw.toInt), false)

/-- `qio_place_int64_na`. -/
def placeInt64NA : Int64Mode → RCell
  | .bit64 => .bits (BitVec.intMin 64)
  | .double => .dbl .na

/-- `qio_int96_to_seconds`, one rounding for each floating-point operation. -/
def int96ToSeconds (word0 word1 word2 : BitVec 32) : RDouble :=
  let nanos : ℤ := word1.toNat * 2 ^ 32 + word0.toNat
  let days : ℤ := word2.toInt - 2440588
  let whole := binary64.round (binary64.round days * 86400)
  let part := binary64.round (binary64.round nanos / 1000000000)
  .num (binary64.round (whole + part))

end Placement

section Storing

/-- The vector type an element belongs to. -/
def RCell.sexptype : RCell → Option SexpType
  | .lgl _ => some .lglsxp
  | .lglNA => some .lglsxp
  | .int _ => some .intsxp
  | .dbl _ => some .realsxp
  | .bits _ => some .realsxp
  | .str _ => some .strsxp
  | .strNA => some .strsxp
  | .raw _ => some .vecsxp
  | .null => some .vecsxp
  | .unset => none

/-- Storing elements in a vector of another type ends with `mismatch`: R's
accessors raise, a raw pointer of the wrong type is undefined. -/
def checkElements
    (mismatch : ReadError) (sexptype : SexpType) (cells : List RCell) :
    Except ReadError Unit :=
  if cells.all (fun cell => cell.sexptype == some sexptype) then
    .ok ()
  else
    .error mismatch

theorem checkElements_ok_iff
    {mismatch : ReadError} {sexptype : SexpType} {cells : List RCell} :
    checkElements mismatch sexptype cells = .ok () ↔
      ∀ cell ∈ cells, cell.sexptype = some sexptype := by
  simp [checkElements]

end Storing

section Mapping

/-- The R element of a missing value. -/
def naCell (c : ColumnSpec) : RCell :=
  match c.kind, c.type with
  | .uuid, _ => .strNA
  | .binary, _ => .null
  | _, .boolean => .lglNA
  | .uint32, .int32 => .dbl .na
  | _, .int32 => .int naInteger
  | .int64, .int64 => placeInt64NA c.int64Option
  | _, .int64 => .dbl .na
  | _, .int96 => .dbl .na
  | _, .float => .dbl .na
  | _, .double => .dbl .na
  | _, .byteArray => .strNA
  | _, .fixedLenByteArray => .unset

/-- The R element of a stored value, where it has one: a text value that is
not text has none, and neither has a value of a kind its type cannot be read
as. -/
def valueCell (c : ColumnSpec) (v : PhysValue Bytes) : Option RCell :=
  match c.kind, v with
  | .uuid, .fixed bytes => some (.str (formatUuid bytes))
  | .uuid, _ => none
  | .binary, .fixed bytes => some (.raw bytes)
  | .binary, .byteArray bytes => some (.raw bytes)
  | .binary, _ => none
  | _, .boolean byte => some (.lgl (byte != 0))
  | .uint32, .int32 word => some (.dbl (intToDouble word.toNat))
  | _, .int32 word => some (.int word)
  | .int64, .int64 word =>
      some (placeInt64 word c.int64Option c.unsigned64).1
  | _, .int64 word => some (.dbl (intToDouble word.toInt))
  | _, .int96 word0 word1 word2 =>
      some (.dbl (int96ToSeconds word0 word1 word2))
  | _, .float value => some (.dbl (floatToDouble value))
  | _, .double value => some (.dbl value)
  | _, .byteArray bytes =>
      if TextFault bytes then none else some (.str bytes)
  | _, .fixed _ => none

/-- The R element of one row. -/
def nativeCell (c : ColumnSpec) : Option (PhysValue Bytes) → Option RCell
  | none => some (naCell c)
  | some v => valueCell c v

/-- Whether a stored value collides with `NA_INTEGER`. -/
def isSentinel {β : Type} (c : ColumnSpec) (v : PhysValue β) : Bool :=
  match c.kind, v with
  | .uuid, _ => false
  | .binary, _ => false
  | .uint32, _ => false
  | _, .int32 word => word == naInteger
  | _, _ => false

/-- Whether a stored 64-bit integer is lost in the read's mode. -/
def isCoerced {β : Type} (c : ColumnSpec) (v : PhysValue β) : Bool :=
  match c.kind, v with
  | .int64, .int64 word => (placeInt64 word c.int64Option c.unsigned64).2
  | _, _ => false

/-- The warnings the rows of a column call for. -/
def rowFlags {β : Type}
    (c : ColumnSpec) (rows : List (Option (PhysValue β))) : Flags :=
  ⟨rows.any fun row => row.any (isSentinel c),
    rows.any fun row => row.any (isCoerced c)⟩

@[simp] theorem rowFlags_nil {β : Type}
    (c : ColumnSpec) :
    rowFlags c ([] : List (Option (PhysValue β))) = Flags.none :=
  rfl

theorem rowFlags_append {β : Type}
    (c : ColumnSpec) (rows rows' : List (Option (PhysValue β))) :
    rowFlags c (rows ++ rows') = (rowFlags c rows).or (rowFlags c rows') := by
  simp [rowFlags, Flags.or]

/-- Flags do not depend on where variable-length data is. -/
theorem rowFlags_map {β γ : Type}
    (f : β → γ) (c : ColumnSpec) (rows : List (Option (PhysValue β))) :
    rowFlags c (rows.map (Option.map (PhysValue.map f))) =
      rowFlags c rows := by
  have hsentinel (v : PhysValue β) :
      isSentinel c (v.map f) = isSentinel c v := by
    obtain ⟨_, _, kind, _, _, _, _⟩ := c
    cases kind <;> cases v <;> rfl
  have hcoerced (v : PhysValue β) :
      isCoerced c (v.map f) = isCoerced c v := by
    obtain ⟨_, _, kind, _, _, _, _⟩ := c
    cases kind <;> cases v <;> rfl
  simp only [rowFlags, List.any_map, Flags.mk.injEq]
  constructor <;>
  · congr 1
    funext row
    cases row <;> simp [hsentinel, hcoerced]

end Mapping

end Read
end QioParquet
