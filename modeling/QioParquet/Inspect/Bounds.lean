import QioParquet.Append.Footer
import QioParquet.Lib.BitStream
import QioParquet.Plan.Convert
import QioParquet.Read.Utf8Index
import Mathlib.Tactic

/-!
# The bounds of statistics and page indexes

`qio_statistic_value` makes an R value of a minimum or a maximum. The bytes come
from a footer or a column index and can be anything. A bound of the wrong width, or
text that is not UTF-8, is reported as `NULL`. UTF-8 has room for a zero byte and R's
strings have not: `Rf_mkCharLenCE` raises for one. And the scan of a text bound keeps
its index in an `int32_t`, which a lead byte near the end of a very long bound takes
out of range.
-/

namespace QioParquet
namespace Inspect

open Lib Read Plan

section Values

/-- The word bytes are copied into, lowest byte first. -/
def wordOf (width : Nat) (bytes : Bytes) : BitVec width :=
  BitVec.ofNat width (littleEndian bytes)

/-- The `float` with the given bits, as a `double`. -/
def doubleOfFloatBits (word : BitVec 32) : RDouble :=
  let negative := word.msb
  let exponent := (word.extractLsb' 23 8).toNat
  let fraction := word.extractLsb' 0 23
  let sign : ℚ := if negative then -1 else 1
  if exponent = 255 then
    if fraction = 0 then
      .inf negative
    else
      .nan negative ((fraction ||| quietBit).setWidth 52 <<< 29)
  else if exponent = 0 then
    .num (sign * fraction.toNat * 2 ^ (-149 : ℤ))
  else
    .num (sign * (2 ^ 23 + fraction.toNat) * 2 ^ ((exponent : ℤ) - 150))

/-- Why inspecting a file does not return: R's message for a string with a zero
byte, or an index past `int32_t`, after which nothing is defined. -/
inductive InspectError where
  | embeddedNul (bytes : Bytes)
  | indexOverflow
deriving DecidableEq

/-- `Rf_mkCharLenCE`. -/
def mkChar (bytes : Bytes) : Except InspectError RCell :=
  if (0 : UInt8) ∈ bytes then .error (.embeddedNul bytes) else .ok (.str bytes)

/-- `qio_statistic_width`. -/
def statisticWidth (type : PhysicalType) (typeLength : ℤ) : ℤ :=
  match type with
  | .boolean => 1
  | .int32 => 4
  | .float => 4
  | .int64 => 8
  | .double => 8
  | .int96 => 12
  | .fixedLenByteArray => typeLength
  | .byteArray => 0

/-- A leaf annotated as text. -/
def isText (leaf : SchemaLeaf) : Bool :=
  leaf.logicalType == some .string || leaf.logicalType == some .enum ||
    leaf.logicalType == some .json

/-- `qio_statistic_value` of a bound that is there. -/
def decodeBound (leaf : SchemaLeaf) (bytes : Bytes) :
    Except InspectError (Option RCell) :=
  match leaf.physicalType with
  | .boolean => .ok (some (.lgl (bytes.headD 0 != 0)))
  | .int32 =>
      let value := wordOf 32 bytes
      if value = naInteger then .ok (some (.dbl (intToDouble value.toInt)))
      else .ok (some (.int value))
  | .int64 => .ok (some (.dbl (intToDouble (wordOf 64 bytes).toInt)))
  | .float => .ok (some (.dbl (doubleOfFloatBits (wordOf 32 bytes))))
  | .double => .ok (some (.dbl (doubleOfBits (wordOf 64 bytes))))
  | .byteArray =>
      if isText leaf then
        match utf8InvalidInt32 bytes with
        | none => .error .indexOverflow
        | some (_ + 1) => .ok none
        | some 0 => do
            let text ← mkChar bytes
            return some text
      else
        .ok (some (.raw bytes))
  | .int96 => .ok (some (.raw bytes))
  | .fixedLenByteArray => .ok (some (.raw bytes))

/-- `qio_statistic_value`. -/
def statisticValue (leaf : SchemaLeaf) :
    Option Bytes → Except InspectError (Option RCell)
  | none => .ok none
  | some bytes =>
      let width := statisticWidth leaf.physicalType leaf.typeLength
      if 0 < width ∧ (bytes.length : ℤ) ≠ width then .ok none
      else decodeBound leaf bytes

end Values

section Laws

variable {leaf : SchemaLeaf} {bytes : Bytes}

/-- A text bound that is UTF-8 and has a zero byte in it, or whose scan leaves the
range of its index. -/
def BreaksText (leaf : SchemaLeaf) (bytes : Bytes) : Prop :=
  leaf.physicalType = .byteArray ∧ isText leaf = true ∧
    (ValidUtf8 bytes ∧ (0 : UInt8) ∈ bytes ∨ ¬ WithinReach 0 bytes)

/-- A short bound without a zero byte breaks nothing. -/
theorem not_breaksText_of_short
    (hlength : bytes.length ≤ 2 ^ 31 - 3)
    (hnul : leaf.physicalType = .byteArray → (0 : UInt8) ∉ bytes) :
    ¬ BreaksText leaf bytes := by
  rintro ⟨htype, -, ⟨-, hmem⟩ | hreach⟩
  · exact hnul htype hmem
  · exact hreach (withinReach_of_length hlength)

/-- What a bound says in the type of its column: a flag, a number, text, or bytes
as they are. -/
def BoundValue (leaf : SchemaLeaf) (bytes : Bytes) (cell : RCell) : Prop :=
  match leaf.physicalType with
  | .boolean => bytes.length = 1 ∧ cell = .lgl (bytes != [0])
  | .int32 =>
      bytes.length = 4 ∧
        (cell = .int (wordOf 32 bytes) ∧
            wordOf 32 bytes ≠ BitVec.intMin 32 ∨
          cell = .dbl (.num (-2 ^ 31)) ∧ wordOf 32 bytes = BitVec.intMin 32)
  | .int64 =>
      bytes.length = 8 ∧ cell = .dbl (intToDouble (wordOf 64 bytes).toInt)
  | .float =>
      bytes.length = 4 ∧ cell = .dbl (doubleOfFloatBits (wordOf 32 bytes))
  | .double =>
      bytes.length = 8 ∧ cell = .dbl (doubleOfBits (wordOf 64 bytes))
  | .int96 => bytes.length = 12 ∧ cell = .raw bytes
  | .fixedLenByteArray =>
      (0 < leaf.typeLength → (bytes.length : ℤ) = leaf.typeLength) ∧
        cell = .raw bytes
  | .byteArray =>
      if isText leaf then ValidUtf8 bytes ∧ cell = .str bytes
      else cell = .raw bytes

/-- A bound is reported as its value, or as nothing. -/
def ReportsBound (leaf : SchemaLeaf) (bound : Option Bytes) (cell : Option RCell) :
    Prop :=
  ∀ value, cell = some value → ∃ bytes, bound = some bytes ∧
    BoundValue leaf bytes value

theorem intToDouble_intMin :
    intToDouble (BitVec.intMin 32).toInt = .num (-2 ^ 31) := by
  have hmin : (BitVec.intMin 32).toInt = -2 ^ 31 := by decide
  rw [hmin, intToDouble_exact (by norm_num)]
  norm_num

theorem decodeBound_text
    (htype : leaf.physicalType = .byteArray)
    (htext : isText leaf = true)
    (hlength : bytes.length < 2 ^ 31)
    (hreach : WithinReach 0 bytes) :
    decodeBound leaf bytes =
      if ValidUtf8 bytes then
        if (0 : UInt8) ∈ bytes then .error (.embeddedNul bytes)
        else .ok (some (.str bytes))
      else
        .ok none := by
  simp only [decodeBound, htype, htext, if_true]
  rw [(utf8InvalidInt32_eq hlength).1 hreach]
  by_cases hvalid : ValidUtf8 bytes
  · rw [if_pos hvalid, (utf8InvalidAt_eq_zero_iff bytes).mpr hvalid]
    simp only [mkChar]
    split_ifs <;> rfl
  · obtain ⟨p, hp⟩ := Nat.exists_eq_succ_of_ne_zero
      (mt (utf8InvalidAt_eq_zero_iff bytes).mp hvalid)
    rw [if_neg hvalid, hp]

theorem decodeBound_overflow
    (htype : leaf.physicalType = .byteArray)
    (htext : isText leaf = true)
    (hlength : bytes.length < 2 ^ 31)
    (hreach : ¬ WithinReach 0 bytes) :
    decodeBound leaf bytes = .error .indexOverflow := by
  simp only [decodeBound, htype, htext, if_true]
  rw [(utf8InvalidInt32_eq hlength).2 hreach]

/-- Decoding raises for text with a zero byte, breaks for text whose scan leaves its
range, and does so for nothing else. -/
theorem decodeBound_error_iff
    (hlength : bytes.length < 2 ^ 31) :
    (∃ e, decodeBound leaf bytes = .error e) ↔ BreaksText leaf bytes := by
  constructor
  · rintro ⟨e, he⟩
    cases htype : leaf.physicalType with
    | byteArray =>
        by_cases htext : isText leaf = true
        · by_cases hreach : WithinReach 0 bytes
          · rw [decodeBound_text htype htext hlength hreach] at he
            split_ifs at he with hvalid hnul
            exact ⟨htype, htext, .inl ⟨hvalid, hnul⟩⟩
          · exact ⟨htype, htext, .inr hreach⟩
        · simp only [decodeBound, htype, if_neg htext] at he
          cases he
    | int32 =>
        simp only [decodeBound, htype] at he
        split_ifs at he
    | _ =>
        simp only [decodeBound, htype] at he
        cases he
  · rintro ⟨htype, htext, hbreaks⟩
    by_cases hreach : WithinReach 0 bytes
    · obtain ⟨hvalid, hnul⟩ := hbreaks.resolve_right (not_not.mpr hreach)
      refine ⟨.embeddedNul bytes, ?_⟩
      rw [decodeBound_text htype htext hlength hreach, if_pos hvalid, if_pos hnul]
    · exact ⟨_, decodeBound_overflow htype htext hlength hreach⟩

/-- The width of a type that has one holds back no other bound. -/
theorem statisticValue_error_iff
    {bound : Option Bytes}
    (hsizes : ∀ bytes, bound = some bytes → bytes.length < 2 ^ 31) :
    (∃ e, statisticValue leaf bound = .error e) ↔
      ∃ bytes, bound = some bytes ∧ BreaksText leaf bytes := by
  cases bound with
  | none =>
      constructor
      · rintro ⟨e, he⟩
        cases he
      · rintro ⟨bytes, hbytes, -⟩
        cases hbytes
  | some bytes =>
      simp only [statisticValue, Option.some.injEq]
      split_ifs with hwidth
      · constructor
        · rintro ⟨e, he⟩
          cases he
        · rintro ⟨bytes', rfl, htype, -⟩
          rw [htype] at hwidth
          exact absurd hwidth.1 (lt_irrefl 0)
      · rw [decodeBound_error_iff (hsizes bytes rfl)]
        exact ⟨fun h => ⟨bytes, rfl, h⟩, fun ⟨_, rfl, h⟩ => h⟩

theorem boundValue_text
    {value : RCell}
    (htype : leaf.physicalType = .byteArray)
    (hlength : bytes.length < 2 ^ 31)
    (h : decodeBound leaf bytes = .ok (some value)) :
    BoundValue leaf bytes value := by
  rw [BoundValue, htype]
  by_cases htext : isText leaf = true
  · simp only [htext, if_true]
    by_cases hreach : WithinReach 0 bytes
    · rw [decodeBound_text htype htext hlength hreach] at h
      split_ifs at h with hvalid hnul
      · cases h
        exact ⟨hvalid, rfl⟩
      · cases h
    · rw [decodeBound_overflow htype htext hlength hreach] at h
      cases h
  · simp only [decodeBound, htype, if_neg htext] at h
    cases h
    simp only [if_neg htext]

/-- A bound of the right width decodes to its value. -/
theorem boundValue_of_decodeBound
    {value : RCell}
    (hwidth : 0 < statisticWidth leaf.physicalType leaf.typeLength →
      (bytes.length : ℤ) = statisticWidth leaf.physicalType leaf.typeLength)
    (hlength : bytes.length < 2 ^ 31)
    (h : decodeBound leaf bytes = .ok (some value)) :
    BoundValue leaf bytes value := by
  cases htype : leaf.physicalType with
  | boolean =>
      simp only [decodeBound, htype] at h
      simp only [htype, statisticWidth] at hwidth
      have hlength : bytes.length = 1 := by
        have := hwidth (by norm_num)
        omega
      obtain ⟨byte, rfl⟩ := List.length_eq_one_iff.mp hlength
      cases h
      simp [BoundValue, htype, bne]
  | int32 =>
      simp only [decodeBound, htype] at h
      simp only [htype, statisticWidth] at hwidth
      have hlength : bytes.length = 4 := by
        have := hwidth (by norm_num)
        omega
      rw [BoundValue, htype]
      refine ⟨hlength, ?_⟩
      split_ifs at h with hmin
      · cases h
        rw [hmin]
        exact Or.inr ⟨congrArg RCell.dbl intToDouble_intMin, rfl⟩
      · cases h
        exact Or.inl ⟨rfl, hmin⟩
  | byteArray =>
      exact boundValue_text htype hlength h
  | fixedLenByteArray =>
      simp only [decodeBound, htype] at h
      simp only [htype, statisticWidth] at hwidth
      cases h
      simp only [BoundValue, htype, and_true]
      exact hwidth
  | _ =>
      simp only [decodeBound, htype] at h
      simp only [htype, statisticWidth] at hwidth
      cases h
      simp only [BoundValue, htype, and_true]
      have := hwidth (by norm_num)
      omega

/-- What is reported is the value of the bound. -/
theorem reportsBound_of_ok
    {bound : Option Bytes} {cell : Option RCell}
    (hsizes : ∀ bytes, bound = some bytes → bytes.length < 2 ^ 31)
    (h : statisticValue leaf bound = .ok cell) :
    ReportsBound leaf bound cell := by
  rintro value rfl
  cases bound with
  | none =>
      cases h
  | some bytes =>
      simp only [statisticValue] at h
      split_ifs at h with hwidth
      · cases h
      · rw [not_and, not_not] at hwidth
        exact ⟨bytes, rfl, boundValue_of_decodeBound hwidth (hsizes bytes rfl) h⟩

end Laws

end Inspect
end QioParquet
