import QioParquet.Lib.BitStream
import QioParquet.Read.Values
import Mathlib.Tactic

/-!
# Unpacking eight values

`carquet_bitunpack8_32` unpacks eight values of `bit_width` bits from `bit_width`
bytes. A width has a SIMD kernel, or a function of its own, or goes through an
accumulator of 64 bits that is refilled byte by byte.

The accumulator is followed through its whole run. After `i` values and `bytePos`
bytes it holds exactly the bits that were read and not yet given out, which are
`8 * bytePos - i * bit_width` and never more than 39.
-/

namespace QioParquet
namespace Encoding

open Lib Read

section Accumulator

/-- The variables of the general case. -/
structure Unpacker where
  accumulator : BitVec 64
  bitsHeld : Nat
  bytePos : Nat

namespace Unpacker

def start : Unpacker :=
  ⟨0, 0, 0⟩

/-- `accumulator |= (uint64_t)input[byte_pos++] << bits_held; bits_held += 8`. -/
def load (s : Unpacker) (byte : UInt8) : Unpacker :=
  ⟨s.accumulator ||| byte.toBitVec.setWidth 64 <<< s.bitsHeld, s.bitsHeld + 8,
    s.bytePos + 1⟩

/-- `accumulator >>= bit_width; bits_held -= bit_width`. -/
def consume (s : Unpacker) (width : Nat) : Unpacker :=
  ⟨s.accumulator >>> width, s.bitsHeld - width, s.bytePos⟩

end Unpacker

/-- `(uint32_t)((1ULL << bit_width) - 1)`. -/
def valueMask (width : Nat) : BitVec 32 :=
  ((1#64 <<< width) - 1#64).setWidth 32

/-- `(uint32_t)(accumulator & mask)`. -/
def Unpacker.value (s : Unpacker) (width : Nat) : BitVec 32 :=
  (s.accumulator &&& (valueMask width).setWidth 64).setWidth 32

/-- `while (bits_held < bit_width)`; there is no answer when a byte past the input is
read. -/
def refill (input : Bytes) (width : Nat) (s : Unpacker) : Option Unpacker :=
  if s.bitsHeld < width then
    match input[s.bytePos]? with
    | none => none
    | some byte => refill input width (s.load byte)
  else
    some s
termination_by width - s.bitsHeld
decreasing_by
  simp only [Unpacker.load]
  omega

/-- `for (int i = 0; i < 8; i++)`, with the values that remain. -/
def unpackLoop (input : Bytes) (width : Nat) :
    Nat → Unpacker → Option (List (BitVec 32) × Unpacker)
  | 0, s => some ([], s)
  | remaining + 1, s => do
      let s ← refill input width s
      let (values, final) ← unpackLoop input width remaining (s.consume width)
      return (s.value width :: values, final)

end Accumulator

section Functions

/-- The functions for 1 to 7 bits: as many bytes as one word, and fields of it. -/
def unpackWord (width : Nat) (input : Bytes) : Option (List (BitVec 32)) :=
  if width ≤ input.length then
    some ((List.range 8).map fun i =>
      BitVec.ofNat 32
        (littleEndian (input.take width) >>> (i * width) &&& (2 ^ width - 1)))
  else
    none

/-- `carquet_bitunpack8_1bit`. -/
def bitunpack8Bit1 : Bytes → Option (List (BitVec 32)) := unpackWord 1

/-- `carquet_bitunpack8_2bit`. -/
def bitunpack8Bit2 : Bytes → Option (List (BitVec 32)) := unpackWord 2

/-- `carquet_bitunpack8_3bit`. -/
def bitunpack8Bit3 : Bytes → Option (List (BitVec 32)) := unpackWord 3

/-- `carquet_bitunpack8_4bit`. -/
def bitunpack8Bit4 : Bytes → Option (List (BitVec 32)) := unpackWord 4

/-- `carquet_bitunpack8_5bit`. -/
def bitunpack8Bit5 : Bytes → Option (List (BitVec 32)) := unpackWord 5

/-- `carquet_bitunpack8_6bit`. -/
def bitunpack8Bit6 : Bytes → Option (List (BitVec 32)) := unpackWord 6

/-- `carquet_bitunpack8_7bit`. -/
def bitunpack8Bit7 : Bytes → Option (List (BitVec 32)) := unpackWord 7

/-- `carquet_bitunpack8_8bit`: the bytes themselves. -/
def bitunpack8Bit8 (input : Bytes) : Option (List (BitVec 32)) :=
  if 8 ≤ input.length then
    some ((input.take 8).map fun byte => byte.toBitVec.setWidth 32)
  else
    none

/-- The part of `carquet_bitunpack8_32` without kernels: the switch, and the general
case. -/
def bitunpack8Scalar (width : Nat) (input : Bytes) : Option (List (BitVec 32)) :=
  match width with
  | 0 => some (List.replicate 8 0)
  | 1 => bitunpack8Bit1 input
  | 2 => bitunpack8Bit2 input
  | 3 => bitunpack8Bit3 input
  | 4 => bitunpack8Bit4 input
  | 5 => bitunpack8Bit5 input
  | 6 => bitunpack8Bit6 input
  | 7 => bitunpack8Bit7 input
  | 8 => bitunpack8Bit8 input
  | width => (unpackLoop input width 8 Unpacker.start).map Prod.fst

/-- What `carquet_dispatch_get_bitunpack8_fn` hands out: for some widths a kernel,
which unpacks as the scalar code does. -/
structure Kernels where
  find : Nat → Option (Bytes → Option (List (BitVec 32)))
  agrees : ∀ width kernel, find width = some kernel →
    ∀ input, kernel input = bitunpack8Scalar width input

/-- `carquet_bitunpack8_32`. -/
def bitunpack8 (kernels : Kernels) (width : Nat) (input : Bytes) :
    Option (List (BitVec 32)) :=
  if width = 0 then
    some (List.replicate 8 0)
  else
    match kernels.find width with
    | some kernel => kernel input
    | none => bitunpack8Scalar width input

theorem bitunpack8_eq_scalar
    (kernels : Kernels) (width : Nat) (input : Bytes) :
    bitunpack8 kernels width input = bitunpack8Scalar width input := by
  rw [bitunpack8]
  split_ifs with hzero
  · rw [hzero]
    rfl
  · cases hkernel : kernels.find width with
    | none =>
        rfl
    | some kernel =>
        exact kernels.agrees width kernel hkernel input

end Functions

section Runs

variable {input : Bytes} {width i : Nat} {s s' : Unpacker}

/-- The states of the general case after `i` values, from the start on. -/
inductive Visits (input : Bytes) (width : Nat) : Nat → Unpacker → Prop where
  | start : Visits input width 0 Unpacker.start
  | load {i : Nat} {s : Unpacker} {byte : UInt8}
      (hvisited : Visits input width i s)
      (hi : i < 8)
      (hheld : s.bitsHeld < width)
      (hbyte : input[s.bytePos]? = some byte) :
      Visits input width i (s.load byte)
  | consume {i : Nat} {s : Unpacker}
      (hvisited : Visits input width i s)
      (hi : i < 8)
      (hheld : width ≤ s.bitsHeld) :
      Visits input width (i + 1) (s.consume width)

/-- What the accumulator holds: the bits read and not given out. -/
structure Holds (input : Bytes) (width i : Nat) (s : Unpacker) : Prop where
  position : 8 * s.bytePos = i * width + s.bitsHeld
  exact : s.accumulator.toNat =
    littleEndian (input.take s.bytePos) / 2 ^ (i * width)
  room : s.bitsHeld < width + 8
  bytes : s.bytePos ≤ input.length

/-- So many bits are enough for it. -/
theorem Holds.accumulator_lt
    (h : Holds input width i s) :
    s.accumulator.toNat < 2 ^ s.bitsHeld := by
  have hlt := littleEndian_lt (input.take s.bytePos)
  rw [List.length_take_of_le h.bytes, h.position, Nat.pow_add] at hlt
  rw [h.exact]
  exact Nat.div_lt_of_lt_mul hlt

theorem holds_start :
    Holds input width 0 Unpacker.start where
  position := by
    simp [Unpacker.start]
  exact := by
    simp [Unpacker.start, littleEndian]
  room := by
    simp [Unpacker.start]
  bytes := Nat.zero_le _

/-- A byte is shifted in above the bits that are held, and nothing is lost. -/
theorem toNat_load
    {byte : UInt8}
    (hheld : s.bitsHeld + 8 ≤ 64)
    (hlt : s.accumulator.toNat < 2 ^ s.bitsHeld) :
    (s.load byte).accumulator.toNat =
      s.accumulator.toNat + 2 ^ s.bitsHeld * byte.toNat :=
  toNat_or_shiftLeft hheld hlt byte

/-- A refill keeps the invariant. -/
theorem Holds.load
    {byte : UInt8}
    (h : Holds input width i s)
    (hwidth : width ≤ 32)
    (hheld : s.bitsHeld < width)
    (hbyte : input[s.bytePos]? = some byte) :
    Holds input width i (s.load byte) where
  position := by
    have := h.position
    simp only [Unpacker.load]
    omega
  exact := by
    have hsplit : 2 ^ (8 * s.bytePos) * byte.toNat =
        2 ^ (i * width) * (2 ^ s.bitsHeld * byte.toNat) := by
      rw [h.position, Nat.pow_add, Nat.mul_assoc]
    rw [toNat_load (by omega) h.accumulator_lt, h.exact]
    change _ = littleEndian (input.take (s.bytePos + 1)) / _
    rw [littleEndian_take_succ hbyte, hsplit, Nat.add_mul_div_left _ _ (by positivity)]
  room := by
    simp only [Unpacker.load]
    omega
  bytes :=
    (List.getElem?_eq_some_iff.mp hbyte).1

/-- So does giving out a value. -/
theorem Holds.consume
    (h : Holds input width i s)
    (hheld : width ≤ s.bitsHeld) :
    Holds input width (i + 1) (s.consume width) where
  position := by
    have := h.position
    simp only [Unpacker.consume, Nat.succ_mul]
    omega
  exact := by
    simp only [Unpacker.consume]
    rw [BitVec.toNat_ushiftRight, Nat.shiftRight_eq_div_pow, h.exact,
      Nat.div_div_eq_div_mul, ← Nat.pow_add, Nat.succ_mul]
  room := by
    have := h.room
    simp only [Unpacker.consume]
    omega
  bytes := h.bytes

/-- The invariant holds in every state of the run. -/
theorem Visits.holds
    (hwidth : width ≤ 32)
    (h : Visits input width i s) :
    Holds input width i s := by
  induction h with
  | start =>
      exact holds_start
  | load _ _ hheld hbyte ih =>
      exact ih.load hwidth hheld hbyte
  | consume _ _ hheld ih =>
      exact ih.consume hheld

/-- The refill finds its bytes and ends with a whole value. -/
theorem refill_spec
    (hwidth : width ≤ 32)
    (hinput : width ≤ input.length)
    (hi : i < 8)
    (h : Visits input width i s) :
    ∃ s', refill input width s = some s' ∧ Visits input width i s' ∧
      width ≤ s'.bitsHeld := by
  fun_induction refill input width s with
  | case1 s hheld hnone =>
      -- The bytes read so far make at most `i` values and part of the next one.
      have hposition := (h.holds hwidth).position
      have hmul : i * width ≤ 7 * width := Nat.mul_le_mul_right width (by omega)
      rw [List.getElem?_eq_none_iff] at hnone
      omega
  | case2 s hheld byte hbyte ih =>
      exact ih (.load h hi hheld hbyte)
  | case3 s hheld =>
      exact ⟨s, rfl, h, not_lt.mp hheld⟩

theorem toNat_valueMask
    (hwidth : width ≤ 32) :
    (valueMask width).toNat = 2 ^ width - 1 := by
  interval_cases width <;> rfl

/-- The value given out is the lowest bits of the accumulator. -/
theorem toNat_value
    (hwidth : width ≤ 32) (s : Unpacker) :
    (s.value width).toNat = s.accumulator.toNat % 2 ^ width := by
  have hpow : 2 ^ width ≤ 2 ^ 32 := Nat.pow_le_pow_right (by norm_num) hwidth
  have hmod : s.accumulator.toNat % 2 ^ width < 2 ^ width :=
    Nat.mod_lt _ (by positivity)
  have hmask : ((valueMask width).setWidth 64).toNat = 2 ^ width - 1 := by
    rw [BitVec.toNat_setWidth, toNat_valueMask hwidth]
    exact Nat.mod_eq_of_lt (by omega)
  rw [Unpacker.value, BitVec.toNat_setWidth, BitVec.toNat_and, hmask,
    Nat.and_two_pow_sub_one_eq_mod]
  exact Nat.mod_eq_of_lt (by omega)

/-- It is the next field of the stream. -/
theorem Holds.value
    (h : Holds input width i s)
    (hwidth : width ≤ 32)
    (hheld : width ≤ s.bitsHeld) :
    (s.value width).toNat = bitField input (i * width) width := by
  have hposition := h.position
  rw [toNat_value hwidth, h.exact, ← bitField_eq]
  exact bitField_take (by omega)

/-- The loop gives out the fields from `i` on. -/
theorem unpackLoop_spec
    (hwidth : width ≤ 32)
    (hinput : width ≤ input.length)
    (remaining : Nat)
    (hi : i + remaining = 8)
    (hheld : s.bitsHeld < 8)
    (h : Visits input width i s) :
    ∃ values final,
      unpackLoop input width remaining s = some (values, final) ∧
        values.map BitVec.toNat =
          (List.range' i remaining).map (fun j => bitField input (j * width) width) ∧
        final.bitsHeld < 8 ∧ Visits input width 8 final := by
  induction remaining generalizing i s with
  | zero =>
      obtain rfl : i = 8 := hi
      exact ⟨[], s, rfl, rfl, hheld, h⟩
  | succ remaining ih =>
      obtain ⟨s', hrefill, hvisited, henough⟩ :=
        refill_spec hwidth hinput (by omega) h
      have hholds := hvisited.holds hwidth
      have hroom := hholds.room
      obtain ⟨values, final, hrest, hvalues, hfinal⟩ :=
        ih (i := i + 1) (s := s'.consume width) (by omega)
          (by simp only [Unpacker.consume]; omega)
          (.consume hvisited (by omega) henough)
      refine ⟨s'.value width :: values, final, ?_, ?_, hfinal⟩
      · simp [unpackLoop, hrefill, hrest]
      · rw [List.map_cons, List.range'_succ, List.map_cons, hvalues,
          hholds.value hwidth henough]

end Runs

section Exactness

/-- The general case gives out the fields of its bytes. -/
theorem bitunpack8_general
    {width : Nat} {input : Bytes}
    (hwidth : width ≤ 32)
    (hinput : width ≤ input.length) :
    ∃ values final,
      unpackLoop input width 8 Unpacker.start = some (values, final) ∧
        values.map BitVec.toNat =
          (List.range 8).map (fun i => bitField input (i * width) width) ∧
        final.bytePos = width ∧ Visits input width 8 final := by
  obtain ⟨values, final, hloop, hvalues, hheld, hvisited⟩ :=
    unpackLoop_spec hwidth hinput 8 rfl (by simp [Unpacker.start]) Visits.start
  have hposition := (hvisited.holds hwidth).position
  rw [← List.range_eq_range'] at hvalues
  exact ⟨values, final, hloop, hvalues, by omega, hvisited⟩

/-- Bit unpacking reads the right bits. For a width from 9 to 32 without a kernel,
value `i` is the number formed by the bits `i * width` to `(i + 1) * width - 1`,
exactly `width` bytes are read, and in every state the accumulator holds exactly the
bits read and not given out, at most 39 of them. -/
theorem bitunpack_reads_bits
    (kernels : Kernels) {width : Nat} {input : Bytes}
    (hlow : 9 ≤ width)
    (hhigh : width ≤ 32)
    (hkernel : kernels.find width = none)
    (hinput : width ≤ input.length) :
    ∃ values final,
      unpackLoop input width 8 Unpacker.start = some (values, final) ∧
        bitunpack8 kernels width input = some values ∧
        values.map BitVec.toNat =
          (List.range 8).map (fun i => bitField input (i * width) width) ∧
        Visits input width 8 final ∧ final.bytePos = width ∧
        ∀ i s, Visits input width i s →
          s.bitsHeld ≤ 39 ∧ s.accumulator.toNat < 2 ^ s.bitsHeld ∧
            s.accumulator.toNat =
              littleEndian (input.take s.bytePos) / 2 ^ (i * width) := by
  obtain ⟨values, final, hloop, hvalues, hbytes, hvisited⟩ :=
    bitunpack8_general hhigh hinput
  refine ⟨values, final, hloop, ?_, hvalues, hvisited, hbytes, ?_⟩
  · obtain ⟨k, rfl⟩ : ∃ k, width = k + 9 := ⟨width - 9, by omega⟩
    rw [bitunpack8, if_neg (by omega), hkernel]
    change (unpackLoop input (k + 9) 8 Unpacker.start).map Prod.fst = some values
    rw [hloop]
    rfl
  · intro i s hs
    have hholds := hs.holds hhigh
    have hroom := hholds.room
    exact ⟨by omega, hholds.accumulator_lt, hholds.exact⟩

/-- Twelve bytes for eight values of twelve bits. -/
def twelveBytes : Bytes :=
  [0x21, 0x43, 0x65, 0x87, 0xA9, 0xCB, 0xED, 0x0F, 0x32, 0x54, 0x76, 0x98]

/-- Twelve bits are three hexadecimal digits, the lowest byte first. -/
theorem bitunpack_reads_bits_twelve :
    ∃ values final,
      unpackLoop twelveBytes 12 8 Unpacker.start = some (values, final) ∧
        final.bytePos = 12 ∧
        values.map BitVec.toNat =
          [0x321, 0x654, 0x987, 0xCBA, 0xFED, 0x320, 0x654, 0x987] := by
  have hinput : 12 ≤ twelveBytes.length := le_rfl
  obtain ⟨values, final, hloop, -, hvalues, -, hbytes, -⟩ :=
    bitunpack_reads_bits ⟨fun _ => none, nofun⟩ (by norm_num) (by norm_num) rfl hinput
  refine ⟨values, final, hloop, hbytes, hvalues.trans ?_⟩
  decide +kernel

end Exactness

section Widths

/-- The fields of `width` bytes. -/
def fields (width : Nat) (input : Bytes) : List (BitVec 32) :=
  (List.range 8).map fun i => BitVec.ofNat 32 (bitField input (i * width) width)

@[simp] theorem length_fields
    (width : Nat) (input : Bytes) :
    (fields width input).length = 8 := by
  simp [fields]

theorem unpackWord_eq
    {width : Nat} {input : Bytes}
    (hinput : width ≤ input.length) :
    unpackWord width input = some (fields width input) := by
  rw [unpackWord, if_pos hinput, fields, Option.some.injEq]
  apply List.map_congr_left
  intro i hi
  have hlast : (i + 1) * width ≤ 8 * width :=
    Nat.mul_le_mul_right width (List.mem_range.mp hi)
  rw [Nat.and_two_pow_sub_one_eq_mod, Nat.shiftRight_eq_div_pow, ← bitField_eq,
    bitField_take (by rwa [Nat.succ_mul] at hlast)]

theorem bitunpack8Bit8_eq
    {input : Bytes}
    (hinput : 8 ≤ input.length) :
    bitunpack8Bit8 input = some (fields 8 input) := by
  rw [bitunpack8Bit8, if_pos hinput, Option.some.injEq]
  apply List.ext_getElem (by simp [hinput])
  intro i hi hi'
  rw [length_fields] at hi'
  have hlt : i < input.length := by
    omega
  simp only [fields, List.getElem_map, List.getElem_take, List.getElem_range,
    bitField_byte, List.getD_eq_getElem _ _ hlt]
  apply BitVec.eq_of_toNat_eq
  rw [BitVec.toNat_setWidth, BitVec.toNat_ofNat, UInt8.toNat_toBitVec]

/-- Every width, with a kernel or without one, gives the fields. -/
theorem bitunpack8_eq_fields
    (kernels : Kernels) {width : Nat} {input : Bytes}
    (hwidth : width ≤ 32)
    (hinput : width ≤ input.length) :
    bitunpack8 kernels width input = some (fields width input) := by
  rw [bitunpack8_eq_scalar]
  match width with
  | 0 => rfl
  | 1 | 2 | 3 | 4 | 5 | 6 | 7 => exact unpackWord_eq hinput
  | 8 => exact bitunpack8Bit8_eq hinput
  | k + 9 =>
      obtain ⟨values, final, hloop, hvalues, -⟩ := bitunpack8_general hwidth hinput
      change (unpackLoop input (k + 9) 8 Unpacker.start).map Prod.fst = _
      have hfields : values = fields (k + 9) input :=
        calc values = (values.map BitVec.toNat).map (BitVec.ofNat 32) := by
              simp [Function.comp_def]
          _ = fields (k + 9) input := by
              rw [hvalues, List.map_map]
              rfl
      rw [hloop, ← hfields]
      rfl

end Widths

end Encoding
end QioParquet
