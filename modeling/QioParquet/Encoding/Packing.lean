import QioParquet.Encoding.Bitpack
import Mathlib.Tactic

/-!
# Packing values, and unpacking many

`carquet_bitpack8_32` is the other direction of `carquet_bitunpack8_32`: eight values into
`bit_width` bytes. A value starts in the middle of a byte and goes over as many bytes as
it needs. `carquet_bitunpack_32` takes any number of values, in groups of eight and a shorter
last group.

All of them are described by the bits they leave. Packed values are the fields of the
bytes, so that whoever reads fields gets the values back.
-/

namespace QioParquet
namespace Encoding

open Lib Read

section Functions

/-- `while (bits_written < bit_width)`. -/
def packRest
    (width : Nat) (output : Bytes) (bytePos bitsWritten : Nat) (val : BitVec 32) : Bytes :=
  if bitsWritten < width then
    packRest width (orByte output bytePos (.ofBitVec (val.setWidth 8)))
      (bytePos + 1) (bitsWritten + 8) (val >>> 8)
  else
    output
termination_by width - bitsWritten

/-- One value of the general case. -/
def packValue
    (width : Nat) (output : Bytes) (bitPos : Nat) (value : BitVec 32) : Bytes :=
  let val := value &&& valueMask width
  let bytePos := bitPos / 8
  let bitOffset := bitPos % 8
  let output := orByte output bytePos (.ofBitVec ((val <<< bitOffset).setWidth 8))
  let bitsWritten := 8 - bitOffset
  if bitsWritten < width then
    packRest width output (bytePos + 1) bitsWritten (val >>> bitsWritten)
  else
    output

/-- The loop over the values. -/
def packLoop (width : Nat) : Nat → Bytes → List (BitVec 32) → Bytes
  | _, output, [] => output
  | bitPos, output, value :: rest =>
      packLoop width (bitPos + width) (packValue width output bitPos value) rest

/-- `carquet_bitpack8_32`: the bytes for eight values. -/
def bitpack8 (width : Nat) (values : List (BitVec 32)) : Bytes :=
  if width = 0 then
    []
  else if width = 8 then
    values.map fun value => .ofBitVec (value.setWidth 8)
  else
    packLoop width 0 (List.replicate width 0) values

/-- `carquet_packed_size`. -/
def packedSize (count width : Nat) : Nat :=
  (count * width + 7) / 8

/-- What `wvals / 8` calls of the scalar code give. -/
def scalarGroups (width : Nat) : Nat → Bytes → List (BitVec 32)
  | 0, _ => []
  | groups + 1, input =>
      (bitunpack8Scalar width input).getD [] ++ scalarGroups width groups (input.drop width)

/-- What `carquet_dispatch_get_bitunpack_wide` hands out: for some widths the number of
values of a wide kernel, and the kernel, which unpacks as that many groups. -/
structure WideKernels where
  find : Nat → Option (Nat × (Bytes → List (BitVec 32)))
  agrees : ∀ width values kernel, find width = some (values, kernel) →
    0 < values ∧ 8 ∣ values ∧ ∀ input, kernel input = scalarGroups width (values / 8) input

/-- A loop that unpacks `step` values from `bytes` bytes as long as so many are wanted:
the values, and the bytes they took. -/
def unpackSteps
    (step bytes : Nat) (unpack : Bytes → List (BitVec 32))
    (count : Nat) (input : Bytes) : List (BitVec 32) × Nat :=
  if 0 < step ∧ step ≤ count then
    let rest := unpackSteps step bytes unpack (count - step) (input.drop bytes)
    (unpack input ++ rest.1, bytes + rest.2)
  else
    ([], 0)
termination_by count

/-- The wide kernel of a width, as long as it has enough values to do. -/
def unpackWide (wide : WideKernels) (width count : Nat) (input : Bytes) :
    List (BitVec 32) × Nat :=
  match wide.find width with
  | none => ([], 0)
  | some (values, kernel) =>
      unpackSteps values (packedSize values width) kernel count input

/-- Fewer than eight values, from a copy of their bytes that is filled up with zeros. -/
def unpackTail (kernels : Kernels) (width count : Nat) (input : Bytes) : List (BitVec 32) :=
  let padded := input.take (packedSize count width) ++
    List.replicate (32 - packedSize count width) 0
  ((bitunpack8 kernels width padded).getD []).take count

/-- `carquet_bitunpack_32`: the values, and the bytes consumed. -/
def bitunpack32
    (kernels : Kernels) (wide : WideKernels) (width count : Nat) (input : Bytes) :
    List (BitVec 32) × Nat :=
  if width = 0 then
    (List.replicate count 0, 0)
  else
    let wides := unpackWide wide width count input
    let groups := unpackSteps 8 width (fun bytes => (bitunpack8 kernels width bytes).getD [])
      (count - wides.1.length) (input.drop wides.2)
    let done := wides.1.length + groups.1.length
    let consumed := wides.2 + groups.2
    if done < count then
      (wides.1 ++ groups.1 ++ unpackTail kernels width (count - done) (input.drop consumed),
        consumed + packedSize (count - done) width)
    else
      (wides.1 ++ groups.1, consumed)

end Functions

section PackedBits

variable {width : Nat}

@[simp] theorem length_packRest
    (output : Bytes) (bytePos bitsWritten : Nat) (val : BitVec 32) :
    (packRest width output bytePos bitsWritten val).length = output.length := by
  fun_induction packRest width output bytePos bitsWritten val with
  | case1 _ _ _ _ _ ih =>
      rw [ih, length_orByte]
  | case2 =>
      rfl

@[simp] theorem length_packValue
    (output : Bytes) (bitPos : Nat) (value : BitVec 32) :
    (packValue width output bitPos value).length = output.length := by
  rw [packValue]
  split_ifs <;> simp

@[simp] theorem length_packLoop
    (bitPos : Nat) (output : Bytes) (values : List (BitVec 32)) :
    (packLoop width bitPos output values).length = output.length := by
  induction values generalizing bitPos output with
  | nil =>
      rfl
  | cons value rest ih =>
      rw [packLoop, ih, length_packValue]

/-- The lowest bits of a value, as a byte. -/
theorem testBit_lowByte
    (val : BitVec 32) (i : Nat) :
    (UInt8.ofBitVec (val.setWidth 8)).toNat.testBit i = (decide (i < 8) && val.getLsbD i) := by
  rw [UInt8.toNat_ofBitVec, ← BitVec.getLsbD, BitVec.getLsbD_setWidth]

/-- The bytes after the first add the rest of a value, which fits into the bits that are
not written. -/
theorem bitAt_packRest
    {output : Bytes} {bytePos bitsWritten : Nat} {val : BitVec 32}
    (hval : val.toNat < 2 ^ (width - bitsWritten))
    (hroom : 8 * bytePos + (width - bitsWritten) ≤ 8 * output.length) (i : Nat) :
    bitAt (packRest width output bytePos bitsWritten val) i =
      (bitAt output i || decide (8 * bytePos ≤ i) && val.getLsbD (i - 8 * bytePos)) := by
  fun_induction packRest width output bytePos bitsWritten val with
  | case1 output bytePos bitsWritten val hmore ih =>
      have hnext : (val >>> 8).toNat < 2 ^ (width - (bitsWritten + 8)) := by
        rw [BitVec.toNat_ushiftRight, Nat.shiftRight_eq_div_pow,
          Nat.div_lt_iff_lt_mul (by norm_num), ← Nat.pow_add]
        exact lt_of_lt_of_le hval (Nat.pow_le_pow_right (by norm_num) (by omega))
      rw [ih hnext (by rw [length_orByte]; omega), bitAt_orByte (by omega), testBit_lowByte,
        BitVec.getLsbD_ushiftRight, Bool.or_assoc]
      congr 1
      -- The bit is in this byte or in a later one.
      rcases lt_or_ge i (8 * bytePos) with hbefore | hfrom
      · simp [Nat.not_le.mpr hbefore, show ¬ 8 * (bytePos + 1) ≤ i by omega]
      · rcases lt_or_ge i (8 * (bytePos + 1)) with hhere | hlater
        · simp [hfrom, Nat.not_le.mpr hhere, show i - 8 * bytePos < 8 by omega]
        · simp [hfrom, hlater, show ¬ i - 8 * bytePos < 8 by omega,
            show 8 + (i - 8 * (bytePos + 1)) = i - 8 * bytePos by omega]
  | case2 output bytePos bitsWritten val hdone =>
      have hzero : val.toNat = 0 := by
        rw [Nat.sub_eq_zero_of_le (by omega)] at hval
        omega
      have hbit : val.getLsbD (i - 8 * bytePos) = false := by
        rw [BitVec.getLsbD, hzero, Nat.zero_testBit]
      simp [hbit]

theorem getLsbD_and_valueMask
    (hwidth : width ≤ 32) (value : BitVec 32) (i : Nat) :
    (value &&& valueMask width).getLsbD i = (decide (i < width) && value.getLsbD i) := by
  rw [BitVec.getLsbD_and, Bool.and_comm]
  congr 1
  rw [BitVec.getLsbD, toNat_valueMask hwidth, Nat.testBit_two_pow_sub_one]

theorem toNat_and_valueMask_lt
    (hwidth : width ≤ 32) (value : BitVec 32) :
    (value &&& valueMask width).toNat < 2 ^ width := by
  rw [BitVec.toNat_and, toNat_valueMask hwidth, Nat.and_two_pow_sub_one_eq_mod]
  exact Nat.mod_lt _ (by positivity)

/-- A value adds its bits at its place. -/
theorem bitAt_packValue
    {output : Bytes} {bitPos : Nat}
    (hwidth : width ≤ 32)
    (hpos : 0 < width)
    (hroom : bitPos + width ≤ 8 * output.length) (value : BitVec 32) (i : Nat) :
    bitAt (packValue width output bitPos value) i =
      (bitAt output i ||
        decide (bitPos ≤ i ∧ i < bitPos + width) && value.getLsbD (i - bitPos)) := by
  have hmask := getLsbD_and_valueMask hwidth value
  have hlt := toNat_and_valueMask_lt hwidth value
  have hplace : bitPos = 8 * (bitPos / 8) + bitPos % 8 := by
    omega
  rw [packValue]
  generalize value &&& valueMask width = val at hmask hlt ⊢
  -- The bits that go into the first byte.
  have hfirst : (UInt8.ofBitVec ((val <<< (bitPos % 8)).setWidth 8)).toNat.testBit
      (i - 8 * (bitPos / 8)) =
      (decide (i - 8 * (bitPos / 8) < 8) && (!decide (i - 8 * (bitPos / 8) < bitPos % 8) &&
        val.getLsbD (i - 8 * (bitPos / 8) - bitPos % 8))) := by
    rw [testBit_lowByte, BitVec.getLsbD_shiftLeft]
    rcases lt_or_ge (i - 8 * (bitPos / 8)) 8 with hlow | hhigh
    · simp [show i - 8 * (bitPos / 8) < 32 by omega]
    · simp [Nat.not_lt.mpr hhigh]
  have hrange : (decide (bitPos ≤ i ∧ i < bitPos + width) && value.getLsbD (i - bitPos)) =
      (decide (bitPos ≤ i) && val.getLsbD (i - bitPos)) := by
    rw [hmask]
    by_cases hge : bitPos ≤ i
    · simp [hge, show i < bitPos + width ↔ i - bitPos < width by omega]
    · simp [hge]
  rw [hrange]
  split_ifs with hmore
  · have hrest : (val >>> (8 - bitPos % 8)).toNat < 2 ^ (width - (8 - bitPos % 8)) := by
      rw [BitVec.toNat_ushiftRight, Nat.shiftRight_eq_div_pow,
        Nat.div_lt_iff_lt_mul (by positivity), ← Nat.pow_add]
      exact lt_of_lt_of_le hlt (Nat.pow_le_pow_right (by norm_num) (by omega))
    rw [bitAt_packRest hrest (by rw [length_orByte]; omega), bitAt_orByte (by omega), hfirst,
      BitVec.getLsbD_ushiftRight, Bool.or_assoc]
    congr 1
    rcases lt_or_ge i bitPos with hbefore | hfrom
    · have hnot : ¬ 8 * (bitPos / 8 + 1) ≤ i := by
        omega
      rcases lt_or_ge i (8 * (bitPos / 8)) with hlow | hhigh
      · simp [Nat.not_le.mpr hlow, Nat.not_le.mpr hbefore, hnot]
      · simp [Nat.not_le.mpr hbefore, hnot, show i - 8 * (bitPos / 8) < bitPos % 8 by omega]
    · have hlow : 8 * (bitPos / 8) ≤ i := by
        omega
      have hindex : i - 8 * (bitPos / 8) - bitPos % 8 = i - bitPos := by
        omega
      rcases lt_or_ge i (8 * (bitPos / 8 + 1)) with hhere | hlater
      · simp [hlow, hfrom, Nat.not_le.mpr hhere, hindex,
          show i - 8 * (bitPos / 8) < 8 by omega,
          show ¬ i - 8 * (bitPos / 8) < bitPos % 8 by omega]
      · simp [hlow, hfrom, hlater, show ¬ i - 8 * (bitPos / 8) < 8 by omega,
          show 8 - bitPos % 8 + (i - 8 * (bitPos / 8 + 1)) = i - bitPos by omega]
  · rw [bitAt_orByte (by omega), hfirst]
    congr 1
    -- The whole value is in the first byte.
    rcases lt_or_ge i bitPos with hbefore | hfrom
    · rcases lt_or_ge i (8 * (bitPos / 8)) with hlow | hhigh
      · simp [Nat.not_le.mpr hlow, Nat.not_le.mpr hbefore]
      · simp [Nat.not_le.mpr hbefore, show i - 8 * (bitPos / 8) < bitPos % 8 by omega]
    · have hlow : 8 * (bitPos / 8) ≤ i := by
        omega
      have hindex : i - 8 * (bitPos / 8) - bitPos % 8 = i - bitPos := by
        omega
      rcases lt_or_ge (i - 8 * (bitPos / 8)) 8 with hhere | hlater
      · simp [hlow, hfrom, hhere, hindex,
          show ¬ i - 8 * (bitPos / 8) < bitPos % 8 by omega]
      · have hbit : val.getLsbD (i - bitPos) = false := by
          rw [hmask, decide_eq_false (by omega), Bool.false_and]
        simp [hbit, hindex]

/-- What is before the place of the values stays. -/
theorem bitAt_packLoop_before
    (hwidth : width ≤ 32)
    (hpos : 0 < width)
    {values : List (BitVec 32)} {output : Bytes} {bitPos : Nat}
    (hroom : bitPos + values.length * width ≤ 8 * output.length)
    {i : Nat}
    (hi : i < bitPos) :
    bitAt (packLoop width bitPos output values) i = bitAt output i := by
  induction values generalizing bitPos output with
  | nil =>
      rfl
  | cons value rest ih =>
      rw [List.length_cons, Nat.succ_mul] at hroom
      rw [packLoop, ih (by rw [length_packValue]; omega) (by omega),
        bitAt_packValue hwidth hpos (by omega)]
      simp [Nat.not_le.mpr hi]

/-- Every value adds its bits at its place. -/
theorem bitAt_packLoop
    (hwidth : width ≤ 32)
    (hpos : 0 < width)
    {values : List (BitVec 32)} {output : Bytes} {bitPos : Nat}
    (hroom : bitPos + values.length * width ≤ 8 * output.length)
    {k j : Nat}
    (hk : k < values.length)
    (hj : j < width) :
    bitAt (packLoop width bitPos output values) (bitPos + k * width + j) =
      (bitAt output (bitPos + k * width + j) || values[k].getLsbD j) := by
  induction values generalizing bitPos output k with
  | nil =>
      cases hk
  | cons value rest ih =>
      rw [List.length_cons, Nat.succ_mul] at hroom
      rw [packLoop]
      cases k with
      | zero =>
          rw [Nat.zero_mul, Nat.add_zero,
            bitAt_packLoop_before hwidth hpos (by rw [length_packValue]; omega) (by omega),
            bitAt_packValue hwidth hpos (by omega)]
          simp [hj]
      | succ k =>
          have hindex : bitPos + (k + 1) * width + j = bitPos + width + k * width + j := by
            rw [Nat.succ_mul]
            omega
          have hout : ¬ bitPos + width + k * width + j < bitPos + width := by
            omega
          rw [hindex, ih (by rw [length_packValue]; omega) (Nat.lt_of_succ_lt_succ hk),
            bitAt_packValue hwidth hpos (by omega)]
          simp [hout]

end PackedBits

section PackedFields

variable {width : Nat}

/-- The first `count` fields of some bytes. -/
def bitFields (width count : Nat) (input : Bytes) : List (BitVec 32) :=
  (List.range count).map fun i => BitVec.ofNat 32 (bitField input (i * width) width)

@[simp] theorem length_bitFields
    (width count : Nat) (input : Bytes) :
    (bitFields width count input).length = count := by
  simp [bitFields]

theorem bitFields_eight
    (width : Nat) (input : Bytes) :
    bitFields width 8 input = fields width input :=
  rfl

/-- Groups of eight end at a byte. -/
theorem bitFields_groups_add
    (groups count : Nat) (input : Bytes) :
    bitFields width (8 * groups + count) input =
      bitFields width (8 * groups) input ++
        bitFields width count (input.drop (groups * width)) := by
  rw [bitFields, List.range_add, List.map_append, List.map_map]
  congr 1
  apply List.map_congr_left
  intro i _
  rw [Function.comp_apply, bitField_drop]
  congr 2
  ring

theorem length_bitpack8
    {values : List (BitVec 32)}
    (hvalues : values.length = 8) :
    (bitpack8 width values).length = width := by
  rw [bitpack8]
  split_ifs with hzero height
  · exact hzero.symm
  · rw [List.length_map, hvalues, height]
  · rw [length_packLoop, List.length_replicate]

/-- The fields of packed values are the lowest bits of the values. -/
theorem bitField_bitpack8
    {values : List (BitVec 32)} {k : Nat}
    (hwidth : width ≤ 32)
    (hvalues : values.length = 8)
    (hk : k < values.length) :
    bitField (bitpack8 width values) (k * width) width = values[k].toNat % 2 ^ width := by
  rw [bitpack8]
  split_ifs with hzero height
  · rw [hzero]
    simp [bitField_eq, Nat.mod_one]
  · rw [height, bitField_byte, List.getD_eq_getElem _ _ (by simpa using hk), List.getElem_map,
      UInt8.toNat_ofBitVec, BitVec.toNat_setWidth]
  · apply bitField_eq_of_bitAt (Nat.mod_lt _ (by positivity))
    intro j hj
    have hroom : 0 + values.length * width ≤ 8 * (List.replicate width (0 : UInt8)).length := by
      rw [hvalues, List.length_replicate]
      omega
    have hbit := bitAt_packLoop hwidth (Nat.pos_of_ne_zero hzero) hroom hk hj
    have hclear : bitAt (List.replicate width 0) (0 + k * width + j) = false := by
      have := bitAt_append_zeros [] width (0 + k * width + j)
      rw [List.nil_append] at this
      rw [this]
      exact bitAt_of_length_le (Nat.zero_le _)
    rw [hclear, Bool.false_or, Nat.zero_add] at hbit
    rw [hbit, Nat.testBit_mod_two_pow, decide_eq_true hj, Bool.true_and]
    rfl

/-- Values that fit are fields of what they are packed into. -/
theorem ofNat_bitField_bitpack8
    {values : List (BitVec 32)} {k : Nat}
    (hwidth : width ≤ 32)
    (hvalues : values.length = 8)
    (hk : k < values.length)
    (hfit : values[k].toNat < 2 ^ width) :
    BitVec.ofNat 32 (bitField (bitpack8 width values) (k * width) width) = values[k] := by
  rw [bitField_bitpack8 hwidth hvalues hk, Nat.mod_eq_of_lt hfit, BitVec.ofNat_toNat,
    BitVec.setWidth_eq]

/-- Eight values come back, whatever follows. -/
theorem fields_bitpack8
    {values : List (BitVec 32)}
    (hwidth : width ≤ 32)
    (hvalues : values.length = 8)
    (hfit : ∀ value ∈ values, value.toNat < 2 ^ width) (rest : Bytes) :
    fields width (bitpack8 width values ++ rest) = values := by
  apply List.ext_getElem (by rw [length_fields, hvalues])
  intro k hk hk'
  have hlast : (k + 1) * width ≤ 8 * width := Nat.mul_le_mul_right width (by omega)
  rw [Nat.succ_mul] at hlast
  simp only [fields, List.getElem_map, List.getElem_range]
  rw [bitField_append (by rw [length_bitpack8 hvalues]; exact hlast),
    ofNat_bitField_bitpack8 hwidth hvalues hk' (hfit _ (List.getElem_mem hk'))]

theorem packedSize_groups_add
    (groups count : Nat) :
    packedSize (8 * groups + count) width = groups * width + packedSize count width := by
  have hmul : (8 * groups + count) * width + 7 = count * width + 7 + 8 * (groups * width) := by
    ring
  rw [packedSize, hmul, Nat.add_mul_div_left _ _ (by norm_num), packedSize, Nat.add_comm]

end PackedFields

section UnpackedFields

variable {width : Nat}

theorem scalarGroups_eq
    (hwidth : width ≤ 32)
    {groups : Nat} {input : Bytes}
    (hinput : groups * width ≤ input.length) :
    scalarGroups width groups input = bitFields width (8 * groups) input := by
  induction groups generalizing input with
  | zero =>
      rfl
  | succ groups ih =>
      rw [Nat.succ_mul] at hinput
      have hscalar : bitunpack8Scalar width input = some (fields width input) := by
        rw [← bitunpack8_eq_scalar ⟨fun _ => none, by rintro _ _ ⟨⟩⟩]
        exact bitunpack8_eq_fields _ hwidth (by omega)
      have hcount : 8 * (groups + 1) = 8 * 1 + 8 * groups := by
        ring
      rw [scalarGroups, hscalar, ih (by rw [List.length_drop]; omega), hcount,
        bitFields_groups_add, Nat.one_mul, Nat.mul_one, bitFields_eight]
      rfl

/-- A loop in steps of whole groups gives as many fields as there are steps. -/
theorem unpackSteps_eq
    {groups : Nat}
    (hgroups : 0 < groups)
    {unpack : Bytes → List (BitVec 32)}
    (hunpack : ∀ bytes : Bytes, groups * width ≤ bytes.length →
      unpack bytes = bitFields width (8 * groups) bytes)
    {count : Nat} {input : Bytes}
    (hinput : packedSize count width ≤ input.length) :
    ∃ steps, 8 * (steps * groups) ≤ count ∧ count < 8 * (steps * groups) + 8 * groups ∧
      unpackSteps (8 * groups) (groups * width) unpack count input =
        (bitFields width (8 * (steps * groups)) input, steps * groups * width) := by
  fun_induction unpackSteps (8 * groups) (groups * width) unpack count input with
  | case1 count input hstep rest ih =>
      obtain ⟨-, hmore⟩ := hstep
      have hcount : count = 8 * groups + (count - 8 * groups) := by
        omega
      rw [hcount, packedSize_groups_add] at hinput
      obtain ⟨steps, hle, hlt, heq⟩ := ih (by rw [List.length_drop]; omega)
      have hsteps : (steps + 1) * groups = groups + steps * groups := by
        ring
      refine ⟨steps + 1, by rw [hsteps]; omega, by rw [hsteps]; omega, ?_⟩
      rw [show rest = _ from heq, hunpack input (by omega), hsteps, Nat.mul_add,
        bitFields_groups_add, Nat.add_mul]
  | case2 count input hstop =>
      refine ⟨0, by omega, by omega, ?_⟩
      simp [bitFields]

theorem unpackTail_eq
    (kernels : Kernels) {count : Nat} {input : Bytes}
    (hwidth : width ≤ 32)
    (hcount : count < 8)
    (hinput : packedSize count width ≤ input.length) :
    unpackTail kernels width count input = bitFields width count input := by
  have hsize : packedSize count width ≤ 32 := by
    have : count * width ≤ 7 * width := Nat.mul_le_mul_right width (by omega)
    rw [packedSize]
    omega
  have hlength : (input.take (packedSize count width)).length = packedSize count width :=
    List.length_take_of_le hinput
  have hpadded : width ≤ (input.take (packedSize count width) ++
      List.replicate (32 - packedSize count width) 0).length := by
    rw [List.length_append, hlength, List.length_replicate]
    omega
  rw [unpackTail]
  rw [bitunpack8_eq_fields kernels hwidth hpadded, Option.getD_some]
  apply List.ext_getElem
  · rw [List.length_take, length_fields, length_bitFields]
    omega
  · intro k hk hk'
    rw [length_bitFields] at hk'
    have hlast : k * width + width ≤ 8 * packedSize count width := by
      have : (k + 1) * width ≤ count * width := Nat.mul_le_mul_right width hk'
      rw [Nat.succ_mul] at this
      rw [packedSize]
      omega
    simp only [fields, bitFields, List.getElem_take, List.getElem_map, List.getElem_range]
    rw [bitField_append (by rw [hlength]; exact hlast), bitField_take hlast]

/-- What the wide kernel does is a number of whole groups. -/
theorem unpackWide_eq
    (wide : WideKernels) {count : Nat} {input : Bytes}
    (hwidth : width ≤ 32)
    (hinput : packedSize count width ≤ input.length) :
    ∃ groups, 8 * groups ≤ count ∧
      unpackWide wide width count input =
        (bitFields width (8 * groups) input, groups * width) := by
  rw [unpackWide]
  split
  · exact ⟨0, Nat.zero_le _, by simp [bitFields]⟩
  · rename_i values kernel hfind
    obtain ⟨hpos, ⟨groups, rfl⟩, hkernel⟩ := wide.agrees _ _ _ hfind
    have hbytes : packedSize (8 * groups) width = groups * width := by
      have : packedSize (8 * groups + 0) width = groups * width + packedSize 0 width :=
        packedSize_groups_add groups 0
      simpa [packedSize] using this
    have hunpack : ∀ bytes : Bytes, groups * width ≤ bytes.length →
        kernel bytes = bitFields width (8 * groups) bytes := by
      intro bytes hlong
      rw [hkernel, Nat.mul_div_cancel_left _ (by norm_num)]
      exact scalarGroups_eq hwidth hlong
    obtain ⟨steps, hle, -, heq⟩ := unpackSteps_eq (by omega) hunpack hinput
    exact ⟨steps * groups, hle, by rw [hbytes]; exact heq⟩

/-- `carquet_bitunpack_32` gives the fields, through whichever kernels. -/
theorem bitunpack32_eq
    (kernels : Kernels) (wide : WideKernels) {count : Nat} {input : Bytes}
    (hwidth : width ≤ 32)
    (hinput : packedSize count width ≤ input.length) :
    bitunpack32 kernels wide width count input =
      (bitFields width count input, packedSize count width) := by
  rw [bitunpack32]
  split_ifs with hzero
  · subst hzero
    simp [bitFields, bitField_eq, Nat.mod_one, packedSize]
  · obtain ⟨wides, hwides, hwideEq⟩ := unpackWide_eq wide hwidth hinput
    have hrest : count = 8 * wides + (count - 8 * wides) := by
      omega
    have hsize : packedSize (8 * wides + (count - 8 * wides)) width =
        wides * width + packedSize (count - 8 * wides) width :=
      packedSize_groups_add wides (count - 8 * wides)
    rw [← hrest] at hsize
    have hunpack : ∀ bytes : Bytes, 1 * width ≤ bytes.length →
        (bitunpack8 kernels width bytes).getD [] = bitFields width (8 * 1) bytes := by
      intro bytes hlong
      rw [bitunpack8_eq_fields kernels hwidth (by omega)]
      rfl
    have hleft : packedSize (count - 8 * wides) width ≤
        (input.drop (wides * width)).length := by
      rw [List.length_drop]
      omega
    obtain ⟨groups, hle, hlt, hgroupsEq⟩ := unpackSteps_eq Nat.one_pos hunpack hleft
    simp only [Nat.mul_one, Nat.one_mul] at hle hlt hgroupsEq
    have htail : count - 8 * wides = 8 * groups + (count - (8 * wides + 8 * groups)) := by
      omega
    have hfields : bitFields width count input =
        bitFields width (8 * wides) input ++
          bitFields width (8 * groups) (input.drop (wides * width)) ++
          bitFields width (count - (8 * wides + 8 * groups))
            (input.drop (wides * width + groups * width)) := by
      conv_lhs => rw [hrest, bitFields_groups_add, htail, bitFields_groups_add]
      rw [List.append_assoc, List.drop_drop]
    have hsizes : packedSize count width = wides * width + groups * width +
        packedSize (count - (8 * wides + 8 * groups)) width := by
      rw [hsize, htail, packedSize_groups_add, Nat.add_assoc]
    simp only [hwideEq, length_bitFields, hgroupsEq]
    split_ifs with hmore
    · rw [unpackTail_eq kernels hwidth (by omega) (by rw [List.length_drop]; omega), hfields,
        hsizes]
    · have hnone : count - (8 * wides + 8 * groups) = 0 := by
        omega
      rw [hfields, hsizes, hnone]
      simp [bitFields, packedSize]

end UnpackedFields

end Encoding
end QioParquet
