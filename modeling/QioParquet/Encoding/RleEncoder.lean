import QioParquet.Encoding.Packing
import QioParquet.Encoding.RleLaws
import QioParquet.Lib.Varint
import Mathlib.Tactic

/-!
# The RLE encoder

Values are put one by one (`carquet_rle_encoder_put`) or several equal ones at once
(`carquet_rle_encoder_put_repeat`). The encoder counts how often the last value was
repeated. A run of eight or more becomes an RLE run; a shorter one goes into a buffer that
is written as a bit-packed group when it has eight values. A buffer that is not full when
it has to be written is taken apart into RLE runs, for a group is always whole.

What has been put is at any time the stream that was written, the buffer, and the run that
is being counted. A flush leaves the stream alone, and the stream can be continued by
another encoder.
-/

namespace QioParquet
namespace Encoding

open Lib Read

section Encoder

/-- `carquet_rle_encoder_t`. `buffer` is what the output buffer holds; of `bitpack_buffer`
there are the `bitpack_count` values in use. -/
structure RleEncoder where
  buffer : Bytes
  bitWidth : Nat
  prevValue : BitVec 32
  repeatCount : Nat
  hasPrev : Bool
  bitpackBuffer : List (BitVec 32)
  bitpackTotal : Nat
  status : RleStatus

/-- `(uint32_t)(count << 1)`. -/
def runHeader (count : Nat) : BitVec 32 :=
  BitVec.ofNat 32 (count <<< 1)

/-- `write_value_bytes` for `rle_value_bytes` of a width. -/
def valueBytes (width : Nat) (value : BitVec 32) : Bytes :=
  leBytes ((width + 7) / 8) value.toNat

/-- The header and the value of an RLE run. -/
def rleRun (width count : Nat) (value : BitVec 32) : Bytes :=
  writeVarint (runHeader count) ++ valueBytes width value

/-- The loop of `flush_bitpack_as_rle`: a run for equal values in a row. -/
def partialRuns (width : Nat) : List (BitVec 32) → Bytes
  | [] => []
  | value :: rest =>
      rleRun width (1 + (rest.takeWhile (· == value)).length) value ++
        partialRuns width (rest.dropWhile (· == value))
termination_by values => values.length
decreasing_by
  have := (rest.dropWhile_sublist (· == value)).length_le
  simp only [List.length_cons]
  omega

namespace RleEncoder

/-- `carquet_rle_encoder_init`. -/
def init (buffer : Bytes) (bitWidth : Nat) : RleEncoder :=
  ⟨buffer, bitWidth, 0, 0, false, [], 0, .ok⟩

/-- `flush_rle`. -/
def flushRle (e : RleEncoder) : RleEncoder :=
  if e.repeatCount = 0 then
    e
  else
    { e with
      buffer := e.buffer ++ rleRun e.bitWidth e.repeatCount e.prevValue
      repeatCount := 0 }

/-- `flush_bitpack_as_rle`. -/
def flushBitpackAsRle (e : RleEncoder) : RleEncoder :=
  { e with
    buffer := e.buffer ++ partialRuns e.bitWidth e.bitpackBuffer
    bitpackBuffer := []
    bitpackTotal := 0 }

/-- `flush_bitpack`. Every group is written from the same buffer. -/
def flushBitpack (e : RleEncoder) : RleEncoder :=
  if e.bitpackBuffer.length = 0 then
    e
  else if e.bitpackBuffer.length < 8 then
    flushBitpackAsRle e
  else
    let numGroups := (e.bitpackTotal + 7) / 8
    { e with
      buffer := e.buffer ++ writeVarint (BitVec.ofNat 32 (numGroups <<< 1 ||| 1)) ++
        (List.replicate numGroups (bitpack8 e.bitWidth e.bitpackBuffer)).flatten
      bitpackBuffer := []
      bitpackTotal := 0 }

/-- One turn of the loop that moves a short run to the buffer. -/
def bufferValue (e : RleEncoder) : RleEncoder :=
  let e := { e with
    bitpackBuffer := e.bitpackBuffer ++ [e.prevValue]
    bitpackTotal := e.bitpackTotal + 1 }
  if e.bitpackBuffer.length = 8 then flushBitpack e else e

/-- `for (i = 0; i < repeat_count; i++)`. -/
def bufferValues : Nat → RleEncoder → RleEncoder
  | 0, e => e
  | count + 1, e => bufferValues count (bufferValue e)

/-- A short run goes to the buffer. -/
def bufferRun (e : RleEncoder) : RleEncoder :=
  { bufferValues e.repeatCount e with repeatCount := 0 }

/-- The run that has ended is written or buffered. -/
def closeRun (e : RleEncoder) : RleEncoder :=
  if 8 ≤ e.repeatCount then flushRle (flushBitpack e) else bufferRun e

/-- `carquet_rle_encoder_put`. -/
def put (value : BitVec 32) (e : RleEncoder) : RleEncoder :=
  if e.status ≠ .ok then
    e
  else if e.hasPrev = false then
    { e with prevValue := value, repeatCount := 1, hasPrev := true }
  else if value = e.prevValue then
    { e with repeatCount := e.repeatCount + 1 }
  else
    { closeRun e with prevValue := value, repeatCount := 1 }

/-- The values after the first of several equal ones. -/
def extendRun (count : Nat) (e : RleEncoder) : RleEncoder :=
  if e.status ≠ .ok then e else { e with repeatCount := e.repeatCount + count }

/-- `carquet_rle_encoder_put_repeat`. -/
def putRepeat (value : BitVec 32) (count : ℤ) (e : RleEncoder) : RleEncoder :=
  if count ≤ 0 ∨ e.status ≠ .ok then
    e
  else if e.hasPrev = true ∧ value = e.prevValue then
    { e with repeatCount := e.repeatCount + count.toNat }
  else if e.hasPrev = true then
    extendRun (count - 1).toNat (put value e)
  else
    { e with prevValue := value, repeatCount := count.toNat, hasPrev := true }

/-- Flush remaining bit-pack buffer. -/
def flushRest (e : RleEncoder) : RleEncoder :=
  if 0 < e.bitpackBuffer.length then flushBitpack e else e

/-- `carquet_rle_encoder_flush`. -/
def flush (e : RleEncoder) : RleEncoder :=
  if e.status ≠ .ok then
    e
  else if 8 ≤ e.repeatCount then
    flushRle (flushBitpack e)
  else if 0 < e.repeatCount then
    flushRest (bufferRun e)
  else
    e

end RleEncoder

/-- A call of the encoder. -/
inductive RlePut where
  | put (value : BitVec 32)
  | putRepeat (value : BitVec 32) (count : ℤ)
  | flush

/-- The values a call hands over. -/
def RlePut.values : RlePut → List (BitVec 32)
  | .put value => [value]
  | .putRepeat value count => List.replicate count.toNat value
  | .flush => []

/-- One call. -/
def RleEncoder.apply (e : RleEncoder) : RlePut → RleEncoder
  | .put value => e.put value
  | .putRepeat value count => e.putRepeat value count
  | .flush => e.flush

/-- `carquet_rle_encode_all`: what the output holds afterwards. -/
def rleEncodeAll (input : List (BitVec 32)) (bitWidth : Nat) (output : Bytes) : Bytes :=
  (input.foldl (fun e value => e.put value) (RleEncoder.init output bitWidth)).flush.buffer

/-- `carquet_rle_encode_levels`: a level is widened with its sign. -/
def rleEncodeLevels (input : List (BitVec 16)) (bitWidth : Nat) (output : Bytes) : Bytes :=
  rleEncodeAll (input.map (BitVec.signExtend 32)) bitWidth output

end Encoder

section Streams

variable {width : Nat}

/-- The header of a run is a number that is read back. -/
theorem varintLoop_reads :
    ReadsVarint (w := 32) varintLoop fun held _ used => some (held, used) where
  last byte rest shift held used hshift _ hlast := by
    rw [varintLoop, if_pos hshift]
    exact if_pos hlast
  next byte rest shift held used hshift hnext := by
    rw [varintLoop, if_pos (by omega)]
    exact if_neg hnext

theorem varintLoop_writeVarint
    (header : BitVec 32) (rest : Bytes) :
    varintLoop (writeVarint header ++ rest) 0 0 0 =
      some (header, (writeVarint header).length) := by
  rw [writeVarint_eq_leb128 (by norm_num), varintLoop_reads.leb128 header.isLt (by norm_num),
    BitVec.ofNat_toNat, BitVec.setWidth_eq, Nat.zero_add]

/-- Bytes after a header do not change it. -/
theorem varintLoop_append
    {front : Bytes} {shift used : Nat} {result header : BitVec 32} {total : Nat}
    (h : varintLoop front shift result used = some (header, total)) (rest : Bytes) :
    varintLoop (front ++ rest) shift result used = some (header, total) := by
  induction front generalizing shift result used with
  | nil =>
      cases h
  | cons byte front ih =>
      simp only [varintLoop, List.cons_append] at h ⊢
      split_ifs at h ⊢ with hshift hlast
      · exact h
      · exact ih h

/-- Bytes after whole groups are left over. -/
theorem packedValues_append
    {groups : Nat} {front left : Bytes}
    (h : (packedValues width groups front).2 = some left) (rest : Bytes) :
    packedValues width groups (front ++ rest) =
      ((packedValues width groups front).1, some (left ++ rest)) := by
  induction groups generalizing front with
  | zero =>
      cases h
      rfl
  | succ groups ih =>
      simp only [packedValues] at h ⊢
      split_ifs at h with hshort
      have hlong : ¬ (front ++ rest).length < width := by
        rw [List.length_append]
        omega
      have hgroup : fields width (front ++ rest) = fields width front := by
        apply List.map_congr_left
        intro i hi
        have hlast : (i + 1) * width ≤ 8 * width :=
          Nat.mul_le_mul_right width (List.mem_range.mp hi)
        rw [Nat.succ_mul] at hlast
        rw [bitField_append (by omega)]
      rw [if_neg hlong, if_neg hshort, List.drop_append_of_le_length (by omega), ih h, hgroup]

/-- A stream that ends well can be continued. The induction is on its length, a run at a
time. -/
theorem stream_append
    {front : Bytes}
    (hend : (stream width front).2 = .ok) (rest : Bytes) :
    stream width (front ++ rest) = prepend (stream width front).1 (stream width rest) := by
  induction hlength : front.length using Nat.strong_induction_on generalizing front with
  | _ length ih =>
      cases hheader : varintLoop front 0 0 0 with
      | none =>
          rcases eq_or_ne front [] with rfl | hsome
          · simp [prepend]
          · rw [stream_of_none hsome hheader] at hend
            cases hend
      | some read =>
          obtain ⟨header, used⟩ := read
          have hused := varintLoop_used hheader
          have hheader' := varintLoop_append hheader rest
          have hbody : (front ++ rest).drop used = front.drop used ++ rest :=
            List.drop_append_of_le_length (by omega)
          by_cases heven : header &&& 1 = 0
          · rw [stream_of_even hheader heven] at hend ⊢
            rw [stream_of_even hheader' heven, hbody]
            split_ifs at hend ⊢ with hempty hshort hshort'
            · exact ih _ (by rw [List.length_drop]; omega) hend rfl
            · rw [List.length_append] at hshort
              omega
            · have hvalue : runValue width (front.drop used ++ rest) =
                  runValue width (front.drop used) := by
                rw [runValue, runValue, List.take_append_of_le_length (by omega)]
              rw [hvalue, List.drop_append_of_le_length (by omega),
                ih _ (by simp only [List.length_drop]; omega) hend rfl]
              simp [prepend]
          · rw [stream_of_odd hheader heven] at hend ⊢
            rw [stream_of_odd hheader' heven, hbody]
            cases hleft : (packedValues width (header >>> 1).toNat (front.drop used)).2 with
            | none =>
                rw [groupsThenStream, hleft] at hend
                cases hend
            | some left =>
                have hle := length_packedValues_rest hleft
                rw [List.length_drop] at hle
                rw [groupsThenStream, hleft] at hend
                simp only [groupsThenStream, packedValues_append hleft, hleft]
                rw [ih _ (by omega) hend rfl]
                simp [prepend]

theorem runHeader_even
    {count : Nat}
    (hcount : count < 2 ^ 31) :
    runHeader count &&& 1 = 0 ∧ (runHeader count >>> 1).toNat = count := by
  have hheader : (runHeader count).toNat = count * 2 := by
    rw [runHeader, BitVec.toNat_ofNat, Nat.shiftLeft_eq]
    exact Nat.mod_eq_of_lt (by omega)
  constructor
  · apply BitVec.eq_of_toNat_eq
    rw [BitVec.toNat_and, hheader]
    change count * 2 &&& 2 ^ 1 - 1 = 0
    rw [Nat.and_two_pow_sub_one_eq_mod]
    omega
  · rw [BitVec.toNat_ushiftRight, hheader, Nat.shiftRight_eq_div_pow]
    omega

theorem runValue_valueBytes
    {value : BitVec 32}
    (hfit : value.toNat < 2 ^ width) (rest : Bytes) :
    runValue width (valueBytes width value ++ rest) = value := by
  have htake : (valueBytes width value ++ rest).take ((width + 7) / 8) =
      valueBytes width value :=
    List.take_left' (length_leBytes _ _)
  have hpow : 2 ^ width ≤ 2 ^ (8 * ((width + 7) / 8)) :=
    Nat.pow_le_pow_right (by norm_num) (by omega)
  rw [runValue, htake, valueBytes, littleEndian_leBytes_of_lt (by omega),
    Nat.mod_eq_of_lt hfit, BitVec.ofNat_toNat, BitVec.setWidth_eq]

/-- An RLE run is its value, so many times. -/
theorem stream_rleRun
    {count : Nat} {value : BitVec 32}
    (hpos : 0 < count)
    (hcount : count < 2 ^ 31)
    (hfit : value.toNat < 2 ^ width) (rest : Bytes) :
    stream width (rleRun width count value ++ rest) =
      prepend (List.replicate count value) (stream width rest) := by
  obtain ⟨heven, hrun⟩ := runHeader_even hcount
  have hheader := varintLoop_writeVarint (runHeader count) (valueBytes width value ++ rest)
  have hvalue : (valueBytes width value ++ rest).drop ((width + 7) / 8) = rest :=
    List.drop_left' (length_leBytes _ _)
  have hlength : ¬ (valueBytes width value ++ rest).length < (width + 7) / 8 := by
    rw [List.length_append, valueBytes, length_leBytes]
    omega
  rw [rleRun, List.append_assoc, stream_of_even hheader heven, hrun, if_neg (by omega),
    List.drop_left, if_neg hlength, runValue_valueBytes hfit, hvalue]

/-- A group is its eight values. -/
theorem stream_group
    {values : List (BitVec 32)}
    (hwidth : width ≤ 32)
    (hvalues : values.length = 8)
    (hfit : ∀ value ∈ values, value.toNat < 2 ^ width) (rest : Bytes) :
    stream width (writeVarint 3#32 ++ (bitpack8 width values ++ rest)) =
      prepend values (stream width rest) := by
  have hlength : (bitpack8 width values).length = width :=
    length_bitpack8 hvalues
  have hlong : ¬ (bitpack8 width values ++ rest).length < width := by
    rw [List.length_append, hlength]
    omega
  rw [stream_of_odd (varintLoop_writeVarint 3#32 _) (by decide), List.drop_left]
  change groupsThenStream width (0 + 1) _ = _
  rw [groupsThenStream_succ, if_neg hlong, fields_bitpack8 hwidth hvalues hfit,
    List.drop_left' hlength, groupsThenStream_zero]

/-- A buffer that is taken apart into runs is its values. -/
theorem stream_partialRuns
    {values : List (BitVec 32)}
    (hshort : values.length < 2 ^ 31)
    (hfit : ∀ value ∈ values, value.toNat < 2 ^ width) (rest : Bytes) :
    stream width (partialRuns width values ++ rest) =
      prepend values (stream width rest) := by
  fun_induction partialRuns width values with
  | case1 =>
      simp [prepend]
  | case2 value others ih =>
      have hothers : others.takeWhile (· == value) =
          List.replicate (others.takeWhile (· == value)).length value :=
        List.eq_replicate_of_mem fun other hother => by
          simpa using List.all_eq_true.mp List.all_takeWhile other hother
      have hlength : (others.takeWhile (· == value)).length ≤ others.length :=
        (others.takeWhile_sublist (· == value)).length_le
      have hrest : (others.dropWhile (· == value)).length ≤ others.length :=
        (others.dropWhile_sublist (· == value)).length_le
      rw [List.length_cons] at hshort
      rw [List.append_assoc, stream_rleRun (by omega) (by omega) (hfit value (by simp)),
        ih (by omega) fun other hother => hfit other
          (List.mem_cons_of_mem _ ((others.dropWhile_sublist _).subset hother))]
      simp only [prepend]
      rw [Nat.add_comm, List.replicate_succ, ← hothers, ← List.append_assoc, List.cons_append,
        List.takeWhile_append_dropWhile]

end Streams

section Invariant

variable {width : Nat} {before values : List (BitVec 32)} {e : RleEncoder} {run : Nat}

/-- Behind what the output held before, the values are those of the stream written, those
in the buffer, and a run of the last value. -/
structure RleEncoder.Holds
    (width : Nat) (before : List (BitVec 32)) (e : RleEncoder) (run : Nat)
    (values : List (BitVec 32)) : Prop where
  bitWidth : e.bitWidth = width
  status : e.status = .ok
  written : ∃ front, stream width e.buffer = (before ++ front, .ok) ∧
    values = front ++ (e.bitpackBuffer ++ List.replicate run e.prevValue)
  total : e.bitpackTotal = e.bitpackBuffer.length
  room : e.bitpackBuffer.length ≤ 8

/-- What holds between calls. -/
structure RleEncoder.Between
    (width : Nat) (before : List (BitVec 32)) (e : RleEncoder)
    (values : List (BitVec 32)) : Prop where
  holds : Holds width before e e.repeatCount values
  room : e.bitpackBuffer.length < 8
  fresh : e.hasPrev = false → e.repeatCount = 0
  idle : e.repeatCount = 0 → e.bitpackBuffer = []

/-- Values the encoder can take. -/
structure RleEncodable (width : Nat) (values : List (BitVec 32)) : Prop where
  narrow : width ≤ 32
  fit : ∀ value ∈ values, value.toNat < 2 ^ width
  short : values.length < 2 ^ 31

theorem RleEncodable.front
    {more : List (BitVec 32)}
    (h : RleEncodable width (values ++ more)) :
    RleEncodable width values where
  narrow := h.narrow
  fit value hvalue := h.fit value (List.mem_append_left more hvalue)
  short := by
    have := h.short
    rw [List.length_append] at this
    omega

theorem RleEncodable.tail
    {value : BitVec 32}
    (h : RleEncodable width (value :: values)) :
    RleEncodable width values where
  narrow := h.narrow
  fit other hother := h.fit other (List.mem_cons_of_mem value hother)
  short := by
    have := h.short
    rw [List.length_cons] at this
    omega

/-- Bytes that stand for some values continue the stream by them. -/
theorem stream_continued
    {buffer bytes : Bytes} {front new : List (BitVec 32)}
    (hbuffer : stream width buffer = (front, .ok))
    (hnew : ∀ rest, stream width (bytes ++ rest) = prepend new (stream width rest)) :
    stream width (buffer ++ bytes) = (front ++ new, .ok) := by
  have hbytes := hnew []
  rw [List.append_nil, stream_nil] at hbytes
  rw [stream_append (by rw [hbuffer]), hbuffer, hbytes]
  simp [prepend]

namespace RleEncoder

/-- The buffer is written. -/
theorem Holds.flushBitpack
    (h : Holds width before e run values)
    (hvalues : RleEncodable width values) :
    Holds width before e.flushBitpack run values ∧
      e.flushBitpack.bitpackBuffer = [] ∧
      e.flushBitpack.repeatCount = e.repeatCount ∧
      e.flushBitpack.prevValue = e.prevValue ∧
      e.flushBitpack.hasPrev = e.hasPrev := by
  obtain ⟨front, hstream, heq⟩ := h.written
  have hfit : ∀ value ∈ e.bitpackBuffer, value.toNat < 2 ^ width := fun value hvalue =>
    hvalues.fit value (by rw [heq]; simp [hvalue])
  have hroom := h.room
  rw [RleEncoder.flushBitpack]
  split_ifs with hnone hpartial
  · exact ⟨h, List.eq_nil_of_length_eq_zero hnone, rfl, rfl, rfl⟩
  · refine ⟨⟨h.bitWidth, h.status, ?_, rfl, Nat.zero_le _⟩, rfl, rfl, rfl, rfl⟩
    refine ⟨front ++ e.bitpackBuffer, ?_, ?_⟩
    · rw [← List.append_assoc]
      refine stream_continued hstream fun rest => ?_
      rw [h.bitWidth]
      exact stream_partialRuns (by omega) hfit rest
    · rw [heq]
      simp [flushBitpackAsRle]
  · have hfull : e.bitpackBuffer.length = 8 := by
      omega
    have hgroups : (e.bitpackTotal + 7) / 8 = 1 := by
      rw [h.total, hfull]
    refine ⟨⟨h.bitWidth, h.status, ?_, rfl, Nat.zero_le _⟩, rfl, rfl, rfl, rfl⟩
    refine ⟨front ++ e.bitpackBuffer, ?_, ?_⟩
    · simp only [hgroups, h.bitWidth]
      rw [← List.append_assoc, List.append_assoc e.buffer]
      refine stream_continued hstream fun rest => ?_
      rw [List.append_assoc]
      simpa using stream_group hvalues.narrow hfull hfit rest
    · rw [heq]
      simp

/-- The run is written. -/
theorem Holds.flushRle
    (h : Holds width before e e.repeatCount values)
    (hvalues : RleEncodable width values)
    (hempty : e.bitpackBuffer = []) :
    Holds width before e.flushRle 0 values ∧
      e.flushRle.bitpackBuffer = [] ∧ e.flushRle.repeatCount = 0 ∧
      e.flushRle.hasPrev = e.hasPrev := by
  obtain ⟨front, hstream, heq⟩ := h.written
  rw [hempty, List.nil_append] at heq
  have hlength : e.repeatCount ≤ values.length := by
    rw [heq, List.length_append, List.length_replicate]
    omega
  have hshort := hvalues.short
  rw [RleEncoder.flushRle]
  split_ifs with hnone
  · refine ⟨⟨h.bitWidth, h.status, ⟨front, hstream, ?_⟩, h.total, h.room⟩, hempty, hnone, rfl⟩
    rw [heq, hnone, hempty]
    rfl
  · have hfit : e.prevValue.toNat < 2 ^ width :=
      hvalues.fit _ (by rw [heq]; simp [hnone])
    refine ⟨⟨h.bitWidth, h.status, ⟨values, ?_, ?_⟩, h.total, h.room⟩, hempty, rfl, rfl⟩
    · rw [heq, ← List.append_assoc]
      refine stream_continued hstream fun rest => ?_
      rw [h.bitWidth]
      exact stream_rleRun (by omega) (by omega) hfit rest
    · simp [hempty]

/-- One value goes from the run to the buffer. -/
theorem Holds.bufferValue
    (h : Holds width before e (run + 1) values)
    (hvalues : RleEncodable width values)
    (hroom : e.bitpackBuffer.length < 8) :
    Holds width before e.bufferValue run values ∧
      e.bufferValue.bitpackBuffer.length < 8 ∧
      e.bufferValue.hasPrev = e.hasPrev := by
  have hmoved : Holds width before
      { e with
        bitpackBuffer := e.bitpackBuffer ++ [e.prevValue]
        bitpackTotal := e.bitpackTotal + 1 } run values := by
    obtain ⟨front, hstream, heq⟩ := h.written
    refine ⟨h.bitWidth, h.status, ⟨front, hstream, ?_⟩, ?_, ?_⟩
    · rw [heq, List.replicate_succ]
      simp
    · simp [h.total]
    · simpa using hroom
  rw [RleEncoder.bufferValue]
  dsimp only
  split_ifs with hfull
  · obtain ⟨hflushed, hempty, -, -, hprev⟩ := hmoved.flushBitpack hvalues
    exact ⟨hflushed, by rw [hempty]; norm_num, hprev⟩
  · have hle := hmoved.room
    exact ⟨hmoved, by simp only at hle hfull ⊢; omega, rfl⟩

theorem Holds.bufferValues
    (h : Holds width before e run values)
    (hvalues : RleEncodable width values)
    (hroom : e.bitpackBuffer.length < 8) :
    Holds width before (bufferValues run e) 0 values ∧
      (RleEncoder.bufferValues run e).bitpackBuffer.length < 8 ∧
      (RleEncoder.bufferValues run e).hasPrev = e.hasPrev := by
  induction run generalizing e with
  | zero =>
      exact ⟨h, hroom, rfl⟩
  | succ run ih =>
      obtain ⟨hnext, hroom', hprev⟩ := h.bufferValue hvalues hroom
      obtain ⟨hrest, hroom'', hprev'⟩ := ih hnext hroom'
      exact ⟨hrest, hroom'', hprev'.trans hprev⟩

/-- After a run there is none. -/
theorem Holds.bufferRun
    (h : Holds width before e e.repeatCount values)
    (hvalues : RleEncodable width values)
    (hroom : e.bitpackBuffer.length < 8) :
    Holds width before e.bufferRun 0 values ∧
      e.bufferRun.bitpackBuffer.length < 8 ∧ e.bufferRun.repeatCount = 0 ∧
      e.bufferRun.hasPrev = e.hasPrev := by
  obtain ⟨hmoved, hroom', hprev⟩ := h.bufferValues hvalues hroom
  exact ⟨⟨hmoved.bitWidth, hmoved.status, hmoved.written, hmoved.total, hmoved.room⟩,
    hroom', rfl, hprev⟩

/-- A long run is written behind the buffer. -/
theorem Holds.flushBoth
    (h : Holds width before e e.repeatCount values)
    (hvalues : RleEncodable width values) :
    Holds width before e.flushBitpack.flushRle 0 values ∧
      e.flushBitpack.flushRle.bitpackBuffer = [] ∧
      e.flushBitpack.flushRle.repeatCount = 0 ∧
      e.flushBitpack.flushRle.hasPrev = e.hasPrev := by
  obtain ⟨hflushed, hempty, hcount, -, hprev⟩ := h.flushBitpack hvalues
  rw [← hcount] at hflushed
  obtain ⟨hwritten, hempty', hnone, hprev'⟩ := hflushed.flushRle hvalues hempty
  exact ⟨hwritten, hempty', hnone, hprev'.trans hprev⟩

theorem Holds.closeRun
    (h : Holds width before e e.repeatCount values)
    (hvalues : RleEncodable width values)
    (hroom : e.bitpackBuffer.length < 8) :
    Holds width before e.closeRun 0 values ∧
      e.closeRun.bitpackBuffer.length < 8 ∧ e.closeRun.hasPrev = e.hasPrev := by
  rw [RleEncoder.closeRun]
  split_ifs
  · obtain ⟨hwritten, hempty, -, hprev⟩ := h.flushBoth hvalues
    exact ⟨hwritten, by rw [hempty]; norm_num, hprev⟩
  · obtain ⟨hmoved, hroom', -, hprev⟩ := h.bufferRun hvalues hroom
    exact ⟨hmoved, hroom', hprev⟩

/-- Another run, with nothing else changed. -/
theorem Holds.startRun
    (h : Holds width before e 0 values) (value : BitVec 32) (count : Nat) (flag : Bool) :
    Holds width before
      { e with prevValue := value, repeatCount := count, hasPrev := flag } count
      (values ++ List.replicate count value) := by
  obtain ⟨front, hstream, heq⟩ := h.written
  refine ⟨h.bitWidth, h.status, ⟨front, hstream, ?_⟩, h.total, h.room⟩
  rw [heq]
  simp

/-- The run gets longer. -/
theorem Holds.extend
    (h : Holds width before e run values) (count more : Nat) :
    Holds width before { e with repeatCount := count } (run + more)
      (values ++ List.replicate more e.prevValue) := by
  obtain ⟨front, hstream, heq⟩ := h.written
  refine ⟨h.bitWidth, h.status, ⟨front, hstream, ?_⟩, h.total, h.room⟩
  rw [heq, List.replicate_add]
  simp

/-- More of the same value. -/
theorem Between.extend
    (h : Between width before e values) (hprev : e.hasPrev = true)
    {value : BitVec 32} (hvalue : e.prevValue = value) (count : Nat)
    (hrun : 0 < e.repeatCount + count) :
    Between width before { e with repeatCount := e.repeatCount + count }
      (values ++ List.replicate count value) where
  holds := hvalue ▸ h.holds.extend (e.repeatCount + count) count
  room := h.room
  fresh hfresh := absurd (hfresh.symm.trans hprev) Bool.false_ne_true
  idle hnone := absurd hnone hrun.ne'

/-- The first run. -/
theorem Between.first
    (h : Between width before e values) (hprev : e.hasPrev = false)
    (value : BitVec 32) {count : Nat}
    (hcount : 0 < count) :
    Between width before { e with prevValue := value, repeatCount := count, hasPrev := true }
      (values ++ List.replicate count value) where
  holds := by
    have hholds := h.holds
    rw [h.fresh hprev] at hholds
    exact hholds.startRun value count true
  room := h.room
  fresh hprev := by
    cases hprev
  idle hnone := by
    simp only at hnone
    omega

/-- A value that is put is behind those put before. -/
theorem Between.put
    (h : Between width before e values) (value : BitVec 32)
    (hvalues : RleEncodable width (values ++ [value])) :
    Between width before (e.put value) (values ++ [value]) := by
  rw [RleEncoder.put, if_neg (by rw [h.holds.status]; simp)]
  split_ifs with hprev hsame
  · exact h.first hprev value Nat.one_pos
  · exact h.extend (by simpa using hprev) hsame.symm 1 (Nat.succ_pos _)
  · have hflag : e.hasPrev = true := by
      simpa using hprev
    obtain ⟨hclosed, hroom, hkept⟩ := h.holds.closeRun hvalues.front h.room
    refine ⟨?_, hroom, ?_, ?_⟩
    · exact hclosed.startRun value 1 e.closeRun.hasPrev
    · intro hfresh
      have hkept' : e.closeRun.hasPrev = false := hfresh
      rw [hkept, hflag] at hkept'
      cases hkept'
    · intro hnone
      cases hnone

/-- The last value put is the one that is counted. -/
theorem prevValue_put
    (hstatus : e.status = .ok) (value : BitVec 32) :
    (e.put value).prevValue = value := by
  rw [RleEncoder.put, if_neg (by rw [hstatus]; simp)]
  split_ifs with hprev hsame
  · rfl
  · exact hsame.symm
  · rfl

theorem Between.put_run
    (h : Between width before e values) (value : BitVec 32)
    (hvalues : RleEncodable width values) :
    (e.put value).hasPrev = true ∧ 0 < (e.put value).repeatCount := by
  rw [RleEncoder.put, if_neg (by rw [h.holds.status]; simp)]
  split_ifs with hprev hsame
  · exact ⟨rfl, Nat.one_pos⟩
  · exact ⟨by simpa using hprev, Nat.succ_pos _⟩
  · refine ⟨?_, Nat.one_pos⟩
    rw [← (h.holds.closeRun hvalues h.room).2.2] at hprev
    exact eq_true_of_ne_false hprev

/-- Equal values at once are put as if one by one. -/
theorem Between.putRepeat
    (h : Between width before e values) (value : BitVec 32) (count : ℤ)
    (hvalues : RleEncodable width (values ++ List.replicate count.toNat value)) :
    Between width before (e.putRepeat value count)
      (values ++ List.replicate count.toNat value) := by
  have hstatus := h.holds.status
  rw [RleEncoder.putRepeat]
  split_ifs with hnone hsame hprev
  · have hzero : count.toNat = 0 := by
      rcases hnone with hle | hfailed
      · omega
      · exact absurd hstatus hfailed
    simpa [hzero] using h
  · exact h.extend hsame.1 hsame.2.symm count.toNat (by omega)
  · -- The first of them closes the run before.
    have hcount : count.toNat = 1 + (count - 1).toNat := by
      omega
    rw [hcount, List.replicate_add, ← List.append_assoc] at hvalues ⊢
    have hput : Between width before (e.put value) (values ++ List.replicate 1 value) :=
      h.put value hvalues.front
    obtain ⟨hflag, hrun⟩ := h.put_run value hvalues.front.front
    rw [RleEncoder.extendRun, if_neg (by rw [hput.holds.status]; simp)]
    exact hput.extend hflag (prevValue_put hstatus value) (count - 1).toNat (by omega)
  · have hfresh : e.hasPrev = false := by
      simpa using hprev
    exact h.first hfresh value (by omega)

/-- After a flush everything is in the stream. -/
theorem Between.flush
    (h : Between width before e values)
    (hvalues : RleEncodable width values) :
    Between width before e.flush values ∧
      stream width e.flush.buffer = (before ++ values, .ok) := by
  have hdone : ∀ {e' : RleEncoder}, Holds width before e' 0 values → e'.bitpackBuffer = [] →
      e'.repeatCount = 0 →
      Between width before e' values ∧ stream width e'.buffer = (before ++ values, .ok) := by
    intro e' hholds hempty hnone
    refine ⟨⟨by rw [hnone]; exact hholds, by rw [hempty]; norm_num, fun _ => hnone,
      fun _ => hempty⟩, ?_⟩
    obtain ⟨front, hstream, heq⟩ := hholds.written
    rw [hempty] at heq
    simp only [List.replicate_zero, List.append_nil] at heq
    rw [heq, hstream]
  rw [RleEncoder.flush, if_neg (by rw [h.holds.status]; simp)]
  split_ifs with hlong hrun
  · obtain ⟨hwritten, hempty, hnone, -⟩ := h.holds.flushBoth hvalues
    exact hdone hwritten hempty hnone
  · obtain ⟨hmoved, -, hnone, -⟩ := h.holds.bufferRun hvalues h.room
    rw [RleEncoder.flushRest]
    split_ifs with hbuffered
    · obtain ⟨hflushed, hempty, hcount, -, -⟩ := hmoved.flushBitpack hvalues
      exact hdone hflushed hempty (hcount.trans hnone)
    · exact hdone hmoved (List.eq_nil_of_length_eq_zero (by omega)) hnone
  · have hnone : e.repeatCount = 0 := by
      omega
    have hholds := h.holds
    rw [hnone] at hholds
    exact hdone hholds (h.idle hnone) hnone

/-- Every call keeps the invariant. -/
theorem Between.apply
    (h : Between width before e values) (call : RlePut)
    (hvalues : RleEncodable width (values ++ call.values)) :
    Between width before (e.apply call) (values ++ call.values) := by
  cases call with
  | put value =>
      exact h.put value hvalues
  | putRepeat value count =>
      exact h.putRepeat value count hvalues
  | flush =>
      have hflushed := (h.flush hvalues.front).1
      simpa [RleEncoder.apply, RlePut.values] using hflushed

/-- So do any calls in a row. -/
theorem Between.applyAll
    (h : Between width before e values) (calls : List RlePut)
    (hvalues : RleEncodable width (values ++ calls.flatMap RlePut.values)) :
    Between width before (calls.foldl RleEncoder.apply e)
      (values ++ calls.flatMap RlePut.values) := by
  induction calls generalizing e values with
  | nil =>
      simpa using h
  | cons call rest ih =>
      rw [List.flatMap_cons, ← List.append_assoc] at hvalues ⊢
      exact ih (h.apply call hvalues.front) hvalues

theorem between_init
    {output : Bytes}
    (houtput : stream width output = (before, .ok)) :
    Between width before (init output width) [] where
  holds := ⟨rfl, rfl, ⟨[], by simpa [init] using houtput, rfl⟩, rfl, Nat.zero_le _⟩
  room := Nat.succ_pos 7
  fresh _ := rfl
  idle _ := rfl

/-- Calls on an output that holds a stream, and a flush, continue the stream by what was
put. -/
theorem stream_encoded
    {output : Bytes}
    (houtput : stream width output = (before, .ok)) (calls : List RlePut)
    (hvalues : RleEncodable width (calls.flatMap RlePut.values)) :
    stream width (calls.foldl RleEncoder.apply (init output width)).flush.buffer =
      (before ++ calls.flatMap RlePut.values, .ok) := by
  have hcalls := (between_init houtput).applyAll calls (by simpa using hvalues)
  rw [List.nil_append] at hcalls
  exact (hcalls.flush hvalues).2

end RleEncoder

theorem stream_rleEncodeAll
    {output : Bytes}
    (houtput : stream width output = (before, .ok))
    (hvalues : RleEncodable width values) :
    stream width (rleEncodeAll values width output) = (before ++ values, .ok) := by
  have hcalls : (values.map RlePut.put).flatMap RlePut.values = values := by
    induction values with
    | nil =>
        rfl
    | cons value rest ih =>
        rw [List.map_cons, List.flatMap_cons, ih hvalues.tail]
        rfl
  have hstream := RleEncoder.stream_encoded houtput (values.map RlePut.put)
    (by rw [hcalls]; exact hvalues)
  rw [hcalls, List.foldl_map] at hstream
  exact hstream

end Invariant

section RoundTrip

variable {width : Nat}

/-- A new decoder has the whole stream before it. -/
theorem remaining_init
    (hwidth : width ≤ 32) (data : Bytes) :
    (RleDecoder.init data width).remaining = stream width data ∧
      (RleDecoder.init data width).status = .ok := by
  have hrange : ¬ ((width : ℤ) < 0 ∨ 32 < (width : ℤ)) := by
    omega
  have hstatus : (RleDecoder.init data width).status = .ok := by
    rw [RleDecoder.init, if_neg hrange]
  refine ⟨?_, hstatus⟩
  rw [(init_sound data width).remaining_of_idle hstatus (by rw [RleDecoder.init, if_neg hrange]),
    RleDecoder.init, if_neg hrange]
  simp

/-- What some calls of the encoder and a flush leave in an empty output. -/
def encoded (width : Nat) (calls : List RlePut) : Bytes :=
  (calls.foldl RleEncoder.apply (RleEncoder.init [] width)).flush.buffer

/-- What is put is what is read. Whichever way values are handed to the encoder, with
flushes in between or not, and whichever way they are asked for afterwards, the decoder
gives the values that were put, in their order, and never fails. -/
theorem rle_encoder_round_trip
    (kernels : Kernels) (calls : List RlePut)
    (hvalues : RleEncodable width (calls.flatMap RlePut.values))
    (requests : List RleRequest)
    (hallowed : RleDecoder.Allowed kernels requests (.init (encoded width calls) width)) :
    let answers := (RleDecoder.init (encoded width calls) width).answers kernels requests
    answers.1 =
        (calls.flatMap RlePut.values).take (requests.map RleRequest.count).sum ∧
      answers.2.status = .ok := by
  have hstream : stream width (encoded width calls) = (calls.flatMap RlePut.values, .ok) :=
    RleEncoder.stream_encoded stream_nil calls hvalues
  obtain ⟨hremaining, hstatus⟩ := remaining_init hvalues.narrow (encoded width calls)
  have hleft : rleSupply.left (.init (encoded width calls) width) =
      (calls.flatMap RlePut.values, .ok) :=
    hremaining.trans hstream
  have htakes := (init_sound (encoded width calls) width).answers kernels hallowed
  refine ⟨?_, ?_⟩
  · rw [htakes.eq_take, hleft]
  · rw [← hstatus]
    exact htakes.status_eq (by rw [hleft]; exact hstatus.symm)

/-- A group, a run and a rest, in three ways of putting and two of asking. -/
theorem rle_encoder_round_trip_mixed :
    ∃ kernels : Kernels,
      let calls : List RlePut :=
        [.put 1, .put 2, .putRepeat 3 9, .flush, .put 0, .putRepeat 0 (-4), .put 3]
      let answers := (RleDecoder.init (encoded 2 calls) 2).answers kernels
        [.getBatch 4, .getBatch 100]
      answers.1 = [1, 2, 3, 3, 3, 3, 3, 3, 3, 3, 3, 0, 3] ∧ answers.2.status = .ok :=
  ⟨⟨fun _ => none, by rintro _ _ ⟨⟩⟩,
    rle_encoder_round_trip _ [.put 1, .put 2, .putRepeat 3 9, .flush, .put 0,
      .putRepeat 0 (-4), .put 3] ⟨by norm_num, by simp [RlePut.values], by simp [RlePut.values]⟩
      [.getBatch 4, .getBatch 100] ⟨by rintro ⟨⟩, by rintro ⟨⟩, trivial⟩⟩

end RoundTrip

end Encoding
end QioParquet
