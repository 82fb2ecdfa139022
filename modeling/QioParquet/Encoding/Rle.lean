import QioParquet.Encoding.Bitpack
import Mathlib.Tactic

/-!
# The RLE decoder

The hybrid of run lengths and packed bits that levels and dictionary indices are
stored in. The stream is a row of runs. A run starts with a header, a number of at most
five bytes: an even one announces a value to be repeated, an odd one a number of groups
of eight packed values.

Values are asked for one by one (`carquet_rle_decoder_get`) or in batches
(`carquet_rle_decoder_get_batch`). A batch unpacks whole groups straight into the
caller's array; a group of which only a part is wanted goes through a buffer of eight
values that the decoder keeps between calls.
-/

namespace QioParquet
namespace Encoding

open Lib Read

section State

inductive RleStatus where
  | ok
  | invalidRle
deriving DecidableEq

/-- `carquet_rle_decoder_t`. The size is the length of the data. -/
structure RleDecoder where
  data : Bytes
  pos : Nat
  bitWidth : Nat
  valueMask : BitVec 32
  inRleRun : Bool
  runRemaining : Nat
  rleValue : BitVec 32
  bitpackBuffer : List (BitVec 32)
  bitpackPos : Nat
  bitpackCount : Nat
  status : RleStatus

namespace RleDecoder

/-- `carquet_rle_decoder_init`. -/
def init (data : Bytes) (bitWidth : ℤ) : RleDecoder :=
  let cleared : RleDecoder :=
    ⟨data, 0, 0, 0, false, 0, 0, List.replicate 8 0, 0, 0, .ok⟩
  if bitWidth < 0 ∨ 32 < bitWidth then
    { cleared with status := .invalidRle }
  else
    { cleared with
      bitWidth := bitWidth.toNat
      valueMask :=
        if 32 ≤ bitWidth then BitVec.allOnes 32 else (1 <<< bitWidth.toNat) - 1 }

/-- `carquet_rle_decoder_has_next`. -/
def hasNext (d : RleDecoder) : Bool :=
  d.status = .ok ∧ (0 < d.runRemaining ∨ d.pos < d.data.length)

end RleDecoder

end State

section Runs

/-- The loop of `read_varint`: the number, and the bytes it took. -/
def varintLoop : Bytes → Nat → BitVec 32 → Nat → Option (BitVec 32 × Nat)
  | [], _, _, _ => none
  | byte :: rest, shift, result, used =>
      if shift < 32 then
        let result := result ||| (byte &&& 0x7F).toBitVec.setWidth 32 <<< shift
        if byte &&& 0x80 = 0 then some (result, used + 1)
        else varintLoop rest (shift + 7) result (used + 1)
      else
        none

/-- `read_varint`: the number, and the position after it. -/
def readVarint (data : Bytes) (pos : Nat) : Option (BitVec 32 × Nat) :=
  (varintLoop (data.drop pos) 0 0 0).map fun read => (read.1, pos + read.2)

/-- `rle_value |= (uint32_t)data[pos++] << (i * 8)` over the bytes of a value. -/
def loadValue : Bytes → Nat → BitVec 32 → BitVec 32
  | [], _, value => value
  | byte :: rest, i, value =>
      loadValue rest (i + 1) (value ||| byte.toBitVec.setWidth 32 <<< (i * 8))

namespace RleDecoder

/-- The value of an RLE run that is not empty. -/
def readRunValue (d : RleDecoder) : Bool × RleDecoder :=
  let valueBytes := (d.bitWidth + 7) / 8
  if d.data.length < d.pos + valueBytes then
    (false, { d with status := .invalidRle })
  else
    (true, { d with
      pos := d.pos + valueBytes
      rleValue := loadValue ((d.data.drop d.pos).take valueBytes) 0 0 &&& d.valueMask })

/-- The recursion of `start_new_run`: an empty run is skipped. Each turn takes a byte,
so the bytes left are turns enough. -/
def startRun : Nat → RleDecoder → Bool × RleDecoder
  | 0, d => (false, d)
  | turns + 1, d =>
      if d.data.length ≤ d.pos then
        (false, d)
      else
        match readVarint d.data d.pos with
        | none => (false, { d with status := .invalidRle })
        | some (header, pos) =>
            if header &&& 1 = 0 then
              let run := { d with
                pos := pos
                inRleRun := true
                runRemaining := (header >>> 1).toNat }
              if run.runRemaining = 0 then startRun turns run else readRunValue run
            else
              let run := { d with
                pos := pos
                inRleRun := false
                runRemaining := (header >>> 1).toNat * 8 }
              if run.runRemaining = 0 then startRun turns run
              else (true, { run with bitpackPos := 0, bitpackCount := 0 })

/-- `start_new_run`. -/
def startNewRun (d : RleDecoder) : Bool × RleDecoder :=
  startRun (d.data.length - d.pos) d

/-- A new run, when the last one is used up. -/
def ensureRun (d : RleDecoder) : Bool × RleDecoder :=
  if d.runRemaining = 0 then startNewRun d else (true, d)

end RleDecoder

end Runs

section Groups

/-- Eight values from bytes that are there (`unpackGroup_eq`). -/
def unpackGroup (kernels : Kernels) (width : Nat) (input : Bytes) : List (BitVec 32) :=
  (bitunpack8 kernels width input).getD []

/-- The same with the kernel a batch has looked up for a width that is not zero. -/
def unpackDirect (kernels : Kernels) (width : Nat) (input : Bytes) : List (BitVec 32) :=
  match if 0 < width then kernels.find width else none with
  | some kernel => (kernel input).getD []
  | none => unpackGroup kernels width input

namespace RleDecoder

/-- `fill_bitpack_buffer`. -/
def fillBitpackBuffer (kernels : Kernels) (d : RleDecoder) : Bool × RleDecoder :=
  if d.runRemaining = 0 then
    (false, d)
  else if d.data.length < d.pos + d.bitWidth then
    (false, { d with status := .invalidRle })
  else
    (true, { d with
      bitpackBuffer := unpackGroup kernels d.bitWidth (d.data.drop d.pos)
      pos := d.pos + d.bitWidth
      bitpackPos := 0
      bitpackCount := 8 })

/-- A new group, when the last one is used up. -/
def ensureStaged (kernels : Kernels) (d : RleDecoder) : Bool × RleDecoder :=
  if d.bitpackCount ≤ d.bitpackPos then fillBitpackBuffer kernels d else (true, d)

/-- One value of the run that has been started. -/
def takeValue (kernels : Kernels) (d : RleDecoder) : BitVec 32 × RleDecoder :=
  if d.inRleRun then
    (d.rleValue, { d with runRemaining := d.runRemaining - 1 })
  else
    let staged := ensureStaged kernels d
    if staged.1 then
      (staged.2.bitpackBuffer.getD staged.2.bitpackPos 0, { staged.2 with
        runRemaining := staged.2.runRemaining - 1
        bitpackPos := staged.2.bitpackPos + 1 })
    else
      (0, staged.2)

/-- `carquet_rle_decoder_get`. -/
def get (kernels : Kernels) (d : RleDecoder) : BitVec 32 × RleDecoder :=
  if d.status ≠ .ok then
    (0, d)
  else
    let started := ensureRun d
    if started.1 then takeValue kernels started.2 else (0, started.2)

end RleDecoder

end Groups

section Batches

namespace RleDecoder

/-- The wanted values out of an RLE run. -/
def repeatValue (wanted : Nat) (d : RleDecoder) : List (BitVec 32) × RleDecoder :=
  let toFill := min wanted d.runRemaining
  (List.replicate toFill d.rleValue, { d with runRemaining := d.runRemaining - toFill })

/-- The loop that empties the buffer. -/
def drain : Nat → RleDecoder → List (BitVec 32) × RleDecoder
  | 0, d => ([], d)
  | wanted + 1, d =>
      if d.bitpackPos < d.bitpackCount ∧ 0 < d.runRemaining then
        let rest := drain wanted { d with
          bitpackPos := d.bitpackPos + 1
          runRemaining := d.runRemaining - 1 }
        (d.bitpackBuffer.getD d.bitpackPos 0 :: rest.1, rest.2)
      else
        ([], d)

/-- The loop over the groups that are wanted whole. -/
def wholeGroups (kernels : Kernels) : Nat → RleDecoder → List (BitVec 32) × RleDecoder
  | 0, d => ([], d)
  | groups + 1, d =>
      if 8 ≤ d.runRemaining then
        if d.data.length < d.pos + d.bitWidth then
          ([], { d with status := .invalidRle })
        else
          let rest := wholeGroups kernels groups { d with
            pos := d.pos + d.bitWidth
            runRemaining := d.runRemaining - 8 }
          (unpackDirect kernels d.bitWidth (d.data.drop d.pos) ++ rest.1, rest.2)
      else
        ([], d)

/-- The loop through the buffer. A turn gives a value or ends the loop, so there are no
more turns than wanted values. -/
def stagedValues (kernels : Kernels) :
    Nat → Nat → RleDecoder → List (BitVec 32) × RleDecoder
  | 0, _, d => ([], d)
  | turns + 1, wanted, d =>
      if 0 < wanted ∧ 0 < d.runRemaining then
        let staged := ensureStaged kernels d
        if staged.1 then
          let drained := drain wanted staged.2
          let rest := stagedValues kernels turns (wanted - drained.1.length) drained.2
          (drained.1 ++ rest.1, rest.2)
        else
          ([], staged.2)
      else
        ([], d)

/-- The wanted values out of a bit-packed run: what is in the buffer, whole groups, and
the rest through the buffer. -/
def unpackValues (kernels : Kernels) (wanted : Nat) (d : RleDecoder) :
    List (BitVec 32) × RleDecoder :=
  let drained := drain wanted d
  let wanted := wanted - drained.1.length
  let direct := wholeGroups kernels (wanted / 8) drained.2
  let wanted := wanted - direct.1.length
  let staged := stagedValues kernels wanted wanted direct.2
  (drained.1 ++ (direct.1 ++ staged.1), staged.2)

/-- The wanted values out of the run that has been started. -/
def takeFromRun (kernels : Kernels) (wanted : Nat) (d : RleDecoder) :
    List (BitVec 32) × RleDecoder :=
  if d.inRleRun then repeatValue wanted d else unpackValues kernels wanted d

/-- The loop over the runs. A turn gives a value or ends the loop. -/
def batchLoop (kernels : Kernels) :
    Nat → Nat → RleDecoder → List (BitVec 32) × RleDecoder
  | 0, _, d => ([], d)
  | turns + 1, wanted, d =>
      if 0 < wanted ∧ d.hasNext then
        let started := ensureRun d
        if started.1 then
          let part := takeFromRun kernels wanted started.2
          let rest := batchLoop kernels turns (wanted - part.1.length) part.2
          (part.1 ++ rest.1, rest.2)
        else
          ([], started.2)
      else
        ([], d)

/-- `carquet_rle_decoder_get_batch`: the values written, and the decoder after it. -/
def getBatch (kernels : Kernels) (count : Nat) (d : RleDecoder) :
    List (BitVec 32) × RleDecoder :=
  batchLoop kernels count count d

end RleDecoder

end Batches

section Requests

/-- A call for values. -/
inductive RleRequest where
  | get
  | getBatch (count : Nat)
deriving DecidableEq

/-- The values a call asks for. -/
def RleRequest.count : RleRequest → Nat
  | .get => 1
  | .getBatch count => count

/-- The values of a call. A single value is always returned. -/
def RleDecoder.answer (kernels : Kernels) (d : RleDecoder) :
    RleRequest → List (BitVec 32) × RleDecoder
  | .get => ([(d.get kernels).1], (d.get kernels).2)
  | .getBatch count => d.getBatch kernels count

/-- The values of successive calls. -/
def RleDecoder.answers (kernels : Kernels) :
    List RleRequest → RleDecoder → List (BitVec 32) × RleDecoder
  | [], d => ([], d)
  | request :: rest, d =>
      let first := d.answer kernels request
      let others := answers kernels rest first.2
      (first.1 ++ others.1, others.2)

end Requests

end Encoding
end QioParquet
