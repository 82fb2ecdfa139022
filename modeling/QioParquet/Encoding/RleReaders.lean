import QioParquet.Encoding.RleEncoder
import Mathlib.Tactic

/-!
# Other ways through an RLE stream

`carquet_rle_decoder_skip` goes over values without giving them out. A value of a repeated
run costs nothing; packed groups still have to be unpacked into the buffer.

`carquet_rle_decode_levels` is what pages are read with. It keeps no decoder: the headers
are read in place, a bit-packed run that is there as a whole and is wanted as a whole goes
through the wide unpacker, and any other one goes group by group. Where the decoder of the
whole module reports a broken stream, this one goes on with whatever comes next; as long
as the decoder does not fail, both give the same values.
-/

namespace QioParquet
namespace Encoding

open Lib Read

section Skipping

namespace RleDecoder

/-- The loop over the groups of a bit-packed run. A turn skips a value or ends the
loop. -/
def skipStaged (kernels : Kernels) : Nat → Nat → RleDecoder → Nat × RleDecoder
  | 0, _, d => (0, d)
  | turns + 1, toSkip, d =>
      if 0 < toSkip ∧ 0 < d.runRemaining then
        let staged := ensureStaged kernels d
        if staged.1 then
          let canSkip := min (min (staged.2.bitpackCount - staged.2.bitpackPos) toSkip)
            staged.2.runRemaining
          let rest := skipStaged kernels turns (toSkip - canSkip) { staged.2 with
            bitpackPos := staged.2.bitpackPos + canSkip
            runRemaining := staged.2.runRemaining - canSkip }
          (canSkip + rest.1, rest.2)
        else
          (0, staged.2)
      else
        (0, d)

/-- Values of the run that has been started. -/
def skipFromRun (kernels : Kernels) (toSkip : Nat) (d : RleDecoder) : Nat × RleDecoder :=
  if d.inRleRun then
    (toSkip, { d with runRemaining := d.runRemaining - toSkip })
  else
    skipStaged kernels toSkip toSkip d

/-- The loop over the runs. -/
def skipLoop (kernels : Kernels) : Nat → Nat → RleDecoder → Nat × RleDecoder
  | 0, _, d => (0, d)
  | turns + 1, wanted, d =>
      if 0 < wanted ∧ d.hasNext then
        let started := ensureRun d
        if started.1 then
          let part := skipFromRun kernels (min wanted started.2.runRemaining) started.2
          let rest := skipLoop kernels turns (wanted - part.1) part.2
          (part.1 + rest.1, rest.2)
        else
          (0, started.2)
      else
        (0, d)

/-- `carquet_rle_decoder_skip`: the number of values skipped. -/
def skip (kernels : Kernels) (count : ℤ) (d : RleDecoder) : Nat × RleDecoder :=
  skipLoop kernels count.toNat count.toNat d

variable {d : RleDecoder} {wanted : Nat}

/-- Skipping moves the buffer as giving out does. -/
theorem Sound.skipStaged_eq
    (kernels : Kernels) {turns : Nat}
    (hd : d.Sound) (hstatus : d.status = .ok) (hkind : d.inRleRun = false) :
    skipStaged kernels turns wanted d =
      ((stagedValues kernels turns wanted d).1.length,
        (stagedValues kernels turns wanted d).2) := by
  induction turns generalizing wanted d with
  | zero =>
      rfl
  | succ turns ih =>
      rw [skipStaged, stagedValues]
      dsimp only
      split_ifs with hmore hstaged
      · have hready := hd.ensureStaged kernels hstatus hkind hmore.2
        obtain ⟨hgives, -, hkind', -⟩ := hready.gives hstaged
        have hstatus' := hgives.status.trans hstatus
        have hpacked := hready.sound.packed hkind'
        have hlength := length_pending hready.sound.staged
        have hdrain := hready.sound.drain hstatus' hkind' wanted
        have heq := drain_eq wanted hready.sound.staged (by omega)
        generalize RleDecoder.ensureStaged kernels d = staged at *
        have hcan : min (min (staged.2.bitpackCount - staged.2.bitpackPos) wanted)
            staged.2.runRemaining = min wanted staged.2.pending.length := by
          omega
        have hlength' : (RleDecoder.drain wanted staged.2).1.length =
            min wanted staged.2.pending.length := by
          rw [heq, List.length_take]
        have hadvance : (RleDecoder.drain wanted staged.2).2 =
            staged.2.advance (min wanted staged.2.pending.length) := by
          rw [heq]
        have hrest := fun left => @ih _ left hdrain.sound
          (hdrain.status.trans hstatus') (hdrain.kind.trans hkind')
        rw [hadvance] at hrest
        rw [hcan, List.length_append, hlength', hadvance]
        change (_ + (skipStaged kernels turns _ (staged.2.advance _)).1,
          (skipStaged kernels turns _ (staged.2.advance _)).2) = _
        rw [hrest]
      · rfl
      · rfl

/-- No more is wanted from a run than it has. -/
theorem Serves.of_min
    {result : List (BitVec 32) × RleDecoder}
    (h : Serves (min wanted d.runRemaining) d result) :
    Serves wanted d result := by
  rcases h with ⟨hpart, hle, hdone⟩ | ⟨hpart, hsound, hfailed, hlt⟩
  · have hrun := hpart.run
    exact .inl ⟨hpart, by omega, by omega⟩
  · exact .inr ⟨hpart, hsound, hfailed, by omega⟩

theorem Sound.skipFromRun
    (kernels : Kernels)
    (hd : d.Sound) (hstatus : d.status = .ok) (wanted : Nat) :
    ∃ values, Serves wanted d
        (values, (skipFromRun kernels (min wanted d.runRemaining) d).2) ∧
      values.length = (RleDecoder.skipFromRun kernels (min wanted d.runRemaining) d).1 := by
  rw [RleDecoder.skipFromRun]
  split_ifs with hkind
  · exact ⟨_, hd.serves_repeated hstatus hkind wanted, List.length_replicate⟩
  · have hpacked : d.inRleRun = false := by
      simpa using hkind
    rw [hd.skipStaged_eq kernels hstatus hpacked]
    exact ⟨_, (hd.serves_staged kernels hstatus hpacked le_rfl).of_min, rfl⟩

theorem skipLoop_failed
    (kernels : Kernels) (turns wanted : Nat)
    (hstatus : d.status = .invalidRle) :
    skipLoop kernels turns wanted d = (0, d) := by
  cases turns with
  | zero =>
      rfl
  | succ turns =>
      rw [skipLoop, if_neg]
      simp [hasNext, hstatus]

/-- The values skipped are those a batch would give. -/
theorem Sound.skipLoop
    (kernels : Kernels) {turns : Nat}
    (hd : d.Sound) (hturns : wanted ≤ turns) :
    (∃ values, rleSupply.Takes wanted d values (skipLoop kernels turns wanted d).2 ∧
        values.length = (RleDecoder.skipLoop kernels turns wanted d).1) ∧
      (RleDecoder.skipLoop kernels turns wanted d).2.Sound := by
  induction turns generalizing wanted d with
  | zero =>
      obtain rfl : wanted = 0 := by
        omega
      exact ⟨⟨[], .inl ⟨.refl d, rfl⟩, rfl⟩, hd⟩
  | succ turns ih =>
      rw [RleDecoder.skipLoop]
      dsimp only
      split_ifs with hmore hstarted
      · have hstatus := status_of_hasNext hmore.2
        have hready := hd.ensureRun hstatus
        obtain ⟨hgives, hrun⟩ := hready.gives hstarted
        obtain ⟨values, hserves, hlength⟩ :=
          hready.sound.skipFromRun kernels (hgives.status.trans hstatus) wanted
        generalize RleDecoder.skipFromRun kernels _ d.ensureRun.2 = part at hserves hlength ⊢
        rw [← hlength]
        rcases hserves with ⟨hpart, hle, hdone⟩ | ⟨hpart, hsound, hfailed, hlt⟩
        · have hprogress := hpart.run
          simp only at hle hdone hprogress
          obtain ⟨⟨others, hrest, hothers⟩, hsound⟩ := ih hpart.sound
            (show wanted - values.length ≤ turns by omega)
          have hfirst : rleSupply.Takes values.length d values part.2 :=
            .inl ⟨hgives.trans hpart.gives, rfl⟩
          have hboth := hfirst.add hrest
          rw [Nat.add_sub_cancel' hle] at hboth
          exact ⟨⟨_, hboth, by rw [List.length_append, hothers]⟩, hsound⟩
        · rw [skipLoop_failed kernels _ _ hfailed]
          exact ⟨⟨values, .inr ⟨hgives.exhausts hpart, hlt⟩, rfl⟩, hsound⟩
      · have hstatus := status_of_hasNext hmore.2
        have hready := hd.ensureRun hstatus
        exact ⟨⟨[], .inr ⟨hready.exhausts (by simpa using hstarted), hmore.1⟩, rfl⟩,
          hready.sound⟩
      · refine ⟨?_, hd⟩
        rcases Nat.eq_zero_or_pos wanted with rfl | hpos
        · exact ⟨[], .inl ⟨.refl d, rfl⟩, rfl⟩
        · have hnext : d.hasNext = false := by
            simpa [hpos] using hmore
          exact ⟨[], .inr ⟨(hd.spent hnext).exhausts, hpos⟩, rfl⟩

/-- The decoders that calls of all three kinds lead to, single values being asked for only
while there is one. -/
inductive Reached (kernels : Kernels) (data : Bytes) (bitWidth : ℤ) : RleDecoder → Prop where
  | init : Reached kernels data bitWidth (RleDecoder.init data bitWidth)
  | answer {d : RleDecoder} {request : RleRequest}
      (hreached : Reached kernels data bitWidth d)
      (hget : request = .get → d.remaining.1 ≠ []) :
      Reached kernels data bitWidth (d.answer kernels request).2
  | skip {d : RleDecoder} {count : ℤ}
      (hreached : Reached kernels data bitWidth d) :
      Reached kernels data bitWidth (d.skip kernels count).2

theorem Reached.sound
    {kernels : Kernels} {data : Bytes} {bitWidth : ℤ}
    (h : Reached kernels data bitWidth d) :
    d.Sound := by
  induction h with
  | init =>
      exact init_sound data bitWidth
  | answer _ hget ih =>
      exact (ih.answer kernels hget).2
  | skip _ ih =>
      exact (ih.skipLoop kernels le_rfl).2

end RleDecoder

/-- Skipping is reading and throwing away: in any state that reading and skipping can lead
to, on any bytes, as many values are skipped as a batch would give, and what is left and
the status are the same. -/
theorem rle_skip_is_discarded_batch
    (kernels : Kernels) {data : Bytes} {bitWidth : ℤ} {d : RleDecoder}
    (hreached : RleDecoder.Reached kernels data bitWidth d) (count : ℤ) :
    (d.skip kernels count).1 = (d.getBatch kernels count.toNat).1.length ∧
      (d.skip kernels count).2.remaining = (d.getBatch kernels count.toNat).2.remaining ∧
      (d.skip kernels count).2.status = (d.getBatch kernels count.toNat).2.status := by
  obtain ⟨⟨values, hskipped, hlength⟩, -⟩ := hreached.sound.skipLoop kernels le_rfl
  have hbatch := (hreached.sound.getBatch kernels count.toNat).1
  obtain ⟨rfl, hleft, hstatus⟩ := hskipped.unique hbatch
  exact ⟨hlength.symm, hleft, hstatus⟩

/-- From the middle of a group, over the rest of it and into a run. -/
theorem rle_skip_is_discarded_batch_mixed :
    ∃ (kernels : Kernels) (d : RleDecoder),
      d = ((RleDecoder.init mixedRuns 1).skip kernels 5).2 ∧
        (d.skip kernels 4).1 = (d.getBatch kernels 4).1.length ∧
        (d.getBatch kernels 4).1 = [1, 0, 1, 1] := by
  refine ⟨⟨fun _ => none, by rintro _ _ ⟨⟩⟩, _, rfl, ?_, ?_⟩
  · exact (rle_skip_is_discarded_batch _ (.skip (@RleDecoder.Reached.init _ mixedRuns 1)) 4).1
  · decide +kernel

end Skipping

section LevelDecoder

/-- A header read in place. It ends with the bytes, or after five of them, whether or not
it was whole. -/
def levelHeader : Bytes → Nat → BitVec 32 → Nat → BitVec 32 × Nat
  | [], _, header, used => (header, used)
  | byte :: rest, shift, header, used =>
      if shift < 32 then
        let header := header ||| (byte &&& 0x7F).toBitVec.setWidth 32 <<< shift
        if byte &&& 0x80 = 0 then (header, used + 1)
        else levelHeader rest (shift + 7) header (used + 1)
      else
        (header, used)

/-- `bit_width >= 32 ? ~0U : (1U << bit_width) - 1`. -/
def levelMask (width : Nat) : BitVec 32 :=
  if 32 ≤ width then BitVec.allOnes 32 else (1 <<< width) - 1

/-- A bit-packed run in pieces of 256 values: the values, and the bytes used. -/
def bulkGroups (kernels : Kernels) (wide : WideKernels) (width : Nat) (runLength : Nat)
    (input : Bytes) : List (BitVec 32) × Nat :=
  if _h : 0 < runLength then
    let chunk := min runLength 256
    let part := bitunpack32 kernels wide width chunk input
    let rest := bulkGroups kernels wide width (runLength - chunk) (input.drop part.2)
    (part.1 ++ rest.1, part.2 + rest.2)
  else
    ([], 0)
termination_by runLength

/-- A bit-packed run group by group, as long as there are groups and room. -/
def eachGroup (kernels : Kernels) (width : Nat) : Nat → Nat → Bytes → List (BitVec 32) × Nat
  | 0, _, _ => ([], 0)
  | groups + 1, wanted, input =>
      if 0 < wanted then
        if input.length < width then
          ([], 0)
        else
          let toStore := min 8 wanted
          let rest := eachGroup kernels width groups (wanted - toStore) (input.drop width)
          ((unpackGroup kernels width input).take toStore ++ rest.1, width + rest.2)
      else
        ([], 0)

/-- The loop over the runs. A turn takes a byte. -/
def levelsLoop (kernels : Kernels) (wide : WideKernels) (width : Nat) :
    Nat → Nat → Bytes → List (BitVec 32)
  | 0, _, _ => []
  | turns + 1, wanted, input =>
      if 0 < wanted ∧ input ≠ [] then
        let header := (levelHeader input 0 0 0).1
        let body := input.drop (levelHeader input 0 0 0).2
        let run := (header >>> 1).toNat
        let valueBytes := (width + 7) / 8
        if header &&& 1 = 0 then
          if run = 0 then
            levelsLoop kernels wide width turns wanted body
          else if body.length < valueBytes then
            []
          else
            let toFill := min run wanted
            List.replicate toFill (loadValue (body.take valueBytes) 0 0 &&& levelMask width) ++
              levelsLoop kernels wide width turns (wanted - toFill) (body.drop valueBytes)
        else if run = 0 then
          levelsLoop kernels wide width turns wanted body
        else if 1 ≤ width ∧ run ≤ body.length / width ∧ run * 8 ≤ wanted then
          let bulk := bulkGroups kernels wide width (run * 8) body
          bulk.1 ++ levelsLoop kernels wide width turns (wanted - run * 8) (body.drop bulk.2)
        else
          let each := eachGroup kernels width run wanted body
          each.1 ++
            levelsLoop kernels wide width turns (wanted - each.1.length) (body.drop each.2)
      else
        []

/-- `carquet_rle_decode_levels`: the levels written. -/
def rleDecodeLevels (kernels : Kernels) (wide : WideKernels) (input : Bytes) (bitWidth : ℤ)
    (maxValues : ℤ) : List (BitVec 16) :=
  if maxValues ≤ 0 ∨ input.length = 0 ∨ bitWidth < 0 ∨ 32 < bitWidth then
    []
  else
    (levelsLoop kernels wide bitWidth.toNat input.length maxValues.toNat input).map
      (BitVec.setWidth 16)

end LevelDecoder

section LevelLaws

variable {width wanted : Nat}

/-- A header that is whole is the one the decoder reads. -/
theorem levelHeader_eq
    {bytes : Bytes} {shift used : Nat} {held : BitVec 32} {read : BitVec 32 × Nat}
    (h : varintLoop bytes shift held used = some read) :
    levelHeader bytes shift held used = read := by
  induction bytes generalizing shift held used with
  | nil =>
      cases h
  | cons byte rest ih =>
      simp only [varintLoop, levelHeader] at h ⊢
      split_ifs at h ⊢ with hshift hlast
      · exact Option.some.inj h
      · exact ih h

theorem levelValue_eq
    (hwidth : width ≤ 32) (body : Bytes) :
    loadValue (body.take ((width + 7) / 8)) 0 0 &&& levelMask width = runValue width body := by
  have hrange : ¬ ((width : ℤ) < 0 ∨ 32 < (width : ℤ)) := by
    omega
  have hload := (init_sound [] width).loadValue_eq body
  rw [RleDecoder.init, if_neg hrange] at hload
  simpa [levelMask] using hload

/-- Pieces of 256 values end with a group. -/
theorem bulkGroups_eq
    (kernels : Kernels) (wide : WideKernels)
    (hwidth : width ≤ 32)
    {groups : Nat} {input : Bytes}
    (hinput : groups * width ≤ input.length) :
    bulkGroups kernels wide width (groups * 8) input =
      (bitFields width (8 * groups) input, groups * width) := by
  induction groups using Nat.strong_induction_on generalizing input with
  | _ groups ih =>
      rw [bulkGroups]
      split_ifs with hsome
      · obtain ⟨first, hfirst⟩ : ∃ first, first = min groups 32 := ⟨_, rfl⟩
        have hchunk : min (groups * 8) 256 = 8 * first := by
          omega
        have hrest : groups * 8 - 8 * first = (groups - first) * 8 := by
          omega
        have hgroups : groups * width = first * width + (groups - first) * width := by
          rw [← Nat.add_mul]
          congr 1
          omega
        have hsize : packedSize (8 * first) width = first * width := by
          rw [packedSize, show 8 * first * width = first * width * 8 by ring]
          omega
        have hpart := bitunpack32_eq kernels wide hwidth
          (show packedSize (8 * first) width ≤ input.length by rw [hsize]; omega)
        dsimp only
        rw [hchunk, hpart, hsize, hrest]
        dsimp only
        rw [ih (groups - first) (by omega) (by rw [List.length_drop]; omega), ← hgroups,
          ← bitFields_groups_add]
        congr 2
        omega
      · obtain rfl : groups = 0 := by
          omega
        simp [bitFields]

theorem length_packedValues
    {groups : Nat} {bytes rest : Bytes}
    (h : (packedValues width groups bytes).2 = some rest) :
    (packedValues width groups bytes).1.length = 8 * groups ∧
      groups * width ≤ bytes.length ∧ rest = bytes.drop (groups * width) := by
  induction groups generalizing bytes with
  | zero =>
      cases h
      simp [packedValues]
  | succ groups ih =>
      simp only [packedValues] at h ⊢
      split_ifs at h with hshort
      obtain ⟨hlength, hle, heq⟩ := ih h
      rw [List.length_drop] at hle
      have hnext : (groups + 1) * width = width + groups * width := by
        ring
      rw [if_neg hshort, List.length_append, length_fields, hlength, heq, List.drop_drop, hnext]
      exact ⟨by ring, by omega, rfl⟩

/-- Groups that are all there are fields in a row. -/
theorem packedValues_eq_bitFields
    {groups : Nat} {bytes : Bytes}
    (hbytes : groups * width ≤ bytes.length) :
    packedValues width groups bytes =
      (bitFields width (8 * groups) bytes, some (bytes.drop (groups * width))) := by
  induction groups generalizing bytes with
  | zero =>
      simp [packedValues, bitFields]
  | succ groups ih =>
      rw [Nat.succ_mul] at hbytes
      have hcount : 8 * (groups + 1) = 8 * 1 + 8 * groups := by
        ring
      rw [packedValues, if_neg (by omega)]
      dsimp only
      have hnext : (groups + 1) * width = width + groups * width := by
        ring
      rw [ih (by rw [List.length_drop]; omega), hcount, bitFields_groups_add, List.drop_drop,
        hnext, Nat.one_mul]
      simp [bitFields_eight]

/-- Group by group, the wanted values of a run come out, and the place after it if it was
wanted whole. -/
theorem eachGroup_eq
    (kernels : Kernels)
    (hwidth : width ≤ 32)
    {groups : Nat} {input : Bytes}
    (henough : wanted ≤ (packedValues width groups input).1.length ∨
      (packedValues width groups input).2.isSome) :
    (eachGroup kernels width groups wanted input).1 =
        (packedValues width groups input).1.take wanted ∧
      (8 * groups ≤ wanted →
        (eachGroup kernels width groups wanted input).2 = groups * width) := by
  induction groups generalizing wanted input with
  | zero =>
      simp [eachGroup, packedValues]
  | succ groups ih =>
      rw [eachGroup, packedValues]
      rw [packedValues] at henough
      split_ifs at henough ⊢ with hwanted hshort
      · simp at henough
        omega
      · dsimp only at henough ⊢
        have hlength : (fields width input).length = 8 := length_fields width input
        rw [List.length_append, hlength] at henough
        obtain ⟨hvalues, hused⟩ := @ih (wanted - min 8 wanted) (input.drop width)
          (henough.imp_left (by omega))
        rw [hvalues, RleDecoder.unpackGroup_eq kernels hwidth (by omega)]
        refine ⟨?_, ?_⟩
        · rw [List.take_append, hlength]
          rcases Nat.le_total 8 wanted with hle | hle
          · have hall : (fields width input).take wanted = fields width input :=
              List.take_of_length_le (by omega)
            rw [Nat.min_eq_left hle, List.take_of_length_le hlength.le, hall]
          · rw [Nat.min_eq_right hle, Nat.sub_self, Nat.sub_eq_zero_of_le hle]
        · intro hall
          rw [hused (by omega), Nat.succ_mul, Nat.add_comm]
      · exact ⟨by simp_all, by omega⟩
      · obtain rfl : wanted = 0 := by
          omega
        exact ⟨by simp, by omega⟩

/-- There are as many values as are wanted, or the stream ends well. -/
def Enough (wanted : Nat) (left : List (BitVec 32) × RleStatus) : Prop :=
  wanted ≤ left.1.length ∨ left.2 = .ok

theorem Enough.rest
    {values : List (BitVec 32)} {left : List (BitVec 32) × RleStatus}
    (h : Enough wanted (prepend values left)) :
    Enough (wanted - values.length) left := by
  refine h.imp_left fun hle => ?_
  simp only [prepend, List.length_append] at hle
  omega

@[simp]
theorem levelsLoop_zero
    (kernels : Kernels) (wide : WideKernels) (turns : Nat) (input : Bytes) :
    levelsLoop kernels wide width turns 0 input = [] := by
  cases turns with
  | zero =>
      rfl
  | succ turns =>
      rw [levelsLoop, if_neg (by simp)]

/-- Some values of a run, and the loop goes on where the stream does. -/
theorem take_prepend
    (values : List (BitVec 32)) (left : List (BitVec 32) × RleStatus) :
    (prepend values left).1.take wanted =
      values.take wanted ++ left.1.take (wanted - values.length) :=
  List.take_append

/-- One bit-packed run and what follows it. -/
theorem levelsLoop_packed
    (kernels : Kernels) (wide : WideKernels)
    (hwidth : width ≤ 32)
    {turns groups : Nat} {body : Bytes}
    (hrest : ∀ {wanted used : Nat}, Enough wanted (stream width (body.drop used)) →
      levelsLoop kernels wide width turns wanted (body.drop used) =
        (stream width (body.drop used)).1.take wanted)
    (henough : Enough wanted (groupsThenStream width groups body)) :
    (if 1 ≤ width ∧ groups ≤ body.length / width ∧ groups * 8 ≤ wanted then
        (bulkGroups kernels wide width (groups * 8) body).1 ++
          levelsLoop kernels wide width turns (wanted - groups * 8)
            (body.drop (bulkGroups kernels wide width (groups * 8) body).2)
      else
        (eachGroup kernels width groups wanted body).1 ++
          levelsLoop kernels wide width turns
            (wanted - (eachGroup kernels width groups wanted body).1.length)
            (body.drop (eachGroup kernels width groups wanted body).2)) =
      (groupsThenStream width groups body).1.take wanted := by
  split_ifs with hbulk
  · obtain ⟨hpos, hgroups, hroom⟩ := hbulk
    have hbody : groups * width ≤ body.length :=
      (Nat.le_div_iff_mul_le hpos).mp hgroups
    have hall := packedValues_eq_bitFields hbody
    have hlength := length_bitFields width (8 * groups) body
    rw [groupsThenStream, hall] at henough ⊢
    dsimp only at henough ⊢
    have hleft := henough.rest
    rw [hlength, Nat.mul_comm] at hleft
    have htake : (bitFields width (8 * groups) body).take wanted =
        bitFields width (8 * groups) body :=
      List.take_of_length_le (by omega)
    rw [bulkGroups_eq kernels wide hwidth hbody, hrest hleft, take_prepend, htake, hlength,
      Nat.mul_comm 8]
  · have hpacked : wanted ≤ (packedValues width groups body).1.length ∨
        (packedValues width groups body).2.isSome := by
      rw [groupsThenStream] at henough
      cases hafter : (packedValues width groups body).2 with
      | none =>
          rw [hafter] at henough
          rcases henough with hle | hfailed
          · exact .inl hle
          · cases hfailed
      | some rest =>
          exact .inr rfl
    obtain ⟨hvalues, hused⟩ := eachGroup_eq kernels hwidth hpacked
    rw [hvalues]
    rcases le_or_gt wanted (packedValues width groups body).1.length with hle | hlt
    · -- The run is cut off, or is just what was wanted.
      rw [List.length_take, Nat.min_eq_left hle, Nat.sub_self, levelsLoop_zero,
        List.append_nil, groupsThenStream]
      split
      · rfl
      · rw [take_prepend, Nat.sub_eq_zero_of_le hle, List.take_zero, List.append_nil]
    · obtain ⟨rest, hafter⟩ : ∃ rest, (packedValues width groups body).2 = some rest := by
        exact Option.isSome_iff_exists.mp (hpacked.resolve_left (by omega))
      obtain ⟨hlength, -, rfl⟩ := length_packedValues hafter
      have htake : (packedValues width groups body).1.take wanted =
          (packedValues width groups body).1 :=
        List.take_of_length_le hlt.le
      rw [groupsThenStream, hafter] at henough ⊢
      dsimp only at henough ⊢
      rw [htake, hused (by omega), hrest henough.rest, take_prepend, htake]

/-- On a stream that the decoder gets through, the loop gives the wanted values. -/
theorem levelsLoop_eq
    (kernels : Kernels) (wide : WideKernels)
    (hwidth : width ≤ 32)
    {turns : Nat} {input : Bytes}
    (hturns : input.length ≤ turns)
    (henough : Enough wanted (stream width input)) :
    levelsLoop kernels wide width turns wanted input = (stream width input).1.take wanted := by
  induction turns generalizing wanted input with
  | zero =>
      obtain rfl : input = [] := List.eq_nil_of_length_eq_zero (by omega)
      simp [levelsLoop]
  | succ turns ih =>
      rcases Nat.eq_zero_or_pos wanted with rfl | hwanted
      · simp
      rcases eq_or_ne input [] with rfl | hinput
      · simp [levelsLoop]
      rw [levelsLoop, if_pos ⟨hwanted, hinput⟩]
      cases hheader : varintLoop input 0 0 0 with
      | none =>
          rw [stream_of_none hinput hheader] at henough
          rcases henough with hle | hfailed
          · simp only [List.length_nil] at hle
            omega
          · cases hfailed
      | some read =>
          obtain ⟨header, used⟩ := read
          have hused := varintLoop_used hheader
          have hbody : (input.drop used).length ≤ turns := by
            rw [List.length_drop]
            omega
          rw [levelHeader_eq hheader]
          dsimp only
          by_cases heven : header &&& 1 = 0
          · rw [stream_of_even hheader heven] at henough ⊢
            rw [if_pos heven]
            split_ifs at henough ⊢ with hempty hshort
            · exact ih hbody henough
            · exact List.take_nil.symm
            · have hleft := henough.rest
              rw [List.length_replicate] at hleft
              have hcount : wanted - min (header >>> 1).toNat wanted =
                  wanted - (header >>> 1).toNat := by
                omega
              rw [take_prepend, List.take_replicate, List.length_replicate,
                levelValue_eq hwidth, hcount, Nat.min_comm,
                ih (by rw [List.length_drop]; omega) hleft]
          · rw [stream_of_odd hheader heven] at henough ⊢
            rw [if_neg heven]
            by_cases hempty : (header >>> 1).toNat = 0
            · rw [hempty, groupsThenStream_zero] at henough ⊢
              rw [if_pos rfl]
              exact ih hbody henough
            · rw [if_neg hempty]
              exact levelsLoop_packed kernels wide hwidth
                (fun hleft => ih (by rw [List.length_drop]; omega) hleft) henough

/-- On a stream that the decoder gets through, the levels are the values cut to sixteen
bits. -/
theorem rleDecodeLevels_eq
    (kernels : Kernels) (wide : WideKernels)
    (hwidth : width ≤ 32)
    {input : Bytes} {maxValues : ℤ}
    (henough : Enough maxValues.toNat (stream width input)) :
    rleDecodeLevels kernels wide input width maxValues =
      ((stream width input).1.take maxValues.toNat).map (BitVec.setWidth 16) := by
  rw [rleDecodeLevels]
  split_ifs with hstop
  · rcases hstop with hnone | hempty | hrange | hrange
    · rw [Int.toNat_of_nonpos hnone]
      rfl
    · obtain rfl : input = [] := List.eq_nil_of_length_eq_zero hempty
      simp
    · omega
    · omega
  · rw [Int.toNat_natCast, levelsLoop_eq kernels wide hwidth le_rfl henough]

/-- A decoder that has not failed had enough before it. -/
theorem Enough.of_takes
    {d d' : RleDecoder} {values : List (BitVec 32)}
    (h : rleSupply.Takes wanted d values d') (hgood : d'.status = .ok) :
    Enough wanted d.remaining := by
  rcases h with ⟨hgives, hlength⟩ | ⟨hexhausts, -⟩
  · left
    rw [show d.remaining = _ from hgives.left, List.length_append]
    omega
  · right
    rw [show d.remaining = _ from hexhausts.left]
    exact hgood

/-- What pages are read with gives what the decoder gives: unless the decoder fails on the
way, both deliver the same levels, cut to sixteen bits. -/
theorem decode_levels_agrees
    (kernels : Kernels) (wide : WideKernels) (input : Bytes) (bitWidth maxValues : ℤ)
    (hgood : ((RleDecoder.init input bitWidth).getBatch kernels maxValues.toNat).2.status =
      .ok) :
    rleDecodeLevels kernels wide input bitWidth maxValues =
      ((RleDecoder.init input bitWidth).getBatch kernels maxValues.toNat).1.map
        (BitVec.setWidth 16) := by
  obtain ⟨htakes, -⟩ := (init_sound input bitWidth).getBatch kernels maxValues.toNat
  have henough := Enough.of_takes htakes hgood
  rw [htakes.eq_take]
  change _ = ((RleDecoder.init input bitWidth).remaining.1.take _).map _
  by_cases hrange : bitWidth < 0 ∨ 32 < bitWidth
  · have hfailed : (RleDecoder.init input bitWidth).status = .invalidRle := by
      rw [RleDecoder.init, if_pos hrange]
    rw [rleDecodeLevels, if_pos (.inr (.inr hrange)), RleDecoder.remaining_of_failed hfailed]
    simp
  · obtain ⟨width, rfl⟩ : ∃ width : Nat, bitWidth = width :=
      ⟨bitWidth.toNat, by omega⟩
    have hwidth : width ≤ 32 := by
      omega
    rw [(remaining_init hwidth input).1] at henough ⊢
    exact rleDecodeLevels_eq kernels wide hwidth henough

/-- A group, and a part of a run. -/
theorem decode_levels_agrees_mixed :
    ∃ (kernels : Kernels) (wide : WideKernels),
      rleDecodeLevels kernels wide mixedRuns 1 9 =
          ((RleDecoder.init mixedRuns 1).getBatch kernels 9).1.map (BitVec.setWidth 16) ∧
        ((RleDecoder.init mixedRuns 1).getBatch kernels 9).1.length = 9 :=
  ⟨⟨fun _ => none, by rintro _ _ ⟨⟩⟩, ⟨fun _ => none, by rintro _ _ _ ⟨⟩⟩,
    decode_levels_agrees _ _ mixedRuns 1 9 (by decide +kernel), by decide +kernel⟩

end LevelLaws

end Encoding
end QioParquet
