import QioParquet.Encoding.Rle
import QioParquet.Lib.Supply
import Mathlib.Tactic

/-!
# What an RLE stream means, and that the decoder gives it out

`stream` is the meaning of the bytes: the values of all runs in a row, and whether the
stream ends or breaks off. A decoder in the middle of a run still has the rest of the
run, the values in its buffer first, and the stream after it (`remaining`).

Every part of the decoder then has one law: the values it gives are the next ones, and
what is left is left. The laws compose, so that a batch gives the wanted number of
values or all there are, and successive calls give what one call gives.
-/

namespace QioParquet
namespace Encoding

open Lib Read

section Meaning

theorem varintLoop_used
    {bytes : Bytes} {shift used : Nat} {result header : BitVec 32} {total : Nat}
    (h : varintLoop bytes shift result used = some (header, total)) :
    used < total ∧ total ≤ used + bytes.length := by
  induction bytes generalizing shift used result with
  | nil =>
      cases h
  | cons byte rest ih =>
      simp only [varintLoop] at h
      split_ifs at h with hshift hlast
      · cases h
        simp
      · have := ih h
        rw [List.length_cons]
        omega

/-- The value of an RLE run: the lowest bits of its bytes. -/
def runValue (width : Nat) (bytes : Bytes) : BitVec 32 :=
  BitVec.ofNat 32 (littleEndian (bytes.take ((width + 7) / 8)) % 2 ^ width)

/-- The values of groups of a bit-packed run, and the bytes after them if they are all
there. -/
def packedValues (width : Nat) : Nat → Bytes → List (BitVec 32) × Option Bytes
  | 0, bytes => ([], some bytes)
  | groups + 1, bytes =>
      if bytes.length < width then
        ([], none)
      else
        let rest := packedValues width groups (bytes.drop width)
        (fields width bytes ++ rest.1, rest.2)

theorem length_packedValues_rest
    {width groups : Nat} {bytes rest : Bytes}
    (h : (packedValues width groups bytes).2 = some rest) :
    rest.length ≤ bytes.length := by
  induction groups generalizing bytes with
  | zero =>
      cases h
      exact le_rfl
  | succ groups ih =>
      simp only [packedValues] at h
      split_ifs at h
      have := ih h
      rw [List.length_drop] at this
      omega

/-- Values before what is left. -/
def prepend (values : List (BitVec 32)) (left : List (BitVec 32) × RleStatus) :
    List (BitVec 32) × RleStatus :=
  (values ++ left.1, left.2)

/-- The values a stream of runs stands for, and how it ends. -/
def stream (width : Nat) (bytes : Bytes) : List (BitVec 32) × RleStatus :=
  match _hheader : varintLoop bytes 0 0 0 with
  | none => ([], if bytes = [] then .ok else .invalidRle)
  | some (header, used) =>
      let body := bytes.drop used
      if header &&& 1 = 0 then
        if (header >>> 1).toNat = 0 then
          stream width body
        else if body.length < (width + 7) / 8 then
          ([], .invalidRle)
        else
          prepend (List.replicate (header >>> 1).toNat (runValue width body))
            (stream width (body.drop ((width + 7) / 8)))
      else
        match _hrest : (packedValues width (header >>> 1).toNat body).2 with
        | none => ((packedValues width (header >>> 1).toNat body).1, .invalidRle)
        | some rest =>
            prepend (packedValues width (header >>> 1).toNat body).1 (stream width rest)
termination_by bytes.length
decreasing_by
  all_goals
    have hused := varintLoop_used _hheader
    simp only [body, List.length_drop] at *
  · omega
  · omega
  · have := length_packedValues_rest _hrest
    simp only [List.length_drop] at this
    omega

/-- Groups, and the stream after them. -/
def groupsThenStream (width groups : Nat) (bytes : Bytes) :
    List (BitVec 32) × RleStatus :=
  match (packedValues width groups bytes).2 with
  | none => ((packedValues width groups bytes).1, .invalidRle)
  | some rest => prepend (packedValues width groups bytes).1 (stream width rest)

variable {width : Nat} {bytes : Bytes} {header : BitVec 32} {used : Nat}

@[simp] theorem stream_nil : stream width [] = ([], .ok) := by
  rw [stream]
  rfl

theorem stream_of_none
    (hbytes : bytes ≠ [])
    (hheader : varintLoop bytes 0 0 0 = none) :
    stream width bytes = ([], .invalidRle) := by
  rw [stream]
  split
  · rw [if_neg hbytes]
  · simp_all

theorem stream_of_even
    (hheader : varintLoop bytes 0 0 0 = some (header, used))
    (heven : header &&& 1 = 0) :
    stream width bytes =
      if (header >>> 1).toNat = 0 then
        stream width (bytes.drop used)
      else if (bytes.drop used).length < (width + 7) / 8 then
        ([], .invalidRle)
      else
        prepend (List.replicate (header >>> 1).toNat (runValue width (bytes.drop used)))
          (stream width ((bytes.drop used).drop ((width + 7) / 8))) := by
  rw [stream]
  split
  · simp_all
  · simp_all

theorem stream_of_odd
    (hheader : varintLoop bytes 0 0 0 = some (header, used))
    (hodd : ¬ header &&& 1 = 0) :
    stream width bytes =
      groupsThenStream width (header >>> 1).toNat (bytes.drop used) := by
  rw [stream]
  split
  · simp_all
  · rename_i header' used' hheader'
    rw [hheader, Option.some.injEq, Prod.mk.injEq] at hheader'
    obtain ⟨rfl, rfl⟩ := hheader'
    simp only [if_neg hodd, groupsThenStream]
    split <;> simp_all

@[simp] theorem groupsThenStream_zero
    (bytes : Bytes) :
    groupsThenStream width 0 bytes = stream width bytes := by
  simp [groupsThenStream, packedValues, prepend]

theorem groupsThenStream_succ
    (groups : Nat) (bytes : Bytes) :
    groupsThenStream width (groups + 1) bytes =
      if bytes.length < width then ([], .invalidRle)
      else prepend (fields width bytes)
        (groupsThenStream width groups (bytes.drop width)) := by
  by_cases hshort : bytes.length < width
  · simp [groupsThenStream, packedValues, hshort]
  · simp only [groupsThenStream, packedValues, if_neg hshort]
    split <;> simp_all [prepend]

end Meaning

section Invariant

namespace RleDecoder

/-- The values in the buffer that were not given out. -/
def pending (d : RleDecoder) : List (BitVec 32) :=
  (d.bitpackBuffer.take d.bitpackCount).drop d.bitpackPos

/-- The groups of the run that were not unpacked. -/
def groupsLeft (d : RleDecoder) : Nat :=
  (d.runRemaining - d.pending.length) / 8

/-- The values still to come, and how they end. -/
def remaining (d : RleDecoder) : List (BitVec 32) × RleStatus :=
  if d.status ≠ .ok then
    ([], d.status)
  else if d.inRleRun then
    prepend (List.replicate d.runRemaining d.rleValue)
      (stream d.bitWidth (d.data.drop d.pos))
  else
    prepend d.pending (groupsThenStream d.bitWidth d.groupsLeft (d.data.drop d.pos))

/-- What holds between calls: the values in the buffer are of the current bit-packed
run, which has whole groups after them. -/
structure Sound (d : RleDecoder) : Prop where
  width : d.bitWidth ≤ 32
  mask : d.valueMask.toNat = 2 ^ d.bitWidth - 1
  pos : d.pos ≤ d.data.length
  staged : d.bitpackCount ≤ d.bitpackBuffer.length
  repeated : d.inRleRun = true → d.pending = []
  packed : d.inRleRun = false → d.runRemaining = d.pending.length + 8 * d.groupsLeft

end RleDecoder

/-- The decoder as a supply of values. -/
def rleSupply : Supply RleDecoder (BitVec 32) RleStatus where
  left := RleDecoder.remaining
  status := RleDecoder.status

/-- Nothing is pending in a decoder between runs. -/
theorem RleDecoder.Sound.pending_of_idle
    {d : RleDecoder}
    (hd : d.Sound) (hrun : d.runRemaining = 0) :
    d.pending = [] := by
  cases hkind : d.inRleRun with
  | true =>
      exact hd.repeated hkind
  | false =>
      have hpacked := hd.packed hkind
      exact List.eq_nil_of_length_eq_zero (by omega)

/-- A decoder with an empty buffer. -/
theorem RleDecoder.Sound.of_pending_nil
    {d : RleDecoder}
    (hwidth : d.bitWidth ≤ 32)
    (hmask : d.valueMask.toNat = 2 ^ d.bitWidth - 1)
    (hpos : d.pos ≤ d.data.length)
    (hstaged : d.bitpackCount ≤ d.bitpackBuffer.length)
    (hpending : d.pending = [])
    (hgroups : d.inRleRun = false → 8 ∣ d.runRemaining) :
    d.Sound where
  width := hwidth
  mask := hmask
  pos := hpos
  staged := hstaged
  repeated _ := hpending
  packed hkind := by
    have := hgroups hkind
    rw [RleDecoder.groupsLeft, hpending, List.length_nil]
    omega

theorem toNat_rleMask
    {width : Nat}
    (hwidth : width < 32) :
    ((1#32 <<< width) - 1#32).toNat = 2 ^ width - 1 := by
  interval_cases width <;> rfl

theorem init_sound (data : Bytes) (bitWidth : ℤ) :
    (RleDecoder.init data bitWidth).Sound := by
  unfold RleDecoder.init
  split_ifs with hrange hwide
  · exact .of_pending_nil (Nat.zero_le _) rfl (Nat.zero_le _) (Nat.zero_le _) rfl
      fun _ => dvd_zero 8
  · obtain rfl : bitWidth = 32 := by
      omega
    exact .of_pending_nil le_rfl rfl (Nat.zero_le _) (Nat.zero_le _) rfl
      fun _ => dvd_zero 8
  · exact .of_pending_nil (by simp only; omega) (toNat_rleMask (by omega))
      (Nat.zero_le _) (Nat.zero_le _) rfl fun _ => dvd_zero 8

section Steps

variable {d : RleDecoder}

namespace RleDecoder

theorem remaining_of_failed
    (hstatus : d.status = .invalidRle) :
    d.remaining = ([], .invalidRle) := by
  simp [remaining, hstatus]

theorem spent_of_failed
    (hstatus : d.status = .invalidRle) :
    rleSupply.Spent d := by
  change d.remaining = ([], d.status)
  rw [remaining_of_failed hstatus, hstatus]

theorem remaining_repeated
    (hstatus : d.status = .ok) (hkind : d.inRleRun = true) :
    d.remaining = prepend (List.replicate d.runRemaining d.rleValue)
      (stream d.bitWidth (d.data.drop d.pos)) := by
  simp [remaining, hstatus, hkind]

theorem remaining_packed
    (hstatus : d.status = .ok) (hkind : d.inRleRun = false) :
    d.remaining = prepend d.pending
      (groupsThenStream d.bitWidth d.groupsLeft (d.data.drop d.pos)) := by
  simp [remaining, hstatus, hkind]

theorem Sound.remaining_of_idle
    (hd : d.Sound) (hstatus : d.status = .ok) (hrun : d.runRemaining = 0) :
    d.remaining = stream d.bitWidth (d.data.drop d.pos) := by
  cases hkind : d.inRleRun with
  | true =>
      rw [remaining_repeated hstatus hkind, hrun]
      rfl
  | false =>
      have hpending := hd.pending_of_idle hrun
      rw [remaining_packed hstatus hkind, groupsLeft, hrun, hpending]
      simp [prepend]

theorem status_of_hasNext
    (hnext : d.hasNext = true) :
    d.status = .ok := by
  simp only [hasNext, decide_eq_true_eq] at hnext
  exact hnext.1

/-- A decoder that has no next value is spent. -/
theorem Sound.spent
    (hd : d.Sound) (hnext : d.hasNext = false) :
    rleSupply.Spent d := by
  cases hstatus : d.status with
  | invalidRle =>
      exact spent_of_failed hstatus
  | ok =>
      change d.remaining = ([], d.status)
      simp only [hasNext, hstatus, true_and, decide_eq_false_iff_not, not_or, not_lt,
        Nat.le_zero] at hnext
      rw [hd.remaining_of_idle hstatus hnext.1, List.drop_eq_nil_of_le hnext.2, stream_nil,
        hstatus]

/-- What becomes of a step that is needed before the next value: the decoder is ready
to give one and nothing is lost, or there is none. -/
structure Readied (ready : RleDecoder → Prop) (d : RleDecoder) (result : Bool × RleDecoder) :
    Prop where
  sound : result.2.Sound
  gives : result.1 = true → rleSupply.Gives d [] result.2 ∧ ready result.2
  exhausts : result.1 = false → rleSupply.Exhausts d [] result.2

theorem Readied.of_gives
    {ready : RleDecoder → Prop} {d d' : RleDecoder} {result : Bool × RleDecoder}
    (hgives : rleSupply.Gives d [] d') (h : Readied ready d' result) :
    Readied ready d result where
  sound := h.sound
  gives hresult := ⟨hgives.trans (h.gives hresult).1, (h.gives hresult).2⟩
  exhausts hresult := hgives.exhausts (h.exhausts hresult)

/-- It breaks off where the stream does. -/
theorem Readied.failed
    {ready : RleDecoder → Prop} {d d' : RleDecoder}
    (hremaining : d.remaining = ([], .invalidRle))
    (hsound : d'.Sound) (hstatus : d'.status = .invalidRle) :
    Readied ready d (false, d') where
  sound := hsound
  gives := nofun
  exhausts _ := by
    refine ⟨?_, spent_of_failed hstatus⟩
    change d.remaining = ([], d'.status)
    rw [hremaining, hstatus]

/-- It breaks off at the end of the stream. -/
theorem Readied.spent
    {ready : RleDecoder → Prop}
    (hd : d.Sound) (hspent : rleSupply.Spent d) :
    Readied ready d (false, d) where
  sound := hd
  gives := nofun
  exhausts _ := hspent.exhausts

theorem Readied.started
    {ready : RleDecoder → Prop} {d d' : RleDecoder}
    (hsound : d'.Sound) (hremaining : d'.remaining = d.remaining)
    (hstatus : d'.status = d.status) (hready : ready d') :
    Readied ready d (true, d') where
  sound := hsound
  gives _ := ⟨⟨hremaining.symm, hstatus⟩, hready⟩
  exhausts := nofun

end RleDecoder

end Steps

section Starting

variable {d : RleDecoder}

theorem toNat_loadValue
    {bytes : Bytes} {i : Nat} {value : BitVec 32}
    (hvalue : value.toNat < 2 ^ (i * 8))
    (hlength : i + bytes.length ≤ 4) :
    (loadValue bytes i value).toNat = value.toNat + 2 ^ (i * 8) * littleEndian bytes := by
  induction bytes generalizing i value with
  | nil =>
      simp [loadValue, littleEndian]
  | cons byte rest ih =>
      rw [List.length_cons] at hlength
      have hbyte := byte.toNat_lt
      have hnext : (value ||| byte.toBitVec.setWidth 32 <<< (i * 8)).toNat =
          value.toNat + 2 ^ (i * 8) * byte.toNat :=
        toNat_or_shiftLeft (by omega) hvalue byte
      have hpow : 2 ^ ((i + 1) * 8) = 2 ^ (i * 8) * 2 ^ 8 := by
        rw [← Nat.pow_add]
        ring_nf
      have hlt : (value ||| byte.toBitVec.setWidth 32 <<< (i * 8)).toNat <
          2 ^ ((i + 1) * 8) := by
        rw [hnext, hpow]
        calc value.toNat + 2 ^ (i * 8) * byte.toNat
            < 2 ^ (i * 8) + 2 ^ (i * 8) * byte.toNat := by omega
          _ = 2 ^ (i * 8) * (byte.toNat + 1) := by ring
          _ ≤ 2 ^ (i * 8) * 2 ^ 8 := Nat.mul_le_mul_left _ hbyte
      rw [loadValue, ih hlt (by omega), hnext, hpow, littleEndian]
      ring

namespace RleDecoder

/-- The masked value of a run is the lowest bits of its bytes. -/
theorem Sound.loadValue_eq
    (hd : d.Sound) (bytes : Bytes) :
    loadValue (bytes.take ((d.bitWidth + 7) / 8)) 0 0 &&& d.valueMask =
      runValue d.bitWidth bytes := by
  have hwidth := hd.width
  have hlength : 0 + (bytes.take ((d.bitWidth + 7) / 8)).length ≤ 4 := by
    rw [List.length_take]
    omega
  have hfits : littleEndian (bytes.take ((d.bitWidth + 7) / 8)) % 2 ^ d.bitWidth <
      2 ^ 32 :=
    lt_of_lt_of_le (Nat.mod_lt _ (by positivity))
      (Nat.pow_le_pow_right (by norm_num) hwidth)
  apply BitVec.eq_of_toNat_eq
  rw [BitVec.toNat_and, hd.mask, Nat.and_two_pow_sub_one_eq_mod,
    toNat_loadValue (by simp) hlength, runValue, BitVec.toNat_ofNat, Nat.mod_eq_of_lt hfits]
  simp

/-- A run that is not empty gets its value, or the stream breaks off. -/
theorem Sound.readRunValue
    (hd : d.Sound) (hstatus : d.status = .ok) (hkind : d.inRleRun = true)
    {start : RleDecoder}
    (hstart : start.status = .ok)
    (hremaining : start.remaining =
      if (d.data.drop d.pos).length < (d.bitWidth + 7) / 8 then ([], .invalidRle)
      else prepend (List.replicate d.runRemaining (runValue d.bitWidth (d.data.drop d.pos)))
        (stream d.bitWidth ((d.data.drop d.pos).drop ((d.bitWidth + 7) / 8))))
    (hrun : 0 < d.runRemaining) :
    Readied (fun d' => 0 < d'.runRemaining) start d.readRunValue := by
  have hpos := hd.pos
  have hbytes : (d.data.drop d.pos).length < (d.bitWidth + 7) / 8 ↔
      d.data.length < d.pos + (d.bitWidth + 7) / 8 := by
    rw [List.length_drop]
    omega
  rw [RleDecoder.readRunValue]
  split_ifs with hshort
  · rw [if_pos (hbytes.mpr hshort)] at hremaining
    exact .failed hremaining ⟨hd.width, hd.mask, hd.pos, hd.staged, hd.repeated, hd.packed⟩ rfl
  · rw [if_neg (fun h => hshort (hbytes.mp h))] at hremaining
    refine .started ⟨hd.width, hd.mask, by simp only; omega, hd.staged, hd.repeated, ?_⟩ ?_
      (hstatus.trans hstart.symm) hrun
    · exact fun hpacked => absurd (hpacked.symm.trans hkind) Bool.false_ne_true
    · rw [hremaining, List.drop_drop, remaining_repeated (by exact hstatus) (by exact hkind)]
      simp only [hd.loadValue_eq]

theorem readVarint_eq_some
    {data : Bytes} {pos next : Nat} {header : BitVec 32}
    (h : readVarint data pos = some (header, next)) :
    ∃ used, varintLoop (data.drop pos) 0 0 0 = some (header, used) ∧
      next = pos + used ∧ 0 < used ∧ used ≤ data.length - pos := by
  rw [readVarint, Option.map_eq_some_iff] at h
  obtain ⟨⟨header', used⟩, hloop, hread⟩ := h
  obtain ⟨rfl, rfl⟩ := Prod.mk.inj hread
  have hused := varintLoop_used hloop
  rw [List.length_drop] at hused
  exact ⟨used, hloop, rfl, by omega⟩

/-- After the header of a run, with nothing in the buffer. -/
theorem Sound.enter
    (hd : d.Sound) (hidle : d.runRemaining = 0)
    {pos : Nat} (hpos : pos ≤ d.data.length)
    (kind : Bool) (run : Nat) (hgroups : kind = false → 8 ∣ run) :
    Sound { d with pos := pos, inRleRun := kind, runRemaining := run } :=
  .of_pending_nil hd.width hd.mask hpos hd.staged (hd.pending_of_idle hidle) hgroups

/-- An empty run, and the runs after it. -/
theorem Sound.skip
    (hstatus : d.status = .ok)
    {pos run turns : Nat} {kind : Bool}
    (hd : Sound { d with pos := pos, inRleRun := kind, runRemaining := run })
    (hempty : run = 0)
    (hleft : d.remaining = stream d.bitWidth (d.data.drop pos))
    (hrest : Readied (fun d' => 0 < d'.runRemaining)
      { d with pos := pos, inRleRun := kind, runRemaining := run }
      (startRun turns { d with pos := pos, inRleRun := kind, runRemaining := run })) :
    Readied (fun d' => 0 < d'.runRemaining) d
      (startRun turns { d with pos := pos, inRleRun := kind, runRemaining := run }) :=
  .of_gives ⟨hleft.trans (hd.remaining_of_idle hstatus hempty).symm, rfl⟩ hrest

/-- The buffer is emptied at the start of a bit-packed run. -/
theorem Sound.startPacked
    (hstatus : d.status = .ok)
    {pos groups : Nat}
    (hd : Sound { d with pos := pos, inRleRun := false, runRemaining := groups * 8 })
    (hleft : d.remaining = groupsThenStream d.bitWidth groups (d.data.drop pos))
    (hgroups : 0 < groups * 8) :
    Readied (fun d' => 0 < d'.runRemaining) d
      (true, { d with
        pos := pos
        inRleRun := false
        runRemaining := groups * 8
        bitpackPos := 0
        bitpackCount := 0 }) := by
  refine .started ?_ ?_ rfl hgroups
  · exact .of_pending_nil hd.width hd.mask hd.pos (Nat.zero_le _) rfl
      fun _ => dvd_mul_left 8 groups
  · rw [hleft, remaining_packed (by exact hstatus) rfl]
    simp [prepend, pending, groupsLeft]

/-- Starting a run skips empty ones, and changes nothing that is left. -/
theorem Sound.startRun
    {turns : Nat}
    (hd : d.Sound) (hstatus : d.status = .ok) (hidle : d.runRemaining = 0)
    (hturns : d.data.length - d.pos ≤ turns) :
    Readied (fun d' => 0 < d'.runRemaining) d (startRun turns d) := by
  induction turns generalizing d with
  | zero =>
      refine .spent hd (hd.spent ?_)
      simp [hasNext, hidle]
      omega
  | succ turns ih =>
      have hleft := hd.remaining_of_idle hstatus hidle
      rw [RleDecoder.startRun]
      split_ifs with hend
      · refine .spent hd (hd.spent ?_)
        simp [hasNext, hidle, hend]
      · split
        · rename_i hread
          have hloop : varintLoop (d.data.drop d.pos) 0 0 0 = none := by
            simpa [readVarint] using hread
          have hbytes : d.data.drop d.pos ≠ [] := by
            simpa using hend
          refine .failed (hleft.trans (stream_of_none hbytes hloop)) ?_ rfl
          exact ⟨hd.width, hd.mask, hd.pos, hd.staged, hd.repeated, hd.packed⟩
        · rename_i header pos hread
          obtain ⟨used, hloop, rfl, hused, hfits⟩ := readVarint_eq_some hread
          have hpos : d.pos + used ≤ d.data.length := by
            omega
          have hfewer : d.data.length - (d.pos + used) ≤ turns := by
            omega
          split_ifs with heven
          · have hentered := hd.enter hidle hpos true (header >>> 1).toNat nofun
            rw [stream_of_even hloop heven, List.drop_drop] at hleft
            dsimp only
            split_ifs with hempty
            · rw [if_pos hempty] at hleft
              exact hentered.skip hstatus hempty hleft (ih hentered hstatus hempty hfewer)
            · rw [if_neg hempty] at hleft
              exact hentered.readRunValue hstatus rfl hstatus hleft
                (Nat.pos_of_ne_zero hempty)
          · have hentered := hd.enter hidle hpos false ((header >>> 1).toNat * 8)
              fun _ => dvd_mul_left 8 _
            rw [stream_of_odd hloop heven, List.drop_drop] at hleft
            dsimp only
            split_ifs with hempty
            · have hgroups : (header >>> 1).toNat = 0 := by
                omega
              rw [hgroups, groupsThenStream_zero] at hleft
              exact hentered.skip hstatus hempty hleft (ih hentered hstatus hempty hfewer)
            · exact hentered.startPacked hstatus hleft (Nat.pos_of_ne_zero hempty)

theorem Sound.ensureRun
    (hd : d.Sound) (hstatus : d.status = .ok) :
    Readied (fun d' => 0 < d'.runRemaining) d d.ensureRun := by
  rw [RleDecoder.ensureRun]
  split_ifs with hidle
  · exact hd.startRun hstatus hidle le_rfl
  · exact .started hd rfl rfl (Nat.pos_of_ne_zero hidle)

end RleDecoder

end Starting

section Delivering

variable {d d' d'' : RleDecoder} {xs ys : List (BitVec 32)}

namespace RleDecoder

/-- These values of the current run are given out. -/
structure Delivers (d : RleDecoder) (values : List (BitVec 32)) (d' : RleDecoder) :
    Prop where
  gives : rleSupply.Gives d values d'
  sound : d'.Sound
  kind : d'.inRleRun = d.inRleRun
  run : d'.runRemaining + values.length = d.runRemaining

theorem Delivers.refl (hd : d.Sound) : Delivers d [] d :=
  ⟨.refl d, hd, rfl, rfl⟩

theorem Delivers.trans
    (hxs : Delivers d xs d') (hys : Delivers d' ys d'') :
    Delivers d (xs ++ ys) d'' where
  gives := hxs.gives.trans hys.gives
  sound := hys.sound
  kind := hys.kind.trans hxs.kind
  run := by
    have := hxs.run
    have := hys.run
    rw [List.length_append]
    omega

theorem Delivers.status (h : Delivers d xs d') : d'.status = d.status :=
  h.gives.status

theorem Sound.repeatValue
    (hd : d.Sound) (hstatus : d.status = .ok) (hkind : d.inRleRun = true)
    (wanted : Nat) :
    Delivers d (repeatValue wanted d).1 (repeatValue wanted d).2 where
  gives := by
    refine ⟨?_, rfl⟩
    change d.remaining = (_ ++ (RleDecoder.remaining _).1, (RleDecoder.remaining _).2)
    rw [remaining_repeated hstatus hkind, RleDecoder.repeatValue,
      remaining_repeated (by exact hstatus) (by exact hkind)]
    simp only [prepend, ← List.append_assoc, List.replicate_append_replicate]
    rw [Nat.add_sub_cancel' (Nat.min_le_right _ _)]
  sound := ⟨hd.width, hd.mask, hd.pos, hd.staged, hd.repeated,
    fun hpacked => absurd (hpacked.symm.trans hkind) Bool.false_ne_true⟩
  kind := rfl
  run := by
    simp [RleDecoder.repeatValue]

/-- Values taken out of the buffer. -/
def advance (d : RleDecoder) (k : Nat) : RleDecoder :=
  { d with bitpackPos := d.bitpackPos + k, runRemaining := d.runRemaining - k }

theorem pending_advance (d : RleDecoder) (k : Nat) :
    (d.advance k).pending = d.pending.drop k := by
  simp [pending, advance, List.drop_drop]

theorem length_pending
    (hstaged : d.bitpackCount ≤ d.bitpackBuffer.length) :
    d.pending.length = d.bitpackCount - d.bitpackPos := by
  simp [pending, hstaged]

theorem Sound.advance
    (hd : d.Sound) (hstatus : d.status = .ok) (hkind : d.inRleRun = false)
    {k : Nat} (hk : k ≤ d.pending.length) :
    Delivers d (d.pending.take k) (d.advance k) := by
  have hpacked := hd.packed hkind
  have hgroups : (d.advance k).groupsLeft = d.groupsLeft := by
    rw [groupsLeft, pending_advance, List.length_drop]
    simp only [RleDecoder.advance]
    omega
  refine ⟨⟨?_, rfl⟩, ⟨hd.width, hd.mask, hd.pos, hd.staged, ?_, ?_⟩, rfl, ?_⟩
  · change d.remaining = (_ ++ (RleDecoder.remaining _).1, (RleDecoder.remaining _).2)
    rw [remaining_packed hstatus hkind, remaining_packed (by exact hstatus) (by exact hkind),
      hgroups, pending_advance]
    simp only [prepend, ← List.append_assoc, List.take_append_drop]
    rfl
  · exact fun hrepeated => absurd (hkind.symm.trans hrepeated) Bool.false_ne_true
  · intro _
    rw [hgroups, pending_advance, List.length_drop]
    simp only [RleDecoder.advance]
    omega
  · rw [List.length_take]
    simp only [RleDecoder.advance]
    omega

/-- The loop takes the next values out of the buffer. -/
theorem drain_eq
    (wanted : Nat)
    (hstaged : d.bitpackCount ≤ d.bitpackBuffer.length)
    (hrun : d.pending.length ≤ d.runRemaining) :
    drain wanted d =
      (d.pending.take wanted, d.advance (min wanted d.pending.length)) := by
  induction wanted generalizing d with
  | zero =>
      simp [drain, advance]
  | succ wanted ih =>
      have hlength := length_pending hstaged
      by_cases hpos : d.bitpackPos < d.bitpackCount
      · have hbuffer : d.bitpackPos < d.bitpackBuffer.length := by
          omega
        have hpending : d.pending =
            d.bitpackBuffer.getD d.bitpackPos 0 :: (d.advance 1).pending := by
          rw [pending_advance, pending, List.drop_drop,
            List.drop_eq_getElem_cons (by simp; omega), List.getElem_take,
            List.getD_eq_getElem _ _ hbuffer]
        have hnext : (d.advance 1).pending.length ≤ (d.advance 1).runRemaining := by
          rw [pending_advance, List.length_drop]
          simp only [advance]
          omega
        rw [drain, if_pos ⟨hpos, by omega⟩]
        change (_ :: (drain wanted (d.advance 1)).1, (drain wanted (d.advance 1)).2) = _
        rw [ih (by exact hstaged) hnext, hpending]
        simp only [List.take_succ_cons, List.length_cons, Nat.add_min_add_right, advance,
          Nat.add_assoc, Nat.sub_sub, Nat.add_comm 1]
      · have hempty : d.pending = [] :=
          List.eq_nil_of_length_eq_zero (by omega)
        rw [drain, if_neg (fun h => hpos h.1), hempty]
        simp [advance]

theorem Sound.drain
    (hd : d.Sound) (hstatus : d.status = .ok) (hkind : d.inRleRun = false)
    (wanted : Nat) :
    Delivers d (drain wanted d).1 (drain wanted d).2 := by
  have hpacked := hd.packed hkind
  rw [drain_eq wanted hd.staged (by omega)]
  have htake : d.pending.take wanted = d.pending.take (min wanted d.pending.length) := by
    rw [List.take_eq_take_iff]
    simp
  rw [htake]
  exact hd.advance hstatus hkind (Nat.min_le_right _ _)

theorem unpackGroup_eq
    (kernels : Kernels) {width : Nat} {input : Bytes}
    (hwidth : width ≤ 32) (hinput : width ≤ input.length) :
    unpackGroup kernels width input = fields width input := by
  rw [unpackGroup, bitunpack8_eq_fields kernels hwidth hinput, Option.getD_some]

/-- The kernel a batch has looked up gives the same values. -/
theorem unpackDirect_eq
    (kernels : Kernels) {width : Nat} {input : Bytes}
    (hwidth : width ≤ 32) (hinput : width ≤ input.length) :
    unpackDirect kernels width input = fields width input := by
  rw [unpackDirect]
  split
  · rename_i kernel hkernel
    split_ifs at hkernel
    rw [kernels.agrees width kernel hkernel, ← bitunpack8_eq_scalar kernels,
      bitunpack8_eq_fields kernels hwidth hinput, Option.getD_some]
  · exact unpackGroup_eq kernels hwidth hinput

/-- A group that is not in the buffer: the stream goes on with its values, or breaks
off. -/
theorem Sound.remaining_of_group
    (hd : d.Sound) (hstatus : d.status = .ok) (hkind : d.inRleRun = false)
    (hpending : d.pending = []) (hrun : 0 < d.runRemaining) :
    ∃ groups, d.runRemaining = 8 * (groups + 1) ∧ d.remaining =
      if d.data.length < d.pos + d.bitWidth then ([], .invalidRle)
      else prepend (fields d.bitWidth (d.data.drop d.pos))
        (groupsThenStream d.bitWidth groups (d.data.drop (d.pos + d.bitWidth))) := by
  have hpos := hd.pos
  have hpacked := hd.packed hkind
  rw [hpending, List.length_nil, Nat.zero_add] at hpacked
  obtain ⟨groups, hgroups⟩ : ∃ groups, d.groupsLeft = groups + 1 :=
    Nat.exists_eq_succ_of_ne_zero (by omega)
  refine ⟨groups, by rw [hpacked, hgroups], ?_⟩
  rw [remaining_packed hstatus hkind, hpending, hgroups, groupsThenStream_succ,
    List.drop_drop, List.length_drop]
  have hbytes : d.data.length - d.pos < d.bitWidth ↔
      d.data.length < d.pos + d.bitWidth := by
    omega
  simp only [hbytes, prepend, List.nil_append]

/-- The decoder with a group unpacked into its buffer. -/
def staged (d : RleDecoder) : RleDecoder :=
  { d with
    bitpackBuffer := fields d.bitWidth (d.data.drop d.pos)
    pos := d.pos + d.bitWidth
    bitpackPos := 0
    bitpackCount := 8 }

theorem pending_staged (d : RleDecoder) :
    d.staged.pending = fields d.bitWidth (d.data.drop d.pos) := by
  simp [pending, staged, List.take_of_length_le]

theorem groupsLeft_staged
    {groups : Nat} (hrun : d.runRemaining = 8 * (groups + 1)) :
    d.staged.groupsLeft = groups := by
  rw [groupsLeft, pending_staged, length_fields]
  change (d.runRemaining - 8) / 8 = groups
  omega

theorem Sound.staged_sound
    (hd : d.Sound) (hkind : d.inRleRun = false)
    (hbytes : d.pos + d.bitWidth ≤ d.data.length)
    {groups : Nat} (hrun : d.runRemaining = 8 * (groups + 1)) :
    d.staged.Sound where
  width := hd.width
  mask := hd.mask
  pos := hbytes
  staged := by
    simp [RleDecoder.staged]
  repeated hrepeated := absurd (hkind.symm.trans hrepeated) Bool.false_ne_true
  packed _ := by
    rw [groupsLeft_staged hrun, pending_staged, length_fields]
    change d.runRemaining = _
    omega

/-- A group is unpacked into the buffer when the buffer is empty. -/
theorem Sound.ensureStaged
    (kernels : Kernels)
    (hd : d.Sound) (hstatus : d.status = .ok) (hkind : d.inRleRun = false)
    (hrun : 0 < d.runRemaining) :
    Readied (fun d' => d'.pending ≠ [] ∧ d'.inRleRun = false ∧
      d'.runRemaining = d.runRemaining) d (ensureStaged kernels d) := by
  have hlength := length_pending hd.staged
  rw [RleDecoder.ensureStaged]
  split_ifs with hused
  · have hpending : d.pending = [] :=
      List.eq_nil_of_length_eq_zero (by omega)
    obtain ⟨groups, hgroups, hleft⟩ := hd.remaining_of_group hstatus hkind hpending hrun
    rw [fillBitpackBuffer, if_neg hrun.ne']
    split_ifs with hshort
    · rw [if_pos hshort] at hleft
      exact .failed hleft ⟨hd.width, hd.mask, hd.pos, hd.staged, hd.repeated, hd.packed⟩ rfl
    · rw [if_neg hshort] at hleft
      have hbytes : d.bitWidth ≤ (d.data.drop d.pos).length := by
        rw [List.length_drop]
        omega
      have hpending' : d.staged.pending ≠ [] := by
        rw [pending_staged]
        exact List.ne_nil_of_length_pos (by simp)
      rw [unpackGroup_eq kernels hd.width hbytes]
      refine .started (hd.staged_sound hkind (by omega) hgroups) ?_ rfl ⟨hpending', hkind, rfl⟩
      refine Eq.trans ?_ hleft.symm
      change d.staged.remaining = _
      rw [remaining_packed (by exact hstatus) (by exact hkind), pending_staged,
        groupsLeft_staged hgroups]
      rfl
  · refine .started hd rfl rfl ⟨?_, hkind, rfl⟩
    exact List.ne_nil_of_length_pos (by omega)

theorem ensureStaged_failed
    {kernels : Kernels}
    (hrun : 0 < d.runRemaining)
    (h : (ensureStaged kernels d).1 = false) :
    (ensureStaged kernels d).2.status = .invalidRle := by
  rw [RleDecoder.ensureStaged] at h ⊢
  split_ifs at h ⊢ with hused
  rw [fillBitpackBuffer, if_neg hrun.ne'] at h ⊢
  split_ifs at h ⊢
  rfl

/-- A group that is wanted whole. -/
theorem Sound.group
    (kernels : Kernels)
    (hd : d.Sound) (hstatus : d.status = .ok) (hkind : d.inRleRun = false)
    (hpending : d.pending = []) (hrun : 0 < d.runRemaining)
    (hbytes : d.pos + d.bitWidth ≤ d.data.length) :
    Delivers d (unpackDirect kernels d.bitWidth (d.data.drop d.pos))
      { d with pos := d.pos + d.bitWidth, runRemaining := d.runRemaining - 8 } := by
  obtain ⟨groups, hgroups, hleft⟩ := hd.remaining_of_group hstatus hkind hpending hrun
  rw [if_neg (by omega)] at hleft
  have hsound : Sound
      { d with pos := d.pos + d.bitWidth, runRemaining := d.runRemaining - 8 } :=
    .of_pending_nil hd.width hd.mask hbytes hd.staged hpending fun _ =>
      ⟨groups, by simp only; omega⟩
  have hrest : groupsLeft
      { d with pos := d.pos + d.bitWidth, runRemaining := d.runRemaining - 8 } = groups := by
    change (d.runRemaining - 8 - d.pending.length) / 8 = groups
    rw [hpending, List.length_nil]
    omega
  rw [unpackDirect_eq kernels hd.width (by rw [List.length_drop]; omega)]
  refine ⟨⟨?_, rfl⟩, hsound, rfl, ?_⟩
  · refine hleft.trans ?_
    change _ = (_ ++ (RleDecoder.remaining _).1, (RleDecoder.remaining _).2)
    rw [remaining_packed (by exact hstatus) (by exact hkind), hrest]
    change _ = (_ ++ (d.pending ++ _), _)
    rw [hpending]
    rfl
  · rw [length_fields]
    simp only
    omega

/-- The whole groups of a batch, or those before the stream breaks off. -/
theorem Sound.wholeGroups
    (kernels : Kernels) (groups : Nat)
    (hd : d.Sound) (hstatus : d.status = .ok) (hkind : d.inRleRun = false)
    (hpending : d.pending = []) :
    Delivers d (wholeGroups kernels groups d).1 (wholeGroups kernels groups d).2 ∧
        (wholeGroups kernels groups d).1.length ≤ 8 * groups ∨
      (∃ last, Delivers d (wholeGroups kernels groups d).1 last ∧ last.pending = [] ∧
        0 < last.runRemaining ∧ last.data.length < last.pos + last.bitWidth ∧
        (wholeGroups kernels groups d).2 = { last with status := .invalidRle }) ∧
        (wholeGroups kernels groups d).1.length < 8 * groups := by
  induction groups generalizing d with
  | zero =>
      exact .inl ⟨.refl hd, le_rfl⟩
  | succ groups ih =>
      rw [RleDecoder.wholeGroups]
      split_ifs with hrun hshort
      · refine .inr ⟨⟨d, .refl hd, hpending, by omega, hshort, rfl⟩, ?_⟩
        simp
      · have hfirst := hd.group kernels hstatus hkind hpending (by omega) (by omega)
        have hlength : (unpackDirect kernels d.bitWidth (d.data.drop d.pos)).length = 8 := by
          rw [unpackDirect_eq kernels hd.width (by rw [List.length_drop]; omega),
            length_fields]
        rcases ih hfirst.sound hstatus hkind hpending with
          ⟨hrest, hle⟩ | ⟨⟨last, hlast, hbroken⟩, hlt⟩
        · refine .inl ⟨hfirst.trans hrest, ?_⟩
          rw [List.length_append, hlength]
          omega
        · refine .inr ⟨⟨last, hfirst.trans hlast, hbroken⟩, ?_⟩
          rw [List.length_append, hlength]
          omega
      · refine .inl ⟨.refl hd, ?_⟩
        simp

end RleDecoder

end Delivering

section Batches

variable {d d' : RleDecoder} {wanted : Nat}

namespace RleDecoder

/-- The values wanted from a run: as many as wanted, or the rest of the run, or those
before the stream breaks off. -/
def Serves (wanted : Nat) (d : RleDecoder) (result : List (BitVec 32) × RleDecoder) : Prop :=
  (Delivers d result.1 result.2 ∧ result.1.length ≤ wanted ∧
      (result.1.length = wanted ∨ result.2.runRemaining = 0)) ∨
    (rleSupply.Exhausts d result.1 result.2 ∧ result.2.Sound ∧
      result.2.status = .invalidRle ∧ result.1.length < wanted)

/-- Values that were given out before. -/
theorem Delivers.serves
    {xs ys : List (BitVec 32)} {last : RleDecoder}
    (hxs : Delivers d xs d') (hle : xs.length ≤ wanted)
    (h : Serves (wanted - xs.length) d' (ys, last)) :
    Serves wanted d (xs ++ ys, last) := by
  rcases h with ⟨hrest, hlength, hdone⟩ | ⟨hrest, hsound, hstatus, hlength⟩
  · refine .inl ⟨hxs.trans hrest, ?_, ?_⟩
    · rw [List.length_append]
      exact (Nat.le_sub_iff_add_le' hle).mp hlength
    · rw [List.length_append]
      exact hdone.imp (fun h => by simp only at h; omega) id
  · refine .inr ⟨hxs.gives.exhausts hrest, hsound, hstatus, ?_⟩
    simp only [List.length_append] at hlength ⊢
    omega

theorem Sound.serves_repeated
    (hd : d.Sound) (hstatus : d.status = .ok) (hkind : d.inRleRun = true) (wanted : Nat) :
    Serves wanted d (RleDecoder.repeatValue wanted d) := by
  refine .inl ⟨hd.repeatValue hstatus hkind wanted, ?_, ?_⟩
  · simp [RleDecoder.repeatValue]
  · simp only [RleDecoder.repeatValue, List.length_replicate]
    omega

/-- The loop through the buffer. The turns are enough because each gives a value. -/
theorem Sound.serves_staged
    (kernels : Kernels) {turns : Nat}
    (hd : d.Sound) (hstatus : d.status = .ok) (hkind : d.inRleRun = false)
    (hturns : wanted ≤ turns) :
    Serves wanted d (stagedValues kernels turns wanted d) := by
  induction turns generalizing wanted d with
  | zero =>
      exact .inl ⟨.refl hd, Nat.zero_le _, .inl (by simp [stagedValues]; omega)⟩
  | succ turns ih =>
      rw [stagedValues]
      dsimp only
      split_ifs with hmore hstaged
      · have hready := hd.ensureStaged kernels hstatus hkind hmore.2
        obtain ⟨hgives, hpending, hkind', hrun⟩ := hready.gives hstaged
        have hstatus' : (RleDecoder.ensureStaged kernels d).2.status = .ok :=
          hgives.status.trans hstatus
        have hfirst : Delivers d [] (RleDecoder.ensureStaged kernels d).2 :=
          ⟨hgives, hready.sound, hkind'.trans hkind.symm, hrun⟩
        have hdrain := hready.sound.drain hstatus' hkind' wanted
        have hpacked := hready.sound.packed hkind'
        have hlength : (RleDecoder.drain wanted (RleDecoder.ensureStaged kernels d).2).1.length =
            min wanted (RleDecoder.ensureStaged kernels d).2.pending.length := by
          rw [drain_eq wanted hready.sound.staged (by omega), List.length_take]
        have hpos := List.length_pos_iff.mpr hpending
        have hboth : Delivers d _ _ := hfirst.trans hdrain
        rw [List.nil_append] at hboth
        exact hboth.serves (by omega)
          (ih hdrain.sound (hdrain.status.trans hstatus') (hdrain.kind.trans hkind') (by omega))
      · have hready := hd.ensureStaged kernels hstatus hkind hmore.2
        have hfailed : (RleDecoder.ensureStaged kernels d).1 = false := by
          simpa using hstaged
        exact .inr ⟨hready.exhausts hfailed, hready.sound,
          ensureStaged_failed hmore.2 hfailed, hmore.1⟩
      · refine .inl ⟨.refl hd, Nat.zero_le _, ?_⟩
        simp only [List.length_nil]
        omega

/-- After the stream broke off in a whole group the buffer gives nothing. -/
theorem stagedValues_broken
    (kernels : Kernels) (turns wanted : Nat)
    (hstaged : d.bitpackCount ≤ d.bitpackBuffer.length)
    (hpending : d.pending = [])
    (hshort : d.data.length < d.pos + d.bitWidth) :
    stagedValues kernels turns wanted { d with status := .invalidRle } =
      ([], { d with status := .invalidRle }) := by
  have hlength := length_pending hstaged
  rw [hpending, List.length_nil] at hlength
  cases turns with
  | zero =>
      rfl
  | succ turns =>
      rw [stagedValues]
      dsimp only
      split_ifs with hmore hready
      · have hfailed : (RleDecoder.ensureStaged kernels
            { d with status := .invalidRle }).1 = false := by
          rw [RleDecoder.ensureStaged, if_pos (by simp only; omega), fillBitpackBuffer,
            if_neg hmore.2.ne', if_pos hshort]
        rw [hready] at hfailed
        cases hfailed
      · rw [RleDecoder.ensureStaged, if_pos (by simp only; omega), fillBitpackBuffer,
          if_neg hmore.2.ne', if_pos hshort]
      · rfl

/-- The stream breaks off in the next group. -/
theorem Delivers.breaks
    {xs : List (BitVec 32)}
    (hxs : Delivers d xs d') (hstatus : d.status = .ok) (hkind : d.inRleRun = false)
    (hpending : d'.pending = []) (hrun : 0 < d'.runRemaining)
    (hshort : d'.data.length < d'.pos + d'.bitWidth) :
    rleSupply.Exhausts d xs { d' with status := .invalidRle } ∧
      Sound { d' with status := .invalidRle } := by
  have hd := hxs.sound
  obtain ⟨groups, -, hleft⟩ := hd.remaining_of_group (hxs.status.trans hstatus)
    (hxs.kind.trans hkind) hpending hrun
  rw [if_pos hshort] at hleft
  refine ⟨⟨?_, spent_of_failed rfl⟩,
    ⟨hd.width, hd.mask, hd.pos, hd.staged, hd.repeated, hd.packed⟩⟩
  refine hxs.gives.left.trans ?_
  change (xs ++ d'.remaining.1, d'.remaining.2) = _
  rw [hleft, List.append_nil]
  rfl

/-- Whole groups with an empty buffer, and the rest through the buffer. -/
theorem Sound.serves_groups
    (kernels : Kernels)
    (hd : d.Sound) (hstatus : d.status = .ok) (hkind : d.inRleRun = false)
    (hpending : d.pending = []) (wanted : Nat)
    {direct : List (BitVec 32) × RleDecoder}
    (hdirect : RleDecoder.wholeGroups kernels (wanted / 8) d = direct)
    {left : Nat} (hleft : left = wanted - direct.1.length) :
    Serves wanted d (direct.1 ++ (stagedValues kernels left left direct.2).1,
      (stagedValues kernels left left direct.2).2) := by
  have hgroups := hd.wholeGroups kernels (wanted / 8) hstatus hkind hpending
  rw [hdirect] at hgroups
  rcases hgroups with ⟨hgiven, hlength⟩ | ⟨⟨last, hlast, hnone, hrun, hshort, hbroken⟩, hlength⟩
  · refine hgiven.serves (by omega) ?_
    rw [← hleft]
    exact hgiven.sound.serves_staged kernels (hgiven.status.trans hstatus)
      (hgiven.kind.trans hkind) le_rfl
  · obtain ⟨hexhausts, hsound⟩ := hlast.breaks hstatus hkind hnone hrun hshort
    rw [hbroken, stagedValues_broken kernels _ _ hlast.sound.staged hnone hshort]
    refine .inr ⟨?_, hsound, rfl, ?_⟩
    · simpa using hexhausts
    · simp only [List.append_nil]
      omega

/-- The values of a bit-packed run: the buffer, whole groups, and the buffer again. -/
theorem Sound.serves_packed
    (kernels : Kernels)
    (hd : d.Sound) (hstatus : d.status = .ok) (hkind : d.inRleRun = false) (wanted : Nat) :
    Serves wanted d (unpackValues kernels wanted d) := by
  have hdrain := hd.drain hstatus hkind wanted
  have hpacked := hd.packed hkind
  have heq := drain_eq wanted hd.staged (by omega)
  have hlength : (RleDecoder.drain wanted d).1.length = min wanted d.pending.length := by
    rw [heq, List.length_take]
  have hpending : (RleDecoder.drain wanted d).2.pending =
      d.pending.drop (min wanted d.pending.length) := by
    rw [heq, pending_advance]
  unfold unpackValues
  refine hdrain.serves (by omega) ?_
  rcases Nat.eq_zero_or_pos (wanted - (RleDecoder.drain wanted d).1.length) with hdone | hmore
  · -- the buffer was enough, and no group is looked at
    rw [hdone]
    exact .inl ⟨.refl hdrain.sound, le_rfl, .inl rfl⟩
  · exact hdrain.sound.serves_groups kernels (hdrain.status.trans hstatus)
      (hdrain.kind.trans hkind) (by rw [hpending, List.drop_eq_nil_iff]; omega) _ rfl rfl

theorem Sound.serves
    (kernels : Kernels)
    (hd : d.Sound) (hstatus : d.status = .ok) (wanted : Nat) :
    Serves wanted d (takeFromRun kernels wanted d) := by
  rw [takeFromRun]
  split_ifs with hkind
  · exact hd.serves_repeated hstatus hkind wanted
  · exact hd.serves_packed kernels hstatus (by simpa using hkind) wanted

theorem batchLoop_failed
    (kernels : Kernels) (turns wanted : Nat)
    (hstatus : d.status = .invalidRle) :
    batchLoop kernels turns wanted d = ([], d) := by
  cases turns with
  | zero =>
      rfl
  | succ turns =>
      rw [batchLoop, if_neg]
      simp [hasNext, hstatus]

/-- The loop over the runs gives as many values as wanted, or all that are left. -/
theorem Sound.batchLoop
    (kernels : Kernels) {turns : Nat}
    (hd : d.Sound) (hturns : wanted ≤ turns) :
    rleSupply.Takes wanted d (batchLoop kernels turns wanted d).1
        (batchLoop kernels turns wanted d).2 ∧
      (batchLoop kernels turns wanted d).2.Sound := by
  induction turns generalizing wanted d with
  | zero =>
      obtain rfl : wanted = 0 := by
        omega
      exact ⟨.inl ⟨.refl d, rfl⟩, hd⟩
  | succ turns ih =>
      rw [RleDecoder.batchLoop]
      dsimp only
      split_ifs with hmore hstarted
      · have hstatus := status_of_hasNext hmore.2
        have hready := hd.ensureRun hstatus
        obtain ⟨hgives, hrun⟩ := hready.gives hstarted
        have hserves := hready.sound.serves kernels (hgives.status.trans hstatus) wanted
        generalize takeFromRun kernels wanted d.ensureRun.2 = part at hserves ⊢
        rcases hserves with ⟨hpart, hle, hdone⟩ | ⟨hpart, hsound, hfailed, hlt⟩
        · have hprogress := hpart.run
          obtain ⟨hrest, hsound⟩ := ih hpart.sound
            (show wanted - part.1.length ≤ turns by omega)
          have hfirst : rleSupply.Takes part.1.length d part.1 part.2 :=
            .inl ⟨hgives.trans hpart.gives, rfl⟩
          have hboth := hfirst.add hrest
          rw [Nat.add_sub_cancel' hle] at hboth
          exact ⟨hboth, hsound⟩
        · rw [batchLoop_failed kernels _ _ hfailed, List.append_nil]
          exact ⟨.inr ⟨hgives.exhausts hpart, hlt⟩, hsound⟩
      · have hstatus := status_of_hasNext hmore.2
        have hready := hd.ensureRun hstatus
        exact ⟨.inr ⟨hready.exhausts (by simpa using hstarted), hmore.1⟩, hready.sound⟩
      · refine ⟨?_, hd⟩
        rcases Nat.eq_zero_or_pos wanted with rfl | hpos
        · exact .inl ⟨.refl d, rfl⟩
        · have hnext : d.hasNext = false := by
            simpa [hpos] using hmore
          exact .inr ⟨(hd.spent hnext).exhausts, hpos⟩

theorem Sound.getBatch
    (kernels : Kernels) (hd : d.Sound) (count : Nat) :
    rleSupply.Takes count d (d.getBatch kernels count).1 (d.getBatch kernels count).2 ∧
      (d.getBatch kernels count).2.Sound :=
  hd.batchLoop kernels le_rfl

/-- One value of a run that has been started, when there is one. -/
theorem Sound.takeValue
    (kernels : Kernels)
    (hd : d.Sound) (hstatus : d.status = .ok) (hrun : 0 < d.runRemaining)
    (hvalue : d.remaining.1 ≠ []) :
    Delivers d [(takeValue kernels d).1] (takeValue kernels d).2 := by
  rw [RleDecoder.takeValue]
  dsimp only
  split_ifs with hkind hstaged
  · have hone := hd.repeatValue hstatus hkind 1
    simpa [RleDecoder.repeatValue, Nat.min_eq_left hrun] using hone
  · have hpacked : d.inRleRun = false := by
      simpa using hkind
    have hready := hd.ensureStaged kernels hstatus hpacked hrun
    obtain ⟨hgives, hpending, hkind', hsame⟩ := hready.gives hstaged
    have hfirst : Delivers d [] (RleDecoder.ensureStaged kernels d).2 :=
      ⟨hgives, hready.sound, hkind'.trans hpacked.symm, hsame⟩
    have hlength := length_pending hready.sound.staged
    have hpos := List.length_pos_iff.mpr hpending
    have hone := hready.sound.drain (hgives.status.trans hstatus) hkind' 1
    rw [RleDecoder.drain, if_pos ⟨by omega, by omega⟩] at hone
    exact hfirst.trans hone
  · exfalso
    have hready := hd.ensureStaged kernels hstatus (by simpa using hkind) hrun
    have hleft := (hready.exhausts (by simpa using hstaged)).left
    exact hvalue (congrArg Prod.fst hleft)

/-- A single value, when there is one. -/
theorem Sound.get
    (kernels : Kernels) (hd : d.Sound) (hvalue : d.remaining.1 ≠ []) :
    rleSupply.Takes 1 d [(d.get kernels).1] (d.get kernels).2 ∧
      (d.get kernels).2.Sound := by
  have hstatus : d.status = .ok := by
    cases hstatus : d.status with
    | ok => rfl
    | invalidRle =>
        rw [remaining_of_failed hstatus] at hvalue
        exact absurd rfl hvalue
  have hready := hd.ensureRun hstatus
  rw [RleDecoder.get, if_neg (not_not.mpr hstatus)]
  dsimp only
  split_ifs with hstarted
  · obtain ⟨hgives, hrun⟩ := hready.gives hstarted
    have hleft : d.remaining = d.ensureRun.2.remaining := hgives.left
    rw [hleft] at hvalue
    have hone := hready.sound.takeValue kernels (hgives.status.trans hstatus) hrun hvalue
    exact ⟨.inl ⟨hgives.trans hone.gives, rfl⟩, hone.sound⟩
  · have hleft := (hready.exhausts (by simpa using hstarted)).left
    exact absurd (congrArg Prod.fst hleft) hvalue

end RleDecoder

end Batches

section Requests

variable {d : RleDecoder}

/-- Single values are asked for only while there is one. -/
def RleDecoder.Allowed (kernels : Kernels) : List RleRequest → RleDecoder → Prop
  | [], _ => True
  | request :: rest, d =>
      (request = .get → d.remaining.1 ≠ []) ∧
        Allowed kernels rest (d.answer kernels request).2

namespace RleDecoder

/-- A call answers its demand. -/
theorem Sound.answer
    (kernels : Kernels) {request : RleRequest}
    (hd : d.Sound) (hget : request = .get → d.remaining.1 ≠ []) :
    rleSupply.Takes request.count d (d.answer kernels request).1
        (d.answer kernels request).2 ∧
      (d.answer kernels request).2.Sound := by
  cases request with
  | get => exact hd.get kernels (hget rfl)
  | getBatch count => exact hd.getBatch kernels count

/-- Successive calls answer the demand that they add up to. -/
theorem Sound.answers
    (kernels : Kernels) {requests : List RleRequest}
    (hd : d.Sound) (hallowed : Allowed kernels requests d) :
    rleSupply.Takes (requests.map RleRequest.count).sum d
      (d.answers kernels requests).1 (d.answers kernels requests).2 := by
  induction requests generalizing d with
  | nil =>
      exact .inl ⟨.refl d, rfl⟩
  | cons request rest ih =>
      obtain ⟨hfirst, hsound⟩ := hd.answer kernels hallowed.1
      exact hfirst.add (ih hsound hallowed.2)

/-- There is a value just when a batch of one gives it. -/
theorem Sound.remaining_ne_nil_iff
    (kernels : Kernels) (hd : d.Sound) :
    d.remaining.1 ≠ [] ↔ (d.getBatch kernels 1).1 ≠ [] := by
  rcases (hd.getBatch kernels 1).1 with ⟨hgives, hlength⟩ | ⟨hexhausts, hlength⟩
  · have hleft : d.remaining = _ := hgives.left
    have hone : (d.getBatch kernels 1).1 ≠ [] :=
      List.ne_nil_of_length_pos (by omega)
    rw [hleft]
    simp [hone]
  · have hleft : d.remaining = _ := hexhausts.left
    rw [hleft]

/-- The requests are allowed, as the calls themselves show it. -/
def allowed (kernels : Kernels) : List RleRequest → RleDecoder → Bool
  | [], _ => true
  | request :: rest, d =>
      decide (request = .get → (d.getBatch kernels 1).1 ≠ []) &&
        allowed kernels rest (d.answer kernels request).2

theorem Sound.allowed_iff
    (kernels : Kernels) {requests : List RleRequest} (hd : d.Sound) :
    Allowed kernels requests d ↔ allowed kernels requests d = true := by
  induction requests generalizing d with
  | nil =>
      simp [Allowed, allowed]
  | cons request rest ih =>
      rw [Allowed, allowed, Bool.and_eq_true, decide_eq_true_iff,
        hd.remaining_ne_nil_iff kernels]
      refine and_congr_right fun hget => ih (hd.answer kernels fun h => ?_).2
      exact (hd.remaining_ne_nil_iff kernels).mpr (hget h)

end RleDecoder

/-- However a number of values is asked for, the values and the status are those of one
batch, and so is what is left. -/
theorem rle_decoding_split_independent
    (kernels : Kernels) (data : Bytes) (bitWidth : ℤ) (requests : List RleRequest)
    (hallowed : RleDecoder.Allowed kernels requests (.init data bitWidth)) :
    let one := (RleDecoder.init data bitWidth).getBatch kernels
      (requests.map RleRequest.count).sum
    let many := (RleDecoder.init data bitWidth).answers kernels requests
    many.1 = one.1 ∧ many.2.remaining = one.2.remaining ∧
      many.2.status = one.2.status := by
  have hd := init_sound data bitWidth
  have hone := (hd.getBatch kernels (requests.map RleRequest.count).sum).1
  exact (hd.answers kernels hallowed).unique hone

/-- A group of bits, three ones, and a header that breaks off. -/
def mixedRuns : Bytes :=
  [0x03, 0xB2, 0x06, 0x01, 0x80]

/-- Single values and batches that stop within a group and within a run. -/
theorem rle_decoding_split_independent_mixed :
    ∃ kernels : Kernels,
      let requests := [.get, .getBatch 0, .getBatch 4, .get, .getBatch 3, .getBatch 20]
      RleDecoder.Allowed kernels requests (.init mixedRuns 1) ∧
        ((RleDecoder.init mixedRuns 1).answers kernels requests).1 =
          ((RleDecoder.init mixedRuns 1).getBatch kernels 29).1 ∧
        ((RleDecoder.init mixedRuns 1).getBatch kernels 29).1 =
          [0, 1, 0, 0, 1, 1, 0, 1, 1, 1, 1] ∧
        ((RleDecoder.init mixedRuns 1).answers kernels requests).2.status =
          .invalidRle := by
  refine ⟨⟨fun _ => none, nofun⟩, ?_⟩
  have hallowed : RleDecoder.Allowed ⟨fun _ => none, nofun⟩
      [.get, .getBatch 0, .getBatch 4, .get, .getBatch 3, .getBatch 20]
      (.init mixedRuns 1) :=
    ((init_sound mixedRuns 1).allowed_iff _).mpr (by decide +kernel)
  obtain ⟨hvalues, -, hstatus⟩ :=
    rle_decoding_split_independent _ mixedRuns 1 _ hallowed
  exact ⟨hallowed, hvalues, by decide +kernel, hstatus.trans (by decide +kernel)⟩

end Requests

end Invariant

end Encoding
end QioParquet
