import QioParquet.Encoding.RleReaders
import QioParquet.Lib.OptionalRows
import Mathlib.Tactic

/-!
# Levels in a page

A page of a column that is optional or repeated starts with levels. The page writer
encodes the levels of each `carquet_page_writer_add_values` into a buffer of their own,
without a length, so that the streams of several calls follow one another. When the page
is put together, each buffer that is not empty becomes a section: its length in four
bytes, and the stream. Repetition levels come first, then definition levels, then the
values.

The reader takes a section for every kind of level the column has. It gets back the levels
of all calls, in their order, and stands at the values.
-/

namespace QioParquet
namespace Page

open Lib Read Encoding

section Writing

/-- `while (val > 0) { width++; val >>= 1; }`. -/
def widthLoop (val : Nat) : Nat :=
  if _h : 0 < val then widthLoop (val >>> 1) + 1 else 0
termination_by val
decreasing_by
  rw [Nat.shiftRight_one]
  omega

/-- `bit_width_for_max`, in the writer and in the reader. -/
def bitWidthForMax (maxLevel : Nat) : Nat :=
  if maxLevel = 0 then 0 else widthLoop maxLevel

/-- What a part of a page fails with. -/
inductive Status where
  | outOfMemory
  | decode
deriving DecidableEq

/-- `encode_levels`: what the output holds afterwards. No levels stand for the highest
level in every place. -/
def encodeLevels (levels : Option (List (BitVec 16))) (count maxLevel : Nat) (output : Bytes)
    (withPrefix : Bool) : Except Status Bytes :=
  if maxLevel = 0 then
    .ok output
  else
    let bitWidth := bitWidthForMax maxLevel
    let start := if withPrefix then output ++ leBytes 4 0 else output
    let encoded :=
      match levels with
      | some levels => rleEncodeLevels (levels.take count) bitWidth start
      | none =>
          ((RleEncoder.init start bitWidth).putRepeat (BitVec.ofNat 32 maxLevel) count).flush.buffer
    let encodedSize := encoded.length - start.length
    if 2 ^ 32 - 1 < encodedSize then
      .error .outOfMemory
    else if withPrefix then
      .ok (encoded.take output.length ++ leBytes 4 encodedSize ++
        encoded.drop (output.length + 4))
    else
      .ok encoded

/-- The highest levels of a column. -/
structure LevelConfig where
  maxDefLevel : Nat
  maxRepLevel : Nat
  defRange : maxDefLevel < 2 ^ 15
  repRange : maxRepLevel < 2 ^ 15

/-- Levels of so many rows, none above the highest. -/
structure LevelsIn (count maxLevel : Nat) (levels : List (BitVec 16)) : Prop where
  length : levels.length = count
  range : ∀ level ∈ levels, level.toNat ≤ maxLevel

/-- The levels of a call. Those of an optional column may be left out; those of a repeated
column may not. -/
structure LevelCall (config : LevelConfig) where
  count : Nat
  defLevels : Option (List (BitVec 16))
  repLevels : Option (List (BitVec 16))
  defIn : ∀ levels, defLevels = some levels → LevelsIn count config.maxDefLevel levels
  repIn : ∀ levels, repLevels = some levels → LevelsIn count config.maxRepLevel levels
  repGiven : 0 < config.maxRepLevel → repLevels.isSome

/-- The buffers of a page. -/
structure PageParts where
  repLevels : Bytes
  defLevels : Bytes
  values : Bytes

variable {config : LevelConfig}

/-- Encode definition levels. -/
def addDefLevels (call : LevelCall config) (defLevels : Bytes) : Except Status Bytes :=
  if 0 < config.maxDefLevel then
    encodeLevels call.defLevels call.count config.maxDefLevel defLevels false
  else
    .ok defLevels

/-- Encode repetition levels. -/
def addRepLevels (call : LevelCall config) (repLevels : Bytes) : Except Status Bytes :=
  if 0 < config.maxRepLevel ∧ call.repLevels.isSome then
    encodeLevels call.repLevels call.count config.maxRepLevel repLevels false
  else
    .ok repLevels

/-- The levels that `carquet_page_writer_add_values` and
`carquet_page_writer_add_dictionary_indices` encode. -/
def addLevels (call : LevelCall config) (parts : PageParts) : Except Status PageParts := do
  let defLevels ← addDefLevels call parts.defLevels
  let repLevels ← addRepLevels call parts.repLevels
  return { parts with defLevels := defLevels, repLevels := repLevels }

/-- The calls that make a page. -/
def addAllLevels (calls : List (LevelCall config)) (parts : PageParts) :
    Except Status PageParts :=
  calls.foldlM (fun parts call => addLevels call parts) parts

/-- `append_v1_level_section`: the length is cut to 32 bits. -/
def appendV1LevelSection (out levels : Bytes) : Bytes :=
  out ++ leBytes 4 (levels.length % 2 ^ 32) ++ levels

/-- `build_page_payload`. A part that is empty is left out. -/
def buildPagePayload (parts : PageParts) : Bytes :=
  if parts.repLevels.length = 0 ∧ parts.defLevels.length = 0 then
    parts.values
  else
    let staging :=
      if 0 < parts.repLevels.length then appendV1LevelSection [] parts.repLevels else []
    let staging :=
      if 0 < parts.defLevels.length then appendV1LevelSection staging parts.defLevels
      else staging
    if 0 < parts.values.length then staging ++ parts.values else staging

end Writing

section Reading

variable (kernels : Kernels) (wide : WideKernels)

/-- `decode_levels_rle`. -/
def decodeLevelsRle (data : Bytes) (bitWidth numValues : Nat) :
    Except Status (List (BitVec 16)) :=
  if bitWidth = 0 then
    .ok (List.replicate numValues 0)
  else
    let decoded := rleDecodeLevels kernels wide data bitWidth numValues
    if decoded.length ≠ numValues then .error .decode else .ok decoded

/-- One value of a deprecated section, the highest bit first. -/
def bitpackedValue (data : Bytes) : Nat → Nat → BitVec 32 → BitVec 32
  | 0, _, v => v
  | bits + 1, bitpos, v =>
      let bit := (data.getD (bitpos >>> 3) 0 >>> (7 - UInt8.ofNat (bitpos &&& 7))) &&& 1
      bitpackedValue data bits (bitpos + 1) ((v <<< 1) ||| bit.toBitVec.setWidth 32)

/-- `carquet_decode_bitpacked_levels`: the levels, and the bytes they took. -/
def decodeBitpackedLevels (data : Bytes) (bitWidth count : Nat) :
    Except Status (List (BitVec 16) × Nat) :=
  if bitWidth = 0 then
    .ok (List.replicate count 0, 0)
  else if 16 < bitWidth then
    .error .decode
  else
    let needed := (count * bitWidth + 7) / 8
    if data.length < needed then
      .error .decode
    else
      .ok ((List.range count).map fun i =>
        (bitpackedValue data bitWidth (i * bitWidth) 0).setWidth 16, needed)

/-- How the header says a section is encoded. -/
inductive LevelEncoding where
  | rle
  | bitPacked
deriving DecidableEq

/-- What the reader reports. -/
structure Failure where
  status : Status
  message : String
deriving DecidableEq

/-- The message for a status that came from below. -/
def reporting {α : Type} (message : String) : Except Status α → Except Failure α
  | .ok value => .ok value
  | .error status => .error ⟨status, message⟩

/-- `decode_v1_level_section`: the levels, and the bytes after the section. -/
def decodeV1LevelSection (encoding : LevelEncoding) (bitWidth numValues : Nat)
    (bytes : Bytes) : Except Failure (List (BitVec 16) × Bytes) :=
  match encoding with
  | .bitPacked => do
      let decoded ← reporting "Failed to decode BIT_PACKED levels"
        (decodeBitpackedLevels bytes bitWidth numValues)
      return (decoded.1, bytes.drop decoded.2)
  | .rle => do
      if bytes.length < 4 then
        throw ⟨.decode, "Truncated levels"⟩
      let size := littleEndian (bytes.take 4)
      let rest := bytes.drop 4
      if rest.length < size then
        throw ⟨.decode, "Invalid level size"⟩
      let levels ← reporting "Failed to decode RLE levels"
        (decodeLevelsRle kernels wide (rest.take size) bitWidth numValues)
      return (levels, rest.drop size)

/-- The levels of a page and the bytes of its values. -/
structure PageLevels where
  repLevels : List (BitVec 16)
  defLevels : List (BitVec 16)
  values : Bytes
deriving DecidableEq

/-- One kind of level: a section, or a fixed level in a column that does not have the
kind. -/
def readLevelKind (encoding : LevelEncoding) (maxLevel numValues : Nat) (fixed : BitVec 16)
    (page : Bytes) : Except Failure (List (BitVec 16) × Bytes) :=
  if 0 < maxLevel then
    decodeV1LevelSection kernels wide encoding (bitWidthForMax maxLevel) numValues page
  else
    .ok (List.replicate numValues fixed, page)

/-- The level sections of `carquet_read_data_page_v1`. -/
def readLevelsV1 (config : LevelConfig) (repEncoding defEncoding : LevelEncoding)
    (numValues : Nat) (page : Bytes) : Except Failure PageLevels := do
  let rep ← readLevelKind kernels wide repEncoding config.maxRepLevel numValues 0 page
  let defs ← readLevelKind kernels wide defEncoding config.maxDefLevel numValues
    (BitVec.ofNat 16 config.maxDefLevel) rep.2
  return ⟨rep.1, defs.1, defs.2⟩

end Reading

section Widths

theorem lt_two_pow_widthLoop (val : Nat) : val < 2 ^ widthLoop val := by
  fun_induction widthLoop val with
  | case1 val _ ih =>
      have hhalf := Nat.shiftRight_one val
      rw [Nat.pow_succ]
      omega
  | case2 val hzero =>
      omega

theorem widthLoop_le
    {val bound : Nat}
    (hval : val < 2 ^ bound) :
    widthLoop val ≤ bound := by
  fun_induction widthLoop val generalizing bound with
  | case1 val hpos ih =>
      cases bound with
      | zero =>
          omega
      | succ bound =>
          rw [Nat.pow_succ] at hval
          have := ih (show val >>> 1 < 2 ^ bound by rw [Nat.shiftRight_one]; omega)
          omega
  | case2 val _ =>
      exact Nat.zero_le bound

/-- Levels up to the highest fit the width. -/
theorem lt_two_pow_bitWidthForMax
    {level maxLevel : Nat}
    (hmax : 0 < maxLevel)
    (hlevel : level ≤ maxLevel) :
    level < 2 ^ bitWidthForMax maxLevel := by
  rw [bitWidthForMax, if_neg hmax.ne']
  exact lt_of_le_of_lt hlevel (lt_two_pow_widthLoop maxLevel)

theorem bitWidthForMax_bounds
    {maxLevel : Nat}
    (hmax : 0 < maxLevel)
    (hrange : maxLevel < 2 ^ 15) :
    0 < bitWidthForMax maxLevel ∧ bitWidthForMax maxLevel ≤ 15 := by
  rw [bitWidthForMax, if_neg hmax.ne']
  refine ⟨?_, widthLoop_le hrange⟩
  rw [widthLoop, dif_pos hmax]
  exact Nat.succ_pos _

end Widths

section Streams

variable {maxLevel : Nat}

/-- The levels that are meant: those given, or the highest one in every place. -/
def meantLevels (maxLevel count : Nat) (levels : Option (List (BitVec 16))) :
    List (BitVec 16) :=
  if maxLevel = 0 then List.replicate count 0
  else levels.getD (List.replicate count (BitVec.ofNat 16 maxLevel))

/-- The buffer of one kind of level holds these levels. -/
def HoldsLevels (maxLevel : Nat) (buffer : Bytes) (levels : List (BitVec 16)) : Prop :=
  if maxLevel = 0 then
    buffer = [] ∧ levels = List.replicate levels.length 0
  else
    stream (bitWidthForMax maxLevel) buffer = (levels.map (BitVec.setWidth 32), .ok)

/-- A level that is not negative is widened without a change. -/
theorem signExtend_level
    {level : BitVec 16}
    (hlevel : level.toNat < 2 ^ 15) :
    level.signExtend 32 = level.setWidth 32 := by
  apply BitVec.signExtend_eq_setWidth_of_msb_false
  rw [BitVec.msb_eq_decide]
  simpa using hlevel

theorem LevelsIn.map_signExtend
    {count : Nat} {levels : List (BitVec 16)}
    (h : LevelsIn count maxLevel levels) (hrange : maxLevel < 2 ^ 15) :
    levels.map (BitVec.signExtend 32) = levels.map (BitVec.setWidth 32) := by
  apply List.map_congr_left
  intro level hlevel
  exact signExtend_level (lt_of_le_of_lt (h.range level hlevel) hrange)

theorem LevelsIn.encodable
    {count : Nat} {levels : List (BitVec 16)}
    (h : LevelsIn count maxLevel levels)
    (hmax : 0 < maxLevel) (hrange : maxLevel < 2 ^ 15) (hcount : count < 2 ^ 31) :
    RleEncodable (bitWidthForMax maxLevel) (levels.map (BitVec.setWidth 32)) where
  narrow := by
    have := (bitWidthForMax_bounds hmax hrange).2
    omega
  fit value hvalue := by
    obtain ⟨level, hlevel, rfl⟩ := List.mem_map.mp hvalue
    refine lt_of_le_of_lt ?_ (lt_two_pow_bitWidthForMax hmax (h.range level hlevel))
    rw [BitVec.toNat_setWidth]
    exact Nat.mod_le _ _
  short := by
    rw [List.length_map, h.length]
    exact hcount

theorem meantLevels_in
    {count : Nat} {levels : Option (List (BitVec 16))}
    (hlevels : ∀ given, levels = some given → LevelsIn count maxLevel given) :
    LevelsIn count maxLevel (meantLevels maxLevel count levels) := by
  rw [meantLevels]
  split_ifs with hzero
  · refine ⟨List.length_replicate, fun level hlevel => ?_⟩
    rw [List.eq_of_mem_replicate hlevel]
    exact Nat.zero_le maxLevel
  · cases levels with
    | none =>
        refine ⟨List.length_replicate, fun level hlevel => ?_⟩
        rw [List.eq_of_mem_replicate hlevel, BitVec.toNat_ofNat]
        exact Nat.mod_le _ _
    | some given =>
        exact hlevels given rfl

/-- A call's levels go behind those in the buffer. -/
theorem HoldsLevels.encode
    {buffer bytes : Bytes} {before : List (BitVec 16)} {count : Nat}
    {levels : Option (List (BitVec 16))}
    (hbuffer : HoldsLevels maxLevel buffer before)
    (hlevels : ∀ given, levels = some given → LevelsIn count maxLevel given)
    (hmax : 0 < maxLevel) (hrange : maxLevel < 2 ^ 15) (hcount : count < 2 ^ 31)
    (h : encodeLevels levels count maxLevel buffer false = .ok bytes) :
    HoldsLevels maxLevel bytes (before ++ meantLevels maxLevel count levels) := by
  rw [HoldsLevels, if_neg hmax.ne'] at hbuffer ⊢
  simp only [encodeLevels, if_neg hmax.ne', Bool.false_eq_true, if_false] at h
  split_ifs at h
  have hbytes := Except.ok.inj h
  subst hbytes
  have hmeant := meantLevels_in hlevels
  rw [meantLevels, if_neg hmax.ne'] at hmeant ⊢
  have hencodable := hmeant.encodable hmax hrange hcount
  rw [List.map_append]
  cases levels with
  | none =>
      have hvalues : [RlePut.putRepeat (BitVec.ofNat 32 maxLevel) count].flatMap RlePut.values =
          (List.replicate count (BitVec.ofNat 16 maxLevel)).map (BitVec.setWidth 32) := by
        have hlevel : (BitVec.ofNat 16 maxLevel).setWidth 32 = BitVec.ofNat 32 maxLevel := by
          apply BitVec.eq_of_toNat_eq
          simp only [BitVec.toNat_setWidth, BitVec.toNat_ofNat]
          omega
        simp [RlePut.values, hlevel]
      have hstream := RleEncoder.stream_encoded hbuffer _ (hvalues ▸ hencodable)
      rw [hvalues] at hstream
      exact hstream
  | some given =>
      have hgiven := hlevels given rfl
      simp only [rleEncodeLevels, ← hgiven.length, List.take_length, Option.getD_some,
        hgiven.map_signExtend hrange]
      exact stream_rleEncodeAll hbuffer hencodable

/-- Where there are levels there are bytes. -/
theorem HoldsLevels.ne_nil
    {buffer : Bytes} {levels : List (BitVec 16)}
    (h : HoldsLevels maxLevel buffer levels)
    (hmax : 0 < maxLevel) (hlevels : 0 < levels.length) :
    buffer ≠ [] := by
  rintro rfl
  rw [HoldsLevels, if_neg hmax.ne', stream_nil, Prod.mk.injEq, List.nil_eq,
    List.map_eq_nil_iff] at h
  rw [h.1] at hlevels
  exact absurd hlevels (Nat.lt_irrefl 0)

theorem HoldsLevels.decode
    (kernels : Kernels) (wide : WideKernels)
    {buffer : Bytes} {levels : List (BitVec 16)}
    (h : HoldsLevels maxLevel buffer levels)
    (hmax : 0 < maxLevel) (hrange : maxLevel < 2 ^ 15) :
    decodeLevelsRle kernels wide buffer (bitWidthForMax maxLevel) levels.length =
      .ok levels := by
  obtain ⟨hpos, hwidth⟩ := bitWidthForMax_bounds hmax hrange
  rw [HoldsLevels, if_neg hmax.ne'] at h
  have hcut : (levels.map (BitVec.setWidth 32)).map (BitVec.setWidth 16) = levels := by
    rw [List.map_map]
    refine List.map_id'' (fun level => ?_) levels
    rw [Function.comp_apply, BitVec.setWidth_setWidth_of_le _ (by norm_num),
      BitVec.setWidth_eq]
  have hdecoded : rleDecodeLevels kernels wide buffer (bitWidthForMax maxLevel)
      (levels.length : ℤ) = levels := by
    rw [rleDecodeLevels_eq kernels wide (by omega) (.inr (by rw [h])), h, Int.toNat_natCast,
      List.take_of_length_le (by rw [List.length_map]), hcut]
  rw [decodeLevelsRle, if_neg hpos.ne', hdecoded, if_neg (by simp)]

end Streams

section Sections

/-- A section as it stands in a page. -/
def levelSection (levels : Bytes) : Bytes :=
  if levels.length = 0 then [] else leBytes 4 (levels.length % 2 ^ 32) ++ levels

/-- A page is its sections and its values. -/
theorem buildPagePayload_eq (parts : PageParts) :
    buildPagePayload parts =
      levelSection parts.repLevels ++ (levelSection parts.defLevels ++ parts.values) := by
  obtain ⟨rep, defs, values⟩ := parts
  have hvalues : ∀ front : Bytes,
      (if 0 < values.length then front ++ values else front) = front ++ values := by
    intro front
    split_ifs with hsome
    · rfl
    · obtain rfl : values = [] := List.eq_nil_of_length_eq_zero (by omega)
      rw [List.append_nil]
  rw [buildPagePayload]
  simp only [hvalues]
  simp only [levelSection, appendV1LevelSection, Nat.pos_iff_ne_zero]
  by_cases hrep : rep.length = 0 <;> by_cases hdefs : defs.length = 0 <;> simp [hrep, hdefs]

variable {maxLevel : Nat}

/-- A section is read up to its end. -/
theorem HoldsLevels.decodeSection
    (kernels : Kernels) (wide : WideKernels)
    {buffer : Bytes} {levels : List (BitVec 16)}
    (h : HoldsLevels maxLevel buffer levels)
    (hmax : 0 < maxLevel) (hrange : maxLevel < 2 ^ 15)
    (hlevels : 0 < levels.length) (hshort : buffer.length < 2 ^ 32) (rest : Bytes) :
    decodeV1LevelSection kernels wide .rle (bitWidthForMax maxLevel) levels.length
        (levelSection buffer ++ rest) =
      .ok (levels, rest) := by
  have hsome : buffer.length ≠ 0 := by
    simpa using h.ne_nil hmax hlevels
  have hlength := length_leBytes 4 (buffer.length % 2 ^ 32)
  have hsize : littleEndian (leBytes 4 (buffer.length % 2 ^ 32)) = buffer.length := by
    rw [Nat.mod_eq_of_lt hshort]
    exact littleEndian_leBytes_of_lt (by norm_num; omega)
  rw [levelSection, if_neg hsome, List.append_assoc, decodeV1LevelSection]
  simp only [List.take_left' hlength, List.drop_left' hlength, hsize, List.take_left,
    List.drop_left, List.length_append, hlength]
  rw [if_neg (by omega), if_neg (by omega), h.decode kernels wide hmax hrange]
  rfl

/-- One kind of level, whether the column has it or not. -/
theorem HoldsLevels.read
    (kernels : Kernels) (wide : WideKernels)
    {buffer : Bytes} {levels : List (BitVec 16)}
    (h : HoldsLevels maxLevel buffer levels)
    (hrange : maxLevel < 2 ^ 15)
    (hlevels : 0 < levels.length) (hshort : buffer.length < 2 ^ 32)
    {fixed : BitVec 16} (hfixed : maxLevel = 0 → fixed = 0) (rest : Bytes) :
    readLevelKind kernels wide .rle maxLevel levels.length fixed
        (levelSection buffer ++ rest) =
      .ok (levels, rest) := by
  rw [readLevelKind]
  split_ifs with hmax
  · exact h.decodeSection kernels wide hmax hrange hlevels hshort rest
  · obtain rfl : maxLevel = 0 := by
      omega
    rw [HoldsLevels, if_pos rfl] at h
    obtain ⟨rfl, hzeros⟩ := h
    rw [hfixed rfl, ← hzeros]
    rfl

end Sections

section RoundTrip

variable {config : LevelConfig}

/-- The definition levels of a call. -/
def LevelCall.defs (call : LevelCall config) : List (BitVec 16) :=
  meantLevels config.maxDefLevel call.count call.defLevels

/-- The repetition levels of a call. -/
def LevelCall.reps (call : LevelCall config) : List (BitVec 16) :=
  meantLevels config.maxRepLevel call.count call.repLevels

theorem LevelCall.length_defs (call : LevelCall config) : call.defs.length = call.count :=
  (meantLevels_in call.defIn).length

theorem LevelCall.length_reps (call : LevelCall config) : call.reps.length = call.count :=
  (meantLevels_in call.repIn).length

/-- Both buffers of a page hold the levels of the calls so far. -/
structure PageParts.Holds (config : LevelConfig) (parts : PageParts)
    (reps defs : List (BitVec 16)) : Prop where
  reps : HoldsLevels config.maxRepLevel parts.repLevels reps
  defs : HoldsLevels config.maxDefLevel parts.defLevels defs

/-- A kind of level the column does not have. -/
theorem HoldsLevels.skip
    {maxLevel count : Nat} {buffer : Bytes} {before : List (BitVec 16)}
    {levels : Option (List (BitVec 16))}
    (h : HoldsLevels maxLevel buffer before)
    (hmax : ¬ 0 < maxLevel) :
    HoldsLevels maxLevel buffer (before ++ meantLevels maxLevel count levels) := by
  obtain rfl : maxLevel = 0 := by
    omega
  rw [HoldsLevels, if_pos rfl] at h ⊢
  refine ⟨h.1, ?_⟩
  rw [meantLevels, if_pos rfl, List.length_append, List.length_replicate, List.replicate_add]
  rw [← h.2]

/-- A call adds its levels to both buffers. -/
theorem PageParts.Holds.addLevels
    {parts parts' : PageParts} {reps defs : List (BitVec 16)} {call : LevelCall config}
    (h : parts.Holds config reps defs)
    (hcount : call.count < 2 ^ 31)
    (hadd : addLevels call parts = .ok parts') :
    parts'.Holds config (reps ++ call.reps) (defs ++ call.defs) ∧
      parts'.values = parts.values := by
  simp only [Page.addLevels, bind_eq_ok_iff, pure_eq_ok, Except.ok.injEq] at hadd
  obtain ⟨defLevels, hdefs, repLevels, hreps, rfl⟩ := hadd
  refine ⟨⟨?_, ?_⟩, rfl⟩
  · rw [addRepLevels] at hreps
    split_ifs at hreps with hgiven
    · exact h.reps.encode call.repIn hgiven.1 config.repRange hcount hreps
    · cases hreps
      exact h.reps.skip fun hmax => hgiven ⟨hmax, call.repGiven hmax⟩
  · rw [addDefLevels] at hdefs
    split_ifs at hdefs with hmax
    · exact h.defs.encode call.defIn hmax config.defRange hcount hdefs
    · cases hdefs
      exact h.defs.skip hmax

/-- So do any calls in a row. -/
theorem PageParts.Holds.addAllLevels
    {parts parts' : PageParts} {reps defs : List (BitVec 16)} {calls : List (LevelCall config)}
    (h : parts.Holds config reps defs)
    (hcounts : ∀ call ∈ calls, call.count < 2 ^ 31)
    (hadd : addAllLevels calls parts = .ok parts') :
    parts'.Holds config (reps ++ calls.flatMap LevelCall.reps)
        (defs ++ calls.flatMap LevelCall.defs) ∧
      parts'.values = parts.values := by
  induction calls generalizing parts reps defs with
  | nil =>
      cases hadd
      simpa using h
  | cons call rest ih =>
      rw [Page.addAllLevels, List.foldlM_cons, bind_eq_ok_iff] at hadd
      obtain ⟨middle, hfirst, hrest⟩ := hadd
      obtain ⟨hmiddle, hvalues⟩ := h.addLevels (hcounts call (by simp)) hfirst
      obtain ⟨hend, hvalues'⟩ := ih hmiddle (fun call hcall => hcounts call (by simp [hcall])) hrest
      rw [List.flatMap_cons, List.flatMap_cons, ← List.append_assoc, ← List.append_assoc]
      exact ⟨hend, hvalues'.trans hvalues⟩

/-- A page without levels. -/
theorem PageParts.holds_empty (config : LevelConfig) (values : Bytes) :
    PageParts.Holds config ⟨[], [], values⟩ [] [] := by
  refine ⟨?_, ?_⟩ <;> rw [HoldsLevels] <;> split_ifs <;> simp

/-- The sections of a page give back the levels its buffers hold, and the reader stands at
the values. -/
theorem PageParts.Holds.readLevelsV1
    (kernels : Kernels) (wide : WideKernels)
    {parts : PageParts} {reps defs : List (BitVec 16)}
    (h : parts.Holds config reps defs)
    (hsome : 0 < defs.length) (hlength : reps.length = defs.length)
    (hrep : parts.repLevels.length < 2 ^ 32) (hdef : parts.defLevels.length < 2 ^ 32) :
    Page.readLevelsV1 kernels wide config .rle .rle defs.length (buildPagePayload parts) =
      .ok ⟨reps, defs, parts.values⟩ := by
  have hreadRep := h.reps.read kernels wide config.repRange (hlength ▸ hsome) hrep
    (fun _ => rfl) (levelSection parts.defLevels ++ parts.values)
  have hfixed : config.maxDefLevel = 0 → BitVec.ofNat 16 config.maxDefLevel = 0 := by
    intro hzero
    rw [hzero]
    rfl
  have hreadDef := h.defs.read kernels wide config.defRange hsome hdef hfixed parts.values
  rw [hlength] at hreadRep
  rw [Page.readLevelsV1, buildPagePayload_eq, hreadRep]
  change (readLevelKind kernels wide .rle config.maxDefLevel _ _
    (levelSection parts.defLevels ++ parts.values) >>= _) = _
  rw [hreadDef]
  rfl

/-- The levels of a page come back as one row, whichever way they were handed over, and
the reader stands at the values. It is enough that there is a level, that the calls stay
below the range of the run lengths, and that each buffer's length fits its prefix. -/
theorem page_levels_round_trip
    (kernels : Kernels) (wide : WideKernels)
    (calls : List (LevelCall config)) (values : Bytes) {parts : PageParts}
    (hadd : addAllLevels calls ⟨[], [], values⟩ = .ok parts)
    (hsome : 0 < (calls.map LevelCall.count).sum)
    (hcounts : ∀ call ∈ calls, call.count < 2 ^ 31)
    (hrep : parts.repLevels.length < 2 ^ 32) (hdef : parts.defLevels.length < 2 ^ 32) :
    readLevelsV1 kernels wide config .rle .rle (calls.map LevelCall.count).sum
        (buildPagePayload parts) =
      .ok ⟨calls.flatMap LevelCall.reps, calls.flatMap LevelCall.defs, values⟩ := by
  obtain ⟨hholds, hvalues⟩ := (PageParts.holds_empty config values).addAllLevels hcounts hadd
  rw [List.nil_append, List.nil_append] at hholds
  have hreps : (calls.flatMap LevelCall.reps).length = (calls.map LevelCall.count).sum := by
    simp only [List.length_flatMap, LevelCall.length_reps]
  have hdefs : (calls.flatMap LevelCall.defs).length = (calls.map LevelCall.count).sum := by
    simp only [List.length_flatMap, LevelCall.length_defs]
  have hread := hholds.readLevelsV1 kernels wide (hdefs ▸ hsome) (hreps.trans hdefs.symm)
    hrep hdef
  rwa [hdefs, hvalues] at hread

/-- A column that is optional and not repeated. -/
def optionalColumn : LevelConfig :=
  ⟨1, 0, by norm_num, by norm_num⟩

/-- Nine present rows, without levels. -/
def nineRows : LevelCall optionalColumn where
  count := 9
  defLevels := none
  repLevels := none
  defIn := by rintro _ ⟨⟩
  repIn := by rintro _ ⟨⟩
  repGiven := by rintro ⟨⟩

/-- Two rows, one of them absent. -/
def twoRows : LevelCall optionalColumn where
  count := 2
  defLevels := some [0, 1]
  repLevels := none
  defIn := by
    rintro _ ⟨⟩
    exact ⟨rfl, by simp [optionalColumn]⟩
  repIn := by rintro _ ⟨⟩
  repGiven := by rintro ⟨⟩

theorem bitWidthForMax_one : bitWidthForMax 1 = 1 := by
  rw [bitWidthForMax, if_neg one_ne_zero, widthLoop, dif_pos one_pos, widthLoop,
    dif_neg (by decide)]

theorem addDefLevels_nineRows : addDefLevels nineRows [] = .ok [18, 1] := by
  simp [addDefLevels, nineRows, optionalColumn, encodeLevels, bitWidthForMax_one,
    RleEncoder.init, RleEncoder.putRepeat, RleEncoder.flush, RleEncoder.flushRle,
    RleEncoder.flushBitpack, rleRun, runHeader, valueBytes, leBytes, writeVarint_of_lt]

theorem addDefLevels_twoRows : addDefLevels twoRows [18, 1] = .ok [18, 1, 2, 0, 2, 1] := by
  simp [addDefLevels, twoRows, optionalColumn, encodeLevels, bitWidthForMax_one,
    rleEncodeLevels, rleEncodeAll, RleEncoder.init, RleEncoder.put, RleEncoder.closeRun,
    RleEncoder.bufferRun, RleEncoder.bufferValues, RleEncoder.bufferValue, RleEncoder.flushRest,
    RleEncoder.flush, RleEncoder.flushBitpack, RleEncoder.flushBitpackAsRle,
    partialRuns, rleRun, runHeader, valueBytes, leBytes, writeVarint_of_lt]

/-- Two calls of an optional column and two bytes of values. -/
theorem page_levels_round_trip_optional :
    ∃ (kernels : Kernels) (wide : WideKernels),
      readLevelsV1 kernels wide optionalColumn .rle .rle 11
          (buildPagePayload ⟨[], [18, 1, 2, 0, 2, 1], [7, 8]⟩) =
        .ok ⟨List.replicate 11 0, List.replicate 9 1 ++ [0, 1], [7, 8]⟩ := by
  have hadd : addAllLevels [nineRows, twoRows] ⟨[], [], [7, 8]⟩ =
      .ok ⟨[], [18, 1, 2, 0, 2, 1], [7, 8]⟩ := by
    simp only [addAllLevels, List.foldlM_cons, List.foldlM_nil, addLevels,
      addDefLevels_nineRows]
    change (addDefLevels twoRows [18, 1] >>= _) >>= _ = _
    rw [addDefLevels_twoRows]
    rfl
  refine ⟨⟨fun _ => none, by rintro _ _ ⟨⟩⟩, ⟨fun _ => none, by rintro _ _ _ ⟨⟩⟩, ?_⟩
  exact page_levels_round_trip _ _ [nineRows, twoRows] [7, 8] hadd (by simp [nineRows])
    (by simp [nineRows, twoRows]) (by norm_num) (by norm_num)

end RoundTrip

end Page
end QioParquet
