import QioParquet.Page.TextReader
import QioParquet.Read.TextValidity
import Mathlib.Tactic

/-!
# Loading a page that was stored

A page that the writer stored is loaded if and only if it keeps within the reader's limits:
256 MiB for the payload, before and after the codec, and, unless the file is mapped, 256 MiB
for the header, which holds the smallest and the largest string of the page in full. The
writer has no such limits. The sizes are assumed to stay below the 4 GiB at which the header
would no longer hold them.
-/

namespace QioParquet
namespace Page

open Lib Read Encoding

section Formats

/-- What is stored comes back: a header in front of anything, and no header from a part of
one; and a payload, through the codec. -/
structure PageFormat.ReadsBack (fmt : PageFormat) : Prop where
  header : ∀ (page : StoredPage) (rest : Bytes),
    fmt.parse (page.headerBytes fmt ++ rest) =
      .ok (page.header fmt, (page.headerBytes fmt).length)
  cut : ∀ (page : StoredPage) (n : Nat), n < (page.headerBytes fmt).length →
    fmt.parse ((page.headerBytes fmt).take n) = .error .truncated
  payload : ∀ bytes compressed, fmt.compress bytes = .ok compressed →
    fmt.decompress compressed bytes.length = .ok bytes
  filled : ∀ bytes, bytes ≠ [] → fmt.compress bytes ≠ .ok []

/-- The page keeps within what the reader accepts. -/
structure StoredPage.WithinCaps (src : PageSource) (page : StoredPage) : Prop where
  payload : page.payload.length ≤ maxPagePayloadSize
  compressed : page.compressed.length ≤ maxPagePayloadSize
  header : src.mapped = true ∨ (page.headerBytes src.format).length ≤ maxPagePayloadSize

/-- The sizes of the page fit the 32 bits of the header. -/
structure StoredPage.Sized (page : StoredPage) : Prop where
  payload : page.payload.length < 2 ^ 32
  compressed : page.compressed.length < 2 ^ 32
  count : page.numValues < 2 ^ 31

instance decidableWithinCaps
    (src : PageSource) (page : StoredPage) :
    Decidable (page.WithinCaps src) :=
  decidable_of_iff (page.payload.length ≤ maxPagePayloadSize ∧
      page.compressed.length ≤ maxPagePayloadSize ∧
      (src.mapped = true ∨ (page.headerBytes src.format).length ≤ maxPagePayloadSize))
    ⟨fun h => ⟨h.1, h.2.1, h.2.2⟩, fun h => ⟨h.payload, h.compressed, h.header⟩⟩

instance decidableSized
    (page : StoredPage) :
    Decidable page.Sized :=
  decidable_of_iff (page.payload.length < 2 ^ 32 ∧ page.compressed.length < 2 ^ 32 ∧
      page.numValues < 2 ^ 31)
    ⟨fun h => ⟨h.1, h.2.1, h.2.2⟩, fun h => ⟨h.payload, h.compressed, h.count⟩⟩

theorem StoredPage.WithinCaps.sized
    {src : PageSource} {page : StoredPage}
    (h : page.WithinCaps src) (hcount : page.numValues < 2 ^ 31) :
    page.Sized where
  payload := by
    have := h.payload
    rw [maxPagePayloadSize] at this
    omega
  compressed := by
    have := h.compressed
    rw [maxPagePayloadSize] at this
    omega
  count := hcount

theorem asInt32_of_lt
    {size : Nat}
    (h : size < 2 ^ 31) :
    asInt32 size = size := by
  rw [asInt32, BitVec.toInt_eq_toNat_of_lt, BitVec.toNat_ofNat, Nat.mod_eq_of_lt]
  · omega
  · rw [BitVec.toNat_ofNat]
    omega

/-- A size is in the range of the reader if and only if its `int32_t` is. -/
theorem asInt32_in_range
    {size limit : Nat}
    (hsize : size < 2 ^ 32) (hlimit : limit < 2 ^ 31) :
    (asInt32 size < 0 ∨ (limit : ℤ) < asInt32 size) ↔ limit < size := by
  rcases Nat.lt_or_ge size (2 ^ 31) with hsmall | hlarge
  · rw [asInt32_of_lt hsmall]
    omega
  · have hneg : asInt32 size < 0 := by
      rw [asInt32, BitVec.toInt_eq_toNat_cond, BitVec.toNat_ofNat, Nat.mod_eq_of_lt hsize]
      split_ifs <;> omega
    constructor
    · omega
    · exact fun _ => .inl hneg

end Formats

section Headers

variable {fmt : PageFormat} {page : StoredPage}

/-- The windows find a header that is not larger than the last of them. -/
theorem readHeaderWindow_eq
    (hfmt : fmt.ReadsBack) {rest : Bytes} (hrest : 8 ≤ rest.length)
    {turns cap : Nat}
    (hcap : 8 ≤ cap) (hmax : cap ≤ maxPagePayloadSize)
    (hturns : maxPagePayloadSize ≤ cap * 4 ^ turns) :
    readHeaderWindow fmt (page.headerBytes fmt ++ rest) (turns + 1) cap =
      if (page.headerBytes fmt).length ≤ maxPagePayloadSize then
        some (page.header fmt, (page.headerBytes fmt).length)
      else
        none := by
  induction turns generalizing cap with
  | zero =>
      rw [pow_zero, Nat.mul_one] at hturns
      obtain rfl : cap = maxPagePayloadSize := by
        omega
      have hwindow : ¬ ((page.headerBytes fmt ++ rest).take maxPagePayloadSize).length < 8 := by
        rw [List.length_take, List.length_append]
        omega
      rw [readHeaderWindow, if_neg hwindow]
      by_cases hfits : (page.headerBytes fmt).length ≤ maxPagePayloadSize
      · rw [List.take_append, List.take_of_length_le hfits, hfmt.header, if_pos hfits]
      · rw [List.take_append_of_le_length (by omega), hfmt.cut page _ (by omega), if_neg hfits]
        simp
  | succ turns ih =>
      have hwindow : ¬ ((page.headerBytes fmt ++ rest).take cap).length < 8 := by
        rw [List.length_take, List.length_append]
        omega
      rw [readHeaderWindow, if_neg hwindow]
      by_cases hfits : (page.headerBytes fmt).length ≤ cap
      · rw [List.take_append, List.take_of_length_le hfits, hfmt.header,
          if_pos (hfits.trans hmax)]
      · have htake : (page.headerBytes fmt ++ rest).take cap =
            (page.headerBytes fmt).take cap :=
          List.take_append_of_le_length (by omega)
        have hlength : ((page.headerBytes fmt).take cap).length = cap := by
          rw [List.length_take]
          omega
        have hnext : maxPagePayloadSize ≤ min (cap * 4) maxPagePayloadSize * 4 ^ turns := by
          rcases le_total (cap * 4) maxPagePayloadSize with hle | hge
          · rw [min_eq_left hle, Nat.mul_assoc, ← pow_succ']
            exact hturns
          · rw [min_eq_right hge]
            exact Nat.le_mul_of_pos_right _ (by positivity)
        simp only [htake, hfmt.cut page cap (by omega), hlength, ne_eq, not_true_eq_false,
          lt_irrefl, false_or]
        by_cases hlast : maxPagePayloadSize ≤ cap
        · rw [if_pos hlast, if_neg (by omega)]
        · rw [if_neg hlast]
          exact ih (by omega) (min_le_right _ _) hnext

variable {src : PageSource}

/-- The header of a stored page is found unless it is too large for the windows. -/
theorem readPageHeader_stored
    (hfmt : src.format.ReadsBack) (page : StoredPage) {rest : Bytes}
    (hrest : 8 ≤ rest.length) :
    readPageHeader src (page.bytes src.format ++ rest) =
      if src.mapped = true ∨ (page.headerBytes src.format).length ≤ maxPagePayloadSize then
        some (page.header src.format, (page.headerBytes src.format).length)
      else
        none := by
  have hbehind : 8 ≤ (page.compressed ++ rest).length := by
    rw [List.length_append]
    omega
  rw [readPageHeader, StoredPage.bytes, List.append_assoc]
  cases hmapped : src.mapped with
  | true =>
      simp [hfmt.header, Except.toOption]
  | false =>
      rw [if_neg Bool.false_ne_true, readHeaderWindow_eq hfmt hbehind (by norm_num)
        (by norm_num [maxPagePayloadSize]) (by norm_num [maxPagePayloadSize])]
      simp

/-- The payload of a page within the limits. -/
theorem loadPayload_stored
    (hfmt : src.format.ReadsBack)
    (hstored : src.format.compress page.payload = .ok page.compressed)
    (hcaps : page.WithinCaps src) (rest : Bytes) :
    loadPayload src (page.bytes src.format ++ rest) (page.header src.format)
        (page.headerBytes src.format).length = some page.payload ∧
      (page.bytes src.format ++ rest).drop ((page.headerBytes src.format).length +
        (page.header src.format).compressedSize.toNat) = rest := by
  have hpayload := hcaps.payload
  have hcompressed := hcaps.compressed
  rw [maxPagePayloadSize] at hpayload hcompressed
  have hlength : (page.header src.format).compressedSize.toNat = page.compressed.length :=
    congrArg Int.toNat (asInt32_of_lt (by omega))
  have hsize : (page.header src.format).uncompressedSize.toNat = page.payload.length :=
    congrArg Int.toNat (asInt32_of_lt (by omega))
  have hbytes : page.bytes src.format ++ rest =
      page.headerBytes src.format ++ (page.compressed ++ rest) := by
    rw [StoredPage.bytes, List.append_assoc]
  have hspan : ¬ (page.headerBytes src.format ++ (page.compressed ++ rest)).length <
      (page.headerBytes src.format).length + page.compressed.length := by
    rw [List.length_append, List.length_append]
    omega
  constructor
  · rw [loadPayload, hlength, hsize, hbytes, List.drop_left, List.take_left, if_neg hspan]
    simp [StoredPage.header, hfmt.payload _ _ hstored, Except.toOption]
  · rw [hlength, hbytes, ← List.drop_drop, List.drop_left, List.drop_left]

/-- The sizes of a stored page are accepted if and only if they keep within the limits. -/
theorem validatePagePayloadSize_stored
    (fmt : PageFormat) (hsized : page.Sized) (hcount : 0 < page.numValues)
    {allowEmpty : Bool} (hfilled : allowEmpty = true ∨ page.compressed ≠ []) :
    validatePagePayloadSize (page.header fmt) allowEmpty = true ↔
      page.payload.length ≤ maxPagePayloadSize ∧
        page.compressed.length ≤ maxPagePayloadSize := by
  have hlimit : maxPagePayloadSize < 2 ^ 31 := by
    norm_num [maxPagePayloadSize]
  have hpayload := asInt32_in_range hsized.payload hlimit
  have hcompressed := asInt32_in_range hsized.compressed hlimit
  have hvalues : asInt32 page.numValues = page.numValues := asInt32_of_lt hsized.count
  have hsome : ¬ (allowEmpty = false ∧ asInt32 page.compressed.length = 0) := by
    rintro ⟨hallow, hzero⟩
    have hempty : page.compressed.length = 0 := by
      by_contra hne
      have := asInt32_in_range hsized.compressed (Nat.two_pow_pos 31)
      omega
    rcases hfilled with hallow' | hne
    · rw [hallow] at hallow'
      cases hallow'
    · exact hne (List.eq_nil_of_length_eq_zero hempty)
  rw [validatePagePayloadSize]
  simp only [StoredPage.header, hvalues]
  split_ifs with hbad <;>
    rw [or_left_comm, or_iff_right hsome, ← or_assoc, hcompressed, hpayload] at hbad
  · constructor
    · rintro ⟨⟩
    · omega
  · refine iff_of_true ?_ (by omega)
    cases page.kind <;> simp only [decide_eq_true_eq] <;> omega

end Headers

section Rows

/-- A row as it is loaded: its level, and its string. -/
def loadedRow (nullable : Bool) (row : TextRow) : Nat × TextRow :=
  (if nullable then (rowLevel row).toNat else 0, row)

/-- The definition levels of some rows. -/
def levelsOf (nullable : Bool) (rows : List TextRow) : List (BitVec 16) :=
  rows.map fun row => if nullable then rowLevel row else 0

/-- Only a nullable column has rows without a value. -/
def Dense (nullable : Bool) (rows : List TextRow) : Prop :=
  nullable = true ∨ ∀ row ∈ rows, row.isSome

theorem levelCall_defs
    (nullable : Bool) (rows : List TextRow) :
    (levelCall nullable rows).defs = levelsOf nullable rows ∧
      (levelCall nullable rows).reps = rows.map fun _ => 0 := by
  cases nullable <;>
    simp [LevelCall.defs, LevelCall.reps, meantLevels, levelCall, flatColumn, levelsOf]

theorem count_levels
    {nullable : Bool} {rows : List TextRow}
    (hdense : Dense nullable rows) :
    ((levelsOf nullable rows).map BitVec.toNat).count (flatColumn nullable).maxDefLevel =
      rows.reduceOption.length := by
  induction rows with
  | nil =>
      rfl
  | cons row rows ih =>
      have hrest : Dense nullable rows :=
        hdense.imp_right fun h row hrow => h row (List.mem_cons_of_mem _ hrow)
      specialize ih hrest
      rw [levelsOf] at ih
      cases row with
      | none =>
          rcases hdense with rfl | hall
          · simpa [levelsOf, rowLevel, flatColumn, List.reduceOption_cons_of_none] using ih
          · simp at hall
      | some string =>
          cases nullable <;>
            simpa [levelsOf, rowLevel, flatColumn, List.reduceOption_cons_of_some] using ih

/-- A slot stands for a row: its level, and a value in the relation to its string. -/
def LoadedAs {β : Type} (R : β → Bytes → Prop) (nullable : Bool) (slot : Nat × Option β)
    (row : TextRow) : Prop :=
  slot.1 = (loadedRow nullable row).1 ∧ Option.Rel R slot.2 row

/-- Dense values go back to their rows. -/
theorem spreadValues_loadedAs
    {β : Type} {R : β → Bytes → Prop} {nullable : Bool} {rows : List TextRow} {values : List β}
    (hdense : Dense nullable rows) (hvalues : List.Forall₂ R values rows.reduceOption) :
    List.Forall₂ (LoadedAs R nullable)
      (spreadValues (flatColumn nullable).maxDefLevel
        ((levelsOf nullable rows).map BitVec.toNat) values) rows := by
  induction rows generalizing values with
  | nil =>
      exact .nil
  | cons row rows ih =>
      have hrest : Dense nullable rows :=
        hdense.imp_right fun h row hrow => h row (List.mem_cons_of_mem _ hrow)
      cases row with
      | none =>
          rcases hdense with rfl | hall
          · rw [List.reduceOption_cons_of_none] at hvalues
            exact .cons ⟨rfl, .none⟩ (ih hrest hvalues)
          · cases hall none List.mem_cons_self
      | some string =>
          rw [List.reduceOption_cons_of_some] at hvalues
          cases hvalues with
          | cons hvalue hvalues =>
              cases nullable with
              | false =>
                  exact .cons ⟨rfl, .some hvalue⟩ (ih hrest hvalues)
              | true =>
                  exact .cons ⟨rfl, .some hvalue⟩ (ih hrest hvalues)

end Rows

section Values

/-- Indices of strings in the entries of a dictionary. -/
def IndexesOf (entries : List Bytes) (indices : List Nat) (values : List Bytes) : Prop :=
  List.Forall₂ (fun index value => entries[index]? = some value) indices values

/-- The dense values of a page: the strings themselves, or their indices behind the width. -/
def ValuesHold (entries : List Bytes) (indices : List Nat) :
    TextEncoding → Bytes → List Bytes → Prop
  | .plain, bytes, values => bytes = values.flatMap prefixed
  | .rleDictionary, bytes, values =>
      IndexesOf entries indices values ∧
        bytes = UInt8.ofNat (bitWidthForCount entries.length) ::
          rleEncodeAll (indices.map (BitVec.ofNat 32)) (bitWidthForCount entries.length) []

theorem decodePlain_prefixed
    {values : List Bytes}
    (hshort : ∀ value ∈ values, value.length < 2 ^ 31) :
    decodePlain values.length (values.flatMap prefixed) = some values := by
  have hread := readEntries_prefixed (by norm_num) hshort 0 []
  rw [List.append_nil] at hread
  rw [decodePlain, hread, Option.map_some, List.map_snd_zip]
  rw [length_entryOffsets]

theorem bitWidthForCount_le
    {count : Nat}
    (hcount : count < 2 ^ 31) :
    bitWidthForCount count ≤ 31 := by
  rw [bitWidthForCount]
  split_ifs
  · norm_num
  · exact max_le (widthLoop_le (by omega)) (by norm_num)

theorem lt_two_pow_bitWidthForCount
    {count index : Nat}
    (hindex : index < count) :
    index < 2 ^ bitWidthForCount count := by
  rw [bitWidthForCount, if_neg (by omega)]
  calc index ≤ count - 1 := by omega
    _ < 2 ^ widthLoop (count - 1) := lt_two_pow_widthLoop _
    _ ≤ 2 ^ max (widthLoop (count - 1)) 1 :=
        Nat.pow_le_pow_right (by norm_num) (le_max_left _ _)

variable {entries values : List Bytes} {indices : List Nat}

theorem IndexesOf.lt
    (h : IndexesOf entries indices values) {index : Nat} (hindex : index ∈ indices) :
    index < entries.length := by
  induction h with
  | nil =>
      cases hindex
  | @cons first value indices values hfirst hrest ih =>
      rcases List.mem_cons.mp hindex with rfl | hlater
      · exact (List.getElem?_eq_some_iff.mp hfirst).1
      · exact ih hlater

/-- Indices are numbers of the encoder. -/
theorem IndexesOf.encodable
    (h : IndexesOf entries indices values)
    (hentries : entries.length < 2 ^ 31) (hvalues : values.length < 2 ^ 31) :
    RleEncodable (bitWidthForCount entries.length) (indices.map (BitVec.ofNat 32)) where
  narrow := (bitWidthForCount_le hentries).trans (by norm_num)
  fit := by
    intro value hvalue
    obtain ⟨index, hindex, rfl⟩ := List.mem_map.mp hvalue
    have hlt := lt_two_pow_bitWidthForCount (h.lt hindex)
    exact lt_of_le_of_lt (Nat.mod_le index _) hlt
  short := by
    rw [List.length_map, h.length_eq]
    exact hvalues

/-- The indices are read back, whatever the buffer held. -/
theorem decodeIndexStream_encoded
    (kernels : Kernels) (stale : Nat → Nat)
    (h : IndexesOf entries indices values)
    (hentries : entries.length < 2 ^ 31) (hvalues : values.length < 2 ^ 31) :
    decodeIndexStream kernels stale values.length
        (UInt8.ofNat (bitWidthForCount entries.length) ::
          rleEncodeAll (indices.map (BitVec.ofNat 32)) (bitWidthForCount entries.length) []) =
      some indices := by
  have hlength : indices.length = values.length := h.length_eq
  have hnarrow := bitWidthForCount_le hentries
  have hencodable := h.encodable hentries hvalues
  have hwidth : (UInt8.ofNat (bitWidthForCount entries.length)).toNat =
      bitWidthForCount entries.length := by
    rw [UInt8.toNat_ofNat']
    exact Nat.mod_eq_of_lt (by omega)
  have hstream := stream_rleEncodeAll stream_nil hencodable
  obtain ⟨hremaining, -⟩ := remaining_init hencodable.narrow
    (rleEncodeAll (indices.map (BitVec.ofNat 32)) (bitWidthForCount entries.length) [])
  have htakes := ((init_sound (rleEncodeAll (indices.map (BitVec.ofNat 32))
    (bitWidthForCount entries.length) []) (bitWidthForCount entries.length)).getBatch kernels
      values.length).1.eq_take
  have hleft := hremaining.trans hstream
  have hbatch : ((RleDecoder.init (rleEncodeAll (indices.map (BitVec.ofNat 32))
      (bitWidthForCount entries.length) []) (bitWidthForCount entries.length)).getBatch kernels
        values.length).1 = indices.map (BitVec.ofNat 32) := by
    rw [htakes]
    change (RleDecoder.remaining _).1.take _ = _
    rw [hleft, List.nil_append]
    exact List.take_of_length_le (by rw [List.length_map, hlength])
  have hnumbers : (indices.map (BitVec.ofNat 32)).map BitVec.toNat = indices := by
    rw [List.map_map]
    conv_rhs => rw [← List.map_id indices]
    refine List.map_congr_left fun index hindex => ?_
    have := h.lt hindex
    exact Nat.mod_eq_of_lt (by omega)
  rw [decodeIndexStream]
  simp only [hwidth, hbatch, hnumbers, List.length_map, hlength, Nat.sub_self, List.range_zero,
    List.map_nil, List.append_nil]

end Values

section Dictionaries

/-- A dictionary page of some entries. -/
structure DictionaryHolds (fmt : PageFormat) (page : StoredPage) (entries : List Bytes) :
    Prop where
  kind : page.kind = .dictionary
  count : page.numValues = entries.length
  filled : entries ≠ []
  payload : page.payload = entries.flatMap prefixed
  stored : fmt.compress page.payload = .ok page.compressed

/-- What the reader keeps of the entries. -/
def dictionaryOf (entries : List Bytes) : DictionaryPage :=
  ⟨entries.flatMap prefixed, entries.length, some (entryOffsets 0 entries)⟩

theorem entryLength_eq
    (bytes : Bytes) {a b c d : UInt8} {offset : Nat} {rest : Bytes}
    (h : bytes.drop offset = a :: b :: c :: d :: rest) :
    entryLength bytes offset = littleEndian [a, b, c, d] := by
  have hget (i : Nat) : bytes.getD (offset + i) 0 = (bytes.drop offset).getD i 0 := by
    rw [List.getD_eq_getElem?_getD, List.getD_eq_getElem?_getD, List.getElem?_drop]
  have ha : a.toNat < 2 ^ 8 := a.toNat_lt
  have hb : b.toNat < 2 ^ 8 := b.toNat_lt
  have hc : c.toNat < 2 ^ 8 := c.toNat_lt
  have hfirst := hget 0
  rw [Nat.add_zero] at hfirst
  rw [entryLength, hfirst, hget, hget, hget, h]
  simp only [List.getD_cons_zero, List.getD_cons_succ]
  rw [Nat.or_comm a.toNat, ← Nat.shiftLeft_add_eq_or_of_lt ha,
    Nat.or_comm (b.toNat <<< 8 + a.toNat), ← Nat.shiftLeft_add_eq_or_of_lt (i := 16),
    Nat.or_comm (c.toNat <<< 16 + _), ← Nat.shiftLeft_add_eq_or_of_lt (i := 24)]
  · simp only [littleEndian, Nat.shiftLeft_eq]
    ring
  · rw [Nat.shiftLeft_eq, Nat.shiftLeft_eq]
    omega
  · rw [Nat.shiftLeft_eq]
    omega

/-- An entry behind its length is read at the place of the length. -/
theorem entryBytes_at
    {entry : Bytes}
    (hshort : entry.length < 2 ^ 32) (front rest : Bytes) :
    entryLength (front ++ (prefixed entry ++ rest)) front.length = entry.length ∧
      entryBytes (front ++ (prefixed entry ++ rest)) front.length = entry := by
  have hbytes : leBytes 4 entry.length =
      [UInt8.ofNat entry.length, UInt8.ofNat (entry.length >>> 8),
        UInt8.ofNat (entry.length >>> 8 >>> 8), UInt8.ofNat (entry.length >>> 8 >>> 8 >>> 8)] := by
    simp only [leBytes_succ]
    rfl
  have hlength : entryLength (front ++ (prefixed entry ++ rest)) front.length =
      entry.length := by
    have hdrop : (front ++ (prefixed entry ++ rest)).drop front.length =
        leBytes 4 entry.length ++ (entry ++ rest) := by
      rw [List.drop_left, prefixed, List.append_assoc]
    rw [hbytes] at hdrop
    rw [entryLength_eq _ hdrop, ← hbytes, littleEndian_leBytes_of_lt (by omega)]
  refine ⟨hlength, ?_⟩
  apply List.ext_getElem?
  intro i
  rw [entryBytes, hlength, ByteArrayRef.bytes]
  by_cases hi : i < entry.length
  · have hplace : (front ++ (prefixed entry ++ rest))[front.length + 4 + i]? = entry[i]? := by
      rw [Nat.add_assoc, List.getElem?_append_right (by omega), Nat.add_sub_cancel_left,
        prefixed, List.append_assoc, List.getElem?_append_right (by rw [length_leBytes]; omega),
        length_leBytes, Nat.add_sub_cancel_left, List.getElem?_append_left hi]
    simp [pageMemory, hi, List.getD_eq_getElem?_getD, hplace]
  · simp [hi]

variable {entries : List Bytes}

/-- At the place of an entry stands the entry, within the page. -/
theorem entry_at_offset
    (hshort : ∀ entry ∈ entries, entry.length < 2 ^ 31) {index place : Nat}
    (hplace : (entryOffsets 0 entries)[index]? = some place) :
    ∃ entry, entries[index]? = some entry ∧
      entryBytes (entries.flatMap prefixed) place = entry ∧
      EntryInBounds (entries.flatMap prefixed) place := by
  obtain ⟨entry, front, rest, hentry, hsplit, rfl⟩ := split_at_entryOffset hplace
  have hlt := hshort entry (List.mem_of_getElem? hentry)
  have hlt' : entry.length < 2 ^ 32 := by
    omega
  obtain ⟨hlength, hbytes⟩ := entryBytes_at hlt' front rest
  refine ⟨entry, hentry, ?_, ?_⟩
  · rw [hsplit, Nat.zero_add, hbytes]
  · rw [hsplit, Nat.zero_add, EntryInBounds, hlength, List.length_append, List.length_append,
      length_prefixed]
    omega

theorem dictionaryValue_dictionaryOf
    (hshort : ∀ entry ∈ entries, entry.length < 2 ^ 31) (index : Nat) :
    dictionaryValue (dictionaryOf entries) index = entries[index]? := by
  have hcount : (dictionaryOf entries).count = entries.length := rfl
  rw [dictionaryValue, hcount]
  split_ifs with hlarge
  · exact (List.getElem?_eq_none (by exact_mod_cast hlarge)).symm
  · have hindex : index < (entryOffsets 0 entries).length := by
      rw [length_entryOffsets]
      exact_mod_cast not_le.mp hlarge
    have hplace := List.getElem?_eq_getElem hindex
    obtain ⟨entry, hentry, hbytes, -⟩ := entry_at_offset hshort hplace
    change ((entryOffsets 0 entries)[index]?).map (entryBytes (entries.flatMap prefixed)) = _
    rw [hplace, Option.map_some, hentry, hbytes]

theorem readDictionaryPage_prefixed
    (hshort : ∀ entry ∈ entries, entry.length < 2 ^ 31) :
    readDictionaryPage entries.length (entries.flatMap prefixed) =
      some (dictionaryOf entries) := by
  have hread := readEntries_prefixed le_rfl
    (fun entry hentry => (hshort entry hentry).trans (by norm_num)) 0 []
  rw [List.append_nil] at hread
  rw [readDictionaryPage, if_neg (by omega), Int.toNat_natCast, hread, Option.map_some,
    List.map_fst_zip]
  · rfl
  · rw [length_entryOffsets]

variable {src : PageSource} {page : StoredPage}

/-- A dictionary page is loaded if and only if it keeps within the limits. -/
theorem loadDictionaryPage_stored
    (hfmt : src.format.ReadsBack)
    (hpage : DictionaryHolds src.format page entries)
    (hshort : ∀ entry ∈ entries, entry.length < 2 ^ 31)
    (hsized : page.Sized) {rest : Bytes} (hrest : 8 ≤ rest.length) (declared : Bool) :
    (page.WithinCaps src →
      loadDictionaryPage src declared (page.bytes src.format ++ rest) =
        some (some (dictionaryOf entries), rest)) ∧
      (¬ page.WithinCaps src →
        loadDictionaryPage src declared (page.bytes src.format ++ rest) = none) := by
  have hheader := readPageHeader_stored hfmt page hrest
  have hkind : (page.header src.format).kind = .dictionary := hpage.kind
  have hcount : 0 < page.numValues := by
    rw [hpage.count]
    exact List.length_pos_of_ne_nil hpage.filled
  have hvalid := validatePagePayloadSize_stored src.format hsized hcount (.inl (Eq.refl true))
  have hvalues : (page.header src.format).numValues = entries.length := by
    rw [← hpage.count]
    exact asInt32_of_lt hsized.count
  constructor
  · intro hcaps
    obtain ⟨hpayload, hbehind⟩ := loadPayload_stored hfmt hpage.stored hcaps rest
    rw [loadDictionaryPage, hheader, if_pos hcaps.header]
    simp only [Option.bind_eq_bind, Option.bind_some, hkind, ne_eq, not_true_eq_false, if_false,
      hvalid.mpr ⟨hcaps.payload, hcaps.compressed⟩, Bool.true_eq_false, hpayload, hbehind,
      hvalues, hpage.payload, readDictionaryPage_prefixed hshort]
    rfl
  · intro hcaps
    rw [loadDictionaryPage, hheader]
    by_cases hfound : src.mapped = true ∨
        (page.headerBytes src.format).length ≤ maxPagePayloadSize
    · have hrefused : validatePagePayloadSize (page.header src.format) true = false := by
        rw [← Bool.not_eq_true, hvalid]
        exact fun hsizes => hcaps ⟨hsizes.1, hsizes.2, hfound⟩
      rw [if_pos hfound]
      simp only [Option.bind_eq_bind, Option.bind_some, hkind, ne_eq, not_true_eq_false, if_false,
        hrefused, if_true]
    · rw [if_neg hfound]
      rfl

end Dictionaries

section DataPages

/-- A data page of some rows. Its values are strings, or indices of entries. -/
structure PageHolds (fmt : PageFormat) (nullable : Bool) (entries : List Bytes)
    (indices : List Nat) (page : StoredPage) (rows : List TextRow) : Prop where
  kind : page.kind = .data
  count : page.numValues = rows.length
  filled : rows ≠ []
  dense : Dense nullable rows
  stored : fmt.compress page.payload = .ok page.compressed
  parts : ∃ parts : PageParts, page.payload = buildPagePayload parts ∧
    parts.Holds (flatColumn nullable) (rows.map fun _ => 0) (levelsOf nullable rows) ∧
    ValuesHold entries indices page.encoding parts.values rows.reduceOption

variable {src : PageSource} {nullable : Bool} {entries : List Bytes} {indices : List Nat}
variable {page : StoredPage} {rows : List TextRow}

/-- A page has levels or values. -/
theorem PageHolds.payload_ne_nil
    {fmt : PageFormat}
    (h : PageHolds fmt nullable entries indices page rows) :
    page.payload ≠ [] := by
  obtain ⟨parts, hpayload, hholds, hvalues⟩ := h.parts
  rw [hpayload, buildPagePayload_eq]
  intro hempty
  obtain ⟨-, hempty⟩ := List.append_eq_nil_iff.mp hempty
  obtain ⟨hlevels, hnone⟩ := List.append_eq_nil_iff.mp hempty
  cases hnullable : nullable with
  | true =>
      have hlength : 0 < (levelsOf nullable rows).length := by
        rw [levelsOf, List.length_map]
        exact List.length_pos_of_ne_nil h.filled
      have hmax : 0 < (flatColumn nullable).maxDefLevel := by
        simp [flatColumn, hnullable]
      rw [levelSection] at hlevels
      split_ifs at hlevels with hzero
      · exact hholds.defs.ne_nil hmax hlength (List.eq_nil_of_length_eq_zero hzero)
      · have := congrArg List.length hlevels
        rw [List.length_append, length_leBytes] at this
        simp at this
  | false =>
      have hdense := h.dense
      rw [hnullable] at hdense
      obtain ⟨row, others, hrows⟩ := List.exists_cons_of_ne_nil h.filled
      obtain ⟨string, hstring⟩ := Option.isSome_iff_exists.mp
        (hdense.resolve_left Bool.false_ne_true row (by rw [hrows]; exact List.mem_cons_self))
      rw [hnone, hrows, hstring, List.reduceOption_cons_of_some] at hvalues
      cases hencoding : page.encoding with
      | plain =>
          rw [hencoding] at hvalues
          have := congrArg List.length hvalues
          rw [List.length_nil, List.flatMap_cons, List.length_append, length_prefixed] at this
          omega
      | rleDictionary =>
          rw [hencoding] at hvalues
          cases hvalues.2

theorem PageHolds.compressed_ne_nil
    {fmt : PageFormat}
    (h : PageHolds fmt nullable entries indices page rows) (hfmt : fmt.ReadsBack) :
    page.compressed ≠ [] := by
  intro hempty
  have hstored := h.stored
  rw [hempty] at hstored
  exact hfmt.filled _ h.payload_ne_nil hstored

/-- The sizes of a data page are accepted if and only if they keep within the limits. -/
theorem PageHolds.valid_iff
    (h : PageHolds src.format nullable entries indices page rows)
    (hfmt : src.format.ReadsBack) (hsized : page.Sized) :
    validatePagePayloadSize (page.header src.format) false = true ↔
      page.payload.length ≤ maxPagePayloadSize ∧
        page.compressed.length ≤ maxPagePayloadSize := by
  refine validatePagePayloadSize_stored src.format hsized ?_ (.inr (h.compressed_ne_nil hfmt))
  rw [h.count]
  exact List.length_pos_of_ne_nil h.filled

/-- A way to decode the values of the page. -/
def DecodesAs {β : Type} (R : β → Bytes → Prop) (entries : List Bytes) (indices : List Nat)
    (decode : TextEncoding → Nat → Bytes → Option (List β)) (encoding : TextEncoding)
    (strings : List Bytes) : Prop :=
  ∀ bytes, ValuesHold entries indices encoding bytes strings →
    ∃ values, decode encoding strings.length bytes = some values ∧
      List.Forall₂ R values strings

variable {β : Type} {R : β → Bytes → Prop}
variable {decode : TextEncoding → Nat → Bytes → Option (List β)}
variable {chunkValues : Nat} {rest : Bytes}

/-- A data page within the limits is loaded as the rows it holds. -/
theorem PageHolds.load
    (h : PageHolds src.format nullable entries indices page rows)
    (hfmt : src.format.ReadsBack) (hcount : rows.length < 2 ^ 31)
    (hchunk : rows.length ≤ chunkValues)
    (hdecode : DecodesAs R entries indices decode page.encoding rows.reduceOption)
    (hrest : 8 ≤ rest.length) (hcaps : page.WithinCaps src) :
    ∃ slots, loadDataPage src (flatColumn nullable) chunkValues decode
        (page.bytes src.format ++ rest) = some (slots, rest) ∧
      List.Forall₂ (LoadedAs R nullable) slots rows := by
  obtain ⟨parts, hparts, hholds, hvalues⟩ := h.parts
  have hsized := hcaps.sized (h.count ▸ hcount)
  have hnumber : (page.header src.format).numValues = rows.length := by
    rw [← h.count]
    exact asInt32_of_lt hsized.count
  have hkind : (page.header src.format).kind = .data := h.kind
  have hencoding : (page.header src.format).encoding = page.encoding := rfl
  obtain ⟨hpayload, hbehind⟩ := loadPayload_stored hfmt h.stored hcaps rest
  have hsections : levelSection parts.repLevels ++
      (levelSection parts.defLevels ++ parts.values) = page.payload := by
    rw [hparts, buildPagePayload_eq]
  have hsection (levels : Bytes) : levels.length ≤ (levelSection levels).length := by
    rw [levelSection]
    split_ifs with hzero
    · omega
    · rw [List.length_append]
      omega
  have hlengths := congrArg List.length hsections
  rw [List.length_append, List.length_append] at hlengths
  have hrep := hsection parts.repLevels
  have hdef := hsection parts.defLevels
  have hlevels := hholds.readLevelsV1 src.kernels src.wide
    (by rw [levelsOf, List.length_map]; exact List.length_pos_of_ne_nil h.filled)
    (by rw [levelsOf, List.length_map, List.length_map])
    (by have := hsized.payload; omega) (by have := hsized.payload; omega)
  have hrows : (levelsOf nullable rows).length = rows.length := by
    rw [levelsOf, List.length_map]
  rw [hrows, ← hparts] at hlevels
  obtain ⟨values, hdecoded, hmatch⟩ := hdecode parts.values hvalues
  refine ⟨_, ?_, spreadValues_loadedAs h.dense hmatch⟩
  rw [loadDataPage, readPageHeader_stored hfmt page hrest, if_pos hcaps.header]
  simp only [Option.bind_eq_bind, Option.bind_some, hkind, ne_eq, not_true_eq_false,
    (h.valid_iff hfmt hsized).mpr ⟨hcaps.payload, hcaps.compressed⟩, Bool.true_eq_false, or_self,
    if_false, hpayload, hbehind, hnumber, Int.toNat_natCast, hlevels, Except.toOption,
    count_levels h.dense, hencoding, hdecoded, Option.pure_def]
  rw [if_neg (by omega)]

/-- A data page over a limit is not. -/
theorem PageHolds.refuse
    (h : PageHolds src.format nullable entries indices page rows)
    (hfmt : src.format.ReadsBack) (hsized : page.Sized)
    (hrest : 8 ≤ rest.length) (hcaps : ¬ page.WithinCaps src) :
    loadDataPage src (flatColumn nullable) chunkValues decode
      (page.bytes src.format ++ rest) = none := by
  rw [loadDataPage, readPageHeader_stored hfmt page hrest]
  by_cases hfound : src.mapped = true ∨
      (page.headerBytes src.format).length ≤ maxPagePayloadSize
  · have hrefused : validatePagePayloadSize (page.header src.format) false = false := by
      rw [← Bool.not_eq_true, h.valid_iff hfmt hsized]
      exact fun hsizes => hcaps ⟨hsizes.1, hsizes.2, hfound⟩
    rw [if_pos hfound]
    simp only [Option.bind_eq_bind, Option.bind_some, hrefused, or_true, if_true]
  · rw [if_neg hfound]
    rfl

/-- The search for a dictionary finds none at a data page. -/
theorem PageHolds.probe
    (h : PageHolds src.format nullable entries indices page rows)
    (hfmt : src.format.ReadsBack) (hrest : 8 ≤ rest.length) :
    loadDictionaryPage src false (page.bytes src.format ++ rest) =
      if src.mapped = true ∨ (page.headerBytes src.format).length ≤ maxPagePayloadSize then
        some (none, page.bytes src.format ++ rest)
      else
        none := by
  have hkind : (page.header src.format).kind = .data := h.kind
  rw [loadDictionaryPage, readPageHeader_stored hfmt page hrest]
  by_cases hfound : src.mapped = true ∨
      (page.headerBytes src.format).length ≤ maxPagePayloadSize
  · rw [if_pos hfound, if_pos hfound]
    simp [hkind]
  · rw [if_neg hfound, if_neg hfound]
    rfl

end DataPages

end Page
end QioParquet
