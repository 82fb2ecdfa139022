import QioParquet.Read.Agreement
import Mathlib.Tactic

/-!
# Text validity and encodings

A text value that is not valid UTF-8 or holds a nul cannot become an R string.
The materializing loop and the batch decoder meet such a value only in a
present row. The dictionary path checks every entry of the dictionary page,
referenced or not, so whether a chunk is accepted can depend on its encoding.
The exact condition under which it does not is at the end.
-/

namespace QioParquet
namespace Read

open Lib

section Faults

variable {α : Type}

/-- A read ends in a text-validity error. -/
def RaisesText (result : Except ReadError α) : Prop :=
  ∃ e, result = .error e ∧ e.isTextFault = true

/-- A column read as text. -/
def ColumnSpec.IsText (c : ColumnSpec) : Prop :=
  c.kind = .text ∧ c.type = .byteArray

/-- Some present row holds a value that is not text. -/
def BadText (rows : List Row) : Prop :=
  ∃ bytes, Row.present (.byteArray bytes) ∈ rows ∧ TextFault bytes

/-- The outcome of reading something that fails only on values that are not
text, and on those always. -/
def TextOutcome (result : Except ReadError α) (bad : Prop) : Prop :=
  match result with
  | .ok _ => ¬ bad
  | .error e => e.isTextFault = true ∧ bad

theorem TextOutcome.raises_iff
    {result : Except ReadError α} {bad : Prop}
    (h : TextOutcome result bad) :
    RaisesText result ↔ bad := by
  cases result with
  | ok value =>
      constructor
      · rintro ⟨e, he, -⟩
        cases he
      · intro hbad
        exact absurd hbad h
  | error e =>
      exact ⟨fun _ => h.2, fun _ => ⟨e, rfl, h.1⟩⟩

theorem TextOutcome.congr
    {result : Except ReadError α} {bad bad' : Prop}
    (h : TextOutcome result bad) (hiff : bad ↔ bad') :
    TextOutcome result bad' := by
  rwa [← propext hiff]

theorem TextOutcome.map
    {β : Type} {result : Except ReadError α} {bad : Prop}
    (h : TextOutcome result bad) (f : α → β) :
    TextOutcome (result >>= fun value => .ok (f value)) bad := by
  cases result with
  | ok value =>
      exact h
  | error e =>
      exact h

theorem BadText.mono
    {rows rows' : List Row}
    (h : BadText rows)
    (hsub : ∀ row ∈ rows, row ∈ rows') :
    BadText rows' := by
  obtain ⟨bytes, hmem, hfault⟩ := h
  exact ⟨bytes, hsub _ hmem, hfault⟩

theorem badText_flatMap
    {entries : List α} {rows : α → List Row} :
    BadText (entries.flatMap rows) ↔ ∃ entry ∈ entries,
      BadText (rows entry) := by
  simp only [BadText, List.mem_flatMap]
  constructor
  · rintro ⟨bytes, ⟨entry, hentry, hmem⟩, hfault⟩
    exact ⟨entry, hentry, bytes, hmem, hfault⟩
  · rintro ⟨entry, hentry, bytes, hmem, hfault⟩
    exact ⟨bytes, ⟨entry, hentry, hmem⟩, hfault⟩

/-- The first value that is not text is in row `k`. -/
def FirstBadAt (rows : List Row) (k : Nat) : Prop :=
  (∃ bytes, rows[k]? = some (.present (.byteArray bytes)) ∧ TextFault bytes) ∧
    ¬ BadText (rows.take k)

theorem FirstBadAt.badText
    {rows : List Row} {k : Nat}
    (h : FirstBadAt rows k) :
    BadText rows := by
  obtain ⟨⟨bytes, hk, hfault⟩, -⟩ := h
  exact ⟨bytes, List.mem_of_getElem? hk, hfault⟩

theorem FirstBadAt.badText_take
    {rows : List Row} {k n : Nat}
    (h : FirstBadAt rows k)
    (hlt : k < n) :
    BadText (rows.take n) := by
  obtain ⟨⟨bytes, hk, hfault⟩, -⟩ := h
  have htaken : (rows.take n)[k]? = some (.present (.byteArray bytes)) := by
    rw [List.getElem?_take_of_lt hlt, hk]
  exact ⟨bytes, List.mem_of_getElem? htaken, hfault⟩

theorem FirstBadAt.lt_length
    {rows : List Row} {k : Nat}
    (h : FirstBadAt rows k) :
    k < rows.length := by
  obtain ⟨⟨bytes, hk, -⟩, -⟩ := h
  exact (List.getElem?_eq_some_iff.mp hk).1

theorem FirstBadAt.not_badText_take
    {rows : List Row} {k n : Nat}
    (h : FirstBadAt rows k)
    (hle : n ≤ k) :
    ¬ BadText (rows.take n) := by
  intro hbad
  refine h.2 (hbad.mono fun row hrow => ?_)
  exact (List.take_prefix_take_left hle).subset hrow

theorem FirstBadAt.take
    {rows : List Row} {k n : Nat}
    (h : FirstBadAt rows k)
    (hlt : k < n) :
    FirstBadAt (rows.take n) k := by
  obtain ⟨⟨bytes, hk, hfault⟩, hgood⟩ := h
  refine ⟨⟨bytes, by rw [List.getElem?_take_of_lt hlt, hk], hfault⟩, ?_⟩
  rwa [List.take_take, Nat.min_eq_left hlt.le]

theorem FirstBadAt.drop
    {rows : List Row} {k n : Nat}
    (h : FirstBadAt rows k)
    (hle : n ≤ k) :
    FirstBadAt (rows.drop n) (k - n) := by
  obtain ⟨⟨bytes, hk, hfault⟩, hgood⟩ := h
  refine ⟨⟨bytes, by rw [List.getElem?_drop, Nat.add_sub_cancel' hle, hk], hfault⟩, ?_⟩
  intro hbad
  refine hgood (hbad.mono fun row hrow => ?_)
  rw [← List.drop_take] at hrow
  exact List.drop_subset _ _ hrow

theorem FirstBadAt.unique
    {rows : List Row} {k k' : Nat}
    (h : FirstBadAt rows k) (h' : FirstBadAt rows k') :
    k = k' := by
  rcases Nat.lt_trichotomy k k' with hlt | heq | hlt
  · exact absurd (h.badText_take hlt) h'.2
  · exact heq
  · exact absurd (h'.badText_take hlt) h.2

/-- The column and the row a text error names. -/
def ReadError.textPlace : ReadError → Option (String × Nat)
  | .embeddedNul column row => some (column, row)
  | .invalidUtf8 column row _ => some (column, row)
  | _ => none

theorem isTextFault_of_textPlace
    {e : ReadError} {place : String × Nat}
    (h : e.textPlace = some place) :
    e.isTextFault = true := by
  cases e <;> first | rfl | cases h

theorem textPlace_of_checkStringBytes
    {memory : Memory} {value : ByteArrayRef} {column : String} {row : Nat}
    {e : ReadError}
    (hvalid : value.Valid)
    (h : checkStringBytes memory value column row = .error e) :
    e.textPlace = some (column, row + 1) := by
  rw [checkStringBytes, if_neg hvalid.not_malformed] at h
  split_ifs at h <;> cases h <;> rfl

end Faults

section Decoders

variable {c : ColumnSpec} {rows : List Row}

theorem ColumnSpec.IsText.supported (htext : c.IsText) : c.Supported := by
  intro hfixed
  rw [htext.2] at hfixed
  cases hfixed

/-- Rows whose elements exist are all text. -/
theorem not_badText_of_nativeCells
    {cells : List RCell}
    (htext : c.IsText)
    (h : nativeCells c rows = some cells) :
    ¬ BadText rows := by
  rintro ⟨bytes, hmem, hfault⟩
  induction rows generalizing cells with
  | nil =>
      cases hmem
  | cons row rows ih =>
      simp only [nativeCells, rowValues, List.map_cons, List.mapM_cons,
        Option.bind_eq_bind, Option.bind_eq_some_iff] at h
      obtain ⟨cell, hcell, tail, htail, -⟩ := h
      rcases List.mem_cons.mp hmem with rfl | hmem
      · simp [Row.value, nativeCell, valueCell, htext.1, hfault] at hcell
      · exact ih htail hmem

theorem element_text
    (htext : c.IsText) (memory : Memory) (row : Nat)
    (v : PhysValue ByteArrayRef) :
    element c memory row v = textElement memory c.name row v := by
  simp [element, htext.1, htext.2]

/-- A text error names the first bad row. -/
theorem decodeSlots_error
    {memory : Memory} {flags : Flags}
    {slots : List (Option (PhysValue ByteArrayRef))} {e : ReadError}
    (htext : c.IsText)
    (hslots : slots.map (Option.map (derefValue memory)) = rowValues rows)
    (hvalid : ∀ v, some v ∈ slots → ValidSlot v)
    (htyped : ∀ v, some v ∈ slots → v.type = c.type)
    (h : decodeSlots c memory slots flags = .error e) :
    ∃ k, FirstBadAt rows k ∧ e.textPlace = some (c.name, k + 1) := by
  simp only [decodeSlots, htext.1, reduceCtorEq, if_false, bind_eq_error_iff, pure_eq_ok,
    and_false, exists_false, or_false] at h
  obtain ⟨before, v, after, cells, rfl, hbefore, helement⟩ := traverseRows_first_error h
  have hmem : some v ∈ before ++ some v :: after := by simp
  rw [element_text htext, Nat.zero_add] at helement
  have htype := htyped v hmem
  rw [htext.2] at htype
  cases v <;> cases htype
  rename_i ref
  have href := hvalid _ hmem ref rfl
  have hcheck : checkStringBytes memory ref c.name before.length = .error e := by
    simpa [textElement, loadByteArray, bind_eq_error_iff] using helement
  refine ⟨before.length, ⟨⟨ref.bytes memory, ?_, ?_⟩, ?_⟩,
    textPlace_of_checkStringBytes href hcheck⟩
  · have hvalue : (rowValues rows)[before.length]? =
        some (some (.byteArray (ref.bytes memory))) := by
      rw [← hslots, List.getElem?_map, List.getElem?_append_right le_rfl, Nat.sub_self]
      rfl
    rw [rowValues, List.getElem?_map, Option.map_eq_some_iff] at hvalue
    obtain ⟨row, hrow, hvalue⟩ := hvalue
    cases row with
    | null level =>
        cases hvalue
    | present value =>
        rw [hrow, Option.some.inj hvalue]
  · by_contra hgood
    rw [(checkStringBytes_ok_iff href).mpr hgood] at hcheck
    cases hcheck
  · -- the rows before were decoded
    have hdecoded : decodeSlots c memory before flags =
        .ok (cells, flags.or (rowFlags c before)) := by
      simp [decodeSlots, htext.1, hbefore]
    have hprefix : before.map (Option.map (derefValue memory)) =
        rowValues (rows.take before.length) := by
      rw [rowValues, List.map_take, ← rowValues, ← hslots, List.map_append,
        List.take_left' (List.length_map _)]
    exact not_badText_of_nativeCells htext (decodeSlots_ok htext.supported hprefix
      (fun v hv => hvalid v (List.mem_append_left _ hv))
      (fun v hv => htyped v (List.mem_append_left _ hv)) hdecoded).1

/-- On text columns both decoders fail on bad rows only. -/
theorem decodeSlots_text
    {memory : Memory} {flags : Flags}
    {slots : List (Option (PhysValue ByteArrayRef))}
    (htext : c.IsText)
    (hslots : slots.map (Option.map (derefValue memory)) = rowValues rows)
    (hvalid : ∀ v, some v ∈ slots → ValidSlot v)
    (htyped : ∀ v, some v ∈ slots → v.type = c.type) :
    TextOutcome (decodeSlots c memory slots flags) (BadText rows) := by
  cases hresult : decodeSlots c memory slots flags with
  | ok result =>
      exact not_badText_of_nativeCells htext
        (decodeSlots_ok htext.supported hslots hvalid htyped hresult).1
  | error e =>
      obtain ⟨k, hfirst, hplace⟩ :=
        decodeSlots_error htext hslots hvalid htyped hresult
      exact ⟨isTextFault_of_textPlace hplace, hfirst.badText⟩

/-- The dense decoder. -/
theorem scatterDenseColumn_text
    {b : DenseBatch} (flags : Flags)
    (htext : c.IsText)
    (hfits : ∀ row ∈ rows, row.Fits c)
    (hb : b.Delivers c rows) :
    TextOutcome (scatterDenseColumn c b flags) (BadText rows) := by
  obtain ⟨slots, hmap, hslots, hvalid⟩ := hb.hasSlots hfits
  rw [scatterDenseColumn_eq_decodeSlots htext.supported hslots]
  exact decodeSlots_text htext hmap hvalid hslots.typed

/-- The dense decoder names the first bad row of its batch. -/
theorem scatterDenseColumn_firstBad
    {b : DenseBatch} {k : Nat} (flags : Flags)
    (htext : c.IsText)
    (hfits : ∀ row ∈ rows, row.Fits c)
    (hb : b.Delivers c rows)
    (hbad : FirstBadAt rows k) :
    ∃ e, scatterDenseColumn c b flags = .error e ∧
      e.textPlace = some (c.name, k + 1) := by
  obtain ⟨e, he, -⟩ :=
    (scatterDenseColumn_text flags htext hfits hb).raises_iff.mpr hbad.badText
  obtain ⟨slots, hmap, hslots, hvalid⟩ := hb.hasSlots hfits
  have hdecode := he
  rw [scatterDenseColumn_eq_decodeSlots htext.supported hslots] at hdecode
  obtain ⟨k', hfirst, hplace⟩ :=
    decodeSlots_error htext hmap hvalid hslots.typed hdecode
  rw [hbad.unique hfirst]
  exact ⟨e, he, hplace⟩

/-- The row-aligned decoder. -/
theorem copyBatchColumn_text
    {a : AlignedColumn} (flags : Flags)
    (htext : c.IsText)
    (hfits : ∀ row ∈ rows, row.Fits c)
    (ha : a.Delivers rows) :
    TextOutcome (copyBatchColumn c a rows.length flags) (BadText rows) := by
  obtain ⟨hmap, hlen, hvalid⟩ := ha.slots
  have htyped := typed_of_fits hfits hmap
  rw [copyBatchColumn_eq_decodeSlots htext.supported hlen htyped]
  exact decodeSlots_text htext hmap hvalid htyped

end Decoders

section Chunks

variable {native : NativeReader} {job : ChunkJob} {r : ColumnReader}
  {rows : List Row} {chunk : Nat} {flags : Flags}

/-- A reader whose batches of a chunk all decode, and come back whole. -/
structure ColumnReader.Decodes
    (r : ColumnReader) (c : ColumnSpec) (rows : List Row) : Prop where
  whole : ∀ position want, 0 < want → position + want ≤ rows.length →
    ∃ b, r.readBatch position want = some b ∧ b.count = want
  faithful : r.Faithful c rows
  indices : r.FaithfulIndices c rows

/-- The elements of text rows go into a character vector. -/
theorem checkElements_text
    {c : ColumnSpec} {cells : List RCell} {mismatch : ReadError}
    (htext : c.IsText)
    (hfits : ∀ row ∈ rows, row.Fits c)
    (h : nativeCells c rows = some cells) :
    checkElements mismatch .strsxp cells = .ok () := by
  rw [checkElements_ok_iff, nativeCells_text htext.1 htext.2 hfits h]
  intro cell hcell
  obtain ⟨row, hrow, rfl⟩ := List.mem_map.mp hcell
  cases row with
  | null level =>
      rfl
  | present value =>
      have hvalue : value.type = .byteArray := by
        rw [(hfits _ hrow).1, htext.2]
      cases value <;> cases hvalue
      rfl

/-- One turn of the materializing loop on a text chunk. -/
theorem materializeStep_text
    {b : DenseBatch} {state : List Block × Flags} {position want : Nat}
    (hjob : job.Holds rows)
    (htext : job.spec.IsText)
    (hvector : job.sexptype = .strsxp)
    (hr : r.Faithful job.spec rows)
    (hread : r.readBatch position want = some b)
    (hcount : b.count = want) :
    materializeStep native job r state (position, want) =
      scatterDenseColumn job.spec b state.2 >>= fun found =>
        .ok (state.1 ++ [(job.offset + position, found.1)], found.2) := by
  have hfits := hjob.fits_slice position want
  rw [materializeStep, hread]
  dsimp only
  rw [if_neg (not_not.mpr hcount)]
  cases hscatter : scatterDenseColumn job.spec b state.2 with
  | error e =>
      rfl
  | ok found =>
      obtain ⟨cells, flags'⟩ := found
      have hcells := (scatterDenseColumn_ok htext.supported hfits
        (hr position want b hread hcount) hscatter).1
      rw [ok_bind, ok_bind, hvector]
      dsimp only
      rw [checkElements_text htext hfits hcells]
      rfl

/-- The materializing loop fails on bad rows only. -/
theorem materializeChunk_text
    (hchunk : 0 < chunk)
    (hjob : job.Holds rows)
    (htext : job.spec.IsText)
    (hvector : job.sexptype = .strsxp)
    (hr : r.Decodes job.spec rows) :
    TextOutcome (materializeChunk native job r chunk flags)
      (BadText rows) := by
  cases hresult : materializeChunk native job r chunk flags with
  | ok result =>
      obtain ⟨cells, hcells, -⟩ :=
        materializeChunk_ok hchunk hjob hr.faithful hresult
      exact not_badText_of_nativeCells htext hcells
  | error e =>
      obtain ⟨state, ⟨position, want⟩, hslice, hstep⟩ :=
        exists_of_foldlM_error hresult
      obtain ⟨-, hbound, hwant, -⟩ := mem_slices hchunk hslice
      simp only at hbound hwant
      obtain ⟨b, hread, hcount⟩ := hr.whole position want hwant
        (by rw [hjob.length_eq]; omega)
      have houtcome := (scatterDenseColumn_text state.2 htext
        (hjob.fits_slice position want)
        (hr.faithful position want b hread hcount)).map
          fun found => (state.1 ++ [(job.offset + position, found.1)], found.2)
      rw [← materializeStep_text hjob htext hvector hr.faithful hread hcount,
        hstep] at houtcome
      refine ⟨houtcome.1, houtcome.2.mono ?_⟩
      intro row hrow
      exact List.drop_subset _ _ (List.take_subset _ _ hrow)

/-- The materializing loop names the first bad row as it is counted in its
batch. -/
theorem materializeChunk_firstBad
    {k : Nat}
    (hchunk : 0 < chunk)
    (hjob : job.Holds rows)
    (htext : job.spec.IsText)
    (hvector : job.sexptype = .strsxp)
    (hr : r.Decodes job.spec rows)
    (hbad : FirstBadAt rows k) :
    ∃ e, materializeChunk native job r chunk flags = .error e ∧
      e.textPlace = some (job.spec.name, k % chunk + 1) := by
  -- along the slices: `j` is counted from the rows that are left
  have hloop : ∀ start remaining, start + remaining = rows.length →
      ∀ j state, FirstBadAt (rows.drop start) j →
        ∃ e, (slices chunk start remaining).foldlM (materializeStep native job r) state =
            .error e ∧ e.textPlace = some (job.spec.name, j % chunk + 1) := by
    refine slices_induction hchunk ?_ ?_
    · intro start hend j state hfirst
      obtain ⟨⟨bytes, hj, -⟩, -⟩ := hfirst
      rw [List.drop_eq_nil_of_le (by omega)] at hj
      cases hj
    · intro start remaining hpos ih hend j state hfirst
      have hbound : start + min remaining chunk ≤ rows.length := by omega
      obtain ⟨b, hread, hcount⟩ := hr.whole start _ (by omega) hbound
      have hfits := hjob.fits_slice start (min remaining chunk)
      have hdelivers := hr.faithful start _ b hread hcount
      rw [slices_pos hchunk hpos, List.foldlM_cons,
        materializeStep_text hjob htext hvector hr.faithful hread hcount]
      by_cases hj : j < min remaining chunk
      · obtain ⟨e, he, hplace⟩ := scatterDenseColumn_firstBad state.2 htext hfits
          hdelivers (hfirst.take hj)
        refine ⟨e, ?_, ?_⟩
        · rw [he]
          rfl
        · rw [hplace, Nat.mod_eq_of_lt (by omega)]
      · have hgood : ¬ BadText ((rows.drop start).take (min remaining chunk)) :=
          hfirst.not_badText_take (not_lt.mp hj)
        have houtcome := scatterDenseColumn_text state.2 htext hfits hdelivers
        cases hscatter : scatterDenseColumn job.spec b state.2 with
        | error e =>
            rw [hscatter] at houtcome
            exact absurd houtcome.2 hgood
        | ok found =>
            have hlt : j < remaining := by
              have hlen := hfirst.lt_length
              rw [List.length_drop] at hlen
              omega
            have hrest := hfirst.drop (not_lt.mp hj)
            rw [List.drop_drop] at hrest
            obtain ⟨e, he, hplace⟩ := ih (by omega) _
              (state.1 ++ [(job.offset + start, found.1)], found.2) hrest
            refine ⟨e, he, ?_⟩
            rw [hplace, Nat.min_eq_right (by omega), ← Nat.mod_eq_sub_mod (by omega)]
  exact hloop 0 job.rows (by rw [hjob.length_eq, Nat.zero_add]) k ([], flags) hbad

/-- A dictionary entry that lies within its page. -/
def EntryInBounds (data : Bytes) (offset : Nat) : Prop :=
  offset + 4 ≤ data.length ∧ entryLength data offset ≤ 2 ^ 31 - 1 ∧
    offset + 4 + entryLength data offset ≤ data.length

theorem dictionaryEntry_error
    {data : Bytes} {column : String} {i offset : Nat} {e : ReadError}
    (hbounds : EntryInBounds data offset)
    (h : dictionaryEntry data column i offset = .error e) :
    e.isTextFault = true ∧ TextFault (entryBytes data offset) := by
  obtain ⟨hstart, hlength, hend⟩ := hbounds
  unfold dictionaryEntry at h
  rw [if_neg (by omega), if_neg (by omega)] at h
  simp only [bind_eq_error_iff, pure_eq_ok, reduceCtorEq, and_false,
    exists_false, or_false] at h
  have hvalid : ByteArrayRef.Valid
      ⟨some (offset + 4), entryLength data offset⟩ :=
    ⟨Int.natCast_nonneg _, fun _ => rfl⟩
  refine ⟨isTextFault_of_checkStringBytes hvalid h, ?_⟩
  by_contra hgood
  rw [(checkStringBytes_ok_iff hvalid).mpr hgood] at h
  cases h

/-- Converting a dictionary fails on any entry that is not text. -/
theorem dictionaryStrings_text
    {data : Bytes} {count : Nat} {offsets : List Nat} (column : String)
    (hroom : count ≤ offsets.length)
    (hbounds : ∀ offset ∈ offsets.take count, EntryInBounds data offset) :
    TextOutcome (dictionaryStrings data count offsets column)
      (∃ offset ∈ offsets.take count,
        TextFault (entryBytes data offset)) := by
  cases hresult : dictionaryStrings data count offsets column with
  | ok dict =>
      obtain ⟨rfl, hgood⟩ := dictionaryStrings_ok hresult
      rintro ⟨offset, hoffset, hfault⟩
      exact hgood _ (List.mem_map_of_mem hoffset) hfault
  | error e =>
      rw [dictionaryStrings, if_neg (by omega)] at hresult
      generalize offsets.take count = entries at hbounds hresult ⊢
      generalize 0 = i at hresult
      induction entries generalizing i with
      | nil =>
          cases hresult
      | cons offset entries ih =>
          simp only [dictionaryEntries, bind_eq_error_iff, pure_eq_ok,
            reduceCtorEq, and_false, exists_false, or_false] at hresult
          rcases hresult with hentry | ⟨_, -, hrest⟩
          · obtain ⟨hkind, hfault⟩ :=
              dictionaryEntry_error (hbounds offset (by simp)) hentry
            exact ⟨hkind, offset, by simp, hfault⟩
          · obtain ⟨hkind, offset', hmem, hfault⟩ := ih
              (fun offset hoffset => hbounds offset (by simp [hoffset]))
              (i + 1) hrest
            exact ⟨hkind, offset', by simp [hmem], hfault⟩

/-- With a dictionary of text the index loop always comes to an end. -/
theorem dictionaryLoop_exists
    {page : DictionaryPage} {offsets : List Nat} {dict : List Bytes}
    (hchunk : 0 < chunk)
    (hjob : job.Holds rows)
    (htext : job.spec.IsText)
    (hvector : job.sexptype = .strsxp)
    (hpage : r.dictionary = some page)
    (hoffsets : page.offsets = some offsets)
    (hr : r.FaithfulIndices job.spec rows)
    (hdict : dict = (offsets.take page.count.toNat).map
      (entryBytes page.data))
    (hgood : ∀ entry ∈ dict, ¬ TextFault entry)
    (start remaining : Nat) :
    ∀ blocks, ∃ result,
      dictionaryLoop job r dict (slices chunk start remaining) blocks =
        .ok result := by
  refine slices_induction hchunk
    (motive := fun start remaining => ∀ blocks, ∃ result,
      dictionaryLoop job r dict (slices chunk start remaining) blocks =
        .ok result) ?_ ?_ start remaining
  · intro start blocks
    exact ⟨(.dictionary, blocks), by simp [dictionaryLoop]⟩
  · intro start remaining hpos ih blocks
    rw [slices_pos hchunk hpos, dictionaryLoop]
    cases hread : r.readIndices start (min remaining chunk) with
    | none =>
        exact ⟨_, rfl⟩
    | some b =>
        simp only
        split_ifs with hshort
        · exact ⟨_, rfl⟩
        · rw [not_or, not_not] at hshort
          obtain ⟨hlevels, dense, stale, hindices, hvalues⟩ :=
            hr page offsets hpage hoffsets start _ b hread hshort.2
          have hentries : List.Forall₂
              (fun index v => ∃ entry, dict[index]? = some entry ∧
                v = PhysValue.byteArray entry) dense
              (rowValues ((rows.drop start).take
                (min remaining chunk))).reduceOption := by
            refine hvalues.imp ?_
            rintro index v ⟨hlt, offset, hoffset, rfl⟩
            refine ⟨entryBytes page.data offset, ?_, rfl⟩
            rw [hdict, List.getElem?_map, List.getElem?_take_of_lt hlt,
              hoffset]
            rfl
          have hfits := hjob.fits_slice start (min remaining chunk)
          obtain ⟨cells, hcells⟩ :=
            scatterDictionaryStrings_exists hfits hlevels hindices hentries
          have hnative := scatterDictionaryStrings_ok htext.1 hfits htext.2
            hgood hlevels hindices hentries hcells
          rw [hcells, ok_bind, hvector,
            checkElements_text htext hfits hnative, ok_bind]
          exact ih _

/-- What "decoding succeeds" means for one text chunk: it opens, its batches
decode, and a dictionary that is loaded is well formed. -/
structure ChunkDecodes
    (native : NativeReader) (job : ChunkJob) (rows : List Row) : Prop where
  opens : ∀ attempt, ∃ r,
    native.getColumn attempt job.rowGroup job.fileColumn = .ok r ∧
      r.Decodes job.spec rows
  dictionary : ∀ r page offsets,
    native.getColumn 0 job.rowGroup job.fileColumn = .ok r →
    loadedDictionary native job r = some (page, offsets) →
    page.count.toNat ≤ offsets.length ∧
      ∀ offset ∈ offsets.take page.count.toNat,
        EntryInBounds page.data offset

/-- The dictionary an attempt loads has an entry that is not text. -/
def BadEntry (native : NativeReader) (job : ChunkJob) : Prop :=
  ∃ r page offsets,
    native.getColumn 0 job.rowGroup job.fileColumn = .ok r ∧
      loadedDictionary native job r = some (page, offsets) ∧
      ∃ offset ∈ offsets.take page.count.toNat,
        TextFault (entryBytes page.data offset)

theorem ChunkDecodes.openColumn_eq
    (h : ChunkDecodes native job rows) (attempt : Nat) :
    ∃ r, native.getColumn attempt job.rowGroup job.fileColumn = .ok r ∧
      openColumn native job attempt = .ok r ∧ r.Decodes job.spec rows := by
  obtain ⟨r, hget, hr⟩ := h.opens attempt
  exact ⟨r, hget, by rw [openColumn, hget], hr⟩

/-- How a text chunk is read: the dictionary attempt raises on a bad entry, or it
reads the chunk, or the chunk is read by the materializing loop. -/
theorem collectMainChunk_cases
    (hchunk : 0 < chunk)
    (hjob : job.Holds rows)
    (htext : job.spec.IsText)
    (hvector : job.sexptype = .strsxp)
    (hdecodes : ChunkDecodes native job rows) :
    (BadEntry native job ∧ RaisesText (collectMainChunk native job chunk flags)) ∨
      (¬ BadEntry native job ∧ ¬ BadText rows ∧
        ∃ found, collectMainChunk native job chunk flags = .ok found) ∨
      (¬ BadEntry native job ∧ ∃ r blocks, r.Decodes job.spec rows ∧
        collectMainChunk native job chunk flags =
          materializeChunk native job r chunk flags >>= fun found =>
            .ok (blocks ++ found.1, found.2)) := by
  obtain ⟨r, hget, hopen, hr⟩ := hdecodes.openColumn_eq 0
  obtain ⟨r', -, hopen', hr'⟩ := hdecodes.openColumn_eq 1
  have hread : collectMainChunk native job chunk flags =
      collectDictionaryChunk native job r chunk >>= fun attempt =>
        if attempt.1 = .dictionary then .ok (attempt.2, flags)
        else materializeChunk native job r' chunk flags >>= fun found =>
          .ok (attempt.2 ++ found.1, found.2) := by
    rw [collectMainChunk, hopen, ok_bind, if_pos ⟨htext.1, htext.2⟩, hopen']
    rfl
  rw [hread]
  rcases collectDictionaryChunk_cases native job r chunk with
    ⟨hnone, path, hpath, heq⟩ | ⟨page, offsets, hloaded, heq⟩
  · have hentry : ¬ BadEntry native job := by
      rintro ⟨r'', page, offsets, hget', hloaded, -⟩
      rw [hget] at hget'
      cases hget'
      rw [hnone] at hloaded
      cases hloaded
    refine Or.inr (Or.inr ⟨hentry, r', [], hr', ?_⟩)
    rw [heq, ok_bind, if_neg hpath]
  obtain ⟨hroom, hbounds⟩ := hdecodes.dictionary r page offsets hget hloaded
  have hstrings := dictionaryStrings_text job.spec.name hroom hbounds
  have hentry : BadEntry native job ↔
      ∃ offset ∈ offsets.take page.count.toNat,
        TextFault (entryBytes page.data offset) := by
    constructor
    · rintro ⟨r'', page', offsets', hget', hloaded', hbad⟩
      rw [hget] at hget'
      cases hget'
      rw [hloaded] at hloaded'
      cases hloaded'
      exact hbad
    · intro hbad
      exact ⟨r, page, offsets, hget, hloaded, hbad⟩
  cases hdict : dictionaryStrings page.data page.count.toNat offsets
      job.spec.name with
  | error e =>
      rw [hdict] at hstrings
      refine Or.inl ⟨hentry.mpr hstrings.2, e, ?_, hstrings.1⟩
      rw [heq, hdict]
      rfl
  | ok dict =>
      rw [hdict] at hstrings
      have hgood : ¬ BadEntry native job := fun h => hstrings (hentry.mp h)
      obtain ⟨hdictionary, hoffsets⟩ := loadedDictionary_eq_some hloaded
      obtain ⟨hentries, hfaults⟩ := dictionaryStrings_ok hdict
      obtain ⟨⟨path, blocks⟩, hloop⟩ := dictionaryLoop_exists hchunk hjob
        htext hvector hdictionary hoffsets hr.indices hentries hfaults 0
        job.rows []
      have hresult : collectDictionaryChunk native job r chunk =
          .ok (path, blocks) := by
        rw [heq, hdict, ok_bind, hloop]
      rw [hresult, ok_bind]
      by_cases hpath : path = .dictionary
      · have hattempt := collectDictionaryChunk_ok hchunk hjob htext.1
          htext.2 hr.indices hresult
        obtain ⟨cells, hcells, -⟩ := hattempt.complete hpath
        exact Or.inr (Or.inl ⟨hgood, not_badText_of_nativeCells htext hcells, _,
          if_pos hpath⟩)
      · exact Or.inr (Or.inr ⟨hgood, r', blocks, hr', if_neg hpath⟩)

/-- Reading a text chunk fails on bad rows, and on bad entries of the loaded
dictionary whether rows refer to them or not. -/
theorem collectMainChunk_text
    (hchunk : 0 < chunk)
    (hjob : job.Holds rows)
    (htext : job.spec.IsText)
    (hvector : job.sexptype = .strsxp)
    (hdecodes : ChunkDecodes native job rows) :
    TextOutcome (collectMainChunk native job chunk flags)
      (BadText rows ∨ BadEntry native job) := by
  rcases collectMainChunk_cases hchunk hjob htext hvector hdecodes with
    ⟨hentry, e, he, hfault⟩ | ⟨hentry, hgood, found, hfound⟩ |
      ⟨hentry, r, blocks, hr, heq⟩
  · rw [he]
    exact ⟨hfault, Or.inr hentry⟩
  · rw [hfound]
    exact not_or.mpr ⟨hgood, hentry⟩
  · rw [heq]
    exact ((materializeChunk_text hchunk hjob htext hvector hr).map
      fun found => (blocks ++ found.1, found.2)).congr (by simp [hentry])

/-- A chunk with a bad row and no bad entry: the row is named as it is counted in
its batch. -/
theorem collectMainChunk_firstBad
    {k : Nat}
    (hchunk : 0 < chunk)
    (hjob : job.Holds rows)
    (htext : job.spec.IsText)
    (hvector : job.sexptype = .strsxp)
    (hdecodes : ChunkDecodes native job rows)
    (hentry : ¬ BadEntry native job)
    (hbad : FirstBadAt rows k) :
    ∃ e, collectMainChunk native job chunk flags = .error e ∧
      e.textPlace = some (job.spec.name, k % chunk + 1) := by
  rcases collectMainChunk_cases hchunk hjob htext hvector hdecodes with
    ⟨hentry', -⟩ | ⟨-, hgood, -⟩ | ⟨-, r, blocks, hr, heq⟩
  · exact absurd hentry' hentry
  · exact absurd hbad.badText hgood
  · obtain ⟨e, he, hplace⟩ :=
      materializeChunk_firstBad hchunk hjob htext hvector hr hbad
    refine ⟨e, ?_, hplace⟩
    rw [heq, he]
    rfl

end Chunks

section Reads

variable {file : ParquetFile} {ctx : CollectContext} {handle : Handle}
  {targets : List TargetColumn} {run : List Action}
  {result : Except ReadError ReadResult}

/-- What "decoding succeeds" means for a collect: it is not too large, no task
fails, the text chunks decode, and the other columns of the main thread are
read without an error. -/
structure ReadDecodes
    (ctx : CollectContext) (targets : List TargetColumn) : Prop where
  rows_le : ctx.selection.totalRows ≤ 2 ^ 31 - 1
  tasks : ∀ task ∈ ctx.tasks targets,
    (columnTaskRun ctx.native task).failure = none
  text : ∀ target ∈ targets, target.column.spec.IsText →
    ∀ plan ∈ ctx.plans, ∀ group, (plan.index, group) ∈ ctx.groups →
      ChunkDecodes ctx.native (target.job plan)
        (group.chunk target.column.fileColumn)
  others : ∀ target ∈ targets, ¬ target.column.spec.IsText →
    ∀ plan ∈ ctx.plans, ∀ flags, target.onMain = true →
      ∃ found, collectMainChunk ctx.native (target.job plan) ctx.chunk
        flags = .ok found

theorem ColumnSpec.IsText.onMain
    {target : TargetColumn}
    (htext : target.column.spec.IsText) :
    target.onMain = true := by
  simp [TargetColumn.onMain, needsMainThread, htext.2]

/-- The vector of a text column is a character vector. -/
theorem text_vector
    {target : TargetColumn}
    (halloc : allocateResult ctx.selection = .ok targets)
    (htarget : target ∈ targets)
    (htext : target.column.spec.IsText) :
    target.sexptype = .strsxp := by
  have h := (allocateResult_ok halloc).2.2 target htarget
  simpa [columnSexpType, htext.1, htext.2, eq_comm] using h

theorem job_holds_plan
    {target : TargetColumn} {plan : GroupPlan} {group : RowGroup}
    (hctx : ctx.Reads file)
    (halloc : allocateResult ctx.selection = .ok targets)
    (htarget : target ∈ targets)
    (hplan : plan ∈ ctx.plans)
    (hgroup : (plan.index, group) ∈ ctx.groups) :
    (target.job plan).Holds (group.chunk target.column.fileColumn) := by
  obtain ⟨group', hgroup', hrows⟩ := exists_group_of_plan hplan
  have hsame : group' = group := by
    rw [hctx.groups_eq] at hgroup hgroup'
    exact Option.some.inj ((Selection.mem_groups hgroup').symm.trans
      (Selection.mem_groups hgroup))
  obtain ⟨index, rows, offset⟩ := plan
  simp only at hrows
  rw [hrows, hsame]
  exact job_holds offset hctx halloc htarget hgroup

/-- What reading a text chunk of the selection comes to. -/
theorem chunk_text
    {target : TargetColumn} {plan : GroupPlan} {group : RowGroup}
    (hctx : ctx.Reads file)
    (halloc : allocateResult ctx.selection = .ok targets)
    (hdecodes : ReadDecodes ctx targets)
    (htarget : target ∈ targets)
    (htext : target.column.spec.IsText)
    (hplan : plan ∈ ctx.plans)
    (hgroup : (plan.index, group) ∈ ctx.groups) (flags : Flags) :
    TextOutcome
      (collectMainChunk ctx.native (target.job plan) ctx.chunk flags)
      (BadText (group.chunk target.column.fileColumn) ∨
        BadEntry ctx.native (target.job plan)) :=
  collectMainChunk_text (chunk_pos ctx)
    (job_holds_plan hctx halloc htarget hplan hgroup) htext
    (text_vector halloc htarget htext)
    (hdecodes.text target htarget htext plan hplan group hgroup)

/-- A text chunk of the selection for which something holds. -/
def SomeTextChunk
    (ctx : CollectContext) (targets : List TargetColumn)
    (p : TargetColumn → GroupPlan → RowGroup → Prop) : Prop :=
  ∃ target ∈ targets, target.column.spec.IsText ∧
    ∃ plan ∈ ctx.plans, ∃ group, (plan.index, group) ∈ ctx.groups ∧
      p target plan group

/-- The main-thread pass fails on the text chunks that fail. -/
theorem main_text
    (hctx : ctx.Reads file)
    (halloc : allocateResult ctx.selection = .ok targets)
    (hdecodes : ReadDecodes ctx targets) :
    TextOutcome (ctx.main targets)
      (SomeTextChunk ctx targets fun target plan group =>
        BadText (group.chunk target.column.fileColumn) ∨
          BadEntry ctx.native (target.job plan)) := by
  cases hmain : ctx.main targets with
  | ok main =>
      rintro ⟨target, htarget, htext, plan, hplan, group, hgroup, hbad⟩
      obtain ⟨steps, hjobs, hreads, -⟩ := mainPass_steps hmain
      have hjob : (target.index, target.job plan) ∈
          mainJobs ctx.plans targets := by
        simp only [mainJobs, List.mem_flatMap, List.mem_map,
          List.mem_filter]
        exact ⟨plan, hplan, target, ⟨htarget, htext.onMain⟩, rfl⟩
      rw [← hjobs] at hjob
      obtain ⟨⟨entry, blocks⟩, hstep, rfl⟩ := List.mem_map.mp hjob
      obtain ⟨flags, flags', hread⟩ := hreads _ hstep
      have houtcome := chunk_text hctx halloc hdecodes htarget htext hplan
        hgroup flags
      rw [hread] at houtcome
      exact houtcome hbad
  | error e =>
      obtain ⟨state, entry, hentry, hstep⟩ := exists_of_foldlM_error hmain
      have hread : collectMainChunk ctx.native entry.2 ctx.chunk
          (state.flags entry.1) = .error e := by
        simpa [mainStep, bind_eq_error_iff] using hstep
      simp only [mainJobs, List.mem_flatMap, List.mem_map,
        List.mem_filter] at hentry
      obtain ⟨plan, hplan, target, ⟨htarget, honMain⟩, rfl⟩ := hentry
      by_cases htext : target.column.spec.IsText
      · obtain ⟨group, hgroup, -⟩ := exists_group_of_plan hplan
        have houtcome := chunk_text hctx halloc hdecodes htarget htext hplan
          hgroup (state.flags target.index)
        rw [hread] at houtcome
        exact ⟨houtcome.1, target, htarget, htext, plan, hplan, group,
          hgroup, houtcome.2⟩
      · obtain ⟨found, hfound⟩ := hdecodes.others target htarget htext plan
          hplan (state.flags target.index) honMain
        rw [hfound] at hread
        cases hread

/-- A collect whose tasks do not fail raises what the main-thread pass raises, and
returns when the pass does. -/
theorem CollectRun.outcome_of_main
    (hctx : ctx.Reads file)
    (halloc : allocateResult ctx.selection = .ok targets)
    (hdecodes : ReadDecodes ctx targets)
    (h : CollectRun ctx handle run result) :
    (∃ e, ctx.main targets = .error e ∧ result = .error e) ∨
      (∃ main value, ctx.main targets = .ok main ∧ result = .ok value) := by
  have hok : NoTaskFails ctx := by
    intro targets' halloc'
    rw [halloc] at halloc'
    cases halloc'
    exact hdecodes.tasks
  rw [h.result_eq hok, collectResult,
    if_neg (not_lt.mpr hdecodes.rows_le), halloc, ok_bind]
  split_ifs with hempty
  · have hmain : ctx.main targets = .ok ⟨[], fun _ => Flags.none⟩ := by
      rcases hempty with hrows | hcolumns
      · rw [CollectContext.main, hctx.plans_eq_nil hrows]
        rfl
      · have hmap := (allocateResult_ok halloc).2.1
        rw [hcolumns, List.map_eq_nil_iff] at hmap
        have hjobs : mainJobs ctx.plans targets = [] := by
          simp [mainJobs, hmap, List.flatMap_eq_nil_iff]
        rw [CollectContext.main, hjobs]
        rfl
    exact Or.inr ⟨_, _, hmain, rfl⟩
  · rw [serialResult]
    cases hmain : ctx.main targets with
    | error e =>
        exact Or.inl ⟨e, rfl, rfl⟩
    | ok main =>
        rw [ok_bind, collectEnd, firstFailure_eq_none_iff.mpr hdecodes.tasks]
        exact Or.inr ⟨main, _, rfl, rfl⟩

theorem CollectRun.raisesText_iff
    (hctx : ctx.Reads file)
    (halloc : allocateResult ctx.selection = .ok targets)
    (hdecodes : ReadDecodes ctx targets)
    (h : CollectRun ctx handle run result) :
    RaisesText result ↔ RaisesText (ctx.main targets) := by
  rcases h.outcome_of_main hctx halloc hdecodes with
    ⟨e, hmain, rfl⟩ | ⟨main, value, hmain, rfl⟩
  · rw [hmain]
    constructor
    · rintro ⟨e', he', hfault⟩
      cases he'
      exact ⟨e, rfl, hfault⟩
    · rintro ⟨e', he', hfault⟩
      cases he'
      exact ⟨e, rfl, hfault⟩
  · rw [hmain]
    constructor
    · rintro ⟨e, he, -⟩
      cases he
    · rintro ⟨e, he, -⟩
      cases he

/-- A bad row of a column is in one of its planned chunks. -/
theorem badText_columnRows_iff
    {target : TargetColumn}
    (hctx : ctx.Reads file)
    (halloc : allocateResult ctx.selection = .ok targets)
    (htarget : target ∈ targets) :
    BadText (ctx.columnRows target.column) ↔
      ∃ plan ∈ ctx.plans, ∃ group, (plan.index, group) ∈ ctx.groups ∧
        BadText (group.chunk target.column.fileColumn) := by
  rw [CollectContext.columnRows, badText_flatMap]
  constructor
  · rintro ⟨⟨index, group⟩, hgroup, hbad⟩
    have hlen := (job_holds 0 hctx halloc htarget hgroup).length_eq
    obtain ⟨bytes, hmem, -⟩ := id hbad
    have hpos := List.length_pos_of_mem hmem
    simp only [TargetColumn.job] at hlen hpos
    obtain ⟨before, after, hsplit⟩ := List.append_of_mem hgroup
    exact ⟨_, plan_mem hsplit (by omega), group, hgroup, hbad⟩
  · rintro ⟨plan, -, group, hgroup, hbad⟩
    exact ⟨_, hgroup, hbad⟩

/-- Whether a text column is accepted is independent of its encoding exactly
when every selected chunk has a bad row or no bad entry in the dictionary that
is loaded for it. Independent means: a collect raises a text-validity error if
and only if a selected present row holds a value that is not text, and each
chunk is refused as its materializing read and its batches would be. -/
theorem text_validity_encoding_iff
    (hctx : ctx.Reads file)
    (halloc : allocateResult ctx.selection = .ok targets)
    (hdecodes : ReadDecodes ctx targets)
    (hrun : CollectRun ctx handle run result) :
    ((RaisesText result ↔
        ∃ target ∈ targets, target.column.spec.IsText ∧
          BadText (ctx.columnRows target.column)) ∧
      ∀ target ∈ targets, target.column.spec.IsText →
        ∀ plan ∈ ctx.plans, ∀ group, (plan.index, group) ∈ ctx.groups →
        ∀ flags,
          (∀ r, ctx.native.getColumn 1 plan.index
              target.column.fileColumn = .ok r →
            (RaisesText (collectMainChunk ctx.native (target.job plan)
                ctx.chunk flags) ↔
              RaisesText (materializeChunk ctx.native (target.job plan) r
                ctx.chunk flags))) ∧
          ∀ a : AlignedColumn,
            a.Delivers (group.chunk target.column.fileColumn) →
            (RaisesText (collectMainChunk ctx.native (target.job plan)
                ctx.chunk flags) ↔
              RaisesText (copyBatchColumn target.column.spec a
                (group.chunk target.column.fileColumn).length flags))) ↔
      ∀ target ∈ targets, target.column.spec.IsText →
        ∀ plan ∈ ctx.plans, ∀ group, (plan.index, group) ∈ ctx.groups →
          BadText (group.chunk target.column.fileColumn) ∨
            ¬ BadEntry ctx.native (target.job plan) := by
  have hraises := (hrun.raisesText_iff hctx halloc hdecodes).trans
    (main_text hctx halloc hdecodes).raises_iff
  constructor
  · -- a refused chunk would be refused by the materializing read too
    rintro ⟨-, hchunks⟩ target htarget htext plan hplan group hgroup
    rw [or_iff_not_imp_right, not_not]
    intro hentry
    have hholds := job_holds_plan hctx halloc htarget hplan hgroup
    have hchunk := hdecodes.text target htarget htext plan hplan group hgroup
    obtain ⟨r, hget, hr⟩ := hchunk.opens 1
    have hcollect := (chunk_text hctx halloc hdecodes htarget htext hplan
      hgroup Flags.none).raises_iff.mpr (Or.inr hentry)
    have hmaterialize := ((hchunks target htarget htext plan hplan group
      hgroup Flags.none).1 r hget).mp hcollect
    exact (materializeChunk_text (chunk_pos ctx) hholds htext
      (text_vector halloc htarget htext) hr).raises_iff.mp hmaterialize
  · intro hcondition
    have hchunk : ∀ target ∈ targets, target.column.spec.IsText →
        ∀ plan ∈ ctx.plans, ∀ group, (plan.index, group) ∈ ctx.groups →
        (BadText (group.chunk target.column.fileColumn) ∨
            BadEntry ctx.native (target.job plan) ↔
          BadText (group.chunk target.column.fileColumn)) := by
      intro target htarget htext plan hplan group hgroup
      rcases hcondition target htarget htext plan hplan group hgroup with
        hbad | hgood
      · simp [hbad]
      · simp [hgood]
    refine ⟨?_, ?_⟩
    · rw [hraises]
      constructor
      · rintro ⟨target, htarget, htext, plan, hplan, group, hgroup, hbad⟩
        rw [hchunk target htarget htext plan hplan group hgroup] at hbad
        exact ⟨target, htarget, htext, (badText_columnRows_iff hctx halloc
          htarget).mpr ⟨plan, hplan, group, hgroup, hbad⟩⟩
      · rintro ⟨target, htarget, htext, hbad⟩
        obtain ⟨plan, hplan, group, hgroup, hbad⟩ :=
          (badText_columnRows_iff hctx halloc htarget).mp hbad
        exact ⟨target, htarget, htext, plan, hplan, group, hgroup,
          Or.inl hbad⟩
    · intro target htarget htext plan hplan group hgroup flags
      have hholds := job_holds_plan hctx halloc htarget hplan hgroup
      rw [((chunk_text hctx halloc hdecodes htarget htext hplan hgroup
        flags).congr (hchunk target htarget htext plan hplan group
        hgroup)).raises_iff]
      constructor
      · intro r hget
        obtain ⟨r', hget', hr⟩ := (hdecodes.text target htarget htext plan
          hplan group hgroup).opens 1
        obtain rfl : r = r' := Except.ok.inj (hget.symm.trans hget')
        exact (materializeChunk_text (chunk_pos ctx) hholds htext
          (text_vector halloc htarget htext) hr).raises_iff.symm
      · intro a ha
        exact (copyBatchColumn_text flags htext hholds.fits
          ha).raises_iff.symm

end Reads

section UnusedEntry

/-- A text column without nulls. -/
def labelLeaf : Leaf :=
  ⟨["label"], .byteArray, 0, 0, 0, none⟩

def labelColumn : ColumnSpec :=
  labelLeaf.column .text .double

/-- One row, the letter a. -/
def labelFile : ParquetFile where
  leaves := [labelLeaf]
  rowGroups := [⟨1, fun _ => [.present (.byteArray [97])]⟩]
  chunk_length := by simp
  chunk_fits := by
    intro group hgroup index leaf hleaf _ row hrow
    obtain rfl := List.mem_singleton.mp hgroup
    obtain rfl := List.mem_singleton.mp hrow
    obtain rfl : labelLeaf = leaf := by
      rcases index with _ | _ <;> simp at hleaf
      exact hleaf
    constructor <;> simp [labelLeaf, Leaf.column, PhysValue.type]

/-- A reader of the row. Its dictionary holds the letter and the byte 255,
which no row refers to. -/
def staleReader : ColumnReader :=
  { rowReader labelColumn [.present (.byteArray [97])] with
    setPreserve := true
    loadPage := true
    dictionary := some ⟨[1, 0, 0, 0, 97, 1, 0, 0, 0, 255], 2, some [0, 5]⟩
    readIndices := fun position want =>
      if position = 0 ∧ want = 1 then some ⟨1, none, [0], by simp⟩ else
        none }

def staleContext : CollectContext where
  native := ⟨fun _ _ _ => .ok staleReader,
    fun _ _ => some ⟨true, "PLAIN, RLE_DICTIONARY"⟩⟩
  selection := ⟨[⟨0, labelColumn⟩], [true], 1⟩
  groups := [(0, ⟨1, fun _ => [.present (.byteArray [97])]⟩)]
  batchSize := 65536

def staleTargets : List TargetColumn :=
  [⟨0, ⟨0, labelColumn⟩, .strsxp⟩]

theorem staleContext_reads : staleContext.Reads labelFile :=
  ⟨⟨none, none, [2], .double, rfl⟩, rfl⟩

theorem staleContext_alloc :
    allocateResult staleContext.selection = .ok staleTargets :=
  rfl

theorem staleReader_decodes :
    staleReader.Decodes labelColumn [.present (.byteArray [97])] where
  whole := by
    intro position want hwant hbound
    obtain rfl : position = 0 := by
      simp at hbound
      omega
    obtain rfl : want = 1 := by
      simp at hbound
      omega
    exact ⟨_, rfl, rfl⟩
  faithful := rowReader_faithful labelColumn _
  indices := by
    intro page offsets hpage hoffsets position want b hread _
    obtain rfl := Option.some.inj hpage
    obtain rfl : [0, 5] = offsets := Option.some.inj hoffsets
    simp only [staleReader] at hread
    split_ifs at hread with hfirst
    obtain ⟨rfl, rfl⟩ := hfirst
    cases hread
    refine ⟨⟨rfl, ?_⟩, [0], [], rfl, ?_⟩
    · rfl
    · refine List.Forall₂.cons ⟨by decide, 0, rfl, ?_⟩ .nil
      decide +kernel

theorem staleContext_decodes : ReadDecodes staleContext staleTargets where
  rows_le := by decide
  tasks := by
    intro task htask
    cases htask
  text := by
    intro target htarget _ plan hplan group hgroup
    obtain rfl := List.mem_singleton.mp htarget
    obtain ⟨-, rfl⟩ := Prod.mk.inj (List.mem_singleton.mp hgroup)
    refine ⟨fun _ => ⟨staleReader, rfl, staleReader_decodes⟩, ?_⟩
    intro r page offsets hget hloaded
    cases hget
    obtain ⟨rfl, rfl⟩ : page = ⟨[1, 0, 0, 0, 97, 1, 0, 0, 0, 255], 2,
        some [0, 5]⟩ ∧ offsets = [0, 5] := by
      obtain ⟨hpage, hoffsets⟩ := loadedDictionary_eq_some hloaded
      obtain rfl := Option.some.inj hpage
      exact ⟨rfl, (Option.some.inj hoffsets).symm⟩
    refine ⟨by decide, ?_⟩
    intro offset hoffset
    have hcases : offset = 0 ∨ offset = 5 := by
      simpa using hoffset
    rcases hcases with rfl | rfl
    · exact ⟨by decide, by decide, by decide⟩
    · exact ⟨by decide, by decide, by decide⟩
  others := by
    intro target htarget htext
    obtain rfl := List.mem_singleton.mp htarget
    exact absurd ⟨rfl, rfl⟩ htext

theorem staleContext_main :
    staleContext.main staleTargets =
      .error (.invalidUtf8 "label" 2 1) := by
  rfl

theorem staleContext_collect :
    CollectRun staleContext serialHandle []
      (.error (.invalidUtf8 "label" 2 1)) :=
  .read (by decide) staleContext_alloc (by decide) (by simp [staleContext])
    (.inlineRaised (executionMode_serial rfl) rfl staleContext_main)

theorem staleContext_rows_good :
    ¬ BadText (staleContext.columnRows ⟨0, labelColumn⟩) := by
  rintro ⟨bytes, hmem, hfault⟩
  obtain rfl : bytes = [97] := by
    simpa [staleContext, CollectContext.columnRows] using hmem
  revert hfault
  decide +kernel

/-- The condition fails for this read: its one chunk has a bad entry in the
dictionary and no bad row. -/
theorem text_validity_encoding_iff_unused :
    CollectRun staleContext serialHandle []
        (.error (.invalidUtf8 "label" 2 1)) ∧
      ¬ ∀ target ∈ staleTargets, target.column.spec.IsText →
        ∀ plan ∈ staleContext.plans, ∀ group,
          (plan.index, group) ∈ staleContext.groups →
          BadText (group.chunk target.column.fileColumn) ∨
            ¬ BadEntry staleContext.native (target.job plan) := by
  refine ⟨staleContext_collect, ?_⟩
  intro hcondition
  have hraises := ((text_validity_encoding_iff staleContext_reads
    staleContext_alloc staleContext_decodes staleContext_collect).mpr
    hcondition).1
  obtain ⟨target, htarget, -, hbad⟩ := hraises.mp ⟨_, rfl, rfl⟩
  obtain rfl := List.mem_singleton.mp htarget
  exact staleContext_rows_good hbad

/-- The collect raises although the only row is text. -/
theorem unused_entry_raises :
    staleContext.Reads labelFile ∧ ReadDecodes staleContext staleTargets ∧
      ¬ BadText (staleContext.columnRows ⟨0, labelColumn⟩) ∧
      ∃ run result, CollectRun staleContext serialHandle run result ∧
        RaisesText result :=
  ⟨staleContext_reads, staleContext_decodes, staleContext_rows_good, _, _,
    staleContext_collect, _, rfl, rfl⟩

end UnusedEntry

end Read
end QioParquet
