import QioParquet.Page.ChunkLoading
import Mathlib.Tactic

/-!
# Reading a chunk that was stored

qio's reader on carquet's column reader. A stored chunk whose pages keep within the limits
decodes, so that its strings alone decide how the read ends. With a page over a limit the
read fails, whatever the strings are: the column reader cannot deliver as many rows as the
chunk has.
-/

namespace QioParquet
namespace Page

open Lib Read Encoding

section Batches

/-- A row of text, as a row of a chunk. -/
def storedRow : TextRow → Row
  | none => .null 0
  | some bytes => .present (.byteArray bytes)

/-- A flat column that is read as text. -/
structure TextColumn (nullable : Bool) (c : ColumnSpec) : Prop where
  text : c.IsText
  maxDef : c.maxDef = (flatColumn nullable).maxDefLevel

variable {nullable : Bool} {c : ColumnSpec} {rows : List TextRow}

theorem rowValues_storedRow
    (rows : List TextRow) :
    (rowValues (rows.map storedRow)).reduceOption = rows.reduceOption.map .byteArray := by
  induction rows with
  | nil =>
      rfl
  | cons row rows ih =>
      cases row with
      | none =>
          simpa [rowValues, storedRow, Row.value, List.reduceOption_cons_of_none] using ih
      | some bytes =>
          simpa [rowValues, storedRow, Row.value, List.reduceOption_cons_of_some] using ih

theorem storedRow_fits
    (hc : TextColumn nullable c) (hdense : Dense nullable rows) :
    ∀ row ∈ rows.map storedRow, row.Fits c := by
  intro row hrow
  obtain ⟨text, htext, rfl⟩ := List.mem_map.mp hrow
  cases text with
  | none =>
      rcases hdense with rfl | hall
      · simp [storedRow, Row.Fits, hc.maxDef, flatColumn]
      · cases hall none htext
  | some bytes =>
      refine ⟨hc.text.2.symm, fun fixed hfixed => ?_⟩
      cases hfixed

/-- The levels and the dense values of slots that stand for rows. -/
theorem LoadedAs.parts
    {β : Type} {R : β → Bytes → Prop} {slots : List (Nat × Option β)}
    (h : List.Forall₂ (LoadedAs R nullable) slots rows) :
    slots.map Prod.fst = rows.map (fun row => (loadedRow nullable row).1) ∧
      List.Forall₂ R (slots.map Prod.snd).reduceOption rows.reduceOption := by
  induction h with
  | nil =>
      exact ⟨rfl, .nil⟩
  | @cons slot row slots rows hslot _ ih =>
      obtain ⟨level, value⟩ := slot
      obtain ⟨hlevel, hvalue⟩ := hslot
      refine ⟨by rw [List.map_cons, List.map_cons, ih.1, hlevel], ?_⟩
      cases hvalue with
      | none =>
          exact ih.2
      | some hrel =>
          exact .cons hrel ih.2

/-- The levels of a batch are those of its rows. -/
theorem levelsOf_batchLevels
    {β : Type} {R : β → Bytes → Prop} {slots : List (Nat × Option β)}
    (hc : TextColumn nullable c) (h : List.Forall₂ (LoadedAs R nullable) slots rows) :
    LevelsOf (batchLevels c.maxDef slots) slots.length c (rows.map storedRow) := by
  refine ⟨by rw [h.length_eq, List.length_map], ?_⟩
  rw [batchLevels]
  split_ifs with hzero
  · rfl
  · refine ⟨_, rfl, ?_⟩
    rw [List.take_of_length_le (by rw [List.length_map]), (LoadedAs.parts h).1, List.map_map]
    refine List.map_congr_left fun row _ => ?_
    have hnullable : nullable = true := by
      by_contra hnot
      rw [hc.maxDef, Bool.eq_false_of_not_eq_true hnot] at hzero
      exact hzero rfl
    subst hnullable
    have hmax : c.maxDef = 1 := hc.maxDef
    cases row with
    | none =>
        rfl
    | some bytes =>
        simp [loadedRow, rowLevel, storedRow, Row.level, hmax]

/-- The strings of a batch, read behind their descriptors. -/
theorem placeStrings_bytes
    (front : Bytes) (strings : List Bytes) :
    (placeStrings front.length strings).map
        (ByteArrayRef.bytes (pageMemory (front ++ strings.flatten))) = strings := by
  induction strings generalizing front with
  | nil =>
      rfl
  | cons string strings ih =>
      have hrest := ih (front ++ string)
      rw [List.length_append, List.append_assoc] at hrest
      rw [placeStrings, List.map_cons, List.flatten_cons, hrest]
      congr 1
      rw [ByteArrayRef.bytes]
      apply List.ext_getElem?
      intro i
      by_cases hi : i < string.length
      · have hplace : (front ++ (string ++ strings.flatten))[front.length + i]? = string[i]? := by
          rw [List.getElem?_append_right (by omega), Nat.add_sub_cancel_left,
            List.getElem?_append_left hi]
        simp [pageMemory, hi, List.getD_eq_getElem?_getD, hplace]
      · simp [hi]

theorem placeStrings_valid
    {address : Nat} {strings : List Bytes} {ref : ByteArrayRef}
    (hmem : ref ∈ placeStrings address strings) :
    ref.Valid := by
  induction strings generalizing address with
  | nil =>
      cases hmem
  | cons string strings ih =>
      rcases List.mem_cons.mp hmem with rfl | hlater
      · exact ⟨Int.natCast_nonneg _, fun _ => rfl⟩
      · exact ih hlater

theorem denseBatch_delivers
    {slots : List (Nat × TextRow)}
    (hc : TextColumn nullable c) (h : List.Forall₂ (LoadedAs Eq nullable) slots rows) :
    (denseBatch c.maxDef slots).Delivers c (rows.map storedRow) := by
  have hvalues : (slots.map Prod.snd).reduceOption = rows.reduceOption :=
    List.forall₂_eq_eq_eq ▸ (LoadedAs.parts h).2
  refine ⟨levelsOf_batchLevels hc h, _, [], (List.append_nil _).symm, ?_, ?_⟩
  · have hbytes := placeStrings_bytes [] rows.reduceOption
    rw [List.length_nil, List.nil_append] at hbytes
    simp only [denseBatch, hvalues, rowValues_storedRow]
    conv_rhs => rw [← hbytes]
    rw [List.map_map, List.map_map]
    rfl
  · intro v hv ref hvref
    obtain ⟨ref', href, rfl⟩ := List.mem_map.mp hv
    cases hvref
    exact placeStrings_valid href

end Batches

section Readers

variable {src : PageSource} {nullable : Bool} {c : ColumnSpec} {rows : List TextRow}
variable {chunk : TextChunk} {behind : Bytes}

/-- What is assumed of a stored chunk: its sizes fit the fields they are stored in, and the
file goes on behind it. -/
structure ChunkFits (chunk : TextChunk) (rows : List TextRow) (behind : Bytes) : Prop where
  sized : ∀ page ∈ chunk.pages, page.Sized
  short : ∀ string ∈ rows.reduceOption, string.length < 2 ^ 31
  count : rows.length < 2 ^ 31
  behind : 8 ≤ behind.length

/-- A part of the rows, from slots that stand for all of them. -/
theorem forall₂_slice
    {α β : Type} {R : α → β → Prop} {xs : List α} {ys : List β}
    (h : List.Forall₂ R xs ys) (position want : Nat) :
    List.Forall₂ R ((xs.drop position).take want) ((ys.drop position).take want) :=
  List.forall₂_take want (List.forall₂_drop position h)

theorem ChunkHolds.faithfulIndices
    (stale : Nat → Nat) (hc : TextColumn nullable c)
    (h : ChunkHolds src.format nullable chunk rows) (hfmt : src.format.ReadsBack)
    (hfits : ChunkFits chunk rows behind) (hcaps : chunk.WithinCaps src) :
    (columnReader src (flatColumn nullable) stale
      (chunk.source src.format behind)).FaithfulIndices c (rows.map storedRow) := by
  intro page offsets hpage hoffsets position want b hread hcount
  cases hdeclared : chunk.hasDictionaryPage with
  | true =>
      obtain ⟨entries, hentries, hdictionary, hloaded⟩ := h.indices stale hdeclared hfmt
        hfits.sized hfits.short hfits.count hfits.behind
      have hsame : some page = some (dictionaryOf entries) := by
        rw [← hdictionary hcaps, ← hpage, ← hdeclared]
        rfl
      cases hsame
      obtain rfl : entryOffsets 0 entries = offsets := Option.some.inj hoffsets
      obtain ⟨hgap, hslots⟩ := hloaded.whole hcaps
      have hshort : ∀ entry ∈ entries, entry.length < 2 ^ 31 := fun entry hentry =>
        hfits.short entry (List.reduceOption_mem_iff.mpr (hentries entry hentry))
      simp only [columnReader, readRun_of_not_hasGap hgap, Option.map_some,
        Option.some.injEq] at hread
      subst hread
      have hpart := forall₂_slice hslots position want
      rw [List.map_drop.symm, List.map_take.symm]
      refine ⟨hc.maxDef ▸ levelsOf_batchLevels hc hpart, _, [], (List.append_nil _).symm, ?_⟩
      rw [rowValues_storedRow, List.forall₂_map_right_iff]
      refine (LoadedAs.parts hpart).2.imp fun index value hvalue => ?_
      obtain ⟨hindex, hentry⟩ := List.getElem?_eq_some_iff.mp hvalue
      have hplace : index < (entryOffsets 0 entries).length := by
        rwa [length_entryOffsets]
      obtain ⟨entry, hget, hbytes, -⟩ :=
        entry_at_offset hshort (List.getElem?_eq_getElem hplace)
      refine ⟨hindex, _, List.getElem?_eq_getElem hplace, ?_⟩
      change _ = PhysValue.byteArray (entryBytes (entries.flatMap prefixed) _)
      rw [hbytes, Option.some.inj (hget.symm.trans hvalue)]
  | false =>
      by_cases hrows : rows = []
      · subst hrows
        have hnone : chunkPages src (flatColumn nullable) (chunk.source src.format behind)
            (decodeIndices src stale) = [] := by
          have hcount : (chunk.source src.format behind).numValues = 0 := h.count
          rw [chunkPages, if_pos hcount]
        have hslots : List.Forall₂ (LoadedAs (IndexOf []) nullable) [] [] := .nil
        simp only [columnReader, hnone, readRun_nil, Option.map_some, Option.some.injEq] at hread
        subst hread
        rw [List.map_nil, List.drop_nil, List.take_nil]
        exact ⟨hc.maxDef ▸ levelsOf_batchLevels hc hslots, [], [], rfl, .nil⟩
      · have hnone := h.no_dictionary hdeclared hrows hfmt hfits.behind
        rw [← hdeclared] at hnone
        exact absurd (hnone.symm.trans hpage) (by simp)

/-- A column reader on a stored chunk within the limits. -/
theorem ChunkHolds.decodes
    (stale : Nat → Nat) (hc : TextColumn nullable c)
    (h : ChunkHolds src.format nullable chunk rows) (hfmt : src.format.ReadsBack)
    (hfits : ChunkFits chunk rows behind) (hcaps : chunk.WithinCaps src) :
    (columnReader src (flatColumn nullable) stale
      (chunk.source src.format behind)).Decodes c (rows.map storedRow) := by
  obtain ⟨hgap, hslots⟩ :=
    (h.loaded stale hfmt hfits.sized hfits.short hfits.count hfits.behind).whole hcaps
  have hread (position want : Nat) := readRun_of_not_hasGap hgap position want
  have hlength := hslots.length_eq
  refine ⟨fun position want _ hbound => ?_, fun position want b hb hcount => ?_,
    h.faithfulIndices stale hc hfmt hfits hcaps⟩
  · simp only [columnReader, hread, Option.map_some]
    refine ⟨_, rfl, ?_⟩
    rw [List.length_map] at hbound
    simp only [denseBatch, List.length_take, List.length_drop]
    omega
  · simp only [columnReader, hread, Option.map_some, Option.some.injEq] at hb
    subst hb
    have hdelivers := denseBatch_delivers hc (forall₂_slice hslots position want)
    rw [hc.maxDef] at hdelivers
    rwa [List.map_drop.symm, List.map_take.symm]

end Readers

section Short

variable {native : NativeReader} {job : ChunkJob} {r : ColumnReader} {read limit : Nat}

end Short

section Reads

variable {native : NativeReader} {job : ChunkJob} {src : PageSource} {nullable : Bool}
variable {rows : List TextRow} {chunk : TextChunk} {behind : Bytes} {read : Nat}

/-- A native reader that finds the chunk where the job looks for it. -/
structure ChunkOpens (native : NativeReader) (job : ChunkJob) (src : PageSource)
    (nullable : Bool) (source : ChunkSource) : Prop where
  column : ∀ attempt, ∃ stale, native.getColumn attempt job.rowGroup job.fileColumn =
    .ok (columnReader src (flatColumn nullable) stale source)
  metadata : ∃ info, native.chunkMetadata job.rowGroup job.fileColumn = some info ∧
    info.hasDictionaryPage = source.declared

/-- A job for the rows of a text chunk. -/
structure TextJob (nullable : Bool) (job : ChunkJob) (rows : List TextRow) : Prop where
  column : TextColumn nullable job.spec
  vector : job.sexptype = .strsxp
  count : job.rows = rows.length
  dense : Dense nullable rows

theorem TextJob.holds
    (h : TextJob nullable job rows) :
    job.Holds (rows.map storedRow) :=
  ⟨h.column.text.supported, storedRow_fits h.column h.dense, by rw [List.length_map, h.count]⟩

/-- The dictionary that is loaded from a stored chunk. -/
theorem ChunkHolds.loadedDictionary_eq
    {r : ColumnReader} {page : DictionaryPage} {offsets : List Nat}
    (h : ChunkHolds src.format nullable chunk rows)
    (hopens : ChunkOpens native job src nullable (chunk.source src.format behind))
    (hfmt : src.format.ReadsBack) (hfits : ChunkFits chunk rows behind)
    (hcaps : chunk.WithinCaps src)
    (hget : native.getColumn 0 job.rowGroup job.fileColumn = .ok r)
    (hloaded : loadedDictionary native job r = some (page, offsets)) :
    ∃ entries, (∀ entry ∈ entries, some entry ∈ rows) ∧ page = dictionaryOf entries ∧
      offsets = entryOffsets 0 entries := by
  obtain ⟨stale, hstale⟩ := hopens.column 0
  obtain rfl := Except.ok.inj (hstale.symm.trans hget)
  obtain ⟨info, hinfo, hsame⟩ := hopens.metadata
  obtain ⟨hpage, hoffsets⟩ := loadedDictionary_eq_some hloaded
  have hdeclared : chunk.hasDictionaryPage = true := by
    rw [loadedDictionary, hinfo] at hloaded
    simp only at hloaded
    split_ifs at hloaded with hall
    rw [← hall.1, hsame]
    rfl
  obtain ⟨entries, hentries, hdictionary, -⟩ := h.indices stale hdeclared hfmt hfits.sized
    hfits.short hfits.count hfits.behind
  have hfound : some page = some (dictionaryOf entries) := by
    rw [← hdictionary hcaps, ← hpage, ← hdeclared]
    rfl
  cases hfound
  exact ⟨entries, hentries, rfl, (Option.some.inj hoffsets).symm⟩

/-- The offsets of a stored dictionary lead to its entries. -/
theorem entryOffsets_entry
    {entries : List Bytes} {n offset : Nat}
    (hshort : ∀ entry ∈ entries, entry.length < 2 ^ 31)
    (hoffset : offset ∈ (entryOffsets 0 entries).take n) :
    entryBytes (entries.flatMap prefixed) offset ∈ entries ∧
      EntryInBounds (entries.flatMap prefixed) offset := by
  obtain ⟨i, hi⟩ := List.mem_iff_getElem?.mp (List.mem_of_mem_take hoffset)
  obtain ⟨entry, hentry, rfl, hbounds⟩ := entry_at_offset hshort hi
  exact ⟨List.mem_of_getElem? hentry, hbounds⟩

/-- A stored chunk within the limits decodes, and its dictionary holds nothing but strings
of its rows. -/
theorem ChunkHolds.chunkDecodes
    (h : ChunkHolds src.format nullable chunk rows) (hjob : TextJob nullable job rows)
    (hopens : ChunkOpens native job src nullable (chunk.source src.format behind))
    (hfmt : src.format.ReadsBack) (hfits : ChunkFits chunk rows behind)
    (hcaps : chunk.WithinCaps src) :
    ChunkDecodes native job (rows.map storedRow) ∧
      (BadEntry native job → BadText (rows.map storedRow)) := by
  have hshort {entries : List Bytes} (hentries : ∀ entry ∈ entries, some entry ∈ rows) :
      ∀ entry ∈ entries, entry.length < 2 ^ 31 := fun entry hentry =>
    hfits.short entry (List.reduceOption_mem_iff.mpr (hentries entry hentry))
  refine ⟨⟨fun attempt => ?_, fun r page offsets hget hloaded => ?_⟩, ?_⟩
  · obtain ⟨stale, hstale⟩ := hopens.column attempt
    exact ⟨_, hstale, h.decodes stale hjob.column hfmt hfits hcaps⟩
  · obtain ⟨entries, hentries, rfl, rfl⟩ :=
      h.loadedDictionary_eq hopens hfmt hfits hcaps hget hloaded
    refine ⟨(length_entryOffsets 0 entries).ge, fun offset hoffset => ?_⟩
    exact (entryOffsets_entry (hshort hentries) hoffset).2
  · rintro ⟨r, page, offsets, hget, hloaded, offset, hoffset, hfault⟩
    obtain ⟨entries, hentries, rfl, rfl⟩ :=
      h.loadedDictionary_eq hopens hfmt hfits hcaps hget hloaded
    obtain ⟨hmem, -⟩ := entryOffsets_entry (hshort hentries) hoffset
    exact ⟨_, List.mem_map_of_mem (hentries _ hmem), hfault⟩

/-- Within the limits the strings decide how the read of a stored chunk ends. -/
theorem ChunkHolds.outcome
    (h : ChunkHolds src.format nullable chunk rows) (hjob : TextJob nullable job rows)
    (hopens : ChunkOpens native job src nullable (chunk.source src.format behind))
    (hfmt : src.format.ReadsBack) (hfits : ChunkFits chunk rows behind)
    (hread : 0 < read) (hcaps : chunk.WithinCaps src) (flags : Flags) :
    TextOutcome (collectMainChunk native job read flags) (BadText (rows.map storedRow)) := by
  obtain ⟨hdecodes, hentry⟩ := h.chunkDecodes hjob hopens hfmt hfits hcaps
  exact (collectMainChunk_text hread hjob.holds hjob.column.text hjob.vector hdecodes).congr
    (or_iff_left_of_imp hentry)

/-- Reading the chunk raises no text-validity error, and leaves the strings of its rows. -/
def ReadsText (native : NativeReader) (job : ChunkJob) (read : Nat) (rows : List TextRow) :
    Prop :=
  ∀ flags, ¬ RaisesText (collectMainChunk native job read flags) ∧
    ∃ blocks flags', collectMainChunk native job read flags = .ok (blocks, flags') ∧
      Stores job blocks (rows.map fun row => textCell (storedRow row))

end Reads

end Page
end QioParquet
