import QioParquet.Page.StoredPages
import Mathlib.Tactic

/-!
# What a column writer leaves behind

The pages of a chunk hold its rows in either of two ways: PLAIN pages, one after the other,
or a dictionary of strings of the rows and one page of indices. Which of the two it is
depends on the strings. The result is about a column writer that goes through all row
groups, since it carries over from one group to the next whether it still makes
dictionaries.
-/

namespace QioParquet
namespace Page

open Lib Read Encoding

section Chunks

/-- A PLAIN page of some rows. -/
structure PlainPage (fmt : PageFormat) (nullable : Bool) (page : StoredPage)
    (rows : List TextRow) : Prop where
  holds : PageHolds fmt nullable [] [] page rows
  encoding : page.encoding = .plain

/-- PLAIN pages of some rows. -/
def PlainPages (fmt : PageFormat) (nullable : Bool) (pages : List StoredPage)
    (rows : List TextRow) : Prop :=
  ∃ parts, List.Forall₂ (PlainPage fmt nullable) pages parts ∧ parts.flatten = rows

/-- The pages of some rows, with a dictionary or without. -/
inductive PagesHold (fmt : PageFormat) (nullable : Bool) :
    List StoredPage → Bool → List TextRow → Prop where
  | plain {pages : List StoredPage} {rows : List TextRow}
      (hpages : PlainPages fmt nullable pages rows) :
      PagesHold fmt nullable pages false rows
  | dictionary {first second : StoredPage} {entries : List Bytes} {indices : List Nat}
      {rows : List TextRow}
      (hfirst : DictionaryHolds fmt first entries)
      (hsecond : PageHolds fmt nullable entries indices second rows)
      (hencoding : second.encoding = .rleDictionary)
      (hentries : ∀ entry ∈ entries, some entry ∈ rows)
      (hfew : entries.length ≤ rows.length) :
      PagesHold fmt nullable [first, second] true rows

/-- The chunk of some rows. -/
structure ChunkHolds (fmt : PageFormat) (nullable : Bool) (chunk : TextChunk)
    (rows : List TextRow) : Prop where
  pages : PagesHold fmt nullable chunk.pages chunk.hasDictionaryPage rows
  count : chunk.numValues = rows.length

variable {fmt : PageFormat} {nullable : Bool}

theorem plainPages_nil : PlainPages fmt nullable [] [] :=
  ⟨[], .nil, rfl⟩

theorem PlainPages.concat
    {pages : List StoredPage} {rows more : List TextRow} {page : StoredPage}
    (h : PlainPages fmt nullable pages rows) (hpage : PlainPage fmt nullable page more) :
    PlainPages fmt nullable (pages ++ [page]) (rows ++ more) := by
  obtain ⟨parts, hparts, rfl⟩ := h
  refine ⟨parts ++ [more], List.rel_append hparts (.cons hpage .nil), ?_⟩
  rw [List.flatten_append, List.flatten_singleton]

theorem Dense.left
    {rows more : List TextRow}
    (h : Dense nullable (rows ++ more)) :
    Dense nullable rows :=
  h.imp_right fun hall row hrow => hall row (List.mem_append_left _ hrow)

theorem Dense.right
    {rows more : List TextRow}
    (h : Dense nullable (rows ++ more)) :
    Dense nullable more :=
  h.imp_right fun hall row hrow => hall row (List.mem_append_right _ hrow)

end Chunks

section CurrentPage

variable {fmt : PageFormat} {nullable : Bool} {w w' : TextPageWriter}
variable {rows more : List TextRow}

/-- What the buffers of a PLAIN page hold. -/
structure TextPageWriter.Holds (nullable : Bool) (w : TextPageWriter) (rows : List TextRow) :
    Prop where
  encoding : w.encoding = .plain
  levels : w.parts.Holds (flatColumn nullable) (rows.map fun _ => 0) (levelsOf nullable rows)
  values : w.parts.values = rows.reduceOption.flatMap prefixed
  count : w.numValues = rows.length

/-- The levels of more rows, behind the levels of some. -/
theorem holds_addLevels
    {parts parts' : PageParts}
    (h : parts.Holds (flatColumn nullable) (rows.map fun _ => 0) (levelsOf nullable rows))
    (hcount : more.length < 2 ^ 31)
    (hadd : addLevels (levelCall nullable more) parts = .ok parts') :
    parts'.Holds (flatColumn nullable) ((rows ++ more).map fun _ => 0)
        (levelsOf nullable (rows ++ more)) ∧
      parts'.values = parts.values := by
  obtain ⟨hdefs, hreps⟩ := levelCall_defs nullable more
  have hholds := h.addLevels hcount hadd
  rw [hdefs, hreps] at hholds
  rw [List.map_append, levelsOf, List.map_append]
  exact hholds

theorem TextPageWriter.Holds.addValues
    (h : w.Holds nullable rows) (hcount : more.length < 2 ^ 31)
    (hadd : w.addValues nullable more = .ok w') :
    w'.Holds nullable (rows ++ more) := by
  simp only [TextPageWriter.addValues, bind_eq_ok_iff, pure_eq_ok, Except.ok.injEq] at hadd
  obtain ⟨parts, hparts, rfl⟩ := hadd
  obtain ⟨hlevels, hvalues⟩ := holds_addLevels h.levels hcount hparts
  refine ⟨h.encoding, ⟨hlevels.reps, hlevels.defs⟩, ?_, ?_⟩
  · simp only [hvalues, h.values, TextPageWriter.encodePlainByteArray, List.reduceOption_append,
      List.flatMap_append]
  · simp only [h.count, List.length_append]

theorem TextPageWriter.holds_empty
    (hencoding : w.encoding = .plain) (hparts : w.parts = ⟨[], [], []⟩)
    (hcount : w.numValues = 0) :
    w.Holds nullable [] := by
  refine ⟨hencoding, ?_, ?_, hcount⟩
  · rw [hparts]
    exact PageParts.holds_empty _ _
  · rw [hparts]
    rfl

theorem TextPageWriter.Holds.finalizeToBuffer
    {page : StoredPage}
    (h : w.Holds nullable rows) (hfilled : rows ≠ []) (hdense : Dense nullable rows)
    (hpage : w.finalizeToBuffer fmt = .ok page) :
    PlainPage fmt nullable page rows := by
  simp only [TextPageWriter.finalizeToBuffer, bind_eq_ok_iff, pure_eq_ok, Except.ok.injEq]
    at hpage
  obtain ⟨compressed, hstored, rfl⟩ := hpage
  refine ⟨⟨rfl, h.count, hfilled, hdense, hstored, w.parts, rfl, h.levels, ?_⟩, h.encoding⟩
  simp only [h.encoding]
  exact h.values

end CurrentPage

section PlainColumns

variable {fmt : PageFormat} {nullable : Bool} {w w' : ColumnWriter}
variable {closed current rows : List TextRow}

/-- A column that is written PLAIN: the rows of the closed pages and of the current one. -/
structure ColumnWriter.HoldsPlain (fmt : PageFormat) (nullable : Bool) (w : ColumnWriter)
    (closed current : List TextRow) : Prop where
  noMore : w.useDictionary = false
  noPage : w.hasDictionaryPage = false
  pages : PlainPages fmt nullable w.pages closed
  page : w.page.Holds nullable current

theorem ColumnWriter.HoldsPlain.flush
    (h : w.HoldsPlain fmt nullable closed current) (hdense : Dense nullable current)
    (hflush : w.flushCurrentPage fmt = .ok w') :
    w'.HoldsPlain fmt nullable (closed ++ current) [] := by
  rw [ColumnWriter.flushCurrentPage] at hflush
  split_ifs at hflush with hnone
  · cases hflush
    obtain rfl : current = [] :=
      List.eq_nil_of_length_eq_zero (h.page.count.symm.trans hnone)
    rw [List.append_nil]
    exact h
  · simp only [bind_eq_ok_iff, pure_eq_ok, Except.ok.injEq] at hflush
    obtain ⟨page, hpage, rfl⟩ := hflush
    have hfilled : current ≠ [] := by
      rintro rfl
      exact hnone h.page.count
    exact ⟨h.noMore, h.noPage, h.pages.concat (h.page.finalizeToBuffer hfilled hdense hpage),
      TextPageWriter.holds_empty h.page.encoding rfl rfl⟩

theorem ColumnWriter.HoldsPlain.encodeBatchEager
    (h : w.HoldsPlain fmt nullable closed current) (hdense : Dense nullable (current ++ rows))
    (hcount : rows.length < 2 ^ 31)
    (hencode : w.encodeBatchEager fmt nullable rows = .ok w') :
    ∃ closed' current', closed' ++ current' = closed ++ current ++ rows ∧
      w'.HoldsPlain fmt nullable closed' current' := by
  rw [ColumnWriter.encodeBatchEager] at hencode
  split_ifs at hencode with hnone
  · cases hencode
    obtain rfl := List.eq_nil_of_length_eq_zero hnone
    exact ⟨closed, current, (List.append_nil _).symm, h⟩
  · simp only [bind_eq_ok_iff] at hencode
    obtain ⟨page, hpage, hclose⟩ := hencode
    have hadded : ColumnWriter.HoldsPlain fmt nullable { w with page := page } closed
        (current ++ rows) :=
      ⟨h.noMore, h.noPage, h.pages, h.page.addValues hcount hpage⟩
    split_ifs at hclose with hfull
    · exact ⟨closed ++ (current ++ rows), [], by simp, hadded.flush hdense hclose⟩
    · cases hclose
      exact ⟨closed, current ++ rows, (List.append_assoc _ _ _).symm, hadded⟩

/-- The rows that were held back, in PLAIN pages. -/
theorem ColumnWriter.holdsPlain_fallback
    (hpages : w.pages = []) (hnone : w.hasDictionaryPage = false)
    (hparts : w.page.parts = ⟨[], [], []⟩) (hvalues : w.page.numValues = 0)
    (hdense : Dense nullable w.held) (hcount : w.held.length < 2 ^ 31)
    (hrun : w.dictFallbackToPlain fmt nullable = .ok w') :
    w'.HoldsPlain fmt nullable w.held [] := by
  -- the rows of the slices so far are in closed pages
  have hend := foldlM_slices_inv
    (by norm_num [fallbackRows] : 0 < fallbackRows) (ColumnWriter.replayPlain fmt nullable w.held)
    (fun position w' => w'.HoldsPlain fmt nullable (w.held.take position) [])
    w.held.length ?_ 0 w.held.length (by omega) ?_ hrun
  · rwa [Nat.zero_add, List.take_length] at hend
  · intro position want w₁ w₂ hwant hbound hinv hbody
    simp only [ColumnWriter.replayPlain, bind_eq_ok_iff] at hbody
    obtain ⟨page, hpage, hflush⟩ := hbody
    have hslice : ((w.held.drop position).take want).length < 2 ^ 31 := by
      rw [List.length_take, List.length_drop]
      omega
    have hsplit : w.held.take position ++ (w.held.drop position).take want =
        w.held.take (position + want) :=
      List.take_add.symm
    have hadded := hinv.page.addValues hslice hpage
    rw [List.nil_append] at hadded
    have hpart : Dense nullable ((w.held.drop position).take want) :=
      hdense.imp_right fun hall row hrow =>
        hall row (List.mem_of_mem_drop (List.mem_of_mem_take hrow))
    have hflushed := ColumnWriter.HoldsPlain.flush (w := { w₁ with page := page })
      ⟨hinv.noMore, hinv.noPage, hinv.pages, hadded⟩ hpart hflush
    rwa [hsplit] at hflushed
  · refine ⟨rfl, hnone, ?_, TextPageWriter.holds_empty rfl hparts hvalues⟩
    rw [hpages, List.take_zero]
    exact plainPages_nil

end PlainColumns

section Dictionaries

variable {builder : DictBuilder} {values : List Bytes} {maxDictBytes : Nat}

/-- What a builder has made of some values. -/
structure DictBuilder.Indexes (builder : DictBuilder) (values : List Bytes) : Prop where
  bytes : builder.bytes = builder.entries.flatMap prefixed
  indices : IndexesOf builder.entries builder.indices values
  entries : ∀ entry ∈ builder.entries, entry ∈ values

/-- More entries behind the old ones leave the indices as they are. -/
theorem IndexesOf.append_entries
    {entries more : List Bytes} {indices : List Nat}
    (h : IndexesOf entries indices values) :
    IndexesOf (entries ++ more) indices values := by
  refine h.imp fun index value hvalue => ?_
  rw [List.getElem?_append_left (List.getElem?_eq_some_iff.mp hvalue).1]
  exact hvalue

theorem IndexesOf.concat
    {entries : List Bytes} {indices : List Nat} {index : Nat} {value : Bytes}
    (h : IndexesOf entries indices values) (hvalue : entries[index]? = some value) :
    IndexesOf entries (indices ++ [index]) (values ++ [value]) :=
  List.rel_append h (.cons hvalue .nil)

theorem DictBuilder.Indexes.add
    (h : builder.Indexes values) (value : Bytes) :
    (builder.add maxDictBytes value).Indexes (values ++ [value]) := by
  rw [DictBuilder.add]
  cases hfind : builder.entries.idxOf? value with
  | some index =>
      obtain ⟨hindex, hequal, -⟩ := List.findIdx?_eq_some_iff_getElem.mp hfind
      refine ⟨h.bytes, h.indices.concat ?_, ?_⟩
      · rw [List.getElem?_eq_getElem hindex, eq_of_beq hequal]
      · exact fun entry hentry => List.mem_append_left _ (h.entries entry hentry)
  | none =>
      refine ⟨?_, h.indices.append_entries.concat ?_, ?_⟩
      · rw [List.flatMap_append, ← h.bytes, List.flatMap_singleton]
      · rw [List.getElem?_append_right le_rfl, Nat.sub_self, List.getElem?_cons_zero]
      · intro entry hentry
        rcases List.mem_append.mp hentry with hold | hnew
        · exact List.mem_append_left _ (h.entries entry hold)
        · exact List.mem_append_right _ hnew

/-- A builder that has not given up has seen every value. -/
theorem indexes_dictionaryEncode
    (hdone : (dictionaryEncode maxDictBytes values).abandoned = false) :
    (dictionaryEncode maxDictBytes values).Indexes values := by
  rw [dictionaryEncode] at hdone ⊢
  induction values using List.reverseRecOn with
  | nil =>
      exact ⟨rfl, .nil, by simp⟩
  | append_singleton values value ih =>
      rw [List.foldl_append, List.foldl_cons, List.foldl_nil] at hdone ⊢
      split_ifs at hdone ⊢ with hgiven
      · rw [hdone] at hgiven
        cases hgiven
      · exact (ih (Bool.eq_false_of_not_eq_true hgiven)).add value

/-- What a dictionary page says about its entries. -/
theorem DictBuilder.Indexes.countEntries_eq
    (h : builder.Indexes values) (hshort : ∀ value ∈ values, value.length < 2 ^ 31) :
    countEntries builder.bytes.length builder.bytes = builder.entries.length := by
  rw [h.bytes]
  exact countEntries_prefixed
    (fun entry hentry => (hshort entry (h.entries entry hentry)).trans (by norm_num))
    (length_le_flatMap_prefixed _)

end Dictionaries

section Columns

variable {fmt : PageFormat} {nullable : Bool} {w w' : ColumnWriter} {rows more : List TextRow}

/-- A column writer that has written no page and begun none. -/
structure ColumnWriter.Fresh (w : ColumnWriter) : Prop where
  pages : w.pages = []
  noPage : w.hasDictionaryPage = false
  parts : w.page.parts = ⟨[], [], []⟩
  count : w.page.numValues = 0

/-- The rows of the row group so far: held back, or in PLAIN pages. -/
inductive ColumnWriter.Holds (fmt : PageFormat) (nullable : Bool) (w : ColumnWriter)
    (rows : List TextRow) : Prop where
  | back (huse : w.useDictionary = true) (hheld : w.held = rows) (hfresh : w.Fresh)
  | plain {closed current : List TextRow} (hrows : closed ++ current = rows)
      (hplain : w.HoldsPlain fmt nullable closed current)

theorem ColumnWriter.Holds.writeBatch
    (h : w.Holds fmt nullable rows) (hdense : Dense nullable (rows ++ more))
    (hcount : more.length < 2 ^ 31)
    (hwrite : w.writeBatch fmt nullable more = .ok w') :
    w'.Holds fmt nullable (rows ++ more) := by
  rw [ColumnWriter.writeBatch] at hwrite
  cases h with
  | back huse hheld hfresh =>
      rw [if_pos huse] at hwrite
      cases hwrite
      exact .back huse (congrArg (· ++ more) hheld)
        ⟨hfresh.pages, hfresh.noPage, hfresh.parts, hfresh.count⟩
  | @plain closed current hrows hplain =>
      subst hrows
      rw [if_neg (by simp [hplain.noMore])] at hwrite
      rw [List.append_assoc] at hdense
      obtain ⟨closed', current', hsame, hholds⟩ :=
        hplain.encodeBatchEager hdense.right hcount hwrite
      exact .plain hsame hholds

theorem ColumnWriter.Holds.writeBatches
    {batches : List (List TextRow)}
    (h : w.Holds fmt nullable rows) (hdense : Dense nullable (rows ++ batches.flatten))
    (hcount : batches.flatten.length < 2 ^ 31)
    (hwrite : batches.foldlM (ColumnWriter.writeBatch fmt nullable) w = .ok w') :
    w'.Holds fmt nullable (rows ++ batches.flatten) := by
  induction batches generalizing w rows with
  | nil =>
      cases hwrite
      rwa [List.flatten_nil, List.append_nil]
  | cons batch batches ih =>
      simp only [List.foldlM_cons, bind_eq_ok_iff] at hwrite
      obtain ⟨w₁, hfirst, hrest⟩ := hwrite
      rw [List.flatten_cons, List.length_append] at hcount
      rw [List.flatten_cons, ← List.append_assoc] at hdense ⊢
      exact ih (h.writeBatch hdense.left (by omega) hfirst) hdense (by omega) hrest

/-- What a row group leaves behind. -/
structure ColumnWriter.Leaves (fmt : PageFormat) (nullable : Bool) (w : ColumnWriter)
    (rows : List TextRow) : Prop where
  pages : PagesHold fmt nullable w.pages w.hasDictionaryPage rows
  encoding : w.useDictionary = false → w.page.encoding = .plain

theorem ColumnWriter.HoldsPlain.leaves
    (h : w.HoldsPlain fmt nullable rows []) :
    w.Leaves fmt nullable rows := by
  refine ⟨?_, fun _ => h.page.encoding⟩
  rw [h.noPage]
  exact .plain h.pages

/-- A dictionary page, and the page of indices behind it. -/
theorem ColumnWriter.Fresh.emit
    {builder : DictBuilder} {w₁ : ColumnWriter}
    (hfresh : w.Fresh) (huse : w.useDictionary = true)
    (hbuilder : builder.Indexes w.held.reduceOption)
    (hdense : Dense nullable w.held) (hcount : w.held.length < 2 ^ 31)
    (hfew : builder.entries.length < w.held.reduceOption.length)
    (hfirst : w.emitDictionaryPage fmt builder builder.entries.length = .ok w₁)
    (hsecond : w₁.emitIndexPage fmt nullable builder = .ok w') :
    w'.Leaves fmt nullable w.held := by
  simp only [ColumnWriter.emitDictionaryPage, bind_eq_ok_iff, pure_eq_ok, Except.ok.injEq]
    at hfirst
  obtain ⟨compressed, hcompressed, rfl⟩ := hfirst
  simp only [ColumnWriter.emitIndexPage, TextPageWriter.addDictionaryIndices, bind_eq_ok_iff,
    pure_eq_ok, Except.ok.injEq] at hsecond
  obtain ⟨_, ⟨parts, hparts, rfl⟩, hflush⟩ := hsecond
  have hempty : w.page.parts.Holds (flatColumn nullable) (([] : List TextRow).map fun _ => 0)
      (levelsOf nullable []) := by
    rw [hfresh.parts]
    exact PageParts.holds_empty _ _
  obtain ⟨hlevels, hvalues⟩ := holds_addLevels hempty hcount hparts
  rw [List.nil_append] at hlevels
  have hfilled : w.held ≠ [] := by
    intro hnone
    rw [hnone] at hfew
    cases hfew
  rw [ColumnWriter.flushCurrentPage, if_neg (by simpa using hfilled)] at hflush
  simp only [TextPageWriter.finalizeToBuffer, bind_eq_ok_iff, pure_eq_ok, Except.ok.injEq]
    at hflush
  obtain ⟨_, ⟨stored, hstored, rfl⟩, rfl⟩ := hflush
  refine ⟨?_, fun hnot => absurd (huse.symm.trans hnot) (by simp)⟩
  simp only [hfresh.pages, List.nil_append, List.singleton_append]
  have hsome : builder.entries ≠ [] := by
    have hlength : builder.indices.length = w.held.reduceOption.length :=
      hbuilder.indices.length_eq
    obtain ⟨index, hindex⟩ := List.exists_mem_of_length_pos
      (l := builder.indices) (by omega)
    exact List.ne_nil_of_length_pos ((Nat.zero_le index).trans_lt (hbuilder.indices.lt hindex))
  have hentries : ∀ entry ∈ builder.entries, some entry ∈ w.held := fun entry hentry =>
    List.reduceOption_mem_iff.mp (hbuilder.entries entry hentry)
  refine .dictionary ⟨rfl, rfl, hsome, hbuilder.bytes, hcompressed⟩
    ⟨rfl, rfl, hfilled, hdense, hstored, _, rfl, ⟨hlevels.reps, hlevels.defs⟩,
      hbuilder.indices, ?_⟩ rfl hentries ?_
  · simp only [hvalues, hfresh.parts, List.nil_append]
    rfl
  · exact (hfew.trans_le (List.reduceOption_length_le _)).le

theorem ColumnWriter.Holds.finalize
    (h : w.Holds fmt nullable rows) (hdense : Dense nullable rows)
    (hshort : ∀ value ∈ rows.reduceOption, value.length < 2 ^ 31)
    (hcount : rows.length < 2 ^ 31)
    (hfinal : w.finalize fmt nullable = .ok w') :
    w'.Leaves fmt nullable rows := by
  rw [ColumnWriter.finalize] at hfinal
  cases h with
  | back huse hheld hfresh =>
      subst hheld
      rw [if_pos huse, ColumnWriter.finalizeDictionary] at hfinal
      have hfallback (hrun : w.dictFallbackToPlain fmt nullable = .ok w') :
          w'.Leaves fmt nullable w.held :=
        (ColumnWriter.holdsPlain_fallback hfresh.pages hfresh.noPage hfresh.parts hfresh.count
          hdense hcount hrun).leaves
      split_ifs at hfinal with hnone habsent
      · -- nothing was written
        cases hfinal
        refine ⟨?_, fun hnot => absurd (huse.symm.trans hnot) (by simp)⟩
        rw [hfresh.pages, hfresh.noPage, List.eq_nil_of_length_eq_zero hnone]
        exact .plain plainPages_nil
      · exact hfallback hfinal
      · simp only at hfinal
        split_ifs at hfinal with hgiven hmany
        · exact hfallback hfinal
        · exact hfallback hfinal
        · have hbuilder := indexes_dictionaryEncode (Bool.eq_false_of_not_eq_true hgiven)
          rw [hbuilder.countEntries_eq hshort] at hmany hfinal
          simp only [bind_eq_ok_iff] at hfinal
          obtain ⟨w₁, hfirst, hsecond⟩ := hfinal
          exact hfresh.emit huse hbuilder hdense hcount (not_le.mp hmany) hfirst hsecond
  | @plain closed current hrows hplain =>
      subst hrows
      rw [if_neg (by simp [hplain.noMore])] at hfinal
      exact (hplain.flush hdense.right hfinal).leaves

/-- After a reset the column writer holds nothing. -/
theorem ColumnWriter.Leaves.reset
    (h : w.Leaves fmt nullable rows) :
    w.reset.Holds fmt nullable [] := by
  cases huse : w.useDictionary with
  | true =>
      exact .back huse rfl ⟨rfl, rfl, rfl, rfl⟩
  | false =>
      exact .plain (List.append_nil _)
        ⟨huse, rfl, plainPages_nil, TextPageWriter.holds_empty (h.encoding huse) rfl rfl⟩

theorem ColumnWriter.Holds.writeChunk
    {batches : List (List TextRow)} {chunk : TextChunk}
    (h : w.Holds fmt nullable []) (hdense : Dense nullable batches.flatten)
    (hshort : ∀ value ∈ batches.flatten.reduceOption, value.length < 2 ^ 31)
    (hcount : batches.flatten.length < 2 ^ 31)
    (hwrite : w.writeChunk fmt nullable batches = .ok (chunk, w')) :
    ChunkHolds fmt nullable chunk batches.flatten ∧ w'.Holds fmt nullable [] := by
  simp only [ColumnWriter.writeChunk, bind_eq_ok_iff, pure_eq_ok, Except.ok.injEq,
    Prod.mk.injEq] at hwrite
  obtain ⟨w₁, hbatches, w₂, hfinal, rfl, rfl⟩ := hwrite
  have hholds := h.writeBatches (by rwa [List.nil_append]) hcount hbatches
  rw [List.nil_append] at hholds
  have hleaves := hholds.finalize hdense hshort hcount hfinal
  exact ⟨⟨hleaves.pages, rfl⟩, hleaves.reset⟩

/-- Each row group of a column becomes a chunk that holds its rows. -/
theorem ColumnWriter.Holds.writeChunks
    {groups : List (List (List TextRow))} {chunks : List TextChunk}
    (h : w.Holds fmt nullable [])
    (hdense : ∀ batches ∈ groups, Dense nullable batches.flatten)
    (hshort : ∀ batches ∈ groups, ∀ value ∈ batches.flatten.reduceOption,
      value.length < 2 ^ 31)
    (hcount : ∀ batches ∈ groups, batches.flatten.length < 2 ^ 31)
    (hwrite : w.writeChunks fmt nullable groups = .ok chunks) :
    List.Forall₂ (ChunkHolds fmt nullable) chunks (groups.map List.flatten) := by
  induction groups generalizing w chunks with
  | nil =>
      cases hwrite
      exact .nil
  | cons batches groups ih =>
      simp only [ColumnWriter.writeChunks, bind_eq_ok_iff, pure_eq_ok, Except.ok.injEq]
        at hwrite
      obtain ⟨⟨chunk, w₁⟩, hfirst, chunks, hrest, rfl⟩ := hwrite
      obtain ⟨hchunk, hnext⟩ := h.writeChunk (hdense _ List.mem_cons_self)
        (hshort _ List.mem_cons_self) (hcount _ List.mem_cons_self) hfirst
      exact .cons hchunk (ih hnext
        (fun _ hmem => hdense _ (List.mem_cons_of_mem _ hmem))
        (fun _ hmem => hshort _ (List.mem_cons_of_mem _ hmem))
        (fun _ hmem => hcount _ (List.mem_cons_of_mem _ hmem)) hrest)

end Columns

end Page
end QioParquet
