import QioParquet.Append.Entries
import QioParquet.Write.OnFile
import Mathlib.Tactic

/-!
# The file after an append

An append writes its pages and a new footer over the old footer, and nothing makes
the file shorter. The new footer does not keep all fields of the old one, so it can
be smaller. A reader looks for a footer at the end of the file: what it finds there
is the new footer exactly when the append has reached the old end.
-/

namespace QioParquet
namespace Write

open Lib Read Plan Footer

section Lengths

theorem lengthOf_lengthBytes
    {n : Nat}
    (hn : n < 2 ^ 32) :
    lengthOf (lengthBytes n) = n := by
  have htake : (lengthBytes n).take 4 = leBytes 4 n :=
    List.take_of_length_le (length_leBytes 4 n).le
  rw [lengthOf, htake, littleEndian_leBytes]
  exact Nat.mod_eq_of_lt hn

theorem lengthOf_lt
    (bytes : Bytes) :
    lengthOf bytes < 2 ^ 32 := by
  have hlength : 8 * (bytes.take 4).length ≤ 32 := by
    rw [List.length_take]
    omega
  exact (littleEndian_lt _).trans_le (Nat.pow_le_pow_right (by norm_num) hlength)

theorem locateFooter_size
    {bytes footer : Bytes} {offset : Nat}
    (h : locateFooter bytes = .ok (offset, footer)) :
    12 ≤ bytes.length := by
  rw [locateFooter] at h
  split_ifs at h with hsmall
  omega

/-- The parts of a file that ends with a footer, its length and the magic. -/
theorem footer_parts
    (front footer : Bytes) :
    (front ++ (footer ++ lengthBytes footer.length ++ magic)).length =
        front.length + footer.length + 8 ∧
      (front ++ (footer ++ lengthBytes footer.length ++ magic)).drop
          (front.length + footer.length) = lengthBytes footer.length ++ magic ∧
      ((front ++ (footer ++ lengthBytes footer.length ++ magic)).drop
          front.length).take footer.length = footer := by
  refine ⟨?_, ?_, ?_⟩
  · simp only [List.length_append]
    rfl
  · rw [List.append_assoc footer, ← List.append_assoc front]
    exact List.drop_left' List.length_append
  · rw [List.drop_left, List.append_assoc]
    exact List.take_left

theorem footer_tail
    {n : Nat}
    (hn : n < 2 ^ 32) :
    (lengthBytes n ++ magic).drop 4 = magic ∧
      lengthOf ((lengthBytes n ++ magic).take 4) = n :=
  ⟨rfl, lengthOf_lengthBytes hn⟩

/-- A footer with its length and the magic is found at the end of a file. -/
theorem locateFooter_append
    (front footer : Bytes)
    (hlength : footer.length < 2 ^ 32)
    (hsize : 12 ≤ front.length + footer.length + 8) :
    locateFooter (front ++ (footer ++ lengthBytes footer.length ++ magic)) =
      .ok (front.length, footer) := by
  obtain ⟨hbytes, htail, hfooter⟩ := footer_parts front footer
  obtain ⟨hmagic, hlengthOf⟩ := footer_tail hlength
  rw [locateFooter, hbytes, if_neg (by omega), Nat.add_sub_cancel, htail]
  simp only
  rw [if_neg (not_not.mpr hmagic), hlengthOf, if_neg (by omega), Nat.add_sub_cancel,
    hfooter]

end Lengths

section Places

/-- Both entries say that the chunk is at the same place, and how it is read. -/
structure ColumnChunk.SamePlace (before after : ColumnChunk) : Prop where
  fileOffset : after.fileOffset = before.fileOffset
  type : after.type = before.type
  codec : after.codec = before.codec
  numValues : after.numValues = before.numValues
  totalUncompressedSize :
    after.totalUncompressedSize = before.totalUncompressedSize
  totalCompressedSize : after.totalCompressedSize = before.totalCompressedSize
  dataPageOffset : after.dataPageOffset = before.dataPageOffset
  dictionaryPageOffset :
    after.dictionaryPageOffset = before.dictionaryPageOffset

/-- The same rows, in chunks at the same places. -/
structure RowGroupEntry.SamePlace (before after : RowGroupEntry) : Prop where
  numRows : after.numRows = before.numRows
  columns : List.Forall₂ ColumnChunk.SamePlace before.columns after.columns

theorem samePlace_rewritten
    (started compressed : Bool) (columns : List ColumnDef)
    (chunks : List ColumnChunk)
    (hlen : chunks.length = columns.length) :
    List.Forall₂ ColumnChunk.SamePlace chunks
      (List.zipWith (rewritten started compressed) columns chunks) := by
  induction chunks generalizing columns with
  | nil =>
      rw [List.zipWith_nil_right]
      exact List.Forall₂.nil
  | cons chunk rest ih =>
      obtain ⟨column, others, rfl⟩ : ∃ column others, columns = column :: others :=
        List.exists_cons_of_length_eq_add_one hlen.symm
      rw [List.zipWith_cons_cons]
      exact List.Forall₂.cons ⟨rfl, rfl, rfl, rfl, rfl, rfl, rfl, rfl⟩
        (ih others (Nat.succ.inj hlen))

theorem samePlace_rewrittenGroups
    (options : FooterOptions) (groups : List RowGroupEntry) (i : Nat)
    (hlen : ∀ group ∈ groups, group.columns.length = options.columns.length) :
    List.Forall₂ RowGroupEntry.SamePlace groups
      ((groups.zipIdx i).map fun entry =>
        rewrittenGroup options entry.1 entry.2) := by
  induction groups generalizing i with
  | nil =>
      exact List.Forall₂.nil
  | cons group rest ih =>
      obtain ⟨hgroup, hrest⟩ := List.forall_mem_cons.mp hlen
      rw [List.zipIdx_cons, List.map_cons]
      refine List.Forall₂.cons ⟨rfl, ?_⟩ (ih (i + 1) hrest)
      rw [columns_rewrittenGroup]
      exact samePlace_rewritten _ _ _ _ hgroup

/-- The entries of the file come first and keep their places, the others follow. -/
theorem samePlace_buildRowGroups
    (options : FooterOptions)
    {old : List RowGroupEntry} {restored : List RowGroupInfo}
    (new : List RowGroupInfo)
    (hrestore : appendRestoreRowGroups options.columns.length
      (old.map parseRowGroup) = some restored) :
    List.Forall₂ RowGroupEntry.SamePlace old
        ((buildRowGroups options (restored ++ new)).take old.length) ∧
      (buildRowGroups options (restored ++ new)).drop old.length =
        buildRowGroups options new ∧
      restored.length = old.length := by
  obtain ⟨hcolumns, htake⟩ := take_buildRowGroups options new hrestore
  have hlength : restored.length = old.length := by
    rw [appendRestoreRowGroups] at hrestore
    split_ifs at hrestore
    obtain rfl := Option.some.inj hrestore
    simp
  refine ⟨?_, ?_, hlength⟩
  · rw [htake]
    exact samePlace_rewrittenGroups options old 0 hcolumns
  · rw [buildRowGroups, List.map_append]
    exact List.drop_left' (by rw [List.length_map, hlength])

end Places

section Result

/-- The file is what it was up to the old footer, then the new row groups, and then
their footer: it is the one found from the last eight bytes, and lists the old row
groups at their places and after them the new ones. -/
structure Concatenates (fmt : Format) (before : Bytes) (start : Nat)
    (old : FileMetadata) (groups : List WrittenGroup) (footer : FileMetadata)
    (after : Bytes) : Prop where
  tail : after.drop (after.length - 8) =
    lengthBytes (fmt.serialize footer).length ++ magic
  located : locateFooter after =
    .ok (start + (groupsBytes fmt groups).length, fmt.serialize footer)
  decoded : fmt.parse (fmt.serialize footer) = .ok footer
  earlier : List.Forall₂ RowGroupEntry.SamePlace old.rowGroups
    (footer.rowGroups.take old.rowGroups.length)
  later : ∃ options, footer.rowGroups.drop old.rowGroups.length =
    buildRowGroups options (newInfos fmt start old.rowGroups.length groups)
  kept : after.take start = before.take start
  pages : (after.drop start).take (groupsBytes fmt groups).length =
    groupsBytes fmt groups

variable (fmt : Format) (t : Translator) (job : WriteJob)

/-- The append from `w` to `w'` has concatenated. -/
def AppendConcatenates (path : PathState) (w w' : World) : Prop :=
  ∃ before start old restored g writer after,
    path.entry = .file before true ∧
      readForAppend fmt job before = .ok (start, old, restored) ∧
      writeGroups t job.columns job.nrow
        (Writer.create (job.columns.map WriteColumn.spec))
        (rowGroups job.rowGroupRows job.nrow) = .ok g ∧
      writerAtClose fmt t job w = some writer ∧
      w'.path.entry = .file after true ∧
      Concatenates fmt before start old g.flushRowGroup.rowGroups
        (buildFileMetadata job.schema writer) after

/-- The new footer ends where the file ended, or further on, and its length fits
into four bytes. -/
def ReachesOldEnd (path : PathState) (w : World) : Prop :=
  ∃ before writer,
    path.entry = .file before true ∧
      writerAtClose fmt t job w = some writer ∧
      before.length ≤ writer.fileOffset +
        (footerBytes fmt (buildFileMetadata job.schema writer)).length ∧
      (fmt.serialize (buildFileMetadata job.schema writer)).length < 2 ^ 32

variable {fmt t job}

theorem length_footerBytes
    (footer : FileMetadata) :
    (footerBytes fmt footer).length = (fmt.serialize footer).length + 8 := by
  simp only [footerBytes, List.length_append]
  rfl

/-- What an append that returns begins with. -/
theorem Starts.appended
    {path : PathState} {before : Bytes} {start : Nat}
    {opened first : OutputWriter}
    (happend : job.append = true)
    (h : Starts fmt job path before start opened)
    (hsame : SameOutput opened first) :
    ∃ old restored, path.entry = .file before true ∧
      readForAppend fmt job before = .ok (start, old, restored) ∧
      first.infos = restored ∧ first.base = start ∧ first.header = [] ∧
      first.columns.length = job.columns.length := by
  rw [Starts, if_pos happend] at h
  obtain ⟨old, restored, hentry, hread, rfl⟩ := h
  have hwritten : first.headerWritten = true := hsame.headerWritten
  refine ⟨old, restored, hentry, hread, hsame.infos, ?_, ?_, ?_⟩
  · rw [OutputWriter.base, if_pos hwritten]
    exact hsame.fileOffset
  · rw [OutputWriter.header, if_pos hwritten]
  · rw [hsame.columns]
    exact List.length_map _

/-- A footer found where it was written has nothing behind it. -/
theorem reaches_of_located
    {before pages after : Bytes} {start : Nat} {footer : FileMetadata}
    (hstart : start ≤ before.length)
    (hafter : after = overwrite before start (pages ++ footerBytes fmt footer))
    (hlocated : locateFooter after =
      .ok (start + pages.length, fmt.serialize footer)) :
    before.length ≤ start + pages.length + (footerBytes fmt footer).length ∧
      (fmt.serialize footer).length < 2 ^ 32 := by
  obtain ⟨-, hlength, -, hstored⟩ := locateFooter_ok hlocated
  refine ⟨?_, by rw [← hstored]; exact lengthOf_lt _⟩
  rw [hafter, length_overwrite _ _ _ hstart, List.length_append,
    length_footerBytes] at hlength
  rw [length_footerBytes]
  omega

/-- An append that reaches the old end leaves its own footer at the end. -/
theorem located_of_reaches
    {before pages after : Bytes} {start : Nat} {footer : FileMetadata}
    (hsize : 12 ≤ before.length)
    (hstart : start ≤ before.length)
    (hafter : after = overwrite before start (pages ++ footerBytes fmt footer))
    (hreach : before.length ≤
      start + pages.length + (footerBytes fmt footer).length)
    (hstored : (fmt.serialize footer).length < 2 ^ 32) :
    locateFooter after = .ok (start + pages.length, fmt.serialize footer) ∧
      after.drop (after.length - 8) =
        lengthBytes (fmt.serialize footer).length ++ magic := by
  have hfront : (before.take start ++ pages).length = start + pages.length := by
    rw [List.length_append, List.length_take, Nat.min_eq_left hstart]
  have hsplit : after =
      (before.take start ++ pages) ++ footerBytes fmt footer := by
    rw [hafter, overwrite_past_end _ _ _
      (by rw [List.length_append]; omega), List.append_assoc]
  rw [length_footerBytes] at hreach
  constructor
  · rw [hsplit, ← hfront]
    exact locateFooter_append _ _ hstored (by omega)
  · rw [hsplit, footerBytes, List.append_assoc (fmt.serialize footer),
      ← List.append_assoc]
    refine List.drop_left' ?_
    simp only [List.length_append]
    exact (Nat.add_sub_cancel _ 8).symm

variable (fmt t job)

/-- An append that returns with all its bytes on file has concatenated exactly when
it has reached the old end of the file. -/
theorem append_concatenates_iff
    (path : PathState) (script : List Outcome) (closing : Nat) (w' : World)
    (happend : job.append = true)
    (hok : qioWriteParquet fmt t job (World.start path script closing) =
      (.ok (), w'))
    (hflushed : heldAtClose fmt t job (World.start path script closing) ≤ closing)
    (hcodec : ∀ writer,
      writerAtClose fmt t job (World.start path script closing) = some writer →
        fmt.parse (fmt.serialize (buildFileMetadata job.schema writer)) =
          .ok (buildFileMetadata job.schema writer)) :
    AppendConcatenates fmt t job path (World.start path script closing) w' ↔
      ReachesOldEnd fmt t job path (World.start path script closing) := by
  obtain ⟨before, start, opened, first, groups, footer, reached, held, h⟩ :=
    qioWriteParquet_ok hok
  obtain ⟨old, restored, hentry, hread, hinfos, hbase, hheader, hcolumns⟩ :=
    h.starts.appended happend h.same
  obtain ⟨g, hg, rfl⟩ := h.made
  obtain ⟨writer, hwriter, rfl, hoffset⟩ := h.writer
  obtain ⟨started, hlists⟩ := h.lists
  obtain ⟨oldFooter, hlocate, -, hrestore⟩ := readForAppend_ok hread
  obtain ⟨hearlier, hlater, hcount⟩ := samePlace_buildRowGroups
    ⟨first.columns, started, first.compressed, first.sortingColumns⟩
    (newInfos fmt start restored.length g.flushRowGroup.rowGroups)
    (by rw [hcolumns]; exact hrestore)
  rw [hinfos, hbase] at hlists
  rw [hbase] at hoffset
  have hstart := h.starts.le
  have hafter : w'.path.entry = .file (overwrite before start
      (groupsBytes fmt g.flushRowGroup.rowGroups ++
        footerBytes fmt (buildFileMetadata job.schema writer))) true := by
    rw [h.entry, List.take_of_length_le (h.unpassed ▸ hflushed), ← h.bytes,
      outputBytes, hheader]
    rfl
  constructor
  · rintro ⟨before', start', old', restored', g', writer', after, hentry', hread',
      hg', hwriter', hafter', hconcat⟩
    obtain ⟨rfl, -⟩ := Entry.file.inj (hentry.symm.trans hentry')
    obtain ⟨rfl, -⟩ := Prod.mk.inj (Except.ok.inj (hread.symm.trans hread'))
    obtain rfl := Except.ok.inj (hg.symm.trans hg')
    obtain rfl := Option.some.inj (hwriter.symm.trans hwriter')
    obtain ⟨hsame, -⟩ := Entry.file.inj (hafter'.symm.trans hafter)
    obtain ⟨hreach, hstored⟩ := reaches_of_located hstart hsame hconcat.located
    exact ⟨before, writer, hentry, hwriter, by rw [hoffset]; exact hreach, hstored⟩
  · rintro ⟨before', writer', hentry', hwriter', hreach, hstored⟩
    obtain ⟨rfl, -⟩ := Entry.file.inj (hentry.symm.trans hentry')
    obtain rfl := Option.some.inj (hwriter.symm.trans hwriter')
    rw [hoffset] at hreach
    obtain ⟨hlocated, htail⟩ := located_of_reaches (locateFooter_size hlocate)
      hstart rfl hreach hstored
    refine ⟨before, start, old, restored, g, writer, _, hentry, hread, hg, hwriter,
      hafter, htail, hlocated, hcodec writer hwriter, ?_, ?_, ?_, ?_⟩
    · rw [hlists]
      exact hearlier
    · rw [hlists, hlater, hcount]
      exact ⟨_, rfl⟩
    · exact take_overwrite _ _ _ hstart
    · exact take_drop_overwrite _ _ _ _ hstart

/-- What the append of two rows writes: a page, a footer of two row groups with its
length, and the magic. -/
def appendedBytes : Bytes :=
  [7, 0, 0, 0, 8, 0, 0, 0] ++
    [0x15, 2, 0, 1, 0, 1, 4, 1, 1, 1, 4, 4, 1, 8, 2, 1, 1, 8, 8, 0] ++
    lengthBytes 20 ++ magic

theorem append_concatenates_iff_second_group :
    AppendConcatenates sampleFormat plainTranslator (twoRows true)
      ⟨.file (oldFile 0) true, true⟩
      (World.start ⟨.file (oldFile 0) true, true⟩ [] 40) (sampleAppend 0 40).2 := by
  refine (append_concatenates_iff sampleFormat plainTranslator (twoRows true)
    ⟨.file (oldFile 0) true, true⟩ [] 40 (sampleAppend 0 40).2 rfl
    (eq_of_returned (sampleAppend_returns 40)) ?_ ?_).mpr ⟨oldFile 0, _, rfl, rfl, ?_, ?_⟩
  · change 36 ≤ 40
    omega
  · intro writer hwriter
    cases hwriter
    rfl
  · change 29 ≤ 44
    omega
  · change 20 < 2 ^ 32
    omega

/-- The old footer is longer than the new page and the new footer: the end of the
file still is that of the old one, and its length leads to the page. -/
theorem longer_footer_sticks_out :
    (sampleAppend 24 40).1 = .ok () ∧
      ¬ AppendConcatenates sampleFormat plainTranslator (twoRows true)
        ⟨.file (oldFile 24) true, true⟩
        (World.start ⟨.file (oldFile 24) true, true⟩ [] 40) (sampleAppend 24 40).2 ∧
      (sampleAppend 24 40).2.path.entry =
        .file (overwrite (oldFile 24) 8 appendedBytes) true ∧
      locateFooter (overwrite (oldFile 24) 8 appendedBytes) =
        .ok (8, appendedBytes ++ [9]) ∧
      sampleFormat.parse (appendedBytes ++ [9]) = .error "Thrift decode error" := by
  have hsplit : overwrite (oldFile 24) 8 appendedBytes =
      (magic ++ [5, 0, 0, 0]) ++
        (appendedBytes ++ [9] ++ lengthBytes 37 ++ magic) := rfl
  have hlocated : locateFooter (overwrite (oldFile 24) 8 appendedBytes) =
      .ok (8, appendedBytes ++ [9]) := by
    rw [hsplit]
    exact locateFooter_append (magic ++ [5, 0, 0, 0]) (appendedBytes ++ [9]) (by decide)
      (by decide)
  refine ⟨rfl, ?_, rfl, hlocated, rfl⟩
  rintro ⟨before, start, old, restored, g, writer, after, hentry, hread, hg, hwriter,
    hafter, hconcat⟩
  cases hentry
  cases hread
  cases hg
  cases hwriter
  cases hafter
  have hfound := hlocated.symm.trans hconcat.located
  cases hfound

end Result

end Write
end QioParquet
