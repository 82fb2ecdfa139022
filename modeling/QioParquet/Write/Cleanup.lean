import QioParquet.Write.OutputLaws
import QioParquet.Write.RoundTrip
import Mathlib.Tactic

/-!
# What a failed write leaves at the path

The cleanup of a write that is no append removes the entry at the path whenever
the body has not finished. It does not ask whether the body had come to open it.

The calls of the body fall into two groups. Before the output is opened nothing
touches the entry. From then on the entry is a file, and stays one until the
cleanup.
-/

namespace QioParquet
namespace Write

open Lib Read Plan Footer

section Opening

/-- An output that is not opened is not touched. -/
theorem openOutput_error
    {job : WriteJob} {w w' : World} {e : BodyError}
    (h : openOutput job w = .error e w') :
    Untouched w w' := by
  unfold openOutput at h
  rcases bind_eq_error.mp h with hmay | ⟨_, middle, hmay, hrest⟩
  · exact (untouched_may _).of_error hmay
  · have hkeeps := (untouched_may _).of_ok hmay
    obtain hget | ⟨_, _, hget, hset⟩ := bind_eq_error.mp hrest
    · cases hget
    · cases hget
      revert hset
      cases middle.path.create with
      | none =>
          intro hset
          cases hset
          exact hkeeps
      | some path =>
          intro hset
          cases hset

/-- An output that is opened is a file. -/
theorem openOutput_ok
    {job : WriteJob} {w w' : World}
    (h : openOutput job w = .ok () w') :
    ∃ path, w.path.create = some path ∧
      w'.path = path ∧ w'.stream = some ⟨0, []⟩ ∧ w'.file = true ∧
      w'.lost = w.lost ∧ w'.writer = w.writer ∧ w'.finished = w.finished ∧
      w'.closing = w.closing := by
  unfold openOutput at h
  obtain ⟨_, middle, hmay, hrest⟩ := bind_eq_ok.mp h
  have hkeeps := (untouched_may _).of_ok hmay
  obtain ⟨_, _, hget, hset⟩ := bind_eq_ok.mp hrest
  cases hget
  rw [← hkeeps.path, ← hkeeps.lost, ← hkeeps.writer, ← hkeeps.finished,
    ← hkeeps.closing]
  revert hset
  cases middle.path.create with
  | none =>
      intro hset
      cases hset
  | some path =>
      intro hset
      cases hset
      exact ⟨path, rfl, rfl, rfl, rfl, rfl, rfl, rfl, rfl⟩

theorem create_isFile
    {p path : PathState}
    (h : p.create = some path) :
    path.entry = .file [] true ∧ path.parentAllows = p.parentAllows := by
  unfold PathState.create at h
  split at h
  · split_ifs at h
    cases h
    exact ⟨rfl, rfl⟩
  · cases h
    exact ⟨rfl, rfl⟩
  · cases h

end Opening

section Steady

/-- A file stays a file, in a directory that stays as it is. -/
structure Steady (w w' : World) : Prop where
  parent : w'.path.parentAllows = w.path.parentAllows
  isFile : w.path.entry.isFile = true → w'.path.entry.isFile = true
  finished : w'.finished = w.finished

theorem Steady.refl
    (w : World) :
    Steady w w :=
  ⟨rfl, id, rfl⟩

theorem Steady.trans
    (a b c : World)
    (h : Steady a b)
    (h' : Steady b c) :
    Steady a c :=
  ⟨h'.parent.trans h.parent, fun hfile => h'.isFile (h.isFile hfile),
    h'.finished.trans h.finished⟩

theorem Untouched.steady
    {w w' : World}
    (h : Untouched w w') :
    Steady w w' :=
  ⟨by rw [h.path], by rw [h.path]; exact id, h.finished⟩

theorem steady_pass
    (n : Nat) (w : World) :
    Steady w (w.pass n) := by
  unfold World.pass
  split
  · exact Steady.refl w
  · refine ⟨rfl, fun hfile => ?_, rfl⟩
    change (w.path.entry.store _ _).isFile = true
    revert hfile
    cases w.path.entry <;> exact id

theorem steady_respected :
    Respected Steady where
  untouched _ _ := Untouched.steady
  trans := Steady.trans
  take _ _ := ⟨rfl, id, rfl⟩
  pass w n := steady_pass n w

theorem steady_fclose
    (w : World) :
    Steady w w.fclose.2 := by
  unfold World.fclose
  split
  · exact Steady.refl w
  · have hpass := steady_pass w.closing w
    exact ⟨hpass.parent, hpass.isFile, hpass.finished⟩

theorem steady_closeOwned
    (writer : OutputWriter) (w : World) :
    Steady w (closeOwned writer w) := by
  unfold closeOwned
  split_ifs
  · exact steady_fclose w
  · exact Steady.refl w

theorem steady_carquetWriterClose
    (fmt : Format) (schema : List SchemaLeaf) (writer : OutputWriter) :
    Keeps Steady (carquetWriterClose fmt schema writer) := by
  intro w
  unfold carquetWriterClose
  have hfinish := keeps_finishFile steady_respected fmt schema writer w
  rcases hrun : finishFile fmt schema writer w with ⟨_, w'⟩ | ⟨status, w'⟩
  all_goals
    rw [hrun] at hfinish
    exact Steady.trans _ w' _ hfinish (steady_closeOwned writer w')

end Steady

section Body

variable (fmt : Format) (t : Translator)

theorem steady_closeWriter
    (job : WriteJob) :
    Keeps Steady (closeWriter fmt job) := by
  intro w
  unfold closeWriter
  split
  · exact Steady.refl w
  · next writer _ =>
      have hclose := (steady_carquetWriterClose fmt job.schema writer).adaptExcept
        (fun _ => BodyError.write (.finalize job.path)) { w with writer := none }
      exact ⟨hclose.parent, hclose.isFile, hclose.finished⟩

theorem steady_closeFile
    (job : WriteJob) :
    Keeps Steady (closeFile job) := by
  intro w
  have hclose := steady_fclose { w with file := false }
  unfold closeFile
  split_ifs
  · dsimp only
    split_ifs
    all_goals exact ⟨hclose.parent, hclose.isFile, hclose.finished⟩
  · exact Steady.refl w

theorem steady_afterOpen
    (job : WriteJob) :
    Keeps Steady (afterOpen fmt t job) :=
  keeps_afterOpen steady_respected fmt t (fun _ _ => ⟨rfl, id, rfl⟩) job

/-- The output has been opened. -/
def Opened (job : WriteJob) (w : World) : Prop :=
  ∃ w', openPhase fmt job w = .ok () w'

/-- A body that raises has done so in the opening, or after it and unfinished. -/
theorem qioWriteBody_error
    {job : WriteJob} {w w' : World} {e : BodyError}
    (h : qioWriteBody fmt t job w = .error e w') :
    openPhase fmt job w = .error e w' ∨
      ∃ w₁, openPhase fmt job w = .ok () w₁ ∧ Steady w₁ w' := by
  unfold qioWriteBody beforeClose at h
  rcases bind_eq_error.mp h with hbefore | ⟨_, w₂, hbefore, hclosing⟩
  · rcases bind_eq_error.mp hbefore with hopen | ⟨_, w₁, hopen, hrest⟩
    · exact Or.inl hopen
    · exact Or.inr ⟨w₁, hopen, (steady_afterOpen fmt t job).of_error hrest⟩
  · obtain ⟨_, w₁, hopen, hrest⟩ := bind_eq_ok.mp hbefore
    have hloop := (steady_afterOpen fmt t job).of_ok hrest
    refine Or.inr ⟨w₁, hopen, Steady.trans _ w₂ _ hloop ?_⟩
    rcases bind_eq_error.mp hclosing with hclose | ⟨_, w₃, hclose, hfile⟩
    · exact (steady_closeWriter fmt job).of_error hclose
    · have hsteady := (steady_closeWriter fmt job).of_ok hclose
      refine Steady.trans _ w₃ _ hsteady ?_
      rcases bind_eq_error.mp hfile with hflush | ⟨_, _, _, hend⟩
      · exact (steady_closeFile job).of_error hflush
      · cases hend

end Body

section Removing

theorem remove_of_removable_eq_false
    {p : PathState}
    (h : p.removable = false) :
    p.remove = p := by
  unfold PathState.remove
  rw [h]
  rfl

/-- Taking the entry away changes the path exactly where it can be done. -/
theorem remove_eq_self_iff
    (p : PathState) :
    p.remove = p ↔ p.removable = false := by
  refine ⟨fun h => ?_, remove_of_removable_eq_false⟩
  by_contra hremovable
  rw [Bool.not_eq_false] at hremovable
  unfold PathState.remove at h
  rw [if_pos hremovable] at h
  have hentry : p.entry = .absent := (congrArg PathState.entry h).symm
  unfold PathState.removable at hremovable
  rw [hentry] at hremovable
  cases hremovable

/-- There is a file that can be removed, or nothing. -/
def FileOrNothing (p : PathState) : Prop :=
  p.parentAllows = true ∧ (p.entry.isFile = true ∨ p.entry = .absent)

theorem FileOrNothing.remove
    {p : PathState}
    (h : FileOrNothing p) :
    p.remove.entry = .absent ∧ FileOrNothing p.remove := by
  obtain ⟨hparent, hentry⟩ := h
  unfold PathState.remove PathState.removable FileOrNothing
  rcases hcase : p.entry with _ | ⟨bytes, writable⟩ | isEmpty
  · simp [hcase, hparent]
  · simp [hparent]
  · rw [hcase] at hentry
    rcases hentry with hentry | hentry <;> cases hentry

theorem FileOrNothing.fclose
    {w : World}
    (h : FileOrNothing w.path) :
    FileOrNothing w.fclose.2.path := by
  obtain ⟨hparent, hentry⟩ := h
  unfold World.fclose World.pass
  cases w.stream with
  | none =>
      exact ⟨hparent, hentry⟩
  | some s =>
      refine ⟨hparent, ?_⟩
      change (w.path.entry.store _ _).isFile = true ∨ w.path.entry.store _ _ = .absent
      revert hentry
      cases w.path.entry with
      | absent =>
          exact id
      | file bytes writable =>
          exact fun _ => Or.inl rfl
      | directory isEmpty =>
          exact id

theorem FileOrNothing.abort
    {w : World} (writer : OutputWriter)
    (h : FileOrNothing w.path) :
    FileOrNothing (carquetWriterAbort writer w).path := by
  have hclosed : FileOrNothing (closeOwned writer w).path := by
    unfold closeOwned
    split_ifs
    · exact h.fclose
    · exact h
  unfold carquetWriterAbort
  dsimp only
  split_ifs
  · exact hclosed.remove.2
  · exact hclosed

theorem finished_abort
    (writer : OutputWriter) (w : World) :
    (carquetWriterAbort writer w).finished = w.finished := by
  unfold carquetWriterAbort
  dsimp only
  split_ifs <;> exact (steady_closeOwned writer w).finished

theorem FileOrNothing.releaseWriter
    {w : World}
    (h : FileOrNothing w.path) :
    FileOrNothing (releaseWriter w).path ∧
      (Write.releaseWriter w).finished = w.finished := by
  unfold Write.releaseWriter
  split
  · next writer _ =>
      exact ⟨h.abort writer, finished_abort writer w⟩
  · exact ⟨h, rfl⟩

theorem FileOrNothing.releaseFile
    {w : World}
    (h : FileOrNothing w.path) :
    FileOrNothing (releaseFile w).path ∧
      (Write.releaseFile w).finished = w.finished := by
  unfold Write.releaseFile
  split_ifs
  · exact ⟨h.fclose, (steady_fclose w).finished⟩
  · exact ⟨h, rfl⟩

theorem removeUnfinished_of_unfinished
    {job : WriteJob} {w : World}
    (happend : job.append = false)
    (hfinished : w.finished = false) :
    (removeUnfinished job w).path = w.path.remove := by
  unfold removeUnfinished
  rw [if_pos (by simp [happend, hfinished])]

/-- The cleanup leaves nothing where there was a file it may remove. -/
theorem absent_qioWriteCleanup
    {job : WriteJob} {w : World}
    (happend : job.append = false)
    (hfinished : w.finished = false)
    (h : FileOrNothing w.path) :
    (qioWriteCleanup job w).path.entry = .absent := by
  obtain ⟨hwriter, hfinished₁⟩ := h.releaseWriter
  have hpath : FileOrNothing { releaseWriter w with schema := false }.path :=
    hwriter
  obtain ⟨hfile, hfinished₂⟩ := hpath.releaseFile
  unfold qioWriteCleanup
  rw [removeUnfinished_of_unfinished happend
    (hfinished₂.trans (hfinished₁.trans hfinished))]
  exact hfile.remove.1

/-- Where the body has opened nothing, the cleanup only removes. -/
theorem path_qioWriteCleanup_of_untouched
    {job : WriteJob} {path : PathState} {script : List Outcome} {closing : Nat}
    {w : World}
    (happend : job.append = false)
    (h : Untouched (World.start path script closing) w) :
    (qioWriteCleanup job w).path = path.remove := by
  have hwriter : releaseWriter w = w := by
    unfold releaseWriter
    rw [h.writer]
    rfl
  have hfile : releaseFile { w with schema := false } = { w with schema := false } := by
    unfold releaseFile
    rw [if_neg (by simp [h.file, World.start])]
  have hremove : (removeUnfinished job { w with schema := false }).path =
      w.path.remove :=
    removeUnfinished_of_unfinished happend h.finished
  unfold qioWriteCleanup
  rw [hwriter, hfile, hremove, h.path]
  rfl

end Removing

section Result

variable {fmt : Format} {t : Translator} {job : WriteJob}

/-- An opening that fails leaves the output alone. -/
theorem openPhase_error
    {w w' : World} {e : BodyError}
    (happend : job.append = false)
    (h : openPhase fmt job w = .error e w') :
    Untouched w w' := by
  unfold openPhase at h
  rw [happend] at h
  rcases bind_eq_error.mp h with hschema | ⟨_, w₁, hschema, hopen⟩
  · exact (untouched_declareSchema job).of_error hschema
  · exact Untouched.trans _ w₁ _ ((untouched_declareSchema job).of_ok hschema)
      (openOutput_error hopen)

/-- After the opening there is a file, in the same directory. -/
theorem openPhase_ok
    {w w' : World}
    (happend : job.append = false)
    (h : openPhase fmt job w = .ok () w') :
    w'.path.entry.isFile = true ∧
      w'.path.parentAllows = w.path.parentAllows ∧ w'.finished = w.finished := by
  unfold openPhase at h
  rw [happend] at h
  obtain ⟨_, w₁, hschema, hopen⟩ := bind_eq_ok.mp h
  have hkeeps := (untouched_declareSchema job).of_ok hschema
  obtain ⟨path, hcreate, hpath, -, -, -, -, hfinished, -⟩ := openOutput_ok hopen
  obtain ⟨hentry, hparent⟩ := create_isFile hcreate
  refine ⟨by rw [hpath, hentry]; rfl, ?_, hfinished.trans hkeeps.finished⟩
  rw [hpath, hparent, hkeeps.path]

variable (fmt t job)

/-- A failed write that is no append leaves the path as it was if it had not
opened it, and nothing there if it had: exactly when it had opened it, or when
there was nothing at the path that can be removed. -/
theorem failed_write_removes_only_its_own_iff
    (path : PathState) (script : List Outcome) (closing : Nat)
    (e : BodyError) (w' : World)
    (happend : job.append = false)
    (hfail : qioWriteParquet fmt t job (World.start path script closing) =
      (.error e, w'))
    (hremoval : Opened fmt job (World.start path script closing) →
      path.parentAllows = true) :
    ((¬ Opened fmt job (World.start path script closing) → w'.path = path) ∧
        (Opened fmt job (World.start path script closing) →
          w'.path.entry = .absent)) ↔
      (Opened fmt job (World.start path script closing) ∨
        path.removable = false) := by
  unfold qioWriteParquet at hfail
  rcases hbody : qioWriteBody fmt t job (World.start path script closing) with
    ⟨_, w⟩ | ⟨e', w⟩
  · rw [hbody] at hfail
    cases hfail
  rw [hbody] at hfail
  obtain ⟨-, rfl⟩ := Prod.mk.inj hfail
  rcases qioWriteBody_error fmt t hbody with hopen | ⟨w₁, hopen, hsteady⟩
  · -- the opening failed, so the cleanup takes away what was there before
    have hclosed : ¬ Opened fmt job (World.start path script closing) := by
      rintro ⟨w₂, hopened⟩
      rw [hopen] at hopened
      cases hopened
    rw [path_qioWriteCleanup_of_untouched happend (openPhase_error happend hopen)]
    simp only [hclosed, not_false_eq_true, forall_const, false_or, false_implies,
      and_true]
    exact remove_eq_self_iff path
  · have hopened : Opened fmt job (World.start path script closing) :=
      ⟨w₁, hopen⟩
    obtain ⟨hfile, hparent, hfinished⟩ := openPhase_ok happend hopen
    have habsent := absent_qioWriteCleanup happend
      (hsteady.finished.trans hfinished)
      ⟨hsteady.parent.trans (hparent.trans (hremoval hopened)),
        Or.inl (hsteady.isFile hfile)⟩
    simp only [hopened, not_true_eq_false, false_implies, true_and, forall_const,
      true_or, iff_true]
    exact habsent

/-- One column, and nothing else. -/
def plainJob (append : Bool) (column : WriteColumn) (nrow rowGroupRows : Nat) :
    WriteJob :=
  ⟨[column], nrow, rowGroupRows, append, "x.parquet", [], none, false⟩

/-- A REQUIRED INT32 column. -/
def intColumn (cells : List RCell) : WriteColumn :=
  ⟨⟨"x", .int32, false⟩, ⟨.intsxp, cells⟩, []⟩

/-- A call that does not fail. -/
def success : Outcome := ⟨none, 0, 0⟩

/-- The four bytes of an INT32 or the byte of a BOOLEAN, and nothing of other values. -/
def plainBytes (row : Row) : Bytes :=
  match row.value with
  | some (.int32 word) => lengthBytes word.toNat
  | some (.boolean byte) => [byte]
  | _ => []

def sampleType (rows : List Row) : PhysicalType :=
  match rows.head?.bind Row.value with
  | some (.boolean _) => .boolean
  | _ => .int32

/-- What is kept of a chunk of a format without page headers. -/
def sampleInfo (type : PhysicalType) (offset size rows : Nat) : ColumnInfo where
  fileOffset := offset
  type := type
  codec := 0
  numValues := rows
  totalCompressedSize := size
  totalUncompressedSize := size
  dataPageOffset := offset
  dictionaryPageOffset := none
  encodings := [.plain, .rle]
  bloomFilterOffset := none
  bloomFilterLength := none
  columnIndexOffset := none
  columnIndexLength := none
  offsetIndexOffset := none
  offsetIndexLength := none
  hasStatistics := false
  nullCount := none
  minMax := none
  encodings_room := by simp

/-- The chunks of a row group, one behind the other. -/
def sampleInfos : Nat → List (List Row) → List ColumnInfo
  | _, [] => []
  | offset, rows :: rest =>
      let size := (rows.flatMap plainBytes).length
      sampleInfo (sampleType rows) offset size rows.length ::
        sampleInfos (offset + size) rest

def sampleNames : List String := ["x", "y", "a", "V1", "V3"]

def sampleCode : PhysicalType → UInt8
  | .boolean => 0
  | _ => 1

/-- A leaf, as a marker, a name, a type and a repetition. -/
def leafEntry (s : SchemaLeaf) : Bytes :=
  [2, UInt8.ofNat (sampleNames.idxOf s.leaf.name), sampleCode s.physicalType,
    if s.repetition = .required then 0 else 1]

/-- A row group, as a marker, its offset, its rows and its chunks: a type, an offset
and a size for each. -/
def groupEntry (group : RowGroupEntry) : Bytes :=
  [1, UInt8.ofNat (group.fileOffset.getD 0).toNat, UInt8.ofNat group.numRows.toNat,
      UInt8.ofNat group.columns.length] ++
    group.columns.flatMap fun chunk =>
      [sampleCode chunk.type, UInt8.ofNat chunk.fileOffset.toNat,
        UInt8.ofNat chunk.totalCompressedSize.toNat]

/-- The chunks of an entry, and what follows them. -/
def chunksOf (rows : Nat) : Nat → Bytes → List ColumnChunk × Bytes
  | n + 1, code :: offset :: size :: rest =>
      let type : PhysicalType := if code = 0 then .boolean else .int32
      let (chunks, rest') := chunksOf rows n rest
      (buildColumnChunk true false ⟨type, none, none⟩
        (sampleInfo type offset.toNat size.toNat rows) :: chunks, rest')
  | _, rest => ([], rest)

/-- The entries of a footer, as far as they go. -/
def entriesOf : Nat → FileMetadata → Bytes → FileMetadata
  | fuel + 1, footer, marker :: a :: b :: c :: rest =>
      if marker = 2 then
        let spec : WriteSpec :=
          ⟨sampleNames.getD a.toNat "", if b = 0 then .boolean else .int32, c == 1⟩
        entriesOf fuel { footer with schema := footer.schema ++ [spec.schemaLeaf] } rest
      else if marker = 1 then
        let (chunks, rest') := chunksOf b.toNat c.toNat rest
        let size := (chunks.map ColumnChunk.totalCompressedSize).sum
        let group : RowGroupEntry := ⟨chunks, size, b.toNat, [], some a.toNat,
          some size, some footer.rowGroups.length⟩
        entriesOf fuel { footer with rowGroups := footer.rowGroups ++ [group] } rest'
      else
        footer
  | _, footer, _ => footer

/-- A format for examples, with INT32 and BOOLEAN columns. Column chunks are their
values, without page headers. A footer begins with a byte of its own and ends in zero,
and what follows the zero is not read. -/
def sampleFormat : Format where
  chunks group := group.chunks.map fun rows => rows.flatMap plainBytes
  info offset ordinal group :=
    let infos := sampleInfos offset group.chunks
    let size := (infos.map ColumnInfo.totalCompressedSize).sum
    ⟨offset, group.numRows, size, size, ordinal, infos⟩
  serialize footer :=
    [0x15] ++ footer.schema.flatMap leafEntry ++ footer.rowGroups.flatMap groupEntry ++
      [0]
  parse bytes :=
    match bytes with
    | first :: rest =>
        if first = 0x15 then
          validateCounts (entriesOf rest.length ⟨[], [], []⟩ rest)
        else
          .error "Thrift decode error"
    | [] => .error "Thrift decode error"

/-- Two rows of one column. -/
def twoRows (append : Bool) : WriteJob :=
  plainJob append (intColumn [.int 7, .int 8]) 2 0

/-- The call that can fail after `n` others fails. -/
def failsAfter (n : Nat) : List Outcome :=
  List.replicate n success ++ [⟨some .outOfMemory, 0, 0⟩]

/-- A write over a file, and the call after `n` others fails. -/
def failedWrite (n : Nat) : Except BodyError Unit × World :=
  qioWriteParquet sampleFormat plainTranslator (twoRows false)
    (World.start ⟨.file [1] true, true⟩ (failsAfter n) 0)

/-- A batch is not taken by the writer of an output that was opened: the file that
stood there is gone. -/
theorem failed_write_removes_only_its_own_iff_opened :
    (failedWrite 7).2.path.entry = .absent := by
  have hopened : Opened sampleFormat (twoRows false)
      (World.start ⟨.file [1] true, true⟩ (failsAfter 7) 0) :=
    ⟨_, rfl⟩
  have hfailed : (failedWrite 7).1 = .error (.write (.writeBatch 0 0 "Out of memory")) := by
    decide +kernel
  exact ((failed_write_removes_only_its_own_iff sampleFormat plainTranslator
    (twoRows false) ⟨.file [1] true, true⟩ (failsAfter 7) 0
    (.write (.writeBatch 0 0 "Out of memory")) (failedWrite 7).2 rfl
    (Prod.ext hfailed rfl) fun _ => rfl).mpr (Or.inl hopened)).2 hopened

/-- A file that cannot be written stands in a directory that lets it be removed:
the write cannot open it, and removes it. -/
theorem unwritable_file_removed :
    ∃ w', qioWriteParquet sampleFormat plainTranslator (twoRows false)
        (World.start ⟨.file magic false, true⟩ [] 0) =
          (.error (.cannotCreate "x.parquet" none), w') ∧
      ¬ Opened sampleFormat (twoRows false)
        (World.start ⟨.file magic false, true⟩ [] 0) ∧
      w'.path = ⟨.absent, true⟩ := by
  refine ⟨_, rfl, ?_, rfl⟩
  rintro ⟨w₁, hopened⟩
  cases hopened

end Result

end Write
end QioParquet
