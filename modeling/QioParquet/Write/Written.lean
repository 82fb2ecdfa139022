import QioParquet.Write.OutputLaws
import Mathlib.Tactic

/-!
# What a write that succeeds has written

As long as nothing fails, the bytes given to the stream are known: the header if
the file has none, the column chunks of every row group that was flushed, and at
the end the footer with its length and the magic. Some first part of them has
reached the file, the rest is in the stream's buffer.

The writer's own records follow the same sequence: they say where each of the row
groups was put.
-/

namespace QioParquet
namespace Write

open Lib Read Plan Footer

section Streams

/-- The bytes given to the stream since it stood at `start` of a file that had the
bytes `before`. The first of them have reached the file, the others are held. -/
def Writing (before : Bytes) (start : Nat) (written : Bytes) (w : World) : Prop :=
  ∃ reached held, written = reached ++ held ∧
    w.path.entry = .file (overwrite before start reached) true ∧
      w.stream = some ⟨start + reached.length, held⟩

variable {before : Bytes} {start : Nat} {written : Bytes} {w w' : World}

theorem Writing.of_same
    (h : Writing before start written w)
    (hpath : w'.path = w.path)
    (hstream : w'.stream = w.stream) :
    Writing before start written w' := by
  unfold Writing
  rw [hpath, hstream]
  exact h

theorem Writing.take
    (h : Writing before start written w)
    (block : Bytes) :
    Writing before start (written ++ block) (w.take block) := by
  obtain ⟨reached, held, rfl, hentry, hstream⟩ := h
  refine ⟨reached, held ++ block, List.append_assoc _ _ _, hentry, ?_⟩
  unfold World.take
  rw [hstream]
  rfl

theorem Writing.pass
    (hstart : start ≤ before.length)
    (h : Writing before start written w)
    (n : Nat) :
    Writing before start written (w.pass n) := by
  obtain ⟨reached, held, rfl, hentry, hstream⟩ := h
  refine ⟨reached ++ held.take n, held.drop n, ?_, ?_, ?_⟩
  · rw [List.append_assoc, List.take_append_drop]
  · unfold World.pass
    rw [hstream]
    change w.path.entry.store _ _ = _
    rw [hentry, Entry.store, overwrite_overwrite_append before start _ _ hstart]
  · unfold World.pass
    rw [hstream, List.length_append, ← Nat.add_assoc]

/-- Whatever a stream still holds is written or lost when it is closed. -/
theorem Writing.fclose
    (hstart : start ≤ before.length)
    (h : Writing before start written w) :
    ∃ reached held, written = reached ++ held ∧
      w.stream = some ⟨start + reached.length, held⟩ ∧
      w.fclose.2.path.entry =
        .file (overwrite before start (reached ++ held.take w.closing)) true ∧
      w.fclose.2.lost = held.drop w.closing ∧
      w.fclose.1 = decide (held.length ≤ w.closing) := by
  obtain ⟨reached, held, rfl, hentry, hstream⟩ := h
  refine ⟨reached, held, rfl, hstream, ?_, ?_, ?_⟩
  · unfold World.fclose World.pass
    rw [hstream]
    change w.path.entry.store _ _ = _
    rw [hentry, Entry.store, overwrite_overwrite_append before start _ _ hstart]
  · unfold World.fclose
    rw [hstream]
  · unfold World.fclose
    rw [hstream]

theorem fwrite_ok
    {block : Bytes}
    (hstart : start ≤ before.length)
    (h : Writing before start written w)
    (hrun : fwrite block w = .ok () w') :
    Writing before start (written ++ block) w' := by
  unfold fwrite at hrun
  obtain ⟨outcome, middle, hnext, hrest⟩ := bind_eq_ok.mp hrun
  have hkeeps := untouched_nextOutcome.of_ok hnext
  have hmiddle : Writing before start written middle :=
    h.of_same hkeeps.path hkeeps.stream
  revert hrest
  cases outcome.fault with
  | none =>
      intro hrest
      cases hrest
      exact (hmiddle.take block).pass hstart outcome.moved
  | some status =>
      intro hrest
      obtain ⟨_, _, _, hthrow⟩ := bind_eq_ok.mp hrest
      cases hthrow

theorem fault_ok
    (h : Writing before start written w)
    (hrun : fault w = .ok () w') :
    Writing before start written w' := by
  have hkeeps := untouched_fault.of_ok hrun
  exact h.of_same hkeeps.path hkeeps.stream

theorem writeBlock_ok
    {block : Bytes}
    (hstart : start ≤ before.length)
    (h : Writing before start written w)
    (hrun : writeBlock block w = .ok () w') :
    Writing before start (written ++ block) w' := by
  unfold writeBlock at hrun
  obtain ⟨_, middle, hfault, hrest⟩ := bind_eq_ok.mp hrun
  have hmiddle := fault_ok h hfault
  split_ifs at hrest with hpos
  · exact fwrite_ok hstart hmiddle hrest
  · cases hrest
    have hnil : block = [] := List.length_eq_zero_iff.mp (by omega)
    rw [hnil, List.append_nil]
    exact hmiddle

theorem writeBlocks_ok
    (hstart : start ≤ before.length)
    (blocks : List Bytes)
    (h : Writing before start written w)
    (hrun : blocks.forM writeBlock w = .ok () w') :
    Writing before start (written ++ blocks.flatten) w' := by
  induction blocks generalizing written w with
  | nil =>
      cases hrun
      rw [List.flatten_nil, List.append_nil]
      exact h
  | cons block rest ih =>
      rw [forM_cons_eq] at hrun
      obtain ⟨_, middle, hblock, hrest⟩ := bind_eq_ok.mp hrun
      rw [List.flatten_cons, ← List.append_assoc]
      exact ih (writeBlock_ok hstart h hblock) hrest

end Streams

section Writers

variable (fmt : Format)

/-- The bytes of a row group. -/
def groupBytes (group : WrittenGroup) : Bytes :=
  (fmt.chunks group).flatten

def groupsBytes (groups : List WrittenGroup) : Bytes :=
  groups.flatMap (groupBytes fmt)

/-- What the footer will say of row groups that follow one another from an offset
on, numbered from `ordinal`. -/
def newInfos : Nat → Nat → List WrittenGroup → List RowGroupInfo
  | _, _, [] => []
  | offset, ordinal, group :: rest =>
      fmt.info offset ordinal group ::
        newInfos (offset + (groupBytes fmt group).length) (ordinal + 1) rest

theorem newInfos_concat
    (offset ordinal : Nat) (groups : List WrittenGroup) (group : WrittenGroup) :
    newInfos fmt offset ordinal (groups ++ [group]) =
      newInfos fmt offset ordinal groups ++
        [fmt.info (offset + (groupsBytes fmt groups).length)
          (ordinal + groups.length) group] := by
  induction groups generalizing offset ordinal with
  | nil =>
      simp [newInfos, groupsBytes]
  | cons first rest ih =>
      simp only [List.cons_append, newInfos, ih, groupsBytes, List.flatMap_cons,
        List.length_append, List.length_cons]
      rw [Nat.add_assoc offset, Nat.add_assoc ordinal, Nat.add_comm 1]

theorem length_newInfos
    (offset ordinal : Nat) (groups : List WrittenGroup) :
    (newInfos fmt offset ordinal groups).length = groups.length := by
  induction groups generalizing offset ordinal with
  | nil =>
      rfl
  | cons group rest ih =>
      simp [newInfos, ih]

/-- The header a writer has still to write. -/
def OutputWriter.header (writer : OutputWriter) : Bytes :=
  if writer.headerWritten then [] else magic

/-- Where the writer's first row group goes. -/
def OutputWriter.base (writer : OutputWriter) : Nat :=
  if writer.headerWritten then writer.fileOffset else 4

def OutputWriter.withHeader (writer : OutputWriter) : OutputWriter :=
  if writer.headerWritten then writer
  else { writer with fileOffset := 4, headerWritten := true }

/-- The bytes a flush writes. -/
def OutputWriter.pending (writer : OutputWriter) : Bytes :=
  if writer.groups.currentRows = 0 then []
  else groupBytes fmt writer.groups.current

def OutputWriter.flushed (writer : OutputWriter) : OutputWriter :=
  if writer.groups.currentRows = 0 then writer
  else { writer with
    groups := writer.groups.flushRowGroup
    infos := writer.infos ++
      [fmt.info writer.fileOffset writer.infos.length writer.groups.current]
    fileOffset := writer.fileOffset + (groupBytes fmt writer.groups.current).length }

def OutputWriter.recorded (writer : OutputWriter) (call : Call) : OutputWriter :=
  { writer.withHeader with
    started := true
    groups := writer.withHeader.groups.record call }

variable {before : Bytes} {start : Nat} {written : Bytes} {w w' : World}
variable {writer writer' : OutputWriter}

theorem ensureHeaderWritten_ok
    (hstart : start ≤ before.length)
    (h : Writing before start written w)
    (hrun : ensureHeaderWritten writer w = .ok writer' w') :
    writer' = writer.withHeader ∧
      Writing before start (written ++ writer.header) w' := by
  unfold ensureHeaderWritten at hrun
  unfold OutputWriter.withHeader OutputWriter.header
  split_ifs at hrun ⊢ with hheader
  · cases hrun
    rw [List.append_nil]
    exact ⟨rfl, h⟩
  · obtain ⟨_, middle, hwrite, hreturn⟩ := bind_eq_ok.mp hrun
    cases hreturn
    exact ⟨rfl, fwrite_ok hstart h hwrite⟩

theorem flushGroup_ok
    (hstart : start ≤ before.length)
    (h : Writing before start written w)
    (hrun : flushGroup fmt writer w = .ok writer' w') :
    writer' = writer.flushed fmt ∧
      Writing before start (written ++ writer.pending fmt) w' := by
  unfold flushGroup at hrun
  unfold OutputWriter.flushed OutputWriter.pending
  split_ifs at hrun ⊢ with hrows
  · cases hrun
    rw [List.append_nil]
    exact ⟨rfl, h⟩
  · obtain ⟨_, middle, hblocks, hrest⟩ := bind_eq_ok.mp hrun
    obtain ⟨_, last, hfault, hreturn⟩ := bind_eq_ok.mp hrest
    cases hreturn
    exact ⟨rfl, fault_ok (writeBlocks_ok hstart _ h hblocks) hfault⟩

theorem carquetWriteBatch_ok
    {call : Call}
    (hstart : start ≤ before.length)
    (h : Writing before start written w)
    (hrun : carquetWriteBatch fmt writer call w = .ok writer' w') :
    call.1 < writer.groups.columns.length ∧
      ∃ written', Writing before start (written ++ writer.header ++ written') w' ∧
        (((writer.recorded call).groups.isFull = true ∧
            writer' = (writer.recorded call).flushed fmt ∧
            written' = (writer.recorded call).pending fmt) ∨
          ((writer.recorded call).groups.isFull = false ∧
            writer' = writer.recorded call ∧ written' = [])) := by
  unfold carquetWriteBatch at hrun
  split_ifs at hrun with hcolumn
  · cases hrun
  refine ⟨by omega, ?_⟩
  obtain ⟨headed, w₁, hheader, hrun⟩ := bind_eq_ok.mp hrun
  obtain ⟨rfl, h₁⟩ := ensureHeaderWritten_ok hstart h hheader
  obtain ⟨_, w₂, hfault₁, hrun⟩ := bind_eq_ok.mp hrun
  obtain ⟨_, w₃, hfault₂, hrun⟩ := bind_eq_ok.mp hrun
  have h₃ := fault_ok (fault_ok h₁ hfault₁) hfault₂
  have hcases : ∀ recorded : OutputWriter,
      (if recorded.groups.isFull = true then flushGroup fmt recorded
        else Pure.pure recorded : Carquet OutputWriter) w₃ = .ok writer' w' →
      ∃ written', Writing before start (written ++ writer.header ++ written') w' ∧
        ((recorded.groups.isFull = true ∧ writer' = recorded.flushed fmt ∧
            written' = recorded.pending fmt) ∨
          (recorded.groups.isFull = false ∧ writer' = recorded ∧
            written' = [])) := by
    intro recorded hlast
    split_ifs at hlast with hfull
    · obtain ⟨rfl, h₄⟩ := flushGroup_ok fmt hstart h₃ hlast
      exact ⟨_, h₄, Or.inl ⟨hfull, rfl, rfl⟩⟩
    · cases hlast
      refine ⟨[], ?_, Or.inr ⟨Bool.eq_false_iff.mpr hfull, rfl, rfl⟩⟩
      rw [List.append_nil]
      exact h₃
  exact hcases (writer.recorded call) hrun

end Writers

section Growing

variable (fmt : Format)

/-- A writer that was `first`, has written `written` and is now `writer`. Its
records agree with the bytes. -/
structure Grown (first writer : OutputWriter) (written : Bytes) : Prop where
  infos : writer.infos = first.infos ++
    newInfos fmt first.base first.infos.length writer.groups.rowGroups
  bytes : written = (if writer.headerWritten then first.header else []) ++
    groupsBytes fmt writer.groups.rowGroups
  header : writer.headerWritten = false →
    first.headerWritten = false ∧ writer.groups.rowGroups = []
  offset : writer.headerWritten = true → writer.fileOffset =
    first.base + (groupsBytes fmt writer.groups.rowGroups).length
  columns : writer.columns = first.columns
  keyValues : writer.keyValues = first.keyValues
  sortingColumns : writer.sortingColumns = first.sortingColumns
  compressed : writer.compressed = first.compressed
  ownsFile : writer.ownsFile = first.ownsFile

variable {fmt} {first writer : OutputWriter} {written : Bytes}

theorem Grown.start
    (hgroups : first.groups.rowGroups = []) :
    Grown fmt first first [] := by
  refine ⟨?_, ?_, fun h => ⟨h, hgroups⟩, fun h => ?_, rfl, rfl, rfl, rfl, rfl⟩
  · rw [hgroups, newInfos, List.append_nil]
  · rw [hgroups]
    unfold OutputWriter.header
    split_ifs <;> rfl
  · rw [hgroups]
    unfold OutputWriter.base
    rw [if_pos h]
    rfl

theorem Grown.withHeader
    (h : Grown fmt first writer written) :
    Grown fmt first writer.withHeader (written ++ writer.header) ∧
      writer.withHeader.headerWritten = true ∧
      writer.withHeader.groups = writer.groups := by
  unfold OutputWriter.withHeader OutputWriter.header
  cases hwritten : writer.headerWritten with
  | true =>
      simp only [if_true, List.append_nil]
      exact ⟨h, hwritten, trivial⟩
  | false =>
      -- nothing has been written, so the header comes first
      obtain ⟨hfirst, hgroups⟩ := h.header hwritten
      have hbase : first.base = 4 := by
        unfold OutputWriter.base
        rw [if_neg (by simp [hfirst])]
      have hheader : first.header = magic := by
        unfold OutputWriter.header
        rw [if_neg (by simp [hfirst])]
      have hbytes : written = [] := by
        rw [h.bytes, hwritten, hgroups]
        rfl
      simp only [Bool.false_eq_true, if_false]
      refine ⟨⟨h.infos, ?_, nofun, fun _ => ?_, h.columns, h.keyValues,
        h.sortingColumns, h.compressed, h.ownsFile⟩, trivial, trivial⟩
      · rw [hbytes, hgroups, hheader]
        rfl
      · rw [hbase, hgroups]
        rfl

theorem Grown.flushed
    (h : Grown fmt first writer written)
    (hheader : writer.headerWritten = true) :
    Grown fmt first (writer.flushed fmt) (written ++ writer.pending fmt) ∧
      (writer.flushed fmt).groups = writer.groups.flushRowGroup := by
  unfold OutputWriter.flushed OutputWriter.pending
  split_ifs with hrows
  · rw [List.append_nil]
    refine ⟨h, ?_⟩
    unfold Writer.flushRowGroup
    rw [if_pos hrows]
  · have hgroups : writer.groups.flushRowGroup.rowGroups =
        writer.groups.rowGroups ++ [writer.groups.current] := by
      unfold Writer.flushRowGroup Writer.current
      rw [if_neg hrows]
    have hbytes : groupsBytes fmt writer.groups.flushRowGroup.rowGroups =
        groupsBytes fmt writer.groups.rowGroups ++
          groupBytes fmt writer.groups.current := by
      rw [hgroups]
      unfold groupsBytes
      rw [List.flatMap_append, List.flatMap_singleton]
    have hcount : writer.infos.length =
        first.infos.length + writer.groups.rowGroups.length := by
      rw [h.infos, List.length_append, length_newInfos]
    refine ⟨⟨?_, ?_, fun hfalse => ?_, fun _ => ?_, h.columns, h.keyValues,
      h.sortingColumns, h.compressed, h.ownsFile⟩, rfl⟩
    · change writer.infos ++ [_] = _ ++ newInfos fmt _ _
        writer.groups.flushRowGroup.rowGroups
      rw [hgroups, newInfos_concat, ← List.append_assoc, ← h.infos,
        h.offset hheader, hcount]
    · change _ = _ ++ groupsBytes fmt writer.groups.flushRowGroup.rowGroups
      rw [hbytes, ← List.append_assoc, ← h.bytes]
    · rw [hheader] at hfalse
      cases hfalse
    · change writer.fileOffset + _ = first.base +
        (groupsBytes fmt writer.groups.flushRowGroup.rowGroups).length
      rw [h.offset hheader, hbytes, List.length_append, Nat.add_assoc]

theorem Grown.recorded
    (h : Grown fmt first writer written)
    (call : Call) :
    Grown fmt first (writer.recorded call) (written ++ writer.header) ∧
      (writer.recorded call).headerWritten = true ∧
      (writer.recorded call).groups = writer.groups.record call := by
  obtain ⟨hgrown, hheader, hgroups⟩ := h.withHeader
  refine ⟨⟨hgrown.infos, hgrown.bytes, hgrown.header, hgrown.offset,
    hgrown.columns, hgrown.keyValues, hgrown.sortingColumns, hgrown.compressed,
    hgrown.ownsFile⟩, hheader, ?_⟩
  unfold OutputWriter.recorded
  rw [hgroups]

end Growing

section Loop

variable (t : Translator)

/-- A step of the loop, in memory. -/
def pureStep (g : Writer) : LoopStep → Except WriteError Writer
  | .batch index column slice => do
      let b ← packChunk t index column slice
      g.writeBatch index slice.1 b
  | .boundary _ => .ok g.flushRowGroup

theorem foldlM_groupSteps
    (columns : List WriteColumn) (nrow : Nat) (group : Nat × Nat) (g : Writer) :
    (groupSteps columns nrow group).foldlM (pureStep t) g =
      writeGroup t columns nrow g group := by
  unfold groupSteps writeGroup
  generalize columns.zipIdx = entries
  induction entries generalizing g with
  | nil =>
      rfl
  | cons entry rest ih =>
      rw [List.flatMap_cons, List.foldlM_append, List.foldlM_map,
        List.foldlM_cons]
      exact bind_congr fun g' => ih g'

/-- The steps of the loop are the loop over row groups. -/
theorem foldlM_loopSteps
    (columns : List WriteColumn) (nrow n : Nat) (groups : List (Nat × Nat))
    (g : Writer) :
    (loopSteps columns nrow n groups).foldlM (pureStep t) g =
      writeGroups t columns nrow g groups := by
  induction groups generalizing n g with
  | nil =>
      rfl
  | cons group rest ih =>
      cases rest with
      | nil =>
          exact foldlM_groupSteps t columns nrow group g
      | cons next rest =>
          rw [loopSteps, List.foldlM_append, foldlM_groupSteps, writeGroups]
          exact bind_congr fun g' => ih (n + 1) g'.flushRowGroup

variable (fmt : Format)

/-- The world has a writer whose row groups are those of `g`, and which has
written what it says. -/
def Follows (first : OutputWriter) (before : Bytes) (start : Nat)
    (w : World) (g : Writer) : Prop :=
  ∃ writer written, w.writer = some writer ∧ writer.groups = g ∧
    Grown fmt first writer written ∧ Writing before start written w

variable {w w' : World}

theorem orRaise_ok
    {α : Type} {result : Except WriteError α} {a : α}
    (h : orRaise result w = .ok a w') :
    result = .ok a ∧ w' = w := by
  cases result with
  | ok b =>
      cases h
      exact ⟨rfl, rfl⟩
  | error e =>
      cases h

theorem useWriter_ok
    {call : OutputWriter → Carquet OutputWriter} {raise : Status → BodyError}
    (h : useWriter call raise w = .ok () w') :
    ∃ writer writer' middle, w.writer = some writer ∧
      call writer w = .ok writer' middle ∧
      w' = { middle with writer := some writer' } := by
  unfold useWriter at h
  split at h
  · cases h
  · next writer hwriter =>
      rcases hrun : call writer w with ⟨writer', middle⟩ | ⟨status, middle⟩
      · rw [hrun] at h
        cases h
        exact ⟨writer, writer', middle, hwriter, hrun, rfl⟩
      · rw [hrun] at h
        cases h

variable {first : OutputWriter} {before : Bytes} {start : Nat} {g : Writer}

theorem Follows.of_untouched
    (h : Follows fmt first before start w g)
    (hkeeps : Untouched w w') :
    Follows fmt first before start w' g := by
  obtain ⟨writer, written, hwriter, hgroups, hgrown, hwriting⟩ := h
  exact ⟨writer, written, hkeeps.writer.trans hwriter, hgroups, hgrown,
    hwriting.of_same hkeeps.path hkeeps.stream⟩

theorem writeBatch_follows
    {index : Nat} {b : Batch} {raise : Status → BodyError}
    (hstart : start ≤ before.length)
    (h : Follows fmt first before start w g)
    (hrun : useWriter (fun writer => carquetWriteBatch fmt writer (index, b))
      raise w = .ok () w') :
    index < g.columns.length ∧
      Follows fmt first before start w' (g.push (index, b)) := by
  obtain ⟨writer, written, hwriter, rfl, hgrown, hwriting⟩ := h
  obtain ⟨_, writer', middle, hwriter', hcall, rfl⟩ := useWriter_ok hrun
  obtain rfl := Option.some.inj (hwriter.symm.trans hwriter')
  obtain ⟨hindex, written', hmiddle, hcases⟩ :=
    carquetWriteBatch_ok fmt hstart hwriting hcall
  obtain ⟨hrecorded, hheader, hgroups⟩ := hgrown.recorded (index, b)
  refine ⟨hindex, ?_⟩
  unfold Writer.push pushItem
  rcases hcases with ⟨hfull, rfl, rfl⟩ | ⟨hfull, rfl, rfl⟩
  · obtain ⟨hflushed, hgroups'⟩ := hrecorded.flushed hheader
    rw [hgroups] at hfull hgroups'
    rw [if_pos hfull]
    exact ⟨_, _, rfl, hgroups', hflushed, hmiddle.of_same rfl rfl⟩
  · rw [hgroups] at hfull
    rw [if_neg (by simp [hfull])]
    rw [List.append_nil] at hmiddle
    exact ⟨_, _, rfl, hgroups, hrecorded, hmiddle.of_same rfl rfl⟩

theorem newRowGroup_follows
    {raise : Status → BodyError}
    (hstart : start ≤ before.length)
    (h : Follows fmt first before start w g)
    (hrun : useWriter (carquetNewRowGroup fmt) raise w = .ok () w') :
    Follows fmt first before start w' g.flushRowGroup := by
  obtain ⟨writer, written, hwriter, rfl, hgrown, hwriting⟩ := h
  obtain ⟨_, writer', middle, hwriter', hcall, rfl⟩ := useWriter_ok hrun
  obtain rfl := Option.some.inj (hwriter.symm.trans hwriter')
  obtain ⟨headed, w₁, hensure, hflush⟩ := bind_eq_ok.mp hcall
  obtain ⟨rfl, h₁⟩ := ensureHeaderWritten_ok hstart hwriting hensure
  obtain ⟨rfl, h₂⟩ := flushGroup_ok fmt hstart h₁ hflush
  obtain ⟨hheaded, hheader, hgroups⟩ := hgrown.withHeader
  obtain ⟨hflushed, hgroups'⟩ := hheaded.flushed hheader
  rw [hgroups] at hgroups'
  exact ⟨_, _, rfl, hgroups', hflushed, h₂.of_same rfl rfl⟩

theorem loopStep_follows
    (hstart : start ≤ before.length)
    (step : LoopStep) (w w' : World) (g : Writer)
    (h : Follows fmt first before start w g)
    (hrun : loopStep fmt t step w = .ok PUnit.unit w') :
    ∃ g', pureStep t g step = .ok g' ∧ Follows fmt first before start w' g' := by
  cases step with
  | batch index column slice =>
      obtain ⟨_, w₁, halloc, hrun⟩ := bind_eq_ok.mp hrun
      obtain ⟨b, w₂, hpack, hrun⟩ := bind_eq_ok.mp hrun
      obtain ⟨_, w₃, hwrite, hinterrupt⟩ := bind_eq_ok.mp hrun
      obtain ⟨hpacked, rfl⟩ := orRaise_ok hpack
      have h₁ := h.of_untouched fmt ((untouched_may _).of_ok halloc)
      obtain ⟨hindex, h₃⟩ := writeBatch_follows fmt hstart h₁ hwrite
      refine ⟨g.push (index, b), ?_,
        h₃.of_untouched fmt ((untouched_may _).of_ok hinterrupt)⟩
      change (packChunk t index column slice >>= g.writeBatch index slice.1) = _
      rw [hpacked]
      change g.writeBatch index slice.1 b = _
      unfold Writer.writeBatch
      rw [if_pos hindex]
  | boundary group =>
      exact ⟨g.flushRowGroup, rfl, newRowGroup_follows fmt hstart h hrun⟩

/-- A loop that returns has made the row groups of the loop in memory. -/
theorem writeLoop_follows
    {job : WriteJob}
    (hstart : start ≤ before.length)
    (h : Follows fmt first before start w g)
    (hrun : writeLoop fmt t job w = .ok () w') :
    ∃ g', writeGroups t job.columns job.nrow g
        (rowGroups job.rowGroupRows job.nrow) = .ok g' ∧
      Follows fmt first before start w' g' := by
  obtain ⟨g', hfold, hfollows⟩ :=
    forM_follows (loopStep_follows t fmt hstart) h hrun
  exact ⟨g', (foldlM_loopSteps t _ _ _ _ _).symm.trans hfold, hfollows⟩

end Loop

end Write
end QioParquet
