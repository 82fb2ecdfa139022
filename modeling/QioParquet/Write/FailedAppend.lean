import QioParquet.Write.Appended
import Mathlib.Tactic

/-!
# An append that fails

`carquet_writer_abort` closes the stream of an append and leaves the file. What has
been flushed by then lies over the old footer, and nothing brings it back. As long
as no row group has been flushed the stream has not been given a byte, and the file
is the one the append found.
-/

namespace QioParquet
namespace Write

open Lib Read Plan Footer

section Idle

/-- An append that has not written: the stream holds nothing, and the writer will
not begin with a header. -/
structure Idle (path : PathState) (w : World) : Prop where
  path : w.path = path
  stream : ∃ start, w.stream = some ⟨start, []⟩
  file : w.file = false
  writer : ∃ writer, w.writer = some writer ∧ writer.headerWritten = true ∧
    writer.isAppend = true

variable {path : PathState} {w w' : World}

theorem Idle.of_untouched
    (h : Idle path w)
    (hkeeps : Untouched w w') :
    Idle path w' := by
  obtain ⟨writer, hwriter, hmode⟩ := h.writer
  obtain ⟨start, hstream⟩ := h.stream
  exact ⟨hkeeps.path.trans h.path, ⟨start, hkeeps.stream.trans hstream⟩,
    hkeeps.file.trans h.file, ⟨writer, hkeeps.writer.trans hwriter, hmode⟩⟩

/-- The writer may be exchanged for one in the same mode. -/
theorem Idle.set
    (h : Idle path w)
    {writer : OutputWriter}
    (hheader : writer.headerWritten = true)
    (happend : writer.isAppend = true) :
    Idle path { w with writer := some writer } :=
  ⟨h.path, h.stream, h.file, writer, rfl, hheader, happend⟩

theorem idle_configure
    (t : Translator) (job : WriteJob) :
    Keeps (fun w w' => Idle path w → Idle path w') (configure t job) := by
  refine configure_keeps ?_ ?_ ?_ t job
  · intro w w' hkeeps h
    exact h.of_untouched hkeeps
  · intro a b c h h' hidle
    exact h' (h hidle)
  · intro w old new hold hsame h
    obtain ⟨writer, hwriter, hheader, happend⟩ := h.writer
    obtain rfl := Option.some.inj (hold.symm.trans hwriter)
    exact h.set (hsame.headerWritten.trans hheader) (hsame.isAppend.trans happend)

theorem idle_openPhase
    {fmt : Format} {job : WriteJob} {script : List Outcome} {closing : Nat}
    (happend : job.append = true)
    (hopen : openPhase fmt job (World.start path script closing) = .ok () w) :
    Idle path w ∧ ∃ before start old restored, path.entry = .file before true ∧
      readForAppend fmt job before = .ok (start, old, restored) := by
  obtain ⟨_, w₀, hschema, hopen⟩ := bind_eq_ok.mp hopen
  have hkeeps := (untouched_declareSchema job).of_ok hschema
  rw [if_pos happend] at hopen
  obtain ⟨before, start, old, restored, hentry, hread, hpath, hstream, hwriter,
    hcontext⟩ := openAppend_ok hopen
  rw [hkeeps.path] at hentry hpath
  exact ⟨⟨hpath, ⟨start, hstream⟩, hcontext.file.trans hkeeps.file,
    _, hwriter, rfl, rfl⟩, before, start, old, restored, hentry, hread⟩

/-- A stream that holds nothing is closed without an effect on the file. -/
theorem path_fclose_of_empty
    {before : Bytes} {start : Nat}
    (hentry : path.entry = .file before true)
    (hpath : w.path = path)
    (hstream : w.stream = some ⟨start, []⟩) :
    w.fclose.2.path = path := by
  simp only [World.fclose, World.pass, hstream, List.take_nil, hpath, hentry,
    Entry.store, overwrite_nil]
  rw [← hentry]

/-- The cleanup of an append that has not written changes nothing on file. -/
theorem path_qioWriteCleanup_of_idle
    {job : WriteJob} {before : Bytes}
    (happend : job.append = true)
    (hentry : path.entry = .file before true)
    (h : Idle path w) :
    (qioWriteCleanup job w).path = path := by
  obtain ⟨writer, hwriter, -, hmode⟩ := h.writer
  obtain ⟨start, hstream⟩ := h.stream
  have hfclose : w.fclose.2.path = path ∧ w.fclose.2.file = false := by
    exact ⟨path_fclose_of_empty hentry h.path hstream, (fclose_frame w).1.trans h.file⟩
  have hreleased : (releaseWriter w).path = path ∧ (releaseWriter w).file = false := by
    rw [releaseWriter, hwriter]
    simp only [carquetWriterAbort, hmode, not_true_eq_false, and_false, if_false,
      closeOwned]
    split_ifs
    · exact hfclose
    · exact ⟨h.path, h.file⟩
  simp only [qioWriteCleanup, releaseFile, removeUnfinished, hreleased.2, happend,
    Bool.false_eq_true, not_true_eq_false, and_false, if_false]
  exact hreleased.1

end Idle

section Loop

variable {fmt : Format} {t : Translator} {path : PathState} {w : World}

/-- The step does not flush a row group of the writer it finds. -/
def FlushFree (t : Translator) (w : World) : LoopStep → Prop
  | .batch index column slice =>
      ∀ writer b, w.writer = some writer →
        packChunk t index column slice = .ok b →
          (writer.groups.record (index, b)).isFull = false
  | .boundary _ =>
      ∀ writer, w.writer = some writer → writer.groups.currentRows = 0

instance decidableFlushFree
    (t : Translator) (w : World) (step : LoopStep) :
    Decidable (FlushFree t w step) :=
  match step with
  | .batch index column slice =>
      match hwriter : w.writer, hpack : packChunk t index column slice with
      | some writer, .ok b =>
          decidable_of_iff ((writer.groups.record (index, b)).isFull = false)
            ⟨fun h writer' b' hw hb => by
              obtain rfl := Option.some.inj (hwriter.symm.trans hw)
              obtain rfl := Except.ok.inj (hpack.symm.trans hb)
              exact h, fun h => h writer b hwriter hpack⟩
      | none, _ => .isTrue fun _ _ hw => by rw [hwriter] at hw; cases hw
      | _, .error _ => .isTrue fun _ _ _ hb => by rw [hpack] at hb; cases hb
  | .boundary _ =>
      inferInstanceAs (Decidable (∀ writer, w.writer = some writer →
        writer.groups.currentRows = 0))

/-- A batch that does not fill its row group is kept in memory. -/
theorem carquetWriteBatch_eq
    {writer : OutputWriter} {call : Call}
    (hheader : writer.headerWritten = true)
    (hfull : (writer.groups.record call).isFull = false) :
    carquetWriteBatch fmt writer call =
      if writer.groups.columns.length ≤ call.1 then throw .invalidArgument
      else do
        fault
        fault
        return { writer with
          started := true
          groups := writer.groups.record call } := by
  have hensure : ensureHeaderWritten writer = Pure.pure writer := by
    rw [ensureHeaderWritten, if_pos hheader]
  rw [carquetWriteBatch, hensure]
  simp only [pure_bind, hfull, Bool.false_eq_true, if_false]

/-- A call that gives the stream nothing keeps the append idle. -/
theorem idle_useWriter
    {call : OutputWriter → Carquet OutputWriter} {raise : Status → BodyError}
    (h : Idle path w)
    (hcall : ∀ writer, w.writer = some writer → writer.headerWritten = true →
      Untouched w (finalState (call writer w)) ∧
        ∀ writer' w', call writer w = .ok writer' w' →
          writer'.headerWritten = true ∧ writer'.isAppend = writer.isAppend) :
    Idle path (finalState (useWriter call raise w)) := by
  obtain ⟨writer, hwriter, hheader, happend⟩ := h.writer
  obtain ⟨hkeeps, hmode⟩ := hcall writer hwriter hheader
  simp only [useWriter, hwriter]
  rcases hrun : call writer w with ⟨writer', w'⟩ | ⟨status, w'⟩
  · rw [hrun] at hkeeps
    obtain ⟨hheader', happend'⟩ := hmode writer' w' hrun
    exact (h.of_untouched hkeeps).set hheader' (happend'.trans happend)
  · rw [hrun] at hkeeps
    exact h.of_untouched hkeeps

theorem idle_writeBatch
    {index : Nat} {b : Batch} {raise : Status → BodyError}
    (h : Idle path w)
    (hfull : ∀ writer, w.writer = some writer →
      (writer.groups.record (index, b)).isFull = false) :
    Idle path (finalState (useWriter
      (fun writer => carquetWriteBatch fmt writer (index, b)) raise w)) := by
  refine idle_useWriter h fun writer hwriter hheader => ?_
  rw [carquetWriteBatch_eq hheader (hfull writer hwriter)]
  split_ifs
  · exact ⟨Untouched.refl w, fun _ _ hrun => by cases hrun⟩
  · refine ⟨Keeps.bind Untouched.trans untouched_fault (fun _ =>
      Keeps.bind Untouched.trans untouched_fault fun _ =>
        Keeps.pure Untouched.refl _) w, fun writer' w' hrun => ?_⟩
    obtain ⟨_, _, -, hrun⟩ := bind_eq_ok.mp hrun
    obtain ⟨_, _, -, hreturn⟩ := bind_eq_ok.mp hrun
    cases hreturn
    exact ⟨hheader, rfl⟩

theorem idle_newRowGroup
    {raise : Status → BodyError}
    (h : Idle path w)
    (hrows : ∀ writer, w.writer = some writer → writer.groups.currentRows = 0) :
    Idle path (finalState (useWriter (carquetNewRowGroup fmt) raise w)) := by
  refine idle_useWriter h fun writer hwriter hheader => ?_
  have hnothing : carquetNewRowGroup fmt writer = Pure.pure writer := by
    rw [carquetNewRowGroup, ensureHeaderWritten, if_pos hheader, pure_bind,
      flushGroup, if_pos (hrows writer hwriter)]
  rw [hnothing]
  refine ⟨Untouched.refl w, fun writer' w' hreturn => ?_⟩
  cases hreturn
  exact ⟨hheader, rfl⟩

/-- A step that does not flush, whether it returns or raises. -/
theorem idle_loopStep
    (step : LoopStep)
    (hfree : FlushFree t w step)
    (h : Idle path w) :
    Idle path (finalState (loopStep fmt t step w)) := by
  cases step with
  | batch index column slice =>
      have halloc := untouched_may (fun _ => .allocation) w
      rw [loopStep]
      rcases hrun : may (fun _ => .allocation) w with ⟨_, w₁⟩ | ⟨e, w₁⟩
      swap
      · rw [finalState_bind_of_error hrun]
        rw [hrun] at halloc
        exact h.of_untouched halloc
      rw [finalState_bind_of_ok hrun]
      rw [hrun] at halloc
      have h₁ := h.of_untouched halloc
      rcases hpack : packChunk t index column slice with e | b
      · exact h₁
      change Idle path (finalState ((useWriter
        (fun writer => carquetWriteBatch fmt writer (index, b)) _ >>= fun _ =>
          may _) w₁))
      have h₂ : Idle path (finalState (useWriter
          (fun writer => carquetWriteBatch fmt writer (index, b))
          (fun status => .write (.writeBatch index slice.1 status.text)) w₁)) :=
        idle_writeBatch h₁ fun writer hwriter =>
          hfree writer b (halloc.writer.symm.trans hwriter) hpack
      rcases hwrite : useWriter
          (fun writer => carquetWriteBatch fmt writer (index, b))
          (fun status => .write (.writeBatch index slice.1 status.text)) w₁ with
        ⟨_, w₂⟩ | ⟨e, w₂⟩
      · rw [finalState_bind_of_ok hwrite]
        rw [hwrite] at h₂
        exact h₂.of_untouched (untouched_may _ w₂)
      · rw [finalState_bind_of_error hwrite]
        rw [hwrite] at h₂
        exact h₂
  | boundary group =>
      exact idle_newRowGroup h hfree

/-- A loop whose steps do not flush. -/
theorem idle_writeLoop
    {job : WriteJob}
    (hfree : Within (FlushFree t) (loopStep fmt t) w job.steps)
    (h : Idle path w) :
    Idle path (finalState (writeLoop fmt t job w)) := by
  refine Within.forM (R := fun w w' => Idle path w → Idle path w') ?_ ?_ ?_ hfree h
  · intro s hidle
    exact hidle
  · intro a b c hab hbc hidle
    exact hbc (hab hidle)
  · intro s step hstep hidle
    exact idle_loopStep step hstep hidle

end Loop

section Result

/-- The file still ends in a footer that describes the row groups it had, and all
that stands before the footer is as it was. -/
def StillReads (fmt : Format) (path path' : PathState) : Prop :=
  ∀ before offset footer old, path.entry = .file before true →
    locateFooter before = .ok (offset, footer) → fmt.parse footer = .ok old →
      ∃ after footer' new, path'.entry = .file after true ∧
        locateFooter after = .ok (offset, footer') ∧
        fmt.parse footer' = .ok new ∧ new.rowGroups = old.rowGroups ∧
        after.take offset = before.take offset

variable (fmt : Format) (t : Translator) (job : WriteJob)

/-- The close of an append ends before it gives the stream a byte: there are no open
rows, and the footer cannot be built. -/
def ClosesIdle (w : World) : Prop :=
  ∀ writer, w.writer = some writer →
    writer.groups.currentRows = 0 ∧ raises (fault { w with writer := none }) = true

instance decidableClosesIdle
    (w : World) :
    Decidable (ClosesIdle w) :=
  inferInstanceAs (Decidable (∀ writer, w.writer = some writer →
    writer.groups.currentRows = 0 ∧ raises (fault { w with writer := none }) = true))

/-- The steps an append takes after it has opened its file, as far as it gets, flush no
row group, and its close, if it gets there, writes nothing. -/
def FlushesNothing (w : World) : Prop :=
  ∀ w₁, configure t job w = .ok () w₁ →
    Within (FlushFree t) (loopStep fmt t) w₁ job.steps ∧
      ∀ w₂, writeLoop fmt t job w₁ = .ok () w₂ → ClosesIdle w₂

instance decidableFlushesNothing
    (w : World) :
    Decidable (FlushesNothing fmt t job w) :=
  @decidableAfter _ _ (configure t job w) _ fun _ =>
    @instDecidableAnd _ _ inferInstance (decidableAfter _ ClosesIdle)

/-- A close that is idle fails, and leaves the file. -/
theorem path_closeWriter_of_idle
    {path : PathState} {before : Bytes} {w : World}
    (hentry : path.entry = .file before true)
    (h : Idle path w)
    (hclose : ClosesIdle w) :
    ∃ w', closeWriter fmt job w = .error (.write (.finalize job.path)) w' ∧
      w'.path = path ∧ w'.file = false ∧ w'.writer = none := by
  obtain ⟨writer, hwriter, hheader, -⟩ := h.writer
  obtain ⟨hrows, hraises⟩ := hclose writer hwriter
  obtain ⟨status, hfault⟩ := exists_error hraises
  set w₁ := finalState (fault { w with writer := none })
  have hkeeps := untouched_fault.of_error hfault
  have hfinish : finishFile fmt job.schema writer { w with writer := none } =
      .error status w₁ := by
    rw [finishFile, ensureHeaderWritten, if_pos hheader, pure_bind, flushGroup,
      if_pos hrows, pure_bind]
    exact bind_eq_error.mpr (Or.inl hfault)
  have hclosed : closeWriter fmt job w =
      .error (.write (.finalize job.path)) (closeOwned writer w₁) := by
    simp only [closeWriter, hwriter, carquetWriterClose, EStateM.adaptExcept, hfinish]
  obtain ⟨start, hstream⟩ := h.stream
  have hstream₁ : w₁.stream = some ⟨start, []⟩ := hkeeps.stream.trans hstream
  have hpath₁ : w₁.path = path := hkeeps.path.trans h.path
  refine ⟨closeOwned writer w₁, hclosed, ?_⟩
  rw [closeOwned]
  split_ifs
  · refine ⟨?_, (fclose_frame w₁).1.trans (hkeeps.file.trans h.file),
      (fclose_frame w₁).2.trans hkeeps.writer⟩
    exact path_fclose_of_empty hentry hpath₁ hstream₁
  · exact ⟨hpath₁, hkeeps.file.trans h.file, hkeeps.writer⟩

/-- An append that raises after the opening of its file leaves the file readable as it
was, if none of its steps has flushed a row group and its close has written nothing. -/
theorem failed_append_still_reads
    (path : PathState) (script : List Outcome) (closing : Nat)
    (w w' : World) (e : BodyError)
    (happend : job.append = true)
    (hopen : openPhase fmt job (World.start path script closing) = .ok () w)
    (hfail : (afterOpen fmt t job >>= fun _ => closeWriter fmt job) w = .error e w')
    (hflush : FlushesNothing fmt t job w) :
    (qioWriteParquet fmt t job (World.start path script closing)).1 = .error e ∧
      StillReads fmt path
        (qioWriteParquet fmt t job (World.start path script closing)).2.path := by
  obtain ⟨hidle, before, start, old, restored, hentry, -⟩ :=
    idle_openPhase happend hopen
  have hbody : qioWriteBody fmt t job (World.start path script closing) =
      .error e w' := by
    rw [qioWriteBody, beforeClose]
    rcases bind_eq_error.mp hfail with hafter | ⟨_, w₂, hafter, hclose⟩
    · exact bind_eq_error.mpr (Or.inl (bind_eq_error.mpr (Or.inr ⟨(), w, hopen, hafter⟩)))
    · refine bind_eq_error.mpr (Or.inr ⟨(), w₂, bind_eq_ok.mpr ⟨(), w, hopen, hafter⟩, ?_⟩)
      exact bind_eq_error.mpr (Or.inl hclose)
  have hpath : (qioWriteCleanup job w').path = path := by
    rw [afterOpen, attachWriter, if_pos happend, pure_bind] at hfail
    rcases bind_eq_error.mp hfail with hafter | ⟨_, w₂, hafter, hclose⟩
    · refine path_qioWriteCleanup_of_idle happend hentry ?_
      rcases bind_eq_error.mp hafter with hconfigure | ⟨_, w₁, hconfigure, hloop⟩
      · exact (idle_configure t job).of_error hconfigure hidle
      · have hlast := idle_writeLoop (hflush w₁ hconfigure).1
          ((idle_configure t job).of_ok hconfigure hidle)
        rw [hloop] at hlast
        exact hlast
    · obtain ⟨_, w₁, hconfigure, hloop⟩ := bind_eq_ok.mp hafter
      obtain ⟨hfree, hidleClose⟩ := hflush w₁ hconfigure
      have hlast := idle_writeLoop hfree ((idle_configure t job).of_ok hconfigure hidle)
      rw [hloop] at hlast
      obtain ⟨w₃, hclosed, hkept, hfile, hnone⟩ :=
        path_closeWriter_of_idle fmt job hentry hlast (hidleClose w₂ hloop)
      obtain ⟨-, rfl⟩ := EStateM.Result.error.inj (hclose.symm.trans hclosed)
      simp only [qioWriteCleanup, releaseFile, removeUnfinished, releaseWriter, hnone,
        hfile, happend, Bool.false_eq_true, not_true_eq_false, and_false, if_false]
      exact hkept
  rw [qioWriteParquet, hbody]
  refine ⟨rfl, fun before' offset footer old' hentry' hlocate hparse => ?_⟩
  rw [hpath]
  exact ⟨before', footer, old', hentry', hlocate, hparse, rfl, rfl⟩

/-- Two INT32 columns and two rows, one to a row group. -/
def twoColumns : WriteJob :=
  ⟨[intColumn [.int 7, .int 8], ⟨⟨"y", .int32, false⟩, ⟨.intsxp, [.int 3, .int 4]⟩, []⟩],
    2, 1, true, "x.parquet", [], none, false⟩

/-- The footer of a file with the two columns and one row. -/
def pairFooter : Bytes :=
  [0x15, 2, 0, 1, 0, 2, 1, 1, 0, 1, 4, 1, 2, 1, 4, 4, 1, 8, 4, 0]

def pairFile : Bytes :=
  magic ++ [5, 0, 0, 0, 6, 0, 0, 0] ++ (pairFooter ++ lengthBytes 20 ++ magic)

/-- The two rows are appended to the file, and a call fails. -/
def failedAppend (n : Nat) : Except BodyError Unit × World :=
  qioWriteParquet sampleFormat plainTranslator twoColumns
    (World.start ⟨.file pairFile true, true⟩ (failsAfter n) 20)

/-- The first column is taken, and the second one is not. -/
theorem failed_append_still_reads_later :
    StillReads sampleFormat ⟨.file pairFile true, true⟩ (failedAppend 11).2.path := by
  have hopen := eq_ok_of_returns (x := openPhase sampleFormat twoColumns
    (World.start ⟨.file pairFile true, true⟩ (failsAfter 11) 20)) (by decide +kernel)
  obtain ⟨e, hfail⟩ := exists_error (x := (afterOpen sampleFormat plainTranslator
    twoColumns >>= fun _ => closeWriter sampleFormat twoColumns) (finalState (openPhase
      sampleFormat twoColumns (World.start ⟨.file pairFile true, true⟩ (failsAfter 11)
        20)))) (by decide +kernel)
  have hflush : FlushesNothing sampleFormat plainTranslator twoColumns (finalState
      (openPhase sampleFormat twoColumns (World.start ⟨.file pairFile true, true⟩
        (failsAfter 11) 20))) := by
    decide +kernel
  rw [failedAppend]
  exact (failed_append_still_reads sampleFormat plainTranslator twoColumns
    ⟨.file pairFile true, true⟩ (failsAfter 11) 20 _ _ e rfl hopen hfail hflush).2

/-- The first batch of the second row group is not taken: the first row group lies over
the footer, and what is found there is no footer. -/
theorem failed_append_unreadable :
    (failedAppend 20).1 = .error (.write (.writeBatch 0 1 "Out of memory")) ∧
      ¬ StillReads sampleFormat ⟨.file pairFile true, true⟩
        (failedAppend 20).2.path := by
  refine ⟨by decide +kernel, fun h => ?_⟩
  have hbefore : locateFooter pairFile = .ok (12, pairFooter) :=
    locateFooter_append (magic ++ [5, 0, 0, 0, 6, 0, 0, 0]) pairFooter (by decide)
      (by decide)
  have hafter : (failedAppend 20).2.path.entry =
      .file ((magic ++ [5, 0, 0, 0, 6, 0, 0, 0]) ++
        ([7, 0, 0, 0, 3, 0, 0, 0] ++ pairFooter.drop 8 ++ lengthBytes 20 ++ magic))
          true := by
    decide +kernel
  obtain ⟨after, footer, new, hentry, hlocated, hparse, -, -⟩ :=
    h pairFile 12 pairFooter _ rfl hbefore rfl
  obtain ⟨rfl, -⟩ := Entry.file.inj (hafter.symm.trans hentry)
  have hfound := locateFooter_append (magic ++ [5, 0, 0, 0, 6, 0, 0, 0])
    ([7, 0, 0, 0, 3, 0, 0, 0] ++ pairFooter.drop 8) (by decide) (by decide)
  obtain ⟨-, rfl⟩ := Prod.mk.inj (Except.ok.inj (hlocated.symm.trans hfound))
  cases hparse

end Result

end Write
end QioParquet
