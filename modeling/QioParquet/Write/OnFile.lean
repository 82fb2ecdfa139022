import QioParquet.Write.Cleanup
import QioParquet.Write.Written
import Mathlib.Tactic

/-!
# What is on file when a write returns

Every `fwrite` of a write is checked, so a write that comes to close its stream has
given it all bytes. What the stream holds at that moment is written by `fclose`, or
lost. qio looks at the result of its own `fclose`; an append leaves the stream to
carquet, which does not.
-/

namespace QioParquet
namespace Write

open Lib Read Plan Footer

section Opening

variable {fmt : Format} {job : WriteJob} {w w' : World}

theorem readForAppend_ok
    {bytes : Bytes} {offset : Nat} {old : FileMetadata}
    {restored : List RowGroupInfo}
    (h : readForAppend fmt job bytes = .ok (offset, old, restored)) :
    ∃ footer, locateFooter bytes = .ok (offset, footer) ∧
      fmt.parse footer = .ok old ∧
      appendRestoreRowGroups job.columns.length
        (old.rowGroups.map parseRowGroup) = some restored := by
  unfold readForAppend at h
  obtain ⟨⟨offset', footer⟩, hlocate, h⟩ := bind_eq_ok_iff.mp h
  obtain ⟨old', hparse, h⟩ := bind_eq_ok_iff.mp h
  split at h
  · cases h
  · split at h
    · cases h
    · next restored' hrestore =>
        cases h
        exact ⟨footer, hlocate, mapError_eq_ok_iff.mp hparse, hrestore⟩

/-- How a write begins: the bytes of the file it writes to, the place where it
starts to write, and its writer. -/
def Starts (fmt : Format) (job : WriteJob) (path : PathState) (before : Bytes)
    (start : Nat) (first : OutputWriter) : Prop :=
  if job.append then
    ∃ old restored, path.entry = .file before true ∧
      readForAppend fmt job before = .ok (start, old, restored) ∧
      first = .appending job start old restored
  else
    before = [] ∧ start = 0 ∧ first = .create job

theorem locateFooter_ok
    {bytes footer : Bytes} {offset : Nat}
    (h : locateFooter bytes = .ok (offset, footer)) :
    bytes = bytes.take offset ++ footer ++ bytes.drop (offset + footer.length) ∧
      offset + footer.length + 8 = bytes.length ∧
      (bytes.drop (offset + footer.length)).drop 4 = magic ∧
      lengthOf ((bytes.drop (offset + footer.length)).take 4) =
        footer.length := by
  unfold locateFooter at h
  split_ifs at h with hsmall
  dsimp only at h
  split_ifs at h with hmagic hlength
  cases h
  set n := lengthOf ((bytes.drop (bytes.length - 8)).take 4)
  have hfooter : ((bytes.drop (bytes.length - 8 - n)).take n).length = n := by
    rw [List.length_take, List.length_drop]
    omega
  have htail : bytes.length - 8 - n + n = bytes.length - 8 := by omega
  rw [hfooter, htail]
  refine ⟨?_, by omega, not_not.mp hmagic, rfl⟩
  calc bytes
      = bytes.take (bytes.length - 8) ++ bytes.drop (bytes.length - 8) :=
        (List.take_append_drop _ _).symm
    _ = _ := by rw [← htail, List.take_add, htail]

theorem Starts.le
    {path : PathState} {before : Bytes} {start : Nat} {first : OutputWriter}
    (h : Starts fmt job path before start first) :
    start ≤ before.length := by
  unfold Starts at h
  split_ifs at h
  · obtain ⟨old, restored, -, hread, -⟩ := h
    obtain ⟨footer, hlocate, -, -⟩ := readForAppend_ok hread
    obtain ⟨-, hlength, -, -⟩ := locateFooter_ok hlocate
    omega
  · rw [h.2.1]
    exact Nat.zero_le _

theorem Starts.groups
    {path : PathState} {before : Bytes} {start : Nat} {first : OutputWriter}
    (h : Starts fmt job path before start first) :
    first.groups = Writer.create (job.columns.map WriteColumn.spec) ∧
      first.ownsFile = job.append := by
  unfold Starts at h
  split_ifs at h with happend
  · obtain ⟨old, restored, -, -, rfl⟩ := h
    exact ⟨rfl, happend.symm⟩
  · obtain ⟨-, -, rfl⟩ := h
    exact ⟨rfl, (Bool.eq_false_iff.mpr happend).symm⟩

end Opening

section Context

/-- The fields of the context that the loop does not change. -/
structure Context (w w' : World) : Prop where
  file : w'.file = w.file
  lost : w'.lost = w.lost
  finished : w'.finished = w.finished
  closing : w'.closing = w.closing

theorem Context.trans
    (a b c : World)
    (h : Context a b)
    (h' : Context b c) :
    Context a c :=
  ⟨h'.file.trans h.file, h'.lost.trans h.lost, h'.finished.trans h.finished,
    h'.closing.trans h.closing⟩

theorem context_pass
    (w : World) (n : Nat) :
    Context w (w.pass n) := by
  unfold World.pass
  split <;> exact ⟨rfl, rfl, rfl, rfl⟩

theorem context_respected :
    Respected Context where
  untouched _ _ h := ⟨h.file, h.lost, h.finished, h.closing⟩
  trans := Context.trans
  take _ _ := ⟨rfl, rfl, rfl, rfl⟩
  pass := context_pass

theorem context_blind :
    WriterBlind Context :=
  fun _ _ => ⟨rfl, rfl, rfl, rfl⟩

end Context

section Beginning

variable {fmt : Format} {t : Translator} {job : WriteJob} {w w' : World}

theorem openAppend_ok
    (h : openAppend fmt job w = .ok () w') :
    ∃ before start old restored,
      w.path.entry = .file before true ∧
      readForAppend fmt job before = .ok (start, old, restored) ∧
      w'.path = w.path ∧ w'.stream = some ⟨start, []⟩ ∧
      w'.writer = some (.appending job start old restored) ∧ Context w w' := by
  unfold openAppend at h
  obtain ⟨_, middle, hmay, hrest⟩ := bind_eq_ok.mp h
  have hkeeps := (untouched_may _).of_ok hmay
  obtain ⟨_, _, hget, hrest⟩ := bind_eq_ok.mp hrest
  cases hget
  rw [← hkeeps.path]
  rcases hupdate : middle.path.update with _ | before
  · rw [hupdate] at hrest
    cases hrest
  rw [hupdate] at hrest
  have hentry : middle.path.entry = .file before true := by
    unfold PathState.update at hupdate
    split at hupdate
    · next hfile =>
        rw [hfile, Option.some.inj hupdate]
    · cases hupdate
  rcases hread : readForAppend fmt job before with why | ⟨start, old, restored⟩
  · simp only [hread] at hrest
    cases hrest
  · simp only [hread] at hrest
    cases hrest
    exact ⟨before, start, old, restored, hentry, hread, rfl, rfl, rfl,
      hkeeps.file, hkeeps.lost, hkeeps.finished, hkeeps.closing⟩

/-- The state once the writer is there. -/
theorem attached_ok
    {path : PathState} {script : List Outcome} {closing : Nat} {w₁ : World}
    (hopen : openPhase fmt job (World.start path script closing) = .ok () w₁)
    (hattach : attachWriter job w₁ = .ok () w') :
    ∃ before start first, Starts fmt job path before start first ∧
      w'.writer = some first ∧ Writing before start [] w' ∧
      w'.file = !job.append ∧ w'.lost = [] ∧ w'.finished = false ∧
      w'.closing = closing := by
  unfold openPhase at hopen
  unfold attachWriter at hattach
  unfold Starts
  obtain ⟨_, w₀, hschema, hopen⟩ := bind_eq_ok.mp hopen
  have hkeeps := (untouched_declareSchema job).of_ok hschema
  cases happend : job.append with
  | true =>
      simp only [happend, if_true] at hopen hattach
      cases hattach
      obtain ⟨before, start, old, restored, hentry, hread, hpath, hstream,
        hwriter, hcontext⟩ := openAppend_ok hopen
      have hbefore : path.entry = .file before true := by
        rw [← hentry, hkeeps.path]
        rfl
      refine ⟨before, start, _, ⟨old, restored, hbefore, hread, rfl⟩, hwriter,
        ⟨[], [], rfl, ?_, hstream⟩, hcontext.file.trans hkeeps.file,
        hcontext.lost.trans hkeeps.lost, hcontext.finished.trans hkeeps.finished,
        hcontext.closing.trans hkeeps.closing⟩
      rw [overwrite_nil, hpath, hentry]
  | false =>
      simp only [happend, Bool.false_eq_true, if_false] at hopen hattach
      obtain ⟨created, hcreate, hpath, hstream, hfile, hlost, -, hfinished,
        hclosing⟩ := openOutput_ok hopen
      obtain ⟨_, w₂, hmay, hset⟩ := bind_eq_ok.mp hattach
      have hkeeps₂ := (untouched_may _).of_ok hmay
      cases hset
      refine ⟨[], 0, _, ⟨rfl, rfl, rfl⟩, rfl, ⟨[], [], rfl, ?_, ?_⟩,
        hkeeps₂.file.trans hfile, hkeeps₂.lost.trans (hlost.trans hkeeps.lost),
        hkeeps₂.finished.trans (hfinished.trans hkeeps.finished),
        hkeeps₂.closing.trans (hclosing.trans hkeeps.closing)⟩
      · change w₂.path.entry = _
        rw [hkeeps₂.path, hpath, (create_isFile hcreate).1]
        rfl
      · change w₂.stream = _
        rw [hkeeps₂.stream, hstream]
        rfl

/-- The writer keeps its place while it is configured. -/
structure Configured (w w' : World) : Prop where
  path : w'.path = w.path
  stream : w'.stream = w.stream
  writer : ∀ first, w.writer = some first →
    ∃ next, w'.writer = some next ∧ SameOutput first next

theorem configured_configure
    (t : Translator) (job : WriteJob) :
    Keeps Configured (configure t job) := by
  refine configure_keeps ?_ ?_ ?_ t job
  · intro w w' h
    exact ⟨h.path, h.stream, fun first hfirst =>
      ⟨first, h.writer.trans hfirst, SameOutput.refl first⟩⟩
  · intro a b c h h'
    refine ⟨h'.path.trans h.path, h'.stream.trans h.stream, fun first hfirst => ?_⟩
    obtain ⟨middle, hmiddle, hsame⟩ := h.writer first hfirst
    obtain ⟨last, hlast, hsame'⟩ := h'.writer middle hmiddle
    exact ⟨last, hlast, hsame.trans hsame'⟩
  · intro w old new hold hsame
    refine ⟨rfl, rfl, fun first hfirst => ⟨new, rfl, ?_⟩⟩
    obtain rfl := Option.some.inj (hold.symm.trans hfirst)
    exact hsame

/-- The writer of the context has so many key-value pairs. -/
def HasPairs (w : World) (n : Nat) : Prop :=
  ∃ writer, w.writer = some writer ∧ writer.keyValues.length = n

theorem HasPairs.of_untouched
    {n : Nat}
    (h : HasPairs w n)
    (hkeeps : Untouched w w') :
    HasPairs w' n := by
  obtain ⟨writer, hwriter, hcount⟩ := h
  exact ⟨writer, hkeeps.writer.trans hwriter, hcount⟩

/-- A call that adds `d` pairs to the writer. -/
theorem HasPairs.useWriter
    {call : OutputWriter → Carquet OutputWriter} {raise : Status → BodyError} {n d : Nat}
    (h : HasPairs w n)
    (hcall : ∀ writer writer' w w', call writer w = .ok writer' w' →
      writer'.keyValues.length = writer.keyValues.length + d)
    (hrun : Write.useWriter call raise w = .ok () w') :
    HasPairs w' (n + d) := by
  obtain ⟨writer, hwriter, rfl⟩ := h
  obtain ⟨old, new, middle, hold, hnew, rfl⟩ := useWriter_ok hrun
  obtain rfl := Option.some.inj (hold.symm.trans hwriter)
  exact ⟨new, rfl, hcall old new w middle hnew⟩

theorem keyValues_setDictionary
    {index : Nat} (writer writer' : OutputWriter) (w w' : World)
    (h : setDictionary index writer w = .ok writer' w') :
    writer'.keyValues.length = writer.keyValues.length + 0 := by
  obtain ⟨_, _, -, hreturn⟩ := bind_eq_ok.mp h
  cases hreturn
  rfl

theorem keyValues_addMetadata
    {key : Bytes} {value : Option Bytes} (writer writer' : OutputWriter) (w w' : World)
    (h : addMetadata key value writer w = .ok writer' w') :
    writer'.keyValues.length = writer.keyValues.length + 1 := by
  obtain ⟨_, _, -, hreturn⟩ := bind_eq_ok.mp h
  cases hreturn
  exact List.length_append

theorem keyValues_setSortingColumns
    {order : List SortingColumn} (writer writer' : OutputWriter) (w w' : World)
    (h : setSortingColumns order writer w = .ok writer' w') :
    writer'.keyValues.length = writer.keyValues.length + 0 := by
  rw [setSortingColumns] at h
  split_ifs at h
  · cases h
  · obtain ⟨_, _, -, hreturn⟩ := bind_eq_ok.mp h
    cases hreturn
    rfl

/-- The configuration adds the metadata of the call. -/
theorem hasPairs_configure
    {n : Nat}
    (h : HasPairs w n)
    (hrun : configure t job w = .ok () w') :
    HasPairs w' (n + job.metadata.length) := by
  obtain ⟨_, w₁, hdictionary, hrun⟩ := bind_eq_ok.mp hrun
  obtain ⟨_, w₂, hmetadata, hsorting⟩ := bind_eq_ok.mp hrun
  have h₁ : HasPairs w₁ n := by
    rw [← Nat.add_zero n, ← Nat.zero_mul job.columns.zipIdx.length]
    refine forM_counts 0 (fun entry s s' m hs hstep => ?_) h hdictionary
    split_ifs at hstep
    · exact hs.useWriter keyValues_setDictionary hstep
    · cases hstep
      exact hs
  have h₂ : HasPairs w₂ (n + job.metadata.length) := by
    rw [← Nat.one_mul job.metadata.length]
    refine forM_counts 1 (fun entry s s' m hs hstep => ?_) h₁ hmetadata
    obtain ⟨key, s₁, hkey, hrest⟩ := bind_eq_ok.mp hstep
    obtain ⟨value, s₂, hvalue, hadd⟩ := bind_eq_ok.mp hrest
    obtain ⟨-, rfl⟩ := orRaise_ok hkey
    obtain ⟨-, rfl⟩ := orRaise_ok hvalue
    exact hs.useWriter keyValues_addMetadata hadd
  cases horder : job.sortingColumns with
  | none =>
      rw [horder] at hsorting
      cases hsorting
      exact h₂
  | some order =>
      rw [horder] at hsorting
      obtain ⟨_, w₃, hmay, hset⟩ := bind_eq_ok.mp hsorting
      exact (h₂.of_untouched ((untouched_may _).of_ok hmay)).useWriter
        keyValues_setSortingColumns hset

/-- What the body has done when it comes to close the file. -/
structure Prepared (fmt : Format) (t : Translator) (job : WriteJob)
    (path : PathState) (closing : Nat) (w : World) (before : Bytes)
    (start : Nat) (opened first : OutputWriter) (g : Writer) : Prop where
  starts : Starts fmt job path before start opened
  same : SameOutput opened first
  groups : writeGroups t job.columns job.nrow
    (Writer.create (job.columns.map WriteColumn.spec))
    (rowGroups job.rowGroupRows job.nrow) = .ok g
  follows : Follows fmt first before start w g
  pairs : first.keyValues.length = opened.keyValues.length + job.metadata.length
  file : w.file = !job.append
  lost : w.lost = []
  finished : w.finished = false
  closing : w.closing = closing

theorem beforeClose_ok
    {path : PathState} {script : List Outcome} {closing : Nat}
    (h : beforeClose fmt t job (World.start path script closing) = .ok () w') :
    ∃ before start opened first g,
      Prepared fmt t job path closing w' before start opened first g := by
  unfold beforeClose afterOpen at h
  obtain ⟨_, w₁, hopen, h⟩ := bind_eq_ok.mp h
  obtain ⟨_, w₂, hattach, h⟩ := bind_eq_ok.mp h
  obtain ⟨_, w₃, hconfigure, hloop⟩ := bind_eq_ok.mp h
  obtain ⟨before, start, opened, hstarts, hwriter, hwriting, hfile, hlost,
    hfinished, hclosing⟩ := attached_ok hopen hattach
  have hconfigured := (configured_configure t job).of_ok hconfigure
  obtain ⟨first, hfirst, hsame⟩ := hconfigured.writer opened hwriter
  have hcontext := Context.trans _ w₃ _
    ((keeps_configure context_respected.toTolerated context_blind t job).of_ok hconfigure)
    ((Keeps.forM context_respected.refl context_respected.trans _ fun step _ =>
      keeps_loopStep context_respected fmt t context_blind step).of_ok hloop)
  have hgroups : first.groups =
      Writer.create (job.columns.map WriteColumn.spec) :=
    hsame.groups.trans hstarts.groups.1
  have hfollows : Follows fmt first before start w₃ first.groups :=
    ⟨first, [], hfirst, rfl, Grown.start (by rw [hgroups]; rfl),
      hwriting.of_same hconfigured.path hconfigured.stream⟩
  obtain ⟨g, hwrite, hend⟩ := writeLoop_follows t fmt hstarts.le hfollows hloop
  rw [hgroups] at hwrite
  obtain ⟨_, hnext, hpairs⟩ := hasPairs_configure ⟨opened, hwriter, rfl⟩ hconfigure
  obtain rfl := Option.some.inj (hfirst.symm.trans hnext)
  exact ⟨before, start, opened, first, g, hstarts, hsame, hwrite, hend, hpairs,
    hcontext.file.trans hfile, hcontext.lost.trans hlost,
    hcontext.finished.trans hfinished, hcontext.closing.trans hclosing⟩

end Beginning

section Closing

variable (fmt : Format)

/-- A footer with its length and the magic. -/
def footerBytes (footer : FileMetadata) : Bytes :=
  fmt.serialize footer ++ lengthBytes (fmt.serialize footer).length ++ magic

/-- All bytes of a write: the header, if there is none, the row groups and the
footer. -/
def outputBytes (first : OutputWriter) (groups : List WrittenGroup)
    (footer : FileMetadata) : Bytes :=
  first.header ++ groupsBytes fmt groups ++ footerBytes fmt footer

/-- The footer lists the row groups the writer began with and the new ones, at the
offsets they have. -/
def Lists (first : OutputWriter) (groups : List WrittenGroup)
    (footer : FileMetadata) : Prop :=
  ∃ started, footer.rowGroups =
    buildRowGroups
      ⟨first.columns, started, first.compressed, first.sortingColumns⟩
      (first.infos ++ newInfos fmt first.base first.infos.length groups)

variable {fmt} {job : WriteJob} {w w' : World} {first writer : OutputWriter}
variable {before : Bytes} {start : Nat} {written : Bytes}

theorem headerWritten_flushed
    (writer : OutputWriter) :
    (writer.flushed fmt).headerWritten = writer.headerWritten := by
  unfold OutputWriter.flushed
  split_ifs <;> rfl

theorem finishFile_ok
    {schema : List SchemaLeaf}
    (hstart : start ≤ before.length)
    (hgrown : Grown fmt first writer written)
    (hwriting : Writing before start written w)
    (hrun : finishFile fmt schema writer w = .ok () w') :
    Lists fmt first writer.groups.flushRowGroup.rowGroups
        (buildFileMetadata schema (writer.withHeader.flushed fmt)) ∧
      (writer.withHeader.flushed fmt).keyValues = first.keyValues ∧
      Writing before start
        (outputBytes fmt first writer.groups.flushRowGroup.rowGroups
          (buildFileMetadata schema (writer.withHeader.flushed fmt))) w' ∧
      (writer.withHeader.flushed fmt).fileOffset = first.base +
        (groupsBytes fmt writer.groups.flushRowGroup.rowGroups).length := by
  unfold finishFile at hrun
  obtain ⟨headed, w₁, hensure, hrun⟩ := bind_eq_ok.mp hrun
  obtain ⟨last, w₂, hflush, hrun⟩ := bind_eq_ok.mp hrun
  obtain ⟨_, w₃, hfault, hrun⟩ := bind_eq_ok.mp hrun
  obtain ⟨_, w₄, hfooter, hrun⟩ := bind_eq_ok.mp hrun
  obtain ⟨_, w₅, hlength, hmagic⟩ := bind_eq_ok.mp hrun
  obtain ⟨rfl, h₁⟩ := ensureHeaderWritten_ok hstart hwriting hensure
  obtain ⟨rfl, h₂⟩ := flushGroup_ok fmt hstart h₁ hflush
  obtain ⟨hheaded, hheader, hgroups⟩ := hgrown.withHeader
  obtain ⟨hlast, hlastGroups⟩ := hheaded.flushed hheader
  rw [hgroups] at hlastGroups
  have hbytes := hlast.bytes
  rw [headerWritten_flushed, hheader, if_pos rfl, hlastGroups] at hbytes
  have h₅ := fwrite_ok hstart (fwrite_ok hstart (fwrite_ok hstart
    (fault_ok h₂ hfault) hfooter) hlength) hmagic
  refine ⟨⟨(writer.withHeader.flushed fmt).started, ?_⟩, hlast.keyValues, ?_, ?_⟩
  · change buildRowGroups ⟨_, _, _, _⟩ (writer.withHeader.flushed fmt).infos = _
    rw [hlast.infos, hlast.columns, hlast.compressed, hlast.sortingColumns,
      hlastGroups]
  · unfold outputBytes footerBytes
    rw [hbytes] at h₅
    simpa only [List.append_assoc] using h₅
  · rw [hlast.offset (by rw [headerWritten_flushed, hheader]), hlastGroups]

theorem closeWriter_ok
    (h : closeWriter fmt job w = .ok () w') :
    ∃ writer closed, w.writer = some writer ∧
      finishFile fmt job.schema writer { w with writer := none } =
        .ok () closed ∧
      w' = closeOwned writer closed := by
  unfold closeWriter at h
  split at h
  · cases h
  · next writer hwriter =>
      rw [adaptExcept_eq_ok] at h
      unfold carquetWriterClose at h
      split at h
      · next closed hfinish =>
          cases h
          exact ⟨writer, closed, hwriter, hfinish, rfl⟩
      · cases h

/-- The writer of a write that gets so far, as it comes to write the footer. -/
def writerAtClose (fmt : Format) (t : Translator) (job : WriteJob) (w : World) :
    Option OutputWriter :=
  match beforeClose fmt t job w with
  | .error _ _ => none
  | .ok _ w₁ => w₁.writer.map fun writer => writer.withHeader.flushed fmt

/-- Bytes a stream holds when a write that gets so far closes it. -/
def heldAtClose (fmt : Format) (t : Translator) (job : WriteJob) (w : World) :
    Nat :=
  match beforeClose fmt t job w with
  | .error _ _ => 0
  | .ok _ w₁ =>
      match w₁.writer with
      | none => 0
      | some writer =>
          match finishFile fmt job.schema writer { w₁ with writer := none } with
          | .error _ _ => 0
          | .ok _ w₂ => (w₂.stream.map fun s => s.buffer.length).getD 0

theorem sameWriter_respected :
    Respected fun w w' : World => w'.writer = w.writer where
  untouched _ _ h := h.writer
  trans _ _ _ h h' := h'.trans h
  take _ _ := rfl
  pass w n := by
    unfold World.pass
    split <;> rfl

theorem fclose_frame
    (w : World) :
    w.fclose.2.file = w.file ∧ w.fclose.2.writer = w.writer := by
  unfold World.fclose
  split
  · exact ⟨rfl, rfl⟩
  · exact ⟨(context_pass w w.closing).file, sameWriter_respected.pass w w.closing⟩

/-- After a finished body there is nothing left to clean up. -/
theorem qioWriteCleanup_of_finished
    (hwriter : w.writer = none)
    (hfile : w.file = false)
    (hfinished : w.finished = true) :
    (qioWriteCleanup job w).path = w.path ∧
      (qioWriteCleanup job w).lost = w.lost := by
  have hreleased : releaseWriter w = w := by
    unfold releaseWriter
    rw [hwriter]
  unfold qioWriteCleanup releaseFile removeUnfinished
  rw [hreleased]
  simp [hfile, hfinished]

end Closing

section Result

variable {fmt : Format} {t : Translator} {job : WriteJob} {w w' : World}

/-- What a write that returns has done to the file. -/
structure Returned (fmt : Format) (t : Translator) (job : WriteJob)
    (path : PathState) (script : List Outcome) (closing : Nat) (w' : World)
    (before : Bytes) (start : Nat) (opened first : OutputWriter)
    (groups : List WrittenGroup) (footer : FileMetadata)
    (reached held : Bytes) : Prop where
  starts : Starts fmt job path before start opened
  same : SameOutput opened first
  made : ∃ g, writeGroups t job.columns job.nrow
      (Writer.create (job.columns.map WriteColumn.spec))
      (rowGroups job.rowGroupRows job.nrow) = .ok g ∧
    groups = g.flushRowGroup.rowGroups
  lists : Lists fmt first groups footer
  pairs : footer.keyValues.length = opened.keyValues.length + job.metadata.length
  writer : ∃ writer,
    writerAtClose fmt t job (World.start path script closing) = some writer ∧
      footer = buildFileMetadata job.schema writer ∧
      writer.fileOffset = first.base + (groupsBytes fmt groups).length
  bytes : outputBytes fmt first groups footer = reached ++ held
  unpassed : heldAtClose fmt t job (World.start path script closing) = held.length
  entry : w'.path.entry =
    .file (overwrite before start (reached ++ held.take closing)) true
  lost : w'.lost = held.drop closing
  checked : job.append = false → held.length ≤ closing

/-- The stream is closed once, by the one that owns it. -/
theorem closed_ok
    {before : Bytes} {start : Nat} {written : Bytes} {closing : Nat}
    {writer : OutputWriter} {w₂ w₃ : World}
    (hstart : start ≤ before.length)
    (hwriting : Writing before start written w₂)
    (howns : writer.ownsFile = job.append)
    (hfile : w₂.file = !job.append)
    (hclosing : w₂.closing = closing)
    (hclose : closeFile job (closeOwned writer w₂) = .ok () w₃) :
    ∃ reached held, written = reached ++ held ∧
      w₂.stream = some ⟨start + reached.length, held⟩ ∧
      w₃.path.entry =
        .file (overwrite before start (reached ++ held.take closing)) true ∧
      w₃.lost = held.drop closing ∧ w₃.file = false ∧
      w₃.writer = w₂.writer ∧ (job.append = false → held.length ≤ closing) := by
  subst hclosing
  unfold closeFile closeOwned at hclose
  rw [howns] at hclose
  cases happend : job.append with
  | true =>
      rw [happend] at hclose hfile
      simp only [if_true] at hclose
      obtain ⟨reached, held, rfl, hstream, hentry, hlost, -⟩ :=
        hwriting.fclose hstart
      obtain ⟨hframe, hwriter⟩ := fclose_frame w₂
      have hunowned : w₂.fclose.2.file = false := hframe.trans hfile
      rw [if_neg (by simp [hunowned])] at hclose
      cases hclose
      exact ⟨reached, held, rfl, hstream, hentry, hlost, hunowned, hwriter,
        nofun⟩
  | false =>
      rw [happend] at hclose hfile
      simp only [Bool.false_eq_true, if_false] at hclose
      rw [if_pos (by simp [hfile])] at hclose
      have hwriting' : Writing before start written { w₂ with file := false } :=
        hwriting.of_same rfl rfl
      obtain ⟨reached, held, rfl, hstream, hentry, hlost, hflushed⟩ :=
        hwriting'.fclose hstart
      obtain ⟨hframe, hwriter⟩ := fclose_frame { w₂ with file := false }
      split_ifs at hclose with hsuccess
      cases hclose
      rw [hflushed, decide_eq_true_eq] at hsuccess
      exact ⟨reached, held, rfl, hstream, hentry, hlost, hframe, hwriter,
        fun _ => hsuccess⟩

theorem qioWriteParquet_ok
    {path : PathState} {script : List Outcome} {closing : Nat}
    (h : qioWriteParquet fmt t job (World.start path script closing) =
      (.ok (), w')) :
    ∃ before start opened first groups footer reached held,
      Returned fmt t job path script closing w' before start opened first groups
        footer reached held := by
  unfold qioWriteParquet at h
  rcases hbody : qioWriteBody fmt t job (World.start path script closing) with
    ⟨_, w₄⟩ | ⟨e, w₄⟩
  swap
  · rw [hbody] at h
    cases h
  rw [hbody] at h
  obtain ⟨-, rfl⟩ := Prod.mk.inj h
  unfold qioWriteBody at hbody
  obtain ⟨_, w₁, hbefore, hbody⟩ := bind_eq_ok.mp hbody
  obtain ⟨_, wc, hcloseWriter, hbody⟩ := bind_eq_ok.mp hbody
  obtain ⟨_, w₃, hcloseFile, hend⟩ := bind_eq_ok.mp hbody
  cases hend
  obtain ⟨before, start, opened, first, g, hprepared⟩ := beforeClose_ok hbefore
  obtain ⟨writer, w₂, hwriter, hfinish, rfl⟩ := closeWriter_ok hcloseWriter
  obtain ⟨_, written, hwriter', rfl, hgrown, hwriting⟩ := hprepared.follows
  obtain rfl := Option.some.inj (hwriter.symm.trans hwriter')
  have hstart := hprepared.starts.le
  have hgiven : Writing before start written { w₁ with writer := none } :=
    hwriting.of_same rfl rfl
  obtain ⟨hlists, hkeys, hall, hoffset⟩ := finishFile_ok hstart hgrown hgiven hfinish
  have hpairs : (buildFileMetadata job.schema
      (writer.withHeader.flushed fmt)).keyValues.length =
        opened.keyValues.length + job.metadata.length := by
    rw [← hprepared.pairs, ← hkeys]
    rfl
  have hcontext := (keeps_finishFile context_respected fmt _ _).of_ok hfinish
  have hnone : w₂.writer = none :=
    (keeps_finishFile sameWriter_respected fmt _ _).of_ok hfinish
  have howns : writer.ownsFile = job.append :=
    hgrown.ownsFile.trans
      (hprepared.same.ownsFile.trans hprepared.starts.groups.2)
  obtain ⟨reached, held, hbytes, hstream, hentry, hlost, hfile, hsame, hchecked⟩ :=
    closed_ok hstart hall howns (hcontext.file.trans hprepared.file)
      (hcontext.closing.trans hprepared.closing) hcloseFile
  have hcleanup : ∀ w : World, w.writer = none → w.file = false →
      w.finished = true → (qioWriteCleanup job w).path = w.path ∧
        (qioWriteCleanup job w).lost = w.lost := fun w =>
    qioWriteCleanup_of_finished
  obtain ⟨hpath, hlost'⟩ := hcleanup { w₃ with finished := true, schema := false }
    (hsame.trans hnone) hfile rfl
  refine ⟨before, start, opened, first, writer.groups.flushRowGroup.rowGroups,
    _, reached, held, hprepared.starts, hprepared.same,
    ⟨writer.groups, hprepared.groups, rfl⟩, hlists, hpairs, ⟨_, ?_, rfl, hoffset⟩, hbytes,
    ?_, ?_, ?_, hchecked⟩
  · unfold writerAtClose
    rw [hbefore]
    dsimp only
    rw [hwriter]
    rfl
  · unfold heldAtClose
    rw [hbefore]
    dsimp only
    rw [hwriter]
    dsimp only
    rw [hfinish]
    dsimp only
    rw [hstream]
    rfl
  · rw [hpath]
    exact hentry
  · rw [hlost']
    exact hlost

/-- Every byte of the row groups and of the footer has reached the file. -/
structure OnFile (fmt : Format) (t : Translator) (job : WriteJob)
    (path : PathState) (w' : World) : Prop where
  lost : w'.lost = []
  bytes : ∃ before start opened first g footer,
    Starts fmt job path before start opened ∧ SameWriting opened first ∧
      writeGroups t job.columns job.nrow
        (Writer.create (job.columns.map WriteColumn.spec))
        (rowGroups job.rowGroupRows job.nrow) = .ok g ∧
      Lists fmt first g.flushRowGroup.rowGroups footer ∧
      w'.path.entry = .file (overwrite before start
        (outputBytes fmt first g.flushRowGroup.rowGroups footer)) true

variable (fmt t job)

/-- A write that returns has all its bytes on file exactly when it was no append,
or the last flush could pass on all the stream still held. -/
theorem returned_write_on_file_iff
    (path : PathState) (script : List Outcome) (closing : Nat) (w' : World)
    (hok : qioWriteParquet fmt t job (World.start path script closing) =
      (.ok (), w')) :
    OnFile fmt t job path w' ↔
      (job.append = false ∨
        heldAtClose fmt t job (World.start path script closing) ≤ closing) := by
  obtain ⟨before, start, opened, first, groups, footer, reached, held, h⟩ :=
    qioWriteParquet_ok hok
  rw [h.unpassed]
  constructor
  · intro hfile
    have hlost := hfile.lost
    rw [h.lost, List.drop_eq_nil_iff] at hlost
    exact Or.inr hlost
  · intro hcase
    have hroom : held.length ≤ closing := by
      rcases hcase with happend | hroom
      · exact h.checked happend
      · exact hroom
    obtain ⟨g, hg, rfl⟩ := h.made
    refine ⟨by rw [h.lost, List.drop_eq_nil_iff.mpr hroom],
      before, start, opened, first, g, footer, h.starts, h.same.toSameWriting, hg,
      h.lists, ?_⟩
    rw [h.entry, List.take_of_length_le hroom, h.bytes]

/-- The footer of a file with one INT32 column and one row, in the sample format. -/
def oldFooter : Bytes :=
  [0x15, 2, 0, 1, 0, 1, 4, 1, 1, 1, 4, 4, 0]

/-- The file of one row, with `extra` further bytes in its footer. -/
def oldFile (extra : Nat) : Bytes :=
  magic ++ [5, 0, 0, 0] ++
    (oldFooter ++ List.replicate extra 9 ++ lengthBytes (13 + extra) ++ magic)

/-- Two rows are appended, nothing fails, and at the end `closing` bytes can still be
passed on. -/
def sampleAppend (extra closing : Nat) : Except BodyError Unit × World :=
  qioWriteParquet sampleFormat plainTranslator (twoRows true)
    (World.start ⟨.file (oldFile extra) true, true⟩ [] closing)

theorem sampleAppend_returns
    (closing : Nat) :
    (sampleAppend 0 closing).1 = .ok () := by
  rfl

theorem eq_of_returned
    {x : Except BodyError Unit × World}
    (h : x.1 = .ok ()) :
    x = (.ok (), x.2) :=
  Prod.ext h rfl

theorem returned_write_on_file_iff_flushed :
    OnFile sampleFormat plainTranslator (twoRows true)
      ⟨.file (oldFile 0) true, true⟩ (sampleAppend 0 40).2 := by
  refine (returned_write_on_file_iff sampleFormat plainTranslator (twoRows true)
    ⟨.file (oldFile 0) true, true⟩ [] 40 (sampleAppend 0 40).2
    (eq_of_returned (sampleAppend_returns 40))).mpr (Or.inr ?_)
  change 36 ≤ 40
  omega

/-- The flush of the last `fclose` writes nothing, and the append returns. -/
theorem unflushed_append_returns :
    (sampleAppend 0 0).1 = .ok () ∧
      ¬ OnFile sampleFormat plainTranslator (twoRows true)
        ⟨.file (oldFile 0) true, true⟩ (sampleAppend 0 0).2 :=
  ⟨sampleAppend_returns 0, fun h => List.cons_ne_nil _ _ h.lost⟩

end Result

end Write
end QioParquet
