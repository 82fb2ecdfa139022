import QioParquet.Write.Body
import Mathlib.Tactic

/-!
# What the calls on the output keep

The calls of the body change the world in few ways: they use up the script, put
another writer into the context, give bytes to the stream, and let it pass bytes on
to the file. A relation that these respect is kept by every call, whether it
succeeds or not. Calls that write nothing need the first two only.
-/

namespace QioParquet
namespace Write

open Lib Read Plan Footer

section Untouched

/-- The output and what the context says about it are as they were. -/
structure Untouched (w w' : World) : Prop where
  path : w'.path = w.path
  stream : w'.stream = w.stream
  lost : w'.lost = w.lost
  file : w'.file = w.file
  writer : w'.writer = w.writer
  finished : w'.finished = w.finished
  closing : w'.closing = w.closing

theorem Untouched.refl
    (w : World) :
    Untouched w w :=
  ⟨rfl, rfl, rfl, rfl, rfl, rfl, rfl⟩

theorem Untouched.trans
    (a b c : World)
    (h : Untouched a b)
    (h' : Untouched b c) :
    Untouched a c :=
  ⟨h'.path.trans h.path, h'.stream.trans h.stream, h'.lost.trans h.lost,
    h'.file.trans h.file, h'.writer.trans h.writer,
    h'.finished.trans h.finished, h'.closing.trans h.closing⟩

theorem untouched_nextOutcome :
    Keeps Untouched nextOutcome := by
  intro w
  unfold nextOutcome
  split
  · exact Untouched.refl w
  · exact ⟨rfl, rfl, rfl, rfl, rfl, rfl, rfl⟩

theorem untouched_fault :
    Keeps Untouched fault := by
  unfold fault
  refine Keeps.bind Untouched.trans untouched_nextOutcome fun outcome => ?_
  cases outcome.fault with
  | none =>
      exact Keeps.pure Untouched.refl ()
  | some status =>
      exact Keeps.throw Untouched.refl status

theorem untouched_may
    (raise : Status → BodyError) :
    Keeps Untouched (may raise) :=
  untouched_fault.adaptExcept raise

theorem untouched_orRaise
    {α : Type} (result : Except WriteError α) :
    Keeps Untouched (orRaise result) := by
  cases result with
  | ok a =>
      exact Keeps.pure Untouched.refl a
  | error e =>
      exact Keeps.throw Untouched.refl _

theorem untouched_declareSchema
    (job : WriteJob) :
    Keeps Untouched (declareSchema job) := by
  unfold declareSchema
  refine Keeps.bind Untouched.trans (untouched_may _) fun _ => ?_
  refine Keeps.bind Untouched.trans ?_ fun _ => ?_
  · exact fun w => ⟨rfl, rfl, rfl, rfl, rfl, rfl, rfl⟩
  · refine Keeps.forM Untouched.refl Untouched.trans _ fun column _ => ?_
    exact Keeps.bind Untouched.trans (untouched_may _) fun _ => untouched_may _

end Untouched

section Configuring

/-- Two writers that stand at the same place of the same file. -/
structure SameWriting (a b : OutputWriter) : Prop where
  groups : b.groups = a.groups
  infos : b.infos = a.infos
  headerWritten : b.headerWritten = a.headerWritten
  fileOffset : b.fileOffset = a.fileOffset
  ownsFile : b.ownsFile = a.ownsFile

/-- They also write the same columns, in the same mode. -/
structure SameOutput (a b : OutputWriter) : Prop extends SameWriting a b where
  columns : b.columns.length = a.columns.length
  isAppend : b.isAppend = a.isAppend

theorem SameOutput.refl
    (a : OutputWriter) :
    SameOutput a a :=
  ⟨⟨rfl, rfl, rfl, rfl, rfl⟩, rfl, rfl⟩

theorem SameOutput.trans
    {a b c : OutputWriter}
    (h : SameOutput a b)
    (h' : SameOutput b c) :
    SameOutput a c :=
  ⟨⟨h'.groups.trans h.groups, h'.infos.trans h.infos,
    h'.headerWritten.trans h.headerWritten, h'.fileOffset.trans h.fileOffset,
    h'.ownsFile.trans h.ownsFile⟩, h'.columns.trans h.columns,
    h'.isAppend.trans h.isAppend⟩

/-- A call that changes options of the writer only. -/
def Adjusts (call : OutputWriter → Carquet OutputWriter) : Prop :=
  ∀ writer, Keeps Untouched (call writer) ∧
    ∀ writer' w w', call writer w = .ok writer' w' → SameOutput writer writer'

theorem adjusts_of_fault
    (change : OutputWriter → OutputWriter)
    (hchange : ∀ writer, SameOutput writer (change writer)) :
    Adjusts fun writer => do
      fault
      return change writer := by
  intro writer
  refine ⟨Keeps.bind Untouched.trans untouched_fault fun _ =>
    Keeps.pure Untouched.refl _, fun writer' w w' hrun => ?_⟩
  obtain ⟨_, middle, -, hreturn⟩ := bind_eq_ok.mp hrun
  cases hreturn
  exact hchange writer

theorem adjusts_setDictionary
    (index : Nat) :
    Adjusts (setDictionary index) :=
  adjusts_of_fault _ fun _ =>
    ⟨⟨rfl, rfl, rfl, rfl, rfl⟩, List.length_mapIdx, rfl⟩

theorem adjusts_addMetadata
    (key : Bytes) (value : Option Bytes) :
    Adjusts (addMetadata key value) :=
  adjusts_of_fault _ fun _ => ⟨⟨rfl, rfl, rfl, rfl, rfl⟩, rfl, rfl⟩

theorem adjusts_setSortingColumns
    (order : List SortingColumn) :
    Adjusts (setSortingColumns order) := by
  intro writer
  unfold setSortingColumns
  split_ifs
  · exact ⟨Keeps.throw Untouched.refl _, fun _ _ _ hrun => by cases hrun⟩
  · exact adjusts_of_fault (fun writer =>
      { writer with sortingColumns := order })
      (fun _ => ⟨⟨rfl, rfl, rfl, rfl, rfl⟩, rfl, rfl⟩) writer

variable {R : World → World → Prop}
variable (huntouched : ∀ w w', Untouched w w' → R w w')
variable (htrans : ∀ a b c, R a b → R b c → R a c)
variable (hset : ∀ (w : World) (old new : OutputWriter),
  w.writer = some old → SameOutput old new → R w { w with writer := some new })

include huntouched htrans hset

theorem useWriter_of_adjusts
    {call : OutputWriter → Carquet OutputWriter}
    (raise : Status → BodyError)
    (hcall : Adjusts call) :
    Keeps R (useWriter call raise) := by
  intro w
  unfold useWriter
  split
  · exact huntouched w w (Untouched.refl w)
  · next writer hwriter =>
      obtain ⟨hkeeps, hsame⟩ := hcall writer
      have huntouched' := hkeeps w
      rcases hrun : call writer w with ⟨writer', w'⟩ | ⟨status, w'⟩
      · rw [hrun] at huntouched'
        exact htrans _ w' _ (huntouched w w' huntouched')
          (hset w' writer writer' (huntouched'.writer.trans hwriter)
            (hsame writer' w w' hrun))
      · rw [hrun] at huntouched'
        exact huntouched w w' huntouched'

/-- The configuration keeps what outcomes and options do not change. -/
theorem configure_keeps
    (t : Translator) (job : WriteJob) :
    Keeps R (configure t job) := by
  have hrefl : ∀ w, R w w := fun w => huntouched w w (Untouched.refl w)
  have hraise : ∀ {α : Type} (result : Except WriteError α),
      Keeps R (orRaise result) := fun result w =>
    huntouched w _ (untouched_orRaise result w)
  unfold configure
  refine Keeps.bind htrans ?_ fun _ => Keeps.bind htrans ?_ fun _ => ?_
  · refine Keeps.forM hrefl htrans _ fun entry _ => ?_
    split_ifs
    · exact useWriter_of_adjusts huntouched htrans hset _
        (adjusts_setDictionary entry.2)
    · exact Keeps.pure hrefl ()
  · refine Keeps.forM hrefl htrans _ fun entry _ => ?_
    refine Keeps.bind htrans (hraise _) fun key => ?_
    refine Keeps.bind htrans (hraise _) fun value => ?_
    exact useWriter_of_adjusts huntouched htrans hset _
      (adjusts_addMetadata key value)
  · cases job.sortingColumns with
    | none =>
        exact Keeps.pure hrefl ()
    | some order =>
        refine Keeps.bind htrans ?_ fun _ =>
          useWriter_of_adjusts huntouched htrans hset _
            (adjusts_setSortingColumns order)
        exact fun w => huntouched w _ (untouched_may _ w)

end Configuring

section Tolerated

/-- A relation that does not see outcomes. -/
structure Tolerated (R : World → World → Prop) : Prop where
  untouched : ∀ w w', Untouched w w' → R w w'
  trans : ∀ a b c, R a b → R b c → R a c

/-- A relation that does not see which writer the context has. -/
def WriterBlind (R : World → World → Prop) : Prop :=
  ∀ (w : World) (writer : Option OutputWriter), R w { w with writer := writer }

variable {R : World → World → Prop} (hR : Tolerated R)

include hR

theorem Tolerated.refl
    (w : World) :
    R w w :=
  hR.untouched w w (Untouched.refl w)

theorem Tolerated.of_untouched
    {ε α : Type} {m : EStateM ε World α}
    (h : Keeps Untouched m) :
    Keeps R m :=
  fun w => hR.untouched w _ (h w)

theorem keeps_fault :
    Keeps R fault :=
  hR.of_untouched untouched_fault

theorem keeps_may
    (raise : Status → BodyError) :
    Keeps R (may raise) :=
  hR.of_untouched (untouched_may raise)

variable (hblind : WriterBlind R)

include hblind

/-- A call on the writer, from the state it is made in. -/
theorem useWriter_keeps
    {call : OutputWriter → Carquet OutputWriter} {raise : Status → BodyError}
    {w : World}
    (hcall : ∀ writer, w.writer = some writer → R w (finalState (call writer w))) :
    R w (finalState (useWriter call raise w)) := by
  unfold useWriter
  split
  · exact hR.refl w
  · next writer hwriter =>
      have hkeeps := hcall writer hwriter
      rcases hrun : call writer w with ⟨writer', w'⟩ | ⟨status, w'⟩
      · rw [hrun] at hkeeps
        exact hR.trans _ w' _ hkeeps (hblind w' _)
      · rw [hrun] at hkeeps
        exact hkeeps

theorem keeps_useWriter
    {call : OutputWriter → Carquet OutputWriter}
    (raise : Status → BodyError)
    (hcall : ∀ writer, Keeps R (call writer)) :
    Keeps R (useWriter call raise) :=
  fun w => useWriter_keeps hR hblind fun writer _ => hcall writer w

theorem keeps_configure
    (t : Translator) (job : WriteJob) :
    Keeps R (configure t job) :=
  configure_keeps hR.untouched hR.trans
    (fun w _ new _ _ => hblind w (some new)) t job

theorem keeps_attachWriter
    (job : WriteJob) :
    Keeps R (attachWriter job) := by
  unfold attachWriter
  split_ifs
  · exact Keeps.pure hR.refl ()
  · exact Keeps.bind hR.trans (keeps_may hR _) fun _ w => hblind w _

end Tolerated

section Respected

/-- A relation that the operations of a stream respect as well. -/
structure Respected (R : World → World → Prop) : Prop extends Tolerated R where
  take : ∀ (w : World) (block : Bytes), R w (w.take block)
  pass : ∀ (w : World) (n : Nat), R w (w.pass n)

variable {R : World → World → Prop} (hR : Respected R)

include hR

theorem keeps_fwrite
    (block : Bytes) :
    Keeps R (fwrite block) := by
  have htaken : ∀ (taken : Bytes) (n : Nat) (w : World),
      R w ((w.take taken).pass n) := fun taken n w =>
    hR.trans _ (w.take taken) _ (hR.take w taken) (hR.pass _ n)
  unfold fwrite
  refine Keeps.bind hR.trans (hR.of_untouched untouched_nextOutcome)
    fun outcome => ?_
  cases outcome.fault with
  | none =>
      exact htaken block outcome.moved
  | some status =>
      refine Keeps.bind hR.trans ?_ fun _ => Keeps.throw hR.refl _
      exact htaken (block.take outcome.taken) outcome.moved

theorem keeps_ensureHeaderWritten
    (writer : OutputWriter) :
    Keeps R (ensureHeaderWritten writer) := by
  unfold ensureHeaderWritten
  split_ifs
  · exact Keeps.pure hR.refl writer
  · exact Keeps.bind hR.trans (keeps_fwrite hR magic) fun _ =>
      Keeps.pure hR.refl _

theorem keeps_writeBlock
    (block : Bytes) :
    Keeps R (writeBlock block) := by
  unfold writeBlock
  refine Keeps.bind hR.trans (keeps_fault hR.toTolerated) fun _ => ?_
  split_ifs
  · exact keeps_fwrite hR block
  · exact Keeps.pure hR.refl ()

variable (fmt : Format)

theorem keeps_flushGroup
    (writer : OutputWriter) :
    Keeps R (flushGroup fmt writer) := by
  unfold flushGroup
  split_ifs
  · exact Keeps.pure hR.refl writer
  · refine Keeps.bind hR.trans ?_ fun _ =>
      Keeps.bind hR.trans (keeps_fault hR.toTolerated) fun _ => Keeps.pure hR.refl _
    exact Keeps.forM hR.refl hR.trans _ fun block _ => keeps_writeBlock hR block

theorem keeps_carquetWriteBatch
    (writer : OutputWriter) (call : Call) :
    Keeps R (carquetWriteBatch fmt writer call) := by
  unfold carquetWriteBatch
  split_ifs
  · exact Keeps.throw hR.refl _
  · refine Keeps.bind hR.trans (keeps_ensureHeaderWritten hR writer)
      fun writer' => ?_
    refine Keeps.bind hR.trans (keeps_fault hR.toTolerated) fun _ => ?_
    refine Keeps.bind hR.trans (keeps_fault hR.toTolerated) fun _ => ?_
    dsimp only
    split_ifs
    · exact keeps_flushGroup hR fmt _
    · exact Keeps.pure hR.refl _

theorem keeps_carquetNewRowGroup
    (writer : OutputWriter) :
    Keeps R (carquetNewRowGroup fmt writer) :=
  Keeps.bind hR.trans (keeps_ensureHeaderWritten hR writer)
    (keeps_flushGroup hR fmt)

theorem keeps_finishFile
    (schema : List SchemaLeaf) (writer : OutputWriter) :
    Keeps R (finishFile fmt schema writer) := by
  unfold finishFile
  refine Keeps.bind hR.trans (keeps_ensureHeaderWritten hR writer) fun _ => ?_
  refine Keeps.bind hR.trans (keeps_flushGroup hR fmt _) fun _ => ?_
  refine Keeps.bind hR.trans (keeps_fault hR.toTolerated) fun _ => ?_
  refine Keeps.bind hR.trans (keeps_fwrite hR _) fun _ => ?_
  exact Keeps.bind hR.trans (keeps_fwrite hR _) fun _ => keeps_fwrite hR _

variable (t : Translator) (hblind : WriterBlind R)

include hblind

theorem keeps_loopStep
    (step : LoopStep) :
    Keeps R (loopStep fmt t step) := by
  cases step with
  | batch index column slice =>
      refine Keeps.bind hR.trans (keeps_may hR.toTolerated _) fun _ => ?_
      refine Keeps.bind hR.trans (hR.of_untouched (untouched_orRaise _))
        fun batch => ?_
      refine Keeps.bind hR.trans ?_ fun _ => keeps_may hR.toTolerated _
      exact keeps_useWriter hR.toTolerated hblind _ fun writer =>
        keeps_carquetWriteBatch hR fmt writer (index, batch)
  | boundary group =>
      exact keeps_useWriter hR.toTolerated hblind _ (keeps_carquetNewRowGroup hR fmt)

theorem keeps_afterOpen
    (job : WriteJob) :
    Keeps R (afterOpen fmt t job) := by
  refine Keeps.bind hR.trans (keeps_attachWriter hR.toTolerated hblind job) fun _ => ?_
  refine Keeps.bind hR.trans (keeps_configure hR.toTolerated hblind t job) fun _ => ?_
  exact Keeps.forM hR.refl hR.trans _ fun step _ => keeps_loopStep hR fmt t hblind step

end Respected

end Write
end QioParquet
