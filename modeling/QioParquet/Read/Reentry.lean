import QioParquet.Read.Agreement
import Mathlib.Logic.Relation
import Mathlib.Data.List.Nodup
import Mathlib.Tactic

/-!
# Handles and re-entry

A handle is an external pointer to a small struct that owns an open reader. A
read marks the struct busy, runs under `R_UnwindProtect` and clears the mark in
its cleanup. The callback of `walk_batches()` is R code, which can call the API
again, on the same handle, to any depth; and a read can be left by an error of
its own, of its callback, or by an interrupt, which then passes through the
cleanup of every read outside it until some R code catches it.

A session is therefore a stack of reads in progress, and its runs are the steps
of R code, of the innermost read, and of an error on its way out. A read keeps
the struct it was started on and does not look at the pointer again, so that a
handle closed under a read would be used after it was freed; `misused` records
that.

The mark guards the body of a read only. When the body has returned and the mark
is cleared, the read still names the columns that lost values, one warning each,
and asks the reader for every name. A warning runs R code, its handlers, and
nothing stops them from closing the handle while another column is still to be
named.
-/

namespace QioParquet
namespace Read

section Sessions

/-- The errors of the handle functions, and those of other code. -/
inductive HandleError where
  | closedHandle
  | activeRead
  | closeDuringRead
  | raised (text : String)
deriving DecidableEq

def HandleError.message : HandleError → String
  | .closedHandle => "qio: parquet file handle is closed or invalid"
  | .activeRead => "qio: parquet file already has an active read"
  | .closeDuringRead =>
      "qio: cannot close a parquet file during an active read"
  | .raised text => text

/-- `qio_parquet_handle_t`, without its options. -/
structure HandleMemory where
  busy : Bool
deriving DecidableEq

inductive ReadKind where
  | collect
  | walk
deriving DecidableEq

/-- Where a read in progress stands: in its body, under the mark, or behind it,
with the warnings it still has to give. -/
inductive ReadPhase where
  | body
  | warning (unnamed : List (Warning × Nat))
deriving DecidableEq

/-- A read in progress: `qio_batch_context_t`, with the handle it was started on
and what its selected columns have lost so far. -/
structure ReadFrame where
  kind : ReadKind
  handle : Nat
  flags : List Flags
  phase : ReadPhase
deriving DecidableEq

/-- The columns `qio_warn_int32_sentinel` and then `qio_warn_int64_coerced`
name. -/
def flaggedColumns (flags : List Flags) : List (Warning × Nat) :=
  [Warning.int32Sentinel, .int64Coerced].flatMap fun w =>
    (flags.zipIdx.filter fun entry => entry.1.warns w).map fun entry => (w, entry.2)

/-- The warnings a read still has to give, once its body has returned. -/
def ReadFrame.unnamed (frame : ReadFrame) : List (Warning × Nat) :=
  match frame.phase with
  | .body => []
  | .warning unnamed => unnamed

/-- What is running: R code, which is the top level, or the callback or a warning
handler of the innermost read; the innermost read itself; or an error passing
through R code. -/
inductive Control where
  | running
  | native
  | raising (e : HandleError)
deriving DecidableEq

/-- Handles are numbered as they are opened. `pointer` is what
`R_ExternalPtrAddr` gives, `reader` whether the handle's reader is open, and
`reads` the reads in progress, innermost first. -/
structure Session where
  opened : Nat
  pointer : Nat → Option HandleMemory
  reader : Nat → Bool
  reads : List ReadFrame
  control : Control
  misused : Bool

def Session.init : Session :=
  ⟨0, fun _ => none, fun _ => false, [], .running, false⟩

def Session.raise (s : Session) (e : HandleError) : Session :=
  { s with control := .raising e }

/-- Use the reader of a handle. -/
def Session.useReader (s : Session) (h : Nat) : Session :=
  { s with misused := s.misused || !s.reader h }

/-- `qio_finalize_file`: close the reader, free the struct, clear the
pointer. -/
def Session.finalize (s : Session) (h : Nat) : Session :=
  { s with
    reader := Function.update s.reader h false
    pointer := Function.update s.pointer h none }

end Sessions

section Calls

/-- `qio_parquet_open`. -/
def Session.openParquet (s : Session) (failure : Option String) : Session :=
  match failure with
  | some text => s.raise (.raised text)
  | none =>
      { s with
        opened := s.opened + 1
        pointer := Function.update s.pointer s.opened (some ⟨false⟩)
        reader := Function.update s.reader s.opened true }

/-- `qio_parquet_close`. -/
def Session.closeParquet (s : Session) (h : Nat) : Session :=
  match s.pointer h with
  | none => s
  | some memory =>
      if memory.busy then
        s.raise .closeDuringRead
      else
        s.finalize h

/-- A call that asks the reader about the file: the schema, the row groups, the
metadata, a Bloom filter. -/
def Session.metadata
    (s : Session) (h : Nat) (failure : Option String) : Session :=
  match s.pointer h with
  | none => s.raise .closedHandle
  | some _ =>
      match failure with
      | some text => (s.useReader h).raise (.raised text)
      | none => s.useReader h

/-- `qio_parquet_collect` and `qio_parquet_walk` up to the body. The selection is
the number of selected columns, or the refusal of an argument. -/
def Session.startRead
    (s : Session) (kind : ReadKind) (h : Nat) (selection : Except String Nat) :
    Session :=
  match s.pointer h with
  | none => s.raise .closedHandle
  | some memory =>
      if memory.busy then
        s.raise .activeRead
      else
        match selection with
        | .error text => (s.useReader h).raise (.raised text)
        | .ok columns =>
            { s.useReader h with
              pointer := Function.update s.pointer h (some ⟨true⟩)
              reads := ⟨kind, h, List.replicate columns Flags.none, .body⟩ :: s.reads
              control := .native }

/-- The calls R code can make. -/
inductive Call where
  | openParquet (failure : Option String)
  | isOpen (h : Nat)
  | closeParquet (h : Nat)
  | metadata (h : Nat) (failure : Option String)
  | collect (h : Nat) (selection : Except String Nat)
  | walkBatches (h : Nat) (selection : Except String Nat)

def Session.call (s : Session) : Call → Session
  | .openParquet failure => s.openParquet failure
  | .isOpen _ => s
  | .closeParquet h => s.closeParquet h
  | .metadata h failure => s.metadata h failure
  | .collect h selection => s.startRead .collect h selection
  | .walkBatches h selection => s.startRead .walk h selection

/-- `qio_batch_cleanup`: it writes to the struct the read was started on. -/
def Session.cleanup (s : Session) (frame : ReadFrame) : Session :=
  match s.pointer frame.handle with
  | some _ =>
      { s with
        pointer := Function.update s.pointer frame.handle (some ⟨false⟩) }
  | none => { s with misused := true }

/-- A value of a selected column is decoded, and may be lost. -/
def ReadFrame.flag (frame : ReadFrame) (column : Nat) (flags : Flags) : ReadFrame :=
  { frame with flags := frame.flags.modify column (·.or flags) }

/-- The body of the innermost read returns: `R_UnwindProtect` runs the cleanup, and
the warnings are next. -/
def Session.endBody (s : Session) : Session :=
  match s.reads with
  | [] => s
  | frame :: rest =>
      { s.cleanup frame with
        reads := { frame with phase := .warning (flaggedColumns frame.flags) } :: rest }

/-- One turn of the warning loops: `qio_selected_column_name` asks the reader of
the struct the read was started on, and `Rf_warning` runs the handlers. -/
def Session.nameColumn (s : Session) : Session :=
  match s.reads with
  | [] => s
  | frame :: rest =>
      { s.useReader frame.handle with
        reads := { frame with phase := .warning frame.unnamed.tail } :: rest
        control := .running }

/-- An error leaves the innermost read. Its cleanup runs if the error came out of
the body. -/
def Session.leave (s : Session) (e : HandleError) : Session :=
  match s.reads with
  | [] => s
  | frame :: rest =>
      match frame.phase with
      | .body => { s.cleanup frame with reads := rest, control := .raising e }
      | .warning _ => { s with reads := rest, control := .raising e }

/-- The steps of a session. A body calls R code for the callback of a walk; a
condition handler runs inside a read of either kind, in its body and in its
warnings. -/
inductive Session.Step : Session → Session → Prop where
  | call {s : Session} (c : Call)
      (hcontrol : s.control = .running) :
      Step s (s.call c)
  | failed {s : Session} (text : String)
      (hcontrol : s.control = .running) :
      Step s (s.raise (.raised text))
  | decode {s : Session} {frame : ReadFrame} {rest : List ReadFrame}
      (column : Nat) (flags : Flags)
      (hcontrol : s.control = .native)
      (hreads : s.reads = frame :: rest)
      (hbody : frame.phase = .body) :
      Step s { s.useReader frame.handle with reads := frame.flag column flags :: rest }
  | callback {s : Session} {frame : ReadFrame} {rest : List ReadFrame}
      (hcontrol : s.control = .native)
      (hreads : s.reads = frame :: rest)
      (hbody : frame.phase = .body) :
      Step s { s with control := .running }
  | returned {s : Session}
      (hcontrol : s.control = .running)
      (hreads : s.reads ≠ []) :
      Step s { s with control := .native }
  | bodyRaised {s : Session} {frame : ReadFrame} {rest : List ReadFrame}
      (text : String)
      (hcontrol : s.control = .native)
      (hreads : s.reads = frame :: rest)
      (hbody : frame.phase = .body) :
      Step s (s.leave (.raised text))
  | bodyReturned {s : Session} {frame : ReadFrame} {rest : List ReadFrame}
      (hcontrol : s.control = .native)
      (hreads : s.reads = frame :: rest)
      (hbody : frame.phase = .body) :
      Step s s.endBody
  | named {s : Session} {frame : ReadFrame} {rest : List ReadFrame}
      (hcontrol : s.control = .native)
      (hreads : s.reads = frame :: rest)
      (hunnamed : frame.unnamed ≠ []) :
      Step s s.nameColumn
  | readReturned {s : Session} {frame : ReadFrame} {rest : List ReadFrame}
      (hcontrol : s.control = .native)
      (hreads : s.reads = frame :: rest)
      (hdone : frame.phase = .warning []) :
      Step s { s with reads := rest, control := .running }
  | unwound {s : Session} {e : HandleError}
      (hcontrol : s.control = .raising e) :
      Step s (s.leave e)
  | caught {s : Session} {e : HandleError}
      (hcontrol : s.control = .raising e) :
      Step s { s with control := .running }

/-- The states of a session. -/
def Session.Reachable (s : Session) : Prop :=
  Relation.ReflTransGen Session.Step Session.init s

end Calls


section Safety

/-- The handles read by reads that are in their bodies. -/
def bodyHandles (reads : List ReadFrame) : List Nat :=
  (reads.filter fun frame => frame.phase = .body).map ReadFrame.handle

/-- The handles being read. -/
def Session.beingRead (s : Session) : List Nat :=
  bodyHandles s.reads

@[simp] theorem bodyHandles_nil :
    bodyHandles [] = [] :=
  rfl

theorem bodyHandles_body
    {frame : ReadFrame}
    (hbody : frame.phase = .body)
    (rest : List ReadFrame) :
    bodyHandles (frame :: rest) = frame.handle :: bodyHandles rest := by
  simp [bodyHandles, hbody]

theorem bodyHandles_warning
    {frame : ReadFrame}
    (hwarning : frame.phase ≠ .body)
    (rest : List ReadFrame) :
    bodyHandles (frame :: rest) = bodyHandles rest := by
  simp [bodyHandles, hwarning]

theorem ReadFrame.phase_ne_body
    {frame : ReadFrame}
    (hunnamed : frame.unnamed ≠ []) :
    frame.phase ≠ .body := by
  intro hbody
  simp [ReadFrame.unnamed, hbody] at hunnamed

/-- What holds in every state of a session: a struct lives as long as its reader,
no handle is read twice at a time, and the busy handles are those being read. -/
structure Session.Sound (s : Session) : Prop where
  fresh : ∀ h, s.opened ≤ h → s.pointer h = none
  reader : ∀ h, s.reader h = (s.pointer h).isSome
  distinct : s.beingRead.Nodup
  busy_iff : ∀ h, s.pointer h = some ⟨true⟩ ↔ h ∈ s.beingRead

theorem Session.sound_init :
    Session.init.Sound where
  fresh _ _ := rfl
  reader _ := rfl
  distinct := List.nodup_nil
  busy_iff h := by simp [Session.init, Session.beingRead]

variable {s s' : Session}

/-- Control, misuse and the warnings of a read are no part of soundness. -/
theorem Session.Sound.same
    (hs : s.Sound)
    (hopened : s'.opened = s.opened)
    (hpointer : s'.pointer = s.pointer)
    (hreader : s'.reader = s.reader)
    (hreads : s'.beingRead = s.beingRead) :
    s'.Sound := by
  refine ⟨?_, ?_, ?_, ?_⟩
  · rw [hopened, hpointer]
    exact hs.fresh
  · rw [hpointer, hreader]
    exact hs.reader
  · rw [hreads]
    exact hs.distinct
  · rw [hpointer, hreads]
    exact hs.busy_iff

/-- One handle changes, together with whether it is being read. -/
theorem Session.Sound.change
    {h : Nat} {memory : Option HandleMemory}
    (hs : s.Sound)
    (hpointer : s'.pointer = Function.update s.pointer h memory)
    (hreader : s'.reader = Function.update s.reader h memory.isSome)
    (hopened : s.opened ≤ s'.opened)
    (hlive : memory = none ∨ h < s'.opened)
    (hdistinct : s'.beingRead.Nodup)
    (hself : memory = some ⟨true⟩ ↔ h ∈ s'.beingRead)
    (hothers : ∀ h' ≠ h, h' ∈ s.beingRead ↔ h' ∈ s'.beingRead) :
    s'.Sound := by
  refine ⟨?_, ?_, hdistinct, ?_⟩
  · intro h' hle
    rw [hpointer]
    by_cases heq : h' = h
    · subst heq
      rw [Function.update_self]
      exact hlive.resolve_right (not_lt.mpr hle)
    · rw [Function.update_of_ne heq]
      exact hs.fresh h' (hopened.trans hle)
  · intro h'
    rw [hpointer, hreader]
    by_cases heq : h' = h
    · subst heq
      rw [Function.update_self, Function.update_self]
    · rw [Function.update_of_ne heq, Function.update_of_ne heq]
      exact hs.reader h'
  · intro h'
    rw [hpointer]
    by_cases heq : h' = h
    · subst heq
      rw [Function.update_self]
      exact hself
    · rw [Function.update_of_ne heq, hs.busy_iff h']
      exact hothers h' heq

/-- A handle with an open struct has an open reader, and was opened. -/
theorem Session.Sound.live
    {h : Nat} {memory : HandleMemory}
    (hs : s.Sound)
    (hpointer : s.pointer h = some memory) :
    s.reader h = true ∧ h < s.opened := by
  refine ⟨by rw [hs.reader, hpointer]; rfl, ?_⟩
  by_contra hle
  rw [hs.fresh h (not_lt.mp hle)] at hpointer
  cases hpointer

theorem Session.Sound.not_beingRead
    {h : Nat} {memory : Option HandleMemory}
    (hs : s.Sound)
    (hpointer : s.pointer h = memory)
    (hmemory : memory ≠ some ⟨true⟩) :
    h ∉ s.beingRead := by
  rw [← hs.busy_iff, hpointer]
  exact hmemory

/-- A change of a live handle's mark leaves its reader open. -/
theorem Session.Sound.reader_mark
    {h : Nat} {memory : HandleMemory}
    (hs : s.Sound)
    (hpointer : s.pointer h = some memory) :
    s.reader = Function.update s.reader h true := by
  rw [eq_comm, Function.update_eq_iff]
  exact ⟨(hs.live hpointer).1.symm, fun _ _ => rfl⟩

theorem Session.Sound.openParquet
    (hs : s.Sound) (failure : Option String) :
    (s.openParquet failure).Sound := by
  cases failure with
  | some text =>
      exact hs.same rfl rfl rfl rfl
  | none =>
      have hnew : s.opened ∉ s.beingRead :=
        hs.not_beingRead (hs.fresh _ le_rfl) (by simp)
      exact hs.change rfl rfl (Nat.le_succ _)
        (Or.inr (Nat.lt_succ_self _)) hs.distinct
        (iff_of_false (by simp) hnew) fun _ _ => Iff.rfl

theorem Session.Sound.closeParquet
    (hs : s.Sound) (h : Nat) :
    (s.closeParquet h).Sound := by
  unfold Session.closeParquet
  cases hpointer : s.pointer h with
  | none =>
      exact hs
  | some memory =>
      obtain ⟨busy⟩ := memory
      cases busy with
      | true =>
          exact hs.same rfl rfl rfl rfl
      | false =>
          have hidle : h ∉ s.beingRead := hs.not_beingRead hpointer (by simp)
          exact hs.change rfl rfl le_rfl (Or.inl rfl) hs.distinct
            (iff_of_false (by simp) hidle) fun _ _ => Iff.rfl

theorem Session.Sound.metadata
    (hs : s.Sound) (h : Nat) (failure : Option String) :
    (s.metadata h failure).Sound := by
  unfold Session.metadata
  cases s.pointer h with
  | none =>
      exact hs.same rfl rfl rfl rfl
  | some memory =>
      cases failure <;> exact hs.same rfl rfl rfl rfl

theorem Session.Sound.startRead
    (hs : s.Sound) (kind : ReadKind) (h : Nat) (selection : Except String Nat) :
    (s.startRead kind h selection).Sound := by
  unfold Session.startRead
  cases hpointer : s.pointer h with
  | none =>
      exact hs.same rfl rfl rfl rfl
  | some memory =>
      obtain ⟨busy⟩ := memory
      cases busy with
      | true =>
          exact hs.same rfl rfl rfl rfl
      | false =>
          cases selection with
          | error text =>
              exact hs.same rfl rfl rfl rfl
          | ok columns =>
              have hidle : h ∉ s.beingRead :=
                hs.not_beingRead hpointer (by simp)
              refine hs.change rfl (hs.reader_mark hpointer) le_rfl
                (Or.inr (hs.live hpointer).2)
                (List.nodup_cons.mpr ⟨hidle, hs.distinct⟩)
                (iff_of_true rfl List.mem_cons_self) ?_
              intro h' hne
              exact (List.mem_cons.trans (or_iff_right hne)).symm

theorem Session.Sound.call
    (hs : s.Sound) (c : Call) :
    (s.call c).Sound := by
  cases c with
  | openParquet failure =>
      exact hs.openParquet failure
  | isOpen h =>
      exact hs
  | closeParquet h =>
      exact hs.closeParquet h
  | metadata h failure =>
      exact hs.metadata h failure
  | collect h selection | walkBatches h selection =>
      exact hs.startRead _ h selection

section Bodies

variable {frame : ReadFrame} {rest : List ReadFrame}

theorem Session.beingRead_body
    (hreads : s.reads = frame :: rest)
    (hbody : frame.phase = .body) :
    s.beingRead = frame.handle :: bodyHandles rest := by
  rw [Session.beingRead, hreads, bodyHandles_body hbody]

/-- While a body runs, the struct it was started on lives and is marked. -/
theorem Session.Sound.pointer_of_body
    (hs : s.Sound)
    (hreads : s.reads = frame :: rest)
    (hbody : frame.phase = .body) :
    s.pointer frame.handle = some ⟨true⟩ := by
  rw [hs.busy_iff, Session.beingRead_body hreads hbody]
  exact List.mem_cons_self

theorem Session.Sound.cleanup_eq
    (hs : s.Sound)
    (hreads : s.reads = frame :: rest)
    (hbody : frame.phase = .body) :
    s.cleanup frame = { s with
      pointer := Function.update s.pointer frame.handle (some ⟨false⟩) } := by
  simp only [Session.cleanup, hs.pointer_of_body hreads hbody]

theorem Session.Sound.endBody_eq
    (hs : s.Sound)
    (hreads : s.reads = frame :: rest)
    (hbody : frame.phase = .body) :
    s.endBody = { s with
      pointer := Function.update s.pointer frame.handle (some ⟨false⟩)
      reads := { frame with phase := .warning (flaggedColumns frame.flags) } :: rest } := by
  simp only [Session.endBody, hreads, hs.cleanup_eq hreads hbody]

theorem Session.Sound.leave_eq
    (hs : s.Sound)
    (hreads : s.reads = frame :: rest)
    (hbody : frame.phase = .body)
    (e : HandleError) :
    s.leave e = { s with
      pointer := Function.update s.pointer frame.handle (some ⟨false⟩)
      reads := rest
      control := .raising e } := by
  simp only [Session.leave, hreads, hbody, hs.cleanup_eq hreads hbody]

/-- A body ends: the mark of its handle is cleared, and the handle is read no
longer. -/
theorem Session.Sound.bodyEnds
    (hs : s.Sound)
    (hreads : s.reads = frame :: rest)
    (hbody : frame.phase = .body)
    (hopened : s'.opened = s.opened)
    (hpointer : s'.pointer = Function.update s.pointer frame.handle (some ⟨false⟩))
    (hreader : s'.reader = s.reader)
    (hleft : s'.beingRead = bodyHandles rest) :
    s'.Sound := by
  have hmarked := hs.pointer_of_body hreads hbody
  have hall := Session.beingRead_body hreads hbody
  have hnodup := hs.distinct
  rw [hall, List.nodup_cons] at hnodup
  refine hs.change hpointer (hreader.trans (hs.reader_mark hmarked)) hopened.ge
    (Or.inr (hopened ▸ (hs.live hmarked).2)) (hleft ▸ hnodup.2)
    (iff_of_false (by simp) (hleft ▸ hnodup.1)) ?_
  intro h' hne
  rw [hall, hleft]
  exact List.mem_cons.trans (or_iff_right hne)

theorem Session.Sound.endBody
    (hs : s.Sound)
    (hreads : s.reads = frame :: rest)
    (hbody : frame.phase = .body) :
    s.endBody.Sound := by
  rw [hs.endBody_eq hreads hbody]
  exact hs.bodyEnds hreads hbody rfl rfl rfl (bodyHandles_warning (by simp) rest)

end Bodies

theorem Session.Sound.leave
    (hs : s.Sound) (e : HandleError) :
    (s.leave e).Sound := by
  cases hreads : s.reads with
  | nil =>
      simpa only [Session.leave, hreads] using hs
  | cons frame rest =>
      cases hphase : frame.phase with
      | body =>
          rw [hs.leave_eq hreads hphase]
          exact hs.bodyEnds hreads hphase rfl rfl rfl rfl
      | warning unnamed =>
          simp only [Session.leave, hreads, hphase]
          refine hs.same rfl rfl rfl ?_
          rw [Session.beingRead, Session.beingRead, hreads,
            bodyHandles_warning (by simp [hphase])]

/-- Every step keeps a session sound. -/
theorem Session.Sound.step
    (hs : s.Sound)
    (hstep : s.Step s') :
    s'.Sound := by
  cases hstep with
  | call c _ =>
      exact hs.call c
  | failed text _ | callback _ _ _ | returned _ _ | caught _ =>
      exact hs.same rfl rfl rfl rfl
  | @decode frame rest column flags _ hreads hbody =>
      have hflagged : (frame.flag column flags).phase = .body := hbody
      refine hs.same rfl rfl rfl ?_
      rw [Session.beingRead_body hreads hbody]
      exact bodyHandles_body hflagged rest
  | bodyRaised text _ _ _ | unwound _ =>
      exact hs.leave _
  | bodyReturned _ hreads hbody =>
      exact hs.endBody hreads hbody
  | named _ hreads hunnamed =>
      simp only [Session.nameColumn, hreads]
      refine hs.same rfl rfl rfl ?_
      rw [Session.beingRead, Session.beingRead, hreads,
        bodyHandles_warning (ReadFrame.phase_ne_body hunnamed),
        bodyHandles_warning (by simp)]
  | readReturned _ hreads hdone =>
      refine hs.same rfl rfl rfl ?_
      rw [Session.beingRead, Session.beingRead, hreads,
        bodyHandles_warning (by simp [hdone])]

theorem Session.Reachable.sound
    (h : s.Reachable) :
    s.Sound := by
  induction h with
  | refl =>
      exact Session.sound_init
  | tail _ hstep ih =>
      exact ih.step hstep

end Safety

section Attending

/-- Every handle with a flagged column still to be named is open. -/
def Session.Attended (s : Session) : Prop :=
  ∀ frame ∈ s.reads, frame.unnamed ≠ [] → (s.pointer frame.handle).isSome = true

/-- The states of sessions in which no handler closes a handle while a flagged
column of it is still to be named. -/
def Session.ReachableAttended (s : Session) : Prop :=
  Relation.ReflTransGen (fun s s' => s.Step s' ∧ s'.Attended) Session.init s

variable {s s' : Session}

theorem Session.ReachableAttended.attended
    (h : s.ReachableAttended) :
    s.Attended := by
  cases h with
  | refl =>
      intro frame hmem
      cases hmem
  | tail _ hstep =>
      exact hstep.2

theorem Session.ReachableAttended.reachable
    (h : s.ReachableAttended) :
    s.Reachable := by
  induction h with
  | refl =>
      exact .refl
  | tail _ hstep ih =>
      exact ih.tail hstep.1

theorem Session.misused_useReader
    {h : Nat}
    (hopen : s.reader h = true) :
    (s.useReader h).misused = s.misused := by
  simp [Session.useReader, hopen]

/-- A call looks at the pointer first, and so it never misuses a handle. -/
theorem Session.Sound.misused_call
    (hs : s.Sound) (c : Call) :
    (s.call c).misused = s.misused := by
  cases c with
  | openParquet failure =>
      cases failure <;> rfl
  | isOpen h =>
      rfl
  | closeParquet h =>
      simp only [Session.call, Session.closeParquet]
      split
      · rfl
      · split_ifs <;> rfl
  | metadata h failure =>
      simp only [Session.call, Session.metadata]
      split
      · rfl
      · rename_i hpointer
        cases failure <;> exact Session.misused_useReader (hs.live hpointer).1
  | collect h selection | walkBatches h selection =>
      simp only [Session.call, Session.startRead]
      split
      · rfl
      · rename_i hpointer
        split_ifs
        · rfl
        · cases selection <;> exact Session.misused_useReader (hs.live hpointer).1

theorem Session.Sound.misused_leave
    (hs : s.Sound) (e : HandleError) :
    (s.leave e).misused = s.misused := by
  cases hreads : s.reads with
  | nil =>
      simp only [Session.leave, hreads]
  | cons frame rest =>
      cases hphase : frame.phase with
      | body =>
          rw [hs.leave_eq hreads hphase]
      | warning unnamed =>
          simp only [Session.leave, hreads, hphase]

/-- From an attended state no step misuses a handle. -/
theorem Session.Sound.misused_step
    (hs : s.Sound)
    (hattended : s.Attended)
    (hstep : s.Step s') :
    s'.misused = s.misused := by
  cases hstep with
  | call c _ =>
      exact hs.misused_call c
  | failed _ _ | callback _ _ _ | returned _ _ | caught _ | readReturned _ _ _ =>
      rfl
  | decode _ _ _ hreads hbody =>
      exact Session.misused_useReader (hs.live (hs.pointer_of_body hreads hbody)).1
  | bodyRaised _ _ _ _ | unwound _ =>
      exact hs.misused_leave _
  | bodyReturned _ hreads hbody =>
      rw [hs.endBody_eq hreads hbody]
  | @named frame rest _ hreads hunnamed =>
      have hopen := hattended frame (hreads ▸ List.mem_cons_self) hunnamed
      rw [← hs.reader] at hopen
      simp only [Session.nameColumn, hreads]
      exact Session.misused_useReader hopen

theorem Session.ReachableAttended.unharmed
    (h : s.ReachableAttended) :
    s.misused = false := by
  induction h with
  | refl =>
      rfl
  | tail hrun hstep ih =>
      have hrun : Session.ReachableAttended _ := hrun
      rw [hrun.reachable.sound.misused_step hrun.attended hstep.1]
      exact ih

end Attending

section Misuse

/-- A read in progress with a column still to be named, on a handle whose reader
is closed. -/
def Session.Waiting (s : Session) : Prop :=
  ∃ frame ∈ s.reads, frame.unnamed ≠ [] ∧ s.reader frame.handle = false

variable {s s' : Session}

theorem Session.Sound.waiting_of_not_attended
    (hs : s.Sound)
    (h : ¬ s.Attended) :
    s.Waiting := by
  simp only [Session.Attended, not_forall] at h
  obtain ⟨frame, hmem, hunnamed, hclosed⟩ := h
  refine ⟨frame, hmem, hunnamed, ?_⟩
  rw [hs.reader]
  exact Bool.eq_false_iff.mpr hclosed

theorem Session.misused_nameColumn
    {frame : ReadFrame} {rest : List ReadFrame}
    (hreads : s.reads = frame :: rest)
    (hclosed : s.reader frame.handle = false) :
    s.nameColumn.misused = true := by
  simp [Session.nameColumn, hreads, Session.useReader, hclosed]

theorem Session.leave_reads
    {frame : ReadFrame} {rest : List ReadFrame}
    (hreads : s.reads = frame :: rest)
    (e : HandleError) :
    (s.leave e).reads = rest ∧ (s.leave e).control = .raising e ∧
      (s.leave e).reader = s.reader := by
  simp only [Session.leave, hreads]
  cases frame.phase with
  | body =>
      refine ⟨rfl, rfl, ?_⟩
      simp only [Session.cleanup]
      split <;> rfl
  | warning unnamed =>
      exact ⟨rfl, rfl, rfl⟩

/-- An error leaves the reads above one that waits for a closed handle; caught
there, it lets that read go on to the name. -/
theorem Session.Waiting.misuse_of_raising
    {e : HandleError} :
    ∀ {s : Session}, s.Waiting → s.control = .raising e →
      ∃ s', Relation.ReflTransGen Session.Step s s' ∧ s'.misused = true := by
  intro s
  -- by induction on the stack: each turn leaves one read
  generalize hstack : s.reads = reads
  induction reads generalizing s with
  | nil =>
      rintro ⟨frame, hmem, -⟩ -
      rw [hstack] at hmem
      cases hmem
  | cons top rest ih =>
      rintro ⟨frame, hmem, hunnamed, hclosed⟩ hcontrol
      rw [hstack, List.mem_cons] at hmem
      rcases hmem with rfl | hmem
      · have hcaught := Relation.ReflTransGen.single (Session.Step.caught hcontrol)
        have hback := hcaught.tail (.returned rfl (by simp [hstack]))
        exact ⟨_, hback.tail (.named rfl hstack hunnamed),
          Session.misused_nameColumn hstack hclosed⟩
      · obtain ⟨hreads, hraising, hreader⟩ := Session.leave_reads hstack e
        have hwaiting : (s.leave e).Waiting :=
          ⟨frame, hreads ▸ hmem, hunnamed, hreader ▸ hclosed⟩
        obtain ⟨s', hsteps, hmisused⟩ := ih hreads hwaiting hraising
        exact ⟨s', hsteps.head (.unwound hcontrol), hmisused⟩

theorem Session.Waiting.misuse_of_running
    (hwaiting : s.Waiting)
    (hcontrol : s.control = .running) :
    ∃ s', Relation.ReflTransGen Session.Step s s' ∧ s'.misused = true := by
  have hfailed : (s.raise (.raised "")).Waiting := hwaiting
  obtain ⟨s', hsteps, hmisused⟩ := hfailed.misuse_of_raising rfl
  exact ⟨s', hsteps.head (.failed "" hcontrol), hmisused⟩

/-- From every state with such a read, a misuse is some steps away. -/
theorem Session.Waiting.misuse
    (hwaiting : s.Waiting) :
    ∃ s', Relation.ReflTransGen Session.Step s s' ∧ s'.misused = true := by
  cases hcontrol : s.control with
  | running =>
      exact hwaiting.misuse_of_running hcontrol
  | raising e =>
      exact hwaiting.misuse_of_raising hcontrol
  | native =>
      obtain ⟨frame, hmem, hunnamed, hclosed⟩ := hwaiting
      cases hstack : s.reads with
      | nil =>
          rw [hstack] at hmem
          cases hmem
      | cons top rest =>
          rw [hstack] at hmem
          rcases List.mem_cons.mp hmem with rfl | hbelow
          · exact ⟨_, .single (.named hcontrol hstack hunnamed),
              Session.misused_nameColumn hstack hclosed⟩
          · -- the innermost read gives control to R code, whatever it is at
            have hgives : ∃ s₁, s.Step s₁ ∧ s₁.control = .running ∧
                frame ∈ s₁.reads ∧ s₁.reader = s.reader := by
              cases hphase : top.phase with
              | body =>
                  exact ⟨_, .callback hcontrol hstack hphase, rfl,
                    hstack ▸ hmem, rfl⟩
              | warning unnamed =>
                  cases unnamed with
                  | nil =>
                      exact ⟨_, .readReturned hcontrol hstack hphase, rfl, hbelow, rfl⟩
                  | cons w more =>
                      refine ⟨_, .named hcontrol hstack ?_, ?_, ?_, ?_⟩
                      · simp [ReadFrame.unnamed, hphase]
                      · simp [Session.nameColumn, hstack]
                      · simp [Session.nameColumn, hstack, hbelow]
                      · simp [Session.nameColumn, hstack, Session.useReader]
            obtain ⟨s₁, hstep, hrunning, hmem₁, hreader⟩ := hgives
            have hwaiting₁ : s₁.Waiting := ⟨frame, hmem₁, hunnamed, hreader ▸ hclosed⟩
            obtain ⟨s', hsteps, hmisused⟩ := hwaiting₁.misuse_of_running hrunning
            exact ⟨s', hsteps.head hstep, hmisused⟩

end Misuse

section Closing

/-- A handle that was opened and then closed. -/
def Session.IsClosed (s : Session) (h : Nat) : Prop :=
  h < s.opened ∧ s.pointer h = none

variable {s s' : Session} {h : Nat}

/-- A call leaves the handles it is not about alone, apart from a new one. -/
theorem Session.IsClosed.call
    (hclosed : s.IsClosed h) (c : Call) :
    (s.call c).IsClosed h := by
  obtain ⟨hlt, hnone⟩ := hclosed
  cases c with
  | openParquet failure =>
      cases failure with
      | some text =>
          exact ⟨hlt, hnone⟩
      | none =>
          refine ⟨Nat.lt_succ_of_lt hlt, ?_⟩
          exact (Function.update_of_ne (Nat.ne_of_lt hlt) _ _).trans hnone
  | isOpen h' =>
      exact ⟨hlt, hnone⟩
  | closeParquet h' =>
      simp only [Session.call, Session.closeParquet]
      split
      · exact ⟨hlt, hnone⟩
      · split_ifs
        · exact ⟨hlt, hnone⟩
        · refine ⟨hlt, ?_⟩
          by_cases heq : h = h'
          · subst heq
            exact Function.update_self _ _ _
          · exact (Function.update_of_ne heq _ _).trans hnone
  | metadata h' failure =>
      simp only [Session.call, Session.metadata]
      split
      · exact ⟨hlt, hnone⟩
      · cases failure <;> exact ⟨hlt, hnone⟩
  | collect h' selection | walkBatches h' selection =>
      simp only [Session.call, Session.startRead]
      split
      · exact ⟨hlt, hnone⟩
      · rename_i hpointer
        have hne : h ≠ h' := by
          rintro rfl
          rw [hnone] at hpointer
          cases hpointer
        split_ifs
        · exact ⟨hlt, hnone⟩
        · cases selection with
          | error text =>
              exact ⟨hlt, hnone⟩
          | ok columns =>
              exact ⟨hlt, (Function.update_of_ne hne _ _).trans hnone⟩

/-- The cleanup of a read clears the mark of a struct that lives. -/
theorem Session.IsClosed.cleanup
    (hclosed : s.IsClosed h) (frame : ReadFrame) :
    (s.cleanup frame).IsClosed h := by
  unfold Session.cleanup
  split
  · rename_i hpointer
    have hne : h ≠ frame.handle := by
      rintro rfl
      rw [hclosed.2] at hpointer
      cases hpointer
    exact ⟨hclosed.1, (Function.update_of_ne hne _ _).trans hclosed.2⟩
  · exact hclosed

theorem Session.IsClosed.leave
    (hclosed : s.IsClosed h) (e : HandleError) :
    (s.leave e).IsClosed h := by
  unfold Session.leave
  split
  · exact hclosed
  · split
    · exact hclosed.cleanup _
    · exact hclosed

/-- A closed handle stays closed. -/
theorem Session.IsClosed.step
    (hclosed : s.IsClosed h)
    (hstep : s.Step s') :
    s'.IsClosed h := by
  cases hstep with
  | call c _ =>
      exact hclosed.call c
  | failed _ _ | decode _ _ _ _ _ | callback _ _ _ | returned _ _ | caught _
  | readReturned _ _ _ =>
      exact hclosed
  | bodyRaised _ _ _ _ | unwound _ =>
      exact hclosed.leave _
  | bodyReturned _ hreads _ =>
      simp only [Session.endBody, hreads]
      exact hclosed.cleanup _
  | named _ hreads _ =>
      simp only [Session.nameColumn, hreads]
      exact hclosed

theorem Session.IsClosed.steps
    (hclosed : s.IsClosed h)
    (hsteps : Relation.ReflTransGen Session.Step s s') :
    s'.IsClosed h := by
  induction hsteps with
  | refl =>
      exact hclosed
  | tail _ hstep ih =>
      exact ih.step hstep

theorem Session.Sound.refused
    (hs : s.Sound)
    (hread : h ∈ s.beingRead) :
    s.closeParquet h = s.raise .closeDuringRead ∧
      ∀ kind selection, s.startRead kind h selection = s.raise .activeRead := by
  have hpointer := (hs.busy_iff h).mpr hread
  simp [Session.closeParquet, Session.startRead, hpointer]

theorem Session.closeParquet_idempotent
    (s : Session) (h : Nat) :
    (s.closeParquet h).closeParquet h = s.closeParquet h := by
  cases hpointer : s.pointer h with
  | none =>
      simp only [Session.closeParquet, hpointer]
  | some memory =>
      obtain ⟨busy⟩ := memory
      cases busy <;>
      simp [Session.closeParquet, hpointer, Session.finalize, Session.raise]

theorem Session.Sound.closed_of_close
    (hs : s.Sound)
    (hlt : h < s.opened)
    (hidle : h ∉ s.beingRead) :
    (s.closeParquet h).IsClosed h := by
  cases hpointer : s.pointer h with
  | none =>
      simpa only [Session.closeParquet, hpointer] using ⟨hlt, hpointer⟩
  | some memory =>
      obtain ⟨busy⟩ := memory
      cases busy with
      | true =>
          exact absurd ((hs.busy_iff h).mp hpointer) hidle
      | false =>
          simp [Session.closeParquet, hpointer, Session.finalize,
            Session.IsClosed, hlt]

theorem Session.IsClosed.refuses
    (hclosed : s.IsClosed h) :
    s.closeParquet h = s ∧
      (∀ failure, s.metadata h failure = s.raise .closedHandle) ∧
      ∀ kind selection, s.startRead kind h selection = s.raise .closedHandle := by
  simp [Session.closeParquet, Session.metadata, Session.startRead, hclosed.2]

/-- The innermost body ends, by returning or by an error: its handle is marked no
longer, and what is below it is left as it was. -/
theorem Session.Sound.body_ended
    {frame : ReadFrame} {rest : List ReadFrame}
    (hs : s.Sound)
    (hreads : s.reads = frame :: rest)
    (hbody : frame.phase = .body) :
    (s.endBody.pointer frame.handle = some ⟨false⟩ ∧
        s.endBody.beingRead = bodyHandles rest) ∧
      ∀ e, (s.leave e).pointer frame.handle = some ⟨false⟩ ∧ (s.leave e).reads = rest := by
  refine ⟨?_, fun e => ?_⟩
  · rw [hs.endBody_eq hreads hbody]
    exact ⟨Function.update_self _ _ _, bodyHandles_warning (by simp) rest⟩
  · rw [hs.leave_eq hreads hbody]
    exact ⟨Function.update_self _ _ _, rfl⟩

/-- Handles cannot be misused through re-entry, as long as no handler closes a
handle while a flagged column of it is still to be named. In every state of such a
session: no closed reader and no freed handle has been used; a handle is read at
most once at a time; it is busy exactly while it is being read, and no longer
when the body has ended, in whatever way; closing it or reading it meanwhile is
refused and changes nothing; closing twice is closing once; and once a handle is
closed it stays closed, and refuses every call that needs the reader. The
condition is needed: a step against it leads to a misuse. -/
theorem handle_reentry_safe
    (hs : s.ReachableAttended) :
    s.misused = false ∧
      (∀ h, s.beingRead.count h ≤ 1) ∧
      (∀ h memory, s.pointer h = some memory →
        (memory.busy = true ↔ h ∈ s.beingRead)) ∧
      (∀ frame rest, s.reads = frame :: rest → frame.phase = .body →
        (s.endBody.pointer frame.handle = some ⟨false⟩ ∧
            s.endBody.beingRead = bodyHandles rest) ∧
          ∀ e, (s.leave e).pointer frame.handle = some ⟨false⟩ ∧
            (s.leave e).reads = rest) ∧
      (∀ h ∈ s.beingRead,
        s.closeParquet h = s.raise .closeDuringRead ∧
          ∀ kind selection, s.startRead kind h selection = s.raise .activeRead) ∧
      (∀ h, (s.closeParquet h).closeParquet h = s.closeParquet h) ∧
      (∀ h, h < s.opened → h ∉ s.beingRead → (s.closeParquet h).IsClosed h) ∧
      (∀ h, s.IsClosed h → ∀ s', Relation.ReflTransGen Session.Step s s' →
        s'.closeParquet h = s' ∧
          (∀ failure, s'.metadata h failure = s'.raise .closedHandle) ∧
          ∀ kind selection,
            s'.startRead kind h selection = s'.raise .closedHandle) ∧
      (∀ s', s.Step s' → ¬ s'.Attended →
        ∃ t, Relation.ReflTransGen Session.Step s' t ∧ t.misused = true) := by
  have hsound := hs.reachable.sound
  refine ⟨hs.unharmed, ?_, ?_, fun frame rest => hsound.body_ended,
    fun h => hsound.refused, s.closeParquet_idempotent,
    fun h => hsound.closed_of_close, ?_, ?_⟩
  · exact List.nodup_iff_count_le_one.mp hsound.distinct
  · rintro h ⟨busy⟩ hpointer
    rw [← hsound.busy_iff, hpointer]
    simp
  · intro h hclosed s' hsteps
    exact (hclosed.steps hsteps).refuses
  · intro s' hstep hunattended
    exact ((hsound.step hstep).waiting_of_not_attended hunattended).misuse

/-- A walk of two columns on handle 0 that has lost a value of each, in its
callback. -/
def callbackSession : Session :=
  { (Session.init.openParquet none).startRead .walk 0 (.ok 2) with
    reads := [⟨.walk, 0, [⟨true, false⟩, ⟨false, true⟩], .body⟩]
    control := .running }

/-- The same walk, with its body returned and the first column named. -/
def handlerSession : Session :=
  { callbackSession with
    pointer := Function.update callbackSession.pointer 0 (some ⟨false⟩)
    reads := [⟨.walk, 0, [⟨true, false⟩, ⟨false, true⟩], .warning [(.int64Coerced, 1)]⟩] }

/-- A session of one open handle that is read meets the condition. -/
theorem Session.attended_of_open
    (frame : ReadFrame)
    (hreads : s.reads = [] ∨ s.reads = [frame])
    (hopen : (s.pointer frame.handle).isSome = true) :
    s.Attended := by
  intro other hmem _
  rcases hreads with hreads | hreads
  · rw [hreads] at hmem
    cases hmem
  · rw [hreads, List.mem_singleton] at hmem
    rw [hmem]
    exact hopen

theorem callbackSession_reachable :
    callbackSession.ReachableAttended := by
  have hopened : Session.ReachableAttended (Session.init.openParquet none) :=
    .single ⟨.call (.openParquet none) rfl,
      Session.attended_of_open ⟨.walk, 0, [], .body⟩ (.inl rfl) rfl⟩
  have hattended : ∀ flags control,
      ({ callbackSession with
          reads := [⟨.walk, 0, flags, .body⟩]
          control := control } : Session).Attended :=
    fun flags _ => Session.attended_of_open
      ⟨.walk, 0, flags, .body⟩ (.inr rfl) rfl
  have hread := hopened.tail ⟨.call (.walkBatches 0 (.ok 2)) rfl, hattended _ _⟩
  have hfirst := hread.tail ⟨.decode 0 ⟨true, false⟩ rfl rfl rfl, hattended _ _⟩
  have hsecond := hfirst.tail ⟨.decode 1 ⟨false, true⟩ rfl rfl rfl, hattended _ _⟩
  exact hsecond.tail ⟨.callback rfl rfl rfl, hattended _ _⟩

theorem handlerSession_reachable :
    handlerSession.ReachableAttended := by
  have hattended : ∀ phase control,
      ({ handlerSession with
          reads := [⟨.walk, 0, [⟨true, false⟩, ⟨false, true⟩], phase⟩]
          control := control } : Session).Attended :=
    fun phase _ => Session.attended_of_open
      ⟨.walk, 0, [⟨true, false⟩, ⟨false, true⟩], phase⟩ (.inr rfl) rfl
  have hnative : Session.ReachableAttended { callbackSession with control := .native } :=
    callbackSession_reachable.tail ⟨.returned rfl (by simp [callbackSession]),
      Session.attended_of_open
        ⟨.walk, 0, [⟨true, false⟩, ⟨false, true⟩], .body⟩ (.inr rfl) rfl⟩
  have hended := hnative.tail ⟨.bodyReturned rfl rfl rfl, hattended _ _⟩
  exact hended.tail ⟨.named rfl rfl (by simp [ReadFrame.unnamed, flaggedColumns,
    Flags.warns]), hattended _ _⟩

theorem handle_reentry_safe_callback :
    callbackSession.ReachableAttended ∧
      callbackSession.beingRead = [0] ∧
      callbackSession.call (.closeParquet 0) =
        callbackSession.raise .closeDuringRead ∧
      callbackSession.call (.collect 0 (.ok 1)) =
        callbackSession.raise .activeRead ∧
      handlerSession.ReachableAttended ∧
      handlerSession.misused = false ∧
      handlerSession.beingRead = [] := by
  obtain ⟨-, -, -, -, hrefused, -⟩ := handle_reentry_safe callbackSession_reachable
  obtain ⟨hclose, hcollect⟩ := hrefused 0 List.mem_cons_self
  exact ⟨callbackSession_reachable, rfl, hclose, hcollect .collect (.ok 1),
    handlerSession_reachable, (handle_reentry_safe handlerSession_reachable).1, rfl⟩

/-- The handler of the first warning closes the handle and returns; the name of the
second column is then asked of a reader that is gone. -/
theorem handle_closed_by_handler :
    handlerSession.Reachable ∧
      Relation.ReflTransGen Session.Step handlerSession
        ({ handlerSession.call (.closeParquet 0) with control := .native }).nameColumn ∧
      ({ handlerSession.call (.closeParquet 0) with
        control := .native }).nameColumn.misused = true := by
  have hclosed := Relation.ReflTransGen.single
    (Session.Step.call (s := handlerSession) (.closeParquet 0) rfl)
  have hnative := hclosed.tail (.returned rfl (List.cons_ne_nil _ _))
  exact ⟨handlerSession_reachable.reachable,
    hnative.tail (.named rfl rfl (List.cons_ne_nil _ _)), rfl⟩

end Closing

end Read
end QioParquet
