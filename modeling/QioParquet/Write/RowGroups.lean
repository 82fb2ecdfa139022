import QioParquet.Write.Writer
import QioParquet.Write.RoundTrip
import Mathlib.Tactic

/-!
# The row groups that were asked for

What a run of batches leaves in the writer has a closed form as long as nothing is
flushed. The automatic flush asks for all columns to stand at the same row. With
two columns or more that is so only at the end of a row group; with one column it
is so after every batch, and only the estimated size keeps the group together.
-/

namespace QioParquet
namespace Write

open Lib Read Plan

section Estimates

/-- Adding with saturation is adding, and cutting off. -/
theorem saturatingAdd_min
    {rhs : Nat}
    (lhs : Nat)
    (hpos : 0 < rhs) :
    saturatingAdd (min lhs int64Max) rhs = min (lhs + rhs) int64Max := by
  unfold saturatingAdd
  split_ifs <;> omega

theorem foldl_saturatingAdd
    (start : Nat)
    {xs : List Nat}
    (hpos : ∀ x ∈ xs, 0 < x) :
    xs.foldl saturatingAdd (min start int64Max) =
      min (start + xs.sum) int64Max := by
  induction xs generalizing start with
  | nil =>
      simp
  | cons x xs ih =>
      rw [List.forall_mem_cons] at hpos
      rw [List.foldl_cons, saturatingAdd_min start hpos.1, ih _ hpos.2,
        List.sum_cons, Nat.add_assoc]

theorem saturatingAdd_pos
    (lhs rhs : Nat) :
    0 < saturatingAdd lhs rhs := by
  have : 0 < int64Max := by simp [int64Max]
  unfold saturatingAdd
  split_ifs <;> omega

/-- A batch with rows has a size. -/
theorem estimateColumnBatchBytes_pos
    (s : WriteSpec) {b : Batch}
    (hcount : 0 < b.count) :
    0 < estimateColumnBatchBytes s b := by
  have hmax : 0 < int64Max := by simp [int64Max]
  have hvalues : 0 < estimateValues s.type.physical b := by
    cases s.type <;> simp only [WriteType.physical, estimateValues]
    case string =>
      split_ifs
      · exact hmax
      · exact saturatingAdd_pos _ _
    all_goals omega
  unfold estimateColumnBatchBytes
  split_ifs
  · omega
  · exact saturatingAdd_pos _ _
  · exact hvalues

end Estimates

section ClosedForm

/-- The batches of some calls for column `i`. -/
def callsFor (i : Nat) (calls : List Call) : List Batch :=
  (calls.filter fun call => call.1 == i).map Prod.snd

def callCount (i : Nat) (calls : List Call) : Nat :=
  ((callsFor i calls).map Batch.count).sum

def callRows (i : Nat) (calls : List Call) : List Row :=
  (callsFor i calls).flatMap Batch.rows

theorem callsFor_append
    (i : Nat) (calls calls' : List Call) :
    callsFor i (calls ++ calls') = callsFor i calls ++ callsFor i calls' := by
  simp [callsFor]

theorem callCount_append
    (i : Nat) (calls calls' : List Call) :
    callCount i (calls ++ calls') = callCount i calls + callCount i calls' := by
  simp [callCount, callsFor_append]

theorem callRows_append
    (i : Nat) (calls calls' : List Call) :
    callRows i (calls ++ calls') = callRows i calls ++ callRows i calls' := by
  simp [callRows, callsFor_append]

theorem callsFor_singleton
    (i : Nat) (call : Call) :
    callsFor i [call] = if call.1 = i then [call.2] else [] := by
  by_cases h : call.1 = i <;> simp [callsFor, h]

theorem callCount_eq_zero
    {i : Nat} {calls : List Call}
    (h : ∀ call ∈ calls, call.1 ≠ i) :
    callCount i calls = 0 := by
  have hnone : callsFor i calls = [] := by
    simpa [callsFor] using h
  simp [callCount, hnone]

theorem callCount_of_all
    {i : Nat} {calls : List Call}
    (h : ∀ call ∈ calls, call.1 = i) :
    callCount i calls = (calls.map fun call => call.2.count).sum := by
  have hall : calls.filter (fun call => call.1 == i) = calls := by
    rw [List.filter_eq_self]
    simpa using h
  rw [callCount, callsFor, hall, List.map_map]
  rfl

/-- The columns a writer has. -/
def Writer.specs (w : Writer) : List WriteSpec :=
  w.columns.map WriterColumn.spec

/-- The size of a call, from the columns of the file. -/
def callBytes (specs : List WriteSpec) (call : Call) : Nat :=
  match specs[call.1]? with
  | some s => estimateColumnBatchBytes s call.2
  | none => 0

theorem Writer.estimate_eq
    (w : Writer) (call : Call) :
    w.estimate call = callBytes w.specs call := by
  simp only [Writer.estimate, callBytes, Writer.specs, List.getElem?_map]
  cases w.columns[call.1]? <;> rfl

/-- Column `i` after some calls. -/
def WriterColumn.after
    (column : WriterColumn) (calls : List Call) (i : Nat) : WriterColumn :=
  ⟨column.spec, column.rows ++ callRows i calls,
    column.valuesWritten + callCount i calls⟩

theorem WriterColumn.after_nil
    (i : Nat) (column : WriterColumn) :
    column.after [] i = column := by
  simp [WriterColumn.after, callRows, callCount, callsFor]

theorem WriterColumn.after_concat
    (calls : List Call) (call : Call) (i : Nat) (column : WriterColumn) :
    column.after (calls ++ [call]) i =
      if i = call.1 then (column.after calls i).add call.2
      else column.after calls i := by
  simp only [WriterColumn.after, WriterColumn.add, callRows_append,
    callCount_append]
  by_cases h : i = call.1
  · simp [h, callRows, callCount, callsFor_singleton, Nat.add_assoc]
  · simp [h, Ne.symm h, callRows, callCount, callsFor_singleton]

/-- The specs of a writer survive. -/
theorem map_spec_mapIdx_after
    (calls : List Call) (columns : List WriterColumn) :
    (columns.mapIdx fun i column => column.after calls i).map
        WriterColumn.spec = columns.map WriterColumn.spec := by
  apply List.ext_getElem
  · simp
  · intro i _ _
    simp [WriterColumn.after]

/-- What some calls leave in a writer that does not flush. -/
theorem foldl_record
    (w : Writer) (calls : List Call) :
    calls.foldl Writer.record w =
      ⟨w.columns.mapIdx fun i column => column.after calls i,
        w.currentRows + callCount 0 calls,
        (calls.map (callBytes w.specs)).foldl saturatingAdd w.estimatedBytes,
        w.rowGroups⟩ := by
  induction calls using List.reverseRecOn with
  | nil =>
      have hcolumns : (w.columns.mapIdx fun i column => column.after [] i) =
          w.columns := by
        apply List.ext_getElem
        · simp
        · intro i _ _
          simp [WriterColumn.after_nil]
      rw [hcolumns]
      rfl
  | append_singleton calls call ih =>
      rw [List.foldl_concat, ih]
      simp only [Writer.record, Writer.estimate_eq, Writer.specs,
        map_spec_mapIdx_after, List.map_append, List.foldl_append,
        List.mapIdx_mapIdx, Writer.mk.injEq, WriterColumn.after_concat,
        callCount_append]
      refine ⟨rfl, ?_, rfl, trivial⟩
      by_cases h : call.1 = 0
      · simp [h, callCount, callsFor_singleton, Nat.add_assoc]
      · simp [h, callCount, callsFor_singleton]

/-- The writer at the start of a row group, after the given ones. -/
def Writer.atStart (specs : List WriteSpec) (groups : List WrittenGroup) :
    Writer :=
  ⟨specs.map fun s => ⟨s, [], 0⟩, 0, 0, groups⟩

@[simp] theorem Writer.specs_atStart
    (specs : List WriteSpec) (groups : List WrittenGroup) :
    (Writer.atStart specs groups).specs = specs := by
  simp [Writer.specs, Writer.atStart, Function.comp_def]

/-- What some calls leave in a row group that does not flush. -/
theorem foldl_record_atStart
    (specs : List WriteSpec) (groups : List WrittenGroup)
    {calls : List Call}
    (hpos : ∀ call ∈ calls, 0 < callBytes specs call) :
    calls.foldl Writer.record (Writer.atStart specs groups) =
      ⟨specs.mapIdx fun i s => ⟨s, callRows i calls, callCount i calls⟩,
        callCount 0 calls,
        min (calls.map (callBytes specs)).sum int64Max, groups⟩ := by
  have hbytes := foldl_saturatingAdd 0 (List.forall_mem_map.mpr hpos)
  rw [Nat.zero_min, Nat.zero_add] at hbytes
  rw [foldl_record, Writer.specs_atStart]
  simp only [Writer.atStart, Writer.mk.injEq, hbytes, Nat.zero_add, and_true]
  apply List.ext_getElem
  · simp
  · intro i _ _
    simp [WriterColumn.after]

/-- Flushing it gives a row group, and a new start. -/
theorem flushRowGroup_foldl_record
    (specs : List WriteSpec) (groups : List WrittenGroup)
    {calls : List Call}
    (hpos : ∀ call ∈ calls, 0 < callBytes specs call)
    (hrows : 0 < callCount 0 calls) :
    (calls.foldl Writer.record (Writer.atStart specs groups)).flushRowGroup =
      Writer.atStart specs (groups ++ [⟨callCount 0 calls,
        specs.mapIdx fun i _ => callRows i calls⟩]) := by
  rw [foldl_record_atStart specs groups hpos, Writer.flushRowGroup,
    if_neg (by simp only; omega)]
  simp only [Writer.atStart, Writer.mk.injEq, true_and, List.append_cancel_left_eq,
    List.cons.injEq, WrittenGroup.mk.injEq, and_true]
  constructor
  · apply List.ext_getElem
    · simp
    · intro i _ _
      simp [WriterColumn.reset]
  · apply List.ext_getElem
    · simp
    · intro i _ _
      simp

theorem Writer.flushRowGroup_idem
    (w : Writer) :
    w.flushRowGroup.flushRowGroup = w.flushRowGroup := by
  by_cases h : w.currentRows = 0
  · simp [Writer.flushRowGroup, h]
  · simp [Writer.flushRowGroup, h]

/-- Row groups are only added. -/
theorem Writer.flushRowGroup_grows
    (w : Writer) :
    w.rowGroups <+: w.flushRowGroup.rowGroups := by
  unfold Writer.flushRowGroup
  split_ifs
  · exact List.prefix_rfl
  · exact List.prefix_append _ _

theorem Writer.push_grows
    (w : Writer) (call : Call) :
    w.rowGroups <+: (w.push call).rowGroups := by
  unfold Writer.push pushItem
  split_ifs
  · exact (w.record call).flushRowGroup_grows
  · exact List.prefix_rfl

theorem foldl_push_grows
    (w : Writer) (calls : List Call) :
    w.rowGroups <+: (calls.foldl Writer.push w).rowGroups := by
  induction calls generalizing w with
  | nil =>
      exact List.prefix_rfl
  | cons call calls ih =>
      exact (w.push_grows call).trans (ih _)

end ClosedForm

section Groups

/-- A column whose elements have been packed. A column that may not have missing
rows has none. -/
structure PackedColumn where
  spec : WriteSpec
  slots : List (Option (PhysValue Bytes))
  present : spec.nullable = true ∨ slots.all Option.isSome = true

def PackedColumn.batch (p : PackedColumn) (slice : Nat × Nat) : Batch :=
  sliceBatch p.spec.nullable p.slots slice

/-- The rows of the column from `start` on. -/
def PackedColumn.rowsFrom (p : PackedColumn) (start count : Nat) : List Row :=
  ((p.slots.map slotRow).drop start).take count

/-- The calls for one column in one row group. -/
def columnCalls
    (nrow : Nat) (group : Nat × Nat) (entry : PackedColumn × Nat) :
    List Call :=
  (slices (chunkRows nrow) group.1 group.2).map fun slice =>
    (entry.2, entry.1.batch slice)

/-- The calls for one row group, of columns from index `first` on. -/
def groupCalls
    (packed : List PackedColumn) (first nrow : Nat) (group : Nat × Nat) :
    List Call :=
  (packed.zipIdx first).flatMap (columnCalls nrow group)

variable {nrow : Nat} {group : Nat × Nat}

theorem callsFor_columnCalls
    (i : Nat) (p : PackedColumn) (c : Nat) :
    callsFor i (columnCalls nrow group (p, c)) =
      if c = i then (slices (chunkRows nrow) group.1 group.2).map p.batch
      else [] := by
  by_cases h : c = i
  · simp [callsFor, columnCalls, h, List.filter_map, Function.comp_def]
  · simp [callsFor, columnCalls, h, List.filter_map, Function.comp_def]

theorem callsFor_groupCalls_of_lt
    {i first : Nat}
    (packed : List PackedColumn)
    (hlt : i < first) :
    callsFor i (groupCalls packed first nrow group) = [] := by
  induction packed generalizing first with
  | nil =>
      rfl
  | cons p packed ih =>
      have hrest : callsFor i (groupCalls packed (first + 1) nrow group) = [] :=
        ih (by omega)
      rw [groupCalls] at hrest
      rw [groupCalls, List.zipIdx_cons, List.flatMap_cons, callsFor_append,
        callsFor_columnCalls, if_neg (by omega), hrest]
      rfl

/-- The calls for a column are its batches. -/
theorem callsFor_groupCalls
    (i first : Nat) (packed : List PackedColumn) :
    callsFor (first + i) (groupCalls packed first nrow group) =
      match packed[i]? with
      | some p => (slices (chunkRows nrow) group.1 group.2).map p.batch
      | none => [] := by
  induction packed generalizing i first with
  | nil =>
      rfl
  | cons p packed ih =>
      rw [groupCalls, List.zipIdx_cons, List.flatMap_cons, callsFor_append,
        callsFor_columnCalls, ← groupCalls]
      cases i with
      | zero =>
          rw [Nat.add_zero, if_pos rfl,
            callsFor_groupCalls_of_lt packed (by omega), List.append_nil]
          rfl
      | succ i =>
          rw [if_neg (by omega), List.nil_append, Nat.add_comm i 1,
            ← Nat.add_assoc, ih i (first + 1), Nat.add_comm 1 i,
            List.getElem?_cons_succ]

theorem chunkRows_pos
    (nrow : Nat) :
    0 < chunkRows nrow := by
  simp [chunkRows]

/-- Every column is given all rows of the group. -/
theorem callCount_groupCalls
    {packed : List PackedColumn} {i : Nat} {p : PackedColumn}
    (hp : packed[i]? = some p) :
    callCount i (groupCalls packed 0 nrow group) = group.2 := by
  have hcalls := @callsFor_groupCalls nrow group i 0 packed
  rw [Nat.zero_add, hp] at hcalls
  rw [callCount, hcalls, List.map_map]
  exact sum_slices (chunkRows_pos nrow) group.1 group.2

theorem callRows_groupCalls
    {packed : List PackedColumn} {i : Nat} {p : PackedColumn}
    (hp : packed[i]? = some p) :
    callRows i (groupCalls packed 0 nrow group) =
      p.rowsFrom group.1 group.2 := by
  have hcalls := @callsFor_groupCalls nrow group i 0 packed
  rw [Nat.zero_add, hp] at hcalls
  rw [callRows, hcalls, List.flatMap_map]
  simp only [PackedColumn.batch, rows_sliceBatch p.present]
  exact flatMap_slices (chunkRows_pos nrow) _ group.1 group.2

/-- Every call is about a column, and has rows. -/
theorem mem_groupCalls
    {packed : List PackedColumn} {call : Call}
    (hcall : call ∈ groupCalls packed 0 nrow group) :
    ∃ p, packed[call.1]? = some p ∧ 0 < call.2.count := by
  obtain ⟨⟨p, c⟩, hp, hmem⟩ := List.mem_flatMap.mp hcall
  obtain ⟨slice, hslice, rfl⟩ := List.mem_map.mp hmem
  exact ⟨p, List.mk_mem_zipIdx_iff_getElem?.mp hp,
    (mem_slices (chunkRows_pos nrow) hslice).2.2.1⟩

theorem callBytes_pos
    {packed : List PackedColumn} {call : Call}
    (hcall : call ∈ groupCalls packed 0 nrow group) :
    0 < callBytes (packed.map PackedColumn.spec) call := by
  obtain ⟨p, hp, hcount⟩ := mem_groupCalls hcall
  rw [callBytes, List.getElem?_map, hp]
  exact estimateColumnBatchBytes_pos p.spec hcount

end Groups

section Flushing

variable {packed : List PackedColumn} {nrow : Nat} {group : Nat × Nat}

/-- Part of a list of positive numbers adds up to less. -/
theorem sum_take_lt
    {xs : List Nat} {k : Nat}
    (hpos : ∀ x ∈ xs, 0 < x)
    (hk : k < xs.length) :
    (xs.take k).sum < xs.sum := by
  have hsplit := List.sum_take_add_sum_drop xs k
  have hdrop : 0 < (xs.drop k).sum := by
    rw [List.drop_eq_getElem_cons hk, List.sum_cons]
    have := hpos _ (List.getElem_mem hk)
    omega
  omega

/-- The columns of a packed frame. -/
abbrev packedSpecs (packed : List PackedColumn) : List WriteSpec :=
  packed.map PackedColumn.spec

/-- The state after the first calls of a group, if nothing has been flushed. -/
theorem foldl_record_groupCalls
    (groups : List WrittenGroup) (k : Nat) :
    ((groupCalls packed 0 nrow group).take k).foldl Writer.record
        (Writer.atStart (packedSpecs packed) groups) =
      ⟨(packedSpecs packed).mapIdx fun i s =>
          ⟨s, callRows i ((groupCalls packed 0 nrow group).take k),
            callCount i ((groupCalls packed 0 nrow group).take k)⟩,
        callCount 0 ((groupCalls packed 0 nrow group).take k),
        min (((groupCalls packed 0 nrow group).take k).map
          (callBytes (packedSpecs packed))).sum int64Max, groups⟩ :=
  foldl_record_atStart _ groups fun _ hcall =>
    callBytes_pos (List.take_subset _ _ hcall)

/-- Columns at the same row have been given the same number of values. -/
theorem callCount_eq_of_isAligned
    {groups : List WrittenGroup} {k i : Nat}
    (h : (((groupCalls packed 0 nrow group).take k).foldl Writer.record
      (Writer.atStart (packedSpecs packed) groups)).isAligned = true)
    (hi : i < packed.length) :
    0 < callCount 0 ((groupCalls packed 0 nrow group).take k) ∧
      callCount i ((groupCalls packed 0 nrow group).take k) =
        callCount 0 ((groupCalls packed 0 nrow group).take k) := by
  rw [foldl_record_groupCalls] at h
  simp only [Writer.isAligned, Bool.and_eq_true, decide_eq_true_eq,
    List.all_eq_true, beq_iff_eq] at h
  refine ⟨h.1, ?_⟩
  have hmem := List.getElem_mem (l := (packedSpecs packed).mapIdx fun i s =>
    (⟨s, callRows i ((groupCalls packed 0 nrow group).take k),
      callCount i ((groupCalls packed 0 nrow group).take k)⟩ : WriterColumn))
    (n := i) (by simpa using hi)
  have hcolumn := h.2 _ hmem
  simpa using hcolumn

/-- Part of the calls for a column. -/
theorem callCount_take_columnCalls
    {p : PackedColumn} {c m : Nat}
    (hm : m < (columnCalls nrow group (p, c)).length) :
    callCount c ((columnCalls nrow group (p, c)).take m) < group.2 := by
  have hmem : ∀ call ∈ columnCalls nrow group (p, c),
      call.1 = c ∧ 0 < call.2.count := by
    intro call hcall
    obtain ⟨slice, hslice, rfl⟩ := List.mem_map.mp hcall
    exact ⟨rfl, (mem_slices (chunkRows_pos nrow) hslice).2.2.1⟩
  have hsum : ((columnCalls nrow group (p, c)).map
      fun call => call.2.count).sum = group.2 := by
    rw [columnCalls, List.map_map]
    exact sum_slices (chunkRows_pos nrow) group.1 group.2
  rw [callCount_of_all fun call hcall =>
    (hmem call (List.take_subset _ _ hcall)).1, List.map_take]
  rw [← hsum]
  refine sum_take_lt (List.forall_mem_map.mpr fun call hcall =>
    (hmem call hcall).2) ?_
  rwa [List.length_map]

/-- With two columns or more, the columns stand at the same row only at the end
of a group. The last column decides: before its turn it has been given nothing,
and during its turn the first one has been given everything. -/
theorem not_isAligned_of_two
    (htwo : 2 ≤ packed.length)
    {k : Nat}
    (hk : k < (groupCalls packed 0 nrow group).length)
    (groups : List WrittenGroup) :
    (((groupCalls packed 0 nrow group).take k).foldl Writer.record
      (Writer.atStart (packedSpecs packed) groups)).isAligned = false := by
  by_contra haligned
  rw [Bool.not_eq_false] at haligned
  obtain ⟨init, p, rfl⟩ : ∃ init p, packed = init ++ [p] := by
    rcases List.eq_nil_or_concat packed with rfl | ⟨init, p, hp⟩
    · simp at htwo
    · exact ⟨init, p, by simpa using hp⟩
  have hinit : 0 < init.length := by
    rw [List.length_append, List.length_singleton] at htwo
    omega
  obtain ⟨hpos, hsame⟩ := @callCount_eq_of_isAligned _ _ _ _ _ init.length
    haligned (by simp)
  have hsplit : groupCalls (init ++ [p]) 0 nrow group =
      groupCalls init 0 nrow group ++
        columnCalls nrow group (p, init.length) := by
    simp [groupCalls, List.zipIdx_append]
  have hbefore : callCount init.length
      ((groupCalls init 0 nrow group).take k) = 0 := by
    refine callCount_eq_zero fun call hcall => ?_
    obtain ⟨q, hq, -⟩ := mem_groupCalls (List.take_subset _ _ hcall)
    have := (List.getElem?_eq_some_iff.mp hq).1
    omega
  have hfirst (m : Nat) : callCount 0
      ((columnCalls nrow group (p, init.length)).take m) = 0 := by
    refine callCount_eq_zero fun call hcall => ?_
    obtain ⟨slice, -, rfl⟩ := List.mem_map.mp (List.take_subset _ _ hcall)
    simp only
    omega
  rw [hsplit, List.length_append] at hk
  rw [hsplit, List.take_append, callCount_append, hfirst, Nat.add_zero] at hpos
  rw [hsplit, List.take_append, callCount_append, callCount_append, hfirst,
    hbefore, Nat.add_zero, Nat.zero_add] at hsame
  rcases Nat.lt_or_ge (groupCalls init 0 nrow group).length k with hlt | hle
  · have hlast := @callCount_take_columnCalls nrow group p init.length
      (k - (groupCalls init 0 nrow group).length) (by omega)
    have hall : (groupCalls init 0 nrow group).take k =
        groupCalls init 0 nrow group :=
      List.take_of_length_le (by omega)
    rw [hall, callCount_groupCalls (List.getElem?_eq_getElem hinit)] at hsame
    omega
  · rw [Nat.sub_eq_zero_of_le hle, List.take_zero] at hsame
    rw [← hsame] at hpos
    exact absurd hpos (by simp [callCount, callsFor])

/-- The estimated size of the calls of a group but the last one. -/
def bytesBeforeLast
    (packed : List PackedColumn) (nrow : Nat) (group : Nat × Nat) : Nat :=
  ((groupCalls packed 0 nrow group).dropLast.map
    (callBytes (packedSpecs packed))).sum

/-- A group stays together: there is a second column, or the size target is not
passed before the last batch. -/
def StaysTogether
    (packed : List PackedColumn) (nrow : Nat) (group : Nat × Nat) : Prop :=
  2 ≤ packed.length ∨ bytesBeforeLast packed nrow group ≤ rowGroupTarget

theorem callCount_take_pos
    {p : PackedColumn} {k : Nat}
    (hk : k < (groupCalls [p] 0 nrow group).length) :
    0 < callCount 0 ((groupCalls [p] 0 nrow group).take (k + 1)) := by
  obtain ⟨q, hq, hcount⟩ := mem_groupCalls (List.getElem_mem hk)
  have hzero : (groupCalls [p] 0 nrow group)[k].1 = 0 := by
    have := (List.getElem?_eq_some_iff.mp hq).1
    simpa using this
  have hlast : callCount 0 [(groupCalls [p] 0 nrow group)[k]] =
      (groupCalls [p] 0 nrow group)[k].2.count := by
    simp [callCount, callsFor_singleton, hzero]
  rw [List.take_succ_eq_append_getElem hk, callCount_append]
  omega

/-- With one column the flush comes as soon as the size target is passed. -/
theorem isFull_of_one
    {p : PackedColumn} {k : Nat}
    (hk : k < (groupCalls [p] 0 nrow group).length)
    (groups : List WrittenGroup) :
    (((groupCalls [p] 0 nrow group).take (k + 1)).foldl Writer.record
        (Writer.atStart (packedSpecs [p]) groups)).isFull = true ↔
      rowGroupTarget < (((groupCalls [p] 0 nrow group).take (k + 1)).map
        (callBytes (packedSpecs [p]))).sum := by
  have hpos := callCount_take_pos hk
  have htarget : rowGroupTarget < int64Max := by
    simp [rowGroupTarget, int64Max]
  rw [foldl_record_groupCalls]
  simp only [Writer.isFull, Writer.isAligned, List.map_cons, List.map_nil,
    List.mapIdx_cons, List.mapIdx_nil, List.length_singleton, List.all_cons,
    List.all_nil, beq_self_eq_true, Bool.and_true, Bool.and_eq_true,
    decide_eq_true_eq, hpos, and_true, Nat.one_pos, true_and, lt_min_iff,
    htarget]

theorem dropLast_take {α : Type}
    (xs : List α) {n : Nat}
    (hn : n < xs.dropLast.length) :
    xs.dropLast.take (n + 1) = xs.take (n + 1) := by
  rw [List.length_dropLast] at hn
  rw [List.dropLast_eq_take, List.take_take, min_eq_left (by omega)]

/-- The automatic flush does not cut a group if and only if it stays together. -/
theorem quiet_groupCalls_iff
    (hpacked : packed ≠ [])
    (groups : List WrittenGroup) :
    Quiet Writer.record Writer.isFull
        (Writer.atStart (packedSpecs packed) groups)
        (groupCalls packed 0 nrow group).dropLast ↔
      StaysTogether packed nrow group := by
  have hlength : (groupCalls packed 0 nrow group).dropLast.length =
      (groupCalls packed 0 nrow group).length - 1 :=
    List.length_dropLast
  rcases Nat.lt_or_ge packed.length 2 with hone | htwo
  · obtain ⟨p, rfl⟩ : ∃ p, packed = [p] := by
      match packed, hpacked, hone with
      | [p], _, _ => exact ⟨p, rfl⟩
    rw [StaysTogether, or_iff_right (by simp), bytesBeforeLast]
    constructor
    · intro hquiet
      by_contra hlarge
      rw [not_le] at hlarge
      have hpos : 0 < (groupCalls [p] 0 nrow group).dropLast.length := by
        rw [List.length_pos_iff]
        intro hnil
        simp [hnil] at hlarge
      have hlast := hquiet _ (Nat.sub_lt hpos Nat.one_pos)
      have hfull := (@isFull_of_one nrow group p
        ((groupCalls [p] 0 nrow group).dropLast.length - 1) (by omega)
        groups).mpr (by
          rw [← dropLast_take _ (Nat.sub_lt hpos Nat.one_pos),
            List.take_of_length_le (by omega)]
          exact hlarge)
      rw [dropLast_take _ (Nat.sub_lt hpos Nat.one_pos), hfull] at hlast
      cases hlast
    · intro hsmall n hn
      rw [dropLast_take _ hn, ← Bool.not_eq_true, isFull_of_one (by omega),
        not_lt, ← dropLast_take _ hn, List.map_take]
      have hsplit := List.sum_take_add_sum_drop
        ((groupCalls [p] 0 nrow group).dropLast.map
          (callBytes (packedSpecs [p]))) (n + 1)
      omega
  · refine ⟨fun _ => .inl htwo, fun _ n hn => ?_⟩
    rw [dropLast_take _ hn, Writer.isFull,
      not_isAligned_of_two htwo (by omega) groups, Bool.and_false]

end Flushing

section Group

variable {packed : List PackedColumn} {nrow : Nat} {group : Nat × Nat}

/-- The row group a group of rows should become. -/
def packedGroup (packed : List PackedColumn) (group : Nat × Nat) :
    WrittenGroup :=
  ⟨group.2, packed.map fun p => p.rowsFrom group.1 group.2⟩

theorem mapIdx_callRows :
    ((packedSpecs packed).mapIdx fun i _ =>
        callRows i (groupCalls packed 0 nrow group)) =
      packed.map fun p => p.rowsFrom group.1 group.2 := by
  apply List.ext_getElem
  · simp
  · intro i hi hi'
    rw [List.length_map] at hi'
    rw [List.getElem_mapIdx, List.getElem_map,
      callRows_groupCalls (List.getElem?_eq_getElem hi')]

/-- A group that stays together becomes one row group. -/
theorem flush_group_of_staysTogether
    (hpacked : packed ≠ [])
    (hrows : 0 < group.2)
    (htogether : StaysTogether packed nrow group)
    (groups : List WrittenGroup) :
    ((groupCalls packed 0 nrow group).foldl Writer.push
        (Writer.atStart (packedSpecs packed) groups)).flushRowGroup =
      Writer.atStart (packedSpecs packed)
        (groups ++ [packedGroup packed group]) := by
  have hfirst : packed[0]? = some (packed.head hpacked) := by
    rw [← List.head?_eq_getElem?, List.head?_eq_some_head hpacked]
  have hcount : callCount 0 (groupCalls packed 0 nrow group) = group.2 :=
    callCount_groupCalls hfirst
  have hflush := flush_foldl_pushItem Writer.flushRowGroup_idem
    ((quiet_groupCalls_iff hpacked groups).mpr htogether)
  rw [Writer.push, hflush, flushRowGroup_foldl_record _ _
    (fun _ => callBytes_pos) (by omega), hcount, mapIdx_callRows]
  rfl

/-- A group that does not is cut before its last row. -/
theorem exists_cut_of_not_staysTogether
    (hpacked : packed ≠ [])
    (hcut : ¬ StaysTogether packed nrow group)
    (groups : List WrittenGroup) :
    ∃ cut : WrittenGroup, cut.numRows < group.2 ∧
      groups ++ [cut] <+: ((groupCalls packed 0 nrow group).foldl Writer.push
        (Writer.atStart (packedSpecs packed) groups)).rowGroups := by
  obtain ⟨p, rfl⟩ : ∃ p, packed = [p] := by
    rw [StaysTogether, not_or, not_le] at hcut
    match packed, hpacked, hcut.1 with
    | [p], _, _ => exact ⟨p, rfl⟩
  rw [← quiet_groupCalls_iff hpacked groups] at hcut
  obtain ⟨n, hn, hflush⟩ := exists_first_flush Writer.flushRowGroup hcut
  have hlength : (groupCalls [p] 0 nrow group).dropLast.length =
      (groupCalls [p] 0 nrow group).length - 1 :=
    List.length_dropLast
  have hcalls : groupCalls [p] 0 nrow group = columnCalls nrow group (p, 0) := by
    simp [groupCalls]
  rw [dropLast_take _ hn, ← Writer.push, flushRowGroup_foldl_record _ _
    (fun _ hcall => callBytes_pos (List.take_subset _ _ hcall))
    (callCount_take_pos (by omega))] at hflush
  have hgrows := foldl_push_grows
    (((groupCalls [p] 0 nrow group).take (n + 1)).foldl Writer.push
      (Writer.atStart (packedSpecs [p]) groups))
    ((groupCalls [p] 0 nrow group).drop (n + 1))
  rw [← List.foldl_append, List.take_append_drop, hflush] at hgrows
  have hshort : callCount 0 ((groupCalls [p] 0 nrow group).take (n + 1)) <
      group.2 := by
    rw [hcalls]
    exact callCount_take_columnCalls (by rw [← hcalls]; omega)
  exact ⟨_, hshort, hgrows⟩

end Group

section Frames

variable {t : Translator} {nrow : Nat}

/-- A column of `nrow` rows, and what packing its elements gives. -/
structure PackedFrom
    (t : Translator) (nrow : Nat) (column : WriteColumn) (p : PackedColumn) :
    Prop where
  spec_eq : p.spec = column.spec
  length_eq : column.vector.cells.length = nrow
  slots_eq : column.entries.mapM
    (fun entry => packValue t column.spec.type entry.2 entry.1) = .ok p.slots

theorem PackedFrom.packChunk_eq
    {column : WriteColumn} {p : PackedColumn}
    (h : PackedFrom t nrow column p)
    (index : Nat) {slice : Nat × Nat}
    (hbound : slice.1 + slice.2 ≤ nrow) :
    packChunk t index column slice = .ok (p.batch slice) := by
  have hpresent := p.present
  rw [h.spec_eq] at hpresent
  rw [PackedColumn.batch, h.spec_eq]
  exact packChunk_ok h.slots_eq hpresent
    (by rw [length_slots h.slots_eq, h.length_eq]; exact hbound)

theorem Writer.length_flushRowGroup
    (w : Writer) :
    w.flushRowGroup.columns.length = w.columns.length := by
  unfold Writer.flushRowGroup
  split_ifs <;> simp

theorem Writer.length_push
    (w : Writer) (call : Call) :
    (w.push call).columns.length = w.columns.length := by
  have hrecord : (w.record call).columns.length = w.columns.length := by
    simp [Writer.record]
  unfold Writer.push pushItem
  split_ifs
  · rw [Writer.length_flushRowGroup, hrecord]
  · exact hrecord

theorem Writer.length_foldl_push
    (w : Writer) (calls : List Call) :
    (calls.foldl Writer.push w).columns.length = w.columns.length := by
  induction calls generalizing w with
  | nil =>
      rfl
  | cons call calls ih =>
      rw [List.foldl_cons, ih, w.length_push]

/-- The chunks of a packed column are its calls. -/
theorem writeColumnChunks_ok
    {column : WriteColumn} {p : PackedColumn} {group : Nat × Nat}
    (h : PackedFrom t nrow column p)
    (hgroup : group.1 + group.2 ≤ nrow)
    {w : Writer} {c : Nat}
    (hc : c < w.columns.length) :
    writeColumnChunks t nrow group w (column, c) =
      .ok ((columnCalls nrow group (p, c)).foldl Writer.push w) := by
  have hslices : ∀ slice ∈ slices (chunkRows nrow) group.1 group.2,
      slice.1 + slice.2 ≤ nrow := by
    intro slice hslice
    have := mem_slices (chunkRows_pos nrow) hslice
    omega
  rw [writeColumnChunks, columnCalls]
  generalize slices (chunkRows nrow) group.1 group.2 = list at hslices
  induction list generalizing w with
  | nil =>
      rfl
  | cons slice list ih =>
      rw [List.forall_mem_cons] at hslices
      rw [List.foldlM_cons, h.packChunk_eq c hslices.1, ok_bind,
        Writer.writeBatch, if_pos hc, ok_bind]
      exact ih (by rwa [w.length_push]) hslices.2

/-- A row group of packed columns is its calls. -/
theorem writeGroup_ok
    {columns : List WriteColumn} {packed : List PackedColumn}
    {group : Nat × Nat}
    (h : List.Forall₂ (PackedFrom t nrow) columns packed)
    (hgroup : group.1 + group.2 ≤ nrow)
    {w : Writer}
    (hw : w.columns.length = columns.length) :
    writeGroup t columns nrow w group =
      .ok ((groupCalls packed 0 nrow group).foldl Writer.push w) := by
  have hfrom : ∀ first, first + columns.length ≤ w.columns.length →
      (columns.zipIdx first).foldlM (writeColumnChunks t nrow group) w =
        .ok ((groupCalls packed first nrow group).foldl Writer.push w) := by
    clear hw
    induction h generalizing w with
    | nil =>
        intro first _
        rfl
    | @cons column p columns packed hcolumn hrest ih =>
        intro first hfirst
        rw [List.length_cons] at hfirst
        rw [List.zipIdx_cons, List.foldlM_cons,
          writeColumnChunks_ok hcolumn hgroup (by omega), ok_bind,
          ih (first + 1) (by rw [Writer.length_foldl_push]; omega),
          groupCalls, groupCalls, List.zipIdx_cons, List.flatMap_cons,
          List.foldl_append]
  exact hfrom 0 (by omega)

variable {columns : List WriteColumn} {packed : List PackedColumn}

/-- What the first row group leaves in the file stays there. -/
theorem writeGroups_cons_grows
    (h : List.Forall₂ (PackedFrom t nrow) columns packed)
    {group : Nat × Nat} {list : List (Nat × Nat)}
    (hlist : ∀ group' ∈ group :: list, group'.1 + group'.2 ≤ nrow)
    {w : Writer}
    (hw : w.columns.length = columns.length) :
    ∃ w', writeGroups t columns nrow w (group :: list) = .ok w' ∧
      ((groupCalls packed 0 nrow group).foldl Writer.push w).rowGroups <+:
        w'.rowGroups := by
  induction list generalizing group w with
  | nil =>
      exact ⟨_, writeGroup_ok h (hlist group (by simp)) hw, List.prefix_rfl⟩
  | cons next list ih =>
      have hgroup := writeGroup_ok h (hlist group (by simp)) hw
      let first := (groupCalls packed 0 nrow group).foldl Writer.push w
      have hlength : first.flushRowGroup.columns.length = columns.length := by
        rw [Writer.length_flushRowGroup, Writer.length_foldl_push, hw]
      obtain ⟨w', hw', hmore⟩ := ih
        (fun group' hgroup' => hlist group' (List.mem_cons_of_mem _ hgroup'))
        hlength
      refine ⟨w', ?_, (first.flushRowGroup_grows.trans
        (foldl_push_grows _ _)).trans hmore⟩
      rw [writeGroups, hgroup, ok_bind, hw']

/-- The row groups in the file are those of the frame if and only if each of them
stays together. -/
theorem writeGroups_iff
    (h : List.Forall₂ (PackedFrom t nrow) columns packed)
    (hpacked : packed ≠ [])
    {list : List (Nat × Nat)}
    (hlist : ∀ group ∈ list, 0 < group.2 ∧ group.1 + group.2 ≤ nrow)
    (groups : List WrittenGroup) :
    ∃ w, writeGroups t columns nrow
        (Writer.atStart (packedSpecs packed) groups) list = .ok w ∧
      (w.flushRowGroup.rowGroups = groups ++ list.map (packedGroup packed) ↔
        ∀ group ∈ list, StaysTogether packed nrow group) := by
  have hstart (groups : List WrittenGroup) :
      (Writer.atStart (packedSpecs packed) groups).columns.length =
        columns.length := by
    simp [Writer.atStart, h.length_eq]
  induction list generalizing groups with
  | nil =>
      exact ⟨_, rfl, by simp [Writer.atStart, Writer.flushRowGroup]⟩
  | cons group list ih =>
      rw [List.forall_mem_cons] at hlist
      obtain ⟨⟨hrows, hbound⟩, hrest⟩ := hlist
      have hgroup := writeGroup_ok h hbound (hstart groups)
      by_cases htogether : StaysTogether packed nrow group
      · have hflush := flush_group_of_staysTogether hpacked hrows htogether
          groups
        rw [List.forall_mem_cons, and_iff_right htogether, List.map_cons,
          List.append_cons]
        cases list with
        | nil =>
            refine ⟨_, hgroup, ?_⟩
            rw [hflush]
            simp [Writer.atStart]
        | cons next list =>
            rw [writeGroups, hgroup, ok_bind, hflush]
            exact ih hrest _
      · obtain ⟨cut, hcut, hgrows⟩ :=
          exists_cut_of_not_staysTogether hpacked htogether groups
        obtain ⟨w, hw, hmore⟩ := writeGroups_cons_grows h
          (List.forall_mem_cons.mpr ⟨hbound, fun g hg => (hrest g hg).2⟩)
          (hstart groups)
        refine ⟨w, hw, iff_of_false ?_ fun hall =>
          htogether (hall group (by simp))⟩
        intro heq
        have hfile := (hgrows.trans hmore).trans w.flushRowGroup_grows
        rw [heq, List.map_cons, List.prefix_append_right_inj,
          List.cons_prefix_cons] at hfile
        have hsame := congrArg WrittenGroup.numRows hfile.1
        simp only [packedGroup] at hsame
        omega

end Frames

section Main

variable {t : Translator} {nrow : Nat}
variable {columns : List WriteColumn} {packed : List PackedColumn}

/-- The number of rows asked for in a row group. -/
def groupSize (nrow : Nat) : Option RDouble → Nat
  | none => nrow
  | some (.num q) => (truncate q).toNat
  | some _ => 0

/-- The rows of the `i`-th row group of `size` rows. -/
def requestedGroup (nrow size i : Nat) : Nat × Nat :=
  (i * size, min size (nrow - i * size))

/-- The row groups asked for: as many as it takes, of `size` rows each, the last
one of what is left. -/
def requestedGroups (packed : List PackedColumn) (nrow size : Nat) :
    List WrittenGroup :=
  (List.range ((nrow + size - 1) / size)).map fun i =>
    packedGroup packed (requestedGroup nrow size i)

theorem rowGroups_eq
    {requested size : Nat}
    (hsize : groupRows requested nrow = size) :
    rowGroups requested nrow =
      (List.range ((nrow + size - 1) / size)).map
        (requestedGroup nrow size) := by
  have hpos : 0 < groupRows requested nrow := by
    simp [groupRows]
  rw [rowGroups, slices_eq_range hpos, hsize]
  simp [requestedGroup]

/-- The write, for a size that could be converted. -/
theorem writeRowGroups_iff
    (h : List.Forall₂ (PackedFrom t nrow) columns packed)
    (hpacked : packed ≠ [])
    {rowGroupSize : Option RDouble} {requested : Nat}
    (size : Nat)
    (hrequested : requestedRows rowGroupSize = .ok requested)
    (hsize : groupRows requested nrow = size) :
    writeRowGroups t columns nrow rowGroupSize =
        .ok (requestedGroups packed nrow size) ↔
      nrow + size ≤ int64Max ∧
        ∀ i < (nrow + size - 1) / size,
          StaysTogether packed nrow (requestedGroup nrow size i) := by
  have hspecs : columns.map WriteColumn.spec = packedSpecs packed := by
    have hforall := h.imp fun _ _ hp => hp.spec_eq.symm
    rwa [← List.forall₂_map_right_iff, ← List.forall₂_map_left_iff,
      List.forall₂_eq_eq_eq] at hforall
  rw [writeRowGroups, hrequested, ok_bind, hsize]
  by_cases hlarge : int64Max < nrow + size
  · rw [if_pos hlarge]
    exact iff_of_false nofun fun h => absurd h.1 (not_le.mpr hlarge)
  · rw [if_neg hlarge, and_iff_right (not_lt.mp hlarge), hspecs]
    have hlist : ∀ group ∈ rowGroups requested nrow,
        0 < group.2 ∧ group.1 + group.2 ≤ nrow := by
      intro group hgroup
      have := mem_slices (by simp [groupRows]) hgroup
      omega
    obtain ⟨w, hw, hiff⟩ := writeGroups_iff h hpacked hlist []
    rw [rowGroups_eq hsize, List.map_map, List.nil_append] at hiff
    have hcreate : Writer.create (packedSpecs packed) =
        Writer.atStart (packedSpecs packed) [] :=
      rfl
    rw [hcreate, hw, ok_bind, pure_eq_ok, Except.ok.injEq]
    refine hiff.trans ?_
    simp

/-- An accepted size is a positive whole number. -/
theorem rowGroupSize_ok
    {d : RDouble}
    (h : rowGroupSize (some d) = .ok (some d)) :
    ∃ n : Nat, 0 < n ∧ d = .num n := by
  rw [rowGroupSize] at h
  split_ifs at h with hbad
  simp only [not_or, not_not] at hbad
  obtain ⟨-, hfinite, hone, hwhole⟩ := hbad
  cases d with
  | num q =>
      have hq : (truncate q : ℚ) = q := by
        simpa [isWhole] using hwhole
      have hle : (1 : ℚ) ≤ truncate q := by
        rw [hq]
        simpa [belowOne] using hone
      have hpos : 1 ≤ truncate q := by
        exact_mod_cast hle
      refine ⟨(truncate q).toNat, by omega, ?_⟩
      have hcast : ((truncate q).toNat : ℚ) = truncate q := by
        exact_mod_cast Int.toNat_of_nonneg (by omega : 0 ≤ truncate q)
      rw [hcast, hq]
  | _ =>
      cases hfinite

theorem groupSize_num
    (nrow n : Nat) :
    groupSize nrow (some (.num n)) = n := by
  have := truncate_intCast (n : ℤ)
  rw [Int.cast_natCast] at this
  rw [groupSize, this, Int.toNat_natCast]

/-- A size below `2 ^ 63` converts to itself. -/
theorem requestedRows_num
    {n : Nat}
    (h : n < 2 ^ 63) :
    requestedRows (some (.num n)) = .ok n := by
  rw [requestedRows, if_pos (by exact_mod_cast h)]
  exact congrArg Except.ok (groupSize_num 0 n)

theorem requestedRows_undefined
    {n : Nat}
    (h : ¬ n < 2 ^ 63) :
    requestedRows (some (.num n)) = .error .undefinedBehaviour := by
  rw [requestedRows, if_neg (by exact_mod_cast h)]

/-- Row groups are the ones asked for if and only if the size can be computed
with, and the size target does not cut a group of the only column. -/
theorem row_groups_as_requested_iff
    {size : Option RDouble}
    (h : List.Forall₂ (PackedFrom t nrow) columns packed)
    (hcolumns : columns ≠ [])
    (hrows : 0 < nrow)
    (hlimit : nrow ≤ 2 ^ 31 - 1)
    (hsize : rowGroupSize size = .ok size) :
    writeRowGroups t columns nrow size =
        .ok (requestedGroups packed nrow (groupSize nrow size)) ↔
      nrow + groupSize nrow size < 2 ^ 63 ∧
        ∀ i < (nrow + groupSize nrow size - 1) / groupSize nrow size,
          StaysTogether packed nrow
            (requestedGroup nrow (groupSize nrow size) i) := by
  have hpacked : packed ≠ [] := by
    rintro rfl
    exact hcolumns (List.forall₂_nil_right_iff.mp h)
  cases size with
  | none =>
      rw [groupSize, writeRowGroups_iff h hpacked nrow rfl
        (by simp [groupRows]; omega)]
      refine and_congr_left fun _ => ?_
      simp only [int64Max]
      omega
  | some d =>
      obtain ⟨n, hn, rfl⟩ := rowGroupSize_ok hsize
      rw [groupSize_num]
      by_cases hrange : n < 2 ^ 63
      · rw [writeRowGroups_iff h hpacked n (requestedRows_num hrange)
          (by simp [groupRows, hn]; omega)]
        refine and_congr_left fun _ => ?_
        simp only [int64Max]
        omega
      · rw [writeRowGroups, requestedRows_undefined hrange, error_bind]
        exact iff_of_false (by rintro ⟨⟩) fun hfits => by omega

/-- Three doubles, in a REQUIRED column. -/
def threeDoubles : WriteColumn :=
  ⟨⟨"x", .double, false⟩, realVector [.num 1, .num 2, .num 3], []⟩

def threePacked : PackedColumn where
  spec := ⟨"x", .double, false⟩
  slots := [some (.double (.num 1)), some (.double (.num 2)),
    some (.double (.num 3))]
  present := .inr rfl

theorem row_groups_as_requested_iff_three :
    writeRowGroups plainTranslator [threeDoubles] 3 (some (.num (2 : Nat))) =
        .ok (requestedGroups [threePacked] 3 2) ∧
      requestedGroups [threePacked] 3 2 =
        [⟨2, [[.present (.double (.num 1)), .present (.double (.num 2))]]⟩,
          ⟨1, [[.present (.double (.num 3))]]⟩] := by
  have hpacked : List.Forall₂ (PackedFrom plainTranslator 3) [threeDoubles]
      [threePacked] :=
    .cons ⟨rfl, rfl, rfl⟩ .nil
  have hsize : rowGroupSize (some (.num (2 : Nat))) =
      .ok (some (.num (2 : Nat))) := by
    decide +kernel
  have hiff := row_groups_as_requested_iff hpacked nofun (by omega) (by omega)
    hsize
  rw [groupSize_num] at hiff
  refine ⟨hiff.mpr ⟨by omega, fun i hi => .inr ?_⟩, rfl⟩
  have hcases : i = 0 ∨ i = 1 := by
    omega
  rcases hcases with rfl | rfl <;> exact Nat.zero_le _

/-- A REQUIRED text column of `n` equal strings. -/
def longText (n length : Nat) : WriteColumn :=
  ⟨⟨"x", .string, false⟩,
    ⟨.strsxp, List.replicate n (.str (List.replicate length 97))⟩, []⟩

def longPacked (n length : Nat) : PackedColumn where
  spec := ⟨"x", .string, false⟩
  slots := List.replicate n (some (.byteArray (List.replicate length 97)))
  present := .inr (by simp)

theorem longText_packed
    (n : Nat) {length : Nat}
    (hlength : length < 2 ^ 31) :
    PackedFrom plainTranslator n (longText n length) (longPacked n length) where
  spec_eq := rfl
  length_eq := List.length_replicate
  slots_eq := by
    have hentries : (longText n length).entries =
        List.replicate n (.str (List.replicate length 97), .native) := by
      rw [List.eq_replicate_iff]
      refine ⟨by simp [longText], fun entry hentry => ?_⟩
      obtain ⟨⟨cell, i⟩, hcell, rfl⟩ := List.mem_map.mp hentry
      have hmem := List.fst_mem_of_mem_zipIdx hcell
      rw [List.eq_of_mem_replicate hmem]
      rfl
    have hnul : cString (List.replicate length 97) =
        List.replicate length 97 := by
      refine cString_of_nul_free fun hmem => ?_
      cases List.eq_of_mem_replicate hmem
    have hpack : packValue plainTranslator .string .native
        (.str (List.replicate length 97)) =
          .ok (some (.byteArray (List.replicate length 97))) := by
      change packString plainTranslator .native _ = _
      have htranslate : plainTranslator.translate .native
          (List.replicate length 97) = .ok (List.replicate length 97) :=
        rfl
      rw [packString, htranslate, ok_bind, hnul,
        if_pos (by rwa [List.length_replicate])]
      rfl
    rw [hentries]
    refine mapM_replicate_ok ?_ n
    exact hpack

theorem byteLengths_longPacked
    (n length : Nat) (slice : Nat × Nat) :
    byteLengths ((longPacked n length).batch slice).values =
      min slice.2 (n - slice.1) * length := by
  have hvalues : ((longPacked n length).batch slice).values =
      List.replicate (min slice.2 (n - slice.1))
        (.byteArray (List.replicate length 97)) := by
    simp only [PackedColumn.batch, sliceBatch, longPacked, List.drop_replicate,
      List.take_replicate]
    generalize min slice.2 (n - slice.1) = k
    induction k with
    | zero =>
        rfl
    | succ k ih =>
        rw [List.replicate_succ, List.reduceOption_cons_of_some, ih]
        rfl
  rw [hvalues, byteLengths, List.map_replicate, List.sum_replicate, smul_eq_mul]
  exact congrArg _ List.length_replicate

/-- A group of one column and two chunks. -/
theorem bytesBeforeLast_two_chunks
    (p : PackedColumn) {n : Nat}
    (hmin : writeChunk < n)
    (hmax : n ≤ 2 * writeChunk) :
    bytesBeforeLast [p] n (0, n) =
      estimateColumnBatchBytes p.spec (p.batch (0, writeChunk)) := by
  have hchunk : chunkRows n = writeChunk := by
    simp only [chunkRows, writeChunk] at hmin ⊢
    omega
  have hpos : 0 < writeChunk := by
    simp [writeChunk]
  have hslices : slices (chunkRows n) 0 n =
      [(0, writeChunk), (writeChunk, n - writeChunk)] := by
    rw [hchunk, slices_pos hpos (by omega), min_eq_right (by omega),
      slices_pos hpos (by omega), min_eq_left (by omega), Nat.sub_self,
      slices_zero, Nat.zero_add]
  simp [bytesBeforeLast, groupCalls, columnCalls, hslices, callBytes]

/-- The estimated size of a chunk of equal strings. -/
theorem estimate_longPacked
    {n length count : Nat}
    (hcount : 0 < count)
    (hle : count ≤ n)
    (hfits : count * (4 + length) < int64Max) :
    estimateColumnBatchBytes (longPacked n length).spec
        ((longPacked n length).batch (0, count)) = count * (4 + length) := by
  have hlengths := byteLengths_longPacked n length (0, count)
  rw [Nat.sub_zero, min_eq_left hle] at hlengths
  have htotal : count * 4 + count * length = count * (4 + length) := by
    ring
  have hpos : 0 < count * (4 + length) := by
    positivity
  have hcounted : ((longPacked n length).batch (0, count)).count = count :=
    rfl
  have hrequired : (longPacked n length).spec.nullable = false := rfl
  have htype : (longPacked n length).spec.type.physical = .byteArray := rfl
  rw [estimateColumnBatchBytes, hcounted, if_neg (by omega), hrequired,
    if_neg (by simp), htype]
  simp only [estimateValues, hcounted, hlengths, htotal]
  rw [if_neg (by omega), saturatingAdd, if_neg (by omega), Nat.zero_add]

/-- One text column of 65537 strings of 2045 bytes, written as one row group: the
first chunk passes the size target, and the file gets another row group. -/
theorem single_text_column_cut :
    List.Forall₂ (PackedFrom plainTranslator 65537) [longText 65537 2045]
        [longPacked 65537 2045] ∧
      rowGroupSize none = .ok none ∧
      writeRowGroups plainTranslator [longText 65537 2045] 65537 none ≠
        .ok (requestedGroups [longPacked 65537 2045] 65537
          (groupSize 65537 none)) := by
  have hpacked : List.Forall₂ (PackedFrom plainTranslator 65537)
      [longText 65537 2045] [longPacked 65537 2045] :=
    .cons (longText_packed 65537 (by omega)) .nil
  have hbytes := bytesBeforeLast_two_chunks (longPacked 65537 2045)
    (n := 65537) (by simp [writeChunk]) (by simp [writeChunk])
  rw [estimate_longPacked (by simp [writeChunk]) (by simp [writeChunk])
    (by simp [writeChunk, int64Max])] at hbytes
  refine ⟨hpacked, rfl, fun heq => ?_⟩
  rw [groupSize, writeRowGroups_iff hpacked (List.cons_ne_nil _ _) 65537 rfl rfl] at heq
  have hgroup : requestedGroup 65537 65537 0 = (0, 65537) := rfl
  have htogether := heq.2 0 (by omega)
  rw [hgroup, StaysTogether, hbytes] at htogether
  simp [writeChunk, rowGroupTarget] at htogether

end Main

end Write
end QioParquet
