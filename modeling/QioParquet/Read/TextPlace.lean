import QioParquet.Read.TextValidity
import Mathlib.Tactic

/-!
# Where a bad text value is reported

`qio_scatter_dense_column` hands its own loop counter to the string check, so an error
about a text value names the row as it is counted in one batch of one row group. The
position of the value in the result adds the batches and row groups before; the two are
the same for the first batch only.
-/

namespace QioParquet
namespace Read

open Lib

section Reading

variable {file : ParquetFile} {ctx : CollectContext} {handle : Handle}
  {targets : List TargetColumn} {run : List Action}
  {result : Except ReadError ReadResult}
  {target : TargetColumn} {before : List (Nat × RowGroup)} {entry : Nat × RowGroup}
  {k : Nat}

/-- The first bad value in reading order, row groups outermost: row `k` of the chunk of
`target` in the row group `entry`, which comes after the row groups `before`. -/
structure FirstBadRead (ctx : CollectContext) (targets : List TargetColumn)
    (target : TargetColumn) (before : List (Nat × RowGroup)) (entry : Nat × RowGroup)
    (k : Nat) : Prop where
  text : target.column.spec.IsText
  groups : ∃ after, ctx.groups = before ++ entry :: after
  earlier : ∀ other ∈ targets, other.column.spec.IsText →
    ∀ group ∈ before, ¬ BadText (group.2.chunk other.column.fileColumn)
  columns : ∃ left right, targets = left ++ target :: right ∧
    ∀ other ∈ left, other.column.spec.IsText →
      ¬ BadText (entry.2.chunk other.column.fileColumn)
  first : FirstBadAt (entry.2.chunk target.column.fileColumn) k

theorem FirstBadRead.target_mem
    (h : FirstBadRead ctx targets target before entry k) :
    target ∈ targets := by
  obtain ⟨left, right, hsplit, -⟩ := h.columns
  rw [hsplit]
  simp

/-- Its position in the column of the result. -/
theorem FirstBadRead.position
    (hctx : ctx.Reads file)
    (halloc : allocateResult ctx.selection = .ok targets)
    (h : FirstBadRead ctx targets target before entry k) :
    FirstBadAt (ctx.columnRows target.column) (rowsOf before + k) := by
  obtain ⟨after, hgroups⟩ := h.groups
  have hlength : (before.flatMap fun group =>
      group.2.chunk target.column.fileColumn).length = rowsOf before := by
    rw [List.length_flatMap, rowsOf]
    refine congrArg List.sum (List.map_congr_left fun group hgroup => ?_)
    have hmem : group ∈ ctx.groups := by
      rw [hgroups]
      exact List.mem_append_left _ hgroup
    exact (job_holds 0 hctx halloc h.target_mem hmem).length_eq
  have hlt := h.first.lt_length
  obtain ⟨⟨bytes, hk, hfault⟩, hgood⟩ := h.first
  rw [CollectContext.columnRows, hgroups, List.flatMap_append, List.flatMap_cons, ← hlength]
  refine ⟨⟨bytes, ?_, hfault⟩, ?_⟩
  · rw [List.getElem?_append_right (by omega), Nat.add_sub_cancel_left,
      List.getElem?_append_left hlt, hk]
  · rw [List.take_length_add_append, List.take_append_of_le_length hlt.le]
    rintro ⟨bytes', hmem, hfault'⟩
    rcases List.mem_append.mp hmem with hmem | hmem
    · obtain ⟨group, hgroup, hrow⟩ := List.mem_flatMap.mp hmem
      exact h.earlier target h.target_mem h.text group hgroup ⟨bytes', hrow, hfault'⟩
    · exact hgood ⟨bytes', hmem, hfault'⟩

/-- A chunk without bad rows and entries is read. -/
theorem exists_collectMainChunk_ok
    {other : TargetColumn} {plan : GroupPlan} {group : RowGroup} (flags : Flags)
    (hctx : ctx.Reads file)
    (halloc : allocateResult ctx.selection = .ok targets)
    (hdecodes : ReadDecodes ctx targets)
    (hentries : ∀ target ∈ targets, target.column.spec.IsText →
      ∀ plan ∈ ctx.plans, ¬ BadEntry ctx.native (target.job plan))
    (hother : other ∈ targets)
    (hmain : other.onMain = true)
    (hplan : plan ∈ ctx.plans)
    (hgroup : (plan.index, group) ∈ ctx.groups)
    (hgood : other.column.spec.IsText →
      ¬ BadText (group.chunk other.column.fileColumn)) :
    ∃ found, collectMainChunk ctx.native (other.job plan) ctx.chunk flags =
      .ok found := by
  by_cases htext : other.column.spec.IsText
  · have houtcome := chunk_text hctx halloc hdecodes hother htext hplan hgroup flags
    cases hread : collectMainChunk ctx.native (other.job plan) ctx.chunk flags with
    | ok found =>
        exact ⟨found, rfl⟩
    | error e =>
        rw [hread] at houtcome
        rcases houtcome.2 with hbad | hentry
        · exact absurd hbad (hgood htext)
        · exact absurd hentry (hentries other hother htext plan hplan)
  · exact hdecodes.others other hother htext plan hplan flags hmain

/-- The chunks read before the chunk of `target` in the row group of `plan`. -/
def jobsBefore (plans : List GroupPlan) (targets left : List TargetColumn)
    (plan : GroupPlan) : List (Nat × ChunkJob) :=
  mainJobs plans targets ++
    (left.filter TargetColumn.onMain).map fun other => (other.index, other.job plan)

theorem mainJobs_split
    {left right : List TargetColumn} (plans rest : List GroupPlan) (plan : GroupPlan)
    (htargets : targets = left ++ target :: right)
    (hmain : target.onMain = true) :
    ∃ later, mainJobs (plans ++ plan :: rest) targets =
      jobsBefore plans targets left plan ++ (target.index, target.job plan) :: later := by
  refine ⟨(right.filter TargetColumn.onMain).map (fun other =>
    (other.index, other.job plan)) ++ mainJobs rest targets, ?_⟩
  rw [mainJobs, List.flatMap_append, List.flatMap_cons]
  nth_rewrite 2 [htargets]
  rw [List.filter_append, List.filter_cons_of_pos hmain, List.map_append, List.map_cons]
  simp only [jobsBefore, mainJobs, List.append_assoc, List.cons_append]

/-- What is read before the first bad value is read. -/
theorem FirstBadRead.before_ok
    {index : Nat} {group : RowGroup} {left right : List TargetColumn}
    {rest : List GroupPlan} {job : Nat × ChunkJob} (flags : Flags)
    (hctx : ctx.Reads file)
    (halloc : allocateResult ctx.selection = .ok targets)
    (hdecodes : ReadDecodes ctx targets)
    (hentries : ∀ target ∈ targets, target.column.spec.IsText →
      ∀ plan ∈ ctx.plans, ¬ BadEntry ctx.native (target.job plan))
    (h : FirstBadRead ctx targets target before (index, group) k)
    (hplans : ctx.plans = groupPlans 0 before ++
      ⟨index, group.numRows.toNat, rowsOf before⟩ :: rest)
    (htargets : targets = left ++ target :: right)
    (hleft : ∀ other ∈ left, other.column.spec.IsText →
      ¬ BadText (group.chunk other.column.fileColumn))
    (hjob : job ∈ jobsBefore (groupPlans 0 before) targets left
      ⟨index, group.numRows.toNat, rowsOf before⟩) :
    ∃ found, collectMainChunk ctx.native job.2 ctx.chunk flags = .ok found := by
  obtain ⟨after, hgroups⟩ := h.groups
  rcases List.mem_append.mp hjob with hjob | hjob
  · simp only [mainJobs, List.mem_flatMap, List.mem_map, List.mem_filter] at hjob
    obtain ⟨plan, hplan, other, ⟨hother, hmain⟩, rfl⟩ := hjob
    obtain ⟨group', hgroup', -⟩ := exists_group_of_plan hplan
    exact exists_collectMainChunk_ok _ hctx halloc hdecodes hentries hother hmain
      (hplans ▸ List.mem_append_left _ hplan)
      (hgroups ▸ List.mem_append_left _ hgroup')
      fun htext => h.earlier other hother htext _ hgroup'
  · obtain ⟨other, hother, rfl⟩ := List.mem_map.mp hjob
    obtain ⟨hother, hmain⟩ := List.mem_filter.mp hother
    have hplan : ⟨index, group.numRows.toNat, rowsOf before⟩ ∈ ctx.plans := by
      rw [hplans]
      simp
    have hgroup : (index, group) ∈ ctx.groups := by
      rw [hgroups]
      simp
    exact exists_collectMainChunk_ok _ hctx halloc hdecodes hentries
      (htargets ▸ List.mem_append_left _ hother) hmain hplan hgroup (hleft other hother)

/-- The main-thread pass raises at the first bad value, and names its row as it is
counted in the batch. -/
theorem FirstBadRead.main_error
    (hctx : ctx.Reads file)
    (halloc : allocateResult ctx.selection = .ok targets)
    (hdecodes : ReadDecodes ctx targets)
    (hentries : ∀ target ∈ targets, target.column.spec.IsText →
      ∀ plan ∈ ctx.plans, ¬ BadEntry ctx.native (target.job plan))
    (h : FirstBadRead ctx targets target before entry k) :
    ∃ e, ctx.main targets = .error e ∧
      e.textPlace = some (target.column.spec.name, k % ctx.chunk + 1) := by
  obtain ⟨index, group⟩ := entry
  obtain ⟨after, hgroups⟩ := h.groups
  obtain ⟨left, right, htargets, hleft⟩ := h.columns
  have hgroup : (index, group) ∈ ctx.groups := by
    rw [hgroups]
    simp
  have hrows : 0 < group.numRows := by
    have hlength := (job_holds 0 hctx halloc h.target_mem hgroup).length_eq
    have hlt := h.first.lt_length
    dsimp only [TargetColumn.job] at hlength hlt
    omega
  obtain ⟨rest, hplans⟩ := plans_split hgroups hrows
  have hplan := plan_mem hgroups hrows
  obtain ⟨later, hjobs⟩ := mainJobs_split (groupPlans 0 before) rest
    ⟨index, group.numRows.toNat, rowsOf before⟩ htargets h.text.onMain
  have hbefore : ∀ job ∈ jobsBefore (groupPlans 0 before) targets left
      ⟨index, group.numRows.toNat, rowsOf before⟩, ∀ state,
      ∃ state', mainStep ctx.native ctx.chunk state job = .ok state' := by
    intro job hjob state
    obtain ⟨found, hfound⟩ := h.before_ok (state.flags job.1) hctx halloc hdecodes
      hentries hplans htargets hleft hjob
    rw [mainStep, hfound]
    exact ⟨_, rfl⟩
  obtain ⟨state, hstate⟩ := exists_foldlM_ok hbefore ⟨[], fun _ => Flags.none⟩
  obtain ⟨e, he, hplace⟩ := @collectMainChunk_firstBad ctx.native _ _ ctx.chunk
    (state.flags target.index) k (chunk_pos ctx)
    (job_holds_plan hctx halloc h.target_mem hplan hgroup) h.text
    (text_vector halloc h.target_mem h.text)
    (hdecodes.text target h.target_mem h.text _ hplan group hgroup)
    (hentries target h.target_mem h.text _ hplan) h.first
  refine ⟨e, ?_, hplace⟩
  rw [CollectContext.main, mainPass, hplans, hjobs, List.foldlM_append, hstate, ok_bind,
    List.foldlM_cons, mainStep, he]
  rfl

/-- A text error names the position of the first bad value in the result exactly when
that value is in the first batch of the first row group that has rows. -/
theorem text_error_row_iff
    (hctx : ctx.Reads file)
    (halloc : allocateResult ctx.selection = .ok targets)
    (hdecodes : ReadDecodes ctx targets)
    (hentries : ∀ target ∈ targets, target.column.spec.IsText →
      ∀ plan ∈ ctx.plans, ¬ BadEntry ctx.native (target.job plan))
    (hrun : CollectRun ctx handle run result) :
    (∀ target before entry k, FirstBadRead ctx targets target before entry k →
        ∃ e position, result = .error e ∧
          FirstBadAt (ctx.columnRows target.column) position ∧
          e.textPlace = some (target.column.spec.name, position + 1)) ↔
      ∀ target before entry k, FirstBadRead ctx targets target before entry k →
        rowsOf before = 0 ∧ k < ctx.chunk := by
  have hraised {target : TargetColumn} {before : List (Nat × RowGroup)}
      {entry : Nat × RowGroup} {k : Nat}
      (h : FirstBadRead ctx targets target before entry k) :
      ∃ e, result = .error e ∧
        e.textPlace = some (target.column.spec.name, k % ctx.chunk + 1) := by
    obtain ⟨e, hmain, hplace⟩ := h.main_error hctx halloc hdecodes hentries
    rcases hrun.outcome_of_main hctx halloc hdecodes with
      ⟨e', hmain', hresult⟩ | ⟨main, value, hmain', -⟩
    · obtain rfl := Except.error.inj (hmain.symm.trans hmain')
      exact ⟨e, hresult, hplace⟩
    · cases hmain.symm.trans hmain'
  constructor
  · intro hnamed target before entry k h
    obtain ⟨e, hresult, hplace⟩ := hraised h
    obtain ⟨e', position, hresult', hfirst, hplace'⟩ := hnamed target before entry k h
    obtain rfl := Except.error.inj (hresult.symm.trans hresult')
    have hposition := hfirst.unique (h.position hctx halloc)
    have hrow : k % ctx.chunk + 1 = position + 1 :=
      congrArg Prod.snd (Option.some.inj (hplace.symm.trans hplace'))
    have hle := Nat.mod_le k ctx.chunk
    have hlt := Nat.mod_lt k (chunk_pos ctx)
    omega
  · intro hcondition target before entry k h
    obtain ⟨hnone, hlt⟩ := hcondition target before entry k h
    obtain ⟨e, hresult, hplace⟩ := hraised h
    refine ⟨e, rowsOf before + k, hresult, h.position hctx halloc, ?_⟩
    rw [hplace, hnone, Nat.zero_add, Nat.mod_eq_of_lt hlt]

end Reading

section TwoGroups

/-- A text column of two row groups with one row each. -/
def splitFile (first second : Bytes) : ParquetFile where
  leaves := [labelLeaf]
  rowGroups := [⟨1, fun _ => [.present (.byteArray first)]⟩,
    ⟨1, fun _ => [.present (.byteArray second)]⟩]
  chunk_length := by simp
  chunk_fits := by
    intro group hgroup index leaf hleaf _ row hrow
    obtain rfl : labelLeaf = leaf := by
      rcases index with _ | _ <;> simp at hleaf
      exact hleaf
    rcases List.mem_pair.mp hgroup with rfl | rfl
    · obtain rfl := List.mem_singleton.mp hrow
      constructor <;> simp [labelLeaf, Leaf.column, PhysValue.type]
    · obtain rfl := List.mem_singleton.mp hrow
      constructor <;> simp [labelLeaf, Leaf.column, PhysValue.type]

/-- Both row groups, read row by row; there is no dictionary. -/
def splitRead (first second : Bytes) : CollectContext where
  native := ⟨fun _ group _ => .ok (rowReader labelColumn
      [.present (.byteArray (if group = 0 then first else second))]),
    fun _ _ => none⟩
  selection := ⟨[⟨0, labelColumn⟩], [true, true], 2⟩
  groups := [(0, ⟨1, fun _ => [.present (.byteArray first)]⟩),
    (1, ⟨1, fun _ => [.present (.byteArray second)]⟩)]
  batchSize := 65536

theorem splitRead_reads
    (first second : Bytes) :
    (splitRead first second).Reads (splitFile first second) :=
  ⟨⟨none, none, [2], .double, rfl⟩, rfl⟩

theorem rowReader_decodes
    (c : ColumnSpec) (row : Row) :
    (rowReader c [row]).Decodes c [row] where
  whole := by
    intro position want hwant hbound
    rw [List.length_singleton] at hbound
    obtain rfl : position = 0 := by omega
    obtain rfl : want = 1 := by omega
    exact ⟨_, rfl, rfl⟩
  faithful := rowReader_faithful c _
  indices := by
    intro page offsets hpage
    cases hpage

theorem splitRead_decodes
    (first second : Bytes) :
    ReadDecodes (splitRead first second) staleTargets where
  rows_le := by
    change (2 : ℤ) ≤ 2 ^ 31 - 1
    norm_num
  tasks := by
    intro task htask
    cases htask
  text := by
    intro target htarget _ plan _ group hgroup
    obtain rfl := List.mem_singleton.mp htarget
    obtain ⟨index, rows, offset⟩ := plan
    refine ⟨fun _ => ⟨_, rfl, ?_⟩, ?_⟩
    · rcases List.mem_pair.mp hgroup with hsame | hsame
      · obtain ⟨rfl, rfl⟩ := Prod.mk.inj hsame
        exact rowReader_decodes labelColumn _
      · obtain ⟨rfl, rfl⟩ := Prod.mk.inj hsame
        exact rowReader_decodes labelColumn _
    · intro r page offsets _ hloaded
      cases hloaded
  others := by
    intro target htarget htext
    obtain rfl := List.mem_singleton.mp htarget
    exact absurd ⟨rfl, rfl⟩ htext

theorem splitRead_entries
    (first second : Bytes) :
    ∀ target ∈ staleTargets, target.column.spec.IsText →
      ∀ plan ∈ (splitRead first second).plans,
        ¬ BadEntry (splitRead first second).native (target.job plan) := by
  rintro target - - plan - ⟨r, page, offsets, -, hloaded, -⟩
  cases hloaded

theorem splitRead_collect
    {first second : Bytes} {e : ReadError}
    (hmain : (splitRead first second).main staleTargets = .error e) :
    CollectRun (splitRead first second) serialHandle [] (.error e) :=
  .read (splitRead_decodes first second).rows_le rfl (by simp [splitRead])
    (by simp [splitRead]) (.inlineRaised (executionMode_serial rfl) rfl hmain)

/-- A bad value in the first row: the error names row 1. -/
theorem text_error_row_iff_first :
    ∃ e, CollectRun (splitRead [255] [97]) serialHandle [] (.error e) ∧
      ∀ target before entry k,
        FirstBadRead (splitRead [255] [97]) staleTargets target before entry k →
        ∃ position,
          FirstBadAt ((splitRead [255] [97]).columnRows target.column) position ∧
          e.textPlace = some (target.column.spec.name, position + 1) := by
  have hrun : CollectRun (splitRead [255] [97]) serialHandle []
      (.error (.invalidUtf8 "label" 1 1)) :=
    splitRead_collect rfl
  have hbyte : TextFault [255] := by decide +kernel
  refine ⟨_, hrun, fun target before entry k h => ?_⟩
  have hcondition : ∀ target before entry k,
      FirstBadRead (splitRead [255] [97]) staleTargets target before entry k →
      rowsOf before = 0 ∧ k < (splitRead [255] [97]).chunk := by
    intro target before entry k h
    obtain ⟨after, hgroups⟩ := h.groups
    cases before with
    | nil =>
        obtain ⟨rfl, -⟩ := List.cons.inj hgroups
        obtain rfl : k = 0 := Nat.lt_one_iff.mp h.first.lt_length
        exact ⟨rfl, chunk_pos _⟩
    | cons group before =>
        -- the first row group has a bad value
        obtain ⟨rfl, -⟩ := List.cons.inj hgroups
        exact absurd ⟨[255], List.mem_singleton.mpr rfl, hbyte⟩
          (h.earlier target h.target_mem h.text _ List.mem_cons_self)
  obtain ⟨e, position, he, hfirst, hplace⟩ := (text_error_row_iff
    (splitRead_reads [255] [97]) rfl (splitRead_decodes [255] [97])
    (splitRead_entries [255] [97]) hrun).mpr hcondition target before entry k h
  cases he
  exact ⟨position, hfirst, hplace⟩

/-- The only bad value is in the second row of the result, and the error names
row 1. -/
theorem second_group_row_misreported :
    CollectRun (splitRead [97] [255]) serialHandle []
        (.error (.invalidUtf8 "label" 1 1)) ∧
      FirstBadRead (splitRead [97] [255]) staleTargets ⟨0, ⟨0, labelColumn⟩, .strsxp⟩
        [(0, ⟨1, fun _ => [.present (.byteArray [97])]⟩)]
        (1, ⟨1, fun _ => [.present (.byteArray [255])]⟩) 0 ∧
      FirstBadAt ((splitRead [97] [255]).columnRows ⟨0, labelColumn⟩) 1 := by
  have hletter : ¬ TextFault [97] := by decide +kernel
  have hbyte : TextFault [255] := by decide +kernel
  have hfirst : FirstBadRead (splitRead [97] [255]) staleTargets
      ⟨0, ⟨0, labelColumn⟩, .strsxp⟩
      [(0, ⟨1, fun _ => [.present (.byteArray [97])]⟩)]
      (1, ⟨1, fun _ => [.present (.byteArray [255])]⟩) 0 := by
    have hnone (other : TargetColumn) (hother : other ∈ ([] : List TargetColumn)) :
        other.column.spec.IsText →
          ¬ BadText [.present (.byteArray [255])] := by
      cases hother
    refine ⟨⟨rfl, rfl⟩, ⟨[], rfl⟩, ?_, ⟨[], [], rfl, hnone⟩, ⟨[255], rfl, hbyte⟩, ?_⟩
    · rintro other - - group hgroup ⟨bytes, hmem, hfault⟩
      obtain rfl := List.mem_singleton.mp hgroup
      cases List.mem_singleton.mp hmem
      exact hletter hfault
    · rintro ⟨bytes, hmem, -⟩
      cases hmem
  exact ⟨splitRead_collect rfl, hfirst,
    hfirst.position (splitRead_reads [97] [255]) rfl⟩

end TwoGroups

end Read
end QioParquet
