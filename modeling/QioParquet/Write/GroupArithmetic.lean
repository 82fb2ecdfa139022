import QioParquet.Write.RowGroups
import Mathlib.Tactic

/-!
# The arithmetic of the row-group loop

`qio_write_body` computes the bounds of row groups and chunks in signed 64-bit
variables. The loop is embedded here with every result checked: one that is out of
range is undefined behaviour. In range it visits the chunks that the model of the
writer packs, so a write is computed with exact numbers there.

`qio_row_group_size` sets no upper limit. Everything is in range as soon as the first
sum, `nrow + group_rows`, is: the bounds of a group never exceed it.
-/

namespace QioParquet
namespace Write

open Lib Read

section Loops

/-- A result of signed 64-bit arithmetic. -/
def int64 (z : ℤ) : Except WriteError ℤ :=
  if IsInt64 z then .ok z else .error .undefinedBehaviour

theorem int64_natCast
    {n : Nat}
    (h : n < 2 ^ 63) :
    int64 n = .ok (n : ℤ) :=
  if_pos ⟨by omega, by omega⟩

/-- `for (row0 = group_start; row0 < group_end; row0 += chunk)`: the chunks it
visits, as first row and number of rows. -/
def chunkLoop (nrow : Nat) (groupEnd row0 : ℤ) :
    Except WriteError (List (ℤ × ℤ)) :=
  if row0 < groupEnd then
    if IsInt64 (row0 + chunkRows nrow) then do
      let rest ← chunkLoop nrow groupEnd (row0 + chunkRows nrow)
      return (row0, min (groupEnd - row0) (chunkRows nrow)) :: rest
    else
      .error .undefinedBehaviour
  else
    .ok []
termination_by (groupEnd - row0).toNat
decreasing_by
  have := chunkRows_pos nrow
  omega

/-- `for (group = 0; group < num_groups; group++)`, with the groups that remain. -/
def groupLoop (nrow : Nat) (groupRows : ℤ) :
    Nat → ℤ → Except WriteError (List (ℤ × ℤ))
  | 0, _ => .ok []
  | remaining + 1, group => do
      let groupStart ← int64 (group * groupRows)
      let groupEnd ← int64 (groupStart + groupRows)
      let chunks ← chunkLoop nrow
        (if (nrow : ℤ) < groupEnd then nrow else groupEnd) groupStart
      let next ← int64 (group + 1)
      let rest ← groupLoop nrow groupRows remaining next
      return chunks ++ rest

/-- The row groups of `qio_write_body`; `nrow + group_rows - 1` is two operations. -/
def rowGroupLoop (nrow : Nat) (rowGroupRows : ℤ) :
    Except WriteError (List (ℤ × ℤ)) := do
  let groupRows := if 0 < rowGroupRows then rowGroupRows else nrow
  let groupRows := if groupRows < 1 then 1 else groupRows
  let sum ← int64 (nrow + groupRows)
  let above ← int64 (sum - 1)
  let numGroups := above / groupRows
  let numGroups := if numGroups < 1 then 1 else numGroups
  groupLoop nrow groupRows numGroups.toNat 0

/-- The conversion of the size in `qio_write_parquet`, and the loop. -/
def checkedLoop (nrow : Nat) (size : Option RDouble) :
    Except WriteError (List (ℤ × ℤ)) := do
  let rowGroupRows ← requestedRows size
  rowGroupLoop nrow rowGroupRows

end Loops

section Chunks

/-- A slice in machine integers. -/
def machineSlice (slice : Nat × Nat) : ℤ × ℤ :=
  (slice.1, slice.2)

/-- Past the end of the group the loop is over. -/
theorem chunkLoop_done
    {nrow : Nat} {groupEnd row0 : ℤ}
    (h : groupEnd ≤ row0) :
    chunkLoop nrow groupEnd row0 = .ok [] := by
  rw [chunkLoop, if_neg (not_lt.mpr h)]

/-- The inner loop visits the slices of its group. -/
theorem chunkLoop_eq
    {nrow : Nat} (start remaining : Nat)
    (hrows : nrow ≤ 2 ^ 31 - 1)
    (hle : start + remaining ≤ nrow) :
    chunkLoop nrow (start + remaining : Nat) start =
      .ok ((slices (chunkRows nrow) start remaining).map machineSlice) := by
  have hchunk := chunkRows_pos nrow
  have hsmall : chunkRows nrow ≤ 2 ^ 31 := by
    simp only [chunkRows, writeChunk]
    omega
  revert hle
  refine slices_induction hchunk
    (motive := fun start remaining => start + remaining ≤ nrow →
      chunkLoop nrow (start + remaining : Nat) start =
        .ok ((slices (chunkRows nrow) start remaining).map machineSlice))
    ?_ ?_ start remaining
  · intro start _
    exact chunkLoop_done (by simp)
  · intro start remaining hpos ih hle
    have hmin : min (((start + remaining : Nat) : ℤ) - start) (chunkRows nrow) =
        ((min remaining (chunkRows nrow) : Nat) : ℤ) := by
      push_cast
      congr 1
      ring
    rw [chunkLoop, if_pos (by push_cast; omega), if_pos ⟨by omega, by omega⟩,
      slices_pos hchunk hpos, List.map_cons, hmin]
    -- The loop steps by a whole chunk also when fewer rows remain.
    rcases le_total remaining (chunkRows nrow) with hlast | hmore
    · rw [chunkLoop_done (by push_cast; omega), min_eq_left hlast, Nat.sub_self]
      rfl
    · rw [min_eq_right hmore] at ih ⊢
      have hstop : start + chunkRows nrow + (remaining - chunkRows nrow) =
          start + remaining := by
        omega
      have hrest := ih (by omega)
      rw [hstop] at hrest
      rw [← Nat.cast_add, hrest]
      rfl

end Chunks

section Groups

/-- The chunks of the `i`-th row group. -/
def groupChunks (nrow size i : Nat) : List (ℤ × ℤ) :=
  (slices (chunkRows nrow) (requestedGroup nrow size i).1
    (requestedGroup nrow size i).2).map machineSlice

/-- A run of the outer loop over groups that start inside the frame and end in range. -/
theorem groupLoop_eq
    {nrow size : Nat} (remaining group : Nat)
    (hrows : nrow ≤ 2 ^ 31 - 1)
    (hfits : nrow + size < 2 ^ 63)
    (hpos : 0 < size)
    (hstart : ∀ i < group + remaining, i * size ≤ nrow) :
    groupLoop nrow size remaining group =
      .ok ((List.range' group remaining).flatMap (groupChunks nrow size)) := by
  induction remaining generalizing group with
  | zero =>
      rfl
  | succ remaining ih =>
      have hgroup : group * size ≤ nrow := hstart group (by omega)
      have hindex : group ≤ group * size := Nat.le_mul_of_pos_right group hpos
      have hbegin : int64 ((group : ℤ) * size) = .ok ((group * size : Nat) : ℤ) := by
        rw [← Nat.cast_mul]
        exact int64_natCast (by omega)
      have hend : int64 (((group * size : Nat) : ℤ) + size) =
          .ok ((group * size + size : Nat) : ℤ) := by
        rw [← Nat.cast_add]
        exact int64_natCast (lt_of_le_of_lt (Nat.add_le_add_right hgroup size) hfits)
      have hindexed : group + 1 < 2 ^ 63 := by
        omega
      have hnext : int64 ((group : ℤ) + 1) = .ok ((group + 1 : Nat) : ℤ) := by
        simpa using int64_natCast hindexed
      have hclip : (if (nrow : ℤ) < ((group * size + size : Nat) : ℤ) then (nrow : ℤ)
          else ((group * size + size : Nat) : ℤ)) =
          ((group * size + min size (nrow - group * size) : Nat) : ℤ) := by
        split_ifs <;> omega
      rw [groupLoop, hbegin, ok_bind, hend, ok_bind, hclip,
        chunkLoop_eq _ _ hrows (by omega), ok_bind, hnext, ok_bind,
        ih (group + 1) (fun i hi => hstart i (by omega))]
      rfl

/-- The rows of a group, as the two conditional assignments leave them. -/
theorem machine_groupRows
    (requested nrow : Nat) :
    (if (if (0 : ℤ) < requested then (requested : ℤ) else nrow) < 1 then 1
      else if (0 : ℤ) < requested then (requested : ℤ) else nrow) =
      groupRows requested nrow := by
  simp only [groupRows]
  split_ifs <;> omega

theorem rowGroupLoop_undefined
    {nrow requested : Nat}
    (h : ¬ nrow + groupRows requested nrow < 2 ^ 63) :
    rowGroupLoop nrow requested = .error .undefinedBehaviour := by
  have hsum : int64 ((nrow : ℤ) + groupRows requested nrow) =
      .error .undefinedBehaviour := by
    refine if_neg fun hrange => h ?_
    have := hrange.2
    omega
  rw [rowGroupLoop, machine_groupRows, hsum, error_bind]

/-- In range, the loop visits the chunks the writer packs. -/
theorem rowGroupLoop_eq
    {nrow requested : Nat}
    (hrows : nrow ≤ 2 ^ 31 - 1)
    (hfits : nrow + groupRows requested nrow < 2 ^ 63) :
    rowGroupLoop nrow requested =
      .ok ((columnSlices requested nrow).map machineSlice) := by
  have hpos : 0 < groupRows requested nrow := by
    simp [groupRows]
  rw [rowGroupLoop, machine_groupRows, columnSlices, rowGroups_eq rfl]
  generalize groupRows requested nrow = size at hfits hpos ⊢
  have hsum : int64 ((nrow : ℤ) + size) = .ok ((nrow + size : Nat) : ℤ) := by
    rw [← Nat.cast_add]
    exact int64_natCast hfits
  have habove : int64 (((nrow + size : Nat) : ℤ) - 1) =
      .ok ((nrow + size - 1 : Nat) : ℤ) := by
    rw [← Nat.cast_pred (by omega)]
    exact int64_natCast (by omega)
  have hcount : ((nrow + size - 1) / size) * size ≤ nrow + size - 1 :=
    Nat.div_mul_le_self _ _
  have hempty : (nrow + size - 1) / size = 0 → nrow = 0 := by
    intro hzero
    have := Nat.div_eq_zero_iff.mp hzero
    omega
  rw [hsum, ok_bind, habove, ok_bind, ← Int.natCast_div]
  generalize (nrow + size - 1) / size = count at hcount hempty ⊢
  change groupLoop nrow size (if (count : ℤ) < 1 then 1 else (count : ℤ)).toNat 0 = _
  rw [List.flatMap_map, List.map_flatMap]
  by_cases hnone : count = 0
  · -- A frame without rows goes through the loop once and visits nothing.
    subst hnone
    obtain rfl := hempty rfl
    have hnothing : groupChunks 0 size 0 = [] := by
      simp [groupChunks, requestedGroup]
    simpa [hnothing] using groupLoop_eq 1 0 hrows hfits hpos (by simp)
  · have hstart : ∀ i < 0 + count, i * size ≤ nrow := by
      intro i hi
      have hle : (i + 1) * size ≤ count * size :=
        Nat.mul_le_mul_right size (by omega)
      rw [Nat.succ_mul] at hle
      omega
    rw [if_neg (by omega), Int.toNat_natCast, List.range_eq_range']
    exact groupLoop_eq count 0 hrows hfits hpos hstart

end Groups

section Range

variable {nrow : Nat} {size : Option RDouble}

/-- Row-group arithmetic stays in the signed 64-bit range exactly when the number of
rows and the size asked for have a sum below `2 ^ 63`: then the size converts, and no
result of the loop is out of range. -/
theorem row_group_arithmetic_iff
    (hsize : rowGroupSize size = .ok size)
    (hrows : nrow ≤ 2 ^ 31 - 1) :
    (∃ chunks, checkedLoop nrow size = .ok chunks) ↔
      nrow + groupSize nrow size < 2 ^ 63 := by
  cases size with
  | none =>
      have hfits : nrow + groupRows 0 nrow < 2 ^ 63 := by
        simp only [groupRows, lt_irrefl, if_false]
        omega
      refine iff_of_true ⟨_, rowGroupLoop_eq hrows hfits⟩ ?_
      rw [groupSize]
      omega
  | some d =>
      obtain ⟨n, hn, rfl⟩ := rowGroupSize_ok hsize
      rw [groupSize_num]
      have hgroup : groupRows n nrow = n := by
        rw [groupRows, if_pos hn]
        exact max_eq_right hn
      by_cases hrange : n < 2 ^ 63
      · rw [checkedLoop, requestedRows_num hrange, ok_bind]
        by_cases hfits : nrow + n < 2 ^ 63
        · exact iff_of_true ⟨_, rowGroupLoop_eq hrows (by rwa [hgroup])⟩ hfits
        · rw [rowGroupLoop_undefined (by rwa [hgroup])]
          exact iff_of_false (by rintro ⟨_, ⟨⟩⟩) hfits
      · rw [checkedLoop, requestedRows_undefined hrange, error_bind]
        refine iff_of_false (by rintro ⟨_, ⟨⟩⟩) ?_
        omega

/-- Groups of a million rows are in range. -/
theorem row_group_arithmetic_iff_million :
    rowGroupSize (some (.num (1000000 : Nat))) = .ok (some (.num (1000000 : Nat))) ∧
      ∃ chunks, checkedLoop (2 ^ 31 - 1) (some (.num (1000000 : Nat))) = .ok chunks := by
  have hsize : rowGroupSize (some (.num (1000000 : Nat))) =
      .ok (some (.num (1000000 : Nat))) := by
    decide +kernel
  refine ⟨hsize, (row_group_arithmetic_iff hsize le_rfl).mpr ?_⟩
  rw [groupSize_num]
  norm_num

/-- `2 ^ 63` is accepted as a size, and does not convert. The largest double below it
converts, and its sum with 1024 rows is out of range. -/
theorem row_group_size_out_of_range :
    rowGroupSize (some (.num (2 ^ 63 : Nat))) = .ok (some (.num (2 ^ 63 : Nat))) ∧
      checkedLoop 1 (some (.num (2 ^ 63 : Nat))) = .error .undefinedBehaviour ∧
      rowGroupSize (some (.num (2 ^ 63 - 1024 : Nat))) =
        .ok (some (.num (2 ^ 63 - 1024 : Nat))) ∧
      checkedLoop 1024 (some (.num (2 ^ 63 - 1024 : Nat))) =
        .error .undefinedBehaviour := by
  refine ⟨by decide +kernel, ?_, by decide +kernel, ?_⟩
  · rw [checkedLoop, requestedRows_undefined (by norm_num), error_bind]
  · rw [checkedLoop, requestedRows_num (by norm_num), ok_bind,
      rowGroupLoop_undefined (by norm_num [groupRows])]

end Range

end Write
end QioParquet
