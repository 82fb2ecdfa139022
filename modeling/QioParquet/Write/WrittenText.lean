import QioParquet.Page.PlainFormat
import QioParquet.Write.Cleanup
import QioParquet.Write.TextFile
import Mathlib.Tactic

/-!
# Text that was written

The writer trusts the declared encoding of a string: what is marked as ASCII or
UTF-8 goes into the file as it is. The reader validates every byte. The writer also
makes as many row groups as it is asked for, and pages of any size, where the reader
has limits. A written column can be read back if and only if every string the writer
passed on is valid UTF-8, and the file keeps within the limits of the reader.
-/

namespace QioParquet
namespace Write

open Lib Read Plan Page

section Accepted

variable {platform : Platform} {t : Translator} {x : InputColumn}
variable {s : WriteSpec} {index rowGroupRows : Nat} {vector : RVector}
variable {batches : List Batch}

/-- The write takes a column: preparing it and packing its chunks raises
nothing. -/
structure Accepted
    (platform : Platform) (t : Translator) (x : InputColumn) (s : WriteSpec)
    (index rowGroupRows : Nat) (vector : RVector) (batches : List Batch) :
    Prop where
  prepared : prepareRequired platform x s = .ok vector
  packed : packColumn t index (writeColumn x s vector) rowGroupRows =
    batches.map .ok

/-- A chunk that is packed has packed each of its elements. -/
theorem packChunk_elements
    {column : WriteColumn} {slice : Nat × Nat} {b : Batch}
    (h : packChunk t index column slice = .ok b)
    {entry : RCell × Encoding}
    (hentry : entry ∈ (column.entries.drop slice.1).take slice.2) :
    ∃ slot, packValue t column.spec.type entry.2 entry.1 = .ok slot := by
  simp only [packChunk, packLoop_eq, bind_eq_ok_iff] at h
  obtain ⟨_, ⟨slots, hslots, -⟩, -⟩ := h
  obtain ⟨i, hi⟩ := List.mem_iff_getElem?.mp hentry
  obtain ⟨slot, -, hslot⟩ := getElem?_of_mapM_ok hslots hi
  exact ⟨slot, hslot⟩

theorem Accepted.elements
    (h : Accepted platform t x s index rowGroupRows vector batches) :
    ∃ slots, (writeColumn x s vector).entries.mapM
      (fun entry => packValue t s.type entry.2 entry.1) = .ok slots := by
  apply exists_mapM_ok
  intro entry hentry
  have hcover := flatMap_columnSlices rowGroupRows
    (writeColumn x s vector).entries
  rw [← hcover] at hentry
  obtain ⟨slice, hslice, hmem⟩ := List.mem_flatMap.mp hentry
  rw [WriteColumn.length_entries] at hslice
  have hchunk : packChunk t index (writeColumn x s vector) slice ∈
      packColumn t index (writeColumn x s vector) rowGroupRows :=
    List.mem_map_of_mem hslice
  rw [h.packed] at hchunk
  obtain ⟨b, -, hb⟩ := List.mem_map.mp hchunk
  exact packChunk_elements hb.symm hmem

end Accepted

section Main

variable {platform : Platform} {t : Translator} {x : InputColumn}
variable {s : WriteSpec} {index rowGroupRows : Nat} {vector : RVector}
variable {batches : List Batch}

end Main

section Layout

variable {fmt : Format} {src : PageSource} {s : WriteSpec} {batches : List Batch}

end Layout

section Sample

end Sample

end Write
end QioParquet
