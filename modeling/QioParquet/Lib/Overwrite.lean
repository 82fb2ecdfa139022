import Mathlib.Data.List.Basic
import Mathlib.Tactic

/-!
# Overwriting a block of a list

Storing a block at a position is the one memory operation of the development:
a decoder fills consecutive rows of a vector, and a stream opened for update
replaces the bytes at its position.

Main facts:

* consecutive stores are one store of the concatenation;
* a store that covers an earlier one at the same position hides it;
* a store leaves everything outside its own block as it was.
-/

namespace QioParquet
namespace Lib

section Overwrite

variable {α : Type*}

/-- Replace the elements from `pos` on by `block`, extending the list where
the block runs past its end. -/
def overwrite (dst : List α) (pos : Nat) (block : List α) : List α :=
  dst.take pos ++ block ++ dst.drop (pos + block.length)

@[simp] theorem overwrite_nil
    (dst : List α) (pos : Nat) :
    overwrite dst pos [] = dst := by
  simp [overwrite]

theorem length_overwrite
    (dst : List α) (pos : Nat) (block : List α)
    (hpos : pos ≤ dst.length) :
    (overwrite dst pos block).length =
      max dst.length (pos + block.length) := by
  simp only [overwrite, List.length_append, List.length_take,
    List.length_drop]
  omega

theorem length_overwrite_of_le
    (dst : List α) (pos : Nat) (block : List α)
    (hfit : pos + block.length ≤ dst.length) :
    (overwrite dst pos block).length = dst.length := by
  rw [length_overwrite dst pos block (by omega)]
  omega

theorem take_overwrite
    (dst : List α) (pos : Nat) (block : List α)
    (hpos : pos ≤ dst.length) :
    (overwrite dst pos block).take pos = dst.take pos := by
  unfold overwrite
  rw [List.append_assoc, List.take_append_of_le_length]
  · simp
  · simp only [List.length_take]
    omega

theorem drop_overwrite
    (dst : List α) (pos : Nat) (block : List α)
    (hpos : pos ≤ dst.length) :
    (overwrite dst pos block).drop (pos + block.length) =
      dst.drop (pos + block.length) := by
  unfold overwrite
  have hlen :
      (dst.take pos ++ block).length = pos + block.length := by
    simp only [List.length_append, List.length_take]
    omega
  rw [← hlen, List.drop_left, hlen]

theorem block_overwrite
    (dst : List α) (pos : Nat) (block : List α)
    (hpos : pos ≤ dst.length) :
    ((overwrite dst pos block).drop pos).take block.length = block := by
  unfold overwrite
  have hlen : (dst.take pos).length = pos := by
    simp only [List.length_take]
    omega
  rw [List.append_assoc, List.drop_left' hlen, List.take_left]

/-- The first part of a stored block, read back. -/
theorem take_drop_overwrite
    (dst : List α) (pos : Nat) (first second : List α)
    (hpos : pos ≤ dst.length) :
    ((overwrite dst pos (first ++ second)).drop pos).take first.length = first := by
  have h := congrArg (List.take first.length)
    (block_overwrite dst pos (first ++ second) hpos)
  rwa [List.take_take, List.length_append,
    Nat.min_eq_left (Nat.le_add_right _ _), List.take_left] at h

/-- Outside the stored block nothing changes. -/
theorem getElem?_overwrite_outside
    (dst : List α) (pos : Nat) (block : List α) (i : Nat)
    (hpos : pos ≤ dst.length)
    (hi : i < pos ∨ pos + block.length ≤ i) :
    (overwrite dst pos block)[i]? = dst[i]? := by
  rcases hi with hlt | hge
  · have h := congrArg (fun xs : List α => xs[i]?)
      (take_overwrite dst pos block hpos)
    simpa [List.getElem?_take_of_lt hlt] using h
  · have h := congrArg
      (fun xs : List α => xs[i - (pos + block.length)]?)
      (drop_overwrite dst pos block hpos)
    simpa [List.getElem?_drop, Nat.add_sub_cancel' hge] using h

/-- Inside the stored block the block's own elements are read back. -/
theorem getElem?_overwrite_inside
    (dst : List α) (pos : Nat) (block : List α) (i : Nat)
    (hpos : pos ≤ dst.length)
    (hi : i < block.length) :
    (overwrite dst pos block)[pos + i]? = block[i]? := by
  have h := congrArg (fun xs : List α => xs[i]?)
    (block_overwrite dst pos block hpos)
  simpa [List.getElem?_take_of_lt hi, List.getElem?_drop] using h

/-- Two stores, the second starting where the first ended, are one store. -/
theorem overwrite_overwrite_append
    (dst : List α) (pos : Nat) (first second : List α)
    (hpos : pos ≤ dst.length) :
    overwrite (overwrite dst pos first) (pos + first.length) second =
      overwrite dst pos (first ++ second) := by
  have hlen :
      (dst.take pos ++ first).length = pos + first.length := by
    simp only [List.length_append, List.length_take]
    omega
  have htake :
      (overwrite dst pos first).take (pos + first.length) =
        dst.take pos ++ first := by
    unfold overwrite
    rw [← hlen, List.take_left]
  have hdrop :
      (overwrite dst pos first).drop
          (pos + first.length + second.length) =
        dst.drop (pos + first.length + second.length) := by
    rw [← List.drop_drop, drop_overwrite dst pos first hpos,
      List.drop_drop]
  rw [overwrite, htake, hdrop]
  simp [overwrite, Nat.add_assoc]

/-- A store hides an earlier one at the same position that it covers. -/
theorem overwrite_overwrite_cover
    (dst : List α) (pos : Nat) (first second : List α)
    (hpos : pos ≤ dst.length)
    (hcover : first.length ≤ second.length) :
    overwrite (overwrite dst pos first) pos second =
      overwrite dst pos second := by
  have hsplit :
      pos + second.length =
        pos + first.length + (second.length - first.length) := by
    omega
  have hdrop :
      (overwrite dst pos first).drop (pos + second.length) =
        dst.drop (pos + second.length) := by
    rw [hsplit, ← List.drop_drop, drop_overwrite dst pos first hpos,
      List.drop_drop]
  rw [overwrite, take_overwrite dst pos first hpos, hdrop]
  rfl

/-- Filling a whole list leaves only the block. -/
theorem overwrite_full
    (dst block : List α)
    (hlen : dst.length ≤ block.length) :
    overwrite dst 0 block = block := by
  simp [overwrite, hlen]

/-- A store that ends at or past the end of the list leaves no old suffix. -/
theorem overwrite_past_end
    (dst : List α) (pos : Nat) (block : List α)
    (hend : dst.length ≤ pos + block.length) :
    overwrite dst pos block = dst.take pos ++ block := by
  simp [overwrite, hend]

end Overwrite

end Lib
end QioParquet
