import QioParquet.Lib.BitStream
import Mathlib.Tactic

/-!
# Entries behind their lengths

A table of byte strings is written as one entry after the other, each behind its length in
four little-endian bytes. A reader that is told how many there are gets the entries back,
with the places where their lengths stand; a reader that is not told can count them.
-/

namespace QioParquet
namespace Lib

section Prefixed

/-- An entry behind its length. -/
def prefixed (entry : List UInt8) : List UInt8 :=
  leBytes 4 entry.length ++ entry

/-- As many entries as asked for, each with the place of its length. An entry is taken when
it is shorter than the limit and lies within the bytes. -/
def readEntries (limit : Nat) : Nat → Nat → List UInt8 → Option (List (Nat × List UInt8))
  | 0, _, _ => some []
  | count + 1, offset, bytes =>
      if bytes.length < 4 then
        none
      else
        let length := littleEndian (bytes.take 4)
        if limit ≤ length ∨ bytes.length < 4 + length then
          none
        else
          (readEntries limit count (offset + (4 + length)) (bytes.drop (4 + length))).map
            ((offset, (bytes.drop 4).take length) :: ·)

/-- The number of entries, found by going from length to length. -/
def countEntries : Nat → List UInt8 → Nat
  | 0, _ => 0
  | turns + 1, bytes =>
      if bytes.length < 4 then
        0
      else
        countEntries turns (bytes.drop (4 + littleEndian (bytes.take 4))) + 1

/-- Where the lengths of some entries stand. -/
def entryOffsets : Nat → List (List UInt8) → List Nat
  | _, [] => []
  | offset, entry :: rest => offset :: entryOffsets (offset + (4 + entry.length)) rest

variable {entries : List (List UInt8)}

@[simp] theorem length_prefixed
    (entry : List UInt8) :
    (prefixed entry).length = 4 + entry.length := by
  simp [prefixed]

theorem drop_prefixed
    (entry rest : List UInt8) :
    (prefixed entry ++ rest).drop (4 + entry.length) = rest :=
  List.drop_left' (length_prefixed entry)

/-- What a reader sees at an entry. -/
theorem prefixed_front
    {entry : List UInt8}
    (hshort : entry.length < 2 ^ 32) (rest : List UInt8) :
    littleEndian ((prefixed entry ++ rest).take 4) = entry.length ∧
      ((prefixed entry ++ rest).drop 4).take entry.length = entry := by
  have htake : (prefixed entry ++ rest).take 4 = leBytes 4 entry.length := by
    rw [prefixed, List.append_assoc]
    exact List.take_left' (length_leBytes _ _)
  have hdrop : (prefixed entry ++ rest).drop 4 = entry ++ rest := by
    rw [prefixed, List.append_assoc]
    exact List.drop_left' (length_leBytes _ _)
  rw [htake, hdrop, littleEndian_leBytes_of_lt (by omega)]
  exact ⟨rfl, List.take_left' rfl⟩

/-- Entries are read back, in front of anything. -/
theorem readEntries_prefixed
    {limit : Nat}
    (hlimit : limit ≤ 2 ^ 32)
    (hshort : ∀ entry ∈ entries, entry.length < limit)
    (offset : Nat) (rest : List UInt8) :
    readEntries limit entries.length offset (entries.flatMap prefixed ++ rest) =
      some ((entryOffsets offset entries).zip entries) := by
  induction entries generalizing offset with
  | nil =>
      rfl
  | cons entry entries ih =>
      obtain ⟨hentry, hentries⟩ := List.forall_mem_cons.mp hshort
      obtain ⟨hlength, htake⟩ := prefixed_front (lt_of_lt_of_le hentry hlimit)
        (entries.flatMap prefixed ++ rest)
      have hbytes : (entry :: entries).flatMap prefixed ++ rest =
          prefixed entry ++ (entries.flatMap prefixed ++ rest) := by
        rw [List.flatMap_cons, List.append_assoc]
      have hroom : ¬ (prefixed entry ++ (entries.flatMap prefixed ++ rest)).length < 4 := by
        rw [List.length_append, length_prefixed]
        omega
      have hfits : ¬ (limit ≤ entry.length ∨
          (prefixed entry ++ (entries.flatMap prefixed ++ rest)).length <
            4 + entry.length) := by
        rw [List.length_append, length_prefixed]
        omega
      rw [hbytes, List.length_cons, readEntries, if_neg hroom]
      simp only [hlength, htake]
      rw [if_neg hfits, drop_prefixed, ih hentries]
      rfl

/-- A walk from length to length finds every entry. -/
theorem countEntries_prefixed
    (hshort : ∀ entry ∈ entries, entry.length < 2 ^ 32)
    {turns : Nat}
    (hturns : entries.length ≤ turns) :
    countEntries turns (entries.flatMap prefixed) = entries.length := by
  induction entries generalizing turns with
  | nil =>
      cases turns <;> rfl
  | cons entry entries ih =>
      obtain ⟨hentry, hentries⟩ := List.forall_mem_cons.mp hshort
      rw [List.length_cons] at hturns
      obtain ⟨turns, rfl⟩ : ∃ n, turns = n + 1 :=
        ⟨turns - 1, by omega⟩
      have hroom : ¬ (prefixed entry ++ entries.flatMap prefixed).length < 4 := by
        rw [List.length_append, length_prefixed]
        omega
      rw [List.flatMap_cons, countEntries, if_neg hroom, (prefixed_front hentry _).1,
        drop_prefixed, ih hentries (by omega), List.length_cons]

theorem length_le_flatMap_prefixed
    (entries : List (List UInt8)) :
    entries.length ≤ (entries.flatMap prefixed).length := by
  induction entries with
  | nil =>
      simp
  | cons entry entries ih =>
      rw [List.flatMap_cons, List.length_append, List.length_cons, length_prefixed]
      omega

@[simp] theorem length_entryOffsets
    (offset : Nat) (entries : List (List UInt8)) :
    (entryOffsets offset entries).length = entries.length := by
  induction entries generalizing offset with
  | nil =>
      rfl
  | cons entry entries ih =>
      rw [entryOffsets, List.length_cons, ih, List.length_cons]

/-- At each of the places stands its entry. -/
theorem split_at_entryOffset
    {offset i place : Nat}
    (h : (entryOffsets offset entries)[i]? = some place) :
    ∃ entry front rest, entries[i]? = some entry ∧
      entries.flatMap prefixed = front ++ (prefixed entry ++ rest) ∧
      place = offset + front.length := by
  induction entries generalizing offset i with
  | nil =>
      cases h
  | cons first entries ih =>
      cases i with
      | zero =>
          cases h
          exact ⟨first, [], entries.flatMap prefixed, rfl, rfl, rfl⟩
      | succ i =>
          rw [entryOffsets, List.getElem?_cons_succ] at h
          obtain ⟨entry, front, rest, hentry, hsplit, rfl⟩ := ih h
          refine ⟨entry, prefixed first ++ front, rest, hentry, ?_, ?_⟩
          · rw [List.flatMap_cons, hsplit, List.append_assoc]
          · rw [List.length_append, length_prefixed]
            omega

end Prefixed

end Lib
end QioParquet
