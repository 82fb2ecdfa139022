import Mathlib.Tactic

/-!
# Rows in pages

Rows are stored in pages, and a page may fail to load. They are asked for in runs of any
length, and a run goes on over the end of a page. What a run gets depends on the rows
before the first page that fails, and on nothing else of how the rows are cut into pages.
-/

namespace QioParquet
namespace Lib

section Paging

variable {α : Type}

/-- Rows from the front of some pages, and whether a page that was needed did not load. -/
def readPages : List (Option (List α)) → Nat → List α × Bool
  | [], _ => ([], false)
  | page :: rest, want =>
      if want = 0 then
        ([], false)
      else
        match page with
        | none => ([], true)
        | some rows =>
            let more := readPages rest (want - rows.length)
            (rows.take want ++ more.1, more.2)

/-- The pages that are left behind some rows. -/
def dropRows : Nat → List (Option (List α)) → List (Option (List α))
  | _, [] => []
  | _, none :: rest => none :: rest
  | count, some rows :: rest =>
      if count < rows.length then some (rows.drop count) :: rest
      else dropRows (count - rows.length) rest

/-- The rows before the first page that does not load. -/
def loadedRows : List (Option (List α)) → List α
  | [] => []
  | none :: _ => []
  | some rows :: rest => rows ++ loadedRows rest

/-- A page does not load. -/
def hasGap (pages : List (Option (List α))) : Bool :=
  pages.any Option.isNone

theorem readPages_eq
    (pages : List (Option (List α))) (want : Nat) :
    readPages pages want =
      ((loadedRows pages).take want,
        decide ((loadedRows pages).length < want) && hasGap pages) := by
  induction pages generalizing want with
  | nil =>
      simp [readPages, loadedRows, hasGap]
  | cons page rest ih =>
      cases page with
      | none =>
          cases want <;> simp [readPages, loadedRows, hasGap]
      | some rows =>
          rcases Nat.eq_zero_or_pos want with rfl | hwant
          · simp [readPages]
          · rw [readPages, if_neg hwant.ne', ih, loadedRows, List.take_append]
            simp only [hasGap, List.any_cons, Option.isNone_some, Bool.false_or,
              List.length_append]
            congr 2
            rw [decide_eq_decide]
            omega

theorem loadedRows_dropRows
    (count : Nat) (pages : List (Option (List α))) :
    loadedRows (dropRows count pages) = (loadedRows pages).drop count := by
  induction pages generalizing count with
  | nil =>
      simp [dropRows, loadedRows]
  | cons page rest ih =>
      cases page with
      | none =>
          simp [dropRows, loadedRows]
      | some rows =>
          rw [dropRows, loadedRows, List.drop_append]
          split_ifs with hinside
          · rw [loadedRows, Nat.sub_eq_zero_of_le hinside.le, List.drop_zero]
          · rw [ih, List.drop_eq_nil_of_le (not_lt.mp hinside), List.nil_append]

theorem hasGap_dropRows
    (count : Nat) (pages : List (Option (List α))) :
    hasGap (dropRows count pages) = hasGap pages := by
  induction pages generalizing count with
  | nil =>
      rfl
  | cons page rest ih =>
      cases page with
      | none =>
          rfl
      | some rows =>
          rw [dropRows]
          split_ifs with hinside
          · rfl
          · exact ih (count - rows.length)

/-- Rows from some position on: nothing when no row could be had for a page that did not
load. -/
def readRun (pages : List (Option (List α))) (position want : Nat) : Option (List α) :=
  let run := readPages (dropRows position pages) want
  if run.1 = [] ∧ run.2 then none else some run.1

@[simp] theorem readRun_nil
    (position want : Nat) :
    readRun ([] : List (Option (List α))) position want = some [] := by
  simp [readRun, dropRows, readPages]

/-- A run over pages that all load. -/
theorem readRun_of_not_hasGap
    {pages : List (Option (List α))}
    (h : hasGap pages = false) (position want : Nat) :
    readRun pages position want = some (((loadedRows pages).drop position).take want) := by
  rw [readRun, readPages_eq, loadedRows_dropRows, hasGap_dropRows, h]
  simp

end Paging

end Lib
end QioParquet
