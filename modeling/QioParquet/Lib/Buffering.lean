import Mathlib.Data.List.Basic
import Mathlib.Tactic

/-!
# Machines that buffer and flush

A machine records items one after the other. A test after each item may make it
flush what it has recorded. As long as the test stays quiet the machine only
records, so what it holds is a fold of the items; and the item at which it first
speaks is where the first flush comes.
-/

namespace QioParquet
namespace Lib

section Push

variable {σ α : Type} {record : σ → α → σ} {full : σ → Bool} {flush : σ → σ}

/-- Record an item, and flush if the test says so. -/
def pushItem
    (record : σ → α → σ) (full : σ → Bool) (flush : σ → σ) (s : σ) (x : α) :
    σ :=
  if full (record s x) then flush (record s x) else record s x

/-- No item of the list makes the machine flush. -/
def Quiet
    (record : σ → α → σ) (full : σ → Bool) (s : σ) (xs : List α) : Prop :=
  ∀ n < xs.length, full ((xs.take (n + 1)).foldl record s) = false

theorem Quiet.take
    {s : σ} {xs : List α}
    (h : Quiet record full s xs)
    (k : Nat) :
    Quiet record full s (xs.take k) := by
  intro n hn
  rw [List.length_take] at hn
  rw [List.take_take, min_eq_left (by omega)]
  exact h n (by omega)

/-- A quiet machine only records. -/
theorem foldl_pushItem_of_quiet
    {s : σ} {xs : List α}
    (h : Quiet record full s xs) :
    xs.foldl (pushItem record full flush) s = xs.foldl record s := by
  induction xs using List.reverseRecOn with
  | nil =>
      rfl
  | append_singleton xs x ih =>
      have hinit : Quiet record full s xs := by
        simpa using h.take xs.length
      have hlast := h xs.length (by simp)
      rw [List.take_of_length_le (by simp), List.foldl_concat] at hlast
      rw [List.foldl_concat, List.foldl_concat, ih hinit, pushItem,
        if_neg (by simp [hlast])]

/-- A machine that is quiet up to the last item holds, once flushed, what it has
recorded: whether the last item made it flush does not matter. -/
theorem flush_foldl_pushItem
    (hflush : ∀ s, flush (flush s) = flush s)
    {s : σ} {xs : List α}
    (h : Quiet record full s xs.dropLast) :
    flush (xs.foldl (pushItem record full flush) s) =
      flush (xs.foldl record s) := by
  rcases List.eq_nil_or_concat xs with rfl | ⟨ys, x, rfl⟩
  · rfl
  · rw [List.concat_eq_append, List.dropLast_concat] at h
    rw [List.concat_eq_append, List.foldl_concat, List.foldl_concat,
      foldl_pushItem_of_quiet h, pushItem]
    split_ifs
    · exact hflush _
    · rfl

/-- A machine that is not quiet flushes a first time. -/
theorem exists_first_flush
    {s : σ} {xs : List α}
    (flush : σ → σ)
    (h : ¬ Quiet record full s xs) :
    ∃ n < xs.length,
      (xs.take (n + 1)).foldl (pushItem record full flush) s =
        flush ((xs.take (n + 1)).foldl record s) := by
  classical
  have hexists : ∃ n, n < xs.length ∧
      full ((xs.take (n + 1)).foldl record s) = true := by
    simpa [Quiet] using h
  obtain ⟨hlt, hfull⟩ := Nat.find_spec hexists
  refine ⟨Nat.find hexists, hlt, ?_⟩
  generalize hn : Nat.find hexists = n at hlt hfull
  have hquiet : Quiet record full s (xs.take n) := by
    intro m hm
    rw [List.length_take] at hm
    rw [List.take_take, min_eq_left (by omega)]
    have hmin := Nat.find_min hexists (m := m) (by omega)
    simpa [show m < xs.length by omega] using hmin
  rw [List.take_succ_eq_append_getElem hlt, List.foldl_concat] at hfull ⊢
  rw [List.foldl_concat, foldl_pushItem_of_quiet hquiet, pushItem,
    if_pos hfull]

end Push

end Lib
end QioParquet
