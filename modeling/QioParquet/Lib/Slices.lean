import Mathlib.Data.List.Basic
import Mathlib.Tactic

/-!
# Splitting a range into slices

Every read and write loop of the program walks a range of rows in steps of at
most a fixed width: `want = min (rows - read) chunk`, then `read += want`.
`slices` lists the positions and widths such a loop visits. The results here
are the loop's unfolding equation and the invariant rule for a fallible body.
-/

namespace QioParquet
namespace Lib

section Slices

/-- The slices visited from `start`, with `remaining` elements to go. The fuel
bounds the number of turns; `remaining` turns are always enough. -/
def slicesFuel (width : Nat) : Nat → Nat → Nat → List (Nat × Nat)
  | 0, _, _ => []
  | fuel + 1, start, remaining =>
      if remaining = 0 then
        []
      else
        (start, min remaining width) ::
          slicesFuel width fuel (start + min remaining width)
            (remaining - min remaining width)

/-- Positions and widths of the turns of a loop over `remaining` elements from
`start` on. -/
def slices (width start remaining : Nat) : List (Nat × Nat) :=
  slicesFuel width remaining start remaining

@[simp] theorem slices_zero
    (width start : Nat) :
    slices width start 0 = [] :=
  rfl

/-- More fuel than elements changes nothing. -/
theorem slicesFuel_eq
    {width : Nat}
    (hwidth : 0 < width) :
    ∀ (fuel start remaining : Nat),
      remaining ≤ fuel →
      slicesFuel width fuel start remaining =
        slices width start remaining := by
  intro fuel
  induction fuel using Nat.strong_induction_on with
  | _ fuel ih =>
      intro start remaining hle
      cases fuel with
      | zero =>
          obtain rfl : remaining = 0 := by omega
          rfl
      | succ fuel =>
          cases remaining with
          | zero =>
              simp [slicesFuel]
          | succ remaining =>
              have hleft :=
                ih fuel (by omega)
                  (start + min (remaining + 1) width)
                  (remaining + 1 - min (remaining + 1) width)
                  (by omega)
              have hright :
                  slicesFuel width remaining
                      (start + min (remaining + 1) width)
                      (remaining + 1 - min (remaining + 1) width) =
                    slices width
                      (start + min (remaining + 1) width)
                      (remaining + 1 - min (remaining + 1) width) := by
                by_cases hsame : remaining = fuel
                · rw [hsame] at hleft ⊢
                  exact hleft
                · exact ih remaining (by omega) _ _ (by omega)
              simp only [slices, slicesFuel, Nat.add_eq_zero_iff,
                Nat.one_ne_zero, and_false, if_false]
              rw [hleft, hright]

/-- One turn of the loop. -/
theorem slices_pos
    {width start remaining : Nat}
    (hwidth : 0 < width)
    (hpos : 0 < remaining) :
    slices width start remaining =
      (start, min remaining width) ::
        slices width (start + min remaining width)
          (remaining - min remaining width) := by
  obtain ⟨k, rfl⟩ : ∃ k, remaining = k + 1 := ⟨remaining - 1, by omega⟩
  conv_lhs =>
    rw [slices, slicesFuel]
  rw [if_neg (by omega), slicesFuel_eq hwidth _ _ _ (by omega)]

/-- Induction along the turns of the loop. -/
theorem slices_induction
    {width : Nat}
    (hwidth : 0 < width)
    {motive : Nat → Nat → Prop}
    (done : ∀ start, motive start 0)
    (turn : ∀ start remaining,
      0 < remaining →
      motive (start + min remaining width)
        (remaining - min remaining width) →
      motive start remaining) :
    ∀ start remaining, motive start remaining := by
  intro start remaining
  induction remaining using Nat.strong_induction_on generalizing start with
  | _ remaining ih =>
      rcases Nat.eq_zero_or_pos remaining with rfl | hpos
      · exact done start
      · exact turn start remaining hpos (ih _ (by omega) _)

/-- Every slice lies inside the range, is not empty and is at most `width`
wide. -/
theorem mem_slices
    {width start remaining : Nat}
    (hwidth : 0 < width)
    {slice : Nat × Nat}
    (hmem : slice ∈ slices width start remaining) :
    start ≤ slice.1 ∧
      slice.1 + slice.2 ≤ start + remaining ∧
      0 < slice.2 ∧
      slice.2 ≤ width := by
  revert hmem
  refine slices_induction hwidth
    (motive := fun start remaining =>
      slice ∈ slices width start remaining →
        start ≤ slice.1 ∧ slice.1 + slice.2 ≤ start + remaining ∧
          0 < slice.2 ∧ slice.2 ≤ width) ?_ ?_ start remaining
  · intro start hmem
    simp at hmem
  · intro start remaining hpos ih hmem
    rw [slices_pos hwidth hpos] at hmem
    rcases List.mem_cons.mp hmem with rfl | hrest
    · simp only
      omega
    · have := ih hrest
      omega

/-- Widths of the slices add up to the range. -/
theorem sum_slices
    {width : Nat}
    (hwidth : 0 < width)
    (start remaining : Nat) :
    ((slices width start remaining).map Prod.snd).sum = remaining := by
  refine slices_induction hwidth
    (motive := fun start remaining =>
      ((slices width start remaining).map Prod.snd).sum = remaining)
    ?_ ?_ start remaining
  · intro start
    simp
  · intro start remaining hpos ih
    rw [slices_pos hwidth hpos, List.map_cons, List.sum_cons, ih]
    simp only
    omega

/-- A list cut along the slices of its length is the list. -/
theorem flatMap_slices
    {α : Type*} {width : Nat}
    (hwidth : 0 < width)
    (xs : List α) (start remaining : Nat) :
    (slices width start remaining).flatMap
        (fun slice => (xs.drop slice.1).take slice.2) =
      (xs.drop start).take remaining := by
  refine slices_induction hwidth
    (motive := fun start remaining =>
      (slices width start remaining).flatMap
          (fun slice => (xs.drop slice.1).take slice.2) =
        (xs.drop start).take remaining) ?_ ?_ start remaining
  · intro start
    simp
  · intro start remaining hpos ih
    rw [slices_pos hwidth hpos, List.flatMap_cons, ih]
    have hsplit :
        remaining =
          min remaining width + (remaining - min remaining width) := by
      omega
    conv_rhs =>
      rw [hsplit, List.take_add]
    rw [List.drop_drop]

/-- The slices of a range, one by one. -/
theorem slices_eq_range
    {width : Nat}
    (hwidth : 0 < width)
    (start remaining : Nat) :
    slices width start remaining =
      (List.range ((remaining + width - 1) / width)).map fun i =>
        (start + i * width, min width (remaining - i * width)) := by
  refine slices_induction hwidth
    (motive := fun start remaining =>
      slices width start remaining =
        (List.range ((remaining + width - 1) / width)).map fun i =>
          (start + i * width, min width (remaining - i * width)))
    ?_ ?_ start remaining
  · intro start
    rw [slices_zero, Nat.div_eq_of_lt (by omega)]
    rfl
  · intro start remaining hpos ih
    rw [slices_pos hwidth hpos, ih]
    rcases Nat.le_total remaining width with hle | hle
    · -- the last turn
      have hturns : (remaining + width - 1) / width = 1 :=
        Nat.div_eq_of_lt_le (by omega) (by omega)
      rw [hturns, min_eq_left hle, Nat.sub_self, Nat.zero_add,
        Nat.div_eq_of_lt (by omega : width - 1 < width)]
      simp [hle]
    · have hturns : (remaining + width - 1) / width =
          (remaining - width + width - 1) / width + 1 := by
        rw [← Nat.add_div_right _ hwidth]
        congr 1
        omega
      rw [hturns, min_eq_right hle, List.range_succ_eq_map, List.map_cons,
        List.map_map]
      congr 1
      · simp [hle]
      · refine List.map_congr_left fun i _ => ?_
        simp only [Function.comp_apply, Nat.succ_mul, Prod.mk.injEq]
        omega

/-- Invariant rule for a loop over slices whose body may fail: an invariant
indexed by the position reached holds at the end of a loop that returns. -/
theorem foldlM_slices_inv
    {σ ε : Type*} {width : Nat}
    (hwidth : 0 < width)
    (body : σ → Nat × Nat → Except ε σ)
    (Inv : Nat → σ → Prop)
    (bound : Nat)
    (step : ∀ position want s s',
      0 < want →
      position + want ≤ bound →
      Inv position s →
      body s (position, want) = .ok s' →
      Inv (position + want) s')
    (start remaining : Nat)
    (hbound : start + remaining ≤ bound)
    {s s' : σ}
    (hinit : Inv start s)
    (hrun :
      (slices width start remaining).foldlM body s = .ok s') :
    Inv (start + remaining) s' := by
  revert hbound s
  refine slices_induction hwidth
    (motive := fun start remaining =>
      start + remaining ≤ bound →
        ∀ {s : σ}, Inv start s →
          (slices width start remaining).foldlM body s = .ok s' →
            Inv (start + remaining) s') ?_ ?_ start remaining
  · intro start _ s hinit hrun
    have hs : s = s' := by
      simpa [pure, Except.pure] using hrun
    simpa [← hs] using hinit
  · intro start remaining hpos ih hbound s hinit hrun
    rw [slices_pos hwidth hpos, List.foldlM_cons] at hrun
    cases hbody : body s (start, min remaining width) with
    | error e =>
        rw [hbody] at hrun
        cases hrun
    | ok t =>
        rw [hbody] at hrun
        have hnext :=
          step start (min remaining width) s t (by omega) (by omega)
            hinit hbody
        have hend := ih (by omega) hnext hrun
        have hsum :
            start + min remaining width +
                (remaining - min remaining width) =
              start + remaining := by
          omega
        rwa [hsum] at hend

end Slices

end Lib
end QioParquet
