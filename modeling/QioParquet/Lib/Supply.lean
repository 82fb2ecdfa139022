import Mathlib.Data.List.Basic
import Mathlib.Tactic

/-!
# Supplies

A supply is a machine that is asked for values. What a state of it means is the list of
the values still to come and the status it ends with (`left`); what can be seen of a
state is its status so far.

An answer to a demand for `n` values is right if it is the next `n` values, or all that
are left when there are fewer. Right answers to successive demands make a right answer
to the sum of the demands, and there is only one: how a demand is split does not matter.
-/

namespace QioParquet
namespace Lib

section Supplies

variable {σ α ρ : Type}

/-- A machine with the meaning of its states. -/
structure Supply (σ α ρ : Type) where
  left : σ → List α × ρ
  status : σ → ρ

namespace Supply

variable {supply : Supply σ α ρ}

/-- From one state to another exactly these values are given, and nothing has gone
wrong. -/
structure Gives (supply : Supply σ α ρ) (s : σ) (values : List α) (s' : σ) : Prop where
  left : supply.left s = (values ++ (supply.left s').1, (supply.left s').2)
  status : supply.status s' = supply.status s

/-- Nothing is left, and the status shows how the supply ended. -/
def Spent (supply : Supply σ α ρ) (s : σ) : Prop :=
  supply.left s = ([], supply.status s)

/-- The values are all that was left. -/
structure Exhausts (supply : Supply σ α ρ) (s : σ) (values : List α) (s' : σ) : Prop where
  left : supply.left s = (values, supply.status s')
  spent : supply.Spent s'

/-- A right answer to a demand for `n` values. -/
def Takes (supply : Supply σ α ρ) (n : Nat) (s : σ) (values : List α) (s' : σ) : Prop :=
  supply.Gives s values s' ∧ values.length = n ∨
    supply.Exhausts s values s' ∧ values.length < n

theorem Gives.refl (s : σ) : supply.Gives s [] s :=
  ⟨rfl, rfl⟩

theorem Gives.trans
    {s s' s'' : σ} {xs ys : List α}
    (hxs : supply.Gives s xs s') (hys : supply.Gives s' ys s'') :
    supply.Gives s (xs ++ ys) s'' where
  left := by
    rw [hxs.left, hys.left, List.append_assoc]
  status := hys.status.trans hxs.status

theorem Gives.exhausts
    {s s' s'' : σ} {xs ys : List α}
    (hxs : supply.Gives s xs s') (hys : supply.Exhausts s' ys s'') :
    supply.Exhausts s (xs ++ ys) s'' where
  left := by
    rw [hxs.left, hys.left]
  spent := hys.spent

theorem Spent.exhausts {s : σ} (h : supply.Spent s) : supply.Exhausts s [] s :=
  ⟨h, h⟩

/-- What a spent supply answers: nothing, and it stays as it is. -/
theorem Takes.spent
    {n : Nat} {s s' : σ} {values : List α}
    (hspent : supply.Spent s) (h : supply.Takes n s values s') :
    values = [] ∧ supply.Spent s' ∧ supply.status s' = supply.status s := by
  rw [Spent] at hspent
  rcases h with ⟨hgives, -⟩ | ⟨hexhausts, -⟩
  · have hleft := hgives.left
    rw [hspent, Prod.mk.injEq, List.nil_eq, List.append_eq_nil_iff] at hleft
    obtain ⟨⟨hvalues, hrest⟩, hend⟩ := hleft
    refine ⟨hvalues, Prod.ext hrest ?_, hgives.status⟩
    rw [← hend, hgives.status]
  · have hleft := hexhausts.left
    rw [hspent, Prod.mk.injEq] at hleft
    exact ⟨hleft.1.symm, hexhausts.spent, hleft.2.symm⟩

/-- Demands add up. -/
theorem Takes.add
    {n m : Nat} {s s' s'' : σ} {xs ys : List α}
    (hxs : supply.Takes n s xs s') (hys : supply.Takes m s' ys s'') :
    supply.Takes (n + m) s (xs ++ ys) s'' := by
  rcases hxs with ⟨hgives, hlength⟩ | ⟨hexhausts, hshort⟩
  · rcases hys with ⟨hnext, hrest⟩ | ⟨hnext, hrest⟩
    · exact .inl ⟨hgives.trans hnext, by rw [List.length_append, hlength, hrest]⟩
    · exact .inr ⟨hgives.exhausts hnext, by rw [List.length_append]; omega⟩
  · obtain ⟨rfl, hspent, hstatus⟩ := hys.spent hexhausts.spent
    rw [List.append_nil]
    refine .inr ⟨⟨?_, hspent⟩, by omega⟩
    rw [hexhausts.left, hstatus]

/-- There is one right answer to a demand. -/
theorem Takes.unique
    {n : Nat} {s a b : σ} {xs ys : List α}
    (hxs : supply.Takes n s xs a) (hys : supply.Takes n s ys b) :
    xs = ys ∧ supply.left a = supply.left b ∧ supply.status a = supply.status b := by
  rcases hxs with ⟨hgives, hlength⟩ | ⟨hexhausts, hshort⟩ <;>
    rcases hys with ⟨hgives', hlength'⟩ | ⟨hexhausts', hshort'⟩
  · have hleft := hgives.left.symm.trans hgives'.left
    rw [Prod.mk.injEq] at hleft
    obtain ⟨hvalues, hrest⟩ := List.append_inj hleft.1 (hlength.trans hlength'.symm)
    exact ⟨hvalues, Prod.ext hrest hleft.2, hgives.status.trans hgives'.status.symm⟩
  · have hleft := congrArg (fun left => left.1.length)
      (hgives.left.symm.trans hexhausts'.left)
    simp only [List.length_append] at hleft
    omega
  · have hleft := congrArg (fun left => left.1.length)
      (hgives'.left.symm.trans hexhausts.left)
    simp only [List.length_append] at hleft
    omega
  · have hleft := hexhausts.left.symm.trans hexhausts'.left
    rw [Prod.mk.injEq] at hleft
    refine ⟨hleft.1, ?_, hleft.2⟩
    rw [hexhausts.spent, hexhausts'.spent, hleft.2]

/-- A right answer is as much of what was left as was asked for. -/
theorem Takes.eq_take
    {n : Nat} {s s' : σ} {values : List α}
    (h : supply.Takes n s values s') :
    values = (supply.left s).1.take n := by
  rcases h with ⟨hgives, hlength⟩ | ⟨hexhausts, hshort⟩
  · rw [hgives.left, List.take_left' hlength]
  · rw [hexhausts.left]
    exact (List.take_of_length_le hshort.le).symm

/-- A supply that ends well never shows anything else. -/
theorem Takes.status_eq
    {n : Nat} {s s' : σ} {values : List α}
    (h : supply.Takes n s values s')
    (hend : (supply.left s).2 = supply.status s) :
    supply.status s' = supply.status s := by
  rcases h with ⟨hgives, -⟩ | ⟨hexhausts, -⟩
  · exact hgives.status
  · rw [← hend, hexhausts.left]

end Supply

end Supplies

end Lib
end QioParquet
