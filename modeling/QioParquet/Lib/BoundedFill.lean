import QioParquet.Lib.OptionalRows
import Mathlib.Tactic

/-!
# Loops that stop when their output is full

Nested loops append to one output of fixed capacity, and every loop also stops once
the output is full. Whatever the nesting, such loops emit the items they would visit
in order, up to the capacity, and end with the error of the first item emitted that
has one.
-/

namespace QioParquet
namespace Lib

section Filling

variable {ε α β γ : Type}

/-- A loop that goes on while there is room. -/
def fillWhile (capacity : Nat)
    (body : List β → α → Except ε (List β)) :
    List α → List β → Except ε (List β)
  | [], out => .ok out
  | x :: rest, out =>
      if out.length < capacity then do
        let out' ← body out x
        fillWhile capacity body rest out'
      else
        .ok out

/-- The items are emitted behind the output, as far as there is room. -/
def emitInto (capacity : Nat) (emit : γ → Except ε β) (items : List γ)
    (out : List β) : Except ε (List β) := do
  let rows ← (items.take (capacity - out.length)).mapM emit
  return out ++ rows

/-- A loop body that emits the items of its turn. -/
def Fills (capacity : Nat) (items : α → List γ) (emit : γ → Except ε β)
    (body : List β → α → Except ε (List β)) : Prop :=
  ∀ out x, out.length < capacity → body out x = emitInto capacity emit (items x) out

variable {capacity : Nat} {emit : γ → Except ε β}

theorem emitInto_full
    {out : List β}
    (items : List γ)
    (hfull : capacity ≤ out.length) :
    emitInto capacity emit items out = .ok out := by
  rw [emitInto, Nat.sub_eq_zero_of_le hfull, List.take_zero]
  simp [pure_eq_ok]

/-- Emitting two lists of items one after the other. -/
theorem emitInto_append
    (first second : List γ) (out : List β) :
    emitInto capacity emit (first ++ second) out =
      emitInto capacity emit first out >>=
        emitInto capacity emit second := by
  simp only [emitInto, List.take_append, List.mapM_append, bind_assoc]
  cases hfirst : (first.take (capacity - out.length)).mapM emit with
  | error e =>
      rfl
  | ok rows =>
      have hlen : rows.length = min (capacity - out.length) first.length := by
        rw [← (forall₂_of_mapM_ok hfirst).length_eq, List.length_take]
      have hroom : capacity - out.length - first.length =
          capacity - (out ++ rows).length := by
        rw [List.length_append, hlen]
        omega
      rw [hroom]
      simp only [ok_bind, pure_bind]
      rw [emitInto]
      simp only [List.append_assoc]

/-- A loop emits the items of all its turns. -/
theorem fillWhile_eq
    {items : α → List γ} {body : List β → α → Except ε (List β)}
    (hbody : Fills capacity items emit body)
    (xs : List α) (out : List β) :
    fillWhile capacity body xs out =
      emitInto capacity emit (xs.flatMap items) out := by
  induction xs generalizing out with
  | nil =>
      rw [fillWhile, List.flatMap_nil, emitInto, List.take_nil]
      simp [pure_eq_ok]
  | cons x rest ih =>
      rw [fillWhile, List.flatMap_cons, emitInto_append]
      split_ifs with hroom
      · rw [hbody out x hroom]
        exact bind_congr fun out' => ih out'
      · rw [emitInto_full _ (Nat.le_of_not_lt hroom), ok_bind,
          emitInto_full _ (Nat.le_of_not_lt hroom)]

/-- A loop within a loop. -/
theorem Fills.nest {δ : Type}
    {items : δ → α → List γ} {body : δ → List β → α → Except ε (List β)}
    (hbody : ∀ y, Fills capacity (items y) emit (body y))
    (xs : δ → List α) :
    Fills capacity (fun y => (xs y).flatMap (items y)) emit
      fun out y => fillWhile capacity (body y) (xs y) out :=
  fun out y _ => fillWhile_eq (hbody y) (xs y) out

/-- The innermost loop emits one item a turn. -/
theorem Fills.push
    (item : α → γ) :
    Fills capacity (fun x => [item x]) emit fun out x => do
      let row ← emit (item x)
      return out ++ [row] := by
  intro out x hroom
  obtain ⟨room, hroom'⟩ : ∃ room, capacity - out.length = room + 1 :=
    ⟨capacity - out.length - 1, by omega⟩
  rw [emitInto, hroom', List.take_succ_cons, List.take_nil]
  cases hitem : emit (item x) with
  | error e =>
      simp [List.mapM_cons, hitem, error_bind]
  | ok row =>
      simp [List.mapM_cons, hitem, ok_bind]

/-- What has been emitted when the loops end. -/
theorem emitInto_nil_eq_ok
    {items : List γ} {rows : List β} :
    emitInto capacity emit items [] = .ok rows ↔
      (items.take capacity).mapM emit = .ok rows := by
  rw [emitInto, List.length_nil, Nat.sub_zero]
  cases (items.take capacity).mapM emit with
  | error e =>
      simp [error_bind]
  | ok rows' =>
      simp [ok_bind, pure_eq_ok]

end Filling

end Lib
end QioParquet
