import Mathlib.Data.List.Basic
import Mathlib.Tactic

/-!
# RingBuffer buffers

A fixed number of slots, an index to take from, an index to put to, and a count. The
indexes run around the slots. As long as no more is put in than there are slots, and nothing
is taken from an empty ring, it is a queue.
-/

namespace QioParquet
namespace Lib

variable {α : Type*}

structure RingBuffer (α : Type*) where
  slots : List α
  head : Nat
  tail : Nat
  count : Nat

namespace RingBuffer

/-- All slots are there; nothing is in use. -/
def empty (capacity : Nat) (blank : α) : RingBuffer α :=
  ⟨List.replicate capacity blank, 0, 0, 0⟩

def push (ring : RingBuffer α) (x : α) : RingBuffer α where
  slots := ring.slots.set ring.tail x
  head := ring.head
  tail := (ring.tail + 1) % ring.slots.length
  count := ring.count + 1

/-- The next one to take. -/
def front (ring : RingBuffer α) : Option α :=
  ring.slots[ring.head]?

def pop (ring : RingBuffer α) : RingBuffer α where
  slots := ring.slots
  head := (ring.head + 1) % ring.slots.length
  tail := ring.tail
  count := ring.count - 1

/-- The ring holds a queue. -/
structure Holds (ring : RingBuffer α) (xs : List α) : Prop where
  count : ring.count = xs.length
  fits : xs.length ≤ ring.slots.length
  head : ring.head < ring.slots.length
  tail : ring.tail = (ring.head + xs.length) % ring.slots.length
  slots : ∀ i, i < xs.length →
    ring.slots[(ring.head + i) % ring.slots.length]? = xs[i]?

theorem empty_holds
    {capacity : Nat} (hcapacity : 0 < capacity) (blank : α) :
    (empty capacity blank).Holds [] where
  count := rfl
  fits := Nat.zero_le _
  head := by simpa [empty] using hcapacity
  tail := by simp [empty]
  slots i hi := absurd hi (Nat.not_lt_zero i)

@[simp] theorem length_slots_push
    (ring : RingBuffer α) (x : α) :
    (ring.push x).slots.length = ring.slots.length :=
  List.length_set

@[simp] theorem length_slots_pop
    (ring : RingBuffer α) :
    ring.pop.slots.length = ring.slots.length :=
  rfl

/-- Places at different distances from the head are different, within one round. -/
theorem index_ne
    {head i n capacity : Nat}
    (hi : i < n) (hn : n < capacity) :
    (head + n) % capacity ≠ (head + i) % capacity := by
  intro hsame
  have hdvd : capacity ∣ n - i := by
    have h := (Nat.modEq_iff_dvd' (show head + i ≤ head + n by omega)).mp hsame.symm
    rwa [Nat.add_sub_add_left] at h
  have hle := Nat.le_of_dvd (by omega) hdvd
  omega

theorem Holds.push
    {ring : RingBuffer α} {xs : List α}
    (h : ring.Holds xs)
    (hroom : xs.length < ring.slots.length) (x : α) :
    (ring.push x).Holds (xs ++ [x]) where
  count := by
    rw [List.length_append, List.length_singleton, ← h.count]
    rfl
  fits := by
    rw [length_slots_push, List.length_append, List.length_singleton]
    omega
  head := by
    rw [length_slots_push]
    exact h.head
  tail := by
    change (ring.tail + 1) % ring.slots.length = _
    rw [length_slots_push, h.tail, List.length_append, List.length_singleton, Nat.mod_add_mod,
      Nat.add_assoc]
    rfl
  slots i hi := by
    rw [List.length_append, List.length_singleton] at hi
    rw [length_slots_push]
    change (ring.slots.set ring.tail x)[(ring.head + i) % ring.slots.length]? = _
    rcases Nat.lt_or_ge i xs.length with hold | hnew
    · rw [List.getElem?_set_ne (by rw [h.tail]; exact index_ne hold hroom), h.slots i hold,
        List.getElem?_append_left hold]
    · obtain rfl : i = xs.length := by
        omega
      rw [h.tail, List.getElem?_set_self (Nat.mod_lt _ (by omega)), List.getElem?_concat_length]

theorem Holds.front
    {ring : RingBuffer α} {x : α} {xs : List α}
    (h : ring.Holds (x :: xs)) :
    ring.front = some x := by
  have hfirst := h.slots 0 (Nat.zero_lt_succ _)
  rwa [Nat.add_zero, Nat.mod_eq_of_lt h.head] at hfirst

theorem Holds.pop
    {ring : RingBuffer α} {x : α} {xs : List α}
    (h : ring.Holds (x :: xs)) :
    ring.pop.Holds xs where
  count := by
    change ring.count - 1 = _
    rw [h.count, List.length_cons, Nat.add_sub_cancel]
  fits := (Nat.le_succ _).trans h.fits
  head := Nat.mod_lt _ (lt_of_le_of_lt (Nat.zero_le _) h.head)
  tail := by
    change ring.tail = ((ring.head + 1) % ring.slots.length + xs.length) % ring.slots.length
    rw [h.tail, List.length_cons, Nat.mod_add_mod]
    congr 1
    omega
  slots i hi := by
    change ring.slots[((ring.head + 1) % ring.slots.length + i) % ring.slots.length]? = _
    have hnext := h.slots (i + 1) (Nat.succ_lt_succ hi)
    rw [Nat.mod_add_mod, Nat.add_assoc, Nat.add_comm 1 i, hnext, List.getElem?_cons_succ]

/-- Several are put in one after the other. -/
theorem Holds.pushAll
    {ring : RingBuffer α} {xs : List α}
    (h : ring.Holds xs) (ys : List α)
    (hroom : xs.length + ys.length ≤ ring.slots.length) :
    (ys.foldl RingBuffer.push ring).Holds (xs ++ ys) ∧
      (ys.foldl RingBuffer.push ring).slots.length = ring.slots.length := by
  induction ys generalizing ring xs with
  | nil =>
      rw [List.append_nil]
      exact ⟨h, rfl⟩
  | cons y ys ih =>
      rw [List.length_cons] at hroom
      have hnext := ih (h.push (by omega) y)
        (by rw [List.length_append, List.length_singleton, length_slots_push]; omega)
      rw [List.append_assoc, List.singleton_append, length_slots_push] at hnext
      exact hnext

end RingBuffer

end Lib
end QioParquet
