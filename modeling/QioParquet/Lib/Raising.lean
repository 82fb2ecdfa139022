import Mathlib.Data.List.Basic
import Mathlib.Tactic

/-!
# Computations that raise and keep their state

A computation in `EStateM` either returns or raises, and leaves a state in both
cases. Two kinds of facts are stated about such computations here.

* What holds of the state left, whatever the outcome: a reflexive and transitive
  relation that every step respects is respected by a sequence of steps. With a
  condition on the states the steps are taken from, only the steps that are taken
  need to respect it.
* What a computation that returns has done: a loop of steps that each follow a
  step of another machine follows a run of that machine.
-/

namespace QioParquet
namespace Lib

section Outcomes

variable {ε ε' σ α β : Type}

/-- The state left by a computation. -/
def finalState : EStateM.Result ε σ α → σ
  | .ok _ s => s
  | .error _ s => s

@[simp] theorem finalState_ok
    (a : α) (s : σ) :
    finalState (.ok a s : EStateM.Result ε σ α) = s :=
  rfl

@[simp] theorem finalState_error
    (e : ε) (s : σ) :
    finalState (.error e s : EStateM.Result ε σ α) = s :=
  rfl

/-- Whether a computation has raised. -/
def raises : EStateM.Result ε σ α → Bool
  | .ok _ _ => false
  | .error _ _ => true

theorem exists_error
    {x : EStateM.Result ε σ α}
    (h : raises x = true) :
    ∃ e, x = .error e (finalState x) := by
  cases x with
  | ok a s =>
      cases h
  | error e s =>
      exact ⟨e, rfl⟩

theorem eq_ok_of_returns
    {x : EStateM.Result ε σ PUnit}
    (h : raises x = false) :
    x = .ok PUnit.unit (finalState x) := by
  cases x with
  | ok a s =>
      rfl
  | error e s =>
      cases h

/-- What is asked of the state after a computation that returns can be decided by
running it. -/
instance decidableAfter
    (x : EStateM.Result ε σ PUnit) (P : σ → Prop) [∀ s, Decidable (P s)] :
    Decidable (∀ s, x = .ok PUnit.unit s → P s) :=
  match x with
  | .ok _ s => decidable_of_iff (P s)
      ⟨fun h s' hs => by cases hs; exact h, fun h => h s rfl⟩
  | .error _ _ => .isTrue fun _ hs => by cases hs

theorem bind_eq_ok
    {m : EStateM ε σ α} {f : α → EStateM ε σ β} {s s' : σ} {b : β} :
    (m >>= f) s = .ok b s' ↔
      ∃ a middle, m s = .ok a middle ∧ f a middle = .ok b s' := by
  change EStateM.bind m f s = _ ↔ _
  unfold EStateM.bind
  rcases m s with ⟨a, middle⟩ | ⟨e, middle⟩
  · simp
  · simp

theorem bind_eq_error
    {m : EStateM ε σ α} {f : α → EStateM ε σ β} {s s' : σ} {e : ε} :
    (m >>= f) s = .error e s' ↔
      m s = .error e s' ∨
        ∃ a middle, m s = .ok a middle ∧ f a middle = .error e s' := by
  change EStateM.bind m f s = _ ↔ _
  unfold EStateM.bind
  rcases m s with ⟨a, middle⟩ | ⟨e', middle⟩
  · simp
  · simp

theorem finalState_bind_of_ok
    {m : EStateM ε σ α} {f : α → EStateM ε σ β} {s middle : σ} {a : α}
    (h : m s = .ok a middle) :
    finalState ((m >>= f) s) = finalState (f a middle) := by
  change finalState (EStateM.bind m f s) = _
  unfold EStateM.bind
  rw [h]

theorem finalState_bind_of_error
    {m : EStateM ε σ α} {f : α → EStateM ε σ β} {s middle : σ} {e : ε}
    (h : m s = .error e middle) :
    finalState ((m >>= f) s) = middle := by
  change finalState (EStateM.bind m f s) = _
  unfold EStateM.bind
  rw [h]
  rfl

theorem forM_cons_eq
    (step : α → EStateM ε σ PUnit) (x : α) (rest : List α) :
    (x :: rest).forM step = (step x >>= fun _ => rest.forM step) :=
  rfl

theorem adaptExcept_eq_ok
    {m : EStateM ε σ α} {g : ε → ε'} {s s' : σ} {a : α} :
    EStateM.adaptExcept g m s = .ok a s' ↔ m s = .ok a s' := by
  unfold EStateM.adaptExcept
  rcases m s with ⟨a', middle⟩ | ⟨e, middle⟩ <;> simp

@[simp] theorem finalState_adaptExcept
    (m : EStateM ε σ α) (g : ε → ε') (s : σ) :
    finalState (EStateM.adaptExcept g m s) = finalState (m s) := by
  unfold EStateM.adaptExcept
  rcases m s with ⟨a, middle⟩ | ⟨e, middle⟩ <;> rfl

end Outcomes

section Keeping

variable {ε ε' σ α β : Type} {R : σ → σ → Prop}

/-- Whatever its outcome, the computation leaves a state related to the one it
started from. -/
def Keeps (R : σ → σ → Prop) (m : EStateM ε σ α) : Prop :=
  ∀ s, R s (finalState (m s))

theorem Keeps.of_ok
    {m : EStateM ε σ α} {s s' : σ} {a : α}
    (hm : Keeps R m)
    (h : m s = .ok a s') :
    R s s' := by
  have hkeeps := hm s
  rw [h] at hkeeps
  exact hkeeps

theorem Keeps.of_error
    {m : EStateM ε σ α} {s s' : σ} {e : ε}
    (hm : Keeps R m)
    (h : m s = .error e s') :
    R s s' := by
  have hkeeps := hm s
  rw [h] at hkeeps
  exact hkeeps

theorem Keeps.pure
    (hrefl : ∀ s, R s s)
    (a : α) :
    Keeps R (Pure.pure a : EStateM ε σ α) :=
  hrefl

theorem Keeps.throw
    (hrefl : ∀ s, R s s)
    (e : ε) :
    Keeps R (MonadExcept.throw e : EStateM ε σ α) :=
  hrefl

theorem Keeps.bind
    (htrans : ∀ a b c, R a b → R b c → R a c)
    {m : EStateM ε σ α} {f : α → EStateM ε σ β}
    (hm : Keeps R m)
    (hf : ∀ a, Keeps R (f a)) :
    Keeps R (m >>= f) := by
  intro s
  have hfirst := hm s
  rcases hrun : m s with ⟨a, middle⟩ | ⟨e, middle⟩
  · rw [finalState_bind_of_ok hrun]
    rw [hrun] at hfirst
    exact htrans _ _ _ hfirst (hf a middle)
  · rw [finalState_bind_of_error hrun]
    rw [hrun] at hfirst
    exact hfirst

theorem Keeps.adaptExcept
    {m : EStateM ε σ α}
    (hm : Keeps R m)
    (g : ε → ε') :
    Keeps R (EStateM.adaptExcept g m) := by
  intro s
  rw [finalState_adaptExcept]
  exact hm s

theorem Keeps.forM
    (hrefl : ∀ s, R s s)
    (htrans : ∀ a b c, R a b → R b c → R a c)
    {step : α → EStateM ε σ PUnit}
    (xs : List α)
    (hstep : ∀ x ∈ xs, Keeps R (step x)) :
    Keeps R (xs.forM step) := by
  induction xs with
  | nil =>
      exact Keeps.pure hrefl PUnit.unit
  | cons x rest ih =>
      rw [forM_cons_eq]
      exact Keeps.bind htrans (hstep x List.mem_cons_self) fun _ =>
        ih fun y hy => hstep y (List.mem_cons_of_mem x hy)

/-- Every step the loop takes is taken from a state that allows it. -/
def Within (allowed : σ → α → Prop) (step : α → EStateM ε σ PUnit) :
    σ → List α → Prop
  | _, [] => True
  | s, x :: rest =>
      allowed s x ∧
        ∀ s', step x s = .ok PUnit.unit s' → Within allowed step s' rest

instance decidableWithin
    (allowed : σ → α → Prop) [∀ s x, Decidable (allowed s x)]
    (step : α → EStateM ε σ PUnit) :
    (s : σ) → (xs : List α) → Decidable (Within allowed step s xs)
  | _, [] => .isTrue trivial
  | s, x :: rest =>
      have : ∀ s', Decidable (Within allowed step s' rest) := fun s' =>
        decidableWithin allowed step s' rest
      inferInstanceAs (Decidable (allowed s x ∧
        ∀ s', step x s = .ok PUnit.unit s' → Within allowed step s' rest))

/-- A loop of allowed steps keeps what an allowed step keeps. -/
theorem Within.forM
    (hrefl : ∀ s, R s s)
    (htrans : ∀ a b c, R a b → R b c → R a c)
    {allowed : σ → α → Prop} {step : α → EStateM ε σ PUnit}
    (hstep : ∀ s x, allowed s x → R s (finalState (step x s)))
    {s : σ} {xs : List α}
    (h : Within allowed step s xs) :
    R s (finalState (xs.forM step s)) := by
  induction xs generalizing s with
  | nil =>
      exact hrefl s
  | cons x rest ih =>
      have hfirst := hstep s x h.1
      rw [forM_cons_eq]
      rcases hrun : step x s with ⟨_, middle⟩ | ⟨e, middle⟩
      · rw [finalState_bind_of_ok hrun]
        rw [hrun] at hfirst
        exact htrans _ _ _ hfirst (ih (h.2 middle hrun))
      · rw [finalState_bind_of_error hrun]
        rw [hrun] at hfirst
        exact hfirst

end Keeping

section Following

variable {ε ε' σ τ α : Type}

/-- A loop that returns follows a run of another machine, if its steps do. -/
theorem forM_follows
    {follows : σ → τ → Prop}
    {step : α → EStateM ε σ PUnit} {next : τ → α → Except ε' τ}
    (hstep : ∀ x s s' t, follows s t → step x s = .ok PUnit.unit s' →
      ∃ t', next t x = .ok t' ∧ follows s' t')
    {xs : List α} {s s' : σ} {t : τ}
    (hstart : follows s t)
    (hrun : xs.forM step s = .ok PUnit.unit s') :
    ∃ t', xs.foldlM next t = .ok t' ∧ follows s' t' := by
  induction xs generalizing s t with
  | nil =>
      cases hrun
      exact ⟨t, rfl, hstart⟩
  | cons x rest ih =>
      rw [forM_cons_eq] at hrun
      obtain ⟨_, middle, hfirst, hrest⟩ := bind_eq_ok.mp hrun
      obtain ⟨t₁, hnext, hmiddle⟩ := hstep x s middle t hstart hfirst
      obtain ⟨t', hfold, hend⟩ := ih hmiddle hrest
      refine ⟨t', ?_, hend⟩
      rw [List.foldlM_cons, hnext]
      exact hfold

/-- A loop that returns has added to a count what its steps add. -/
theorem forM_counts
    {counted : σ → Nat → Prop} {step : α → EStateM ε σ PUnit} (d : Nat)
    (hstep : ∀ x s s' n, counted s n → step x s = .ok PUnit.unit s' → counted s' (n + d))
    {xs : List α} {s s' : σ} {n : Nat}
    (hstart : counted s n)
    (hrun : xs.forM step s = .ok PUnit.unit s') :
    counted s' (n + d * xs.length) := by
  induction xs generalizing s n with
  | nil =>
      cases hrun
      exact hstart
  | cons x rest ih =>
      rw [forM_cons_eq] at hrun
      obtain ⟨_, middle, hfirst, hrest⟩ := bind_eq_ok.mp hrun
      have hend := ih (hstep x s middle n hstart hfirst) hrest
      have hsum : n + d + d * rest.length = n + d * (x :: rest).length := by
        rw [List.length_cons]
        ring
      rwa [hsum] at hend

end Following

end Lib
end QioParquet
