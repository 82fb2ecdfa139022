import Mathlib.Data.List.Perm.Basic
import Mathlib.Tactic

/-!
# Interleavings of thread programs

A program is the list of actions of one thread. An interleaving takes the next
action of any thread that has one, in any order. Two facts carry everything
said about parallel runs here: an interleaving is a rearrangement of all
programs, and on a set of actions that only one thread performs it is that
thread's own sequence. The latter gives that threads which store to disjoint
places leave the memory that running them one after the other leaves.
-/

namespace QioParquet
namespace Lib

section Interleaving

variable {α : Type}

/-- `run` takes the actions of the threads, each thread's in its own order. -/
inductive Interleaving : List (List α) → List α → Prop where
  | done {threads : List (List α)}
      (hdone : ∀ program ∈ threads, program = []) :
      Interleaving threads []
  | step {before after : List (List α)} {a : α} {rest run : List α}
      (tail : Interleaving (before ++ rest :: after) run) :
      Interleaving (before ++ (a :: rest) :: after) (a :: run)

theorem Interleaving.perm
    {threads : List (List α)} {run : List α}
    (h : Interleaving threads run) :
    run.Perm threads.flatten := by
  induction h with
  | @done threads hdone =>
      have hnil : threads.flatten = [] := by
        simpa [List.flatten_eq_nil_iff] using hdone
      rw [hnil]
  | @step before after a rest run _ ih =>
      have hmiddle :
          (a :: (before.flatten ++ (rest ++ after.flatten))).Perm
            (before.flatten ++ a :: (rest ++ after.flatten)) :=
        List.perm_middle.symm
      refine (ih.cons a).trans ?_
      simpa using hmiddle

/-- A thread without actions changes nothing. -/
theorem Interleaving.cons_nil
    {threads : List (List α)} {run : List α}
    (h : Interleaving threads run) :
    Interleaving ([] :: threads) run := by
  induction h with
  | done hdone =>
      exact .done (by simpa using hdone)
  | @step before after a rest run _ ih =>
      exact @Interleaving.step α ([] :: before) after a rest run ih

/-- The order in which the threads are listed does not matter. -/
theorem Interleaving.of_perm
    {threads threads' : List (List α)} {run : List α}
    (h : Interleaving threads run)
    (hperm : threads.Perm threads') :
    Interleaving threads' run := by
  induction h generalizing threads' with
  | done hdone =>
      exact .done fun program hprogram => hdone program (hperm.mem_iff.mpr hprogram)
  | @step before after a rest run _ ih =>
      obtain ⟨before', after', rfl⟩ :=
        List.append_of_mem (hperm.mem_iff.mp (show (a :: rest) ∈ _ by simp))
      have hothers : (before ++ after).Perm (before' ++ after') :=
        ((List.perm_middle.symm.trans hperm).trans List.perm_middle).cons_inv
      exact .step (ih (List.perm_middle.trans
        ((hothers.cons rest).trans List.perm_middle.symm)))

/-- The first thread does one more action. -/
theorem Interleaving.snoc_head
    {program : List α} {threads : List (List α)} {run : List α}
    (h : Interleaving (program :: threads) run) (a : α) :
    Interleaving ((program ++ [a]) :: threads) (run ++ [a]) := by
  generalize hall : program :: threads = all at h
  induction h generalizing program threads with
  | @done all hdone =>
      subst hall
      have hprogram : program = [] := hdone program List.mem_cons_self
      subst hprogram
      exact @Interleaving.step α [] threads a [] [] (.done hdone)
  | @step before after b rest run tail ih =>
      cases before with
      | nil =>
          cases hall
          exact @Interleaving.step α [] after b (rest ++ [a]) (run ++ [a]) (ih rfl)
      | cons first before =>
          cases hall
          exact @Interleaving.step α ((program ++ [a]) :: before) after b rest (run ++ [a])
            (ih rfl)

/-- Any thread does one more action. -/
theorem Interleaving.snoc
    {before after : List (List α)} {program run : List α}
    (h : Interleaving (before ++ program :: after) run) (a : α) :
    Interleaving (before ++ (program ++ [a]) :: after) (run ++ [a]) :=
  ((h.of_perm List.perm_middle).snoc_head a).of_perm List.perm_middle.symm

/-- At most one of the threads performs actions in `p`. -/
def ExclusiveTo (p : α → Bool) (threads : List (List α)) : Prop :=
  threads.Pairwise fun s t => (∀ a ∈ s, p a = false) ∨ ∀ a ∈ t, p a = false

theorem filter_flatten_eq_nil
    {p : α → Bool} {threads : List (List α)}
    (h : ∀ program ∈ threads, ∀ a ∈ program, p a = false) :
    threads.flatten.filter p = [] := by
  rw [List.filter_eq_nil_iff]
  intro a ha
  obtain ⟨program, hprogram, ha⟩ := List.mem_flatten.mp ha
  simp [h program hprogram a ha]

theorem ExclusiveTo.tail
    {p : α → Bool} {before after : List (List α)} {a : α} {rest : List α}
    (h : ExclusiveTo p (before ++ (a :: rest) :: after)) :
    ExclusiveTo p (before ++ rest :: after) := by
  have hsub : ∀ b ∈ rest, b ∈ a :: rest := fun b hb =>
    List.mem_cons_of_mem a hb
  rw [ExclusiveTo, List.pairwise_append, List.pairwise_cons] at h ⊢
  obtain ⟨hbefore, ⟨hafter, hrest⟩, hcross⟩ := h
  refine ⟨hbefore, ⟨?_, hrest⟩, ?_⟩
  · intro t ht
    exact (hafter t ht).imp_left fun hp b hb => hp b (hsub b hb)
  · intro s hs t ht
    rcases List.mem_cons.mp ht with rfl | ht
    · exact (hcross s hs _ (by simp)).imp_right fun hp b hb =>
        hp b (hsub b hb)
    · exact hcross s hs t (by simp [ht])

/-- On the actions of one thread an interleaving keeps that thread's order. -/
theorem Interleaving.filter_eq
    {p : α → Bool} {threads : List (List α)} {run : List α}
    (h : Interleaving threads run)
    (hp : ExclusiveTo p threads) :
    run.filter p = threads.flatten.filter p := by
  induction h with
  | @done threads hdone =>
      have hnil : threads.flatten = [] := by
        simpa [List.flatten_eq_nil_iff] using hdone
      rw [hnil]
  | @step before after a rest run _ ih =>
      have htail := ih hp.tail
      simp only [List.flatten_append, List.flatten_cons,
        List.filter_append, List.cons_append] at htail ⊢
      cases ha : p a with
      | false =>
          simp [ha, htail]
      | true =>
          have hbefore : before.flatten.filter p = [] := by
            apply filter_flatten_eq_nil
            intro s hs
            rw [ExclusiveTo, List.pairwise_append] at hp
            rcases hp.2.2 s hs (a :: rest) (by simp) with hfree | hfree
            · exact hfree
            · have := hfree a (by simp)
              rw [ha] at this
              cases this
          simp [ha, htail, hbefore]

theorem ExclusiveTo.perm
    {p : α → Bool} {threads threads' : List (List α)}
    (h : ExclusiveTo p threads)
    (hperm : threads.Perm threads') :
    ExclusiveTo p threads' :=
  hperm.pairwise h fun hst => hst.symm

/-- On the actions of one thread the order of the threads does not matter. -/
theorem ExclusiveTo.filter_flatten_perm
    {p : α → Bool} {threads threads' : List (List α)}
    (h : ExclusiveTo p threads)
    (hperm : threads.Perm threads') :
    threads.flatten.filter p = threads'.flatten.filter p := by
  induction hperm with
  | nil =>
      rfl
  | @cons program threads threads' _ ih =>
      have htail := ih (List.Pairwise.of_cons h)
      simp [htail]
  | swap s t threads =>
      have hpair := List.rel_of_pairwise_cons h
        (show s ∈ s :: threads by simp)
      simp only [List.flatten_cons, List.filter_append]
      rcases hpair with hfree | hfree
      · have hnil : t.filter p = [] := by
          rw [List.filter_eq_nil_iff]
          intro a ha
          simp [hfree a ha]
        simp [hnil]
      · have hnil : s.filter p = [] := by
          rw [List.filter_eq_nil_iff]
          intro a ha
          simp [hfree a ha]
        simp [hnil]
  | trans hfirst _ ih ih' =>
      exact (ih h).trans (ih' (h.perm hfirst))

/-- Threads made of whole programs of others are exclusive where those are. -/
theorem ExclusiveTo.group
    {p : α → Bool} {groups : List (List (List α))}
    (h : ExclusiveTo p groups.flatten) :
    ExclusiveTo p (groups.map List.flatten) := by
  rw [ExclusiveTo, List.pairwise_flatten] at h
  rw [ExclusiveTo, List.pairwise_map]
  refine h.2.imp ?_
  intro first second hcross
  by_cases hfree : ∀ s ∈ first, ∀ a ∈ s, p a = false
  · left
    intro a ha
    obtain ⟨s, hs, ha⟩ := List.mem_flatten.mp ha
    exact hfree s hs a ha
  · right
    intro a ha
    obtain ⟨t, ht, ha⟩ := List.mem_flatten.mp ha
    by_contra hbusy
    apply hfree
    intro s hs
    rcases hcross s hs t ht with hs | ht
    · exact hs
    · exact absurd (ht a ha) hbusy

/-- Running the threads one after the other is an interleaving. -/
theorem Interleaving.sequential
    (threads : List (List α)) :
    Interleaving threads threads.flatten := by
  suffices h : ∀ (front : List (List α)),
      (∀ program ∈ front, program = []) →
        Interleaving (front ++ threads) threads.flatten by
    simpa using h [] (by simp)
  induction threads with
  | nil =>
      intro front hfront
      exact .done (by simpa using hfront)
  | cons program threads ih =>
      intro front hfront
      induction program with
      | nil =>
          have hfront' : ∀ program ∈ front ++ [[]], program = [] := by
            intro program hprogram
            rcases List.mem_append.mp hprogram with h | h
            · exact hfront program h
            · exact List.mem_singleton.mp h
          have htail := ih (front ++ [[]]) hfront'
          rw [List.append_assoc] at htail
          exact htail
      | cons a program ihprogram =>
          exact .step ihprogram

end Interleaving

section Stores

variable {α L V : Type} [DecidableEq L]

/-- The memory after some actions, of which some are stores. -/
def runStores
    (store : α → Option (L × V)) (memory : L → V) (run : List α) : L → V :=
  run.foldl
    (fun memory a =>
      match store a with
      | none => memory
      | some (place, value) => Function.update memory place value)
    memory

theorem runStores_append
    (store : α → Option (L × V)) (memory : L → V) (run run' : List α) :
    runStores store memory (run ++ run') =
      runStores store (runStores store memory run) run' := by
  simp [runStores]

/-- Whether an action stores to a place. -/
def storesTo (store : α → Option (L × V)) (place : L) (a : α) : Bool :=
  match store a with
  | none => false
  | some (place', _) => place' = place

/-- Only the stores to a place matter there. -/
theorem runStores_filter
    (store : α → Option (L × V)) (memory : L → V) (run : List α)
    (place : L) :
    runStores store memory run place =
      runStores store memory (run.filter (storesTo store place)) place := by
  induction run using List.reverseRecOn generalizing memory with
  | nil =>
      rfl
  | append_singleton run a ih =>
      rw [List.filter_append, runStores_append, runStores_append]
      cases hstore : store a with
      | none =>
          simp [runStores, storesTo, hstore]
          exact ih memory
      | some entry =>
          obtain ⟨place', value⟩ := entry
          by_cases hplace : place' = place
          · subst hplace
            simp [runStores, storesTo, hstore]
          · have hne : place ≠ place' := fun h => hplace h.symm
            simp [runStores, storesTo, hstore, hplace,
              Function.update_of_ne hne]
            exact ih memory

/-- Threads that store to disjoint places leave the same memory in every
interleaving: the one they leave when run one after the other. -/
theorem Interleaving.runStores_eq
    {store : α → Option (L × V)} {threads : List (List α)} {run : List α}
    (h : Interleaving threads run)
    (hdisjoint : ∀ place, ExclusiveTo (storesTo store place) threads)
    (memory : L → V) :
    runStores store memory run =
      runStores store memory threads.flatten := by
  funext place
  rw [runStores_filter, h.filter_eq (hdisjoint place), ← runStores_filter]

/-- The order of threads that store to disjoint places does not matter. -/
theorem runStores_flatten_perm
    {store : α → Option (L × V)} {threads threads' : List (List α)}
    (hperm : threads.Perm threads')
    (hdisjoint : ∀ place, ExclusiveTo (storesTo store place) threads)
    (memory : L → V) :
    runStores store memory threads.flatten =
      runStores store memory threads'.flatten := by
  funext place
  rw [runStores_filter, (hdisjoint place).filter_flatten_perm hperm,
    ← runStores_filter]

end Stores

end Lib
end QioParquet
