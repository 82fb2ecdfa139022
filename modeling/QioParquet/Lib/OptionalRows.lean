import Mathlib.Data.List.ReduceOption
import Mathlib.Tactic

/-!
# Rows with missing values, in two layouts

A column with missing values is a list of optional values. It is stored either
densely, as presence flags beside the values that are there, or aligned, with
one slot for every row and the slots of missing rows unused. A decoder walks
one of the layouts and turns each row into an element; both walks are the walk
over the optional values.
-/

namespace QioParquet
namespace Lib

section Fallible

variable {α β γ ε : Type}

@[simp] theorem ok_bind
    (a : α) (f : α → Except ε β) :
    (.ok a >>= f) = f a :=
  rfl

@[simp] theorem error_bind
    (e : ε) (f : α → Except ε β) :
    (.error e >>= f) = .error e :=
  rfl

theorem bind_eq_ok_iff
    {x : Except ε α} {f : α → Except ε β} {b : β} :
    (x >>= f) = .ok b ↔ ∃ a, x = .ok a ∧ f a = .ok b := by
  cases x with
  | error e =>
      simp [bind, Except.bind]
  | ok a =>
      simp [bind, Except.bind]

theorem bind_eq_error_iff
    {x : Except ε α} {f : α → Except ε β} {e : ε} :
    (x >>= f) = .error e ↔
      x = .error e ∨ ∃ a, x = .ok a ∧ f a = .error e := by
  cases x with
  | error e' =>
      simp [bind, Except.bind]
  | ok a =>
      simp [bind, Except.bind]

@[simp] theorem pure_eq_ok
    (a : α) :
    (pure a : Except ε α) = .ok a :=
  rfl

/-- Another name for the errors changes nothing of what succeeds. -/
theorem mapError_eq_ok_iff {ε' : Type}
    {x : Except ε α} {rename : ε → ε'} {a : α} :
    x.mapError rename = .ok a ↔ x = .ok a := by
  cases x with
  | error e =>
      simp [Except.mapError]
  | ok b =>
      simp [Except.mapError]

theorem mem_of_mapM_ok
    {f : α → Except ε β} {xs : List α} {ys : List β}
    (h : xs.mapM f = .ok ys) :
    ∀ y ∈ ys, ∃ x ∈ xs, f x = .ok y := by
  induction xs generalizing ys with
  | nil =>
      obtain rfl : [] = ys := by
        simpa using h
      simp
  | cons x xs ih =>
      simp only [List.mapM_cons, bind_eq_ok_iff, pure_eq_ok,
        Except.ok.injEq] at h
      obtain ⟨y, hy, tail, htail, rfl⟩ := h
      intro z hz
      rcases List.mem_cons.mp hz with rfl | hz
      · exact ⟨x, by simp, hy⟩
      · obtain ⟨w, hw, hfw⟩ := ih htail z hz
        exact ⟨w, by simp [hw], hfw⟩

theorem forall₂_of_mapM_ok
    {f : α → Except ε β} {xs : List α} {ys : List β}
    (h : xs.mapM f = .ok ys) :
    List.Forall₂ (fun x y => f x = .ok y) xs ys := by
  induction xs generalizing ys with
  | nil =>
      obtain rfl : [] = ys := by
        simpa using h
      exact .nil
  | cons x xs ih =>
      simp only [List.mapM_cons, bind_eq_ok_iff, pure_eq_ok,
        Except.ok.injEq] at h
      obtain ⟨y, hy, tail, htail, rfl⟩ := h
      exact .cons hy (ih htail)

/-- Each element of the list has its result at the same place. -/
theorem getElem?_of_mapM_ok
    {f : α → Except ε β} {xs : List α} {ys : List β} {i : Nat} {x : α}
    (h : xs.mapM f = .ok ys)
    (hx : xs[i]? = some x) :
    ∃ y, ys[i]? = some y ∧ f x = .ok y := by
  induction xs generalizing ys i with
  | nil =>
      cases hx
  | cons head xs ih =>
      simp only [List.mapM_cons, bind_eq_ok_iff, pure_eq_ok,
        Except.ok.injEq] at h
      obtain ⟨y, hy, rest, hrest, rfl⟩ := h
      cases i with
      | zero =>
          cases hx
          exact ⟨y, rfl, hy⟩
      | succ i =>
          obtain ⟨y', hy', hfx⟩ := ih hrest (i := i) (by simpa using hx)
          exact ⟨y', by simpa using hy', hfx⟩

/-- What each step tells of its result holds of the whole list. -/
theorem map_of_mapM_ok {δ : Type}
    {f : α → Except ε β} {xs : List α} {ys : List β}
    {p : β → δ} {q : α → δ}
    (hproj : ∀ x y, f x = .ok y → p y = q x)
    (h : xs.mapM f = .ok ys) :
    ys.map p = xs.map q := by
  induction xs generalizing ys with
  | nil =>
      obtain rfl : [] = ys := by
        simpa using h
      rfl
  | cons x xs ih =>
      simp only [List.mapM_cons, bind_eq_ok_iff, pure_eq_ok,
        Except.ok.injEq] at h
      obtain ⟨y, hy, rest, hrest, rfl⟩ := h
      rw [List.map_cons, List.map_cons, hproj x y hy, ih hrest]

/-- Two passes over a list are one pass of both steps. -/
theorem mapM_bind_ok {δ : Type}
    {f : α → Except ε β} {g : β → Except ε δ}
    {xs : List α} {ys : List β} {zs : List δ}
    (hf : xs.mapM f = .ok ys)
    (hg : ys.mapM g = .ok zs) :
    (xs.mapM fun x => f x >>= g) = .ok zs := by
  induction xs generalizing ys zs with
  | nil =>
      obtain rfl : [] = ys := by
        simpa using hf
      exact hg
  | cons x xs ih =>
      simp only [List.mapM_cons, bind_eq_ok_iff, pure_eq_ok,
        Except.ok.injEq] at hf
      obtain ⟨y, hy, rest, hrest, rfl⟩ := hf
      simp only [List.mapM_cons, bind_eq_ok_iff, pure_eq_ok,
        Except.ok.injEq] at hg
      obtain ⟨z, hz, rest', hrest', rfl⟩ := hg
      simp [List.mapM_cons, hy, hz, ih hrest hrest']

/-- A pass followed by a function of its results. -/
theorem mapM_map_ok {δ : Type}
    {f : α → Except ε β} {xs : List α} {ys : List β}
    (g : β → δ)
    (hf : xs.mapM f = .ok ys) :
    (xs.mapM fun x => f x >>= fun y => .ok (g y)) = .ok (ys.map g) :=
  mapM_bind_ok hf (by simpa using List.mapM_pure (m := Except ε) (l := ys) (f := g))

/-- A fold that fails does so at one of its elements. -/
theorem exists_of_foldlM_error {σ : Type}
    {body : σ → α → Except ε σ} {xs : List α} {s : σ} {e : ε}
    (h : xs.foldlM body s = .error e) :
    ∃ s' x, x ∈ xs ∧ body s' x = .error e := by
  induction xs generalizing s with
  | nil =>
      cases h
  | cons x xs ih =>
      rw [List.foldlM_cons, bind_eq_error_iff] at h
      rcases h with hbody | ⟨s', -, hrest⟩
      · exact ⟨s, x, by simp, hbody⟩
      · obtain ⟨s'', y, hy, hbody⟩ := ih hrest
        exact ⟨s'', y, by simp [hy], hbody⟩

/-- A fold whose every element succeeds. -/
theorem exists_foldlM_ok {σ : Type}
    {body : σ → α → Except ε σ} {xs : List α}
    (h : ∀ x ∈ xs, ∀ s, ∃ s', body s x = .ok s') (s : σ) :
    ∃ s', xs.foldlM body s = .ok s' := by
  cases hfold : xs.foldlM body s with
  | ok s' =>
      exact ⟨s', rfl⟩
  | error e =>
      obtain ⟨s', x, hx, hbody⟩ := exists_of_foldlM_error hfold
      obtain ⟨s'', hok⟩ := h x hx s'
      rw [hbody] at hok
      cases hok

/-- A pass whose every element succeeds. -/
theorem exists_mapM_ok
    {f : α → Except ε β} {xs : List α}
    (h : ∀ x ∈ xs, ∃ y, f x = .ok y) :
    ∃ ys, xs.mapM f = .ok ys := by
  induction xs with
  | nil =>
      exact ⟨[], rfl⟩
  | cons x xs ih =>
      obtain ⟨y, hy⟩ := h x (by simp)
      obtain ⟨ys, hys⟩ := ih fun x hx => h x (by simp [hx])
      exact ⟨y :: ys, by simp [List.mapM_cons, hy, hys]⟩

/-- A pass fails exactly when it does at one of its elements. -/
theorem exists_mapM_ok_iff
    (f : α → Except ε β) (xs : List α) :
    (∃ ys, xs.mapM f = .ok ys) ↔ ∀ x ∈ xs, ¬ ∃ e, f x = .error e := by
  constructor
  · rintro ⟨ys, hys⟩ x hx ⟨e, he⟩
    obtain ⟨i, hi⟩ := List.mem_iff_getElem?.mp hx
    obtain ⟨y, -, hy⟩ := getElem?_of_mapM_ok hys hi
    rw [he] at hy
    cases hy
  · intro hnone
    refine exists_mapM_ok fun x hx => ?_
    cases hx' : f x with
    | error e =>
        exact absurd ⟨e, hx'⟩ (hnone x hx)
    | ok y =>
        exact ⟨y, rfl⟩

/-- A pass whose every result is known. -/
theorem mapM_ok_of_forall
    {f : α → Except ε β} {g : α → β} {xs : List α}
    (h : ∀ x ∈ xs, f x = .ok (g x)) :
    xs.mapM f = .ok (xs.map g) := by
  induction xs with
  | nil =>
      rfl
  | cons x xs ih =>
      have hx : f x = .ok (g x) := h x (by simp)
      have hxs : xs.mapM f = .ok (xs.map g) := ih fun y hy => h y (by simp [hy])
      simp [List.mapM_cons, hx, hxs]

theorem mapM_replicate_ok
    {f : α → Except ε β} {x : α} {y : β}
    (h : f x = .ok y)
    (n : Nat) :
    (List.replicate n x).mapM f = .ok (List.replicate n y) := by
  induction n with
  | zero =>
      rfl
  | succ n ih =>
      simp [List.replicate_succ, List.mapM_cons, h, ih]

/-- A pass over some of the elements. -/
theorem mapM_slice_ok
    {f : α → Except ε β} {xs : List α} {ys : List β}
    (h : xs.mapM f = .ok ys)
    (start count : Nat) :
    ((xs.drop start).take count).mapM f =
      .ok ((ys.drop start).take count) := by
  induction xs generalizing ys start count with
  | nil =>
      obtain rfl : [] = ys := Except.ok.inj h
      simp
  | cons x xs ih =>
      simp only [List.mapM_cons, bind_eq_ok_iff, pure_eq_ok,
        Except.ok.injEq] at h
      obtain ⟨y, hy, ys, hys, rfl⟩ := h
      cases start with
      | succ start =>
          exact ih hys start count
      | zero =>
          cases count with
          | zero =>
              simp
          | succ count =>
              have hrest := ih hys 0 count
              rw [List.drop_zero, List.drop_zero] at hrest ⊢
              simp [List.mapM_cons, hy, hrest]

/-- Steps done one after the other: the results up to the first failure, and
the failure. -/
def untilError : List (Except ε α) → List α × Option ε
  | [] => ([], none)
  | .error e :: _ => ([], some e)
  | .ok x :: rest => (x :: (untilError rest).1, (untilError rest).2)

@[simp] theorem untilError_ok
    (xs : List α) :
    untilError (xs.map (Except.ok : α → Except ε α)) = (xs, none) := by
  induction xs with
  | nil =>
      rfl
  | cons x xs ih =>
      simp [untilError, ih]

theorem untilError_initial
    (xs : List (Except ε α)) :
    (untilError xs).1.map Except.ok <+: xs := by
  induction xs with
  | nil =>
      exact List.nil_prefix
  | cons x xs ih =>
      cases x with
      | error e =>
          exact List.nil_prefix
      | ok a =>
          exact List.cons_prefix_cons.mpr ⟨rfl, ih⟩

theorem untilError_fails
    {xs : List (Except ε α)} {e : ε}
    (hmem : .error e ∈ xs) :
    ∃ e', (untilError xs).2 = some e' := by
  induction xs with
  | nil =>
      cases hmem
  | cons x xs ih =>
      cases x with
      | error e' =>
          exact ⟨e', rfl⟩
      | ok a =>
          exact ih (by simpa using hmem)

theorem map_eq_error_iff
    {x : Except ε α} {f : α → β} {e : ε} :
    x.map f = .error e ↔ x = .error e := by
  cases x <;> simp [Except.map]

/-- The first component of a chain does not depend on the second one along the
way. -/
theorem bind_fst {τ υ : Type}
    {x x' : Except ε (α × τ)} {f f' : α × τ → Except ε (β × υ)}
    (hx : x.map Prod.fst = x'.map Prod.fst)
    (hf : ∀ a t t',
      (f (a, t)).map Prod.fst = (f' (a, t')).map Prod.fst) :
    (x >>= f).map Prod.fst = (x' >>= f').map Prod.fst := by
  rcases x with e | ⟨a, t⟩ <;> rcases x' with e' | ⟨a', t'⟩
  · obtain rfl : e = e' := Except.error.inj hx
    rfl
  · cases hx
  · cases hx
  · obtain rfl : a = a' := Except.ok.inj hx
    exact hf a t t'

theorem foldlM_fst {σ τ : Type}
    {body : σ × τ → α → Except ε (σ × τ)}
    (hbody : ∀ s t t' x,
      (body (s, t) x).map Prod.fst = (body (s, t') x).map Prod.fst)
    (xs : List α) (s : σ) (t t' : τ) :
    (xs.foldlM body (s, t)).map Prod.fst =
      (xs.foldlM body (s, t')).map Prod.fst := by
  induction xs generalizing s t t' with
  | nil =>
      rfl
  | cons x xs ih =>
      rw [List.foldlM_cons, List.foldlM_cons]
      exact bind_fst (hbody s t t' x) ih

end Fallible

section OptionalRows

variable {α β γ ε : Type}

/-- Walk over optional rows from row number `row` on. -/
def traverseRows
    (absent : γ) (present : Nat → α → Except ε γ) :
    Nat → List (Option α) → Except ε (List γ)
  | _, [] => .ok []
  | row, none :: rows => do
      let cells ← traverseRows absent present (row + 1) rows
      return absent :: cells
  | row, some v :: rows => do
      let cell ← present row v
      let cells ← traverseRows absent present (row + 1) rows
      return cell :: cells

/-- Walk over presence flags, taking the next dense value for each set one.
Running out of dense values ends with `short`. -/
def scatterLoop
    (short : ε) (absent : γ) (present : Nat → α → Except ε γ) :
    Nat → List Bool → List α → Except ε (List γ)
  | _, [], _ => .ok []
  | row, false :: flags, dense => do
      let cells ← scatterLoop short absent present (row + 1) flags dense
      return absent :: cells
  | _, true :: _, [] => .error short
  | row, true :: flags, v :: dense => do
      let cell ← present row v
      let cells ← scatterLoop short absent present (row + 1) flags dense
      return cell :: cells

/-- A walk over the dense layout makes one element for every flag. -/
theorem length_scatterLoop
    {short : ε} {absent : γ} {present : Nat → α → Except ε γ}
    {row : Nat} {flags : List Bool} {dense : List α} {cells : List γ}
    (h : scatterLoop short absent present row flags dense = .ok cells) :
    cells.length = flags.length := by
  induction flags generalizing row dense cells with
  | nil =>
      obtain rfl : [] = cells := by
        simpa [scatterLoop] using h
      rfl
  | cons flag flags ih =>
      cases flag with
      | false =>
          simp only [scatterLoop, bind_eq_ok_iff, pure_eq_ok,
            Except.ok.injEq] at h
          obtain ⟨tail, htail, rfl⟩ := h
          simp [ih htail]
      | true =>
          cases dense with
          | nil =>
              cases h
          | cons v dense =>
              simp only [scatterLoop, bind_eq_ok_iff, pure_eq_ok,
                Except.ok.injEq] at h
              obtain ⟨cell, -, tail, htail, rfl⟩ := h
              simp [ih htail]

/-- The optional rows of an aligned layout. -/
def alignedRows (flags : List Bool) (slots : List α) : List (Option α) :=
  List.zipWith (fun flag v => if flag then some v else none) flags slots

/-- An aligned layout with the right value in every used slot. -/
theorem alignedRows_map
    (f : α → β) {slots : List α} {rows : List (Option β)}
    (h : List.Forall₂ (fun slot row => ∀ v, row = some v → f slot = v)
      slots rows) :
    (alignedRows (rows.map Option.isSome) slots).map (Option.map f) =
      rows := by
  induction h with
  | nil =>
      rfl
  | @cons slot row slots rows hslot _ ih =>
      cases row with
      | none =>
          simpa [alignedRows] using ih
      | some v =>
          simpa [alignedRows, hslot v rfl] using ih

theorem mem_alignedRows
    {P : α → Prop} {slots : List α} {rows : List (Option β)}
    (h : List.Forall₂ (fun slot row => row.isSome → P slot) slots rows)
    {v : α}
    (hv : some v ∈ alignedRows (rows.map Option.isSome) slots) :
    P v := by
  induction h with
  | nil =>
      simp [alignedRows] at hv
  | @cons slot row slots rows hslot _ ih =>
      rw [List.map_cons, alignedRows, List.zipWith_cons_cons,
        List.mem_cons] at hv
      rcases hv with hv | hv
      · cases row with
        | none =>
            simp at hv
        | some w =>
            obtain rfl : v = slot := by
              simpa using hv
            exact hslot rfl
      · exact ih hv

/-- Walking the dense layout is walking the rows, whatever follows the dense
values in their buffer. -/
theorem scatterLoop_eq_traverseRows
    (short : ε) (absent : γ) (present : Nat → α → Except ε γ)
    (row : Nat) (rows : List (Option α)) (stale : List α) :
    scatterLoop short absent present row (rows.map Option.isSome)
        (rows.reduceOption ++ stale) =
      traverseRows absent present row rows := by
  induction rows generalizing row with
  | nil =>
      rfl
  | cons v rows ih =>
      cases v with
      | none =>
          simp only [List.map_cons, Option.isSome_none,
            List.reduceOption_cons_of_none, scatterLoop, traverseRows, ih]
      | some v =>
          simp only [List.map_cons, Option.isSome_some,
            List.reduceOption_cons_of_some, List.cons_append, scatterLoop,
            traverseRows, ih]

/-- A walk that returns has turned every row into its element. -/
theorem traverseRows_ok
    {absent : γ} {present : Nat → α → Except ε γ}
    (cellOf : Option α → Option γ)
    (habsent : cellOf none = some absent)
    {row : Nat} {rows : List (Option α)} {cells : List γ}
    (hpresent : ∀ row v cell,
      some v ∈ rows →
      present row v = .ok cell →
      cellOf (some v) = some cell)
    (h : traverseRows absent present row rows = .ok cells) :
    rows.mapM cellOf = some cells := by
  induction rows generalizing row cells with
  | nil =>
      simpa [traverseRows, eq_comm] using h
  | cons v rows ih =>
      have hrest := fun row v cell hv =>
        hpresent row v cell (List.mem_cons_of_mem _ hv)
      cases v with
      | none =>
          simp only [traverseRows, bind_eq_ok_iff, pure_eq_ok,
            Except.ok.injEq] at h
          obtain ⟨tail, htail, rfl⟩ := h
          simp [List.mapM_cons, habsent, ih hrest htail]
      | some v =>
          simp only [traverseRows, bind_eq_ok_iff, pure_eq_ok,
            Except.ok.injEq] at h
          obtain ⟨cell, hcell, tail, htail, rfl⟩ := h
          simp [List.mapM_cons, hpresent row v cell (by simp) hcell,
            ih hrest htail]

/-- A walk that fails has gone over the rows before the one that fails. -/
theorem traverseRows_first_error
    {absent : γ} {present : Nat → α → Except ε γ}
    {row : Nat} {rows : List (Option α)} {e : ε}
    (h : traverseRows absent present row rows = .error e) :
    ∃ before v after cells, rows = before ++ some v :: after ∧
      traverseRows absent present row before = .ok cells ∧
      present (row + before.length) v = .error e := by
  induction rows generalizing row with
  | nil =>
      cases h
  | cons v rows ih =>
      cases v with
      | none =>
          simp only [traverseRows, bind_eq_error_iff, pure_eq_ok, reduceCtorEq,
            and_false, exists_false, or_false] at h
          obtain ⟨before, v, after, cells, rfl, hbefore, hv⟩ := ih h
          refine ⟨none :: before, v, after, absent :: cells, rfl, ?_, ?_⟩
          · simp [traverseRows, hbefore]
          · rwa [List.length_cons, Nat.add_comm before.length, ← Nat.add_assoc]
      | some v =>
          simp only [traverseRows, bind_eq_error_iff, pure_eq_ok, reduceCtorEq,
            and_false, exists_false, or_false] at h
          rcases h with h | ⟨cell, hcell, h⟩
          · exact ⟨[], v, rows, [], rfl, rfl, h⟩
          · obtain ⟨before, v', after, cells, rfl, hbefore, hv⟩ := ih h
            refine ⟨some v :: before, v', after, cell :: cells, rfl, ?_, ?_⟩
            · simp [traverseRows, hcell, hbefore]
            · rwa [List.length_cons, Nat.add_comm before.length, ← Nat.add_assoc]

/-- A walk fails at some row, with that row's own error. -/
theorem traverseRows_error
    {absent : γ} {present : Nat → α → Except ε γ}
    {row : Nat} {rows : List (Option α)} {e : ε}
    (h : traverseRows absent present row rows = .error e) :
    ∃ k v, some v ∈ rows ∧ present k v = .error e := by
  obtain ⟨before, v, after, _, rfl, -, hv⟩ := traverseRows_first_error h
  exact ⟨_, v, by simp, hv⟩

/-- A walk returns when every present row does. -/
theorem traverseRows_exists
    {absent : γ} {present : Nat → α → Except ε γ}
    {row : Nat} {rows : List (Option α)}
    (h : ∀ k v, some v ∈ rows → ∃ cell, present k v = .ok cell) :
    ∃ cells, traverseRows absent present row rows = .ok cells := by
  cases hrun : traverseRows absent present row rows with
  | ok cells =>
      exact ⟨cells, rfl⟩
  | error e =>
      obtain ⟨k, v, hv, hk⟩ := traverseRows_error hrun
      obtain ⟨cell, hcell⟩ := h k v hv
      rw [hk] at hcell
      cases hcell

theorem traverseRows_congr
    {absent : γ} {present present' : Nat → α → Except ε γ}
    {row : Nat} {rows : List (Option α)}
    (h : ∀ k v, some v ∈ rows → present k v = present' k v) :
    traverseRows absent present row rows =
      traverseRows absent present' row rows := by
  induction rows generalizing row with
  | nil =>
      rfl
  | cons v rows ih =>
      have hrest := fun k v hv => h k v (List.mem_cons_of_mem _ hv)
      cases v with
      | none =>
          simp only [traverseRows, ih hrest]
      | some v =>
          simp only [traverseRows, h row v (by simp), ih hrest]

/-- Dense values that represent the present rows can be put back in place. -/
theorem exists_slots
    (f : α → β) (dense : List α) (rows : List (Option β))
    (h : dense.map f = rows.reduceOption) :
    ∃ slots : List (Option α),
      slots.map (Option.map f) = rows ∧ slots.reduceOption = dense := by
  induction rows generalizing dense with
  | nil =>
      obtain rfl : dense = [] := by
        simpa using h
      exact ⟨[], rfl, rfl⟩
  | cons row rows ih =>
      cases row with
      | none =>
          rw [List.reduceOption_cons_of_none] at h
          obtain ⟨slots, hslots, hdense⟩ := ih dense h
          exact ⟨none :: slots, by simp [hslots], by simpa using hdense⟩
      | some v =>
          rw [List.reduceOption_cons_of_some] at h
          obtain ⟨d, dense, rfl, rfl, htail⟩ := List.map_eq_cons_iff.mp h
          obtain ⟨slots, hslots, hdense⟩ := ih dense htail
          exact ⟨some d :: slots, by simp [hslots], by simpa using hdense⟩

theorem count_isSome
    (rows : List (Option α)) :
    (rows.map Option.isSome).count true = rows.reduceOption.length := by
  induction rows with
  | nil =>
      rfl
  | cons row rows ih =>
      cases row <;> simp [ih]

theorem any_reduceOption
    (p : α → Bool) (rows : List (Option α)) :
    rows.reduceOption.any p = rows.any fun row => row.any p := by
  induction rows with
  | nil =>
      rfl
  | cons row rows ih =>
      cases row <;> simp [ih]

end OptionalRows

end Lib
end QioParquet
