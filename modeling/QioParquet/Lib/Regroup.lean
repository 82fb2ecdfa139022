import Mathlib.Tactic

/-!
# Work on groups, scattered back

Elements are picked out by a property, worked on as a group, and the results are
stored at the places the elements came from. As long as the work on a group is the
same for each of its elements, the places do not notice. A group may be laid out as a
matrix of equally long columns and worked on row by row.
-/

namespace QioParquet
namespace Lib

section Positions

variable {α β : Type}

/-- The positions of the elements with a property. -/
def positionsOf (p : α → Bool) (xs : List α) : List Nat :=
  (List.range xs.length).filter fun i => xs[i]?.any p

/-- The elements at some positions. -/
def gather (xs : List α) (positions : List Nat) : List α :=
  positions.filterMap fun i => xs[i]?

/-- Values stored at some positions, one after the other. -/
def scatterAt (values : List β) (positions : List Nat) (new : List β) : List β :=
  (positions.zip new).foldl (fun values entry => values.set entry.1 entry.2) values

theorem mem_positionsOf
    {p : α → Bool} {xs : List α} {i : Nat} :
    i ∈ positionsOf p xs ↔ ∃ x, xs[i]? = some x ∧ p x = true := by
  rw [positionsOf, List.mem_filter, List.mem_range, Option.any_eq_true]
  constructor
  · exact And.right
  · rintro ⟨x, hx, hp⟩
    exact ⟨(List.getElem?_eq_some_iff.mp hx).1, x, hx, hp⟩

theorem map_gather
    (g : α → β) {xs : List α} {positions : List Nat}
    (hin : ∀ i ∈ positions, i < xs.length) :
    (gather xs positions).map (fun x => some (g x)) =
      positions.map fun i => xs[i]?.map g := by
  induction positions with
  | nil =>
      rfl
  | cons i positions ih =>
      obtain ⟨hi, hin⟩ := List.forall_mem_cons.mp hin
      have hx := List.getElem?_eq_getElem hi
      rw [gather, List.filterMap_cons, hx, List.map_cons, List.map_cons, hx]
      exact congrArg _ (ih hin)

theorem getElem?_scatterAt
    (f : Nat → β) (positions : List Nat) (values : List β) (i : Nat) :
    (scatterAt values positions (positions.map f))[i]? =
      if i ∈ positions ∧ i < values.length then some (f i) else values[i]? := by
  induction positions generalizing values with
  | nil =>
      simp [scatterAt]
  | cons j positions ih =>
      have hstep : scatterAt values (j :: positions) ((j :: positions).map f) =
          scatterAt (values.set j (f j)) positions (positions.map f) := rfl
      rw [hstep, ih, List.length_set]
      by_cases hij : i = j
      · subst hij
        by_cases hlt : i < values.length <;> simp [hlt]
      · rw [List.getElem?_set_ne (Ne.symm hij)]
        simp [hij]

theorem of_mem_gather_positionsOf
    {p : α → Bool} {xs : List α} {x : α}
    (hx : x ∈ gather xs (positionsOf p xs)) :
    p x = true := by
  obtain ⟨i, hi, hget⟩ := List.mem_filterMap.mp hx
  obtain ⟨x', hx', hp⟩ := mem_positionsOf.mp hi
  rwa [Option.some.inj (hget.symm.trans hx')]

/-- One group: its elements get their results, the others keep their values. -/
theorem scatterAt_positionsOf
    (p : α → Bool) (g : α → β) {xs : List α} {values : List (Option β)}
    (hlength : xs.length = values.length) :
    scatterAt values (positionsOf p xs)
        ((gather xs (positionsOf p xs)).map fun x => some (g x)) =
      List.zipWith (fun x value => if p x then some (g x) else value) xs values := by
  have hin : ∀ i ∈ positionsOf p xs, i < xs.length := by
    intro i hi
    obtain ⟨x, hx, -⟩ := mem_positionsOf.mp hi
    exact (List.getElem?_eq_some_iff.mp hx).1
  rw [map_gather g hin]
  refine List.ext_getElem? fun i => ?_
  rw [getElem?_scatterAt, List.getElem?_zipWith]
  by_cases hi : i < xs.length
  · have hx := List.getElem?_eq_getElem hi
    have hvalue := List.getElem?_eq_getElem (hlength ▸ hi)
    have hmem : i ∈ positionsOf p xs ↔ p xs[i] = true := by
      rw [mem_positionsOf, hx]
      simp
    by_cases hp : p xs[i] = true
    · rw [if_pos ⟨hmem.mpr hp, hlength ▸ hi⟩, hx, hvalue]
      simp [hp]
    · rw [if_neg fun h => hp (hmem.mp h.1), hx, hvalue]
      simp [hp]
  · have hx := List.getElem?_eq_none (not_lt.mp hi)
    have hvalue := List.getElem?_eq_none (hlength ▸ not_lt.mp hi)
    rw [hx, hvalue, if_neg fun h => hi (hlength ▸ h.2)]

end Positions

section Groups

variable {α β κ : Type}

/-- The groups one after the other, each with its own work. -/
def regroup (select : κ → α → Bool) (work : κ → List α → List β) (xs : List α)
    (keys : List κ) (values : List (Option β)) : List (Option β) :=
  keys.foldl (fun values key =>
    let positions := positionsOf (select key) xs
    scatterAt values positions ((work key (gather xs positions)).map some)) values

theorem zipWith_zipWith_same
    (f h : α → β → β) (xs : List α) (values : List β) :
    List.zipWith f xs (List.zipWith h xs values) =
      List.zipWith (fun x value => f x (h x value)) xs values := by
  induction xs generalizing values with
  | nil =>
      rfl
  | cons x xs ih =>
      cases values with
      | nil =>
          rfl
      | cons value values =>
          simp only [List.zipWith_cons_cons, ih]

/-- Work that is the same for each element of a group is work on the elements. -/
theorem regroup_eq
    {select : κ → α → Bool} {work : κ → List α → List β} {g : α → β} {xs : List α}
    {keys : List κ} {values : List (Option β)}
    (hwork : ∀ key ∈ keys, ∀ group, (∀ x ∈ group, select key x = true) →
      work key group = group.map g)
    (hlength : xs.length = values.length) :
    regroup select work xs keys values =
      List.zipWith (fun x value =>
        if keys.any (select · x) then some (g x) else value) xs values := by
  induction keys generalizing values with
  | nil =>
      rw [← List.map_uncurry_zip_eq_zipWith]
      exact (List.map_snd_zip hlength.ge).symm
  | cons key keys ih =>
      obtain ⟨hkey, hkeys⟩ := List.forall_mem_cons.mp hwork
      have hfirst : scatterAt values (positionsOf (select key) xs)
          ((work key (gather xs (positionsOf (select key) xs))).map some) =
          List.zipWith (fun x value => if select key x then some (g x) else value)
            xs values := by
        rw [hkey _ fun x => of_mem_gather_positionsOf, List.map_map]
        exact scatterAt_positionsOf (select key) g hlength
      have hrest : regroup select work xs (key :: keys) values =
          regroup select work xs keys (List.zipWith
            (fun x value => if select key x then some (g x) else value) xs values) := by
        rw [← hfirst]
        rfl
      rw [hrest, ih hkeys (by rw [List.length_zipWith, ← hlength, min_self]),
        zipWith_zipWith_same]
      congr 1
      funext x value
      by_cases hx : select key x = true <;> simp [hx]

end Groups

section Matrices

variable {α β : Type}

/-- Row `row` of a matrix of `nrow` rows, filled column by column. -/
def matrixRow (flat : List α) (nrow row : Nat) : List α :=
  (List.range (flat.length / nrow)).filterMap fun column => flat[column * nrow + row]?

/-- A row takes one element from each column. -/
theorem matrixRow_flatten
    {columns : List (List α)} {nrow row : Nat}
    (hlengths : ∀ column ∈ columns, column.length = nrow)
    (hrow : row < nrow) :
    matrixRow columns.flatten nrow row = columns.filterMap (·[row]?) := by
  induction columns with
  | nil =>
      simp [matrixRow]
  | cons column columns ih =>
      obtain ⟨hcolumn, hcolumns⟩ := List.forall_mem_cons.mp hlengths
      have hcount : (column :: columns).flatten.length / nrow =
          columns.flatten.length / nrow + 1 := by
        rw [List.flatten_cons, List.length_append, hcolumn, Nat.add_comm,
          Nat.add_div_right _ (by omega)]
      have hfirst : (column :: columns).flatten[0 * nrow + row]? = column[row]? := by
        rw [List.flatten_cons, Nat.zero_mul, Nat.zero_add,
          List.getElem?_append_left (by omega)]
      have hlater (k : Nat) : (column :: columns).flatten[(k + 1) * nrow + row]? =
          columns.flatten[k * nrow + row]? := by
        rw [List.flatten_cons, List.getElem?_append_right (by rw [hcolumn]; nlinarith),
          hcolumn]
        congr 1
        rw [Nat.add_mul]
        omega
      rw [matrixRow, hcount, List.range_succ_eq_map, List.filterMap_cons, hfirst,
        List.filterMap_map, List.filterMap_cons, ← ih hcolumns, matrixRow]
      simp only [Function.comp_def, Nat.succ_eq_add_one, hlater]

/-- Two sums kept side by side. -/
theorem foldl_pair
    {γ δ : Type} (f : β → γ → β) (h : δ → γ → δ) (items : List γ) (a : β) (b : δ) :
    items.foldl (fun sums item => (f sums.1 item, h sums.2 item)) (a, b) =
      (items.foldl f a, items.foldl h b) := by
  induction items generalizing a b with
  | nil =>
      rfl
  | cons item items ih =>
      exact ih (f a item) (h b item)

/-- Rows added to one sum per column, from the first row on. -/
def sumRows (step : β → α → β) (zero : β) (flat : List α) (nrow ncol : Nat) : List β :=
  (List.range nrow).foldl (fun sums row => List.zipWith step sums (matrixRow flat nrow row))
    (List.replicate ncol zero)

/-- One more row. -/
theorem zipWith_map_filterMap
    {step : β → α → β} {sum next : List α → β} {columns : List (List α)} {row : Nat}
    (hnext : ∀ column ∈ columns,
      ∃ x, column[row]? = some x ∧ step (sum column) x = next column) :
    List.zipWith step (columns.map sum) (columns.filterMap (·[row]?)) =
      columns.map next := by
  induction columns with
  | nil =>
      rfl
  | cons column columns ih =>
      obtain ⟨⟨x, hx, hstep⟩, hnext⟩ := List.forall_mem_cons.mp hnext
      rw [List.map_cons, List.filterMap_cons, hx, List.map_cons, ← hstep]
      exact congrArg _ (ih hnext)

/-- Row by row, the sums are those of the columns. -/
theorem sumRows_flatten
    {columns : List (List α)} {nrow : Nat} (step : β → α → β) (zero : β)
    (hlengths : ∀ column ∈ columns, column.length = nrow) :
    sumRows step zero columns.flatten nrow columns.length =
      columns.map fun column => column.foldl step zero := by
  -- after `k` rows the sums are those of the first `k` elements
  have hpart : ∀ k ≤ nrow, (List.range k).foldl
      (fun sums row => List.zipWith step sums (matrixRow columns.flatten nrow row))
      (List.replicate columns.length zero) =
        columns.map fun column => (column.take k).foldl step zero := by
    intro k hk
    induction k with
    | zero =>
        simp [List.map_const']
    | succ k ih =>
        rw [List.range_succ, List.foldl_append, ih (by omega), List.foldl_cons,
          List.foldl_nil, matrixRow_flatten hlengths hk]
        refine zipWith_map_filterMap fun column hcolumn => ?_
        have hlt : k < column.length := (hlengths column hcolumn).symm ▸ hk
        refine ⟨column[k], List.getElem?_eq_getElem hlt, ?_⟩
        rw [← List.take_append_getElem hlt, List.foldl_append]
        rfl
  rw [sumRows, hpart nrow le_rfl]
  refine List.map_congr_left fun column hcolumn => ?_
  rw [List.take_of_length_le (hlengths column hcolumn).le]

end Matrices

end Lib
end QioParquet
