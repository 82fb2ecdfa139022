import QioParquet.Plan.Convert
import Mathlib.Tactic

/-!
# Applying the plan to a native result

The native layer reads the selected leaves by index and names the columns of
its result by dotted path. `qio_apply_plan` finds the plan row of a column
again by that name, and takes the first row that has it. Dotted paths need not
tell leaves apart: a flat leaf may be called `a.b` beside a leaf `b` of a group
`a`, and two leaves may share a name. The main result says exactly when each
column is converted by the row of its own leaf.
-/

namespace QioParquet
namespace Plan

open Lib Read

section Applying

/-- `plan[match(path, plan$path), ]`. -/
def planRowFor (plan : List PlanRow) (path : String) : Option PlanRow :=
  plan.find? fun row => row.path == path

/-- `qio_apply_plan` on one column. -/
def applyPlanColumn
    (platform : Platform) (plan : List PlanRow)
    (path : String) (x : RVector) : Except ConvertError RColumn :=
  match planRowFor plan path with
  | none => .ok ⟨x, .none⟩
  | some row => applyConverter platform x row.converter

/-- `qio_apply_plan`, for a data frame given as names and columns. -/
def applyPlan
    (platform : Platform) (plan : List PlanRow)
    (names : List String) (columns : List RVector) :
    Except ConvertError (List RColumn) :=
  (names.zip columns).mapM fun entry =>
    applyPlanColumn platform plan entry.1 entry.2

/-- Column names of a native result: `qio_allocate_result` takes them from
the schema of the file. -/
def resultNames (file : ParquetFile) (sel : Selection) : List String :=
  sel.columns.map fun s =>
    (file.leaves[s.fileColumn]?.map Leaf.dottedPath).getD ""

/-- The column indexes handed to the native layer, which counts from 1. -/
def nativeColumns (indexes : Option (List Nat)) : Option (List ℤ) :=
  indexes.map fun list => list.map fun index : Nat => (index : ℤ) + 1

end Applying

section Selected

/-- A leaf index is never moved on its way through the native selection. -/
theorem selectIndexes_nativeColumns
    {fileColumns : Nat} {indexes : Option (List Nat)} {list : List Nat}
    (h : selectIndexes fileColumns (nativeColumns indexes) = .ok list) :
    list = indexes.getD (List.range fileColumns) := by
  cases indexes with
  | none =>
      exact (Except.ok.inj h).symm
  | some wanted =>
      have hmap := map_of_mapM_ok
        (p := fun index : Nat => index)
        (q := fun value : ℤ => (value - 1).toNat)
        (fun value index hindex => by
          unfold selectIndex at hindex
          split_ifs at hindex
          exact (Except.ok.inj hindex).symm) h
      have hback : (fun value : ℤ => (value - 1).toNat) ∘
          (fun index : Nat => (index : ℤ) + 1) = id := by
        funext index
        simp
      rw [List.map_map, hback, List.map_id, List.map_id'] at hmap
      exact hmap

theorem selectColumn_fileColumn
    {file : ParquetFile} {int64Option : Int64Mode} {index : Nat}
    {kind : Kind} {s : SelectedColumn}
    (h : selectColumn file int64Option index kind = .ok s) :
    s.fileColumn = index := by
  unfold selectColumn at h
  cases hleaf : file.leaves[index]? with
  | none =>
      simp [hleaf] at h
  | some leaf =>
      simp only [hleaf] at h
      split_ifs at h
      cases h
      rfl

/-- The native selection reads the leaves it was asked for, in that order. -/
theorem prepareSelection_fileColumns
    {file : ParquetFile} {indexes : Option (List Nat)}
    {rowGroups : Option (List ℤ)} {codes : List ℤ} {mode : Int64Mode}
    {sel : Selection}
    (h : prepareSelection file (nativeColumns indexes) rowGroups codes mode =
      .ok sel) :
    sel.columns.map SelectedColumn.fileColumn =
      indexes.getD (List.range file.leaves.length) := by
  unfold prepareSelection at h
  simp only [bind_eq_ok_iff, pure_eq_ok, Except.ok.injEq] at h
  obtain ⟨list, hlist, kinds, hkinds, selected, hselected, mask, -, total, -,
    rfl⟩ := h
  rw [← selectIndexes_nativeColumns hlist]
  have hlength : kinds.length = list.length := by
    unfold selectKinds at hkinds
    split_ifs at hkinds with hne
    have hmap := map_of_mapM_ok (p := fun _ => ()) (q := fun _ => ())
      (fun _ _ _ => rfl) hkinds
    have := congrArg List.length hmap
    simp only [List.length_map] at this
    omega
  rw [map_of_mapM_ok (q := Prod.fst)
    (fun entry s hs => selectColumn_fileColumn hs) hselected]
  exact List.map_fst_zip (by omega)

end Selected

section FirstRow

variable {schema : List SchemaLeaf} {options : ReadOptions}

/-- No leaf before leaf `k` has its dotted path, or the first that has it has
the converter of leaf `k` too. -/
def FirstOfPathAgrees
    (schema : List SchemaLeaf) (options : ReadOptions) (k : Nat) : Prop :=
  ∀ own, schema[k]? = some own →
    ∀ j first, j < k → schema[j]? = some first →
      first.leaf.dottedPath = own.leaf.dottedPath →
      (∀ i other, i < j → schema[i]? = some other →
        other.leaf.dottedPath ≠ own.leaf.dottedPath) →
      planConverter options first = planConverter options own

theorem planRowFor_buildPlan
    (path : String) :
    planRowFor (buildPlan schema options) path =
      (schema.find? fun s => s.leaf.dottedPath == path).map
        (planRow options) := by
  rw [planRowFor, buildPlan, List.find?_map]
  rfl

/-- The row found for a leaf is that of the first leaf with its path. -/
theorem find_dottedPath
    {k : Nat} {own : SchemaLeaf}
    (hown : schema[k]? = some own) :
    ∃ j first, j ≤ k ∧ schema[j]? = some first ∧
      first.leaf.dottedPath = own.leaf.dottedPath ∧
      (∀ i other, i < j → schema[i]? = some other →
        other.leaf.dottedPath ≠ own.leaf.dottedPath) ∧
      (schema.find? fun s => s.leaf.dottedPath == own.leaf.dottedPath) =
        some first := by
  obtain ⟨first, hfind⟩ : ∃ first,
      (schema.find? fun s => s.leaf.dottedPath == own.leaf.dottedPath) =
        some first := by
    rw [← Option.isSome_iff_exists, List.find?_isSome]
    exact ⟨own, List.mem_of_getElem? hown, by simp⟩
  obtain ⟨hpath, j, hj, hfirst, hbefore⟩ :=
    List.find?_eq_some_iff_getElem.mp hfind
  have hnone : ∀ i other, i < j → schema[i]? = some other →
      other.leaf.dottedPath ≠ own.leaf.dottedPath := by
    intro i other hi hother
    obtain ⟨hlen, rfl⟩ := List.getElem?_eq_some_iff.mp hother
    simpa using hbefore i hi
  refine ⟨j, first, ?_, List.getElem?_eq_some_iff.mpr ⟨hj, hfirst⟩,
    by simpa using hpath, hnone, hfind⟩
  by_contra hlt
  exact hnone k own (by omega) hown rfl

/-- A leaf's column is converted by its own row exactly when the first leaf
with its path agrees. -/
theorem planRowFor_converter_iff
    {k : Nat} {own : SchemaLeaf}
    (hown : schema[k]? = some own) :
    (planRowFor (buildPlan schema options) own.leaf.dottedPath).map
        PlanRow.converter = some (planConverter options own) ↔
      FirstOfPathAgrees schema options k := by
  obtain ⟨j, first, hle, hfirst, hpath, hbefore, hfind⟩ :=
    find_dottedPath hown
  have hused :
      (planRowFor (buildPlan schema options) own.leaf.dottedPath).map
        PlanRow.converter = some (planConverter options first) := by
    rw [planRowFor_buildPlan, hfind]
    rfl
  rw [hused, Option.some_inj]
  constructor
  · intro hagree own' hown' j' first' hlt hfirst' hpath' hbefore'
    obtain rfl : own = own' := Option.some.inj (hown.symm.trans hown')
    -- Both `j` and `j'` are the first index with the path.
    obtain rfl : j = j' := by
      rcases Nat.lt_trichotomy j j' with h | h | h
      · exact absurd hpath (hbefore' j first h hfirst)
      · exact h
      · exact absurd hpath' (hbefore j' first' h hfirst')
    obtain rfl : first = first' := Option.some.inj (hfirst.symm.trans hfirst')
    exact hagree
  · intro hagree
    rcases Nat.lt_or_eq_of_le hle with hlt | rfl
    · exact hagree own hown j first hlt hfirst hpath hbefore
    · rw [Option.some.inj (hfirst.symm.trans hown)]

/-- A leaf asked for by path shares its path with no other leaf. -/
theorem firstOfPathAgrees_of_resolved
    {paths : List String} {list : List Nat} {k : Nat}
    (h : resolveColumns (buildPlan schema options) (some paths) =
      .ok (some list))
    (hk : k ∈ list) :
    FirstOfPathAgrees schema options k := by
  intro own hown j first hlt hfirst hpath _
  simp only [resolveColumns] at h
  split_ifs at h with hunknown hambiguous
  obtain rfl := Option.some.inj (Except.ok.inj h)
  obtain ⟨path, hmem, hk⟩ := List.mem_flatMap.mp hk
  have hsingle : (whichPath (buildPlan schema options) path).length ≤ 1 := by
    by_contra hmany
    have hin : path ∈ paths.filter fun path =>
        decide (1 < (whichPath (buildPlan schema options) path).length) :=
      List.mem_filter.mpr ⟨hmem, by simpa using hmany⟩
    exact hambiguous (List.ne_nil_of_mem hin)
  have hmemWhich (index : Nat) (s : SchemaLeaf)
      (hs : schema[index]? = some s) :
      index ∈ whichPath (buildPlan schema options) path ↔
        s.leaf.dottedPath = path := by
    obtain ⟨hlen, rfl⟩ := List.getElem?_eq_some_iff.mp hs
    simp [whichPath, buildPlan_getElem?, hlen, planRow]
  have hj : j ∈ whichPath (buildPlan schema options) path := by
    rw [hmemWhich j first hfirst, hpath]
    exact (hmemWhich k own hown).mp hk
  obtain ⟨single, hwhich⟩ := List.length_eq_one_iff.mp
    (Nat.le_antisymm hsingle (List.length_pos_of_mem hj))
  rw [hwhich, List.mem_singleton] at hj hk
  omega

end FirstRow

section OwnRow

/-- The converter `qio_apply_plan` runs on column `i` of a native result, if it
runs one. -/
def converterUsed (plan : List PlanRow) (names : List String) (i : Nat) :
    Option Converter :=
  (names[i]?.bind (planRowFor plan)).map PlanRow.converter

/-- Column `i` goes through the converter in the plan row of the `i`-th
selected leaf. -/
def OwnConverters
    (schema : List SchemaLeaf) (options : ReadOptions)
    (names : List String) (selected : List Nat) : Prop :=
  ∀ i k own, selected[i]? = some k → schema[k]? = some own →
    converterUsed (buildPlan schema options) names i =
      some (planConverter options own)

/-- The result with every vector converted by the row of its own leaf. -/
def convertOwn
    (platform : Platform) (schema : List SchemaLeaf) (options : ReadOptions)
    (selected : List Nat) (columns : List RVector) :
    Except ConvertError (List RColumn) :=
  (selected.zip columns).mapM fun entry =>
    match schema[entry.1]? with
    | none => .ok ⟨entry.2, .none⟩
    | some own => applyConverter platform entry.2 (planConverter options own)

/-- The dotted path of a leaf, by index. -/
def pathAt (schema : List SchemaLeaf) (k : Nat) : String :=
  (schema[k]?.map fun s => s.leaf.dottedPath).getD ""

variable {schema : List SchemaLeaf} {options : ReadOptions}
variable {file : ParquetFile} {sel : Selection}
variable {indexes : Option (List Nat)} {rowGroups : Option (List ℤ)}

/-- The names of a native result are the paths of the selected leaves. -/
theorem resultNames_eq
    (hleaves : file.leaves = schema.map SchemaLeaf.leaf)
    (hsel : prepareSelection file (nativeColumns indexes) rowGroups
      (columnKinds (buildPlan schema options) indexes) options.int64 =
        .ok sel) :
    resultNames file sel =
      (selectedIndexes (buildPlan schema options) indexes).map
        (pathAt schema) := by
  have hcolumns := prepareSelection_fileColumns hsel
  rw [hleaves, List.length_map] at hcolumns
  rw [selectedIndexes, length_buildPlan, ← hcolumns, List.map_map]
  simp only [resultNames, hleaves, List.getElem?_map, Option.map_map]
  rfl

theorem applyPlan_eq_convertOwn
    {selected : List Nat}
    (hselected : ∀ k ∈ selected, k < schema.length)
    (hfirst : ∀ k ∈ selected, FirstOfPathAgrees schema options k)
    (platform : Platform) (columns : List RVector) :
    applyPlan platform (buildPlan schema options)
        (selected.map (pathAt schema)) columns =
      convertOwn platform schema options selected columns := by
  induction selected generalizing columns with
  | nil =>
      rfl
  | cons k selected ih =>
      cases columns with
      | nil =>
          rfl
      | cons x columns =>
          have hlt := hselected k (by simp)
          have hown : schema[k]? = some schema[k] :=
            List.getElem?_eq_getElem hlt
          have hrow := (planRowFor_converter_iff hown).mpr
            (hfirst k (by simp))
          obtain ⟨row, hfound, hconverter⟩ := Option.map_eq_some_iff.mp hrow
          have htail := ih (fun k hk => hselected k (by simp [hk]))
            (fun k hk => hfirst k (by simp [hk])) columns
          have hhead : applyPlanColumn platform (buildPlan schema options)
              (pathAt schema k) x =
                applyConverter platform x
                  (planConverter options schema[k]) := by
            rw [applyPlanColumn, pathAt, hown, Option.map_some,
              Option.getD_some, hfound, ← hconverter]
          simp only [applyPlan, convertOwn] at htail ⊢
          simp only [List.map_cons, List.zip_cons_cons, List.mapM_cons, hhead,
            htail, hown]

/-- Leaves selected by `qio_select_columns` are leaves of the schema. -/
theorem selectedIndexes_lt
    {columns : Option (List String)}
    (hselect : selectColumns (buildPlan schema options) columns =
      .ok indexes) :
    ∀ k ∈ selectedIndexes (buildPlan schema options) indexes,
      k < schema.length := by
  intro k hk
  simp only [selectColumns, bind_eq_ok_iff] at hselect
  obtain ⟨resolved, hresolved, hselect⟩ := hselect
  cases resolved with
  | none =>
      simp only at hselect
      split_ifs at hselect <;> cases hselect
      · simp only [selectedIndexes, Option.getD_some,
          selectColumns.dropNested, List.mem_filter, List.mem_range,
          length_buildPlan] at hk
        exact hk.1
      · simpa [selectedIndexes] using hk
  | some list =>
      cases hselect
      have hlist := (List.mem_filter.mp hk).1
      cases columns with
      | none =>
          cases hresolved
      | some paths =>
          simp only [resolveColumns] at hresolved
          split_ifs at hresolved
          cases hresolved
          obtain ⟨path, -, hwhich⟩ := List.mem_flatMap.mp hlist
          simpa using List.mem_range.mp (List.mem_filter.mp hwhich).1

/-- Leaves selected by path share their path with no other leaf. -/
theorem firstOfPathAgrees_of_selected
    {columns : Option (List String)}
    (hselect : selectColumns (buildPlan schema options) columns =
      .ok indexes)
    (hsome : columns.isSome) :
    ∀ k ∈ selectedIndexes (buildPlan schema options) indexes,
      FirstOfPathAgrees schema options k := by
  intro k hk
  obtain ⟨paths, rfl⟩ := Option.isSome_iff_exists.mp hsome
  simp only [selectColumns, bind_eq_ok_iff] at hselect
  obtain ⟨resolved, hresolved, hselect⟩ := hselect
  cases resolved with
  | none =>
      simp only [resolveColumns] at hresolved
      split_ifs at hresolved
      cases hresolved
  | some list =>
      cases hselect
      exact firstOfPathAgrees_of_resolved hresolved (List.mem_filter.mp hk).1

/-- Every column of a native result is converted by the plan row of its own
leaf exactly when, for each selected leaf, the first leaf with its dotted path
has the same converter. The result is then the native one with each vector
converted by its own row. A selection given as paths always meets the
condition. -/
theorem own_converters_iff
    {columns : Option (List String)}
    (hleaves : file.leaves = schema.map SchemaLeaf.leaf)
    (hselect : selectColumns (buildPlan schema options) columns =
      .ok indexes)
    (hsel : prepareSelection file (nativeColumns indexes) rowGroups
      (columnKinds (buildPlan schema options) indexes) options.int64 =
        .ok sel) :
    let selected := selectedIndexes (buildPlan schema options) indexes
    (OwnConverters schema options (resultNames file sel) selected ↔
      ∀ k ∈ selected, FirstOfPathAgrees schema options k) ∧
    ((∀ k ∈ selected, FirstOfPathAgrees schema options k) →
      ∀ platform vectors,
        applyPlan platform (buildPlan schema options)
            (resultNames file sel) vectors =
          convertOwn platform schema options selected vectors) ∧
    (columns.isSome → ∀ k ∈ selected, FirstOfPathAgrees schema options k) := by
  intro selected
  have hnames : resultNames file sel = selected.map (pathAt schema) :=
    resultNames_eq hleaves hsel
  have hlt : ∀ k ∈ selected, k < schema.length := selectedIndexes_lt hselect
  have hused (i k : Nat) (own : SchemaLeaf)
      (hk : selected[i]? = some k) (hown : schema[k]? = some own) :
      converterUsed (buildPlan schema options) (resultNames file sel) i =
        (planRowFor (buildPlan schema options) own.leaf.dottedPath).map
          PlanRow.converter := by
    simp [converterUsed, hnames, hk, pathAt, hown]
  refine ⟨⟨?_, ?_⟩, ?_, ?_⟩
  · intro hown k hk
    obtain ⟨i, hi⟩ := List.mem_iff_getElem?.mp hk
    have hleaf := List.getElem?_eq_getElem (hlt k hk)
    rw [← planRowFor_converter_iff hleaf, ← hused i k _ hi hleaf]
    exact hown i k _ hi hleaf
  · intro hfirst i k own hi hown
    rw [hused i k own hi hown, planRowFor_converter_iff hown]
    exact hfirst k (List.mem_of_getElem? hi)
  · intro hfirst platform vectors
    rw [hnames]
    exact applyPlan_eq_convertOwn hlt hfirst platform vectors
  · intro hsome k hk
    exact firstOfPathAgrees_of_selected hselect hsome k hk

end OwnRow

section Collision

/-- A file with the leaves of a schema and no rows. -/
def emptyFile (schema : List SchemaLeaf) : ParquetFile where
  leaves := schema.map SchemaLeaf.leaf
  rowGroups := []
  chunk_length := by simp
  chunk_fits := by simp

/-- A platform with exact powers of ten and no time zones. -/
def exactPlatform : Platform where
  pow10 scale := .num (10 ^ scale)
  parseNumber _ := .na
  reanchor _ seconds := seconds
  reanchor_na _ := rfl
  asHms seconds := ⟨realVector seconds, .hms⟩
  asHms_seconds _ := rfl

def utcOptions : ReadOptions := ⟨.double, .numeric, "UTC"⟩

/-- A timestamp `b` in a group `a`, then a flat integer leaf called `a.b`. -/
def collidingSchema : List SchemaLeaf :=
  [⟨["a", "b"], .int64, some (.timestamp (some .millis) true), 0, 1, 0, .required⟩,
    ⟨["a.b"], .int64, none, 0, 0, 0, .required⟩]

/-- The native selection of the flat leaf, wherever it stands. -/
def flatLeafSelection (fileColumn : Nat) : Selection :=
  ⟨[⟨fileColumn, ⟨"a.b", .int64, .int64, 0, 0, .double, false⟩⟩], [], 0⟩

/-- The two leaves in the other order do not harm the flat one. -/
theorem own_converters_iff_reversed :
    OwnConverters collidingSchema.reverse utcOptions ["a.b"] [0] :=
  (@own_converters_iff collidingSchema.reverse utcOptions
    (emptyFile collidingSchema.reverse) (flatLeafSelection 0)
    (some [0]) none none rfl (by decide +kernel) (by rfl)).1.mpr (by
      intro k hk own _ j first hlt
      obtain rfl : k = 0 := by simpa [selectedIndexes] using hk
      exact absurd hlt (by omega))

/-- With every column asked for, the flat leaf is read, found again as the
nested one, and its integers become times. -/
theorem colliding_path_converts_foreign :
    selectColumns (buildPlan collidingSchema utcOptions) none =
        .ok (some [1]) ∧
      prepareSelection (emptyFile collidingSchema) (some [2]) none
        (columnKinds (buildPlan collidingSchema utcOptions) (some [1]))
        .double = .ok (flatLeafSelection 1) ∧
      resultNames (emptyFile collidingSchema) (flatLeafSelection 1) = ["a.b"] ∧
      ¬ OwnConverters collidingSchema utcOptions ["a.b"] [1] ∧
      applyPlan exactPlatform (buildPlan collidingSchema utcOptions) ["a.b"]
          [⟨.realsxp, [.dbl (.num 1500)]⟩] =
        .ok [⟨⟨.realsxp, [.dbl (.num (3 / 2))]⟩, .posixct "UTC"⟩] ∧
      convertOwn exactPlatform collidingSchema utcOptions [1]
          [⟨.realsxp, [.dbl (.num 1500)]⟩] =
        .ok [⟨⟨.realsxp, [.dbl (.num 1500)]⟩, .none⟩] := by
  refine ⟨by decide +kernel, by rfl, by decide +kernel, ?_, by decide +kernel,
    rfl⟩
  intro hown
  have hforeign : converterUsed (buildPlan collidingSchema utcOptions)
      ["a.b"] 0 = some (.timestamp true .millis "UTC") := by
    decide +kernel
  have hused := hown 0 1 _ rfl rfl
  rw [hforeign] at hused
  exact absurd hused (by decide)

end Collision

end Plan
end QioParquet
