import QioParquet.Plan.Apply
import QioParquet.Read.Agreement
import Mathlib.Tactic

/-!
# Elements of a collected column

A converter works element by element; only its checks look at the whole
vector. Put together with what a native collect returns, this gives the R value
of any row of any selected column from the value stored in the file.
-/

namespace QioParquet
namespace Plan

open Lib Read

section Elements

variable (platform : Platform)

/-- What a converter makes of one element. -/
def convertCell (c : Converter) (cell : RCell) : Except ConvertError RCell :=
  match c with
  | .decimalInt scale => do
      let d ← asDouble platform cell
      return .dbl (divide d (platform.pow10 scale))
  | .decimalBinary scale => do
      let bytes ← listBytes cell
      return .dbl (divide (decimalOfBytes bytes) (platform.pow10 scale))
  | .timestamp adjusted unit tz => do
      let d ← asDouble platform cell
      let seconds := divide d (.num unit.perSecond)
      return .dbl (if adjusted ∨ tz = "UTC" then seconds
        else platform.reanchor tz seconds)
  | .time _ unit => do
      let d ← asDouble platform cell
      return .dbl (divide d (.num unit.perSecond))
  | .date32 => do
      let d ← asDouble platform cell
      return .dbl d
  | .int96 => do
      let d ← asDouble platform cell
      return .dbl (divide d (.num 1))
  | .nullLogical => .ok .lglNA
  | .float16 => do
      let bytes ← listBytes cell
      let d ← float16OfBytes bytes
      return .dbl d
  | _ => .ok cell

/-- The vector type a converter leaves. -/
def Converter.sexptype (c : Converter) (native : SexpType) : SexpType :=
  match c with
  | .decimalInt _ => .realsxp
  | .decimalBinary _ => .realsxp
  | .timestamp _ _ _ => .realsxp
  | .time _ _ => .realsxp
  | .date32 => .realsxp
  | .int96 => .realsxp
  | .nullLogical => .lglsxp
  | .float16 => .realsxp
  | _ => native

variable {platform}

theorem mapM_ok_self {ε α : Type} (xs : List α) :
    (xs.mapM fun x => (.ok x : Except ε α)) = .ok xs := by
  simpa using List.mapM_pure (m := Except ε) (l := xs) (f := id)

theorem mapM_ok_const {ε α β : Type} (xs : List α) (y : β) :
    (xs.mapM fun _ => (.ok y : Except ε β)) =
      .ok (List.replicate xs.length y) := by
  simpa using List.mapM_pure (m := Except ε) (l := xs) (f := fun _ => y)

/-- Scaling a vector down scales each element. -/
theorem scaleDown_ok
    {x : RVector} {divisor : RDouble} {values : List RDouble}
    (g : RDouble → RDouble)
    (h : scaleDown platform x divisor = .ok values) :
    (x.cells.mapM fun cell => do
      let d ← asDouble platform cell
      return RCell.dbl (g (divide d divisor))) =
        .ok (realVector (values.map g)).cells := by
  have hmap := mapM_map_ok (fun d => RCell.dbl (g d)) h
  simpa [realVector, Function.comp_def, bind_assoc] using hmap

/-- A converter that succeeds has converted each element. -/
theorem applyConverter_ok
    {x : RVector} {c : Converter} {column : RColumn}
    (h : applyConverter platform x c = .ok column) :
    column.vector.sexptype = c.sexptype x.sexptype ∧
      x.cells.mapM (convertCell platform c) = .ok column.vector.cells := by
  cases c with
  | decimalInt scale =>
      simp only [applyConverter, bind_eq_ok_iff, pure_eq_ok,
        Except.ok.injEq] at h
      obtain ⟨values, hvalues, rfl⟩ := h
      have hcells := scaleDown_ok id hvalues
      rw [List.map_id] at hcells
      exact ⟨rfl, hcells⟩
  | decimalBinary scale =>
      simp only [applyConverter, decimalFromBinary, bind_eq_ok_iff,
        pure_eq_ok, Except.ok.injEq] at h
      obtain ⟨values, hvalues, rfl⟩ := h
      have hcells := mapM_map_ok (fun bytes =>
        RCell.dbl (divide (decimalOfBytes bytes) (platform.pow10 scale)))
        hvalues
      refine ⟨rfl, hcells.trans ?_⟩
      simp [realVector, Function.comp_def]
  | timestamp adjusted unit tz =>
      simp only [applyConverter, asPosixct, bind_eq_ok_iff] at h
      obtain ⟨seconds, hseconds, h⟩ := h
      let anchor (s : RDouble) : RDouble :=
        if adjusted ∨ tz = "UTC" then s else platform.reanchor tz s
      have hvector : column.vector = realVector (seconds.map anchor) := by
        split_ifs at h with hadjusted hutc <;> cases h
        · simp [anchor, hadjusted]
        · simp [anchor, hutc]
        · simp [anchor, hadjusted, hutc]
      rw [hvector]
      exact ⟨rfl, scaleDown_ok anchor hseconds⟩
  | time mode unit =>
      simp only [applyConverter, asTimeOfDay, platform.asHms_seconds,
        bind_eq_ok_iff] at h
      obtain ⟨seconds, hseconds, h⟩ := h
      have hcells := scaleDown_ok id hseconds
      rw [List.map_id] at hcells
      split_ifs at h
      cases mode <;> cases h <;> exact ⟨rfl, hcells⟩
  | date32 =>
      simp only [applyConverter, bind_eq_ok_iff, pure_eq_ok,
        Except.ok.injEq] at h
      obtain ⟨values, hvalues, rfl⟩ := h
      exact ⟨rfl, mapM_map_ok RCell.dbl hvalues⟩
  | int96 =>
      simp only [applyConverter, bind_eq_ok_iff, pure_eq_ok,
        Except.ok.injEq] at h
      obtain ⟨values, hvalues, rfl⟩ := h
      have hcells := scaleDown_ok id hvalues
      rw [List.map_id] at hcells
      exact ⟨rfl, hcells⟩
  | nullLogical =>
      cases h
      exact ⟨rfl, mapM_ok_const _ _⟩
  | float16 =>
      simp only [applyConverter, decodeFloat16, bind_eq_ok_iff, pure_eq_ok,
        Except.ok.injEq] at h
      obtain ⟨values, hvalues, decoded, hdecoded, rfl⟩ := h
      exact ⟨rfl, mapM_bind_ok hvalues (mapM_map_ok RCell.dbl hdecoded)⟩
  | _ =>
      cases h
      exact ⟨rfl, mapM_ok_self _⟩

end Elements

section Columns

/-- What the plan asks of the native layer for a leaf. -/
def kindOf (c : Converter) : Kind :=
  match c with
  | .int64Double => .int64
  | .int64Bit64 => .int64
  | .text => .text
  | .binary => .binary
  | .float16 => .binary
  | .uuid => .uuid
  | .decimalBinary _ => .binary
  | .uint32 => .uint32
  | _ => .default

theorem ofCode_kindCode (c : Converter) :
    Kind.ofCode c.kindCode = some (kindOf c) := by
  cases c <;> rfl

/-- The native column a leaf is read into. -/
def planSpec (options : ReadOptions) (s : SchemaLeaf) : ColumnSpec :=
  s.leaf.column (kindOf (planConverter options s)) options.int64

variable {schema : List SchemaLeaf} {options : ReadOptions}
variable {file : ParquetFile} {sel : Selection}
variable {indexes : Option (List Nat)} {rowGroups : Option (List ℤ)}

/-- Column `i` of the native selection is the `i`-th selected leaf, read as its
plan row asks. -/
theorem prepareSelection_column
    (hleaves : file.leaves = schema.map SchemaLeaf.leaf)
    (hsel : prepareSelection file (nativeColumns indexes) rowGroups
      (columnKinds (buildPlan schema options) indexes) options.int64 =
        .ok sel)
    {i k : Nat} {own : SchemaLeaf}
    (hk : (selectedIndexes (buildPlan schema options) indexes)[i]? = some k)
    (hown : schema[k]? = some own) :
    sel.columns[i]? = some ⟨k, planSpec options own⟩ := by
  unfold prepareSelection at hsel
  simp only [bind_eq_ok_iff, pure_eq_ok, Except.ok.injEq] at hsel
  obtain ⟨list, hlist, kinds, hkinds, selected, hselected, mask, -, total, -,
    rfl⟩ := hsel
  have hindex : list[i]? = some k := by
    rw [selectIndexes_nativeColumns hlist, hleaves, List.length_map,
      ← length_buildPlan schema options]
    exact hk
  have hcode : (columnKinds (buildPlan schema options) indexes)[i]? =
      some (planConverter options own).kindCode := by
    simp [columnKinds, hk, buildPlan_getElem?, hown, planRow]
  unfold selectKinds at hkinds
  split_ifs at hkinds
  obtain ⟨kind, hkind, hselectKind⟩ := getElem?_of_mapM_ok hkinds hcode
  obtain rfl : kindOf (planConverter options own) = kind := by
    simpa [selectKind, ofCode_kindCode] using hselectKind
  obtain ⟨s, hs, hcolumn⟩ := getElem?_of_mapM_ok hselected
    (List.getElem?_zip_eq_some.mpr ⟨hindex, hkind⟩ :
      (list.zip kinds)[i]? = some (k, kindOf (planConverter options own)))
  rw [hs]
  have hleaf : file.leaves[k]? = some own.leaf := by
    simp [hleaves, hown]
  simp only [selectColumn, hleaf] at hcolumn
  split_ifs at hcolumn
  exact congrArg some (Except.ok.inj hcolumn).symm

end Columns

section PlannedCollect

/-- A `collect()` that returned: the plan, the selection made from it, the
native read, and the conversion of its result. -/
structure PlannedCollect where
  platform : Platform
  schema : List SchemaLeaf
  options : ReadOptions
  columns : Option (List String)
  indexes : Option (List Nat)
  rowGroups : Option (List ℤ)
  file : ParquetFile
  ctx : CollectContext
  handle : Handle
  run : List Action
  native : ReadResult
  result : List RColumn
  leaves : file.leaves = schema.map SchemaLeaf.leaf
  select : selectColumns (buildPlan schema options) columns = .ok indexes
  selection : prepareSelection file (nativeColumns indexes) rowGroups
    (columnKinds (buildPlan schema options) indexes) options.int64 =
      .ok ctx.selection
  groups : ctx.groups = ctx.selection.groups file
  delivers : ColumnsDeliver ctx
  collected : CollectRun ctx handle run (.ok native)
  converted : applyPlan platform (buildPlan schema options)
    (resultNames file ctx.selection) native.frame.columns = .ok result

namespace PlannedCollect

/-- The selected leaves, in the order of the result. -/
def selected (c : PlannedCollect) : List Nat :=
  selectedIndexes (buildPlan c.schema c.options) c.indexes

theorem reads (c : PlannedCollect) : c.ctx.Reads c.file :=
  ⟨⟨_, _, _, _, c.selection⟩, c.groups⟩

/-- The rows of a leaf over all selected row groups. -/
def rows (c : PlannedCollect) (k : Nat) : List Row :=
  c.ctx.groups.flatMap fun entry => entry.2.chunk k

/-- The R value of a row: the element of the stored value, converted by the
row of the plan that is found for the column. -/
theorem element
    (c : PlannedCollect) {i k p : Nat} {own : SchemaLeaf} {row : Row}
    (hk : c.selected[i]? = some k)
    (hown : c.schema[k]? = some own)
    (hfirst : FirstOfPathAgrees c.schema c.options k)
    (hrow : (c.rows k)[p]? = some row) :
    ∃ column sexptype cell value,
      c.result[i]? = some column ∧
      columnSexpType own.physicalType
        (kindOf (planConverter c.options own)) = .ok sexptype ∧
      column.vector.sexptype =
        (planConverter c.options own).sexptype sexptype ∧
      nativeCell (planSpec c.options own) row.value = some cell ∧
      convertCell c.platform (planConverter c.options own) cell =
        .ok value ∧
      column.vector.cells[p]? = some value := by
  have hcolumn := prepareSelection_column c.leaves c.selection hk hown
  obtain ⟨sexptype, cells, htype, hvector, hcells⟩ :=
    c.collected.column_native c.reads c.delivers hcolumn
  obtain ⟨cell, hcell, hget⟩ := nativeCells_getElem? hcells hrow
  -- Its conversion.
  have hname : (resultNames c.file c.ctx.selection)[i]? =
      some own.leaf.dottedPath := by
    rw [resultNames_eq c.leaves c.selection, List.getElem?_map]
    simp only [selected] at hk
    simp [hk, pathAt, hown]
  obtain ⟨column, hresult, happly⟩ := getElem?_of_mapM_ok c.converted
    (List.getElem?_zip_eq_some.mpr ⟨hname, hvector⟩ :
      ((resultNames c.file c.ctx.selection).zip
        c.native.frame.columns)[i]? =
          some (own.leaf.dottedPath, ⟨sexptype, cells⟩))
  obtain ⟨prow, hfound, hconverter⟩ := Option.map_eq_some_iff.mp
    ((planRowFor_converter_iff hown).mpr hfirst)
  simp only [applyPlanColumn, hfound, hconverter] at happly
  obtain ⟨hsexptype, hconverted⟩ := applyConverter_ok happly
  obtain ⟨value, hvalue, hconvert⟩ := getElem?_of_mapM_ok hconverted hget
  exact ⟨column, sexptype, cell, value, hresult, htype, hsexptype, hcell,
    hconvert, hvalue⟩

/-- The chunks of a selected leaf: as long as their group, every row fitting. -/
theorem chunk
    (c : PlannedCollect) {i k g : Nat} {own : SchemaLeaf} {group : RowGroup}
    (hk : c.selected[i]? = some k)
    (hown : c.schema[k]? = some own)
    (hgroup : (g, group) ∈ c.ctx.groups) :
    (group.chunk k).length = group.numRows.toNat ∧
      ∀ row ∈ group.chunk k, row.Fits (planSpec c.options own) := by
  have hcolumn := List.mem_of_getElem?
    (prepareSelection_column c.leaves c.selection hk hown)
  rw [c.groups] at hgroup
  exact c.reads.valid.chunk hgroup hcolumn

/-- Row `m` of a group stands after the rows of the groups before it. -/
theorem rows_getElem?
    (c : PlannedCollect) {i k g m : Nat} {own : SchemaLeaf} {group : RowGroup}
    {before after : List (Nat × RowGroup)} {row : Row}
    (hk : c.selected[i]? = some k)
    (hown : c.schema[k]? = some own)
    (hgroups : c.ctx.groups = before ++ (g, group) :: after)
    (hrow : (group.chunk k)[m]? = some row) :
    (c.rows k)[rowsOf before + m]? = some row := by
  have hbefore : (before.flatMap fun entry => entry.2.chunk k).length =
      rowsOf before := by
    rw [List.length_flatMap, rowsOf]
    refine congrArg List.sum (List.map_congr_left ?_)
    rintro ⟨g', group'⟩ hentry
    have hmem : (g', group') ∈ c.ctx.groups := by
      rw [hgroups]
      simp [hentry]
    exact (c.chunk hk hown hmem).1
  have hm := (List.getElem?_eq_some_iff.mp hrow).1
  rw [rows, hgroups, List.flatMap_append, List.flatMap_cons,
    List.getElem?_append_right (by omega), hbefore, Nat.add_sub_cancel_left,
    List.getElem?_append_left hm]
  exact hrow

end PlannedCollect

end PlannedCollect

end Plan
end QioParquet
