import QioParquet.Read.DecoderLaws
import Mathlib.Tactic

/-!
# Files, native readers and selections

A Parquet file as the reader sees it: leaf columns, row groups, and the rows of
every flat column chunk. The vendored decoder is not embedded. It enters as a
`NativeReader`, whose answers may fail or come back short at any point; what is
assumed of the answers that do arrive is stated by `NativeReader.Faithful`.
`prepareSelection` is `qio_prepare_selection`.
-/

namespace QioParquet
namespace Read

open Lib

section Files

/-- A schema leaf. The annotation is kept for integers only, as width and
signedness; the others do not reach the native decoders. -/
structure Leaf where
  path : List String
  type : PhysicalType
  typeLength : ℤ
  maxDef : Nat
  maxRep : Nat
  integer : Option (Nat × Bool)
deriving DecidableEq

def Leaf.name (leaf : Leaf) : String :=
  leaf.path.getLastD ""

/-- `qio_column_path_cstr`. -/
def Leaf.dottedPath (leaf : Leaf) : String :=
  ".".intercalate leaf.path

theorem length_getLastD_le
    (path : List String) :
    (path.getLastD "").length ≤ (".".intercalate path).length := by
  induction path with
  | nil =>
      exact Nat.zero_le _
  | cons first path ih =>
      cases path with
      | nil =>
          simp
      | cons second rest =>
          rw [String.intercalate_cons_cons, String.length_append]
          have hlast : (first :: second :: rest).getLastD "" =
              (second :: rest).getLastD "" := by
            simp [List.getLastD]
          rw [hlast]
          omega

/-- The dotted path is the name for a leaf at the top level only. -/
theorem Leaf.dottedPath_eq_name_iff
    (leaf : Leaf) :
    leaf.dottedPath = leaf.name ↔ leaf.path.length ≤ 1 := by
  rw [Leaf.dottedPath, Leaf.name]
  cases leaf.path with
  | nil =>
      simp
  | cons first path =>
      cases path with
      | nil =>
          simp
      | cons second rest =>
          have hle := length_getLastD_le (second :: rest)
          have hlast : (first :: second :: rest).getLastD "" =
              (second :: rest).getLastD "" := by
            simp [List.getLastD]
          refine ⟨fun hpath => ?_, fun hlength => ?_⟩
          · have hlength := congrArg String.length hpath
            rw [String.intercalate_cons_cons, String.length_append,
              String.length_append, hlast, show ".".length = 1 from rfl] at hlength
            omega
          · simp at hlength

/-- A leaf that is neither nested nor repeated. -/
def Leaf.isFlat (leaf : Leaf) : Bool :=
  leaf.path.length ≤ 1 && leaf.maxRep == 0

/-- An annotation as a 64-bit unsigned integer. -/
def Leaf.isUnsigned64 (leaf : Leaf) : Bool :=
  leaf.integer == some (64, false)

/-- What a decoder is told about a leaf read as `kind`. -/
def Leaf.column
    (leaf : Leaf) (kind : Kind) (int64Option : Int64Mode) : ColumnSpec where
  name := leaf.name
  type := leaf.type
  kind := kind
  typeLength := leaf.typeLength
  maxDef := leaf.maxDef
  int64Option := int64Option
  unsigned64 := leaf.isUnsigned64

/-- Whether a row fits depends on the leaf only. -/
theorem Leaf.fits_column
    {leaf : Leaf} {kind kind' : Kind} {mode mode' : Int64Mode} {row : Row} :
    row.Fits (leaf.column kind mode) ↔ row.Fits (leaf.column kind' mode') := by
  cases row <;> rfl

/-- A row group: its row count, and the rows of each column chunk. -/
structure RowGroup where
  numRows : ℤ
  chunk : Nat → List Row

/-- A file whose flat chunks have as many rows as their row group, each row one
the leaf can hold. -/
structure ParquetFile where
  leaves : List Leaf
  rowGroups : List RowGroup
  chunk_length : ∀ group ∈ rowGroups, ∀ index leaf,
    leaves[index]? = some leaf → leaf.isFlat →
      ((group.chunk index).length : ℤ) = group.numRows
  chunk_fits : ∀ group ∈ rowGroups, ∀ index leaf,
    leaves[index]? = some leaf → leaf.isFlat →
      ∀ row ∈ group.chunk index, row.Fits (leaf.column .default .double)

end Files

section Native

/-- What `carquet_column_get_dictionary` hands out. Offsets are missing for a
fixed-width dictionary. -/
structure DictionaryPage where
  data : Bytes
  count : ℤ
  offsets : Option (List Nat)

/-- A batch read in preserve mode: dictionary indices in place of values. -/
structure IndexBatch where
  count : Nat
  levels : Option (List Nat)
  indices : List Nat
  levels_room : ∀ list, levels = some list → count ≤ list.length

/-- An open column reader. A batch read answers from the position reached so
far; `none` is a negative return. The other fields are its preserve mode. -/
structure ColumnReader where
  readBatch : Nat → Nat → Option DenseBatch
  setPreserve : Bool
  loadPage : Bool
  dictionary : Option DictionaryPage
  readIndices : Nat → Nat → Option IndexBatch

/-- Footer facts about a column chunk. -/
structure ChunkMetadata where
  hasDictionaryPage : Bool
  encodings : String

/-- The native reader of a file: opening a column chunk (the second argument
counts the attempts), and the chunk's metadata. -/
structure NativeReader where
  getColumn : Nat → Nat → Nat → Except String ColumnReader
  chunkMetadata : Nat → Nat → Option ChunkMetadata

/-- `qio_column_encodings`. -/
def NativeReader.columnEncodings
    (native : NativeReader) (rowGroup column : Nat) : String :=
  match native.chunkMetadata rowGroup column with
  | none => "unknown"
  | some info => if info.encodings = "" then "unknown" else info.encodings

/-- A batch that comes back whole stands for the rows it was asked for. -/
def ColumnReader.Faithful
    (r : ColumnReader) (c : ColumnSpec) (rows : List Row) : Prop :=
  ∀ position want b,
    r.readBatch position want = some b →
    b.count = want →
    b.Delivers c ((rows.drop position).take want)

end Native

section Selections

/-- A selected column: its position in the file, and what to read it as. -/
structure SelectedColumn where
  fileColumn : Nat
  spec : ColumnSpec

/-- `qio_selection_t`. -/
structure Selection where
  columns : List SelectedColumn
  mask : List Bool
  totalRows : ℤ

/-- Resolve one 1-based column index. -/
def selectIndex (fileColumns : Nat) (index : ℤ) : Except ReadError Nat :=
  if index < 1 ∨ (fileColumns : ℤ) < index then
    .error (.columnIndex index fileColumns)
  else
    .ok (index - 1).toNat

/-- The selected columns: all of them, or the ones asked for. -/
def selectIndexes
    (fileColumns : Nat) : Option (List ℤ) → Except ReadError (List Nat)
  | none => .ok (List.range fileColumns)
  | some values => values.mapM (selectIndex fileColumns)

def selectKind (code : ℤ) : Except ReadError Kind :=
  match Kind.ofCode code with
  | some kind => .ok kind
  | none => .error (.invalidKind code)

/-- One kind for each selected column. -/
def selectKinds
    (columns : Nat) (codes : List ℤ) : Except ReadError (List Kind) :=
  if codes.length ≠ columns then
    .error .columnKinds
  else
    codes.mapM selectKind

/-- The checks `qio_prepare_selection` makes of one selected column. -/
def selectColumn
    (file : ParquetFile) (int64Option : Int64Mode)
    (index : Nat) (kind : Kind) : Except ReadError SelectedColumn :=
  match file.leaves[index]? with
  | none => .error (.columnIndex (index + 1) file.leaves.length)
  | some leaf =>
      if 1 < leaf.path.length ∨ 0 < leaf.maxRep then
        .error (.nestedColumn leaf.dottedPath)
      else if leaf.type = .fixedLenByteArray ∧ kind ≠ .binary ∧
          kind ≠ .uuid then
        .error (.fixedNotRaw leaf.dottedPath)
      else if leaf.type = .fixedLenByteArray ∧ leaf.typeLength ≤ 0 then
        .error (.fixedWidth leaf.dottedPath leaf.typeLength)
      else
        .ok ⟨index, leaf.column kind int64Option⟩

/-- The selected row groups as a mask. -/
def selectRowGroups
    (groups : Nat) (rowGroups : Option (List ℤ)) :
    Except ReadError (List Bool) :=
  match rowGroups with
  | none => .ok (List.replicate groups true)
  | some values =>
      values.foldlM
        (fun mask value =>
          if value < 1 ∨ (groups : ℤ) < value then
            .error (.rowGroupRange value groups)
          else
            .ok (mask.set (value - 1).toNat true))
        (List.replicate groups false)

/-- Rows of the selected row groups, refused when negative or past 2^63. -/
def countRows : ℤ → List (Bool × RowGroup) → Except ReadError ℤ
  | total, [] => .ok total
  | total, (false, _) :: rest => countRows total rest
  | total, (true, group) :: rest =>
      if group.numRows < 0 ∨ 2 ^ 63 - 1 - group.numRows < total then
        .error .rowCount
      else
        countRows (total + group.numRows) rest

/-- `qio_prepare_selection`. -/
def prepareSelection
    (file : ParquetFile)
    (columns rowGroups : Option (List ℤ)) (columnKinds : List ℤ)
    (int64Option : Int64Mode) : Except ReadError Selection := do
  let indexes ← selectIndexes file.leaves.length columns
  let kinds ← selectKinds indexes.length columnKinds
  let selected ← (indexes.zip kinds).mapM fun entry =>
    selectColumn file int64Option entry.1 entry.2
  let mask ← selectRowGroups file.rowGroups.length rowGroups
  let totalRows ← countRows 0 (mask.zip file.rowGroups)
  return ⟨selected, mask, totalRows⟩

/-- The row groups a mask selects, with their indexes, in file order. -/
def maskedGroups : Nat → List (Bool × RowGroup) → List (Nat × RowGroup)
  | _, [] => []
  | index, (true, group) :: rest =>
      (index, group) :: maskedGroups (index + 1) rest
  | index, (false, _) :: rest => maskedGroups (index + 1) rest

/-- The selected row groups of a file. -/
def Selection.groups
    (sel : Selection) (file : ParquetFile) : List (Nat × RowGroup) :=
  maskedGroups 0 (sel.mask.zip file.rowGroups)

end Selections

section SelectionLaws

theorem maskedGroups_getElem?
    {start index : Nat} {group : RowGroup}
    {entries : List (Bool × RowGroup)}
    (h : (index, group) ∈ maskedGroups start entries) :
    start ≤ index ∧ entries[index - start]? = some (true, group) := by
  induction entries generalizing start with
  | nil =>
      cases h
  | cons entry entries ih =>
      obtain ⟨selected, head⟩ := entry
      have hshift (htail : (index, group) ∈ maskedGroups (start + 1) entries) :
          start ≤ index ∧
            ((selected, head) :: entries)[index - start]? =
              some (true, group) := by
        obtain ⟨hle, hget⟩ := ih htail
        refine ⟨by omega, ?_⟩
        rw [show index - start = index - (start + 1) + 1 by omega]
        simpa using hget
      cases selected with
      | false =>
          exact hshift h
      | true =>
          rcases List.mem_cons.mp h with heq | htail
          · obtain ⟨rfl, rfl⟩ := Prod.mk.inj heq
            simp
          · exact hshift htail

/-- A selected group is the group of the file at its index. -/
theorem Selection.mem_groups
    {sel : Selection} {file : ParquetFile} {index : Nat} {group : RowGroup}
    (h : (index, group) ∈ sel.groups file) :
    file.rowGroups[index]? = some group := by
  have hget := (maskedGroups_getElem? h).2
  rw [Nat.sub_zero, List.getElem?_zip_eq_some] at hget
  exact hget.2

/-- What `qio_prepare_selection` guarantees. -/
structure Selection.Valid (sel : Selection) (file : ParquetFile) : Prop where
  columns : ∀ s ∈ sel.columns, ∃ leaf kind mode,
    file.leaves[s.fileColumn]? = some leaf ∧ leaf.isFlat = true ∧
      s.spec = leaf.column kind mode ∧ s.spec.Supported
  numRows : ∀ entry ∈ sel.groups file, 0 ≤ entry.2.numRows
  totalRows :
    sel.totalRows = ((sel.groups file).map fun entry => entry.2.numRows).sum

theorem countRows_ok
    {total result : ℤ} {entries : List (Bool × RowGroup)} (start : Nat)
    (h : countRows total entries = .ok result) :
    (∀ entry ∈ maskedGroups start entries, 0 ≤ entry.2.numRows) ∧
      result = total +
        ((maskedGroups start entries).map fun entry =>
          entry.2.numRows).sum := by
  induction entries generalizing total start with
  | nil =>
      obtain rfl : total = result := by
        simpa [countRows] using h
      simp [maskedGroups]
  | cons entry entries ih =>
      obtain ⟨selected, group⟩ := entry
      cases selected with
      | false =>
          exact ih (start + 1) h
      | true =>
          rw [countRows] at h
          split_ifs at h with hbad
          obtain ⟨hpos, hsum⟩ := ih (start + 1) h
          rw [maskedGroups]
          refine ⟨?_, ?_⟩
          · intro entry hentry
            rcases List.mem_cons.mp hentry with rfl | hentry
            · simp only
              omega
            · exact hpos entry hentry
          · rw [hsum, List.map_cons, List.sum_cons]
            ring

theorem selectColumn_ok
    {file : ParquetFile} {int64Option : Int64Mode} {index : Nat}
    {kind : Kind} {s : SelectedColumn}
    (h : selectColumn file int64Option index kind = .ok s) :
    ∃ leaf, file.leaves[s.fileColumn]? = some leaf ∧ leaf.isFlat = true ∧
      s.spec = leaf.column kind int64Option ∧ s.spec.Supported := by
  unfold selectColumn at h
  cases hleaf : file.leaves[index]? with
  | none =>
      simp [hleaf] at h
  | some leaf =>
      simp only [hleaf] at h
      split_ifs at h with hnested hraw hwidth
      cases h
      refine ⟨leaf, hleaf, ?_, rfl, ?_⟩
      · simp only [Leaf.isFlat, Bool.and_eq_true, decide_eq_true_eq,
          beq_iff_eq]
        omega
      · intro htype
        by_contra hkind
        exact hraw ⟨htype, fun h => hkind (Or.inr h),
          fun h => hkind (Or.inl h)⟩

/-- A selection that is accepted is valid. -/
theorem prepareSelection_ok
    {file : ParquetFile} {columns rowGroups : Option (List ℤ)}
    {columnKinds : List ℤ} {int64Option : Int64Mode} {sel : Selection}
    (h : prepareSelection file columns rowGroups columnKinds int64Option =
      .ok sel) :
    sel.Valid file := by
  unfold prepareSelection at h
  simp only [bind_eq_ok_iff, pure_eq_ok, Except.ok.injEq] at h
  obtain ⟨indexes, -, kinds, -, selected, hselected, mask, -, total, htotal,
    rfl⟩ := h
  obtain ⟨hpos, hsum⟩ := countRows_ok 0 htotal
  refine ⟨?_, hpos, by simpa [Selection.groups] using hsum⟩
  intro s hs
  obtain ⟨entry, -, hentry⟩ := mem_of_mapM_ok hselected s hs
  obtain ⟨leaf, hleaf⟩ := selectColumn_ok hentry
  exact ⟨leaf, _, _, hleaf⟩

/-- The rows of a selected chunk, as many as its group has, all fitting. -/
theorem Selection.Valid.chunk
    {sel : Selection} {file : ParquetFile}
    (hvalid : sel.Valid file)
    {index : Nat} {group : RowGroup} {s : SelectedColumn}
    (hgroup : (index, group) ∈ sel.groups file)
    (hs : s ∈ sel.columns) :
    (group.chunk s.fileColumn).length = group.numRows.toNat ∧
      ∀ row ∈ group.chunk s.fileColumn, row.Fits s.spec := by
  obtain ⟨leaf, kind, mode, hleaf, hflat, hspec, -⟩ := hvalid.columns s hs
  have hmem : group ∈ file.rowGroups :=
    List.mem_of_getElem? (Selection.mem_groups hgroup)
  refine ⟨?_, ?_⟩
  · have h := file.chunk_length group hmem s.fileColumn leaf hleaf hflat
    omega
  · intro row hrow
    rw [hspec]
    exact Leaf.fits_column.mp
      (file.chunk_fits group hmem s.fileColumn leaf hleaf hflat row hrow)

end SelectionLaws

end Read
end QioParquet
