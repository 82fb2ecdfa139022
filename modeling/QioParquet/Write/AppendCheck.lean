import QioParquet.Plan.Apply
import QioParquet.Plan.TextChannel
import QioParquet.Write.Body
import QioParquet.Write.SchemaLaws
import Mathlib.Tactic

/-!
# What may be appended to a file

`qio_prepare_append` compares the rows of `schema()` with the resolved writer schema
and takes the nullability of the file; carquet compares the leaves once more when it
opens the file. `Agrees` is what the two are for: the same top-level columns, and no
missing value for a column the file declares REQUIRED.
-/

namespace QioParquet
namespace Write

open Lib Read Plan

section Existing

/-- `qio_repetition_name`. -/
def repetitionName : Repetition → String
  | .required => "REQUIRED"
  | .optional => "OPTIONAL"
  | .repeated => "REPEATED"
  | .unknown _ => "UNKNOWN"

/-- A leaf of the file, with the annotation its texts are rendered from. -/
structure FileLeaf where
  leaf : SchemaLeaf
  logical : Option LogicalType
  named : leaf.path ≠ []
  annotated : leaf.logicalType = logical.map LogicalType.logical

/-- The columns of `schema()` that an append looks at. -/
structure ExistingRow where
  name : String
  path : String
  types : SchemaText
  repetitionType : String
deriving DecidableEq

def FileLeaf.row (file : FileLeaf) : ExistingRow where
  name := file.leaf.leaf.name
  path := file.leaf.leaf.dottedPath
  types := schemaText file.leaf.physicalType file.logical
  repetitionType := repetitionName file.leaf.repetition

def SchemaRow.types (row : SchemaRow String) : SchemaText where
  physicalType := row.physicalType
  logicalType := row.logicalType
  logicalDetails := row.logicalDetails

end Existing

section Refusing

/-- Why `qio_prepare_append` refuses. -/
inductive AppendRefusal where
  | noFile (path : String)
  | nested
  | columnCount (existing intended : Nat)
  | names (existing : List String) (intended : List (Option String))
  | differs (name field : String) (existing intended : Option String)
  | required (name : Option String)
deriving DecidableEq

def AppendRefusal.message : AppendRefusal → String
  | .noFile path => "`append = TRUE` but the file does not exist: " ++ path
  | .nested => "Cannot append to a file with nested columns."
  | .columnCount existing intended =>
      s!"Cannot append: the file has {existing} columns but {intended} are being " ++
        "written."
  | .names existing intended =>
      "Cannot append: column names differ, or are in a different order.\n" ++
        "  file:    " ++ ", ".intercalate existing ++
        "\n  writing: " ++ ", ".intercalate (intended.map nameText)
  | .differs name field existing intended =>
      "Cannot append: column `" ++ name ++ "` is " ++ field ++ " " ++
        nameText existing ++ " in the file but " ++ nameText intended ++
        " in the data being written."
  | .required name =>
      "Cannot append: column `" ++ nameText name ++
        "` contains missing values but the file declares it REQUIRED."

/-- The fields of a row that are compared, under their names. -/
def appendFields : List (String × (SchemaText → Option String)) :=
  [("physical_type", fun types => some types.physicalType),
    ("logical_type", SchemaText.logicalType),
    ("logical_details", SchemaText.logicalDetails)]

/-- The first column that differs in a field; missing agrees with missing only. -/
def fieldRefusal (existing : List ExistingRow) (prepared : List (PreparedColumn String))
    (field : String × (SchemaText → Option String)) : Option AppendRefusal :=
  ((existing.zip prepared).find? fun entry =>
      field.2 entry.1.types ≠ field.2 entry.2.row.types).map fun entry =>
    .differs entry.1.name field.1 (field.2 entry.1.types) (field.2 entry.2.row.types)

/-- The first column with `bad <- required & writing_nulls`. -/
def requiredRefusal (existing : List ExistingRow) (prepared : List (PreparedColumn String)) :
    Option AppendRefusal :=
  ((existing.zip prepared).find? fun entry =>
      entry.1.repetitionType == "REQUIRED" &&
        entry.2.row.repetitionType == "OPTIONAL").map fun entry =>
    .required entry.2.row.name

/-- A prepared column with the repetition of the file. -/
def adoptRepetition (existing : ExistingRow) (column : PreparedColumn String) :
    PreparedColumn String :=
  { column with
    nullable := existing.repetitionType != "REQUIRED"
    row := { column.row with repetitionType := existing.repetitionType } }

/-- `qio_prepare_append`. The leaves are `none` for a file that does not exist. -/
def prepareAppend (path : String) (file : Option (List FileLeaf))
    (prepared : List (PreparedColumn String)) :
    Except AppendRefusal (List (PreparedColumn String)) :=
  match file with
  | none => .error (.noFile path)
  | some leaves =>
      let existing := leaves.map FileLeaf.row
      if ∃ row ∈ existing, row.path ≠ row.name then
        .error .nested
      else if existing.length ≠ prepared.length then
        .error (.columnCount existing.length prepared.length)
      else if existing.map (fun row => some row.name) ≠
          prepared.map (fun column => column.row.name) then
        .error (.names (existing.map ExistingRow.name)
          (prepared.map fun column => column.row.name))
      else
        match appendFields.findSome? (fieldRefusal existing prepared) with
        | some refusal => .error refusal
        | none =>
            match requiredRefusal existing prepared with
            | some refusal => .error refusal
            | none => .ok (List.zipWith adoptRepetition existing prepared)

/-- The schema `qio_write_body` hands to carquet. -/
def userSchema (prepared : List (PreparedColumn String)) :
    Except WriteError (List SchemaLeaf) := do
  let columns ← writeColumns plainNames prepared
  return columns.map fun column => column.spec.schemaLeaf

/-- An append that passes both checks, with the columns it goes on with. -/
def Passes (path : String) (leaves : List FileLeaf)
    (prepared adopted : List (PreparedColumn String)) : Prop :=
  prepareAppend path (some leaves) prepared = .ok adopted ∧
    ∃ user, userSchema adopted = .ok user ∧
      schemaMismatch user (leaves.map FileLeaf.leaf) = none

end Refusing

section Carquet

/-- What one round of carquet's check asks for. -/
structure LeafMatches (user file : SchemaLeaf) : Prop where
  physical : user.physicalType = file.physicalType
  repetition : user.repetition = file.repetition
  length : user.physicalType = .fixedLenByteArray → user.typeLength = file.typeLength
  logical : user.logicalType.map Logical.id = file.logicalType.map Logical.id
  name : user.leaf.name = file.leaf.name

theorem leafMismatch_eq_none_iff
    {user file : SchemaLeaf} {index : Nat} :
    leafMismatch user file index = none ↔ LeafMatches user file := by
  rw [leafMismatch]
  constructor
  · intro h
    split_ifs at h with htype hlogical hname
    push Not at htype
    exact ⟨htype.1, htype.2.1, htype.2.2, not_not.mp hlogical, not_not.mp hname⟩
  · rintro ⟨hphysical, hrepetition, hlength, hlogical, hname⟩
    rw [if_neg (by tauto), if_neg (not_not.mpr hlogical), if_neg (not_not.mpr hname)]

/-- carquet lets an append go on when the leaves match one by one. -/
theorem schemaMismatch_eq_none_iff
    {user file : List SchemaLeaf} :
    schemaMismatch user file = none ↔ List.Forall₂ LeafMatches user file := by
  rw [List.forall₂_iff_zip, schemaMismatch]
  by_cases hlength : file.length = user.length
  · rw [if_neg (not_not.mpr hlength), List.head?_eq_none_iff, List.filterMap_eq_nil_iff]
    refine ⟨fun h => ⟨hlength.symm, fun {a b} hmem => ?_⟩, fun h entry hentry => ?_⟩
    · obtain ⟨i, hi⟩ := List.mem_iff_getElem?.mp hmem
      exact leafMismatch_eq_none_iff.mp
        (h ((a, b), i) (List.mk_mem_zipIdx_iff_getElem?.mpr hi))
    · refine leafMismatch_eq_none_iff.mpr (h.2 ?_)
      obtain ⟨⟨a, b⟩, i⟩ := entry
      exact List.mem_of_getElem? (List.mk_mem_zipIdx_iff_getElem?.mp hentry)
  · rw [if_pos hlength]
    simp [Ne.symm hlength]

end Carquet

section Columns

theorem repetitionName_eq_required_iff
    {repetition : Repetition} :
    repetitionName repetition = "REQUIRED" ↔ repetition = .required := by
  cases repetition <;> simp [repetitionName]

/-- A row and a column with the same types. -/
def SameTypes (row : ExistingRow) (column : PreparedColumn String) : Prop :=
  row.types = column.row.types

/-- A column that is not written as nullable where the file has no nulls. -/
def NoNulls (row : ExistingRow) (column : PreparedColumn String) : Prop :=
  ¬ (row.repetitionType = "REQUIRED" ∧ column.row.repetitionType = "OPTIONAL")

theorem fieldRefusal_eq_none_iff
    {existing : List ExistingRow} {prepared : List (PreparedColumn String)} :
    appendFields.findSome? (fieldRefusal existing prepared) = none ↔
      ∀ entry ∈ existing.zip prepared, SameTypes entry.1 entry.2 := by
  simp only [SameTypes, appendFields, List.findSome?_eq_none_iff, List.mem_cons, List.not_mem_nil,
    or_false, forall_eq_or_imp, forall_eq, fieldRefusal, Option.map_eq_none_iff,
    List.find?_eq_none, decide_eq_true_eq, not_not]
  refine ⟨fun ⟨hphysical, hlogical, hdetails⟩ entry hentry => ?_,
    fun h => ⟨fun entry hentry => ?_, fun entry hentry => ?_, fun entry hentry => ?_⟩⟩
  · obtain ⟨⟨name, path, ⟨physical, logical, details⟩, repetition⟩, column⟩ := entry
    have hphysical := Option.some.inj (hphysical _ hentry)
    have hlogical := hlogical _ hentry
    have hdetails := hdetails _ hentry
    dsimp only at hphysical hlogical hdetails ⊢
    rw [hphysical, hlogical, hdetails]
  · rw [h entry hentry]
  · rw [h entry hentry]
  · rw [h entry hentry]

theorem requiredRefusal_eq_none_iff
    {existing : List ExistingRow} {prepared : List (PreparedColumn String)} :
    requiredRefusal existing prepared = none ↔
      ∀ entry ∈ existing.zip prepared, NoNulls entry.1 entry.2 := by
  simp only [NoNulls, requiredRefusal, Option.map_eq_none_iff, List.find?_eq_none,
    Bool.and_eq_true, beq_iff_eq]

theorem FileLeaf.path_eq_name_iff
    (file : FileLeaf) :
    file.row.path = file.row.name ↔ file.leaf.path.length = 1 := by
  have hpos : 0 < file.leaf.path.length := List.length_pos_iff.mpr file.named
  have hflat := file.leaf.leaf.dottedPath_eq_name_iff
  change _ ↔ file.leaf.path.length ≤ 1 at hflat
  rw [FileLeaf.row, hflat]
  omega

theorem forall_mem_zip_rows
    {leaves : List FileLeaf} {prepared : List (PreparedColumn String)}
    (P : ExistingRow → PreparedColumn String → Prop) :
    (∀ entry ∈ (leaves.map FileLeaf.row).zip prepared, P entry.1 entry.2) ↔
      ∀ file column, (file, column) ∈ leaves.zip prepared → P file.row column := by
  rw [List.zip_map_left, List.forall_mem_map, Prod.forall]
  rfl

theorem exists_mem_zip_of_forall₂
    {R : FileLeaf → PreparedColumn String → Prop} {leaves : List FileLeaf}
    {prepared : List (PreparedColumn String)} {file : FileLeaf}
    (hall : List.Forall₂ R leaves prepared)
    (hfile : file ∈ leaves) :
    ∃ column, (file, column) ∈ leaves.zip prepared := by
  have hmem : file ∈ (leaves.zip prepared).map Prod.fst := by
    rwa [List.map_fst_zip hall.length_eq.le]
  obtain ⟨⟨file', column⟩, hentry, rfl⟩ := List.mem_map.mp hmem
  exact ⟨column, hentry⟩

/-- What `qio_prepare_append` asks of one column. -/
structure RowPasses (file : FileLeaf) (column : PreparedColumn String) : Prop where
  top : file.leaf.path.length = 1
  name : some file.leaf.leaf.name = column.row.name
  types : file.row.types = column.row.types
  nulls : ¬ (file.leaf.repetition = .required ∧ column.row.repetitionType = "OPTIONAL")

theorem prepareAppend_ok_iff
    {path : String} {leaves : List FileLeaf} {prepared adopted : List (PreparedColumn String)} :
    prepareAppend path (some leaves) prepared = .ok adopted ↔
      List.Forall₂ RowPasses leaves prepared ∧
        adopted = List.zipWith (fun file column => adoptRepetition file.row column)
          leaves prepared := by
  have hadopted : List.zipWith adoptRepetition (leaves.map FileLeaf.row) prepared =
      List.zipWith (fun file column => adoptRepetition file.row column) leaves prepared :=
    List.zipWith_map_left
  have hnull : ∀ file : FileLeaf,
      file.row.repetitionType = "REQUIRED" ↔ file.leaf.repetition = .required :=
    fun file => repetitionName_eq_required_iff
  have hnames : (leaves.map FileLeaf.row).map (fun row => some row.name) =
        prepared.map (fun column => column.row.name) ↔
      List.Forall₂ (fun file column => some file.leaf.leaf.name = column.row.name)
        leaves prepared := by
    rw [List.map_map, ← List.forall₂_eq_eq_eq, List.forall₂_map_left_iff,
      List.forall₂_map_right_iff]
    rfl
  rw [prepareAppend, hadopted]
  constructor
  · intro h
    split_ifs at h with hnested hlength hdiffer
    push Not at hnested
    have hname := List.forall₂_iff_zip.mp (hnames.mp (not_not.mp hdiffer))
    split at h
    · cases h
    · rename_i hfields
      split at h
      · cases h
      · rename_i hrequired
        cases h
        have htypes := (forall_mem_zip_rows SameTypes).mp
          (fieldRefusal_eq_none_iff.mp hfields)
        have hnulls := (forall_mem_zip_rows NoNulls).mp
          (requiredRefusal_eq_none_iff.mp hrequired)
        refine ⟨List.forall₂_iff_zip.mpr ⟨hname.1, fun {file column} hmem => ?_⟩, rfl⟩
        have hfile := (List.of_mem_zip hmem).1
        exact ⟨file.path_eq_name_iff.mp (hnested _ (List.mem_map_of_mem hfile)),
          hname.2 hmem, htypes file column hmem,
          fun h => hnulls file column hmem ⟨(hnull file).mpr h.1, h.2⟩⟩
  · rintro ⟨hall, rfl⟩
    have hzip := List.forall₂_iff_zip.mp hall
    have hnested : ¬ ∃ row ∈ leaves.map FileLeaf.row, row.path ≠ row.name := by
      push Not
      rw [List.forall_mem_map]
      intro file hfile
      obtain ⟨column, hmem⟩ := exists_mem_zip_of_forall₂ hall hfile
      exact file.path_eq_name_iff.mpr (hzip.2 hmem).top
    have hfields := fieldRefusal_eq_none_iff.mpr ((forall_mem_zip_rows SameTypes).mpr
      fun file column hmem => (hzip.2 hmem).types)
    have hrequired := requiredRefusal_eq_none_iff.mpr ((forall_mem_zip_rows NoNulls).mpr
      fun file column hmem h => (hzip.2 hmem).nulls ⟨(hnull file).mp h.1, h.2⟩)
    have hlength : (leaves.map FileLeaf.row).length = prepared.length := by
      rw [List.length_map, hzip.1]
    rw [if_neg hnested, if_neg (not_not.mpr hlength),
      if_neg (not_not.mpr (hnames.mpr (hall.imp fun _ _ h => h.name))), hfields, hrequired]

end Columns

section Leaves

theorem PhysicalType.name_injective :
    Function.Injective PhysicalType.name := by
  intro a b h
  cases a <;> cases b <;> first | rfl | simp [PhysicalType.name] at h

theorem logicalTypeName_ne_na
    (logical : LogicalType) :
    logicalTypeName logical ≠ "NA" := by
  cases logical <;> simp [logicalTypeName]

/-- The name of a logical type the writer has says which one it is. -/
theorem id_of_logicalName
    {type : WriteType} {logical : Option LogicalType}
    (h : type.logicalName = logical.map logicalTypeName) :
    type.logical.map Logical.id =
      (logical.map LogicalType.logical).map Logical.id := by
  cases logical with
  | none =>
      cases type <;> first | rfl | cases h
  | some logical =>
      cases type with
      | string | date | timestamp =>
          cases logical <;> first | rfl | simp [WriteType.logicalName, logicalTypeName] at h
      | _ =>
          cases h

/-- The leaf of a column that has a name of its own. -/
def PreparedColumn.leaf (column : PreparedColumn String) : SchemaLeaf :=
  WriteSpec.schemaLeaf ⟨column.name.getD "", column.type, column.nullable⟩

theorem userSchema_eq_map
    {prepared : List (PreparedColumn String)}
    (hnames : ∀ column ∈ prepared, column.name ≠ none ∧ column.name ≠ some "") :
    userSchema prepared = .ok (prepared.map PreparedColumn.leaf) := by
  have hstored : ∀ entry ∈ prepared.zipIdx, namedColumn plainNames entry.1 entry.2 =
      .ok ⟨⟨entry.1.name.getD "", entry.1.type, entry.1.nullable⟩, entry.1.vector,
        entry.1.marks⟩ := by
    rintro ⟨column, index⟩ hentry
    obtain ⟨hna, hempty⟩ := hnames column
      (List.mem_of_getElem? (List.mk_mem_zipIdx_iff_getElem?.mp hentry))
    obtain ⟨name, hname⟩ := Option.ne_none_iff_exists'.mp hna
    have hnamed : name ≠ "" := by
      rintro rfl
      exact hempty hname
    simp [namedColumn, storedName, hname, hnamed, plainNames]
  have hleaves : prepared.zipIdx.map (PreparedColumn.leaf ∘ Prod.fst) =
      prepared.map PreparedColumn.leaf := by
    rw [← List.map_map, List.zipIdx_map_fst]
  rw [userSchema, writeColumns, mapM_ok_of_forall hstored, ← hleaves, ok_bind,
    pure_eq_ok, List.map_map]
  rfl

theorem forall₂_zipWith_left_iff
    {f : FileLeaf → PreparedColumn String → PreparedColumn String}
    {R : PreparedColumn String → FileLeaf → Prop}
    {leaves : List FileLeaf} {prepared : List (PreparedColumn String)}
    (hlength : leaves.length = prepared.length) :
    List.Forall₂ R (List.zipWith f leaves prepared) leaves ↔
      List.Forall₂ (fun file column => R (f file column) file) leaves prepared := by
  induction leaves generalizing prepared with
  | nil =>
      cases prepared with
      | nil =>
          simp
      | cons column prepared =>
          cases hlength
  | cons file leaves ih =>
      cases prepared with
      | nil =>
          cases hlength
      | cons column prepared =>
          rw [List.zipWith_cons_cons, List.forall₂_cons, List.forall₂_cons,
            ih (Nat.succ.inj hlength)]

/-- carquet has nothing left to refuse but a repetition qio cannot write. -/
theorem leafMatches_adopted_iff
    {file : FileLeaf} {column : PreparedColumn String}
    (hstored : column.name = column.row.name)
    (hpair : column.row.pair ∈ allowedPairs)
    (htype : column.row.type = some column.type)
    (hpasses : RowPasses file column) :
    LeafMatches (adoptRepetition file.row column).leaf file.leaf ↔
      file.leaf.repetition = .required ∨ file.leaf.repetition = .optional := by
  obtain ⟨hphysical, hlogical⟩ := types_of_type hpair htype
  have htypes := hpasses.types
  have hrowPhysical : file.leaf.physicalType.name = column.row.physicalType :=
    congrArg SchemaText.physicalType htypes
  have hrowLogical : file.logical.map logicalTypeName = column.row.logicalType :=
    congrArg SchemaText.logicalType htypes
  have hname : column.type.logicalName = file.logical.map logicalTypeName := by
    rcases hlogical with hsame | ⟨hna, -⟩
    · rw [hrowLogical, hsame]
    · rw [hna] at hrowLogical
      obtain ⟨logical, -, htext⟩ := Option.map_eq_some_iff.mp hrowLogical
      exact absurd htext (logicalTypeName_ne_na logical)
  have hrepetition : (adoptRepetition file.row column).leaf.repetition =
      if file.leaf.repetition = .required then .required else .optional := by
    cases hfile : file.leaf.repetition <;>
      simp [adoptRepetition, PreparedColumn.leaf, WriteSpec.schemaLeaf, FileLeaf.row,
        repetitionName, hfile]
  have hfixed : column.type.physical ≠ .fixedLenByteArray := by
    cases column.type <;> simp [WriteType.physical]
  constructor
  · intro h
    have hsame := h.repetition
    rw [hrepetition] at hsame
    split_ifs at hsame with hrequired
    · exact Or.inl hrequired
    · exact Or.inr hsame.symm
  · intro h
    refine ⟨PhysicalType.name_injective (hphysical.symm.trans hrowPhysical.symm), ?_,
      fun hlength => absurd hlength hfixed, ?_, ?_⟩
    · rw [hrepetition]
      rcases h with h | h
      · rw [h, if_pos rfl]
      · rw [h, if_neg (by simp)]
    · rw [file.annotated]
      exact id_of_logicalName hname
    · change column.name.getD "" = file.leaf.leaf.name
      rw [hstored, ← hpasses.name, Option.getD_some]

/-- What both checks ask of one column. -/
structure ColumnPasses (file : FileLeaf) (column : PreparedColumn String) : Prop
    extends RowPasses file column where
  repetition : file.leaf.repetition = .required ∨ file.leaf.repetition = .optional

end Leaves

section Acceptance

variable {platform : Platform} {schema : Option (List (SchemaRow String))}
variable {frame : List (FrameColumn String)} {leaves : List FileLeaf}
variable {prepared : List (PreparedColumn String)}

theorem exists_preparedFor
    {column : PreparedColumn String}
    (hall : List.Forall₂ (PreparedFor schema) frame prepared)
    (hcolumn : column ∈ prepared) :
    ∃ source ∈ frame, PreparedFor schema source column := by
  obtain ⟨hlength, hzip⟩ := List.forall₂_iff_zip.mp hall
  have hmem : column ∈ (frame.zip prepared).map Prod.snd := by
    rwa [List.map_snd_zip hlength.ge]
  obtain ⟨⟨source, column'⟩, hentry, rfl⟩ := List.mem_map.mp hmem
  exact ⟨source, (List.of_mem_zip hentry).1, hzip hentry⟩

/-- The two checks together, column by column. -/
theorem passes_iff
    (path : String)
    (hall : List.Forall₂ (PreparedFor schema) frame prepared)
    (hnames : ∀ column ∈ frame, column.name ≠ some "") :
    (∃ adopted, Passes path leaves prepared adopted) ↔
      List.Forall₂ ColumnPasses leaves prepared := by
  have hcarquet (hrows : List.Forall₂ RowPasses leaves prepared) :
      (∃ user, userSchema (List.zipWith
            (fun file column => adoptRepetition file.row column) leaves prepared) =
            .ok user ∧
          schemaMismatch user (leaves.map FileLeaf.leaf) = none) ↔
        List.Forall₂ (fun file column => LeafMatches
          (adoptRepetition file.row column).leaf file.leaf) leaves prepared := by
    rw [userSchema_eq_map]
    · simp only [Except.ok.injEq, exists_eq_left']
      rw [schemaMismatch_eq_none_iff, List.forall₂_map_left_iff,
        List.forall₂_map_right_iff, forall₂_zipWith_left_iff hrows.length_eq]
    intro adopted hadopted
    rw [← List.map_uncurry_zip_eq_zipWith] at hadopted
    obtain ⟨⟨file, column⟩, hmem, rfl⟩ := List.mem_map.mp hadopted
    obtain ⟨source, hsource, hfor⟩ := exists_preparedFor hall (List.of_mem_zip hmem).2
    have hname := ((List.forall₂_iff_zip.mp hrows).2 hmem).name
    constructor
    · change column.name ≠ none
      rw [hfor.name, ← hfor.row.name, ← hname]
      simp
    · change column.name ≠ some ""
      rw [hfor.name]
      exact hnames source hsource
  have hleaf {file : FileLeaf} {column : PreparedColumn String}
      (hmem : (file, column) ∈ leaves.zip prepared) (hrow : RowPasses file column) :
      LeafMatches (adoptRepetition file.row column).leaf file.leaf ↔
        file.leaf.repetition = .required ∨ file.leaf.repetition = .optional := by
    obtain ⟨source, -, hfor⟩ := exists_preparedFor hall (List.of_mem_zip hmem).2
    exact leafMatches_adopted_iff (hfor.name.trans hfor.row.name.symm) hfor.row.pair
      hfor.type hrow
  simp only [Passes, prepareAppend_ok_iff]
  constructor
  · rintro ⟨adopted, ⟨hrows, rfl⟩, hmatch⟩
    obtain ⟨-, hleaves⟩ := List.forall₂_iff_zip.mp ((hcarquet hrows).mp hmatch)
    obtain ⟨hlength, hzip⟩ := List.forall₂_iff_zip.mp hrows
    exact List.forall₂_iff_zip.mpr ⟨hlength, fun hmem =>
      ⟨hzip hmem, (hleaf hmem (hzip hmem)).mp (hleaves hmem)⟩⟩
  · intro hcolumns
    obtain ⟨hlength, hzip⟩ := List.forall₂_iff_zip.mp hcolumns
    have hrows := hcolumns.imp fun _ _ h => h.toRowPasses
    exact ⟨_, ⟨hrows, rfl⟩, (hcarquet hrows).mpr (List.forall₂_iff_zip.mpr
      ⟨hlength, fun hmem => (hleaf hmem (hzip hmem).toRowPasses).mpr
        (hzip hmem).repetition⟩)⟩

/-- A column of the file and a column of the data, with its resolved types. -/
structure Agrees (file : FileLeaf) (column : FrameColumn String × PreparedColumn String) : Prop where
  top : file.leaf.path.length = 1
  repetition : file.leaf.repetition = .required ∨ file.leaf.repetition = .optional
  name : some file.leaf.leaf.name = column.1.name
  types : file.row.types = column.2.row.types
  missing : file.leaf.repetition = .required → hasNull column.1.x.vector = false

/-- The data can be appended to the file. -/
def Compatible (leaves : List FileLeaf) (frame : List (FrameColumn String))
    (prepared : List (PreparedColumn String)) : Prop :=
  List.Forall₂ Agrees leaves (frame.zip prepared)

/-- A column without nulls in the file, declared OPTIONAL in the explicit schema. -/
def Relaxed (schema : Option (List (SchemaRow String))) (file : FileLeaf) (column : FrameColumn String) :
    Prop :=
  file.leaf.repetition = .required ∧ declaredRepetition schema column.name = "OPTIONAL"

theorem columnPasses_iff
    {file : FileLeaf} {source : FrameColumn String} {column : PreparedColumn String}
    (hfor : PreparedFor schema source column) :
    ColumnPasses file column ↔
      Agrees file (source, column) ∧ ¬ Relaxed schema file source := by
  have hrepetition := hfor.row.repetition
  constructor
  · rintro ⟨⟨htop, hname, htypes, hnulls⟩, hwritable⟩
    refine ⟨⟨htop, hwritable, hname.trans hfor.row.name, htypes, fun hrequired => ?_⟩, ?_⟩
    · refine hfor.missing ?_
      rw [hfor.nullable, beq_eq_false_iff_ne]
      exact fun hoptional => hnulls ⟨hrequired, hoptional⟩
    · rintro ⟨hrequired, hdeclared⟩
      rw [hdeclared, if_neg (by simp)] at hrepetition
      exact hnulls ⟨hrequired, hrepetition⟩
  · rintro ⟨⟨htop, hwritable, hname, htypes, hmissing⟩, hrelaxed⟩
    refine ⟨⟨htop, hname.trans hfor.row.name.symm, htypes, ?_⟩, hwritable⟩
    rintro ⟨hrequired, hoptional⟩
    rw [hoptional] at hrepetition
    split_ifs at hrepetition with hauto
    · rw [columnRepetition, hmissing hrequired] at hrepetition
      simp at hrepetition
    · exact hrelaxed ⟨hrequired, hrepetition.symm⟩

/-- Both checks accept compatible data, unless the schema relaxes a column. -/
theorem forall₂_columnPasses_iff
    (hall : List.Forall₂ (PreparedFor schema) frame prepared) :
    List.Forall₂ ColumnPasses leaves prepared ↔
      Compatible leaves frame prepared ∧
        ¬ ∃ entry ∈ leaves.zip frame, Relaxed schema entry.1 entry.2 := by
  obtain ⟨hlength, hzip⟩ := List.forall₂_iff_zip.mp hall
  have hcolumns : (frame.zip prepared).map Prod.snd = prepared :=
    List.map_snd_zip hlength.ge
  have hsources : leaves.zip frame = (leaves.zip (frame.zip prepared)).map
      (Prod.map id Prod.fst) := by
    rw [← List.zip_map_right, List.map_fst_zip hlength.le]
  have hentries : List.Forall₂ ColumnPasses leaves prepared ↔
      List.Forall₂ (fun file entry => ColumnPasses file entry.2) leaves
        (frame.zip prepared) := by
    rw [← List.forall₂_map_right_iff (f := Prod.snd), hcolumns]
  rw [hentries, hsources, Compatible, List.forall₂_iff_zip, List.forall₂_iff_zip, and_assoc]
  refine and_congr_right fun _ => ?_
  have hpoint {file : FileLeaf} {entry : FrameColumn String × PreparedColumn String}
      (hmem : (file, entry) ∈ leaves.zip (frame.zip prepared)) :
      ColumnPasses file entry.2 ↔ Agrees file entry ∧ ¬ Relaxed schema file entry.1 :=
    columnPasses_iff (hzip (List.of_mem_zip hmem).2)
  constructor
  · intro h
    refine ⟨fun hmem => ((hpoint hmem).mp (h hmem)).1, ?_⟩
    rintro ⟨entry, hentry, hrelaxed⟩
    obtain ⟨⟨file, source⟩, hmem, rfl⟩ := List.mem_map.mp hentry
    exact ((hpoint hmem).mp (h hmem)).2 hrelaxed
  · rintro ⟨hagrees, hrelaxed⟩ file entry hmem
    exact (hpoint hmem).mpr ⟨hagrees hmem, fun h =>
      hrelaxed ⟨_, List.mem_map_of_mem hmem, h⟩⟩

/-- The nullability taken from the file is safe: a column the file has no nulls for
was prepared without missing values. -/
theorem hasNull_of_passes
    {path : String} {adopted : List (PreparedColumn String)} {column : PreparedColumn String}
    (hall : List.Forall₂ (PreparedFor schema) frame prepared)
    (hpasses : Passes path leaves prepared adopted)
    (hcolumn : column ∈ adopted)
    (hrequired : column.nullable = false) :
    hasNull column.vector = false := by
  obtain ⟨hrows, rfl⟩ := prepareAppend_ok_iff.mp hpasses.1
  rw [← List.map_uncurry_zip_eq_zipWith] at hcolumn
  obtain ⟨⟨file, source⟩, hmem, rfl⟩ := List.mem_map.mp hcolumn
  obtain ⟨_, -, hfor⟩ := exists_preparedFor hall (List.of_mem_zip hmem).2
  change (file.row.repetitionType != "REQUIRED") = false at hrequired
  rw [bne_eq_false_iff_eq] at hrequired
  refine hfor.required ?_
  rw [hfor.nullable, beq_eq_false_iff_ne]
  intro hoptional
  exact ((List.forall₂_iff_zip.mp hrows).2 hmem).nulls
    ⟨repetitionName_eq_required_iff.mp hrequired, hoptional⟩

/-- An append is accepted exactly for compatible data, and no missing value reaches a
column without nulls, except where the explicit schema says OPTIONAL for a column the
file has no nulls for: that append is refused whatever the data are. -/
theorem append_acceptance_exact_iff
    (path : String)
    (leaves : List FileLeaf)
    (hresolve : resolveWriteSchema plainNames platform frame schema = .ok prepared)
    (hnames : ∀ column ∈ frame, column.name ≠ some "") :
    (((∃ adopted, Passes path leaves prepared adopted) ↔
          Compatible leaves frame prepared) ∧
        ∀ adopted, Passes path leaves prepared adopted →
          ∀ column ∈ adopted, column.nullable = false →
            hasNull column.vector = false) ↔
      ¬ (Compatible leaves frame prepared ∧
        ∃ entry ∈ leaves.zip frame, Relaxed schema entry.1 entry.2) := by
  obtain ⟨-, hall⟩ := resolveWriteSchema_ok hresolve
  rw [passes_iff path hall hnames, forall₂_columnPasses_iff hall]
  have hsafe : ∀ adopted, Passes path leaves prepared adopted →
      ∀ column ∈ adopted, column.nullable = false → hasNull column.vector = false :=
    fun adopted hpasses column => hasNull_of_passes hall hpasses
  rw [and_iff_left hsafe, and_iff_left_iff_imp, not_and]

/-- A BOOLEAN column of a file. -/
def flagLeaf (name : String) (nullable : Bool) : FileLeaf where
  leaf := WriteSpec.schemaLeaf ⟨name, .boolean, nullable⟩
  logical := none
  named := by simp [WriteSpec.schemaLeaf]
  annotated := rfl

/-- A STRING column that may have nulls. -/
def noteLeaf : FileLeaf where
  leaf := WriteSpec.schemaLeaf ⟨"note", .string, true⟩
  logical := some .string
  named := by simp [WriteSpec.schemaLeaf]
  annotated := rfl

/-- A file with a column that must not have nulls and two that may. -/
def notedLeaves : List FileLeaf :=
  [flagLeaf "flag" false, noteLeaf, flagLeaf "seen" true]

/-- Data for it, with a missing note. -/
def notedFrame : List (FrameColumn String) :=
  [⟨some "flag", flagColumn⟩, ⟨some "note", noteColumn⟩, ⟨some "seen", flagColumn⟩]

def preparedFlag (name repetition : String) : PreparedColumn String where
  name := some name
  row := ⟨some name, "BOOLEAN", none, none, repetition⟩
  type := .boolean
  nullable := repetition == "OPTIONAL"
  vector := flagColumn.vector
  marks := []

def preparedNote : PreparedColumn String where
  name := some "note"
  row := ⟨some "note", "BYTE_ARRAY", some "STRING", none, "OPTIONAL"⟩
  type := .string
  nullable := true
  vector := noteColumn.vector
  marks := noteColumn.marks

/-- The data as they are prepared, with this repetition for `flag`. -/
def preparedNoted (repetition : String) : List (PreparedColumn String) :=
  [preparedFlag "flag" repetition, preparedNote, preparedFlag "seen" "REQUIRED"]

theorem compatible_noted
    (repetition : String) :
    Compatible notedLeaves notedFrame (preparedNoted repetition) := by
  refine .cons ⟨rfl, Or.inl rfl, rfl, rfl, fun _ => rfl⟩ (.cons ?_ (.cons ?_ .nil))
  · exact ⟨rfl, Or.inr rfl, rfl, rfl, fun h => by cases h⟩
  · exact ⟨rfl, Or.inr rfl, rfl, rfl, fun h => by cases h⟩

theorem append_acceptance_exact_iff_noted :
    ∃ adopted, Passes "notes.parquet" notedLeaves (preparedNoted "REQUIRED") adopted := by
  have hresolve : resolveWriteSchema plainNames exactPlatform notedFrame none =
      .ok (preparedNoted "REQUIRED") := by
    rfl
  have hexact := append_acceptance_exact_iff "notes.parquet" notedLeaves hresolve
    (by simp [notedFrame])
  have hdeclared (name : Option String) : declaredRepetition none name ≠ "OPTIONAL" := by
    simp [declaredRepetition]
  refine (hexact.mpr ?_).1.mpr (compatible_noted "REQUIRED")
  rintro ⟨-, entry, -, -, hrelaxed⟩
  exact hdeclared _ hrelaxed

/-- `parquet_schema(flag = "BOOLEAN", repetition_type = "OPTIONAL")`. -/
def optionalFlag : SchemaRow String := ⟨some "flag", "BOOLEAN", none, none, "OPTIONAL"⟩

/-- A column without missing values is refused for containing missing values, because
the explicit schema allows them. -/
theorem relaxed_flag_refused :
    resolveWriteSchema plainNames exactPlatform notedFrame (some [optionalFlag]) =
        .ok (preparedNoted "OPTIONAL") ∧
      hasNull flagColumn.vector = false ∧
      Compatible notedLeaves notedFrame (preparedNoted "OPTIONAL") ∧
      prepareAppend "notes.parquet" (some notedLeaves) (preparedNoted "OPTIONAL") =
        .error (.required (some "flag")) ∧
      ¬ ∃ adopted,
        Passes "notes.parquet" notedLeaves (preparedNoted "OPTIONAL") adopted := by
  have hrefused : prepareAppend "notes.parquet" (some notedLeaves)
      (preparedNoted "OPTIONAL") = .error (.required (some "flag")) := by
    rfl
  refine ⟨rfl, rfl, compatible_noted "OPTIONAL", hrefused, ?_⟩
  rintro ⟨adopted, hprepared, -⟩
  rw [hrefused] at hprepared
  cases hprepared

end Acceptance

end Write
end QioParquet
