import QioParquet.Write.Schema
import Mathlib.Tactic

/-!
# What a resolved writer schema says

A resolved row has the name of its column, a repetition that is declared or taken
from the data, and one of the allowed pairs of types. Preparing a column keeps its
missing values, so a REQUIRED one has none, neither before nor after.
-/

namespace QioParquet
namespace Write

open Lib Read Plan

section Names

theorem sameName_plainNames
    (a b : Option String) :
    plainNames.sameName a b = (a == b) := by
  cases a <;> cases b <;> rfl

theorem duplicated_plainNames_eq_nil_iff
    {names : List (Option String)} :
    plainNames.duplicated names = [] ↔ names.Nodup := by
  rw [NameKind.duplicated, List.filterMap_eq_nil_iff, List.nodup_iff_pairwise_ne,
    List.pairwise_iff_getElem]
  constructor
  · intro h i j hi hj hij hsame
    have hentry : (names[j], j) ∈ names.zipIdx :=
      List.mk_mem_zipIdx_iff_getElem?.mpr (List.getElem?_eq_getElem hj)
    have hmem : (names.take j).any (plainNames.sameName names[j]) = true := by
      refine List.any_eq_true.mpr ⟨names[i], ?_, ?_⟩
      · exact List.mem_take_iff_getElem.mpr ⟨i, by omega, rfl⟩
      · rw [sameName_plainNames, hsame, beq_self_eq_true]
    have hnone := h _ hentry
    rw [if_pos hmem] at hnone
    cases hnone
  · rintro h ⟨name, j⟩ hentry
    obtain ⟨hj, rfl⟩ := List.getElem?_eq_some_iff.mp
      (List.mk_mem_zipIdx_iff_getElem?.mp hentry)
    refine if_neg fun hmem => ?_
    obtain ⟨other, hother, hsame⟩ := List.any_eq_true.mp hmem
    obtain ⟨i, hi, rfl⟩ := List.mem_take_iff_getElem.mp hother
    rw [sameName_plainNames, beq_iff_eq] at hsame
    exact h i j (by omega) hj (by omega) hsame.symm

end Names

section Places

variable {ν : Type} {names : NameKind ν}

end Places

section Entries

theorem overrideRow_name
    {entry row : SchemaRow String}
    (hname : row.name = entry.name) :
    (overrideRow entry row).name = row.name := by
  rw [overrideRow]
  split_ifs
  · exact hname.symm
  · rfl
  · rfl

/-- One entry changes the row of its name. -/
theorem applyEntry_eq_map
    {rows : List (SchemaRow String)} (entry : SchemaRow String)
    (hnodup : (rows.map SchemaRow.name).Nodup) :
    applyEntry rows (entry, plainNames.find entry.name (rows.map SchemaRow.name)) =
      rows.map fun row =>
        if row.name = entry.name then overrideRow entry row else row := by
  induction rows with
  | nil =>
      rfl
  | cons row rows ih =>
      rw [List.map_cons, List.nodup_cons] at hnodup
      obtain ⟨hnotin, hnodup⟩ := hnodup
      rw [applyEntry, NameKind.find, List.map_cons, List.findIdx_cons, List.map_cons,
        sameName_plainNames]
      by_cases hname : row.name = entry.name
      · have hrest : rows.map (fun row =>
            if row.name = entry.name then overrideRow entry row else row) = rows := by
          refine (List.map_congr_left fun other hother => ?_).trans (List.map_id rows)
          refine if_neg fun hsame => hnotin ?_
          rw [hname, ← hsame]
          exact List.mem_map_of_mem hother
        rw [hrest, if_pos hname, beq_iff_eq.mpr hname]
        rfl
      · rw [if_neg hname, beq_eq_false_iff_ne.mpr hname, ← ih hnodup]
        rfl

/-- A row after the whole explicit schema. -/
def declaredRow (schema : List (SchemaRow String)) (row : SchemaRow String) : SchemaRow String :=
  match schema.find? fun entry => row.name == entry.name with
  | some entry => overrideRow entry row
  | none => row

theorem foldl_applyEntry
    {schema rows : List (SchemaRow String)} {names : List (Option String)}
    (hschema : (schema.map SchemaRow.name).Nodup)
    (hnodup : names.Nodup)
    (hrows : rows.map SchemaRow.name = names) :
    (schema.zip (schema.map fun entry => plainNames.find entry.name names)).foldl
        applyEntry rows =
      rows.map (declaredRow schema) := by
  induction schema generalizing rows with
  | nil =>
      exact (List.map_id rows).symm
  | cons entry schema ih =>
      rw [List.map_cons, List.nodup_cons] at hschema
      obtain ⟨hnotin, hschema⟩ := hschema
      have hnames : (rows.map fun row =>
          if row.name = entry.name then overrideRow entry row else row).map
            SchemaRow.name = rows.map SchemaRow.name := by
        rw [List.map_map]
        refine List.map_congr_left fun row _ => ?_
        rw [Function.comp_apply]
        split_ifs with hname
        · exact overrideRow_name hname
        · rfl
      rw [List.map_cons, List.zip_cons_cons, List.foldl_cons, ← hrows,
        applyEntry_eq_map entry (hrows ▸ hnodup), hrows, ih hschema (hnames.trans hrows),
        List.map_map]
      refine List.map_congr_left fun row _ => ?_
      rw [Function.comp_apply]
      by_cases hname : row.name = entry.name
      · -- no later entry has the name
        have hnone : schema.find? (fun other => row.name == other.name) = none := by
          rw [List.find?_eq_none]
          intro other hother hsame
          rw [beq_iff_eq, hname] at hsame
          exact hnotin (hsame ▸ List.mem_map_of_mem hother)
        have hfound : (entry :: schema).find? (fun other => row.name == other.name) =
            some entry :=
          List.find?_cons_of_pos (beq_iff_eq.mpr hname)
        rw [if_pos hname, declaredRow, overrideRow_name hname, hnone, declaredRow, hfound]
      · have hskip : (entry :: schema).find? (fun other => row.name == other.name) =
            schema.find? fun other => row.name == other.name :=
          List.find?_cons_of_neg (by rwa [beq_iff_eq])
        rw [if_neg hname, declaredRow, declaredRow, hskip]

end Entries

section Resolved

/-- What the explicit schema declares for a name. -/
def declaredRepetition (schema : Option (List (SchemaRow String))) (name : Option String) :
    String :=
  match (schema.getD []).find? fun entry => name == entry.name with
  | some entry => entry.repetitionType
  | none => "AUTO"

/-- What a resolved row says of its column. -/
structure RowFor (schema : Option (List (SchemaRow String))) (column : FrameColumn String)
    (row : SchemaRow String) : Prop where
  name : row.name = column.name
  pair : row.pair ∈ allowedPairs
  physical : row.physicalType ≠ "AUTO"
  declared : declaredRepetition schema column.name ∈ allowedRepetition
  repetition : row.repetitionType =
    if declaredRepetition schema column.name = "AUTO" then
      columnRepetition column.x
    else
      declaredRepetition schema column.name

theorem columnRepetition_ne_auto
    (x : InputColumn) :
    columnRepetition x ≠ "AUTO" := by
  rw [columnRepetition]
  split_ifs <;> simp

theorem inferType_allowed
    {x : InputColumn} {physical : String} {logical details : Option String}
    (h : inferType x = some (physical, logical, details)) :
    (physical, logical.getD "NA") ∈ allowedPairs ∧ physical ≠ "AUTO" := by
  rw [inferType] at h
  split_ifs at h
  · cases h
    decide
  · cases h
    decide
  · cases h
    decide
  · split at h <;> cases h <;> decide

theorem inferColumn_ok
    {column : FrameColumn String} {row : SchemaRow String}
    (h : inferColumn plainNames column = .ok row) :
    row.name = column.name ∧ (row.pair ∈ allowedPairs ∧ row.physicalType ≠ "AUTO") ∧
      row.repetitionType = columnRepetition column.x := by
  rw [inferColumn] at h
  cases htype : inferType column.x with
  | none =>
      rw [htype] at h
      cases h
  | some type =>
      obtain ⟨physical, logical, details⟩ := type
      rw [htype] at h
      cases h
      exact ⟨rfl, inferType_allowed htype, rfl⟩

/-- The rows of a valid explicit schema. -/
theorem validateSchemaObject_ok
    {schema : List (SchemaRow String)}
    (h : validateSchemaObject plainNames schema = .ok ()) :
    (schema.map SchemaRow.name).Nodup ∧
      ∀ row ∈ schema, row.repetitionType ∈ allowedRepetition ∧
        row.pair ∈ allowedPairs := by
  rw [validateSchemaObject] at h
  split_ifs at h with hnames htypes hpairs htimes
  push Not at hnames htypes hpairs
  exact ⟨duplicated_plainNames_eq_nil_iff.mp hnames.2, fun row hrow => ⟨(htypes row hrow).2, hpairs row hrow⟩⟩

/-- The repetition is settled last, and nothing else is touched. -/
theorem rowFor_autoRepetition
    {schema : Option (List (SchemaRow String))} {column : FrameColumn String} {row : SchemaRow String}
    (hname : row.name = column.name)
    (hpair : row.pair ∈ allowedPairs ∧ row.physicalType ≠ "AUTO")
    (hdeclared : declaredRepetition schema column.name ∈ allowedRepetition)
    (hrepetition : row.repetitionType = declaredRepetition schema column.name ∨
      declaredRepetition schema column.name = "AUTO" ∧
        row.repetitionType = columnRepetition column.x) :
    RowFor schema column (autoRepetition column row) := by
  have hrow : (autoRepetition column row).repetitionType =
      if row.repetitionType = "AUTO" then columnRepetition column.x
      else row.repetitionType := by
    rw [autoRepetition]
    split_ifs <;> rfl
  have hname' : (autoRepetition column row).name = row.name := by
    rw [autoRepetition]
    split_ifs <;> rfl
  have hpair' : (autoRepetition column row).pair = row.pair := by
    rw [autoRepetition]
    split_ifs <;> rfl
  refine ⟨hname'.trans hname, hpair' ▸ hpair.1, ?_, hdeclared, ?_⟩
  · rw [show (autoRepetition column row).physicalType = row.physicalType from
      congrArg Prod.fst hpair']
    exact hpair.2
  · rw [hrow]
    rcases hrepetition with hsame | ⟨hauto, hdata⟩
    · rw [hsame]
    · rw [if_neg (hdata ▸ columnRepetition_ne_auto column.x), if_pos hauto, hdata]

theorem rowFor_inferred
    {column : FrameColumn String} {row : SchemaRow String}
    (h : inferColumn plainNames column = .ok row) :
    RowFor none column (autoRepetition column row) := by
  obtain ⟨hname, hpair, hrepetition⟩ := inferColumn_ok h
  have hallowed : "AUTO" ∈ allowedRepetition := by decide
  exact rowFor_autoRepetition hname hpair hallowed (Or.inr ⟨rfl, hrepetition⟩)

theorem rowFor_declaredRow
    {schema : List (SchemaRow String)} {column : FrameColumn String} {row : SchemaRow String}
    (hvalid : ∀ row ∈ schema, row.repetitionType ∈ allowedRepetition ∧
      row.pair ∈ allowedPairs)
    (h : inferColumn plainNames column = .ok row) :
    RowFor (some schema) column (autoRepetition column (declaredRow schema row)) := by
  obtain ⟨hname, hpair, hrepetition⟩ := inferColumn_ok h
  have hdeclared : declaredRepetition (some schema) column.name =
      match schema.find? fun entry => row.name == entry.name with
      | some entry => entry.repetitionType
      | none => "AUTO" := by
    rw [declaredRepetition, hname]
    rfl
  rw [declaredRow]
  cases hfound : schema.find? fun entry => row.name == entry.name with
  | none =>
      rw [hfound] at hdeclared
      exact rowFor_autoRepetition hname hpair (hdeclared ▸ by decide)
        (Or.inr ⟨hdeclared, hrepetition⟩)
  | some entry =>
      rw [hfound] at hdeclared
      obtain ⟨hallowed, hentry⟩ := hvalid entry (List.mem_of_find?_eq_some hfound)
      have hsame : row.name = entry.name := by
        simpa using List.find?_some hfound
      have hmem : declaredRepetition (some schema) column.name ∈ allowedRepetition := by
        rw [hdeclared]
        exact hallowed
      dsimp only
      rw [overrideRow]
      split_ifs with hphysical hauto
      · exact rowFor_autoRepetition (hsame.symm.trans hname) ⟨hentry, hphysical⟩ hmem
          (Or.inl hdeclared.symm)
      · exact rowFor_autoRepetition hname hpair hmem (Or.inl hdeclared.symm)
      · exact rowFor_autoRepetition hname hpair hmem
          (Or.inr ⟨hdeclared.trans (not_not.mp hauto), hrepetition⟩)

theorem forall₂_zipWith
    {R : FrameColumn String → SchemaRow String → Prop}
    {f : FrameColumn String → SchemaRow String → SchemaRow String}
    {frame : List (FrameColumn String)} {rows : List (SchemaRow String)}
    (h : List.Forall₂ (fun column row => R column (f column row)) frame rows) :
    List.Forall₂ R frame (List.zipWith f frame rows) := by
  induction h with
  | nil =>
      exact .nil
  | cons hhead _ ih =>
      exact .cons hhead ih

/-- A resolved schema has a row for every column, under names of their own. -/
theorem resolveRows_ok
    {frame : List (FrameColumn String)} {schema : Option (List (SchemaRow String))}
    {rows : List (SchemaRow String)}
    (h : resolveRows plainNames frame schema = .ok rows) :
    (frame.map FrameColumn.name).Nodup ∧ List.Forall₂ (RowFor schema) frame rows := by
  rw [resolveRows] at h
  split_ifs at h with hdup
  have hnodup := duplicated_plainNames_eq_nil_iff.mp (List.isEmpty_iff.mp hdup)
  simp only [bind_eq_ok_iff, pure_eq_ok, Except.ok.injEq] at h
  obtain ⟨inferred, hinferred, declared, hdeclared, rfl⟩ := h
  refine ⟨hnodup, ?_⟩
  rw [inferSchema] at hinferred
  split_ifs at hinferred
  have hall := forall₂_of_mapM_ok hinferred
  cases schema with
  | none =>
      cases hdeclared
      exact forall₂_zipWith (hall.imp fun _ _ => rowFor_inferred)
  | some schema =>
      rw [declaredRows] at hdeclared
      rw [bind_eq_ok_iff] at hdeclared
      obtain ⟨_, hvalid, hdeclared⟩ := hdeclared
      dsimp only at hdeclared
      split_ifs at hdeclared
      simp only [pure_eq_ok, Except.ok.injEq] at hdeclared
      obtain ⟨hunique, hentries⟩ := validateSchemaObject_ok hvalid
      have hnames : inferred.map SchemaRow.name = frame.map FrameColumn.name :=
        map_of_mapM_ok (fun _ _ h => (inferColumn_ok h).1) hinferred
      rw [foldl_applyEntry hunique (hnames ▸ hnodup) rfl] at hdeclared
      rw [← hdeclared]
      refine forall₂_zipWith (List.forall₂_map_right_iff.mpr (hall.imp fun _ _ h => ?_))
      exact rowFor_declaredRow hentries h

end Resolved

section Types

/-- The logical type a mapping writes. -/
def WriteType.logicalName : WriteType → Option String
  | .string => some "STRING"
  | .date => some "DATE"
  | .timestamp _ => some "TIMESTAMP"
  | _ => none

theorem getD_eq_na
    {logical : Option String}
    (h : logical.getD "NA" = "NA") :
    logical = none ∨ logical = some "NA" := by
  cases logical with
  | none =>
      exact Or.inl rfl
  | some text =>
      exact Or.inr (congrArg some h)

/-- The mapping of a row has the row's types. A logical type spelled `NA` counts as
none. -/
theorem types_of_type
    {row : SchemaRow String} {type : WriteType}
    (hpair : row.pair ∈ allowedPairs)
    (htype : row.type = some type) :
    row.physicalType = type.physical.name ∧
      (row.logicalType = type.logicalName ∨
        row.logicalType = some "NA" ∧ type.logicalName = none) := by
  rw [SchemaRow.pair] at hpair
  rw [SchemaRow.type] at htype
  split_ifs at htype with hdate hstamp hbool hint32 hint64 hfloat hdouble hstring
  · cases htype
    have hphysical : row.physicalType = "INT32" := by
      rw [hdate] at hpair
      simpa [allowedPairs] using hpair
    exact ⟨hphysical, Or.inl hdate⟩
  · have hphysical : row.physicalType = "INT64" := by
      rw [hstamp] at hpair
      simpa [allowedPairs] using hpair
    split at htype <;> cases htype <;> exact ⟨hphysical, Or.inl hstamp⟩
  · cases htype
    rw [hbool] at hpair
    exact ⟨hbool, (getD_eq_na (by simpa [allowedPairs] using hpair)).imp_right (⟨·, rfl⟩)⟩
  · cases htype
    rw [hint32] at hpair
    have hlogical : row.logicalType.getD "NA" = "NA" ∨
        row.logicalType.getD "NA" = "DATE" := by
      simpa [allowedPairs] using hpair
    rcases hlogical with hna | hdate'
    · exact ⟨hint32, (getD_eq_na hna).imp_right (⟨·, rfl⟩)⟩
    · cases hlog : row.logicalType <;> simp_all
  · cases htype
    rw [hint64] at hpair
    have hlogical : row.logicalType.getD "NA" = "NA" ∨
        row.logicalType.getD "NA" = "TIMESTAMP" := by
      simpa [allowedPairs] using hpair
    rcases hlogical with hna | hstamp'
    · exact ⟨hint64, (getD_eq_na hna).imp_right (⟨·, rfl⟩)⟩
    · cases hlog : row.logicalType <;> simp_all
  · cases htype
    rw [hfloat] at hpair
    exact ⟨hfloat, (getD_eq_na (by simpa [allowedPairs] using hpair)).imp_right (⟨·, rfl⟩)⟩
  · cases htype
    rw [hdouble] at hpair
    exact ⟨hdouble, (getD_eq_na (by simpa [allowedPairs] using hpair)).imp_right (⟨·, rfl⟩)⟩
  · cases htype
    exact ⟨hstring.1, Or.inl hstring.2⟩

end Types

section Missing

variable {platform : Platform}

theorem asDouble_of_isNull
    {cell : RCell}
    (hnull : isNull cell = true) :
    asDouble platform cell = .ok .na := by
  rcases isNull_cases hnull with rfl | rfl | rfl | rfl
  · rfl
  · rfl
  · rfl
  · rfl

theorem hasNull_iff
    {x : RVector} :
    hasNull x = true ↔ ∃ cell ∈ x.cells, isNull cell = true := by
  rw [hasNull, List.any_eq_true]

/-- `as.double()` keeps what is missing. -/
theorem na_mem_asDoubles
    {x : InputColumn} {values : List RDouble}
    (hnull : hasNull x.vector = true)
    (h : asDoubles platform x = .ok values) :
    RDouble.na ∈ values := by
  obtain ⟨cell, hcell, hmissing⟩ := hasNull_iff.mp hnull
  obtain ⟨i, hi⟩ := List.mem_iff_getElem?.mp hcell
  obtain ⟨value, hvalue, hdouble⟩ := getElem?_of_mapM_ok (mapM_of_asDoubles h) hi
  rw [asDouble_of_isNull hmissing] at hdouble
  cases hdouble
  exact List.mem_of_getElem? hvalue

theorem hasNull_realVector
    {values : List RDouble}
    (hna : RDouble.na ∈ values) :
    hasNull (realVector values) = true :=
  hasNull_iff.mpr ⟨.dbl .na, List.mem_map_of_mem hna, rfl⟩

theorem doublesWithoutNaN_ok
    {x : InputColumn} {s : WriteSpec} {values : List RDouble}
    (h : doublesWithoutNaN platform x s = .ok values) :
    asDoubles platform x = .ok values := by
  rw [doublesWithoutNaN, bind_eq_ok_iff] at h
  obtain ⟨value, hvalue, h⟩ := h
  split_ifs at h
  simp only [pure_eq_ok, Except.ok.injEq] at h
  rw [hvalue, h]

theorem hasNull_of_asCharacter
    {x : InputColumn} {text : RVector}
    (hnull : hasNull x.vector = true)
    (h : asCharacter x = .ok text) :
    hasNull text = true := by
  rw [asCharacter] at h
  split at h
  · -- a missing code has no level; nothing else that is missing is a code
    simp only [bind_eq_ok_iff, pure_eq_ok, Except.ok.injEq] at h
    obtain ⟨cells, hcells, rfl⟩ := h
    obtain ⟨cell, hcell, hmissing⟩ := hasNull_iff.mp hnull
    obtain ⟨i, hi⟩ := List.mem_iff_getElem?.mp hcell
    obtain ⟨level, hlevel, hof⟩ := getElem?_of_mapM_ok hcells hi
    refine hasNull_iff.mpr ⟨level, List.mem_of_getElem? hlevel, ?_⟩
    rcases isNull_cases hmissing with rfl | rfl | rfl | rfl <;> cases hof
    rfl
  · cases h
    exact hnull

/-- Preparing a column keeps what is missing. -/
theorem hasNull_of_prepareWriteColumn
    {x : InputColumn} {s : WriteSpec} {vector : RVector}
    (hnull : hasNull x.vector = true)
    (h : prepareWriteColumn platform x s = .ok vector) :
    hasNull vector = true := by
  obtain ⟨name, type, nullable⟩ := s
  cases type with
  | date =>
      simp only [prepareWriteColumn] at h
      split_ifs at h
      simp only [bind_eq_ok_iff, pure_eq_ok, Except.ok.injEq] at h
      obtain ⟨values, hvalues, _, -, rfl⟩ := h
      exact hasNull_realVector (na_mem_asDoubles hnull (doublesWithoutNaN_ok hvalues))
  | timestamp unit =>
      simp only [prepareWriteColumn] at h
      split_ifs at h
      simp only [bind_eq_ok_iff] at h
      obtain ⟨values, hvalues, h⟩ := h
      split_ifs at h
      cases h
      exact hasNull_realVector (na_mem_asDoubles hnull (doublesWithoutNaN_ok hvalues))
  | boolean =>
      simp only [prepareWriteColumn] at h
      split_ifs at h
      cases h
      exact hnull
  | int32 =>
      simp only [prepareWriteColumn] at h
      split_ifs at h
      simp only [bind_eq_ok_iff, pure_eq_ok, Except.ok.injEq] at h
      obtain ⟨values, hvalues, _, -, rfl⟩ := h
      have hna := na_mem_asDoubles hnull (doublesWithoutNaN_ok hvalues)
      exact hasNull_iff.mpr ⟨.int (asInteger .na), List.mem_map_of_mem hna, rfl⟩
  | int64 =>
      simp only [prepareWriteColumn] at h
      split_ifs at h
      simp only [bind_eq_ok_iff, pure_eq_ok, Except.ok.injEq] at h
      obtain ⟨values, hvalues, _, -, rfl⟩ := h
      exact hasNull_realVector (na_mem_asDoubles hnull (doublesWithoutNaN_ok hvalues))
  | float | double =>
      simp only [prepareWriteColumn] at h
      split_ifs at h
      simp only [bind_eq_ok_iff, pure_eq_ok, Except.ok.injEq] at h
      obtain ⟨values, hvalues, rfl⟩ := h
      exact hasNull_realVector (na_mem_asDoubles hnull hvalues)
  | string =>
      simp only [prepareWriteColumn, bind_eq_ok_iff] at h
      obtain ⟨text, htext, h⟩ := h
      split_ifs at h
      cases h
      exact hasNull_of_asCharacter hnull htext

end Missing

section Prepared

variable {platform : Platform}

/-- What `prepared` has of a column. -/
structure PreparedFor (schema : Option (List (SchemaRow String))) (column : FrameColumn String)
    (prepared : PreparedColumn String) : Prop where
  name : prepared.name = column.name
  row : RowFor schema column prepared.row
  type : prepared.row.type = some prepared.type
  nullable : prepared.nullable = (prepared.row.repetitionType == "OPTIONAL")
  required : prepared.nullable = false → hasNull prepared.vector = false
  missing : prepared.nullable = false → hasNull column.x.vector = false

theorem preparedFor_of_prepareColumn
    {schema : Option (List (SchemaRow String))} {column : FrameColumn String} {row : SchemaRow String}
    {prepared : PreparedColumn String}
    (hrow : RowFor schema column row)
    (h : prepareColumn plainNames platform column row = .ok prepared) :
    PreparedFor schema column prepared := by
  rw [prepareColumn] at h
  cases htype : row.type with
  | none =>
      rw [htype] at h
      cases h
  | some type =>
      rw [htype] at h
      dsimp only at h
      split at h
      · cases h
      · rename_i vector hvector
        cases h
        rw [prepareRequired, bind_eq_ok_iff] at hvector
        obtain ⟨column', hcolumn, hvector⟩ := hvector
        split_ifs at hvector with hnull
        simp only [pure_eq_ok, Except.ok.injEq] at hvector
        subst hvector
        have hrequired : (row.repetitionType == "OPTIONAL") = false →
            hasNull column' = false := by
          intro hoptional
          simpa [hoptional] using hnull
        refine ⟨rfl, hrow, htype, rfl, hrequired, fun hoptional => ?_⟩
        by_contra hmissing
        rw [Bool.not_eq_false] at hmissing
        have hkept := hasNull_of_prepareWriteColumn hmissing hcolumn
        rw [hrequired hoptional] at hkept
        cases hkept

theorem resolveWriteSchema_ok
    {frame : List (FrameColumn String)} {schema : Option (List (SchemaRow String))}
    {prepared : List (PreparedColumn String)}
    (h : resolveWriteSchema plainNames platform frame schema = .ok prepared) :
    (frame.map FrameColumn.name).Nodup ∧
      List.Forall₂ (PreparedFor schema) frame prepared := by
  rw [resolveWriteSchema, bind_eq_ok_iff] at h
  obtain ⟨rows, hrows, h⟩ := h
  obtain ⟨hnodup, hall⟩ := resolveRows_ok hrows
  refine ⟨hnodup, ?_⟩
  have hprepared := forall₂_of_mapM_ok h
  clear h hrows hnodup
  induction hall generalizing prepared with
  | nil =>
      cases hprepared
      exact .nil
  | cons hrow _ ih =>
      cases hprepared with
      | cons hhead htail =>
          exact .cons (preparedFor_of_prepareColumn hrow hhead) (ih htail)

/-- Two logical values that are not missing. -/
def flagColumn : InputColumn where
  vector := ⟨.lglsxp, [.lgl true, .lgl false]⟩
  marks := []
  rclass := .none
  elements := by simp [RCell.sexptype]
  strings := by simp [StringLimits]
  levels := no_levels

/-- A string and a missing one. -/
def noteColumn : InputColumn where
  vector := ⟨.strsxp, [.str [0x61], .strNA]⟩
  marks := [.ascii, .ascii]
  rclass := .none
  elements := by simp [RCell.sexptype]
  strings := by simp [StringLimits]
  levels := no_levels

end Prepared

end Write
end QioParquet
