import QioParquet.Read.Decode
import Mathlib.Tactic

/-!
# Rows and the batches that stand for them

A column chunk is a list of rows, each missing at some definition level or
present with a value. `DenseBatch.Delivers` and `AlignedColumn.Delivers` say
that a batch handed out by the native reader stands for given rows, in the
dense layout of a column reader or in the row-aligned layout of a batch reader.
-/

namespace QioParquet
namespace Read

open Lib

section Rows

/-- One row of a flat column chunk. -/
inductive Row where
  | null (level : Nat)
  | present (value : PhysValue Bytes)
deriving DecidableEq

def Row.value : Row → Option (PhysValue Bytes)
  | .null _ => none
  | .present value => some value

/-- The definition level stored for a row. -/
def Row.level (maxDef : Nat) : Row → Nat
  | .null level => level
  | .present _ => maxDef

/-- A row a column can hold: missing below the maximal definition level, or
present with a value of the column's type and width. -/
def Row.Fits (c : ColumnSpec) : Row → Prop
  | .null level => level < c.maxDef
  | .present value =>
      value.type = c.type ∧
        ∀ bytes, value = .fixed bytes → (bytes.length : ℤ) = c.typeLength

/-- The optional values of some rows. -/
def rowValues (rows : List Row) : List (Option (PhysValue Bytes)) :=
  rows.map Row.value

@[simp] theorem length_rowValues
    (rows : List Row) :
    (rowValues rows).length = rows.length := by
  simp [rowValues]

theorem rowValues_append
    (rows rows' : List Row) :
    rowValues (rows ++ rows') = rowValues rows ++ rowValues rows' := by
  simp [rowValues]

/-- Rows at the maximal definition level are the present ones. -/
theorem level_beq_maxDef
    {c : ColumnSpec} {row : Row}
    (hfits : row.Fits c) :
    (row.level c.maxDef == c.maxDef) = row.value.isSome := by
  cases row with
  | null level =>
      have hne : level ≠ c.maxDef := Nat.ne_of_lt hfits
      simp [Row.level, Row.value, hne]
  | present value =>
      simp [Row.level, Row.value]

end Rows

section Delivers

/-- The value a slot of a buffer denotes. -/
abbrev derefValue
    (memory : Memory) (v : PhysValue ByteArrayRef) : PhysValue Bytes :=
  v.map (ByteArrayRef.bytes memory)

/-- Every descriptor among the slots is one a decoder may hand out. -/
def ValidSlot (v : PhysValue ByteArrayRef) : Prop :=
  ∀ ref, v = .byteArray ref → ref.Valid

/-- The definition levels of a batch are those of the rows; they are left out
when there is only one. -/
def LevelsOf
    (levels : Option (List Nat)) (count : Nat) (c : ColumnSpec)
    (rows : List Row) : Prop :=
  count = rows.length ∧
    if c.maxDef = 0 then
      levels = none
    else
      ∃ list, levels = some list ∧
        list.take count = rows.map (Row.level c.maxDef)

/-- A dense batch stands for the rows: their levels, and their present values
in order, before whatever an earlier read left in the buffer. -/
structure DenseBatch.Delivers
    (b : DenseBatch) (c : ColumnSpec) (rows : List Row) : Prop where
  levels_eq : LevelsOf b.levels b.count c rows
  values_eq :
    ∃ dense stale, b.values = dense ++ stale ∧
      dense.map (derefValue b.memory) = (rowValues rows).reduceOption ∧
      ∀ v ∈ dense, ValidSlot v

/-- A row-aligned column stands for the rows: a set bit for exactly the rows at
the maximal definition level, and their values in their own slots. -/
structure AlignedColumn.Delivers
    (a : AlignedColumn) (rows : List Row) : Prop where
  presence_eq :
    a.presence rows.length = (rowValues rows).map Option.isSome
  data_eq :
    List.Forall₂
      (fun slot row => ∀ v, row = some v →
        derefValue a.memory slot = v ∧ ValidSlot slot)
      a.data (rowValues rows)

/-- The presence flags read off the definition levels of fitting rows. -/
theorem LevelsOf.presenceFlags_eq
    {levels : Option (List Nat)} {count : Nat} {c : ColumnSpec}
    {rows : List Row}
    (h : LevelsOf levels count c rows)
    (hfits : ∀ row ∈ rows, row.Fits c) :
    presenceFlags levels count c.maxDef =
      (rowValues rows).map Option.isSome := by
  obtain ⟨rfl, hlevels⟩ := h
  rw [rowValues, List.map_map]
  split_ifs at hlevels with hzero
  · have hall : ∀ row ∈ rows, row.value.isSome = true := by
      intro row hrow
      cases row with
      | null level =>
          have hlt : level < c.maxDef := hfits _ hrow
          omega
      | present value =>
          rfl
    rw [hlevels, presenceFlags,
      List.eq_replicate_of_mem (l := rows.map (Option.isSome ∘ Row.value))
        (a := true) (by simpa using hall)]
    simp
  · obtain ⟨list, rfl, htake⟩ := hlevels
    rw [presenceFlags, htake, List.map_map]
    exact List.map_congr_left fun row hrow =>
      level_beq_maxDef (hfits row hrow)

/-- The slots of the present rows of a dense batch, back in place. -/
theorem DenseBatch.Delivers.exists_slots
    {b : DenseBatch} {c : ColumnSpec} {rows : List Row}
    (hb : b.Delivers c rows)
    (hfits : ∀ row ∈ rows, row.Fits c) :
    ∃ (slots : List (Option (PhysValue ByteArrayRef)))
      (stale : List (PhysValue ByteArrayRef)),
      slots.map (Option.map (derefValue b.memory)) = rowValues rows ∧
      b.values = slots.reduceOption ++ stale ∧
      b.presence c.maxDef = slots.map Option.isSome ∧
      ∀ v, some v ∈ slots → ValidSlot v := by
  obtain ⟨dense, stale, hvalues, hdense, hvalid⟩ := hb.values_eq
  obtain ⟨slots, hslots, rfl⟩ :=
    Lib.exists_slots (derefValue b.memory) dense (rowValues rows) hdense
  refine ⟨slots, stale, hslots, hvalues, ?_, ?_⟩
  · rw [DenseBatch.presence, hb.levels_eq.presenceFlags_eq hfits, ← hslots]
    simp
  · intro v hv
    exact hvalid v (List.reduceOption_mem_iff.mpr hv)

/-- The slots of the present rows of a row-aligned column. -/
theorem AlignedColumn.Delivers.slots
    {a : AlignedColumn} {rows : List Row}
    (ha : a.Delivers rows) :
    (alignedRows (a.presence rows.length) a.data).map
        (Option.map (derefValue a.memory)) = rowValues rows ∧
      a.data.length = (a.presence rows.length).length ∧
      ∀ v, some v ∈ alignedRows (a.presence rows.length) a.data →
        ValidSlot v := by
  have hlen := ha.data_eq.length_eq
  rw [ha.presence_eq]
  refine ⟨?_, by simpa using hlen, ?_⟩
  · exact alignedRows_map _
      (ha.data_eq.imp fun slot row h v hv => (h v hv).1)
  · intro v hv
    refine mem_alignedRows (ha.data_eq.imp fun slot row h hrow => ?_) hv
    obtain ⟨w, rfl⟩ := Option.isSome_iff_exists.mp hrow
    exact (h w rfl).2

end Delivers

end Read
end QioParquet
