import QioParquet.Write.RoundTrip
import Mathlib.Tactic

/-!
# Columns declared INT32

The range check lets all 32-bit integers through, `as.integer` turns the smallest
one into `NA`, and the packing loop takes `NA_integer_` for a missing row. So an
OPTIONAL column stores a null for a number that was there, while a REQUIRED one is
refused.
-/

namespace QioParquet
namespace Write

open Lib Read Plan

section Rows

/-- A column is prepared and packed; the rows its batches stand for. -/
def writeRows (platform : Platform) (t : Translator) (x : InputColumn)
    (s : WriteSpec) (index rowGroupRows : Nat) : Except WriteError (List Row) := do
  let vector ← prepareRequired platform x s
  let batches ← (packColumn t index (writeColumn x s vector) rowGroupRows).mapM id
  return batches.flatMap Batch.rows

/-- A column that has slots and may have them is written as they say. -/
theorem packColumn_rows
    {t : Translator} {index : Nat} {column : WriteColumn}
    {slots : List (Option (PhysValue Bytes))}
    (hslots : column.entries.mapM
      (fun entry => packValue t column.spec.type entry.2 entry.1) = .ok slots)
    (hpresent : column.spec.nullable = true ∨ slots.all Option.isSome = true)
    (rowGroupRows : Nat) :
    (do
      let batches ← (packColumn t index column rowGroupRows).mapM id
      return batches.flatMap Batch.rows : Except WriteError (List Row)) =
        .ok (slots.map slotRow) := by
  rw [packColumn_ok hslots hpresent, List.mapM_map]
  change (List.mapM (fun b : Batch => (Pure.pure b : Except WriteError Batch)) _ >>=
    _) = _
  rw [List.mapM_pure, pure_bind, List.map_id']
  exact congrArg Except.ok
    (flatMap_rows_sliceBatch column.spec.nullable hpresent rowGroupRows)

end Rows

section Slots

/-- The slot the packing loop makes of a number of an INT32 column. -/
def int32Slot (d : RDouble) : Option (PhysValue Bytes) :=
  if asInteger d = naInteger then none else some (.int32 (asInteger d))

theorem int32Slot_na : int32Slot .na = none :=
  rfl

/-- The smallest integer is taken for `NA`. -/
theorem int32Slot_min : int32Slot (.num (-2 ^ 31 : ℤ)) = none := by
  have hna : asInteger (.num (-2 ^ 31 : ℤ)) = naInteger := by
    rw [asInteger, if_neg]
    norm_num
  rw [int32Slot, if_pos hna]

theorem int32Slot_intCast
    {z : ℤ}
    (hmin : -2 ^ 31 < z)
    (hmax : z < 2 ^ 31) :
    int32Slot (.num z) = some (.int32 (BitVec.ofInt 32 z)) := by
  rw [int32Slot, asInteger_intCast hmin hmax]
  exact if_neg (ofInt_ne_intMin (by omega) hmin hmax)

variable {platform : Platform} {t : Translator} {x : InputColumn}
variable {name : String} {nullable : Bool} {vector : RVector}

/-- What an accepted column of integers becomes. -/
theorem prepared_int32
    (h : prepareWriteColumn platform x ⟨name, .int32, nullable⟩ = .ok vector) :
    ∃ numbers, asDoubles platform x = .ok numbers ∧
      vector = ⟨.intsxp, numbers.map fun d => .int (asInteger d)⟩ ∧
      ∀ d ∈ numbers, IntegerWithin (-2 ^ 31) (2 ^ 31 - 1) d := by
  simp only [prepareWriteColumn] at h
  split_ifs at h
  simp only [bind_eq_ok_iff, pure_eq_ok, Except.ok.injEq] at h
  obtain ⟨numbers, hnumbers, _, hvalid, rfl⟩ := h
  obtain ⟨hdoubles, hintegers⟩ :=
    integers_of_checks hnumbers (by exact_mod_cast hvalid)
  exact ⟨numbers, hdoubles, rfl, hintegers⟩

/-- The checks let a column of integers in range through. -/
theorem checks_of_integers
    {s : WriteSpec} {numbers : List RDouble} {min max : ℤ}
    (hdoubles : asDoubles platform x = .ok numbers)
    (hintegers : ∀ d ∈ numbers, IntegerWithin min max d) :
    doublesWithoutNaN platform x s = .ok numbers ∧
      validateIntegral numbers s.name min max = .ok () := by
  have hnan : ¬ numbers.any isNaN = true := by
    intro hany
    obtain ⟨d, hd, hisnan⟩ := List.any_eq_true.mp hany
    rcases hintegers d hd with rfl | ⟨z, rfl, -, -⟩
    · cases hisnan
    · cases hisnan
  have hpasses : ∀ d ∈ numbers.filter fun d => !isMissing d,
      isFinite d = true ∧ isWhole d = true ∧ outside min max d = false := by
    intro d hd
    obtain ⟨hmem, hpresent⟩ := List.mem_filter.mp hd
    rcases hintegers d hmem with rfl | ⟨z, rfl, hmin, hmax⟩
    · cases hpresent
    · refine ⟨rfl, by simp [isWhole], ?_⟩
      simp [outside, hmin, hmax]
  constructor
  · rw [doublesWithoutNaN, hdoubles, ok_bind, if_neg hnan]
    rfl
  · have hwhole : ¬ ((numbers.filter fun d => !isMissing d).any
          (fun d => !isFinite d) ||
        (numbers.filter fun d => !isMissing d).any (fun d => !isWhole d)) = true := by
      simp only [Bool.or_eq_true, List.any_eq_true, not_or, not_exists, not_and]
      constructor
      · intro d hd
        simp [(hpasses d hd).1]
      · intro d hd
        simp [(hpasses d hd).2.1]
    have hrange : ¬ (numbers.filter fun d => !isMissing d).any
        (outside min max) = true := by
      intro hany
      obtain ⟨d, hd, houtside⟩ := List.any_eq_true.mp hany
      rw [(hpasses d hd).2.2] at houtside
      cases houtside
    rw [validateIntegral, if_neg hwhole, if_neg hrange]

/-- The elements of a numeric column are doubles to R. -/
theorem asDoubles_of_isNumeric
    (platform : Platform)
    (hnumeric : x.isNumeric = true) :
    ∃ numbers, asDoubles platform x = .ok numbers ∧
      ∀ d ∈ numbers, ∃ cell ∈ x.vector.cells, asDouble platform cell = .ok d := by
  have hlist : x.vector.sexptype ≠ .vecsxp := by
    simp only [InputColumn.isNumeric, Bool.and_eq_true, Bool.or_eq_true,
      beq_iff_eq] at hnumeric
    rcases hnumeric.1 with htype | htype
    · simp [htype]
    · simp [htype]
  have hcells : ∀ cell ∈ x.vector.cells, ∃ d, asDouble platform cell = .ok d := by
    intro cell hcell
    have helement := x.elements cell hcell
    cases cell with
    | raw bytes =>
        exact absurd (Option.some.inj helement).symm hlist
    | null =>
        exact absurd (Option.some.inj helement).symm hlist
    | unset =>
        cases helement
    | _ =>
        exact ⟨_, rfl⟩
  obtain ⟨numbers, hmap⟩ := exists_mapM_ok hcells
  exact ⟨numbers, by rw [asDoubles, hmap], mem_of_mapM_ok hmap⟩

/-- The column is refused for what it is or for one of its elements: NaN, infinite,
not whole, or out of range. -/
theorem prepare_int32_refused_iff :
    (∃ e, prepareWriteColumn platform x ⟨name, .int32, nullable⟩ = .error e) ↔
      (x.isNumeric = false ∨
        ∃ cell ∈ x.vector.cells, ∃ d, asDouble platform cell = .ok d ∧
          ¬ IntegerWithin (-2 ^ 31) (2 ^ 31 - 1) d) := by
  constructor
  · rintro ⟨e, he⟩
    by_contra haccepted
    obtain ⟨hnumeric, hcells⟩ := not_or.mp haccepted
    have hnumeric' : x.isNumeric = true := Bool.eq_true_of_not_eq_false hnumeric
    obtain ⟨numbers, hdoubles, hmem⟩ := asDoubles_of_isNumeric platform hnumeric'
    have hintegers : ∀ d ∈ numbers, IntegerWithin (-2 ^ 31) (2 ^ 31 - 1) d := by
      intro d hd
      obtain ⟨cell, hcell, hdouble⟩ := hmem d hd
      by_contra hout
      exact hcells ⟨cell, hcell, d, hdouble, hout⟩
    obtain ⟨hnan, hvalid⟩ := checks_of_integers (s := ⟨name, .int32, nullable⟩)
      hdoubles hintegers
    have hvalid' : validateIntegral numbers name (-2 ^ 31) (2 ^ 31 - 1) = .ok () := by
      exact_mod_cast hvalid
    simp only [prepareWriteColumn] at he
    rw [if_neg (not_not.mpr hnumeric'), hnan, ok_bind, hvalid'] at he
    cases he
  · intro hrefused
    rcases hprepare : prepareWriteColumn platform x ⟨name, .int32, nullable⟩ with
      e | vector
    · exact ⟨e, rfl⟩
    · obtain ⟨numbers, hdoubles, -, hintegers⟩ := prepared_int32 hprepare
      exfalso
      rcases hrefused with hnumeric | ⟨cell, hcell, d, hd, hout⟩
      · simp only [prepareWriteColumn, hnumeric] at hprepare
        cases hprepare
      · obtain ⟨i, hi⟩ := List.mem_iff_getElem?.mp hcell
        obtain ⟨d', hd', hdouble⟩ := getElem?_of_mapM_ok (mapM_of_asDoubles hdoubles) hi
        rw [hd] at hdouble
        cases hdouble
        exact hout (hintegers d (List.mem_of_getElem? hd'))

theorem mapM_int32Slot
    (numbers : List RDouble) (marks : List Encoding) :
    (WriteColumn.mk ⟨name, .int32, nullable⟩
        ⟨.intsxp, numbers.map fun d => .int (asInteger d)⟩ marks).entries.mapM
      (fun entry => packValue t .int32 entry.2 entry.1) =
        .ok (numbers.map int32Slot) := by
  rw [WriteColumn.entries, List.mapM_map, List.zipIdx_map, List.mapM_map]
  change List.mapM (fun entry : RDouble × Nat => packValue t .int32
    (marks.getD entry.2 .native) (.int (asInteger entry.1))) numbers.zipIdx = _
  have hpack : ∀ (mark : Encoding) (d : RDouble),
      packValue t .int32 mark (.int (asInteger d)) = Pure.pure (int32Slot d) := by
    intro mark d
    change (if asInteger d = naInteger then _ else _) = _
    rw [int32Slot]
    split_ifs <;> rfl
  simp only [hpack]
  rw [List.mapM_pure]
  change Except.ok (numbers.zipIdx.map (int32Slot ∘ Prod.fst)) = _
  rw [← List.map_map, List.zipIdx_map_fst]

theorem hasNull_int32
    (numbers : List RDouble) :
    hasNull ⟨.intsxp, numbers.map fun d => .int (asInteger d)⟩ =
      !(numbers.map int32Slot).all Option.isSome := by
  rw [hasNull, List.any_map, List.all_map, List.not_all_eq_any_not]
  congr 1
  funext d
  change (asInteger d == naInteger) = !(int32Slot d).isSome
  rw [int32Slot]
  by_cases hd : asInteger d = naInteger
  · simp [hd]
  · simp [hd]

/-- The rows of an accepted column. Only a REQUIRED one with a number whose slot is
empty is refused. -/
theorem writeRows_int32
    {numbers : List RDouble}
    (hprepare : prepareWriteColumn platform x ⟨name, .int32, nullable⟩ =
      .ok ⟨.intsxp, numbers.map fun d => .int (asInteger d)⟩)
    (index rowGroupRows : Nat) :
    writeRows platform t x ⟨name, .int32, nullable⟩ index rowGroupRows =
      if nullable = true ∨ (numbers.map int32Slot).all Option.isSome = true then
        .ok ((numbers.map int32Slot).map slotRow)
      else
        .error (.requiredMissing name) := by
  have hrows : ∀ hpresent : nullable = true ∨
      (numbers.map int32Slot).all Option.isSome = true, _ := fun hpresent =>
    @packColumn_rows t index (writeColumn x ⟨name, .int32, nullable⟩ ⟨.intsxp, _⟩) _
      (mapM_int32Slot numbers (characterMarks x)) hpresent rowGroupRows
  rw [writeRows, prepareRequired, hprepare, ok_bind, hasNull_int32]
  cases hall : (numbers.map int32Slot).all Option.isSome with
  | true =>
      rw [if_pos (Or.inr rfl), if_neg (by simp)]
      exact hrows (Or.inr hall)
  | false =>
      cases nullable with
      | true =>
          rw [if_pos (Or.inl rfl), if_neg (by simp)]
          exact hrows (Or.inl rfl)
      | false =>
          rw [if_pos ⟨Bool.false_ne_true, rfl⟩, if_neg (by simp)]
          rfl

end Slots

section Result

/-- A row stores a value of the column: nothing for a missing one, the number itself
for any other. -/
def StoresNumber (value : Value) (row : Row) : Prop :=
  match value with
  | .missing => row = .null 0
  | .number (.num q) =>
      ∃ word : BitVec 32, row = .present (.int32 word) ∧ (word.toInt : ℚ) = q
  | _ => False

variable (platform : Platform) (t : Translator) (x : InputColumn) (name : String)
variable (index rowGroupRows : Nat)

/-- Declared INT32, the column is refused or stored number by number, and where both
repetitions take it they store the same. -/
structure NeverLoses (nullable : Bool) : Prop where
  stored : ∀ rows,
    writeRows platform t x ⟨name, .int32, nullable⟩ index rowGroupRows = .ok rows →
      ∃ values, originalValues platform t x ⟨name, .int32, nullable⟩ = .ok values ∧
        List.Forall₂ StoresNumber values rows
  repetition : ∀ optional required,
    writeRows platform t x ⟨name, .int32, true⟩ index rowGroupRows = .ok optional →
    writeRows platform t x ⟨name, .int32, false⟩ index rowGroupRows = .ok required →
      optional = required

variable {platform t x name index rowGroupRows}

theorem originalValues_int32
    {nullable : Bool} {numbers : List RDouble}
    (h : asDoubles platform x = .ok numbers) :
    originalValues platform t x ⟨name, .int32, nullable⟩ =
      .ok (numbers.map numberValue) := by
  simp only [originalValues, h, ok_bind, pure_eq_ok]

theorem storesNumber_iff
    {d : RDouble}
    (hd : IntegerWithin (-2 ^ 31) (2 ^ 31 - 1) d) :
    StoresNumber (numberValue d) (slotRow (int32Slot d)) ↔
      d ≠ .num (-2 ^ 31 : ℤ) := by
  rcases hd with rfl | ⟨z, rfl, hmin, hmax⟩
  · rw [numberValue_na, int32Slot_na]
    exact iff_of_true rfl nofun
  · rw [numberValue, if_neg nofun]
    by_cases hz : z = -2 ^ 31
    · rw [hz, int32Slot_min]
      refine iff_of_false ?_ (not_not.mpr rfl)
      rintro ⟨word, hrow, -⟩
      cases hrow
    · have hmin' : -2 ^ 31 < z := by omega
      rw [int32Slot_intCast hmin' (by omega)]
      refine iff_of_true ⟨_, rfl, ?_⟩ ?_
      · rw [BitVec.toInt_ofInt_eq_self (by omega) hmin (by omega)]
      · intro heq
        exact hz (by exact_mod_cast RDouble.num.inj heq)

theorem forall₂_storesNumber_iff
    {numbers : List RDouble}
    (hnumbers : ∀ d ∈ numbers, IntegerWithin (-2 ^ 31) (2 ^ 31 - 1) d) :
    List.Forall₂ StoresNumber (numbers.map numberValue)
        ((numbers.map int32Slot).map slotRow) ↔
      .num (-2 ^ 31 : ℤ) ∉ numbers := by
  induction numbers with
  | nil =>
      simp
  | cons d rest ih =>
      obtain ⟨hd, hrest⟩ := List.forall_mem_cons.mp hnumbers
      rw [List.map_cons, List.map_cons, List.map_cons, List.forall₂_cons,
        storesNumber_iff hd, ih hrest, List.mem_cons, not_or, ne_comm]

/-- A column whose slots are all filled does not hold the smallest integer. -/
theorem min_not_mem_of_all
    {numbers : List RDouble}
    (hall : (numbers.map int32Slot).all Option.isSome = true) :
    .num (-2 ^ 31 : ℤ) ∉ numbers := by
  intro hmem
  have hsome := List.all_eq_true.mp hall _ (List.mem_map_of_mem hmem)
  rw [int32Slot_min] at hsome
  cases hsome

theorem numberValue_mem_iff
    {numbers : List RDouble} (z : ℤ) :
    Value.number (.num z) ∈ numbers.map numberValue ↔ .num (z : ℚ) ∈ numbers := by
  rw [List.mem_map]
  constructor
  · rintro ⟨d, hd, hvalue⟩
    by_cases hna : d = .na
    · rw [hna, numberValue_na] at hvalue
      cases hvalue
    · rw [numberValue, if_neg hna] at hvalue
      cases hvalue
      exact hd
  · intro hmem
    exact ⟨_, hmem, if_neg nofun⟩

theorem writeRows_repetition
    {optional required : List Row}
    (h : writeRows platform t x ⟨name, .int32, true⟩ index rowGroupRows =
      .ok optional)
    (h' : writeRows platform t x ⟨name, .int32, false⟩ index rowGroupRows =
      .ok required) :
    optional = required := by
  rcases hprepare : prepareWriteColumn platform x ⟨name, .int32, true⟩ with e | vector
  · rw [writeRows, prepareRequired, hprepare] at h
    cases h
  · obtain ⟨numbers, -, rfl, -⟩ := prepared_int32 hprepare
    rw [writeRows_int32 hprepare, if_pos (Or.inl rfl)] at h
    rw [@writeRows_int32 platform t x name false numbers hprepare] at h'
    split at h'
    · exact Except.ok.inj (h.symm.trans h')
    · cases h'

variable (platform t x name index rowGroupRows)

/-- No number is lost exactly when the column is REQUIRED, does not hold the smallest
32-bit integer, is not numeric, or has an element that is refused. -/
theorem int32_never_loses_iff
    (nullable : Bool) :
    NeverLoses platform t x name index rowGroupRows nullable ↔
      (nullable = false ∨
        (∀ values, originalValues platform t x ⟨name, .int32, nullable⟩ = .ok values →
          .number (.num (-2 ^ 31 : ℤ)) ∉ values) ∨
        x.isNumeric = false ∨
        ∃ cell ∈ x.vector.cells, ∃ d, asDouble platform cell = .ok d ∧
          ¬ IntegerWithin (-2 ^ 31) (2 ^ 31 - 1) d) := by
  rw [← prepare_int32_refused_iff]
  rcases hprepare : prepareWriteColumn platform x ⟨name, .int32, nullable⟩ with
    e | vector
  · refine iff_of_true ⟨fun rows h => ?_, fun _ _ => writeRows_repetition⟩
      (Or.inr (Or.inr ⟨e, rfl⟩))
    rw [writeRows, prepareRequired, hprepare] at h
    cases h
  obtain ⟨numbers, hdoubles, rfl, hintegers⟩ := prepared_int32 hprepare
  have hrows := writeRows_int32 (t := t) hprepare index rowGroupRows
  have hvalues : originalValues platform t x ⟨name, .int32, nullable⟩ =
      .ok (numbers.map numberValue) := originalValues_int32 hdoubles
  constructor
  · intro hloses
    by_cases hnull : nullable = false
    · exact Or.inl hnull
    refine Or.inr (Or.inl fun values hvalues' => ?_)
    rw [if_pos (Or.inl (Bool.eq_true_of_not_eq_false hnull))] at hrows
    obtain ⟨values', hvalues'', hstored⟩ := hloses.stored _ hrows
    obtain rfl := Except.ok.inj (hvalues'.symm.trans hvalues)
    obtain rfl := Except.ok.inj (hvalues''.symm.trans hvalues)
    rw [numberValue_mem_iff]
    exact (forall₂_storesNumber_iff hintegers).mp hstored
  · intro hcase
    refine ⟨fun rows h => ⟨_, hvalues, ?_⟩, fun _ _ => writeRows_repetition⟩
    rw [hrows] at h
    split_ifs at h with hpresent
    obtain rfl := Except.ok.inj h
    rw [forall₂_storesNumber_iff hintegers]
    rcases hcase with hnull | hfree | ⟨e, he⟩
    · exact min_not_mem_of_all (hpresent.resolve_left (by simp [hnull]))
    · rw [← numberValue_mem_iff]
      exact hfree _ hvalues
    · cases he

/-- The smallest 32-bit integer and a missing number. -/
def smallestColumn : InputColumn where
  vector := ⟨.realsxp, [.dbl (.num (-2 ^ 31 : ℤ)), .dbl .na]⟩
  marks := []
  rclass := .none
  elements := by simp [RCell.sexptype]
  strings := by simp [StringLimits]
  levels := no_levels

/-- As an OPTIONAL column both are stored as nulls. -/
theorem smallest_integer_becomes_null :
    writeRows exactPlatform plainTranslator smallestColumn ⟨"x", .int32, true⟩ 0 0 =
        .ok [.null 0, .null 0] ∧
      ¬ NeverLoses exactPlatform plainTranslator smallestColumn "x" 0 0 true := by
  have hrows : writeRows exactPlatform plainTranslator smallestColumn
      ⟨"x", .int32, true⟩ 0 0 = .ok [.null 0, .null 0] := by
    decide +kernel
  refine ⟨hrows, fun h => ?_⟩
  obtain ⟨values, hvalues, hstored⟩ := h.stored _ hrows
  have hfirst : values = [.number (.num (-2 ^ 31 : ℤ)), .missing] := by
    cases hvalues
    decide +kernel
  rw [hfirst, List.forall₂_cons] at hstored
  obtain ⟨⟨word, hrow, -⟩, -⟩ := hstored
  cases hrow

end Result

end Write
end QioParquet
