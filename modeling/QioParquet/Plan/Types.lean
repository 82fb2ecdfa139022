import QioParquet.Plan.Collected
import Mathlib.Tactic

/-!
# The type a plan promises

The plan names an R type for every leaf, next to the converter, and marks the
leaves that can be collected. The native layer decides on its own, from the
physical type and a kind code, whether it reads a leaf and into what vector. The
two agree on every annotation a physical type can carry, with one exception: a
FIXED_LEN_BYTE_ARRAY leaf annotated NULL is marked collectible as logical, but
its kind code is not one of the two the native layer accepts for that type.
-/

namespace QioParquet
namespace Plan

open Lib Read

section RTypes

/-- The values of `r_type`. -/
inductive RType where
  | logical
  | integer
  | double
  | integer64
  | character
  | list
  | date
  | posixct
  | hms
deriving DecidableEq, Repr

/-- The column `r_type` of `qio_type_registry`. -/
def typeRegistryRType : PhysicalType → RType
  | .boolean => .logical
  | .int32 => .integer
  | .int64 => .double
  | .int96 => .posixct
  | .float => .double
  | .double => .double
  | .byteArray => .list
  | .fixedLenByteArray => .list

/-- The rule of `qio_resolve_logical` for an INTEGER annotation. -/
def integerRuleRType (bitWidth : ℤ) (isSigned : Bool) : Option RType :=
  if isSigned = false ∧ bitWidth = 32 then
    some .double
  else if bitWidth = 8 ∨ bitWidth = 16 ∨ bitWidth = 32 then
    some .integer
  else
    none

/-- The `r_type` of `qio_resolve_logical`, one schema row, rule by rule. -/
def resolveRType (options : ReadOptions) (s : SchemaLeaf) : Option RType :=
  let t : Option RType :=
    if s.logicalType = some .null then some .logical else none
  let t :=
    if s.physicalType = .int32 ∧ s.logicalType = some .date then
      some .date
    else
      t
  let t :=
    match s.physicalType, s.logicalType with
    | .int64, some (.timestamp (some _) _) => some .posixct
    | _, _ => t
  let t :=
    match s.logicalType with
    | some (.time (some _)) =>
        match options.time with
        | .hms => some .hms
        | .numeric => some .double
    | _ => t
  let t :=
    match t, s.logicalType with
    | none, some (.integer bitWidth isSigned) =>
        integerRuleRType bitWidth isSigned
    | _, _ => t
  let t :=
    match s.logicalType with
    | some (.decimal _) => some .double
    | _ => t
  let t :=
    if (s.logicalType = some .string ∨ s.logicalType = some .enum ∨
        s.logicalType = some .json) ∧ s.physicalType = .byteArray then
      some .character
    else
      t
  let t :=
    if s.logicalType = some .uuid ∧ s.physicalType = .fixedLenByteArray then
      some .character
    else
      t
  let t :=
    if s.logicalType = some .float16 ∧
        s.physicalType = .fixedLenByteArray then
      some .double
    else
      t
  let t :=
    if t = none ∧ storedAsBytes s.physicalType then some .list else t
  match t, s.physicalType, s.logicalType with
  | none, .int64, none => some (int64RType options)
  | none, .int64, some (.integer _ _) => some (int64RType options)
  | _, _, _ => t
where
  /-- The rule for 64-bit integers. -/
  int64RType (options : ReadOptions) : RType :=
    match options.int64 with
    | .bit64 => .integer64
    | .double => .double

/-- The column `r_type` of `qio_build_plan`. -/
def planRType (options : ReadOptions) (s : SchemaLeaf) : RType :=
  (resolveRType options s).getD (typeRegistryRType s.physicalType)

/-- The column `collectible` of `qio_build_plan`. The registry has an R type
for each of the eight physical types, so only nesting is left to decide. -/
def SchemaLeaf.collectible (s : SchemaLeaf) : Bool :=
  !s.nested

/-- The class and storage R gives the values of a type. -/
def RColumn.IsOf (column : RColumn) : RType → Prop
  | .logical => column.vector.sexptype = .lglsxp ∧ column.rclass = .none
  | .integer => column.vector.sexptype = .intsxp ∧ column.rclass = .none
  | .double => column.vector.sexptype = .realsxp ∧ column.rclass = .none
  | .integer64 =>
      column.vector.sexptype = .realsxp ∧ column.rclass = .integer64
  | .character => column.vector.sexptype = .strsxp ∧ column.rclass = .none
  | .list => column.vector.sexptype = .vecsxp ∧ column.rclass = .none
  | .date => column.vector.sexptype = .realsxp ∧ column.rclass = .date
  | .posixct =>
      column.vector.sexptype = .realsxp ∧
        ∃ tz, column.rclass = .posixct tz
  | .hms => column.vector.sexptype = .realsxp ∧ column.rclass = .hms

end RTypes

section Legal

/-- The physical types an annotation may stand on. -/
def Logical.legalFor : Logical → PhysicalType → Bool
  | .string, type => type == .byteArray
  | .enum, type => type == .byteArray
  | .json, type => type == .byteArray
  | .decimal _, type =>
      type == .int32 || type == .int64 || storedAsBytes type
  | .date, type => type == .int32
  | .time (some .millis), type => type == .int32
  | .time (some _), type => type == .int64
  | .time none, type => type == .int32 || type == .int64
  | .timestamp _ _, type => type == .int64
  | .integer bitWidth _, type =>
      if bitWidth = 64 then
        type == .int64
      else
        type == .int32
  | .null, _ => true
  | .uuid, type => type == .fixedLenByteArray
  | .float16, type => type == .fixedLenByteArray
  | .other, type => storedAsBytes type

/-- The width an annotation asks of a FIXED_LEN_BYTE_ARRAY. -/
def Logical.width : Logical → Option ℤ
  | .uuid => some 16
  | .float16 => some 2
  | _ => none

/-- A leaf whose annotation is legal for its physical type. -/
structure SchemaLeaf.Legal (s : SchemaLeaf) : Prop where
  type : ∀ annotation, s.logicalType = some annotation →
    annotation.legalFor s.physicalType = true
  width : ∀ annotation width, s.logicalType = some annotation →
    annotation.width = some width → s.typeLength = width
  positive : s.physicalType = .fixedLenByteArray → 0 < s.typeLength

/-- A count of time units within one day. -/
def withinDay (unit : TimeUnit) (count : ℤ) : Prop :=
  0 ≤ count ∧ (count : ℚ) < 86400 * unit.perSecond

/-- A stored value that is valid for its annotation. -/
def ValidStored (logical : Option Logical) (v : PhysValue Bytes) : Prop :=
  match logical, v with
  | some .null, _ => False
  | some (.time (some unit)), .int32 word => withinDay unit word.toInt
  | some (.time (some unit)), .int64 word => withinDay unit word.toInt
  | some .string, .byteArray bytes => ¬ TextFault bytes
  | some .enum, .byteArray bytes => ¬ TextFault bytes
  | some .json, .byteArray bytes => ¬ TextFault bytes
  | _, _ => True

end Legal

section Table

/-- The converters and R types a leaf of a physical type can have, if its
annotation is legal. -/
def typeTable : PhysicalType → Converter → RType → Bool
  | type, .nullLogical, .logical => type != .fixedLenByteArray
  | .boolean, .boolean, .logical => true
  | .int32, .int32, .integer => true
  | .int32, .uint32, .double => true
  | .int32, .date32, .date => true
  | .int64, .int64, .double => true
  | .int64, .int64Double, .double => true
  | .int64, .int64Bit64, .integer64 => true
  | .int64, .timestamp _ _ _, .posixct => true
  | .int96, .int96, .posixct => true
  | .float, .float, .double => true
  | .double, .double, .double => true
  | .byteArray, .text, .character => true
  | .fixedLenByteArray, .uuid, .character => true
  | .fixedLenByteArray, .float16, .double => true
  | type, .binary, .list => storedAsBytes type
  | type, .decimalBinary _, .double => storedAsBytes type
  | type, .decimalInt _, .double => type == .int32 || type == .int64
  | type, .time .hms _, .hms => type == .int32 || type == .int64
  | type, .time .numeric _, .double => type == .int32 || type == .int64
  | _, _, _ => false

theorem integerRule_cases
    (bitWidth : ℤ) (isSigned : Bool) :
    (integerRule bitWidth isSigned = none ∧
        integerRuleRType bitWidth isSigned = none) ∨
      (integerRule bitWidth isSigned = some .uint32 ∧
        integerRuleRType bitWidth isSigned = some .double) ∨
      (integerRule bitWidth isSigned = some .int32 ∧
        integerRuleRType bitWidth isSigned = some .integer) := by
  unfold integerRule integerRuleRType
  split_ifs <;> simp

theorem typeTable_integer
    {options : ReadOptions} {s : SchemaLeaf} {bitWidth : ℤ} {isSigned : Bool}
    (hlogical : s.logicalType = some (.integer bitWidth isSigned))
    (htype : s.physicalType = .int32) :
    typeTable s.physicalType (planConverter options s)
      (planRType options s) = true := by
  rcases integerRule_cases bitWidth isSigned with
    ⟨hrule, htypes⟩ | ⟨hrule, htypes⟩ | ⟨hrule, htypes⟩ <;>
  simp [planConverter, planRType, resolveLogical, resolveRType, hlogical,
    htype, hrule, htypes, typeTable, storedAsBytes, typeRegistry,
    typeRegistryRType]

theorem typeTable_plan
    {options : ReadOptions} {s : SchemaLeaf}
    (hlegal : s.Legal)
    (hnull : ¬ (s.physicalType = .fixedLenByteArray ∧
      s.logicalType = some .null)) :
    typeTable s.physicalType (planConverter options s)
      (planRType options s) = true := by
  obtain ⟨path, type, logical, length, maxDef, maxRep, repetition⟩ := s
  obtain ⟨int64, time, tz⟩ := options
  rcases logical with _ | annotation
  · cases type <;> cases int64 <;> rfl
  · have htype := hlegal.type annotation rfl
    cases annotation with
    | integer width isSigned =>
        simp only [Logical.legalFor] at htype
        split_ifs at htype with hwidth
        · obtain rfl : type = .int64 := by simpa using htype
          subst hwidth
          cases isSigned <;> cases int64 <;> rfl
        · exact typeTable_integer rfl (by simpa using htype)
    | time unit =>
        rcases unit with _ | unit
        · cases type <;> rfl
        · cases unit <;> cases type <;> cases time <;> first
            | rfl
            | cases htype
    | timestamp unit adjusted =>
        rcases unit with _ | unit <;> cases type <;> rfl
    | null =>
        cases type <;> first | rfl | exact absurd ⟨rfl, rfl⟩ hnull
    | _ =>
        cases type <;> first | rfl | cases htype

/-- The class a converter leaves. -/
def Converter.rclass : Converter → RClass
  | .timestamp _ _ tz => .posixct tz
  | .time .hms _ => .hms
  | .date32 => .date
  | .int96 => .posixct "UTC"
  | .int64Bit64 => .integer64
  | _ => .none

theorem applyConverter_rclass
    {platform : Platform} {x : RVector} {c : Converter} {column : RColumn}
    (h : applyConverter platform x c = .ok column) :
    column.rclass = c.rclass := by
  cases c with
  | timestamp adjusted unit tz =>
      simp only [applyConverter, asPosixct, bind_eq_ok_iff] at h
      obtain ⟨seconds, -, h⟩ := h
      split_ifs at h with hadjusted hutc <;> cases h
      · rfl
      · rw [Converter.rclass, hutc]
      · rfl
  | time mode unit =>
      simp only [applyConverter, asTimeOfDay, platform.asHms_seconds,
        bind_eq_ok_iff] at h
      obtain ⟨seconds, -, h⟩ := h
      split_ifs at h
      cases mode <;> cases h <;> rfl
  | decimalInt scale =>
      simp only [applyConverter, bind_eq_ok_iff, pure_eq_ok,
        Except.ok.injEq] at h
      obtain ⟨values, -, rfl⟩ := h
      rfl
  | decimalBinary scale =>
      simp only [applyConverter, decimalFromBinary, bind_eq_ok_iff, pure_eq_ok,
        Except.ok.injEq] at h
      obtain ⟨values, -, rfl⟩ := h
      rfl
  | date32 | int96 =>
      simp only [applyConverter, bind_eq_ok_iff, pure_eq_ok,
        Except.ok.injEq] at h
      obtain ⟨values, -, rfl⟩ := h
      rfl
  | float16 =>
      simp only [applyConverter, decodeFloat16, bind_eq_ok_iff, pure_eq_ok,
        Except.ok.injEq] at h
      obtain ⟨values, -, decoded, -, rfl⟩ := h
      rfl
  | _ =>
      cases h
      rfl

/-- The vector of a row of the table, converted, is of the row's R type. -/
theorem typeTable_vector
    {type : PhysicalType} {c : Converter} {rtype : RType}
    (h : typeTable type c rtype = true) :
    ∃ sexptype, columnSexpType type (kindOf c) = .ok sexptype ∧
      ∀ column : RColumn,
        column.vector.sexptype = c.sexptype sexptype →
        column.rclass = c.rclass → column.IsOf rtype := by
  unfold typeTable at h
  split at h
  case h_1 =>
    cases type <;> first | exact ⟨_, rfl, fun _ h h' => ⟨h, h'⟩⟩ | cases h
  case h_9 =>
    exact ⟨_, rfl, fun _ h h' => ⟨h, _, h'⟩⟩
  case h_10 =>
    exact ⟨_, rfl, fun _ h h' => ⟨h, _, h'⟩⟩
  all_goals first
    | exact ⟨_, rfl, fun _ h h' => ⟨h, h'⟩⟩
    | (cases type <;> first
        | exact ⟨_, rfl, fun _ h h' => ⟨h, h'⟩⟩
        | cases h)

end Table

section Times

/-- Seconds that keep a nanosecond from the full day stay below it when they are
rounded: half a last place is less than that. -/
theorem outsideDay_nearestDouble
    {q : ℚ}
    (hnonneg : 0 ≤ q)
    (hupper : q ≤ 86400 - 1 / 1000000000) :
    outsideDay (nearestDouble q) = false := by
  have hround : 0 ≤ binary64.round q := by
    have hscaled : 0 ≤ q / 2 ^ binary64.ulpExp q := by
      positivity
    have hhalf := (abs_le.mp
      (abs_roundHalfEven_sub_le (q / 2 ^ binary64.ulpExp q))).1
    have hint : (-1 : ℤ) < roundHalfEven (q / 2 ^ binary64.ulpExp q) := by
      have hcast : ((-1 : ℤ) : ℚ) <
          roundHalfEven (q / 2 ^ binary64.ulpExp q) := by
        push_cast
        linarith
      exact_mod_cast hcast
    have hcast : (0 : ℚ) ≤ roundHalfEven (q / 2 ^ binary64.ulpExp q) := by
      exact_mod_cast Int.lt_iff_add_one_le.mp hint
    rw [BinaryFormat.round]
    positivity
  have hlt : binary64.round q < 86400 := by
    by_cases hzero : q = 0
    · have hround₀ := BinaryFormat.round_intCast (F := binary64) (z := 0)
        (by decide) (by decide) (by decide)
      rw [hzero]
      norm_num at hround₀ ⊢
      rw [hround₀]
      norm_num
    · have hulp := BinaryFormat.ulpExp_le (F := binary64) (k := 17) hzero
        (by rw [abs_of_nonneg hnonneg]; norm_num; linarith) (by decide)
      have hpow : (2 : ℚ) ^ binary64.ulpExp q ≤ 2 ^ (-36 : ℤ) :=
        zpow_le_zpow_right₀ (by norm_num) hulp
      have herror := (abs_le.mp (BinaryFormat.abs_round_sub_le binary64 q)).2
      norm_num at hpow
      linarith
  have hfinite : ¬ (2 : ℚ) ^ 1024 ≤ |binary64.round q| := by
    rw [abs_of_nonneg hround, not_le]
    calc binary64.round q < 86400 := hlt
      _ ≤ 2 ^ 17 := by norm_num
      _ ≤ 2 ^ 1024 := pow_le_pow_right₀ (by norm_num) (by norm_num)
  rw [nearestDouble, if_neg hfinite]
  simp [outsideDay, hround, hlt]

/-- A count of units within one day is a number of seconds within one day. -/
theorem outsideDay_scaled
    {unit : TimeUnit} {count : ℤ}
    (h : withinDay unit count) :
    outsideDay (divide (.num count) (.num unit.perSecond)) = false := by
  obtain ⟨hnonneg, hlt⟩ := h
  obtain ⟨per, hper, hpos, hbound⟩ : ∃ per : ℤ,
      unit.perSecond = (per : ℚ) ∧ 0 < per ∧ per ≤ 1000000000 := by
    cases unit
    · exact ⟨1000, by norm_num [TimeUnit.perSecond], by norm_num, by norm_num⟩
    · exact ⟨1000000, by norm_num [TimeUnit.perSecond], by norm_num,
        by norm_num⟩
    · exact ⟨1000000000, by norm_num [TimeUnit.perSecond], by norm_num,
        by norm_num⟩
  rw [hper] at hlt ⊢
  have hposQ : (0 : ℚ) < per := by
    exact_mod_cast hpos
  have hcount : count ≤ 86400 * per - 1 := by
    have hcast : count < 86400 * per := by
      exact_mod_cast hlt
    omega
  have hq : (0 : ℚ) ≤ count / per := by
    have hcast : (0 : ℚ) ≤ count := by
      exact_mod_cast hnonneg
    positivity
  have hupper : (count : ℚ) / per ≤ 86400 - 1 / 1000000000 := by
    have hcast : (count : ℚ) ≤ 86400 * per - 1 := by
      exact_mod_cast hcount
    have hinv : (1 : ℚ) / 1000000000 ≤ 1 / per := by
      apply one_div_le_one_div_of_le hposQ
      exact_mod_cast hbound
    calc (count : ℚ) / per ≤ (86400 * per - 1) / per := by gcongr
      _ = 86400 - 1 / per := by field_simp
      _ ≤ 86400 - 1 / 1000000000 := by linarith
  rw [divide, if_neg (ne_of_gt hposQ)]
  exact outsideDay_nearestDouble hq hupper

end Times

section Rows

/-- What an annotation has to be for the plan to choose a converter. -/
def Converter.Annotated (c : Converter) (logical : Option Logical) : Prop :=
  match c with
  | .text =>
      logical = some .string ∨ logical = some .enum ∨ logical = some .json
  | .time _ unit => logical = some (.time (some unit))
  | .nullLogical => logical = some .null
  | .float16 => logical = some .float16
  | _ => True

theorem planConverter_annotated
    (options : ReadOptions) (s : SchemaLeaf) :
    (planConverter options s).Annotated s.logicalType := by
  obtain ⟨path, type, logical, length, maxDef, maxRep, repetition⟩ := s
  obtain ⟨int64, time, tz⟩ := options
  rcases logical with _ | annotation
  · cases type <;> cases int64 <;> exact trivial
  · cases annotation with
    | integer width isSigned =>
        rcases integerRule_cases width isSigned with
          ⟨hrule, -⟩ | ⟨hrule, -⟩ | ⟨hrule, -⟩ <;>
        cases type <;> cases int64 <;>
        simp [planConverter, resolveLogical, resolveLogical.int64Rule, hrule,
          storedAsBytes, typeRegistry, Converter.Annotated]
    | time unit =>
        cases unit <;> cases type <;> first | exact rfl | exact trivial
    | timestamp unit adjusted =>
        cases unit <;> cases type <;> exact trivial
    | string | enum | json =>
        cases type <;> simp [planConverter, resolveLogical, storedAsBytes,
          typeRegistry, Converter.Annotated]
    | _ =>
        cases type <;> first | exact rfl | exact trivial

/-- A converter succeeds on an element, and leaves no time outside the day. -/
def Converts (platform : Platform) (c : Converter) (cell : RCell) : Prop :=
  ∃ value, convertCell platform c cell = .ok value ∧
    ∀ mode unit d, c = .time mode unit → value = .dbl d →
      outsideDay d = false

variable {platform : Platform}

/-- Away from TIME there is no day to stay in. -/
theorem Converts.of_ok
    {c : Converter} {cell value : RCell}
    (htime : ∀ mode unit, c ≠ .time mode unit)
    (h : convertCell platform c cell = .ok value) :
    Converts platform c cell :=
  ⟨value, h, fun mode unit _ hc => absurd hc (htime mode unit)⟩

theorem Converts.of_time
    {mode : TimeMode} {unit : TimeUnit} {cell : RCell} {d : RDouble}
    (hd : asDouble platform cell = .ok d)
    (hday : outsideDay (divide d (.num unit.perSecond)) = false) :
    Converts platform (.time mode unit) cell := by
  refine ⟨.dbl (divide d (.num unit.perSecond)), ?_, ?_⟩
  · simp [convertCell, hd]
  · rintro mode' unit' d' ⟨⟩ ⟨⟩
    exact hday

theorem naCell_converts
    {spec : ColumnSpec} {c : Converter} {rtype : RType}
    (htable : typeTable spec.type c rtype = true)
    (hkind : spec.kind = kindOf c) :
    Converts platform c (naCell spec) := by
  obtain ⟨name, type, kind, width, maxDef, mode, isUnsigned⟩ := spec
  simp only at htable hkind
  subst hkind
  unfold typeTable at htable
  split at htable
  case h_19 | h_20 =>
    have htype : type = .int32 ∨ type = .int64 := by
      simpa using htable
    rcases htype with rfl | rfl
    · exact Converts.of_time rfl rfl
    · exact Converts.of_time rfl rfl
  all_goals first
    | exact Converts.of_ok (by rintro _ _ ⟨⟩) rfl
    | (cases type <;> first
        | exact Converts.of_ok (by rintro _ _ ⟨⟩) rfl
        | cases htable)

/-- A time of day that is stored as an INT32 or INT64 count. -/
theorem time_converts
    {spec : ColumnSpec} {mode : TimeMode} {unit : TimeUnit}
    {v : PhysValue Bytes}
    (htype : spec.type = .int32 ∨ spec.type = .int64)
    (hkind : spec.kind = .default)
    (hv : v.type = spec.type)
    (hvalid : ValidStored (some (.time (some unit))) v) :
    ∃ cell, valueCell spec v = some cell ∧
      Converts platform (.time mode unit) cell := by
  have hcell (count : ℤ) (cell : RCell)
      (hcount : asDouble platform cell = .ok (.num count))
      (hday : withinDay unit count) : Converts platform (.time mode unit) cell :=
    Converts.of_time hcount (outsideDay_scaled hday)
  cases v with
  | int32 word =>
      refine ⟨.int word, by simp [valueCell, hkind], hcell word.toInt _ ?_
        hvalid⟩
      have hne : word ≠ naInteger := by
        rintro rfl
        exact absurd hvalid.1 (by decide)
      simp [asDouble, hne]
  | int64 word =>
      refine ⟨.dbl (intToDouble word.toInt), by simp [valueCell, hkind],
        hcell word.toInt _ ?_ hvalid⟩
      have hsmall : |word.toInt| ≤ 2 ^ 53 := by
        obtain ⟨hnonneg, hlt⟩ := hvalid
        have hper : unit.perSecond ≤ 1000000000 := by
          cases unit <;> norm_num [TimeUnit.perSecond]
        have hbound : (word.toInt : ℚ) < 86400000000000 := by
          linarith
        have hcast : word.toInt < 86400000000000 := by
          exact_mod_cast hbound
        rw [abs_of_nonneg hnonneg]
        omega
      rw [asDouble, intToDouble_exact hsmall]
  | boolean _ | int96 _ _ _ | float _ | double _ | byteArray _ | fixed _ =>
      rcases htype with htype | htype <;> rw [htype] at hv <;> cases hv

theorem valueCell_converts
    {spec : ColumnSpec} {c : Converter} {rtype : RType}
    {logical : Option Logical} {v : PhysValue Bytes}
    (htable : typeTable spec.type c rtype = true)
    (hkind : spec.kind = kindOf c)
    (hlogical : c.Annotated logical)
    (hv : v.type = spec.type)
    (hvalid : ValidStored logical v)
    (hwidth : logical = some .float16 →
      ∀ bytes, v = .fixed bytes → bytes.length = 2) :
    ∃ cell, valueCell spec v = some cell ∧ Converts platform c cell := by
  obtain ⟨name, type, kind, width, maxDef, mode, isUnsigned⟩ := spec
  simp only at htable hkind hv
  subst hkind
  unfold typeTable at htable
  split at htable
  case h_1 =>
    rw [show logical = some .null from hlogical] at hvalid
    exact hvalid.elim
  case h_13 =>
    cases v <;> cases hv
    rename_i bytes
    have htext : ¬ TextFault bytes := by
      rcases hlogical with rfl | rfl | rfl <;> exact hvalid
    refine ⟨.str bytes, ?_, Converts.of_ok (by rintro _ _ ⟨⟩) rfl⟩
    simp [valueCell, kindOf, htext]
  case h_15 =>
    cases v <;> cases hv
    rename_i bytes
    have hlength := hwidth hlogical bytes rfl
    obtain ⟨low, high, rfl⟩ := List.length_eq_two.mp hlength
    exact ⟨_, rfl, Converts.of_ok (by rintro _ _ ⟨⟩) rfl⟩
  case h_19 | h_20 =>
    rw [show logical = some (.time (some _)) from hlogical] at hvalid
    exact time_converts (by simpa using htable) rfl hv hvalid
  case h_21 => cases htable
  all_goals
    cases v <;> cases hv <;> first
      | exact ⟨_, rfl, Converts.of_ok (by rintro _ _ ⟨⟩) rfl⟩
      | cases htable

theorem exists_scaleDown
    {x : RVector} (divisor : RDouble)
    (h : ∀ cell ∈ x.cells, ∃ d, asDouble platform cell = .ok d) :
    ∃ values, scaleDown platform x divisor = .ok values := by
  refine exists_mapM_ok fun cell hcell => ?_
  obtain ⟨d, hd⟩ := h cell hcell
  exact ⟨divide d divisor, by simp [hd]⟩

/-- The converters that start from `as.double()`. -/
def Converter.scales : Converter → Bool
  | .decimalInt _ => true
  | .timestamp _ _ _ => true
  | .time _ _ => true
  | .date32 => true
  | .int96 => true
  | _ => false

theorem Converts.asDouble
    {c : Converter} {cell : RCell}
    (hscales : c.scales = true)
    (h : Converts platform c cell) :
    ∃ d, asDouble platform cell = .ok d := by
  obtain ⟨value, hvalue, -⟩ := h
  cases c with
  | decimalInt _ | timestamp _ _ _ | time _ _ | date32 | int96 =>
      simp only [convertCell, bind_eq_ok_iff] at hvalue
      obtain ⟨d, hd, -⟩ := hvalue
      exact ⟨d, hd⟩
  | _ =>
      cases hscales

/-- A vector every element of which converts can be converted. -/
theorem exists_applyConverter
    {x : RVector} {c : Converter}
    (h : ∀ cell ∈ x.cells, Converts platform c cell) :
    ∃ column, applyConverter platform x c = .ok column := by
  have hdoubles (hscales : c.scales = true) (divisor : RDouble) :
      ∃ values, scaleDown platform x divisor = .ok values :=
    exists_scaleDown divisor fun cell hcell => (h cell hcell).asDouble hscales
  cases c with
  | decimalInt scale =>
      obtain ⟨values, hvalues⟩ := hdoubles rfl (platform.pow10 scale)
      simp only [applyConverter, hvalues, ok_bind]
      exact ⟨_, rfl⟩
  | timestamp adjusted unit tz =>
      obtain ⟨values, hvalues⟩ := hdoubles rfl (.num unit.perSecond)
      simp only [applyConverter, asPosixct, hvalues, ok_bind]
      split_ifs <;> exact ⟨_, rfl⟩
  | time mode unit =>
      obtain ⟨values, hvalues⟩ := hdoubles rfl (.num unit.perSecond)
      have hday : (values.filter fun s => !isMissing s).any outsideDay =
          false := by
        rw [List.any_eq_false]
        intro s hs
        obtain ⟨cell, hcell, hs⟩ :=
          mem_of_mapM_ok hvalues s (List.mem_of_mem_filter hs)
        obtain ⟨value, hvalue, hin⟩ := h cell hcell
        simp only [bind_eq_ok_iff, pure_eq_ok, Except.ok.injEq] at hs
        obtain ⟨d, hd, rfl⟩ := hs
        simp only [convertCell, hd, ok_bind, pure_eq_ok,
          Except.ok.injEq] at hvalue
        rw [hin mode unit _ rfl hvalue.symm]
        exact Bool.false_ne_true
      simp only [applyConverter, asTimeOfDay, hvalues, ok_bind, hday]
      cases mode <;> exact ⟨_, rfl⟩
  | date32 =>
      obtain ⟨values, hvalues⟩ :=
        exists_mapM_ok fun cell hcell => (h cell hcell).asDouble rfl
      simp only [applyConverter, hvalues, ok_bind]
      exact ⟨_, rfl⟩
  | int96 =>
      obtain ⟨values, hvalues⟩ := hdoubles rfl (.num 1)
      simp only [applyConverter, hvalues, ok_bind]
      exact ⟨_, rfl⟩
  | decimalBinary scale =>
      obtain ⟨values, hvalues⟩ : ∃ values,
          x.cells.mapM listBytes = .ok values := by
        refine exists_mapM_ok fun cell hcell => ?_
        obtain ⟨value, hvalue, -⟩ := h cell hcell
        simp only [convertCell, bind_eq_ok_iff] at hvalue
        obtain ⟨bytes, hbytes, -⟩ := hvalue
        exact ⟨bytes, hbytes⟩
      simp only [applyConverter, decimalFromBinary, hvalues, ok_bind]
      exact ⟨_, rfl⟩
  | float16 =>
      have hbytes : ∀ cell ∈ x.cells, ∃ bytes, listBytes cell = .ok bytes ∧
          ∃ d, float16OfBytes bytes = .ok d := by
        intro cell hcell
        obtain ⟨value, hvalue, -⟩ := h cell hcell
        simp only [convertCell, bind_eq_ok_iff] at hvalue
        obtain ⟨bytes, hbytes, d, hd, -⟩ := hvalue
        exact ⟨bytes, hbytes, d, hd⟩
      obtain ⟨values, hvalues⟩ := exists_mapM_ok fun cell hcell =>
        (hbytes cell hcell).imp fun _ => And.left
      obtain ⟨decoded, hdecoded⟩ : ∃ decoded,
          values.mapM float16OfBytes = .ok decoded := by
        refine exists_mapM_ok fun bytes hmem => ?_
        obtain ⟨cell, hcell, hlist⟩ := mem_of_mapM_ok hvalues bytes hmem
        obtain ⟨bytes', hbytes', d, hd⟩ := hbytes cell hcell
        rw [hlist] at hbytes'
        cases hbytes'
        exact ⟨d, hd⟩
      simp only [applyConverter, decodeFloat16, hvalues, hdecoded, ok_bind]
      exact ⟨_, rfl⟩
  | _ =>
      exact ⟨_, rfl⟩

end Rows

section Agreement

/-- A leaf marked collectible is flat. -/
theorem collectible_flat
    {s : SchemaLeaf}
    (h : s.collectible = true) :
    s.path.length ≤ 1 ∧ s.maxRep = 0 := by
  simp only [SchemaLeaf.collectible, SchemaLeaf.nested, Bool.not_eq_true',
    Bool.or_eq_false_iff, decide_eq_false_iff_not, Nat.pos_iff_ne_zero,
    not_not, bne_eq_false_iff_eq] at h
  refine ⟨?_, h.1⟩
  exact s.leaf.dottedPath_eq_name_iff.mp h.2

/-- The plan and the native reader agree about leaf `k`: the native selection
accepts it with its kind code, and the vector allocated for it, filled with the
elements of any valid rows and converted, is of the R type the plan promises. -/
def PlanAgrees
    (platform : Platform) (options : ReadOptions) (schema : List SchemaLeaf)
    (file : ParquetFile) (k : Nat) (s : SchemaLeaf) : Prop :=
  (∀ rowGroups mask total,
    selectRowGroups file.rowGroups.length rowGroups = .ok mask →
    countRows 0 (mask.zip file.rowGroups) = .ok total →
    prepareSelection file (nativeColumns (some [k])) rowGroups
      (columnKinds (buildPlan schema options) (some [k])) options.int64 =
        .ok ⟨[⟨k, planSpec options s⟩], mask, total⟩) ∧
  ∀ rows : List Row,
    (∀ row ∈ rows, row.Fits (planSpec options s)) →
    (∀ v, .present v ∈ rows → ValidStored s.logicalType v) →
    ∃ vector cells column,
      allocateColumn s.physicalType rows.length
        (planSpec options s).kind = .ok vector ∧
      nativeCells (planSpec options s) rows = some cells ∧
      applyConverter platform ⟨vector.sexptype, cells⟩
        (planConverter options s) = .ok column ∧
      column.IsOf (planRType options s)

variable {platform : Platform} {options : ReadOptions}
  {schema : List SchemaLeaf} {file : ParquetFile} {k : Nat} {s : SchemaLeaf}

/-- What is left of the native selection of one leaf, once its index and kind
code are resolved. -/
theorem prepareSelection_single
    (hleaves : file.leaves = schema.map SchemaLeaf.leaf)
    (hk : schema[k]? = some s)
    {rowGroups : Option (List ℤ)} {mask : List Bool} {total : ℤ}
    (hmask : selectRowGroups file.rowGroups.length rowGroups = .ok mask)
    (htotal : countRows 0 (mask.zip file.rowGroups) = .ok total) :
    prepareSelection file (nativeColumns (some [k])) rowGroups
      (columnKinds (buildPlan schema options) (some [k])) options.int64 =
        (selectColumn file options.int64 k
          (kindOf (planConverter options s))).map
            fun column => ⟨[column], mask, total⟩ := by
  have hlt : k < file.leaves.length := by
    rw [hleaves, List.length_map]
    exact (List.getElem?_eq_some_iff.mp hk).1
  have hindex : selectIndexes file.leaves.length (nativeColumns (some [k])) =
      .ok [k] := by
    have hone : selectIndex file.leaves.length ((k : ℤ) + 1) = .ok k := by
      rw [selectIndex, if_neg (by omega), Int.add_sub_cancel, Int.toNat_natCast]
    simp [nativeColumns, selectIndexes, hone]
  have hkinds : selectKinds 1
      (columnKinds (buildPlan schema options) (some [k])) =
        .ok [kindOf (planConverter options s)] := by
    simp [columnKinds, selectedIndexes, buildPlan_getElem?, hk, planRow,
      selectKinds, selectKind, ofCode_kindCode]
  rw [prepareSelection, hindex]
  simp only [ok_bind, List.length_singleton, hkinds, List.zip_cons_cons,
    List.zip_nil_right, List.mapM_cons, List.mapM_nil, hmask, htotal]
  cases selectColumn file options.int64 k
    (kindOf (planConverter options s)) <;> rfl

theorem countRows_unselected
    (total : ℤ) (n : Nat) (groups : List RowGroup) :
    countRows total ((List.replicate n false).zip groups) = .ok total := by
  induction groups generalizing n with
  | nil =>
      simp [countRows]
  | cons group groups ih =>
      cases n with
      | zero =>
          simp [countRows]
      | succ n =>
          simpa [List.replicate_succ, countRows] using ih n

/-- The checks the native selection makes of a leaf of the table. -/
theorem selectColumn_plan
    (hleaf : file.leaves[k]? = some s.leaf)
    (hflat : s.path.length ≤ 1 ∧ s.maxRep = 0)
    (hwidth : s.physicalType = .fixedLenByteArray → 0 < s.typeLength)
    (hkind : s.physicalType = .fixedLenByteArray →
      kindOf (planConverter options s) = .binary ∨
        kindOf (planConverter options s) = .uuid) :
    selectColumn file options.int64 k (kindOf (planConverter options s)) =
      .ok ⟨k, planSpec options s⟩ := by
  have hnested : ¬ (1 < s.leaf.path.length ∨ 0 < s.leaf.maxRep) := by
    rintro (hlt | hlt)
    · exact absurd hlt (not_lt.mpr hflat.1)
    · exact absurd hlt (not_lt.mpr hflat.2.le)
  have hraw : ¬ (s.leaf.type = .fixedLenByteArray ∧
      kindOf (planConverter options s) ≠ .binary ∧
      kindOf (planConverter options s) ≠ .uuid) := by
    rintro ⟨htype, hbinary, huuid⟩
    exact (hkind htype).elim hbinary huuid
  have hpositive : ¬ (s.leaf.type = .fixedLenByteArray ∧
      s.leaf.typeLength ≤ 0) := by
    rintro ⟨htype, hle⟩
    exact absurd (hwidth htype) (not_lt.mpr hle)
  simp only [selectColumn, hleaf]
  rw [if_neg hnested, if_neg hraw, if_neg hpositive]
  rfl

theorem typeTable_fixed
    {c : Converter} {rtype : RType}
    (h : typeTable .fixedLenByteArray c rtype = true) :
    kindOf c = .binary ∨ kindOf c = .uuid := by
  cases c with
  | binary | float16 | decimalBinary _ =>
      exact Or.inl rfl
  | uuid =>
      exact Or.inr rfl
  | time mode unit =>
      cases mode <;> cases rtype <;> cases h
  | _ =>
      cases rtype <;> cases h

/-- Every valid row of a leaf of the table has an R element that converts. -/
theorem row_converts
    (htable : typeTable s.physicalType (planConverter options s)
      (planRType options s) = true)
    (hlegal : s.Legal)
    {row : Row}
    (hfits : row.Fits (planSpec options s))
    (hvalid : ∀ v, row = .present v → ValidStored s.logicalType v) :
    ∃ cell, nativeCell (planSpec options s) row.value = some cell ∧
      Converts platform (planConverter options s) cell := by
  cases row with
  | null level =>
      exact ⟨_, rfl, naCell_converts htable rfl⟩
  | present v =>
      refine valueCell_converts htable rfl (planConverter_annotated options s)
        hfits.1 (hvalid v rfl) ?_
      intro hlogical bytes hv
      have hlength := hfits.2 bytes hv
      have hwidth := hlegal.width .float16 2 hlogical rfl
      rw [show (planSpec options s).typeLength = s.typeLength from rfl,
        hwidth] at hlength
      exact_mod_cast hlength

theorem columns_agree
    (htable : typeTable s.physicalType (planConverter options s)
      (planRType options s) = true)
    (hlegal : s.Legal)
    {rows : List Row}
    (hfits : ∀ row ∈ rows, row.Fits (planSpec options s))
    (hvalid : ∀ v, .present v ∈ rows → ValidStored s.logicalType v) :
    ∃ vector cells column,
      allocateColumn s.physicalType rows.length
        (planSpec options s).kind = .ok vector ∧
      nativeCells (planSpec options s) rows = some cells ∧
      applyConverter platform ⟨vector.sexptype, cells⟩
        (planConverter options s) = .ok column ∧
      column.IsOf (planRType options s) := by
  obtain ⟨sexptype, hsexptype, hisOf⟩ := typeTable_vector htable
  have halloc : allocateColumn s.physicalType rows.length
      (planSpec options s).kind = .ok (allocVector sexptype rows.length) := by
    rw [allocateColumn,
      show (planSpec options s).kind = kindOf (planConverter options s) from
        rfl, hsexptype]
    rfl
  obtain ⟨cells, hcells, hconverts⟩ : ∃ cells,
      nativeCells (planSpec options s) rows = some cells ∧
        ∀ cell ∈ cells,
          Converts platform (planConverter options s) cell := by
    clear halloc
    induction rows with
    | nil =>
        exact ⟨[], rfl, by simp⟩
    | cons row rows ih =>
        obtain ⟨cell, hcell, hconvert⟩ := row_converts htable hlegal
          (hfits row (by simp)) fun v hv => hvalid v (by simp [hv])
        obtain ⟨cells, hcells, hrest⟩ := ih
          (fun row hrow => hfits row (by simp [hrow]))
          (fun v hv => hvalid v (by simp [hv]))
        refine ⟨cell :: cells, ?_, ?_⟩
        · rw [nativeCells] at hcells
          simp [nativeCells, rowValues, hcell] at hcells ⊢
          simp [hcells]
        · simpa using ⟨hconvert, hrest⟩
  obtain ⟨column, hcolumn⟩ := exists_applyConverter
    (x := ⟨(allocVector sexptype rows.length).sexptype, cells⟩) hconverts
  exact ⟨_, cells, column, halloc, hcells, hcolumn,
    hisOf column (applyConverter_ok hcolumn).1
      (applyConverter_rclass hcolumn)⟩

/-- The plan and the native reader agree about a legal, collectible leaf if and
only if it is not a FIXED_LEN_BYTE_ARRAY annotated NULL. -/
theorem plan_agrees_iff
    (platform : Platform) (options : ReadOptions)
    (hleaves : file.leaves = schema.map SchemaLeaf.leaf)
    (hk : schema[k]? = some s)
    (hlegal : s.Legal)
    (hcollectible : s.collectible = true) :
    PlanAgrees platform options schema file k s ↔
      ¬ (s.physicalType = .fixedLenByteArray ∧
        s.logicalType = some .null) := by
  have hleaf : file.leaves[k]? = some s.leaf := by
    simp [hleaves, hk]
  constructor
  · rintro ⟨hselect, -⟩ ⟨htype, hnull⟩
    have hconverter : planConverter options s = .nullLogical := by
      obtain ⟨path, type, logical, length, maxDef, maxRep, repetition⟩ := s
      simp only at htype hnull
      subst htype hnull
      rfl
    have hok := hselect (some []) _ 0 rfl
      (countRows_unselected 0 file.rowGroups.length file.rowGroups)
    rw [prepareSelection_single hleaves hk rfl
      (countRows_unselected 0 file.rowGroups.length file.rowGroups)] at hok
    cases hcolumn : selectColumn file options.int64 k
        (kindOf (planConverter options s)) with
    | error e =>
        rw [hcolumn] at hok
        cases hok
    | ok column =>
        rw [hcolumn] at hok
        have hspec : column = ⟨k, planSpec options s⟩ :=
          List.singleton_injective
            (congrArg Selection.columns (Except.ok.inj hok))
        subst hspec
        obtain ⟨_, -, -, -, hsupported⟩ := selectColumn_ok hcolumn
        rcases hsupported htype with hkind | hkind <;>
        · simp only [planSpec, Leaf.column, hconverter, kindOf] at hkind
          cases hkind
  · intro hnull
    have htable : typeTable s.physicalType (planConverter options s)
        (planRType options s) = true :=
      typeTable_plan hlegal hnull
    refine ⟨?_, fun rows => columns_agree htable hlegal⟩
    intro rowGroups mask total hmask htotal
    rw [prepareSelection_single hleaves hk hmask htotal,
      selectColumn_plan hleaf (collectible_flat hcollectible) hlegal.positive
        fun htype => typeTable_fixed (htype ▸ htable)]
    rfl

/-- A flat optional leaf of four bytes. -/
def fourByteLeaf (logical : Option Logical) : SchemaLeaf :=
  ⟨["x"], .fixedLenByteArray, logical, 4, 1, 0, .optional⟩

theorem fourByteLeaf_legal
    {logical : Option Logical}
    (h : logical = none ∨ logical = some .null) :
    (fourByteLeaf logical).Legal := by
  rcases h with rfl | rfl
  · exact ⟨by rintro _ ⟨⟩, by rintro _ _ ⟨⟩, fun _ => by decide⟩
  · refine ⟨?_, ?_, fun _ => by decide⟩
    · rintro _ ⟨⟩
      rfl
    · rintro _ _ ⟨⟩ ⟨⟩

theorem plan_agrees_iff_bytes :
    PlanAgrees exactPlatform utcOptions [fourByteLeaf none]
      (emptyFile [fourByteLeaf none]) 0 (fourByteLeaf none) :=
  (plan_agrees_iff exactPlatform utcOptions rfl rfl
    (fourByteLeaf_legal (Or.inl rfl)) rfl).mpr (by simp [fourByteLeaf])

/-- Annotated NULL, the leaf is marked collectible as logical, and the native
selection refuses it. -/
theorem null_fixed_refused :
    (fourByteLeaf (some .null)).Legal ∧
      (fourByteLeaf (some .null)).collectible = true ∧
      planRType utcOptions (fourByteLeaf (some .null)) =
        .logical ∧
      prepareSelection (emptyFile [fourByteLeaf (some .null)]) (nativeColumns (some [0]))
        none
        (columnKinds (buildPlan [fourByteLeaf (some .null)]
          utcOptions) (some [0])) .double =
            .error (.fixedNotRaw "x") ∧
      ¬ PlanAgrees exactPlatform utcOptions
        [fourByteLeaf (some .null)] (emptyFile [fourByteLeaf (some .null)]) 0
        (fourByteLeaf (some .null)) := by
  refine ⟨fourByteLeaf_legal (Or.inr rfl), rfl, rfl, rfl, ?_⟩
  rintro ⟨hselect, -⟩
  cases hselect none [] 0 rfl rfl

end Agreement

end Plan
end QioParquet
