import QioParquet.Plan.LogicalText
import Mathlib.Tactic

/-!
# The text channel between the footer and the converters

The parameters of an annotation pass through two texts, the details `schema()`
reports and the name of the converter. The parsers give back what was rendered, the
rows of text lead to the names of the converters the structured plan chooses, and
each name is dispatched as the converter it was built for.
-/

namespace QioParquet
namespace Plan

open Lib Read

section Fields

theorem asIntegerText_numberText
    {n : ℤ}
    (hn : -2 ^ 31 < n ∧ n < 2 ^ 31) :
    asIntegerText (numberText n) = some n := by
  have hfits : (decide (-2 ^ 31 < n) && decide (n < 2 ^ 31)) = true := by
    rw [Bool.and_eq_true, decide_eq_true_iff, decide_eq_true_iff]
    exact hn
  rw [asIntegerText, numberText, String.toList_ofList, readDecimal_decimalText,
    Option.filter_some, if_pos hfits]

theorem not_mem_decimalText
    {n : ℤ} {c : Char}
    (hc : ¬ (c = '-' ∨ c.isDigit = true)) :
    c ∉ decimalText n :=
  fun hmem => hc (mem_decimalText hmem)

/-- A field is found by the last occurrence of its key. -/
theorem subText_field
    {group : List Char → Option (List Char)} {key details : String}
    {k : Char} {tail before value found : List Char}
    (hkey : key.toList = k :: tail)
    (hdetails : details.toList = before ++ ((k :: tail) ++ value))
    (hlater : lastGroup group (k :: tail) (tail ++ value) = none)
    (hgroup : group value = some found) :
    grepl key details = true ∧ subText group key details = String.ofList found := by
  constructor
  · rw [grepl, decide_eq_true_iff, hkey, hdetails]
    exact ⟨before, value, by rw [List.append_assoc]⟩
  · rw [subText, hkey, hdetails, subGroup_field before hlater hgroup]

theorem decimalField_details
    {field details : String} {k : Char} {tail before rest : List Char} {n : ℤ}
    (hkey : (field ++ "=").toList = k :: tail)
    (hdetails : details.toList = before ++ ((k :: tail) ++ (decimalText n ++ rest)))
    (hfresh : k ∉ tail ++ (decimalText n ++ rest))
    (hend : EndsClass Char.isDigit rest)
    (hn : -2 ^ 31 < n ∧ n < 2 ^ 31) :
    decimalField field details = n := by
  obtain ⟨hfound, htext⟩ :=
    subText_field hkey hdetails (lastGroup_eq_none hfresh) (numberGroup_decimalText n hend)
  have hvalue : asIntegerText (String.ofList (decimalText n)) = some n :=
    asIntegerText_numberText hn
  rw [decimalField, if_pos hfound, htext, hvalue, Option.getD_some]

end Fields

section Details

theorem parseDecimalDetails_details
    {precision scale : ℤ}
    (hprecision : -2 ^ 31 < precision ∧ precision < 2 ^ 31)
    (hscale : -2 ^ 31 < scale ∧ scale < 2 ^ 31) :
    parseDecimalDetails (logicalTypeDetails (.decimal precision scale)) =
      ⟨precision, scale⟩ := by
  have hp : 'p' ∉ decimalText precision := not_mem_decimalText (by decide)
  have hp' : 'p' ∉ decimalText scale := not_mem_decimalText (by decide)
  have hs : 's' ∉ decimalText scale := not_mem_decimalText (by decide)
  rw [parseDecimalDetails, logicalTypeDetails, Option.getD_some, DecimalDetails.mk.injEq]
  constructor
  · refine @decimalField_details "precision" _ 'p' "recision=".toList []
      (", scale=".toList ++ decimalText scale) precision rfl ?_ ?_ ?_ hprecision
    · simp [numberText]
    · simp [hp, hp']
    · intro c hc
      cases hc
      rfl
  · refine @decimalField_details "scale" _ 's' "cale=".toList
      ("precision=".toList ++ decimalText precision ++ ", ".toList) [] scale rfl ?_ ?_ ?_
      hscale
    · simp [numberText]
    · simp [hs]
    · intro c hc
      cases hc

theorem parseIntegerDetails_details
    {bitWidth : ℤ}
    (hwidth : 0 ≤ bitWidth ∧ bitWidth ≤ 127)
    (isSigned : Bool) :
    parseIntegerDetails (logicalTypeDetails (.integer bitWidth isSigned)) =
      ⟨some bitWidth, isSigned⟩ := by
  obtain ⟨width, rfl⟩ := Int.eq_ofNat_of_zero_le hwidth.1
  have hb : 'b' ∉ decimalText width := not_mem_decimalText (by decide)
  have hs : 's' ∉ decimalText width := not_mem_decimalText (by decide)
  have hb' : 'b' ∉ (flagText isSigned).toList := by
    cases isSigned <;> decide
  rw [parseIntegerDetails, logicalTypeDetails, Option.getD_some, IntegerDetails.mk.injEq]
  constructor
  · have hgroup : spanGroup Char.isDigit
        (decimalText width ++ (", signed=".toList ++ (flagText isSigned).toList)) =
        some (decimalText width) := by
      refine spanGroup_toDigits width ?_
      intro c hc
      cases hc
      rfl
    obtain ⟨hfound, htext⟩ := @subText_field (spanGroup Char.isDigit) "bit_width="
      ("bit_width=" ++ numberText width ++ ", signed=" ++ flagText isSigned)
      'b' "it_width=".toList [] _ _ rfl (by simp [numberText])
      (lastGroup_eq_none (by simp [hb, hb'])) hgroup
    have hvalue : asIntegerText (String.ofList (decimalText width)) = some (width : ℤ) :=
      asIntegerText_numberText (by omega)
    rw [if_pos hfound, htext, hvalue]
  · have hsplit : ("bit_width=" ++ numberText width ++ ", signed=" ++
        flagText isSigned).toList =
        ("bit_width=".toList ++ decimalText width ++ ", ".toList) ++
          ("signed=".toList ++ (flagText isSigned).toList) := by
      simp [numberText]
    have hfresh : 's' ∉ "bit_width=".toList ++ decimalText width ++ ", ".toList := by
      simp [hs]
    have hsame : grepl "signed=false" ("bit_width=" ++ numberText width ++ ", signed=" ++
        flagText isSigned) = grepl "signed=false" ("signed=" ++ flagText isSigned) := by
      rw [grepl, grepl, decide_eq_decide, hsplit, String.toList_append]
      exact infix_append_iff hfresh
    rw [hsame]
    cases isSigned <;> rfl

/-- No second unit comes behind the first one. -/
theorem lastGroup_unit_flag
    (adjustedToUtc : Bool) :
    lastGroup (spanGroup Char.isAlpha) "unit=".toList
      (", adjusted_to_utc=".toList ++ (flagText adjustedToUtc).toList) = none := by
  cases adjustedToUtc <;> rfl

theorem parseTimeDetails_timeText
    (unit : Option TimeUnit) (adjustedToUtc : Bool) :
    parseTimeDetails (some (timeText unit adjustedToUtc)) =
      ⟨some (timeUnitName unit), adjustedToUtc⟩ := by
  obtain ⟨name, hname⟩ : ∃ name, name = (timeUnitName unit).toList := ⟨_, rfl⟩
  have hfacts : name ≠ [] ∧ name.all Char.isAlpha = true ∧ 'u' ∉ "nit=".toList ++ name ∧
      'a' ∉ "unit=".toList ++ name ++ ", ".toList := by
    rw [hname]
    rcases unit with _ | unit
    · decide
    · cases unit <;> decide
  obtain ⟨hne, hall, hu, ha⟩ := hfacts
  have halpha : ∀ c ∈ name, c.isAlpha = true := List.all_eq_true.mp hall
  rw [parseTimeDetails, Option.getD_some, TimeDetails.mk.injEq]
  constructor
  · have hgroup : spanGroup Char.isAlpha
        (name ++ (", adjusted_to_utc=".toList ++ (flagText adjustedToUtc).toList)) =
        some name := by
      refine spanGroup_append hne halpha ?_
      intro c hc
      cases hc
      rfl
    obtain ⟨hfound, htext⟩ := @subText_field (spanGroup Char.isAlpha) "unit="
      (timeText unit adjustedToUtc) 'u' "nit=".toList []
      (name ++ (", adjusted_to_utc=".toList ++ (flagText adjustedToUtc).toList)) name rfl
      (by simp [timeText, hname])
      (by
        rw [← List.append_assoc, lastGroup_skip _ hu]
        exact lastGroup_unit_flag adjustedToUtc) hgroup
    rw [if_pos hfound, htext, hname, String.ofList_toList]
  · have hsame : grepl "adjusted_to_utc=true" (timeText unit adjustedToUtc) =
        grepl "adjusted_to_utc=true" ("adjusted_to_utc=" ++ flagText adjustedToUtc) := by
      have hsplit : (timeText unit adjustedToUtc).toList =
          ("unit=".toList ++ name ++ ", ".toList) ++
            ("adjusted_to_utc=" ++ flagText adjustedToUtc).toList := by
        simp [timeText, hname]
      rw [grepl, grepl, decide_eq_decide, hsplit]
      exact infix_append_iff ha
    rw [hsame]
    cases adjustedToUtc <;> rfl

end Details

section Names

theorem decodeConverter_decimalInt
    {scale : ℤ}
    (hscale : -2 ^ 31 < scale ∧ scale < 2 ^ 31) :
    decodeConverter (decimalName false scale) = some (.applyDecimalScale scale) := by
  have hname : (decimalName false scale).toList =
      "decimal_int_".toList ++ decimalText scale := by
    simp [decimalName, numberText]
  have hvalue : asIntegerText (String.ofList (decimalText scale)) = some scale :=
    asIntegerText_numberText hscale
  rw [decodeConverter, hname, if_pos (List.prefix_append _ _)]
  change (asIntegerText (String.ofList (decimalText scale))).map _ = _
  rw [hvalue, Option.map_some]

theorem decodeConverter_decimalBinary
    {scale : ℤ}
    (hscale : -2 ^ 31 < scale ∧ scale < 2 ^ 31) :
    decodeConverter (decimalName true scale) = some (.decimalFromBinary scale) := by
  have hname : (decimalName true scale).toList =
      "decimal_binary_".toList ++ decimalText scale := by
    simp [decimalName, numberText]
  have hvalue : asIntegerText (String.ofList (decimalText scale)) = some scale :=
    asIntegerText_numberText hscale
  rw [decodeConverter, hname, if_neg (by simp), if_pos (List.prefix_append _ _)]
  change (asIntegerText (String.ofList (decimalText scale))).map _ = _
  rw [hvalue, Option.map_some]

/-- The first part of a timestamp's name. -/
def zoneName (adjusted : Bool) : List Char :=
  if adjusted then "utc".toList else "local".toList

theorem toList_timestampName
    (adjusted : Bool) (unit tz : String) :
    (timestampName adjusted unit tz).toList =
      "timestamp_".toList ++
        (zoneName adjusted ++ '_' :: ((toLowerText unit).toList ++ '_' :: tz.toList)) := by
  cases adjusted <;> simp [timestampName, zoneName]

theorem perSecondName_unit
    (unit : TimeUnit) :
    perSecondName (toLowerText (timeUnitName (some unit))).toList = some unit := by
  cases unit <;> rfl

theorem decodeConverter_timestamp
    {tz : String}
    (htz : tz.toList.getLast? ≠ some '_')
    (adjusted : Bool) (unit : TimeUnit) :
    decodeConverter (timestampName adjusted (timeUnitName (some unit)) tz) =
      some (.asPosixct unit tz adjusted) := by
  have hunit : '_' ∉ (toLowerText (timeUnitName (some unit))).toList := by
    cases unit <;> decide
  have hzone : '_' ∉ zoneName adjusted := by
    cases adjusted <;> decide
  have hutc : (zoneName adjusted == "utc".toList) = adjusted := by
    cases adjusted <;> rfl
  have hdrop : ∀ rest, ("timestamp_".toList ++ rest).drop 10 = rest :=
    fun _ => rfl
  rw [decodeConverter, toList_timestampName, if_neg (by simp), if_neg (by simp),
    if_pos (List.prefix_append _ _), hdrop, strsplit_part _ hzone,
    strsplit_part _ hunit]
  simp only [perSecondName_unit, Option.map_some, hutc, intercalate_strsplit htz,
    String.ofList_toList]

theorem decodeConverter_time
    (mode : TimeMode) (unit : TimeUnit) :
    decodeConverter (timeName mode.name (timeUnitName (some unit))) =
      some (.asTimeOfDay unit mode.name) := by
  cases mode <;> cases unit <;> decide

end Names

section Agreement

/-- The annotation as the structured plan knows it. -/
def LogicalType.logical : LogicalType → Logical
  | .string => .string
  | .enum => .enum
  | .json => .json
  | .decimal _ scale => .decimal scale
  | .date => .date
  | .time unit _ => .time unit
  | .timestamp unit adjustedToUtc => .timestamp unit adjustedToUtc
  | .integer bitWidth isSigned => .integer bitWidth isSigned
  | .null => .null
  | .uuid => .uuid
  | .float16 => .float16
  | _ => .other

/-- Parameters an R integer holds, and widths that are not negative. -/
def LogicalType.InRange : LogicalType → Prop
  | .decimal precision scale =>
      (-2 ^ 31 < precision ∧ precision < 2 ^ 31) ∧ -2 ^ 31 < scale ∧ scale < 2 ^ 31
  | .integer bitWidth _ => 0 ≤ bitWidth ∧ bitWidth ≤ 127
  | _ => True

/-- The rules an INTEGER annotation comes to when its own claims nothing. -/
def unclaimed (options : ReadOptions) (type : PhysicalType) : Option Converter :=
  if storedAsBytes type then
    some .binary
  else if type = .int64 then
    some (resolveLogical.int64Rule options)
  else
    none

theorem resolveLogical_integer
    (options : ReadOptions) {s : SchemaLeaf} {bitWidth : ℤ} {isSigned : Bool}
    (hs : s.logicalType = some (.integer bitWidth isSigned)) :
    resolveLogical options s =
      (integerRule bitWidth isSigned).orElse fun _ => unclaimed options s.physicalType := by
  cases hrule : integerRule bitWidth isSigned <;> cases htype : s.physicalType <;>
    simp [resolveLogical, hs, hrule, htype, unclaimed, storedAsBytes]

theorem unclaimed_cases
    {options : ReadOptions} {type : PhysicalType} {converter : Converter}
    (h : unclaimed options type = some converter) :
    converter = .binary ∨ converter = .int64Double ∨ converter = .int64Bit64 := by
  rw [unclaimed] at h
  split_ifs at h
  · cases h
    exact Or.inl rfl
  · cases h
    rw [resolveLogical.int64Rule]
    cases options.int64 <;> simp

theorem resolveLogicalText_integer
    {bitWidth : ℤ} {isSigned : Bool} (options : ReadOptions) (type : PhysicalType)
    (hwidth : 0 ≤ bitWidth ∧ bitWidth ≤ 127) :
    resolveLogicalText options (schemaText type (some (.integer bitWidth isSigned))) =
      ((integerRule bitWidth isSigned).orElse fun _ => unclaimed options type).map
        Converter.name := by
  have hparse := parseIntegerDetails_details hwidth isSigned
  have hname : integerName ⟨some bitWidth, isSigned⟩ =
      (integerRule bitWidth isSigned).map Converter.name := by
    simp only [integerName, integerRule, Option.some.injEq]
    split_ifs <;> rfl
  have htext : logicalTypeName (.integer bitWidth isSigned) = "INTEGER" := rfl
  obtain ⟨int64, time, tz⟩ := options
  simp only [resolveLogicalText, schemaText, Option.map_some, Option.bind_some,
    hparse, hname, htext]
  cases hrule : integerRule bitWidth isSigned <;> cases type <;> cases int64 <;>
    simp [PhysicalType.name, binaryStorage, storedAsBytes, unclaimed, Converter.name,
      resolveLogical.int64Rule]

theorem resolveLogicalText_eq
    (options : ReadOptions) (s : SchemaLeaf) (logical : Option LogicalType)
    (hs : s.logicalType = logical.map LogicalType.logical)
    (hrange : ∀ l, logical = some l → l.InRange) :
    resolveLogicalText options (schemaText s.physicalType logical) =
      (resolveLogical options s).map Converter.name := by
  obtain ⟨path, type, annotation, length, maxDef, maxRep, repetition⟩ := s
  obtain ⟨int64, time, tz⟩ := options
  dsimp only at hs
  subst hs
  rcases logical with _ | logical
  · cases type <;> cases int64 <;> rfl
  · cases logical with
    | decimal precision scale =>
        obtain ⟨hprecision, hscale⟩ := hrange _ rfl
        have hparse := parseDecimalDetails_details hprecision hscale
        simp only [resolveLogicalText, schemaText, Option.map_some, Option.bind_some,
          hparse]
        cases type <;> rfl
    | integer bitWidth isSigned =>
        rw [resolveLogicalText_integer _ type (hrange _ rfl),
          resolveLogical_integer _ rfl]
    | time unit adjustedToUtc =>
        have hparse := parseTimeDetails_timeText unit adjustedToUtc
        simp only [resolveLogicalText, schemaText, Option.map_some, Option.bind_some,
          logicalTypeDetails, hparse]
        rcases unit with _ | unit
        · cases type <;> rfl
        · cases unit <;> cases type <;> rfl
    | timestamp unit adjustedToUtc =>
        have hparse := parseTimeDetails_timeText unit adjustedToUtc
        simp only [resolveLogicalText, schemaText, Option.map_some, Option.bind_some,
          logicalTypeDetails, hparse]
        rcases unit with _ | unit
        · cases type <;> rfl
        · cases unit <;> cases type <;> rfl
    | _ =>
        cases type <;> rfl

end Agreement

section Dispatching

/-- A converter whose parameters its name can hold. -/
def Converter.Readable : Converter → Prop
  | .timestamp _ _ tz => tz.toList.getLast? ≠ some '_'
  | .decimalInt scale => -2 ^ 31 < scale ∧ scale < 2 ^ 31
  | .decimalBinary scale => -2 ^ 31 < scale ∧ scale < 2 ^ 31
  | _ => True

theorem decodeConverter_name
    {converter : Converter}
    (hreadable : converter.Readable) :
    decodeConverter converter.name = some converter.call := by
  cases converter with
  | decimalInt scale =>
      exact decodeConverter_decimalInt hreadable
  | decimalBinary scale =>
      exact decodeConverter_decimalBinary hreadable
  | timestamp adjusted unit tz =>
      exact decodeConverter_timestamp hreadable adjusted unit
  | time mode unit =>
      exact decodeConverter_time mode unit
  | _ =>
      rfl

/-- The annotation families with a conversion of their own. -/
inductive Family where
  | decimal
  | timestamp
  | time
  | date
  | null
  | float16
  | plain
deriving DecidableEq

def Logical.family : Logical → Family
  | .decimal _ => .decimal
  | .timestamp _ _ => .timestamp
  | .time _ => .time
  | .date => .date
  | .null => .null
  | .float16 => .float16
  | _ => .plain

def ConverterCall.family : ConverterCall → Family
  | .applyDecimalScale _ => .decimal
  | .decimalFromBinary _ => .decimal
  | .asPosixct _ _ _ => .timestamp
  | .asTimeOfDay _ _ => .time
  | .date => .date
  | .nullLogical => .null
  | .float16 => .float16
  | _ => .plain

/-- A leaf of a type with an annotation. -/
def annotatedLeaf (type : PhysicalType) (logical : LogicalType) : SchemaLeaf where
  path := []
  physicalType := type
  logicalType := some logical.logical
  typeLength := 0
  maxDef := 0
  maxRep := 0
  repetition := .required

theorem resolveLogical_readable
    {options : ReadOptions} {s : SchemaLeaf} {logical : Logical} {converter : Converter}
    (htz : options.tz.toList.getLast? ≠ some '_')
    (hs : s.logicalType = some logical)
    (hscale : ∀ scale, logical = .decimal scale → -2 ^ 31 < scale ∧ scale < 2 ^ 31)
    (h : resolveLogical options s = some converter) :
    converter.Readable ∧
      (converter.call.family = logical.family ∨ converter.call.family = .plain) := by
  obtain ⟨path, type, annotation, length, maxDef, maxRep, repetition⟩ := s
  dsimp only at hs
  subst hs
  cases logical with
  | decimal scale =>
      have hscale' := hscale scale rfl
      cases type <;> cases h <;> exact ⟨hscale', Or.inl rfl⟩
  | integer bitWidth isSigned =>
      rw [resolveLogical_integer _ rfl] at h
      rcases integerRule_values bitWidth isSigned with hrule | hrule | hrule
      · rw [hrule] at h
        rcases unclaimed_cases h with rfl | rfl | rfl <;> exact ⟨trivial, Or.inr rfl⟩
      · rw [hrule] at h
        cases h
        exact ⟨trivial, Or.inr rfl⟩
      · rw [hrule] at h
        cases h
        exact ⟨trivial, Or.inr rfl⟩
  | time unit =>
      rcases unit with _ | unit
      · cases type <;> cases h <;> exact ⟨trivial, Or.inr rfl⟩
      · cases type <;> cases h <;> exact ⟨trivial, Or.inl rfl⟩
  | timestamp unit adjustedToUtc =>
      rcases unit with _ | unit
      · cases type <;> cases h <;> exact ⟨trivial, Or.inr rfl⟩
      · cases type <;> cases h <;>
          first | exact ⟨htz, Or.inl rfl⟩ | exact ⟨trivial, Or.inr rfl⟩
  | null =>
      cases type <;> cases h <;> exact ⟨trivial, Or.inl rfl⟩
  | date | float16 =>
      cases type <;> cases h <;>
        first | exact ⟨trivial, Or.inl rfl⟩ | exact ⟨trivial, Or.inr rfl⟩
  | _ =>
      cases type <;> cases h <;> exact ⟨trivial, Or.inr rfl⟩

theorem scale_of_inRange
    {logical : LogicalType} {scale : ℤ}
    (hrange : logical.InRange)
    (hlogical : logical.logical = .decimal scale) :
    -2 ^ 31 < scale ∧ scale < 2 ^ 31 := by
  cases logical <;> cases hlogical
  exact hrange.2

theorem resolveLogicalText_annotated
    (options : ReadOptions) (type : PhysicalType) {logical : LogicalType}
    (hrange : logical.InRange) :
    resolveLogicalText options (schemaText type (some logical)) =
      (resolveLogical options (annotatedLeaf type logical)).map Converter.name := by
  refine resolveLogicalText_eq options (annotatedLeaf type logical) (some logical) rfl ?_
  rintro l ⟨⟩
  exact hrange

/-- Through both texts an annotation leads to the call of its converter. -/
theorem resolveLogicalText_bind_decode
    {options : ReadOptions} {type : PhysicalType} {logical : LogicalType}
    (htz : options.tz.toList.getLast? ≠ some '_')
    (hrange : logical.InRange) :
    (resolveLogicalText options (schemaText type (some logical))).bind decodeConverter =
      (resolveLogical options (annotatedLeaf type logical)).map Converter.call := by
  rw [resolveLogicalText_annotated options type hrange]
  cases hresolved : resolveLogical options (annotatedLeaf type logical) with
  | none =>
      rfl
  | some converter =>
      exact decodeConverter_name
        (resolveLogical_readable htz rfl (fun _ => scale_of_inRange hrange) hresolved).1

/-- The decision of an INTEGER annotation, as its name has it. -/
theorem integer_name_iff
    (options : ReadOptions) (type : PhysicalType) (bitWidth : ℤ) (isSigned : Bool) :
    let name := (resolveLogical options (annotatedLeaf type
      (.integer bitWidth isSigned))).map Converter.name
    (name = some "uint32" ↔ integerRule bitWidth isSigned = some .uint32) ∧
      (name = some "int32" ↔ integerRule bitWidth isSigned = some .int32) := by
  dsimp only
  rw [resolveLogical_integer _ rfl]
  rcases integerRule_values bitWidth isSigned with hrule | hrule | hrule <;> rw [hrule]
  · rw [Option.orElse_none]
    cases hnone : unclaimed options (annotatedLeaf type
        (.integer bitWidth isSigned)).physicalType with
    | none =>
        simp
    | some converter =>
        rcases unclaimed_cases hnone with rfl | rfl | rfl <;> simp [Converter.name]
  · simp [Converter.name]
  · simp [Converter.name]

end Dispatching

section Result

/-- What the two texts keep of an annotation on a leaf. -/
def Survives (options : ReadOptions) (type : PhysicalType) (logical : LogicalType) :
    Prop :=
  let details := logicalTypeDetails logical
  let name := resolveLogicalText options (schemaText type (some logical))
  match logical with
  | .decimal precision scale =>
      parseDecimalDetails details = ⟨precision, scale⟩ ∧
        name.bind decodeConverter =
          some (if storedAsBytes type then .decimalFromBinary scale
            else .applyDecimalScale scale)
  | .integer bitWidth isSigned =>
      parseIntegerDetails details = ⟨some bitWidth, isSigned⟩ ∧
        (name = some "uint32" ↔ isSigned = false ∧ bitWidth = 32) ∧
        (name = some "int32" ↔ (bitWidth = 8 ∨ bitWidth = 16 ∨ bitWidth = 32) ∧
          ¬ (isSigned = false ∧ bitWidth = 32))
  | .time (some unit) adjustedToUtc =>
      parseTimeDetails details = ⟨some (timeUnitName (some unit)), adjustedToUtc⟩ ∧
        name.bind decodeConverter = some (.asTimeOfDay unit options.time.name)
  | .timestamp (some unit) adjustedToUtc =>
      parseTimeDetails details = ⟨some (timeUnitName (some unit)), adjustedToUtc⟩ ∧
        (type = .int64 →
          name.bind decodeConverter = some (.asPosixct unit options.tz adjustedToUtc))
  | _ => True

theorem survives
    {options : ReadOptions} {logical : LogicalType} (type : PhysicalType)
    (htz : options.tz.toList.getLast? ≠ some '_')
    (hrange : logical.InRange) :
    Survives options type logical := by
  have hcall := @resolveLogicalText_bind_decode options type logical htz hrange
  cases logical with
  | decimal precision scale =>
      refine ⟨parseDecimalDetails_details hrange.1 hrange.2, hcall.trans ?_⟩
      cases type <;> rfl
  | integer bitWidth isSigned =>
      obtain ⟨hunsigned, hnarrow⟩ := integer_name_iff options type bitWidth isSigned
      rw [← resolveLogicalText_annotated options type hrange] at hunsigned hnarrow
      refine ⟨parseIntegerDetails_details hrange isSigned, hunsigned.trans ?_,
        hnarrow.trans ?_⟩
      · rw [integerRule]
        split_ifs <;> simp_all
      · rw [integerRule]
        split_ifs <;> simp_all
  | time unit adjustedToUtc =>
      rcases unit with _ | unit
      · exact trivial
      · refine ⟨parseTimeDetails_timeText (some unit) adjustedToUtc, hcall.trans ?_⟩
        cases type <;> rfl
  | timestamp unit adjustedToUtc =>
      rcases unit with _ | unit
      · exact trivial
      · refine ⟨parseTimeDetails_timeText (some unit) adjustedToUtc, ?_⟩
        rintro rfl
        exact hcall
  | _ =>
      exact trivial

/-- The parameters an annotation's reading depends on come back from both texts, and
no name is dispatched as the converter of another family. -/
theorem annotation_parameters_survive
    (options : ReadOptions) (type : PhysicalType) (logical : LogicalType)
    (htz : options.tz.toList.getLast? ≠ some '_')
    (hrange : logical.InRange) :
    Survives options type logical ∧
      ∀ name, resolveLogicalText options (schemaText type (some logical)) = some name →
        ∃ call, decodeConverter name = some call ∧
          (call.family = logical.logical.family ∨ call.family = .plain) := by
  refine ⟨survives type htz hrange, fun name hname => ?_⟩
  rw [resolveLogicalText_annotated options type hrange] at hname
  obtain ⟨converter, hconverter, rfl⟩ := Option.map_eq_some_iff.mp hname
  obtain ⟨hreadable, hfamily⟩ := resolveLogical_readable htz rfl
    (fun _ => scale_of_inRange hrange) hconverter
  exact ⟨converter.call, decodeConverter_name hreadable, hfamily⟩

/-- Options with a zone name that has separators inside. -/
def newYork : ReadOptions := ⟨.double, .numeric, "America/New_York"⟩

theorem annotation_parameters_survive_new_york :
    newYork.tz.toList.getLast? ≠ some '_' ∧
      (LogicalType.timestamp (some .micros) false).InRange ∧
      Survives newYork .int64 (.timestamp (some .micros) false) := by
  have htz : newYork.tz.toList.getLast? ≠ some '_' := by
    decide
  exact ⟨htz, trivial, (annotation_parameters_survive newYork .int64
    (.timestamp (some .micros) false) htz trivial).1⟩

/-- A TIME annotation with and without the UTC flag has one converter name, so the
flag cannot be read from it. -/
theorem time_flag_not_in_name :
    ¬ ∃ recover : String → Bool, ∀ adjustedToUtc, ∃ name,
      resolveLogicalText newYork
          (schemaText .int64 (some (.time (some .micros) adjustedToUtc))) = some name ∧
        recover name = adjustedToUtc := by
  rintro ⟨recover, h⟩
  obtain ⟨name, hname, hflag⟩ := h true
  obtain ⟨name', hname', hflag'⟩ := h false
  have hone := @resolveLogicalText_annotated newYork .int64
    (.time (some .micros) true) trivial
  have htwo := @resolveLogicalText_annotated newYork .int64
    (.time (some .micros) false) trivial
  have hsame : name = name' := by
    rw [hone] at hname
    rw [htwo] at hname'
    exact Option.some.inj (hname.symm.trans hname')
  rw [hsame, hflag'] at hflag
  cases hflag

end Result

end Plan
end QioParquet
