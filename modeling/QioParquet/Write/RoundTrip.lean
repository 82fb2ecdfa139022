import QioParquet.Write.Pack
import QioParquet.Plan.Apply
import QioParquet.Plan.Collected
import Mathlib.Tactic

/-!
# Writing a column and reading it back

A column is a sequence of values, each missing, logical, a number or text. The
packing loop turns each value into a slot, and a slot carries its value: reading
it into the native column of the same schema row gives the value back. The rest
is about partitions. The batches of the writer are the slots cut at its chunks,
the batches of the reader are the same rows cut anywhere else.
-/

namespace QioParquet
namespace Write

open Lib Read Plan

section Values

/-- What an element of a column says. -/
inductive Value where
  | missing
  | logical (value : Bool)
  | number (value : RDouble)
  | text (bytes : Bytes)
deriving DecidableEq

def numberValue (d : RDouble) : Value :=
  if d = .na then .missing else .number d

theorem numberValue_na : numberValue .na = .missing :=
  if_pos rfl

/-- The value of an R element. A 64-bit integer is missing where its bits are
those of the smallest one. -/
def cellValue : RCell → Option Value
  | .lgl value => some (.logical value)
  | .lglNA => some .missing
  | .int word =>
      some (if word = naInteger then .missing else .number (.num word.toInt))
  | .dbl d => some (numberValue d)
  | .bits word =>
      some (if word = BitVec.intMin 64 then .missing
        else .number (.num word.toInt))
  | .str bytes => some (.text bytes)
  | .strNA => some .missing
  | _ => none

theorem cellValue_int
    {word : BitVec 32}
    (hne : word ≠ naInteger) :
    cellValue (.int word) = some (.number (.num word.toInt)) :=
  congrArg some (if_neg hne)

theorem cellValue_bits
    {word : BitVec 64}
    (hne : word ≠ BitVec.intMin 64) :
    cellValue (.bits word) = some (.number (.num word.toInt)) :=
  congrArg some (if_neg hne)

/-- The value of a string: the C string it is translated to. -/
def textValue (t : Translator) (entry : RCell × Encoding) :
    Except WriteError Value :=
  match entry.1 with
  | .str bytes => do
      let text ← t.translate entry.2 bytes
      return .text (cString text)
  | _ => .ok .missing

def logicalValue : RCell → Value
  | .lgl value => .logical value
  | _ => .missing

/-- The column as `qio_write_body` gets it. -/
def writeColumn (x : InputColumn) (s : WriteSpec) (vector : RVector) :
    WriteColumn :=
  ⟨s, vector, characterMarks x⟩

/-- The values of a column of the data frame: logicals as they are, strings and
factors as text, everything else as numbers. -/
def originalValues
    (platform : Platform) (t : Translator) (x : InputColumn) (s : WriteSpec) :
    Except WriteError (List Value) :=
  match s.type with
  | .boolean => .ok (x.vector.cells.map logicalValue)
  | .string => do
      let text ← asCharacter x
      (writeColumn x s text).entries.mapM (textValue t)
  | _ => do
      let numbers ← asDoubles platform x
      return numbers.map numberValue

/-- The types whose columns come back as they were. -/
def WriteType.roundTrips : WriteType → Bool
  | .float => false
  | .timestamp _ => false
  | _ => true

/-- A string that is valid UTF-8. One that translation changes has to fit an
`int32_t`; R sees to that for the others. -/
def SoundText (t : Translator) (entry : RCell × Encoding) : Prop :=
  ∀ bytes text, entry.1 = .str bytes → t.translate entry.2 bytes = .ok text →
    ValidUtf8 (cString text) ∧ (text ≠ bytes → text.length < 2 ^ 31)

/-- The values that come back as they were: no 32-bit integer has R's `NA` as its
value, and text is UTF-8. -/
def Restorable
    (t : Translator) (x : InputColumn) (s : WriteSpec) (vector : RVector)
    (values : List Value) : Prop :=
  match s.type with
  | .int32 => .number (.num (-2 ^ 31 : ℤ)) ∉ values
  | .date => .number (.num (-2 ^ 31 : ℤ)) ∉ values
  | .string => ∀ entry ∈ (writeColumn x s vector).entries, SoundText t entry
  | _ => True

end Values

section Columns

/-- How the reader decodes a column of the type. -/
def WriteType.kind : WriteType → Kind
  | .int64 => .int64
  | .string => .text
  | _ => .default

/-- The native column a written column is read into. -/
theorem planSpec_schemaLeaf
    (options : ReadOptions) (s : WriteSpec) :
    (planSpec options s.schemaLeaf).type = s.type.physical ∧
      (planSpec options s.schemaLeaf).kind = s.type.kind ∧
      (planSpec options s.schemaLeaf).unsigned64 = false ∧
      (planSpec options s.schemaLeaf).maxDef =
        if s.nullable then 1 else 0 := by
  obtain ⟨name, type, nullable⟩ := s
  obtain ⟨int64, time, tz⟩ := options
  cases type <;> cases int64 <;> exact ⟨rfl, rfl, rfl, rfl⟩

theorem planSpec_supported
    (options : ReadOptions) (s : WriteSpec) :
    (planSpec options s.schemaLeaf).Supported := by
  intro htype
  rw [(planSpec_schemaLeaf options s).1] at htype
  cases hs : s.type <;> rw [hs] at htype <;> cases htype

/-- A slot carries a value: it is there if and only if the value is, it has the
type of the column, and the reader makes the value out of it. -/
structure Carries
    (c : ColumnSpec) (value : Value) (slot : Option (PhysValue Bytes)) :
    Prop where
  none_iff : slot = none ↔ value = .missing
  typed : ∀ v, slot = some v → v.type = c.type ∧ ∀ bytes, v ≠ .fixed bytes
  read : ∃ cell, nativeCell c slot = some cell ∧ cellValue cell = some value

end Columns

section Integers

/-- A column that passes has only missing values and integers in range. -/
theorem validateIntegral_ok
    {x : List RDouble} {name : String} {min max : ℚ}
    (h : validateIntegral x name min max = .ok ())
    {d : RDouble}
    (hd : d ∈ x)
    (hpresent : isMissing d = false) :
    ∃ z : ℤ, d = .num z ∧ min ≤ z ∧ (z : ℚ) ≤ max := by
  have hmem : d ∈ x.filter fun d => !isMissing d :=
    List.mem_filter.mpr ⟨hd, by simp [hpresent]⟩
  simp only [validateIntegral] at h
  split_ifs at h with hwhole hrange
  simp only [Bool.or_eq_true, List.any_eq_true, not_or, not_exists,
    not_and] at hwhole hrange
  obtain ⟨-, hwhole⟩ := hwhole
  cases d with
  | num q =>
      have hq : (truncate q : ℚ) = q := by
        simpa [isWhole] using hwhole _ hmem
      have hout := hrange _ hmem
      simp only [outside, Bool.or_eq_true, decide_eq_true_eq, not_or,
        not_lt] at hout
      refine ⟨truncate q, by rw [hq], ?_, ?_⟩
      · rw [hq]
        exact hout.1
      · rw [hq]
        exact hout.2
  | na =>
      cases hpresent
  | nan negative fraction =>
      cases hpresent
  | inf negative =>
      exact absurd rfl (hwhole _ hmem)

/-- An element of an integer column, which may not contain NaN. -/
def IntegerWithin (min max : ℤ) (d : RDouble) : Prop :=
  d = .na ∨ ∃ z : ℤ, d = .num z ∧ min ≤ z ∧ z ≤ max

theorem integers_of_checks
    {platform : Platform} {x : InputColumn} {s : WriteSpec}
    {numbers : List RDouble} {min max : ℤ}
    (hnumbers : doublesWithoutNaN platform x s = .ok numbers)
    (hvalid : validateIntegral numbers s.name min max = .ok ()) :
    asDoubles platform x = .ok numbers ∧
      ∀ d ∈ numbers, IntegerWithin min max d := by
  simp only [doublesWithoutNaN, bind_eq_ok_iff] at hnumbers
  obtain ⟨numbers', hdoubles, hnan⟩ := hnumbers
  split_ifs at hnan with hany
  cases hnan
  refine ⟨hdoubles, fun d hd => ?_⟩
  cases hmissing : isMissing d with
  | false =>
      obtain ⟨z, rfl, hmin, hmax⟩ := validateIntegral_ok hvalid hd hmissing
      exact .inr ⟨z, rfl, by exact_mod_cast hmin, by exact_mod_cast hmax⟩
  | true =>
      cases d with
      | na =>
          exact .inl rfl
      | nan negative fraction =>
          exact absurd (List.any_eq_true.mpr ⟨_, hd, rfl⟩) hany
      | inf negative =>
          cases hmissing
      | num q =>
          cases hmissing

theorem lt_of_numberValue_ne
    {z min : ℤ}
    (hmin : min ≤ z)
    (hne : numberValue (.num z) ≠ .number (.num min)) :
    min < z := by
  refine lt_of_le_of_ne hmin ?_
  rintro rfl
  exact hne (if_neg nofun)

theorem roundToInt_intCast
    {width : Nat} {z : ℤ}
    (hmin : -2 ^ (width - 1) ≤ z)
    (hmax : z < 2 ^ (width - 1)) :
    roundToInt width (.num z) = .ok (BitVec.ofInt width z) := by
  rw [roundToInt, roundAway_intCast, if_pos ⟨hmin, hmax⟩]

theorem asInteger_intCast
    {z : ℤ}
    (hmin : -2 ^ 31 < z)
    (hmax : z < 2 ^ 31) :
    asInteger (.num z) = BitVec.ofInt 32 z := by
  have hrange : (-2 ^ 31 : ℚ) < z ∧ (z : ℚ) < 2 ^ 31 := by
    constructor <;> exact_mod_cast (by assumption)
  rw [asInteger, if_pos hrange, truncate_intCast]

/-- An integer that is not the smallest one is not stored as it. -/
theorem ofInt_ne_intMin
    {width : Nat} {z : ℤ}
    (hwidth : 0 < width)
    (hmin : -2 ^ (width - 1) < z)
    (hmax : z < 2 ^ (width - 1)) :
    BitVec.ofInt width z ≠ BitVec.intMin width := by
  intro h
  have hint := congrArg BitVec.toInt h
  rw [BitVec.toInt_ofInt_eq_self hwidth (le_of_lt hmin) hmax,
    BitVec.toInt_intMin_of_pos hwidth] at hint
  omega

end Integers

section Elements

variable {t : Translator} {options : ReadOptions} {s : WriteSpec}

theorem packDouble_of_ne
    {d : RDouble} {convert : RDouble → Except WriteError (PhysValue Bytes)}
    (hna : d ≠ .na) :
    packDouble d convert = (convert d).map some := by
  rw [packDouble, if_neg hna]
  cases convert d <;> rfl

theorem packDouble_num
    (q : ℚ) (convert : RDouble → Except WriteError (PhysValue Bytes)) :
    packDouble (.num q) convert = (convert (.num q)).map some :=
  packDouble_of_ne nofun

/-- One turn of the packing loop makes a slot that carries the value. -/
def Packs
    (t : Translator) (options : ReadOptions) (s : WriteSpec)
    (entry : RCell × Encoding) (value : Value) : Prop :=
  ∃ slot, packValue t s.type entry.2 entry.1 = .ok slot ∧
    Carries (planSpec options s.schemaLeaf) value slot

/-- A slot for a present value. -/
theorem carries_some
    {c : ColumnSpec} {v : PhysValue Bytes} {value : Value}
    (cell : RCell)
    (hvalue : value ≠ .missing)
    (htype : v.type = c.type)
    (hfixed : c.type ≠ .fixedLenByteArray)
    (hread : valueCell c v = some cell)
    (hcell : cellValue cell = some value) :
    Carries c value (some v) where
  none_iff := by simp [hvalue]
  typed := by
    rintro v' ⟨⟩
    refine ⟨htype, ?_⟩
    rintro bytes rfl
    exact hfixed htype.symm
  read := ⟨cell, hread, hcell⟩

/-- The slot of a missing value. -/
theorem carries_none
    {c : ColumnSpec}
    (hcell : cellValue (naCell c) = some .missing) :
    Carries c .missing none where
  none_iff := by simp
  typed := by simp
  read := ⟨naCell c, rfl, hcell⟩

/-- Every type the writer has reads `NA` from a missing row. -/
theorem cellValue_naCell
    (options : ReadOptions) (s : WriteSpec) :
    cellValue (naCell (planSpec options s.schemaLeaf)) = some .missing := by
  obtain ⟨name, type, nullable⟩ := s
  obtain ⟨int64, time, tz⟩ := options
  cases type <;> cases int64 <;> rfl

theorem planSpec_type_ne_fixed :
    (planSpec options s.schemaLeaf).type ≠ .fixedLenByteArray := by
  rw [(planSpec_schemaLeaf options s).1]
  cases s.type <;> exact nofun

theorem packs_missing
    {cell : RCell} {mark : Encoding}
    (hpack : packValue t s.type mark cell = .ok none) :
    Packs t options s (cell, mark) .missing :=
  ⟨none, hpack, carries_none (cellValue_naCell options s)⟩

/-- Whole doubles that a packed integer of a width carries. -/
theorem packs_rounded
    {width : Nat} {wrap : BitVec width → PhysValue Bytes} {d : RDouble} {mark : Encoding}
    (hpack : packValue t s.type mark (.dbl d) = packDouble d fun d => do
      let word ← roundToInt width d
      return wrap word)
    (hd : d = .na ∨ ∃ z : ℤ, d = .num z ∧ -2 ^ (width - 1) ≤ z ∧ z < 2 ^ (width - 1) ∧
      Carries (planSpec options s.schemaLeaf) (.number (.num z))
        (some (wrap (BitVec.ofInt width z)))) :
    Packs t options s (.dbl d, mark) (numberValue d) := by
  rcases hd with rfl | ⟨z, rfl, hmin, hmax, hcarries⟩
  · rw [numberValue_na]
    exact packs_missing hpack
  · rw [packDouble_num, roundToInt_intCast hmin hmax] at hpack
    exact ⟨_, hpack, hcarries⟩

theorem packs_logical
    (htype : s.type = .boolean)
    {cell : RCell}
    (hcell : cell.sexptype = some .lglsxp)
    (mark : Encoding) :
    Packs t options s (cell, mark) (logicalValue cell) := by
  obtain ⟨hphysical, hkind, -, -⟩ := planSpec_schemaLeaf options s
  rw [htype] at hphysical hkind
  cases cell with
  | lgl value =>
      refine ⟨some (.boolean (if value then 1 else 0)), by rw [htype]; rfl,
        carries_some (.lgl value) (by rintro ⟨⟩) hphysical.symm
          planSpec_type_ne_fixed ?_ rfl⟩
      cases value <;> simp [valueCell, hkind, WriteType.kind]
  | lglNA =>
      exact packs_missing (by rw [htype]; rfl)
  | _ =>
      cases hcell

theorem packs_double
    (htype : s.type = .double)
    (d : RDouble)
    (mark : Encoding) :
    Packs t options s (.dbl d, mark) (numberValue d) := by
  obtain ⟨hphysical, hkind, -, -⟩ := planSpec_schemaLeaf options s
  rw [htype] at hphysical hkind
  by_cases hna : d = .na
  · rw [hna, numberValue_na]
    exact packs_missing (by rw [htype]; rfl)
  · have hvalue : numberValue d = .number d := if_neg hna
    have hpack : packValue t s.type mark (.dbl d) =
        packDouble d fun d => .ok (.double d) := by
      rw [htype]
      rfl
    rw [packDouble_of_ne hna] at hpack
    have hcell : cellValue (.dbl d) = some (.number d) := by
      rw [← hvalue]
      rfl
    have hread : valueCell (planSpec options s.schemaLeaf) (.double d) =
        some (.dbl d) := by
      simp [valueCell, hkind, WriteType.kind]
    rw [hvalue]
    exact ⟨some (.double d), hpack, carries_some (.dbl d) (by rintro ⟨⟩)
      hphysical.symm planSpec_type_ne_fixed hread hcell⟩

/-- A 32-bit integer other than R's `NA` is read as it was. -/
theorem carries_int32
    (htype : s.type.physical = .int32)
    {z : ℤ}
    (hmin : -2 ^ 31 < z)
    (hmax : z < 2 ^ 31) :
    Carries (planSpec options s.schemaLeaf) (.number (.num z))
      (some (.int32 (BitVec.ofInt 32 z))) := by
  obtain ⟨hphysical, hkind, -, -⟩ := planSpec_schemaLeaf options s
  have hdefault : s.type.kind = .default := by
    cases hs : s.type <;> rw [hs] at htype <;> cases htype <;> rfl
  have hread : valueCell (planSpec options s.schemaLeaf)
      (.int32 (BitVec.ofInt 32 z)) = some (.int (BitVec.ofInt 32 z)) := by
    simp [valueCell, hkind, hdefault]
  have hcell : cellValue (.int (BitVec.ofInt 32 z)) =
      some (.number (.num z)) := by
    rw [cellValue_int (ofInt_ne_intMin (by omega) hmin hmax),
      BitVec.toInt_ofInt_eq_self (by omega) (le_of_lt hmin) hmax]
  exact carries_some (.int (BitVec.ofInt 32 z)) (by rintro ⟨⟩)
    (htype.symm.trans hphysical.symm) planSpec_type_ne_fixed hread hcell

/-- A 64-bit integer a double holds is read as it was, in both modes. -/
theorem carries_int64
    (htype : s.type = .int64)
    {z : ℤ}
    (hmin : -2 ^ 53 ≤ z)
    (hmax : z ≤ 2 ^ 53) :
    Carries (planSpec options s.schemaLeaf) (.number (.num z))
      (some (.int64 (BitVec.ofInt 64 z))) := by
  obtain ⟨hphysical, hkind, hunsigned, -⟩ := planSpec_schemaLeaf options s
  rw [htype] at hphysical hkind
  have hint : (BitVec.ofInt 64 z).toInt = z :=
    BitVec.toInt_ofInt_eq_self (by omega) (by omega) (by omega)
  have hne : BitVec.ofInt 64 z ≠ BitVec.intMin 64 :=
    ofInt_ne_intMin (by omega) (by omega) (by omega)
  have hread : valueCell (planSpec options s.schemaLeaf)
      (.int64 (BitVec.ofInt 64 z)) =
        some (placeInt64 (BitVec.ofInt 64 z)
          (planSpec options s.schemaLeaf).int64Option false).1 := by
    simp [valueCell, hkind, hunsigned, WriteType.kind]
  refine carries_some _ (by rintro ⟨⟩) hphysical.symm planSpec_type_ne_fixed hread ?_
  cases (planSpec options s.schemaLeaf).int64Option with
  | bit64 =>
      rw [placeInt64, if_neg (by simp), if_neg (by simp [hne]),
        cellValue_bits hne, hint]
  | double =>
      have hexact : ¬ (z < -doubleExactMax ∨ doubleExactMax < z) := by
        rw [doubleExactMax]
        omega
      rw [placeInt64, if_neg Bool.false_ne_true, hint, if_neg hexact,
        intToDouble_exact (abs_le.mpr ⟨hmin, hmax⟩)]
      rfl

theorem packs_int32
    (htype : s.type = .int32)
    {d : RDouble}
    (hd : IntegerWithin (-2 ^ 31) (2 ^ 31 - 1) d)
    (hne : numberValue d ≠ .number (.num (-2 ^ 31 : ℤ)))
    (mark : Encoding) :
    Packs t options s (.int (asInteger d), mark) (numberValue d) := by
  rcases hd with rfl | ⟨z, rfl, hmin, hmax⟩
  · rw [numberValue_na]
    exact packs_missing (by rw [htype]; rfl)
  · have hmin' := lt_of_numberValue_ne hmin hne
    have hpack : packValue t s.type mark (.int (BitVec.ofInt 32 z)) =
        .ok (some (.int32 (BitVec.ofInt 32 z))) := by
      rw [htype]
      exact if_neg (ofInt_ne_intMin (by omega) hmin' (by omega))
    rw [asInteger_intCast hmin' (by omega)]
    exact ⟨_, hpack, carries_int32 (by rw [htype]; rfl) hmin' (by omega)⟩

theorem packs_date
    (htype : s.type = .date)
    {d : RDouble}
    (hd : IntegerWithin (-2 ^ 31) (2 ^ 31 - 1) d)
    (hne : numberValue d ≠ .number (.num (-2 ^ 31 : ℤ)))
    (mark : Encoding) :
    Packs t options s (.dbl d, mark) (numberValue d) := by
  refine packs_rounded (by rw [htype]; rfl) (hd.imp_right ?_)
  rintro ⟨z, rfl, hmin, hmax⟩
  have hmin' := lt_of_numberValue_ne hmin hne
  exact ⟨z, rfl, hmin, by omega, carries_int32 (by rw [htype]; rfl) hmin' (by omega)⟩

theorem packs_int64
    (htype : s.type = .int64)
    {d : RDouble}
    (hd : IntegerWithin (-2 ^ 53) (2 ^ 53) d)
    (mark : Encoding) :
    Packs t options s (.dbl d, mark) (numberValue d) := by
  refine packs_rounded (by rw [htype]; rfl) (hd.imp_right ?_)
  rintro ⟨z, rfl, hmin, hmax⟩
  exact ⟨z, rfl, by omega, by omega, carries_int64 htype hmin hmax⟩

theorem packs_text
    (htype : s.type = .string)
    {cell : RCell} {mark : Encoding} {value : Value}
    (hstring : cell.sexptype = some .strsxp)
    (hlimits : StringLimits cell)
    (hsound : SoundText t (cell, mark))
    (hvalue : textValue t (cell, mark) = .ok value) :
    Packs t options s (cell, mark) value := by
  obtain ⟨hphysical, hkind, -, -⟩ := planSpec_schemaLeaf options s
  rw [htype] at hphysical hkind
  cases cell with
  | str bytes =>
      simp only [textValue, bind_eq_ok_iff, pure_eq_ok, Except.ok.injEq]
        at hvalue
      obtain ⟨text, htext, rfl⟩ := hvalue
      obtain ⟨hvalid, hlength⟩ := hsound bytes text rfl htext
      have hfits : (cString text).length < 2 ^ 31 := by
        refine lt_of_le_of_lt (List.takeWhile_sublist _).length_le ?_
        by_cases hsame : text = bytes
        · rw [hsame]
          exact (hlimits bytes rfl).2
        · exact hlength hsame
      have hpack : packValue t s.type mark (.str bytes) =
          .ok (some (.byteArray (cString text))) := by
        rw [htype]
        change packString t mark bytes = _
        rw [packString, htext, ok_bind, if_pos hfits]
        rfl
      have hclean : ¬ TextFault (cString text) :=
        not_or.mpr ⟨nul_not_mem_cString text, not_not.mpr hvalid⟩
      have hread : valueCell (planSpec options s.schemaLeaf)
          (.byteArray (cString text)) = some (.str (cString text)) := by
        simp [valueCell, hkind, WriteType.kind, hclean]
      exact ⟨_, hpack, carries_some _ (by rintro ⟨⟩) hphysical.symm
        planSpec_type_ne_fixed hread rfl⟩
  | strNA =>
      cases hvalue
      exact packs_missing (by rw [htype]; rfl)
  | _ =>
      cases hstring

end Elements

section Prepared

variable {platform : Platform} {t : Translator} {x : InputColumn}
variable {s : WriteSpec} {vector : RVector} {values : List Value}

/-- A fact about every element of a vector is one about every entry. -/
theorem forall₂_entries {α : Type}
    {zs : List α} {column : WriteColumn} {R : RCell × Encoding → Value → Prop}
    (f : α → RCell) (g : α → Value)
    (hcells : column.vector.cells = zs.map f)
    (h : ∀ z ∈ zs, ∀ mark, R (f z, mark) (g z)) :
    List.Forall₂ R column.entries (zs.map g) := by
  rw [List.forall₂_iff_get]
  refine ⟨by simp [hcells], fun i hi hi' => ?_⟩
  have hlt : i < zs.length := by
    simpa using hi'
  simpa [WriteColumn.entries, hcells] using
    h zs[i] (List.getElem_mem hlt) (column.marks.getD i .native)

theorem WriteColumn.fst_mem
    {column : WriteColumn} {entry : RCell × Encoding}
    (hentry : entry ∈ column.entries) :
    entry.1 ∈ column.vector.cells := by
  obtain ⟨⟨cell, i⟩, hcell, rfl⟩ := List.mem_map.mp hentry
  exact List.fst_mem_of_mem_zipIdx hcell

theorem levelOf_ok
    {levels : List RCell} {code level : RCell}
    (h : levelOf levels code = .ok level) :
    level = .strNA ∨ level ∈ levels := by
  unfold levelOf at h
  split at h
  · split_ifs at h
    · exact .inl (Except.ok.inj h).symm
    · split at h
      · rename_i found hfound
        cases h
        exact .inr (List.mem_of_getElem? hfound)
      · cases h
  · cases h

/-- The strings of a column accepted as STRING. -/
theorem prepared_strings
    (htype : s.type = .string)
    (hprepare : prepareWriteColumn platform x s = .ok vector) :
    asCharacter x = .ok vector ∧
      ∀ cell ∈ vector.cells,
        cell.sexptype = some .strsxp ∧ StringLimits cell := by
  simp only [prepareWriteColumn, htype, bind_eq_ok_iff] at hprepare
  obtain ⟨text, htext, hcheck⟩ := hprepare
  split_ifs at hcheck with hstring
  cases hcheck
  refine ⟨htext, fun cell hcell => ?_⟩
  unfold asCharacter at htext
  split at htext
  · rename_i levels marks hclass
    simp only [bind_eq_ok_iff, pure_eq_ok, Except.ok.injEq] at htext
    obtain ⟨cells, hcells, rfl⟩ := htext
    obtain ⟨code, -, hlevel⟩ := mem_of_mapM_ok hcells cell hcell
    rcases levelOf_ok hlevel with rfl | hmem
    · exact ⟨rfl, nofun⟩
    · exact x.levels levels marks hclass cell hmem
  · cases htext
    rw [not_not] at hstring
    exact ⟨hstring ▸ x.elements cell hcell, x.strings cell hcell⟩

/-- The numbers of a column accepted as one of integers. -/
theorem accepted_integers
    {min max : ℤ} {store : List RDouble → RVector}
    (hprepare : (do
      let value ← doublesWithoutNaN platform x s
      validateIntegral value s.name min max
      return store value) = .ok vector)
    (hvalues : (do
      let numbers ← asDoubles platform x
      return numbers.map numberValue) = .ok values) :
    ∃ numbers, vector = store numbers ∧ values = numbers.map numberValue ∧
      ∀ d ∈ numbers, IntegerWithin min max d := by
  simp only [bind_eq_ok_iff, pure_eq_ok, Except.ok.injEq] at hprepare hvalues
  obtain ⟨numbers, hnumbers, _, hvalid, rfl⟩ := hprepare
  obtain ⟨hdoubles, hintegers⟩ := integers_of_checks hnumbers hvalid
  obtain ⟨numbers', hdoubles', rfl⟩ := hvalues
  obtain rfl := Except.ok.inj (hdoubles.symm.trans hdoubles')
  exact ⟨numbers, rfl, rfl, hintegers⟩

/-- Every element of an accepted column is packed into a slot that carries its
value. -/
theorem prepared_packs
    (hprepare : prepareWriteColumn platform x s = .ok vector)
    (hvalues : originalValues platform t x s = .ok values)
    (htrips : s.type.roundTrips = true)
    (hrestorable : Restorable t x s vector values)
    (options : ReadOptions) :
    List.Forall₂ (Packs t options s) (writeColumn x s vector).entries
      values := by
  cases htype : s.type with
  | string =>
      obtain ⟨htext, hstrings⟩ := prepared_strings htype hprepare
      simp only [originalValues, htype, htext, ok_bind] at hvalues
      simp only [Restorable, htype] at hrestorable
      have hentries : ∀ entry ∈ (writeColumn x s vector).entries,
          (entry.1.sexptype = some .strsxp ∧ StringLimits entry.1) ∧
            SoundText t entry :=
        fun entry hentry => ⟨hstrings _ (WriteColumn.fst_mem hentry),
          hrestorable entry hentry⟩
      refine ((List.forall₂_and_left _ _).mpr
        ⟨hentries, forall₂_of_mapM_ok hvalues⟩).imp ?_
      rintro ⟨cell, mark⟩ value ⟨⟨⟨hstring, hlimits⟩, hsound⟩, hvalue⟩
      exact packs_text htype hstring hlimits hsound hvalue
  | boolean =>
      simp only [prepareWriteColumn, htype] at hprepare
      simp only [originalValues, htype] at hvalues
      split_ifs at hprepare with hlogical
      cases hprepare
      cases hvalues
      rw [not_not] at hlogical
      exact forall₂_entries id logicalValue (List.map_id _).symm
        fun cell hcell mark =>
          packs_logical htype (hlogical ▸ x.elements cell hcell) mark
  | int32 =>
      simp only [prepareWriteColumn, htype] at hprepare
      simp only [originalValues, htype] at hvalues
      simp only [Restorable, htype] at hrestorable
      split_ifs at hprepare
      obtain ⟨numbers, rfl, rfl, hintegers⟩ :=
        accepted_integers (by exact_mod_cast hprepare) hvalues
      exact forall₂_entries (fun d => .int (asInteger d)) numberValue rfl
        fun d hd mark => packs_int32 htype (hintegers d hd)
          (fun h => hrestorable (h ▸ List.mem_map_of_mem hd)) mark
  | date =>
      simp only [prepareWriteColumn, htype] at hprepare
      simp only [originalValues, htype] at hvalues
      simp only [Restorable, htype] at hrestorable
      split_ifs at hprepare
      obtain ⟨numbers, rfl, rfl, hintegers⟩ :=
        accepted_integers (by exact_mod_cast hprepare) hvalues
      exact forall₂_entries .dbl numberValue rfl
        fun d hd mark => packs_date htype (hintegers d hd)
          (fun h => hrestorable (h ▸ List.mem_map_of_mem hd)) mark
  | int64 =>
      simp only [prepareWriteColumn, htype] at hprepare
      simp only [originalValues, htype] at hvalues
      split_ifs at hprepare
      obtain ⟨numbers, rfl, rfl, hintegers⟩ :=
        accepted_integers (by exact_mod_cast hprepare) hvalues
      exact forall₂_entries .dbl numberValue rfl
        fun d hd mark => packs_int64 htype (hintegers d hd) mark
  | double =>
      simp only [prepareWriteColumn, htype] at hprepare
      simp only [originalValues, htype] at hvalues
      split_ifs at hprepare
      simp only [bind_eq_ok_iff, pure_eq_ok, Except.ok.injEq]
        at hprepare hvalues
      obtain ⟨numbers, hnumbers, rfl⟩ := hprepare
      obtain ⟨numbers', hnumbers', rfl⟩ := hvalues
      obtain rfl := Except.ok.inj (hnumbers.symm.trans hnumbers')
      exact forall₂_entries .dbl numberValue rfl
        fun d _ mark => packs_double htype d mark
  | float =>
      rw [htype] at htrips
      cases htrips
  | timestamp unit =>
      rw [htype] at htrips
      cases htrips

end Prepared

section Reading

variable {c : ColumnSpec} {values : List Value}
variable {slots : List (Option (PhysValue Bytes))}

/-- A column read batch after batch. -/
def scatterBatches (c : ColumnSpec) :
    List DenseBatch → Flags → Except ReadError (List RCell × Flags)
  | [], flags => .ok ([], flags)
  | b :: rest, flags => do
      let (cells, flags) ← scatterDenseColumn c b flags
      let (more, flags) ← scatterBatches c rest flags
      return (cells ++ more, flags)

/-- However the rows are cut into batches, reading them gives their elements. -/
theorem scatterBatches_complete
    (hsupported : c.Supported)
    (huuid : c.kind ≠ .uuid)
    {dense : List DenseBatch} {parts : List (List Row)}
    (hdense : List.Forall₂ (fun b rows => b.Delivers c rows) dense parts)
    (hfits : ∀ row ∈ parts.flatten, row.Fits c)
    {cells : List RCell}
    (hcells : nativeCells c parts.flatten = some cells)
    (flags : Flags) :
    ∃ flags', scatterBatches c dense flags = .ok (cells, flags') := by
  induction hdense generalizing cells flags with
  | nil =>
      cases hcells
      exact ⟨flags, rfl⟩
  | @cons b rows dense parts hb hdense ih =>
      rw [List.flatten_cons] at hfits hcells
      obtain ⟨first, more, hfirst, hmore, rfl⟩ := nativeCells_of_append hcells
      obtain ⟨flags', hrest⟩ :=
        ih (fun row hrow => hfits row (List.mem_append_right _ hrow)) hmore
          (flags.or (rowFlags c (rowValues rows)))
      refine ⟨flags', ?_⟩
      rw [scatterBatches, scatterDenseColumn_complete hsupported huuid
        (fun row hrow => hfits row (List.mem_append_left _ hrow)) hb hfirst]
      simp only [ok_bind, hrest]
      rfl

/-- The rows of slots that carry values are read as the values. -/
theorem nativeCells_of_carries
    (hcarries : List.Forall₂ (Carries c) values slots) :
    ∃ cells, nativeCells c (slots.map slotRow) = some cells ∧
      cells.map cellValue = values.map some := by
  induction hcarries with
  | nil =>
      exact ⟨[], rfl, rfl⟩
  | @cons value slot values slots hcarry hcarries ih =>
      obtain ⟨cells, hcells, hvalues⟩ := ih
      obtain ⟨cell, hcell, hvalue⟩ := hcarry.read
      have hrow : nativeCells c [slotRow slot] = some [cell] := by
        cases slot <;>
          simp [nativeCells, rowValues, slotRow, Row.value, hcell]
      exact ⟨cell :: cells, nativeCells_append hrow hcells, by
        rw [List.map_cons, List.map_cons, hvalue, hvalues]⟩

/-- A column that may have missing rows, or has none, holds the rows. -/
theorem fits_of_carries
    (hcarries : List.Forall₂ (Carries c) values slots)
    (hpresent : 0 < c.maxDef ∨ .missing ∉ values) :
    ∀ row ∈ slots.map slotRow, row.Fits c := by
  induction hcarries with
  | nil =>
      simp
  | @cons value slot values slots hcarry hcarries ih =>
      rw [List.map_cons, List.forall_mem_cons]
      refine ⟨?_, ih (hpresent.imp_right fun h =>
        fun hmem => h (List.mem_cons_of_mem _ hmem))⟩
      cases slot with
      | none =>
          have hmissing := hcarry.none_iff.mp rfl
          exact hpresent.resolve_right fun h =>
            h (List.mem_cons.mpr (.inl hmissing.symm))
      | some v =>
          obtain ⟨htype, hfixed⟩ := hcarry.typed v rfl
          exact ⟨htype, fun bytes hbytes => absurd hbytes (hfixed bytes)⟩

theorem exists_slots_of_packs
    {t : Translator} {options : ReadOptions} {s : WriteSpec}
    {entries : List (RCell × Encoding)}
    (hpacks : List.Forall₂ (Packs t options s) entries values) :
    ∃ slots,
      entries.mapM (fun entry => packValue t s.type entry.2 entry.1) =
        .ok slots ∧
      List.Forall₂ (Carries (planSpec options s.schemaLeaf)) values slots := by
  induction hpacks with
  | nil =>
      exact ⟨[], rfl, .nil⟩
  | cons hpack hpacks ih =>
      obtain ⟨slot, hslot, hcarry⟩ := hpack
      obtain ⟨slots, hslots, hcarries⟩ := ih
      exact ⟨slot :: slots, by simp [List.mapM_cons, hslot, hslots],
        .cons hcarry hcarries⟩

theorem all_isSome_of_carries
    (hcarries : List.Forall₂ (Carries c) values slots)
    (hpresent : .missing ∉ values) :
    slots.all Option.isSome = true := by
  induction hcarries with
  | nil =>
      rfl
  | @cons value slot values slots hcarry hcarries ih =>
      rw [List.mem_cons, not_or] at hpresent
      have hsome : slot.isSome = true := by
        rw [Option.isSome_iff_ne_none, Ne, hcarry.none_iff]
        exact fun h => hpresent.1 h.symm
      rw [List.all_cons, hsome, ih hpresent.2]
      rfl

end Reading

section Required

variable {t : Translator} {index : Nat} {column : WriteColumn}

theorem packValue_null
    {type : WriteType} {mark : Encoding} {cell : RCell}
    {slot : Option (PhysValue Bytes)}
    (hnull : isNull cell = true)
    (h : packValue t type mark cell = .ok slot) :
    slot = none := by
  rcases isNull_cases hnull with rfl | rfl | rfl | rfl <;>
    cases type <;> cases h <;> rfl

/-- A chunk of a REQUIRED column with a missing row is not handed on. -/
theorem packChunk_null
    (hrequired : column.spec.nullable = false)
    {slice : Nat × Nat} {r : Nat} {cell : RCell}
    (hcell : column.vector.cells[r]? = some cell)
    (hnull : isNull cell = true)
    (hmin : slice.1 ≤ r)
    (hmax : r < slice.1 + slice.2) :
    ∃ e, packChunk t index column slice = .error e := by
  rw [packChunk, packLoop_eq]
  cases hslots : ((column.entries.drop slice.1).take slice.2).mapM
      fun entry => packValue t column.spec.type entry.2 entry.1 with
  | error e =>
      exact ⟨e, rfl⟩
  | ok slots =>
      have hentry : ((column.entries.drop slice.1).take slice.2)[r - slice.1]? =
          some (cell, column.marks.getD r .native) := by
        rw [List.getElem?_take_of_lt (by omega), List.getElem?_drop,
          Nat.add_sub_cancel' hmin]
        simp [WriteColumn.entries, hcell]
      obtain ⟨slot, hslot, hpack⟩ := getElem?_of_mapM_ok hslots hentry
      obtain rfl := packValue_null hnull hpack
      have hlen := (forall₂_of_mapM_ok hslots).length_eq
      have hshort : slots.reduceOption.length ≠ slice.2 := by
        intro heq
        have hle := List.reduceOption_length_le slots
        have hall := length_reduceOption_eq_iff.mp
          (show slots.reduceOption.length = slots.length by
            simp only [List.length_take] at hlen
            omega)
        have := List.all_eq_true.mp hall _ (List.mem_of_getElem? hslot)
        cases this
      refine ⟨.requiredColumn index, ?_⟩
      simp [hrequired, hshort]

/-- The rows of some chunks. -/
def chunkRowIndexes (nrow : Nat) (slice : Nat × Nat) : List Nat :=
  ((List.range nrow).drop slice.1).take slice.2

theorem flatMap_chunkRowIndexes
    (rowGroupRows nrow : Nat) :
    (columnSlices rowGroupRows nrow).flatMap (chunkRowIndexes nrow) =
      List.range nrow := by
  have h := flatMap_columnSlices rowGroupRows (List.range nrow)
  rwa [List.length_range] at h

theorem length_flatMap_take
    (rowGroupRows nrow k : Nat) :
    (((columnSlices rowGroupRows nrow).take k).flatMap
        (chunkRowIndexes nrow)).length =
      (((columnSlices rowGroupRows nrow).take k).map Prod.snd).sum := by
  rw [List.length_flatMap]
  congr 1
  refine List.map_congr_left fun slice hslice => ?_
  have := mem_columnSlices (List.take_subset _ _ hslice)
  simp only [chunkRowIndexes, List.length_take, List.length_drop,
    List.length_range]
  omega

theorem sum_columnSlices
    (rowGroupRows nrow : Nat) :
    ((columnSlices rowGroupRows nrow).map Prod.snd).sum = nrow := by
  have h := length_flatMap_take rowGroupRows nrow
    (columnSlices rowGroupRows nrow).length
  rw [List.take_length, flatMap_chunkRowIndexes, List.length_range] at h
  exact h.symm

/-- The first chunks hold the first rows. -/
theorem exists_slice_of_lt
    {rowGroupRows nrow k r : Nat}
    (hr : r < (((columnSlices rowGroupRows nrow).take k).map Prod.snd).sum) :
    ∃ slice ∈ (columnSlices rowGroupRows nrow).take k,
      slice.1 ≤ r ∧ r < slice.1 + slice.2 := by
  have hinitial : ((columnSlices rowGroupRows nrow).take k).flatMap
      (chunkRowIndexes nrow) <+: List.range nrow := by
    rw [← flatMap_chunkRowIndexes rowGroupRows nrow]
    exact (List.take_prefix _ _).flatMap _
  have hget := hinitial.getElem (length_flatMap_take _ _ k ▸ hr)
  rw [List.getElem_range] at hget
  obtain ⟨slice, hslice, hrow⟩ := List.mem_flatMap.mp (List.getElem_mem _)
  rw [hget] at hrow
  obtain ⟨i, hi, hget⟩ := List.mem_iff_getElem.mp hrow
  simp only [chunkRowIndexes, List.length_take, List.length_drop,
    List.length_range, List.getElem_take, List.getElem_drop,
    List.getElem_range] at hi hget
  exact ⟨slice, hslice, by omega, by omega⟩

theorem packChunk_count
    {slice : Nat × Nat} {b : Batch}
    (h : packChunk t index column slice = .ok b) :
    b.count = slice.2 := by
  simp only [packChunk, bind_eq_ok_iff] at h
  obtain ⟨⟨values, levels⟩, -, h⟩ := h
  dsimp only at h
  split_ifs at h <;> cases h <;> rfl

/-- A REQUIRED column with a missing row: packing stops with an error, at the
latest in the chunk with the row. -/
theorem packColumn_null
    (hrequired : column.spec.nullable = false)
    {r : Nat} {cell : RCell}
    (hcell : column.vector.cells[r]? = some cell)
    (hnull : isNull cell = true)
    (rowGroupRows : Nat) :
    (∃ e, (untilError (packColumn t index column rowGroupRows)).2 = some e) ∧
      ((untilError (packColumn t index column rowGroupRows)).1.map
        Batch.count).sum ≤ r := by
  have hr : r < column.vector.cells.length :=
    (List.getElem?_eq_some_iff.mp hcell).1
  constructor
  · rw [← sum_columnSlices rowGroupRows column.vector.cells.length,
      ← List.take_length (l := columnSlices _ _)] at hr
    obtain ⟨slice, hslice, hmin, hmax⟩ := exists_slice_of_lt hr
    rw [List.take_length] at hslice
    obtain ⟨e, he⟩ := packChunk_null hrequired hcell hnull hmin hmax
    exact untilError_fails (e := e)
      (List.mem_map.mpr ⟨slice, hslice, he⟩)
  · have hinitial := List.prefix_iff_eq_take.mp
      (untilError_initial (packColumn t index column rowGroupRows))
    rw [List.length_map, packColumn, ← List.map_take] at hinitial
    have hbatches := List.forall₂_map_right_iff.mp
      (List.forall₂_map_left_iff.mp (List.forall₂_eq_eq_eq ▸ hinitial))
    have hcounts := hbatches.imp fun _ _ h => packChunk_count h.symm
    rw [← List.forall₂_map_right_iff, ← List.forall₂_map_left_iff,
      List.forall₂_eq_eq_eq] at hcounts
    by_contra hlt
    rw [packColumn, hcounts, not_le] at hlt
    obtain ⟨slice, hslice, hmin, hmax⟩ := exists_slice_of_lt hlt
    obtain ⟨e, he⟩ := packChunk_null hrequired hcell hnull hmin hmax
    have hmem : packChunk t index column slice ∈ List.map _ _ :=
      List.mem_map_of_mem hslice
    rw [← hinitial, he] at hmem
    obtain ⟨b, -, hb⟩ := List.mem_map.mp hmem
    cases hb

end Required

section Main

/-- However the rows of the batches are cut again, reading them gives the
values. -/
def ReadsBack
    (c : ColumnSpec) (batches : List Batch) (values : List Value) : Prop :=
  ∀ (dense : List DenseBatch) (parts : List (List Row)),
    parts.flatten = batches.flatMap Batch.rows →
    List.Forall₂ (fun b rows => b.Delivers c rows) dense parts →
    ∀ flags, ∃ cells flags',
      scatterBatches c dense flags = .ok (cells, flags') ∧
        cells.map cellValue = values.map some

/-- A column that carries its values is packed into batches that are read as the
values. -/
theorem packed_reads
    {t : Translator} {column : WriteColumn} {values : List Value}
    {options : ReadOptions}
    (hpacks : List.Forall₂ (Packs t options column.spec) column.entries values)
    (hpresent : column.spec.nullable = true ∨ .missing ∉ values)
    (index rowGroupRows : Nat) :
    ∃ batches : List Batch,
      packColumn t index column rowGroupRows = batches.map .ok ∧
        ReadsBack (planSpec options column.spec.schemaLeaf) batches
          values := by
  obtain ⟨slots, hslots, hcarries⟩ := exists_slots_of_packs hpacks
  have hall : column.spec.nullable = true ∨
      slots.all Option.isSome = true :=
    hpresent.imp_right (all_isSome_of_carries hcarries)
  refine ⟨_, packColumn_ok hslots hall rowGroupRows, ?_⟩
  intro dense parts hparts hdense flags
  rw [flatMap_rows_sliceBatch _ hall] at hparts
  obtain ⟨-, hkind, -, hmaxDef⟩ := planSpec_schemaLeaf options column.spec
  have huuid : (planSpec options column.spec.schemaLeaf).kind ≠ .uuid := by
    rw [hkind]
    cases column.spec.type <;> exact nofun
  obtain ⟨cells, hcells, hvalues⟩ := nativeCells_of_carries hcarries
  have hfits := fits_of_carries hcarries (hpresent.imp_left fun h => by
    rw [hmaxDef, if_pos h]
    exact Nat.one_pos)
  rw [← hparts] at hcells hfits
  obtain ⟨flags', hscatter⟩ := scatterBatches_complete
    (planSpec_supported options column.spec) huuid hdense hfits hcells flags
  exact ⟨cells, flags', hscatter, hvalues⟩

/-- Writing a column and reading it back. Every element of an accepted column is
packed, with every conversion in range, and reading the batches gives the values
back, however row groups and read batches cut the column. A REQUIRED column with
a missing value is refused while it is prepared, and the packing loop by itself
would hand on only chunks that end before the row. -/
theorem write_read_round_trip
    {platform : Platform} {x : InputColumn} {s : WriteSpec} {vector : RVector}
    (t : Translator)
    (hprepare : prepareWriteColumn platform x s = .ok vector)
    (index rowGroupRows : Nat) :
    (∀ values, originalValues platform t x s = .ok values →
      s.type.roundTrips = true →
      Restorable t x s vector values →
      (∀ entry ∈ (writeColumn x s vector).entries,
        ∃ slot, packValue t s.type entry.2 entry.1 = .ok slot) ∧
      (s.nullable = true ∨ .missing ∉ values →
        ∀ options, ∃ batches : List Batch,
          packColumn t index (writeColumn x s vector) rowGroupRows =
            batches.map .ok ∧
          ReadsBack (planSpec options s.schemaLeaf) batches values)) ∧
    (s.nullable = false → hasNull vector = true →
      prepareRequired platform x s = .error (.requiredMissing s.name) ∧
      ∃ (batches : List Batch) (e : WriteError),
        untilError (packColumn t index (writeColumn x s vector)
          rowGroupRows) = (batches, some e) ∧
        ∀ r cell, vector.cells[r]? = some cell → isNull cell = true →
          (batches.map Batch.count).sum ≤ r) := by
  refine ⟨fun values hvalues htrips hrestorable => ⟨?_, ?_⟩, ?_⟩
  · intro entry hentry
    have hpacks := prepared_packs hprepare hvalues htrips hrestorable
      ⟨.double, .numeric, ""⟩
    obtain ⟨slots, hslots, -⟩ := exists_slots_of_packs hpacks
    obtain ⟨i, hi⟩ := List.mem_iff_getElem?.mp hentry
    obtain ⟨slot, -, hslot⟩ := getElem?_of_mapM_ok hslots hi
    exact ⟨slot, hslot⟩
  · intro hpresent options
    have hpacks := prepared_packs hprepare hvalues htrips hrestorable options
    exact @packed_reads t (writeColumn x s vector) values options hpacks
      hpresent index rowGroupRows
  · intro hrequired hnull
    obtain ⟨cell, hcell, hisNull⟩ := List.any_eq_true.mp hnull
    obtain ⟨r, hr⟩ := List.mem_iff_getElem?.mp hcell
    have hstops {r : Nat} {cell : RCell} (hcell : vector.cells[r]? = some cell)
        (hisNull : isNull cell = true) :=
      @packColumn_null t index (writeColumn x s vector) hrequired r cell hcell
        hisNull rowGroupRows
    obtain ⟨e, he⟩ := (hstops hr hisNull).1
    refine ⟨?_, _, e, Prod.ext rfl he, fun r cell hcell hisNull =>
      (hstops hcell hisNull).2⟩
    rw [prepareRequired, hprepare, ok_bind,
      if_pos ⟨by simp [hrequired], hnull⟩]

/-- A translator that leaves every string it takes as it is. -/
def plainTranslator : Translator where
  translate mark bytes :=
    if mark = .bytes then .error .translation else .ok bytes
  ascii _ := rfl
  utf8 _ := rfl
  bytes _ := rfl

/-- The strings `é` and `NA`. -/
def accentColumn : InputColumn where
  vector := ⟨.strsxp, [.str [0xC3, 0xA9], .strNA]⟩
  marks := [.utf8, .native]
  rclass := .none
  elements := by simp [RCell.sexptype]
  strings := by simp [StringLimits]
  levels := no_levels

def textSpec (nullable : Bool) : WriteSpec := ⟨"x", .string, nullable⟩

theorem write_read_round_trip_accent :
    prepareWriteColumn exactPlatform accentColumn (textSpec true) =
        .ok accentColumn.vector ∧
      originalValues exactPlatform plainTranslator accentColumn
        (textSpec true) = .ok [.text [0xC3, 0xA9], .missing] ∧
      ∃ batches : List Batch,
        packColumn plainTranslator 0
            (writeColumn accentColumn (textSpec true) accentColumn.vector) 1 =
          batches.map .ok ∧
        ReadsBack (planSpec utcOptions (textSpec true).schemaLeaf) batches
          [.text [0xC3, 0xA9], .missing] := by
  refine ⟨rfl, rfl, ?_⟩
  have hround := @write_read_round_trip exactPlatform accentColumn
    (textSpec true) _ plainTranslator rfl 0 1
  refine (hround.1 [.text [0xC3, 0xA9], .missing] rfl rfl ?_).2 (.inl rfl)
    utcOptions
  intro entry hentry bytes text hbytes htext
  have hentries : entry ∈
      [(.str [0xC3, 0xA9], Encoding.utf8), (.strNA, .native)] := hentry
  simp only [List.mem_cons, List.not_mem_nil, or_false] at hentries
  rcases hentries with rfl | rfl
  · cases hbytes
    cases htext
    exact ⟨by decide, fun h => absurd rfl h⟩
  · cases hbytes

end Main

end Write
end QioParquet
