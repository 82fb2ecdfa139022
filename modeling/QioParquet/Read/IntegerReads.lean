import QioParquet.Read.Agreement
import Mathlib.Tactic

/-!
# Integer columns

What a collect makes of INT32 and INT64 columns that are read as integers: a
row is missing exactly if it is null or its number has no place in the result,
every other row holds its number exactly, and the column is flagged exactly if
some present number was lost.
-/

namespace QioParquet
namespace Read

section Numbers

/-- An INT32 column of any kind but raw bytes and UUID, or an INT64 column of
kind INT64. -/
def ColumnSpec.IsInteger (c : ColumnSpec) : Prop :=
  (c.type = .int32 ∧ c.kind ≠ .uuid ∧ c.kind ≠ .binary) ∨
    (c.type = .int64 ∧ c.kind = .int64)

/-- Whether the column's numbers are unsigned. -/
def ColumnSpec.isUnsigned (c : ColumnSpec) : Bool :=
  if c.type = .int32 then c.kind == .uint32 else c.unsigned64

/-- The number a stored integer stands for. -/
def storedNumber (c : ColumnSpec) : PhysValue Bytes → ℤ
  | .int32 word => if c.isUnsigned then word.toNat else word.toInt
  | .int64 word => if c.isUnsigned then word.toNat else word.toInt
  | _ => 0

/-- The numbers the R vector of the column has a place for. -/
def HasPlace (c : ColumnSpec) (z : ℤ) : Prop :=
  if c.type = .int32 then
    c.isUnsigned ∨ z ≠ -2 ^ 31
  else
    match c.int64Option with
    | .double => -2 ^ 53 ≤ z ∧ z ≤ 2 ^ 53
    | .bit64 => z ≠ -2 ^ 63 ∧ z ≤ 2 ^ 63 - 1

/-- A missing element of a numeric vector. -/
def RCell.IsMissing : RCell → Prop
  | .int word => word = naInteger
  | .dbl value => value = .na
  | .bits word => word = BitVec.intMin 64
  | _ => False

/-- An element that holds a number. -/
def RCell.Holds (z : ℤ) : RCell → Prop
  | .int word => word ≠ naInteger ∧ word.toInt = z
  | .dbl value => value = .num z
  | .bits word => word ≠ BitVec.intMin 64 ∧ word.toInt = z
  | _ => False

theorem RCell.Holds.not_missing
    {z : ℤ} {cell : RCell}
    (h : cell.Holds z) :
    ¬ cell.IsMissing := by
  cases cell with
  | int word =>
      exact h.1
  | dbl value =>
      obtain rfl : value = .num z := h
      intro hna
      cases hna
  | bits word =>
      exact h.1
  | _ =>
      exact h.elim

theorem RCell.Holds.unique
    {z z' : ℤ} {cell : RCell}
    (h : cell.Holds z)
    (h' : cell.Holds z') :
    z = z' := by
  cases cell with
  | int word =>
      exact h.2.symm.trans h'.2
  | dbl value =>
      obtain rfl : value = .num z := h
      have hnum : (z : ℚ) = z' := by
        simpa [RCell.Holds] using h'
      exact_mod_cast hnum
  | bits word =>
      exact h.2.symm.trans h'.2
  | _ =>
      exact h.elim

end Numbers

section Values

/-- What becomes of one present value: it holds its number or is lost, and a
lost value raises the flag of its type. -/
structure PlacedInteger
    (c : ColumnSpec) (v : PhysValue Bytes) (cell : RCell) : Prop where
  holds : HasPlace c (storedNumber c v) → cell.Holds (storedNumber c v)
  lost : ¬ HasPlace c (storedNumber c v) → cell.IsMissing
  sentinel : isSentinel c v = true ↔
    c.type = .int32 ∧ ¬ HasPlace c (storedNumber c v)
  coerced : isCoerced c v = true ↔
    c.type = .int64 ∧ ¬ HasPlace c (storedNumber c v)

theorem toInt_eq_intMin_iff {w : Nat} (hw : 0 < w) (word : BitVec w) :
    word.toInt = -2 ^ (w - 1) ↔ word = BitVec.intMin w := by
  constructor
  · intro h
    apply BitVec.eq_of_toInt_eq
    rw [h, BitVec.toInt_intMin_of_pos hw]
  · rintro rfl
    exact BitVec.toInt_intMin_of_pos hw

theorem int32_placed
    {c : ColumnSpec}
    (htype : c.type = .int32)
    (huuid : c.kind ≠ .uuid)
    (hbinary : c.kind ≠ .binary)
    (word : BitVec 32) :
    ∃ cell, valueCell c (.int32 word) = some cell ∧
      PlacedInteger c (.int32 word) cell := by
  by_cases hkind : c.kind = .uint32
  · have hunsigned : c.isUnsigned = true := by
      simp [ColumnSpec.isUnsigned, htype, hkind]
    have hplace : HasPlace c (storedNumber c (.int32 word)) := by
      simp [HasPlace, htype, hunsigned]
    refine ⟨.dbl (intToDouble word.toNat), by simp [valueCell, hkind],
      fun _ => ?_, fun hno => absurd hplace hno, ?_, ?_⟩
    · have hlt := word.isLt
      rw [intToDouble_natCast (by omega)]
      simp [RCell.Holds, storedNumber, hunsigned]
    · simp [isSentinel, hkind, hplace]
    · simp [isCoerced, hkind, htype]
  · have hunsigned : c.isUnsigned = false := by
      simp [ColumnSpec.isUnsigned, htype, hkind]
    have hnumber : storedNumber c (.int32 word) = word.toInt := by
      simp [storedNumber, hunsigned]
    have hplace : HasPlace c word.toInt ↔ word ≠ naInteger := by
      rw [naInteger, Ne, ← toInt_eq_intMin_iff (by norm_num)]
      simp [HasPlace, htype, hunsigned]
    refine ⟨.int word, ?_, ?_, ?_, ?_, ?_⟩
    · cases hk : c.kind <;> simp_all [valueCell]
    · rw [hnumber, hplace]
      exact fun hne => ⟨hne, rfl⟩
    · rw [hnumber, hplace, not_not]
      exact id
    · rw [hnumber, hplace, not_not]
      cases hk : c.kind <;> simp_all [isSentinel]
    · cases hk : c.kind <;> simp_all [isCoerced]

/-- What `placeInt64` leaves, of a number that may have no place. -/
structure PlacedNumber
    (z : ℤ) (place : Prop) (placed : RCell × Bool) : Prop where
  holds : place → placed.1.Holds z
  missing : ¬ place → placed.1.IsMissing
  lost : placed.2 = true ↔ ¬ place

theorem placed_double
    {z : ℤ} {place out : Prop} [Decidable out]
    (hplace : place ↔ ¬ out)
    (hexact : ¬ out → |z| ≤ 2 ^ 53) :
    PlacedNumber z place
      (if out then (.dbl .na, true) else (.dbl (intToDouble z), false)) := by
  split_ifs with h
  · refine ⟨fun hp => absurd h (hplace.mp hp), fun _ => rfl, ?_⟩
    simp [hplace, h]
  · refine ⟨fun _ => intToDouble_exact (hexact h), ?_, ?_⟩
    · exact fun hp => absurd (hplace.mpr h) hp
    · simp [hplace, h]

theorem placed_bits
    {z : ℤ} {place out : Prop} [Decidable out] {word sentinel : BitVec 64}
    (hplace : place ↔ ¬ out)
    (hsentinel : out → sentinel = BitVec.intMin 64)
    (hexact : ¬ out → word ≠ BitVec.intMin 64 ∧ word.toInt = z) :
    PlacedNumber z place
      (if out then (.bits sentinel, true) else (.bits word, false)) := by
  split_ifs with h
  · refine ⟨fun hp => absurd h (hplace.mp hp), fun _ => hsentinel h, ?_⟩
    simp [hplace, h]
  · refine ⟨fun _ => hexact h, ?_, ?_⟩
    · exact fun hp => absurd (hplace.mpr h) hp
    · simp [hplace, h]

/-- The four ways to place a 64-bit integer. -/
theorem placeInt64_placed
    {c : ColumnSpec}
    (htype : c.type = .int64)
    (word : BitVec 64) :
    PlacedNumber (storedNumber c (.int64 word))
      (HasPlace c (storedNumber c (.int64 word)))
      (placeInt64 word c.int64Option c.unsigned64) := by
  have hint32 : c.type ≠ .int32 := by
    rw [htype]
    exact PhysicalType.noConfusion
  have hmin := toInt_eq_intMin_iff (by norm_num) word
  have hlow := BitVec.le_toInt word
  have hhigh : word.toInt < 2 ^ 63 := BitVec.toInt_lt
  have hsigned := BitVec.toInt_eq_toNat_cond word
  cases hunsigned : c.unsigned64 with
  | true =>
      have hnumber : storedNumber c (.int64 word) = word.toNat := by
        simp [storedNumber, ColumnSpec.isUnsigned, hint32, hunsigned]
      rw [hnumber]
      cases hmode : c.int64Option with
      | double =>
          simp only [placeInt64, if_true]
          apply placed_double <;>
            simp only [HasPlace, hint32, hmode, if_false, doubleExactMax,
              abs_le] <;> omega
      | bit64 =>
          simp only [placeInt64, true_and, not_true, false_and, if_false]
          apply placed_bits
          · simp only [HasPlace, hint32, hmode, if_false]
            split at hsigned <;> omega
          · exact fun _ => rfl
          · intro h
            rw [Ne, ← hmin]
            split at hsigned <;> omega
  | false =>
      have hnumber : storedNumber c (.int64 word) = word.toInt := by
        simp [storedNumber, ColumnSpec.isUnsigned, hint32, hunsigned]
      rw [hnumber]
      cases hmode : c.int64Option with
      | double =>
          simp only [placeInt64, Bool.false_eq_true, if_false]
          apply placed_double <;>
            simp only [HasPlace, hint32, hmode, if_false, doubleExactMax,
              abs_le] <;> omega
      | bit64 =>
          simp only [placeInt64, Bool.false_eq_true, false_and, if_false,
            not_false_eq_true, true_and]
          apply placed_bits
          · rw [← hmin]
            simp only [HasPlace, hint32, hmode, if_false]
            omega
          · exact id
          · exact fun h => ⟨h, rfl⟩

theorem int64_placed
    {c : ColumnSpec}
    (htype : c.type = .int64)
    (hkind : c.kind = .int64)
    (word : BitVec 64) :
    ∃ cell, valueCell c (.int64 word) = some cell ∧
      PlacedInteger c (.int64 word) cell := by
  obtain ⟨hholds, hmissing, hlost⟩ := placeInt64_placed htype word
  refine ⟨(placeInt64 word c.int64Option c.unsigned64).1,
    by simp [valueCell, hkind], hholds, hmissing, ?_, ?_⟩
  · simp [isSentinel, hkind, htype]
  · simp [isCoerced, hkind, htype, hlost]

end Values

section Columns

/-- The element read for a row of an integer column. -/
structure ReadsInteger (c : ColumnSpec) (row : Row) (cell : RCell) :
    Prop where
  missing_iff : cell.IsMissing ↔
    row.value = none ∨
      ∃ v, row.value = some v ∧ ¬ HasPlace c (storedNumber c v)
  exact : ∀ v, row.value = some v → HasPlace c (storedNumber c v) →
    cell.Holds (storedNumber c v)
  nonneg : c.isUnsigned = true → ∀ z, cell.Holds z → 0 ≤ z

theorem storedNumber_nonneg
    {c : ColumnSpec}
    (h : c.isUnsigned = true)
    (v : PhysValue Bytes) :
    0 ≤ storedNumber c v := by
  cases v <;> simp [storedNumber, h]

theorem value_placed
    {c : ColumnSpec} {v : PhysValue Bytes}
    (hc : c.IsInteger)
    (htype : v.type = c.type) :
    ∃ cell, valueCell c v = some cell ∧ PlacedInteger c v cell := by
  rcases hc with ⟨hint32, huuid, hbinary⟩ | ⟨hint64, hkind⟩
  · rw [hint32] at htype
    cases v <;> cases htype
    exact int32_placed hint32 huuid hbinary _
  · rw [hint64] at htype
    cases v <;> cases htype
    exact int64_placed hint64 hkind _

theorem naCell_missing
    {c : ColumnSpec}
    (hc : c.IsInteger) :
    (naCell c).IsMissing := by
  rcases hc with ⟨hint32, huuid, hbinary⟩ | ⟨hint64, hkind⟩
  · cases hk : c.kind <;> simp_all [naCell, RCell.IsMissing]
  · cases hmode : c.int64Option <;>
      simp [naCell, hint64, hkind, hmode, placeInt64NA, RCell.IsMissing]

theorem nativeCell_integer
    {c : ColumnSpec} {row : Row} {cell : RCell}
    (hc : c.IsInteger)
    (hfits : row.Fits c)
    (hcell : nativeCell c row.value = some cell) :
    ReadsInteger c row cell := by
  cases row with
  | null level =>
      obtain rfl : naCell c = cell := Option.some.inj hcell
      have hmissing := naCell_missing hc
      refine ⟨by simp [Row.value, hmissing], ?_, ?_⟩
      · intro v hv
        cases hv
      · intro _ z hz
        exact absurd hmissing hz.not_missing
  | present v =>
      obtain ⟨cell', hvalue, hplaced⟩ := value_placed hc hfits.1
      obtain rfl : cell' = cell :=
        Option.some.inj (hvalue.symm.trans hcell)
      refine ⟨?_, ?_, ?_⟩
      · simp only [Row.value, reduceCtorEq, Option.some.injEq, false_or,
          exists_eq_left']
        constructor
        · exact fun hmissing hplace =>
            (hplaced.holds hplace).not_missing hmissing
        · exact hplaced.lost
      · intro w hw hplace
        cases hw
        exact hplaced.holds hplace
      · intro hunsigned z hz
        by_cases hplace : HasPlace c (storedNumber c v)
        · rw [hz.unique (hplaced.holds hplace)]
          exact storedNumber_nonneg hunsigned v
        · exact absurd (hplaced.lost hplace) hz.not_missing

theorem forall₂_nativeCells
    {c : ColumnSpec} {rows : List Row} {cells : List RCell}
    (h : nativeCells c rows = some cells) :
    List.Forall₂ (fun row cell => nativeCell c row.value = some cell)
      rows cells := by
  unfold nativeCells rowValues at h
  induction rows generalizing cells with
  | nil =>
      cases h
      exact .nil
  | cons row rows ih =>
      simp only [List.map_cons, List.mapM_cons, Option.bind_eq_bind,
        Option.bind_eq_some_iff, Option.pure_def, Option.some.injEq] at h
      obtain ⟨cell, hcell, tail, htail, rfl⟩ := h
      exact .cons hcell (ih htail)

/-- The warning a lost number of the column calls for. -/
def ColumnSpec.warning (c : ColumnSpec) : Warning :=
  if c.type = .int32 then .int32Sentinel else .int64Coerced

/-- The rows of an integer column call for its own warning, and for that
exactly if a present number is lost. -/
theorem warns_rowFlags_integer
    {c : ColumnSpec} {rows : List Row}
    (hc : c.IsInteger)
    (hfits : ∀ row ∈ rows, row.Fits c)
    (w : Warning) :
    (rowFlags c (rowValues rows)).warns w = true ↔
      w = c.warning ∧
        ∃ v, .present v ∈ rows ∧ ¬ HasPlace c (storedNumber c v) := by
  have hplaced (v : PhysValue Bytes) (hv : Row.present v ∈ rows) :
      ∃ cell, PlacedInteger c v cell := by
    obtain ⟨cell, -, h⟩ := value_placed hc (hfits _ hv).1
    exact ⟨cell, h⟩
  have hany (f : PhysValue Bytes → Bool) :
      (rowValues rows).any (fun row => row.any f) = true ↔
        ∃ v, Row.present v ∈ rows ∧ f v = true := by
    rw [rowValues, List.any_map, List.any_eq_true]
    constructor
    · rintro ⟨row, hrow, hf⟩
      cases row with
      | null level =>
          cases hf
      | present v =>
          exact ⟨v, hrow, hf⟩
    · rintro ⟨v, hv, hf⟩
      exact ⟨_, hv, hf⟩
  have htypes : c.type = .int32 ∨ c.type = .int64 :=
    hc.imp And.left And.left
  have hiff (type : PhysicalType) (f : PhysValue Bytes → Bool)
      (hf : ∀ v cell, PlacedInteger c v cell →
        (f v = true ↔ c.type = type ∧ ¬ HasPlace c (storedNumber c v))) :
      (∃ v, Row.present v ∈ rows ∧ f v = true) ↔
        c.type = type ∧
          ∃ v, .present v ∈ rows ∧ ¬ HasPlace c (storedNumber c v) := by
    constructor
    · rintro ⟨v, hv, hflag⟩
      obtain ⟨cell, hcell⟩ := hplaced v hv
      obtain ⟨htype, hlost⟩ := (hf v cell hcell).mp hflag
      exact ⟨htype, v, hv, hlost⟩
    · rintro ⟨htype, v, hv, hlost⟩
      obtain ⟨cell, hcell⟩ := hplaced v hv
      exact ⟨v, hv, (hf v cell hcell).mpr ⟨htype, hlost⟩⟩
  cases w with
  | int32Sentinel =>
      rw [Flags.warns, rowFlags, hany, hiff .int32 _ fun v cell h => h.sentinel]
      rcases htypes with htype | htype <;> simp [ColumnSpec.warning, htype]
  | int64Coerced =>
      rw [Flags.warns, rowFlags, hany, hiff .int64 _ fun v cell h => h.coerced]
      rcases htypes with htype | htype <;> simp [ColumnSpec.warning, htype]

end Columns

section Collected

/-- A collect that returns loses exactly what it reports of an integer column:
a row is missing if and only if it is null or its number has no place, every
other row holds its number, no unsigned row is negative, and the column's flag
is set if and only if a present number was lost. -/
theorem integer_reads_lose_what_they_report
    {file : ParquetFile} {ctx : CollectContext} {handle : Handle}
    {run : List Action} {r : ReadResult} {i : Nat} {s : SelectedColumn}
    (hctx : ctx.Reads file)
    (hdeliver : ColumnsDeliver ctx)
    (h : CollectRun ctx handle run (.ok r))
    (hs : ctx.selection.columns[i]? = some s)
    (hinteger : s.spec.IsInteger) :
    ∃ vector flags,
      r.frame.columns[i]? = some vector ∧
      r.flags[i]? = some flags ∧
      List.Forall₂ (ReadsInteger s.spec) (ctx.columnRows s) vector.cells ∧
      ∀ w, flags.warns w = true ↔
        w = s.spec.warning ∧
          ∃ v, .present v ∈ ctx.columnRows s ∧
            ¬ HasPlace s.spec (storedNumber s.spec v) := by
  have hfits : ∀ row ∈ ctx.columnRows s, row.Fits s.spec := by
    intro row hrow
    obtain ⟨entry, hentry, hrow⟩ := List.mem_flatMap.mp hrow
    rw [hctx.groups_eq] at hentry
    exact (hctx.valid.chunk hentry (List.mem_of_getElem? hs)).2 row hrow
  obtain ⟨sexptype, cells, -, hvector, hcells⟩ :=
    h.column_native hctx hdeliver hs
  refine ⟨_, _, hvector, h.column_flags hctx hdeliver hs, ?_, ?_⟩
  · rw [List.forall₂_iff_get]
    obtain ⟨hlength, hget⟩ := List.forall₂_iff_get.mp (forall₂_nativeCells hcells)
    refine ⟨hlength, ?_⟩
    intro p hp hp'
    exact nativeCell_integer hinteger (hfits _ (List.get_mem _ _))
      (hget p hp hp')
  · exact warns_rowFlags_integer hinteger hfits

/-- Both columns have nulls and lose a number, and both report it. -/
theorem integer_reads_lose_what_they_report_two_groups :
    ∃ run r x y xflags yflags,
      CollectRun gapContext mappedHandle run (.ok r) ∧
      r.frame.columns[0]? = some x ∧ r.flags[0]? = some xflags ∧
      List.Forall₂ (ReadsInteger ((gapLeaves[0]).column .default .double))
        [.present (.int32 5), .null 0, .present (.int32 0x80000000), .null 0,
          .present (.int32 7)] x.cells ∧
      xflags.warns .int32Sentinel = true ∧
      r.frame.columns[1]? = some y ∧ r.flags[1]? = some yflags ∧
      List.Forall₂ (ReadsInteger ((gapLeaves[1]).column .int64 .double))
        [.present (.int64 1), .present (.int64 0x20000000000001), .null 0,
          .present (.int64 4), .null 0] y.cells ∧
      yflags.warns .int64Coerced = true := by
  obtain ⟨run, r, hrun⟩ := gapContext_collect
  obtain ⟨x, xflags, hx, hxflags, hxcells, hxwarns⟩ :=
    integer_reads_lose_what_they_report (i := 0) gapContext_reads
      gapContext_columnsDeliver hrun rfl (Or.inl ⟨rfl, by decide, by decide⟩)
  obtain ⟨y, yflags, hy, hyflags, hycells, hywarns⟩ :=
    integer_reads_lose_what_they_report (i := 1) gapContext_reads
      gapContext_columnsDeliver hrun rfl (Or.inr ⟨rfl, rfl⟩)
  refine ⟨run, r, x, y, xflags, yflags, hrun, hx, hxflags, hxcells, ?_, hy, hyflags,
    hycells, ?_⟩
  · refine (hxwarns _).mpr ⟨rfl, .int32 0x80000000, ?_, ?_⟩
    · exact .tail _ (.tail _ (.head _))
    · rintro (hunsigned | hne)
      · cases hunsigned
      · exact hne rfl
  · refine (hywarns _).mpr ⟨rfl, .int64 0x20000000000001, ?_, ?_⟩
    · exact .tail _ (.head _)
    · rintro ⟨-, hle⟩
      exact absurd hle (by decide)

end Collected

end Read
end QioParquet
