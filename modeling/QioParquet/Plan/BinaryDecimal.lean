import QioParquet.Lib.Regroup
import QioParquet.Plan.Convert
import Mathlib.Tactic

/-!
# Binary decimals by width

`qio_decimal_from_binary` groups the values by their number of bytes, lays each group
out as a matrix, and adds up the rows twice: the bytes, and their complements for the
negative values. The arithmetic is a parameter: with the doubles of R this is the
converter of the read plan, with exact integers it is big-endian two's complement.
-/

namespace QioParquet
namespace Plan

open Lib Read

section Model

/-- The arithmetic of the sums. -/
structure Arithmetic (β : Type) where
  zero : β
  /-- `x * 256 + byte`. -/
  shiftByte : β → Nat → β
  /-- `-(x + 1)`. -/
  negateSucc : β → β

def doubles : Arithmetic RDouble := ⟨.num 0, shiftByte, negateSucc⟩

def integers : Arithmetic ℤ := ⟨0, fun x byte => x * 256 + byte, fun x => -(x + 1)⟩

variable {β : Type} (arithmetic : Arithmetic β)

/-- The bytes of an element as `lengths` and `unlist` see them. -/
def elementBytes (element : Option Bytes) : Bytes :=
  element.getD []

/-- The values of the elements of one width. -/
def decodeWidth (width : Nat) (group : List (Option Bytes)) : List β :=
  let digits := (group.flatMap elementBytes).map UInt8.toNat
  let negative := (matrixRow digits width 0).map fun byte => decide (128 ≤ byte)
  let sums := (List.range width).foldl
    (fun sums row =>
      let byte := matrixRow digits width row
      (List.zipWith arithmetic.shiftByte sums.1 byte,
        List.zipWith (fun sum byte => arithmetic.shiftByte sum (255 - byte)) sums.2 byte))
    (List.replicate group.length arithmetic.zero,
      List.replicate group.length arithmetic.zero)
  (negative.zip (sums.1.zip sums.2)).map fun entry =>
    if entry.1 then arithmetic.negateSucc entry.2.2 else entry.2.1

/-- `qio_decimal_from_binary` before `qio_apply_decimal_scale`. -/
def decimalValues (x : List (Option Bytes)) : List (Option β) :=
  let sizes := x.map fun element => (elementBytes element).length
  let values := List.replicate x.length none
  let present := sizes.filter fun size => decide (0 < size)
  if present = [] then
    values
  else
    regroup (fun width element => decide (0 < (elementBytes element).length) &&
        (elementBytes element).length == width)
      (decodeWidth arithmetic) x present.eraseDups values

end Model

section Elements

variable {β : Type} (arithmetic : Arithmetic β)

/-- The value of one string of bytes. -/
def bytesValue (bytes : Bytes) : β :=
  if bytes.head?.any fun first => decide (128 ≤ first.toNat) then
    arithmetic.negateSucc
      (bytes.foldl (fun sum byte => arithmetic.shiftByte sum (255 - byte.toNat))
        arithmetic.zero)
  else
    bytes.foldl (fun sum byte => arithmetic.shiftByte sum byte.toNat) arithmetic.zero

/-- The value of one element, missing where there are no bytes. -/
def elementValue (element : Option Bytes) : Option β :=
  if elementBytes element = [] then
    none
  else
    some (bytesValue arithmetic (elementBytes element))

/-- The columns of the matrix of a group. -/
def digitColumns (group : List (Option Bytes)) : List (List Nat) :=
  group.map fun element => (elementBytes element).map UInt8.toNat

theorem digits_eq_flatten
    (group : List (Option Bytes)) :
    (group.flatMap elementBytes).map UInt8.toNat = (digitColumns group).flatten := by
  rw [digitColumns, List.map_flatMap, List.flatMap_def]

theorem length_of_mem_digitColumns
    {width : Nat} {group : List (Option Bytes)}
    (hwidth : ∀ element ∈ group, (elementBytes element).length = width) :
    ∀ column ∈ digitColumns group, column.length = width := by
  rw [digitColumns, List.forall_mem_map]
  intro element helement
  rw [List.length_map, hwidth element helement]

/-- The signs, read off the first row. -/
theorem signs_of_firstRow
    {width : Nat} {group : List (Option Bytes)}
    (hpos : 0 < width)
    (hwidth : ∀ element ∈ group, (elementBytes element).length = width) :
    (matrixRow (digitColumns group).flatten width 0).map
        (fun byte => decide (128 ≤ byte)) =
      group.map fun element =>
        (elementBytes element).head?.any fun first => decide (128 ≤ first.toNat) := by
  rw [matrixRow_flatten (length_of_mem_digitColumns hwidth) hpos, digitColumns,
    List.filterMap_map, List.map_filterMap]
  refine Eq.trans (List.filterMap_congr fun element helement => ?_)
    (congrFun List.filterMap_eq_map group)
  have hlength := hwidth element helement
  cases hbytes : elementBytes element with
  | nil =>
      rw [hbytes, List.length_nil] at hlength
      omega
  | cons first rest =>
      simp [hbytes]

/-- The sums of the rows are sums over the bytes of each element. -/
theorem sums_of_rows
    {width : Nat} {group : List (Option Bytes)} (step : β → Nat → β)
    (hwidth : ∀ element ∈ group, (elementBytes element).length = width) :
    (List.range width).foldl
        (fun sums row =>
          List.zipWith step sums (matrixRow (digitColumns group).flatten width row))
        (List.replicate group.length arithmetic.zero) =
      group.map fun element => (elementBytes element).foldl
        (fun sum byte => step sum byte.toNat) arithmetic.zero := by
  have hrows := sumRows_flatten step arithmetic.zero (length_of_mem_digitColumns hwidth)
  rw [sumRows, digitColumns, List.length_map, List.map_map] at hrows
  rw [digitColumns, hrows]
  refine List.map_congr_left fun element _ => ?_
  rw [Function.comp_apply, List.foldl_map]

/-- A group of one width is decoded element by element. -/
theorem decodeWidth_eq
    {width : Nat} {group : List (Option Bytes)}
    (hpos : 0 < width)
    (hwidth : ∀ element ∈ group, (elementBytes element).length = width) :
    decodeWidth arithmetic width group =
      group.map fun element => bytesValue arithmetic (elementBytes element) := by
  have hpair := foldl_pair
    (fun sums row => List.zipWith arithmetic.shiftByte sums
      (matrixRow (digitColumns group).flatten width row))
    (fun sums row => List.zipWith (fun sum byte => arithmetic.shiftByte sum (255 - byte))
      sums (matrixRow (digitColumns group).flatten width row))
    (List.range width) (List.replicate group.length arithmetic.zero)
    (List.replicate group.length arithmetic.zero)
  rw [sums_of_rows arithmetic _ hwidth, sums_of_rows arithmetic _ hwidth] at hpair
  rw [decodeWidth, digits_eq_flatten]
  dsimp only
  rw [signs_of_firstRow hpos hwidth, hpair, List.zip_map', List.zip_map', List.map_map]
  rfl

/-- Regrouping by width keeps every value at its place. -/
theorem decimalValues_eq_map
    (x : List (Option Bytes)) :
    decimalValues arithmetic x = x.map (elementValue arithmetic) := by
  rw [decimalValues]
  generalize hkeys : ((x.map fun element => (elementBytes element).length).filter
    fun size => decide (0 < size)) = present
  have hmem (size : Nat) : size ∈ present ↔
      0 < size ∧ ∃ element ∈ x, (elementBytes element).length = size := by
    rw [← hkeys, List.mem_filter, List.mem_map, decide_eq_true_eq, and_comm]
  split_ifs with hnone
  · refine (List.eq_replicate_iff.mpr ⟨List.length_map _, ?_⟩).symm
    rw [List.forall_mem_map]
    intro element helement
    refine if_pos (List.eq_nil_of_length_eq_zero ?_)
    by_contra hsize
    have hpresent := (hmem _).mpr ⟨Nat.pos_of_ne_zero hsize, element, helement, rfl⟩
    rw [hnone] at hpresent
    cases hpresent
  · rw [regroup_eq (g := fun element => bytesValue arithmetic (elementBytes element))
      ?_ (by rw [List.length_replicate])]
    · rw [← List.map_const', List.zipWith_map_right, List.zipWith_self]
      refine List.map_congr_left fun element helement => ?_
      rw [elementValue]
      by_cases hempty : elementBytes element = []
      · rw [if_pos hempty, hempty, if_neg (by simp)]
      · have hsize := List.length_pos_iff.mpr hempty
        have hkey := (hmem _).mpr ⟨hsize, element, helement, rfl⟩
        rw [if_neg hempty, if_pos (List.any_eq_true.mpr
          ⟨_, List.mem_eraseDups.mpr hkey, by simpa using hsize⟩)]
    · intro width hwidth group hgroup
      rw [List.mem_eraseDups, hmem] at hwidth
      refine decodeWidth_eq arithmetic hwidth.1 fun element helement => ?_
      have hselect := hgroup element helement
      rw [Bool.and_eq_true, beq_iff_eq] at hselect
      exact hselect.2

end Elements

section Converter

/-- An element of a list column. -/
def listElement : RCell → Except ConvertError (Option Bytes)
  | .raw bytes => .ok (some bytes)
  | .null => .ok none
  | _ => .error .foreignVector

theorem decimalOfBytes_eq
    (bytes : Bytes) :
    decimalOfBytes bytes = (elementValue doubles (some bytes)).getD .na := by
  cases bytes with
  | nil =>
      rfl
  | cons first rest =>
      simp [decimalOfBytes, elementValue, elementBytes, bytesValue, doubles]

/-- The converter of the read plan is the grouped computation on doubles. -/
theorem decimalFromBinary_eq_decimalValues
    (platform : Platform) (scale : ℤ) {x : RVector} {elements : List (Option Bytes)}
    (h : x.cells.mapM listElement = .ok elements) :
    decimalFromBinary platform x scale =
      .ok ⟨realVector ((decimalValues doubles elements).map fun value =>
        divide (value.getD .na) (platform.pow10 scale)), .none⟩ := by
  have hcell : (fun cell => listElement cell >>= fun element =>
      .ok (elementBytes element)) = listBytes := by
    funext cell
    cases cell <;> rfl
  have hbytes : x.cells.mapM listBytes = .ok (elements.map elementBytes) := by
    rw [← hcell]
    exact mapM_map_ok elementBytes h
  have hvalue (element : Option Bytes) :
      decimalOfBytes (elementBytes element) =
        (elementValue doubles element).getD .na := by
    rw [decimalOfBytes_eq]
    rfl
  rw [decimalFromBinary, hbytes, ok_bind, decimalValues_eq_map, List.map_map, List.map_map]
  simp only [Function.comp_def, hvalue]
  rfl

end Converter

section TwosComplement

/-- The number big-endian bytes stand for. -/
def bigEndian (bytes : Bytes) : Nat :=
  Nat.ofDigits 256 (bytes.reverse.map UInt8.toNat)

/-- The number the bits of big-endian bytes stand for in two's complement. -/
def twosComplement (bytes : Bytes) : ℤ :=
  (BitVec.ofNat (8 * bytes.length) (bigEndian bytes)).toInt

theorem bigEndian_cons
    (first : UInt8) (rest : Bytes) :
    bigEndian (first :: rest) = first.toNat * 256 ^ rest.length + bigEndian rest := by
  rw [bigEndian, List.reverse_cons, List.map_append, Nat.ofDigits_append,
    List.map_singleton, Nat.ofDigits_singleton, List.length_map, List.length_reverse,
    Nat.add_comm, Nat.mul_comm]
  rfl

theorem bigEndian_lt
    (bytes : Bytes) :
    bigEndian bytes < 256 ^ bytes.length := by
  induction bytes with
  | nil =>
      simp [bigEndian]
  | cons first rest ih =>
      have hfirst := first.toNat_lt
      rw [bigEndian_cons, List.length_cons, Nat.pow_succ]
      nlinarith

/-- The sum of the bytes, from any sum on. -/
theorem foldl_shiftByte
    (bytes : Bytes) (sum : ℤ) :
    bytes.foldl (fun sum byte => integers.shiftByte sum byte.toNat) sum =
      sum * 256 ^ bytes.length + bigEndian bytes := by
  induction bytes generalizing sum with
  | nil =>
      simp [bigEndian]
  | cons first rest ih =>
      rw [List.foldl_cons, ih, bigEndian_cons, List.length_cons]
      simp only [integers]
      push_cast
      ring

/-- The sum of the complements is what the bytes lack to the largest number. -/
theorem foldl_complement
    (bytes : Bytes) (sum : ℤ) :
    bytes.foldl (fun sum byte => integers.shiftByte sum (255 - byte.toNat)) sum =
      sum * 256 ^ bytes.length + (256 ^ bytes.length - 1 - bigEndian bytes) := by
  induction bytes generalizing sum with
  | nil =>
      simp [bigEndian]
  | cons first rest ih =>
      have hfirst := first.toNat_lt
      rw [List.foldl_cons, ih, bigEndian_cons, List.length_cons]
      simp only [integers]
      rw [Nat.cast_sub (by omega)]
      push_cast
      ring

theorem pow_width
    (length : Nat) :
    2 ^ (8 * (length + 1)) = 256 * 256 ^ length := by
  rw [Nat.pow_mul, Nat.pow_succ, Nat.mul_comm]

/-- The top bit is the sign. -/
theorem twosComplement_cons
    (first : UInt8) (rest : Bytes) :
    twosComplement (first :: rest) =
      if 128 ≤ first.toNat then
        (bigEndian (first :: rest) : ℤ) - 256 ^ (rest.length + 1)
      else
        bigEndian (first :: rest) := by
  have hlt : bigEndian (first :: rest) < 2 ^ (8 * (rest.length + 1)) := by
    rw [pow_width, ← Nat.pow_succ']
    exact bigEndian_lt (first :: rest)
  have hsign : 2 * bigEndian (first :: rest) < 2 ^ (8 * (rest.length + 1)) ↔
      ¬ 128 ≤ first.toNat := by
    have hrest := bigEndian_lt rest
    rw [bigEndian_cons, pow_width, not_le]
    constructor
    · intro h
      nlinarith
    · intro h
      nlinarith
  rw [twosComplement, BitVec.toInt_eq_toNat_cond, BitVec.toNat_ofNat, List.length_cons,
    Nat.mod_eq_of_lt hlt]
  by_cases hnegative : 128 ≤ first.toNat
  · rw [if_pos hnegative, if_neg fun h => hsign.mp h hnegative, pow_width, ← Nat.pow_succ']
    push_cast
    rfl
  · rw [if_neg hnegative, if_pos (hsign.mpr hnegative)]

/-- The exact sums give the two's complement value. -/
theorem bytesValue_integers
    {bytes : Bytes}
    (hbytes : bytes ≠ []) :
    bytesValue integers bytes = twosComplement bytes := by
  obtain ⟨first, rest, rfl⟩ := List.exists_cons_of_ne_nil hbytes
  rw [bytesValue, foldl_shiftByte, foldl_complement, twosComplement_cons]
  simp only [integers, List.head?_cons, Option.any_some, decide_eq_true_eq,
    List.length_cons]
  split_ifs <;> ring

/-- Binary decimals are decoded position by position, whatever the other elements and
their widths are, and so batch by batch. -/
theorem binary_decimals_positionwise :
    (∀ x : List (Option Bytes), decimalValues integers x = x.map fun element =>
        match element with
        | none => none
        | some [] => none
        | some bytes => some (twosComplement bytes)) ∧
      ∀ batches : List (List (Option Bytes)),
        decimalValues integers batches.flatten =
          (batches.map (decimalValues integers)).flatten := by
  constructor
  · intro x
    rw [decimalValues_eq_map]
    refine List.map_congr_left fun element _ => ?_
    match element with
    | none => rfl
    | some [] => rfl
    | some (first :: rest) =>
        exact congrArg some (bytesValue_integers (List.cons_ne_nil first rest))
  · intro batches
    have hbatch : batches.map (decimalValues integers) =
        batches.map (List.map (elementValue integers)) :=
      List.map_congr_left fun batch _ => decimalValues_eq_map integers batch
    rw [decimalValues_eq_map, hbatch, List.map_flatten]

example : decimalValues integers [some [0xFF, 0x7F], none, some [0x05], some [0x80]] =
    [some (-129), none, some 5, some (-128)] := by
  rfl

end TwosComplement

end Plan
end QioParquet
