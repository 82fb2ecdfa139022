import Mathlib.Data.List.Basic
import Mathlib.Data.Nat.Bitwise
import Mathlib.Tactic

/-!
# Bytes as one stream of bits

A string of bytes read as bits, the least significant bit of each byte first. A field
of the stream is the number its bits form; as a number the whole stream is the
little-endian value of the bytes, and fields are cut out of it by division. A string
of bytes is determined by its length and its bits.
-/

namespace QioParquet
namespace Lib

section Streams

/-- Bit `i` of the stream; past the end there are zeros. -/
def bitAt (bytes : List UInt8) (i : Nat) : Bool :=
  (bytes.getD (i / 8) 0).toNat.testBit (i % 8)

/-- The number formed by `width` bits of the stream. -/
def bitField (bytes : List UInt8) (start width : Nat) : Nat :=
  Nat.ofBits fun k : Fin width => bitAt bytes (start + k)

/-- The stream as one number. -/
def littleEndian : List UInt8 → Nat
  | [] => 0
  | byte :: rest => byte.toNat + 2 ^ 8 * littleEndian rest

theorem bitAt_cons
    (byte : UInt8) (rest : List UInt8) (i : Nat) :
    bitAt (byte :: rest) i =
      if i < 8 then byte.toNat.testBit i else bitAt rest (i - 8) := by
  unfold bitAt
  split_ifs with h
  · rw [Nat.div_eq_of_lt h, Nat.mod_eq_of_lt h]
    rfl
  · obtain ⟨j, rfl⟩ : ∃ j, i = j + 8 := ⟨i - 8, by omega⟩
    rw [Nat.add_sub_cancel, Nat.add_div_right _ (by norm_num), Nat.add_mod_right]
    rfl

theorem testBit_littleEndian
    (bytes : List UInt8) (i : Nat) :
    (littleEndian bytes).testBit i = bitAt bytes i := by
  induction bytes generalizing i with
  | nil =>
      simp [littleEndian, bitAt]
  | cons byte rest ih =>
      have hbyte : byte.toNat < 2 ^ 8 := byte.toNat_lt
      rw [bitAt_cons, littleEndian, Nat.add_comm, Nat.testBit_two_pow_mul_add _ hbyte, ih]

/-- A field is cut out of the number by shifting and masking. -/
theorem bitField_eq
    (bytes : List UInt8) (start width : Nat) :
    bitField bytes start width = littleEndian bytes / 2 ^ start % 2 ^ width := by
  apply Nat.eq_of_testBit_eq
  intro i
  rw [Nat.testBit_mod_two_pow, Nat.testBit_div_two_pow, testBit_littleEndian, bitField]
  by_cases h : i < width
  · rw [Nat.testBit_ofBits_lt _ _ h]
    simp [h, Nat.add_comm]
  · rw [Nat.testBit_ofBits_ge _ _ (by omega)]
    simp [h]

theorem littleEndian_append
    (front rest : List UInt8) :
    littleEndian (front ++ rest) =
      littleEndian front + 2 ^ (8 * front.length) * littleEndian rest := by
  induction front with
  | nil =>
      simp [littleEndian]
  | cons byte front ih =>
      rw [List.cons_append, littleEndian, ih, littleEndian, List.length_cons,
        Nat.mul_succ, Nat.pow_add]
      ring

theorem littleEndian_lt
    (bytes : List UInt8) :
    littleEndian bytes < 2 ^ (8 * bytes.length) := by
  induction bytes with
  | nil =>
      simp [littleEndian]
  | cons byte rest ih =>
      have hbyte : byte.toNat < 2 ^ 8 := byte.toNat_lt
      rw [littleEndian, List.length_cons, Nat.mul_succ, Nat.pow_add]
      omega

/-- The value of one more byte. -/
theorem littleEndian_take_succ
    {bytes : List UInt8} {p : Nat} {byte : UInt8}
    (h : bytes[p]? = some byte) :
    littleEndian (bytes.take (p + 1)) =
      littleEndian (bytes.take p) + 2 ^ (8 * p) * byte.toNat := by
  have hp : p ≤ bytes.length :=
    (List.getElem?_eq_some_iff.mp h).1.le
  rw [List.take_add_one, h, Option.toList_some, littleEndian_append,
    List.length_take_of_le hp]
  simp [littleEndian]

/-- A byte shifted in above the bits that are held adds its weight. -/
theorem toNat_or_shiftLeft
    {w held : Nat} {x : BitVec w}
    (hheld : held + 8 ≤ w)
    (hlt : x.toNat < 2 ^ held)
    (byte : UInt8) :
    (x ||| byte.toBitVec.setWidth w <<< held).toNat = x.toNat + 2 ^ held * byte.toNat := by
  have hbyte : byte.toNat < 2 ^ 8 := byte.toNat_lt
  have hfits : byte.toNat <<< held < 2 ^ w := by
    rw [Nat.shiftLeft_eq]
    calc byte.toNat * 2 ^ held < 2 ^ 8 * 2 ^ held :=
          Nat.mul_lt_mul_of_pos_right hbyte (by positivity)
      _ = 2 ^ (8 + held) := (Nat.pow_add 2 8 held).symm
      _ ≤ 2 ^ w := Nat.pow_le_pow_right (by norm_num) (by omega)
  have hwide : (byte.toBitVec.setWidth w).toNat = byte.toNat := by
    rw [BitVec.toNat_setWidth, UInt8.toNat_toBitVec]
    exact Nat.mod_eq_of_lt
      (lt_of_lt_of_le hbyte (Nat.pow_le_pow_right (by norm_num) (by omega)))
  rw [BitVec.toNat_or, BitVec.toNat_shiftLeft, hwide, Nat.mod_eq_of_lt hfits,
    Nat.or_comm, ← Nat.shiftLeft_add_eq_or_of_lt hlt, Nat.shiftLeft_eq]
  ring

/-- A field that lies in the first bytes is theirs. -/
theorem bitField_take
    {bytes : List UInt8} {start width p : Nat}
    (h : start + width ≤ 8 * p) :
    bitField (bytes.take p) start width = bitField bytes start width := by
  unfold bitField
  congr 1
  funext k
  have hlt : (start + k) / 8 < p := by
    have := k.isLt
    omega
  simp [bitAt, List.getD_eq_getElem?_getD, List.getElem?_take_of_lt hlt]

/-- The eight bits of a byte. -/
theorem bitField_byte
    (bytes : List UInt8) (i : Nat) :
    bitField bytes (i * 8) 8 = (bytes.getD i 0).toNat := by
  apply Nat.eq_of_testBit_eq
  intro k
  rw [bitField]
  by_cases hk : k < 8
  · rw [Nat.testBit_ofBits_lt _ _ hk, bitAt]
    have hdiv : (i * 8 + k) / 8 = i := by omega
    have hmod : (i * 8 + k) % 8 = k := by omega
    simp only [hdiv, hmod]
  · have hbyte : (bytes.getD i 0).toNat < 2 ^ 8 := (bytes.getD i 0).toNat_lt
    rw [Nat.testBit_ofBits_ge _ _ (by omega)]
    exact (Nat.testBit_lt_two_pow
      (lt_of_lt_of_le hbyte (Nat.pow_le_pow_right (by norm_num) (by omega)))).symm

end Streams

section Packing

/-- Bytes of the same length with the same bits are the same. -/
theorem eq_of_bitAt_eq
    {front back : List UInt8}
    (hlength : front.length = back.length)
    (h : ∀ i, bitAt front i = bitAt back i) :
    front = back := by
  apply List.ext_getElem hlength
  intro j hj hj'
  have hbyte : (front.getD j 0).toNat = (back.getD j 0).toNat := by
    rw [← bitField_byte, ← bitField_byte, bitField, bitField]
    congr 1
    funext k
    exact h _
  rw [List.getD_eq_getElem _ _ hj, List.getD_eq_getElem _ _ hj'] at hbyte
  exact UInt8.toNat_inj.mp hbyte

/-- Past the end there are zeros. -/
theorem bitAt_of_length_le
    {bytes : List UInt8} {i : Nat}
    (h : 8 * bytes.length ≤ i) :
    bitAt bytes i = false := by
  rw [bitAt, List.getD_eq_default _ _ (by omega)]
  simp

/-- Zero bytes at the end change no bit. -/
theorem bitAt_append_zeros
    (bytes : List UInt8) (count i : Nat) :
    bitAt (bytes ++ List.replicate count 0) i = bitAt bytes i := by
  have hbyte : (bytes ++ List.replicate count 0).getD (i / 8) 0 = bytes.getD (i / 8) 0 := by
    rcases lt_or_ge (i / 8) bytes.length with hlt | hge
    · rw [List.getD_append _ _ _ _ hlt]
    · rw [List.getD_append_right _ _ _ _ hge, List.getD_eq_default _ _ hge]
      rw [List.getD_eq_getElem?_getD, List.getElem?_replicate]
      split_ifs <;> rfl
  rw [bitAt, hbyte, bitAt]

/-- Set bit `k` of the stream. -/
def setBit (bytes : List UInt8) (k : Nat) : List UInt8 :=
  bytes.modify (k / 8) fun byte => byte ||| 1 <<< UInt8.ofNat (k % 8)

@[simp] theorem length_setBit
    (bytes : List UInt8) (k : Nat) :
    (setBit bytes k).length = bytes.length :=
  List.length_modify _ _ _

theorem testBit_or_one_shiftLeft
    (byte : UInt8) {k : Nat}
    (hk : k < 8) (i : Nat) :
    (byte ||| 1 <<< UInt8.ofNat k).toNat.testBit i =
      (byte.toNat.testBit i || decide (i = k)) := by
  have hone : (1 <<< UInt8.ofNat k : UInt8).toNat = 2 ^ k := by
    interval_cases k <;> rfl
  rw [UInt8.toNat_or, Nat.testBit_or, hone, Nat.testBit_two_pow]
  congr 1
  exact decide_eq_decide.mpr eq_comm

/-- Setting a bit changes that bit alone. -/
theorem bitAt_setBit
    {bytes : List UInt8} {k : Nat}
    (hk : k < 8 * bytes.length) (i : Nat) :
    bitAt (setBit bytes k) i = (bitAt bytes i || decide (i = k)) := by
  have hlt : k / 8 < bytes.length := by
    omega
  rw [bitAt, bitAt, setBit, List.getD_eq_getElem?_getD, List.getElem?_modify,
    List.getD_eq_getElem?_getD]
  by_cases hsame : k / 8 = i / 8
  · have hbyte : bytes[i / 8]? = some (bytes[k / 8]) := by
      rw [← hsame]
      exact List.getElem?_eq_getElem hlt
    have hiff : i % 8 = k % 8 ↔ i = k := by
      omega
    simp only [hsame, if_true, hbyte, Option.map_eq_map, Option.map_some,
      Option.getD_some]
    rw [testBit_or_one_shiftLeft _ (by omega), decide_eq_decide.mpr hiff]
  · have hne : i ≠ k := by
      rintro rfl
      exact hsame rfl
    simp [hsame, hne]

/-- Bits packed into bytes, the lowest first; the last byte is padded with zeros. -/
def packBits (bits : List Bool) : List UInt8 :=
  (List.range ((bits.length + 7) / 8)).map fun j =>
    UInt8.ofNat (Nat.ofBits fun k : Fin 8 => bits.getD (j * 8 + k) false)

@[simp] theorem length_packBits
    (bits : List Bool) :
    (packBits bits).length = (bits.length + 7) / 8 := by
  simp [packBits]

theorem bitAt_packBits
    (bits : List Bool) (i : Nat) :
    bitAt (packBits bits) i = bits.getD i false := by
  rcases lt_or_ge i (8 * (packBits bits).length) with hlt | hge
  · have hbyte : i / 8 < (packBits bits).length := by
      omega
    have hsmall : (Nat.ofBits fun k : Fin 8 => bits.getD (i / 8 * 8 + k) false) < 2 ^ 8 :=
      Nat.ofBits_lt_two_pow _
    have hindex : i / 8 * 8 + i % 8 = i := by
      omega
    rw [bitAt, List.getD_eq_getElem _ _ hbyte]
    simp only [packBits, List.getElem_map, List.getElem_range]
    rw [UInt8.toNat_ofNat', Nat.mod_eq_of_lt hsmall, Nat.testBit_ofBits_lt _ _ (by omega)]
    simp only [hindex]
  · rw [bitAt_of_length_le hge, List.getD_eq_default]
    rw [length_packBits] at hge
    omega

end Packing

section Merging

/-- `bytes[p] |= byte`. -/
def orByte (bytes : List UInt8) (p : Nat) (byte : UInt8) : List UInt8 :=
  bytes.modify p (· ||| byte)

@[simp] theorem length_orByte
    (bytes : List UInt8) (p : Nat) (byte : UInt8) :
    (orByte bytes p byte).length = bytes.length :=
  List.length_modify _ _ _

/-- Bits are added to one byte. -/
theorem bitAt_orByte
    {bytes : List UInt8} {p : Nat}
    (hp : p < bytes.length) (byte : UInt8) (i : Nat) :
    bitAt (orByte bytes p byte) i =
      (bitAt bytes i || decide (8 * p ≤ i) && byte.toNat.testBit (i - 8 * p)) := by
  have hbyte : byte.toNat < 2 ^ 8 := byte.toNat_lt
  rw [bitAt, bitAt, orByte, List.getD_eq_getElem?_getD, List.getElem?_modify,
    List.getD_eq_getElem?_getD]
  by_cases hsame : p = i / 8
  · have hget : bytes[i / 8]? = some (bytes[p]) := by
      rw [← hsame]
      exact List.getElem?_eq_getElem hp
    have hle : 8 * p ≤ i := by
      omega
    have hindex : i - 8 * p = i % 8 := by
      omega
    simp only [if_pos hsame]
    rw [hget, decide_eq_true hle, hindex]
    simp [Nat.testBit_or]
  · simp only [if_neg hsame]
    rcases lt_or_ge i (8 * p) with hlow | hhigh
    · simp [Nat.not_le.mpr hlow]
    · have hzero : byte.toNat.testBit (i - 8 * p) = false :=
        Nat.testBit_lt_two_pow
          (lt_of_lt_of_le hbyte (Nat.pow_le_pow_right (by norm_num) (by omega)))
      simp [hzero]

/-- A field is determined by its bits. -/
theorem bitField_eq_of_bitAt
    {bytes : List UInt8} {start width value : Nat}
    (hvalue : value < 2 ^ width)
    (h : ∀ k < width, bitAt bytes (start + k) = value.testBit k) :
    bitField bytes start width = value := by
  apply Nat.eq_of_testBit_eq
  intro k
  rw [bitField]
  by_cases hk : k < width
  · rw [Nat.testBit_ofBits_lt _ _ hk]
    exact h k hk
  · rw [Nat.testBit_ofBits_ge _ _ (by omega)]
    exact (Nat.testBit_lt_two_pow
      (lt_of_lt_of_le hvalue (Nat.pow_le_pow_right (by norm_num) (by omega)))).symm

/-- The bits behind some bytes are bits of the bytes behind them. -/
theorem bitAt_drop
    (bytes : List UInt8) (p i : Nat) :
    bitAt (bytes.drop p) i = bitAt bytes (8 * p + i) := by
  have hdiv : (8 * p + i) / 8 = p + i / 8 := by
    omega
  have hmod : (8 * p + i) % 8 = i % 8 := by
    omega
  rw [bitAt, bitAt, hdiv, hmod, List.getD_eq_getElem?_getD, List.getElem?_drop,
    ← List.getD_eq_getElem?_getD]

theorem bitField_drop
    (bytes : List UInt8) (p start width : Nat) :
    bitField (bytes.drop p) start width = bitField bytes (8 * p + start) width := by
  simp only [bitField, bitAt_drop, Nat.add_assoc]

/-- Bytes behind a field do not change it. -/
theorem bitField_append
    {front rest : List UInt8} {start width : Nat}
    (h : start + width ≤ 8 * front.length) :
    bitField (front ++ rest) start width = bitField front start width := by
  rw [← bitField_take h, List.take_left]

end Merging

section Numbers

/-- The lowest `count` bytes of a number. -/
def leBytes (count n : Nat) : List UInt8 :=
  (List.range count).map fun i => UInt8.ofNat (n >>> (8 * i))

@[simp] theorem length_leBytes
    (count n : Nat) :
    (leBytes count n).length = count := by
  simp [leBytes]

theorem leBytes_succ
    (count n : Nat) :
    leBytes (count + 1) n = UInt8.ofNat n :: leBytes count (n >>> 8) := by
  rw [leBytes, List.range_succ_eq_map, List.map_cons, List.map_map]
  congr 1
  apply List.map_congr_left
  intro i _
  rw [Function.comp_apply, ← Nat.shiftRight_add]
  congr 2
  omega

/-- The bytes of a number are the number, as far as they go. -/
theorem littleEndian_leBytes
    (count n : Nat) :
    littleEndian (leBytes count n) = n % 2 ^ (8 * count) := by
  induction count generalizing n with
  | zero =>
      simp [leBytes, littleEndian, Nat.mod_one]
  | succ count ih =>
      rw [leBytes_succ, littleEndian, ih, UInt8.toNat_ofNat', Nat.shiftRight_eq_div_pow,
        Nat.mul_succ, Nat.add_comm (8 * count) 8, Nat.pow_add, Nat.mod_mul]

theorem littleEndian_leBytes_of_lt
    {count n : Nat}
    (hn : n < 2 ^ (8 * count)) :
    littleEndian (leBytes count n) = n := by
  rw [littleEndian_leBytes, Nat.mod_eq_of_lt hn]

end Numbers

end Lib
end QioParquet
