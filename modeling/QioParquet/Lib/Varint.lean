import Mathlib.Data.Nat.Bitwise
import Mathlib.Data.Nat.Log
import Mathlib.Tactic

/-!
# Numbers of variable length

A number is written in digits of seven bits, the lowest first, one digit a byte. The top
bit of a byte says that another one follows.

Loops that read such a number differ in what they return and in where they give up. What
they have in common is the step from one byte to the next (`ReadsVarint`), and that is
enough for them to read back what was written, whatever comes after it.
-/

namespace QioParquet
namespace Lib

section Digits

/-- The digits of a number; all bytes but the last have their top bit set. -/
def leb128 (n : Nat) : List UInt8 :=
  if n < 128 then [UInt8.ofNat n]
  else UInt8.ofNat (n % 128 + 128) :: leb128 (n / 128)

theorem leb128_of_lt
    {n : Nat}
    (h : n < 128) :
    leb128 n = [UInt8.ofNat n] := by
  rw [leb128, if_pos h]

theorem leb128_of_le
    {n : Nat}
    (h : 128 ≤ n) :
    leb128 n = UInt8.ofNat (n % 128 + 128) :: leb128 (n / 128) := by
  rw [leb128, if_neg (by omega)]

/-- `while (value >= 0x80) { *p++ = (value & 0x7F) | 0x80; value >>= 7; } *p++ = value`. -/
def writeVarint {w : Nat} (value : BitVec w) : List UInt8 :=
  if 0x80 ≤ value.toNat then
    .ofBitVec ((value &&& 0x7F#w ||| 0x80#w).setWidth 8) :: writeVarint (value >>> 7)
  else
    [.ofBitVec (value.setWidth 8)]
termination_by value.toNat
decreasing_by
  rw [BitVec.toNat_ushiftRight, Nat.shiftRight_eq_div_pow]
  omega

theorem writeVarint_of_lt
    {w : Nat} {value : BitVec w}
    (hvalue : value.toNat < 0x80) :
    writeVarint value = [.ofBitVec (value.setWidth 8)] := by
  rw [writeVarint, if_neg (by omega)]

theorem toNat_digit
    {w : Nat} (hw : 8 ≤ w) (value : BitVec w) :
    ((value &&& 0x7F#w ||| 0x80#w).setWidth 8).toNat = value.toNat % 128 + 128 := by
  have hpow : 2 ^ 8 ≤ 2 ^ w := Nat.pow_le_pow_right (by norm_num) hw
  have hlow : (0x7F#w).toNat = 2 ^ 7 - 1 := by
    rw [BitVec.toNat_ofNat]
    exact Nat.mod_eq_of_lt (by omega)
  have hhigh : (0x80#w).toNat = 1 <<< 7 := by
    rw [BitVec.toNat_ofNat]
    exact Nat.mod_eq_of_lt (by omega)
  have hlt : value.toNat % 2 ^ 7 < 2 ^ 7 := Nat.mod_lt _ (by norm_num)
  rw [BitVec.toNat_setWidth, BitVec.toNat_or, BitVec.toNat_and, hlow, hhigh,
    Nat.and_two_pow_sub_one_eq_mod, Nat.or_comm, ← Nat.shiftLeft_add_eq_or_of_lt hlt]
  omega

/-- The loop writes the digits. -/
theorem writeVarint_eq_leb128
    {w : Nat} (hw : 8 ≤ w) (value : BitVec w) :
    writeVarint value = leb128 value.toNat := by
  fun_induction writeVarint value with
  | case1 value hlarge ih =>
      rw [leb128_of_le hlarge, ih, BitVec.toNat_ushiftRight, Nat.shiftRight_eq_div_pow]
      congr 1
      apply UInt8.toNat_inj.mp
      rw [UInt8.toNat_ofBitVec, toNat_digit hw, UInt8.toNat_ofNat']
      omega
  | case2 value hsmall =>
      rw [leb128_of_lt (by omega)]
      congr 1
      apply UInt8.toNat_inj.mp
      rw [UInt8.toNat_ofBitVec, BitVec.toNat_setWidth, UInt8.toNat_ofNat']

end Digits

section Reading

variable {w : Nat} {ρ : Type*}

/-- `held |= (byte & 0x7F) << shift`. -/
def shiftIn (held : BitVec w) (byte : UInt8) (shift : Nat) : BitVec w :=
  held ||| (byte &&& 0x7F).toBitVec.setWidth w <<< shift

theorem toNat_and_lowSeven
    (byte : UInt8) :
    (byte &&& 0x7F).toNat = byte.toNat % 128 := by
  rw [UInt8.toNat_and]
  exact Nat.and_two_pow_sub_one_eq_mod _ 7

/-- The top bit is clear in the last byte alone. -/
theorem and_topBit_eq_zero_iff
    (byte : UInt8) :
    byte &&& 0x80 = 0 ↔ byte.toNat < 128 := by
  have hbyte : byte.toNat < 2 ^ 8 := byte.toNat_lt
  have hand : (byte &&& 0x80).toNat = (byte.toNat.testBit 7).toNat * 2 ^ 7 := by
    rw [UInt8.toNat_and]
    exact Nat.and_two_pow _ 7
  rw [← UInt8.toNat_inj, hand, Nat.testBit_eq_decide_div_mod_eq]
  by_cases htop : byte.toNat / 2 ^ 7 % 2 = 1
  · rw [decide_eq_true htop]
    simp
    omega
  · rw [decide_eq_false htop]
    simp
    omega

/-- Seven more bits of a number are the number cut off seven bits higher. -/
theorem toNat_shiftIn
    {n shift : Nat} {held : BitVec w} {byte : UInt8}
    (hn : n < 2 ^ w)
    (hheld : held.toNat = n % 2 ^ shift)
    (hbyte : byte.toNat % 128 = n / 2 ^ shift % 128) :
    (shiftIn held byte shift).toNat = n % 2 ^ (shift + 7) := by
  have hsplit : n % 2 ^ (shift + 7) = n % 2 ^ shift + 2 ^ shift * (n / 2 ^ shift % 128) := by
    rw [Nat.pow_add, Nat.mod_mul]
  have hle : 2 ^ shift * (n / 2 ^ shift % 128) ≤ n :=
    le_trans (Nat.mul_le_mul_left _ (Nat.mod_le _ _)) (Nat.mul_div_le _ _)
  have hdigit : n / 2 ^ shift % 128 < 2 ^ w :=
    lt_of_le_of_lt ((Nat.mod_le _ _).trans (Nat.div_le_self _ _)) hn
  have hlt : n % 2 ^ shift < 2 ^ shift := Nat.mod_lt _ (by positivity)
  have hfits : (n / 2 ^ shift % 128) <<< shift < 2 ^ w := by
    rw [Nat.shiftLeft_eq, Nat.mul_comm]
    omega
  rw [shiftIn, BitVec.toNat_or, BitVec.toNat_shiftLeft, BitVec.toNat_setWidth,
    UInt8.toNat_toBitVec, toNat_and_lowSeven, hbyte, hheld, Nat.mod_eq_of_lt hdigit,
    Nat.mod_eq_of_lt hfits, Nat.or_comm, ← Nat.shiftLeft_add_eq_or_of_lt hlt, hsplit,
    Nat.shiftLeft_eq]
  ring

/-- What a loop has to do with a byte. It holds the bits read so far and counts the bytes;
past the width of the number it is free to give up. -/
structure ReadsVarint
    (read : List UInt8 → Nat → BitVec w → Nat → ρ)
    (finish : BitVec w → List UInt8 → Nat → ρ) : Prop where
  last : ∀ byte rest shift held used, shift < w → byte.toNat < 2 ^ (w - shift) →
    byte &&& 0x80 = 0 →
    read (byte :: rest) shift held used =
      finish (shiftIn held byte shift) rest (used + 1)
  next : ∀ byte rest shift held used, shift + 7 < w → ¬ byte &&& 0x80 = 0 →
    read (byte :: rest) shift held used =
      read rest (shift + 7) (shiftIn held byte shift) (used + 1)

namespace ReadsVarint

variable {read : List UInt8 → Nat → BitVec w → Nat → ρ}
    {finish : BitVec w → List UInt8 → Nat → ρ}

/-- In the middle of a number. The induction is on its digits still to come. -/
theorem digits
    (h : ReadsVarint read finish)
    {n : Nat} (hn : n < 2 ^ w) (rest : List UInt8)
    {digits shift : Nat} {held : BitVec w} (used : Nat)
    (hdigits : digits = n / 2 ^ shift)
    (hheld : held.toNat = n % 2 ^ shift)
    (hshift : shift < w) :
    read (leb128 digits ++ rest) shift held used =
      finish (BitVec.ofNat w n) rest (used + (leb128 digits).length) := by
  induction digits using Nat.strong_induction_on generalizing shift held used with
  | _ digits ih =>
      rcases lt_or_ge digits 128 with hsmall | hlarge
      · have hbyte : (UInt8.ofNat digits).toNat = digits := by
          rw [UInt8.toNat_ofNat']
          omega
        have hlast : UInt8.ofNat digits &&& 0x80 = 0 :=
          (and_topBit_eq_zero_iff _).mpr (by rw [hbyte]; exact hsmall)
        have hend : n % 2 ^ (shift + 7) = n := by
          apply Nat.mod_eq_of_lt
          rw [Nat.pow_add, Nat.mul_comm]
          exact (Nat.div_lt_iff_lt_mul (by positivity)).mp (hdigits ▸ hsmall)
        have hvalue : shiftIn held (UInt8.ofNat digits) shift = BitVec.ofNat w n := by
          apply BitVec.eq_of_toNat_eq
          rw [toNat_shiftIn hn hheld (by rw [hbyte, hdigits]), hend, BitVec.toNat_ofNat,
            Nat.mod_eq_of_lt hn]
        have hfits : (UInt8.ofNat digits).toNat < 2 ^ (w - shift) := by
          rw [hbyte, hdigits]
          apply Nat.div_lt_of_lt_mul
          rwa [← Nat.pow_add, Nat.add_sub_cancel' hshift.le]
        rw [leb128_of_lt hsmall, List.singleton_append, h.last _ _ _ _ _ hshift hfits hlast,
          hvalue, List.length_singleton]
      · have hbyte : (UInt8.ofNat (digits % 128 + 128)).toNat = digits % 128 + 128 := by
          rw [UInt8.toNat_ofNat']
          omega
        have hmore : ¬ UInt8.ofNat (digits % 128 + 128) &&& 0x80 = 0 := by
          rw [and_topBit_eq_zero_iff, hbyte]
          omega
        have hnext : digits / 128 = n / 2 ^ (shift + 7) := by
          rw [hdigits, Nat.div_div_eq_div_mul, Nat.pow_add]
        have hroom : shift + 7 < w := by
          -- Another digit means that the number reaches beyond the next seven bits.
          by_contra hover
          have hpow : 2 ^ w ≤ 2 ^ (shift + 7) := Nat.pow_le_pow_right (by norm_num) (by omega)
          have hzero : n / 2 ^ (shift + 7) = 0 := Nat.div_eq_of_lt (by omega)
          omega
        have hheld' : (shiftIn held (UInt8.ofNat (digits % 128 + 128)) shift).toNat =
            n % 2 ^ (shift + 7) :=
          toNat_shiftIn hn hheld (by rw [hbyte, hdigits]; omega)
        rw [leb128_of_le hlarge, List.cons_append, h.next _ _ _ _ _ hroom hmore,
          ih (digits / 128) (by omega) (used + 1) hnext hheld' hroom, List.length_cons]
        congr 1
        omega

/-- A number is read back, whatever comes after it. -/
theorem leb128
    (h : ReadsVarint read finish)
    {n : Nat} (hn : n < 2 ^ w) (hw : 0 < w) (rest : List UInt8) (used : Nat) :
    read (leb128 n ++ rest) 0 0 used =
      finish (BitVec.ofNat w n) rest (used + (Lib.leb128 n).length) :=
  h.digits hn rest used (by simp) (by simp [Nat.mod_one]) hw

end ReadsVarint

end Reading

end Lib
end QioParquet
