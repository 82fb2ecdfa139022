import QioParquet.Read.Values
import Mathlib.Tactic

/-!
# Text checks

`qio_utf8_invalid_at` and `qio_check_string_bytes`, the checks a value passes
before it becomes an R string. The main result compares the scanner with the
encoding itself: it reports no fault exactly on the concatenations of encoded
Unicode scalar values, so overlong forms, surrogate halves and values above
U+10FFFF are all refused and nothing else is.
-/

namespace QioParquet
namespace Read

section Scanner

/-- Length of the run of whole eight-byte words at the front with no high bit
set: `qio_skip_ascii`. -/
def skipAscii : Bytes → Nat
  | b0 :: b1 :: b2 :: b3 :: b4 :: b5 :: b6 :: b7 :: rest =>
      if [b0, b1, b2, b3, b4, b5, b6, b7].any (fun b => b &&& 0x80 != 0) then
        0
      else
        8 + skipAscii rest
  | _ => 0

/-- Continuation bytes and payload announced by a lead byte above 0x7F. -/
def leadByte (byte : UInt8) : Option (Nat × Nat) :=
  if byte &&& 0xE0 = 0xC0 then
    some (1, (byte &&& 0x1F).toNat)
  else if byte &&& 0xF0 = 0xE0 then
    some (2, (byte &&& 0x0F).toNat)
  else if byte &&& 0xF8 = 0xF0 then
    some (3, (byte &&& 0x07).toNat)
  else
    none

/-- Shift the payloads of the continuation bytes into the code point. -/
def continuationBytes : Nat → Bytes → Option Nat
  | code, [] => some code
  | code, cont :: rest =>
      if cont &&& 0xC0 ≠ 0x80 then
        none
      else
        continuationBytes ((code <<< 6) ||| (cont &&& 0x3F).toNat) rest

/-- A code point spelled with more bytes than it needs. -/
def overlong (extra code : Nat) : Bool :=
  (extra == 1 && code < 0x80) ||
    (extra == 2 && code < 0x800) ||
    (extra == 3 && code < 0x10000)

/-- Bytes taken by the well-formed sequence at the front, if there is one. -/
def utf8Sequence : Bytes → Option Nat
  | [] => none
  | byte :: rest =>
      if byte < 0x80 then
        some 1
      else
        match leadByte byte with
        | none => none
        | some (extra, lead) =>
            if rest.length < extra then
              none
            else
              match continuationBytes lead (rest.take extra) with
              | none => none
              | some code =>
                  if overlong extra code then
                    none
                  else if 0x10FFFF < code ∨
                      (0xD800 ≤ code ∧ code ≤ 0xDFFF) then
                    none
                  else
                    some (extra + 1)

/-- The scanning loop, `i` bytes into the value. -/
def utf8InvalidFrom : Nat → Nat → Bytes → Nat
  | 0, _, _ => 0
  | fuel + 1, i, bytes =>
      let skipped := skipAscii bytes
      match bytes.drop skipped with
      | [] => 0
      | tail =>
          match utf8Sequence tail with
          | none => i + skipped + 1
          | some n => utf8InvalidFrom fuel (i + skipped + n) (tail.drop n)

/-- `qio_utf8_invalid_at`: 1-based offset of the first malformed sequence, or 0
when the bytes are well formed. -/
def utf8InvalidAt (bytes : Bytes) : Nat :=
  utf8InvalidFrom bytes.length 0 bytes

/-- Well-formed UTF-8: the encodings of some Unicode scalar values, in a row. -/
def ValidUtf8 (bytes : Bytes) : Prop :=
  ∃ chars : List Char, bytes = chars.flatMap String.utf8EncodeChar

end Scanner

section Bits

theorem forall_uint8
    {P : UInt8 → Prop}
    (h : ∀ n : Fin 256, P (UInt8.ofNat n)) :
    ∀ b, P b := by
  intro b
  have hb := h ⟨b.toNat, b.toNat_lt⟩
  simpa using hb

/-- A mask of the lowest bits is a remainder. -/
theorem toNat_and_low
    {mask : UInt8} {k : Nat}
    (hmask : mask.toNat = 2 ^ k - 1)
    (b : UInt8) :
    (b &&& mask).toNat = b.toNat % 2 ^ k := by
  rw [UInt8.toNat_and, hmask, Nat.and_two_pow_sub_one_eq_mod]

/-- A mask of the highest bits clears the others. -/
theorem toNat_and_high
    {mask : UInt8} {k : Nat}
    (hmask : mask.toNat = (2 ^ (8 - k) - 1) * 2 ^ k)
    (b : UInt8) :
    (b &&& mask).toNat = b.toNat / 2 ^ k * 2 ^ k := by
  rw [UInt8.toNat_and, hmask]
  apply Nat.eq_of_testBit_eq
  intro i
  rw [Nat.testBit_and, ← Nat.shiftLeft_eq, ← Nat.shiftLeft_eq, Nat.testBit_shiftLeft,
    Nat.testBit_shiftLeft, Nat.testBit_two_pow_sub_one, ← Nat.shiftRight_eq_div_pow,
    Nat.testBit_shiftRight]
  rcases lt_or_ge i k with hlow | hhigh
  · simp [show ¬ k ≤ i by omega]
  · rw [Nat.add_sub_cancel' hhigh]
    rcases lt_or_ge i 8 with hlt | hge
    · simp [hhigh, show i - k < 8 - k by omega]
    · have hzero : b.toNat.testBit i = false :=
        Nat.testBit_lt_two_pow
          (lt_of_lt_of_le b.toNat_lt (Nat.pow_le_pow_right (by norm_num) hge))
      simp [hzero]

theorem high_bit_iff (b : UInt8) :
    (b &&& 0x80 != 0) = true ↔ 128 ≤ b.toNat := by
  have hb := b.toNat_lt
  have hand : (b &&& 0x80).toNat = b.toNat / 128 * 128 := toNat_and_high (k := 7) rfl b
  rw [bne_iff_ne, ne_eq, ← UInt8.toNat_inj, hand, UInt8.toNat_zero]
  omega

theorem lead2_iff (b : UInt8) :
    b &&& 0xE0 = 0xC0 ↔ 192 ≤ b.toNat ∧ b.toNat < 224 := by
  have hand : (b &&& 0xE0).toNat = b.toNat / 32 * 32 := toNat_and_high (k := 5) rfl b
  rw [← UInt8.toNat_inj, hand, show (0xC0 : UInt8).toNat = 192 from rfl]
  omega

theorem lead3_iff (b : UInt8) :
    b &&& 0xF0 = 0xE0 ↔ 224 ≤ b.toNat ∧ b.toNat < 240 := by
  have hand : (b &&& 0xF0).toNat = b.toNat / 16 * 16 := toNat_and_high (k := 4) rfl b
  rw [← UInt8.toNat_inj, hand, show (0xE0 : UInt8).toNat = 224 from rfl]
  omega

theorem lead4_iff (b : UInt8) :
    b &&& 0xF8 = 0xF0 ↔ 240 ≤ b.toNat ∧ b.toNat < 248 := by
  have hand : (b &&& 0xF8).toNat = b.toNat / 8 * 8 := toNat_and_high (k := 3) rfl b
  rw [← UInt8.toNat_inj, hand, show (0xF0 : UInt8).toNat = 240 from rfl]
  omega

theorem continuation_iff (b : UInt8) :
    b &&& 0xC0 = 0x80 ↔ 128 ≤ b.toNat ∧ b.toNat < 192 := by
  have hand : (b &&& 0xC0).toNat = b.toNat / 64 * 64 := toNat_and_high (k := 6) rfl b
  rw [← UInt8.toNat_inj, hand, show (0x80 : UInt8).toNat = 128 from rfl]
  omega

theorem toNat_and_1F (b : UInt8) : (b &&& 0x1F).toNat = b.toNat % 32 :=
  toNat_and_low (k := 5) rfl b

theorem toNat_and_0F (b : UInt8) : (b &&& 0x0F).toNat = b.toNat % 16 :=
  toNat_and_low (k := 4) rfl b

theorem toNat_and_07 (b : UInt8) : (b &&& 0x07).toNat = b.toNat % 8 :=
  toNat_and_low (k := 3) rfl b

theorem toNat_and_3F (b : UInt8) : (b &&& 0x3F).toNat = b.toNat % 64 :=
  toNat_and_low (k := 6) rfl b

/-- Shifting in a payload is multiplying and adding. -/
theorem shift_payload
    (code : Nat) (b : UInt8) :
    (code <<< 6) ||| (b &&& 0x3F).toNat = code * 64 + b.toNat % 64 := by
  rw [toNat_and_3F, Nat.shiftLeft_eq]
  have h := Nat.two_pow_add_eq_or_of_lt (i := 6)
    (Nat.mod_lt b.toNat (by norm_num : 0 < 2 ^ 6)) code
  simp only [Nat.reducePow] at h ⊢
  rw [Nat.mul_comm code 64]
  exact h.symm

end Bits

section Correctness

theorem leadByte_eq_some_iff
    {b : UInt8} {extra lead : Nat} :
    leadByte b = some (extra, lead) ↔
      (extra = 1 ∧ 192 ≤ b.toNat ∧ b.toNat < 224 ∧ lead = b.toNat - 192) ∨
      (extra = 2 ∧ 224 ≤ b.toNat ∧ b.toNat < 240 ∧ lead = b.toNat - 224) ∨
      (extra = 3 ∧ 240 ≤ b.toNat ∧ b.toNat < 248 ∧
        lead = b.toNat - 240) := by
  simp only [leadByte, lead2_iff, lead3_iff, lead4_iff, toNat_and_1F,
    toNat_and_0F, toNat_and_07]
  split_ifs <;> simp only [Option.some.injEq, Prod.mk.injEq,
    false_iff] <;> omega

@[simp] theorem continuationBytes_nil
    (code : Nat) :
    continuationBytes code [] = some code :=
  rfl

theorem continuationBytes_cons_iff
    {code result : Nat} {b : UInt8} {rest : Bytes} :
    continuationBytes code (b :: rest) = some result ↔
      128 ≤ b.toNat ∧ b.toNat < 192 ∧
        continuationBytes (code * 64 + (b.toNat - 128)) rest =
          some result := by
  rw [continuationBytes, shift_payload]
  by_cases hb : b &&& 0xC0 = 0x80
  · have hrange := (continuation_iff b).mp hb
    have hmod : b.toNat % 64 = b.toNat - 128 := by
      omega
    simp [hb, hrange, hmod]
  · have hrange := fun h => hb ((continuation_iff b).mpr h)
    rw [if_pos hb]
    constructor
    · intro h
      cases h
    · rintro ⟨hlo, hhi, -⟩
      exact absurd ⟨hlo, hhi⟩ hrange

theorem utf8Sequence_cons_iff
    {b : UInt8} {rest : Bytes} {n : Nat} :
    utf8Sequence (b :: rest) = some n ↔
      (b.toNat < 128 ∧ n = 1) ∨
      (128 ≤ b.toNat ∧ ∃ extra lead code,
        leadByte b = some (extra, lead) ∧
        extra ≤ rest.length ∧
        continuationBytes lead (rest.take extra) = some code ∧
        overlong extra code = false ∧
        code ≤ 0x10FFFF ∧
        ¬ (0xD800 ≤ code ∧ code ≤ 0xDFFF) ∧
        n = extra + 1) := by
  have hascii : b < 0x80 ↔ b.toNat < 128 := by
    rw [UInt8.lt_iff_toNat_lt]
    rfl
  constructor
  · intro h
    simp only [utf8Sequence, hascii] at h
    split at h
    · rename_i hlt
      exact Or.inl ⟨hlt, by simpa using h.symm⟩
    · rename_i hge
      refine Or.inr ⟨by omega, ?_⟩
      cases hlead : leadByte b with
      | none =>
          simp [hlead] at h
      | some lead =>
          obtain ⟨extra, lead⟩ := lead
          simp only [hlead] at h
          split at h
          · cases h
          · rename_i hlen
            cases hcont : continuationBytes lead (rest.take extra) with
            | none =>
                simp [hcont] at h
            | some code =>
                simp only [hcont] at h
                split at h
                · cases h
                · split at h
                  · cases h
                  · rename_i hover hrange
                    refine ⟨extra, lead, code, rfl, by omega, hcont,
                      by simpa using hover, by omega, by omega,
                      by simpa using h.symm⟩
  · rintro (⟨hlt, rfl⟩ | ⟨hge, extra, lead, code, hlead, hlen, hcont, hover,
      hmax, hsurrogate, rfl⟩)
    · simp [utf8Sequence, hascii, hlt]
    · have hnot : ¬ b.toNat < 128 := by
        omega
      have hlen' : ¬ rest.length < extra := by
        omega
      have hrange :
          ¬ (0x10FFFF < code ∨ (0xD800 ≤ code ∧ code ≤ 0xDFFF)) := by
        omega
      simp [utf8Sequence, hascii, hnot, hlead, hlen', hcont, hover, hrange]

theorem utf8Sequence_two
    {b0 b1 : UInt8} {rest : Bytes} {v : Nat}
    (h0 : b0.toNat = v / 64 + 192)
    (h1 : b1.toNat = v % 64 + 128)
    (hlo : 0x80 ≤ v) (hhi : v ≤ 0x7FF) :
    utf8Sequence (b0 :: b1 :: rest) = some 2 := by
  refine utf8Sequence_cons_iff.mpr (Or.inr ⟨by omega, 1, b0.toNat - 192, v,
    leadByte_eq_some_iff.mpr (by omega), by simp, ?_, ?_, by omega,
    by omega, rfl⟩)
  · simp only [List.take_succ_cons, List.take_zero,
      continuationBytes_cons_iff, continuationBytes_nil,
      Option.some.injEq]
    omega
  · simp [overlong, hlo]

theorem utf8Sequence_three
    {b0 b1 b2 : UInt8} {rest : Bytes} {v : Nat}
    (h0 : b0.toNat = v / 4096 + 224)
    (h1 : b1.toNat = v / 64 % 64 + 128)
    (h2 : b2.toNat = v % 64 + 128)
    (hlo : 0x800 ≤ v) (hhi : v ≤ 0xFFFF)
    (hsurrogate : ¬ (0xD800 ≤ v ∧ v ≤ 0xDFFF)) :
    utf8Sequence (b0 :: b1 :: b2 :: rest) = some 3 := by
  refine utf8Sequence_cons_iff.mpr (Or.inr ⟨by omega, 2, b0.toNat - 224, v,
    leadByte_eq_some_iff.mpr (by omega), by simp, ?_, ?_, by omega,
    hsurrogate, rfl⟩)
  · simp only [List.take_succ_cons, List.take_zero,
      continuationBytes_cons_iff, continuationBytes_nil,
      Option.some.injEq]
    omega
  · simp [overlong, hlo]

theorem utf8Sequence_four
    {b0 b1 b2 b3 : UInt8} {rest : Bytes} {v : Nat}
    (h0 : b0.toNat = v / 262144 + 240)
    (h1 : b1.toNat = v / 4096 % 64 + 128)
    (h2 : b2.toNat = v / 64 % 64 + 128)
    (h3 : b3.toNat = v % 64 + 128)
    (hlo : 0x10000 ≤ v) (hhi : v ≤ 0x10FFFF) :
    utf8Sequence (b0 :: b1 :: b2 :: b3 :: rest) = some 4 := by
  refine utf8Sequence_cons_iff.mpr (Or.inr ⟨by omega, 3, b0.toNat - 240, v,
    leadByte_eq_some_iff.mpr (by omega), by simp, ?_, ?_, hhi,
    by omega, rfl⟩)
  · simp only [List.take_succ_cons, List.take_zero,
      continuationBytes_cons_iff, continuationBytes_nil,
      Option.some.injEq]
    omega
  · simp [overlong, hlo]

theorem toNat_ofNat_of_lt
    {n : Nat}
    (h : n < 256) :
    (UInt8.ofNat n).toNat = n := by
  simpa using h

/-- The scanner accepts the encoding of a character in front of anything. -/
theorem utf8Sequence_encode
    (c : Char) (rest : Bytes) :
    utf8Sequence (String.utf8EncodeChar c ++ rest) =
      some (String.utf8EncodeChar c).length := by
  have hvalid : c.val.toNat < 0xD800 ∨
      (0xDFFF < c.val.toNat ∧ c.val.toNat < 0x110000) := c.valid
  generalize hv : c.val.toNat = v at hvalid
  unfold String.utf8EncodeChar
  simp only [hv]
  split_ifs with h1 h2 h3
  · exact utf8Sequence_cons_iff.mpr
      (Or.inl ⟨by rw [toNat_ofNat_of_lt] <;> omega, rfl⟩)
  · exact utf8Sequence_two (v := v)
      (by rw [toNat_ofNat_of_lt (by omega)]; omega)
      (toNat_ofNat_of_lt (by omega))
      (by omega) h2
  · exact utf8Sequence_three (v := v)
      (by rw [toNat_ofNat_of_lt (by omega)]; omega)
      (toNat_ofNat_of_lt (by omega))
      (toNat_ofNat_of_lt (by omega))
      (by omega) h3 (by omega)
  · exact utf8Sequence_four (v := v)
      (by rw [toNat_ofNat_of_lt (by omega)]; omega)
      (toNat_ofNat_of_lt (by omega))
      (toNat_ofNat_of_lt (by omega))
      (toNat_ofNat_of_lt (by omega))
      (by omega) (by omega)

/-- The scalar value of an accepted sequence, as a character. -/
theorem exists_char
    {v : Nat}
    (hmax : v ≤ 0x10FFFF)
    (hsurrogate : ¬ (0xD800 ≤ v ∧ v ≤ 0xDFFF)) :
    ∃ c : Char, c.val.toNat = v := by
  have hvalid : v.isValidChar := by
    unfold Nat.isValidChar
    omega
  exact ⟨Char.ofNatAux v hvalid, rfl⟩

theorem eq_ofNat_of_toNat
    {b : UInt8} {n : Nat}
    (h : b.toNat = n) :
    b = UInt8.ofNat n := by
  rw [← h]
  simp

/-- What the scanner accepts at the front is the encoding of a character. -/
theorem exists_encode_of_utf8Sequence
    {bytes : Bytes} {n : Nat}
    (h : utf8Sequence bytes = some n) :
    ∃ c : Char,
      bytes = String.utf8EncodeChar c ++ bytes.drop n ∧
        n = (String.utf8EncodeChar c).length := by
  cases bytes with
  | nil =>
      cases h
  | cons b0 rest =>
      rcases utf8Sequence_cons_iff.mp h with ⟨hlt, rfl⟩ |
        ⟨-, extra, lead, code, hlead, hlen, hcont, hover, hmax,
          hsurrogate, rfl⟩
      · obtain ⟨c, hc⟩ := exists_char (v := b0.toNat) (by omega) (by omega)
        refine ⟨c, ?_, ?_⟩ <;>
          simp [String.utf8EncodeChar, hc, show b0.toNat ≤ 127 by omega]
      · obtain ⟨c, hc⟩ := exists_char hmax hsurrogate
        refine ⟨c, ?_⟩
        rcases leadByte_eq_some_iff.mp hlead with
          ⟨rfl, hlo, hhi, hpayload⟩ | ⟨rfl, hlo, hhi, hpayload⟩ |
          ⟨rfl, hlo, hhi, hpayload⟩
        · obtain _ | ⟨b1, rest⟩ := rest
          · simp at hlen
          simp only [List.take_succ_cons, List.take_zero,
            continuationBytes_cons_iff, continuationBytes_nil,
            Option.some.injEq] at hcont
          have hlow : 0x80 ≤ code := by
            simpa [overlong] using hover
          have hhigh : code ≤ 0x7FF := by
            omega
          rw [eq_ofNat_of_toNat (b := b0) (n := code / 64 % 32 + 192)
              (by omega),
            eq_ofNat_of_toNat (b := b1) (n := code % 64 + 128) (by omega)]
          simp [String.utf8EncodeChar, hc, hhigh,
            show ¬ code ≤ 0x7F by omega]
        · obtain _ | ⟨b1, _ | ⟨b2, rest⟩⟩ := rest
          · simp at hlen
          · simp at hlen
          simp only [List.take_succ_cons, List.take_zero,
            continuationBytes_cons_iff, continuationBytes_nil,
            Option.some.injEq] at hcont
          have hlow : 0x800 ≤ code := by
            simpa [overlong] using hover
          have hhigh : code ≤ 0xFFFF := by
            omega
          rw [eq_ofNat_of_toNat (b := b0) (n := code / 4096 % 16 + 224)
              (by omega),
            eq_ofNat_of_toNat (b := b1) (n := code / 64 % 64 + 128)
              (by omega),
            eq_ofNat_of_toNat (b := b2) (n := code % 64 + 128) (by omega)]
          simp [String.utf8EncodeChar, hc, hhigh,
            show ¬ code ≤ 0x7F by omega, show ¬ code ≤ 0x7FF by omega]
        · obtain _ | ⟨b1, _ | ⟨b2, _ | ⟨b3, rest⟩⟩⟩ := rest
          · simp at hlen
          · simp at hlen
          · simp at hlen
          simp only [List.take_succ_cons, List.take_zero,
            continuationBytes_cons_iff, continuationBytes_nil,
            Option.some.injEq] at hcont
          have hlow : 0x10000 ≤ code := by
            simpa [overlong] using hover
          rw [eq_ofNat_of_toNat (b := b0) (n := code / 262144 % 8 + 240)
              (by omega),
            eq_ofNat_of_toNat (b := b1) (n := code / 4096 % 64 + 128)
              (by omega),
            eq_ofNat_of_toNat (b := b2) (n := code / 64 % 64 + 128)
              (by omega),
            eq_ofNat_of_toNat (b := b3) (n := code % 64 + 128) (by omega)]
          simp [String.utf8EncodeChar, hc, show ¬ code ≤ 0x7F by omega,
            show ¬ code ≤ 0x7FF by omega, show ¬ code ≤ 0xFFFF by omega]

theorem skipAscii_ascii
    (bytes : Bytes) :
    ∀ b ∈ bytes.take (skipAscii bytes), b.toNat < 128 := by
  fun_induction skipAscii bytes with
  | case1 =>
      simp
  | case2 b0 b1 b2 b3 b4 b5 b6 b7 rest hascii ih =>
      intro b hb
      rw [Nat.add_comm 8] at hb
      simp only [List.take_succ_cons, List.mem_cons] at hb
      simp only [List.any_cons, List.any_nil, Bool.or_false,
        Bool.or_eq_true, high_bit_iff, not_or, not_le] at hascii
      rcases hb with rfl | rfl | rfl | rfl | rfl | rfl | rfl | rfl | hb
      all_goals first | omega | exact ih b hb
  | case3 =>
      simp

theorem validUtf8_nil : ValidUtf8 [] :=
  ⟨[], rfl⟩

/-- A nonempty value is well formed when its first sequence and the rest are. -/
theorem validUtf8_iff_sequence
    {bytes : Bytes}
    (hne : bytes ≠ []) :
    ValidUtf8 bytes ↔
      ∃ n, utf8Sequence bytes = some n ∧ ValidUtf8 (bytes.drop n) := by
  constructor
  · rintro ⟨chars, rfl⟩
    cases chars with
    | nil =>
        exact absurd rfl hne
    | cons c chars =>
        refine ⟨_, utf8Sequence_encode c _, chars, ?_⟩
        simp
  · rintro ⟨n, hseq, chars, hchars⟩
    obtain ⟨c, hc, -⟩ := exists_encode_of_utf8Sequence hseq
    refine ⟨c :: chars, ?_⟩
    rw [List.flatMap_cons, ← hchars]
    exact hc

theorem validUtf8_ascii_append
    {ascii rest : Bytes}
    (hascii : ∀ b ∈ ascii, b.toNat < 128) :
    ValidUtf8 (ascii ++ rest) ↔ ValidUtf8 rest := by
  induction ascii with
  | nil =>
      rfl
  | cons b ascii ih =>
      have hseq :
          utf8Sequence (b :: (ascii ++ rest)) = some 1 :=
        utf8Sequence_cons_iff.mpr
          (Or.inl ⟨hascii b (by simp), rfl⟩)
      rw [List.cons_append, validUtf8_iff_sequence (by simp), hseq]
      simpa using ih fun c hc => hascii c (by simp [hc])

/-- The loop finds no fault exactly when what it still has to scan is well
formed. -/
theorem utf8InvalidFrom_eq_zero_iff
    (fuel i : Nat) (bytes : Bytes)
    (hfuel : bytes.length ≤ fuel) :
    utf8InvalidFrom fuel i bytes = 0 ↔ ValidUtf8 bytes := by
  induction fuel generalizing i bytes with
  | zero =>
      obtain rfl : bytes = [] := by
        simpa using hfuel
      simp [utf8InvalidFrom, validUtf8_nil]
  | succ fuel ih =>
      have hskip :
          ValidUtf8 bytes ↔ ValidUtf8 (bytes.drop (skipAscii bytes)) := by
        conv_lhs =>
          rw [← List.take_append_drop (skipAscii bytes) bytes]
        exact validUtf8_ascii_append (skipAscii_ascii bytes)
      rw [hskip, utf8InvalidFrom]
      have hlen : (bytes.drop (skipAscii bytes)).length ≤ fuel + 1 := by
        rw [List.length_drop]
        omega
      generalize bytes.drop (skipAscii bytes) = tail at hlen
      cases tail with
      | nil =>
          simp [validUtf8_nil]
      | cons b tail =>
          rw [validUtf8_iff_sequence (by simp)]
          cases hseq : utf8Sequence (b :: tail) with
          | none =>
              simp [hseq]
          | some n =>
              obtain ⟨c, -, hn⟩ := exists_encode_of_utf8Sequence hseq
              have hpos : 0 < n := by
                rw [hn]
                exact List.length_pos_of_ne_nil
                  (String.utf8EncodeChar_ne_nil)
              simp only [hseq, Option.some.injEq, exists_eq_left']
              apply ih
              rw [List.length_drop]
              simp only [List.length_cons] at hlen ⊢
              omega

/-- The scanner reports no fault exactly on well-formed UTF-8. -/
theorem utf8InvalidAt_eq_zero_iff
    (bytes : Bytes) :
    utf8InvalidAt bytes = 0 ↔ ValidUtf8 bytes :=
  utf8InvalidFrom_eq_zero_iff _ _ _ le_rfl

end Correctness

section StringCheck

/-- `qio_check_string_bytes`. The row is 0-based; messages count from one. -/
def checkStringBytes
    (memory : Memory) (value : ByteArrayRef)
    (column : String) (row : Nat) : Except ReadError Unit :=
  if value.length < 0 ∨ (0 < value.length ∧ value.data = none) then
    .error (.invalidByteArray column)
  else if 0 < value.length ∧ (0 : UInt8) ∈ value.bytes memory then
    .error (.embeddedNul column (row + 1))
  else if 0 < value.length ∧ 0 < utf8InvalidAt (value.bytes memory) then
    .error (.invalidUtf8 column (row + 1)
      (utf8InvalidAt (value.bytes memory)))
  else
    .ok ()

/-- The values an R string cannot hold as text. -/
def TextFault (bytes : Bytes) : Prop :=
  (0 : UInt8) ∈ bytes ∨ ¬ ValidUtf8 bytes

instance (bytes : Bytes) : Decidable (ValidUtf8 bytes) :=
  decidable_of_iff _ (utf8InvalidAt_eq_zero_iff bytes)

instance (bytes : Bytes) : Decidable (TextFault bytes) :=
  inferInstanceAs (Decidable (_ ∨ _))

theorem ByteArrayRef.Valid.not_malformed
    {value : ByteArrayRef}
    (hvalid : value.Valid) :
    ¬ (value.length < 0 ∨ (0 < value.length ∧ value.data = none)) := by
  rintro (hneg | ⟨hpos, hnone⟩)
  · have := hvalid.1
    omega
  · simpa [hnone] using hvalid.2 hpos

/-- A valid descriptor passes the check exactly when its bytes are text. -/
theorem checkStringBytes_ok_iff
    {memory : Memory} {value : ByteArrayRef}
    {column : String} {row : Nat}
    (hvalid : value.Valid) :
    checkStringBytes memory value column row = .ok () ↔
      ¬ TextFault (value.bytes memory) := by
  rw [checkStringBytes, if_neg hvalid.not_malformed, TextFault, not_or, not_not,
    ← utf8InvalidAt_eq_zero_iff]
  by_cases hpos : 0 < value.length
  · by_cases hnul : (0 : UInt8) ∈ value.bytes memory
    · simp [hpos, hnul]
    · by_cases hutf : 0 < utf8InvalidAt (value.bytes memory)
      · simp [hpos, hnul, hutf, Nat.pos_iff_ne_zero.mp hutf]
      · simp [hpos, hnul, Nat.eq_zero_of_not_pos hutf]
  · have hnil : value.bytes memory = [] := by
      apply List.eq_nil_of_length_eq_zero
      rw [ByteArrayRef.length_bytes memory hvalid]
      omega
    simp [hpos, hnil, utf8InvalidAt, utf8InvalidFrom]

/-- On a valid descriptor the check raises only text faults. -/
theorem isTextFault_of_checkStringBytes
    {memory : Memory} {value : ByteArrayRef}
    {column : String} {row : Nat} {e : ReadError}
    (hvalid : value.Valid)
    (h : checkStringBytes memory value column row = .error e) :
    e.isTextFault = true := by
  rw [checkStringBytes, if_neg hvalid.not_malformed] at h
  split_ifs at h <;> cases h <;> rfl

end StringCheck

section Uuid

def hexDigits : List UInt8 :=
  "0123456789abcdef".toUTF8.toList

/-- The two hexadecimal digits of a byte. -/
def hexByte (byte : UInt8) : Bytes :=
  [hexDigits.getD (byte >>> 4).toNat 0,
    hexDigits.getD (byte &&& 0x0F).toNat 0]

/-- The groups of `qio_format_uuid`, joined by hyphens (byte 45). -/
def formatUuidGroups : Bytes → List Nat → Bytes
  | _, [] => []
  | bytes, [width] => (bytes.take width).flatMap hexByte
  | bytes, width :: next :: widths =>
      (bytes.take width).flatMap hexByte ++
        45 :: formatUuidGroups (bytes.drop width) (next :: widths)

/-- `qio_format_uuid`: 16 bytes as the 8-4-4-4-12 text form. -/
def formatUuid (bytes : Bytes) : Bytes :=
  formatUuidGroups bytes [4, 2, 2, 2, 6]

/-- `qio_check_uuid_width`. -/
def checkUuidWidth
    (typeLength : ℤ) (column : String) : Except ReadError Unit :=
  if typeLength ≠ 16 then
    .error (.uuidWidth column typeLength)
  else
    .ok ()

end Uuid

end Read
end QioParquet
