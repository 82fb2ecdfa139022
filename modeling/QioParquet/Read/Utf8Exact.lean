import QioParquet.Read.Utf8
import Mathlib.Tactic

/-!
# The UTF-8 check is exact

`qio_utf8_invalid_at` against the encoding itself, its reported position
included, and against the byte-at-a-time scanner of
`tools/utf8-validation-differential.c`, which has no eight-byte skip.

Both scanners satisfy one specification, `Scanned`: the value is well formed,
or the position is that of its first fault. A value has at most one first fault
(`FirstFault.unique`), so the two answers are the same.

The positions of the source are `int32_t`. `utf8InvalidInt32` is the scanner
with every sum of the source checked; on values of at most `2 ^ 31 - 4` bytes no
sum overflows.
-/

namespace QioParquet
namespace Read

section Specification

/-- Byte `p` is the first fault: the bytes before it are well formed, and no
well-formed sequence starts there. -/
def FirstFault (bytes : Bytes) (p : Nat) : Prop :=
  p < bytes.length ∧ ValidUtf8 (bytes.take p) ∧
    ∀ c : Char, ¬ String.utf8EncodeChar c <+: bytes.drop p

/-- The answer of a scanner that has `bytes` left, `i` bytes into the value. -/
def Scanned (i : Nat) (bytes : Bytes) (answer : Nat) : Prop :=
  (answer = 0 ∧ ValidUtf8 bytes) ∨
    ∃ p, answer = i + p + 1 ∧ FirstFault bytes p

/-- What follows a well-formed part is well formed if the whole is. -/
theorem validUtf8_append_iff
    {front rest : Bytes}
    (hfront : ValidUtf8 front) :
    ValidUtf8 (front ++ rest) ↔ ValidUtf8 rest := by
  obtain ⟨chars, rfl⟩ := hfront
  induction chars with
  | nil =>
      rfl
  | cons c chars ih =>
      have hseq :=
        utf8Sequence_encode c (chars.flatMap String.utf8EncodeChar ++ rest)
      rw [List.flatMap_cons, List.append_assoc,
        validUtf8_iff_sequence (by simp [String.utf8EncodeChar_ne_nil]), hseq]
      simpa using ih

theorem utf8Sequence_none_iff
    {bytes : Bytes} :
    utf8Sequence bytes = none ↔
      ∀ c : Char, ¬ String.utf8EncodeChar c <+: bytes := by
  constructor
  · rintro hnone c ⟨rest, rfl⟩
    rw [utf8Sequence_encode] at hnone
    cases hnone
  · intro hno
    cases hseq : utf8Sequence bytes with
    | none =>
        rfl
    | some n =>
        obtain ⟨c, hc, -⟩ := exists_encode_of_utf8Sequence hseq
        exact absurd ⟨_, hc.symm⟩ (hno c)

/-- No longer part of the value that is well formed reaches past a fault. -/
theorem FirstFault.not_valid_take
    {bytes : Bytes} {p q : Nat}
    (hp : FirstFault bytes p)
    (hlt : p < q) :
    ¬ ValidUtf8 (bytes.take q) := by
  obtain ⟨hlen, hvalid, hno⟩ := hp
  intro hq
  have hsplit : bytes.take q = bytes.take p ++ (bytes.drop p).take (q - p) := by
    rw [← List.take_add]
    congr 1
    omega
  rw [hsplit, validUtf8_append_iff hvalid] at hq
  obtain ⟨chars, hchars⟩ := hq
  cases chars with
  | nil =>
      have hnil : ((bytes.drop p).take (q - p)).length = 0 := by
        rw [hchars]
        rfl
      rw [List.length_take, List.length_drop] at hnil
      omega
  | cons c chars =>
      refine hno c (List.IsPrefix.trans
        ⟨chars.flatMap String.utf8EncodeChar, ?_⟩ (List.take_prefix (q - p) _))
      rw [hchars, List.flatMap_cons]

theorem FirstFault.not_valid
    {bytes : Bytes} {p : Nat}
    (hp : FirstFault bytes p) :
    ¬ ValidUtf8 bytes := by
  have h := hp.not_valid_take hp.1
  rwa [List.take_length] at h

/-- The first fault is one position. -/
theorem FirstFault.unique
    {bytes : Bytes} {p q : Nat}
    (hp : FirstFault bytes p)
    (hq : FirstFault bytes q) :
    p = q := by
  rcases Nat.lt_trichotomy p q with hlt | rfl | hlt
  · exact absurd hq.2.1 (hp.not_valid_take hlt)
  · rfl
  · exact absurd hp.2.1 (hq.not_valid_take hlt)

/-- The specification leaves one answer. -/
theorem Scanned.unique
    {i : Nat} {bytes : Bytes} {a b : Nat}
    (ha : Scanned i bytes a)
    (hb : Scanned i bytes b) :
    a = b := by
  rcases ha with ⟨rfl, hvalid⟩ | ⟨p, rfl, hp⟩
  · rcases hb with ⟨rfl, -⟩ | ⟨q, rfl, hq⟩
    · rfl
    · exact absurd hvalid hq.not_valid
  · rcases hb with ⟨rfl, hvalid⟩ | ⟨q, rfl, hq⟩
    · exact absurd hvalid hp.not_valid
    · rw [hp.unique hq]

/-- A well-formed part at the front moves the answer along. -/
theorem Scanned.append
    {i answer : Nat} {front rest : Bytes}
    (hfront : ValidUtf8 front)
    (hrest : Scanned (i + front.length) rest answer) :
    Scanned i (front ++ rest) answer := by
  rcases hrest with ⟨rfl, hvalid⟩ | ⟨p, rfl, hlen, hvalid, hno⟩
  · exact Or.inl ⟨rfl, (validUtf8_append_iff hfront).mpr hvalid⟩
  · refine Or.inr ⟨front.length + p, by omega, ?_, ?_, ?_⟩
    · rw [List.length_append]
      omega
    · rw [List.take_length_add_append]
      exact (validUtf8_append_iff hfront).mpr hvalid
    · rw [List.drop_length_add_append]
      exact hno

/-- One sequence at the front: it moves the answer along, or is the fault. -/
theorem Scanned.sequence
    {i answer n : Nat} {bytes : Bytes}
    (hseq : utf8Sequence bytes = some n)
    (hrest : Scanned (i + n) (bytes.drop n) answer) :
    Scanned i bytes answer := by
  obtain ⟨c, hc, rfl⟩ := exists_encode_of_utf8Sequence hseq
  rw [hc]
  exact Scanned.append ⟨[c], by simp⟩ hrest

theorem Scanned.fault
    {i : Nat} {bytes : Bytes}
    (hne : bytes ≠ [])
    (hseq : utf8Sequence bytes = none) :
    Scanned i bytes (i + 1) := by
  refine Or.inr ⟨0, rfl, List.length_pos_of_ne_nil hne, ?_, ?_⟩
  · rw [List.take_zero]
    exact validUtf8_nil
  · rw [List.drop_zero]
    exact utf8Sequence_none_iff.mp hseq

end Specification

section Scanners

/-- The byte-at-a-time loop, `i` bytes into the value. -/
def utf8PlainFrom : Nat → Nat → Bytes → Nat
  | 0, _, _ => 0
  | _ + 1, _, [] => 0
  | fuel + 1, i, byte :: rest =>
      match utf8Sequence (byte :: rest) with
      | none => i + 1
      | some n => utf8PlainFrom fuel (i + n) ((byte :: rest).drop n)

/-- `reference` of the differential test: no eight-byte skip. -/
def utf8Plain (bytes : Bytes) : Nat :=
  utf8PlainFrom bytes.length 0 bytes

/-- A sum of two `int32_t`; past the range it is undefined. -/
def addInt32 (a b : Nat) : Option Nat :=
  if a + b < 2 ^ 31 then some (a + b) else none

/-- The continuation bytes a lead byte announces; an ASCII or stray byte
announces none. -/
def announced (byte : UInt8) : Nat :=
  match leadByte byte with
  | none => 0
  | some (extra, _) => extra

/-- The scanning loop with its `int32_t` sums, `i + extra` and `i += extra + 1`,
checked. -/
def utf8InvalidInt32From : Nat → Nat → Bytes → Option Nat
  | 0, _, _ => some 0
  | fuel + 1, i, bytes =>
      let skipped := skipAscii bytes
      match bytes.drop skipped with
      | [] => some 0
      | byte :: rest => do
          let _ ← addInt32 (i + skipped) (announced byte)
          match utf8Sequence (byte :: rest) with
          | none => some (i + skipped + 1)
          | some n =>
              let next ← addInt32 (i + skipped) n
              utf8InvalidInt32From fuel next ((byte :: rest).drop n)

/-- `qio_utf8_invalid_at` in `int32_t`; `none` is an overflow. -/
def utf8InvalidInt32 (bytes : Bytes) : Option Nat :=
  utf8InvalidInt32From bytes.length 0 bytes

theorem utf8Sequence_pos
    {bytes : Bytes} {n : Nat}
    (hseq : utf8Sequence bytes = some n) :
    0 < n ∧ n ≤ bytes.length := by
  obtain ⟨c, hc, rfl⟩ := exists_encode_of_utf8Sequence hseq
  constructor
  · exact List.length_pos_of_ne_nil String.utf8EncodeChar_ne_nil
  · rw [hc, List.length_append]
    omega

theorem utf8PlainFrom_scanned
    (fuel i : Nat) (bytes : Bytes)
    (hfuel : bytes.length ≤ fuel) :
    Scanned i bytes (utf8PlainFrom fuel i bytes) := by
  induction fuel generalizing i bytes with
  | zero =>
      obtain rfl : bytes = [] := by
        simpa using hfuel
      exact Or.inl ⟨rfl, validUtf8_nil⟩
  | succ fuel ih =>
      cases bytes with
      | nil =>
          exact Or.inl ⟨rfl, validUtf8_nil⟩
      | cons byte rest =>
          rw [utf8PlainFrom]
          cases hseq : utf8Sequence (byte :: rest) with
          | none =>
              exact Scanned.fault (by simp) hseq
          | some n =>
              have hn := utf8Sequence_pos hseq
              refine Scanned.sequence hseq (ih _ _ ?_)
              rw [List.length_drop]
              omega

/-- The run of whole ASCII words that is skipped is well formed. -/
theorem validUtf8_skipped
    (bytes : Bytes) :
    ValidUtf8 (bytes.take (skipAscii bytes)) := by
  have h : ValidUtf8 (bytes.take (skipAscii bytes) ++ []) ↔ ValidUtf8 [] :=
    validUtf8_ascii_append (skipAscii_ascii bytes)
  rw [List.append_nil] at h
  exact h.mpr validUtf8_nil

theorem skipAscii_le
    (bytes : Bytes) :
    skipAscii bytes ≤ bytes.length := by
  fun_induction skipAscii bytes with
  | case1 =>
      exact Nat.zero_le _
  | case2 b0 b1 b2 b3 b4 b5 b6 b7 rest hascii ih =>
      simp only [List.length_cons]
      omega
  | case3 =>
      exact Nat.zero_le _

/-- Skipping moves the answer along. -/
theorem Scanned.skip
    {i answer : Nat} {bytes : Bytes}
    (h : Scanned (i + skipAscii bytes) (bytes.drop (skipAscii bytes)) answer) :
    Scanned i bytes answer := by
  have hlen : (bytes.take (skipAscii bytes)).length = skipAscii bytes :=
    List.length_take_of_le (skipAscii_le bytes)
  rw [← List.take_append_drop (skipAscii bytes) bytes]
  apply Scanned.append (validUtf8_skipped bytes)
  rw [hlen]
  exact h

theorem utf8InvalidFrom_scanned
    (fuel i : Nat) (bytes : Bytes)
    (hfuel : bytes.length ≤ fuel) :
    Scanned i bytes (utf8InvalidFrom fuel i bytes) := by
  induction fuel generalizing i bytes with
  | zero =>
      obtain rfl : bytes = [] := by
        simpa using hfuel
      exact Or.inl ⟨rfl, validUtf8_nil⟩
  | succ fuel ih =>
      apply Scanned.skip
      rw [utf8InvalidFrom]
      have hlen : (bytes.drop (skipAscii bytes)).length ≤ fuel + 1 := by
        rw [List.length_drop]
        omega
      generalize bytes.drop (skipAscii bytes) = rest at hlen
      cases rest with
      | nil =>
          exact Or.inl ⟨rfl, validUtf8_nil⟩
      | cons byte rest =>
          cases hseq : utf8Sequence (byte :: rest) with
          | none =>
              simpa [hseq] using Scanned.fault (by simp) hseq
          | some n =>
              have hn := utf8Sequence_pos hseq
              simp only [hseq]
              refine Scanned.sequence hseq (ih _ _ ?_)
              rw [List.length_drop]
              omega

theorem announced_le
    (byte : UInt8) :
    announced byte ≤ 3 := by
  unfold announced
  split
  · exact Nat.zero_le 3
  · rename_i extra lead hlead
    rcases leadByte_eq_some_iff.mp hlead with h | h | h <;> omega

/-- On a value short enough every sum of the loop is in range: a position is
below the length, and a lead byte announces at most three bytes. -/
theorem utf8InvalidInt32From_eq
    (fuel i : Nat) (bytes : Bytes)
    (hlen : i + bytes.length ≤ 2 ^ 31 - 4) :
    utf8InvalidInt32From fuel i bytes =
      some (utf8InvalidFrom fuel i bytes) := by
  induction fuel generalizing i bytes with
  | zero =>
      rfl
  | succ fuel ih =>
      rw [utf8InvalidInt32From, utf8InvalidFrom]
      have hrest : i + skipAscii bytes +
          (bytes.drop (skipAscii bytes)).length ≤ 2 ^ 31 - 4 := by
        have hle := skipAscii_le bytes
        rw [List.length_drop]
        omega
      generalize bytes.drop (skipAscii bytes) = rest at hrest
      generalize i + skipAscii bytes = j at hrest
      cases rest with
      | nil =>
          rfl
      | cons byte rest =>
          have hextra := announced_le byte
          have hsum : addInt32 j (announced byte) =
              some (j + announced byte) := by
            rw [List.length_cons] at hrest
            exact if_pos (by omega)
          simp only [hsum, Option.bind_eq_bind, Option.bind_some]
          cases hseq : utf8Sequence (byte :: rest) with
          | none =>
              rfl
          | some n =>
              have hn := utf8Sequence_pos hseq
              have hnext : addInt32 j n = some (j + n) :=
                if_pos (by omega)
              simp only [hnext, Option.bind_some]
              apply ih
              rw [List.length_drop]
              omega

end Scanners

section Exactness

/-- The check in `int32_t` reports 0 exactly on well-formed UTF-8, otherwise the
1-based position of the first fault, and what it reports is what the
byte-at-a-time scanner reports. -/
theorem utf8InvalidAt_exact
    (bytes : Bytes)
    (hlen : bytes.length ≤ 2 ^ 31 - 4) :
    utf8InvalidInt32 bytes = some (utf8InvalidAt bytes) ∧
      (utf8InvalidAt bytes = 0 ↔ ValidUtf8 bytes) ∧
      (∀ p, utf8InvalidAt bytes = p + 1 → FirstFault bytes p) ∧
      utf8InvalidAt bytes = utf8Plain bytes := by
  have hscan : Scanned 0 bytes (utf8InvalidAt bytes) :=
    utf8InvalidFrom_scanned _ _ _ le_rfl
  refine ⟨?_, utf8InvalidAt_eq_zero_iff bytes, ?_, ?_⟩
  · exact utf8InvalidInt32From_eq _ _ _ (by omega)
  · intro p hp
    rcases hscan with ⟨hzero, -⟩ | ⟨q, hq, hfault⟩
    · omega
    · obtain rfl : p = q := by omega
      exact hfault
  · exact hscan.unique (utf8PlainFrom_scanned _ _ _ le_rfl)

/-- An overlong spelling of `/` after ten ASCII bytes. -/
def overlongSlash : Bytes :=
  List.replicate 10 0x61 ++ [0xC0, 0xAF]

theorem utf8InvalidAt_exact_overlong :
    utf8InvalidAt overlongSlash = 11 ∧ FirstFault overlongSlash 10 ∧
      utf8Plain overlongSlash = 11 := by
  have hat : utf8InvalidAt overlongSlash = 11 := by
    decide +kernel
  obtain ⟨-, -, hfault, hplain⟩ :=
    utf8InvalidAt_exact overlongSlash (by decide +kernel)
  exact ⟨hat, hfault 10 hat, hplain.symm.trans hat⟩

end Exactness

end Read
end QioParquet
