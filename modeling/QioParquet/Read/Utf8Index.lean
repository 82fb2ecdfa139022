import QioParquet.Read.Utf8Exact
import Mathlib.Tactic

/-!
# The indexes of the UTF-8 scan

`qio_skip_ascii` and `qio_utf8_invalid_at` keep their position in an `int32_t`. Here
the scan is followed with exact integers, and every index value it computes is
recorded: `length - i` and `i + 8` of the skip, `i + 1`, `i + extra`, `i + k` and
`i + extra + 1` of the loop.

All of them are bounded by the length but one. `i + extra` is computed before it is
compared with the length, so a lead byte close to the end of a value of nearly
`2 ^ 31` bytes takes it out of range.
-/

namespace QioParquet
namespace Read

section Indexes

/-- The integers a signed 32-bit variable holds. -/
def IsInt32 (z : ℤ) : Prop :=
  -2 ^ 31 ≤ z ∧ z < 2 ^ 31

/-- The index values of `qio_skip_ascii` at byte `i`: `length - i` at every test, and
`i + 8` for every word that is skipped. -/
def skipIndexes (length : ℤ) : ℤ → Bytes → List ℤ
  | i, b0 :: b1 :: b2 :: b3 :: b4 :: b5 :: b6 :: b7 :: rest =>
      if [b0, b1, b2, b3, b4, b5, b6, b7].any (fun b => b &&& 0x80 != 0) then
        [length - i]
      else
        (length - i) :: (i + 8) :: skipIndexes length (i + 8) rest
  | i, _ => [length - i]

/-- The values of `i + k` for the continuation bytes that are looked at. -/
def continuationIndexes : ℤ → Bytes → List ℤ
  | _, [] => []
  | index, cont :: rest =>
      index :: if cont &&& 0xC0 ≠ 0x80 then [] else continuationIndexes (index + 1) rest

/-- The index values of the rest of a turn of `qio_utf8_invalid_at` at byte `i`. -/
def sequenceIndexes (length i : ℤ) : Bytes → List ℤ
  | [] => []
  | byte :: rest =>
      if byte < 0x80 then
        [i + 1]
      else
        match leadByte byte with
        | none => []
        | some (extra, _) =>
            (i + extra) ::
              if length ≤ i + extra then
                []
              else
                continuationIndexes (i + 1) (rest.take extra) ++
                  if (utf8Sequence (byte :: rest)).isSome then
                    [i + extra + 1]
                  else
                    []

/-- The index values of the loop, `i` bytes into the value. -/
def scanIndexes (length : ℤ) : Nat → ℤ → Bytes → List ℤ
  | 0, _, _ => []
  | fuel + 1, i, bytes =>
      if bytes = [] then
        []
      else
        let skipped := skipAscii bytes
        let tail := bytes.drop skipped
        skipIndexes length i bytes ++ sequenceIndexes length (i + skipped) tail ++
          match utf8Sequence tail with
          | none => []
          | some n => scanIndexes length fuel (i + skipped + n) (tail.drop n)

/-- Every index value computed for a value. -/
def utf8Indexes (bytes : Bytes) : List ℤ :=
  scanIndexes bytes.length bytes.length 0 bytes

end Indexes

section Bounds

/-- The skip stays inside the value. -/
theorem skipIndexes_range
    {length : ℤ} {i : ℤ} {bytes : Bytes}
    (hi : 0 ≤ i)
    (hlength : length = i + bytes.length) :
    ∀ v ∈ skipIndexes length i bytes, 0 ≤ v ∧ v ≤ length := by
  fun_induction skipIndexes length i bytes with
  | case1 i b0 b1 b2 b3 b4 b5 b6 b7 rest hhigh =>
      intro v hv
      obtain rfl := List.mem_singleton.mp hv
      omega
  | case2 i b0 b1 b2 b3 b4 b5 b6 b7 rest hascii ih =>
      simp only [List.length_cons, Nat.cast_add, Nat.cast_one] at hlength
      intro v hv
      rw [List.mem_cons, List.mem_cons] at hv
      rcases hv with rfl | rfl | hv
      · omega
      · omega
      · exact ih (by omega) (by omega) v hv
  | case3 i bytes hshort =>
      intro v hv
      obtain rfl := List.mem_singleton.mp hv
      omega

/-- So do the continuation bytes, once they are known to be there. -/
theorem continuationIndexes_range
    {index : ℤ} {bytes : Bytes} :
    ∀ v ∈ continuationIndexes index bytes, index ≤ v ∧ v < index + bytes.length := by
  induction bytes generalizing index with
  | nil =>
      intro v hv
      cases hv
  | cons cont rest ih =>
      intro v hv
      rw [continuationIndexes, List.mem_cons] at hv
      rw [List.length_cons]
      rcases hv with rfl | hv
      · omega
      · split_ifs at hv with hcont
        · cases hv
        · have := ih v hv
          omega

/-- Only a lead byte announces anything. -/
theorem announced_of_lt
    {byte : UInt8}
    (h : byte.toNat < 192) :
    announced byte = 0 := by
  unfold announced
  split
  · rfl
  · rename_i extra lead hlead
    rcases leadByte_eq_some_iff.mp hlead with h' | h' | h' <;> omega

/-- A turn of the loop at a byte stays in range exactly when `i + extra` does. -/
theorem sequenceIndexes_iff
    {length i : ℤ} {byte : UInt8} {rest : Bytes}
    (hi : 0 ≤ i)
    (hlength : length = i + (byte :: rest).length)
    (hlimit : length < 2 ^ 31) :
    (∀ v ∈ sequenceIndexes length i (byte :: rest), IsInt32 v) ↔
      i + announced byte < 2 ^ 31 := by
  rw [List.length_cons, Nat.cast_add, Nat.cast_one] at hlength
  rw [sequenceIndexes]
  by_cases hascii : byte < 0x80
  · have hsmall : byte.toNat < 128 := hascii
    rw [if_pos hascii, announced_of_lt (by omega)]
    refine iff_of_true ?_ (by omega)
    simp only [List.mem_singleton, forall_eq, IsInt32]
    omega
  · rw [if_neg hascii, announced]
    cases hlead : leadByte byte with
    | none =>
        refine iff_of_true (by simp) ?_
        simp only [Nat.cast_zero]
        omega
    | some found =>
        obtain ⟨extra, lead⟩ := found
        simp only [List.forall_mem_cons]
        have hhead : IsInt32 (i + extra) ↔ i + extra < 2 ^ 31 := by
          simp only [IsInt32]
          omega
        rw [hhead]
        refine and_iff_left_of_imp fun _ => ?_
        -- The sums that follow are made only where the bytes are there.
        split_ifs with hshort hvalid
        · simp
        · intro v hv
          rw [List.mem_append, List.mem_singleton] at hv
          rcases hv with hv | rfl
          · have := continuationIndexes_range v hv
            have := List.length_take_le extra rest
            simp only [IsInt32]
            omega
          · simp only [IsInt32]
            omega
        · intro v hv
          rw [List.append_nil] at hv
          have := continuationIndexes_range v hv
          have := List.length_take_le extra rest
          simp only [IsInt32]
          omega

end Bounds

section Reach

/-- No well-formed beginning is followed by a lead byte that announces bytes past
index `2 ^ 31 - 1`; the bytes start at index `i`. -/
def WithinReach (i : Nat) (bytes : Bytes) : Prop :=
  ∀ p byte, bytes[p]? = some byte → ValidUtf8 (bytes.take p) →
    i + p + announced byte < 2 ^ 31

/-- A well-formed beginning whose bytes are within reach can be set aside. -/
theorem withinReach_append_iff
    {i : Nat} {front rest : Bytes}
    (hvalid : ValidUtf8 front)
    (hfront : ∀ (p : Nat) byte, front[p]? = some byte →
      i + p + announced byte < 2 ^ 31) :
    WithinReach i (front ++ rest) ↔ WithinReach (i + front.length) rest := by
  have htake : ∀ p, (front ++ rest).take (front.length + p) = front ++ rest.take p :=
    fun p => List.take_length_add_append p
  constructor
  · intro h p byte hbyte hp
    have hwhole := h (front.length + p) byte
      (by rw [List.getElem?_append_right (by omega), Nat.add_sub_cancel_left]; exact hbyte)
      (by rw [htake]; exact (validUtf8_append_iff hvalid).mpr hp)
    omega
  · intro h p byte hbyte hp
    by_cases hlt : p < front.length
    · rw [List.getElem?_append_left hlt] at hbyte
      exact hfront p byte hbyte
    · obtain ⟨q, rfl⟩ : ∃ q, p = front.length + q := ⟨p - front.length, by omega⟩
      rw [List.getElem?_append_right (by omega), Nat.add_sub_cancel_left] at hbyte
      rw [htake, validUtf8_append_iff hvalid] at hp
      have := h q byte hbyte hp
      omega

/-- Where no sequence starts, only the first byte matters. -/
theorem withinReach_fault_iff
    {i : Nat} {byte : UInt8} {rest : Bytes}
    (hseq : utf8Sequence (byte :: rest) = none) :
    WithinReach i (byte :: rest) ↔ i + announced byte < 2 ^ 31 := by
  constructor
  · intro h
    exact h 0 byte rfl validUtf8_nil
  · intro h p found hfound hvalid
    cases p with
    | zero =>
        cases hfound
        exact h
    | succ p =>
        rw [validUtf8_iff_sequence (by simp)] at hvalid
        obtain ⟨n, hn, -⟩ := hvalid
        obtain ⟨c, hc, -⟩ := exists_encode_of_utf8Sequence hn
        have hencoded : String.utf8EncodeChar c <+: (byte :: rest).take (p + 1) :=
          ⟨_, hc.symm⟩
        exact absurd (hencoded.trans (List.take_prefix _ _))
          (utf8Sequence_none_iff.mp hseq c)

theorem continuation_lt
    {code result : Nat} {bytes : Bytes}
    (h : continuationBytes code bytes = some result) :
    ∀ b ∈ bytes, b.toNat < 192 := by
  induction bytes generalizing code with
  | nil =>
      intro b hb
      cases hb
  | cons first rest ih =>
      obtain ⟨-, hfirst, hrest⟩ := continuationBytes_cons_iff.mp h
      intro b hb
      rcases List.mem_cons.mp hb with rfl | hb
      · exact hfirst
      · exact ih hrest b hb

/-- The bytes of a sequence announce nothing beyond it. -/
theorem announced_sequence
    {bytes : Bytes} {n p : Nat} {byte : UInt8}
    (hseq : utf8Sequence bytes = some n)
    (hbyte : (bytes.take n)[p]? = some byte) :
    p + announced byte < n := by
  have hp : p < n := by
    have hlt := (List.getElem?_eq_some_iff.mp hbyte).1
    rw [List.length_take] at hlt
    omega
  cases bytes with
  | nil =>
      cases hseq
  | cons first rest =>
      rcases utf8Sequence_cons_iff.mp hseq with ⟨hfirst, rfl⟩ |
        ⟨-, extra, lead, code, hlead, -, hcontinued, -, -, -, rfl⟩
      · obtain rfl : p = 0 := by omega
        cases hbyte
        rw [announced_of_lt (by omega)]
        omega
      · rw [List.take_succ_cons] at hbyte
        cases p with
        | zero =>
            cases hbyte
            rw [announced, hlead]
            simp
        | succ p =>
            rw [announced_of_lt (continuation_lt hcontinued byte
              (List.mem_of_getElem? hbyte))]
            exact hp

/-- Skipping words of ASCII does not change what is within reach. -/
theorem withinReach_skip_iff
    {i : Nat} {bytes : Bytes}
    (hlimit : i + bytes.length < 2 ^ 31) :
    WithinReach i bytes ↔
      WithinReach (i + skipAscii bytes) (bytes.drop (skipAscii bytes)) := by
  have hlength : (bytes.take (skipAscii bytes)).length = skipAscii bytes :=
    List.length_take_of_le (skipAscii_le bytes)
  have hle := skipAscii_le bytes
  conv_lhs => rw [← List.take_append_drop (skipAscii bytes) bytes]
  rw [withinReach_append_iff (validUtf8_skipped bytes), hlength]
  intro p byte hbyte
  have hp := (List.getElem?_eq_some_iff.mp hbyte).1
  have hascii := skipAscii_ascii bytes byte (List.mem_of_getElem? hbyte)
  rw [announced_of_lt (by omega)]
  omega

/-- Nor does going past a sequence. -/
theorem withinReach_sequence_iff
    {i n : Nat} {bytes : Bytes}
    (hlimit : i + bytes.length < 2 ^ 31)
    (hseq : utf8Sequence bytes = some n) :
    WithinReach i bytes ↔ WithinReach (i + n) (bytes.drop n) := by
  have hn := utf8Sequence_pos hseq
  have hlength : (bytes.take n).length = n := List.length_take_of_le hn.2
  have hvalid : ValidUtf8 (bytes.take n) := by
    obtain ⟨c, hc, hlen⟩ := exists_encode_of_utf8Sequence hseq
    refine ⟨[c], ?_⟩
    rw [hc, hlen, List.take_left]
    simp
  conv_lhs => rw [← List.take_append_drop n bytes]
  rw [withinReach_append_iff hvalid, hlength]
  intro p byte hbyte
  have := announced_sequence hseq hbyte
  omega

end Reach

section Scan

/-- The loop stays in range exactly when everything it can come to is within reach. -/
theorem scanIndexes_iff
    (fuel i : Nat) (bytes : Bytes)
    (hfuel : bytes.length ≤ fuel)
    (hlimit : i + bytes.length < 2 ^ 31) :
    (∀ v ∈ scanIndexes (i + bytes.length : Nat) fuel i bytes, IsInt32 v) ↔
      WithinReach i bytes := by
  induction fuel generalizing i bytes with
  | zero =>
      obtain rfl : bytes = [] := by
        simpa using hfuel
      exact iff_of_true nofun nofun
  | succ fuel ih =>
      by_cases hnil : bytes = []
      · subst hnil
        exact iff_of_true nofun nofun
      have hskipped := skipAscii_le bytes
      have hskip : ∀ v ∈ skipIndexes (i + bytes.length : Nat) i bytes, IsInt32 v := by
        intro v hv
        have := skipIndexes_range (by omega) (by push_cast; rfl) v hv
        simp only [IsInt32]
        omega
      have hlength : i + bytes.length =
          i + skipAscii bytes + (bytes.drop (skipAscii bytes)).length := by
        rw [List.length_drop]
        omega
      rw [withinReach_skip_iff hlimit, scanIndexes, if_neg hnil]
      simp only [List.forall_mem_append, List.append_assoc]
      rw [and_iff_right hskip, ← Nat.cast_add, hlength]
      have hrest : (bytes.drop (skipAscii bytes)).length ≤ fuel + 1 := by
        rw [List.length_drop]
        omega
      rw [hlength] at hlimit
      generalize bytes.drop (skipAscii bytes) = tail at hlimit hrest ⊢
      generalize i + skipAscii bytes = j at hlimit ⊢
      cases tail with
      | nil =>
          exact iff_of_true ⟨nofun, nofun⟩ nofun
      | cons byte rest =>
          rw [sequenceIndexes_iff (by omega) (by push_cast; rfl) (by exact_mod_cast hlimit)]
          cases hseq : utf8Sequence (byte :: rest) with
          | none =>
              rw [withinReach_fault_iff hseq]
              simp only [List.not_mem_nil, false_implies, implies_true, and_true]
              norm_cast
          | some n =>
              have hn := utf8Sequence_pos hseq
              have hnext : j + (byte :: rest).length =
                  j + n + ((byte :: rest).drop n).length := by
                rw [List.length_drop]
                omega
              have hdrop : ((byte :: rest).drop n).length ≤ fuel := by
                rw [List.length_drop]
                omega
              have hreach : (j : ℤ) + announced byte < 2 ^ 31 := by
                have hfirst : ((byte :: rest).take n)[0]? = some byte := by
                  rw [List.getElem?_take_of_lt hn.1]
                  rfl
                have := announced_sequence hseq hfirst
                omega
              rw [and_iff_right hreach, withinReach_sequence_iff hlimit hseq, hnext,
                ← ih (j + n) _ hdrop (by omega)]
              simp

/-- The loop with its sums checked comes to its answer exactly when everything it can
come to is within reach. -/
theorem utf8InvalidInt32From_reach
    (fuel i : Nat) (bytes : Bytes)
    (hfuel : bytes.length ≤ fuel)
    (hlimit : i + bytes.length < 2 ^ 31) :
    (WithinReach i bytes →
        utf8InvalidInt32From fuel i bytes = some (utf8InvalidFrom fuel i bytes)) ∧
      (¬ WithinReach i bytes → utf8InvalidInt32From fuel i bytes = none) := by
  induction fuel generalizing i bytes with
  | zero =>
      obtain rfl : bytes = [] := by
        simpa using hfuel
      exact ⟨fun _ => rfl, fun hreach => absurd nofun hreach⟩
  | succ fuel ih =>
      have hskipped := skipAscii_le bytes
      have hlength : i + bytes.length =
          i + skipAscii bytes + (bytes.drop (skipAscii bytes)).length := by
        rw [List.length_drop]
        omega
      have hrest : (bytes.drop (skipAscii bytes)).length ≤ fuel + 1 := by
        rw [List.length_drop]
        omega
      rw [withinReach_skip_iff hlimit, utf8InvalidInt32From, utf8InvalidFrom]
      rw [hlength] at hlimit
      generalize bytes.drop (skipAscii bytes) = tail at hlimit hrest ⊢
      generalize i + skipAscii bytes = j at hlimit ⊢
      cases tail with
      | nil =>
          exact ⟨fun _ => rfl, fun hreach => absurd nofun hreach⟩
      | cons byte rest =>
          cases hseq : utf8Sequence (byte :: rest) with
          | none =>
              rw [withinReach_fault_iff hseq]
              refine ⟨fun hreach => ?_, fun hreach => ?_⟩
              · have hsum : addInt32 j (announced byte) = some (j + announced byte) :=
                  if_pos hreach
                simp only [hsum, hseq, Option.bind_eq_bind, Option.bind_some]
              · have hsum : addInt32 j (announced byte) = none :=
                  if_neg hreach
                simp only [hsum, Option.bind_eq_bind, Option.bind_none]
          | some n =>
              have hn := utf8Sequence_pos hseq
              have hfirst : ((byte :: rest).take n)[0]? = some byte := by
                rw [List.getElem?_take_of_lt hn.1]
                rfl
              have hannounced := announced_sequence hseq hfirst
              have hsum : addInt32 j (announced byte) = some (j + announced byte) :=
                if_pos (by omega)
              have hnext : addInt32 j n = some (j + n) :=
                if_pos (by omega)
              have hdrop : ((byte :: rest).drop n).length ≤ fuel ∧
                  j + n + ((byte :: rest).drop n).length < 2 ^ 31 := by
                rw [List.length_drop]
                omega
              rw [withinReach_sequence_iff hlimit hseq]
              simp only [hsum, hseq, hnext, Option.bind_eq_bind, Option.bind_some]
              exact ih (j + n) _ hdrop.1 hdrop.2

/-- What the check in `int32_t` gives: nothing is defined once a sum is out of
range. -/
theorem utf8InvalidInt32_eq
    {bytes : Bytes}
    (hlength : bytes.length < 2 ^ 31) :
    (WithinReach 0 bytes → utf8InvalidInt32 bytes = some (utf8InvalidAt bytes)) ∧
      (¬ WithinReach 0 bytes → utf8InvalidInt32 bytes = none) :=
  utf8InvalidInt32From_reach bytes.length 0 bytes le_rfl (by omega)

/-- Three bytes before the limit are enough for any lead byte. -/
theorem withinReach_of_length
    {bytes : Bytes}
    (h : bytes.length ≤ 2 ^ 31 - 3) :
    WithinReach 0 bytes := by
  intro p byte hbyte _
  have hp := (List.getElem?_eq_some_iff.mp hbyte).1
  have hextra := announced_le byte
  omega

/-- The scan keeps its indexes in the signed 32-bit range exactly when no well-formed
beginning of `p` bytes is followed by a lead byte that announces `extra` more with
`2 ^ 31 ≤ p + extra`. -/
theorem utf8_indexes_in_range_iff
    (bytes : Bytes)
    (hlength : bytes.length ≤ 2 ^ 31 - 1) :
    (∀ v ∈ utf8Indexes bytes, IsInt32 v) ↔ WithinReach 0 bytes := by
  have hscan := scanIndexes_iff bytes.length 0 bytes le_rfl (by omega)
  rwa [Nat.zero_add] at hscan

/-- The scan of a short value that is not well formed. -/
theorem utf8_indexes_in_range_iff_overlong :
    overlongSlash.length ≤ 2 ^ 31 - 1 ∧
      ∀ v ∈ utf8Indexes overlongSlash, IsInt32 v := by
  have hlength : overlongSlash.length = 12 := rfl
  refine ⟨by omega, (utf8_indexes_in_range_iff _ (by omega)).mpr ?_⟩
  exact withinReach_of_length (by omega)

/-- ASCII and, as the last byte, the lead byte of three. -/
def lateLead (count : Nat) : Bytes :=
  List.replicate count 0x61 ++ [0xE0]

/-- The scan comes to the lead byte of `lateLead`. -/
theorem not_withinReach_lateLead
    {count : Nat}
    (h : 2 ^ 31 ≤ count + 2) :
    ¬ WithinReach 0 (lateLead count) := by
  intro hreach
  have hascii : ∀ b ∈ List.replicate count (0x61 : UInt8), b.toNat < 128 := by
    intro b hb
    rw [List.eq_of_mem_replicate hb]
    decide
  have hvalid : ValidUtf8 ((lateLead count).take count) := by
    have hfront : (lateLead count).take count = List.replicate count 0x61 ++ [] := by
      rw [List.append_nil, lateLead, List.take_left' List.length_replicate]
    rw [hfront, validUtf8_ascii_append hascii]
    exact validUtf8_nil
  have hbyte : (lateLead count)[count]? = some 0xE0 := by
    rw [lateLead, List.getElem?_append_right (by simp)]
    simp
  have := hreach count 0xE0 hbyte hvalid
  have hannounced : announced 0xE0 = 2 := rfl
  omega

/-- In a value of `2 ^ 31 - 1` bytes that ends in a lead byte of three, `i + extra`
is `2 ^ 31`. -/
theorem late_lead_out_of_range :
    (lateLead (2 ^ 31 - 2)).length = 2 ^ 31 - 1 ∧
      ¬ ∀ v ∈ utf8Indexes (lateLead (2 ^ 31 - 2)), IsInt32 v := by
  have hlength : (lateLead (2 ^ 31 - 2)).length = 2 ^ 31 - 1 := by
    rw [lateLead, List.length_append, List.length_replicate]
    rfl
  refine ⟨hlength, ?_⟩
  have hscan := scanIndexes_iff (lateLead (2 ^ 31 - 2)).length 0 (lateLead (2 ^ 31 - 2))
    le_rfl (by omega)
  rw [Nat.zero_add] at hscan
  intro hrange
  exact not_withinReach_lateLead (by norm_num) (hscan.mp hrange)

end Scan

end Read
end QioParquet
