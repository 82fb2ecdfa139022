import Mathlib.Tactic

/-!
# Records spelled into text

Numbers, fields and joined parts written into a text and read back from it: a
decimal number, the value behind the last occurrence of a key, and parts joined by
a separator. Texts are lists of characters.
-/

namespace QioParquet
namespace Lib

section Numbers

/-- A number in decimal digits, with a minus sign before a negative one. -/
def decimalText : ℤ → List Char
  | .ofNat n => Nat.toDigits 10 n
  | .negSucc n => '-' :: Nat.toDigits 10 (n + 1)

def readDigits (text : List Char) : Option Nat :=
  if text ≠ [] ∧ text.all Char.isDigit then
    some (Nat.ofDigitChars 10 text 0)
  else
    none

/-- A decimal number; any other text is none. -/
def readDecimal (text : List Char) : Option ℤ :=
  if text.head? = some '-' then
    (readDigits text.tail).map fun n => -(n : ℤ)
  else
    (readDigits text).map Int.ofNat

theorem isDigit_of_mem_toDigits
    {n : Nat} {c : Char}
    (hc : c ∈ Nat.toDigits 10 n) :
    c.isDigit = true :=
  Nat.isDigit_of_mem_toDigits (by omega) le_rfl hc

theorem head?_toDigits_ne_minus
    (n : Nat) :
    (Nat.toDigits 10 n).head? ≠ some '-' := by
  intro hhead
  have hdigit := isDigit_of_mem_toDigits (List.mem_of_mem_head? hhead)
  simp [Char.isDigit] at hdigit

theorem readDigits_toDigits
    (n : Nat) :
    readDigits (Nat.toDigits 10 n) = some n := by
  have hvalue : Nat.ofDigitChars 10 (Nat.toDigits 10 n) 0 = n :=
    Nat.ofDigitChars_toDigits (by omega) le_rfl
  rw [readDigits, if_pos ⟨Nat.toDigits_ne_nil,
      List.all_eq_true.mpr fun c hc => isDigit_of_mem_toDigits hc⟩,
    hvalue]

theorem readDecimal_decimalText
    (n : ℤ) :
    readDecimal (decimalText n) = some n := by
  cases n with
  | ofNat n =>
      rw [decimalText, readDecimal, if_neg (head?_toDigits_ne_minus n),
        readDigits_toDigits]
      rfl
  | negSucc n =>
      rw [decimalText, readDecimal, List.head?_cons, if_pos rfl, List.tail_cons,
        readDigits_toDigits]
      rfl

/-- The characters of a number. -/
theorem mem_decimalText
    {n : ℤ} {c : Char}
    (hc : c ∈ decimalText n) :
    c = '-' ∨ c.isDigit = true := by
  cases n with
  | ofNat n =>
      exact Or.inr (isDigit_of_mem_toDigits hc)
  | negSucc n =>
      rcases List.mem_cons.mp hc with rfl | hc
      · exact Or.inl rfl
      · exact Or.inr (isDigit_of_mem_toDigits hc)

end Numbers

section Groups

/-- The longest nonempty beginning with characters of a class. -/
def spanGroup (inClass : Char → Bool) (text : List Char) : Option (List Char) :=
  match text.takeWhile inClass with
  | [] => none
  | found => some found

/-- The digits a text begins with, after a minus sign if there is one. -/
def numberGroup (text : List Char) : Option (List Char) :=
  if text.head? = some '-' then
    (spanGroup Char.isDigit text.tail).map ('-' :: ·)
  else
    spanGroup Char.isDigit text

/-- A text that does not go on with a character of the class. -/
def EndsClass (inClass : Char → Bool) (text : List Char) : Prop :=
  ∀ c, text.head? = some c → inClass c = false

theorem spanGroup_append
    {inClass : Char → Bool} {found rest : List Char}
    (hne : found ≠ [])
    (hin : ∀ c ∈ found, inClass c = true)
    (hend : EndsClass inClass rest) :
    spanGroup inClass (found ++ rest) = some found := by
  have hrest : rest.takeWhile inClass = [] := by
    cases rest with
    | nil =>
        rfl
    | cons c rest =>
        simp [hend c rfl]
  have hall : (found ++ rest).takeWhile inClass = found := by
    rw [List.takeWhile_append_of_pos hin, hrest, List.append_nil]
  rw [spanGroup, hall]
  cases found with
  | nil =>
      exact absurd rfl hne
  | cons c found =>
      rfl

theorem spanGroup_toDigits
    {rest : List Char} (n : Nat)
    (hend : EndsClass Char.isDigit rest) :
    spanGroup Char.isDigit (Nat.toDigits 10 n ++ rest) =
      some (Nat.toDigits 10 n) :=
  spanGroup_append Nat.toDigits_ne_nil (fun _ hc => isDigit_of_mem_toDigits hc) hend

theorem numberGroup_decimalText
    {rest : List Char} (n : ℤ)
    (hend : EndsClass Char.isDigit rest) :
    numberGroup (decimalText n ++ rest) = some (decimalText n) := by
  cases n with
  | ofNat n =>
      have hhead : (Nat.toDigits 10 n ++ rest).head? ≠ some '-' := by
        rw [List.head?_append_of_ne_nil _ Nat.toDigits_ne_nil]
        exact head?_toDigits_ne_minus n
      rw [decimalText, numberGroup, if_neg hhead, spanGroup_toDigits n hend]
  | negSucc n =>
      rw [decimalText, numberGroup, List.cons_append, List.head?_cons, if_pos rfl,
        List.tail_cons, spanGroup_toDigits (n + 1) hend]
      rfl

end Groups

section Keys

variable {group : List Char → Option (List Char)}

/-- The group behind a key the text begins with. -/
def behindKey (group : List Char → Option (List Char)) (key text : List Char) :
    Option (List Char) :=
  if key <+: text then group (text.drop key.length) else none

/-- The group behind the last occurrence of a key that has one. -/
def lastGroup (group : List Char → Option (List Char)) (key : List Char) :
    List Char → Option (List Char)
  | [] => behindKey group key []
  | c :: text => (lastGroup group key text).orElse fun _ => behindKey group key (c :: text)

/-- The text replaced by what the pattern `^.*key(group).*$` captures in it. -/
def subGroup (group : List Char → Option (List Char)) (key text : List Char) :
    List Char :=
  (lastGroup group key text).getD text

/-- Text without the first character of the key has no occurrence of it. -/
theorem lastGroup_skip
    {k : Char} {key before : List Char} (text : List Char)
    (hk : k ∉ before) :
    lastGroup group (k :: key) (before ++ text) = lastGroup group (k :: key) text := by
  induction before with
  | nil =>
      rfl
  | cons c before ih =>
      rw [List.mem_cons, not_or] at hk
      obtain ⟨hc, hrest⟩ := hk
      have hkey : ¬ (k :: key) <+: c :: (before ++ text) := by
        rw [List.cons_prefix_cons]
        exact fun h => hc h.1
      rw [List.cons_append, lastGroup, ih hrest, behindKey, if_neg hkey]
      cases lastGroup group (k :: key) text <;> rfl

theorem lastGroup_eq_none
    {k : Char} {key text : List Char}
    (hk : k ∉ text) :
    lastGroup group (k :: key) text = none := by
  rw [← List.append_nil text, lastGroup_skip [] hk, lastGroup, behindKey,
    if_neg (by simp)]

theorem lastGroup_append
    {key text found : List Char} (before : List Char)
    (htext : lastGroup group key text = some found) :
    lastGroup group key (before ++ text) = some found := by
  induction before with
  | nil =>
      exact htext
  | cons c before ih =>
      rw [List.cons_append, lastGroup, ih]
      rfl

/-- The field behind the last occurrence of its key. -/
theorem subGroup_field
    {k : Char} {key value found : List Char} (before : List Char)
    (hlater : lastGroup group (k :: key) (key ++ value) = none)
    (hgroup : group value = some found) :
    subGroup group (k :: key) (before ++ ((k :: key) ++ value)) = found := by
  have hkey : behindKey group (k :: key) ((k :: key) ++ value) = some found := by
    rw [behindKey, if_pos (List.prefix_append _ _), List.drop_left, hgroup]
  have hlast : lastGroup group (k :: key) ((k :: key) ++ value) = some found := by
    rw [List.cons_append, lastGroup, hlater]
    exact hkey
  rw [subGroup, lastGroup_append before hlast, Option.getD_some]

/-- Text that does not have the first character of a key is no part of the match. -/
theorem infix_append_iff
    {k : Char} {key before text : List Char}
    (hk : k ∉ before) :
    (k :: key) <:+: before ++ text ↔ (k :: key) <:+: text := by
  induction before with
  | nil =>
      rfl
  | cons c before ih =>
      rw [List.mem_cons, not_or] at hk
      obtain ⟨hc, hrest⟩ := hk
      rw [List.cons_append, List.infix_cons_iff, ih hrest, List.cons_prefix_cons]
      exact ⟨fun h => h.resolve_left fun h => hc h.1, Or.inr⟩

end Keys

section Parts

/-- The parts between separators, without an empty last one. -/
def strsplit (sep : Char) (text : List Char) : List (List Char) :=
  if (text.splitOn sep).getLast? = some [] then
    (text.splitOn sep).dropLast
  else
    text.splitOn sep

theorem splitOn_part
    {sep : Char} {part : List Char} (rest : List Char)
    (hpart : sep ∉ part) :
    (part ++ sep :: rest).splitOn sep = part :: rest.splitOn sep := by
  have hfree : ∀ c ∈ part, (c == sep) = false := by
    intro c hc
    rw [beq_eq_false_iff_ne]
    rintro rfl
    exact hpart hc
  rw [List.splitOn_eq_splitOnP, List.splitOn_eq_splitOnP,
    List.splitOnP_append_cons_of_forall_mem hfree sep (beq_self_eq_true sep)]

theorem splitOn_ne_nil
    (sep : Char) (text : List Char) :
    text.splitOn sep ≠ [] := by
  rw [List.splitOn_eq_splitOnP]
  exact List.splitOnP_ne_nil _ _

/-- A leading part is a part. -/
theorem strsplit_part
    {sep : Char} {part : List Char} (rest : List Char)
    (hpart : sep ∉ part) :
    strsplit sep (part ++ sep :: rest) = part :: strsplit sep rest := by
  obtain ⟨p, ps, hps⟩ := List.exists_cons_of_ne_nil (splitOn_ne_nil sep rest)
  rw [strsplit, strsplit, splitOn_part rest hpart, hps, List.getLast?_cons_cons,
    List.dropLast_cons_cons]
  split_ifs <;> rfl

/-- An empty last part comes from a text that is empty or ends with a separator. -/
theorem getLast?_splitOn
    {sep : Char} {text : List Char}
    (hlast : (text.splitOn sep).getLast? = some []) :
    text = [] ∨ text.getLast? = some sep := by
  induction text with
  | nil =>
      exact Or.inl rfl
  | cons c text ih =>
      obtain ⟨p, ps, hps⟩ := List.exists_cons_of_ne_nil (splitOn_ne_nil sep text)
      rw [List.splitOn_eq_splitOnP, List.splitOnP_cons_eq_if_modifyHead,
        ← List.splitOn_eq_splitOnP, hps] at hlast
      rw [hps] at ih
      right
      split_ifs at hlast with hc
      · rw [List.getLast?_cons_cons] at hlast
        rcases ih hlast with rfl | hend
        · rw [beq_iff_eq] at hc
          rw [hc]
          rfl
        · rw [List.getLast?_cons, hend]
          rfl
      · cases ps with
        | nil =>
            simp at hlast
        | cons q ps =>
            rw [List.modifyHead_cons, List.getLast?_cons_cons] at hlast
            rw [List.getLast?_cons_cons] at ih
            rcases ih hlast with rfl | hend
            · simp at hps
            · rw [List.getLast?_cons, hend]
              rfl

/-- Parts joined again, unless the text ends with a separator. -/
theorem intercalate_strsplit
    {sep : Char} {text : List Char}
    (hend : text.getLast? ≠ some sep) :
    [sep].intercalate (strsplit sep text) = text := by
  rw [strsplit]
  split_ifs with hlast
  · rcases getLast?_splitOn hlast with rfl | hsep
    · rfl
    · exact absurd hsep hend
  · exact List.intercalate_splitOn sep

end Parts

end Lib
end QioParquet
