import QioParquet.Lib.BitStream
import QioParquet.Lib.Raising
import QioParquet.Read.Values
import Mathlib.Tactic

/-!
# BOOLEAN pages

The PLAIN bytes of a BOOLEAN page are one stream of bits. A page is filled by any
number of `carquet_page_writer_add_values` calls; each continues at the bit the last
one stopped at, in a byte that may be partly filled. The page writer is embedded as
far as a BOOLEAN column uses it, with the ways a call can fail: a missing array,
levels that do not encode, and a buffer that cannot grow. What a failed call has
written is taken back.

The invariant of a page is that its bytes are the packed bits of all values taken so
far, and that the bit counter is their number.
-/

namespace QioParquet
namespace Encoding

open Lib Read

section PageWriters

/-- What a call fails with. The last one stands for the errors of the level
encoder. -/
inductive PageError where
  | invalidArgument
  | outOfMemory
  | levels (code : ℤ)
deriving DecidableEq

structure PageConfig where
  maxDefLevel : ℤ
  maxRepLevel : ℤ
  writeStatistics : Bool

/-- `carquet_page_writer_t` of a BOOLEAN column: the buffers, the bits packed into
the page, the counters, and the values seen for the statistics. -/
structure PageWriter (config : PageConfig) where
  values : Bytes
  boolBits : Nat
  defLevels : Bytes
  repLevels : Bytes
  numValues : Nat
  numNulls : Nat
  seenFalse : Bool
  seenTrue : Bool

variable {config : PageConfig}

def PageWriter.create (config : PageConfig) : PageWriter config :=
  ⟨[], 0, [], [], 0, 0, false, false⟩

/-- `carquet_page_writer_reset`. -/
def PageWriter.reset (_ : PageWriter config) : PageWriter config where
  values := []
  boolBits := 0
  defLevels := []
  repLevels := []
  numValues := 0
  numNulls := 0
  seenFalse := false
  seenTrue := false

/-- The present rows of a call: those at the maximum level, or all. -/
def nonNullCount
    (maxDefLevel : ℤ) (numValues : Nat) : Option (List ℤ) → Nat
  | none => numValues
  | some levels =>
      if 0 < maxDefLevel then (levels.take numValues).count maxDefLevel
      else numValues

/-- The arguments of a call: the array of present values, which has all of them, the
number of rows, and the levels. -/
structure AddCall (config : PageConfig) where
  values : Option Bytes
  numValues : Nat
  defLevels : Option (List ℤ)
  repLevels : Option (List ℤ)
  room : ∀ bytes, values = some bytes →
    nonNullCount config.maxDefLevel numValues defLevels ≤ bytes.length

def AddCall.nonNull (call : AddCall config) : Nat :=
  nonNullCount config.maxDefLevel call.numValues call.defLevels

/-- What a call meets: the bytes of encoded levels, and whether a buffer may grow to a
size. -/
structure Outcomes where
  encodeLevels : Option (List ℤ) → Nat → ℤ → Except PageError Bytes
  grants : Nat → Bool

end PageWriters

section Adding

variable {config : PageConfig}

/-- The loop of `append_plain_boolean`: `base[bit >> 3] |= 1 << (bit & 7)`. -/
def orBits (base : Nat) : Nat → Bytes → Bytes → Bytes
  | _, [], buffer => buffer
  | bit, value :: rest, buffer =>
      orBits base (bit + 1) rest
        (if value ≠ 0 then setBit buffer (8 * base + bit) else buffer)

/-- `append_plain_boolean`. -/
def appendPlainBoolean (outcomes : Outcomes) (values : Bytes) :
    EStateM PageError (PageWriter config) Unit := fun w =>
  let haveBytes := (w.boolBits + 7) / 8
  let needBytes := (w.boolBits + values.length + 7) / 8
  if values.length = 0 then
    .ok () w
  else if haveBytes < needBytes ∧
      ¬ outcomes.grants (w.values.length + (needBytes - haveBytes)) then
    .error .outOfMemory w
  else
    let grown := w.values ++ List.replicate (needBytes - haveBytes) 0
    .ok () { w with
      values := orBits (grown.length - needBytes) w.boolBits values grown
      boolBits := w.boolBits + values.length }

/-- The loop of `update_statistics_boolean`, which stops when both were seen. -/
def seenLoop : Bytes → Bool × Bool → Bool × Bool
  | [], seen => seen
  | value :: rest, seen =>
      let seen := if value ≠ 0 then (seen.1, true) else (true, seen.2)
      if seen.1 && seen.2 then seen else seenLoop rest seen

def updateStatistics (values : Bytes) :
    EStateM PageError (PageWriter config) Unit := fun w =>
  let seen := seenLoop values (w.seenFalse, w.seenTrue)
  .ok () (if config.writeStatistics then
    { w with seenFalse := seen.1, seenTrue := seen.2 } else w)

def countNulls (call : AddCall config) :
    EStateM PageError (PageWriter config) Unit := fun w =>
  .ok () (if call.defLevels.isSome ∧ 0 < config.maxDefLevel then
    { w with numNulls := w.numNulls + (call.numValues - call.nonNull) } else w)

/-- `encode_levels` into the definition levels. -/
def encodeDefLevels (outcomes : Outcomes) (call : AddCall config) :
    EStateM PageError (PageWriter config) Unit := fun w =>
  if 0 < config.maxDefLevel then
    match outcomes.encodeLevels call.defLevels call.numValues config.maxDefLevel with
    | .error failure => .error failure w
    | .ok bytes => .ok () { w with defLevels := w.defLevels ++ bytes }
  else
    .ok () w

def encodeRepLevels (outcomes : Outcomes) (call : AddCall config) :
    EStateM PageError (PageWriter config) Unit := fun w =>
  if 0 < config.maxRepLevel ∧ call.repLevels.isSome then
    match outcomes.encodeLevels call.repLevels call.numValues config.maxRepLevel with
    | .error failure => .error failure w
    | .ok bytes => .ok () { w with repLevels := w.repLevels ++ bytes }
  else
    .ok () w

def addLevels (outcomes : Outcomes) (call : AddCall config) :
    EStateM PageError (PageWriter config) Unit := do
  countNulls call
  encodeDefLevels outcomes call
  encodeRepLevels outcomes call

/-- The steps of a call on a BOOLEAN page. -/
def addSteps (outcomes : Outcomes) (call : AddCall config) (values : Bytes) :
    EStateM PageError (PageWriter config) Unit := do
  addLevels outcomes call
  appendPlainBoolean outcomes (values.take call.nonNull)
  updateStatistics (values.take call.nonNull)

/-- The `fail` part of a call. The bit counter is not among what is restored. -/
def PageWriter.restore (before w : PageWriter config) : PageWriter config :=
  { w with
    values := w.values.take before.values.length
    defLevels := w.defLevels.take before.defLevels.length
    repLevels := w.repLevels.take before.repLevels.length
    numValues := before.numValues
    numNulls := before.numNulls
    seenFalse := before.seenFalse
    seenTrue := before.seenTrue }

/-- `carquet_page_writer_add_values` on a BOOLEAN page. -/
def addValues (outcomes : Outcomes) (call : AddCall config) (w : PageWriter config) :
    Except PageError Unit × PageWriter config :=
  match call.values with
  | none => (.error .invalidArgument, w)
  | some values =>
      match addSteps outcomes call values w with
      | .ok _ w' => (.ok (), { w' with numValues := w'.numValues + call.numValues })
      | .error failure w' => (.error failure, w.restore w')

/-- Calls in a row, each with what it meets: their statuses, and the page. -/
def addAll : List (Outcomes × AddCall config) → PageWriter config →
    List (Except PageError Unit) × PageWriter config
  | [], w => ([], w)
  | entry :: rest, w =>
      let added := addValues entry.1 entry.2 w
      let all := addAll rest added.2
      (added.1 :: all.1, all.2)

end Adding

section Bits

/-- The bits set by the loop, and the ones that were there. -/
theorem bitAt_orBits
    {values buffer : Bytes} {bit : Nat}
    (hroom : bit + values.length ≤ 8 * buffer.length) (i : Nat) :
    bitAt (orBits 0 bit values buffer) i =
      (bitAt buffer i ||
        (decide (bit ≤ i) && decide (values.getD (i - bit) 0 ≠ 0))) := by
  induction values generalizing bit buffer with
  | nil =>
      simp [orBits]
  | cons value rest ih =>
      rw [List.length_cons] at hroom
      have hlength : (if value ≠ 0 then setBit buffer (8 * 0 + bit) else buffer).length =
          buffer.length := by
        split_ifs <;> simp
      have hbit : bitAt (if value ≠ 0 then setBit buffer (8 * 0 + bit) else buffer) i =
          (bitAt buffer i || (decide (i = bit) && decide (value ≠ 0))) := by
        split_ifs with hvalue
        · rw [bitAt_setBit (by omega)]
          simp [hvalue]
        · simp [hvalue]
      rw [orBits, ih (by rw [hlength]; omega), hbit]
      rcases lt_trichotomy i bit with hlt | rfl | hgt
      · simp [show ¬ bit ≤ i by omega, show ¬ bit + 1 ≤ i by omega, hlt.ne]
      · simp
      · obtain ⟨k, rfl⟩ : ∃ k, i = bit + 1 + k := ⟨i - (bit + 1), by omega⟩
        have hk : bit + 1 + k - bit = k + 1 := by
          omega
        rw [hk, Nat.add_sub_cancel_left, List.getD_cons_succ]
        simp [show bit ≤ bit + 1 + k by omega, show ¬ bit + 1 + k = bit by omega]

@[simp] theorem length_orBits
    (base bit : Nat) (values buffer : Bytes) :
    (orBits base bit values buffer).length = buffer.length := by
  induction values generalizing bit buffer with
  | nil =>
      rfl
  | cons value rest ih =>
      rw [orBits, ih]
      split_ifs <;> simp

/-- The bits of some values. -/
def valueBits (values : Bytes) : List Bool :=
  values.map fun value => decide (value ≠ 0)

theorem getD_valueBits (values : Bytes) (i : Nat) :
    (valueBits values).getD i false = decide (values.getD i 0 ≠ 0) := by
  simp only [valueBits, List.getD_eq_getElem?_getD, List.getElem?_map]
  cases values[i]? with
  | none => rfl
  | some value => rfl

/-- The loop, on the packed bits with zero bytes for the new ones. -/
theorem orBits_packBits
    (bits : List Bool) (values : Bytes) :
    orBits 0 bits.length values
        (packBits bits ++ List.replicate
          ((bits.length + values.length + 7) / 8 - (bits.length + 7) / 8) 0) =
      packBits (bits ++ valueBits values) := by
  have hlength : (packBits bits ++ List.replicate
      ((bits.length + values.length + 7) / 8 - (bits.length + 7) / 8) (0 : UInt8)).length =
      (bits.length + values.length + 7) / 8 := by
    rw [List.length_append, length_packBits, List.length_replicate]
    omega
  apply eq_of_bitAt_eq
  · rw [length_orBits, hlength, length_packBits, List.length_append, valueBits,
      List.length_map]
  · intro i
    rw [bitAt_orBits (by rw [hlength]; omega), bitAt_append_zeros, bitAt_packBits,
      bitAt_packBits]
    rcases lt_or_ge i bits.length with hlt | hge
    · rw [List.getD_append _ _ _ _ hlt]
      simp [show ¬ bits.length ≤ i by omega]
    · rw [List.getD_append_right _ _ _ _ hge, List.getD_eq_default _ _ hge]
      simp only [hge, decide_true, Bool.true_and, Bool.false_or]
      exact (getD_valueBits values (i - bits.length)).symm

end Bits

section Calls

variable {config : PageConfig}

/-- The page's bytes are the packed bits, and the counter is their number. -/
structure Packed (w : PageWriter config) (bits : List Bool) : Prop where
  boolBits : w.boolBits = bits.length
  values : w.values = packBits bits

/-- Only levels, counters and statistics were added. -/
structure SameBits (w w' : PageWriter config) : Prop where
  boolBits : w'.boolBits = w.boolBits
  values : w'.values = w.values
  defLevels : w.defLevels <+: w'.defLevels
  repLevels : w.repLevels <+: w'.repLevels

theorem SameBits.refl (w : PageWriter config) : SameBits w w :=
  ⟨rfl, rfl, List.prefix_refl _, List.prefix_refl _⟩

theorem SameBits.trans
    (a b c : PageWriter config) (hab : SameBits a b) (hbc : SameBits b c) :
    SameBits a c where
  boolBits := hbc.boolBits.trans hab.boolBits
  values := hbc.values.trans hab.values
  defLevels := hab.defLevels.trans hbc.defLevels
  repLevels := hab.repLevels.trans hbc.repLevels

theorem SameBits.packed
    {w w' : PageWriter config} {bits : List Bool}
    (h : SameBits w w') (hpacked : Packed w bits) :
    Packed w' bits :=
  ⟨h.boolBits.trans hpacked.boolBits, h.values.trans hpacked.values⟩

/-- A call that fails before its bits are taken is undone. -/
theorem SameBits.restore
    {w w' : PageWriter config} (h : SameBits w w') :
    w.restore w' = w := by
  obtain ⟨hbits, hvalues, hdef, hrep⟩ := h
  cases w
  simp only [PageWriter.restore, PageWriter.mk.injEq, and_true]
  refine ⟨?_, hbits, (List.prefix_iff_eq_take.mp hdef).symm,
    (List.prefix_iff_eq_take.mp hrep).symm⟩
  rw [hvalues, List.take_length]

theorem countNulls_keeps (call : AddCall config) :
    Keeps SameBits (countNulls call) := by
  intro w
  change SameBits w (if _ then _ else w)
  split_ifs
  · exact ⟨rfl, rfl, List.prefix_refl _, List.prefix_refl _⟩
  · exact SameBits.refl w

theorem encodeDefLevels_keeps (outcomes : Outcomes) (call : AddCall config) :
    Keeps SameBits (encodeDefLevels outcomes call) := by
  intro w
  rw [encodeDefLevels]
  split_ifs
  · split
    · exact SameBits.refl w
    · exact ⟨rfl, rfl, List.prefix_append _ _, List.prefix_refl _⟩
  · exact SameBits.refl w

theorem encodeRepLevels_keeps (outcomes : Outcomes) (call : AddCall config) :
    Keeps SameBits (encodeRepLevels outcomes call) := by
  intro w
  rw [encodeRepLevels]
  split_ifs
  · split
    · exact SameBits.refl w
    · exact ⟨rfl, rfl, List.prefix_refl _, List.prefix_append _ _⟩
  · exact SameBits.refl w

theorem addLevels_keeps (outcomes : Outcomes) (call : AddCall config) :
    Keeps SameBits (addLevels outcomes call) := by
  refine Keeps.bind SameBits.trans (countNulls_keeps call) fun _ => ?_
  exact Keeps.bind SameBits.trans (encodeDefLevels_keeps outcomes call) fun _ =>
    encodeRepLevels_keeps outcomes call

theorem updateStatistics_keeps (values : Bytes) :
    Keeps SameBits (updateStatistics values :
      EStateM PageError (PageWriter config) Unit) := by
  intro w
  change SameBits w (if _ then _ else w)
  split_ifs
  · exact ⟨rfl, rfl, List.prefix_refl _, List.prefix_refl _⟩
  · exact SameBits.refl w

theorem appendPlainBoolean_error
    {outcomes : Outcomes} {values : Bytes} {w w' : PageWriter config}
    {failure : PageError}
    (h : appendPlainBoolean outcomes values w = .error failure w') :
    w' = w := by
  simp only [appendPlainBoolean] at h
  split_ifs at h
  cases h
  rfl

/-- The appended bits follow the ones of the page. -/
theorem Packed.append
    {outcomes : Outcomes} {values : Bytes} {w w' : PageWriter config}
    {bits : List Bool}
    (hpacked : Packed w bits)
    (h : appendPlainBoolean outcomes values w = .ok () w') :
    Packed w' (bits ++ valueBits values) := by
  have hcount : (bits ++ valueBits values).length = bits.length + values.length := by
    rw [List.length_append, valueBits, List.length_map]
  simp only [appendPlainBoolean, hpacked.boolBits, hpacked.values] at h
  split_ifs at h with hempty hgrant
  · cases h
    rw [List.eq_nil_of_length_eq_zero hempty]
    simpa [valueBits] using hpacked
  · cases h
    refine ⟨hcount.symm, ?_⟩
    -- the page has just the bytes its bits need, so the stream starts at its first
    have hbase : (packBits bits ++ List.replicate
        ((bits.length + values.length + 7) / 8 - (bits.length + 7) / 8) (0 : UInt8)).length -
        (bits.length + values.length + 7) / 8 = 0 := by
      rw [List.length_append, length_packBits, List.length_replicate]
      omega
    simp only [hbase]
    exact orBits_packBits bits values

/-- The bits of the present values of a call. -/
def AddCall.bits (call : AddCall config) : List Bool :=
  valueBits ((call.values.getD []).take call.nonNull)

/-- The bits a call with an outcome gives the page. -/
def takenBits (status : Except PageError Unit) (call : AddCall config) : List Bool :=
  match status with
  | .ok _ => call.bits
  | .error _ => []

theorem addSteps_error
    {outcomes : Outcomes} {call : AddCall config} {values : Bytes}
    {w w' : PageWriter config} {failure : PageError}
    (h : addSteps outcomes call values w = .error failure w') :
    SameBits w w' := by
  rcases bind_eq_error.mp h with hlevels | ⟨_, middle, hlevels, h⟩
  · exact (addLevels_keeps outcomes call).of_error hlevels
  · have hmiddle := (addLevels_keeps outcomes call).of_ok hlevels
    rcases bind_eq_error.mp h with happend | ⟨_, _, _, hstatistics⟩
    · rw [appendPlainBoolean_error happend]
      exact hmiddle
    · cases hstatistics

theorem Packed.addSteps
    {outcomes : Outcomes} {call : AddCall config} {values : Bytes}
    {w w' : PageWriter config} {bits : List Bool}
    (hpacked : Packed w bits)
    (h : addSteps outcomes call values w = .ok () w') :
    Packed w' (bits ++ valueBits (values.take call.nonNull)) := by
  obtain ⟨_, levels, hlevels, h⟩ := bind_eq_ok.mp h
  obtain ⟨_, appended, happend, hstatistics⟩ := bind_eq_ok.mp h
  have hbits := ((addLevels_keeps outcomes call).of_ok hlevels).packed hpacked
  exact ((updateStatistics_keeps _).of_ok hstatistics).packed (hbits.append happend)

/-- A call that fails leaves the page as it was. -/
theorem addValues_error
    {outcomes : Outcomes} {call : AddCall config} {w : PageWriter config}
    {failure : PageError}
    (h : (addValues outcomes call w).1 = .error failure) :
    (addValues outcomes call w).2 = w := by
  unfold addValues at h ⊢
  split
  · rfl
  · rename_i values hvalues
    simp only [hvalues] at h
    split
    · rename_i hsteps
      simp [hsteps] at h
    · rename_i hsteps
      exact (addSteps_error hsteps).restore

/-- One call appends the bits of its present values, or nothing if it fails. -/
theorem Packed.addValues
    {w : PageWriter config} {bits : List Bool}
    (hpacked : Packed w bits) (outcomes : Outcomes) (call : AddCall config) :
    Packed (addValues outcomes call w).2
      (bits ++ takenBits (addValues outcomes call w).1 call) := by
  rcases hstatus : (Encoding.addValues outcomes call w).1 with failure | _
  · rw [addValues_error hstatus, takenBits, List.append_nil]
    exact hpacked
  · unfold Encoding.addValues at hstatus ⊢
    split at hstatus
    · cases hstatus
    · rename_i values hvalues
      split at hstatus
      · rename_i w' hsteps
        have hadded := hpacked.addSteps hsteps
        simp only [hvalues, takenBits, AddCall.bits, Option.getD_some]
        exact ⟨hadded.boolBits, hadded.values⟩
      · cases hstatus

/-- The bits a page was given by calls with their outcomes. -/
def allTaken (statuses : List (Except PageError Unit))
    (calls : List (Outcomes × AddCall config)) : List Bool :=
  (List.zipWith (fun status entry => takenBits status entry.2) statuses calls).flatten

/-- All calls of a page append the bits of their present values in a row. -/
theorem Packed.addAll
    {w : PageWriter config} {bits : List Bool}
    (hpacked : Packed w bits) (calls : List (Outcomes × AddCall config)) :
    Packed (addAll calls w).2 (bits ++ allTaken (addAll calls w).1 calls) := by
  induction calls generalizing w bits with
  | nil =>
      simpa [Encoding.addAll, allTaken] using hpacked
  | cons entry rest ih =>
      have hrest := ih (hpacked.addValues entry.1 entry.2)
      rw [List.append_assoc] at hrest
      exact hrest

/-- Nothing a call meets fails. -/
structure Succeeds (outcomes : Outcomes) (call : AddCall config) : Prop where
  values : call.values.isSome
  encodes : ∀ levels count maxLevel, ∃ bytes,
    outcomes.encodeLevels levels count maxLevel = .ok bytes
  grants : ∀ size, outcomes.grants size

theorem Succeeds.addLevels
    {outcomes : Outcomes} {call : AddCall config}
    (h : Succeeds outcomes call) (w : PageWriter config) :
    ∃ w', addLevels outcomes call w = .ok () w' := by
  have hdef : ∀ w, ∃ w', encodeDefLevels outcomes call w = .ok () w' := by
    intro w
    obtain ⟨bytes, hbytes⟩ := h.encodes call.defLevels call.numValues config.maxDefLevel
    simp only [encodeDefLevels, hbytes]
    split_ifs
    · exact ⟨_, rfl⟩
    · exact ⟨_, rfl⟩
  have hrep : ∀ w, ∃ w', encodeRepLevels outcomes call w = .ok () w' := by
    intro w
    obtain ⟨bytes, hbytes⟩ := h.encodes call.repLevels call.numValues config.maxRepLevel
    simp only [encodeRepLevels, hbytes]
    split_ifs
    · exact ⟨_, rfl⟩
    · exact ⟨_, rfl⟩
  obtain ⟨counted, hcounted⟩ : ∃ w', countNulls call w = .ok () w' := ⟨_, rfl⟩
  obtain ⟨coded, hcoded⟩ := hdef counted
  obtain ⟨w', hw'⟩ := hrep coded
  exact ⟨w', bind_eq_ok.mpr ⟨_, _, hcounted, bind_eq_ok.mpr ⟨_, _, hcoded, hw'⟩⟩⟩

theorem Succeeds.append
    {outcomes : Outcomes} {call : AddCall config}
    (h : Succeeds outcomes call) (values : Bytes) (w : PageWriter config) :
    ∃ w', appendPlainBoolean outcomes values w = .ok () w' := by
  simp only [appendPlainBoolean, h.grants]
  split_ifs with hempty hgrant
  · exact ⟨_, rfl⟩
  · exact absurd trivial hgrant.2
  · exact ⟨_, rfl⟩

theorem Succeeds.addValues
    {outcomes : Outcomes} {call : AddCall config}
    (h : Succeeds outcomes call) (w : PageWriter config) :
    (addValues outcomes call w).1 = .ok () := by
  obtain ⟨values, hvalues⟩ := Option.isSome_iff_exists.mp h.values
  obtain ⟨levels, hlevels⟩ := h.addLevels w
  obtain ⟨appended, happend⟩ := h.append (values.take call.nonNull) levels
  obtain ⟨w', hsteps⟩ : ∃ w', addSteps outcomes call values w = .ok () w' :=
    ⟨_, bind_eq_ok.mpr ⟨_, _, hlevels, bind_eq_ok.mpr ⟨_, _, happend, rfl⟩⟩⟩
  simp [Encoding.addValues, hvalues, hsteps]

theorem allTaken_addAll
    {calls : List (Outcomes × AddCall config)}
    (h : ∀ entry ∈ calls, Succeeds entry.1 entry.2) (w : PageWriter config) :
    allTaken (addAll calls w).1 calls = calls.flatMap fun entry => entry.2.bits := by
  induction calls generalizing w with
  | nil =>
      rfl
  | cons entry rest ih =>
      have hfirst := (h entry List.mem_cons_self).addValues w
      have hrest := ih (fun entry hmem => h entry (List.mem_cons_of_mem _ hmem))
        (addValues entry.1 entry.2 w).2
      rw [List.flatMap_cons, ← hrest]
      simp [allTaken, addAll, hfirst, takenBits]

theorem reset_packed (w : PageWriter config) : Packed w.reset [] :=
  ⟨rfl, rfl⟩

/-- A page is one stream of bits: whatever calls its values come in, its bytes are the
packed bits of all present values of the calls that succeeded, and if nothing fails, of
all calls. A page after a reset is a new page. -/
theorem boolean_page_one_stream
    (w : PageWriter config) (calls : List (Outcomes × AddCall config)) :
    (addAll calls w.reset).2.values =
        packBits (allTaken (addAll calls w.reset).1 calls) ∧
      ((∀ entry ∈ calls, Succeeds entry.1 entry.2) →
        (addAll calls w.reset).2.values =
          packBits (calls.flatMap fun entry => entry.2.bits)) ∧
      w.reset = PageWriter.create config := by
  have hpage := (reset_packed w).addAll calls
  rw [List.nil_append] at hpage
  refine ⟨hpage.values, ?_, rfl⟩
  intro hsucceeds
  rw [hpage.values, allTaken_addAll hsucceeds]

/-- Memory is there, and the levels encode to nothing. -/
def granted : Outcomes :=
  ⟨fun _ _ _ => .ok [], fun _ => true⟩

theorem granted_succeeds {call : AddCall config} (h : call.values.isSome) :
    Succeeds granted call :=
  ⟨h, fun _ _ _ => ⟨[], rfl⟩, fun _ => rfl⟩

/-- Three values, none, and two of three rows, after a page with other values. -/
theorem boolean_page_one_stream_pieces :
    ∃ calls : List (Outcomes × AddCall ⟨1, 0, true⟩),
      (∀ entry ∈ calls, Succeeds entry.1 entry.2) ∧
        calls.map (fun entry => entry.2.bits) = [[true, false, true], [], [true, true]] ∧
        (addAll calls (PageWriter.reset
          ⟨[255], 3, [2], [], 3, 0, false, true⟩)).2.values = [0b11101] := by
  have hsucceeds : ∀ entry ∈ ([
      (granted, ⟨some [1, 0, 1], 3, none, none, by simp [nonNullCount]⟩),
      (granted, ⟨some [], 0, none, none, by simp [nonNullCount]⟩),
      (granted, ⟨some [1, 2], 3, some [1, 0, 1], none, by simp [nonNullCount]⟩)] :
        List (Outcomes × AddCall ⟨1, 0, true⟩)), Succeeds entry.1 entry.2 := by
    simp only [List.forall_mem_cons, List.not_mem_nil, false_imp_iff, implies_true, and_true]
    exact ⟨granted_succeeds rfl, granted_succeeds rfl, granted_succeeds rfl⟩
  refine ⟨_, hsucceeds, by decide, ?_⟩
  rw [(boolean_page_one_stream _ _).2.1 hsucceeds]
  decide

end Calls

end Encoding
end QioParquet
