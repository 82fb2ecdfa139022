import QioParquet.Read.Delivery
import Mathlib.Tactic

/-!
# What the decoders compute

Both decoders are the same walk over the slots of a batch (`decodeSlots`): the
dense one puts the values back in place by definition level, the row-aligned
one picks them by bitmap. A decoder that returns has therefore computed
`nativeCell` of every row its batch stands for, and has raised exactly the
warnings the rows call for.
-/

namespace QioParquet
namespace Read

open Lib

section Elements

/-- The element either decoder makes of a present row. -/
def element
    (c : ColumnSpec) (memory : Memory) (row : Nat)
    (v : PhysValue ByteArrayRef) : Except ReadError RCell :=
  if c.kind = .uuid then
    uuidElement v
  else if c.kind = .binary then
    rawElement c memory v
  else if c.type = .byteArray then
    textElement memory c.name row v
  else do
    let (cell, _) ← copyPresent c memory row v Flags.none
    return cell

/-- A column whose kind `qio_prepare_selection` accepts for its type. -/
def ColumnSpec.Supported (c : ColumnSpec) : Prop :=
  c.type = .fixedLenByteArray → c.kind = .uuid ∨ c.kind = .binary

theorem sentinelScan_eq
    {c : ColumnSpec} (slots : List (Option (PhysValue ByteArrayRef)))
    (hkind : c.kind ≠ .uuid ∧ c.kind ≠ .binary ∧ c.kind ≠ .uint32) :
    sentinelScan slots.reduceOption =
      (rowFlags c slots).int32Sentinel := by
  rw [sentinelScan, any_reduceOption, rowFlags]
  congr 1
  funext row
  congr 1
  funext v
  obtain ⟨_, _, kind, _, _, _, _⟩ := c
  cases kind <;> cases v <;> simp_all [isSentinel]

theorem coercedScan_eq
    {c : ColumnSpec} (slots : List (Option (PhysValue ByteArrayRef)))
    (hkind : c.kind = .int64) :
    coercedScan c.int64Option c.unsigned64 slots.reduceOption =
      (rowFlags c slots).int64Coerced := by
  rw [coercedScan, any_reduceOption, rowFlags]
  congr 1
  funext row
  congr 1
  funext v
  cases v <;> simp [isCoerced, hkind]

theorem rowFlags_sentinel_of_type {β : Type}
    {c : ColumnSpec} {rows : List (Option (PhysValue β))}
    (htyped : ∀ v, some v ∈ rows → v.type = c.type)
    (hcolumn : c.type ≠ .int32 ∨ c.kind = .uint32 ∨ c.kind = .uuid ∨
      c.kind = .binary) :
    (rowFlags c rows).int32Sentinel = false := by
  simp only [rowFlags, List.any_eq_false]
  intro row hrow
  cases row with
  | none =>
      simp
  | some v =>
      have htype := htyped v hrow
      obtain ⟨_, _, kind, _, _, _, _⟩ := c
      cases kind <;> cases v <;> simp_all [isSentinel, PhysValue.type]

theorem rowFlags_coerced_of_type {β : Type}
    {c : ColumnSpec} {rows : List (Option (PhysValue β))}
    (htyped : ∀ v, some v ∈ rows → v.type = c.type)
    (hcolumn : c.type ≠ .int64 ∨ c.kind ≠ .int64) :
    (rowFlags c rows).int64Coerced = false := by
  simp only [rowFlags, List.any_eq_false]
  intro row hrow
  cases row with
  | none =>
      simp
  | some v =>
      have htype := htyped v hrow
      obtain ⟨_, _, kind, _, _, _, _⟩ := c
      cases kind <;> cases v <;> simp_all [isCoerced, PhysValue.type]

/-- What both decoders do with the slots of a batch. -/
def decodeSlots
    (c : ColumnSpec) (memory : Memory)
    (slots : List (Option (PhysValue ByteArrayRef))) (flags : Flags) :
    Except ReadError (List RCell × Flags) := do
  if c.kind = .uuid then
    checkUuidWidth c.typeLength c.name
  let cells ← traverseRows (naCell c) (element c memory) 0 slots
  return (cells, flags.or (rowFlags c slots))

theorem copyAbsent_eq
    {c : ColumnSpec}
    (huuid : c.kind ≠ .uuid) (hbinary : c.kind ≠ .binary) :
    copyAbsent c = naCell c := by
  obtain ⟨_, type, kind, _, _, _, _⟩ := c
  cases kind <;> cases type <;>
    first | rfl | exact absurd rfl huuid | exact absurd rfl hbinary

/-- The flags a present row raises do not depend on the ones raised before. -/
theorem copyPresent_eq
    {c : ColumnSpec} {memory : Memory} {row : Nat}
    {v : PhysValue ByteArrayRef} {flags : Flags}
    (huuid : c.kind ≠ .uuid) (hbinary : c.kind ≠ .binary)
    (hfixed : c.type ≠ .fixedLenByteArray)
    (htype : v.type = c.type) :
    copyPresent c memory row v flags = do
      let cell ← element c memory row v
      return (cell, flags.or (rowFlags c [some v])) := by
  obtain ⟨_, type, kind, _, _, mode, unsigned⟩ := c
  obtain ⟨sentinel, coerced⟩ := flags
  cases v <;> cases htype
  case fixed bytes =>
    exact absurd rfl hfixed
  case byteArray ref =>
    simp only at huuid hbinary
    simp only [copyPresent, element, if_neg huuid, if_neg hbinary,
      textElement, loadByteArray, ok_bind, if_true, bind_assoc, pure_bind]
    cases kind <;> simp [rowFlags, isSentinel, isCoerced, Flags.or]
  case int32 word =>
    cases kind <;>
      simp_all [copyPresent, element, loadInt32, rowFlags, isSentinel,
        isCoerced, Flags.or]
    all_goals
      by_cases hword : word = naInteger <;> simp [hword]
  case int64 word =>
    cases kind <;>
      simp_all [copyPresent, element, loadInt64, rowFlags, isSentinel,
        isCoerced, Flags.or, ColumnSpec.int64Mode]
    cases hlost : (placeInt64 word mode unsigned).2 <;> simp
  all_goals
    cases kind <;>
      simp_all [copyPresent, element, loadBoolean, loadInt96, loadFloat,
        loadDouble, rowFlags, isSentinel, isCoerced, Flags.or]

theorem copyBatchRow_eq
    {c : ColumnSpec} {memory : Memory} {row : Nat} {present : Bool}
    {v : PhysValue ByteArrayRef} {flags : Flags}
    (hsupported : c.Supported)
    (htyped : present = true → v.type = c.type) :
    copyBatchRow c memory row present v flags = do
      let cell ←
        if present then element c memory row v else .ok (naCell c)
      return (cell,
        flags.or (rowFlags c [if present then some v else none])) := by
  have hnone : rowFlags c [(none : Option (PhysValue ByteArrayRef))] =
      Flags.none := by
    simp [rowFlags, Flags.none]
  have hsome (hkind : c.kind = .uuid ∨ c.kind = .binary) :
      rowFlags c [some v] = Flags.none := by
    rcases hkind with hkind | hkind <;>
      cases v <;> simp [rowFlags, isSentinel, isCoerced, hkind, Flags.none]
  unfold copyBatchRow
  by_cases huuid : c.kind = .uuid
  · cases present with
    | false =>
        simp [huuid, hnone, naCell]
    | true =>
        simp [huuid, hsome, element]
  by_cases hbinary : c.kind = .binary
  · cases present with
    | false =>
        simp [hbinary, hnone, naCell]
    | true =>
        simp [hbinary, hsome, element]
  rw [if_neg huuid, if_neg hbinary]
  cases present with
  | false =>
      simp [hnone, copyAbsent_eq huuid hbinary]
  | true =>
      have hfixed : c.type ≠ .fixedLenByteArray := fun h =>
        (hsupported h).elim huuid hbinary
      simpa using copyPresent_eq huuid hbinary hfixed (htyped rfl)

theorem rowFlags_cons {β : Type}
    (c : ColumnSpec) (row : Option (PhysValue β))
    (rows : List (Option (PhysValue β))) :
    rowFlags c (row :: rows) =
      (rowFlags c [row]).or (rowFlags c rows) :=
  rowFlags_append c [row] rows

/-- The row-aligned loop walks the slots of its present rows. -/
theorem copyBatchRows_eq
    {c : ColumnSpec} {memory : Memory}
    (hsupported : c.Supported)
    (row : Nat) (presence : List Bool)
    (data : List (PhysValue ByteArrayRef)) (flags : Flags)
    (hlen : data.length = presence.length)
    (htyped : ∀ v, some v ∈ alignedRows presence data →
      v.type = c.type) :
    copyBatchRows c memory row presence data flags = do
      let cells ← traverseRows (naCell c) (element c memory) row
        (alignedRows presence data)
      return (cells, flags.or (rowFlags c (alignedRows presence data))) := by
  induction presence generalizing row data flags with
  | nil =>
      simp [copyBatchRows, alignedRows, traverseRows]
  | cons present presence ih =>
      cases data with
      | nil =>
          simp at hlen
      | cons v data =>
          have hcons :
              alignedRows (present :: presence) (v :: data) =
                (if present then some v else none) ::
                  alignedRows presence data := by
            cases present <;> rfl
          have hrow :
              copyBatchRow c memory row present v flags = _ :=
            copyBatchRow_eq hsupported
              (fun hpresent => htyped v (by rw [hcons]; simp [hpresent]))
          have hrest := fun flags => ih (row + 1) data flags
            (by simpa using hlen)
            (fun w hw => htyped w (by simp [hcons, hw]))
          rw [copyBatchRows, hrow, hcons,
            rowFlags_cons c _ (alignedRows presence data)]
          simp only [hrest, ← Flags.or_assoc, bind_assoc, pure_bind]
          cases present with
          | false =>
              simp [traverseRows]
          | true =>
              simp [traverseRows]

/-- The row-aligned decoder on a batch that stands for some rows. -/
theorem copyBatchColumn_eq_decodeSlots
    {c : ColumnSpec} {a : AlignedColumn} {length : Nat} {flags : Flags}
    (hsupported : c.Supported)
    (hlen : a.data.length = (a.presence length).length)
    (htyped : ∀ v, some v ∈ alignedRows (a.presence length) a.data →
      v.type = c.type) :
    copyBatchColumn c a length flags =
      decodeSlots c a.memory (alignedRows (a.presence length) a.data)
        flags := by
  have hfixed :
      ¬ (c.type = .fixedLenByteArray ∧ c.kind ≠ .uuid ∧
        c.kind ≠ .binary) := by
    rintro ⟨htype, huuid, hbinary⟩
    exact (hsupported htype).elim huuid hbinary
  simp only [copyBatchColumn, decodeSlots, if_neg hfixed,
    copyBatchRows_eq hsupported 0 _ _ flags hlen htyped]

end Elements

section DenseDecoder

/-- The present values of a dense batch, back in the rows they belong to. -/
structure DenseBatch.HasSlots
    (b : DenseBatch) (c : ColumnSpec)
    (slots : List (Option (PhysValue ByteArrayRef))) : Prop where
  values_eq : ∃ stale, b.values = slots.reduceOption ++ stale
  presence_eq : b.presence c.maxDef = slots.map Option.isSome
  typed : ∀ v, some v ∈ slots → v.type = c.type

/-- Slots that denote fitting rows hold values of the column's type. -/
theorem typed_of_fits
    {c : ColumnSpec} {memory : Memory} {rows : List Row}
    {slots : List (Option (PhysValue ByteArrayRef))}
    (hfits : ∀ row ∈ rows, row.Fits c)
    (hslots :
      slots.map (Option.map (derefValue memory)) = rowValues rows) :
    ∀ v, some v ∈ slots → v.type = c.type := by
  intro v hv
  have hmem : some (derefValue memory v) ∈ rowValues rows := by
    rw [← hslots]
    exact List.mem_map.mpr ⟨some v, hv, rfl⟩
  obtain ⟨row, hrow, hvalue⟩ := List.mem_map.mp hmem
  cases row with
  | null level =>
      cases hvalue
  | present value =>
      obtain rfl : value = derefValue memory v := Option.some.inj hvalue
      simpa using (hfits _ hrow).1

theorem DenseBatch.Delivers.hasSlots
    {c : ColumnSpec} {b : DenseBatch} {rows : List Row}
    (hb : b.Delivers c rows)
    (hfits : ∀ row ∈ rows, row.Fits c) :
    ∃ slots : List (Option (PhysValue ByteArrayRef)),
      slots.map (Option.map (derefValue b.memory)) = rowValues rows ∧
      b.HasSlots c slots ∧
      ∀ v, some v ∈ slots → ValidSlot v := by
  obtain ⟨slots, stale, hmap, hvalues, hpresence, hvalid⟩ :=
    hb.exists_slots hfits
  exact ⟨slots, hmap,
    ⟨⟨stale, hvalues⟩, hpresence, typed_of_fits hfits hmap⟩, hvalid⟩

variable {c : ColumnSpec} {b : DenseBatch}
variable {slots : List (Option (PhysValue ByteArrayRef))}

theorem DenseBatch.HasSlots.scatterLoop_eq
    (hb : b.HasSlots c slots)
    (na : RCell)
    (present : Nat → PhysValue ByteArrayRef → Except ReadError RCell) :
    scatterLoop .undefinedBehaviour na present 0
        (b.presence c.maxDef) b.values =
      traverseRows na present 0 slots := by
  obtain ⟨stale, hvalues⟩ := hb.values_eq
  rw [hb.presence_eq, hvalues, scatterLoop_eq_traverseRows]

theorem DenseBatch.HasSlots.dense_eq
    (hb : b.HasSlots c slots) :
    b.dense c.maxDef = slots.reduceOption := by
  obtain ⟨stale, hvalues⟩ := hb.values_eq
  rw [DenseBatch.dense, hb.presence_eq, count_isSome, hvalues,
    List.take_left]

/-- Only plain INT32 columns and INT64 columns read as such raise a flag. -/
theorem DenseBatch.HasSlots.rowFlags_eq_none
    (hb : b.HasSlots c slots)
    (hint32 : c.type ≠ .int32 ∨ c.kind = .uint32 ∨ c.kind = .uuid ∨
      c.kind = .binary)
    (hint64 : c.type ≠ .int64 ∨ c.kind ≠ .int64) :
    rowFlags c slots = Flags.none := by
  have hsentinel := rowFlags_sentinel_of_type hb.typed hint32
  have hcoerced := rowFlags_coerced_of_type hb.typed hint64
  generalize rowFlags c slots = found at hsentinel hcoerced
  cases found
  simp_all [Flags.none]

/-- A numeric loop whose conversion is the column's element. -/
theorem DenseBatch.HasSlots.numericLoop_eq {α : Type}
    (hb : b.HasSlots c slots)
    (load : PhysValue ByteArrayRef → Except ReadError α)
    (na : RCell) (convert : α → RCell)
    (hna : naCell c = na)
    (helement : ∀ row v, element c b.memory row v = do
      let x ← load v
      return convert x) :
    numericLoop c b load na convert =
      traverseRows (naCell c) (element c b.memory) 0 slots := by
  rw [numericLoop, hb.scatterLoop_eq, hna]
  exact traverseRows_congr fun row v _ => (helement row v).symm

/-- The numeric decoder on columns of numeric type. -/
theorem scatterNumericRaw_eq
    {flags : Flags}
    (hb : b.HasSlots c slots)
    (huuid : c.kind ≠ .uuid) (hbinary : c.kind ≠ .binary)
    (htext : c.type ≠ .byteArray)
    (hfixed : c.type ≠ .fixedLenByteArray) :
    scatterNumericRaw c b flags = do
      let cells ← traverseRows (naCell c) (element c b.memory) 0 slots
      return (cells, flags.or (rowFlags c slots)) := by
  have hna := copyAbsent_eq huuid hbinary
  have hflags := hb.rowFlags_eq_none
  cases htype : c.type
  case byteArray =>
    exact absurd htype htext
  case fixedLenByteArray =>
    exact absurd htype hfixed
  case boolean =>
    have hloop := hb.numericLoop_eq loadBoolean .lglNA
      (fun byte => .lgl (byte != 0))
      (by simp [← hna, copyAbsent, htype])
      (by simp [element, huuid, hbinary, htype, copyPresent])
    simp [scatterNumericRaw, htype, hloop, hflags]
  case int96 =>
    have hloop := hb.numericLoop_eq loadInt96 (.dbl .na)
      (fun words => .dbl (int96ToSeconds words.1 words.2.1 words.2.2))
      (by simp [← hna, copyAbsent, htype])
      (by simp [element, huuid, hbinary, htype, copyPresent])
    simp [scatterNumericRaw, htype, hloop, hflags]
  case float =>
    have hloop := hb.numericLoop_eq loadFloat (.dbl .na)
      (fun value => .dbl (floatToDouble value))
      (by simp [← hna, copyAbsent, htype])
      (by simp [element, huuid, hbinary, htype, copyPresent])
    simp [scatterNumericRaw, htype, hloop, hflags]
  case double =>
    have hloop := hb.numericLoop_eq loadDouble (.dbl .na) .dbl
      (by simp [← hna, copyAbsent, htype])
      (by simp [element, huuid, hbinary, htype, copyPresent])
    simp [scatterNumericRaw, htype, hloop, hflags]
  case int32 =>
    have hcoerced := rowFlags_coerced_of_type hb.typed
      (Or.inl (by simp [htype]))
    by_cases hunsigned : c.kind = .uint32
    · have hloop := hb.numericLoop_eq loadInt32 (.dbl .na)
        (fun word => .dbl (intToDouble word.toNat))
        (by simp [← hna, copyAbsent, htype, hunsigned])
        (by simp [element, hunsigned, htype, copyPresent])
      simp [scatterNumericRaw, htype, hloop, hflags, hunsigned]
    · have hloop := hb.numericLoop_eq loadInt32 (.int naInteger) .int
        (by simp [← hna, copyAbsent, htype, hunsigned])
        (by
          intro row v
          cases hload : loadInt32 v with
          | error e =>
              simp [element, huuid, hbinary, htype, copyPresent, hload]
          | ok word =>
              by_cases hword : word = naInteger <;>
                simp [element, huuid, hbinary, hunsigned, htype,
                  copyPresent, hload, hword])
      simp [scatterNumericRaw, htype, hloop, hunsigned, hb.dense_eq,
        sentinelScan_eq slots ⟨huuid, hbinary, hunsigned⟩, Flags.or,
        hcoerced]
  case int64 =>
    have hsentinel := rowFlags_sentinel_of_type hb.typed
      (Or.inl (by simp [htype]))
    by_cases hkind : c.kind = .int64
    · have hloop := hb.numericLoop_eq loadInt64 (placeInt64NA c.int64Option)
        (fun word => (placeInt64 word c.int64Option c.unsigned64).1)
        (by simp [← hna, copyAbsent, htype, hkind, ColumnSpec.int64Mode])
        (by
          intro row v
          cases hload : loadInt64 v with
          | error e =>
              simp [element, hkind, htype, copyPresent, hload]
          | ok word =>
              cases hlost :
                  (placeInt64 word c.int64Option c.unsigned64).2 <;>
                simp [element, hkind, htype, copyPresent, hload, hlost,
                  ColumnSpec.int64Mode])
      simp [scatterNumericRaw, htype, hloop, hkind, hb.dense_eq,
        coercedScan_eq slots hkind, Flags.or, hsentinel,
        ColumnSpec.int64Mode]
    · have hloop := hb.numericLoop_eq loadInt64 (.dbl .na)
        (fun word => .dbl (intToDouble word.toInt))
        (by simp [← hna, copyAbsent, htype, hkind, ColumnSpec.int64Mode])
        (by simp [element, huuid, hbinary, hkind, htype, copyPresent,
          ColumnSpec.int64Mode])
      simp [scatterNumericRaw, htype, hloop, hkind, hflags,
        ColumnSpec.int64Mode]

/-- The dense decoder on a batch whose present values have these slots. -/
theorem scatterDenseColumn_eq_decodeSlots
    {flags : Flags}
    (hsupported : c.Supported)
    (hb : b.HasSlots c slots) :
    scatterDenseColumn c b flags = decodeSlots c b.memory slots flags := by
  have hflags := hb.rowFlags_eq_none
  by_cases huuid : c.kind = .uuid
  · have helement : element c b.memory = fun _ v => uuidElement v := by
      funext row v
      simp [element, huuid]
    simp [scatterDenseColumn, decodeSlots, huuid, hb.scatterLoop_eq,
      helement, naCell, hflags]
  by_cases hbinary : c.kind = .binary
  · have helement :
        element c b.memory = fun _ v => rawElement c b.memory v := by
      funext row v
      simp [element, hbinary]
    simp [scatterDenseColumn, decodeSlots, hbinary, hb.scatterLoop_eq,
      helement, naCell, hflags]
  by_cases htext : c.type = .byteArray
  · have helement :
        element c b.memory = textElement b.memory c.name := by
      funext row v
      simp [element, huuid, hbinary, htext]
    have hna : naCell c = .strNA := by
      rw [← copyAbsent_eq huuid hbinary, copyAbsent, htext]
    have hcached := scatterTextLoop_eq
      (CharCache.sound_reset b.memory c.name) 0 (b.presence c.maxDef)
      b.values
    rw [hb.scatterLoop_eq] at hcached
    simp [scatterDenseColumn, decodeSlots, huuid, hbinary, htext, hcached,
      helement, hna, hflags]
  have hfixed : c.type ≠ .fixedLenByteArray := fun h =>
    (hsupported h).elim huuid hbinary
  simp only [scatterDenseColumn, decodeSlots, if_neg huuid, if_neg hbinary,
    if_neg htext, scatterNumericRaw_eq hb huuid hbinary htext hfixed]

end DenseDecoder

section Mapping

/-- The R elements of some rows, where all of them have one. -/
def nativeCells
    (c : ColumnSpec) (rows : List Row) : Option (List RCell) :=
  (rowValues rows).mapM (nativeCell c)

theorem nativeCells_of_append
    {c : ColumnSpec} {rows rows' : List Row} {cells : List RCell}
    (h : nativeCells c (rows ++ rows') = some cells) :
    ∃ first more, nativeCells c rows = some first ∧
      nativeCells c rows' = some more ∧ cells = first ++ more := by
  rw [nativeCells, rowValues_append, List.mapM_append] at h
  simp only [bind, Option.bind_eq_some_iff, pure, Option.some.injEq] at h
  obtain ⟨first, hfirst, more, hmore, rfl⟩ := h
  exact ⟨first, more, hfirst, hmore, rfl⟩

theorem nativeCells_append
    {c : ColumnSpec} {rows rows' : List Row} {cells cells' : List RCell}
    (h : nativeCells c rows = some cells)
    (h' : nativeCells c rows' = some cells') :
    nativeCells c (rows ++ rows') = some (cells ++ cells') := by
  unfold nativeCells at h h' ⊢
  rw [rowValues_append, List.mapM_append, h, h']
  rfl

theorem length_nativeCells
    {c : ColumnSpec} {rows : List Row} {cells : List RCell}
    (h : nativeCells c rows = some cells) :
    cells.length = rows.length := by
  unfold nativeCells rowValues at h
  induction rows generalizing cells with
  | nil =>
      obtain rfl : [] = cells := by
        simpa using h
      rfl
  | cons row rows ih =>
      simp only [List.map_cons, List.mapM_cons, Option.bind_eq_bind,
        Option.bind_eq_some_iff, Option.pure_def, Option.some.injEq] at h
      obtain ⟨cell, -, tail, htail, rfl⟩ := h
      simp [ih htail]

theorem nativeCells_getElem?
    {c : ColumnSpec} {rows : List Row} {cells : List RCell}
    {i : Nat} {row : Row}
    (h : nativeCells c rows = some cells)
    (hrow : rows[i]? = some row) :
    ∃ cell, nativeCell c row.value = some cell ∧ cells[i]? = some cell := by
  unfold nativeCells rowValues at h
  induction rows generalizing cells i with
  | nil =>
      cases hrow
  | cons head rows ih =>
      simp only [List.map_cons, List.mapM_cons, Option.bind_eq_bind,
        Option.bind_eq_some_iff, Option.pure_def, Option.some.injEq] at h
      obtain ⟨cell, hcell, tail, htail, rfl⟩ := h
      cases i with
      | zero =>
          cases hrow
          exact ⟨cell, hcell, rfl⟩
      | succ i =>
          simpa using ih htail (i := i) (by simpa using hrow)

theorem textElement_ok_iff
    (memory : Memory) (column : String) (row : Nat)
    {ref : ByteArrayRef} (cell : RCell)
    (hvalid : ref.Valid) :
    textElement memory column row (.byteArray ref) = .ok cell ↔
      ¬ TextFault (ref.bytes memory) ∧ cell = .str (ref.bytes memory) := by
  rw [← checkStringBytes_ok_iff hvalid]
  simp only [textElement, loadByteArray, ok_bind, bind_eq_ok_iff,
    pure_eq_ok, Except.ok.injEq]
  constructor
  · rintro ⟨_, hcheck, rfl⟩
    exact ⟨hcheck, rfl⟩
  · rintro ⟨hcheck, rfl⟩
    exact ⟨(), hcheck, rfl⟩

theorem rawElement_byteArray
    {c : ColumnSpec} {memory : Memory} {ref : ByteArrayRef}
    (hvalid : ref.Valid)
    (htype : c.type = .byteArray) :
    rawElement c memory (.byteArray ref) =
      .ok (.raw (ref.bytes memory)) := by
  simp only [rawElement, htype, reduceCtorEq, if_false, loadByteArray,
    ok_bind, if_neg hvalid.not_malformed, pure_eq_ok]

/-- The element made of a present row is the R element of its value. -/
theorem element_ok_iff
    {c : ColumnSpec} {memory : Memory} {row : Nat}
    {v : PhysValue ByteArrayRef} {cell : RCell}
    (hsupported : c.Supported)
    (hvalid : ValidSlot v)
    (htype : v.type = c.type) :
    element c memory row v = .ok cell ↔
      valueCell c (derefValue memory v) = some cell := by
  obtain ⟨name, type, kind, _, _, mode, unsigned⟩ := c
  cases v <;> cases htype
  case byteArray ref =>
    have hraw := fun c => @rawElement_byteArray c memory ref (hvalid ref rfl)
    have htext := textElement_ok_iff memory name row cell (hvalid ref rfl)
    cases kind <;>
      simp_all [element, uuidElement, loadFixed, valueCell, PhysValue.map,
        eq_comm]
  case fixed bytes =>
    have hkind := hsupported rfl
    cases kind <;>
      simp_all [element, uuidElement, loadFixed, rawElement, valueCell,
        PhysValue.map]
  case int64 word =>
    cases kind <;>
      simp_all [element, uuidElement, loadFixed, rawElement, loadByteArray,
        copyPresent, loadInt64, valueCell, PhysValue.map,
        ColumnSpec.int64Mode]
    cases hlost : (placeInt64 word mode unsigned).2 <;> simp
  case int32 word =>
    by_cases hword : word = naInteger <;> cases kind <;>
      simp_all [element, uuidElement, loadFixed, rawElement, loadByteArray,
        copyPresent, loadInt32, valueCell, PhysValue.map]
  all_goals
    cases kind <;>
      simp_all [element, uuidElement, loadFixed, rawElement, loadByteArray,
        copyPresent, loadBoolean, loadInt96, loadFloat, loadDouble,
        valueCell, PhysValue.map]

/-- A decoder that returns has made the R element of every row and raised the
flags the rows call for. -/
theorem decodeSlots_ok
    {c : ColumnSpec} {memory : Memory} {flags flags' : Flags}
    {slots : List (Option (PhysValue ByteArrayRef))}
    {rows : List Row} {cells : List RCell}
    (hsupported : c.Supported)
    (hslots : slots.map (Option.map (derefValue memory)) = rowValues rows)
    (hvalid : ∀ v, some v ∈ slots → ValidSlot v)
    (htyped : ∀ v, some v ∈ slots → v.type = c.type)
    (h : decodeSlots c memory slots flags = .ok (cells, flags')) :
    nativeCells c rows = some cells ∧
      flags' = flags.or (rowFlags c (rowValues rows)) := by
  have hwalk :
      traverseRows (naCell c) (element c memory) 0 slots = .ok cells ∧
        flags' = flags.or (rowFlags c slots) := by
    unfold decodeSlots at h
    split_ifs at h
    · simp only [bind_eq_ok_iff, pure_eq_ok, Except.ok.injEq,
        Prod.mk.injEq] at h
      obtain ⟨_, -, cells', hcells, rfl, rfl⟩ := h
      exact ⟨hcells, rfl⟩
    · simp only [bind_eq_ok_iff, pure_eq_ok, Except.ok.injEq,
        Prod.mk.injEq] at h
      obtain ⟨cells', hcells, rfl, rfl⟩ := h
      exact ⟨hcells, rfl⟩
  refine ⟨?_, ?_⟩
  · have hmap := traverseRows_ok
      (fun slot => nativeCell c (slot.map (derefValue memory)))
      rfl
      (fun row v cell hv hcell =>
        (element_ok_iff hsupported (hvalid v hv) (htyped v hv)).mp hcell)
      hwalk.1
    rw [nativeCells, ← hslots, List.mapM_map]
    exact hmap
  · rw [hwalk.2, ← hslots]
    exact congrArg flags.or (rowFlags_map _ c slots).symm

/-- The dense decoder on a batch that stands for some rows. -/
theorem scatterDenseColumn_ok
    {c : ColumnSpec} {b : DenseBatch} {rows : List Row}
    {flags flags' : Flags} {cells : List RCell}
    (hsupported : c.Supported)
    (hfits : ∀ row ∈ rows, row.Fits c)
    (hb : b.Delivers c rows)
    (h : scatterDenseColumn c b flags = .ok (cells, flags')) :
    nativeCells c rows = some cells ∧
      flags' = flags.or (rowFlags c (rowValues rows)) := by
  obtain ⟨slots, hmap, hslots, hvalid⟩ := hb.hasSlots hfits
  rw [scatterDenseColumn_eq_decodeSlots hsupported hslots] at h
  exact decodeSlots_ok hsupported hmap hvalid hslots.typed h

/-- The dense decoder returns when every row has an R element. -/
theorem scatterDenseColumn_complete
    {c : ColumnSpec} {b : DenseBatch} {rows : List Row} {cells : List RCell}
    (hsupported : c.Supported)
    (huuid : c.kind ≠ .uuid)
    (hfits : ∀ row ∈ rows, row.Fits c)
    (hb : b.Delivers c rows)
    (hcells : nativeCells c rows = some cells)
    (flags : Flags) :
    scatterDenseColumn c b flags =
      .ok (cells, flags.or (rowFlags c (rowValues rows))) := by
  obtain ⟨slots, hmap, hslots, hvalid⟩ := hb.hasSlots hfits
  obtain ⟨found, hfound⟩ : ∃ found,
      traverseRows (naCell c) (element c b.memory) 0 slots = .ok found := by
    apply traverseRows_exists
    intro row v hv
    have hmem : some (derefValue b.memory v) ∈ rowValues rows := by
      rw [← hmap]
      exact List.mem_map_of_mem hv
    obtain ⟨i, hi⟩ := List.mem_iff_getElem?.mp hmem
    rw [rowValues, List.getElem?_map, Option.map_eq_some_iff] at hi
    obtain ⟨stored, hstored, hvalue⟩ := hi
    obtain ⟨cell, hcell, -⟩ := nativeCells_getElem? hcells hstored
    rw [hvalue] at hcell
    exact ⟨cell, (element_ok_iff hsupported (hvalid v hv)
      (hslots.typed v hv)).mpr hcell⟩
  have hscatter : scatterDenseColumn c b flags =
      .ok (found, flags.or (rowFlags c slots)) := by
    rw [scatterDenseColumn_eq_decodeSlots hsupported hslots, decodeSlots,
      if_neg huuid, hfound]
    rfl
  obtain ⟨hnative, hflags⟩ :=
    scatterDenseColumn_ok hsupported hfits hb hscatter
  rw [hcells] at hnative
  rw [hscatter, hflags, Option.some.inj hnative]

/-- The row-aligned decoder on a batch that stands for some rows. -/
theorem copyBatchColumn_ok
    {c : ColumnSpec} {a : AlignedColumn} {rows : List Row}
    {flags flags' : Flags} {cells : List RCell}
    (hsupported : c.Supported)
    (hfits : ∀ row ∈ rows, row.Fits c)
    (ha : a.Delivers rows)
    (h : copyBatchColumn c a rows.length flags = .ok (cells, flags')) :
    nativeCells c rows = some cells ∧
      flags' = flags.or (rowFlags c (rowValues rows)) := by
  obtain ⟨hmap, hlen, hvalid⟩ := ha.slots
  have htyped := typed_of_fits hfits hmap
  rw [copyBatchColumn_eq_decodeSlots hsupported hlen htyped] at h
  exact decodeSlots_ok hsupported hmap hvalid htyped h

end Mapping

end Read
end QioParquet
