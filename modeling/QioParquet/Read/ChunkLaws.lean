import QioParquet.Read.Chunk
import Mathlib.Tactic

/-!
# What reading a chunk leaves behind

The materializing loop and the dictionary loop share one invariant: after some
batches, the stores made so far amount to one store, at the chunk's first row,
of the elements of the rows read. An abandoned dictionary attempt has stored a
prefix of the chunk, and the materializing loop that follows covers it.
-/

namespace QioParquet
namespace Read

open Lib

section Invariant

/-- The stores amount to one store of `cells` at the chunk's first row, and
none of them leaves the chunk's rows. -/
structure Stores (job : ChunkJob) (blocks : List Block) (cells : List RCell) :
    Prop where
  apply_eq : ∀ dst : List RCell,
    job.offset + job.rows ≤ dst.length →
    applyBlocks dst blocks = overwrite dst job.offset cells
  inside : ∀ block ∈ blocks,
    job.offset ≤ block.1 ∧
      block.1 + block.2.length ≤ job.offset + job.rows
  length_le : cells.length ≤ job.rows

theorem Stores.nil
    (job : ChunkJob) :
    Stores job [] [] where
  apply_eq := by simp
  inside := by simp
  length_le := by simp

/-- A further store that starts where the last one ended. -/
theorem Stores.snoc
    {job : ChunkJob} {blocks : List Block} {cells more : List RCell}
    {position : Nat}
    (h : Stores job blocks cells)
    (hposition : cells.length = position)
    (hfit : position + more.length ≤ job.rows) :
    Stores job (blocks ++ [(job.offset + position, more)])
      (cells ++ more) where
  apply_eq := by
    intro dst hdst
    rw [applyBlocks_append, h.apply_eq dst hdst, ← hposition]
    exact overwrite_overwrite_append dst job.offset cells more (by omega)
  inside := by
    intro block hblock
    rcases List.mem_append.mp hblock with hblock | hblock
    · exact h.inside block hblock
    · obtain rfl := List.mem_singleton.mp hblock
      simp only
      omega
  length_le := by
    rw [List.length_append]
    omega

/-- Stores that cover all rows hide the ones made before them. -/
theorem Stores.cover
    {job : ChunkJob} {blocks blocks' : List Block}
    {cells cells' : List RCell}
    (h : Stores job blocks cells)
    (h' : Stores job blocks' cells')
    (hfull : cells'.length = job.rows) :
    Stores job (blocks ++ blocks') cells' where
  apply_eq := by
    intro dst hdst
    have hlen := length_overwrite_of_le dst job.offset cells
      (by have := h.length_le; omega)
    rw [applyBlocks_append, h.apply_eq dst hdst,
      h'.apply_eq _ (by omega)]
    exact overwrite_overwrite_cover dst job.offset cells cells' (by omega)
      (by rw [hfull]; exact h.length_le)
  inside := by
    intro block hblock
    rcases List.mem_append.mp hblock with hblock | hblock
    · exact h.inside block hblock
    · exact h'.inside block hblock
  length_le := h'.length_le

end Invariant

section Materialize

variable {native : NativeReader} {job : ChunkJob} {r : ColumnReader}
variable {rows : List Row} {chunk : Nat}

/-- What a chunk job is given: the rows of its chunk, each one its column can
hold. -/
structure ChunkJob.Holds (job : ChunkJob) (rows : List Row) : Prop where
  supported : job.spec.Supported
  fits : ∀ row ∈ rows, row.Fits job.spec
  length_eq : rows.length = job.rows

theorem ChunkJob.Holds.fits_slice
    (hjob : job.Holds rows)
    (position want : Nat) :
    ∀ row ∈ (rows.drop position).take want, row.Fits job.spec :=
  fun row hrow => hjob.fits row (List.drop_subset _ _ (List.take_subset _ _ hrow))

theorem take_add_slice {α : Type}
    (xs : List α) (position want : Nat) :
    xs.take (position + want) =
      xs.take position ++ (xs.drop position).take want :=
  List.take_add

/-- The loop invariant after `position` rows. -/
structure ReadInvariant
    (job : ChunkJob) (rows : List Row) (flags : Flags) (position : Nat)
    (state : List Block × Flags) : Prop where
  stores : ∃ cells,
    nativeCells job.spec (rows.take position) = some cells ∧
      Stores job state.1 cells
  flags_eq :
    state.2 = flags.or (rowFlags job.spec (rowValues (rows.take position)))

theorem materializeStep_inv
    (hjob : job.Holds rows)
    (hr : r.Faithful job.spec rows)
    {flags : Flags} {position want : Nat}
    {state state' : List Block × Flags}
    (hbound : position + want ≤ job.rows)
    (hinv : ReadInvariant job rows flags position state)
    (h : materializeStep native job r state (position, want) = .ok state') :
    ReadInvariant job rows flags (position + want) state' := by
  obtain ⟨⟨cells, hcells, hstores⟩, hflags⟩ := hinv
  unfold materializeStep at h
  cases hread : r.readBatch position want with
  | none =>
      simp [hread] at h
  | some b =>
      simp only [hread] at h
      split_ifs at h with hcount
      simp only [bind_eq_ok_iff, pure_eq_ok, Except.ok.injEq] at h
      obtain ⟨⟨more, flags'⟩, hscatter, _, -, rfl⟩ := h
      obtain ⟨hmore, hflags'⟩ := scatterDenseColumn_ok hjob.supported
        (hjob.fits_slice position want)
        (hr position want b hread (by simpa using hcount)) hscatter
      have hlen := length_nativeCells hcells
      have hlen' := length_nativeCells hmore
      have hrows := hjob.length_eq
      simp only [List.length_take, List.length_drop] at hlen hlen'
      have hsnoc : Stores job
          (state.1 ++ [(job.offset + position, more)]) (cells ++ more) :=
        hstores.snoc (by omega) (by omega)
      refine ⟨⟨cells ++ more, ?_, hsnoc⟩, ?_⟩
      · rw [take_add_slice]
        exact nativeCells_append hcells hmore
      · rw [take_add_slice, rowValues_append, rowFlags_append,
          ← Flags.or_assoc, ← hflags]
        exact hflags'

/-- The materializing loop stores the elements of all rows, in place. -/
theorem materializeChunk_ok
    (hchunk : 0 < chunk)
    (hjob : job.Holds rows)
    (hr : r.Faithful job.spec rows)
    {flags flags' : Flags} {blocks : List Block}
    (h : materializeChunk native job r chunk flags = .ok (blocks, flags')) :
    ∃ cells, nativeCells job.spec rows = some cells ∧
      Stores job blocks cells ∧
      flags' = flags.or (rowFlags job.spec (rowValues rows)) := by
  have hinit : ReadInvariant job rows flags 0 ([], flags) := by
    refine ⟨⟨[], by simp [nativeCells, rowValues], Stores.nil job⟩, ?_⟩
    simp [rowValues]
  have hend := foldlM_slices_inv hchunk (materializeStep native job r)
    (ReadInvariant job rows flags) job.rows
    (fun position want s s' _ hbound hinv hstep =>
      materializeStep_inv hjob hr hbound hinv hstep)
    0 job.rows (by omega) hinit h
  obtain ⟨⟨cells, hcells, hstores⟩, hflags⟩ := hend
  have htake : rows.take (0 + job.rows) = rows := by
    rw [Nat.zero_add, ← hjob.length_eq, List.take_length]
  rw [htake] at hcells hflags
  exact ⟨cells, hcells, hstores, hflags⟩

end Materialize

section Dictionary

variable {job : ChunkJob} {r : ColumnReader} {rows : List Row}

/-- The bytes of the dictionary entry at an offset. -/
def entryBytes (data : Bytes) (offset : Nat) : Bytes :=
  ByteArrayRef.bytes (pageMemory data)
    ⟨some (offset + 4), entryLength data offset⟩

/-- An index batch that comes back whole holds, for its present rows in order,
indices of dictionary entries equal to the rows' values. -/
def ColumnReader.FaithfulIndices
    (r : ColumnReader) (c : ColumnSpec) (rows : List Row) : Prop :=
  ∀ page offsets,
    r.dictionary = some page →
    page.offsets = some offsets →
    ∀ position want b,
      r.readIndices position want = some b →
      b.count = want →
      LevelsOf b.levels b.count c ((rows.drop position).take want) ∧
        ∃ dense stale, b.indices = dense ++ stale ∧
          List.Forall₂
            (fun index v => index < page.count.toNat ∧
              ∃ offset, offsets[index]? = some offset ∧
                v = .byteArray (entryBytes page.data offset))
            dense (rowValues ((rows.drop position).take want)).reduceOption

theorem dictionaryEntry_ok
    {data : Bytes} {column : String} {i offset : Nat} {entry : Bytes}
    (h : dictionaryEntry data column i offset = .ok entry) :
    entry = entryBytes data offset ∧ ¬ TextFault entry := by
  unfold dictionaryEntry at h
  split_ifs at h
  simp only [bind_eq_ok_iff, pure_eq_ok, Except.ok.injEq] at h
  obtain ⟨_, hcheck, rfl⟩ := h
  refine ⟨rfl, (checkStringBytes_ok_iff ?_).mp hcheck⟩
  exact ⟨Int.natCast_nonneg _, fun _ => rfl⟩

theorem dictionaryEntries_ok
    {data : Bytes} {column : String} {i : Nat} {offsets : List Nat}
    {entries : List Bytes}
    (h : dictionaryEntries data column i offsets = .ok entries) :
    entries = offsets.map (entryBytes data) ∧
      ∀ entry ∈ entries, ¬ TextFault entry := by
  induction offsets generalizing i entries with
  | nil =>
      obtain rfl : [] = entries := by
        simpa [dictionaryEntries] using h
      simp
  | cons offset offsets ih =>
      simp only [dictionaryEntries, bind_eq_ok_iff, pure_eq_ok,
        Except.ok.injEq] at h
      obtain ⟨entry, hentry, tail, htail, rfl⟩ := h
      obtain ⟨rfl, hfault⟩ := dictionaryEntry_ok hentry
      obtain ⟨rfl, hfaults⟩ := ih htail
      refine ⟨rfl, ?_⟩
      intro entry hmem
      rcases List.mem_cons.mp hmem with rfl | hmem
      · exact hfault
      · exact hfaults entry hmem

/-- A dictionary that was built holds the entries of its page, all text. -/
theorem dictionaryStrings_ok
    {data : Bytes} {count : Nat} {offsets : List Nat} {column : String}
    {dict : List Bytes}
    (h : dictionaryStrings data count offsets column = .ok dict) :
    dict = (offsets.take count).map (entryBytes data) ∧
      ∀ entry ∈ dict, ¬ TextFault entry := by
  unfold dictionaryStrings at h
  split_ifs at h
  exact dictionaryEntries_ok h

/-- An index batch is a walk over the rows' own indices. -/
theorem scatterDictionaryStrings_eq
    {dict : List Bytes} {b : IndexBatch} {slice : List Row} {c : ColumnSpec}
    (hfits : ∀ row ∈ slice, row.Fits c)
    (hlevels : LevelsOf b.levels b.count c slice)
    {dense stale : List Nat}
    (hindices : b.indices = dense ++ stale)
    (hvalues : List.Forall₂
      (fun index v => ∃ entry, dict[index]? = some entry ∧
        v = PhysValue.byteArray entry)
      dense (rowValues slice).reduceOption) :
    ∃ slots : List (Option Nat),
      slots.reduceOption = dense ∧
        slots.map (Option.map fun index =>
          PhysValue.byteArray (dict.getD index [])) = rowValues slice ∧
        scatterDictionaryStrings dict b c.maxDef c.name =
          traverseRows .strNA (dictionaryElement dict c.name) 0 slots := by
  have hmap :
      dense.map (fun index => PhysValue.byteArray (dict.getD index [])) =
        (rowValues slice).reduceOption := by
    rw [← List.forall₂_eq_eq_eq, List.forall₂_map_left_iff]
    refine hvalues.imp ?_
    rintro index v ⟨entry, hentry, rfl⟩
    simp [List.getD, hentry]
  obtain ⟨slots, hslots, rfl⟩ := exists_slots _ dense _ hmap
  have hpresence :
      presenceFlags b.levels b.count c.maxDef = slots.map Option.isSome := by
    rw [hlevels.presenceFlags_eq hfits, ← hslots]
    simp
  refine ⟨slots, rfl, hslots, ?_⟩
  rw [scatterDictionaryStrings, hpresence, hindices,
    scatterLoop_eq_traverseRows]

/-- Indices of entries are always resolved. -/
theorem scatterDictionaryStrings_exists
    {dict : List Bytes} {b : IndexBatch} {slice : List Row} {c : ColumnSpec}
    (hfits : ∀ row ∈ slice, row.Fits c)
    (hlevels : LevelsOf b.levels b.count c slice)
    {dense stale : List Nat}
    (hindices : b.indices = dense ++ stale)
    (hvalues : List.Forall₂
      (fun index v => ∃ entry, dict[index]? = some entry ∧
        v = PhysValue.byteArray entry)
      dense (rowValues slice).reduceOption) :
    ∃ cells, scatterDictionaryStrings dict b c.maxDef c.name =
      .ok cells := by
  obtain ⟨slots, hdense, -, heq⟩ :=
    scatterDictionaryStrings_eq hfits hlevels hindices hvalues
  rw [heq]
  apply traverseRows_exists
  intro row index hindex
  have hmem : index ∈ dense := by
    rw [← hdense]
    exact List.reduceOption_mem_iff.mpr hindex
  obtain ⟨i, rfl⟩ := List.get_of_mem hmem
  obtain ⟨hlength, hget⟩ := List.forall₂_iff_get.mp hvalues
  obtain ⟨entry, hentry, -⟩ := hget i i.2 (hlength ▸ i.2)
  exact ⟨.str entry, by rw [dictionaryElement, hentry]⟩

/-- One index batch of text rows gives their elements. -/
theorem scatterDictionaryStrings_ok
    {dict : List Bytes} {b : IndexBatch} {slice : List Row}
    {cells : List RCell} {c : ColumnSpec}
    (hkind : c.kind = .text)
    (hfits : ∀ row ∈ slice, row.Fits c)
    (htype : c.type = .byteArray)
    (htext : ∀ entry ∈ dict, ¬ TextFault entry)
    (hlevels : LevelsOf b.levels b.count c slice)
    {dense stale : List Nat}
    (hindices : b.indices = dense ++ stale)
    (hvalues : List.Forall₂
      (fun index v => ∃ entry, dict[index]? = some entry ∧
        v = PhysValue.byteArray entry)
      dense (rowValues slice).reduceOption)
    (h : scatterDictionaryStrings dict b c.maxDef c.name = .ok cells) :
    nativeCells c slice = some cells := by
  obtain ⟨slots, -, hslots, heq⟩ :=
    scatterDictionaryStrings_eq hfits hlevels hindices hvalues
  rw [heq] at h
  have hwalk := traverseRows_ok
    (fun slot : Option Nat => nativeCell c
      (slot.map fun index => PhysValue.byteArray (dict.getD index [])))
    (by simp [nativeCell, naCell, hkind, htype])
    (fun row index cell _ hcell => by
      unfold dictionaryElement at hcell
      cases hentry : dict[index]? with
      | none =>
          simp [hentry] at hcell
      | some entry =>
          simp only [hentry, Except.ok.injEq] at hcell
          have hfault := htext entry (List.mem_of_getElem? hentry)
          simp [nativeCell, valueCell, hkind, List.getD, hentry, hfault,
            hcell]) h
  rw [nativeCells, ← hslots, List.mapM_map]
  exact hwalk

/-- What an attempt through the dictionary leaves: the elements of a prefix of
the rows, and of all rows when it completes. -/
structure Attempt
    (job : ChunkJob) (rows : List Row) (result : ReadPath × List Block) :
    Prop where
  stores : ∃ cells, Stores job result.2 cells
  complete : result.1 = .dictionary →
    ∃ cells, nativeCells job.spec rows = some cells ∧
      Stores job result.2 cells

theorem dictionaryLoop_ok
    {dict : List Bytes} {chunk : Nat} {page : DictionaryPage}
    {offsets : List Nat}
    (hchunk : 0 < chunk)
    (hjob : job.Holds rows)
    (hkind : job.spec.kind = .text)
    (htype : job.spec.type = .byteArray)
    (hpage : r.dictionary = some page)
    (hoffsets : page.offsets = some offsets)
    (hr : r.FaithfulIndices job.spec rows)
    (hdict : dict = (offsets.take page.count.toNat).map
      (entryBytes page.data))
    (htext : ∀ entry ∈ dict, ¬ TextFault entry)
    (start remaining : Nat) :
    start + remaining = job.rows →
    ∀ {blocks : List Block} {cells : List RCell}
      {result : ReadPath × List Block},
      nativeCells job.spec (rows.take start) = some cells →
      Stores job blocks cells →
      dictionaryLoop job r dict (slices chunk start remaining) blocks =
        .ok result →
      Attempt job rows result := by
  refine slices_induction hchunk
    (motive := fun start remaining =>
      start + remaining = job.rows →
        ∀ {blocks : List Block} {cells : List RCell}
          {result : ReadPath × List Block},
          nativeCells job.spec (rows.take start) = some cells →
          Stores job blocks cells →
          dictionaryLoop job r dict (slices chunk start remaining) blocks =
            .ok result →
          Attempt job rows result) ?_ ?_ start remaining
  · intro start hend blocks cells result hcells hstores h
    obtain rfl : (ReadPath.dictionary, blocks) = result := by
      simpa [dictionaryLoop] using h
    have htake : rows.take start = rows := by
      rw [List.take_of_length_le]
      rw [hjob.length_eq]
      omega
    rw [htake] at hcells
    exact ⟨⟨cells, hstores⟩, fun _ => ⟨cells, hcells, hstores⟩⟩
  · intro start remaining hpos ih hend blocks cells result hcells hstores h
    rw [slices_pos hchunk hpos, dictionaryLoop] at h
    have hgiveUp (hresult : (ReadPath.fallback, blocks) = result) :
        Attempt job rows result := by
      subst hresult
      exact ⟨⟨cells, hstores⟩, fun hpath => by cases hpath⟩
    cases hread : r.readIndices start (min remaining chunk) with
    | none =>
        simp only [hread, Except.ok.injEq] at h
        exact hgiveUp h
    | some b =>
        simp only [hread] at h
        split_ifs at h with hshort
        · exact hgiveUp (by simpa using h)
        · rw [not_or, not_not] at hshort
          simp only [bind_eq_ok_iff] at h
          obtain ⟨more, hmore, _, -, hrest⟩ := h
          obtain ⟨hlevels, dense, stale, hindices, hvalues⟩ :=
            hr page offsets hpage hoffsets start _ b hread hshort.2
          have hslice := scatterDictionaryStrings_ok hkind
            (hjob.fits_slice start _) htype htext hlevels hindices
            (hvalues.imp ?_) hmore
          · have hlen := length_nativeCells hcells
            have hlen' := length_nativeCells hslice
            have hrows := hjob.length_eq
            simp only [List.length_take, List.length_drop] at hlen hlen'
            refine ih (by omega) ?_ (hstores.snoc (by omega) (by omega))
              hrest
            rw [take_add_slice]
            exact nativeCells_append hcells hslice
          · rintro index v ⟨hlt, offset, hoffset, rfl⟩
            refine ⟨entryBytes page.data offset, ?_, rfl⟩
            rw [hdict, List.getElem?_map,
              List.getElem?_take_of_lt hlt, hoffset]
            rfl

/-- The dictionary an attempt starts from, when it gets that far. -/
def loadedDictionary
    (native : NativeReader) (job : ChunkJob) (r : ColumnReader) :
    Option (DictionaryPage × List Nat) :=
  match native.chunkMetadata job.rowGroup job.fileColumn with
  | none => none
  | some info =>
      if info.hasDictionaryPage ∧ r.setPreserve ∧ r.loadPage then
        match r.dictionary with
        | none => none
        | some page =>
            match page.offsets with
            | none => none
            | some offsets =>
                if page.count < 0 then none else some (page, offsets)
      else
        none

/-- An attempt is given up before it stores anything, or converts the whole
dictionary and runs the index loop. -/
theorem collectDictionaryChunk_cases
    (native : NativeReader) (job : ChunkJob) (r : ColumnReader)
    (chunk : Nat) :
    (loadedDictionary native job r = none ∧
        ∃ path, path ≠ .dictionary ∧
          collectDictionaryChunk native job r chunk = .ok (path, [])) ∨
      ∃ page offsets,
        loadedDictionary native job r = some (page, offsets) ∧
          collectDictionaryChunk native job r chunk = (do
            let dict ← dictionaryStrings page.data page.count.toNat offsets
              job.spec.name
            dictionaryLoop job r dict (slices chunk 0 job.rows) []) := by
  unfold collectDictionaryChunk loadedDictionary
  cases native.chunkMetadata job.rowGroup job.fileColumn with
  | none =>
      exact Or.inl ⟨rfl, .declined, by decide, rfl⟩
  | some info =>
      cases hpage : info.hasDictionaryPage
      · exact Or.inl ⟨by simp [hpage], .declined, by decide,
          by simp [hpage]⟩
      cases hpreserve : r.setPreserve
      · exact Or.inl ⟨by simp, .fallback, by decide, by simp [hpage]⟩
      cases hload : r.loadPage
      · exact Or.inl ⟨by simp, .fallback, by decide, by simp [hpage]⟩
      cases r.dictionary with
      | none =>
          exact Or.inl ⟨by simp, .fallback, by decide, by simp [hpage]⟩
      | some page =>
          cases hoffsets : page.offsets with
          | none =>
              exact Or.inl ⟨by simp [hoffsets], .fallback, by decide,
                by simp [hpage, hoffsets]⟩
          | some offsets =>
              by_cases hcount : page.count < 0
              · exact Or.inl ⟨by simp [hoffsets, hcount], .fallback,
                  by decide, by simp [hpage, hoffsets, hcount]⟩
              · exact Or.inr ⟨page, offsets, by simp [hpage, hoffsets, hcount],
                  by simp [hpage, hoffsets, hcount]⟩

theorem loadedDictionary_eq_some
    {native : NativeReader} {page : DictionaryPage} {offsets : List Nat}
    (h : loadedDictionary native job r = some (page, offsets)) :
    r.dictionary = some page ∧ page.offsets = some offsets := by
  unfold loadedDictionary at h
  split at h
  · cases h
  · split_ifs at h
    split at h
    · cases h
    · rename_i found hfound
      split at h
      · cases h
      · rename_i found' hfound'
        split_ifs at h
        cases h
        exact ⟨hfound, hfound'⟩

theorem collectDictionaryChunk_ok
    {native : NativeReader} {chunk : Nat}
    {result : ReadPath × List Block}
    (hchunk : 0 < chunk)
    (hjob : job.Holds rows)
    (hkind : job.spec.kind = .text)
    (htype : job.spec.type = .byteArray)
    (hr : r.FaithfulIndices job.spec rows)
    (h : collectDictionaryChunk native job r chunk = .ok result) :
    Attempt job rows result := by
  rcases collectDictionaryChunk_cases native job r chunk with
    ⟨-, path, hpath, heq⟩ | ⟨page, offsets, hloaded, heq⟩
  · rw [heq] at h
    cases h
    exact ⟨⟨[], Stores.nil job⟩, fun h => absurd h hpath⟩
  · simp only [heq, bind_eq_ok_iff] at h
    obtain ⟨dict, hdict, hloop⟩ := h
    obtain ⟨hdictionary, hoffsets⟩ := loadedDictionary_eq_some hloaded
    obtain ⟨hentries, htext⟩ := dictionaryStrings_ok hdict
    exact dictionaryLoop_ok hchunk hjob hkind htype hdictionary
      hoffsets hr hentries htext 0 job.rows (by omega)
      (by simp [nativeCells, rowValues]) (Stores.nil job) hloop

/-- Text rows call for no warning. -/
theorem rowFlags_text
    (hjob : job.Holds rows)
    (htype : job.spec.type = .byteArray) :
    rowFlags job.spec (rowValues rows) = Flags.none := by
  have htyped : ∀ v, some v ∈ rowValues rows → v.type = job.spec.type := by
    intro v hv
    obtain ⟨row, hrow, hvalue⟩ := List.mem_map.mp hv
    cases row with
    | null level =>
        cases hvalue
    | present value =>
        obtain rfl : value = v := Option.some.inj hvalue
        exact (hjob.fits _ hrow).1
  have hsentinel := rowFlags_sentinel_of_type htyped
    (Or.inl (by simp [htype]))
  have hcoerced := rowFlags_coerced_of_type htyped
    (Or.inl (by simp [htype]))
  generalize rowFlags job.spec (rowValues rows) = found
    at hsentinel hcoerced
  cases found
  simp_all [Flags.none]

/-- Whichever way a chunk was read, its rows hold their elements. -/
theorem collectMainChunk_ok
    {native : NativeReader} {chunk : Nat} {flags flags' : Flags}
    {blocks : List Block}
    (hchunk : 0 < chunk)
    (hjob : job.Holds rows)
    (hfaithful : ∀ attempt r,
      native.getColumn attempt job.rowGroup job.fileColumn = .ok r →
      r.Faithful job.spec rows ∧ r.FaithfulIndices job.spec rows)
    (h : collectMainChunk native job chunk flags = .ok (blocks, flags')) :
    ∃ cells, nativeCells job.spec rows = some cells ∧
      Stores job blocks cells ∧
      flags' = flags.or (rowFlags job.spec (rowValues rows)) := by
  have hopen {attempt : Nat} {r : ColumnReader}
      (hcol : openColumn native job attempt = .ok r) :
      r.Faithful job.spec rows ∧ r.FaithfulIndices job.spec rows := by
    unfold openColumn at hcol
    split at hcol
    · rename_i r' hget
      cases hcol
      exact hfaithful attempt r hget
    · cases hcol
  unfold collectMainChunk at h
  simp only [bind_eq_ok_iff] at h
  obtain ⟨r, hcol, h⟩ := h
  split_ifs at h with htext
  · simp only [bind_eq_ok_iff] at h
    obtain ⟨⟨path, first⟩, hattempt, h⟩ := h
    have hresult := collectDictionaryChunk_ok hchunk hjob htext.1 htext.2
      (hopen hcol).2 hattempt
    split_ifs at h with hpath
    · simp only [pure_eq_ok, Except.ok.injEq, Prod.mk.injEq] at h
      obtain ⟨rfl, rfl⟩ := h
      obtain ⟨cells, hcells, hstores⟩ := hresult.complete hpath
      exact ⟨cells, hcells, hstores,
        by rw [rowFlags_text hjob htext.2, Flags.or_none]⟩
    · simp only [bind_eq_ok_iff, pure_eq_ok, Except.ok.injEq,
        Prod.mk.injEq] at h
      obtain ⟨r', hcol', ⟨rest, flags''⟩, hrest, rfl, rfl⟩ := h
      obtain ⟨cells, hcells, hstores, hflags⟩ :=
        materializeChunk_ok hchunk hjob (hopen hcol').1 hrest
      obtain ⟨first', hfirst⟩ := hresult.stores
      have hlen := length_nativeCells hcells
      exact ⟨cells, hcells,
        hfirst.cover hstores (by rw [hlen, hjob.length_eq]), hflags⟩
  · exact materializeChunk_ok hchunk hjob (hopen hcol).1 h

end Dictionary

section RowReader

/-- A batch of one row. -/
def rowBatch (c : ColumnSpec) (row : Row) : DenseBatch where
  count := 1
  levels := if c.maxDef = 0 then none else some [row.level c.maxDef]
  values := row.value.toList.map
    (PhysValue.map fun bytes => ⟨some 0, bytes.length⟩)
  memory :=
    match row with
    | .present (.byteArray bytes) => pageMemory bytes
    | _ => pageMemory []
  levels_room := by
    intro list hlist
    split_ifs at hlist
    cases hlist
    rfl

/-- A column reader that hands out one row at a time and nothing wider. -/
def rowReader (c : ColumnSpec) (rows : List Row) : ColumnReader where
  readBatch position want :=
    if want = 1 then (rows[position]?).map (rowBatch c) else none
  setPreserve := false
  loadPage := false
  dictionary := none
  readIndices := fun _ _ => none

theorem bytes_pageMemory
    (bytes : Bytes) :
    ByteArrayRef.bytes (pageMemory bytes) ⟨some 0, bytes.length⟩ = bytes := by
  apply List.ext_getElem?
  intro i
  by_cases hi : i < bytes.length
  · simp [ByteArrayRef.bytes, pageMemory, hi]
  · simp [ByteArrayRef.bytes, hi]

theorem rowBatch_delivers
    (c : ColumnSpec) (row : Row) :
    (rowBatch c row).Delivers c [row] where
  levels_eq := by
    refine ⟨rfl, ?_⟩
    by_cases hzero : c.maxDef = 0
    · simp [rowBatch, hzero]
    · simp [rowBatch, hzero]
  values_eq := by
    refine ⟨(rowBatch c row).values, [], by simp, ?_, ?_⟩
    · cases row with
      | null level =>
          rfl
      | present value =>
          cases value <;>
            simp [rowBatch, rowValues, Row.value, PhysValue.map,
              List.reduceOption, derefValue, bytes_pageMemory]
    · intro v hv ref href
      subst href
      obtain ⟨value, -, hvalue⟩ := List.mem_map.mp hv
      cases value <;> cases hvalue
      exact ⟨by simp, fun _ => rfl⟩

theorem rowReader_faithful
    (c : ColumnSpec) (rows : List Row) :
    (rowReader c rows).Faithful c rows := by
  intro position want b hread _
  simp only [rowReader] at hread
  split_ifs at hread with hwant
  obtain ⟨row, hrow, rfl⟩ := Option.map_eq_some_iff.mp hread
  have hslice : (rows.drop position).take want = [row] := by
    rw [hwant, List.take_one, List.head?_drop, hrow]
    rfl
  rw [hslice]
  exact rowBatch_delivers c row

end RowReader

section TextRows

/-- The string of a text row. -/
def textCell : Row → RCell
  | .null _ => .strNA
  | .present (.byteArray bytes) => .str bytes
  | .present _ => .unset

/-- The R elements of text rows are their strings. -/
theorem nativeCells_text
    {c : ColumnSpec} {rows : List Row} {cells : List RCell}
    (hkind : c.kind = .text)
    (htype : c.type = .byteArray)
    (hfits : ∀ row ∈ rows, row.Fits c)
    (h : nativeCells c rows = some cells) :
    cells = rows.map textCell := by
  induction rows generalizing cells with
  | nil =>
      simpa [nativeCells, rowValues, eq_comm] using h
  | cons row rows ih =>
      simp only [nativeCells, rowValues, List.map_cons, List.mapM_cons,
        Option.bind_eq_bind, Option.bind_eq_some_iff, Option.pure_def,
        Option.some.injEq] at h
      obtain ⟨cell, hcell, tail, htail, rfl⟩ := h
      have hrest := ih (fun row hrow => hfits row (by simp [hrow])) htail
      rw [List.map_cons, hrest]
      congr 1
      have hrow := hfits row (by simp)
      cases row with
      | null level =>
          simpa [Row.value, nativeCell, naCell, hkind, htype, textCell,
            eq_comm] using hcell
      | present value =>
          have hvalue : value.type = .byteArray := by
            rw [hrow.1, htype]
          cases value <;> cases hvalue
          simp only [Row.value, nativeCell, valueCell, hkind] at hcell
          split_ifs at hcell
          simpa [textCell, eq_comm] using hcell

/-- A text chunk that is read, through its dictionary, after a declined or an
abandoned attempt, or without one, leaves the strings of its rows in its own
rows of the destination and nothing else anywhere. Any materializing read of
the chunk leaves the same destination. -/
theorem collectMainChunk_text_rows
    (native : NativeReader) (job : ChunkJob) (rows : List Row)
    (chunk : Nat) (dst : List RCell)
    (hchunk : 0 < chunk)
    (hkind : job.spec.kind = .text)
    (htype : job.spec.type = .byteArray)
    (hjob : job.Holds rows)
    (hfaithful : ∀ attempt r,
      native.getColumn attempt job.rowGroup job.fileColumn = .ok r →
      r.Faithful job.spec rows ∧ r.FaithfulIndices job.spec rows)
    (hdst : job.offset + job.rows ≤ dst.length)
    (flags flags' : Flags) (blocks : List Block)
    (h : collectMainChunk native job chunk flags = .ok (blocks, flags')) :
    (∀ i row, rows[i]? = some row →
      (applyBlocks dst blocks)[job.offset + i]? = some (textCell row)) ∧
    (∀ j, j < job.offset ∨ job.offset + job.rows ≤ j →
      (applyBlocks dst blocks)[j]? = dst[j]?) ∧
    (∀ attempt r chunk' blocks' flags₁ flags₂,
      native.getColumn attempt job.rowGroup job.fileColumn = .ok r →
      0 < chunk' →
      materializeChunk native job r chunk' flags₁ = .ok (blocks', flags₂) →
      applyBlocks dst blocks' = applyBlocks dst blocks) := by
  obtain ⟨cells, hcells, hstores, -⟩ :=
    collectMainChunk_ok hchunk hjob hfaithful h
  have htext := nativeCells_text hkind htype hjob.fits hcells
  have hlen : cells.length = job.rows := by
    rw [length_nativeCells hcells, hjob.length_eq]
  rw [hstores.apply_eq dst hdst]
  refine ⟨?_, ?_, ?_⟩
  · intro i row hrow
    have hi : i < cells.length := by
      rw [hlen, ← hjob.length_eq]
      exact (List.getElem?_eq_some_iff.mp hrow).1
    rw [getElem?_overwrite_inside dst job.offset cells i (by omega) hi,
      htext, List.getElem?_map, hrow]
    rfl
  · intro j hj
    exact getElem?_overwrite_outside dst job.offset cells j (by omega)
      (by omega)
  · intro attempt r chunk' blocks' flags₁ flags₂ hget hchunk' hread
    obtain ⟨cells', hcells', hstores', -⟩ :=
      materializeChunk_ok hchunk' hjob (hfaithful attempt r hget).1 hread
    rw [hstores'.apply_eq dst hdst]
    rw [hcells] at hcells'
    rw [Option.some.inj hcells']

/-- A nullable text column. -/
def exampleTextColumn : ColumnSpec :=
  ⟨"label", .byteArray, .text, 0, 1, .double, false⟩

/-- Two rows, the letter a and a missing value. -/
def exampleTextRows : List Row :=
  [.present (.byteArray [97]), .null 0]

/-- A reader whose dictionary holds the letter, and whose index batches fail
from the second row on. -/
def abandoningReader : ColumnReader :=
  { rowReader exampleTextColumn exampleTextRows with
    setPreserve := true
    loadPage := true
    dictionary := some ⟨[1, 0, 0, 0, 97], 1, some [0]⟩
    readIndices := fun position want =>
      if position = 0 ∧ want = 1 then some ⟨1, some [1], [0], by simp⟩ else
        none }

def abandoningNative : NativeReader :=
  ⟨fun _ _ _ => .ok abandoningReader,
    fun _ _ => some ⟨true, "RLE_DICTIONARY, PLAIN"⟩⟩

def exampleTextJob : ChunkJob :=
  ⟨0, 0, exampleTextColumn, .strsxp, 1, 2⟩

theorem abandoningReader_faithfulIndices :
    abandoningReader.FaithfulIndices exampleTextColumn exampleTextRows := by
  intro page offsets hpage hoffsets position want b hread _
  simp only [abandoningReader, Option.some.injEq] at hpage
  subst hpage
  obtain rfl : [0] = offsets := Option.some.inj hoffsets
  simp only [abandoningReader] at hread
  split_ifs at hread with hfirst
  obtain ⟨rfl, rfl⟩ := hfirst
  cases hread
  refine ⟨⟨rfl, ?_⟩, [0], [], rfl, ?_⟩
  · exact ⟨[1], rfl, rfl⟩
  · refine List.Forall₂.cons ⟨by decide, 0, rfl, ?_⟩ .nil
    decide +kernel

/-- The attempt stores the first row, is given up, and the chunk is read again
over it. -/
theorem collectMainChunk_text_rows_abandoned :
    collectMainChunk abandoningNative exampleTextJob 1 Flags.none =
        .ok ([(1, [.str [97]]), (1, [.str [97]]), (2, [.strNA])],
          Flags.none) ∧
      (applyBlocks (List.replicate 4 (.str []))
        [(1, [.str [97]]), (1, [.str [97]]), (2, [.strNA])])[1]? =
          some (.str [97]) := by
  have hrun :
      collectMainChunk abandoningNative exampleTextJob 1 Flags.none =
        .ok ([(1, [.str [97]]), (1, [.str [97]]), (2, [.strNA])],
          Flags.none) := by
    decide +kernel
  refine ⟨hrun, ?_⟩
  refine (collectMainChunk_text_rows abandoningNative exampleTextJob
    exampleTextRows 1 (List.replicate 4 (.str [])) (by decide) rfl rfl
    ⟨by simp [ColumnSpec.Supported, exampleTextJob, exampleTextColumn], ?_,
      rfl⟩ ?_ (by decide) Flags.none Flags.none _ hrun).1 0
        (.present (.byteArray [97])) rfl
  · intro row hrow
    simp only [exampleTextRows, List.mem_cons, List.not_mem_nil,
      or_false] at hrow
    rcases hrow with rfl | rfl
    · exact ⟨rfl, fun bytes h => by cases h⟩
    · exact Nat.zero_lt_one
  · intro attempt r hget
    obtain rfl : abandoningReader = r := Except.ok.inj hget
    refine ⟨?_, abandoningReader_faithfulIndices⟩
    exact rowReader_faithful exampleTextColumn exampleTextRows

end TextRows

end Read
end QioParquet
