import QioParquet.Page.TextChunks
import Mathlib.Tactic

/-!
# Loading a chunk that was stored

A column reader that walks over the pages of a stored chunk gets all its rows if every page
keeps within the reader's limits, and fewer than all if one does not: the walk ends at the
first page that is refused. This holds for the strings of the rows and, in a chunk with a
dictionary, for their indices.
-/

namespace QioParquet
namespace Page

open Lib Read Encoding

section Decoding

variable (src : PageSource) (stale : Nat → Nat)
variable {entries strings : List Bytes} {indices : List Nat}

/-- An index of a dictionary stands for an entry. -/
def IndexOf (entries : List Bytes) (index : Nat) (value : Bytes) : Prop :=
  entries[index]? = some value

theorem mapM_of_forall₂
    {α β : Type} {f : α → Option β} {xs : List α} {ys : List β}
    (h : List.Forall₂ (fun x y => f x = some y) xs ys) :
    xs.mapM f = some ys := by
  induction h with
  | nil =>
      rfl
  | cons hhead _ ih =>
      rw [List.mapM_cons, hhead, ih]
      rfl

theorem decodeStrings_plain
    (dictionary : Option DictionaryPage)
    (hshort : ∀ string ∈ strings, string.length < 2 ^ 31) :
    DecodesAs Eq [] [] (decodeStrings src stale dictionary) .plain strings := by
  rintro bytes rfl
  refine ⟨strings, ?_, List.forall₂_same.mpr fun _ _ => rfl⟩
  rw [decodeStrings]
  exact decodePlain_prefixed hshort

variable (hshort : ∀ entry ∈ entries, entry.length < 2 ^ 31)
variable (hentries : entries.length < 2 ^ 31) (hstrings : strings.length < 2 ^ 31)

include hentries hstrings

theorem decodeIndices_dictionary :
    DecodesAs (IndexOf entries) entries indices
      (decodeIndices src stale (some (dictionaryOf entries))) .rleDictionary strings := by
  rintro bytes ⟨hindexes, rfl⟩
  refine ⟨indices, ?_, hindexes⟩
  exact decodeIndexStream_encoded src.kernels stale hindexes hentries hstrings

include hshort

theorem decodeStrings_dictionary :
    DecodesAs Eq entries indices
      (decodeStrings src stale (some (dictionaryOf entries))) .rleDictionary strings := by
  rintro bytes ⟨hindexes, rfl⟩
  refine ⟨strings, ?_, List.forall₂_same.mpr fun _ _ => rfl⟩
  rw [decodeStrings, decodeIndexStream_encoded src.kernels stale hindexes hentries hstrings]
  refine mapM_of_forall₂ (hindexes.imp fun index value hvalue => ?_)
  rw [dictionaryValue_dictionaryOf hshort, hvalue]

end Decoding

section Pages

variable {β : Type} {P : Nat × Option β → TextRow → Prop} {fmt : PageFormat}
variable {load : Bytes → Option (List (Nat × Option β) × Bytes)} {caps : StoredPage → Prop}

/-- A page of some rows, wherever it stands: it is loaded within the limits, and refused
over them. -/
structure LoadsAs (load : Bytes → Option (List (Nat × Option β) × Bytes))
    (P : Nat × Option β → TextRow → Prop) (fmt : PageFormat) (caps : StoredPage → Prop)
    (page : StoredPage) (rows : List TextRow) : Prop where
  filled : rows ≠ []
  within : caps page → ∀ rest, 8 ≤ rest.length →
    ∃ slots, load (page.bytes fmt ++ rest) = some (slots, rest) ∧ List.Forall₂ P slots rows
  beyond : ¬ caps page → ∀ rest, 8 ≤ rest.length → load (page.bytes fmt ++ rest) = none

/-- What is loaded of some rows: all of them, or not so many. -/
structure Loaded (P : Nat × Option β → TextRow → Prop)
    (pages : List (Option (List (Nat × Option β)))) (rows : List TextRow) (all : Prop) :
    Prop where
  whole : all → hasGap pages = false ∧ List.Forall₂ P (loadedRows pages) rows
  short : ¬ all → (loadedRows pages).length < rows.length

theorem loaded_none
    {rows : List TextRow} {all : Prop}
    (hrows : rows ≠ []) (hnot : ¬ all) :
    Loaded P ([none] : List (Option (List (Nat × Option β)))) rows all :=
  ⟨fun hall => absurd hall hnot, fun _ => List.length_pos_of_ne_nil hrows⟩

/-- The walk over the data pages of a chunk. -/
theorem loaded_loadPages
    {pages : List StoredPage} {parts : List (List TextRow)}
    (hpages : List.Forall₂ (LoadsAs load P fmt caps) pages parts)
    {turns : Nat} (hturns : parts.flatten.length ≤ turns)
    {rest : Bytes} (hrest : 8 ≤ rest.length) :
    Loaded P (loadPages load turns parts.flatten.length (pages.flatMap (·.bytes fmt) ++ rest))
      parts.flatten (∀ page ∈ pages, caps page) := by
  induction hpages generalizing turns with
  | nil =>
      have hnone : loadPages load turns 0 rest = [] := by
        cases turns <;> rfl
      rw [List.flatten_nil, List.flatMap_nil, List.nil_append, List.length_nil, hnone]
      exact ⟨fun _ => ⟨rfl, .nil⟩, fun hnot => absurd (by simp) hnot⟩
  | @cons page part pages parts hpage hpages ih =>
      have hpart := List.length_pos_of_ne_nil hpage.filled
      rw [List.flatten_cons, List.length_append] at hturns ⊢
      obtain ⟨turns, rfl⟩ : ∃ n, turns = n + 1 := ⟨turns - 1, by omega⟩
      have hbehind : 8 ≤ (pages.flatMap (·.bytes fmt) ++ rest).length := by
        rw [List.length_append]
        omega
      rw [List.flatMap_cons, List.append_assoc, loadPages, if_neg (by omega)]
      by_cases hcaps : caps page
      · obtain ⟨slots, hload, hslots⟩ := hpage.within hcaps _ hbehind
        have hlength := hslots.length_eq
        obtain ⟨hwhole, hshort⟩ := ih (by omega : parts.flatten.length ≤ turns)
        rw [hload]
        simp only [hlength, Nat.add_sub_cancel_left]
        refine ⟨fun hall => ?_, fun hnot => ?_⟩
        · obtain ⟨hgap, hrows⟩ := hwhole fun later hlater => hall later (.tail _ hlater)
          refine ⟨?_, List.rel_append hslots hrows⟩
          rw [hasGap, List.any_cons, Option.isNone_some, Bool.false_or]
          exact hgap
        · have hless := hshort fun hall => hnot (List.forall_mem_cons.mpr ⟨hcaps, hall⟩)
          rw [loadedRows, List.length_append, List.length_append]
          omega
      · rw [hpage.beyond hcaps _ hbehind]
        refine loaded_none ?_ fun hall => hcaps (hall page List.mem_cons_self)
        exact List.append_ne_nil_of_left_ne_nil hpage.filled _

end Pages

section Chunks

variable {src : PageSource} {nullable : Bool} {rows : List TextRow} {behind : Bytes}

/-- A data page, decoded in a way that suits its values. -/
theorem PageHolds.loadsAs
    {β : Type} {R : β → Bytes → Prop} {entries : List Bytes} {indices : List Nat}
    {page : StoredPage} {chunkValues : Nat}
    {decode : TextEncoding → Nat → Bytes → Option (List β)}
    (h : PageHolds src.format nullable entries indices page rows)
    (hfmt : src.format.ReadsBack) (hsized : page.Sized)
    (hchunk : rows.length ≤ chunkValues)
    (hdecode : DecodesAs R entries indices decode page.encoding rows.reduceOption) :
    LoadsAs (loadDataPage src (flatColumn nullable) chunkValues decode) (LoadedAs R nullable)
      src.format (StoredPage.WithinCaps src) page rows := by
  have hcount : rows.length < 2 ^ 31 := by
    rw [← h.count]
    exact hsized.count
  refine ⟨h.filled, fun hcaps rest hrest => ?_, fun hcaps rest hrest => ?_⟩
  · exact h.load hfmt hcount hchunk hdecode hrest hcaps
  · exact h.refuse hfmt hsized hrest hcaps

/-- The bytes of a chunk in the file. -/
def TextChunk.bytes (fmt : PageFormat) (chunk : TextChunk) : Bytes :=
  chunk.pages.flatMap (·.bytes fmt)

/-- A stored chunk, as a column reader finds it. -/
def TextChunk.source (fmt : PageFormat) (chunk : TextChunk) (behind : Bytes) : ChunkSource :=
  ⟨chunk.bytes fmt ++ behind, chunk.hasDictionaryPage, chunk.numValues⟩

/-- Every page of the chunk keeps within the limits. -/
def TextChunk.WithinCaps (src : PageSource) (chunk : TextChunk) : Prop :=
  ∀ page ∈ chunk.pages, page.WithinCaps src

variable {chunk : TextChunk}

/-- The search for a dictionary in a chunk of PLAIN pages. -/
theorem PlainPages.probe
    {pages : List StoredPage}
    (h : PlainPages src.format nullable pages rows) (hrows : rows ≠ [])
    (hfmt : src.format.ReadsBack) (hbehind : 8 ≤ behind.length) :
    loadDictionaryPage src false (pages.flatMap (·.bytes src.format) ++ behind) =
        some (none, pages.flatMap (·.bytes src.format) ++ behind) ∨
      loadDictionaryPage src false (pages.flatMap (·.bytes src.format) ++ behind) = none ∧
        ¬ ∀ page ∈ pages, page.WithinCaps src := by
  obtain ⟨parts, hparts, rfl⟩ := h
  cases hparts with
  | nil =>
      exact absurd rfl hrows
  | @cons page part pages parts hpage hpages =>
      have hrest : 8 ≤ (pages.flatMap (·.bytes src.format) ++ behind).length := by
        rw [List.length_append]
        omega
      rw [List.flatMap_cons, List.append_assoc, hpage.holds.probe hfmt hrest]
      split_ifs with hfound
      · exact .inl rfl
      · exact .inr ⟨rfl, fun hall => hfound (hall page List.mem_cons_self).header⟩

/-- A chunk of PLAIN pages. -/
theorem PlainPages.loaded
    {pages : List StoredPage} (stale : Nat → Nat)
    (h : PlainPages src.format nullable pages rows)
    (hfmt : src.format.ReadsBack) (hsized : ∀ page ∈ pages, page.Sized)
    (hshort : ∀ string ∈ rows.reduceOption, string.length < 2 ^ 31)
    (hbehind : 8 ≤ behind.length) :
    Loaded (LoadedAs Eq nullable)
      (chunkPages src (flatColumn nullable)
        ⟨pages.flatMap (·.bytes src.format) ++ behind, false, rows.length⟩
        (decodeStrings src stale)) rows (∀ page ∈ pages, page.WithinCaps src) := by
  rw [chunkPages]
  simp only
  by_cases hnone : rows.length = 0
  · obtain rfl := List.eq_nil_of_length_eq_zero hnone
    obtain ⟨parts, hparts, hflat⟩ := h
    have hempty : pages = [] := by
      cases hparts with
      | nil =>
          rfl
      | cons hpage _ =>
          exact absurd (List.append_eq_nil_iff.mp hflat).1 hpage.holds.filled
    rw [if_pos hnone, hempty]
    exact ⟨fun _ => ⟨rfl, .nil⟩, fun hnot => absurd (by simp) hnot⟩
  · rw [if_neg hnone]
    have hrows : rows ≠ [] := fun hnil => hnone (by rw [hnil]; rfl)
    rcases h.probe hrows hfmt hbehind with hprobe | ⟨hprobe, hnot⟩
    · rw [hprobe]
      simp only
      obtain ⟨parts, hparts, rfl⟩ := h
      refine loaded_loadPages ?_ le_rfl hbehind
      refine List.forall₂_iff_get.mpr ⟨hparts.length_eq, fun i hpage hpart => ?_⟩
      have hplain := (List.forall₂_iff_get.mp hparts).2 i hpage hpart
      have hmem : parts.get ⟨i, hpart⟩ ∈ parts := List.get_mem _ _
      refine hplain.holds.loadsAs hfmt (hsized _ (List.get_mem _ _)) ?_ ?_
      · exact (List.sublist_flatten_of_mem hmem).length_le
      · rw [hplain.encoding]
        refine decodeStrings_plain src stale none fun string hstring => ?_
        refine hshort string (List.reduceOption_mem_iff.mpr ?_)
        exact List.mem_flatten_of_mem hmem (List.reduceOption_mem_iff.mp hstring)
    · rw [hprobe]
      exact loaded_none hrows hnot

/-- A chunk with a dictionary, read one way or the other. -/
theorem loaded_dictionary
    {β : Type} {R : β → Bytes → Prop} {first second : StoredPage} {entries : List Bytes}
    {indices : List Nat}
    {decode : Option DictionaryPage → TextEncoding → Nat → Bytes → Option (List β)}
    (hfirst : DictionaryHolds src.format first entries)
    (hsecond : PageHolds src.format nullable entries indices second rows)
    (hfmt : src.format.ReadsBack) (hsized : ∀ page ∈ [first, second], page.Sized)
    (hshort : ∀ entry ∈ entries, entry.length < 2 ^ 31)
    (hdecode : DecodesAs R entries indices (decode (some (dictionaryOf entries)))
      second.encoding rows.reduceOption)
    (hbehind : 8 ≤ behind.length) :
    Loaded (LoadedAs R nullable)
      (chunkPages src (flatColumn nullable)
        ⟨[first, second].flatMap (·.bytes src.format) ++ behind, true, rows.length⟩ decode)
      rows (∀ page ∈ [first, second], page.WithinCaps src) := by
  have hbytes : [first, second].flatMap (·.bytes src.format) ++ behind =
      first.bytes src.format ++ ([second].flatMap (·.bytes src.format) ++ behind) := by
    rw [List.flatMap_cons, List.append_assoc]
  have hrest : 8 ≤ ([second].flatMap (·.bytes src.format) ++ behind).length := by
    rw [List.length_append]
    omega
  obtain ⟨hloads, hrefuses⟩ := loadDictionaryPage_stored hfmt hfirst hshort
    (hsized first (by simp)) hrest true
  rw [chunkPages, hbytes]
  simp only
  rw [if_neg (List.length_pos_of_ne_nil hsecond.filled).ne']
  by_cases hcaps : first.WithinCaps src
  · rw [hloads hcaps]
    have hpage := hsecond.loadsAs hfmt (hsized second (by simp)) le_rfl hdecode
    have hpages := loaded_loadPages (.cons hpage .nil) le_rfl hbehind
    rw [List.flatten_singleton] at hpages
    simpa [hcaps] using hpages
  · rw [hrefuses hcaps]
    exact loaded_none hsecond.filled fun hall => hcaps (hall first (by simp))

/-- The strings of a stored chunk. -/
theorem ChunkHolds.loaded
    (stale : Nat → Nat)
    (h : ChunkHolds src.format nullable chunk rows)
    (hfmt : src.format.ReadsBack) (hsized : ∀ page ∈ chunk.pages, page.Sized)
    (hshort : ∀ string ∈ rows.reduceOption, string.length < 2 ^ 31)
    (hcount : rows.length < 2 ^ 31) (hbehind : 8 ≤ behind.length) :
    Loaded (LoadedAs Eq nullable)
      (chunkPages src (flatColumn nullable) (chunk.source src.format behind)
        (decodeStrings src stale)) rows (chunk.WithinCaps src) := by
  obtain ⟨pages, declared, numValues⟩ := chunk
  obtain ⟨hpages, rfl⟩ := h
  simp only at hpages hsized
  cases hpages with
  | plain hpages =>
      exact hpages.loaded stale hfmt hsized hshort hbehind
  | @dictionary first second entries indices rows hfirst hsecond hencoding hentries hfew =>
      have hstrings : ∀ entry ∈ entries, entry.length < 2 ^ 31 := fun entry hentry =>
        hshort entry (List.reduceOption_mem_iff.mpr (hentries entry hentry))
      refine loaded_dictionary hfirst hsecond hfmt hsized hstrings ?_ hbehind
      rw [hencoding]
      exact decodeStrings_dictionary src stale hstrings (by omega)
        ((List.reduceOption_length_le rows).trans_lt hcount)

/-- The dictionary of a stored chunk that declares one, and the indices of its rows. -/
theorem ChunkHolds.indices
    (stale : Nat → Nat)
    (h : ChunkHolds src.format nullable chunk rows)
    (hdeclared : chunk.hasDictionaryPage = true)
    (hfmt : src.format.ReadsBack) (hsized : ∀ page ∈ chunk.pages, page.Sized)
    (hshort : ∀ string ∈ rows.reduceOption, string.length < 2 ^ 31)
    (hcount : rows.length < 2 ^ 31) (hbehind : 8 ≤ behind.length) :
    ∃ entries, (∀ entry ∈ entries, some entry ∈ rows) ∧
      (chunk.WithinCaps src →
        (loadDictionaryPage src true (chunk.source src.format behind).bytes).bind Prod.fst =
          some (dictionaryOf entries)) ∧
      Loaded (LoadedAs (IndexOf entries) nullable)
        (chunkPages src (flatColumn nullable) (chunk.source src.format behind)
          (decodeIndices src stale)) rows (chunk.WithinCaps src) := by
  obtain ⟨pages, declared, numValues⟩ := chunk
  obtain ⟨hpages, rfl⟩ := h
  simp only at hpages hsized hdeclared
  subst hdeclared
  cases hpages with
  | @dictionary first second entries indices rows hfirst hsecond hencoding hentries hfew =>
      have hstrings : ∀ entry ∈ entries, entry.length < 2 ^ 31 := fun entry hentry =>
        hshort entry (List.reduceOption_mem_iff.mpr (hentries entry hentry))
      refine ⟨entries, hentries, fun hcaps => ?_, ?_⟩
      · have hrest : 8 ≤ ([second].flatMap (·.bytes src.format) ++ behind).length := by
          rw [List.length_append]
          omega
        have hfound := (loadDictionaryPage_stored hfmt hfirst hstrings
          (hsized first (by simp)) hrest true).1 (hcaps first (by simp))
        simp only [TextChunk.source, TextChunk.bytes]
        rw [List.flatMap_cons, List.append_assoc, hfound]
        rfl
      · refine loaded_dictionary hfirst hsecond hfmt hsized hstrings ?_ hbehind
        rw [hencoding]
        exact decodeIndices_dictionary src stale (by omega)
          ((List.reduceOption_length_le rows).trans_lt hcount)

/-- A stored chunk that declares no dictionary has none to be found. -/
theorem ChunkHolds.no_dictionary
    (h : ChunkHolds src.format nullable chunk rows)
    (hdeclared : chunk.hasDictionaryPage = false) (hrows : rows ≠ [])
    (hfmt : src.format.ReadsBack) (hbehind : 8 ≤ behind.length) :
    (loadDictionaryPage src false (chunk.source src.format behind).bytes).bind Prod.fst =
      none := by
  obtain ⟨pages, declared, numValues⟩ := chunk
  obtain ⟨hpages, rfl⟩ := h
  simp only at hpages hdeclared
  subst hdeclared
  cases hpages with
  | plain hpages =>
      simp only [TextChunk.source, TextChunk.bytes]
      rcases hpages.probe hrows hfmt hbehind with hprobe | ⟨hprobe, -⟩ <;> rw [hprobe] <;> rfl

end Chunks

end Page
end QioParquet
