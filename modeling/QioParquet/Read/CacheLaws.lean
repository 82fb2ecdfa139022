import QioParquet.Read.Decode
import Mathlib.Tactic

/-!
# The string cache during a batch

`scatterTextLoop_eq` says that the loop through the cache and the loop without
it end alike. Here the cache itself is followed through the loop: the entries in
use stay at half its size, an entry is only ever filled while it is free, so no
string is overwritten, and each one leads to the string of its own address and
length.
-/

namespace QioParquet
namespace Read

open Lib

section Bounds

/-- The entries in use. -/
def CharCache.occupied (cache : CharCache) : Finset Nat :=
  (Finset.range charCacheSize).filter fun probe =>
    (cache.entries probe).isSome

/-- Entries are in use inside the table only, one for each string held, and at
most half of them. -/
structure CharCache.Bounded (cache : CharCache) : Prop where
  inside : ∀ probe, (cache.entries probe).isSome → probe < charCacheSize
  count : cache.occupied.card = cache.values.length
  used : cache.values.length ≤ charCacheMaxUsed

theorem CharCache.bounded_reset : CharCache.reset.Bounded where
  inside := by
    intro probe h
    cases h
  count := by
    simp [CharCache.occupied, CharCache.reset]
  used := Nat.zero_le _

theorem CharCache.Bounded.of_entries
    {cache cache' : CharCache}
    (h : cache.Bounded)
    (hentries : cache'.entries = cache.entries)
    (hvalues : cache'.values = cache.values) :
    cache'.Bounded := by
  obtain ⟨hinside, hcount, hused⟩ := h
  refine ⟨?_, ?_, ?_⟩
  · rw [hentries]
    exact hinside
  · rw [CharCache.occupied, hentries, hvalues]
    exact hcount
  · rw [hvalues]
    exact hused

/-- A probe the run of probes ends at is inside the table and free. -/
theorem CharCache.probe_empty
    {cache : CharCache} {key : Option Nat} {length : ℤ}
    {steps start probe : Nat}
    (hstart : start < charCacheSize)
    (h : cache.probe key length steps start = .empty probe) :
    probe < charCacheSize ∧ cache.entries probe = none := by
  induction steps generalizing start with
  | zero =>
      cases h
  | succ steps ih =>
      rw [CharCache.probe] at h
      cases hentry : cache.entries start with
      | none =>
          simp only [hentry, Probe.empty.injEq] at h
          subst h
          exact ⟨hstart, hentry⟩
      | some entry =>
          simp only [hentry] at h
          split at h
          · cases h
          · exact ih (Nat.mod_lt _ (by decide)) h

theorem charCacheHash_lt (key : Option Nat) :
    charCacheHash key < charCacheSize :=
  Nat.mod_lt _ (by decide)

/-- Looking up moves counters only, and offers a free entry or none. -/
theorem CharCache.Bounded.get
    {cache : CharCache}
    (h : cache.Bounded)
    (key : Option Nat) (length : ℤ) :
    (cache.get key length).2.2.Bounded ∧
      ((cache.get key length).2.1 < charCacheSize →
        (cache.get key length).2.2.entries (cache.get key length).2.1 =
          none) := by
  unfold CharCache.get
  split
  · exact ⟨h, fun hlt => absurd hlt (lt_irrefl _)⟩
  split
  · exact ⟨h.of_entries rfl rfl, fun hlt => absurd hlt (lt_irrefl _)⟩
  · cases hprobe : cache.probe key length 8 (charCacheHash key) with
    | empty probe =>
        exact ⟨h.of_entries rfl rfl, fun _ =>
          (CharCache.probe_empty (charCacheHash_lt key) hprobe).2⟩
    | hit slot =>
        exact ⟨h.of_entries rfl rfl, fun hlt => absurd hlt (lt_irrefl _)⟩
    | full =>
        exact ⟨h.of_entries rfl rfl, fun hlt => absurd hlt (lt_irrefl _)⟩

/-- Filling a free entry adds one string and one entry. -/
theorem CharCache.Bounded.put
    {cache : CharCache}
    (h : cache.Bounded)
    {probe : Nat}
    (hfree : probe < charCacheSize → cache.entries probe = none)
    (key : Option Nat) (length : ℤ) (value : Bytes) :
    (cache.put probe key length value).Bounded := by
  unfold CharCache.put
  split_ifs with hprobe hused
  · exact h
  · exact h
  · have hlt : probe < charCacheSize := not_le.mp hprobe
    have hnone := hfree hlt
    refine ⟨?_, ?_, ?_⟩
    · intro p hp
      by_cases hpp : p = probe
      · exact hpp ▸ hlt
      · simp only [Function.update_of_ne hpp] at hp
        exact h.inside p hp
    · have hinsert : CharCache.occupied
          { cache with
            entries := Function.update cache.entries probe
              (some ⟨key, length, cache.values.length⟩)
            values := cache.values ++ [value] } =
          insert probe cache.occupied := by
        ext p
        by_cases hpp : p = probe
        · simp [CharCache.occupied, hpp, hlt]
        · simp [CharCache.occupied, hpp]
      have hnotMem : probe ∉ cache.occupied := by
        simp [CharCache.occupied, hnone]
      rw [hinsert, Finset.card_insert_of_notMem hnotMem, h.count,
        List.length_append, List.length_singleton]
    · rw [List.length_append, List.length_singleton]
      omega

end Bounds

section Runs

/-- The cache before each row the text loop reaches, and after the last. -/
def scatterTextCaches
    (memory : Memory) (column : String) :
    Nat → List Bool → List (PhysValue ByteArrayRef) → CharCache →
      List CharCache
  | _, [], _, cache => [cache]
  | row, false :: flags, dense, cache =>
      cache :: scatterTextCaches memory column (row + 1) flags dense cache
  | _, true :: _, [], cache => [cache]
  | row, true :: flags, v :: dense, cache =>
      cache ::
        match loadByteArray v with
        | .error _ => []
        | .ok ref =>
            match cachedString memory column row ref cache with
            | .error _ => []
            | .ok (_, cache') =>
                scatterTextCaches memory column (row + 1) flags dense cache'

/-- One row keeps the cache sound and bounded. -/
theorem cachedString_keeps
    {memory : Memory} {column : String} {cache cache' : CharCache}
    {row : Nat} {ref : ByteArrayRef} {made : Bytes}
    (hsound : cache.Sound memory column)
    (hbounded : cache.Bounded)
    (h : cachedString memory column row ref cache = .ok (made, cache')) :
    cache'.Sound memory column ∧ cache'.Bounded := by
  constructor
  · rcases cachedString_cases hsound row ref with
      ⟨e, -, herror⟩ | ⟨cache'', hsound'', -, hok⟩
    · rw [herror] at h
      cases h
    · rw [hok] at h
      cases h
      exact hsound''
  · unfold cachedString at h
    split_ifs at h with hpos
    · obtain ⟨hget, hfree⟩ := hbounded.get ref.data ref.length
      generalize cache.get ref.data ref.length = found at hget hfree h
      obtain ⟨cached, probe, found⟩ := found
      cases cached with
      | some string =>
          cases h
          exact hget
      | none =>
          simp only [bind_eq_ok_iff] at h
          obtain ⟨-, -, h⟩ := h
          cases h
          exact hget.put hfree _ _ _
    · simp only [bind_eq_ok_iff] at h
      obtain ⟨-, -, h⟩ := h
      cases h
      exact hbounded

/-- Every cache of a run is sound and bounded, by induction on the rows. -/
theorem scatterTextCaches_keep
    {memory : Memory} {column : String} {cache : CharCache}
    (hsound : cache.Sound memory column)
    (hbounded : cache.Bounded)
    (row : Nat) (flags : List Bool)
    (dense : List (PhysValue ByteArrayRef)) :
    ∀ seen ∈ scatterTextCaches memory column row flags dense cache,
      seen.Sound memory column ∧ seen.Bounded := by
  induction flags generalizing row dense cache with
  | nil =>
      intro seen hseen
      rw [scatterTextCaches, List.mem_singleton] at hseen
      exact hseen ▸ ⟨hsound, hbounded⟩
  | cons flag flags ih =>
      cases flag with
      | false =>
          intro seen hseen
          rw [scatterTextCaches, List.mem_cons] at hseen
          rcases hseen with rfl | hseen
          · exact ⟨hsound, hbounded⟩
          · exact ih hsound hbounded _ _ seen hseen
      | true =>
          cases dense with
          | nil =>
              intro seen hseen
              rw [scatterTextCaches, List.mem_singleton] at hseen
              exact hseen ▸ ⟨hsound, hbounded⟩
          | cons v dense =>
              intro seen hseen
              rw [scatterTextCaches, List.mem_cons] at hseen
              rcases hseen with rfl | hseen
              · exact ⟨hsound, hbounded⟩
              · split at hseen
                · cases hseen
                · split at hseen
                  · cases hseen
                  · rename_i hcached
                    obtain ⟨hsound', hbounded'⟩ :=
                      cachedString_keeps hsound hbounded hcached
                    exact ih hsound' hbounded' _ _ seen hseen

end Runs

section Invisible

/-- The text branch of `qio_scatter_dense_column` with the cache removed: every
present row is checked and made into a string. -/
def scatterDenseUncached
    (c : ColumnSpec) (b : DenseBatch) (flags : Flags) :
    Except ReadError (List RCell × Flags) := do
  let cells ← scatterLoop .undefinedBehaviour .strNA
    (textElement b.memory c.name) 0 (b.presence c.maxDef) b.values
  return (cells, flags)

/-- The cache changes neither the elements of a text batch nor its error, and
throughout the batch it holds at most half its size, each entry leading to the
string of its own address and length. -/
theorem string_cache_invisible
    (c : ColumnSpec) (b : DenseBatch) (flags : Flags)
    (htype : c.type = .byteArray)
    (huuid : c.kind ≠ .uuid)
    (hbinary : c.kind ≠ .binary) :
    scatterDenseColumn c b flags = scatterDenseUncached c b flags ∧
      ∀ cache ∈ scatterTextCaches b.memory c.name 0 (b.presence c.maxDef)
          b.values CharCache.reset,
        cache.occupied.card ≤ 512 ∧
          cache.values.length ≤ 512 ∧
          ∀ probe entry, cache.entries probe = some entry →
            probe < charCacheSize ∧
              cache.values[entry.slot]? =
                some (ByteArrayRef.bytes b.memory
                  ⟨entry.key, entry.length⟩) := by
  have hreset := CharCache.sound_reset b.memory c.name
  constructor
  · rw [scatterDenseColumn, if_neg huuid, if_neg hbinary, if_pos htype,
      scatterTextLoop_eq hreset]
    rfl
  · intro cache hcache
    obtain ⟨hsound, hbounded⟩ := scatterTextCaches_keep hreset
      CharCache.bounded_reset 0 _ _ cache hcache
    refine ⟨?_, hbounded.used, ?_⟩
    · rw [hbounded.count]
      exact hbounded.used
    · intro probe entry hentry
      exact ⟨hbounded.inside probe (by simp [hentry]),
        (hsound probe entry hentry).1⟩

/-- A text column and a batch with one value twice at one address and a missing
row between. -/
def greetingSpec : ColumnSpec :=
  ⟨"greeting", .byteArray, .text, 0, 1, .double, false⟩

def greetingBatch : DenseBatch where
  values := [.byteArray ⟨some 8, 2⟩, .byteArray ⟨some 8, 2⟩]
  levels := some [1, 0, 1]
  count := 3
  memory := fun address => if address = 8 then 0x68 else 0x69
  levels_room := by
    rintro list ⟨⟩
    exact le_rfl

theorem string_cache_invisible_greeting :
    scatterDenseColumn greetingSpec greetingBatch Flags.none =
        .ok ([.str [0x68, 0x69], .strNA, .str [0x68, 0x69]], Flags.none) ∧
      (scatterTextCaches greetingBatch.memory "greeting" 0 [true, false, true]
        greetingBatch.values CharCache.reset).length = 4 ∧
      ∀ cache ∈ scatterTextCaches greetingBatch.memory "greeting" 0
          [true, false, true] greetingBatch.values CharCache.reset,
        cache.occupied.card ≤ 512 := by
  obtain ⟨heq, hbounds⟩ := string_cache_invisible greetingSpec greetingBatch
    Flags.none rfl (by decide) (by decide)
  refine ⟨heq.trans (by decide +kernel), by decide +kernel, ?_⟩
  intro cache hcache
  exact (hbounds cache hcache).1

end Invisible

end Read
end QioParquet
