import QioParquet.Read.Cells
import QioParquet.Lib.OptionalRows
import Mathlib.Tactic

/-!
# The string cache

While one batch of a text column is materialized, R strings are cached by the
address and length of the bytes they were built from, so that a repeated
dictionary value is checked and interned once. A hit skips the check. This is
sound because an entry is only made after its bytes passed, and the memory of a
batch does not change under the loop: the loop with the cache and the loop
without it raise the same error or build the same elements.
-/

namespace QioParquet
namespace Read

open Lib

section Cache

/-- `QIO_CHARCACHE_SIZE`. -/
def charCacheSize : Nat := 1024

/-- `QIO_CHARCACHE_MAX_USED`. -/
def charCacheMaxUsed : Nat := charCacheSize / 2

/-- `QIO_CHARCACHE_TRIAL`. -/
def charCacheTrial : Nat := 4096

structure CacheEntry where
  key : Option Nat
  length : ℤ
  slot : Nat

/-- `qio_charcache_t`. A slot of -1 is no entry; `used` is the number of
strings held. -/
structure CharCache where
  entries : Nat → Option CacheEntry
  values : List Bytes
  lookups : Nat
  hits : Nat
  enabled : Bool

/-- `qio_charcache_reset`. -/
def CharCache.reset : CharCache :=
  ⟨fun _ => none, [], 0, 0, true⟩

/-- `qio_charcache_hash`, in 64-bit address arithmetic. -/
def charCacheHash (key : Option Nat) : Nat :=
  key.getD 0 / 8 * 2654435761 % 2 ^ 64 % charCacheSize

/-- The probe sequence: an empty entry, a hit, or neither in eight steps. -/
inductive Probe where
  | empty (probe : Nat)
  | hit (slot : Nat)
  | full

def CharCache.probe
    (cache : CharCache) (key : Option Nat) (length : ℤ) :
    Nat → Nat → Probe
  | 0, _ => .full
  | steps + 1, probe =>
      match cache.entries probe with
      | none => .empty probe
      | some entry =>
          if entry.key = key ∧ entry.length = length then
            .hit entry.slot
          else
            cache.probe key length steps ((probe + 1) % charCacheSize)

/-- `qio_charcache_get`: the cached string or nothing, the entry to fill, and
the cache with its counters moved on. -/
def CharCache.get
    (cache : CharCache) (key : Option Nat) (length : ℤ) :
    Option Bytes × Nat × CharCache :=
  if ¬ cache.enabled then
    (none, charCacheSize, cache)
  else if cache.lookups + 1 = charCacheTrial ∧
      cache.hits * 4 < cache.lookups + 1 then
    (none, charCacheSize,
      { cache with lookups := cache.lookups + 1, enabled := false })
  else
    match cache.probe key length 8 (charCacheHash key) with
    | .empty probe =>
        (none, probe, { cache with lookups := cache.lookups + 1 })
    | .hit slot =>
        (cache.values[slot]?, charCacheSize,
          { cache with
            lookups := cache.lookups + 1
            hits := cache.hits + 1 })
    | .full =>
        (none, charCacheSize, { cache with lookups := cache.lookups + 1 })

/-- `qio_charcache_put`. -/
def CharCache.put
    (cache : CharCache) (probe : Nat) (key : Option Nat) (length : ℤ)
    (value : Bytes) : CharCache :=
  if charCacheSize ≤ probe then
    cache
  else if charCacheMaxUsed ≤ cache.values.length then
    cache
  else
    { cache with
      entries := Function.update cache.entries probe
        (some ⟨key, length, cache.values.length⟩)
      values := cache.values ++ [value] }

end Cache

section Loop

/-- A descriptor read from a value buffer. -/
def loadByteArray :
    PhysValue ByteArrayRef → Except ReadError ByteArrayRef
  | .byteArray ref => .ok ref
  | _ => .error .undefinedBehaviour

/-- The string of one present row, checked. -/
def textElement
    (memory : Memory) (column : String) (row : Nat)
    (v : PhysValue ByteArrayRef) : Except ReadError RCell := do
  let ref ← loadByteArray v
  checkStringBytes memory ref column row
  return .str (ref.bytes memory)

/-- One present row of the text loop: the cached string, or a checked new one
that is offered to the cache. -/
def cachedString
    (memory : Memory) (column : String) (row : Nat)
    (ref : ByteArrayRef) (cache : CharCache) :
    Except ReadError (Bytes × CharCache) := do
  let (cached, probe, cache) :=
    if 0 < ref.length then
      cache.get ref.data ref.length
    else
      (none, 0, cache)
  match cached with
  | some made => return (made, cache)
  | none =>
      checkStringBytes memory ref column row
      let made := ref.bytes memory
      if 0 < ref.length then
        return (made, cache.put probe ref.data ref.length made)
      else
        return (made, cache)

/-- The text loop of `qio_scatter_dense_column`. -/
def scatterTextLoop
    (memory : Memory) (column : String) :
    Nat → List Bool → List (PhysValue ByteArrayRef) → CharCache →
      Except ReadError (List RCell)
  | _, [], _, _ => .ok []
  | row, false :: flags, dense, cache => do
      let cells ← scatterTextLoop memory column (row + 1) flags dense cache
      return .strNA :: cells
  | _, true :: _, [], _ => .error .undefinedBehaviour
  | row, true :: flags, v :: dense, cache => do
      let ref ← loadByteArray v
      let (made, cache) ← cachedString memory column row ref cache
      let cells ← scatterTextLoop memory column (row + 1) flags dense cache
      return .str made :: cells

end Loop

section Transparency

/-- The outcome of the string check does not depend on the row it names. -/
theorem checkStringBytes_row
    {memory : Memory} {value : ByteArrayRef} {column : String}
    {row : Nat} (row' : Nat)
    (h : checkStringBytes memory value column row = .ok ()) :
    checkStringBytes memory value column row' = .ok () := by
  unfold checkStringBytes at h ⊢
  split_ifs at h ⊢
  rfl

/-- Every entry holds the string of its own key, and that string passed the
check. -/
def CharCache.Sound
    (cache : CharCache) (memory : Memory) (column : String) : Prop :=
  ∀ probe entry,
    cache.entries probe = some entry →
    cache.values[entry.slot]? =
        some (ByteArrayRef.bytes memory ⟨entry.key, entry.length⟩) ∧
      ∀ row, checkStringBytes memory ⟨entry.key, entry.length⟩ column row =
        .ok ()

theorem CharCache.sound_reset
    (memory : Memory) (column : String) :
    CharCache.reset.Sound memory column := by
  intro probe entry h
  cases h

theorem CharCache.Sound.of_entries
    {cache cache' : CharCache} {memory : Memory} {column : String}
    (h : cache.Sound memory column)
    (hentries : cache'.entries = cache.entries)
    (hvalues : cache'.values = cache.values) :
    cache'.Sound memory column := by
  intro probe entry hentry
  rw [hentries] at hentry
  rw [hvalues]
  exact h probe entry hentry

/-- A hit is an entry made for the same key. -/
theorem CharCache.probe_hit
    {cache : CharCache} {key : Option Nat} {length : ℤ}
    {steps start slot : Nat}
    (h : cache.probe key length steps start = .hit slot) :
    ∃ probe, cache.entries probe = some ⟨key, length, slot⟩ := by
  induction steps generalizing start with
  | zero =>
      cases h
  | succ steps ih =>
      rw [CharCache.probe] at h
      cases hentry : cache.entries start with
      | none =>
          simp [hentry] at h
      | some entry =>
          simp only [hentry] at h
          split at h
          · rename_i hkey
            obtain ⟨rfl, rfl⟩ := hkey
            cases h
            exact ⟨start, hentry⟩
          · exact ih h

/-- Looking up keeps the cache sound, and finds only checked strings. -/
theorem CharCache.Sound.get
    {cache : CharCache} {memory : Memory} {column : String}
    (h : cache.Sound memory column)
    (key : Option Nat) (length : ℤ) :
    (cache.get key length).2.2.Sound memory column ∧
      ∀ made, (cache.get key length).1 = some made →
        made = ByteArrayRef.bytes memory ⟨key, length⟩ ∧
          ∀ row, checkStringBytes memory ⟨key, length⟩ column row =
            .ok () := by
  unfold CharCache.get
  split
  · exact ⟨h, fun made hmade => by cases hmade⟩
  split
  · exact ⟨h.of_entries rfl rfl, fun made hmade => by cases hmade⟩
  · cases hprobe : cache.probe key length 8 (charCacheHash key) with
    | empty probe =>
        exact ⟨h.of_entries rfl rfl, fun made hmade => by cases hmade⟩
    | full =>
        exact ⟨h.of_entries rfl rfl, fun made hmade => by cases hmade⟩
    | hit slot =>
        obtain ⟨probe, hentry⟩ := CharCache.probe_hit hprobe
        obtain ⟨hvalue, hcheck⟩ := h probe _ hentry
        refine ⟨h.of_entries rfl rfl, fun made hmade => ⟨?_, hcheck⟩⟩
        simp only at hmade hvalue
        rw [hvalue] at hmade
        exact (Option.some.inj hmade).symm

theorem CharCache.Sound.put
    {cache : CharCache} {memory : Memory} {column : String}
    (h : cache.Sound memory column)
    (probe : Nat) {key : Option Nat} {length : ℤ}
    (hcheck : ∀ row,
      checkStringBytes memory ⟨key, length⟩ column row = .ok ()) :
    (cache.put probe key length
      (ByteArrayRef.bytes memory ⟨key, length⟩)).Sound memory column := by
  unfold CharCache.put
  split_ifs with hprobe hused
  · exact h
  · exact h
  · intro p entry hentry
    simp only at hentry ⊢
    by_cases hp : p = probe
    · subst hp
      simp only [Function.update_self, Option.some.injEq] at hentry
      subst hentry
      exact ⟨by simp, hcheck⟩
    · rw [Function.update_of_ne hp] at hentry
      obtain ⟨hvalue, hrow⟩ := h p entry hentry
      refine ⟨?_, hrow⟩
      rw [List.getElem?_append_left]
      · exact hvalue
      · exact (List.getElem?_eq_some_iff.mp hvalue).1

/-- Through the cache a row raises what its check raises, and otherwise gives
its own bytes. -/
theorem cachedString_cases
    {memory : Memory} {column : String} {cache : CharCache}
    (hcache : cache.Sound memory column)
    (row : Nat) (ref : ByteArrayRef) :
    (∃ e, checkStringBytes memory ref column row = .error e ∧
      cachedString memory column row ref cache = .error e) ∨
    (∃ cache', cache'.Sound memory column ∧
      checkStringBytes memory ref column row = .ok () ∧
      cachedString memory column row ref cache =
        .ok (ref.bytes memory, cache')) := by
  unfold cachedString
  split_ifs with hpos
  · obtain ⟨hsound, hhit⟩ := hcache.get ref.data ref.length
    generalize cache.get ref.data ref.length = found at hsound hhit
    obtain ⟨cached, probe, cache'⟩ := found
    cases cached with
    | some made =>
        obtain ⟨rfl, hcheck⟩ := hhit made rfl
        exact Or.inr ⟨cache', hsound, hcheck row, rfl⟩
    | none =>
        cases hcheck : checkStringBytes memory ref column row with
        | error e =>
            exact Or.inl ⟨e, rfl, rfl⟩
        | ok _ =>
            exact Or.inr ⟨_,
              hsound.put probe fun row' => checkStringBytes_row row' hcheck,
              rfl, rfl⟩
  · cases hcheck : checkStringBytes memory ref column row with
    | error e =>
        exact Or.inl ⟨e, rfl, rfl⟩
    | ok _ =>
        exact Or.inr ⟨cache, hcache, rfl, rfl⟩

/-- The loop through the cache is the loop that checks every row. -/
theorem scatterTextLoop_eq
    {memory : Memory} {column : String} {cache : CharCache}
    (hcache : cache.Sound memory column)
    (row : Nat) (flags : List Bool)
    (dense : List (PhysValue ByteArrayRef)) :
    scatterTextLoop memory column row flags dense cache =
      scatterLoop .undefinedBehaviour .strNA (textElement memory column)
        row flags dense := by
  induction flags generalizing row dense cache with
  | nil =>
      rfl
  | cons flag flags ih =>
      cases flag with
      | false =>
          rw [scatterTextLoop, scatterLoop, ih hcache]
      | true =>
          cases dense with
          | nil =>
              rfl
          | cons v dense =>
              cases hload : loadByteArray v with
              | error e =>
                  simp only [scatterTextLoop, scatterLoop, textElement,
                    hload, error_bind]
              | ok ref =>
                  rcases cachedString_cases hcache row ref with
                    ⟨e, hcheck, hcached⟩ | ⟨cache', hsound, hcheck, hcached⟩
                  · simp only [scatterTextLoop, scatterLoop, textElement,
                      hload, hcheck, hcached, ok_bind, error_bind]
                  · simp only [scatterTextLoop, scatterLoop, textElement,
                      hload, hcheck, hcached, ok_bind, pure_eq_ok,
                      ih hsound]

end Transparency

end Read
end QioParquet
