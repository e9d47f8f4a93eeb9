/-
# The verification cache

`src/crypto/cache.rs`: two maps from a digest to the time of last access, one for range proofs
and one for ring signatures.  Only positive results are inserted, so presence means "verified".
A full map is thinned by `evict_old`: everything older than an hour goes, and if that is not
enough the oldest tenth.  The map's own iteration order, which `evict_old` sorts, is an argument
(`walk`); the clock is another.
-/
import Coincync.Transaction.Types
import Coincync.Lib.PositiveCache

namespace Coincync

open Lib Suite

variable {now : Nat}

abbrev CacheKey := FixedBytes 32

/-- The order in which a map hands out its entries. -/
abbrev Walk := Map CacheKey Nat → List (CacheKey × Nat)

/-- `VerificationCache`: digest of a verified proof to the time of its last access, in
nanoseconds of the monotonic clock. -/
structure VerificationCache where
  bulletproofCache : Map CacheKey Nat
  ringSigCache : Map CacheKey Nat

def maxCacheSize : Nat := 100000

variable {m : Map CacheKey Nat} {k : CacheKey}

namespace VerificationCache

def new : VerificationCache := ⟨∅, ∅⟩

/-! ## 1. Eviction -/

/-- The age pass: skipped while the clock has not run for an hour (`checked_sub`). -/
def agePass (now : Nat) (m : Map CacheKey Nat) : Map CacheKey Nat :=
  if 3600 * 10 ^ 9 ≤ now then m.retain fun _ t => now - 3600 * 10 ^ 9 < t else m

/-- The size pass: the tenth with the smallest times. -/
def sizePass (walk : Walk) (m : Map CacheKey Nat) : Map CacheKey Nat :=
  if maxCacheSize ≤ m.keys.card then
    (((walk m).mergeSort fun a b => decide (a.2 ≤ b.2)).take (maxCacheSize / 10)).foldl
      (fun m e => m.erase e.1) m
  else m

def evictOld (now : Nat) (walk : Walk) (m : Map CacheKey Nat) : Map CacheKey Nat :=
  sizePass walk (agePass now m)

theorem mem_of_mem_agePass (h : k ∈ agePass now m) : k ∈ m := by
  unfold agePass at h
  split at h
  · obtain ⟨t, ht⟩ := Finmap.mem_iff.mp h
    rw [Map.lookup_retain, Option.filter_eq_some_iff] at ht
    exact Finmap.mem_of_lookup_eq_some ht.1
  · exact h

theorem mem_of_mem_foldl_erase : ∀ (l : List (CacheKey × Nat)) {m : Map CacheKey Nat}
    {k : CacheKey}, k ∈ l.foldl (fun m e => m.erase e.1) m → k ∈ m
  | [], _, _, h => h
  | _ :: l, _, _, h => (Finmap.mem_erase.mp (mem_of_mem_foldl_erase l h)).2

theorem mem_of_mem_evictOld {walk : Walk} (h : k ∈ evictOld now walk m) : k ∈ m := by
  unfold evictOld sizePass at h
  split at h
  · exact mem_of_mem_agePass (mem_of_mem_foldl_erase _ h)
  · exact mem_of_mem_agePass h

/-! ## 2. Lookup and insertion -/

/-- `check_*` on one map: a hit refreshes the time of access. -/
def check (now : Nat) (key : CacheKey) (m : Map CacheKey Nat) : Option Bool × Map CacheKey Nat :=
  if key ∈ m then (some true, m.insert key now) else (none, m)

/-- `cache_*` on one map: a negative result is dropped; a full map is thinned first. -/
def record (now : Nat) (walk : Walk) (key : CacheKey) (valid : Bool) (m : Map CacheKey Nat) :
    Map CacheKey Nat :=
  if valid = false then m
  else (if maxCacheSize ≤ m.keys.card then evictOld now walk m else m).insert key now

variable (c : VerificationCache)

def checkRingSig (now : Nat) (key : CacheKey) : Option Bool × VerificationCache :=
  ((check now key c.ringSigCache).1,
    { c with ringSigCache := (check now key c.ringSigCache).2 })

def cacheRingSig (now : Nat) (walk : Walk) (key : CacheKey) (valid : Bool) : VerificationCache :=
  { c with ringSigCache := record now walk key valid c.ringSigCache }

def checkBulletproof (now : Nat) (key : CacheKey) : Option Bool × VerificationCache :=
  ((check now key c.bulletproofCache).1,
    { c with bulletproofCache := (check now key c.bulletproofCache).2 })

def cacheBulletproof (now : Nat) (walk : Walk) (key : CacheKey) (valid : Bool) :
    VerificationCache :=
  { c with bulletproofCache := record now walk key valid c.bulletproofCache }

theorem check_fst (now : Nat) (key : CacheKey) (m : Map CacheKey Nat) :
    (check now key m).1 = if key ∈ m then some true else none := by
  unfold check
  split <;> rfl

theorem mem_of_mem_check {key : CacheKey} (h : k ∈ (check now key m).2) : k ∈ m := by
  unfold check at h
  split at h
  · rename_i hk
    rcases Finmap.mem_insert.mp h with rfl | h'
    · exact hk
    · exact h'
  · exact h

theorem mem_record {walk : Walk} {key : CacheKey} {valid : Bool}
    (h : k ∈ record now walk key valid m) : (k = key ∧ valid = true) ∨ k ∈ m := by
  unfold record at h
  split at h
  · exact Or.inr h
  · rename_i hv
    rcases Finmap.mem_insert.mp h with rfl | h'
    · exact Or.inl ⟨rfl, by simpa using hv⟩
    · split at h'
      · exact Or.inr (mem_of_mem_evictOld h')
      · exact Or.inr h'

end VerificationCache

/-! ## 3. Cache keys -/

variable {F G : Type} [Field F] [AddCommGroup G] [Module F G] (S : Suite F G)

def proofCacheKey (proofData commitmentData : Bytes) : CacheKey :=
  S.blake3 (ascii "COINCYNC_PROOF_CACHE_v1" ++ proofData ++ commitmentData)

/-- The preimage of `ring_sig_cache_key`. -/
def ringSigCachePreimage (message sigData : Bytes) : Bytes :=
  ascii "COINCYNC_RINGSIG_CACHE_v1" ++ message ++ sigData

/-- `ring_sig_cache_key`: the message and the signature. -/
def ringSigCacheKey (message sigData : Bytes) : CacheKey :=
  S.blake3 (ringSigCachePreimage message sigData)

/-- The inputs of the batch verifier (`src/crypto/batch_verify.rs`). -/
structure SignatureData where
  message : Bytes
  signature : Bytes
  ringData : Bytes
  pseudoOutput : FixedBytes 32

/-- The preimage of `ring_sig_statement_cache_key`: every verification input, each behind its
length. -/
def ringSigStatementPreimage (d : SignatureData) : Bytes :=
  ascii "COINCYNC_RINGSIG_STATEMENT_CACHE_v1" ++
    [d.message, d.signature, d.ringData].flatMap (fun field => leBytes 8 field.length ++ field) ++
    d.pseudoOutput.toList

/-- `ring_sig_statement_cache_key`, through `SignatureData::cache_key`. -/
def ringSigStatementCacheKey (d : SignatureData) : CacheKey :=
  S.blake3 (ringSigStatementPreimage d)

theorem ringSigCachePreimage_ne_statement (message sigData : Bytes) (d : SignatureData) :
    ringSigCachePreimage message sigData ≠ ringSigStatementPreimage d := by
  intro h
  have h17 : (ringSigCachePreimage message sigData)[17]? = (ringSigStatementPreimage d)[17]? := by
    rw [h]
  have hl : (ringSigCachePreimage message sigData)[17]? = some 67 := by
    simp [ringSigCachePreimage, ascii]
  have hr : (ringSigStatementPreimage d)[17]? = some 83 := by
    simp [ringSigStatementPreimage, ascii]
  rw [hl, hr] at h17
  exact absurd h17 (by decide)

end Coincync
