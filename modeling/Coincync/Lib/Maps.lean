/-
# Finite maps and buckets

The node keeps its state in hash maps, ordered maps and maps of sets.  They are all Mathlib's
`Finmap` here: nothing the node decides depends on the order in which a hash map is walked, and
where an ordered map is walked in order the model walks the range of keys instead.
-/
import Mathlib

namespace Coincync.Lib

open List Option Finset

/-- A map with values of one type. -/
abbrev Map (K V : Type) := Finmap fun _ : K => V

namespace Map

variable {K V : Type} [DecidableEq K]

/-! ## 1. Lookups through one update -/

theorem lookup_insert_ite (m : Map K V) (k k' : K) (v : V) :
    (m.insert k v).lookup k' = if k' = k then some v else m.lookup k' := by
  by_cases h : k' = k
  · subst h
    rw [if_pos rfl, Finmap.lookup_insert]
  · rw [if_neg h, Finmap.lookup_insert_of_ne _ h]

theorem lookup_erase_ite (m : Map K V) (k k' : K) :
    (m.erase k).lookup k' = if k' = k then none else m.lookup k' := by
  by_cases h : k' = k
  · subst h
    rw [if_pos rfl, Finmap.lookup_erase]
  · rw [if_neg h, Finmap.lookup_erase_ne h]

/-- `entry(k).or_insert(v)`: the value already there wins. -/
def orInsert (m : Map K V) (k : K) (v : V) : Map K V :=
  match m.lookup k with
  | some _ => m
  | none => m.insert k v

theorem lookup_orInsert (m : Map K V) (k k' : K) (v : V) :
    (orInsert m k v).lookup k' = if k' = k then some ((m.lookup k).getD v) else m.lookup k' := by
  unfold orInsert
  cases hk : m.lookup k with
  | some w =>
    by_cases h : k' = k
    · subst h
      simp [hk]
    · simp [h]
  | none => simp [lookup_insert_ite]

/-- `retain`: the entries that pass the test. -/
def retain (p : K → V → Bool) (m : Map K V) : Map K V :=
  ⟨m.entries.filter fun e => p e.1 e.2 = true,
    Multiset.nodup_keys.mp (Multiset.nodup_of_le (Multiset.map_le_map (Multiset.filter_le _ _))
      (Multiset.nodup_keys.mpr m.nodupKeys))⟩

theorem lookup_retain (p : K → V → Bool) (m : Map K V) (k : K) :
    (retain p m).lookup k = (m.lookup k).filter (p k) := by
  have hmem : ∀ v, (retain p m).lookup k = some v ↔ m.lookup k = some v ∧ p k v = true := by
    intro v
    rw [Finmap.lookup_eq_some_iff, Finmap.lookup_eq_some_iff]
    simp [retain]
  ext v
  rw [hmem v, filter_eq_some_iff]

variable {m : Map K V} {k : K} {p : K → V → Bool}

theorem retain_eq_self (h : ∀ k v, m.lookup k = some v → p k v = true) : retain p m = m := by
  refine Finmap.ext_lookup fun k => ?_
  rw [lookup_retain]
  cases hk : m.lookup k with
  | none => rfl
  | some v => simp only [filter_some, h k v hk, if_true]

/-! ## 2. Maps of sets without empty sets -/

/-- `entry(h).or_insert_with(BTreeSet::new).insert(k)`. -/
def bucketInsert {H : Type} [DecidableEq H] (m : Map H (Finset K)) (h : H) (k : K) :
    Map H (Finset K) :=
  m.insert h (insert k ((m.lookup h).getD ∅))

/-- Remove `k` from the set at `h`, and the set itself when that leaves it empty. -/
def bucketRemove {H : Type} [DecidableEq H] (m : Map H (Finset K)) (h : H) (k : K) :
    Map H (Finset K) :=
  match m.lookup h with
  | none => m
  | some s => if (s.erase k) = ∅ then m.erase h else m.insert h (s.erase k)

variable {H : Type} [DecidableEq H] {l : List (K × V)} {v : V}

/-- The set a map of sets holds at `h`: empty where it has no entry. -/
def bucket (m : Map H (Finset K)) (h : H) : Finset K := (m.lookup h).getD ∅

/-- No entry is the empty set. -/
def NoEmptyBucket (m : Map H (Finset K)) : Prop := ∀ h, m.lookup h ≠ some ∅

@[simp] theorem bucket_bucketInsert (m : Map H (Finset K)) (h h' : H) (k : K) :
    bucket (bucketInsert m h k) h' = if h' = h then insert k (bucket m h') else bucket m h' := by
  unfold bucket bucketInsert
  rw [lookup_insert_ite]
  by_cases hh : h' = h
  · subst hh
    simp
  · simp [hh]

@[simp] theorem bucket_bucketRemove (m : Map H (Finset K)) (h h' : H) (k : K) :
    bucket (bucketRemove m h k) h' = if h' = h then (bucket m h').erase k else bucket m h' := by
  unfold bucket bucketRemove
  cases hm : m.lookup h with
  | none =>
    by_cases hh : h' = h
    · subst hh
      simp [hm]
    · simp [hh]
  | some s =>
    by_cases he : s.erase k = ∅
    · by_cases hh : h' = h
      · subst hh
        simp [he, hm]
      · simp [he, hh]
    · by_cases hh : h' = h
      · subst hh
        simp [he, hm]
      · simp [he, hh]

theorem NoEmptyBucket.bucketInsert {m : Map H (Finset K)} (hm : NoEmptyBucket m) (h : H) (k : K) :
    NoEmptyBucket (bucketInsert m h k) := by
  intro h' heq
  unfold Map.bucketInsert at heq
  rw [lookup_insert_ite] at heq
  split at heq
  · exact absurd (Option.some.inj heq) (insert_ne_empty _ _)
  · exact hm h' heq

theorem NoEmptyBucket.bucketRemove {m : Map H (Finset K)} (hm : NoEmptyBucket m) (h : H) (k : K) :
    NoEmptyBucket (bucketRemove m h k) := by
  intro h' heq
  unfold Map.bucketRemove at heq
  cases hl : m.lookup h with
  | none =>
    rw [hl] at heq
    exact hm h' heq
  | some s =>
    rw [hl] at heq
    simp only at heq
    split at heq
    · rw [lookup_erase_ite] at heq
      split at heq
      · cases heq
      · exact hm h' heq
    · rename_i hne
      rw [lookup_insert_ite] at heq
      split at heq
      · exact hne (Option.some.inj heq)
      · exact hm h' heq

omit [DecidableEq K] in
theorem noEmptyBucket_empty : NoEmptyBucket (∅ : Map H (Finset K)) := by
  intro h heq
  rw [Finmap.lookup_empty] at heq
  cases heq

omit [DecidableEq K] in
/-- **Two maps of sets without empty sets are equal when they hold the same sets.** -/
theorem ext_bucket {m m' : Map H (Finset K)} (hm : NoEmptyBucket m) (hm' : NoEmptyBucket m')
    (h : ∀ x, bucket m x = bucket m' x) : m = m' := by
  refine Finmap.ext_lookup fun x => ?_
  have hx := h x
  unfold bucket at hx
  cases h1 : m.lookup x with
  | none =>
    cases h2 : m'.lookup x with
    | none => rfl
    | some s =>
      rw [h1, h2] at hx
      exact absurd (by rw [h2, show s = ∅ from hx.symm]) (hm' x)
  | some s =>
    cases h2 : m'.lookup x with
    | none =>
      rw [h1, h2] at hx
      exact absurd (by rw [h1, show s = ∅ from hx]) (hm x)
    | some s' =>
      rw [h1, h2] at hx
      rw [show s = s' from hx]

/-! ## 3. Whole lists of updates

A list of updates is applied from the left.  Removing the keys a list put in gives the map back
exactly when they were not there before, and putting back what the keys of a list held gives the
map back after a removal: the three pairs below are what makes connecting and disconnecting
inverse to each other. -/

/-- Insert every pair; later ones win. -/
def insertAll (l : List (K × V)) (m : Map K V) : Map K V :=
  l.foldl (fun m e => m.insert e.1 e.2) m

/-- Insert every pair whose key is missing; earlier ones win. -/
def orInsertAll (l : List (K × V)) (m : Map K V) : Map K V :=
  l.foldl (fun m e => orInsert m e.1 e.2) m

/-- Remove every key. -/
def eraseAll (l : List K) (m : Map K V) : Map K V := l.foldl (fun m k => m.erase k) m

/-- Insert every pair into its bucket. -/
def bucketInsertAll (l : List (H × K)) (m : Map H (Finset K)) : Map H (Finset K) :=
  l.foldl (fun m e => bucketInsert m e.1 e.2) m

/-- Remove every pair from its bucket. -/
def bucketRemoveAll (l : List (H × K)) (m : Map H (Finset K)) : Map H (Finset K) :=
  l.foldl (fun m e => bucketRemove m e.1 e.2) m

theorem eraseAll_append (l l' : List K) (m : Map K V) :
    eraseAll (l ++ l') m = eraseAll l' (eraseAll l m) :=
  foldl_append

theorem lookup_eraseAll : ∀ (l : List K) (m : Map K V) (k : K),
    (eraseAll l m).lookup k = if k ∈ l then none else m.lookup k
  | [], m, k => by simp [eraseAll]
  | a :: t, m, k => by
    have ih := lookup_eraseAll t (m.erase a) k
    change (eraseAll t (m.erase a)).lookup k = _
    rw [ih, lookup_erase_ite]
    by_cases hk : k = a
    · simp [hk]
    · simp [hk]

/-- The value of the last pair with the key. -/
def latest : List (K × V) → K → Option V
  | [], _ => none
  | e :: t, k => (latest t k).or (if e.1 = k then some e.2 else none)

variable {k : K}

theorem latest_eq_none_iff : ∀ {l : List (K × V)}, latest l k = none ↔ k ∉ l.map Prod.fst
  | [] => by simp [latest]
  | e :: t => by
    rw [latest, or_eq_none_iff, latest_eq_none_iff]
    simp [and_comm, eq_comm]

theorem mem_of_latest : ∀ {l : List (K × V)}, latest l k = some v → (k, v) ∈ l
  | e :: t, h => by
    rw [latest] at h
    rcases or_eq_some_iff.mp h with ht | ⟨-, he⟩
    · exact .tail _ (mem_of_latest ht)
    · split_ifs at he with hk
      rw [← hk, ← Option.some.inj he]
      exact .head _

theorem latest_filter (p : K → Bool) (k : K) : ∀ l : List (K × V),
    latest (l.filter fun e => p e.1) k = if p k = true then latest l k else none
  | [] => by simp [latest]
  | e :: t => by
    have ih := latest_filter p k t
    rw [List.filter_cons]
    by_cases hk : e.1 = k
    · subst hk
      by_cases hp : p e.1 = true
      · simp only [hp, if_true, latest, ih]
      · simp only [hp, Bool.false_eq_true, if_false, ih]
    · split
      · simp only [latest, ih, if_neg hk, or_none]
      · simp only [latest, ih, if_neg hk, or_none]

theorem lookup_insertAll : ∀ (l : List (K × V)) (m : Map K V) (k : K),
    (insertAll l m).lookup k = (latest l k).or (m.lookup k)
  | [], _, _ => rfl
  | e :: t, m, k => by
    change (insertAll t (m.insert e.1 e.2)).lookup k = _
    rw [lookup_insertAll t, lookup_insert_ite, latest]
    by_cases hk : k = e.1
    · rw [if_pos hk, if_pos hk.symm, Option.or_assoc, some_or]
    · rw [if_neg hk, if_neg (Ne.symm hk), or_none]

variable {m : Map K V}

theorem lookup_insertAll_of_notMem
    (h : k ∉ l.map Prod.fst) : (insertAll l m).lookup k = m.lookup k := by
  rw [lookup_insertAll, latest_eq_none_iff.mpr h, none_or]

theorem lookup_insertAll_of_mem (hv : ∀ e ∈ l, e.1 = k → e.2 = v) (hk : k ∈ l.map Prod.fst) :
    (insertAll l m).lookup k = some v := by
  cases hlast : latest l k with
  | none => exact absurd hk (latest_eq_none_iff.mp hlast)
  | some w =>
    rw [lookup_insertAll, hlast, some_or]
    exact congrArg some (hv _ (mem_of_latest hlast) rfl)

theorem mem_or_of_lookup_insertAll
    (h : (insertAll l m).lookup k = some v) : (k, v) ∈ l ∨ m.lookup k = some v := by
  rw [lookup_insertAll] at h
  rcases or_eq_some_iff.mp h with hlast | ⟨-, hold⟩
  · exact .inl (mem_of_latest hlast)
  · exact .inr hold

theorem lookup_orInsertAll : ∀ (l : List (K × V)) (m : Map K V) (k : K),
    (orInsertAll l m).lookup k =
      (m.lookup k).or ((l.find? fun e => decide (e.1 = k)).map Prod.snd)
  | [], m, k => by simp [orInsertAll]
  | e :: t, m, k => by
    have ih := lookup_orInsertAll t (orInsert m e.1 e.2) k
    change (orInsertAll t (orInsert m e.1 e.2)).lookup k = _
    rw [ih, lookup_orInsert]
    by_cases hk : k = e.1
    · subst hk
      cases m.lookup e.1 with
      | none => simp
      | some v => simp
    · have hk' : ¬e.1 = k := fun h => hk h.symm
      simp [hk, hk']

theorem bucket_bucketInsertAll : ∀ (l : List (H × K)) (m : Map H (Finset K)) (h : H) (k : K),
    k ∈ bucket (bucketInsertAll l m) h ↔ k ∈ bucket m h ∨ (h, k) ∈ l
  | [], m, h, k => by simp [bucketInsertAll]
  | e :: t, m, h, k => by
    have ih := bucket_bucketInsertAll t (bucketInsert m e.1 e.2) h k
    change k ∈ bucket (bucketInsertAll t (bucketInsert m e.1 e.2)) h ↔ _
    rw [ih, bucket_bucketInsert, List.mem_cons, Prod.ext_iff]
    by_cases hh : h = e.1
    · simp only [hh, if_true, mem_insert, true_and]
      tauto
    · simp only [hh, if_false, false_and, false_or]

theorem bucket_bucketRemoveAll : ∀ (l : List (H × K)) (m : Map H (Finset K)) (h : H) (k : K),
    k ∈ bucket (bucketRemoveAll l m) h ↔ k ∈ bucket m h ∧ (h, k) ∉ l
  | [], m, h, k => by simp [bucketRemoveAll]
  | e :: t, m, h, k => by
    have ih := bucket_bucketRemoveAll t (bucketRemove m e.1 e.2) h k
    change k ∈ bucket (bucketRemoveAll t (bucketRemove m e.1 e.2)) h ↔ _
    rw [ih, bucket_bucketRemove, List.mem_cons, Prod.ext_iff]
    by_cases hh : h = e.1
    · simp only [hh, if_true, mem_erase, true_and]
      tauto
    · simp only [hh, if_false, false_and, false_or]

theorem NoEmptyBucket.bucketInsertAll : ∀ (l : List (H × K)) {m : Map H (Finset K)},
    NoEmptyBucket m → NoEmptyBucket (bucketInsertAll l m)
  | [], _, hm => hm
  | e :: t, _, hm => NoEmptyBucket.bucketInsertAll t (hm.bucketInsert e.1 e.2)

theorem NoEmptyBucket.bucketRemoveAll : ∀ (l : List (H × K)) {m : Map H (Finset K)},
    NoEmptyBucket m → NoEmptyBucket (bucketRemoveAll l m)
  | [], _, hm => hm
  | e :: t, _, hm => NoEmptyBucket.bucketRemoveAll t (hm.bucketRemove e.1 e.2)

/-! ## 4. Undoing a list of updates -/

/-- **Undoing updates.**  If only the listed keys have changed, removing them restores the map iff
they were new. -/
theorem eraseAll_eq_iff {m' : Map K V} (h : ∀ k, k ∉ l.map Prod.fst → m'.lookup k = m.lookup k) :
    eraseAll (l.map Prod.fst) m' = m ↔ ∀ e ∈ l, m.lookup e.1 = none := by
  constructor
  · intro heq e he
    rw [← heq, lookup_eraseAll, if_pos (List.mem_map_of_mem he)]
  · intro hnew
    refine Finmap.ext_lookup fun k => ?_
    rw [lookup_eraseAll]
    split_ifs with hk
    · obtain ⟨e, he, rfl⟩ := List.mem_map.mp hk
      exact (hnew e he).symm
    · exact h k hk

theorem eraseAll_insertAll_eq_iff :
    eraseAll (l.map Prod.fst) (insertAll l m) = m ↔ ∀ e ∈ l, m.lookup e.1 = none :=
  eraseAll_eq_iff fun _ => lookup_insertAll_of_notMem

theorem eraseAll_orInsertAll_eq_iff :
    eraseAll (l.map Prod.fst) (orInsertAll l m) = m ↔ ∀ e ∈ l, m.lookup e.1 = none := by
  refine eraseAll_eq_iff fun k hk => ?_
  have hnone : l.find? (fun e => decide (e.1 = k)) = none := by
    rw [find?_eq_none]
    intro e he heq
    exact hk (List.mem_map.mpr ⟨e, he, of_decide_eq_true heq⟩)
  rw [lookup_orInsertAll, hnone, map_none, or_none]

theorem bucketRemoveAll_bucketInsertAll_eq_iff {l : List (H × K)} {m : Map H (Finset K)}
    (hm : NoEmptyBucket m) :
    bucketRemoveAll l (bucketInsertAll l m) = m ↔ ∀ e ∈ l, e.2 ∉ bucket m e.1 := by
  constructor
  · intro h e he hmem
    rw [← h, bucket_bucketRemoveAll] at hmem
    exact hmem.2 he
  · intro h
    refine ext_bucket ((hm.bucketInsertAll l).bucketRemoveAll l) hm fun x => Finset.ext fun k => ?_
    rw [bucket_bucketRemoveAll, bucket_bucketInsertAll]
    have hnew := h (x, k)
    tauto

/-! ## 5. The largest value -/

/-- `values().copied().max().unwrap_or(0)`. -/
def peak (m : Map K Nat) : Nat := m.keys.sup fun k => (m.lookup k).getD 0

theorem le_peak {m : Map K Nat} {n : Nat} (h : m.lookup k = some n) : n ≤ peak m := by
  have hmem : k ∈ m.keys := by
    rw [Finmap.mem_keys, ← Finmap.lookup_isSome, h]
    rfl
  have hle : (m.lookup k).getD 0 ≤ peak m :=
    le_sup (f := fun k => (m.lookup k).getD 0) hmem
  rwa [h, getD_some] at hle

theorem peak_of_keys_eq_empty {m : Map K Nat} (h : m.keys = ∅) : peak m = 0 := by
  rw [peak, h, sup_empty]
  rfl

theorem exists_peak {m : Map K Nat} (h : m.keys ≠ ∅) : ∃ k, m.lookup k = some (peak m) := by
  obtain ⟨k, hk, heq⟩ := exists_mem_eq_sup m.keys (nonempty_iff_ne_empty.mpr h)
    fun k => (m.lookup k).getD 0
  rw [Finmap.mem_keys, ← Finmap.lookup_isSome] at hk
  obtain ⟨n, hn⟩ := isSome_iff_exists.mp hk
  refine ⟨k, ?_⟩
  rw [peak, heq, hn, getD_some]

/-! ## 6. Keys -/

theorem mem_keys_iff : k ∈ m.keys ↔ ∃ v, m.lookup k = some v := by
  rw [Finmap.mem_keys, ← Finmap.lookup_isSome, isSome_iff_exists]

theorem keys_insert_eq (m : Map K V) (k : K) (v : V) : (m.insert k v).keys = insert k m.keys := by
  ext k'
  rw [mem_insert, Finmap.mem_keys, Finmap.mem_insert, Finmap.mem_keys]

theorem keys_erase_eq (m : Map K V) (k : K) : (m.erase k).keys = m.keys.erase k := by
  ext k'
  rw [mem_erase, Finmap.mem_keys, Finmap.mem_erase, Finmap.mem_keys]

theorem mem_keys_retain : k ∈ (retain p m).keys ↔ ∃ v, m.lookup k = some v ∧ p k v = true := by
  rw [mem_keys_iff, lookup_retain]
  simp only [filter_eq_some_iff]

/-! ## 7. Collecting keys and removing them -/

/-- The keys whose entries pass a test. -/
def keysWhere (p : K → V → Bool) (m : Map K V) : Finset K :=
  m.keys.filter fun k => (m.lookup k).any (p k)

/-- Remove the keys of a set. -/
def discard (removed : Finset K) (m : Map K V) : Map K V :=
  retain (fun k _ => decide (k ∉ removed)) m

theorem mem_keysWhere : k ∈ keysWhere p m ↔ ∃ v, m.lookup k = some v ∧ p k v = true := by
  rw [keysWhere, Finset.mem_filter, mem_keys_iff]
  constructor
  · rintro ⟨⟨v, hv⟩, hp⟩
    rw [hv] at hp
    exact ⟨v, hv, hp⟩
  · rintro ⟨v, hv, hp⟩
    rw [hv]
    exact ⟨⟨v, rfl⟩, hp⟩

theorem lookup_discard (removed : Finset K) (m : Map K V) (k : K) :
    (discard removed m).lookup k = if k ∈ removed then none else m.lookup k := by
  rw [discard, lookup_retain]
  split_ifs with hk
  · cases m.lookup k <;> simp [hk]
  · cases m.lookup k <;> simp [hk]

/-- **Removing what passes a test keeps what fails it.** -/
theorem lookup_discard_keysWhere (p : K → V → Bool) (m : Map K V) (k : K) :
    (discard (keysWhere p m) m).lookup k = (m.lookup k).filter fun v => !p k v := by
  rw [lookup_discard]
  split_ifs with hk
  · obtain ⟨v, hv, hp⟩ := mem_keysWhere.mp hk
    simp [hv, filter_some, hp]
  · cases hv : m.lookup k with
    | none => rfl
    | some v =>
      have hp : p k v ≠ true := fun hp => hk (mem_keysWhere.mpr ⟨v, hv, hp⟩)
      simp [filter_some, hp]

/-! ## 8. Counting values -/

theorem keysWhere_erase (p : K → V → Bool) (m : Map K V) (k : K) :
    keysWhere p (m.erase k) = (keysWhere p m).erase k := by
  ext k'
  rw [mem_erase, mem_keysWhere, mem_keysWhere, lookup_erase_ite]
  by_cases hk : k' = k
  · simp [hk]
  · simp [hk]

theorem keysWhere_insert (p : K → V → Bool) (m : Map K V) (k : K) (v : V) :
    keysWhere p (m.insert k v) =
      if p k v = true then insert k ((keysWhere p m).erase k) else (keysWhere p m).erase k := by
  ext k'
  rw [mem_keysWhere, lookup_insert_ite]
  by_cases hk : k' = k
  · subst hk
    by_cases hp : p k' v = true
    · simp [hp]
    · simp [hp]
  · split_ifs
    · rw [mem_insert, mem_erase, mem_keysWhere]
      simp [hk]
    · rw [mem_erase, mem_keysWhere]
      simp [hk]

/-- How many entries have a value that passes a test. -/
def count (p : V → Bool) (m : Map K V) : Nat := (keysWhere (fun _ => p) m).card

@[simp] theorem count_empty (p : V → Bool) : count p (∅ : Map K V) = 0 := by
  rw [count, keysWhere, Finmap.keys_empty, filter_empty, card_empty]

variable {p : V → Bool}

theorem count_insert_of_new (hnew : m.lookup k = none) :
    count p (m.insert k v) = count p m + if p v = true then 1 else 0 := by
  have hk : k ∉ keysWhere (fun _ => p) m := by
    rw [mem_keysWhere, hnew]
    rintro ⟨w, hw, -⟩
    cases hw
  rw [count, keysWhere_insert, erase_eq_of_notMem hk]
  split_ifs
  · exact card_insert_of_notMem hk
  · rfl

theorem count_erase_add (hold : m.lookup k = some v) :
    count p (m.erase k) + (if p v = true then 1 else 0) = count p m := by
  rw [count, keysWhere_erase]
  split_ifs with hp
  · exact card_erase_add_one (mem_keysWhere.mpr ⟨v, hold, hp⟩)
  · have hk : k ∉ keysWhere (fun _ => p) m := by
      rw [mem_keysWhere, hold]
      rintro ⟨w, hw, hpw⟩
      cases hw
      exact hp hpw
    rw [erase_eq_of_notMem hk]
    rfl

theorem count_pos_iff : 0 < count p m ↔ ∃ k v, m.lookup k = some v ∧ p v = true := by
  rw [count, card_pos, Finset.Nonempty]
  simp only [mem_keysWhere]

end Map

end Coincync.Lib
