/-
# Ordered maps

A map that is walked in the order of its keys: a list of entries with rising keys, which is a field
of the structure, so that a list out of order or with a key twice is not a map.  Lookups through an
update are computed by `simp` (`lookup_insert`, `lookup_remove`); what a walk over the map adds up
changes by the one entry an update touches (`total_insert`, `total_remove`).
-/
import Mathlib

namespace Coincync.Lib

open List

/-- A map with its entries in the order of the keys. -/
structure OrdMap (K V : Type) [LinearOrder K] where
  entries : List (K × V)
  sorted : entries.Pairwise fun a b => a.1 < b.1

namespace OrdMap

variable {K V : Type} [LinearOrder K]

/-! ## 1. Operations -/

def empty : OrdMap K V := ⟨[], .nil⟩

/-- The value at a key. -/
def lookup (m : OrdMap K V) (k : K) : Option V := (m.entries.find? fun e => e.1 = k).map Prod.snd

/-- Put an entry in its place, over the entry of the same key. -/
def insertEntry (k : K) (v : V) : List (K × V) → List (K × V)
  | [] => [(k, v)]
  | e :: t =>
    if k < e.1 then (k, v) :: e :: t
    else if e.1 < k then e :: insertEntry k v t
    else (k, v) :: t

variable {m : OrdMap K V} {l : List (K × V)} {k : K} {v : V}

theorem mem_insertEntry (hl : l.Pairwise fun a b => a.1 < b.1) {e : K × V} :
    e ∈ insertEntry k v l ↔ e = (k, v) ∨ e ∈ l ∧ e.1 ≠ k := by
  induction l with
  | nil => simp [insertEntry]
  | cons a t ih =>
    obtain ⟨hat, ht⟩ := pairwise_cons.mp hl
    unfold insertEntry
    split_ifs with hlt hgt
    · -- every key of the list is above the new one
      have hne : ∀ b ∈ a :: t, b.1 ≠ k := by
        intro b hb
        rcases mem_cons.mp hb with rfl | hb
        · exact ne_of_gt hlt
        · exact ne_of_gt (hlt.trans (hat b hb))
      constructor
      · intro h
        rcases mem_cons.mp h with rfl | h
        · exact .inl rfl
        · exact .inr ⟨h, hne e h⟩
      · rintro (rfl | ⟨h, -⟩)
        · exact .head _
        · exact .tail _ h
    · rw [mem_cons, ih ht, mem_cons]
      constructor
      · rintro (rfl | rfl | ⟨h, hk⟩)
        · exact .inr ⟨.inl rfl, ne_of_lt hgt⟩
        · exact .inl rfl
        · exact .inr ⟨.inr h, hk⟩
      · rintro (rfl | ⟨rfl | h, hk⟩)
        · exact .inr (.inl rfl)
        · exact .inl rfl
        · exact .inr (.inr ⟨h, hk⟩)
    · -- the new entry takes the place of the first
      have hk : a.1 = k := le_antisymm (not_lt.mp hlt) (not_lt.mp hgt)
      rw [mem_cons, mem_cons]
      constructor
      · rintro (rfl | h)
        · exact .inl rfl
        · exact .inr ⟨.inr h, hk ▸ ne_of_gt (hat e h)⟩
      · rintro (rfl | ⟨rfl | h, hne⟩)
        · exact .inl rfl
        · exact absurd hk hne
        · exact .inr h

theorem pairwise_insertEntry (hl : l.Pairwise fun a b => a.1 < b.1) :
    (insertEntry k v l).Pairwise fun a b => a.1 < b.1 := by
  induction l with
  | nil => simp [insertEntry]
  | cons a t ih =>
    obtain ⟨hat, ht⟩ := pairwise_cons.mp hl
    unfold insertEntry
    split_ifs with hlt hgt
    · refine pairwise_cons.mpr ⟨?_, hl⟩
      intro b hb
      rcases mem_cons.mp hb with rfl | hb
      · exact hlt
      · exact hlt.trans (hat b hb)
    · refine pairwise_cons.mpr ⟨?_, ih ht⟩
      intro b hb
      rcases (mem_insertEntry ht).mp hb with rfl | ⟨hb, -⟩
      · exact hgt
      · exact hat b hb
    · have hk : a.1 = k := le_antisymm (not_lt.mp hlt) (not_lt.mp hgt)
      exact pairwise_cons.mpr ⟨fun b hb => hk ▸ hat b hb, ht⟩

/-- Insert, over the value already there. -/
def insert (m : OrdMap K V) (k : K) (v : V) : OrdMap K V :=
  ⟨insertEntry k v m.entries, pairwise_insertEntry m.sorted⟩

/-- Remove a key. -/
def remove (m : OrdMap K V) (k : K) : OrdMap K V :=
  ⟨m.entries.filter fun e => e.1 ≠ k, m.sorted.filter _⟩

/-- The keys, in order. -/
def keys (m : OrdMap K V) : List K := m.entries.map Prod.fst

/-- The values, in the order of the keys. -/
def values (m : OrdMap K V) : List V := m.entries.map Prod.snd

/-- No entries. -/
def isEmpty (m : OrdMap K V) : Bool := m.entries.isEmpty

/-! ## 2. Lookups -/

theorem nodup_keys (m : OrdMap K V) : m.keys.Nodup :=
  pairwise_map.mpr (m.sorted.imp ne_of_lt)

theorem lookup_eq_some_iff : m.lookup k = some v ↔ (k, v) ∈ m.entries := by
  unfold lookup
  constructor
  · intro h
    obtain ⟨e, he, rfl⟩ := Option.map_eq_some_iff.mp h
    have hk : e.1 = k := by simpa using find?_some he
    exact hk ▸ mem_of_find?_eq_some he
  · intro h
    cases hf : m.entries.find? fun e => e.1 = k with
    | none =>
      have := find?_eq_none.mp hf (k, v) h
      simp at this
    | some e =>
      have hk : e.1 = k := by simpa using find?_some hf
      have hmem := mem_of_find?_eq_some hf
      have hv : e.2 = v := congrArg Prod.snd (inj_on_of_nodup_map m.nodup_keys hmem h hk)
      simp [hv]

theorem lookup_eq_none_iff : m.lookup k = none ↔ ∀ v, (k, v) ∉ m.entries := by
  rw [Option.eq_none_iff_forall_ne_some]
  exact forall_congr' fun v => not_congr lookup_eq_some_iff

@[simp] theorem lookup_empty (k : K) : (empty : OrdMap K V).lookup k = none := rfl

theorem lookup_insert (m : OrdMap K V) (k k' : K) (v : V) :
    (m.insert k v).lookup k' = if k' = k then some v else m.lookup k' := by
  ext w
  rw [lookup_eq_some_iff, insert, mem_insertEntry m.sorted]
  by_cases h : k' = k
  · subst h
    simp [eq_comm]
  · simp [h, lookup_eq_some_iff]

theorem lookup_remove (m : OrdMap K V) (k k' : K) :
    (m.remove k).lookup k' = if k' = k then none else m.lookup k' := by
  ext w
  rw [lookup_eq_some_iff, remove, mem_filter]
  by_cases h : k' = k
  · simp [h]
  · simp [h, lookup_eq_some_iff]

theorem mem_keys : k ∈ m.keys ↔ (m.lookup k).isSome = true := by
  rw [Option.isSome_iff_exists, keys, mem_map]
  constructor
  · rintro ⟨e, he, rfl⟩
    exact ⟨e.2, lookup_eq_some_iff.mpr he⟩
  · rintro ⟨v, hv⟩
    exact ⟨(k, v), lookup_eq_some_iff.mp hv, rfl⟩

theorem filterMap_keys (m : OrdMap K V) : m.keys.filterMap m.lookup = m.values := by
  rw [keys, values, filterMap_map, ← filterMap_eq_map]
  refine filterMap_congr fun e he => ?_
  exact lookup_eq_some_iff.mpr he

/-! ## 3. Totals -/

/-- What `f` adds up to over the values. -/
def total (f : V → Nat) (m : OrdMap K V) : Nat := (m.values.map f).sum

section

variable (f : V → Nat)
include f

theorem total_eq (m : OrdMap K V) :
    m.total f = (m.entries.map fun e => f e.2).sum := by
  rw [total, values, map_map]
  rfl

theorem sum_insertEntry (v : V) (h : ∀ w, (k, w) ∉ l) :
    ((insertEntry k v l).map fun e => f e.2).sum = f v + (l.map fun e => f e.2).sum := by
  induction l with
  | nil => simp [insertEntry]
  | cons a t ih =>
    unfold insertEntry
    split_ifs with hlt hgt
    · simp
    · have ht := ih fun w hw => h w (.tail _ hw)
      simp only [map_cons, sum_cons, ht]
      omega
    · -- the key would be there already
      have hk : a.1 = k := le_antisymm (not_lt.mp hlt) (not_lt.mp hgt)
      exact absurd (.head _) (hk ▸ h a.2)

theorem total_insert (v : V) (h : m.lookup k = none) :
    (m.insert k v).total f = f v + m.total f := by
  rw [total_eq, total_eq, insert, sum_insertEntry f v (lookup_eq_none_iff.mp h)]

theorem sum_filter_ne (hl : l.Pairwise fun a b => a.1 < b.1) (h : (k, v) ∈ l) :
    (l.map fun e => f e.2).sum = f v + ((l.filter fun e => e.1 ≠ k).map fun e => f e.2).sum := by
  induction l with
  | nil => cases h
  | cons a t ih =>
    obtain ⟨hat, ht⟩ := pairwise_cons.mp hl
    rcases mem_cons.mp h with rfl | h
    · -- nothing else has this key
      have hrest : t.filter (fun e => e.1 ≠ k) = t := by
        rw [filter_eq_self]
        intro e he
        simpa using ne_of_gt (hat e he)
      rw [filter_cons_of_neg (by simp), hrest, map_cons, sum_cons]
    · have hak : a.1 ≠ k := ne_of_lt (hat _ h)
      rw [filter_cons_of_pos (by simpa using hak)]
      simp only [map_cons, sum_cons, ih ht h]
      omega

theorem total_remove (h : m.lookup k = some v) :
    m.total f = f v + (m.remove k).total f := by
  rw [total_eq, total_eq, remove, sum_filter_ne f m.sorted (lookup_eq_some_iff.mp h)]

theorem total_eq_zero_of_isEmpty (h : m.isEmpty = true) : m.total f = 0 := by
  rw [total_eq, List.isEmpty_iff.mp h]
  rfl

end

end OrdMap

end Coincync.Lib
