/-
# Maps that hold what a list says

A map is often the index of a list: it holds the value of every element under the element's key,
and nothing else.  Said that way (`Lists`), updates are list operations -- inserting the keys of
new elements puts them in front of the list, removing the keys of the front drops it -- and a map
is determined by the list (`Lists.ext`).  If the keys rise along the list, walking the map in the
order of its keys gives the list back (`Lists.inOrder_eq`).  `ListsBuckets` is the same for maps of
sets.
-/
import Coincync.Lib.Maps

namespace Coincync.Lib.Map

open List Option

variable {K V H α : Type} [DecidableEq K] [DecidableEq H]

/-! ## 1. Maps -/

/-- **The map holds exactly the elements of the list**, with key `f` and value `g`. -/
def Lists (m : Map K V) (l : List α) (f : α → K) (g : α → V) : Prop :=
  ∀ k v, m.lookup k = some v ↔ ∃ a ∈ l, f a = k ∧ g a = v

section

variable {m m' : Map K V} {l new old : List α} {f : α → K} {g : α → V}

theorem lists_empty (f : α → K) (g : α → V) : Lists ∅ [] f g := by
  intro k v
  rw [Finmap.lookup_empty]
  simp

theorem Lists.ext (h : Lists m l f g) (h' : Lists m' l f g) : m = m' := by
  refine Finmap.ext_lookup fun k => Option.ext fun v => ?_
  exact (h k v).trans (h' k v).symm

theorem Lists.congr {l' : List α} (h : Lists m l f g) (hmem : ∀ a, a ∈ l' ↔ a ∈ l) :
    Lists m l' f g := by
  intro k v
  simp only [h k v, hmem]

theorem Lists.lookup (h : Lists m l f g) {a : α} (ha : a ∈ l) : m.lookup (f a) = some (g a) :=
  (h (f a) (g a)).mpr ⟨a, ha, rfl, rfl⟩

theorem Lists.lookup_eq_none (h : Lists m l f g) {k : K} (hk : ∀ a ∈ l, f a ≠ k) :
    m.lookup k = none := by
  cases hm : m.lookup k with
  | none => rfl
  | some v =>
    obtain ⟨a, ha, hak, -⟩ := (h k v).mp hm
    exact absurd hak (hk a ha)

omit [DecidableEq K] in
theorem exists_mem_append {P : α → Prop} :
    (∃ a ∈ new ++ l, P a) ↔ (∃ a ∈ new, P a) ∨ ∃ a ∈ l, P a := by
  simp only [mem_append, or_and_right, exists_or]

section

variable (h : Lists m l f g) (hnd : ((new ++ l).map f).Nodup)
include h hnd

theorem Lists.of_update (hnew : ∀ a ∈ new, m'.lookup (f a) = some (g a))
    (hold : ∀ k, k ∉ new.map f → m'.lookup k = m.lookup k) : Lists m' (new ++ l) f g := by
  rw [map_append] at hnd
  have hdisjoint := (nodup_append.mp hnd).2.2
  intro k v
  rw [exists_mem_append]
  by_cases hk : k ∈ new.map f
  · obtain ⟨a, ha, rfl⟩ := List.mem_map.mp hk
    rw [hnew a ha, Option.some.injEq]
    constructor
    · rintro rfl
      exact .inl ⟨a, ha, rfl, rfl⟩
    · rintro (⟨b, hb, hba, rfl⟩ | ⟨b, hb, hba, -⟩)
      · rw [inj_on_of_nodup_map (List.Nodup.of_append_left hnd) hb ha hba]
      · exact absurd hba.symm (hdisjoint _ (List.mem_map_of_mem ha) _ (List.mem_map_of_mem hb))
  · rw [hold k hk, h k v]
    refine (or_iff_right ?_).symm
    rintro ⟨a, ha, rfl, -⟩
    exact hk (List.mem_map_of_mem ha)

theorem Lists.insertAll :
    Lists (Map.insertAll (new.map fun a => (f a, g a)) m) (new ++ l) f g := by
  have hnd' : (new.map f).Nodup := by
    rw [map_append] at hnd
    exact List.Nodup.of_append_left hnd
  refine h.of_update hnd (fun a ha => ?_) fun k hk => ?_
  · refine lookup_insertAll_of_mem (fun e he heq => ?_) (by simpa using ⟨a, ha, rfl⟩)
    obtain ⟨b, hb, rfl⟩ := List.mem_map.mp he
    rw [inj_on_of_nodup_map hnd' hb ha heq]
  · refine lookup_insertAll_of_notMem ?_
    simpa using hk

theorem Lists.orInsertAll :
    Lists (Map.orInsertAll (new.map fun a => (f a, g a)) m) (new ++ l) f g := by
  rw [map_append] at hnd
  have hnd' := List.Nodup.of_append_left hnd
  have hdisjoint := (nodup_append.mp hnd).2.2
  rw [← map_append] at hnd
  refine h.of_update hnd (fun a ha => ?_) fun k hk => ?_
  · have hnone : m.lookup (f a) = none := h.lookup_eq_none fun b hb heq =>
      hdisjoint _ (List.mem_map_of_mem ha) _ (List.mem_map_of_mem hb) heq.symm
    rw [lookup_orInsertAll, hnone, none_or]
    cases hf : (new.map fun a => (f a, g a)).find? fun e => decide (e.1 = f a) with
    | none =>
      rw [find?_eq_none] at hf
      exact absurd (decide_eq_true rfl) (hf (f a, g a) (List.mem_map_of_mem ha))
    | some e =>
      obtain ⟨b, hb, rfl⟩ := List.mem_map.mp (mem_of_find?_eq_some hf)
      have heq : f b = f a := by simpa using find?_some hf
      rw [inj_on_of_nodup_map hnd' hb ha heq]
      rfl
  · have hnone : (new.map fun a => (f a, g a)).find? (fun e => decide (e.1 = k)) = none := by
      rw [find?_eq_none]
      intro e he heq
      obtain ⟨a, ha, rfl⟩ := List.mem_map.mp he
      exact hk (List.mem_map.mpr ⟨a, ha, of_decide_eq_true heq⟩)
    rw [lookup_orInsertAll, hnone, map_none, or_none]

end

theorem Lists.eraseAll (h : Lists m (old ++ l) f g) (hnd : ((old ++ l).map f).Nodup) :
    Lists (Map.eraseAll (old.map f) m) l f g := by
  rw [map_append] at hnd
  have hdisjoint := (nodup_append.mp hnd).2.2
  intro k v
  rw [lookup_eraseAll]
  split_ifs with hk
  · refine iff_of_false not_false ?_
    rintro ⟨a, ha, rfl, -⟩
    exact hdisjoint _ hk _ (List.mem_map_of_mem ha) rfl
  · rw [h k v, exists_mem_append]
    refine or_iff_right ?_
    rintro ⟨a, ha, rfl, -⟩
    exact hk (List.mem_map_of_mem ha)

theorem Lists.retain (h : Lists m l f g) (p : V → Bool) :
    Lists (Map.retain (fun _ v => p v) m) (l.filter fun a => p (g a)) f g := by
  intro k v
  rw [lookup_retain, filter_eq_some_iff, h k v]
  constructor
  · rintro ⟨⟨a, ha, rfl, rfl⟩, hp⟩
    exact ⟨a, mem_filter.mpr ⟨ha, hp⟩, rfl, rfl⟩
  · rintro ⟨a, ha, rfl, rfl⟩
    obtain ⟨ha, hp⟩ := mem_filter.mp ha
    exact ⟨⟨a, ha, rfl, rfl⟩, hp⟩

/-- The values in the order of the keys. -/
def inOrder [LinearOrder K] (m : Map K V) : List V := (m.keys.sort (· ≤ ·)).filterMap m.lookup

/-- **A list with rising keys is read back in order.** -/
theorem Lists.inOrder_eq [LinearOrder K] {l : List V} {f : V → K} (h : Lists m l f id)
    (hl : l.Pairwise fun a b => f a < f b) : inOrder m = l := by
  have hsorted : (l.map f).SortedLT := (pairwise_map.mpr hl).sortedLT
  have hkeys : m.keys.sort (· ≤ ·) = l.map f := by
    refine m.keys.sortedLT_sort.eq_of_mem_iff hsorted fun k => ?_
    rw [Finset.mem_sort, mem_keys_iff, List.mem_map]
    constructor
    · rintro ⟨v, hv⟩
      obtain ⟨a, ha, hk, -⟩ := (h k v).mp hv
      exact ⟨a, ha, hk⟩
    · rintro ⟨a, ha, rfl⟩
      exact ⟨a, h.lookup ha⟩
  rw [inOrder, hkeys, filterMap_map]
  calc l.filterMap (m.lookup ∘ f) = l.filterMap some :=
        filterMap_congr fun a ha => h.lookup ha
    _ = l := filterMap_some

end

/-! ## 2. Maps that list a part -/

/-- **Every key of the map is the key of an element of the list.** -/
def Within (m : Map K V) (l : List α) (f : α → K) : Prop :=
  ∀ k v, m.lookup k = some v → k ∈ l.map f

section

variable {m : Map K V} {l l' new old : List α} {f : α → K}

/-- **Every entry of the map comes from an element of the list**, with key `f` and value `g`. -/
def Drawn {V : Type} (m : Map K V) (l : List α) (f : α → K) (g : α → V) : Prop :=
  ∀ k v, m.lookup k = some v → ∃ a ∈ l, f a = k ∧ g a = v

section

variable {g : α → V}

theorem drawn_empty (l : List α) (f : α → K) (g : α → V) : Drawn ∅ l f g := by
  intro k v hk
  rw [Finmap.lookup_empty] at hk
  cases hk

theorem Drawn.mono (h : Drawn m l f g) (hsub : l ⊆ l') : Drawn m l' f g := by
  intro k v hk
  obtain ⟨a, ha, hkey, hval⟩ := h k v hk
  exact ⟨a, hsub ha, hkey, hval⟩

theorem Drawn.insertAll (h : Drawn m l f g) :
    Drawn (Map.insertAll (new.map fun a => (f a, g a)) m) (new ++ l) f g := by
  intro k v hk
  rcases mem_or_of_lookup_insertAll hk with hmem | hold
  · obtain ⟨a, ha, heq⟩ := List.mem_map.mp hmem
    cases heq
    exact ⟨a, mem_append_left _ ha, rfl, rfl⟩
  · exact h.mono (subset_append_right new l) k v hold

theorem Drawn.orInsertAll (h : Drawn m l f g) :
    Drawn (Map.orInsertAll (new.map fun a => (f a, g a)) m) (new ++ l) f g := by
  intro k v hk
  rw [lookup_orInsertAll] at hk
  rcases or_eq_some_iff.mp hk with hold | ⟨-, hnew⟩
  · exact h.mono (subset_append_right new l) k v hold
  · obtain ⟨e, he, rfl⟩ := map_eq_some_iff.mp hnew
    obtain ⟨a, ha, rfl⟩ := List.mem_map.mp (mem_of_find?_eq_some he)
    have hkey := find?_some he
    rw [decide_eq_true_iff] at hkey
    exact ⟨a, mem_append_left _ ha, hkey, rfl⟩

theorem Drawn.within (h : Drawn m l f g) : Within m l f := by
  intro k v hk
  obtain ⟨a, ha, rfl, -⟩ := h k v hk
  exact List.mem_map_of_mem ha

theorem Lists.drawn (h : Lists m l f g) : Drawn m l f g := fun k v hk => (h k v).mp hk

theorem Drawn.insertPairs {pairs : List (K × V)} (h : Drawn m l f g)
    (hpairs : ∀ e ∈ pairs, ∃ a ∈ l, f a = e.1 ∧ g a = e.2) : Drawn (Map.insertAll pairs m) l f g := by
  intro k v hk
  rcases mem_or_of_lookup_insertAll hk with hmem | hold
  · exact hpairs (k, v) hmem
  · exact h k v hold

theorem Drawn.erased (h : Drawn m l f g) (keys : List K) : Drawn (Map.eraseAll keys m) l f g := by
  intro k v hk
  rw [lookup_eraseAll] at hk
  split_ifs at hk
  exact h k v hk

theorem Drawn.eraseAll (h : Drawn m (old ++ l) f g) : Drawn (Map.eraseAll (old.map f) m) l f g := by
  intro k v hk
  rw [lookup_eraseAll] at hk
  split_ifs at hk with hmem
  obtain ⟨a, ha, rfl, hval⟩ := h k v hk
  rcases mem_append.mp ha with hold | hrest
  · exact absurd (List.mem_map_of_mem hold) hmem
  · exact ⟨a, hrest, rfl, hval⟩

theorem Drawn.retain (h : Drawn m l f g) (p : K → V → Bool) : Drawn (Map.retain p m) l f g := by
  intro k v hk
  rw [lookup_retain, filter_eq_some_iff] at hk
  exact h k v hk.1

end

end

/-! ## 3. Maps of sets -/

/-- **The buckets hold exactly the elements of the list**, `g` in bucket `f`. -/
def ListsBuckets (m : Map H (Finset K)) (l : List α) (f : α → H) (g : α → K) : Prop :=
  ∀ h k, k ∈ bucket m h ↔ ∃ a ∈ l, f a = h ∧ g a = k

variable {m m' : Map H (Finset K)} {l new old : List α} {f : α → H} {g : α → K}

omit [DecidableEq K] in
theorem listsBuckets_empty (f : α → H) (g : α → K) : ListsBuckets ∅ [] f g := by
  intro h k
  simp [bucket]

omit [DecidableEq K] in
theorem ListsBuckets.ext (hm : NoEmptyBucket m) (hm' : NoEmptyBucket m')
    (h : ListsBuckets m l f g) (h' : ListsBuckets m' l f g) : m = m' := by
  refine ext_bucket hm hm' fun x => Finset.ext fun k => ?_
  exact (h x k).trans (h' x k).symm

theorem ListsBuckets.bucketInsertAll (h : ListsBuckets m l f g) (new : List α) :
    ListsBuckets (Map.bucketInsertAll (new.map fun a => (f a, g a)) m) (new ++ l) f g := by
  intro x k
  rw [bucket_bucketInsertAll, h x k, exists_mem_append, or_comm]
  refine or_congr_left ?_
  simp only [List.mem_map, Prod.mk.injEq]

theorem ListsBuckets.bucketRemoveAll (h : ListsBuckets m (old ++ l) f g)
    (hnd : ((old ++ l).map g).Nodup) :
    ListsBuckets (Map.bucketRemoveAll (old.map fun a => (f a, g a)) m) l f g := by
  rw [map_append] at hnd
  have hdisjoint := (nodup_append.mp hnd).2.2
  intro x k
  rw [bucket_bucketRemoveAll, h x k, exists_mem_append]
  simp only [List.mem_map, Prod.mk.injEq]
  constructor
  · rintro ⟨hmem | hmem, hnot⟩
    · exact absurd hmem hnot
    · exact hmem
  · rintro ⟨a, ha, rfl, rfl⟩
    refine ⟨.inr ⟨a, ha, rfl, rfl⟩, ?_⟩
    rintro ⟨b, hb, -, heq⟩
    exact hdisjoint _ (List.mem_map_of_mem hb) _ (List.mem_map_of_mem ha) heq

end Coincync.Lib.Map
