/-
# A pool and an index over it

A pool of items, and an index that lists the keys of the items by group, each key on the shelf of its
item's group.  `Shelved` says that the index is exact: every key of the pool stands once, on its own
shelf, and no other key stands anywhere.  A whole shelf may have been taken down; its keys are then
`loose` until they are released from the pool one by one.
-/
import Coincync.Lib.Maps

namespace Coincync.Lib

open List Finset Map

variable {K G V : Type} [DecidableEq G]

/-! ## 1. Shelves -/

/-- The keys on a shelf. -/
def shelf (index : Map G (List K)) (g : G) : List K := (index.lookup g).getD []

/-- Put a key at the end of a shelf. -/
def shelve (index : Map G (List K)) (g : G) (k : K) : Map G (List K) :=
  index.insert g (shelf index g ++ [k])

theorem shelf_shelve (index : Map G (List K)) (g g' : G) (k : K) :
    shelf (shelve index g k) g' = if g' = g then shelf index g ++ [k] else shelf index g' := by
  unfold shelve
  rw [shelf, lookup_insert_ite]
  split_ifs
  · rfl
  · rfl

theorem shelf_erase (index : Map G (List K)) (g g' : G) :
    shelf (index.erase g) g' = if g' = g then [] else shelf index g' := by
  rw [shelf, lookup_erase_ite]
  split_ifs
  · rfl
  · rfl

variable [DecidableEq K]

/-- Take a key off a shelf, and the shelf away when that leaves it empty. -/
def unshelve (index : Map G (List K)) (g : G) (k : K) : Map G (List K) :=
  match index.lookup g with
  | none => index
  | some ks =>
    if ks.filter (fun k' => k' ≠ k) = [] then index.erase g
    else index.insert g (ks.filter fun k' => k' ≠ k)

theorem shelf_unshelve (index : Map G (List K)) (g g' : G) (k : K) :
    shelf (unshelve index g k) g' =
      if g' = g then (shelf index g).filter (fun k' => k' ≠ k) else shelf index g' := by
  unfold unshelve
  cases hg : index.lookup g with
  | none =>
    simp only
    split_ifs with heq
    · rw [heq, shelf, hg]
      rfl
    · rfl
  | some ks =>
    have hshelf : shelf index g = ks := by rw [shelf, hg]; rfl
    simp only [hshelf]
    split_ifs with hempty heq heq
    · rw [heq, hempty, shelf, lookup_erase_ite, if_pos rfl]
      rfl
    · rw [shelf, lookup_erase_ite, if_neg heq]
      rfl
    · rw [heq, shelf, lookup_insert_ite, if_pos rfl]
      rfl
    · rw [shelf, lookup_insert_ite, if_neg heq]
      rfl

/-! ## 2. The index is exact -/

/-- **Every key of the pool is loose or stands once, on its own shelf**, and nothing else stands
anywhere. -/
structure Shelved (group : V → G) (pool : Map K V) (index : Map G (List K)) (loose : List K) :
    Prop where
  nodup : ∀ g, (shelf index g).Nodup
  nodupLoose : loose.Nodup
  mem_iff : ∀ g k, k ∈ shelf index g ↔ (∃ v, pool.lookup k = some v ∧ group v = g) ∧ k ∉ loose

variable {group : V → G} {pool : Map K V} {index : Map G (List K)} {loose : List K} {k : K} {v : V}

theorem shelved_empty (group : V → G) : Shelved group (∅ : Map K V) ∅ [] :=
  ⟨fun _ => nodup_nil, nodup_nil, fun _ _ => ⟨nofun, fun h => nomatch h.1.choose_spec.1⟩⟩

section

variable (h : Shelved group pool index [])

include h

theorem Shelved.remove (hk : pool.lookup k = some v) :
    Shelved group (pool.erase k) (unshelve index (group v) k) [] := by
  refine ⟨fun g => ?_, nodup_nil, fun g k' => ?_⟩
  · rw [shelf_unshelve]
    split_ifs
    · exact (h.nodup _).filter _
    · exact h.nodup g
  · have hmem := h.mem_iff g k'
    simp only [not_mem_nil, not_false_eq_true, and_true] at hmem ⊢
    rw [shelf_unshelve, lookup_erase_ite]
    by_cases hkk : k' = k
    · -- the key itself was on the shelf of its item only
      subst hkk
      simp only [if_true, reduceCtorEq, false_and, exists_false, iff_false]
      split_ifs with hg
      · simp
      · rw [hmem]
        rintro ⟨w, hw, rfl⟩
        exact hg (by rw [Option.some.inj (hk.symm.trans hw)])
    · rw [if_neg hkk, ← hmem]
      split_ifs with hg
      · rw [hg]
        simp [hkk]
      · rfl

theorem Shelved.insert (hnew : pool.lookup k = none) (v : V) :
    Shelved group (pool.insert k v) (shelve index (group v) k) [] := by
  have hnot : ∀ g, k ∉ shelf index g := by
    intro g hk
    obtain ⟨⟨w, hw, -⟩, -⟩ := (h.mem_iff g k).mp hk
    exact nomatch hnew.symm.trans hw
  refine ⟨fun g => ?_, nodup_nil, fun g k' => ?_⟩
  · rw [shelf_shelve]
    split_ifs
    · exact nodup_append.mpr ⟨h.nodup _, nodup_singleton k, by
        rintro a ha b hb rfl
        exact hnot _ (List.mem_singleton.mp hb ▸ ha)⟩
    · exact h.nodup g
  · have hmem := h.mem_iff g k'
    simp only [not_mem_nil, not_false_eq_true, and_true] at hmem ⊢
    rw [shelf_shelve, lookup_insert_ite]
    by_cases hkk : k' = k
    · subst hkk
      simp only [if_true, Option.some.injEq, exists_eq_left']
      split_ifs with hg
      · simp [hg]
      · exact iff_of_false (hnot g) (Ne.symm hg)
    · rw [if_neg hkk, ← hmem]
      split_ifs with hg
      · rw [hg]
        simp [hkk]
      · rfl

theorem Shelved.not_insert {w : V} (hold : pool.lookup k = some w)
    (v : V) : ¬ Shelved group (pool.insert k v) (shelve index (group v) k) [] := by
  intro h'
  have hk : k ∈ shelf index (group w) := (h.mem_iff (group w) k).mpr ⟨⟨w, hold, rfl⟩, nofun⟩
  by_cases hg : group w = group v
  · have hnodup := h'.nodup (group v)
    rw [shelf_shelve, if_pos rfl, nodup_append] at hnodup
    exact hnodup.2.2 k (hg ▸ hk) k (List.mem_singleton_self k) rfl
  · have hstays : k ∈ shelf (shelve index (group v) k) (group w) := by
      rw [shelf_shelve, if_neg hg]
      exact hk
    obtain ⟨⟨v', hv', hgroup⟩, -⟩ := (h'.mem_iff (group w) k).mp hstays
    rw [Finmap.lookup_insert] at hv'
    exact hg (by rw [← hgroup, Option.some.inj hv'])

theorem Shelved.takeDown (g : G) : Shelved group pool (index.erase g) (shelf index g) := by
  refine ⟨fun g' => ?_, h.nodup g, fun g' k => ?_⟩
  · rw [shelf_erase]
    split_ifs
    · exact nodup_nil
    · exact h.nodup g'
  · have hmem := h.mem_iff g' k
    simp only [not_mem_nil, not_false_eq_true, and_true] at hmem
    rw [shelf_erase, ← hmem]
    split_ifs with heq
    · rw [heq]
      simp
    · refine ⟨fun hk => ⟨hk, fun hloose => ?_⟩, And.left⟩
      obtain ⟨v, hv, hgroup⟩ := hmem.mp hk
      obtain ⟨⟨w, hw, hgroup'⟩, -⟩ := (h.mem_iff g k).mp hloose
      rw [hv] at hw
      cases hw
      exact heq (hgroup.symm.trans hgroup')

end

theorem Shelved.release (h : Shelved group pool index (k :: loose)) :
    Shelved group (pool.erase k) index loose := by
  obtain ⟨hk, hloose⟩ := nodup_cons.mp h.nodupLoose
  refine ⟨h.nodup, hloose, fun g k' => ?_⟩
  rw [h.mem_iff, lookup_erase_ite, List.mem_cons]
  by_cases hkk : k' = k
  · simp [hkk]
  · simp [hkk]

theorem Shelved.drop (h : Shelved group pool index (k :: loose)) (hnone : pool.lookup k = none) :
    Shelved group pool index loose := by
  have herase : pool.erase k = pool := by
    refine Finmap.ext_lookup fun k' => ?_
    rw [lookup_erase_ite]
    split_ifs with heq
    · rw [heq, hnone]
    · rfl
  exact herase ▸ h.release

/-- **As many keys stand on the shelves as the pool has.** -/
theorem Shelved.sum_length (h : Shelved group pool index []) :
    ∑ g ∈ index.keys, (shelf index g).length = pool.keys.card := by
  have hunion : pool.keys = index.keys.biUnion fun g => (shelf index g).toFinset := by
    ext k
    simp only [mem_biUnion, mem_toFinset, h.mem_iff, mem_keys_iff]
    refine ⟨fun ⟨v, hv⟩ => ⟨group v, ?_, ⟨v, hv, rfl⟩, nofun⟩, fun ⟨g, _, ⟨v, hv, _⟩, _⟩ => ⟨v, hv⟩⟩
    -- a shelf that has a key on it is there
    have hk : k ∈ shelf index (group v) := (h.mem_iff _ k).mpr ⟨⟨v, hv, rfl⟩, nofun⟩
    cases hg : index.lookup (group v) with
    | none =>
      rw [shelf, hg] at hk
      cases hk
    | some ks => exact ⟨ks, rfl⟩
  rw [hunion, card_biUnion]
  · exact sum_congr rfl fun g _ => (toFinset_card_of_nodup (h.nodup g)).symm
  · intro g _ g' _ hne
    refine Finset.disjoint_left.mpr fun k hk hk' => ?_
    obtain ⟨⟨v, hv, hgroup⟩, -⟩ := (h.mem_iff g k).mp (mem_toFinset.mp hk)
    obtain ⟨⟨w, hw, hgroup'⟩, -⟩ := (h.mem_iff g' k).mp (mem_toFinset.mp hk')
    rw [hv] at hw
    cases hw
    exact hne (hgroup.symm.trans hgroup')

end Coincync.Lib
