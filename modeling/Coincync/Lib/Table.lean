/-
# Tables with redundant indices

A table of rows under their keys, kept together with three things that could be computed from it: an
index by rank, the set of marks that the rows carry, and the total weight.  `Table.insert` and
`Table.remove` update all four; `Consistent` says that the other three are what the rows make them,
and that no two rows share a mark.  Insertion keeps this for a new key whose marks are free, removal
keeps it always (`Consistent.insert`, `Consistent.remove`); a loop of removals is `removeAll`.
-/
import Coincync.Lib.OrdMap

namespace Coincync.Lib

open List

/-- How a row is ranked, marked and weighed.  The rank tells rows apart. -/
structure Scheme (K V R M : Type) where
  rank : K → V → R
  marks : V → List M
  weight : V → Nat
  rank_key : ∀ {k v k' v'}, rank k v = rank k' v' → k = k'

/-- Rows and what is kept beside them. -/
structure Table (K V R M : Type) [LinearOrder K] [LinearOrder R] where
  rows : OrdMap K V
  index : OrdMap R K
  marked : Finset M
  total : Nat

namespace Table

variable {K V R M : Type} [LinearOrder K] [LinearOrder R] [DecidableEq M]

/-! ## 1. Operations -/

/-- No rows. -/
def empty : Table K V R M := ⟨.empty, .empty, ∅, 0⟩

/-- Insert a row into all four. -/
def insert (σ : Scheme K V R M) (t : Table K V R M) (k : K) (v : V) : Table K V R M where
  rows := t.rows.insert k v
  index := t.index.insert (σ.rank k v) k
  marked := (σ.marks v).foldl (fun s m => Insert.insert m s) t.marked
  total := t.total + σ.weight v

/-- Remove a row from all four. -/
def remove (σ : Scheme K V R M) (t : Table K V R M) (k : K) : Table K V R M :=
  match t.rows.lookup k with
  | some v =>
    { rows := t.rows.remove k
      index := t.index.remove (σ.rank k v)
      marked := (σ.marks v).foldl (fun s m => s.erase m) t.marked
      total := t.total - σ.weight v }
  | none => t

/-- Remove one key after the other. -/
def removeAll (σ : Scheme K V R M) (t : Table K V R M) (ks : List K) : Table K V R M :=
  ks.foldl (remove σ) t

/-! ## 2. Consistency -/

/-- **The rows decide everything else**, and no mark is on two rows. -/
structure Consistent (σ : Scheme K V R M) (t : Table K V R M) : Prop where
  index_iff : ∀ r k, t.index.lookup r = some k ↔ ∃ v, t.rows.lookup k = some v ∧ σ.rank k v = r
  marked_iff : ∀ m, m ∈ t.marked ↔ ∃ k v, t.rows.lookup k = some v ∧ m ∈ σ.marks v
  unshared : ∀ k v k' v' m, t.rows.lookup k = some v → t.rows.lookup k' = some v' →
    m ∈ σ.marks v → m ∈ σ.marks v' → k = k'
  total_eq : t.total = t.rows.total σ.weight

variable {σ : Scheme K V R M} {t : Table K V R M}

omit [DecidableEq M] in
theorem consistent_empty (σ : Scheme K V R M) : Consistent σ (empty : Table K V R M) where
  index_iff r k := by simp [empty]
  marked_iff m := by simp [empty]
  unshared k v k' v' m h := by simp [empty] at h
  total_eq := rfl

theorem mem_foldl_insert {l : List M} {m : M} : ∀ {s : Finset M},
    m ∈ l.foldl (fun s m => Insert.insert m s) s ↔ m ∈ l ∨ m ∈ s := by
  induction l with
  | nil =>
    intro s
    simp
  | cons a l ih =>
    intro s
    rw [foldl_cons, ih, Finset.mem_insert, mem_cons]
    tauto

theorem mem_foldl_erase {l : List M} {m : M} : ∀ {s : Finset M},
    m ∈ l.foldl (fun s m => s.erase m) s ↔ m ∈ s ∧ m ∉ l := by
  induction l with
  | nil =>
    intro s
    simp
  | cons a l ih =>
    intro s
    rw [foldl_cons, ih, Finset.mem_erase, mem_cons]
    tauto

/-- **A new row with free marks keeps the table consistent.** -/
theorem Consistent.insert (h : Consistent σ t) {k : K} {v : V} (hk : t.rows.lookup k = none)
    (hfree : ∀ m ∈ σ.marks v, m ∉ t.marked) : Consistent σ (t.insert σ k v) := by
  have hold : ∀ k' v', t.rows.lookup k' = some v' → k' ≠ k := by
    rintro k' v' h' rfl
    rw [hk] at h'
    cases h'
  refine ⟨?_, ?_, ?_, ?_⟩
  · intro r k'
    simp only [Table.insert, OrdMap.lookup_insert]
    by_cases hr : r = σ.rank k v
    · -- a rank is that of one key
      rw [if_pos hr]
      constructor
      · intro h'
        obtain rfl : k = k' := Option.some.inj h'
        exact ⟨v, by simp, hr.symm⟩
      · rintro ⟨v', hv', hrank⟩
        obtain rfl : k' = k := σ.rank_key (hrank.trans hr)
        rfl
    · rw [if_neg hr, h.index_iff]
      constructor
      · rintro ⟨v', hv', hrank⟩
        exact ⟨v', by rw [if_neg (hold k' v' hv')]; exact hv', hrank⟩
      · rintro ⟨v', hv', hrank⟩
        split_ifs at hv' with hkk
        · subst hkk
          obtain rfl : v = v' := Option.some.inj hv'
          exact absurd hrank.symm hr
        · exact ⟨v', hv', hrank⟩
  · intro m
    simp only [Table.insert, mem_foldl_insert, h.marked_iff, OrdMap.lookup_insert]
    constructor
    · rintro (hm | ⟨k', v', hv', hm⟩)
      · exact ⟨k, v, by simp, hm⟩
      · exact ⟨k', v', by rw [if_neg (hold k' v' hv')]; exact hv', hm⟩
    · rintro ⟨k', v', hv', hm⟩
      split_ifs at hv' with hkk
      · obtain rfl : v = v' := Option.some.inj hv'
        exact .inl hm
      · exact .inr ⟨k', v', hv', hm⟩
  · intro k₁ v₁ k₂ v₂ m h₁ h₂ hm₁ hm₂
    simp only [Table.insert, OrdMap.lookup_insert] at h₁ h₂
    -- a mark of an old row is taken, so it is not on the new one
    have htaken : ∀ k' v', t.rows.lookup k' = some v' → m ∈ σ.marks v' → m ∉ σ.marks v :=
      fun k' v' hv' hm hnew => hfree m hnew ((h.marked_iff m).mpr ⟨k', v', hv', hm⟩)
    split_ifs at h₁ h₂ with e₁ e₂ e₂
    · rw [e₁, e₂]
    · obtain rfl : v = v₁ := Option.some.inj h₁
      exact absurd hm₁ (htaken k₂ v₂ h₂ hm₂)
    · obtain rfl : v = v₂ := Option.some.inj h₂
      exact absurd hm₂ (htaken k₁ v₁ h₁ hm₁)
    · exact h.unshared k₁ v₁ k₂ v₂ m h₁ h₂ hm₁ hm₂
  · simp only [Table.insert]
    rw [OrdMap.total_insert σ.weight v hk, h.total_eq]
    omega

/-- **Removing a row keeps the table consistent.** -/
theorem Consistent.remove (h : Consistent σ t) (k : K) : Consistent σ (t.remove σ k) := by
  unfold Table.remove
  split
  · rename_i v hv
    refine ⟨?_, ?_, ?_, ?_⟩
    · intro r k'
      simp only [OrdMap.lookup_remove]
      by_cases hr : r = σ.rank k v
      · rw [if_pos hr]
        constructor
        · intro h'
          cases h'
        · rintro ⟨v', hv', hrank⟩
          obtain rfl : k' = k := σ.rank_key (hrank.trans hr)
          simp at hv'
      · rw [if_neg hr, h.index_iff]
        constructor
        · rintro ⟨v', hv', hrank⟩
          have hne : k' ≠ k := by
            rintro rfl
            rw [hv] at hv'
            cases hv'
            exact hr hrank.symm
          exact ⟨v', by rw [if_neg hne]; exact hv', hrank⟩
        · rintro ⟨v', hv', hrank⟩
          split_ifs at hv' with hkk
          exact ⟨v', hv', hrank⟩
    · intro m
      simp only [mem_foldl_erase, h.marked_iff, OrdMap.lookup_remove]
      constructor
      · rintro ⟨⟨k', v', hv', hm⟩, hnot⟩
        have hne : k' ≠ k := by
          rintro rfl
          rw [hv] at hv'
          cases hv'
          exact hnot hm
        exact ⟨k', v', by rw [if_neg hne]; exact hv', hm⟩
      · rintro ⟨k', v', hv', hm⟩
        split_ifs at hv' with hkk
        refine ⟨⟨k', v', hv', hm⟩, ?_⟩
        intro hm'
        exact hkk (h.unshared k' v' k v m hv' hv hm hm')
    · intro k₁ v₁ k₂ v₂ m h₁ h₂
      simp only [OrdMap.lookup_remove] at h₁ h₂
      split_ifs at h₁ h₂
      exact h.unshared k₁ v₁ k₂ v₂ m h₁ h₂
    · have htotal := OrdMap.total_remove σ.weight hv
      simp only [h.total_eq]
      omega
  · exact h

variable {ks : List K}

theorem Consistent.removeAll : ∀ {t : Table K V R M}, Consistent σ t →
    Consistent σ (t.removeAll σ ks) := by
  induction ks with
  | nil => exact id
  | cons k ks ih =>
    intro t h
    exact ih (h.remove k)

/-! ## 3. What removal leaves -/

theorem rows_remove (k k' : K) :
    (t.remove σ k).rows.lookup k' = if k' = k then none else t.rows.lookup k' := by
  unfold Table.remove
  split
  · exact OrdMap.lookup_remove t.rows k k'
  · rename_i hnone
    by_cases h : k' = k
    · rw [if_pos h, h, hnone]
    · rw [if_neg h]

theorem rows_removeAll (k' : K) : ∀ {t : Table K V R M},
    (t.removeAll σ ks).rows.lookup k' = if k' ∈ ks then none else t.rows.lookup k' := by
  induction ks with
  | nil =>
    intro t
    simp [Table.removeAll]
  | cons k ks ih =>
    intro t
    have hstep : (t.removeAll σ (k :: ks)) = (t.remove σ k).removeAll σ ks := rfl
    rw [hstep, ih, rows_remove]
    by_cases h : k' = k
    · simp [h]
    · simp [h]

theorem total_remove_le (k : K) : (t.remove σ k).total ≤ t.total := by
  unfold Table.remove
  split
  · exact Nat.sub_le _ _
  · exact le_refl _

theorem total_removeAll_le : ∀ {t : Table K V R M}, (t.removeAll σ ks).total ≤ t.total := by
  induction ks with
  | nil => exact le_refl _
  | cons k ks ih =>
    intro t
    exact ih.trans (total_remove_le k)

section

variable (h : Consistent σ t)

include h

/-- **A mark is found on one row**: whatever order the rows are walked in, the first row with the
mark is that row. -/
theorem Consistent.find_mark {m : M} {k : K} {v : V} (hv : t.rows.lookup k = some v)
    (hm : m ∈ σ.marks v) {walk : List (K × V)} (hwalk : ∀ e, e ∈ walk ↔ e ∈ t.rows.entries) :
    walk.find? (fun e => decide (m ∈ σ.marks e.2)) = some (k, v) := by
  have hmem : (k, v) ∈ walk := (hwalk _).mpr (OrdMap.lookup_eq_some_iff.mp hv)
  cases hf : walk.find? fun e => decide (m ∈ σ.marks e.2) with
  | none =>
    have := find?_eq_none.mp hf _ hmem
    simp [hm] at this
  | some e =>
    have hmark : m ∈ σ.marks e.2 := by simpa using find?_some hf
    have hrow : t.rows.lookup e.1 = some e.2 :=
      OrdMap.lookup_eq_some_iff.mpr ((hwalk e).mp (mem_of_find?_eq_some hf))
    have hkey : e.1 = k := h.unshared _ _ _ _ m hrow hv hmark hm
    have hval : e.2 = v := by
      rw [hkey, hv] at hrow
      exact (Option.some.inj hrow).symm
    rw [← hkey, ← hval]

/-! ## 4. The index in order -/

omit [DecidableEq M] in
theorem Consistent.row_of_mem {e : R × K} (he : e ∈ t.index.entries) :
    ∃ v, t.rows.lookup e.2 = some v ∧ σ.rank e.2 v = e.1 :=
  (h.index_iff e.1 e.2).mp (OrdMap.lookup_eq_some_iff.mpr he)

omit [DecidableEq M] in
theorem Consistent.nodup_index_values : t.index.values.Nodup := by
  refine List.Nodup.map_on ?_ t.index.nodup_keys.of_map
  intro e he e' he' heq
  obtain ⟨v, hv, hr⟩ := h.row_of_mem he
  obtain ⟨v', hv', hr'⟩ := h.row_of_mem he'
  rw [← heq, hv] at hv'
  cases hv'
  exact Prod.ext (by rw [← hr, ← hr', heq]) heq

omit [DecidableEq M] in
/-- **The index lists every row once**, by rank. -/
theorem Consistent.index_values_perm : t.index.values.Perm t.rows.keys := by
  refine (perm_ext_iff_of_nodup h.nodup_index_values t.rows.nodup_keys).mpr ?_
  intro k
  rw [OrdMap.mem_keys, Option.isSome_iff_exists, OrdMap.values, mem_map]
  constructor
  · rintro ⟨e, he, rfl⟩
    obtain ⟨v, hv, -⟩ := h.row_of_mem he
    exact ⟨v, hv⟩
  · rintro ⟨v, hv⟩
    exact ⟨(σ.rank k v, k), OrdMap.lookup_eq_some_iff.mp ((h.index_iff _ k).mpr ⟨v, hv, rfl⟩), rfl⟩

omit [DecidableEq M] in
theorem Consistent.pairwise_index_values :
    t.index.values.Pairwise fun a b => ∀ v w, t.rows.lookup a = some v → t.rows.lookup b = some w →
      σ.rank a v < σ.rank b w := by
  refine pairwise_map.mpr (t.index.sorted.imp_of_mem ?_)
  intro a b ha hb hlt v w hv hw
  obtain ⟨v', hv', hra⟩ := h.row_of_mem ha
  obtain ⟨w', hw', hrb⟩ := h.row_of_mem hb
  rw [hv] at hv'
  rw [hw] at hw'
  cases hv'
  cases hw'
  rwa [hra, hrb]

theorem Consistent.index_values_remove (k : K) :
    (t.remove σ k).index.values = t.index.values.filter fun x => x ≠ k := by
  rw [OrdMap.values, OrdMap.values, filter_map]
  unfold Table.remove
  split
  · rename_i v hv
    refine congrArg (List.map Prod.snd) (filter_congr fun e he => decide_eq_decide.mpr ?_)
    obtain ⟨v', hv', hr⟩ := h.row_of_mem he
    refine not_congr ⟨fun hrank => σ.rank_key (hr.trans hrank), fun hk => ?_⟩
    subst hk
    rw [hv] at hv'
    cases hv'
    exact hr.symm
  · rename_i hnone
    refine congrArg (List.map Prod.snd) (filter_eq_self.mpr fun e he => ?_).symm
    obtain ⟨v, hv, -⟩ := h.row_of_mem he
    refine decide_eq_true fun hk => ?_
    rw [← hk, hv] at hnone
    cases hnone

end

/-- **A loop of removals leaves the others in the index**, in their order. -/
theorem Consistent.index_values_removeAll : ∀ {t : Table K V R M}, Consistent σ t →
    (t.removeAll σ ks).index.values = t.index.values.filter fun x => x ∉ ks := by
  induction ks with
  | nil =>
    intro t _
    simp [Table.removeAll]
  | cons k ks ih =>
    intro t h
    have hstep : t.removeAll σ (k :: ks) = (t.remove σ k).removeAll σ ks := rfl
    rw [hstep, ih (h.remove k), h.index_values_remove, filter_filter]
    simp only [mem_cons, not_or, Bool.decide_and, Bool.and_comm]

/-- What the rows of some keys weigh. -/
def freed (σ : Scheme K V R M) (t : Table K V R M) (ks : List K) : Nat :=
  ((ks.filterMap t.rows.lookup).map σ.weight).sum

omit [DecidableEq M] in
theorem freed_append (ks ks' : List K) : t.freed σ (ks ++ ks') = t.freed σ ks + t.freed σ ks' := by
  simp [freed]

omit [DecidableEq M] in
theorem freed_le_of_sublist {ks' : List K} (h : List.Sublist ks ks') :
    t.freed σ ks ≤ t.freed σ ks' :=
  ((h.filterMap _).map _).sum_le_sum fun _ _ => zero_le

/-- **A loop of removals frees what the rows weigh.** -/
theorem Consistent.total_removeAll : ∀ {t : Table K V R M}, Consistent σ t → ks.Nodup →
    (t.removeAll σ ks).total + t.freed σ ks = t.total := by
  induction ks with
  | nil =>
    intro t _ _
    rfl
  | cons k ks ih =>
    intro t h hnodup
    obtain ⟨hk, hks⟩ := nodup_cons.mp hnodup
    have hrest : (t.remove σ k).freed σ ks = t.freed σ ks := by
      refine congrArg (fun l => (l.map σ.weight).sum) (filterMap_congr fun x hx => ?_)
      rw [rows_remove, if_neg (fun heq : x = k => hk (heq ▸ hx))]
    have hstep : t.removeAll σ (k :: ks) = (t.remove σ k).removeAll σ ks := rfl
    have hone : (t.remove σ k).total + t.freed σ [k] = t.total := by
      rw [(h.remove k).total_eq, h.total_eq]
      unfold Table.remove freed
      cases hv : t.rows.lookup k with
      | none => simp [hv]
      | some v =>
        rw [OrdMap.total_remove σ.weight hv]
        simp [hv, add_comm]
    have hsplit : t.freed σ (k :: ks) = t.freed σ [k] + t.freed σ ks := freed_append [k] ks
    rw [hstep, hsplit, ← hrest, Nat.add_left_comm, ih (h.remove k) hks, add_comm]
    exact hone

end Table

end Coincync.Lib
