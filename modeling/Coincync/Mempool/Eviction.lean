/-
# Making room

A full pool takes a transaction in by evicting residents, the cheapest first, at most a hundred of
them.  Before anything is removed a dry run works out whether that will be enough, so that a
transaction that is turned down leaves the pool as it was.
-/
import Coincync.Mempool.Invariant

namespace Coincync.Mempool

open Lib List

variable {F G : Type} {p : Mempool G} {limit size : Nat} {replaced : List Hash}

/-! ## 1. What eviction goes through -/

/-- What the residents among some hashes take up. -/
def freed (p : Mempool G) (hs : List Hash) : Nat := p.table.freed scheme hs

/-- The hashes of the fee index that are not replaced, cheapest first. -/
def candidates (p : Mempool G) (replaced : List Hash) : List Hash :=
  p.byFee.values.filter fun h => h ∉ replaced

/-- The size without the replaced residents and the first `n` candidates. -/
def sizeAfter (p : Mempool G) (replaced : List Hash) (n : Nat) : Nat :=
  p.currentSize - p.freed (replaced ++ (p.candidates replaced).take n)

/-- There is room for so many bytes. -/
def Room (size : Nat) (p : Mempool G) : Prop := p.currentSize + size ≤ p.maxSize

theorem lookup_removeAll (hs : List Hash) (k : Hash) :
    (p.removeAll hs).transactions.lookup k = if k ∈ hs then none else p.transactions.lookup k := by
  have hrow : (p.table.removeAll scheme hs).rows.lookup k =
      if k ∈ hs then none else p.table.rows.lookup k := Table.rows_removeAll k
  rwa [← table_removeAll] at hrow

theorem removeAll_append (hs hs' : List Hash) :
    (p.removeAll hs).removeAll hs' = p.removeAll (hs ++ hs') := List.foldl_append.symm

variable (p replaced) in
theorem sizeAfter_anti {m n : Nat} (h : m ≤ n) : p.sizeAfter replaced n ≤ p.sizeAfter replaced m :=
  Nat.sub_le_sub_left (Table.freed_le_of_sublist
    ((take_sublist_take_left h).append_left replaced)) _

variable [Field F] [AddCommGroup G] [Module F G] {S : Suite F G} {k : Hash}

section

variable (h : p.Sound S limit)

include h

theorem Sound.resident (hk : k ∈ p.byFee.values) : ∃ e, p.transactions.lookup k = some e :=
  Option.isSome_iff_exists.mp (OrdMap.mem_keys.mp (h.consistent.index_values_perm.mem_iff.mp hk))

theorem Sound.size_pos {e : MempoolEntry G} (he : p.transactions.lookup k = some e) :
    1 ≤ e.size := by
  rw [(h.proper k e he).eq_new]
  exact le_max_right _ _

theorem Sound.values_removeAll (hs : List Hash) :
    (p.removeAll hs).byFee.values = p.candidates hs := by
  have hindex : (p.table.removeAll scheme hs).index.values = p.candidates hs :=
    h.consistent.index_values_removeAll
  rwa [← table_removeAll] at hindex

theorem Sound.size_removeAll {hs : List Hash} (hnodup : hs.Nodup) :
    (p.removeAll hs).currentSize + p.freed hs = p.currentSize := by
  have htotal := h.consistent.total_removeAll hnodup
  rw [← table_removeAll] at htotal
  exact htotal

theorem Sound.nodup_evicted (hnodup : replaced.Nodup) (n : Nat) :
    (replaced ++ (p.candidates replaced).take n).Nodup := by
  have hcand : (p.candidates replaced).Nodup := h.consistent.nodup_index_values.filter _
  refine nodup_append.mpr ⟨hnodup, hcand.sublist (take_sublist _ _), ?_⟩
  rintro a ha b hb rfl
  exact of_decide_eq_true (mem_filter.mp (mem_of_mem_take hb)).2 ha

theorem Sound.sizeAfter_eq (hnodup : replaced.Nodup) (n : Nat) :
    (p.removeAll (replaced ++ (p.candidates replaced).take n)).currentSize =
      p.sizeAfter replaced n := by
  have hsize := h.size_removeAll (h.nodup_evicted hnodup n)
  rw [sizeAfter]
  omega

/-! ## 2. The loop -/

theorem Sound.evictLowestFee_eq {rest : List Hash} (hv : p.byFee.values = k :: rest) :
    p.evictLowestFee = p.removeAll [k] := by
  unfold Mempool.evictLowestFee
  cases hentries : p.byFee.entries with
  | nil =>
    rw [OrdMap.values, hentries] at hv
    cases hv
  | cons e es =>
    obtain ⟨key, k'⟩ := e
    rw [OrdMap.values, hentries] at hv
    obtain ⟨rfl, -⟩ := List.cons.inj hv
    have hmem : (key, k') ∈ p.table.index.entries := by
      change (key, k') ∈ p.byFee.entries
      rw [hentries]
      exact .head _
    obtain ⟨v, -, hkey⟩ := h.consistent.row_of_mem hmem
    exact congrArg p.remove (congrArg FeeKey.hash hkey).symm

theorem Sound.exists_values (hsize : size ≤ limit) (hroom : ¬ Room size p) :
    ∃ k rest, p.byFee.values = k :: rest ∧ p.transactions.isEmpty = false := by
  have hne : p.transactions.isEmpty = false := by
    by_contra hempty
    have hzero : p.currentSize = 0 := h.consistent.total_eq.trans
      (OrdMap.total_eq_zero_of_isEmpty _ (Bool.not_eq_false _ ▸ hempty))
    exact hroom (by rw [Room, hzero, h.limit_eq]; omega)
  cases hv : p.byFee.values with
  | nil =>
    have hkeys : p.transactions.keys = [] :=
      (h.consistent.index_values_perm.symm.trans (List.Perm.of_eq hv)).eq_nil
    rw [OrdMap.isEmpty, map_eq_nil_iff.mp hkeys] at hne
    cases hne
  | cons k rest => exact ⟨k, rest, rfl, hne⟩

theorem Sound.evictLoop_full {rest : List Hash} (hv : p.byFee.values = k :: rest)
    (hne : p.transactions.isEmpty = false) (hroom : ¬ Room size p) (n : Nat) :
    evictLoop size (n + 1) p =
      if n = 0 then (p.removeAll [k], false) else evictLoop size n (p.removeAll [k]) := by
  obtain ⟨e, he⟩ := h.resident (hv ▸ mem_cons_self : k ∈ p.byFee.values)
  have hfalls : (p.removeAll [k]).currentSize < p.currentSize := by
    have hsize := h.size_removeAll (nodup_singleton k)
    have hfreed : p.freed [k] = e.size := by
      have hrow : p.table.rows.lookup k = some e := he
      simp [freed, Table.freed, hrow, scheme]
    have hpos := h.size_pos he
    omega
  rw [evictLoop, if_neg (by simpa [Room, hne] using hroom), h.evictLowestFee_eq hv]
  simp only [not_le.mpr hfalls, false_or]

end

/-- **The loop removes the shortest beginning of the index that makes room**, if one of fewer hashes
than it has attempts does; and else as many as it has attempts. -/
theorem evictLoop_cases (hsize : size ≤ limit) (n : Nat) {p : Mempool G} (h : p.Sound S limit) :
    (∃ j ≤ n, evictLoop size (n + 1) p = (p.removeAll (p.byFee.values.take j), true) ∧
      Room size (p.removeAll (p.byFee.values.take j)) ∧
      ∀ i < j, ¬ Room size (p.removeAll (p.byFee.values.take i))) ∨
    (evictLoop size (n + 1) p = (p.removeAll (p.byFee.values.take (n + 1)), false) ∧
      ¬ Room size (p.removeAll (p.byFee.values.take n))) := by
  by_cases hroom : Room size p
  · exact .inl ⟨0, zero_le, if_pos (.inl hroom), hroom,
      fun i hi => absurd hi (Nat.not_lt_zero i)⟩
  obtain ⟨k, rest, hv, hne⟩ := h.exists_values hsize hroom
  cases n with
  | zero =>
    refine .inr ⟨?_, hroom⟩
    rw [h.evictLoop_full hv hne hroom, hv]
    rfl
  | succ n =>
    have hnodup := h.consistent.nodup_index_values
    have hrest : (p.removeAll [k]).byFee.values = rest := by
      change p.byFee.values.Nodup at hnodup
      rw [hv, nodup_cons] at hnodup
      rw [h.values_removeAll, candidates, hv, filter_cons_of_neg (by simp), filter_eq_self]
      intro x hx
      refine decide_eq_true fun hxk => hnodup.1 ?_
      rwa [← mem_singleton.mp hxk]
    have htake : ∀ j, (p.removeAll [k]).removeAll (rest.take j) =
        p.removeAll (p.byFee.values.take (j + 1)) := by
      intro j
      rw [removeAll_append, hv]
      rfl
    have hrec := evictLoop_cases hsize n (h.removeAll [k])
    have hloop : evictLoop size (n + 2) p = evictLoop size (n + 1) (p.removeAll [k]) :=
      h.evictLoop_full hv hne hroom (n + 1)
    rw [hrest, ← hloop] at hrec
    simp only [htake] at hrec
    rcases hrec with ⟨j, hj, heq, hfits, hleast⟩ | ⟨heq, hfull⟩
    · refine .inl ⟨j + 1, by omega, heq, hfits, fun i hi => ?_⟩
      cases i with
      | zero => exact hroom
      | succ i => exact hleast i (by omega)
    · exact .inr ⟨heq, hfull⟩

/-! ## 3. The dry run -/

omit [AddCommGroup G] in
/-- **The dry run answers for the first hundred candidates.** -/
theorem simulateEviction_iff {l : List Hash} (hl : ∀ h ∈ l, ∃ e, p.transactions.lookup h = some e) :
    ∀ simulated attempts, p.simulateEviction replaced size l simulated attempts + size ≤ p.maxSize ↔
      simulated - p.freed ((l.filter fun h => h ∉ replaced).take (maxEvictionAttempts - attempts)) +
        size ≤ p.maxSize := by
  induction l with
  | nil =>
    intro simulated attempts
    simp [simulateEviction, freed, Table.freed]
  | cons h l ih =>
    intro simulated attempts
    have hrec := ih fun x hx => hl x (.tail _ hx)
    obtain ⟨e, he⟩ := hl h (.head _)
    rw [simulateEviction]
    split_ifs with hstop hin
    · rcases hstop with hroom | hlast
      · exact iff_of_true hroom (by omega)
      · simp [Nat.sub_eq_zero_of_le hlast, freed, Table.freed]
    · rw [hrec, filter_cons_of_neg (by simpa using hin)]
    · have hrow : p.table.rows.lookup h = some e := he
      obtain ⟨m, hm⟩ : ∃ m, maxEvictionAttempts - attempts = m + 1 :=
        ⟨maxEvictionAttempts - attempts - 1, by omega⟩
      have hm' : maxEvictionAttempts - (attempts + 1) = m := by omega
      simp only [he]
      rw [hrec, filter_cons_of_pos (by simpa using hin), hm, hm', take_succ_cons, Nat.sub_sub]
      simp [freed, Table.freed, hrow, scheme]

theorem Sound.simulatedSize_iff (h : p.Sound S limit) :
    p.simulatedSize replaced size + size ≤ p.maxSize ↔
      p.sizeAfter replaced maxEvictionAttempts + size ≤ p.maxSize := by
  rw [simulatedSize, simulateEviction_iff fun k hk => h.resident hk, sizeAfter, freed, freed,
    Table.freed_append, ← Nat.sub_sub]
  rfl

omit [AddCommGroup G] in
theorem collectReplaced_nodup {newRate : Nat} {images : List KeyImage} : ∀ {found : List Hash},
    p.collectReplaced newRate images found = .ok replaced → found.Nodup → replaced.Nodup := by
  induction images with
  | nil =>
    intro found hc hnodup
    cases hc
    exact hnodup
  | cons ki images ih =>
    intro found hc hnodup
    unfold collectReplaced at hc
    split_ifs at hc
    · split at hc
      · split_ifs at hc with _ hin
        · exact ih hc hnodup
        · exact ih hc (nodup_append.mpr ⟨hnodup, nodup_singleton _, by
            rintro a ha b hb rfl
            exact hin (mem_singleton.mp hb ▸ ha)⟩)
      · cases hc
    · exact ih hc hnodup

/-! ## 4. A transaction that is turned down -/

/-- **Just a hundred evictions are needed** for a transaction that passes the other checks. -/
def NeedsLastAttempt (S : Suite F G) (p : Mempool G) (tx : Transaction G) : Prop :=
  tx.size S ≤ maxTxSize ∧ tx.size S * minFeePerByte * p.feeMultiplier ≤ tx.fee.val ∧
    ∃ replaced, p.collectReplaced (scaledFeePerByte tx.fee.val (tx.size S)) tx.keyImages [] =
        .ok replaced ∧
      p.sizeAfter replaced maxEvictionAttempts + tx.size S ≤ p.maxSize ∧
      p.maxSize < p.sizeAfter replaced (maxEvictionAttempts - 1) + tx.size S

variable {tx : Transaction G} {txHash : Hash} {now : Nat}

/-- **Eviction, for the replaced and then for room.** -/
theorem Sound.evict_cases (h : p.Sound S limit) (hnodup : replaced.Nodup)
    (hsize : size ≤ p.maxSize) :
    (∃ j < maxEvictionAttempts,
      evictLoop size maxEvictionAttempts (p.removeAll replaced) =
        (p.removeAll (replaced ++ (p.candidates replaced).take j), true) ∧
      p.sizeAfter replaced j + size ≤ p.maxSize ∧
      ∀ i < j, p.maxSize < p.sizeAfter replaced i + size) ∨
    (evictLoop size maxEvictionAttempts (p.removeAll replaced) =
        (p.removeAll (replaced ++ (p.candidates replaced).take maxEvictionAttempts), false) ∧
      p.maxSize < p.sizeAfter replaced (maxEvictionAttempts - 1) + size) := by
  have hcases := evictLoop_cases (h.limit_eq ▸ hsize) 99 (h.removeAll replaced)
  simp only [h.values_removeAll, removeAll_append, Room, maxSize_removeAll, h.sizeAfter_eq hnodup,
    not_le] at hcases
  rcases hcases with ⟨j, hj, hcase⟩ | hcase
  · exact .inl ⟨j, Nat.lt_succ_of_le hj, hcase⟩
  · exact .inr hcase

/-- **The last attempt is made and counted as a failure.** -/
theorem NeedsLastAttempt.admitAfterChecks_eq (hlast : NeedsLastAttempt S p tx)
    (h : p.Sound S limit) (txHash : Hash) (now : Nat) :
    ∃ p', p.admitAfterChecks S tx txHash now = (p', .error .mempoolFull) ∧
      p'.currentSize < p.currentSize := by
  obtain ⟨hsize, hfee, replaced, hcollect, hfits, hfull⟩ := hlast
  have hnodup := collectReplaced_nodup hcollect nodup_nil
  refine ⟨p.removeAll (replaced ++ (p.candidates replaced).take maxEvictionAttempts), ?_, ?_⟩
  · unfold Mempool.admitAfterChecks
    rw [if_neg (not_lt.mpr hsize), if_neg (not_lt.mpr hfee), hcollect]
    dsimp only
    rw [if_neg (not_lt.mpr (h.simulatedSize_iff.mpr hfits))]
    rcases h.evict_cases hnodup (by omega : tx.size S ≤ _) with ⟨j, hj, -, hroom, -⟩ | ⟨hloop, -⟩
    · -- fewer evictions would have been enough
      have hmono := sizeAfter_anti p replaced (Nat.le_sub_one_of_lt hj)
      omega
    · rw [hloop]
      rfl
  · rw [h.sizeAfter_eq hnodup]
    have hstart : p.sizeAfter replaced (maxEvictionAttempts - 1) ≤ p.currentSize := Nat.sub_le _ _
    omega

/-- **When a transaction that is turned down leaves the pool as it was**: unless just a hundred
evictions are needed. -/
theorem failed_admission_unchanged_iff (h : p.Sound S limit) :
    (∀ p' e, p.admitAfterChecks S tx txHash now = (p', .error e) → p' = p) ↔
      ¬ NeedsLastAttempt S p tx := by
  constructor
  · intro hkeep hlast
    obtain ⟨p', hadd, hsize⟩ := hlast.admitAfterChecks_eq h txHash now
    rw [hkeep p' _ hadd] at hsize
    exact lt_irrefl _ hsize
  · intro hnot p' e hadd
    unfold Mempool.admitAfterChecks at hadd
    dsimp only at hadd
    split_ifs at hadd with hlarge hfee
    · exact (Prod.mk.inj hadd).1.symm
    · exact (Prod.mk.inj hadd).1.symm
    split at hadd
    · exact (Prod.mk.inj hadd).1.symm
    rename_i replaced hcollect
    split_ifs at hadd with hfull hevicted
    · exact (Prod.mk.inj hadd).1.symm
    · cases (Prod.mk.inj hadd).2
    · have hdry := not_lt.mp hfull
      have hnodup := collectReplaced_nodup hcollect nodup_nil
      rcases h.evict_cases hnodup (by omega : tx.size S ≤ _) with ⟨j, -, hloop, -⟩ | ⟨-, hlast⟩
      · rw [hloop] at hevicted
        exact absurd rfl hevicted
      · exact absurd ⟨not_lt.mp hlarge, not_lt.mp hfee, replaced, hcollect,
          h.simulatedSize_iff.mp hdry, hlast⟩ hnot

/-! ## 5. What is evicted -/

/-- The candidates that pay no more than a rate. -/
def payingNoMore (p : Mempool G) (rate : Nat) (replaced : List Hash) : List Hash :=
  (p.candidates replaced).filter fun k =>
    (p.transactions.lookup k).all fun e => decide (e.feePerByte ≤ rate)

omit [AddCommGroup G] in
theorem FeeKey.rate_le_of_lt {a b : FeeKey} (h : a < b) : a.rate ≤ b.rate := by
  have hpair : a.pair < b.pair := h
  rcases Prod.Lex.lt_iff.mp hpair with hlt | ⟨heq, -⟩
  · exact le_of_lt hlt
  · exact le_of_eq heq

theorem Sound.payingNoMore_sublist (h : p.Sound S limit) {rate : Nat}
    {e : MempoolEntry G} {l l' : List Hash} (hcand : p.candidates replaced = l ++ k :: l')
    (he : p.transactions.lookup k = some e) (hrate : rate < e.feePerByte) :
    List.Sublist (p.payingNoMore rate replaced) l := by
  have hsorted : (p.candidates replaced).Pairwise fun a b => ∀ v w,
      p.transactions.lookup a = some v → p.transactions.lookup b = some w →
        (⟨v.feePerByte, a⟩ : FeeKey) < ⟨w.feePerByte, b⟩ :=
    h.consistent.pairwise_index_values.filter _
  have hmem : ∀ x ∈ k :: l', ∃ v, p.transactions.lookup x = some v := by
    intro x hx
    have hx' : x ∈ p.candidates replaced := hcand ▸ mem_append_right l hx
    exact h.resident (mem_filter.mp hx').1
  rw [hcand] at hsorted
  have hbehind := (pairwise_append.mp hsorted).2.1
  have hnone : (k :: l').filter (fun x => (p.transactions.lookup x).all fun e =>
      decide (e.feePerByte ≤ rate)) = [] := by
    refine filter_eq_nil_iff.mpr fun x hx => ?_
    obtain ⟨v, hv⟩ := hmem x hx
    have hle : e.feePerByte ≤ v.feePerByte := by
      rcases mem_cons.mp hx with rfl | hx
      · rw [he] at hv
        cases hv
        exact le_rfl
      · exact FeeKey.rate_le_of_lt ((pairwise_cons.mp hbehind).1 x hx e v he hv)
    simp only [hv, Option.all_some, decide_eq_true_eq]
    omega
  rw [payingNoMore, hcand, filter_append, hnone, append_nil]
  exact filter_sublist

/-- **A successful admission** removes the replaced and the fewest candidates that make room. -/
theorem Sound.admitAfterChecks_ok (h : p.Sound S limit) {p' : Mempool G}
    (hadd : p.admitAfterChecks S tx txHash now = (p', .ok txHash)) :
    ∃ replaced j, p.collectReplaced (scaledFeePerByte tx.fee.val (tx.size S)) tx.keyImages [] =
        .ok replaced ∧
      p.sizeAfter replaced j + tx.size S ≤ p.maxSize ∧
      (∀ i < j, p.maxSize < p.sizeAfter replaced i + tx.size S) ∧
      ∀ k, k ≠ txHash → p'.transactions.lookup k =
        if k ∈ replaced ++ (p.candidates replaced).take j then none
        else p.transactions.lookup k := by
  unfold Mempool.admitAfterChecks at hadd
  dsimp only at hadd
  split_ifs at hadd
  · cases (Prod.mk.inj hadd).2
  · cases (Prod.mk.inj hadd).2
  split at hadd
  · cases (Prod.mk.inj hadd).2
  rename_i replaced hcollect
  split_ifs at hadd with hfull hevicted
  · cases (Prod.mk.inj hadd).2
  · rcases h.evict_cases (collectReplaced_nodup hcollect nodup_nil)
        (by omega : tx.size S ≤ _) with
      ⟨j, -, hloop, hroom, hleast⟩ | ⟨hloop, -⟩
    · refine ⟨replaced, j, hcollect, hroom, hleast, fun k hk => ?_⟩
      rw [← (Prod.mk.inj hadd).1, hloop]
      simp only [Mempool.insertEntry, OrdMap.lookup_insert, if_neg hk, lookup_removeAll]
    · rw [hloop] at hevicted
      cases hevicted
  · cases (Prod.mk.inj hadd).2

/-- **When no evicted resident pays more than the transaction it makes room for**: if those that pay
no more, without the replaced, take up enough. -/
theorem evicted_pay_no_more_iff (h : p.Sound S limit) {p' : Mempool G}
    (hnew : p.transactions.lookup txHash = none)
    (hadd : p.admitAfterChecks S tx txHash now = (p', .ok txHash)) :
    ∃ replaced, p.collectReplaced (scaledFeePerByte tx.fee.val (tx.size S)) tx.keyImages [] =
        .ok replaced ∧
      ((∀ k e, p.transactions.lookup k = some e → k ∉ replaced →
          p'.transactions.lookup k = none →
          e.feePerByte ≤ scaledFeePerByte tx.fee.val (tx.size S)) ↔
        p.currentSize -
            p.freed (replaced ++
              p.payingNoMore (scaledFeePerByte tx.fee.val (tx.size S)) replaced) + tx.size S ≤
          p.maxSize) := by
  obtain ⟨replaced, j, hcollect, hroom, hleast, hlookup⟩ := h.admitAfterChecks_ok hadd
  refine ⟨replaced, hcollect, ?_⟩
  generalize scaledFeePerByte tx.fee.val (tx.size S) = rate
  -- the evicted are the first candidates
  have hevicted : ∀ k e, p.transactions.lookup k = some e → k ∉ replaced →
      (p'.transactions.lookup k = none ↔ k ∈ (p.candidates replaced).take j) := by
    intro k e he hk
    have hne : k ≠ txHash := by
      rintro rfl
      rw [hnew] at he
      cases he
    rw [hlookup k hne, he]
    simp [hk]
  constructor
  · intro hpay
    have hsub : List.Sublist ((p.candidates replaced).take j) (p.payingNoMore rate replaced) := by
      have hself : ((p.candidates replaced).take j).filter (fun k =>
          (p.transactions.lookup k).all fun e => decide (e.feePerByte ≤ rate)) =
          (p.candidates replaced).take j := by
        refine filter_eq_self.mpr fun k hk => ?_
        obtain ⟨hvalue, hkeep⟩ := mem_filter.mp (mem_of_mem_take hk)
        obtain ⟨e, he⟩ := h.resident hvalue
        have hkeep := of_decide_eq_true hkeep
        have hle := hpay k e he hkeep ((hevicted k e he hkeep).mpr hk)
        simpa [he] using hle
      rw [← hself]
      exact (take_sublist _ _).filter _
    have hle := Table.freed_le_of_sublist (σ := scheme) (t := p.table) (hsub.append_left replaced)
    rw [sizeAfter] at hroom
    simp only [freed] at hroom ⊢
    omega
  · intro henough k e he hk hgone
    by_contra hmore
    obtain ⟨l, l', htake⟩ := append_of_mem ((hevicted k e he hk).mp hgone)
    have hcand : p.candidates replaced = l ++ k :: (l' ++ (p.candidates replaced).drop j) := by
      rw [← cons_append, ← append_assoc, ← htake, take_append_drop]
    have hshort : l.length < j := by
      have hlen := congrArg List.length htake
      rw [length_take, length_append, length_cons] at hlen
      omega
    have hfirst : (p.candidates replaced).take l.length = l := by
      rw [hcand, take_left]
    have hle := Table.freed_le_of_sublist (σ := scheme) (t := p.table)
      ((h.payingNoMore_sublist hcand he (lt_of_not_ge hmore)).append_left replaced)
    have hfull := hleast _ hshort
    rw [sizeAfter, hfirst] at hfull
    simp only [freed] at hfull henough
    omega

end Coincync.Mempool

namespace Coincync.SmallChain

open Lib SmallSuite Mempool

/-! ## 6. Small pools -/

/-- The transfer at a high fee, and one of other key images at a lower one. -/
def richSpend : Transaction Z := { maturedSpend with fee := ⟨42300000⟩ }

def poorSpend : Transaction Z :=
  { maturedSpend with
    fee := ⟨32200000⟩
    inputs := maturedSpend.inputs.zipWith
      (fun i v => { i with keyImage := ⟨compress v⟩ }) [85, 32] }

/-- A pool with room for one of them, which has come to one. -/
def holding (tx : Transaction Z) : Mempool Z :=
  ((withMaxSize 3000).add suite hitCtx tx 1000).1

theorem reaches_holding (tx : Transaction Z) :
    Reaches (step suite) (fun _ _ => True) (withMaxSize 3000) (holding tx) :=
  .next (.add hitCtx tx 1000) .start trivial rfl

theorem eq_of_snd {x : Mempool Z × Except MempoolError Hash} {b : Except MempoolError Hash}
    (h : x.2 = b) : x = (x.1, b) := Prod.ext rfl h

/-- **The dearer transfer evicts the other one**, as it should. -/
theorem poorer_makes_room : ∃ p',
    (holding poorSpend).admitAfterChecks suite richSpend (richSpend.hash suite) 1001 =
        (p', .ok (richSpend.hash suite)) ∧
      p'.transactions.values.map MempoolEntry.tx = [richSpend] ∧
      ∀ k e, (holding poorSpend).transactions.lookup k = some e →
        p'.transactions.lookup k = none →
        e.feePerByte ≤ scaledFeePerByte richSpend.fee.val (richSpend.size suite) := by
  have hrun : (holding poorSpend).transactions.lookup (richSpend.hash suite) = none ∧
      ((holding poorSpend).admitAfterChecks suite richSpend (richSpend.hash suite) 1001).2 =
        .ok (richSpend.hash suite) ∧
      ((holding poorSpend).admitAfterChecks suite richSpend (richSpend.hash suite)
        1001).1.transactions.values.map MempoolEntry.tx = [richSpend] := by
    decide +kernel
  obtain ⟨hnew, hok, hleft⟩ := hrun
  have hadd := eq_of_snd hok
  obtain ⟨replaced, hcollect, hiff⟩ := evicted_pay_no_more_iff
    ((sound_withMaxSize 3000).reaches (reaches_holding poorSpend)) hnew hadd
  have hnone : (holding poorSpend).collectReplaced
      (scaledFeePerByte richSpend.fee.val (richSpend.size suite)) richSpend.keyImages [] =
        .ok [] := by
    decide +kernel
  rw [hnone] at hcollect
  cases hcollect
  have henough : (holding poorSpend).currentSize - (holding poorSpend).freed ([] ++
      (holding poorSpend).payingNoMore
        (scaledFeePerByte richSpend.fee.val (richSpend.size suite)) []) +
        richSpend.size suite ≤ (holding poorSpend).maxSize := by
    decide +kernel
  exact ⟨_, hadd, hleft, fun k e he hgone => hiff.mpr henough k e he (by simp) hgone⟩

/-- **The cheaper transfer evicts the dearer one** just as well: every check passes, and the pool
is left with the transaction that pays less. -/
theorem richer_makes_room :
    Reaches (step suite) (fun _ _ => True) (withMaxSize 3000) (holding richSpend) ∧
      (holding richSpend).transactions.values.map MempoolEntry.tx = [richSpend] ∧
      ((holding richSpend).add suite hitCtx poorSpend 1001).2 = .ok (poorSpend.hash suite) ∧
      ((holding richSpend).add suite hitCtx poorSpend 1001).1.transactions.values.map
        MempoolEntry.tx = [poorSpend] ∧
      scaledFeePerByte poorSpend.fee.val (poorSpend.size suite) <
        scaledFeePerByte richSpend.fee.val (richSpend.size suite) := by
  refine ⟨reaches_holding richSpend, ?_⟩
  decide +kernel

/-- A resident of 26 bytes. -/
def chaff (i : Nat) : Transaction Z := ⟨1, .transfer, [], [], ⟨UInt64.ofNat i⟩, [], []⟩

/-- A pool that is full of them. -/
def stocked : Nat → Mempool Z
  | 0 => withMaxSize 2700
  | n + 1 => (stocked n).insertEntry ((chaff n).hash suite) (.new suite (chaff n) 0 0)

/-- A transaction that needs nearly all of the pool. -/
def bulk : Transaction Z :=
  ⟨1, .transfer, [], [], ⟨2000000000⟩, [], List.replicate 2660 0⟩

theorem size_chaff (i : Nat) : (chaff i).size suite = 26 := rfl

theorem hash_chaff : ∀ i < 100, ((chaff i).hash suite).bytes.head = UInt8.ofNat (35 + i) := by
  decide +kernel

theorem hash_chaff_inj {i j : Nat} (hi : i < 100) (hj : j < 100)
    (h : (chaff i).hash suite = (chaff j).hash suite) : i = j := by
  have hbyte : UInt8.ofNat (35 + i) = UInt8.ofNat (35 + j) := by
    rw [← hash_chaff i hi, ← hash_chaff j hj, h]
  have hnat := congrArg UInt8.toNat hbyte
  simp only [UInt8.toNat_ofNat'] at hnat
  omega

theorem stocked_spec {n : Nat} (hn : n ≤ 100) : (stocked n).Sound suite 2700 ∧
    (stocked n).currentSize = 26 * n ∧ ∀ k e, (stocked n).transactions.lookup k = some e →
      e.size = 26 ∧ ∃ i < n, k = (chaff i).hash suite := by
  induction n with
  | zero => exact ⟨sound_withMaxSize 2700, rfl, nofun⟩
  | succ n ih =>
    obtain ⟨hsound, hsize, hlookup⟩ := ih (by omega)
    refine ⟨hsound.insertEntry ?_ (fun ki hki => nomatch hki) rfl List.nodup_nil ?_, ?_, ?_⟩
    · rw [Option.eq_none_iff_forall_ne_some]
      intro e he
      obtain ⟨-, i, hi, heq⟩ := hlookup _ e he
      have := hash_chaff_inj (by omega) (by omega) heq
      omega
    · rw [hsize, size_chaff]
      omega
    · change (stocked n).currentSize + 26 = 26 * (n + 1)
      omega
    · intro k e he
      simp only [stocked, Mempool.insertEntry, OrdMap.lookup_insert] at he
      split_ifs at he with hk
      · cases he
        exact ⟨rfl, n, Nat.lt_succ_self n, hk⟩
      · obtain ⟨hsize', i, hi, hk'⟩ := hlookup k e he
        exact ⟨hsize', i, by omega, hk'⟩

theorem freed_eq_mul {p : Mempool Z} {hs : List Hash}
    (h : ∀ k ∈ hs, ∃ e, p.transactions.lookup k = some e ∧ e.size = 26) :
    p.freed hs = 26 * hs.length := by
  induction hs with
  | nil => rfl
  | cons k hs ih =>
    obtain ⟨e, he, hsize⟩ := h k (.head _)
    have hrow : p.table.rows.lookup k = some e := he
    have hrest := ih fun k' hk' => h k' (.tail _ hk')
    simp only [freed, Table.freed] at hrest
    simp only [freed, Table.freed, List.filterMap_cons_some hrow, List.map_cons, List.sum_cons,
      hrest, List.length_cons]
    change e.size + _ = _
    omega

theorem length_values_stocked : (stocked 100).byFee.values.length = 100 := by
  obtain ⟨hsound, hsize, hlookup⟩ := stocked_spec (le_refl 100)
  have htotal := hsound.consistent.total_eq
  rw [OrdMap.total_eq, List.sum_eq_card_nsmul _ 26] at htotal
  · have hlen := hsound.consistent.index_values_perm.length_eq
    change (stocked 100).currentSize = _ at htotal
    change (stocked 100).byFee.values.length = _ at hlen
    rw [List.length_map, smul_eq_mul] at htotal
    rw [OrdMap.keys, List.length_map] at hlen
    omega
  · intro x hx
    obtain ⟨e, he, rfl⟩ := List.mem_map.mp hx
    exact (hlookup e.1 e.2 (OrdMap.lookup_eq_some_iff.mpr he)).1

theorem sizeAfter_stocked {n : Nat} (hn : n ≤ 100) :
    (stocked 100).sizeAfter [] n = 26 * (100 - n) := by
  obtain ⟨hsound, hsize, hlookup⟩ := stocked_spec (le_refl 100)
  have hcand : (stocked 100).candidates [] = (stocked 100).byFee.values := by simp [candidates]
  have hfreed : (stocked 100).freed ((stocked 100).byFee.values.take n) = 26 * n := by
    rw [freed_eq_mul, List.length_take, length_values_stocked, min_eq_left hn]
    intro k hk
    obtain ⟨e, he⟩ := hsound.resident (List.mem_of_mem_take hk)
    exact ⟨e, he, (hlookup k e he).1⟩
  rw [sizeAfter, hcand, List.nil_append, hfreed, hsize]
  omega

theorem needsLastAttempt_bulk : NeedsLastAttempt suite (stocked 100) bulk := by
  obtain ⟨hsound, hsize, -⟩ := stocked_spec (le_refl 100)
  have hbulk : bulk.size suite = 2686 := by decide +kernel
  have hfee : (stocked 100).feeMultiplier = 8 := by
    rw [feeMultiplier, hsize, hsound.limit_eq]
    rfl
  rw [NeedsLastAttempt, hbulk, hfee, hsound.limit_eq]
  refine ⟨by decide, by decide, [], rfl, ?_, ?_⟩
  · rw [sizeAfter_stocked (by decide)]
    decide
  · rw [sizeAfter_stocked (by decide)]
    decide

/-- **A hundred residents for nothing.**  The pool has a hundred residents and the transaction needs
the room of all of them. -/
theorem hundred_evicted_for_nothing : (stocked 100).Sound suite 2700 ∧ ∃ p',
    (stocked 100).admitAfterChecks suite bulk (bulk.hash suite) 0 = (p', .error .mempoolFull) ∧
      p'.currentSize < (stocked 100).currentSize := by
  obtain ⟨hsound, -, -⟩ := stocked_spec (le_refl 100)
  exact ⟨hsound, needsLastAttempt_bulk.admitAfterChecks_eq hsound _ 0⟩

/-- **A transaction that fits nowhere** is turned down by a pool with three residents and leaves it
as it was. -/
theorem oversized_leaves_pool : (stocked 3).currentSize = 78 ∧
    (stocked 3).admitAfterChecks suite richSpend (richSpend.hash suite) 0 =
      (stocked 3, .error .mempoolFull) := by
  obtain ⟨hsound, hsize, -⟩ := stocked_spec (show 3 ≤ 100 by decide)
  have hfull : ((stocked 3).admitAfterChecks suite richSpend (richSpend.hash suite) 0).2 =
      .error .mempoolFull := by
    decide +kernel
  have hnot : ¬ NeedsLastAttempt suite (stocked 3) richSpend := by
    rintro ⟨-, -, replaced, -, hfits, -⟩
    have hlarge : 2700 < richSpend.size suite := by decide +kernel
    have hmax := hsound.limit_eq
    omega
  have hkeep := (failed_admission_unchanged_iff hsound).mpr hnot _ _ (eq_of_snd hfull)
  refine ⟨hsize, ?_⟩
  rw [eq_of_snd hfull, hkeep]

end Coincync.SmallChain
