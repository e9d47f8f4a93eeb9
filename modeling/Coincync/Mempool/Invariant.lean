/-
# The mempool's bookkeeping

The pool keeps four things that must agree: the transactions, the fee index, the key images and the
size.  They are a `Table` of the library, with the hash as key, the fee rate as rank, the key images
as marks and the size as weight; `remove` and the insertion are the table's operations
(`table_remove`, `table_insertEntry`), and every other operation is a composition of those two.
What is left to say is about admission: when it inserts, the key images are free -- the residents
that had them are gone -- and there is room (`admitAfterChecks_keeps`).
-/
import Coincync.Mempool.Pool

namespace Coincync

open Lib Except

namespace Mempool

variable {G : Type}

/-! ## 1. The pool as a table -/

/-- How an entry is ranked, marked and weighed. -/
def scheme : Scheme Hash (MempoolEntry G) FeeKey KeyImage where
  rank h e := ⟨e.feePerByte, h⟩
  marks e := e.tx.keyImages
  weight := MempoolEntry.size
  rank_key h := congrArg FeeKey.hash h

/-- The four things that must agree. -/
def table (p : Mempool G) : Table Hash (MempoolEntry G) FeeKey KeyImage :=
  ⟨p.transactions, p.byFee, p.keyImages, p.currentSize⟩

variable {p : Mempool G}

theorem table_remove (h : Hash) : (p.remove h).table = p.table.remove scheme h := by
  have hrow : p.table.rows.lookup h = p.transactions.lookup h := rfl
  unfold remove Table.remove
  rw [hrow]
  cases p.transactions.lookup h with
  | some e => rfl
  | none => rfl

theorem maxSize_remove (h : Hash) : (p.remove h).maxSize = p.maxSize := by
  unfold remove
  split
  · rfl
  · rfl

theorem table_removeAll {hs : List Hash} : ∀ {p : Mempool G},
    (p.removeAll hs).table = p.table.removeAll scheme hs := by
  induction hs with
  | nil => intro p; rfl
  | cons h hs ih =>
    intro p
    have hstep : p.removeAll (h :: hs) = (p.remove h).removeAll hs := rfl
    rw [hstep, ih, table_remove]
    rfl

theorem maxSize_removeAll {hs : List Hash} : ∀ {p : Mempool G},
    (p.removeAll hs).maxSize = p.maxSize := by
  induction hs with
  | nil => intro p; rfl
  | cons h hs ih => exact ih.trans (maxSize_remove h)

/-! ## 2. The invariant -/

variable {F : Type} [Field F] [AddCommGroup G] [Module F G] {S : Suite F G}

/-- An entry is what `MempoolEntry::new` makes of its transaction, stands under its hash, and is no
coinbase; its key images are distinct. -/
structure Proper (S : Suite F G) (h : Hash) (e : MempoolEntry G) : Prop where
  hash_eq : e.tx.hash S = h
  eq_new : e = .new S e.tx e.heightAdded e.addedTime
  no_coinbase : e.tx.isCoinbase = false
  images_nodup : e.tx.keyImages.Nodup

/-- **What holds of a pool with a size limit.** -/
structure Sound (S : Suite F G) (limit : Nat) (p : Mempool G) : Prop where
  consistent : p.table.Consistent scheme
  proper : ∀ h e, p.transactions.lookup h = some e → Proper S h e
  limit_eq : p.maxSize = limit
  fits : p.currentSize ≤ limit

variable {limit : Nat}

theorem sound_withMaxSize (limit : Nat) : (withMaxSize limit : Mempool G).Sound S limit where
  consistent := Table.consistent_empty scheme
  proper h e he := by cases he
  limit_eq := rfl
  fits := zero_le

variable (h : p.Sound S limit)

include h in
/-- **Removal keeps everything.** -/
theorem Sound.removeAll (hs : List Hash) : (p.removeAll hs).Sound S limit := by
  refine ⟨?_, ?_, maxSize_removeAll.trans h.limit_eq, ?_⟩
  · rw [table_removeAll]
    exact h.consistent.removeAll
  · intro k e he
    have hrow : (p.removeAll hs).table.rows.lookup k = some e := he
    rw [table_removeAll, Table.rows_removeAll] at hrow
    split_ifs at hrow
    exact h.proper k e hrow
  · have hsize : (p.removeAll hs).table.total ≤ p.table.total := by
      rw [table_removeAll]
      exact Table.total_removeAll_le
    exact le_trans hsize h.fits

include h in
theorem Sound.remove (k : Hash) : (p.remove k).Sound S limit := h.removeAll [k]

include h in
theorem Sound.evictLowestFee : p.evictLowestFee.Sound S limit := by
  unfold Mempool.evictLowestFee
  split
  · exact h.remove _
  · exact h

omit [AddCommGroup G] in
theorem lookup_evictLowestFee {k : Hash} {e : MempoolEntry G}
    (he : p.evictLowestFee.transactions.lookup k = some e) : p.transactions.lookup k = some e := by
  unfold evictLowestFee at he
  split at he
  · rename_i key _ _ _
    have hrow : (p.remove key.hash).table.rows.lookup k = some e := he
    rw [table_remove, Table.rows_remove] at hrow
    split_ifs at hrow
    exact hrow
  · exact he

/-! ## 3. Admission -/

omit [AddCommGroup G] in
theorem mem_noted {found : List Hash} {old x : Hash} :
    x ∈ (if old ∈ found then found else found ++ [old]) ↔ x ∈ found ∨ x = old := by
  split_ifs with hin
  · constructor
    · exact Or.inl
    · rintro (hx | rfl)
      · exact hx
      · exact hin
  · simp

include h in
/-- **Everything in the way is collected**: a resident with one of the key images is among the
replaced. -/
theorem collectReplaced_complete {newRate : Nat} {images : List KeyImage} :
    ∀ {found replaced : List Hash}, p.collectReplaced newRate images found = .ok replaced →
      (∀ x ∈ found, x ∈ replaced) ∧
        ∀ ki ∈ images, ∀ k e, p.transactions.lookup k = some e → ki ∈ e.tx.keyImages →
          k ∈ replaced := by
  induction images with
  | nil =>
    intro found replaced hc
    cases hc
    exact ⟨fun x hx => hx, fun ki hki => by cases hki⟩
  | cons ki images ih =>
    intro found replaced hc
    unfold collectReplaced at hc
    by_cases htaken : ki ∈ p.keyImages
    · rw [if_pos htaken] at hc
      cases hold : p.conflicting ki with
      | none =>
        rw [hold] at hc
        cases hc
      | some found' =>
        obtain ⟨old, entry⟩ := found'
        rw [hold] at hc
        dsimp only at hc
        by_cases hrate : replaces newRate entry.feePerByte = true
        · rw [if_pos hrate] at hc
          obtain ⟨hfound, hrest⟩ := ih hc
          refine ⟨fun x hx => hfound x (mem_noted.mpr (.inl hx)), ?_⟩
          intro ki' hki' k e he hmem
          rcases List.mem_cons.mp hki' with rfl | hki'
          · rw [show p.conflicting _ = _ from h.consistent.find_mark he hmem fun _ => Iff.rfl] at hold
            cases hold
            exact hfound _ (mem_noted.mpr (.inr rfl))
          · exact hrest ki' hki' k e he hmem
        · rw [if_neg hrate] at hc
          cases hc
    · rw [if_neg htaken] at hc
      obtain ⟨hfound, hrest⟩ := ih hc
      refine ⟨hfound, ?_⟩
      intro ki' hki' k e he hmem
      rcases List.mem_cons.mp hki' with rfl | hki'
      · exact absurd ((h.consistent.marked_iff _).mpr ⟨k, e, he, hmem⟩) htaken
      · exact hrest ki' hki' k e he hmem

/-- **What the eviction loop leaves**: a sound pool that holds nothing new, and room unless the loop
gave up. -/
theorem evictLoop_spec {size : Nat} (hsize : size ≤ limit) (attempts : Nat) :
    ∀ {p : Mempool G}, p.Sound S limit →
      (evictLoop size attempts p).1.Sound S limit ∧
        (∀ k e, (evictLoop size attempts p).1.transactions.lookup k = some e →
          p.transactions.lookup k = some e) ∧
        ((evictLoop size attempts p).2 = true →
          (evictLoop size attempts p).1.currentSize + size ≤ limit) := by
  induction attempts with
  | zero =>
    intro p h
    exact ⟨h, fun k e he => he, fun hfalse => by cases hfalse⟩
  | succ attempts ih =>
    intro p h
    have hevict := h.evictLowestFee
    unfold evictLoop
    dsimp only
    split_ifs with hroom
    · refine ⟨h, fun k e he => he, fun _ => ?_⟩
      rcases hroom with hroom | hempty
      · rwa [h.limit_eq] at hroom
      · -- an empty pool has size 0
        have hzero : p.currentSize = 0 :=
          h.consistent.total_eq.trans (OrdMap.total_eq_zero_of_isEmpty _ hempty)
        rw [hzero, zero_add]
        exact hsize
    · exact ⟨hevict, fun k e => lookup_evictLowestFee, fun hfalse => by cases hfalse⟩
    · obtain ⟨hsound, hsub, hfits⟩ := ih hevict
      exact ⟨hsound, fun k e he => lookup_evictLowestFee (hsub k e he), hfits⟩

variable {tx : Transaction G}

section

variable (h : p.Sound S limit) (hnew : p.transactions.lookup (tx.hash S) = none)
include h hnew

/-- **Inserting a new transaction with free key images, for which there is room.** -/
theorem Sound.insertEntry {height time : Nat}
    (hfree : ∀ ki ∈ tx.keyImages, ki ∉ p.keyImages) (htx : tx.isCoinbase = false)
    (himages : tx.keyImages.Nodup) (hroom : p.currentSize + max (tx.size S) 1 ≤ limit) :
    (p.insertEntry (tx.hash S) (.new S tx height time)).Sound S limit := by
  refine ⟨?_, ?_, h.limit_eq, hroom⟩
  · exact h.consistent.insert hnew hfree
  · intro k e he
    simp only [Mempool.insertEntry, OrdMap.lookup_insert] at he
    split_ifs at he with hk
    · cases he
      exact ⟨hk.symm, rfl, htx, himages⟩
    · exact h.proper k e he

section

variable (htx : tx.isCoinbase = false) (himages : tx.keyImages.Nodup) (hpos : 1 ≤ tx.size S)
include htx himages hpos

/-- **The end of a successful admission**: with the replaced residents gone and room made, the new
transaction goes in. -/
theorem Sound.replace {now height newRate : Nat} {replaced : List Hash} (hsize : tx.size S ≤ limit)
    (hcollect : p.collectReplaced newRate tx.keyImages [] = .ok replaced)
    (hevicted : (evictLoop (tx.size S) maxEvictionAttempts (p.removeAll replaced)).2 = true) :
    ((evictLoop (tx.size S) maxEvictionAttempts (p.removeAll replaced)).1.insertEntry (tx.hash S)
      (.new S tx height now)).Sound S limit := by
  obtain ⟨hsound, hsub, hroom⟩ :=
    evictLoop_spec hsize maxEvictionAttempts (h.removeAll replaced)
  -- what is left was there before, and was not replaced
  have hleft : ∀ k e, (evictLoop (tx.size S) maxEvictionAttempts
      (p.removeAll replaced)).1.transactions.lookup k = some e →
      p.transactions.lookup k = some e ∧ k ∉ replaced := by
    intro k e he
    have hrow : (p.removeAll replaced).table.rows.lookup k = some e := hsub k e he
    rw [table_removeAll, Table.rows_removeAll] at hrow
    split_ifs at hrow with hk
    exact ⟨hrow, hk⟩
  refine hsound.insertEntry ?_ ?_ htx himages ?_
  · rw [Option.eq_none_iff_forall_ne_some]
    intro e he
    rw [(hleft _ e he).1] at hnew
    cases hnew
  · intro ki hki htaken
    obtain ⟨k, e, he, hmem⟩ := (hsound.consistent.marked_iff ki).mp htaken
    obtain ⟨hold, hkeep⟩ := hleft k e he
    exact hkeep ((collectReplaced_complete h hcollect).2 ki hki k e hold hmem)
  · rw [max_eq_left hpos]
    exact hroom hevicted

/-- **Admission keeps the invariant**, whether it succeeds or fails half way. -/
theorem Sound.admitAfterChecks {now : Nat} :
    (p.admitAfterChecks S tx (tx.hash S) now).1.Sound S limit := by
  unfold Mempool.admitAfterChecks
  dsimp only
  split_ifs
  · exact h
  · exact h
  · split
    · exact h
    · rename_i replaced hcollect
      split_ifs with hfull hevicted
      · exact h
      · have hsize : tx.size S ≤ limit := by
          have := h.limit_eq
          omega
        exact h.replace hnew htx himages hpos hsize hcollect hevicted
      · have hsize : tx.size S ≤ limit := by
          have := h.limit_eq
          omega
        exact (evictLoop_spec hsize _ (h.removeAll replaced)).1

end

end

section

variable [DecidableEq G]

theorem preflightCheck_ok (h : preflightCheck S tx = .ok ()) :
    tx.isCoinbase = false ∧ validateTransactionBasic S tx = .ok () := by
  unfold preflightCheck at h
  rw [bind_ok_iff, require_ok_iff, bind_ok_iff] at h
  obtain ⟨hcb, hbasic, -⟩ := h
  exact ⟨hcb, mapError_eq_ok_iff.mp hbasic⟩

omit [DecidableEq G] in
theorem validateTransactionBasic_ok (h : validateTransactionBasic S tx = .ok ()) :
    minTxSize ≤ tx.size S ∧ tx.size S ≤ maxTxSize ∧ tx.keyImages.Nodup := by
  unfold validateTransactionBasic at h
  simp only [bind_ok_iff, checkBasicHead_ok_iff] at h
  obtain ⟨hhead, -, htail⟩ := h
  unfold checkBasicTail at htail
  simp only [bind_ok_iff, checkAllNew_ok_iff] at htail
  exact ⟨hhead.2.2.2.2.1, hhead.2.2.2.1, htail.2.1.1⟩

variable [DecidableEq F]

include h in
/-- **Admission of any transaction keeps the invariant.** -/
theorem Sound.add (ctx : CallContext G) (tx : Transaction G) (now : Nat) :
    (p.add S ctx tx now).1.Sound S limit := by
  unfold Mempool.add
  dsimp only
  split
  · exact h
  · rename_i hpre
    obtain ⟨htx, hbasic⟩ := preflightCheck_ok hpre
    obtain ⟨hsize, -, himages⟩ := validateTransactionBasic_ok hbasic
    split_ifs with hthere
    · exact h
    · split
      · exact h
      · have hnew : p.transactions.lookup (tx.hash S) = none := by simpa using hthere
        exact h.admitAfterChecks hnew htx himages (le_trans (by decide) hsize)

end

/-! ## 4. Every sequence of operations -/

/-- The operations of the pool. -/
inductive Op (G : Type)
  | add (ctx : CallContext G) (tx : Transaction G) (now : Nat)
  | remove (txHash : Hash)
  | removeConfirmed (txs : List (Transaction G))
  | setHeight (height : Nat)
  | expireOld (maxAgeSecs now : Nat)
  | shadowEvictInvalid (valid : Transaction G → Bool)
  | removeConflicts (keyImages : List KeyImage)
  | clear

variable [DecidableEq F] [DecidableEq G]

/-- One operation. -/
def step (S : Suite F G) (p : Mempool G) : Op G → Option (Mempool G)
  | .add ctx tx now => some (p.add S ctx tx now).1
  | .remove txHash => some (p.remove txHash)
  | .removeConfirmed txs => some (p.removeConfirmed S txs)
  | .setHeight height => some (p.setHeight height)
  | .expireOld maxAgeSecs now => some (p.expireOld maxAgeSecs now)
  | .shadowEvictInvalid valid => some (p.shadowEvictInvalid valid)
  | .removeConflicts keyImages => some (p.removeConflicts keyImages)
  | .clear => some p.clear

include h in
/-- **One operation keeps the invariant.** -/
theorem Sound.step {p' : Mempool G} {op : Op G}
    (hstep : Mempool.step S p op = some p') : p'.Sound S limit := by
  cases op with
  | add ctx tx now =>
    cases hstep
    exact h.add ctx tx now
  | remove txHash =>
    cases hstep
    exact h.remove txHash
  | removeConfirmed txs =>
    cases hstep
    exact (h.removeAll _).removeAll _
  | setHeight height =>
    cases hstep
    have hset : ({ p with chainHeight := height } : Mempool G).Sound S limit :=
      ⟨h.consistent, h.proper, h.limit_eq, h.fits⟩
    exact hset.removeAll _
  | expireOld maxAgeSecs now =>
    cases hstep
    exact h.removeAll _
  | shadowEvictInvalid valid =>
    cases hstep
    exact h.removeAll _
  | removeConflicts keyImages =>
    cases hstep
    exact h.removeAll _
  | clear =>
    cases hstep
    exact ⟨Table.consistent_empty scheme, fun k e he => (by cases he), h.limit_eq, zero_le⟩

include h in
/-- **Every sequence of operations keeps the invariant.** -/
theorem Sound.reaches {p' : Mempool G}
    (hrun : Reaches (Mempool.step S) (fun _ _ => True) p p') : p'.Sound S limit :=
  hrun.invariant h fun _ _ _ hs _ hstep => hs.step hstep

/-- **The pool's bookkeeping agrees after every sequence of operations.** -/
theorem mempool_bookkeeping {limit : Nat} {p : Mempool G}
    (hrun : Reaches (step S) (fun _ _ => True) (withMaxSize limit) p) :
    (∀ key h, p.byFee.lookup key = some h ↔
        ∃ e, p.transactions.lookup h = some e ∧
          key = ⟨scaledFeePerByte e.tx.fee.val (e.tx.size S), h⟩) ∧
      (∀ ki, ki ∈ p.keyImages ↔
        ∃ h e, p.transactions.lookup h = some e ∧ ki ∈ e.tx.keyImages) ∧
      (∀ h e, p.transactions.lookup h = some e → e.tx.keyImages.Nodup) ∧
      (∀ h h' e e', p.transactions.lookup h = some e → p.transactions.lookup h' = some e' →
        h ≠ h' → e.tx.keyImages.Disjoint e'.tx.keyImages) ∧
      p.currentSize = (p.transactions.values.map MempoolEntry.size).sum ∧
      p.maxSize = limit ∧ p.currentSize ≤ p.maxSize := by
  have hsound := (sound_withMaxSize (S := S) limit).reaches hrun
  have hrate : ∀ h e, p.transactions.lookup h = some e →
      e.feePerByte = scaledFeePerByte e.tx.fee.val (e.tx.size S) := by
    intro h e he
    rw [(hsound.proper h e he).eq_new]
    rfl
  refine ⟨?_, ?_, ?_, ?_, ?_, hsound.limit_eq, ?_⟩
  · intro key h
    rw [show p.byFee = p.table.index from rfl, hsound.consistent.index_iff]
    constructor
    · rintro ⟨e, he, rfl⟩
      exact ⟨e, he, congrArg (FeeKey.mk · h) (hrate h e he)⟩
    · rintro ⟨e, he, rfl⟩
      exact ⟨e, he, congrArg (FeeKey.mk · h) (hrate h e he)⟩
  · exact hsound.consistent.marked_iff
  · intro h e he
    exact (hsound.proper h e he).images_nodup
  · intro h h' e e' he he' hne ki hki hki'
    exact hne (hsound.consistent.unshared h e h' e' ki he he' hki hki')
  · exact hsound.consistent.total_eq
  · rw [hsound.limit_eq]
    exact hsound.fits

end Mempool

namespace SmallChain

open SmallSuite Mempool

/-- The transfer again, at a third more fee. -/
def dearerSpend : Transaction Z := { maturedSpend with fee := ⟨16040000⟩ }

def replacing : List (Op Z) :=
  [.add hitCtx maturedSpend 1000, .add hitCtx dearerSpend 1001, .setHeight 12]

/-- **A replacement**: the pool has the dearer transfer alone. -/
theorem replaced_spend_bookkeeping :
    ∃ p, Reaches (step suite) (fun _ _ => True) (withMaxSize 100000) p ∧
      p.transactions.values.map MempoolEntry.tx = [dearerSpend] ∧
      (∀ ki, ki ∈ p.keyImages ↔
        ∃ h e, p.transactions.lookup h = some e ∧ ki ∈ e.tx.keyImages) ∧
      p.currentSize = (p.transactions.values.map MempoolEntry.size).sum ∧
      p.currentSize ≤ p.maxSize := by
  have hrun : ((run (step suite) (fun _ _ => true) (withMaxSize 100000) replacing).any fun p =>
      decide (p.transactions.values.map MempoolEntry.tx = [dearerSpend])) = true := by
    decide +kernel
  obtain ⟨p, hp, hlast⟩ := (Option.any_eq_true _ _).mp hrun
  have hreach : Reaches (step suite) (fun _ _ => True) (withMaxSize 100000) p :=
    .run (fun _ _ _ => trivial) .start hp
  obtain ⟨-, himages, -, -, hsize, -, hfits⟩ := mempool_bookkeeping hreach
  exact ⟨p, hreach, of_decide_eq_true hlast, himages, hsize, hfits⟩

end SmallChain

end Coincync
