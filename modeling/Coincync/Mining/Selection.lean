/-
# What a template may contain

The pool hands out transactions by fee rate, within a byte budget and without a key image twice, and
the template keeps those the chain accepts ONE BY ONE.  The rules of a block about all its
transactions together are more than that.  Size, weight, count and key images come out right for
every pool (`limits_of_template`).  Two rules do not: no two transactions of a block may pay the same
address, and each must pay the fee that the fullness of the WHOLE block asks for, which may be three
times what got it into the pool.
-/
import Coincync.Chain.Addresses
import Coincync.Mempool.Admission
import Coincync.Mining.Template

namespace Coincync

open Lib List Option

variable {U : UtxoSet}

/-! ## 1. What the pool hands out -/

namespace Mempool

section

variable {G : Type} {p : Mempool G}

/-- **What the selection loop picks** of the residents it is shown: a sublist, within the limits,
that keeps the key images apart. -/
structure Picks (p : Mempool G) (maxSize maxCount : Nat) (hs : List Hash)
    (sel : List (Transaction G)) (total : Nat) (images : List KeyImage)
    (es : List (MempoolEntry G)) : Prop where
  sublist : es.Sublist (hs.filterMap p.transactions.lookup)
  result : p.selectLoop maxSize maxCount hs sel total images = sel ++ es.map MempoolEntry.tx
  size : total + (es.map MempoolEntry.size).sum ≤ maxSize
  count : sel.length + es.length ≤ maxCount
  apart : (images ++ es.flatMap fun e => e.tx.keyImages).Nodup

variable {maxSize maxCount total : Nat} {sel : List (Transaction G)} {images : List KeyImage}
  {h : Hash} {hs : List Hash} {e : MempoolEntry G} {es : List (MempoolEntry G)}

theorem Picks.none (htotal : total ≤ maxSize) (hcount : sel.length ≤ maxCount)
    (hnodup : images.Nodup) (hstop : p.selectLoop maxSize maxCount hs sel total images = sel) :
    Picks p maxSize maxCount hs sel total images [] where
  sublist := nil_sublist _
  result := by simpa using hstop
  size := by simpa using htotal
  count := by simpa using hcount
  apart := by simpa using hnodup

theorem Picks.skip (hpicks : Picks p maxSize maxCount hs sel total images es)
    (hskip : p.selectLoop maxSize maxCount (h :: hs) sel total images =
      p.selectLoop maxSize maxCount hs sel total images) :
    Picks p maxSize maxCount (h :: hs) sel total images es where
  sublist := hpicks.sublist.trans ((sublist_cons_self h hs).filterMap _)
  result := hskip.trans hpicks.result
  size := hpicks.size
  count := hpicks.count
  apart := hpicks.apart

theorem Picks.take (he : p.transactions.lookup h = some e)
    (hpicks : Picks p maxSize maxCount hs (sel ++ [e.tx]) (total + e.size)
      (images ++ e.tx.keyImages) es)
    (htake : p.selectLoop maxSize maxCount (h :: hs) sel total images =
      p.selectLoop maxSize maxCount hs (sel ++ [e.tx]) (total + e.size)
        (images ++ e.tx.keyImages)) :
    Picks p maxSize maxCount (h :: hs) sel total images (e :: es) where
  sublist := by
    rw [filterMap_cons_some he]
    exact hpicks.sublist.cons_cons e
  result := by
    rw [htake, hpicks.result, append_assoc]
    rfl
  size := by
    have := hpicks.size
    simp only [map_cons, sum_cons]
    omega
  count := by
    have := hpicks.count
    simp only [length_append, length_cons] at this ⊢
    omega
  apart := by
    have := hpicks.apart
    rwa [flatMap_cons, ← append_assoc]

/-- **The loop, one resident after the other.** -/
theorem exists_picks (himages : ∀ h e, p.transactions.lookup h = some e → e.tx.keyImages.Nodup) :
    ∀ {hs : List Hash} {sel : List (Transaction G)} {total : Nat} {images : List KeyImage},
      total ≤ maxSize → sel.length ≤ maxCount → images.Nodup →
        ∃ es, Picks p maxSize maxCount hs sel total images es := by
  intro hs
  induction hs with
  | nil =>
    intro sel total images htotal hcount hnodup
    exact ⟨[], .none htotal hcount hnodup rfl⟩
  | cons h hs ih =>
    intro sel total images htotal hcount hnodup
    by_cases hfull : maxCount ≤ sel.length
    · exact ⟨[], .none htotal hcount hnodup (by rw [selectLoop, if_pos hfull])⟩
    · cases he : p.transactions.lookup h with
      | none =>
        obtain ⟨es, hes⟩ := ih htotal hcount hnodup
        exact ⟨es, hes.skip (by rw [selectLoop, if_neg hfull, he])⟩
      | some e =>
        by_cases hfits : total + e.size ≤ maxSize
        · by_cases hclash : (e.tx.keyImages.any fun ki => images.contains ki) = true
          · obtain ⟨es, hes⟩ := ih htotal hcount hnodup
            refine ⟨es, hes.skip ?_⟩
            simp only [selectLoop, if_neg hfull, he, if_pos hfits, if_pos hclash]
          · have hapart : (images ++ e.tx.keyImages).Nodup := by
              refine nodup_append'.mpr ⟨hnodup, himages h e he, ?_⟩
              intro ki hki hki'
              exact hclash (List.any_eq_true.mpr ⟨ki, hki', by simpa using hki⟩)
            have hlength : (sel ++ [e.tx]).length ≤ maxCount := by
              rw [length_append, length_singleton]
              omega
            obtain ⟨es, hes⟩ := ih hfits hlength hapart
            refine ⟨e :: es, hes.take he ?_⟩
            simp only [selectLoop, if_neg hfull, he, if_pos hfits, if_neg hclash]
        · obtain ⟨es, hes⟩ := ih htotal hcount hnodup
          refine ⟨es, hes.skip ?_⟩
          simp only [selectLoop, if_neg hfull, he, if_neg hfits]

/-- **With room for all it picks all.** -/
theorem selectLoop_all (hunshared : ∀ h e h' e' ki, p.transactions.lookup h = some e →
      p.transactions.lookup h' = some e' → ki ∈ e.tx.keyImages → ki ∈ e'.tx.keyImages → h = h') :
    ∀ {sel : List (Transaction G)} {total : Nat} {images : List KeyImage},
      hs.Nodup → (∀ h ∈ hs, (p.transactions.lookup h).isSome = true) →
      total + ((hs.filterMap p.transactions.lookup).map MempoolEntry.size).sum ≤ maxSize →
      sel.length + hs.length ≤ maxCount →
      (∀ h ∈ hs, ∀ e, p.transactions.lookup h = some e → ∀ ki ∈ e.tx.keyImages, ki ∉ images) →
      p.selectLoop maxSize maxCount hs sel total images =
        sel ++ (hs.filterMap p.transactions.lookup).map MempoolEntry.tx := by
  induction hs with
  | nil =>
    intro sel total images _ _ _ _ _
    simp [selectLoop]
  | cons h hs ih =>
    intro sel total images hnodup hthere hsize hcount hfree
    obtain ⟨hnotin, hnodup'⟩ := nodup_cons.mp hnodup
    obtain ⟨e, he⟩ := isSome_iff_exists.mp (hthere h (.head _))
    rw [filterMap_cons_some he] at hsize ⊢
    simp only [map_cons, sum_cons, length_cons] at hsize hcount ⊢
    have hclash : ¬(e.tx.keyImages.any fun ki => images.contains ki) = true := by
      rw [List.any_eq_true]
      rintro ⟨ki, hki, hin⟩
      exact hfree h mem_cons_self e he ki hki (by simpa using hin)
    unfold selectLoop
    rw [if_neg (by omega), he]
    dsimp only
    rw [if_pos (by omega), if_neg hclash, ih hnodup' ?_ ?_ ?_ ?_]
    · rw [append_assoc]
      rfl
    · exact fun h' hh' => hthere h' (.tail _ hh')
    · omega
    · rw [length_append, length_singleton]
      omega
    · intro h' hh' e' he' ki hki hin
      rcases mem_append.mp hin with hin | hin
      · exact hfree h' (.tail _ hh') e' he' ki hki hin
      · exact hnotin (hunshared h e h' e' ki he he' hin hki ▸ hh')

end

variable {F G : Type} [Field F] [AddCommGroup G] [Module F G] {S : Suite F G} {p : Mempool G}
  {limit : Nat}

theorem Sound.residents_perm (h : p.Sound S limit) :
    (p.byFee.values.reverse.filterMap p.transactions.lookup).Perm p.transactions.values := by
  have hperm : p.byFee.values.reverse.Perm p.transactions.keys :=
    (reverse_perm _).trans h.consistent.index_values_perm
  have hlookup := hperm.filterMap p.transactions.lookup
  rwa [OrdMap.filterMap_keys p.transactions] at hlookup

theorem Sound.residents_nodup (h : p.Sound S limit) : p.transactions.values.Nodup := by
  refine List.Nodup.map_on ?_ p.transactions.nodup_keys.of_map
  intro e he e' he' heq
  have hkey := (h.proper e.1 e.2 (OrdMap.lookup_eq_some_iff.mpr he)).hash_eq
  have hkey' := (h.proper e'.1 e'.2 (OrdMap.lookup_eq_some_iff.mpr he')).hash_eq
  exact Prod.ext (by rw [← hkey, ← hkey', heq]) heq

omit [AddCommGroup G] in
theorem mem_residents {e : MempoolEntry G} :
    e ∈ p.transactions.values ↔ ∃ h, p.transactions.lookup h = some e := by
  rw [OrdMap.values, List.mem_map]
  constructor
  · rintro ⟨⟨k, e⟩, he, rfl⟩
    exact ⟨k, OrdMap.lookup_eq_some_iff.mpr he⟩
  · rintro ⟨k, hk⟩
    exact ⟨(k, e), OrdMap.lookup_eq_some_iff.mp hk, rfl⟩

/-- **What `get_block_transactions` hands out.** -/
theorem Sound.getBlockTransactions (h : p.Sound S limit) (maxSize maxCount : Nat) :
    ∃ es : List (MempoolEntry G),
      p.getBlockTransactions maxSize maxCount = es.map MempoolEntry.tx ∧
      (∀ e ∈ es, e ∈ p.transactions.values) ∧ es.Nodup ∧
      (es.map MempoolEntry.size).sum ≤ min maxSize p.currentSize ∧ es.length ≤ maxCount ∧
      (es.flatMap fun e => e.tx.keyImages).Nodup := by
  obtain ⟨es, hes⟩ : ∃ es, Picks p maxSize maxCount p.byFee.values.reverse [] 0 [] es :=
    exists_picks (fun k e he => (h.proper k e he).images_nodup) zero_le zero_le
      nodup_nil
  have hperm := h.residents_perm
  have hsize := hes.size
  have hcount := hes.count
  refine ⟨es, hes.result, ?_, ?_, ?_, by simpa using hcount, by simpa using hes.apart⟩
  · exact fun e he => hperm.subset (hes.sublist.subset he)
  · exact hes.sublist.nodup (hperm.nodup_iff.mpr h.residents_nodup)
  · have htotal : (es.map MempoolEntry.size).sum ≤ p.currentSize := by
      have hle := (hes.sublist.map MempoolEntry.size).sum_le_sum fun _ _ => zero_le
      rw [(hperm.map MempoolEntry.size).sum_eq] at hle
      exact hle.trans h.consistent.total_eq.ge
    exact le_min (by omega) htotal

/-- **A small pool is handed out as a whole.** -/
theorem Sound.getBlockTransactions_all (h : p.Sound S limit) {maxSize maxCount : Nat}
    (hsize : p.currentSize ≤ maxSize) (hcount : p.transactions.entries.length ≤ maxCount) :
    (p.getBlockTransactions maxSize maxCount).Perm
      (p.transactions.values.map MempoolEntry.tx) := by
  have hkeys : p.byFee.values.reverse.Perm p.transactions.keys :=
    (reverse_perm _).trans h.consistent.index_values_perm
  have hperm := h.residents_perm
  have hthere : ∀ k ∈ p.byFee.values.reverse, (p.transactions.lookup k).isSome = true :=
    fun k hk => OrdMap.mem_keys.mp (hkeys.subset hk)
  have htotal : 0 + ((p.byFee.values.reverse.filterMap p.transactions.lookup).map
      MempoolEntry.size).sum ≤ maxSize := by
    rw [(hperm.map MempoolEntry.size).sum_eq, zero_add]
    exact le_trans h.consistent.total_eq.symm.le hsize
  have hlength : ([] : List (Transaction G)).length + p.byFee.values.reverse.length ≤ maxCount := by
    rw [length_nil, zero_add, hkeys.length_eq, OrdMap.keys, length_map]
    exact hcount
  have hall : p.getBlockTransactions maxSize maxCount =
      [] ++ (p.byFee.values.reverse.filterMap p.transactions.lookup).map MempoolEntry.tx :=
    selectLoop_all (fun k e k' e' ki he he' => h.consistent.unshared k e k' e' ki he he')
      (hkeys.nodup_iff.mpr p.transactions.nodup_keys) hthere htotal hlength
      fun _ _ _ _ _ _ hin => by cases hin
  rw [hall, nil_append]
  exact hperm.map _

end Mempool

section

variable {F G : Type} [Field F] [AddCommGroup G] [Module F G] {S : Suite F G}

/-! ## 2. Weight -/

theorem length_decodeRing {members : List RingMemberRef} : ∀ {ring : List (RingMember G)},
    decodeRing S members = some ring → ring.length = members.length := by
  induction members with
  | nil =>
    intro ring h
    cases h
    rfl
  | cons m t ih =>
    intro ring h
    simp only [decodeRing, bind_eq_some_iff, map_eq_some_iff] at h
    obtain ⟨_, -, _, -, rest, hrest, rfl⟩ := h
    rw [length_cons, length_cons, ih hrest]

theorem ring_bytes_le {i : TxInput G} (h : i.signature.responses.length = i.ringMembers.length) :
    96 * i.ringMembers.length ≤ (i.toBytes S).length := by
  have hmember : ∀ m : RingMemberRef, m.toBytes.length = 64 := by
    intro m
    simp [RingMemberRef.toBytes]
  have hmembers : (i.ringMembers.flatMap RingMemberRef.toBytes).length =
      64 * i.ringMembers.length := by
    rw [length_flatMap, map_congr_left fun m _ => hmember m]
    simp [mul_comm]
  have hresponses : (i.signature.responses.flatMap List.Vector.toList).length =
      32 * i.ringMembers.length := by
    rw [length_flatMap, map_congr_left fun r _ => r.toList_length, ← h]
    simp [mul_comm]
  simp only [TxInput.toBytes, vecBytes, ClsagSignature.toBytes, length_append, hmembers, hresponses]
  omega

variable {tx : Transaction G}

/-- **The weight of a transaction is at most four times its size**, if every ring member has its
response. -/
theorem weight_le (h : ∀ i ∈ tx.inputs, i.signature.responses.length = i.ringMembers.length) :
    tx.size S + (tx.inputs.map fun i => i.ringMembers.length).sum * 256 ≤ 4 * tx.size S := by
  have hinputs : 96 * (tx.inputs.map fun i => i.ringMembers.length).sum ≤
      (tx.inputs.flatMap (TxInput.toBytes S)).length := by
    rw [length_flatMap, ← sum_map_mul_left]
    exact sum_le_sum fun i hi => ring_bytes_le (h i hi)
  have hsize : (tx.inputs.flatMap (TxInput.toBytes S)).length ≤ tx.size S := by
    simp only [Transaction.size, Transaction.toBytes, vecBytes, length_append]
    omega
  omega

variable [DecidableEq F] [DecidableEq G] {cfg : NodeConfig} {ctx : CallContext G}

theorem responses_of_clsagVerifyInput {i : TxInput G} (h : clsagVerifyInput S tx i = true) :
    i.signature.responses.length = i.ringMembers.length := by
  unfold clsagVerifyInput at h
  split at h
  · cases h
  · rename_i ring hring
    split at h
    · cases h
    · unfold clsagVerify at h
      dsimp only at h
      split at h
      · cases h
      · rename_i hlen
        rw [← length_decodeRing hring]
        by_contra hne
        exact hlen (.inl hne)

/-- The signature cache answers for signatures that have verified. -/
def CacheSound (S : Suite F G) (ctx : CallContext G) : Prop := ∀ tx, HitsVerified S ctx tx

/-- **A response for each ring member.**  What has verified for another input has one for each member
of that input's ring, and all rings have the exact size. -/
theorem TxChecks.responses {height : Nat} {v1012Active : Bool}
    (h : TxChecks S cfg ctx tx U height v1012Active) (hcache : CacheSound S ctx) :
    ∀ i ∈ tx.inputs, i.signature.responses.length = i.ringMembers.length := by
  intro i hi
  obtain ⟨n, hn⟩ := getElem?_of_mem hi
  have hverdict := checkAll_ok_iff.mp h.ringSignatures (i, n)
    (mem_zipIdx_iff_getElem?.mpr hn)
  rw [require_ok_iff, ringSigVerdict, Bool.or_eq_true] at hverdict
  rcases hverdict with hhit | hverify
  · obtain ⟨j, hj, hverify⟩ := hcache tx n i hn hhit
    exact (responses_of_clsagVerifyInput hverify).trans
      ((h.ringMembers_length S hj).trans (h.ringMembers_length S hi).symm)
  · exact responses_of_clsagVerifyInput hverify

/-! ## 3. Addresses and fees -/

section

omit [Field F] [AddCommGroup G] [Module F G] [DecidableEq F] [DecidableEq G]

/-- The addresses a transaction pays. -/
def Transaction.addresses (tx : Transaction G) : List (FixedBytes 32) :=
  tx.outputs.map fun o => o.stealthAddress.bytes

theorem addresses_positionedOutputs (b : Block G) :
    (positionedOutputs b).map (fun o => o.1.stealthAddress.bytes) =
      b.transactions.flatMap Transaction.addresses := by
  unfold positionedOutputs
  rw [map_flatMap]
  conv_rhs => rw [← zipIdx_map_fst 0 b.transactions, flatMap_map]
  refine flatMap_congr fun tx _ => ?_
  conv_rhs => rw [Transaction.addresses, ← zipIdx_map_fst 0 tx.1.outputs, List.map_map]
  rw [List.map_map]
  rfl

end

theorem TxChecks.addresses_nodup {height : Nat} (h : TxChecks S cfg ctx tx U height true) :
    tx.addresses.Nodup := by
  have hring := h.ringMembers
  simp only [checkTxRingMembers, Except.bind_ok_iff, checkIf_ok_iff, forall_const,
    checkTxStealthAddresses, checkAllNew_ok_iff] at hring
  have hnodup := hring.1.1
  rwa [show (fun o : TxOutput × Nat => o.1.stealthAddress.bytes) =
      (fun o : TxOutput => o.stealthAddress.bytes) ∘ Prod.fst from rfl, ← List.map_map,
    zipIdx_map_fst] at hnodup

/-- A transaction pays the minimum fee of a multiplier. -/
def Pays (S : Suite F G) (multiplier : Nat) (tx : Transaction G) : Prop :=
  ∃ minimum, dynamicMin (tx.size S) multiplier = some minimum ∧ minimum ≤ tx.fee.val

omit [DecidableEq F] [DecidableEq G] in
theorem feeErrors_eq_nil_iff {multiplier n : Nat} :
    feeErrors S multiplier (tx, n) = [] ↔ Pays S multiplier tx := by
  unfold feeErrors Pays
  cases dynamicMin (tx.size S) multiplier with
  | none => simp
  | some minimum => simp [errorUnless_eq_nil_iff]

omit [DecidableEq F] [DecidableEq G] in
theorem Pays.mono {m m' : Nat} (h : Pays S m tx) (hm : m' ≤ m) : Pays S m' tx := by
  obtain ⟨minimum, hmin, hfee⟩ := h
  unfold dynamicMin at hmin
  split_ifs at hmin with hfits
  cases hmin
  have hmul : tx.size S * minFeePerByte * m' ≤ tx.size S * minFeePerByte * m :=
    Nat.mul_le_mul_left _ hm
  refine ⟨tx.size S * minFeePerByte * m' / 100, ?_, ?_⟩
  · unfold dynamicMin
    rw [if_pos ⟨hfits.1, by omega⟩]
  · exact (Nat.div_le_div_right hmul).trans hfee

theorem congestionMultiplier_mono {a b : Nat} (h : a ≤ b) :
    congestionMultiplier (congestionPct a) ≤ congestionMultiplier (congestionPct b) := by
  have hpct : congestionPct a ≤ congestionPct b :=
    Nat.div_le_div_right (Nat.mul_le_mul_right 100 h)
  unfold congestionMultiplier
  split_ifs <;> omega

/-! ## 4. The rules of a block -/

/-- **The rules of a block about its transactions together.** -/
structure BlockRules (S : Suite F G) (network : NetworkType) (b : Block G) : Prop where
  size : checkBlockSize (b.size S) = []
  weight : checkBlockWeight S b = []
  count : checkBlockTxCount b = []
  keyImages : checkBlockDuplicateKeyImages b = []
  stealth : v1012RulesActive network b.height = true → checkBlockDuplicateStealth b = []
  fees : (nonFirst b).flatMap (feeErrors S (congestionMultiplier (congestionPct (b.size S)))) = []

theorem BlockChecks.stealth {network : NetworkType} {b : Block G} {prev : Option (Block G)}
    {cp : Option Nat} (h : BlockChecks S cfg ctx b prev U cp network)
    (hrules : v1012RulesActive network b.height = true) : checkBlockDuplicateStealth b = [] := by
  obtain ⟨maxCb, -, hd⟩ := h.coinbase
  simp only [coinbaseAndDuplicateErrors, append_eq_nil_iff] at hd
  have hstealth := hd.2
  rwa [if_pos hrules] at hstealth

/-- **A block around a list of transactions**, with the facts about its coinbase. -/
structure Assembled (S : Suite F G) (b : Block G) (address : PublicKey) (coinbaseSize : Nat)
    (txs : List (Transaction G)) : Prop where
  transactions : ∃ coinbase, b.transactions = coinbase :: txs ∧ coinbase.inputs = [] ∧
    coinbase.size S = coinbaseSize ∧ coinbase.addresses = [address.bytes]

namespace Assembled

variable {b : Block G} {address : PublicKey} {coinbaseSize : Nat} {txs : List (Transaction G)}

omit [DecidableEq F] [DecidableEq G]

section

variable (h : Assembled S b address coinbaseSize txs)

include h

theorem size_eq : b.size S = 200 + coinbaseSize + (txs.map (Transaction.size S)).sum := by
  obtain ⟨coinbase, hb, -, hsize, -⟩ := h.transactions
  rw [Block.size, hb, map_cons, sum_cons, hsize]
  omega

theorem mem_nonFirst_iff : (∃ n, (tx, n) ∈ nonFirst b) ↔ tx ∈ txs := by
  obtain ⟨coinbase, hb, -, -, -⟩ := h.transactions
  constructor
  · rintro ⟨n, hn⟩
    unfold nonFirst at hn
    rw [hb, zipIdx_cons, drop_one, tail_cons] at hn
    exact fst_mem_of_mem_zipIdx hn
  · exact fun htx => mem_nonFirst hb htx

theorem fees_iff {multiplier : Nat} :
    (nonFirst b).flatMap (feeErrors S multiplier) = [] ↔ ∀ tx ∈ txs, Pays S multiplier tx := by
  rw [flatMap_eq_nil_iff]
  constructor
  · intro hall tx htx
    obtain ⟨n, hn⟩ := h.mem_nonFirst_iff.mpr htx
    exact feeErrors_eq_nil_iff.mp (hall _ hn)
  · rintro hall ⟨tx, n⟩ hn
    exact feeErrors_eq_nil_iff.mpr (hall tx (h.mem_nonFirst_iff.mp ⟨n, hn⟩))

theorem stealth_iff :
    checkBlockDuplicateStealth b = [] ↔
      (∀ tx ∈ txs, tx.addresses.Nodup ∧ address.bytes ∉ tx.addresses) ∧
        txs.Pairwise fun tx tx' => tx.addresses.Disjoint tx'.addresses := by
  obtain ⟨coinbase, hb, -, -, haddress⟩ := h.transactions
  rw [checkBlockDuplicateStealth, map_eq_nil_iff, duplicatesBy_nil_eq_nil_iff,
    addresses_positionedOutputs, hb, flatMap_cons, haddress, singleton_append,
    nodup_cons, nodup_flatMap, mem_flatMap]
  constructor
  · rintro ⟨hfresh, hnodup, hpair⟩
    exact ⟨fun tx htx => ⟨hnodup tx htx, fun hin => hfresh ⟨tx, htx, hin⟩⟩, hpair⟩
  · rintro ⟨hall, hpair⟩
    refine ⟨?_, fun tx htx => (hall tx htx).1, hpair⟩
    rintro ⟨tx, htx, hin⟩
    exact (hall tx htx).2 hin

end

end Assembled

/-! ## 5. The block of a template -/

omit [DecidableEq F] [DecidableEq G] in
theorem coinbase_of_build {payout : Payout} {height : UInt64} {fees : Nat} {signalBits : UInt32}
    {address : PublicKey × PublicKey} {coinbase : Transaction G}
    (hpay : payout.derive height = some address)
    (h : buildCoinbaseWithFees S payout height fees signalBits = some coinbase) :
    coinbase.inputs = [] ∧ coinbase.size S = coinbaseBytes signalBits ∧
      coinbase.addresses = [address.1.bytes] := by
  have hsize := size_of_buildCoinbaseWithFees hpay h
  rw [buildCoinbaseWithFees, hpay] at h
  cases h
  exact ⟨rfl, hsize, rfl⟩

/-- The residents that the chain accepts. -/
def Eligible (S : Suite F G) (cfg : NodeConfig) (ctx : CallContext G) (st : Blockchain G)
    (pool : Mempool G) (e : MempoolEntry G) : Prop :=
  e ∈ pool.transactions.values ∧ st.validateTransaction S cfg ctx e.tx = .ok ()

/-- The size of the fullest block that a template from this pool can make. -/
def fullestSize (pool : Mempool G) (signalBits : UInt32) : Nat :=
  200 + coinbaseBytes signalBits + min templateBudget pool.currentSize

/-- **A pool from which every template is good**: the acceptable residents pay different addresses,
none of them the miner's, and each pays the minimum fee of the fullest block. -/
structure Compatible (S : Suite F G) (cfg : NodeConfig) (ctx : CallContext G) (st : Blockchain G)
    (pool : Mempool G) (signalBits : UInt32) (address : PublicKey) : Prop where
  addresses : v1012RulesActive st.network (st.tip.height + 1) = true →
    ∀ e, Eligible S cfg ctx st pool e → address.bytes ∉ e.tx.addresses ∧
      ∀ e', Eligible S cfg ctx st pool e' → e ≠ e' → e.tx.addresses.Disjoint e'.tx.addresses
  fees : ∀ e, Eligible S cfg ctx st pool e →
    Pays S (congestionMultiplier (congestionPct (fullestSize pool signalBits))) e.tx

/-- **What a template takes from the pool.** -/
structure Taken (S : Suite F G) (cfg : NodeConfig) (ctx : CallContext G) (st : Blockchain G)
    (pool : Mempool G) (es : List (MempoolEntry G)) : Prop where
  template : (st.buildTemplate S cfg ctx pool).transactions = es.map MempoolEntry.tx
  eligible : ∀ e ∈ es, Eligible S cfg ctx st pool e
  nodup : es.Nodup
  size : ((es.map MempoolEntry.tx).map (Transaction.size S)).sum ≤
    min templateBudget pool.currentSize
  count : es.length ≤ templateMaxCount
  apart : (es.flatMap fun e => e.tx.keyImages).Nodup

variable {st : Blockchain G} {pool : Mempool G} {limit : Nat} {es : List (MempoolEntry G)}
  {e : MempoolEntry G}

omit [DecidableEq F] [DecidableEq G] in
theorem Mempool.Proper.size_eq {h : Hash} (hp : Mempool.Proper S h e) :
    e.size = e.tx.size S := by
  have hpos : 1 ≤ e.tx.size S := by
    simp only [Transaction.size, Transaction.toBytes, length_append, length_cons]
    omega
  rw [hp.eq_new]
  exact max_eq_left hpos

theorem isOk_validate_iff :
    (st.validateTransaction S cfg ctx tx).isOk = true ↔
      st.validateTransaction S cfg ctx tx = .ok () := by
  cases st.validateTransaction S cfg ctx tx <;> simp [Except.isOk, Except.toBool]

theorem exists_taken (hpool : pool.Sound S limit) : ∃ es, Taken S cfg ctx st pool es := by
  obtain ⟨es, hes, hthere, hnodup, hsize, hcount, hapart⟩ :=
    hpool.getBlockTransactions templateBudget templateMaxCount
  have hsizes : (es.map MempoolEntry.tx).map (Transaction.size S) = es.map MempoolEntry.size := by
    rw [List.map_map]
    refine map_congr_left fun e he => ?_
    obtain ⟨h, hh⟩ := Mempool.mem_residents.mp (hthere e he)
    exact (hpool.proper h e hh).size_eq.symm
  have hsub := filter_sublist (p := fun e : MempoolEntry G =>
    (st.validateTransaction S cfg ctx e.tx).isOk) (l := es)
  refine ⟨es.filter fun e => (st.validateTransaction S cfg ctx e.tx).isOk, ?_, ?_, ?_, ?_, ?_, ?_⟩
  · simp only [Blockchain.buildTemplate, hes, List.filter_map]
    rfl
  · intro e he
    obtain ⟨hin, hok⟩ := mem_filter.mp he
    exact ⟨hthere e hin, isOk_validate_iff.mp hok⟩
  · exact hsub.nodup hnodup
  · rw [← hsizes] at hsize
    refine le_trans ?_ hsize
    exact ((hsub.map _).map _).sum_le_sum fun _ _ => zero_le
  · exact hsub.length_le.trans hcount
  · exact (hsub.flatMap _).nodup hapart

theorem Eligible.checks (hpool : pool.Sound S limit) (h : Eligible S cfg ctx st pool e) :
    TxChecks S cfg ctx e.tx st.utxos (st.tip.height + 1)
      (v1012RulesActive st.network (st.tip.height + 1)) := by
  obtain ⟨k, hk⟩ := Mempool.mem_residents.mp h.1
  exact ((validateTransaction_ok_iff S).mp h.2).2 (hpool.proper k e hk).no_coinbase

section

variable {b : Block G} {address : PublicKey} {signalBits : UInt32} {network : NetworkType}

theorem coinbaseBytes_le (signalBits : UInt32) : coinbaseBytes signalBits ≤ 152 := by
  unfold coinbaseBytes
  split_ifs <;> omega

section

variable (ht : Taken S cfg ctx st pool es)
  (hb : Assembled S b address (coinbaseBytes signalBits) (es.map MempoolEntry.tx))
include ht hb

/-- **Size, weight, count and key images come out right for every pool.** -/
theorem limits_of_template (hpool : pool.Sound S limit) (hcache : CacheSound S ctx) :
    checkBlockSize (b.size S) = [] ∧ checkBlockWeight S b = [] ∧ checkBlockTxCount b = [] ∧
      checkBlockDuplicateKeyImages b = [] := by
  have hcoinbase := coinbaseBytes_le signalBits
  have hbudget := ht.size.trans (min_le_left _ _)
  have hroom : 200 + 152 + templateBudget ≤ maxBlockSize := by decide
  obtain ⟨coinbase, htxs, hinputs, hsize, -⟩ := hb.transactions
  refine ⟨?_, ?_, ?_, ?_⟩
  · rw [checkBlockSize, errorUnless_eq_nil_iff, hb.size_eq]
    omega
  · have hweight : ((es.map MempoolEntry.tx).map fun tx => tx.size S +
        (tx.inputs.map fun i => i.ringMembers.length).sum * 256).sum ≤
        4 * ((es.map MempoolEntry.tx).map (Transaction.size S)).sum := by
      rw [← sum_map_mul_left]
      refine sum_le_sum fun tx htx => ?_
      obtain ⟨e, he, rfl⟩ := List.mem_map.mp htx
      exact weight_le (((ht.eligible e he).checks hpool).responses hcache)
    rw [checkBlockWeight, errorUnless_eq_nil_iff, blockWeight, htxs, map_cons, sum_cons,
      hinputs, hsize]
    simp only [map_nil, sum_nil]
    omega
  · have hcount : templateMaxCount + 1 ≤ maxTxsPerBlock := by decide
    rw [checkBlockTxCount, errorUnless_eq_nil_iff, htxs, length_cons, length_map]
    exact le_trans (Nat.succ_le_succ ht.count) hcount
  · have himages : coinbase.keyImages = [] := by rw [Transaction.keyImages, hinputs, map_nil]
    rw [checkBlockDuplicateKeyImages, map_eq_nil_iff, duplicatesBy_nil_eq_nil_iff,
      List.map_id, htxs, flatMap_cons, himages, nil_append, flatMap_map]
    exact ht.apart

/-- **A compatible pool makes good blocks.** -/
theorem Compatible.rules (h : Compatible S cfg ctx st pool signalBits address)
    (hpool : pool.Sound S limit) (hcache : CacheSound S ctx)
    (hheight : b.height = st.tip.height + 1) (hnetwork : st.network = network) :
    BlockRules S network b := by
  obtain ⟨hsize, hweight, hcount, hki⟩ := limits_of_template ht hb hpool hcache
  refine ⟨hsize, hweight, hcount, hki, ?_, ?_⟩
  · intro hrules
    rw [hheight, ← hnetwork] at hrules
    have haddresses := h.addresses hrules
    rw [hb.stealth_iff]
    constructor
    · intro tx htx
      obtain ⟨e, he, rfl⟩ := List.mem_map.mp htx
      have hchecks := (ht.eligible e he).checks hpool
      rw [hrules] at hchecks
      exact ⟨hchecks.addresses_nodup, (haddresses e (ht.eligible e he)).1⟩
    · rw [pairwise_map]
      refine ht.nodup.pairwise_of_forall_ne fun e he e' he' hne => ?_
      exact (haddresses e (ht.eligible e he)).2 e' (ht.eligible e' he') hne
  · rw [hb.fees_iff]
    intro tx htx
    obtain ⟨e, he, rfl⟩ := List.mem_map.mp htx
    refine (h.fees e (ht.eligible e he)).mono (congestionMultiplier_mono ?_)
    have := ht.size
    rw [hb.size_eq, fullestSize]
    omega

/-- **And a template that takes the whole pool makes a good block only from a compatible one.** -/
theorem compatible_of_rules (hheight : b.height = st.tip.height + 1) (hnetwork : st.network = network)
    (hall : es.Perm pool.transactions.values)
    (htotal : ((es.map MempoolEntry.tx).map (Transaction.size S)).sum = pool.currentSize)
    (hrules : BlockRules S network b) : Compatible S cfg ctx st pool signalBits address := by
  refine ⟨?_, ?_⟩
  · intro hactive e he
    have hstealth := hrules.stealth (by rw [hheight, ← hnetwork]; exact hactive)
    rw [hb.stealth_iff, pairwise_map] at hstealth
    have hin := hall.mem_iff.mpr he.1
    refine ⟨(hstealth.1 _ (List.mem_map_of_mem hin)).2, ?_⟩
    intro e' he' hne
    have hsymm : Std.Symm fun e e' : MempoolEntry G =>
        e.tx.addresses.Disjoint e'.tx.addresses := ⟨fun _ _ hd => hd.symm⟩
    exact hstealth.2.forall hin (hall.mem_iff.mpr he'.1) hne
  · intro e he
    have hfees := hb.fees_iff.mp hrules.fees e.tx (List.mem_map_of_mem (hall.mem_iff.mpr he.1))
    have hle := ht.size
    rw [hb.size_eq, htotal] at hfees
    rwa [fullestSize, min_eq_right (by omega)]

end

/-- **A small pool of acceptable residents is taken as a whole.** -/
theorem Taken.whole (ht : Taken S cfg ctx st pool es) (hpool : pool.Sound S limit)
    (hsize : pool.currentSize ≤ templateBudget)
    (hcount : pool.transactions.entries.length ≤ templateMaxCount)
    (hvalid : ∀ e ∈ pool.transactions.values, st.validateTransaction S cfg ctx e.tx = .ok ()) :
    es.Perm pool.transactions.values ∧
      ((es.map MempoolEntry.tx).map (Transaction.size S)).sum = pool.currentSize := by
  have hperm := hpool.getBlockTransactions_all hsize hcount
  -- the filter drops nothing
  have htemplate : es.map MempoolEntry.tx =
      pool.getBlockTransactions templateBudget templateMaxCount := by
    rw [← ht.template]
    refine filter_eq_self.mpr fun tx htx => ?_
    obtain ⟨e, he, rfl⟩ := List.mem_map.mp (hperm.subset htx)
    exact isOk_validate_iff.mpr (hvalid e he)
  have hlength : pool.transactions.values.length ≤ es.length := by
    have := hperm.length_eq
    rw [← htemplate, length_map, length_map] at this
    exact this.ge
  have hes : es.Perm pool.transactions.values :=
    (subperm_of_subset ht.nodup fun e he => (ht.eligible e he).1).perm_of_length_le hlength
  refine ⟨hes, ?_⟩
  rw [((hes.map MempoolEntry.tx).map (Transaction.size S)).sum_eq, List.map_map]
  refine Eq.trans ?_ hpool.consistent.total_eq.symm
  change _ = (pool.transactions.values.map MempoolEntry.size).sum
  congr 1
  refine map_congr_left fun e he => ?_
  obtain ⟨k, hk⟩ := Mempool.mem_residents.mp he
  exact (hpool.proper k e hk).size_eq.symm

/-- **The block of a template and the rules of a block.** -/
theorem template_block_rules {s : Grown G}
    (hrun : Reaches (grow S cfg network) (fun _ _ => True) (Grown.genesis S network) s)
    (hst : StandsOn S network st s)
    (hops : Reaches (Mempool.step S) (fun _ _ => True) (Mempool.withMaxSize limit) pool)
    (hcache : CacheSound S ctx) (payout : Payout) (signalBits : UInt32) (nonce : UInt64)
    (htime : st.templateTimestamp ctx.now < 2 ^ 63) {address : PublicKey × PublicKey}
    (hpay : payout.derive (UInt64.ofNat (st.tip.height + 1)) = some address) :
    ∃ c, buildBlockFromTemplate S cfg.build payout signalBits (st.buildTemplate S cfg ctx pool) =
        .ok c ∧
      (checkBlockSize ((c.intoBlock nonce).size S) = [] ∧
        checkBlockWeight S (c.intoBlock nonce) = [] ∧ checkBlockTxCount (c.intoBlock nonce) = [] ∧
        checkBlockDuplicateKeyImages (c.intoBlock nonce) = []) ∧
      (Compatible S cfg ctx st pool signalBits address.1 →
        BlockRules S network (c.intoBlock nonce)) ∧
      (pool.currentSize ≤ templateBudget →
        pool.transactions.entries.length ≤ templateMaxCount →
        (∀ e ∈ pool.transactions.values, st.validateTransaction S cfg ctx e.tx = .ok ()) →
        BlockRules S network (c.intoBlock nonce) →
          Compatible S cfg ctx st pool signalBits address.1) := by
  have hpool := (Mempool.sound_withMaxSize (S := S) limit).reaches hops
  obtain ⟨es, ht⟩ : ∃ es, Taken S cfg ctx st pool es := exists_taken hpool
  obtain ⟨hlength, hfits⟩ := hst.next_height hrun
  have hmagic : (st.buildTemplate S cfg ctx pool).networkMagic = st.network.magicBytes := rfl
  obtain ⟨c, coinbase, hc, hcoinbase, htxs, -, hcheight, -, -, -⟩ :=
    buildBlockFromTemplate_ok S cfg.build signalBits hmagic htime hpay
  obtain ⟨hinputs, hsize, haddresses⟩ := coinbase_of_build hpay hcoinbase
  have hb : Assembled S (c.intoBlock nonce) address.1 (coinbaseBytes signalBits)
      (es.map MempoolEntry.tx) :=
    ⟨coinbase, htxs.trans (by rw [ht.template]), hinputs, hsize, haddresses⟩
  have hheight : (c.intoBlock nonce).height = st.tip.height + 1 := by
    change c.header.height.toNat = _
    rw [hcheight]
    exact UInt64.toNat_ofNat_of_lt' (by rw [← hlength] at hfits; exact hfits)
  refine ⟨c, hc, limits_of_template ht hb hpool hcache,
    fun hcomp => hcomp.rules ht hb hpool hcache hheight hst.network, ?_⟩
  intro hsmall hfew hvalid hrules
  obtain ⟨hall, htotal⟩ := ht.whole hpool hsmall hfew hvalid
  exact compatible_of_rules ht hb hheight hst.network hall htotal hrules

end

end

namespace SmallChain

open SmallSuite Blockchain

def otherSpend (address c r c' r' : Z) : Transaction Z where
  version := 1
  txType := .transfer
  inputs :=
    [⟨⟨compress 3⟩, maturedRing, ⟨3, 80, encode c,
        [1, 2, 3, r, 5, 6, 7, 8, 9, 10, 11].map encode⟩, compress 25⟩,
      ⟨⟨compress 22⟩, maturedRing, ⟨22, 21, encode c',
        [1, 2, 3, 4, 5, r', 7, 8, 9, 10, 11].map encode⟩, compress 25⟩]
  outputs := [spendOutput address 17, spendOutput 63 57]
  fee := ⟨12000000⟩
  rangeProof := [3] ++ lenBytes 32 ++
    (digest 32 3 ((compress 17).toList ++ (compress 57).toList)).toList
  extra := []

/-- One that pays an address of the first transfer. -/
def rivalSpend : Transaction Z := otherSpend 61 3 85 30 17

/-- One that pays other addresses. -/
def distantSpend : Transaction Z := otherSpend 64 86 95 31 6

def knownCtx : CallContext Z :=
  { ctx with ringSigHit := fun tx _ => decide (tx ∈ [maturedSpend, rivalSpend, distantSpend]) }

theorem cacheSound_knownCtx : CacheSound suite knownCtx := by
  have hsigned : ∀ tx ∈ [maturedSpend, rivalSpend, distantSpend], ∀ i ∈ tx.inputs,
      clsagVerifyInput suite tx i = true := by
    decide +kernel
  intro tx n i hi hhit
  have hmem := mem_of_getElem? hi
  exact ⟨i, hmem, hsigned tx (of_decide_eq_true hhit) i hmem⟩

/-- A pool to which these transfers came. -/
def pooled (txs : List (Transaction Z)) : Option (Mempool Z) :=
  run (Mempool.step suite) (fun _ _ => true) (.withMaxSize 100000)
    (txs.map fun tx => .add knownCtx tx 1000)

def ApartSpends (st : Blockchain Z) (pool : Mempool Z) : Prop :=
  st.templateTimestamp knownCtx.now < 2 ^ 63 ∧
    pool.transactions.values.map MempoolEntry.tx = [maturedSpend, distantSpend] ∧
    ∀ tx ∈ [maturedSpend, distantSpend], (dynamicMin (tx.size suite)
      (congestionMultiplier (congestionPct (fullestSize pool 0)))).any
        (fun minimum => decide (minimum ≤ tx.fee.val)) = true

instance (st : Blockchain Z) (pool : Mempool Z) : Decidable (ApartSpends st pool) :=
  inferInstanceAs (Decidable (_ ∧ _))

def RivalSpends (st : Blockchain Z) (pool : Mempool Z) : Prop :=
  (∀ e ∈ pool.transactions.values, st.validateTransaction suite cfg knownCtx e.tx = .ok ()) ∧
    ∃ c ∈ (buildBlockFromTemplate suite cfg.build payee 0
        (st.buildTemplate suite cfg knownCtx pool)).toOption,
      c.transactions.tail = [rivalSpend, maturedSpend] ∧
        v1012RulesActive .regtest (c.intoBlock 0).height = true ∧
        checkBlockDuplicateStealth (c.intoBlock 0) ≠ []

instance (st : Blockchain Z) (pool : Mempool Z) : Decidable (RivalSpends st pool) :=
  inferInstanceAs (Decidable (_ ∧ _))

theorem aged_pools :
    ((agedNode 10).any fun st =>
      ((pooled [maturedSpend, distantSpend]).any fun pool => decide (ApartSpends st pool)) &&
      (pooled [maturedSpend, rivalSpend]).any fun pool => decide (RivalSpends st pool)) = true := by
  decide +kernel

/-- **What the pools have** on the chain of the ten blocks. -/
theorem exists_aged : ∃ s st, agedChain = some s ∧ agedNode 10 = some st ∧
    StandsOn suite .regtest st s ∧
      (∃ pool, pooled [maturedSpend, distantSpend] = some pool ∧ ApartSpends st pool) ∧
      ∃ pool, pooled [maturedSpend, rivalSpend] = some pool ∧ RivalSpends st pool := by
  obtain ⟨s, st, hs, hst, -, hstands, -⟩ := exists_agedChain
  have h := aged_pools
  rw [hst, Option.any_some, Bool.and_eq_true] at h
  obtain ⟨pool, hpool, hapart⟩ := (Option.any_eq_true _ _).mp h.1
  obtain ⟨pool', hpool', hrival⟩ := (Option.any_eq_true _ _).mp h.2
  exact ⟨s, st, hs, hst, hstands, ⟨pool, hpool, of_decide_eq_true hapart⟩, pool', hpool',
    of_decide_eq_true hrival⟩

/-- **A pool with two transfers**, and the block that is built from it. -/
theorem apart_spends_block_rules :
    ∃ s st pool c, agedChain = some s ∧ agedNode 10 = some st ∧ StandsOn suite .regtest st s ∧
      pooled [maturedSpend, distantSpend] = some pool ∧
      buildBlockFromTemplate suite cfg.build payee 0 (st.buildTemplate suite cfg knownCtx pool) =
        .ok c ∧
      BlockRules suite .regtest (c.intoBlock 0) := by
  obtain ⟨s, st, hs, hst, hstands, ⟨pool, hpool, htime, hvalues, hfees⟩, -⟩ := exists_aged
  obtain ⟨e₁, l, hvalues, htx₁, hl⟩ := map_eq_cons_iff.mp hvalues
  obtain ⟨e₂, rfl, htx₂⟩ := map_eq_singleton_iff.mp hl
  have htwo : ∀ e, Eligible suite cfg knownCtx st pool e → e = e₁ ∨ e = e₂ := by
    intro e he
    simpa [hvalues] using he.1
  have hall : (maturedSpend.addresses.all fun a => !distantSpend.addresses.contains a) = true := by
    decide +kernel
  have hapart : ∀ a ∈ maturedSpend.addresses, a ∉ distantSpend.addresses := fun a ha => by
    simpa using List.all_eq_true.mp hall a ha
  have hcomp : Compatible suite cfg knownCtx st pool 0 ⟨compress 5⟩ := by
    refine ⟨fun _ e he => ⟨?_, ?_⟩, fun e he => ?_⟩
    · rcases htwo e he with rfl | rfl
      · rw [htx₁]
        decide +kernel
      · rw [htx₂]
        decide +kernel
    · intro e' he' hne
      rcases htwo e he with rfl | rfl <;> rcases htwo e' he' with rfl | rfl
      · exact absurd rfl hne
      · rw [htx₁, htx₂]
        exact fun a ha hb => hapart a ha hb
      · rw [htx₁, htx₂]
        exact fun a hb ha => hapart a ha hb
      · exact absurd rfl hne
    · have hmem : e.tx ∈ [maturedSpend, distantSpend] := by
        rcases htwo e he with rfl | rfl
        · rw [htx₁]
          exact .head _
        · rw [htx₂]
          exact .tail _ (.head _)
      obtain ⟨minimum, hmin, hle⟩ := (Option.any_eq_true _ _).mp (hfees _ hmem)
      exact ⟨minimum, hmin, of_decide_eq_true hle⟩
  obtain ⟨c, hc, -, hrules, -⟩ := template_block_rules
    (.run (fun _ _ _ => trivial) .start hs) hstands (.run (fun _ _ _ => trivial) .start hpool)
    cacheSound_knownCtx payee 0 0 htime rfl
  exact ⟨s, st, pool, c, hs, hst, hstands, hpool, hc, hrules hcomp⟩

/-- **Two transfers that pay one address.**  The chain accepts each, the pool takes both, and so
does the template; whatever the clock, the block is not accepted on the chain it was made for. -/
theorem rival_spends_refused :
    ∃ s st pool c, agedChain = some s ∧ agedNode 10 = some st ∧ StandsOn suite .regtest st s ∧
      CacheSound suite knownCtx ∧ pooled [maturedSpend, rivalSpend] = some pool ∧
      (∀ e ∈ pool.transactions.values, st.validateTransaction suite cfg knownCtx e.tx = .ok ()) ∧
      buildBlockFromTemplate suite cfg.build payee 0 (st.buildTemplate suite cfg knownCtx pool) =
        .ok c ∧
      c.transactions.tail = [rivalSpend, maturedSpend] ∧
      checkBlockDuplicateStealth (c.intoBlock 0) ≠ [] ∧
      ∀ ctx cp, grow suite cfg .regtest s ⟨ctx, cp, c.intoBlock 0⟩ = none := by
  obtain ⟨s, st, hs, hst, hstands, -, pool, hpool, hvalid, c, hc, htxs, hactive, hstealth⟩ :=
    exists_aged
  refine ⟨s, st, pool, c, hs, hst, hstands, cacheSound_knownCtx, hpool, hvalid, ?_, htxs, hstealth,
    ?_⟩
  · revert hc
    cases buildBlockFromTemplate suite cfg.build payee 0
      (st.buildTemplate suite cfg knownCtx pool) with
    | ok c' =>
      rintro ⟨⟩
      rfl
    | error e => rintro ⟨⟩
  · intro ctx cp
    refine eq_none_iff_forall_ne_some.mpr fun s' hs' => ?_
    exact hstealth ((grow_eq_some hs').1.stealth hactive)

end SmallChain

end Coincync
