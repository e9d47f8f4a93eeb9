/-
# No inflation inside a transaction

The balance check compares points: the pseudo-outputs of the inputs add up to the output
commitments and a commitment to the fee.  What it means for AMOUNTS rests on three assumptions
about the cryptography (`CryptoSound`): the generators are binding, a ring signature that verifies
ties the pseudo-output to a ring member, and an accepted range proof bounds what it covers.
-/
import Coincync.Crypto.WideSuite
import Coincync.Consensus.TxValidation

namespace Coincync

open Lib SmallSuite List Option

section Numbers

variable {F G : Type} [Field F] [AddCommGroup G] [Module F G] (S : Suite F G)

/-! ## 1. Openings -/

/-- The bytes of a commitment open to the value. -/
def CommitsTo (commitment : FixedBytes 32) (v : F) : Prop :=
  ∃ P, S.decompress commitment = some P ∧ Opens S.generatorH S.generator P v

/-- **The pseudo-output of the input re-commits to the ring member**: the two commitments differ by
a multiple of the generator. -/
def ReCommits (member : RingMemberRef) (input : TxInput G) : Prop :=
  ∃ P Q, ∃ z : F, S.decompress member.commitment = some P ∧
    S.decompress input.pseudoOutputCommitment = some Q ∧ P - Q = z • S.generator

variable {S}

theorem CommitsTo.opens {commitment : FixedBytes 32} {v : F} {P : G}
    (h : CommitsTo S commitment v) (hP : S.decompress commitment = some P) :
    Opens S.generatorH S.generator P v := by
  obtain ⟨P', hP', hopens⟩ := h
  obtain rfl : P' = P := Option.some.inj (hP'.symm.trans hP)
  exact hopens

theorem ReCommits.commitsTo {member : RingMemberRef} {input : TxInput G} {v : F}
    (h : ReCommits S member input) (hv : CommitsTo S member.commitment v) :
    CommitsTo S input.pseudoOutputCommitment v := by
  obtain ⟨P, Q, z, hP, hQ, hdiff⟩ := h
  exact ⟨Q, hQ, (hv.opens hP).of_sub_eq_smul hdiff⟩

/-! ## 2. Decoding -/

theorem forall₂_decodePoints : ∀ {l : List (FixedBytes 32)} {points : List G},
    decodePoints S l = some points →
      List.Forall₂ (fun b P => S.decompress b = some P) l points
  | [], points, h => by
    cases h
    exact .nil
  | b :: l, points, h => by
    obtain ⟨P, hP, h⟩ := bind_eq_some_iff.mp h
    obtain ⟨rest, hrest, rfl⟩ := map_eq_some_iff.mp h
    exact .cons hP (forall₂_decodePoints hrest)

theorem forall₂_decodeNonIdentity [DecidableEq G] :
    ∀ {l : List (FixedBytes 32)} {points : List G}, decodeNonIdentity S l = some points →
      List.Forall₂ (fun b P => S.decompress b = some P) l points
  | [], points, h => by
    cases h
    exact .nil
  | b :: l, points, h => by
    obtain ⟨P, hP, h⟩ := bind_eq_some_iff.mp h
    obtain ⟨rest, hrest, rfl⟩ := map_eq_some_iff.mp h
    exact .cons (filter_eq_some_iff.mp hP).1 (forall₂_decodeNonIdentity hrest)

theorem forall₂_opens {commitments : List (FixedBytes 32)} {points : List G}
    (hdecode : List.Forall₂ (fun b P => S.decompress b = some P) commitments points) :
    ∀ {values : List F}, List.Forall₂ (CommitsTo S) commitments values →
      List.Forall₂ (Opens S.generatorH S.generator) points values := by
  induction hdecode with
  | nil =>
    intro values h
    cases h
    exact .nil
  | cons hP _ ih =>
    intro values h
    cases h with
    | cons hv hrest => exact .cons (hv.opens hP) (ih hrest)

theorem forall₂_pseudoOutputs {inputs : List (TxInput G)} {real : List RingMemberRef}
    (hreal : List.Forall₂ (fun i m => ReCommits S m i) inputs real) : ∀ {ins : List UInt64},
    List.Forall₂ (fun m a => CommitsTo S m.commitment (a.toNat : F)) real ins →
    List.Forall₂ (CommitsTo S) (inputs.map TxInput.pseudoOutputCommitment)
      (ins.map fun a => (a.toNat : F)) := by
  induction hreal with
  | nil =>
    intro ins h
    cases h
    exact .nil
  | cons hm _ ih =>
    intro ins h
    cases h with
    | cons ha hrest => exact .cons (hm.commitsTo ha) (ih hrest)

variable [DecidableEq F] [DecidableEq G]

/-! ## 3. What the cryptography is assumed to give -/

/-- **The assumptions**, for the validation of one transaction. -/
structure CryptoSound (S : Suite F G) (ctx : CallContext G) (tx : Transaction G) : Prop where
  binding : Binding F S.generatorH S.generator
  ringSignature : ∀ i ∈ tx.inputs, clsagVerifyInput S tx i = true →
    ∃ member ∈ i.ringMembers, ReCommits S member i
  rangeProof : ∀ points data, S.bpPlusVerify points data = true → ∀ P ∈ points,
    ∃ v < 2 ^ 64, Opens S.generatorH S.generator P ((v : ℕ) : F)
  rangeProofHit : ctx.rangeProofHit tx = true → ∀ o ∈ tx.outputs, ∀ P,
    S.decompress o.commitment = some P →
      ∃ v < 2 ^ 64, Opens S.generatorH S.generator P ((v : ℕ) : F)

/-- **A signature of the transaction verifies for its own input only**, or for one with the same
ring and pseudo-output. -/
def SignaturesOwn (S : Suite F G) (tx : Transaction G) : Prop :=
  ∀ i ∈ tx.inputs, ∀ j ∈ tx.inputs,
    clsagVerifyInput S tx { j with signature := i.signature } = true →
      j.ringMembers = i.ringMembers ∧ j.pseudoOutputCommitment = i.pseudoOutputCommitment

variable {cfg : NodeConfig} {ctx : CallContext G} {tx : Transaction G} {U : UtxoSet}
  {height : Nat} {network : NetworkType}

/-- **The range proof covers every output.** -/
theorem CryptoSound.output_bound (hs : CryptoSound S ctx tx) (hcb : tx.isCoinbase = false)
    (hproof : verifyOutputRangeProofs S ctx tx = true) {o : TxOutput} (ho : o ∈ tx.outputs) :
    ∃ v < 2 ^ 64, CommitsTo S o.commitment ((v : ℕ) : F) := by
  simp only [verifyOutputRangeProofs, hcb, Bool.false_eq_true, if_false] at hproof
  split_ifs at hproof
  split at hproof
  · cases hproof
  · split at hproof
    · cases hproof
    · rename_i version data _ points hpoints
      -- the output's own point is among those that were decoded
      have hdecode := forall₂_decodePoints hpoints
      obtain ⟨P, hP, hmem⟩ : ∃ P, S.decompress o.commitment = some P ∧ P ∈ points := by
        obtain ⟨n, hn, rfl⟩ := mem_iff_getElem.mp ho
        have hlen := hdecode.length_eq
        rw [length_map] at hlen
        have hget := hdecode.get (i := n) (by rw [length_map]; exact hn) (hlen ▸ hn)
        simp only [get_eq_getElem, getElem_map] at hget
        exact ⟨_, hget, getElem_mem _⟩
      rcases Bool.or_eq_true_iff.mp hproof with hhit | hfull
      · obtain ⟨v, hv, hopens⟩ := hs.rangeProofHit hhit o ho P hP
        exact ⟨v, hv, P, hP, hopens⟩
      · have hbp := (Bool.and_eq_true_iff.mp hfull).2
        unfold verifyRangeProofsBpPlus at hbp
        split_ifs at hbp with hempty
        · rw [hempty] at hmem
          cases hmem
        · obtain ⟨v, hv, hopens⟩ := hs.rangeProof _ _ hbp P (mem_append_left _ hmem)
          exact ⟨v, hv, P, hP, hopens⟩

theorem CryptoSound.exists_real (hs : CryptoSound S ctx tx) (hhits : HitsVerified S ctx tx)
    (hown : SignaturesOwn S tx) (hsigs : checkTxRingSignaturesIn S ctx tx = .ok ()) :
    ∃ real : List RingMemberRef,
      List.Forall₂ (fun (i : TxInput G) m => m ∈ i.ringMembers ∧ ReCommits S m i) tx.inputs real := by
  have hall : ∀ i ∈ tx.inputs, ∃ m, m ∈ i.ringMembers ∧ ReCommits S m i := by
    intro i hi
    obtain ⟨n, hn⟩ := mem_iff_getElem?.mp hi
    have hmem := mk_mem_zipIdx_iff_getElem?.mpr hn
    have hone := checkAll_ok_iff.mp hsigs (i, n) hmem
    rw [require_ok_iff, ringSigVerdict, Bool.or_eq_true] at hone
    refine hs.ringSignature i hi (hone.elim (fun hhit => ?_) id)
    obtain ⟨j, hj, hverify⟩ := hhits n i hn hhit
    obtain ⟨hring, hpseudo⟩ := hown i hi j hj hverify
    rwa [clsagVerifyInput, hring, hpseudo] at hverify
  generalize tx.inputs = inputs at hall
  induction inputs with
  | nil => exact ⟨[], .nil⟩
  | cons i rest ih =>
    obtain ⟨m, hm⟩ := hall i (.head _)
    obtain ⟨real, hreal⟩ := ih fun x hx => hall x (.tail _ hx)
    exact ⟨m :: real, .cons hm hreal⟩

/-! ## 4. The numbers -/

theorem CryptoSound.amounts_lt {p : ℕ} [CharP F p] (hp : 2 ^ 72 ≤ p) (hs : CryptoSound S ctx tx)
    (hcb : tx.isCoinbase = false) (hproof : verifyOutputRangeProofs S ctx tx = true) {outs : List ℕ}
    (houts : List.Forall₂ (fun (o : TxOutput) b => CommitsTo S o.commitment ((b : ℕ) : F) ∧ b < p)
      tx.outputs outs) : ∀ b ∈ outs, b < 2 ^ 64 := by
  have hbound := fun o ho => hs.output_bound hcb hproof (o := o) ho
  generalize tx.outputs = outputs at houts hbound
  induction houts with
  | nil => simp
  | @cons o b outputs outs hb _ ih =>
    intro x hx
    rcases mem_cons.mp hx with rfl | hx
    · -- the number opened and the number proved to be in range open one point
      obtain ⟨v, hv, P, hP, hopens⟩ := hbound o (.head _)
      rw [hs.binding.natCast_eq hb.2 (by omega) (hb.1.opens hP) hopens]
      exact hv
    · exact ih (fun y hy => hbound y (.tail _ hy)) x hx

omit [DecidableEq F] in
/-- **The balance equation of an accepted transaction**, as points. -/
theorem balance_points (hcb : tx.isCoinbase = false) (hbalance : verifyBalanceProof S tx = true) :
    ∃ pseudo outputs : List G,
      List.Forall₂ (fun b P => S.decompress b = some P)
        (tx.inputs.map TxInput.pseudoOutputCommitment) pseudo ∧
      List.Forall₂ (fun b P => S.decompress b = some P) (tx.outputs.map TxOutput.commitment)
        outputs ∧
      pseudo.sum = outputs.sum + S.commit tx.fee.atomic 0 := by
  simp only [verifyBalanceProof, hcb, Bool.false_eq_true, if_false] at hbalance
  split_ifs at hbalance
  split at hbalance
  · rename_i pseudo outputs hpseudo houtputs
    exact ⟨pseudo, outputs, forall₂_decodeNonIdentity hpseudo, forall₂_decodePoints houtputs,
      of_decide_eq_true hbalance⟩
  · cases hbalance

theorem sum_lt_of_forall_lt {l : List ℕ} {n : ℕ} (hlen : l.length ≤ n)
    (h : ∀ b ∈ l, b < 2 ^ 64) : l.sum ≤ n * (2 ^ 64 - 1) := by
  have hsum := sum_le_card_nsmul l (2 ^ 64 - 1) fun b hb => by
    have := h b hb
    omega
  rw [smul_eq_mul] at hsum
  exact hsum.trans (Nat.mul_le_mul_right _ hlen)

/-- **No inflation**, where signatures are good for their own inputs. -/
theorem no_inflation {p : ℕ} [CharP F p] (hp : 2 ^ 72 ≤ p) (hs : CryptoSound S ctx tx)
    {history : List (CacheEvent G)} (hhits : HitsFrom S history ctx tx) (hown : SignaturesOwn S tx)
    (hok : validateTransactionForNetwork S cfg ctx tx U height network = .ok ())
    (hcb : tx.isCoinbase = false) :
    (∃ real : List RingMemberRef, List.Forall₂
      (fun (i : TxInput G) m => m ∈ i.ringMembers ∧ ReCommits S m i) tx.inputs real) ∧
    (∀ o ∈ tx.outputs, ∃ b < 2 ^ 64, CommitsTo S o.commitment ((b : ℕ) : F)) ∧
    ∀ (real : List RingMemberRef) (ins : List UInt64) (outs : List ℕ),
      List.Forall₂ (fun i m => ReCommits S m i) tx.inputs real →
      List.Forall₂ (fun m a => CommitsTo S m.commitment (a.toNat : F)) real ins →
      List.Forall₂ (fun (o : TxOutput) b => CommitsTo S o.commitment ((b : ℕ) : F) ∧ b < p)
        tx.outputs outs →
      (ins.map UInt64.toNat).sum = outs.sum + tx.fee.val := by
  have hchecks := ((validateTransaction_ok_iff S).mp hok).2 hcb
  have hproof : verifyOutputRangeProofs S ctx tx = true := by
    have := hchecks.rangeProofs
    rwa [checkTxRangeProofs, require_ok_iff] at this
  refine ⟨hs.exists_real hhits.verified hown hchecks.ringSignatures,
    fun o ho => hs.output_bound hcb hproof ho, ?_⟩
  intro real ins outs hreal hins houts
  have hbalance : verifyBalanceProof S tx = true := by
    have := hchecks.balanceProof
    rwa [checkTxBalanceProof, require_ok_iff] at this
  obtain ⟨pseudo, outputs, hpseudo, houtputs, hsum⟩ := balance_points hcb hbalance
  -- the left side opens to the inputs
  have hleft := Opens.sum (forall₂_opens hpseudo (forall₂_pseudoOutputs hreal hins))
  have hcastIns : (ins.map fun a => (a.toNat : F)).sum = (((ins.map UInt64.toNat).sum : ℕ) : F) := by
    rw [Nat.cast_list_sum, List.map_map]
    rfl
  rw [hcastIns] at hleft
  -- and to the outputs and the fee
  have hcommits : List.Forall₂ (CommitsTo S) (tx.outputs.map TxOutput.commitment)
      (outs.map fun b => ((b : ℕ) : F)) := by
    rw [forall₂_map_left_iff, forall₂_map_right_iff]
    exact houts.imp fun _ _ h => h.1
  have hright := (Opens.sum (forall₂_opens houtputs hcommits)).add
    (⟨0, rfl⟩ : Opens S.generatorH S.generator (S.commit tx.fee.atomic 0) (tx.fee.val : F))
  rw [← hsum, ← Nat.cast_list_sum, ← Nat.cast_add] at hright
  -- both are below the group order
  obtain ⟨hninputs, hnoutputs⟩ := checkTxInputOutputCounts_ok hchecks.counts
  have hnins : (ins.map UInt64.toNat).length ≤ 256 := by
    rw [length_map, ← hins.length_eq, ← hreal.length_eq]
    exact hninputs
  have hnouts : outs.length ≤ 16 := by
    rw [← houts.length_eq]
    exact hnoutputs
  have hinsle := sum_lt_of_forall_lt hnins fun b hb => by
    obtain ⟨a, -, rfl⟩ := List.mem_map.mp hb
    exact a.toNat_lt
  have houtsle := sum_lt_of_forall_lt hnouts (hs.amounts_lt hp hcb hproof houts)
  have hfee : tx.fee.val < 2 ^ 64 := tx.fee.atomic.toNat_lt
  exact hs.binding.natCast_eq (by omega) (by omega) hleft hright

end Numbers

namespace WideSuite

abbrev small : Suite W (W × W) := suite (digest 32 7)

def callWith (hit : Nat) : CallContext (W × W) :=
  ⟨some 1800000000, true, fun _ n => n == hit, fun _ => false⟩

def node : NodeConfig := ⟨⟨true, false⟩, (expectedGenesisHash .regtest).bytes⟩

def pair : List RingMemberRef :=
  [⟨⟨compress (7, 0)⟩, compress (11, 3000000)⟩, ⟨⟨compress (13, 0)⟩, compress (2, 4000000)⟩]

def signature (keyImage commitmentImage c1 : W) (responses : List W) : ClsagSignature (W × W) :=
  ⟨(keyImage, 0), (commitmentImage, 0), encodeScalar c1, responses.map encodeScalar⟩

def spendOf (pseudoOutput : W × W) (s : ClsagSignature (W × W)) : TxInput (W × W) :=
  ⟨⟨compress s.keyImage⟩, pair, s, compress pseudoOutput⟩

def payTo (address blinding value : W) : TxOutput :=
  { stealthAddress := ⟨compress (address, 0)⟩
    txPublicKey := ⟨compress (address, 0)⟩
    commitment := compress (blinding, value)
    encryptedAmount := List.replicate 8 0
    viewTag := 0
    lockHeight := none
    encryptedMemo := [] }

def transfer : Transaction (W × W) :=
  { version := 1
    txType := .transfer
    inputs :=
      [spendOf (20, 3000000) (signature 48845220152991067897813371 290896156741977276959704015
        280870029171936747149540120 [365742015909070054223541634, 2]),
        spendOf (30, 4000000) (signature 12340287941636357236199830 497164781054136423794737537
        552428174087871963639263112 [1, 294940665510090221884186173])]
    outputs := [payTo 61 24 2500000, payTo 62 26 2500000]
    fee := ⟨2000000⟩
    rangeProof := [3] ++ lenBytes 32 ++ (digest 32 3 ((compress (24, 2500000)).toList ++
      (compress (26, 2500000)).toList)).toList
    extra := [] }

theorem transfer_ok :
    validateTransactionForNetwork small node (callWith 0) transfer UtxoSet.new 1 .regtest =
      .ok () := by
  decide +kernel

theorem commitsTo_compress (P : W × W) : CommitsTo small (compress P) P.2 :=
  ⟨P, decompress_compress P, (opens_iff _).mpr rfl⟩

theorem reCommits_spendOf (address : PublicKey) (a b v : W) (s : ClsagSignature (W × W)) :
    ReCommits small ⟨address, compress (a, v)⟩ (spendOf (b, v) s) := by
  refine ⟨(a, v), (b, v), a - b, decompress_compress _, decompress_compress _, Prod.ext ?_ ?_⟩
  · change a - b = (a - b) * 1
    rw [mul_one]
  · change v - v = (a - b) * 0
    rw [sub_self, mul_zero]

theorem transfer_sound : CryptoSound small (callWith 0) transfer where
  binding := binding _
  ringSignature := by
    intro input hi _
    rcases mem_cons.mp hi with rfl | hi
    · exact ⟨_, .head _, reCommits_spendOf _ 11 20 3000000 _⟩
    · obtain rfl := mem_singleton.mp hi
      exact ⟨_, .tail _ (.head _), reCommits_spendOf _ 2 30 4000000 _⟩
  rangeProof := fun points data h P hP => rangeProof_sound _ h hP
  rangeProofHit := fun h => absurd h Bool.false_ne_true

def firstVerified (tx : Transaction (W × W)) : List (CacheEvent (W × W)) :=
  (tx.inputs.take 1).map fun i => ⟨.record (.call tx i), 0, fun _ => []⟩

/-- **The hits of a transaction of two inputs**, the first of which has been verified. -/
theorem hitsFrom_firstVerified {tx : Transaction (W × W)} {i j : TxInput (W × W)} {n : Nat}
    (hinputs : tx.inputs = [i, j])
    (hkeys : small.blake3 (CacheQuestion.preimage small (.call tx i)) =
        small.blake3 (CacheQuestion.preimage small (.call tx j)) →
      CacheQuestion.preimage small (.call tx i) = CacheQuestion.preimage small (.call tx j))
    (hhit : ∀ k, tx.inputs[n]? = some k →
      callKey small tx k ∈ (cacheAfter small (firstVerified tx)).ringSigCache) :
    HitsFrom small (firstVerified tx) (callWith n) tx where
  hit := by
    intro m k hk hm
    obtain rfl : m = n := by simpa [callWith] using hm
    exact ⟨_, List.prefix_rfl, hhit k hk⟩
  keys := by
    have hasked : ∀ q, AskedWith (firstVerified tx) tx q → q = .call tx i ∨ q = .call tx j := by
      rintro q (⟨e, he, hop⟩ | ⟨k, hk, rfl⟩)
      · simp only [firstVerified, hinputs, take_succ_cons, take_zero, map_cons, map_nil,
          mem_singleton] at he
        subst he
        exact .inl (by simpa [eq_comm] using hop)
      · simpa [hinputs] using hk
    rintro p ⟨q, hq, rfl⟩ p' ⟨q', hq', rfl⟩ heq
    rcases hasked q hq with rfl | rfl <;> rcases hasked q' hq' with rfl | rfl
    · rfl
    · exact hkeys heq
    · exact (hkeys heq.symm).symm
    · rfl
  signing := by
    rintro tx' k ⟨e, he, hop⟩ -
    simp only [firstVerified, hinputs, take_succ_cons, take_zero, map_cons, map_nil,
      mem_singleton] at he
    subst he
    simp only [reduceCtorEq, CacheOp.record.injEq, CacheQuestion.call.injEq, false_or] at hop
    exact ⟨i, by simp [hinputs], by rw [hop.2], by rw [hop.2]⟩

theorem transfer_own : SignaturesOwn small transfer := by
  unfold SignaturesOwn
  decide +kernel

/-- Spending 3000000 and 4000000 into two outputs of 2500000 with a fee of 2000000 balances. -/
theorem transfer_balanced :
    validateTransactionForNetwork small node (callWith 0) transfer UtxoSet.new 1 .regtest =
        .ok () ∧
      (([3000000, 4000000] : List UInt64).map UInt64.toNat).sum =
        ([2500000, 2500000] : List ℕ).sum + transfer.fee.val := by
  have hhits : HitsFrom small (firstVerified transfer) (callWith 0) transfer :=
    hitsFrom_firstVerified rfl (fun h => absurd h (by decide +kernel)) (by decide +kernel)
  refine ⟨transfer_ok, (no_inflation (p := order) (by decide) transfer_sound hhits transfer_own
    transfer_ok (by decide)).2.2 pair _ _ (.cons (reCommits_spendOf _ 11 20 3000000 _)
      (.cons (reCommits_spendOf _ 2 30 4000000 _) .nil)) ?_ ?_⟩
  · exact .cons (commitsTo_compress (11, 3000000)) (.cons (commitsTo_compress (2, 4000000)) .nil)
  · exact .cons ⟨commitsTo_compress (24, 2500000), by decide⟩
      (.cons ⟨commitsTo_compress (26, 2500000), by decide⟩ .nil)

def copied : Transaction (W × W) :=
  let s := signature 48845220152991067897813371 290896156741977276959704015
    341317636265449081202438919 [425005992554148028237487095, 2]
  { transfer with
    inputs := [spendOf (20, 3000000) s,
      { spendOf (30, 40000000) s with keyImage := ⟨compress (42, 0)⟩ }]
    outputs := [payTo 61 24 2500000, payTo 62 26 38500000]
    rangeProof := [3] ++ lenBytes 32 ++ (digest 32 3 ((compress (24, 2500000)).toList ++
      (compress (26, 38500000)).toList)).toList }

/-- **A copied signature inflates.**  The second input finds the signature of the first in the
cache, and 41000000 are paid out of a ring in which there are 7000000. -/
theorem copied_signature_inflates :
    HitsFrom small (firstVerified copied) (callWith 1) copied ∧
      validateTransactionForNetwork small node (callWith 1) copied UtxoSet.new 1 .regtest =
        .ok () ∧
      (∀ i ∈ copied.inputs, i.ringMembers = pair) ∧
      List.Forall₂ (fun m a => CommitsTo small m.commitment ((a : ℕ) : W)) pair
        [3000000, 4000000] ∧
      List.Forall₂ (fun (o : TxOutput) b => CommitsTo small o.commitment ((b : ℕ) : W))
        copied.outputs [2500000, 38500000] :=
  ⟨hitsFrom_firstVerified rfl (fun _ => rfl) (by decide +kernel), by decide +kernel,
    by decide +kernel,
    .cons (commitsTo_compress (11, 3000000)) (.cons (commitsTo_compress (2, 4000000)) .nil),
    .cons (commitsTo_compress (24, 2500000)) (.cons (commitsTo_compress (26, 38500000)) .nil)⟩

end WideSuite

end Coincync
