/-
# Vesting

`create_vesting`, with `src/wallet/send/vesting.rs`: a payment that is locked until a height.  It is
prepared and built by code of its own, which is from before transfers had a uniform shape.  The
oldest outputs are spent, as many as are needed; there is an output for the recipient, one for the
change if it is large enough, and up to two dummies, as the generator says.  So the shape is the
required one only by chance: two outputs of the wallet have to be needed, and the draw has to suit
the change.  And the recipient's output is always derived as for a main address, so that a subaddress
finds it only by a coincidence of one-time keys (`vesting_sound`).
-/
import Coincync.Consensus.TxValidation
import Coincync.Wallet.OutputScan

namespace Coincync

open Lib Except

/-! ## 1. Preparing and building -/

inductive AddressType
  | standard
  | subaddress
  | integrated
  deriving DecidableEq

/-- `Address`, without its network and payment id. -/
structure Address where
  addressType : AddressType
  spendPublicKey : PublicKey
  viewPublicKey : PublicKey

structure VestingRequest where
  payment : Payment
  unlockHeight : UInt64
  context : SpendContext

structure PreparedVestingTransaction (F : Type) where
  inputs : List (PreparedInput F)
  request : VestingRequest
  changeAmount : Nat
  estimatedFee : Nat
  spendPublic : PublicKey
  viewPublic : PublicKey

/-- The fee for a number of inputs and `VESTING_ESTIMATED_OUTPUT_COUNT` outputs. -/
def vestingFee (ringSize inputCount : Nat) : Nat :=
  estimateTxSize inputCount 4 ringSize * minFeePerByte % 2 ^ 64

variable {ρ F G : Type} [Field F] [AddCommGroup G] [Module F G] (K : KeySuite F G) (rng : Rng ρ F)

/-- `prepare_vesting`, with the number of turns its loop may take. -/
def prepareVesting {w : Balance} (walk : w.Walk) (request : VestingRequest) (keys : KeyEpoch)
    (fuel : Nat) (r : ρ) : Option (Except WalletError (PreparedVestingTransaction F × ρ)) :=
  let context := request.context
  let amount := request.payment.amount.val
  let fee := vestingFee context.ringSize
  let required := saturate (amount + fee 1)
  let ensure := Balance.ensureSpendable walk context.targetHeight context.minOutputAge
  match ensure required with
  | .error e => some (.error e)
  | .ok () =>
    let utxos := Balance.availableUtxos walk context.targetHeight context.minOutputAge
    (selectionLoop ensure (selectUtxos rng utxos .oldestFirst) fee amount fuel required r).map
      fun result => result.bind fun s =>
        (s.1.selected.mapM fun e => prepareInput K keys e.2).map fun inputs =>
          (⟨inputs, request, s.1.inputSum - s.1.totalNeeded, s.1.estimatedFee,
            K.publicKey keys.spendSecret, K.publicKey keys.viewSecret⟩, s.2)

/-- `build_prepared_vesting_transaction` up to `build`. -/
def assembleVesting (p : PreparedVestingTransaction F) (rings : AllocatedRings) (r : ρ) :
    Except WalletError (TransactionBuilder F G × ρ) := do
  let payment := p.request.payment
  let start : TransactionBuilder F G :=
    TransactionBuilder.transfer p.request.context.targetHeight
  let b ← start.addPreparedInputs K p.inputs rings p.request.context.ringSize
  let (b, r) ← b.addOutputExt K rng ⟨payment.spendPublic, payment.viewPublic, payment.amount,
    some p.request.unlockHeight⟩ 0 false r
  let ((b, fee), r) ←
    b.addChangeOrFee K rng p.spendPublic p.viewPublic p.changeAmount p.estimatedFee 1 r
  let dummies := rng.below 3 r
  let (b, r) ← b.addDummyOutputs K rng dummies.1 dummies.2
  .ok ({ b with fee := ⟨UInt64.ofNat fee⟩ }, r)

def buildPreparedVestingTransaction [DecidableEq G] (P : Prover ρ F)
    (p : PreparedVestingTransaction F) (rings : AllocatedRings) (r : ρ) :
    Except WalletError (Transaction G × ρ) := do
  let (b, r) ← assembleVesting K rng p rings r
  b.build K rng P r

/-- How a chain is asked for rings: `build_covered_request` up to `allocate_unique_rings`. -/
abbrev RingSource (ρ : Type) :=
  List RealOutputIdentity → Nat → ρ → Except WalletError (AllocatedRings × ρ)

/-- What `create_vesting` does after its checks, at the height the chain is at. -/
def vest [DecidableEq G] (P : Prover ρ F) (source : RingSource ρ) {w : Balance} (walk : w.Walk)
    (request : VestingRequest) (keys : KeyEpoch) (fuel : Nat) (r : ρ) :
    Option (Except WalletError (Transaction G × ρ)) :=
  (prepareVesting K rng walk request keys fuel r).map fun result => result.bind fun p =>
    (source (p.1.inputs.map (·.realOutput)) request.context.ringSize p.2).bind fun rings =>
      buildPreparedVestingTransaction K rng P p.1 rings.1 rings.2

/-- `create_vesting`: `current` is the current epoch of an unlocked wallet. -/
def createVesting [DecidableEq G] (build : BuildConfig) (P : Prover ρ F) (source : RingSource ρ)
    {w : Balance} (walk : w.Walk) (isWatchOnly : Bool) (current : Option KeyEpoch) (amount : Amount)
    (recipient : Address) (unlockHeight : UInt64) (height fuel : Nat) (r : ρ) :
    Option (Except WalletError (Transaction G × ρ)) :=
  if isWatchOnly = true then
    some (.error (.invalidState "Cannot create transactions from a watch-only wallet"))
  else
    match current, SpendContext.withRingSize build height (ringSizeAtHeight height) with
    | none, _ => some (.error .walletLocked)
    | _, .error e => some (.error e)
    | some keys, .ok context =>
      vest K rng P source walk ⟨⟨recipient.spendPublicKey, recipient.viewPublicKey, amount, false⟩,
        unlockHeight, context⟩ keys fuel r

/-! ## 2. Which outputs are selected -/

section

/-- What the first outputs of a list are worth. -/
def held (order : List Entry) (n : Nat) : Nat := satSum ((order.take n).map Entry.amount)

theorem held_mono (order : List Entry) {m n : Nat} (h : m ≤ n) : held order m ≤ held order n := by
  have hsum := ((order.take_sublist_take_left h).map Entry.amount).sum_le_sum
    fun _ _ => Nat.zero_le _
  rw [held, held, satSum_eq, satSum_eq]
  unfold saturate
  omega

theorem gather_eq_take {target sum : Nat} {l acc selected : List Entry}
    (h : gather target l sum acc = .ok selected) : ∃ n, n < l.length ∧
      selected = acc ++ l.take (n + 1) ∧
      target ≤ saturate (sum + ((l.take (n + 1)).map Entry.amount).sum) ∧
      ∀ m, 1 ≤ m → m ≤ n → saturate (sum + ((l.take m).map Entry.amount).sum) < target := by
  induction l generalizing sum acc with
  | nil => cases h
  | cons e rest ih =>
    unfold gather at h
    split_ifs at h with hcovers
    · cases h
      exact ⟨0, Nat.succ_pos _, rfl, hcovers, fun m h1 h0 => by omega⟩
    · obtain ⟨n, hn, rfl, hlast, hbefore⟩ := ih h
      rw [saturate_saturate_add, add_assoc] at hlast
      refine ⟨n + 1, Nat.succ_lt_succ hn, by simp, hlast, fun m h1 hm => ?_⟩
      obtain ⟨m, rfl⟩ := Nat.exists_eq_add_of_le' h1
      by_cases h0 : m = 0
      · rw [h0]
        exact not_le.mp hcovers
      · have hrest := hbefore m (by omega) (by omega)
        rwa [saturate_saturate_add, add_assoc] at hrest

omit [Field F]

variable (rng : Rng ρ F)

/-- The order in which outputs are taken: the oldest first, and of the same height as drawn. -/
def drawnOrder (utxos : List Entry) (r : ρ) : List Entry :=
  (rng.shuffle utxos r).1.insertionSort fun a b => CoinSelection.oldestFirst.before a b

variable {rng} {utxos selected : List Entry} {r r' : ρ} {target : Nat}

theorem selectUtxos_eq_take
    (h : selectUtxos rng utxos .oldestFirst target r = .ok (selected, r')) :
    ∃ n, selected = (drawnOrder rng utxos r).take n ∧ selected.length = n ∧ 1 ≤ n ∧
      target ≤ held (drawnOrder rng utxos r) n ∧
      ∀ m, 1 ≤ m → m < n → held (drawnOrder rng utxos r) m < target := by
  unfold selectUtxos at h
  split_ifs at h
  obtain ⟨taken, htaken, h⟩ := map_eq_ok_iff.mp h
  obtain ⟨rfl, -⟩ := Prod.mk.inj h
  obtain ⟨n, hn, rfl, hlast, hbefore⟩ := gather_eq_take htaken
  simp only [held, satSum_eq]
  rw [Nat.zero_add] at hlast
  refine ⟨n + 1, rfl, ?_, Nat.succ_pos _, hlast, fun m h1 hm => ?_⟩
  · rw [List.nil_append, List.length_take, Nat.min_eq_left hn]
  · have := hbefore m h1 (by omega)
    rwa [Nat.zero_add] at this

theorem drawnOrder_eq (h : (utxos.map fun e => e.2.height).Nodup) (r r' : ρ) :
    drawnOrder rng utxos r = drawnOrder rng utxos r' := by
  have hperm : ∀ r, (drawnOrder rng utxos r).Perm utxos := fun r =>
    (List.perm_insertionSort _ _).trans (rng.shuffle_perm _ _)
  have hsorted : ∀ r, (drawnOrder rng utxos r).Pairwise fun a b => a.2.height ≤ b.2.height :=
    fun r => by
      have : Std.Total fun a b : Entry => CoinSelection.oldestFirst.before a b = true :=
        ⟨fun a b => by simpa [CoinSelection.before] using Nat.le_total _ _⟩
      have : IsTrans Entry fun a b => CoinSelection.oldestFirst.before a b = true :=
        ⟨fun a b c => by simpa [CoinSelection.before] using Nat.le_trans⟩
      exact (List.pairwise_insertionSort _ _).imp of_decide_eq_true
  refine List.Perm.eq_of_pairwise (fun a b ha hb hab hba => ?_) (hsorted r) (hsorted r')
    ((hperm r).trans (hperm r').symm)
  exact List.inj_on_of_nodup_map h ((hperm r).mem_iff.mp ha) ((hperm r').mem_iff.mp hb)
    (le_antisymm hab hba)

/-- **The two oldest are what is needed**: the oldest alone does not cover the amount and the fee of
one input, the two oldest cover the amount with that fee and with the fee of two. -/
def TwoCover (order : List Entry) (fee : Nat → Nat) (amount : Nat) : Prop :=
  held order 1 < saturate (amount + fee 1) ∧ saturate (amount + fee 1) ≤ held order 2 ∧
    saturate (amount + fee 2) ≤ held order 2

/-- The change that is left of the two oldest. -/
def changeOfTwo (order : List Entry) (fee : Nat → Nat) (amount : Nat) : Nat :=
  held order 2 - saturate (amount + fee 2)

variable {ensure : Nat → Except WalletError Unit} {fee : Nat → Nat} {amount fuel required : Nat}
  {s : Selection}

theorem selectionLoop_turn (h : selectionLoop ensure (selectUtxos rng utxos .oldestFirst) fee amount
    fuel required r = some (.ok (s, r'))) :
    ∃ n, 1 ≤ n ∧ required ≤ held (drawnOrder rng utxos r) n ∧
      (∀ m, 1 ≤ m → m < n → held (drawnOrder rng utxos r) m < required) ∧
      if saturate (amount + fee n) ≤ held (drawnOrder rng utxos r) n then
        s.selected.length = n ∧ s.totalNeeded = saturate (amount + fee n) ∧
          s.inputSum = held (drawnOrder rng utxos r) n
      else ∃ fuel' < fuel, ∃ r₁, selectionLoop ensure (selectUtxos rng utxos .oldestFirst) fee
        amount fuel' (saturate (amount + fee n)) r₁ = some (.ok (s, r')) := by
  cases fuel with
  | zero => cases h
  | succ fuel =>
    unfold selectionLoop at h
    cases he : ensure required with
    | error e =>
      rw [he] at h
      cases Option.some.inj h
    | ok u =>
      cases hs : selectUtxos rng utxos .oldestFirst required r with
      | error e =>
        rw [he, hs] at h
        cases Option.some.inj h
      | ok made =>
        obtain ⟨selected, r₁⟩ := made
        obtain ⟨n, htake, hlen, hpos, hcovers, hbefore⟩ := selectUtxos_eq_take hs
        have hheld : satSum (selected.map Entry.amount) = held (drawnOrder rng utxos r) n := by
          rw [htake, held]
        rw [he, hs] at h
        simp only [hlen, hheld] at h
        refine ⟨n, hpos, hcovers, hbefore, ?_⟩
        split_ifs at h ⊢
        · obtain ⟨rfl, -⟩ := Prod.mk.inj (Except.ok.inj (Option.some.inj h))
          exact ⟨hlen, rfl, rfl⟩
        · exact ⟨fuel, Nat.lt_succ_self _, r₁, h⟩

/-- **Two inputs by the first turn.** -/
theorem selectionLoop_of_twoCover (hcover : TwoCover (drawnOrder rng utxos r) fee amount)
    (h : selectionLoop ensure (selectUtxos rng utxos .oldestFirst) fee amount fuel
      (saturate (amount + fee 1)) r = some (.ok (s, r'))) :
    s.selected.length = 2 ∧
      s.inputSum - s.totalNeeded = changeOfTwo (drawnOrder rng utxos r) fee amount := by
  obtain ⟨hone, htwo, hfee⟩ := hcover
  obtain ⟨n, hpos, hcovers, hbefore, hturn⟩ := selectionLoop_turn h
  obtain rfl : n = 2 := by
    have hne : n ≠ 1 := fun h1 => by rw [h1] at hcovers; omega
    by_contra hn
    have := hbefore 2 (by decide) (by omega)
    omega
  rw [if_pos hfee] at hturn
  obtain ⟨hlen, hneeded, hsum⟩ := hturn
  exact ⟨hlen, by rw [hneeded, hsum, changeOfTwo]⟩

theorem length_ne_two_of_held_lt (hheights : (utxos.map fun e => e.2.height).Nodup)
    (hshort : held (drawnOrder rng utxos r) 2 < required)
    (h : selectionLoop ensure (selectUtxos rng utxos .oldestFirst) fee amount fuel required r =
      some (.ok (s, r'))) : s.selected.length ≠ 2 := by
  induction fuel using Nat.strong_induction_on generalizing required r with
  | _ fuel ih =>
    obtain ⟨n, hpos, hcovers, -, hturn⟩ := selectionLoop_turn h
    have hmany : 2 < n := by
      by_contra hn
      have := held_mono (drawnOrder rng utxos r) (not_lt.mp hn)
      omega
    split_ifs at hturn with hdone
    · omega
    · obtain ⟨fuel', hlt, r₁, hrest⟩ := hturn
      refine ih fuel' hlt ?_ hrest
      have := held_mono (drawnOrder rng utxos r) hmany.le
      rw [drawnOrder_eq hheights r₁ r]
      omega

/-- **Two inputs only so**, where no two outputs are of the same height. -/
theorem twoCover_of_length (hheights : (utxos.map fun e => e.2.height).Nodup)
    (h : selectionLoop ensure (selectUtxos rng utxos .oldestFirst) fee amount fuel
      (saturate (amount + fee 1)) r = some (.ok (s, r'))) (htwo : s.selected.length = 2) :
    TwoCover (drawnOrder rng utxos r) fee amount := by
  obtain ⟨n, hpos, hcovers, hbefore, hturn⟩ := selectionLoop_turn h
  have hmono := @held_mono (drawnOrder rng utxos r)
  split_ifs at hturn with hdone
  · obtain rfl : n = 2 := hturn.1.symm.trans htwo
    exact ⟨hbefore 1 le_rfl (by decide), hcovers, hdone⟩
  · obtain ⟨fuel', -, r₁, hrest⟩ := hturn
    refine absurd htwo (length_ne_two_of_held_lt hheights ?_ hrest)
    have hmany : n ≠ 1 := fun h1 => by
      rw [h1] at hdone hcovers
      exact hdone hcovers
    have := hmono (show 2 ≤ n by omega)
    rw [drawnOrder_eq hheights r₁ r]
    omega

end

/-! ## 3. What is built -/

/-- The outputs for the change: one if it is large enough. -/
def changeOutputs (change : Nat) : Nat := if minOutputAmount ≤ change then 1 else 0

section

open TransactionBuilder

variable {K rng} {r r' : ρ} {p : PreparedVestingTransaction F}

theorem addOutputExt_stealth {b : TransactionBuilder F G} {recipient : Recipient} {idx : UInt8}
    {sub : Bool} {o : OutputBuilder F}
    (h : b.addOutputExt K rng recipient idx sub r = .ok (b.append [o], r')) :
    K.generateStealthAddressCheckedExt rng recipient.spendPublic recipient.viewPublic idx sub r =
      .ok ((o.stealthAddress, o.txSecret), r') := by
  obtain ⟨⟨⟩, -, h⟩ := bind_eq_ok_iff.mp h
  obtain ⟨⟨⟩, -, h⟩ := bind_eq_ok_iff.mp h
  obtain ⟨⟨⟨st, tx⟩, r₁⟩, hgen, h⟩ := bind_eq_ok_iff.mp h
  simp only at h
  split at h
  · cases h
  · obtain ⟨happend, rfl⟩ := Prod.mk.inj (Except.ok.inj h)
    obtain ⟨rfl, -⟩ := List.cons.inj (List.append_cancel_left
      (congrArg TransactionBuilder.outputs happend))
    exact hgen

theorem generateStealthAddressCheckedExt_main {spendPub viewPub : PublicKey} {idx : UInt8}
    {made : StealthAddress × SecretKey}
    (h : K.generateStealthAddressCheckedExt rng spendPub viewPub idx false r = .ok (made, r')) :
    r' = (rng.scalar r).2 ∧ ∃ spend view, K.decompress spendPub.bytes = some spend ∧
      K.decompress viewPub.bytes = some view ∧ made.1 =
        ⟨K.oneTimeKey ((rng.scalar r).1 • view) spend idx,
          ⟨K.compress ((rng.scalar r).1 • K.generator)⟩⟩ := by
  unfold KeySuite.generateStealthAddressCheckedExt at h
  simp only at h
  split at h
  · cases h
  · split at h
    · cases h
    · obtain ⟨rfl, rfl⟩ := Prod.mk.inj (Except.ok.inj h)
      exact ⟨rfl, _, _, ‹_›, ‹_›, rfl⟩

variable (rng) in
/-- How many dummies are drawn, after a scalar for the recipient's output and one for the change. -/
def vestingDummies (change : Nat) (r : ρ) : Nat :=
  (rng.below 3 (if minOutputAmount ≤ change then (rng.scalar (rng.scalar r).2).2
    else (rng.scalar r).2)).1

/-- **What is assembled**: the recipient's output first, locked, and as many inputs and outputs as
were selected and drawn. -/
theorem assembleVesting_eq_ok {rings : AllocatedRings}
    {b : TransactionBuilder F G} (h : assembleVesting K rng p rings r = .ok (b, r')) :
    b.txType = .transfer ∧ b.inputs.length = p.inputs.length ∧
      b.outputs.length =
        1 + (changeOutputs p.changeAmount + vestingDummies rng p.changeAmount r) ∧
      ∃ o, b.outputs[0]? = some o ∧ o.lockHeight = some p.request.unlockHeight ∧
        ForPayment K p.request.payment.spendPublic p.request.payment.viewPublic false
          p.request.payment.amount 0 o ∧
        ∃ spend view, K.decompress p.request.payment.spendPublic.bytes = some spend ∧
          K.decompress p.request.payment.viewPublic.bytes = some view ∧ o.stealthAddress =
            ⟨K.oneTimeKey ((rng.scalar r).1 • view) spend 0,
              ⟨K.compress ((rng.scalar r).1 • K.generator)⟩⟩ := by
  obtain ⟨b₁, hinputs, h⟩ := bind_eq_ok_iff.mp h
  obtain ⟨is, rfl, his⟩ := addPreparedInputs_eq_ok hinputs
  obtain ⟨⟨b₂, r₂⟩, hpayment, h⟩ := bind_eq_ok_iff.mp h
  obtain ⟨-, -, o, rfl, hamount, hlock, hpays⟩ := addOutputExt_eq_ok hpayment
  obtain ⟨rfl, hstealth⟩ := generateStealthAddressCheckedExt_main (addOutputExt_stealth hpayment)
  obtain ⟨⟨⟨b₃, fee⟩, r₃⟩, hchange, h⟩ := bind_eq_ok_iff.mp h
  obtain ⟨⟨b₄, r₄⟩, hpadded, h⟩ := bind_eq_ok_iff.mp h
  cases h
  obtain ⟨dummies, rfl, hdummies, -⟩ := addDummyOutputs_eq_ok hpadded
  have hlen : is.length = p.inputs.length := by simpa using congrArg List.length his
  have hdrawn : (rng.below 3 r₃).1 < 3 := rng.below_lt 3 r₃ (by decide)
  by_cases hkeeps : minOutputAmount ≤ p.changeAmount
  · have hroom : 2 + (rng.below 3 r₃).1 ≤ maxTxOutputs := by unfold maxTxOutputs; omega
    have hstate : r₃ = (rng.scalar (rng.scalar r).2).2 := by
      rw [addChangeOrFee, if_pos hkeeps] at hchange
      obtain ⟨⟨b', r''⟩, hadded, hchange⟩ := map_eq_ok_iff.mp hchange
      obtain ⟨-, rfl⟩ := Prod.mk.inj hchange
      obtain ⟨-, -, o', rfl, -⟩ := addOutputExt_eq_ok hadded
      exact (generateStealthAddressCheckedExt_main (addOutputExt_stealth hadded)).1
    have hchange := addChangeOrFee_eq_ok hchange
    rw [if_pos hkeeps] at hchange
    obtain ⟨-, -, o', rfl, -⟩ := hchange
    refine ⟨rfl, hlen, ?_, o, rfl, hlock, ⟨hamount, hpays⟩, hstealth⟩
    rw [changeOutputs, if_pos hkeeps, vestingDummies, if_pos hkeeps, ← hstate]
    change ([o] ++ [o'] ++ dummies).length = _
    rw [List.length_append, hdummies hroom]
    exact add_assoc 1 1 _
  · have hroom : 1 + (rng.below 3 r₃).1 ≤ maxTxOutputs := by unfold maxTxOutputs; omega
    rw [addChangeOrFee, if_neg hkeeps] at hchange
    obtain ⟨hsame, rfl⟩ := Prod.mk.inj (Except.ok.inj hchange)
    obtain ⟨rfl, -⟩ := Prod.mk.inj hsame
    refine ⟨rfl, hlen, ?_, o, rfl, hlock, ⟨hamount, hpays⟩, hstealth⟩
    rw [changeOutputs, if_neg hkeeps, vestingDummies, if_neg hkeeps, zero_add]
    change ([o] ++ dummies).length = _
    rw [List.length_append, hdummies hroom]
    rfl

omit [AddCommGroup G] in
theorem checkTxUniformShape_transfer {tx : Transaction G} (htx : tx.txType = .transfer)
    (height : Nat) : checkTxUniformShape tx height = .ok () ↔
      tx.inputs.length = 2 ∧ (tx.outputs.length = 2 ∨ tx.outputs.length = 3) := by
  have hactive : ¬ height < uniformTxShapeHeight := Nat.not_lt_zero height
  rw [checkTxUniformShape, if_neg hactive, htx]
  simp only [reduceCtorEq, or_false, not_true, if_false, false_and, not_false_eq_true,
    bind_ok_iff, require_ok_iff, and_true]
  rfl

variable [DecidableEq G] {build : BuildConfig} {P : Prover ρ F} {source : RingSource ρ} {w : Balance}
  {walk : w.Walk} {keys : KeyEpoch} {amount : Amount} {recipient : Address}
  {unlockHeight : UInt64} {height fuel : Nat} {tx : Transaction G}

omit [DecidableEq G] in
theorem prepareVesting_eq_ok {request : VestingRequest}
    (h : prepareVesting K rng walk request keys fuel r = some (.ok (p, r'))) :
    p.request = request ∧ ∃ s,
      selectionLoop (Balance.ensureSpendable walk request.context.targetHeight
          request.context.minOutputAge)
        (selectUtxos rng (Balance.availableUtxos walk request.context.targetHeight
          request.context.minOutputAge) .oldestFirst)
        (vestingFee request.context.ringSize) request.payment.amount.val fuel
        (saturate (request.payment.amount.val + vestingFee request.context.ringSize 1)) r =
          some (.ok (s, r')) ∧
      p.inputs.length = s.selected.length ∧ p.changeAmount = s.inputSum - s.totalNeeded := by
  unfold prepareVesting at h
  simp only at h
  split at h
  · cases Option.some.inj h
  · obtain ⟨result, hloop, h⟩ := Option.map_eq_some_iff.mp h
    obtain ⟨⟨s, r₁⟩, rfl, h⟩ := bind_eq_ok_iff.mp h
    obtain ⟨inputs, hinputs, h⟩ := map_eq_ok_iff.mp h
    cases h
    exact ⟨rfl, s, hloop, (mapM_eq_ok hinputs).length_eq.symm, rfl⟩

omit [DecidableEq G] in
/-- **Preparing ends.** -/
theorem isSome_prepareVesting (request : VestingRequest) :
    (prepareVesting K rng walk request keys (2 ^ 64) r).isSome = true := by
  unfold prepareVesting
  simp only
  split
  · rfl
  · rw [Option.isSome_map]
    refine isSome_selectionLoop (fun _ _ _ _ => selectUtxos_eq_ok) ?_ (Nat.le_add_right _ _)
    unfold saturate
    omega

variable (rng) in
/-- **The shape comes out right**: two outputs are needed, and the change, if it is worth an output,
and the dummies are together one or two. -/
def UniformVesting (order : List Entry) (fee : Nat → Nat) (amount : Nat) (r : ρ) : Prop :=
  let change := changeOfTwo order fee amount
  TwoCover order fee amount ∧
    (changeOutputs change + vestingDummies rng change r = 1 ∨
      changeOutputs change + vestingDummies rng change r = 2)

omit [DecidableEq G] in
theorem exists_owns_of_scan {v : Receiver} {o : TxOutput} {R : G} {d : DecryptedOutput F}
    (htx : tx.txType = .transfer) (ho : tx.outputs[0]? = some o)
    (hR : K.decompress o.txPublicKey.bytes = some R)
    (hd : d ∈ scanTransaction K [v.scanKeys K] tx) (hindex : d.outputIndex = 0) :
    ∃ B, v.Owns K B ∧ o.stealthAddress = K.oneTimeKey (K.scalarOf v.keys.viewSecret • R) B 0 := by
  obtain ⟨⟨o', i⟩, hmem, hscan⟩ := List.mem_filterMap.mp hd
  obtain ⟨k, hk, hscan⟩ := List.exists_of_findSome?_eq_some hscan
  obtain rfl := List.mem_singleton.mp hk
  have hplain : tx.isCoinbase = false := by rw [Transaction.isCoinbase, htx]; rfl
  rw [ScanKeys.scan, hplain] at hscan
  obtain ⟨subaddress, hmatched, hscan⟩ := Option.bind_eq_some_iff.mp hscan
  have hours : ∃ B, v.Owns K B ∧ K.isOutputOurs ⟨o'.stealthAddress, o'.txPublicKey⟩
      v.keys.viewSecret ⟨K.compress B⟩ (UInt8.ofNat i) = true := by
    unfold ScanKeys.matched at hmatched
    split_ifs at hmatched with hmain
    · exact ⟨_, .inl rfl, hmain⟩
    · obtain ⟨k, hk, -⟩ := Option.map_eq_some_iff.mp hmatched
      obtain ⟨s, hs, rfl⟩ := List.mem_map.mp (List.mem_of_find?_eq_some hk)
      have hours := List.find?_some hk
      exact ⟨_, .inr ⟨s, hs, rfl⟩, hours⟩
  -- the output at index 0 is the one that was scanned
  rw [List.mem_zipIdx_iff_getElem?] at hmem
  have hlt : i < 256 := by
    have := (List.getElem?_eq_some_iff.mp hmem).1
    rw [List.length_take] at this
    omega
  obtain rfl : i = 0 := by
    simp only at hscan
    split_ifs at hscan
    cases hscan
    simpa [Nat.mod_eq_of_lt hlt] using congrArg UInt8.toNat hindex
  rw [List.getElem?_take_of_lt hlt] at hmem
  obtain rfl : o = o' := Option.some.inj (ho.symm.trans hmem)
  obtain ⟨B, howns, hours⟩ := hours
  refine ⟨B, howns, ?_⟩
  unfold KeySuite.isOutputOurs at hours
  rw [hR, K.decompress_compress] at hours
  split_ifs at hours
  exact beq_iff_eq.mp hours

end

namespace SmallWallet

open SmallSuite

def ringSource : RingSource Unit := fun reals size r =>
  .ok (⟨size, reals, reals.map fun _ =>
    (List.replicate (size - 1) ⟨suite.publicKey (secret 7), suite.compress 11⟩, 0)⟩, r)

/-- The wallet that vestings go to. -/
def pensioner : Receiver := ⟨⟨secret 7, secret 8⟩, 0, [(0, 1)]⟩

/-- A vesting transaction of the wallet. -/
def vested (x y amount : UInt64) (recipient : Address) : Option (Transaction Z) :=
  (createVesting suite fixedRng ⟨false, false⟩ prover ringSource (walk x y) false (some keys) ⟨amount⟩
    recipient 5000 1000 (2 ^ 64) ()).bind fun made => made.toOption.map Prod.fst

def mainAddress : Address :=
  ⟨.standard, suite.publicKey (secret 8), suite.publicKey (secret 7)⟩

def subaddress : Address :=
  ⟨.subaddress, ⟨suite.compress (pensioner.point suite (0, 1))⟩,
    ⟨suite.compress (suite.scalarOf (secret 7) • pensioner.point suite (0, 1))⟩⟩

theorem of_vested {x y amount : UInt64} {recipient : Address} {tx : Transaction Z}
    (h : vested x y amount recipient = some tx) :
    createVesting suite fixedRng ⟨false, false⟩ prover ringSource (walk x y) false (some keys)
      ⟨amount⟩ recipient 5000 1000 (2 ^ 64) () = some (.ok (tx, ())) := by
  obtain ⟨made, hmade, h⟩ := Option.bind_eq_some_iff.mp h
  rw [hmade]
  cases made with
  | error e => cases h
  | ok made =>
    cases h
    rfl

end SmallWallet

end Coincync
