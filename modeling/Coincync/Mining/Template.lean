/-
# Templates and candidate blocks

`build_template_json` of `src/mining/template.rs` and `build_block_from_template` of
`src/mining/block_builder.rs`: what the built-in miner puts on top of the tip.  The template is a
record here; its JSON, hex and `borsh` encodings are left out, and so is the fallback to a
difficulty, which a template with a target does not take.
-/
import Coincync.Chain.Conservation
import Coincync.Chain.Window
import Coincync.Mempool.Admission

namespace Coincync

open Lib Suite

/-! ## 1. The template -/

/-- The template. -/
structure Template (G : Type) where
  height : Nat
  prevHash : Hash
  timestamp : Nat
  networkMagic : FixedBytes 4
  target : Hash
  difficulty : Nat
  transactions : List (Transaction G)

def coinbaseHeadroom : Nat := 10 * 1024

/-- The byte budget of the transactions. -/
def templateBudget : Nat := maxBlockSize - coinbaseHeadroom

/-- The most transactions a template takes. -/
def templateMaxCount : Nat := 4096

namespace Blockchain

section

variable {G : Type} (st : Blockchain G)

/-- The timestamp of a template: the clock, but later than the tip. -/
def templateTimestamp (now : Option UInt64) : Nat :=
  max (now.getD 0).toNat (min (st.tip.timestamp.toNat + 1) (2 ^ 64 - 1))

end

variable {F G : Type} [Field F] [AddCommGroup G] [Module F G] (S : Suite F G)
  [DecidableEq F] [DecidableEq G] (st : Blockchain G)

/-- `build_template_json`. -/
def buildTemplate (cfg : NodeConfig) (ctx : CallContext G) (pool : Mempool G) : Template G where
  height := st.tip.height + 1
  prevHash := st.tip.hash
  timestamp := st.templateTimestamp ctx.now
  networkMagic := st.network.magicBytes
  target := st.nextTarget
  difficulty := st.tip.difficulty
  transactions := (pool.getBlockTransactions templateBudget templateMaxCount).filter fun tx =>
    (st.validateTransaction S cfg ctx tx).isOk

end Blockchain

/-! ## 2. The candidate block -/

/-- Who is paid: the spend key, and what `coinbase_stealth_address` derives from the two keys of the
payee at a height -- the one-time address and the transaction key, or nothing if a key is not a
point. -/
structure Payout where
  spendPub : PublicKey
  derive : UInt64 → Option (PublicKey × PublicKey)

/-- `CandidateBlock`: all of a block but the nonce. -/
structure CandidateBlock (G : Type) where
  header : BlockHeader
  transactions : List (Transaction G)

def CandidateBlock.intoBlock {G : Type} (c : CandidateBlock G) (nonce : UInt64) : Block G where
  header := { c.header with nonce := nonce }
  transactions := c.transactions

/-- Why no candidate is built. -/
inductive BuildError
  | missingTimestamp
  | stealthAddress
  | unknownNetworkMagic
  deriving DecidableEq

def NetworkType.fromMagicBytes (magic : FixedBytes 4) : Option NetworkType :=
  [.mainnet, .testnet, .regtest].find? fun n => n.magicBytes = magic

def encodeCoinbaseExtra (height : UInt64) (signalBits : UInt32) : Bytes :=
  u64LeBytes height ++ if signalBits ≠ 0 then leBytes 4 signalBits.toNat else []

section

variable {F G : Type} [Field F] [AddCommGroup G] [Module F G] (S : Suite F G)

/-- `calculate_claimable_fees`: congestion is judged by the transactions alone. -/
def calculateClaimableFees (build : BuildConfig) (height : Nat) (txs : List (Transaction G)) :
    Nat :=
  let totalFees := (txs.map fun tx => tx.fee.val).sum % 2 ^ 64
  if totalFees = 0 then 0
  else if height < feeDistributionHeight build then totalFees
  else
    let blockSize := (txs.map (Transaction.size S)).sum
    (distributeFee ⟨UInt64.ofNat totalFees⟩
      (decide (congestionThreshold ≤ congestionPct blockSize))).toMiner.val

/-- The output of the coinbase. -/
def candidateOutput (amount : UInt64) (address txKey : PublicKey) : TxOutput where
  stealthAddress := address
  txPublicKey := txKey
  commitment := S.compress (S.commit amount 0)
  encryptedAmount := u64LeBytes amount
  viewTag := (S.hashDomain (ascii "COINCYNC_VIEW_TAG") (txKey.asSlice ++ [0])).bytes.head
  lockHeight := none
  encryptedMemo := []

def buildCoinbaseWithFees (payout : Payout) (height : UInt64) (totalFees : Nat)
    (signalBits : UInt32) : Option (Transaction G) :=
  let reward := calculateBlockReward height.toNat
  let amount := UInt64.ofNat (min (reward.val + totalFees) (2 ^ 64 - 1))
  (payout.derive height).map fun address =>
    { version := 1
      txType := .coinbase
      inputs := []
      outputs := [candidateOutput S amount address.1 address.2]
      fee := Amount.zero
      rangeProof := []
      extra := encodeCoinbaseExtra height signalBits }

/-- `build_block_from_template`.  The timestamp is read as an `i64`. -/
def buildBlockFromTemplate (build : BuildConfig) (payout : Payout) (signalBits : UInt32)
    (t : Template G) : Except BuildError (CandidateBlock G) :=
  let height := UInt64.ofNat t.height
  if 2 ^ 63 ≤ t.timestamp then .error .missingTimestamp
  else
    let timestamp := UInt64.ofNat t.timestamp
    let claimableFees := calculateClaimableFees S build t.height t.transactions
    match buildCoinbaseWithFees S payout height claimableFees signalBits with
    | none => .error .stealthAddress
    | some coinbase =>
      let allTxs := coinbase :: t.transactions
      if NetworkType.fromMagicBytes t.networkMagic = none then .error .unknownNetworkMagic
      else
        .ok
          { header :=
              { networkMagic := t.networkMagic
                version := 1
                height := height
                timestamp := timestamp
                prevHash := t.prevHash
                txRoot := S.merkleRoot (allTxs.map (Transaction.hash S))
                anchor := computeFullAnchor S t.prevHash height timestamp
                algorithm := randomxAlgorithm
                nonce := 0
                target := t.target
                minerPubkey := payout.spendPub
                supplyCommitment := FixedBytes.replicate 32 0
                checkpointVote := none
                sparkSetRoot := FixedBytes.replicate 32 0
                mwKernelRoot := FixedBytes.replicate 32 0 }
            transactions := allTxs }

omit [AddCommGroup G] in
theorem fromMagicBytes_magicBytes (network : NetworkType) :
    NetworkType.fromMagicBytes network.magicBytes = some network := by
  cases network <;> decide

theorem buildBlockFromTemplate_ok (build : BuildConfig) {payout : Payout} (signalBits : UInt32)
    {t : Template G} {network : NetworkType} (hmagic : t.networkMagic = network.magicBytes)
    (htime : t.timestamp < 2 ^ 63) {address : PublicKey × PublicKey}
    (hpay : payout.derive (UInt64.ofNat t.height) = some address) :
    ∃ c coinbase, buildBlockFromTemplate S build payout signalBits t = .ok c ∧
      buildCoinbaseWithFees S payout (UInt64.ofNat t.height)
        (calculateClaimableFees S build t.height t.transactions) signalBits = some coinbase ∧
      c.transactions = coinbase :: t.transactions ∧
      c.header.version = 1 ∧ c.header.height = UInt64.ofNat t.height ∧
      c.header.timestamp = UInt64.ofNat t.timestamp ∧ c.header.prevHash = t.prevHash ∧
      c.header.checkpointVote = none := by
  have hcoinbase : ∃ coinbase, buildCoinbaseWithFees S payout (UInt64.ofNat t.height)
      (calculateClaimableFees S build t.height t.transactions) signalBits = some coinbase := by
    simp [buildCoinbaseWithFees, hpay]
  obtain ⟨coinbase, hcoinbase⟩ := hcoinbase
  unfold buildBlockFromTemplate
  simp only [hcoinbase, if_neg (not_le.mpr htime), hmagic, fromMagicBytes_magicBytes,
    reduceCtorEq, if_false]
  exact ⟨_, coinbase, rfl, rfl, rfl, rfl, rfl, rfl, rfl, rfl⟩

variable {S}

/-- The size of the coinbase that the builder makes. -/
def coinbaseBytes (signalBits : UInt32) : Nat := if signalBits = 0 then 148 else 152

theorem size_of_buildCoinbaseWithFees {payout : Payout} {height : UInt64} {fees : Nat}
    {signalBits : UInt32} {address : PublicKey × PublicKey} {coinbase : Transaction G}
    (hpay : payout.derive height = some address)
    (h : buildCoinbaseWithFees S payout height fees signalBits = some coinbase) :
    coinbase.size S = coinbaseBytes signalBits := by
  rw [buildCoinbaseWithFees, hpay] at h
  cases h
  unfold coinbaseBytes
  split_ifs with hbits
  all_goals simp [Transaction.size, Transaction.toBytes, candidateOutput, vecBytes,
    TxOutput.toBytes, optionBytes, encodeCoinbaseExtra, hbits, length_leBytes]

theorem version_of_buildBlockFromTemplate {build : BuildConfig} {payout : Payout}
    {signalBits : UInt32} {t : Template G} {c : CandidateBlock G}
    (h : buildBlockFromTemplate S build payout signalBits t = .ok c) : c.header.version = 1 := by
  unfold buildBlockFromTemplate at h
  dsimp only at h
  split at h
  · cases h
  · split at h
    · cases h
    · split at h
      · cases h
      · cases h
        rfl

end

/-! ## 3. Nodes on a chain -/

variable {F G : Type} [Field F] [AddCommGroup G] [Module F G] {S : Suite F G}

/-- **A node whose tip is the head of a chain**, and whose UTXO set is the one the chain leaves. -/
structure StandsOn (S : Suite F G) (network : NetworkType) (st : Blockchain G) (s : Grown G) :
    Prop where
  network : st.network = network
  utxos : st.utxos = s.utxos
  tip : ∃ t rest, s.chain = t :: rest ∧ st.tip.hash = t.hash S ∧ st.tip.height = t.height ∧
    st.tip.timestamp = t.header.timestamp

variable {st : Blockchain G}

variable {s : Grown G}

/-! ## 4. The version only rises -/

section

variable [DecidableEq F] [DecidableEq G] {cfg : NodeConfig} {network : NetworkType}

omit [DecidableEq F] [DecidableEq G] in
theorem version_le_of_validateHeader {now : Option UInt64} {h p : BlockHeader}
    (hvalid : validateHeader S now h (some p) = []) : p.version ≤ h.version := by
  simp only [validateHeader, checkHeaderVsPrev, List.append_eq_nil_iff,
    errorUnless_eq_nil_iff] at hvalid
  exact hvalid.1.1.2.1.1.1

/-- **A ratchet**: on a chain of accepted blocks the tip has the highest version, and the height is
the length. -/
theorem ratchet (hrun : Reaches (grow S cfg network) (fun _ _ => True) (Grown.genesis S network) s) :
    Leveled s.chain ∧
      ∀ t rest, s.chain = t :: rest → ∀ b ∈ s.chain, b.header.version ≤ t.header.version := by
  refine hrun.invariant (I := fun s => Leveled s.chain ∧
    ∀ t rest, s.chain = t :: rest → ∀ b ∈ s.chain, b.header.version ≤ t.header.version)
    ⟨leveled_genesis network, ?_⟩ ?_
  · rintro t rest ⟨⟩ b hb
    obtain rfl := List.mem_singleton.mp hb
    exact UInt8.le_refl _
  · rintro s a s' ⟨hlevel, hversion⟩ - hgrow
    obtain ⟨hchecks, rfl⟩ := grow_eq_some hgrow
    refine ⟨hlevel.cons hchecks, ?_⟩
    rintro t rest ⟨⟩ b hb
    obtain ⟨p, below, hchain, -, -⟩ := hlevel
    rw [hchain, List.head?_cons] at hchecks
    rcases List.mem_cons.mp hb with rfl | hb
    · exact UInt8.le_refl _
    · exact UInt8.le_trans (hversion p below hchain b hb)
        (version_le_of_validateHeader hchecks.header)

theorem StandsOn.next_height (hst : StandsOn S network st s)
    (hrun : Reaches (grow S cfg network) (fun _ _ => True) (Grown.genesis S network) s) :
    st.tip.height + 1 = s.chain.length ∧ s.chain.length < 2 ^ 64 := by
  obtain ⟨t, rest, hchain, hlength, hlong⟩ := (ratchet hrun).1
  obtain ⟨t', rest', hchain', -, hheight, -⟩ := hst.tip
  cases hchain.symm.trans hchain'
  have hbound := t.header.timestamp.toNat_lt
  rw [hheight, hlength, hchain, List.length_cons]
  exact ⟨rfl, lt_of_le_of_lt hlong hbound⟩

end

/-! ## 5. The header that is built -/

/-- **A version 1 header against its parent.**  With everything else in order it passes exactly if
the parent has no higher version and version 2 is not yet asked for. -/
theorem validateHeader_version_one_iff {clock : UInt64} {h p : BlockHeader}
    (hversion : h.version = 1) (hheight : h.height = p.height + 1) (hprev : h.prevHash = p.hash S)
    (htime : p.timestamp < h.timestamp) (hvote : h.checkpointVote = none)
    (hclock : h.timestamp ≤ clock + maxTimestampDrift) :
    validateHeader S (some clock) h (some p) = [] ↔
      p.version ≤ 1 ∧ h.height.toNat < v2TxActivationHeight := by
  have hmin : blockVersionAtHeight h.height.toNat ≤ 1 ↔ h.height.toNat < v2TxActivationHeight := by
    unfold blockVersionAtHeight
    split_ifs with hhigh
    · simp only [not_lt.mpr hhigh, iff_false]
      decide
    · simp only [not_le.mp hhigh, iff_true]
      decide
  have hfuture : ¬(0 < h.height ∧ clock + maxTimestampDrift < h.timestamp) := by
    rintro ⟨-, hlate⟩
    exact absurd hclock (UInt64.not_le.mpr hlate)
  simp only [validateHeader, checkHeaderVersionMin, checkHeaderVsPrev, checkHeaderCheckpointVote,
    checkHeaderFutureTimestamp, List.append_eq_nil_iff, errorUnless_eq_nil_iff, hversion, hvote,
    hheight.symm, hprev, htime, hfuture, hmin, not_false_eq_true, and_true]
  exact and_comm

section

variable [DecidableEq F] [DecidableEq G] {cfg : NodeConfig} {network : NetworkType}

/-- **When the built-in miner's header is valid.** -/
theorem built_header_valid_iff {s : Grown G} {st : Blockchain G}
    (hrun : Reaches (grow S cfg network) (fun _ _ => True) (Grown.genesis S network) s)
    (hst : StandsOn S network st s) {t : Block G} {rest : List (Block G)}
    (hchain : s.chain = t :: rest) (ctx : CallContext G) (pool : Mempool G) (payout : Payout)
    (signalBits : UInt32) {clock : UInt64} (htime : st.templateTimestamp ctx.now < 2 ^ 63)
    (hclock : UInt64.ofNat (st.templateTimestamp ctx.now) ≤ clock + maxTimestampDrift)
    (hpay : (payout.derive (UInt64.ofNat (st.tip.height + 1))).isSome = true) :
    ∃ c, buildBlockFromTemplate S cfg.build payout signalBits (st.buildTemplate S cfg ctx pool) =
        .ok c ∧
      (validateHeader S (some clock) c.header (some t.header) = [] ↔
        (∀ b ∈ s.chain, b.header.version ≤ 1) ∧ s.chain.length < v2TxActivationHeight) := by
  have hversions := (ratchet hrun).2
  obtain ⟨hlength, hfits⟩ := hst.next_height hrun
  obtain ⟨t', rest', hchain', hhash, hheight, hstamp⟩ := hst.tip
  cases hchain.symm.trans hchain'
  obtain ⟨address, haddress⟩ := Option.isSome_iff_exists.mp hpay
  have hmagic : (st.buildTemplate S cfg ctx pool).networkMagic = st.network.magicBytes := rfl
  obtain ⟨c, -, hc, -, -, hversion, hcheight, hctime, hcprev, hcvote⟩ :=
    buildBlockFromTemplate_ok S cfg.build signalBits hmagic htime haddress
  refine ⟨c, hc, ?_⟩
  -- the height of the header is one above the tip's, and has not wrapped
  have hnext : c.header.height.toNat = s.chain.length := by
    rw [hcheight, show (st.buildTemplate S cfg ctx pool).height = st.tip.height + 1 from rfl,
      hlength]
    exact UInt64.toNat_ofNat_of_lt' hfits
  have hsucc : c.header.height = t.header.height + 1 := by
    rw [hcheight, show (st.buildTemplate S cfg ctx pool).height = st.tip.height + 1 from rfl,
      hheight, Block.height, UInt64.ofNat_add, UInt64.ofNat_toNat]
    rfl
  have hlater : t.header.timestamp < c.header.timestamp := by
    rw [hctime, UInt64.lt_iff_toNat_lt,
      show (st.buildTemplate S cfg ctx pool).timestamp = st.templateTimestamp ctx.now from rfl,
      UInt64.toNat_ofNat_of_lt' (lt_trans htime (by decide)), ← hstamp]
    unfold Blockchain.templateTimestamp at htime ⊢
    omega
  rw [validateHeader_version_one_iff hversion hsucc (hcprev.trans hhash) hlater hcvote
    (hctime ▸ hclock), hnext]
  refine and_congr_left fun _ => ?_
  constructor
  · intro h b hb
    exact UInt8.le_trans (hversions t rest hchain b hb) h
  · intro h
    exact h t (hchain ▸ List.mem_cons_self)

end

namespace SmallChain

open SmallSuite Blockchain

/-- A payee with a fixed address. -/
def payee : Payout := ⟨⟨compress 5⟩, fun _ => some (⟨compress 5⟩, ⟨compress 6⟩)⟩

/-- The chain of the ten blocks. -/
def agedChain : Option (Grown Z) :=
  run (grow suite cfg .regtest) (fun _ _ => true) (Grown.genesis suite .regtest)
    (aged.reverse.tail.map arrives)

theorem aged_stands : (agedChain.any fun s => (agedNode 10).any fun st =>
    decide ((s.chain = aged ∧ st.network = .regtest ∧ st.utxos = s.utxos ∧
      st.tip = tipOf suite (aged.headD genesis)) ∧ st.templateTimestamp ctx.now < 2 ^ 63 ∧
      UInt64.ofNat (st.templateTimestamp ctx.now) ≤ 1800000000 + maxTimestampDrift)) = true := by
  decide +kernel

/-- **The ten blocks as a chain**, and a node that stands on it. -/
theorem exists_agedChain : ∃ s st, agedChain = some s ∧ agedNode 10 = some st ∧ s.chain = aged ∧
    StandsOn suite .regtest st s ∧ st.templateTimestamp ctx.now < 2 ^ 63 ∧
      UInt64.ofNat (st.templateTimestamp ctx.now) ≤ 1800000000 + maxTimestampDrift := by
  obtain ⟨s, hs, h⟩ := (Option.any_eq_true _ _).mp aged_stands
  obtain ⟨st, hst, h⟩ := (Option.any_eq_true _ _).mp h
  obtain ⟨⟨hchain, hnetwork, hutxos, htip⟩, htimes⟩ := of_decide_eq_true h
  have htipOf : st.tip.hash = (aged.headD genesis).hash suite ∧
      st.tip.height = (aged.headD genesis).height ∧
      st.tip.timestamp = (aged.headD genesis).header.timestamp := by
    rw [htip]
    exact ⟨rfl, rfl, rfl⟩
  exact ⟨s, st, hs, hst, hchain, ⟨hnetwork, hutxos, aged.headD genesis, aged.tail, hchain, htipOf⟩,
    htimes⟩

/-- **On ten blocks of version 1 the header passes.** -/
theorem aged_header_valid : ∃ s st c, agedChain = some s ∧ agedNode 10 = some st ∧
    s.chain.length = 11 ∧
    buildBlockFromTemplate suite cfg.build payee 0 (st.buildTemplate suite cfg ctx .new) = .ok c ∧
      validateHeader suite ctx.now c.header (some (aged.headD genesis).header) = [] := by
  obtain ⟨s, st, hs, hst, hchain, hstands, htime, hclock⟩ := exists_agedChain
  have hversions : ∀ b ∈ aged, b.header.version ≤ 1 := by decide +kernel
  have hlength : s.chain.length = 11 := by
    rw [hchain]
    rfl
  obtain ⟨c, hc, hiff⟩ := built_header_valid_iff (Reaches.run (fun _ _ _ => trivial) .start hs)
    hstands (show s.chain = aged.headD genesis :: aged.tail from hchain) ctx .new payee 0 htime
    hclock rfl
  refine ⟨s, st, c, hs, hst, hlength, hc, hiff.mpr ⟨?_, ?_⟩⟩
  · rwa [hchain]
  · rw [hlength]
    decide

/-- The first block, at version 2. -/
def raised1 : Block Z := { block1 with header := { block1.header with version := 2 } }

/-- **One block of version 2 locks the built-in miner out**: validation accepts it, it becomes the
tip, and from then on the header that is built is refused, whatever the clock, the pool and the
payee. -/
theorem raised_version_locks_out :
    (∃ s, grow suite cfg .regtest (Grown.genesis suite .regtest) (arrives raised1) = some s ∧
      s.chain = [raised1, genesis]) ∧
    ∃ st, booted.step suite cfg (.add steady raised1) = some st ∧
      st.tip = tipOf suite raised1 ∧
      ∀ ctx pool payout signalBits now c,
        buildBlockFromTemplate suite cfg.build payout signalBits
            (st.buildTemplate suite cfg ctx pool) = .ok c →
          validateHeader suite now c.header (some raised1.header) ≠ [] := by
  have hgrow : (grow suite cfg .regtest (Grown.genesis suite .regtest) (arrives raised1)).isSome =
      true := by
    decide +kernel
  have hadd : ((booted.step suite cfg (.add steady raised1)).any fun st =>
      decide (st.tip = tipOf suite raised1)) = true := by
    decide +kernel
  obtain ⟨s, hs⟩ := Option.isSome_iff_exists.mp hgrow
  obtain ⟨st, hst, htip⟩ := (Option.any_eq_true _ _).mp hadd
  refine ⟨⟨s, hs, ?_⟩, st, hst, of_decide_eq_true htip, ?_⟩
  · rw [(grow_eq_some hs).2]
    rfl
  · intro ctx pool payout signalBits now c hc hvalid
    have hversion := version_of_buildBlockFromTemplate hc
    have hle := version_le_of_validateHeader hvalid
    rw [hversion] at hle
    exact absurd hle (by decide)

end SmallChain

end Coincync
