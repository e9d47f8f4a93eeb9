/-
# Which blocks have their proof of work checked

A build without the `insecure-fast-sync` feature promises full verification at every height.  The
validator's middle branch -- a skip was asked for, the build does not have it -- logs that promise
and then runs nothing: a block at or below the checkpoint height is not checked.  `add_block`
passes the persisted `last_checkpoint` as that height, so it connects a block with any anchor as
long as the record on disk is high enough (`unchecked_block_connected`).  A reorganisation
validates without a checkpoint and always checks.
-/
import Coincync.Chain.Runs

namespace Coincync

open Lib Option

variable {F G : Type} [Field F] [AddCommGroup G] [Module F G] (S : Suite F G)
  [DecidableEq F] [DecidableEq G] {U : UtxoSet} {cp : Option Nat}

/-! ## 1. The validator -/

/-- The checkpoint height asks for no skip at this height. -/
def NoSkipRequested (height : Nat) (checkpointHeight : Option Nat) : Prop :=
  ∀ cp, checkpointHeight = some cp → cp < height

theorem fastSyncRequested_eq_false_iff {height : Nat} :
    fastSyncRequested height cp = false ↔ NoSkipRequested height cp := by
  cases cp <;> simp [fastSyncRequested, NoSkipRequested]

/-- **The proof of work of the header was checked in this validation**, against the hash of the
parent that the header names, and it passed. -/
def PowChecked (cfg : NodeConfig) (ctx : CallContext G) (b : Block G)
    (validation : BlockValidation) : Prop :=
  .powVerified ∈ validation.log ∧
    verifyHeaderPow S cfg ctx.randomxUp b.header.prevHash b.header = .ok ()

variable {prev : Option (Block G)} {network : NetworkType}

theorem valid_log {cfg : NodeConfig} {ctx : CallContext G} {b : Block G}
    (h : BlockChecks S cfg ctx b prev U cp network) :
    (validateBlockWithCheckpointForNetwork S cfg ctx b prev U cp network).log =
      (powStage S cfg ctx.randomxUp b prev cp).2 := by
  obtain ⟨maxCb, hcb, -⟩ := h.coinbase
  simp only [validateBlockWithCheckpointForNetwork, h.magic, h.checkpoint, h.nonempty, hcb, ne_eq,
    not_true_eq_false, if_false]
  split <;> rfl

/-- **The validator checks the proof of work exactly above the checkpoint height.** -/
theorem powChecked_iff {cfg : NodeConfig} {ctx : CallContext G} {b : Block G}
    (hbuild : allowCheckpointCryptoSkip cfg = false) (h0 : 0 < b.height)
    (hv : (validateBlockWithCheckpointForNetwork S cfg ctx b prev U cp network).valid = true) :
    PowChecked S cfg ctx b
        (validateBlockWithCheckpointForNetwork S cfg ctx b prev U cp network) ↔
      NoSkipRequested b.height cp := by
  have hb := (validateBlock_valid_iff S).mp hv
  obtain ⟨p, rfl, hprev⟩ := hb.exists_parent h0
  have hfs : fastSync cfg b.height cp = false := by simp [fastSync, hbuild]
  have hpow := hb.pow
  rw [PowChecked, valid_log S hb, ← fastSyncRequested_eq_false_iff, hprev]
  simp only [powStage, h0, if_true, powBranch, hfs, Bool.false_eq_true, if_false] at hpow ⊢
  by_cases hreq : fastSyncRequested b.height cp = true
  · -- the branch that only logs
    simp [hreq]
  · simp only [hreq, Bool.false_eq_true, if_false] at hpow ⊢
    cases hvp : verifyHeaderPow S cfg ctx.randomxUp (p.header.hash S) b.header with
    | ok u => simp
    | error e => simp [hvp] at hpow

/-! ## 2. The chain -/

namespace Blockchain

variable {S} {cfg : NodeConfig}

/-- The validation a block gets on arrival. -/
def arrivalValidation (S : Suite F G) (cfg : NodeConfig) (st : Blockchain G) (ctx : CallContext G)
    (b : Block G) : BlockValidation :=
  validateBlockWithCheckpointForNetwork S cfg ctx b (st.getBlock b.header.prevHash) st.utxos
    st.persistedCheckpoint st.network

variable {st st' : Blockchain G} {ctx : Nat → CallContext G} {b : Block G}

omit [DecidableEq F] [DecidableEq G] in
theorem disconnectAt_blocks_db {h : Nat} (hst : st.disconnectAt S cfg h = some st') :
    st'.blocks = st.blocks ∧ st'.db = st.db := by
  unfold disconnectAt at hst
  split at hst
  · cases hst
    exact ⟨rfl, rfl⟩
  · simp only [bind_eq_bind, bind_eq_some_iff, Option.some.injEq] at hst
    obtain ⟨_, -, _, -, rfl⟩ := hst
    exact ⟨rfl, rfl⟩

theorem disconnectAbove_blocks_db {target : Nat} : ∀ {n : Nat} {st st' : Blockchain G}
    {disc : Disconnected G}, disconnectAbove S cfg target n st = some (st', disc) →
    st'.blocks = st.blocks ∧ st'.db = st.db
  | 0, st, st', disc, h => by
    simp only [disconnectAbove, Option.some.injEq, Prod.mk.injEq] at h
    obtain ⟨rfl, -⟩ := h
    exact ⟨rfl, rfl⟩
  | n + 1, st, st', disc, h => by
    simp only [disconnectAbove, bind_eq_bind, bind_eq_some_iff, Option.some.injEq,
      Prod.exists, Prod.mk.injEq] at h
    obtain ⟨st₁, h₁, st₂, below, h₂, rfl, -⟩ := h
    obtain ⟨hb₁, hd₁⟩ := disconnectAt_blocks_db h₁
    obtain ⟨hb₂, hd₂⟩ := disconnectAbove_blocks_db h₂
    exact ⟨hb₂.trans hb₁, hd₂.trans hd₁⟩

omit [DecidableEq F] [DecidableEq G] in
theorem collectForkChain_congr (hb : st'.blocks = st.blocks) (hd : st'.db = st.db) (b : Block G)
    (forkPoint : Nat) : st'.collectForkChain S b forkPoint = st.collectForkChain S b forkPoint := by
  have hget : st'.getBlock = st.getBlock := by
    funext k
    simp only [getBlock, hb, hd]
  simp only [collectForkChain, storedKeys, hget, hb, hd]

theorem reorganize_committed {forkPoint : Nat} {orphaned : List (Transaction G)}
    (h : st.reorganize S cfg ctx b forkPoint = some (st', .acceptedReorg orphaned)) :
    ∃ rewound : Blockchain G,
      ValidInTurn S cfg rewound rewound.utxos (st.collectForkChain S b forkPoint ++ [b]) := by
  simp only [reorganize, bind_eq_bind, bind_eq_some_iff, Prod.exists] at h
  obtain ⟨rewound, disc, hd, connected, forkError, hcon, h⟩ := h
  refine ⟨rewound, ?_⟩
  obtain ⟨hb, hdb⟩ := disconnectAbove_blocks_db hd
  rw [collectForkChain_congr hb hdb] at hcon
  obtain ⟨done, left, hfork, hleft, hturn, rfl⟩ := connectFork_eq_some hcon
  split at h
  · simp only [bind_eq_some_iff, Option.some.injEq, Prod.mk.injEq, reduceCtorEq, and_false,
      exists_false] at h
  · rename_i hnone
    obtain ⟨rfl, htip⟩ := or_eq_none_iff.mp hnone
    obtain rfl := hleft rfl
    rw [List.append_nil] at hfork
    have htip' := tipBlockError_eq_none htip
    rw [remapped_utxos, remapped_network, remapped_blocks] at htip'
    rw [hfork]
    exact hturn.append_singleton htip'

theorem ValidInTurn.powChecked (hbuild : allowCheckpointCryptoSkip cfg = false) {l : List (Block G)}
    (h : ValidInTurn S cfg st U l) :
    ∀ x ∈ l, 0 < x.height → ∃ (ctx : CallContext G) (V : UtxoSet), PowChecked S cfg ctx x
      (validateBlockWithCheckpointForNetwork S cfg ctx x (st.blocks.lookup x.header.prevHash) V
        none st.network) := by
  induction h with
  | nil => simp
  | @cons U b rest ctx hv _ ih =>
    intro x hx h0
    rcases List.mem_cons.mp hx with rfl | hx
    · exact ⟨ctx, U, (powChecked_iff S hbuild h0 hv).mpr fun _ h => by cases h⟩
    · exact ih x hx h0

end Blockchain

/-- **Where the proof of work of a connected block is checked.** -/
theorem powChecked_iff_noSkipRequested {cfg : NodeConfig}
    (hbuild : allowCheckpointCryptoSkip cfg = false) :
    (∀ (ctx : CallContext G) (b : Block G) (prev : Option (Block G)) (U : UtxoSet)
        (cp : Option Nat) (network : NetworkType), 0 < b.height →
      (validateBlockWithCheckpointForNetwork S cfg ctx b prev U cp network).valid = true →
      (PowChecked S cfg ctx b
          (validateBlockWithCheckpointForNetwork S cfg ctx b prev U cp network) ↔
        NoSkipRequested b.height cp)) ∧
    (∀ (st st' : Blockchain G) (ctx : Nat → CallContext G) (b : Block G), 0 < b.height →
      st.addBlock S cfg ctx b = some (st', .ok .accepted) →
      (PowChecked S cfg (ctx 0) b (st.arrivalValidation S cfg (ctx 0) b) ↔
        NoSkipRequested b.height st.persistedCheckpoint)) ∧
    (∀ (st st' : Blockchain G) (ctx : Nat → CallContext G) (b : Block G)
        (orphaned : List (Transaction G)),
      st.addBlock S cfg ctx b = some (st', .ok (.acceptedReorg orphaned)) →
      ∃ forkPoint, (st.storeBlock S b).findForkPoint S b = some forkPoint ∧
        ∀ x ∈ (st.storeBlock S b).collectForkChain S b forkPoint ++ [b], 0 < x.height →
          ∃ (ctx' : CallContext G) (prev : Option (Block G)) (V : UtxoSet) (network : NetworkType),
            PowChecked S cfg ctx' x
              (validateBlockWithCheckpointForNetwork S cfg ctx' x prev V none network)) := by
  refine ⟨fun ctx b prev U cp network h0 hv => powChecked_iff S hbuild h0 hv, ?_, ?_⟩
  · intro st st' ctx b h0 h
    cases Blockchain.addBlock_step h with
    | refused _ hq => exact hq.elim
    | extended hadm => exact powChecked_iff S hbuild h0 hadm.valid
    | kept _ _ _ hq => exact hq.elim
    | reorganized _ _ _ _ _ _ hre =>
      rcases Blockchain.reorganize_status hre with ⟨e, he⟩ | ⟨o, ho⟩
      · cases he
      · cases ho
  · intro st st' ctx b orphaned h
    cases Blockchain.addBlock_step h with
    | refused _ hq => exact hq.elim
    | kept _ _ _ hq => exact hq.elim
    | reorganized forkPoint _ _ _ hfork _ hre =>
      refine ⟨forkPoint, hfork, fun x hx h0 => ?_⟩
      obtain ⟨rewound, hturn⟩ := Blockchain.reorganize_committed hre
      obtain ⟨ctx', V, hpow⟩ := hturn.powChecked hbuild x hx h0
      exact ⟨ctx', _, V, _, hpow⟩

/-! ## 3. On the small chain -/

namespace SmallChain

/-- The first block, with the checkpoint of a fresh database. -/
theorem block1_powChecked :
    (validateBlockWithCheckpointForNetwork suite cfg ctx block1 (some genesis) genesisUtxos none
      .regtest).valid = true ∧
    PowChecked suite cfg ctx block1
      (validateBlockWithCheckpointForNetwork suite cfg ctx block1 (some genesis) genesisUtxos none
        .regtest) := by
  refine ⟨block1_valid, ?_⟩
  exact ((powChecked_iff_noSkipRequested suite rfl).1 ctx block1 _ _ none _ (by decide +kernel)
    block1_valid).mpr fun _ h => by cases h

def unanchored : Block SmallSuite.Z :=
  { block1 with header := { block1.header with anchor := Hash.zero } }

/-- The node with a persisted `last_checkpoint` of 144. -/
def checkpointed : Blockchain SmallSuite.Z :=
  booted.modifyDb fun d =>
    { d with state := d.state.map fun s => { s with lastCheckpoint := 144 } }

/-- **A block without proof of work is valid and connected** by a build without fast-sync: the
validator below checkpoint 144 accepts it, its proof of work fails, and `add_block` makes it the
tip. -/
theorem unchecked_block_connected : allowCheckpointCryptoSkip cfg = false ∧
    (validateBlockWithCheckpointForNetwork suite cfg ctx unanchored (some genesis) genesisUtxos
      (some 144) .regtest).valid = true ∧
    verifyHeaderPow suite cfg ctx.randomxUp unanchored.header.prevHash unanchored.header ≠ .ok () ∧
    (checkpointed.addBlock suite cfg (fun _ => ctx) unanchored).map
        (fun r => (r.2, r.1.tip.height, r.1.tip.hash)) =
      some (.ok .accepted, 1, unanchored.hash suite) := by
  decide +kernel

end SmallChain

end Coincync
