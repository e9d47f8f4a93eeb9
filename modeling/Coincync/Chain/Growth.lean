/-
# A chain that only grows

Consensus without the node: blocks are validated against the head of a chain and its UTXO set, and
connected.  `grow` is one such step, with all that an extension does to the set -- connect, evict
from the address index in memory, persist to the one on disk -- and an extension by `add_block` is
such a step (`grow_of_extended`).
-/
import Coincync.Chain.Indexed

namespace Coincync

open Lib List Option

variable {F G : Type} [Field F] [AddCommGroup G] [Module F G] (S : Suite F G)

/-! ## 1. The machine -/

/-- A chain, newest block first, with the UTXO set it leaves. -/
structure Grown (G : Type) where
  chain : List (Block G)
  utxos : UtxoSet

/-- A block as it reaches validation, with the surroundings of the call. -/
structure Arrival (G : Type) where
  ctx : CallContext G
  checkpoint : Option Nat
  block : Block G

/-- What an extension does to the set. -/
def UtxoSet.extend (U : UtxoSet) (b : Block G) : UtxoSet :=
  let U := (U.connect S b.height b.transactions).evictOldOutputs b.height 1000
  { U with db := U.db.map (Blockchain.insertOutputs (blockAdds S b.height b.transactions)) }

/-- The genesis block on an empty database. -/
def Grown.genesis (network : NetworkType) : Grown G :=
  ⟨[createGenesisBlockFor S network],
    UtxoSet.extend S { UtxoSet.new with db := some ∅ } (createGenesisBlockFor S network)⟩

variable {chain : List (Block G)} {b : Block G}

section

variable [DecidableEq F] [DecidableEq G]

/-- **One more block**, if validation accepts it on top of the chain. -/
def grow (cfg : NodeConfig) (network : NetworkType) (s : Grown G) (a : Arrival G) :
    Option (Grown G) :=
  if (validateBlockWithCheckpointForNetwork S cfg a.ctx a.block s.chain.head? s.utxos a.checkpoint
      network).valid = true then
    some ⟨a.block :: s.chain, s.utxos.extend S a.block⟩
  else none

variable {S} {cfg : NodeConfig} {network : NetworkType}

theorem grow_eq_some {s s' : Grown G} {a : Arrival G} (h : grow S cfg network s a = some s') :
    BlockChecks S cfg a.ctx a.block s.chain.head? s.utxos a.checkpoint network ∧
      s' = ⟨a.block :: s.chain, s.utxos.extend S a.block⟩ := by
  unfold grow at h
  split_ifs at h with hvalid
  exact ⟨(validateBlock_valid_iff S).mp hvalid, (Option.some.inj h).symm⟩

/-- **An extension by `add_block` is such a step.** -/
theorem Blockchain.grow_of_extended {st st' : Blockchain G} {d : Database G} {ctx : CallContext G}
    (hc : Canonical S st d chain) (hadm : Admitted S cfg ctx st b)
    (hprev : b.header.prevHash = st.tip.hash)
    (hext : (st.storeBlock S b).extendTip S cfg b = some st') :
    grow S cfg st.network ⟨chain, st.utxos⟩ ⟨ctx, st.persistedCheckpoint, b⟩ =
      some ⟨b :: chain, st'.utxos⟩ := by
  have hvalid := hadm.valid
  obtain ⟨t, rest, rfl, hhash, -⟩ := hc.tip
  have hhead : st.getBlock b.header.prevHash = some t := by
    rw [hprev, hhash, hc.getBlock_eq]
    exact hc.stored t (.head _)
  rw [hhead] at hvalid
  rw [(extends_of_eq_some hext).utxos]
  exact if_pos hvalid

end

theorem Blockchain.utxos_of_boot {S : Suite F G} {network : NetworkType} {st : Blockchain G}
    (h : boot S network = .ok st) : st.utxos = (Grown.genesis S network).utxos := by
  obtain ⟨-, rfl⟩ := boot_eq_ok h
  rw [Grown.genesis, UtxoSet.extend, createGenesisBlockFor_height_eq]
  rfl

variable {S}

/-! ## 2. Where the entries come from -/

/-- **Every entry of the stores comes from an output of the chain.** -/
structure Sourced (U : UtxoSet) (adds : List OutputAdd) : Prop where
  outputs : Map.Drawn U.outputs adds OutputAdd.key OutputAdd.outputRef
  stealthIndex : Map.Drawn U.stealthIndex adds OutputAdd.stealth OutputAdd.key
  outputIndex : Map.Drawn U.outputIndex adds OutputAdd.stealth OutputAdd.indexEntry
  db : ∀ index, U.db = some index → Map.Drawn index adds OutputAdd.stealth OutputAdd.indexEntry

namespace Sourced

variable {U : UtxoSet} {adds : List OutputAdd}

theorem evict (h : Sourced U adds) (currentHeight keepDepth : Nat) :
    Sourced (U.evictOldOutputs currentHeight keepDepth) adds := by
  unfold UtxoSet.evictOldOutputs
  split_ifs
  · exact h
  · exact ⟨h.outputs, h.stealthIndex, h.outputIndex.retain _, h.db⟩

theorem extend (h : Sourced U adds) (b : Block G) :
    Sourced (U.extend S b) (blockAdds S b.height b.transactions ++ adds) := by
  have hconnect : Sourced (U.connect S b.height b.transactions)
      (blockAdds S b.height b.transactions ++ adds) := by
    rw [UtxoSet.connect_eq, UtxoSet.foldl_addOutputExt]
    exact ⟨h.outputs.insertAll, h.stealthIndex.orInsertAll, h.outputIndex.orInsertAll,
      fun index hindex => (h.db index hindex).mono (subset_append_right _ _)⟩
  have hevict := hconnect.evict b.height 1000
  refine ⟨hevict.outputs, hevict.stealthIndex, hevict.outputIndex, fun index hindex => ?_⟩
  obtain ⟨old, hold, rfl⟩ := map_eq_some_iff.mp hindex
  rw [UtxoSet.db_evictOldOutputs, UtxoSet.db_connect] at hold
  rw [Blockchain.insertOutputs_eq]
  exact (h.db old hold).orInsertAll

theorem getOutputIndexEntry (h : Sourced U adds) {k : StealthKey} {e : OutputIndexEntry}
    (he : U.getOutputIndexEntry k = some e) : ∃ a ∈ adds, a.stealth = k ∧ a.indexEntry = e := by
  unfold UtxoSet.getOutputIndexEntry at he
  split at he
  · rename_i e' hmem
    cases he
    exact h.outputIndex k _ hmem
  · obtain ⟨index, hindex, hget⟩ := bind_eq_some_iff.mp he
    exact h.db index hindex k e (filter_eq_some_iff.mp hget).1

end Sourced

/-! ## 3. Transactions with one hash -/

omit [AddCommGroup G] in
def chainTxs (chain : List (Block G)) : List (Transaction G) := chain.flatMap Block.transactions

/-- **No collision**: transactions of the chain with one hash have the same outputs. -/
def HashesTell (S : Suite F G) (chain : List (Block G)) : Prop :=
  ∀ tx ∈ chainTxs chain, ∀ tx' ∈ chainTxs chain, tx.hash S = tx'.hash S → tx.outputs = tx'.outputs

instance (S : Suite F G) (chain : List (Block G)) : Decidable (HashesTell S chain) :=
  inferInstanceAs (Decidable (∀ tx ∈ chainTxs chain, ∀ tx' ∈ chainTxs chain, _ → _))

theorem HashesTell.tail (h : HashesTell S (b :: chain)) :
    HashesTell S chain := fun tx htx tx' htx' =>
  h tx (mem_append_right _ htx) tx' (mem_append_right _ htx')

theorem mem_chainAdds {a : OutputAdd} (ha : a ∈ chainAdds S chain) :
    ∃ tx ∈ chainTxs chain, ∃ i, tx.outputs[i]? = some a.output ∧
      a.key = (tx.hash S, UInt8.ofNat i) := by
  obtain ⟨b, hb, ha⟩ := mem_flatMap.mp ha
  obtain ⟨tx, htx, ha⟩ := mem_flatMap.mp ha
  obtain ⟨⟨o, i⟩, ho, rfl⟩ := List.mem_map.mp ha
  exact ⟨tx, mem_flatMap.mpr ⟨b, hb, htx⟩, i, mk_mem_zipIdx_iff_getElem?.mp ho, rfl⟩

theorem HashesTell.output_eq (h : HashesTell S chain)
    (hshort : ∀ tx ∈ chainTxs chain, tx.outputs.length ≤ 256) {a a' : OutputAdd}
    (ha : a ∈ chainAdds S chain) (ha' : a' ∈ chainAdds S chain) (hkey : a.key = a'.key) :
    a.output = a'.output := by
  obtain ⟨tx, htx, i, hi, hk⟩ := mem_chainAdds ha
  obtain ⟨tx', htx', j, hj, hk'⟩ := mem_chainAdds ha'
  rw [hk, hk'] at hkey
  obtain ⟨hhash, hindex⟩ := Prod.mk.inj hkey
  have hlti := (List.getElem?_eq_some_iff.mp hi).1
  have hltj := (List.getElem?_eq_some_iff.mp hj).1
  have := hshort tx htx
  have := hshort tx' htx'
  have hij : i = j := by
    have := congrArg UInt8.toNat hindex
    simp only [UInt8.toNat_ofNat'] at this
    omega
  rw [h tx htx tx' htx' hhash, hij, hj] at hi
  exact (Option.some.inj hi).symm

variable {U : UtxoSet}

variable (h : Sourced U (chainAdds S chain)) (hhash : HashesTell S chain)
  (hshort : ∀ tx ∈ chainTxs chain, tx.outputs.length ≤ 256)

include h hhash hshort in
/-- **The live output found for an address is an output of the chain with that address.** -/
theorem Sourced.getOutputByStealth
    {k : StealthKey} {o : OutputRef} (ho : U.getOutputByStealth k = some o) :
    ∃ a ∈ chainAdds S chain, a.stealth = k ∧ a.outputRef = o := by
  obtain ⟨key, hkey, ho⟩ := bind_eq_some_iff.mp ho
  obtain ⟨a, ha, rfl, rfl⟩ := h.stealthIndex k key hkey
  obtain ⟨a', ha', hkey', rfl⟩ := h.outputs _ o ho
  refine ⟨a', ha', ?_, rfl⟩
  rw [OutputAdd.stealth, hhash.output_eq hshort ha' ha hkey']
  rfl

/-! ## 4. Ring members -/

/-- **A ring member that is an output of the chain**, mature and unlocked at `height`. -/
def MemberOnChain (S : Suite F G) (build : BuildConfig) (below : List (Block G)) (height : Nat)
    (member : RingMemberRef) : Prop :=
  ∃ a ∈ chainAdds S below, a.stealth = member.publicKey.bytes ∧
    a.output.commitment = member.commitment ∧
    (a.isCoinbase = true → minOutputAgeAtHeight build height ≤ height - a.height) ∧
    ∀ lockHeight, a.output.lockHeight = some lockHeight → lockHeight.toNat ≤ height

/-- One of the stores has an output for the address. -/
def UtxoSet.finds (U : UtxoSet) (stealth : StealthKey) : Bool :=
  (U.getOutputByStealth stealth).isSome || (U.getOutputIndexEntry stealth).isSome

variable {member : RingMemberRef × Nat} {build : BuildConfig}

theorem checkFoundMember_ok_iff {currentHeight : Nat} {spent : Bool}
    {commitment : FixedBytes 32} {height : Nat} {isCoinbase : Bool} {lockHeight : Option UInt64}
    {inputIdx : Nat} :
    checkFoundMember build currentHeight spent commitment height isCoinbase lockHeight inputIdx
        member = .ok () ↔
      member.1.commitment = commitment ∧
        (isCoinbase = true → minOutputAgeAtHeight build currentHeight ≤ currentHeight - height) ∧
        ∀ lh, lockHeight = some lh → lh.toNat ≤ currentHeight := by
  unfold checkFoundMember checkRingMemberCoinbaseMaturity checkRingMemberTimeLock
  rw [Except.bind_ok_iff, Except.bind_ok_iff, require_ok_iff, require_ok_iff]
  cases lockHeight with
  | none => simp
  | some lh => simp

include h hhash hshort in
/-- **A ring member that passes and is found is on the chain.** -/
theorem Sourced.memberOnChain {currentHeight inputIdx : Nat}
    (hfound : strictRingMemberHeight ≤ currentHeight ∨ U.finds member.1.publicKey.bytes = true)
    (hok : checkRingMember build U currentHeight inputIdx member = .ok ()) :
    MemberOnChain S build chain currentHeight member.1 := by
  unfold checkRingMember at hok
  split at hok
  · -- found in the live set
    rename_i o ho
    obtain ⟨a, ha, hstealth, rfl⟩ := h.getOutputByStealth hhash hshort ho
    obtain ⟨hcommit, hmature, hlock⟩ := checkFoundMember_ok_iff.mp hok
    exact ⟨a, ha, hstealth, hcommit.symm, hmature, hlock⟩
  · rename_i hlive
    split at hok
    · -- found in the output index
      rename_i e he
      obtain ⟨a, ha, hstealth, rfl⟩ := h.getOutputIndexEntry he
      obtain ⟨hcommit, hmature, hlock⟩ := checkFoundMember_ok_iff.mp hok
      exact ⟨a, ha, hstealth, hcommit.symm, hmature, hlock⟩
    · -- found nowhere
      rename_i hindex
      rw [require_ok_iff] at hok
      rcases hfound with hheight | hfinds
      · omega
      · simp [UtxoSet.finds, hlive, hindex] at hfinds

/-- Every ring member of a block is an output of the chain below it. -/
def RingsOnChain (S : Suite F G) (build : BuildConfig) (b : Block G) (below : List (Block G)) :
    Prop :=
  ∀ tx ∈ b.transactions, tx.isCoinbase = false → ∀ i ∈ tx.inputs, ∀ member ∈ i.ringMembers,
    MemberOnChain S build below b.height member

section

variable [DecidableEq F] [DecidableEq G] {cfg : NodeConfig} {network : NetworkType}

/-- **The condition on a block**: it is not validated in fast-sync, and below the height of the
strict rule every ring member is found in one of the stores. -/
def MembersFound (cfg : NodeConfig) (s : Grown G) (a : Arrival G) : Prop :=
  fastSync cfg a.block.height a.checkpoint = false ∧
    (strictRingMemberHeight ≤ a.block.height ∨
      ∀ tx ∈ a.block.transactions, tx.isCoinbase = false → ∀ i ∈ tx.inputs,
        ∀ member ∈ i.ringMembers, s.utxos.finds member.publicKey.bytes = true)

omit [Field F] [AddCommGroup G] [Module F G] [DecidableEq F] [DecidableEq G] in
instance (cfg : NodeConfig) (s : Grown G) (a : Arrival G) : Decidable (MembersFound cfg s a) :=
  inferInstanceAs (Decidable (_ ∧ (_ ∨ ∀ tx ∈ a.block.transactions, _ → ∀ i ∈ tx.inputs,
    ∀ member ∈ i.ringMembers, _)))

theorem BlockChecks.ringsOnChain {ctx : CallContext G} {prev : Option (Block G)}
    {cp : Option Nat} (h : BlockChecks S cfg ctx b prev U cp network)
    (hfs : fastSync cfg b.height cp = false) (hsourced : Sourced U (chainAdds S chain))
    (hhash : HashesTell S chain) (hshort : ∀ tx ∈ chainTxs chain, tx.outputs.length ≤ 256)
    (hfound : strictRingMemberHeight ≤ b.height ∨
      ∀ tx ∈ b.transactions, tx.isCoinbase = false → ∀ i ∈ tx.inputs,
        ∀ member ∈ i.ringMembers, U.finds member.publicKey.bytes = true) :
    RingsOnChain S cfg.build b chain := by
  intro tx htx hcb i hi member hmember
  have hring := (h.txChecks hfs htx hcb).ringMembers
  unfold checkTxRingMembers at hring
  rw [Except.bind_ok_iff, checkAll_ok_iff] at hring
  obtain ⟨n, hn⟩ := mem_iff_getElem?.mp hi
  obtain ⟨k, hk⟩ := mem_iff_getElem?.mp hmember
  have hmembers := hring.2 (i, n) (mk_mem_zipIdx_iff_getElem?.mpr hn)
  rw [checkAll_ok_iff] at hmembers
  have hone := hmembers (member, k) (mk_mem_zipIdx_iff_getElem?.mpr hk)
  exact hsourced.memberOnChain hhash hshort
    (hfound.imp_right fun hall => hall tx htx hcb i hi member hmember) hone

/-- What holds of a growing chain. -/
structure Growing (S : Suite F G) (s : Grown G) : Prop where
  sourced : Sourced s.utxos (chainAdds S s.chain)
  short : ∀ tx ∈ chainTxs s.chain, tx.outputs.length ≤ 256

omit [DecidableEq F] [DecidableEq G] in
theorem growing_genesis (S : Suite F G) (network : NetworkType) :
    Growing S (Grown.genesis S network) := by
  have hnew : Sourced { UtxoSet.new with db := some ∅ } (chainAdds S []) := by
    refine ⟨Map.drawn_empty _ _ _, Map.drawn_empty _ _ _, Map.drawn_empty _ _ _, ?_⟩
    rintro index hindex
    cases hindex
    exact Map.drawn_empty _ _ _
  refine ⟨hnew.extend _, fun tx htx => ?_⟩
  obtain ⟨message, hm⟩ := createGenesisBlockFor_transactions S network
  rw [Grown.genesis, chainTxs, flatMap_singleton, hm, mem_singleton] at htx
  rw [htx]
  exact Nat.succ_le_succ zero_le

/-- **One step of a growing chain.** -/
theorem Growing.step {s s' : Grown G} {a : Arrival G} (hg : Growing S s)
    (hfs : fastSync cfg a.block.height a.checkpoint = false)
    (h : grow S cfg network s a = some s') : Growing S s' := by
  obtain ⟨hb, rfl⟩ := grow_eq_some h
  refine ⟨hg.sourced.extend a.block, fun tx htx => ?_⟩
  rcases mem_append.mp htx with htx | htx
  · exact (hb.outputs_length_le hfs tx htx).trans (by decide)
  · exact hg.short tx htx

end

/-! ## 5. On the small chain -/

namespace SmallChain

open SmallSuite

/-- A block as it reaches the small node. -/
def arrives (b : Block Z) : Arrival Z := ⟨ctx, none, b⟩

def parts : List (UInt64 × Z) :=
  (4545452272730, 21) ::
    [22, 23, 24, 25, 26, 27, 28, 29, 30, 31].map fun address => (4545452272727, address)

/-- A first block that pays them. -/
def split1 : Block Z :=
  child genesis genesis.header.target
    [{ coinbaseTx 0 0 with outputs := parts.flatMap fun p => (coinbaseTx p.1 p.2).outputs }]

def stacked : List (Block Z) :=
  [32, 33, 34, 35, 36, 37, 38, 39, 40].foldl
    (fun chain address =>
      emptyChild (chain.headD genesis) genesis.header.target address :: chain) [split1, genesis]

/-- The ring of those outputs. -/
def maturedRing : List RingMemberRef :=
  parts.map fun p => ⟨⟨compress p.2⟩, compress (suite.commit p.1 0)⟩

/-- A transfer that spends two of them. -/
def maturedSpend : Transaction Z where
  version := 1
  txType := .transfer
  inputs :=
    [⟨⟨compress 84⟩, maturedRing, ⟨84, 38, encode 41,
        [1, 49, 3, 4, 5, 6, 7, 8, 9, 10, 11].map encode⟩, compress 25⟩,
      ⟨⟨compress 31⟩, maturedRing, ⟨31, 59, encode 98,
        [1, 2, 84, 4, 5, 6, 7, 8, 9, 10, 11].map encode⟩, compress 25⟩]
  outputs := [spendOutput 61 17, spendOutput 62 57]
  fee := ⟨12000000⟩
  rangeProof := [3] ++ lenBytes 32 ++
    (digest 32 3 ((compress 17).toList ++ (compress 57).toList)).toList
  extra := []

/-- The block at height 11 with that transfer. -/
def maturedBlock : Block Z :=
  child (stacked.headD genesis) genesis.header.target
    [coinbaseTx (UInt64.ofNat ((calculateBlockReward 11).val + 12000000)) 41, maturedSpend]

def maturing : List (Arrival Z) :=
  stacked.reverse.tail.map arrives ++
    [⟨{ ctx with ringSigHit := fun _ _ => true }, none, maturedBlock⟩]

end SmallChain

end Coincync
