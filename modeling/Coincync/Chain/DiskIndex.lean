/-
# The output index on disk

`remove_output` deletes an entry in memory AND on disk; `apply_batch` puts entries back in memory
only.  The disk is written again when a block extends the tip and when a reorganisation commits --
so a reorganisation that is given up has deleted, for good, the entries of the main-chain blocks
it disconnected (`SmallChain.failed_reorg_erases`).
-/
import Coincync.Chain.Restore

namespace Coincync

open Lib List Option Map

variable {index : OutputIndexDb}
  {F G : Type} [Field F] [AddCommGroup G] [Module F G] {S : Suite F G}

namespace Blockchain

/-! ## 1. What the disk lists -/

section

omit [AddCommGroup G]

/-- The entry of an address that can be read from disk. -/
def readable (st : Blockchain G) (stealth : StealthKey) : Option OutputIndexEntry :=
  st.utxos.db.bind fun index => OutputIndexDb.get index stealth

end

/-- The main-chain blocks above the point where the lineage of a block leaves the main chain. -/
def aboveFork (S : Suite F G) (st : Blockchain G) (b : Block G) : List (Block G) :=
  match (st.storeBlock S b).findForkPoint S b with
  | some forkPoint => (st.canonicalChain S).filter fun x => forkPoint < x.height
  | none => []

/-- **Every address on disk belongs to an output of the chain.** -/
def DiskIndexed (S : Suite F G) (st : Blockchain G) (chain : List (Block G)) : Prop :=
  ∀ index, st.utxos.db = some index → Map.Within index (chainAdds S chain) OutputAdd.stealth

theorem map_stealth_txAdds (height : Nat) (tx : Transaction G) :
    (txAdds S height tx).map OutputAdd.stealth =
      tx.outputs.map fun o => o.stealthAddress.bytes := by
  rw [txAdds, List.map_map]
  change List.map ((fun o : TxOutput => o.stealthAddress.bytes) ∘ Prod.fst) _ = _
  rw [← List.map_map, zipIdx_map_fst]

theorem map_stealth_chainAdds (l : List (Block G)) :
    (chainAdds S l).map OutputAdd.stealth =
      (l.map Block.transactions).flatten.flatMap fun tx =>
        tx.outputs.map fun o => o.stealthAddress.bytes := by
  induction l with
  | nil => rfl
  | cons b l ih =>
    rw [chainAdds_cons, map_append, ih, map_cons, flatten_cons, flatMap_append,
      blockAdds, map_flatMap]
    simp only [map_stealth_txAdds]

/-- **The disk lists outputs of the chain, as the chain has them**, and among them the outputs of
the genesis block: so it is never empty. -/
structure DiskDrawn (S : Suite F G) (st : Blockchain G) (chain : List (Block G)) : Prop where
  drawn : ∀ index, st.utxos.db = some index →
    Map.Drawn index (chainAdds S chain) OutputAdd.stealth OutputAdd.indexEntry
  genesis : ∀ index, st.utxos.db = some index →
    ∀ a ∈ chainAdds S [createGenesisBlockFor S st.network], index.lookup a.stealth ≠ none

variable {cfg : NodeConfig} {st st' : Blockchain G} {d : Database G}
  {chain chain' above below fork : List (Block G)} {q b : Block G}

theorem DiskDrawn.of_map {g : OutputIndexDb → OutputIndexDb} (h : DiskDrawn S st chain)
    (hnet : st'.network = st.network) (hdb : st'.utxos.db = st.utxos.db.map g)
    (hdrawn : ∀ index,
      Map.Drawn index (chainAdds S chain) OutputAdd.stealth OutputAdd.indexEntry →
      Map.Drawn (g index) (chainAdds S chain') OutputAdd.stealth OutputAdd.indexEntry)
    (hgenesis : ∀ index, ∀ a ∈ chainAdds S [createGenesisBlockFor S st.network],
      Finmap.lookup a.stealth index ≠ none → Finmap.lookup a.stealth (g index) ≠ none) :
    DiskDrawn S st' chain' := by
  constructor
  · intro index hindex
    rw [hdb] at hindex
    obtain ⟨old, hold, rfl⟩ := map_eq_some_iff.mp hindex
    exact hdrawn old (h.drawn old hold)
  · intro index hindex a ha
    rw [hdb] at hindex
    obtain ⟨old, hold, rfl⟩ := map_eq_some_iff.mp hindex
    rw [hnet] at ha
    exact hgenesis old a ha (h.genesis old hold a ha)

theorem lookup_insertOutputs_ne_none {adds : List OutputAdd} {k : StealthKey}
    (h : Finmap.lookup k index ≠ none) : Finmap.lookup k (insertOutputs adds index) ≠ none := by
  obtain ⟨v, hv⟩ := ne_none_iff_exists'.mp h
  rw [insertOutputs_eq, lookup_orInsertAll, hv, some_or]
  exact some_ne_none v

theorem address_notMem_above {root : Block G} (hroot : root ∈ below)
    (hreuse : NoReuse S (above ++ below)) :
    ∀ a ∈ chainAdds S [root], a.stealth ∉ (chainAdds S above).map OutputAdd.stealth := by
  intro a ha hmem
  have hbelow : a ∈ chainAdds S below := by
    rw [chainAdds, flatMap_singleton] at ha
    exact mem_flatMap.mpr ⟨root, hroot, ha⟩
  have hnodup := hreuse.addresses
  rw [chainAdds_append, map_append] at hnodup
  exact (nodup_append.mp hnodup).2.2 _ hmem _ (List.mem_map_of_mem hbelow) rfl

variable {keys : List StealthKey}

theorem lookup_eraseAll_ne_none {k : StealthKey} (hk : k ∉ keys)
    (h : Finmap.lookup k index ≠ none) : Finmap.lookup k (Map.eraseAll keys index) ≠ none := by
  rw [lookup_eraseAll, if_neg hk]
  exact h

section

variable (h : DiskDrawn S st chain)

include h

theorem DiskDrawn.extended (hext : Extends S cfg st b st') : DiskDrawn S st' (b :: chain) := by
  refine h.of_map (g := insertOutputs (blockAdds S b.height b.transactions)) hext.network ?_
    (fun index hindex => by rw [insertOutputs_eq]; exact hindex.orInsertAll)
    fun index a _ ha => lookup_insertOutputs_ne_none ha
  rw [hext.utxos, UtxoSet.db_evictOldOutputs, UtxoSet.db_connect]

theorem DiskDrawn.rolledBack (hx : Indexed S st chain)
    (hc : Canonical S st d chain) (hchain : chain = above ++ q :: below)
    (hfloor : st.finalityFloor ≤ q.height) (hroll : RollsBack S cfg st d above q st') :
    DiskDrawn S st' (q :: below) := by
  obtain ⟨cut, hcut, hU⟩ := hx
  have hdb := (hchain ▸ hU).db_disconnectAll (hc.cut_le hchain hfloor hcut)
  rw [← hroll.utxos] at hdb
  refine h.of_map hroll.network hdb (fun index hindex => ?_) fun index a ha hne => ?_
  · rw [hchain, chainAdds_append] at hindex
    exact hindex.eraseAll
  · exact lookup_eraseAll_ne_none
      (address_notMem_above ((hchain ▸ hc.lineage).suffix above).root_mem (hchain ▸ hU.noReuse) a ha)
      hne

variable {s : ChainStateData}

theorem DiskDrawn.db_restarted
    (hre : Restarts S st d chain s st') : st'.utxos.db = st.utxos.db := by
  rw [hre.utxos, replayedUtxos, UtxoSet.db_evictOldOutputs, UtxoSet.db_connectAll]
  cases hdb : st.utxos.db with
  | none => rfl
  | some index =>
    have hne : index.keys ≠ ∅ := by
      obtain ⟨message, hm⟩ := createGenesisBlockFor_transactions S st.network
      intro hempty
      have hnone : ∀ k, Finmap.lookup k index = none := by
        intro k
        rw [Finmap.lookup_eq_none, ← Finmap.mem_keys, hempty]
        exact Finset.notMem_empty k
      obtain ⟨a, ha⟩ : ∃ a, a ∈ chainAdds S [createGenesisBlockFor S st.network] := by
        rw [chainAdds, flatMap_singleton, hm]
        exact ⟨_, mem_singleton_self _⟩
      exact h.genesis index hdb a ha (hnone a.stealth)
    simp only [map_some, hne, false_and, if_false]

theorem DiskDrawn.restarted (hre : Restarts S st d chain s st') : DiskDrawn S st' chain := by
  have hdb := h.db_restarted hre
  constructor
  · intro index hindex
    exact h.drawn index (hdb ▸ hindex)
  · intro index hindex
    rw [hre.network]
    exact h.genesis index (hdb ▸ hindex)

end

theorem diskDrawn_of_boot {network : NetworkType} (h : boot S network = .ok st) :
    DiskDrawn S st [createGenesisBlockFor S network] := by
  obtain ⟨cut, -, hU⟩ := indexed_of_boot h
  have hnodup := hU.noReuse.addresses
  obtain ⟨-, rfl⟩ := boot_eq_ok h
  have hadds : chainAdds S [createGenesisBlockFor S network] =
      blockAdds S 0 (createGenesisBlockFor S network).transactions ++ [] := by
    rw [chainAdds_cons, createGenesisBlockFor_height_eq]
    rfl
  -- the empty disk, filled with the outputs of the genesis block
  have hlists : ∀ index, ((withDatabase network (some Database.empty) (some ∅)).applyGenesis S).utxos.db
      = some index → Map.Lists index (chainAdds S [createGenesisBlockFor S network])
        OutputAdd.stealth OutputAdd.indexEntry := by
    intro index hindex
    obtain rfl : insertOutputs
        (blockAdds S 0 (createGenesisBlockFor S network).transactions) ∅ = index := by
      refine Option.some.inj (Eq.trans ?_ hindex)
      change some _ = (UtxoSet.connect S _ 0 _).db.map _
      rw [UtxoSet.db_connect]
      rfl
    rw [hadds] at hnodup ⊢
    rw [insertOutputs_eq]
    exact (lists_empty _ _).orInsertAll hnodup
  constructor
  · exact fun index hindex => (hlists index hindex).drawn
  · intro index hindex a ha
    rw [(hlists index hindex).lookup ha]
    exact some_ne_none _

section

variable [DecidableEq F] [DecidableEq G] {e : ReorgError}

theorem DiskDrawn.committed {orphaned : List (Transaction G)} (h : DiskDrawn S st chain)
    (hx : Indexed S st chain) (hc : Canonical S st d chain)
    (hbr : Branches S st chain b above q below fork)
    (hre : ReorgStep S cfg st b above fork q.height st' (.acceptedReorg orphaned)) :
    DiskDrawn S st' (b :: (fork.reverse ++ q :: below)) := by
  obtain ⟨cut, hcut, hU⟩ := hx
  cases hre with
  | committed _ _ _ hconnected hcommit =>
    have hcom := commits_of_eq_some hcommit
    have hnet : st'.network = st.network := by
      rw [hcom.network, hconnected]
      rfl
    have hrewound := (hbr.chain_eq ▸ hU).db_disconnectAll
      (hc.cut_le hbr.chain_eq hbr.floor hcut)
    have hdb := congrArg UtxoSet.db hcom.utxos
    rw [hconnected, remapped_utxos] at hdb
    dsimp only at hdb
    rw [UtxoSet.db_connect, UtxoSet.db_connectAll, hrewound, Option.map_map] at hdb
    rw [← map_stealth_chainAdds (S := S)] at hdb
    refine h.of_map hnet hdb (fun index hindex => ?_) fun index a ha hne => ?_
    · rw [hbr.chain_eq, chainAdds_append] at hindex
      have hsub : chainAdds S (q :: below) ⊆ chainAdds S (b :: (fork.reverse ++ q :: below)) := by
        rw [← cons_append, chainAdds_append]
        exact subset_append_right _ _
      refine ((hindex.eraseAll.mono hsub).erased _).insertPairs fun e he => ?_
      obtain ⟨fb, hfb, he⟩ := mem_flatMap.mp (mem_of_mem_filter he)
      obtain ⟨a, ha, rfl⟩ := List.mem_map.mp he
      exact ⟨a, mem_flatMap.mpr ⟨fb, mem_newChain_iff.mpr (.inl hfb), ha⟩, rfl, rfl⟩
    · have hroot := ((hbr.chain_eq ▸ hc.lineage).suffix above).root_mem
      have hkey := address_notMem_above hroot (hbr.chain_eq ▸ hU.noReuse) a ha
      have hkept := lookup_eraseAll_ne_none hkey hne
      -- an address that is listed is not among those added
      change Finmap.lookup a.stealth (Map.insertAll _ _) ≠ none
      rw [lookup_insertAll_of_notMem]
      · exact lookup_eraseAll_ne_none hkey hkept
      · intro hmem
        obtain ⟨e, he, heq⟩ := List.mem_map.mp hmem
        have hnone := (mem_filter.mp he).2
        rw [heq, isNone_iff_eq_none] at hnone
        exact hkept hnone

/-- **One step of an orderly run lists no more than the chain on disk.** -/
theorem DiskDrawn.step {a : Action G} (h : DiskDrawn S st chain) (ho : Orderly S st d chain)
    (ha : OrderlyStep S cfg st a) (hstep : ActionStep S cfg st d chain a st' chain') :
    DiskDrawn S st' chain' := by
  obtain ⟨hc, hs, hx⟩ := ho
  cases hstep with
  | idle => exact h
  | rolledBack _ hchain hfloor hroll => exact h.rolledBack hx hc hchain hfloor hroll
  | restarted s hre => exact h.restarted hre
  | @add ctx b _ _ _ hstep =>
    have hstored : DiskDrawn S (st.storeBlock S b) chain := ⟨h.drawn, h.genesis⟩
    have hx' : Indexed S (st.storeBlock S b) chain := hx
    cases hstep with
    | refused => exact h
    | kept => exact hstored
    | extended hadm hlin hext => exact hstored.extended (extends_of_eq_some hext)
    | @failed _ above below fork q e hadm htake hlin hbr hre =>
      have hreuse := (ha hadm).2.1
      rw [hlin] at hreuse
      obtain ⟨cut, -, done, hU, -, hpart, hdb⟩ :=
        hx'.failed (hc.store hadm) (hc.branches_store hadm hbr) hreuse hre
      have hnet : st'.network = (st.storeBlock S b).network := by
        cases hre
        rfl
      have hroot := ((hbr.chain_eq ▸ hc.lineage).suffix above).root_mem
      refine hstored.of_map hnet hdb (fun index hindex => hindex.erased _) fun index x hx hne => ?_
      refine lookup_eraseAll_ne_none ?_ hne
      rw [chainAdds_append, map_append, mem_append, not_or]
      exact ⟨address_notMem_above hroot (hbr.chain_eq ▸ hU.noReuse) x hx,
        address_notMem_above hroot hpart x hx⟩
    | committed orphaned hadm hlin hbr hre =>
      exact hstored.committed hx' (hc.store hadm) (hc.branches_store hadm hbr) hre

/-! ## 2. An attempt that fails -/

omit [DecidableEq F] [DecidableEq G] in
theorem Canonical.aboveFork_eq (hc : Canonical S st d chain) (hchain : chain = above ++ q :: below)
    (hpoint : (st.storeBlock S b).findForkPoint S b = some q.height) :
    st.aboveFork S b = above := by
  have hl := hchain ▸ hc.lineage
  rw [aboveFork, hpoint, hc.canonicalChain_eq, hchain]
  dsimp only
  rw [filter_append, filter_eq_self.mpr, filter_eq_nil_iff.mpr, append_nil]
  · intro x hx
    have hle : x.height ≤ q.height := (hl.suffix above).height_le hx
    simpa using hle
  · intro x hx
    exact decide_eq_true (hl.height_above above x hx)

omit [AddCommGroup G] [DecidableEq G] in
theorem readable_of_eraseAll
    (hdb : st'.utxos.db = st.utxos.db.map (Map.eraseAll keys)) (k : StealthKey) :
    st'.readable k = if k ∈ keys then none else st.readable k := by
  unfold readable
  rw [hdb]
  cases st.utxos.db with
  | none => simp
  | some index =>
    simp only [map_some, bind_some, OutputIndexDb.get]
    rw [lookup_eraseAll]
    split_ifs with hk
    · rfl
    · rfl

/-- **The damage of a failed attempt**: it leaves what can be read from disk unchanged iff no
output above the fork point could be read. -/
theorem Orderly.readable_iff {ctx : Nat → CallContext G} (ho : Orderly S st d chain)
    (hdisk : DiskIndexed S st chain)
    (ha : Admitted S cfg (ctx 0) st b → NoReuse S (st.lineageOf S b))
    (h : st.addBlock S cfg ctx b = some (st', .ok (.invalid (.reorg e)))) :
    (∀ k, st'.readable k = st.readable k) ↔
      ∀ a ∈ chainAdds S (st.aboveFork S b), st.readable a.stealth = none := by
  obtain ⟨hc, hs, hx⟩ := ho
  obtain ⟨chain', hstep⟩ := hc.chainStep hs h
  cases hstep with
  | refused _ hq => exact hq.elim
  | kept _ _ hq => exact hq.elim
  | @failed _ above below fork q e hadm htake hlin hbr hre hpoint =>
    have hreuse := ha hadm
    rw [hlin] at hreuse
    have hx' : Indexed S (st.storeBlock S b) chain := hx
    obtain ⟨-, -, done, -, -, hpart, hdb⟩ :=
      hx'.failed (hc.store hadm) (hc.branches_store hadm hbr) hreuse hre
    have hread : ∀ k, st'.readable k =
        if k ∈ (chainAdds S (above ++ done.reverse)).map OutputAdd.stealth then none
        else st.readable k := readable_of_eraseAll hdb
    rw [hc.aboveFork_eq hbr.chain_eq hpoint]
    constructor
    · intro hsame a hamem
      rw [← hsame, hread, if_pos]
      rw [chainAdds_append]
      exact List.mem_map_of_mem (mem_append_left _ hamem)
    · intro hnone k
      rw [hread]
      split_ifs with hk
      · -- an erased address that is on disk belongs to the old branch: the side chain shares none
        -- with the part of the chain below the fork point
        symm
        by_contra hsome
        obtain ⟨entry, hentry⟩ := ne_none_iff_exists'.mp hsome
        obtain ⟨index, hindex, hget⟩ := bind_eq_some_iff.mp hentry
        have hlisted := hdisk index hindex k entry (filter_eq_some_iff.mp hget).1
        rw [hbr.chain_eq, chainAdds_append, map_append] at hlisted
        rw [chainAdds_append, map_append] at hk
        have hold : k ∈ (chainAdds S above).map OutputAdd.stealth → False := by
          intro hmem
          obtain ⟨a, hamem, rfl⟩ := List.mem_map.mp hmem
          exact hsome (hnone a hamem)
        have hnew := (mem_append.mp hk).resolve_left hold
        have hlow := (mem_append.mp hlisted).resolve_left hold
        have hnodup := hpart.addresses
        rw [chainAdds_append, map_append] at hnodup
        exact (nodup_append.mp hnodup).2.2 k hnew k hlow rfl
      · rfl

/-- **What an attempt that does not commit does to the disk**, in every state that an orderly run
reaches and for every block whose lineage uses nothing twice. -/
theorem diskIndex_unchanged_iff {network : NetworkType} {st₀ : Blockchain G}
    {ctx : Nat → CallContext G} {res : Except ChainError (BlockStatus G)}
    (h₀ : boot S network = .ok st₀) (h : Reaches (Blockchain.step S cfg) (OrderlyStep S cfg) st₀ st)
    (ha : Admitted S cfg (ctx 0) st b → NoReuse S (st.lineageOf S b))
    (hadd : st.addBlock S cfg ctx b = some (st', res)) :
    (Quiet res → st'.utxos.db = st.utxos.db) ∧
      ∀ e, res = .ok (.invalid (.reorg e)) →
        ((∀ k, st'.readable k = st.readable k) ↔
          ∀ a ∈ chainAdds S (st.aboveFork S b), st.readable a.stealth = none) := by
  obtain ⟨d, chain, ho, hdisk⟩ : ∃ d chain, Orderly S st d chain ∧ DiskDrawn S st chain := by
    refine Reaches.invariant
      (I := fun st => ∃ d chain, Orderly S st d chain ∧ DiskDrawn S st chain) ?_ ?_ h
    · obtain ⟨d, ho⟩ := orderly_of_boot h₀
      exact ⟨d, _, ho, diskDrawn_of_boot h₀⟩
    · rintro s a s' ⟨d, chain, ho, hdisk⟩ ha hs
      obtain ⟨d', chain', hstep, ho'⟩ := ho.step ha hs
      exact ⟨d', chain', ho', hdisk.step ho ha hstep⟩
  constructor
  · intro hq
    obtain ⟨chain', hstep⟩ := ho.canonical.chainStep ho.noStale hadd
    cases hstep with
    | refused => rfl
    | kept => rfl
    | extended => exact hq.elim
    | failed => exact hq.elim
    | committed => exact hq.elim
  · rintro e rfl
    exact ho.readable_iff (fun index hindex => (hdisk.drawn index hindex).within) ha hadd

end

/-! ## 3. The batch of a commit and its sequence -/

/-- The removals and then the additions one after the other, an existing entry winning. -/
def sequentialOutputIndex (removals : List StealthKey)
    (additions : List (StealthKey × OutputIndexEntry)) (db : OutputIndexDb) : OutputIndexDb :=
  additions.foldl (fun db e => db.insert e.1 e.2) (Map.eraseAll removals db)

/-- The entry of the first addition of an address. -/
def firstAddition (additions : List (StealthKey × OutputIndexEntry)) (k : StealthKey) :
    Option OutputIndexEntry :=
  (additions.find? fun e => decide (e.1 = k)).map Prod.snd

section

variable {removals : List StealthKey} {additions : List (StealthKey × OutputIndexEntry)}
  {db : OutputIndexDb} {k : StealthKey}

theorem firstAddition_eq_none_iff :
    firstAddition additions k = none ↔ k ∉ additions.map Prod.fst := by
  simp only [firstAddition, map_eq_none_iff, find?_eq_none, decide_eq_true_eq,
    List.mem_map, not_exists, not_and]

theorem lookup_sequentialOutputIndex :
    (sequentialOutputIndex removals additions db).lookup k =
      (if k ∈ removals then none else db.lookup k).or (firstAddition additions k) := by
  change (Map.orInsertAll additions (Map.eraseAll removals db)).lookup k = _
  rw [lookup_orInsertAll, lookup_eraseAll, firstAddition]

theorem lookup_reorgOutputIndex :
    (reorgOutputIndex removals additions db).lookup k =
      (if (db.lookup k).isNone = true then Map.latest additions k else none).or
        (if k ∈ removals then none else db.lookup k) := by
  unfold reorgOutputIndex
  rw [lookup_insertAll, lookup_eraseAll, latest_filter fun k => (db.lookup k).isNone]

theorem lookup_reorg_eq_iff :
    (reorgOutputIndex removals additions db).lookup k =
        (sequentialOutputIndex removals additions db).lookup k ↔
      (k ∈ additions.map Prod.fst →
        if (db.lookup k).isSome = true then k ∉ removals
        else Map.latest additions k = firstAddition additions k) := by
  rw [lookup_reorgOutputIndex, lookup_sequentialOutputIndex]
  by_cases hmem : k ∈ additions.map Prod.fst
  · have hfirst : firstAddition additions k ≠ none := fun h => firstAddition_eq_none_iff.mp h hmem
    cases hold : db.lookup k with
    | none => simp [hmem]
    | some e =>
      by_cases hrem : k ∈ removals
      · simp [hmem, hrem, hfirst.symm]
      · simp [hmem, hrem]
  · simp [hmem, latest_eq_none_iff.mpr hmem, firstAddition_eq_none_iff.mpr hmem]

end

/-- **The batch is the sequence exactly when no added address is removed from the old index and
no address new to it is added with two different ends.** -/
theorem reorg_output_index_sequential_iff (removals : List StealthKey)
    (additions : List (StealthKey × OutputIndexEntry)) (db : OutputIndexDb) :
    reorgOutputIndex removals additions db = sequentialOutputIndex removals additions db ↔
      ∀ k ∈ additions.map Prod.fst,
        if (db.lookup k).isSome = true then k ∉ removals
        else Map.latest additions k = firstAddition additions k := by
  constructor
  · intro h k
    exact lookup_reorg_eq_iff.mp (by rw [h])
  · intro h
    exact Finmap.ext_lookup fun k => lookup_reorg_eq_iff.mpr (h k)

/-- An address moves from one branch to the other: after the batch it is in neither. -/
theorem reorg_loses_common_output :
    let stealth : StealthKey := FixedBytes.replicate 32 7
    let entry (height : Nat) : OutputIndexEntry := ⟨FixedBytes.replicate 32 1, height, false, none⟩
    let db : OutputIndexDb := (∅ : OutputIndexDb).insert stealth (entry 10)
    (reorgOutputIndex [stealth] [(stealth, entry 11)] db).lookup stealth = none ∧
      (sequentialOutputIndex [stealth] [(stealth, entry 11)] db).lookup stealth =
        some (entry 11) := by
  decide +kernel

end Blockchain

/-! ## On the small chain -/

namespace SmallChain

open Blockchain SmallSuite

def beside : Blockchain Z :=
  (ranOn [.restart, .add steady heavy1, .add steady light1]).getD booted

/-- **A failed attempt deletes from disk.**  Before the attempt the output of the first block can
be read under its address; afterwards it cannot, though the block is still on the main chain. -/
theorem failed_reorg_erases : Reaches (step suite cfg) (fun _ _ => True) booted beside ∧
    (beside.readable (compress 20)).isSome = true ∧
    (answers beside downAtThird light2).map (fun r =>
        (r.2, r.1.tip.hash == heavy1.hash suite, r.1.readable (compress 20))) =
      some (true, true, none) := by
  refine ⟨reaches_ranOn ?_, ?_⟩
  · decide +kernel
  · decide +kernel

/-- Two blocks on top of the first. -/
def next2 : Block Z := emptyChild block1 (nextTarget [genesis, block1]) 6

def next3 : Block Z := emptyChild next2 (nextTarget [genesis, block1, next2]) 8

/-- The second block is rolled back and comes again, under the third: nothing is above the fork
point, and an attempt that fails leaves the disk as it was. -/
theorem rolledBack_unchanged :
    ∃ st st', run (step suite cfg) (orderlyTest suite cfg) booted
        [.restart, .add steady block1, .add steady next2, .rollback 1] = some st ∧
      answers st downAtThird next3 = some (st', true) ∧
      ∀ k, st'.readable k = st.readable k := by
  have hrun : (run (step suite cfg) (orderlyTest suite cfg) booted
      [.restart, .add steady block1, .add steady next2, .rollback 1]).any (fun st =>
        decide (NoReuse suite (st.lineageOf suite next3)) &&
          decide (st.aboveFork suite next3 = []) &&
          (answers st downAtThird next3).any Prod.snd) = true := by
    decide +kernel
  obtain ⟨st, hst, hlast⟩ := (Option.any_eq_true _ _).mp hrun
  obtain ⟨htest, hanswers⟩ := Bool.and_eq_true_iff.mp hlast
  obtain ⟨hreuse, habove⟩ := Bool.and_eq_true_iff.mp htest
  obtain ⟨⟨st', failed⟩, hst', rfl⟩ := (Option.any_eq_true _ _).mp hanswers
  obtain ⟨e, hadd⟩ := exists_reorg_of_answers hst'
  have hreach := Reaches.run orderlyStep_of_test .start hst
  have hiff := (diskIndex_unchanged_iff boot_booted hreach
    (fun _ => of_decide_eq_true hreuse) hadd).2 e rfl
  refine ⟨st, st', hst, hst', hiff.mpr ?_⟩
  rw [of_decide_eq_true habove]
  exact fun a ha => absurd ha not_mem_nil

end SmallChain

end Coincync
