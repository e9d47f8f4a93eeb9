/-
# What a step can do

One inversion for every loop and branch of `add_block` and `rollback_to_height`.  The loops of a
reorganisation touch four things only: the height map, the UTXO set, the supply and the burn
total; `remapped` is a state with these replaced, and every loop lemma below says which four
values its loop ends with.  `AddStep` lists what a whole call of `add_block` can do.
-/
import Coincync.Chain.Load

namespace Coincync

open Lib List Option

variable {forkPoint : Nat} {F G : Type} [Field F] [AddCommGroup G] [Module F G] (S : Suite F G)

/-! ## 1. Checked arithmetic -/

theorem checkedAddU128_eq_some {a b c : Nat} :
    checkedAddU128 a b = some c ↔ a + b < 2 ^ 128 ∧ c = a + b := by
  unfold checkedAddU128
  by_cases h : a + b < 2 ^ 128
  · simp only [h, if_true, Option.some.injEq, true_and]
    exact eq_comm
  · simp only [h, if_false, reduceCtorEq, false_and]

theorem checkedSubU128_eq_some {a b c : Nat} : checkedSubU128 a b = some c ↔ c + b = a := by
  unfold checkedSubU128
  by_cases h : b ≤ a
  · simp only [h, if_true, Option.some.injEq]
    omega
  · simp only [h, if_false, reduceCtorEq, false_iff]
    omega

/-! ## 2. Lists of blocks -/

@[simp] theorem blockLinks_height (b : Block G) : (blockLinks S).height b = b.height := rfl

def emission (l : List (Block G)) : Nat := (l.map fun b => (calculateBlockReward b.height).val).sum

/-- The fees that a list of blocks burns. -/
def burnOf (build : BuildConfig) (l : List (Block G)) : Nat := (l.map (blockFeeBurn S build)).sum

/-- The blocks as entries of a height map. -/
def heightPairs (l : List (Block G)) : List (Nat × Hash) := l.map fun b => (b.height, b.hash S)

/-- Connect blocks one after the other. -/
def UtxoSet.connectAll (U : UtxoSet) (l : List (Block G)) : UtxoSet :=
  l.foldl (fun U b => U.connect S b.height b.transactions) U

/-- Disconnect blocks one after the other. -/
def UtxoSet.disconnectAll (U : UtxoSet) (l : List (Block G)) : UtxoSet :=
  l.foldl (fun U b => U.disconnect S b.transactions) U

omit [AddCommGroup G] in
@[simp] theorem emission_cons (b : Block G) (l : List (Block G)) :
    emission (b :: l) = (calculateBlockReward b.height).val + emission l := by
  simp [emission]

omit [AddCommGroup G] in
@[simp] theorem emission_append (l l' : List (Block G)) :
    emission (l ++ l') = emission l + emission l' := by
  simp [emission]

omit [AddCommGroup G] in
@[simp] theorem emission_reverse (l : List (Block G)) : emission l.reverse = emission l := by
  simp [emission, sum_reverse]

@[simp] theorem burnOf_cons (build : BuildConfig) (b : Block G) (l : List (Block G)) :
    burnOf S build (b :: l) = blockFeeBurn S build b + burnOf S build l := by
  simp [burnOf]

@[simp] theorem burnOf_append (build : BuildConfig) (l l' : List (Block G)) :
    burnOf S build (l ++ l') = burnOf S build l + burnOf S build l' := by
  simp [burnOf]

@[simp] theorem burnOf_reverse (build : BuildConfig) (l : List (Block G)) :
    burnOf S build l.reverse = burnOf S build l := by
  simp [burnOf, sum_reverse]

variable {b root : Block G} {st' : Blockchain G} {ctx : CallContext G} {above : List (Block G)}
  {status : BlockStatus G} {l : List (Block G)}

theorem lookup_heightPairs_of_mem (hnd : (l.map Block.height).Nodup)
    (m : Map Nat Hash) (hb : b ∈ l) :
    (Map.insertAll (heightPairs S l) m).lookup b.height = some (b.hash S) := by
  refine Map.lookup_insertAll_of_mem (fun e he heq => ?_)
    (by simpa [heightPairs] using ⟨b, hb, rfl⟩)
  obtain ⟨x, hx, rfl⟩ := List.mem_map.mp he
  rw [inj_on_of_nodup_map hnd hx hb heq]

theorem lookup_heightPairs_of_ne (m : Map Nat Hash) {h : Nat}
    (hne : ∀ b ∈ l, b.height ≠ h) : (Map.insertAll (heightPairs S l) m).lookup h = m.lookup h := by
  refine Map.lookup_insertAll_of_notMem fun hmem => ?_
  obtain ⟨e, he, rfl⟩ := List.mem_map.mp hmem
  obtain ⟨b, hb, rfl⟩ := List.mem_map.mp he
  exact hne b hb rfl

namespace Blockchain

variable {S} {cfg : NodeConfig}

/-- The state with another height map, UTXO set, supply and burn total. -/
def remapped (st : Blockchain G) (heights : Map Nat Hash) (U : UtxoSet) (supply burned : Nat) :
    Blockchain G :=
  { st with
    heightToHash := heights
    utxos := U
    stats := { st.stats with totalSupply := supply, totalBurned := burned } }

section

variable {st : Blockchain G} {M M' : Map Nat Hash} {U U' : UtxoSet} {s t s' t' : Nat}

omit [AddCommGroup G]

@[simp] theorem remapped_remapped :
    (st.remapped M U s t).remapped M' U' s' t' = st.remapped M' U' s' t' := rfl

@[simp] theorem remapped_heightToHash : (st.remapped M U s t).heightToHash = M := rfl

@[simp] theorem remapped_utxos : (st.remapped M U s t).utxos = U := rfl

@[simp] theorem remapped_totalSupply : (st.remapped M U s t).stats.totalSupply = s := rfl

@[simp] theorem remapped_totalBurned : (st.remapped M U s t).stats.totalBurned = t := rfl

@[simp] theorem remapped_network : (st.remapped M U s t).network = st.network := rfl

@[simp] theorem remapped_blocks : (st.remapped M U s t).blocks = st.blocks := rfl

end

/-- The main chain has these blocks in memory, mapped at their heights. -/
def Cached (S : Suite F G) (st : Blockchain G) (l : List (Block G)) : Prop :=
  ∀ b ∈ l, st.heightToHash.lookup b.height = some (b.hash S) ∧
    st.blocks.lookup (b.hash S) = some b

variable {l : List (Block G)} {st : Blockchain G}

theorem Cached.cachedBlockAt (h : Cached S st l) (hb : b ∈ l) :
    st.cachedBlockAt b.height = some b := by
  unfold Blockchain.cachedBlockAt
  rw [(h b hb).1, bind_some, (h b hb).2]

/-! ## 3. The loops of a reorganisation -/

theorem connectBlock_eq_some (h : st.connectBlock S cfg b = some st') :
    st' = st.remapped (st.heightToHash.insert b.height (b.hash S))
      (st.utxos.connect S b.height b.transactions)
      (st.stats.totalSupply + (calculateBlockReward b.height).val)
      (st.stats.totalBurned + blockFeeBurn S cfg.build b) := by
  simp only [connectBlock, bind_eq_bind, bind_eq_some_iff, Option.some.injEq,
    checkedAddU128_eq_some] at h
  obtain ⟨supply, ⟨-, rfl⟩, burned, ⟨-, rfl⟩, rfl⟩ := h
  rfl

theorem undoBlock_eq_some (h : st.undoBlock S cfg b = some st') :
    ∃ supply burned, supply + (calculateBlockReward b.height).val = st.stats.totalSupply ∧
      burned + blockFeeBurn S cfg.build b = st.stats.totalBurned ∧
      st' = st.remapped st.heightToHash (st.utxos.disconnect S b.transactions) supply burned := by
  simp only [undoBlock, bind_eq_bind, bind_eq_some_iff, Option.some.injEq,
    checkedSubU128_eq_some] at h
  obtain ⟨supply, hs, burned, ht, rfl⟩ := h
  exact ⟨supply, burned, hs, ht, rfl⟩

theorem disconnectAt_eq_some {h : Nat} (hb : st.cachedBlockAt h = some b)
    (hst : st.disconnectAt S cfg h = some st') :
    ∃ supply burned, supply + (calculateBlockReward h).val = st.stats.totalSupply ∧
      burned + blockFeeBurn S cfg.build b = st.stats.totalBurned ∧
      st' = st.remapped (st.heightToHash.erase h) (st.utxos.disconnect S b.transactions) supply
        burned := by
  simp only [disconnectAt, hb, bind_eq_bind, bind_eq_some_iff, Option.some.injEq,
    checkedSubU128_eq_some] at hst
  obtain ⟨supply, hs, burned, ht, rfl⟩ := hst
  exact ⟨supply, burned, hs, ht, rfl⟩

/-- **The disconnect loop**, over cached blocks: the part of a lineage above `q`. -/
theorem disconnectAbove_eq_some :
    ∀ {above : List (Block G)} {q : Block G} {below : List (Block G)} {st st' : Blockchain G}
      {disc : Disconnected G}, Lineage (blockLinks S) root (above ++ q :: below) →
      Cached S st above →
      disconnectAbove S cfg q.height above.length st = some (st', disc) →
      ∃ supply burned, supply + emission above = st.stats.totalSupply ∧
        burned + burnOf S cfg.build above = st.stats.totalBurned ∧
        st' = st.remapped (Map.eraseAll (above.map Block.height) st.heightToHash)
          (st.utxos.disconnectAll S above) supply burned ∧
        disc = ⟨above.map Block.transactions, heightPairs S above⟩
  | [], q, below, st, st', disc, _, _, h => by
    simp only [disconnectAbove, length_nil, Option.some.injEq, Prod.mk.injEq] at h
    obtain ⟨rfl, rfl⟩ := h
    exact ⟨_, _, rfl, rfl, rfl, rfl⟩
  | a :: above, q, below, st, st', disc, hl, hc, h => by
    rw [cons_append] at hl
    have hl' := hl.tail_append
    have hheight : a.height = q.height + above.length + 1 := by
      have h1 := hl.length_eq
      have h2 := (hl'.suffix above).length_eq
      simp only [length_append, length_cons, blockLinks_height] at h1 h2
      omega
    have hcached := hc.cachedBlockAt (.head _)
    simp only [disconnectAbove, length_cons, bind_eq_bind,
      bind_eq_some_iff, Option.some.injEq, Prod.exists, Prod.mk.injEq, ← hheight] at h
    obtain ⟨st₁, h₁, st₂, disc₂, h₂, rfl, rfl⟩ := h
    obtain ⟨s₁, t₁, hs₁, ht₁, rfl⟩ := disconnectAt_eq_some hcached h₁
    -- the rest is still cached: its heights are lower than the one just erased
    have hc' : Cached S (st.remapped (st.heightToHash.erase a.height)
        (st.utxos.disconnect S a.transactions) s₁ t₁) above := by
      intro b hb
      have hlt : b.height < a.height := hl.height_lt b (mem_append_left _ hb)
      refine ⟨?_, (hc b (.tail _ hb)).2⟩
      change (st.heightToHash.erase a.height).lookup b.height = _
      rw [Map.lookup_erase_ite, if_neg (by omega)]
      exact (hc b (.tail _ hb)).1
    obtain ⟨s₂, t₂, hs₂, ht₂, rfl, rfl⟩ := disconnectAbove_eq_some hl' hc' h₂
    refine ⟨s₂, t₂, ?_, ?_, rfl, ?_⟩
    · rw [emission_cons, ← hs₁, add_comm _ (emission above), ← add_assoc, hs₂]
      rfl
    · rw [burnOf_cons, ← ht₁, add_comm _ (burnOf S cfg.build above), ← add_assoc, ht₂]
      rfl
    · simp [Disconnected.push, hcached, (hc a mem_cons_self).1, heightPairs]

theorem undoAll_eq_some : ∀ {l : List (Block G)} {st st' : Blockchain G},
    undoAll S cfg l st = some st' →
    ∃ supply burned, supply + emission l = st.stats.totalSupply ∧
      burned + burnOf S cfg.build l = st.stats.totalBurned ∧
      st' = st.remapped st.heightToHash (st.utxos.disconnectAll S l) supply burned
  | [], st, st', h => by
    simp only [undoAll, Option.some.injEq] at h
    subst h
    exact ⟨_, _, rfl, rfl, rfl⟩
  | b :: l, st, st', h => by
    simp only [undoAll, bind_eq_bind, bind_eq_some_iff] at h
    obtain ⟨st₁, h₁, h₂⟩ := h
    obtain ⟨s₁, t₁, hs₁, ht₁, rfl⟩ := undoBlock_eq_some h₁
    obtain ⟨s₂, t₂, hs₂, ht₂, rfl⟩ := undoAll_eq_some h₂
    refine ⟨s₂, t₂, ?_, ?_, rfl⟩
    · rw [emission_cons, ← hs₁, add_comm _ (emission l), ← add_assoc, hs₂]
      rfl
    · rw [burnOf_cons, ← ht₁, add_comm _ (burnOf S cfg.build l), ← add_assoc, ht₂]
      rfl

theorem undoMapped_append : ∀ {l l' : List (Block G)} {st : Blockchain G},
    (∀ b ∈ l, st.heightToHash.lookup b.height ≠ some (b.hash S)) →
    undoMapped S cfg (l ++ l') st = undoMapped S cfg l' st
  | [], _, _, _ => rfl
  | b :: l, l', st, h => by
    rw [cons_append, undoMapped, if_neg (h b mem_cons_self)]
    exact undoMapped_append fun x hx => h x (.tail _ hx)

theorem undoMapped_eq_undoAll : ∀ {l : List (Block G)} {st : Blockchain G},
    (∀ b ∈ l, st.heightToHash.lookup b.height = some (b.hash S)) →
    undoMapped S cfg l st = undoAll S cfg l st
  | [], _, _ => rfl
  | b :: l, st, h => by
    rw [undoMapped, if_pos (h b mem_cons_self), undoAll]
    simp only [bind_eq_bind]
    refine Option.bind_congr fun st₁ h₁ => ?_
    obtain ⟨s, t, -, -, rfl⟩ := undoBlock_eq_some h₁
    exact undoMapped_eq_undoAll fun x hx => h x (.tail _ hx)

theorem undoMapped_reverse {done left : List (Block G)}
    (hdone : ∀ b ∈ done, st.heightToHash.lookup b.height = some (b.hash S))
    (hleft : ∀ b ∈ left, st.heightToHash.lookup b.height ≠ some (b.hash S)) :
    undoMapped S cfg (done ++ left).reverse st = undoAll S cfg done.reverse st := by
  rw [reverse_append, undoMapped_append fun b hb => hleft b (mem_reverse.mp hb),
    undoMapped_eq_undoAll fun b hb => hdone b (mem_reverse.mp hb)]

theorem reconnect_eq : ∀ (l : List (Block G)) (st : Blockchain G),
    (∀ b ∈ l, st.blocks.lookup (b.hash S) = some b) →
    reconnect S (heightPairs S l) st =
      { st with
        heightToHash := Map.insertAll (heightPairs S l) st.heightToHash
        utxos := st.utxos.connectAll S l }
  | [], _, _ => rfl
  | b :: l, st, h => by
    simp only [heightPairs, map_cons, reconnect, h b mem_cons_self]
    exact reconnect_eq l _ fun x hx => h x (.tail _ hx)

variable [DecidableEq F] [DecidableEq G]

/-- Each block is valid, below no checkpoint and with its parent in memory, against the set with
the earlier ones connected. -/
inductive ValidInTurn (S : Suite F G) (cfg : NodeConfig) (st : Blockchain G) :
    UtxoSet → List (Block G) → Prop
  | nil (U : UtxoSet) : ValidInTurn S cfg st U []
  | cons {U : UtxoSet} {b : Block G} {rest : List (Block G)} (ctx : CallContext G) :
      (validateBlockWithCheckpointForNetwork S cfg ctx b (st.blocks.lookup b.header.prevHash) U
        none st.network).valid = true →
      ValidInTurn S cfg st (U.connect S b.height b.transactions) rest →
      ValidInTurn S cfg st U (b :: rest)

theorem ValidInTurn.of_remapped {M : Map Nat Hash} {U U' : UtxoSet} {s t : Nat}
    (h : ValidInTurn S cfg (st.remapped M U s t) U' l) : ValidInTurn S cfg st U' l := by
  induction h with
  | nil U' => exact .nil U'
  | cons ctx hv _ ih => exact .cons ctx hv ih

theorem forkBlockError_eq_none {connected : List (Block G)}
    (h : st.forkBlockError S cfg ctx forkPoint connected b = none) :
    (validateBlockWithCheckpointForNetwork S cfg ctx b (st.blocks.lookup b.header.prevHash)
      st.utxos none st.network).valid = true := by
  simp only [forkBlockError] at h
  split at h
  · cases h
  · rename_i hv
    simpa using hv

/-- **The connect loop**: it connects a first part of the side chain, each block valid in turn,
and without an error all of it. -/
theorem connectFork_eq_some {ctx : Nat → CallContext G} :
    ∀ {rest connected : List (Block G)} {st st' : Blockchain G} {err : Option ReorgError},
      connectFork S cfg ctx forkPoint connected rest st = some (st', err) →
      ∃ done left, rest = done ++ left ∧ (err = none → left = []) ∧
        ValidInTurn S cfg st st.utxos done ∧
        st' = st.remapped (Map.insertAll (heightPairs S done) st.heightToHash)
          (st.utxos.connectAll S done) (st.stats.totalSupply + emission done)
          (st.stats.totalBurned + burnOf S cfg.build done)
  | [], connected, st, st', err, h => by
    simp only [connectFork, Option.some.injEq, Prod.mk.injEq] at h
    obtain ⟨rfl, -⟩ := h
    exact ⟨[], [], rfl, fun _ => rfl, .nil _, rfl⟩
  | b :: rest, connected, st, st', err, h => by
    rw [connectFork] at h
    split at h
    · -- the block is refused, and nothing of it is connected
      cases h
      exact ⟨[], b :: rest, rfl, fun h => (by cases h), .nil _, rfl⟩
    · rename_i hvalid
      simp only [bind_eq_bind, bind_eq_some_iff] at h
      obtain ⟨st₁, h₁, h₂⟩ := h
      have hst₁ := connectBlock_eq_some h₁
      subst hst₁
      obtain ⟨done, left, rfl, hleft, hturn, rfl⟩ := connectFork_eq_some h₂
      refine ⟨b :: done, left, rfl, hleft, .cons _ (forkBlockError_eq_none hvalid) (hturn.of_remapped), ?_⟩
      simp only [remapped, heightPairs, map_cons, emission_cons, burnOf_cons, add_assoc]
      rfl

/-! ## 4. The whole reorganisation -/

/-- The height map after a failed reorganisation that had connected `done`: heights above the fork
point cleared up to `top`, the old main chain mapped again. -/
def restoredHeights (S : Suite F G) (heights : Map Nat Hash) (above done : List (Block G))
    (forkPoint top : Nat) : Map Nat Hash :=
  Map.insertAll (heightPairs S above.reverse)
    (Map.eraseAll (List.range' (forkPoint + 1) (top - forkPoint))
      (Map.insertAll (heightPairs S done) (Map.eraseAll (above.map Block.height) heights)))

/-- The UTXO set after a failed reorganisation that had connected `done`. -/
def restoredUtxos (S : Suite F G) (U : UtxoSet) (above done : List (Block G)) : UtxoSet :=
  (((U.disconnectAll S above).connectAll S done).disconnectAll S done.reverse).connectAll S
    above.reverse

/-- **What a reorganisation can do**, where `above` is the main chain above the fork point, newest
first, and `fork` the side chain, oldest first. -/
inductive ReorgStep (S : Suite F G) (cfg : NodeConfig) (st : Blockchain G) (b : Block G)
    (above fork : List (Block G)) (forkPoint : Nat) : Blockchain G → BlockStatus G → Prop
  /-- It fails, after connecting a part of the side chain. -/
  | failed {done left : List (Block G)} {top : Nat} (e : ReorgError) : fork = done ++ left →
      ValidInTurn S cfg st (st.utxos.disconnectAll S above) done →
      (top = st.tip.height ∨ top = max st.tip.height b.height ∧ left = []) →
      ReorgStep S cfg st b above fork forkPoint
        { st with
          heightToHash := restoredHeights S st.heightToHash above done forkPoint top
          utxos := restoredUtxos S st.utxos above done }
        (.invalid (.reorg e))
  /-- It succeeds. -/
  | committed {connected st' : Blockchain G} {supply burned : Nat} :
      supply + emission above = st.stats.totalSupply →
      burned + burnOf S cfg.build above = st.stats.totalBurned →
      ValidInTurn S cfg st (st.utxos.disconnectAll S above) (fork ++ [b]) →
      connected = st.remapped
        (Map.insertAll (heightPairs S fork)
          (Map.eraseAll (above.map Block.height) st.heightToHash))
        ((st.utxos.disconnectAll S above).connectAll S fork)
        (supply + emission fork) (burned + burnOf S cfg.build fork) →
      connected.commitReorg S cfg st ⟨above.map Block.transactions, heightPairs S above⟩ fork b
        (st.calculateForkCumulativeWork b) = some st' →
      ReorgStep S cfg st b above fork forkPoint st'
        (.acceptedReorg ((above.map Block.transactions).flatten.filter fun tx => !tx.isCoinbase))

theorem ValidInTurn.append_singleton {U : UtxoSet} (h : ValidInTurn S cfg st U l)
    (hb : (validateBlockWithCheckpointForNetwork S cfg ctx b (st.blocks.lookup b.header.prevHash)
      (U.connectAll S l) none st.network).valid = true) : ValidInTurn S cfg st U (l ++ [b]) := by
  induction h with
  | nil U => exact .cons _ hb (.nil _)
  | cons ctx' hv _ ih => exact .cons ctx' hv (ih hb)

theorem tipBlockError_eq_none (h : st.tipBlockError S cfg ctx b = none) :
    (validateBlockWithCheckpointForNetwork S cfg ctx b (st.blocks.lookup b.header.prevHash)
      st.utxos none st.network).valid = true := by
  simp only [tipBlockError] at h
  split at h
  · cases h
  · rename_i hv
    simpa using hv

omit [DecidableEq F] [DecidableEq G] in
theorem restoreMainChain_eq {done : List (Block G)} {top s t : Nat} (hc : Cached S st above) :
    (st.remapped
        (Map.insertAll (heightPairs S done) (Map.eraseAll (above.map Block.height) st.heightToHash))
        (((st.utxos.disconnectAll S above).connectAll S done).disconnectAll S done.reverse)
        s t).restoreMainChain S st ⟨above.map Block.transactions, heightPairs S above⟩ forkPoint
          top =
      { st with
        heightToHash := restoredHeights S st.heightToHash above done forkPoint top
        utxos := restoredUtxos S st.utxos above done } := by
  have hrev : (heightPairs S above).reverse = heightPairs S above.reverse := by
    simp [heightPairs]
  simp only [restoreMainChain, hrev]
  rw [reconnect_eq above.reverse]
  · rfl
  · intro b hb
    exact (hc b (mem_reverse.mp hb)).2

omit [DecidableEq F] [DecidableEq G] in
theorem mem_above_heights {below : List (Block G)} {q : Block G} {tip h : Nat}
    (hl : Lineage (blockLinks S) root (above ++ q :: below)) (htip : tip = q.height + above.length)
    (hgt : q.height < h) (hle : h ≤ tip) : h ∈ above.map Block.height := by
  cases above with
  | nil =>
    simp only [length_nil] at htip
    omega
  | cons a above =>
    have h1 := hl.length_eq
    have h2 := (hl.suffix (a :: above)).length_eq
    simp only [append_eq, length_append, length_cons, blockLinks_height] at h1 h2 htip
    obtain ⟨p, hp, hph⟩ := hl.exists_height h (by rw [blockLinks_height]; omega)
    rcases mem_append.mp (show p ∈ (a :: above) ++ q :: below from hp) with hp | hp
    · exact List.mem_map.mpr ⟨p, hp, hph⟩
    · have := (hl.suffix (a :: above)).height_le hp
      simp only [blockLinks_height] at this hph
      omega

/-- **The reorganisation, inverted.**  The main chain above the fork point `q` is in memory, and
nothing is mapped above the tip. -/
theorem reorganize_step {below fork : List (Block G)} {q : Block G} {ctx : Nat → CallContext G}
    (hl : Lineage (blockLinks S) root (above ++ q :: below))
    (htip : st.tip.height = q.height + above.length) (hc : Cached S st above)
    (hstale : ∀ h, st.tip.height < h → st.heightToHash.lookup h = none)
    (hcollect : st.collectForkChain S b q.height = fork) (hheights : (fork.map Block.height).Nodup)
    (habove : ∀ x ∈ fork, q.height < x.height)
    (h : st.reorganize S cfg ctx b q.height = some (st', status)) :
    ReorgStep S cfg st b above fork q.height st' status := by
  simp only [reorganize, bind_eq_bind, bind_eq_some_iff, Prod.exists, htip,
    Nat.add_sub_cancel_left] at h
  obtain ⟨rewound, disc, hd, connected, forkError, hcon, h⟩ := h
  obtain ⟨supply, burned, hs, ht, rfl, rfl⟩ := disconnectAbove_eq_some hl hc hd
  have hcollect' : (st.remapped (Map.eraseAll (above.map Block.height) st.heightToHash)
      (st.utxos.disconnectAll S above) supply burned).collectForkChain S b q.height = fork :=
    hcollect
  rw [hcollect'] at hcon h
  obtain ⟨done, left, hfork, hleft, hturn, rfl⟩ := connectFork_eq_some hcon
  subst hfork
  simp only [remapped_remapped, remapped_heightToHash, remapped_utxos, remapped_totalSupply,
    remapped_totalBurned] at hturn h
  replace hturn := hturn.of_remapped
  -- of the side chain, exactly what was connected is mapped
  have hmapped : ∀ x ∈ done, (Map.insertAll (heightPairs S done)
      (Map.eraseAll (above.map Block.height) st.heightToHash)).lookup x.height =
        some (x.hash S) := by
    intro x hx
    rw [map_append] at hheights
    exact lookup_heightPairs_of_mem S (List.Nodup.of_append_left hheights) _ hx
  have hunmapped : ∀ x ∈ left, (Map.insertAll (heightPairs S done)
      (Map.eraseAll (above.map Block.height) st.heightToHash)).lookup x.height ≠
        some (x.hash S) := by
    intro x hx
    rw [lookup_heightPairs_of_ne, Map.lookup_eraseAll]
    · split_ifs with hmem
      · exact (some_ne_none _).symm
      · -- the heights of the old main chain are all those up to the tip
        rw [hstale x.height]
        · exact (some_ne_none _).symm
        · by_contra hle
          have hgt := habove x (mem_append_right _ hx)
          exact hmem (mem_above_heights hl htip hgt (by omega))
    · intro y hy heq
      rw [map_append, nodup_append] at hheights
      exact hheights.2.2 _ (List.mem_map_of_mem hy) _ (List.mem_map_of_mem hx) heq
  split at h
  · -- path A
    rename_i e he
    obtain ⟨undone, hu, ⟨⟩⟩ := bind_eq_some_iff.mp h
    obtain ⟨s', t', -, -, rfl⟩ :=
      undoAll_eq_some ((undoMapped_reverse hmapped hunmapped).symm.trans hu)
    rw [remapped_remapped, remapped_heightToHash, remapped_utxos, ← htip, restoreMainChain_eq hc]
    exact .failed e rfl hturn (.inl rfl)
  · rename_i hnone
    obtain ⟨rfl, htipvalid⟩ := or_eq_none_iff.mp hnone
    obtain rfl := hleft rfl
    rw [append_nil] at h hcollect ⊢
    have htipvalid' := tipBlockError_eq_none htipvalid
    rw [remapped_utxos, remapped_network, remapped_blocks] at htipvalid'
    have hvalid := hturn.append_singleton htipvalid'
    split at h
    · -- path B
      rename_i e he
      obtain ⟨undone, hu, ⟨⟩⟩ := bind_eq_some_iff.mp h
      obtain ⟨s', t', -, -, rfl⟩ := undoAll_eq_some hu
      rw [remapped_remapped, remapped_heightToHash, remapped_utxos, ← htip, restoreMainChain_eq hc]
      exact .failed e (append_nil _).symm hturn (.inr ⟨rfl, rfl⟩)
    · obtain ⟨committed, hcommit, ⟨⟩⟩ := bind_eq_some_iff.mp h
      exact .committed hs ht hvalid rfl hcommit

/-! ## 5. The whole of `add_block` -/

/-- **What a stored block has passed.** -/
structure Admitted (S : Suite F G) (cfg : NodeConfig) (ctx : CallContext G) (st : Blockchain G)
    (b : Block G) : Prop where
  unknown : st.getBlock (b.hash S) = none
  parent : b.height = 0 ∨
    ∃ p, st.getBlock b.header.prevHash = some p ∧ b.height = p.height + 1
  checkpoint : verifyCheckpoint st.network b.height (b.hash S) ≠ some false
  valid : (validateBlockWithCheckpointForNetwork S cfg ctx b (st.getBlock b.header.prevHash)
    st.utxos st.persistedCheckpoint st.network).valid = true
  mtp : st.mtpViolation b = none
  target : st.targetViolation b = none

theorem refusal_eq_none (h : st.refusal S cfg ctx b = none) : Admitted S cfg ctx st b := by
  simp only [refusal] at h
  split_ifs at h with hknown horphan hheight hcp hvalid
  refine ⟨by simpa using hknown, ?_, hcp, by simpa using hvalid, ?_, ?_⟩
  · by_cases h0 : b.height = 0
    · exact .inl h0
    · cases hp : st.getBlock b.header.prevHash with
      | none => exact absurd ⟨by rw [hp]; rfl, pos_of_ne_zero h0⟩ horphan
      | some p =>
        refine .inr ⟨p, rfl, ?_⟩
        simpa [expectedHeight, h0, hp] using hheight
  · cases hm : st.mtpViolation b with
    | none => rfl
    | some mtp => simp [hm] at h
  · cases hm : st.mtpViolation b with
    | some mtp => simp [hm] at h
    | none =>
      cases ht : st.targetViolation b with
      | none => rfl
      | some expected => simp [hm, ht] at h

/-- An answer of `add_block` that tells of no attempt on the main chain. -/
def Quiet : Except ChainError (BlockStatus G) → Prop
  | .ok .accepted | .ok (.acceptedReorg _) | .ok (.invalid (.reorg _)) => False
  | _ => True

theorem quiet_of_refusal (h : st.refusal S cfg ctx b = some status) :
    Quiet (.ok status : Except ChainError (BlockStatus G)) := by
  simp only [refusal] at h
  split_ifs at h
  all_goals first | (obtain rfl := Option.some.inj h; trivial) | skip
  split at h
  · cases h
    trivial
  · cases h
    trivial
  · cases h

theorem reorganize_status {ctx : Nat → CallContext G}
    (h : st.reorganize S cfg ctx b forkPoint = some (st', status)) :
    (∃ e, status = .invalid (.reorg e)) ∨ ∃ orphaned, status = .acceptedReorg orphaned := by
  simp only [reorganize, bind_eq_bind, bind_eq_some_iff, Prod.exists] at h
  obtain ⟨rewound, disc, -, connected, forkError, -, h⟩ := h
  split at h
  · obtain ⟨_, -, ⟨⟩⟩ := bind_eq_some_iff.mp h
    exact .inl ⟨_, rfl⟩
  · split at h
    · obtain ⟨_, -, ⟨⟩⟩ := bind_eq_some_iff.mp h
      exact .inl ⟨_, rfl⟩
    · obtain ⟨_, -, ⟨⟩⟩ := bind_eq_some_iff.mp h
      exact .inr ⟨_, rfl⟩

omit [DecidableEq F] [DecidableEq G] in
theorem extendTip_eq_some (h : st.extendTip S cfg b = some st') :
    st' = ({ st with
      heightToHash := st.heightToHash.insert b.height (b.hash S)
      tip := tipOf S b
      stats := st.extendedStats S b (st.stats.totalSupply + (calculateBlockReward b.height).val)
        (st.stats.totalBurned + blockFeeBurn S cfg.build b)
      utxos := (st.utxos.connect S b.height b.transactions).evictOldOutputs b.height
        1000 }.evictBlockCache).persistExtension S b := by
  simp only [extendTip, bind_eq_bind, bind_eq_some_iff, Option.some.injEq,
    checkedAddU128_eq_some] at h
  obtain ⟨supply, ⟨-, rfl⟩, burned, ⟨-, rfl⟩, rfl⟩ := h
  rfl

/-- **What a call of `add_block` can do.** -/
inductive AddStep (S : Suite F G) (cfg : NodeConfig) (ctx : Nat → CallContext G)
    (st : Blockchain G) (b : Block G) :
    Blockchain G → Except ChainError (BlockStatus G) → Prop
  /-- The block is refused before anything is written. -/
  | refused (status : BlockStatus G) : Quiet (.ok status) → AddStep S cfg ctx st b st (.ok status)
  /-- The block extends the tip. -/
  | extended {st' : Blockchain G} : Admitted S cfg (ctx 0) st b → st.isMainChain b = true →
      (st.storeBlock S b).extendTip S cfg b = some st' →
      AddStep S cfg ctx st b st' (.ok .accepted)
  /-- The block is stored on a side chain. -/
  | kept (res : Except ChainError (BlockStatus G)) : Admitted S cfg (ctx 0) st b →
      st.isMainChain b = false → Quiet res → AddStep S cfg ctx st b (st.storeBlock S b) res
  /-- The block's side chain wins, and a reorganisation is begun. -/
  | reorganized {st' : Blockchain G} {status : BlockStatus G} (forkPoint : Nat) :
      Admitted S cfg (ctx 0) st b → st.isMainChain b = false →
      (st.storeBlock S b).takeFork S b = true →
      (st.storeBlock S b).findForkPoint S b = some forkPoint → st.finalityFloor ≤ forkPoint →
      (st.storeBlock S b).reorganize S cfg ctx b forkPoint = some (st', status) →
      AddStep S cfg ctx st b st' (.ok status)

/-- **The one inversion of `add_block`.** -/
theorem addBlock_step {ctx : Nat → CallContext G} {res : Except ChainError (BlockStatus G)}
    (h : st.addBlock S cfg ctx b = some (st', res)) : AddStep S cfg ctx st b st' res := by
  rw [addBlock] at h
  split at h
  · rename_i status hs
    cases h
    exact .refused status (quiet_of_refusal hs)
  · rename_i hrefusal
    have hadm := refusal_eq_none hrefusal
    simp only at h
    split at h
    · rename_i hmain
      obtain ⟨extended, hext, ⟨⟩⟩ := map_eq_some_iff.mp h
      exact .extended hadm hmain hext
    · rename_i hmain
      have hmain' : st.isMainChain b = false := by simpa using hmain
      rw [evaluateFork] at h
      split at h
      · rename_i htake
        split at h
        · cases h
          exact .kept _ hadm hmain' trivial
        · rename_i forkPoint hfork
          simp only at h
          split at h
          · cases h
            exact .kept _ hadm hmain' trivial
          · split at h
            · cases h
              exact .kept _ hadm hmain' trivial
            · rename_i hfloor
              obtain ⟨⟨st₁, status⟩, hre, ⟨⟩⟩ := map_eq_some_iff.mp h
              refine .reorganized forkPoint hadm hmain' htake hfork ?_ hre
              change ¬(0 < st.finalityFloor ∧ forkPoint < st.finalityFloor) at hfloor
              omega
      · cases h
        exact .kept _ hadm hmain' trivial

end Blockchain

end Coincync
