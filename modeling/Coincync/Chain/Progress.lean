/-
# Calls that go through

`Steps` says what a call that returned has done.  Here is the converse: under which conditions a
call of `add_block` returns, and with which answer.  A block that passes the checks of arrival is
stored; on top of the tip it extends the chain as long as supply and burn fit a `u128`; beside it,
the order of fork choice decides, and a reorganisation commits if every block of the side chain
passes its check in turn.
-/
import Coincync.Chain.Canonical

namespace Coincync

open Lib List Option

variable {forkPoint : Nat} {F G : Type} [Field F] [AddCommGroup G] [Module F G]

theorem checkedAddU128_of_lt {a b : Nat} (h : a + b < 2 ^ 128) :
    checkedAddU128 a b = some (a + b) :=
  checkedAddU128_eq_some.mpr ⟨h, rfl⟩

theorem checkedSubU128_of_le {a b : Nat} (h : b ≤ a) : checkedSubU128 a b = some (a - b) :=
  checkedSubU128_eq_some.mpr (Nat.sub_add_cancel h)

namespace Blockchain

variable {S : Suite F G} {cfg : NodeConfig} {st st' : Blockchain G} {b q : Block G}
  {above below fork : List (Block G)}

/-! ## 1. The states of a reorganisation -/

/-- The state with the blocks `above` disconnected, newest first. -/
def rewound (S : Suite F G) (cfg : NodeConfig) (st : Blockchain G) (above : List (Block G)) :
    Blockchain G :=
  st.remapped (Map.eraseAll (above.map Block.height) st.heightToHash)
    (st.utxos.disconnectAll S above) (st.stats.totalSupply - emission above)
    (st.stats.totalBurned - burnOf S cfg.build above)

/-- The state with the blocks `done` of a side chain connected, oldest first. -/
def forked (S : Suite F G) (cfg : NodeConfig) (st : Blockchain G) (done : List (Block G)) :
    Blockchain G :=
  st.remapped (Map.insertAll (heightPairs S done) st.heightToHash)
    (st.utxos.connectAll S done) (st.stats.totalSupply + emission done)
    (st.stats.totalBurned + burnOf S cfg.build done)

theorem connectBlock_of_lt (hsupply : st.stats.totalSupply + (calculateBlockReward b.height).val <
    2 ^ 128) (hburned : st.stats.totalBurned + blockFeeBurn S cfg.build b < 2 ^ 128) :
    st.connectBlock S cfg b = some (st.forked S cfg [b]) := by
  simp only [connectBlock, checkedAddU128_of_lt hsupply, checkedAddU128_of_lt hburned,
    bind_eq_bind, bind_some, forked, remapped, emission_cons, burnOf_cons]
  rfl

theorem forked_cons (st : Blockchain G) (b : Block G) (done : List (Block G)) :
    (st.forked S cfg [b]).forked S cfg done = st.forked S cfg (b :: done) := by
  simp only [forked, remapped_remapped, remapped_heightToHash, remapped_utxos,
    remapped_totalSupply, remapped_totalBurned, emission_cons, burnOf_cons, add_assoc]
  congr 1
  · rw [show emission ([] : List (Block G)) = 0 from rfl, zero_add]
  · rw [show burnOf S cfg.build ([] : List (Block G)) = 0 from rfl, zero_add]

theorem disconnectAt_of_le {h : Nat} (hb : st.cachedBlockAt h = some b) (hheight : b.height = h)
    (hsupply : (calculateBlockReward h).val ≤ st.stats.totalSupply)
    (hburned : blockFeeBurn S cfg.build b ≤ st.stats.totalBurned) :
    st.disconnectAt S cfg h = some (st.rewound S cfg [b]) := by
  subst hheight
  simp only [disconnectAt, hb, checkedSubU128_of_le hsupply, checkedSubU128_of_le hburned,
    bind_eq_bind, bind_some, rewound, remapped, emission_cons, burnOf_cons]
  rfl

theorem rewound_cons (st : Blockchain G) (b : Block G) (above : List (Block G)) :
    (st.rewound S cfg [b]).rewound S cfg above = st.rewound S cfg (b :: above) := by
  simp only [rewound, remapped_remapped, remapped_heightToHash, remapped_utxos,
    remapped_totalSupply, remapped_totalBurned, emission_cons, burnOf_cons, Nat.sub_sub]
  rfl

/-- **The disconnect loop goes through** where the blocks are in memory and the totals cover
them. -/
theorem disconnectAbove_eq_rewound {root : Block G} :
    ∀ {above : List (Block G)} {st : Blockchain G},
      Lineage (blockLinks S) root (above ++ q :: below) → Cached S st above →
      emission above ≤ st.stats.totalSupply → burnOf S cfg.build above ≤ st.stats.totalBurned →
      disconnectAbove S cfg q.height above.length st =
        some (st.rewound S cfg above, ⟨above.map Block.transactions, heightPairs S above⟩)
  | [], _, _, _, _, _ => rfl
  | a :: above, st, hl, hc, hsupply, hburned => by
    rw [emission_cons] at hsupply
    rw [burnOf_cons] at hburned
    have hheight : a.height = q.height + above.length + 1 := by
      have h1 := hl.length_eq
      have h2 := (hl.tail_append.suffix above).length_eq
      simp only [append_eq, length_append, length_cons, blockLinks_height] at h1 h2
      omega
    have hcached := hc.cachedBlockAt (.head _)
    have hone : st.disconnectAt S cfg a.height = some (st.rewound S cfg [a]) :=
      disconnectAt_of_le hcached rfl (by omega) (by omega)
    -- the rest is still cached: its heights are lower than the one just erased
    have hc' : Cached S (st.rewound S cfg [a]) above := by
      intro x hx
      have hlt : x.height < a.height := hl.height_lt x (mem_append_left _ hx)
      refine ⟨?_, (hc x (.tail _ hx)).2⟩
      change (Map.eraseAll [a.height] st.heightToHash).lookup x.height = _
      rw [Map.lookup_eraseAll, if_neg (by simp; omega)]
      exact (hc x (.tail _ hx)).1
    have hrest := disconnectAbove_eq_rewound hl.tail_append hc'
      (by
        change emission above ≤ st.stats.totalSupply - emission [a]
        rw [emission_cons]
        simp only [emission, map_nil, sum_nil] at hsupply ⊢
        omega)
      (by
        change burnOf S cfg.build above ≤ st.stats.totalBurned - burnOf S cfg.build [a]
        rw [burnOf_cons]
        simp only [burnOf, map_nil, sum_nil] at hburned ⊢
        omega)
    rw [length_cons, disconnectAbove]
    simp only [← hheight, hone, bind_eq_bind, bind_some]
    rw [hrest, bind_some, rewound_cons]
    simp [Disconnected.push, hcached, (hc a mem_cons_self).1, heightPairs]

variable [DecidableEq F] [DecidableEq G] {ctx : Nat → CallContext G}

/-- **The connect loop goes through** where every block passes its check in the state with the
earlier ones connected. -/
theorem connectFork_eq_forked :
    ∀ {rest connected : List (Block G)} {st : Blockchain G},
      (∀ done x left, rest = done ++ x :: left →
        (st.forked S cfg done).forkBlockError S cfg (ctx ((connected ++ done).length + 1))
          forkPoint (connected ++ done) x = none) →
      st.stats.totalSupply + emission rest < 2 ^ 128 →
      st.stats.totalBurned + burnOf S cfg.build rest < 2 ^ 128 →
      connectFork S cfg ctx forkPoint connected rest st = some (st.forked S cfg rest, none)
  | [], _, st, _, _, _ => rfl
  | b :: rest, connected, st, hchecks, hsupply, hburned => by
    rw [emission_cons] at hsupply
    rw [burnOf_cons] at hburned
    have hfirst := hchecks [] b rest rfl
    rw [append_nil] at hfirst
    have hfirst' : st.forkBlockError S cfg (ctx (connected.length + 1)) forkPoint connected b =
        none := hfirst
    have hone : st.connectBlock S cfg b = some (st.forked S cfg [b]) :=
      connectBlock_of_lt (by omega) (by omega)
    have hrest : connectFork S cfg ctx forkPoint (connected ++ [b]) rest (st.forked S cfg [b]) =
        some ((st.forked S cfg [b]).forked S cfg rest, none) := by
      refine connectFork_eq_forked (fun done x left heq => ?_) ?_ ?_
      · have h := hchecks (b :: done) x left (by rw [heq]; rfl)
        rw [forked_cons, append_assoc]
        exact h
      · change st.stats.totalSupply + emission [b] + emission rest < 2 ^ 128
        rw [emission_cons]
        simp only [emission, map_nil, sum_nil] at hsupply ⊢
        omega
      · change st.stats.totalBurned + burnOf S cfg.build [b] + burnOf S cfg.build rest < 2 ^ 128
        rw [burnOf_cons]
        simp only [burnOf, map_nil, sum_nil] at hburned ⊢
        omega
    rw [connectFork, hfirst']
    simp only [bind_eq_bind, hone, bind_some, hrest, forked_cons]

/-! ## 2. The whole reorganisation -/

/-- **A reorganisation commits** where the old branch can be disconnected and every block of the
new one, the tip last, is valid and has its target in the state with the earlier ones connected. -/
theorem reorganize_commits {root : Block G} (hl : Lineage (blockLinks S) root (above ++ q :: below))
    (htip : st.tip.height = q.height + above.length) (hc : Cached S st above)
    (hcollect : st.collectForkChain S b q.height = fork)
    (hsupply : emission above ≤ st.stats.totalSupply)
    (hburned : burnOf S cfg.build above ≤ st.stats.totalBurned)
    (hsupply' : st.stats.totalSupply - emission above + emission (fork ++ [b]) < 2 ^ 128)
    (hburned' : st.stats.totalBurned - burnOf S cfg.build above +
      burnOf S cfg.build (fork ++ [b]) < 2 ^ 128)
    (hvalid : ∀ done x left, fork ++ [b] = done ++ x :: left → ∀ n,
      (validateBlockWithCheckpointForNetwork S cfg (ctx n) x (st.blocks.lookup x.header.prevHash)
        ((st.utxos.disconnectAll S above).connectAll S done) none st.network).valid = true)
    (htarget : ∀ done x left, fork ++ [b] = done ++ x :: left →
      wrongTarget (((st.rewound S cfg above).forked S cfg done).mixedWindow q.height
        (done.map fun a => a.difficultyBlock a.height) x.height) x = none) :
    ∃ st' orphaned, st.reorganize S cfg ctx b q.height = some (st', .acceptedReorg orphaned) := by
  rw [emission_append] at hsupply'
  rw [burnOf_append] at hburned'
  have hdisc := disconnectAbove_eq_rewound hl hc hsupply hburned
  set rewound := st.rewound S cfg above
  have hcollect' : rewound.collectForkChain S b q.height = fork := hcollect
  have hcon : connectFork S cfg ctx q.height [] fork rewound =
      some (rewound.forked S cfg fork, none) := by
    refine connectFork_eq_forked (fun done x left heq => ?_) ?_ ?_
    · have hsplit : fork ++ [b] = done ++ x :: (left ++ [b]) := by
        rw [heq, append_assoc, cons_append]
      refine (if_neg (ne_false_of_eq_true (hvalid done x _ hsplit _))).trans ?_
      simp only [nil_append, htarget done x _ hsplit, map_none, ite_self]
    · change st.stats.totalSupply - emission above + emission fork < 2 ^ 128
      omega
    · change st.stats.totalBurned - burnOf S cfg.build above + burnOf S cfg.build fork < 2 ^ 128
      omega
  have htop : (rewound.forked S cfg fork).connectBlock S cfg b =
      some ((rewound.forked S cfg fork).forked S cfg [b]) := by
    refine connectBlock_of_lt ?_ ?_
    · change st.stats.totalSupply - emission above + emission fork +
        (calculateBlockReward b.height).val < 2 ^ 128
      simp only [emission, map_cons, map_nil, sum_cons, sum_nil] at hsupply' ⊢
      omega
    · change st.stats.totalBurned - burnOf S cfg.build above + burnOf S cfg.build fork +
        blockFeeBurn S cfg.build b < 2 ^ 128
      simp only [burnOf, map_cons, map_nil, sum_cons, sum_nil] at hburned' ⊢
      omega
  have htipvalid : (rewound.forked S cfg fork).tipBlockError S cfg
      (ctx (fork.length + 1)) b = none := by
    have hok : (validateBlockWithCheckpointForNetwork S cfg (ctx (fork.length + 1)) b
        ((rewound.forked S cfg fork).blocks.lookup b.header.prevHash)
        (rewound.forked S cfg fork).utxos none
        (rewound.forked S cfg fork).network).valid = true :=
      hvalid fork b [] rfl _
    simp only [tipBlockError, hok, Bool.true_eq_false, if_false]
  have htiptarget : (rewound.forked S cfg fork).tipTargetError q.height fork b = none := by
    simp only [tipTargetError, htarget fork b [] rfl, map_none, ite_self]
  simp only [reorganize, htip, Nat.add_sub_cancel_left, hdisc, bind_eq_bind,
    bind_some, hcollect', hcon, htipvalid, htiptarget, or_none, commitReorg, htop]
  exact ⟨_, _, rfl⟩

/-! ## 3. Calls of `add_block` -/

theorem Admitted.refusal_eq_none {ctx : CallContext G} (h : Admitted S cfg ctx st b) :
    st.refusal S cfg ctx b = none := by
  have hparent : ¬((st.getBlock b.header.prevHash).isNone ∧ 0 < b.height) ∧
      b.height = expectedHeight b (st.getBlock b.header.prevHash) := by
    rcases h.parent with h0 | ⟨p, hp, hheight⟩
    · refine ⟨fun hn => by omega, ?_⟩
      rw [expectedHeight, if_pos h0]
      exact h0
    · refine ⟨fun hn => by simp [hp] at hn, ?_⟩
      rw [expectedHeight, if_neg (by omega), hp]
      exact hheight
  simp only [refusal, h.unknown, isSome_none, Bool.false_eq_true, if_false, hparent.1,
    ← hparent.2, ne_eq, not_true_eq_false, h.checkpoint, h.valid, Bool.true_eq_false, h.mtp,
    h.target]

section

variable (h : Admitted S cfg (ctx 0) st b)
include h

theorem Admitted.addBlock_extends (hmain : st.isMainChain b = true)
    (hsupply : st.stats.totalSupply + (calculateBlockReward b.height).val < 2 ^ 128)
    (hburned : st.stats.totalBurned + blockFeeBurn S cfg.build b < 2 ^ 128) :
    ∃ st', st.addBlock S cfg ctx b = some (st', .ok .accepted) := by
  have hsupply' : checkedAddU128 (st.storeBlock S b).stats.totalSupply
      (calculateBlockReward b.height).val = _ := checkedAddU128_of_lt hsupply
  have hburned' : checkedAddU128 (st.storeBlock S b).stats.totalBurned
      (blockFeeBurn S cfg.build b) = _ := checkedAddU128_of_lt hburned
  simp only [addBlock, h.refusal_eq_none, hmain, if_true, extendTip, hsupply', hburned',
    bind_eq_bind, bind_some, map_some]
  exact ⟨_, rfl⟩

theorem Admitted.addBlock_keeps
    (hmain : st.isMainChain b = false) (htake : (st.storeBlock S b).takeFork S b = false) :
    st.addBlock S cfg ctx b = some (st.storeBlock S b, .ok .acceptedFork) := by
  simp only [addBlock, h.refusal_eq_none, hmain, Bool.false_eq_true, if_false, evaluateFork, htake]

theorem Admitted.addBlock_reorganizes {status : BlockStatus G}
    (hmain : st.isMainChain b = false) (htake : (st.storeBlock S b).takeFork S b = true)
    (hpoint : (st.storeBlock S b).findForkPoint S b = some forkPoint)
    (haccept : evaluateReorgAcceptability (b.height - forkPoint)
      ((st.storeBlock S b).calculateForkCumulativeWork b) st.stats.totalDifficulty st.tip.height
      st.maxReorgDepth = .ok ()) (hfloor : st.finalityFloor ≤ forkPoint)
    (hre : (st.storeBlock S b).reorganize S cfg ctx b forkPoint = some (st', status)) :
    st.addBlock S cfg ctx b = some (st', .ok status) := by
  have haccept' : evaluateReorgAcceptability (b.height - forkPoint)
      ((st.storeBlock S b).calculateForkCumulativeWork b) (st.storeBlock S b).stats.totalDifficulty
      (st.storeBlock S b).tip.height (st.storeBlock S b).maxReorgDepth = .ok () := haccept
  have hfloor' : ¬(0 < (st.storeBlock S b).finalityFloor ∧
      forkPoint < (st.storeBlock S b).finalityFloor) := by
    change ¬(0 < st.finalityFloor ∧ forkPoint < st.finalityFloor)
    omega
  simp only [addBlock, h.refusal_eq_none, hmain, Bool.false_eq_true, if_false, evaluateFork, htake,
    if_true, hpoint, haccept', hfloor', hre, map_some]

end

omit [AddCommGroup G] [DecidableEq G] in
theorem evaluateReorgAcceptability_of_le {depth forkWork honestWork : Nat}
    (hdepth : depth ≤ reorgUnconditionalDepth) (hwork : honestWork ≤ forkWork) :
    evaluateReorgAcceptability depth forkWork honestWork st.tip.height st.maxReorgDepth =
      .ok () := by
  have hmax : ¬st.maxReorgDepth < depth := by
    have hten : reorgUnconditionalDepth = 10 := rfl
    unfold maxReorgDepth
    split
    · omega
    · omega
    · omega
  rw [evaluateReorgAcceptability, if_neg hmax, if_pos hdepth, if_pos hwork]

end Blockchain

end Coincync
