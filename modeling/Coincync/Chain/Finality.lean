/-
# Finality

The node draws the line below which nothing changes in two places.  A reorganisation must leave
the chain at or above the FINALITY FLOOR, the last multiple of 144 at or below the tip.  A rollback
must not go below the checkpoint height in the chain state record, which only an EXTENSION of the
tip moves forward.  As long as the two agree, the blocks at and below the floor are there to stay
(`Settled.step`; for whole runs `final_of_reaches` in `Coincync.Chain.Steady`).
-/
import Coincync.Chain.Progress
import Coincync.Chain.Runs

namespace Coincync

open Lib Option

variable {F G : Type} [Field F] [AddCommGroup G] [Module F G]

namespace Blockchain

variable {S : Suite F G} {cfg : NodeConfig} {st st' : Blockchain G} {d d' : Database G}
  {chain above above' below : List (Block G)} {q : Block G}

/-! ## 1. The checkpoint on disk -/

omit [AddCommGroup G] in
theorem rollbackFloor_eq (h : st.db = some d) : st.rollbackFloor = d.lastCheckpoint := by
  rw [rollbackFloor, h]
  rfl

theorem db_disconnectAt {h : Nat} (hst : st.disconnectAt S cfg h = some st') : st'.db = st.db := by
  unfold disconnectAt at hst
  split at hst
  · rw [← Option.some.inj hst]
  · simp only [bind_eq_bind, bind_eq_some_iff, Option.some.injEq] at hst
    obtain ⟨supply, -, burned, -, rfl⟩ := hst
    rfl

theorem db_disconnectAbove {target : Nat} : ∀ {n : Nat} {st st' : Blockchain G}
    {disconnected : Disconnected G},
    disconnectAbove S cfg target n st = some (st', disconnected) → st'.db = st.db
  | 0, _, _, _, h => by rw [(Prod.mk.inj (Option.some.inj h)).1]
  | n + 1, st, st', _, h => by
    simp only [disconnectAbove, bind_eq_bind, bind_eq_some_iff, Option.some.injEq,
      Prod.exists, Prod.mk.injEq] at h
    obtain ⟨st₁, h₁, st₂, disconnected, h₂, rfl, -⟩ := h
    rw [db_disconnectAbove h₂, db_disconnectAt h₁]

omit [AddCommGroup G] in
theorem db_resetTip (st : Blockchain G) (target : Nat) : (st.resetTip target).db = st.db := by
  unfold resetTip
  split
  · rfl
  · split
    · split_ifs
      · rfl
      · rfl
    · rfl

theorem rollbackFloor_rollback {target : Nat} {res : Except ChainError (List (Transaction G))}
    (h : st.rollbackToHeight S cfg target = some (st', res)) :
    st'.rollbackFloor = st.rollbackFloor := by
  unfold rollbackToHeight at h
  split_ifs at h with htip hfloor
  · rw [(Prod.mk.inj (Option.some.inj h)).1]
  · rw [(Prod.mk.inj (Option.some.inj h)).1]
  · simp only [bind_eq_bind, bind_eq_some_iff, Option.some.injEq, Prod.exists,
      Prod.mk.injEq] at h
    obtain ⟨rewound, disconnected, hd, rfl, -⟩ := h
    have hdb : (rewound.resetTip target).db = st.db := by
      rw [db_resetTip, db_disconnectAbove hd]
    simp only [rollbackFloor, persistRollback, modifyDb, hdb, map_map]
    cases st.db with
    | none => rfl
    | some d => rfl

/-! ## 2. What a step leaves alone -/

theorem Canonical.getBlockHash_common (hc : Canonical S st d (above ++ q :: below))
    (hc' : Canonical S st' d' (above' ++ q :: below)) {k : Nat} (hk : k ≤ q.height) :
    st'.getBlockHash k = st.getBlockHash k := by
  have hmem : ∀ {st : Blockchain G} {d : Database G} {above : List (Block G)},
      Canonical S st d (above ++ q :: below) → ∀ x, st.getBlockHash k = some x ↔
        ∃ c ∈ q :: below, c.height = k ∧ c.hash S = x := by
    intro st d above hc x
    have htip := hc.tip_height_eq rfl
    rw [hc.getBlockHash_eq (by omega), hc.index]
    constructor
    · rintro ⟨c, hcmem, rfl, rfl⟩
      rcases List.mem_append.mp hcmem with hcmem | hcmem
      · have hlt : q.height < c.height := hc.lineage.height_above above c hcmem
        omega
      · exact ⟨c, hcmem, rfl, rfl⟩
    · rintro ⟨c, hcmem, hck⟩
      exact ⟨c, List.mem_append_right _ hcmem, hck⟩
  refine Option.ext fun x => ?_
  rw [hmem hc' x, hmem hc x]

variable [DecidableEq F] [DecidableEq G] {a : Action G} {chain' : List (Block G)}

/-- **A step leaves the chain alone up to the finality floor.** -/
theorem ActionStep.common (hc : Canonical S st d chain)
    (h : ActionStep S cfg st d chain a st' chain') : ∃ above above' q below,
      chain = above ++ q :: below ∧ chain' = above' ++ q :: below ∧ st.finalityFloor ≤ q.height := by
  obtain ⟨t, rest, hchain, -, htip⟩ := hc.tip
  have hfloor : st.finalityFloor ≤ t.height := by
    rw [finalityFloor, htip]
    exact Nat.sub_le _ _
  cases h with
  | idle | restarted => exact ⟨[], [], t, rest, hchain, hchain, hfloor⟩
  | rolledBack _ hsplit hq _ => exact ⟨_, [], _, _, hsplit, rfl, hq⟩
  | @add _ b _ _ _ hstep =>
    cases hstep with
    | refused | kept | failed => exact ⟨[], [], t, rest, hchain, hchain, hfloor⟩
    | extended => exact ⟨[], [b], t, rest, hchain, by rw [hchain]; rfl, hfloor⟩
    | @committed _ above below fork q _ _ _ hbr _ =>
      exact ⟨above, b :: fork.reverse, q, below, hbr.chain_eq, rfl, hbr.floor⟩

variable {ctx : Nat → CallContext G}

/-- **An accepted reorganisation leaves the chain at or above the finality floor.** -/
theorem forkPoint_of_acceptedReorg {b : Block G} {orphaned : List (Transaction G)}
    (h : st.addBlock S cfg ctx b = some (st', .ok (.acceptedReorg orphaned))) :
    Admitted S cfg (ctx 0) st b ∧ st.isMainChain b = false ∧
      (st.storeBlock S b).takeFork S b = true ∧
      ∃ forkPoint, (st.storeBlock S b).findForkPoint S b = some forkPoint ∧
        st.finalityFloor ≤ forkPoint := by
  cases addBlock_step h with
  | refused _ hq => exact hq.elim
  | kept _ _ _ hq => exact hq.elim
  | reorganized forkPoint hadm hmain htake hpoint hfloor _ =>
    exact ⟨hadm, hmain, htake, forkPoint, hpoint, hfloor⟩

variable {res : Except ChainError (BlockStatus G)}

omit [AddCommGroup G] [DecidableEq G] in
theorem Quiet.ne_accepted (h : Quiet res) :
    res ≠ .ok .accepted := by
  rintro rfl
  exact h

/-- **Only an extension moves the checkpoint**, and only to a multiple of 144. -/
theorem ChainStep.rollbackFloor_eq {b : Block G}
    (hc : Canonical S st d chain) (h : ChainStep S cfg ctx st chain b st' res chain') :
    st'.rollbackFloor = if res = .ok .accepted ∧ b.height % checkpointInterval = 0 then b.height
      else st.rollbackFloor := by
  have hstore : Admitted S cfg (ctx 0) st b →
      (st.storeBlock S b).rollbackFloor = st.rollbackFloor := fun hadm => by
    rw [Blockchain.rollbackFloor_eq (hc.store hadm).db, Blockchain.rollbackFloor_eq hc.db]
    rfl
  cases h with
  | refused status hq => rw [if_neg fun h => hq.ne_accepted h.1]
  | kept _ hadm hq => rw [if_neg fun h => hq.ne_accepted h.1, hstore hadm]
  | failed _ hadm _ _ _ hre =>
    cases hre
    rw [if_neg (by rintro ⟨⟨⟩, -⟩)]
    exact hstore hadm
  | extended hadm _ hext =>
    have hdb := (extends_of_eq_some hext).db
    rw [(hc.store hadm).db, map_some] at hdb
    have h0 := hc.admitted_height hadm
    rw [Blockchain.rollbackFloor_eq hdb, Blockchain.rollbackFloor_eq hc.db]
    simp only [h0, true_and]
    rfl
  | committed _ hadm _ _ hre =>
    cases hre with
    | committed _ _ _ hconnected hcommit =>
      have hdb := (commits_of_eq_some hcommit).db
      rw [hconnected] at hdb
      change st'.db = (st.storeBlock S b).db.map _ at hdb
      rw [(hc.store hadm).db, map_some] at hdb
      rw [if_neg (by rintro ⟨⟨⟩, -⟩), Blockchain.rollbackFloor_eq hdb,
        Blockchain.rollbackFloor_eq hc.db]
      rfl

/-! ## 3. Runs -/

/-- **The condition on a step**: no height above the tip is mapped when a block arrives or a
rollback does something, and a block that wins a reorganisation does not take the tip across a
multiple of 144. -/
def FloorStep (S : Suite F G) (cfg : NodeConfig) (st : Blockchain G) : Action G → Prop
  | .add ctx b => st.NoStale ∧ (Admitted S cfg (ctx 0) st b → st.isMainChain b = false →
      (st.storeBlock S b).takeFork S b = true →
      b.height / checkpointInterval ≤ st.tip.height / checkpointInterval)
  | .rollback target => st.RollbackIdle target ∨ st.NoStale
  | .restart => True

theorem FloorStep.allowed (ha : FloorStep S cfg st a)
    (hfloor : st.rollbackFloor = st.finalityFloor) : st.Allowed a := by
  cases a with
  | add ctx b => exact ha.1
  | rollback target =>
    refine or_iff_not_imp_left.mpr fun hidle => ⟨ha.resolve_left hidle, ?_⟩
    unfold RollbackIdle at hidle
    omega
  | restart => trivial

/-- **The floors still agree after the step, and have not moved down.** -/
theorem Canonical.floors (hc : Canonical S st d chain)
    (hfloor : st.rollbackFloor = st.finalityFloor) (ha : FloorStep S cfg st a)
    (h : st.step S cfg a = some st') :
    st'.rollbackFloor = st'.finalityFloor ∧ st.finalityFloor ≤ st'.finalityFloor := by
  have hallowed := ha.allowed hfloor
  cases a with
  | restart =>
    obtain ⟨s, hre⟩ := hc.restarts (hc.restart_of_start h)
    rw [rollbackFloor_eq hre.db, ← rollbackFloor_eq hc.db, hfloor, finalityFloor, finalityFloor,
      hre.tip_height]
    exact ⟨rfl, le_rfl⟩
  | rollback target =>
    obtain ⟨⟨st₁, res⟩, hroll, rfl⟩ := map_eq_some_iff.mp h
    have hkeep := rollbackFloor_rollback hroll
    rw [hfloor] at hkeep
    obtain ⟨chain', hstep⟩ := hc.actionStep hallowed h
    cases hstep with
    | idle => exact ⟨hkeep, le_rfl⟩
    | rolledBack hidle hchain hq hrolls =>
      have hsame := (hc.rolledBack (hallowed.resolve_left hidle).1 hchain hq hrolls).2.2
      exact ⟨hkeep.trans hsame.symm, hsame.ge⟩
  | add ctx b =>
    obtain ⟨⟨st₁, res⟩, hadd, rfl⟩ := map_eq_some_iff.mp h
    obtain ⟨chain', hstep⟩ := hc.chainStep ha.1 hadd
    have hnew := hstep.rollbackFloor_eq hc
    rw [hfloor] at hnew
    change st₁.rollbackFloor = st₁.finalityFloor ∧ st.finalityFloor ≤ st₁.finalityFloor
    rw [hnew]
    cases hstep with
    | refused status hq =>
      rw [if_neg fun h => hq.ne_accepted h.1]
      exact ⟨rfl, le_rfl⟩
    | kept _ hadm hq =>
      rw [if_neg fun h => hq.ne_accepted h.1]
      exact ⟨rfl, le_rfl⟩
    | failed _ hadm _ _ _ hre =>
      cases hre
      rw [if_neg (by rintro ⟨⟨⟩, -⟩)]
      exact ⟨rfl, le_rfl⟩
    | extended hadm hlin hext =>
      -- the checkpoint moves with the floor: at a multiple of 144, to the new height
      have htip : st₁.tip.height = b.height := by
        rw [(extends_of_eq_some hext).tip]
        rfl
      have hheight : b.height = st.tip.height + 1 := by
        obtain ⟨p, rest, -, hl, -, heq⟩ := hc.arrival hadm
        rw [← heq, hlin] at hl
        have hlen := hl.length_eq
        rw [hc.length_chain] at hlen
        exact hlen.symm
      simp only [finalityFloor, htip, hheight, checkpointInterval, true_and]
      split_ifs with hmul
      · omega
      · omega
    | committed orphaned hadm _ hbr hre =>
      -- the checkpoint stays, and so does the floor: old and new tip are in one interval
      obtain ⟨-, hmain, htake, -⟩ := forkPoint_of_acceptedReorg hadd
      have hcross := ha.2 hadm hmain htake
      have hup := (hbr.lt_of_mem b (by simp)).1
      have hq := hbr.floor
      have htip : st₁.tip.height = b.height := by
        cases hre with
        | committed _ _ _ _ hcommit =>
          rw [(commits_of_eq_some hcommit).tip]
          rfl
      rw [if_neg (by rintro ⟨⟨⟩, -⟩)]
      simp only [finalityFloor, htip, checkpointInterval] at hcross hq ⊢
      omega

/-- The invariant of a run. -/
def Settled (S : Suite F G) (st : Blockchain G) : Prop :=
  ∃ d chain, Canonical S st d chain ∧ st.rollbackFloor = st.finalityFloor

/-- **One step**: the invariant is kept, the floor does not move down, and the hashes up to the
floor stay. -/
theorem Settled.step (hs : Settled S st) (ha : FloorStep S cfg st a)
    (h : st.step S cfg a = some st') : Settled S st' ∧ st.finalityFloor ≤ st'.finalityFloor ∧
      ∀ k ≤ st.finalityFloor, st'.getBlockHash k = st.getBlockHash k := by
  obtain ⟨d, chain, hc, hfloor⟩ := hs
  have hallowed := ha.allowed hfloor
  obtain ⟨chain', hstep⟩ := hc.actionStep hallowed h
  obtain ⟨d', hc'⟩ := hstep.canonical hc hallowed
  obtain ⟨hfloor', hle⟩ := hc.floors hfloor ha h
  obtain ⟨above, above', q, below, rfl, rfl, hq⟩ := hstep.common hc
  exact ⟨⟨d', _, hc', hfloor'⟩, hle, fun k hk => hc.getBlockHash_common hc' (hk.trans hq)⟩

/-! ## 4. A rollback that goes through -/

omit [DecidableEq F] [DecidableEq G] in
/-- **A rollback above the checkpoint goes through** where the blocks it disconnects are in memory,
whatever the finality floor: the heights above its target have no hash any more. -/
theorem Canonical.rollback_of_cached (hc : Canonical S st d (above ++ q :: below))
    (hs : st.NoStale) (habove : above ≠ []) (hcached : Cached S st above)
    (hfloor : st.rollbackFloor ≤ q.height) (hsupply : emission above ≤ st.stats.totalSupply)
    (hburned : burnOf S cfg.build above ≤ st.stats.totalBurned) :
    ∃ st' txs, st.rollbackToHeight S cfg q.height = some (st', .ok txs) ∧
      st'.tip.height = q.height ∧ ∀ k, q.height < k → st'.getBlockHash k = none := by
  have htip := hc.tip_height_eq rfl
  have hpos : 0 < above.length := List.length_pos_iff.mpr habove
  have hdisc := disconnectAbove_eq_rewound hc.lineage hcached hsupply hburned
  set rewound := st.rewound S cfg above
  have hroll : st.rollbackToHeight S cfg q.height =
      some ((rewound.resetTip q.height).persistRollback q.height,
        .ok ((above.map Block.transactions).flatten.filter fun tx => !tx.isCoinbase)) := by
    rw [rollbackToHeight, if_neg (by omega), if_neg (by omega), htip, Nat.add_sub_cancel_left, hdisc]
    rfl
  have hmapped : q.height ∉ above.map Block.height := by
    intro hmem
    obtain ⟨x, hx, heq⟩ := List.mem_map.mp hmem
    have hlt : q.height < x.height := hc.lineage.height_above above x hx
    omega
  have hhash : rewound.getBlockHash q.height = some (q.hash S) := by
    change ((Map.eraseAll (above.map Block.height) st.heightToHash).lookup q.height).or _ = _
    rw [Map.lookup_eraseAll, if_neg hmapped]
    change st.getBlockHash q.height = some (q.hash S)
    rw [hc.getBlockHash_eq (by omega)]
    exact (hc.index _ _).mpr ⟨q, List.mem_append_right _ (.head _), rfl, rfl⟩
  have hreset : (rewound.resetTip q.height).tip.height = q.height ∧
      (rewound.resetTip q.height).heightToHash =
        Map.eraseAll (above.map Block.height) st.heightToHash := by
    rw [resetTip, hhash]
    refine ⟨?_, rfl⟩
    dsimp only
    split
    · rfl
    · rfl
  refine ⟨_, _, hroll, hreset.1, fun k hk => ?_⟩
  have hindex : (((rewound.resetTip q.height).persistRollback q.height).db.bind
      fun d => d.heightIndex.lookup k) = none := by
    simp only [persistRollback, modifyDb, db_resetTip]
    change (st.db.map _).bind _ = none
    rw [hc.db, map_some, bind_some]
    change (Map.retain (fun h _ => decide (h ≤ q.height)) d.heightIndex).lookup k = none
    rw [Map.lookup_retain]
    refine filter_eq_none_iff.mpr fun x _ => ?_
    rw [decide_eq_true_iff]
    omega
  rw [getBlockHash, hindex, or_none]
  change (rewound.resetTip q.height).heightToHash.lookup k = none
  rw [hreset.2, Map.lookup_eraseAll]
  split_ifs with hmem
  · rfl
  · refine hs.lookup ?_
    by_contra hle
    exact hmem (mem_above_heights hc.lineage htip hk (by omega))

end Blockchain

end Coincync
