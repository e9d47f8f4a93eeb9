/-
# A node with soft finality

`add_block` of `src/chain.rs` in a build with the rolling-finality adapter wired.  The adapter
enters in two places.  An EXTENSION of the tip at or above the enable height is fed to the tracker;
a block that is connected by a reorganisation is not, and nothing is taken back for one that is
disconnected.  And a reorganisation that passed the depth rules is refused, from the enforce height
on, if its fork point is at or below the soft-final height.
-/
import Coincync.Chain.Pace
import Coincync.RollingFinality.Adapter

namespace Coincync

open Lib RollingFinality Blockchain List Option

/-! ## 1. The adapter in `add_block` -/

def rollingFinalityEnableHeight (build : BuildConfig) : Nat :=
  if build.testnet = true then 50000 else 25000

def rollingFinalityEnforceHeight (build : BuildConfig) : Nat :=
  if build.testnet = true then 75000 else 50000

section

variable {G : Type}

/-- The `extra` field that is searched: that of the first transaction, if it is a coinbase. -/
def Block.coinbaseExtra (b : Block G) : Bytes :=
  match b.transactions.head? with
  | some tx => if tx.isCoinbase = true then tx.extra else []
  | none => []

/-- The attestation that the tracker gets from a block. -/
def Block.attestation (build : BuildConfig) (b : Block G) : Option FinalityAttestation :=
  if rollingFinalityEnableHeight build ≤ b.height then attestationIn b.coinbaseExtra else none

/-- What a block that extends the tip does to the tracker, and what is heard of it. -/
def acceptBlock (build : BuildConfig) (verify : FinalityAttestation → Bool) (t : FinalityTracker)
    (b : Block G) : FinalityTracker × List OnBlockOutcome :=
  if rollingFinalityEnableHeight build ≤ b.height then
    let (t', outcome) := t.onAcceptedBlock verify b.height b.coinbaseExtra
    (t', [outcome])
  else (t, [])

/-- **A tracker that is fed a chain in height order.** -/
def replay (build : BuildConfig) (verify : FinalityAttestation → Bool) (t : FinalityTracker)
    (chain : List (Block G)) : FinalityTracker :=
  chain.foldr (fun b t => (acceptBlock build verify t b).1) t

/-- The last height that became soft-final, with the hash that was attested to there. -/
def lastFinalized (log : List OnBlockOutcome) : Option (Nat × BlockHash) :=
  log.findSome? fun
    | .newlyFinalized height hash => some (height, hash)
    | _ => none

/-- **A node with the adapter.**  The outcomes of `on_accepted_block`, newest first, are on record
here only; the node ignores them. -/
structure SoftNode (G : Type) where
  chain : Blockchain G
  tracker : FinalityTracker
  log : List OnBlockOutcome

variable {build : BuildConfig} {verify : FinalityAttestation → Bool} {t : FinalityTracker}
  {b : Block G}

theorem acceptBlock_of_none (h : b.attestation build = none) :
    (acceptBlock build verify t b).1 = t := by
  unfold Block.attestation at h
  unfold acceptBlock
  split_ifs at h ⊢ with henabled
  · exact (FinalityTracker.onAcceptedBlock_of_none h).1
  · rfl

theorem replay_append_of_none {above below : List (Block G)}
    (h : ∀ x ∈ above, x.attestation build = none) :
    replay build verify t (above ++ below) = replay build verify t below := by
  induction above with
  | nil => rfl
  | cons x above ih =>
    have htail := ih fun y hy => h y (.tail _ hy)
    change (acceptBlock build verify (replay build verify t (above ++ below)) x).1 = _
    rw [acceptBlock_of_none (h x mem_cons_self), htail]

/-- **What a block does to the soft-final height**: nothing, or it moves to what the block attests
to. -/
theorem acceptBlock_softFinalHeight (build : BuildConfig) (verify : FinalityAttestation → Bool)
    (t : FinalityTracker) (b : Block G) (log : List OnBlockOutcome) :
    (acceptBlock build verify t b).1.softFinalHeight = t.softFinalHeight ∧
        lastFinalized ((acceptBlock build verify t b).2 ++ log) = lastFinalized log ∨
      ∃ a, b.attestation build = some a ∧
        (acceptBlock build verify t b).1.softFinalHeight = some a.targetHeight ∧
        lastFinalized ((acceptBlock build verify t b).2 ++ log) =
          some (a.targetHeight, a.targetHash) := by
  unfold Block.attestation acceptBlock
  split_ifs with henabled
  · rcases t.onAcceptedBlock_softFinalHeight verify b.height b.coinbaseExtra with
      ⟨hsame, hnot⟩ | ⟨a, ha, hheight, houtcome⟩
    · refine .inl ⟨hsame, ?_⟩
      change lastFinalized ((t.onAcceptedBlock verify b.height b.coinbaseExtra).2 :: log) = _
      generalize (t.onAcceptedBlock verify b.height b.coinbaseExtra).2 = outcome at hnot
      cases outcome with
      | newlyFinalized height hash => exact absurd rfl (hnot height hash)
      | noAttestation => rfl
      | malformed e => rfl
      | rejected e => rfl
      | recorded => rfl
    · refine .inr ⟨a, ha, hheight, ?_⟩
      change lastFinalized ((t.onAcceptedBlock verify b.height b.coinbaseExtra).2 :: log) = _
      rw [houtcome]
      rfl
  · exact .inl ⟨rfl, rfl⟩

end

variable {F G : Type} [Field F] [AddCommGroup G] [Module F G] (S : Suite F G)
  [DecidableEq F] [DecidableEq G]

namespace SoftNode

variable (n : SoftNode G)

/-- The fork branch of `add_block`, with the gate after the depth rules. -/
def evaluateFork (cfg : NodeConfig) (ctx : Nat → CallContext G) (b : Block G) :
    Option (Blockchain G × Except ChainError (BlockStatus G)) :=
  let st := n.chain
  if st.takeFork S b = true then
    match st.findForkPoint S b with
    | none => some (st, .error .corruption)
    | some forkPoint =>
      let depth := b.height - forkPoint
      match evaluateReorgAcceptability depth (st.calculateForkCumulativeWork b)
          st.stats.totalDifficulty st.tip.height st.maxReorgDepth with
      | .error _ => some (st, .error (.reorgTooDeep depth st.maxReorgDepth))
      | .ok () =>
        if rollingFinalityEnforceHeight cfg.build ≤ b.height ∧
            n.tracker.wouldReorgViolateFinality forkPoint = true then
          let softFinal := n.tracker.softFinalHeight.getD 0
          some (st, .error (.reorgTooDeep depth (b.height - softFinal - 1)))
        else if 0 < st.finalityFloor ∧ forkPoint < st.finalityFloor then
          some (st, .ok (.invalid (.finality forkPoint st.finalityFloor)))
        else (st.reorganize S cfg ctx b forkPoint).map fun r => (r.1, .ok r.2)
  else some (st, .ok .acceptedFork)

/-- **`add_block` with soft finality enabled.** -/
def addBlock (cfg : NodeConfig) (verify : FinalityAttestation → Bool) (ctx : Nat → CallContext G)
    (b : Block G) : Option (SoftNode G × Except ChainError (BlockStatus G)) :=
  match n.chain.refusal S cfg (ctx 0) b with
  | some status => some (n, .ok status)
  | none =>
    let stored := { n with chain := n.chain.storeBlock S b }
    if n.chain.isMainChain b = true then
      (stored.chain.extendTip S cfg b).map fun extended =>
        let (tracker, heard) := acceptBlock cfg.build verify n.tracker b
        (⟨extended, tracker, heard ++ n.log⟩, .ok .accepted)
    else (stored.evaluateFork S cfg ctx b).map fun r => ({ n with chain := r.1 }, r.2)

/-- A call of `add_block`. -/
def step (cfg : NodeConfig) (verify : FinalityAttestation → Bool) (n : SoftNode G)
    (call : (Nat → CallContext G) × Block G) : Option (SoftNode G) :=
  (n.addBlock S cfg verify call.1 call.2).map Prod.fst

/-! ## 2. What the gate does -/

/-- **The gate refuses a reorganisation**: the block was admitted on a side chain that would win,
the depth rules let it pass, and the fork point is not above the soft-final height. -/
structure Refuses (cfg : NodeConfig) (ctx : Nat → CallContext G) (b : Block G) (forkPoint : Nat) :
    Prop where
  admitted : n.chain.refusal S cfg (ctx 0) b = none
  side : n.chain.isMainChain b = false
  takes : (n.chain.storeBlock S b).takeFork S b = true
  point : (n.chain.storeBlock S b).findForkPoint S b = some forkPoint
  acceptable : evaluateReorgAcceptability (b.height - forkPoint)
    ((n.chain.storeBlock S b).calculateForkCumulativeWork b) n.chain.stats.totalDifficulty
    n.chain.tip.height n.chain.maxReorgDepth = .ok ()
  enforced : rollingFinalityEnforceHeight cfg.build ≤ b.height
  violates : n.tracker.wouldReorgViolateFinality forkPoint = true

variable {S n} {n' : SoftNode G} {cfg : NodeConfig} {verify : FinalityAttestation → Bool}
  {ctx : Nat → CallContext G} {b : Block G} {res : Except ChainError (BlockStatus G)}
  {st' : Blockchain G}

theorem Refuses.addBlock_eq {forkPoint : Nat} (h : n.Refuses S cfg ctx b forkPoint)
    (verify : FinalityAttestation → Bool) :
    n.addBlock S cfg verify ctx b = some ({ n with chain := n.chain.storeBlock S b },
      .error (.reorgTooDeep (b.height - forkPoint)
        (b.height - n.tracker.softFinalHeight.getD 0 - 1))) := by
  have haccept := h.acceptable
  simp only [addBlock, h.admitted, h.side, Bool.false_eq_true, if_false, evaluateFork, h.takes,
    if_true, h.point]
  change Option.map _ (match evaluateReorgAcceptability (b.height - forkPoint)
    ((n.chain.storeBlock S b).calculateForkCumulativeWork b) n.chain.stats.totalDifficulty
    n.chain.tip.height n.chain.maxReorgDepth with
    | .error _ => _
    | .ok () => _) = _
  rw [haccept]
  simp only [h.enforced, h.violates, and_self, if_true, map_some]

theorem evaluateFork_cases (h : n.evaluateFork S cfg ctx b = some (st', res)) :
    (∃ forkPoint, n.chain.takeFork S b = true ∧ n.chain.findForkPoint S b = some forkPoint ∧
        evaluateReorgAcceptability (b.height - forkPoint) (n.chain.calculateForkCumulativeWork b)
          n.chain.stats.totalDifficulty n.chain.tip.height n.chain.maxReorgDepth = .ok () ∧
        rollingFinalityEnforceHeight cfg.build ≤ b.height ∧
        n.tracker.wouldReorgViolateFinality forkPoint = true ∧ st' = n.chain ∧
        ∃ e, res = .error e) ∨
      n.chain.evaluateFork S cfg ctx b = some (st', res) ∧ res ≠ .ok .accepted ∧
        ∀ forkPoint, n.chain.findForkPoint S b = some forkPoint →
          (∃ orphaned, res = .ok (.acceptedReorg orphaned)) →
          rollingFinalityEnforceHeight cfg.build ≤ b.height →
          n.tracker.wouldReorgViolateFinality forkPoint = false := by
  simp only [evaluateFork] at h
  simp only [Blockchain.evaluateFork]
  by_cases htake : n.chain.takeFork S b = true
  · rw [if_pos htake] at h ⊢
    cases hpoint : n.chain.findForkPoint S b with
    | none =>
      simp only [hpoint] at h
      cases h
      refine .inr ⟨rfl, by rintro ⟨⟩, ?_⟩
      rintro _ ⟨⟩
    | some forkPoint =>
      simp only [hpoint] at h
      cases haccept : evaluateReorgAcceptability (b.height - forkPoint)
          (n.chain.calculateForkCumulativeWork b) n.chain.stats.totalDifficulty n.chain.tip.height
          n.chain.maxReorgDepth with
      | error e =>
        simp only [haccept] at h
        cases h
        refine .inr ⟨by simp only [haccept], by rintro ⟨⟩, ?_⟩
        rintro _ _ ⟨_, ⟨⟩⟩
      | ok u =>
        simp only [haccept] at h
        by_cases hgate : rollingFinalityEnforceHeight cfg.build ≤ b.height ∧
            n.tracker.wouldReorgViolateFinality forkPoint = true
        · rw [if_pos hgate] at h
          cases h
          exact .inl ⟨forkPoint, htake, rfl, haccept, hgate.1, hgate.2, rfl, _, rfl⟩
        · rw [if_neg hgate] at h
          refine .inr ⟨by simp only [haccept]; exact h, ?_, ?_⟩
          · -- a reorganisation never answers "accepted"
            split_ifs at h
            · cases h
              rintro ⟨⟩
            · obtain ⟨⟨st₁, status⟩, hre, heq⟩ := map_eq_some_iff.mp h
              cases heq
              rcases Blockchain.reorganize_status hre with ⟨e, rfl⟩ | ⟨orphaned, rfl⟩
              · rintro ⟨⟩
              · rintro ⟨⟩
          · rintro _ ⟨⟩ _ henforced
            by_contra hviolates
            exact hgate ⟨henforced, by simpa using hviolates⟩
  · rw [if_neg htake] at h ⊢
    cases h
    refine .inr ⟨rfl, by rintro ⟨⟩, ?_⟩
    rintro _ _ ⟨_, ⟨⟩⟩

/-- **A call is one without the gate, or is refused by it.** -/
theorem addBlock_cases (h : n.addBlock S cfg verify ctx b = some (n', res)) :
    (∃ forkPoint, n.Refuses S cfg ctx b forkPoint ∧
        n' = { n with chain := n.chain.storeBlock S b } ∧ ∃ e, res = .error e) ∨
      n.chain.addBlock S cfg ctx b = some (n'.chain, res) ∧
        (res = .ok .accepted ∧ n.chain.isMainChain b = true ∧
            n'.tracker = (acceptBlock cfg.build verify n.tracker b).1 ∧
            n'.log = (acceptBlock cfg.build verify n.tracker b).2 ++ n.log ∨
          res ≠ .ok .accepted ∧ n'.tracker = n.tracker ∧ n'.log = n.log) ∧
        ∀ forkPoint, (n.chain.storeBlock S b).findForkPoint S b = some forkPoint →
          (∃ orphaned, res = .ok (.acceptedReorg orphaned)) →
          rollingFinalityEnforceHeight cfg.build ≤ b.height →
          n.tracker.wouldReorgViolateFinality forkPoint = false := by
  cases hrefusal : n.chain.refusal S cfg (ctx 0) b with
  | some status =>
    have hquiet := Blockchain.quiet_of_refusal hrefusal
    simp only [addBlock, hrefusal] at h
    cases h
    refine .inr ⟨by simp only [Blockchain.addBlock, hrefusal], .inr ⟨?_, rfl, rfl⟩, ?_⟩
    · rintro ⟨⟩
      exact hquiet
    · rintro _ _ ⟨_, ⟨⟩⟩
      exact hquiet.elim
  | none =>
    simp only [addBlock, hrefusal] at h
    by_cases hmain : n.chain.isMainChain b = true
    · rw [if_pos hmain] at h
      obtain ⟨extended, hext, heq⟩ := map_eq_some_iff.mp h
      cases heq
      refine .inr ⟨?_, .inl ⟨rfl, hmain, rfl, rfl⟩, ?_⟩
      · simp only [Blockchain.addBlock, hrefusal, hmain, if_true, hext, map_some]
      · rintro _ _ ⟨_, ⟨⟩⟩
    · rw [if_neg hmain] at h
      obtain ⟨⟨st', res'⟩, hfork, heq⟩ := map_eq_some_iff.mp h
      cases heq
      rcases evaluateFork_cases hfork with
        ⟨forkPoint, htake, hpoint, haccept, henforced, hviolates, rfl, e, rfl⟩ |
        ⟨hsame, hnot, hpass⟩
      · exact .inl ⟨forkPoint, ⟨hrefusal, by simpa using hmain, htake, hpoint, haccept, henforced,
          hviolates⟩, rfl, e, rfl⟩
      · refine .inr ⟨?_, .inr ⟨hnot, rfl, rfl⟩, hpass⟩
        simp only [Blockchain.addBlock, hrefusal, if_neg hmain]
        exact hsame

theorem evaluateFork_of_low (hlow : b.height < rollingFinalityEnforceHeight cfg.build) :
    n.evaluateFork S cfg ctx b = n.chain.evaluateFork S cfg ctx b := by
  simp only [evaluateFork, not_le.mpr hlow, false_and, if_false]
  rfl

/-- **Below the enforce height the chain is that of a node without soft finality.** -/
theorem exists_addBlock_of_low (hlow : b.height < rollingFinalityEnforceHeight cfg.build)
    (verify : FinalityAttestation → Bool) (h : n.chain.addBlock S cfg ctx b = some (st', res)) :
    ∃ n', n.addBlock S cfg verify ctx b = some (n', res) ∧ n'.chain = st' := by
  cases hrefusal : n.chain.refusal S cfg (ctx 0) b with
  | some status =>
    simp only [Blockchain.addBlock, hrefusal] at h
    cases h
    exact ⟨n, by simp only [addBlock, hrefusal], rfl⟩
  | none =>
    simp only [Blockchain.addBlock, hrefusal] at h
    simp only [addBlock, hrefusal]
    by_cases hmain : n.chain.isMainChain b = true
    · rw [if_pos hmain] at h ⊢
      obtain ⟨extended, hext, heq⟩ := map_eq_some_iff.mp h
      cases heq
      exact ⟨⟨st', _, _⟩, by rw [hext]; rfl, rfl⟩
    · rw [if_neg hmain] at h ⊢
      exact ⟨⟨st', _, _⟩, by rw [evaluateFork_of_low hlow, h]; rfl, rfl⟩

/-- **Above it the gate refuses what a node without soft finality would do**, if the fork point is
not above the soft-final height. -/
theorem exists_refuses (hhigh : rollingFinalityEnforceHeight cfg.build ≤ b.height)
    {orphaned : List (Transaction G)}
    (h : n.chain.addBlock S cfg ctx b = some (st', .ok (.acceptedReorg orphaned)))
    (hviolates : ∀ forkPoint, (n.chain.storeBlock S b).findForkPoint S b = some forkPoint →
      n.tracker.wouldReorgViolateFinality forkPoint = true) :
    ∃ forkPoint, n.Refuses S cfg ctx b forkPoint := by
  cases hrefusal : n.chain.refusal S cfg (ctx 0) b with
  | some status =>
    have hquiet := Blockchain.quiet_of_refusal hrefusal
    simp only [Blockchain.addBlock, hrefusal] at h
    cases h
    exact hquiet.elim
  | none =>
    simp only [Blockchain.addBlock, hrefusal] at h
    by_cases hmain : n.chain.isMainChain b = true
    · rw [if_pos hmain] at h
      obtain ⟨extended, -, heq⟩ := map_eq_some_iff.mp h
      cases heq
    · rw [if_neg hmain, Blockchain.evaluateFork] at h
      by_cases htake : (n.chain.storeBlock S b).takeFork S b = true
      · rw [if_pos htake] at h
        cases hpoint : (n.chain.storeBlock S b).findForkPoint S b with
        | none =>
          simp only [hpoint] at h
          cases h
        | some forkPoint =>
          simp only [hpoint] at h
          refine ⟨forkPoint, hrefusal, by simpa using hmain, htake, hpoint, ?_, hhigh,
            hviolates forkPoint hpoint⟩
          split at h
          · cases h
          · assumption
      · rw [if_neg htake] at h
        cases h

/-! ## 3. What a call does to chain and tracker -/

/-- **What a call of `add_block` can do**, with the chain before and after. -/
inductive Turn (S : Suite F G) (cfg : NodeConfig) (verify : FinalityAttestation → Bool)
    (ctx : Nat → CallContext G) (n : SoftNode G) (chain : List (Block G)) (b : Block G)
    (n' : SoftNode G) : List (Block G) → Prop
  /-- The chain stays. -/
  | idle : n'.tracker = n.tracker → n'.log = n.log → Turn S cfg verify ctx n chain b n' chain
  /-- The block extends the tip, and the tracker gets it. -/
  | extended : Admitted S cfg (ctx 0) n.chain b → n.chain.isMainChain b = true →
      n'.tracker = (acceptBlock cfg.build verify n.tracker b).1 →
      n'.log = (acceptBlock cfg.build verify n.tracker b).2 ++ n.log →
      Turn S cfg verify ctx n chain b n' (b :: chain)
  /-- A reorganisation that the gate lets pass; the tracker hears nothing of it. -/
  | reorganized {above below fork : List (Block G)} {q : Block G} :
      Admitted S cfg (ctx 0) n.chain b → n.chain.isMainChain b = false →
      (n.chain.storeBlock S b).takeFork S b = true →
      (n.chain.storeBlock S b).findForkPoint S b = some q.height →
      chain = above ++ q :: below →
      n.chain.lineageOf S b = b :: (fork.reverse ++ q :: below) →
      (rollingFinalityEnforceHeight cfg.build ≤ b.height →
        n.tracker.wouldReorgViolateFinality q.height = false) →
      n'.tracker = n.tracker → n'.log = n.log →
      Turn S cfg verify ctx n chain b n' (b :: (fork.reverse ++ q :: below))

variable {d : Database G} {chain : List (Block G)} {st : Blockchain G}

theorem exists_split_at_forkPoint (hc : Canonical S st d chain)
    (hs : st.NoStale) (hadm : Admitted S cfg (ctx 0) st b) {forkPoint : Nat}
    (hpoint : (st.storeBlock S b).findForkPoint S b = some forkPoint) :
    ∃ (above : List (Block G)) (q : Block G) (below fork : List (Block G)),
      chain = above ++ q :: below ∧ st.lineageOf S b = b :: (fork.reverse ++ q :: below) ∧
        q.height = forkPoint := by
  obtain ⟨p, rest, hprev, hl, hst, heq⟩ := hc.arrival hadm
  obtain ⟨above, q, below, fork, hchain, hside, -, hfound, -⟩ :=
    (hc.store hadm).fork hs hprev hl.tail (hst.mono (hc.lookup_insert_of_admitted hadm))
  exact ⟨above, q, below, fork, hchain, by rw [heq, hside],
    Option.some.inj (hfound.symm.trans hpoint)⟩

/-- **`add_block` on a canonical state**: the chain stays canonical, and tracker and record follow
it in one of three ways. -/
theorem turn (hc : Canonical S n.chain d chain) (hs : n.chain.NoStale)
    (h : n.addBlock S cfg verify ctx b = some (n', res)) :
    ∃ d' chain', Canonical S n'.chain d' chain' ∧ Turn S cfg verify ctx n chain b n' chain' := by
  rcases addBlock_cases h with ⟨forkPoint, hgate, rfl, -⟩ | ⟨hadd, htracker, hpass⟩
  · exact ⟨_, chain, hc.store (refusal_eq_none hgate.admitted), .idle rfl rfl⟩
  · obtain ⟨chain', hstep⟩ := hc.chainStep hs hadd
    obtain ⟨d', hc'⟩ := hstep.canonical hc hs
    refine ⟨d', chain', hc', ?_⟩
    clear hc'
    generalize n'.chain = st' at hstep hadd
    rcases htracker with ⟨hres, hmain, htracker, hlog⟩ | ⟨hres, htracker, hlog⟩
    · cases hstep with
      | refused _ hq =>
        rw [hres] at hq
        exact hq.elim
      | kept _ _ hq =>
        rw [hres] at hq
        exact hq.elim
      | failed => cases hres
      | committed => cases hres
      | extended hadm _ _ => exact .extended hadm hmain htracker hlog
    · cases hstep with
      | refused => exact .idle htracker hlog
      | kept => exact .idle htracker hlog
      | failed => exact .idle htracker hlog
      | extended => exact absurd rfl hres
      | committed orphaned hadm hlin _ _ =>
        cases addBlock_step hadd with
        | refused _ hq => exact hq.elim
        | kept _ _ _ hq => exact hq.elim
        | reorganized forkPoint _ hside htake hpoint _ _ =>
          obtain ⟨above, q, below, fork, hchain, hlin', rfl⟩ :=
            exists_split_at_forkPoint hc hs hadm hpoint
          rw [← hlin, hlin']
          exact .reorganized hadm hside htake hpoint hchain hlin'
            (hpass _ hpoint ⟨orphaned, rfl⟩) htracker hlog

theorem lt_height_of_split (hc : Canonical S st d chain)
    (hadm : Admitted S cfg (ctx 0) st b) {above below fork : List (Block G)} {q : Block G}
    (hchain : chain = above ++ q :: below)
    (hlin : st.lineageOf S b = b :: (fork.reverse ++ q :: below)) :
    (∀ x ∈ above, q.height < x.height) ∧ ∀ x ∈ b :: fork.reverse, q.height < x.height := by
  obtain ⟨p, rest, -, hl, -, heq⟩ := hc.arrival hadm
  rw [← heq, hlin, ← cons_append] at hl
  constructor
  · intro x hx
    exact (hchain ▸ hc.lineage).height_above above x hx
  · intro x hx
    exact hl.height_above (b :: fork.reverse) x hx

/-! ## 4. The tracker and the chain -/

/-- **The condition on a call**: no height above the tip is mapped, and of a winning side-chain
block's branch and the branch it beats, no block above the fork point carries an attestation. -/
def Undisturbed (S : Suite F G) (cfg : NodeConfig) (n : SoftNode G)
    (call : (Nat → CallContext G) × Block G) : Prop :=
  n.chain.NoStale ∧ (Admitted S cfg (call.1 0) n.chain call.2 →
    n.chain.isMainChain call.2 = false → (n.chain.storeBlock S call.2).takeFork S call.2 = true →
    ∀ forkPoint, (n.chain.storeBlock S call.2).findForkPoint S call.2 = some forkPoint →
      ∀ x ∈ n.chain.canonicalChain S ++ n.chain.lineageOf S call.2, forkPoint < x.height →
        x.attestation cfg.build = none)

/-- The invariant: the tracker is that of the chain. -/
def Replays (S : Suite F G) (cfg : NodeConfig) (verify : FinalityAttestation → Bool)
    (t : FinalityTracker) (n : SoftNode G) : Prop :=
  ∃ d chain, Canonical S n.chain d chain ∧ n.tracker = replay cfg.build verify t chain

variable {call : (Nat → CallContext G) × Block G}

theorem Replays.step {t : FinalityTracker}
    (h : Replays S cfg verify t n) (hcall : Undisturbed S cfg n call)
    (hstep : SoftNode.step S cfg verify n call = some n') : Replays S cfg verify t n' := by
  obtain ⟨ctx, b⟩ := call
  obtain ⟨hs, hquiet⟩ := hcall
  obtain ⟨d, chain, hc, htracker⟩ := h
  obtain ⟨⟨n₁, res⟩, hadd, rfl⟩ := map_eq_some_iff.mp hstep
  obtain ⟨d', chain', hc', hturn⟩ := turn hc hs hadd
  refine ⟨d', chain', hc', ?_⟩
  cases hturn with
  | idle hsame _ => exact hsame.trans htracker
  | extended _ _ hnew _ =>
    rw [hnew, htracker]
    rfl
  | @reorganized above below fork q hadm hside htake hpoint hchain hlin _ hsame _ =>
    obtain ⟨habove, hfork⟩ := lt_height_of_split hc hadm hchain hlin
    have hmute := hquiet hadm hside htake q.height hpoint
    rw [hc.canonicalChain_eq, hlin] at hmute
    have hold : ∀ x ∈ above, x.attestation cfg.build = none := fun x hx =>
      hmute x (mem_append_left _ (hchain ▸ mem_append_left _ hx)) (habove x hx)
    have hnew : ∀ x ∈ b :: fork.reverse, x.attestation cfg.build = none := fun x hx =>
      hmute x (mem_append_right _ (mem_append_left (q :: below) hx)) (hfork x hx)
    calc n₁.tracker = replay cfg.build verify t (above ++ q :: below) := by
          rw [hsame, htracker, hchain]
      _ = replay cfg.build verify t (q :: below) := replay_append_of_none hold
      _ = replay cfg.build verify t (b :: fork.reverse ++ q :: below) :=
          (replay_append_of_none hnew).symm

/-- **The tracker is that of the chain.**  A node is opened on any chain that allowed actions lead
to, with a tracker that was fed this chain. -/
theorem tracker_eq_replay {network : NetworkType} {st₀ st₁ : Blockchain G}
    (h₀ : boot S network = .ok st₀) (hopen : Reaches (Blockchain.step S cfg) Allowed st₀ st₁)
    (t : FinalityTracker) (hrun : Reaches (SoftNode.step S cfg verify) (Undisturbed S cfg)
      ⟨st₁, replay cfg.build verify t (st₁.canonicalChain S), []⟩ n) :
    n.tracker = replay cfg.build verify t (n.chain.canonicalChain S) := by
  have hinv : Replays S cfg verify t n := by
    refine Reaches.invariant ?_ (fun _ _ _ h hcall hstep => h.step hcall hstep) hrun
    obtain ⟨d, chain, hc⟩ := exists_canonical h₀ hopen
    exact ⟨d, chain, hc, by rw [hc.canonicalChain_eq]⟩
  obtain ⟨d, chain, hc, htracker⟩ := hinv
  rw [htracker, hc.canonicalChain_eq]

/-! ## 5. The attested block and the chain -/

/-- **The condition on a call**: no height above the tip is mapped; a block that extends the tip
attests, if it does, to a block of the chain with it; and a side-chain block below the enforce
height that would win leaves the chain at or above the soft-final height. -/
structure Honest (S : Suite F G) (cfg : NodeConfig) (n : SoftNode G)
    (call : (Nat → CallContext G) × Block G) : Prop where
  noStale : n.chain.NoStale
  attests : Admitted S cfg (call.1 0) n.chain call.2 → n.chain.isMainChain call.2 = true →
    ∀ a, call.2.attestation cfg.build = some a →
      ∃ x ∈ call.2 :: n.chain.canonicalChain S,
        x.height = a.targetHeight ∧ (x.hash S).bytes = a.targetHash
  leaves : Admitted S cfg (call.1 0) n.chain call.2 → n.chain.isMainChain call.2 = false →
    (n.chain.storeBlock S call.2).takeFork S call.2 = true →
    ∀ forkPoint, (n.chain.storeBlock S call.2).findForkPoint S call.2 = some forkPoint →
      call.2.height < rollingFinalityEnforceHeight cfg.build →
      ∀ softFinal, n.tracker.softFinalHeight = some softFinal → softFinal ≤ forkPoint

/-- The invariant: what was attested to last is on the chain. -/
def Attested (S : Suite F G) (n : SoftNode G) : Prop :=
  ∃ d chain, Canonical S n.chain d chain ∧
    ∀ softFinal, n.tracker.softFinalHeight = some softFinal →
      ∃ x ∈ chain, x.height = softFinal ∧
        lastFinalized n.log = some (softFinal, (x.hash S).bytes)

theorem Attested.step (h : Attested S n)
    (hcall : Honest S cfg n call) (hstep : SoftNode.step S cfg verify n call = some n') :
    Attested S n' := by
  obtain ⟨ctx, b⟩ := call
  obtain ⟨d, chain, hc, hfinal⟩ := h
  obtain ⟨⟨n₁, res⟩, hadd, rfl⟩ := map_eq_some_iff.mp hstep
  obtain ⟨d', chain', hc', hturn⟩ := turn hc hcall.noStale hadd
  refine ⟨d', chain', hc', ?_⟩
  cases hturn with
  | idle htracker hlog =>
    rw [htracker, hlog]
    exact hfinal
  | extended hadm hmain htracker hlog =>
    intro softFinal hsoft
    rw [htracker] at hsoft
    rw [hlog]
    rcases acceptBlock_softFinalHeight cfg.build verify n.tracker b n.log with
      ⟨hsame, hlast⟩ | ⟨a, ha, hheight, hlast⟩
    · obtain ⟨x, hx, hxheight, hxlast⟩ := hfinal softFinal (hsame ▸ hsoft)
      exact ⟨x, .tail _ hx, hxheight, hlast.trans hxlast⟩
    · obtain ⟨x, hx, hxheight, hxhash⟩ := hcall.attests hadm hmain a ha
      rw [hc.canonicalChain_eq] at hx
      cases hheight.symm.trans hsoft
      exact ⟨x, hx, hxheight, by rw [hlast, hxhash]⟩
  | @reorganized above below fork q hadm hside htake hpoint hchain hlin hpass htracker hlog =>
    intro softFinal hsoft
    rw [htracker] at hsoft
    rw [hlog]
    -- the soft-final height is at or below the common block
    have hle : softFinal ≤ q.height := by
      rcases lt_or_ge b.height (rollingFinalityEnforceHeight cfg.build) with hlow | hhigh
      · exact hcall.leaves hadm hside htake q.height hpoint hlow softFinal hsoft
      · have hviolates := hpass hhigh
        rw [FinalityTracker.wouldReorgViolateFinality, hsoft] at hviolates
        have := of_decide_eq_false hviolates
        omega
    obtain ⟨x, hx, hxheight, hxlast⟩ := hfinal softFinal hsoft
    refine ⟨x, ?_, hxheight, hxlast⟩
    rw [hchain] at hx
    rcases mem_append.mp hx with habove | hbelow
    · have := (lt_height_of_split hc hadm hchain hlin).1 x habove
      omega
    · exact mem_append_right (b :: fork.reverse) hbelow

/-- **A refused reorganisation keeps the attested block.** -/
theorem soft_refusal_attested {network : NetworkType} {st₀ st₁ : Blockchain G}
    (h₀ : boot S network = .ok st₀) (hopen : Reaches (Blockchain.step S cfg) Allowed st₀ st₁)
    {t : FinalityTracker} (ht : t.softFinalHeight = none)
    (hrun : Reaches (SoftNode.step S cfg verify) (Honest S cfg) ⟨st₁, t, []⟩ n)
    {forkPoint : Nat} (hrefuses : n.Refuses S cfg ctx b forkPoint) :
    ∃ softFinal hash, n.tracker.softFinalHeight = some softFinal ∧ forkPoint ≤ softFinal ∧
      n.addBlock S cfg verify ctx b = some ({ n with chain := n.chain.storeBlock S b },
        .error (.reorgTooDeep (b.height - forkPoint) (b.height - softFinal - 1))) ∧
      lastFinalized n.log = some (softFinal, hash) ∧
      n.chain.getBlockHash softFinal = some ⟨hash⟩ := by
  have hinv : Attested S n := by
    refine Reaches.invariant ?_ (fun _ _ _ h hcall hstep => h.step hcall hstep) hrun
    obtain ⟨d, chain, hc⟩ := exists_canonical h₀ hopen
    refine ⟨d, chain, hc, fun softFinal hsoft => ?_⟩
    rw [ht] at hsoft
    cases hsoft
  obtain ⟨d, chain, hc, hfinal⟩ := hinv
  have hviolates := hrefuses.violates
  have hadd := hrefuses.addBlock_eq verify
  rw [FinalityTracker.wouldReorgViolateFinality] at hviolates
  cases hsoft : n.tracker.softFinalHeight with
  | none =>
    rw [hsoft] at hviolates
    cases hviolates
  | some softFinal =>
    rw [hsoft] at hviolates hadd
    obtain ⟨x, hx, rfl, hlast⟩ := hfinal softFinal hsoft
    refine ⟨x.height, (x.hash S).bytes, rfl, of_decide_eq_true hviolates, hadd, hlast, ?_⟩
    rw [hc.getBlockHash_eq (hc.height_le_tip hx)]
    exact (hc.index _ _).mpr ⟨x, hx, rfl, rfl⟩

end SoftNode

end Coincync

namespace Coincync.AttestedChain

open Lib Blockchain RollingFinality SteadyChain
open WideSuite (W)

/-! ## 6. The blocks -/

/-- The miner of a height, one of five. -/
def minerAt (k : Nat) : MinerPubkey := FixedBytes.replicate 32 (UInt8.ofNat (k % 5 + 1))

/-- The height that the block at height `k` attests to. -/
def aim (m k : Nat) : Nat := if k ≤ m + 5 then k - 1 else m + 5

/-- The attestation at height `k`; `name` gives the hash of a height. -/
def vote (m : Nat) (name : Nat → BlockHash) (k : Nat) : FinalityAttestation :=
  ⟨minerAt k, aim m k, name (aim m k), (name (aim m k)).toList ++ (minerAt k).toList⟩

/-- A signature of a hash is the hash with the key behind it. -/
def verify (a : FinalityAttestation) : Bool :=
  decide (a.signature = a.targetHash.toList ++ a.minerPubkey.toList)

/-- The `extra` field at height `k`. -/
def extraAt (m : Nat) (name : Nat → BlockHash) (k : Nat) : Bytes :=
  if m < k then encode (vote m name k) else []

/-- The chain with the attestations. -/
def pledged (m : Nat) (name : Nat → BlockHash) : Nat → Block (W × W)
  | 0 => genesis
  | k + 1 => minedWith 2 (extraAt m name (k + 1)) (pledged m name k) 0

/-- The spur, from the block at height `m + 5`. -/
def rival (m : Nat) (name : Nat → BlockHash) : Nat → Block (W × W)
  | 0 => pledged m name (m + 5)
  | j + 1 => minedWith 2 [] (rival m name j) 1

/-- Chain and spur. -/
def rivalTree (m : Nat) (name : Nat → BlockHash) : List (Block (W × W)) :=
  prongTree (m + 9) 5 (pledged m name) (rival m name)

/-- **Where the nine blocks may stand**: above the enable height, and with the spur above the last
multiple of 144. -/
structure Placed (m : Nat) : Prop where
  enabled : rollingFinalityEnableHeight cfg.build ≤ m + 1
  floor : m + 9 - (m + 9) % checkpointInterval ≤ m + 5
  unenforced : m + 9 < rollingFinalityEnforceHeight cfg.build
  low : m + 10 ≤ 100000

variable {m : Nat} {name : Nat → BlockHash} {i j k : Nat}

theorem onWire_vote (hm : Placed m) : OnWire (vote m name k) := by
  have hlow := hm.low
  refine ⟨?_, ?_⟩
  · change (if k ≤ m + 5 then k - 1 else m + 5) < 2 ^ 64
    split_ifs <;> omega
  · simp [vote, signatureLen]

theorem length_extraAt : (extraAt m name k).length ≤ 1000 := by
  unfold extraAt
  split_ifs
  · simp [encode, wireBody, wireMagic, vote]
  · exact zero_le

theorem minedOn_minedWith (parent : Block (W × W)) (extra : Bytes) (nonce : UInt64)
    (h : parent.header.version ≤ 2) (hshort : extra.length ≤ 1000) :
    MinedOn parent (minedWith 2 extra parent nonce) nonce := by
  refine ⟨2, extra, h, ?_, hshort, rfl⟩
  unfold blockVersionAtHeight
  split_ifs <;> decide

theorem version_pledged : (pledged m name i).header.version ≤ 2 := by
  cases i with
  | zero =>
    have hgenesis : genesis.header.version ≤ 2 := by decide
    exact hgenesis
  | succ i => exact UInt8.le_refl 2

theorem version_rival : (rival m name j).header.version ≤ 2 := by
  cases j with
  | zero => exact version_pledged
  | succ j => exact UInt8.le_refl 2

theorem prongs (hm : Placed m) (name : Nat → BlockHash) :
    Prongs (m + 9) (m + 5) 5 (pledged m name) (rival m name) where
  root := rfl
  base := rfl
  leaves := by omega
  main_low := by have := hm.low; omega
  spur_low := by have := hm.low; omega
  main_mined i _ := minedOn_minedWith _ _ 0 version_pledged length_extraAt
  spur_mined j _ := minedOn_minedWith _ _ 1 version_rival zero_le

theorem height_pledged (hm : Placed m) (hi : i ≤ m + 9) : (pledged m name i).height = i :=
  ((prongs hm name).main_spec hi).2

theorem height_rival (hm : Placed m) (hj : j ≤ 5) : (rival m name j).height = m + 5 + j :=
  ((prongs hm name).spur_spec hj).2

theorem shallow (hm : Placed m) (name : Nat → BlockHash) :
    ShallowTree suite genesis (rivalTree m name) :=
  (prongs hm name).shallow (by omega) (by decide) hm.floor

/-! ## 7. What the tracker makes of them -/

theorem coinbaseExtra_minedWith (version : UInt8) (extra : Bytes) (parent : Block (W × W))
    (nonce : UInt64) : (minedWith version extra parent nonce).coinbaseExtra = extra := rfl

theorem attestation_pledged (hm : Placed m) (hi : i ≤ m + 9) :
    (pledged m name i).attestation cfg.build = if m < i then some (vote m name i) else none := by
  have henabled := hm.enabled
  have hheight : (pledged m name i).height = i := height_pledged hm hi
  unfold Block.attestation
  rw [hheight]
  cases i with
  | zero => rfl
  | succ i =>
    rw [pledged, coinbaseExtra_minedWith, extraAt]
    split_ifs with hon hlate
    · exact attestationIn_encode (onWire_vote hm)
    · rfl
    · omega
    · rfl

theorem attestation_rival (hpos : 0 < j) : (rival m name j).attestation cfg.build = none := by
  obtain ⟨j, rfl⟩ : ∃ j', j = j' + 1 := ⟨j - 1, by omega⟩
  unfold Block.attestation
  rw [rival, coinbaseExtra_minedWith]
  exact ite_self _

/-- The tracker after `j` of the nine blocks, and what was heard on the way. -/
def attended (m : Nat) (name : Nat → BlockHash) : Nat → FinalityTracker × List OnBlockOutcome
  | 0 => (.newDefault, [])
  | j + 1 =>
    let before := attended m name j
    let after := before.1.onAcceptedBlock verify (m + j + 1) (encode (vote m name (m + j + 1)))
    (after.1, after.2 :: before.2)

theorem acceptBlock_pledged (hm : Placed m) (hi : i < m + 9) {log : List OnBlockOutcome}
    (hlog : lastFinalized log = lastFinalized (attended m name (i - m)).2) :
    (acceptBlock cfg.build verify (attended m name (i - m)).1 (pledged m name (i + 1))).1 =
        (attended m name (i + 1 - m)).1 ∧
      lastFinalized ((acceptBlock cfg.build verify (attended m name (i - m)).1
          (pledged m name (i + 1))).2 ++ log) = lastFinalized (attended m name (i + 1 - m)).2 := by
  have hattest : (pledged m name (i + 1)).attestation cfg.build = _ := attestation_pledged hm hi
  rcases lt_or_ge i m with hearly | hlate
  · rw [if_neg (by omega)] at hattest
    have hzero : i + 1 - m = i - m := by omega
    rw [hzero]
    refine ⟨acceptBlock_of_none hattest, ?_⟩
    rcases acceptBlock_softFinalHeight cfg.build verify (attended m name (i - m)).1
      (pledged m name (i + 1)) log with ⟨-, hlast⟩ | ⟨a, ha, -, -⟩
    · exact hlast.trans hlog
    · rw [hattest] at ha
      cases ha
  · obtain ⟨j, rfl⟩ : ∃ j, i = m + j := ⟨i - m, by omega⟩
    have henabled := hm.enabled
    have hheight : (pledged m name (m + j + 1)).height = m + j + 1 := height_pledged hm hi
    rw [show m + j - m = j by omega] at hlog ⊢
    rw [show m + j + 1 - m = j + 1 by omega, acceptBlock, hheight, if_pos (by omega), pledged,
      coinbaseExtra_minedWith, extraAt, if_pos (by omega), attended]
    refine ⟨rfl, ?_⟩
    change lastFinalized ([_] ++ log) = lastFinalized ([_] ++ (attended m name j).2)
    simp only [lastFinalized, List.findSome?_append] at hlog ⊢
    rw [hlog]

/-- **A fresh tracker that is fed the chain.** -/
theorem replay_pledged (hm : Placed m) (hi : i ≤ m + 9) :
    replay cfg.build verify .newDefault (downFrom (pledged m name) i) =
      (attended m name (i - m)).1 := by
  induction i with
  | zero =>
    rw [Nat.zero_sub]
    rfl
  | succ i ih =>
    rw [← (acceptBlock_pledged hm (i := i) hi rfl).1, ← ih (by omega)]
    rfl

theorem replay_rival (hm : Placed m) :
    replay cfg.build verify .newDefault (spurChain (pledged m name) (rival m name) (m + 5) j) =
      (attended m name 5).1 := by
  obtain ⟨l, hl, -, hspur⟩ : ∃ l, spurChain (pledged m name) (rival m name) (m + 5) j =
    l ++ downFrom (pledged m name) (m + 5) ∧ _ := exists_spurChain_append
  have hmute : ∀ x ∈ l, x.attestation cfg.build = none := by
    intro x hx
    obtain ⟨i, hpos, -, rfl⟩ := hspur x hx
    exact attestation_rival hpos
  rw [hl, replay_append_of_none hmute, replay_pledged hm (by omega), Nat.add_sub_cancel_left]

/-! ## 8. The run -/

/-- **The calls of the run**: an extension of the chain, or a side-chain block that loses. -/
def Calm (m : Nat) (name : Nat → BlockHash) (n : SoftNode (W × W))
    (call : (Nat → CallContext (W × W)) × Block (W × W)) : Prop :=
  n.chain.NoStale ∧
    (n.chain.isMainChain call.2 = true ∧ (∃ i < m + 9, call.2 = pledged m name (i + 1) ∧
        n.chain.canonicalChain suite = downFrom (pledged m name) i) ∨
      n.chain.isMainChain call.2 = false ∧
        (n.chain.storeBlock suite call.2).takeFork suite call.2 = false)

/-- **A node on its way**, opened as `st₁`: what it holds, its chain, and how many of the nine
blocks its tracker has heard of. -/
structure Stage (m : Nat) (name : Nat → BlockHash) (st₁ : Blockchain (W × W))
    (known chain : List (Block (W × W))) (heard : Nat) (n : SoftNode (W × W)) : Prop where
  run : Reaches (SoftNode.step suite cfg verify) (Calm m name) ⟨st₁, .newDefault, []⟩ n
  fed : ∃ d, Fed suite genesis (rivalTree m name) cfg known n.chain d chain
  network : n.chain.network = .regtest
  tracker : n.tracker = (attended m name heard).1
  log : lastFinalized n.log = lastFinalized (attended m name heard).2

/-- What is held after `j` blocks of the spur. -/
def held (m : Nat) (name : Nat → BlockHash) (j : Nat) : List (Block (W × W)) :=
  spurChain (pledged m name) (rival m name) (m + 9) j

variable {st st₁ : Blockchain (W × W)} {n : SoftNode (W × W)} {d : Database (W × W)}
  {known : List (Block (W × W))} {call : (Nat → CallContext (W × W)) × Block (W × W)}

theorem Calm.loses (h : Calm m name n call) (hside : n.chain.isMainChain call.2 = false) :
    ¬(n.chain.storeBlock suite call.2).takeFork suite call.2 = true := by
  rcases h.2 with ⟨hmain, -⟩ | ⟨-, hloses⟩
  · rw [hside] at hmain
    cases hmain
  · rw [hloses]
    exact Bool.false_ne_true

theorem exists_step {b : Block (W × W)} {st' : Blockchain (W × W)}
    {res : Except ChainError (BlockStatus (W × W))}
    (hlow : b.height < rollingFinalityEnforceHeight cfg.build)
    (hadd : n.chain.addBlock suite cfg always b = some (st', res)) :
    ∃ n', SoftNode.step suite cfg verify n (always, b) = some n' ∧ n'.chain = st' ∧
      (res = .ok .accepted ∧ n'.tracker = (acceptBlock cfg.build verify n.tracker b).1 ∧
          n'.log = (acceptBlock cfg.build verify n.tracker b).2 ++ n.log ∨
        res ≠ .ok .accepted ∧ n'.tracker = n.tracker ∧ n'.log = n.log) := by
  obtain ⟨n', hsoft, hchain⟩ := SoftNode.exists_addBlock_of_low hlow verify hadd
  refine ⟨n', by rw [SoftNode.step, hsoft]; rfl, hchain, ?_⟩
  rcases SoftNode.addBlock_cases hsoft with ⟨forkPoint, hgate, -⟩ | ⟨-, htracker, -⟩
  · exact absurd hgate.enforced (not_le.mpr hlow)
  · rcases htracker with ⟨hres, -, hnew⟩ | hsame
    · exact .inl ⟨hres, hnew⟩
    · exact .inr hsame

section

variable (hm : Placed m)

include hm

/-- **A block of the chain is taken**, and the tracker hears of it. -/
theorem Stage.extend (hi : i < m + 9)
    (h : Stage m name st₁ (downFrom (pledged m name) i) (downFrom (pledged m name) i) (i - m) n) :
    ∃ n', Stage m name st₁ (downFrom (pledged m name) (i + 1)) (downFrom (pledged m name) (i + 1))
      (i + 1 - m) n' := by
  have hunenforced := hm.unenforced
  obtain ⟨hmain, st', hadd, hst', -⟩ := (prongs hm name).extend (shallow hm name) hi ⟨h.fed, h.network⟩
  obtain ⟨d, hfed⟩ := h.fed
  obtain ⟨n', hsoft, rfl, ⟨-, htracker, hlog⟩ | ⟨hres, -⟩⟩ :=
    exists_step (by rw [height_pledged hm hi]; omega) hadd
  · have hheard := acceptBlock_pledged hm hi h.log
    rw [← h.tracker, ← htracker, ← hlog] at hheard
    have hcalm : Calm m name n (always, pledged m name (i + 1)) :=
      ⟨hfed.noStale, .inl ⟨hmain, i, hi, rfl, hfed.canonical.canonicalChain_eq⟩⟩
    exact ⟨n', .next _ h.run hcalm hsoft, hst'.1, hst'.2, hheard.1, hheard.2⟩
  · exact absurd rfl hres

/-- **A block of the spur is kept**, and the tracker hears nothing. -/
theorem Stage.keep (hj : j < 4)
    (h : Stage m name st₁ (held m name j) (downFrom (pledged m name) (m + 9)) 9 n) :
    ∃ n', Stage m name st₁ (held m name (j + 1)) (downFrom (pledged m name) (m + 9)) 9 n' := by
  have hp := prongs hm name
  have ht := shallow hm name
  have hunenforced := hm.unenforced
  obtain ⟨-, hmain, -⟩ := hp.beside ht (j := j) (by omega) (by omega) ⟨h.fed, h.network⟩
  obtain ⟨htake, st', hadd, hst', -⟩ :=
    hp.keep ht (j := j) (by omega) (by omega) ⟨h.fed, h.network⟩ (by omega)
  obtain ⟨d, hfed⟩ := h.fed
  obtain ⟨n', hsoft, rfl, ⟨hres, -⟩ | ⟨-, htracker, hlog⟩⟩ :=
    exists_step (by rw [height_rival hm (by omega)]; omega) hadd
  · cases hres
  · have hcalm : Calm m name n (always, rival m name (j + 1)) :=
      ⟨hfed.noStale, .inr ⟨hmain, htake⟩⟩
    exact ⟨n', .next _ h.run hcalm hsoft, hst'.1, hst'.2, htracker.trans h.tracker,
      by rw [hlog, h.log]⟩

/-- **The run up to the last block of the spur.** -/
theorem exists_stage (name : Nat → BlockHash) :
    ∃ st₁ n, Blockchain.step suite cfg booted .restart = some st₁ ∧
      st₁.canonicalChain suite = [genesis] ∧
      Stage m name st₁ (held m name 4) (downFrom (pledged m name) (m + 9)) 9 n := by
  obtain ⟨st₁, d, hstart, hfed, hnet, -⟩ := exists_started (rivalTree m name)
  have hextended : ∀ i ≤ m + 9, ∃ n, Stage m name st₁ (downFrom (pledged m name) i)
      (downFrom (pledged m name) i) (i - m) n := by
    intro i hi
    induction i with
    | zero =>
      rw [Nat.zero_sub]
      exact ⟨_, .start, ⟨d, hfed⟩, hnet, rfl, rfl⟩
    | succ i ih =>
      obtain ⟨n, hstage⟩ := ih (by omega)
      exact hstage.extend hm hi
  have hkept : ∀ j ≤ 4, ∃ n, Stage m name st₁ (held m name j)
      (downFrom (pledged m name) (m + 9)) 9 n := by
    intro j hj
    induction j with
    | zero =>
      obtain ⟨n, hstage⟩ := hextended (m + 9) le_rfl
      rw [Nat.add_sub_cancel_left] at hstage
      exact ⟨n, hstage⟩
    | succ j ih =>
      obtain ⟨n, hstage⟩ := ih (by omega)
      exact hstage.keep hm hj
  obtain ⟨n, hstage⟩ := hkept 4 le_rfl
  exact ⟨st₁, n, hstart, hfed.canonical.canonicalChain_eq, hstage⟩

section

variable (h : Stage m name st₁ (held m name 4) (downFrom (pledged m name) (m + 9)) 9 n)
include h

/-- **The last block of the spur has more work than the chain.** -/
theorem Stage.overtaken :
    ∃ st' d' orphaned, n.chain.addBlock suite cfg always (rival m name 5) =
        some (st', .ok (.acceptedReorg orphaned)) ∧
      Canonical suite st' d' (spurChain (pledged m name) (rival m name) (m + 5) 5) := by
  obtain ⟨st', orphaned, hadd, ⟨⟨d', hfed'⟩, -⟩, -⟩ := (prongs hm name).overtake (shallow hm name)
    (j := 4) (by omega) (by omega) ⟨h.fed, h.network⟩ (by omega)
  exact ⟨st', d', orphaned, hadd, hfed'.canonical⟩

/-- **Above the enforce height the gate refuses it.** -/
theorem Stage.refused (hhigh : rollingFinalityEnforceHeight cfg.build ≤ m + 10)
    (hsoft : (attended m name 9).1.softFinalHeight = some (m + 5)) :
    ∃ forkPoint, n.Refuses suite cfg always (rival m name 5) forkPoint := by
  have hp := prongs hm name
  obtain ⟨hadm, -, -⟩ := hp.beside (shallow hm name) (j := 4) (by omega) (by omega) ⟨h.fed, h.network⟩
  obtain ⟨st', d', orphaned, hadd, -⟩ := h.overtaken hm
  obtain ⟨d, hfed⟩ := h.fed
  refine SoftNode.exists_refuses (by rw [height_rival hm le_rfl]; exact hhigh) hadd ?_
  intro forkPoint hpoint
  -- chain and spur part at or below height `m + 5`
  obtain ⟨above, q, below, fork, hchain, hlin, rfl⟩ :=
    SoftNode.exists_split_at_forkPoint hfed.canonical hfed.noStale hadm hpoint
  obtain ⟨rest, hbranch, hlin', -, -⟩ := hfed.next_branch hp.orchard.blockTree
    (hp.next_spur (j := 4) (by omega))
  rw [hlin, ← hbranch, rivalTree, hp.branch_spur le_rfl] at hlin'
  have hle : q.height ≤ m + 5 := by
    refine hp.height_le_of_shared le_rfl le_rfl (hchain ▸ ?_) (hlin' ▸ ?_)
    · exact List.mem_append_right _ (.head _)
    · exact .tail _ (List.mem_append_right _ (.head _))
  rw [FinalityTracker.wouldReorgViolateFinality, h.tracker, hsoft]
  exact decide_eq_true hle

theorem Stage.getBlockHash_eq :
    n.chain.getBlockHash (m + 5) = some ((pledged m name (m + 5)).hash suite) := by
  obtain ⟨d, hfed⟩ := h.fed
  have hc := hfed.canonical
  have hmem : pledged m name (m + 5) ∈ downFrom (pledged m name) (m + 9) :=
    mem_downFrom.mpr ⟨m + 5, by omega, rfl⟩
  have hheight : (pledged m name (m + 5)).height = m + 5 := height_pledged hm (by omega)
  have htip := hc.height_le_tip hmem
  rw [hheight] at htip
  rw [hc.getBlockHash_eq htip]
  exact (hc.index _ _).mpr ⟨_, hmem, hheight, rfl⟩

end

end

/-! ## 9. The tracker and the chain -/

def falseName (_ : Nat) : BlockHash := FixedBytes.replicate 32 7

theorem placed_low : Placed 50010 := ⟨by decide, by decide, by decide, by decide⟩

/-- **The tracker outlives its chain.**  Height 50015 is made soft-final, and then the spur wins. -/
theorem tracker_outlives_chain : ∃ st₁ n,
    Blockchain.step suite cfg booted .restart = some st₁ ∧
      Reaches (SoftNode.step suite cfg verify) (fun _ _ => True)
        ⟨st₁, replay cfg.build verify .newDefault (st₁.canonicalChain suite), []⟩ n ∧
      n.tracker.softFinalHeight = some 50015 ∧
      (replay cfg.build verify .newDefault (n.chain.canonicalChain suite)).softFinalHeight =
        none := by
  have hm := placed_low
  have hp := prongs hm falseName
  have hvalues : (attended 50010 falseName 9).1.softFinalHeight = some 50015 ∧
      (attended 50010 falseName 5).1.softFinalHeight = none := by decide +kernel
  obtain ⟨st₁, n, hstart, hchain₁, hstage⟩ := exists_stage hm falseName
  obtain ⟨st', d', orphaned, hadd, hc'⟩ := hstage.overtaken hm
  obtain ⟨n', hstep, rfl, ⟨hres, -⟩ | ⟨-, htracker, -⟩⟩ :=
    exists_step (by rw [height_rival hm le_rfl]; decide) hadd
  · cases hres
  · have hfresh : replay cfg.build verify .newDefault [genesis] = .newDefault := rfl
    refine ⟨st₁, n', hstart, ?_, ?_, ?_⟩
    · rw [hchain₁, hfresh]
      exact .next _ (hstage.run.mono fun _ _ _ => trivial) trivial hstep
    · rw [htracker, hstage.tracker]
      exact hvalues.1
    · rw [hc'.canonicalChain_eq, replay_rival hm]
      exact hvalues.2

/-- **As long as the spur loses, the tracker is that of the chain.** -/
theorem tracker_of_chain : ∃ st₁ n,
    Reaches (Blockchain.step suite cfg) Allowed booted st₁ ∧
      Reaches (SoftNode.step suite cfg verify) (SoftNode.Undisturbed suite cfg)
        ⟨st₁, replay cfg.build verify .newDefault (st₁.canonicalChain suite), []⟩ n ∧
      n.tracker.softFinalHeight = some 50015 ∧
      n.tracker = replay cfg.build verify .newDefault (n.chain.canonicalChain suite) := by
  have hm := placed_low
  have hvalue : (attended 50010 falseName 9).1.softFinalHeight = some 50015 := by decide +kernel
  obtain ⟨st₁, n, hstart, hchain₁, hstage⟩ := exists_stage hm falseName
  have hopen : Reaches (Blockchain.step suite cfg) Allowed booted st₁ :=
    .next .restart .start trivial hstart
  have hrun : Reaches (SoftNode.step suite cfg verify) (SoftNode.Undisturbed suite cfg)
      ⟨st₁, replay cfg.build verify .newDefault (st₁.canonicalChain suite), []⟩ n := by
    rw [hchain₁]
    exact hstage.run.mono fun _ _ hcalm =>
    ⟨hcalm.1, fun _ hside htake => absurd htake (hcalm.loses hside)⟩
  refine ⟨st₁, n, hopen, hrun, ?_, SoftNode.tracker_eq_replay boot_booted hopen _ hrun⟩
  rw [hstage.tracker]
  exact hvalue

/-! ## 10. The attested block and the chain -/

theorem placed_high : Placed 74990 := ⟨by decide, by decide, by decide, by decide⟩

/-- The hash that the suite gives to the block of a height. -/
def trueName (k : Nat) : BlockHash :=
  ⟨u64LeBytes (UInt64.ofNat k) ++ (u64LeBytes 0 ++ List.replicate 16 0), by simp⟩

theorem hash_pledged (hm : Placed m) (hpos : 0 < i) (hi : i ≤ m + 9) :
    ((pledged m name i).hash suite).bytes = trueName i := by
  have hheight : (pledged m name i).height = i := height_pledged hm hi
  have hfield : (pledged m name i).header.height = UInt64.ofNat i :=
    UInt64.ofNat_toNat.symm.trans (congrArg UInt64.ofNat hheight)
  refine List.Vector.toList_injective ?_
  change ((pledged m name i).hash suite).asSlice = _
  rw [asSlice_hash (by omega), (prongs hm name).nonce_main hpos hi, hfield]
  rfl

/-- **A reorganisation is refused for a hash that no block has.** -/
theorem refused_for_false_hash : ∃ st₁ n forkPoint depth,
    Blockchain.step suite cfg booted .restart = some st₁ ∧
      Reaches (SoftNode.step suite cfg verify) (fun _ _ => True) ⟨st₁, .newDefault, []⟩ n ∧
      n.Refuses suite cfg always (rival 74990 falseName 5) forkPoint ∧
      n.addBlock suite cfg verify always (rival 74990 falseName 5) =
        some ({ n with chain := n.chain.storeBlock suite (rival 74990 falseName 5) },
          .error (.reorgTooDeep depth 4)) ∧
      n.tracker.softFinalHeight = some 74995 ∧
      lastFinalized n.log = some (74995, falseName 74995) ∧
      n.chain.getBlockHash 74995 ≠ some ⟨falseName 74995⟩ := by
  have hm := placed_high
  have hvalues : (attended 74990 falseName 9).1.softFinalHeight = some 74995 ∧
      lastFinalized (attended 74990 falseName 9).2 = some (74995, falseName 74995) := by
    decide +kernel
  obtain ⟨st₁, n, hstart, -, hstage⟩ := exists_stage hm falseName
  have hsoft : n.tracker.softFinalHeight = some 74995 := by
    rw [hstage.tracker]
    exact hvalues.1
  obtain ⟨forkPoint, hrefuses⟩ := hstage.refused hm (by decide) hvalues.1
  have hadd := hrefuses.addBlock_eq verify
  rw [hsoft, height_rival hm le_rfl] at hadd
  refine ⟨st₁, n, forkPoint, _, hstart, hstage.run.mono fun _ _ _ => trivial, hrefuses, hadd, hsoft,
    hstage.log.trans hvalues.2, ?_⟩
  rw [hstage.getBlockHash_eq hm]
  intro heq
  have hbytes := congrArg Hash.bytes (Option.some.inj heq)
  rw [hash_pledged hm (by decide) (by decide)] at hbytes
  exact absurd hbytes (by decide +kernel)

theorem Calm.honest (hm : Placed m) (h : Calm m trueName n call) : n.Honest suite cfg call := by
  refine ⟨h.1, fun _ hmain a ha => ?_, fun _ hside htake => absurd htake (h.loses hside)⟩
  rcases h.2 with ⟨-, i, hi, hblock, hchain⟩ | ⟨hside, -⟩
  · rw [hblock, attestation_pledged hm hi] at ha
    split_ifs at ha with hlate
    cases ha
    have henabled : 50000 ≤ m + 1 := hm.enabled
    have haim : 0 < aim m (i + 1) ∧ aim m (i + 1) ≤ i := by
      unfold aim
      split_ifs <;> omega
    refine ⟨pledged m trueName (aim m (i + 1)), .tail _ ?_, ?_, ?_⟩
    · rw [hchain]
      exact mem_downFrom.mpr ⟨_, haim.2, rfl⟩
    · exact height_pledged hm (by omega)
    · exact hash_pledged hm haim.1 (by omega)
  · rw [hmain] at hside
    cases hside

/-- **A reorganisation is refused for the block of the chain.** -/
theorem refused_for_true_hash : ∃ st₁ n forkPoint,
    Reaches (Blockchain.step suite cfg) Allowed booted st₁ ∧
      Reaches (SoftNode.step suite cfg verify) (SoftNode.Honest suite cfg)
        ⟨st₁, .newDefault, []⟩ n ∧
      n.Refuses suite cfg always (rival 74990 trueName 5) forkPoint ∧
      n.tracker.softFinalHeight = some 74995 ∧
      lastFinalized n.log = some (74995, trueName 74995) ∧
      n.chain.getBlockHash 74995 = some ⟨trueName 74995⟩ := by
  have hm := placed_high
  have hvalues : (attended 74990 trueName 9).1.softFinalHeight = some 74995 ∧
      lastFinalized (attended 74990 trueName 9).2 = some (74995, trueName 74995) := by
    decide +kernel
  obtain ⟨st₁, n, hstart, -, hstage⟩ := exists_stage hm trueName
  have hopen : Reaches (Blockchain.step suite cfg) Allowed booted st₁ :=
    .next .restart .start trivial hstart
  have hrun := hstage.run.mono fun _ _ hcalm => hcalm.honest hm
  obtain ⟨forkPoint, hrefuses⟩ := hstage.refused hm (by decide) hvalues.1
  obtain ⟨softFinal, hash, hsoft, -, -, hlast, hhash⟩ :=
    SoftNode.soft_refusal_attested boot_booted hopen rfl hrun hrefuses
  cases hlast.symm.trans (hstage.log.trans hvalues.2)
  exact ⟨st₁, n, forkPoint, hopen, hrun, hrefuses, hsoft, hlast, hhash⟩

end Coincync.AttestedChain
