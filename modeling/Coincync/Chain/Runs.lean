/-
# Runs of the node

What a node can do to its chain: add a block, roll back, and start again.  A run begins with
`init_genesis` on an empty database (`boot`), and every step of it meets a condition; the claims
about runs differ in the condition.  A panic or a start that fails ends the run.
-/
import Coincync.Chain.Replay
import Coincync.Consensus.SmallChain
import Coincync.Lib.Runs

namespace Coincync

open Lib Option

variable {network : NetworkType} {F G : Type} [Field F] [AddCommGroup G] [Module F G]

namespace Blockchain

/-! ## 1. Actions -/

/-- What can happen to a node. -/
inductive Action (G : Type)
  | add (ctx : Nat → CallContext G) (b : Block G)
  | rollback (targetHeight : Nat)
  | restart

/-- **The start of every run**: `init_genesis` of a node on an empty database. -/
def boot (S : Suite F G) (network : NetworkType) : Except ChainError (Blockchain G) :=
  (withDatabase network (some Database.empty) (some ∅)).initGenesis S

/-- A process start: a load, or `init_genesis` where there is nothing to load. -/
def start (S : Suite F G) (st : Blockchain G) : Option (Blockchain G) :=
  match st.restart S with
  | .ok (some st') => some st'
  | .ok none => ((withDatabase st.network st.db st.utxos.db).initGenesis S).toOption
  | .error _ => none

variable [DecidableEq F] [DecidableEq G]

def step (S : Suite F G) (cfg : NodeConfig) (st : Blockchain G) : Action G → Option (Blockchain G)
  | .add ctx b => (st.addBlock S cfg ctx b).map Prod.fst
  | .rollback targetHeight => (st.rollbackToHeight S cfg targetHeight).map Prod.fst
  | .restart => st.start S

omit [AddCommGroup G] [DecidableEq G] in
/-- The chain state record on disk. -/
def savedState (st : Blockchain G) : Option ChainStateData := st.db.bind Database.state

omit [DecidableEq F] [DecidableEq G] in
@[simp] theorem savedState_storeBlock (S : Suite F G) (st : Blockchain G) (b : Block G) :
    (st.storeBlock S b).savedState = st.savedState := by
  simp only [savedState, storeBlock, modifyDb]
  cases st.db <;> rfl

/-! ## 2. What an action does to the chain -/

omit [AddCommGroup G] [DecidableEq G] in
/-- The actions the invariant survives. -/
def Allowed (st : Blockchain G) : Action G → Prop
  | .add _ _ => st.NoStale
  | .rollback targetHeight => st.RollbackIdle targetHeight ∨
      st.NoStale ∧ st.finalityFloor ≤ targetHeight
  | .restart => True

omit [AddCommGroup G] [DecidableEq G] in
instance (st : Blockchain G) : ∀ a : Action G, Decidable (st.Allowed a)
  | .add _ _ => inferInstanceAs (Decidable st.NoStale)
  | .rollback _ => inferInstanceAs (Decidable (_ ∨ _))
  | .restart => inferInstanceAs (Decidable True)

variable {S : Suite F G} {cfg : NodeConfig} {st st' : Blockchain G} {d : Database G}
  {chain : List (Block G)}

/-- **What an action does to the chain.** -/
inductive ActionStep (S : Suite F G) (cfg : NodeConfig) (st : Blockchain G) (d : Database G)
    (chain : List (Block G)) : Action G → Blockchain G → List (Block G) → Prop
  | add {ctx : Nat → CallContext G} {b : Block G} {st' : Blockchain G}
      {res : Except ChainError (BlockStatus G)} {chain' : List (Block G)} :
      ChainStep S cfg ctx st chain b st' res chain' →
      ActionStep S cfg st d chain (.add ctx b) st' chain'
  | idle (targetHeight : Nat) : ActionStep S cfg st d chain (.rollback targetHeight) st chain
  | rolledBack {st' : Blockchain G} {above below : List (Block G)} {q : Block G} :
      ¬st.RollbackIdle q.height → chain = above ++ q :: below → st.finalityFloor ≤ q.height →
      RollsBack S cfg st d above q st' →
      ActionStep S cfg st d chain (.rollback q.height) st' (q :: below)
  | restarted {st' : Blockchain G} (s : ChainStateData) : Restarts S st d chain s st' →
      ActionStep S cfg st d chain .restart st' chain

section

variable (hc : Canonical S st d chain)
include hc

omit [DecidableEq F] [DecidableEq G] in
theorem Canonical.restart_of_start (h : st.start S = some st') :
    st.restart S = .ok (some st') := by
  unfold start at h
  split at h
  · rename_i st₁ hst₁
    rw [hst₁, Option.some.inj h]
  · -- the database has a state record, so the load does not come out fresh
    rename_i hfresh
    obtain ⟨s, hs, -⟩ := hc.state
    simp only [restart, loadFromDatabase, withDatabase, hc.db, hs] at hfresh
    split at hfresh
    · cases hfresh
    · split_ifs at hfresh
      split at hfresh
      · cases hfresh
      · split_ifs at hfresh
        exact absurd (Except.ok.inj hfresh) (some_ne_none _)
  · cases h

variable {a : Action G}

/-- **Every allowed action steps the chain.** -/
theorem Canonical.actionStep (ha : st.Allowed a)
    (h : st.step S cfg a = some st') : ∃ chain', ActionStep S cfg st d chain a st' chain' := by
  cases a with
  | add ctx b =>
    obtain ⟨⟨st₁, res⟩, hadd, rfl⟩ := map_eq_some_iff.mp h
    obtain ⟨chain', hstep⟩ := hc.chainStep ha hadd
    exact ⟨chain', .add hstep⟩
  | rollback target =>
    obtain ⟨⟨st₁, res⟩, hroll, rfl⟩ := map_eq_some_iff.mp h
    by_cases hidle : st.RollbackIdle target
    · obtain rfl := rollback_idle hidle hroll
      exact ⟨chain, .idle target⟩
    · obtain ⟨-, hfloor⟩ := ha.resolve_left hidle
      have hle : target ≤ st.tip.height := by
        unfold RollbackIdle at hidle
        omega
      obtain ⟨above, q, below, hchain, rfl⟩ := hc.exists_split hle
      exact ⟨q :: below, .rolledBack hidle hchain hfloor (hc.rollsBack hchain hfloor hidle hroll)⟩
  | restart =>
    obtain ⟨s, hs⟩ := hc.restarts (hc.restart_of_start h)
    exact ⟨chain, .restarted s hs⟩

variable {chain' : List (Block G)}

theorem ActionStep.canonical (ha : st.Allowed a) (h : ActionStep S cfg st d chain a st' chain') :
    ∃ d', Canonical S st' d' chain' := by
  cases h with
  | add hstep => exact hstep.canonical hc ha
  | idle => exact ⟨d, hc⟩
  | rolledBack hidle hchain hfloor hroll =>
    exact (hc.rolledBack (ha.resolve_left hidle).1 hchain hfloor hroll).1
  | restarted s hs => exact ⟨d, (hc.restarted hs).1⟩

theorem ActionStep.blocks (h : ActionStep S cfg st d chain a st' chain') :
    st'.network = st.network ∧ ∃ d', st'.db = some d' ∧ (d'.blocks = d.blocks ∨
      ∃ ctx b, a = .add ctx b ∧ Admitted S cfg (ctx 0) st b ∧
        d'.blocks = d.blocks.insert (b.hash S) b) := by
  cases h with
  | idle => exact ⟨rfl, d, hc.db, .inl rfl⟩
  | restarted s hs => exact ⟨hs.network, d, hs.db, .inl rfl⟩
  | rolledBack _ _ _ hroll =>
    obtain ⟨s, -, -, hdb⟩ := hroll.db
    exact ⟨hroll.network, _, hdb, .inl rfl⟩
  | @add ctx b _ _ _ hstep =>
    cases hstep with
    | refused => exact ⟨rfl, d, hc.db, .inl rfl⟩
    | kept _ hadm => exact ⟨rfl, _, (hc.store hadm).db, .inr ⟨ctx, b, rfl, hadm, rfl⟩⟩
    | extended hadm _ hext =>
      have hext := extends_of_eq_some hext
      have hdb := hext.db
      rw [(hc.store hadm).db, map_some] at hdb
      exact ⟨hext.network, _, hdb, .inr ⟨ctx, b, rfl, hadm, rfl⟩⟩
    | failed e hadm _ _ _ hre =>
      cases hre
      exact ⟨rfl, _, (hc.store hadm).db, .inr ⟨ctx, b, rfl, hadm, rfl⟩⟩
    | committed orphaned hadm _ _ hre =>
      cases hre with
      | committed _ _ _ hconnected hcommit =>
        have hcom := commits_of_eq_some hcommit
        have hdb := hcom.db
        rw [hconnected] at hdb
        change st'.db = (st.storeBlock S b).db.map _ at hdb
        rw [(hc.store hadm).db, map_some] at hdb
        have hnetwork : st'.network = st.network := by
          rw [hcom.network, hconnected]
          rfl
        exact ⟨hnetwork, _, hdb, .inr ⟨ctx, b, rfl, hadm, rfl⟩⟩

end

/-! ## 3. The start of a run -/

omit [DecidableEq F] [DecidableEq G] in
theorem boot_eq_ok (h : boot S network = .ok st) :
    (createGenesisBlockFor S network).hash S = expectedGenesisHash network ∧
      st = (withDatabase network (some Database.empty) (some ∅)).applyGenesis S := by
  unfold boot initGenesis at h
  simp only [] at h
  split_ifs at h with hne
  exact ⟨not_not.mp hne, (Except.ok.inj h).symm⟩

omit [DecidableEq F] [DecidableEq G] in
/-- **A booted node has the genesis chain.** -/
theorem canonical_of_boot (h : boot S network = .ok st) :
    (∃ d, Canonical S st d [createGenesisBlockFor S network]) ∧ st.NoStale := by
  obtain ⟨hgenesis, rfl⟩ := boot_eq_ok h
  generalize hg : createGenesisBlockFor S network = g at hgenesis
  have h0 : g.height = 0 := by
    rw [← hg]
    exact createGenesisBlockFor_height_eq S network
  -- every map has one entry, for the genesis block
  have hone : ∀ {K V : Type} [DecidableEq K] (a : K) (v : V) k x,
      ((∅ : Map K V).insert a v).lookup k = some x ↔ k = a ∧ v = x := by
    intro K V _ a v k x
    rw [Map.lookup_insert_ite, Finmap.lookup_empty]
    split_ifs with hk
    · simp [hk]
    · simp [hk]
  have hblock := hone (g.hash S) g
  have hheight := hone 0 (g.hash S)
  have hlineage : Lineage (blockLinks S) g [g] := .root h0
  unfold applyGenesis withDatabase persistOutputIndex modifyOutputIndex modifyDb
  simp only [map_some, Database.empty, hg]
  refine ⟨⟨_, rfl, ?_, ?_, ?_, ?_, ?_, ?_, ?_, ?_, ?_, ?_⟩, ?_⟩
  · rw [hg]
    exact hgenesis
  · rw [hg]
    refine ⟨fun k b hb => ((hblock k b).mp hb).2 ▸ ((hblock k b).mp hb).1.symm,
      (hblock _ _).mpr ⟨rfl, rfl⟩, h0, fun k b hb _ => ((hblock k b).mp hb).2.symm,
      fun k b hb hne => absurd ?_ hne⟩
    rw [← ((hblock k b).mp hb).2]
    exact h0
  · exact fun k b hb => hb
  · rw [hg]
    exact hlineage
  · intro b hb
    rw [List.mem_singleton.mp hb]
    exact (hblock _ _).mpr ⟨rfl, rfl⟩
  · exact ⟨g, [], rfl, rfl, h0.symm⟩
  · intro k x
    rw [hheight]
    constructor
    · rintro ⟨rfl, rfl⟩
      exact ⟨g, List.mem_singleton_self g, h0, rfl⟩
    · rintro ⟨b, hb, rfl, rfl⟩
      rw [List.mem_singleton.mp hb]
      exact ⟨h0, rfl⟩
  · exact fun k x _ hx => hx
  · intro b hb
    rw [List.mem_singleton.mp (List.mem_of_mem_filter hb), h0]
    exact ⟨(hheight _ _).mpr ⟨rfl, rfl⟩, (hblock _ _).mpr ⟨rfl, rfl⟩⟩
  · exact ⟨_, rfl, rfl, rfl⟩
  · refine noStale_of_lookup fun k x hx => ?_
    exact ((hheight k x).mp hx).1.le

theorem exists_canonical {st₀ : Blockchain G} (h₀ : boot S network = .ok st₀)
    (h : Reaches (step S cfg) Allowed st₀ st) : ∃ d chain, Canonical S st d chain := by
  refine Reaches.invariant (I := fun st => ∃ d chain, Canonical S st d chain) ?_ ?_ h
  · obtain ⟨⟨d, hc⟩, -⟩ := canonical_of_boot h₀
    exact ⟨d, _, hc⟩
  · rintro s a s' ⟨d, chain, hc⟩ ha hs
    obtain ⟨chain', hstep⟩ := hc.actionStep ha hs
    obtain ⟨d', hc'⟩ := hstep.canonical hc ha
    exact ⟨d', chain', hc'⟩

end Blockchain

/-! ## 4. A small run -/

namespace SmallChain

open Blockchain SmallSuite

/-- The booted node of the small chain. -/
def booted : Blockchain Z :=
  (withDatabase .regtest (some Database.empty) (some ∅)).applyGenesis suite

theorem boot_booted : boot suite .regtest = .ok booted := by
  unfold boot initGenesis
  exact if_neg (not_not.mpr genesis_hash)

def after (st : Blockchain Z) (a : Action Z) : Blockchain Z :=
  (st.step suite cfg a).getD st

theorem step_after {st : Blockchain Z} {a : Action Z}
    (h : (st.step suite cfg a).isSome = true) : st.step suite cfg a = some (after st a) := by
  obtain ⟨st', hst'⟩ := isSome_iff_exists.mp h
  rw [after, hst', getD_some]

/-- The node after its first start. -/
def restarted : Blockchain Z := after booted .restart

theorem booted_restart : booted.step suite cfg .restart = some restarted :=
  step_after (by decide +kernel)

/-- The node with the first block. -/
def grown : Blockchain Z := after restarted (.add (fun _ => ctx) block1)

theorem restarted_add : restarted.step suite cfg (.add (fun _ => ctx) block1) = some grown :=
  step_after (by decide +kernel)

def steady : Nat → CallContext Z := fun _ => ctx

def heavy1 : Block Z :=
  emptyChild genesis ⟨⟨[0x00, 0x06, 0x8d, 0xb8] ++ List.replicate 28 0, rfl⟩⟩ 20

/-- The next target after these blocks. -/
def nextTarget (blocks : List (Block Z)) : Hash :=
  calculateDifficulty (blocks.map fun b => b.difficultyBlock b.height) blocks.length

/-- A side chain of two blocks that wins at height 2. -/
def light1 : Block Z := emptyChild genesis (Hash.fromDifficulty 8192) 7

def light2 : Block Z := emptyChild light1 (nextTarget [genesis, light1]) 8

/-- What a booted node comes to, with any actions. -/
def ranOn (actions : List (Action Z)) : Option (Blockchain Z) :=
  run (step suite cfg) (fun _ _ => true) booted actions

theorem reaches_ranOn {actions : List (Action Z)} (h : (ranOn actions).isSome = true) :
    Reaches (step suite cfg) (fun _ _ => True) booted ((ranOn actions).getD booted) := by
  obtain ⟨st, hst⟩ := isSome_iff_exists.mp h
  rw [hst]
  exact .run (fun _ _ _ => trivial) .start hst

end SmallChain

end Coincync
