/-
# The tip only improves

Fork choice prefers more cumulative work and, at equal work, the smaller tip hash: the order
`Outranks`.  `take_fork` compares the running total of the main chain with the walk down the side
chain, and where the total is right it decides exactly this order (`takeFork_iff`); an extension
adds work.  So every change of the tip is an improvement, from the first start after
`init_genesis` on.  Before it the total is one short, and a side chain of LESS work can win
(`SmallChain.less_work_wins`).
-/
import Coincync.Chain.Work

namespace Coincync

open Lib

variable {F G : Type} [Field F] [AddCommGroup G] [Module F G]

/-! ## 1. The order -/

/-- **The preference of fork choice**: more work, or equal work and the smaller hash. -/
def Outranks (work' : Nat) (hash' : Hash) (work : Nat) (hash : Hash) : Prop :=
  work < work' ∨ work' = work ∧ hash'.lt hash = true

instance (work' : Nat) (hash' : Hash) (work : Nat) (hash : Hash) :
    Decidable (Outranks work' hash' work hash) :=
  inferInstanceAs (Decidable (_ ∨ _))

namespace Blockchain

variable {S : Suite F G} {st st' : Blockchain G} {d : Database G} {chain : List (Block G)}
  {b : Block G}

omit [AddCommGroup G] in
theorem work_pos (b : Block G) : 0 < b.work := by
  unfold Block.work calculateDifficultyFromTarget
  split_ifs with h0
  · decide
  · exact Nat.div_pos (targetToU128_le _) (pos_of_ne_zero h0)

variable [DecidableEq F] [DecidableEq G] {cfg : NodeConfig} {ctx : Nat → CallContext G}

theorem takeFork_of_acceptedReorg {orphaned : List (Transaction G)}
    (h : st.addBlock S cfg ctx b = some (st', .ok (.acceptedReorg orphaned))) :
    (st.storeBlock S b).takeFork S b = true := by
  cases addBlock_step h with
  | refused status hq => exact hq.elim
  | kept res _ _ hq => exact hq.elim
  | reorganized forkPoint _ _ htake => exact htake

/-- **`take_fork` decides the order**, where the running total has the work of the chain. -/
theorem WorkAgrees.takeFork_iff (hw : WorkAgrees st chain) (hc : Canonical S st d chain)
    (hadm : Admitted S cfg (ctx 0) st b) (hlt : chainWork (st.lineageOf S b) < 2 ^ 128) :
    (st.storeBlock S b).takeFork S b = true ↔
      Outranks (chainWork (st.lineageOf S b)) (b.hash S) (chainWork chain) st.tip.hash := by
  obtain ⟨p, rest, -, hl, hst, heq⟩ := hc.arrival hadm
  have hstored : Stored (blockLinks S) (st.storeBlock S b).getBlock (p :: rest) := by
    rw [(hc.store hadm).getBlock_eq]
    exact hst.mono (hc.lookup_insert_of_admitted hadm)
  rw [heq] at hlt ⊢
  have hfork := forkWork_eq hl hstored hlt
  have htotal : (st.storeBlock S b).stats.totalDifficulty = chainWork chain := hw.memory
  have htip : (st.storeBlock S b).tip = st.tip := rfl
  simp only [takeFork, hfork, htotal, htip, Outranks]
  split_ifs with hmore hequal
  · exact iff_of_true rfl (.inl hmore)
  · exact ⟨fun h => .inr ⟨hequal, h⟩, fun h => h.elim (absurd · hmore) And.right⟩
  · refine iff_of_false (by simp) ?_
    rintro (h | ⟨h, -⟩)
    · exact hmore h
    · exact hequal h

/-! ## 2. Every change is an improvement -/

/-- **Every change of the tip improves the pair of work and hash**, in every run from the first
start after `init_genesis` on without a rollback that does something and without stale heights,
as long as the work fits a `u128`. -/
theorem tip_change_outranks {network : NetworkType} {st₀ st₁ : Blockchain G}
    {res : Except ChainError (BlockStatus G)} (h₀ : boot S network = .ok st₀)
    (h₁ : st₀.step S cfg .restart = some st₁) (h : Reaches (step S cfg) (WorkStep S) st₁ st)
    (ha : WorkStep S st (.add ctx b)) (hadd : st.addBlock S cfg ctx b = some (st', res))
    (hne : st'.tip.hash ≠ st.tip.hash) :
    Outranks (chainWork (st'.canonicalChain S)) st'.tip.hash (chainWork (st.canonicalChain S))
      st.tip.hash := by
  obtain ⟨d, chain, hc, hw⟩ := exists_workAgrees h₀ h₁ h
  obtain ⟨hs, hlt⟩ := ha
  obtain ⟨chain', hstep⟩ := hc.chainStep hs hadd
  obtain ⟨d', hc'⟩ := hstep.canonical hc hs
  rw [hc.canonicalChain_eq, hc'.canonicalChain_eq]
  cases hstep with
  | refused => exact absurd rfl hne
  | kept => exact absurd rfl hne
  | failed e _ _ _ _ hre =>
    cases hre
    exact absurd rfl hne
  | extended hadm hlin hext =>
    -- the block adds its own work
    left
    rw [chainWork_cons_of_pos (hc.admitted_height hadm)]
    have := work_pos b
    omega
  | committed orphaned hadm hlin hbr hre =>
    have htip : st'.tip.hash = b.hash S := by
      cases hre with
      | committed _ _ _ _ hcommit => rw [(commits_of_eq_some hcommit).tip]; rfl
    rw [htip, ← hlin]
    exact (hw.takeFork_iff hc hadm hlt).mp (takeFork_of_acceptedReorg hadd)

end Blockchain

/-! ## 3. On the small chain -/

namespace SmallChain

open Blockchain SmallSuite

def harder1 : Block Z := emptyChild genesis (u128ToTarget (u128Max / 4097)) 5

/-- The booted node with that block on top. -/
def hardened : Blockchain Z := after booted (.add (fun _ => ctx) harder1)

/-- **A reorganisation to less work.**  The running total of a booted node leaves out the genesis
block, the walk down the side chain counts it: the two come out equal, and the hash decides. -/
theorem less_work_wins : booted.step suite cfg (.add (fun _ => ctx) harder1) = some hardened ∧
    hardened.tip.hash = harder1.hash suite ∧ chainWork (hardened.canonicalChain suite) = 4098 ∧
    (hardened.step suite cfg (.add (fun _ => ctx) block1)).map (fun st =>
        (st.tip.hash, chainWork (st.canonicalChain suite))) =
      some (block1.hash suite, 4097) := by
  refine ⟨step_after ?_, ?_⟩
  · decide +kernel
  · decide +kernel

/-- The same two blocks the other way round, on a node that was started once: the harder block
wins, and it has more work. -/
theorem grown_tip_improves :
    ∃ st, (grown.addBlock suite cfg (fun _ => ctx) harder1).map Prod.fst = some st ∧
      st.tip.hash = harder1.hash suite ∧
      Outranks (chainWork (st.canonicalChain suite)) st.tip.hash
        (chainWork (grown.canonicalChain suite)) grown.tip.hash := by
  have hrun : WorkStep suite restarted (.add (fun _ => ctx) block1) ∧
      WorkStep suite grown (.add (fun _ => ctx) harder1) ∧
      ((grown.addBlock suite cfg (fun _ => ctx) harder1).any fun r =>
        decide (r.1.tip.hash = harder1.hash suite) && decide (r.1.tip.hash ≠ grown.tip.hash)) =
          true := by
    decide +kernel
  obtain ⟨⟨st, res⟩, hst, htip⟩ := (Option.any_eq_true _ _).mp hrun.2.2
  obtain ⟨htip, hne⟩ := Bool.and_eq_true_iff.mp htip
  refine ⟨st, by rw [hst]; rfl, of_decide_eq_true htip, ?_⟩
  exact tip_change_outranks boot_booted booted_restart (.next _ .start hrun.1 restarted_add)
    hrun.2.1 hst (of_decide_eq_true hne)

end SmallChain

end Coincync
