/-
# Trees of blocks

Fork choice is about a TREE: blocks on top of one root, every block with its parent.  The branch of
a block is its lineage in the tree, and a node that is given the blocks one after the other holds a
part of the tree at every moment.
-/
import Coincync.Chain.TipOrder

namespace Coincync

open Lib List

/-! ## 1. The order of fork choice -/

instance linearOrderUInt8 : LinearOrder UInt8 where
  le_refl := UInt8.le_refl
  le_trans _ _ _ := UInt8.le_trans
  le_antisymm _ _ := UInt8.le_antisymm
  le_total := UInt8.le_total
  lt_iff_le_not_ge _ _ := by
    simp only [UInt8.lt_iff_toNat_lt, UInt8.le_iff_toNat_le]
    omega
  toDecidableLE := inferInstance

/-- Work first, then the hash, where the smaller one is better. -/
def forkRank (work : Nat) (hash : Hash) : ℕ ×ₗ (List UInt8)ᵒᵈ :=
  toLex (work, OrderDual.toDual hash.asSlice)

variable {hash' hash : Hash}

/-- **The preference of fork choice is a linear order.** -/
theorem outranks_iff {work' work : Nat} :
    Outranks work' hash' work hash ↔ forkRank work hash < forkRank work' hash' := by
  unfold forkRank Outranks Hash.lt
  rw [Prod.Lex.toLex_lt_toLex]
  simp only [OrderDual.toDual_lt_toDual, decide_eq_true_eq]
  rw [@eq_comm _ work' work]

theorem forkRank_inj {work' work : Nat}
    (h : forkRank work hash = forkRank work' hash') : hash = hash' := by
  have hpair := Prod.mk.inj (toLex.injective h)
  exact Hash.asSlice_inj (OrderDual.toDual.injective hpair.2)

theorem Outranks.trans {w w' w'' : Nat} {x x' x'' : Hash} (h : Outranks w x w' x')
    (h' : Outranks w' x' w'' x'') : Outranks w x w'' x'' := by
  rw [outranks_iff] at *
  exact h'.trans h

theorem Outranks.asymm {w w' : Nat} {x x' : Hash} (h : Outranks w x w' x') :
    ¬Outranks w' x' w x := by
  rw [outranks_iff] at *
  exact h.asymm

theorem outranks_of_not {w w' : Nat} {x x' : Hash} (hne : x ≠ x') (h : ¬Outranks w' x' w x) :
    Outranks w x w' x' := by
  rw [outranks_iff] at *
  exact lt_of_le_of_ne (not_lt.mp h) fun heq => hne (forkRank_inj heq).symm

/-! ## 2. Branches -/

variable {F G : Type} [Field F] [AddCommGroup G] [Module F G]

section

variable (S : Suite F G) (root : Block G) (tree : List (Block G))

/-- The blocks on top of the root, and the root, by their hashes. -/
def treeBlock (k : Hash) : Option (Block G) := (root :: tree).find? fun x => decide (x.hash S = k)

/-- **The branch of a block**: its lineage in the tree, newest first. -/
def branch (b : Block G) : List (Block G) :=
  b :: ancestors (blockLinks S) (treeBlock S root tree) b.height b.header.prevHash

/-- Fork choice prefers the branch of `y` to the branch of `x`. -/
def Prefers (y x : Block G) : Prop :=
  Outranks (chainWork (branch S root tree y)) (y.hash S) (chainWork (branch S root tree x)) (x.hash S)

instance (y x : Block G) : Decidable (Prefers S root tree y x) :=
  inferInstanceAs (Decidable (Outranks _ _ _ _))

/-- The blocks on the branch of `x` that are not on the branch of `y`, newest first. -/
def apart [DecidableEq G] (x y : Block G) : List (Block G) :=
  (branch S root tree x).filter fun a => a ∉ branch S root tree y

/-- **A tree of blocks**: no two have one hash, and each has its parent, one lower. -/
@[mk_iff]
structure BlockTree : Prop where
  root_height : root.height = 0
  distinct : ((root :: tree).map (Block.hash S)).Nodup
  rooted : ∀ b ∈ tree, ∃ p ∈ root :: tree, b.header.prevHash = p.hash S ∧ b.height = p.height + 1

instance : Decidable (BlockTree S root tree) :=
  decidable_of_iff' _ (blockTree_iff S root tree)

end

variable {S : Suite F G} {root : Block G} {tree : List (Block G)} {x y b : Block G}
  {below above : List (Block G)}

theorem treeBlock_eq_some {k : Hash} (h : treeBlock S root tree k = some x) :
    x ∈ root :: tree ∧ x.hash S = k := by
  refine ⟨mem_of_find?_eq_some h, ?_⟩
  have hkey := find?_some (p := fun x : Block G => decide (x.hash S = k)) h
  exact of_decide_eq_true hkey

namespace BlockTree

section

variable (ht : BlockTree S root tree)

include ht

theorem eq_of_hash (hx : x ∈ root :: tree) (hy : y ∈ root :: tree) (h : x.hash S = y.hash S) :
    x = y :=
  inj_on_of_nodup_map ht.distinct hx hy h

theorem treeBlock_hash (hx : x ∈ root :: tree) : treeBlock S root tree (x.hash S) = some x := by
  cases h : treeBlock S root tree (x.hash S) with
  | none =>
    rw [treeBlock, find?_eq_none] at h
    exact absurd (decide_eq_true rfl) (h x hx)
  | some y =>
    obtain ⟨hy, hhash⟩ := treeBlock_eq_some h
    rw [ht.eq_of_hash hy hx hhash]

theorem root_notMem : root ∉ tree := by
  intro hmem
  have hnodup := ht.distinct
  rw [map_cons, nodup_cons] at hnodup
  exact hnodup.1 (mem_map_of_mem hmem)

theorem closed : Closed (blockLinks S) root (treeBlock S root tree) := by
  refine ⟨fun k b hb => (treeBlock_eq_some hb).2, ht.treeBlock_hash (.head _),
    ht.root_height, fun k b hb h0 => ?_, fun k b hb h0 => ?_⟩
  · rcases mem_cons.mp (treeBlock_eq_some hb).1 with rfl | hmem
    · rfl
    · obtain ⟨p, -, -, hheight⟩ := ht.rooted b hmem
      have hzero : b.height = 0 := h0
      omega
  · rcases mem_cons.mp (treeBlock_eq_some hb).1 with rfl | hmem
    · exact absurd ht.root_height h0
    · obtain ⟨p, hp, hprev, hheight⟩ := ht.rooted b hmem
      refine ⟨p, ?_, hheight⟩
      change treeBlock S root tree b.header.prevHash = some p
      rw [hprev]
      exact ht.treeBlock_hash hp

theorem stored {l : List (Block G)} (hl : ∀ x ∈ l, x ∈ root :: tree) :
    Stored (blockLinks S) (treeBlock S root tree) l := fun x hx => ht.treeBlock_hash (hl x hx)

/-- **A lineage in the tree is the branch of its block.** -/
theorem branch_eq {rest : List (Block G)} (hl : Lineage (blockLinks S) root (b :: rest))
    (hmem : ∀ x ∈ rest, x ∈ root :: tree) : branch S root tree b = b :: rest := by
  unfold branch
  cases hl with
  | root h0 =>
    rw [ht.root_height]
    rfl
  | @cons _ p rest hp hh hl =>
    have hparent : b.header.prevHash = p.hash S := hp
    have hheight : b.height = p.height + 1 := hh
    rw [hparent, hheight]
    exact congrArg (b :: ·) (ancestors_eq hl (ht.stored hmem))

section

variable (hb : b ∈ root :: tree)

include hb

theorem branch_spec :
    ∃ rest, branch S root tree b = b :: rest ∧ Lineage (blockLinks S) root (b :: rest) ∧
      ∀ x ∈ b :: rest, x ∈ root :: tree := by
  obtain ⟨rest, hl, hs⟩ := ht.closed.exists_lineage b.height rfl (ht.treeBlock_hash hb)
  have hmem : ∀ x ∈ b :: rest, x ∈ root :: tree := fun x hx => (treeBlock_eq_some (hs x hx)).1
  exact ⟨rest, ht.branch_eq hl fun x hx => hmem x (.tail _ hx), hl, hmem⟩

theorem lineage_branch : Lineage (blockLinks S) root (branch S root tree b) := by
  obtain ⟨rest, heq, hl, -⟩ := ht.branch_spec hb
  exact heq ▸ hl

theorem mem_of_mem_branch (hx : x ∈ branch S root tree b) : x ∈ root :: tree := by
  obtain ⟨rest, heq, -, hmem⟩ := ht.branch_spec hb
  exact hmem x (heq ▸ hx)

theorem height_le_of_mem_branch (hx : x ∈ branch S root tree b) : x.height ≤ b.height := by
  obtain ⟨rest, heq, hl, -⟩ := ht.branch_spec hb
  exact hl.height_le (heq ▸ hx)

theorem branch_suffix (h : branch S root tree b = above ++ x :: below) :
    branch S root tree x = x :: below := by
  have hl := ht.lineage_branch hb
  rw [h] at hl
  refine ht.branch_eq (hl.suffix above) fun y hy => ht.mem_of_mem_branch hb ?_
  rw [h]
  exact mem_append_right _ (.tail _ hy)

theorem parent_of_branch {p : Block G} (h : branch S root tree b = above ++ x :: p :: below) :
    x ∈ tree ∧ p ∈ root :: tree ∧ x.header.prevHash = p.hash S := by
  have hmem : ∀ y ∈ x :: p :: below, y ∈ root :: tree := fun y hy =>
    ht.mem_of_mem_branch hb (h ▸ mem_append_right _ hy)
  have hl : Lineage (blockLinks S) root (x :: p :: below) := (h ▸ ht.lineage_branch hb).suffix above
  cases hl with
  | cons hprev hheight _ =>
    refine ⟨?_, hmem p (.tail _ (.head _)), hprev⟩
    rcases mem_cons.mp (hmem x (.head _)) with rfl | hx
    · have h0 := ht.root_height
      have hsucc : x.height = p.height + 1 := hheight
      omega
    · exact hx

end

/-- **Two branches part once.** -/
theorem meet (hx : x ∈ root :: tree) (hy : y ∈ root :: tree) :
    ∃ above side q below,
      branch S root tree x = above ++ q :: below ∧ branch S root tree y = side ++ q :: below ∧
      (∀ a ∈ above, a ∉ branch S root tree y) ∧ ∀ a ∈ side, a ∉ branch S root tree x := by
  obtain ⟨above, side, q, below, hbx, hby, -, hfirst⟩ :=
    (ht.lineage_branch hx).meet (ht.lineage_branch hy)
      (ht.stored fun a ha => ht.mem_of_mem_branch hx ha)
      (ht.stored fun a ha => ht.mem_of_mem_branch hy ha)
  refine ⟨above, side, q, below, hbx, hby, ?_, hfirst⟩
  rw [hby]
  exact (hbx ▸ ht.lineage_branch hx).notMem_of_meet (hbx ▸ hfirst)

end

theorem apart_sublist [DecidableEq G] (hx : branch S root tree x = above ++ below)
    (hbelow : ∀ a ∈ below, a ∈ branch S root tree y) : (apart S root tree x y).Sublist above := by
  have hnone : below.filter (fun a => decide (a ∉ branch S root tree y)) = [] := by
    refine filter_eq_nil_iff.mpr fun a ha => ?_
    rw [decide_eq_true_iff, not_not]
    exact hbelow a ha
  rw [apart, hx, filter_append, hnone, append_nil]
  exact filter_sublist

theorem apart_eq [DecidableEq G] {q : Block G} {side : List (Block G)}
    (hx : branch S root tree x = above ++ q :: below)
    (hy : branch S root tree y = side ++ q :: below)
    (hfirst : ∀ a ∈ above, a ∉ branch S root tree y) : apart S root tree x y = above := by
  have hsub := apart_sublist hx fun a ha => hy ▸ mem_append_right side ha
  refine hsub.antisymm ?_
  rw [apart, hx, filter_append, filter_eq_self.mpr fun a ha => decide_eq_true (hfirst a ha)]
  exact sublist_append_left _ _

variable (ht : BlockTree S root tree) (hy : y ∈ root :: tree) (hx : x ∈ branch S root tree y)

include ht hy hx in
theorem apart_eq_nil [DecidableEq G] :
    apart S root tree x y = [] := by
  obtain ⟨above, below, heq⟩ := append_of_mem hx
  refine sublist_nil.mp (apart_sublist (nil_append _).symm fun a ha => ?_)
  rw [ht.branch_suffix hy heq] at ha
  rw [heq]
  exact mem_append_right _ ha

theorem height_le_of_apart [DecidableEq G] (ht : BlockTree S root tree) (hx : x ∈ root :: tree)
    (hy : y ∈ root :: tree) : x.height ≤ y.height + (apart S root tree x y).length := by
  obtain ⟨above, side, q, below, hbx, hby, habove, -⟩ := ht.meet hx hy
  rw [apart_eq hbx hby habove]
  have hq : q.height ≤ y.height := ht.height_le_of_mem_branch hy (by rw [hby]; simp)
  obtain ⟨rest, heq, hl, -⟩ := ht.branch_spec hx
  have h1 : rest.length = x.height := hl.length_eq
  have h2 : below.length = q.height := ((hbx ▸ ht.lineage_branch hx).suffix above).length_eq
  have h3 := congrArg List.length (heq.symm.trans hbx)
  simp only [length_append, length_cons] at h3
  omega

/-! ## 3. Descendants are preferred -/

theorem chainWork_append_lt {root' q : Block G} :
    ∀ {above : List (Block G)}, Lineage (blockLinks S) root' (above ++ q :: below) → above ≠ [] →
      chainWork (q :: below) < chainWork (above ++ q :: below)
  | [], _, hne => absurd rfl hne
  | a :: above, hl, _ => by
    have hpos : 0 < a.height := by
      have hlt : q.height < a.height := hl.height_lt q (by simp)
      omega
    have hwork := Blockchain.work_pos a
    rw [cons_append, chainWork_cons_of_pos hpos]
    by_cases hnil : above = []
    · subst hnil
      rw [nil_append]
      omega
    · have ih := chainWork_append_lt hl.tail_append hnil
      omega

include ht hy hx in
/-- **A block is preferred to its ancestors.** -/
theorem prefers_of_mem (hne : x ≠ y) : Prefers S root tree y x := by
  obtain ⟨above, below, heq⟩ := append_of_mem hx
  have hnil : above ≠ [] := by
    rintro rfl
    exact hne (List.cons.inj heq).1.symm
  refine .inl ?_
  rw [ht.branch_suffix hy heq, heq]
  exact chainWork_append_lt (heq ▸ ht.lineage_branch hy) hnil

end BlockTree

end Coincync
