/-
# Paths in a hash tree

A path from a leaf to a root: at every level a sibling and the side our node is on.  Two climbs that
end in one root meet their leaves in the same place as long as the sides agree from the top and no
two of the pairs hashed on the way collide (`Clean.leaf_eq`).  If the sides part somewhere, the two
leaves are in different places of one tree, and any tree will do: `treeHash` hashes a labelled tree
to its labels, and `climb_walk` climbs it.
-/
import Mathlib

namespace Coincync.Lib

open List

variable {depth : Nat} {D : Type}

/-! ## 1. Climbing -/

/-- Our node and its sibling, in order; `true` puts our node on the right. -/
def sideBySide (right : Bool) (sibling node : D) : D × D :=
  if right then (sibling, node) else (node, sibling)

theorem sideBySide_inj {b : Bool} {s s' x x' : D} (h : sideBySide b s x = sideBySide b s' x') :
    x = x' := by
  cases b with
  | true => exact (Prod.mk.inj h).2
  | false => exact (Prod.mk.inj h).1

/-- The root above a leaf, given the steps from the top. -/
def climb (combine : D → D → D) (leaf : D) : List (Bool × D) → D
  | [] => leaf
  | (b, s) :: rest =>
    combine (sideBySide b s (climb combine leaf rest)).1 (sideBySide b s (climb combine leaf rest)).2

/-- The pairs that are hashed on the way. -/
def hashedPairs (combine : D → D → D) (leaf : D) : List (Bool × D) → List (D × D)
  | [] => []
  | (b, s) :: rest => sideBySide b s (climb combine leaf rest) :: hashedPairs combine leaf rest

theorem climb_append (combine : D → D → D) (leaf : D) (l l' : List (Bool × D)) :
    climb combine leaf (l ++ l') = climb combine (climb combine leaf l') l := by
  induction l with
  | nil => rfl
  | cons step l ih => simp only [cons_append, climb, ih]

/-- One list of sides continues the other. -/
def Comparable (p q : List Bool) : Prop := p <+: q ∨ q <+: p

theorem comparable_cons_iff {b b' : Bool} {p q : List Bool} :
    Comparable (b :: p) (b' :: q) ↔ b = b' ∧ Comparable p q := by
  simp only [Comparable, cons_prefix_cons]
  constructor
  · rintro (⟨hb, h⟩ | ⟨hb, h⟩)
    · exact ⟨hb, .inl h⟩
    · exact ⟨hb.symm, .inr h⟩
  · rintro ⟨hb, h | h⟩
    · exact .inl ⟨hb, h⟩
    · exact .inr ⟨hb.symm, h⟩

/-- **No accident on either way**: no two hashed pairs collide, and no leaf is an inner node. -/
structure Clean (combine : D → D → D) (leaf leaf' : D) (steps steps' : List (Bool × D)) : Prop where
  injective : ∀ x ∈ hashedPairs combine leaf steps ++ hashedPairs combine leaf' steps',
    ∀ y ∈ hashedPairs combine leaf steps ++ hashedPairs combine leaf' steps',
      combine x.1 x.2 = combine y.1 y.2 → x = y
  outer : ∀ x ∈ hashedPairs combine leaf steps ++ hashedPairs combine leaf' steps',
    combine x.1 x.2 ≠ leaf ∧ combine x.1 x.2 ≠ leaf'

variable {combine : D → D → D} {label : Bool → List Bool → D}

theorem Clean.tail {leaf leaf' : D} {x x' : Bool × D} {rest rest' : List (Bool × D)}
    (h : Clean combine leaf leaf' (x :: rest) (x' :: rest')) :
    Clean combine leaf leaf' rest rest' := by
  have hsub : ∀ y ∈ hashedPairs combine leaf rest ++ hashedPairs combine leaf' rest',
      y ∈ hashedPairs combine leaf (x :: rest) ++ hashedPairs combine leaf' (x' :: rest') := by
    intro y hy
    rcases mem_append.mp hy with hy | hy
    · exact mem_append_left _ (.tail _ hy)
    · exact mem_append_right _ (.tail _ hy)
  exact ⟨fun y hy z hz => h.injective y (hsub y hy) z (hsub z hz), fun y hy => h.outer y (hsub y hy)⟩

/-- **One root and comparable sides: one leaf.** -/
theorem Clean.leaf_eq {leaf leaf' : D} :
    ∀ {steps steps' : List (Bool × D)}, Clean combine leaf leaf' steps steps' →
      climb combine leaf steps = climb combine leaf' steps' →
      Comparable (steps.map Prod.fst) (steps'.map Prod.fst) → leaf = leaf'
  | [], [], _, hroot, _ => hroot
  | [], (b', s') :: rest', h, hroot, _ =>
    -- the first leaf is the other path's root, an inner node
    absurd hroot.symm (h.outer _ (mem_append_right _ (.head _))).1
  | (b, s) :: rest, [], h, hroot, _ =>
    absurd hroot (h.outer _ (mem_append_left _ (.head _))).2
  | (b, s) :: rest, (b', s') :: rest', h, hroot, hsides => by
    obtain ⟨rfl, hrest⟩ := comparable_cons_iff.mp hsides
    have hpair := h.injective _ (mem_append_left _ (.head _)) _
      (mem_append_right _ (.head _)) hroot
    exact h.tail.leaf_eq (sideBySide_inj hpair) hrest

/-! ## 2. Labelled trees -/

/-- The labels of the two children of a place. -/
def children (label : List Bool → D) (p : List Bool) : D × D :=
  (label (p ++ [false]), label (p ++ [true]))

/-- The steps down from a place, from the top. -/
def walk (label : List Bool → D) (p : List Bool) : List Bool → List (Bool × D)
  | [] => []
  | b :: q => (b, label (p ++ [!b])) :: walk label (p ++ [b]) q

theorem map_fst_walk (label : List Bool → D) (p q : List Bool) :
    (walk label p q).map Prod.fst = q := by
  induction q generalizing p with
  | nil => rfl
  | cons b q ih => rw [walk, map_cons, ih]

theorem length_walk (label : List Bool → D) (p q : List Bool) :
    (walk label p q).length = q.length := by
  have hlen : ((walk label p q).map Prod.fst).length = q.length := by rw [map_fst_walk]
  rwa [length_map] at hlen

theorem sideBySide_label (label : List Bool → D) (p : List Bool) (b : Bool) :
    sideBySide b (label (p ++ [!b])) (label (p ++ [b])) = children label p := by
  cases b <;> rfl

/-- A function that hashes the labelled tree, down to a depth. -/
def Hashes (combine : D → D → D) (label : List Bool → D) (depth : Nat) : Prop :=
  ∀ p, p.length < depth → combine (children label p).1 (children label p).2 = label p

/-- **Climbing what was walked down.** -/
theorem climb_walk {label : List Bool → D} (h : Hashes combine label depth) (q : List Bool) :
    ∀ p : List Bool,
    p.length + q.length ≤ depth → climb combine (label (p ++ q)) (walk label p q) = label p := by
  induction q with
  | nil =>
    intro p _
    rw [append_nil]
    rfl
  | cons b q ih =>
    intro p hdepth
    have hlen : (p ++ [b]).length + q.length ≤ depth := by
      rw [length_append, length_singleton]
      rw [length_cons] at hdepth
      omega
    have hbelow := ih (p ++ [b]) hlen
    rw [append_assoc, singleton_append] at hbelow
    rw [walk, climb, hbelow, sideBySide_label]
    refine h p ?_
    rw [length_cons] at hdepth
    omega

theorem mem_hashedPairs_walk {label : List Bool → D} (h : Hashes combine label depth)
    (q : List Bool) : ∀ (p : List Bool) (x : D × D),
    p.length + q.length ≤ depth → x ∈ hashedPairs combine (label (p ++ q)) (walk label p q) →
      ∃ r, r <+: p ++ q ∧ r.length < (p ++ q).length ∧ x = children label r := by
  induction q with
  | nil =>
    intro p x _ hx
    cases hx
  | cons b q ih =>
    intro p x hdepth hx
    have happ : p ++ b :: q = p ++ [b] ++ q := by
      rw [append_assoc, singleton_append]
    have hlen : (p ++ [b]).length + q.length ≤ depth := by
      rw [length_append, length_singleton]
      rw [length_cons] at hdepth
      omega
    rw [walk, hashedPairs, mem_cons] at hx
    rcases hx with rfl | hx
    · refine ⟨p, prefix_append _ _, ?_, ?_⟩
      · rw [length_append, length_cons]
        omega
      · rw [happ, climb_walk h q _ hlen, sideBySide_label]
    · rw [happ] at hx ⊢
      exact ih (p ++ [b]) x hlen hx

/-- Different places of the two trees have different labels, down to a depth. -/
def Distinct (label : Bool → List Bool → D) (depth : Nat) : Prop :=
  ∀ t p t' p', p.length ≤ depth → p'.length ≤ depth → label t p = label t' p' → t = t' ∧ p = p'

open Classical in
/-- A function that hashes two labelled trees down to a depth, and does as it likes elsewhere. -/
noncomputable def treeHash (label : Bool → List Bool → D) (depth : Nat) (l r : D) : D :=
  if h : ∃ x : Bool × List Bool, x.2.length < depth ∧ (l, r) = children (label x.1) x.2 then
    label h.choose.1 h.choose.2
  else l

theorem hashes_treeHash (h : Distinct label depth) (t : Bool) :
    Hashes (treeHash label depth) (label t) depth := by
  intro p hp
  have hex : ∃ x : Bool × List Bool, x.2.length < depth ∧
      ((children (label t) p).1, (children (label t) p).2) = children (label x.1) x.2 :=
    ⟨(t, p), hp, rfl⟩
  rw [treeHash, dif_pos hex]
  obtain ⟨hlen, hpair⟩ := hex.choose_spec
  have hleft := (Prod.mk.inj hpair).1
  obtain ⟨ht, happ⟩ := h t (p ++ [false]) _ _ (by rw [length_append]; exact hp)
    (by rw [length_append]; exact hlen) hleft
  rw [← ht, ← append_cancel_right happ]

/-- **Two leaves that are not in line make two clean climbs**: they are in different trees, or their
paths part. -/
theorem clean_walk (h : Distinct label depth) {t t' : Bool}
    {q q' : List Bool} (hq : q.length ≤ depth) (hq' : q'.length ≤ depth)
    (hpart : t ≠ t' ∨ ¬ Comparable q q') :
    Clean (treeHash label depth) (label t q) (label t' q') (walk (label t) [] q)
      (walk (label t') [] q') := by
  have hpairs : ∀ x ∈ hashedPairs (treeHash label depth) (label t q) (walk (label t) [] q) ++
      hashedPairs (treeHash label depth) (label t' q') (walk (label t') [] q'),
      ∃ u r, (u = t ∧ r <+: q ∧ r.length < q.length ∨ u = t' ∧ r <+: q' ∧ r.length < q'.length) ∧
        x = children (label u) r := by
    intro x hx
    rcases mem_append.mp hx with hx | hx
    · obtain ⟨r, hr, hlt, rfl⟩ := mem_hashedPairs_walk (hashes_treeHash h t) q [] x
        (by rw [length_nil, zero_add]; exact hq) hx
      exact ⟨t, r, .inl ⟨rfl, hr, hlt⟩, rfl⟩
    · obtain ⟨r, hr, hlt, rfl⟩ := mem_hashedPairs_walk (hashes_treeHash h t') q' [] x
        (by rw [length_nil, zero_add]; exact hq') hx
      exact ⟨t', r, .inr ⟨rfl, hr, hlt⟩, rfl⟩
  have hshort : ∀ u r, (u = t ∧ r <+: q ∧ r.length < q.length ∨
      u = t' ∧ r <+: q' ∧ r.length < q'.length) → r.length < depth := by
    rintro u r (⟨-, -, hlt⟩ | ⟨-, -, hlt⟩) <;> omega
  constructor
  · intro x hx y hy hxy
    obtain ⟨u, r, hur, rfl⟩ := hpairs x hx
    obtain ⟨v, w, hvw, rfl⟩ := hpairs y hy
    have hr := hshort u r hur
    have hw := hshort v w hvw
    rw [hashes_treeHash h u r hr, hashes_treeHash h v w hw] at hxy
    obtain ⟨rfl, rfl⟩ := h u r v w (le_of_lt hr) (le_of_lt hw) hxy
    rfl
  · intro x hx
    obtain ⟨u, r, hur, rfl⟩ := hpairs x hx
    have hr := hshort u r hur
    rw [hashes_treeHash h u r hr]
    refine ⟨fun heq => ?_, fun heq => ?_⟩
    · obtain ⟨rfl, rfl⟩ := h u r t q (le_of_lt hr) hq heq
      rcases hur with ⟨-, -, hlt⟩ | ⟨ht, hprefix, -⟩
      · exact absurd hlt (lt_irrefl _)
      · exact hpart.elim (fun hne => hne ht) fun hcmp => hcmp (.inl hprefix)
    · obtain ⟨rfl, rfl⟩ := h u r t' q' (le_of_lt hr) hq' heq
      rcases hur with ⟨ht, hprefix, -⟩ | ⟨-, -, hlt⟩
      · exact hpart.elim (fun hne => hne ht.symm) fun hcmp => hcmp (.inr hprefix)
      · exact absurd hlt (lt_irrefl _)

theorem label_ne (h : Distinct label depth) {t t' : Bool}
    {q q' : List Bool} (hq : q.length ≤ depth) (hq' : q'.length ≤ depth)
    (hpart : t ≠ t' ∨ ¬ Comparable q q') : label t q ≠ label t' q' := by
  intro heq
  obtain ⟨rfl, rfl⟩ := h t q t' q' hq hq' heq
  exact hpart.elim (fun hne => hne rfl) fun hcmp => hcmp (.inl (prefix_refl _))

end Coincync.Lib
