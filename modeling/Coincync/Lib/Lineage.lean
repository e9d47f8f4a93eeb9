/-
# Lineages: blocks that name their parents

A store files blocks under keys, and every block names the key of its parent.  A LINEAGE is a
chain of such blocks down to a root, NEWEST FIRST, so that extending it is `cons` and the chain
of a parent is the tail.  Heights count the links to the root.
-/
import Mathlib

namespace Coincync.Lib

open List

/-- How blocks are filed and linked. -/
structure Links (K B : Type) where
  key : B → K
  parent : B → K
  height : B → Nat

variable {K B : Type} (L : Links K B)

/-! ## 1. Lineages -/

/-- **A chain of blocks down to the root**, newest first. -/
inductive Lineage (root : B) : List B → Prop
  | root : L.height root = 0 → Lineage root [root]
  | cons {b p : B} {rest : List B} : L.parent b = L.key p → L.height b = L.height p + 1 →
      Lineage root (p :: rest) → Lineage root (b :: p :: rest)

variable {L} {root : B} {b : B} {p : B}

namespace Lineage

theorem length_eq : ∀ {b : B} {rest : List B}, Lineage L root (b :: rest) → rest.length = L.height b
  | _, _, .root h => h.symm
  | _, _, .cons _ hh h => by rw [length_cons, length_eq h, hh]

theorem height_lt : ∀ {b : B} {rest : List B}, Lineage L root (b :: rest) →
    ∀ p ∈ rest, L.height p < L.height b
  | _, _, .root _, p, hp => absurd hp not_mem_nil
  | _, _, .cons _ hh h, p, hp => by
    rcases mem_cons.mp hp with rfl | hp
    · omega
    · have := height_lt h p hp
      omega

theorem height_le {rest : List B} (h : Lineage L root (b :: rest)) (hp : p ∈ b :: rest) :
    L.height p ≤ L.height b := by
  rcases mem_cons.mp hp with rfl | hp
  · exact le_refl _
  · exact le_of_lt (h.height_lt p hp)

theorem tail {rest : List B} (h : Lineage L root (b :: p :: rest)) :
    Lineage L root (p :: rest) := by
  cases h with
  | cons _ _ h => exact h

theorem tail_append {q : B} {above below : List B}
    (h : Lineage L root (b :: (above ++ q :: below))) :
    Lineage L root (above ++ q :: below) := by
  cases above with
  | nil => exact h.tail
  | cons _ _ => exact h.tail

theorem suffix : ∀ (above : List B) {q : B} {below : List B},
    Lineage L root (above ++ q :: below) → Lineage L root (q :: below)
  | [], _, _, h => h
  | [_], _, _, h => h.tail
  | _ :: b :: above, _, _, h => suffix (b :: above) h.tail

theorem height_above : ∀ (above : List B) {q : B} {below : List B},
    Lineage L root (above ++ q :: below) → ∀ a ∈ above, L.height q < L.height a
  | a :: above, q, below, h, x, hx => by
    rcases mem_cons.mp hx with rfl | hx
    · exact h.height_lt q (by simp)
    · cases above with
      | nil => exact absurd hx not_mem_nil
      | cons b above => exact height_above (b :: above) h.tail x hx

theorem height_take : ∀ {n : Nat} {b : B} {rest : List B}, Lineage L root (b :: rest) →
    ∀ a ∈ (b :: rest).take n, L.height b < L.height a + n
  | 0, _, _, _, a, ha => absurd ha not_mem_nil
  | n + 1, _, _, .root _, a, ha => by
    rw [take_succ_cons, take_nil, mem_singleton] at ha
    rw [ha]
    omega
  | n + 1, b, _, .cons _ hh h, a, ha => by
    rw [take_succ_cons] at ha
    rcases mem_cons.mp ha with rfl | ha
    · omega
    · have := height_take h a ha
      omega

theorem eq_of_height : ∀ {chain : List B}, Lineage L root chain →
    ∀ a ∈ chain, ∀ b ∈ chain, L.height a = L.height b → a = b
  | [_], _, a, ha, b, hb, _ => by
    rw [mem_singleton.mp ha, mem_singleton.mp hb]
  | x :: y :: rest, h, a, ha, b, hb, heq => by
    rcases mem_cons.mp ha with ha | ha <;> rcases mem_cons.mp hb with hb | hb
    · rw [ha, hb]
    · have := h.height_lt b hb
      rw [ha] at heq
      omega
    · have := h.height_lt a ha
      rw [hb] at heq
      omega
    · exact eq_of_height h.tail a ha b hb heq

theorem exists_height : ∀ {b : B} {rest : List B}, Lineage L root (b :: rest) →
    ∀ n ≤ L.height b, ∃ p ∈ b :: rest, L.height p = n
  | _, _, .root h, n, hn => ⟨root, .head _, by omega⟩
  | b, _, .cons _ hh h, n, hn => by
    by_cases heq : n = L.height b
    · exact ⟨b, .head _, heq.symm⟩
    · obtain ⟨p, hp, hpn⟩ := exists_height h n (by omega)
      exact ⟨p, .tail _ hp, hpn⟩

theorem heights_nodup : ∀ {chain : List B}, Lineage L root chain → (chain.map L.height).Nodup
  | [_], _ => nodup_singleton _
  | x :: y :: rest, h => by
    rw [map_cons, nodup_cons]
    refine ⟨fun hx => ?_, heights_nodup h.tail⟩
    obtain ⟨p, hp, heq⟩ := mem_map.mp hx
    exact ne_of_lt (h.height_lt p hp) heq

theorem nodup {chain : List B} (h : Lineage L root chain) : chain.Nodup :=
  List.Nodup.of_map _ h.heights_nodup

theorem exists_child : ∀ {b : B} {rest : List B}, Lineage L root (b :: rest) →
    ∀ p ∈ rest, ∃ c ∈ b :: rest, L.parent c = L.key p ∧ L.height c = L.height p + 1
  | _, _, .root _, p, hp => absurd hp not_mem_nil
  | b, _, .cons hp hh h, p, hmem => by
    rcases mem_cons.mp hmem with rfl | hmem
    · exact ⟨b, .head _, hp, hh⟩
    · obtain ⟨c, hc, hlink⟩ := exists_child h p hmem
      exact ⟨c, .tail _ hc, hlink⟩

theorem isChain : ∀ {chain : List B}, Lineage L root chain →
    chain.IsChain fun b p => L.parent b = L.key p
  | _, .root _ => .singleton _
  | _, .cons hp _ h => isChain_cons_cons.mpr ⟨hp, isChain h⟩

theorem parent_eq : ∀ {chain : List B}, Lineage L root chain →
    ∀ a ∈ chain, ∀ b ∈ chain, L.height b = L.height a + 1 → L.parent b = L.key a
  | [x], _, a, ha, b, hb, hh => by
    rw [mem_singleton.mp ha, mem_singleton.mp hb] at hh
    omega
  | x :: y :: rest, h, a, ha, b, hb, hh => by
    rcases mem_cons.mp hb with rfl | hb'
    · have ha' : a ∈ y :: rest := by
        rcases mem_cons.mp ha with rfl | ha'
        · omega
        · exact ha'
      cases h with
      | cons hp hheight h =>
        rw [hp, h.eq_of_height y mem_cons_self a ha' (by omega)]
    · have ha' : a ∈ y :: rest := by
        rcases mem_cons.mp ha with rfl | ha'
        · have := h.height_lt b hb'
          omega
        · exact ha'
      exact parent_eq h.tail a ha' b hb' hh

theorem map_height_reverse : ∀ {chain : List B}, Lineage L root chain →
    chain.reverse.map L.height = List.range chain.length
  | _, .root h0 => by simp [h0]
  | _, .cons hp hh h => by
    rw [reverse_cons, map_append, map_height_reverse h, map_singleton, hh,
      ← length_eq h, ← length_cons, ← range_succ]
    rfl

theorem root_mem : ∀ {chain : List B}, Lineage L root chain → root ∈ chain
  | _, .root _ => .head _
  | _, .cons _ _ h => .tail _ (root_mem h)

end Lineage

/-! ## 2. Stores -/

/-- The store has every block of the list under its key. -/
def Stored (L : Links K B) (get : K → Option B) (chain : List B) : Prop :=
  ∀ b ∈ chain, get (L.key b) = some b

variable {get : K → Option B} {chain : List B}

theorem Stored.cons (hb : get (L.key b) = some b) (h : Stored L get chain) :
    Stored L get (b :: chain) := by
  intro x hx
  rcases mem_cons.mp hx with rfl | hx
  · exact hb
  · exact h x hx

theorem Stored.mono {get' : K → Option B} (hsub : ∀ k b, get k = some b → get' k = some b)
    (h : Stored L get chain) : Stored L get' chain := fun b hb => hsub _ _ (h b hb)

theorem Stored.sublist {chain' : List B} (h : Stored L get chain) (hsub : ∀ b ∈ chain', b ∈ chain) :
    Stored L get chain' := fun b hb => h b (hsub b hb)

/-- **A store closed under parents**: blocks are filed under their own keys, the root is the one
block at height 0, and the parent of every other block is there, one lower. -/
structure Closed (L : Links K B) (root : B) (get : K → Option B) : Prop where
  key : ∀ k b, get k = some b → L.key b = k
  root_mem : get (L.key root) = some root
  root_height : L.height root = 0
  eq_root : ∀ k b, get k = some b → L.height b = 0 → b = root
  parent : ∀ k b, get k = some b → L.height b ≠ 0 →
    ∃ p, get (L.parent b) = some p ∧ L.height b = L.height p + 1

namespace Closed

/-- **Every block of a closed store has its lineage in the store.** -/
theorem exists_lineage (hc : Closed L root get) : ∀ (n : Nat) {k : K} {b : B}, L.height b = n →
    get k = some b → ∃ rest, Lineage L root (b :: rest) ∧ Stored L get (b :: rest)
  | 0, k, b, hn, hb => by
    obtain rfl := hc.eq_root k b hb hn
    exact ⟨[], .root hn, Stored.cons hc.root_mem fun _ h => absurd h not_mem_nil⟩
  | n + 1, k, b, hn, hb => by
    obtain ⟨p, hp, hheight⟩ := hc.parent k b hb (by omega)
    obtain ⟨rest, hl, hs⟩ := exists_lineage hc n (b := p) (by omega) hp
    have hkey := hc.key k b hb
    refine ⟨p :: rest, .cons (hc.key _ p hp).symm hheight hl, Stored.cons ?_ hs⟩
    rw [hkey]
    exact hb

theorem put [DecidableEq K] (hc : Closed L root get)
    (hsame : ∀ x, get (L.key b) = some x → L.height x = L.height b) (hp : get (L.parent b) = some p)
    (hh : L.height b = L.height p + 1) :
    Closed L root fun k => if k = L.key b then some b else get k := by
  have hroot : L.key root ≠ L.key b := fun h => by
    have h0 := hsame root (h ▸ hc.root_mem)
    have hzero := hc.root_height
    omega
  -- whatever was found before is found again, or something as high in its place
  have hkeep : ∀ {k : K} {x : B}, get k = some x →
      ∃ y, (if k = L.key b then some b else get k) = some y ∧ L.height y = L.height x := by
    intro k x hx
    by_cases hk : k = L.key b
    · exact ⟨b, if_pos hk, (hsame x (hk ▸ hx)).symm⟩
    · exact ⟨x, by rw [if_neg hk, hx], rfl⟩
  refine ⟨fun k x hx => ?_, ?_, hc.root_height, fun k x hx h0 => ?_, fun k x hx h0 => ?_⟩
  · split at hx
    · rename_i hk
      rw [← Option.some.inj hx, hk]
    · exact hc.key k x hx
  · rw [if_neg hroot]
    exact hc.root_mem
  · split at hx
    · rw [← Option.some.inj hx] at h0
      omega
    · exact hc.eq_root k x hx h0
  · split at hx
    · obtain ⟨q, hq, hqh⟩ := hkeep hp
      rw [← Option.some.inj hx]
      exact ⟨q, hq, by omega⟩
    · obtain ⟨q, hq, hqh⟩ := hc.parent k x hx h0
      obtain ⟨q', hq', hqh'⟩ := hkeep hq
      exact ⟨q', hq', by omega⟩

theorem insert [DecidableEq K] (hc : Closed L root get) (hnew : get (L.key b) = none)
    (hp : get (L.parent b) = some p) (hh : L.height b = L.height p + 1) :
    Closed L root fun k => if k = L.key b then some b else get k := by
  refine hc.put (fun x hx => ?_) hp hh
  rw [hnew] at hx
  cases hx

end Closed

/-- **One block, one lineage.**  Two lineages of one block in one store are equal. -/
theorem Lineage.unique : ∀ {b : B} {rest rest' : List B},
    Lineage L root (b :: rest) → Lineage L root (b :: rest') → Stored L get rest →
    Stored L get rest' → rest = rest'
  | _, _, _, .root _, .root _, _, _ => rfl
  | _, _, _, .root h0, .cons _ hh _, _, _ => by omega
  | _, _, _, .cons _ hh _, .root h0, _, _ => by omega
  | _, _, _, .cons (p := p) hp _ h, .cons (p := q) hq _ h', hs, hs' => by
    have hpq : p = q := by
      have h1 := hs p (.head _)
      have h2 := hs' q (.head _)
      rw [← hp, hq, h2] at h1
      exact (Option.some.inj h1).symm
    subst hpq
    rw [Lineage.unique h h' (fun x hx => hs x (mem_cons_of_mem _ hx))
      (fun x hx => hs' x (.tail _ hx))]

theorem exists_first {α : Type} {P : α → Prop} : ∀ {l : List α}, (∃ x ∈ l, P x) →
    ∃ l₁ x l₂, l = l₁ ++ x :: l₂ ∧ P x ∧ ∀ y ∈ l₁, ¬P y
  | [], ⟨_, hx, _⟩ => absurd hx not_mem_nil
  | a :: l, ⟨x, hx, hP⟩ => by
    by_cases ha : P a
    · exact ⟨[], a, l, rfl, ha, by simp⟩
    · have hx' : x ∈ l := by
        rcases mem_cons.mp hx with rfl | hx
        · exact absurd hP ha
        · exact hx
      obtain ⟨l₁, y, l₂, rfl, hy, hfirst⟩ := exists_first ⟨x, hx', hP⟩
      refine ⟨a :: l₁, y, l₂, rfl, hy, fun z hz => ?_⟩
      rcases mem_cons.mp hz with rfl | hz
      · exact ha
      · exact hfirst z hz

/-- **Two lineages in one store part once.**  Below the first common block they are the same. -/
theorem Lineage.meet {side : List B} (hc : Lineage L root chain) (hl : Lineage L root side)
    (hs : Stored L get chain) (hs' : Stored L get side) :
    ∃ above apart q below, chain = above ++ q :: below ∧ side = apart ++ q :: below ∧ q ∈ chain ∧
      ∀ a ∈ apart, a ∉ chain := by
  obtain ⟨apart, q, below, hside, hq, hfirst⟩ := exists_first
    (P := fun x => x ∈ chain) ⟨_, hl.root_mem, hc.root_mem⟩
  obtain ⟨above, below', hchain⟩ := append_of_mem hq
  have hsuffix : Lineage L root (q :: below) := (hside ▸ hl).suffix apart
  have hsuffix' : Lineage L root (q :: below') := (hchain ▸ hc).suffix above
  have hbelow : below' = below := by
    refine Lineage.unique hsuffix' hsuffix (hs.sublist fun x hx => ?_) (hs'.sublist fun x hx => ?_)
    · rw [hchain]
      exact mem_append_right _ (.tail _ hx)
    · rw [hside]
      exact mem_append_right _ (.tail _ hx)
  subst hbelow
  exact ⟨above, apart, q, below', hchain, hside, hq, hfirst⟩

theorem Lineage.notMem_of_meet {above apart below : List B} {q : B}
    (h : Lineage L root (above ++ q :: below)) (hfirst : ∀ a ∈ apart, a ∉ above ++ q :: below) :
    ∀ a ∈ above, a ∉ apart ++ q :: below := by
  intro a ha hmem
  rcases mem_append.mp hmem with hmem | hmem
  · exact hfirst a hmem (mem_append_left _ ha)
  · have hlt := h.height_above above a ha
    have hle := (h.suffix above).height_le hmem
    omega

/-! ## 3. Walking back -/

/-- The blocks on the way back from a key, at most `n` of them, newest first. -/
def ancestors (L : Links K B) (get : K → Option B) : Nat → K → List B
  | 0, _ => []
  | n + 1, k =>
    match get k with
    | none => []
    | some b => b :: ancestors L get n (L.parent b)

theorem ancestors_eq : ∀ {b : B} {rest : List B},
    Lineage L root (b :: rest) → Stored L get (b :: rest) →
    ancestors L get (L.height b + 1) (L.key b) = b :: rest
  | _, _, .root h0, hs => by
    rw [h0, ancestors, hs root mem_cons_self]
    rfl
  | b, _, .cons (p := p) hp hh h, hs => by
    rw [hh, ancestors, hs b mem_cons_self]
    have ih := ancestors_eq h fun x hx => hs x (.tail _ hx)
    rw [← ih, ← hp]

/-- What a walk back ends with: a block to stop at, a key that is not in the store, or a key it
has seen before. -/
inductive WalkEnd (K B : Type) where
  | stopped (b : B)
  | missing (k : K)
  | cycle (k : K)

/-- **A walk back along the parent links**: the blocks passed, newest first, and the end. -/
def walkBack [DecidableEq K] (L : Links K B) (get : K → Option B) (stop : K → B → Bool) :
    Nat → List K → K → List B × WalkEnd K B
  | 0, _, k => ([], .cycle k)
  | fuel + 1, visited, k =>
    if k ∈ visited then ([], .cycle k)
    else
      match get k with
      | none => ([], .missing k)
      | some b =>
        if stop k b = true then ([], .stopped b)
        else
          let r := walkBack L get stop fuel (k :: visited) (L.parent b)
          (b :: r.1, r.2)

/-- **A walk along a stored lineage stops at the first block of it that passes the test.** -/
theorem walkBack_lineage [DecidableEq K] {stop : K → B → Bool} :
    ∀ (above : List B) {q : B} {below : List B} {fuel : Nat} {visited : List K} {b : B}
      {rest : List B}, above ++ q :: below = b :: rest → Lineage L root (b :: rest) →
      Stored L get (b :: rest) → (∀ a ∈ above, stop (L.key a) a = false) →
      stop (L.key q) q = true → above.length < fuel →
      (∀ k ∈ visited, ∀ x, get k = some x → L.height b < L.height x) →
      walkBack L get stop fuel visited (L.key b) = (above, .stopped q)
  | [], q, below, fuel + 1, visited, b, rest, heq, hl, hs, _, hq, _, hv => by
    obtain ⟨rfl, rfl⟩ := List.cons.inj heq
    have hb := hs q (.head _)
    have hnew : L.key q ∉ visited := fun hk => lt_irrefl _ (hv _ hk q hb)
    rw [walkBack, if_neg hnew, hb]
    simp only [hq, if_true]
  | a :: above, q, below, fuel + 1, visited, b, rest, heq, hl, hs, ha, hq, hf, hv => by
    obtain ⟨rfl, hrest⟩ := List.cons.inj heq
    have hb := hs a (.head _)
    have hnew : L.key a ∉ visited := fun hk => lt_irrefl _ (hv _ hk a hb)
    rw [walkBack, if_neg hnew, hb]
    simp only [ha a mem_cons_self, Bool.false_eq_true, if_false]
    cases hl with
    | root h0 => simp at hrest
    | @cons _ p rest' hp hh hl' =>
      rw [hp]
      have hv' : ∀ k ∈ L.key a :: visited, ∀ x, get k = some x → L.height p < L.height x := by
        intro k hk x hx
        rcases mem_cons.mp hk with rfl | hk
        · rw [hb] at hx
          rw [← Option.some.inj hx]
          omega
        · have := hv k hk x hx
          omega
      have hlen : above.length < fuel := by simpa using hf
      rw [walkBack_lineage above hrest hl' (fun x hx => hs x (mem_cons_of_mem _ hx))
        (fun x hx => ha x (.tail _ hx)) hq hlen hv']

theorem Stored.length_le_card [DecidableEq K] {keys : Finset K}
    (hkeys : ∀ k b, get k = some b → k ∈ keys) {l : List B} (hs : Stored L get l) (hnd : l.Nodup) :
    l.length ≤ keys.card := by
  have hnd' : (l.map L.key).Nodup := by
    refine (nodup_map_iff_inj_on hnd).mpr fun a ha b hb hab => ?_
    have h1 := hs a ha
    rw [hab, hs b hb] at h1
    exact (Option.some.inj h1).symm
  rw [← length_map (f := L.key), ← toFinset_card_of_nodup hnd']
  refine Finset.card_le_card fun k hk => ?_
  obtain ⟨b, hb, rfl⟩ := mem_map.mp (mem_toFinset.mp hk)
  exact hkeys _ b (hs b hb)

end Coincync.Lib
