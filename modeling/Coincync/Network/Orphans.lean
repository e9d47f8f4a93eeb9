/-
# The pool of orphans, its index and the counters

An orphan is kept in the pool under its hash, its hash is listed under its parent's, and it is
counted for the peer that sent it.  Filing does all three.  So does the release of an orphan whose
parent has come.  The others do less:
-/
import Coincync.Lib.Shelves
import Coincync.Network.Frames

namespace Coincync

open Lib Option Finset Map

variable {p : PeerId} {evicted : List Hash} {excess : Nat} {child : Hash}

/-- The parent an orphan waits for. -/
def OrphanBlock.parent {B : Type} (V : BlockView B) (o : OrphanBlock B) : Hash := V.prevHash o.block

/-- The orphan came from this peer. -/
def OrphanBlock.sentBy {B : Type} (p : PeerId) (o : OrphanBlock B) : Bool :=
  decide (o.origin = some p)

namespace ChainSync

variable {B : Type} {s s' : ChainSync B} {V : BlockView B}

/-! ## 1. Removal, release and filing -/

/-- **The index is exact**, up to the hashes of a list that has been taken down. -/
def Filed (V : BlockView B) (s : ChainSync B) (loose : List Hash) : Prop :=
  Shelved (OrphanBlock.parent V) s.orphanBlocks s.orphanByParent loose

/-- How many of the pooled orphans a peer sent. -/
def pooledFrom (s : ChainSync B) (p : PeerId) : Nat := Map.count (OrphanBlock.sentBy p) s.orphanBlocks

def countedFor (s : ChainSync B) (p : PeerId) : Nat := (s.orphansPerPeer.lookup p).getD 0

/-- **More is counted for the peer than it has in the pool**, by `excess`. -/
def Owes (s : ChainSync B) (p : PeerId) (excess : Nat) : Prop :=
  s.countedFor p = s.pooledFrom p + excess

/-- The peer that sent a pooled orphan. -/
def sender (s : ChainSync B) (hash : Hash) : Option PeerId :=
  (s.orphanBlocks.lookup hash).bind OrphanBlock.origin

/-- All that is about orphans. -/
def orphans (s : ChainSync B) : Map Hash (OrphanBlock B) × Map Hash (List Hash) × Map PeerId Nat :=
  (s.orphanBlocks, s.orphanByParent, s.orphansPerPeer)

theorem orphans_unlinkOrphan (s : ChainSync B) (parent hash : Hash) :
    (s.unlinkOrphan parent hash).orphans =
      (s.orphanBlocks, unshelve s.orphanByParent parent hash, s.orphansPerPeer) := by
  unfold unlinkOrphan unshelve
  cases s.orphanByParent.lookup parent with
  | none => rfl
  | some children => rfl

variable {o : OrphanBlock B}

theorem orphans_removeOrphan_of_some {hash : Hash} (h : s.orphanBlocks.lookup hash = some o) :
    (s.removeOrphan V hash).orphans =
      (s.orphanBlocks.erase hash, unshelve s.orphanByParent (o.parent V) hash, s.orphansPerPeer) := by
  unfold removeOrphan
  rw [h]
  exact orphans_unlinkOrphan _ _ _

theorem removeOrphan_of_none {hash : Hash} (h : s.orphanBlocks.lookup hash = none) :
    s.removeOrphan V hash = s := by
  unfold removeOrphan
  rw [h]

theorem orphanBlocks_removeOrphan (s : ChainSync B) (V : BlockView B) (hash : Hash) :
    (s.removeOrphan V hash).orphanBlocks = s.orphanBlocks.erase hash := by
  cases h : s.orphanBlocks.lookup hash with
  | none =>
    rw [removeOrphan_of_none h]
    refine Finmap.ext_lookup fun k => ?_
    rw [lookup_erase_ite]
    split_ifs with hk
    · rw [hk, h]
    · rfl
  | some o => exact congrArg Prod.fst (orphans_removeOrphan_of_some (V := V) h)

theorem lookup_removeOrphan (s : ChainSync B) (V : BlockView B) (hash hash' : Hash) :
    (s.removeOrphan V hash).orphanBlocks.lookup hash' =
      if hash' = hash then none else s.orphanBlocks.lookup hash' := by
  rw [orphanBlocks_removeOrphan, lookup_erase_ite]

theorem Filed.removeOrphan (h : s.Filed V []) (hash : Hash) :
    (s.removeOrphan V hash).Filed V [] := by
  cases hlookup : s.orphanBlocks.lookup hash with
  | none =>
    rw [removeOrphan_of_none hlookup]
    exact h
  | some o =>
    have horphans := orphans_removeOrphan_of_some (V := V) hlookup
    obtain ⟨hpool, hrest⟩ := Prod.mk.inj horphans
    obtain ⟨hindex, -⟩ := Prod.mk.inj hrest
    rw [Filed, hpool, hindex]
    exact Shelved.remove h hlookup

theorem orphansPerPeer_removeOrphan (s : ChainSync B) (V : BlockView B) (hash : Hash) :
    (s.removeOrphan V hash).orphansPerPeer = s.orphansPerPeer := by
  cases hlookup : s.orphanBlocks.lookup hash with
  | none => rw [removeOrphan_of_none hlookup]
  | some o => exact congrArg (fun x => x.2.2) (orphans_removeOrphan_of_some (V := V) hlookup)

theorem pooledFrom_removeOrphan (s : ChainSync B) (V : BlockView B) (hash : Hash) (p : PeerId) :
    (s.removeOrphan V hash).pooledFrom p + (if s.sender hash = some p then 1 else 0) =
      s.pooledFrom p := by
  cases hlookup : s.orphanBlocks.lookup hash with
  | none =>
    rw [removeOrphan_of_none hlookup, sender, hlookup]
    rfl
  | some o =>
    have hcount := count_erase_add (p := OrphanBlock.sentBy p) hlookup
    rw [pooledFrom, orphanBlocks_removeOrphan, sender, hlookup]
    simp only [OrphanBlock.sentBy, decide_eq_true_eq] at hcount
    exact hcount

theorem card_removeOrphan_le (s : ChainSync B) (V : BlockView B) (hash : Hash) :
    (s.removeOrphan V hash).orphanBlocks.keys.card ≤ s.orphanBlocks.keys.card := by
  rw [orphanBlocks_removeOrphan, keys_erase_eq]
  exact card_erase_le

/-- Remove these orphans, one after the other. -/
def removeOrphans (V : BlockView B) (hashes : List Hash) (s : ChainSync B) : ChainSync B :=
  hashes.foldl (fun s h => s.removeOrphan V h) s

theorem Filed.removeOrphans (h : s.Filed V []) (hashes : List Hash) :
    (s.removeOrphans V hashes).Filed V [] := by
  induction hashes generalizing s with
  | nil => exact h
  | cons hash hashes ih => exact ih (h.removeOrphan hash)

theorem card_removeOrphans_le (V : BlockView B) (hashes : List Hash) (s : ChainSync B) :
    (s.removeOrphans V hashes).orphanBlocks.keys.card ≤ s.orphanBlocks.keys.card := by
  induction hashes generalizing s with
  | nil => exact le_rfl
  | cons hash hashes ih => exact (ih _).trans (s.card_removeOrphan_le V hash)

theorem mem_keys_removeOrphans (V : BlockView B) (hashes : List Hash) (s : ChainSync B)
    (hash : Hash) : hash ∈ (s.removeOrphans V hashes).orphanBlocks.keys ↔
      hash ∈ s.orphanBlocks.keys ∧ hash ∉ hashes := by
  induction hashes generalizing s with
  | nil => simp [removeOrphans]
  | cons first hashes ih =>
    refine (ih (s.removeOrphan V first)).trans ?_
    rw [mem_keys_iff, lookup_removeOrphan, mem_keys_iff, List.mem_cons]
    by_cases heq : hash = first
    · simp [heq]
    · simp [heq]

/-- No orphan of these was sent by one of these peers. -/
def Spares (s : ChainSync B) (connected : Finset PeerId) (hashes : List Hash) : Prop :=
  ∀ p ∈ connected, ∀ hash ∈ hashes, s.sender hash ≠ some p

/-- **A removal leaves a gap** for each peer that has lost an orphan by it, and for no other. -/
theorem Owes.removeOrphans (h : s.Owes p excess) (hashes : List Hash) :
    ∃ lost, (s.removeOrphans V hashes).Owes p (excess + lost) ∧
      (lost = 0 ↔ ∀ hash ∈ hashes, s.sender hash ≠ some p) := by
  induction hashes generalizing s excess with
  | nil => exact ⟨0, h, iff_of_true rfl nofun⟩
  | cons hash hashes ih =>
    have hpooled := s.pooledFrom_removeOrphan V hash p
    have hcounted : (s.removeOrphan V hash).countedFor p = s.countedFor p := by
      rw [countedFor, orphansPerPeer_removeOrphan, countedFor]
    have hstep : (s.removeOrphan V hash).Owes p
        (excess + if s.sender hash = some p then 1 else 0) := by
      rw [Owes] at h ⊢
      omega
    obtain ⟨lost, howes, hlost⟩ := ih hstep
    refine ⟨(if s.sender hash = some p then 1 else 0) + lost, ?_, ?_⟩
    · rw [← add_assoc]
      exact howes
    · have hfirst : (if s.sender hash = some p then 1 else 0) = 0 ↔ s.sender hash ≠ some p := by
        simp
      rw [List.forall_mem_cons, Nat.add_eq_zero_iff, hlost, hfirst]
      refine and_congr_right fun hne => forall₂_congr fun hash' _ => not_congr ?_
      -- another orphan has the sender it had; this one has none now, and had not this peer
      rw [sender, lookup_removeOrphan]
      split_ifs with heq
      · rw [heq]
        exact iff_of_false nofun hne
      · rfl

/-- The counters after a release: the sender is credited. -/
def credit (counts : Map PeerId Nat) : Option PeerId → Map PeerId Nat
  | none => counts
  | some p =>
    match counts.lookup p with
    | none => counts
    | some c => counts.insert p (c - 1)

theorem lookup_credit (counts : Map PeerId Nat) (origin : Option PeerId) (p : PeerId) :
    ((credit counts origin).lookup p).getD 0 =
      (counts.lookup p).getD 0 - if origin = some p then 1 else 0 := by
  cases origin with
  | none => simp [credit]
  | some q =>
    simp only [credit, Option.some.injEq]
    cases hq : counts.lookup q with
    | none =>
      simp only
      split_ifs with heq
      · rw [← heq, hq]
        rfl
      · rfl
    | some c =>
      simp only
      rw [lookup_insert_ite]
      by_cases heq : p = q
      · rw [if_pos heq, if_pos heq.symm, heq, hq]
        rfl
      · rw [if_neg heq, if_neg (Ne.symm heq)]
        rfl

theorem releaseOrphan_of_none (h : s.orphanBlocks.lookup child = none) :
    s.releaseOrphan child = (none, s) := by
  unfold releaseOrphan
  rw [h]

theorem releaseOrphan_of_some (h : s.orphanBlocks.lookup child = some o) :
    (s.releaseOrphan child).1 = some o.block ∧
      (s.releaseOrphan child).2.orphans =
        (s.orphanBlocks.erase child, s.orphanByParent, credit s.orphansPerPeer o.origin) := by
  unfold releaseOrphan credit
  rw [h]
  refine ⟨rfl, ?_⟩
  simp only
  cases o.origin with
  | none => rfl
  | some p =>
    simp only
    cases s.orphansPerPeer.lookup p with
    | none => rfl
    | some c => rfl

theorem Filed.releaseOrphan {loose : List Hash} (h : s.Filed V (child :: loose)) :
    (s.releaseOrphan child).2.Filed V loose := by
  cases hlookup : s.orphanBlocks.lookup child with
  | none =>
    rw [releaseOrphan_of_none hlookup]
    exact Shelved.drop h hlookup
  | some o =>
    obtain ⟨hpool, hrest⟩ := Prod.mk.inj (releaseOrphan_of_some hlookup).2
    obtain ⟨hindex, -⟩ := Prod.mk.inj hrest
    rw [Filed, hpool, hindex]
    exact Shelved.release h

/-- **A release leaves no gap**: what leaves the pool is credited to its sender. -/
theorem Owes.releaseOrphan (h : s.Owes p excess) (child : Hash) :
    (s.releaseOrphan child).2.Owes p excess := by
  cases hlookup : s.orphanBlocks.lookup child with
  | none =>
    rw [releaseOrphan_of_none hlookup]
    exact h
  | some o =>
    have hcount := count_erase_add (p := OrphanBlock.sentBy p) hlookup
    simp only [OrphanBlock.sentBy, decide_eq_true_eq] at hcount
    obtain ⟨hpool, hrest⟩ := Prod.mk.inj (releaseOrphan_of_some hlookup).2
    obtain ⟨-, hcounts⟩ := Prod.mk.inj hrest
    rw [Owes, pooledFrom] at h
    rw [Owes, countedFor, pooledFrom, hcounts, hpool, lookup_credit]
    change s.countedFor p - _ = _
    -- a peer with an orphan in the pool has something counted
    omega

theorem card_releaseOrphan (s : ChainSync B) (child : Hash) :
    (s.releaseOrphan child).1.toList.length + (s.releaseOrphan child).2.orphanBlocks.keys.card =
      s.orphanBlocks.keys.card := by
  cases hlookup : s.orphanBlocks.lookup child with
  | none =>
    rw [releaseOrphan_of_none hlookup]
    exact zero_add _
  | some o =>
    obtain ⟨hblock, horphans⟩ := releaseOrphan_of_some hlookup
    have hpool : (s.releaseOrphan child).2.orphanBlocks = s.orphanBlocks.erase child :=
      congrArg Prod.fst horphans
    have hmem : child ∈ s.orphanBlocks.keys := mem_keys_iff.mpr ⟨o, hlookup⟩
    rw [hblock, hpool, keys_erase_eq, add_comm]
    exact card_erase_add_one hmem

/-- The share of a peer is not used up. -/
def admits (s : ChainSync B) (origin : Option PeerId) : Bool := (s.admitOrphan origin).1

theorem admitOrphan_eq (s : ChainSync B) (origin : Option PeerId) :
    (s.admitOrphan origin).2.orphanBlocks = s.orphanBlocks ∧
      (s.admitOrphan origin).2.orphanByParent = s.orphanByParent ∧
      ∀ p, (s.admitOrphan origin).2.countedFor p =
        s.countedFor p + if s.admits origin = true ∧ origin = some p then 1 else 0 := by
  unfold admits admitOrphan
  cases origin with
  | none => exact ⟨rfl, rfl, fun p => by simp⟩
  | some q =>
    simp only
    split_ifs with hfull
    · refine ⟨rfl, rfl, fun p => ?_⟩
      rw [countedFor, lookup_insert_ite]
      by_cases heq : p = q
      · subst heq
        simp [countedFor]
      · simp [heq, countedFor]
    · refine ⟨rfl, rfl, fun p => ?_⟩
      rw [countedFor, lookup_insert_ite]
      by_cases heq : p = q
      · subst heq
        rw [if_pos rfl, if_pos ⟨rfl, rfl⟩]
        rfl
      · rw [if_neg heq, if_neg fun h => heq (Option.some.inj h.2).symm]
        rfl

variable {block : B} {origin : Option PeerId}

/-- **A new orphan is filed and counted**, or neither. -/
theorem Owes.poolOrphan (h : s.Owes p excess) (now : Nat)
    (hnew : s.admits origin = true → V.hash block ∉ s.orphanBlocks.keys) :
    (s.poolOrphan V block origin now).Owes p excess := by
  obtain ⟨hpool, -, hcounted⟩ := s.admitOrphan_eq origin
  have hcounted := hcounted p
  rw [Owes] at h
  unfold ChainSync.poolOrphan
  split_ifs with hadmitted
  · have hnone : (s.admitOrphan origin).2.orphanBlocks.lookup (V.hash block) = none := by
      rw [hpool, ← not_isSome_iff_eq_none, isSome_iff_exists, ← mem_keys_iff]
      exact hnew hadmitted
    have hcount := count_insert_of_new (p := OrphanBlock.sentBy p) (v := ⟨block, now, origin⟩) hnone
    simp only [OrphanBlock.sentBy, decide_eq_true_eq] at hcount
    change (s.admitOrphan origin).2.countedFor p =
      Map.count (OrphanBlock.sentBy p) ((s.admitOrphan origin).2.orphanBlocks.insert (V.hash block)
        ⟨block, now, origin⟩) + excess
    rw [hcount, hcounted, hpool, h, pooledFrom]
    simp only [show s.admits origin = true from hadmitted, true_and]
    omega
  · rw [Owes, hcounted, if_neg fun hboth => hadmitted hboth.1, pooledFrom, hpool]
    exact h

theorem Filed.poolOrphan (h : s.Filed V []) (block : B) (origin : Option PeerId) (now : Nat) :
    (s.poolOrphan V block origin now).Filed V [] ↔
      (s.admits origin = true → V.hash block ∉ s.orphanBlocks.keys) := by
  obtain ⟨hpool, hindex, -⟩ := s.admitOrphan_eq origin
  have hfiled : (s.admitOrphan origin).2.Filed V [] := by
    rw [Filed, hpool, hindex]
    exact h
  unfold ChainSync.poolOrphan
  by_cases hadmitted : (s.admitOrphan origin).1 = true
  · rw [if_pos hadmitted, ← hpool]
    cases hlookup : (s.admitOrphan origin).2.orphanBlocks.lookup (V.hash block) with
    | none =>
      refine iff_of_true (Shelved.insert hfiled hlookup ⟨block, now, origin⟩) fun _ hmem => ?_
      obtain ⟨o, ho⟩ := mem_keys_iff.mp hmem
      exact nomatch hlookup.symm.trans ho
    | some o =>
      refine iff_of_false (Shelved.not_insert hfiled hlookup ⟨block, now, origin⟩) fun hnew => ?_
      exact hnew hadmitted (mem_keys_iff.mpr ⟨o, hlookup⟩)
  · rw [if_neg hadmitted]
    exact iff_of_true hfiled fun h => absurd h hadmitted

theorem card_poolOrphan_le (s : ChainSync B) (V : BlockView B) (block : B) (origin : Option PeerId)
    (now : Nat) : (s.poolOrphan V block origin now).orphanBlocks.keys.card ≤
      s.orphanBlocks.keys.card + 1 := by
  obtain ⟨hpool, -, -⟩ := s.admitOrphan_eq origin
  unfold ChainSync.poolOrphan
  split_ifs
  · change ((s.admitOrphan origin).2.orphanBlocks.insert (V.hash block)
      ⟨block, now, origin⟩).keys.card ≤ _
    rw [keys_insert_eq, hpool]
    exact card_insert_le _ _
  · rw [hpool]
    exact Nat.le_succ _

/-! ## 2. The walk through the pool -/

theorem releaseChildren_spec (children : List Hash) (s : ChainSync B) (out : List B)
    (h : s.Filed V children) : (releaseChildren children s out).2.Filed V [] := by
  induction children generalizing s out with
  | nil => exact h
  | cons child rest ih => exact ih _ _ h.releaseOrphan

theorem Owes.releaseChildren (children : List Hash) (s : ChainSync B) (out : List B)
    (h : s.Owes p excess) : (releaseChildren children s out).2.Owes p excess := by
  induction children generalizing s out with
  | nil => exact h
  | cons child rest ih => exact ih _ _ (h.releaseOrphan child)

theorem card_releaseChildren (children : List Hash) (s : ChainSync B) (out : List B) :
    (releaseChildren children s out).1.length +
        (releaseChildren children s out).2.orphanBlocks.keys.card =
      out.length + s.orphanBlocks.keys.card := by
  induction children generalizing s out with
  | nil => rfl
  | cons child rest ih =>
    have hchild := s.card_releaseOrphan child
    refine (ih _ _).trans ?_
    rw [List.length_append]
    omega

theorem Filed.drainOrphans (fuel : Nat) (queue : List Hash) (s : ChainSync B) (out : List B)
    (h : s.Filed V []) : (drainOrphans V fuel queue s out).2.Filed V [] := by
  refine drainOrphans_keeps (P := fun t => t.Filed V []) (fun s parent children hlookup h => ?_)
    fuel queue s out h
  have hshelf : shelf s.orphanByParent parent = children := by rw [shelf, hlookup]; rfl
  exact releaseChildren_spec children _ [] (hshelf ▸ Shelved.takeDown h parent)

theorem Owes.drainOrphans (fuel : Nat) (queue : List Hash) (s : ChainSync B) (out : List B)
    (h : s.Owes p excess) : (drainOrphans V fuel queue s out).2.Owes p excess :=
  drainOrphans_keeps (P := fun t => t.Owes p excess)
    (fun _ _ children _ h => Owes.releaseChildren children _ [] h) fuel queue s out h

theorem card_drainOrphans_le (V : BlockView B) (fuel : Nat) (queue : List Hash) (s : ChainSync B)
    (out : List B) :
    (drainOrphans V fuel queue s out).2.orphanBlocks.keys.card ≤
      s.orphanBlocks.keys.card := by
  refine drainOrphans_keeps (P := fun t => t.orphanBlocks.keys.card ≤ s.orphanBlocks.keys.card)
    (fun t parent children _ h => ?_) fuel queue s out le_rfl
  have hcard := card_releaseChildren children
    { t with orphanByParent := t.orphanByParent.erase parent } []
  simp only [List.length_nil] at hcard
  omega

/-! ## 3. Pool, index and counters together -/

/-- **No orphan of a peer that is connected goes uncounted**, the index is exact and the pool within
its bound. -/
structure Covered (V : BlockView B) (connected : Finset PeerId) (s : ChainSync B) : Prop where
  filed : s.Filed V []
  bounded : s.orphanBlocks.keys.card ≤ maxOrphanBlocks
  covered : ∀ p ∈ connected, ∃ excess, s.Owes p excess

/-- **Pool, index and counters agree**, for the peers that are connected. -/
structure Settled (V : BlockView B) (connected : Finset PeerId) (s : ChainSync B) : Prop where
  filed : s.Filed V []
  bounded : s.orphanBlocks.keys.card ≤ maxOrphanBlocks
  balanced : ∀ p ∈ connected, s.Owes p 0

variable {connected : Finset PeerId} (h : s.Settled V connected)

include h in
theorem Settled.toCovered : s.Covered V connected :=
  ⟨h.filed, h.bounded, fun p hp => ⟨0, h.balanced p hp⟩⟩

include h in
theorem Settled.of_counts {connected' : Finset PeerId}
    (counts : Map PeerId Nat) (horphans : s'.orphans = (s.orphanBlocks, s.orphanByParent, counts))
    (hcounts : ∀ p ∈ connected', p ∈ connected ∧ counts.lookup p = s.orphansPerPeer.lookup p) :
    s'.Settled V connected' := by
  obtain ⟨hpool, hrest⟩ := Prod.mk.inj horphans
  obtain ⟨hindex, hcounters⟩ := Prod.mk.inj hrest
  refine ⟨?_, ?_, fun p hp => ?_⟩
  · rw [Filed, hpool, hindex]
    exact h.filed
  · rw [hpool]
    exact h.bounded
  · rw [Owes, countedFor, pooledFrom, hpool, hcounters, (hcounts p hp).2]
    exact h.balanced p (hcounts p hp).1

include h in
theorem Settled.congr (horphans : s'.orphans = s.orphans) :
    s'.Settled V connected :=
  h.of_counts _ horphans fun _ hp => ⟨hp, rfl⟩

theorem settled_congr (horphans : s'.orphans = s.orphans) :
    s'.Settled V connected ↔ s.Settled V connected :=
  ⟨fun h => h.congr horphans.symm, fun h => h.congr horphans⟩

theorem Covered.settled_iff (h : s.Covered V connected) (hfiled : s'.Filed V [])
    (hbounded : s'.orphanBlocks.keys.card ≤ maxOrphanBlocks)
    (hkept : ∀ p excess, s.Owes p excess → s'.Owes p excess) :
    s'.Settled V connected ↔ s.Settled V connected := by
  refine ⟨fun hafter => ⟨h.filed, h.bounded, fun p hp => ?_⟩,
    fun hbefore => ⟨hfiled, hbounded, fun p hp => hkept p 0 (hbefore.balanced p hp)⟩⟩
  obtain ⟨excess, howes⟩ := h.covered p hp
  have hsame := hkept p excess howes
  have hzero := hafter.balanced p hp
  rw [Owes] at *
  omega

theorem Covered.removeOrphans (h : s.Covered V connected) (hashes : List Hash) :
    (s.removeOrphans V hashes).Covered V connected := by
  refine ⟨h.filed.removeOrphans hashes, (card_removeOrphans_le V hashes s).trans h.bounded, ?_⟩
  intro p hp
  obtain ⟨excess, howes⟩ := h.covered p hp
  obtain ⟨lost, hafter, -⟩ := howes.removeOrphans (V := V) hashes
  exact ⟨excess + lost, hafter⟩

/-- **A removal keeps the agreement exactly if it spares the peers that are connected.** -/
theorem Covered.settled_removeOrphans_iff (h : s.Covered V connected) (hashes : List Hash) :
    (s.removeOrphans V hashes).Settled V connected ↔
      s.Settled V connected ∧ s.Spares connected hashes := by
  refine ⟨fun hafter => ?_, fun ⟨hbefore, hspares⟩ => ?_⟩
  · have hboth : ∀ p ∈ connected, s.Owes p 0 ∧ ∀ hash ∈ hashes, s.sender hash ≠ some p := by
      intro p hp
      obtain ⟨excess, howes⟩ := h.covered p hp
      obtain ⟨lost, hgap, hlost⟩ := howes.removeOrphans (V := V) hashes
      have hzero := hafter.balanced p hp
      rw [Owes] at *
      exact ⟨by omega, hlost.mp (by omega)⟩
    exact ⟨⟨h.filed, h.bounded, fun p hp => (hboth p hp).1⟩, fun p hp => (hboth p hp).2⟩
  · have hcovered := h.removeOrphans hashes
    refine ⟨hcovered.filed, hcovered.bounded, fun p hp => ?_⟩
    obtain ⟨lost, hgap, hlost⟩ := (hbefore.balanced p hp).removeOrphans (V := V) hashes
    rw [hlost.mpr (hspares p hp)] at hgap
    exact hgap

theorem evictOrphans_eq_some {order : List Hash} (h : evictOrphans V order s = some s') :
    s' = s.removeOrphans V order ∧ s'.orphanBlocks.keys.card < maxOrphanBlocks := by
  induction order generalizing s with
  | nil =>
    unfold evictOrphans at h
    split_ifs at h with hroom
    cases h
    exact ⟨rfl, hroom⟩
  | cons hash rest ih =>
    unfold evictOrphans at h
    split_ifs at h
    exact ih h

theorem orphansPerPeer_removeOrphans (V : BlockView B) (hashes : List Hash) (s : ChainSync B) :
    (s.removeOrphans V hashes).orphansPerPeer = s.orphansPerPeer := by
  induction hashes generalizing s with
  | nil => rfl
  | cons hash hashes ih => exact (ih _).trans (s.orphansPerPeer_removeOrphan V hash)

theorem admits_congr (h : s'.orphansPerPeer = s.orphansPerPeer) (origin : Option PeerId) :
    s'.admits origin = s.admits origin := by
  unfold admits admitOrphan
  cases origin with
  | none => rfl
  | some p =>
    simp only [h]
    split_ifs
    · rfl
    · rfl

variable {now : Nat}

/-- **An orphan is pooled** once there is room: this keeps the agreement exactly if the eviction
spares the peers that are connected and the block is not in the pool then. -/
theorem Covered.settled_poolOrphan_iff
    (h : s.Covered V connected) (hevict : evictOrphans V evicted s = some s') :
    (s'.poolOrphan V block origin now).Settled V connected ↔
      s.Settled V connected ∧ s.Spares connected evicted ∧
        (s.admits origin = true → V.hash block ∈ s.orphanBlocks.keys → V.hash block ∈ evicted) := by
  obtain ⟨rfl, hroom⟩ := evictOrphans_eq_some hevict
  have hcovered := h.removeOrphans evicted
  have hfiled := hcovered.filed.poolOrphan block origin now
  have hbounded := (card_poolOrphan_le (s.removeOrphans V evicted) V block origin now).trans hroom
  have hnew : ((s.removeOrphans V evicted).admits origin = true →
      V.hash block ∉ (s.removeOrphans V evicted).orphanBlocks.keys) ↔
      (s.admits origin = true → V.hash block ∈ s.orphanBlocks.keys → V.hash block ∈ evicted) := by
    rw [admits_congr (orphansPerPeer_removeOrphans V evicted s), mem_keys_removeOrphans, not_and,
      Decidable.not_not]
  rw [← and_assoc, ← h.settled_removeOrphans_iff evicted, ← hnew]
  refine ⟨fun hafter => ?_, fun ⟨hbefore, hnew⟩ => ?_⟩
  · have hnew := hfiled.mp hafter.filed
    have hkept := hcovered.settled_iff hafter.filed hbounded fun p excess howes =>
      howes.poolOrphan now hnew
    exact ⟨hkept.mp hafter, hnew⟩
  · exact (hcovered.settled_iff (hfiled.mpr hnew) hbounded fun p excess howes =>
      howes.poolOrphan now hnew).mpr hbefore

theorem Covered.settled_drainOrphans_iff (h : s.Covered V connected) (fuel : Nat)
    (queue : List Hash) (out : List B) :
    (ChainSync.drainOrphans V fuel queue s out).2.Settled V connected ↔ s.Settled V connected :=
  h.settled_iff (Filed.drainOrphans fuel queue s out h.filed)
    ((card_drainOrphans_le V fuel queue s out).trans h.bounded)
    fun _ _ howes => howes.drainOrphans fuel queue s out

include h in
/-- **The clean-up**, which is not done every time. -/
theorem Settled.cleanupExpiredOrphans (now : Nat) (order : List Hash) :
    (s.cleanupExpiredOrphans V now order).Covered V connected ∧
      ((s.cleanupExpiredOrphans V now order).Settled V connected ↔
        (s.cleanupDue now = true → s.Spares connected order)) := by
  unfold ChainSync.cleanupExpiredOrphans
  split_ifs with hdue
  · have hstamped : ({ s with lastOrphanCleanup := now } : ChainSync B).Settled V connected :=
      h.congr rfl
    refine ⟨hstamped.toCovered.removeOrphans order, ?_⟩
    refine (hstamped.toCovered.settled_removeOrphans_iff order).trans ?_
    exact ⟨fun hboth _ => hboth.2, fun hspares => ⟨hstamped, hspares hdue⟩⟩
  · have hstamped : ({ s with lastOrphanCleanup := min s.lastOrphanCleanup now } :
        ChainSync B).Settled V connected := h.congr rfl
    exact ⟨hstamped.toCovered, iff_of_true hstamped fun hdue' => absurd hdue' hdue⟩

/-- The block is delivered at once: it extends the tip, is a genesis block or was asked for. -/
def delivers (V : BlockView B) (s : ChainSync B) (block : B) : Bool :=
  decide (V.prevHash block = s.localTip ∨ V.height block = 0 ∨ V.hash block ∈ s.downloading)

/-- **The condition on a block that comes in**: the clean-up and the eviction spare the peers that
are connected, and the block is not filed while it is in the pool. -/
def OrderlyBlock (V : BlockView B) (connected : Finset PeerId) (s : ChainSync B) (block : B)
    (origin : Option PeerId) (now : Nat) (expired evicted : List Hash) : Prop :=
  s.passesEntryChecks V block = true →
    (s.cleanupDue now = true → s.Spares connected expired) ∧
      (s.delivers V block = false →
        (s.cleanupExpiredOrphans V now expired).Spares connected evicted ∧
          (s.admits origin = true →
            V.hash block ∈ (s.cleanupExpiredOrphans V now expired).orphanBlocks.keys →
              V.hash block ∈ evicted))

theorem orphansPerPeer_cleanupExpiredOrphans (V : BlockView B) (s : ChainSync B) (now : Nat)
    (order : List Hash) :
    (s.cleanupExpiredOrphans V now order).orphansPerPeer = s.orphansPerPeer := by
  unfold cleanupExpiredOrphans
  split_ifs
  · exact orphansPerPeer_removeOrphans V order _
  · rfl

include h in
theorem Settled.onBlockReceivedFrom_iff {expired : List Hash} {r : List B × ChainSync B}
    (hr : s.onBlockReceivedFrom V block origin now expired evicted = some r) :
    r.2.Settled V connected ↔ s.OrderlyBlock V connected block origin now expired evicted := by
  unfold onBlockReceivedFrom at hr
  set cleaned := s.cleanupExpiredOrphans V now expired
  obtain ⟨hcovered, hclean⟩ := h.cleanupExpiredOrphans now expired
  have hadmits : (cleaned.dropRequest (V.hash block)).admits origin = s.admits origin := by
    refine admits_congr ?_ origin
    exact orphansPerPeer_cleanupExpiredOrphans V s now expired
  have hlocal : cleaned.localTip = s.localTip :=
    view_eq_of_blank localTip (s.sansOrphans_cleanupExpiredOrphans V now expired)
  have hdropped : (cleaned.dropRequest (V.hash block)).Covered V
      connected := ⟨hcovered.filed, hcovered.bounded, hcovered.covered⟩
  unfold OrderlyBlock
  by_cases hentry : s.passesEntryChecks V block = false
  · rw [if_pos hentry] at hr
    cases hr
    refine iff_of_true (h.congr ?_) fun htrue => nomatch hentry.symm.trans htrue
    cases origin with
    | none => rfl
    | some p => rfl
  · have hpasses : s.passesEntryChecks V block = true := eq_true_of_ne_false hentry
    have hsettled : (cleaned.dropRequest (V.hash block)).Settled V
        connected ↔ (s.cleanupDue now = true → s.Spares connected expired) :=
      Iff.trans (settled_congr (s := s.cleanupExpiredOrphans V now expired) rfl) hclean
    have hdelivers : (V.prevHash block = (cleaned.dropRequest (V.hash block)).localTip ∨
        V.height block = 0 ∨ decide (V.hash block ∈ s.downloading) = true) ↔
        s.delivers V block = true := by
      rw [delivers, decide_eq_true_eq, decide_eq_true_eq, ← hlocal]
      exact Iff.rfl
    rw [if_neg hentry] at hr
    simp only [hdelivers] at hr
    by_cases hnow : s.delivers V block = true
    · rw [if_pos hnow] at hr
      cases hr
      rw [hdropped.settled_drainOrphans_iff, hsettled]
      exact ⟨fun hspares _ => ⟨hspares, fun hlater => nomatch hnow.symm.trans hlater⟩,
        fun horderly => (horderly hpasses).1⟩
    · rw [if_neg hnow] at hr
      obtain ⟨room, hroom, rfl⟩ := map_eq_some_iff.mp hr
      refine (hdropped.settled_poolOrphan_iff hroom).trans ?_
      rw [hsettled, hadmits]
      exact ⟨fun hall _ => ⟨hall.1, fun _ => hall.2⟩, fun horderly =>
        ⟨(horderly hpasses).1, (horderly hpasses).2 (eq_false_of_ne_true hnow)⟩⟩

include h in
theorem Settled.markBlockOrphan_iff {parent : Hash}
    (hmark : s.markBlockOrphan V block origin parent now evicted = some s') :
    s'.Settled V connected ↔
      (V.hash block ∉ s.orphanBlocks.keys → s.Spares connected evicted) := by
  have hdropped : (s.dropRequest (V.hash block)).Settled V connected := h.congr rfl
  rw [markBlockOrphan_eq] at hmark
  obtain ⟨pooled, hpooled, rfl⟩ := map_eq_some_iff.mp hmark
  rw [settled_congr (view_eq_of_blank orphans (sansFetch_queueParent pooled parent))]
  split_ifs at hpooled with hthere
  · cases hpooled
    exact iff_of_true hdropped fun hnot => absurd hthere hnot
  · obtain ⟨room, hroom, rfl⟩ := map_eq_some_iff.mp hpooled
    refine (hdropped.toCovered.settled_poolOrphan_iff hroom).trans ?_
    exact ⟨fun hall _ => hall.2.1, fun hspares =>
      ⟨hdropped, hspares hthere, fun _ hmem => absurd hmem hthere⟩⟩

/-! ## 4. Runs -/

/-- What happens to a node: a peer connects, or an operation of the synchroniser is called. -/
inductive NetAct (B : Type)
  | connect (peer : PeerId)
  | op (op : SyncOp B)

/-- The peers that are connected after an operation. -/
def stayConnected (connected : Finset PeerId) : SyncOp B → Finset PeerId
  | .onPeerDisconnected peer _ _ => connected.erase peer
  | _ => connected

def netStep (V : BlockView B) (x : ChainSync B × Finset PeerId) :
    NetAct B → Option (ChainSync B × Finset PeerId)
  | .connect peer => some (x.1, insert peer x.2)
  | .op op => (x.1.step V op).map fun s' => (s', stayConnected x.2 op)

/-- **The condition on an action.**  An orphan that expires or is evicted was not sent by a peer that
is connected; no block is filed that is in the pool; and a peer that comes back finds as much counted
for it as it has in the pool. -/
def Orderly (V : BlockView B) (x : ChainSync B × Finset PeerId) : NetAct B → Prop
  | .connect peer => peer ∈ x.2 ∨ x.1.countedFor peer = x.1.pooledFrom peer
  | .op (.cleanupExpiredOrphans now order) => x.1.cleanupDue now = true → x.1.Spares x.2 order
  | .op (.onBlockReceivedFrom block origin now expired evicted) =>
    x.1.OrderlyBlock V x.2 block origin now expired evicted
  | .op (.markBlockOrphan block _ _ _ evicted) =>
    V.hash block ∉ x.1.orphanBlocks.keys → x.1.Spares x.2 evicted
  | .op _ => True

include h in
theorem Settled.onPeerDisconnected (peer : PeerId) (now : Nat) (order : List Hash) :
    (s.onPeerDisconnected peer now order).Settled V (connected.erase peer) := by
  refine h.of_counts (s.orphansPerPeer.erase peer) ?_ fun p hp => ?_
  · exact (view_eq_of_blank orphans ((sansFetch_leaveSynced _ now _).trans
      (sansFetch_requeueAll _ order))).trans rfl
  · obtain ⟨hne, hp⟩ := mem_erase.mp hp
    exact ⟨hp, Finmap.lookup_erase_ne hne⟩

include h in
theorem settled_insert_iff (peer : PeerId) :
    s.Settled V (insert peer connected) ↔
      peer ∈ connected ∨ s.countedFor peer = s.pooledFrom peer := by
  refine ⟨fun hafter => .inr (hafter.balanced peer (mem_insert_self _ _)), fun hpeer => ?_⟩
  refine ⟨h.filed, h.bounded, fun p hp => ?_⟩
  rcases mem_insert.mp hp with rfl | hp
  · exact hpeer.elim (h.balanced p) id
  · exact h.balanced p hp

/-- **An action keeps the agreement exactly if it is orderly.** -/
theorem settled_netStep_iff {x x' : ChainSync B × Finset PeerId} {act : NetAct B}
    (h : x.1.Settled V x.2) (hstep : netStep V x act = some x') :
    x'.1.Settled V x'.2 ↔ Orderly V x act := by
  cases act with
  | connect peer =>
    cases hstep
    exact settled_insert_iff h peer
  | op op =>
    obtain ⟨s', hs', rfl⟩ := map_eq_some_iff.mp hstep
    cases op with
    | cleanupExpiredOrphans now order =>
      obtain ⟨-, rfl⟩ := guarded_eq_some_iff.mp hs'
      exact (h.cleanupExpiredOrphans now order).2
    | onBlockReceivedFrom block origin now expired evicted =>
      obtain ⟨t, ht, hok⟩ := bind_eq_some_iff.mp hs'
      obtain ⟨r, hr, rfl⟩ := map_eq_some_iff.mp ht
      obtain ⟨-, rfl⟩ := guarded_eq_some_iff.mp hok
      exact h.onBlockReceivedFrom_iff hr
    | markBlockOrphan block origin parent now evicted => exact h.markBlockOrphan_iff hs'
    | onPeerDisconnected peer now order =>
      obtain ⟨-, rfl⟩ := guarded_eq_some_iff.mp hs'
      exact iff_of_true (h.onPeerDisconnected peer now order) trivial
    | clear =>
      cases hs'
      exact iff_of_true ⟨shelved_empty _, zero_le, fun _ _ => rfl⟩ trivial
    | onTimeout hash now =>
      cases hs'
      refine iff_of_true (h.congr ?_) trivial
      unfold onTimeout
      simp only
      split
      · rfl
      · split_ifs
        · rfl
        · rfl
    | queueHeaders | queueHeadersFromPeer | getBlocksToRequest | recordRequest | markBlockReceived
    | markBlockFailed | requeueFailed | getBlocksToRetry | recoverStuckDownloads =>
      exact iff_of_true (h.congr (view_eq_of_blank orphans (step_fetch rfl hs'))) trivial
    | _ => exact iff_of_true (h.congr (view_eq_of_blank orphans (step_stock rfl hs'))) trivial

/-- **In every orderly run pool, index and counters agree.** -/
theorem orderly_runs_settled (V : BlockView B) {localHeight : Nat} {tip : Hash}
    {x : ChainSync B × Finset PeerId}
    (hrun : Reaches (netStep V) (Orderly V) (new localHeight tip, ∅) x) :
    ((∀ parent, (shelf x.1.orphanByParent parent).Nodup) ∧
      (∀ parent hash, hash ∈ shelf x.1.orphanByParent parent ↔
        ∃ o, x.1.orphanBlocks.lookup hash = some o ∧ V.prevHash o.block = parent) ∧
      ∑ parent ∈ x.1.orphanByParent.keys, (shelf x.1.orphanByParent parent).length =
        x.1.orphanBlocks.keys.card ∧
      x.1.orphanBlocks.keys.card ≤ maxOrphanBlocks ∧
      ∀ p ∈ x.2, x.1.countedFor p = x.1.pooledFrom p) ∧
    ∀ act x', netStep V x act = some x' → (x'.1.Settled V x'.2 ↔ Orderly V x act) := by
  have h : x.1.Settled V x.2 :=
    hrun.invariant (I := fun x => x.1.Settled V x.2) ⟨shelved_empty _, zero_le, nofun⟩
      fun _ _ _ hx horderly hstep => (settled_netStep_iff hx hstep).mpr horderly
  refine ⟨⟨h.filed.nodup, fun parent hash => ?_, h.filed.sum_length, h.bounded, h.balanced⟩,
    fun act x' hstep => settled_netStep_iff h hstep⟩
  refine (h.filed.mem_iff parent hash).trans ?_
  exact ⟨And.left, fun hpooled => ⟨hpooled, nofun⟩⟩

namespace Resent

open SmallSync hiding view

abbrev Block := UInt8 × UInt8

def view : BlockView Block where
  hash b := ⟨FixedBytes.replicate 32 b.1⟩
  height _ := 1
  prevHash b := ⟨FixedBytes.replicate 32 b.2⟩
  target _ := ⟨FixedBytes.replicate 32 0x80⟩

/-- Block 5 arrives from a peer, without its parent 4. -/
def arrives (p : PeerId) (now : Nat) : NetAct Block :=
  .op (.onBlockReceivedFrom (5, 4) (some p) now [] [])

def orderlyTest (x : ChainSync Block × Finset PeerId) : NetAct Block → Bool
  | .connect p => decide (x.1.countedFor p = x.1.pooledFrom p)
  | .op (.markBlockOrphan _ _ _ _ evicted) => decide (evicted = [])
  | .op (.onBlockReceivedFrom block _ _ expired evicted) =>
    decide (expired = [] ∧ evicted = [] ∧
      (x.1.delivers view block = true ∨ x.1.orphanBlocks.keys = ∅))
  | _ => false

theorem orderly_of_orderlyTest (x : ChainSync Block × Finset PeerId) (act : NetAct Block)
    (h : orderlyTest x act = true) : Orderly view x act := by
  cases act with
  | connect p => exact .inr (of_decide_eq_true h)
  | op op =>
    cases op with
    | markBlockOrphan block origin parent now evicted =>
      obtain rfl : evicted = [] := of_decide_eq_true h
      exact fun _ _ _ => nofun
    | onBlockReceivedFrom block origin now expired evicted =>
      obtain ⟨rfl, rfl, hfree⟩ : expired = [] ∧ evicted = [] ∧
        (x.1.delivers view block = true ∨ x.1.orphanBlocks.keys = ∅) := of_decide_eq_true h
      refine fun _ => ⟨fun _ _ _ => nofun, fun hlater => ⟨fun _ _ => nofun, fun _ hmem => ?_⟩⟩
      rcases hfree with hnow | hempty
      · exact nomatch hnow.symm.trans hlater
      · -- nothing has expired, so the pool is the one before the clean-up
        have hpool : (x.1.cleanupExpiredOrphans view now []).orphanBlocks = x.1.orphanBlocks := by
          unfold cleanupExpiredOrphans
          split_ifs
          · rfl
          · rfl
        rw [hpool, hempty] at hmem
        exact absurd hmem (notMem_empty _)
    | _ => cases h

def acts : List (NetAct Block) :=
  [.connect (peer 1), .connect (peer 2), arrives (peer 1) 100,
    .op (.markBlockOrphan (6, 4) (some (peer 2)) (blockHash 4) 110 [])]

/-- Both are pooled, listed and counted. -/
theorem siblings_settled : ∃ x : ChainSync Block × Finset PeerId,
    Reaches (netStep view) (Orderly view) (new 0 Hash.zero, ∅) x ∧
      shelf x.1.orphanByParent (blockHash 4) = [blockHash 5, blockHash 6] ∧
      x.1.orphanBlocks.keys.card ≤ maxOrphanBlocks := by
  have hrun : (Lib.run (netStep view) orderlyTest (new 0 Hash.zero, ∅) acts).any
      (fun x => decide (shelf x.1.orphanByParent (blockHash 4) = [blockHash 5, blockHash 6])) =
        true := by
    decide +kernel
  obtain ⟨x, hreach, hends⟩ := Reaches.exists_of_run orderly_of_orderlyTest hrun
  exact ⟨x, hreach, of_decide_eq_true hends, (orderly_runs_settled view hreach).1.2.2.2.1⟩

/-- **Listed twice, and counted for nothing.**  A block that is received again while it is in the pool
is listed twice and counted twice; an orphan that expires stays counted; and a peer that comes back
has an orphan in the pool and nothing counted. -/
theorem resent_block_listed_twice :
    (Lib.run (netStep view) (fun _ _ => true) (new 0 Hash.zero, ∅)
        [.connect (peer 1), arrives (peer 1) 100, arrives (peer 1) 110]).any
      (fun x => decide (shelf x.1.orphanByParent (blockHash 4) = [blockHash 5, blockHash 5] ∧
        x.1.orphanBlocks.keys.card = 1 ∧ x.1.countedFor (peer 1) = 2)) = true ∧
    (Lib.run (netStep view) (fun _ _ => true) (new 0 Hash.zero, ∅)
        [.connect (peer 1), arrives (peer 1) 100,
          .op (.cleanupExpiredOrphans 1900 [blockHash 5])]).any
      (fun x => decide (x.1.orphanBlocks.keys = ∅ ∧ x.1.countedFor (peer 1) = 1)) = true ∧
    (Lib.run (netStep view) (fun _ _ => true) (new 0 Hash.zero, ∅)
        [.connect (peer 1), arrives (peer 1) 100, .op (.onPeerDisconnected (peer 1) 110 []),
          .connect (peer 1)]).any
      (fun x => decide (x.1.pooledFrom (peer 1) = 1 ∧ x.1.countedFor (peer 1) = 0)) = true := by
  decide +kernel

end Resent

end ChainSync

end Coincync
