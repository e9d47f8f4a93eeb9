/-
# The Spark store

`src/storage/spark.rs`: the minted coins in order, the serials that have been spent with the height
of the spend, a root over the coins, and two trees on disk that follow.  A checkpoint is a length and
a height.  `rewind` takes no snapshot back: it cuts the coins at the length and drops the serials
whose height is not below the checkpoint's.
-/
import Coincync.Lib.Bytes
import Coincync.Lib.Listing
import Coincync.Lib.Runs

namespace Coincync.Storage

open Lib List Option

/-! ## 1. The store -/

structure SparkCoinEntry where
  coinId : Nat
  commitment : FixedBytes 32
  height : Nat
  deriving DecidableEq

/-- A serial tag. -/
abbrev Serial := FixedBytes 32

/-- `SparkPersistence`: the trees `spark_coins`, by coin id, and `spark_serials`. -/
structure SparkPersistence where
  coins : Map Nat SparkCoinEntry
  serials : Map Serial Nat

def maxReorgCheckpoints : Nat := 1000

structure SparkCheckpoint where
  height : Nat
  coinsLen : Nat

/-- `SparkStore`.  The checkpoint stack has the newest in front. -/
structure SparkStore where
  coins : List SparkCoinEntry
  spentSerials : Map Serial Nat
  root : FixedBytes 32
  checkpoints : List SparkCheckpoint
  persistence : Option SparkPersistence

namespace SparkStore

variable (blake3 : Bytes → FixedBytes 32)

def computeRoot (coins : List SparkCoinEntry) : FixedBytes 32 :=
  blake3 (coins.flatMap fun c => c.commitment.toList)

def new : SparkStore := ⟨[], ∅, computeRoot blake3 [], [], none⟩

/-- `open_with_db`: the coins in the order of their ids, the serials as they are, the root computed
again, and no checkpoint. -/
def openWithDb (p : SparkPersistence) : SparkStore :=
  let coins := Map.inOrder p.coins
  ⟨coins, p.serials, computeRoot blake3 coins, [], some p⟩

variable (s : SparkStore)

def addCoin (entry : SparkCoinEntry) : SparkStore :=
  let coins := s.coins ++ [entry]
  { s with
    coins
    root := computeRoot blake3 coins
    persistence := s.persistence.map fun p =>
      { p with coins := p.coins.insert entry.coinId entry } }

/-- `mark_serial_spent`: an earlier height is written over. -/
def markSerialSpent (serial : Serial) (height : Nat) : SparkStore :=
  { s with
    spentSerials := s.spentSerials.insert serial height
    persistence := s.persistence.map fun p =>
      { p with serials := p.serials.insert serial height } }

/-- `checkpoint_at_height`: pushed whatever the height, and beyond the cap the oldest goes. -/
def checkpointAtHeight (height : Nat) : SparkStore :=
  { s with checkpoints := (⟨height, s.coins.length⟩ :: s.checkpoints).take maxReorgCheckpoints }

/-- The serials spent at a height or above. -/
def serialsFrom (height : Nat) (m : Map Serial Nat) : Finset Serial :=
  Map.keysWhere (fun _ h => decide (height ≤ h)) m

/-- The restoring part of `rewind`. -/
def restore (cp : SparkCheckpoint) : SparkStore :=
  let splitAt := min cp.coinsLen s.coins.length
  let coins := s.coins.take splitAt
  let removedCoins := s.coins.drop splitAt
  let removedSerials := serialsFrom cp.height s.spentSerials
  { s with
    coins
    spentSerials := Map.discard removedSerials s.spentSerials
    root := computeRoot blake3 coins
    persistence := s.persistence.map fun p =>
      ⟨Map.eraseAll (removedCoins.map SparkCoinEntry.coinId) p.coins,
        Map.discard removedSerials p.serials⟩ }

def rewind : Bool × SparkStore :=
  match s.checkpoints with
  | [] => (false, s)
  | cp :: rest => (true, { s.restore blake3 cp with checkpoints := rest })

/-! ## 2. Runs -/

/-- The operations of a store, with the reopening of its database. -/
inductive Op
  | addCoin (entry : SparkCoinEntry)
  | markSerialSpent (serial : Serial) (height : Nat)
  | checkpointAtHeight (height : Nat)
  | rewind
  | reopen

/-- A step; a store without a database is not reopened. -/
def step : Op → Option SparkStore
  | .addCoin entry => some (s.addCoin blake3 entry)
  | .markSerialSpent serial height => some (s.markSerialSpent serial height)
  | .checkpointAtHeight height => some (s.checkpointAtHeight height)
  | .rewind => some (s.rewind blake3).2
  | .reopen => s.persistence.map (openWithDb blake3)

/-- Coin ids are fresh and ascending; nothing is asked of heights. -/
def FreshIds : Op → Prop
  | .addCoin entry => ∀ c ∈ s.coins, c.coinId < entry.coinId
  | _ => True

/-- **The root and the trees follow the coins and the serials.** -/
structure Kept (s : SparkStore) : Prop where
  root_eq : s.root = computeRoot blake3 s.coins
  ascending : s.coins.Pairwise fun a b => a.coinId < b.coinId
  listed : ∀ p, s.persistence = some p → Map.Lists p.coins s.coins SparkCoinEntry.coinId id
  serials_eq : ∀ p, s.persistence = some p → p.serials = s.spentSerials

variable {blake3 s}

theorem nodup_ids {coins : List SparkCoinEntry}
    (h : coins.Pairwise fun a b => a.coinId < b.coinId) : (coins.map SparkCoinEntry.coinId).Nodup :=
  pairwise_map.mpr (h.imp ne_of_lt)

theorem Kept.new : (SparkStore.new blake3).Kept blake3 where
  root_eq := rfl
  ascending := .nil
  listed := by
    intro p hp
    cases hp
  serials_eq := by
    intro p hp
    cases hp

section

variable (h : s.Kept blake3)

include h

/-- **Reopening gives the coins, the serials and the root back.** -/
theorem Kept.openWithDb_eq {p : SparkPersistence} (hp : s.persistence = some p) :
    openWithDb blake3 p = { s with checkpoints := [] } := by
  have hcoins : Map.inOrder p.coins = s.coins := (h.listed p hp).inOrder_eq h.ascending
  simp only [openWithDb, hcoins, h.serials_eq p hp, ← h.root_eq, ← hp]

theorem Kept.addCoin {entry : SparkCoinEntry} (hfresh : ∀ c ∈ s.coins, c.coinId < entry.coinId) :
    (s.addCoin blake3 entry).Kept blake3 := by
  have hasc : (s.coins ++ [entry]).Pairwise fun a b => a.coinId < b.coinId := by
    rw [pairwise_append]
    refine ⟨h.ascending, pairwise_singleton _ _, fun c hc d hd => ?_⟩
    rw [mem_singleton.mp hd]
    exact hfresh c hc
  have hnodup : (([entry] ++ s.coins).map SparkCoinEntry.coinId).Nodup := by
    refine ((nodup_ids hasc).perm ?_)
    exact (perm_append_comm).map _
  refine ⟨rfl, hasc, fun p hp => ?_, fun p hp => ?_⟩
  all_goals obtain ⟨q, hq, rfl⟩ := map_eq_some_iff.mp hp
  · have hins := (h.listed q hq).insertAll hnodup
    refine hins.congr fun a => ?_
    rw [SparkStore.addCoin, mem_append, mem_append, or_comm]
  · exact h.serials_eq q hq

theorem Kept.markSerialSpent (serial : Serial) (height : Nat) :
    (s.markSerialSpent serial height).Kept blake3 := by
  refine ⟨h.root_eq, h.ascending, fun p hp => ?_, fun p hp => ?_⟩
  all_goals obtain ⟨q, hq, rfl⟩ := map_eq_some_iff.mp hp
  · exact h.listed q hq
  · exact congrArg (Finmap.insert serial height) (h.serials_eq q hq)

theorem Kept.restore (cp : SparkCheckpoint) : (s.restore blake3 cp).Kept blake3 := by
  refine ⟨rfl, h.ascending.sublist (take_sublist _ _), fun p hp => ?_, fun p hp => ?_⟩
  all_goals obtain ⟨q, hq, rfl⟩ := map_eq_some_iff.mp hp
  · -- the tail goes; the list of the tree is turned round so that it stands in front
    have hturn : ∀ n, (s.coins.drop n ++ s.coins.take n).Perm s.coins := fun n =>
      perm_append_comm.trans (.of_eq (take_append_drop n s.coins))
    have hfront := (h.listed q hq).congr fun a =>
      (hturn (min cp.coinsLen s.coins.length)).mem_iff
    exact hfront.eraseAll (((nodup_ids h.ascending).perm ((hturn _).map _).symm))
  · exact congrArg (Map.discard (serialsFrom cp.height s.spentSerials)) (h.serials_eq q hq)

theorem Kept.withCheckpoints (cps : List SparkCheckpoint) :
    ({ s with checkpoints := cps } : SparkStore).Kept blake3 :=
  ⟨h.root_eq, h.ascending, h.listed, h.serials_eq⟩

theorem Kept.step {op : Op} {s' : SparkStore} (hfresh : s.FreshIds op)
    (hstep : s.step blake3 op = some s') : s'.Kept blake3 := by
  cases op with
  | addCoin entry =>
    cases hstep
    exact h.addCoin hfresh
  | markSerialSpent serial height =>
    cases hstep
    exact h.markSerialSpent serial height
  | checkpointAtHeight height =>
    cases hstep
    exact h.withCheckpoints _
  | rewind =>
    cases hstep
    unfold SparkStore.rewind
    cases hcps : s.checkpoints with
    | nil => exact h
    | cons cp rest => exact (h.restore cp).withCheckpoints rest
  | reopen =>
    obtain ⟨p, hp, rfl⟩ := map_eq_some_iff.mp hstep
    rw [h.openWithDb_eq hp]
    exact h.withCheckpoints _

end

/-- An empty store, in memory or on an empty database. -/
def Empty (blake3 : Bytes → FixedBytes 32) (s : SparkStore) : Prop :=
  s = SparkStore.new blake3 ∨ s = openWithDb blake3 ⟨∅, ∅⟩

theorem Empty.kept (h : Empty blake3 s) : s.Kept blake3 := by
  rcases h with rfl | rfl
  · exact .new
  · have hcoins : Map.inOrder (∅ : Map Nat SparkCoinEntry) = [] :=
      (Map.lists_empty SparkCoinEntry.coinId id).inOrder_eq .nil
    refine ⟨rfl, ?_, fun p hp => ?_, fun p hp => ?_⟩
    · rw [openWithDb, hcoins]
      exact .nil
    · cases hp
      rw [openWithDb, hcoins]
      exact Map.lists_empty _ _
    · cases hp
      rfl

/-! ## 3. A checkpoint, some calls, and a rewind -/

/-- What a block does to the store. -/
inductive Call
  | addCoin (entry : SparkCoinEntry)
  | markSerialSpent (serial : Serial) (height : Nat)

/-- Make a call. -/
def call (blake3 : Bytes → FixedBytes 32) (s : SparkStore) : Call → SparkStore
  | .addCoin entry => s.addCoin blake3 entry
  | .markSerialSpent serial height => s.markSerialSpent serial height

def added : List Call → List SparkCoinEntry
  | [] => []
  | .addCoin entry :: calls => entry :: added calls
  | .markSerialSpent _ _ :: calls => added calls

/-- The marks the calls make. -/
def marks : List Call → List (Serial × Nat)
  | [] => []
  | .addCoin _ :: calls => marks calls
  | .markSerialSpent serial height :: calls => (serial, height) :: marks calls

/-- **The calls all together.** -/
theorem calls_eq (blake3 : Bytes → FixedBytes 32) (calls : List Call) : ∀ s : SparkStore,
    let s' := calls.foldl (call blake3) s
    s'.coins = s.coins ++ added calls ∧
      s'.spentSerials = Map.insertAll (marks calls) s.spentSerials ∧
      s'.checkpoints = s.checkpoints ∧
      s'.persistence = s.persistence.map fun p =>
        ⟨Map.insertAll ((added calls).map fun c => (c.coinId, c)) p.coins,
          Map.insertAll (marks calls) p.serials⟩ := by
  induction calls with
  | nil =>
    intro s
    refine ⟨(append_nil _).symm, rfl, rfl, ?_⟩
    exact Option.map_id'.symm
  | cons c calls ih =>
    intro s
    obtain ⟨hcoins, hserials, hcheckpoints, hpersistence⟩ := ih (s.call blake3 c)
    rw [foldl_cons]
    refine ⟨hcoins.trans ?_, hserials.trans ?_, hcheckpoints.trans ?_, hpersistence.trans ?_⟩
    · cases c with
      | addCoin entry => exact append_assoc _ _ _
      | markSerialSpent serial height => rfl
    · cases c <;> rfl
    · cases c <;> rfl
    · cases c <;> exact Option.map_map _ _ _

/-- The coins, the serials, the root and the trees are the same. -/
def SameAs (s s' : SparkStore) : Prop :=
  s.coins = s'.coins ∧ s.spentSerials = s'.spentSerials ∧ s.root = s'.root ∧
    s.persistence = s'.persistence

/-- **What heights can tell apart.**  A coin added has no row in the tree yet. -/
def Undoable (s : SparkStore) (height : Nat) (calls : List Call) : Prop :=
  (∀ p, s.persistence = some p → ∀ e ∈ added calls, p.coins.lookup e.coinId = none) ∧
    ∀ k, match Map.latest (marks calls) k with
      | some m => s.spentSerials.lookup k = if m < height then some m else none
      | none => ∀ h, s.spentSerials.lookup k = some h → h < height

/-- **The serials come back exactly if the heights tell the marks apart.** -/
theorem discard_insertAll_eq_iff (l : List (Serial × Nat)) (m : Map Serial Nat) (height : Nat) :
    Map.discard (serialsFrom height (Map.insertAll l m)) (Map.insertAll l m) = m ↔
      ∀ k, match Map.latest l k with
        | some v => m.lookup k = if v < height then some v else none
        | none => ∀ h, m.lookup k = some h → h < height := by
  have hlookup : ∀ k, (Map.discard (serialsFrom height (Map.insertAll l m))
      (Map.insertAll l m)).lookup k = m.lookup k ↔ match Map.latest l k with
        | some v => m.lookup k = if v < height then some v else none
        | none => ∀ h, m.lookup k = some h → h < height := by
    intro k
    rw [serialsFrom, Map.lookup_discard_keysWhere, Map.lookup_insertAll]
    cases Map.latest l k with
    | some v =>
      rw [eq_comm]
      simp [filter_some]
    | none =>
      rw [none_or]
      cases m.lookup k with
      | none => simp
      | some h => simp [filter_some]
  constructor
  · intro h k
    rw [← hlookup, h]
  · intro h
    exact Finmap.ext_lookup fun k => (hlookup k).mpr (h k)

/-- **Taking a checkpoint and rewinding to it**, whatever was called in between. -/
theorem rewind_calls (blake3 : Bytes → FixedBytes 32) (s : SparkStore) (height : Nat)
    (calls : List Call) : let spent := Map.insertAll (marks calls) s.spentSerials
    ∃ s', (calls.foldl (call blake3) (s.checkpointAtHeight height)).rewind blake3 = (true, s') ∧
      s'.coins = s.coins ∧ s'.root = computeRoot blake3 s.coins ∧
      s'.spentSerials = Map.discard (serialsFrom height spent) spent ∧
      s'.persistence = s.persistence.map fun p =>
        ⟨Map.eraseAll ((added calls).map SparkCoinEntry.coinId)
            (Map.insertAll ((added calls).map fun c => (c.coinId, c)) p.coins),
          Map.discard (serialsFrom height spent) (Map.insertAll (marks calls) p.serials)⟩ := by
  obtain ⟨hcoins, hserials, hcheckpoints, hpersistence⟩ :=
    calls_eq blake3 calls (s.checkpointAtHeight height)
  generalize calls.foldl (call blake3) (s.checkpointAtHeight height) = t at *
  change _ = ⟨height, s.coins.length⟩ :: s.checkpoints.take (maxReorgCheckpoints - 1) at hcheckpoints
  have hsplit : min s.coins.length t.coins.length = s.coins.length := by
    rw [hcoins, length_append]
    exact min_eq_left (Nat.le_add_right _ _)
  have htake : t.coins.take s.coins.length = s.coins := by
    rw [hcoins]
    exact take_left
  have hdrop : t.coins.drop s.coins.length = added calls := by
    rw [hcoins]
    exact drop_left
  refine ⟨_, by rw [rewind, hcheckpoints], ?_, ?_, ?_, ?_⟩
  · simp only [restore, hsplit, htake]
  · simp only [restore, hsplit, htake]
  · simp only [restore, hserials]
    rfl
  · simp only [restore, hserials, hsplit, hdrop, hpersistence, Option.map_map]
    rfl

/-- **The rewind restores the store exactly if the calls are undoable**, in every store reached from
an empty one; and reopening its database gives the coins, the serials and the root of the store in
memory. -/
theorem rewind_restores_iff {s₀ : SparkStore} (h₀ : Empty blake3 s₀)
    (hrun : Reaches (step blake3) FreshIds s₀ s) :
    (∀ height calls,
      ∃ s', (calls.foldl (call blake3) (s.checkpointAtHeight height)).rewind blake3 = (true, s') ∧
        (s'.SameAs s ↔ s.Undoable height calls)) ∧
    ∀ p, s.persistence = some p →
      (openWithDb blake3 p).coins = s.coins ∧
        (openWithDb blake3 p).spentSerials = s.spentSerials ∧
        (openWithDb blake3 p).root = s.root := by
  have hkept : s.Kept blake3 :=
    hrun.invariant h₀.kept fun _ _ _ hs hfresh hstep => hs.step hfresh hstep
  refine ⟨fun height calls => ?_, fun p hp => ?_⟩
  · obtain ⟨s', hrewind, hcoins, hroot, hserials, hpersistence⟩ :=
      rewind_calls blake3 s height calls
    refine ⟨s', hrewind, ?_⟩
    rw [← hkept.root_eq] at hroot
    simp only [SameAs, hcoins, hroot, hserials, hpersistence, true_and, Undoable,
      discard_insertAll_eq_iff]
    rw [and_comm]
    refine and_congr_left fun hmarks => ?_
    -- the serials come back, in the tree as in memory; the coins are left
    have hback := (discard_insertAll_eq_iff _ _ _).mpr hmarks
    cases hp : s.persistence with
    | none => simp
    | some p =>
      simp only [map_some, Option.some.injEq, forall_eq', hkept.serials_eq p hp, hback]
      have hids : (added calls).map SparkCoinEntry.coinId =
          ((added calls).map fun c => (c.coinId, c)).map Prod.fst := by
        rw [List.map_map]
        rfl
      rw [hids]
      constructor
      · intro h e he
        have hcoins := congrArg SparkPersistence.coins h
        exact Map.eraseAll_insertAll_eq_iff.mp hcoins _ (List.mem_map_of_mem he)
      · intro h
        rw [Map.eraseAll_insertAll_eq_iff.mpr, ← hkept.serials_eq p hp]
        intro e he
        obtain ⟨c, hc, rfl⟩ := List.mem_map.mp he
        exact h c hc
  · rw [hkept.openWithDb_eq hp]
    exact ⟨rfl, rfl, rfl⟩

/-! ## 4. A serial marked twice -/

namespace Twice

/-- A hash function. -/
def lengthHash (b : Bytes) : FixedBytes 32 := FixedBytes.replicate 32 (UInt8.ofNat b.length)

/-- Serials and coins. -/
def serial (n : UInt8) : Serial := FixedBytes.replicate 32 n

def coin (id height : Nat) : SparkCoinEntry := ⟨id, FixedBytes.replicate 32 7, height⟩

/-- A store on an empty database. -/
def start : SparkStore := openWithDb lengthHash ⟨∅, ∅⟩

/-- After a block at height 1 that spends serial 1. -/
def spent : SparkStore := (start.checkpointAtHeight 1).markSerialSpent (serial 1) 1

theorem reaches_spent : Reaches (step lengthHash) FreshIds start spent :=
  have hcheckpoint : Reaches (step lengthHash) FreshIds start (start.checkpointAtHeight 1) :=
    .next (.checkpointAtHeight 1) .start trivial rfl
  .next (.markSerialSpent (serial 1) 1) hcheckpoint trivial rfl

/-- A block at height 2 that mints a coin and spends serial 2 can be taken back. -/
theorem new_serial_restored : spent.Undoable 2 [.addCoin (coin 0 2), .markSerialSpent (serial 2) 2] ∧
    ∃ s', ([Call.addCoin (coin 0 2), .markSerialSpent (serial 2) 2].foldl (call lengthHash)
      (spent.checkpointAtHeight 2)).rewind lengthHash = (true, s') ∧ s'.SameAs spent := by
  have hne : serial 2 ≠ serial 1 := by decide
  have hundoable :
      spent.Undoable 2 [.addCoin (coin 0 2), .markSerialSpent (serial 2) 2] := by
    refine ⟨fun p hp e _ => ?_, fun k => ?_⟩
    · cases hp
      exact Finmap.lookup_empty _
    · have hspent : spent.spentSerials.lookup k = if k = serial 1 then some 1 else none := by
        exact Map.lookup_insert_ite ∅ (serial 1) k 1
      rw [hspent]
      by_cases hk : serial 2 = k
      · subst hk
        simp [marks, Map.latest, hne]
      · simp only [marks, Map.latest, none_or, if_neg hk]
        split_ifs <;> simp
  obtain ⟨s', hrewind, hsame⟩ := (rewind_restores_iff (.inr rfl) reaches_spent).1 2
    [.addCoin (coin 0 2), .markSerialSpent (serial 2) 2]
  exact ⟨hundoable, s', hrewind, hsame.mpr hundoable⟩

/-- **A spent serial marked again is forgotten.** -/
theorem marked_again_forgotten : Reaches (step lengthHash) FreshIds start spent ∧
    spent.spentSerials.lookup (serial 1) = some 1 ∧
    (let s' := (((spent.checkpointAtHeight 2).markSerialSpent (serial 1) 2).rewind lengthHash).2
    s'.spentSerials.lookup (serial 1) = none ∧
      (s'.persistence.map fun p => p.serials.lookup (serial 1)) = some none) := by
  refine ⟨reaches_spent, ?_⟩
  decide +kernel

end Twice

end SparkStore

end Coincync.Storage
