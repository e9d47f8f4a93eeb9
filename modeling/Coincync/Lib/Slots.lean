/-
# Counted slots, with the entry removed in a second step

Connections are counted by a key, and at most `cap` of a key are admitted.  Admission tests and counts
in one step.  A release takes two: the counter goes down under the lock of its entry, and if that
leaves zero the entry is removed AFTER the lock is gone.  Between the two steps of one thread others
take theirs.
-/
import Coincync.Lib.Maps
import Coincync.Lib.Runs

namespace Coincync.Lib

variable {A K C T : Type} [DecidableEq K] [DecidableEq C]

/-! ## 1. One counter -/

/-- Count one more of a key, unless there are `cap` already. -/
def takeSlot (cap : Nat) (counts : Map K Nat) (k : K) : Bool × Map K Nat :=
  match counts.lookup k with
  | none => (true, counts.insert k 1)
  | some c => if c < cap then (true, counts.insert k (c + 1)) else (false, counts)

/-- Count one less of a key.  Says whether the entry is to be removed. -/
def decrement (counts : Map K Nat) (k : K) : Bool × Map K Nat :=
  match counts.lookup k with
  | none => (false, counts)
  | some c => (decide (c - 1 = 0), counts.insert k (c - 1))

/-- The counter of a key. -/
def counter (counts : Map K Nat) (k : K) : Nat := (counts.lookup k).getD 0

theorem counter_insert (counts : Map K Nat) (k k' : K) (n : Nat) :
    counter (counts.insert k n) k' = if k' = k then n else counter counts k' := by
  rw [counter, Map.lookup_insert_ite]
  split_ifs
  · rfl
  · rfl

theorem counter_erase (counts : Map K Nat) (k k' : K) :
    counter (counts.erase k) k' = if k' = k then 0 else counter counts k' := by
  rw [counter, Map.lookup_erase_ite]
  split_ifs
  · rfl
  · rfl

theorem counter_takeSlot {cap : Nat} (counts : Map K Nat) (k k' : K) :
    counter (takeSlot cap counts k).2 k' =
      counter counts k' + if (takeSlot cap counts k).1 = true ∧ k' = k then 1 else 0 := by
  unfold takeSlot
  cases hk : counts.lookup k with
  | none =>
    simp only [true_and]
    rw [counter_insert]
    split_ifs with heq
    · rw [heq, counter, hk]
      rfl
    · rfl
  | some c =>
    simp only
    split_ifs with hroom heq hadmitted
    · rw [counter_insert, if_pos heq.2, heq.2, counter, hk]
      rfl
    · rw [counter_insert, if_neg fun h => heq ⟨rfl, h⟩]
      rfl
    · exact nomatch hadmitted.1
    · rfl

theorem counter_lt_of_takeSlot {cap : Nat} (hcap : 0 < cap) {counts : Map K Nat} {k : K}
    (h : (takeSlot cap counts k).1 = true) : counter counts k < cap := by
  unfold takeSlot at h
  unfold counter
  cases hk : counts.lookup k with
  | none => exact hcap
  | some c =>
    simp only [hk] at h
    split_ifs at h with hroom
    exact hroom

theorem counter_decrement (counts : Map K Nat) (k k' : K) :
    counter (decrement counts k).2 k' = counter counts k' - if k' = k then 1 else 0 := by
  unfold decrement
  cases hk : counts.lookup k with
  | none =>
    simp only
    split_ifs with heq
    · rw [heq, counter, hk]
      rfl
    · rfl
  | some c =>
    simp only
    rw [counter_insert]
    split_ifs with heq
    · rw [heq, counter, hk]
      rfl
    · rfl

/-! ## 2. The machine -/

/-- The counters; the live connections, with their addresses; and the threads that are between the
two steps of a release. -/
structure Slots (A K C T : Type) where
  counts : Map K Nat
  live : Map C A
  removing : Map T A

/-- What a thread does. -/
inductive SlotAct (A C T : Type)
  | tryTrack (thread : T) (conn : C) (addr : A)
  | release (thread : T) (conn : C)
  | remove (thread : T)

namespace Slots

variable {key : A → K} {cap : Nat} {s s' : Slots A K C T} {act : SlotAct A C T}

/-- No connection and nothing counted. -/
def empty : Slots A K C T := ⟨∅, ∅, ∅⟩

/-- The live connections of a key. -/
def liveAt (key : A → K) (s : Slots A K C T) (k : K) : Nat :=
  Map.count (fun a => decide (key a = k)) s.live

/-- **Each counter is the number of live connections of its key, and no key has more than `cap`.** -/
structure Sound (key : A → K) (cap : Nat) (s : Slots A K C T) : Prop where
  counted : ∀ k, counter s.counts k = s.liveAt key k
  capped : ∀ k, s.liveAt key k ≤ cap

theorem sound_empty (key : A → K) (cap : Nat) : (empty : Slots A K C T).Sound key cap := by
  have hzero : ∀ k, (empty : Slots A K C T).liveAt key k = 0 := fun k => Map.count_empty _
  refine ⟨fun k => (hzero k).symm, fun k => ?_⟩
  rw [hzero]
  exact zero_le

variable [DecidableEq T] {thread : T}

/-- One step of one thread.  A thread that is to remove an entry does that next. -/
def step (key : A → K) (cap : Nat) (s : Slots A K C T) : SlotAct A C T → Option (Slots A K C T)
  | .tryTrack thread conn addr =>
    if thread ∈ s.removing.keys ∨ conn ∈ s.live.keys then none
    else
      some { s with
        counts := (takeSlot cap s.counts (key addr)).2
        live :=
          if (takeSlot cap s.counts (key addr)).1 = true then s.live.insert conn addr else s.live }
  | .release thread conn =>
    if thread ∈ s.removing.keys then none
    else
      (s.live.lookup conn).map fun addr =>
        { counts := (decrement s.counts (key addr)).2
          live := s.live.erase conn
          removing :=
            if (decrement s.counts (key addr)).1 = true then s.removing.insert thread addr
            else s.removing }
  | .remove thread =>
    (s.removing.lookup thread).map fun addr =>
      { s with
        counts := s.counts.erase (key addr)
        removing := s.removing.erase thread }

/-- **The condition on a step**: a removal finds zero. -/
def Clean (key : A → K) (s : Slots A K C T) : SlotAct A C T → Prop
  | .remove thread => ∀ addr, s.removing.lookup thread = some addr → counter s.counts (key addr) = 0
  | _ => True

theorem Sound.tryTrack (h : s.Sound key cap) (hcap : 0 < cap) {conn : C} {addr : A}
    (hstep : s.step key cap (.tryTrack thread conn addr) = some s') : s'.Sound key cap := by
  simp only [step] at hstep
  split_ifs at hstep with hbusy hadmitted
  · cases hstep
    have hnew : s.live.lookup conn = none := by
      rw [← Option.not_isSome_iff_eq_none, Option.isSome_iff_exists, ← Map.mem_keys_iff]
      exact fun hmem => hbusy (.inr hmem)
    have hlive : ∀ k, Map.count (fun a => decide (key a = k)) (s.live.insert conn addr) =
        s.liveAt key k + if key addr = k then 1 else 0 := fun k => by
      rw [Map.count_insert_of_new hnew]
      simp only [decide_eq_true_eq]
      rfl
    refine ⟨fun k => ?_, fun k => ?_⟩
    · rw [liveAt, hlive, counter_takeSlot, h.counted]
      simp only [hadmitted, true_and, eq_comm]
    · rw [liveAt, hlive]
      split_ifs with heq
      · rw [← heq, ← h.counted]
        exact counter_lt_of_takeSlot hcap hadmitted
      · exact h.capped k
  · cases hstep
    refine ⟨fun k => ?_, h.capped⟩
    rw [counter_takeSlot, if_neg fun hboth => hadmitted hboth.1]
    exact h.counted k

theorem Sound.release (h : s.Sound key cap) {conn : C}
    (hstep : s.step key cap (.release thread conn) = some s') : s'.Sound key cap := by
  simp only [step] at hstep
  split_ifs at hstep
  obtain ⟨addr, haddr, rfl⟩ := Option.map_eq_some_iff.mp hstep
  have hlive : ∀ k, Map.count (fun a => decide (key a = k)) (s.live.erase conn) +
      (if key addr = k then 1 else 0) = s.liveAt key k := fun k => by
    have hcount := Map.count_erase_add (p := fun a => decide (key a = k)) haddr
    simp only [decide_eq_true_eq] at hcount
    exact hcount
  refine ⟨fun k => ?_, fun k => ?_⟩
  · have hk := hlive k
    rw [counter_decrement, h.counted]
    simp only [eq_comm (a := k)]
    change _ = Map.count (fun a => decide (key a = k)) (s.live.erase conn)
    omega
  · have hk := hlive k
    have hcap := h.capped k
    change Map.count (fun a => decide (key a = k)) (s.live.erase conn) ≤ cap
    omega

theorem sound_remove_iff (h : s.Sound key cap) (hstep : s.step key cap (.remove thread) = some s') :
    s'.Sound key cap ↔ s.Clean key (.remove thread) := by
  obtain ⟨addr, haddr, rfl⟩ := Option.map_eq_some_iff.mp hstep
  refine ⟨fun hafter addr' haddr' => ?_, fun hclean => ⟨fun k => ?_, h.capped⟩⟩
  · cases haddr.symm.trans haddr'
    have hzero := hafter.counted (key addr)
    rw [counter_erase, if_pos rfl] at hzero
    rw [h.counted]
    exact hzero.symm
  · rw [counter_erase]
    split_ifs with heq
    · rw [← hclean addr haddr, ← heq]
      exact h.counted k
    · exact h.counted k

/-- **A step keeps the counters exactly if it is clean.** -/
theorem sound_step_iff (hcap : 0 < cap) (h : s.Sound key cap) (hstep : s.step key cap act = some s') :
    s'.Sound key cap ↔ s.Clean key act := by
  cases act with
  | tryTrack thread conn addr => exact iff_of_true (h.tryTrack hcap hstep) trivial
  | release thread conn => exact iff_of_true (h.release hstep) trivial
  | remove thread => exact sound_remove_iff h hstep

end Slots

end Coincync.Lib
