/-
# Prefix scans

`Iter::prefix` and `upper_bound` of `src/db/shim.rs`.  A scan starts at the prefix and stops before a
bound: the prefix with its last byte below 0xFF raised, and the rest cut off.  The bound is exact.
A prefix that has no such byte is its own bound, and nothing lies between a key and itself: the scan
of the empty prefix, or of one made of 0xFF alone, finds nothing.
-/
import Coincync.Lib.Bytes

namespace Coincync

open Lib List

def upperBound (p : Bytes) : Bytes :=
  match p.reverse.dropWhile (· = 255) with
  | [] => p
  | b :: rest => rest.reverse ++ [b + 1]

/-- An iterator of RocksDB over a tree, from a start up to a bound. -/
abbrev DbIterator := List (Bytes × Bytes) → Bytes → Bytes → List (Bytes × Bytes)

/-- The entries from the start up to the bound, in order. -/
def rangeOf : DbIterator := fun tree start bound =>
  tree.filter fun e => decide (start ≤ e.1 ∧ e.1 < bound)

def scanPrefix (iterate : DbIterator) (tree : List (Bytes × Bytes)) (p : Bytes) :
    List (Bytes × Bytes) :=
  (iterate tree p (upperBound p)).takeWhile fun e => p.isPrefixOf e.1

theorem replicate_le_iff (n : Nat) (k : Bytes) :
    List.replicate n 255 ≤ k ↔ List.replicate n 255 <+: k := by
  induction n generalizing k with
  | zero => exact iff_of_true (nil_le k) nil_prefix
  | succ n ih =>
    cases k with
    | nil => simp [replicate_succ]
    | cons c k =>
      have hc : ¬ 255 < c := by
        rw [UInt8.not_lt]
        exact UInt8.le_iff_toNat_le.mpr (Nat.le_of_lt_succ c.toNat_lt)
      rw [replicate_succ, cons_le_cons_iff, cons_prefix_cons, ih]
      simp only [hc, false_or]

/-- **The bound is exact.** -/
theorem between_iff {b : UInt8} (hb : b ≠ 255) (n : Nat) (q k : Bytes) :
    (q ++ b :: List.replicate n 255 ≤ k ∧ k < q ++ [b + 1]) ↔
      q ++ b :: List.replicate n 255 <+: k := by
  induction q generalizing k with
  | nil =>
    cases k with
    | nil => simp
    | cons c k =>
      have hc : c < b + 1 ↔ ¬ b < c := by
        have hlt : b.toNat ≠ 255 := fun h => hb (UInt8.toNat_inj.mp h)
        have hbound := b.toNat_lt
        simp only [UInt8.lt_iff_toNat_lt, UInt8.toNat_add, UInt8.toNat_one]
        omega
      simp only [nil_append, cons_le_cons_iff, cons_lt_cons_iff,
        cons_prefix_cons, not_lt_nil, and_false, or_false, hc, replicate_le_iff]
      grind
  | cons a q ih =>
    cases k with
    | nil => simp
    | cons c k =>
      simp only [cons_append, cons_le_cons_iff, cons_lt_cons_iff, cons_prefix_cons, ← ih]
      grind

/-- **What a scan finds** with an iterator that gives every range in order: nothing, if no byte of the
prefix is below 0xFF, and the entries with the prefix otherwise. -/
theorem scanPrefix_eq {iterate : DbIterator} {tree : List (Bytes × Bytes)}
    (hrange : ∀ start bound, iterate tree start bound = rangeOf tree start bound)
    (hsorted : tree.Pairwise fun a b => a.1 < b.1) (p : Bytes) :
    (scanPrefix iterate tree p =
      if ∀ b ∈ p, b = 255 then [] else tree.filter fun e => p.isPrefixOf e.1) ∧
      (scanPrefix iterate tree p).Pairwise fun a b => a.1 < b.1 := by
  rw [scanPrefix, hrange]
  refine ⟨?_, (hsorted.filter _).sublist (takeWhile_sublist _)⟩
  unfold rangeOf upperBound
  cases hlast : p.reverse.dropWhile (· = 255) with
  | nil =>
    rw [if_pos (by simpa using hlast), filter_eq_nil_iff.mpr fun e _ => ?_]
    · rfl
    · exact fun h => (of_decide_eq_true h).1 (of_decide_eq_true h).2
  | cons b rest =>
    have hb : b ≠ 255 := by
      have hhead := head?_dropWhile_not (fun b : UInt8 => b = 255) p.reverse
      simpa [hlast] using hhead
    obtain ⟨n, rfl⟩ : ∃ n, p = rest.reverse ++ b :: List.replicate n 255 := by
      have hsplit := takeWhile_append_dropWhile (p := (· = 255)) (l := p.reverse)
      rw [hlast, eq_replicate_of_mem (l := p.reverse.takeWhile (· = 255)) fun a ha =>
        by simpa using mem_takeWhile_imp ha] at hsplit
      exact ⟨_, by simpa using (congrArg List.reverse hsplit).symm⟩
    rw [if_neg (fun h => hb (h b (by simp)))]
    simp only [between_iff hb, ← isPrefixOf_iff_prefix, Bool.decide_eq_true]
    exact takeWhile_eq_self_iff.mpr fun e he => (mem_filter.mp he).2

/-- The tree of the runs: two keys, with values. -/
def smallTree : List (Bytes × Bytes) := [([1, 5], [7]), ([255, 1], [8])]

/-- One entry has the prefix 1. -/
theorem scan_finds_entry : scanPrefix rangeOf smallTree [1] = [([1, 5], [7])] :=
  ((scanPrefix_eq (fun _ _ => rfl) (by decide) [1]).1).trans (by decide)

/-- **The scans of 0xFF and of the empty prefix find nothing.** -/
theorem scan_misses_entries :
    scanPrefix rangeOf smallTree [255] = [] ∧ scanPrefix rangeOf smallTree [] = [] := by
  decide

end Coincync
