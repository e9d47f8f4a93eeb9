/-
# Selecting the outputs to spend

`src/wallet/send/selection.rs` and `fee.rs`, and what they read of the balance.  A fee depends on the
number of inputs, and the inputs on the sum that is needed, fee included, so the two are computed in
turn until they agree (`selectionLoop`).  A selection covers what it is asked for, so a turn that does
not end the loop asks for more, and what is asked for is a `u64`: the loop ends
(`isSome_selectionLoop`).
-/
import Coincync.Constants
import Coincync.Crypto.Stealth
import Coincync.Lib.Checks
import Coincync.Wallet.Balance

namespace Coincync

open Lib

open scoped List

/-! ## 1. The fee -/

/-- `FeeMultiplier`: hundredths, between 1 and 100 (`from_f64` clamps). -/
structure FeeMultiplier where
  hundredths : Nat
  atLeast : 100 ≤ hundredths
  atMost : hundredths ≤ 10000

/-- `estimate_tx_size`, in machine words. -/
def estimateTxSize (inputCount outputCount ringSize : Nat) : Nat :=
  let inputSize := 32 + 4 + 64 * ringSize + 32 + 32 + 32 + 4 + 32 * ringSize + 32 + 32
  let outputSize := 32 + 32 + 32 + 12 + 1 + 9
  let rangeProof := 672 + 64 * outputCount
  (32 + inputCount * inputSize + outputCount * outputSize + rangeProof) * 2 % 2 ^ 64

def scaledFee (inputCount outputCount ringSize : Nat) (multiplier : FeeMultiplier) : Nat :=
  saturate (saturate (estimateTxSize inputCount outputCount ringSize * minFeePerByte) *
    multiplier.hundredths) / 100

/-! ## 2. What is available -/

/-- An entry of the map of outputs. -/
abbrev Entry := OutputId × UTXO

def Entry.amount (e : Entry) : Nat := e.2.amount.val

namespace Balance

/-- **An order in which the map of outputs is walked.** -/
structure Walk (w : Balance) where
  order : List OutputId
  nodup : order.Nodup
  exhaustive : order.toFinset = w.utxos.keys

variable {w : Balance}

/-- The entries, in that order. -/
def Walk.entries (walk : w.Walk) : List Entry :=
  walk.order.filterMap fun k => (w.utxos.lookup k).map fun u => (k, u)

theorem Walk.mem_entries {walk : w.Walk} {e : Entry} (he : e ∈ walk.entries) :
    w.utxos.lookup e.1 = some e.2 := by
  obtain ⟨k, -, hk⟩ := List.mem_filterMap.mp he
  obtain ⟨u, hu, rfl⟩ := Option.map_eq_some_iff.mp hk
  exact hu

theorem Walk.nodup_entries (walk : w.Walk) : (walk.entries.map Prod.fst).Nodup := by
  have hsub : walk.entries.map Prod.fst <+ walk.order := by
    unfold Walk.entries
    induction walk.order with
    | nil => exact .slnil
    | cons k order ih =>
      cases hk : w.utxos.lookup k with
      | none => simpa [List.filterMap_cons, hk] using ih.cons k
      | some u => simpa [List.filterMap_cons, hk] using ih
  exact hsub.nodup walk.nodup

def isReserved (w : Balance) (k : OutputId) (height : Nat) : Bool :=
  (w.reservations.lookup k).any fun r =>
    decide (height < saturate (r.height + reservationExpiryBlocks))

/-- Unspent, old enough, unlocked and not reserved. -/
structure Available (w : Balance) (height minAge : Nat) (u : UTXO) : Prop where
  unspent : u.spent = false
  mature : saturate (u.height + minAge) ≤ height
  unlocked : ∀ lock ∈ u.lockHeight, lock ≤ height
  unreserved : w.isReserved u.key height = false

/-- The test of `spendable` and `available_utxos`. -/
def isAvailable (w : Balance) (height minAge : Nat) (u : UTXO) : Bool :=
  !u.spent && decide (saturate (u.height + minAge) ≤ height) &&
    u.lockHeight.all (fun lock => decide (lock ≤ height)) && !w.isReserved u.key height

theorem isAvailable_iff {height minAge : Nat} {u : UTXO} :
    w.isAvailable height minAge u = true ↔ w.Available height minAge u := by
  simp only [isAvailable, Bool.and_eq_true, Bool.not_eq_true', decide_eq_true_eq,
    Option.all_eq_true]
  exact ⟨fun ⟨⟨⟨h₁, h₂⟩, h₃⟩, h₄⟩ => ⟨h₁, h₂, h₃, h₄⟩, fun ⟨h₁, h₂, h₃, h₄⟩ => ⟨⟨⟨h₁, h₂⟩, h₃⟩, h₄⟩⟩

def unspentUtxos (walk : w.Walk) : List Entry := walk.entries.filter fun e => !e.2.spent

def availableUtxos (walk : w.Walk) (height minAge : Nat) : List Entry :=
  walk.entries.filter fun e => w.isAvailable height minAge e.2

def total (walk : w.Walk) : Nat := satSum ((unspentUtxos walk).map Entry.amount)

def spendable (walk : w.Walk) (height minAge : Nat) : Nat :=
  satSum ((availableUtxos walk height minAge).map Entry.amount)

def ensureSpendable (walk : w.Walk) (height minAge need : Nat) : Except WalletError Unit :=
  let available := spendable walk height minAge
  if need ≤ available then .ok ()
  else if need ≤ total walk then
    let pending := (unspentUtxos walk).filter fun e => height < saturate (e.2.height + minAge)
    let latest := (pending.map fun e => e.2.height).max?.getD height
    let blocks := saturate (latest + minAge) - height
    .error (.balancePendingMaturity available ((pending.map Entry.amount).sum % 2 ^ 64)
      pending.length need blocks (saturate (blocks * targetBlockTime)))
  else .error (.insufficientBalance available need)

theorem availableUtxos_sublist (walk : w.Walk) (height minAge : Nat) :
    availableUtxos walk height minAge <+ unspentUtxos walk := by
  have hsame : availableUtxos walk height minAge =
      (unspentUtxos walk).filter fun e => w.isAvailable height minAge e.2 := by
    rw [unspentUtxos, List.filter_filter]
    refine List.filter_congr fun e _ => ?_
    cases hspent : e.2.spent with
    | true => simp [isAvailable, hspent]
    | false => simp
  rw [hsame]
  exact List.filter_sublist

end Balance

/-! ## 3. Two ways of selecting -/

inductive CoinSelection
  | oldestFirst
  | newestFirst
  | largestFirst
  | smallestFirst
  | random

/-- What comes first; sorting is stable, so `random` leaves the order as it is. -/
def CoinSelection.before : CoinSelection → Entry → Entry → Bool
  | .oldestFirst, a, b => a.2.height ≤ b.2.height
  | .newestFirst, a, b => b.2.height ≤ a.2.height
  | .largestFirst, a, b => b.amount ≤ a.amount
  | .smallestFirst, a, b => a.amount ≤ b.amount
  | .random, _, _ => true

/-- The loop of `select_utxos`. -/
def gather (target : Nat) : List Entry → Nat → List Entry → Except WalletError (List Entry)
  | [], sum, _ => .error (.insufficientBalance sum target)
  | e :: rest, sum, selected =>
    if target ≤ saturate (sum + e.amount) then .ok (selected ++ [e])
    else gather target rest (saturate (sum + e.amount)) (selected ++ [e])

section

variable {ρ F : Type} (rng : Rng ρ F)

def selectUtxos (utxos : List Entry) (strategy : CoinSelection) (target : Nat) (r : ρ) :
    Except WalletError (List Entry × ρ) :=
  if utxos = [] then .error .noOutputsAvailable
  else
    let shuffled := rng.shuffle utxos r
    (gather target (shuffled.1.insertionSort fun a b => strategy.before a b) 0 []).map
      fun selected => (selected, shuffled.2)

/-- The pairs of a list, the first member before the second. -/
def pairs : List Entry → List (Entry × Entry)
  | [] => []
  | a :: l => l.map (a, ·) ++ pairs l

def noPairCoversError (utxos : List Entry) (target largestPair : Nat) : WalletError :=
  .noUtxoPairCovers target utxos.length ((utxos.map Entry.amount).sum % 2 ^ 64) largestPair
    (largestPair - 50000000)

/-- The pairs that cover the target, each with its excess. -/
def candidates (sorted : List Entry) (target : Nat) : List ((Entry × Entry) × Nat) :=
  ((pairs sorted).map fun p => (p, saturate (p.1.amount + p.2.amount))).filterMap fun c =>
    if target ≤ c.2 then some (c.1, c.2 - target) else none

/-- One of the candidates with little excess. -/
def chooseCandidate (first : (Entry × Entry) × Nat) (rest : List ((Entry × Entry) × Nat)) (r : ρ) :
    ((Entry × Entry) × Nat) × ρ :=
  let best := (first :: rest).foldl (fun m c => min m c.2) (2 ^ 64 - 1)
  let threshold := max (saturate (best + best / 5)) (saturate (best + 1))
  let good := (first :: rest).filter fun c => c.2 ≤ threshold
  let drawn := if good = [] then (0, r) else rng.below good.length r
  (good.getD drawn.1 first, drawn.2)

def selectUtxosUniform (utxos : List Entry) (target : Nat) (r : ρ) :
    Except WalletError (List Entry × ρ) :=
  if utxos.length < standardInputCount then
    .error (.insufficientInputs utxos.length standardInputCount)
  else
    let sorted := utxos.insertionSort fun a b => CoinSelection.largestFirst.before a b
    let largestPair := satSum ((sorted.take 2).map Entry.amount)
    if largestPair < target then .error (noPairCoversError utxos target largestPair)
    else
      match candidates sorted target with
      | [] => .error (noPairCoversError utxos target largestPair)
      | first :: rest =>
        let chosen := chooseCandidate rng first rest r
        .ok ([chosen.1.1.1, chosen.1.1.2], chosen.2)

end

/-- **A selection**: entries of the list, each taken once, that cover the target. -/
def Selects (utxos : List Entry) (target : Nat) (selected : List Entry) : Prop :=
  selected <+~ utxos ∧ target ≤ satSum (selected.map Entry.amount)

theorem gather_eq_ok {target sum : Nat} {l acc selected : List Entry}
    (hsum : satSum (acc.map Entry.amount) = sum) (h : gather target l sum acc = .ok selected) :
    Selects (acc ++ l) target selected := by
  induction l generalizing sum acc with
  | nil => cases h
  | cons e rest ih =>
    have hnext : satSum ((acc ++ [e]).map Entry.amount) = saturate (sum + e.amount) := by
      rw [← hsum, satSum_eq, satSum_eq, saturate_saturate_add, List.map_append, List.sum_append]
      rfl
    have hsplit : acc ++ e :: rest = acc ++ [e] ++ rest := List.append_cons acc e rest
    unfold gather at h
    split_ifs at h with hcovers
    · cases h
      rw [hsplit, Selects, hnext]
      exact ⟨(List.sublist_append_left (acc ++ [e]) rest).subperm, hcovers⟩
    · rw [hsplit]
      exact ih hnext h

theorem mem_pairs {l : List Entry} {p : Entry × Entry} (h : p ∈ pairs l) : [p.1, p.2] <+ l := by
  induction l with
  | nil => cases h
  | cons a l ih =>
    rcases List.mem_append.mp h with h | h
    · obtain ⟨b, hb, rfl⟩ := List.mem_map.mp h
      exact (List.singleton_sublist.mpr hb).cons_cons a
    · exact (ih h).cons a

section

variable {ρ F : Type} {rng : Rng ρ F} {utxos selected : List Entry} {target : Nat} {r r' : ρ}

theorem selectUtxos_eq_ok {strategy : CoinSelection}
    (h : selectUtxos rng utxos strategy target r = .ok (selected, r')) :
    Selects utxos target selected := by
  unfold selectUtxos at h
  split_ifs at h
  obtain ⟨l, hl, heq⟩ := Except.map_eq_ok_iff.mp h
  cases heq
  have hnil : satSum (([] : List Entry).map Entry.amount) = 0 := rfl
  obtain ⟨hsub, hcovers⟩ := gather_eq_ok hnil hl
  have hperm := (List.perm_insertionSort (fun a b => strategy.before a b = true)
    (rng.shuffle utxos r).1).trans (rng.shuffle_perm utxos r)
  exact ⟨hsub.trans hperm.subperm, hcovers⟩

theorem chooseCandidate_mem (rng : Rng ρ F) (first : (Entry × Entry) × Nat)
    (rest : List ((Entry × Entry) × Nat)) (r : ρ) :
    (chooseCandidate rng first rest r).1 ∈ first :: rest := by
  simp only [chooseCandidate, List.getD_eq_getElem?_getD]
  generalize hgood : List.filter _ (first :: rest) = good
  cases hi : good[(if good = [] then (0, r) else rng.below good.length r).1]? with
  | none => exact .head _
  | some c =>
    have hc : c ∈ List.filter _ (first :: rest) := hgood ▸ List.mem_of_getElem? hi
    exact List.mem_of_mem_filter hc

/-- **Uniform selections are pairs.** -/
theorem selectUtxosUniform_eq_ok (h : selectUtxosUniform rng utxos target r = .ok (selected, r')) :
    Selects utxos target selected ∧ selected.length = 2 := by
  unfold selectUtxosUniform at h
  split_ifs at h
  simp only at h
  split_ifs at h
  split at h
  · cases h
  · rename_i first rest hcandidates
    cases h
    have hmem := chooseCandidate_mem rng first rest r
    generalize chooseCandidate rng first rest r = chosen at hmem
    rw [← hcandidates] at hmem
    obtain ⟨c, hc, hkept⟩ := List.mem_filterMap.mp hmem
    obtain ⟨p, hp, rfl⟩ := List.mem_map.mp hc
    split_ifs at hkept with hcovers
    rw [← Option.some.inj hkept]
    refine ⟨⟨(mem_pairs hp).subperm.trans (List.perm_insertionSort _ utxos).subperm, ?_⟩, rfl⟩
    rw [satSum_eq]
    simpa using hcovers

end

/-! ## 4. Selection and fee in turn -/

/-- What the loop ends with. -/
structure Selection where
  selected : List Entry
  estimatedFee : Nat
  totalNeeded : Nat
  inputSum : Nat

/-- **The loop of `prepare_privacy_transaction` and `prepare_vesting`**, for the number of turns it
may take at most. -/
def selectionLoop {ρ : Type} (ensure : Nat → Except WalletError Unit)
    (select : Nat → ρ → Except WalletError (List Entry × ρ)) (fee : Nat → Nat) (totalSend : Nat) :
    Nat → Nat → ρ → Option (Except WalletError (Selection × ρ))
  | 0, _, _ => none
  | fuel + 1, required, r =>
    match ensure required with
    | .error e => some (.error e)
    | .ok () =>
      match select required r with
      | .error e => some (.error e)
      | .ok (selected, r) =>
        let estimatedFee := fee selected.length
        let totalNeeded := saturate (totalSend + estimatedFee)
        let inputSum := satSum (selected.map Entry.amount)
        if totalNeeded ≤ inputSum then
          some (.ok (⟨selected, estimatedFee, totalNeeded, inputSum⟩, r))
        else selectionLoop ensure select fee totalSend fuel totalNeeded r

section

variable {ρ : Type} {ensure : Nat → Except WalletError Unit}
  {select : Nat → ρ → Except WalletError (List Entry × ρ)} {fee : Nat → Nat} {totalSend : Nat}
  {utxos : List Entry}
  (hselect : ∀ target r selected r', select target r = .ok (selected, r') →
    Selects utxos target selected)

include hselect

variable {fuel required : Nat}

/-- **The loop ends**: a turn that does not end it raises what is required, which is a `u64`. -/
theorem isSome_selectionLoop {r : ρ} (hrequired : required < 2 ^ 64)
    (hfuel : 2 ^ 64 ≤ fuel + required) :
    (selectionLoop ensure select fee totalSend fuel required r).isSome = true := by
  induction fuel generalizing required r with
  | zero => omega
  | succ fuel ih =>
    unfold selectionLoop
    cases ensure required with
    | error e => rfl
    | ok u =>
      cases hs : select required r with
      | error e => rfl
      | ok made =>
        obtain ⟨selected, r₁⟩ := made
        simp only
        split_ifs with hdone
        · rfl
        · have hcovers := (hselect _ _ _ _ hs).2
          have hsmall : saturate (totalSend + fee selected.length) < 2 ^ 64 := by
            unfold saturate
            omega
          exact ih hsmall (by omega)

/-- **What the loop ends with**: the fee is that of the inputs, and the inputs cover it. -/
theorem selectionLoop_eq_ok {r r' : ρ} {s : Selection}
    (h : selectionLoop ensure select fee totalSend fuel required r = some (.ok (s, r'))) :
    (∃ target r₀ r₁, select target r₀ = .ok (s.selected, r₁)) ∧ s.selected <+~ utxos ∧
      s.estimatedFee = fee s.selected.length ∧
      s.totalNeeded = saturate (totalSend + s.estimatedFee) ∧
      s.inputSum = saturate (s.selected.map Entry.amount).sum ∧ s.totalNeeded ≤ s.inputSum := by
  induction fuel generalizing required r with
  | zero => cases h
  | succ fuel ih =>
    unfold selectionLoop at h
    cases he : ensure required with
    | error e =>
      rw [he] at h
      cases Option.some.inj h
    | ok u =>
      cases hs : select required r with
      | error e =>
        rw [he, hs] at h
        cases Option.some.inj h
      | ok made =>
        obtain ⟨selected, r₁⟩ := made
        rw [he, hs] at h
        simp only at h
        split_ifs at h with hdone
        · obtain ⟨rfl, -⟩ := Prod.mk.inj (Except.ok.inj (Option.some.inj h))
          exact ⟨⟨_, _, _, hs⟩, (hselect _ _ _ _ hs).1, rfl, rfl, satSum_eq _, hdone⟩
        · exact ih h

end

/-- **Nothing is lost where nothing saturates**: below the largest `u64` the inputs are the payments,
the fee and the change. -/
theorem Selection.conserves {s : Selection} {payments : List Nat}
    (hneeded : s.totalNeeded = saturate (satSum payments + s.estimatedFee))
    (hsum : s.inputSum = saturate (s.selected.map Entry.amount).sum)
    (hcovers : s.totalNeeded ≤ s.inputSum)
    (hsmall : (s.selected.map Entry.amount).sum < 2 ^ 64 - 1) :
    (s.selected.map Entry.amount).sum =
      payments.sum + s.estimatedFee + (s.inputSum - s.totalNeeded) := by
  rw [satSum_eq] at hneeded
  unfold saturate at *
  omega

end Coincync
