/-
# The memory budget

`allocate`, `deallocate` and `MemoryReservation` of `src/network/connection_tracker.rs`.  A
reservation grows in a loop that loads `memory_used`, checks the budget and tries a compare-exchange,
and is given back when it is dropped.  Others may step in between at any point; but what a successful
compare-exchange adds was checked against the value it replaces.
-/
import Coincync.Lib.Runs

namespace Coincync

open Lib List

/-- A `MemoryReservation`: at rest with its bytes, in the loop of `allocate` before and after the
load, past the compare-exchange, dropped. -/
inductive MemoryReservation
  | rest (bytes : Nat)
  | growing (bytes more : Nat)
  | loaded (bytes more current : Nat)
  | granted (bytes more : Nat)
  | dropped
  deriving DecidableEq

/-- One atomic step of a reservation; a compare-exchange may fail without a reason. -/
inductive ReservationStep
  | tryGrow (more : Nat)
  | load
  | compareExchange (spurious : Bool)
  | credit
  | drop

namespace MemoryReservation

/-- What a step makes of `memory_used` and the reservation. -/
def advance (budget : UInt64) (used : Nat) :
    MemoryReservation → ReservationStep → Option (Nat × MemoryReservation)
  | .rest bytes, .tryGrow more =>
    some (used, if more = 0 then .rest bytes else .growing bytes more)
  | .growing bytes more, .load =>
    some (used, if used + more < 2 ^ 64 ∧ used + more ≤ budget.toNat
      then .loaded bytes more used else .rest bytes)
  | .loaded bytes more current, .compareExchange spurious =>
    some (if spurious = false ∧ used = current then (current + more, .granted bytes more)
      else (used, .growing bytes more))
  | .granted bytes more, .credit => some (used, .rest (bytes + more))
  | .rest bytes, .drop => some ((used + 2 ^ 64 - bytes) % 2 ^ 64, .dropped)
  | _, _ => none

/-- What it holds, or was granted. -/
def held : MemoryReservation → Nat
  | .rest bytes | .growing bytes _ | .loaded bytes _ _ => bytes
  | .granted bytes more => bytes + more
  | .dropped => 0

/-- What was loaded was checked. -/
def Checked (budget : UInt64) : MemoryReservation → Prop
  | .loaded _ more current => current + more ≤ budget.toNat
  | _ => True

/-- **A step moves the counter by what it moves the holding.** -/
theorem advance_spec {budget : UInt64} {used used' : Nat} {r r' : MemoryReservation}
    {a : ReservationStep} (hused : used ≤ budget.toNat) (hheld : r.held ≤ used)
    (hr : r.Checked budget) (h : r.advance budget used a = some (used', r')) :
    used' + r.held = used + r'.held ∧ used' ≤ budget.toNat ∧ r'.Checked budget := by
  have hword := budget.toNat_lt
  unfold advance at h
  split at h
  · cases h
    split_ifs <;> exact ⟨rfl, hused, trivial⟩
  · cases h
    split_ifs with hfits
    · exact ⟨rfl, hused, hfits.2⟩
    · exact ⟨rfl, hused, trivial⟩
  · rename_i bytes more current spurious
    split_ifs at h with hsame
    · cases h
      refine ⟨?_, hr, trivial⟩
      simp only [held, hsame.2]
      omega
    · cases h
      exact ⟨rfl, hused, trivial⟩
  · cases h
    exact ⟨rfl, hused, trivial⟩
  · rename_i bytes
    cases h
    have hback : (used + 2 ^ 64 - bytes) % 2 ^ 64 = used - bytes := by
      have hle : bytes ≤ used := hheld
      omega
    simp only [held, hback] at hheld ⊢
    exact ⟨by omega, by omega, trivial⟩
  · cases h

end MemoryReservation

/-- `memory_used` and the reservations, in the order of their creation. -/
structure MemoryState where
  memoryUsed : Nat
  reservations : List MemoryReservation
  deriving DecidableEq

namespace MemoryState

/-- A new reservation (`none`), or a step of one. -/
def step (budget : UInt64) (m : MemoryState) :
    Option (Nat × ReservationStep) → Option MemoryState
  | none => some { m with reservations := m.reservations ++ [.rest 0] }
  | some (id, a) =>
    (m.reservations[id]?.bind (·.advance budget m.memoryUsed a)).map fun r =>
      ⟨r.1, m.reservations.set id r.2⟩

/-- **The invariant**: the counter is what the reservations hold or were granted. -/
structure Exact (budget : UInt64) (m : MemoryState) : Prop where
  used : m.memoryUsed = (m.reservations.map MemoryReservation.held).sum
  within : m.memoryUsed ≤ budget.toNat
  checked : ∀ r ∈ m.reservations, r.Checked budget

variable {budget : UInt64} {m m' : MemoryState}

theorem Exact.held_le (h : m.Exact budget) {r : MemoryReservation}
    (hr : r ∈ m.reservations) : r.held ≤ m.memoryUsed := by
  rw [h.used]
  exact le_sum_of_mem (mem_map_of_mem hr)

theorem Exact.step (h : m.Exact budget) {a : Option (Nat × ReservationStep)}
    (hstep : m.step budget a = some m') : m'.Exact budget := by
  cases a with
  | none =>
    cases hstep
    refine ⟨by simpa [MemoryReservation.held] using h.used, h.within, ?_⟩
    exact forall_mem_append.mpr ⟨h.checked, by simp [MemoryReservation.Checked]⟩
  | some a =>
    obtain ⟨⟨used', r'⟩, hadvance, rfl⟩ := Option.map_eq_some_iff.mp hstep
    obtain ⟨r, hr, hadvance⟩ := Option.bind_eq_some_iff.mp hadvance
    have hmem := mem_of_getElem? hr
    obtain ⟨hmoves, hwithin, hchecked⟩ :=
      MemoryReservation.advance_spec h.within (h.held_le hmem) (h.checked r hmem) hadvance
    obtain ⟨hid, rfl⟩ := List.getElem?_eq_some_iff.mp hr
    obtain ⟨l, l', hl, -, hset⟩ := @exists_of_set _ a.1 r' _ hid
    refine ⟨?_, hwithin, fun r hr => ?_⟩
    · have hused := h.used
      rw [hl] at hused
      simp only [hset, map_append, map_cons, sum_append, sum_cons] at hused ⊢
      omega
    · rcases mem_or_eq_of_mem_set hr with hr | rfl
      · exact h.checked r hr
      · exact hchecked

/-- **The counter is exact in every interleaving**: it is what the reservations hold or were granted,
it is within the budget, and what a drop subtracts is not more than it. -/
theorem memoryUsed_exact (hrun : Reaches (step budget) (fun _ _ => True) ⟨0, []⟩ m) :
    m.memoryUsed = (m.reservations.map MemoryReservation.held).sum ∧
      m.memoryUsed ≤ budget.toNat ∧ ∀ r ∈ m.reservations, r.held ≤ m.memoryUsed := by
  have h : m.Exact budget := hrun.invariant ⟨rfl, zero_le, by simp⟩
    fun _ _ _ h _ hstep => h.step hstep
  exact ⟨h.used, h.within, fun r hr => h.held_le hr⟩

/-- Two reservations race for ten bytes: the second fails its compare-exchange, then the budget. -/
theorem race_stays_exact : ∃ m : MemoryState,
    Reaches (step 10) (fun _ _ => True) ⟨0, []⟩ m ∧ m = ⟨6, [.granted 0 6, .rest 0]⟩ ∧
      m.memoryUsed = (m.reservations.map MemoryReservation.held).sum := by
  have hrun : Lib.run (step 10) (fun _ _ => true) ⟨0, []⟩
      [none, none, some (0, .tryGrow 6), some (1, .tryGrow 6), some (0, .load), some (1, .load),
        some (0, .compareExchange false), some (1, .compareExchange false), some (1, .load)] =
      some ⟨6, [.granted 0 6, .rest 0]⟩ := by
    decide
  have hreach := Reaches.run (P := fun _ _ => True) (fun _ _ _ => trivial) .start hrun
  exact ⟨_, hreach, rfl, (memoryUsed_exact hreach).1⟩

end MemoryState

end Coincync
