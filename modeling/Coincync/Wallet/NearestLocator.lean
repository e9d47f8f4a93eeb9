/-
# The decoy nearest to a height

`pick_nearest_locator` and `pick_ordinal` of `src/wallet/decoy_selection/sampling.rs`.  Two pointers
move outward from the target height; the nearer one is tried, and a coin decides ties.  A height is
left only when it has nothing free, so what is found is nearest.
-/
import Coincync.Lib.Runs
import Coincync.Wallet.Balance

namespace Coincync.Decoy

open List

structure HeightOutputCount where
  height : Nat
  count : Nat

/-- The random number generator: `gen_bool` and `gen_range`. -/
structure Rng (ρ : Type) where
  genBool : ρ → Bool × ρ
  genRange : Nat → ρ → Nat × ρ
  genRange_lt : ∀ n r, 0 < n → (genRange n r).1 < n

variable {ρ : Type} (rng : Rng ρ) (free : OutputLocator → Bool)

def decoyGammaMaxResamples : Nat := 128

/-- So many random probes, then the scan. -/
def probe (height : HeightOutputCount) : Nat → ρ → Option OutputLocator × ρ
  | 0, r => (((range height.count).map (⟨height.height, ·⟩)).find? free, r)
  | tries + 1, r =>
    let drawn := rng.genRange height.count r
    if free ⟨height.height, drawn.1⟩ then (some ⟨height.height, drawn.1⟩, drawn.2)
    else probe height tries drawn.2

def pickOrdinal (height : HeightOutputCount) : ρ → Option OutputLocator × ρ :=
  probe rng free height decoyGammaMaxResamples

/-- Try a height, and go on if it has nothing free. -/
def orElse (tried : Option OutputLocator × ρ) (next : ρ → Option OutputLocator) :
    Option OutputLocator :=
  match tried with
  | (some locator, _) => some locator
  | (none, r) => next r

/-- The loop, on the heights below the target, nearest first, and those above it. -/
def pickOutward (target : Nat) (lower upper : List HeightOutputCount) (r : ρ) :
    Option OutputLocator :=
  match lower, upper with
  | [], [] => none
  | low :: lower, [] =>
    orElse (pickOrdinal rng free low r) (pickOutward target lower [])
  | [], high :: upper =>
    orElse (pickOrdinal rng free high r) (pickOutward target [] upper)
  | low :: lower, high :: upper =>
    let lowDistance := target.dist low.height
    let highDistance := high.height.dist target
    let coin := if lowDistance = highDistance then rng.genBool r else (false, r)
    if lowDistance < highDistance ∨ coin.1 = true then
      orElse (pickOrdinal rng free low coin.2) (pickOutward target lower (high :: upper))
    else
      orElse (pickOrdinal rng free high coin.2) (pickOutward target (low :: lower) upper)
termination_by lower.length + upper.length

/-- Neither excluded nor selected. -/
def isFree (excluded selected : Finset OutputLocator) (locator : OutputLocator) : Bool :=
  locator ∉ excluded ∧ locator ∉ selected

def pickNearestLocator (target : Nat) (heights : List HeightOutputCount)
    (excluded selected : Finset OutputLocator) (r : ρ) : Option OutputLocator :=
  -- `partition_point`: the heights are in order
  pickOutward rng (isFree excluded selected) target
    (heights.filter (·.height ≤ target)).reverse (heights.filter (target < ·.height)) r

/-- Some locator of the height is free. -/
def HasFree (c : HeightOutputCount) : Prop :=
  ∃ ordinal < c.count, free ⟨c.height, ordinal⟩ = true

/-- The first is not farther from the target. -/
def Nearer (target : Nat) (a b : HeightOutputCount) : Prop :=
  target.dist a.height ≤ target.dist b.height

/-- **What is found in a list of heights**: a free locator of the nearest height that has one, or
nothing, if none has. -/
def Finds (target : Nat) (heights : List HeightOutputCount) : Option OutputLocator → Prop
  | none => ∀ c ∈ heights, ¬HasFree free c
  | some l => free l = true ∧ (∃ c ∈ heights, c.height = l.height ∧ l.ordinal < c.count) ∧
      ∀ c ∈ heights, HasFree free c → target.dist l.height ≤ target.dist c.height

variable {rng free} {c : HeightOutputCount} {r : ρ} {target : Nat}

theorem Finds.congr {heights heights' : List HeightOutputCount} {found : Option OutputLocator}
    (hmem : ∀ x, x ∈ heights ↔ x ∈ heights') (h : Finds free target heights found) :
    Finds free target heights' found := by
  cases found <;> simpa only [Finds, hmem] using h

theorem probe_spec (hpos : 0 < c.count) {tries : Nat} {r' : ρ} {found : Option OutputLocator}
    (h : probe rng free c tries r = (found, r')) :
    (∃ l, found = some l ∧ free l = true ∧ c.height = l.height ∧ l.ordinal < c.count) ∨
      found = none ∧ ¬HasFree free c := by
  induction tries generalizing r with
  | zero =>
    have hfind := congrArg Prod.fst h
    cases found with
    | none =>
      refine .inr ⟨rfl, fun ⟨ordinal, hlt, hfree⟩ => ?_⟩
      exact find?_eq_none.mp hfind _ (mem_map_of_mem (mem_range.mpr hlt)) hfree
    | some l =>
      obtain ⟨ordinal, hmem, rfl⟩ := mem_map.mp (mem_of_find?_eq_some hfind)
      exact .inl ⟨_, rfl, find?_some hfind, rfl, mem_range.mp hmem⟩
  | succ tries ih =>
    simp only [probe] at h
    split_ifs at h with hfree
    · cases h
      exact .inl ⟨_, rfl, hfree, rfl, rng.genRange_lt _ _ hpos⟩
    · exact ih h

/-- **One turn**: a height that is not farther than the rest is tried. -/
theorem finds_orElse {heights rest : List HeightOutputCount} {next : ρ → Option OutputLocator}
    (hmem : ∀ x, x ∈ heights ↔ x = c ∨ x ∈ rest) (hpos : 0 < c.count)
    (hnear : ∀ x ∈ rest, Nearer target c x)
    (hnext : ∀ r, Finds free target rest (next r)) :
    Finds free target heights (orElse (pickOrdinal rng free c r) next) := by
  rcases hpick : pickOrdinal rng free c r with ⟨found, r'⟩
  rcases probe_spec hpos hpick with ⟨l, rfl, hfree, hheight, hlt⟩ | ⟨rfl, hnone⟩
  · refine ⟨hfree, ⟨c, (hmem c).mpr (.inl rfl), hheight, hlt⟩, fun x hx _ => ?_⟩
    grind [Nearer]
  · have hrest := hnext r'
    change Finds free target heights (next r')
    -- the height that was tried has nothing free, so nothing is missed
    cases h : next r' <;> rw [h] at hrest <;> grind [Finds]

/-- **The loop finds the nearest**: on both sides the heights are sorted by distance. -/
theorem finds_pickOutward {lower upper : List HeightOutputCount}
    (hlower : lower.Pairwise (Nearer target)) (hupper : upper.Pairwise (Nearer target))
    (hlow : ∀ x ∈ lower, 0 < x.count) (hhigh : ∀ x ∈ upper, 0 < x.count) (r : ρ) :
    Finds free target (lower ++ upper) (pickOutward rng free target lower upper r) := by
  fun_induction pickOutward rng free target lower upper r with
  | case1 => simp [Finds]
  | case2 r low lower ih =>
    obtain ⟨hfirst, hlower⟩ := pairwise_cons.mp hlower
    obtain ⟨hpos, hlow⟩ := forall_mem_cons.mp hlow
    exact finds_orElse (by simp) hpos (by simpa using hfirst) fun r => ih r hlower hupper hlow hhigh
  | case3 r high upper ih =>
    obtain ⟨hfirst, hupper⟩ := pairwise_cons.mp hupper
    obtain ⟨hpos, hhigh⟩ := forall_mem_cons.mp hhigh
    exact finds_orElse (by simp) hpos hfirst fun r => ih r hlower hupper hlow hhigh
  | case4 r low lower high upper lowDistance highDistance coin htake ih =>
    obtain ⟨hfirst, hlower⟩ := pairwise_cons.mp hlower
    obtain ⟨hpos, hlow⟩ := forall_mem_cons.mp hlow
    have hle : Nearer target low high := by grind [Nearer, Nat.dist_comm]
    refine finds_orElse (by simp) hpos (forall_mem_append.mpr ⟨hfirst, ?_⟩) fun r =>
      ih r hlower hupper hlow hhigh
    exact forall_mem_cons.mpr ⟨hle, fun x hx => hle.trans (rel_of_pairwise_cons hupper hx)⟩
  | case5 r low lower high upper lowDistance highDistance coin htake ih =>
    obtain ⟨hfirst, hupper⟩ := pairwise_cons.mp hupper
    obtain ⟨hpos, hhigh⟩ := forall_mem_cons.mp hhigh
    have hle : Nearer target high low := by grind [Nearer, Nat.dist_comm]
    refine finds_orElse (by grind) hpos (forall_mem_append.mpr ⟨?_, hfirst⟩) fun r =>
      ih r hlower hupper hlow hhigh
    exact forall_mem_cons.mpr ⟨hle, fun x hx => hle.trans (rel_of_pairwise_cons hlower hx)⟩

/-- **The nearest free locator is picked**, or none if none is free. -/
theorem finds_pickNearestLocator {heights : List HeightOutputCount}
    (hsorted : heights.Pairwise fun a b => a.height < b.height) (hpos : ∀ c ∈ heights, 0 < c.count)
    (target : Nat) (excluded selected : Finset OutputLocator) (r : ρ) :
    Finds (isFree excluded selected) target heights
      (pickNearestLocator rng target heights excluded selected r) := by
  refine Finds.congr (fun x => ?_) (finds_pickOutward ?_ ?_ ?_ ?_ r)
  · grind
  · refine pairwise_reverse.mpr ((hsorted.filter _).imp_of_mem fun _ _ _ => ?_)
    grind [Nearer, Nat.dist]
  · refine (hsorted.filter _).imp_of_mem fun _ _ _ => ?_
    grind [Nearer, Nat.dist]
  · grind
  · grind

/-- Two heights tie, and the higher one is taken already. -/
theorem tie_finds_lower : Finds (isFree ∅ {⟨9, 0⟩}) 7 [⟨5, 1⟩, ⟨9, 1⟩] (pickNearestLocator
    ⟨fun r => (false, r), fun _ r => (0, r), fun _ _ h => h⟩ 7 [⟨5, 1⟩, ⟨9, 1⟩] ∅ {⟨9, 0⟩} ()) :=
  finds_pickNearestLocator (by decide) (by decide) 7 ∅ {⟨9, 0⟩} ()

end Coincync.Decoy
