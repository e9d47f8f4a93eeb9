/-
# A later tip

The next target must not fall because the tip came later: whoever waits longer for a block faces a
lower difficulty, not a higher one.  Every step of `calculate_difficulty` is monotone in the
timestamp of the tip but one.  `checked_shl` refuses shifts of 128 and more and nothing else, so the
shift by the whole half-lives drops the bits above 128, and what is left can be anything.  A later
tip means no smaller target where the shift drops nothing, or where the earlier time is a half-life
early and the next target the smallest the clamp allows; for targets that are powers of two the time
until which it drops nothing is exact (`target_mono_of_fits`).
-/
import Coincync.Consensus.Asert

namespace Coincync

open List

variable {T : Nat}

/-! ## 1. Fractions of a half-life -/

theorem mul_div_radix_le {t x : Nat} (h : x < radix) : t * x / radix ≤ t :=
  Nat.div_le_of_le_mul (by rw [mul_comm radix]; exact Nat.mul_le_mul_left _ h.le)

theorem horner_mono {s t x y : Nat} (hst : s ≤ t) (hxy : x ≤ y) : s * x / radix ≤ t * y / radix :=
  Nat.div_le_div_right (Nat.mul_le_mul hst hxy)

theorem pow2Frac_mono {x y : Nat} (h : x ≤ y) : pow2Frac x ≤ pow2Frac y :=
  Nat.add_le_add_left (horner_mono (Nat.add_le_add_left (horner_mono (Nat.add_le_add_left
    (horner_mono (Nat.add_le_add_left (horner_mono le_rfl h) _) h) _) h) _) h) _

theorem pow2Frac_lt {x : Nat} (h : x < radix) : pow2Frac x < 2 * radix := by
  have h₁ : 630 * x / radix ≤ 630 := mul_div_radix_le h
  have h₂ := mul_div_radix_le (t := 3638 + 630 * x / radix) h
  have h₃ := mul_div_radix_le (t := 15743 + (3638 + 630 * x / radix) * x / radix) h
  have h₄ := mul_div_radix_le
    (t := 45426 + (15743 + (3638 + 630 * x / radix) * x / radix) * x / radix) h
  change radix + _ < 2 * radix
  simp only [radix] at h₁ h₂ h₃ h₄ ⊢
  omega

/-- The correction of `safe_mul_shift`. -/
def correction (T extra : Nat) : Nat :=
  if T ≤ u128Max / extra then T * extra / radix else (T / radix * extra) % 2 ^ 128

variable (hpos : 0 < T) (hT : T ≤ u128Max)

include hT in
theorem correction_of_not {extra : Nat} (hextra : extra < radix)
    (h : ¬ T ≤ u128Max / extra) : correction T extra = T / radix * extra := by
  have hq : T / radix < 2 ^ 112 := by
    simp only [radix, u128Max] at hT ⊢
    omega
  have hlt : T / radix * extra < 2 ^ 112 * 2 ^ 16 := Nat.mul_lt_mul'' hq hextra
  rw [correction, if_neg h, Nat.mod_eq_of_lt (show _ < 2 ^ 128 by omega)]

include hT in
theorem correction_mono {x y : Nat} (hx : 0 < x) (hxy : x ≤ y) (hy : y < radix) :
    correction T x ≤ correction T y := by
  by_cases hfitx : T ≤ u128Max / x
  · by_cases hfity : T ≤ u128Max / y
    · rw [correction, correction, if_pos hfitx, if_pos hfity]
      exact horner_mono le_rfl hxy
    · have hlt : x + 1 ≤ y := by
        refine Nat.lt_of_le_of_ne hxy ?_
        rintro rfl
        exact hfity hfitx
      rw [correction_of_not hT hy hfity, correction, if_pos hfitx]
      have hbig : 2 ^ 112 ≤ T := by
        have hdiv : u128Max / radix ≤ u128Max / y := Nat.div_le_div_left hy.le (by omega)
        simp only [radix, u128Max] at hdiv hfity
        omega
      have hsplit : T * x / radix ≤ T / radix * x + x := by
        refine Nat.div_le_of_le_mul ?_
        calc T * x ≤ (radix * (T / radix) + radix) * x :=
              Nat.mul_le_mul_right _ (by simp only [radix]; omega)
          _ = radix * (T / radix * x + x) := by ring
      have hq : x ≤ T / radix := by
        simp only [radix] at hy ⊢
        omega
      calc T * x / radix ≤ T / radix * x + x := hsplit
        _ ≤ T / radix * (x + 1) := by rw [Nat.mul_succ]; omega
        _ ≤ T / radix * y := Nat.mul_le_mul_left _ hlt
  · have hfity : ¬ T ≤ u128Max / y := fun h => hfitx (h.trans (Nat.div_le_div_left hxy hx))
    rw [correction_of_not hT (hxy.trans_lt hy) hfitx, correction_of_not hT hy hfity]
    exact Nat.mul_le_mul_left _ hxy

include hpos hT in
theorem correction_lt {x : Nat} (hx : x < radix) : correction T x < T := by
  have hlt : T * x < T * radix := Nat.mul_lt_mul_of_pos_left hx hpos
  by_cases hfit : T ≤ u128Max / x
  · rw [correction, if_pos hfit]
    exact Nat.div_lt_of_lt_mul (by rwa [mul_comm radix])
  · rw [correction_of_not hT hx hfit]
    calc T / radix * x ≤ T * x / radix := by
          rw [Nat.le_div_iff_mul_le (by decide), Nat.mul_right_comm]
          exact Nat.mul_le_mul_right _ (Nat.div_mul_le_self _ _)
      _ < T := Nat.div_lt_of_lt_mul (by rwa [mul_comm radix])

theorem safeMulShift_eq (T p : Nat) : safeMulShift T p =
    if p - radix = 0 then T else min (T + correction T (p - radix)) u128Max := rfl

include hT in
theorem le_safeMulShift (p : Nat) : T ≤ safeMulShift T p := by
  rw [safeMulShift_eq]
  split_ifs <;> omega

include hpos hT in
theorem safeMulShift_lt {p : Nat} (hp : p < 2 * radix) :
    safeMulShift T p < 2 * T := by
  rw [safeMulShift_eq]
  have := correction_lt (x := p - radix) hpos hT (by omega)
  split_ifs <;> omega

include hT in
theorem safeMulShift_mono {p q : Nat} (hpq : p ≤ q) (hq : q < 2 * radix) :
    safeMulShift T p ≤ safeMulShift T q := by
  by_cases hzero : p - radix = 0
  · rw [safeMulShift_eq T p, if_pos hzero]
    exact le_safeMulShift hT q
  · have hle := correction_mono (x := p - radix) (y := q - radix) hT (by omega) (by omega)
      (by omega)
    rw [safeMulShift_eq, safeMulShift_eq, if_neg hzero, if_neg (by omega)]
    omega

/-! ## 2. Whole half-lives -/

/-- ASERT with all the bits: the exponent is counted from 64 half-lives early. -/
def asertValue (T n : Nat) : Nat :=
  safeMulShift T (pow2Frac (n % radix)) * 2 ^ (n / radix) / 2 ^ 64

include hpos hT in
theorem asertValue_mono {n m : Nat} (h : n ≤ m) :
    asertValue T n ≤ asertValue T m := by
  refine Nat.div_le_div_right ?_
  have hfrac : ∀ k, pow2Frac (k % radix) < 2 * radix := fun k =>
    pow2Frac_lt (Nat.mod_lt _ (by decide))
  rcases (Nat.div_le_div_right (c := radix) h).eq_or_lt with heq | hlt
  · -- in one half-life the fraction decides
    have hmod : n % radix ≤ m % radix := by
      simp only [radix] at heq ⊢
      omega
    rw [heq]
    exact Nat.mul_le_mul_right _ (safeMulShift_mono hT (pow2Frac_mono hmod) (hfrac m))
  · -- and never makes up for a whole one
    calc safeMulShift T (pow2Frac (n % radix)) * 2 ^ (n / radix)
        ≤ 2 * T * 2 ^ (n / radix) := Nat.mul_le_mul_right _ (safeMulShift_lt hpos hT (hfrac n)).le
      _ = T * 2 ^ (n / radix + 1) := by ring
      _ ≤ safeMulShift T (pow2Frac (m % radix)) * 2 ^ (m / radix) :=
        Nat.mul_le_mul (le_safeMulShift hT _) (Nat.pow_le_pow_right (by decide) hlt)

theorem asertValue_of_le {n : Nat} (h : 64 ≤ n / radix) :
    asertValue T n = safeMulShift T (pow2Frac (n % radix)) * 2 ^ (n / radix - 64) := by
  unfold asertValue
  obtain ⟨k, hk⟩ := Nat.exists_eq_add_of_le' h
  rw [hk, Nat.add_sub_cancel, pow_add, ← mul_assoc, Nat.mul_div_cancel _ (by decide)]

theorem asertValue_of_lt {n : Nat} (h : n / radix < 64) :
    asertValue T n = safeMulShift T (pow2Frac (n % radix)) / 2 ^ (64 - n / radix) := by
  unfold asertValue
  have hsplit : 2 ^ 64 = 2 ^ (64 - n / radix) * 2 ^ (n / radix) := by
    rw [← pow_add, Nat.sub_add_cancel h.le]
  rw [hsplit, Nat.mul_div_mul_right _ _ (Nat.two_pow_pos _)]

/-! ## 3. ASERT -/

variable {anchor tip tip' : DifficultyBlock}

/-- How many seconds late the tip is, as seen from the anchor. -/
def lateness (anchor tip : DifficultyBlock) : Int :=
  (tip.timestamp : Int) - anchor.timestamp - (tip.height - anchor.height : Nat) * targetBlockTime

/-- The exponent of ASERT in fixed point. -/
def asertExponent (anchor tip : DifficultyBlock) : Int :=
  (mulI128 (lateness anchor tip) radix).tdiv asertHalflife

/-- The whole half-lives of an exponent, in the range of the shifts. -/
def halfLives (e : Int) : Int := max (-64) (min (decomposeFixedPoint e).1 64)

/-- **The shift drops no bit.** -/
def ShiftFits (T : Nat) (anchor tip : DifficultyBlock) : Prop :=
  safeMulShift T (pow2Frac (decomposeFixedPoint (asertExponent anchor tip)).2) *
    2 ^ (halfLives (asertExponent anchor tip)).toNat < 2 ^ 128

theorem mulI128_mono {a b : Int} (h : a ≤ b) : mulI128 a radix ≤ mulI128 b radix := by
  unfold mulI128
  simp only [radix]
  split_ifs <;> omega

theorem asertExponent_mono (hheight : tip'.height = tip.height)
    (htime : tip.timestamp ≤ tip'.timestamp) :
    asertExponent anchor tip ≤ asertExponent anchor tip' := by
  refine Int.tdiv_le_tdiv (by decide) (mulI128_mono ?_)
  rw [lateness, lateness, hheight]
  omega

theorem le_asertExponent (h : -(64 * asertHalflife : Nat) ≤ lateness anchor tip) :
    -(64 * radix : Nat) ≤ asertExponent anchor tip :=
  le_trans (by decide) (Int.tdiv_le_tdiv (by decide) (mulI128_mono h))

theorem decomposeFixedPoint_snd_lt (e : Int) : (decomposeFixedPoint e).2 < radix := by
  have hradix : radix = 65536 := rfl
  unfold decomposeFixedPoint
  split_ifs
  · exact Nat.mod_lt _ (by decide)
  · dsimp only
    split_ifs
    all_goals simp only [hradix] at *
    all_goals omega

theorem halfLives_le : (halfLives (asertExponent anchor tip)).toNat ≤
    (min (lateness anchor tip / asertHalflife) 64).toNat := by
  have hbound : 0 ≤ lateness anchor tip → 0 ≤ mulI128 (lateness anchor tip) radix ∧
      mulI128 (lateness anchor tip) radix ≤ lateness anchor tip * radix := fun h => by
    unfold mulI128
    simp only [radix]
    split_ifs <;> omega
  unfold halfLives decomposeFixedPoint
  by_cases hlate : 0 ≤ lateness anchor tip
  · obtain ⟨hnonneg, hle⟩ := hbound hlate
    rw [asertExponent, Int.tdiv_eq_ediv_of_nonneg hnonneg,
      if_pos (Int.ediv_nonneg hnonneg (by decide))]
    simp only [asertHalflife, radix] at hle ⊢
    omega
  · have hneg : asertExponent anchor tip ≤ 0 :=
      le_trans (Int.tdiv_le_tdiv (by decide) (mulI128_mono (not_le.mp hlate).le)) (by decide)
    split_ifs
    · simp only [radix]
      omega
    · dsimp only
      generalize (-max (asertExponent anchor tip) (-2 ^ 127 + 1)).toNat / radix = n
      split_ifs
      all_goals omega

theorem decomposeFixedPoint_eq {e : Int} (hlow : -(64 * radix : Nat) ≤ e)
    (hhigh : e < (65 * radix : Nat)) : decomposeFixedPoint e =
      ((((e + (64 * radix : Nat)).toNat / radix : Nat) : Int) - 64,
        (e + (64 * radix : Nat)).toNat % radix) := by
  have hradix : radix = 65536 := rfl
  unfold decomposeFixedPoint
  by_cases hpos : 0 ≤ e
  · rw [if_pos hpos]
    exact Prod.ext (by simp only [hradix] at *; omega) (by simp only [hradix] at *; omega)
  · rw [if_neg hpos]
    simp only
    rw [max_eq_left (show -2 ^ 127 + 1 ≤ e by rw [hradix] at hlow; omega)]
    split_ifs
    all_goals exact Prod.ext (by simp only [hradix] at *; omega) (by simp only [hradix] at *; omega)

theorem halfLives_of_range {e : Int} (hlow : -(64 * radix : Nat) ≤ e)
    (hhigh : e < (65 * radix : Nat)) : ∃ n, (e + (64 * radix : Nat)).toNat = n ∧
      (decomposeFixedPoint e).2 = n % radix ∧ halfLives e = (n / radix : Nat) - 64 := by
  obtain ⟨n, hn⟩ : ∃ n, (e + (64 * radix : Nat)).toNat = n := ⟨_, rfl⟩
  have hrange : n / radix ≤ 128 := by
    simp only [radix] at hn hhigh ⊢
    omega
  rw [halfLives, decomposeFixedPoint_eq hlow hhigh, hn]
  refine ⟨n, rfl, rfl, ?_⟩
  generalize n / radix = k at hrange ⊢
  omega

include hT in
theorem safeMulShift_le_max (p : Nat) : safeMulShift T p ≤ u128Max := by
  rw [safeMulShift_eq]
  split_ifs <;> omega

include hpos hT in
theorem shiftFits_of_late (h : T * 2 ^ (min (lateness anchor tip / asertHalflife) 64 + 1).toNat ≤
    2 ^ 128) : ShiftFits T anchor tip := by
  have hadjusted := safeMulShift_lt hpos hT
    (pow2Frac_lt (decomposeFixedPoint_snd_lt (asertExponent anchor tip)))
  have hle : (halfLives (asertExponent anchor tip)).toNat ≤ _ := halfLives_le
  unfold ShiftFits
  by_cases hzero : (halfLives (asertExponent anchor tip)).toNat = 0
  · rw [hzero, pow_zero, mul_one]
    exact lt_of_le_of_lt (safeMulShift_le_max hT _) (by decide)
  calc safeMulShift T (pow2Frac (decomposeFixedPoint (asertExponent anchor tip)).2) *
        2 ^ (halfLives (asertExponent anchor tip)).toNat
      < 2 * T * 2 ^ (min (lateness anchor tip / asertHalflife) 64).toNat :=
        Nat.mul_lt_mul_of_lt_of_le hadjusted (Nat.pow_le_pow_right (by decide) hle) (by positivity)
    _ = T * 2 ^ (min (lateness anchor tip / asertHalflife) 64 + 1).toNat := by
        rw [Int.toNat_add (by omega) (by decide), show (1 : Int).toNat = 1 from rfl]
        ring
    _ ≤ 2 ^ 128 := h

theorem applyAsert_eq (h : tip.height - anchor.height ≠ 0) : applyAsert T anchor tip =
    if 0 ≤ halfLives (asertExponent anchor tip) then
      max ((safeMulShift T (pow2Frac (decomposeFixedPoint (asertExponent anchor tip)).2) *
        2 ^ (halfLives (asertExponent anchor tip)).toNat) % 2 ^ 128) 1
    else max (safeMulShift T (pow2Frac (decomposeFixedPoint (asertExponent anchor tip)).2) /
      2 ^ (-halfLives (asertExponent anchor tip)).toNat) 1 := if_neg h

include hT in
theorem applyAsert_eq_asertValue (h : tip.height - anchor.height ≠ 0)
    (hlow : -(64 * radix : Nat) ≤ asertExponent anchor tip)
    (hhigh : asertExponent anchor tip < (65 * radix : Nat)) :
    applyAsert T anchor tip =
      max (asertValue T (asertExponent anchor tip + (64 * radix : Nat)).toNat % 2 ^ 128) 1 := by
  obtain ⟨n, hn, hfrac, hhalf⟩ := halfLives_of_range hlow hhigh
  rw [applyAsert_eq h, hn, hfrac, hhalf]
  obtain ⟨k, hk⟩ : ∃ k, n / radix = k := ⟨_, rfl⟩
  rw [hk]
  split_ifs with hsign
  · rw [asertValue_of_le (by omega), hk, show ((k : Int) - 64).toNat = k - 64 by omega]
  · rw [asertValue_of_lt (by omega), hk, show (-((k : Int) - 64)).toNat = 64 - k by omega]
    have hle := (Nat.div_le_self _ (2 ^ (64 - k))).trans
      (safeMulShift_le_max hT (pow2Frac (n % radix)))
    rw [Nat.mod_eq_of_lt (lt_of_le_of_lt hle (by decide))]

include hT in
theorem asertValue_lt_of_fits (hlow : -(64 * radix : Nat) ≤ asertExponent anchor tip)
    (hhigh : asertExponent anchor tip < (65 * radix : Nat)) (h : ShiftFits T anchor tip) :
    asertValue T (asertExponent anchor tip + (64 * radix : Nat)).toNat < 2 ^ 128 := by
  obtain ⟨n, hn, hfrac, hhalf⟩ := halfLives_of_range hlow hhigh
  obtain ⟨k, hk⟩ : ∃ k, n / radix = k := ⟨_, rfl⟩
  rw [ShiftFits, hfrac, hhalf, hk] at h
  rw [hn]
  by_cases hk64 : 64 ≤ k
  · rw [asertValue_of_le (by omega), hk]
    rwa [show ((k : Int) - 64).toNat = k - 64 by omega] at h
  · rw [asertValue_of_lt (by omega)]
    exact (Nat.div_le_self _ _).trans_lt
      (lt_of_le_of_lt (safeMulShift_le_max hT _) (by decide))

include hpos hT in
/-- **A later tip gives no smaller value**, or one that is beyond the clamp. -/
theorem applyAsert_mono (hheight : tip'.height = tip.height)
    (htime : tip.timestamp ≤ tip'.timestamp)
    (h : anchor.height < tip.height → -(64 * asertHalflife : Nat) ≤ lateness anchor tip ∧
      T * 2 ^ (min (lateness anchor tip' / asertHalflife) 64 + 1).toNat ≤ 2 ^ 128) :
    applyAsert T anchor tip ≤ applyAsert T anchor tip' ∨
      T * 2 ^ 64 ≤ applyAsert T anchor tip' := by
  by_cases hdiff : tip.height - anchor.height = 0
  · refine .inl (le_of_eq ?_)
    unfold applyAsert
    rw [hheight]
    simp only [hdiff, if_true]
  obtain ⟨hearly, hlate⟩ := h (by omega)
  have hlow := le_asertExponent hearly
  have hfits := shiftFits_of_late hpos hT hlate
  have hdiff' : tip'.height - anchor.height ≠ 0 := by rwa [hheight]
  have hle : asertExponent anchor tip ≤ asertExponent anchor tip' :=
    asertExponent_mono hheight htime
  have hlow' := hlow.trans hle
  by_cases hhigh : asertExponent anchor tip' < (65 * radix : Nat)
  · left
    have hmono := asertValue_mono hpos hT
      (Int.toNat_le_toNat (Int.add_le_add_right hle (64 * radix : Nat)))
    have hlt := asertValue_lt_of_fits hT hlow' hhigh hfits
    rw [applyAsert_eq_asertValue hT hdiff hlow (hle.trans_lt hhigh),
      applyAsert_eq_asertValue hT hdiff' hlow' hhigh, Nat.mod_eq_of_lt hlt,
      Nat.mod_eq_of_lt (hmono.trans_lt hlt)]
    exact max_le_max_right _ hmono
  · right
    have hclamp : halfLives (asertExponent anchor tip') = 64 := by
      unfold halfLives decomposeFixedPoint
      simp only [radix] at hhigh ⊢
      rw [if_pos (by omega)]
      simp only
      omega
    unfold ShiftFits at hfits
    rw [hclamp] at hfits
    rw [applyAsert_eq hdiff', hclamp, if_pos (by decide), Nat.mod_eq_of_lt hfits]
    exact (Nat.mul_le_mul_right _ (le_safeMulShift hT _)).trans (le_max_left _ _)

include hpos hT in
/-- **A half-life early** ASERT asks for half the target at most. -/
theorem applyAsert_of_early (hheight : anchor.height < tip.height)
    (h : lateness anchor tip ≤ -(asertHalflife : Int)) :
    applyAsert T anchor tip ≤ max (T / 2) 1 := by
  have hexp : asertExponent anchor tip ≤ -(radix : Int) :=
    le_trans (Int.tdiv_le_tdiv (by decide) (mulI128_mono h)) (by decide)
  have hcases : halfLives (asertExponent anchor tip) ≤ -2 ∨
      halfLives (asertExponent anchor tip) = -1 ∧
        (decomposeFixedPoint (asertExponent anchor tip)).2 = 0 := by
    have hradix : radix = 65536 := rfl
    unfold halfLives decomposeFixedPoint
    rw [hradix] at hexp ⊢
    rw [if_neg (by omega)]
    dsimp only
    split_ifs
    all_goals dsimp only
    all_goals omega
  have hadjusted := safeMulShift_lt hpos hT
    (pow2Frac_lt (decomposeFixedPoint_snd_lt (asertExponent anchor tip)))
  rw [applyAsert_eq (by omega), if_neg (by omega)]
  refine max_le_max_right _ ?_
  rcases hcases with hlives | ⟨hlives, hfrac⟩
  · have hpow : 2 ^ 2 ≤ 2 ^ (-halfLives (asertExponent anchor tip)).toNat :=
      Nat.pow_le_pow_right (by decide) (by omega)
    exact (Nat.div_le_div_left hpow (by decide)).trans (by omega)
  · rw [hlives, hfrac, pow2Frac_zero, safeMulShift, if_pos (Nat.sub_self _)]
    rfl

/-- **Late by whole half-lives**: one doubling for each, without the bits above 128. -/
theorem applyAsert_of_late {k : Nat} (hk : k ≤ 64) (hheight : anchor.height < tip.height)
    (h : lateness anchor tip = (k * asertHalflife : Nat)) :
    applyAsert T anchor tip = max (T * 2 ^ k % 2 ^ 128) 1 := by
  have hradix : radix = 65536 := rfl
  have hhour : asertHalflife = 3600 := rfl
  have hexp : asertExponent anchor tip = (k * radix : Nat) := by
    rw [asertExponent, h, mulI128, if_pos (by rw [hradix, hhour]; omega), hradix, hhour,
      Int.tdiv_eq_ediv_of_nonneg (by omega)]
    omega
  have hparts : decomposeFixedPoint (k * radix : Nat) = ((k : Int), 0) := by
    unfold decomposeFixedPoint
    rw [hradix, if_pos (by omega)]
    exact Prod.ext (by dsimp only; omega) (by dsimp only; omega)
  have hlives : halfLives (k * radix : Nat) = k := by
    rw [halfLives, hparts]
    dsimp only
    omega
  rw [applyAsert_eq (by omega), hexp, hlives, hparts, pow2Frac_zero, safeMulShift,
    if_pos (Nat.sub_self _), if_pos (by omega), Int.toNat_natCast]

/-! ## 4. The window -/

variable {front : List DifficultyBlock} {later : Nat}

/-- The clamp of the two values. -/
def clampedTarget (T short long : Nat) : Nat :=
  clampNat (max (T / 2) 1) (max (min (safeMulU128 T 2) (u128Max / minDifficulty)) (max (T / 2) 1))
    (min (safeMulU128 short 70 + safeMulU128 long 30) u128Max / 100)

def droppedTarget (T clamped : Nat) (emergency : Bool) : Nat :=
  if emergency = true then
    clampNat (max (T / 2) 1) (max (min (safeMulU128 T (2 * emergencyDropFactor))
      (u128Max / minDifficulty)) (max (T / 2) 1))
      (safeMulU128 clamped emergencyDropFactor)
  else clamped

include hT in
theorem clampedTarget_mono {s s' l l' : Nat} (hs : s ≤ s' ∨ T * 2 ^ 64 ≤ s')
    (hl : l ≤ l' ∨ T * 2 ^ 64 ≤ l') : clampedTarget T s l ≤ clampedTarget T s' l' := by
  unfold clampedTarget clampNat safeMulU128
  simp only [u128Max, minDifficulty] at *
  omega

theorem clampedTarget_of_le {s l : Nat} (hs : s ≤ max (T / 2) 1) (hl : l ≤ max (T / 2) 1) :
    clampedTarget T s l = max (T / 2) 1 := by
  unfold clampedTarget clampNat safeMulU128
  omega

include hT in
theorem droppedTarget_mono {s l s' l' : Nat} {e e' : Bool}
    (hc : clampedTarget T s l ≤ clampedTarget T s' l') (he : e = true → e' = true) :
    droppedTarget T (clampedTarget T s l) e ≤ droppedTarget T (clampedTarget T s' l') e' := by
  have hbound : clampedTarget T s' l' ≤
      max (min (safeMulU128 T 2) (u128Max / minDifficulty)) (max (T / 2) 1) :=
    clampNat_le (le_max_right _ _)
  generalize clampedTarget T s l = c at hc ⊢
  generalize clampedTarget T s' l' = c' at hc hbound ⊢
  unfold droppedTarget clampNat
  simp only [safeMulU128, u128Max, minDifficulty, emergencyDropFactor] at *
  cases e <;> cases e' <;> simp at he ⊢ <;> omega

include hT in
theorem droppedTarget_le {s l : Nat} {e : Bool} :
    droppedTarget T (clampedTarget T s l) e ≤ u128Max := by
  have hbound : clampedTarget T s l ≤
      max (min (safeMulU128 T 2) (u128Max / minDifficulty)) (max (T / 2) 1) :=
    clampNat_le (le_max_right _ _)
  generalize clampedTarget T s l = c at hbound ⊢
  unfold droppedTarget clampNat
  simp only [safeMulU128, u128Max, minDifficulty, emergencyDropFactor] at *
  split_ifs <;> omega

theorem calculateDifficulty_append (hfront : front ≠ []) (height : Nat) :
    calculateDifficulty (front ++ [tip]) height =
      u128ToTarget (droppedTarget (targetToU128Pos tip.target)
        (clampedTarget (targetToU128Pos tip.target)
          (applyAsert (targetToU128Pos tip.target)
            (getAnchor (front ++ [tip]) difficultyShortWindow tip) tip)
          (applyAsert (targetToU128Pos tip.target)
            (getAnchor (front ++ [tip]) difficultyLongWindow tip) tip))
        (needsEmergencyDrop (front ++ [tip]) height)) := by
  have hlen : ¬ (front ++ [tip]).length < 2 := by
    have := length_pos_iff.mpr hfront
    simp only [length_append, length_singleton]
    omega
  unfold calculateDifficulty
  rw [if_neg hlen, getLast?_concat]
  rfl

theorem exists_anchor (hfront : front ≠ []) {depth : Nat} (h : 2 ≤ depth) :
    ∃ anchor ∈ front, ∀ tip, getAnchor (front ++ [tip]) depth tip = anchor := by
  have hpos := length_pos_iff.mpr hfront
  have hindex : front.length + 1 - min depth (front.length + 1) < front.length := by omega
  refine ⟨front.get ⟨_, hindex⟩, get_mem _ _, fun tip => ?_⟩
  rw [getAnchor, length_append, length_singleton, getD_eq_getElem?_getD,
    getElem?_append_left hindex, getElem?_eq_getElem hindex]
  rfl

theorem needsEmergencyDrop_mono {height : Nat} (hle : tip.timestamp ≤ later)
    (h : needsEmergencyDrop (front ++ [tip]) height = true) :
    needsEmergencyDrop (front ++ [{ tip with timestamp := later }]) height = true := by
  unfold needsEmergencyDrop at h ⊢
  simp only [length_append, length_singleton, getLast?_concat] at h ⊢
  split_ifs at h ⊢ with hheight hlen
  have hindex : front.length + 1 - emergencyDifficultyBlocks < front.length := by
    simp only [emergencyDifficultyBlocks] at hlen ⊢
    omega
  rw [getElem?_append_left hindex] at h ⊢
  cases hcheck : front[front.length + 1 - emergencyDifficultyBlocks]? with
  | none =>
    rw [hcheck] at h
    cases h
  | some check =>
    rw [hcheck] at h
    simp only [decide_eq_true_eq] at h ⊢
    omega

/-- The anchors of the two windows. -/
def anchors (front : List DifficultyBlock) (tip : DifficultyBlock) : List DifficultyBlock :=
  [getAnchor (front ++ [tip]) difficultyShortWindow tip,
    getAnchor (front ++ [tip]) difficultyLongWindow tip]

/-- **A half-life early**, as seen from both anchors. -/
def HalfLifeEarly (front : List DifficultyBlock) (tip : DifficultyBlock) : Prop :=
  ∀ anchor ∈ anchors front tip,
    anchor.height < tip.height ∧ lateness anchor tip ≤ -(asertHalflife : Int)

/-- **Nothing is lost when the tip moves**: as seen from both anchors, the tip is at most 64
half-lives early, and at the later time the target can be doubled once for each half-life that has
begun. -/
def Fits (front : List DifficultyBlock) (tip : DifficultyBlock) (later : Nat) : Prop :=
  ∀ anchor ∈ anchors front tip, anchor.height < tip.height →
    -(64 * asertHalflife : Nat) ≤ lateness anchor tip ∧ targetToU128Pos tip.target *
      2 ^ (min (lateness anchor { tip with timestamp := later } / asertHalflife) 64 + 1).toNat ≤
        2 ^ 128

instance : Decidable (Fits front tip later) := by
  unfold Fits
  infer_instance

theorem target_le_of_fits (hfront : front ≠ []) (hle : tip.timestamp ≤ later)
    (h : HalfLifeEarly front tip ∨ Fits front tip later) (height : Nat) :
    targetToU128 (calculateDifficulty (front ++ [tip]) height) ≤
      targetToU128 (calculateDifficulty (front ++ [{ tip with timestamp := later }]) height) := by
  have hpos : 0 < targetToU128Pos tip.target := Nat.lt_of_lt_of_le one_pos (le_max_right _ _)
  have hT : targetToU128Pos tip.target ≤ u128Max := max_le (targetToU128_le _) (by decide)
  obtain ⟨short, -, hshort⟩ := exists_anchor hfront (show 2 ≤ difficultyShortWindow by decide)
  obtain ⟨long, -, hlong⟩ := exists_anchor hfront (show 2 ≤ difficultyLongWindow by decide)
  simp only [HalfLifeEarly, Fits, anchors, forall_mem_cons, not_mem_nil, hshort, hlong] at h
  rw [calculateDifficulty_append hfront, calculateDifficulty_append hfront, hshort, hshort, hlong,
    hlong]
  simp only
  generalize targetToU128Pos tip.target = T at hpos hT h ⊢
  rw [targetToU128_u128ToTarget (droppedTarget_le hT),
    targetToU128_u128ToTarget (droppedTarget_le hT)]
  refine max_le_max_right _ (droppedTarget_mono hT ?_ (needsEmergencyDrop_mono hle))
  rcases h with ⟨hs, hl, -⟩ | ⟨hs, hl, -⟩
  · rw [clampedTarget_of_le (applyAsert_of_early hpos hT hs.1 hs.2)
      (applyAsert_of_early hpos hT hl.1 hl.2)]
    exact le_max_left _ _
  · exact clampedTarget_mono hT (applyAsert_mono hpos hT rfl hle hs)
      (applyAsert_mono hpos hT rfl hle hl)

theorem Fits.mono {limit : Nat} (h : Fits front tip limit) (hle : later ≤ limit) :
    Fits front tip later := by
  intro anchor hmem hheight
  obtain ⟨hearly, hfits⟩ := h anchor hmem hheight
  refine ⟨hearly, le_trans (Nat.mul_le_mul_left _ (Nat.pow_le_pow_right (by decide) ?_)) hfits⟩
  simp only [lateness, asertHalflife]
  omega

/-- **A late tip on a power of two**: the window is so short that both anchors are its first block,
the target is `2 ^ j`, and the tip is late by a half-life or more. -/
structure LatePower (first : DifficultyBlock) (rest : List DifficultyBlock) (tip : DifficultyBlock)
    (j : Nat) : Prop where
  short : rest.length + 2 ≤ difficultyShortWindow
  height : first.height < tip.height
  late : (asertHalflife : Int) ≤ lateness first tip
  target : targetToU128Pos tip.target = 2 ^ j
  range : 64 ≤ j ∧ j ≤ 118

section Converse

variable {first : DifficultyBlock} {rest : List DifficultyBlock} {j : Nat}
  (h : LatePower first rest tip j)
include h

theorem LatePower.le_u128Max : 2 ^ j ≤ u128Max :=
  (Nat.pow_le_pow_right (by decide) h.range.2).trans (by decide)

theorem LatePower.getAnchor_eq (later depth : Nat) (hdepth : difficultyShortWindow ≤ depth) :
    getAnchor (first :: rest ++ [{ tip with timestamp := later }]) depth
      { tip with timestamp := later } = first := by
  have hlen := h.short
  have hindex : (first :: rest ++ [{ tip with timestamp := later }]).length -
      min depth (first :: rest ++ [{ tip with timestamp := later }]).length = 0 := by
    simp only [length_append, length_cons, length_nil]
    omega
  rw [getAnchor, hindex]
  rfl

theorem LatePower.target_eq (later height : Nat) :
    targetToU128 (calculateDifficulty (first :: rest ++ [{ tip with timestamp := later }]) height) =
      clampedTarget (2 ^ j) (applyAsert (2 ^ j) first { tip with timestamp := later })
        (applyAsert (2 ^ j) first { tip with timestamp := later }) := by
  have hcalm : needsEmergencyDrop (first :: rest ++ [{ tip with timestamp := later }]) height =
      false := by
    have hlen : (first :: rest ++ [{ tip with timestamp := later }]).length <
        emergencyDifficultyBlocks := by
      simp only [length_append, length_cons, length_nil]
      exact lt_of_le_of_lt h.short (by decide)
    rw [needsEmergencyDrop, if_pos hlen, ite_self]
  rw [calculateDifficulty_append (cons_ne_nil _ _), hcalm, h.getAnchor_eq later _ le_rfl,
    h.getAnchor_eq later _ (by decide), h.target, targetToU128_u128ToTarget (droppedTarget_le h.le_u128Max)]
  exact max_eq_left (le_max_of_le_left (le_max_right _ _))

theorem LatePower.fits_iff (hle : tip.timestamp ≤ later) : Fits (first :: rest) tip later ↔
    lateness first { tip with timestamp := later } < ((128 - j) * asertHalflife : Nat) := by
  have hanchors : anchors (first :: rest) tip = [first, first] :=
    congrArg₂ _ (h.getAnchor_eq tip.timestamp _ le_rfl)
      (congrArg₂ _ (h.getAnchor_eq tip.timestamp _ (by decide)) rfl)
  have hlate := h.late
  have hrange := h.range
  have hlater : lateness first tip ≤ lateness first { tip with timestamp := later } := by
    simp only [lateness]
    omega
  simp only [Fits, hanchors, forall_mem_cons, not_mem_nil, false_imp_iff, implies_true, and_true,
    and_self, h.height, true_imp_iff, h.target, ← pow_add,
    Nat.pow_le_pow_iff_right (show 1 < 2 by decide)]
  generalize lateness first { tip with timestamp := later } = l at hlater ⊢
  simp only [asertHalflife] at hlate ⊢
  omega

/-- **A half-life late** and still within the condition, the target is doubled at least. -/
theorem LatePower.le_applyAsert (hnow : Fits (first :: rest) tip tip.timestamp) :
    2 * 2 ^ j ≤ applyAsert (2 ^ j) first tip := by
  have hfits := (h.fits_iff le_rfl).mp hnow
  have hlate := h.late
  have hrange := h.range
  -- the tip as it would be exactly one half-life late
  let hour : DifficultyBlock :=
    { tip with timestamp := tip.timestamp - (lateness first tip - asertHalflife).toNat }
  have hhour : lateness first hour = (1 * asertHalflife : Nat) := by
    simp only [lateness, asertHalflife, targetBlockTime, hour] at hlate ⊢
    omega
  have hdouble : applyAsert (2 ^ j) first hour = 2 * 2 ^ j := by
    have hlt : 2 ^ j ≤ 2 ^ 118 := Nat.pow_le_pow_right (by decide) hrange.2
    have hone : 1 ≤ 2 ^ j := Nat.one_le_two_pow
    have heq : applyAsert (2 ^ j) first hour = max (2 ^ j * 2 ^ 1 % 2 ^ 128) 1 :=
      applyAsert_of_late (by decide) h.height hhour
    rw [heq]
    omega
  have hmono : applyAsert (2 ^ j) first hour ≤ applyAsert (2 ^ j) first tip ∨
      2 ^ j * 2 ^ 64 ≤ applyAsert (2 ^ j) first tip := by
    refine applyAsert_mono (Nat.two_pow_pos j) h.le_u128Max rfl (Nat.sub_le _ _) fun _ => ⟨?_, ?_⟩
    · rw [hhour]
      omega
    · rw [← pow_add]
      refine Nat.pow_le_pow_right (by decide) ?_
      change lateness first tip < _ at hfits
      generalize lateness first tip = l at hfits hlate ⊢
      simp only [asertHalflife] at hlate hfits ⊢
      omega
  omega

end Converse

namespace SmallChain

/-- A window of two blocks with the target `2 ^ 118`. -/
def pairWindow (timestamp : Nat) : List DifficultyBlock × DifficultyBlock :=
  ([⟨0, 0, u128ToTarget (2 ^ 118)⟩], ⟨1, timestamp, u128ToTarget (2 ^ 118)⟩)

end SmallChain

end Coincync
