/-
# Reconstructing a group secret

`reconstruct_group_secret` of `src/wallet/multisig.rs`.  The first `threshold` shares are points of a
polynomial, and two nested loops interpolate it at zero.  For pairwise different participants that is
Lagrange interpolation, so it does not matter whose shares they are, nor in which order they come; a
participant who appears twice makes a denominator zero.
-/
import Coincync.Crypto.WideSuite

namespace Coincync

open Lib List Polynomial Lagrange

/-- `KeyShare`, with the threshold of its `config`. -/
structure KeyShare where
  threshold : UInt16
  participantId : UInt16
  signingShareBytes : Bytes

/-- The errors of `reconstruct_group_secret`. -/
inductive MultisigError
  | noShares
  | needShares (threshold got : Nat)
  | shareLength (got : Nat)
  | invalidScalar
  | duplicateIds

section

variable {ε α : Type} {f : α → Nat → Except ε α}

theorem foldlM_range_ok {g : Nat → α} {n : Nat} (h : ∀ j < n, f (g j) j = .ok (g (j + 1))) :
    (range n).foldlM f (g 0) = .ok (g n) := by
  induction n with
  | zero => rfl
  | succ n ih =>
    rw [range_succ, foldlM_append, ih fun j hj => h j (by omega)]
    change [n].foldlM f (g n) = _
    rw [foldlM_cons, h n (by omega)]
    rfl

theorem foldlM_error {l : List Nat} {j : Nat} (hj : j ∈ l) (h : ∀ a, ∃ e, f a j = .error e) :
    ∀ a, ∃ e, l.foldlM f a = .error e := by
  induction hj with
  | head l =>
    intro a
    obtain ⟨e, he⟩ := h a
    exact ⟨e, by rw [foldlM_cons, he]; rfl⟩
  | @tail i l _ ih =>
    intro a
    rw [foldlM_cons]
    cases f a i with
    | error e => exact ⟨e, rfl⟩
    | ok b => exact ih b

end

variable {F G : Type} [Field F] [AddCommGroup G] [Module F G] (S : Suite F G)

/-- The scalar of a share. -/
def signingScalar (share : KeyShare) : Except MultisigError F :=
  if h : share.signingShareBytes.length = 32 then
    match S.scalarFromCanonical ⟨share.signingShareBytes, h⟩ with
    | some s => .ok s
    | none => .error .invalidScalar
  else .error (.shareLength share.signingShareBytes.length)

theorem signingScalar_toBytes (threshold participantId : UInt16) (s : F) :
    signingScalar S ⟨threshold, participantId, (S.scalarToBytes s).toList⟩ = .ok s := by
  have hs : S.scalarFromCanonical ⟨_, Vector.toList_length _⟩ = some s := S.fromCanonical_toBytes s
  simp only [signingScalar, Vector.toList_length, dif_pos, hs]

variable [DecidableEq F]

/-- The inner loop: the coefficient of the `i`-th share. -/
def lagrangeLambda (ids : List F) (i : Nat) : Except MultisigError F :=
  (range ids.length).foldlM (fun lambda j =>
    if i = j then .ok lambda
    else
      let den := ids.getD j 0 - ids.getD i 0
      if den = 0 then .error .duplicateIds else .ok (lambda * (ids.getD j 0 * den⁻¹))) 1

/-- The outer loop. -/
def interpolateAtZero (ids signingScalars : List F) : Except MultisigError F :=
  (range ids.length).foldlM (fun secret i =>
    (lagrangeLambda ids i).map fun lambda => secret + lambda * signingScalars.getD i 0) 0

def reconstructGroupSecret (shares : List KeyShare) : Except MultisigError F :=
  match shares.head? with
  | none => .error .noShares
  | some first =>
    let threshold := first.threshold.toNat
    if shares.length < threshold then .error (.needShares threshold shares.length)
    else
      let active := shares.take threshold
      (active.mapM (signingScalar S)).bind
        (interpolateAtZero (active.map fun s => (s.participantId.toNat : F)))

variable {ids : List F}

/-- **The inner loop computes the Lagrange basis at zero.** -/
theorem lagrangeLambda_eq {i : Nat} (hi : i < ids.length)
    (hinj : Set.InjOn (ids.getD · 0) (Finset.range ids.length)) :
    lagrangeLambda ids i =
      .ok ((Lagrange.basis (Finset.range ids.length) (ids.getD · 0) i).eval 0) := by
  refine (foldlM_range_ok (g := fun n => ∏ j ∈ Finset.range n, if i = j then 1
    else ids.getD j 0 * (ids.getD j 0 - ids.getD i 0)⁻¹) fun j hj => ?_).trans (congrArg _ ?_)
  · by_cases hij : i = j
    · simp [Finset.prod_range_succ, hij]
    · have hne : ids.getD j 0 - ids.getD i 0 ≠ 0 := fun h =>
        hij (hinj (by simpa using hi) (by simpa using hj) (sub_eq_zero.mp h).symm)
      simp only [hij, if_false, hne, Finset.prod_range_succ]
  · rw [Lagrange.basis, eval_prod]
    refine (Finset.prod_erase (a := i) _ ?_).symm.trans (Finset.prod_congr rfl fun j hj => ?_)
    · exact if_pos rfl
    · rw [if_neg (Finset.ne_of_mem_erase hj).symm, basisDivisor, ← neg_sub, inv_neg]
      simp only [eval_mul, eval_C, eval_sub, eval_X, zero_sub]
      rw [mul_neg, mul_neg, mul_comm]

/-- **The two loops are interpolation.** -/
theorem interpolateAtZero_eq {f : F[X]} (hids : ids.Nodup) (hdegree : f.degree < ids.length) :
    interpolateAtZero ids (ids.map fun x => f.eval x) = .ok (f.eval 0) := by
  have hinj : Set.InjOn (ids.getD · 0) (Finset.range ids.length) := by
    intro i hi j hj heq
    rw [Finset.coe_range, Set.mem_Iio] at hi hj
    simp only [getD_eq_getElem _ _ hi, getD_eq_getElem _ _ hj] at heq
    exact hids.getElem_inj_iff.mp heq
  have hvalue : ∀ i ∈ Finset.range ids.length,
      f.eval (ids.getD i 0) = (ids.map fun x => f.eval x).getD i 0 := fun i hi => by
    have hi := Finset.mem_range.mp hi
    simp [hi]
  refine (foldlM_range_ok (g := fun n => ∑ i ∈ Finset.range n, (Lagrange.basis
    (Finset.range ids.length) (ids.getD · 0) i).eval 0 * (ids.map fun x => f.eval x).getD i 0)
    fun i hi => ?_).trans (congrArg _ ?_)
  · rw [lagrangeLambda_eq hi hinj, Finset.sum_range_succ]
    rfl
  · have hf := eq_interpolate_of_eval_eq _ hinj (by simpa using hdegree) hvalue
    rw [congrArg (eval 0) hf, interpolate_apply, eval_finsetSum]
    refine Finset.sum_congr rfl fun i _ => ?_
    rw [eval_mul, eval_C, mul_comm]

theorem interpolateAtZero_error (hdup : ¬ids.Nodup) (signingScalars : List F) :
    ∃ e, interpolateAtZero ids signingScalars = .error e := by
  rw [nodup_iff_getElem?_ne_getElem?] at hdup
  push Not at hdup
  obtain ⟨i, j, hij, hj, heq⟩ := hdup
  have hden : ids.getD j 0 - ids.getD i 0 = 0 := by rw [getD, getD, heq, sub_self]
  refine foldlM_error (mem_range.mpr (hij.trans hj)) (fun secret => ?_) 0
  obtain ⟨e, he⟩ : ∃ e, lagrangeLambda ids i = .error e := by
    refine foldlM_error (mem_range.mpr hj) (fun lambda => ⟨.duplicateIds, ?_⟩) 1
    simp only [hij.ne, if_false, hden, if_true]
  exact ⟨e, by rw [he]; rfl⟩

/-- **Any `threshold` shares of a polynomial reconstruct its value at zero**, and two of one
participant are an error. -/
theorem reconstructGroupSecret_eq {p : Nat} [CharP F p] (hp : 2 ^ 16 ≤ p) {shares : List KeyShare}
    {t : Nat} (ht : shares.head?.map (·.threshold.toNat) = some t) (hlength : t ≤ shares.length) :
    (∀ f : F[X], f.degree < t → ((shares.take t).map (·.participantId)).Nodup →
      (∀ s ∈ shares.take t, signingScalar S s = .ok (f.eval (s.participantId.toNat : F))) →
      reconstructGroupSecret S shares = .ok (f.eval 0)) ∧
    (¬((shares.take t).map (·.participantId)).Nodup →
      ∃ e, reconstructGroupSecret S shares = .error e) := by
  have hinj : Function.Injective fun id : UInt16 => (id.toNat : F) := fun a b h =>
    UInt16.toNat_inj.mp (CharP.natCast_injOn_Iio F p (a.toNat_lt.trans_le hp)
      (b.toNat_lt.trans_le hp) h)
  obtain ⟨first, hfirst, rfl⟩ := Option.map_eq_some_iff.mp ht
  have hlen : (shares.take first.threshold.toNat).length = first.threshold.toNat := by
    rw [length_take, min_eq_left hlength]
  simp only [reconstructGroupSecret, hfirst, if_neg hlength.not_gt]
  generalize shares.take first.threshold.toNat = active at *
  rw [← hlen, ← nodup_map_iff hinj, map_map]
  refine ⟨fun f hdegree hids hshares => ?_, fun hdup => ?_⟩
  · have hscalars : active.mapM (signingScalar S) =
        .ok ((active.map fun s => (s.participantId.toNat : F)).map fun x => f.eval x) := by
      clear hids hdegree hlen
      induction active with
      | nil => rfl
      | cons s rest ih =>
        rw [mapM_cons, hshares s (.head _), ih fun s hs => hshares s (.tail _ hs)]
        rfl
    rw [hscalars]
    exact interpolateAtZero_eq hids (by simpa using hdegree)
  · cases active.mapM (signingScalar S) with
    | error e => exact ⟨e, rfl⟩
    | ok signingScalars => exact interpolateAtZero_error hdup signingScalars

/-- Participants 4 and 2 have shares of `X`. -/
theorem shares_reconstruct : let S := WideSuite.suite fun _ => FixedBytes.replicate 32 0
    reconstructGroupSecret S [⟨2, 4, (S.scalarToBytes (4 : Nat)).toList⟩,
      ⟨2, 2, (S.scalarToBytes (2 : Nat)).toList⟩] = .ok ((X : WideSuite.W[X]).eval 0) := by
  intro S
  refine ((reconstructGroupSecret_eq S (p := WideSuite.order) (by decide) (t := 2) rfl le_rfl).1 X
    ?_ (by decide) ?_)
  · rw [degree_X]
    decide
  · simp [signingScalar_toBytes]

end Coincync
