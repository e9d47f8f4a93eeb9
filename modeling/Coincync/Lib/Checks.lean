/-
# Validation checks

Two shapes of check recur in a validator.  One stops at the first failure and returns it
(`Except ε Unit`): such checks are sequenced with `do` and repeated over a list (`checkAll`).
The other collects: it returns the list of what is wrong, and nothing is wrong when the list is
empty.  The collecting check for repeated entries is `duplicatesBy`, the loop
`if !seen.insert(x) { add_error }`.
-/
import Mathlib

namespace Coincync.Lib

open Except

variable {α β ε δ : Type}

/-! ## 1. Checks that stop -/

variable {x : Except ε α}

theorem Except.bind_eq_ok_iff {f : α → Except ε β} {b : β} :
    x.bind f = .ok b ↔ ∃ a, x = .ok a ∧ f a = .ok b := by
  cases x with
  | error e => simp [Except.bind]
  | ok a => simp [Except.bind]

theorem Except.map_eq_ok_iff {f : α → β} {b : β} :
    x.map f = .ok b ↔ ∃ a, x = .ok a ∧ f a = b := by
  cases x with
  | error e => simp [Except.map]
  | ok a => simp [Except.map]

variable {f : α → Except ε Unit} {l : List α} {key : α → β} {dup : α → ε}

theorem Except.mapM_eq_ok {f : α → Except ε β} {l' : List β} (h : l.mapM f = .ok l') :
    List.Forall₂ (fun a b => f a = .ok b) l l' := by
  induction l generalizing l' with
  | nil =>
    cases h
    exact .nil
  | cons a l ih =>
    rw [List.mapM_cons] at h
    obtain ⟨b, hb, h⟩ := bind_eq_ok_iff.mp h
    obtain ⟨t, ht, h⟩ := bind_eq_ok_iff.mp h
    cases h
    exact .cons hb (ih ht)

theorem exists_getElem?_of_forall₂ {R : α → β → Prop} {l' : List β} (h : List.Forall₂ R l l')
    {i : Nat} {a : α} (ha : l[i]? = some a) : ∃ b, l'[i]? = some b ∧ R a b := by
  induction h generalizing i with
  | nil => cases ha
  | cons hR _ ih =>
    cases i with
    | zero =>
      cases ha
      exact ⟨_, rfl, hR⟩
    | succ i => exact ih ha

theorem Except.mapError_eq_ok_iff {g : ε → δ} {a : α} :
    x.mapError g = .ok a ↔ x = .ok a := by
  cases x with
  | error e => simp [Except.mapError]
  | ok a => simp [Except.mapError]

variable {x : Except ε Unit}

theorem Except.bind_ok_iff {f : Unit → Except ε Unit} :
    (x >>= f) = .ok () ↔ x = .ok () ∧ f () = .ok () := by
  cases x with
  | error e => simp [bind, Except.bind]
  | ok u => simp [bind, Except.bind]

/-- Fail with `e` unless `p`. -/
def require (p : Prop) [Decidable p] (e : ε) : Except ε Unit := if p then .ok () else .error e

@[simp] theorem require_ok_iff {p : Prop} [Decidable p] {e : ε} : require p e = .ok () ↔ p := by
  unfold require
  split_ifs with h
  · exact ⟨fun _ => h, fun _ => rfl⟩
  · exact ⟨fun hc => (by cases hc), fun hp => absurd hp h⟩

/-- A check that is made only when `b` holds. -/
def checkIf (b : Bool) (x : Except ε Unit) : Except ε Unit := if b = true then x else .ok ()

@[simp] theorem checkIf_ok_iff {b : Bool} :
    checkIf b x = .ok () ↔ (b = true → x = .ok ()) := by
  cases b <;> simp [checkIf]

/-- Run a check on every element, in order, stopping at the first failure. -/
def checkAll (f : α → Except ε Unit) : List α → Except ε Unit
  | [] => .ok ()
  | a :: t => do
    f a
    checkAll f t

theorem checkAll_ok_iff : ∀ {l : List α}, checkAll f l = .ok () ↔ ∀ a ∈ l, f a = .ok ()
  | [] => by simp [checkAll]
  | a :: t => by
    rw [checkAll, Except.bind_ok_iff, checkAll_ok_iff]
    simp

/-! ## 2. Which errors a check can give -/

theorem exists_mem_of_checkAll_error {e : ε} (h : checkAll f l = .error e) :
    ∃ a ∈ l, f a = .error e := by
  induction l with
  | nil => cases h
  | cons a t ih =>
    rw [checkAll] at h
    cases ha : f a with
    | error e' =>
      rw [ha] at h
      cases h
      exact ⟨a, .head _, ha⟩
    | ok u =>
      rw [ha] at h
      obtain ⟨b, hb, hfb⟩ := ih h
      exact ⟨b, .tail _ hb, hfb⟩

/-- **Every error of the check is of a kind.** -/
def FailsWith (Q : ε → Prop) (x : Except ε Unit) : Prop := ∀ e, x = .error e → Q e

section FailsWith

variable {Q : ε → Prop} {x : Except ε Unit}

theorem FailsWith.bind {f : Unit → Except ε Unit} (hx : FailsWith Q x) (hf : FailsWith Q (f ())) :
    FailsWith Q (x >>= f) := by
  intro e he
  cases x with
  | error e' => exact hx e he
  | ok u => exact hf e he

theorem failsWith_mapError {Q : δ → Prop} {g : ε → δ} (h : FailsWith (fun e => Q (g e)) x) :
    FailsWith Q (x.mapError g) := by
  intro e he
  cases x with
  | ok u => cases he
  | error e' =>
    cases he
    exact h e' rfl

theorem failsWith_require {p : Prop} [Decidable p] {e : ε} (he : Q e) :
    FailsWith Q (require p e) := by
  intro e' he'
  unfold require at he'
  split_ifs at he'
  cases he'
  exact he

theorem failsWith_checkIf {b : Bool} (hx : FailsWith Q x) : FailsWith Q (checkIf b x) := by
  intro e he
  cases b with
  | true => exact hx e he
  | false => cases he

theorem failsWith_checkAll (hf : ∀ a, FailsWith Q (f a)) : FailsWith Q (checkAll f l) := by
  induction l with
  | nil => intro e he; cases he
  | cons a t ih => exact (hf a).bind ih

end FailsWith

/-! ## 3. Repeated entries -/

variable [DecidableEq β]

/-- The elements whose value under `f` was seen before: in `seen`, or earlier in the list. -/
def duplicatesBy (f : α → β) (seen : List β) : List α → List α
  | [] => []
  | a :: t => if f a ∈ seen then a :: duplicatesBy f seen t else duplicatesBy f (f a :: seen) t

theorem duplicatesBy_eq_nil_iff {f : α → β} : ∀ {l : List α} {seen : List β},
    duplicatesBy f seen l = [] ↔ (l.map f).Nodup ∧ ∀ b ∈ seen, b ∉ l.map f
  | [], seen => by simp [duplicatesBy]
  | a :: t, seen => by
    unfold duplicatesBy
    by_cases h : f a ∈ seen
    · rw [if_pos h]
      refine ⟨fun hc => (List.cons_ne_nil _ _ hc).elim, fun hc => ?_⟩
      exact absurd (.head _) (hc.2 (f a) h)
    · rw [if_neg h, duplicatesBy_eq_nil_iff]
      simp only [List.map_cons, List.nodup_cons, List.mem_cons, not_or]
      constructor
      · rintro ⟨hnd, hseen⟩
        refine ⟨⟨hseen (f a) (Or.inl rfl), hnd⟩, fun b hb => ⟨?_, hseen b (Or.inr hb)⟩⟩
        rintro rfl
        exact h hb
      · rintro ⟨⟨ha, hnd⟩, hseen⟩
        refine ⟨hnd, ?_⟩
        rintro b (rfl | hb)
        · exact ha
        · exact (hseen b hb).2

theorem duplicatesBy_nil_eq_nil_iff {f : α → β} : duplicatesBy f [] l = [] ↔ (l.map f).Nodup := by
  rw [duplicatesBy_eq_nil_iff]
  simp

/-- Run a check on every element, in order, and fail as well on an element whose key was seen
before: the loop `if !seen.insert(key) { return Err(..) }` with more checks in its body. -/
def checkAllNew (key : α → β) (dup : α → ε) (f : α → Except ε Unit) (seen : List β) :
    List α → Except ε Unit
  | [] => .ok ()
  | a :: t => do
    require (key a ∉ seen) (dup a)
    f a
    checkAllNew key dup f (key a :: seen) t

theorem checkAllNew_ok_iff :
    ∀ {l : List α} {seen : List β}, checkAllNew key dup f seen l = .ok () ↔
      (l.map key).Nodup ∧ (∀ b ∈ seen, b ∉ l.map key) ∧ ∀ a ∈ l, f a = .ok ()
  | [], seen => by simp [checkAllNew]
  | a :: t, seen => by
    rw [checkAllNew, Except.bind_ok_iff, Except.bind_ok_iff, require_ok_iff, checkAllNew_ok_iff]
    simp only [List.map_cons, List.nodup_cons, List.mem_cons, not_or]
    constructor
    · rintro ⟨hseen, hf, hnd, hdisj, hall⟩
      refine ⟨⟨hdisj (key a) (Or.inl rfl), hnd⟩, fun b hb => ⟨?_, hdisj b (Or.inr hb)⟩, ?_⟩
      · rintro rfl
        exact hseen hb
      · rintro b (rfl | hb)
        · exact hf
        · exact hall b hb
    · rintro ⟨⟨ha, hnd⟩, hdisj, hall⟩
      refine ⟨fun hc => (hdisj (key a) hc).1 rfl, hall a (Or.inl rfl), hnd, ?_, fun b hb =>
        hall b (Or.inr hb)⟩
      rintro b (rfl | hb)
      · exact ha
      · exact (hdisj b hb).2

theorem failsWith_checkAllNew {Q : ε → Prop} (hdup : ∀ a, Q (dup a)) (hf : ∀ a, FailsWith Q (f a))
    (seen : List β) : FailsWith Q (checkAllNew key dup f seen l) := by
  induction l generalizing seen with
  | nil => intro e he; cases he
  | cons a t ih => exact (failsWith_require (hdup a)).bind ((hf a).bind (ih _))

theorem checkAllNew_congr {g : α → Except ε Unit} :
    ∀ {l : List α} {seen : List β}, (∀ a ∈ l, f a = g a) →
      checkAllNew key dup f seen l = checkAllNew key dup g seen l
  | [], _, _ => rfl
  | a :: t, seen, h => by
    rw [checkAllNew, checkAllNew, h a List.mem_cons_self,
      checkAllNew_congr fun x hx => h x (.tail _ hx)]

end Coincync.Lib
