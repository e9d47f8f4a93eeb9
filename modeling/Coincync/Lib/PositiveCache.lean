/-
# Caches of positive answers

A cache that remembers only that a question was answered "yes" is keyed by a digest of the
question.  It is sound as long as every key in it was put there by a question whose answer is
yes (`Sound`), which every insertion of a true answer keeps, and every eviction keeps for
nothing.  What a hit then says about the question being asked is a matter of the key alone: the
answer is right when the key determines it among the questions that share the cache
(`DeterminedAt`, `Sound.answer_of_hit`).
-/
import Coincync.Lib.Maps

namespace Coincync.Lib.PositiveCache

variable {K T Q : Type} [DecidableEq K]

/-- Every key in the cache was put there by a question of `asked` whose answer is yes. -/
def Sound (key : Q → K) (answer : Q → Bool) (asked : Q → Prop) (m : Map K T) : Prop :=
  ∀ k, k ∈ m → ∃ q, asked q ∧ key q = k ∧ answer q = true

/-- A question of `asked` with the key of `q` is answered yes only if `q` is. -/
def DeterminedAt (key : Q → K) (answer : Q → Bool) (asked : Q → Prop) (q : Q) : Prop :=
  ∀ q', asked q' → key q' = key q → answer q' = true → answer q = true

variable {key : Q → K} {answer : Q → Bool} {asked : Q → Prop} {m m' : Map K T}

omit [DecidableEq K] in
theorem sound_empty : Sound key answer asked (∅ : Map K T) :=
  fun _ hk => absurd hk Finmap.notMem_empty

omit [DecidableEq K] in
theorem Sound.mono (h : Sound key answer asked m) (hsub : ∀ k, k ∈ m' → k ∈ m) :
    Sound key answer asked m' :=
  fun k hk => h k (hsub k hk)

omit [DecidableEq K] in
/-- **A hit is the right answer**, when the key determines it. -/
theorem Sound.answer_of_hit (h : Sound key answer asked m)
    {q : Q} (hdet : DeterminedAt key answer asked q) (hit : key q ∈ m) : answer q = true := by
  obtain ⟨q', hq', hkey, hans⟩ := h _ hit
  exact hdet q' hq' hkey hans

end Coincync.Lib.PositiveCache
