/-
# Generation counters

A shared state that is changed under updates, and the two counters by which a reader without a lock
notices: the number of updates in progress, and the generation.  An update counts itself in, changes
the state any number of times, counts up the generation and counts itself out; updates may overlap
and nest, so all that is kept of them is how many stand where.  The generation wraps at `2 ^ 64`.
-/
import Coincync.Lib.Runs

namespace Coincync.Lib

/-- The shared state, and how many updates are open (begun, and the generation not yet counted up),
closing (counted up, and not yet out) and counted up in all; and how often the state was changed. -/
structure Gauge (σ : Type) where
  state : σ
  opened : Nat
  closing : Nat
  counted : Nat
  changes : Nat

namespace Gauge

variable {σ : Type}

/-- A state that nobody has updated. -/
def start (state : σ) : Gauge σ := ⟨state, 0, 0, 0, 0⟩

/-- The counter of updates in progress. -/
def inProgress (g : Gauge σ) : Nat := g.opened + g.closing

/-- The generation counter. -/
def generation (g : Gauge σ) : UInt64 := UInt64.ofNat g.counted

/-- What an update does. -/
inductive Move (σ : Type)
  | enter
  | change (new : σ)
  | count
  | leave

/-- One step of some update. -/
def move (g : Gauge σ) : Move σ → Option (Gauge σ)
  | .enter => some { g with opened := g.opened + 1 }
  | .change new =>
    if 0 < g.opened then some { g with state := new, changes := g.changes + 1 } else none
  | .count =>
    if 0 < g.opened then
      some { g with opened := g.opened - 1, closing := g.closing + 1, counted := g.counted + 1 }
    else none
  | .leave => if 0 < g.closing then some { g with closing := g.closing - 1 } else none

/-- `b` comes after `a`. -/
def Path (a b : Gauge σ) : Prop := Reaches move (fun _ _ => True) a b

/-- How many updates have begun. -/
def begun (g : Gauge σ) : Nat := g.counted + g.opened

variable {a b c d : Gauge σ}

theorem Path.refl (a : Gauge σ) : Path a a := Reaches.start

theorem Path.step {m : Move σ} (h : Path a b) (hm : b.move m = some c) : Path a c :=
  Reaches.next m h trivial hm

theorem Path.trans (hab : Path a b) (hbc : Path b c) : Path a c := by
  induction hbc with
  | start => exact hab
  | next m _ _ hm ih => exact ih.step hm

/-- **What one step can do**: both counts only rise, and without an open update only a beginning one
makes a difference. -/
theorem move_spec {m : Move σ} (h : a.move m = some b) :
    a.counted ≤ b.counted ∧ a.begun ≤ b.begun ∧
      (a.opened = 0 → b.begun = a.begun →
        b.opened = 0 ∧ b.changes = a.changes ∧ b.state = a.state) := by
  cases m with
  | enter =>
    cases h
    simp only [begun]
    exact ⟨le_refl _, by omega, fun _ heq => by omega⟩
  | change new =>
    simp only [move, Option.ite_none_right_eq_some, Option.some.injEq] at h
    obtain ⟨hopen, rfl⟩ := h
    exact ⟨le_refl _, le_refl _, fun hnone => by omega⟩
  | count =>
    simp only [move, Option.ite_none_right_eq_some, Option.some.injEq] at h
    obtain ⟨hopen, rfl⟩ := h
    simp only [begun]
    exact ⟨by omega, by omega, fun hnone => by omega⟩
  | leave =>
    simp only [move, Option.ite_none_right_eq_some, Option.some.injEq] at h
    obtain ⟨-, rfl⟩ := h
    exact ⟨le_refl _, le_refl _, fun hnone _ => ⟨hnone, rfl, rfl⟩⟩

theorem Path.spec (h : Path a b) :
    a.counted ≤ b.counted ∧ a.begun ≤ b.begun ∧
      (a.opened = 0 → b.begun = a.begun →
        b.opened = 0 ∧ b.changes = a.changes ∧ b.state = a.state) := by
  induction h with
  | start => exact ⟨le_refl _, le_refl _, fun hnone _ => ⟨hnone, rfl, rfl⟩⟩
  | next m _ _ hm ih =>
    obtain ⟨hcounted, hbegun, hsame⟩ := ih
    obtain ⟨hcounted', hbegun', hsame'⟩ := move_spec hm
    refine ⟨le_trans hcounted hcounted', le_trans hbegun hbegun', ?_⟩
    intro hnone heq
    obtain ⟨hopen, hchanges, hstate⟩ := hsame hnone (by omega)
    obtain ⟨hopen', hchanges', hstate'⟩ := hsame' hopen (by omega)
    exact ⟨hopen', hchanges'.trans hchanges, hstate'.trans hstate⟩

theorem generation_inj (ha : a.counted < 2 ^ 64) (hb : b.counted < 2 ^ 64)
    (h : a.generation = b.generation) : a.counted = b.counted := by
  have hnat := congrArg UInt64.toNat h
  simp only [generation, UInt64.toNat_ofNat'] at hnat
  rwa [Nat.mod_eq_of_lt ha, Nat.mod_eq_of_lt hb] at hnat

/-- **What a reader may conclude.**  The generation is read at `a`; no update is in progress at `b`
and again at `c`; and at `d` the generation is the same. -/
theorem Path.unchanged {v : Gauge σ} (hab : Path a b) (hbv : Path b v) (hvc : Path v c)
    (hcd : Path c d) (hb : b.inProgress = 0) (hc : c.inProgress = 0) (hd : d.counted < 2 ^ 64)
    (hg : d.generation = a.generation) : c.state = v.state ∧ c.changes = v.changes := by
  have had := (hab.trans (hbv.trans (hvc.trans hcd))).spec.1
  have hcount : d.counted = a.counted := generation_inj hd (lt_of_le_of_lt had hd) hg
  have h₁ := hab.spec.1
  have h₂ := hcd.spec.1
  have h₃ := (hbv.trans hvc).spec.1
  simp only [inProgress, Nat.add_eq_zero_iff] at hb hc
  -- the updates begun at `b` and at `c` are those counted up at `a`
  have hbc : c.begun = b.begun := by
    simp only [begun]
    omega
  have hv : v.begun = b.begun := by
    have h₄ := hbv.spec.2.1
    have h₅ := hvc.spec.2.1
    omega
  obtain ⟨-, hchanges, hstate⟩ := (hbv.trans hvc).spec.2.2 hb.1 hbc
  obtain ⟨-, hchanges', hstate'⟩ := hbv.spec.2.2 hb.1 hv
  exact ⟨hstate.trans hstate'.symm, hchanges.trans hchanges'.symm⟩

end Gauge

end Coincync.Lib
