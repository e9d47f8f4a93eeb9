/-
# Two scripts over two channels

Two parties follow a script each: EMIT a message, or TAKE one.  What one emits the other takes, first
in, first out, and the two are interleaved in any way.  An instruction may fail, and so may the
transport under it; a party that failed does nothing more.
-/
import Coincync.Lib.Runs

namespace Coincync.Lib

variable {σ τ μ ε : Type}

/-! ## 1. Scripts -/

/-- An instruction: emit what the operation makes, or take a message. -/
inductive Instr (σ μ ε : Type)
  | emit (op : σ → Except ε (σ × μ))
  | take (op : σ → μ → σ × Option ε)

/-- A party: its state, what is still to do, and the error it stopped with. -/
structure Party (σ μ ε : Type) where
  state : σ
  todo : List (Instr σ μ ε)
  failure : Option ε

/-- **One instruction**: the party after it, its channel, and what was emitted. -/
def Party.perform (down : ε) (up : Bool) (p : Party σ μ ε) (inbox : List μ) :
    Option (Party σ μ ε × List μ × List μ) :=
  match p.failure, p.todo with
  | some _, _ => none
  | none, [] => none
  | none, .emit op :: rest =>
    match op p.state with
    | .error e => some (⟨p.state, rest, some e⟩, inbox, [])
    | .ok (s, m) =>
      if up = true then some (⟨s, rest, none⟩, inbox, [m])
      else some (⟨s, rest, some down⟩, inbox, [])
  | none, .take op :: rest =>
    if up = true then
      match inbox with
      | [] => none
      | m :: inbox => some (⟨(op p.state m).1, rest, (op p.state m).2⟩, inbox, [])
    else some (⟨p.state, rest, some down⟩, inbox, [])

/-! ## 2. Plans -/

/-- **The plan of a party**: from this state and with this script, fed with `ins` it emits `outs` and
ends at `goal`, unless it stops in a state and with an error that `Stops` allows. -/
inductive Follows (down : ε) (Stops : σ → ε → Prop) (goal : σ) :
    σ → List (Instr σ μ ε) → List μ → List μ → Prop
  | done : Follows down Stops goal goal [] [] []
  | emit {s : σ} {op : σ → Except ε (σ × μ)} {rest : List (Instr σ μ ε)} {ins outs : List μ} {m : μ}
      (stay : Stops s down) (refused : ∀ e, op s = .error e → Stops s e)
      (emitted : ∀ s' m', op s = .ok (s', m') → m' = m)
      (lost : ∀ s' m', op s = .ok (s', m') → Stops s' down)
      (next : ∀ s' m', op s = .ok (s', m') → Follows down Stops goal s' rest ins outs) :
      Follows down Stops goal s (.emit op :: rest) ins (m :: outs)
  | take {s : σ} {op : σ → μ → σ × Option ε} {rest : List (Instr σ μ ε)} {ins outs : List μ} {m : μ}
      (stay : Stops s down) (refused : ∀ e, (op s m).2 = some e → Stops (op s m).1 e)
      (next : (op s m).2 = none → Follows down Stops goal (op s m).1 rest ins outs) :
      Follows down Stops goal s (.take op :: rest) (m :: ins) outs

variable {down : ε} {Stops : σ → ε → Prop} {goal : σ}

/-- A party on its plan: stopped for an allowed reason, or with the rest of the plan before it. -/
def Party.OnPlan (down : ε) (Stops : σ → ε → Prop) (goal : σ) (p : Party σ μ ε) (ins outs : List μ) :
    Prop :=
  match p.failure with
  | some e => Stops p.state e
  | none => Follows down Stops goal p.state p.todo ins outs

namespace Party

variable {p p' : Party σ μ ε} {ins outs inbox inbox' coming sent : List μ} {up : Bool}

theorem OnPlan.stops {e : ε} (h : p.OnPlan down Stops goal ins outs) (hfail : p.failure = some e) :
    Stops p.state e := by
  rw [OnPlan, hfail] at h
  exact h

theorem OnPlan.state_eq (h : p.OnPlan down Stops goal ins outs) :
    p.state = goal ∨ ∃ e, Stops p.state e := by
  obtain ⟨s, todo, failure⟩ := p
  cases failure with
  | some e => exact .inr ⟨e, h.stops rfl⟩
  | none =>
    have hplan : Follows down Stops goal s todo ins outs := h
    cases hplan with
    | done => exact .inl rfl
    | emit stay => exact .inr ⟨down, stay⟩
    | take stay => exact .inr ⟨down, stay⟩

/-- **One instruction keeps a party on its plan.** -/
theorem OnPlan.perform (h : p.OnPlan down Stops goal (inbox ++ coming) outs)
    (hp : p.perform down up inbox = some (p', inbox', sent)) :
    ∃ outs', outs = sent ++ outs' ∧ p'.OnPlan down Stops goal (inbox' ++ coming) outs' := by
  obtain ⟨s, todo, failure⟩ := p
  cases failure with
  | some e => cases hp
  | none =>
    have hplan : Follows down Stops goal s todo (inbox ++ coming) outs := h
    cases todo with
    | nil => cases hp
    | cons instr rest =>
      cases instr with
      | emit op =>
        cases hplan with
        | @emit _ _ _ _ outs m stay refused emitted lost next =>
          cases hop : op s with
          | error e =>
            simp only [Party.perform, hop] at hp
            cases hp
            exact ⟨m :: outs, rfl, refused e hop⟩
          | ok r =>
            obtain ⟨s', m'⟩ := r
            cases up with
            | true =>
              simp only [Party.perform, hop, if_true] at hp
              cases hp
              rw [emitted s' m' hop]
              exact ⟨outs, rfl, next s' m' hop⟩
            | false =>
              simp only [Party.perform, hop, Bool.false_eq_true, if_false] at hp
              cases hp
              exact ⟨m :: outs, rfl, lost s' m' hop⟩
      | take op =>
        cases up with
        | true =>
          cases inbox with
          | nil => cases hp
          | cons m inbox =>
            simp only [Party.perform, if_true] at hp
            cases hp
            refine ⟨outs, rfl, ?_⟩
            cases hplan with
            | take stay refused next =>
              cases hop : (op s m).2 with
              | some e =>
                rw [OnPlan]
                exact refused e hop
              | none =>
                rw [OnPlan]
                exact next hop
        | false =>
          simp only [Party.perform, Bool.false_eq_true, if_false] at hp
          cases hp
          generalize inbox ++ coming = ins at hplan
          cases hplan with
          | take stay => exact ⟨outs, rfl, stay⟩

end Party

/-! ## 3. Dialogues -/

/-- Two parties and the channels between them. -/
structure Dialogue (σ τ μ ε : Type) where
  left : Party σ μ ε
  right : Party τ μ ε
  toLeft : List μ
  toRight : List μ

/-- Whose turn it is. -/
inductive Side
  | left
  | right
  deriving DecidableEq

namespace Dialogue

/-- One instruction of one party; the flag says whether its transport works. -/
def step (down : ε) (d : Dialogue σ τ μ ε) (turn : Side × Bool) : Option (Dialogue σ τ μ ε) :=
  match turn.1 with
  | .left =>
    (d.left.perform down turn.2 d.toLeft).map fun r =>
      { d with left := r.1, toLeft := r.2.1, toRight := d.toRight ++ r.2.2 }
  | .right =>
    (d.right.perform down turn.2 d.toRight).map fun r =>
      { d with right := r.1, toRight := r.2.1, toLeft := d.toLeft ++ r.2.2 }

/-- The start: two scripts and empty channels. -/
def start (s : σ) (script : List (Instr σ μ ε)) (t : τ) (script' : List (Instr τ μ ε)) :
    Dialogue σ τ μ ε :=
  ⟨⟨s, script, none⟩, ⟨t, script', none⟩, [], []⟩

variable {Stops' : τ → ε → Prop} {goal' : τ}

/-- **In step**: both parties are on their plans, and what each has still to take is what lies in its
channel, followed by what the other has still to emit. -/
def InStep (down : ε) (Stops : σ → ε → Prop) (goal : σ) (Stops' : τ → ε → Prop) (goal' : τ)
    (d : Dialogue σ τ μ ε) : Prop :=
  ∃ outs outs', d.left.OnPlan down Stops goal (d.toLeft ++ outs') outs ∧
    d.right.OnPlan down Stops' goal' (d.toRight ++ outs) outs'

/-- **The step lemma.** -/
theorem InStep.step {d d' : Dialogue σ τ μ ε} {turn : Side × Bool}
    (h : d.InStep down Stops goal Stops' goal') (hd : d.step down turn = some d') :
    d'.InStep down Stops goal Stops' goal' := by
  obtain ⟨outs, outs', hleft, hright⟩ := h
  obtain ⟨side, up⟩ := turn
  cases side with
  | left =>
    obtain ⟨⟨p, inbox, sent⟩, hp, rfl⟩ := Option.map_eq_some_iff.mp hd
    obtain ⟨rest, rfl, hleft'⟩ := hleft.perform hp
    exact ⟨rest, outs', hleft', by rwa [List.append_assoc]⟩
  | right =>
    obtain ⟨⟨p, inbox, sent⟩, hp, rfl⟩ := Option.map_eq_some_iff.mp hd
    obtain ⟨rest, rfl, hright'⟩ := hright.perform hp
    exact ⟨outs, rest, by rwa [List.append_assoc], hright'⟩

/-- **Plans that fit hold in every interleaving.** -/
theorem InStep.reaches {s : σ} {t : τ} {script : List (Instr σ μ ε)} {script' : List (Instr τ μ ε)}
    {outs outs' : List μ} (hleft : Follows down Stops goal s script outs' outs)
    (hright : Follows down Stops' goal' t script' outs outs') {d : Dialogue σ τ μ ε}
    (h : Reaches (Dialogue.step down) (fun _ _ => True) (start s script t script') d) :
    d.InStep down Stops goal Stops' goal' := by
  refine Reaches.invariant ?_ ?_ h
  · exact ⟨outs, outs', hleft, hright⟩
  · intro d a d' hd _ hstep
    exact hd.step hstep

end Dialogue

end Coincync.Lib
