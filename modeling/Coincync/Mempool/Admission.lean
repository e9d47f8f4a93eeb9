/-
# Admission against a moving chain

`add_with_chain` of `src/mempool.rs` in small steps, among chain updates and other operations on the
pool, in any interleaving.  A call polls the counters until no update is in progress, validates the
transaction against the chain, takes the pool's write lock, polls the counters again and inserts if
the generation is the one it began with; otherwise it begins another round, four in all.
-/
import Coincync.Lib.Generation
import Coincync.Mempool.Invariant

namespace Coincync

open Lib Option

variable {id : Nat}

/-! ## 1. Calls in small steps -/

def maxChainGenerationAttempts : Nat := 4

/-- Why `add_with_chain` fails. -/
inductive AdmissionError
  | precheck (e : MempoolError)
  | chain (e : TxError)
  | pool (e : MempoolError)
  | stateChanged (attempts : Nat)
  deriving DecidableEq

/-- The chain with its counters. -/
abbrev GuardedChain (G : Type) := Gauge (Blockchain G)

namespace Admission

/-- Where a call stands. -/
inductive Stage (G : Type)
  /-- at the top of a round -/
  | round
  /-- the first load of `stable_generation` found no update -/
  | polled
  /-- the generation is loaded -/
  | loaded (read : GuardedChain G)
  /-- the third load found no update: the generation is stable -/
  | stable (read : GuardedChain G)
  /-- validated against the chain as it was then -/
  | judged (read seen : GuardedChain G) (verdict : Except TxError Unit)
  /-- the write lock is held -/
  | locked (read seen : GuardedChain G) (verdict : Except TxError Unit) (held : Mempool G)
  /-- the first load of the second `stable_generation` found no update -/
  | repolled (read seen checked : GuardedChain G) (verdict : Except TxError Unit)
      (held : Mempool G)
  /-- the generation is loaded again -/
  | reloaded (read seen checked reread : GuardedChain G) (verdict : Except TxError Unit)
      (held : Mempool G)
  /-- the generation is stable and the same, and the verdict was good -/
  | cleared (seen checked : GuardedChain G) (held : Mempool G)
  | returned (result : Except AdmissionError Hash)

/-- A call of `add_with_chain`. -/
structure Call (G : Type) where
  tx : Transaction G
  rounds : Nat
  stage : Stage G

/-- A transaction that went into the pool: the chain when it was validated, when the second poll
began and when it was inserted, and the pool at the last two. -/
structure Admitted (G : Type) where
  tx : Transaction G
  seen : GuardedChain G
  checked : GuardedChain G
  inserted : GuardedChain G
  poolChecked : Mempool G
  poolInserted : Mempool G

/-- Everything: the chain, the pool with its write lock, and the calls under way. -/
structure World (G : Type) where
  chain : GuardedChain G
  pool : Mempool G
  lock : Option Nat
  calls : Nat → Option (Call G)
  admitted : List (Admitted G)

/-- What can happen next. -/
inductive Event (G : Type)
  | chain (m : Gauge.Move (Blockchain G))
  | pool (op : Mempool.Op G)
  | submit (id : Nat) (tx : Transaction G)
  | proceed (id : Nat) (ctx : CallContext G) (now : Nat)

section

variable {G : Type}

/-- The rest of a round that found the chain moving. -/
def Call.retry (c : Call G) : Call G :=
  if c.rounds ≤ 1 then
    { c with stage := .returned (.error (.stateChanged maxChainGenerationAttempts)) }
  else { c with rounds := c.rounds - 1, stage := .round }

/-- Nothing is under way. -/
def World.start (st : Blockchain G) (pool : Mempool G) : World G :=
  ⟨.start st, pool, none, fun _ => none, []⟩

/-- File a call. -/
def World.put (w : World G) (id : Nat) (c : Call G) : World G :=
  { w with calls := Function.update w.calls id (some c) }

/-- File a call and give the lock back. -/
def World.unlock (w : World G) (id : Nat) (c : Call G) : World G :=
  { w.put id c with lock := none }

end

variable {F G : Type} [Field F] [AddCommGroup G] [Module F G] [DecidableEq F] [DecidableEq G]
  (S : Suite F G) (cfg : NodeConfig)

/-- The last step of a call: `mempool.add`, and the lock goes back. -/
def World.insert (w : World G) (id : Nat) (c : Call G) (seen checked : GuardedChain G)
    (held : Mempool G) (ctx : CallContext G) (now : Nat) : World G :=
  let r := w.pool.add S ctx c.tx now
  let entered := (w.pool.transactions.lookup (c.tx.hash S)).isNone && r.2.isOk
  { w.unlock id { c with stage := .returned (r.2.mapError .pool) } with
    pool := r.1
    admitted :=
      if entered = true then ⟨c.tx, seen, checked, w.chain, held, w.pool⟩ :: w.admitted
      else w.admitted }

/-- The next step of a call. -/
def World.proceed (w : World G) (id : Nat) (c : Call G) (ctx : CallContext G) (now : Nat) :
    Option (World G) :=
  let calm := decide (w.chain.inProgress = 0)
  match c.stage with
  | .round => some (w.put id (if calm = true then { c with stage := .polled } else c.retry))
  | .polled => some (w.put id { c with stage := .loaded w.chain })
  | .loaded read =>
    some (w.put id (if calm = true then { c with stage := .stable read } else c.retry))
  | .stable read =>
    let verdict := w.chain.state.validateTransaction S cfg ctx c.tx
    some (w.put id { c with stage := .judged read w.chain verdict })
  | .judged read seen verdict =>
    if w.lock = none then
      some { w.put id { c with stage := .locked read seen verdict w.pool } with lock := some id }
    else none
  | .locked read seen verdict held =>
    if calm = true then
      some (w.put id { c with stage := .repolled read seen w.chain verdict held })
    else some (w.unlock id c.retry)
  | .repolled read seen checked verdict held =>
    some (w.put id { c with stage := .reloaded read seen checked w.chain verdict held })
  | .reloaded read seen checked reread verdict held =>
    if calm = true ∧ reread.generation = read.generation then
      match verdict with
      | .error e => some (w.unlock id { c with stage := .returned (.error (.chain e)) })
      | .ok () => some (w.put id { c with stage := .cleared seen checked held })
    else some (w.unlock id c.retry)
  | .cleared seen checked held => some (w.insert S id c seen checked held ctx now)
  | .returned _ => none

/-- One event.  Other operations on the pool take the write lock for themselves. -/
def World.step (w : World G) : Event G → Option (World G)
  | .chain m => (w.chain.move m).map fun chain => { w with chain := chain }
  | .pool op =>
    if w.lock = none then (w.pool.step S op).map fun pool => { w with pool := pool } else none
  | .submit id tx =>
    match w.calls id with
    | some _ => none
    | none =>
      match Mempool.preflightCheck S tx with
      | .error e => some (w.put id ⟨tx, 0, .returned (.error (.precheck e))⟩)
      | .ok () => some (w.put id ⟨tx, maxChainGenerationAttempts, .round⟩)
  | .proceed id ctx now =>
    match w.calls id with
    | none => none
    | some c => w.proceed S cfg id c ctx now

/-! ## 2. What a call knows -/

/-- The transaction was found valid against a state of the chain. -/
def Valid (st : Blockchain G) (tx : Transaction G) (verdict : Except TxError Unit) : Prop :=
  ∃ ctx, st.validateTransaction S cfg ctx tx = verdict

/-- Between the first reading and the validation no update was in progress at some moment. -/
def Calm (read seen : GuardedChain G) : Prop :=
  ∃ calm : GuardedChain G, read.Path calm ∧ calm.inProgress = 0 ∧ calm.Path seen

/-- **What a call knows about the chain**, whose present state is `now`. -/
def Stage.Knows (tx : Transaction G) (now : GuardedChain G) : Stage G → Prop
  | .round | .polled | .returned _ => True
  | .loaded read => read.Path now
  | .stable read => Calm read now
  | .judged read seen verdict | .locked read seen verdict _ =>
    Calm read seen ∧ seen.Path now ∧ Valid S cfg seen.state tx verdict
  | .repolled read seen checked verdict _ =>
    Calm read seen ∧ seen.Path checked ∧ checked.inProgress = 0 ∧ checked.Path now ∧
      Valid S cfg seen.state tx verdict
  | .reloaded read seen checked reread verdict _ =>
    Calm read seen ∧ seen.Path checked ∧ checked.inProgress = 0 ∧ checked.Path reread ∧
      reread.Path now ∧ Valid S cfg seen.state tx verdict
  | .cleared seen checked _ =>
    seen.Path checked ∧ checked.Path now ∧ Valid S cfg seen.state tx (.ok ()) ∧
      (now.counted < 2 ^ 64 → checked.state = seen.state ∧ checked.changes = seen.changes)

/-- The pool as it was when the call took the lock. -/
def Stage.held : Stage G → Option (Mempool G)
  | .locked _ _ _ held | .repolled _ _ _ _ held | .reloaded _ _ _ _ _ held | .cleared _ _ held =>
    some held
  | _ => none

/-- **What is known about a transaction that went in.** -/
structure Admitted.Fair (now : GuardedChain G) (r : Admitted G) : Prop where
  valid : Valid S cfg r.seen.state r.tx (.ok ())
  seen_checked : r.seen.Path r.checked
  checked_inserted : r.checked.Path r.inserted
  inserted_now : r.inserted.Path now
  unchanged : now.counted < 2 ^ 64 →
    r.checked.state = r.seen.state ∧ r.checked.changes = r.seen.changes
  pool : r.poolInserted = r.poolChecked

/-- **The invariant of every interleaving.** -/
structure World.Sound (w : World G) : Prop where
  knows : ∀ id c, w.calls id = some c → c.stage.Knows S cfg c.tx w.chain
  holds : ∀ id c held, w.calls id = some c → c.stage.held = some held →
    w.lock = some id ∧ w.pool = held
  fair : ∀ r ∈ w.admitted, r.Fair S cfg w.chain

variable {S cfg} {w w' : World G} {now now' : GuardedChain G} {tx : Transaction G}

theorem Stage.Knows.later {stage : Stage G} (h : stage.Knows S cfg tx now)
    (hp : now.Path now') : stage.Knows S cfg tx now' := by
  cases stage with
  | round | polled | returned => trivial
  | loaded read => exact Gauge.Path.trans h hp
  | stable read =>
    obtain ⟨calm, hread, hcalm, hnow⟩ := h
    exact ⟨calm, hread, hcalm, hnow.trans hp⟩
  | judged | locked =>
    obtain ⟨hcalm, hseen, hvalid⟩ := h
    exact ⟨hcalm, hseen.trans hp, hvalid⟩
  | repolled read seen checked verdict held =>
    obtain ⟨hcalm, hseen, hzero, hchecked, hvalid⟩ := h
    exact ⟨hcalm, hseen, hzero, hchecked.trans hp, hvalid⟩
  | reloaded read seen checked reread verdict held =>
    obtain ⟨hcalm, hseen, hzero, hchecked, hreread, hvalid⟩ := h
    exact ⟨hcalm, hseen, hzero, hchecked, hreread.trans hp, hvalid⟩
  | cleared seen checked held =>
    obtain ⟨hseen, hchecked, hvalid, hsame⟩ := h
    exact ⟨hseen, hchecked.trans hp, hvalid, fun hend => hsame (lt_of_le_of_lt hp.spec.1 hend)⟩

theorem Admitted.Fair.later {r : Admitted G} (h : r.Fair S cfg now) (hp : now.Path now') :
    r.Fair S cfg now' where
  valid := h.valid
  seen_checked := h.seen_checked
  checked_inserted := h.checked_inserted
  inserted_now := h.inserted_now.trans hp
  unchanged hend := h.unchanged (lt_of_le_of_lt hp.spec.1 hend)
  pool := h.pool

theorem knows_retry (c : Call G) : c.retry.stage.Knows S cfg c.retry.tx now := by
  unfold Call.retry
  split_ifs
  · trivial
  · trivial

omit [AddCommGroup G] [DecidableEq G] in
theorem held_retry (c : Call G) : c.retry.stage.held = none := by
  unfold Call.retry
  split_ifs
  · rfl
  · rfl

/-! ## 3. One event -/

variable {c : Call G}

section

variable (h : w.Sound S cfg)

include h

theorem World.Sound.put (hknows : c.stage.Knows S cfg c.tx w.chain)
    (hholds : ∀ held, c.stage.held = some held → w.lock = some id ∧ w.pool = held) :
    (w.put id c).Sound S cfg where
  knows id' c' hc' := by
    simp only [World.put, Function.update_apply] at hc'
    split_ifs at hc' with hid
    · cases hc'
      exact hknows
    · exact h.knows id' c' hc'
  holds id' c' held hc' hheld := by
    simp only [World.put, Function.update_apply] at hc'
    split_ifs at hc' with hid
    · cases hc'
      subst hid
      exact hholds held hheld
    · exact h.holds id' c' held hc' hheld
  fair := h.fair

theorem World.Sound.put_free (hknows : c.stage.Knows S cfg c.tx w.chain)
    (hfree : c.stage.held = none) : (w.put id c).Sound S cfg :=
  h.put hknows fun held hheld => by rw [hfree] at hheld; cases hheld

theorem World.Sound.of_unlocked (hlock : w.lock = none) (pool : Mempool G) (lock : Option Nat) :
    ({ w with pool := pool, lock := lock } : World G).Sound S cfg where
  knows := h.knows
  holds id c held hc hheld := by
    have := (h.holds id c held hc hheld).1
    rw [hlock] at this
    cases this
  fair := h.fair

theorem World.Sound.unlock (hlock : w.lock = some id) (hknows : c.stage.Knows S cfg c.tx w.chain)
    (hfree : c.stage.held = none) : (w.unlock id c).Sound S cfg where
  knows := (h.put_free hknows hfree).knows
  holds id' c' held hc' hheld := by
    -- another holder is not possible
    simp only [World.unlock, World.put, Function.update_apply] at hc'
    split_ifs at hc' with hid
    · cases hc'
      rw [hfree] at hheld
      cases hheld
    · have hother := (h.holds id' c' held hc' hheld).1
      rw [hlock] at hother
      exact absurd (Option.some.inj hother).symm hid
  fair := h.fair

omit h in
/-- **The re-check.**  A stable generation that is the same as before says that the chain was not
changed between the validation and the second poll. -/
theorem cleared_of_reloaded {read seen checked reread : GuardedChain G} {held : Mempool G}
    (h : (Stage.reloaded read seen checked reread (.ok ()) held).Knows S cfg tx now)
    (hsame : reread.generation = read.generation) :
    (Stage.cleared seen checked held).Knows S cfg tx now := by
  obtain ⟨⟨calm, hread, hcalm, hseen⟩, hchecked, hzero, hreread, hnow, hvalid⟩ := h
  refine ⟨hchecked, hreread.trans hnow, hvalid, fun hend => ?_⟩
  exact hread.unchanged hseen hchecked hreread hcalm hzero (lt_of_le_of_lt hnow.spec.1 hend) hsame

variable {ctx : CallContext G}

/-- **The insertion.** -/
theorem World.Sound.insert {seen checked : GuardedChain G} {held : Mempool G}
    {time : Nat} (hc : w.calls id = some c) (hstage : c.stage = .cleared seen checked held) :
    (w.insert S id c seen checked held ctx time).Sound S cfg := by
  have hknows := h.knows id c hc
  rw [hstage] at hknows
  obtain ⟨hseen, hchecked, hvalid, hsame⟩ := hknows
  obtain ⟨hlock, hpool⟩ := h.holds id c held hc (by rw [hstage]; rfl)
  have hbase := (h.unlock (c := { c with
    stage := .returned ((w.pool.add S ctx c.tx time).2.mapError .pool) }) hlock trivial
    rfl).of_unlocked rfl (w.pool.add S ctx c.tx time).1 none
  refine ⟨hbase.knows, hbase.holds, ?_⟩
  intro r hr
  simp only [World.insert] at hr
  split_ifs at hr
  · rcases List.mem_cons.mp hr with rfl | hr
    · exact ⟨hvalid, hseen, hchecked, .refl _, hsame, hpool⟩
    · exact h.fair r hr
  · exact h.fair r hr

/-- **The next step of a call keeps the invariant.** -/
theorem World.Sound.proceed {time : Nat} (hc : w.calls id = some c)
    (hstep : w.proceed S cfg id c ctx time = some w') : w'.Sound S cfg := by
  have hknows := h.knows id c hc
  have hholds := h.holds id c
  obtain ⟨tx, left, stage⟩ := c
  simp only [World.proceed] at hstep
  cases stage with
  | round =>
    cases hstep
    split_ifs
    · exact h.put_free trivial rfl
    · exact h.put_free (knows_retry _) (held_retry _)
  | polled =>
    cases hstep
    exact h.put_free (Gauge.Path.refl w.chain) rfl
  | loaded read =>
    cases hstep
    split_ifs with hcalm
    · refine h.put_free ?_ rfl
      exact ⟨w.chain, hknows, of_decide_eq_true hcalm, .refl _⟩
    · exact h.put_free (knows_retry _) (held_retry _)
  | stable read =>
    cases hstep
    exact h.put_free ⟨hknows, .refl _, ctx, rfl⟩ rfl
  | judged read seen verdict =>
    dsimp only at hstep
    split_ifs at hstep with hlock
    cases hstep
    refine (h.of_unlocked hlock w.pool (some id)).put hknows ?_
    rintro held ⟨⟩
    exact ⟨rfl, rfl⟩
  | locked read seen verdict held =>
    obtain ⟨hlock, hpool⟩ := hholds held hc rfl
    obtain ⟨hcalm, hseen, hvalid⟩ := hknows
    dsimp only at hstep
    split_ifs at hstep with hzero
    · cases hstep
      refine h.put ⟨hcalm, hseen, of_decide_eq_true hzero, .refl _, hvalid⟩ ?_
      rintro held' ⟨⟩
      exact ⟨hlock, hpool⟩
    · cases hstep
      exact h.unlock hlock (knows_retry _) (held_retry _)
  | repolled read seen checked verdict held =>
    obtain ⟨hlock, hpool⟩ := hholds held hc rfl
    obtain ⟨hcalm, hseen, hzero, hchecked, hvalid⟩ := hknows
    cases hstep
    refine h.put ⟨hcalm, hseen, hzero, hchecked, .refl _, hvalid⟩ ?_
    rintro held' ⟨⟩
    exact ⟨hlock, hpool⟩
  | reloaded read seen checked reread verdict held =>
    obtain ⟨hlock, hpool⟩ := hholds held hc rfl
    dsimp only at hstep
    split_ifs at hstep with hsame
    · cases verdict with
      | error e =>
        cases hstep
        exact h.unlock hlock trivial rfl
      | ok u =>
        cases hstep
        refine h.put (cleared_of_reloaded hknows hsame.2) ?_
        rintro held' ⟨⟩
        exact ⟨hlock, hpool⟩
    · cases hstep
      exact h.unlock hlock (knows_retry _) (held_retry _)
  | cleared seen checked held =>
    cases hstep
    exact h.insert hc rfl
  | returned result =>
    cases hstep

/-- **Every event keeps the invariant.** -/
theorem World.Sound.step {e : Event G} (hstep : w.step S cfg e = some w') : w'.Sound S cfg := by
  cases e with
  | chain m =>
    simp only [World.step, map_eq_some_iff] at hstep
    obtain ⟨chain, hmove, rfl⟩ := hstep
    have hp : w.chain.Path chain := (Gauge.Path.refl _).step hmove
    exact ⟨fun id c hc => (h.knows id c hc).later hp, h.holds, fun r hr => (h.fair r hr).later hp⟩
  | pool op =>
    simp only [World.step, ite_none_right_eq_some, map_eq_some_iff] at hstep
    obtain ⟨hlock, pool, -, rfl⟩ := hstep
    exact h.of_unlocked hlock pool w.lock
  | submit id tx =>
    simp only [World.step] at hstep
    split at hstep
    · cases hstep
    · split at hstep
      · cases hstep
        exact h.put_free trivial rfl
      · cases hstep
        exact h.put_free trivial rfl
  | proceed id ctx time =>
    simp only [World.step] at hstep
    split at hstep
    · cases hstep
    · rename_i c hc
      exact h.proceed hc hstep

end

/-- **What the re-check gives, in every interleaving.** -/
theorem admitted_current_at_recheck {st : Blockchain G} {pool : Mempool G}
    (hrun : Reaches (World.step S cfg) (fun _ _ => True) (World.start st pool) w)
    (hupdates : w.chain.counted < 2 ^ 64) {r : Admitted G} (hr : r ∈ w.admitted) :
    (∃ ctx, r.seen.state.validateTransaction S cfg ctx r.tx = .ok ()) ∧
      r.seen.Path r.checked ∧ r.checked.Path r.inserted ∧
      r.checked.state = r.seen.state ∧ r.checked.changes = r.seen.changes ∧
      r.poolInserted = r.poolChecked := by
  have hsound : w.Sound S cfg :=
    hrun.invariant ⟨fun _ _ h => (by cases h), fun _ _ _ h => (by cases h), fun _ h => by cases h⟩
      fun _ _ _ hs _ hstep => hs.step hstep
  have hfair := hsound.fair r hr
  obtain ⟨hstate, hchanges⟩ := hfair.unchanged hupdates
  exact ⟨hfair.valid, hfair.seen_checked, hfair.checked_inserted, hstate, hchanges, hfair.pool⟩

end Admission

namespace SmallChain

open SmallSuite Blockchain Admission

def aged : List (Block Z) :=
  [32, 33, 34, 35, 36, 37, 38, 39, 40].foldl
    (fun chain address =>
      emptyChild (chain.headD genesis) (nextTarget chain.reverse) address :: chain)
    [split1, genesis]

/-- A node with the first `n` of these blocks. -/
def agedNode (n : Nat) : Option (Blockchain Z) :=
  ranOn ((aged.reverse.tail.take n).map (.add fun _ => hitCtx))

/-- The node with all ten, rolled back by one block. -/
def rolledNode : Option (Blockchain Z) :=
  (agedNode 10).bind fun st => st.step suite cfg (.rollback 9)

/-- `n` steps of the one call. -/
def steps (n : Nat) : List (Event Z) := List.replicate n (.proceed 0 hitCtx 1000)

/-- A whole update. -/
def updating (st : Blockchain Z) : List (Event Z) :=
  [.chain .enter, .chain (.change st), .chain .count, .chain .leave]

def overtaken (st : Blockchain Z) : List (Event Z) :=
  .submit 0 maturedSpend :: (steps 8 ++ updating st ++ steps 1)

def repeated (st : Blockchain Z) : List (Event Z) :=
  .submit 0 maturedSpend :: (steps 4 ++ updating st ++ steps 4 ++ steps 9)

/-- What these events lead to from a node. -/
def eventful (st : Blockchain Z) (events : List (Event Z)) : Option (World Z) :=
  run (World.step suite cfg) (fun _ _ => true) (World.start st (.withMaxSize 100000)) events

def Outcome (heights changes : Nat × Nat) (verdict : Except TxError Unit) (w : World Z) : Prop :=
  w.chain.counted = 1 ∧ ∃ r ∈ w.admitted,
    (r.seen.state.tip.height, r.inserted.state.tip.height) = heights ∧
    (r.seen.changes, r.inserted.changes) = changes ∧
    r.inserted.state.validateTransaction suite cfg hitCtx r.tx = verdict

instance (heights changes : Nat × Nat) (verdict : Except TxError Unit) (w : World Z) :
    Decidable (Outcome heights changes verdict w) :=
  inferInstanceAs (Decidable (_ ∧ _))

theorem aged_runs :
    ((agedNode 9).any fun st₉ => (agedNode 10).any fun st₁₀ => rolledNode.any fun rolled =>
      ((eventful st₉ (repeated st₁₀)).any fun w =>
        decide (Outcome (10, 10) (1, 1) (.ok ()) w)) &&
      (eventful st₁₀ (overtaken rolled)).any fun w =>
        decide (Outcome (10, 9) (0, 1) (.error (.immatureCoinbase 0 0 1 9 10)) w)) = true := by
  decide +kernel

/-- **A transfer that goes in although the chain was changed after the last poll**: it was valid
at height 10, and after a rollback to height 9 the outputs it spends are immature. -/
theorem admitted_after_change :
    ∃ st st' w, agedNode 10 = some st ∧ st.step suite cfg (.rollback 9) = some st' ∧
      eventful st (overtaken st') = some w ∧
      ∃ r ∈ w.admitted, r.seen.state.tip.height = 10 ∧ r.inserted.state.tip.height = 9 ∧
        r.inserted.changes = r.seen.changes + 1 ∧
        r.inserted.state.validateTransaction suite cfg hitCtx r.tx =
          .error (.immatureCoinbase 0 0 1 9 10) := by
  obtain ⟨st₉, -, h⟩ := (any_eq_true _ _).mp aged_runs
  obtain ⟨st₁₀, h₁₀, h⟩ := (any_eq_true _ _).mp h
  obtain ⟨rolled, hrolled, h⟩ := (any_eq_true _ _).mp h
  obtain ⟨w, hw, hout⟩ := (any_eq_true _ _).mp (Bool.and_eq_true_iff.mp h).2
  obtain ⟨-, r, hr, hheights, hchanges, hverdict⟩ := of_decide_eq_true hout
  have hseen : r.seen.changes = 0 := congrArg Prod.fst hchanges
  have hinserted : r.inserted.changes = 1 := congrArg Prod.snd hchanges
  rw [rolledNode, h₁₀] at hrolled
  exact ⟨st₁₀, rolled, w, h₁₀, hrolled, hw, r, hr, congrArg Prod.fst hheights,
    congrArg Prod.snd hheights, by rw [hseen, hinserted], hverdict⟩

/-- **A transfer whose first round came to nothing**: the chain grew after the validation, and the
second round validated it against the longer chain. -/
theorem readmitted_current_at_recheck :
    ∃ st st' w, agedNode 9 = some st ∧ agedNode 10 = some st' ∧
      eventful st (repeated st') = some w ∧
      ∃ r ∈ w.admitted, r.seen.state.tip.height = 10 ∧ r.checked.state = r.seen.state ∧
        r.checked.changes = r.seen.changes := by
  obtain ⟨st₉, h₉, h⟩ := (any_eq_true _ _).mp aged_runs
  obtain ⟨st₁₀, h₁₀, h⟩ := (any_eq_true _ _).mp h
  obtain ⟨rolled, -, h⟩ := (any_eq_true _ _).mp h
  obtain ⟨w, hw, hout⟩ := (any_eq_true _ _).mp (Bool.and_eq_true_iff.mp h).1
  obtain ⟨hcounted, r, hr, hheights, -, -⟩ := of_decide_eq_true hout
  obtain ⟨-, -, -, hstate, hchanges, -⟩ :=
    admitted_current_at_recheck (.run (fun _ _ _ => trivial) .start hw) (by rw [hcounted]; decide) hr
  exact ⟨st₉, st₁₀, w, h₉, h₁₀, hw, r, hr, congrArg Prod.fst hheights, hstate, hchanges⟩

end SmallChain

end Coincync
