/-
# Honest headers are accepted

`validate_header_batch` does not call the block validator: it has its own copy of the header rules
and its own walk back for the two windows.  The copy and `add_block` agree in one direction, for
every stored tree and every batch: where the blocks would pass the header rules of `add_block` one
after the other, the headers pass as a batch (`honest_batch_accepted`).
-/
import Coincync.Network.Headers

namespace Coincync

open Lib Blockchain List Option Except

variable {F G : Type} [Field F] [AddCommGroup G] [Module F G] {S : Suite F G}

/-! ## 1. The header rules of `add_block` -/

/-- **The header rules of `add_block`** for a block on top of `p`: network magic, version, height,
parent hash and timestamp against the parent, checkpoint vote, median time past of the lineage, the
exact target from the window of the lineage, and proof of work. -/
structure HeaderRules (S : Suite F G) (cfg : NodeConfig) (randomxUp : Bool) (st : Blockchain G)
    (p b : Block G) : Prop where
  parent : st.getBlock b.header.prevHash = some p
  height : b.height = p.height + 1
  magic : checkBlockNetworkMagic b st.network = []
  version : checkHeaderVersionMin b.header = []
  prev : checkHeaderVsPrev S b.header (some p.header) = []
  vote : checkHeaderCheckpointVote b.header = []
  mtp : st.mtpViolation b = none
  target : wrongTarget (lineageWindow (st.lineageOf S b).tail) b = none
  pow : verifyHeaderPow S cfg randomxUp (p.header.hash S) b.header = .ok ()

/-- **The blocks pass in order**, each on the chain with the earlier ones stored. -/
def PassInOrder (S : Suite F G) (cfg : NodeConfig) (randomxUp : Nat → Bool) :
    Nat → Blockchain G → List (Block G) → Prop
  | _, _, [] => True
  | index, st, b :: rest =>
    (∃ p, HeaderRules S cfg (randomxUp index) st p b) ∧
      PassInOrder S cfg randomxUp (index + 1) (st.storeBlock S b) rest

section

variable {cfg : NodeConfig} {randomxUp : Bool} {st cur : Blockchain G} {root b p : Block G}
  {accepted : Map Hash BlockHeader}

/-- **What `add_block` admits follows the rules**, where the target is the one of the lineage window
and the proof of work was checked. -/
theorem HeaderRules.of_admitted [DecidableEq F] [DecidableEq G] {ctx : CallContext G}
    (hadm : Admitted S cfg ctx st b) (h0 : 0 < b.height)
    (htarget : wrongTarget (lineageWindow (st.lineageOf S b).tail) b = none)
    (hpow : verifyHeaderPow S cfg ctx.randomxUp b.header.prevHash b.header = .ok ()) :
    ∃ p, HeaderRules S cfg ctx.randomxUp st p b := by
  obtain hzero | ⟨p, hp, hheight⟩ := hadm.parent
  · omega
  · have hchecks := (validateBlock_valid_iff S).mp hadm.valid
    have hheader := hchecks.header
    rw [hp] at hheader
    simp only [validateHeader, map_some, append_eq_nil_iff] at hheader
    obtain ⟨⟨⟨hversion, hprev⟩, hvote⟩, -⟩ := hheader
    have hhash : b.header.prevHash = p.header.hash S := by
      simp only [checkHeaderVsPrev, append_eq_nil_iff, errorUnless_eq_nil_iff] at hprev
      exact hprev.1.2
    exact ⟨p, hp, hheight, hchecks.magic, hversion, hprev, hvote, hadm.mtp, htarget, hhash ▸ hpow⟩

/-! ## 2. Lookups -/

theorem getBlock_storeBlock (st : Blockchain G) (b : Block G) (k : Hash) :
    (st.storeBlock S b).getBlock k = if k = b.hash S then some b else st.getBlock k := by
  rw [getBlock]
  change ((st.blocks.insert (b.hash S) b).lookup k).or _ = _
  rw [Map.lookup_insert_ite]
  split_ifs with hk
  · rfl
  · rw [getBlock]
    cases hdb : st.db with
    | none => simp [storeBlock, modifyDb, hdb]
    | some d => simp [storeBlock, modifyDb, hdb, hk]

variable (hlook : ∀ k, headerAt st accepted k = (cur.getBlock k).map Block.header)

include hlook in
/-- **One header more in the batch is one block more in the store**, for the walk. -/
theorem headerAt_insert (b : Block G) (k : Hash) :
    headerAt st (accepted.insert (b.header.hash S) b.header) k =
      ((cur.storeBlock S b).getBlock k).map Block.header := by
  rw [getBlock_storeBlock, headerAt, Map.lookup_insert_ite, Block.hash]
  split_ifs with hk
  · rfl
  · exact hlook k

/-- **The walk along a stored lineage** gathers its nearest headers. -/
theorem walk_eq {look : Hash → Option BlockHeader}
    (hlook : ∀ k, look k = (st.getBlock k).map Block.header) :
    ∀ (n : Nat) {p : Block G} {rest : List (Block G)}, Lineage (blockLinks S) root (p :: rest) →
      Stored (blockLinks S) st.getBlock (p :: rest) →
      BlockHeader.walk look n (p.hash S) = .ok (((p :: rest).take n).map Block.header)
  | 0, _, _, _, _ => rfl
  | n + 1, p, rest, hl, hs => by
    have hp : st.getBlock (p.hash S) = some p := hs p (.head _)
    have hzero : p.header.height = 0 ↔ p.height = 0 := by
      rw [Block.height, ← UInt64.toNat_inj]
      rfl
    rw [BlockHeader.walk, hlook, hp, map_some]
    dsimp only
    cases hl with
    | root h0 =>
      rw [if_pos (hzero.mpr h0)]
      simp
    | @cons _ q rest hlink hheight hl =>
      have hne : ¬p.height = 0 := by
        have hheight' : p.height = q.height + 1 := hheight
        omega
      have hprev : p.header.prevHash = q.hash S := hlink
      rw [if_neg fun h => hne (hzero.mp h), hprev,
        walk_eq hlook n hl (hs.sublist fun x hx => .tail _ hx)]
      rfl

variable {rest : List (Block G)}

include hlook in
/-- **The history of a header is the window of its lineage.** -/
theorem headerHistory_eq (hl : Lineage (blockLinks S) root (p :: rest))
    (hs : Stored (blockLinks S) cur.getBlock (p :: rest)) :
    headerHistory st accepted (p.hash S) = .ok (lineageWindow (p :: rest)) := by
  rw [headerHistory, walk_eq hlook difficultyLongWindow hl hs]
  dsimp only
  rw [← map_reverse, List.map_map]
  rfl

/-! ## 3. One header -/

theorem HeaderRules.checkAgainstParent_eq (h : HeaderRules S cfg randomxUp st p b) :
    checkAgainstParent S st.network p.header b.header = .ok () := by
  have hprev := h.prev
  have hversion := h.version
  have hheight : b.header.height.toNat = p.header.height.toNat + 1 := h.height
  simp only [checkHeaderVsPrev, checkHeaderVersionMin, append_eq_nil_iff,
    errorUnless_eq_nil_iff] at hprev hversion
  obtain ⟨⟨⟨hdown, hnext⟩, -⟩, htime⟩ := hprev
  simp only [checkAgainstParent, bind_ok_iff, require_ok_iff]
  refine ⟨?_, hnext, ?_, UInt64.not_le.mpr htime, ?_, ?_⟩
  · rw [← hheight]
    exact b.header.height.toNat_lt
  · rintro (hlt | hlt)
    · exact UInt8.not_lt.mpr hversion hlt
    · exact UInt8.not_lt.mpr hdown hlt
  · intro vote hvote
    have hcheck := h.vote
    rw [mem_def] at hvote
    simp only [checkHeaderCheckpointVote, hvote, errorUnless_eq_nil_iff] at hcheck
    exact UInt64.not_le.mpr hcheck
  · rw [verifyCheckpoint_eq_none (by omega)]
    exact some_ne_none _ ∘ Eq.symm

omit [AddCommGroup G] in
theorem medianOf_lineageWindow {anc : List (Block G)} (hlen : mtpWindow ≤ anc.length) :
    medianOf (lineageWindow anc) = (medianTimePast anc).map UInt64.toNat := by
  have htake : ((lineageWindow anc).reverse.take mtpWindow).map DifficultyBlock.timestamp =
      ((anc.take mtpWindow).map fun a => a.header.timestamp).map UInt64.toNat := by
    rw [lineageWindow, ← map_reverse, reverse_reverse, ← map_take, take_take,
      List.map_map, List.map_map]
    rfl
  have hlength : ¬((anc.take mtpWindow).map fun a => a.header.timestamp).length < mtpWindow := by
    simp [hlen]
  have hsort : ∀ l : List UInt64, (l.map UInt64.toNat).mergeSort (fun a b => decide (a ≤ b)) =
      (l.mergeSort fun a b => decide (a ≤ b)).map UInt64.toNat := by
    intro l
    refine (map_mergeSort fun a _ b _ => ?_).symm
    rw [decide_eq_decide, UInt64.le_iff_toNat_le]
  rw [medianOf, medianTimePast, htake, if_neg hlength, hsort, getElem?_map, length_map]

theorem HeaderRules.checkAgainstHistory_eq
    (h : HeaderRules S cfg randomxUp st p b) (hl : Lineage (blockLinks S) root (b :: p :: rest))
    (hs : Stored (blockLinks S) st.getBlock (p :: rest))
    (hlineage : st.lineageOf S b = b :: p :: rest) :
    checkAgainstHistory (lineageWindow (p :: rest)) b.header = .ok () := by
  have hlen : (p :: rest).length = b.height := hl.length_eq
  have hprev : b.header.prevHash = p.hash S := by
    cases hl with
    | cons hlink _ _ => exact hlink
  simp only [checkAgainstHistory, bind_ok_iff, checkIf_ok_iff, decide_eq_true_eq,
    require_ok_iff, length_lineageWindow]
  constructor
  · intro hold median hmedian
    have hold' : mtpWindow ≤ (p :: rest).length := (Nat.le_min.mp hold).2
    rw [medianOf_lineageWindow hold', mem_def, map_eq_some_iff] at hmedian
    obtain ⟨mtp, hmtp, rfl⟩ := hmedian
    have hrule := h.mtp
    rw [mtpViolation, if_neg (by omega), medianTimePastOfLineage, hprev,
      lineageTimestamps_eq hl.tail hs hold'] at hrule
    change (medianTimePast (p :: rest)).filter _ = none at hrule
    rw [hmtp, filter_some] at hrule
    rw [← UInt64.le_iff_toNat_le]
    intro hle
    simp [hle] at hrule
  · intro htwo
    have hrule := h.target
    rw [hlineage, tail_cons, wrongTarget, length_lineageWindow, if_neg (by omega)] at hrule
    by_contra hne
    exact absurd ((if_neg hne).symm.trans hrule) (some_ne_none _)

/-- **A header that follows the rules passes.** -/
theorem HeaderRules.checkBatchHeader_eq {previous : Option (BlockHeader × Hash)}
    (h : HeaderRules S cfg randomxUp cur p b) (hclosed : Closed (blockLinks S) root cur.getBlock)
    (hnet : cur.network = st.network)
    (hlook : ∀ k, headerAt st accepted k = (cur.getBlock k).map Block.header)
    (hparent : batchParent st previous b.header = .ok p.header) :
    checkBatchHeader S cfg randomxUp st previous accepted b.header = .ok () := by
  obtain ⟨rest, hprev, hl, hs, hlineage⟩ := lineageOf_of_closed hclosed h.parent h.height
  have hmagic : b.header.networkMagic = st.network.magicBytes := by
    have hcheck := h.magic
    have hpos : ¬(b.header.networkMagic = FixedBytes.replicate 4 0 ∧ b.height = 0) := by
      rintro ⟨-, h0⟩
      have hheight := h.height
      omega
    rwa [checkBlockNetworkMagic, if_neg hpos, errorUnless_eq_nil_iff, hnet] at hcheck
  have hpow : verifyHeaderPow S cfg randomxUp b.header.prevHash b.header = .ok () := by
    rw [hprev]
    exact h.pow
  rw [checkBatchHeader, bind_ok_iff, require_ok_iff]
  refine ⟨hmagic, ?_⟩
  rw [hparent, hprev, headerHistory_eq hlook hl.tail hs]
  change (checkAgainstParent S st.network p.header b.header >>= fun _ =>
    checkAgainstHistory (lineageWindow (p :: rest)) b.header >>= fun _ => _) = _
  rw [bind_ok_iff, bind_ok_iff, ← hprev, hpow]
  exact ⟨hnet ▸ h.checkAgainstParent_eq, h.checkAgainstHistory_eq hl hs hlineage, rfl⟩

/-! ## 4. The batch -/

/-- **No two headers under one hash**, among the blocks of the batch and the stored ones. -/
structure OneHeader (S : Suite F G) (st : Blockchain G) (bs : List (Block G)) : Prop where
  batch : ∀ b ∈ bs, ∀ c ∈ bs, b.hash S = c.hash S → b.header = c.header
  stored : ∀ b ∈ bs, ∀ x ∈ st.getBlock (b.hash S), x.header = b.header

variable {bs : List (Block G)}

theorem OneHeader.tail (h : OneHeader S st (b :: bs)) :
    OneHeader S (st.storeBlock S b) bs := by
  refine ⟨fun c hc d hd => ?_, fun c hc x hx => ?_⟩
  · exact h.batch c (.tail _ hc) d (.tail _ hd)
  · rw [mem_def, getBlock_storeBlock] at hx
    split_ifs at hx with hk
    · rw [← Option.some.inj hx]
      exact h.batch b (.head _) c (.tail _ hc) hk.symm
    · exact h.stored c (.tail _ hc) x hx

theorem closed_storeBlock (hclosed : Closed (blockLinks S) root cur.getBlock)
    (hone : OneHeader S cur (b :: bs)) (h : HeaderRules S cfg randomxUp cur p b) :
    Closed (blockLinks S) root (cur.storeBlock S b).getBlock := by
  have hput := hclosed.put (b := b) (p := p) (fun x hx => ?_) h.parent h.height
  · have hget : (cur.storeBlock S b).getBlock = fun k =>
        if k = (blockLinks S).key b then some b else cur.getBlock k :=
      funext fun k => getBlock_storeBlock cur b k
    rw [hget]
    exact hput
  · have hheader := hone.stored b (.head _) x hx
    exact congrArg (fun h : BlockHeader => h.height.toNat) hheader

/-- **The loop**, from any place in the batch.  `cur` is the chain with the accepted blocks stored;
`previous` is the last of them. -/
theorem validateHeadersFrom_eq {randomxUp : Nat → Bool} :
    ∀ (bs : List (Block G)) {index : Nat} {cur : Blockchain G}
      {previous : Option (BlockHeader × Hash)} {accepted : Map Hash BlockHeader},
    Closed (blockLinks S) root cur.getBlock → cur.network = st.network →
    (∀ k, headerAt st accepted k = (cur.getBlock k).map Block.header) →
    (∀ b p, bs.head? = some b → cur.getBlock b.header.prevHash = some p →
      batchParent st previous b.header = .ok p.header) →
    bs.IsChain (fun a b => b.header.prevHash = a.hash S) → OneHeader S cur bs →
    PassInOrder S cfg randomxUp index cur bs →
    validateHeadersFrom S cfg randomxUp st index previous accepted (bs.map Block.header) =
      .ok (bs.map (Block.hash S))
  | [], _, _, _, _, _, _, _, _, _, _, _ => rfl
  | b :: bs, index, cur, previous, accepted, hclosed, hnet, hlook, hparent, hchain, hone, hpass => by
    obtain ⟨⟨p, hrules⟩, hrest⟩ := hpass
    have hcheck := hrules.checkBatchHeader_eq hclosed hnet hlook (hparent b p rfl hrules.parent)
    have hparent' : ∀ c q, bs.head? = some c →
        (cur.storeBlock S b).getBlock c.header.prevHash = some q →
        batchParent st (some (b.header, b.header.hash S)) c.header = .ok q.header := by
      intro c q hc hq
      obtain ⟨t, rfl⟩ : ∃ t, bs = c :: t := head?_eq_some_iff.mp hc
      have hlink : c.header.prevHash = b.hash S := (isChain_cons_cons.mp hchain).1
      rw [hlink, getBlock_storeBlock, if_pos rfl, Option.some.injEq] at hq
      simp only [batchParent, hlink, Block.hash, ne_eq, not_true_eq_false, if_false, hq]
    have ih := validateHeadersFrom_eq bs (closed_storeBlock hclosed hone hrules) hnet
      (headerAt_insert hlook b) hparent' hchain.tail hone.tail hrest
    rw [map_cons, validateHeadersFrom, hcheck]
    dsimp only
    rw [ih]
    rfl

/-- **Honest headers are accepted.**  For every stored block tree and every contiguous list of blocks
that pass the header rules of `add_block` in order, the first on top of a stored block, the batch of
their headers is accepted, and what is returned are their hashes in order. -/
theorem honest_batch_accepted {cfg : NodeConfig} {randomxUp : Nat → Bool} {st : Blockchain G}
    {root : Block G} {bs : List (Block G)} (hclosed : Closed (blockLinks S) root st.getBlock)
    (hchain : bs.IsChain fun a b => b.header.prevHash = a.hash S) (hone : OneHeader S st bs)
    (hpass : PassInOrder S cfg randomxUp 0 st bs) :
    validateHeaderBatch S cfg randomxUp st (bs.map Block.header) = .ok (bs.map (Block.hash S)) := by
  refine validateHeadersFrom_eq bs hclosed rfl (fun k => ?_) (fun b p _ hp => ?_) hchain hone hpass
  · rw [headerAt, Finmap.lookup_empty, none_or]
  · simp only [batchParent, hp]

end

/-! ## 5. On the small chain -/

namespace SmallChain

open SmallSuite

/-- The rules, as a test. -/
def followsRules (randomxUp : Bool) (st : Blockchain Z) (p b : Block Z) : Bool :=
  decide (st.getBlock b.header.prevHash = some p) && decide (b.height = p.height + 1) &&
    decide (checkBlockNetworkMagic b st.network = []) &&
    decide (checkHeaderVersionMin b.header = []) &&
    decide (checkHeaderVsPrev suite b.header (some p.header) = []) &&
    decide (checkHeaderCheckpointVote b.header = []) && decide (st.mtpViolation b = none) &&
    decide (wrongTarget (lineageWindow (st.lineageOf suite b).tail) b = none) &&
    match verifyHeaderPow suite cfg randomxUp (p.header.hash suite) b.header with
    | .ok () => true
    | .error _ => false

theorem headerRules_of_test {randomxUp : Bool} {st : Blockchain Z} {p b : Block Z}
    (h : followsRules randomxUp st p b = true) : HeaderRules suite cfg randomxUp st p b := by
  simp only [followsRules, Bool.and_eq_true, decide_eq_true_eq] at h
  obtain ⟨⟨⟨⟨⟨⟨⟨⟨h₁, h₂⟩, h₃⟩, h₄⟩, h₅⟩, h₆⟩, h₇⟩, h₈⟩, h₉⟩ := h
  refine ⟨h₁, h₂, h₃, h₄, h₅, h₆, h₇, h₈, ?_⟩
  split at h₉
  · assumption
  · cases h₉

/-- Two headers on a node that has the genesis block. -/
theorem light_batch_accepted :
    validateHeaderBatch suite cfg (fun _ => true) booted ([light1, light2].map Block.header) =
      .ok [light1.hash suite, light2.hash suite] := by
  have hreach : Reaches (step suite cfg) Allowed booted booted := .start
  obtain ⟨d, chain, hc⟩ := exists_canonical boot_booted hreach
  have hclosed : Closed (blockLinks suite) (createGenesisBlockFor suite booted.network)
      booted.getBlock := by
    rw [hc.getBlock_eq]
    exact hc.closed
  have hone : OneHeader suite booted [light1, light2] := by
    refine ⟨by decide +kernel, fun b hb x hx => ?_⟩
    have hnone : ∀ b ∈ [light1, light2], booted.getBlock (b.hash suite) = none := by
      decide +kernel
    rw [hnone b hb] at hx
    cases hx
  have hrules : followsRules true booted genesis light1 = true ∧
      followsRules true (booted.storeBlock suite light1) light1 light2 = true := by
    decide +kernel
  refine honest_batch_accepted hclosed ?_ hone
    ⟨⟨genesis, headerRules_of_test hrules.1⟩, ⟨light1, headerRules_of_test hrules.2⟩, trivial⟩
  exact isChain_cons_cons.mpr ⟨rfl, .singleton _⟩

end SmallChain

end Coincync
