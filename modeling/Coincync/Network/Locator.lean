/-
# Does the answer connect?

A node sends its locator, and the peer answers with headers of its main chain, from above the first
hash of the locator that it knows.  The asking node then wants to know the parent of the first header,
and charges the peer with a protocol violation if it does not.
-/
import Coincync.Chain.Restore
import Coincync.Network.Headers

namespace Coincync

open Lib Blockchain List Option

variable {F G : Type} [Field F] [AddCommGroup G] [Module F G] {S : Suite F G}
  {getHash : Nat → Option Hash}

/-! ## 1. The locator -/

variable {x : Hash}

theorem mem_locatorLoop : ∀ (fuel : Nat) {h step : Nat}
    {loc : List Hash}, x ∈ locatorLoop getHash fuel h step loc →
    x ∈ loc ∨ ∃ h' ≤ h, getHash h' = some x
  | 0, _, _, _, hx => .inl hx
  | fuel + 1, h, step, loc, hx => by
    have hnew : x ∈ loc ++ (getHash h).toList → x ∈ loc ∨ ∃ h' ≤ h, getHash h' = some x := by
      intro hmem
      rcases mem_append.mp hmem with hmem | hmem
      · exact .inl hmem
      · exact .inr ⟨h, le_refl h, mem_toList.mp hmem⟩
    rw [locatorLoop] at hx
    split_ifs at hx with h0
    · exact .inl hx
    · dsimp only at hx
      split_ifs at hx with h10 hlast hlast
      · exact hnew hx
      · rcases mem_locatorLoop fuel hx with hx | ⟨h', hle, hh'⟩
        · exact hnew hx
        · exact .inr ⟨h', by omega, hh'⟩
      · exact hnew hx
      · rcases mem_locatorLoop fuel hx with hx | ⟨h', hle, hh'⟩
        · exact hnew hx
        · exact .inr ⟨h', by omega, hh'⟩

/-- **A locator lists hashes of the chain**, from the tip down. -/
theorem exists_of_mem_buildLocator {tip : Nat}
    (hx : x ∈ buildLocator tip getHash) : ∃ h ≤ tip, getHash h = some x := by
  have hloop : x ∈ locatorLoop getHash tip tip 1 [] → ∃ h ≤ tip, getHash h = some x := by
    intro hmem
    rcases mem_locatorLoop tip hmem with hnil | hfound
    · cases hnil
    · exact hfound
  rw [buildLocator] at hx
  cases hg : getHash 0 with
  | none =>
    rw [hg] at hx
    exact hloop hx
  | some g =>
    rw [hg] at hx
    dsimp only at hx
    split_ifs at hx with hlast
    · rcases mem_append.mp hx with hx | hx
      · exact hloop hx
      · rw [mem_singleton.mp hx]
        exact ⟨0, zero_le, hg⟩
    · exact hloop hx

/-- **Genesis is in every locator.** -/
theorem genesis_mem_buildLocator {tip : Nat} {g : Hash}
    (hg : getHash 0 = some g) : g ∈ buildLocator tip getHash := by
  rw [buildLocator, hg]
  dsimp only
  split_ifs with hlast
  · exact mem_append_right _ (mem_singleton_self g)
  · rw [ne_eq, not_not] at hlast
    exact mem_of_getLast? hlast

/-! ## 2. The answer -/

namespace Blockchain

/-- The asking node has the parent of the first header, if there is one. -/
def Connects (st : Blockchain G) (headers : List BlockHeader) : Prop :=
  ∀ first ∈ headers.head?, (st.getBlock first.prevHash).isSome = true

/-- **The two nodes share the base of the answer**: the answering node's main chain ends at the
height of the first block of the locator that it knows, or the asking node has the block of that main
chain at that height. -/
def SharesBase (S : Suite F G) (asking answering : Blockchain G) : Prop :=
  ∃ x, answering.firstKnown asking.locator = some x ∧
    (answering.tip.height ≤ x.height ∨
      ∃ y ∈ answering.canonicalChain S, y.height = x.height ∧
        (asking.getBlock (y.hash S)).isSome = true)

namespace Canonical

variable {st : Blockchain G} {d : Database G} {chain : List (Block G)}

section

variable (hc : Canonical S st d chain)

include hc

theorem getBlockByHeight_iff (hs : st.NoStale) {h : Nat} {b : Block G} :
    st.getBlockByHeight h = some b ↔ b ∈ chain ∧ b.height = h := by
  rw [getBlockByHeight, hc.getBlockHash_eq' hs, hc.getBlock_eq, bind_eq_some_iff]
  constructor
  · rintro ⟨x, hx, hb⟩
    obtain ⟨b', hb', hheight, rfl⟩ := (hc.index h x).mp hx
    obtain rfl : b' = b := Option.some.inj ((hc.stored b' hb').symm.trans hb)
    exact ⟨hb', hheight⟩
  · rintro ⟨hb, rfl⟩
    exact ⟨b.hash S, (hc.index _ _).mpr ⟨b, hb, rfl, rfl⟩, hc.stored b hb⟩

theorem getBlockHash_zero :
    st.getBlockHash 0 = some ((createGenesisBlockFor S st.network).hash S) := by
  rw [hc.getBlockHash_eq zero_le]
  exact (hc.index _ _).mpr ⟨_, hc.lineage.root_mem, createGenesisBlockFor_height_eq S _, rfl⟩

theorem isSome_of_mem_locator (hx : x ∈ st.locator) : (st.getBlock x).isSome = true := by
  obtain ⟨h, hle, hh⟩ := exists_of_mem_buildLocator hx
  rw [hc.getBlockHash_eq hle] at hh
  obtain ⟨b, hb, -, rfl⟩ := (hc.index h x).mp hh
  have hstored : d.blocks.lookup (b.hash S) = some b := hc.stored b hb
  rw [hc.getBlock_eq]
  exact isSome_iff_exists.mpr ⟨b, hstored⟩

theorem head?_headersFrom (hs : st.NoStale) (stop : Hash) (n h : Nat) {first : BlockHeader} :
    first ∈ (st.headersFrom S stop (n + 1) h).head? ↔
      ∃ b ∈ chain, b.height = h ∧ b.header = first := by
  rw [headersFrom]
  cases hb : st.getBlockByHeight h with
  | none =>
    refine iff_of_false nofun ?_
    rintro ⟨b, hmem, hheight, -⟩
    rw [(hc.getBlockByHeight_iff hs).mpr ⟨hmem, hheight⟩] at hb
    cases hb
  | some b =>
    obtain ⟨hmem, hheight⟩ := (hc.getBlockByHeight_iff hs).mp hb
    rw [head?_cons, mem_def, Option.some.injEq]
    constructor
    · exact fun heq => ⟨b, hmem, hheight, heq⟩
    · rintro ⟨b', hmem', hheight', rfl⟩
      rw [hc.lineage.eq_of_height b hmem b' hmem' (hheight.trans hheight'.symm)]

/-- **An answer is contiguous.** -/
theorem isChain_headersFrom (hs : st.NoStale) (stop : Hash) :
    ∀ n h, (st.headersFrom S stop n h).IsChain fun a b => b.prevHash = a.hash S
  | 0, _ => .nil
  | n + 1, h => by
    rw [headersFrom]
    cases hb : st.getBlockByHeight h with
    | none => exact .nil
    | some b =>
      obtain ⟨hmem, hheight⟩ := (hc.getBlockByHeight_iff hs).mp hb
      dsimp only
      split_ifs
      · exact .singleton _
      · refine isChain_cons.mpr ⟨fun next hnext => ?_, isChain_headersFrom hs stop n (h + 1)⟩
        cases n with
        | zero => cases hnext
        | succ n =>
          obtain ⟨c, hc', hnextHeight, rfl⟩ := (hc.head?_headersFrom hs stop n (h + 1)).mp hnext
          have hstep : c.height = b.height + 1 := by omega
          exact hc.lineage.parent_eq b hmem c hc' hstep

end

end Canonical

end Blockchain

/-! ## 3. The charge -/

/-- The reason is not that the batch does not connect, to the chain or in itself. -/
def HeaderReason.Connected : HeaderReason → Prop
  | .firstDoesNotConnect | .notContiguous => False
  | _ => True

variable {st : Blockchain G}

theorem failsWith_checkBatchHeader {cfg : NodeConfig} {randomxUp : Bool}
    {previous : Option (BlockHeader × Hash)} {accepted : Map Hash BlockHeader}
    {header parent : BlockHeader} (hparent : batchParent st previous header = .ok parent) :
    FailsWith HeaderReason.Connected
      (checkBatchHeader S cfg randomxUp st previous accepted header) := by
  have hagainst : FailsWith HeaderReason.Connected
      (checkAgainstParent S st.network parent header) := by
    unfold checkAgainstParent
    refine .bind (failsWith_require ?_) (.bind (failsWith_require ?_) (.bind (failsWith_require ?_)
      (.bind (failsWith_require ?_) (.bind (failsWith_require ?_) (failsWith_require ?_)))))
    all_goals trivial
  have hhistory : ∀ history, FailsWith HeaderReason.Connected
      (checkAgainstHistory history header) := by
    intro history
    unfold checkAgainstHistory
    refine .bind (failsWith_checkIf (failsWith_require ?_))
      (failsWith_checkIf (failsWith_require ?_))
    all_goals trivial
  rw [checkBatchHeader, hparent]
  refine .bind (failsWith_require ?_) (hagainst.bind ?_)
  · trivial
  · rw [headerHistory]
    cases BlockHeader.walk (headerAt st accepted) difficultyLongWindow header.prevHash with
    | error missing =>
      intro r hr
      cases hr
      trivial
    | ok headers => exact (hhistory _).bind (failsWith_mapError fun _ _ => trivial)

/-- **A contiguous batch whose first parent is known is never charged with not connecting.** -/
theorem validateHeadersFrom_connected {cfg : NodeConfig} {randomxUp : Nat → Bool} :
    ∀ (headers : List BlockHeader) {index : Nat}
      {previous : Option (BlockHeader × Hash)} {accepted : Map Hash BlockHeader}
      {e : HeaderBatchError},
    (∀ first ∈ headers.head?, ∃ parent, batchParent st previous first = .ok parent) →
    headers.IsChain (fun a b => b.prevHash = a.hash S) →
    validateHeadersFrom S cfg randomxUp st index previous accepted headers = .error e →
    e.reason.Connected
  | [], _, _, _, _, _, _, h => by cases h
  | header :: rest, index, previous, accepted, e, hfirst, hchain, h => by
    obtain ⟨parent, hparent⟩ := hfirst header rfl
    rw [validateHeadersFrom] at h
    cases hcheck : checkBatchHeader S cfg (randomxUp index) st previous accepted header with
    | error reason =>
      rw [hcheck] at h
      cases h
      exact failsWith_checkBatchHeader hparent reason hcheck
    | ok u =>
      rw [hcheck] at h
      dsimp only at h
      have hnext : ∀ first ∈ rest.head?,
          ∃ parent, batchParent st (some (header, header.hash S)) first = .ok parent := by
        intro first hmem
        refine ⟨header, ?_⟩
        simp [batchParent, (isChain_cons.mp hchain).1 first hmem]
      split at h
      · cases h
      · rename_i e' he'
        cases h
        exact validateHeadersFrom_connected rest hnext hchain.tail he'

/-! ## 4. The exact condition -/

section

variable [DecidableEq F] [DecidableEq G]

omit [DecidableEq F] [DecidableEq G] in
theorem exists_firstKnown {asking answering : Blockchain G} {d d' : Database G}
    {chain chain' : List (Block G)} (hc : Canonical S asking d chain)
    (hc' : Canonical S answering d' chain')
    (hgenesis : createGenesisBlockFor S asking.network = createGenesisBlockFor S answering.network) :
    ∃ x, answering.firstKnown asking.locator = some x := by
  rw [← isSome_iff_exists, firstKnown, findSome?_isSome_iff]
  refine ⟨_, genesis_mem_buildLocator hc.getBlockHash_zero, ?_⟩
  have hroot : answering.getBlock ((createGenesisBlockFor S asking.network).hash S) =
      some (createGenesisBlockFor S answering.network) := by
    rw [hgenesis, hc'.getBlock_eq]
    exact hc'.closed.root_mem
  rw [hroot]
  rfl

/-- **An honest answer connects exactly if the base is shared.** -/
theorem answer_connects_iff {cfg cfg' : NodeConfig} {network network' : NetworkType}
    {asking₀ answering₀ asking answering : Blockchain G} (h₀ : boot S network = .ok asking₀)
    (h : Reaches (step S cfg) Allowed asking₀ asking) (h₀' : boot S network' = .ok answering₀)
    (h' : Reaches (step S cfg') Allowed answering₀ answering) (hs : answering.NoStale)
    (hgenesis : createGenesisBlockFor S asking.network = createGenesisBlockFor S answering.network)
    {stop : Hash} {headers : List BlockHeader}
    (hanswer : answering.handleGetHeaders S asking.locator stop = .ok headers) :
    (asking.Connects headers ↔ SharesBase S asking answering) ∧
    (SharesBase S asking answering → ∀ randomxUp e,
      validateHeaderBatch S cfg randomxUp asking headers = .error e → e.reason.Connected) ∧
    (∀ x ∈ answering.firstKnown asking.locator, x ∈ answering.canonicalChain S →
      SharesBase S asking answering) := by
  obtain ⟨d, chain, hc⟩ := exists_canonical h₀ h
  obtain ⟨d', chain', hc'⟩ := exists_canonical h₀' h'
  obtain ⟨x, hx⟩ := exists_firstKnown hc hc' hgenesis
  have hheaders : headers = answering.headersFrom S stop (1999 + 1) (x.height + 1) := by
    rw [handleGetHeaders] at hanswer
    split_ifs at hanswer
    rw [← Except.ok.inj hanswer, startHeight, hx]
    rfl
  have hbase : SharesBase S asking answering ↔ (answering.tip.height ≤ x.height ∨
      ∃ y ∈ chain', y.height = x.height ∧ (asking.getBlock (y.hash S)).isSome = true) := by
    simp only [SharesBase, hx, Option.some.injEq, exists_eq_left', hc'.canonicalChain_eq]
  have hiff : asking.Connects headers ↔ SharesBase S asking answering := by
    rw [hbase, Connects, hheaders]
    simp only [hc'.head?_headersFrom hs]
    constructor
    · intro hconn
      by_cases hend : answering.tip.height ≤ x.height
      · exact .inl hend
      · -- the first header is that of the next block, and its parent is on the main chain
        obtain ⟨t, rest, rfl, -, ht⟩ := hc'.tip
        have hle : x.height + 1 ≤ t.height := by omega
        obtain ⟨b, hb, hbh⟩ := hc'.lineage.exists_height (x.height + 1) hle
        obtain ⟨y, hy, hyh⟩ := hc'.lineage.exists_height x.height (le_of_lt hle)
        have hlink : b.header.prevHash = y.hash S :=
          hc'.lineage.parent_eq y hy b hb (by rw [hbh, hyh])
        refine .inr ⟨y, hy, hyh, ?_⟩
        rw [← hlink]
        exact hconn b.header ⟨b, hb, hbh, rfl⟩
    · rintro (hend | ⟨y, hy, hyh, hstored⟩) first ⟨b, hb, hbh, rfl⟩
      · have hle := hc'.height_le_tip hb
        omega
      · have hlink : b.header.prevHash = y.hash S :=
          hc'.lineage.parent_eq y hy b hb (show b.height = y.height + 1 by omega)
        rw [hlink]
        exact hstored
  refine ⟨hiff, fun hshared randomxUp e he => ?_, fun x' hx' hmain => ?_⟩
  · refine validateHeadersFrom_connected headers (fun first hfirst => ?_) ?_ he
    · obtain ⟨p, hp⟩ := isSome_iff_exists.mp (hiff.mpr hshared first hfirst)
      exact ⟨p.header, by simp only [batchParent, hp]⟩
    · rw [hheaders]
      exact hc'.isChain_headersFrom hs stop _ _
  · obtain ⟨k, hk, hkx⟩ := exists_of_findSome?_eq_some hx'
    have hkey : x'.hash S = k := by
      rw [hc'.getBlock_eq] at hkx
      exact hc'.closed.key k x' hkx
    refine ⟨x', hx', .inr ⟨x', hmain, rfl, ?_⟩⟩
    rw [hkey]
    exact hc.isSome_of_mem_locator hk

end

/-! ## 5. On the small chain -/

namespace Astray

open SmallChain SmallSuite

/-- The node after a run of allowed actions. -/
def node (actions : List (Action Z)) : Option (Blockchain Z) :=
  run (step suite cfg) (fun st a => decide (st.Allowed a)) booted actions

theorem reaches_node {actions : List (Action Z)} {st : Blockchain Z} (h : node actions = some st) :
    Reaches (step suite cfg) Allowed booted st :=
  .run (fun _ _ h => of_decide_eq_true h) .start h

/-- The asking node is on the side chain of the answering one. -/
def asking : Blockchain Z := (node [.add steady light1]).getD booted

def answering : Blockchain Z :=
  (node [.add steady heavy1, .add steady light1, .add steady heavy2]).getD booted

/-- A node that has gone on from the asking one. -/
def ahead : Blockchain Z := (node [.add steady light1, .add steady light2]).getD booted

theorem node_asking : node [.add steady light1] = some asking := by
  have hrun : (node [.add steady light1]).isSome = true := by decide +kernel
  obtain ⟨st, hst⟩ := isSome_iff_exists.mp hrun
  rw [asking, hst, getD_some]

/-- **An honest answer is charged.**  Both nodes follow the rules. -/
theorem honest_answer_charged : Reaches (step suite cfg) Allowed booted asking ∧
    Reaches (step suite cfg) Allowed booted answering ∧ answering.NoStale ∧
    asking.locator = [light1.hash suite, genesis.hash suite] ∧
    answering.handleGetHeaders suite asking.locator Hash.zero = .ok [heavy2.header] ∧
    asking.getBlock heavy2.header.prevHash = none ∧
    validateHeaderBatch suite cfg (fun _ => true) asking [heavy2.header] =
      .error ⟨0, .firstDoesNotConnect, .protocolViolation⟩ := by
  have hsome : (node [.add steady heavy1, .add steady light1, .add steady heavy2]).isSome =
      true := by
    decide +kernel
  obtain ⟨st, hst⟩ := isSome_iff_exists.mp hsome
  refine ⟨reaches_node node_asking, ?_, ?_⟩
  · rw [answering, hst, getD_some]
    exact reaches_node hst
  · decide +kernel

/-- A node on the same branch gets an answer that connects. -/
theorem ahead_answer_connects :
    ahead.handleGetHeaders suite asking.locator Hash.zero = .ok [light2.header] ∧
    asking.Connects [light2.header] := by
  have hrun : (node [.add steady light1, .add steady light2]).isSome = true ∧ ahead.NoStale ∧
      createGenesisBlockFor suite asking.network = createGenesisBlockFor suite ahead.network ∧
      ahead.handleGetHeaders suite asking.locator Hash.zero = .ok [light2.header] ∧
      ahead.firstKnown asking.locator = some light1 ∧
      light1 ∈ ahead.canonicalChain suite := by
    decide +kernel
  obtain ⟨hsome, hs, hgenesis, hanswer, hknown, hmain⟩ := hrun
  obtain ⟨st, hst⟩ := isSome_iff_exists.mp hsome
  have hahead : ahead = st := by rw [ahead, hst, getD_some]
  have hreach : Reaches (step suite cfg) Allowed booted ahead := hahead ▸ reaches_node hst
  obtain ⟨hiff, -, hshared⟩ := answer_connects_iff boot_booted (reaches_node node_asking)
    boot_booted hreach hs hgenesis hanswer
  exact ⟨hanswer, hiff.mpr (hshared light1 hknown hmain)⟩

end Astray

end Coincync
