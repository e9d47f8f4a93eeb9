/-
# Ring signatures of a transaction, through the cache

`verify_ring_signature` and `check_tx_ring_signatures` of `src/consensus/validation.rs`.  The
first asks the global cache before it decodes anything: the key is the digest of the signing hash
and of the signature bytes.  The signing hash covers every input of the transaction, but neither
it nor the signature says WHICH input the signature was verified for, so an answer cached for one
input is a hit for any other input of the transaction that carries the same signature bytes
(`shared_signature_accepted`).  With that excluded the cache is transparent
(`verifyRingSignature_transparent`).
-/
import Coincync.Crypto.Cache

namespace Coincync

open Lib Suite List

variable {F G : Type} [Field F] [AddCommGroup G] [Module F G] (S : Suite F G)

/-! ## 1. Verifying one input -/

/-- The CLSAG ring of an input: every key and commitment must decode. -/
def decodeRing : List RingMemberRef → Option (List (RingMember G))
  | [] => some []
  | m :: t =>
    (S.decompress m.publicKey.bytes).bind fun pk =>
      (S.decompress m.commitment).bind fun commitment =>
        (decodeRing t).map (⟨pk, commitment⟩ :: ·)

variable [DecidableEq F] [DecidableEq G]

/-- What `verify_ring_signature` computes for an input when the cache has no answer: the ring and
the pseudo-output decode, and `clsag_verify` accepts under the signing hash. -/
def clsagVerifyInput (tx : Transaction G) (input : TxInput G) : Bool :=
  match decodeRing S input.ringMembers with
  | none => false
  | some ring =>
    match S.decompress input.pseudoOutputCommitment with
    | none => false
    | some pseudoOutput =>
      clsagVerify S (tx.signingHash S).asSlice ring pseudoOutput input.signature

def callKey (tx : Transaction G) (input : TxInput G) : CacheKey :=
  ringSigCacheKey S (tx.signingHash S).asSlice (input.signature.toBytes S)

def verifyRingSignature (now : Nat) (walk : Walk) (c : VerificationCache) (tx : Transaction G)
    (input : TxInput G) : Bool × VerificationCache :=
  let key := callKey S tx input
  match c.checkRingSig now key with
  | (some cached, c') => (cached, c')
  | (none, c') =>
    match decodeRing S input.ringMembers with
    | none => (false, c'.cacheRingSig now walk key false)
    | some ring =>
      match S.decompress input.pseudoOutputCommitment with
      | none => (false, c'.cacheRingSig now walk key false)
      | some pseudoOutput =>
        let valid := clsagVerify S (tx.signingHash S).asSlice ring pseudoOutput input.signature
        (valid, c'.cacheRingSig now walk key valid)

theorem verifyRingSignature_eq (now : Nat) (walk : Walk) (c : VerificationCache)
    (tx : Transaction G) (input : TxInput G) :
    verifyRingSignature S now walk c tx input =
      if callKey S tx input ∈ c.ringSigCache then
        (true, (c.checkRingSig now (callKey S tx input)).2)
      else
        (clsagVerifyInput S tx input,
          (c.checkRingSig now (callKey S tx input)).2.cacheRingSig now walk (callKey S tx input)
            (clsagVerifyInput S tx input)) := by
  have hfst := VerificationCache.check_fst now (callKey S tx input) c.ringSigCache
  unfold verifyRingSignature VerificationCache.checkRingSig clsagVerifyInput
  split_ifs at hfst ⊢ with hk
  · simp only [hfst]
  · simp only [hfst]
    cases decodeRing S input.ringMembers with
    | none => rfl
    | some ring =>
      cases S.decompress input.pseudoOutputCommitment with
      | none => rfl
      | some p => rfl

/-! ## 2. All inputs of a transaction -/

/-- One input as a worker thread picks it up, with the clock and the walk of the moment. -/
structure ScheduledInput (G : Type) where
  idx : Nat
  input : TxInput G
  now : Nat
  walk : Walk

/-- The shared variables of `check_tx_ring_signatures`. -/
structure RingSigCheck where
  allSigsValid : Bool
  failedIdx : Option Nat
  cache : VerificationCache

/-- The body of the parallel loop: skip once the flag is down, else verify and note a failure
with the smallest index. -/
def ringSigCheckStep (tx : Transaction G) (s : RingSigCheck) (w : ScheduledInput G) :
    RingSigCheck :=
  if s.allSigsValid = true then
    match verifyRingSignature S w.now w.walk s.cache tx w.input with
    | (true, cache) => { s with cache := cache }
    | (false, cache) =>
      { allSigsValid := false
        failedIdx := some (match s.failedIdx with | some i => min i w.idx | none => w.idx)
        cache := cache }
  else s

/-- The errors of the ring signature check: the failing input's index. -/
inductive RingSigError
  | verificationFailed (idx : Option Nat)
  deriving DecidableEq

/-- `check_tx_ring_signatures`, for an order in which the workers reach the inputs. -/
def checkTxRingSignatures (c : VerificationCache) (tx : Transaction G)
    (schedule : List (ScheduledInput G)) : Except RingSigError Unit × VerificationCache :=
  let s := schedule.foldl (ringSigCheckStep S tx) ⟨true, none, c⟩
  (if s.allSigsValid = true then .ok () else .error (.verificationFailed s.failedIdx), s.cache)

/-- A schedule hands out every input of the transaction once. -/
def IsSchedule (tx : Transaction G) (schedule : List (ScheduledInput G)) : Prop :=
  (schedule.map fun w => (w.input, w.idx)).Perm tx.inputs.zipIdx

/-! ## 3. Runs of the cache -/

/-- What a cache entry can stand for: an input of a transaction, or a batch statement with the
result its verifier reported. -/
inductive CacheQuestion (G : Type)
  | call (tx : Transaction G) (input : TxInput G)
  | batch (d : SignatureData) (valid : Bool)

namespace CacheQuestion

/-- The bytes whose digest is the question's key. -/
def preimage : CacheQuestion G → Bytes
  | call tx input =>
    ringSigCachePreimage (tx.signingHash S).asSlice (input.signature.toBytes S)
  | batch d _ => ringSigStatementPreimage d

def key (q : CacheQuestion G) : CacheKey := S.blake3 (q.preimage S)

/-- The true answer. -/
def answer : CacheQuestion G → Bool
  | call tx input => clsagVerifyInput S tx input
  | batch _ valid => valid

end CacheQuestion

/-- The atomic operations on the shared cache.  A call of `verify_ring_signature` is a lookup
and, after a miss, an insertion; other threads may come in between. -/
inductive CacheOp (G : Type)
  | check (q : CacheQuestion G)
  | record (q : CacheQuestion G)
  | checkBulletproof (key : CacheKey)
  | recordBulletproof (key : CacheKey) (valid : Bool)
  | clear

/-- An operation with the clock and the walk of the moment. -/
structure CacheEvent (G : Type) where
  op : CacheOp G
  now : Nat
  walk : Walk

/-- One operation. -/
def cacheStep (c : VerificationCache) (e : CacheEvent G) : VerificationCache :=
  match e.op with
  | .check q => (c.checkRingSig e.now (q.key S)).2
  | .record q => c.cacheRingSig e.now e.walk (q.key S) (q.answer S)
  | .checkBulletproof key => (c.checkBulletproof e.now key).2
  | .recordBulletproof key valid => c.cacheBulletproof e.now e.walk key valid
  | .clear => VerificationCache.new

/-- The cache after a history of operations, from empty. -/
def cacheAfter (history : List (CacheEvent G)) : VerificationCache :=
  history.foldl (cacheStep S) VerificationCache.new

/-- The question was asked in the history: looked up or recorded. -/
def AskedIn (history : List (CacheEvent G)) (q : CacheQuestion G) : Prop :=
  ∃ e ∈ history, e.op = .check q ∨ e.op = .record q

/-- The ring-signature map holds only keys of questions asked and answered yes. -/
abbrev RingSigCacheSound (asked : CacheQuestion G → Prop) (c : VerificationCache) : Prop :=
  PositiveCache.Sound (CacheQuestion.key S) (CacheQuestion.answer S) asked c.ringSigCache

variable {asked : CacheQuestion G → Prop} {c : VerificationCache}

section

variable (h : RingSigCacheSound S asked c)
include h

theorem RingSigCacheSound.cacheRingSig {q : CacheQuestion G}
    (hq : asked q) (now : Nat) (walk : Walk) :
    RingSigCacheSound S asked (c.cacheRingSig now walk (q.key S) (q.answer S)) := by
  intro k hk
  rcases VerificationCache.mem_record hk with ⟨rfl, hv⟩ | hk'
  · exact ⟨q, hq, rfl, hv⟩
  · exact h k hk'

theorem RingSigCacheSound.checkRingSig (now : Nat)
    (key : CacheKey) : RingSigCacheSound S asked (c.checkRingSig now key).2 :=
  PositiveCache.Sound.mono h fun _ hk => VerificationCache.mem_of_mem_check hk

theorem RingSigCacheSound.step {e : CacheEvent G}
    (he : ∀ q, e.op = .record q → asked q) : RingSigCacheSound S asked (cacheStep S c e) := by
  unfold cacheStep
  cases hop : e.op with
  | check q => exact h.checkRingSig S e.now (q.key S)
  | record q => exact h.cacheRingSig S (he q hop) e.now e.walk
  | checkBulletproof key => exact h
  | recordBulletproof key valid => exact h
  | clear => exact PositiveCache.sound_empty

end

/-- **Every reachable cache is sound.** -/
theorem cacheAfter_sound (history : List (CacheEvent G))
    (hasked : ∀ q, AskedIn history q → asked q) :
    RingSigCacheSound S asked (cacheAfter S history) := by
  -- the invariant is carried over the fold from any sound cache
  have hfold : ∀ (l : List (CacheEvent G)) (c : VerificationCache),
      (∀ e ∈ l, ∀ q, e.op = .record q → asked q) → RingSigCacheSound S asked c →
      RingSigCacheSound S asked (l.foldl (cacheStep S) c) := by
    intro l
    induction l with
    | nil => exact fun c _ hc => hc
    | cons e l ih =>
      intro c hl hc
      exact ih _ (fun e' he' => hl e' (.tail _ he'))
        (hc.step S (hl e (.head _)))
  exact hfold history _ (fun e he q hq => hasked q ⟨e, he, Or.inr hq⟩) PositiveCache.sound_empty

/-! ## 4. When the key determines the answer -/

/-- **Inputs that share their signature share what it is verified against.** -/
def SharedSignaturesAgree (asked : CacheQuestion G → Prop) : Prop :=
  ∀ tx input tx' input', asked (.call tx input) → asked (.call tx' input') →
    tx.signingHash S = tx'.signingHash S →
    input.signature.toBytes S = input'.signature.toBytes S →
    input.ringMembers = input'.ringMembers ∧
      input.pseudoOutputCommitment = input'.pseudoOutputCommitment

/-- BLAKE3 has no collision among the keys' preimages. -/
def CacheKeysInjective (asked : CacheQuestion G → Prop) : Prop :=
  Set.InjOn S.blake3 {p | ∃ q, asked q ∧ p = q.preimage S}

variable {input : TxInput G} (hinj : CacheKeysInjective S asked)
  (hagree : SharedSignaturesAgree S asked)

include hinj in
omit [DecidableEq F] [DecidableEq G] in
/-- **What a key says of a call**: its signing hash and its signature, not its input. -/
theorem exists_call_of_key_eq {tx : Transaction G} {q : CacheQuestion G} (hq : asked q)
    (hcall : asked (.call tx input)) (hkey : q.key S = CacheQuestion.key S (.call tx input)) :
    ∃ tx' input', q = .call tx' input' ∧ tx'.signingHash S = tx.signingHash S ∧
      input'.signature.toBytes S = input.signature.toBytes S := by
  have hpre : q.preimage S = CacheQuestion.preimage S (.call tx input) :=
    hinj ⟨q, hq, rfl⟩ ⟨_, hcall, rfl⟩ hkey
  cases q with
  | batch d valid => exact absurd hpre.symm (ringSigCachePreimage_ne_statement _ _ d)
  | call tx' input' =>
    simp only [CacheQuestion.preimage, ringSigCachePreimage, append_assoc] at hpre
    obtain ⟨-, hpre⟩ := append_inj hpre rfl
    obtain ⟨hmsg, hsig⟩ := append_inj hpre (by simp)
    exact ⟨tx', input', rfl, Hash.asSlice_inj hmsg, hsig⟩

include hinj hagree in
theorem call_determinedAt {tx : Transaction G} (hq : asked (.call tx input)) :
    PositiveCache.DeterminedAt (CacheQuestion.key S) (CacheQuestion.answer S) asked
      (.call tx input) := by
  intro q' hq' hkey hans
  obtain ⟨tx', input', rfl, hmsg, hsig⟩ := exists_call_of_key_eq S hinj hq' hq hkey
  obtain ⟨hring, hpseudo⟩ := hagree tx' input' tx input hq' hq hmsg hsig
  rw [CacheQuestion.answer] at hans ⊢
  rwa [clsagVerifyInput, hmsg, ClsagSignature.toBytes_injective S hsig, hring, hpseudo] at hans

include hinj hagree in
theorem verifyRingSignature_eq_of_sound (hc : RingSigCacheSound S asked c) {tx : Transaction G}
    (hq : asked (.call tx input)) (now : Nat) (walk : Walk) :
    (verifyRingSignature S now walk c tx input).1 = clsagVerifyInput S tx input := by
  rw [verifyRingSignature_eq]
  split_ifs with hit
  · exact (hc.answer_of_hit (call_determinedAt S hinj hagree hq) hit).symm
  · rfl

theorem verifyRingSignature_sound (hc : RingSigCacheSound S asked c) {tx : Transaction G}
    (hq : asked (.call tx input)) (now : Nat) (walk : Walk) :
    RingSigCacheSound S asked (verifyRingSignature S now walk c tx input).2 := by
  rw [verifyRingSignature_eq]
  split_ifs with hit
  · exact hc.checkRingSig S now _
  · exact (hc.checkRingSig S now _).cacheRingSig S hq now walk

/-! ## 5. The loop over the inputs -/

include hinj hagree in
theorem ringSigCheckStep_spec {tx : Transaction G} {s : RingSigCheck}
    (hs : RingSigCacheSound S asked s.cache) {w : ScheduledInput G} (hq : asked (.call tx w.input)) :
    RingSigCacheSound S asked (ringSigCheckStep S tx s w).cache ∧
      ((ringSigCheckStep S tx s w).allSigsValid = true →
        s.allSigsValid = true ∧ clsagVerifyInput S tx w.input = true) := by
  have hv := verifyRingSignature_eq_of_sound S hinj hagree hs hq w.now w.walk
  have hc := verifyRingSignature_sound S hs hq w.now w.walk
  unfold ringSigCheckStep
  by_cases hflag : s.allSigsValid = true
  · rw [if_pos hflag]
    generalize hr : verifyRingSignature S w.now w.walk s.cache tx w.input = r at hv hc
    obtain ⟨verdict, cache⟩ := r
    cases verdict with
    | true => exact ⟨hc, fun _ => ⟨hflag, hv.symm⟩⟩
    | false => exact ⟨hc, fun h => by simp at h⟩
  · rw [if_neg hflag]
    exact ⟨hs, fun h => absurd h hflag⟩

include hinj hagree in
theorem ringSigCheck_foldl_spec {tx : Transaction G} :
    ∀ (l : List (ScheduledInput G)) (s : RingSigCheck),
      (∀ w ∈ l, asked (.call tx w.input)) → RingSigCacheSound S asked s.cache →
      (l.foldl (ringSigCheckStep S tx) s).allSigsValid = true →
      s.allSigsValid = true ∧ ∀ w ∈ l, clsagVerifyInput S tx w.input = true
  | [], s, _, _, h => ⟨h, fun w hw => absurd hw not_mem_nil⟩
  | w :: l, s, hq, hs, h => by
    obtain ⟨hsound, hflag⟩ := ringSigCheckStep_spec S hinj hagree hs (hq w (.head _))
    obtain ⟨h1, h2⟩ := ringSigCheck_foldl_spec l _
      (fun w' hw' => hq w' (.tail _ hw')) hsound h
    obtain ⟨hup, hw⟩ := hflag h1
    refine ⟨hup, fun w' hw' => ?_⟩
    rcases mem_cons.mp hw' with rfl | hw'
    · exact hw
    · exact h2 w' hw'

/-- The questions of a history together with the inputs of one transaction. -/
def AskedWith (history : List (CacheEvent G)) (tx : Transaction G) (q : CacheQuestion G) : Prop :=
  AskedIn history q ∨ ∃ input ∈ tx.inputs, q = .call tx input

/-- **The cache is transparent when shared signatures agree.** -/
theorem verifyRingSignature_transparent (history : List (CacheEvent G)) (tx : Transaction G)
    (hinj : CacheKeysInjective S (AskedWith history tx))
    (hagree : SharedSignaturesAgree S (AskedWith history tx)) :
    (∀ input ∈ tx.inputs, ∀ now walk,
      (verifyRingSignature S now walk (cacheAfter S history) tx input).1 = true ↔
        clsagVerifyInput S tx input = true) ∧
    (∀ schedule, IsSchedule tx schedule →
      (checkTxRingSignatures S (cacheAfter S history) tx schedule).1 = .ok () →
        ∀ input ∈ tx.inputs, clsagVerifyInput S tx input = true) := by
  have hsound : RingSigCacheSound S (AskedWith history tx) (cacheAfter S history) :=
    cacheAfter_sound S history fun q hq => Or.inl hq
  constructor
  · intro input hmem now walk
    rw [verifyRingSignature_eq_of_sound S hinj hagree hsound (Or.inr ⟨input, hmem, rfl⟩)]
  · intro schedule hsched hok input hmem
    have hflag : (schedule.foldl (ringSigCheckStep S tx)
        ⟨true, none, cacheAfter S history⟩).allSigsValid = true := by
      by_contra hne
      simp [checkTxRingSignatures, hne] at hok
    -- the schedule is a permutation of the inputs, so each input was reached and is an input
    have hinputs : ∀ w ∈ schedule, w.input ∈ tx.inputs := by
      intro w hw
      have hz := hsched.mem_iff.mp (mem_map.mpr ⟨w, hw, rfl⟩)
      exact mem_of_getElem? (mk_mem_zipIdx_iff_getElem?.mp hz)
    obtain ⟨i, hi, rfl⟩ := getElem_of_mem hmem
    have hz : (tx.inputs[i], i) ∈ tx.inputs.zipIdx := mk_mem_zipIdx_iff_getElem?.mpr (by simp)
    obtain ⟨w, hw, hweq⟩ := mem_map.mp (hsched.mem_iff.mpr hz)
    have hall := (ringSigCheck_foldl_spec S hinj hagree schedule _
      (fun w hw => Or.inr ⟨w.input, hinputs w hw, rfl⟩) hsound hflag).2 w hw
    rw [show w.input = tx.inputs[i] from congrArg Prod.fst hweq] at hall
    exact hall

/-! ### Two inputs, one signature

Both transactions below spend the rings of the same two inputs.  In `cacheTx` each input carries
its own signature; in `sharedTx` the second input carries a copy of the first one's, which does
not verify against the second ring. -/

namespace CacheExample

open SmallSuite

/-- A ring member from its two points. -/
def member (publicKey commitment : Z) : RingMemberRef := ⟨⟨compress publicKey⟩, compress commitment⟩

/-- The signature of the first input. -/
def sig0 : ClsagSignature Z := ⟨41, 87, encode 89, [encode 92, encode 4]⟩

/-- The signature of the second input. -/
def sig1 : ClsagSignature Z := ⟨95, 34, encode 27, [encode 43, encode 4]⟩

/-- The first input. -/
def input0 : TxInput Z := ⟨⟨compress 41⟩, [member 7 30, member 9 40], sig0, compress 25⟩

/-- The second input, with a given signature. -/
def input1 (sig : ClsagSignature Z) : TxInput Z :=
  ⟨⟨compress 42⟩, [member 11 30, member 13 40], sig, compress 25⟩

/-- The transaction, with a given signature at the second input. -/
def tx (sig : ClsagSignature Z) : Transaction Z :=
  ⟨1, .transfer, [input0, input1 sig], [], ⟨0⟩, [], []⟩

/-- The inputs in their own order, on a small cache. -/
def schedule (sig : ClsagSignature Z) : List (ScheduledInput Z) :=
  [⟨0, input0, 0, fun _ => []⟩, ⟨1, input1 sig, 1, fun _ => []⟩]

/-- A history that looked up and recorded the first input. -/
def history (sig : ClsagSignature Z) : List (CacheEvent Z) :=
  [⟨.check (.call (tx sig) input0), 0, fun _ => []⟩,
    ⟨.record (.call (tx sig) input0), 0, fun _ => []⟩]

theorem askedWith_iff (sig : ClsagSignature Z) (q : CacheQuestion Z) :
    AskedWith (history sig) (tx sig) q ↔
      q = .call (tx sig) input0 ∨ q = .call (tx sig) (input1 sig) := by
  constructor
  · rintro (⟨e, he, hop⟩ | ⟨i, hi, rfl⟩)
    · simp only [history, mem_cons, not_mem_nil, or_false] at he
      rcases he with rfl | rfl
      · simp only [CacheOp.check.injEq, reduceCtorEq, or_false] at hop
        exact Or.inl hop.symm
      · simp only [CacheOp.record.injEq, reduceCtorEq, false_or] at hop
        exact Or.inl hop.symm
    · simp only [tx, mem_cons, not_mem_nil, or_false] at hi
      rcases hi with rfl | rfl
      · exact Or.inl rfl
      · exact Or.inr rfl
  · rintro (rfl | rfl)
    · exact Or.inr ⟨input0, by simp [tx], rfl⟩
    · exact Or.inr ⟨input1 sig, by simp [tx], rfl⟩

theorem cacheKeysInjective (sig : ClsagSignature Z)
    (h : linkSuite.blake3 (CacheQuestion.preimage linkSuite (.call (tx sig) input0)) =
        linkSuite.blake3 (CacheQuestion.preimage linkSuite (.call (tx sig) (input1 sig))) →
      CacheQuestion.preimage linkSuite (.call (tx sig) input0) =
        CacheQuestion.preimage linkSuite (.call (tx sig) (input1 sig))) :
    CacheKeysInjective linkSuite (AskedWith (history sig) (tx sig)) := by
  rintro p ⟨q, hq, rfl⟩ p' ⟨q', hq', rfl⟩ heq
  rcases (askedWith_iff sig q).mp hq with rfl | rfl <;>
    rcases (askedWith_iff sig q').mp hq' with rfl | rfl
  · rfl
  · exact h heq
  · exact (h heq.symm).symm
  · rfl

end CacheExample

open CacheExample in
/-- **A copied signature is accepted through the cache.** -/
theorem shared_signature_accepted :
    CacheKeysInjective linkSuite (AskedWith (history sig0) (tx sig0)) ∧
      clsagVerifyInput linkSuite (tx sig0) (input1 sig0) = false ∧
      (verifyRingSignature linkSuite 1 (fun _ => []) (cacheAfter linkSuite (history sig0))
        (tx sig0) (input1 sig0)).1 = true ∧
      IsSchedule (tx sig0) (schedule sig0) ∧
      (checkTxRingSignatures linkSuite VerificationCache.new (tx sig0) (schedule sig0)).1 =
        .ok () :=
  ⟨cacheKeysInjective sig0 (fun _ => rfl), by decide +kernel, by decide +kernel,
    List.Perm.refl _, by decide +kernel⟩

open CacheExample in
/-- Each input with its own signature: the second one is answered as `clsag_verify` does. -/
theorem own_signatures_transparent :
    SharedSignaturesAgree linkSuite (AskedWith (history sig1) (tx sig1)) ∧
      (verifyRingSignature linkSuite 1 (fun _ => []) (cacheAfter linkSuite (history sig1))
        (tx sig1) (input1 sig1)).1 = true := by
  have hne : input0.signature.toBytes linkSuite ≠ (input1 sig1).signature.toBytes linkSuite := by
    decide +kernel
  have hagree : SharedSignaturesAgree linkSuite (AskedWith (history sig1) (tx sig1)) := by
    intro t i t' i' hq hq' _ hsig
    rcases (askedWith_iff sig1 _).mp hq with h | h <;>
      rcases (askedWith_iff sig1 _).mp hq' with h' | h' <;>
      obtain ⟨rfl, rfl⟩ := CacheQuestion.call.inj h <;>
      obtain ⟨rfl, rfl⟩ := CacheQuestion.call.inj h'
    · exact ⟨rfl, rfl⟩
    · exact absurd hsig hne
    · exact absurd hsig.symm hne
    · exact ⟨rfl, rfl⟩
  have hinj := cacheKeysInjective sig1 (fun h => absurd h (by decide +kernel))
  exact ⟨hagree, ((verifyRingSignature_transparent linkSuite (history sig1) (tx sig1) hinj
    hagree).1 (input1 sig1) (by simp [tx]) 1 (fun _ => [])).mpr (by decide +kernel)⟩

end Coincync
