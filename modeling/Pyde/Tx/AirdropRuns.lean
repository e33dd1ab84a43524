/-
Module: Pyde.Tx.AirdropRuns
Purpose: Any sequence of claims and sweeps against the tree of the builder: every payment is that of a leaf, no leaf is
  paid twice, the pool loses exactly what is paid, and a claim with a proof of the builder is accepted.
Trusted boundary: the sponge over field elements, Pvm
-/
import Pyde.Tx.AirdropClaims

namespace Pyde

open ByteCodec StateProgram List

section

variable (P : Prims) (pvm : Pvm)

/-- The keys of the airdrop and of all accounts and leaves in the sequence, and all keys in play. -/
def airdropKeysInPlay (subs : List Submission) (st : StateMap) : Set StateKey :=
  {key | key ∈ keysInPlay P pvm subs st ∨
    key ∈ [StateKey.single .airdropRoot, .single .airdropDeadline, .account (airdropPoolAddress P) .balance,
      .account (treasuryAddress P) .balance] ∨
    ∃ sub ∈ subs, key = .account sub.tx.fromAddress .balance ∨
      key = .account sub.tx.toAddress .balance ∨
      ∃ payload, ClaimPayload.decode sub.tx.data = some payload ∧
        key = .indexed .airdropClaimed payload.leafIndex}

/-- The strings from which the addresses of pool and treasury are derived. -/
def systemAddressSeeds : Set Bytes := {ascii "pyde-airdrop-pool", ascii "pyde-treasury"}

/-- A transaction that claims the leaf at `position` with the proof of the builder. -/
structure HonestClaim (leaves : List (Address × U128)) (proofs : List (List Hash256)) (step : ChainStep)
    (pos : Nat) (payload : ClaimPayload) : Prop where
  type : step.submission.tx.txType = .claimAirdrop
  data : step.submission.tx.data = payload.encode
  index : payload.leafIndex = BitVec.ofNat 64 pos
  leaf : leaves[pos]? = some (step.submission.tx.fromAddress, payload.amount)
  proof : proofs[pos]? = some payload.proof
  gas : airdropClaimGas payload ≤ step.submission.tx.gasLimit

/-- What a sequence of claims and sweeps does. -/
structure AirdropHonoured (leaves : List (Address × U128)) (proofs : List (List Hash256))
    (subs : List Submission) (st : StateMap) : Prop where
  leaf : ∀ step ∈ chainSteps P pvm subs st, ∀ payload, step.claim P pvm = some payload →
    leaves[payload.leafIndex.toNat]? = some (step.submission.tx.fromAddress, payload.amount) ∧
      step.Credits P pvm step.submission.tx.fromAddress payload.amount
  once : (chainSteps P pvm subs st).Pairwise fun earlier later =>
    ∀ payload payload', earlier.claim P pvm = some payload → later.claim P pvm = some payload' →
      payload.leafIndex ≠ payload'.leafIndex
  swept : ∀ step ∈ chainSteps P pvm subs st, step.sweeps P pvm = true →
    step.Credits P pvm (treasuryAddress P) (poolBalance P step.before)
  pool : (poolBalance P (executeAll P pvm subs st).2).toNat +
      ((chainSteps P pvm subs st).map (ChainStep.paidOut P pvm)).sum = (poolBalance P st).toNat
  accepted : ∀ earlier step later, chainSteps P pvm subs st = earlier ++ step :: later →
    ∀ pos payload, HonestClaim leaves proofs step pos payload →
      (handlerRun P pvm step.submission step.before).isSome = true → leafClaimed P st payload.leafIndex = false →
      (∀ other ∈ earlier, ∀ paid, other.claim P pvm = some paid → paid.leafIndex ≠ payload.leafIndex) →
      (∃ deadline, airdropDeadline P st = some deadline ∧ step.submission.ctx.height ≤ deadline) →
      payload.amount ≤ poolBalance P step.before → takesEffect (step.run P pvm).1 = true

end

/-! ### Runs -/

section

variable {P : Prims} {pvm : Pvm} {keys : Set StateKey} {subs : List Submission} {st : StateMap}

theorem submission_mem_of_chainSteps {step : ChainStep} (h : step ∈ chainSteps P pvm subs st) :
    step.submission ∈ subs := by
  induction subs generalizing st with
  | nil => exact absurd h not_mem_nil
  | cons sub rest ih =>
    rcases List.mem_cons.mp h with rfl | hrest
    · exact mem_cons_self
    · exact mem_cons_of_mem _ (ih hrest)

/-- Each step has the keys that it writes, and the nonce of its sender, among the keys in play. -/
theorem chainSteps_keys (hkeys : keysInPlay P pvm subs st ⊆ keys) :
    ∀ step ∈ chainSteps P pvm subs st, .account step.submission.tx.fromAddress .nonce ∈ keys ∧
        ∀ key ∈ writtenKeys P (step.submission.program P pvm) step.before, key ∈ keys := by
  induction subs generalizing st with
  | nil => exact forall_mem_nil _
  | cons sub rest ih =>
    obtain ⟨hwritten, hsender, hrest⟩ := keysInPlay_step hkeys
    rw [chainSteps, forall_mem_cons]
    exact ⟨⟨hsender, hwritten⟩, ih hrest⟩

theorem airdropKeys_inPlay : AirdropKeys P (airdropKeysInPlay P pvm subs st) where
  root := Or.inr (.inl (by simp))
  deadline := Or.inr (.inl (by simp))
  pool := Or.inr (.inl (by simp))
  treasury := Or.inr (.inl (by simp))

theorem stepKeys_inPlay :
    ∀ step ∈ chainSteps P pvm subs st, StepKeys P pvm (airdropKeysInPlay P pvm subs st) step := by
  intro step hstep
  have hmem := submission_mem_of_chainSteps hstep
  obtain ⟨hnonce, hwritten⟩ := chainSteps_keys (fun _ hkey => Or.inl hkey) step hstep
  exact
    { nonce := hnonce
      sender := Or.inr (.inr ⟨_, hmem, .inl rfl⟩)
      recipient := Or.inr (.inr ⟨_, hmem, .inr (.inl rfl)⟩)
      leaf := fun payload hpayload => Or.inr (.inr ⟨_, hmem, .inr (.inr ⟨payload, hpayload, rfl⟩)⟩)
      written := hwritten }

section

variable (hfacts : ∀ step ∈ chainSteps P pvm subs st, StepFacts P pvm keys step)

include hfacts

/-- What a step finds: root and deadline of the start, and the flags of the start and of the leaves paid so far. -/
theorem found_before {earlier later : List ChainStep} {step : ChainStep}
    (hsplit : chainSteps P pvm subs st = earlier ++ step :: later) :
    airdropRoot P step.before = airdropRoot P st ∧ airdropDeadline P step.before = airdropDeadline P st ∧
      ∀ leafIndex, .indexed .airdropClaimed leafIndex ∈ keys →
        (leafClaimed P step.before leafIndex = true ↔ leafClaimed P st leafIndex = true ∨
          ∃ other ∈ earlier, ∃ payload, other.claim P pvm = some payload ∧ payload.leafIndex = leafIndex) := by
  induction subs generalizing st earlier with
  | nil =>
    have hlength := congrArg List.length hsplit
    simp [chainSteps] at hlength
  | cons sub rest ih =>
    rw [chainSteps, forall_mem_cons] at hfacts
    obtain ⟨hfirst, hrest⟩ := hfacts
    rw [chainSteps] at hsplit
    cases earlier with
    | nil =>
      obtain ⟨rfl, -⟩ := List.cons.inj hsplit
      exact ⟨rfl, rfl, fun leafIndex _ => by simp⟩
    | cons first earlier =>
      obtain ⟨rfl, htail⟩ := List.cons.inj hsplit
      obtain ⟨hroot, hdeadline, hflags⟩ := ih hrest htail
      refine ⟨hroot.trans hfirst.root, hdeadline.trans hfirst.deadline, fun leafIndex hkey => ?_⟩
      rw [hflags leafIndex hkey, exists_mem_cons_iff, ← or_assoc]
      exact or_congr_left (hfirst.flags leafIndex hkey)

theorem no_leaf_paid_twice
    (hleaves : ∀ step ∈ chainSteps P pvm subs st, ∀ payload, step.claim P pvm = some payload →
      .indexed .airdropClaimed payload.leafIndex ∈ keys) :
    (chainSteps P pvm subs st).Pairwise fun earlier later =>
      ∀ payload payload', earlier.claim P pvm = some payload → later.claim P pvm = some payload' →
        payload.leafIndex ≠ payload'.leafIndex := by
  induction subs generalizing st with
  | nil => exact List.Pairwise.nil
  | cons sub rest ih =>
    rw [chainSteps, forall_mem_cons] at hfacts hleaves
    obtain ⟨hfirst, hrest⟩ := hfacts
    rw [chainSteps, pairwise_cons]
    refine ⟨?_, ih hrest hleaves.2⟩
    intro later hlater payload payload' hpaid hpaid' hsame
    obtain ⟨before, after, hsplit⟩ := append_of_mem hlater
    have hkey := hleaves.1 payload hpaid
    -- the flag is set by the first claim, so the later one does not pass
    have hset := (hfirst.flags payload.leafIndex hkey).mpr (.inr ⟨payload, hpaid, rfl⟩)
    have hfound := ((found_before hrest hsplit).2.2 payload.leafIndex hkey).mpr (.inl hset)
    have hunclaimed := ((hrest later hlater).paid payload' hpaid').1.unclaimed
    rw [← hsame, hfound] at hunclaimed
    cases hunclaimed

theorem pool_pays :
    (poolBalance P (executeAll P pvm subs st).2).toNat +
      ((chainSteps P pvm subs st).map (ChainStep.paidOut P pvm)).sum = (poolBalance P st).toNat := by
  induction subs generalizing st with
  | nil => simp [executeAll, chainSteps]
  | cons sub rest ih =>
    rw [chainSteps, forall_mem_cons] at hfacts
    obtain ⟨hfirst, hrest⟩ := hfacts
    have hpool := hfirst.pool
    have htail := ih hrest
    rw [chainSteps, map_cons, sum_cons, executeAll]
    unfold ChainStep.run at hpool
    dsimp only at hpool ⊢
    omega

end

end

/-! ### Claims against the tree -/

def merkleInputs (sponge : List Goldilocks → List.Vector Goldilocks 4) (P : Prims)
    (leaves : List (Address × U128)) (subs : List Submission) : Set (List Goldilocks) :=
  {input | input ∈ treeInputs sponge P leaves ∨ ∃ sub ∈ subs, ∃ payload,
    ClaimPayload.decode sub.tx.data = some payload ∧
      input ∈ claimInputs sponge P payload.leafIndex sub.tx.fromAddress payload.amount payload.proof}

/-- A claim with a proof of the builder passes every check that does not depend on the state. -/
theorem HonestClaim.claimable {P : Prims} {leaves : List (Address × U128)} {root : Hash256}
    {proofs : List (List Hash256)} (hbuilt : buildTree P leaves = some (root, proofs))
    (hcount : leaves.length ≤ 2 ^ 64)
    {step : ChainStep} {pos : Nat} {payload : ClaimPayload} (h : HonestClaim leaves proofs step pos payload) :
    ClaimPayload.decode step.submission.tx.data = some payload ∧
      verifyProof P payload.leafIndex step.submission.tx.fromAddress payload.amount payload.proof root = true := by
  have hproof := h.proof
  have hlength : payload.proof.length ≤ 255 := by
    have hdepth := MerkleTree.depthFor_le hcount
    rw [(buildTree_eq hbuilt).2, List.getElem?_map, Option.map_eq_some_iff] at hproof
    obtain ⟨_, -, hpath⟩ := hproof
    rw [← hpath, MerkleTree.path, length_map, length_range]
    omega
  constructor
  · rw [h.data]
    exact ClaimPayload.decode_encode hlength
  · rw [h.index]
    exact verifyProof_buildTree hbuilt hcount h.leaf h.proof

/-- Any sequence of claims and sweeps, against the tree of the builder. Poseidon2 is taken not to collide on the state
keys in play and on what is hashed for the tree and the claims, nothing of which gives the zeros of the padding. -/
theorem airdrop_pays_leaves (sponge : List Goldilocks → List.Vector Goldilocks 4) (P : Prims) (pvm : Pvm)
    {leaves : List (Address × U128)} {root : Hash256} {proofs : List (List Hash256)}
    (hbuilt : buildTree (P.withSponge sponge) leaves = some (root, proofs)) (hcount : leaves.length ≤ 2 ^ 64)
    {subs : List Submission} {st : StateMap} (hroot : airdropRoot (P.withSponge sponge) st = some root)
    (hkind : ∀ sub ∈ subs, sub.tx.txType.isAirdrop = true)
    (hsound : ∀ step ∈ chainSteps (P.withSponge sponge) pvm subs st, SoundStep (P.withSponge sponge) step)
    (hkeys : (P.withSponge sponge).CollisionFreeOn
      (StateKey.preimage '' airdropKeysInPlay (P.withSponge sponge) pvm subs st))
    (hseeds : (P.withSponge sponge).CollisionFreeOn systemAddressSeeds)
    (hmerkle : Set.InjOn sponge (merkleInputs sponge P leaves subs))
    (hpadding : ∀ input ∈ merkleInputs sponge P leaves subs, elementsToHash (sponge input) ≠ zero32) :
    AirdropHonoured (P.withSponge sponge) pvm leaves proofs subs st := by
  have hinj := StateKey.injOn_hash hkeys
  have hapart : airdropPoolAddress (P.withSponge sponge) ≠ treasuryAddress (P.withSponge sponge) := by
    intro heq
    have hsame := hseeds (.inl rfl) (.inr rfl) heq
    revert hsame
    decide
  have hfacts : ∀ step ∈ chainSteps (P.withSponge sponge) pvm subs st,
      StepFacts (P.withSponge sponge) pvm (airdropKeysInPlay (P.withSponge sponge) pvm subs st) step :=
    fun step hstep => stepFacts hinj airdropKeys_inPlay hapart (stepKeys_inPlay step hstep) (hsound step hstep)
      (hkind _ (submission_mem_of_chainSteps hstep))
  have hleaves : ∀ step ∈ chainSteps (P.withSponge sponge) pvm subs st, ∀ payload,
      step.claim (P.withSponge sponge) pvm = some payload → StateKey.indexed .airdropClaimed payload.leafIndex ∈
        airdropKeysInPlay (P.withSponge sponge) pvm subs st := fun step hstep payload hpaid =>
    (stepKeys_inPlay step hstep).leaf payload ((hfacts step hstep).paid payload hpaid).1.decoded
  refine
    { leaf := ?_
      once := no_leaf_paid_twice hfacts hleaves
      swept := fun step hstep => (hfacts step hstep).swept
      pool := pool_pays hfacts
      accepted := ?_ }
  · intro step hstep payload hpaid
    obtain ⟨hclaimable, hcredits⟩ := (hfacts step hstep).paid payload hpaid
    refine ⟨?_, hcredits⟩
    obtain ⟨before, after, hsplit⟩ := append_of_mem hstep
    obtain ⟨stored, hstored, hverify⟩ := hclaimable.proven
    rw [(found_before hfacts hsplit).1, hroot, Option.some.injEq] at hstored
    subst hstored
    exact leaf_of_verifyProof hmerkle hpadding hbuilt hcount (fun _ h => Or.inl h)
      (fun _ h => Or.inr ⟨_, submission_mem_of_chainSteps hstep, payload, hclaimable.decoded, h⟩) hverify
  · intro earlier step later hsplit pos payload hhonest hhandler hunclaimed hearlier hwindow hcovered
    have hstep : step ∈ chainSteps (P.withSponge sponge) pvm subs st := by
      rw [hsplit]
      exact mem_append_right _ mem_cons_self
    obtain ⟨hsameRoot, hdeadline, hflags⟩ := found_before hfacts hsplit
    obtain ⟨hdecoded, hverify⟩ := hhonest.claimable hbuilt hcount
    have hflag := hflags payload.leafIndex ((stepKeys_inPlay step hstep).leaf payload hdecoded)
    apply (hfacts step hstep).accepts payload hhonest.type hhandler
    exact
      { decoded := hdecoded
        gas := hhonest.gas
        window := hdeadline.symm ▸ hwindow
        unclaimed := by
          apply Bool.eq_false_of_not_eq_true
          intro hset
          rcases hflag.mp hset with hbefore | ⟨other, hother, paid, hpaid, hsame⟩
          · rw [hunclaimed] at hbefore
            cases hbefore
          · exact hearlier other hother paid hpaid hsame
        proven := ⟨root, hsameRoot.trans hroot, hverify⟩
        covered := hcovered }

/-! ### A tree with two leaves -/

/-- Prims that can be evaluated. -/
def sampleHashes : Prims := lucid.withSponge weightedSponge

def sampleLeaves (amt : U128) : List (Address × U128) := [(fill32 1, amt), (fill32 2, 500)]

def sampleRoot (amt : U128) : Hash256 := ((buildTree sampleHashes (sampleLeaves amt)).map Prod.fst).getD zero32

def sampleProofs (amt : U128) : List (List Hash256) :=
  ((buildTree sampleHashes (sampleLeaves amt)).map Prod.snd).getD []

def sampleClaim (amt : U128) : ClaimPayload :=
  { leafIndex := 0, amount := amt, proof := [leafHash sampleHashes 1 (fill32 2) 500] }

/-- The claim of the first leaf; the signature was checked with the block. -/
def claimSubmission (amt : U128) : Submission :=
  { tx :=
      { fromAddress := fill32 1, toAddress := zero32, value := 0, data := (sampleClaim amt).encode,
        gasLimit := 35000, nonce := 0, signature := [], feePayer := .sender, accessList := [], deadline := none,
        chainId := 1, txType := .claimAirdrop }
    ctx :=
      { height := 1, timestamp := 0, baseFee := 1, blockGasLimit := gasTarget, chainId := 1, devSkipSignature := false,
        blockSigsPreVerified := true }
    native := false
    stateRoot := zero32 }

/-- A funded claimant, and a pool that covers the first leaf. -/
def airdropState (amt : U128) : StateMap :=
  [((StateKey.account (fill32 1) .balance),
      { Account.empty (fill32 1) with balance := 1000000, authKeys := .single (lucidKey 7) }.toBytes),
    (.account (airdropPoolAddress sampleHashes) .balance,
      { Account.empty (airdropPoolAddress sampleHashes) with balance := amt }.toBytes),
    (.single .airdropRoot, (sampleRoot amt).toList), (.single .airdropDeadline, toLe (100 : U64))].foldl
      (fun st entry => StateProgram.insert stored st (entry.1.hash sampleHashes) entry.2) fun _ => none

/-- The keys of the claim of the first leaf. -/
def sampleKeys : List StateKey :=
  [.account (fill32 1) .nonce, .account (fill32 1) .balance, .account zero32 .balance,
    .account (airdropPoolAddress sampleHashes) .balance, .account (treasuryAddress sampleHashes) .balance,
    .single .airdropRoot, .single .airdropDeadline, .indexed .airdropClaimed 0]

theorem sample_decoded : ClaimPayload.decode (claimSubmission 1000).tx.data = some (sampleClaim 1000) := by
  decide +kernel

theorem sample_keys_distinct : sampleHashes.CollisionFreeOn (StateKey.preimage ''
    airdropKeysInPlay sampleHashes idlePvm [claimSubmission 1000] (airdropState 1000)) := by
  refine collisionFreeOn_of_listed sampleKeys (by decide +kernel) ?_
  rintro key ((hkey | ⟨sub, hsub, rfl⟩) | hfixed | ⟨sub, hsub, rfl | rfl | ⟨payload, hpayload, rfl⟩⟩)
  · revert key
    decide +kernel
  · rw [List.mem_singleton.mp hsub]
    exact mem_cons_self
  · revert key
    decide +kernel
  · rw [List.mem_singleton.mp hsub]
    decide +kernel
  · rw [List.mem_singleton.mp hsub]
    decide +kernel
  · rw [List.mem_singleton.mp hsub, sample_decoded] at hpayload
    cases hpayload
    decide +kernel

def sampleInputs : List (List Goldilocks) :=
  treeInputs weightedSponge lucid (sampleLeaves 1000) ++
    claimInputs weightedSponge lucid 0 (fill32 1) 1000 (sampleClaim 1000).proof

theorem sample_inputs : ∀ input ∈ merkleInputs weightedSponge lucid (sampleLeaves 1000) [claimSubmission 1000],
    input ∈ sampleInputs := by
  rintro input (htree | ⟨sub, hsub, payload, hpayload, hclaim⟩)
  · exact mem_append_left _ htree
  · rw [List.mem_singleton.mp hsub, sample_decoded] at hpayload
    cases hpayload
    rw [List.mem_singleton.mp hsub] at hclaim
    exact mem_append_right _ hclaim

/-- The first leaf is claimed and paid. -/
theorem airdrop_pays_first_leaf :
    takesEffect (ChainStep.run sampleHashes idlePvm
        { submission := claimSubmission 1000, before := airdropState 1000 }).1 = true ∧
      AirdropHonoured sampleHashes idlePvm (sampleLeaves 1000) (sampleProofs 1000) [claimSubmission 1000]
        (airdropState 1000) := by
  have hbuilt : buildTree sampleHashes (sampleLeaves 1000) = some (sampleRoot 1000, sampleProofs 1000) := by
    decide +kernel
  have hroot : airdropRoot sampleHashes (airdropState 1000) = some (sampleRoot 1000) := by decide +kernel
  have hkind : ∀ sub ∈ [claimSubmission 1000], sub.tx.txType.isAirdrop = true :=
    forall_mem_singleton.mpr rfl
  have hsound : ∀ step ∈ chainSteps sampleHashes idlePvm [claimSubmission 1000] (airdropState 1000),
      SoundStep sampleHashes step :=
    forall_mem_singleton.mpr
      { notPool := by decide +kernel
        sender := by decide +kernel
        recipient := by decide +kernel
        pool := by decide +kernel
        treasury := by decide +kernel
        belowSign := by decide +kernel }
  have hseeds : sampleHashes.CollisionFreeOn systemAddressSeeds := by
    have hne : sampleHashes.poseidon2Hash (ascii "pyde-airdrop-pool") ≠
        sampleHashes.poseidon2Hash (ascii "pyde-treasury") := by
      decide +kernel
    rintro _ (rfl | rfl) _ (rfl | rfl) heq
    · rfl
    · exact absurd heq hne
    · exact absurd heq.symm hne
    · rfl
  have hmerkle : Set.InjOn weightedSponge
      (merkleInputs weightedSponge lucid (sampleLeaves 1000) [claimSubmission 1000]) := by
    have hpairs : ∀ input ∈ sampleInputs, ∀ input' ∈ sampleInputs,
        weightedSponge input = weightedSponge input' → input = input' := by
      decide +kernel
    exact fun input hinput input' hinput' => hpairs _ (sample_inputs _ hinput) _ (sample_inputs _ hinput')
  have hpadding : ∀ input ∈ merkleInputs weightedSponge lucid (sampleLeaves 1000) [claimSubmission 1000],
      elementsToHash (weightedSponge input) ≠ zero32 := by
    have hall : ∀ input ∈ sampleInputs, elementsToHash (weightedSponge input) ≠ zero32 := by decide +kernel
    exact fun input hinput => hall _ (sample_inputs _ hinput)
  exact ⟨by decide +kernel, airdrop_pays_leaves weightedSponge lucid idlePvm hbuilt (by decide) hroot hkind hsound
    sample_keys_distinct hseeds hmerkle hpadding⟩

/-- A claim of 2^127 quanta and more is paid out of the pool, but the claimant, who had a million quanta before, has
nothing afterwards. -/
theorem large_claim_not_credited :
    buildTree sampleHashes (sampleLeaves (2 ^ 127 + 1000000)) =
        some (sampleRoot (2 ^ 127 + 1000000), sampleProofs (2 ^ 127 + 1000000)) ∧
      (sampleProofs (2 ^ 127 + 1000000))[0]? = some (sampleClaim (2 ^ 127 + 1000000)).proof ∧
      airdropRoot sampleHashes (airdropState (2 ^ 127 + 1000000)) = some (sampleRoot (2 ^ 127 + 1000000)) ∧
      (acctAt sampleHashes (airdropState (2 ^ 127 + 1000000)) (fill32 1)).balance = 1000000 ∧
      takesEffect (ChainStep.run sampleHashes idlePvm
        { submission := claimSubmission (2 ^ 127 + 1000000), before := airdropState (2 ^ 127 + 1000000) }).1 = true ∧
      poolBalance sampleHashes (executeAll sampleHashes idlePvm [claimSubmission (2 ^ 127 + 1000000)]
        (airdropState (2 ^ 127 + 1000000))).2 = 0 ∧
      (acctAt sampleHashes (executeAll sampleHashes idlePvm [claimSubmission (2 ^ 127 + 1000000)]
        (airdropState (2 ^ 127 + 1000000))).2 (fill32 1)).balance = 0 := by
  decide +kernel

end Pyde
