/-
Module: Pyde.Node.SignatureGate
Purpose: When a transaction of a block takes effect only under a valid signature, and what the hash of a block says
  about its effect.
Trusted boundary: Prims, Pvm
-/
import Pyde.Node.ParallelExecution

namespace Pyde

open ByteCodec StateProgram

section

variable (P : Prims) (pvm : Pvm) (aot : Nat → Bool) (chain : ChainState)
  (manager : StateManager) (block : Block)

/-- The sender's registered key verifies the signature when the transaction executes. -/
def BlockStep.Signed (step : BlockStep) : Prop :=
  ∃ pk, (acctAt P step.before step.tx.fromAddress).authKeys = .single pk ∧
    step.tx.verifySignature P pk = true

/-- The transaction changes the state. -/
def BlockStep.TakesEffect (step : BlockStep) : Prop := step.after ≠ step.before

/-- Some transaction of the block carries a signature that the key its sender had registered before the
block does not verify. -/
def HasInvalidSignature : Prop :=
  ∃ tx ∈ block.body.transactions, tx.signature ≠ [] ∧
    ∃ pk, registeredKey P manager.store tx.fromAddress = some pk ∧ tx.verifySignature P pk = false

/-- The pipeline checks signatures itself, because the batch check finds an invalid one; or the
transaction carries a signature and the key registered when it executes is the one that the batch check
has used. -/
def BlockStep.Guarded (step : BlockStep) : Prop :=
  HasInvalidSignature P manager block ∨
    (step.tx.signature ≠ [] ∧ registeredKey P step.before step.tx.fromAddress =
        registeredKey P manager.store step.tx.fromAddress)

variable {P pvm aot chain manager block}

/-- The transaction that follows `done` in one of the sequences. -/
theorem mem_blockSteps {done rest : List Nat} {i : Nat} {tx : Transaction}
    (horder : done ++ i :: rest ∈ executionOrders block) (htx : block.body.transactions[i]? = some tx) :
    { tx := tx
      before := (overlayAfter P pvm aot chain manager block done).view stored
      after := (overlayAfter P pvm aot chain manager block (done ++ [i])).view stored : BlockStep } ∈
        blockSteps P pvm aot chain manager block :=
  ⟨_, horder, done, i, rest, rfl, htx, rfl, rfl⟩

/-- A step is a run of the pipeline on the state it starts from. -/
theorem blockSteps_run {step : BlockStep} (hstep : step ∈ blockSteps P pvm aot chain manager block) :
    step.tx ∈ block.body.transactions ∧
      ∃ native', step.after = (runIn P (executeTransaction P pvm native' step.tx
        (blockContext P chain manager.store block) manager.root) step.before).2 := by
  obtain ⟨order, _, done, i, rest, _, htx, hbefore, hafter⟩ := hstep
  refine ⟨List.mem_of_getElem? htx, aot i, ?_⟩
  rw [hafter, hbefore, overlayAfter, runEach_concat]
  have hrun := (runOn_simulates (Overlay.simulates stored) (StateKey.hash P)
    (blockProgram P pvm aot block.body.transactions (blockContext P chain manager.store block)
      manager.root i) (overlayAfter P pvm aot chain manager block done)).2
  exact hrun.trans (congrArg Prod.snd (run_blockProgram P pvm aot htx _ _ _))

theorem registeredKey_eq_some {st : StateMap} {addr : Address} {pk : Bytes}
    (h : (acctAt P st addr).authKeys = .single pk) :
    registeredKey P st addr = some pk := by
  unfold acctAt at h
  unfold registeredKey
  cases hstored : (st (balanceKey P addr)).bind Account.fromBytes with
  | none =>
    rw [hstored] at h
    cases h
  | some account =>
    rw [hstored, Option.getD_some] at h
    simp only [h]

theorem HasInvalidSignature.allSigsValid_eq_false (h : HasInvalidSignature P manager block) :
    allSigsValid P manager.store chain.chainId block.body.transactions = false := by
  obtain ⟨tx, htx, hsigned, pk, hkey, hinvalid⟩ := h
  have hverdict : batchVerdict P manager.store tx = false := by
    rw [batchVerdict, if_neg hsigned, hkey]
    exact hinvalid
  rw [allSigsValid, Bool.and_eq_false_iff, List.all_eq_false]
  exact .inr ⟨tx, htx, by simp [hverdict]⟩

theorem validated_of_takesEffect {step : BlockStep}
    (hstep : step ∈ blockSteps P pvm aot chain manager block) (heffect : step.TakesEffect) :
    ∃ vesting, validateTransaction P step.tx (acctAt P step.before step.tx.fromAddress)
      (storedNonce P step.before step.tx.fromAddress)
      (validationContext (blockContext P chain manager.store block) vesting) = .ok () := by
  obtain ⟨_, native', hafter⟩ := blockSteps_run hstep
  rcases admission_cases P step.tx (blockContext P chain manager.store block) step.before with
    ⟨e, hadmission, _⟩ | ⟨_, hvalid, _⟩
  · rw [run_executeTransaction_of_refused hadmission] at hafter
    exact absurd hafter heffect
  · exact ⟨_, hvalid⟩

theorem BlockStep.Guarded.signed {step : BlockStep} (hguarded : step.Guarded P manager block)
    (hstep : step ∈ blockSteps P pvm aot chain manager block)
    (hchain : chain.chainId ≠ devnetChainId) (htype : step.tx.txType ≠ .registerPubkey)
    (heffect : step.TakesEffect) : step.Signed P := by
  obtain ⟨vesting, hvalid⟩ := validated_of_takesEffect hstep heffect
  obtain ⟨pk, hkey, hverify⟩ := validateTransaction_single hchain htype hvalid
  refine ⟨pk, hkey, ?_⟩
  rcases hguarded with hinvalid | ⟨hsigned, hsame⟩
  · exact hverify (decide_eq_false hchain) hinvalid.allSigsValid_eq_false
  cases hbatch : allSigsValid P manager.store chain.chainId block.body.transactions with
  | false => exact hverify (decide_eq_false hchain) hbatch
  | true =>
    -- the batch check has verified the signature under the same key
    rw [allSigsValid, Bool.and_eq_true, List.all_eq_true] at hbatch
    have hverdict := hbatch.2 step.tx (blockSteps_run hstep).1
    rw [registeredKey_eq_some hkey] at hsame
    rw [batchVerdict, if_neg hsigned, ← hsame] at hverdict
    exact hverdict

/-- Outside the devnet, if every step of a block but registrations is guarded, every transaction that takes effect is
signed under the key registered at that moment, registrations apart. This holds for every block, accepted or not. -/
theorem effects_signed (hchain : chain.chainId ≠ devnetChainId)
    (hguarded : ∀ step ∈ blockSteps P pvm aot chain manager block,
      step.tx.txType ≠ .registerPubkey → step.Guarded P manager block) :
    ∀ step ∈ blockSteps P pvm aot chain manager block,
      step.tx.txType ≠ .registerPubkey → step.TakesEffect → step.Signed P := by
  intro step hstep htype heffect
  exact (hguarded step hstep htype).signed hstep hchain htype heffect

end

/-! ### A signed and an unsigned transfer -/

/-- One account whose key is registered. -/
def keyedManager : StateManager := managerOf lucid [fundedAccount 1 (.single (lucidKey 7))]

/-- A transfer from that account under a signature by that key. -/
def signedTransfer : Transaction :=
  { transferOf 1 1 0 with
    signature := (lucidSignature [7] ((transferOf 1 1 0).hash lucid).toList).bytes }

def signedBlock : Block := blockOf lucid [signedTransfer] [[0]]

theorem signedBlock_guarded :
    ∀ step ∈ blockSteps lucid idlePvm (fun _ => false) (ChainState.genesis zero32 1) keyedManager signedBlock,
      step.Guarded lucid keyedManager signedBlock := by
  rintro ⟨tx, before, after⟩ ⟨order, horder, done, i, rest, hsplit, htx, hbefore, _⟩
  have hsingle : order = [0] := List.mem_singleton.mp horder
  rw [hsingle] at hsplit
  cases done with
  | cons j done => simp at hsplit
  | nil =>
    have hi : 0 = i := (List.cons.inj hsplit).1
    subst hi
    have htx' : signedTransfer = tx := Option.some.inj htx
    subst htx'
    have hstart : before = keyedManager.store := hbefore
    subst hstart
    have hsignature : signedTransfer.signature ≠ [] := by decide +kernel
    exact .inr ⟨hsignature, rfl⟩

theorem effects_signed_transfer :
    (processFullBlock lucid idlePvm (fun _ => false) (ChainState.genesis zero32 1) keyedManager
        signedBlock none).map (fun processed => processed.receipts.map Receipt.success) = .ok [true] ∧
      ∀ step ∈ blockSteps lucid idlePvm (fun _ => false) (ChainState.genesis zero32 1) keyedManager signedBlock,
        step.tx.txType ≠ .registerPubkey → step.TakesEffect → step.Signed lucid :=
  ⟨by decide +kernel, effects_signed (by decide) fun step hstep _ => signedBlock_guarded step hstep⟩

/-- The transfer without its signature. -/
def unsignedBlock : Block := blockOf lucid [transferOf 1 1 0] [[0]]

/-- The address that belongs to a key which is not registered yet. -/
def freshAddress : Address := deriveEoaAddress lucid (lucidKey 7)

def freshManager : StateManager := managerOf lucid [{ fundedAccount 1 .none with address := freshAddress }]

/-- A registration of the key, and a transfer by the same sender under a signature of one byte. -/
def lateKeyBlock : Block :=
  blockOf lucid
    [{ transferOf 1 1 0 with
        fromAddress := freshAddress, toAddress := zeroAddress, value := 0, gasLimit := 0
        data := lucidKey 7, txType := .registerPubkey },
     { transferOf 1 1 1 with fromAddress := freshAddress, signature := [1] }] [[0, 1]]

/-- On chain 1 the block is accepted and all its transactions succeed, and one of them, which is not a
registration, debits its sender without a valid signature. -/
def DebitsUnsigned (manager : StateManager) (block : Block) : Prop :=
  (processFullBlock lucid idlePvm (fun _ => false) (ChainState.genesis zero32 1) manager block
      none).map (fun processed => processed.receipts.all Receipt.success) = .ok true ∧
    ∃ step ∈ blockSteps lucid idlePvm (fun _ => false) (ChainState.genesis zero32 1) manager block,
      step.tx.txType ≠ .registerPubkey ∧ (acctAt lucid step.after step.tx.fromAddress).balance <
          (acctAt lucid step.before step.tx.fromAddress).balance ∧ ¬ step.Signed lucid

theorem BlockStep.not_signed_of_short {step : BlockStep} (h : step.tx.signature.length < 500) :
    ¬ step.Signed lucid := by
  rintro ⟨pk, _, hverify⟩
  obtain ⟨_, ⟨hlong, _⟩, _⟩ := (lucid.verifyRaw_iff).mp hverify
  omega

/-- The batch check lets an unsigned transfer through, and any signature of a sender whose key is
registered in the same block; the pipeline then does not check again. -/
theorem unsigned_transfers_execute :
    DebitsUnsigned keyedManager unsignedBlock ∧ DebitsUnsigned freshManager lateKeyBlock := by
  have hfirst : [] ++ 0 :: [] ∈ executionOrders unsignedBlock := by decide +kernel
  have hsecond : [0] ++ 1 :: [] ∈ executionOrders lateKeyBlock := by decide +kernel
  constructor
  · refine ⟨by decide +kernel, _, mem_blockSteps hfirst rfl, ?_, ?_, ?_⟩
    · exact TransactionType.noConfusion
    · decide +kernel
    · exact BlockStep.not_signed_of_short (by decide)
  · refine ⟨by decide +kernel, _, mem_blockSteps hsecond rfl, ?_, ?_, ?_⟩
    · exact TransactionType.noConfusion
    · decide +kernel
    · exact BlockStep.not_signed_of_short (by decide)

end Pyde

namespace Pyde

open ByteCodec StateProgram List

/-! ### Signatures that make no difference -/

/-- Both signatures are missing or neither is, they verify under the same keys, if that is looked at at all, and the
transactions have one size on the wire unless both are small enough. -/
structure SignaturesAlike (P : Prims) (chainId : U64) (tx tx' : Transaction) : Prop where
  missing : tx.signature = [] ↔ tx'.signature = []
  verify : chainId ≠ devnetChainId → ∀ pk, tx.verifySignature P pk = tx'.verifySignature P pk
  size : tx.toBytes.length = tx'.toBytes.length ∨
      (tx.toBytes.length ≤ maxTxSize ∧ tx'.toBytes.length ≤ maxTxSize)

theorem SignaturesAlike.refl (P : Prims) (chainId : U64) (tx : Transaction) : SignaturesAlike P chainId tx tx :=
  ⟨Iff.rfl, fun _ _ => rfl, .inl rfl⟩

theorem eq_withSignature {tx tx' : Transaction} (h : tx.unsigned = tx'.unsigned) :
    tx' = { tx with signature := tx'.signature } := by
  cases tx
  cases tx'
  simp only [Transaction.unsigned, Transaction.mk.injEq] at h ⊢
  simp only [h, and_self]

section

variable {P : Prims} {chainId : U64} {tx : Transaction} {sig : Bytes}

section

variable (halike : SignaturesAlike P chainId tx { tx with signature := sig })
include halike

theorem validateSize_withSignature : validateSize { tx with signature := sig } = validateSize tx := by
  unfold validateSize
  rcases halike.size with hsize | ⟨hsmall, hsmall'⟩
  · rw [← hsize]
  have hok : rejectIf (maxTxSize < tx.toBytes.length)
      (ValidationError.txTooLarge tx.toBytes.length maxTxSize) = .ok () :=
    rejectIf_ok.mpr (Nat.not_lt.mpr hsmall)
  have hok' : rejectIf (maxTxSize < ({ tx with signature := sig } : Transaction).toBytes.length)
      (ValidationError.txTooLarge ({ tx with signature := sig } : Transaction).toBytes.length maxTxSize) = .ok () :=
    rejectIf_ok.mpr (Nat.not_lt.mpr hsmall')
  rw [hok, hok']

theorem validateTransaction_withSignature (sender : Account) (nonceState : NonceState) {ctx : ValidationContext}
    (hskip : ctx.devSkipSignature = decide (chainId = devnetChainId)) :
    validateTransaction P { tx with signature := sig } sender nonceState ctx =
      validateTransaction P tx sender nonceState ctx := by
  have hregister : validateRegisterPubkey P { tx with signature := sig } sender nonceState =
      validateRegisterPubkey P tx sender nonceState := by
    unfold validateRegisterPubkey
    rw [validateSize_withSignature halike]
    have hmissing : rejectIf (sig ≠ []) ValidationError.invalidSignature =
        rejectIf (tx.signature ≠ []) ValidationError.invalidSignature := by
      unfold rejectIf
      simp only [ne_eq, halike.missing]
    dsimp only
    rw [hmissing]
    rfl
  have hsignature : validateSignatureUnlessSkipped P { tx with signature := sig } sender ctx =
      validateSignatureUnlessSkipped P tx sender ctx := by
    unfold validateSignatureUnlessSkipped validateSignature
    by_cases hdevnet : chainId = devnetChainId
    · have hskipped : ctx.devSkipSignature = true := hskip.trans (decide_eq_true hdevnet)
      rw [if_pos (.inl hskipped), if_pos (.inl hskipped)]
    · simp only [halike.verify hdevnet]
  unfold validateTransaction
  rw [hregister, hsignature, validateSize_withSignature halike]
  rfl

/-- The pipeline reads nothing of a signature but what `SignaturesAlike` compares. -/
theorem executeTransaction_withSignature (pvm : Pvm) (aot : Bool) {ctx : BlockContext}
    (hskip : ctx.devSkipSignature = decide (chainId = devnetChainId)) (stateRoot : Hash256) :
    executeTransaction P pvm aot { tx with signature := sig } ctx stateRoot =
      executeTransaction P pvm aot tx ctx stateRoot := by
  unfold executeTransaction admission validateAndUseNonce
  have hvalidate : ∀ sender nonceState vesting, validateTransaction P { tx with signature := sig } sender nonceState
      (validationContext ctx vesting) = validateTransaction P tx sender nonceState (validationContext ctx vesting) :=
    fun sender nonceState _ => validateTransaction_withSignature halike sender nonceState hskip
  simp only [hvalidate]
  rfl

theorem batchVerdict_withSignature (hchain : chainId ≠ devnetChainId) (st : StateMap) :
    batchVerdict P st { tx with signature := sig } = batchVerdict P st tx := by
  have hmissing : sig = [] ↔ tx.signature = [] := halike.missing.symm
  unfold batchVerdict
  simp only [hmissing, halike.verify hchain]

end

end

/-! ### Lists of transactions -/

/-- Two transactions that differ at most in the bytes of their signatures. -/
def SameUpToSignature (P : Prims) (chainId : U64) (tx tx' : Transaction) : Prop :=
  tx.unsigned = tx'.unsigned ∧ SignaturesAlike P chainId tx tx'

theorem forall₂_getElem? {α : Type*} {R : α → α → Prop} {xs ys : List α} (h : List.Forall₂ R xs ys)
    (i : Nat) : (xs[i]? = none ∧ ys[i]? = none) ∨ ∃ x y, xs[i]? = some x ∧ ys[i]? = some y ∧ R x y := by
  induction h generalizing i with
  | nil => exact .inl ⟨rfl, rfl⟩
  | cons hxy _ ih =>
    cases i with
    | zero => exact .inr ⟨_, _, rfl, rfl, hxy⟩
    | succ i => exact ih i

section

variable {P : Prims} {chainId : U64} {txs txs' : List Transaction}
  (hsame : List.Forall₂ (SameUpToSignature P chainId) txs txs')

include hsame

theorem allSigsValid_eq (st : StateMap) : allSigsValid P st chainId txs = allSigsValid P st chainId txs' := by
  by_cases hdevnet : chainId = devnetChainId
  · simp [allSigsValid, hdevnet]
  have hall : txs.all (batchVerdict P st) = txs'.all (batchVerdict P st) := by
    induction hsame with
    | nil => rfl
    | cons h _ ih =>
      obtain ⟨hunsigned, halike⟩ := h
      rw [eq_withSignature hunsigned] at halike
      rw [all_cons, all_cons, ih, eq_withSignature hunsigned, batchVerdict_withSignature halike hdevnet]
  rw [allSigsValid, hall, allSigsValid]

theorem blockProgram_eq (pvm : Pvm) (aot : Nat → Bool) {ctx : BlockContext}
    (hskip : ctx.devSkipSignature = decide (chainId = devnetChainId)) (stateRoot : Hash256) :
    blockProgram P pvm aot txs ctx stateRoot = blockProgram P pvm aot txs' ctx stateRoot := by
  funext i
  rcases forall₂_getElem? hsame i with ⟨hnone, hnone'⟩ | ⟨tx, tx', htx, htx', hunsigned, halike⟩
  · simp only [blockProgram, hnone, hnone']
  rw [eq_withSignature hunsigned] at halike htx'
  simp only [blockProgram, htx, htx', executeTransaction_withSignature halike pvm _ hskip]
  rfl

theorem executeBlock_eq (pvm : Pvm) (aot : Nat → Bool) {ctx : BlockContext}
    (hskip : ctx.devSkipSignature = decide (chainId = devnetChainId)) (manager : StateManager)
    {groups groups' : List ExecutionGroup}
    (hgroups : (groups.length ≤ 1 ∧ groups'.length ≤ 1) ∨ groups = groups') :
    executeBlock P pvm aot txs ctx manager groups = executeBlock P pvm aot txs' ctx manager groups' := by
  unfold executeBlock executeInOrder executeGroups
  rw [blockProgram_eq hsame pvm aot hskip, hsame.length_eq]
  rcases hgroups with ⟨hsingle, hsingle'⟩ | rfl
  · rw [if_pos hsingle, if_pos hsingle']
  · rfl

end

/-! ### Blocks -/

/-- What the hash of a block leaves open about two bodies, where it matters: signatures, schedules and access lists
whose counts are truncated when they are hashed. -/
structure BodiesAlike (P : Prims) (chainId : U64) (body body' : BlockBody) : Prop where
  signatures : ∀ (i : Nat) tx tx', body.transactions[i]? = some tx → body'.transactions[i]? = some tx' →
    SignaturesAlike P chainId tx tx'
  groups : (body.executionSchedule.groups.length ≤ 1 ∧ body'.executionSchedule.groups.length ≤ 1) ∨
    body.executionSchedule.groups = body'.executionSchedule.groups
  countsFit : ∀ tx ∈ body.transactions, tx.CountsFit
  countsFit' : ∀ tx ∈ body'.transactions, tx.CountsFit

/-- What a block does to the state and the fee market, with the receipts. -/
def Processed.effect (processed : Processed) : StateMap × List Receipt × U64 × U128 :=
  (processed.store, processed.receipts, processed.totalGas, processed.chain.baseFee)

/-- A body that passes validation matches the root in its header. -/
theorem txRoot_of_validateBlockBody {P : Prims} {block : Block} {st : StateMap} {chainId : U64}
    (h : validateBlockBody P block st chainId = .ok ()) :
    computeTxRoot P block.body.transactions (block.body.encryptedTxHashes P) = block.header.txRoot := by
  unfold validateBlockBody validateBlockBodyInner at h
  obtain ⟨hroot, _⟩ := checks_ok.mp h
  have hverify := Bool.of_not_eq_false (rejectIf_ok.mp hroot)
  exact of_decide_eq_true hverify

section

variable {P : Prims} {block block' : Block}

/-- Two bodies that match one root have the same transactions, up to signatures that make no
difference. -/
theorem sameUpToSignature_of_txRoot {preimages : Set Bytes} (hfree : P.CollisionFreeOn preimages)
    (hzero : block.RootNonzero P) (hzero' : block'.RootNonzero P) (hin : block.hashInputs P ⊆ preimages)
    (hin' : block'.hashInputs P ⊆ preimages) {chainId : U64}
    (halike : BodiesAlike P chainId block.body block'.body)
    (hroot : computeTxRoot P block.body.transactions (block.body.encryptedTxHashes P) =
      computeTxRoot P block'.body.transactions (block'.body.encryptedTxHashes P)) :
    List.Forall₂ (SameUpToSignature P chainId) block.body.transactions block'.body.transactions := by
  have hunsigned := Block.transactions_unsigned_eq hfree hzero hzero' hin hin' halike.countsFit
    halike.countsFit' hroot
  rw [forall₂_iff_get] at hunsigned ⊢
  refine ⟨hunsigned.1, fun i h h' => ⟨hunsigned.2 i h h', ?_⟩⟩
  exact halike.signatures i _ _ (List.getElem?_eq_getElem h) (List.getElem?_eq_getElem h')

/-- The effect of a block depends on its slot, its time, its proposer, its groups and its transactions
up to signatures that make no difference. -/
theorem applyBlock_effect_eq (pvm : Pvm) (aot : Nat → Bool) (chain : ChainState) (manager : StateManager)
    (hcommitted : block.header.committed = block'.header.committed)
    (hsame : List.Forall₂ (SameUpToSignature P chain.chainId) block.body.transactions block'.body.transactions)
    (hgroups : (block.body.executionSchedule.groups.length ≤ 1 ∧
      block'.body.executionSchedule.groups.length ≤ 1) ∨
      block.body.executionSchedule.groups = block'.body.executionSchedule.groups) :
    (applyBlock P pvm aot chain manager block).effect = (applyBlock P pvm aot chain manager block').effect := by
  obtain ⟨hslot, hproposer, htime, _⟩ := BlockHeader.fields_eq_of_committed_eq hcommitted
  have hctx : blockContext P chain manager.store block = blockContext P chain manager.store block' := by
    simp only [blockContext, hslot, htime, allSigsValid_eq hsame]
  have hskip : (blockContext P chain manager.store block').devSkipSignature =
      decide (chain.chainId = devnetChainId) := rfl
  simp only [applyBlock, Processed.effect, ChainState.advance, hctx, hslot, hproposer,
    executeBlock_eq hsame pvm aot hskip manager hgroups]

end

/-- Two valid bodies under one header hash have the same effect on every state, if they agree in what the hash leaves
open. Poseidon2 is taken not to collide on what was hashed, and not to map the transactions to the root of an empty
body. -/
theorem equal_hashes_equal_effects (P : Prims) (pvm : Pvm) (aot : Nat → Bool) (chain : ChainState)
    (manager : StateManager) (wsSlot : Option U64) (block block' : Block)
    (hfree : P.CollisionFreeOn (block.hashInputs P ∪ block'.hashInputs P))
    (hzero : block.RootNonzero P) (hzero' : block'.RootNonzero P) (hhash : block.header.hash P = block'.header.hash P)
    (hvalid : validateBlockBody P block manager.store chain.chainId = .ok ())
    (hvalid' : validateBlockBody P block' manager.store chain.chainId = .ok ())
    (halike : BodiesAlike P chain.chainId block.body block'.body) :
    (processFullBlock P pvm aot chain manager block wsSlot).map Processed.effect =
      (processFullBlock P pvm aot chain manager block' wsSlot).map Processed.effect := by
  have hin : block.hashInputs P ⊆ block.hashInputs P ∪ block'.hashInputs P := Set.subset_union_left
  have hin' : block'.hashInputs P ⊆ block.hashInputs P ∪ block'.hashInputs P := Set.subset_union_right
  have hcommitted := BlockHeader.committed_eq_of_hash_eq hfree
    (block.header_hashInputs_subset.trans hin) (block'.header_hashInputs_subset.trans hin') hhash
  obtain ⟨hslot, _, _, hcommittedRoot⟩ := BlockHeader.fields_eq_of_committed_eq hcommitted
  have hroot : computeTxRoot P block.body.transactions (block.body.encryptedTxHashes P) =
      computeTxRoot P block'.body.transactions (block'.body.encryptedTxHashes P) := by
    rw [txRoot_of_validateBlockBody hvalid, txRoot_of_validateBlockBody hvalid']
    exact hcommittedRoot
  have hsame := sameUpToSignature_of_txRoot hfree hzero hzero' hin hin' halike hroot
  have heffect := applyBlock_effect_eq pvm aot chain manager hcommitted hsame halike.groups
  have hheader : validateHeaderWithCheckpoint block.header chain wsSlot =
      validateHeaderWithCheckpoint block'.header chain wsSlot := by
    simp only [validateHeaderWithCheckpoint, hslot]
  unfold processFullBlock
  rw [hvalid, hvalid', hheader]
  cases validateHeaderWithCheckpoint block'.header chain wsSlot with
  | error reason => rfl
  | ok _ => exact congrArg Except.ok heffect

/-! ### Blocks with one hash -/

/-- The signed transfer again, with no groups and another state root in the header. -/
def regroupedBlock : Block where
  header := { signedBlock.header with stateRoot := fill32 3 }
  body := { signedBlock.body with executionSchedule := { groups := [], totalTxs := 1 } }

/-- The strings that are hashed for either block. -/
def signedBlockInputs : List Bytes :=
  [signedBlock.header.preimage lucid, [], QuorumCert.empty.preimage,
   txRootPreimage lucid [signedTransfer] [], signedTransfer.preimage lucid]

theorem hashInputs_signedBlock {block : Block}
    (hheader : block.header.hashInputs lucid = signedBlock.header.hashInputs lucid)
    (htxs : block.body.transactions = [signedTransfer]) (hencrypted : block.body.encryptedTxs = []) :
    ∀ bytes ∈ block.hashInputs lucid, bytes ∈ signedBlockInputs := by
  have hdecoded : block.body.decodedTxs = [] := by
    rw [BlockBody.decodedTxs, hencrypted]
    rfl
  have hhashes : block.body.encryptedTxHashes lucid = [] := by
    rw [BlockBody.encryptedTxHashes, hdecoded]
    rfl
  intro bytes hbytes
  rw [Block.hashInputs, hheader, htxs, hdecoded, hhashes] at hbytes
  rcases hbytes with ((hbytes | hbytes) | hbytes) | hbytes
  · rcases hbytes with rfl | rfl | rfl
    · exact mem_cons_self
    · exact mem_cons_of_mem _ mem_cons_self
    · exact mem_cons_of_mem _ (mem_cons_of_mem _ mem_cons_self)
  · rw [Set.mem_singleton_iff.mp hbytes]
    simp [signedBlockInputs]
  · simp only [mem_singleton, Set.iUnion_iUnion_eq_left] at hbytes
    rcases hbytes with rfl | rfl | rfl
    · simp [signedBlockInputs]
    · exact mem_cons_of_mem _ mem_cons_self
    · exact mem_cons_of_mem _ mem_cons_self
  · simp at hbytes

theorem signedBlocks_collisionFree : lucid.CollisionFreeOn
    (signedBlock.hashInputs lucid ∪ regroupedBlock.hashInputs lucid) := by
  have hpairs : ∀ bytes ∈ signedBlockInputs, ∀ bytes' ∈ signedBlockInputs,
      lucid.poseidon2Hash bytes = lucid.poseidon2Hash bytes' → bytes = bytes' := by
    decide +kernel
  have hin : ∀ bytes ∈ signedBlock.hashInputs lucid ∪ regroupedBlock.hashInputs lucid,
      bytes ∈ signedBlockInputs := by
    intro bytes hbytes
    rcases hbytes with hbytes | hbytes
    · exact hashInputs_signedBlock rfl rfl rfl bytes hbytes
    · exact hashInputs_signedBlock rfl rfl rfl bytes hbytes
  intro bytes hbytes bytes' hbytes' heq
  exact hpairs bytes (hin bytes hbytes) bytes' (hin bytes' hbytes') heq

theorem signedBlocks_alike : BodiesAlike lucid 1 signedBlock.body regroupedBlock.body where
  signatures := by
    intro i tx tx' htx htx'
    have heq : tx = tx' := Option.some.inj (htx.symm.trans htx')
    rw [heq]
    exact SignaturesAlike.refl lucid 1 tx'
  groups := Or.inl ⟨Nat.le_refl 1, Nat.zero_le 1⟩
  countsFit := List.forall_mem_singleton.mpr nofun
  countsFit' := List.forall_mem_singleton.mpr nofun

theorem equal_hashes_equal_effects_regrouped :
    (processFullBlock lucid idlePvm (fun _ => false) (ChainState.genesis zero32 1) keyedManager
        signedBlock none).map (fun processed => processed.receipts.map Receipt.success) = .ok [true] ∧
      (processFullBlock lucid idlePvm (fun _ => false) (ChainState.genesis zero32 1) keyedManager
          signedBlock none).map Processed.effect =
        (processFullBlock lucid idlePvm (fun _ => false) (ChainState.genesis zero32 1) keyedManager
          regroupedBlock none).map Processed.effect := by
  have hhash : signedBlock.header.hash lucid = regroupedBlock.header.hash lucid := by decide +kernel
  refine ⟨by decide +kernel, ?_⟩
  exact equal_hashes_equal_effects lucid idlePvm (fun _ => false) (ChainState.genesis zero32 1)
    keyedManager none signedBlock regroupedBlock signedBlocks_collisionFree (by decide +kernel)
    (by decide +kernel) hhash (by decide +kernel) (by decide +kernel) signedBlocks_alike

def transferPair : List Transaction := [transferOf devnetChainId 1 0, transferOf devnetChainId 1 1]

/-- The signed transfer with one byte in the place of its signature. -/
def forgedBlock : Block := blockOf lucid [{ signedTransfer with signature := [1] }] [[0]]

/-- Both blocks have one hash and pass body validation, and processing them leaves different nonces. -/
def EffectsDiffer (chainId : U64) (manager : StateManager) (block block' : Block) : Prop :=
  let nonceAfter := fun b => (processFullBlock lucid idlePvm (fun _ => false)
    (ChainState.genesis zero32 chainId) manager b none).map
      fun processed => (storedNonce lucid processed.store (fill32 1)).base
  block.header.hash lucid = block'.header.hash lucid ∧
    validateBlockBody lucid block manager.store chainId = .ok () ∧
    validateBlockBody lucid block' manager.store chainId = .ok () ∧
    ∃ nonce nonce', nonceAfter block = .ok nonce ∧ nonceAfter block' = .ok nonce' ∧ nonce ≠ nonce'

/-- Blocks that differ only in the groups of the schedule, and blocks that differ only in a signature. -/
theorem equal_hashes_different_effects :
    EffectsDiffer devnetChainId devnetManager (blockOf lucid transferPair [[0, 1]])
        (blockOf lucid transferPair [[0], [1]]) ∧ EffectsDiffer 1 keyedManager signedBlock forgedBlock := by
  constructor
  · refine ⟨rfl, by decide +kernel, by decide +kernel, 2, 0, ?_, ?_, by decide⟩
    · decide +kernel
    · decide +kernel
  · refine ⟨by decide +kernel, by decide +kernel, by decide +kernel, 1, 0, ?_, ?_, by decide⟩
    · decide +kernel
    · decide +kernel

end Pyde
