/-
Module: Pyde.Tx.ReplayProtection
Purpose: A nonce of a sender is used at most once. The nonce window is written in one place only, where
  the transaction is admitted; no handler, refund or write-back touches the key of a nonce window.
Trusted boundary: none
-/
import Pyde.Tx.Pipeline

namespace Pyde

open ByteCodec StateProgram List

variable {addr : Address} {st : StateMap} {keys : Set StateKey}

/-! ### Nothing but admission writes a nonce window -/

/-- The key is not that of a nonce window. -/
def NotNonce (key : StateKey) : Prop := ∀ addr, key ≠ .account addr .nonce

@[simp] theorem notNonce_account {field : AccountField} : NotNonce (.account addr field) ↔ field ≠ .nonce := by
  simp [NotNonce]

@[simp] theorem notNonce_single (field : GlobalField) : NotNonce (.single field) := by
  simp [NotNonce]

@[simp] theorem notNonce_indexed (field : IndexedField) (index : U64) : NotNonce (.indexed field index) := by
  simp [NotNonce]

/-- The keys of the protocol's own books and of contract storage: whatever is not an account's record,
nonce window, code or schedule. -/
def Bookkeeping : StateKey → Prop
  | .account _ field => field = .validator
  | _ => True

@[simp] theorem bookkeeping_account {field : AccountField} :
    Bookkeeping (.account addr field) ↔ field = .validator := Iff.rfl

@[simp] theorem bookkeeping_slot (contract : Address) (bytes : Bytes) : Bookkeeping (.slot contract bytes) := trivial

@[simp] theorem bookkeeping_single (field : GlobalField) : Bookkeeping (.single field) := trivial

@[simp] theorem bookkeeping_indexed (field : IndexedField) (index : U64) :
    Bookkeeping (.indexed field index) := trivial

theorem Bookkeeping.notNonce {key : StateKey} (h : Bookkeeping key) : NotNonce key := by
  rintro addr rfl
  cases h

theorem writesNotNonce {α : Type} {program : StateProg α} (h : program.Writes Bookkeeping) :
    program.Writes NotNonce :=
  h.mono fun _ => Bookkeeping.notNonce

section Readers

variable {φ : StateKey → Prop}

@[simp] theorem writes_readInt (w : Nat) (key : StateKey) : (readInt w key).Writes φ :=
  (Prog.writes_read key).bind fun _ => Prog.writes_pure _

@[simp] theorem writes_readGlobal (w : Nat) (field : GlobalField) (default : BitVec w) :
    (readGlobal w field default).Writes φ :=
  (writes_readInt w _).bind fun _ => Prog.writes_pure _

@[simp] theorem writes_loadAccount (addr : Address) : (loadAccount addr).Writes φ :=
  (Prog.writes_read _).bind fun _ => Prog.writes_pure _

@[simp] theorem writes_isPaused (slot : U64) : (isPaused slot).Writes φ :=
  (writes_readGlobal 64 _ _).bind fun _ => Prog.writes_pure _

@[simp] theorem writes_readMultisigSigners : readMultisigSigners.Writes φ :=
  (Prog.writes_read _).bind fun _ => Prog.writes_pure _

@[simp] theorem writes_readMultisigThreshold : readMultisigThreshold.Writes φ :=
  (Prog.writes_read _).bind fun _ => Prog.writes_pure _

@[simp] theorem writes_readAirdropRoot : readAirdropRoot.Writes φ :=
  (Prog.writes_read _).bind fun _ => Prog.writes_pure _

@[simp] theorem writes_isAirdropClaimed (leafIndex : U64) : (isAirdropClaimed leafIndex).Writes φ :=
  (Prog.writes_read _).bind fun _ => Prog.writes_pure _

end Readers

section Handlers

variable {P : Prims} {pvm : Pvm} {tx : Transaction} {ctx : BlockContext}

@[simp] theorem writes_storeAccount (account : Account) : (storeAccount account).Writes NotNonce := by
  simp [storeAccount]

variable {φ : StateKey → Prop} (aot : Bool) (sender : Account)

@[simp] theorem writes_writeGlobal {w : Nat} {field : GlobalField} {value : BitVec w} :
    (writeGlobal field value).Writes φ ↔ φ (.single field) := by
  simp [writeGlobal, writeInt]

theorem writes_applyAccountDelta (addr : Address) (initial final : Account) :
    (applyAccountDelta addr initial final).Writes NotNonce :=
  (writes_loadAccount addr).bind fun _ => writes_storeAccount _

@[simp] theorem writes_decrementActiveValidatorCount : decrementActiveValidatorCount.Writes Bookkeeping :=
  (writes_readGlobal 64 _ _).bind fun _ => writes_writeGlobal.mpr trivial

@[simp] theorem writes_storeContract (addr : Address) (code : Bytes) :
    (storeContract P addr code).Writes NotNonce := by
  apply Prog.Writes.bind
  · simp [storeCode]
  · exact fun _ => writes_storeAccount _

theorem writes_writeStorage (entries : List ((Address × Bytes) × Bytes)) :
    (writeStorage entries).Writes Bookkeeping := by
  induction entries with
  | nil => exact Prog.writes_pure ()
  | cons entry rest ih =>
    apply Prog.Writes.bind
    · simp
    · exact fun _ => ih

theorem writes_persistContracts (contracts : List (Address × Bytes)) :
    (persistContracts P contracts).Writes NotNonce := by
  induction contracts with
  | nil => exact Prog.writes_pure ()
  | cons contract rest ih =>
    apply Prog.Writes.bind
    · exact Prog.writes_read _
    · intro present
      cases present with
      | some code => exact ih
      | none => exact (writes_storeContract _ _).bind fun _ => ih

theorem writes_executeInPvm (code : Bytes) : (executeInPvm P pvm tx ctx aot code).Writes NotNonce := by
  apply Prog.Writes.bind
  · exact Query.writes_toProg _
  · intro out
    split
    · exact (writesNotNonce (writes_writeStorage _)).bind fun _ =>
        (writes_persistContracts _).bind fun _ => Prog.writes_pure _
    · exact Prog.writes_pure _

theorem writes_executeCall : (executeCall P pvm tx ctx aot).Writes NotNonce := by
  apply Prog.Writes.bind
  · exact Prog.writes_read _
  · intro code
    cases code with
    | some code => exact writes_executeInPvm aot code
    | none => exact Prog.writes_pure _

theorem writes_executeDeploy : (executeDeploy P pvm tx ctx sender).Writes NotNonce := by
  apply Prog.Writes.bind
  · unfold deployCode
    split
    · exact (writes_storeContract _ _).bind fun _ => Prog.writes_pure _
    · exact (writes_storeContract _ _).bind fun _ =>
        (writes_executeInPvm _ _).bind fun _ => Prog.writes_pure _
  · exact fun _ => Prog.writes_pure _

theorem writes_registerValidator (pk : Bytes) : (registerValidator tx pk).Writes Bookkeeping := by
  unfold registerValidator readRewardsPerValidator
  repeat' refine .bind ?_ fun _ => ?_
  all_goals simp

theorem writes_executeStakeDeposit : (executeStakeDeposit P tx sender).Writes Bookkeeping := by
  unfold executeStakeDeposit
  split
  · exact Prog.writes_pure _
  split
  · exact Prog.writes_pure _
  split
  · exact Prog.writes_pure _
  apply Prog.Writes.bind
  · exact Prog.writes_read _
  · intro existing
    cases existing with
    | some entry => exact Prog.writes_pure _
    | none => exact (writes_registerValidator _).bind fun _ => Prog.writes_pure _

/-! The remaining handlers read, check and write records of their own; every leaf is a read, a write to
a key that is no nonce key, or an answer. -/

theorem writes_executeStakeWithdraw : (executeStakeWithdraw tx ctx).Writes Bookkeeping := by
  unfold executeStakeWithdraw
  with_reducible repeat' first | split | refine .bind ?_ fun _ => ?_ | dsimp only
  all_goals simp

theorem writes_executeClaimReward : (executeClaimReward tx sender).Writes Bookkeeping := by
  unfold executeClaimReward readRewardsPerValidator
  with_reducible repeat' first | split | refine .bind ?_ fun _ => ?_ | dsimp only
  all_goals simp

theorem writes_executeSlash (chainId : U64) (balance : U128) :
    (executeSlash P tx chainId balance).Writes Bookkeeping := by
  unfold executeSlash applySlash
  with_reducible repeat' first | split | refine .bind ?_ fun _ => ?_ | dsimp only
  all_goals simp

theorem writes_executeClaimAirdrop (balance : U128) : (executeClaimAirdrop P tx ctx balance).Writes NotNonce := by
  unfold executeClaimAirdrop payAirdrop readAirdropDeadline markAirdropClaimed
  with_reducible repeat' first | split | refine .bind ?_ fun _ => ?_ | dsimp only
  all_goals simp

theorem writes_executeSweepAirdrop : (executeSweepAirdrop P tx ctx).Writes NotNonce := by
  unfold executeSweepAirdrop readAirdropDeadline
  with_reducible repeat' first | split | refine .bind ?_ fun _ => ?_ | dsimp only
  all_goals simp

@[simp] theorem writes_multisigOk {label : String} {sigs : List SigEntry}
    {gas : U64} {signing : StateProg (Bytes × U64)} (hsigning : signing.Writes φ) :
    (multisigOk P label sigs gas signing).Writes φ := by
  unfold multisigOk
  with_reducible repeat' first | exact hsigning | split | refine .bind ?_ fun _ => ?_
  all_goals simp

theorem writes_signing {φ : StateKey → Prop} {msg : U64 → Bytes} :
    (do let nonce ← readMultisigNonce
        pure (msg nonce, nonce) : StateProg (Bytes × U64)).Writes φ :=
  (writes_readGlobal 64 _ _).bind fun _ => Prog.writes_pure _

theorem writes_executeMultisigSpend : (executeMultisigSpend P tx ctx).Writes NotNonce := by
  unfold executeMultisigSpend paySpend writeMultisigNonce
  with_reducible repeat' first | split | refine .bind ?_ fun _ => ?_ | dsimp only
  all_goals simp [writes_signing]

theorem writes_executeRotateMultisig : (executeRotateMultisig P tx ctx).Writes Bookkeeping := by
  unfold executeRotateMultisig writeMultisigSigners writeMultisigThreshold writeMultisigNonce
  with_reducible repeat' first | split | refine .bind ?_ fun _ => ?_ | dsimp only
  all_goals simp [writes_signing]

theorem writes_executeEmergencyPause : (executeEmergencyPause P tx ctx).Writes Bookkeeping := by
  unfold executeEmergencyPause readMultisigNonce writeEmergencyPauseEndSlot writeMultisigNonce
  with_reducible repeat' first | split | refine .bind ?_ fun _ => ?_ | dsimp only
  all_goals simp

theorem writes_executeEmergencyResume : (executeEmergencyResume P tx ctx).Writes Bookkeeping := by
  unfold executeEmergencyResume readMultisigNonce writeEmergencyPauseEndSlot writeMultisigNonce
  with_reducible repeat' first | split | refine .bind ?_ fun _ => ?_ | dsimp only
  all_goals simp

theorem writes_keepSender {sender : Account} {handler : StateProg Outcome}
    (h : handler.Writes NotNonce) : (keepSender sender handler).Writes NotNonce :=
  h.bind fun _ => Prog.writes_pure _

theorem writes_withBalance {sender : Account} {handler : U128 → StateProg (Outcome × U128)}
    (h : ∀ balance, (handler balance).Writes NotNonce) : (withBalance sender handler).Writes NotNonce :=
  (h sender.balance).bind fun _ => Prog.writes_pure _

theorem writes_dispatch : (dispatch P pvm aot tx ctx sender).Writes NotNonce := by
  unfold dispatch
  cases tx.txType with
  | standard =>
    simp only
    split
    · exact writes_keepSender (writes_executeCall aot)
    · exact Prog.writes_pure _
  | deploy => exact writes_executeDeploy sender
  | stakeDeposit => exact writesNotNonce (writes_executeStakeDeposit sender)
  | stakeWithdraw => exact writes_keepSender (writesNotNonce writes_executeStakeWithdraw)
  | slash => exact writes_withBalance fun balance => writesNotNonce (writes_executeSlash ctx.chainId balance)
  | claimReward => exact writesNotNonce (writes_executeClaimReward sender)
  | claimAirdrop => exact writes_withBalance writes_executeClaimAirdrop
  | sweepAirdrop => exact writes_keepSender writes_executeSweepAirdrop
  | multisigTx => exact writes_keepSender writes_executeMultisigSpend
  | rotateMultisig => exact writes_keepSender (writesNotNonce writes_executeRotateMultisig)
  | emergencyPause => exact writes_keepSender (writesNotNonce writes_executeEmergencyPause)
  | emergencyResume => exact writes_keepSender (writesNotNonce writes_executeEmergencyResume)
  | registerPubkey => exact Prog.writes_pure _

/-- Whatever happens after admission, no nonce window is written. -/
theorem writes_perform (stateRoot : Hash256) (sender rcpt : Account) :
    (perform P pvm aot tx ctx stateRoot sender rcpt).Writes NotNonce := by
  unfold perform
  split
  · refine .bind ?_ fun _ => Prog.writes_pure _
    exact (writes_applyAccountDelta _ _ _).bind fun _ => Prog.writes_pure _
  split
  · exact Prog.writes_pure _
  refine .bind ?_ fun _ => Prog.writes_pure _
  exact (writes_dispatch aot _).bind fun _ => (writes_applyAccountDelta _ _ _).bind fun _ =>
    (writes_applyAccountDelta _ _ _).bind fun _ => Prog.writes_pure _

end Handlers

/-! ### One transaction -/

/-- The result is not that of a transaction turned away by validation or by the pause gate. -/
def executed : Except PipelineError Receipt → Bool
  | .ok _ => true
  | .error (.validation _) => false
  | .error e => e ≠ chainPaused

/-- The arguments of one `execute_transaction` call. -/
structure Submission where
  tx : Transaction
  ctx : BlockContext
  native : Bool
  stateRoot : Hash256

section Step

variable (P : Prims) (pvm : Pvm)

def Submission.program (sub : Submission) : StateProg (Except PipelineError Receipt) :=
  executeTransaction P pvm sub.native sub.tx sub.ctx sub.stateRoot

def writtenKeys {α : Type} (program : StateProg α) (st : StateMap) : List StateKey :=
  (writes stored (StateKey.hash P) program st).map Prod.fst

variable {P pvm}

theorem writtenKeys_bind {α β : Type} (program : StateProg α) (next : α → StateProg β) :
    writtenKeys P (program >>= next) st = writtenKeys P program st ++
        writtenKeys P (next (runIn P program st).1) (runIn P program st).2 := by
  unfold writtenKeys
  rw [writes_bind, map_append]

/-- A program that writes no nonce window leaves every window alone, as long as no key it writes is
hashed to the location of the window. -/
theorem storedNonce_frame {α : Type} {program : StateProg α} (hprogram : program.Writes NotNonce)
    (hinj : HashApart P keys) (hwritten : ∀ key ∈ writtenKeys P program st, key ∈ keys)
    (haddr : .account addr .nonce ∈ keys) :
    storedNonce P (runIn P program st).2 addr = storedNonce P st addr := by
  have hkept : (runIn P program st).2 (nonceKey P addr) = st (nonceKey P addr) := by
    apply run_frame
    intro w hw heq
    have hkey := hinj (hwritten w.1 (mem_map_of_mem hw)) haddr heq
    exact hprogram.mem stored (StateKey.hash P) st w hw addr hkey
  rw [storedNonce, hkept, storedNonce]

theorem storedNonce_storeNonce_of_ne (hinj : HashApart P keys) {other : Address}
    (hne : other ≠ addr) (haddr : .account addr .nonce ∈ keys)
    (hother : .account other .nonce ∈ keys) (nonce : NonceState) :
    storedNonce P (runIn P (storeNonce other nonce) st).2 addr = storedNonce P st addr := by
  have hkept : (runIn P (storeNonce other nonce) st).2 (nonceKey P addr) = st (nonceKey P addr) := by
    apply run_frame
    intro w hw heq
    have hw' : w = (StateKey.account other .nonce, nonce.toBytes) := List.mem_singleton.mp hw
    subst hw'
    have hkey := hinj hother haddr heq
    simp only [StateKey.account.injEq] at hkey
    exact hne hkey.1
  rw [storedNonce, hkept, storedNonce]

/-- A transaction that is admitted runs on from the state in which its nonce is used up. -/
theorem run_of_admitted (pvm : Pvm) {sub : Submission} {st' : StateMap} {accounts : Account × Account}
    (hadmission : runIn P (admission P sub.tx sub.ctx) st = (.ok accounts, st')) :
    let rest := perform P pvm sub.native sub.tx sub.ctx sub.stateRoot
      accounts.1 accounts.2
    runIn P (sub.program P pvm) st = runIn P rest st' ∧
      ∀ key ∈ writtenKeys P rest st', key ∈ writtenKeys P (sub.program P pvm) st := by
  intro rest
  constructor
  · simp only [Submission.program, executeTransaction, run_bind, hadmission]
    rfl
  · intro key hkey
    simp only [writtenKeys, Submission.program, executeTransaction, writes_bind, hadmission, map_append]
    exact mem_append_right _ hkey

/-- What one transaction does to the nonce windows: nothing is forgotten, and if it was executed, its
own nonce was free before and is consumed afterwards. -/
theorem execute_nonces (sub : Submission) (hinj : HashApart P keys)
    (hwritten : ∀ key ∈ writtenKeys P (sub.program P pvm) st, key ∈ keys)
    (hsender : .account sub.tx.fromAddress .nonce ∈ keys)
    (haddr : .account addr .nonce ∈ keys) :
    (∀ nonce, (storedNonce P st addr).Consumed nonce →
      (storedNonce P (runIn P (sub.program P pvm) st).2 addr).Consumed nonce) ∧
    (executed (runIn P (sub.program P pvm) st).1 = true → sub.tx.fromAddress = addr →
        ¬ (storedNonce P st addr).Consumed sub.tx.nonce ∧
        (storedNonce P (runIn P (sub.program P pvm) st).2 addr).Consumed sub.tx.nonce) := by
  rcases admission_cases P sub.tx sub.ctx st with
    ⟨e, hadmission, hreason⟩ | ⟨used, hvalid, huse, hadmission⟩
  · rw [Submission.program, run_executeTransaction_of_refused hadmission]
    refine ⟨fun _ h => h, ?_⟩
    intro hexecuted
    rcases hreason with rfl | ⟨v, rfl⟩
    · simp [executed, chainPaused] at hexecuted
    · cases hexecuted
  obtain ⟨bit, hbit⟩ := validateTransaction_nonce hvalid
  obtain ⟨hrun, hsub⟩ := run_of_admitted pvm hadmission
  have hframe := storedNonce_frame (writes_perform sub.native sub.stateRoot _ _) hinj
    (fun key hkey => hwritten key (hsub key hkey)) haddr
  rw [hrun, hframe]
  have hconsumed := NonceState.consumed_useNonce huse
  by_cases hsame : sub.tx.fromAddress = addr
  · subst hsame
    rw [storedNonce_storeNonce]
    refine ⟨fun _ h => (hconsumed _).mpr (.inr h), fun _ _ => ⟨NonceState.not_consumed_of_validate hbit, ?_⟩⟩
    exact (hconsumed _).mpr (.inl rfl)
  · rw [storedNonce_storeNonce_of_ne hinj hsame haddr hsender]
    exact ⟨fun _ h => h, fun _ h => absurd h hsame⟩

end Step

/-! ### Any sequence of transactions -/

section Run

variable (P : Prims) (pvm : Pvm)

/-- Execute the transactions one after the other; each with its result, and the state afterwards. -/
def executeAll : List Submission → StateMap → List (Submission × Except PipelineError Receipt) × StateMap
  | [], st => ([], st)
  | sub :: rest, st =>
    let step := runIn P (sub.program P pvm) st
    let tail := executeAll rest step.2
    ((sub, step.1) :: tail.1, tail.2)

/-- A transaction of a sequence, and the state that it found. -/
structure ChainStep where
  submission : Submission
  before : StateMap

def ChainStep.run (step : ChainStep) : Except PipelineError Receipt × StateMap :=
  runIn P (step.submission.program P pvm) step.before

/-- The transactions one after the other. -/
def chainSteps : List Submission → StateMap → List ChainStep
  | [], _ => []
  | sub :: rest, st =>
    { submission := sub, before := st } :: chainSteps rest (runIn P (sub.program P pvm) st).2

/-- All keys that are written on the way. -/
def keysWritten : List Submission → StateMap → List StateKey
  | [], _ => []
  | sub :: rest, st =>
    writtenKeys P (sub.program P pvm) st ++ keysWritten rest (runIn P (sub.program P pvm) st).2

/-- The keys that are written on the way, and the nonce keys of all senders. -/
def keysInPlay (subs : List Submission) (st : StateMap) : Set StateKey :=
  {key | key ∈ keysWritten P pvm subs st ∨
    ∃ sub ∈ subs, key = .account sub.tx.fromAddress .nonce}

def ExecutesNonce (sender : Address) (nonce : U64)
    (res : Submission × Except PipelineError Receipt) : Bool :=
  res.1.tx.fromAddress = sender ∧ res.1.tx.nonce = nonce ∧ executed res.2

variable {P pvm}

theorem keysInPlay_step {sub : Submission} {rest : List Submission}
    (h : keysInPlay P pvm (sub :: rest) st ⊆ keys) :
    (∀ key ∈ writtenKeys P (sub.program P pvm) st, key ∈ keys) ∧
      .account sub.tx.fromAddress .nonce ∈ keys ∧
      keysInPlay P pvm rest (runIn P (sub.program P pvm) st).2 ⊆ keys := by
  refine ⟨?_, ?_, ?_⟩
  · intro key hkey
    exact h (.inl (mem_append_left _ hkey))
  · exact h (.inr ⟨sub, mem_cons_self, rfl⟩)
  · rintro key (hkey | ⟨other, hother, rfl⟩)
    · exact h (.inl (mem_append_right _ hkey))
    · exact h (.inr ⟨other, mem_cons_of_mem _ hother, rfl⟩)

/-- Once a nonce is consumed, no transaction with it is executed any more. -/
theorem none_executed_of_consumed (hinj : HashApart P keys) {sender : Address}
    (hsender : .account sender .nonce ∈ keys) {nonce : U64} {subs : List Submission}
    (hkeys : keysInPlay P pvm subs st ⊆ keys) (hconsumed : (storedNonce P st sender).Consumed nonce) :
    (executeAll P pvm subs st).1.countP (ExecutesNonce sender nonce) = 0 := by
  induction subs generalizing st with
  | nil => rfl
  | cons sub rest ih =>
    obtain ⟨hwritten, hown, hrest⟩ := keysInPlay_step hkeys
    obtain ⟨hkept, hexecuted⟩ := execute_nonces sub hinj hwritten hown hsender
    rw [executeAll, countP_cons_of_neg, ih hrest (hkept nonce hconsumed)]
    simp only [ExecutesNonce, decide_eq_true_eq]
    rintro ⟨hfrom, hnonce, hran⟩
    rw [hnonce] at hexecuted
    exact (hexecuted hran hfrom).1 hconsumed

theorem at_most_one_executed (hinj : HashApart P keys) (sender : Address) (nonce : U64)
    {subs : List Submission} (hkeys : keysInPlay P pvm subs st ⊆ keys) :
    (executeAll P pvm subs st).1.countP (ExecutesNonce sender nonce) ≤ 1 := by
  induction subs generalizing st with
  | nil => exact Nat.zero_le 1
  | cons sub rest ih =>
    obtain ⟨hwritten, hown, hrest⟩ := keysInPlay_step hkeys
    rw [executeAll, countP_cons]
    split
    · rename_i hfirst
      simp only [ExecutesNonce, decide_eq_true_eq] at hfirst
      obtain ⟨hfrom, hnonce, hran⟩ := hfirst
      rw [hfrom] at hown
      obtain ⟨_, hexecuted⟩ := execute_nonces sub hinj hwritten (hfrom ▸ hown) hown
      have hconsumed := (hexecuted hran hfrom).2
      rw [hnonce] at hconsumed
      rw [none_executed_of_consumed hinj hown hrest hconsumed]
    · exact ih hrest

end Run

/-- For every sender and nonce, whatever the state and whatever the transactions, at most one
transaction is executed. Poseidon2 is taken not to collide on the state keys in play. -/
theorem at_most_one_execution (P : Prims) (pvm : Pvm) (subs : List Submission) (st : StateMap)
    (hfree : P.CollisionFreeOn (StateKey.preimage '' keysInPlay P pvm subs st))
    (sender : Address) (nonce : U64) :
    (executeAll P pvm subs st).1.countP (ExecutesNonce sender nonce) ≤ 1 := by
  have hinj := StateKey.injOn_hash hfree
  exact at_most_one_executed hinj sender nonce le_rfl

/-! ### A repeated transfer -/

def fundedState : StateMap :=
  StateProgram.insert stored (fun _ => none) (balanceKey lucid (fill32 1))
    { Account.empty (fill32 1) with balance := 1000000 }.toBytes

def devnetContext : BlockContext :=
  { height := 1, timestamp := 0, baseFee := 1, blockGasLimit := gasTarget, chainId := devnetChainId,
    devSkipSignature := true, blockSigsPreVerified := false }

/-- A transfer of 1000 quanta under nonce 3. -/
def transferSubmission : Submission :=
  { tx :=
      { fromAddress := fill32 1, toAddress := fill32 2, value := 1000, data := [],
        gasLimit := 21000, nonce := 3, signature := [], feePayer := .sender, accessList := [],
        deadline := none, chainId := devnetChainId, txType := .standard }
    ctx := devnetContext
    native := false
    stateRoot := zero32 }

theorem transfer_keys_distinct : lucid.CollisionFreeOn
    (StateKey.preimage '' keysInPlay lucid idlePvm [transferSubmission, transferSubmission] fundedState) := by
  refine collisionFreeOn_of_listed [.account (fill32 1) .nonce, .account (fill32 1) .balance,
    .account (fill32 2) .balance] (by decide +kernel) ?_
  rintro key (hkey | ⟨sub, hsub, rfl⟩)
  · revert key
    decide +kernel
  · simp only [mem_cons, not_mem_nil, or_false, or_self] at hsub
    subst hsub
    exact mem_cons_self

/-- Of two submissions of one transfer, exactly one is executed. -/
theorem at_most_one_execution_repeated :
    (executeAll lucid idlePvm [transferSubmission, transferSubmission] fundedState).1.countP
        (ExecutesNonce (fill32 1) 3) ≤ 1 ∧
      executed (runIn lucid (transferSubmission.program lucid idlePvm) fundedState).1 = true :=
  ⟨at_most_one_execution lucid idlePvm [transferSubmission, transferSubmission] fundedState
    transfer_keys_distinct (fill32 1) 3, by decide +kernel⟩

end Pyde
