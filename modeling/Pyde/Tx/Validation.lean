/-
Module: Pyde.Tx.Validation
Purpose: The checks a transaction passes before it executes, in the order they are made, and the byte formats that its
  handlers read and write.
Trusted boundary: Prims
-/
import Pyde.Tx.Types
import Pyde.Account.Auth

namespace Pyde

open ByteCodec

def minGasLimit : U64 := 21000#64

def maxTxSize : Nat := 128 * 1024

def maxCalldata : Nat := 64 * 1024

/-- The chain id on which unsigned senders and sponsored fees are let through. -/
def devnetChainId : U64 := 31337#64

structure ValidationContext where
  blockHeight : U64
  baseFee : U128
  blockGasLimit : U64
  chainId : U64
  devSkipSignature : Bool
  senderLocked : U128
  sigPreVerified : Bool

inductive ValidationError where
  | invalidSignature
  | invalidNonce (reason : String)
  | insufficientBalance (required available : U128)
  | gasLimitTooLow (limit min : U64)
  | gasLimitTooHigh (limit max : U64)
  | deadlineExpired (deadline cur : U64)
  | txTooLarge (size max : Nat)
  | calldataTooLarge (size max : Nat)
  | invalidAccessList (reason : String)
  | wrongChainId (expected got : U64)
  | invalidPaymaster
  | unexpectedValue (txType : U8) (value : U128)
  | unexpectedTo (txType : U8)
  | disabledTxType (txType : U8)
deriving DecidableEq

/-- The `Debug` text of a nonce error. -/
def NonceError.debug : NonceError → String
  | belowWindow => "BelowWindow"
  | aboveWindow => "AboveWindow"
  | alreadyUsed => "AlreadyUsed"

/-- The `Debug` text of a variant with named fields. -/
def debugFields (name : String) (fields : List (String × String)) : String :=
  name ++ " \x7b " ++ ", ".intercalate (fields.map fun field => field.1 ++ ": " ++ field.2) ++ " \x7d"

/-- The `Debug` text of a variant that holds a message. No message has a character that is escaped. -/
def debugText (name text : String) : String := name ++ "(\x22" ++ text ++ "\x22)"

/-- The `Debug` text of a validation error, which ends up in the receipt of a rejected transaction. -/
def ValidationError.debug : ValidationError → String
  | invalidSignature => "InvalidSignature"
  | invalidNonce reason => debugText "InvalidNonce" reason
  | insufficientBalance required available =>
    debugFields "InsufficientBalance" [("required", decimal required), ("available", decimal available)]
  | gasLimitTooLow limit min => debugFields "GasLimitTooLow" [("limit", decimal limit), ("min", decimal min)]
  | gasLimitTooHigh limit max => debugFields "GasLimitTooHigh" [("limit", decimal limit), ("max", decimal max)]
  | deadlineExpired deadline cur =>
    debugFields "DeadlineExpired" [("deadline", decimal deadline), ("current", decimal cur)]
  | txTooLarge size max => debugFields "TxTooLarge" [("size", toString size), ("max", toString max)]
  | calldataTooLarge size max => debugFields "CalldataTooLarge" [("size", toString size), ("max", toString max)]
  | invalidAccessList reason => debugText "InvalidAccessList" reason
  | wrongChainId expected got => debugFields "WrongChainId" [("expected", decimal expected), ("got", decimal got)]
  | invalidPaymaster => "InvalidPaymaster"
  | unexpectedValue txType value =>
    debugFields "UnexpectedValue" [("tx_type", decimal txType), ("value", decimal value)]
  | unexpectedTo txType => debugFields "UnexpectedTo" [("tx_type", decimal txType)]
  | disabledTxType txType => "DisabledTxType(" ++ decimal txType ++ ")"

/-- Go on only if the condition does not hold. -/
def rejectIf {ε : Type} (condition : Prop) [Decidable condition] (error : ε) : Except ε Unit :=
  if condition then .error error else .ok ()

section

variable (P : Prims) (tx : Transaction) (sender : Account) (nonceState : NonceState)
  (ctx : ValidationContext)

def validateChainId : Except ValidationError Unit :=
  rejectIf (tx.chainId ≠ ctx.chainId) (.wrongChainId ctx.chainId tx.chainId)

/-- `validate_signature`. Accounts without a key of their own are not checked here. -/
def validateSignature : Except ValidationError Unit :=
  match sender.authKeys with
  | .single pk => rejectIf (tx.verifySignature P pk = false) .invalidSignature
  | .none => .ok ()
  | .multiSig _ _ => .ok ()

/-- The signature check of `validate_transaction`, which the caller can switch off. -/
def validateSignatureUnlessSkipped : Except ValidationError Unit :=
  if ctx.devSkipSignature ∨ ctx.sigPreVerified then .ok () else validateSignature P tx sender

def validateNonce : Except ValidationError Unit :=
  match nonceState.validate tx.nonce with
  | .ok _ => .ok ()
  | .error e =>
    .error (.invalidNonce (e.debug ++ " (got " ++ decimal tx.nonce ++ ", window [" ++
      decimal nonceState.base ++ ".." ++ decimal nonceState.maxNonce ++ "], next usable " ++
      decimal nonceState.base ++ ")"))

def validateBalance : Except ValidationError Unit :=
  let spendable := satSub sender.balance ctx.senderLocked
  let overflow : Except ValidationError Unit := .error (.insufficientBalance (BitVec.allOnes 128) spendable)
  match checkedMul (tx.gasLimit.setWidth 128) ctx.baseFee with
  | none => overflow
  | some gasCost =>
    match checkedAdd gasCost tx.value with
    | none => overflow
    | some totalRequired =>
      match tx.feePayer with
      | .sender => rejectIf (spendable < totalRequired) (.insufficientBalance totalRequired spendable)
      | .gasTank _ => rejectIf (spendable < tx.value) (.insufficientBalance tx.value spendable)
      | .paymaster addr => rejectIf (addr = zero32) .invalidPaymaster

def validateGasLimit : Except ValidationError Unit := do
  rejectIf (tx.gasLimit < minGasLimit) (.gasLimitTooLow tx.gasLimit minGasLimit)
  rejectIf (ctx.blockGasLimit < tx.gasLimit) (.gasLimitTooHigh tx.gasLimit ctx.blockGasLimit)

def validateDeadline : Except ValidationError Unit :=
  match tx.deadline with
  | some deadline => rejectIf (deadline ≤ ctx.blockHeight) (.deadlineExpired deadline ctx.blockHeight)
  | none => .ok ()

/-- The first two entries with one address, numbered from `i` on. -/
def duplicateAddress : Nat → List AccessEntry → Option (Nat × Nat)
  | _, [] => none
  | i, entry :: rest =>
    match rest.findIdx? fun e => e.address = entry.address with
    | some k => some (i, i + 1 + k)
    | none => duplicateAddress (i + 1) rest

def validateAccessList : Except ValidationError Unit :=
  match duplicateAddress 0 tx.accessList with
  | some (i, j) =>
    .error (.invalidAccessList ("duplicate address at entries " ++ toString i ++ " and " ++ toString j))
  | none => .ok ()

def validateSize : Except ValidationError Unit := do
  rejectIf (maxCalldata < tx.data.length) (.calldataTooLarge tx.data.length maxCalldata)
  rejectIf (maxTxSize < tx.toBytes.length) (.txTooLarge tx.toBytes.length maxTxSize)

/-- `validate_register_pubkey`: such a transaction is unsigned and pays no gas; that the sender address
is the hash of the key is the proof of ownership. -/
def validateRegisterPubkey : Except ValidationError Unit := do
  rejectIf (tx.signature ≠ []) .invalidSignature
  rejectIf (tx.value ≠ 0) .invalidPaymaster
  rejectIf (tx.gasLimit ≠ 0) (.gasLimitTooHigh tx.gasLimit 0)
  rejectIf (tx.data.length ≠ FalconPublicKey.size) .invalidSignature
  rejectIf (P.poseidon2Hash tx.data ≠ tx.fromAddress) .invalidSignature
  rejectIf (sender.balance = 0) (.insufficientBalance 1 0)
  rejectIf (sender.authKeys ≠ .none) .invalidSignature
  validateNonce tx nonceState
  validateSize tx

/-- The types whose execution reads `value` and `to`. -/
def TransactionType.carriesValue (t : TransactionType) : Bool := t = .standard ∨ t = .deploy

def AuthKeys.isMultiSig : AuthKeys → Bool
  | .multiSig _ _ => true
  | _ => false

def validateTransaction : Except ValidationError Unit := do
  validateChainId tx ctx
  if tx.txType = .registerPubkey then validateRegisterPubkey P tx sender nonceState
  else do
    rejectIf (ctx.chainId ≠ devnetChainId ∧ sender.authKeys = .none) .invalidSignature
    rejectIf (ctx.chainId ≠ devnetChainId ∧ sender.authKeys.isMultiSig) .invalidSignature
    rejectIf (ctx.chainId ≠ devnetChainId ∧ tx.feePayer ≠ .sender) .invalidPaymaster
    rejectIf (¬ tx.txType.carriesValue ∧ tx.value ≠ 0) (.unexpectedValue tx.txType.toU8 tx.value)
    rejectIf (¬ tx.txType.carriesValue ∧ tx.toAddress ≠ zeroAddress) (.unexpectedTo tx.txType.toU8)
    rejectIf (tx.txType = .stakeWithdraw) (.disabledTxType tx.txType.toU8)
    validateSignatureUnlessSkipped P tx sender ctx
    validateNonce tx nonceState
    validateBalance tx sender ctx
    validateGasLimit tx ctx
    validateDeadline tx ctx
    validateAccessList tx
    validateSize tx

end

/-! ### What a valid transaction has passed -/

theorem rejectIf_ok {ε : Type} {condition : Prop} [Decidable condition] {error : ε} :
    rejectIf condition error = .ok () ↔ ¬ condition := by
  unfold rejectIf
  split <;> simp_all

theorem checks_ok {ε α : Type} {first : Except ε Unit} {rest : Except ε α} {a : α} :
    (first >>= fun _ => rest) = .ok a ↔ first = .ok () ∧ rest = .ok a := by
  cases first with
  | error e | ok u => simp [bind, Except.bind]

variable {P : Prims} {tx : Transaction} {sender : Account} {nonceState : NonceState} {ctx : ValidationContext}

theorem validateNonce_ok (h : validateNonce tx nonceState = .ok ()) :
    ∃ bit, nonceState.validate tx.nonce = .ok bit := by
  unfold validateNonce at h
  cases hvalid : nonceState.validate tx.nonce with
  | ok bit => exact ⟨bit, rfl⟩
  | error e =>
    rw [hvalid] at h
    cases h

/-- A valid transaction's nonce is free in the sender's window. -/
theorem validateTransaction_nonce (h : validateTransaction P tx sender nonceState ctx = .ok ()) :
    ∃ bit, nonceState.validate tx.nonce = .ok bit := by
  unfold validateTransaction at h
  rw [checks_ok] at h
  obtain ⟨_, h⟩ := h
  split at h
  · unfold validateRegisterPubkey at h
    simp only [checks_ok] at h
    exact validateNonce_ok h.2.2.2.2.2.2.2.1
  · simp only [checks_ok] at h
    exact validateNonce_ok h.2.2.2.2.2.2.2.1

/-- Outside the devnet, a valid transaction other than a key registration comes from an account with
a single key, which the signature verifies under unless that check is switched off. -/
theorem validateTransaction_single (hchain : ctx.chainId ≠ devnetChainId)
    (htype : tx.txType ≠ .registerPubkey) (h : validateTransaction P tx sender nonceState ctx = .ok ()) :
    ∃ pk, sender.authKeys = .single pk ∧ (ctx.devSkipSignature = false → ctx.sigPreVerified = false →
        tx.verifySignature P pk = true) := by
  unfold validateTransaction at h
  rw [checks_ok, if_neg htype] at h
  simp only [checks_ok, rejectIf_ok] at h
  obtain ⟨_, hnone, hmulti, _, _, _, _, hsig, _⟩ := h
  unfold validateSignatureUnlessSkipped at hsig
  cases hauth : sender.authKeys with
  | none => exact absurd ⟨hchain, hauth⟩ hnone
  | multiSig keys threshold =>
    rw [hauth] at hmulti
    exact absurd ⟨hchain, rfl⟩ hmulti
  | single pk =>
    refine ⟨pk, rfl, ?_⟩
    intro hdev hpre
    rw [if_neg (by simp [hdev, hpre]), validateSignature, hauth, rejectIf_ok] at hsig
    exact Bool.of_not_eq_false hsig

/-- Gas and value of a transaction that passes the balance check do not overflow, and a sender who pays
for both has enough. -/
theorem validateBalance_ok (h : validateBalance tx sender ctx = .ok ()) :
    tx.gasLimit.toNat * ctx.baseFee.toNat + tx.value.toNat < 2 ^ 128 ∧ (tx.feePayer = .sender →
        tx.gasLimit.toNat * ctx.baseFee.toNat + tx.value.toNat ≤ sender.balance.toNat) := by
  unfold validateBalance at h
  dsimp only at h
  split at h
  · cases h
  rename_i gasCost hmul
  obtain ⟨_, hgas⟩ := checkedMul_some hmul
  rw [tx.toNat_limit] at hgas
  split at h
  · cases h
  rename_i total hadd
  obtain ⟨hlt, htotal⟩ := checkedAdd_some hadd
  rw [hgas] at hlt htotal
  refine ⟨hlt, ?_⟩
  intro hpayer
  rw [hpayer] at h
  have hle := BitVec.le_def.mp (BitVec.not_lt.mp (rejectIf_ok.mp h))
  rw [htotal] at hle
  exact hle.trans ((toNat_satSub _ _).trans_le (Nat.sub_le _ _))

/-- What a valid transaction says about gas and value. A key registration has neither. -/
theorem validateTransaction_funds (h : validateTransaction P tx sender nonceState ctx = .ok ()) :
    (tx.txType = .registerPubkey ∧ tx.gasLimit = 0 ∧ tx.value = 0) ∨
    (tx.txType ≠ .registerPubkey ∧ tx.txType ≠ .stakeWithdraw ∧ minGasLimit ≤ tx.gasLimit ∧
      (tx.txType.carriesValue = false → tx.value = 0) ∧
        (ctx.chainId ≠ devnetChainId → tx.feePayer = .sender) ∧
      tx.gasLimit.toNat * ctx.baseFee.toNat + tx.value.toNat < 2 ^ 128 ∧ (tx.feePayer = .sender →
        tx.gasLimit.toNat * ctx.baseFee.toNat + tx.value.toNat ≤ sender.balance.toNat)) := by
  unfold validateTransaction at h
  rw [checks_ok] at h
  obtain ⟨_, h⟩ := h
  split at h
  · rename_i hregister
    unfold validateRegisterPubkey at h
    simp only [checks_ok, rejectIf_ok] at h
    obtain ⟨_, hvalue, hgas, _⟩ := h
    exact .inl ⟨hregister, Decidable.not_not.mp hgas, Decidable.not_not.mp hvalue⟩
  rename_i hregister
  simp only [checks_ok, rejectIf_ok] at h
  obtain ⟨_, _, hpayer, hvalue, _, hdisabled, _, _, hbalance, hgas, _⟩ := h
  rw [validateGasLimit, checks_ok, rejectIf_ok] at hgas
  obtain ⟨hlt, hle⟩ := validateBalance_ok hbalance
  refine .inr ⟨hregister, hdisabled, BitVec.not_lt.mp hgas.1, ?_, ?_, hlt, hle⟩
  · intro hplain
    by_contra hne
    exact hvalue ⟨by simp [hplain], hne⟩
  · intro hchain
    by_contra hne
    exact hpayer ⟨hchain, hne⟩

end Pyde

namespace Pyde

open ByteCodec

/-! ### Vesting and subsidy schedules -/

structure VestingSchedule where
  startSlot : U64
  cliffSlots : U64
  durationSlots : U64
  totalAmount : U128
deriving DecidableEq

namespace VestingSchedule

def encode (s : VestingSchedule) : Bytes :=
  toLe s.startSlot ++ (toLe s.cliffSlots ++ (toLe s.durationSlots ++ toLe s.totalAmount))

def decode (bytes : Bytes) : Option VestingSchedule :=
  if bytes.length < 40 then none
  else some { startSlot := ofLe 64 (slice bytes 0 8)
              cliffSlots := ofLe 64 (slice bytes 8 8)
              durationSlots := ofLe 64 (slice bytes 16 8)
              totalAmount := ofLe 128 (slice bytes 24 16) }

/-- `VestingSchedule::unlocked_at`: nothing before the cliff, then linear from the start. -/
def unlockedAt (s : VestingSchedule) (currentSlot : U64) : U128 :=
  if s.durationSlots = 0 then s.totalAmount
  else if satAdd s.startSlot s.durationSlots ≤ currentSlot then s.totalAmount
  else if currentSlot < satAdd s.startSlot s.cliffSlots then 0
  else
    let elapsed := (satSub currentSlot s.startSlot).setWidth 128
    satMul s.totalAmount elapsed / s.durationSlots.setWidth 128

def lockedAt (s : VestingSchedule) (currentSlot : U64) : U128 := satSub s.totalAmount (s.unlockedAt currentSlot)

end VestingSchedule

structure ValidatorSubsidySchedule where
  perBlock : U128
  endSlot : U64
deriving DecidableEq

def ValidatorSubsidySchedule.decode (bytes : Bytes) : Option ValidatorSubsidySchedule :=
  if bytes.length < 24 then none
  else some { perBlock := ofLe 128 (slice bytes 0 16), endSlot := ofLe 64 (slice bytes 16 8) }

/-! ### Validator entries -/

def validatorStake : U128 := 10000000000000#128

/-- Status bytes of a validator entry. -/
def statusActive : U8 := 0x00
def statusUnbonding : U8 := 0x01
def statusExited : U8 := 0x02

structure ValidatorEntry where
  pk : Bytes
  stake : U128
  status : U8
  lastClaimedAt : U128
  exitBlock : Option U64
  kemPk : Option Bytes
deriving DecidableEq

namespace ValidatorEntry

/-- The trailing KEM key, if a well-formed one is there. -/
def decodeKemPk (bytes : Bytes) (tailPos : Nat) : Option Bytes :=
  if bytes.length < tailPos + 4 then none
  else
    let len := ofLeBytes (slice bytes tailPos 4)
    if 0 < len ∧ tailPos + 4 + len ≤ bytes.length then some (slice bytes (tailPos + 4) len) else none

def decode (bytes : Bytes) : Option ValidatorEntry :=
  if bytes.length < 934 then none
  else if ofLeBytes (slice bytes 0 4) ≠ 897 then none
  else
    let status := bytes.getD 917 0
    let hasExit := status = statusUnbonding ∧ 942 ≤ bytes.length
    some { pk := slice bytes 4 897
           stake := ofLe 128 (slice bytes 901 16)
           status := status
           lastClaimedAt := ofLe 128 (slice bytes 918 16)
           exitBlock := if hasExit then some (ofLe 64 (slice bytes 934 8)) else none
           kemPk := decodeKemPk bytes (if hasExit then 942 else 934) }

def encode (entry : ValidatorEntry) : Bytes :=
  toLe (BitVec.ofNat 32 entry.pk.length) ++ (entry.pk ++ (toLe entry.stake ++ (entry.status ::
    (toLe entry.lastClaimedAt ++ ((entry.exitBlock.map toLe).getD [] ++
      (toLe (BitVec.ofNat 32 (entry.kemPk.getD []).length) ++ entry.kemPk.getD []))))))

end ValidatorEntry

/-! ### Slashing evidence -/

structure SlashEvidence where
  slot : U64
  blockHash1 : Hash256
  signature1 : Bytes
  blockHash2 : Hash256
  signature2 : Bytes
  signer : Address
deriving DecidableEq

/-- `EVIDENCE_VERSION`. -/
def slashEvidenceVersion : U8 := 1

def evidenceTruncated (pos : Nat) : String := "evidence truncated at offset " ++ toString pos

/-- The local `need` of `decode_slash_evidence`. -/
def need (data : Bytes) (pos n : Nat) : Except String Unit := rejectIf (data.length < pos + n) (evidenceTruncated pos)

/-- Thirty-two bytes of the evidence. -/
def evidenceHashAt (data : Bytes) (pos : Nat) : Except String (FixedBytes 32) :=
  match fixedAt 32 data pos with
  | some h => .ok h
  | none => .error (evidenceTruncated pos)

/-- A signature of the evidence behind its 32-bit length, and the position after it. -/
def evidenceSignatureAt (data : Bytes) (pos : Nat) : Except String (Bytes × Nat) := do
  need data pos 4
  let len := ofLeBytes (slice data pos 4)
  need data (pos + 4) len
  .ok (slice data (pos + 4) len, pos + 4 + len)

/-- `decode_slash_evidence`. The submitter at the end has to be there, but is not used. -/
def decodeSlashEvidence (data : Bytes) : Except String SlashEvidence := do
  need data 0 1
  let version := data.getD 0 0
  rejectIf (version ≠ slashEvidenceVersion) ("unsupported evidence version: " ++ decimal version)
  need data 1 8
  let slot := ofLe 64 (slice data 1 8)
  let blockHash1 ← evidenceHashAt data 9
  let (signature1, pos) ← evidenceSignatureAt data 41
  let blockHash2 ← evidenceHashAt data pos
  let (signature2, pos) ← evidenceSignatureAt data (pos + 32)
  let signer ← evidenceHashAt data pos
  let _submitter ← evidenceHashAt data (pos + 32)
  .ok { slot, blockHash1, signature1, blockHash2, signature2, signer }

/-! ### Airdrop claims -/

structure ClaimPayload where
  leafIndex : U64
  amount : U128
  proof : List Hash256
deriving DecidableEq

def ClaimPayload.decode (bytes : Bytes) : Option ClaimPayload :=
  if bytes.length < 25 then none
  else
    let proofLen := (bytes.getD 24 0).toNat
    if bytes.length ≠ 25 + proofLen * 32 then none
    else
      ((List.range proofLen).mapM fun i => fixedAt 32 bytes (25 + i * 32)).map fun proof =>
        { leafIndex := ofLe 64 (slice bytes 0 8)
          amount := ofLe 128 (slice bytes 8 16)
          proof := proof }

def leafHash (P : Prims) (index : U64) (addr : Address) (amt : U128) : Hash256 :=
  P.poseidon2Hash (0x00 :: (toLe index ++ (addr.toList ++ toLe amt)))

/-- The loop of `compute_root`: bit `i` of the index tells on which side the sibling stands. -/
def climb (P : Prims) : Hash256 → U64 → List Hash256 → Hash256
  | node, _, [] => node
  | node, index, sibling :: proof =>
    let parent := if index &&& 1 = 0 then P.poseidon2Pair node sibling else P.poseidon2Pair sibling node
    climb P parent (index >>> 1) proof

def computeRoot (P : Prims) (leafIndex : U64) (addr : Address) (amt : U128)
    (proof : List Hash256) : Hash256 :=
  climb P (leafHash P leafIndex addr amt) leafIndex proof

def verifyProof (P : Prims) (leafIndex : U64) (addr : Address) (amt : U128)
    (proof : List Hash256) (root : Hash256) : Bool :=
  computeRoot P leafIndex addr amt proof = root

/-! ### Multisig payloads -/

structure SigEntry where
  signerIndex : U8
  signature : Bytes
deriving DecidableEq

structure MultisigSpend where
  target : Address
  value : U128
  dataDigest : Hash256
deriving DecidableEq

structure MultisigRotate where
  newSignerPks : List Bytes
  newThreshold : U8
deriving DecidableEq

inductive MultisigPayload where
  | spend (body : MultisigSpend) (sigs : List SigEntry)
  | rotate (body : MultisigRotate) (sigs : List SigEntry)
deriving DecidableEq

structure EmergencyPausePayload where
  durationSlots : U64
  sigs : List SigEntry
deriving DecidableEq

structure EmergencyResumePayload where
  sigs : List SigEntry
deriving DecidableEq

def multisigVersion : U8 := 0x01

def maxSigners : Nat := 16

/-- The entries of a signature list; they have to end where the string ends. -/
def readSigs : Nat → Bytes → Option (List SigEntry)
  | 0, bytes => if bytes = [] then some [] else none
  | count + 1, bytes =>
    if bytes.length < 3 then none
    else
      let len := ofLeBytes (slice bytes 1 2)
      if bytes.length < 3 + len then none
      else (readSigs count (bytes.drop (3 + len))).map
        ({ signerIndex := bytes.getD 0 0, signature := slice bytes 3 len } :: ·)

def decodeSigs (bytes : Bytes) : Option (List SigEntry) :=
  match bytes with
  | [] => none
  | count :: rest => if count.toNat = 0 ∨ maxSigners < count.toNat then none else readSigs count.toNat rest

/-- `count` public keys from position one on. -/
def readSignerPks (count : Nat) (bytes : Bytes) : List Bytes :=
  (List.range count).map fun i => slice bytes (1 + i * FalconPublicKey.size) FalconPublicKey.size

def MultisigSpend.decodeBody (bytes : Bytes) : Option (MultisigSpend × Bytes) :=
  match fixedAt 32 bytes 0, fixedAt 32 bytes 48 with
  | some target, some dataDigest =>
    some ({ target, value := ofLe 128 (slice bytes 32 16), dataDigest }, bytes.drop 80)
  | _, _ => none

def MultisigRotate.decodeBody (bytes : Bytes) : Option (MultisigRotate × Bytes) :=
  match bytes with
  | [] => none
  | count :: _ =>
    let needed := 1 + count.toNat * FalconPublicKey.size + 1
    if count.toNat = 0 ∨ maxSigners < count.toNat then none
    else if bytes.length < needed then none
    else some ({ newSignerPks := readSignerPks count.toNat bytes
                 newThreshold := bytes.getD (needed - 1) 0 }, bytes.drop needed)

def MultisigPayload.decode (bytes : Bytes) : Option MultisigPayload :=
  match bytes with
  | version :: tag :: rest =>
    if version ≠ multisigVersion then none
    else if tag = 0x01 then
      match MultisigSpend.decodeBody rest with
      | some (body, rest) => (decodeSigs rest).map (MultisigPayload.spend body)
      | none => none
    else if tag = 0x02 then
      match MultisigRotate.decodeBody rest with
      | some (body, rest) => (decodeSigs rest).map (MultisigPayload.rotate body)
      | none => none
    else none
  | _ => none

def EmergencyPausePayload.decode (bytes : Bytes) : Option EmergencyPausePayload :=
  if bytes.length < 10 ∨ bytes.getD 0 0 ≠ multisigVersion ∨ bytes.getD 1 0 ≠ 0x03 then none
  else (decodeSigs (bytes.drop 10)).map fun sigs => { durationSlots := ofLe 64 (slice bytes 2 8), sigs }

def EmergencyResumePayload.decode (bytes : Bytes) : Option EmergencyResumePayload :=
  if bytes.length < 2 ∨ bytes.getD 0 0 ≠ multisigVersion ∨ bytes.getD 1 0 ≠ 0x04 then none
  else (decodeSigs (bytes.drop 2)).map fun sigs => { sigs }

section SigningBytes

variable (P : Prims) (nonce chainId : U64)

def multisigSigningBytes (op : Bytes) : Bytes :=
  (P.poseidon2Hash (toLe chainId ++ (toLe nonce ++ op))).toList

def MultisigSpend.signingBytes (spend : MultisigSpend) : Bytes :=
  multisigSigningBytes P nonce chainId
    (spend.target.toList ++ (toLe spend.value ++ spend.dataDigest.toList))

def MultisigRotate.signingBytes (rotate : MultisigRotate) : Bytes :=
  multisigSigningBytes P nonce chainId
    (BitVec.ofNat 8 rotate.newSignerPks.length :: (rotate.newSignerPks.flatten ++ [rotate.newThreshold]))

def EmergencyPausePayload.signingBytes (payload : EmergencyPausePayload) : Bytes :=
  multisigSigningBytes P nonce chainId (ascii "PAUSE" ++ toLe payload.durationSlots)

def EmergencyResumePayload.signingBytes : Bytes := multisigSigningBytes P nonce chainId (ascii "RESUME")

end SigningBytes

def encodeSignerSet (pks : List Bytes) : Bytes := BitVec.ofNat 8 pks.length :: pks.flatten

def decodeSignerSet (bytes : Bytes) : Option (List Bytes) :=
  match bytes with
  | [] => none
  | count :: _ =>
    if count.toNat = 0 ∨ maxSigners < count.toNat then none
    else if bytes.length ≠ 1 + count.toNat * FalconPublicKey.size then none
    else some (readSignerPks count.toNat bytes)

def verifySigEntry (P : Prims) (entry : SigEntry) (signerPks : List Bytes) (signingBytes : Bytes) : Bool :=
  match signerPks[entry.signerIndex.toNat]? with
  | some pk => P.verifyRaw pk signingBytes entry.signature
  | none => false

/-- The loop of `count_valid_sigs`, with the indices seen so far. -/
def countSigs (P : Prims) (signerPks : List Bytes) (signingBytes : Bytes) :
    List U8 → List SigEntry → Except String Nat
  | _, [] => .ok 0
  | seen, entry :: rest =>
    if maxSigners ≤ entry.signerIndex.toNat then .error "signer_index out of bounds"
    else if entry.signerIndex ∈ seen then .error "duplicate signer_index in payload"
    else
      (countSigs P signerPks signingBytes (entry.signerIndex :: seen) rest).map
        fun valid => if verifySigEntry P entry signerPks signingBytes then valid + 1 else valid

def countValidSigs (P : Prims) (sigs : List SigEntry) (signerPks : List Bytes)
    (signingBytes : Bytes) : Except String Nat :=
  countSigs P signerPks signingBytes [] sigs

end Pyde
