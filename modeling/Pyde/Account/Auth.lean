/-
Module: Pyde.Account.Auth
Purpose: Signatures of an account, the rotation of its keys, and its nonce window.
Trusted boundary: Prims
-/
import Pyde.Account.Types
import Pyde.Library.VoterTally

namespace Pyde.Auth

open ByteCodec List

variable {msg : Bytes} {signatures : List Bytes} {account : Account}

inductive AuthResult where
  | valid
  | invalid
  | noKeys
  | customValidation
deriving DecidableEq

section

variable (P : Prims)

/-- Signatures of a slate that verify, position by position. An empty signature stands for a member that did not sign,
and a key that was met before is not counted again. -/
def validCount (msg : Bytes) : List Bytes → List Bytes → List Bytes → Nat
  | counted, key :: keys, sig :: signatures =>
    if sig = [] ∨ key ∈ counted then validCount msg counted keys signatures
    else
      (if P.verifyRaw key msg sig then 1 else 0) + validCount msg (key :: counted) keys signatures
  | _, _, _ => 0

def validateSignature (account : Account) (msg : Bytes) (signatures : List Bytes) : AuthResult :=
  if account.codeHash ≠ zero32 ∧ account.accountType = .contract then .customValidation
  else
    match account.authKeys with
    | .none => .noKeys
    | .single pk =>
      match signatures with
      | [] => .invalid
      | sig :: _ => if P.verifyRaw pk msg sig then .valid else .invalid
    | .multiSig keys threshold =>
      if signatures.length < threshold.toNat then .invalid
      else if threshold.toNat ≤ validCount P msg [] keys signatures then .valid
      else .invalid

def rotateKeys (account : Account) (newKeys : AuthKeys) (currentSig : List Bytes) (rotationMessage : Bytes) :
    Option Account :=
  if validateSignature P account rotationMessage currentSig ≠ .valid then none
  else some { account with authKeys := newKeys, keyNonce := account.keyNonce + 1 }

/-- What `build_rotation_message` hashes. -/
def rotationPreimage (account : Account) (newKeys : AuthKeys) : Bytes :=
  ascii "key_rotation" ++ (account.address.toList ++ (toLe account.keyNonce ++ newKeys.toBytes))

def buildRotationMessage (account : Account) (newKeys : AuthKeys) : Bytes :=
  (P.poseidon2Hash (rotationPreimage account newKeys)).toList

/-- What the caller has to see to: the message is the one for this change, and the new keys have signed it too. -/
structure ProperCall (account : Account) (newKeys : AuthKeys) (signatures : List Bytes) (msg : Bytes) : Prop where
  built : msg = buildRotationMessage P account newKeys
  owned : validateSignature P { account with authKeys := newKeys } msg signatures = .valid

/-- The account after some rotations, whoever asked for them. -/
inductive Rotated (P : Prims) : Account → Account → Nat → Prop where
  | refl (account : Account) : Rotated P account account 0
  | step {account between after : Account} {count : Nat} (h : Rotated P account between count) {newKeys : AuthKeys}
      {signatures : List Bytes} {msg : Bytes} (hrotate : rotateKeys P between newKeys signatures msg = some after) :
      Rotated P account after (count + 1)

end

variable {P : Prims}

/-- A slate that accepts without a single signature is not protected by its keys. -/
def Protected (account : Account) : Prop :=
  ∀ keys threshold, account.authKeys = .multiSig keys threshold → 0 < threshold.toNat

theorem validCount_eq_zero (h : ∀ sig ∈ signatures, ∀ key, P.verifyRaw key msg sig = false)
    (counted keys : List Bytes) : validCount P msg counted keys signatures = 0 := by
  induction signatures generalizing counted keys with
  | nil => cases keys <;> rfl
  | cons sig signatures ih =>
    obtain ⟨hfirst, hrest⟩ := List.forall_mem_cons.mp h
    cases keys with
    | nil => rfl
    | cons key keys =>
      rw [validCount, ih hrest, ih hrest, hfirst key]
      simp

/-- Signatures that verify nothing do not speak for a protected account. -/
theorem validateSignature_ne_valid (hprotected : Protected account)
    (h : ∀ sig ∈ signatures, ∀ key, P.verifyRaw key msg sig = false) :
    validateSignature P account msg signatures ≠ .valid := by
  unfold validateSignature
  split
  · exact AuthResult.noConfusion
  split
  next => exact AuthResult.noConfusion
  next pk _ =>
    cases signatures with
    | nil => exact AuthResult.noConfusion
    | cons sig signatures =>
      dsimp only
      rw [h sig mem_cons_self pk]
      exact AuthResult.noConfusion
  next keys threshold hkeys =>
    have hthreshold := hprotected keys threshold hkeys
    rw [validCount_eq_zero h]
    split
    · exact AuthResult.noConfusion
    · rw [if_neg (by omega)]
      exact AuthResult.noConfusion

theorem rotateKeys_eq_some {updated : Account} {newKeys : AuthKeys}
    (h : rotateKeys P account newKeys signatures msg = some updated) :
    validateSignature P account msg signatures = .valid ∧
      updated = { account with authKeys := newKeys, keyNonce := account.keyNonce + 1 } := by
  unfold rotateKeys at h
  split at h
  · cases h
  · rename_i hvalid
    exact ⟨not_not.mp hvalid, (Option.some.inj h).symm⟩

theorem Rotated.fields {after : Account} {count : Nat} (h : Rotated P account after count) :
    after.address = account.address ∧ after.keyNonce = account.keyNonce + BitVec.ofNat 32 count := by
  induction h with
  | refl => exact ⟨rfl, (BitVec.add_zero _).symm⟩
  | step _ hrotate ih =>
    obtain ⟨-, rfl⟩ := rotateKeys_eq_some hrotate
    refine ⟨ih.1, ?_⟩
    rw [BitVec.ofNat_add, ← BitVec.add_assoc, ← ih.2]
    rfl

theorem rotationPreimage_ne {later : Account} (h : account.keyNonce ≠ later.keyNonce) (newKeys newKeys' : AuthKeys)
    (haddr : later.address = account.address) :
    rotationPreimage account newKeys ≠ rotationPreimage later newKeys' := by
  intro heq
  unfold rotationPreimage at heq
  rw [haddr] at heq
  exact h ((toLe_append_inj (by decide)).mp (append_cancel_left (append_cancel_left heq))).1

/-- What a rotation that succeeded is to guarantee: the current keys consented to exactly this change, the new keys
signed it, and the signatures do not rotate the keys again, however many rotations follow. -/
structure RotationSound (P : Prims) (account : Account) (newKeys : AuthKeys) (signatures : List Bytes)
    (updated : Account) : Prop where
  authorized : validateSignature P account (buildRotationMessage P account newKeys) signatures = .valid
  owned : validateSignature P { account with authKeys := newKeys } (buildRotationMessage P account newKeys) signatures =
    .valid
  once : ∀ later count newKeys', Rotated P updated later count → count + 1 < 2 ^ 32 → Protected later →
    P.CollisionFreeOn {rotationPreimage account newKeys, rotationPreimage later newKeys'} →
    rotateKeys P later newKeys' signatures (buildRotationMessage P later newKeys') = none

/-- A rotation with signatures that are good for the given message only is sound exactly when the caller saw to it. -/
theorem rotation_sound_iff {account updated : Account} {newKeys : AuthKeys} {signatures : List Bytes} {msg : Bytes}
    (hprotected : Protected account)
    (hexclusive : ∀ sig ∈ signatures, ∀ key other, P.verifyRaw key other sig = true → other = msg)
    (hrotate : rotateKeys P account newKeys signatures msg = some updated) :
    RotationSound P account newKeys signatures updated ↔ ProperCall P account newKeys signatures msg := by
  obtain ⟨hvalid, rfl⟩ := rotateKeys_eq_some hrotate
  -- for any other message none of the signatures verifies
  have hsilent : ∀ {account' : Account} {other : Bytes}, Protected account' → other ≠ msg →
      validateSignature P account' other signatures ≠ .valid := by
    intro account' other hprotected' hother
    refine validateSignature_ne_valid hprotected' fun sig hsignature key => ?_
    rw [← Bool.not_eq_true]
    exact fun hverify => hother (hexclusive sig hsignature key other hverify)
  constructor
  · intro h
    have hbuilt : buildRotationMessage P account newKeys = msg :=
      Classical.not_not.mp fun hne => hsilent hprotected hne h.authorized
    exact ⟨hbuilt.symm, hbuilt ▸ h.owned⟩
  · rintro ⟨hbuilt, howned⟩
    refine ⟨hbuilt ▸ hvalid, hbuilt ▸ howned, ?_⟩
    intro later count newKeys' hlater hcount hlaterProtected hfree
    obtain ⟨haddr, hnonce⟩ := hlater.fields
    have hnonce_ne : account.keyNonce ≠ later.keyNonce := by
      intro heq
      have hone : (1 : U32).toNat = 1 := rfl
      have hnat := congrArg BitVec.toNat (heq.trans hnonce)
      simp only [BitVec.toNat_add, BitVec.toNat_ofNat, hone] at hnat
      omega
    refine if_pos (hsilent hlaterProtected fun heq => ?_)
    have hhash := List.Vector.toList_injective (heq.trans hbuilt)
    exact rotationPreimage_ne hnonce_ne newKeys newKeys' haddr
      (hfree (Set.mem_insert _ _) (Set.mem_insert_of_mem _ rfl) hhash.symm)

/-! ### A second key, and a change that nobody consented to -/

def ownedAccount : Account := { Account.empty (fill32 1) with authKeys := .single (lucidKey 7) }

theorem lucid_exclusive {tag : Byte} {msg : Bytes} : ∀ sig ∈ [(lucidSignature [tag] msg).bytes],
    ∀ key other, lucid.verifyRaw key other sig = true → other = msg := by
  intro sig hsignature key other hverify
  rw [List.mem_singleton.mp hsignature] at hverify
  obtain ⟨hkey, -, hsig⟩ := lucid.verifyRaw_iff.mp hverify
  have hbytes := congrArg FalconSignature.bytes (of_decide_eq_true hsig)
  have htag : (key.take 1).length = 1 := by
    rw [length_take, hkey]
    rfl
  exact append_cancel_right (append_inj hbytes (by rw [htag]; rfl)).2.symm

/-- The owner adds a key, and both may sign from then on. -/
theorem added_key_rotation_sound :
    RotationSound lucid ownedAccount (.multiSig [lucidKey 7, lucidKey 9] 1)
      [(lucidSignature [7] (buildRotationMessage lucid ownedAccount
        (.multiSig [lucidKey 7, lucidKey 9] 1))).bytes]
      { ownedAccount with authKeys := .multiSig [lucidKey 7, lucidKey 9] 1, keyNonce := 1 } := by
  refine (rotation_sound_iff ?_ lucid_exclusive ?_).mpr ⟨rfl, ?_⟩
  · exact nofun
  · decide +kernel
  · decide +kernel

/-- The owner has signed a greeting, and someone else presents it with keys of their own. -/
theorem greeting_rotates_keys :
    (rotateKeys lucid ownedAccount (.single (lucidKey 9))
        [(lucidSignature [7] (ascii "hello")).bytes] (ascii "hello")).map Account.authKeys =
      some (.single (lucidKey 9)) ∧ validateSignature lucid ownedAccount
        (buildRotationMessage lucid ownedAccount (.single (lucidKey 9)))
        [(lucidSignature [7] (ascii "hello")).bytes] = .invalid := by
  decide +kernel

end Pyde.Auth

namespace Pyde

open ByteCodec

variable {s : NonceState} {nonce : U64} {bit : U8}

def windowSize : U64 := 16#64

/-- The lowest nonce of the window and the nonces of the window already used. -/
structure NonceState where
  base : U64
  used : U16
deriving DecidableEq

inductive NonceError where
  | belowWindow
  | aboveWindow
  | alreadyUsed
deriving DecidableEq, Repr

namespace NonceState

def new : NonceState := { base := 0#64, used := 0#16 }

/-- `NonceState::validate`: the position of the nonce in the window. When the window would end beyond
the last `u64`, no nonce is too far ahead. -/
def validate (s : NonceState) (nonce : U64) : Except NonceError U8 :=
  if nonce < s.base then .error .belowWindow
  else if (checkedAdd s.base windowSize).any (· ≤ nonce) then .error .aboveWindow
  else
    let bit := (nonce - s.base).setWidth 8
    if s.used &&& (1#16 <<< bit.toNat) ≠ 0#16 then .error .alreadyUsed else .ok bit

/-- One turn of the loop in `advance`, if it takes one. -/
def advanceStep (s : NonceState) : Option NonceState :=
  if s.used &&& 1#16 = 1#16 then
    (checkedAdd s.base 1#64).map fun b => { base := b, used := s.used >>> 1 }
  else none

/-- The loop of `advance`, at most `fuel` turns of it. -/
def advanceLoop : Nat → NonceState → NonceState
  | 0, s => s
  | fuel + 1, s =>
    match s.advanceStep with
    | some s' => advanceLoop fuel s'
    | none => s

/-- `NonceState::advance`: the bitmap is empty after sixteen turns. -/
def advance (s : NonceState) : NonceState := advanceLoop 16 s

def useNonce (s : NonceState) (nonce : U64) : Except NonceError NonceState :=
  match s.validate nonce with
  | .error e => .error e
  | .ok bit => .ok (advance { s with used := s.used ||| (1#16 <<< bit.toNat) })

def maxNonce (s : NonceState) : U64 := satAdd s.base (windowSize - 1)

def toBytes (s : NonceState) : Bytes := toLe s.base ++ toLe s.used

def fromBytes (data : Bytes) : Option NonceState :=
  if data.length < 10 then none
  else some { base := ofLe 64 (slice data 0 8), used := ofLe 16 (slice data 8 2) }

theorem fromBytes_toBytes (s : NonceState) : fromBytes s.toBytes = some s := by
  have hbase : slice s.toBytes 0 8 = toLe s.base := by simp [slice, toBytes]
  have hused : slice s.toBytes 8 2 = toLe s.used := by simp [slice, toBytes, List.take_of_length_le]
  have hlen : ¬ s.toBytes.length < 10 := by simp [toBytes]
  rw [fromBytes, if_neg hlen, hbase, hused, ofLe_toLe (by decide), ofLe_toLe (by decide)]

/-! ### Used nonces -/

/-- The nonce is behind the window or marked in it. -/
def Consumed (s : NonceState) (nonce : U64) : Prop :=
  nonce.toNat < s.base.toNat ∨ s.used.getLsbD (nonce.toNat - s.base.toNat) = true

theorem validate_iff : s.validate nonce = .ok bit ↔
    ¬ s.Consumed nonce ∧ nonce.toNat < s.base.toNat + 16 ∧ bit.toNat = nonce.toNat - s.base.toNat := by
  have habove : (checkedAdd s.base windowSize).any (· ≤ nonce) = true ↔ s.base.toNat + 16 ≤ nonce.toNat := by
    unfold checkedAdd windowSize
    split
    · simp only [Option.any_some, decide_eq_true_eq]
      bv_omega
    · simp only [Option.any_none, Bool.false_eq_true, false_iff]
      bv_omega
  unfold validate Consumed
  rw [ite_cond_congr (propext habove)]
  by_cases hbelow : nonce < s.base
  · simp [hbelow, BitVec.lt_def.mp hbelow]
  rw [if_neg hbelow]
  by_cases hwindow : s.base.toNat + 16 ≤ nonce.toNat
  · simp [hwindow]
  have hbit : ((nonce - s.base).setWidth 8 : U8).toNat = nonce.toNat - s.base.toNat := by bv_omega
  simp only [if_neg hwindow, hbit, ne_eq,
    VoterSet.and_shiftLeft_eq_zero_iff (show nonce.toNat - s.base.toNat < 16 by omega)]
  cases s.used.getLsbD (nonce.toNat - s.base.toNat) with
  | true => simp
  | false =>
    rw [BitVec.lt_def] at hbelow
    simp [hbelow, Nat.lt_of_not_le hwindow, ← hbit, ← BitVec.toNat_inj, eq_comm]

theorem not_consumed_of_validate (h : s.validate nonce = .ok bit) : ¬ s.Consumed nonce := (validate_iff.mp h).1

theorem and_one_eq_one {used : U16} : used &&& 1#16 = 1#16 ↔ used.getLsbD 0 = true := by
  rw [BitVec.and_one_eq_setWidth_ofBool_getLsbD]
  cases used.getLsbD 0 with
  | false | true => decide

theorem advanceStep_some {s' : NonceState} (h : s.advanceStep = some s') :
    s.used.getLsbD 0 = true ∧ s'.base.toNat = s.base.toNat + 1 ∧ s'.used = s.used >>> 1 := by
  unfold advanceStep checkedAdd at h
  split at h
  case isFalse => cases h
  rename_i hfirst
  split at h
  case isFalse => cases h
  rename_i hbound
  cases h
  exact ⟨and_one_eq_one.mp hfirst, Nat.mod_eq_of_lt hbound, rfl⟩

theorem advanceStep_none (h : s.advanceStep = none) : s.used.getLsbD 0 = false ∨ s.base.toNat + 1 = 2 ^ 64 := by
  unfold advanceStep checkedAdd at h
  split at h
  case isFalse hfirst => exact .inl (Bool.not_eq_true _ ▸ mt and_one_eq_one.mpr hfirst)
  split at h
  case isTrue => cases h
  case isFalse => exact .inr (by bv_omega)

theorem consumed_advanceStep {s' : NonceState} (hstep : s.advanceStep = some s') :
    s'.Consumed nonce ↔ s.Consumed nonce := by
  obtain ⟨hfirst, hbase, hused⟩ := advanceStep_some hstep
  unfold Consumed
  rw [hbase, hused, BitVec.getLsbD_ushiftRight]
  rcases Nat.lt_trichotomy nonce.toNat s.base.toNat with hlt | heq | hgt
  · exact iff_of_true (.inl (Nat.lt_succ_of_lt hlt)) (.inl hlt)
  · exact iff_of_true (.inl (by omega)) (.inr (by rwa [heq, Nat.sub_self]))
  · have hpos : 1 + (nonce.toNat - (s.base.toNat + 1)) = nonce.toNat - s.base.toNat := by omega
    rw [hpos]
    exact or_congr_left (iff_of_false (by omega) (by omega))

theorem consumed_advanceLoop (fuel : Nat) (s : NonceState) :
    (advanceLoop fuel s).Consumed nonce ↔ s.Consumed nonce := by
  induction fuel generalizing s with
  | zero => rfl
  | succ fuel ih =>
    unfold advanceLoop
    cases hstep : s.advanceStep with
    | none => rfl
    | some s' => exact (ih s').trans (consumed_advanceStep hstep)

/-- The loop stops at a nonce that is not used, or at the last one. -/
theorem advanceLoop_done {fuel : Nat} (h : s.used.toNat < 2 ^ fuel) :
    (advanceLoop fuel s).used.getLsbD 0 = false ∨ (advanceLoop fuel s).base.toNat + 1 = 2 ^ 64 := by
  induction fuel generalizing s with
  | zero => exact .inl (Nat.testBit_lt_two_pow h)
  | succ fuel ih =>
    unfold advanceLoop
    cases hstep : s.advanceStep with
    | none => exact advanceStep_none hstep
    | some s' =>
      apply ih
      rw [(advanceStep_some hstep).2.2, BitVec.toNat_ushiftRight, Nat.shiftRight_eq_div_pow]
      omega

theorem useNonce_of_validate (h : s.validate nonce = .ok bit) :
    s.useNonce nonce = .ok (advance { s with used := s.used ||| (1#16 <<< bit.toNat) }) := by
  rw [useNonce, h]

theorem validate_of_useNonce {s' : NonceState} (h : s.useNonce nonce = .ok s') :
    ∃ bit, s.validate nonce = .ok bit ∧ s' = advance { s with used := s.used ||| (1#16 <<< bit.toNat) } := by
  unfold useNonce at h
  split at h
  case h_1 => cases h
  case h_2 bit hvalid => exact ⟨bit, hvalid, (Except.ok.inj h).symm⟩

theorem consumed_useNonce {s' : NonceState} (h : s.useNonce nonce = .ok s') (other : U64) :
    s'.Consumed other ↔ other = nonce ∨ s.Consumed other := by
  obtain ⟨bit, hvalid, rfl⟩ := validate_of_useNonce h
  obtain ⟨hfree, hwindow, hbit⟩ := validate_iff.mp hvalid
  rw [advance, consumed_advanceLoop]
  unfold Consumed at hfree ⊢
  dsimp only
  have hmark : ∀ i, (s.used ||| 1#16 <<< bit.toNat).getLsbD i = (s.used.getLsbD i || decide (i = bit.toNat)) :=
    VoterSet.getLsbD_setBit (by omega)
  rw [hmark, hbit, Bool.or_eq_true, decide_eq_true_iff]
  have hsame : other = nonce ↔ other.toNat = nonce.toNat := BitVec.toNat_inj.symm
  grind

/-! ### Sequences of nonces -/

/-- A call of `use_nonce`, with the nonces accepted so far. -/
def tryNonce (run : NonceState × List U64) (nonce : U64) : NonceState × List U64 :=
  match run.1.useNonce nonce with
  | .ok s => (s, nonce :: run.2)
  | .error _ => run

def runNonces (nonces : List U64) : NonceState × List U64 := nonces.foldl tryNonce (new, [])

/-- The state stands for the set of accepted nonces. -/
structure Represents (run : NonceState × List U64) : Prop where
  consumed : ∀ nonce, run.1.Consumed nonce ↔ nonce ∈ run.2
  ahead : run.1.used.getLsbD 0 = false ∨ run.1.base.toNat + 1 = 2 ^ 64

theorem represents_tryNonce {run : NonceState × List U64} (h : Represents run) (nonce : U64) :
    Represents (tryNonce run nonce) := by
  unfold tryNonce
  cases huse : run.1.useNonce nonce with
  | error e => exact h
  | ok s =>
    refine ⟨fun other => ?_, ?_⟩
    · rw [consumed_useNonce huse, h.consumed, List.mem_cons]
    · obtain ⟨bit, -, rfl⟩ := validate_of_useNonce huse
      exact advanceLoop_done (BitVec.isLt _)

theorem represents_runNonces (nonces : List U64) : Represents (runNonces nonces) := by
  refine List.foldlRecOn nonces _ ⟨fun nonce => ?_, .inl rfl⟩ fun _ h nonce _ => represents_tryNonce h nonce
  simp [Consumed, new]

section

variable {run : NonceState × List U64} (h : Represents run)
include h

theorem Represents.accepts_iff (nonce : U64) : (∃ s, run.1.useNonce nonce = .ok s) ↔
    nonce ∉ run.2 ∧ run.1.base.toNat ≤ nonce.toNat ∧ nonce.toNat < run.1.base.toNat + 16 := by
  rw [← h.consumed]
  constructor
  · rintro ⟨s, huse⟩
    obtain ⟨bit, hvalid, -⟩ := validate_of_useNonce huse
    obtain ⟨hfree, hwindow, -⟩ := validate_iff.mp hvalid
    exact ⟨hfree, Nat.not_lt.mp fun hlt => hfree (.inl hlt), hwindow⟩
  · rintro ⟨hfree, -, hwindow⟩
    have hbit := BitVec.toNat_ofNat (nonce.toNat - run.1.base.toNat) 8
    exact ⟨_, useNonce_of_validate (validate_iff.mpr ⟨hfree, hwindow,
      hbit.trans (Nat.mod_eq_of_lt (by omega))⟩)⟩

theorem Represents.mem_of_lt {nonce : U64} (hlt : nonce.toNat < run.1.base.toNat) : nonce ∈ run.2 :=
  (h.consumed nonce).mp (.inl hlt)

theorem Represents.base_fresh {nonce : U64} (hfree : nonce ∉ run.2) : run.1.base ∉ run.2 := by
  intro hbase
  rcases (h.consumed _).mpr hbase with hlt | hused
  · exact Nat.lt_irrefl _ hlt
  rw [Nat.sub_self] at hused
  have hlast := h.ahead.resolve_left (by simp [hused])
  -- the window stands at the last nonce, so that no other is left
  have hle := Nat.not_lt.mp (mt h.mem_of_lt hfree)
  have hsame : nonce = run.1.base := by bv_omega
  exact hfree (hsame ▸ hbase)

end

/-- The window is the set of accepted nonces, and its base the least nonce not accepted if there is one. -/
theorem window_is_set (nonces : List U64) :
    let (s, accepted) := runNonces nonces
    (∀ nonce, (∃ s', s.useNonce nonce = .ok s') ↔
      nonce ∉ accepted ∧ s.base.toNat ≤ nonce.toNat ∧ nonce.toNat < s.base.toNat + 16) ∧
    ((∃ nonce, nonce ∉ accepted) → s.base ∉ accepted) ∧
    (∀ nonce, nonce.toNat < s.base.toNat → nonce ∈ accepted) ∧ fromBytes s.toBytes = some s := by
  have h := represents_runNonces nonces
  exact ⟨h.accepts_iff, fun ⟨_, hfree⟩ => h.base_fresh hfree, fun _ => h.mem_of_lt, fromBytes_toBytes _⟩

theorem exists_nonces (count : Nat) :
    ∃ nonces, ∀ nonce : U64, nonce.toNat < count → nonce ∈ (runNonces nonces).2 := by
  induction count with
  | zero => exact ⟨[], nofun⟩
  | succ count ih =>
    obtain ⟨nonces, hall⟩ := ih
    have h := represents_runNonces nonces
    by_cases hfree : (runNonces nonces).1.base ∈ (runNonces nonces).2
    · exact ⟨nonces, fun nonce _ => by_contra fun hnot => h.base_fresh hnot hfree⟩
    refine ⟨nonces ++ [(runNonces nonces).1.base], fun nonce hlt => ?_⟩
    obtain ⟨s, huse⟩ := (h.accepts_iff _).mpr ⟨hfree, Nat.le_refl _, Nat.lt_add_of_pos_right (by decide)⟩
    rw [runNonces, List.foldl_concat, ← runNonces, tryNonce, huse, List.mem_cons]
    by_cases hmem : nonce ∈ (runNonces nonces).2
    · exact .inr hmem
    have hle := Nat.not_lt.mp (mt h.mem_of_lt hmem)
    have hge := Nat.not_lt.mp (mt (hall _) hfree)
    exact .inl (BitVec.eq_of_toNat_eq (by omega))

/-- After the last nonce the base is one that is used. -/
theorem base_used_at_end : ∃ nonces, (runNonces nonces).1.base ∈ (runNonces nonces).2 := by
  obtain ⟨nonces, hall⟩ := exists_nonces (2 ^ 64)
  exact ⟨nonces, hall _ (BitVec.isLt _)⟩

end NonceState

end Pyde
