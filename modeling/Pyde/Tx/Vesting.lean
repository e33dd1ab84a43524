/-
Module: Pyde.Tx.Vesting
Purpose: Vesting locks over runs of transactions. Validation keeps the locked amount out of what a
  sender may spend; here every way in which a transaction can lower its sender's balance is compared
  with that check.
Trusted boundary: Prims, Pvm
-/
import Pyde.Tx.SystemTransactions

namespace Pyde

open ByteCodec StateProgram List BitVec Nat

variable {slot slot' : U64} {key : StateKey} {addr : Address} {res : Outcome × Account} {purse : Purse}
  {payee final : Account} {charge : U128}

/-! ### The schedule -/

namespace VestingSchedule

variable (s : VestingSchedule)

theorem linear_le_total {elapsed duration : Nat} (h : elapsed ≤ duration) (total : Nat) :
    min (total * elapsed) (2 ^ 128 - 1) / duration ≤ total := by
  rcases Nat.eq_zero_or_pos duration with hzero | hpos
  · rw [hzero, Nat.div_zero]
    exact Nat.zero_le _
  refine Nat.div_le_of_le_mul ?_
  calc min (total * elapsed) (2 ^ 128 - 1) ≤ total * elapsed := Nat.min_le_left _ _
    _ ≤ total * duration := Nat.mul_le_mul_left _ h
    _ = duration * total := Nat.mul_comm _ _

theorem toNat_satMul {w : Nat} (x y : BitVec w) : (satMul x y).toNat = min (x.toNat * y.toNat) (2 ^ w - 1) := by
  unfold satMul
  split
  next h =>
    rw [toNat_mul, mod_eq_of_lt h]
    omega
  next h =>
    rw [toNat_allOnes]
    omega

/-- `unlocked_at` on integers. -/
theorem toNat_unlockedAt (slot : U64) :
    (s.unlockedAt slot).toNat =
      if s.durationSlots = 0 ∨ satAdd s.startSlot s.durationSlots ≤ slot then s.totalAmount.toNat
      else if slot < satAdd s.startSlot s.cliffSlots then 0
      else min (s.totalAmount.toNat * (slot.toNat - s.startSlot.toNat)) (2 ^ 128 - 1) / s.durationSlots.toNat := by
  have hduration : (s.durationSlots.setWidth 128).toNat = s.durationSlots.toNat := toNat_setWidth_of_le (by decide)
  have helapsed : ((satSub slot s.startSlot).setWidth 128).toNat = slot.toNat - s.startSlot.toNat := by
    rw [toNat_setWidth_of_le (by decide), toNat_satSub]
  unfold unlockedAt
  by_cases hinstant : s.durationSlots = 0
  · rw [if_pos hinstant, if_pos (.inl hinstant)]
  rw [if_neg hinstant]
  by_cases hend : satAdd s.startSlot s.durationSlots ≤ slot
  · rw [if_pos hend, if_pos (.inr hend)]
  rw [if_neg hend, if_neg (not_or.mpr ⟨hinstant, hend⟩)]
  by_cases hcliff : slot < satAdd s.startSlot s.cliffSlots
  · rw [if_pos hcliff, if_pos hcliff]
    rfl
  · rw [if_neg hcliff, if_neg hcliff, toNat_udiv, toNat_satMul, helapsed, hduration]

theorem unlockedAt_mono (h : slot ≤ slot') : (s.unlockedAt slot).toNat ≤ (s.unlockedAt slot').toNat := by
  have hle := BitVec.le_def.mp h
  rw [toNat_unlockedAt, toNat_unlockedAt]
  by_cases hdone : s.durationSlots = 0 ∨ satAdd s.startSlot s.durationSlots ≤ slot
  · rw [if_pos hdone, if_pos (hdone.imp_right fun hend => BitVec.le_trans hend h)]
  rw [if_neg hdone]
  by_cases hcliff : slot < satAdd s.startSlot s.cliffSlots
  · rw [if_pos hcliff]
    exact Nat.zero_le _
  have hcliff' : ¬ slot' < satAdd s.startSlot s.cliffSlots := fun hlt => hcliff (by bv_omega)
  rw [if_neg hcliff]
  by_cases hdone' : s.durationSlots = 0 ∨ satAdd s.startSlot s.durationSlots ≤ slot'
  · rw [if_pos hdone']
    -- before the end at most the duration has elapsed
    have hrunning := BitVec.lt_def.mp (BitVec.not_le.mp (not_or.mp hdone).2)
    rw [toNat_satAdd] at hrunning
    exact linear_le_total (by omega) _
  rw [if_neg hdone', if_neg hcliff']
  have helapsed : slot.toNat - s.startSlot.toNat ≤ slot'.toNat - s.startSlot.toNat := by omega
  have hproduct := Nat.mul_le_mul_left s.totalAmount.toNat helapsed
  exact Nat.div_le_div_right (by omega)

theorem lockedAt_antitone (h : slot ≤ slot') : (s.lockedAt slot').toNat ≤ (s.lockedAt slot).toNat := by
  have hmono := s.unlockedAt_mono h
  simp only [lockedAt, toNat_satSub]
  omega

end VestingSchedule

/-! ### What stays in place while a handler runs -/

section Handlers

variable (P : Prims) (owner : Address) (keys : Set StateKey)

/-- What the locked account has in the state: its record, of which `holds` is known, and its schedule.
No other record in play names it as the address it belongs to, so nothing is stored over its own. -/
structure Tidy (holds : Account → Prop) (schedule : Option VestingSchedule) (st : StateMap) : Prop where
  held : holds (acctAt P st owner)
  filed : Filed P st owner
  schedule : storedVesting P st owner = schedule
  strangers : ∀ addr, StateKey.account addr .balance ∈ keys → addr ≠ owner →
    (acctAt P st addr).address ≠ owner

/-- What is known of a record stays true of it when its balance grows. -/
def GainClosed (holds : Account → Prop) : Prop :=
  ∀ account balance, holds account → account.balance ≤ balance → holds { account with balance := balance }

/-- A key that is neither an account record nor the schedule. -/
def Elsewhere (key : StateKey) : Prop := (∀ addr, key ≠ .account addr .balance) ∧ key ≠ .account owner .vesting

variable {P owner keys} {holds : Account → Prop} {schedule : Option VestingSchedule}

theorem storedVesting_insert_of_ne {st : StateMap} {location : Hash256}
    (h : vestingKey P owner ≠ location) (value : Bytes) :
    storedVesting P (StateProgram.insert stored st location value) owner = storedVesting P st owner := by
  unfold storedVesting StateProgram.insert
  rw [Function.update_of_ne h]

variable (hinj : HashApart P keys)
  (howner : .account owner .balance ∈ keys) (hvesting : .account owner .vesting ∈ keys)

include hinj howner hvesting

theorem Tidy.elsewhere {st : StateMap} (h : Tidy P owner keys holds schedule st) (hkey : key ∈ keys)
    (hother : Elsewhere owner key) (value : Bytes) :
    Tidy P owner keys holds schedule (StateProgram.insert stored st (key.hash P) value) := by
  have hrecord : ∀ addr, .account addr .balance ∈ keys →
      acctAt P (StateProgram.insert stored st (key.hash P) value) addr =
        acctAt P st addr := by
    intro addr haddr
    refine acctAt_insert_of_ne (fun heq => ?_) value
    exact hother.1 addr (hinj haddr hkey heq).symm
  constructor
  case held =>
    rw [hrecord owner howner]
    exact h.held
  case filed =>
    rw [Filed, hrecord owner howner]
    exact h.filed
  case schedule =>
    rw [storedVesting_insert_of_ne (fun heq => hother.2 (hinj hvesting hkey heq).symm), h.schedule]
  case strangers =>
    intro addr haddr hne
    rw [hrecord addr haddr]
    exact h.strangers addr haddr hne

/-- A record is stored, of another account or of the account itself with `holds` true of it. -/
theorem Tidy.storeAccount {st : StateMap} (h : Tidy P owner keys holds schedule st)
    {account : Account} (hkey : .account account.address .balance ∈ keys)
    (hown : account.address = owner → holds account) (hstorable : account.authKeys.Storable) :
    Tidy P owner keys holds schedule
      (StateProgram.insert stored st ((StateKey.account account.address .balance).hash P) account.toBytes) := by
  have hrecord : ∀ addr, .account addr .balance ∈ keys →
      acctAt P (StateProgram.insert stored st ((StateKey.account account.address .balance).hash P)
        account.toBytes) addr = if addr = account.address then account else acctAt P st addr :=
    fun addr haddr => acctAt_insert hinj hkey haddr hstorable
  constructor
  case held =>
    rw [hrecord owner howner]
    split
    next heq => exact hown heq.symm
    next => exact h.held
  case filed =>
    rw [Filed, hrecord owner howner]
    split
    next heq => exact heq.symm
    next => exact h.filed
  case schedule =>
    rw [storedVesting_insert_of_ne, h.schedule]
    intro heq
    cases hinj hvesting hkey heq
  case strangers =>
    intro addr haddr hother
    rw [hrecord addr haddr]
    split
    next heq => exact heq ▸ hother
    next => exact h.strangers addr haddr hother

omit howner hvesting hinj

variable (P owner keys holds schedule) in
/-- The program, started here, leaves the locked account alone and returns a result with `ψ`. -/
abbrev Spares {α : Type} (ψ : α → Prop) (program : StateProg α) (st : StateMap) : Prop :=
  Upholds stored (StateKey.hash P) (Tidy P owner keys holds schedule) keys ψ program st

variable {st : StateMap} {α : Type}

include hinj howner hvesting

theorem spares_elsewhere {program : StateProg α} (h : program.Writes (Elsewhere owner)) :
    Spares P owner keys holds schedule (fun _ => True) program st :=
  Upholds.of_writes h
    (fun _ _ value htidy hkey hother => htidy.elsewhere hinj howner hvesting hkey hother value) st

theorem spares_storeAccount {account : Account} (hown : account.address = owner → holds account)
    (hstorable : account.authKeys.Storable) :
    Spares P owner keys holds schedule (fun _ => True) (storeAccount account) st :=
  Upholds.write fun htidy hkey => htidy.storeAccount hinj howner hvesting hkey hown hstorable

omit hinj howner hvesting in
theorem Bookkeeping.elsewhere (h : Bookkeeping key) : Elsewhere owner key := by
  constructor
  · rintro addr rfl
    cases h
  · rintro rfl
    cases h

theorem spares_bookkeeping {program : StateProg α} (h : program.Writes Bookkeeping) :
    Spares P owner keys holds schedule (fun _ => True) program st :=
  spares_elsewhere hinj howner hvesting (h.mono fun _ => Bookkeeping.elsewhere)

/-! ### Calls and deployments -/

theorem spares_storeContract (hne : addr ≠ owner) (code : Bytes) :
    Spares P owner keys holds schedule (fun _ => True) (storeContract P addr code) st := by
  refine .bind (spares_elsewhere hinj howner hvesting ?_) fun _ _ _ => ?_
  · exact Prog.writes_write.mpr ⟨nofun, nofun⟩
  · exact spares_storeAccount hinj howner hvesting (fun heq => absurd heq hne) AuthKeys.storable_none

theorem spares_persistContracts {contracts : List (Address × Bytes)}
    (hne : ∀ entry ∈ contracts, entry.1 ≠ owner) :
    Spares P owner keys holds schedule (fun _ => True) (persistContracts P contracts) st := by
  induction contracts generalizing st with
  | nil => exact .pure trivial
  | cons entry rest ih =>
    obtain ⟨addr, code⟩ := entry
    obtain ⟨hhead, hrest⟩ := List.forall_mem_cons.mp hne
    refine .ask (Prog.writes_read _) ?_
    split
    · exact ih hrest
    · exact (spares_storeContract hinj howner hvesting hhead code).bind fun _ _ _ => ih hrest

variable (P owner) in
/-- The virtual machine reports no contract at the address of the locked account. -/
def DeploysApart (pvm : Pvm) : Prop :=
  ∀ aot code call (st : StateMap),
    ∀ entry ∈ (runIn P (pvm aot code call).toProg st).1.contracts, entry.1 ≠ owner

section

variable {pvm : Pvm} (hvm : DeploysApart P owner pvm) (tx : Transaction) (ctx : BlockContext)
include hvm

theorem spares_executeInPvm (aot : Bool) (code : Bytes) :
    Spares P owner keys holds schedule (fun _ => True) (executeInPvm P pvm tx ctx aot code) st := by
  refine .ask (Query.writes_toProg _) ?_
  have hapart := hvm aot code (pvmCall tx ctx) st
  split
  · refine (spares_bookkeeping hinj howner hvesting (writes_writeStorage _)).bind fun _ _ _ => ?_
    refine (spares_persistContracts hinj howner hvesting hapart).bind fun _ _ _ => ?_
    exact .pure trivial
  · exact .pure trivial

theorem spares_executeCall (aot : Bool) :
    Spares P owner keys holds schedule (fun _ => True) (executeCall P pvm tx ctx aot) st := by
  refine .ask (Prog.writes_read _) ?_
  split
  · exact spares_executeInPvm hinj howner hvesting hvm tx ctx aot _
  · exact .pure trivial

theorem spares_deployCode {newAddr : Address} (hne : newAddr ≠ owner) :
    Spares P owner keys holds schedule (fun _ => True) (deployCode P pvm tx ctx newAddr) st := by
  unfold deployCode
  split
  · exact (spares_storeContract hinj howner hvesting hne _).bind fun _ _ _ => Upholds.pure trivial
  refine (spares_storeContract hinj howner hvesting hne _).bind fun _ _ _ => ?_
  refine (spares_executeInPvm hinj howner hvesting hvm _ ctx false _).bind fun _ _ _ => ?_
  exact .pure trivial

end

/-! ### Handlers that pay out of protocol accounts -/

theorem spares_storeBalance (haddr : .account addr .balance ∈ keys) (hne : addr ≠ owner)
    {before : StateMap} (htidy : Tidy P owner keys holds schedule before) (balance : U128) :
    Spares P owner keys holds schedule (fun _ => True)
      (storeAccount { acctAt P before addr with balance := balance }) st :=
  spares_storeAccount hinj howner hvesting (fun heq => absurd heq (htidy.strangers addr haddr hne))
    (storable_acctAt P before addr)

section

variable (hpool : .account (airdropPoolAddress P) .balance ∈ keys) (hapart : airdropPoolAddress P ≠ owner)
include hpool hapart

theorem spares_executeClaimAirdrop (tx : Transaction) (ctx : BlockContext) (balance : U128) :
    Spares P owner keys holds schedule (fun _ => True) (executeClaimAirdrop P tx ctx balance) st := by
  unfold executeClaimAirdrop
  split
  · exact .pure trivial
  dsimp only
  split
  · exact .pure trivial
  refine .ask (by unfold readAirdropDeadline; simp) ?_
  split
  · exact .pure trivial
  split
  · exact .pure trivial
  refine .ask (by simp) ?_
  split
  · exact .pure trivial
  refine .ask (by simp) ?_
  split
  · exact .pure trivial
  split
  · exact .pure trivial
  refine .given fun htidy => ?_
  refine .ask (writes_loadAccount _) ?_
  split
  · exact .pure trivial
  refine (spares_storeBalance hinj howner hvesting hpool hapart htidy _).bind fun _ _ _ => ?_
  refine .bind (spares_bookkeeping hinj howner hvesting ?_) fun _ _ _ => ?_
  · exact Prog.writes_write.mpr trivial
  · exact .pure trivial

theorem spares_executeSweepAirdrop (htreasury : .account (treasuryAddress P) .balance ∈ keys)
    (hapart' : treasuryAddress P ≠ owner) (tx : Transaction) (ctx : BlockContext) :
    Spares P owner keys holds schedule (fun _ => True) (executeSweepAirdrop P tx ctx) st := by
  unfold executeSweepAirdrop
  split
  · exact .pure trivial
  refine .ask (by unfold readAirdropDeadline; simp) ?_
  split
  · exact .pure trivial
  split
  · exact .pure trivial
  refine .given fun htidy => ?_
  refine .ask (writes_loadAccount _) ?_
  split
  · exact .pure trivial
  refine .ask (writes_loadAccount _) ?_
  refine (spares_storeBalance hinj howner hvesting hpool hapart htidy _).bind fun _ _ _ => ?_
  refine (spares_storeBalance hinj howner hvesting htreasury hapart' htidy _).bind fun _ _ _ => ?_
  exact .pure trivial

end

/-- Only a transaction of another sender can pay the treasury's money to the account. -/
theorem spares_executeMultisigSpend {tx : Transaction} (hgain : tx.fromAddress ≠ owner → GainClosed holds)
    (htreasury : .account (treasuryAddress P) .balance ∈ keys) (hapart : treasuryAddress P ≠ owner)
    (htarget : ∀ spend sigs, MultisigPayload.decode tx.data = some (.spend spend sigs) →
      .account spend.target .balance ∈ keys) (ctx : BlockContext) :
    Spares P owner keys holds schedule (fun _ => True) (executeMultisigSpend P tx ctx) st := by
  unfold executeMultisigSpend
  split
  · exact .pure trivial
  · exact .pure trivial
  rename_i spend sigs hdecode
  dsimp only
  split
  · exact .pure trivial
  split
  · exact .pure trivial
  rename_i hfault
  refine .ask (writes_multisigOk writes_signing) ?_
  split
  · exact .pure trivial
  refine .given fun htidy => ?_
  refine .ask (writes_loadAccount _) ?_
  split
  · exact .pure trivial
  -- a spend to its own submitter was turned away above
  have hsubmitter : spend.target ≠ tx.fromAddress := by
    unfold spendFault at hfault
    split_ifs at hfault
    assumption
  refine .ask (writes_loadAccount _) ?_
  refine (spares_storeBalance hinj howner hvesting htreasury hapart htidy _).bind fun _ _ _ => ?_
  refine .bind (spares_storeAccount hinj howner hvesting ?_
    (storable_acctAt P st spend.target)) fun _ _ _ => ?_
  · intro hnamed
    by_cases heq : spend.target = owner
    · rw [heq] at hsubmitter ⊢
      exact hgain hsubmitter.symm _ _ htidy.held (le_satAdd _ _)
    · exact absurd hnamed (htidy.strangers spend.target (htarget spend sigs hdecode) heq)
  refine .bind (spares_bookkeeping hinj howner hvesting ?_) fun _ _ _ => ?_
  · exact writes_writeGlobal.mpr trivial
  · exact .pure trivial

/-! ### Any handler -/

omit hinj howner hvesting

variable (P owner keys) in
/-- What a transaction may involve is in play, and the locked account is none of the protocol's own. -/
structure InReach (tx : Transaction) : Prop where
  nonce : StateKey.account tx.fromAddress .nonce ∈ keys
  sender : StateKey.account tx.fromAddress .balance ∈ keys
  validator : StateKey.account tx.fromAddress .validator ∈ keys
  recipient : StateKey.account tx.toAddress .balance ∈ keys
  target : ∀ spend sigs, MultisigPayload.decode tx.data = some (.spend spend sigs) →
    StateKey.account spend.target .balance ∈ keys
  pool : StateKey.account (airdropPoolAddress P) .balance ∈ keys
  treasury : StateKey.account (treasuryAddress P) .balance ∈ keys
  rewards : StateKey.single .rewardsPerValidator ∈ keys
  notPool : airdropPoolAddress P ≠ owner
  notTreasury : treasuryAddress P ≠ owner

include hinj howner hvesting

omit hinj howner hvesting in
theorem spares_keepSender {payer : Account} {handler : StateProg Outcome}
    (h : Spares P owner keys holds schedule (fun _ => True) handler st) :
    Spares P owner keys holds schedule (fun _ => True) (keepSender payer handler) st :=
  Upholds.bind h fun _ _ _ => Upholds.pure trivial

theorem spares_dispatch {pvm : Pvm} (hvm : DeploysApart P owner pvm) {tx : Transaction}
    (hgain : tx.fromAddress ≠ owner → GainClosed holds) (hreach : InReach P owner keys tx) {payer : Account}
    (hderived : tx.txType = .deploy → deriveCreateAddress P tx.fromAddress payer.nonce ≠ owner)
    (ctx : BlockContext) (aot : Bool) :
    Spares P owner keys holds schedule (fun _ => True) (dispatch P pvm aot tx ctx payer) st := by
  have hbooks : ∀ {α : Type} {program : StateProg α}, program.Writes Bookkeeping →
      Spares P owner keys holds schedule (fun _ => True) program st :=
    fun h => spares_bookkeeping hinj howner hvesting h
  unfold dispatch
  cases htype : tx.txType with
  | standard =>
    dsimp only
    split
    · exact spares_keepSender (spares_executeCall hinj howner hvesting hvm tx ctx aot)
    · exact .pure trivial
  | deploy =>
    exact (spares_deployCode hinj howner hvesting hvm tx ctx (hderived htype)).bind fun _ _ _ =>
      Upholds.pure trivial
  | stakeDeposit => exact hbooks (writes_executeStakeDeposit payer)
  | stakeWithdraw => exact spares_keepSender (hbooks writes_executeStakeWithdraw)
  | registerPubkey => exact .pure trivial
  | slash => exact .bind (hbooks (writes_executeSlash ctx.chainId _)) fun _ _ _ => Upholds.pure trivial
  | claimAirdrop =>
    exact (spares_executeClaimAirdrop hinj howner hvesting hreach.pool hreach.notPool tx ctx _).bind
      fun _ _ _ => Upholds.pure trivial
  | sweepAirdrop =>
    exact spares_keepSender (spares_executeSweepAirdrop hinj howner hvesting
      hreach.pool hreach.notPool hreach.treasury hreach.notTreasury tx ctx)
  | multisigTx =>
    exact spares_keepSender (spares_executeMultisigSpend hinj howner hvesting
      hgain hreach.treasury hreach.notTreasury hreach.target ctx)
  | rotateMultisig => exact spares_keepSender (hbooks writes_executeRotateMultisig)
  | emergencyPause => exact spares_keepSender (hbooks writes_executeEmergencyPause)
  | emergencyResume => exact spares_keepSender (hbooks writes_executeEmergencyResume)
  | claimReward => exact hbooks (writes_executeClaimReward payer)

end Handlers

/-! ### What a handler does to its sender's balance -/

section Results

variable (P : Prims) (tx : Transaction) (ctx : BlockContext) (st : StateMap)

/-- The most that a claim, a reward or a finder's fee can add to a balance. -/
def creditBound : Nat :=
  (acctAt P st (airdropPoolAddress P)).balance.toNat +
    (runIn P readRewardsPerValidator st).1.toNat + validatorStake.toNat

/-- The sender's record after a handler: a stake was taken off, or nothing was. -/
def Acted (payer : Account) (res : Outcome × Account) : Prop :=
  (tx.txType = .stakeDeposit ∧ StakeAccepted P tx payer.balance st ∧ res.1.gasUsed = 50000 ∧
    res.1.gasRefund = 0 ∧ res.2.balance = payer.balance - validatorStake) ∨ (payer.balance ≤ res.2.balance ∧
    res.2.balance.toNat ≤ payer.balance.toNat + creditBound P st)

variable {P tx ctx st} {payer : Account}

theorem acted_same (h : res.2.balance = payer.balance) : Acted P tx st payer res :=
  Or.inr ⟨h ▸ BitVec.le_refl _, h ▸ Nat.le_add_right _ _⟩

theorem acted_credited {amt : U128} (h : res.2.balance = satAdd payer.balance amt)
    (hamount : amt.toNat ≤ creditBound P st) : Acted P tx st payer res := by
  refine .inr ⟨h ▸ le_satAdd _ _, ?_⟩
  rw [h, toNat_satAdd]
  omega

theorem acted_executeStakeDeposit (htype : tx.txType = .stakeDeposit) :
    Acted P tx st payer (runIn P (executeStakeDeposit P tx payer) st).1 := by
  unfold executeStakeDeposit
  split
  · exact acted_same rfl
  rename_i henough
  split
  · exact acted_same rfl
  rename_i hlength
  split
  · exact acted_same rfl
  rename_i hkey
  simp only [run_bind, run_read]
  split
  · exact acted_same rfl
  rename_i hfree
  have haccepted : StakeAccepted P tx payer.balance st :=
    ⟨BitVec.not_lt.mp henough, Nat.not_lt.mp hlength, Decidable.not_not.mp hkey, hfree⟩
  simp only [run_bind, run_pure]
  exact .inl ⟨htype, haccepted, rfl, rfl, rfl⟩

theorem acted_executeClaimReward : Acted P tx st payer (runIn P (executeClaimReward tx payer) st).1 := by
  unfold executeClaimReward
  simp only [run_bind, run_read]
  split
  · exact acted_same rfl
  split
  · exact acted_same rfl
  split
  · exact acted_same rfl
  simp only [run_bind]
  split
  · simp only [run_bind, run_pure]
    refine acted_credited rfl ?_
    rw [toNat_satSub]
    exact (sub_le _ _).trans ((Nat.le_add_left _ _).trans (Nat.le_add_right _ _))
  · exact acted_same rfl

theorem finderFee_le (stake : U128) : (lesser stake validatorStake * 10 / 100).toNat ≤ validatorStake.toNat := by
  have hslash := lesser_toNat stake validatorStake
  have hstake : validatorStake.toNat = 10000000000000 := rfl
  have hten : (10 : U128).toNat = 10 := rfl
  have hhundred : (100 : U128).toNat = 100 := rfl
  rw [toNat_udiv, toNat_mul, hten, hhundred, mod_eq_of_lt (by omega)]
  omega

theorem returns_applySlash (signer : Address) (entry : ValidatorEntry) :
    (applySlash signer entry).Returns fun fee => fee.toNat ≤ validatorStake.toNat := by
  unfold applySlash
  refine .bind fun _ => ?_
  dsimp only
  split
  · exact .bind fun _ => finderFee_le _
  · exact finderFee_le _

theorem returns_executeSlash (chainId : U64) (balance : U128) :
    (executeSlash P tx chainId balance).Returns fun res =>
      res.2 = balance ∨ ∃ fee, fee.toNat ≤ validatorStake.toNat ∧ res.2 = satAdd balance fee := by
  unfold executeSlash
  split
  · exact .inl rfl
  split
  · exact .inl rfl
  refine .bind fun data => ?_
  cases data with
  | none => exact .inl rfl
  | some data =>
    dsimp only
    split
    · exact .inl rfl
    split
    · exact .inl rfl
    split
    · exact .inl rfl
    · exact (returns_applySlash _ _).bind_of fun fee hfee => Or.inr ⟨fee, hfee, rfl⟩

theorem acted_executeSlash (chainId : U64) :
    Acted P tx st payer (runIn P (withBalance payer (executeSlash P tx chainId)) st).1 := by
  unfold withBalance
  simp only [run_bind, run_pure]
  rcases (returns_executeSlash chainId payer.balance).run stored (StateKey.hash P) st with
    hsame | ⟨fee, hfee, hcredited⟩
  · exact acted_same hsame
  · exact acted_credited hcredited (hfee.trans (Nat.le_add_left _ _))

theorem credited_payAirdrop (payload : ClaimPayload) (balance : U128) :
    (runIn P (payAirdrop P payload balance) st).1.2 = balance ∨
      ∃ amt, amt ≤ (acctAt P st (airdropPoolAddress P)).balance ∧
        (runIn P (payAirdrop P payload balance) st).1.2 = satAdd balance amt := by
  unfold payAirdrop
  dsimp only
  rw [run_loadAccount_bind]
  by_cases hshort : (acctAt P st (airdropPoolAddress P)).balance < payload.amount
  · rw [if_pos hshort]
    exact .inl rfl
  · rw [if_neg hshort]
    exact .inr ⟨payload.amount, BitVec.not_lt.mp hshort, rfl⟩

variable (P tx ctx st) in
theorem credited_executeClaimAirdrop (balance : U128) :
    (runIn P (executeClaimAirdrop P tx ctx balance) st).1.2 = balance ∨
      ∃ amt, amt ≤ (acctAt P st (airdropPoolAddress P)).balance ∧
        (runIn P (executeClaimAirdrop P tx ctx balance) st).1.2 = satAdd balance amt := by
  unfold executeClaimAirdrop
  split
  · exact .inl rfl
  rename_i payload _
  dsimp only
  split
  · exact .inl rfl
  simp only [run_bind]
  split
  · exact .inl rfl
  split
  · exact .inl rfl
  simp only [run_bind]
  split
  · exact .inl rfl
  simp only [run_bind]
  split
  · exact .inl rfl
  split
  · exact .inl rfl
  · exact credited_payAirdrop _ balance

theorem acted_executeClaimAirdrop :
    Acted P tx st payer (runIn P (withBalance payer (executeClaimAirdrop P tx ctx)) st).1 := by
  unfold withBalance
  simp only [run_bind, run_pure]
  rcases credited_executeClaimAirdrop P tx ctx st payer.balance with
    hsame | ⟨amt, hamount, hcredited⟩
  · exact acted_same hsame
  · refine acted_credited hcredited ((BitVec.le_def.mp hamount).trans ?_)
    exact (Nat.le_add_right _ _).trans (Nat.le_add_right _ _)

theorem acted_keepSender (handler : StateProg Outcome) :
    Acted P tx st payer (runIn P (keepSender payer handler) st).1 := by
  unfold keepSender
  simp only [run_bind, run_pure]
  exact acted_same rfl

theorem acted_executeDeploy (pvm : Pvm) :
    Acted P tx st payer (runIn P (executeDeploy P pvm tx ctx payer) st).1 := by
  unfold executeDeploy
  simp only [run_bind, run_pure]
  exact acted_same rfl

variable (P tx ctx st payer) in
theorem acted_dispatch (pvm : Pvm) (aot : Bool) :
    Acted P tx st payer (runIn P (dispatch P pvm aot tx ctx payer) st).1 := by
  unfold dispatch
  cases htype : tx.txType with
  | standard =>
    dsimp only
    split
    · exact acted_keepSender _
    · exact acted_same rfl
  | deploy => exact acted_executeDeploy pvm
  | stakeDeposit => exact acted_executeStakeDeposit htype
  | stakeWithdraw => exact acted_keepSender _
  | registerPubkey => exact acted_same rfl
  | slash => exact acted_executeSlash ctx.chainId
  | claimAirdrop => exact acted_executeClaimAirdrop
  | sweepAirdrop | multisigTx | rotateMultisig | emergencyPause | emergencyResume => exact acted_keepSender _
  | claimReward => exact acted_executeClaimReward

theorem returns_keys_executeStakeDeposit (payer : Account) :
    (executeStakeDeposit P tx payer).Returns fun res => res.2.authKeys = payer.authKeys := by
  unfold executeStakeDeposit
  with_reducible repeat' first | split | refine .bind fun _ => ?_
  all_goals exact rfl

theorem returns_keys_executeClaimReward (payer : Account) :
    (executeClaimReward tx payer).Returns fun res => res.2.authKeys = payer.authKeys := by
  unfold executeClaimReward
  with_reducible repeat' first | split | refine .bind fun _ => ?_ | dsimp only
  all_goals exact rfl

/-- A handler puts a registered key into its sender's record, or leaves the keys alone. -/
theorem returns_keys_dispatch (pvm : Pvm) (aot : Bool) (payer : Account) :
    (dispatch P pvm aot tx ctx payer).Returns fun res => res.2.authKeys = payer.authKeys ∨
        (tx.txType = .registerPubkey ∧ res.2.authKeys = .single tx.data) := by
  have hkeep : ∀ handler : StateProg Outcome, (keepSender payer handler).Returns fun res =>
      res.2.authKeys = payer.authKeys := fun _ => Prog.Returns.bind fun _ => rfl
  have hbalance : ∀ handler : U128 → StateProg (Outcome × U128),
      (withBalance payer handler).Returns fun res => res.2.authKeys = payer.authKeys :=
    fun _ => Prog.Returns.bind fun _ => rfl
  unfold dispatch
  cases htype : tx.txType with
  | standard =>
    dsimp only
    split
    · exact (hkeep _).mono fun _ => Or.inl
    · exact .inl rfl
  | deploy => exact .bind fun _ => Or.inl rfl
  | stakeDeposit => exact (returns_keys_executeStakeDeposit payer).mono fun _ => Or.inl
  | registerPubkey => exact .inr ⟨rfl, rfl⟩
  | slash | claimAirdrop => exact (hbalance _).mono fun _ => Or.inl
  | claimReward => exact (returns_keys_executeClaimReward payer).mono fun _ => Or.inl
  | _ => exact (hkeep _).mono fun _ => Or.inl

end Results

/-! ### The lock in validation and charging -/

section Money

variable {P : Prims} {tx : Transaction} {sender : Account} {nonceState : NonceState}
  {ctx : ValidationContext}

/-- What a valid transaction leaves of its sender's balance: the lock, unless a paymaster was named. -/
theorem validateTransaction_lock (h : validateTransaction P tx sender nonceState ctx = .ok ())
    (hlock : ctx.senderLocked ≤ sender.balance) :
    tx.gasLimit.toNat * ctx.baseFee.toNat + tx.value.toNat < 2 ^ 128 ∧ (tx.feePayer = .sender →
      tx.gasLimit.toNat * ctx.baseFee.toNat + tx.value.toNat + ctx.senderLocked.toNat ≤ sender.balance.toNat) ∧
    (∀ addr, tx.feePayer = .gasTank addr → tx.value.toNat + ctx.senderLocked.toNat ≤ sender.balance.toNat) := by
  have hlocked := BitVec.le_def.mp hlock
  unfold validateTransaction at h
  rw [checks_ok] at h
  obtain ⟨_, h⟩ := h
  split at h
  · unfold validateRegisterPubkey at h
    simp only [checks_ok, rejectIf_ok, Decidable.not_not] at h
    obtain ⟨_, hvalue, hgas, _⟩ := h
    rw [hvalue, hgas]
    simp only [ofNat_eq_ofNat, toNat_zero, Nat.zero_mul, Nat.zero_add]
    exact ⟨by decide, fun _ => hlocked, fun _ _ => hlocked⟩
  simp only [checks_ok] at h
  obtain ⟨_, _, _, _, _, _, _, _, hbalance, _⟩ := h
  unfold validateBalance at hbalance
  dsimp only at hbalance
  split at hbalance
  · cases hbalance
  rename_i gasCost hmul
  obtain ⟨_, hgas⟩ := checkedMul_some hmul
  rw [tx.toNat_limit] at hgas
  split at hbalance
  · cases hbalance
  rename_i total hadd
  obtain ⟨hlt, htotal⟩ := checkedAdd_some hadd
  rw [hgas] at hlt htotal
  have hspendable := toNat_satSub sender.balance ctx.senderLocked
  refine ⟨hlt, ?_, ?_⟩
  · intro hpayer
    rw [hpayer] at hbalance
    have hle := BitVec.le_def.mp (BitVec.not_lt.mp (rejectIf_ok.mp hbalance))
    omega
  · intro addr hpayer
    rw [hpayer] at hbalance
    have hle := BitVec.le_def.mp (BitVec.not_lt.mp (rejectIf_ok.mp hbalance))
    omega

/-- The only charge that fails after validation is one on a gas tank that is too low. -/
theorem tank_of_failed_charge {baseFee : U128} {reason : String}
    (hfits : tx.gasLimit.toNat * baseFee.toNat + tx.value.toNat < 2 ^ 128) (hsender : tx.feePayer = .sender →
      tx.gasLimit.toNat * baseFee.toNat + tx.value.toNat ≤ purse.balance.toNat)
    (htank : ∀ addr, tx.feePayer = .gasTank addr → tx.value.toNat ≤ purse.balance.toNat)
    (h : preExecutionCharge tx purse baseFee = .error reason) :
    ∃ addr, tx.feePayer = .gasTank addr ∧ purse.gasTank.toNat < tx.gasLimit.toNat * baseFee.toNat := by
  have hproduct := toNat_gasCost (show tx.gasLimit.toNat * baseFee.toNat < 2 ^ 128 by omega)
  cases hpayer : tx.feePayer with
  | sender => exact absurd h (charge_ne_error hpayer (hsender hpayer))
  | gasTank addr =>
    refine ⟨addr, rfl, ?_⟩
    rw [preExecutionCharge, checkedMul, tx.toNat_limit, if_pos (by omega), hpayer] at h
    dsimp only at h
    by_cases hlow : purse.gasTank < tx.gasLimit.setWidth 128 * baseFee
    · rw [lt_def, hproduct] at hlow
      exact hlow
    have hvalue : ¬ purse.balance < tx.value := by
      rw [lt_def]
      have hle := htank addr hpayer
      omega
    rw [if_neg hlow, if_neg hvalue] at h
    cases h
  | paymaster addr =>
    rw [preExecutionCharge, checkedMul, tx.toNat_limit, if_pos (by omega), hpayer] at h
    cases h

end Money

/-! ### When the lock holds -/

section Condition

variable (P : Prims)

/-- What is locked of an account's balance at a slot. -/
def lockedAmount (st : StateMap) (addr : Address) (slot : U64) : U128 :=
  ((storedVesting P st addr).map fun schedule => schedule.lockedAt slot).getD 0

/-- What a sender who pays for a stake deposit is charged for gas in the end. -/
def stakeGas (sub : Submission) : Nat :=
  match sub.tx.feePayer with
  | .sender => min 50000 sub.tx.gasLimit.toNat * sub.ctx.baseFee.toNat
  | _ => 0

variable (owner : Address)

/-- A transaction of the account takes no way around the check of validation: a stake comes out of what
is not locked, so does the baseline fee behind a gas tank that is too low and the value of a transaction
that names a paymaster. -/
structure OwnLockRespected (sub : Submission) (st : StateMap) : Prop where
  staking : sub.tx.txType = .stakeDeposit →
    StakeAccepted P sub.tx (acctAt P st owner).balance st →
    (lockedAmount P st owner sub.ctx.height).toNat + validatorStake.toNat + stakeGas sub ≤
      (acctAt P st owner).balance.toNat
  tank : ∀ addr, sub.tx.feePayer = .gasTank addr →
    sub.tx.gasLimit.toNat * sub.ctx.baseFee.toNat ≤ (acctAt P st owner).gasTank.toNat ∨
      (lockedAmount P st owner sub.ctx.height).toNat +
        minGasLimit.toNat * sub.ctx.baseFee.toNat ≤ (acctAt P st owner).balance.toNat
  sponsored : ∀ addr, sub.tx.feePayer = .paymaster addr →
    sub.tx.movedValue.toNat + (lockedAmount P st owner sub.ctx.height).toNat ≤
        (acctAt P st owner).balance.toNat ∨ (acctAt P st owner).balance < sub.tx.movedValue

/-- The condition on a transaction of any sender. The amounts are below the sign bit of the write-back,
and a deployment is not to the address of the account. -/
structure LockRespected (sub : Submission) (st : StateMap) : Prop where
  own : sub.tx.fromAddress = owner → OwnLockRespected P owner sub st
  room : (acctAt P st owner).balance.toNat + creditBound P st +
    2 ^ 64 * sub.ctx.baseFee.toNat < 2 ^ 127
  small : sub.tx.movedValue.toNat < 2 ^ 127
  derived : sub.tx.txType = .deploy → deriveCreateAddress P sub.tx.fromAddress
      (acctAt P st sub.tx.fromAddress).nonce ≠ owner

/-- A balance that was at least the lock still is. -/
def KeepsLock (sub : Submission) (before : StateMap) (account : Account) : Prop :=
  lockedAmount P before owner sub.ctx.height ≤ (acctAt P before owner).balance →
    lockedAmount P before owner sub.ctx.height ≤ account.balance

end Condition

/-! ### The balance that is written back -/

section Final

variable {tx : Transaction} {ctx : BlockContext}

theorem toNat_refunded (balance baseFee : U128) (gasUsed gasLimit gasRefund : U64)
    (hroom : balance.toNat + 2 ^ 64 * baseFee.toNat < 2 ^ 128) :
    (postExecutionRefund gasUsed gasLimit gasRefund balance baseFee).feePayerBalance.toNat = balance.toNat +
        (gasLimit - lesser gasUsed gasLimit + lesser gasRefund (gasUsed / 2)).toNat * baseFee.toNat := by
  unfold postExecutionRefund
  dsimp only
  generalize gasLimit - lesser gasUsed gasLimit + lesser gasRefund (gasUsed / 2) = units
  have hwidth : (units.setWidth 128).toNat = units.toNat := toNat_setWidth_of_le (by decide)
  have hproduct : units.toNat * baseFee.toNat ≤ 2 ^ 64 * baseFee.toNat :=
    Nat.mul_le_mul_right _ (Nat.le_of_lt units.isLt)
  have hfits : units.toNat * baseFee.toNat < 2 ^ 128 := by omega
  rw [toNat_add, toNat_mul, hwidth, mod_eq_of_lt hfits, mod_eq_of_lt (by omega)]

variable (tx ctx) in
/-- The balance that a transaction ends with, from the one its handler left. -/
theorem final_bounds (acted : Account) (outcome : Outcome)
    (hroom : acted.balance.toNat + 2 ^ 64 * ctx.baseFee.toNat < 2 ^ 127) :
    acted.balance.toNat ≤ (refundSender tx ctx acted outcome).1.balance.toNat ∧
      (refundSender tx ctx acted outcome).1.balance.toNat < 2 ^ 127 := by
  unfold refundSender
  cases tx.feePayer with
  | sender =>
    have hexact := toNat_refunded acted.balance ctx.baseFee outcome.gasUsed tx.gasLimit outcome.gasRefund (by omega)
    have hunits := Nat.mul_le_mul_right ctx.baseFee.toNat (Nat.le_of_lt
      (tx.gasLimit - lesser outcome.gasUsed tx.gasLimit + lesser outcome.gasRefund (outcome.gasUsed / 2)).isLt)
    dsimp only
    omega
  | gasTank addr | paymaster addr => exact ⟨Nat.le_refl _, by dsimp only; omega⟩

theorem toNat_stakeRefund (gasLimit : U64) :
    (gasLimit - lesser 50000 gasLimit + lesser 0 (50000 / 2)).toNat = gasLimit.toNat - min 50000 gasLimit.toNat := by
  have hzero : lesser (0 : U64) (50000 / 2) = 0 := by decide
  have hused := lesser_toNat 50000 gasLimit
  have hconst : (50000 : U64).toNat = 50000 := rfl
  have hle : lesser 50000 gasLimit ≤ gasLimit := by
    rw [le_def]
    omega
  have hadd : gasLimit - lesser 50000 gasLimit + 0 = gasLimit - lesser 50000 gasLimit := by simp
  rw [hzero, hadd, toNat_sub_of_le hle, hused, hconst]

theorem payer_balance {sender rcpt payer : Account}
    (hcharge : preExecutionCharge tx sender.purse ctx.baseFee = .ok (charge, purse))
    (htransfer : transferFor tx (sender.charged purse) rcpt = .ok (payer, payee)) :
    payer.balance.toNat + tx.movedValue.toNat + (match tx.feePayer with
      | .sender => tx.gasLimit.toNat * ctx.baseFee.toNat
      | _ => 0) = sender.balance.toNat := by
  obtain ⟨hmoved, hpayer, -⟩ := transferFor_ok htransfer
  have hnat := BitVec.le_def.mp hmoved
  rw [hpayer]
  dsimp only
  rw [toNat_sub_of_le hmoved]
  obtain ⟨-, hcases⟩ := preExecutionCharge_ok hcharge
  rcases hcases with ⟨hpays, hgas, henough, hleft⟩ | ⟨addr, hpays, _, _, _, hleft⟩ | ⟨addr, hpays, _, hleft⟩
  · have hle : charge ≤ sender.balance := by
      rw [le_def]
      exact (Nat.le_add_right _ _).trans henough
    have hpurse : (sender.charged purse).balance.toNat = sender.balance.toNat - charge.toNat := by
      rw [hleft]
      exact toNat_sub_of_le hle
    have hcharged := BitVec.le_def.mp hle
    rw [hpays]
    dsimp only
    omega
  · have hpurse : (sender.charged purse).balance.toNat = sender.balance.toNat := by
      rw [hleft]
      rfl
    rw [hpays]
    dsimp only
    omega
  · have hpurse : (sender.charged purse).balance.toNat = sender.balance.toNat := by
      rw [hleft]
      rfl
    rw [hpays]
    dsimp only
    omega

variable {P : Prims} {st : StateMap} {locked : Nat}

theorem movedValue_le (tx : Transaction) : tx.movedValue.toNat ≤ tx.value.toNat := by
  unfold Transaction.movedValue
  split
  · exact Nat.le_refl _
  · exact Nat.zero_le _

/-- The balance that is written back for a sender who was charged is at least the lock. -/
theorem locked_le_final {sender rcpt payer : Account}
    (hcharge : preExecutionCharge tx sender.purse ctx.baseFee = .ok (charge, purse))
    (htransfer : transferFor tx (sender.charged purse) rcpt = .ok (payer, payee))
    (hacted : Acted P tx st payer res) (hsender : tx.feePayer = .sender →
      tx.gasLimit.toNat * ctx.baseFee.toNat + tx.value.toNat + locked ≤ sender.balance.toNat)
    (htank : ∀ addr, tx.feePayer = .gasTank addr → tx.value.toNat + locked ≤ sender.balance.toNat)
    (hsponsor : ∀ addr, tx.feePayer = .paymaster addr → tx.movedValue.toNat + locked ≤ sender.balance.toNat)
    (hroom : sender.balance.toNat + creditBound P st + 2 ^ 64 * ctx.baseFee.toNat < 2 ^ 127)
    (hstake : tx.txType = .stakeDeposit → StakeAccepted P tx sender.balance st →
      locked + validatorStake.toNat + (match tx.feePayer with
        | .sender => min 50000 tx.gasLimit.toNat * ctx.baseFee.toNat
        | _ => 0) ≤ sender.balance.toNat) :
    locked ≤ (refundSender tx ctx res.2 res.1).1.balance.toNat ∧
      (refundSender tx ctx res.2 res.1).1.balance.toNat < 2 ^ 127 := by
  have hpayer := payer_balance hcharge htransfer
  have hmoved := movedValue_le tx
  rcases hacted with ⟨htype, haccepted, hgas, hrefund, hbalance⟩ | ⟨hgained, hbound⟩
  case inl =>
    have hzero : tx.movedValue = 0 := by
      unfold Transaction.movedValue
      rw [htype]
      rfl
    have hstaked := toNat_sub_of_le haccepted.1
    have henough := BitVec.le_def.mp haccepted.1
    have hacceptedBefore : StakeAccepted P tx sender.balance st := by
      refine ⟨?_, haccepted.2⟩
      rw [le_def]
      omega
    have hcondition := hstake htype hacceptedBefore
    rw [← hbalance] at hstaked
    rw [hzero] at hpayer
    have hbounds := final_bounds tx ctx res.2 res.1 (by omega)
    refine ⟨?_, hbounds.2⟩
    cases hpays : tx.feePayer with
    | sender =>
      rw [hpays] at hpayer hcondition
      simp only [refundSender, hpays, hgas, hrefund]
      rw [toNat_refunded _ _ _ _ _ (by omega), toNat_stakeRefund, Nat.sub_mul, hstaked]
      have hmin : min 50000 tx.gasLimit.toNat * ctx.baseFee.toNat ≤
          tx.gasLimit.toNat * ctx.baseFee.toNat := Nat.mul_le_mul_right _ (Nat.min_le_right _ _)
      simp only [ofNat_eq_ofNat, toNat_zero] at hpayer hcondition
      omega
    | gasTank addr | paymaster addr =>
      rw [hpays] at hpayer hcondition
      simp only [refundSender, hpays]
      simp only [ofNat_eq_ofNat, toNat_zero] at hpayer
      omega
  case inr =>
    have hkept := BitVec.le_def.mp hgained
    have hbounds := final_bounds tx ctx res.2 res.1 (by omega)
    refine ⟨?_, hbounds.2⟩
    have hspent : locked ≤ payer.balance.toNat := by
      cases hpays : tx.feePayer with
      | sender =>
        have hvalid := hsender hpays
        simp only [hpays] at hpayer
        omega
      | gasTank addr =>
        have hvalid := htank addr hpays
        simp only [hpays] at hpayer
        omega
      | paymaster addr =>
        have hvalid := hsponsor addr hpays
        simp only [hpays] at hpayer
        omega
    omega

end Final

/-! ### Write-backs -/

section WriteBack

theorem storable_deltaApplied {cur initial : Account} (hcurrent : cur.authKeys.Storable)
    (hfinal : final.authKeys.Storable) : (cur.deltaApplied initial final).authKeys.Storable := by
  unfold Account.deltaApplied
  dsimp only
  split
  · exact hfinal
  · exact hcurrent

theorem le_applyDelta_add {gain : U128} (cur initial : U128) (hsmall : gain.toNat < 2 ^ 127) :
    cur ≤ applyDelta cur initial (initial + gain) := by
  have hdelta : initial + gain - initial = gain := by bv_omega
  have hsign : gain.msb = false := by
    rw [msb_eq_decide]
    exact decide_eq_false (by omega)
  unfold applyDelta
  rw [hdelta]
  dsimp only
  rw [hsign, if_neg (by decide)]
  exact le_satAdd _ _

variable {P : Prims} {owner : Address} {keys : Set StateKey} {holds : Account → Prop}
  {schedule : Option VestingSchedule} {st : StateMap}
  (hinj : HashApart P keys) (howner : .account owner .balance ∈ keys)
  (hvesting : .account owner .vesting ∈ keys)

theorem Tidy.recast {holds' : Account → Prop} (h : Tidy P owner keys holds schedule st)
    (hholds : holds' (acctAt P st owner)) : Tidy P owner keys holds' schedule st where
  held := hholds
  filed := h.filed
  schedule := h.schedule
  strangers := h.strangers

include hinj howner hvesting

theorem spares_applyAccountDelta (haddr : .account addr .balance ∈ keys) {initial : Account}
    (hstorable : final.authKeys.Storable)
    (hown : addr = owner → ∀ account, holds account → holds (account.deltaApplied initial final)) :
    Spares P owner keys holds schedule (fun _ => True) (applyAccountDelta addr initial final) st := by
  refine .given fun htidy => ?_
  refine .ask (writes_loadAccount _) ?_
  refine spares_storeAccount hinj howner hvesting ?_
    (storable_deltaApplied (storable_acctAt P st addr) hstorable)
  intro hnamed
  by_cases heq : addr = owner
  · subst heq
    exact hown rfl _ htidy.held
  · exact absurd hnamed (htidy.strangers addr haddr heq)

theorem spares_credit (haddr : .account addr .balance ∈ keys) {rcpt : Account} {gain : U128}
    (hstorable : rcpt.authKeys.Storable) (hsmall : gain.toNat < 2 ^ 127) (hgain : GainClosed holds) :
    Spares P owner keys holds schedule (fun _ => True)
      (applyAccountDelta addr rcpt { rcpt with balance := rcpt.balance + gain }) st := by
  refine spares_applyAccountDelta hinj howner hvesting haddr hstorable fun _ account hholds => ?_
  have happlied : account.deltaApplied rcpt { rcpt with balance := rcpt.balance + gain } =
      { account with balance := applyDelta account.balance rcpt.balance (rcpt.balance + gain) } := by
    simp [Account.deltaApplied]
  rw [happlied]
  exact hgain account _ hholds (le_applyDelta_add _ _ hsmall)

/-! ### A transaction after validation -/

variable {pvm : Pvm} {tx : Transaction} {ctx : BlockContext} {aot : Bool} {stateRoot : Hash256}
  {sender rcpt : Account}

omit hinj howner hvesting in
/-- The sender's record at the write-back has keys that can be stored. -/
theorem storable_final {payer : Account} (hpayer : payer.authKeys.Storable)
    (hregistered : tx.txType = .registerPubkey → (AuthKeys.single tx.data).Storable) (st : StateMap) :
    (refundSender tx ctx (runIn P (dispatch P pvm aot tx ctx payer) st).1.2
      (runIn P (dispatch P pvm aot tx ctx payer) st).1.1).1.authKeys.Storable := by
  rw [authKeys_refundSender]
  rcases (returns_keys_dispatch pvm aot payer).run stored (StateKey.hash P) st with
    hsame | ⟨htype, hkeys⟩
  · exact hsame ▸ hpayer
  · exact hkeys ▸ hregistered htype

omit hinj howner hvesting in
/-- The payer differs from the sender in balance and gas tank only. -/
theorem payer_rest {payer : Account}
    (htransfer : transferFor tx (sender.charged purse) rcpt = .ok (payer, payee)) :
    payer.authKeys = sender.authKeys ∧ payer.nonce = sender.nonce := by
  obtain ⟨-, hpayer, -⟩ := transferFor_ok htransfer
  rw [hpayer]
  exact ⟨rfl, rfl⟩

/-- The account's own write-back: from here on something else is known of its record. -/
theorem Tidy.writeBack (h : Tidy P owner keys (· = sender) schedule st) (hstorable : final.authKeys.Storable)
    (hfinal : holds (sender.deltaApplied sender final)) :
    Tidy P owner keys holds schedule (runIn P (applyAccountDelta owner sender final) st).2 := by
  have hrun := run_applyAccountDelta h.filed sender final
  have hkept : ((acctAt P st owner).deltaApplied sender final).authKeys.Storable :=
    storable_deltaApplied (storable_acctAt P st owner) hstorable
  have hnamed : ((acctAt P st owner).deltaApplied sender final).address = owner := h.filed
  have hinserted : Tidy P owner keys (fun _ => True) schedule
      (runIn P (applyAccountDelta owner sender final) st).2 := by
    have hany : Tidy P owner keys (fun _ => True) schedule st := h.recast trivial
    have hstored := hany.storeAccount hinj howner hvesting (hnamed.symm ▸ howner) (fun _ => trivial) hkept
    rw [hnamed] at hstored
    rw [hrun]
    exact hstored
  refine hinserted.recast ?_
  rw [hrun, acctAt_insert_self hkept, h.held]
  exact hfinal

variable (hvm : DeploysApart P owner pvm) (hgain : GainClosed holds) (hreach : InReach P owner keys tx)
  (hsmall : tx.movedValue.toNat < 2 ^ 127)
  (hderived : tx.txType = .deploy → deriveCreateAddress P tx.fromAddress sender.nonce ≠ owner)
  (hregistered : tx.txType = .registerPubkey → (AuthKeys.single tx.data).Storable)
  (hsender : sender.authKeys.Storable) (hrecipient : rcpt.authKeys.Storable)

include hvm hgain hreach hsmall hderived hregistered hsender hrecipient

theorem spares_perform (hother : tx.fromAddress ≠ owner) :
    Spares P owner keys holds schedule (fun _ => True)
      (perform P pvm aot tx ctx stateRoot sender rcpt) st := by
  have hback : ∀ {final : Account} (after : StateMap), final.authKeys.Storable →
      Spares P owner keys holds schedule (fun _ => True)
        (applyAccountDelta tx.fromAddress sender final) after := fun _ hstorable =>
    spares_applyAccountDelta hinj howner hvesting hreach.sender hstorable fun heq => absurd heq hother
  unfold perform
  split
  · rename_i reason hcharge
    have hreceipt : Spares P owner keys holds schedule (fun _ => True)
        (emitFailedExecutionReceipt P tx ctx stateRoot sender reason) st :=
      Upholds.bind (hback st hsender) fun _ _ _ => Upholds.pure trivial
    exact hreceipt.bind fun _ _ _ => Upholds.pure trivial
  split
  · exact .pure trivial
  rename_i payer payee htransfer
  obtain ⟨hkeys, hnonce⟩ := payer_rest htransfer
  obtain ⟨-, -, hpayee⟩ := transferFor_ok htransfer
  have hhandler : Spares P owner keys holds schedule
      (fun res => (refundSender tx ctx res.2 res.1).1.authKeys.Storable)
      (dispatch P pvm aot tx ctx payer) st := by
    refine Upholds.result ?_ (storable_final (hkeys ▸ hsender) hregistered st)
    exact spares_dispatch hinj howner hvesting hvm (fun _ => hgain) hreach (hnonce ▸ hderived) ctx aot
  have hsettled : Spares P owner keys holds schedule (fun _ => True)
      (runHandler P pvm aot tx ctx stateRoot sender rcpt payer payee) st := by
    rw [runHandler_eq]
    refine hhandler.bind fun res after hstorable => ?_
    refine .bind (hback after hstorable) fun _ later _ => ?_
    rw [hpayee]
    exact (spares_credit hinj howner hvesting hreach.recipient hrecipient hsmall hgain).bind
      fun _ _ _ => Upholds.pure trivial
  exact hsettled.bind fun _ _ _ => Upholds.pure trivial

/-- A transaction of the account itself: what is known of its record in the end is what is known of the
record that is written back. -/
theorem tidy_perform (hfrom : tx.fromAddress = owner) (h : Tidy P owner keys (· = sender) schedule st)
    (hwritten : ∀ key ∈ writtenKeys P (perform P pvm aot tx ctx stateRoot sender rcpt) st, key ∈ keys)
    (hrefused : holds sender) (huncharged : ∀ reason,
      preExecutionCharge tx sender.purse ctx.baseFee = .error reason →
      holds (sender.deltaApplied sender (sender.less (baselineCharge ctx sender))))
    (hcharged : ∀ charge purse payer payee, preExecutionCharge tx sender.purse ctx.baseFee = .ok (charge, purse) →
      transferFor tx (sender.charged purse) rcpt = .ok (payer, payee) → ∀ res, Acted P tx st payer res →
        holds (sender.deltaApplied sender (refundSender tx ctx res.2 res.1).1)) :
    Tidy P owner keys holds schedule (runIn P (perform P pvm aot tx ctx stateRoot sender rcpt) st).2 := by
  have hkeysOf : ∀ w ∈ writes stored (StateKey.hash P)
      (perform P pvm aot tx ctx stateRoot sender rcpt) st, w.1 ∈ keys :=
    fun w hw => hwritten w.1 (mem_map_of_mem hw)
  rcases perform_cases P pvm aot tx ctx stateRoot st sender rcpt with
    ⟨reason, hcharge, hrun⟩ |
    ⟨charge, purse, hcharge, ⟨reason, htransfer, hrun⟩ | ⟨payer, payee, htransfer, hrun⟩⟩
  · rw [hrun]
    dsimp only
    rw [run_emitFailedExecutionReceipt_snd, hfrom]
    exact h.writeBack hinj howner hvesting hsender (huncharged reason hcharge)
  · rw [hrun]
    exact h.recast (h.held.symm ▸ hrefused)
  have hperform : perform P pvm aot tx ctx stateRoot sender rcpt =
      runHandler P pvm aot tx ctx stateRoot sender rcpt payer payee >>=
        fun receipt => pure (.ok receipt) := by
    unfold perform
    simp only [Account.purse] at hcharge
    rw [hcharge]
    dsimp only
    unfold Account.charged at htransfer
    rw [htransfer]
  obtain ⟨hkeys, hnonce⟩ := payer_rest htransfer
  obtain ⟨-, -, hpayee⟩ := transferFor_ok htransfer
  rw [hperform, writes_bind, runHandler_eq, writes_bind, settle, writes_bind, writes_bind] at hkeysOf
  rw [hrun, runHandler_eq]
  simp only [run_bind]
  have hhandler := (spares_dispatch hinj howner hvesting hvm (fun hne => absurd hfrom hne) hreach
    (hnonce ▸ hderived) ctx aot h fun w hw => hkeysOf w (mem_append_left _ (mem_append_left _ hw))).1
  have hacted := acted_dispatch P tx ctx st payer pvm aot
  have hstorable : (refundSender tx ctx (runIn P (dispatch P pvm aot tx ctx payer) st).1.2
      (runIn P (dispatch P pvm aot tx ctx payer) st).1.1).1.authKeys.Storable :=
    storable_final (hkeys ▸ hsender) hregistered st
  have hown := hhandler.writeBack hinj howner hvesting hstorable
    (hcharged charge purse payer payee hcharge htransfer _ hacted)
  rw [hpayee] at hkeysOf ⊢
  refine (spares_credit hinj howner hvesting hreach.recipient hrecipient hsmall hgain
    (hfrom ▸ hown) fun w hw => hkeysOf w ?_).1
  exact mem_append_left _ (mem_append_right _ (mem_append_right _ (mem_append_left _ hw)))

end WriteBack

/-! ### One transaction -/

section Step

variable {P : Prims} {pvm : Pvm} {owner : Address} {keys : Set StateKey} {holds : Account → Prop}
  {schedule : Option VestingSchedule} {st : StateMap} {sub : Submission}
  (hinj : HashApart P keys) (howner : .account owner .balance ∈ keys)
  (hvesting : .account owner .vesting ∈ keys)

include hinj

variable {tx : Transaction}

/-- A key that is in play and is no nonce window is as it was when the handler starts. -/
theorem nonceRecorded_of_mem (hnonce : .account tx.fromAddress .nonce ∈ keys)
    (hkey : key ∈ keys) (hother : NotNonce key) : nonceRecorded P tx st (key.hash P) = st (key.hash P) :=
  nonceRecorded_of_ne fun heq => hother tx.fromAddress (hinj hkey hnonce heq)

theorem creditBound_nonceRecorded (hreach : InReach P owner keys tx) :
    creditBound P (nonceRecorded P tx st) = creditBound P st := by
  have hrewards : nonceRecorded P tx st ((StateKey.single .rewardsPerValidator).hash P) =
      st ((StateKey.single .rewardsPerValidator).hash P) :=
    nonceRecorded_of_mem hinj hreach.nonce hreach.rewards (fun _ => nofun)
  have hread : (runIn P readRewardsPerValidator (nonceRecorded P tx st)).1 =
      (runIn P readRewardsPerValidator st).1 := by
    simp only [readRewardsPerValidator, readGlobal, readInt, run_bind, run_read, run_pure]
    rw [hrewards]
  rw [creditBound, creditBound, acctAt_noted hinj hreach.nonce hreach.pool, hread]

theorem stakeAccepted_nonceRecorded (hreach : InReach P owner keys tx) {balance : U128} :
    StakeAccepted P tx balance (nonceRecorded P tx st) ↔ StakeAccepted P tx balance st := by
  have hentry : nonceRecorded P tx st (validatorKey P tx.fromAddress) = st (validatorKey P tx.fromAddress) :=
    nonceRecorded_of_mem hinj hreach.nonce hreach.validator (fun _ => nofun)
  unfold StakeAccepted
  rw [hentry]

include howner hvesting

theorem Tidy.nonceRecorded (hnonce : .account tx.fromAddress .nonce ∈ keys)
    (h : Tidy P owner keys holds schedule st) : Tidy P owner keys holds schedule (nonceRecorded P tx st) := by
  unfold Pyde.nonceRecorded
  split
  · exact h.elsewhere hinj howner hvesting hnonce ⟨fun _ heq => (nomatch heq), fun heq => (nomatch heq)⟩ _
  · exact h

omit hinj howner hvesting in
theorem gainClosed_keepsLock (before : StateMap) : GainClosed (KeepsLock P owner sub before) := by
  intro account balance hkept hle hlock
  exact BitVec.le_trans (hkept hlock) hle

omit hinj howner hvesting in
theorem storable_registered {sender : Account} {nonceState : NonceState}
    {ctx : ValidationContext} (h : validateTransaction P tx sender nonceState ctx = .ok ())
    (htype : tx.txType = .registerPubkey) : (AuthKeys.single tx.data).Storable := by
  have hlength : tx.data.length = 897 := by
    unfold validateTransaction at h
    rw [checks_ok, if_pos htype] at h
    unfold validateRegisterPubkey at h
    simp only [checks_ok, rejectIf_ok, Decidable.not_not] at h
    exact h.2.2.2.2.1
  refine ⟨?_, by rintro _ _ ⟨⟩⟩
  simp only [AuthKeys.toBytes, length_cons, AuthKeys.length_lengthPrefixed, hlength]
  decide

section Own

omit hinj howner hvesting

theorem keepsLock_delta {final : Account} (hsmall : (acctAt P st owner).balance.toNat < 2 ^ 127)
    (hfinal : final.balance.toNat < 2 ^ 127)
    (hlocked : (lockedAmount P st owner sub.ctx.height).toNat ≤ final.balance.toNat) :
    lockedAmount P st owner sub.ctx.height ≤
      ((acctAt P st owner).deltaApplied (acctAt P st owner) final).balance := by
  change _ ≤ applyDelta _ _ _
  rwa [applyDelta_self hsmall hfinal, le_def]

variable (hrespected : LockRespected P owner sub st) (hfrom : sub.tx.fromAddress = owner)
  (hvalid : validateTransaction P sub.tx (acctAt P st owner) (storedNonce P st owner)
    (validationContext sub.ctx (storedVesting P st owner)) = .ok ())

include hrespected hfrom hvalid

/-- The baseline fee behind a charge that failed leaves the lock alone. -/
theorem keepsLock_uncharged {reason : String}
    (hcharge : preExecutionCharge sub.tx (acctAt P st owner).purse sub.ctx.baseFee =
      .error reason) :
    KeepsLock P owner sub st ((acctAt P st owner).deltaApplied (acctAt P st owner)
      ((acctAt P st owner).less (baselineCharge sub.ctx (acctAt P st owner)))) := by
  intro hlock
  obtain ⟨hfits, hpays, htank⟩ := validateTransaction_lock hvalid hlock
  obtain ⟨addr, hpayer, hlow⟩ := tank_of_failed_charge hfits
    (fun hsender => (Nat.le_add_right _ _).trans (hpays hsender))
    (fun addr hpayer => (Nat.le_add_right _ _).trans (htank addr hpayer)) hcharge
  rcases (hrespected.own hfrom).tank addr hpayer with henough | hunlocked
  · exact absurd hlow (Nat.not_lt.mpr henough)
  have hcost : (minGasLimit.setWidth 128 * sub.ctx.baseFee).toNat ≤
      minGasLimit.toNat * sub.ctx.baseFee.toNat := by
    rw [toNat_mul, toNat_setWidth_of_le (by decide)]
    exact mod_le _ _
  have hbaseline := lesser_toNat (minGasLimit.setWidth 128 * sub.ctx.baseFee)
    (acctAt P st owner).balance
  rw [← baselineCharge] at hbaseline
  have hle : baselineCharge sub.ctx (acctAt P st owner) ≤ (acctAt P st owner).balance := by
    rw [le_def, hbaseline]
    exact Nat.min_le_right _ _
  have hleft : ((acctAt P st owner).less _).balance.toNat = _ := toNat_sub_of_le hle
  have hroom := hrespected.room
  exact keepsLock_delta (by omega) (by omega) (by omega)

/-- What is written back for a sender who was charged leaves the lock alone. -/
theorem keepsLock_charged {noted : StateMap} (hbound : creditBound P noted = creditBound P st)
    (haccepted : ∀ balance, StakeAccepted P sub.tx balance noted ↔ StakeAccepted P sub.tx balance st)
    {rcpt payer : Account}
    (hcharge : preExecutionCharge sub.tx (acctAt P st owner).purse sub.ctx.baseFee =
      .ok (charge, purse))
    (htransfer : transferFor sub.tx ((acctAt P st owner).charged purse) rcpt = .ok (payer, payee))
    (hacted : Acted P sub.tx noted payer res) :
    KeepsLock P owner sub st ((acctAt P st owner).deltaApplied (acctAt P st owner)
      (refundSender sub.tx sub.ctx res.2 res.1).1) := by
  intro hlock
  have hown := hrespected.own hfrom
  obtain ⟨-, hpays, htank⟩ := validateTransaction_lock hvalid hlock
  have hroom := hrespected.room
  have hsponsor : ∀ addr, sub.tx.feePayer = .paymaster addr →
      sub.tx.movedValue.toNat + (lockedAmount P st owner sub.ctx.height).toNat ≤
        (acctAt P st owner).balance.toNat := by
    intro addr hpayer
    rcases hown.sponsored addr hpayer with henough | hlow
    · exact henough
    have hbalance := payer_balance hcharge htransfer
    have hlt := BitVec.lt_def.mp hlow
    omega
  obtain ⟨hlocked, hfinal⟩ := locked_le_final hcharge htransfer hacted hpays htank hsponsor
    (hbound ▸ hroom) (fun htype hstake => hown.staking htype ((haccepted _).mp hstake))
  exact keepsLock_delta (by omega) hfinal hlocked

end Own

/-- A transaction of any sender leaves the account in order, and its lock intact. -/
theorem tidy_execute (hvm : DeploysApart P owner pvm) (hreach : InReach P owner keys sub.tx)
    (hwritten : ∀ key ∈ writtenKeys P (sub.program P pvm) st, key ∈ keys)
    (hrespected : LockRespected P owner sub st) (h : Tidy P owner keys (fun _ => True) schedule st) :
    Tidy P owner keys (KeepsLock P owner sub st) schedule
      (runIn P (sub.program P pvm) st).2 := by
  have hsame : KeepsLock P owner sub st (acctAt P st owner) := fun hlock => hlock
  rcases admission_cases P sub.tx sub.ctx st with ⟨e, hadmission, -⟩ | ⟨used, hvalid, huse, hadmission⟩
  · rw [Submission.program, run_executeTransaction_of_refused hadmission]
    exact h.recast hsame
  rw [nonceRecorded_of_ok huse] at hadmission
  obtain ⟨hrun, hsub⟩ := run_of_admitted pvm hadmission
  have hstart : Tidy P owner keys (· = acctAt P st owner) schedule
      (nonceRecorded P sub.tx st) :=
    (h.nonceRecorded hinj howner hvesting hreach.nonce).recast (acctAt_noted hinj hreach.nonce howner)
  rw [hrun]
  by_cases hfrom : sub.tx.fromAddress = owner
  · rw [hfrom] at hvalid hsub ⊢
    refine tidy_perform hinj howner hvesting hvm (gainClosed_keepsLock st) hreach hrespected.small
      (hfrom ▸ hrespected.derived) (storable_registered hvalid) (storable_acctAt P st _)
      (storable_acctAt P st _) hfrom hstart (fun key hkey => hwritten key (hsub key hkey)) hsame
      (fun reason hcharge => keepsLock_uncharged hrespected hfrom hvalid hcharge) ?_
    intro charge purse payer payee hcharge htransfer res hacted
    exact keepsLock_charged hrespected hfrom hvalid (creditBound_nonceRecorded hinj hreach)
      (fun _ => stakeAccepted_nonceRecorded hinj hreach) hcharge htransfer hacted
  refine (spares_perform hinj howner hvesting hvm (gainClosed_keepsLock st) hreach hrespected.small
    hrespected.derived (storable_registered hvalid) (storable_acctAt P st _)
    (storable_acctAt P st _) hfrom (hstart.recast ?_) fun w hw =>
      hwritten w.1 (hsub w.1 (mem_map_of_mem hw))).1
  rw [hstart.held]
  exact hsame

end Step

/-! ### Any sequence of transactions -/

section Run

variable (P : Prims) (pvm : Pvm) (owner : Address)

/-- The keys that are written on the way, and those of the account, of the protocol's own accounts and of
all accounts in the sequence. -/
def lockKeysInPlay (subs : List Submission) (st : StateMap) : Set StateKey :=
  {key | key ∈ keysInPlay P pvm subs st ∨
    key ∈ [StateKey.account owner .balance, .account owner .vesting, .account (airdropPoolAddress P) .balance,
      .account (treasuryAddress P) .balance, .single .rewardsPerValidator] ∨
    ∃ sub ∈ subs, key = .account sub.tx.fromAddress .balance ∨
      key = .account sub.tx.fromAddress .validator ∨ key = .account sub.tx.toAddress .balance ∨
      ∃ spend sigs, MultisigPayload.decode sub.tx.data = some (.spend spend sigs) ∧
        key = .account spend.target .balance}

/-- What a sequence does to the lock. -/
structure LocksHonoured (subs : List Submission) (st : StateMap) : Prop where
  each : ∀ step ∈ chainSteps P pvm subs st,
    lockedAmount P step.before owner step.submission.ctx.height ≤ (acctAt P step.before owner).balance →
      lockedAmount P step.before owner step.submission.ctx.height ≤ (acctAt P (step.run P pvm).2 owner).balance
  whole : ∀ slot, (subs.map fun sub => sub.ctx.height).Pairwise (· ≤ ·) →
    (∀ sub ∈ subs, slot ≤ sub.ctx.height) →
    lockedAmount P st owner slot ≤ (acctAt P st owner).balance →
      ∀ step ∈ chainSteps P pvm subs st,
        lockedAmount P st owner step.submission.ctx.height ≤ (acctAt P (step.run P pvm).2 owner).balance

variable {P pvm owner} {keys : Set StateKey} {schedule : Option VestingSchedule}

theorem lockedAmount_antitone (st : StateMap) (h : slot ≤ slot') :
    lockedAmount P st owner slot' ≤ lockedAmount P st owner slot := by
  unfold lockedAmount
  cases storedVesting P st owner with
  | none => exact BitVec.le_refl _
  | some schedule => exact BitVec.le_def.mpr (schedule.lockedAt_antitone h)

theorem lockedAmount_congr {st st' : StateMap} (h : storedVesting P st owner = storedVesting P st' owner)
    (slot : U64) : lockedAmount P st owner slot = lockedAmount P st' owner slot := by
  rw [lockedAmount, lockedAmount, h]

theorem locksHonoured_of_tidy (hinj : HashApart P keys)
    (howner : .account owner .balance ∈ keys) (hvesting : .account owner .vesting ∈ keys)
    (hvm : DeploysApart P owner pvm) {subs : List Submission} {st : StateMap}
    (hkeys : keysInPlay P pvm subs st ⊆ keys)
    (hreach : ∀ sub ∈ subs, InReach P owner keys sub.tx)
    (hrespected : ∀ step ∈ chainSteps P pvm subs st, LockRespected P owner step.submission step.before)
    (htidy : Tidy P owner keys (fun _ => True) schedule st) : LocksHonoured P pvm owner subs st := by
  induction subs generalizing st with
  | nil =>
    constructor
    case each => exact forall_mem_nil _
    case whole => exact fun _ _ _ _ _ hstep => absurd hstep not_mem_nil
  | cons sub rest ih =>
    obtain ⟨hwritten, -, hrest⟩ := keysInPlay_step hkeys
    obtain ⟨hreachHead, hreachRest⟩ := List.forall_mem_cons.mp hreach
    rw [chainSteps, forall_mem_cons] at hrespected
    have hstep := tidy_execute hinj howner hvesting hvm hreachHead hwritten hrespected.1 htidy
    have htail := ih hrest hreachRest hrespected.2 (hstep.recast trivial)
    have hsame : storedVesting P (runIn P (sub.program P pvm) st).2 owner =
        storedVesting P st owner := hstep.schedule.trans htidy.schedule.symm
    constructor
    case each =>
      rw [chainSteps, forall_mem_cons]
      exact ⟨hstep.held, htail.each⟩
    case whole =>
      intro slot hsorted hslot hlock
      rw [map_cons, pairwise_cons] at hsorted
      obtain ⟨hslotHead, hslotRest⟩ := List.forall_mem_cons.mp hslot
      have hkept := hstep.held (BitVec.le_trans (lockedAmount_antitone st hslotHead) hlock)
      rw [chainSteps, forall_mem_cons]
      refine ⟨hkept, fun step hmem => ?_⟩
      -- the rest starts at the slot of the first transaction
      rw [← lockedAmount_congr hsame]
      refine htail.whole sub.ctx.height hsorted.2 ?_ ?_ step hmem
      · exact fun later hlater => hsorted.1 _ (mem_map_of_mem hlater)
      · rw [lockedAmount_congr hsame]
        exact hkept

end Run

/-- Over any sequence of transactions the locked part of an account's balance stays, as long as every transaction
respects the lock. Poseidon2 is taken not to collide on the state keys in play. -/
theorem vesting_locks_kept (P : Prims) (pvm : Pvm) (owner : Address) (subs : List Submission)
    (st : StateMap) (hfree : P.CollisionFreeOn (StateKey.preimage '' lockKeysInPlay P pvm owner subs st))
    (hvm : DeploysApart P owner pvm) (hpool : airdropPoolAddress P ≠ owner) (htreasury : treasuryAddress P ≠ owner)
    (hfiled : ∀ addr, StateKey.account addr .balance ∈ lockKeysInPlay P pvm owner subs st →
      Filed P st addr)
    (hrespected : ∀ step ∈ chainSteps P pvm subs st, LockRespected P owner step.submission step.before) :
    LocksHonoured P pvm owner subs st := by
  have hinj := StateKey.injOn_hash hfree
  have hfixed : ∀ key ∈ [StateKey.account owner .balance, .account owner .vesting,
      .account (airdropPoolAddress P) .balance, .account (treasuryAddress P) .balance,
      .single .rewardsPerValidator], key ∈ lockKeysInPlay P pvm owner subs st :=
    fun key hkey => Or.inr (.inl hkey)
  have howner := hfixed (.account owner .balance) (by simp)
  refine locksHonoured_of_tidy hinj howner (hfixed _ (by simp)) hvm (fun key hkey => Or.inl hkey) ?_ hrespected
    { held := trivial, filed := hfiled owner howner, schedule := rfl, strangers := ?_ }
  · intro sub hmem
    exact
      { nonce := Or.inl (.inr ⟨sub, hmem, rfl⟩)
        sender := Or.inr (.inr ⟨sub, hmem, .inl rfl⟩)
        validator := Or.inr (.inr ⟨sub, hmem, .inr (.inl rfl)⟩)
        recipient := Or.inr (.inr ⟨sub, hmem, .inr (.inr (.inl rfl))⟩)
        target := fun spend sigs hdecode =>
          Or.inr (.inr ⟨sub, hmem, .inr (.inr (.inr ⟨spend, sigs, hdecode, rfl⟩))⟩)
        pool := hfixed _ (by simp)
        treasury := hfixed _ (by simp)
        rewards := hfixed _ (by simp)
        notPool := hpool
        notTreasury := htreasury }
  · intro addr haddr hne
    rw [hfiled addr haddr]
    exact hne

/-! ### Runs -/

def granted : Address := deriveEoaAddress lucid (lucidKey 7)

/-- An account with this balance and gas tank, of which `locked` is locked until the hundredth slot. -/
def grantedState (balance gasTank locked : U128) : StateMap :=
  StateProgram.insert stored
    (StateProgram.insert stored (fun _ => none) (balanceKey lucid granted)
      { Account.empty granted with balance, gasTank, authKeys := .single (lucidKey 7) }.toBytes)
    (vestingKey lucid granted)
    { startSlot := 0, cliffSlots := 100, durationSlots := 100, totalAmount := locked : VestingSchedule }.encode

/-- A transaction of that account in the first slot; its signature was checked with the block. -/
def grantedSubmission (chainId : U64) (txType : TransactionType) (toAddress : Address) (value : U128) (data : Bytes)
    (gasLimit : U64) (feePayer : FeePayer) : Submission :=
  { tx :=
      { fromAddress := granted, toAddress, value, data, gasLimit, nonce := 0, signature := [], feePayer,
        accessList := [], deadline := none, chainId, txType }
    ctx :=
      { height := 1, timestamp := 0, baseFee := 1, blockGasLimit := gasTarget, chainId, devSkipSignature := false,
        blockSigsPreVerified := true }
    native := false
    stateRoot := zero32 }

/-- A transfer of a thousand quanta. -/
def grantedTransfer : Submission := grantedSubmission 1 .standard (fill32 2) 1000 [] 21000 .sender

def grantedKeys : List StateKey :=
  [.account granted .nonce, .account granted .balance, .account granted .vesting, .account granted .validator,
    .account (fill32 2) .balance, .account (airdropPoolAddress lucid) .balance,
    .account (treasuryAddress lucid) .balance, .single .rewardsPerValidator]

theorem grantedTransfer_keys : ∀ key ∈ lockKeysInPlay lucid idlePvm granted [grantedTransfer]
    (grantedState 1000000 0 900000), key ∈ grantedKeys := by
  rintro key ((hkey | ⟨sub, hsub, rfl⟩) | hfixed |
    ⟨sub, hsub, rfl | rfl | rfl | ⟨spend, sigs, hspend, -⟩⟩)
  · revert key
    decide +kernel
  · rw [List.mem_singleton.mp hsub]
    exact mem_cons_self
  · revert key
    decide +kernel
  · rw [List.mem_singleton.mp hsub]
    decide +kernel
  · rw [List.mem_singleton.mp hsub]
    decide +kernel
  · rw [List.mem_singleton.mp hsub]
    decide +kernel
  · rw [List.mem_singleton.mp hsub] at hspend
    cases hspend

/-- A transfer of what is not locked keeps the lock. -/
theorem transfer_keeps_lock :
    executed (ChainStep.run lucid idlePvm
        { submission := grantedTransfer, before := grantedState 1000000 0 900000 }).1 = true ∧
      LocksHonoured lucid idlePvm granted [grantedTransfer] (grantedState 1000000 0 900000) := by
  refine ⟨by decide +kernel, vesting_locks_kept lucid idlePvm granted [grantedTransfer]
    (grantedState 1000000 0 900000) (collisionFreeOn_of_listed grantedKeys (by decide +kernel) grantedTransfer_keys) ?_
    (by decide +kernel) (by decide +kernel) ?_ ?_⟩
  · rintro _ _ _ _ _ ⟨⟩
  · intro addr haddr
    have hkey := grantedTransfer_keys _ haddr
    simp only [grantedKeys, mem_cons, StateKey.account.injEq, reduceCtorEq, and_true, and_false, false_or, or_false,
      not_mem_nil] at hkey
    rcases hkey with rfl | rfl | rfl | rfl <;> decide +kernel
  · exact forall_mem_singleton.mpr
      { own := fun _ =>
          { staking := by rintro ⟨⟩
            tank := by rintro _ ⟨⟩
            sponsored := by rintro _ ⟨⟩ }
        room := by decide +kernel
        small := by decide +kernel
        derived := by rintro ⟨⟩ }

/-- The transaction is executed, and the account goes from at least the lock to below it. -/
def LockBroken (sub : Submission) (before : StateMap) : Prop :=
  executed (ChainStep.run lucid idlePvm { submission := sub, before }).1 = true ∧
    lockedAmount lucid before granted sub.ctx.height ≤ (acctAt lucid before granted).balance ∧
    (acctAt lucid (ChainStep.run lucid idlePvm { submission := sub, before }).2 granted).balance <
      lockedAmount lucid before granted sub.ctx.height

instance (sub : Submission) (before : StateMap) : Decidable (LockBroken sub before) :=
  inferInstanceAs (Decidable (_ ∧ _ ∧ _))

/-- Ten thousand locked coins are staked, all of them. On the development chain, locked quanta are sent by a
transaction that names a paymaster, and pay for gas behind an empty gas tank. -/
theorem locked_funds_leave :
    LockBroken (grantedSubmission 1 .stakeDeposit zeroAddress 0 (lucidKey 7) 50000 .sender)
        (grantedState 10000000050000 0 10000000000000) ∧
      LockBroken (grantedSubmission 31337 .standard (fill32 2) 1000 [] 21000 (.paymaster (fill32 3)))
        (grantedState 1000 0 1000) ∧
      LockBroken (grantedSubmission 31337 .standard (fill32 2) 0 [] 30000 (.gasTank granted))
        (grantedState 30000 0 30000) := by
  decide +kernel

end Pyde
