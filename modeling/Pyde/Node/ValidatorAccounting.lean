/-
Module: Pyde.Node.ValidatorAccounting
Purpose: Stakes, rewards and slashes against the rewards that the block processor hands out.
Trusted boundary: Prims, Pvm
-/
import Pyde.Node.BlockProcessor
import Pyde.Tx.ValidatorPool

namespace Pyde

open ByteCodec StateProgram RewardPool List

/-! ### The settlement of a block -/

/-- A record, or one of the counters for supply and burned fees. -/
def IsSettlement (key : StateKey) : Prop := IsRecord key ∨ key = .single .supply ∨ key = .single .totalBurned

theorem not_isSettlement {vals : Finset Address} {key : StateKey} (h : key ∈ poolKeys vals) :
    ¬ IsSettlement key := by
  rcases h with rfl | rfl | ⟨addr, -, rfl⟩ <;> rintro (⟨other, heq | heq⟩ | heq | heq) <;> cases heq

theorem settlement_creditFees (addr : Address) (amt : U128) : (creditFees addr amt).Writes IsSettlement := by
  unfold creditFees
  split
  · exact (writes_loadAccount addr).bind fun account => Prog.writes_write.mpr (.inl (isRecord_balance _))
  · exact Prog.writes_pure _

theorem settlement_applyBlockFees (P : Prims) (proposer : Address) (receipts : List Receipt) :
    (applyBlockFees P proposer receipts).Writes IsSettlement :=
  (settlement_creditFees _ _).bind fun _ => settlement_creditFees _ _

theorem settlement_whenPositive {amt : U128} {program : StateProg Unit} (h : program.Writes IsSettlement) :
    (whenPositive amt program).Writes IsSettlement := by
  unfold whenPositive
  split
  · exact h
  · exact Prog.writes_pure _

theorem settlement_creditServiceShare (proposer : Address) (share : U128) :
    (creditServiceShare proposer share).Writes IsSettlement := by
  refine (Prog.writes_read _).bind fun bytes => ?_
  split
  · exact Prog.writes_pure _
  · exact Prog.writes_write.mpr (.inl (isRecord_balance proposer))

theorem settlement_recordBurn (receipts : List Receipt) : (recordBurn receipts).Writes IsSettlement :=
  settlement_whenPositive ((writes_readGlobal _ _ _).bind fun _ => Prog.writes_write.mpr (.inr (.inr rfl)))

section

variable {P : Prims} {keys : Set StateKey} {vals : Finset Address} {st : StateMap}

/-- A program that writes records and counters hands out nothing. -/
theorem accrues_of_settlement {α : Type} {program : StateProg α} (hprogram : program.Writes IsSettlement)
    (hinj : HashApart P keys) (hpool : poolKeys vals ⊆ keys)
    (hwritten : ∀ key ∈ writtenKeys P program st, key ∈ keys) :
    Accrues (validatorPool P vals st) (validatorPool P vals (runIn P program st).2) 0 := by
  have hkept : validatorPool P vals (runIn P program st).2 = validatorPool P vals st := by
    refine poolIn_congr fun key hkey => run_frame stored (StateKey.hash P) fun w hw heq => ?_
    have hsame := hinj (hwritten w.1 (mem_map_of_mem hw)) (hpool hkey) heq
    exact not_isSettlement hkey (hsame ▸ hprogram.mem stored (StateKey.hash P) st w hw)
  rw [hkept]
  exact .refl _

section

variable (hinj : HashApart P keys) (hpool : poolKeys vals ⊆ keys)
include hinj hpool

theorem accrues_write {increment : U128} {offered : Nat}
    (hoffered : increment.toNat * (validatorPool P vals st).count ≤ offered) :
    Accrues (validatorPool P vals st) (validatorPool P vals (StateProgram.insert stored st
      ((StateKey.single .rewardsPerValidator).hash P)
      (toLe (satAdd (globalIn 128 (underKeys P st) .rewardsPerValidator) increment)))) offered := by
  set cur := globalIn 128 (underKeys P st) .rewardsPerValidator with hcurrent
  set st' := StateProgram.insert stored st ((StateKey.single .rewardsPerValidator).hash P)
    (toLe (satAdd cur increment)) with hstate
  have hkey : .single .rewardsPerValidator ∈ keys := hpool (.inl rfl)
  have hother : ∀ key ∈ poolKeys vals, key ≠ .single .rewardsPerValidator →
      underKeys P st' key = underKeys P st key := fun key hin hne =>
    insert_record_of_ne (fun heq => hne (hinj (hpool hin) hkey heq)) _ _
  have hentry : ∀ addr ∈ vals, entryIn (underKeys P st') addr = entryIn (underKeys P st) addr :=
    fun addr hin => entryIn_congr (hother _ (.inr (.inr ⟨addr, hin, rfl⟩)) (by rintro ⟨⟩))
  have hgrown : globalIn 128 (underKeys P st') .rewardsPerValidator = satAdd cur increment := by
    have hself : underKeys P st' (.single .rewardsPerValidator) =
        StateProgram.insert stored (underKeys P st) (.single .rewardsPerValidator)
          (toLe (satAdd cur increment)) (.single .rewardsPerValidator) := by
      rw [StateProgram.insert, Function.update_self]
      exact Function.update_self _ _ _
    rw [globalIn_congr hself]
    exact globalIn_insert_self (by decide) (by decide) _ _
  have hle : cur ≤ satAdd cur increment := le_satAdd _ _
  have hgain : (satAdd cur increment).toNat - cur.toNat ≤ increment.toNat := by
    unfold satAdd
    split
    next h =>
      rw [BitVec.toNat_add, Nat.mod_eq_of_lt h]
      omega
    next h =>
      rw [BitVec.toNat_allOnes]
      omega
  refine
    { accrued := ?_
      count := ?_
      members := ?_
      mark := ?_
      within := ?_ }
  · exact (BitVec.le_def.mp hle).trans (congrArg BitVec.toNat hgrown).ge
  · exact congrArg BitVec.toNat (globalIn_congr (hother _ (.inr (.inl rfl)) (by rintro ⟨⟩)))
  · apply Finset.filter_congr
    intro addr hin
    unfold activeIn
    rw [hentry addr hin]
  · funext addr
    unfold validatorPool poolIn markIn
    dsimp only
    split
    next hin => rw [hentry addr hin]
    next => rfl
  · refine le_trans (Nat.mul_le_mul_right _ ?_) hoffered
    exact (congrArg (· - cur.toNat) (congrArg BitVec.toNat hgrown)).le.trans hgain

/-- An equal share for every active validator hands out no more than the amount. -/
theorem accrues_perValidator (amt : U128) :
    Accrues (validatorPool P vals st)
      (validatorPool P vals (runIn P (accruePerValidator amt) st).2) amt.toNat := by
  have hnone : Accrues (validatorPool P vals st) (validatorPool P vals st) amt.toNat :=
    (Accrues.refl _).mono (Nat.zero_le _)
  have hcount : runIn P (accruePerValidator amt) st =
      runIn P (if 0 < globalIn 64 (underKeys P st) .activeValidatorCount then
        whenPositive (amt / (globalIn 64 (underKeys P st) .activeValidatorCount).setWidth 128) (do
          let cur ← readRewardsPerValidator
          writeRewardsPerValidator
            (satAdd cur (amt / (globalIn 64 (underKeys P st) .activeValidatorCount).setWidth 128)))
        else pure ()) st := rfl
  rw [hcount]
  split
  next hpositive =>
    unfold whenPositive
    split
    next hincrement =>
      have hshare : (amt / (globalIn 64 (underKeys P st) .activeValidatorCount).setWidth 128).toNat *
          (validatorPool P vals st).count ≤ amt.toNat := by
        have hwidth : ((globalIn 64 (underKeys P st) .activeValidatorCount).setWidth 128).toNat =
            (validatorPool P vals st).count := by
          rw [BitVec.toNat_setWidth]
          apply Nat.mod_eq_of_lt
          exact lt_trans (globalIn 64 (underKeys P st) .activeValidatorCount).isLt (by decide)
        rw [BitVec.toNat_udiv, hwidth]
        exact Nat.div_mul_le_self _ _
      exact accrues_write hinj hpool hshare
    next => exact hnone
  next => exact hnone

theorem accrues_whenPositive (amt : U128) :
    Accrues (validatorPool P vals st)
      (validatorPool P vals (runIn P (whenPositive amt (accruePerValidator amt)) st).2)
      amt.toNat := by
  unfold whenPositive
  split
  next => exact accrues_perValidator hinj hpool amt
  next => exact (Accrues.refl _).mono (Nat.zero_le _)

end

/-- What the block reward offers to the active validators. -/
def mintOffer (slot : U64) (proposer : Address) : U128 :=
  if 0 < blockReward slot ∧ proposer ≠ zero32 then
    blockReward slot - blockReward slot * serviceSharePct / 100
  else 0

/-- What the bootstrap subsidy offers to the active validators. -/
def subsidyOffer (P : Prims) (slot : U64) (st : StateMap) : U128 :=
  match (runIn P readValidatorSubsidy st).1 with
  | some schedule => if slot < schedule.endSlot ∧ 0 < schedule.perBlock then schedule.perBlock else 0
  | none => 0

theorem accrues_bind {α β : Type} {program : StateProg α} {next : α → StateProg β} {offered offered' : Nat}
    (hwritten : ∀ key ∈ writtenKeys P (program >>= next) st, key ∈ keys)
    (h : (∀ key ∈ writtenKeys P program st, key ∈ keys) →
      Accrues (validatorPool P vals st) (validatorPool P vals (runIn P program st).2) offered)
    (h' : ∀ a st', (∀ key ∈ writtenKeys P (next a) st', key ∈ keys) →
      Accrues (validatorPool P vals st') (validatorPool P vals (runIn P (next a) st').2) offered') :
    Accrues (validatorPool P vals st)
      (validatorPool P vals (runIn P (program >>= next) st).2) (offered + offered') := by
  rw [writtenKeys_bind] at hwritten
  simp only [run_bind]
  exact (h fun key hkey => hwritten key (mem_append_left _ hkey)).trans
    (h' _ _ fun key hkey => hwritten key (mem_append_right _ hkey))

section

variable (hinj : HashApart P keys) (hpool : poolKeys vals ⊆ keys) (slot : U64)
include hinj hpool

theorem accrues_mintReward (proposer : Address)
    (hwritten : ∀ key ∈ writtenKeys P (mintReward slot proposer) st, key ∈ keys) :
    Accrues (validatorPool P vals st)
      (validatorPool P vals (runIn P (mintReward slot proposer) st).2) (mintOffer slot proposer).toNat := by
  unfold mintReward at hwritten ⊢
  unfold mintOffer
  dsimp only at hwritten ⊢
  split at hwritten
  next h =>
    rw [if_pos h, if_pos h, ← Nat.zero_add (BitVec.toNat _)]
    refine accrues_bind hwritten
      (accrues_of_settlement (settlement_whenPositive (settlement_creditServiceShare _ _)) hinj hpool)
      fun _ st' hwritten' => ?_
    rw [← Nat.add_zero (BitVec.toNat _)]
    refine accrues_bind hwritten' (fun _ => accrues_whenPositive hinj hpool _) fun _ state'' hwritten'' => ?_
    exact accrues_of_settlement ((writes_readGlobal _ _ _).bind fun _ => Prog.writes_write.mpr (.inr (.inl rfl)))
      hinj hpool hwritten''
  next h =>
    rw [if_neg h, if_neg h]
    exact .refl _

theorem accrues_paySubsidy :
    Accrues (validatorPool P vals st)
      (validatorPool P vals (runIn P (paySubsidy slot) st).2) (subsidyOffer P slot st).toNat := by
  have hrun : runIn P (paySubsidy slot) st = runIn P (match (runIn P readValidatorSubsidy st).1 with
        | some schedule =>
          if slot < schedule.endSlot ∧ 0 < schedule.perBlock then accruePerValidator schedule.perBlock else pure ()
        | none => pure ()) st := rfl
  unfold subsidyOffer
  rw [hrun]
  cases (runIn P readValidatorSubsidy st).1 with
  | none => exact .refl _
  | some schedule =>
    dsimp only
    split
    next => exact accrues_perValidator hinj hpool _
    next => exact .refl _

end

end

/-! ### Sequences -/

/-- A transaction, or the settlement at the end of a block. -/
inductive ValidatorEvent where
  | transaction (sub : Submission)
  | settlement (slot : U64) (proposer : Address) (receipts : List Receipt)

section

variable (P : Prims) (pvm : Pvm) (vals : Finset Address)

namespace ValidatorEvent

def after (event : ValidatorEvent) (st : StateMap) : StateMap :=
  match event with
  | transaction sub => (runIn P (sub.program P pvm) st).2
  | settlement slot proposer receipts => (runIn P (settleBlock P slot proposer receipts) st).2

def paid (event : ValidatorEvent) (st : StateMap) : Nat :=
  match event with
  | transaction sub => claimedReward P pvm sub st
  | settlement _ _ _ => 0

/-- What is handed out: the growth of the accumulator, for each active validator by the stored counter. -/
def distributed (event : ValidatorEvent) (st : StateMap) : Nat :=
  match event with
  | transaction _ => 0
  | settlement _ _ _ =>
    ((globalIn 128 (underKeys P (event.after P pvm st)) .rewardsPerValidator).toNat -
      (globalIn 128 (underKeys P st) .rewardsPerValidator).toNat) *
      (globalIn 64 (underKeys P st) .activeValidatorCount).toNat

/-- The pool share of the mint and the subsidy of the block. -/
def offered (event : ValidatorEvent) (st : StateMap) : Nat :=
  match event with
  | transaction _ => 0
  | settlement slot proposer receipts =>
    (mintOffer slot proposer).toNat +
      (subsidyOffer P slot (runIn P (do applyBlockFees P proposer receipts; mintReward slot proposer) st).2).toNat

def keys (event : ValidatorEvent) (st : StateMap) : List StateKey :=
  match event with
  | transaction sub =>
    .account sub.tx.fromAddress .nonce :: writtenKeys P (sub.program P pvm) st
  | settlement slot proposer receipts => writtenKeys P (settleBlock P slot proposer receipts) st

/-- A stake deposit, a claim or a slash about these validators, or a settlement. -/
def Concerns (event : ValidatorEvent) : Prop :=
  match event with
  | transaction sub => sub.tx.txType.isValidatorAction = true ∧ Pyde.Concerns vals sub
  | settlement _ _ _ => True

/-- The condition on a transaction in the state that it finds. -/
def Sound (event : ValidatorEvent) (st : StateMap) : Prop :=
  match event with
  | transaction sub => SoundAction P sub st
  | settlement _ _ _ => True

end ValidatorEvent

/-- The events with the states that they find. -/
def eventSteps : List ValidatorEvent → StateMap → List (ValidatorEvent × StateMap)
  | [], _ => []
  | event :: rest, st => (event, st) :: eventSteps rest (event.after P pvm st)

def runAccounting (events : List ValidatorEvent) (st : StateMap) : StateMap :=
  events.foldl (fun st event => event.after P pvm st) st

/-- A quantity summed over a sequence. -/
def totalOver (amt : ValidatorEvent → StateMap → Nat) (events : List ValidatorEvent) (st : StateMap) : Nat :=
  ((eventSteps P pvm events st).map fun step => amt step.1 step.2).sum

def accountingKeys (events : List ValidatorEvent) (st : StateMap) : Set StateKey :=
  {key | key ∈ poolKeys vals ∨ ∃ step ∈ eventSteps P pvm events st, key ∈ step.1.keys P pvm step.2}

def activeValidators (st : StateMap) : Finset Address :=
  vals.filter fun addr => activeIn (underKeys P st) addr = true

/-- What the active ones may still claim. -/
def owedToActive (st : StateMap) : Nat :=
  ∑ addr ∈ activeValidators P vals st,
    ((runIn P readRewardsPerValidator st).1.toNat - markIn (underKeys P st) addr)

/-- What a sequence of events keeps. -/
structure AccountsKept (events : List ValidatorEvent) (st : StateMap) : Prop where
  counted : (runIn P readActiveValidatorCount (runAccounting P pvm events st)).1.toNat =
    (activeValidators P vals (runAccounting P pvm events st)).card
  covered : totalOver P pvm (fun event => event.paid P pvm) events st +
      owedToActive P vals (runAccounting P pvm events st) ≤
    totalOver P pvm (fun event => event.distributed P pvm) events st + owedToActive P vals st
  shares : totalOver P pvm (fun event => event.distributed P pvm) events st ≤
    totalOver P pvm (fun event => event.offered P) events st

end

section

variable {P : Prims} {pvm : Pvm} {vals : Finset Address} {keys : Set StateKey}

section

variable (hinj : HashApart P keys) (hpool : poolKeys vals ⊆ keys)
include hinj hpool

/-- The settlement of a block hands out at most the pool share of the mint and the subsidy. -/
theorem settlement_accrues {slot : U64} {proposer : Address} {receipts : List Receipt} {st : StateMap}
    (hwritten : ∀ key ∈ writtenKeys P (settleBlock P slot proposer receipts) st, key ∈ keys) :
    Accrues (validatorPool P vals st)
      (validatorPool P vals (runIn P (settleBlock P slot proposer receipts) st).2)
      ((ValidatorEvent.settlement slot proposer receipts).offered P st) := by
  set paid := (runIn P (applyBlockFees P proposer receipts) st).2 with hpaid
  set minted := (runIn P (mintReward slot proposer) paid).2 with hminted
  set subsidised := (runIn P (paySubsidy slot) minted).2 with hsubsidised
  have hkeys : (∀ key ∈ writtenKeys P (applyBlockFees P proposer receipts) st, key ∈ keys) ∧
      (∀ key ∈ writtenKeys P (mintReward slot proposer) paid, key ∈ keys) ∧
      ∀ key ∈ writtenKeys P (recordBurn receipts) subsidised, key ∈ keys := by
    unfold settleBlock at hwritten
    rw [writtenKeys_bind, writtenKeys_bind, writtenKeys_bind] at hwritten
    refine ⟨fun key hkey => hwritten key ?_, fun key hkey => hwritten key ?_, fun key hkey => hwritten key ?_⟩
    · exact mem_append_left _ hkey
    · exact mem_append_right _ (mem_append_left _ hkey)
    · exact mem_append_right _ (mem_append_right _ (mem_append_right _ hkey))
  have hfees : Accrues (validatorPool P vals st) (validatorPool P vals paid) 0 :=
    accrues_of_settlement (settlement_applyBlockFees P proposer receipts) hinj hpool hkeys.1
  have hmint : Accrues (validatorPool P vals paid) (validatorPool P vals minted)
      (mintOffer slot proposer).toNat := accrues_mintReward hinj hpool slot proposer hkeys.2.1
  have hsubsidy : Accrues (validatorPool P vals minted) (validatorPool P vals subsidised)
      (subsidyOffer P slot minted).toNat := accrues_paySubsidy hinj hpool slot
  have hburn : Accrues (validatorPool P vals subsidised)
      (validatorPool P vals (runIn P (recordBurn receipts) subsidised).2) 0 :=
    accrues_of_settlement (settlement_recordBurn receipts) hinj hpool hkeys.2.2
  have hall := hfees.trans (hmint.trans (hsubsidy.trans hburn))
  rw [Nat.zero_add, Nat.add_zero] at hall
  unfold settleBlock ValidatorEvent.offered
  simp only [run_bind]
  exact hall

theorem event_step {event : ValidatorEvent} {st : StateMap} (hconcerns : event.Concerns vals)
    (hsound : event.Sound P st) (hkeys : ∀ key ∈ event.keys P pvm st, key ∈ keys) :
    Step (validatorPool P vals st) (event.paid P pvm st) (event.distributed P pvm st)
        (validatorPool P vals (event.after P pvm st)) ∧
      event.distributed P pvm st ≤ event.offered P st := by
  cases event with
  | transaction sub =>
    refine ⟨?_, le_refl _⟩
    exact pool_step hinj hpool hconcerns.1 hconcerns.2 hsound (hkeys _ mem_cons_self)
      fun key hkey => hkeys key (mem_cons_of_mem _ hkey)
  | settlement slot proposer receipts =>
    have haccrues := settlement_accrues hinj hpool hkeys
    exact ⟨haccrues.step, haccrues.within⟩

/-- The events of a sequence are the steps of a run of the pool. -/
theorem events_run {events : List ValidatorEvent} {st : StateMap}
    (hconcerns : ∀ event ∈ events, event.Concerns vals)
    (hsound : ∀ step ∈ eventSteps P pvm events st, step.1.Sound P step.2)
    (hkeys : ∀ step ∈ eventSteps P pvm events st, ∀ key ∈ step.1.keys P pvm step.2, key ∈ keys) :
    Run (validatorPool P vals st) (totalOver P pvm (fun event => event.paid P pvm) events st)
        (totalOver P pvm (fun event => event.distributed P pvm) events st)
        (validatorPool P vals (runAccounting P pvm events st)) ∧
      totalOver P pvm (fun event => event.distributed P pvm) events st ≤
        totalOver P pvm (fun event => event.offered P) events st := by
  induction events generalizing st with
  | nil => exact ⟨Run.nil _, le_refl _⟩
  | cons event rest ih =>
    simp only [eventSteps, forall_mem_cons] at hsound hkeys hconcerns
    obtain ⟨hstep, hwithin⟩ := event_step hinj hpool hconcerns.1 hsound.1 hkeys.1
    obtain ⟨hrun, hshares⟩ := ih hconcerns.2 hsound.2 hkeys.2
    simp only [totalOver, eventSteps, map_cons, sum_cons]
    exact ⟨Run.cons hstep hrun, Nat.add_le_add hwithin hshares⟩

end

theorem owed_validatorPool (st : StateMap) :
    (validatorPool P vals st).owed = owedToActive P vals st := by
  unfold Pool.owed owedToActive
  apply Finset.sum_congr rfl
  intro addr haddr
  have hmem : addr ∈ vals := (Finset.mem_filter.mp haddr).1
  unfold Pool.owedTo validatorPool poolIn
  dsimp only
  rw [if_pos hmem]
  rfl

end

/-- The counter of active validators stays right through every sequence, and what is claimed in it and still owed to
the active ones is covered by what was owed before and what is handed out, which is at most what the blocks offer. -/
theorem validator_accounts_kept (P : Prims) (pvm : Pvm) (vals : Finset Address)
    (events : List ValidatorEvent) (st : StateMap)
    (hcounted : (runIn P readActiveValidatorCount st).1.toNat = (activeValidators P vals st).card)
    (hconcerns : ∀ event ∈ events, event.Concerns vals)
    (hsound : ∀ step ∈ eventSteps P pvm events st, step.1.Sound P step.2)
    (hkeys : P.CollisionFreeOn (StateKey.preimage '' accountingKeys P pvm vals events st)) :
    AccountsKept P pvm vals events st := by
  have hinj := StateKey.injOn_hash hkeys
  have hin : poolKeys vals ⊆ accountingKeys P pvm vals events st := fun key hkey => Or.inl hkey
  obtain ⟨hrun, hshares⟩ := events_run hinj hin hconcerns hsound fun step hstep key hkey =>
    Or.inr ⟨step, hstep, hkey⟩
  have hpool : (validatorPool P vals st).Counted := hcounted
  have hcovered := hrun.covered hpool
  rw [owed_validatorPool, owed_validatorPool] at hcovered
  exact { counted := hrun.counted hpool, covered := hcovered, shares := hshares }

/-! ### A validator that is unbonding -/

/-- The claim of one of the sample validators; signatures were checked with the block. -/
def rewardClaim (addr : Address) : Submission :=
  { tx :=
      { fromAddress := addr, toAddress := zero32, value := 0, data := [], gasLimit := 21000, nonce := 0,
        signature := [], feePayer := .sender, accessList := [], deadline := none, chainId := 1, txType := .claimReward }
    ctx :=
      { height := 1, timestamp := 0, baseFee := 1, blockGasLimit := gasTarget, chainId := 1, devSkipSignature := false,
        blockSigsPreVerified := true }
    native := false
    stateRoot := zero32 }

/-- An active validator, and a second one with the given status; the counter says one. -/
def twoValidatorState (status : U8) : StateMap :=
  [(StateKey.account (fill32 1) .balance,
      { Account.empty (fill32 1) with balance := 1000000, authKeys := .single (lucidKey 7) }.toBytes),
    (.account (fill32 2) .balance,
      { Account.empty (fill32 2) with balance := 1000000, authKeys := .single (lucidKey 8) }.toBytes),
    (.account (fill32 1) .validator, stakeDepositEntry (lucidKey 7) 0), (.account (fill32 2) .validator,
      ValidatorEntry.encode
        { pk := lucidKey 8, stake := validatorStake, status, lastClaimedAt := 0, exitBlock := some 0,
          kemPk := none }), (.single .activeValidatorCount, toLe (1 : U64))].foldl
      (fun st entry => StateProgram.insert stored st (entry.1.hash lucid) entry.2) fun _ => none

/-- A block is settled, and both claim. -/
def bothClaim : List ValidatorEvent :=
  [.settlement 1 (fill32 9) [], .transaction (rewardClaim (fill32 1)), .transaction (rewardClaim (fill32 2))]

/-- The reward of one block is for one active validator, but a second one, which is unbonding, is paid the same amount
again. -/
theorem unbonding_paid_twice :
    (runIn lucid readActiveValidatorCount (twoValidatorState statusUnbonding)).1.toNat =
        (activeValidators lucid {fill32 1, fill32 2} (twoValidatorState statusUnbonding)).card ∧
      owedToActive lucid {fill32 1, fill32 2} (twoValidatorState statusUnbonding) = 0 ∧
      0 < totalOver lucid idlePvm (fun event => event.distributed lucid idlePvm) bothClaim
        (twoValidatorState statusUnbonding) ∧
      totalOver lucid idlePvm (fun event => event.paid lucid idlePvm) bothClaim
          (twoValidatorState statusUnbonding) =
        2 * totalOver lucid idlePvm (fun event => event.distributed lucid idlePvm) bothClaim
          (twoValidatorState statusUnbonding) := by
  decide +kernel

/-! ### A validator that has exited -/

/-- A block is settled, and the active one claims. -/
def oneClaims : List ValidatorEvent := [.settlement 1 (fill32 9) [], .transaction (rewardClaim (fill32 1))]

def oneClaimsKeys : List StateKey :=
  [.single .rewardsPerValidator, .single .activeValidatorCount, .account (fill32 1) .validator,
    .account (fill32 2) .validator, .single .supply, .account (fill32 1) .nonce,
    .account (fill32 1) .balance, .account zero32 .balance]

theorem one_claims_keys_distinct : lucid.CollisionFreeOn (StateKey.preimage '' accountingKeys lucid idlePvm
    {fill32 1, fill32 2} oneClaims (twoValidatorState statusExited)) := by
  refine collisionFreeOn_of_listed oneClaimsKeys (by decide +kernel) ?_
  rintro key ((rfl | rfl | ⟨addr, haddr, rfl⟩) | ⟨step, hstep, hkey⟩)
  · decide
  · decide
  · rcases Finset.mem_insert.mp haddr with rfl | hsecond
    · decide
    · rw [Finset.mem_singleton.mp hsecond]
      decide
  · have hwritten : ∀ step ∈ eventSteps lucid idlePvm oneClaims (twoValidatorState statusExited),
        ∀ key ∈ step.1.keys lucid idlePvm step.2, key ∈ oneClaimsKeys := by
      rw [← forall_mem_flatMap]
      decide +kernel
    exact hwritten step hstep key hkey

/-- One of the two has exited, the other is paid the reward of a block. -/
theorem validator_accounts_kept_one_claims :
    0 < totalOver lucid idlePvm (fun event => event.paid lucid idlePvm) oneClaims
        (twoValidatorState statusExited) ∧
      AccountsKept lucid idlePvm {fill32 1, fill32 2} oneClaims (twoValidatorState statusExited) := by
  have hconcerns : ∀ event ∈ oneClaims, event.Concerns {fill32 1, fill32 2} := by
    refine List.forall_mem_cons.mpr ⟨trivial, List.forall_mem_singleton.mpr ⟨rfl, ?_⟩⟩
    exact { sender := fun _ => Finset.mem_insert_self _ _, accused := nofun }
  have hsound : ∀ step ∈ eventSteps lucid idlePvm oneClaims (twoValidatorState statusExited),
      step.1.Sound lucid step.2 := by
    refine List.forall_mem_cons.mpr ⟨trivial, List.forall_mem_singleton.mpr ?_⟩
    refine { deposit := nofun, claim := fun _ entry hentry => Or.inl ?_ }
    have hactive : (entryIn (underKeys lucid ((ValidatorEvent.settlement 1 (fill32 9) []).after lucid
        idlePvm (twoValidatorState statusExited))) (fill32 1)).all
          (fun entry => entry.status = statusActive) = true := by decide +kernel
    have hfound : entryIn (underKeys lucid ((ValidatorEvent.settlement 1 (fill32 9) []).after lucid
        idlePvm (twoValidatorState statusExited))) (fill32 1) = some entry := hentry
    rw [hfound] at hactive
    exact of_decide_eq_true hactive
  exact ⟨by decide +kernel, validator_accounts_kept lucid idlePvm _ oneClaims (twoValidatorState statusExited)
    (by decide +kernel) hconcerns hsound one_claims_keys_distinct⟩

end Pyde
