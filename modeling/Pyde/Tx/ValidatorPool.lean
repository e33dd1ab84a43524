/-
Module: Pyde.Tx.ValidatorPool
Purpose: The validator entries with the reward accumulator and the counter of active validators, seen as a reward pool.
Trusted boundary: Prims, Pvm
-/
import Pyde.Library.RewardPool
import Pyde.Tx.SystemTransactions

namespace Pyde

open ByteCodec StateProgram RewardPool List

/-! ### Entries -/

variable {keys : Set StateKey} {signer : Address} (addr other : Address) {pk bytes : Bytes}
  {entry : ValidatorEntry}

theorem ValidatorEntry.decode_head (hpk : pk.length = 897) (stake : U128) (status : U8)
    (lastClaimedAt : U128) (tail : Bytes) :
    ∃ entry, ValidatorEntry.decode
        (toLe (897#32) ++ (pk ++ (toLe stake ++ (status :: (toLe lastClaimedAt ++ tail))))) = some entry ∧
      entry.status = status ∧ entry.lastClaimedAt = lastClaimedAt := by
  set bytes := toLe (897#32) ++ (pk ++ (toLe stake ++ (status :: (toLe lastClaimedAt ++ tail)))) with hbytes
  have hlength : ¬ bytes.length < 934 := by
    simp [hbytes, hpk]
    omega
  have hpkLen : ofLeBytes (slice bytes 0 4) = 897 := by
    rw [hbytes, slice_append_left (by simp)]
    decide
  have hstatus : bytes.getD 917 0 = status := by
    rw [hbytes, getD_eq_getElem?_getD, List.getElem?_append_right (by simp),
      List.getElem?_append_right (by simp [hpk]), List.getElem?_append_right (by simp [hpk])]
    simp [hpk]
  have hlast : slice bytes 918 16 = toLe lastClaimedAt := by
    rw [hbytes, slice_append_right (by simp), slice_append_right (by simp [hpk]), slice_append_right (by simp [hpk])]
    simp only [length_toLe, hpk, Nat.reduceSub, Nat.reduceDiv]
    exact slice_append_left (length_toLe _)
  unfold ValidatorEntry.decode
  rw [if_neg hlength, if_neg (not_not_intro hpkLen)]
  refine ⟨_, rfl, hstatus, ?_⟩
  dsimp only
  rw [hlast, ofLe_toLe (by decide)]

theorem ValidatorEntry.length_pk_of_decode (h : ValidatorEntry.decode bytes = some entry) : entry.pk.length = 897 := by
  unfold ValidatorEntry.decode at h
  split at h
  · cases h
  rename_i hlength
  split at h
  · cases h
  cases h
  simp only [slice, length_take, length_drop]
  omega

theorem ValidatorEntry.decode_encode (hpk : entry.pk.length = 897) :
    ∃ entry', ValidatorEntry.decode entry.encode = some entry' ∧ entry'.status = entry.status ∧
      entry'.lastClaimedAt = entry.lastClaimedAt := by
  unfold ValidatorEntry.encode
  rw [hpk]
  exact ValidatorEntry.decode_head hpk entry.stake entry.status entry.lastClaimedAt _

theorem decode_stakeDepositEntry (hpk : pk.length = 897) (rewards : U128) :
    ∃ entry, ValidatorEntry.decode (stakeDepositEntry pk rewards) = some entry ∧ entry.status = statusActive ∧
      entry.lastClaimedAt = rewards := by
  have hhead := ValidatorEntry.decode_head hpk validatorStake statusActive rewards []
  rw [append_nil] at hhead
  exact hhead

/-! ### The pool -/

def entryIn (store : Store StateKey Bytes) (addr : Address) : Option ValidatorEntry :=
  (store (.account addr .validator)).bind ValidatorEntry.decode

def activeIn (store : Store StateKey Bytes) (addr : Address) : Bool :=
  (entryIn store addr).any fun entry => entry.status = statusActive

/-- A machine integer as `readGlobal` finds it. -/
def globalIn (w : Nat) (store : Store StateKey Bytes) (field : GlobalField) : BitVec w :=
  ((store (.single field)).bind fun b =>
    if b.length < w / 8 then none else some (ofLe w (slice b 0 (w / 8)))).getD 0

def markIn (store : Store StateKey Bytes) (addr : Address) : Nat :=
  ((entryIn store addr).map fun entry => entry.lastClaimedAt.toNat).getD 0

/-- The active ones among some addresses, with the accumulator and the counter that are stored. -/
def poolIn (vals : Finset Address) (store : Store StateKey Bytes) : Pool Address where
  accrued := (globalIn 128 store .rewardsPerValidator).toNat
  count := (globalIn 64 store .activeValidatorCount).toNat
  members := vals.filter fun addr => activeIn store addr = true
  mark addr := if addr ∈ vals then markIn store addr else 0

/-- The keys the pool is read from. -/
def poolKeys (vals : Finset Address) : Set StateKey :=
  {key | key = .single .rewardsPerValidator ∨ key = .single .activeValidatorCount ∨
    ∃ addr ∈ vals, key = .account addr .validator}

section

variable {vals : Finset Address} {store store' : Store StateKey Bytes}

theorem poolIn_congr (h : ∀ key ∈ poolKeys vals, store' key = store key) :
    poolIn vals store' = poolIn vals store := by
  have hentry : ∀ addr ∈ vals, entryIn store' addr = entryIn store addr := by
    intro addr haddr
    unfold entryIn
    rw [h _ (.inr (.inr ⟨addr, haddr, rfl⟩))]
  have hmembers : vals.filter (fun addr => activeIn store' addr = true) =
      vals.filter fun addr => activeIn store addr = true := by
    apply Finset.filter_congr
    intro addr haddr
    unfold activeIn
    rw [hentry addr haddr]
  have hmark : (fun addr => if addr ∈ vals then markIn store' addr else 0) =
      fun addr => if addr ∈ vals then markIn store addr else 0 := by
    funext addr
    split
    next haddr =>
      unfold markIn
      rw [hentry addr haddr]
    next => rfl
  unfold poolIn globalIn
  rw [hmembers, hmark, h _ (.inl rfl), h _ (.inr (.inl rfl))]

theorem not_isRecord_of_poolKeys {key : StateKey} (h : key ∈ poolKeys vals) : ¬ IsRecord key := by
  rcases h with rfl | rfl | ⟨addr, -, rfl⟩ <;> rintro ⟨other, heq | heq⟩ <;> cases heq

theorem globalIn_insert_self {w : Nat} (hw : 8 ∣ w) (hpos : 0 < w) (field : GlobalField) (value : BitVec w) :
    globalIn w (StateProgram.insert stored store (.single field) (toLe value)) field = value := by
  have hstored : stored (toLe value) = some (toLe value) := by
    apply if_neg
    intro hnil
    have hlength := congrArg List.length hnil
    rw [length_toLe, length_nil] at hlength
    omega
  unfold globalIn StateProgram.insert
  rw [Function.update_self, hstored, Option.bind_some, length_toLe, if_neg (lt_irrefl _),
    slice_all (length_toLe value).le, ofLe_toLe hw]
  rfl

theorem entryIn_insert (hbytes : bytes ≠ []) :
    entryIn (StateProgram.insert stored store (.account addr .validator) bytes) other =
      if other = addr then ValidatorEntry.decode bytes else entryIn store other := by
  unfold entryIn StateProgram.insert
  split
  next h =>
    subst h
    rw [Function.update_self, stored, if_neg hbytes]
    rfl
  next h => rw [Function.update_of_ne (fun heq => h (StateKey.account.inj heq).1)]

/-- One entry is written, the others and the accumulator are kept. -/
structure EntryChange (vals : Finset Address) (store store' : Store StateKey Bytes) (addr : Address)
    (entry : ValidatorEntry) : Prop where
  validator : addr ∈ vals
  entries : ∀ other ∈ vals, entryIn store' other = if other = addr then some entry else entryIn store other
  rewards : globalIn 128 store' .rewardsPerValidator = globalIn 128 store .rewardsPerValidator

namespace EntryChange

variable {addr : Address} {entry : ValidatorEntry} (change : EntryChange vals store store' addr entry)

include change

theorem accrued : (poolIn vals store').accrued = (poolIn vals store).accrued :=
  congrArg BitVec.toNat change.rewards

theorem mark_self : (poolIn vals store').mark addr = entry.lastClaimedAt.toNat := by
  simp only [poolIn, markIn, change.validator, change.entries, if_true]
  rfl

theorem mark_other : ∀ other ∈ (poolIn vals store).members, other ≠ addr →
    (poolIn vals store').mark other = (poolIn vals store).mark other := by
  intro other hother hne
  have hmem := (Finset.mem_filter.mp hother).1
  simp only [poolIn, markIn, hmem, change.entries, if_true, if_neg hne]

theorem mem_members : other ∈ (poolIn vals store').members ↔
    if other = addr then entry.status = statusActive else other ∈ (poolIn vals store).members := by
  simp only [poolIn, Finset.mem_filter]
  split
  next h =>
    subst h
    simp [change.validator, activeIn, change.entries]
  next h =>
    refine and_congr_right fun hother => ?_
    unfold activeIn
    rw [change.entries other hother, if_neg h]

theorem members_active (hactive : entry.status = statusActive) :
    (poolIn vals store').members = insert addr (poolIn vals store).members := by
  ext other
  rw [change.mem_members, Finset.mem_insert]
  split
  next h => simp [h, hactive]
  next h => simp [h]

theorem members_inactive (hinactive : entry.status ≠ statusActive) :
    (poolIn vals store').members = (poolIn vals store).members.erase addr := by
  ext other
  rw [change.mem_members, Finset.mem_erase]
  split
  next h => simp [h, hinactive]
  next h => simp [h]

end EntryChange

theorem mem_members_iff {addr : Address} : addr ∈ (poolIn vals store).members ↔
    addr ∈ vals ∧ ∃ entry, entryIn store addr = some entry ∧ entry.status = statusActive := by
  simp only [poolIn, Finset.mem_filter]
  refine and_congr_right fun _ => ?_
  unfold activeIn
  rw [Option.any_eq_true]
  simp only [decide_eq_true_eq]

end

/-! ### What the handlers write -/

section

variable {P : Prims} {keys : Set StateKey} (hinj : HashApart P keys) {tx : Transaction}
  {st : StateMap} {sender : Account}

theorem run_readRewards_bind {α : Type} (next : U128 → StateProg α) :
    run stored (StateKey.hash P) (readRewardsPerValidator >>= next) st =
      run stored (StateKey.hash P) (next (globalIn 128 (underKeys P st) .rewardsPerValidator)) st := rfl

theorem writes_readRewards_bind {α : Type} (next : U128 → StateProg α) :
    writes stored (StateKey.hash P) (readRewardsPerValidator >>= next) st =
      writes stored (StateKey.hash P) (next (globalIn 128 (underKeys P st) .rewardsPerValidator)) st := rfl

variable (P tx st) in
theorem registerValidator_log (pk : Bytes) :
    ∃ (count : U64) (before : StateMap), before = replay stored (StateKey.hash P)
        [(.account tx.fromAddress .validator, stakeDepositEntry pk
            (globalIn 128 (underKeys P st) .rewardsPerValidator)),
          (.single .validatorCount, toLe (count + 1)), (.indexed .validatorIndex count, tx.fromAddress.toList)] st ∧
      writes stored (StateKey.hash P) (registerValidator tx pk) st =
        [(.account tx.fromAddress .validator, stakeDepositEntry pk
            (globalIn 128 (underKeys P st) .rewardsPerValidator)),
          (.single .validatorCount, toLe (count + 1)), (.indexed .validatorIndex count, tx.fromAddress.toList),
          (.single .activeValidatorCount, toLe (satAdd (globalIn 64 (underKeys P before) .activeValidatorCount) 1))] :=
  ⟨_, _, rfl, rfl⟩

omit hinj in
theorem globalIn_congr {w : Nat} {store store' : Store StateKey Bytes} {field : GlobalField}
    (h : store' (.single field) = store (.single field)) : globalIn w store' field = globalIn w store field := by
  unfold globalIn
  rw [h]

include hinj

theorem underKeys_replay {log : List (StateKey × Bytes)} {key : StateKey} (hlog : ∀ w ∈ log, w.1 ∈ keys)
    (hkey : key ∈ keys) (hne : ∀ w ∈ log, w.1 ≠ key) :
    underKeys P (replay stored (StateKey.hash P) log st) key = underKeys P st key :=
  replay_of_untouched stored (StateKey.hash P) (fun w hw heq => hne w hw (hinj (hlog w hw) hkey heq)) st

/-- A deposit fails and writes nothing, or it registers a sender who had no entry. -/
theorem executeStakeDeposit_log (hcount : .single .activeValidatorCount ∈ keys)
    (hwritten : ∀ w ∈ writes stored (StateKey.hash P) (executeStakeDeposit P tx sender) st, w.1 ∈ keys) :
    writes stored (StateKey.hash P) (executeStakeDeposit P tx sender) st = [] ∨
    (897 ≤ tx.data.length ∧ underKeys P st (.account tx.fromAddress .validator) = none ∧ ∃ count : U64,
      writes stored (StateKey.hash P) (executeStakeDeposit P tx sender) st =
        [(.account tx.fromAddress .validator, stakeDepositEntry (tx.data.take 897)
            (globalIn 128 (underKeys P st) .rewardsPerValidator)),
          (.single .validatorCount, toLe (count + 1)), (.indexed .validatorIndex count, tx.fromAddress.toList),
          (.single .activeValidatorCount,
            toLe (satAdd (globalIn 64 (underKeys P st) .activeValidatorCount) 1))]) := by
  by_cases hbalance : sender.balance < validatorStake
  · exact .inl (by rw [executeStakeDeposit, if_pos hbalance]; rfl)
  by_cases hlength : tx.data.length < 897
  · exact .inl (by rw [executeStakeDeposit, if_neg hbalance, if_pos hlength]; rfl)
  by_cases hderived : deriveEoaAddress P (tx.data.take 897) ≠ tx.fromAddress
  · exact .inl (by rw [executeStakeDeposit, if_neg hbalance, if_neg hlength, if_pos hderived]; rfl)
  have hread : writes stored (StateKey.hash P) (executeStakeDeposit P tx sender) st =
      (underKeys P st (.account tx.fromAddress .validator)).elim
        (writes stored (StateKey.hash P) (registerValidator tx (tx.data.take 897)) st) fun _ => [] := by
    unfold executeStakeDeposit underKeys
    rw [if_neg hbalance, if_neg hlength, if_neg hderived, writes_bind, run_read]
    cases st ((StateKey.account tx.fromAddress .validator).hash P) with
    | some data => rfl
    | none => exact (writes_bind ..).trans (append_nil _)
  cases hentry : underKeys P st (.account tx.fromAddress .validator) with
  | some data =>
    rw [hentry] at hread
    exact .inl hread
  | none =>
    rw [hentry, Option.elim_none] at hread
    obtain ⟨count, before, hbefore, hlog⟩ := registerValidator_log P tx st (tx.data.take 897)
    rw [hread, hlog] at hwritten
    have hkept : underKeys P before (.single .activeValidatorCount) =
        underKeys P st (.single .activeValidatorCount) := by
      rw [hbefore]
      refine underKeys_replay hinj (fun w hw => hwritten w ?_) hcount ?_
      · exact mem_append_left [_] hw
      · simp
    refine .inr ⟨not_lt.mp hlength, rfl, count, ?_⟩
    rw [hread, hlog, globalIn_congr hkept]

omit hinj in
/-- A claim fails and writes nothing, or it is for an entry that has not exited; the mark moves if anything is owed. -/
theorem executeClaimReward_log :
    ((runIn P (executeClaimReward tx sender) st).1.1.success = false ∧
      writes stored (StateKey.hash P) (executeClaimReward tx sender) st = []) ∨
    ∃ entry, entryIn (underKeys P st) tx.fromAddress = some entry ∧ entry.status ≠ statusExited ∧
      ∃ owed, owed = satSub (globalIn 128 (underKeys P st) .rewardsPerValidator) entry.lastClaimedAt ∧
        (runIn P (executeClaimReward tx sender) st).1.1.success = true ∧
        (runIn P (executeClaimReward tx sender) st).1.1.returnData = toLe owed ∧
        writes stored (StateKey.hash P) (executeClaimReward tx sender) st = if 0 < owed then
            [(.account tx.fromAddress .validator,
              { entry with lastClaimedAt := globalIn 128 (underKeys P st) .rewardsPerValidator }.encode)]
          else [] := by
  have hread : executeClaimReward tx sender = Prog.read (.account tx.fromAddress .validator) >>= _ := rfl
  rw [hread]
  simp only [writes_bind, run_bind, run_read]
  cases hdata : st ((StateKey.account tx.fromAddress .validator).hash P) with
  | none => exact .inl ⟨rfl, rfl⟩
  | some data =>
    dsimp only
    have hin : entryIn (underKeys P st) tx.fromAddress = ValidatorEntry.decode data := by
      unfold entryIn underKeys
      rw [hdata]
      rfl
    cases hentry : ValidatorEntry.decode data with
    | none => exact .inl ⟨rfl, rfl⟩
    | some entry =>
      dsimp only
      by_cases hexited : entry.status = statusExited
      · rw [if_pos hexited]
        exact .inl ⟨rfl, rfl⟩
      rw [if_neg hexited]
      refine .inr ⟨entry, hin.trans hentry, hexited, _, rfl, ?_⟩
      rw [writes_readRewards_bind, run_readRewards_bind]
      by_cases howed : 0 < satSub (globalIn 128 (underKeys P st) .rewardsPerValidator) entry.lastClaimedAt
      · rw [if_pos howed, if_pos howed]
        exact ⟨rfl, rfl, rfl⟩
      · rw [if_neg howed, if_neg howed]
        exact ⟨rfl, rfl, rfl⟩

/-- What is left of an entry when its validator is slashed. -/
def ValidatorEntry.ejected (entry : ValidatorEntry) : ValidatorEntry :=
  { entry with
    stake := satSub entry.stake (lesser entry.stake validatorStake), status := statusExited, exitBlock := none }

theorem applySlash_log (hcount : .single .activeValidatorCount ∈ keys)
    (hsigner : .account signer .validator ∈ keys) :
    writes stored (StateKey.hash P) (applySlash signer entry) st =
      (.account signer .validator, entry.ejected.encode) :: if entry.status = statusActive then
          [(.single .activeValidatorCount, toLe (satSub (globalIn 64 (underKeys P st) .activeValidatorCount) 1))]
        else [] := by
  unfold applySlash
  split
  next hactive =>
    have hkept : underKeys P (StateProgram.insert stored st ((StateKey.account signer .validator).hash P)
        entry.ejected.encode) (.single .activeValidatorCount) = underKeys P st (.single .activeValidatorCount) :=
      insert_record_of_ne (fun heq => by cases hinj hcount hsigner heq) _ _
    rw [← globalIn_congr hkept]
    rfl
  next => rfl

/-- Evidence is refused and nothing is written, or the accused is ejected. -/
theorem executeSlash_log {chainId : U64} {balance : U128} (hcount : .single .activeValidatorCount ∈ keys)
    (hsigner : ∀ ev, decodeSlashEvidence tx.data = .ok ev → .account ev.signer .validator ∈ keys) :
    writes stored (StateKey.hash P) (executeSlash P tx chainId balance) st = [] ∨
    ∃ ev entry, decodeSlashEvidence tx.data = .ok ev ∧ entryIn (underKeys P st) ev.signer = some entry ∧
      writes stored (StateKey.hash P) (executeSlash P tx chainId balance) st =
        (.account ev.signer .validator, entry.ejected.encode) :: if entry.status = statusActive then
            [(.single .activeValidatorCount, toLe (satSub (globalIn 64 (underKeys P st) .activeValidatorCount) 1))]
          else [] := by
  unfold executeSlash
  cases hev : decodeSlashEvidence tx.data with
  | error e => exact .inl rfl
  | ok ev =>
    dsimp only
    by_cases hsame : ev.blockHash1 = ev.blockHash2
    · rw [if_pos hsame]
      exact .inl rfl
    rw [if_neg hsame, writes_bind, run_read]
    cases hdata : st ((StateKey.account ev.signer .validator).hash P) with
    | none => exact .inl rfl
    | some data =>
      have hin : entryIn (underKeys P st) ev.signer = ValidatorEntry.decode data := by
        unfold entryIn underKeys
        rw [hdata]
        rfl
      dsimp only
      cases hentry : ValidatorEntry.decode data with
      | none => exact .inl rfl
      | some entry =>
        dsimp only
        split
        · exact .inl rfl
        split
        · exact .inl rfl
        refine .inr ⟨ev, entry, rfl, hin.trans hentry, ?_⟩
        rw [← applySlash_log hinj hcount (hsigner ev hev), writes_bind]
        exact append_nil _

end

/-! ### The steps of the pool -/

section

variable {vals : Finset Address} {store : Store StateKey Bytes} {addr : Address}

theorem stakeDepositEntry_ne_nil (pk : Bytes) (rewards : U128) : stakeDepositEntry pk rewards ≠ [] := by
  intro hnil
  have hlength := congrArg List.length hnil
  simp [stakeDepositEntry] at hlength

theorem ValidatorEntry.encode_ne_nil (entry : ValidatorEntry) : entry.encode ≠ [] := by
  intro hnil
  have hlength := congrArg List.length hnil
  simp [ValidatorEntry.encode] at hlength

variable (store) in
/-- Writing an entry, and then something that is no entry and not the accumulator. -/
theorem entryChange_replay (hvalidator : addr ∈ vals) {bytes : Bytes} {entry : ValidatorEntry}
    (hbytes : bytes ≠ []) (hdecode : ValidatorEntry.decode bytes = some entry) (log : List (StateKey × Bytes))
    (hentries : ∀ w ∈ log, ∀ other, w.1 ≠ .account other .validator)
    (hrewards : ∀ w ∈ log, w.1 ≠ .single .rewardsPerValidator) :
    EntryChange vals store (replay stored id ((.account addr .validator, bytes) :: log) store) addr entry where
  validator := hvalidator
  entries := by
    intro other _
    have hlog : entryIn (replay stored id ((.account addr .validator, bytes) :: log) store) other =
        entryIn (StateProgram.insert stored store (.account addr .validator) bytes) other := by
      unfold entryIn
      exact congrArg (Option.bind · _) (replay_of_untouched stored id (fun w hw => hentries w hw other) _)
    rw [hlog, entryIn_insert addr other hbytes, hdecode]
  rewards := by
    apply globalIn_congr
    refine (replay_of_untouched stored id ?_ store)
    rintro w (hw | ⟨_, hw⟩)
    · nofun
    · exact hrewards w hw

theorem count_of_entry_written (bytes : Bytes) :
    (poolIn vals (replay stored id [(.account addr .validator, bytes)] store)).count =
      (poolIn vals store).count :=
  congrArg BitVec.toNat (globalIn_congr (replay_of_untouched stored id (by simp) store))

theorem step_deposit {count : U64} {index : Bytes} (hvalidator : addr ∈ vals)
    (hnone : store (.account addr .validator) = none) (hpk : pk.length = 897)
    (hroom : (globalIn 64 store .activeValidatorCount).toNat + 1 < 2 ^ 64) :
    Step (poolIn vals store) 0 0 (poolIn vals (replay stored id
      [(.account addr .validator, stakeDepositEntry pk (globalIn 128 store .rewardsPerValidator)),
        (.single .validatorCount, toLe (count + 1)), (.indexed .validatorIndex count, index),
        (.single .activeValidatorCount, toLe (satAdd (globalIn 64 store .activeValidatorCount) 1))] store)) := by
  obtain ⟨entry, hdecode, hactive, hmark⟩ := decode_stakeDepositEntry hpk (globalIn 128 store .rewardsPerValidator)
  have change := entryChange_replay store hvalidator (stakeDepositEntry_ne_nil _ _) hdecode
    [(.single .validatorCount, toLe (count + 1)), (.indexed .validatorIndex count, index),
      (.single .activeValidatorCount, toLe (satAdd (globalIn 64 store .activeValidatorCount) 1))] (by simp) (by simp)
  have hfresh : addr ∉ (poolIn vals store).members := by
    rw [mem_members_iff]
    rintro ⟨-, entry, hentry, -⟩
    simp [entryIn, hnone] at hentry
  refine Step.join addr hfresh change.accrued ?_ (change.members_active hactive) ?_ ?_
  · refine (congrArg BitVec.toNat (globalIn_insert_self (by decide) (by decide) _ _)).trans ?_
    exact toNat_satAdd_of_lt hroom
  · rw [change.mark_self, hmark]
    rfl
  · intro other hother
    exact change.mark_other other hother (fun heq => hfresh (heq ▸ hother))

section

variable {entry : ValidatorEntry} (hvalidator : addr ∈ vals) (hentry : entryIn store addr = some entry)
include hvalidator hentry

/-- A slash removes the accused; one that was active is taken off the counter. -/
theorem step_slash :
    Step (poolIn vals store) 0 0 (poolIn vals (replay stored id
      ((.account addr .validator, entry.ejected.encode) :: if entry.status = statusActive then
          [(.single .activeValidatorCount, toLe (satSub (globalIn 64 store .activeValidatorCount) 1))]
        else []) store)) := by
  obtain ⟨data, -, hdata⟩ := Option.bind_eq_some_iff.mp hentry
  have hkey : entry.pk.length = 897 := ValidatorEntry.length_pk_of_decode hdata
  have hpk : entry.ejected.pk.length = 897 := hkey
  obtain ⟨ejected, hdecode, hstatus, -⟩ := ValidatorEntry.decode_encode hpk
  have hinactive : ejected.status ≠ statusActive := hstatus.trans_ne (by decide : statusExited ≠ statusActive)
  split
  next hactive =>
    have change := entryChange_replay store hvalidator (ValidatorEntry.encode_ne_nil _) hdecode
      [(.single .activeValidatorCount, toLe (satSub (globalIn 64 store .activeValidatorCount) 1))] (by simp) (by simp)
    refine Step.leave addr (mem_members_iff.mpr ⟨hvalidator, entry, hentry, hactive⟩) change.accrued ?_
      (change.members_inactive hinactive) change.mark_other
    refine (congrArg BitVec.toNat (globalIn_insert_self (by decide) (by decide) _ _)).trans ?_
    exact toNat_satSub _ _
  next hother =>
    have change := entryChange_replay store hvalidator (ValidatorEntry.encode_ne_nil _) hdecode [] (by simp) (by simp)
    have hout : addr ∉ (poolIn vals store).members := by
      rw [mem_members_iff]
      rintro ⟨-, entry', hentry', hactive⟩
      cases hentry.symm.trans hentry'
      exact hother hactive
    refine Step.idle change.accrued ?_ ?_ fun other hmember => ?_
    · exact count_of_entry_written _
    · rw [change.members_inactive hinactive, Finset.erase_eq_of_notMem hout]
    · exact change.mark_other other hmember (fun heq => hout (heq ▸ hmember))

theorem step_claim (hactive : entry.status = statusActive) {owed : U128}
    (howed : owed = satSub (globalIn 128 store .rewardsPerValidator) entry.lastClaimedAt) :
    Step (poolIn vals store) owed.toNat 0 (poolIn vals (replay stored id (if 0 < owed then
        [(.account addr .validator, { entry with lastClaimedAt := globalIn 128 store .rewardsPerValidator }.encode)]
      else []) store)) := by
  have hmember : addr ∈ (poolIn vals store).members :=
    mem_members_iff.mpr ⟨hvalidator, entry, hentry, hactive⟩
  have hpaid : (poolIn vals store).owedTo addr = owed.toNat := by
    rw [howed, toNat_satSub]
    simp only [Pool.owedTo, poolIn, markIn, hentry, hvalidator, if_true]
    rfl
  rw [← hpaid]
  split
  next hpos =>
    obtain ⟨data, -, hdata⟩ := Option.bind_eq_some_iff.mp hentry
    set moved : ValidatorEntry := { entry with lastClaimedAt := globalIn 128 store .rewardsPerValidator }
    have hkey : entry.pk.length = 897 := ValidatorEntry.length_pk_of_decode hdata
    have hpk : moved.pk.length = 897 := hkey
    obtain ⟨claimed, hdecode, hstatus, hmark⟩ := ValidatorEntry.decode_encode hpk
    have change := entryChange_replay store hvalidator (ValidatorEntry.encode_ne_nil _) hdecode [] (by simp) (by simp)
    refine Step.claim addr hmember change.accrued ?_ ?_ ?_ change.mark_other
    · exact count_of_entry_written _
    · rw [change.members_active (hstatus.trans hactive), Finset.insert_eq_of_mem hmember]
    · rw [change.mark_self, hmark]
      exact le_refl _
  next hnone =>
    have hzero : (poolIn vals store).owedTo addr = 0 := by
      rw [hpaid]
      rw [BitVec.lt_def] at hnone
      simpa using hnone
    exact Step.claim addr hmember rfl rfl rfl (Nat.le_of_sub_eq_zero hzero) fun _ _ _ => rfl

end

end

/-! ### Transactions -/

/-- The transactions that the accounting of validators is about. -/
def TransactionType.isValidatorAction (type : TransactionType) : Bool :=
  type = .stakeDeposit ∨ type = .claimReward ∨ type = .slash

section

variable (P : Prims) (pvm : Pvm) (vals : Finset Address) (sub : Submission) (st : StateMap)

/-- The accounting of the validators in a state. -/
def validatorPool : Pool Address := poolIn vals (underKeys P st)

/-- What a transaction pays out as a reward, by its receipt. -/
def claimedReward : Nat :=
  match (runIn P (sub.program P pvm) st).1 with
  | .ok receipt =>
    if sub.tx.txType = .claimReward ∧ receipt.success = true then (ofLe 128 receipt.returnData).toNat else 0
  | .error _ => 0

/-- The validator that a transaction is about is one of those that are looked at. -/
structure Concerns : Prop where
  sender : sub.tx.txType ≠ .slash → sub.tx.fromAddress ∈ vals
  accused : sub.tx.txType = .slash → ∀ ev, decodeSlashEvidence sub.tx.data = .ok ev →
    ev.signer ∈ vals

/-- The counter has room for one more deposit, and rewards are not claimed by somebody who is neither active nor has
exited. -/
structure SoundAction : Prop where
  deposit : sub.tx.txType = .stakeDeposit →
    (globalIn 64 (underKeys P st) .activeValidatorCount).toNat + 1 < 2 ^ 64
  claim : sub.tx.txType = .claimReward → ∀ entry,
    entryIn (underKeys P st) sub.tx.fromAddress = some entry →
      entry.status = statusActive ∨ entry.status = statusExited

end

section

variable {P : Prims} {pvm : Pvm} {vals : Finset Address} {sub : Submission} {st : StateMap}

theorem claimedReward_of_no_effect (h : takesEffect (runIn P (sub.program P pvm) st).1 = false) :
    claimedReward P pvm sub st = 0 := by
  unfold claimedReward
  cases hresult : (runIn P (sub.program P pvm) st).1 with
  | error e => rfl
  | ok receipt =>
    rw [hresult] at h
    have hfailed : receipt.success = false := h
    simp [hfailed]

theorem claimedReward_of_ne (h : sub.tx.txType ≠ .claimReward) : claimedReward P pvm sub st = 0 := by
  unfold claimedReward
  split
  next => rw [if_neg (fun hboth => h hboth.1)]
  next => rfl

/-- The state in which the handler runs has the same entries, accumulator and counter. -/
theorem noted_pool (hinj : HashApart P keys)
    (hpool : poolKeys vals ⊆ keys) (hnonce : .account sub.tx.fromAddress .nonce ∈ keys) :
    ∀ key ∈ poolKeys vals,
      underKeys P (nonceRecorded P sub.tx st) key = underKeys P st key := fun key hkey =>
  sameSystem_nonceRecorded hinj hnonce key (hpool hkey) (not_isRecord_of_poolKeys hkey)

theorem entryIn_congr {store store' : Store StateKey Bytes} {addr : Address}
    (h : store' (.account addr .validator) = store (.account addr .validator)) :
    entryIn store' addr = entryIn store addr := by
  unfold entryIn
  rw [h]

section

variable {keys : Set StateKey} (hpool : poolKeys vals ⊆ keys) {noted : StateMap}
  (hnoted : ∀ key ∈ poolKeys vals, underKeys P noted key = underKeys P st key) {tx : Transaction}

include hpool hnoted

theorem step_of_deposit (hinj : HashApart P keys) (hvalidator : tx.fromAddress ∈ vals)
    (hroom : (globalIn 64 (underKeys P st) .activeValidatorCount).toNat + 1 < 2 ^ 64) {sender : Account}
    (hwritten : ∀ w ∈ writes stored (StateKey.hash P) (executeStakeDeposit P tx sender) noted, w.1 ∈ keys) :
    Step (validatorPool P vals st) 0 0 (poolIn vals (replay stored id
      (writes stored (StateKey.hash P) (executeStakeDeposit P tx sender) noted) (underKeys P st))) := by
  have hcount := hnoted (.single .activeValidatorCount) (.inr (.inl rfl))
  have hrewards := hnoted (.single .rewardsPerValidator) (.inl rfl)
  have hentry := hnoted (.account tx.fromAddress .validator) (.inr (.inr ⟨_, hvalidator, rfl⟩))
  rcases executeStakeDeposit_log hinj (hpool (.inr (.inl rfl))) hwritten with
    hlog | ⟨hlength, hnone, count, hlog⟩
  · rw [hlog]
    exact Step.idle rfl rfl rfl fun _ _ => rfl
  rw [hlog, globalIn_congr hcount, globalIn_congr hrewards]
  refine step_deposit hvalidator (hentry.symm.trans hnone) ?_ hroom
  rw [length_take]
  omega

theorem step_of_slash (hinj : HashApart P keys)
    (haccused : ∀ ev, decodeSlashEvidence tx.data = .ok ev → ev.signer ∈ vals) {chainId : U64} {balance : U128} :
    Step (validatorPool P vals st) 0 0 (poolIn vals (replay stored id
      (writes stored (StateKey.hash P) (executeSlash P tx chainId balance) noted) (underKeys P st))) := by
  have hcount := hnoted (.single .activeValidatorCount) (.inr (.inl rfl))
  rcases executeSlash_log hinj (hpool (.inr (.inl rfl)))
      (fun ev hev => hpool (.inr (.inr ⟨_, haccused ev hev, rfl⟩))) with hlog | ⟨ev, entry, hev, hentry, hlog⟩
  · rw [hlog]
    exact Step.idle rfl rfl rfl fun _ _ => rfl
  have hsigner := hnoted (.account ev.signer .validator) (.inr (.inr ⟨_, haccused ev hev, rfl⟩))
  rw [hlog, globalIn_congr hcount]
  exact step_slash (haccused ev hev) ((entryIn_congr hsigner).symm.trans hentry)

omit hpool in
theorem step_of_claim (hvalidator : tx.fromAddress ∈ vals)
    (hsound : ∀ entry, entryIn (underKeys P st) tx.fromAddress = some entry →
      entry.status = statusActive ∨ entry.status = statusExited) (sender : Account) :
    ∃ paid, Step (validatorPool P vals st) paid 0 (poolIn vals (replay stored id
        (writes stored (StateKey.hash P) (executeClaimReward tx sender) noted) (underKeys P st))) ∧
      paid = if (runIn P (executeClaimReward tx sender) noted).1.1.success = true then
        (ofLe 128 (runIn P (executeClaimReward tx sender) noted).1.1.returnData).toNat else 0 := by
  have hrewards := hnoted (.single .rewardsPerValidator) (.inl rfl)
  have hkept := entryIn_congr (hnoted (.account tx.fromAddress .validator) (.inr (.inr ⟨_, hvalidator, rfl⟩)))
  rcases executeClaimReward_log with ⟨hfailed, hlog⟩ | ⟨entry, hentry, hexited, owed, howed, hsuccess,
    hreturned, hlog⟩
  · rw [hlog, hfailed]
    exact ⟨0, Step.idle rfl rfl rfl (fun _ _ => rfl), rfl⟩
  rw [hkept] at hentry
  rw [globalIn_congr hrewards] at howed hlog
  have hactive := (hsound entry hentry).resolve_right hexited
  rw [hlog, hsuccess, hreturned, if_pos rfl, ofLe_toLe (by decide)]
  exact ⟨_, step_claim hvalidator hentry hactive howed, rfl⟩

end

theorem withBalance_log (sender : Account) (handler : U128 → StateProg (Outcome × U128)) :
    writes stored (StateKey.hash P) (withBalance sender handler) st =
      writes stored (StateKey.hash P) (handler sender.balance) st := by
  unfold withBalance
  rw [writes_bind]
  exact append_nil _

/-- Each of the three kinds of transaction is a step of the pool. -/
theorem pool_step (hinj : HashApart P keys)
    (hpool : poolKeys vals ⊆ keys) (hkind : sub.tx.txType.isValidatorAction = true)
    (hconcerns : Concerns vals sub) (hsound : SoundAction P sub st)
    (hnonce : .account sub.tx.fromAddress .nonce ∈ keys)
    (hwritten : ∀ key ∈ writtenKeys P (sub.program P pvm) st, key ∈ keys) :
    Step (validatorPool P vals st) (claimedReward P pvm sub st) 0
      (validatorPool P vals (runIn P (sub.program P pvm) st).2) := by
  have hkinds : sub.tx.txType = .stakeDeposit ∨ sub.tx.txType = .claimReward ∨
      sub.tx.txType = .slash := of_decide_eq_true hkind
  have hvalue : sub.tx.txType.carriesValue = false := by
    rcases hkinds with htype | htype | htype <;> rw [htype] <;> rfl
  have hnoted : ∀ key ∈ poolKeys vals,
      underKeys P (nonceRecorded P sub.tx st) key = underKeys P st key := noted_pool hinj hpool hnonce
  rcases execute_replayed hvalue hinj hnonce hwritten with
    ⟨hfailed, hsame⟩ | ⟨purse, receipt, hrun, hsuccess, hreturned, hlog, hafter⟩
  · have hkept : validatorPool P vals (runIn P (sub.program P pvm) st).2 =
        validatorPool P vals st :=
      poolIn_congr fun key hkey => hsame key (hpool hkey) (not_isRecord_of_poolKeys hkey)
    rw [claimedReward_of_no_effect hfailed, hkept]
    exact Step.idle rfl rfl rfl fun _ _ => rfl
  have hpoolAfter : validatorPool P vals (runIn P (sub.program P pvm) st).2 =
      poolIn vals (replay stored id (writes stored (StateKey.hash P) (sub.handler P pvm st purse)
        (nonceRecorded P sub.tx st)) (underKeys P st)) :=
    poolIn_congr fun key hkey => hafter key (hpool hkey) (not_isRecord_of_poolKeys hkey)
  rw [hpoolAfter]
  rcases hkinds with htype | htype | htype
  · have hhandler : sub.handler P pvm st purse = executeStakeDeposit P sub.tx
        ((acctAt P st sub.tx.fromAddress).charged purse) := by
      unfold Submission.handler dispatch
      rw [htype]
    rw [hhandler] at hlog ⊢
    rw [claimedReward_of_ne (by rw [htype]; nofun)]
    exact step_of_deposit hpool hnoted hinj (hconcerns.sender (by rw [htype]; nofun)) (hsound.deposit htype) hlog
  · have hhandler : sub.handler P pvm st purse = executeClaimReward sub.tx
        ((acctAt P st sub.tx.fromAddress).charged purse) := by
      unfold Submission.handler dispatch
      rw [htype]
    have hhandled : handled P pvm sub st purse = runIn P (executeClaimReward sub.tx
        ((acctAt P st sub.tx.fromAddress).charged purse))
          (nonceRecorded P sub.tx st) :=
      congrArg (fun program => runIn P program (nonceRecorded P sub.tx st)) hhandler
    obtain ⟨paid, hstep, hpaid⟩ :=
      step_of_claim hnoted (hconcerns.sender (by rw [htype]; nofun)) (hsound.claim htype)
        ((acctAt P st sub.tx.fromAddress).charged purse)
    have hclaimed : claimedReward P pvm sub st = paid := by
      unfold claimedReward
      rw [hrun, hpaid]
      dsimp only
      rw [hsuccess, hreturned, hhandled]
      simp only [htype, true_and]
    rw [hclaimed, hhandler]
    exact hstep
  · have hhandler : sub.handler P pvm st purse =
        withBalance ((acctAt P st sub.tx.fromAddress).charged purse)
          (executeSlash P sub.tx sub.ctx.chainId) := by
      unfold Submission.handler dispatch
      rw [htype]
    rw [hhandler, withBalance_log, claimedReward_of_ne (by rw [htype]; nofun)]
    exact step_of_slash hpool hnoted hinj (hconcerns.accused htype)

end

end Pyde
