/-
Module: Pyde.Tx.Deployment
Purpose: What a deployment leaves behind. The code and the storage of the constructor end up at the derived address
  whatever else happens; whether the deployment is safe depends on the constructor, on what was at that address
  before, and on where the value is sent.
Trusted boundary: Prims, Pvm
-/
import Pyde.Tx.SystemTransactions

namespace Pyde

open ByteCodec StateProgram List BitVec

/-! ### Deployments -/

/-- The runtime code of a deployment. -/
def runtimeOf (data : Bytes) : Bytes :=
  match deployHeader data with
  | none => data
  | some (constructorLen, runtimeLen) => slice data (8 + constructorLen) runtimeLen

section

variable (P : Prims) (pvm : Pvm) (sub : Submission) (st : StateMap)

/-- The address that is derived for the new contract. -/
def deployTarget : Address :=
  deriveCreateAddress P sub.tx.fromAddress (acctAt P st sub.tx.fromAddress).nonce

def codeStored : StateMap :=
  (runIn P (storeContract P (deployTarget P sub st) (runtimeOf sub.tx.data))
    (nonceRecorded P sub.tx st)).2

/-- What the constructor answers, if the deployment has one. -/
def constructorOutput : Option PvmOutput :=
  (deployHeader sub.tx.data).map fun lengths =>
    (runIn P (pvm false (slice sub.tx.data 8 lengths.1)
      (pvmCall { sub.tx with
        toAddress := deployTarget P sub st
        data := sub.tx.data.drop (8 + lengths.1 + lengths.2) } sub.ctx)).toProg
      (codeStored P sub st)).1

/-- The transaction is admitted, its sender can be charged, and the value can be moved. -/
def deployReached : Bool :=
  match (runIn P (admission P sub.tx sub.ctx) st).1 with
  | .error _ => false
  | .ok (sender, rcpt) =>
    match preExecutionCharge sub.tx sender.purse sub.ctx.baseFee with
    | .error _ => false
    | .ok (_, purse) => (transferFor sub.tx (sender.charged purse) rcpt).isOk

/-- The last value of a slot among the slots that the machine hands back. -/
def slotValue (storage : List ((Address × Bytes) × Bytes)) (contract : Address) (slot : Bytes) : Option Bytes :=
  storage.reverse.lookup (contract, slot)

/-- A receipt of success means that the constructor succeeded, that code and storage are stored at an address that had
no code, and that the value was added to its balance; a constructor that fails means a failed receipt and no code. -/
structure DeploymentSafe : Prop where
  constructed : takesEffect (runIn P (sub.program P pvm) st).1 = true →
    ∀ out, constructorOutput P pvm sub st = some out → out.success = true
  code : takesEffect (runIn P (sub.program P pvm) st).1 = true →
    (runIn P (sub.program P pvm) st).2 (codeKey P (deployTarget P sub st)) =
      stored (runtimeOf sub.tx.data)
  storage : takesEffect (runIn P (sub.program P pvm) st).1 = true →
    ∀ out, constructorOutput P pvm sub st = some out → ∀ contract slot value,
      slotValue out.storage contract slot = some value →
        (runIn P (sub.program P pvm) st).2 ((StateKey.slot contract slot).hash P) = stored value
  fresh : takesEffect (runIn P (sub.program P pvm) st).1 = true →
    st (codeKey P (deployTarget P sub st)) = none
  balance : takesEffect (runIn P (sub.program P pvm) st).1 = true →
    (acctAt P (runIn P (sub.program P pvm) st).2 (deployTarget P sub st)).balance.toNat =
      (acctAt P st (deployTarget P sub st)).balance.toNat + sub.tx.value.toNat
  failing : deployReached P sub st = true →
    ∀ out, constructorOutput P pvm sub st = some out → out.success = false →
      takesEffect (runIn P (sub.program P pvm) st).1 = false ∧
        (runIn P (sub.program P pvm) st).2 (codeKey P (deployTarget P sub st)) = none

/-- The constructor succeeds, there was neither code nor a balance at the derived address, and value, if any, is sent
to that address and below the sign bit. -/
structure Deployable : Prop where
  constructed : ∀ out, constructorOutput P pvm sub st = some out → out.success = true
  fresh : st (codeKey P (deployTarget P sub st)) = none
  unfunded : (acctAt P st (deployTarget P sub st)).balance = 0
  value : sub.tx.value = 0 ∨
    (sub.tx.toAddress = deployTarget P sub st ∧ sub.tx.value.toNat < 2 ^ 127)

/-- No other record that the transaction touches is that of the derived address. -/
structure TargetApart : Prop where
  sender : sub.tx.fromAddress ≠ deployTarget P sub st
  named : (acctAt P st sub.tx.fromAddress).address ≠ deployTarget P sub st
  recipient : sub.tx.toAddress ≠ deployTarget P sub st →
    (acctAt P st sub.tx.toAddress).address ≠ deployTarget P sub st

/-- The keys that are written, and those that the deployment is about. -/
def deployKeys : Set StateKey :=
  {key | key ∈ writtenKeys P (sub.program P pvm) st ∨
    key ∈ [StateKey.account sub.tx.fromAddress .nonce, .account sub.tx.fromAddress .balance,
      .account sub.tx.toAddress .balance, .account (deployTarget P sub st) .balance,
      .account (deployTarget P sub st) .code]}

end

/-! ### The contract while the rest is written -/

section

variable {P : Prims} {keys : Set StateKey}

variable (P) in
/-- The code and the record of the new contract, and records of others that do not name it. -/
structure Installed (target : Address) (runtime : Bytes) (contract : Account) (others : List Address)
    (st : StateMap) : Prop where
  code : st (codeKey P target) = stored runtime
  record : acctAt P st target = contract
  apart : ∀ other ∈ others, (acctAt P st other).address ≠ target

/-- The keys of the contract and of the others are in play. -/
structure InstalledKeys (target : Address) (others : List Address) (keys : Set StateKey) : Prop where
  code : StateKey.account target .code ∈ keys
  balance : StateKey.account target .balance ∈ keys
  others : ∀ other ∈ others, StateKey.account other .balance ∈ keys

variable {target : Address} {runtime : Bytes} {contract : Account} {others : List Address} {st : StateMap}
  (hinj : HashApart P keys) (hkeys : InstalledKeys target others keys)
  (h : Installed P target runtime contract others st)

include hinj hkeys h

/-- A key that is neither a record nor the code of the contract. -/
theorem Installed.insert_other {key : StateKey} (hkey : key ∈ keys) (hrecord : ¬ IsRecord key)
    (hcode : key ≠ .account target .code) (value : Bytes) :
    Installed P target runtime contract others (StateProgram.insert stored st (key.hash P) value) := by
  have hrecords : ∀ addr, .account addr .balance ∈ keys →
      acctAt P (StateProgram.insert stored st (key.hash P) value) addr = acctAt P st addr := by
    intro addr haddr
    refine acctAt_insert_of_ne (fun heq => hrecord ?_) value
    exact hinj haddr hkey heq ▸ isRecord_balance addr
  refine { code := ?_, record := ?_, apart := fun other hother => ?_ }
  · rw [← h.code]
    exact insert_record_of_ne (fun heq => hcode (hinj hkeys.code hkey heq).symm) _ _
  · rw [hrecords target hkeys.balance, h.record]
  · rw [hrecords other (hkeys.others other hother)]
    exact h.apart other hother

theorem Installed.insert_record {account : Account} (haddr : account.address ≠ target)
    (hkey : .account account.address .balance ∈ keys) (hstorable : account.authKeys.Storable) :
    Installed P target runtime contract others
      (StateProgram.insert stored st (balanceKey P account.address) account.toBytes) := by
  refine { code := ?_, record := ?_, apart := fun other hother => ?_ }
  · rw [← h.code]
    exact insert_record_of_ne (fun heq => nomatch hinj hkeys.code hkey heq) _ _
  · rw [acctAt_insert hinj hkey hkeys.balance hstorable, if_neg haddr.symm, h.record]
  · rw [acctAt_insert hinj hkey (hkeys.others other hother) hstorable]
    split
    next => exact haddr
    next => exact h.apart other hother

theorem Installed.after_writeStorage {storage : List ((Address × Bytes) × Bytes)}
    (hwritten : ∀ key ∈ writtenKeys P (writeStorage storage) st, key ∈ keys) :
    Installed P target runtime contract others (runIn P (writeStorage storage) st).2 := by
  induction storage generalizing st with
  | nil => exact h
  | cons entry rest ih =>
    obtain ⟨⟨addr, slot⟩, value⟩ := entry
    have hkey : .slot addr slot ∈ keys := hwritten _ mem_cons_self
    exact ih (h.insert_other hinj hkeys hkey (by rintro ⟨_, heq | heq⟩ <;> cases heq) (by nofun) value)
      fun key hkey => hwritten key (mem_cons_of_mem _ hkey)

theorem Installed.after_storeContract {addr : Address} {code : Bytes} (hne : addr ≠ target)
    (hwritten : ∀ key ∈ writtenKeys P (storeContract P addr code) st, key ∈ keys) :
    Installed P target runtime contract others (runIn P (storeContract P addr code) st).2 := by
  have hcode : .account addr .code ∈ keys := hwritten _ mem_cons_self
  have hbalance : .account addr .balance ∈ keys := hwritten _ (mem_cons_of_mem _ mem_cons_self)
  have hstored := h.insert_other hinj hkeys hcode (by rintro ⟨_, heq | heq⟩ <;> cases heq)
    (fun heq => hne (StateKey.account.inj heq).1) code
  have hnew : (Account.newContract P addr code).address ≠ target := hne
  exact hstored.insert_record hinj hkeys hnew hbalance AuthKeys.storable_none

/-- The contracts of the machine are stored only where there is no code, so not at the new address. -/
theorem Installed.after_persistContracts (hruntime : runtime ≠ []) {contracts : List (Address × Bytes)}
    (hwritten : ∀ key ∈ writtenKeys P (persistContracts P contracts) st, key ∈ keys) :
    Installed P target runtime contract others (runIn P (persistContracts P contracts) st).2 := by
  induction contracts generalizing st with
  | nil => exact h
  | cons entry rest ih =>
    obtain ⟨addr, code⟩ := entry
    have hread : runIn P (loadCode addr) st = (st (codeKey P addr), st) := rfl
    simp only [persistContracts, run_bind, hread]
    rw [persistContracts, writtenKeys_bind, hread] at hwritten
    replace hwritten := fun key hkey => hwritten key (mem_append_right _ hkey)
    cases hpresent : st (codeKey P addr) with
    | some present =>
      rw [hpresent] at hwritten
      exact ih h hwritten
    | none =>
      rw [hpresent] at hwritten
      dsimp only at hwritten ⊢
      rw [writtenKeys_bind] at hwritten
      have hne : addr ≠ target := by
        rintro rfl
        rw [h.code, stored, if_neg hruntime] at hpresent
        cases hpresent
      simp only [run_bind]
      exact ih (h.after_storeContract hinj hkeys hne fun key hkey => hwritten key (mem_append_left _ hkey))
        fun key hkey => hwritten key (mem_append_right _ hkey)

/-- The write-back of another account, with its keys as they were. -/
theorem Installed.after_applyAccountDelta {addr : Address} (haddr : addr ∈ others) {initial final : Account}
    (hauth : final.authKeys = initial.authKeys)
    (hwritten : ∀ key ∈ writtenKeys P (applyAccountDelta addr initial final) st, key ∈ keys) :
    Installed P target runtime contract others (runIn P (applyAccountDelta addr initial final) st).2 := by
  have hkey : StateKey.account (acctAt P st addr).address .balance ∈ keys := hwritten _ mem_cons_self
  have happlied : ((acctAt P st addr).deltaApplied initial final).address ≠ target :=
    h.apart addr haddr
  have hstorable : ((acctAt P st addr).deltaApplied initial final).authKeys.Storable := by
    simp only [Account.deltaApplied, hauth, ne_eq, not_true_eq_false, if_false]
    exact storable_acctAt P st addr
  exact h.insert_record hinj hkeys happlied hkey hstorable

end

/-! ### The handler -/

section

variable {P : Prims} {pvm : Pvm} {keys : Set StateKey} {target : Address} {runtime : Bytes}
  {others : List Address} {st : StateMap}

theorem installed_storeContract (hinj : HashApart P keys) (hkeys : InstalledKeys target others keys)
    (hothers : ∀ other ∈ others, other ≠ target)
    (hapart : ∀ other ∈ others, (acctAt P st other).address ≠ target) :
    Installed P target runtime (Account.newContract P target runtime) others
      (runIn P (storeContract P target runtime) st).2 := by
  have hrecords : ∀ other, .account other .balance ∈ keys →
      acctAt P (runIn P (storeContract P target runtime) st).2 other =
        if other = target then Account.newContract P target runtime else acctAt P st other := by
    intro other hother
    have hcode : acctAt P (StateProgram.insert stored st (codeKey P target) runtime) other =
        acctAt P st other :=
      acctAt_insert_of_ne (fun heq => nomatch hinj hother hkeys.code heq) runtime
    rw [← hcode]
    exact acctAt_insert hinj hkeys.balance hother AuthKeys.storable_none
  refine { code := ?_, record := ?_, apart := fun other hother => ?_ }
  · have hkept : (runIn P (storeContract P target runtime) st).2 (codeKey P target) =
        StateProgram.insert stored st (codeKey P target) runtime (codeKey P target) :=
      insert_record_of_ne (fun heq => nomatch hinj hkeys.code hkeys.balance heq) _ _
    rw [hkept]
    exact Function.update_self _ _ _
  · rw [hrecords target hkeys.balance, if_pos rfl]
  · rw [hrecords other (hkeys.others other hother), if_neg (hothers other hother)]
    exact hapart other hother

theorem writeStorage_log (storage : List ((Address × Bytes) × Bytes)) :
    writes stored (StateKey.hash P) (writeStorage storage) st =
      storage.map fun entry => (.slot entry.1.1 entry.1.2, entry.2) := by
  induction storage generalizing st with
  | nil => rfl
  | cons entry rest ih =>
    obtain ⟨⟨addr, slot⟩, value⟩ := entry
    exact congrArg _ ih

theorem writeStorage_slot (hinj : HashApart P keys) {storage : List ((Address × Bytes) × Bytes)}
    (hwritten : ∀ key ∈ writtenKeys P (writeStorage storage) st, key ∈ keys) {contract : Address}
    {slot value : Bytes}
    (hvalue : slotValue storage contract slot = some value) :
    (runIn P (writeStorage storage) st).2 ((StateKey.slot contract slot).hash P) = stored value := by
  induction storage generalizing st with
  | nil => cases hvalue
  | cons entry rest ih =>
    obtain ⟨⟨addr, name⟩, written⟩ := entry
    have htail : ∀ key ∈ writtenKeys P (writeStorage rest)
        (StateProgram.insert stored st ((StateKey.slot addr name).hash P) written), key ∈ keys :=
      fun key hkey => hwritten key (mem_cons_of_mem _ hkey)
    unfold slotValue at hvalue
    rw [reverse_cons, lookup_append] at hvalue
    cases hrest : rest.reverse.lookup (contract, slot) with
    | some last =>
      rw [hrest] at hvalue
      cases hvalue
      exact ih htail hrest
    | none =>
      rw [hrest, Option.none_or, lookup_cons] at hvalue
      split at hvalue
      next heq =>
        obtain ⟨rfl, rfl⟩ := Prod.mk.inj (eq_of_beq heq)
        cases hvalue
        have hkept : (runIn P (writeStorage rest) (StateProgram.insert stored st
            ((StateKey.slot contract slot).hash P) value)).2 ((StateKey.slot contract slot).hash P) =
            StateProgram.insert stored st ((StateKey.slot contract slot).hash P) value
              ((StateKey.slot contract slot).hash P) := by
          apply run_frame
          rw [writeStorage_log]
          intro w hw hsame
          have hkey := hinj (htail w.1 (by rw [writtenKeys, writeStorage_log]; exact mem_map_of_mem hw))
            (hwritten _ mem_cons_self) hsame
          obtain ⟨later, hlater, rfl⟩ := List.mem_map.mp hw
          obtain ⟨hcontract, hslot⟩ := StateKey.slot.inj hkey
          -- a later write of the same slot would have been found first
          have hother := List.lookup_eq_none_iff.mp hrest later (List.mem_reverse.mpr hlater)
          exact bne_iff_ne.mp hother (Prod.ext hcontract.symm hslot.symm)
        exact hkept.trans (Function.update_self _ _ _)
      next => cases hvalue

theorem writesAccount_persistContracts (contracts : List (Address × Bytes)) :
    (persistContracts P contracts).Writes fun key => ∃ addr field, key = .account addr field := by
  induction contracts with
  | nil => exact Prog.writes_pure _
  | cons entry rest ih =>
    obtain ⟨addr, code⟩ := entry
    refine (Prog.writes_read _).bind fun present => ?_
    cases present with
    | some _ => exact ih
    | none =>
      refine .bind ?_ fun _ => ih
      exact (Prog.writes_write.mpr ⟨addr, .code, rfl⟩).bind fun _ =>
        Prog.writes_write.mpr ⟨addr, .balance, rfl⟩

variable {tx : Transaction} {ctx : BlockContext}

/-- A run of the machine leaves the new contract in place; if it succeeds, its slots are stored. -/
theorem installed_executeInPvm (hinj : HashApart P keys) (hkeys : InstalledKeys target others keys)
    {contract : Account} (hruntime : runtime ≠ []) (h : Installed P target runtime contract others st)
    {aot : Bool} {code : Bytes}
    (hwritten : ∀ key ∈ writtenKeys P (executeInPvm P pvm tx ctx aot code) st, key ∈ keys) :
    Installed P target runtime contract others (runIn P (executeInPvm P pvm tx ctx aot code) st).2 ∧
      ((runIn P (pvm aot code (pvmCall tx ctx)).toProg st).1.success = true → ∀ addr slot value,
          slotValue (runIn P (pvm aot code (pvmCall tx ctx)).toProg st).1.storage addr slot = some value →
          .slot addr slot ∈ keys ∧
            (runIn P (executeInPvm P pvm tx ctx aot code) st).2 ((StateKey.slot addr slot).hash P) =
              stored value) := by
  set out := (runIn P (pvm aot code (pvmCall tx ctx)).toProg st).1 with hout
  unfold executeInPvm at hwritten ⊢
  rw [writtenKeys_bind] at hwritten
  simp only [run_bind, run_query_snd] at hwritten ⊢
  rw [← hout] at hwritten ⊢
  by_cases hsuccess : out.success = true
  · rw [if_pos hsuccess] at hwritten ⊢
    rw [writtenKeys_bind, writtenKeys_bind] at hwritten
    have hslots : ∀ key ∈ writtenKeys P (writeStorage out.storage) st, key ∈ keys := fun key hkey =>
      hwritten key (mem_append_right _ (mem_append_left _ hkey))
    have hcontracts : ∀ key ∈ writtenKeys P (persistContracts P out.contracts)
        (runIn P (writeStorage out.storage) st).2, key ∈ keys := fun key hkey =>
      hwritten key (mem_append_right _ (mem_append_right _ (mem_append_left _ hkey)))
    simp only [run_bind, run_pure]
    refine ⟨(h.after_writeStorage hinj hkeys hslots).after_persistContracts hinj hkeys hruntime hcontracts, ?_⟩
    intro _ addr slot value hvalue
    have hslot : .slot addr slot ∈ keys := by
      obtain ⟨before, after, hsplit, -⟩ := List.lookup_eq_some_iff.mp hvalue
      have hmem : ((addr, slot), value) ∈ out.storage := by
        rw [← mem_reverse, hsplit]
        exact mem_append_right _ mem_cons_self
      apply hslots
      rw [writtenKeys, writeStorage_log, map_map]
      exact mem_map_of_mem (f := Prod.fst ∘ _) hmem
    refine ⟨hslot, ?_⟩
    rw [← writeStorage_slot hinj hslots hvalue]
    apply run_frame
    intro w hw heq
    have hsame := hinj (hcontracts w.1 (mem_map_of_mem hw)) hslot heq
    obtain ⟨owner, field, haccount⟩ :=
      (writesAccount_persistContracts out.contracts).mem stored (StateKey.hash P) _ w hw
    rw [haccount] at hsame
    cases hsame
  · rw [if_neg hsuccess]
    exact ⟨h, fun hsucceeded => absurd hsucceeded hsuccess⟩

theorem runtimeOf_ne_nil {data : Bytes} {lengths : Nat × Nat} (h : deployHeader data = some lengths) :
    runtimeOf data ≠ [] := by
  unfold runtimeOf
  rw [h]
  unfold deployHeader at h
  dsimp only at h
  split at h
  next hsane =>
    cases h
    intro hnil
    dsimp only at hnil
    have hlength : (slice data (8 + ofLeBytes (slice data 0 4)) (ofLeBytes (slice data 4 4))).length =
        min (ofLeBytes (slice data 4 4)) (data.length - (8 + ofLeBytes (slice data 0 4))) := by
      conv => lhs; rw [slice, length_take, length_drop]
    rw [hnil, length_nil] at hlength
    omega
  next => cases h

end

/-! ### The transaction -/

section

variable {P : Prims} {pvm : Pvm} {sub : Submission} {st : StateMap}

variable (P pvm sub st) in
/-- The handler of a deployment on the state in which the nonce is used up, for a sender who has paid. -/
def deployHandled (payer : Account) : (Outcome × Account) × StateMap :=
  runIn P (executeDeploy P pvm sub.tx sub.ctx payer) (nonceRecorded P sub.tx st)

theorem run_executeDeploy {tx : Transaction} {ctx : BlockContext} (payer : Account) :
    runIn P (executeDeploy P pvm tx ctx payer) st =
      ((.done (runIn P (deployCode P pvm tx ctx (deriveCreateAddress P tx.fromAddress payer.nonce)) st).1
          (deriveCreateAddress P tx.fromAddress payer.nonce).toList, { payer with nonce := payer.nonce + 1 }),
        (runIn P (deployCode P pvm tx ctx (deriveCreateAddress P tx.fromAddress payer.nonce)) st).2) := by
  unfold executeDeploy
  simp only [run_bind, run_pure]

variable (P pvm sub st) in
/-- The write-back of a deployment: the value goes to the recipient of the transaction. -/
def deploySettle (payer : Account) : StateProg Receipt :=
  settle P sub.tx sub.ctx sub.stateRoot (acctAt P st sub.tx.fromAddress)
    (acctAt P st sub.tx.toAddress)
    ((acctAt P st sub.tx.toAddress).setBalance
      ((acctAt P st sub.tx.toAddress).balance + sub.tx.value))
    (deployHandled P pvm sub st payer).1

variable (P pvm sub st) in
/-- A deployment that reaches its handler with this sender. -/
structure DeployRun (payer : Account) : Prop where
  nonce : payer.nonce = (acctAt P st sub.tx.fromAddress).nonce
  authKeys : payer.authKeys = (acctAt P st sub.tx.fromAddress).authKeys
  run : runIn P (sub.program P pvm) st =
    (.ok (runIn P (deploySettle P pvm sub st payer) (deployHandled P pvm sub st payer).2).1,
      (runIn P (deploySettle P pvm sub st payer) (deployHandled P pvm sub st payer).2).2)
  handler : ∀ key ∈ writtenKeys P (executeDeploy P pvm sub.tx sub.ctx payer)
    (nonceRecorded P sub.tx st), key ∈ writtenKeys P (sub.program P pvm) st
  settled : ∀ key ∈ writtenKeys P (deploySettle P pvm sub st payer)
    (deployHandled P pvm sub st payer).2, key ∈ writtenKeys P (sub.program P pvm) st

variable (P pvm) in
/-- Once the sender is charged and the value moved, the handler runs and its answer is written back. -/
theorem perform_deploy (htype : sub.tx.txType = .deploy) {sender rcpt payer payee : Account} {charge : U128}
    {purse : Purse} (hcharge : preExecutionCharge sub.tx sender.purse sub.ctx.baseFee = .ok (charge, purse))
    (htransfer : transferFor sub.tx (sender.charged purse) rcpt = .ok (payer, payee)) :
    perform P pvm sub.native sub.tx sub.ctx sub.stateRoot sender rcpt =
      (executeDeploy P pvm sub.tx sub.ctx payer >>=
        settle P sub.tx sub.ctx sub.stateRoot sender rcpt payee) >>=
          fun receipt => pure (.ok receipt) := by
  have hdispatch : dispatch P pvm sub.native sub.tx sub.ctx payer =
      executeDeploy P pvm sub.tx sub.ctx payer := by
    unfold dispatch
    rw [htype]
  unfold perform
  unfold Account.purse at hcharge
  unfold Account.charged at htransfer
  rw [hcharge]
  dsimp only
  rw [htransfer]
  dsimp only
  rw [runHandler_eq, hdispatch]

theorem deploy_cases (htype : sub.tx.txType = .deploy) :
    (deployReached P sub st = false ∧ takesEffect (runIn P (sub.program P pvm) st).1 = false) ∨
    (deployReached P sub st = true ∧ ∃ payer, DeployRun P pvm sub st payer) := by
  unfold deployReached
  rcases admission_cases P sub.tx sub.ctx st with ⟨e, hadmission, -⟩ | ⟨used, -, huse, hadmission⟩
  · rw [hadmission]
    have hrun : runIn P (sub.program P pvm) st = (.error e, st) :=
      run_executeTransaction_of_refused hadmission
    rw [hrun]
    exact .inl ⟨rfl, rfl⟩
  rw [nonceRecorded_of_ok huse] at hadmission
  obtain ⟨hrun, hsub⟩ := run_of_admitted pvm hadmission
  rw [hadmission]
  dsimp only at hrun hsub ⊢
  rcases perform_cases P pvm sub.native sub.tx sub.ctx sub.stateRoot
      (nonceRecorded P sub.tx st) (acctAt P st sub.tx.fromAddress)
      (acctAt P st sub.tx.toAddress) with
    ⟨reason, hcharge, hperform⟩ | ⟨charge, purse, hcharge, hrest⟩
  · rw [hcharge, hrun, hperform]
    exact .inl ⟨rfl, rfl⟩
  rw [hcharge]
  rcases hrest with ⟨reason, htransfer, hperform⟩ | ⟨payer, payee, htransfer, hperform⟩
  · dsimp only
    rw [htransfer, hrun, hperform]
    exact .inl ⟨rfl, rfl⟩
  dsimp only
  rw [htransfer]
  obtain ⟨-, hpayer, hpayee⟩ := transferFor_ok htransfer
  have hvalue : sub.tx.movedValue = sub.tx.value := by
    unfold Transaction.movedValue
    rw [htype]
    rfl
  rw [hvalue] at hpayee
  have hprogram := perform_deploy P pvm htype hcharge htransfer
  rw [hpayee] at hprogram
  rw [hprogram] at hrun hsub
  refine .inr ⟨rfl, payer, ?_⟩
  refine { nonce := by rw [hpayer]; rfl, authKeys := by rw [hpayer]; rfl, run := ?_, handler := ?_, settled := ?_ }
  · rw [hrun]
    simp only [run_bind, run_pure]
    rfl
  · intro key hkey
    apply hsub
    rw [writtenKeys_bind, writtenKeys_bind]
    exact mem_append_left _ (mem_append_left _ hkey)
  · intro key hkey
    apply hsub
    rw [writtenKeys_bind, writtenKeys_bind]
    exact mem_append_left _ (mem_append_right _ hkey)

/-- The value that is credited to a record that starts from zero. -/
theorem applyDelta_zero (initial value : U128) :
    applyDelta 0 initial (initial + value) = if value.toNat < 2 ^ 127 then value else 0 := by
  have hdelta : initial + value - initial = value := by bv_omega
  unfold applyDelta
  rw [hdelta]
  dsimp only
  by_cases hsmall : value.toNat < 2 ^ 127
  · have hsign : value.msb = false := by
      rw [msb_eq_decide]
      exact decide_eq_false (by omega)
    have hfits : (0 : U128).toNat + value.toNat < 2 ^ 128 := by
      rw [ofNat_eq_ofNat, toNat_ofNat, Nat.zero_mod, Nat.zero_add]
      exact value.isLt
    rw [if_pos hsmall, hsign, if_neg (by decide), satAdd, if_pos hfits, ofNat_eq_ofNat, BitVec.zero_add]
  have hsign : value.msb = true := by
    rw [msb_eq_decide]
    exact decide_eq_true (by omega)
  have hlarge : ¬ -value ≤ (0 : U128) := by
    rw [le_def, toNat_neg]
    simp only [ofNat_eq_ofNat, toNat_ofNat]
    have := value.isLt
    omega
  rw [if_neg hsmall, hsign, if_pos rfl, satSub, if_neg hlarge]

/-- What is credited is the whole value on top of what was there. -/
theorem credited_iff {before value : U128} {credited : Prop} [Decidable credited] :
    (if credited then value else 0).toNat = before.toNat + value.toNat ↔ before = 0 ∧ (value = 0 ∨ credited) := by
  have hzero : ∀ amt : U128, amt = 0 ↔ amt.toNat = 0 := fun amt =>
    ⟨fun h => by rw [h]; rfl, fun h => eq_of_toNat_eq h⟩
  rw [hzero before, hzero value]
  split
  next h =>
    simp only [h, or_true, and_true]
    omega
  next h =>
    simp only [h, or_false]
    have hnone : (0 : U128).toNat = 0 := rfl
    rw [hnone]
    omega

variable {keys : Set StateKey} {payer : Account}

variable (P sub st) in
/-- The accounts other than the new contract that are written back. -/
def deployOthers : List Address :=
  sub.tx.fromAddress ::
    if sub.tx.toAddress = deployTarget P sub st then [] else [sub.tx.toAddress]

theorem deployOthers_mem {other : Address} (h : other ∈ deployOthers P sub st) :
    other = sub.tx.fromAddress ∨
      (other = sub.tx.toAddress ∧ sub.tx.toAddress ≠ deployTarget P sub st) := by
  unfold deployOthers at h
  rcases List.mem_cons.mp h with rfl | h
  · exact .inl rfl
  split at h
  next => cases h
  next hne => exact .inr ⟨List.mem_singleton.mp h, hne⟩

section

variable (hinj : HashApart P (deployKeys P pvm sub st))
  (hapart : TargetApart P sub st)

theorem deployKeys_installed :
    InstalledKeys (deployTarget P sub st) (deployOthers P sub st)
      (deployKeys P pvm sub st) where
  code := Or.inr (by simp)
  balance := Or.inr (by simp)
  others := by
    intro other hother
    rcases deployOthers_mem hother with rfl | ⟨rfl, -⟩
    · exact .inr (by simp)
    · exact .inr (by simp)

include hinj hapart

/-- The code is stored, in a state whose other records do not name the new address. -/
theorem installed_codeStored :
    Installed P (deployTarget P sub st) (runtimeOf sub.tx.data)
      (Account.newContract P (deployTarget P sub st) (runtimeOf sub.tx.data))
      (deployOthers P sub st) (codeStored P sub st) := by
  have hnoted : ∀ other ∈ deployOthers P sub st,
      acctAt P (nonceRecorded P sub.tx st) other = acctAt P st other := by
    intro other hother
    exact acctAt_noted hinj (.inr (by simp)) (deployKeys_installed.others other hother)
  refine installed_storeContract hinj deployKeys_installed (fun other hother => ?_) fun other hother => ?_
  · rcases deployOthers_mem hother with rfl | ⟨rfl, hne⟩
    · exact hapart.sender
    · exact hne
  · rw [hnoted other hother]
    rcases deployOthers_mem hother with rfl | ⟨rfl, hne⟩
    · exact hapart.named
    · exact hapart.recipient hne

section

variable (hrun : DeployRun P pvm sub st payer)
include hrun

/-- After the handler, the contract is installed, and the slots of a successful constructor are stored. -/
theorem installed_deployHandled :
    Installed P (deployTarget P sub st) (runtimeOf sub.tx.data)
        (Account.newContract P (deployTarget P sub st) (runtimeOf sub.tx.data))
        (deployOthers P sub st) (deployHandled P pvm sub st payer).2 ∧
      ∀ out, constructorOutput P pvm sub st = some out → out.success = true →
        ∀ contract slot value, slotValue out.storage contract slot = some value →
          .slot contract slot ∈ deployKeys P pvm sub st ∧
            (deployHandled P pvm sub st payer).2 ((StateKey.slot contract slot).hash P) = stored value := by
  have hstored := installed_codeStored hinj hapart
  have htarget : deriveCreateAddress P sub.tx.fromAddress payer.nonce = deployTarget P sub st := by
    rw [hrun.nonce]
    rfl
  have hhandled : (deployHandled P pvm sub st payer).2 =
      (runIn P (deployCode P pvm sub.tx sub.ctx (deployTarget P sub st))
        (nonceRecorded P sub.tx st)).2 := by
    rw [deployHandled, run_executeDeploy, htarget]
  have hwritten : ∀ key ∈ writtenKeys P (deployCode P pvm sub.tx sub.ctx (deployTarget P sub st))
      (nonceRecorded P sub.tx st), key ∈ deployKeys P pvm sub st := by
    intro key hkey
    refine .inl (hrun.handler key ?_)
    rw [← htarget] at hkey
    unfold executeDeploy
    dsimp only
    rw [writtenKeys_bind]
    exact mem_append_left _ hkey
  rw [hhandled]
  unfold constructorOutput
  unfold deployCode at hwritten ⊢
  cases hheader : deployHeader sub.tx.data with
  | none =>
    have hruntime : runtimeOf sub.tx.data = sub.tx.data := by
      unfold runtimeOf
      rw [hheader]
    refine ⟨?_, nofun⟩
    unfold codeStored at hstored
    rw [hruntime] at hstored ⊢
    exact hstored
  | some lengths =>
    obtain ⟨constructorLen, runtimeLen⟩ := lengths
    have hruntime : runtimeOf sub.tx.data = slice sub.tx.data (8 + constructorLen) runtimeLen := by
      unfold runtimeOf
      rw [hheader]
    rw [hheader] at hwritten
    dsimp only at hwritten ⊢
    rw [← hruntime] at hwritten ⊢
    rw [writtenKeys_bind, writtenKeys_bind] at hwritten
    have hconstructor := installed_executeInPvm hinj deployKeys_installed (runtimeOf_ne_nil hheader) hstored
      fun key hkey => hwritten key (mem_append_right _ (mem_append_left _ hkey))
    simp only [run_bind, run_pure]
    refine ⟨hconstructor.1, fun out hout hsuccess => ?_⟩
    cases hout
    exact hconstructor.2 hsuccess

theorem deployed_end :
    (runIn P (sub.program P pvm) st).2 (codeKey P (deployTarget P sub st)) =
        stored (runtimeOf sub.tx.data) ∧
      (acctAt P (runIn P (sub.program P pvm) st).2 (deployTarget P sub st)).balance =
        if sub.tx.toAddress = deployTarget P sub st ∧ sub.tx.value.toNat < 2 ^ 127 then
          sub.tx.value else 0 := by
  obtain ⟨hinstalled, -⟩ := installed_deployHandled hinj hapart hrun
  have hwritten := hrun.settled
  rw [hrun.run]
  dsimp only
  unfold deploySettle settle at hwritten ⊢
  rw [writtenKeys_bind, writtenKeys_bind] at hwritten
  simp only [run_bind, run_pure]
  have hauth : (refundSender sub.tx sub.ctx (deployHandled P pvm sub st payer).1.2
      (deployHandled P pvm sub st payer).1.1).1.authKeys =
        (acctAt P st sub.tx.fromAddress).authKeys := by
    rw [authKeys_refundSender, ← hrun.authKeys, deployHandled, run_executeDeploy]
  have hsender := hinstalled.after_applyAccountDelta hinj deployKeys_installed mem_cons_self hauth
    fun key hkey => Or.inl (hwritten key (mem_append_left _ hkey))
  set paid := (runIn P (applyAccountDelta sub.tx.fromAddress (acctAt P st sub.tx.fromAddress)
    (refundSender sub.tx sub.ctx (deployHandled P pvm sub st payer).1.2
      (deployHandled P pvm sub st payer).1.1).1) (deployHandled P pvm sub st payer).2).2 with hpaid
  by_cases hto : sub.tx.toAddress = deployTarget P sub st
  · -- the value is credited to the record that was just made
    have hfiled : Filed P paid sub.tx.toAddress := by
      unfold Filed
      rw [hto, hsender.record]
      rfl
    have hstorable : ((acctAt P paid sub.tx.toAddress).deltaApplied
        (acctAt P st sub.tx.toAddress)
        ((acctAt P st sub.tx.toAddress).setBalance
          ((acctAt P st sub.tx.toAddress).balance + sub.tx.value))).authKeys.Storable := by
      simp only [Account.deltaApplied, Account.setBalance, ne_eq, not_true_eq_false, if_false]
      exact storable_acctAt P paid _
    simp only [run_applyAccountDelta hfiled]
    rw [← hto]
    refine ⟨?_, ?_⟩
    · rw [← hsender.code, ← hto]
      refine insert_record_of_ne (fun heq => ?_) _ _
      cases hinj (.inr (by simp [hto])) (.inr (by simp)) heq
    · rw [acctAt_insert_self hstorable]
      have hzero : (acctAt P paid sub.tx.toAddress).balance = 0 := by
        rw [hto, hsender.record]
        rfl
      simp only [Account.deltaApplied, Account.setBalance, hzero, applyDelta_zero, true_and]
  · have hmember : sub.tx.toAddress ∈ deployOthers P sub st := by
      unfold deployOthers
      rw [if_neg hto]
      exact mem_cons_of_mem _ mem_cons_self
    have hend : Installed P (deployTarget P sub st) (runtimeOf sub.tx.data)
        (Account.newContract P (deployTarget P sub st) (runtimeOf sub.tx.data))
        (deployOthers P sub st)
        (runIn P (applyAccountDelta sub.tx.toAddress (acctAt P st sub.tx.toAddress)
          ((acctAt P st sub.tx.toAddress).setBalance
            ((acctAt P st sub.tx.toAddress).balance + sub.tx.value))) paid).2 :=
      hsender.after_applyAccountDelta hinj deployKeys_installed hmember rfl
        fun key hkey => Or.inl (hwritten key (mem_append_right _ (mem_append_left _ hkey)))
    refine ⟨hend.code, ?_⟩
    rw [hend.record, if_neg (fun h => hto h.1)]
    rfl

theorem deployed_slot {out : PvmOutput} (hout : constructorOutput P pvm sub st = some out)
    (hsuccess : out.success = true) {contract : Address} {slot value : Bytes}
    (hvalue : slotValue out.storage contract slot = some value) :
    (runIn P (sub.program P pvm) st).2 ((StateKey.slot contract slot).hash P) = stored value := by
  obtain ⟨hslot, hstored⟩ := (installed_deployHandled hinj hapart hrun).2 out hout hsuccess contract slot value hvalue
  have hsame : SameSystem P (deployKeys P pvm sub st) (deployHandled P pvm sub st payer).2
      (runIn P (deploySettle P pvm sub st payer) (deployHandled P pvm sub st payer).2).2 :=
    sameSystem_of_writes (writesRecord_settle _ _ _ _) hinj fun key hkey => Or.inl (hrun.settled key hkey)
  rw [hrun.run, ← hstored]
  exact hsame _ hslot (by rintro ⟨_, heq | heq⟩ <;> cases heq)

end

end

theorem deploy_succeeds (hrun : DeployRun P pvm sub st payer) :
    takesEffect (runIn P (sub.program P pvm) st).1 = true := by
  rw [hrun.run]
  unfold takesEffect deploySettle
  dsimp only
  rw [success_settle, deployHandled, run_executeDeploy]
  rfl

end

/-- A deployment is safe exactly if it is turned away before its handler, or its constructor succeeds, nothing was at
the derived address, and the value, if any, is sent there. -/
theorem deployment_safe_iff (P : Prims) (pvm : Pvm) (sub : Submission) (st : StateMap)
    (htype : sub.tx.txType = .deploy)
    (hkeys : P.CollisionFreeOn (StateKey.preimage '' deployKeys P pvm sub st))
    (hapart : TargetApart P sub st) :
    DeploymentSafe P pvm sub st ↔
      (deployReached P sub st = true → Deployable P pvm sub st) := by
  have hinj := StateKey.injOn_hash hkeys
  rcases deploy_cases htype with ⟨hreached, hfailed⟩ | ⟨hreached, payer, hrun⟩
  · have hno : ¬ takesEffect (runIn P (sub.program P pvm) st).1 = true := by
      rw [hfailed]
      decide
    refine ⟨fun _ h => absurd h (by rw [hreached]; decide), fun _ => ?_⟩
    exact
      { constructed := fun h => absurd h hno
        code := fun h => absurd h hno
        storage := fun h => absurd h hno
        fresh := fun h => absurd h hno
        balance := fun h => absurd h hno
        failing := fun h => absurd h (by rw [hreached]; decide) }
  · have hsuccess := deploy_succeeds hrun
    obtain ⟨hcode, hbalance⟩ := deployed_end hinj hapart hrun
    constructor
    · intro hsafe _
      have hsum := hsafe.balance hsuccess
      rw [hbalance] at hsum
      obtain ⟨hunfunded, hvalue⟩ := credited_iff.mp hsum
      exact
        { constructed := hsafe.constructed hsuccess
          fresh := hsafe.fresh hsuccess
          unfunded := hunfunded
          value := hvalue }
    · intro hdeployable
      have hall := hdeployable hreached
      refine
        { constructed := fun _ => hall.constructed
          code := fun _ => hcode
          storage := fun _ out hout contract slot value hvalue =>
            deployed_slot hinj hapart hrun hout (hall.constructed out hout) hvalue
          fresh := fun _ => hall.fresh
          balance := fun _ => ?_
          failing := fun _ out hout hfailed => ?_ }
      · rw [hbalance]
        exact credited_iff.mpr ⟨hall.unfunded, hall.value⟩
      · rw [hall.constructed out hout] at hfailed
        cases hfailed

/-! ### A small deployment -/

/-- One byte of constructor, one byte of runtime code. -/
def smallDeployment : Submission :=
  { tx :=
      { fromAddress := fill32 1, toAddress := zero32, value := 0,
        data := toLe (1 : U32) ++ (toLe (1 : U32) ++ [0xaa, 0xbb]), gasLimit := 100000, nonce := 0, signature := [],
        feePayer := .sender, accessList := [], deadline := none, chainId := 1, txType := .deploy }
    ctx :=
      { height := 1, timestamp := 0, baseFee := 1, blockGasLimit := gasTarget, chainId := 1, devSkipSignature := false,
        blockSigsPreVerified := true }
    native := false
    stateRoot := zero32 }

/-- A funded sender with a registered key. -/
def deployerState : StateMap :=
  StateProgram.insert stored (fun _ => none) (balanceKey lucid (fill32 1))
    { Account.empty (fill32 1) with balance := 1000000, authKeys := .single (lucidKey 7) }.toBytes

def smallDeploymentKeys : List StateKey :=
  [.account (fill32 1) .nonce, .account (fill32 1) .balance, .account zero32 .balance,
    .account (deployTarget lucid smallDeployment deployerState) .balance,
    .account (deployTarget lucid smallDeployment deployerState) .code]

theorem smallDeployment_keys_distinct : lucid.CollisionFreeOn
    (StateKey.preimage '' deployKeys lucid idlePvm smallDeployment deployerState) := by
  refine collisionFreeOn_of_listed smallDeploymentKeys (by decide +kernel) ?_
  rintro key (hkey | hkey)
  · revert key
    decide +kernel
  · exact hkey

theorem small_deployment_safe :
    takesEffect (runIn lucid (smallDeployment.program lucid idlePvm) deployerState).1 = true ∧
      DeploymentSafe lucid idlePvm smallDeployment deployerState := by
  have hconstructed : ∀ out, constructorOutput lucid idlePvm smallDeployment deployerState = some out →
      out.success = true := by
    intro out hout
    cases hout
    rfl
  have hdeployable : Deployable lucid idlePvm smallDeployment deployerState :=
    { constructed := hconstructed, fresh := by decide +kernel, unfunded := by decide +kernel, value := Or.inl rfl }
  have hapart : TargetApart lucid smallDeployment deployerState :=
    { sender := by decide +kernel, named := by decide +kernel, recipient := fun _ => by decide +kernel }
  exact ⟨by decide +kernel, (deployment_safe_iff lucid idlePvm smallDeployment deployerState rfl
    smallDeployment_keys_distinct hapart).mpr fun _ => hdeployable⟩

/-- The constructor fails, but the receipt says success and the code stays. -/
theorem failing_constructor_deploys :
    (constructorOutput lucid revertingPvm smallDeployment deployerState).map PvmOutput.success = some false ∧
      takesEffect (runIn lucid (smallDeployment.program lucid revertingPvm) deployerState).1 = true ∧
      (runIn lucid (smallDeployment.program lucid revertingPvm) deployerState).2
        (codeKey lucid (deployTarget lucid smallDeployment deployerState)) = some [0xbb] := by
  decide +kernel

end Pyde
