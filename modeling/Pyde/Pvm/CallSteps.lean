/-
Module: Pyde.Pvm.CallSteps
Purpose: Rules for the instructions that run a frame below: which changes a call or a creation makes to the frame it
  is made from, and what the new frame starts with; all that has to be shown of an instruction, collected.
Trusted boundary: none
-/
import Pyde.Pvm.Storage

namespace Pyde.PVM

open ByteCodec StateProgram Fallible

variable {oracle : StateKey → Option Bytes}

/-! ### Starting a frame -/

theorem still_load (code : Bytes) : Moves oracle Still Still (load code) := by
  have hchange : ∀ {f : Vm → Vm}, (∀ s, Still s (f s)) → Moves oracle Still Still
      (change f : VmM Unit) := Moves.change
  have hmemory : ∀ {p : MemM Unit}, KeepsSane oracle p → Moves oracle Still Still (onMemory p) := by
    intro p hp
    constructor
    intro s
    have hstill := exec_onMemory hp s
    revert hstill
    rcases (onMemory p).exec oracle s with ⟨_ | _, s'⟩
    · exact fun hstill => hstill
    · exact fun hstill => hstill
  apply Moves.bind still_composable (hmemory (.loadCode code))
  intro _
  refine .bind still_composable (hchange fun s => ⟨rfl, rfl, rfl, fun h => h⟩) fun _ => ?_
  apply Moves.bind still_composable (.state still_composable)
  intro vm
  split
  · exact .pure still_composable _
  split
  · exact .fail still_composable _
  apply Moves.bind still_composable (hmemory (.checkedWriteSlice _ _))
  intro _
  refine .bind still_composable (hchange fun s => ⟨rfl, rfl, rfl, fun h => ⟨h.pages, h.ranges⟩⟩) fun _ => ?_
  refine .bind still_composable (hchange fun s => ⟨rfl, rfl, rfl, fun h => h⟩) fun _ => ?_
  exact hchange fun s => ⟨rfl, rfl, rfl, fun h => h⟩

/-- The first frame of a transaction is as it was made, but for its registers and its memory. -/
theorem outermost_still (gasLimit : U64) (ctx : ExecutionContext) (calldata code : Bytes) :
    Still { Vm.withGasLimitAndContext gasLimit ctx with calldata := calldata }
      (outermost gasLimit ctx calldata code) := by
  have hstill : Moves (fun _ => none) Still Still (load code) := still_load code
  have hload := hstill.after { Vm.withGasLimitAndContext gasLimit ctx with calldata := calldata }
  unfold outermost
  revert hload
  rcases (load code).exec (fun _ => none) { Vm.withGasLimitAndContext gasLimit ctx with calldata := calldata } with
    ⟨_ | _, vm⟩
  · exact fun hload => hload
  · exact fun hload => hload

theorem load_ok {frame : Vm} {code : Bytes} (hcode : codeStart.toNat + code.length ≤ codeEndLimit.toNat)
    (hcalldata : heapStart.toNat + frame.calldata.length ≤ memorySize) :
    ∃ loaded, (load code).exec oracle frame = (.ok (), loaded) := by
  have hheap : heapStart.toNat = 0x10000 := rfl
  have hsize : memorySize = 0x400000 := rfl
  have hloadCode : ∃ memory, (onMemory (Memory.loadCode code)).exec oracle frame =
      (.ok (), { frame with memory := memory }) := by
    rw [onMemory, exec_zoom, Memory.loadCode, if_neg (Nat.not_lt.2 hcode)]
    exact ⟨_, rfl⟩
  obtain ⟨memory, hloaded⟩ := hloadCode
  rw [load, exec_bind_ok oracle hloaded, exec_bind_ok oracle (exec_change oracle _ _),
    exec_bind_ok oracle (exec_state oracle _)]
  split
  · exact ⟨_, rfl⟩
  rename_i hdata
  change frame.calldata ≠ [] at hdata
  change heapStart.toNat + frame.calldata.length ≤ memorySize at hcalldata
  rw [if_neg (by change ¬ memorySize - heapStart.toNat < frame.calldata.length; omega)]
  have hwrite : ∀ t : Vm, ∃ memory, (onMemory (Memory.checkedWriteSlice heapStart frame.calldata)).exec oracle t =
      (.ok (), { t with memory := memory }) := by
    intro t
    have hlen : (BitVec.ofNat 32 frame.calldata.length).toNat = frame.calldata.length := by
      rw [BitVec.toNat_ofNat, Nat.mod_eq_of_lt]
      omega
    rw [onMemory, exec_zoom, Memory.checkedWriteSlice, if_neg hdata, if_neg (by omega), Memory.storeBytes,
      Memory.checkAccess, if_neg (by decide), if_neg (by rw [hlen]; omega),
      exec_bind_ok oracle (exec_change oracle _ _), Memory.checkWritable, if_neg (by decide)]
    exact ⟨_, rfl⟩
  obtain ⟨memory', hwritten⟩ := hwrite _
  rw [exec_bind_ok oracle hwritten]
  exact ⟨_, rfl⟩

theorem after_loadChild (frame : Vm) (code : Bytes) (t : Vm) :
    After (fun child t' => t' = t ∧ Still frame child)
      (fun _ t' => t' = t ∧ ∀ loaded, (load code).exec oracle frame ≠ (.ok (), loaded))
      ((loadChild frame code).exec oracle t) := by
  have hstill : Moves oracle Still Still (load code) := still_load code
  have hload := hstill.after frame
  rw [loadChild, exec_bind_ok oracle (exec_lift oracle _ _)]
  rw [exec] at hload
  cases hrun : (load code frame).answer oracle with
  | mk res child =>
    rw [hrun] at hload
    cases res with
    | error e =>
      refine ⟨rfl, fun loaded hok => ?_⟩
      rw [exec, hrun] at hok
      cases hok
    | ok _ => exact ⟨rfl, hload⟩

/-- The code that a call would run. -/
def Vm.calledCode (oracle : StateKey → Option Bytes) (vm : Vm) (d : DecodedInstruction) : Option Bytes := do
  let target ← (vm.cpu.readWideChecked d.rd).toOption
  (vm.contracts.lookup (wordBytes target)).or (oracle (.account (wordBytes target) .code))

/-- Code and calldata of a call fit into the memory of the frame below. -/
def Vm.CallFits (oracle : StateKey → Option Bytes) (vm : Vm) (d : DecodedInstruction) : Prop :=
  ∀ code ∈ vm.calledCode oracle d, codeStart.toNat + code.length ≤ codeEndLimit.toNat ∧
    heapStart.toNat + (vm.cpu.readGp (regAt d.rs2OrImm 0)).toNat ≤ memorySize

instance (oracle : StateKey → Option Bytes) (vm : Vm) (d : DecodedInstruction) : Decidable (vm.CallFits oracle d) :=
  inferInstanceAs (Decidable (∀ code ∈ vm.calledCode oracle d, _))

/-- A calling frame when the callee's code has been looked up: code of the state may have been kept. -/
structure Fetched (oracle : StateKey → Option Bytes) (s t : Vm) : Prop where
  same : ∃ memory contracts, t = { s with memory := memory, contracts := contracts }
  sane : s.memory.Sane → t.memory.Sane
  contracts : t.contracts = s.contracts ∨ ∃ addr code, s.contracts.lookup addr = none ∧
    oracle (.account addr .code) = some code ∧ t.contracts = s.contracts.insert addr code

/-- A frame that a call starts: `t` is the calling frame when its overlay is moved out. -/
structure CallSpawned (oracle : StateKey → Option Bytes) (d : DecodedInstruction) (isStatic isDelegate : Bool)
    (s t child : Vm) : Prop where
  fetched : Fetched oracle s t
  shallow : s.extCallDepth < maxExtCallDepth
  frame : ∃ target ctx requested calldata, s.cpu.readWideChecked d.rd = .ok target ∧
    calleeContext d isDelegate (wordBytes target) t = some ctx ∧
      Still (calleeFrame t ctx (t.forwarded requested) (isStatic || bitAt d.rs2OrImm 12) calldata) child

theorem after_lookupCode (addr : Address) (t : Vm) :
    After (fun answer t' => answer = (t.contracts.lookup addr).or (oracle (.account addr .code)) ∧
        (t' = t ∨ ∃ code, t.contracts.lookup addr = none ∧ oracle (.account addr .code) = some code ∧
          t' = { t with contracts := t.contracts.insert addr code }))
      (fun _ _ => False) ((lookupCode addr).exec oracle t) := by
  rw [lookupCode, exec_bind_ok oracle (exec_state oracle t)]
  cases hlookup : t.contracts.lookup addr with
  | some code => exact ⟨rfl, .inl rfl⟩
  | none =>
    dsimp only
    rw [exec_bind_ok oracle (exec_ask oracle _ _)]
    cases hanswer : oracle (.account addr .code) with
    | some code => exact ⟨rfl, .inr ⟨code, rfl, rfl, rfl⟩⟩
    | none => exact ⟨rfl, .inl rfl⟩

/-- `do_ext_call` up to the frame: code is kept, and the overlay is moved out. If the code cannot be loaded, the
overlay is lost. -/
theorem after_spawnCall {d : DecodedInstruction} {isStatic isDelegate : Bool} {s : Vm} :
    After (fun answer t => match answer with
        | none => Fetched oracle s t
        | some child => ∃ t₀, t = { t₀ with storage := ∅ } ∧
          CallSpawned oracle d isStatic isDelegate s t₀ child)
      (fun _ t => ∃ t₀, Fetched oracle s t₀ ∧
        (t = t₀ ∨ t = { t₀ with storage := ∅ } ∧ ¬ s.CallFits oracle d))
      ((spawnCall d isStatic isDelegate).exec oracle s) := by
  have hself : Fetched oracle s s := ⟨⟨s.memory, s.contracts, rfl⟩, fun h => h, .inl rfl⟩
  rw [spawnCall, exec_bind_ok oracle (exec_state oracle s)]
  by_cases hdeep : maxExtCallDepth ≤ s.extCallDepth
  · rw [if_pos hdeep]
    exact ⟨s, hself, .inl rfl⟩
  rw [if_neg hdeep, readWideChecked]
  cases htarget : s.cpu.readWideChecked d.rd with
  | error e =>
    simp only [exec_bind, exec_state, htarget, Fallible.ofExcept, exec_fail]
    exact ⟨s, hself, .inl rfl⟩
  | ok target =>
    have hread : (do let vm ← state; Fallible.ofExcept (vm.cpu.readWideChecked d.rd) : VmM U256).exec oracle s =
        (.ok target, s) := by
      simp only [exec_bind, exec_state, htarget, Fallible.ofExcept, exec_pure]
    rw [exec_bind_ok oracle hread, exec_bind_ok oracle (exec_readGp _ _), exec_bind_ok oracle (exec_readGp _ _),
      exec_bind_ok oracle (exec_readGp _ _)]
    apply After.bind ((after_readSlice _ _ s).mono (fun _ _ hdata => hdata) ?_)
    · rintro calldata t ⟨⟨memory, rfl, hsane⟩, -, hcalldata⟩
      apply After.bind ((after_lookupCode _ _).mono (fun _ _ hcode => hcode) fun _ _ hfalse => hfalse.elim)
      rintro answer t ⟨hanswer, hkept⟩
      have hfetched : ∃ contracts, t = { s with memory := memory, contracts := contracts } ∧
          Fetched oracle s t := by
        rcases hkept with rfl | ⟨code, hunknown, hstate, rfl⟩
        · exact ⟨_, rfl, ⟨_, _, rfl⟩, hsane, .inl rfl⟩
        · exact ⟨_, rfl, ⟨_, _, rfl⟩, hsane, .inr ⟨_, code, hunknown, hstate, rfl⟩⟩
      obtain ⟨contracts, rfl, hfetched⟩ := hfetched
      cases answer with
      | none => exact hfetched
      | some code =>
        rw [exec_bind_ok oracle (exec_state oracle _)]
        cases hctx : calleeContext d isDelegate (wordBytes target)
          { s with memory := memory, contracts := contracts } with
        | none => exact hfetched
        | some ctx =>
          dsimp only
          rw [exec_bind_ok oracle (exec_change oracle _ _)]
          apply After.bind ((after_loadChild _ code _).mono (fun _ _ hchild => hchild) ?_)
          · rintro child _ ⟨rfl, hchild⟩
            exact ⟨_, rfl, hfetched, by omega, target, ctx, _, calldata, htarget, hctx, hchild⟩
          · rintro e _ ⟨rfl, hfailed⟩
            refine ⟨_, hfetched, .inr ⟨rfl, fun hfits => ?_⟩⟩
            have hcode : s.calledCode oracle d = some code := by
              rw [Vm.calledCode, htarget]
              exact hanswer.symm
            obtain ⟨hlen, hdata⟩ := hfits code hcode
            have hlength : calldata.length = (s.cpu.readGp (regAt d.rs2OrImm 0)).toNat := by
              rw [hcalldata, Memory.readSlice, List.length_map, List.length_range]
            exact not_exists.2 hfailed (load_ok hlen (by rw [← hlength] at hdata; exact hdata))
    · rintro e t ⟨memory, rfl, hsane⟩
      exact ⟨_, ⟨⟨memory, s.contracts, rfl⟩, hsane, .inl rfl⟩, .inl rfl⟩

/-! ### Starting a constructor -/

def Vm.initCode (vm : Vm) (d : DecodedInstruction) : Bytes :=
  vm.memory.readSlice ((vm.cpu.readGp d.rs1).setWidth 32 : U32).toNat (vm.cpu.readGp (regAt d.rs2OrImm 0)).toNat

/-- The address a creation leads to. -/
def Vm.createdAddress (P : Prims) (vm : Vm) (d : DecodedInstruction) : Address :=
  createAddress P vm.ctx.selfAddress vm.ctx.txHash vm.createCount (vm.initCode d)

/-- A creation under way: `t` is the creating frame when the creation data has been read. -/
structure CreationBegun (s t : Vm) (creation : Creation) : Prop where
  same : ∃ memory, t = { s with memory := memory }
  sane : s.memory.Sane → t.memory.Sane
  shallow : s.extCallDepth < maxExtCallDepth
  rest : ∃ ctx, s.ctx.enter creation.address s.carriedValue = some ctx ∧ match creation.rest with
    | .inl child => ∃ args, Still (constructorFrame t ctx args) child
    | .inr balances => balances = ctx.balances

/-- `do_create` up to the constructor: the creation data is read and the creation is counted. -/
theorem after_beginCreate {P : Prims} {d : DecodedInstruction} {s : Vm} :
    After (fun creation t => ∃ t₀, t = t₀.countCreation ∧ CreationBegun s t₀ creation)
      (fun _ t => ∃ memory, (s.memory.Sane → memory.Sane) ∧
        (t = { s with memory := memory } ∨ t = { s with memory := memory }.countCreation))
      ((beginCreate P d).exec oracle s) := by
  rw [beginCreate, exec_bind_ok oracle (exec_state oracle s)]
  by_cases hdeep : maxExtCallDepth ≤ s.extCallDepth
  · rw [if_pos hdeep]
    exact ⟨s.memory, fun h => h, .inl rfl⟩
  rw [if_neg hdeep, exec_bind_ok oracle (exec_readGp _ _), exec_bind_ok oracle (exec_readGp _ _)]
  apply After.bind ((after_readSlice _ _ s).mono (fun _ _ hdata => hdata) ?_)
  · rintro initCode t ⟨⟨memory, rfl, hsane⟩, -, rfl⟩
    rw [exec_bind_ok oracle (exec_state oracle _)]
    split
    · exact ⟨memory, hsane, .inl rfl⟩
    dsimp only
    rw [exec_bind_ok oracle (exec_change oracle _ _)]
    split
    · exact ⟨memory, hsane, .inr rfl⟩
    split
    · exact ⟨memory, hsane, .inr rfl⟩
    rename_i ctx henter
    have hbegun : ∀ rest, (match rest with
          | .inl child => ∃ args, Still (constructorFrame { s with memory := memory } ctx args) child
          | .inr balances => balances = ctx.balances) → CreationBegun s { s with memory := memory }
          { address := s.createdAddress P d
            runtime := (splitInitCode (s.initCode d)).runtime
            rest := rest } := fun rest hrest =>
      ⟨⟨memory, rfl⟩, hsane, by omega, ctx, henter, hrest⟩
    split
    · exact ⟨_, rfl, hbegun _ rfl⟩
    rename_i code hcode
    apply After.bind ((after_loadChild _ code _).mono (fun _ _ hchild => hchild) ?_)
    · rintro child _ ⟨rfl, hchild⟩
      exact ⟨_, rfl, hbegun _ ⟨_, hchild⟩⟩
    · rintro e _ ⟨rfl, _⟩
      exact ⟨memory, hsane, .inr rfl⟩
  · rintro e t ⟨memory, rfl, hsane⟩
    exact ⟨memory, hsane, .inl rfl⟩

/-! ### After a frame below -/

/-- Taking over balances changes balances and their journal only. -/
theorem Vm.mergeBalances_eq (vm : Vm) (balances : Table Address U256) :
    ∃ merged journal keys, vm.mergeBalances balances =
      { vm with
        ctx := { vm.ctx with balances := merged }
        balanceJournal := journal
        balanceJournalKeys := keys } := by
  unfold Vm.mergeBalances
  induction balances.entries using List.reverseRecOn with
  | nil => exact ⟨_, _, _, rfl⟩
  | append_singleton entries entry ih =>
    obtain ⟨merged, journal, keys, heq⟩ := ih
    rw [List.foldl_concat, heq]
    unfold mergeBalance Vm.journalBalance
    split
    · exact ⟨_, _, _, rfl⟩
    dsimp only
    split
    · exact ⟨_, _, _, rfl⟩
    · exact ⟨_, _, _, rfl⟩

theorem foldl_adoptEntry_eq (entries : List (U256 × Option Bytes)) (vm : Vm) :
    ∃ journal keys, entries.foldl adoptEntry vm =
      { vm with storageJournal := journal, storageJournalKeys := keys } := by
  induction entries using List.reverseRecOn with
  | nil => exact ⟨_, _, rfl⟩
  | append_singleton entries entry ih =>
    obtain ⟨journal, keys, heq⟩ := ih
    rw [List.foldl_concat, heq]
    unfold adoptEntry
    split
    · exact ⟨_, _, rfl⟩
    · exact ⟨_, _, rfl⟩

/-- Taking over an overlay changes overlay, journal and what has been touched. -/
theorem Vm.mergeStorage_eq (vm child : Vm) :
    ∃ storage journal keys, vm.mergeStorage child =
      { vm with storage := storage, storageJournal := journal, storageJournalKeys := keys }.mergeAccessed child := by
  have hfold : ∃ storage journal keys, child.storage.entries.foldl mergeStored vm =
      { vm with storage := storage, storageJournal := journal, storageJournalKeys := keys } := by
    induction child.storage.entries using List.reverseRecOn with
    | nil => exact ⟨_, _, _, rfl⟩
    | append_singleton entries entry ih =>
      obtain ⟨storage, journal, keys, heq⟩ := ih
      obtain ⟨_, _, hjournal⟩ := Vm.journalStorage_eq _ entry.1
      rw [List.foldl_concat, heq, mergeStored, hjournal]
      exact ⟨_, _, _, rfl⟩
  obtain ⟨storage, journal, keys, heq⟩ := hfold
  exact ⟨storage, journal, keys, by rw [Vm.mergeStorage, heq]⟩

/-- What of a frame the end of a frame below leaves alone. -/
structure Undisturbed (t t' : Vm) : Prop where
  gasLimit : t'.gasLimit = t.gasLimit
  gasUsedTotal : t'.gasUsedTotal = t.gasUsedTotal
  memory : t'.memory = t.memory
  contracts : t'.contracts = t.contracts
  extCallDepth : t'.extCallDepth = t.extCallDepth
  allowed : t'.allowedStorageKeys = t.allowedStorageKeys
  createCounter : t'.createCounter = t.createCounter
  ctx : ∃ balances, t'.ctx = { t.ctx with balances := balances }
  trace : t'.trace = t.trace
  staticMode : t'.staticMode = t.staticMode

theorem Vm.mergeBalances_undisturbed (vm : Vm) (balances : Table Address U256) :
    Undisturbed vm (vm.mergeBalances balances) := by
  obtain ⟨merged, journal, keys, heq⟩ := vm.mergeBalances_eq balances
  rw [heq]
  exact ⟨rfl, rfl, rfl, rfl, rfl, rfl, rfl, ⟨merged, rfl⟩, rfl, rfl⟩

theorem Vm.mergeStorage_undisturbed (vm child : Vm) : Undisturbed vm (vm.mergeStorage child) := by
  obtain ⟨storage, journal, keys, heq⟩ := vm.mergeStorage_eq child
  rw [heq]
  exact ⟨rfl, rfl, rfl, rfl, rfl, rfl, rfl, ⟨vm.ctx.balances, rfl⟩, rfl, rfl⟩

section

variable (vm : Vm) (isDelegate : Bool) (output : ExecutionOutput) (child : Vm)

theorem Vm.settle_undisturbed : Undisturbed vm (vm.settle isDelegate output child) := by
  unfold Vm.settle Vm.absorb
  obtain ⟨journal, keys, hadopt⟩ := foldl_adoptEntry_eq child.storageJournal vm
  split
  · rw [hadopt]
    dsimp only
    split
    · exact ⟨rfl, rfl, rfl, rfl, rfl, rfl, rfl, ⟨vm.ctx.balances, rfl⟩, rfl, rfl⟩
    obtain ⟨merged, bj, bk, heq⟩ := Vm.mergeBalances_eq
      { vm with storage := child.storage, storageJournal := journal, storageJournalKeys := keys } child.ctx.balances
    rw [heq]
    exact ⟨rfl, rfl, rfl, rfl, rfl, rfl, rfl, ⟨merged, rfl⟩, rfl, rfl⟩
  · exact ⟨rfl, rfl, rfl, rfl, rfl, rfl, rfl, ⟨vm.ctx.balances, rfl⟩, rfl, rfl⟩

theorem Vm.settle_gasRefund :
    (vm.settle isDelegate output child).gasRefund =
      if output.outcome = .success then vm.gasRefund + output.gasRefund else vm.gasRefund := by
  unfold Vm.settle Vm.absorb
  obtain ⟨journal, keys, hadopt⟩ := foldl_adoptEntry_eq child.storageJournal vm
  split
  · rw [hadopt]
    dsimp only
    split
    · rfl
    obtain ⟨_, _, _, heq⟩ := Vm.mergeBalances_eq
      { vm with storage := child.storage, storageJournal := journal, storageJournalKeys := keys } child.ctx.balances
    rw [heq]
    rfl
  · rfl

end

theorem after_account {amt : U64} {accepted refused : List Event} {t : Vm} {post bad : Vm → Prop}
    (hover : 2 ^ 64 ≤ t.gasUsedTotal.toNat + amt.toNat → bad t)
    (hrefused : ∀ total : U64, total.toNat = t.gasUsedTotal.toNat + amt.toNat → 0 < t.gasLimit →
      t.gasLimit < total → bad { t with gasUsedTotal := total, trace := t.trace ++ refused })
    (hpaid : ∀ total : U64, total.toNat = t.gasUsedTotal.toNat + amt.toNat →
      (t.gasLimit = 0 ∨ total ≤ t.gasLimit) →
        post { t with gasUsedTotal := total, trace := t.trace ++ accepted }) :
    After (fun _ => post) (fun e t' => e = .outOfGas ∧ bad t') ((account amt accepted refused).exec oracle t) := by
  rw [account, exec_bind_ok oracle (exec_state oracle t)]
  cases hadd : checkedAdd t.gasUsedTotal amt with
  | none => exact ⟨rfl, hover (le_of_checkedAdd_none hadd)⟩
  | some total =>
    have htotal := (checkedAdd_some hadd).2
    dsimp only
    by_cases hlimit : 0 < t.gasLimit ∧ t.gasLimit < total
    · rw [if_pos hlimit, exec_bind_ok oracle (exec_change oracle _ _)]
      exact ⟨rfl, hrefused total htotal hlimit.1 hlimit.2⟩
    rw [if_neg hlimit]
    apply hpaid total htotal
    by_cases hzero : t.gasLimit = 0
    · exact .inl hzero
    · exact .inr (BitVec.not_lt.1 fun hlt => hlimit ⟨(BitVec.pos_iff_ne_zero _).2 hzero, hlt⟩)

/-- What a frame below has used is charged without a record: its own charges are on its record. -/
theorem after_chargeChild {amt : U64} {t : Vm} {post bad : Vm → Prop}
    (hover : 2 ^ 64 ≤ t.gasUsedTotal.toNat + amt.toNat → bad t)
    (hrefused : ∀ total : U64, total.toNat = t.gasUsedTotal.toNat + amt.toNat → 0 < t.gasLimit →
      t.gasLimit < total → bad { t with gasUsedTotal := total })
    (hpaid : ∀ total : U64, total.toNat = t.gasUsedTotal.toNat + amt.toNat →
      (t.gasLimit = 0 ∨ total ≤ t.gasLimit) → post { t with gasUsedTotal := total }) :
    After (fun _ => post) (fun e t' => e = .outOfGas ∧ bad t') ((chargeChild amt).exec oracle t) :=
  after_account hover (by simpa using hrefused) (by simpa using hpaid)

@[simp] theorem exec_note (events : List Event) (s : Vm) :
    (note events).exec oracle s = (.ok (), { s with trace := s.trace ++ events }) := rfl

theorem isLocal_deliverReturned (data : Bytes) : IsLocal oracle (deliverReturned data) := by
  unfold deliverReturned
  split
  · exact .pure _
  split
  · apply IsLocal.bind (.readGp _)
    intro heap
    apply IsLocal.bind (.attemptMemory (.checkedWriteSlice _ _))
    intro res
    split
    · exact .bind (.writeGp _ _) fun _ => .writeGp _ _
    · exact .bind (.writeGp _ _) fun _ => .writeGp _ _
  · exact .bind (.writeGp _ _) fun _ => .writeGp _ _

theorem isLocal_acceptCall (d : DecodedInstruction) (res : CallResult) : IsLocal oracle (acceptCall d res) :=
  .bind (.writeGp _ _) fun _ => .bind (isLocal_deliverReturned _) fun _ =>
    .bind (.change (fun _ => rfl) (fun _ => rfl) (fun _ => rfl) fun _ h => h) fun _ => .advance

namespace KeptLocally

variable {holds bad : Vm → Prop} (h : KeptLocally holds bad) {d : DecodedInstruction} {t : Vm}

include h

/-- The last part of a creation. It fails for want of gas only. -/
theorem deploy {addr : Address} {runtime : Bytes} {balances : Table Address U256}
    (hmerged : holds (t.mergeBalances balances)) (hregister : ∀ {t}, holds t → holds (t.register addr runtime)) :
    After (fun _ => holds) (fun e t' => e = .outOfGas ∧ bad t')
      ((PVM.deploy addr runtime balances).exec oracle t) := by
  rw [PVM.deploy, exec_bind_ok oracle (exec_change oracle _ _)]
  apply After.bind (after_account (fun _ => h.failed hmerged) ?_ ?_)
  · intro _ t' ht'
    exact hregister ht'
  · intro total htotal _ _
    exact h.lapsed hmerged ⟨_, Local.refl _, .inr ⟨_, total, rfl, htotal⟩⟩
  · intro total htotal hwithin
    exact h.moved hmerged (IsLocal.metered (Local.refl _) htotal hwithin)

theorem complete (ht : holds t) (res : Option ExecResult) :
    After (fun progress t' => holds t' ∧ (progress = .onward ∨ ∃ r, progress = .ended r)) (fun _ => bad)
      ((PVM.complete res).exec oracle t) := by
  cases res with
  | some r => exact ⟨ht, .inr ⟨r, rfl⟩⟩
  | none =>
    apply After.bind (h.program .drainPageGas ht)
    exact fun _ t' ht' => ⟨ht', .inl rfl⟩

theorem acceptCreate {res : Except Trap Address} (hgas : res = .error .outOfGas → bad t)
    (hgoes : res ≠ .error .outOfGas → holds t) :
    After (fun _ => holds) (fun _ => bad) ((PVM.acceptCreate d res).exec oracle t) := by
  have hwrite : ∀ value, holds t → After (fun _ => holds) (fun _ => bad)
      ((do writeWide d.rd value; advance : VmM (Option ExecResult)).exec oracle t) := fun value ht =>
    h.program (.bind (.writeWide _ _) fun _ => .advance) ht
  rcases res with e | addr
  · cases e with
    | outOfGas => exact hgas rfl
    | _ => exact hwrite _ (hgoes (by simp))
  · exact hwrite _ (hgoes (by simp))

end KeptLocally

variable {oracle : StateKey → Option Bytes}

/-- The instruction that makes a call. -/
def callOpcode (isDelegate : Bool) : Opcode := if isDelegate then .delegate else .callExt

/-- What has to be shown of an instruction. -/
structure Handles (P : Prims) (oracle : StateKey → Option Bytes) (d : DecodedInstruction) (s : Vm)
    (holds bad : Vm → Prop) (spawned : Vm → Pending → Vm → Prop) : Prop where
  start : holds s
  kept : KeptLocally holds bad
  sload : d.opcode = .sload → After (fun _ => holds) (fun _ => bad) ((execSload P d).exec oracle s)
  sstore : d.opcode = .sstore → After (fun _ => holds) (fun _ => bad) ((execSstore P d).exec oracle s)
  sdelete : d.opcode = .sdelete → After (fun _ => holds) (fun _ => bad) ((execSdelete P d).exec oracle s)
  log : d.opcode = .log → After (fun _ => holds) (fun _ => bad) ((execLog d).exec oracle s)
  call : ∀ isStatic isDelegate, d.opcode = callOpcode isDelegate → After (fun answer t => match answer with
        | none => holds t
        | some child => spawned child (.call d isDelegate) t)
      (fun _ => bad) ((spawnCall d isStatic isDelegate).exec oracle s)
  create : d.opcode = .create → s.staticMode = false → After (fun creation t => match creation.rest with
        | .inl child => spawned child (.constructor d creation.address creation.runtime) t
        | .inr balances => After (fun _ => holds) (fun e t' => e = .outOfGas ∧ bad t')
            ((deploy creation.address creation.runtime balances).exec oracle t))
      (fun _ => holds) ((beginCreate P d).exec oracle s)

namespace Handles

variable {P : Prims} {d : DecodedInstruction} {s : Vm} {holds bad : Vm → Prop}
  {spawned : Vm → Pending → Vm → Prop} (h : Handles P oracle d s holds bad spawned)

include h

theorem complete {t : Vm} (ht : holds t) (res : Option ExecResult) :
    After (Progressed holds spawned) (fun _ => bad) ((PVM.complete res).exec oracle t) := by
  refine (h.kept.complete ht res).mono ?_ fun _ _ hbad => hbad
  rintro progress t' ⟨ht', rfl | ⟨r, rfl⟩⟩
  · exact ht'
  · exact ht'

theorem beginCall {isStatic isDelegate : Bool} (hop : d.opcode = callOpcode isDelegate) :
    After (Progressed holds spawned) (fun _ => bad) ((PVM.beginCall d isStatic isDelegate).exec oracle s) := by
  apply After.bind (h.call isStatic isDelegate hop)
  intro answer t ht
  cases answer with
  | some child => exact ht
  | none =>
    apply After.bind (h.kept.program (isLocal_acceptCall d _) ht)
    exact fun res t ht => h.complete ht res

theorem execCreate (hop : d.opcode = .create) :
    After (Progressed holds spawned) (fun _ => bad) ((PVM.execCreate P d).exec oracle s) := by
  rw [PVM.execCreate, exec_bind_ok oracle (exec_state oracle s)]
  by_cases hstatic : s.staticMode = true
  · rw [if_pos hstatic]
    exact h.kept.failed h.start
  rw [if_neg hstatic, exec_bind_ok oracle (exec_attempt oracle _ _)]
  have hbegin := h.create hop (by simpa using hstatic)
  -- what comes after the creation, in the two cases without a frame below
  have hrest : ∀ {res t}, (res = .error .outOfGas → bad t) → (res ≠ .error .outOfGas → holds t) →
      After (Progressed holds spawned) (fun _ => bad)
        ((do let res ← acceptCreate d res; PVM.complete res : VmM _).exec oracle t) := by
    intro res t hgas hgoes
    apply After.bind (h.kept.acceptCreate hgas hgoes)
    exact fun res t ht => h.complete ht res
  revert hbegin
  rcases (beginCreate P d).exec oracle s with ⟨e | ⟨addr, runtime, child | balances⟩, t⟩
  · exact fun ht => hrest (fun _ => h.kept.failed ht) fun _ => ht
  · exact fun hspawned => hspawned
  intro hdeploy
  change After _ _ ((deploy addr runtime balances).exec oracle t) at hdeploy
  dsimp only
  rw [exec_bind_ok oracle (exec_attempt oracle _ _)]
  revert hdeploy
  rcases (deploy addr runtime balances).exec oracle t with ⟨e | a, t'⟩
  · rintro ⟨rfl, hbad⟩
    exact hrest (fun _ => hbad) fun hne => absurd rfl hne
  · exact fun ht' => hrest nofun fun _ => ht'

theorem dispatch : After (Progressed holds spawned) (fun _ => bad) ((PVM.dispatch P d).exec oracle s) := by
  unfold PVM.dispatch
  split
  next hop => exact (h.sload hop).bind fun res t ht => h.complete ht res
  next hop => exact (h.sstore hop).bind fun res t ht => h.complete ht res
  next hop => exact (h.sdelete hop).bind fun res t ht => h.complete ht res
  next hop => exact (h.log hop).bind fun res t ht => h.complete ht res
  next hop =>
    rw [execCallExt, exec_bind_ok oracle (exec_state oracle s)]
    split
    · exact h.kept.failed h.start
    · exact h.beginCall hop
  next hop => exact h.beginCall hop
  next hop => exact h.execCreate hop
  next =>
    have hlocal : After (fun _ => holds) (fun _ => bad) ((execLocal P d).exec oracle s) :=
      h.kept.program (isLocal_execLocal d P) h.start
    exact hlocal.bind fun res t ht => h.complete ht res

end Handles

/-! ### Whole instructions -/

/-- A frame in which an instruction has been paid for. -/
def Vm.begun (vm : Vm) (d : DecodedInstruction) (total : U64) : Vm :=
  { vm with gasUsedTotal := total, trace := vm.trace ++ [.charged (totalGas d.opcode.toU8)] ++ [.ran d.opcode] }

/-- A frame in which an instruction could not be paid for. -/
def Vm.unpaid (vm : Vm) (d : DecodedInstruction) (total : U64) : Vm :=
  vm.metered total (.overdrawn (totalGas d.opcode.toU8))

/-- `step` up to the frame below: a price that cannot be paid, or the instruction itself. -/
theorem after_advanceStep {P : Prims} {s : Vm} {post : Progress Vm ExecResult Pending → Vm → Prop}
    {bad : Vm → Prop} (hfailed : bad s) (hunpaid : ∀ {d total}, s.instruction? = some d →
      total.toNat = s.gasUsedTotal.toNat + (totalGas d.opcode.toU8).toNat → 0 < s.gasLimit → s.gasLimit < total →
        bad (s.unpaid d total)) (hbegun : ∀ {d total}, s.instruction? = some d →
      total.toNat = s.gasUsedTotal.toNat + (totalGas d.opcode.toU8).toNat →
        (s.gasLimit = 0 ∨ total ≤ s.gasLimit) →
          After post (fun _ => bad) ((dispatch P d).exec oracle (s.begun d total))) :
    After post (fun _ => bad) ((advanceStep P).exec oracle s) := by
  rw [advanceStep, exec_bind_ok oracle (exec_state oracle s)]
  cases hinstruction : s.instruction? with
  | none => exact hfailed
  | some d =>
    have hcharge : After (fun _ t => ∃ total : U64,
          total.toNat = s.gasUsedTotal.toNat + (totalGas d.opcode.toU8).toNat ∧
            (s.gasLimit = 0 ∨ total ≤ s.gasLimit) ∧ t = s.metered total (.charged (totalGas d.opcode.toU8)))
        (fun e t => e = .outOfGas ∧ bad t) ((charge (totalGas d.opcode.toU8)).exec oracle s) :=
      after_account (fun _ => hfailed) (fun total htotal hpos hlt => hunpaid hinstruction htotal hpos hlt)
        fun total htotal hwithin => ⟨total, htotal, hwithin, rfl⟩
    apply After.bind (hcharge.mono (fun _ _ hpaid => hpaid) fun _ _ hbad => hbad.2)
    rintro _ t ⟨total, htotal, hwithin, rfl⟩
    rw [exec_bind_ok oracle (exec_note _ _)]
    exact hbegun hinstruction htotal hwithin

/-- The caller of a frame below, when the frame has ended. -/
def Vm.joined (vm child : Vm) (total : U64) : Vm :=
  { vm with gasUsedTotal := total, trace := vm.trace ++ child.trace }

section

variable {holds bad : Vm → Prop} (hkept : KeptLocally holds bad) {d : DecodedInstruction} {output : ExecutionOutput}
  {child t : Vm} (hover : 2 ^ 64 ≤ t.gasUsedTotal.toNat + output.gasUsed.toNat →
    bad (t.joined child t.gasUsedTotal))
  (hrefused : ∀ total : U64, total.toNat = t.gasUsedTotal.toNat + output.gasUsed.toNat → 0 < t.gasLimit →
    t.gasLimit < total → bad (t.joined child total))
include hkept hover hrefused

theorem after_resumeStep_call {isDelegate : Bool}
    (hpaid : ∀ total : U64, total.toNat = t.gasUsedTotal.toNat + output.gasUsed.toNat →
      (t.gasLimit = 0 ∨ total ≤ t.gasLimit) → holds ((t.joined child total).settle isDelegate output child)) :
    After (fun _ => holds) (fun _ => bad) ((resumeStep (.call d isDelegate) (output, child)).exec oracle t) := by
  have hcall : After (fun _ => holds) (fun _ => bad) ((resumeCall isDelegate output child).exec oracle t) := by
    rw [resumeCall, exec_bind_ok oracle (exec_note _ _)]
    have hcharge : After (fun _ t' => holds (t'.settle isDelegate output child))
        (fun e t' => e = .outOfGas ∧
          bad t') ((chargeChild output.gasUsed).exec oracle (t.joined child t.gasUsedTotal)) :=
      after_chargeChild hover hrefused hpaid
    apply After.bind (hcharge.mono (fun _ _ hpaid => hpaid) fun _ _ hbad => hbad.2)
    exact fun _ t' ht' => ht'
  apply hcall.bind
  intro res t ht
  apply After.bind (hkept.program (isLocal_acceptCall d res) ht)
  exact fun _ t ht => hkept.program .drainPageGas ht

theorem after_resumeStep_constructor {addr : Address} {runtime : Bytes}
    (hpaid : ∀ total : U64, total.toNat = t.gasUsedTotal.toNat + output.gasUsed.toNat →
      (t.gasLimit = 0 ∨ total ≤ t.gasLimit) → holds (t.joined child total))
    (hmerged : output.outcome = .success → ∀ total, holds (t.joined child total) →
      holds (((t.joined child total).mergeStorage child).mergeBalances child.ctx.balances))
    (hregister : output.outcome = .success → ∀ {t}, holds t → holds (t.register addr runtime)) :
    After (fun _ => holds) (fun _ => bad)
      ((resumeStep (.constructor d addr runtime) (output, child)).exec oracle t) := by
  have hcreate : After (fun _ => holds) (fun e t' => (e = .outOfGas → bad t') ∧ (e ≠ .outOfGas → holds t'))
      ((resumeCreate addr runtime output child).exec oracle t) := by
    rw [resumeCreate, exec_bind_ok oracle (exec_note _ _)]
    have hcharge : After (fun _ t' => ∃ total, t' = t.joined child total ∧ holds (t.joined child total))
        (fun e t' => e = .outOfGas ∧
          bad t') ((chargeChild output.gasUsed).exec oracle (t.joined child t.gasUsedTotal)) :=
      after_chargeChild hover hrefused fun total htotal hwithin => ⟨total, rfl, hpaid total htotal hwithin⟩
    apply After.bind (hcharge.mono (fun _ _ hpaid => hpaid)
      fun _ _ hbad => ⟨fun _ => hbad.2, fun hne => absurd hbad.1 hne⟩)
    rintro _ t' ⟨total, rfl, ht'⟩
    cases houtcome : output.outcome with
    | success =>
      change After _ _ (Fallible.exec oracle (do
        change fun vm => vm.mergeStorage child
        deploy addr runtime child.ctx.balances) (t.joined child total))
      rw [exec_bind_ok oracle (exec_change oracle _ _)]
      exact (hkept.deploy (hmerged houtcome total ht') (hregister houtcome)).mono (fun _ _ ht => ht)
        fun _ _ hbad => ⟨fun _ => hbad.2, fun hne => absurd hbad.1 hne⟩
    | revert => exact ⟨fun heq => (nomatch heq), fun _ => ht'⟩
    | outOfGas => exact ⟨fun _ => hkept.failed ht', fun hne => absurd rfl hne⟩
    | trap e => exact ⟨fun _ => hkept.failed ht', fun _ => ht'⟩
  rw [resumeStep, exec_bind_ok oracle (exec_attempt oracle _ _)]
  revert hcreate
  rcases (resumeCreate addr runtime output child).exec oracle t with ⟨e | a, t'⟩
  · rintro ⟨hgas, hgoes⟩
    have haccept : After (fun _ => holds) (fun _ => bad) ((acceptCreate d (.error e)).exec oracle t') :=
      hkept.acceptCreate (fun heq => hgas (by simpa using heq)) fun hne => hgoes (by simpa using hne)
    exact haccept.bind fun _ t ht => hkept.program .drainPageGas ht
  intro ht'
  have haccept : After (fun _ => holds) (fun _ => bad) ((acceptCreate d (.ok a)).exec oracle t') :=
    hkept.acceptCreate (by simp) fun _ => ht'
  exact haccept.bind fun _ t ht => hkept.program .drainPageGas ht

end

end Pyde.PVM
