/-
Module: Pyde.Pvm.Frames
Purpose: Whole instructions and whole frames of the virtual machine: calls, delegate calls and contract creation,
  which run a frame below; the loop of a frame with rollback on anything but success; the first frame of a transaction.
Trusted boundary: Prims
-/
import Pyde.Library.CallTree
import Pyde.Pvm.Machine
import Pyde.Tx.Pipeline

namespace Pyde.PVM

open ByteCodec StateProgram Fallible

/-- What is left of an instruction when a frame below has to run first. -/
inductive Pending where
  | call (d : DecodedInstruction) (isDelegate : Bool)
  | constructor (d : DecodedInstruction) (addr : Address) (runtime : Bytes)

/-! ### Frames for calls -/

/-- Code of a contract: from the table of the frame, or else from the state, whose answer is kept. -/
def lookupCode (addr : Address) : VmM (Option Bytes) := do
  let vm ← state
  match vm.contracts.lookup addr with
  | some code => pure (some code)
  | none => do
    match ← ask (.account addr .code) with
    | some code => do
      change fun vm => { vm with contracts := vm.contracts.insert addr code }
      pure (some code)
    | none => pure none

/-- At most 63/64 of what is left may be forwarded. -/
def Vm.maxForward (vm : Vm) : U64 := vm.gasRemaining - vm.gasRemaining / 64

/-- The gas of a called frame; zero asks for all there is. -/
def Vm.forwarded (vm : Vm) (requested : U64) : U64 :=
  if requested = 0 then vm.maxForward else lesser requested vm.maxForward

/-- Debit the caller and credit the callee. -/
def transferValue (balances : Table Address U256) (source target : Address) (value : U256) :
    Option (Table Address U256) :=
  if value = 0 then some balances
  else if balanceOf balances source < value then none
  else
    let debited := balances.insert source (balanceOf balances source - value)
    some (debited.insert target (balanceOf debited target + value))

/-- The context of a frame that runs at an address of its own. -/
def ExecutionContext.enter (ctx : ExecutionContext) (target : Address) (value : U256) : Option ExecutionContext := do
  let balances ← transferValue ctx.balances ctx.selfAddress target value
  pure { ctx with caller := ctx.selfAddress, selfAddress := target, callValue := value, balances := balances }

/-- The value that a call or a creation carries. -/
def Vm.carriedValue (vm : Vm) : U256 := (vm.cpu.readGp 8).setWidth 256

/-- The context of a called frame; a delegate call keeps the caller's. -/
def calleeContext (d : DecodedInstruction) (isDelegate : Bool) (target : Address) (vm : Vm) : Option ExecutionContext :=
  if isDelegate then some vm.ctx
  else vm.ctx.enter target (if bitAt d.rs2OrImm 13 then vm.carriedValue else 0)

/-- Load code into a frame that is about to run. -/
def loadChild (child : Vm) (code : Bytes) : VmM Vm := do
  let (res, loaded) ← lift (load code child)
  match res with
  | .ok _ => pure loaded
  | .error _ => fail .memoryFault

/-- The frame of a call, before its code is loaded. -/
def calleeFrame (vm : Vm) (ctx : ExecutionContext) (gas : U64) (isStatic : Bool) (calldata : Bytes) : Vm :=
  { Vm.withGasLimitAndContext gas ctx with
    staticMode := isStatic || vm.staticMode
    contracts := vm.contracts
    extCallDepth := vm.extCallDepth + 1
    calldata := calldata
    warmStorageKeys := vm.warmStorageKeys
    storage := vm.storage }

/-- `do_ext_call` up to the execution of the frame. The overlay is moved into the frame before the code is
loaded. -/
def spawnCall (d : DecodedInstruction) (isStatic isDelegate : Bool) : VmM (Option Vm) := do
  let vm ← state
  if maxExtCallDepth ≤ vm.extCallDepth then fail .stackOverflow
  else do
    let target ← readWideChecked d.rd
    let ptr ← readGp d.rs1
    let len ← readGp (regAt d.rs2OrImm 0)
    let requested ← readGp (regAt d.rs2OrImm 4)
    let calldata ← onMemory (Memory.checkedReadSlice (ptr.setWidth 32) len.toNat)
    match ← lookupCode (wordBytes target) with
    | none => pure none
    | some code => do
      let vm ← state
      match calleeContext d isDelegate (wordBytes target) vm with
      | none => pure none
      | some ctx => do
        let child := calleeFrame vm ctx (vm.forwarded requested) (isStatic || bitAt d.rs2OrImm 12) calldata
        change fun vm => { vm with storage := ∅ }
        let loaded ← loadChild child code
        pure (some loaded)

/-! ### After a call -/

/-- Take over an entry of another frame's journal. -/
def adoptEntry (vm : Vm) (entry : U256 × Option Bytes) : Vm :=
  if entry.1 ∈ vm.storageJournalKeys then vm
  else
    { vm with
      storageJournalKeys := insert entry.1 vm.storageJournalKeys
      storageJournal := vm.storageJournal ++ [entry] }

/-- Take over a balance of another frame. -/
def mergeBalance (vm : Vm) (entry : (_ : Address) × U256) : Vm :=
  if vm.ctx.balances.lookup entry.1 = some entry.2 then vm
  else
    let vm := vm.journalBalance entry.1
    { vm with ctx := { vm.ctx with balances := vm.ctx.balances.insert entry.1 entry.2 } }

def Vm.mergeBalances (vm : Vm) (balances : Table Address U256) : Vm := balances.entries.foldl mergeBalance vm

/-- Keys and slots that a frame below has touched count as touched. -/
def Vm.mergeAccessed (vm child : Vm) : Vm :=
  { vm with
    warmStorageKeys := vm.warmStorageKeys ∪ child.warmStorageKeys
    accessedRawSlots := vm.accessedRawSlots ∪ child.accessedRawSlots
    writtenRawSlots := vm.writtenRawSlots ∪ child.writtenRawSlots }

/-- What a successful call leaves in the frame that made it. -/
def Vm.absorb (vm : Vm) (isDelegate : Bool) (output : ExecutionOutput) (child : Vm) : Vm :=
  let vm := child.storageJournal.foldl adoptEntry vm
  let vm := { vm with storage := child.storage }
  let vm := if isDelegate then vm else vm.mergeBalances child.ctx.balances
  { vm with logs := vm.logs ++ output.logs, gasRefund := vm.gasRefund + output.gasRefund }

/-- What a call leaves in the frame that made it. -/
def Vm.settle (vm : Vm) (isDelegate : Bool) (output : ExecutionOutput) (child : Vm) : Vm :=
  (if output.outcome = .success then vm.absorb isDelegate output child
    else { vm with storage := child.storage }).mergeAccessed child

/-- What a frame returns: explicit data, or else a range of its memory or its first register. -/
def returned (child : Vm) (success : Bool) : Bytes :=
  if child.returnData ≠ [] then child.returnData
  else if success then
    let ptr : U32 := (child.cpu.readGp 1).setWidth 32
    let len := min (child.cpu.readGp 2).toNat memorySize
    if 0 < child.cpu.readGp 2 ∧ ptr.toNat + len ≤ memorySize then child.memory.readSlice ptr.toNat len
    else toLe (child.cpu.readGp 1)
  else []

/-- `do_ext_call` from the end of the frame on. -/
def resumeCall (isDelegate : Bool) (output : ExecutionOutput) (child : Vm) : VmM CallResult := do
  note child.trace
  chargeChild output.gasUsed
  change fun vm => vm.settle isDelegate output child
  pure
    { success := output.outcome = .success
      returnData := returned child (output.outcome = .success)
      gasUsed := output.gasUsed }

/-- Where the returned data goes: onto the heap, or into the first register. -/
def deliverReturned (data : Bytes) : VmM Unit :=
  if data = [] then pure ()
  else if 8 < data.length then do
    let heap ← readGp 12
    match ← attempt (onMemory (Memory.checkedWriteSlice (heap.setWidth 32) data)) with
    | .ok _ => do
      writeGp 1 ((heap.setWidth 32).setWidth 64)
      writeGp 2 (BitVec.ofNat 64 data.length)
    | .error _ => do
      writeGp 1 (ofLe 64 (data.take 8))
      writeGp 2 0
  else do
    writeGp 1 (ofLe 64 (padded (some data) 8))
    writeGp 2 0

def acceptCall (d : DecodedInstruction) (res : CallResult) : VmM (Option ExecResult) := do
  writeGp (regAt d.rs2OrImm 8) (truth res.success)
  deliverReturned (if res.success then res.returnData else [])
  change fun vm => { vm with returnData := res.returnData }
  advance

/-! ### Contract creation -/

/-- The address of a contract that a contract creates. -/
def createAddress (P : Prims) (creator : Address) (txHash : U256) (count : U64) (initCode : Bytes) : Address :=
  P.poseidon2Hash (creator.toList ++ toLe txHash ++ toLe count ++ initCode)

/-- The parts of creation data: constructor, code to be deployed, arguments of the constructor. -/
structure InitCode where
  constructor : Option Bytes
  runtime : Bytes
  args : Bytes

/-- Without a valid header all of it is code to be deployed. -/
def splitInitCode (initCode : Bytes) : InitCode :=
  let clen := (ofLe 32 (slice initCode 0 4)).toNat
  let rlen := (ofLe 32 (slice initCode 4 4)).toNat
  if 8 ≤ initCode.length ∧ 0 < clen ∧ 0 < rlen ∧ 8 + clen + rlen ≤ initCode.length then
    { constructor := some (slice initCode 8 clen)
      runtime := slice initCode (8 + clen) rlen
      args := initCode.drop (8 + clen + rlen) }
  else { constructor := none, runtime := initCode, args := [] }

/-- How many contracts the frame has created at its address. -/
def Vm.createCount (vm : Vm) : U64 := (vm.createCounter.lookup vm.ctx.selfAddress).getD 0

def Vm.countCreation (vm : Vm) : Vm :=
  { vm with createCounter := vm.createCounter.insert vm.ctx.selfAddress (vm.createCount + 1) }

/-- The frame of a constructor, before its code is loaded. It starts with an empty overlay. -/
def constructorFrame (vm : Vm) (ctx : ExecutionContext) (args : Bytes) : Vm :=
  { Vm.withGasLimitAndContext vm.maxForward ctx with
    contracts := vm.contracts
    warmStorageKeys := vm.warmStorageKeys
    extCallDepth := vm.extCallDepth + 1
    calldata := args }

/-- A creation under way: with a constructor to run, or with the balances it leads to. -/
structure Creation where
  address : Address
  runtime : Bytes
  rest : Vm ⊕ Table Address U256

/-- `do_create` up to the execution of the constructor. -/
def beginCreate (P : Prims) (d : DecodedInstruction) : VmM Creation := do
  let vm ← state
  if maxExtCallDepth ≤ vm.extCallDepth then fail .stackOverflow
  else do
    let ptr ← readGp d.rs1
    let len ← readGp (regAt d.rs2OrImm 0)
    let initCode ← onMemory (Memory.checkedReadSlice (ptr.setWidth 32) len.toNat)
    let vm ← state
    if vm.createCount = BitVec.allOnes 64 then fail .outOfGas
    else do
      let addr := createAddress P vm.ctx.selfAddress vm.ctx.txHash vm.createCount initCode
      change Vm.countCreation
      if (vm.contracts.lookup addr).isSome then fail .memoryFault
      else
        match vm.ctx.enter addr vm.carriedValue with
        | none => fail .memoryFault
        | some ctx =>
          match (splitInitCode initCode).constructor with
          | none => pure { address := addr, runtime := (splitInitCode initCode).runtime, rest := .inr ctx.balances }
          | some code => do
            let loaded ← loadChild (constructorFrame vm ctx (splitInitCode initCode).args) code
            pure { address := addr, runtime := (splitInitCode initCode).runtime, rest := .inl loaded }

/-- Register the code of a new contract. -/
def Vm.register (vm : Vm) (addr : Address) (runtime : Bytes) : Vm :=
  { vm with contracts := vm.contracts.insert addr runtime, trace := vm.trace ++ [.created addr] }

/-- The last part of `do_create`: balances, gas for the code, and the code. -/
def deploy (addr : Address) (runtime : Bytes) (balances : Table Address U256) : VmM Address := do
  change fun vm => vm.mergeBalances balances
  charge (BitVec.ofNat 64 runtime.length * 200)
  change fun vm => vm.register addr runtime
  pure addr

/-- Take over a value of a constructor's overlay. -/
def mergeStored (vm : Vm) (entry : (_ : U256) × Bytes) : Vm :=
  let vm := vm.journalStorage entry.1
  { vm with storage := vm.storage.insert entry.1 entry.2 }

/-- Take over a constructor's overlay. -/
def Vm.mergeStorage (vm child : Vm) : Vm := (child.storage.entries.foldl mergeStored vm).mergeAccessed child

/-- What a frame's end means for the creation it belongs to. -/
def constructorError : Outcome → Option Trap
  | .success => none
  | .outOfGas => some .outOfGas
  | .trap t => some t
  | .revert => some .memoryFault

/-- `do_create` from the end of the constructor on. -/
def resumeCreate (addr : Address) (runtime : Bytes) (output : ExecutionOutput) (child : Vm) : VmM Address := do
  note child.trace
  chargeChild output.gasUsed
  match constructorError output.outcome with
  | some t => fail t
  | none => do
    change fun vm => vm.mergeStorage child
    deploy addr runtime child.ctx.balances

/-- What the instruction does with the result of a creation: only running out of gas is passed on. -/
def acceptCreate (d : DecodedInstruction) : Except Trap Address → VmM (Option ExecResult)
  | .ok addr => do
    writeWide d.rd (bytesWord addr)
    advance
  | .error .outOfGas => fail .outOfGas
  | .error _ => do
    writeWide d.rd 0
    advance

/-! ### Instructions -/

/-- The instructions that leave storage, logs and other frames alone. -/
def execLocal (P : Prims) (d : DecodedInstruction) : VmM (Option ExecResult) :=
  match d.opcode with
  | .jmp => jump d
  | .beq => branch d fun a b => a = b
  | .bne => branch d fun a b => a ≠ b
  | .blt => branch d fun a b => a < b
  | .bge => branch d fun a b => b ≤ a
  | .call => execCall d
  | .ret => execRet
  | .halt => pure (some .halt)
  | .revert => execRevert d
  | .add => alu d aluAdd
  | .sub => alu d aluSub
  | .mul => alu d aluMul
  | .div => alu d aluDiv
  | .mod => alu d aluMod
  | .addi => execAddi d
  | .and => alu d fun a b => .ok (a &&& b)
  | .or => alu d fun a b => .ok (a ||| b)
  | .xor => alu d fun a b => .ok (a ^^^ b)
  | .not => execNot d
  | .shl => alu d aluShl
  | .shr => alu d aluShr
  | .sar => alu d aluSar
  | .lt => alu d fun a b => .ok (truth (a < b))
  | .gt => alu d fun a b => .ok (truth (b < a))
  | .eq => alu d fun a b => .ok (truth (a = b))
  | .slt => alu d fun a b => .ok (truth (a.slt b))
  | .sgt => alu d fun a b => .ok (truth (b.slt a))
  | .wadd | .wsub | .wmul | .wdiv | .wmod | .wand | .wor | .wxor | .wnot | .wshift | .wmov | .narrow | .widen
  | .weq | .wlt => execWide d
  | .load => execLoad d
  | .store => execStore d
  | .wload => execWload d
  | .wstore => execWstore d
  | .push => execPush d
  | .pop => execPop d
  | .caller => execCaller d
  | .callvalue => execCallvalue d
  | .blockhash => execBlockhash d
  | .poseidon => execPoseidon P d
  | .verifySig => execVerifySig P d
  | .assert => execAssert d
  | .memcpy => execMemcpy d
  | .selfdestruct => do
    let vm ← state
    if vm.staticMode then fail .staticModeViolation else fail .invalidOpcode
  | .merkleVerify => execMerkleVerify P d
  | _ => fail .invalidOpcode

/-- The end of an instruction: the pages it has touched are paid for. -/
def complete : Option ExecResult → VmM (Progress Vm ExecResult Pending)
  | some res => pure (.ended res)
  | none => do
    drainPageGas
    pure .onward

/-- `CallExt` and `Delegate`, up to the frame below. -/
def beginCall (d : DecodedInstruction) (isStatic isDelegate : Bool) : VmM (Progress Vm ExecResult Pending) := do
  match ← spawnCall d isStatic isDelegate with
  | some child => pure (.spawn child (.call d isDelegate))
  | none => do
    let res ← acceptCall d { success := false, returnData := [], gasUsed := 0 }
    complete res

def execCallExt (d : DecodedInstruction) : VmM (Progress Vm ExecResult Pending) := do
  let vm ← state
  if vm.staticMode ∧ ¬ bitAt d.rs2OrImm 12 then fail .staticModeViolation
  else beginCall d (bitAt d.rs2OrImm 12) false

/-- `Create`, up to the frame below. -/
def execCreate (P : Prims) (d : DecodedInstruction) : VmM (Progress Vm ExecResult Pending) := do
  let vm ← state
  if vm.staticMode then fail .staticModeViolation
  else do
    match ← attempt (beginCreate P d) with
    | .error t => do
      let res ← acceptCreate d (.error t)
      complete res
    | .ok creation =>
      match creation.rest with
      | .inl child => pure (.spawn child (.constructor d creation.address creation.runtime))
      | .inr balances => do
        let res ← attempt (deploy creation.address creation.runtime balances)
        let res ← acceptCreate d res
        complete res

def dispatch (P : Prims) (d : DecodedInstruction) : VmM (Progress Vm ExecResult Pending) :=
  match d.opcode with
  | .sload => execSload P d >>= complete
  | .sstore => execSstore P d >>= complete
  | .sdelete => execSdelete P d >>= complete
  | .log => execLog d >>= complete
  | .callExt => execCallExt d
  | .delegate => beginCall d false true
  | .create => execCreate P d
  | _ => execLocal P d >>= complete

/-- The instruction at the program counter. -/
def Vm.instruction? (vm : Vm) : Option DecodedInstruction :=
  if vm.pc &&& 3 = 0 then vm.decodedCache[(vm.pc / 4).toNat]? else none

/-- `step`, up to the frame below. -/
def advanceStep (P : Prims) : VmM (Progress Vm ExecResult Pending) := do
  let vm ← state
  match vm.instruction? with
  | none => fail .invalidOpcode
  | some d => do
    charge (totalGas d.opcode.toU8)
    note [.ran d.opcode]
    dispatch P d

/-- `step`, from the end of the frame below on. -/
def resumeStep : Pending → ExecutionOutput × Vm → VmM Unit
  | .call d isDelegate, (output, child) => do
    let res ← resumeCall isDelegate output child
    let _ ← acceptCall d res
    drainPageGas
  | .constructor d addr runtime, (output, child) => do
    let res ← attempt (resumeCreate addr runtime output child)
    let _ ← acceptCreate d res
    drainPageGas

/-! ### Frames -/

/-- `effective_gas_used`: the refund is capped at half. -/
def Vm.effectiveGasUsed (vm : Vm) : U64 := vm.gasUsedTotal - lesser vm.gasRefund (vm.gasUsedTotal / 2)

def Vm.clearJournals (vm : Vm) : Vm :=
  { vm with storageJournal := [], storageJournalKeys := ∅, balanceJournal := [], balanceJournalKeys := ∅ }

def outcomeOf : Except Trap ExecResult → Outcome
  | .ok .halt => .success
  | .ok .revert => .revert
  | .error .outOfGas => .outOfGas
  | .error t => .trap t

/-- Undo what a frame did, except for gas. -/
def undo (entry vm : Vm) : Vm :=
  { rollbackBalances (rollbackStorage vm) with logs := vm.logs.take entry.logs.length, gasRefund := 0 }

/-- The end of `execute`. -/
def finishFrame (entry : Vm) (res : Except Trap ExecResult) (vm : Vm) : ExecutionOutput × Vm :=
  let final := (if outcomeOf res = .success then vm else undo entry vm).clearJournals
  ({ outcome := outcomeOf res
     gasUsed := final.effectiveGasUsed
     gasUsedRaw := final.gasUsedTotal
     gasRefund := final.gasRefund
     logs := final.logs.drop entry.logs.length }, final)

def machine (P : Prims) : Machine StateKey Bytes Trap Vm ExecResult Pending (ExecutionOutput × Vm) where
  start := Vm.clearJournals
  advance := advanceStep P
  resume := resumeStep
  finish := finishFrame
  cutoff := .outOfGas

/-! ### Programs -/

def assemble (words : List U32) : Bytes := words.flatMap fun word => toLe word

/-- The first frame of a transaction, with its code loaded. -/
def outermost (gasLimit : U64) (ctx : ExecutionContext) (calldata code : Bytes) : Vm :=
  ((load code).exec (fun _ => none) { Vm.withGasLimitAndContext gasLimit ctx with calldata := calldata }).2

/-- More instructions than can be paid for in one frame. -/
def stepBound : Nat := 2 ^ 64

def execute (P : Prims) (vm : Vm) : Query StateKey Bytes (ExecutionOutput × Vm) :=
  (machine P).run stepBound (maxExtCallDepth + 1) vm

/-! ### The first frame -/

/-- `pre_derive_access_list_keys`. An entry for the zero address is one for the contract that is called. -/
def preDeriveAccessListKeys (P : Prims) (accessList : List AccessEntry) (contract : Address) : List U256 :=
  accessList.flatMap fun entry =>
    let target := if entry.address = zeroAddress then contract else entry.address
    (entry.reads ++ entry.writes).map fun rawKey => deriveStorageKey P target (bytesWord rawKey)

/-- `load_bytes`: the address of each byte is cut to 32 bits, and a page that does not exist aborts the process. -/
def Memory.loadUnchecked (m : Memory) (addr : U64) (len : Nat) : Option Bytes :=
  (List.range len).mapM fun i =>
    let byteAddr : U32 := (addr + BitVec.ofNat 64 i).setWidth 32
    if byteAddr.toNat < memorySize then some (m.bytes byteAddr.toNat) else none

/-- The data that goes into the receipt: explicit data, or else a range of memory or the first register. The end of
the range is computed modulo `2 ^ 64`. -/
def captureReturnData (vm : Vm) (success : Bool) : Option Bytes :=
  if vm.returnData ≠ [] then some vm.returnData
  else if success then
    let len := min (vm.cpu.readGp 2).toNat memorySize
    if 0 < vm.cpu.readGp 2 then
      if (vm.cpu.readGp 1 + BitVec.ofNat 64 len).toNat ≤ memorySize then vm.memory.loadUnchecked (vm.cpu.readGp 1) len
      else some (toLe (vm.cpu.readGp 1))
    else some (toLe (vm.cpu.readGp 1))
  else some vm.returnData

/-- The same in `do_ext_call`, where the pointer is cut to 32 bits first. -/
def captureCallee (child : Vm) (success : Bool) : Option Bytes :=
  if child.returnData ≠ [] then some child.returnData
  else if success then
    let ptr : U32 := (child.cpu.readGp 1).setWidth 32
    let len := min (child.cpu.readGp 2).toNat memorySize
    if 0 < child.cpu.readGp 2 ∧ ptr.toNat + len ≤ memorySize then child.memory.loadUnchecked (ptr.setWidth 64) len
    else some (toLe (child.cpu.readGp 1))
  else some []

end Pyde.PVM
