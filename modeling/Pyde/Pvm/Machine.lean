/-
Module: Pyde.Pvm.Machine
Purpose: Linear memory of four megabytes, the state of one frame of the virtual machine, the operations its
  instructions are made of, and the instructions that stay within one frame.
Trusted boundary: Prims
-/
import Pyde.Library.StateProgram
import Pyde.Pvm.Cpu
import Pyde.State
import Mathlib.Data.List.AList

namespace Pyde.PVM

open ByteCodec StateProgram Fallible

def memorySize : Nat := 0x400000
def pageSize : Nat := 4096
def nullPageEnd : U32 := 0x001000
def codeStart : U32 := 0x001000
def codeEndLimit : U32 := 0x010000
def heapStart : U32 := 0x010000
def stackTop : U32 := 0x400000
def pageAllocGas : U64 := 200

inductive MemoryError where
  | nullPageAccess (addr : U32)
  | outOfBounds (addr : U32)
  | codeWriteProtected (addr : U32)
  | heapStackCollision
deriving DecidableEq

/-- `Memory`. A byte of a page that is not materialised reads as zero, so the pages are one function; what
is kept of them besides is which were touched. `accessed` is the model's own record of the ranges of bytes
that were addressed, each with its start and its length. -/
structure Memory where
  bytes : Nat → Byte
  pagesTouched : Finset Nat
  pageGasUsed : U64
  heapTop : U32
  stackPointer : U32
  codeEnd : U32
  accessed : List (Nat × Nat)

/-- Memory operations; they never ask the state. -/
abbrev MemM (α : Type) := Fallible StateKey Bytes MemoryError Memory α

namespace Memory

def new : Memory where
  bytes := fun _ => 0
  pagesTouched := ∅
  pageGasUsed := 0
  heapTop := heapStart
  stackPointer := stackTop
  codeEnd := codeStart
  accessed := []

def readSlice (m : Memory) (addr len : Nat) : Bytes := (List.range len).map fun i => m.bytes (addr + i)

/-- `read_bytes` and `read_slice`. -/
def readBytes (addr len : Nat) : MemM Bytes := do
  change fun m => { m with accessed := m.accessed ++ [(addr, len)] }
  let m ← state
  pure (m.readSlice addr len)

def writeBytes (m : Memory) (addr : Nat) (data : Bytes) : Memory :=
  { m with
    bytes := fun a => if addr ≤ a ∧ a < addr + data.length then data.getD (a - addr) 0 else m.bytes a
    accessed := m.accessed ++ [(addr, data.length)] }

def loadCode (bytecode : Bytes) : MemM Unit :=
  if codeEndLimit.toNat < codeStart.toNat + bytecode.length then
    fail (.outOfBounds (BitVec.ofNat 32 (codeStart.toNat + bytecode.length)))
  else
    change fun m =>
      { m.writeBytes codeStart.toNat bytecode with
        codeEnd := BitVec.ofNat 32 (codeStart.toNat + bytecode.length) }

def touchPage (m : Memory) (page : Nat) : Memory :=
  if page ∈ m.pagesTouched then m
  else { m with pagesTouched := insert page m.pagesTouched, pageGasUsed := m.pageGasUsed + pageAllocGas }

def checkAccess (addr len : U32) : MemM Unit :=
  if addr < nullPageEnd then fail (.nullPageAccess addr)
  else if memorySize < addr.toNat + len.toNat then fail (.outOfBounds addr)
  else
    let firstPage := addr.toNat / pageSize
    let lastPage := (addr.toNat + len.toNat - 1) / pageSize
    change fun m => (List.range' firstPage (lastPage + 1 - firstPage)).foldl touchPage m

def checkWritable (addr : U32) : MemM Unit :=
  if codeStart ≤ addr ∧ addr < codeEndLimit then fail (.codeWriteProtected addr) else pure ()

def stackAlloc (count : U32) : MemM U32 := do
  let m ← state
  if m.stackPointer < count then fail .heapStackCollision
  else if m.stackPointer - count < m.heapTop then fail .heapStackCollision
  else do
    change fun m => { m with stackPointer := m.stackPointer - count }
    pure (m.stackPointer - count)

/-- The loads: so many bytes at an address. -/
def loadBytes (addr : U32) (count : Nat) : MemM Bytes := do
  checkAccess addr (BitVec.ofNat 32 count)
  readBytes addr.toNat count

def storeBytes (addr : U32) (data : Bytes) : MemM Unit := do
  checkAccess addr (BitVec.ofNat 32 data.length)
  checkWritable addr
  change fun m => m.writeBytes addr.toNat data

/-- `load8`, `load16`, `load32` and `load64`. -/
def loadInt (w : Nat) (addr : U32) : MemM (BitVec w) := do
  let data ← loadBytes addr (w / 8)
  pure (ofLe w data)

/-- `store8`, `store16`, `store32` and `store64`. -/
def storeInt {w : Nat} (addr : U32) (value : BitVec w) : MemM Unit := storeBytes addr (toLe value)

def checkedReadSlice (addr : U32) (len : Nat) : MemM Bytes :=
  if len = 0 then pure []
  else if memorySize < len then fail (.outOfBounds addr)
  else loadBytes addr len

def checkedWriteSlice (addr : U32) (data : Bytes) : MemM Unit :=
  if data = [] then pure ()
  else if memorySize < data.length then fail (.outOfBounds addr)
  else storeBytes addr data

end Memory

/-- A hash map. The order of its entries stands for the unknown order of iteration. -/
abbrev Table (κ ν : Type) := AList fun _ : κ => ν

/-- Caller info, block info and balances. -/
structure ExecutionContext where
  caller : Address
  selfAddress : Address
  callValue : U256
  blockNumber : U64
  timestamp : U64
  gasPrice : U256
  txNonce : U64
  txGasLimit : U64
  txHash : U256
  blockProposer : Address
  blockHashes : List U256
  balances : Table Address U256

def ExecutionContext.default : ExecutionContext where
  caller := zero32
  selfAddress := zero32
  callValue := 0
  blockNumber := 0
  timestamp := 0
  gasPrice := 0
  txNonce := 0
  txGasLimit := 0
  txHash := 0
  blockProposer := zero32
  blockHashes := []
  balances := ∅

/-- A saved frame of the call stack within a contract. -/
structure CallFrame where
  returnAddr : U32
  framePointer : U32

def maxCallDepth : Nat := 1024

def maxExtCallDepth : Nat := 64

inductive ExecResult where
  | halt
  | revert
deriving DecidableEq

inductive Outcome where
  | success
  | revert
  | outOfGas
  | trap (t : Trap)
deriving DecidableEq

structure EventLog where
  address : Address
  topics : List U256
  data : Bytes
deriving DecidableEq

/-- What `execute` returns. -/
structure ExecutionOutput where
  outcome : Outcome
  gasUsed : U64
  gasUsedRaw : U64
  gasRefund : U64
  logs : List EventLog
deriving DecidableEq

/-- What `do_ext_call` returns to the instruction that made the call. -/
structure CallResult where
  success : Bool
  returnData : Bytes
  gasUsed : U64

/-- What happened in a frame and in the frames below it. The virtual machine keeps no such record; the
model does, to speak about whole call trees. -/
inductive Event where
  | ran (opcode : Opcode)
  | charged (gas : U64)
  | overdrawn (gas : U64)
  | touched (contract : Address) (slot : Bytes) (key : U256)
  | loaded (contract : Address) (slot : Bytes) (key : U256) (value : Option Bytes)
  | wrote (key : U256) (value : Bytes)
  | cleared (key : U256)
  | created (addr : Address)
deriving DecidableEq

/-- The state of one frame. A backend that is absent answers like one that has nothing, so both backends are
the state that the machine asks. `trace` is the model's own record. -/
structure Vm where
  pc : U32
  fp : U32
  gasUsedTotal : U64
  gasLimit : U64
  gasRefund : U64
  cpu : Cpu
  decodedCache : List DecodedInstruction
  memory : Memory
  ctx : ExecutionContext
  storage : Table U256 Bytes
  callStack : List CallFrame
  logs : List EventLog
  storageJournal : List (U256 × Option Bytes)
  storageJournalKeys : Finset U256
  balanceJournal : List (Address × Option U256)
  balanceJournalKeys : Finset Address
  contracts : Table Address Bytes
  calldata : Bytes
  returnData : Bytes
  staticMode : Bool
  extCallDepth : Nat
  allowedStorageKeys : Option (Finset U256)
  warmStorageKeys : Finset U256
  accessedRawSlots : Finset U256
  writtenRawSlots : Finset U256
  createCounter : Table Address U64
  trace : List Event

def Vm.withGasLimitAndContext (gasLimit : U64) (ctx : ExecutionContext) : Vm where
  pc := 0
  fp := 0
  gasUsedTotal := 0
  gasLimit := gasLimit
  gasRefund := 0
  cpu := Cpu.new
  decodedCache := []
  memory := Memory.new
  ctx := ctx
  storage := ∅
  callStack := []
  logs := []
  storageJournal := []
  storageJournalKeys := ∅
  balanceJournal := []
  balanceJournalKeys := ∅
  contracts := ∅
  calldata := []
  returnData := []
  staticMode := false
  extCallDepth := 0
  allowedStorageKeys := none
  warmStorageKeys := ∅
  accessedRawSlots := ∅
  writtenRawSlots := ∅
  createCounter := ∅
  trace := []

/-- What an instruction does: it asks the state, changes the frame, and may trap. -/
abbrev VmM (α : Type) := Fallible StateKey Bytes Trap Vm α

/-! ### Gas -/

/-- Add to the accumulator and compare with the limit; zero is no limit. -/
def account (amt : U64) (accepted refused : List Event) : VmM Unit := do
  let vm ← state
  match checkedAdd vm.gasUsedTotal amt with
  | none => fail .outOfGas
  | some total =>
    if 0 < vm.gasLimit ∧ vm.gasLimit < total then do
      change fun vm => { vm with gasUsedTotal := total, trace := vm.trace ++ refused }
      fail .outOfGas
    else change fun vm => { vm with gasUsedTotal := total, trace := vm.trace ++ accepted }

/-- Charge for an instruction of this frame. -/
def charge (amt : U64) : VmM Unit := account amt [.charged amt] [.overdrawn amt]

/-- Charge for what a frame below has used. -/
def chargeChild (amt : U64) : VmM Unit := account amt [] []

def divCeil (n k : U64) : U64 := n / k + (if n % k = 0 then 0 else 1)

def Vm.gasRemaining (vm : Vm) : U64 :=
  if vm.gasLimit = 0 then BitVec.allOnes 64 else satSub vm.gasLimit vm.gasUsedTotal

/-- Charge for the pages that the instruction has touched. -/
def drainPageGas : VmM Unit := do
  let vm ← state
  if 0 < vm.memory.pageGasUsed then do
    -- the counter is reset between the addition and the comparison with the limit
    match checkedAdd vm.gasUsedTotal vm.memory.pageGasUsed with
    | none => fail .outOfGas
    | some _ => do
      change fun vm => { vm with memory := { vm.memory with pageGasUsed := 0 } }
      charge vm.memory.pageGasUsed
  else pure ()

def precheckBulkPageBudget (count : U64) : VmM Unit := do
  let vm ← state
  if count = 0 ∨ vm.gasLimit = 0 then pure ()
  else
    match checkedMul (divCeil count (BitVec.ofNat 64 pageSize)) pageAllocGas with
    | none => fail .outOfGas
    | some worst =>
      match checkedAdd vm.gasUsedTotal worst with
      | none => fail .outOfGas
      | some projected => if vm.gasLimit < projected then fail .outOfGas else pure ()

/-! ### Registers and memory -/

def readGp (reg : U8) : VmM U64 := do
  let vm ← state
  pure (vm.cpu.readGp reg)

def writeGp (reg : U8) (value : U64) : VmM Unit := change fun vm => { vm with cpu := vm.cpu.writeGp reg value }

def readWideChecked (reg : U8) : VmM U256 := do
  let vm ← state
  ofExcept (vm.cpu.readWideChecked reg)

def writeWide (reg : U8) (value : U256) : VmM Unit := change fun vm => { vm with cpu := vm.cpu.writeWide reg value }

def writeWideChecked (reg : U8) (value : U256) : VmM Unit := do
  let vm ← state
  let cpu ← ofExcept (vm.cpu.writeWideChecked reg value)
  change fun vm => { vm with cpu := cpu }

/-- A memory operation; every memory error is a memory fault. -/
def onMemory {α : Type} (p : MemM α) : VmM α :=
  zoom Vm.memory (fun memory vm => { vm with memory := memory }) (fun _ => .memoryFault) p

def advance : VmM (Option ExecResult) := do
  change fun vm => { vm with pc := vm.pc + 4 }
  pure none

def safeAddr (base : U64) (offset : U32) : Except Trap U32 :=
  let res := (base.toNat : Int) + offset.toInt
  if res < 0 ∨ 2 ^ 32 - 1 < res then .error .memoryFault else .ok (BitVec.ofInt 32 res)

/-- `load`: code into memory and cache, calldata onto the heap. -/
def load (bytecode : Bytes) : VmM Unit := do
  onMemory (Memory.loadCode bytecode)
  change fun vm =>
    { vm with
      pc := 0
      decodedCache := (List.range (bytecode.length / 4)).map fun i => decode (ofLe 32 (slice bytecode (4 * i) 4)) }
  let vm ← state
  if vm.calldata = [] then pure ()
  else if memorySize - heapStart.toNat < vm.calldata.length then fail .memoryFault
  else do
    onMemory (Memory.checkedWriteSlice heapStart vm.calldata)
    let alignedLen := (vm.calldata.length + 7) / 8 * 8
    change fun vm => { vm with memory := { vm.memory with heapTop := heapStart + BitVec.ofNat 32 alignedLen } }
    writeGp 4 (BitVec.ofNat 64 vm.calldata.length)
    writeGp 5 (heapStart.setWidth 64)

/-! ### Storage -/

/-- The bytes of a slot without trailing zeros, at least eight of them. -/
def slotBytes (slot : U256) : Bytes := (toLe slot).take (max ((toLe slot).reverse.dropWhile (· = 0)).length 8)

def deriveStorageKey (P : Prims) (selfAddress : Address) (slot : U256) : U256 :=
  bytesWord ((StateKey.slot selfAddress (slotBytes slot)).hash P)

/-- `journal_storage_write`. -/
def Vm.journalStorage (vm : Vm) (key : U256) : Vm :=
  if key ∈ vm.storageJournalKeys then vm
  else
    { vm with
      storageJournalKeys := insert key vm.storageJournalKeys
      storageJournal := vm.storageJournal ++ [(key, vm.storage.lookup key)] }

theorem Vm.journalStorage_eq (vm : Vm) (key : U256) :
    ∃ journal keys, vm.journalStorage key = { vm with storageJournal := journal, storageJournalKeys := keys } := by
  unfold Vm.journalStorage
  split
  · exact ⟨_, _, rfl⟩
  · exact ⟨_, _, rfl⟩

@[simp] theorem Vm.journalStorage_storage (vm : Vm) (key : U256) : (vm.journalStorage key).storage = vm.storage := by
  obtain ⟨_, _, heq⟩ := vm.journalStorage_eq key
  rw [heq]

/-- `journal_balance_write`. -/
def Vm.journalBalance (vm : Vm) (addr : Address) : Vm :=
  if addr ∈ vm.balanceJournalKeys then vm
  else
    { vm with
      balanceJournalKeys := insert addr vm.balanceJournalKeys
      balanceJournal := vm.balanceJournal ++ [(addr, vm.ctx.balances.lookup addr)] }

/-- Put an old value back, or remove an entry that was not there. -/
def restoreEntry {κ ν : Type} [DecidableEq κ] (entry : κ × Option ν) (table : Table κ ν) : Table κ ν :=
  match entry.2 with
  | some value => table.insert entry.1 value
  | none => table.erase entry.1

/-- The entries of a journal are put back, the last one first. -/
def rollback {κ ν : Type} [DecidableEq κ] (journal : List (κ × Option ν)) (table : Table κ ν) : Table κ ν :=
  journal.foldr restoreEntry table

def rollbackStorage (vm : Vm) : Vm :=
  { vm with storage := rollback vm.storageJournal vm.storage, storageJournal := [], storageJournalKeys := ∅ }

def rollbackBalances (vm : Vm) : Vm :=
  { vm with
    ctx := { vm.ctx with balances := rollback vm.balanceJournal vm.ctx.balances }
    balanceJournal := []
    balanceJournalKeys := ∅ }

def note (events : List Event) : VmM Unit := change fun vm => { vm with trace := vm.trace ++ events }

variable {κ ν : Type} [DecidableEq κ] {source : κ → ν → Prop}

/-! ### Tables that keep values of a source -/

structure Caches (source : κ → ν → Prop) (old new : Table κ ν) : Prop where
  kept : ∀ {key value}, old.lookup key = some value → new.lookup key = some value
  grown : ∀ {key value}, old.lookup key = none → new.lookup key = some value → source key value

namespace Caches

variable {old mid new : Table κ ν}

theorem refl (table : Table κ ν) : Caches source table table where
  kept := fun h => h
  grown := by
    intro key value hnone hsome
    rw [hnone] at hsome
    exact nomatch hsome

theorem trans (h : Caches source old mid) (h' : Caches source mid new) : Caches source old new where
  kept := fun hkey => h'.kept (h.kept hkey)
  grown := by
    intro key value hnone hsome
    cases hmid : mid.lookup key with
    | none => exact h'.grown hmid hsome
    | some value' =>
      have hsame := (h'.kept hmid).symm.trans hsome
      rw [← Option.some.inj hsame]
      exact h.grown hnone hmid

theorem insert {table : Table κ ν} {key : κ} {value : ν} (hnone : table.lookup key = none)
    (hsource : source key value) :
    Caches source table (table.insert key value) where
  kept := by
    intro key' value' hsome
    have hne : key' ≠ key := by
      rintro rfl
      rw [hnone] at hsome
      exact nomatch hsome
    rw [AList.lookup_insert_ne hne]
    exact hsome
  grown := by
    intro key' value' hnone' hsome
    by_cases heq : key' = key
    · subst heq
      rw [AList.lookup_insert] at hsome
      rw [← Option.some.inj hsome]
      exact hsource
    · rw [AList.lookup_insert_ne heq, hnone'] at hsome
      exact nomatch hsome

end Caches

section

variable (d : DecodedInstruction)

/-! ### Control flow -/

def jump : VmM (Option ExecResult) := do
  change fun vm => { vm with pc := vm.pc + signExtend18 d.rs2OrImm }
  pure none

/-- `beq`, `bne`, `blt` and `bge`. -/
def branch (taken : U64 → U64 → Bool) : VmM (Option ExecResult) := do
  let a ← readGp d.rd
  let b ← readGp d.rs1
  if taken a b then jump d else advance

/-- `call` within the contract. -/
def execCall : VmM (Option ExecResult) := do
  let vm ← state
  if maxCallDepth ≤ vm.callStack.length then fail .stackOverflow
  else do
    change fun vm =>
      { vm with
        callStack := { returnAddr := vm.pc + 4, framePointer := vm.fp } :: vm.callStack
        fp := vm.memory.stackPointer }
    jump d

/-- `ret`. -/
def execRet : VmM (Option ExecResult) := do
  let vm ← state
  match vm.callStack with
  | [] => fail .stackUnderflow
  | frame :: rest => do
    change fun vm => { vm with callStack := rest, pc := frame.returnAddr, fp := frame.framePointer }
    pure none

/-- `revert`, with the data it may point to. -/
def execRevert : VmM (Option ExecResult) := do
  if d.rs1 = 0 then pure (some .revert)
  else do
    let ptr ← readGp d.rs1
    let len ← readGp (regAt d.rs2OrImm 0)
    if len = 0 then pure (some .revert)
    else do
      match ← attempt (onMemory (Memory.checkedReadSlice (ptr.setWidth 32) len.toNat)) with
      | .ok data => do
        change fun vm => { vm with returnData := data }
        pure (some .revert)
      | .error _ => pure (some .revert)

/-- `assert`. -/
def execAssert : VmM (Option ExecResult) := do
  let value ← readGp d.rs1
  if value = 0 then pure (some .revert) else advance

/-! ### Arithmetic -/

/-- `rd = rs1 op rs2`. -/
def alu (op : U64 → U64 → Except Trap U64) : VmM (Option ExecResult) := do
  let a ← readGp d.rs1
  let b ← readGp (regAt d.rs2OrImm 0)
  let res ← ofExcept (op a b)
  writeGp d.rd res
  advance

def truth (b : Bool) : U64 := if b then 1 else 0

def aluAdd (a b : U64) : Except Trap U64 := if a.toNat + b.toNat < 2 ^ 64 then .ok (a + b) else .error .overflow
def aluSub (a b : U64) : Except Trap U64 := if b ≤ a then .ok (a - b) else .error .underflow
def aluMul (a b : U64) : Except Trap U64 := if a.toNat * b.toNat < 2 ^ 64 then .ok (a * b) else .error .overflow
def aluDiv (a b : U64) : Except Trap U64 := if b = 0 then .error .divisionByZero else .ok (a / b)
def aluMod (a b : U64) : Except Trap U64 := if b = 0 then .error .divisionByZero else .ok (a % b)
def aluShl (a b : U64) : Except Trap U64 := .ok (if 64 ≤ b then 0 else a <<< b.toNat)
def aluShr (a b : U64) : Except Trap U64 := .ok (if 64 ≤ b then 0 else a >>> b.toNat)
def aluSar (a b : U64) : Except Trap U64 :=
  .ok (if 64 ≤ b then (if a.msb then BitVec.allOnes 64 else 0) else a.sshiftRight b.toNat)

/-- `addi`: wrapping, unlike `add`. -/
def execAddi : VmM (Option ExecResult) := do
  let a ← readGp d.rs1
  writeGp d.rd (a + (signExtend18 d.rs2OrImm).signExtend 64)
  advance

/-- `not`. -/
def execNot : VmM (Option ExecResult) := do
  let a ← readGp d.rs1
  writeGp d.rd (~~~ a)
  advance

/-- The wide instructions: encode again and let the CPU decode. -/
def execWide : VmM (Option ExecResult) := do
  let vm ← state
  let cpu ← ofExcept (vm.cpu.execWide (encode d.opcode d.rd d.rs1 d.rs2OrImm))
  change fun vm => { vm with cpu := cpu }
  advance

/-! ### Memory -/

/-- `load`, zero-extended. -/
def loadWidth (addr : U32) : MemWidth → MemM U64
  | .w8 => do pure ((← Memory.loadInt 8 addr).setWidth 64)
  | .w16 => do pure ((← Memory.loadInt 16 addr).setWidth 64)
  | .w32 => do pure ((← Memory.loadInt 32 addr).setWidth 64)
  | .w64 => Memory.loadInt 64 addr

/-- `store`, truncated. -/
def storeWidth (addr : U32) (value : U64) : MemWidth → MemM Unit
  | .w8 => Memory.storeInt addr (value.setWidth 8)
  | .w16 => Memory.storeInt addr (value.setWidth 16)
  | .w32 => Memory.storeInt addr (value.setWidth 32)
  | .w64 => Memory.storeInt addr value

def execLoad : VmM (Option ExecResult) := do
  let base ← readGp d.rs1
  let addr ← ofExcept (safeAddr base (decodeMemOffset d.rs2OrImm))
  let value ← onMemory (loadWidth addr (decodeMemWidth d.rs2OrImm))
  writeGp d.rd value
  advance

def execStore : VmM (Option ExecResult) := do
  let base ← readGp d.rs1
  let addr ← ofExcept (safeAddr base (decodeMemOffset d.rs2OrImm))
  let value ← readGp d.rd
  onMemory (storeWidth addr value (decodeMemWidth d.rs2OrImm))
  advance

def execWload : VmM (Option ExecResult) := do
  let base ← readGp d.rs1
  let addr ← ofExcept (safeAddr base (signExtend18 d.rs2OrImm))
  let value ← onMemory (Memory.loadInt 256 addr)
  writeWideChecked d.rd value
  advance

def execWstore : VmM (Option ExecResult) := do
  let base ← readGp d.rs1
  let addr ← ofExcept (safeAddr base (signExtend18 d.rs2OrImm))
  let value ← readWideChecked d.rd
  onMemory (Memory.storeInt addr value)
  advance

def execPush : VmM (Option ExecResult) := do
  let value ← readGp d.rd
  let sp ← onMemory (Memory.stackAlloc 8)
  onMemory (Memory.storeInt sp value)
  advance

def execPop : VmM (Option ExecResult) := do
  let vm ← state
  let sp := vm.memory.stackPointer
  if stackTop.toNat < sp.toNat + 8 then fail .memoryFault
  else do
    let value ← onMemory (Memory.loadInt 64 sp)
    writeGp d.rd value
    change fun vm => { vm with memory := { vm.memory with stackPointer := sp + 8 } }
    advance

/-- `memcpy`. -/
def execMemcpy : VmM (Option ExecResult) := do
  let dst ← readGp d.rd
  let src ← readGp d.rs1
  let len ← readGp (regAt d.rs2OrImm 0)
  if memorySize < len.toNat then fail .memoryFault
  else if len = 0 then advance
  else do
    charge (divCeil len 8 * 3)
    precheckBulkPageBudget (satMul len 2)
    let data ← onMemory (Memory.checkedReadSlice (src.setWidth 32) len.toNat)
    onMemory (Memory.checkedWriteSlice (dst.setWidth 32) data)
    advance

/-! ### Environment -/

/-- `Caller`: the queries with a 64-bit answer. -/
def envGp (vm : Vm) (sub : U32) : Except Trap U64 :=
  if sub = 0 then .ok vm.ctx.blockNumber
  else if sub = 1 then .ok vm.ctx.timestamp
  else if sub = 2 then .ok vm.gasRemaining
  else if sub = 3 then .ok vm.ctx.txNonce
  else if sub = 4 then .ok vm.ctx.txGasLimit
  else .error .invalidOpcode

def execCaller : VmM (Option ExecResult) := do
  let vm ← state
  let value ← ofExcept (envGp vm d.rs2OrImm)
  writeGp d.rd value
  advance

/-- What an address holds, zero by default. -/
def balanceOf (balances : Table Address U256) (addr : Address) : U256 := (balances.lookup addr).getD 0

/-- `Callvalue`: the queries with a wide answer. -/
def envWide (vm : Vm) (sub : U32) : Except Trap U256 :=
  if sub = 0 then .ok vm.ctx.callValue
  else if sub = 1 then .ok vm.ctx.gasPrice
  else if sub = 2 then do
    let addr ← vm.cpu.readWideChecked d.rs1
    .ok (balanceOf vm.ctx.balances (wordBytes addr))
  else if sub = 3 then .ok (bytesWord vm.ctx.caller)
  else if sub = 4 then .ok (bytesWord vm.ctx.selfAddress)
  else if sub = 5 then .ok vm.ctx.txHash
  else if sub = 6 then .ok (bytesWord vm.ctx.blockProposer)
  else .error .invalidOpcode

def execCallvalue : VmM (Option ExecResult) := do
  let vm ← state
  let value ← ofExcept (envWide d vm d.rs2OrImm)
  writeWideChecked d.rd value
  advance

/-- The hash of one of the last 256 blocks, or zero. -/
def recentHash (ctx : ExecutionContext) (height : U64) : U256 :=
  if height < ctx.blockNumber ∧ ctx.blockNumber - height ≤ 256 then
    ctx.blockHashes.getD (ctx.blockNumber - height - 1).toNat 0
  else 0

def execBlockhash : VmM (Option ExecResult) := do
  let height ← readGp d.rs1
  let vm ← state
  writeWideChecked d.rd (recentHash vm.ctx height)
  advance

end

/-! ### Hashing and signatures -/

section

variable (P : Prims) (d : DecodedInstruction)

def execPoseidon : VmM (Option ExecResult) := do
  let addr ← readGp d.rs1
  let len ← readGp (regAt d.rs2OrImm 0)
  charge (divCeil len 32 * 250)
  let data ← onMemory (Memory.checkedReadSlice (addr.setWidth 32) len.toNat)
  writeWideChecked d.rd (bytesWord (P.poseidon2Hash data))
  advance

/-- `verifysig`: the six words of the descriptor are read before any of the three strings. -/
def execVerifySig : VmM (Option ExecResult) := do
  let base ← readGp d.rs1
  let desc : U32 := base.setWidth 32
  let msgPtr ← onMemory (Memory.loadInt 64 desc)
  let msgLen ← onMemory (Memory.loadInt 64 (desc + 8))
  let sigPtr ← onMemory (Memory.loadInt 64 (desc + 16))
  let sigLen ← onMemory (Memory.loadInt 64 (desc + 24))
  let pkPtr ← onMemory (Memory.loadInt 64 (desc + 32))
  let pkLen ← onMemory (Memory.loadInt 64 (desc + 40))
  let msg ← onMemory (Memory.checkedReadSlice (msgPtr.setWidth 32) msgLen.toNat)
  let sig ← onMemory (Memory.checkedReadSlice (sigPtr.setWidth 32) sigLen.toNat)
  let pk ← onMemory (Memory.checkedReadSlice (pkPtr.setWidth 32) pkLen.toNat)
  writeGp d.rd (truth (P.verifyRaw pk msg sig))
  advance

/-- The walk from a leaf to the root. -/
def walkProof (desc : U32) : Nat → Nat → Hash256 → MemM Hash256
  | 0, _, cur => pure cur
  | remaining + 1, i, cur =>
    if 2 ^ 32 ≤ desc.toNat + (72 + i * 32) then fail (.outOfBounds desc)
    else do
      let sibling ← Memory.loadInt 256 (desc + BitVec.ofNat 32 (72 + i * 32))
      walkProof desc remaining (i + 1) (P.poseidon2Pair cur (wordBytes sibling))

/-- `merkle_verify`. -/
def execMerkleVerify : VmM (Option ExecResult) := do
  let base ← readGp d.rs1
  let desc : U32 := base.setWidth 32
  let root ← onMemory (Memory.loadInt 256 desc)
  let leaf ← onMemory (Memory.loadInt 256 (desc + 32))
  let proofLen ← onMemory (Memory.loadInt 64 (desc + 64))
  if 256 < proofLen then do
    writeGp d.rd 0
    advance
  else do
    charge (proofLen * 1000)
    let computed ← onMemory (walkProof P desc proofLen.toNat 0 (wordBytes leaf))
    writeGp d.rd (truth (computed = wordBytes root))
    advance

/-! ### Storage -/

/-- The slot that an instruction names, recorded as accessed. -/
def accessSlot : VmM U256 := do
  let slot ← readWideChecked d.rs1
  change fun vm => { vm with accessedRawSlots := insert slot vm.accessedRawSlots }
  pure slot

/-- Strict access list enforcement. -/
def checkAllowed (key : U256) : VmM Unit := do
  let vm ← state
  match vm.allowedStorageKeys with
  | some allowed => if key ∈ allowed then pure () else fail .accessListViolation
  | none => pure ()

def coldSurcharge : U64 := 1800

/-- The surcharge of the first access to a key. -/
def warmUp (key : U256) : VmM Unit := do
  let vm ← state
  if key ∈ vm.warmStorageKeys then pure ()
  else do
    change fun vm => { vm with warmStorageKeys := insert key vm.warmStorageKeys }
    charge coldSurcharge

def Vm.noteTouched (vm : Vm) (slot key : U256) : Vm :=
  { vm with trace := vm.trace ++ [.touched vm.ctx.selfAddress (slotBytes slot) key] }

/-- Record what was read from storage. -/
def Vm.noteLoaded (vm : Vm) (slot key : U256) (value : Option Bytes) : Vm :=
  { vm with trace := vm.trace ++ [.loaded vm.ctx.selfAddress (slotBytes slot) key value] }

/-- Keep a value of the state in the overlay. -/
def Vm.cache (vm : Vm) (key : U256) (value : Bytes) : Vm := { vm with storage := vm.storage.insert key value }

/-- Read a key: the overlay first, then the state, whose answer is kept in the overlay. -/
def lookupStorage (slot key : U256) : VmM (Option Bytes) := do
  let vm ← state
  match vm.storage.lookup key with
  | some value => pure (some value)
  | none => do
    match ← ask (.slot vm.ctx.selfAddress (slotBytes slot)) with
    | some value => do
      change fun vm => vm.cache key value
      pure (some value)
    | none => pure none

/-- The first bytes of a value, padded with zeros. -/
def padded (value : Option Bytes) (width : Nat) : Bytes :=
  let data := (value.getD []).take width
  data ++ List.replicate (width - data.length) 0

/-- Where `sload` puts the value, by mode. -/
def deliverLoaded (value : Option Bytes) : VmM (Option ExecResult) :=
  if d.rs2OrImm &&& 3 = 0 then do
    writeWide d.rd (ofLe 256 (padded value 32))
    advance
  else if d.rs2OrImm &&& 3 = 1 then do
    let ptr ← readGp (regAt d.rs2OrImm 2)
    match value with
    | some data => do
      charge (divCeil (BitVec.ofNat 64 data.length) 8 * 3)
      precheckBulkPageBudget (BitVec.ofNat 64 data.length)
      onMemory (Memory.checkedWriteSlice (ptr.setWidth 32) data)
      writeGp d.rd (BitVec.ofNat 64 data.length)
      advance
    | none => do
      writeGp d.rd 0
      advance
  else if d.rs2OrImm &&& 3 = 2 then do
    writeGp d.rd (ofLe 64 (padded value 8))
    advance
  else fail .invalidOpcode

/-- `sload`. -/
def execSload : VmM (Option ExecResult) := do
  let slot ← accessSlot d
  let vm ← state
  let key := deriveStorageKey P vm.ctx.selfAddress slot
  checkAllowed key
  change fun vm => vm.noteTouched slot key
  warmUp key
  let value ← lookupStorage slot key
  change fun vm => vm.noteLoaded slot key value
  deliverLoaded d value

def Vm.store (vm : Vm) (key : U256) (value : Bytes) : Vm :=
  { vm with storage := vm.storage.insert key value, trace := vm.trace ++ [.wrote key value] }

/-- The value that `sstore` stores, by mode. -/
def storedOperand : VmM Bytes := do
  if d.rs2OrImm &&& 3 = 0 then do
    let value ← readWideChecked d.rd
    pure (toLe value)
  else if d.rs2OrImm &&& 3 = 2 then do
    let value ← readGp d.rd
    pure (toLe value)
  else if d.rs2OrImm &&& 3 = 1 then do
    let ptr ← readGp (regAt d.rs2OrImm 2)
    let len ← readGp (regAt d.rs2OrImm 6)
    charge (divCeil len 8 * 3)
    precheckBulkPageBudget len
    onMemory (Memory.checkedReadSlice (ptr.setWidth 32) len.toNat)
  else fail .invalidOpcode

/-- The slot that is about to be written, recorded as such. -/
def writeSlot : VmM U256 := do
  let vm ← state
  if vm.staticMode then fail .staticModeViolation
  else do
    let slot ← accessSlot d
    change fun vm => { vm with writtenRawSlots := insert slot vm.writtenRawSlots }
    pure slot

/-- `sstore`. -/
def execSstore : VmM (Option ExecResult) := do
  let slot ← writeSlot d
  let vm ← state
  let key := deriveStorageKey P vm.ctx.selfAddress slot
  checkAllowed key
  change fun vm => vm.noteTouched slot key
  warmUp key
  change fun vm => vm.journalStorage key
  let value ← storedOperand d
  change fun vm => vm.store key value
  advance

/-- The refund for clearing a value. -/
def clearingRefund : U64 := 1500

/-- Grant the refund for a value that is not empty. -/
def Vm.refundCleared (vm : Vm) (key : U256) : Vm :=
  match vm.storage.lookup key with
  | some (_ :: _) => { vm with gasRefund := vm.gasRefund + clearingRefund, trace := vm.trace ++ [.cleared key] }
  | _ => vm

/-- `sdelete`: an empty value takes the place of the old one. The access list is not looked at. -/
def execSdelete : VmM (Option ExecResult) := do
  let slot ← writeSlot d
  let vm ← state
  let key := deriveStorageKey P vm.ctx.selfAddress slot
  change fun vm => vm.noteTouched slot key
  warmUp key
  change fun vm => vm.journalStorage key
  change fun vm => vm.refundCleared key
  change fun vm => vm.store key []
  advance

/-! ### Event logs -/

/-- Thirty-two bytes, one at a time. -/
def loadEach : Nat → U32 → MemM Bytes
  | 0, _ => pure []
  | count + 1, addr => do
    let byte ← Memory.loadInt 8 addr
    let rest ← loadEach count (addr + 1)
    pure (byte :: rest)

def readTopics : Nat → U32 → MemM (List U256)
  | 0, _ => pure []
  | count + 1, addr => do
    let topic ← loadEach 32 addr
    let rest ← readTopics count (addr + 32)
    pure (ofLe 256 topic :: rest)

def Vm.emit (vm : Vm) (topics : List U256) (data : Bytes) : Vm :=
  { vm with logs := vm.logs ++ [{ address := vm.ctx.selfAddress, topics, data }] }

/-- `log`. -/
def execLog : VmM (Option ExecResult) := do
  let vm ← state
  if vm.staticMode then fail .staticModeViolation
  else do
    let count := (d.rs2OrImm &&& 7).toNat
    if 4 < count then fail .invalidOpcode
    else do
      let base ← readGp d.rs1
      let desc : U32 := base.setWidth 32
      let topics ← onMemory (readTopics count desc)
      let afterTopics := desc + BitVec.ofNat 32 (count * 32)
      let dataPtr ← onMemory (Memory.loadInt 64 afterTopics)
      let dataLen ← onMemory (Memory.loadInt 64 (afterTopics + 8))
      let data ← onMemory (Memory.checkedReadSlice (dataPtr.setWidth 32) dataLen.toNat)
      charge (100 + dataLen * 8 + BitVec.ofNat 64 (count * 50))
      change fun vm => vm.emit topics data
      advance

end

end Pyde.PVM
