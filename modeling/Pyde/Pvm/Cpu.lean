/-
Module: Pyde.Pvm.Cpu
Purpose: The instruction set of the virtual machine: opcodes, the 32-bit instruction word and the gas table; the
  register file and the arithmetic on it.
Trusted boundary: none
-/
import Pyde.Account.Types

namespace Pyde.PVM

open ByteCodec

abbrev U256 := BitVec 256

inductive Opcode where
  | add | sub | mul | div | mod | and | or | xor
  | wadd | wsub | wmul | wdiv | wmod | wand | wor | wxor | wnot | wshift
  | addi | not | shl | shr | sar | lt | gt | eq | slt | sgt
  | load | store | push | pop | wload | wstore | wmov | narrow | widen
  | jmp | beq | bne | blt | bge | call | ret
  | sload | sstore | sdelete | caller | callvalue | blockhash | callExt | delegate | create | selfdestruct
  | log | revert | halt
  | poseidon | verifySig | merkleVerify
  | assert | memcpy | weq | wlt
  | invalid
deriving DecidableEq

namespace Opcode

def table : List Opcode :=
  [weq, add, sub, mul, div, mod, and, or, xor, wadd, wsub, wmul, wdiv, wmod, addi, not,
    load, store, push, pop, shl, shr, sar, lt, jmp, beq, bne, blt, bge, call, ret, wnot,
    sload, sstore, sdelete, caller, callvalue, blockhash, callExt, delegate,
    create, selfdestruct, log, revert, halt, wand, wor, wxor,
    poseidon, verifySig, merkleVerify, gt, eq, slt, sgt, wload,
    assert, memcpy, wshift, wstore, wmov, narrow, widen, wlt]

def fromU8 (value : U8) : Opcode := table.getD value.toNat invalid

def toU8 : Opcode → U8
  | weq => 0x00 | add => 0x01 | sub => 0x02 | mul => 0x03
  | div => 0x04 | mod => 0x05 | and => 0x06 | or => 0x07
  | xor => 0x08 | wadd => 0x09 | wsub => 0x0A | wmul => 0x0B
  | wdiv => 0x0C | wmod => 0x0D | addi => 0x0E | not => 0x0F
  | load => 0x10 | store => 0x11 | push => 0x12 | pop => 0x13
  | shl => 0x14 | shr => 0x15 | sar => 0x16 | lt => 0x17
  | jmp => 0x18 | beq => 0x19 | bne => 0x1A | blt => 0x1B
  | bge => 0x1C | call => 0x1D | ret => 0x1E | wnot => 0x1F
  | sload => 0x20 | sstore => 0x21 | sdelete => 0x22 | caller => 0x23
  | callvalue => 0x24 | blockhash => 0x25 | callExt => 0x26 | delegate => 0x27
  | create => 0x28 | selfdestruct => 0x29 | log => 0x2A | revert => 0x2B
  | halt => 0x2C | wand => 0x2D | wor => 0x2E | wxor => 0x2F
  | poseidon => 0x30 | verifySig => 0x31 | merkleVerify => 0x32 | gt => 0x33
  | eq => 0x34 | slt => 0x35 | sgt => 0x36 | wload => 0x37
  | assert => 0x38 | memcpy => 0x39 | wshift => 0x3A | wstore => 0x3B
  | wmov => 0x3C | narrow => 0x3D | widen => 0x3E | wlt => 0x3F
  | invalid => 0xFF

end Opcode

/-! ### Instruction words -/

structure DecodedInstruction where
  opcode : Opcode
  rd : U8
  rs1 : U8
  rs2OrImm : U32
deriving DecidableEq

def encode (op : Opcode) (rd rs1 : U8) (rs2OrImm : U32) : U32 :=
  ((op.toU8.setWidth 32 &&& 0x3F) <<< 26) ||| ((rd.setWidth 32 &&& 0x0F) <<< 22) |||
    ((rs1.setWidth 32 &&& 0x0F) <<< 18) ||| (rs2OrImm &&& 0x3FFFF)

def decode (w : U32) : DecodedInstruction where
  opcode := Opcode.fromU8 (((w >>> 26) &&& 0x3F).setWidth 8)
  rd := ((w >>> 22) &&& 0x0F).setWidth 8
  rs1 := ((w >>> 18) &&& 0x0F).setWidth 8
  rs2OrImm := w &&& 0x3FFFF

/-- The register that the low four bits of an immediate name, after a shift. -/
def regAt (imm : U32) (shift : Nat) : U8 := ((imm >>> shift) &&& 0x0F).setWidth 8

def bitAt (imm : U32) (pos : Nat) : Bool := (imm >>> pos) &&& 1 = 1

def signExtend18 (raw : U32) : U32 :=
  if raw &&& (1 <<< 17) ≠ 0 then (raw &&& 0x3FFFF) ||| ~~~ (0x3FFFF : U32) else raw &&& 0x3FFFF

inductive MemWidth where
  | w8 | w16 | w32 | w64
deriving DecidableEq

def decodeMemWidth (raw : U32) : MemWidth :=
  if raw &&& 3 = 0 then .w8 else if raw &&& 3 = 1 then .w16 else if raw &&& 3 = 2 then .w32 else .w64

def decodeMemOffset (raw : U32) : U32 :=
  let bits := (raw >>> 2) &&& 0xFFFF
  if bits &&& (1 <<< 15) ≠ 0 then bits ||| 0xFFFF0000 else bits

/-! ### Gas -/

def totalGasTable : List U64 :=
  [4, 3, 3, 5, 8, 8, 3, 3, 3, 6, 6, 12, 15, 15, 3, 3, 5, 5, 5, 5, 3, 3, 3, 3, 3, 3, 3, 3, 3, 50, 5, 4,
    100, 200, 200, 5, 5, 20, 2500, 2500, 32000, 5000, 375, 3, 3, 4, 4, 4, 1000, 20000, 5000, 3, 3, 3, 3, 8,
    3, 5, 4, 8, 3, 3, 3, 4]

def totalGas (opcode : U8) : U64 := totalGasTable.getD (opcode &&& 0x3F).toNat 0

def minGas : Nat := 3

/-- Every instruction costs at least the minimum, and no more than a call frame or a constructor. -/
theorem totalGas_bounds (op : Opcode) : minGas ≤ (totalGas op.toU8).toNat ∧ (totalGas op.toU8).toNat ≤ 32000 := by
  cases op <;> decide

inductive Trap where
  | overflow
  | underflow
  | divisionByZero
  | invalidOpcode
  | narrowOverflow
  | memoryFault
  | stackOverflow
  | stackUnderflow
  | outOfGas
  | staticModeViolation
  | reentrancy
  | accessListViolation
deriving DecidableEq

/-- The thirty-two bytes of a wide value. -/
def wordBytes (word : U256) : Hash256 := ⟨toLe word, by simp⟩

/-- The wide value that thirty-two bytes spell. -/
def bytesWord (bytes : Hash256) : U256 := ofLe 256 bytes.toList

theorem bytesWord_wordBytes (word : U256) : bytesWord (wordBytes word) = word := ofLe_toLe (by decide) word

theorem wordBytes_bytesWord (bytes : Hash256) : wordBytes (bytesWord bytes) = bytes := by
  apply List.Vector.eq
  exact toLe_ofLe (by decide) bytes.toList_length

/-- The CPU register file. The decoded register field has four bits, so sixteen registers can be named. -/
structure Cpu where
  gp : U8 → U64
  wide : U8 → U256

namespace Cpu

def new : Cpu where
  gp := fun _ => 0
  wide := fun _ => 0

def readGp (cpu : Cpu) (reg : U8) : U64 := if reg = 0 then 0 else cpu.gp reg

/-- `write_gp`: a write to the first register is discarded. -/
def writeGp (cpu : Cpu) (reg : U8) (value : U64) : Cpu :=
  if reg = 0 then cpu else { cpu with gp := Function.update cpu.gp reg value }

def readWideChecked (cpu : Cpu) (reg : U8) : Except Trap U256 :=
  if 8 ≤ reg then .error .invalidOpcode else .ok (cpu.wide reg)

/-- `write_wide`: the index is masked. -/
def writeWide (cpu : Cpu) (reg : U8) (value : U256) : Cpu :=
  { cpu with wide := Function.update cpu.wide (reg &&& 7) value }

def writeWideChecked (cpu : Cpu) (reg : U8) (value : U256) : Except Trap Cpu :=
  if 8 ≤ reg then .error .invalidOpcode
  else .ok { cpu with wide := Function.update cpu.wide reg value }

end Cpu

/-! ### Wide arithmetic -/

def wideAdd (a b : U256) : Except Trap U256 := if a.toNat + b.toNat < 2 ^ 256 then .ok (a + b) else .error .overflow

def wideSub (a b : U256) : Except Trap U256 := if b ≤ a then .ok (a - b) else .error .underflow

def wideMul (a b : U256) : Except Trap U256 := if a.toNat * b.toNat < 2 ^ 256 then .ok (a * b) else .error .overflow

def wideDiv (a b : U256) : Except Trap U256 := if b = 0 then .error .divisionByZero else .ok (a / b)

def wideMod (a b : U256) : Except Trap U256 := if b = 0 then .error .divisionByZero else .ok (a % b)

def narrow (value : U256) : Option U64 := if value.toNat < 2 ^ 64 then some (value.setWidth 64) else none

namespace Cpu

variable (cpu : Cpu) (d : DecodedInstruction)

/-- `wd = ws1 op ws2`. The second register is named by the low byte of the immediate. -/
def wideBinary (op : U256 → U256 → Except Trap U256) : Except Trap Cpu := do
  let ws1 ← cpu.readWideChecked d.rs1
  let ws2 ← cpu.readWideChecked (d.rs2OrImm.setWidth 8)
  let res ← op ws1 ws2
  cpu.writeWideChecked d.rd res

/-- `rd = ws1 op ws2`. -/
def wideCompare (op : U256 → U256 → Bool) : Except Trap Cpu := do
  let ws1 ← cpu.readWideChecked d.rs1
  let ws2 ← cpu.readWideChecked (d.rs2OrImm.setWidth 8)
  .ok (cpu.writeGp d.rd (if op ws1 ws2 then 1 else 0))

/-- `wd = op ws1`. -/
def wideUnary (op : U256 → U256) : Except Trap Cpu := do
  let ws1 ← cpu.readWideChecked d.rs1
  cpu.writeWideChecked d.rd (op ws1)

/-- The amount of a wide shift: the low 32 bits of a register. -/
def shiftAmount : Nat := ((cpu.readGp (regAt d.rs2OrImm 1)).setWidth 32).toNat

/-- The result of a wide shift, left or right by bit 0 of the immediate. -/
def shifted (word : U256) : U256 :=
  if 256 ≤ cpu.shiftAmount d then 0
  else if bitAt d.rs2OrImm 0 then word >>> cpu.shiftAmount d else word <<< cpu.shiftAmount d

/-- `exec_wide`, which decodes the word that the caller encoded. -/
def execWide (instr : U32) : Except Trap Cpu :=
  let d := decode instr
  match d.opcode with
  | .wadd => cpu.wideBinary d wideAdd
  | .wsub => cpu.wideBinary d wideSub
  | .wmul => cpu.wideBinary d wideMul
  | .wdiv => cpu.wideBinary d wideDiv
  | .wmod => cpu.wideBinary d wideMod
  | .wand => cpu.wideBinary d fun a b => .ok (a &&& b)
  | .wor => cpu.wideBinary d fun a b => .ok (a ||| b)
  | .wxor => cpu.wideBinary d fun a b => .ok (a ^^^ b)
  | .wnot => cpu.wideUnary d fun a => ~~~ a
  | .wshift => cpu.wideUnary d (cpu.shifted d)
  | .wmov => cpu.wideUnary d id
  | .narrow => do
    let ws1 ← cpu.readWideChecked d.rs1
    match narrow ws1 with
    | some value => .ok (cpu.writeGp d.rd value)
    | none => .error .narrowOverflow
  | .widen => cpu.writeWideChecked d.rd ((cpu.readGp d.rs1).setWidth 256)
  | .weq => cpu.wideCompare d fun a b => a = b
  | .wlt => cpu.wideCompare d fun a b => a < b
  | _ => .error .invalidOpcode

/-! ### Results of wide instructions -/

def shiftResult (right : Bool) (word amt : Nat) : Nat :=
  if 256 ≤ amt then 0 else if right then word / 2 ^ amt else word * 2 ^ amt % 2 ^ 256

/-- The integer that a wide instruction has to leave in its destination, if there is one. -/
def wideResult : Option Nat :=
  let a := (cpu.wide d.rs1).toNat
  let b := (cpu.wide (d.rs2OrImm.setWidth 8)).toNat
  let amt := (cpu.readGp (regAt d.rs2OrImm 1)).toNat
  match d.opcode with
  | .wadd => some (a + b)
  | .wsub => if b ≤ a then some (a - b) else none
  | .wmul => some (a * b)
  | .wdiv => if b = 0 then none else some (a / b)
  | .wmod => if b = 0 then none else some (a % b)
  | .wand => some (a &&& b)
  | .wor => some (a ||| b)
  | .wxor => some (a ^^^ b)
  | .wnot => some (2 ^ 256 - 1 - a)
  | .wshift => some (shiftResult (bitAt d.rs2OrImm 0) a amt)
  | .wmov | .narrow => some a
  | .widen => some (cpu.readGp d.rs1).toNat
  | .weq => some (if a = b then 1 else 0)
  | .wlt => some (if a < b then 1 else 0)
  | _ => none

/-- Only the destination has changed, and it holds the result. -/
def Leaves (res : Nat) (cpu' : Cpu) : Prop :=
  match d.opcode with
  | .narrow | .weq | .wlt => ∃ value : U64, value.toNat = res ∧ cpu' = cpu.writeGp d.rd value
  | _ => ∃ value : U256, value.toNat = res ∧ cpu' = { cpu with wide := Function.update cpu.wide d.rd value }

/-- The instruction traps or leaves its result. -/
def WideExact (instr : U32) : Prop :=
  ∀ cpu', cpu.execWide instr = .ok cpu' → ∃ res, cpu.wideResult (decode instr) = some res ∧
    cpu.Leaves (decode instr) res cpu'

variable {cpu d} {cpu' : Cpu} {instr : U32}

theorem bind_ok {ε α β : Type} {x : Except ε α} {f : α → Except ε β} {b : β} :
    (x >>= f) = .ok b ↔ ∃ a, x = .ok a ∧ f a = .ok b := by
  cases x with
  | error e | ok a => simp [bind, Except.bind]

section

variable {ε α : Type} {c : Prop} [Decidable c] {a b : α} {e : ε}

theorem ite_ok : (if c then Except.ok a else .error e) = .ok b ↔ c ∧ a = b := by split <;> simp_all

theorem ite_error_ok : (if c then Except.error e else .ok a) = .ok b ↔ ¬ c ∧ a = b := by split <;> simp_all

end

/-- What an operation on two wide registers leaves. -/
theorem leaves_wideBinary {op : U256 → U256 → Except Trap U256} {spec : Option Nat}
    (h : cpu.wideBinary d op = .ok cpu')
    (hop : ∀ value, op (cpu.wide d.rs1) (cpu.wide (d.rs2OrImm.setWidth 8)) = .ok value → spec = some value.toNat) :
    ∃ res, spec = some res ∧ ∃ value : U256, value.toNat = res ∧
      cpu' = { cpu with wide := Function.update cpu.wide d.rd value } := by
  simp only [wideBinary, readWideChecked, writeWideChecked, bind_ok, ite_error_ok] at h
  obtain ⟨_, ⟨-, rfl⟩, _, ⟨-, rfl⟩, value, hvalue, -, rfl⟩ := h
  exact ⟨_, hop value hvalue, value, rfl, rfl⟩

theorem leaves_wideCompare {op : U256 → U256 → Bool} {p : Prop} [Decidable p] (h : cpu.wideCompare d op = .ok cpu')
    (hop : op (cpu.wide d.rs1) (cpu.wide (d.rs2OrImm.setWidth 8)) = decide p) :
    ∃ res, some (if p then 1 else 0) = some res ∧
      ∃ value : U64, value.toNat = res ∧ cpu' = cpu.writeGp d.rd value := by
  simp only [wideCompare, readWideChecked, bind_ok, ite_error_ok, Except.ok.injEq] at h
  obtain ⟨_, ⟨-, rfl⟩, _, ⟨-, rfl⟩, rfl⟩ := h
  refine ⟨_, rfl, _, ?_, rfl⟩
  rw [hop]
  by_cases hp : p
  · simp [hp]
  · simp [hp]

theorem wideUnary_ok {op : U256 → U256} : cpu.wideUnary d op = .ok cpu' ↔ ¬ 8 ≤ d.rs1 ∧ ¬ 8 ≤ d.rd ∧
    { cpu with wide := Function.update cpu.wide d.rd (op (cpu.wide d.rs1)) } = cpu' := by
  simp [wideUnary, readWideChecked, writeWideChecked, bind_ok, ite_error_ok, and_assoc]

theorem toNat_shifted (word : U256) : (cpu.shifted d word).toNat =
    shiftResult (bitAt d.rs2OrImm 0) word.toNat ((cpu.readGp (regAt d.rs2OrImm 1)).toNat % 2 ^ 32) := by
  have hamount : cpu.shiftAmount d = (cpu.readGp (regAt d.rs2OrImm 1)).toNat % 2 ^ 32 := BitVec.toNat_setWidth ..
  unfold shifted shiftResult
  rw [hamount]
  split
  · rfl
  split
  · rw [BitVec.toNat_ushiftRight, Nat.shiftRight_eq_div_pow]
  · rw [BitVec.toNat_shiftLeft, Nat.shiftLeft_eq]

theorem wideExact_of_ne (hop : (decode instr).opcode ≠ .wshift) : cpu.WideExact instr := by
  intro cpu' h
  unfold execWide at h
  generalize decode instr = d at *
  obtain ⟨opcode, rd, rs1, imm⟩ := d
  cases opcode with
  | wshift => exact absurd rfl hop
  | wadd | wmul =>
    refine leaves_wideBinary h fun value hvalue => ?_
    obtain ⟨hfits, rfl⟩ := ite_ok.mp hvalue
    exact congrArg some (Nat.mod_eq_of_lt hfits).symm
  | wsub =>
    refine leaves_wideBinary h fun value hvalue => ?_
    obtain ⟨hle, rfl⟩ := ite_ok.mp hvalue
    rw [BitVec.toNat_sub_of_le hle]
    exact if_pos (BitVec.le_def.mp hle)
  | wdiv | wmod =>
    refine leaves_wideBinary h fun value hvalue => ?_
    obtain ⟨hne, rfl⟩ := ite_error_ok.mp hvalue
    exact if_neg fun hzero => hne (BitVec.eq_of_toNat_eq hzero)
  | wand | wor | wxor =>
    refine leaves_wideBinary h fun value hvalue => ?_
    cases hvalue
    rfl
  | wnot =>
    obtain ⟨-, -, rfl⟩ := wideUnary_ok.mp h
    exact ⟨_, rfl, _, BitVec.toNat_not, rfl⟩
  | wmov =>
    obtain ⟨-, -, rfl⟩ := wideUnary_ok.mp h
    exact ⟨_, rfl, _, rfl, rfl⟩
  | widen =>
    obtain ⟨-, rfl⟩ := ite_error_ok.mp h
    exact ⟨_, rfl, _, BitVec.toNat_setWidth_of_le (by decide), rfl⟩
  | narrow =>
    obtain ⟨_, hread, hnarrow⟩ := bind_ok.mp h
    obtain ⟨-, rfl⟩ := ite_error_ok.mp hread
    unfold PVM.narrow at hnarrow
    by_cases hfits : (cpu.wide rs1).toNat < 2 ^ 64
    · rw [if_pos hfits] at hnarrow
      cases hnarrow
      exact ⟨_, rfl, (cpu.wide rs1).setWidth 64, Nat.mod_eq_of_lt hfits, rfl⟩
    · rw [if_neg hfits] at hnarrow
      cases hnarrow
  | weq => exact leaves_wideCompare h (decide_eq_decide.mpr BitVec.toNat_inj.symm)
  | wlt => exact leaves_wideCompare h (decide_eq_decide.mpr BitVec.lt_def)
  | _ => cases h

/-- A shift takes only the low 32 bits of its amount. -/
theorem wideExact_shift_iff (hop : (decode instr).opcode = .wshift) : cpu.WideExact instr ↔
    (let d := decode instr
    let amt := (cpu.readGp (regAt d.rs2OrImm 1)).toNat
    ¬ 8 ≤ d.rs1 → ¬ 8 ≤ d.rd → shiftResult (bitAt d.rs2OrImm 0) (cpu.wide d.rs1).toNat (amt % 2 ^ 32) =
      shiftResult (bitAt d.rs2OrImm 0) (cpu.wide d.rs1).toNat amt) := by
  unfold WideExact execWide wideResult Leaves
  simp only [hop, wideUnary_ok, ← toNat_shifted]
  constructor
  · intro h hrs1 hrd
    obtain ⟨_, hresult, value, hvalue, hleft⟩ := h _ ⟨hrs1, hrd, rfl⟩
    have hsame := congrFun (congrArg Cpu.wide hleft) (decode instr).rd
    simp only [Function.update_self] at hsame
    rw [hsame, hvalue]
    exact (Option.some.inj hresult).symm
  · rintro h cpu' ⟨hrs1, hrd, rfl⟩
    exact ⟨_, rfl, _, h hrs1 hrd, rfl⟩

/-- Wide instructions are exact but for a shift whose amount does not fit into 32 bits. -/
theorem wide_exact_iff (cpu : Cpu) (instr : U32) : cpu.WideExact instr ↔
    (let d := decode instr
    let amt := (cpu.readGp (regAt d.rs2OrImm 1)).toNat
    d.opcode = .wshift → ¬ 8 ≤ d.rs1 → ¬ 8 ≤ d.rd → 2 ^ 32 ≤ amt →
      shiftResult (bitAt d.rs2OrImm 0) (cpu.wide d.rs1).toNat (amt % 2 ^ 32) = 0) := by
  by_cases hop : (decode instr).opcode = .wshift
  case neg => exact ⟨fun _ hshift => absurd hshift hop, fun _ => wideExact_of_ne hop⟩
  rw [wideExact_shift_iff hop]
  refine ⟨fun h _ hrs1 hrd hlarge => (h hrs1 hrd).trans (if_pos (by omega)), fun h hrs1 hrd => ?_⟩
  by_cases hlarge : 2 ^ 32 ≤ (cpu.readGp (regAt (decode instr).rs2OrImm 1)).toNat
  · exact (h hop hrs1 hrd hlarge).trans (if_pos (by omega)).symm
  · rw [Nat.mod_eq_of_lt (Nat.not_le.mp hlarge)]

/-- One shifted to the left by `2 ^ 32`. -/
theorem shift_amount_cut : ¬ WideExact { gp := fun _ => 2 ^ 32, wide := fun _ => 1 } (encode .wshift 0 0 2) := by
  rw [wideExact_shift_iff (by decide)]
  decide

end Cpu

end Pyde.PVM
