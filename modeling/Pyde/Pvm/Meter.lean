/-
Module: Pyde.Pvm.Meter
Purpose: What the record of a run says about gas, and the relations between two states of a frame that the parts of
  an instruction keep to: the meter moves with the record, and nothing else that matters outside changes.
Trusted boundary: none
-/
import Pyde.Pvm.Frames

namespace Pyde.PVM

open ByteCodec StateProgram Fallible List

/-! ### Sums over a record -/

def Event.gasCharged : Event → Nat
  | .charged gas => gas.toNat
  | _ => 0

def Event.gasRefused : Event → Nat
  | .overdrawn gas => gas.toNat
  | _ => 0

def Event.instructions : Event → Nat
  | .ran _ => 1
  | _ => 0

def Event.clearings : Event → Nat
  | .cleared _ => 1
  | _ => 0

/-- Gas that was charged and could be paid. -/
def gasCharged (trace : List Event) : Nat := (trace.map Event.gasCharged).sum

/-- Gas that was charged and could not be paid. -/
def gasRefused (trace : List Event) : Nat := (trace.map Event.gasRefused).sum

/-- What the meters count: a charge is added before it is compared with the limit. -/
def gasMetered (trace : List Event) : Nat := gasCharged trace + gasRefused trace

/-- Instructions that were paid for and begun. -/
def instructionsRun (trace : List Event) : Nat := (trace.map Event.instructions).sum

/-- Values that were cleared for a refund. -/
def clearings (trace : List Event) : Nat := (trace.map Event.clearings).sum

section

variable (t u : List Event)

@[simp] theorem gasCharged_append : gasCharged (t ++ u) = gasCharged t + gasCharged u := by simp [gasCharged]

@[simp] theorem gasRefused_append : gasRefused (t ++ u) = gasRefused t + gasRefused u := by simp [gasRefused]

theorem gasMetered_append : gasMetered (t ++ u) = gasMetered t + gasMetered u := by
  simp only [gasMetered, gasCharged_append, gasRefused_append]
  omega

theorem gasCharged_le_gasMetered : gasCharged t ≤ gasMetered t := Nat.le_add_right _ _

@[simp] theorem instructionsRun_append : instructionsRun (t ++ u) = instructionsRun t + instructionsRun u := by
  simp [instructionsRun]

@[simp] theorem clearings_append : clearings (t ++ u) = clearings t + clearings u := by simp [clearings]

end

/-! ### Memory -/

def pageCount : Nat := memorySize / pageSize

/-- No byte outside of the memory was addressed, and no page outside of the table of pages. -/
structure Memory.Sane (m : Memory) : Prop where
  pages : m.pagesTouched ⊆ Finset.range pageCount
  ranges : ∀ range ∈ m.accessed, range.1 + range.2 ≤ memorySize

theorem Memory.new_sane : Memory.new.Sane := ⟨by simp [Memory.new], by simp [Memory.new]⟩

theorem Memory.Sane.touchPage {m : Memory} (h : m.Sane) {page : Nat} (hpage : page < pageCount) :
    (m.touchPage page).Sane := by
  unfold Memory.touchPage
  split
  · exact h
  · exact ⟨Finset.insert_subset (Finset.mem_range.2 hpage) h.pages, h.ranges⟩

theorem Memory.Sane.touchPages {pages : List Nat} (hpages : ∀ page ∈ pages, page < pageCount) {m : Memory}
    (h : m.Sane) : (pages.foldl Memory.touchPage m).Sane :=
  foldlRecOn pages _ h fun _ h page hpage => h.touchPage (hpages page hpage)

theorem Memory.Sane.range {m : Memory} (h : m.Sane) {addr len : Nat} (hfits : addr + len ≤ memorySize) :
    ∀ range ∈ m.accessed ++ [(addr, len)], range.1 + range.2 ≤ memorySize := by
  intro range hrange
  rcases List.mem_append.1 hrange with hold | hnew
  · exact h.ranges range hold
  · rw [List.mem_singleton.1 hnew]
    exact hfits

/-- Sanity is all that the relation between memories has to say. -/
def Memory.Keeps (m m' : Memory) : Prop := m.Sane → m'.Sane

theorem Memory.keeps_composable : Composable Memory.Keeps Memory.Keeps where
  refl := fun _ h => h
  trans := fun h h' hs => h' (h hs)
  fails := fun h h' hs => h' (h hs)
  stop := fun _ h => h

def KeepsSane (oracle : StateKey → Option Bytes) {α : Type} (p : MemM α) : Prop :=
  Moves oracle Memory.Keeps Memory.Keeps p

variable {oracle : StateKey → Option Bytes}

namespace KeepsSane

variable {α : Type} (addr : U32)

theorem pure (a : α) : KeepsSane oracle (Pure.pure a : MemM α) := Moves.pure Memory.keeps_composable a

theorem fail (e : MemoryError) : KeepsSane oracle (Fallible.fail e : MemM α) := Moves.fail Memory.keeps_composable e

theorem bind {β : Type} {p : MemM α} {f : α → MemM β} (hp : KeepsSane oracle p)
    (hf : ∀ a, KeepsSane oracle (f a)) : KeepsSane oracle (p >>= f) :=
  Moves.bind Memory.keeps_composable hp hf

theorem state : KeepsSane oracle (Fallible.state : MemM Memory) := Moves.state Memory.keeps_composable

theorem change {f : Memory → Memory} (h : ∀ m, m.Sane → (f m).Sane) :
    KeepsSane oracle (Fallible.change f : MemM Unit) := Moves.change h

theorem loadCode (bytecode : Bytes) : KeepsSane oracle (Memory.loadCode bytecode) := by
  unfold Memory.loadCode
  split
  · exact fail _
  next hfits =>
    have hlimit : codeEndLimit.toNat ≤ memorySize := by decide
    exact change fun _ h => ⟨h.pages, h.range (by omega)⟩

theorem exec_checkAccess (len : U32) (m : Memory) :
    After (fun _ m' => Memory.Keeps m m' ∧ addr.toNat + len.toNat ≤ memorySize) (fun _ => Memory.Keeps m)
      ((Memory.checkAccess addr len).exec oracle m) := by
  unfold Memory.checkAccess
  split
  · exact fun h => h
  split
  · exact fun h => h
  rename_i hlow hfits
  refine ⟨fun h => h.touchPages fun page hpage => ?_, Nat.not_lt.1 hfits⟩
  have hmem := mem_range'_1.1 hpage
  have hpast : nullPageEnd.toNat ≤ addr.toNat := BitVec.not_lt.1 hlow
  have hnull : nullPageEnd.toNat = 4096 := rfl
  simp only [pageCount, memorySize, pageSize] at hfits hmem ⊢
  omega

theorem checkWritable : KeepsSane oracle (Memory.checkWritable addr) := by
  unfold Memory.checkWritable
  split
  · exact fail _
  · exact pure _

theorem stackAlloc (count : U32) : KeepsSane oracle (Memory.stackAlloc count) := by
  apply bind state
  intro m
  split
  · exact fail _
  split
  · exact fail _
  · exact bind (change fun _ h => ⟨h.pages, h.ranges⟩) fun _ => pure _

theorem checked {count : Nat} (hcount : count ≤ memorySize) {p : MemM α}
    (hp : addr.toNat + count ≤ memorySize → KeepsSane oracle p) :
    KeepsSane oracle (do Memory.checkAccess addr (BitVec.ofNat 32 count); p) := by
  constructor
  intro m
  apply After.bind (exec_checkAccess addr _ m)
  rintro _ m' ⟨hkeeps, hfits⟩
  have hlen : (BitVec.ofNat 32 count).toNat = count := by
    rw [BitVec.toNat_ofNat, Nat.mod_eq_of_lt]
    rw [memorySize] at hcount
    omega
  rw [hlen] at hfits
  exact ((hp hfits).after m').mono (fun _ _ => Memory.keeps_composable.trans hkeeps)
    fun _ _ => Memory.keeps_composable.fails hkeeps

theorem readBytes {addr len : Nat} (hfits : addr + len ≤ memorySize) : KeepsSane oracle (Memory.readBytes addr len) :=
  bind (change fun _ h => ⟨h.pages, h.range hfits⟩) fun _ => bind state fun _ => pure _

theorem loadBytes {count : Nat} (hcount : count ≤ memorySize) :
    KeepsSane oracle (Memory.loadBytes addr count) := checked addr hcount readBytes

theorem storeBytes {data : Bytes} (hlen : data.length ≤ memorySize) :
    KeepsSane oracle (Memory.storeBytes addr data) :=
  checked addr hlen fun hfits => bind (checkWritable addr) fun _ => change fun _ h => ⟨h.pages, h.range hfits⟩

theorem loadInt {w : Nat} (hw : w ≤ 256) (addr : U32) : KeepsSane oracle (Memory.loadInt w addr) := by
  have hcount : w / 8 ≤ memorySize := by rw [memorySize]; omega
  exact bind (loadBytes addr hcount) fun _ => pure _

theorem storeInt {w : Nat} (hw : w ≤ 256) (addr : U32) (value : BitVec w) :
    KeepsSane oracle (Memory.storeInt addr value) := by
  have hlen : (toLe value).length ≤ memorySize := by rw [length_toLe, memorySize]; omega
  exact storeBytes addr hlen

theorem checkedReadSlice (len : Nat) : KeepsSane oracle (Memory.checkedReadSlice addr len) := by
  unfold Memory.checkedReadSlice
  split
  · exact pure _
  split
  · exact fail _
  next hlen => exact loadBytes addr (Nat.not_lt.1 hlen)

theorem checkedWriteSlice (data : Bytes) : KeepsSane oracle (Memory.checkedWriteSlice addr data) := by
  unfold Memory.checkedWriteSlice
  split
  · exact pure _
  split
  · exact fail _
  next hlen => exact storeBytes addr (Nat.not_lt.1 hlen)

end KeepsSane

/-! ### The meter -/

/-- Nothing more was charged than the limit allows. -/
def Vm.Within (vm : Vm) : Prop := vm.gasLimit = 0 ∨ vm.gasUsedTotal ≤ vm.gasLimit

/-- The events of a part of an instruction that goes well: every charge is accepted. -/
structure Meters (s s' : Vm) (events : List Event) : Prop where
  trace : s'.trace = s.trace ++ events
  used : s'.gasUsedTotal.toNat = s.gasUsedTotal.toNat + gasCharged events
  refused : gasRefused events = 0
  refund : s'.gasRefund.toNat ≤ s.gasRefund.toNat + clearingRefund.toNat * clearings events
  within : s.Within → s'.Within
  memory : s.memory.Sane → s'.memory.Sane

variable (reg : U8) {s t s' s'' : Vm}

theorem Meters.trans {events events' : List Event} (h : Meters s s' events)
    (h' : Meters s' s'' events') : Meters s s'' (events ++ events') where
  trace := by rw [h'.trace, h.trace, append_assoc]
  used := by rw [h'.used, h.used, gasCharged_append, Nat.add_assoc]
  refused := by rw [gasRefused_append, h.refused, h'.refused]
  refund := by
    have hfirst := h.refund
    have hsecond := h'.refund
    rw [clearings_append, Nat.mul_add]
    omega
  within := fun hs => h'.within (h.within hs)
  memory := fun hs => h'.memory (h.memory hs)

/-- What of a frame matters to other frames and to storage. -/
structure World where
  gasLimit : U64
  gasRefund : U64
  ctx : ExecutionContext
  storage : Table U256 Bytes
  logs : List EventLog
  storageJournal : List (U256 × Option Bytes)
  storageJournalKeys : Finset U256
  balanceJournal : List (Address × Option U256)
  balanceJournalKeys : Finset Address
  contracts : Table Address Bytes
  staticMode : Bool
  extCallDepth : Nat
  allowedStorageKeys : Option (Finset U256)
  createCounter : Table Address U64

def Vm.world (vm : Vm) : World where
  gasLimit := vm.gasLimit
  gasRefund := vm.gasRefund
  ctx := vm.ctx
  storage := vm.storage
  logs := vm.logs
  storageJournal := vm.storageJournal
  storageJournalKeys := vm.storageJournalKeys
  balanceJournal := vm.balanceJournal
  balanceJournalKeys := vm.balanceJournalKeys
  contracts := vm.contracts
  staticMode := vm.staticMode
  extCallDepth := vm.extCallDepth
  allowedStorageKeys := vm.allowedStorageKeys
  createCounter := vm.createCounter

section

variable {s t : Vm} (h : t.world = s.world)

include h

theorem gasLimit_of_world : t.gasLimit = s.gasLimit := congrArg World.gasLimit h

theorem gasRefund_of_world : t.gasRefund = s.gasRefund := congrArg World.gasRefund h

theorem ctx_of_world : t.ctx = s.ctx := congrArg World.ctx h

theorem storage_of_world : t.storage = s.storage := congrArg World.storage h

theorem logs_of_world : t.logs = s.logs := congrArg World.logs h

theorem staticMode_of_world : t.staticMode = s.staticMode := congrArg World.staticMode h

theorem storageJournal_of_world : t.storageJournal = s.storageJournal := congrArg World.storageJournal h

theorem storageJournalKeys_of_world : t.storageJournalKeys = s.storageJournalKeys := congrArg World.storageJournalKeys h

theorem balanceJournal_of_world : t.balanceJournal = s.balanceJournal := congrArg World.balanceJournal h

theorem contracts_of_world : t.contracts = s.contracts := congrArg World.contracts h

theorem extCallDepth_of_world : t.extCallDepth = s.extCallDepth := congrArg World.extCallDepth h

theorem allowedStorageKeys_of_world : t.allowedStorageKeys = s.allowedStorageKeys := congrArg World.allowedStorageKeys h

end

/-- Part of an instruction that touches neither storage nor logs nor other frames. -/
structure Local (s s' : Vm) : Prop where
  world : s'.world = s.world
  spent : ∃ gas : List U64, Meters s s' (gas.map .charged)

theorem instructionsRun_charged (gas : List U64) : instructionsRun (gas.map .charged) = 0 := by
  induction gas with
  | nil => rfl
  | cons g gas ih => simpa [instructionsRun, Event.instructions] using ih

/-- Registers, memory and program counter change, the meter does not. -/
theorem Local.still (hworld : s'.world = s.world)
    (hused : s'.gasUsedTotal = s.gasUsedTotal) (htrace : s'.trace = s.trace)
    (hmemory : s.memory.Sane → s'.memory.Sane) : Local s s' := by
  have hlimit := gasLimit_of_world hworld
  have hrefund := gasRefund_of_world hworld
  exact
    { world := hworld
      spent := ⟨[],
        { trace := by simp [htrace]
          used := by simp [hused, gasCharged]
          refused := rfl
          refund := by simp [hrefund]
          within := by rw [Vm.Within, Vm.Within, hlimit, hused]; exact fun h => h
          memory := hmemory }⟩ }

/-- The same as a relation between states. -/
structure Still (s s' : Vm) : Prop where
  world : s'.world = s.world
  used : s'.gasUsedTotal = s.gasUsedTotal
  trace : s'.trace = s.trace
  memory : s.memory.Sane → s'.memory.Sane

theorem Still.refl (s : Vm) : Still s s := ⟨rfl, rfl, rfl, fun h => h⟩

theorem Still.trans {s s' s'' : Vm} (h : Still s s') (h' : Still s' s'') : Still s s'' where
  world := h'.world.trans h.world
  used := h'.used.trans h.used
  trace := h'.trace.trans h.trace
  memory := fun hs => h'.memory (h.memory hs)

theorem still_composable : Composable Still Still where
  refl := Still.refl
  trans := Still.trans
  fails := Still.trans
  stop := Still.refl

theorem Still.moves (h : Still s s') : Local s s' := Local.still h.world h.used h.trace h.memory

theorem Local.refl (s : Vm) : Local s s := Local.still rfl rfl rfl fun h => h

theorem Local.trans (h : Local s s') (h' : Local s' s'') : Local s s'' := by
  obtain ⟨gas, hgas⟩ := h.spent
  obtain ⟨gas', hgas'⟩ := h'.spent
  refine ⟨h'.world.trans h.world, gas ++ gas', ?_⟩
  rw [map_append]
  exact hgas.trans hgas'

/-! ### Charges that are refused -/

def Vm.metered (vm : Vm) (total : U64) (event : Event) : Vm :=
  { vm with gasUsedTotal := total, trace := vm.trace ++ [event] }

/-- A program that fails has moved along `good`, up to a last charge beyond the limit, which is on the meter
all the same. -/
def Lapse (good : Vm → Vm → Prop) (s s' : Vm) : Prop :=
  ∃ t, good s t ∧ (s' = t ∨ ∃ gas total : U64, s' = t.metered total (.overdrawn gas) ∧
    total.toNat = t.gasUsedTotal.toNat + gas.toNat)

theorem Lapse.composable {good : Vm → Vm → Prop} (hrefl : ∀ s, good s s)
    (htrans : ∀ {s s' s''}, good s s' → good s' s'' → good s s'') : Composable good (Lapse good) where
  refl := hrefl
  trans := htrans
  fails := by
    rintro s s' s'' h ⟨t, ht, rfl | ⟨gas, total, rfl, htotal⟩⟩
    · exact ⟨s'', htrans h ht, .inl rfl⟩
    · exact ⟨t, htrans h ht, .inr ⟨gas, total, rfl, htotal⟩⟩
  stop := fun s => ⟨s, hrefl s, .inl rfl⟩

theorem Local.memory (h : Local s s') (hs : s.memory.Sane) : s'.memory.Sane := by
  obtain ⟨_, hmeters⟩ := h.spent
  exact hmeters.memory hs

theorem local_composable : Composable (Local) (Lapse (Local)) := Lapse.composable Local.refl Local.trans

/-! ### Local programs -/

/-- A program that is part of a local instruction. -/
def IsLocal (oracle : StateKey → Option Bytes) {α : Type} (p : VmM α) :
    Prop := Moves oracle (Local) (Lapse (Local)) p

theorem exec_onMemory {α : Type} {p : MemM α} (hp : KeepsSane oracle p) (s : Vm) :
    Still s ((onMemory p).exec oracle s).2 := by
  have hkeeps := hp.after s.memory
  rw [onMemory, exec_zoom]
  rcases hrun : p.exec oracle s.memory with ⟨_ | _, memory⟩
  · rw [hrun] at hkeeps
    exact ⟨rfl, rfl, rfl, hkeeps⟩
  · rw [hrun] at hkeeps
    exact ⟨rfl, rfl, rfl, hkeeps⟩

namespace IsLocal

variable {α β : Type}

theorem pure (a : α) : IsLocal oracle (Pure.pure a : VmM α) := Moves.pure (local_composable) a

theorem fail (t : Trap) : IsLocal oracle (Fallible.fail t : VmM α) := Moves.fail (local_composable) t

theorem bind {p : VmM α} {f : α → VmM β} (hp : IsLocal oracle p) (hf : ∀ a, IsLocal oracle (f a)) :
    IsLocal oracle (p >>= f) := Moves.bind (local_composable) hp hf

theorem state : IsLocal oracle (Fallible.state : VmM Vm) := Moves.state (local_composable)

theorem ofExcept (answer : Except Trap α) : IsLocal oracle (Fallible.ofExcept answer : VmM α) :=
  Moves.ofExcept (local_composable) answer

/-- A change of registers, program counter, call stack or return data. -/
theorem change {f : Vm → Vm} (hworld : ∀ s, (f s).world = s.world)
    (hused : ∀ s, (f s).gasUsedTotal = s.gasUsedTotal) (htrace : ∀ s, (f s).trace = s.trace)
    (hmemory : ∀ s, s.memory.Sane → (f s).memory.Sane) : IsLocal oracle (Fallible.change f : VmM Unit) :=
  Moves.change fun s => Local.still (hworld s) (hused s) (htrace s) (hmemory s)

theorem readGp : IsLocal oracle (PVM.readGp reg) := bind state fun _ => pure _

theorem writeGp (value : U64) : IsLocal oracle (PVM.writeGp reg value) :=
  change (fun _ => rfl) (fun _ => rfl) (fun _ => rfl) fun _ h => h

theorem readWideChecked : IsLocal oracle (PVM.readWideChecked reg) := bind state fun _ => ofExcept _

theorem writeWide (value : U256) : IsLocal oracle (PVM.writeWide reg value) :=
  change (fun _ => rfl) (fun _ => rfl) (fun _ => rfl) fun _ h => h

theorem writeWideChecked (value : U256) : IsLocal oracle (PVM.writeWideChecked reg value) :=
  bind state fun _ => bind (ofExcept _) fun _ =>
    change (fun _ => rfl) (fun _ => rfl) (fun _ => rfl) fun _ h => h

theorem advance : IsLocal oracle PVM.advance :=
  bind (change (fun _ => rfl) (fun _ => rfl) (fun _ => rfl) fun _ h => h) fun _ => pure _

theorem onMemory {p : MemM α} (hp : KeepsSane oracle p) : IsLocal oracle (PVM.onMemory p) := by
  constructor
  intro s
  have hstill := exec_onMemory hp s
  revert hstill
  rcases (PVM.onMemory p).exec oracle s with ⟨_ | _, s'⟩
  · exact fun hstill => ⟨s', hstill.moves, .inl rfl⟩
  · exact fun hstill => hstill.moves

theorem attemptMemory {p : MemM α} (hp : KeepsSane oracle p) :
    IsLocal oracle (attempt (PVM.onMemory p) : VmM (Except Trap α)) := by
  constructor
  intro s
  rw [exec_attempt]
  exact (exec_onMemory hp s).moves

/-- A charge that can be paid, after other parts of the instruction. -/
theorem metered {gas total : U64} (h : Local s t)
    (htotal : total.toNat = t.gasUsedTotal.toNat + gas.toNat) (hwithin : t.gasLimit = 0 ∨ total ≤ t.gasLimit) :
    Local s (t.metered total (.charged gas)) := by
  obtain ⟨hworld, charged, hmeters⟩ := h
  refine ⟨hworld, charged ++ [gas], ?_⟩
  rw [map_append]
  exact
    { trace := by rw [Vm.metered, hmeters.trace, append_assoc]; rfl
      used := by rw [Vm.metered, htotal, hmeters.used, gasCharged_append, Nat.add_assoc]; rfl
      refused := by rw [gasRefused_append, hmeters.refused]; rfl
      refund := by
        rw [clearings_append]
        exact hmeters.refund
      within := fun _ => hwithin
      memory := hmeters.memory }

/-- A charge, after other parts of the instruction, whether it can be paid or not. -/
theorem exec_charge {gas : U64} (h : Local s t) :
    After (fun _ => Local s) (fun _ => Lapse (Local) s) ((PVM.charge gas).exec oracle t) := by
  unfold PVM.charge account
  simp only [exec_bind, exec_state]
  cases hadd : checkedAdd t.gasUsedTotal gas with
  | none => exact ⟨t, h, .inl rfl⟩
  | some total =>
    have htotal := (checkedAdd_some hadd).2
    dsimp only
    by_cases hlimit : 0 < t.gasLimit ∧ t.gasLimit < total
    · simp only [if_pos hlimit, exec_bind, exec_change, exec_fail]
      exact ⟨t, h, .inr ⟨gas, total, rfl, htotal⟩⟩
    simp only [if_neg hlimit, exec_change]
    refine metered h htotal ?_
    by_cases hzero : t.gasLimit = 0
    · exact .inl hzero
    · exact .inr (BitVec.not_lt.1 fun hlt => hlimit ⟨(BitVec.pos_iff_ne_zero _).2 hzero, hlt⟩)

theorem charge (gas : U64) : IsLocal oracle (PVM.charge gas) := ⟨fun s => exec_charge (Local.refl s)⟩

theorem drainPageGas : IsLocal oracle PVM.drainPageGas := by
  constructor
  intro s
  unfold PVM.drainPageGas
  simp only [exec_bind, exec_state]
  by_cases hdue : 0 < s.memory.pageGasUsed
  · simp only [if_pos hdue]
    cases hadd : checkedAdd s.gasUsedTotal s.memory.pageGasUsed with
    | none => exact (local_composable).stop s
    | some _ =>
      simp only [exec_bind, exec_change]
      exact exec_charge (Local.still rfl rfl rfl fun h => ⟨h.pages, h.ranges⟩)
  · simp only [if_neg hdue]
    exact Local.refl s

theorem precheckBulkPageBudget (count : U64) : IsLocal oracle (PVM.precheckBulkPageBudget count) := by
  apply bind state
  intro vm
  split
  · exact pure _
  split
  · exact fail _
  split
  · exact fail _
  split
  · exact fail _
  · exact pure _

end IsLocal

variable {oracle : StateKey → Option Bytes}

/-! ### Control flow and arithmetic -/

section

variable (d : DecodedInstruction)

theorem isLocal_jump : IsLocal oracle (jump d) :=
  .bind (.change (fun _ => rfl) (fun _ => rfl) (fun _ => rfl) fun _ h => h) fun _ => .pure _

theorem isLocal_branch (taken : U64 → U64 → Bool) : IsLocal oracle (branch d taken) := by
  apply IsLocal.bind (.readGp _)
  intro a
  apply IsLocal.bind (.readGp _)
  intro b
  split
  · exact isLocal_jump d
  · exact .advance

theorem isLocal_execCall : IsLocal oracle (execCall d) := by
  apply IsLocal.bind .state
  intro vm
  split
  · exact .fail _
  · exact .bind (.change (fun _ => rfl) (fun _ => rfl) (fun _ => rfl) fun _ h => h) fun _ => isLocal_jump d

theorem isLocal_execRet : IsLocal oracle execRet := by
  apply IsLocal.bind .state
  intro vm
  split
  · exact .fail _
  · exact .bind (.change (fun _ => rfl) (fun _ => rfl) (fun _ => rfl) fun _ h => h) fun _ => .pure _

theorem isLocal_execRevert : IsLocal oracle (execRevert d) := by
  unfold execRevert
  split
  · exact .pure _
  apply IsLocal.bind (.readGp _)
  intro ptr
  apply IsLocal.bind (.readGp _)
  intro len
  split
  · exact .pure _
  apply IsLocal.bind (.attemptMemory (.checkedReadSlice _ _))
  intro res
  split
  · exact .bind (.change (fun _ => rfl) (fun _ => rfl) (fun _ => rfl) fun _ h => h) fun _ => .pure _
  · exact .pure _

theorem isLocal_execAssert : IsLocal oracle (execAssert d) := by
  apply IsLocal.bind (.readGp _)
  intro value
  split
  · exact .pure _
  · exact .advance

theorem isLocal_alu (op : U64 → U64 → Except Trap U64) : IsLocal oracle (alu d op) :=
  .bind (.readGp _) fun _ => .bind (.readGp _) fun _ => .bind (.ofExcept _) fun _ =>
    .bind (.writeGp _ _) fun _ => .advance

theorem isLocal_execAddi : IsLocal oracle (execAddi d) :=
  .bind (.readGp _) fun _ => .bind (.writeGp _ _) fun _ => .advance

theorem isLocal_execNot : IsLocal oracle (execNot d) :=
  .bind (.readGp _) fun _ => .bind (.writeGp _ _) fun _ => .advance

theorem isLocal_execWide : IsLocal oracle (execWide d) :=
  .bind .state fun _ => .bind (.ofExcept _) fun _ =>
    .bind (.change (fun _ => rfl) (fun _ => rfl) (fun _ => rfl) fun _ h => h) fun _ => .advance

/-! ### Memory -/

theorem keepsSane_loadWidth (addr : U32) (width : MemWidth) : KeepsSane oracle (loadWidth addr width) := by
  cases width with
  | w64 => exact .loadInt (by decide) _
  | _ => exact .bind (.loadInt (by decide) _) fun _ => .pure _

theorem keepsSane_storeWidth (addr : U32) (value : U64) (width : MemWidth) :
    KeepsSane oracle (storeWidth addr value width) := by
  cases width <;> exact .storeInt (by decide) _ _

theorem isLocal_execLoad : IsLocal oracle (execLoad d) :=
  .bind (.readGp _) fun _ => .bind (.ofExcept _) fun _ => .bind (.onMemory (keepsSane_loadWidth _ _)) fun _ =>
    .bind (.writeGp _ _) fun _ => .advance

theorem isLocal_execStore : IsLocal oracle (execStore d) :=
  .bind (.readGp _) fun _ => .bind (.ofExcept _) fun _ => .bind (.readGp _) fun _ =>
    .bind (.onMemory (keepsSane_storeWidth _ _ _)) fun _ => .advance

theorem isLocal_execWload : IsLocal oracle (execWload d) :=
  .bind (.readGp _) fun _ => .bind (.ofExcept _) fun _ => .bind (.onMemory (.loadInt (by decide) _)) fun _ =>
    .bind (.writeWideChecked _ _) fun _ => .advance

theorem isLocal_execWstore : IsLocal oracle (execWstore d) :=
  .bind (.readGp _) fun _ => .bind (.ofExcept _) fun _ => .bind (.readWideChecked _) fun _ =>
    .bind (.onMemory (.storeInt (by decide) _ _)) fun _ => .advance

theorem isLocal_execPush : IsLocal oracle (execPush d) :=
  .bind (.readGp _) fun _ => .bind (.onMemory (.stackAlloc _)) fun _ =>
    .bind (.onMemory (.storeInt (by decide) _ _)) fun _ => .advance

theorem isLocal_execPop : IsLocal oracle (execPop d) := by
  apply IsLocal.bind .state
  intro vm
  dsimp only
  split
  · exact .fail _
  · exact .bind (.onMemory (.loadInt (by decide) _)) fun _ => .bind (.writeGp _ _) fun _ =>
      .bind (.change (fun _ => rfl) (fun _ => rfl) (fun _ => rfl) fun _ h => ⟨h.pages, h.ranges⟩) fun _ => .advance

theorem isLocal_execMemcpy : IsLocal oracle (execMemcpy d) := by
  apply IsLocal.bind (.readGp _)
  intro dst
  apply IsLocal.bind (.readGp _)
  intro src
  apply IsLocal.bind (.readGp _)
  intro len
  split
  · exact .fail _
  split
  · exact .advance
  exact .bind (.charge _) fun _ => .bind (.precheckBulkPageBudget _) fun _ =>
    .bind (.onMemory (.checkedReadSlice _ _)) fun _ => .bind (.onMemory (.checkedWriteSlice _ _)) fun _ =>
      .advance

/-! ### Environment, hashing and signatures -/

theorem isLocal_execCaller : IsLocal oracle (execCaller d) :=
  .bind .state fun _ => .bind (.ofExcept _) fun _ => .bind (.writeGp _ _) fun _ => .advance

theorem isLocal_execCallvalue : IsLocal oracle (execCallvalue d) :=
  .bind .state fun _ => .bind (.ofExcept _) fun _ => .bind (.writeWideChecked _ _) fun _ => .advance

theorem isLocal_execBlockhash : IsLocal oracle (execBlockhash d) :=
  .bind (.readGp _) fun _ => .bind .state fun _ => .bind (.writeWideChecked _ _) fun _ => .advance

variable (P : Prims)

theorem isLocal_execVerifySig : IsLocal oracle (execVerifySig P d) := by
  apply IsLocal.bind (.readGp _)
  intro base
  exact .bind (.onMemory (.loadInt (by decide) _)) fun _ => .bind (.onMemory (.loadInt (by decide) _)) fun _ =>
    .bind (.onMemory (.loadInt (by decide) _)) fun _ => .bind (.onMemory (.loadInt (by decide) _)) fun _ =>
    .bind (.onMemory (.loadInt (by decide) _)) fun _ => .bind (.onMemory (.loadInt (by decide) _)) fun _ =>
    .bind (.onMemory (.checkedReadSlice _ _)) fun _ => .bind (.onMemory (.checkedReadSlice _ _)) fun _ =>
    .bind (.onMemory (.checkedReadSlice _ _)) fun _ => .bind (.writeGp _ _) fun _ => .advance

theorem keepsSane_walkProof (desc : U32) (remaining : Nat) :
    ∀ (i : Nat) (cur : Hash256), KeepsSane oracle (walkProof P desc remaining i cur) := by
  induction remaining with
  | zero => exact fun _ _ => .pure _
  | succ remaining ih =>
    intro i cur
    rw [walkProof]
    split
    · exact .fail _
    · exact .bind (.loadInt (by decide) _) fun _ => ih _ _

theorem isLocal_execMerkleVerify : IsLocal oracle (execMerkleVerify P d) := by
  apply IsLocal.bind (.readGp _)
  intro base
  apply IsLocal.bind (.onMemory (.loadInt (by decide) _))
  intro root
  apply IsLocal.bind (.onMemory (.loadInt (by decide) _))
  intro leaf
  apply IsLocal.bind (.onMemory (.loadInt (by decide) _))
  intro proofLen
  split
  · exact .bind (.writeGp _ _) fun _ => .advance
  · exact .bind (.charge _) fun _ => .bind (.onMemory (keepsSane_walkProof P _ _ _ _)) fun _ =>
      .bind (.writeGp _ _) fun _ => .advance

theorem isLocal_execPoseidon : IsLocal oracle (execPoseidon P d) :=
  .bind (.readGp _) fun _ => .bind (.readGp _) fun _ => .bind (.charge _) fun _ =>
    .bind (.onMemory (.checkedReadSlice _ _)) fun _ => .bind (.writeWideChecked _ _) fun _ => .advance

theorem isLocal_execLocal : IsLocal oracle (execLocal P d) := by
  unfold execLocal
  split
  · exact isLocal_jump d
  · exact isLocal_branch d _
  · exact isLocal_branch d _
  · exact isLocal_branch d _
  · exact isLocal_branch d _
  · exact isLocal_execCall d
  · exact isLocal_execRet
  · exact .pure _
  · exact isLocal_execRevert d
  iterate 5 exact isLocal_alu d _
  · exact isLocal_execAddi d
  iterate 3 exact isLocal_alu d _
  · exact isLocal_execNot d
  iterate 8 exact isLocal_alu d _
  iterate 15 exact isLocal_execWide d
  · exact isLocal_execLoad d
  · exact isLocal_execStore d
  · exact isLocal_execWload d
  · exact isLocal_execWstore d
  · exact isLocal_execPush d
  · exact isLocal_execPop d
  · exact isLocal_execCaller d
  · exact isLocal_execCallvalue d
  · exact isLocal_execBlockhash d
  · exact isLocal_execPoseidon d P
  · exact isLocal_execVerifySig d P
  · exact isLocal_execAssert d
  · exact isLocal_execMemcpy d
  · apply IsLocal.bind .state
    intro vm
    split
    · exact .fail _
    · exact .fail _
  · exact isLocal_execMerkleVerify d P
  · exact .fail _

@[simp] theorem exec_readGp (reg : U8) (s : Vm) : (readGp reg).exec oracle s = (.ok (s.cpu.readGp reg), s) := rfl

end

end Pyde.PVM
