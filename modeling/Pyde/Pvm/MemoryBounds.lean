/-
Module: Pyde.Pvm.MemoryBounds
Purpose: No instruction addresses a byte outside of the memory, in any frame of any call tree.
Trusted boundary: Prims
-/
import Pyde.Pvm.GasBounds

namespace Pyde.PVM

open ByteCodec StateProgram Fallible BitVec

variable {t s : Vm} {d : DecodedInstruction} {P : Prims}

variable {oracle : StateKey → Option Bytes}

/-! ### Instructions -/

/-- A frame that has addressed bytes of its memory only. -/
def Vm.Sane (vm : Vm) : Prop := vm.memory.Sane

theorem sane_kept : KeptLocally Vm.Sane Vm.Sane where
  moved := fun ht hlocal => hlocal.memory ht
  lapsed := by
    rintro t t' ht ⟨t₁, hlocal, rfl | ⟨gas, total, rfl, -⟩⟩
    · exact hlocal.memory ht
    · exact hlocal.memory ht

theorem Vm.Sane.journalStorage (h : t.Sane) (key : U256) : (t.journalStorage key).Sane := by
  obtain ⟨_, _, heq⟩ := t.journalStorage_eq key
  rw [heq]
  exact h

theorem Vm.Sane.refundCleared (h : t.Sane) (key : U256) : (t.refundCleared key).Sane := by
  have hsame : (t.refundCleared key).memory = t.memory := by
    unfold Vm.refundCleared
    split
    · rfl
    · rfl
  rw [Vm.Sane, hsame]
  exact h

theorem Vm.Sane.undisturbed {t' : Vm} (h : t.Sane) (hsame : Undisturbed t t') : t'.Sane := by
  rw [Vm.Sane, hsame.memory]
  exact h

/-- A frame below starts with a memory of its own. -/
structure BothSane (child t : Vm) : Prop where
  caller : t.Sane
  callee : child.Sane

theorem sane_spawnCall {isStatic isDelegate : Bool} (h : s.Sane) :
    After (fun answer t => match answer with
        | none => t.Sane
        | some child => BothSane child t) (fun _ => Vm.Sane) ((spawnCall d isStatic isDelegate).exec oracle s) := by
  refine after_spawnCall.mono ?_ ?_
  · intro answer t ht
    cases answer with
    | none => exact ht.sane h
    | some child =>
      obtain ⟨t₀, rfl, hspawned⟩ := ht
      obtain ⟨_, _, _, _, -, -, hstill⟩ := hspawned.frame
      exact ⟨hspawned.fetched.sane h, hstill.memory Memory.new_sane⟩
  · rintro e t ⟨t₀, ht₀, rfl | ⟨rfl, -⟩⟩
    · exact ht₀.sane h
    · exact ht₀.sane h

theorem sane_beginCreate (h : s.Sane) :
    After (fun creation t => match creation.rest with
        | .inl child => BothSane child t
        | .inr balances => After (fun _ => Vm.Sane) (fun e t' => e = .outOfGas ∧ t'.Sane)
            ((deploy creation.address creation.runtime balances).exec oracle t))
      (fun _ => Vm.Sane) ((beginCreate P d).exec oracle s) := by
  refine after_beginCreate.mono ?_ ?_
  · rintro creation t ⟨t₀, rfl, hbegun⟩
    have hsane : t₀.countCreation.Sane := hbegun.sane h
    obtain ⟨ctx, -, hrest⟩ := hbegun.rest
    obtain ⟨addr, runtime, child | balances⟩ := creation
    · obtain ⟨args, hstill⟩ := hrest
      exact ⟨hsane, hstill.memory Memory.new_sane⟩
    · exact sane_kept.deploy (hsane.undisturbed (t₀.countCreation.mergeBalances_undisturbed balances)) fun ht => ht
  · rintro e t ⟨memory, hsane, rfl | rfl⟩
    · exact hsane h
    · exact hsane h

theorem sane_handles (h : s.Sane) : Handles P oracle d s Vm.Sane Vm.Sane fun child _ t => BothSane child t where
  start := h
  kept := sane_kept
  sload := fun _ => sane_kept.execSload h (fun _ _ _ ht => ht) (fun _ _ ht _ _ => ht) fun _ _ ht => ht
  sstore := fun _ => sane_kept.execSstore h (fun _ _ _ ht => ht) (fun _ _ ht => ht.journalStorage _)
    fun _ _ ht _ => ht
  sdelete := fun _ => sane_kept.execSdelete h (fun _ _ ht => ht) (fun _ _ ht => ht.journalStorage _)
    (fun _ _ ht => ht.refundCleared _) fun _ _ ht _ => ht
  log := fun _ => sane_kept.execLog h fun _ ht => ht
  call := fun _ _ _ => sane_spawnCall h
  create := fun _ _ => sane_beginCreate h

theorem sane_advanceStep (h : s.Sane) :
    After (Progressed Vm.Sane fun child _ t => BothSane child t) (fun _ => Vm.Sane)
      ((advanceStep P).exec oracle s) := by
  apply after_advanceStep h (fun _ _ _ _ => h)
  intro d total _ _ _
  have hbegun : (s.begun d total).Sane := h
  exact (sane_handles hbegun).dispatch

theorem sane_resumeStep (h : t.Sane) (pending : Pending) (answer : ExecutionOutput × Vm) :
    After (fun _ => Vm.Sane) (fun _ => Vm.Sane) ((resumeStep pending answer).exec oracle t) := by
  obtain ⟨output, child⟩ := answer
  have hjoined : ∀ total, (t.joined child total).Sane := fun _ => h
  cases pending with
  | call d isDelegate =>
    exact after_resumeStep_call sane_kept (fun _ => h) (fun _ _ _ _ => h) fun total _ _ =>
      (hjoined total).undisturbed ((t.joined child total).settle_undisturbed isDelegate output child)
  | constructor d addr runtime =>
    refine after_resumeStep_constructor sane_kept (fun _ => h) (fun _ _ _ _ => h) (fun total _ _ => hjoined total)
      (fun _ total ht' => ?_) fun _ _ ht' => ht'
    have hmerged := ht'.undisturbed ((t.joined child total).mergeStorage_undisturbed child)
    exact hmerged.undisturbed (((t.joined child total).mergeStorage child).mergeBalances_undisturbed child.ctx.balances)

/-! ### Whole frames -/

theorem sane_finishFrame (entry : Vm) (res : Except Trap ExecResult) (h : s.Sane) :
    (finishFrame entry res s).2.Sane := by
  unfold finishFrame
  dsimp only
  split
  · exact h
  · exact h

theorem sane_keeps (entry s : Vm) (h : s.Sane) :
    (machine P).Keeps oracle (fun _ => True) Vm.Sane (fun _ t => t.Sane) (fun _ answer => answer.2.Sane) entry s := by
  apply Machine.Keeps.of_step (m := machine P) (sane_advanceStep h)
  · exact fun ht => ht
  · exact fun ht => sane_finishFrame entry _ ht
  · exact fun ht => sane_finishFrame entry _ ht
  · exact fun hspawned => hspawned.callee
  · exact fun hspawned _ _ => sane_resumeStep hspawned.caller _ _

theorem sane_specifies (P : Prims) (oracle : StateKey → Option Bytes) :
    (machine P).Specifies oracle (fun _ => True) Vm.Sane (fun _ t => t.Sane) fun _ answer => answer.2.Sane where
  start := fun _ h => h
  cut := fun entry _ h => sane_finishFrame entry _ h
  keeps := fun entry s h _ => sane_keeps entry s h

/-! ### Returned data -/

theorem mapM_eq_some_map {α β : Type} {f : α → Option β} {g : α → β} {l : List α}
    (h : ∀ a ∈ l, f a = some (g a)) :
    l.mapM f = some (l.map g) := by
  induction l with
  | nil => rfl
  | cons a l ih =>
    rw [List.forall_mem_cons] at h
    rw [List.mapM_cons, h.1, ih h.2]
    rfl

theorem Memory.loadUnchecked_of_le (m : Memory) {addr : U64} {len : Nat} (h : addr.toNat + len ≤ memorySize) :
    m.loadUnchecked addr len = some (m.readSlice addr.toNat len) := by
  apply mapM_eq_some_map
  intro i hi
  have hsize : memorySize = 0x400000 := rfl
  have hi := List.mem_range.1 hi
  have haddr : ((addr + BitVec.ofNat 64 i).setWidth 32 : U32).toNat = addr.toNat + i := by
    rw [toNat_setWidth, toNat_add, toNat_ofNat]
    omega
  dsimp only
  rw [haddr, if_pos (by omega)]

theorem Memory.loadUnchecked_eq_none (m : Memory) {addr : U64} {len : Nat} (hlen : 0 < len)
    (h : memorySize ≤ addr.toNat % 2 ^ 32) : m.loadUnchecked addr len = none := by
  obtain ⟨n, rfl⟩ := Nat.exists_eq_add_one_of_ne_zero hlen.ne'
  have haddr : ((addr + BitVec.ofNat 64 0).setWidth 32 : U32).toNat = addr.toNat % 2 ^ 32 := by simp
  have hfirst : ¬ ((addr + BitVec.ofNat 64 0).setWidth 32 : U32).toNat < memorySize := by
    rw [haddr]
    exact Nat.not_lt.2 h
  rw [Memory.loadUnchecked, List.range_succ_eq_map, List.mapM_cons]
  dsimp only
  rw [if_neg hfirst]
  rfl

theorem captureCallee_eq (child : Vm) (success : Bool) :
    captureCallee child success = some (returned child success) := by
  unfold captureCallee returned
  by_cases hdata : child.returnData ≠ []
  · rw [if_pos hdata, if_pos hdata]
  rw [if_neg hdata, if_neg hdata]
  by_cases hsuccess : success = true
  · rw [if_pos hsuccess, if_pos hsuccess]
    dsimp only
    split
    next hfits =>
      have hptr : (((child.cpu.readGp 1).setWidth 32 : U32).setWidth 64 : U64).toNat =
          ((child.cpu.readGp 1).setWidth 32 : U32).toNat := by
        rw [toNat_setWidth]
        omega
      rw [Memory.loadUnchecked_of_le _ (by rw [hptr]; exact hfits.2), hptr]
    · rfl
  · rw [if_neg hsuccess, if_neg hsuccess]

/-- A range of returned data whose end is computed without wrapping around, where there is one to read. -/
def Vm.ReturnFits (vm : Vm) (success : Bool) : Prop :=
  vm.returnData = [] → success = true → 0 < vm.cpu.readGp 2 →
    (vm.cpu.readGp 1).toNat + min (vm.cpu.readGp 2).toNat memorySize < 2 ^ 64

instance (vm : Vm) (success : Bool) :
    Decidable (vm.ReturnFits success) := inferInstanceAs (Decidable (_ → _ → _ → _))

/-- The pipeline reads returned data within the memory exactly if the end of the range does not wrap around. -/
theorem captureReturnData_isSome (vm : Vm) (success : Bool) :
    (captureReturnData vm success).isSome ↔ vm.ReturnFits success := by
  have hsize : memorySize = 0x400000 := rfl
  unfold captureReturnData Vm.ReturnFits
  by_cases hdata : vm.returnData ≠ []
  · rw [if_pos hdata]
    exact ⟨fun _ hempty => absurd hempty hdata, fun _ => rfl⟩
  rw [if_neg hdata]
  by_cases hsuccess : success = true
  · rw [if_pos hsuccess]
    dsimp only
    by_cases hlen : 0 < vm.cpu.readGp 2
    · have hpos : 0 < (vm.cpu.readGp 2).toNat := hlen
      have hlast : (vm.cpu.readGp 1 + BitVec.ofNat 64 (min (vm.cpu.readGp 2).toNat memorySize)).toNat =
          ((vm.cpu.readGp 1).toNat + min (vm.cpu.readGp 2).toNat memorySize) % 2 ^ 64 := by
        rw [toNat_add, toNat_ofNat]
        omega
      rw [if_pos hlen, hlast]
      have hword := (vm.cpu.readGp 1).isLt
      constructor
      · intro hsome _ _ _
        by_contra hwraps
        -- the wrapped end passes the check, and the first byte lies beyond the memory
        rw [if_pos (by omega), Memory.loadUnchecked_eq_none _ (by omega) (by omega)] at hsome
        exact absurd hsome (by simp)
      · intro hfits
        have hfits := hfits (not_not.1 hdata) hsuccess hlen
        rw [Nat.mod_eq_of_lt hfits]
        split
        next hinside =>
          rw [Memory.loadUnchecked_of_le _ hinside]
          rfl
        · rfl
    · rw [if_neg hlen]
      exact ⟨fun _ _ _ hpos => absurd hpos hlen, fun _ => rfl⟩
  · rw [if_neg hsuccess]
    exact ⟨fun _ _ htrue => absurd htrue hsuccess, fun _ => rfl⟩

/-! ### Memory safety -/

/-- Nothing outside of the memory is addressed at a moment of a run: not by the instructions before it, not by a
frame below that has ended, and not when returned data is taken from that frame. -/
def Addressed : Machine.Moment Vm Pending (ExecutionOutput × Vm) → Prop
  | .taken vm => vm.Sane
  | .joined _ _ _ answer => answer.2.Sane ∧ (captureCallee answer.2 (answer.1.outcome = .success)).isSome

/-- Nothing outside of the memory is addressed while a frame and the frames below it run, nor when the pipeline takes
the returned data. -/
structure MemorySafe (P : Prims) (oracle : StateKey → Option Bytes) (vm : Vm) : Prop where
  occurs : ∀ moment, Occurs P oracle vm moment → Addressed moment
  ended : ((execute P vm).answer oracle).2.Sane
  captured : (captureReturnData ((execute P vm).answer oracle).2
    (((execute P vm).answer oracle).1.outcome = .success)).isSome

theorem sane_occurs {vm : Vm} (hsane : vm.Sane) {moment : Machine.Moment Vm Pending (ExecutionOutput × Vm)}
    (h : Occurs P oracle vm moment) : Addressed moment := by
  have hstart : vm.clearJournals.Sane := hsane
  have hspecified := (sane_specifies P oracle).visits h vm hstart fun _ _ => trivial
  cases moment with
  | taken s =>
    obtain ⟨_, hs⟩ := hspecified
    exact hs
  | joined s child pending answer =>
    refine ⟨hspecified.2, ?_⟩
    rw [captureCallee_eq]
    rfl

/-- Every access of every frame is in bounds, so the one that can fail is the capture of the return data at the end. -/
theorem memory_accesses_in_bounds (P : Prims) (oracle : StateKey → Option Bytes) (vm : Vm) (hsane : vm.Sane) :
    MemorySafe P oracle vm ↔ ((execute P vm).answer oracle).2.ReturnFits
      (((execute P vm).answer oracle).1.outcome = .success) := by
  rw [← captureReturnData_isSome]
  constructor
  · exact fun h => h.captured
  · intro hcaptured
    exact ⟨fun _ => sane_occurs hsane, (sane_specifies P oracle).run _ vm hsane fun _ _ => trivial, hcaptured⟩

theorem outermost_sane (gasLimit : U64) (ctx : ExecutionContext) (calldata code : Bytes) :
    (outermost gasLimit ctx calldata code).Sane :=
  (outermost_still gasLimit ctx calldata code).memory Memory.new_sane

/-- A program that returns eight bytes from the start of the heap. -/
def heapReturn : Vm :=
  outermost 1000 .default [1] (assemble [encode .addi 1 5 0, encode .addi 2 0 8, encode .halt 0 0 0])

theorem memory_accesses_in_bounds_heap :
    MemorySafe lucid (fun _ => none) heapReturn ∧
      captureReturnData ((execute lucid heapReturn).answer fun _ => none).2 true = some [1, 0, 0, 0, 0, 0, 0, 0] := by
  refine ⟨?_, by decide +kernel⟩
  rw [memory_accesses_in_bounds lucid _ heapReturn (outermost_sane _ _ _ _)]
  decide +kernel

/-- A program that returns sixteen bytes from eight before the end of the 64-bit range. -/
def wrappingReturn : Vm :=
  outermost 1000 .default [] (assemble [encode .addi 1 0 0x3FFF8, encode .addi 2 0 16, encode .halt 0 0 0])

/-- The end of the range wraps around to eight, and the first byte has no page. -/
theorem returned_range_wraps : wrappingReturn.Sane ∧ ¬ MemorySafe lucid (fun _ => none) wrappingReturn := by
  refine ⟨outermost_sane _ _ _ _, fun h => ?_⟩
  have hcaptured : captureReturnData ((execute lucid wrappingReturn).answer fun _ => none).2
      (((execute lucid wrappingReturn).answer fun _ => none).1.outcome = .success) = none := by decide +kernel
  have hsome := h.captured
  rw [hcaptured] at hsome
  exact absurd hsome (by simp)

end Pyde.PVM
