/-
Module: Pyde.Pvm.GasBounds
Purpose: Gas over a whole call tree. A frame is funded while it has used no more than its limit and its meter covers
  everything that was charged in it and below.
Trusted boundary: Prims
-/
import Pyde.Pvm.CallSteps

namespace Pyde.PVM

open ByteCodec StateProgram Fallible BitVec

variable {oracle : StateKey → Option Bytes}

/-! ### Frames and instructions -/

structure Vm.Fresh (vm : Vm) : Prop where
  trace : vm.trace = []
  used : vm.gasUsedTotal = 0
  refund : vm.gasRefund = 0

theorem Vm.Fresh.still {s s' : Vm} (hs : s.Fresh) (h : Still s s') : s'.Fresh where
  trace := h.trace.trans hs.trace
  used := h.used.trans hs.used
  refund := (gasRefund_of_world h.world).trans hs.refund

theorem outermost_fresh (gasLimit : U64) (ctx : ExecutionContext) (calldata code : Bytes) :
    (outermost gasLimit ctx calldata code).Fresh :=
  Vm.Fresh.still ⟨rfl, rfl, rfl⟩ (outermost_still gasLimit ctx calldata code)

/-- An instruction whose gas can be accounted for: no refund is granted in frames below, and where the limit
counts, a call is made with gas left to forward, as a limit of zero would be none. -/
structure Vm.Solvent (P : Prims) (limited : Prop) (vm : Vm) : Prop where
  gasLeft : limited → ∀ d ∈ vm.instruction?, d.opcode = .callExt ∨ d.opcode = .delegate ∨
      d.opcode = .create →
    vm.gasUsedTotal.toNat + (totalGas d.opcode.toU8).toNat < vm.gasLimit.toNat
  unrefunded : ∀ d ∈ vm.instruction?, d.opcode = .sdelete → 0 < vm.extCallDepth →
    ∀ slot ∈ (vm.cpu.readWideChecked d.rs1).toOption,
      (vm.storage.lookup (deriveStorageKey P vm.ctx.selfAddress slot)).getD [] = []

instance (P : Prims) (limited : Prop) [Decidable limited] (vm : Vm) : Decidable (vm.Solvent P limited) :=
  decidable_of_iff (_ ∧ _) ⟨fun h => ⟨h.1, h.2⟩, fun h => ⟨h.gasLeft, h.unrefunded⟩⟩

/-! ### Funded frames -/

variable {limited : Prop}

/-- A frame whose meter covers the record, and that has kept to its limit where the limit counts. -/
structure Funded (limited : Prop) (entry s : Vm) : Prop where
  positive : limited → 0 < entry.gasLimit.toNat
  gasLimit : s.gasLimit = entry.gasLimit
  depth : s.extCallDepth = entry.extCallDepth
  within : limited → s.gasUsedTotal.toNat ≤ entry.gasLimit.toNat
  instructions : minGas * instructionsRun s.trace ≤ gasCharged s.trace
  covered : gasMetered s.trace ≤ s.gasUsedTotal.toNat
  refund : s.gasRefund.toNat ≤ clearingRefund.toNat * clearings s.trace
  unrefunded : 0 < entry.extCallDepth → s.gasRefund = 0

/-- A frame that has failed, perhaps with a last charge beyond its limit. -/
structure Exhausted (limited : Prop) (entry s : Vm) : Prop where
  instructions : minGas * instructionsRun s.trace ≤ gasCharged s.trace
  charged : limited → gasCharged s.trace ≤ entry.gasLimit.toNat
  covered : gasMetered s.trace ≤ s.gasUsedTotal.toNat

/-- What the meter and the record say between two states of a frame. -/
structure Spent (t t' : Vm) (events : List Event) : Prop where
  trace : t'.trace = t.trace ++ events
  covered : t.gasUsedTotal.toNat + gasMetered events ≤ t'.gasUsedTotal.toNat
  instructions : minGas * instructionsRun events ≤ gasCharged events

theorem Vm.Fresh.funded {vm : Vm} (h : vm.Fresh) (hpositive : limited → 0 < vm.gasLimit.toNat) :
    Funded limited vm vm where
  positive := hpositive
  gasLimit := rfl
  depth := rfl
  within := by simp [h.used]
  instructions := by simp [h.trace, instructionsRun]
  covered := by simp [h.trace, gasMetered, gasCharged, gasRefused]
  refund := by simp [h.refund]
  unrefunded := fun _ => h.refund

section

variable {entry t t' : Vm} {events : List Event}

theorem Funded.spend (h : Funded limited entry t) (hspent : Spent t t' events) (hlimit : t'.gasLimit = t.gasLimit)
    (hdepth : t'.extCallDepth = t.extCallDepth) (hwithin : limited → t'.gasUsedTotal.toNat ≤ entry.gasLimit.toNat)
    (hrefund : t'.gasRefund.toNat ≤ t.gasRefund.toNat + clearingRefund.toNat * clearings events)
    (hnested : 0 < entry.extCallDepth → t'.gasRefund = 0) : Funded limited entry t' where
  positive := h.positive
  gasLimit := hlimit.trans h.gasLimit
  depth := hdepth.trans h.depth
  within := hwithin
  instructions := by
    have hbefore := h.instructions
    have hevents := hspent.instructions
    rw [hspent.trace, instructionsRun_append, gasCharged_append, Nat.mul_add]
    omega
  covered := by
    have hbefore := h.covered
    have hevents := hspent.covered
    rw [hspent.trace, gasMetered_append]
    omega
  refund := by
    have hbefore := h.refund
    rw [hspent.trace, clearings_append, Nat.mul_add]
    omega
  unrefunded := hnested

theorem Funded.exhaust (h : Funded limited entry t) (hspent : Spent t t' events)
    (hcharged : limited → t.gasUsedTotal.toNat + gasCharged events ≤ entry.gasLimit.toNat) :
    Exhausted limited entry t' where
  instructions := by
    have hbefore := h.instructions
    have hevents := hspent.instructions
    rw [hspent.trace, instructionsRun_append, gasCharged_append, Nat.mul_add]
    omega
  charged := by
    intro hlimited
    have hbefore := (gasCharged_le_gasMetered t.trace).trans h.covered
    have hlimit := hcharged hlimited
    rw [hspent.trace, gasCharged_append]
    omega
  covered := by
    have hbefore := h.covered
    have hevents := hspent.covered
    rw [hspent.trace, gasMetered_append]
    omega

theorem Spent.refl (t : Vm) : Spent t t [] := ⟨by simp, Nat.le_refl _, by simp [instructionsRun]⟩

theorem Spent.quiet (htrace : t'.trace = t.trace ++ events) (hused : t'.gasUsedTotal = t.gasUsedTotal)
    (hcharged : gasMetered events = 0) (hrun : instructionsRun events = 0) : Spent t t' events :=
  ⟨htrace, by simp [hused, hcharged], by simp [hrun]⟩

theorem Funded.exhausted (h : Funded limited entry t) : Exhausted limited entry t := h.exhaust (.refl t) h.within

section

variable (h : Funded limited entry t) (hlimit : t'.gasLimit = t.gasLimit) (hdepth : t'.extCallDepth = t.extCallDepth)
  (hused : t'.gasUsedTotal = t.gasUsedTotal) (hrefund : t'.gasRefund = t.gasRefund)
include h hlimit hdepth hused hrefund

theorem Funded.same (htrace : t'.trace = t.trace ++ events) (hcharged : gasMetered events = 0)
    (hrun : instructionsRun events = 0) : Funded limited entry t' :=
  h.spend (.quiet htrace hused hcharged hrun) hlimit hdepth (hused ▸ h.within) (by rw [hrefund]; omega)
    fun hnested => hrefund.trans (h.unrefunded hnested)

theorem Funded.still (htrace : t'.trace = t.trace) : Funded limited entry t' :=
  h.same hlimit hdepth hused hrefund (htrace.trans (List.append_nil _).symm) rfl rfl

end

theorem Funded.le_limit (h : Funded limited entry t) {total : U64} (hwithin : t.gasLimit = 0 ∨ total ≤ t.gasLimit)
    (hlimited : limited) : total.toNat ≤ entry.gasLimit.toNat := by
  have hpositive := h.positive hlimited
  rw [← h.gasLimit] at hpositive ⊢
  rcases hwithin with hzero | hle
  · rw [hzero] at hpositive
    exact absurd hpositive (by decide)
  · exact hle

theorem Funded.moved (h : Funded limited entry t) (hlocal : Local t t') : Funded limited entry t' := by
  obtain ⟨gas, hmeters⟩ := hlocal.spent
  have hlimit := gasLimit_of_world hlocal.world
  have hrefund := gasRefund_of_world hlocal.world
  have hspent : Spent t t' (gas.map .charged) :=
    ⟨hmeters.trace, by rw [hmeters.used, gasMetered, hmeters.refused, Nat.add_zero], by simp [instructionsRun_charged]⟩
  refine h.spend hspent hlimit (extCallDepth_of_world hlocal.world) ?_ (by rw [hrefund]; omega)
    fun hnested => hrefund.trans (h.unrefunded hnested)
  intro hlimited
  have hwithin : t.Within := .inr (by rw [le_def, h.gasLimit]; exact h.within hlimited)
  refine h.le_limit ?_ hlimited
  rw [← hlimit]
  exact hmeters.within hwithin

theorem Funded.overdrawn {gas total : U64} (h : Funded limited entry t)
    (htotal : total.toNat = t.gasUsedTotal.toNat + gas.toNat) :
    Exhausted limited entry (t.metered total (.overdrawn gas)) := by
  have hspent : Spent t (t.metered total (.overdrawn gas)) [.overdrawn gas] := by
    refine ⟨rfl, ?_, by simp [instructionsRun, Event.instructions]⟩
    change _ ≤ total.toNat
    rw [htotal]
    exact Nat.add_le_add_left (by simp [gasMetered, gasCharged, gasRefused, Event.gasCharged, Event.gasRefused]) _
  apply h.exhaust hspent
  simpa [gasCharged, Event.gasCharged] using h.within

end

theorem funded_kept (entry : Vm) : KeptLocally (Funded limited entry) (Exhausted limited entry) where
  moved := Funded.moved
  lapsed := by
    rintro t t' ht ⟨t₁, hlocal, rfl | ⟨gas, total, rfl, htotal⟩⟩
    · exact (ht.moved hlocal).exhausted
    · exact (ht.moved hlocal).overdrawn htotal

/-! ### Frames below -/

/-- At most what is left is forwarded, and something if anything is left. -/
theorem Vm.maxForward_bounds {vm : Vm} (hleft : vm.gasUsedTotal.toNat < vm.gasLimit.toNat) :
    0 < vm.maxForward.toNat ∧ vm.gasUsedTotal.toNat + vm.maxForward.toNat ≤ vm.gasLimit.toNat := by
  have hlimit : vm.gasLimit ≠ 0 := by
    rintro hzero
    rw [hzero] at hleft
    exact absurd hleft (by simp)
  have hremaining : vm.gasRemaining.toNat = vm.gasLimit.toNat - vm.gasUsedTotal.toNat := by
    rw [Vm.gasRemaining, if_neg hlimit, toNat_satSub]
  have hshare : (vm.gasRemaining / 64).toNat = vm.gasRemaining.toNat / 64 := toNat_udiv
  have hforward : vm.maxForward.toNat = vm.gasRemaining.toNat - vm.gasRemaining.toNat / 64 := by
    rw [Vm.maxForward, toNat_sub_of_le, hshare]
    rw [le_def, hshare]
    exact Nat.div_le_self _ _
  omega

theorem Vm.forwarded_bounds {vm : Vm} (requested : U64) (hleft : vm.gasUsedTotal.toNat < vm.gasLimit.toNat) :
    0 < (vm.forwarded requested).toNat ∧
      vm.gasUsedTotal.toNat + (vm.forwarded requested).toNat ≤ vm.gasLimit.toNat := by
  have hmax := vm.maxForward_bounds hleft
  unfold Vm.forwarded
  split
  · exact hmax
  next hrequested =>
    have hpos : 0 < requested.toNat := (BitVec.pos_iff_ne_zero _).2 hrequested
    rw [lesser_toNat]
    omega

theorem calleeFrame_fresh (vm : Vm) (ctx : ExecutionContext) (gas : U64) (isStatic : Bool) (calldata : Bytes) :
    (calleeFrame vm ctx gas isStatic calldata).Fresh := ⟨rfl, rfl, rfl⟩

theorem constructorFrame_fresh (vm : Vm) (ctx : ExecutionContext) (args : Bytes) :
    (constructorFrame vm ctx args).Fresh := ⟨rfl, rfl, rfl⟩

/-- A frame below that is paid for from what its caller has left. -/
structure Endowed (limited : Prop) (entry child t : Vm) : Prop where
  caller : Funded limited entry t
  callee : Funded limited child child
  nested : 0 < child.extCallDepth
  share : limited → t.gasUsedTotal.toNat + child.gasLimit.toNat ≤ entry.gasLimit.toNat

theorem endow {entry child frame t : Vm} (ht : Funded limited entry t) (hframe : frame.Fresh)
    (hstill : Still frame child) (hdepth : 0 < frame.extCallDepth) (hshare : limited → 0 < frame.gasLimit.toNat ∧
      t.gasUsedTotal.toNat + frame.gasLimit.toNat ≤ t.gasLimit.toNat) : Endowed limited entry child t := by
  have hlimit := gasLimit_of_world hstill.world
  rw [ht.gasLimit] at hshare
  exact
    { caller := ht
      callee := (hframe.still hstill).funded fun hlimited => hlimit ▸ (hshare hlimited).1
      nested := (extCallDepth_of_world hstill.world) ▸ hdepth
      share := by rw [hlimit]; exact fun hlimited => (hshare hlimited).2 }

section

variable {entry t : Vm}

theorem Funded.mergeBalances (h : Funded limited entry t) (balances : Table Address U256) :
    Funded limited entry (t.mergeBalances balances) := by
  obtain ⟨_, _, _, heq⟩ := t.mergeBalances_eq balances
  rw [heq]
  exact h.still rfl rfl rfl rfl rfl

theorem Funded.register (h : Funded limited entry t) (addr : Address) (runtime : Bytes) :
    Funded limited entry (t.register addr runtime) := h.same rfl rfl rfl rfl rfl rfl rfl

theorem Funded.journalStorage (h : Funded limited entry t) (key : U256) :
    Funded limited entry (t.journalStorage key) := by
  obtain ⟨_, _, heq⟩ := t.journalStorage_eq key
  rw [heq]
  exact h.still rfl rfl rfl rfl rfl

theorem Funded.fetched {s : Vm} (h : Funded limited entry s) (hfetched : Fetched oracle s t) :
    Funded limited entry t := by
  obtain ⟨_, _, rfl⟩ := hfetched.same
  exact h.still rfl rfl rfl rfl rfl

theorem Funded.refundCleared {key : U256} (h : Funded limited entry t)
    (hnested : 0 < entry.extCallDepth → (t.storage.lookup key).getD [] = []) :
    Funded limited entry (t.refundCleared key) := by
  unfold Vm.refundCleared
  split
  next b rest hlookup =>
    have hspent : Spent t { t with gasRefund := t.gasRefund + clearingRefund, trace := t.trace ++ [.cleared key] }
        [.cleared key] := .quiet rfl rfl rfl rfl
    refine h.spend hspent rfl rfl h.within ?_ fun hdepth => ?_
    · change (t.gasRefund + clearingRefund).toNat ≤ t.gasRefund.toNat + clearingRefund.toNat * 1
      rw [toNat_add, Nat.mul_one]
      exact Nat.mod_le _ _
    · simp [hlookup] at hnested
      omega
  · exact h

end

/-! ### One instruction -/

section

variable {P : Prims} {entry s : Vm} {d : DecodedInstruction} {total : U64}

/-- A call is endowed from what is left when its price has been paid. -/
theorem endowed_spawnCall {isStatic isDelegate : Bool} (h : Funded limited entry s)
    (hleft : limited → s.gasUsedTotal.toNat < s.gasLimit.toNat) :
    After (fun answer t => match answer with
        | none => Funded limited entry t
        | some child => Endowed limited entry child t)
      (fun _ => Exhausted limited entry) ((spawnCall d isStatic isDelegate).exec oracle s) := by
  have hcleared : ∀ {t}, Funded limited entry t → Funded limited entry { t with storage := ∅ } := fun ht =>
    ht.still rfl rfl rfl rfl rfl
  refine after_spawnCall.mono ?_ ?_
  · intro answer t ht
    cases answer with
    | none => exact h.fetched ht
    | some child =>
      obtain ⟨t₀, rfl, hspawned⟩ := ht
      obtain ⟨target, ctx, requested, calldata, -, -, hstill⟩ := hspawned.frame
      have hfetched := hspawned.fetched
      have hsame : t₀.gasUsedTotal = s.gasUsedTotal ∧ t₀.gasLimit = s.gasLimit := by
        obtain ⟨_, _, rfl⟩ := hfetched.same
        exact ⟨rfl, rfl⟩
      refine endow (hcleared (h.fetched hfetched)) (calleeFrame_fresh _ _ _ _ _) hstill (Nat.succ_pos _) ?_
      exact fun hlimited => t₀.forwarded_bounds requested (by rw [hsame.1, hsame.2]; exact hleft hlimited)
  · rintro e t ⟨t₀, ht₀, rfl | ⟨rfl, -⟩⟩
    · exact (h.fetched ht₀).exhausted
    · exact (hcleared (h.fetched ht₀)).exhausted

theorem endowed_beginCreate (h : Funded limited entry s) (hleft : limited → s.gasUsedTotal.toNat < s.gasLimit.toNat) :
    After (fun creation t => match creation.rest with
        | .inl child => Endowed limited entry child t
        | .inr balances =>
          After (fun _ => Funded limited entry) (fun e t' => e = .outOfGas ∧
            Exhausted limited entry t') ((deploy creation.address creation.runtime balances).exec oracle t))
      (fun _ => Funded limited entry) ((beginCreate P d).exec oracle s) := by
  have hcounted : ∀ {t}, Funded limited entry t → Funded limited entry t.countCreation := fun ht =>
    ht.still rfl rfl rfl rfl rfl
  have hmoved : ∀ memory, Funded limited entry { s with memory := memory } := fun _ => h.still rfl rfl rfl rfl rfl
  refine after_beginCreate.mono ?_ ?_
  · rintro creation t ⟨t₀, rfl, hbegun⟩
    obtain ⟨memory, rfl⟩ := hbegun.same
    obtain ⟨ctx, -, hrest⟩ := hbegun.rest
    have hfunded := hcounted (hmoved memory)
    obtain ⟨addr, runtime, child | balances⟩ := creation
    · obtain ⟨args, hstill⟩ := hrest
      exact endow hfunded (constructorFrame_fresh _ _ _) hstill (Nat.succ_pos _) fun hlimited =>
        { s with memory := memory }.maxForward_bounds (hleft hlimited)
    · exact (funded_kept entry).deploy (hfunded.mergeBalances balances) fun ht => ht.register _ _
  · rintro e t ⟨memory, -, rfl | rfl⟩
    · exact hmoved memory
    · exact hcounted (hmoved memory)

theorem funded_handles (h : Funded limited entry (s.begun d total)) (hsolvent : s.Solvent P limited)
    (hinstruction : s.instruction? = some d)
    (htotal : total.toNat = s.gasUsedTotal.toNat + (totalGas d.opcode.toU8).toNat) :
    Handles P oracle d (s.begun d total) (Funded limited entry) (Exhausted limited entry)
      fun child _ t => Endowed limited entry child t := by
  have hdepth : s.extCallDepth = entry.extCallDepth := h.depth
  have hkept : KeptLocally (Funded limited entry) (Exhausted limited entry) := funded_kept entry
  have hleft : d.opcode = .callExt ∨ d.opcode = .delegate ∨ d.opcode = .create → limited →
      (s.begun d total).gasUsedTotal.toNat < (s.begun d total).gasLimit.toNat := by
    intro hop hlimited
    change total.toNat < s.gasLimit.toNat
    have hcall := hsolvent.gasLeft hlimited d hinstruction hop
    omega
  have htouch : ∀ {slot key t}, Funded limited entry t → Funded limited entry (t.noteTouched slot key) := fun ht =>
    ht.same rfl rfl rfl rfl rfl rfl rfl
  have hstore : ∀ {key value t}, Funded limited entry t → Funded limited entry (t.store key value) := fun ht =>
    ht.same rfl rfl rfl rfl rfl rfl rfl
  exact
    { start := h
      kept := hkept
      sload := fun _ => hkept.execSload h (fun _ _ _ ht => htouch ht)
        (fun _ _ ht _ _ => ht.still rfl rfl rfl rfl rfl) fun _ _ ht => ht.same rfl rfl rfl rfl rfl rfl rfl
      sstore := fun _ => hkept.execSstore h (fun _ _ _ ht => htouch ht) (fun _ _ ht => ht.journalStorage _)
        fun _ _ ht _ => hstore ht
      sdelete := fun hop => hkept.execSdelete h (fun _ _ ht => htouch ht) (fun _ _ ht => ht.journalStorage _)
        (fun hslot hstorage ht => ht.refundCleared fun hnested => by
          rw [hstorage]
          exact hsolvent.unrefunded d hinstruction hop (hdepth ▸ hnested) _ (by
            change (s.cpu.readWideChecked d.rs1).toOption = _
            rw [show s.cpu.readWideChecked d.rs1 = _ from hslot]
            rfl))
        fun _ _ ht _ => hstore ht
      log := fun _ => hkept.execLog h fun _ ht => ht.still rfl rfl rfl rfl rfl
      call := fun _ isDelegate hop => endowed_spawnCall h (hleft (by cases isDelegate <;> simp [hop, callOpcode]))
      create := fun hop _ => endowed_beginCreate h (hleft (.inr (.inr hop))) }

end

/-! ### Whole frames -/

structure Reported (limited : Prop) (entry : Vm) (answer : ExecutionOutput × Vm) : Prop
    extends Exhausted limited entry answer.2 where
  gasUsed : answer.1.gasUsed = answer.2.effectiveGasUsed
  gasRefund : answer.1.gasRefund = answer.2.gasRefund
  refund : answer.2.gasRefund.toNat ≤ clearingRefund.toNat * clearings answer.2.trace
  unrefunded : 0 < entry.extCallDepth → answer.2.gasRefund = 0

theorem Funded.reported {entry s : Vm} (h : Funded limited entry s) (res : ExecResult) :
    Reported limited entry (finishFrame entry (.ok res) s) := by
  have hlast := h.exhausted
  cases res with
  | halt => exact ⟨⟨hlast.instructions, hlast.charged, hlast.covered⟩, rfl, rfl, h.refund, h.unrefunded⟩
  | revert => exact ⟨⟨hlast.instructions, hlast.charged, hlast.covered⟩, rfl, rfl, Nat.zero_le _, fun _ => rfl⟩

theorem outcomeOf_error (e : Trap) : outcomeOf (.error e) ≠ .success := by cases e <;> simp [outcomeOf]

theorem Exhausted.reported {entry s : Vm} (h : Exhausted limited entry s) (e : Trap) :
    Reported limited entry (finishFrame entry (.error e) s) := by
  rw [finishFrame, if_neg (outcomeOf_error e)]
  exact ⟨⟨h.instructions, h.charged, h.covered⟩, rfl, rfl, Nat.zero_le _, fun _ => rfl⟩

/-- At most half of the gas is given back, and no more than the refund. -/
theorem Vm.toNat_effectiveGasUsed (vm : Vm) :
    vm.effectiveGasUsed.toNat = vm.gasUsedTotal.toNat - min vm.gasRefund.toNat (vm.gasUsedTotal.toNat / 2) := by
  have hhalf : (vm.gasUsedTotal / 2).toNat = vm.gasUsedTotal.toNat / 2 := toNat_udiv
  have hlesser : (lesser vm.gasRefund (vm.gasUsedTotal / 2)).toNat =
      min vm.gasRefund.toNat (vm.gasUsedTotal.toNat / 2) := by rw [lesser_toNat, hhalf]
  rw [Vm.effectiveGasUsed, toNat_sub_of_le, hlesser]
  rw [le_def, hlesser]
  omega

section

variable {entry frame t child : Vm} {output : ExecutionOutput}

section

variable (h : Endowed limited entry frame t) (hanswer : Reported limited frame (output, child))
include h hanswer

theorem Endowed.covered : gasMetered child.trace ≤ output.gasUsed.toNat := by
  have hrefund : child.gasRefund = 0 := hanswer.unrefunded h.nested
  have hused : output.gasUsed = child.effectiveGasUsed := hanswer.gasUsed
  have hcovered : gasMetered child.trace ≤ child.gasUsedTotal.toNat := hanswer.covered
  rw [hused, child.toNat_effectiveGasUsed, hrefund]
  simpa using hcovered

section

variable {total : U64} (htotal : total.toNat = t.gasUsedTotal.toNat + output.gasUsed.toNat)
include htotal

theorem Endowed.spent : Spent t (t.joined child total) child.trace where
  trace := rfl
  covered := by
    have hcovered := h.covered hanswer
    change _ ≤ total.toNat
    omega
  instructions := hanswer.instructions

theorem Endowed.refused : Exhausted limited entry (t.joined child total) := by
  apply h.caller.exhaust (h.spent hanswer htotal)
  intro hlimited
  have hshare := h.share hlimited
  have hcharged : gasCharged child.trace ≤ _ := hanswer.charged hlimited
  omega

theorem Endowed.paid (hwithin : t.gasLimit = 0 ∨ total ≤ t.gasLimit) :
    Funded limited entry (t.joined child total) :=
  h.caller.spend (h.spent hanswer htotal) rfl rfl (h.caller.le_limit hwithin) (Nat.le_add_right _ _)
    h.caller.unrefunded

end

theorem Endowed.settle {t' : Vm} (isDelegate : Bool) (ht' : Funded limited entry t') :
    Funded limited entry (t'.settle isDelegate output child) := by
  have hrest := t'.settle_undisturbed isDelegate output child
  have hzero : output.gasRefund = 0 := hanswer.gasRefund.trans (hanswer.unrefunded h.nested)
  have hrefund : (t'.settle isDelegate output child).gasRefund = t'.gasRefund := by
    rw [Vm.settle_gasRefund, hzero]
    split
    · exact BitVec.add_zero _
    · rfl
  exact ht'.still hrest.gasLimit hrest.extCallDepth hrest.gasUsedTotal hrefund hrest.trace

end

end

/-- The end of a frame below leaves its caller funded, or exhausted. -/
theorem funded_resumeStep {entry frame t : Vm} {pending : Pending} {answer : ExecutionOutput × Vm}
    (h : Endowed limited entry frame t) (hsum : t.gasUsedTotal.toNat + answer.1.gasUsed.toNat < 2 ^ 64)
    (hanswer : Reported limited frame answer) :
    After (fun _ => Funded limited entry) (fun _ => Exhausted limited entry)
      ((resumeStep pending answer).exec oracle t) := by
  obtain ⟨output, child⟩ := answer
  have hkept : KeptLocally (Funded limited entry) (Exhausted limited entry) := funded_kept entry
  have hover : 2 ^ 64 ≤ t.gasUsedTotal.toNat + output.gasUsed.toNat →
      Exhausted limited entry (t.joined child t.gasUsedTotal) := fun hoverflow => absurd hsum (Nat.not_lt.2 hoverflow)
  cases pending with
  | call d isDelegate =>
    exact after_resumeStep_call hkept hover (fun total htotal _ _ => h.refused hanswer htotal)
      fun total htotal hwithin => h.settle hanswer isDelegate (h.paid hanswer htotal hwithin)
  | constructor d addr runtime =>
    refine after_resumeStep_constructor hkept hover (fun total htotal _ _ => h.refused hanswer htotal)
      (fun total htotal hwithin => h.paid hanswer htotal hwithin) (fun _ total ht' => ?_)
      fun _ _ ht' => ht'.register addr runtime
    obtain ⟨_, _, _, heq⟩ := (t.joined child total).mergeStorage_eq child
    apply Funded.mergeBalances
    rw [heq]
    exact ht'.still rfl rfl rfl rfl rfl

theorem funded_advanceStep {P : Prims} {entry s : Vm} (h : Funded limited entry s)
    (hsolvent : s.Solvent P limited) :
    After (Progressed (Funded limited entry) fun child _ t => Endowed limited entry child t)
      (fun _ => Exhausted limited entry) ((advanceStep P).exec oracle s) := by
  apply after_advanceStep h.exhausted
  · intro d total _ htotal _ _
    exact h.overdrawn htotal
  · intro d total hinstruction htotal hwithin
    refine (funded_handles ?_ hsolvent hinstruction htotal).dispatch
    have hprice := (totalGas_bounds d.opcode).1
    have hspent : Spent s (s.begun d total) ([.charged (totalGas d.opcode.toU8)] ++ [.ran d.opcode]) := by
      refine ⟨List.append_assoc _ _ _, ?_, ?_⟩
      · change _ ≤ total.toNat
        simp [htotal, gasMetered, gasCharged, gasRefused, Event.gasCharged, Event.gasRefused]
      · simpa [gasCharged, instructionsRun, Event.gasCharged, Event.instructions] using hprice
    exact h.spend hspent rfl rfl (h.le_limit hwithin) (Nat.le_add_right _ _) h.unrefunded

/-- A moment at which gas can be accounted for: the instruction is solvent, and what a frame below has used can be
added to what its caller has used. -/
def Solvent (P : Prims) (limited : Prop) : Machine.Moment Vm Pending (ExecutionOutput × Vm) → Prop
  | .taken vm => vm.Solvent P limited
  | .joined vm _ _ answer => vm.gasUsedTotal.toNat + answer.1.gasUsed.toNat < 2 ^ 64

instance (P : Prims) (limited : Prop) [Decidable limited] : DecidablePred (Solvent P limited)
  | .taken vm => inferInstanceAs (Decidable (vm.Solvent P limited))
  | .joined vm _ _ answer => inferInstanceAs (Decidable (vm.gasUsedTotal.toNat + answer.1.gasUsed.toNat < 2 ^ 64))

theorem funded_keeps {P : Prims} (entry s : Vm) (h : Funded limited entry s)
    (hsolvent : Solvent P limited (.taken s)) :
    (machine P).Keeps oracle (Solvent P limited) (fun entry => Funded limited entry entry) (Funded limited)
      (Reported limited) entry s := by
  apply Machine.Keeps.of_step (m := machine P) (funded_advanceStep h hsolvent)
  · exact fun ht => ht
  · exact fun ht => ht.reported _
  · exact fun ht => ht.reported _
  · exact fun hspawned => hspawned.callee
  · exact fun hspawned hsum hanswer => funded_resumeStep hspawned hsum hanswer

/-- A moment of the execution of a frame. -/
def Occurs (P : Prims) (oracle : StateKey → Option Bytes) (vm : Vm)
    (moment : Machine.Moment Vm Pending (ExecutionOutput × Vm)) : Prop :=
  (machine P).Visits oracle stepBound (maxExtCallDepth + 1) vm.clearJournals moment

theorem funded_specifies (P : Prims) (oracle : StateKey → Option Bytes) (limited : Prop) :
    (machine P).Specifies oracle (Solvent P limited) (fun entry => Funded limited entry entry) (Funded limited)
      (Reported limited) where
  start := fun _ hentry => hentry.still rfl rfl rfl rfl rfl
  cut := fun _ _ hs => hs.exhausted.reported _
  keeps := funded_keeps

/-- What the execution of a frame reports if its gas can be accounted for throughout. -/
theorem funded_execute {P : Prims} {vm : Vm} (hfresh : vm.Fresh) (hpositive : limited → 0 < vm.gasLimit)
    (hsolvent : ∀ moment, Occurs P oracle vm moment → Solvent P limited moment) :
    Reported limited vm ((execute P vm).answer oracle) :=
  (funded_specifies P oracle limited).run _ vm (hfresh.funded hpositive) hsolvent

/-! ### Every run ends -/

/-- The meter has moved on, at the same depth. -/
structure Later (s t : Vm) : Prop where
  used : s.gasUsedTotal.toNat < t.gasUsedTotal.toNat
  depth : t.extCallDepth = s.extCallDepth

/-- A frame below is one deeper, and not too deep, and nothing has happened in it. -/
structure Deeper (s child t : Vm) : Prop where
  caller : Later s t
  fresh : child.trace = []
  depth : child.extCallDepth = s.extCallDepth + 1
  shallow : s.extCallDepth < maxExtCallDepth

theorem Later.same {s t t' : Vm} (h : Later s t) (hused : t'.gasUsedTotal = t.gasUsedTotal)
    (hdepth : t'.extCallDepth = t.extCallDepth) : Later s t' := ⟨hused ▸ h.used, hdepth.trans h.depth⟩

theorem later_kept (s : Vm) : KeptLocally (Later s) fun _ => True where
  moved := by
    intro t t' ht hlocal
    obtain ⟨gas, hmeters⟩ := hlocal.spent
    have hused := hmeters.used
    have hbefore := ht.used
    exact ⟨by omega, (extCallDepth_of_world hlocal.world).trans ht.depth⟩
  lapsed := fun _ _ => trivial

theorem Later.mergeBalances {s t : Vm} (h : Later s t) (balances : Table Address U256) :
    Later s (t.mergeBalances balances) := by
  have hsame := t.mergeBalances_undisturbed balances
  exact h.same hsame.gasUsedTotal hsame.extCallDepth

theorem Later.journalStorage {s t : Vm} (h : Later s t) (key : U256) : Later s (t.journalStorage key) := by
  obtain ⟨_, _, heq⟩ := t.journalStorage_eq key
  rw [heq]
  exact h.same rfl rfl

theorem Later.refundCleared {s t : Vm} (h : Later s t) (key : U256) : Later s (t.refundCleared key) := by
  unfold Vm.refundCleared
  split
  · exact h.same rfl rfl
  · exact h

section

variable {P : Prims} {s t : Vm} {d : DecodedInstruction}

theorem later_spawnCall {isStatic isDelegate : Bool} (h : Later s t) :
    After (fun answer t' => match answer with
        | none => Later s t'
        | some child => Deeper s child t') (fun _ _ => True) ((spawnCall d isStatic isDelegate).exec oracle t) := by
  refine after_spawnCall.mono ?_ fun _ _ _ => trivial
  intro answer t' ht'
  cases answer with
  | none =>
    obtain ⟨_, _, rfl⟩ := ht'.same
    exact h.same rfl rfl
  | some child =>
    obtain ⟨t₀, rfl, hspawned⟩ := ht'
    have hshallow := hspawned.shallow
    obtain ⟨target, ctx, requested, calldata, -, -, hstill⟩ := hspawned.frame
    have hdepth := extCallDepth_of_world hstill.world
    obtain ⟨_, _, rfl⟩ := hspawned.fetched.same
    rw [h.depth] at hshallow
    exact ⟨h.same rfl rfl, hstill.trace, hdepth.trans (congrArg (· + 1) h.depth), hshallow⟩

theorem later_beginCreate (h : Later s t) :
    After (fun creation t' => match creation.rest with
        | .inl child => Deeper s child t'
        | .inr balances => After (fun _ => Later s) (fun e _ => e = .outOfGas ∧ True)
            ((deploy creation.address creation.runtime balances).exec oracle t'))
      (fun _ => Later s) ((beginCreate P d).exec oracle t) := by
  refine after_beginCreate.mono ?_ ?_
  · rintro creation t' ⟨t₀, rfl, hbegun⟩
    obtain ⟨memory, rfl⟩ := hbegun.same
    have hshallow := hbegun.shallow
    obtain ⟨ctx, -, hrest⟩ := hbegun.rest
    obtain ⟨addr, runtime, child | balances⟩ := creation
    · obtain ⟨args, hstill⟩ := hrest
      have hdepth := extCallDepth_of_world hstill.world
      rw [h.depth] at hshallow
      exact ⟨h.same rfl rfl, hstill.trace, hdepth.trans (congrArg (· + 1) h.depth), hshallow⟩
    · have hcounted : Later s { t with memory := memory }.countCreation := h.same rfl rfl
      exact (later_kept s).deploy (hcounted.mergeBalances balances) fun ht => ht.same rfl rfl
  · rintro e t' ⟨memory, -, rfl | rfl⟩
    · exact h.same rfl rfl
    · exact h.same rfl rfl

theorem later_handles (h : Later s t) :
    Handles P oracle d t (Later s) (fun _ => True) fun child _ t' => Deeper s child t' where
  start := h
  kept := later_kept s
  sload := fun _ => (later_kept s).execSload h (fun _ _ _ ht => ht.same rfl rfl) (fun _ _ ht _ _ => ht.same rfl rfl)
    fun _ _ ht => ht.same rfl rfl
  sstore := fun _ => (later_kept s).execSstore h (fun _ _ _ ht => ht.same rfl rfl)
    (fun _ _ ht => ht.journalStorage _) fun _ _ ht _ => ht.same rfl rfl
  sdelete := fun _ => (later_kept s).execSdelete h (fun _ _ ht => ht.same rfl rfl)
    (fun _ _ ht => ht.journalStorage _) (fun _ _ ht => ht.refundCleared _) fun _ _ ht _ => ht.same rfl rfl
  log := fun _ => (later_kept s).execLog h fun _ ht => ht.same rfl rfl
  call := fun _ _ _ => later_spawnCall h
  create := fun _ _ => later_beginCreate h

theorem later_advanceStep (s : Vm) :
    After (Progressed (Later s) fun child _ t => Deeper s child t) (fun _ _ => True)
      ((advanceStep P).exec oracle s) := by
  apply after_advanceStep trivial (fun _ _ _ _ => trivial)
  intro d total _ htotal _
  have hprice := (totalGas_bounds d.opcode).1
  have hbegun : Later s (s.begun d total) := by
    refine ⟨?_, rfl⟩
    change s.gasUsedTotal.toNat < total.toNat
    rw [minGas] at hprice
    omega
  exact (later_handles hbegun).dispatch

theorem later_resumeStep (h : Later s t) (pending : Pending) (answer : ExecutionOutput × Vm) :
    After (fun _ => Later s) (fun _ _ => True) ((resumeStep pending answer).exec oracle t) := by
  obtain ⟨output, child⟩ := answer
  have hpaid : ∀ total : U64, total.toNat = t.gasUsedTotal.toNat + output.gasUsed.toNat →
      Later s (t.joined child total) := by
    intro total htotal
    have hbefore := h.used
    refine ⟨?_, h.depth⟩
    change s.gasUsedTotal.toNat < total.toNat
    omega
  cases pending with
  | call d isDelegate =>
    refine after_resumeStep_call (later_kept s) (fun _ => trivial) (fun _ _ _ _ => trivial) fun total htotal _ => ?_
    have hsame := (t.joined child total).settle_undisturbed isDelegate output child
    exact (hpaid total htotal).same hsame.gasUsedTotal hsame.extCallDepth
  | constructor d addr runtime =>
    refine after_resumeStep_constructor (later_kept s) (fun _ => trivial) (fun _ _ _ _ => trivial)
      (fun total htotal _ => hpaid total htotal) (fun _ total ht' => ?_) fun _ _ ht' => ht'.same rfl rfl
    have hsame := (t.joined child total).mergeStorage_undisturbed child
    exact (ht'.same hsame.gasUsedTotal hsame.extCallDepth).mergeBalances _

theorem later_advance {P : Prims} {oracle : StateKey → Option Bytes} {s s' : Vm} {answer : Except _ _}
    (hadvance : (machine P).advance.exec oracle s = (answer, s')) :
    After (Progressed (Later s) fun child _ t => Deeper s child t) (fun _ _ => True) (answer, s') :=
  hadvance ▸ later_advanceStep s

theorem machine_bounded (P : Prims) (oracle : StateKey → Option Bytes) :
    (machine P).Bounded oracle (fun vm => vm.gasUsedTotal.toNat) Vm.extCallDepth (2 ^ 64 - 1) maxExtCallDepth where
  within := fun s => Nat.le_sub_one_of_lt s.gasUsedTotal.isLt
  start := fun _ => rfl
  onward := by
    intro s s' hadvance
    have hlater := later_advance hadvance
    exact ⟨hlater.used, hlater.depth⟩
  spawn := by
    intro s s' child pending hadvance
    have hlater := later_advance hadvance
    exact ⟨hlater.shallow, hlater.depth⟩
  resumed := by
    intro s s' s'' child pending answer hadvance hresume
    have hlater := later_advance hadvance
    have hresumed : After (fun _ => Later s) (fun _ _ => True) (((machine P).resume pending answer).exec oracle s') :=
      later_resumeStep hlater.caller pending answer
    rw [hresume] at hresumed
    exact ⟨hresumed.used, hresumed.depth⟩

end

/-- Every execution comes to an end, whatever the bytecode: no frame is cut off. -/
theorem execute_ends (P : Prims) (oracle : StateKey → Option Bytes) {vm : Vm} (hdepth : vm.extCallDepth = 0) :
    (machine P).Ends oracle vm ((execute P vm).answer oracle) :=
  Machine.run_ends stepBound (machine_bounded P oracle) (by decide) _ vm (by omega) (by omega)

/-! ### The gas limit -/

/-- A moment at which no charge is refused. -/
def Affordable (P : Prims) (oracle : StateKey → Option Bytes) :
    Machine.Moment Vm Pending (ExecutionOutput × Vm) → Prop
  | .taken vm => gasRefused ((advanceStep P).exec oracle vm).2.trace = gasRefused vm.trace
  | .joined vm _ pending answer => gasRefused ((resumeStep pending answer).exec oracle vm).2.trace =
      gasRefused vm.trace + gasRefused answer.2.trace

instance (P : Prims) (oracle : StateKey → Option Bytes) : DecidablePred (Affordable P oracle)
  | .taken _ => inferInstanceAs (Decidable (_ = _))
  | .joined _ _ _ _ => inferInstanceAs (Decidable (_ = _))

theorem trace_finishFrame (entry : Vm) (res : Except Trap ExecResult) (s : Vm) :
    (finishFrame entry res s).2.trace = s.trace := by
  unfold finishFrame
  dsimp only
  split
  · rfl
  · rfl

/-- If no charge is refused at any moment, none is in whole frames with all frames below them. -/
theorem affordable_specifies (P : Prims) (oracle : StateKey → Option Bytes) :
    (machine P).Specifies oracle (Affordable P oracle) (fun vm => gasRefused vm.trace = 0)
      (fun _ vm => gasRefused vm.trace = 0) fun _ answer => gasRefused answer.2.trace = 0 where
  start := fun _ h => h
  cut := fun entry s h => (congrArg gasRefused (trace_finishFrame entry _ s)).trans h
  keeps := by
    intro entry s h hmoment
    have hadvanced : ∀ {answer s'}, (machine P).advance.exec oracle s = (answer, s') → gasRefused s'.trace = 0 := by
      intro answer s' hadvance
      rw [← h, ← hmoment]
      exact congrArg (fun res => gasRefused res.2.trace) hadvance.symm
    have hfinished : ∀ {res s'}, gasRefused s'.trace = 0 → gasRefused (finishFrame entry res s').2.trace = 0 :=
      fun hs' => (congrArg gasRefused (trace_finishFrame entry _ _)).trans hs'
    refine ⟨hadvanced, fun hadvance => hfinished (hadvanced hadvance), fun hadvance => hfinished (hadvanced hadvance),
      fun hadvance => congrArg gasRefused (later_advance hadvance).fresh, ?_⟩
    intro child pending s' answer hadvance hjoined hanswer
    have hresumed : gasRefused ((resumeStep pending answer).exec oracle s').2.trace = 0 := by
      rw [hjoined, hadvanced hadvance, hanswer]
    change After _ _ ((resumeStep pending answer).exec oracle s')
    generalize (resumeStep pending answer).exec oracle s' = res at hresumed ⊢
    obtain ⟨_ | _, t⟩ := res
    · exact hfinished hresumed
    · exact hresumed

/-- Execution halts, no more instructions are executed in all frames together than the limit pays for at the lowest
price, and the meters of all frames together, which count a charge before it is compared with the limit, have counted
no more gas than the limit. -/
structure WithinLimit (P : Prims) (oracle : StateKey → Option Bytes) (vm : Vm) : Prop where
  ends : (machine P).Ends oracle vm ((execute P vm).answer oracle)
  instructions : instructionsRun ((execute P vm).answer oracle).2.trace ≤ vm.gasLimit.toNat / minGas
  charged : gasMetered ((execute P vm).answer oracle).2.trace ≤ vm.gasLimit.toNat

/-- A frame with a limit runs within it, with all frames below it, if some gas is left at every call and creation, no
frame below clears a value, no meter overflows, and no charge is refused. -/
theorem metered_termination (P : Prims) (oracle : StateKey → Option Bytes) (vm : Vm) (hfresh : vm.Fresh)
    (hdepth : vm.extCallDepth = 0) (hlimit : 0 < vm.gasLimit)
    (hsolvent : ∀ moment, Occurs P oracle vm moment → Solvent P True moment)
    (haffordable : ∀ moment, Occurs P oracle vm moment → Affordable P oracle moment) : WithinLimit P oracle vm := by
  have hreported := funded_execute hfresh (fun _ => hlimit) hsolvent
  have hcharged := hreported.charged trivial
  have hinstructions := hreported.instructions
  have hstart : gasRefused vm.trace = 0 := congrArg gasRefused hfresh.trace
  have hrefused : gasRefused ((execute P vm).answer oracle).2.trace = 0 :=
    (affordable_specifies P oracle).run _ vm hstart haffordable
  refine ⟨execute_ends P oracle hdepth, ?_, by rwa [gasMetered, hrefused]⟩
  rw [Nat.le_div_iff_mul_le (by decide), Nat.mul_comm]
  exact hinstructions.trans hcharged

def stateWith (addr : Address) (code : Bytes) : StateKey → Option Bytes := fun key =>
  if key = .account addr .code then some code else none

/-- A caller that forwards gas to a contract which stores a value and halts. -/
def cautiousCall : Vm := outermost 10000 .default [] (assemble [encode .callExt 0 0 0, encode .halt 0 0 0])

def storingCallee : StateKey → Option Bytes := stateWith zero32 (assemble [encode .sstore 0 0 2, encode .halt 0 0 0])

theorem metered_termination_cautious :
    WithinLimit lucid storingCallee cautiousCall ∧
      instructionsRun ((execute lucid cautiousCall).answer storingCallee).2.trace = 4 := by
  refine ⟨?_, by decide +kernel⟩
  apply metered_termination lucid storingCallee cautiousCall (outermost_fresh _ _ _ _)
  · decide +kernel
  · decide +kernel
  · intro moment hmoment
    have hmonitor : (machine lucid).monitor storingCallee stepBound (fun moment => Solvent lucid True moment)
        8 (maxExtCallDepth + 1) cautiousCall.clearJournals = true := by decide +kernel
    exact of_decide_eq_true (Machine.monitor_visits hmonitor hmoment)
  · intro moment hmoment
    have hmonitor : (machine lucid).monitor storingCallee stepBound
        (fun moment => Affordable lucid storingCallee moment)
        8 (maxExtCallDepth + 1) cautiousCall.clearJournals = true := by decide +kernel
    exact of_decide_eq_true (Machine.monitor_visits hmonitor hmoment)

/-- A caller with just enough gas for the call. -/
def lastGasCall : Vm := outermost 2500 .default [] (assemble [encode .callExt 0 0 0])

def creatingCallee : StateKey → Option Bytes := stateWith zero32 (assemble [encode .create 0 0 0])

/-- Nothing is left to forward, so the callee runs without a limit. -/
theorem gas_limit_exceeded :
    lastGasCall.Fresh ∧ lastGasCall.extCallDepth = 0 ∧ 0 < lastGasCall.gasLimit ∧
      ¬ WithinLimit lucid creatingCallee lastGasCall := by
  refine ⟨outermost_fresh _ _ _ _, by decide +kernel, by decide +kernel, fun h => ?_⟩
  have hspent : gasMetered ((execute lucid lastGasCall).answer creatingCallee).2.trace = 34500 := by
    decide +kernel
  have hlimit : lastGasCall.gasLimit = 2500 := by decide +kernel
  have hcharged := h.charged
  rw [hspent, hlimit] at hcharged
  exact absurd hcharged (by decide)

/-! ### Refunds -/

/-- At least half of the gas that all frames consumed is reported, and the rest is at most one refund for each value
cleared. -/
structure RefundBounded (P : Prims) (oracle : StateKey → Option Bytes) (vm : Vm) : Prop where
  half : gasMetered ((execute P vm).answer oracle).2.trace ≤ 2 * ((execute P vm).answer oracle).1.gasUsed.toNat
  once : gasMetered ((execute P vm).answer oracle).2.trace ≤ ((execute P vm).answer oracle).1.gasUsed.toNat +
    clearingRefund.toNat * clearings ((execute P vm).answer oracle).2.trace

/-- If no frame below clears a value and no meter overflows, what is reported for a whole call tree takes off each
refund once and at most half. -/
theorem refunds_counted_once (P : Prims) (oracle : StateKey → Option Bytes) (vm : Vm) (hfresh : vm.Fresh)
    (hsolvent : ∀ moment, Occurs P oracle vm moment → Solvent P False moment) : RefundBounded P oracle vm := by
  have hreported := funded_execute hfresh False.elim hsolvent
  have hcovered := hreported.covered
  have hrefund := hreported.refund
  have hused := ((execute P vm).answer oracle).2.toNat_effectiveGasUsed
  rw [← hreported.gasUsed] at hused
  constructor
  · omega
  · omega

/-- A caller that clears a value it has stored, after a call. -/
def clearingCaller : Vm :=
  outermost 20000 .default []
    (assemble [encode .callExt 0 0 0, encode .sstore 0 0 2, encode .sdelete 0 0 0, encode .halt 0 0 0])

theorem refunds_counted_once_caller :
    RefundBounded lucid storingCallee clearingCaller ∧
      clearings ((execute lucid clearingCaller).answer storingCallee).2.trace = 1 := by
  refine ⟨?_, by decide +kernel⟩
  apply refunds_counted_once lucid storingCallee clearingCaller (outermost_fresh _ _ _ _)
  intro moment hmoment
  have hmonitor : (machine lucid).monitor storingCallee stepBound (fun moment => Solvent lucid False moment)
      8 (maxExtCallDepth + 1) clearingCaller.clearJournals = true := by decide +kernel
  exact of_decide_eq_true (Machine.monitor_visits hmonitor hmoment)

/-- A callee that clears a value it has stored. -/
def clearingCallee : StateKey → Option Bytes :=
  stateWith zero32 (assemble [encode .sstore 0 0 2, encode .sdelete 0 0 0, encode .halt 0 0 0])

/-- The refund is taken off in the callee and once more in the caller. -/
theorem refund_counted_twice : cautiousCall.Fresh ∧ ¬ RefundBounded lucid clearingCallee cautiousCall := by
  refine ⟨outermost_fresh _ _ _ _, fun h => ?_⟩
  have hspent : gasMetered ((execute lucid cautiousCall).answer clearingCallee).2.trace = 4706 := by
    decide +kernel
  have hreported : ((execute lucid cautiousCall).answer clearingCallee).1.gasUsed = 2105 := by decide +kernel
  have hhalf := h.half
  rw [hspent, hreported] at hhalf
  exact absurd hhalf (by decide)

/-! ### How deep calls nest -/

/-- A frame runs no deeper than calls may nest, and a frame that it waited for was one deeper. -/
def Nested : Machine.Moment Vm Pending (ExecutionOutput × Vm) → Prop
  | .taken vm => vm.extCallDepth ≤ maxExtCallDepth
  | .joined vm child _ _ => vm.extCallDepth < maxExtCallDepth ∧ child.extCallDepth = vm.extCallDepth + 1

/-- Whatever code runs, and whatever it calls and creates, frames nest no deeper than `MAX_EXT_CALL_DEPTH`. -/
theorem frames_nest_within_depth (P : Prims) (oracle : StateKey → Option Bytes) (vm : Vm)
    (hdepth : vm.extCallDepth ≤ maxExtCallDepth) (moment : Machine.Moment Vm Pending (ExecutionOutput × Vm))
    (h : Occurs P oracle vm moment) : Nested moment := by
  have hstart : vm.clearJournals.extCallDepth ≤ maxExtCallDepth := hdepth
  unfold Occurs at h
  generalize vm.clearJournals = s at h hstart
  generalize maxExtCallDepth + 1 = level at h
  have hbounded := machine_bounded P oracle
  induction h with
  | here => exact hstart
  | joined hstep =>
    obtain ⟨hshallow, hchild⟩ := hbounded.spawn hstep
    have hcaller := (later_advance hstep).caller.depth
    exact ⟨hcaller ▸ hshallow, hcaller ▸ hchild⟩
  | onward hstep _ ih => exact ih ((hbounded.onward hstep).2 ▸ hstart)
  | beneath hstep _ ih =>
    obtain ⟨hshallow, hchild⟩ := hbounded.spawn hstep
    exact ih (hchild ▸ hshallow)
  | resumed hstep hresume _ ih => exact ih ((hbounded.resumed hstep hresume).2 ▸ hstart)

/-- The frames of a call of a storing contract. -/
theorem frames_nest_within_depth_cautious :
    cautiousCall.extCallDepth ≤ maxExtCallDepth ∧
      ∀ moment, Occurs lucid storingCallee cautiousCall moment → Nested moment :=
  ⟨by decide, frames_nest_within_depth lucid storingCallee cautiousCall (by decide)⟩

end Pyde.PVM
