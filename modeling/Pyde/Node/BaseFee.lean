/-
Module: Pyde.Node.BaseFee
Purpose: The base fee from block to block, and when an adjustment stays within an eighth.
Trusted boundary: Prims, Pvm
-/
import Pyde.Node.SignatureGate

namespace Pyde

open ByteCodec

variable {P : Prims} {pvm : Pvm} {chain : ChainState} {manager : StateManager} {block : Block} {fee : U128}

/-! ### The adjustments a run makes -/

/-- One adjustment: the fee it starts from, the gas it counts, and the fee it leaves. -/
structure FeeStep where
  fee : U128
  gasUsed : U64
  next : U128

/-- The adjustments made for a processed block: one for each skipped slot, which counts as an empty block, and one for
the block itself. -/
def feeSteps (chain : ChainState) (slot : U64) (processed : Processed) : List FeeStep :=
  let emptySlot := fun baseFee => adjustBaseFee baseFee 0 gasTarget
  ((List.range (satSub slot (satAdd chain.headSlot 1)).toNat).map fun i =>
    ⟨emptySlot^[i] chain.baseFee, 0, emptySlot^[i + 1] chain.baseFee⟩) ++
    [⟨catchUpBaseFee chain slot, processed.totalGas, processed.chain.baseFee⟩]

/-- The adjustments of blocks that are processed one after the other. What the state is between two blocks does not
matter to the fee and is left open. -/
inductive FeeRun (P : Prims) (pvm : Pvm) : ChainState → List FeeStep → Prop where
  | done (chain : ChainState) : FeeRun P pvm chain []
  | block {chain : ChainState} {manager : StateManager} {block : Block} {aot : Nat → Bool}
      {wsSlot : Option U64} {processed : Processed} {steps : List FeeStep}
      (hblock : processFullBlock P pvm aot chain manager block wsSlot = .ok processed)
      (rest : FeeRun P pvm processed.chain steps) :
      FeeRun P pvm chain (feeSteps chain block.header.slot processed ++ steps)

/-- What the documentation promises of an adjustment. -/
structure FeeStep.Within (step : FeeStep) : Prop where
  rise : step.next.toNat ≤ step.fee.toNat + max (step.fee.toNat / 8) 1
  fall : step.fee.toNat ≤ step.next.toNat + max (step.fee.toNat / 8) 1
  floor : minBaseFee ≤ step.next
  monotone : ∀ gas gas' : U64, gas ≤ gas' → gas' ≤ gasCeiling →
    adjustBaseFee step.fee gas gasTarget ≤ adjustBaseFee step.fee gas' gasTarget
  product : step.fee.toNat * (max step.gasUsed.toNat gasTarget.toNat - min step.gasUsed.toNat gasTarget.toNat) < 2 ^ 128

theorem processFullBlock_baseFee {aot : Nat → Bool} {wsSlot : Option U64} {processed : Processed}
    (h : processFullBlock P pvm aot chain manager block wsSlot = .ok processed) :
    processed.chain.baseFee = adjustBaseFee (catchUpBaseFee chain block.header.slot) processed.totalGas gasTarget := by
  unfold processFullBlock at h
  cases hheader : validateHeaderWithCheckpoint block.header chain wsSlot with
  | error e => rw [hheader] at h; cases h
  | ok _ =>
    cases hbody : validateBlockBody P block manager.store chain.chainId with
    | error e => rw [hheader, hbody] at h; cases h
    | ok _ =>
      rw [hheader, hbody] at h
      cases h
      rfl

/-- Every adjustment of a run is one of `adjust_base_fee` with the protocol's target. -/
theorem FeeRun.next_eq {steps : List FeeStep} (h : FeeRun P pvm chain steps) :
    ∀ step ∈ steps, step.next = adjustBaseFee step.fee step.gasUsed gasTarget := by
  induction h with
  | done chain => exact nofun
  | @block chain manager block aot wsSlot processed steps hblock rest ih =>
    intro step hstep
    rcases List.mem_append.mp hstep with hstep | hstep
    · rcases List.mem_append.mp hstep with hskipped | hown
      · obtain ⟨i, -, rfl⟩ := List.mem_map.mp hskipped
        exact Function.iterate_succ_apply' _ i chain.baseFee
      · rw [List.mem_singleton.mp hown]
        exact processFullBlock_baseFee hblock
    · exact ih step hstep

/-! ### The arithmetic of one adjustment -/

theorem toNat_gasTarget : gasTarget.toNat = 400000000 := rfl

theorem greater_toNat {w : Nat} (x y : BitVec w) : (greater x y).toNat = max x.toNat y.toNat := by
  unfold greater
  split
  next hle =>
    rw [BitVec.le_def] at hle
    exact (max_eq_right hle).symm
  next hlt =>
    rw [BitVec.le_def] at hlt
    exact (max_eq_left (by omega)).symm

/-- The fee change that goes with a distance from the target, before the lower bound of one quantum. -/
def feeDelta (fee distance : Nat) : Nat := fee * distance / 400000000 / 8

theorem toNat_feeDelta {distance : U64} (hfee : fee.toNat ≤ 2 ^ 96) (hdistance : distance.toNat ≤ 1600000000) :
    (fee * distance.setWidth 128 / gasTarget.setWidth 128 / 8).toNat = feeDelta fee.toNat distance.toNat := by
  have hproduct : fee.toNat * distance.toNat ≤ 2 ^ 96 * 1600000000 := Nat.mul_le_mul hfee hdistance
  have hwide : (distance.setWidth 128).toNat = distance.toNat := BitVec.toNat_setWidth_of_le (by decide)
  rw [BitVec.toNat_udiv, BitVec.toNat_udiv, BitVec.toNat_mul, hwide, Nat.mod_eq_of_lt (by omega)]
  rfl

@[simp] theorem feeDelta_zero (fee : Nat) : feeDelta fee 0 = 0 := by
  simp [feeDelta]

theorem feeDelta_mono (fee : Nat) {distance distance' : Nat} (h : distance ≤ distance') :
    feeDelta fee distance ≤ feeDelta fee distance' :=
  Nat.div_le_div_right (Nat.div_le_div_right (Nat.mul_le_mul_left fee h))

theorem feeDelta_le_eighth (fee : Nat) {distance : Nat} (h : distance ≤ 400000000) :
    feeDelta fee distance ≤ fee / 8 := by
  have htarget : feeDelta fee 400000000 = fee / 8 := by rw [feeDelta, Nat.mul_div_cancel _ (by decide)]
  rw [← htarget]
  exact feeDelta_mono fee h

/-- `adjust_base_fee` on integers, for a fee and a gas in range. -/
theorem toNat_adjustBaseFee {gas : U64} (hpos : minBaseFee ≤ fee) (hfee : fee.toNat ≤ 2 ^ 96)
    (hgas : gas ≤ gasCeiling) :
    (adjustBaseFee fee gas gasTarget).toNat = if gas.toNat = 400000000 then fee.toNat
      else if 400000000 < gas.toNat then fee.toNat + max (feeDelta fee.toNat (gas.toNat - 400000000)) 1
      else max (fee.toNat - max (feeDelta fee.toNat (400000000 - gas.toNat)) 1) 1 := by
  have htarget := toNat_gasTarget
  have hle : gas.toNat ≤ 1600000000 := BitVec.le_def.mp hgas
  have hone : 1 ≤ fee.toNat := BitVec.le_def.mp hpos
  have hmin : minBaseFee.toNat = 1 := rfl
  have hone' : (1 : U128).toNat = 1 := rfl
  have heq : gas = gasTarget ↔ gas.toNat = 400000000 := BitVec.toNat_inj.symm
  unfold adjustBaseFee
  by_cases hat : gas = gasTarget
  · rw [if_pos (.inr hat), if_pos (heq.mp hat)]
  rw [if_neg (not_or.mpr ⟨by decide, hat⟩), if_neg (fun h => hat (heq.mpr h))]
  by_cases hover : gasTarget < gas
  · have hlt : 400000000 < gas.toNat := by rwa [BitVec.lt_def, htarget] at hover
    have hdistance : (gas - gasTarget).toNat = gas.toNat - 400000000 := by
      rw [BitVec.toNat_sub_of_le (BitVec.le_of_lt hover), htarget]
    have hdelta := toNat_feeDelta hfee (show (gas - gasTarget).toNat ≤ 1600000000 by omega)
    rw [hdistance] at hdelta
    have hbound : feeDelta fee.toNat (gas.toNat - 400000000) ≤ 2 ^ 96 * 3 := by
      refine (feeDelta_mono _ (by omega : _ ≤ 1200000000)).trans ?_
      unfold feeDelta
      omega
    rw [if_pos hover, if_pos hlt]
    dsimp only
    rw [greater_toNat, BitVec.toNat_add, greater_toNat, hdelta, hmin, hone', Nat.mod_eq_of_lt (by omega)]
    exact max_eq_left (hone.trans (Nat.le_add_right _ _))
  · have hlt : ¬ 400000000 < gas.toNat := by rwa [BitVec.lt_def, htarget] at hover
    have hne : gas.toNat ≠ 400000000 := fun h => hat (heq.mpr h)
    have hunder : gas < gasTarget := by
      rw [BitVec.lt_def, htarget]
      omega
    have hdistance : (gasTarget - gas).toNat = 400000000 - gas.toNat := by
      rw [BitVec.toNat_sub_of_le (BitVec.le_of_lt hunder), htarget]
    have hpositive : (0 : U64) < gasTarget - gas := by
      rw [BitVec.lt_def, hdistance, BitVec.ofNat_eq_ofNat, BitVec.toNat_zero]
      omega
    have hdelta := toNat_feeDelta hfee (show (gasTarget - gas).toNat ≤ 1600000000 by omega)
    rw [hdistance] at hdelta
    rw [if_neg hover, if_neg hlt]
    dsimp only
    rw [if_pos hpositive, greater_toNat, toNat_satSub, greater_toNat, hdelta, hmin, hone']

theorem adjustBaseFee_mono {gas gas' : U64} (hpos : minBaseFee ≤ fee) (hfee : fee.toNat ≤ 2 ^ 96)
    (hle : gas ≤ gas')
    (hgas' : gas' ≤ gasCeiling) : adjustBaseFee fee gas gasTarget ≤ adjustBaseFee fee gas' gasTarget := by
  have hone : 1 ≤ fee.toNat := BitVec.le_def.mp hpos
  have hnat := BitVec.le_def.mp hle
  have hrise := feeDelta_mono fee.toNat (Nat.sub_le_sub_right hnat 400000000)
  have hfall := feeDelta_mono fee.toNat (Nat.sub_le_sub_left hnat 400000000)
  rw [BitVec.le_def, toNat_adjustBaseFee hpos hfee (BitVec.le_trans hle hgas'), toNat_adjustBaseFee hpos hfee hgas']
  split_ifs <;> omega

/-- The rise is at most an eighth, or one quantum, exactly when the gas above the target is small enough for the fee. -/
theorem feeDelta_within_iff (fee distance : Nat) :
    max (feeDelta fee distance) 1 ≤ max (fee / 8) 1 ↔ fee * distance < 3200000000 * (max (fee / 8) 1 + 1) := by
  have hdiv : feeDelta fee distance = fee * distance / 3200000000 := Nat.div_div_eq_div_mul _ _ _
  rw [hdiv]
  constructor
  · intro h
    exact (Nat.div_lt_iff_lt_mul (by decide)).mp (by omega) |>.trans_eq (Nat.mul_comm _ _)
  · intro h
    have hlt := (Nat.div_lt_iff_lt_mul (by decide : 0 < 3200000000)).mpr (h.trans_eq (Nat.mul_comm _ _))
    omega

/-! ### The envelope -/

/-- The gas a block uses above the target is small enough for the fee. It is so for every fee when the block uses at most
twice the target. -/
def FeeStep.Moderate (step : FeeStep) : Prop :=
  step.fee.toNat * (step.gasUsed.toNat - gasTarget.toNat) < 8 * gasTarget.toNat * (max (step.fee.toNat / 8) 1 + 1)

instance (step : FeeStep) : Decidable step.Moderate := inferInstanceAs (Decidable (_ < _))

/-- In every run, an adjustment that starts from a fee in range keeps to what is documented exactly when the block is
moderate; a skipped slot always is. -/
theorem base_fee_in_envelope_iff {P : Prims} {pvm : Pvm} {chain : ChainState} {steps : List FeeStep}
    (hrun : FeeRun P pvm chain steps) {step : FeeStep} (hstep : step ∈ steps) (hpos : minBaseFee ≤ step.fee)
    (hfee : step.fee.toNat ≤ 2 ^ 96) (hgas : step.gasUsed ≤ gasCeiling) : step.Within ↔ step.Moderate := by
  have hone : 1 ≤ step.fee.toNat := BitVec.le_def.mp hpos
  have hceiling : step.gasUsed.toNat ≤ 1600000000 := BitVec.le_def.mp hgas
  have hmoderate := feeDelta_within_iff step.fee.toNat (step.gasUsed.toNat - 400000000)
  have hfall := feeDelta_le_eighth step.fee.toNat (show 400000000 - step.gasUsed.toNat ≤ 400000000 by omega)
  have hnext := congrArg BitVec.toNat (hrun.next_eq step hstep)
  rw [toNat_adjustBaseFee hpos hfee hgas] at hnext
  constructor
  · intro h
    have hrise := h.rise
    refine hmoderate.mp ?_
    by_cases hover : 400000000 < step.gasUsed.toNat
    · rw [if_neg (by omega), if_pos hover] at hnext
      omega
    · rw [show step.gasUsed.toNat - 400000000 = 0 by omega, feeDelta_zero]
      omega
  · intro h
    have hdelta := hmoderate.mpr h
    have hproduct : step.fee.toNat * (max step.gasUsed.toNat gasTarget.toNat - min step.gasUsed.toNat gasTarget.toNat) ≤
        2 ^ 96 * 1600000000 := Nat.mul_le_mul hfee (by rw [toNat_gasTarget]; omega)
    have hfloor : 1 ≤ step.next.toNat := by
      rw [hnext]
      split_ifs <;> omega
    refine ⟨?_, ?_, BitVec.le_def.mpr hfloor, fun gas gas' => adjustBaseFee_mono hpos hfee, by omega⟩
    · rw [hnext]
      split_ifs <;> omega
    · rw [hnext]
      split_ifs <;> omega

/-! ### A transfer, and a call that uses the whole block -/

theorem processFullBlock_of_valid {aot : Nat → Bool}
    (hheader : validateHeaderWithCheckpoint block.header chain none = .ok ())
    (hbody : validateBlockBody P block manager.store chain.chainId = .ok ()) :
    processFullBlock P pvm aot chain manager block none = .ok (applyBlock P pvm aot chain manager block) := by
  unfold processFullBlock
  rw [hheader, hbody]
  rfl

/-- The adjustment for the only block of a run. -/
def onlyFeeStep (pvm : Pvm) (manager : StateManager) (block : Block) : FeeStep :=
  let processed := applyBlock lucid pvm (fun _ => false) (ChainState.genesis zero32 1) manager block
  ⟨catchUpBaseFee (ChainState.genesis zero32 1) block.header.slot, processed.totalGas, processed.chain.baseFee⟩

theorem feeRun_only (hheader : validateHeaderWithCheckpoint block.header (ChainState.genesis zero32 1) none = .ok ())
    (hbody : validateBlockBody lucid block manager.store 1 = .ok ()) (hslot : block.header.slot = 1) :
    FeeRun lucid pvm (ChainState.genesis zero32 1) [onlyFeeStep pvm manager block] := by
  have hblock : processFullBlock lucid pvm (fun _ => false) (ChainState.genesis zero32 1) manager block none =
      .ok _ := processFullBlock_of_valid hheader hbody
  have hrun := FeeRun.block hblock (.done _)
  unfold feeSteps at hrun
  rw [hslot] at hrun
  rw [onlyFeeStep, hslot]
  exact hrun

theorem transfer_in_envelope : (onlyFeeStep idlePvm keyedManager signedBlock).Within := by
  have hrun : FeeRun lucid idlePvm _ [onlyFeeStep idlePvm keyedManager signedBlock] :=
    feeRun_only (by decide +kernel) (by decide +kernel) rfl
  exact (base_fee_in_envelope_iff hrun (List.mem_singleton_self _) (by decide +kernel) (by decide +kernel)
    (by decide +kernel)).mpr (by decide +kernel)

/-- A virtual machine in which every call uses all the gas it is given. -/
def exhaustingPvm : Pvm := fun _ _ call =>
  .pure { success := true, gasUsed := call.gasLimit, gasRefund := 0, storage := [], contracts := [], logs := [],
          returnData := [] }

/-- A signed call of the contract at address 9 with a gas limit of four targets. -/
def heavyCall : Transaction :=
  let tx := { transferOf 1 1 0 with gasLimit := gasCeiling }
  { tx with signature := (lucidSignature [7] (tx.hash lucid).toList).bytes }

/-- An account that can pay for it, and the contract. -/
def heavyManager : StateManager :=
  let manager := managerOf lucid
    [{ fundedAccount 1 (.single (lucidKey 7)) with balance := 1000000000000000000000000 }]
  { manager with store := StateProgram.insert stored manager.store (codeKey lucid (fill32 9)) [0] }

/-- The call fills the block, and the fee rises by three eighths, from 50000000000 to 68750000000. -/
theorem full_block_leaves_envelope :
    FeeRun lucid exhaustingPvm (ChainState.genesis zero32 1)
        [onlyFeeStep exhaustingPvm heavyManager (blockOf lucid [heavyCall] [[0]])] ∧
      (onlyFeeStep exhaustingPvm heavyManager (blockOf lucid [heavyCall] [[0]])).fee = genesisBaseFee ∧
      (onlyFeeStep exhaustingPvm heavyManager (blockOf lucid [heavyCall] [[0]])).gasUsed = gasCeiling ∧
      ¬ (onlyFeeStep exhaustingPvm heavyManager (blockOf lucid [heavyCall] [[0]])).Within := by
  refine ⟨feeRun_only (by decide +kernel) (by decide +kernel) rfl, by decide +kernel, by decide +kernel, fun h => ?_⟩
  have hrise := h.rise
  revert hrise
  decide +kernel

end Pyde
