/-
Module: Pyde.Consensus.ValidatorSet
Purpose: The validator set over runs, and which entry of an address a slash strikes.
Trusted boundary: none
-/
import Pyde.Tx.Validation

namespace Pyde

open ByteCodec List BitVec

inductive ValidatorStatus where
  | active
  | unbonding (exitBlock : U64)
  | exited
deriving DecidableEq

structure Validator where
  address : Address
  publicKey : Bytes
  stake : U128
  status : ValidatorStatus
  registeredEpoch : U64
  kemPk : Option Bytes
deriving DecidableEq

/-- All registrations, oldest first. -/
abbrev ValidatorSet := List Validator

def unbondingPeriod : U64 := 3024000#64

inductive SlashingOffense where
  | doubleSigning
  | equivocation
  | livenessMinor
  | livenessMajor
  | livenessAbsent
  | invalidProposal
  | decryptionWithholding
deriving DecidableEq

structure SlashResult where
  offender : Address
  amountBurned : U128
  finderFee : U128
  ejected : Bool
  forcedUnbonding : Bool
  offense : SlashingOffense
deriving DecidableEq

/-- The percentage of the stake that an offense costs. -/
def SlashingOffense.percent : SlashingOffense → U128
  | doubleSigning => 100
  | equivocation => 100
  | livenessMinor => 1
  | livenessMajor => 5
  | livenessAbsent => 10
  | invalidProposal => 50
  | decryptionWithholding => 2

/-- `compute_slash`: what is burned, and the finder's fee. -/
def computeSlash (stake : U128) (offense : SlashingOffense) : U128 × U128 :=
  let slashAmount := stake * offense.percent / 100
  let finderFee := slashAmount * 10 / 100
  (slashAmount - finderFee, finderFee)

def updateFirst (found : Validator → Bool) (change : Validator → Validator) : ValidatorSet → ValidatorSet
  | [] => []
  | v :: rest => if found v then change v :: rest else v :: updateFirst found change rest

namespace ValidatorSet

/-- The entry is active and belongs to the address. -/
def activeAt (addr : Address) (v : Validator) : Bool := decide (v.address = addr ∧ v.status = .active)

/-- `register`. A registration that is refused changes nothing. -/
def register (set : ValidatorSet) (addr : Address) (pk : Bytes) (stake : U128) (currentEpoch : U64) :
    ValidatorSet :=
  if stake < validatorStake ∨ set.any (activeAt addr) then set
  else set ++ [⟨addr, pk, validatorStake, .active, currentEpoch, none⟩]

def deregister (set : ValidatorSet) (addr : Address) (currentBlock : U64) : ValidatorSet :=
  updateFirst (activeAt addr) (fun v => { v with status := .unbonding currentBlock }) set

/-- The body of the loop of `process_unbonding`. -/
def release (currentBlock : U64) (v : Validator) : Validator :=
  match v.status with
  | .unbonding exitBlock => if exitBlock + unbondingPeriod ≤ currentBlock then { v with status := .exited } else v
  | _ => v

def processUnbonding (set : ValidatorSet) (currentBlock : U64) : ValidatorSet := set.map (release currentBlock)

def topUpStake (set : ValidatorSet) (addr : Address) (amt : U128) : ValidatorSet :=
  updateFirst (fun v => v.address = addr) (fun v => { v with stake := v.stake + amt }) set

end ValidatorSet

/-- What a slash does to the entry it is applied to. -/
def SlashResult.strike (res : SlashResult) (currentBlock : U64) (v : Validator) : Validator :=
  let totalSlash := res.amountBurned + res.finderFee
  { v with
    stake := if totalSlash ≤ v.stake then v.stake - totalSlash else 0
    status :=
      if res.forcedUnbonding then .unbonding currentBlock
      else if res.ejected then .exited
      else v.status }

/-- `apply_slash`: the set afterwards, and whether the offender was found. -/
def ValidatorSet.applySlash (set : ValidatorSet) (res : SlashResult) (currentBlock : U64) : ValidatorSet × Bool :=
  (updateFirst (fun v => v.address = res.offender) (res.strike currentBlock) set,
    set.any fun v => v.address = res.offender)

/-- The operations on a validator set. -/
inductive ValidatorOp where
  | register (addr : Address) (pk : Bytes) (stake : U128) (currentEpoch : U64)
  | deregister (addr : Address) (currentBlock : U64)
  | processUnbonding (currentBlock : U64)
  | topUpStake (addr : Address) (amt : U128)
  | applySlash (res : SlashResult) (currentBlock : U64)

namespace ValidatorSet

def step (set : ValidatorSet) : ValidatorOp → ValidatorSet
  | .register addr pk stake currentEpoch => set.register addr pk stake currentEpoch
  | .deregister addr currentBlock => set.deregister addr currentBlock
  | .processUnbonding currentBlock => set.processUnbonding currentBlock
  | .topUpStake addr amt => set.topUpStake addr amt
  | .applySlash res currentBlock => (set.applySlash res currentBlock).1

/-- The set after some operations, from an empty one on. -/
def run (ops : List ValidatorOp) : ValidatorSet := ops.foldl step []

/-! ### One active entry -/

/-- The change activates nobody and leaves the address alone. -/
def Deactivating (change : Validator → Validator) : Prop :=
  ∀ v, (change v).address = v.address ∧ ((change v).status = .active → v.status = .active)

variable {set : ValidatorSet} {addr : Address} {found : Validator → Bool} {change : Validator → Validator}

theorem Deactivating.activeAt (h : Deactivating change) {v : Validator} (hactive : activeAt addr (change v) = true) :
    activeAt addr v = true := by
  obtain ⟨haddr, hstatus⟩ := of_decide_eq_true hactive
  exact decide_eq_true ⟨(h v).1 ▸ haddr, (h v).2 hstatus⟩

theorem countP_updateFirst_le (h : Deactivating change) :
    (updateFirst found change set).countP (activeAt addr) ≤ set.countP (activeAt addr) := by
  induction set with
  | nil => exact Nat.le_refl _
  | cons v rest ih =>
    unfold updateFirst
    split
    · rw [countP_cons, countP_cons]
      split
      next hactive => rw [if_pos (h.activeAt hactive)]
      next => omega
    · rw [countP_cons, countP_cons]
      omega

theorem deactivating_release (currentBlock : U64) : Deactivating (release currentBlock) := by
  intro v
  unfold release
  split
  · split
    · exact ⟨rfl, nofun⟩
    · exact ⟨rfl, id⟩
  · exact ⟨rfl, id⟩

theorem deactivating_strike (res : SlashResult) (currentBlock : U64) :
    Deactivating (res.strike currentBlock) := by
  refine fun v => ⟨rfl, ?_⟩
  unfold SlashResult.strike
  dsimp only
  split
  · exact nofun
  split
  · exact nofun
  · exact id

theorem countP_step_le (op : ValidatorOp) (h : set.countP (activeAt addr) ≤ 1) :
    (set.step op).countP (activeAt addr) ≤ 1 := by
  cases op with
  | register owner pk stake currentEpoch =>
    rw [step, register]
    split
    next => exact h
    rename_i haccepted
    rw [countP_append, countP_singleton]
    split
    next hactive =>
      have howner : owner = addr := (of_decide_eq_true hactive).1
      have hnone : set.countP (activeAt addr) = 0 := by
        rw [countP_eq_zero]
        intro v hv hv'
        exact haccepted (.inr (List.any_eq_true.mpr ⟨v, hv, howner ▸ hv'⟩))
      omega
    next => exact h
  | deregister owner currentBlock =>
    rw [step, deregister]
    exact le_trans (countP_updateFirst_le fun v => ⟨rfl, nofun⟩) h
  | processUnbonding currentBlock =>
    refine le_trans ?_ h
    rw [step, processUnbonding, countP_map]
    exact countP_mono_left fun v _ hactive => (deactivating_release currentBlock).activeAt hactive
  | topUpStake owner amt =>
    rw [step, topUpStake]
    exact le_trans (countP_updateFirst_le fun v => ⟨rfl, id⟩) h
  | applySlash res currentBlock =>
    rw [step, applySlash]
    exact le_trans (countP_updateFirst_le (deactivating_strike res currentBlock)) h

theorem countP_run_le (ops : List ValidatorOp) (addr : Address) : (run ops).countP (activeAt addr) ≤ 1 := by
  unfold run
  induction ops using List.reverseRecOn with
  | nil => exact Nat.zero_le _
  | append_singleton ops op ih =>
    rw [foldl_append]
    exact countP_step_le op ih

end ValidatorSet

/-! ### What a slash hits -/

/-- The entry at a position, which is the offender's active one, is struck: the offender has no active entry
afterwards, and the entry has lost exactly what is burned and what the finder gets. -/
structure Strikes (set : ValidatorSet) (res : SlashResult) (currentBlock : U64) (i : Nat) (v : Validator) : Prop where
  ejected : (set.applySlash res currentBlock).1.countP (ValidatorSet.activeAt res.offender) = 0
  charged : ∃ v', (set.applySlash res currentBlock).1[i]? = some v' ∧
    v'.stake.toNat + (res.amountBurned.toNat + res.finderFee.toNat) = v.stake.toNat

/-- A percentage of an amount, even with the product cut to its width, is at most the amount. -/
theorem toNat_percent_le (amt percent : U128) (h : percent.toNat ≤ 100) :
    (amt * percent / 100).toNat ≤ amt.toNat := by
  have hundred : (100 : U128).toNat = 100 := rfl
  rw [toNat_udiv, toNat_mul, hundred]
  refine Nat.div_le_of_le_mul ((Nat.mod_le _ _).trans ?_)
  rw [Nat.mul_comm]
  exact Nat.mul_le_mul_right _ h

theorem computeSlash_le (stake : U128) (offense : SlashingOffense) :
    (computeSlash stake offense).1.toNat + (computeSlash stake offense).2.toNat ≤ stake.toNat := by
  have hslash := toNat_percent_le stake offense.percent (by cases offense <;> decide)
  have hfee := toNat_percent_le (stake * offense.percent / 100) 10 (by decide)
  unfold computeSlash
  dsimp only
  rw [toNat_sub_of_le (BitVec.le_def.mpr hfee)]
  omega

section

variable {set : ValidatorSet} {found : Validator → Bool} {change : Validator → Validator} {i : Nat} {v : Validator}

theorem getElem?_updateFirst_of_first (hi : set[i]? = some v) (hfound : found v = true)
    (hfirst : ∀ j < i, ∀ w, set[j]? = some w → found w = false) :
    updateFirst found change set = set.set i (change v) := by
  induction set generalizing i with
  | nil => cases hi
  | cons w rest ih =>
    cases i with
    | zero =>
      cases hi
      exact if_pos hfound
    | succ i =>
      have hw := hfirst 0 (Nat.succ_pos i) w rfl
      have hrest := ih hi fun j hj u hu => hfirst (j + 1) (Nat.succ_lt_succ hj) u hu
      rw [updateFirst, if_neg (by rw [hw]; exact Bool.false_ne_true), hrest]
      rfl

/-- An older entry that is found takes the change, and this one stays. -/
theorem getElem?_updateFirst_of_older {j : Nat} {w : Validator} (hj : set[j]? = some w) (hfound : found w = true)
    (hlt : j < i) (hi : set[i]? = some v) : (updateFirst found change set)[i]? = some v := by
  induction set generalizing i j with
  | nil => cases hi
  | cons u rest ih =>
    cases i with
    | zero => cases hlt
    | succ i =>
      unfold updateFirst
      split
      next => exact hi
      rename_i hother
      cases j with
      | zero =>
        cases hj
        exact absurd hfound hother
      | succ j => exact ih hj (Nat.lt_of_succ_lt_succ hlt) hi

end

/-- In every run an address has at most one active entry, and an ejecting slash that was computed from it strikes it
exactly when the offender has no older entry. -/
theorem slash_hits_live_entry_iff (ops : List ValidatorOp) :
    (∀ addr, (ValidatorSet.run ops).countP (ValidatorSet.activeAt addr) ≤ 1) ∧
    ∀ (res : SlashResult) (currentBlock : U64) (i : Nat) (v : Validator),
      (ValidatorSet.run ops)[i]? = some v → ValidatorSet.activeAt res.offender v = true → res.ejected = true →
      (res.amountBurned, res.finderFee) = computeSlash v.stake res.offense →
      (((ValidatorSet.run ops).applySlash res currentBlock).2 = true ∧
        (Strikes (ValidatorSet.run ops) res currentBlock i v ↔
          ∀ j < i, ∀ w, (ValidatorSet.run ops)[j]? = some w → w.address ≠ res.offender)) := by
  have hone := ValidatorSet.countP_run_le ops
  refine ⟨hone, fun res currentBlock i v hi hactive hejected hcomputed => ?_⟩
  generalize ValidatorSet.run ops = set at *
  have howner : v.address = res.offender := (of_decide_eq_true hactive).1
  refine ⟨List.any_eq_true.mpr ⟨v, mem_of_getElem? hi, decide_eq_true howner⟩, ?_, ?_⟩
  · -- an older entry would be hit instead, and this one stays active
    rintro ⟨hnone, -⟩ j hj w hw hoffender
    have hstays : (set.applySlash res currentBlock).1[i]? = some v :=
      getElem?_updateFirst_of_older hw (decide_eq_true hoffender) hj hi
    exact List.countP_eq_zero.mp hnone v (mem_of_getElem? hstays) hactive
  · intro holdest
    have hset : (set.applySlash res currentBlock).1 = set.set i (res.strike currentBlock v) :=
      getElem?_updateFirst_of_first hi (decide_eq_true howner) fun j hj w hw => decide_eq_false (holdest j hj w hw)
    obtain ⟨hlt, rfl⟩ := List.getElem?_eq_some_iff.mp hi
    refine ⟨?_, _, by rw [hset, List.getElem?_set_self hlt], ?_⟩
    · have hstruck : ValidatorSet.activeAt res.offender (res.strike currentBlock set[i]) = false := by
        refine decide_eq_false fun h => ?_
        have hstatus := h.2
        unfold SlashResult.strike at hstatus
        rw [hejected] at hstatus
        split at hstatus <;> cases hstatus
      have hcount := hone res.offender
      rw [hset, countP_set hlt, hstruck, hactive, if_pos rfl, if_neg Bool.false_ne_true]
      omega
    · have htotal : res.amountBurned.toNat + res.finderFee.toNat ≤ set[i].stake.toNat := by
        have hle := computeSlash_le set[i].stake res.offense
        rwa [← hcomputed] at hle
      have hsum : (res.amountBurned + res.finderFee).toNat =
          res.amountBurned.toNat + res.finderFee.toNat := by
        rw [toNat_add, Nat.mod_eq_of_lt (by omega)]
      unfold SlashResult.strike
      dsimp only
      rw [if_pos (BitVec.le_def.mpr (hsum ▸ htotal)), toNat_sub_of_le (BitVec.le_def.mpr (hsum ▸ htotal)), hsum]
      omega

/-! ### A second registration -/

/-- Registered, left, and registered again. -/
def returningValidator : List ValidatorOp :=
  [.register (fill32 1) [] validatorStake 0, .deregister (fill32 1) 5, .register (fill32 1) [] validatorStake 1]

/-- A slash for double signing, computed from the stake of the active entry. -/
def doubleSignSlash : SlashResult where
  offender := fill32 1
  amountBurned := (computeSlash validatorStake .doubleSigning).1
  finderFee := (computeSlash validatorStake .doubleSigning).2
  ejected := true
  forcedUnbonding := true
  offense := .doubleSigning

/-- The only entry of an address is struck. -/
theorem slash_strikes_sole_entry :
    Strikes (ValidatorSet.run [.register (fill32 1) [] validatorStake 0]) doubleSignSlash 9 0
      ⟨fill32 1, [], validatorStake, .active, 0, none⟩ :=
  ((slash_hits_live_entry_iff [.register (fill32 1) [] validatorStake 0]).2 doubleSignSlash 9 0 _ rfl
    (by decide +kernel) rfl rfl).2.mpr fun _ hj => absurd hj (Nat.not_lt_zero _)

/-- The slash empties the entry that is unbonding, and the active one keeps its stake. -/
theorem slash_misses_live_entry :
    ((ValidatorSet.run returningValidator).applySlash doubleSignSlash 9).2 = true ∧
    (((ValidatorSet.run returningValidator).applySlash doubleSignSlash 9).1.map fun v => (v.stake, v.status)) =
      [(0, .unbonding 9), (validatorStake, .active)] := by
  decide +kernel

end Pyde
