/-
Module: Pyde.State
Purpose: The keys of the state, hashes of an address and a discriminator byte, and the store of three tiers as one map.
Trusted boundary: Prims, the warm store and the archive, as the maps they hold
-/
import Pyde.Account.Types

namespace Pyde

open ByteCodec

/-- What is stored once per address. -/
inductive AccountField where
  | balance
  | nonce
  | code
  | codeHash
  | validator
  | vesting
deriving DecidableEq

def AccountField.discriminator : AccountField → U8
  | balance => 0x00
  | nonce => 0x01
  | code => 0x02
  | codeHash => 0x03
  | validator => 0x10
  | vesting => 0x16

inductive GlobalField where
  | validatorCount
  | supply
  | totalBurned
  | rewardsPerValidator
  | activeValidatorCount
  | validatorSubsidy
  | airdropRoot
  | airdropDeadline
  | airdropExpectedSum
  | multisigSigners
  | multisigThreshold
  | multisigNonce
  | emergencyPauseEndSlot
deriving DecidableEq

def GlobalField.discriminator : GlobalField → U8
  | validatorCount => 0x11
  | supply => 0x12
  | totalBurned => 0x13
  | rewardsPerValidator => 0x14
  | activeValidatorCount => 0x15
  | validatorSubsidy => 0x17
  | airdropRoot => 0x18
  | airdropDeadline => 0x19
  | airdropExpectedSum => 0x1B
  | multisigSigners => 0x1C
  | multisigThreshold => 0x1D
  | multisigNonce => 0x1E
  | emergencyPauseEndSlot => 0x1F

/-- What is stored under a running number. -/
inductive IndexedField where
  | validatorIndex
  | airdropClaimed
deriving DecidableEq

def IndexedField.discriminator : IndexedField → U8
  | validatorIndex => 0x11
  | airdropClaimed => 0x1A

/-- The state keys, before hashing. A storage slot is given by its bytes: eight of them for a `u64`
slot, up to thirty-two for the slots the virtual machine derives. -/
inductive StateKey where
  | account (addr : Address) (field : AccountField)
  | slot (contract : Address) (bytes : Bytes)
  | single (field : GlobalField)
  | indexed (field : IndexedField) (index : U64)
deriving DecidableEq

namespace StateKey

/-- `discriminator::STORAGE_SLOT`. -/
def storageSlotDiscriminator : U8 := 0x04

def preimage : StateKey → Bytes
  | account addr field => addr.toList ++ [field.discriminator]
  | slot contract bytes => contract.toList ++ storageSlotDiscriminator :: bytes
  | single field => [field.discriminator]
  | indexed field index => field.discriminator :: toLe index

def hash (P : Prims) (key : StateKey) : Hash256 := P.poseidon2Hash key.preimage

theorem accountDiscriminator_inj {f f' : AccountField} : f.discriminator = f'.discriminator ↔ f = f' := by
  cases f <;> cases f' <;> decide

theorem globalDiscriminator_inj {f f' : GlobalField} : f.discriminator = f'.discriminator ↔ f = f' := by
  cases f <;> cases f' <;> decide

theorem indexedDiscriminator_inj {f f' : IndexedField} : f.discriminator = f'.discriminator ↔ f = f' := by
  cases f <;> cases f' <;> decide

theorem accountDiscriminator_ne_slot (f : AccountField) : f.discriminator ≠ storageSlotDiscriminator := by
  cases f <;> decide

theorem preimage_inj {k k' : StateKey} : k.preimage = k'.preimage ↔ k = k' := by
  refine ⟨fun h => ?_, fun h => congrArg preimage h⟩
  have hlen := congrArg List.length h
  cases k with
  | account a f =>
    cases k' with
    | account a' f' =>
      rw [preimage, preimage, toList_append_inj, List.cons.injEq, accountDiscriminator_inj] at h
      rw [h.1, h.2.1]
    | slot a' s' =>
      rw [preimage, preimage, toList_append_inj, List.cons.injEq] at h
      exact absurd h.2.1 (accountDiscriminator_ne_slot f)
    | _ => simp [preimage] at hlen
  | slot a s =>
    cases k' with
    | account a' f' =>
      rw [preimage, preimage, toList_append_inj, List.cons.injEq] at h
      exact absurd h.2.1.symm (accountDiscriminator_ne_slot f')
    | slot a' s' =>
      rw [preimage, preimage, toList_append_inj, List.cons.injEq] at h
      rw [h.1, h.2.2]
    | _ =>
      simp [preimage] at hlen
      omega
  | single f =>
    cases k' with
    | single f' =>
      rw [preimage, preimage, List.cons.injEq, globalDiscriminator_inj] at h
      rw [h.1]
    | slot a' s' =>
      simp [preimage] at hlen
      omega
    | _ => simp [preimage] at hlen
  | indexed f i =>
    cases k' with
    | indexed f' i' =>
      rw [preimage, preimage, List.cons.injEq, indexedDiscriminator_inj, toLe_inj (by decide)] at h
      rw [h.1, h.2]
    | slot a' s' =>
      simp [preimage] at hlen
      omega
    | _ => simp [preimage] at hlen

end StateKey

def balanceKey (P : Prims) (addr : Address) : Hash256 := (StateKey.account addr .balance).hash P

def nonceKey (P : Prims) (addr : Address) : Hash256 := (StateKey.account addr .nonce).hash P

def codeKey (P : Prims) (addr : Address) : Hash256 := (StateKey.account addr .code).hash P

/-- No two of the keys share a hash. -/
abbrev HashApart (P : Prims) (keys : Set StateKey) : Prop := Set.InjOn (StateKey.hash P) keys

theorem StateKey.injOn_hash {P : Prims} {keys : Set StateKey} (h : P.CollisionFreeOn (StateKey.preimage '' keys)) :
    HashApart P keys := by
  intro key hkey key' hkey' heq
  exact StateKey.preimage_inj.mp (h ⟨key, hkey, rfl⟩ ⟨key', hkey', rfl⟩ heq)

/-- There are no collisions if all keys are listed and the listed ones have different hashes. -/
theorem collisionFreeOn_of_listed {P : Prims} {keys : Set StateKey} (listed : List StateKey)
    (hpairs : ∀ key ∈ listed, ∀ key' ∈ listed, key.hash P = key'.hash P → key = key')
    (hin : ∀ key ∈ keys, key ∈ listed) : P.CollisionFreeOn (StateKey.preimage '' keys) := by
  rintro _ ⟨key, hkey, rfl⟩ _ ⟨key', hkey', rfl⟩ heq
  rw [hpairs key (hin key hkey) key' (hin key' hkey') heq]

def validatorKey (P : Prims) (addr : Address) : Hash256 := (StateKey.account addr .validator).hash P

def vestingKey (P : Prims) (addr : Address) : Hash256 := (StateKey.account addr .vesting).hash P

def airdropClaimedKey (P : Prims) (leafIndex : U64) : Hash256 :=
  (StateKey.indexed .airdropClaimed leafIndex).hash P

/-- `supply_key`, `validator_count_key` and the other keys that are hashed from one byte. -/
def globalKey (P : Prims) (field : GlobalField) : Hash256 := (StateKey.single field).hash P

end Pyde

namespace Pyde

open Function

/-- One key space of `TieredBackend`: the branches and the leaves are kept in the same way. -/
structure TieredBackend (κ ν : Type) where
  hot : κ → Option ν
  hotAccess : κ → Option U64
  currentHeight : U64
  warm : κ → Option ν
  cold : κ → Option ν
  evictAfter : U64

inductive TierOp (κ ν : Type) where
  | get (key : κ)
  | insert (key : κ) (value : ν)
  | remove (key : κ)
  | advanceBlock

variable {κ ν : Type} [DecidableEq κ]

namespace TieredBackend

def new (warm cold : κ → Option ν) : TieredBackend κ ν :=
  { hot := fun _ => none, hotAccess := fun _ => none, currentHeight := 0, warm, cold, evictAfter := 128 }

variable (s : TieredBackend κ ν)

/-- `insert_branch` and `insert_leaf`. -/
def insert (key : κ) (value : ν) : TieredBackend κ ν :=
  { s with hot := update s.hot key (some value), hotAccess := update s.hotAccess key (some s.currentHeight) }

/-- `get_branch` and `get_leaf`: hot, warm, cold. What is found lower down is put into hot. -/
def get (key : κ) : Option ν × TieredBackend κ ν :=
  match s.hot key with
  | some value => (some value, { s with hotAccess := update s.hotAccess key (some s.currentHeight) })
  | none =>
    match (s.warm key).or (s.cold key) with
    | some value => (some value, s.insert key value)
    | none => (none, s)

/-- `remove_branch` and `remove_leaf`. -/
def remove (key : κ) : TieredBackend κ ν :=
  { s with hot := update s.hot key none, hotAccess := update s.hotAccess key none, warm := update s.warm key none }

def advanceBlock : TieredBackend κ ν :=
  let height := s.currentHeight + 1
  let stale key := (s.hotAccess key).any (height - · > s.evictAfter)
  { s with
    currentHeight := height
    hot := fun key => if stale key then none else s.hot key
    hotAccess := fun key => if stale key then none else s.hotAccess key
    warm := fun key => if stale key then (s.hot key).or (s.warm key) else s.warm key }

def step : TierOp κ ν → TieredBackend κ ν
  | .get key => (s.get key).2
  | .insert key value => s.insert key value
  | .remove key => s.remove key
  | .advanceBlock => s.advanceBlock

/-- What a read finds, whichever tier it comes from. -/
def view (key : κ) : Option ν := (s.hot key).or ((s.warm key).or (s.cold key))

end TieredBackend

/-- What an operation writes for a key: a value, or its removal. -/
def TierOp.write (key : κ) : TierOp κ ν → Option (Option ν)
  | .insert k value => if k = key then some (some value) else none
  | .remove k => if k = key then some none else none
  | _ => none

def lastWrite (key : κ) (ops : List (TierOp κ ν)) : Option (Option ν) :=
  ops.foldl (fun last op => (op.write key).or last) none

namespace TieredBackend

variable (s : TieredBackend κ ν) (key : κ)

theorem get_fst : (s.get key).1 = s.view key := by
  unfold get view
  split
  next hhot => rw [hhot, Option.some_or]
  next hhot => split <;> simp [*]

theorem view_insert (k : κ) (value : ν) :
    (s.insert k value).view key = if k = key then some value else s.view key := by
  by_cases hk : k = key
  · simp [insert, view, hk]
  · simp [insert, view, hk, update_of_ne (Ne.symm hk)]

/-- A promotion leaves what is read. -/
theorem view_get (k : κ) : (s.get k).2.view key = s.view key := by
  unfold get
  split
  next => rfl
  next hhot =>
    split
    next value hfound =>
      rw [view_insert]
      split
      next heq => rw [← heq, view, hhot, hfound, Option.none_or]
      next => rfl
    next => rfl

/-- A removal leaves what the archive has. -/
theorem view_step (op : TierOp κ ν) :
    (s.step op).view key = ((op.write key).map (·.or (s.cold key))).getD (s.view key) := by
  cases op with
  | get k => exact view_get s key k
  | insert k value =>
    rw [step, view_insert, TierOp.write]
    split <;> rfl
  | remove k =>
    by_cases hk : k = key
    · simp [step, remove, view, TierOp.write, hk]
    · simp [step, remove, view, TierOp.write, hk, update_of_ne (Ne.symm hk)]
  | advanceBlock =>
    -- what leaves hot is found in warm
    simp only [step, advanceBlock, view, TierOp.write]
    split <;> simp [Option.or_assoc]

theorem cold_step (op : TierOp κ ν) : (s.step op).cold = s.cold := by
  cases op with
  | get k =>
    simp only [step, get]
    split
    · rfl
    · split <;> rfl
  | _ => rfl

theorem view_run (ops : List (TierOp κ ν)) :
    (ops.foldl step s).view key = ((lastWrite key ops).map (·.or (s.cold key))).getD (s.view key) ∧
      (ops.foldl step s).cold = s.cold := by
  induction ops using List.reverseRecOn with
  | nil => exact ⟨rfl, rfl⟩
  | append_singleton ops op ih =>
    simp only [lastWrite, List.foldl_append, List.foldl_cons, List.foldl_nil] at ih ⊢
    rw [view_step, cold_step, ih.1, ih.2]
    cases op.write key <;> simp

end TieredBackend

/-- After any operations a read answers as the map would, exactly when the archive has nothing for a key whose last write
was its removal. -/
theorem tiered_get_iff (warm cold : κ → Option ν) (ops : List (TierOp κ ν)) (key : κ) :
    ((ops.foldl TieredBackend.step (.new warm cold)).get key).1 =
      (lastWrite key ops).getD ((warm key).or (cold key)) ↔
      (lastWrite key ops = some none → cold key = none) := by
  rw [TieredBackend.get_fst, (TieredBackend.view_run _ key ops).1]
  rcases lastWrite key ops with _ | _ | value <;> simp [TieredBackend.new, TieredBackend.view]

/-- A removed key that the archive holds is read again. -/
theorem removed_key_read_again :
    (([.remove 1].foldl TieredBackend.step (.new (fun _ : Nat => (none : Option Nat)) fun _ =>
      some 7)).get 1).1 = some 7 :=
  rfl

end Pyde
