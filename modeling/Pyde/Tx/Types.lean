/-
Module: Pyde.Tx.Types
Purpose: Transactions, their types, fee payers and access lists, the bytes a transaction hash is taken over, and the
  transactions that the hash tells apart.
Trusted boundary: Prims, the sponge over field elements
-/
import Pyde.Crypto

namespace Pyde

open ByteCodec List

/-- `TransactionType`. Tag 2 is unassigned. -/
inductive TransactionType where
  | standard
  | deploy
  | stakeDeposit
  | stakeWithdraw
  | slash
  | claimReward
  | claimAirdrop
  | sweepAirdrop
  | multisigTx
  | rotateMultisig
  | emergencyPause
  | emergencyResume
  | registerPubkey
deriving DecidableEq, Repr

namespace TransactionType

/-- `tx_type as u8`. -/
def toU8 : TransactionType → U8
  | standard => 0
  | deploy => 1
  | stakeDeposit => 3
  | stakeWithdraw => 4
  | slash => 5
  | claimReward => 6
  | claimAirdrop => 7
  | sweepAirdrop => 8
  | multisigTx => 9
  | rotateMultisig => 10
  | emergencyPause => 11
  | emergencyResume => 12
  | registerPubkey => 13

def fromU8 (v : U8) : Option TransactionType :=
  match v.toNat with
  | 0 => some standard
  | 1 => some deploy
  | 3 => some stakeDeposit
  | 4 => some stakeWithdraw
  | 5 => some slash
  | 6 => some claimReward
  | 7 => some claimAirdrop
  | 8 => some sweepAirdrop
  | 9 => some multisigTx
  | 10 => some rotateMultisig
  | 11 => some emergencyPause
  | 12 => some emergencyResume
  | 13 => some registerPubkey
  | _ => none

theorem fromU8_toU8 (t : TransactionType) : fromU8 t.toU8 = some t := by
  cases t <;> rfl

theorem toU8_inj {t t' : TransactionType} : t.toU8 = t'.toU8 ↔ t = t' := by
  constructor
  · intro h
    have hsome := fromU8_toU8 t
    rw [h, fromU8_toU8 t'] at hsome
    injection hsome with hsome
    exact hsome.symm
  · rintro rfl
    rfl

end TransactionType

inductive FeePayer where
  | sender
  | gasTank (addr : Address)
  | paymaster (addr : Address)
deriving DecidableEq

/-- `FeePayer::to_bytes`: a tag, then the address if there is one. -/
def FeePayer.toBytes : FeePayer → Bytes
  | .sender => [0]
  | .gasTank addr => 1 :: addr.toList
  | .paymaster addr => 2 :: addr.toList

/-- The tag says how long the encoding is, so bytes may follow it. -/
theorem FeePayer.toBytes_append_inj {p p' : FeePayer} {ys ys' : Bytes} :
    p.toBytes ++ ys = p'.toBytes ++ ys' ↔ p = p' ∧ ys = ys' := by
  cases p <;> cases p' <;> simp [FeePayer.toBytes, toList_append_inj]

/-- An access list entry: contract address and the storage keys read and written. -/
structure AccessEntry where
  address : Address
  reads : List (FixedBytes 32)
  writes : List (FixedBytes 32)
deriving DecidableEq

structure Transaction where
  fromAddress : Address
  toAddress : Address
  value : U128
  data : Bytes
  gasLimit : U64
  nonce : U64
  signature : Bytes
  feePayer : FeePayer
  accessList : List AccessEntry
  deadline : Option U64
  chainId : U64
  txType : TransactionType
deriving DecidableEq

/-! ### The transaction hash -/

def keyBytes (keys : List (FixedBytes 32)) : Bytes := keys.flatMap List.Vector.toList

/-- One entry inside `hash_access_list`; the counts are truncated to 32 bits. -/
def AccessEntry.toBytes (entry : AccessEntry) : Bytes :=
  entry.address.toList ++ (toLe (BitVec.ofNat 32 entry.reads.length) ++ (keyBytes entry.reads ++
    (toLe (BitVec.ofNat 32 entry.writes.length) ++ keyBytes entry.writes)))

def accessListBytes (accessList : List AccessEntry) : Bytes := accessList.flatMap AccessEntry.toBytes

def hashAccessList (P : Prims) (accessList : List AccessEntry) : Hash256 :=
  P.poseidon2Hash (accessListBytes accessList)

def deadlineBytes : Option U64 → Bytes
  | some d => 1 :: toLe d
  | none => [0]

namespace Transaction

/-- The bytes hashed by `Transaction::hash`. -/
def preimage (P : Prims) (tx : Transaction) : Bytes :=
  toLe tx.chainId ++ (tx.fromAddress.toList ++ (tx.toAddress.toList ++ (toLe tx.value ++
    ((P.poseidon2Hash tx.data).toList ++ (toLe tx.gasLimit ++ (toLe tx.nonce ++
      (tx.feePayer.toBytes ++ ((hashAccessList P tx.accessList).toList ++
        (deadlineBytes tx.deadline ++ [tx.txType.toU8])))))))))

def hash (P : Prims) (tx : Transaction) : Hash256 := P.poseidon2Hash (tx.preimage P)

def verifySignature (P : Prims) (tx : Transaction) (pk : Bytes) : Bool :=
  P.verifyRaw pk (tx.hash P).toList tx.signature

def unsigned (tx : Transaction) : Transaction := { tx with signature := [] }

/-- `Transaction::to_bytes`, the wire format. Every variable part stands behind its length, truncated
to the width of the length field. -/
def toBytes (tx : Transaction) : Bytes :=
  let feeBytes := tx.feePayer.toBytes
  let accessBytes := toLe (BitVec.ofNat 32 tx.accessList.length) ++ accessListBytes tx.accessList
  tx.fromAddress.toList ++ (tx.toAddress.toList ++ (toLe tx.value ++
    (toLe (BitVec.ofNat 32 tx.data.length) ++ (tx.data ++ (toLe tx.gasLimit ++ (toLe tx.nonce ++
      (toLe (BitVec.ofNat 16 tx.signature.length) ++ (tx.signature ++ (BitVec.ofNat 8 feeBytes.length :: (feeBytes ++
          (toLe (BitVec.ofNat 32 accessBytes.length) ++ (accessBytes ++
            (deadlineBytes tx.deadline ++ (toLe tx.chainId ++ [tx.txType.toU8]))))))))))))))

/-- The gas limit as the fee arithmetic takes it. -/
theorem toNat_limit (tx : Transaction) : (tx.gasLimit.setWidth 128).toNat = tx.gasLimit.toNat :=
  BitVec.toNat_setWidth_of_le (by decide)

end Transaction

/-! ### What the hash commits to -/

/-- The counts of every entry fit the 32 bits they are hashed with. -/
def AccessEntry.CountsFit (entry : AccessEntry) : Prop := entry.reads.length < 2 ^ 32 ∧ entry.writes.length < 2 ^ 32

theorem keyBytes_append_inj {ks ks' : List (FixedBytes 32)} {ys ys' : Bytes} (hlen : ks.length = ks'.length) :
    keyBytes ks ++ ys = keyBytes ks' ++ ys' ↔ ks = ks' ∧ ys = ys' :=
  flatMap_append_inj (fun _ _ _ _ => toList_append_inj) hlen

theorem ofNat_length_inj {α : Type*} {xs ys : List α} (hx : xs.length < 2 ^ 32) (hy : ys.length < 2 ^ 32) :
    BitVec.ofNat 32 xs.length = BitVec.ofNat 32 ys.length ↔ xs.length = ys.length := by
  constructor
  · intro h
    have hnat := congrArg BitVec.toNat h
    rwa [BitVec.toNat_ofNat, BitVec.toNat_ofNat, Nat.mod_eq_of_lt hx, Nat.mod_eq_of_lt hy] at hnat
  · intro h
    rw [h]

theorem AccessEntry.toBytes_append_inj {e e' : AccessEntry} (he : e.CountsFit) (he' : e'.CountsFit)
    {ys ys' : Bytes} : e.toBytes ++ ys = e'.toBytes ++ ys' ↔ e = e' ∧ ys = ys' := by
  constructor
  · intro h
    simp only [AccessEntry.toBytes, append_assoc] at h
    rw [toList_append_inj, toLe_append_inj (by decide), ofNat_length_inj he.1 he'.1] at h
    obtain ⟨haddr, hreads, h⟩ := h
    rw [keyBytes_append_inj hreads, toLe_append_inj (by decide), ofNat_length_inj he.2 he'.2] at h
    obtain ⟨hreads, hwrites, h⟩ := h
    rw [keyBytes_append_inj hwrites] at h
    cases e
    cases e'
    simp only [AccessEntry.mk.injEq]
    exact ⟨⟨haddr, hreads, h.1⟩, h.2⟩
  · rintro ⟨rfl, rfl⟩
    rfl

theorem AccessEntry.toBytes_ne_nil (entry : AccessEntry) (ys : Bytes) : entry.toBytes ++ ys ≠ [] := by
  intro h
  have hlen := congrArg List.length h
  simp [AccessEntry.toBytes] at hlen

theorem accessListBytes_inj {l l' : List AccessEntry} (hl : ∀ e ∈ l, e.CountsFit)
    (hl' : ∀ e ∈ l', e.CountsFit) : accessListBytes l = accessListBytes l' ↔ l = l' := by
  constructor
  · intro h
    induction l generalizing l' with
    | nil =>
      cases l' with
      | nil => rfl
      | cons e' l' => exact absurd h.symm (e'.toBytes_ne_nil _)
    | cons e l ih =>
      cases l' with
      | nil => exact absurd h (e.toBytes_ne_nil _)
      | cons e' l' =>
        rw [forall_mem_cons] at hl hl'
        have hsplit := (AccessEntry.toBytes_append_inj hl.1 hl'.1).mp h
        rw [hsplit.1, ih hl.2 hl'.2 hsplit.2]
  · rintro rfl
    rfl

theorem deadlineBytes_append_inj {d d' : Option U64} {ys ys' : Bytes} :
    deadlineBytes d ++ ys = deadlineBytes d' ++ ys' ↔ d = d' ∧ ys = ys' := by
  have hbytes : 8 ∣ 64 := by decide
  cases d <;> cases d' <;> simp [deadlineBytes, toLe_append_inj hbytes]

namespace Transaction

/-- The strings a transaction hash is computed from. -/
def hashInputs (P : Prims) (tx : Transaction) : Set Bytes :=
  {tx.preimage P, tx.data, accessListBytes tx.accessList}

def CountsFit (tx : Transaction) : Prop := ∀ e ∈ tx.accessList, e.CountsFit

/-- Where Poseidon2 does not collide, equal hashes mean equal transactions up to the signature. -/
theorem hash_inj {P : Prims} {preimages : Set Bytes} (hfree : P.CollisionFreeOn preimages)
    {tx tx' : Transaction} (hin : tx.hashInputs P ⊆ preimages) (hin' : tx'.hashInputs P ⊆ preimages)
    (hfit : tx.CountsFit) (hfit' : tx'.CountsFit) : tx.hash P = tx'.hash P ↔ tx.unsigned = tx'.unsigned := by
  constructor
  · intro h
    have hpre : tx.preimage P = tx'.preimage P := hfree (hin (by simp [hashInputs])) (hin' (by simp [hashInputs])) h
    unfold preimage at hpre
    rw [toLe_append_inj (by decide), toList_append_inj, toList_append_inj,
      toLe_append_inj (by decide), toList_append_inj, toLe_append_inj (by decide),
      toLe_append_inj (by decide), FeePayer.toBytes_append_inj, toList_append_inj, deadlineBytes_append_inj] at hpre
    obtain ⟨hchain, hfrom, hto, hvalue, hdata, hgas, hnonce, hpayer, haccess, hdeadline, htype⟩ := hpre
    have hdata' : tx.data = tx'.data := hfree (hin (by simp [hashInputs])) (hin' (by simp [hashInputs])) hdata
    have haccess' : accessListBytes tx.accessList = accessListBytes tx'.accessList :=
      hfree (hin (by simp [hashInputs])) (hin' (by simp [hashInputs])) haccess
    rw [accessListBytes_inj hfit hfit'] at haccess'
    rw [List.cons.injEq, TransactionType.toU8_inj] at htype
    cases tx
    cases tx'
    simp_all [unsigned]
  · intro h
    cases tx
    cases tx'
    simp only [unsigned, Transaction.mk.injEq] at h
    obtain ⟨rfl, rfl, rfl, rfl, rfl, rfl, -, rfl, rfl, rfl, rfl, rfl⟩ := h
    rfl

end Transaction

namespace Transaction

theorem length_preimage_le (P : Prims) (tx : Transaction) : (tx.preimage P).length ≤ 211 := by
  have hpayer : tx.feePayer.toBytes.length ≤ 33 := by cases tx.feePayer <;> simp [FeePayer.toBytes]
  have hdeadline : (deadlineBytes tx.deadline).length ≤ 9 := by cases tx.deadline <;> simp [deadlineBytes]
  simp only [preimage, length_append, length_toLe, List.Vector.toList_length, length_singleton]
  omega

end Transaction

end Pyde
