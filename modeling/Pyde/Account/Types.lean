/-
Module: Pyde.Account.Types
Purpose: Accounts, their authorization keys, the addresses derived by hashing, the machine arithmetic that does not
  wrap, and the stored form, which reads back.
Trusted boundary: Prims
-/
import Mathlib.Data.BitVec
import Pyde.Crypto

namespace Pyde

open ByteCodec BitVec

variable {w : Nat}

/-! ### Machine arithmetic that does not wrap -/

/-- `saturating_add`. -/
def satAdd {w : Nat} (x y : BitVec w) : BitVec w := if x.toNat + y.toNat < 2 ^ w then x + y else BitVec.allOnes w

/-- `saturating_sub`. -/
def satSub {w : Nat} (x y : BitVec w) : BitVec w := if y ≤ x then x - y else 0

/-- `saturating_mul`. -/
def satMul {w : Nat} (x y : BitVec w) : BitVec w := if x.toNat * y.toNat < 2 ^ w then x * y else BitVec.allOnes w

def checkedAdd {w : Nat} (x y : BitVec w) : Option (BitVec w) :=
  if x.toNat + y.toNat < 2 ^ w then some (x + y) else none

def checkedMul {w : Nat} (x y : BitVec w) : Option (BitVec w) :=
  if x.toNat * y.toNat < 2 ^ w then some (x * y) else none

/-- `min`. -/
def lesser {w : Nat} (x y : BitVec w) : BitVec w := if x ≤ y then x else y

/-- `max`. -/
def greater {w : Nat} (x y : BitVec w) : BitVec w := if x ≤ y then y else x

theorem checkedMul_some {x y z : BitVec w} (h : checkedMul x y = some z) :
    x.toNat * y.toNat < 2 ^ w ∧ z.toNat = x.toNat * y.toNat := by
  unfold checkedMul at h
  split at h
  · rename_i hlt
    rw [← Option.some.inj h, toNat_mul, Nat.mod_eq_of_lt hlt]
    exact ⟨hlt, rfl⟩
  · cases h

theorem checkedAdd_some {x y z : BitVec w} (h : checkedAdd x y = some z) :
    x.toNat + y.toNat < 2 ^ w ∧ z.toNat = x.toNat + y.toNat := by
  unfold checkedAdd at h
  split at h
  · rename_i hlt
    rw [← Option.some.inj h, toNat_add, Nat.mod_eq_of_lt hlt]
    exact ⟨hlt, rfl⟩
  · cases h

theorem le_of_checkedAdd_none {x y : BitVec w} (h : checkedAdd x y = none) : 2 ^ w ≤ x.toNat + y.toNat := by
  unfold checkedAdd at h
  split at h
  · cases h
  · omega

theorem toNat_satSub (x y : BitVec w) : (satSub x y).toNat = x.toNat - y.toNat := by
  unfold satSub
  split
  next h => exact toNat_sub_of_le h
  next h =>
    rw [le_def] at h
    rw [ofNat_eq_ofNat, toNat_zero]
    omega

theorem toNat_satAdd (x y : BitVec w) : (satAdd x y).toNat = min (x.toNat + y.toNat) (2 ^ w - 1) := by
  unfold satAdd
  split
  next h =>
    rw [toNat_add, Nat.mod_eq_of_lt h]
    omega
  next h =>
    rw [toNat_allOnes]
    omega

theorem toNat_satAdd_of_lt {x y : BitVec w} (h : x.toNat + y.toNat < 2 ^ w) :
    (satAdd x y).toNat = x.toNat + y.toNat := by
  rw [toNat_satAdd]
  omega

theorem toNat_sum (xs : List (BitVec w)) : xs.sum.toNat = (xs.map BitVec.toNat).sum % 2 ^ w := by
  induction xs with
  | nil => simp
  | cons x xs ih => rw [List.sum_cons, toNat_add, ih, List.map_cons, List.sum_cons, Nat.add_mod_mod]

theorem le_satAdd (x y : BitVec w) : x ≤ satAdd x y := by
  have hlt := x.isLt
  rw [le_def, toNat_satAdd]
  omega

theorem lesser_toNat (x y : BitVec w) : (lesser x y).toNat = min x.toNat y.toNat := by
  unfold lesser
  split
  · rename_i hle
    rw [le_def] at hle
    exact (min_eq_left hle).symm
  rename_i hlt
  rw [le_def] at hlt
  exact (min_eq_right (by omega)).symm

/-- Decimal digits of a machine integer. -/
def decimal {w : Nat} (x : BitVec w) : String := toString x.toNat

/-! ### Addresses -/

def zeroAddress : Address := zero32

def deriveEoaAddress (P : Prims) (falconPublicKey : Bytes) : Address := P.poseidon2Hash falconPublicKey

def deriveCreateAddress (P : Prims) (deployer : Address) (nonce : U64) : Address :=
  P.poseidon2Hash (deployer.toList ++ toLe nonce)

def treasuryAddress (P : Prims) : Address := P.poseidon2Hash (ascii "pyde-treasury")

def airdropPoolAddress (P : Prims) : Address := P.poseidon2Hash (ascii "pyde-airdrop-pool")

/-! ### Accounts -/

inductive AccountType where
  | eoa
  | contract
  | system
deriving DecidableEq, Repr

def AccountType.toU8 : AccountType → U8
  | eoa => 0
  | contract => 1
  | system => 2

def AccountType.fromU8 (v : U8) : Option AccountType :=
  match v.toNat with
  | 0 => some eoa
  | 1 => some contract
  | 2 => some system
  | _ => none

/-- Authorization keys for the account. -/
inductive AuthKeys where
  | none
  | single (pk : Bytes)
  | multiSig (keys : List Bytes) (threshold : U32)
deriving DecidableEq

namespace AuthKeys

/-- A string behind its 32-bit length. -/
def lengthPrefixed (bs : Bytes) : Bytes := toLe (BitVec.ofNat 32 bs.length) ++ bs

def toBytes : AuthKeys → Bytes
  | none => [0x00]
  | single pk => 0x01 :: lengthPrefixed pk
  | multiSig keys threshold =>
    0x02 :: (toLe threshold ++ (toLe (BitVec.ofNat 32 keys.length) ++ keys.flatMap lengthPrefixed))

/-- The keys of a multisig slate, each behind its length. -/
def readKeys : Nat → Bytes → Option (List Bytes)
  | 0, _ => some []
  | count + 1, data =>
    if data.length < 4 then Option.none
    else
      let klen := ofLeBytes (slice data 0 4)
      if data.length < 4 + klen then Option.none
      else (readKeys count (data.drop (4 + klen))).map (slice data 4 klen :: ·)

/-- `AuthKeys::from_bytes`. Bytes after the keys are ignored; a slate with a repeated key is refused. -/
def fromBytes (data : Bytes) : Option AuthKeys :=
  match data with
  | [] => Option.none
  | tag :: rest =>
    if tag = 0x00 then some none
    else if tag = 0x01 then
      if data.length < 5 then Option.none
      else
        let len := ofLeBytes (slice rest 0 4)
        if data.length < 5 + len then Option.none else some (single (slice rest 4 len))
    else if tag = 0x02 then
      if data.length < 9 then Option.none
      else
        match readKeys (ofLeBytes (slice rest 4 4)) (rest.drop 8) with
        | Option.none => Option.none
        | some keys => if keys.Nodup then some (multiSig keys (ofLe 32 (slice rest 0 4))) else Option.none
    else Option.none

end AuthKeys

structure Account where
  address : Address
  nonce : U64
  balance : U128
  codeHash : Hash256
  storageRoot : Hash256
  accountType : AccountType
  authKeys : AuthKeys
  gasTank : U128
  keyNonce : U32
deriving DecidableEq

namespace Account

def newContract (P : Prims) (addr : Address) (code : Bytes) : Account where
  address := addr
  nonce := 0#64
  balance := 0#128
  codeHash := P.poseidon2Hash code
  storageRoot := zero32
  accountType := .contract
  authKeys := .none
  gasTank := 0#128
  keyNonce := 0#32

/-- `empty_account`: what stands for an address that has no record. -/
def empty (addr : Address) : Account where
  address := addr
  nonce := 0#64
  balance := 0#128
  codeHash := zero32
  storageRoot := zero32
  accountType := .eoa
  authKeys := .none
  gasTank := 0#128
  keyNonce := 0#32

def toBytes (account : Account) : Bytes :=
  account.address.toList ++ (toLe account.nonce ++ (toLe account.balance ++
    (account.codeHash.toList ++ (account.storageRoot.toList ++ (account.accountType.toU8 ::
      (toLe account.gasTank ++ (toLe account.keyNonce ++ AuthKeys.lengthPrefixed account.authKeys.toBytes)))))))

def fromBytes (data : Bytes) : Option Account :=
  if data.length < 145 then none
  else
    match fixedAt 32 data 0, fixedAt 32 data 56, fixedAt 32 data 88 with
    | some addr, some codeHash, some storageRoot =>
      match AccountType.fromU8 (data.getD 120 0) with
      | none => none
      | some accountType =>
        let authLen := ofLeBytes (slice data 141 4)
        if data.length < 145 + authLen then none
        else
          match AuthKeys.fromBytes (slice data 145 authLen) with
          | none => none
          | some authKeys =>
            some { address := addr
                   nonce := ofLe 64 (slice data 32 8)
                   balance := ofLe 128 (slice data 40 16)
                   codeHash := codeHash
                   storageRoot := storageRoot
                   accountType := accountType
                   authKeys := authKeys
                   gasTank := ofLe 128 (slice data 121 16)
                   keyNonce := ofLe 32 (slice data 137 4) }
    | _, _, _ => none

end Account

end Pyde

namespace Pyde

open ByteCodec List

namespace AuthKeys

/-- The keys fit behind a 32-bit length, and no key of a slate is repeated. -/
def Storable (keys : AuthKeys) : Prop :=
  keys.toBytes.length < 2 ^ 32 ∧ ∀ slate threshold, keys = multiSig slate threshold → slate.Nodup

theorem storable_none : Storable none := by
  refine ⟨by decide, ?_⟩
  intro slate threshold h
  cases h

@[simp] theorem length_lengthPrefixed (bs : Bytes) : (lengthPrefixed bs).length = 4 + bs.length := by
  simp [lengthPrefixed]

theorem ofLeBytes_toLe_length {n : Nat} (h : n < 2 ^ 32) : ofLeBytes (toLe (BitVec.ofNat 32 n)) = n := by
  rw [toLe, BitVec.toNat_ofNat, Nat.mod_eq_of_lt h]
  exact ofLeBytes_leBytes h

theorem readKeys_flatMap (slate : List Bytes) (rest : Bytes) (h : ∀ key ∈ slate, key.length < 2 ^ 32) :
    readKeys slate.length (slate.flatMap lengthPrefixed ++ rest) = some slate := by
  induction slate with
  | nil => rfl
  | cons key slate ih =>
    rw [forall_mem_cons] at h
    have hdata : (key :: slate).flatMap lengthPrefixed ++ rest =
        toLe (BitVec.ofNat 32 key.length) ++ (key ++ (slate.flatMap lengthPrefixed ++ rest)) := by
      simp [lengthPrefixed]
    have hrest := ih h.2
    generalize slate.flatMap lengthPrefixed ++ rest = later at hdata hrest
    have hkey : slice (toLe (BitVec.ofNat 32 key.length) ++ (key ++ later)) 4 key.length = key := by
      rw [slice_append_right (by simp), length_toLe]
      exact slice_append_left rfl
    have hdrop : (toLe (BitVec.ofNat 32 key.length) ++ (key ++ later)).drop (4 + key.length) = later := by
      rw [← append_assoc, drop_left']
      simp
    rw [length_cons, hdata, readKeys, if_neg (by simp)]
    dsimp only
    rw [slice_append_left (by simp), ofLeBytes_toLe_length h.1, if_neg (by simp), hkey, hdrop, hrest]
    rfl

/-- The keys of a slate and their number are bounded by the length of the whole. -/
theorem length_flatMap_lengthPrefixed (slate : List Bytes) :
    slate.length ≤ (slate.flatMap lengthPrefixed).length ∧
      ∀ key ∈ slate, key.length ≤ (slate.flatMap lengthPrefixed).length := by
  induction slate with
  | nil => simp
  | cons key slate ih =>
    simp only [flatMap_cons, length_append, length_lengthPrefixed, length_cons, forall_mem_cons]
    refine ⟨by omega, by omega, ?_⟩
    intro key' hkey'
    have hle := ih.2 key' hkey'
    omega

theorem fromBytes_toBytes {keys : AuthKeys} (h : keys.Storable) : fromBytes keys.toBytes = some keys := by
  cases keys with
  | none => rfl
  | single pk =>
    have hlen : pk.length < 2 ^ 32 := by
      have hshort := h.1
      simp [toBytes] at hshort
      omega
    have hinitial : ofLeBytes (slice (lengthPrefixed pk) 0 4) = pk.length := by
      rw [lengthPrefixed, slice_append_left (by simp), ofLeBytes_toLe_length hlen]
    have hkey : slice (lengthPrefixed pk) 4 pk.length = pk := by
      rw [lengthPrefixed, slice_append_right (by simp), length_toLe]
      exact slice_all le_rfl
    rw [toBytes, fromBytes, if_neg (by decide), if_pos rfl, if_neg (by simp)]
    dsimp only
    rw [hinitial, if_neg (by simp; omega), hkey]
  | multiSig slate threshold =>
    have hbound := length_flatMap_lengthPrefixed slate
    have hshort : 9 + (slate.flatMap lengthPrefixed).length < 2 ^ 32 := by
      have hshort := h.1
      simp only [toBytes, length_cons, length_append, length_toLe] at hshort
      omega
    have hthreshold : slice (toLe threshold ++ (toLe (BitVec.ofNat 32 slate.length) ++
        slate.flatMap lengthPrefixed)) 0 4 = toLe threshold := slice_append_left (by simp)
    have hcount : ofLeBytes (slice (toLe threshold ++ (toLe (BitVec.ofNat 32 slate.length) ++
        slate.flatMap lengthPrefixed)) 4 4) = slate.length := by
      rw [slice_append_right (by simp), length_toLe, slice_append_left (by simp), ofLeBytes_toLe_length (by omega)]
    have hdrop : (toLe threshold ++ (toLe (BitVec.ofNat 32 slate.length) ++
        slate.flatMap lengthPrefixed)).drop 8 = slate.flatMap lengthPrefixed := by
      rw [← append_assoc, drop_left']
      simp
    have hread : readKeys slate.length (slate.flatMap lengthPrefixed) = some slate := by
      have hkeys := readKeys_flatMap slate [] fun key hkey => (hbound.2 key hkey).trans_lt (by omega)
      rwa [append_nil] at hkeys
    rw [toBytes, fromBytes, if_neg (by decide), if_neg (by decide), if_pos rfl, if_neg (by simp; omega),
      hcount, hdrop, hread]
    dsimp only
    rw [if_pos (h.2 slate threshold rfl), hthreshold, ofLe_toLe (by decide)]

/-- The keys that were read take up no more room than they were read from. -/
theorem length_of_readKeys {count : Nat} {data : Bytes} {slate : List Bytes}
    (h : readKeys count data = some slate) : (slate.flatMap lengthPrefixed).length ≤ data.length := by
  induction count generalizing data slate with
  | zero =>
    cases h
    simp
  | succ count ih =>
    unfold readKeys at h
    split at h
    · cases h
    dsimp only at h
    split at h
    · cases h
    rename_i hfour hlong
    obtain ⟨rest, hrest, rfl⟩ := Option.map_eq_some_iff.mp h
    have hle := ih hrest
    have hkey := length_slice_le data 4 (ofLeBytes (slice data 0 4))
    rw [length_drop] at hle
    simp only [flatMap_cons, length_append, length_lengthPrefixed]
    omega

/-- Keys that were read from a short enough string can be stored again. -/
theorem storable_of_fromBytes {data : Bytes} {keys : AuthKeys} (h : fromBytes data = some keys)
    (hshort : data.length < 2 ^ 32) : keys.Storable := by
  unfold fromBytes at h
  split at h
  · cases h
  rename_i tag rest
  split at h
  · cases h
    exact storable_none
  split at h
  · split at h
    · cases h
    · dsimp only at h
      split at h
      · cases h
      rename_i _ hlong
      cases h
      have hkey := length_slice_le rest 4 (ofLeBytes (slice rest 0 4))
      refine ⟨?_, fun _ _ hslate => by cases hslate⟩
      simp only [toBytes, length_cons, length_lengthPrefixed]
      omega
  · split at h
    · split at h
      · cases h
      · rename_i hlong
        split at h
        · cases h
        rename_i slate hread
        split at h
        · rename_i hnodup
          cases h
          have hle := length_of_readKeys hread
          rw [length_drop] at hle
          rw [length_cons] at hshort hlong
          refine ⟨?_, ?_⟩
          · simp only [toBytes, length_cons, length_append, length_toLe]
            omega
          · intro slate' threshold hslate
            cases hslate
            exact hnodup
        · cases h
    · cases h

end AuthKeys

namespace Account

theorem fromU8_toU8 (t : AccountType) : AccountType.fromU8 t.toU8 = some t := by
  cases t <;> rfl

theorem slices_toBytes (account : Account) :
    slice account.toBytes 0 32 = account.address.toList ∧ slice account.toBytes 32 8 = toLe account.nonce ∧
    slice account.toBytes 40 16 = toLe account.balance ∧ slice account.toBytes 56 32 = account.codeHash.toList ∧
    slice account.toBytes 88 32 = account.storageRoot.toList ∧
    slice account.toBytes 120 1 = [account.accountType.toU8] ∧ slice account.toBytes 121 16 = toLe account.gasTank ∧
    slice account.toBytes 137 4 = toLe account.keyNonce ∧
    slice account.toBytes 141 4 = toLe (BitVec.ofNat 32 account.authKeys.toBytes.length) ∧
    slice account.toBytes 145 account.authKeys.toBytes.length = account.authKeys.toBytes := by
  have hbytes : account.toBytes = account.address.toList ++ (toLe account.nonce ++ (toLe account.balance ++
      (account.codeHash.toList ++ (account.storageRoot.toList ++ ([account.accountType.toU8] ++
        (toLe account.gasTank ++ (toLe account.keyNonce ++ (toLe (BitVec.ofNat 32 account.authKeys.toBytes.length) ++
            (account.authKeys.toBytes ++ []))))))))) := by
    simp [toBytes, AuthKeys.lengthPrefixed]
  rw [hbytes]
  -- skip the fields in front of each one
  refine ⟨?_, ?_, ?_, ?_, ?_, ?_, ?_, ?_, ?_, ?_⟩
  all_goals
    simp (disch := simp) only [slice_append_right, slice_append_left, List.Vector.toList_length, length_toLe,
      length_singleton, Nat.reduceSub, Nat.reduceDiv]

theorem getD_of_slice {bs : Bytes} {i : Nat} {b : U8} (h : slice bs i 1 = [b]) : bs.getD i 0 = b := by
  have hi : i < bs.length := by
    by_contra hlong
    rw [slice, drop_eq_nil_of_le (by omega)] at h
    cases h
  rw [slice, drop_eq_getElem_cons hi, take_succ_cons] at h
  rw [getD_eq_getElem?_getD, List.getElem?_eq_getElem hi]
  exact (List.cons.inj h).1

theorem length_toBytes (account : Account) : account.toBytes.length = 145 + account.authKeys.toBytes.length := by
  simp [toBytes]
  omega

theorem fromBytes_toBytes {account : Account} (h : account.authKeys.Storable) :
    fromBytes account.toBytes = some account := by
  obtain ⟨haddr, hnonce, hbalance, hcode, hstorage, htype, htank, hkeyNonce, hauthLen, hauth⟩ :=
    slices_toBytes account
  have hlen := length_toBytes account
  rw [fromBytes, if_neg (by omega), fixedAt_of_slice haddr, fixedAt_of_slice hcode, fixedAt_of_slice hstorage]
  dsimp only
  rw [getD_of_slice htype, fromU8_toU8]
  dsimp only
  rw [hauthLen, AuthKeys.ofLeBytes_toLe_length h.1, if_neg (by omega), hauth, AuthKeys.fromBytes_toBytes h]
  dsimp only
  rw [hnonce, hbalance, htank, hkeyNonce, ofLe_toLe (by decide), ofLe_toLe (by decide),
    ofLe_toLe (by decide), ofLe_toLe (by decide)]

theorem storable_of_fromBytes {data : Bytes} {account : Account} (h : fromBytes data = some account) :
    account.authKeys.Storable := by
  unfold fromBytes at h
  split at h
  · cases h
  split at h
  · split at h
    · cases h
    · dsimp only at h
      split at h
      · cases h
      split at h
      · cases h
      rename_i hread
      cases h
      refine AuthKeys.storable_of_fromBytes hread ?_
      have hslice := length_slice_le data 145 (ofLeBytes (slice data 141 4))
      have hlen := ofLeBytes_lt (slice data 141 4)
      have hfour := length_slice_le data 141 4
      have hpow : 256 ^ (slice data 141 4).length ≤ 256 ^ 4 := Nat.pow_le_pow_right (by decide) hfour
      omega
  · cases h

end Account

end Pyde
