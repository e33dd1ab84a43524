/-
Module: Pyde.Mempool.Encrypted
Purpose: Encrypted transactions: the bounds-checked decoder, the hash, what its signature covers, and the shares
  collected for their decryption.
Trusted boundary: Prims, Threshold
-/
import Pyde.Tx.Types
import Pyde.Account.Types

namespace Pyde

open ByteCodec List

/-- `ThresholdCiphertext`: a Kyber encapsulation, always `CT_SIZE` bytes, with the masked payload and
its authentication code. -/
structure ThresholdCiphertext where
  kyberCt : FixedBytes 1088
  encryptedMsg : Bytes
  mac : FixedBytes 32
deriving DecidableEq

namespace ThresholdCiphertext

/-- `ThresholdCiphertext::to_bytes`, what the transaction hash covers. -/
def toBytes (ct : ThresholdCiphertext) : Bytes := ct.kyberCt.toList ++ (ct.encryptedMsg ++ ct.mac.toList)

/-- `ThresholdCiphertext::from_wire_bytes`. Bytes after the authentication code are ignored. -/
def fromWireBytes (data : Bytes) : Option ThresholdCiphertext :=
  if data.length < 8 then none
  else
    let ctLen := (ofLe 32 (slice data 0 4)).toNat
    if data.length < 4 + ctLen + 4 then none
    else if ctLen ≠ 1088 then none
    else do
      let kyberCt ← fixedAt 1088 data 4
      let msgOff := 4 + ctLen
      let msgLen := (ofLe 32 (slice data msgOff 4)).toNat
      let msgStart := msgOff + 4
      if data.length < msgStart + msgLen + 32 then none
      else do
        let mac ← fixedAt 32 data (msgStart + msgLen)
        some ⟨kyberCt, slice data msgStart msgLen, mac⟩

end ThresholdCiphertext

/-! ### The decoder's cursor -/

/-- `Cursor`: a reader over the bytes still to come; `none` is an underrun or a count over its cap. -/
abbrev Cursor := StateT Bytes Option

namespace Cursor

def take (n : Nat) : Cursor Bytes := fun rest =>
  if rest.length < n then none else some (rest.take n, rest.drop n)

/-- `u8`, `u16`, `u32` and `u64`: one little-endian integer. -/
def int (w : Nat) : Cursor (BitVec w) := do
  let bytes ← take (w / 8)
  pure (ofLe w bytes)

def bytes32 : Cursor (FixedBytes 32) := fun rest =>
  (fixedAt 32 rest 0).map fun bytes => (bytes, rest.drop 32)

/-- `u16_count` and `u32_count`: an item count that may not exceed `max`. -/
def count (w max : Nat) : Cursor Nat := do
  let n ← int w
  if n.toNat > max then failure else pure n.toNat

/-- The `for _ in 0..n` loops that push one item per turn. -/
def times {α : Type} (item : Cursor α) : Nat → Cursor (List α)
  | 0 => pure []
  | n + 1 => do
    let x ← item
    let xs ← times item n
    pure (x :: xs)

end Cursor

/-! ### Encrypted transactions -/

def maxEncryptedTxsPerBlock : Nat := 100

structure EncryptedTx where
  sender : Address
  nonce : U64
  gasLimit : U64
  accessList : List AccessEntry
  deadline : Option U64
  chainId : U64
  signature : Bytes
  ciphertext : ThresholdCiphertext
deriving DecidableEq

namespace EncryptedTx

/-- `MAX_TX_SIZE` of the mempool crate. -/
def maxTxSize : Nat := 128 * 1024

def maxAccessEntries : Nat := 1024

def maxKeysPerAccessEntry : Nat := 1024

def maxSigLen : Nat := 1024

def maxCtLen : Nat := 72 * 1024

/-- One access list entry; its counts are 16 bits wide here. -/
def accessEntry : Cursor AccessEntry := do
  let addr ← Cursor.bytes32
  let readCount ← Cursor.count 16 maxKeysPerAccessEntry
  let reads ← Cursor.times Cursor.bytes32 readCount
  let writeCount ← Cursor.count 16 maxKeysPerAccessEntry
  let writes ← Cursor.times Cursor.bytes32 writeCount
  pure ⟨addr, reads, writes⟩

/-- The deadline behind its presence byte. -/
def deadlineField : Cursor (Option U64) := do
  let hasDeadline ← Cursor.int 8
  if hasDeadline ≠ 0 then some <$> Cursor.int 64 else pure none

def cursor : Cursor EncryptedTx := do
  let sender ← Cursor.bytes32
  let nonce ← Cursor.int 64
  let gasLimit ← Cursor.int 64
  let chainId ← Cursor.int 64
  let deadline ← deadlineField
  let accessCount ← Cursor.count 32 maxAccessEntries
  let accessList ← Cursor.times accessEntry accessCount
  let sigLen ← Cursor.count 32 maxSigLen
  let sig ← Cursor.take sigLen
  let ctLen ← Cursor.count 32 maxCtLen
  let ctBytes ← Cursor.take ctLen
  let ciphertext ← StateT.lift (ThresholdCiphertext.fromWireBytes ctBytes)
  pure { sender, nonce, gasLimit, accessList, deadline, chainId, signature := sig, ciphertext }

/-- `EncryptedTx::from_bytes`. Bytes after the ciphertext are ignored. -/
def fromBytes (data : Bytes) : Option EncryptedTx :=
  if data.length > maxTxSize then none else (cursor.run data).map Prod.fst

/-- The bytes hashed by `EncryptedTx::hash`: access list, deadline and signature are left out. -/
def preimage (P : Prims) (tx : EncryptedTx) : Bytes :=
  tx.sender.toList ++ (toLe tx.nonce ++ (toLe tx.gasLimit ++ (toLe tx.chainId ++
    (P.poseidon2Hash tx.ciphertext.toBytes).toList)))

def hash (P : Prims) (tx : EncryptedTx) : Hash256 := P.poseidon2Hash (tx.preimage P)

@[simp] theorem length_preimage (P : Prims) (tx : EncryptedTx) : (tx.preimage P).length = 88 := by
  simp [preimage]

end EncryptedTx

/-- A plaintext transaction is hashed from at least 171 bytes, an encrypted one from 88. -/
theorem Transaction.length_preimage_ge (P : Prims) (tx : Transaction) : 171 ≤ (tx.preimage P).length := by
  have hpayer : 1 ≤ tx.feePayer.toBytes.length := by cases tx.feePayer <;> simp [FeePayer.toBytes]
  have hdeadline : 1 ≤ (deadlineBytes tx.deadline).length := by cases tx.deadline <;> simp [deadlineBytes]
  simp only [Transaction.preimage, List.length_append, length_toLe, List.Vector.toList_length, List.length_singleton]
  omega

theorem Transaction.preimage_ne_encrypted (P : Prims) (tx : Transaction) (etx : EncryptedTx) :
    tx.preimage P ≠ etx.preimage P := by
  intro h
  have hlen := tx.length_preimage_ge P
  rw [h, EncryptedTx.length_preimage] at hlen
  omega

def EncryptedTx.verifySignatureWithKey (P : Prims) (tx : EncryptedTx) (pk : Bytes) : Bool :=
  P.verifyRaw pk (tx.hash P).toList tx.signature

namespace EncryptedTx

/-- The two agree in every field that enters the hash. -/
structure SameCovered (tx tx' : EncryptedTx) : Prop where
  sender : tx.sender = tx'.sender
  nonce : tx.nonce = tx'.nonce
  gasLimit : tx.gasLimit = tx'.gasLimit
  chainId : tx.chainId = tx'.chainId
  ciphertext : tx.ciphertext = tx'.ciphertext

/-- The strings that are hashed for a transaction. -/
def hashInputs (P : Prims) (tx : EncryptedTx) : Set Bytes := {tx.preimage P, tx.ciphertext.toBytes}

end EncryptedTx

/-- The parts of a ciphertext are found again in its bytes, since only the payload varies in length. -/
theorem ThresholdCiphertext.toBytes_inj {ct ct' : ThresholdCiphertext} (h : ct.toBytes = ct'.toBytes) : ct = ct' := by
  obtain ⟨hkyber, hrest⟩ := toList_append_inj.mp h
  have hlength : ct.encryptedMsg.length = ct'.encryptedMsg.length := by
    have hall := congrArg List.length hrest
    simp only [length_append, List.Vector.toList_length] at hall
    omega
  obtain ⟨hmsg, hmac⟩ := append_inj hrest hlength
  cases ct
  cases ct'
  simp only [ThresholdCiphertext.mk.injEq]
  exact ⟨hkyber, hmsg, List.Vector.toList_injective hmac⟩

theorem EncryptedTx.hash_eq_iff {P : Prims} {tx tx' : EncryptedTx}
    (hfree : P.CollisionFreeOn (tx.hashInputs P ∪ tx'.hashInputs P)) :
    tx.hash P = tx'.hash P ↔ tx.SameCovered tx' := by
  constructor
  · intro h
    have hpreimage : tx.preimage P = tx'.preimage P := hfree (.inl (.inl rfl)) (.inr (.inl rfl)) h
    unfold EncryptedTx.preimage at hpreimage
    obtain ⟨hsender, hpreimage⟩ := toList_append_inj.mp hpreimage
    obtain ⟨hnonce, hpreimage⟩ := (toLe_append_inj (by decide)).mp hpreimage
    obtain ⟨hgas, hpreimage⟩ := (toLe_append_inj (by decide)).mp hpreimage
    obtain ⟨hchain, hcipher⟩ := (toLe_append_inj (by decide)).mp hpreimage
    have hbytes : tx.ciphertext.toBytes = tx'.ciphertext.toBytes :=
      hfree (.inl (.inr rfl)) (.inr (.inr rfl)) (List.Vector.toList_injective hcipher)
    exact
      { sender := hsender
        nonce := hnonce
        gasLimit := hgas
        chainId := hchain
        ciphertext := ThresholdCiphertext.toBytes_inj hbytes }
  · intro h
    unfold EncryptedTx.hash EncryptedTx.preimage
    rw [h.sender, h.nonce, h.gasLimit, h.chainId, h.ciphertext]

/-- FALCON cannot be forged: what verifies under the key was signed as the hash of one of these transactions. -/
def UnforgedBeyond (P : Prims) (pk : Bytes) (signed : List EncryptedTx) : Prop :=
  ∀ msg sig, P.verifyRaw pk msg sig = true → ∃ tx ∈ signed, msg = (tx.hash P).toList

/-- A transaction has another hash than all those that were signed, and is rejected under every key that signed only
those, exactly if it differs from each in a covered field. -/
theorem signature_covers_iff (P : Prims) (signed : List EncryptedTx) (altered : EncryptedTx)
    (hfree : ∀ tx ∈ signed, P.CollisionFreeOn (tx.hashInputs P ∪ altered.hashInputs P)) :
    ((∀ tx ∈ signed, tx.hash P ≠ altered.hash P) ∧
      ∀ pk, UnforgedBeyond P pk signed → altered.verifySignatureWithKey P pk = false) ↔
    ∀ tx ∈ signed, ¬ tx.SameCovered altered := by
  constructor
  · rintro ⟨hhashes, -⟩ tx htx hsame
    exact hhashes tx htx ((EncryptedTx.hash_eq_iff (hfree tx htx)).mpr hsame)
  · intro hdiffer
    have hhashes : ∀ tx ∈ signed, tx.hash P ≠ altered.hash P := fun tx htx heq =>
      hdiffer tx htx ((EncryptedTx.hash_eq_iff (hfree tx htx)).mp heq)
    refine ⟨hhashes, fun pk hunforged => ?_⟩
    rw [Bool.eq_false_iff]
    intro hverified
    obtain ⟨tx, htx, hmsg⟩ := hunforged _ _ hverified
    exact hhashes tx htx (List.Vector.toList_injective hmsg).symm

/-! ### Examples -/

/-- An encrypted transaction that is signed under the lucid scheme. -/
def signedEncrypted (nonce : U64) (accessList : List AccessEntry) (deadline : Option U64) : EncryptedTx :=
  let unsigned : EncryptedTx :=
    { sender := fill32 1, nonce, gasLimit := 21000, accessList, deadline, chainId := 1, signature := [],
      ciphertext := { kyberCt := List.Vector.replicate 1088 0, encryptedMsg := [1], mac := zero32 } }
  { unsigned with signature := (lucidSignature [7] (unsigned.hash lucid).toList).bytes }

theorem signature_covers_nonce :
    (signedEncrypted 0 [] none).hash lucid ≠ (signedEncrypted 1 [] none).hash lucid := by
  have hnodup : ([(signedEncrypted 0 [] none).preimage lucid, (signedEncrypted 1 [] none).preimage lucid,
      (signedEncrypted 0 [] none).ciphertext.toBytes].map lucid.poseidon2Hash).Nodup := by decide +kernel
  have hfree : ∀ tx ∈ [signedEncrypted 0 [] none], lucid.CollisionFreeOn
      (tx.hashInputs lucid ∪ (signedEncrypted 1 [] none).hashInputs lucid) := by
    refine forall_mem_singleton.mpr (Set.InjOn.mono ?_ (inj_on_of_nodup_map hnodup))
    rintro _ ((rfl | rfl) | rfl | rfl)
    · exact .head _
    · exact .tail _ (.tail _ (.head _))
    · exact .tail _ (.head _)
    · exact .tail _ (.tail _ (.head _))
  refine ((signature_covers_iff lucid [signedEncrypted 0 [] none] (signedEncrypted 1 [] none) hfree).mpr ?_).1 _
    mem_cons_self
  exact forall_mem_singleton.mpr fun hsame => absurd hsame.nonce (by decide)

/-- An original with a deadline, and what a relay makes of it. -/
def dueEncrypted : EncryptedTx := signedEncrypted 0 [⟨fill32 9, [fill32 3], []⟩] (some 10)

def strippedEncrypted : EncryptedTx := { dueEncrypted with accessList := [⟨fill32 8, [], []⟩], deadline := none }

/-- The access list is replaced and the deadline removed: hash and signature stay valid. -/
theorem stripped_encrypted_verifies :
    dueEncrypted.accessList ≠ strippedEncrypted.accessList ∧
      dueEncrypted.deadline ≠ strippedEncrypted.deadline ∧
      dueEncrypted.hash lucid = strippedEncrypted.hash lucid ∧
      dueEncrypted.verifySignatureWithKey lucid (lucidKey 7) = true ∧
      strippedEncrypted.verifySignatureWithKey lucid (lucidKey 7) = true := by
  decide +kernel

/-- A decryption share. Its value is only looked at inside `combine_shares`. -/
structure DecryptionShare where
  index : Nat
  shares : Bytes
  signature : Bytes
deriving DecidableEq

/-- `combine_shares`: threshold decryption, given the shares, the threshold, the ciphertext and the keys of
the committee. -/
structure Threshold where
  combineShares : List DecryptionShare → Nat → ThresholdCiphertext → List Bytes → Except String Bytes

/-- `decrypt_payload`: recipient, value and calldata. -/
def decryptPayload (T : Threshold) (ciphertext : ThresholdCiphertext) (shares : List DecryptionShare)
    (threshold : Nat) (keys : List Bytes) : Except String (Address × U128 × Bytes) :=
  match T.combineShares shares threshold ciphertext keys with
  | .error e => .error ("decryption failed: " ++ e)
  | .ok plaintext =>
    if plaintext.length < 48 then .error "decrypted payload too short"
    else
      match fixedAt 32 plaintext 0 with
      | none => .error "decrypted payload too short"
      | some toAddress => .ok (toAddress, ofLe 128 (slice plaintext 32 16), plaintext.drop 48)

/-- `BlockDecryptor`, with the shares of each transaction in the order of the transactions. -/
structure BlockDecryptor where
  encryptedTxs : List EncryptedTx
  shares : List (List DecryptionShare)
  threshold : Nat
  committeeKeys : List Bytes

/-! ### Loops that collect results -/

/-- What the two steps of a computation that returned have returned. -/
theorem bind_eq_ok {ε α β : Type} {first : Except ε α} {next : α → Except ε β} {b : β}
    (h : (first >>= next) = .ok b) : ∃ a, first = .ok a ∧ next a = .ok b := by
  cases first with
  | error e => cases h
  | ok a => exact ⟨a, rfl, h⟩

section Collect

variable {ε α β : Type} {xs : List α} {ys : List β} {r : α → β → Prop}

theorem mapM_eq_ok_map {f : α → Except ε β} {g : α → β} (h : ∀ x ∈ xs, f x = .ok (g x)) :
    xs.mapM f = .ok (xs.map g) := by
  induction xs with
  | nil => rfl
  | cons x xs ih =>
    rw [forall_mem_cons] at h
    rw [mapM_cons, h.1, ih h.2]
    rfl

theorem forall₂_of_mapM_eq_ok {f : α → Except ε β} (h : xs.mapM f = .ok ys) :
    List.Forall₂ (fun x y => f x = .ok y) xs ys := by
  induction xs generalizing ys with
  | nil =>
    cases h
    exact .nil
  | cons x xs ih =>
    rw [mapM_cons] at h
    obtain ⟨y, hx, hrest⟩ := bind_eq_ok h
    obtain ⟨rest, hxs, hcons⟩ := bind_eq_ok hrest
    cases hcons
    exact .cons hx (ih hxs)

theorem eq_map_of_forall₂ {f : α → β} (h : List.Forall₂ r xs ys) (hf : ∀ x ∈ xs, ∀ y, r x y → y = f x) :
    ys = xs.map f := by
  induction h with
  | nil => rfl
  | cons hxy _ ih =>
    rw [forall_mem_cons] at hf
    rw [map_cons, hf.1 _ hxy, ih hf.2]

theorem exists_mem_of_forall₂ (h : List.Forall₂ r xs ys) {y : β} (hy : y ∈ ys) : ∃ x ∈ xs, r x y := by
  induction h with
  | nil => cases hy
  | cons hxy _ ih =>
    rcases List.mem_cons.mp hy with rfl | hy
    · exact ⟨_, mem_cons_self .., hxy⟩
    · obtain ⟨x, hx, hrest⟩ := ih hy
      exact ⟨x, mem_cons_of_mem _ hx, hrest⟩

end Collect

namespace BlockDecryptor

def shareCount (decryptor : BlockDecryptor) (txIndex : Nat) : Nat := ((decryptor.shares[txIndex]?).getD []).length

/-- `decrypt_tx_inner`: every decrypted transaction is a `Standard` one that the sender pays for. -/
def decryptTxInner (T : Threshold) (decryptor : BlockDecryptor) (txIndex : Nat) : Except String Transaction :=
  match decryptor.encryptedTxs[txIndex]? with
  | none => .error "tx_index out of bounds"
  | some etx =>
    if decryptor.shareCount txIndex < decryptor.threshold then
      .error ("insufficient shares: have " ++ toString (decryptor.shareCount txIndex) ++ ", need " ++
        toString decryptor.threshold)
    else do
      let (toAddress, value, calldata) ← decryptPayload T etx.ciphertext
        ((decryptor.shares[txIndex]?).getD []) decryptor.threshold decryptor.committeeKeys
      pure
        { fromAddress := etx.sender
          toAddress := toAddress
          value := value
          data := calldata
          gasLimit := etx.gasLimit
          nonce := etx.nonce
          signature := etx.signature
          feePayer := .sender
          accessList := etx.accessList
          deadline := etx.deadline
          chainId := etx.chainId
          txType := .standard }

/-- `decrypt_all`, with the error of the first transaction that fails. -/
def decryptAll (T : Threshold) (decryptor : BlockDecryptor) : Except String (List Transaction) :=
  (List.range decryptor.encryptedTxs.length).mapM (decryptor.decryptTxInner T)

theorem decryptTxInner_ok {T : Threshold} {decryptor : BlockDecryptor} {txIndex : Nat} {tx : Transaction}
    (h : decryptor.decryptTxInner T txIndex = .ok tx) : tx.feePayer = .sender ∧ tx.txType = .standard := by
  unfold decryptTxInner at h
  cases hetx : decryptor.encryptedTxs[txIndex]? with
  | none =>
    rw [hetx] at h
    cases h
  | some etx =>
    rw [hetx] at h
    dsimp only at h
    split at h
    · cases h
    cases hpayload : decryptPayload T etx.ciphertext ((decryptor.shares[txIndex]?).getD [])
      decryptor.threshold decryptor.committeeKeys with
    | error e =>
      rw [hpayload] at h
      cases h
    | ok payload =>
      rw [hpayload] at h
      cases h
      exact ⟨rfl, rfl⟩

theorem decryptAll_ok {T : Threshold} {decryptor : BlockDecryptor} {txs : List Transaction}
    (h : decryptor.decryptAll T = .ok txs) : ∀ tx ∈ txs, tx.feePayer = .sender ∧ tx.txType = .standard := by
  intro tx htx
  obtain ⟨i, -, hi⟩ := exists_mem_of_forall₂ (forall₂_of_mapM_eq_ok h) htx
  exact decryptTxInner_ok hi

end BlockDecryptor

end Pyde
