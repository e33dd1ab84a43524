/-
Module: Pyde.Crypto.Threshold
Purpose: Threshold encryption to a committee. A dealer splits the seed of a Kyber key over the Goldilocks
  field, each member blinds and signs its part of the seed for one ciphertext, and the combiner checks,
  unblinds and interpolates the parts before it opens the ciphertext.
Trusted boundary: Prims, Kyber
-/
import Pyde.Library.SecretSharing
import Pyde.Mempool.Encrypted
import Mathlib.NumberTheory.LucasPrimality

namespace Pyde

open ByteCodec SecretSharing

/-! ### The Goldilocks field -/

/-- `GOLDILOCKS_PRIME`, `2^64 - 2^32 + 1`. -/
abbrev goldilocksPrime : Nat := 0xFFFFFFFF00000001

abbrev GoldilocksField := ZMod goldilocksPrime

theorem dvd_goldilocksPrime_sub_one {q : Nat} (hq : q.Prime) (hdvd : q ∣ goldilocksPrime - 1) :
    q = 2 ∨ q = 3 ∨ q = 5 ∨ q = 17 ∨ q = 257 ∨ q = 65537 := by
  have hfactors : goldilocksPrime - 1 = 2 ^ 32 * 3 * 5 * 17 * 257 * 65537 := by norm_num
  have heq : ∀ r : Nat, r.Prime → q ∣ r → q = r := fun r hr h => (Nat.prime_dvd_prime_iff_eq hq hr).mp h
  rw [hfactors] at hdvd
  simp only [hq.dvd_mul] at hdvd
  rcases hdvd with ((((h | h) | h) | h) | h) | h
  · exact .inl (heq 2 Nat.prime_two (hq.dvd_of_dvd_pow h))
  · exact .inr (.inl (heq 3 Nat.prime_three h))
  · exact .inr (.inr (.inl (heq 5 Nat.prime_five h)))
  · exact .inr (.inr (.inr (.inl (heq 17 (by norm_num) h))))
  · exact .inr (.inr (.inr (.inr (.inl (heq 257 (by norm_num) h)))))
  · exact .inr (.inr (.inr (.inr (.inr (heq 65537 (by norm_num) h)))))

/-- Seven generates the multiplicative group, so the modulus is prime. -/
theorem goldilocksPrime_prime : goldilocksPrime.Prime := by
  refine lucas_primality _ (7 : ZMod goldilocksPrime) (by reduce_mod_char) ?_
  intro q hq hdvd
  rcases dvd_goldilocksPrime_sub_one hq hdvd with rfl | rfl | rfl | rfl | rfl | rfl <;>
    · reduce_mod_char
      decide

instance : Fact goldilocksPrime.Prime := ⟨goldilocksPrime_prime⟩

/-- `gl`: reduction into the field. -/
def gl (val : U64) : GoldilocksField := (val.toNat : ZMod goldilocksPrime)

/-- `gl_to_u64`: the canonical representative. -/
def glToU64 (el : GoldilocksField) : U64 := BitVec.ofNat 64 (ZMod.val el)

theorem glToU64_toNat (el : GoldilocksField) : (glToU64 el).toNat = ZMod.val el := by
  have hlt : ZMod.val el < goldilocksPrime := ZMod.val_lt el
  simp only [glToU64, BitVec.toNat_ofNat, goldilocksPrime] at hlt ⊢
  omega

@[simp] theorem gl_glToU64 (el : GoldilocksField) : gl (glToU64 el) = el := by
  rw [gl, glToU64_toNat, ZMod.natCast_zmod_val]

/-- Only the values below the prime survive the way into the field and back. -/
theorem glToU64_gl {val : U64} (h : val.toNat < goldilocksPrime) : glToU64 (gl val) = val := by
  apply BitVec.eq_of_toNat_eq
  rw [glToU64_toNat, gl, ZMod.val_natCast_of_lt h]

/-! ### Calls that do not return -/

/-- How a call can fail to return: an index out of bounds, or a loop that is never left. -/
inductive Fault where
  | panicked
  | endless
deriving DecidableEq

/-- The loops of `random_goldilocks` and `derive_blinding_mask`: draw until a candidate is below the
prime. The attempt counter has 64 bits, so the loop is never left when no attempt succeeds. -/
def drawCanonical (candidate : U64 → U64) : Nat → U64 → Except Fault GoldilocksField
  | 0, _ => .error .endless
  | left + 1, attempt =>
    if (candidate attempt).toNat < goldilocksPrime then .ok (gl (candidate attempt))
    else drawCanonical candidate left (attempt + 1)

/-- The first eight bytes of a digest as an integer. -/
def digestWord (digest : Hash256) : U64 := ofLe 64 (slice digest.toList 0 8)

def randomGoldilocks (P : Prims) (entropy : Hash256) (index : Nat) : Except Fault GoldilocksField :=
  drawCanonical (fun attempt =>
    digestWord (P.poseidon2Hash (entropy.toList ++ (toLe (BitVec.ofNat 64 index) ++ toLe attempt)))) (2 ^ 64) 0

/-! ### Sharing a secret -/

/-- The coefficients that `shamir_split` draws: the secret and `t - 1` random elements. -/
def shamirCoefficients (P : Prims) (secret : GoldilocksField) (t : Nat) (entropy : Hash256)
    (elementIdx : Nat) : Except Fault (List GoldilocksField) := do
  let rest ← (List.range (t - 1)).mapM fun i => randomGoldilocks P entropy (elementIdx * 1000 + (i + 1))
  pure (secret :: rest)

/-- `shamir_split`: the polynomial at the points `1` to `n`. -/
def shamirSplit (P : Prims) (secret : GoldilocksField) (n t : Nat) (entropy : Hash256)
    (elementIdx : Nat) : Except Fault (List (FieldShare GoldilocksField)) := do
  let coeffs ← shamirCoefficients P secret t entropy elementIdx
  pure ((List.range n).map fun i =>
    let x := gl (BitVec.ofNat 64 (i + 1))
    ⟨x, evaluate coeffs x⟩)

/-- `shamir_reconstruct`. For two equal points `gl_inv` panics, where the model has `0⁻¹ = 0`. -/
def shamirReconstruct (shares : List (FieldShare GoldilocksField)) : GoldilocksField := reconstruct shares

/-! ### Keys -/

/-- The Kyber-768 entry points. Key generation and encapsulation draw fresh randomness on each call; the
drawn coins are an argument here. A secret key is its 64-byte seed. -/
structure Kyber where
  keygen : Bytes → Except String (Bytes × FixedBytes 64)
  encapsulate : Bytes → Bytes → Except String (FixedBytes 1088 × FixedBytes 32)
  decapsulate : FixedBytes 64 → FixedBytes 1088 → Except String (FixedBytes 32)

/-- Decapsulation gives the secret that was encapsulated to the key. -/
def Kyber.Correct (K : Kyber) : Prop :=
  ∀ coins pk seed, K.keygen coins = .ok (pk, seed) →
    ∀ coins' kyberCt secret, K.encapsulate pk coins' = .ok (kyberCt, secret) →
      K.decapsulate seed kyberCt = .ok secret

structure ThresholdPublicKey where
  kyberPk : Bytes
  n : Nat
  threshold : Nat
deriving DecidableEq

/-- `KeyShare`: one member's value for each element of the seed. -/
structure KeyShare where
  index : Nat
  shares : List GoldilocksField
deriving DecidableEq

def seedElements : Nat := 8

/-- Element `i` of the seed. -/
def seedChunk (seed : FixedBytes 64) (i : Nat) : U64 := ofLe 64 (slice seed.toList (i * 8) 8)

/-- All chunks are canonical, so that the seed survives the way into the field and back. -/
def allCanonical (seed : FixedBytes 64) : Bool :=
  (List.range seedElements).all fun i => decide ((seedChunk seed i).toNat < goldilocksPrime)

def maxRejections : Nat := 64

/-- The loop of `threshold_keygen` that rejects seeds with a chunk that is not canonical. -/
def sampleSeed (K : Kyber) (coins : Nat → Bytes) : Nat → Nat → Except String (Bytes × FixedBytes 64)
  | 0, _ => .error "threshold_keygen: Kyber seed rejection-sampling exceeded retry budget"
  | left + 1, attempt =>
    match K.keygen (coins attempt) with
    | .error e => .error e
    | .ok (pk, seed) =>
      if allCanonical seed then .ok (pk, seed) else sampleSeed K coins left (attempt + 1)

def thresholdKeygen (P : Prims) (K : Kyber) (n threshold : Nat) (coins : Nat → Bytes) :
    Except Fault (Except String (ThresholdPublicKey × List KeyShare)) :=
  if threshold > n then .ok (.error "threshold must be <= n")
  else if threshold < 1 then .ok (.error "threshold must be >= 1")
  else
    match sampleSeed K coins maxRejections 0 with
    | .error e => .ok (.error e)
    | .ok (pk, seed) => do
      let entropy := P.poseidon2Hash seed.toList
      let allShares ← (List.range seedElements).mapM fun idx =>
        shamirSplit P (gl (seedChunk seed idx)) n threshold entropy idx
      -- Each row has one share per member, so the lookups never miss.
      let keyShares := (List.range n).map fun validatorIdx =>
        (⟨validatorIdx + 1, allShares.map fun row => (row.getD validatorIdx ⟨0, 0⟩).y⟩ : KeyShare)
      pure (.ok (⟨pk, n, threshold⟩, keyShares))

/-! ### Encryption -/

def ksDomain : Bytes := ascii "pyde-threshold-keystream-v1"

def macDomain : Bytes := ascii "pyde-threshold-mac-v1"

def keystreamBlock (P : Prims) (secret : FixedBytes 32) (kyberCt : FixedBytes 1088) (counter : Nat) : Bytes :=
  (P.poseidon2Hash (ksDomain ++ (secret.toList ++ ((P.poseidon2Hash kyberCt.toList).toList ++
    toLe (BitVec.ofNat 64 counter))))).toList

/-- `derive_keystream`: as many blocks as cover the length, cut to it. -/
def deriveKeystream (P : Prims) (secret : FixedBytes 32) (kyberCt : FixedBytes 1088) (len : Nat) : Bytes :=
  ((List.range ((len + 31) / 32)).flatMap (keystreamBlock P secret kyberCt)).take len

def computeMac (P : Prims) (secret : FixedBytes 32) (kyberCt : FixedBytes 1088) (ciphertext : Bytes) : Hash256 :=
  P.poseidon2Hash (macDomain ++ (secret.toList ++ ((P.poseidon2Hash kyberCt.toList).toList ++ ciphertext)))

def xorBytes (data keystream : Bytes) : Bytes := List.zipWith (· ^^^ ·) data keystream

def thresholdEncrypt (P : Prims) (K : Kyber) (tpk : ThresholdPublicKey) (msg coins : Bytes) :
    Except String ThresholdCiphertext :=
  match K.encapsulate tpk.kyberPk coins with
  | .error e => .error e
  | .ok (kyberCt, secret) =>
    let encryptedMsg := xorBytes msg (deriveKeystream P secret kyberCt msg.length)
    .ok { kyberCt, encryptedMsg, mac := computeMac P secret kyberCt encryptedMsg }

/-! ### Decryption shares -/

def ciphertextBindingHash (P : Prims) (ct : ThresholdCiphertext) : Hash256 :=
  P.poseidon2Hash (ct.kyberCt.toList ++ ct.encryptedMsg)

def deriveBlindingMask (P : Prims) (ctHash : Hash256) (validatorIndex elemIndex : Nat) :
    Except Fault GoldilocksField :=
  drawCanonical (fun attempt =>
    digestWord (P.poseidon2Hash (ctHash.toList ++ (toLe (BitVec.ofNat 64 validatorIndex) ++
      (toLe (BitVec.ofNat 64 elemIndex) ++ toLe attempt))))) (2 ^ 64) 0

/-- The canonical encodings of field elements, one after the other. -/
def encodeElements (elements : List GoldilocksField) : Bytes := elements.flatMap fun el => toLe (glToU64 el)

/-- `shares[i]` of a decryption share, which carries the encodings of its elements. -/
def DecryptionShare.element (share : DecryptionShare) (i : Nat) : Option GoldilocksField :=
  if (i + 1) * 8 ≤ share.shares.length then some (gl (ofLe 64 (slice share.shares (i * 8) 8))) else none

/-- `DecryptionShare::signing_preimage`, over the encodings of the elements. -/
def signingPreimage (P : Prims) (ctHash : Hash256) (index : Nat) (shares : Bytes) : Bytes :=
  ctHash.toList ++ (toLe (BitVec.ofNat 64 index) ++ (P.poseidon2Hash shares).toList)

/-- `generate_decryption_share`. The coins are those of the signature. -/
def generateDecryptionShare (P : Prims) (keyShare : KeyShare) (ct : ThresholdCiphertext)
    (sk : FalconSecretKey) (coins : Bytes) : Except Fault (Except String DecryptionShare) := do
  let ctHash := ciphertextBindingHash P ct
  let blinded ← keyShare.shares.zipIdx.mapM fun entry => do
    let mask ← deriveBlindingMask P ctHash keyShare.index entry.2
    pure (entry.1 + mask)
  let shares := encodeElements blinded
  match P.falconSign sk (signingPreimage P ctHash keyShare.index shares) coins with
  | none => pure (.error "FALCON-512 signing failed")
  | some sig => pure (.ok { index := keyShare.index, shares, signature := sig.bytes })

/-! ### Combining shares -/

def maxValidatorIndex : Nat := 256

/-- The signature check of `combine_shares`. -/
def DecryptionShare.authentic (P : Prims) (ct : ThresholdCiphertext) (keys : List Bytes)
    (share : DecryptionShare) : Bool :=
  match keys[share.index - 1]? with
  | none => false
  | some pk =>
    P.verifyRaw pk (signingPreimage P (ciphertextBindingHash P ct) share.index share.shares)
      share.signature

/-- One share of one element with its mask taken off. -/
def unblind (P : Prims) (ct : ThresholdCiphertext) (elemIdx : Nat) (share : DecryptionShare) :
    Except Fault (FieldShare GoldilocksField) := do
  let mask ← deriveBlindingMask P (ciphertextBindingHash P ct) share.index elemIdx
  match share.element elemIdx with
  | none => .error .panicked
  | some value => pure ⟨gl (BitVec.ofNat 64 share.index), value - mask⟩

/-- The loop that reconstructs the seed, one element per turn. -/
def reconstructSeed (P : Prims) (ct : ThresholdCiphertext) (usedShares : List DecryptionShare) :
    Except Fault Bytes := do
  let chunks ← (List.range seedElements).mapM fun elemIdx => do
    let fieldShares ← usedShares.mapM (unblind P ct elemIdx)
    pure (toLe (glToU64 (shamirReconstruct fieldShares)))
  pure chunks.flatten

/-- Decapsulation, the check of the authentication code, and the keystream. A failed decapsulation goes
on with a zero secret. -/
def openCiphertext (P : Prims) (K : Kyber) (ct : ThresholdCiphertext) (seedBytes : Bytes) : Except String Bytes :=
  match fixedAt 64 seedBytes 0 with
  | none => .error "decryption failed"
  | some seed =>
    let secret := match K.decapsulate seed ct.kyberCt with
      | .ok secret => secret
      | .error _ => zero32
    if computeMac P secret ct.kyberCt ct.encryptedMsg ≠ ct.mac then .error "decryption failed"
    else .ok (xorBytes ct.encryptedMsg (deriveKeystream P secret ct.kyberCt ct.encryptedMsg.length))

def combineShares (P : Prims) (K : Kyber) (shares : List DecryptionShare) (threshold : Nat)
    (ct : ThresholdCiphertext) (keys : List Bytes) : Except Fault (Except String Bytes) :=
  if shares.length < threshold then .ok (.error "insufficient shares")
  else if shares.any fun s => decide (s.index = 0 ∨ s.index > maxValidatorIndex) then
    .ok (.error "invalid share index (out of range 1..=256)")
  else if ¬ (shares.map DecryptionShare.index).Nodup then .ok (.error "duplicate share index")
  else if shares.any fun s => !s.authentic P ct keys then .ok (.error "decryption failed")
  else do
    let seedBytes ← reconstructSeed P ct (shares.take threshold)
    pure (openCiphertext P K ct seedBytes)

end Pyde
