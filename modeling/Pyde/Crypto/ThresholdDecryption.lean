/-
Module: Pyde.Crypto.ThresholdDecryption
Purpose: Threshold decryption gives the message back. The members' blinding masks cancel, interpolation returns
  the seed from any choice and order of shares, and the seed opens the ciphertext. Whoever sees one share can take its
  masks off.
Trusted boundary: Prims, Kyber
-/
import Pyde.Crypto.Threshold

namespace Pyde

open ByteCodec SecretSharing List

/-! ### Encodings -/

variable {i : Nat} {elements : List GoldilocksField} {el : GoldilocksField} {share : DecryptionShare}

/-- Element `i` of an encoded list. -/
theorem slice_encodeElements (h : elements[i]? = some el) :
    slice (encodeElements elements) (i * 8) 8 = toLe (glToU64 el) := slice_flatMap (fun _ _ => length_toLe _) h

theorem length_encodeElements (elements : List GoldilocksField) :
    (encodeElements elements).length = elements.length * 8 := length_flatMap_blocks fun _ _ => length_toLe _

theorem element_encodeElements (hshares : share.shares = encodeElements elements)
    (h : elements[i]? = some el) : share.element i = some el := by
  have hi : i < elements.length := (List.getElem?_eq_some_iff.mp h).1
  have hfits : (i + 1) * 8 ≤ share.shares.length := by
    rw [hshares, length_encodeElements]
    omega
  rw [DecryptionShare.element, if_pos hfits, hshares, slice_encodeElements h, ofLe_toLe (by decide), gl_glToU64]

theorem flatten_slices (bytes : Bytes) (count : Nat) :
    ((List.range count).map fun i => slice bytes (i * 8) 8).flatten = bytes.take (count * 8) := by
  induction count with
  | zero => simp
  | succ count ih =>
    rw [range_succ, map_append, flatten_append, ih, Nat.succ_mul, take_add]
    simp [slice]

/-! ### The keystream -/

variable {block : Nat → Bytes}

theorem length_take_blocks (hblock : ∀ counter, (block counter).length = 32) (len : Nat) :
    (((List.range ((len + 31) / 32)).flatMap block).take len).length = len := by
  rw [length_take, length_flatMap_blocks fun counter _ => hblock counter, length_range]
  omega

theorem length_deriveKeystream (P : Prims) (secret : FixedBytes 32) (kyberCt : FixedBytes 1088)
    (len : Nat) : (deriveKeystream P secret kyberCt len).length = len :=
  length_take_blocks (fun _ => by simp [keystreamBlock]) len

theorem xorBytes_xorBytes {data keystream : Bytes} (h : data.length ≤ keystream.length) :
    xorBytes (xorBytes data keystream) keystream = data := by
  apply ext_getElem
  · simp only [xorBytes, length_zipWith]
    omega
  · intro i _ _
    simp only [xorBytes, getElem_zipWith, BitVec.xor_assoc, BitVec.xor_self, BitVec.xor_zero]

variable {P : Prims} {K : Kyber}

theorem openCiphertext_encrypted (hkyber : K.Correct) {tpk : ThresholdPublicKey}
    {keygenCoins : Bytes} {seed : FixedBytes 64} (hkeygen : K.keygen keygenCoins = .ok (tpk.kyberPk, seed))
    {msg coins : Bytes} {ct : ThresholdCiphertext} (hencrypt : thresholdEncrypt P K tpk msg coins = .ok ct) :
    openCiphertext P K ct seed.toList = .ok msg := by
  unfold thresholdEncrypt at hencrypt
  cases hencapsulate : K.encapsulate tpk.kyberPk coins with
  | error e =>
    rw [hencapsulate] at hencrypt
    cases hencrypt
  | ok encapsulated =>
    obtain ⟨kyberCt, secret⟩ := encapsulated
    rw [hencapsulate] at hencrypt
    cases hencrypt
    have hseed : fixedAt 64 seed.toList 0 = some seed := by
      apply fixedAt_of_slice
      exact slice_all (by simp)
    have hsecret : K.decapsulate seed kyberCt = .ok secret := hkyber _ _ _ hkeygen _ _ _ hencapsulate
    have hstream := length_deriveKeystream P secret kyberCt msg.length
    have hmasked : (xorBytes msg (deriveKeystream P secret kyberCt msg.length)).length = msg.length := by
      rw [xorBytes, length_zipWith, hstream, Nat.min_self]
    simp only [openCiphertext, hseed, hsecret, ne_eq, not_true_eq_false, ↓reduceIte, hmasked]
    rw [xorBytes_xorBytes (by rw [hstream])]

/-! ### What the dealer hands out -/

/-- A dealing: the key shares lie, element by element, on polynomials with `t` coefficients through the
chunks of a canonical seed of the committee's key. -/
structure Dealt (K : Kyber) (t : Nat) (tpk : ThresholdPublicKey) (keyShares : List KeyShare)
    (seed : FixedBytes 64) : Prop where
  keygen : ∃ coins, K.keygen coins = .ok (tpk.kyberPk, seed)
  canonical : ∀ i < seedElements, (seedChunk seed i).toNat < goldilocksPrime
  onPolynomial : ∀ i < seedElements, ∃ rest : List GoldilocksField, rest.length + 1 = t ∧
    ∀ keyShare ∈ keyShares, keyShare.shares[i]? =
      some (evaluate (gl (seedChunk seed i) :: rest) (gl (BitVec.ofNat 64 keyShare.index)))
  indexed : ∀ keyShare ∈ keyShares, 1 ≤ keyShare.index

theorem sampleSeed_ok {left attempt : Nat} {pk : Bytes}
    {seed : FixedBytes 64} (h : sampleSeed K coins left attempt = .ok (pk, seed)) :
    (∃ coins, K.keygen coins = .ok (pk, seed)) ∧ allCanonical seed = true := by
  induction left generalizing attempt with
  | zero => cases h
  | succ left ih =>
    rw [sampleSeed] at h
    cases hkeygen : K.keygen (coins attempt) with
    | error e =>
      rw [hkeygen] at h
      cases h
    | ok pair =>
      rw [hkeygen] at h
      dsimp only at h
      split at h
      · next hcanonical =>
        cases h
        exact ⟨⟨_, hkeygen⟩, hcanonical⟩
      · exact ih h

variable {secret : GoldilocksField} {n t : Nat}

theorem shamirSplit_ok {t : Nat} {entropy : Hash256} {elementIdx : Nat}
    {row : List (FieldShare GoldilocksField)} (h : shamirSplit P secret n t entropy elementIdx = .ok row) :
    ∃ rest : List GoldilocksField, rest.length = t - 1 ∧ ∀ i < n, row.getD i ⟨0, 0⟩ =
        ⟨gl (BitVec.ofNat 64 (i + 1)), evaluate (secret :: rest) (gl (BitVec.ofNat 64 (i + 1)))⟩ := by
  obtain ⟨coeffs, hcoeffs, hrow⟩ := bind_eq_ok h
  obtain ⟨rest, hrest, hcons⟩ := bind_eq_ok hcoeffs
  cases hcons
  cases hrow
  refine ⟨rest, ?_, ?_⟩
  · rw [← (forall₂_of_mapM_eq_ok hrest).length_eq, length_range]
  · intro i hi
    simp [getD_eq_getElem?_getD, hi]

variable {coins : Nat → Bytes} {tpk : ThresholdPublicKey}

theorem thresholdKeygen_ok {keyShares : List KeyShare}
    (h : thresholdKeygen P K n t coins = .ok (.ok (tpk, keyShares))) :
    ∃ seed, Dealt K t tpk keyShares seed := by
  unfold thresholdKeygen at h
  split at h
  · cases h
  split at h
  · cases h
  next hle hpositive =>
  cases hsample : sampleSeed K coins maxRejections 0 with
  | error e =>
    rw [hsample] at h
    cases h
  | ok pair =>
    obtain ⟨pk, seed⟩ := pair
    rw [hsample] at h
    obtain ⟨rows, hrows, hresult⟩ := bind_eq_ok h
    cases hresult
    obtain ⟨hkeygen, hcanonical⟩ := sampleSeed_ok hsample
    have hrow := forall₂_of_mapM_eq_ok hrows
    refine ⟨seed, hkeygen, ?_, ?_, ?_⟩
    · simpa [allCanonical] using hcanonical
    · intro i hi
      have hlength : i < rows.length := by rwa [← hrow.length_eq, length_range]
      have hsplit := hrow.get (by rwa [length_range]) hlength
      obtain ⟨rest, hrest, hshares⟩ := shamirSplit_ok hsplit
      refine ⟨rest, by omega, ?_⟩
      intro keyShare hkeyShare
      obtain ⟨validatorIdx, hvalidator, rfl⟩ := List.mem_map.mp hkeyShare
      have hvalue := hshares validatorIdx (List.mem_range.mp hvalidator)
      simp only [get_eq_getElem, getElem_range] at hvalue
      simp only [List.getElem?_map, List.getElem?_eq_getElem hlength, Option.map_some, hvalue]
    · intro keyShare hkeyShare
      obtain ⟨validatorIdx, _, rfl⟩ := List.mem_map.mp hkeyShare
      exact Nat.succ_pos _

/-! ### Honest shares -/

def Prims.SignsFor (P : Prims) (sk : FalconSecretKey) (pk : Bytes) : Prop :=
  ∀ msg coins sig, P.falconSign sk msg coins = some sig → P.verifyRaw pk msg sig.bytes = true

/-- A share that a member with one of the key shares produced for the ciphertext and signed with the key
the committee lists for it. -/
def HonestShare (P : Prims) (keyShares : List KeyShare) (keys : List Bytes)
    (ct : ThresholdCiphertext) (share : DecryptionShare) : Prop :=
  ∃ keyShare ∈ keyShares, ∃ sk pk coins, keys[keyShare.index - 1]? = some pk ∧
    P.SignsFor sk pk ∧ generateDecryptionShare P keyShare ct sk coins = .ok (.ok share)

theorem generateDecryptionShare_ok {keyShare : KeyShare} {ct : ThresholdCiphertext}
    {sk : FalconSecretKey} {coins : Bytes} (h : generateDecryptionShare P keyShare ct sk coins = .ok (.ok share)) :
    share.index = keyShare.index ∧ (∀ i value, keyShare.shares[i]? = some value →
        ∃ mask, deriveBlindingMask P (ciphertextBindingHash P ct) keyShare.index i = .ok mask ∧
          share.element i = some (value + mask)) ∧
      ∃ sig, P.falconSign sk (signingPreimage P (ciphertextBindingHash P ct) share.index share.shares) coins =
        some sig ∧ share.signature = sig.bytes := by
  obtain ⟨blinded, hblinded, hsigned⟩ := bind_eq_ok h
  cases hsign : P.falconSign sk (signingPreimage P (ciphertextBindingHash P ct) keyShare.index
    (encodeElements blinded)) coins with
  | none =>
    dsimp only at hsigned
    rw [hsign] at hsigned
    cases hsigned
  | some sig =>
    dsimp only at hsigned
    rw [hsign] at hsigned
    cases hsigned
    refine ⟨rfl, ?_, sig, hsign, rfl⟩
    intro i value hvalue
    have hall := forall₂_of_mapM_eq_ok hblinded
    obtain ⟨hi, hget⟩ := List.getElem?_eq_some_iff.mp hvalue
    have hlength : i < blinded.length := by rwa [← hall.length_eq, length_zipIdx]
    have hentry := hall.get (by rwa [length_zipIdx]) hlength
    obtain ⟨mask, hmask, hsum⟩ := bind_eq_ok hentry
    simp only [get_eq_getElem, getElem_zipIdx, Nat.zero_add] at hmask hsum
    refine ⟨mask, hmask, element_encodeElements rfl ?_⟩
    rw [List.getElem?_eq_getElem hlength, ← hget]
    exact congrArg some (Except.ok.inj hsum).symm

section

variable {keyShares : List KeyShare} {keys : List Bytes} {ct : ThresholdCiphertext}
  (h : HonestShare P keyShares keys ct share)
include h

theorem HonestShare.authentic : share.authentic P ct keys = true := by
  obtain ⟨keyShare, _, sk, pk, coins, hkey, hpair, hgenerate⟩ := h
  obtain ⟨hindex, _, sig, hsign, hsignature⟩ := generateDecryptionShare_ok hgenerate
  rw [DecryptionShare.authentic, hindex, hkey]
  dsimp only
  rw [hsignature, ← hindex]
  exact hpair _ _ _ hsign

theorem HonestShare.one_le_index {seed : FixedBytes 64}
    (hdealt : Dealt K t tpk keyShares seed) : 1 ≤ share.index := by
  obtain ⟨keyShare, hmem, sk, pk, coins, _, _, hgenerate⟩ := h
  rw [(generateDecryptionShare_ok hgenerate).1]
  exact hdealt.indexed keyShare hmem

/-- Unblinding an honest share gives the member's point on the polynomial. -/
theorem HonestShare.unblind {elemIdx : Nat} {value : GoldilocksField → GoldilocksField}
    (hvalue : ∀ keyShare ∈ keyShares,
      keyShare.shares[elemIdx]? = some (value (gl (BitVec.ofNat 64 keyShare.index)))) :
    unblind P ct elemIdx share = .ok ⟨gl (BitVec.ofNat 64 share.index),
      value (gl (BitVec.ofNat 64 share.index))⟩ := by
  obtain ⟨keyShare, hmem, sk, pk, coins, _, _, hgenerate⟩ := h
  obtain ⟨hindex, hblinded, _⟩ := generateDecryptionShare_ok hgenerate
  obtain ⟨mask, hmask, helement⟩ := hblinded elemIdx _ (hvalue keyShare hmem)
  simp only [Pyde.unblind, hindex, hmask, helement]
  change Except.ok _ = Except.ok _
  rw [add_sub_cancel_right]

end

/-! ### Reconstruction -/

theorem gl_ofNat_inj {j : Nat} (hi : i < goldilocksPrime) (hj : j < goldilocksPrime)
    (h : gl (BitVec.ofNat 64 i) = gl (BitVec.ofNat 64 j)) : i = j := by
  have hsmall : ∀ k < goldilocksPrime, (BitVec.ofNat 64 k).toNat = k := by
    intro k hk
    simp only [goldilocksPrime, BitVec.toNat_ofNat] at hk ⊢
    omega
  have hbelow : ∀ k < goldilocksPrime, (BitVec.ofNat 64 k).toNat < goldilocksPrime := by
    intro k hk
    rwa [hsmall k hk]
  have hwords : BitVec.ofNat 64 i = BitVec.ofNat 64 j := by
    rw [← glToU64_gl (hbelow i hi), ← glToU64_gl (hbelow j hj), h]
  rw [← hsmall i hi, ← hsmall j hj, hwords]

theorem gl_index_inj {j : Nat} (hi : i ≤ maxValidatorIndex) (hj : j ≤ maxValidatorIndex)
    (h : gl (BitVec.ofNat 64 i) = gl (BitVec.ofNat 64 j)) : i = j := by
  have hbound : maxValidatorIndex < goldilocksPrime := by decide
  exact gl_ofNat_inj (hi.trans_lt hbound) (hj.trans_lt hbound) h

theorem seedChunk_bytes (seed : FixedBytes 64) (hi : i < seedElements) :
    toLe (seedChunk seed i) = slice seed.toList (i * 8) 8 := by
  have hfits : i * 8 + 8 ≤ seed.toList.length := by
    rw [seed.toList_length]
    simp only [seedElements] at hi
    omega
  exact toLe_ofLe (by decide) (length_slice hfits)

section Honest

variable {P : Prims} {K : Kyber} {t : Nat} {tpk : ThresholdPublicKey} {keyShares : List KeyShare}
  {seed : FixedBytes 64} {keys : List Bytes} {ct : ThresholdCiphertext}

/-- As many honest shares as the threshold give the seed, whoever they are from. -/
theorem reconstructSeed_honest (hdealt : Dealt K t tpk keyShares seed) {usedShares : List DecryptionShare}
    (hcount : usedShares.length = t) (hhonest : ∀ share ∈ usedShares, HonestShare P keyShares keys ct share)
    (hrange : ∀ share ∈ usedShares, share.index ≤ maxValidatorIndex)
    (hdistinct : (usedShares.map DecryptionShare.index).Nodup) : reconstructSeed P ct usedShares = .ok seed.toList := by
  have hchunk : ∀ elemIdx ∈ List.range seedElements,
      (do let fieldShares ← usedShares.mapM (unblind P ct elemIdx)
          pure (toLe (glToU64 (shamirReconstruct fieldShares))) : Except Fault Bytes) =
        .ok (slice seed.toList (elemIdx * 8) 8) := by
    intro elemIdx hmem
    have helem : elemIdx < seedElements := List.mem_range.mp hmem
    obtain ⟨rest, hrest, hvalues⟩ := hdealt.onPolynomial elemIdx helem
    have hfield := mapM_eq_ok_map fun share hshare => (hhonest share hshare).unblind hvalues
    have hsecret : shamirReconstruct (usedShares.map fun share =>
        (⟨gl (BitVec.ofNat 64 share.index), evaluate (gl (seedChunk seed elemIdx) :: rest)
          (gl (BitVec.ofNat 64 share.index))⟩ : FieldShare GoldilocksField)) = gl (seedChunk seed elemIdx) := by
      apply reconstruct_evaluate (gl (seedChunk seed elemIdx)) rest
      · rw [length_map, hcount, length_cons, hrest]
      · rw [map_map]
        refine List.Nodup.map_on ?_ (List.Nodup.of_map _ hdistinct)
        intro a ha b hb hpoints
        exact inj_on_of_nodup_map hdistinct ha hb (gl_index_inj (hrange a ha) (hrange b hb) hpoints)
      · intro fieldShare hfieldShare
        obtain ⟨share, _, rfl⟩ := List.mem_map.mp hfieldShare
        rfl
    rw [hfield]
    change Except.ok (toLe (glToU64 (shamirReconstruct _))) = _
    rw [hsecret, glToU64_gl (hdealt.canonical elemIdx helem), seedChunk_bytes seed helem]
  rw [reconstructSeed, mapM_eq_ok_map hchunk]
  change Except.ok _ = _
  rw [flatten_slices, take_of_length_le]
  rw [seed.toList_length]
  decide

variable {shares : List DecryptionShare}
  (hrange : ∀ share ∈ shares, 1 ≤ share.index ∧ share.index ≤ maxValidatorIndex)
  (hdistinct : (shares.map DecryptionShare.index).Nodup)
  (hauthentic : ∀ share ∈ shares, share.authentic P ct keys = true)
include hrange hdistinct hauthentic

/-- What `combine_shares` does with shares that pass its checks. -/
theorem combineShares_checked {threshold : Nat} (henough : threshold ≤ shares.length) :
    combineShares P K shares threshold ct keys =
      (do let seedBytes ← reconstructSeed P ct (shares.take threshold)
          pure (openCiphertext P K ct seedBytes)) := by
  have hindex : ¬ (shares.any fun s => decide (s.index = 0 ∨ s.index > maxValidatorIndex)) = true := by
    simp only [any_eq_true, decide_eq_true_eq, not_exists, not_and]
    intro share hshare
    have := hrange share hshare
    omega
  have hsigned : ¬ (shares.any fun s => !s.authentic P ct keys) = true := by
    simp only [any_eq_true, Bool.not_eq_true', not_exists, not_and]
    intro share hshare
    rw [hauthentic share hshare]
    decide
  rw [combineShares, if_neg (Nat.not_lt.mpr henough), if_neg hindex, if_neg (not_not.mpr hdistinct), if_neg hsigned]

/-- The message comes back as soon as all shares pass the checks and the first `t` are honest: the values
of the others are never looked at. -/
theorem combineShares_first_honest (hkyber : K.Correct) (hdealt : Dealt K t tpk keyShares seed)
    {msg coins : Bytes} (hencrypt : thresholdEncrypt P K tpk msg coins = .ok ct)
    (henough : t ≤ shares.length)
    (hhonest : ∀ share ∈ shares.take t, HonestShare P keyShares keys ct share) :
    combineShares P K shares t ct keys = .ok (.ok msg) := by
  obtain ⟨keygenCoins, hkeygen⟩ := hdealt.keygen
  have hseed : reconstructSeed P ct (shares.take t) = .ok seed.toList := by
    apply reconstructSeed_honest hdealt _ hhonest
    · exact fun share hshare => (hrange share (mem_of_mem_take hshare)).2
    · exact hdistinct.sublist ((take_sublist t shares).map DecryptionShare.index)
    · rw [length_take, Nat.min_eq_left henough]
  rw [combineShares_checked hrange hdistinct hauthentic henough, hseed]
  exact congrArg Except.ok (openCiphertext_encrypted hkyber hkeygen hencrypt)

end Honest

/-- Any `t` or more honest shares of different members, in any order, decrypt the message. -/
theorem combineShares_returns_message (P : Prims) (K : Kyber) (hkyber : K.Correct) {n t : Nat}
    {coins : Nat → Bytes} {tpk : ThresholdPublicKey} {keyShares : List KeyShare}
    (hkeys : thresholdKeygen P K n t coins = .ok (.ok (tpk, keyShares))) {msg encryptCoins : Bytes}
    {ct : ThresholdCiphertext} (hencrypt : thresholdEncrypt P K tpk msg encryptCoins = .ok ct)
    {keys : List Bytes} {shares : List DecryptionShare}
    (hhonest : ∀ share ∈ shares, HonestShare P keyShares keys ct share)
    (hdistinct : (shares.map DecryptionShare.index).Nodup) (henough : t ≤ shares.length)
    (hrange : ∀ share ∈ shares, share.index ≤ maxValidatorIndex) :
    combineShares P K shares t ct keys = .ok (.ok msg) := by
  obtain ⟨seed, hdealt⟩ := thresholdKeygen_ok hkeys
  apply combineShares_first_honest _ hdistinct _ hkyber hdealt hencrypt henough
  · exact fun share hshare => hhonest share (mem_of_mem_take hshare)
  · exact fun share hshare => ⟨(hhonest share hshare).one_le_index hdealt, hrange share hshare⟩
  · exact fun share hshare => (hhonest share hshare).authentic

/-! ### A committee that can be evaluated -/

/-- A signature that does not depend on the message: the first byte of the key, repeated. -/
def stamp (key : Bytes) : FalconSignature := ⟨List.replicate 666 (key.headD 0)⟩

def stamped : Prims :=
  { lucid with
    falconSign := fun sk _ _ => some (stamp sk.bytes)
    falconVerify := fun pk _ sig => decide (sig = stamp pk.bytes) }

/-- The key pair of the stamped scheme that `tag` stands for. -/
theorem stamped_signsFor (tag : Byte) : stamped.SignsFor ⟨[tag]⟩ (lucidKey tag) := by
  intro msg coins sig hsign
  cases hsign
  rw [Prims.verifyRaw_iff]
  have hlength : (stamp [tag]).bytes.length = 666 := length_replicate
  refine ⟨length_replicate, by rw [hlength]; omega, ?_⟩
  exact decide_eq_true rfl

/-- The first `n` bytes, filled up with zeros. -/
def padded (n : Nat) (bytes : Bytes) : FixedBytes n := ⟨(bytes ++ List.replicate n 0).take n, by simp⟩

/-- A key encapsulation whose keys are their seeds and whose secret is the first half of the seed. -/
def openKyber : Kyber where
  keygen coins := .ok ((padded 64 coins).toList, padded 64 coins)
  encapsulate pk _ := .ok (padded 1088 [], padded 32 pk)
  decapsulate seed _ := .ok (padded 32 seed.toList)

theorem openKyber_correct : openKyber.Correct := by
  intro coins pk seed hkeygen coins' kyberCt secret hencapsulate
  cases hkeygen
  cases hencapsulate
  rfl

/-- The dealing of a committee of `n` with threshold `t`. -/
def openDealing (n t : Nat) : Except Fault (Except String (ThresholdPublicKey × List KeyShare)) :=
  thresholdKeygen stamped openKyber n t fun _ => [7]

def openKeys (n t : Nat) : Option (ThresholdPublicKey × List KeyShare) :=
  match openDealing n t with
  | .ok (.ok keys) => some keys
  | _ => none

def openKeyShares (n t : Nat) : List KeyShare := (openKeys n t).elim [] Prod.snd

def openPublicKey (n t : Nat) : ThresholdPublicKey := (openKeys n t).elim ⟨[], n, t⟩ Prod.fst

theorem openDealing_ok (h : (openKeys n t).isSome = true) :
    openDealing n t = .ok (.ok (openPublicKey n t, openKeyShares n t)) := by
  unfold openPublicKey openKeyShares openKeys at *
  split at h
  · next hdealing => rw [hdealing]; rfl
  · cases h

/-- The encryption of a message to the key of any of these committees. -/
def openEncrypt (msg : Bytes) : ThresholdCiphertext :=
  let kyberCt := padded 1088 []
  let secret := padded 32 [7]
  let encryptedMsg := xorBytes msg (deriveKeystream stamped secret kyberCt msg.length)
  { kyberCt, encryptedMsg, mac := computeMac stamped secret kyberCt encryptedMsg }

/-- The share of the member at position `i` of the committee, who signs with the key of `tag`. -/
def openShare (n t i : Nat) (tag : Byte) (ct : ThresholdCiphertext) : DecryptionShare :=
  match generateDecryptionShare stamped ((openKeyShares n t).getD i ⟨0, []⟩) ct ⟨[tag]⟩ [] with
  | .ok (.ok share) => share
  | _ => ⟨0, [], []⟩

theorem openShare_honest {tag : Byte} {ct : ThresholdCiphertext} {keys : List Bytes}
    (hmember : i < (openKeyShares n t).length)
    (hkey : keys[((openKeyShares n t).getD i ⟨0, []⟩).index - 1]? = some (lucidKey tag))
    (hgenerate : generateDecryptionShare stamped ((openKeyShares n t).getD i ⟨0, []⟩) ct ⟨[tag]⟩ [] =
      .ok (.ok (openShare n t i tag ct))) :
    HonestShare stamped (openKeyShares n t) keys ct (openShare n t i tag ct) := by
  refine ⟨(openKeyShares n t).getD i ⟨0, []⟩, ?_, ⟨[tag]⟩, lucidKey tag, [], hkey,
    stamped_signsFor tag, hgenerate⟩
  rw [getD_eq_getElem?_getD, List.getElem?_eq_getElem hmember]
  exact getElem_mem hmember

/-- Two of two members, the second one's share first. -/
theorem combineShares_returns_message_two_of_two :
    combineShares stamped openKyber
      [openShare 2 2 1 9 (openEncrypt [1, 2, 3]), openShare 2 2 0 8 (openEncrypt [1, 2, 3])] 2
      (openEncrypt [1, 2, 3]) [lucidKey 8, lucidKey 9] = .ok (.ok [1, 2, 3]) := by
  have hfirst : HonestShare stamped (openKeyShares 2 2) [lucidKey 8, lucidKey 9]
      (openEncrypt [1, 2, 3]) (openShare 2 2 0 8 (openEncrypt [1, 2, 3])) :=
    openShare_honest (by decide +kernel) (by decide +kernel) (by decide +kernel)
  have hsecond : HonestShare stamped (openKeyShares 2 2) [lucidKey 8, lucidKey 9]
      (openEncrypt [1, 2, 3]) (openShare 2 2 1 9 (openEncrypt [1, 2, 3])) :=
    openShare_honest (by decide +kernel) (by decide +kernel) (by decide +kernel)
  have hkeys : openDealing 2 2 = .ok (.ok (openPublicKey 2 2, openKeyShares 2 2)) :=
    openDealing_ok (by decide +kernel)
  have hencrypt : thresholdEncrypt stamped openKyber (openPublicKey 2 2) [1, 2, 3] [] =
      .ok (openEncrypt [1, 2, 3]) := by
    decide +kernel
  apply combineShares_returns_message stamped openKyber openKyber_correct hkeys hencrypt
  · intro share hshare
    rcases List.mem_pair.mp hshare with h | h
    · rw [h]
      exact hsecond
    · rw [h]
      exact hfirst
  · decide +kernel
  · decide +kernel
  · decide +kernel

/-- In a committee of 257 the last member's honest share is turned away, although one share is enough. -/
theorem last_of_257_refused :
    openDealing 257 1 = .ok (.ok (openPublicKey 257 1, openKeyShares 257 1)) ∧
      thresholdEncrypt stamped openKyber (openPublicKey 257 1) [1, 2, 3] [] = .ok (openEncrypt [1, 2, 3]) ∧
      HonestShare stamped (openKeyShares 257 1) (List.replicate 257 (lucidKey 9))
        (openEncrypt [1, 2, 3]) (openShare 257 1 256 9 (openEncrypt [1, 2, 3])) ∧
      combineShares stamped openKyber [openShare 257 1 256 9 (openEncrypt [1, 2, 3])] 1
          (openEncrypt [1, 2, 3]) (List.replicate 257 (lucidKey 9)) =
        .ok (.error "invalid share index (out of range 1..=256)") := by
  refine ⟨openDealing_ok (by decide +kernel), by decide +kernel, ?_, by decide +kernel⟩
  exact openShare_honest (by decide +kernel) (by decide +kernel) (by decide +kernel)

/-- What can be computed from two ciphertexts, the committee's public keys and a decryption share. -/
abbrev Adversary (α : Type) := ThresholdCiphertext → ThresholdCiphertext → List Bytes → DecryptionShare → α

section

variable (P : Prims) (ct other : ThresholdCiphertext) (keys : List Bytes)

/-- The adversary finds the key share behind every decryption share for `ct`. -/
def FindsKeyShare (adversary : Adversary (Except Fault (List GoldilocksField))) : Prop :=
  ∀ keyShare sk coins share, generateDecryptionShare P keyShare ct sk coins = .ok (.ok share) →
    adversary ct other keys share = .ok keyShare.shares

/-- The adversary finds the blinded values for `other` from every decryption share for `ct`. -/
def FindsBlinded (adversary : Adversary (Except Fault Bytes)) : Prop :=
  ∀ keyShare sk coins share, generateDecryptionShare P keyShare ct sk coins = .ok (.ok share) →
    ∀ sk' coins' share', generateDecryptionShare P keyShare other sk' coins' = .ok (.ok share') →
      adversary ct other keys share = .ok share'.shares

/-- A decryption share for `ct` is of no use besides: nothing public leads from it to the key share or to the
blinded values for another ciphertext. -/
structure ShareConfined : Prop where
  keyShare : ¬ ∃ adversary, FindsKeyShare P ct other keys adversary
  blinded : ¬ ∃ adversary, FindsBlinded P ct other keys adversary

end

/-! ### Taking the masks off -/

/-- The values of a decryption share without their masks, as the combiner computes them. -/
def takeOffMasks (P : Prims) (ct : ThresholdCiphertext) (share : DecryptionShare) :
    Except Fault (List GoldilocksField) :=
  (List.range (share.shares.length / 8)).mapM fun elemIdx => FieldShare.y <$> unblind P ct elemIdx share

def putOnMasks (P : Prims) (ct : ThresholdCiphertext) (index : Nat) (values : List GoldilocksField) :
    Except Fault Bytes := do
  let blinded ← values.zipIdx.mapM fun entry => do
    let mask ← deriveBlindingMask P (ciphertextBindingHash P ct) index entry.2
    pure (entry.1 + mask)
  pure (encodeElements blinded)

section

variable {P : Prims} {keyShare : KeyShare} {ct : ThresholdCiphertext} {sk : FalconSecretKey} {coins : Bytes}
  {share : DecryptionShare} (h : generateDecryptionShare P keyShare ct sk coins = .ok (.ok share))
include h

/-- The values of a decryption share are those of the key share with masks put on. -/
theorem putOnMasks_of_generate : putOnMasks P ct keyShare.index keyShare.shares = .ok share.shares := by
  obtain ⟨blinded, hblinded, hsigned⟩ := bind_eq_ok h
  have hshares : share.shares = encodeElements blinded := by
    dsimp only at hsigned
    split at hsigned
    · cases hsigned
    · cases hsigned
      rfl
  rw [putOnMasks, hblinded, hshares]
  rfl

theorem takeOffMasks_of_generate : takeOffMasks P ct share = .ok keyShare.shares := by
  obtain ⟨hindex, hblinded, -⟩ := generateDecryptionShare_ok h
  obtain ⟨blinded, hmasked, hencoded⟩ := bind_eq_ok (putOnMasks_of_generate h)
  have hcount : share.shares.length / 8 = keyShare.shares.length := by
    have hlength := (forall₂_of_mapM_eq_ok hmasked).length_eq
    rw [List.length_zipIdx] at hlength
    rw [← Except.ok.inj hencoded, length_encodeElements, hlength]
    omega
  have hvalue : ∀ elemIdx ∈ List.range (share.shares.length / 8),
      FieldShare.y <$> unblind P ct elemIdx share = .ok (keyShare.shares.getD elemIdx 0) := by
    intro elemIdx hmem
    have hlt : elemIdx < keyShare.shares.length := by rwa [← hcount, ← List.mem_range]
    have hget : keyShare.shares[elemIdx]? = some (keyShare.shares.getD elemIdx 0) := by
      simp [List.getD_eq_getElem?_getD, hlt]
    obtain ⟨mask, hmask, helement⟩ := hblinded elemIdx _ hget
    simp only [unblind, hindex, hmask, helement]
    change Except.ok _ = Except.ok _
    rw [add_sub_cancel_right]
  rw [takeOffMasks, mapM_eq_ok_map hvalue, hcount]
  congr 1
  apply List.ext_getElem
  · simp
  · intro i hi hi'
    simp [hi']

end

/-! ### No share is confined -/

/-- For any two ciphertexts, the masks lead from a decryption share for the one to the key share and to the blinded
values for the other. -/
theorem decryption_share_opens_key_share (P : Prims) (ct other : ThresholdCiphertext)
    (keys : List Bytes) :
    FindsKeyShare P ct other keys (fun ct _ _ share => takeOffMasks P ct share) ∧
      FindsBlinded P ct other keys (fun ct other _ share => do
        let values ← takeOffMasks P ct share
        putOnMasks P other share.index values) ∧ ¬ ShareConfined P ct other keys := by
  have hkey : FindsKeyShare P ct other keys fun ct _ _ share => takeOffMasks P ct share :=
    fun keyShare sk coins share h => takeOffMasks_of_generate h
  refine ⟨hkey, ?_, fun hconfined => hconfined.keyShare ⟨_, hkey⟩⟩
  intro keyShare sk coins share h sk' coins' share' h'
  have hindex := (generateDecryptionShare_ok h).1
  dsimp only
  rw [takeOffMasks_of_generate h, hindex]
  exact putOnMasks_of_generate h'

/-- The first of two members makes a share for one message. It is taken back to the key share, and from there to the
share for another message. -/
theorem share_for_one_message_opens_another :
    openShare 2 2 0 8 (openEncrypt [1, 2, 3]) ≠ openShare 2 2 0 8 (openEncrypt [4]) ∧
      takeOffMasks stamped (openEncrypt [1, 2, 3]) (openShare 2 2 0 8 (openEncrypt [1, 2, 3])) =
        .ok ((openKeyShares 2 2).getD 0 ⟨0, []⟩).shares ∧
      putOnMasks stamped (openEncrypt [4]) 1 ((openKeyShares 2 2).getD 0 ⟨0, []⟩).shares =
        .ok (openShare 2 2 0 8 (openEncrypt [4])).shares ∧
      ¬ ShareConfined stamped (openEncrypt [1, 2, 3]) (openEncrypt [4]) [lucidKey 8, lucidKey 9] := by
  refine ⟨by decide +kernel, by decide +kernel, by decide +kernel, fun hconfined => ?_⟩
  exact hconfined.keyShare ⟨fun ct _ _ share => takeOffMasks stamped ct share,
    fun keyShare sk coins share h => takeOffMasks_of_generate h⟩

end Pyde
