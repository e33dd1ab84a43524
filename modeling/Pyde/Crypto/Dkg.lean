/-
Module: Pyde.Crypto.Dkg
Purpose: Distributed key generation. Each contributor shares a secret of its own, commits to the rows of shares with
  a signed Merkle root and sends every member its row in an envelope; the members add up their rows.
Trusted boundary: Prims, Kyber
-/
import Pyde.Library.MerkleTree
import Pyde.Crypto.Resharing

namespace Pyde.Dkg

open ByteCodec SecretSharing Polynomial List

/-! ### Rows of shares -/

/-- A domain tag, which ends with a zero byte. -/
def domainTag (text : String) : Bytes := ascii text ++ [0]

/-- An index as it is written into hashes and messages. -/
def indexBytes (index : Nat) : Bytes := toLe (BitVec.ofNat 32 index)

/-- `[Goldilocks; SEED_ELEMENTS]`. -/
abbrev ElementArray := List.Vector GoldilocksField seedElements

/-- `ShareRow`: the values that one contributor has for one recipient. -/
structure ShareRow where
  receiverIndex : Nat
  values : ElementArray
deriving DecidableEq

def ShareRow.wireLen : Nat := 4 + 8 * seedElements

def ShareRow.toBytes (row : ShareRow) : Bytes := indexBytes row.receiverIndex ++ encodeElements row.values.toList

/-- Value `i` of an encoded row, before it is taken into the field. -/
def rawValue (bytes : Bytes) (i : Nat) : U64 := ofLe 64 (slice bytes (4 + i * 8) 8)

/-- `ShareRow::from_bytes`: values that are not canonical are refused. -/
def ShareRow.fromBytes (bytes : Bytes) : Option ShareRow :=
  if bytes.length ≠ ShareRow.wireLen then none
  else if (List.range seedElements).all fun i => decide ((rawValue bytes i).toNat < goldilocksPrime) then
    some
      { receiverIndex := (ofLe 32 (slice bytes 0 4)).toNat
        values := List.Vector.ofFn fun i => gl (rawValue bytes i) }
  else none

/-- `DKG_MERKLE_LEAF_DOMAIN`. -/
def merkleLeafDomain : Bytes := domainTag "PYDE_DKG_MERKLE_LEAF_V1"

/-- `DKG_MERKLE_NODE_DOMAIN`. -/
def merkleNodeDomain : Bytes := domainTag "PYDE_DKG_MERKLE_NODE_V1"

/-- `DKG_MERKLE_EMPTY_DOMAIN`. -/
def merkleEmptyDomain : Bytes := domainTag "PYDE_DKG_MERKLE_EMPTY_V1"

def ShareRow.leafPreimage (row : ShareRow) (epoch : U64) (fromIndex : Nat) : Bytes :=
  merkleLeafDomain ++ (toLe epoch ++ (indexBytes fromIndex ++ row.toBytes))

def ShareRow.leafHash (P : Prims) (row : ShareRow) (epoch : U64) (fromIndex : Nat) : Hash256 :=
  P.poseidon2Hash (row.leafPreimage epoch fromIndex)

/-! ### Merkle trees -/

def emptyPreimage (epoch : U64) (fromIndex : Nat) : Bytes := merkleEmptyDomain ++ (toLe epoch ++ indexBytes fromIndex)

def emptyLeafHash (P : Prims) (epoch : U64) (fromIndex : Nat) : Hash256 :=
  P.poseidon2Hash (emptyPreimage epoch fromIndex)

def nodePreimage (pair : Hash256 × Hash256) : Bytes := merkleNodeDomain ++ (pair.1.toList ++ pair.2.toList)

def nodeHash (P : Prims) (left right : Hash256) : Hash256 := P.poseidon2Hash (nodePreimage (left, right))

/-- The leaves with padding up to the next power of two. -/
def padLeaves (P : Prims) (leaves : List Hash256) (epoch : U64) (fromIndex : Nat) : List Hash256 :=
  leaves ++ List.replicate (2 ^ MerkleTree.depthFor leaves.length - leaves.length) (emptyLeafHash P epoch fromIndex)

/-- The loop of `compute_merkle_root`. It halves the level on each turn, so `left` turns are enough for `left` leaves. -/
def hashLevels (P : Prims) : Nat → List Hash256 → List Hash256
  | 0, level => level
  | left + 1, level => if level.length ≤ 1 then level else hashLevels P left (MerkleTree.pairUp (nodeHash P) level)

def computeMerkleRoot (P : Prims) (leaves : List Hash256) (epoch : U64) (fromIndex : Nat) : Hash256 :=
  if leaves = [] then emptyLeafHash P epoch fromIndex
  else
    let level := padLeaves P leaves epoch fromIndex
    (hashLevels P level.length level).headD zero32

structure MerkleProof where
  leafIndex : Nat
  siblings : List Hash256
deriving DecidableEq

/-- The loop of `merkle_proof`. -/
def collectSiblings (P : Prims) : Nat → List Hash256 → Nat → List Hash256
  | 0, _, _ => []
  | left + 1, level, idx =>
    if level.length ≤ 1 then []
    else
      level.getD (if idx % 2 = 0 then idx + 1 else idx - 1) zero32 ::
        collectSiblings P left (MerkleTree.pairUp (nodeHash P) level) (idx / 2)

def merkleProof (P : Prims) (leaves : List Hash256) (leafIndex : Nat) (epoch : U64) (fromIndex : Nat) :
    Option MerkleProof :=
  if leaves.length ≤ leafIndex then none
  else
    let level := padLeaves P leaves epoch fromIndex
    some { leafIndex, siblings := collectSiblings P level.length level leafIndex }

/-- The loop of `verify_merkle_proof`. -/
def climbProof (P : Prims) : Hash256 → Nat → List Hash256 → Hash256
  | cur, _, [] => cur
  | cur, idx, sib :: siblings =>
    climbProof P (if idx % 2 = 0 then nodeHash P cur sib else nodeHash P sib cur) (idx / 2) siblings

def verifyMerkleProof (P : Prims) (root leaf : Hash256) (proof : MerkleProof) : Bool :=
  decide (climbProof P leaf proof.leafIndex proof.siblings = root)

/-! ### Proofs for the leaves of a list -/

/-- The siblings that are collected for a position lead from its digest to the root. -/
theorem climbProof_collectSiblings (P : Prims) {left depth idx : Nat} (digest : Nat → Hash256)
    (hleft : depth ≤ left) (hidx : idx < 2 ^ depth) :
    climbProof P (digest idx) idx (collectSiblings P left ((List.range (2 ^ depth)).map digest) idx) =
      (hashLevels P left ((List.range (2 ^ depth)).map digest)).headD zero32 := by
  induction left generalizing depth idx digest with
  | zero =>
    obtain rfl : depth = 0 := by omega
    obtain rfl : idx = 0 := by omega
    rfl
  | succ left ih =>
    cases depth with
    | zero =>
      obtain rfl : idx = 0 := by omega
      rfl
    | succ depth =>
      rw [Nat.pow_succ'] at hidx ⊢
      have hlong : ¬ ((List.range (2 * 2 ^ depth)).map digest).length ≤ 1 := by
        have hpos := Nat.two_pow_pos depth
        simp only [length_map, length_range]
        omega
      rw [collectSiblings, hashLevels, if_neg hlong, if_neg hlong, climbProof, MerkleTree.pairUp_range,
        ← ih _ (by omega) (show idx / 2 < 2 ^ depth by omega)]
      congr 1
      -- the two digests below node `idx / 2`
      split
      next heven =>
        have hidx' : 2 * (idx / 2) = idx := by omega
        rw [hidx', getD_eq_getElem?_getD, getElem?_map, getElem?_range (by omega)]
        rfl
      next hodd =>
        have hidx' : 2 * (idx / 2) = idx - 1 := by omega
        have hnext : idx - 1 + 1 = idx := by omega
        rw [hidx', hnext, getD_eq_getElem?_getD, getElem?_map, getElem?_range (by omega)]
        rfl

/-- For each leaf of a list there is a proof, and it verifies against the root of the list. -/
theorem merkle_proofs_verify (P : Prims) (leaves : List Hash256) (i : Nat) (epoch : U64) (fromIndex : Nat) :
    (leaves.length ≤ i ∧ merkleProof P leaves i epoch fromIndex = none) ∨
      ∃ leaf proof, leaves[i]? = some leaf ∧ merkleProof P leaves i epoch fromIndex = some proof ∧
        proof.leafIndex = i ∧
        verifyMerkleProof P (computeMerkleRoot P leaves epoch fromIndex) leaf proof = true := by
  rcases Nat.lt_or_ge i leaves.length with hi | hout
  case inr => exact .inl ⟨hout, if_pos hout⟩
  have hdepth := MerkleTree.le_two_pow_depthFor leaves.length
  have hlength : (padLeaves P leaves epoch fromIndex).length = 2 ^ MerkleTree.depthFor leaves.length := by
    rw [padLeaves, length_append, length_replicate]
    omega
  have hlevel : (List.range (2 ^ MerkleTree.depthFor leaves.length)).map
      (fun pos => (padLeaves P leaves epoch fromIndex).getD pos zero32) = padLeaves P leaves epoch fromIndex := by
    apply ext_getElem
    · rw [length_map, length_range, hlength]
    · intro pos _ hposition
      simp [getD_eq_getElem?_getD, hposition]
  have hleaf : (padLeaves P leaves epoch fromIndex).getD i zero32 = leaves[i] := by
    rw [padLeaves, getD_eq_getElem?_getD, getElem?_append_left hi, List.getElem?_eq_getElem hi]
    rfl
  have hclimb := climbProof_collectSiblings P (fun pos => (padLeaves P leaves epoch fromIndex).getD pos zero32)
    Nat.lt_two_pow_self.le (hi.trans_le hdepth)
  rw [hlevel, hleaf] at hclimb
  have hsome : leaves ≠ [] := length_pos_iff.mp (Nat.zero_lt_of_lt hi)
  refine .inr ⟨_, _, List.getElem?_eq_getElem hi, if_neg (not_le.mpr hi), rfl, decide_eq_true ?_⟩
  rw [computeMerkleRoot, if_neg hsome]
  dsimp only
  rw [hlength]
  exact hclimb

/-! ### Commitments -/

/-- `DKG_COMMIT_SIG_DOMAIN`. -/
def commitSigDomain : Bytes := domainTag "PYDE_DKG_COMMIT_V1"

structure DkgCommitment where
  epoch : U64
  fromIndex : Nat
  n : Nat
  threshold : Nat
  merkleRoot : Hash256
  signature : Bytes
deriving DecidableEq

def DkgCommitment.signingPreimage (commitment : DkgCommitment) : Bytes :=
  commitSigDomain ++ (toLe commitment.epoch ++ (indexBytes commitment.fromIndex ++ (indexBytes commitment.n ++
    (indexBytes commitment.threshold ++ commitment.merkleRoot.toList))))

def DkgCommitment.verify (P : Prims) (commitment : DkgCommitment) (pk : FalconPublicKey) : Bool :=
  match FalconSignature.fromBytes commitment.signature with
  | none => false
  | some sig => P.falconVerify pk commitment.signingPreimage sig

/-! ### Envelopes -/

/-- `DKG_AEAD_KS_DOMAIN`. -/
def aeadKsDomain : Bytes := domainTag "PYDE_DKG_AEAD_KS_V1"

/-- `DKG_AEAD_MAC_DOMAIN`. -/
def aeadMacDomain : Bytes := domainTag "PYDE_DKG_AEAD_MAC_V1"

/-- What keystream and authentication code are bound to. -/
def binding (secret : FixedBytes 32) (kyberCt : Bytes) (epoch : U64) (fromIndex recipientIndex : Nat) : Bytes :=
  secret.toList ++ (kyberCt ++ (toLe epoch ++ (indexBytes fromIndex ++ indexBytes recipientIndex)))

/-- `dkg_aead_keystream`: as many blocks as cover the length, cut to it. -/
def aeadKeystream (P : Prims) (secret : FixedBytes 32) (kyberCt : Bytes) (epoch : U64)
    (fromIndex recipientIndex len : Nat) : Bytes :=
  ((List.range ((len + 31) / 32)).flatMap fun counter =>
    (P.poseidon2Hash (aeadKsDomain ++ (binding secret kyberCt epoch fromIndex recipientIndex ++
      toLe (BitVec.ofNat 64 counter)))).toList).take len

/-- `dkg_aead_mac`. -/
def aeadMac (P : Prims) (secret : FixedBytes 32) (kyberCt : Bytes) (epoch : U64)
    (fromIndex recipientIndex : Nat) (ciphertext : Bytes) : Hash256 :=
  P.poseidon2Hash (aeadMacDomain ++ (binding secret kyberCt epoch fromIndex recipientIndex ++ ciphertext))

structure DkgShareEnvelope where
  kyberCt : Bytes
  ciphertext : Bytes
  mac : Hash256
deriving DecidableEq

/-- The part of `encrypt_share_row` after the encapsulation. -/
def sealRow (P : Prims) (row : ShareRow) (kyberCt : Bytes) (secret : FixedBytes 32) (epoch : U64)
    (fromIndex : Nat) : DkgShareEnvelope :=
  let plaintext := row.toBytes
  let ciphertext := xorBytes plaintext
    (aeadKeystream P secret kyberCt epoch fromIndex row.receiverIndex plaintext.length)
  { kyberCt, ciphertext, mac := aeadMac P secret kyberCt epoch fromIndex row.receiverIndex ciphertext }

/-- The secret that a recipient takes out of an envelope: zero if that fails. -/
def envelopeSecret (K : Kyber) (envelope : DkgShareEnvelope) (recipientSk : FixedBytes 64) : FixedBytes 32 :=
  if hsize : envelope.kyberCt.length = 1088 then
    match K.decapsulate recipientSk ⟨envelope.kyberCt, hsize⟩ with
    | .ok secret => secret
    | .error _ => zero32
  else zero32

/-- The code of an envelope under a secret. -/
def DkgShareEnvelope.authentic (P : Prims) (envelope : DkgShareEnvelope) (secret : FixedBytes 32) (epoch : U64)
    (fromIndex recipientIndex : Nat) : Bool :=
  decide (aeadMac P secret envelope.kyberCt epoch fromIndex recipientIndex envelope.ciphertext = envelope.mac)

/-- What an envelope holds under a secret. -/
def DkgShareEnvelope.plaintext (P : Prims) (envelope : DkgShareEnvelope) (secret : FixedBytes 32) (epoch : U64)
    (fromIndex recipientIndex : Nat) : Bytes :=
  xorBytes envelope.ciphertext
    (aeadKeystream P secret envelope.kyberCt epoch fromIndex recipientIndex envelope.ciphertext.length)

def decryptShareRow (P : Prims) (K : Kyber) (envelope : DkgShareEnvelope) (recipientSk : FixedBytes 64)
    (epoch : U64) (fromIndex expectedReceiverIndex : Nat) : Option ShareRow :=
  let secret := envelopeSecret K envelope recipientSk
  if !envelope.authentic P secret epoch fromIndex expectedReceiverIndex then none
  else
    match ShareRow.fromBytes (envelope.plaintext P secret epoch fromIndex expectedReceiverIndex) with
    | none => none
    | some row => if row.receiverIndex ≠ expectedReceiverIndex then none else some row

/-- `leaf_index + 1` as the release build computes it. -/
def MerkleProof.position (proof : MerkleProof) : Nat := (proof.leafIndex + 1) % 2 ^ 64

/-! ### Received shares -/

inductive ShareVerificationError where
  | commitmentSignatureInvalid
  | commitmentHeaderMismatch
  | envelopeUndecryptable
  | merkleProofPositionMismatch
  | merkleProofMismatch
deriving DecidableEq

/-- The parameters of a round that a recipient expects from a contributor. -/
structure Expected where
  epoch : U64
  fromIndex : Nat
  n : Nat
  threshold : Nat

def verifyReceivedShare (P : Prims) (K : Kyber) (envelope : DkgShareEnvelope) (proof : MerkleProof)
    (commitment : DkgCommitment) (contributorPk : FalconPublicKey) (expected : Expected) (recipientIndex : Nat)
    (recipientSk : FixedBytes 64) : Except ShareVerificationError ShareRow :=
  if !commitment.verify P contributorPk then .error .commitmentSignatureInvalid
  else if commitment.epoch ≠ expected.epoch ∨ commitment.fromIndex ≠ expected.fromIndex ∨
      commitment.n ≠ expected.n ∨ commitment.threshold ≠ expected.threshold then .error .commitmentHeaderMismatch
  else if proof.position ≠ recipientIndex then .error .merkleProofPositionMismatch
  else
    match decryptShareRow P K envelope recipientSk expected.epoch expected.fromIndex recipientIndex with
    | none => .error .envelopeUndecryptable
    | some row =>
      if !verifyMerkleProof P commitment.merkleRoot (row.leafHash P expected.epoch expected.fromIndex) proof then
        .error .merkleProofMismatch
      else .ok row

structure MasterShare where
  index : Nat
  values : ElementArray
deriving DecidableEq

def addElements (values values' : ElementArray) : ElementArray :=
  List.Vector.ofFn fun k => values.get k + values'.get k

def aggregateLocalShare (holderIndex : Nat) (rows : List ShareRow) : Except String MasterShare :=
  if rows = [] then .error "aggregate_local_share: no contributors"
  else do
    let values ← rows.foldlM (fun values row =>
      if row.receiverIndex ≠ holderIndex then .error "aggregate_local_share: row addressed to a different holder"
      else .ok (addElements values row.values)) (List.Vector.replicate seedElements 0)
    pure { index := holderIndex, values }

/-! ### Adding up rows -/

/-- The rows of a member, added up element by element. -/
def rowSum (rows : List ShareRow) (k : Fin seedElements) : GoldilocksField := (rows.map fun row => row.values.get k).sum

theorem foldlM_addElements {holderIndex : Nat} {rows : List ShareRow}
    (hrows : ∀ row ∈ rows, row.receiverIndex = holderIndex) (values : ElementArray) :
    rows.foldlM (fun values row => if row.receiverIndex ≠ holderIndex then
          .error "aggregate_local_share: row addressed to a different holder"
        else .ok (addElements values row.values)) values =
      (.ok (List.Vector.ofFn fun k => values.get k + rowSum rows k) : Except String ElementArray) := by
  induction rows generalizing values with
  | nil =>
    refine congrArg Except.ok (List.Vector.ext fun k => ?_)
    simp [rowSum]
  | cons row rows ih =>
    rw [forall_mem_cons] at hrows
    rw [foldlM_cons, if_neg (not_not.mpr hrows.1)]
    change List.foldlM _ (addElements values row.values) rows = _
    rw [ih hrows.2]
    refine congrArg Except.ok (List.Vector.ext fun k => ?_)
    simp [addElements, rowSum, add_assoc]

theorem aggregateLocalShare_eq_ok {holderIndex : Nat} {rows : List ShareRow} (hnonempty : rows ≠ [])
    (hrows : ∀ row ∈ rows, row.receiverIndex = holderIndex) :
    aggregateLocalShare holderIndex rows = .ok ⟨holderIndex, List.Vector.ofFn (rowSum rows)⟩ := by
  rw [aggregateLocalShare, if_neg hnonempty, foldlM_addElements hrows]
  refine congrArg Except.ok (congrArg (MasterShare.mk holderIndex) (List.Vector.ext fun k => ?_))
  simp

/-! ### What a recipient accepts -/

theorem receiverIndex_of_decrypt {P : Prims} {K : Kyber} {envelope : DkgShareEnvelope}
    {recipientSk : FixedBytes 64} {epoch : U64} {fromIndex receiverIndex : Nat} {row : ShareRow}
    (h : decryptShareRow P K envelope recipientSk epoch fromIndex receiverIndex = some row) :
    row.receiverIndex = receiverIndex := by
  unfold decryptShareRow at h
  dsimp only at h
  split at h
  · cases h
  split at h
  · cases h
  split at h
  · cases h
  next hindex =>
    cases h
    exact not_not.mp hindex

theorem receiverIndex_of_verify {P : Prims} {K : Kyber} {envelope : DkgShareEnvelope} {proof : MerkleProof}
    {commitment : DkgCommitment} {contributorPk : FalconPublicKey} {expected : Expected} {recipientIndex : Nat}
    {recipientSk : FixedBytes 64} {row : ShareRow}
    (h : verifyReceivedShare P K envelope proof commitment contributorPk expected recipientIndex recipientSk =
      .ok row) : row.receiverIndex = recipientIndex := by
  unfold verifyReceivedShare at h
  split at h
  · cases h
  split at h
  · cases h
  split at h
  · cases h
  split at h
  · cases h
  next hdecrypt =>
    split at h
    · cases h
    · cases h
      exact receiverIndex_of_decrypt hdecrypt

/-! ### A round -/

/-- What a contributor has sent: a commitment to all, and an envelope with a proof to each member. -/
structure Dealing where
  fromIndex : Nat
  contributorPk : FalconPublicKey
  commitment : DkgCommitment
  envelope : Nat → DkgShareEnvelope
  proof : Nat → MerkleProof

section

variable (P : Prims) (K : Kyber) (params : SharingParams) (epoch : U64)

def Accepts (recipientIndex : Nat) (recipientSk : FixedBytes 64) (dealing : Dealing) (row : ShareRow) : Prop :=
  verifyReceivedShare P K (dealing.envelope recipientIndex) (dealing.proof recipientIndex) dealing.commitment
    dealing.contributorPk ⟨epoch, dealing.fromIndex, params.n, params.t⟩ recipientIndex recipientSk = .ok row

/-- Members of the committee who accept a row from every contributor. -/
structure HonestMembers (secretKey : Nat → FixedBytes 64) (dealings : List Dealing) (honest : List Nat)
    (rows : Nat → List ShareRow) : Prop where
  distinct : honest.Nodup
  members : ∀ member ∈ honest, 1 ≤ member ∧ member ≤ params.n
  accept : ∀ member ∈ honest, List.Forall₂ (Accepts P K params epoch member (secretKey member)) dealings (rows member)

end

def masterPoints (masters : List MasterShare) (k : Fin seedElements) : List (FieldShare GoldilocksField) :=
  masters.map fun master => ⟨gl (BitVec.ofNat 64 master.index), master.values.get k⟩

/-- Any two choices of as many aggregated shares as the threshold says reconstruct the same secret. -/
def SharesAgree (params : SharingParams) (honest : List Nat) (rows : Nat → List ShareRow) : Prop :=
  ∀ masters, List.Forall₂ (fun member master =>
    aggregateLocalShare member (rows member) = .ok master) honest masters →
    ∀ k, Agree params.t (masterPoints masters k)

/-- The sums of the members' rows are, for every element, the values of a polynomial of low degree. -/
def LowDegree (params : SharingParams) (honest : List Nat) (rows : Nat → List ShareRow) : Prop :=
  ∀ k, OnPolynomial params.t
    (honest.map fun member => ⟨gl (BitVec.ofNat 64 member), rowSum (rows member) k⟩)

/-- If honest members accept the same dealings, any threshold of them reconstructs the same key just if every dealing
gave them values of a polynomial of low degree, which the commitments do not show. -/
theorem shares_agree_iff_low_degree (P : Prims) (K : Kyber) (params : SharingParams) (epoch : U64)
    (secretKey : Nat → FixedBytes 64) (dealings : List Dealing) (honest : List Nat) (rows : Nat → List ShareRow)
    (h : HonestMembers P K params epoch secretKey dealings honest rows) :
    SharesAgree params honest rows ↔ LowDegree params honest rows := by
  have hfits := params.fits
  have haddressed : ∀ member ∈ honest, ∀ row ∈ rows member, row.receiverIndex = member := by
    intro member hmember row hrow
    obtain ⟨dealing, -, haccepts⟩ := exists_mem_of_forall₂ (h.accept member hmember) hrow
    exact receiverIndex_of_verify haccepts
  -- the shares that the members aggregate, if there is anything to aggregate
  let masters : List MasterShare := honest.map fun member => ⟨member, List.Vector.ofFn (rowSum (rows member))⟩
  have hpoints : ∀ k, masterPoints masters k =
      honest.map fun member => ⟨gl (BitVec.ofNat 64 member), rowSum (rows member) k⟩ := by
    intro k
    simp [masters, masterPoints, Function.comp_def]
  have hlibrary : ∀ k, Agree params.t (masterPoints masters k) ↔
      OnPolynomial params.t (masterPoints masters k) := by
    intro k
    apply agree_iff_onPolynomial params.one_le
    · rw [hpoints, map_map]
      refine h.distinct.map_on fun a ha b hb hequal => ?_
      have hrange := h.members a ha
      have hrange' := h.members b hb
      exact gl_ofNat_inj (by omega) (by omega) hequal
    · rw [hpoints]
      intro share hshare
      obtain ⟨member, hmember, rfl⟩ := List.mem_map.mp hshare
      have hrange := h.members member hmember
      intro hzero
      have hindex : member = 0 := gl_ofNat_inj (by omega) (by decide) hzero
      omega
  by_cases hdealings : dealings = []
  · -- without contributors nobody has a share
    have hnothing : ∀ member ∈ honest, rows member = [] := by
      intro member hmember
      have haccept := h.accept member hmember
      rw [hdealings, forall₂_nil_left_iff] at haccept
      exact haccept
    refine iff_of_true (fun masters' hmasters k => ?_) fun k => ⟨0, by simp, ?_⟩
    · cases hmasters with
      | nil => exact OnPolynomial.agree ⟨0, by simp, by simp [masterPoints]⟩
      | cons haggregate _ =>
        rw [hnothing _ mem_cons_self] at haggregate
        cases haggregate
    · intro share hshare
      obtain ⟨member, hmember, rfl⟩ := List.mem_map.mp hshare
      simp [hnothing member hmember, rowSum]
  · have haggregate : ∀ member ∈ honest, aggregateLocalShare member (rows member) =
        .ok ⟨member, List.Vector.ofFn (rowSum (rows member))⟩ := by
      intro member hmember
      refine aggregateLocalShare_eq_ok (fun hempty => ?_) (haddressed member hmember)
      have haccept := h.accept member hmember
      rw [hempty, forall₂_nil_right_iff] at haccept
      exact hdealings haccept
    constructor
    · intro hagree k
      have hmasters : List.Forall₂ (fun member master => aggregateLocalShare member (rows member) = .ok master)
          honest masters := List.forall₂_map_right_iff.mpr (List.forall₂_same.mpr haggregate)
      rw [← hpoints]
      exact (hlibrary k).mp (hagree masters hmasters k)
    · intro hlow masters' hmasters k
      have hsame : masters' = masters := by
        apply eq_map_of_forall₂ hmasters
        intro member hmember master hok
        rw [haggregate member hmember] at hok
        exact (Except.ok.inj hok).symm
      rw [hsame, hlibrary k, hpoints]
      exact hlow k

/-! ### Rounds that can be evaluated -/

/-- The secret key of a member, and its public key. -/
def memberSeed (member : Nat) : FixedBytes 64 := padded 64 [BitVec.ofNat 8 member]

def constantRow (receiverIndex : Nat) (value : GoldilocksField) : ShareRow :=
  ⟨receiverIndex, List.Vector.replicate seedElements value⟩

def dealingOf (fromIndex threshold : Nat) (rows : List ShareRow) : Dealing :=
  let leaves := rows.map fun row => row.leafHash stamped 1 fromIndex
  { fromIndex
    contributorPk := ⟨lucidKey 8⟩
    commitment :=
      { epoch := 1
        fromIndex
        n := rows.length
        threshold
        merkleRoot := computeMerkleRoot stamped leaves 1 fromIndex
        signature := (stamp [8]).bytes }
    envelope := fun member => sealRow stamped (rows.getD (member - 1) (constantRow 0 0)) (padded 1088 []).toList
      (padded 32 (memberSeed member).toList) 1 fromIndex
    proof := fun member => (merkleProof stamped leaves (member - 1) 1 fromIndex).getD ⟨0, []⟩ }

def lineRow (member : Nat) : ShareRow := constantRow member (gl 5 + gl 7 * gl (BitVec.ofNat 64 member))

instance (P : Prims) (K : Kyber) (params : SharingParams) (epoch : U64) (recipientIndex : Nat)
    (recipientSk : FixedBytes 64) (dealing : Dealing) (row : ShareRow) :
    Decidable (Accepts P K params epoch recipientIndex recipientSk dealing row) :=
  inferInstanceAs (Decidable (_ = _))

theorem shares_agree_iff_low_degree_line : SharesAgree lineParams [1, 2, 3] fun member => [lineRow member] := by
  have haccepts : ∀ member ∈ [1, 2, 3], Accepts stamped openKyber lineParams 1 member (memberSeed member)
      (dealingOf 1 2 [lineRow 1, lineRow 2, lineRow 3]) (lineRow member) := by decide +kernel
  have hhonest : HonestMembers stamped openKyber lineParams 1 memberSeed
      [dealingOf 1 2 [lineRow 1, lineRow 2, lineRow 3]] [1, 2, 3] fun member => [lineRow member] :=
    ⟨by decide, by decide, fun member hmember => .cons (haccepts member hmember) .nil⟩
  rw [shares_agree_iff_low_degree stamped openKyber lineParams 1 memberSeed _ _ _ hhonest]
  intro k
  refine ⟨C (gl 7) * X + C (gl 5), degree_linear_le.trans_lt (by decide), ?_⟩
  intro share hshare
  obtain ⟨member, -, rfl⟩ := List.mem_map.mp hshare
  simp [rowSum, lineRow, constantRow, add_comm]

/-- Two members, of whom each is enough. -/
def eitherParams : SharingParams := ⟨2, 1, by decide, lineParams.one_le, by decide⟩

/-- Rows that belong to no constant. -/
def unequalRow (member : Nat) : ShareRow := constantRow member (gl 5 + gl (BitVec.ofNat 64 member))

/-- Both members accept their rows, and one has a share of six, the other of seven. -/
theorem accepted_rows_disagree :
    (∀ member ∈ [1, 2], Accepts stamped openKyber eitherParams 1 member (memberSeed member)
        (dealingOf 1 1 [unequalRow 1, unequalRow 2]) (unequalRow member)) ∧
      ¬ SharesAgree eitherParams [1, 2] fun member => [unequalRow member] := by
  refine ⟨by decide +kernel, fun hagree => ?_⟩
  have hmasters : List.Forall₂ (fun member master => aggregateLocalShare member [unequalRow member] = .ok master)
      [1, 2] [⟨1, List.Vector.replicate seedElements 6⟩, ⟨2, List.Vector.replicate seedElements 7⟩] :=
    .cons (by decide +kernel) (.cons (by decide +kernel) .nil)
  have hsame := hagree _ hmasters ⟨0, by decide⟩ [⟨gl 1, 6⟩] [⟨gl 2, 7⟩]
    ⟨by simp [masterPoints], by simp, rfl⟩ ⟨by simp [masterPoints], by simp, rfl⟩
  exact absurd hsame (by decide +kernel)

end Pyde.Dkg
