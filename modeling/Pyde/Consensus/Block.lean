/-
Module: Pyde.Consensus.Block
Purpose: Quorum certificates, block headers with their hash preimages, block bodies, and view-change messages with their
  certificate and the marker of a recovery view in a header.
Trusted boundary: Prims
-/
import Pyde.Library.VoterTally
import Pyde.Tx.Parallel
import Pyde.Mempool.Encrypted

namespace Pyde

open ByteCodec VoterSet

/-- `EPOCH_LENGTH`: blocks per epoch. -/
def epochLength : U64 := 1000

/-- `quorum_for_committee`: two thirds of the committee, rounded up. -/
def quorumForCommittee (committeeSize : Nat) : Nat := if committeeSize = 0 then 0 else (2 * committeeSize + 2) / 3

/-- A count reaches the quorum exactly when it is at least two thirds. -/
theorem quorumForCommittee_le_iff {n k : Nat} : quorumForCommittee n ≤ k ↔ 2 * n ≤ 3 * k := by
  unfold quorumForCommittee
  split <;> omega

theorem quorumForCommittee_pos {n : Nat} (hn : 0 < n) : 0 < quorumForCommittee n := by
  unfold quorumForCommittee
  split <;> omega

example : quorumForCommittee 128 = 86 := by decide

/-- Quorum certificate: proof that two thirds of the validators voted for a block. -/
structure QuorumCert where
  slot : U64
  blockHash : Hash256
  voterBitmap : U128
  signatures : List Bytes
deriving DecidableEq

namespace QuorumCert

def voteCount (qc : QuorumCert) : Nat := countOnes qc.voterBitmap

/-- `has_quorum_for`: the bitmap claims a quorum. No signature is looked at. -/
def hasQuorumFor (qc : QuorumCert) (committeeSize : Nat) : Bool :=
  decide (quorumForCommittee committeeSize ≤ qc.voteCount)

/-- The 56 bytes hashed by `QuorumCert::hash`; the signatures are not among them. -/
def preimage (qc : QuorumCert) : Bytes := toLe qc.slot ++ (qc.blockHash.toList ++ toLe qc.voterBitmap)

def hash (P : Prims) (qc : QuorumCert) : Hash256 := P.poseidon2Hash qc.preimage

/-- `QuorumCert::empty`, the certificate of the genesis block. -/
def empty : QuorumCert := { slot := 0#64, blockHash := zero32, voterBitmap := 0#128, signatures := [] }

theorem preimage_inj {qc qc' : QuorumCert} :
    qc.preimage = qc'.preimage ↔
      qc.slot = qc'.slot ∧ qc.blockHash = qc'.blockHash ∧ qc.voterBitmap = qc'.voterBitmap := by
  rw [preimage, preimage, toLe_append_inj (by decide), toList_append_inj, toLe_inj (by decide)]

end QuorumCert

structure BlockHeader where
  slot : U64
  epoch : U64
  parentHash : Hash256
  proposer : Address
  vrfProof : Bytes
  qcPrevious : QuorumCert
  txRoot : Hash256
  stateRoot : Hash256
  timestamp : U64
deriving DecidableEq

namespace BlockHeader

/-- The 184 bytes hashed by `BlockHeader::hash`. The state root is left out: it is not known when the
block is proposed. -/
def preimage (P : Prims) (header : BlockHeader) : Bytes :=
  toLe header.slot ++ (toLe header.epoch ++ (header.parentHash.toList ++
    (header.proposer.toList ++ ((P.poseidon2Hash header.vrfProof).toList ++
      (header.txRoot.toList ++ (toLe header.timestamp ++ (header.qcPrevious.hash P).toList))))))

def hash (P : Prims) (header : BlockHeader) : Hash256 := P.poseidon2Hash (header.preimage P)

/-- What the hash commits to: everything but the state root and the signatures inside the previous
certificate. -/
def committed (header : BlockHeader) : BlockHeader :=
  { header with stateRoot := zero32, qcPrevious := { header.qcPrevious with signatures := [] } }

theorem fields_eq_of_committed_eq {header header' : BlockHeader} (h : header.committed = header'.committed) :
    header.slot = header'.slot ∧ header.proposer = header'.proposer ∧
      header.timestamp = header'.timestamp ∧ header.txRoot = header'.txRoot := by
  simp only [committed, BlockHeader.mk.injEq] at h
  obtain ⟨hslot, _, _, hproposer, _, _, hroot, _, htime⟩ := h
  exact ⟨hslot, hproposer, htime, hroot⟩

/-- The strings a header hash is computed from. -/
def hashInputs (P : Prims) (header : BlockHeader) : Set Bytes :=
  {header.preimage P, header.vrfProof, header.qcPrevious.preimage}

/-- Where Poseidon2 does not collide, equal hashes mean equal committed parts. -/
theorem committed_eq_of_hash_eq {P : Prims} {preimages : Set Bytes}
    (hfree : P.CollisionFreeOn preimages) {header header' : BlockHeader}
    (hin : header.hashInputs P ⊆ preimages) (hin' : header'.hashInputs P ⊆ preimages)
    (h : header.hash P = header'.hash P) : header.committed = header'.committed := by
  have hpre : header.preimage P = header'.preimage P :=
    hfree (hin (by simp [hashInputs])) (hin' (by simp [hashInputs])) h
  unfold preimage at hpre
  rw [toLe_append_inj (by decide), toLe_append_inj (by decide), toList_append_inj,
    toList_append_inj, toList_append_inj, toList_append_inj, toLe_append_inj (by decide)] at hpre
  obtain ⟨hslot, hepoch, hparent, hproposer, hvrf, hroot, htime, hqc⟩ := hpre
  have hvrf' : header.vrfProof = header'.vrfProof :=
    hfree (hin (by simp [hashInputs])) (hin' (by simp [hashInputs])) hvrf
  have hqc' : header.qcPrevious.preimage = header'.qcPrevious.preimage :=
    hfree (hin (by simp [hashInputs])) (hin' (by simp [hashInputs])) (List.Vector.eq _ _ hqc)
  obtain ⟨hqcSlot, hqcHash, hqcBitmap⟩ := QuorumCert.preimage_inj.mp hqc'
  simp only [committed, BlockHeader.mk.injEq, QuorumCert.mk.injEq]
  exact ⟨hslot, hepoch, hparent, hproposer, hvrf', ⟨hqcSlot, hqcHash, hqcBitmap, trivial⟩, hroot,
    trivial, htime⟩

end BlockHeader

open List

/-- `BlockBody`. The encrypted transactions are opaque blobs; the schedule is what the proposer put
there. -/
structure BlockBody where
  transactions : List Transaction
  encryptedTxs : List Bytes
  executionSchedule : ExecutionSchedule

/-- `Block`; the proposer's signature is not read when a block is processed. -/
structure Block where
  header : BlockHeader
  body : BlockBody

section

variable (P : Prims)

/-- The bytes hashed by `compute_tx_root`: plaintext hashes first, then encrypted ones. -/
def txRootPreimage (txs : List Transaction) (encryptedTxHashes : List Hash256) : Bytes :=
  keyBytes (txs.map (Transaction.hash P) ++ encryptedTxHashes)

def computeTxRoot (txs : List Transaction) (encryptedTxHashes : List Hash256) : Hash256 :=
  if txs = [] ∧ encryptedTxHashes = [] then zero32
  else P.poseidon2Hash (txRootPreimage P txs encryptedTxHashes)

def verifyTxRoot (committedTxRoot : Hash256) (txs : List Transaction)
    (encryptedTxHashes : List Hash256) : Bool :=
  decide (computeTxRoot P txs encryptedTxHashes = committedTxRoot)

namespace BlockBody

/-- The encrypted transactions that decode; a blob that does not is passed over. -/
def decodedTxs (body : BlockBody) : List EncryptedTx := body.encryptedTxs.filterMap EncryptedTx.fromBytes

def encryptedTxHashes (body : BlockBody) : List Hash256 := body.decodedTxs.map (EncryptedTx.hash P)

end BlockBody

/-- The strings hashed on the way to the hash of a block. -/
def Block.hashInputs (block : Block) : Set Bytes :=
  block.header.hashInputs P ∪ {txRootPreimage P block.body.transactions (block.body.encryptedTxHashes P)} ∪
    (⋃ tx ∈ block.body.transactions, tx.hashInputs P) ∪
    ⋃ etx ∈ block.body.decodedTxs, {etx.preimage P}

/-- The transactions of the block do not hash to the root that stands for an empty body. -/
def Block.RootNonzero (block : Block) : Prop :=
  P.poseidon2Hash (txRootPreimage P block.body.transactions (block.body.encryptedTxHashes P)) ≠ zero32

instance (block : Block) : Decidable (block.RootNonzero P) := inferInstanceAs (Decidable (_ ≠ _))

end

/-! ### What the root commits to -/

theorem length_keyBytes (keys : List (FixedBytes 32)) : (keyBytes keys).length = 32 * keys.length :=
  (length_flatMap_blocks fun key _ => key.toList_length).trans (Nat.mul_comm _ _)

theorem keyBytes_inj {ks ks' : List (FixedBytes 32)} : keyBytes ks = keyBytes ks' ↔ ks = ks' := by
  constructor
  · intro h
    have hlen : ks.length = ks'.length := by
      have hbytes := congrArg List.length h
      rw [length_keyBytes, length_keyBytes] at hbytes
      omega
    have hsplit : keyBytes ks ++ [] = keyBytes ks' ++ [] ↔ ks = ks' ∧ ([] : Bytes) = [] := keyBytes_append_inj hlen
    rw [append_nil, append_nil] at hsplit
    exact (hsplit.mp h).1
  · rintro rfl
    rfl

/-- Where the elements of the first parts have a property that those of the second parts lack, two
equal concatenations are cut at one place. -/
theorem append_inj_of_separated {α : Type*} {p : α → Prop} {xs ys xs' ys' : List α}
    (h : xs ++ ys = xs' ++ ys') (hxs : ∀ a ∈ xs, p a) (hys : ∀ a ∈ ys, ¬ p a)
    (hxs' : ∀ a ∈ xs', p a) (hys' : ∀ a ∈ ys', ¬ p a) : xs = xs' ∧ ys = ys' := by
  classical
  have hfilter : ∀ {xs ys : List α}, (∀ a ∈ xs, p a) → (∀ a ∈ ys, ¬ p a) →
      (xs ++ ys).filter (p ·) = xs := by
    intro xs ys hxs hys
    rw [filter_append, filter_eq_self.mpr (by simpa using hxs), filter_eq_nil_iff.mpr (by simpa using hys), append_nil]
  have hsame : xs = xs' := by rw [← hfilter hxs hys, h, hfilter hxs' hys']
  rw [hsame] at h
  exact ⟨hsame, append_cancel_left h⟩

theorem forall₂_of_map_eq {α β : Type*} {f : α → β} {R : α → α → Prop} {xs ys : List α}
    (h : xs.map f = ys.map f) (hR : ∀ x ∈ xs, ∀ y ∈ ys, f x = f y → R x y) : List.Forall₂ R xs ys := by
  rw [← forall₂_eq_eq_eq, forall₂_map_left_iff, forall₂_map_right_iff, forall₂_iff_zip] at h
  refine forall₂_iff_zip.mpr ⟨h.1, fun hxy => ?_⟩
  obtain ⟨hx, hy⟩ := of_mem_zip hxy
  exact hR _ hx _ hy (h.2 hxy)

section

variable {P : Prims} {preimages : Set Bytes} {block block' : Block}

/-- Equal roots come from equal sequences of hashes, unless a string hashes to the root of the empty
body. -/
theorem computeTxRoot_inj (hfree : P.CollisionFreeOn preimages) {txs txs' : List Transaction}
    {encrypted encrypted' : List Hash256} (hin : txRootPreimage P txs encrypted ∈ preimages)
    (hin' : txRootPreimage P txs' encrypted' ∈ preimages)
    (hzero : P.poseidon2Hash (txRootPreimage P txs encrypted) ≠ zero32)
    (hzero' : P.poseidon2Hash (txRootPreimage P txs' encrypted') ≠ zero32)
    (h : computeTxRoot P txs encrypted = computeTxRoot P txs' encrypted') :
    txs.map (Transaction.hash P) ++ encrypted = txs'.map (Transaction.hash P) ++ encrypted' := by
  unfold computeTxRoot at h
  split at h <;> split at h
  · rename_i hempty hempty'
    rw [hempty.1, hempty.2, hempty'.1, hempty'.2]
  · exact absurd h.symm hzero'
  · exact absurd h hzero
  · exact keyBytes_inj.mp (hfree hin hin' h)

theorem Block.mem_hashInputs_txRoot (block : Block) :
    txRootPreimage P block.body.transactions (block.body.encryptedTxHashes P) ∈ block.hashInputs P := by
  simp [Block.hashInputs]

theorem Block.header_hashInputs_subset (block : Block) : block.header.hashInputs P ⊆ block.hashInputs P := by
  intro bytes hbytes
  simp [Block.hashInputs, hbytes]

theorem Block.tx_hashInputs_subset {tx : Transaction} (htx : tx ∈ block.body.transactions) :
    tx.hashInputs P ⊆ block.hashInputs P := by
  intro bytes hbytes
  simp only [Block.hashInputs, Set.mem_union, Set.mem_iUnion]
  exact .inl (.inr ⟨tx, htx, hbytes⟩)

theorem Block.mem_hashInputs_encrypted {etx : EncryptedTx} (hetx : etx ∈ block.body.decodedTxs) :
    etx.preimage P ∈ block.hashInputs P := by
  simp only [Block.hashInputs, Set.mem_union, Set.mem_iUnion]
  exact .inr ⟨etx, hetx, rfl⟩

/-- The hash of no encrypted transaction in play is that of a plaintext transaction in play. -/
theorem encrypted_hash_ne (hfree : P.CollisionFreeOn preimages) (hin : block.hashInputs P ⊆ preimages)
    (hin' : block'.hashInputs P ⊆ preimages) {tx : Transaction} (htx : tx ∈ block.body.transactions)
    {hash : Hash256} (hhash : hash ∈ block'.body.encryptedTxHashes P) : tx.hash P ≠ hash := by
  obtain ⟨etx, hetx, rfl⟩ := List.mem_map.mp hhash
  intro heq
  have htxIn : tx.preimage P ∈ preimages := hin (Block.tx_hashInputs_subset htx (by simp [Transaction.hashInputs]))
  exact tx.preimage_ne_encrypted P etx (hfree htxIn (hin' (Block.mem_hashInputs_encrypted hetx)) heq)

/-- Two bodies that match one transaction root have the same plaintext transactions, up to their
signatures. -/
theorem Block.transactions_unsigned_eq (hfree : P.CollisionFreeOn preimages)
    (hzero : block.RootNonzero P) (hzero' : block'.RootNonzero P) (hin : block.hashInputs P ⊆ preimages)
    (hin' : block'.hashInputs P ⊆ preimages) (hfit : ∀ tx ∈ block.body.transactions, tx.CountsFit)
    (hfit' : ∀ tx ∈ block'.body.transactions, tx.CountsFit)
    (hroot : computeTxRoot P block.body.transactions (block.body.encryptedTxHashes P) =
      computeTxRoot P block'.body.transactions (block'.body.encryptedTxHashes P)) :
    List.Forall₂ (fun tx tx' => tx.unsigned = tx'.unsigned) block.body.transactions block'.body.transactions := by
  have hseq := computeTxRoot_inj hfree (hin block.mem_hashInputs_txRoot)
    (hin' block'.mem_hashInputs_txRoot) hzero hzero' hroot
  -- the property that tells the two kinds apart: being the hash of a transaction of either block
  let plain : Hash256 → Prop := fun hash =>
    ∃ tx, (tx ∈ block.body.transactions ∨ tx ∈ block'.body.transactions) ∧ tx.hash P = hash
  have hplain : ∀ hash ∈ block.body.transactions.map (Transaction.hash P), plain hash := by
    intro hash hhash
    obtain ⟨tx, htx, rfl⟩ := List.mem_map.mp hhash
    exact ⟨tx, .inl htx, rfl⟩
  have hplain' : ∀ hash ∈ block'.body.transactions.map (Transaction.hash P), plain hash := by
    intro hash hhash
    obtain ⟨tx, htx, rfl⟩ := List.mem_map.mp hhash
    exact ⟨tx, .inr htx, rfl⟩
  have hencrypted : ∀ hash ∈ block.body.encryptedTxHashes P, ¬ plain hash := by
    rintro hash hhash ⟨tx, htx | htx, heq⟩
    · exact encrypted_hash_ne hfree hin hin htx hhash heq
    · exact encrypted_hash_ne hfree hin' hin htx hhash heq
  have hencrypted' : ∀ hash ∈ block'.body.encryptedTxHashes P, ¬ plain hash := by
    rintro hash hhash ⟨tx, htx | htx, heq⟩
    · exact encrypted_hash_ne hfree hin hin' htx hhash heq
    · exact encrypted_hash_ne hfree hin' hin' htx hhash heq
  obtain ⟨hhashes, -⟩ := append_inj_of_separated hseq hplain hencrypted hplain' hencrypted'
  refine forall₂_of_map_eq hhashes fun tx htx tx' htx' heq => ?_
  exact (Transaction.hash_inj hfree ((Block.tx_hashInputs_subset htx).trans hin)
    ((Block.tx_hashInputs_subset htx').trans hin') (hfit tx htx) (hfit' tx' htx')).mp heq

end

end Pyde

namespace Pyde

open ByteCodec VoterSet List

/-! ### Bits of a voter bitmap -/

/-- `bitmap & (1u128 << idx) != 0`; a shift distance is taken modulo the word size. -/
def hasVoter (bitmap : U128) (idx : Nat) : Bool := bitmap &&& (1#128 <<< (idx % 128)) != 0#128

/-- `bitmap | (1u128 << idx)`. -/
def addVoter (bitmap : U128) (idx : Nat) : U128 := setBit bitmap (idx % 128)

variable {bitmap : U128}

theorem hasVoter_eq {idx : Nat} (h : idx < 128) : hasVoter bitmap idx = bitmap.getLsbD idx := by
  unfold hasVoter
  rw [Nat.mod_eq_of_lt h]
  cases hbit : bitmap.getLsbD idx with
  | false => simp [(and_shiftLeft_eq_zero_iff h).mpr hbit]
  | true =>
    have hne : ¬ bitmap &&& (1#128 <<< idx) = 0#128 := by
      rw [and_shiftLeft_eq_zero_iff h, hbit]
      simp
    simpa using hne

theorem hasVoter_eq_getLsbD (bitmap : U128) (idx : Nat) : hasVoter bitmap idx = bitmap.getLsbD (idx % 128) := by
  rw [← hasVoter_eq (Nat.mod_lt idx (by decide))]
  unfold hasVoter
  rw [Nat.mod_mod]

theorem addVoter_eq {idx : Nat} (h : idx < 128) : addVoter bitmap idx = setBit bitmap idx := by
  rw [addVoter, Nat.mod_eq_of_lt h]

/-! ### View-change messages -/

/-- A view-change message, broadcast when a proposer fails. -/
structure ViewChangeMessage where
  slot : U64
  highestQc : QuorumCert
  voterIndex : U8
  voterAddress : Address
  signature : Bytes
deriving DecidableEq

structure ViewChangeQC where
  slot : U64
  highestQc : QuorumCert
  voterBitmap : U128
  voteCount : Nat
deriving DecidableEq

/-- The domain tag `b"view_change"`. -/
def viewChangeTag : Bytes := [0x76, 0x69, 0x65, 0x77, 0x5f, 0x63, 0x68, 0x61, 0x6e, 0x67, 0x65]

/-- `view_change_sign_message_from_hash`: 59 bytes. -/
def viewChangeSignMessageFromHash (chainId slot : U64) (highestQcHash : Hash256) : Bytes :=
  viewChangeTag ++ (toLe chainId ++ (toLe slot ++ highestQcHash.toList))

def viewChangeSignMessage (P : Prims) (chainId slot : U64) (highestQc : QuorumCert) : Bytes :=
  viewChangeSignMessageFromHash chainId slot (highestQc.hash P)

variable {chainId slot : U64}

theorem viewChangeSignMessageFromHash_inj {chainId' slot' : U64} {h h' : Hash256} :
    viewChangeSignMessageFromHash chainId slot h = viewChangeSignMessageFromHash chainId' slot' h' ↔
      chainId = chainId' ∧ slot = slot' ∧ h = h' := by
  unfold viewChangeSignMessageFromHash
  rw [append_cancel_left_eq, toLe_append_inj (by decide), toLe_append_inj (by decide), List.Vector.toList_injective.eq_iff]

@[simp] theorem length_viewChangeSignMessageFromHash (chainId slot : U64) (h : Hash256) :
    (viewChangeSignMessageFromHash chainId slot h).length = 59 := by
  simp [viewChangeSignMessageFromHash, viewChangeTag]

def createViewChange (P : Prims) (chainId slot : U64) (highestQc : QuorumCert)
    (voterIndex : U8) (voterAddress : Address) (voterSk : FalconSecretKey) (coins : Bytes) :
    Except String ViewChangeMessage :=
  match P.falconSign voterSk (viewChangeSignMessage P chainId slot highestQc) coins with
  | none => .error "view change signing failed"
  | some sig => .ok { slot, highestQc, voterIndex, voterAddress, signature := sig.bytes }

def verifyViewChange (P : Prims) (chainId : U64) (msg : ViewChangeMessage)
    (pk : Bytes) : Bool :=
  P.verifyRaw pk (viewChangeSignMessage P chainId msg.slot msg.highestQc) msg.signature

/-! ### Aggregation -/

/-- The variables of the loop in `try_form_view_change_qc`. -/
structure ViewChangeTally where
  voterBitmap : U128
  validCount : Nat
  highestQc : QuorumCert
deriving DecidableEq

namespace ViewChangeTally

def init : ViewChangeTally := { voterBitmap := 0#128, validCount := 0, highestQc := QuorumCert.empty }

/-- One turn of the loop. A reported certificate is taken over on its bitmap alone: the signatures
inside it are not verified here. -/
def count (P : Prims) (chainId slot : U64) (keys : List Bytes)
    (tally : ViewChangeTally) (msg : ViewChangeMessage) : ViewChangeTally :=
  if msg.slot ≠ slot then tally
  else
    let idx := msg.voterIndex.toNat
    if keys.length ≤ idx then tally
    else if hasVoter tally.voterBitmap idx then tally
    else if verifyViewChange P chainId msg (keys.getD idx []) then
      { voterBitmap := addVoter tally.voterBitmap idx
        validCount := tally.validCount + 1
        highestQc :=
          if tally.highestQc.slot < msg.highestQc.slot ∧
              msg.highestQc.hasQuorumFor keys.length = true then msg.highestQc
          else tally.highestQc }
    else tally

/-- One turn keeps the reported certificate or takes the message's, which is then newer and claims a
quorum. -/
theorem count_highestQc (P : Prims) (chainId slot : U64) (keys : List Bytes)
    (tally : ViewChangeTally) (msg : ViewChangeMessage) :
    (count P chainId slot keys tally msg).highestQc = tally.highestQc ∨
      ((count P chainId slot keys tally msg).highestQc = msg.highestQc ∧
        tally.highestQc.slot < msg.highestQc.slot ∧ msg.highestQc.hasQuorumFor keys.length = true) := by
  unfold count
  by_cases hslot : msg.slot ≠ slot
  · exact .inl (by rw [if_pos hslot])
  rw [if_neg hslot]
  by_cases hidx : keys.length ≤ msg.voterIndex.toNat
  · exact .inl (by simp [hidx])
  cases hseen : hasVoter tally.voterBitmap msg.voterIndex.toNat with
  | true => exact .inl (by simp [hidx, hseen])
  | false =>
    cases hok : verifyViewChange P chainId msg
        (keys.getD msg.voterIndex.toNat []) with
    | false => exact .inl (by simp only [hidx, hseen, hok]; rfl)
    | true =>
      simp only [hidx, hseen, hok]
      by_cases hnew : tally.highestQc.slot < msg.highestQc.slot ∧
          msg.highestQc.hasQuorumFor keys.length = true
      · exact .inr ⟨by simp [hnew], hnew⟩
      · exact .inl (by simp [hnew])

/-- What holds of the genesis certificate and of every newer quorum claim among the messages holds of
the certificate that the loop reports. -/
theorem foldl_highestQc (P : Prims) (chainId slot : U64) (keys : List Bytes) {Good : QuorumCert → Prop}
    {msgs : List ViewChangeMessage} {tally : ViewChangeTally} (hstart : Good tally.highestQc)
    (hmsgs : ∀ msg ∈ msgs, tally.highestQc.slot < msg.highestQc.slot →
      msg.highestQc.hasQuorumFor keys.length = true → Good msg.highestQc) :
    Good (msgs.foldl (count P chainId slot keys) tally).highestQc := by
  -- a newer certificate only raises the bar for the rest of the messages
  refine (foldlRecOn (motive := fun t : ViewChangeTally => Good t.highestQc ∧
    tally.highestQc.slot ≤ t.highestQc.slot) msgs _
    ⟨hstart, BitVec.le_refl _⟩ fun t ⟨hgood, hraised⟩ msg hmsg => ?_).1
  rcases count_highestQc P chainId slot keys t msg with hkeep | ⟨htake, hlt, hquorum⟩
  · rw [hkeep]
    exact ⟨hgood, hraised⟩
  · rw [htake]
    exact ⟨hmsgs msg hmsg (by bv_omega) hquorum, by bv_omega⟩

end ViewChangeTally

def tryFormViewChangeQc (P : Prims) (chainId slot : U64) (msgs : List ViewChangeMessage)
    (keys : List Bytes) : Option ViewChangeQC :=
  let tally := msgs.foldl (ViewChangeTally.count P chainId slot keys)
    ViewChangeTally.init
  if quorumForCommittee keys.length ≤ tally.validCount then
    some { slot, highestQc := tally.highestQc, voterBitmap := tally.voterBitmap, voteCount := tally.validCount }
  else none

variable {P : Prims} {keys : List Bytes} {vcQc : ViewChangeQC} {msg : ViewChangeMessage}
  {msgs : List ViewChangeMessage}

theorem tryFormViewChangeQc_highestQc {Good : QuorumCert → Prop}
    (hform : tryFormViewChangeQc P chainId slot msgs keys = some vcQc) (hgenesis : Good QuorumCert.empty)
    (hmsgs : ∀ msg ∈ msgs, 0#64 < msg.highestQc.slot →
      msg.highestQc.hasQuorumFor keys.length = true → Good msg.highestQc) :
    Good vcQc.highestQc := by
  simp only [tryFormViewChangeQc] at hform
  split at hform
  · injection hform with hform
    rw [← hform]
    exact ViewChangeTally.foldl_highestQc P chainId slot keys hgenesis hmsgs
  · cases hform

def viewChangeVoter (P : Prims) (chainId slot : U64) (keys : List Bytes)
    (msg : ViewChangeMessage) : Option Nat :=
  if msg.slot = slot ∧ msg.voterIndex.toNat < keys.length ∧
      verifyViewChange P chainId msg (keys.getD msg.voterIndex.toNat []) = true then
    some msg.voterIndex.toNat
  else none

theorem viewChangeVoter_eq_some {i : Nat} (h : viewChangeVoter P chainId slot keys msg = some i) :
    i = msg.voterIndex.toNat ∧ msg.slot = slot ∧ msg.voterIndex.toNat < keys.length ∧
      verifyViewChange P chainId msg (keys.getD msg.voterIndex.toNat []) = true := by
  unfold viewChangeVoter at h
  split at h
  next hvalid =>
    cases h
    exact ⟨rfl, hvalid⟩
  next => cases h

namespace ViewChangeTally

variable {P : Prims} {chainId slot : U64} {keys : List Bytes}

/-- A message that does not count leaves the variables as they are. -/
theorem count_of_none (h : viewChangeVoter P chainId slot keys msg = none)
    (tally : ViewChangeTally) : count P chainId slot keys tally msg = tally := by
  unfold viewChangeVoter at h
  split at h
  next => cases h
  rename_i hnot
  unfold count
  dsimp only
  split
  next => rfl
  rename_i hslot
  split
  next => rfl
  rename_i hidx
  split
  next => rfl
  next =>
    split
    next hok => exact absurd ⟨not_not.mp hslot, Nat.lt_of_not_le hidx, hok⟩ hnot
    next => rfl

theorem foldl_count (msgs : List ViewChangeMessage) :
    let tally := msgs.foldl (count P chainId slot keys) init
    let voters := VoterTally.countAll (w := 128) (viewChangeVoter P chainId slot keys) msgs
    tally.voterBitmap = voters.bitmap ∧ tally.validCount = voters.counted.length := by
  refine foldl_rel (r := fun (tally : ViewChangeTally) (voters : VoterTally 128 ViewChangeMessage) =>
    tally.voterBitmap = voters.bitmap ∧ tally.validCount = voters.counted.length) ⟨rfl, rfl⟩ ?_
  intro msg _ tally voters h
  cases hvoter : viewChangeVoter P chainId slot keys msg with
  | none =>
    rw [count_of_none hvoter, VoterTally.count, hvoter]
    exact h
  | some i =>
    obtain ⟨rfl, hslot, hidx, hok⟩ := viewChangeVoter_eq_some hvoter
    unfold count VoterTally.count
    rw [hvoter, if_neg (not_not.mpr hslot)]
    dsimp only
    rw [if_neg (Nat.not_le.mpr hidx), hasVoter_eq_getLsbD, h.1]
    split
    · exact h
    · rw [length_append, h.2]
      exact ⟨rfl, rfl⟩

end ViewChangeTally

/-- A certificate is formed from messages of a quorum of distinct committee members. -/
theorem exists_voters_of_tryFormViewChangeQc (hform : tryFormViewChangeQc P chainId slot msgs keys = some vcQc) :
    ∃ voters : Finset Nat, quorumForCommittee keys.length ≤ voters.card ∧
      ∀ i ∈ voters, i < keys.length ∧ ∃ msg ∈ msgs, msg.slot = slot ∧ msg.voterIndex.toNat = i ∧
        verifyViewChange P chainId msg (keys.getD i []) = true := by
  simp only [tryFormViewChangeQc] at hform
  split at hform
  next hquorum =>
    have hsound : VoterTally.Sound (w := 128) (viewChangeVoter P chainId slot keys) msgs _ :=
      VoterTally.sound_countAll (by decide) msgs
    obtain ⟨voters, hcard, hvoters⟩ := hsound.exists_voters
    rw [(ViewChangeTally.foldl_count msgs).2, ← hcard] at hquorum
    refine ⟨voters, hquorum, ?_⟩
    intro i hi
    obtain ⟨msg, hmsg, hvoter⟩ := hvoters i hi
    obtain ⟨rfl, hslot, hidx, hok⟩ := viewChangeVoter_eq_some hvoter
    exact ⟨hidx, msg, hmsg, hslot, rfl, hok⟩
  next => cases hform

/-! ### Fallback proposals -/

/-- `FALLBACK_PROPOSAL_MARKER`, `b"FALLBACK"`. -/
def fallbackProposalMarker : Bytes := [0x46, 0x41, 0x4c, 0x4c, 0x42, 0x41, 0x43, 0x4b]

def fallbackLeaderIndex (height view : U64) (committeeSize : Nat) : Nat :=
  if committeeSize = 0 then 0 else (height + view).toNat % committeeSize

def encodeFallbackProof (vcQcSlot view : U64) : Bytes := fallbackProposalMarker ++ (toLe vcQcSlot ++ toLe view)

def isFallbackProof (vrfProof : Bytes) : Bool :=
  decide (fallbackProposalMarker.length ≤ vrfProof.length) &&
    vrfProof.take fallbackProposalMarker.length == fallbackProposalMarker

def decodeFallbackProof (vrfProof : Bytes) : Option (U64 × U64) :=
  if isFallbackProof vrfProof = false then none
  else
    let afterMarker := vrfProof.drop fallbackProposalMarker.length
    if afterMarker.length < 16 then none
    else some (ofLe 64 (afterMarker.take 8), ofLe 64 ((afterMarker.drop 8).take 8))

end Pyde
