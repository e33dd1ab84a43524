/-
Module: Pyde.Node.Wire
Purpose: The wire encoding of certificates, headers, consensus messages, the persisted consensus state, transactions
  and blocks, and which of these values the decoder gives back.
Trusted boundary: Prims
-/
import Pyde.Consensus.Hotstuff
import Pyde.Node.BlockProcessor

namespace Pyde

open ByteCodec List

/-- The `MAX_SIGNERS` that `decode_qc` caps a certificate's signatures with: the bound on the signers
of a multisig account. -/
def qcMaxSigners : Nat := 16

def maxPendingConsensusPerState : Nat := 128 * 4

/-! ### Certificates -/

def encodeQc (qc : QuorumCert) : Bytes :=
  toLe qc.slot ++ (qc.blockHash.toList ++ (toLe qc.voterBitmap ++
    (toLe (BitVec.ofNat 16 qc.signatures.length) ++ qc.signatures.flatMap putVar)))

def decodeQc : Reader QuorumCert := do
  let slot ← Reader.uint 64
  let blockHash ← Reader.fixed 32
  let voterBitmap ← Reader.uint 128
  let sigCount ← Reader.count 16 qcMaxSigners
  let signatures ← Reader.times Reader.varBytes sigCount
  return { slot, blockHash, voterBitmap, signatures }

/-- The certificates that the encoding does not truncate and the decoder does not refuse. -/
structure QuorumCert.Fits (qc : QuorumCert) : Prop where
  count : qc.signatures.length ≤ qcMaxSigners
  lengths : ∀ sig ∈ qc.signatures, sig.length < 2 ^ 32

theorem reads_decodeQc {qc : QuorumCert} (h : qc.Fits) : Reads decodeQc (encodeQc qc) qc := by
  have hcount : qc.signatures.length < 2 ^ 16 := lt_of_le_of_lt h.count (by decide)
  refine .bind (reads_uint (by decide) qc.slot) ?_
  refine .bind (reads_fixed qc.blockHash) ?_
  refine .bind (reads_uint (by decide) qc.voterBitmap) ?_
  refine .bind (reads_count (by decide) hcount h.count) ?_
  exact (reads_times fun sig hmem => reads_varBytes (h.lengths sig hmem)).map

theorem length_lt_of_signedBy {P : Prims} {keys : List Bytes} {msg : Bytes} {indices : List Nat}
    {signatures : List Bytes} (h : List.Forall₂ (SignedBy P keys msg) indices signatures) :
    ∀ sig ∈ signatures, sig.length < 2 ^ 32 := by
  intro sig hmem
  obtain ⟨j, hj, rfl⟩ := getElem_of_mem hmem
  obtain ⟨hlength, hget⟩ := List.forall₂_iff_get.mp h
  obtain ⟨_, hraw⟩ := hget j (by omega) hj
  have hrange : 500 ≤ signatures[j].length ∧ signatures[j].length ≤ 1000 := (P.verifyRaw_iff.mp hraw).2.1
  omega

/-! ### Headers and messages -/

def encodeBlockHeader (header : BlockHeader) : Bytes :=
  toLe header.slot ++ (toLe header.epoch ++ (header.parentHash.toList ++ (header.proposer.toList ++
    (putVar header.vrfProof ++ (encodeQc header.qcPrevious ++ (header.txRoot.toList ++
      (header.stateRoot.toList ++ toLe header.timestamp)))))))

/-- The field sequence of `decode_block_header`. -/
def readBlockHeader : Reader BlockHeader := do
  let slot ← Reader.uint 64
  let epoch ← Reader.uint 64
  let parentHash ← Reader.fixed 32
  let proposer ← Reader.fixed 32
  let vrfProof ← Reader.varBytes
  let qcPrevious ← decodeQc
  let txRoot ← Reader.fixed 32
  let stateRoot ← Reader.fixed 32
  let timestamp ← Reader.uint 64
  return { slot, epoch, parentHash, proposer, vrfProof, qcPrevious, txRoot, stateRoot, timestamp }

/-- `decode_block_header`. Bytes after the last field are ignored. -/
def decodeBlockHeader (data : Bytes) : Except String BlockHeader := (readBlockHeader.run data).map Prod.fst

def encodeConsensusMessage : ConsensusMessage → Bytes
  | .proposal header proposerSignature => [0x10#8] ++ (putVar (encodeBlockHeader header) ++ putVar proposerSignature)
  | .vote vote =>
    [0x11#8] ++ (toLe vote.slot ++ (vote.blockHash.toList ++ (toLe vote.voterIndex ++
      (vote.voterAddress.toList ++ putVar vote.signature))))
  | .timeout slot voterIndex voterAddress highestQc sig =>
    [0x12#8] ++ (toLe slot ++ (toLe voterIndex ++ (voterAddress.toList ++ (encodeQc highestQc ++ putVar sig))))
  | .newView slot highestQc voterAddress sig =>
    [0x13#8] ++ (toLe slot ++ (encodeQc highestQc ++ (voterAddress.toList ++ putVar sig)))
  | .qcAnnounce qc => [0x1A#8] ++ encodeQc qc

/-- The headers that survive the encoding. -/
structure BlockHeader.Fits (header : BlockHeader) : Prop where
  proof : header.vrfProof.length < 2 ^ 32
  certificate : header.qcPrevious.Fits
  length : (encodeBlockHeader header).length < 2 ^ 32

theorem reads_readBlockHeader {header : BlockHeader} (h : header.Fits) :
    Reads readBlockHeader (encodeBlockHeader header) header := by
  refine .bind (reads_uint (by decide) header.slot) ?_
  refine .bind (reads_uint (by decide) header.epoch) ?_
  refine .bind (reads_fixed header.parentHash) ?_
  refine .bind (reads_fixed header.proposer) ?_
  refine .bind (reads_varBytes h.proof) ?_
  refine .bind (reads_decodeQc h.certificate) ?_
  refine .bind (reads_fixed header.txRoot) ?_
  refine .bind (reads_fixed header.stateRoot) ?_
  exact (reads_uint (by decide) header.timestamp).map

/-- The field sequence of `decode_consensus_message`. -/
def readConsensusMessage : Reader ConsensusMessage := do
  let tag ← Reader.uint 8
  if tag = 0x10#8 then
    let headerBytes ← Reader.varBytes
    let header ← liftM (decodeBlockHeader headerBytes)
    let proposerSignature ← Reader.varBytes
    return .proposal header proposerSignature
  else if tag = 0x11#8 then
    let slot ← Reader.uint 64
    let blockHash ← Reader.fixed 32
    let voterIndex ← Reader.uint 8
    let voterAddress ← Reader.fixed 32
    let sig ← Reader.varBytes
    return .vote { slot, blockHash, voterIndex, voterAddress, signature := sig }
  else if tag = 0x12#8 then
    let slot ← Reader.uint 64
    let voterIndex ← Reader.uint 8
    let voterAddress ← Reader.fixed 32
    let highestQc ← decodeQc
    let sig ← Reader.varBytes
    return .timeout slot voterIndex voterAddress highestQc sig
  else if tag = 0x13#8 then
    let slot ← Reader.uint 64
    let highestQc ← decodeQc
    let voterAddress ← Reader.fixed 32
    let sig ← Reader.varBytes
    return .newView slot highestQc voterAddress sig
  else if tag = 0x1A#8 then
    let qc ← decodeQc
    return .qcAnnounce qc
  else throw "unknown consensus message tag"

def decodeConsensusMessage (data : Bytes) : Except String ConsensusMessage :=
  (readConsensusMessage.run data).map Prod.fst

/-- The messages that survive the encoding. -/
def ConsensusMessage.Fits : ConsensusMessage → Prop
  | .proposal header proposerSignature => header.Fits ∧ proposerSignature.length < 2 ^ 32
  | .vote ballot => ballot.signature.length < 2 ^ 32
  | .timeout _ _ _ highestQc sig => highestQc.Fits ∧ sig.length < 2 ^ 32
  | .newView _ highestQc _ sig => highestQc.Fits ∧ sig.length < 2 ^ 32
  | .qcAnnounce qc => qc.Fits

variable {st : ConsensusState} {msg : ConsensusMessage} {queue : List ConsensusMessage}

theorem reads_readConsensusMessage (h : msg.Fits) :
    Reads readConsensusMessage (encodeConsensusMessage msg) msg := by
  -- the tag decides the branch, the branch then reads the fields in the order they were written
  cases msg with
  | proposal header proposerSignature =>
    obtain ⟨hheader, hsignature⟩ := h
    refine .bind (reads_uint (by decide) 0x10#8) ?_
    refine .bind (reads_varBytes hheader.length) ?_
    refine .lift (reads_readBlockHeader hheader).decoded ?_
    exact (reads_varBytes hsignature).map
  | vote vote =>
    refine .bind (reads_uint (by decide) 0x11#8) ?_
    refine .bind (reads_uint (by decide) vote.slot) ?_
    refine .bind (reads_fixed vote.blockHash) ?_
    refine .bind (reads_uint (by decide) vote.voterIndex) ?_
    refine .bind (reads_fixed vote.voterAddress) ?_
    exact (reads_varBytes h).map
  | timeout slot voterIndex voterAddress highestQc sig =>
    refine .bind (reads_uint (by decide) 0x12#8) ?_
    refine .bind (reads_uint (by decide) slot) ?_
    refine .bind (reads_uint (by decide) voterIndex) ?_
    refine .bind (reads_fixed voterAddress) ?_
    refine .bind (reads_decodeQc h.1) ?_
    exact (reads_varBytes h.2).map
  | newView slot highestQc voterAddress sig =>
    refine .bind (reads_uint (by decide) 0x13#8) ?_
    refine .bind (reads_uint (by decide) slot) ?_
    refine .bind (reads_decodeQc h.1) ?_
    refine .bind (reads_fixed voterAddress) ?_
    exact (reads_varBytes h.2).map
  | qcAnnounce qc =>
    refine .bind (reads_uint (by decide) 0x1A#8) ?_
    exact (reads_decodeQc h).map

/-! ### The persisted state -/

def consensusStateVersion : U8 := 3#8

/-- One queued message, behind its length. -/
def putMessage (msg : ConsensusMessage) : Bytes := putVar (encodeConsensusMessage msg)

def encodeConsensusState (st : ConsensusState) : Bytes :=
  toLe consensusStateVersion ++ (toLe st.currentSlot ++ (toLe st.currentEpoch ++
    (encodeQc st.highestQc ++ (toLe st.lastVotedSlot ++ (toLe st.lastVotedView ++
      (st.lastCommittedHash.toList ++ (toLe st.lastCommittedSlot ++
        (toLe st.targetHeight ++ (toLe st.currentView ++ (toLe (BitVec.ofNat 16 st.pendingVotes.length) ++
            (st.pendingVotes.flatMap putMessage ++ (toLe (BitVec.ofNat 16 st.pendingTimeouts.length) ++
                st.pendingTimeouts.flatMap putMessage))))))))))))

def readMessage : Reader ConsensusMessage := do
  let messageBytes ← Reader.varBytes
  liftM (decodeConsensusMessage messageBytes)

/-- The fields of `decode_consensus_state` behind the version byte. -/
def readConsensusFields : Reader ConsensusState := do
  let currentSlot ← Reader.uint 64
  let currentEpoch ← Reader.uint 64
  let highestQc ← decodeQc
  let lastVotedSlot ← Reader.uint 64
  let lastVotedView ← Reader.uint 64
  let lastCommittedHash ← Reader.fixed 32
  let lastCommittedSlot ← Reader.uint 64
  let targetHeight ← Reader.uint 64
  let currentView ← Reader.uint 64
  let votesCount ← Reader.count 16 maxPendingConsensusPerState
  let pendingVotes ← Reader.times readMessage votesCount
  let timeoutsCount ← Reader.count 16 maxPendingConsensusPerState
  let pendingTimeouts ← Reader.times readMessage timeoutsCount
  return { currentSlot, currentEpoch, highestQc, lastVotedSlot, lastVotedView, lastCommittedHash,
           lastCommittedSlot, targetHeight, currentView, pendingVotes, pendingTimeouts }

/-- The field sequence of `decode_consensus_state`. -/
def readConsensusState : Reader ConsensusState := do
  let version ← Reader.uint 8
  if version = consensusStateVersion then readConsensusFields
  else throw "unsupported consensus state version"

def decodeConsensusState (data : Bytes) : Except String ConsensusState := (readConsensusState.run data).map Prod.fst

structure QueueFits (queue : List ConsensusMessage) : Prop where
  count : queue.length ≤ maxPendingConsensusPerState
  messages : ∀ msg ∈ queue, msg.Fits ∧ (encodeConsensusMessage msg).length < 2 ^ 32

theorem reads_queue (h : QueueFits queue) :
    Reads (Reader.times readMessage queue.length) (queue.flatMap putMessage) queue := by
  refine reads_times fun msg hmem => ?_
  obtain ⟨hfits, hlength⟩ := h.messages msg hmem
  intro rest
  have hread := reads_varBytes hlength rest
  have hdecoded : decodeConsensusMessage (encodeConsensusMessage msg) = .ok msg :=
    (reads_readConsensusMessage hfits).decoded
  rw [readMessage, putMessage, StateT.run_bind, hread]
  change (liftM (decodeConsensusMessage (encodeConsensusMessage msg)) : Reader ConsensusMessage).run rest = _
  rw [hdecoded]
  rfl

/-- The states that survive being written to disk. -/
structure ConsensusState.Fits (st : ConsensusState) : Prop where
  certificate : st.highestQc.Fits
  votes : QueueFits st.pendingVotes
  timeouts : QueueFits st.pendingTimeouts

theorem reads_queueCount (h : QueueFits queue) :
    Reads (Reader.count 16 maxPendingConsensusPerState) (toLe (BitVec.ofNat 16 queue.length)) queue.length :=
  reads_count (by decide) (lt_of_le_of_lt h.count (by decide)) h.count

theorem decodeConsensusState_encode (h : st.Fits) :
    decodeConsensusState (encodeConsensusState st) = .ok st := by
  refine Reads.decoded ?_
  refine .bind (reads_uint (by decide) consensusStateVersion) ?_
  refine .bind (reads_uint (by decide) st.currentSlot) ?_
  refine .bind (reads_uint (by decide) st.currentEpoch) ?_
  refine .bind (reads_decodeQc h.certificate) ?_
  refine .bind (reads_uint (by decide) st.lastVotedSlot) ?_
  refine .bind (reads_uint (by decide) st.lastVotedView) ?_
  refine .bind (reads_fixed st.lastCommittedHash) ?_
  refine .bind (reads_uint (by decide) st.lastCommittedSlot) ?_
  refine .bind (reads_uint (by decide) st.targetHeight) ?_
  refine .bind (reads_uint (by decide) st.currentView) ?_
  refine .bind (reads_queueCount h.votes) ?_
  refine .bind (reads_queue h.votes) ?_
  refine .bind (reads_queueCount h.timeouts) ?_
  exact (reads_queue h.timeouts).map

/-! ### What the decoders return

Every value that a decoder returns survives the encoding. So a value is given back from its own encoding exactly if it
does. -/

theorem yields_decodeQc : Yields decodeQc fun qc used => qc.Fits ∧ (encodeQc qc).length ≤ used := by
  refine (yields_uint 64).bind fun slot _ hslot => (yields_fixed 32).bind fun blockHash _ hhash => ?_
  refine (yields_uint 128).bind fun bitmap _ hbitmap => (yields_count 16 _).bind fun count _ hcount => ?_
  refine (yields_times yields_varBytes count).bind fun signatures _ hsignatures => .pure ?_
  refine ⟨⟨hsignatures.1 ▸ hcount.1, hsignatures.2.1⟩, ?_⟩
  simp only [encodeQc, length_append, length_toLe, List.Vector.toList_length]
  omega

theorem yields_readBlockHeader : Yields readBlockHeader fun header used =>
    (header.vrfProof.length < 2 ^ 32 ∧ header.qcPrevious.Fits) ∧ (encodeBlockHeader header).length ≤ used := by
  refine (yields_uint 64).bind fun slot _ hslot => (yields_uint 64).bind fun epoch _ hepoch => ?_
  refine (yields_fixed 32).bind fun parent _ hparent => (yields_fixed 32).bind fun proposer _ hproposer => ?_
  refine yields_varBytes.bind fun proof _ hproof => yields_decodeQc.bind fun qc _ hqc => ?_
  refine (yields_fixed 32).bind fun txRoot _ htxRoot => (yields_fixed 32).bind fun stateRoot _ hstateRoot => ?_
  refine (yields_uint 64).bind fun timestamp _ htimestamp => .pure ⟨⟨hproof.1, hqc.1⟩, ?_⟩
  simp only [encodeBlockHeader, length_append, length_toLe, List.Vector.toList_length]
  omega

/-- A header that was decoded from a string of less than four gigabytes. -/
theorem fits_of_decodeBlockHeader {data : Bytes} {header : BlockHeader} (hdata : data.length < 2 ^ 32)
    (h : decodeBlockHeader data = .ok header) :
    header.Fits ∧ (putVar (encodeBlockHeader header)).length ≤ (putVar data).length := by
  obtain ⟨used, hused, ⟨hproof, hcertificate⟩, hlength⟩ := yields_readBlockHeader.decoded h
  rw [length_putVar, length_putVar]
  exact ⟨⟨hproof, hcertificate, by omega⟩, by omega⟩

theorem yields_readConsensusMessage : Yields readConsensusMessage fun msg used =>
    msg.Fits ∧ (encodeConsensusMessage msg).length ≤ used := by
  refine (yields_uint 8).bind fun tag _ htag => ?_
  split
  · refine yields_varBytes.bind fun headerBytes _ hbytes => (Yields.lift _).bind fun header _ hheader => ?_
    obtain ⟨hfits, hlength⟩ := fits_of_decodeBlockHeader hbytes.1 hheader.1
    refine yields_varBytes.bind fun sig _ hsignature => .pure ⟨⟨hfits, hsignature.1⟩, ?_⟩
    simp only [encodeConsensusMessage, length_append, length_singleton]
    omega
  split
  · refine (yields_uint 64).bind fun slot _ hslot => (yields_fixed 32).bind fun hash _ hhash => ?_
    refine (yields_uint 8).bind fun voter _ hvoter => (yields_fixed 32).bind fun addr _ haddr => ?_
    refine yields_varBytes.bind fun sig _ hsignature => .pure ⟨hsignature.1, ?_⟩
    simp only [encodeConsensusMessage, length_append, length_singleton, length_toLe, List.Vector.toList_length]
    omega
  split
  · refine (yields_uint 64).bind fun slot _ hslot => (yields_uint 8).bind fun voter _ hvoter => ?_
    refine (yields_fixed 32).bind fun addr _ haddr => yields_decodeQc.bind fun qc _ hqc => ?_
    refine yields_varBytes.bind fun sig _ hsignature => .pure ⟨⟨hqc.1, hsignature.1⟩, ?_⟩
    simp only [encodeConsensusMessage, length_append, length_singleton, length_toLe, List.Vector.toList_length]
    omega
  split
  · refine (yields_uint 64).bind fun slot _ hslot => yields_decodeQc.bind fun qc _ hqc => ?_
    refine (yields_fixed 32).bind fun addr _ haddr => yields_varBytes.bind fun sig _ hsignature => ?_
    refine .pure ⟨⟨hqc.1, hsignature.1⟩, ?_⟩
    simp only [encodeConsensusMessage, length_append, length_singleton, length_toLe, List.Vector.toList_length]
    omega
  split
  · refine yields_decodeQc.bind fun qc _ hqc => .pure ⟨hqc.1, ?_⟩
    simp only [encodeConsensusMessage, length_append, length_singleton]
    omega
  · exact .throw _

theorem decodeConsensusMessage_encode_iff :
    decodeConsensusMessage (encodeConsensusMessage msg) = .ok msg ↔ msg.Fits := by
  constructor
  · intro h
    obtain ⟨_, _, hfits, _⟩ := yields_readConsensusMessage.decoded h
    exact hfits
  · exact fun h => (reads_readConsensusMessage h).decoded

theorem yields_readMessage : Yields readMessage fun msg used =>
    (msg.Fits ∧ (encodeConsensusMessage msg).length < 2 ^ 32) ∧ (putMessage msg).length ≤ used := by
  refine yields_varBytes.bind fun messageBytes _ hbytes => ?_
  intro input msg rest hrun
  obtain ⟨taken, htaken, hdecoded, hzero⟩ := Yields.lift _ input msg rest hrun
  obtain ⟨used, hused, hfits, hlength⟩ := yields_readConsensusMessage.decoded hdecoded
  have hbound := hbytes.1
  have hput := hbytes.2
  rw [length_putVar] at hput
  refine ⟨taken, htaken, ⟨hfits, by omega⟩, ?_⟩
  rw [putMessage, length_putVar]
  omega

theorem decodeConsensusState_encode_iff :
    decodeConsensusState (encodeConsensusState st) = .ok st ↔ st.Fits := by
  have hfields : Yields readConsensusFields fun st _ => st.Fits := by
    refine (yields_uint 64).bind fun _ _ _ => (yields_uint 64).bind fun _ _ _ => ?_
    refine yields_decodeQc.bind fun qc _ hqc => (yields_uint 64).bind fun _ _ _ => ?_
    refine (yields_uint 64).bind fun _ _ _ => (yields_fixed 32).bind fun _ _ _ => ?_
    refine (yields_uint 64).bind fun _ _ _ => (yields_uint 64).bind fun _ _ _ => ?_
    refine (yields_uint 64).bind fun _ _ _ => (yields_count 16 _).bind fun votes _ hvotes => ?_
    refine (yields_times yields_readMessage votes).bind fun pendingVotes _ hpendingVotes => ?_
    refine (yields_count 16 _).bind fun timeouts _ htimeouts => ?_
    refine (yields_times yields_readMessage timeouts).bind fun pendingTimeouts _ hpendingTimeouts => .pure ?_
    exact ⟨hqc.1, ⟨hpendingVotes.1 ▸ hvotes.1, hpendingVotes.2.1⟩,
      ⟨hpendingTimeouts.1 ▸ htimeouts.1, hpendingTimeouts.2.1⟩⟩
  have hstate : Yields readConsensusState fun st _ => st.Fits := by
    refine (yields_uint 8).bind fun version _ _ => ?_
    split
    · exact fun input st rest hrun => hfields input st rest hrun
    · exact .throw _
  constructor
  · intro h
    obtain ⟨_, _, hfits⟩ := hstate.decoded h
    exact hfits
  · exact decodeConsensusState_encode

/-! ### Transactions -/

/-- `MAX_TXS_PER_BLOCK` of the wire format. -/
def wireMaxTxsPerBlock : Nat := 100000

def maxAccessListEntries : Nat := 1024

def maxAccessKeysPerEntry : Nat := 1024

def encodeAccessEntry (entry : AccessEntry) : Bytes :=
  entry.address.toList ++ (toLe (BitVec.ofNat 16 entry.reads.length) ++ (keyBytes entry.reads ++
    (toLe (BitVec.ofNat 16 entry.writes.length) ++ keyBytes entry.writes)))

def decodeAccessEntry : Reader AccessEntry := do
  let addr ← Reader.fixed 32
  let readCount ← Reader.count 16 maxAccessKeysPerEntry
  let reads ← Reader.times (Reader.fixed 32) readCount
  let writeCount ← Reader.count 16 maxAccessKeysPerEntry
  let writes ← Reader.times (Reader.fixed 32) writeCount
  return { address := addr, reads, writes }

def decodeFeePayer : Reader FeePayer := do
  let tag ← Reader.uint 8
  if tag = 0 then return .sender
  else if tag = 1 then
    let addr ← Reader.fixed 32
    return .gasTank addr
  else if tag = 2 then
    let addr ← Reader.fixed 32
    return .paymaster addr
  else throw "invalid fee_payer tag"

/-- The deadline, behind its presence byte. -/
def decodeDeadline : Reader (Option U64) := do
  let present ← Reader.uint 8
  if present = 1 then
    let deadline ← Reader.uint 64
    return some deadline
  else return none

def decodeTxType : Reader TransactionType := do
  let tag ← Reader.uint 8
  match TransactionType.fromU8 tag with
  | none => throw "invalid tx_type tag"
  | some txType => return txType

def encodeTransaction (tx : Transaction) : Bytes :=
  tx.fromAddress.toList ++ (tx.toAddress.toList ++ (toLe tx.value ++ (putVar tx.data ++ (toLe tx.gasLimit ++
    (toLe tx.nonce ++ (putVar tx.signature ++ (tx.feePayer.toBytes ++
      (toLe (BitVec.ofNat 16 tx.accessList.length) ++ (tx.accessList.flatMap encodeAccessEntry ++
        (deadlineBytes tx.deadline ++ (toLe tx.chainId ++ toLe tx.txType.toU8)))))))))))

/-- The field sequence of `decode_transaction`. -/
def readTransaction : Reader Transaction := do
  let fromAddress ← Reader.fixed 32
  let toAddress ← Reader.fixed 32
  let value ← Reader.uint 128
  let data ← Reader.varBytes
  let gasLimit ← Reader.uint 64
  let nonce ← Reader.uint 64
  let sig ← Reader.varBytes
  let feePayer ← decodeFeePayer
  let accessCount ← Reader.count 16 maxAccessListEntries
  let accessList ← Reader.times decodeAccessEntry accessCount
  let deadline ← decodeDeadline
  let chainId ← Reader.uint 64
  let txType ← decodeTxType
  return { fromAddress, toAddress, value, data, gasLimit, nonce, signature := sig, feePayer, accessList,
           deadline, chainId, txType }

/-- `decode_transaction`. Bytes after the last field are ignored. -/
def decodeTransaction (data : Bytes) : Except String Transaction := (readTransaction.run data).map Prod.fst

/-! ### Blocks -/

/-- A block with the signature of its proposer, which is not looked at when the block is processed. -/
structure SignedBlock where
  block : Block
  proposerSignature : Bytes

/-- A transaction of a block, behind its length. -/
def putTransaction (tx : Transaction) : Bytes := putVar (encodeTransaction tx)

def encodeIndex (idx : Nat) : Bytes := toLe (BitVec.ofNat 32 idx)

/-- A group of the execution schedule. -/
def encodeGroup (group : ExecutionGroup) : Bytes :=
  toLe (BitVec.ofNat 16 group.txIndices.length) ++ group.txIndices.flatMap encodeIndex

def encodeBlock (signed : SignedBlock) : Bytes :=
  let body := signed.block.body
  [0x01#8] ++ (putVar (encodeBlockHeader signed.block.header) ++ (putVar signed.proposerSignature ++
    (toLe (BitVec.ofNat 32 body.transactions.length) ++ (body.transactions.flatMap putTransaction ++
      (toLe (BitVec.ofNat 32 body.encryptedTxs.length) ++ (body.encryptedTxs.flatMap putVar ++
        (toLe (BitVec.ofNat 16 body.executionSchedule.groups.length) ++
          body.executionSchedule.groups.flatMap encodeGroup)))))))

def readBlockTransaction : Reader Transaction := do
  let txBytes ← Reader.varBytes
  liftM (decodeTransaction txBytes)

/-- A count that may be missing at the end of the input. -/
def countIfAny (w max : Nat) : Reader Nat := fun input =>
  if w / 8 ≤ input.length then (Reader.count w max).run input else .ok (0, input)

def readIndex : Reader Nat := do
  let idx ← Reader.uint 32
  return idx.toNat

def readGroup : Reader ExecutionGroup := do
  let idxCount ← Reader.count 16 wireMaxTxsPerBlock
  let txIndices ← Reader.times readIndex idxCount
  return { txIndices }

/-- The fields of `decode_block` behind the tag. -/
def readBlockFields : Reader SignedBlock := do
  let headerBytes ← Reader.varBytes
  let header ← liftM (decodeBlockHeader headerBytes)
  let proposerSignature ← Reader.varBytes
  let txCount ← Reader.count 32 wireMaxTxsPerBlock
  let transactions ← Reader.times readBlockTransaction txCount
  let encCount ← countIfAny 32 wireMaxTxsPerBlock
  let encryptedTxs ← Reader.times Reader.varBytes encCount
  let groupCount ← countIfAny 16 wireMaxTxsPerBlock
  let groups ← Reader.times readGroup groupCount
  return {
    block := { header, body := { transactions, encryptedTxs,
                                 executionSchedule := { groups, totalTxs := transactions.length } } }
    proposerSignature }

def readBlock : Reader SignedBlock := do
  let tag ← Reader.uint 8
  if tag = 0x01#8 then readBlockFields else throw "not a block message"

/-- `decode_block`. Bytes after the last field are ignored. -/
def decodeBlock (data : Bytes) : Except String SignedBlock := (readBlock.run data).map Prod.fst

/-! ### What survives the encoding -/

/-- An access list entry with as many keys as the decoder takes. -/
def AccessEntry.WireFits (entry : AccessEntry) : Prop :=
  entry.reads.length ≤ maxAccessKeysPerEntry ∧ entry.writes.length ≤ maxAccessKeysPerEntry

/-- The transactions that survive the encoding. -/
structure Transaction.WireFits (tx : Transaction) : Prop where
  data : tx.data.length < 2 ^ 32
  signature : tx.signature.length < 2 ^ 32
  entries : tx.accessList.length ≤ maxAccessListEntries
  keys : ∀ entry ∈ tx.accessList, entry.WireFits
  length : (encodeTransaction tx).length < 2 ^ 32

/-- The groups that survive the encoding. -/
def ExecutionGroup.WireFits (group : ExecutionGroup) : Prop :=
  group.txIndices.length < 2 ^ 16 ∧ ∀ idx ∈ group.txIndices, idx < 2 ^ 32

/-- The blocks that survive the encoding. -/
structure SignedBlock.WireFits (signed : SignedBlock) : Prop where
  header : signed.block.header.Fits
  signature : signed.proposerSignature.length < 2 ^ 32
  txCount : signed.block.body.transactions.length ≤ wireMaxTxsPerBlock
  transactions : ∀ tx ∈ signed.block.body.transactions, tx.WireFits
  encryptedCount : signed.block.body.encryptedTxs.length ≤ wireMaxTxsPerBlock
  encrypted : ∀ bytes ∈ signed.block.body.encryptedTxs, bytes.length < 2 ^ 32
  groupCount : signed.block.body.executionSchedule.groups.length < 2 ^ 16
  groups : ∀ group ∈ signed.block.body.executionSchedule.groups, group.WireFits
  total : signed.block.body.executionSchedule.totalTxs = signed.block.body.transactions.length

theorem reads_decodeAccessEntry {entry : AccessEntry} (h : entry.WireFits) :
    Reads decodeAccessEntry (encodeAccessEntry entry) entry := by
  have hkeys : ∀ keys : List (FixedBytes 32),
      Reads (Reader.times (Reader.fixed 32) keys.length) (keyBytes keys) keys :=
    fun keys => reads_times fun key _ => reads_fixed key
  have hcount : ∀ keys : List (FixedBytes 32), keys.length ≤ maxAccessKeysPerEntry →
      Reads (Reader.count 16 maxAccessKeysPerEntry) (toLe (BitVec.ofNat 16 keys.length)) keys.length :=
    fun keys hlength => reads_count (by decide) (hlength.trans_lt (by decide)) hlength
  exact .bind (reads_fixed _) (Reads.bind (hcount _ h.1) (Reads.bind (hkeys _)
    (Reads.bind (hcount _ h.2) (hkeys _).map)))

theorem reads_decodeFeePayer (payer : FeePayer) : Reads decodeFeePayer payer.toBytes payer := by
  cases payer with
  | sender => exact .bind (reads_uint (by decide) (0 : U8)) (Reads.pure _)
  | gasTank addr => exact .bind (reads_uint (by decide) (1 : U8)) (reads_fixed addr).map
  | paymaster addr => exact .bind (reads_uint (by decide) (2 : U8)) (reads_fixed addr).map

theorem reads_decodeDeadline (deadline : Option U64) : Reads decodeDeadline (deadlineBytes deadline) deadline := by
  cases deadline with
  | none => exact .bind (reads_uint (by decide) (0 : U8)) (Reads.pure none)
  | some deadline => exact .bind (reads_uint (by decide) (1 : U8)) (reads_uint (by decide) deadline).map

theorem reads_decodeTxType (txType : TransactionType) : Reads decodeTxType (toLe txType.toU8) txType := by
  intro rest
  rw [decodeTxType, StateT.run_bind, reads_uint (by decide)]
  dsimp only [bind, Except.bind]
  rw [TransactionType.fromU8_toU8]
  rfl

theorem reads_readTransaction {tx : Transaction} (h : tx.WireFits) :
    Reads readTransaction (encodeTransaction tx) tx := by
  refine .bind (reads_fixed _) ?_
  refine .bind (reads_fixed _) ?_
  refine .bind (reads_uint (by decide) _) ?_
  refine .bind (reads_varBytes h.data) ?_
  refine .bind (reads_uint (by decide) _) ?_
  refine .bind (reads_uint (by decide) _) ?_
  refine .bind (reads_varBytes h.signature) ?_
  refine .bind (reads_decodeFeePayer _) ?_
  refine .bind (reads_count (by decide) (h.entries.trans_lt (by decide)) h.entries) ?_
  refine .bind (reads_times fun entry hentry => reads_decodeAccessEntry (h.keys entry hentry)) ?_
  refine .bind (reads_decodeDeadline _) ?_
  refine .bind (reads_uint (by decide) _) ?_
  exact (reads_decodeTxType _).map

theorem reads_readBlockTransaction {tx : Transaction} (h : tx.WireFits) :
    Reads readBlockTransaction (putTransaction tx) tx := by
  have hdecoded : decodeTransaction (encodeTransaction tx) = .ok tx := (reads_readTransaction h).decoded
  intro rest
  rw [readBlockTransaction, putTransaction, StateT.run_bind, reads_varBytes h.length]
  change (liftM (decodeTransaction (encodeTransaction tx)) : Reader Transaction).run rest = _
  rw [hdecoded]
  rfl

theorem reads_countIfAny {w max n : Nat} (hw : 8 ∣ w) (hfits : n < 2 ^ w) (hmax : n ≤ max) :
    Reads (countIfAny w max) (toLe (BitVec.ofNat w n)) n := by
  intro rest
  change (if w / 8 ≤ (toLe (BitVec.ofNat w n) ++ rest).length then _ else _) = _
  rw [if_pos (by rw [List.length_append, length_toLe]; omega), reads_count hw hfits hmax]

theorem reads_readGroup {group : ExecutionGroup} (h : group.WireFits) : Reads readGroup (encodeGroup group) group := by
  have hindex : ∀ idx ∈ group.txIndices, Reads readIndex (encodeIndex idx) idx := by
    intro idx hidx
    have hread := (reads_uint (by decide) (BitVec.ofNat 32 idx)).map (f := BitVec.toNat)
    rwa [toNat_lengthField (h.2 idx hidx)] at hread
  have hcount : group.txIndices.length ≤ wireMaxTxsPerBlock := (Nat.le_of_lt h.1).trans (by decide)
  exact .bind (reads_count (by decide) h.1 hcount) (reads_times hindex).map

theorem reads_readBlock {signed : SignedBlock} (h : signed.WireFits) : Reads readBlock (encodeBlock signed) signed := by
  obtain ⟨⟨header, ⟨transactions, encryptedTxs, ⟨groups, totalTxs⟩⟩⟩, proposerSignature⟩ := signed
  have htotal : totalTxs = transactions.length := h.total
  subst htotal
  have hgroups : groups.length ≤ wireMaxTxsPerBlock := (Nat.le_of_lt h.groupCount).trans (by decide)
  refine .bind (reads_uint (by decide) 0x01#8) ?_
  refine .bind (reads_varBytes h.header.length) ?_
  refine .lift (reads_readBlockHeader h.header).decoded ?_
  refine .bind (reads_varBytes h.signature) ?_
  refine .bind (reads_count (by decide) (h.txCount.trans_lt (by decide)) h.txCount) ?_
  refine .bind (reads_times fun tx htx => reads_readBlockTransaction (h.transactions tx htx)) ?_
  refine .bind (reads_countIfAny (by decide) (h.encryptedCount.trans_lt (by decide)) h.encryptedCount) ?_
  refine .bind (reads_times fun bytes hbytes => reads_varBytes (h.encrypted bytes hbytes)) ?_
  refine .bind (reads_countIfAny (by decide) h.groupCount hgroups) ?_
  exact (reads_times fun group hgroup => reads_readGroup (h.groups group hgroup)).map

/-! ### What the decoder returns -/

theorem yields_decodeAccessEntry : Yields decodeAccessEntry fun entry used =>
    entry.WireFits ∧ (encodeAccessEntry entry).length ≤ used := by
  have hkey : Yields (Reader.fixed 32) fun key used => True ∧ key.toList.length ≤ used := by
    intro input key rest hrun
    obtain ⟨used, hused, hlength⟩ := yields_fixed 32 input key rest hrun
    exact ⟨used, hused, trivial, by rw [key.toList_length, hlength]⟩
  refine (yields_fixed 32).bind fun addr _ haddr => (yields_count 16 _).bind fun reads _ hreads => ?_
  refine (yields_times hkey reads).bind fun readKeys _ hreadKeys => (yields_count 16 _).bind fun writes _ hwrites => ?_
  refine (yields_times hkey writes).bind fun writeKeys _ hwriteKeys => .pure ?_
  refine ⟨⟨hreadKeys.1 ▸ hreads.1, hwriteKeys.1 ▸ hwrites.1⟩, ?_⟩
  simp only [encodeAccessEntry, keyBytes, List.length_append, length_toLe, List.Vector.toList_length]
  omega

theorem yields_decodeFeePayer : Yields decodeFeePayer fun payer used => payer.toBytes.length ≤ used := by
  refine (yields_uint 8).bind fun tag _ htag => ?_
  split
  · exact .pure (by simp [FeePayer.toBytes]; omega)
  split
  · exact (yields_fixed 32).bind fun addr _ haddr => .pure (by simp [FeePayer.toBytes]; omega)
  split
  · exact (yields_fixed 32).bind fun addr _ haddr => .pure (by simp [FeePayer.toBytes]; omega)
  · exact .throw _

theorem yields_decodeDeadline : Yields decodeDeadline fun deadline used =>
    (deadlineBytes deadline).length ≤ used := by
  refine (yields_uint 8).bind fun present _ hpresent => ?_
  split
  · exact (yields_uint 64).bind fun deadline _ hdeadline => .pure (by simp [deadlineBytes]; omega)
  · exact .pure (by simp [deadlineBytes]; omega)

theorem yields_decodeTxType : Yields decodeTxType fun _ used => used = 1 := by
  refine (yields_uint 8).bind fun tag _ htag => ?_
  split
  · exact .throw _
  · exact .pure htag

theorem yields_readTransaction : Yields readTransaction fun tx used =>
    (tx.data.length < 2 ^ 32 ∧ tx.signature.length < 2 ^ 32 ∧ tx.accessList.length ≤ maxAccessListEntries ∧
      ∀ entry ∈ tx.accessList, entry.WireFits) ∧ (encodeTransaction tx).length ≤ used := by
  refine (yields_fixed 32).bind fun fromAddress _ hfrom => (yields_fixed 32).bind fun toAddress _ hto => ?_
  refine (yields_uint 128).bind fun value _ hvalue => yields_varBytes.bind fun data _ hdata => ?_
  refine (yields_uint 64).bind fun gasLimit _ hgas => (yields_uint 64).bind fun nonce _ hnonce => ?_
  refine yields_varBytes.bind fun sig _ hsignature => yields_decodeFeePayer.bind fun payer _ hpayer => ?_
  refine (yields_count 16 _).bind fun count _ hcount => ?_
  refine (yields_times yields_decodeAccessEntry count).bind fun accessList _ haccess => ?_
  refine yields_decodeDeadline.bind fun deadline _ hdeadline => (yields_uint 64).bind fun chainId _ hchain => ?_
  refine yields_decodeTxType.bind fun txType _ htype => .pure ?_
  refine ⟨⟨hdata.1, hsignature.1, haccess.1 ▸ hcount.1, haccess.2.1⟩, ?_⟩
  simp only [encodeTransaction, List.length_append, length_toLe, List.Vector.toList_length]
  omega

theorem yields_readBlockTransaction : Yields readBlockTransaction fun tx used =>
    tx.WireFits ∧ (putTransaction tx).length ≤ used := by
  refine yields_varBytes.bind fun txBytes _ hbytes => ?_
  intro input tx rest hrun
  obtain ⟨taken, htaken, hdecoded, hzero⟩ := Yields.lift _ input tx rest hrun
  obtain ⟨used, hused, ⟨hdata, hsignature, hentries, hkeys⟩, hlength⟩ := yields_readTransaction.decoded hdecoded
  have hbound := hbytes.1
  have hput := hbytes.2
  rw [length_putVar] at hput
  refine ⟨taken, htaken, ⟨hdata, hsignature, hentries, hkeys, by omega⟩, ?_⟩
  rw [putTransaction, length_putVar]
  omega

theorem yields_countIfAny (w max : Nat) : Yields (countIfAny w max) fun n _ => n ≤ max ∧ n < 2 ^ w := by
  intro input n rest hrun
  change (if w / 8 ≤ input.length then (Reader.count w max).run input else .ok (0, input)) = _ at hrun
  split at hrun
  · obtain ⟨used, hused, hmax, hwidth, -⟩ := yields_count w max input n rest hrun
    exact ⟨used, hused, hmax, hwidth⟩
  · cases hrun
    exact ⟨0, by omega, Nat.zero_le _, Nat.two_pow_pos _⟩

theorem yields_readGroup : Yields readGroup fun group used => group.WireFits ∧
    (encodeGroup group).length ≤ used := by
  have hindex : Yields readIndex fun idx used => idx < 2 ^ 32 ∧ (encodeIndex idx).length ≤ used :=
    (yields_uint 32).bind fun idx _ hidx => .pure ⟨idx.isLt, by rw [encodeIndex, length_toLe]; omega⟩
  refine (yields_count 16 _).bind fun count _ hcount => (yields_times hindex count).bind fun indices _ hindices => ?_
  refine .pure ⟨⟨hindices.1 ▸ hcount.2.1, hindices.2.1⟩, ?_⟩
  simp only [encodeGroup, List.length_append, length_toLe]
  omega

/-- A block is given back from its own encoding exactly if it is within all limits. -/
theorem decodeBlock_encode_iff {signed : SignedBlock} :
    decodeBlock (encodeBlock signed) = .ok signed ↔ signed.WireFits := by
  have hencrypted : Yields Reader.varBytes fun bytes used => bytes.length < 2 ^ 32 ∧ (putVar bytes).length ≤ used :=
    yields_varBytes
  have hfields : Yields readBlockFields fun signed _ => signed.WireFits := by
    refine yields_varBytes.bind fun headerBytes _ hbytes => (Yields.lift _).bind fun header _ hheader => ?_
    refine yields_varBytes.bind fun sig _ hsignature => (yields_count 32 _).bind fun txCount _ htxCount => ?_
    refine (yields_times yields_readBlockTransaction txCount).bind fun transactions _ htransactions => ?_
    refine (yields_countIfAny 32 _).bind fun encCount _ hencCount => ?_
    refine (yields_times hencrypted encCount).bind fun encryptedTxs _ hencryptedTxs => ?_
    refine (yields_countIfAny 16 _).bind fun groupCount _ hgroupCount => ?_
    refine (yields_times yields_readGroup groupCount).bind fun groups _ hgroups => .pure ?_
    exact ⟨(fits_of_decodeBlockHeader hbytes.1 hheader.1).1, hsignature.1, htransactions.1 ▸ htxCount.1,
      htransactions.2.1, hencryptedTxs.1 ▸ hencCount.1, hencryptedTxs.2.1, hgroups.1 ▸ hgroupCount.2,
        hgroups.2.1, rfl⟩
  have hblock : Yields readBlock fun signed _ => signed.WireFits := by
    refine (yields_uint 8).bind fun tag _ _ => ?_
    split
    · exact fun input signed rest hrun => hfields input signed rest hrun
    · exact .throw _
  constructor
  · intro h
    obtain ⟨_, _, hfits⟩ := hblock.decoded h
    exact hfits
  · exact fun h => (reads_readBlock h).decoded

/-! ### What the hash of a received transaction binds -/

section

variable {tx tx' : Transaction}

/-- The node has read the transaction from the wire, or validation has passed its size. -/
def Transaction.Received (tx : Transaction) : Prop :=
  (∃ octets, decodeTransaction octets = .ok tx) ∨ validateSize tx = .ok ()

theorem AccessEntry.length_toBytes (entry : AccessEntry) :
    entry.toBytes.length = 40 + 32 * (entry.reads.length + entry.writes.length) := by
  simp only [AccessEntry.toBytes, keyBytes, length_append, length_flatMap, length_toLe, List.Vector.toList_length,
    map_const', sum_replicate, smul_eq_mul]
  omega

/-- Neither the decoder nor validation lets through counts or strings beyond what `Transaction::hash` can encode. -/
structure Transaction.Encodable (tx : Transaction) : Prop where
  counts : tx.CountsFit
  data : tx.data.length < 2 ^ 63
  access : (accessListBytes tx.accessList).length < 2 ^ 63

theorem Transaction.encodable_of_decoded {octets : Bytes} (h : decodeTransaction octets = .ok tx) : tx.Encodable := by
  obtain ⟨-, -, ⟨hdata, -, hentries, hkeys⟩, -⟩ := yields_readTransaction.decoded h
  have hlength : ∀ n ∈ tx.accessList.map fun entry => entry.toBytes.length, n ≤ 40 + 32 * (1024 + 1024) := by
    intro n hn
    obtain ⟨entry, hentry, rfl⟩ := mem_map.mp hn
    obtain ⟨hreads, hwrites⟩ := hkeys entry hentry
    unfold maxAccessKeysPerEntry at hreads hwrites
    rw [AccessEntry.length_toBytes]
    omega
  refine ⟨fun entry hentry => ?_, by omega, ?_⟩
  · exact (hkeys entry hentry).imp (Nat.lt_of_le_of_lt · (by decide)) (Nat.lt_of_le_of_lt · (by decide))
  · have hsum := sum_le_card_nsmul _ _ hlength
    rw [length_map, smul_eq_mul] at hsum
    rw [accessListBytes, length_flatMap]
    unfold maxAccessListEntries at hentries
    omega

theorem Transaction.encodable_of_validateSize (h : validateSize tx = .ok ()) : tx.Encodable := by
  have hsize : tx.toBytes.length ≤ 131072 := by
    unfold validateSize at h
    obtain ⟨_, -, hsize⟩ := bind_eq_ok h
    exact Nat.not_lt.mp (rejectIf_ok.mp hsize)
  simp only [Transaction.toBytes, length_append, length_cons] at hsize
  refine ⟨fun entry hentry => ?_, by omega, by omega⟩
  have hentry : entry.toBytes.length ≤ (accessListBytes tx.accessList).length := by
    rw [accessListBytes, length_flatMap]
    exact le_sum_of_mem (mem_map_of_mem hentry)
  rw [AccessEntry.length_toBytes] at hentry
  exact ⟨by omega, by omega⟩

theorem Transaction.Received.encodable (h : tx.Received) : tx.Encodable := by
  obtain ⟨octets, hdecoded⟩ | hsize := h
  · exact encodable_of_decoded hdecoded
  · exact encodable_of_validateSize hsize

theorem Transaction.Encodable.length_hashInputs (h : tx.Encodable) (P : Prims) :
    ∀ data ∈ tx.hashInputs P, data.length < 2 ^ 63 := by
  rintro data (rfl | rfl | rfl)
  · exact Nat.lt_of_le_of_lt (tx.length_preimage_le P) (by decide)
  · exact h.data
  · exact h.access

/-- Received transactions that differ in any field but the signature have different hashes. -/
theorem transaction_hash_binds {sponge : List Goldilocks → List.Vector Goldilocks 4} (P : Prims)
    (hfree : Set.InjOn sponge (bytesToElements ''
      (tx.hashInputs (P.withSponge sponge) ∪ tx'.hashInputs (P.withSponge sponge))))
    (hreceived : tx.Received) (hreceived' : tx'.Received) (hne : tx.unsigned ≠ tx'.unsigned) :
    tx.hash (P.withSponge sponge) ≠ tx'.hash (P.withSponge sponge) := by
  have hfit := hreceived.encodable
  have hfit' := hreceived'.encodable
  have hsize : ∀ data ∈ tx.hashInputs (P.withSponge sponge) ∪ tx'.hashInputs (P.withSponge sponge),
      data.length < 2 ^ 63 := by
    rintro data (hdata | hdata)
    · exact hfit.length_hashInputs _ data hdata
    · exact hfit'.length_hashInputs _ data hdata
  intro hhash
  apply hne
  exact (Transaction.hash_inj (P.collisionFreeOn_withSponge hfree hsize) Set.subset_union_left Set.subset_union_right
    hfit.counts hfit'.counts).mp hhash

end

/-- A call that declares one storage key of its own contract. -/
def declaringCall (reads writes : List (FixedBytes 32)) : Transaction where
  fromAddress := fill32 1
  toAddress := fill32 2
  value := 0
  data := []
  gasLimit := 21000
  nonce := 0
  signature := []
  feePayer := .sender
  accessList := [⟨fill32 2, reads, writes⟩]
  deadline := none
  chainId := 1
  txType := .standard

/-- One key, declared as read or as written. -/
theorem transaction_hash_binds_declared_key :
    (declaringCall [zero32] []).hash (lucid.withSponge weightedSponge) ≠
      (declaringCall [] [zero32]).hash (lucid.withSponge weightedSponge) := by
  apply transaction_hash_binds
  · -- five strings are hashed: the two preimages, the two encoded lists, and the empty data
    have hnodup : (([(declaringCall [zero32] []).preimage (lucid.withSponge weightedSponge),
        (declaringCall [] [zero32]).preimage (lucid.withSponge weightedSponge), [],
        accessListBytes (declaringCall [zero32] []).accessList,
        accessListBytes (declaringCall [] [zero32]).accessList].map
          bytesToElements).map weightedSponge).Nodup := by decide +kernel
    apply Set.InjOn.mono _ (inj_on_of_nodup_map hnodup)
    rintro _ ⟨data, (rfl | rfl | rfl) | rfl | rfl | rfl, rfl⟩ <;>
      exact mem_map_of_mem (by simp [declaringCall])
  · exact .inr (by decide +kernel)
  · exact .inr (by decide +kernel)
  · decide

end Pyde
