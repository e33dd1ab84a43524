/-
Module: Pyde.Node.WireSurvival
Purpose: Which blocks, certificates and consensus messages survive the wire.
Trusted boundary: Prims
-/
import Pyde.Node.Wire
import Pyde.Consensus.Hotstuff

namespace Pyde

open ByteCodec ConflictGroups List

/-! ### Sizes on the wire -/

/-- The bytes that a list takes whose items take `size` bytes each. -/
def totalSize {α : Type} (size : α → Nat) (items : List α) : Nat := (items.map size).sum

theorem length_flatMap_eq_totalSize {α : Type} {encode : α → Bytes} {size : α → Nat}
    (h : ∀ x, (encode x).length = size x) (items : List α) :
    (items.flatMap encode).length = totalSize size items := by
  rw [length_flatMap, totalSize]
  exact congrArg List.sum (map_congr_left fun x _ => h x)

/-- A byte string behind its length. -/
def varSize (bytes : Bytes) : Nat := 4 + bytes.length

theorem length_putVar_eq (bytes : Bytes) : (putVar bytes).length = varSize bytes := by
  rw [length_putVar, varSize]

def QuorumCert.wireSize (qc : QuorumCert) : Nat := 58 + totalSize varSize qc.signatures

theorem length_encodeQc (qc : QuorumCert) : (encodeQc qc).length = qc.wireSize := by
  simp only [encodeQc, length_append, length_toLe, List.Vector.toList_length,
    length_flatMap_eq_totalSize length_putVar_eq, QuorumCert.wireSize]
  omega

def BlockHeader.wireSize (header : BlockHeader) : Nat := 152 + varSize header.vrfProof + header.qcPrevious.wireSize

theorem length_encodeBlockHeader (header : BlockHeader) : (encodeBlockHeader header).length = header.wireSize := by
  simp only [encodeBlockHeader, length_append, length_toLe, List.Vector.toList_length, length_putVar_eq,
    length_encodeQc, BlockHeader.wireSize]
  omega

def AccessEntry.wireSize (entry : AccessEntry) : Nat := 36 + 32 * entry.reads.length + 32 * entry.writes.length

theorem length_encodeAccessEntry (entry : AccessEntry) : (encodeAccessEntry entry).length = entry.wireSize := by
  simp only [encodeAccessEntry, length_append, length_toLe, List.Vector.toList_length, length_keyBytes,
    AccessEntry.wireSize]
  omega

def FeePayer.wireSize : FeePayer → Nat
  | .sender => 1
  | .gasTank _ => 33
  | .paymaster _ => 33

theorem FeePayer.length_toBytes (payer : FeePayer) : payer.toBytes.length = payer.wireSize := by
  cases payer <;> simp [FeePayer.toBytes, FeePayer.wireSize]

def deadlineSize (deadline : Option U64) : Nat := if deadline.isSome then 9 else 1

theorem length_deadlineBytes (deadline : Option U64) : (deadlineBytes deadline).length = deadlineSize deadline := by
  cases deadline <;> simp [deadlineBytes, deadlineSize]

def Transaction.wireSize (tx : Transaction) : Nat :=
  107 + varSize tx.data + varSize tx.signature + tx.feePayer.wireSize +
    totalSize AccessEntry.wireSize tx.accessList + deadlineSize tx.deadline

theorem length_encodeTransaction (tx : Transaction) : (encodeTransaction tx).length = tx.wireSize := by
  simp only [encodeTransaction, length_append, length_toLe, List.Vector.toList_length, length_putVar_eq,
    FeePayer.length_toBytes, length_flatMap_eq_totalSize length_encodeAccessEntry, length_deadlineBytes,
    Transaction.wireSize]
  omega

def ConsensusMessage.wireSize : ConsensusMessage → Nat
  | .proposal header proposerSignature => 1 + (4 + header.wireSize) + varSize proposerSignature
  | .vote ballot => 74 + varSize ballot.signature
  | .timeout _ _ _ highestQc sig => 42 + highestQc.wireSize + varSize sig
  | .newView _ highestQc _ sig => 41 + highestQc.wireSize + varSize sig
  | .qcAnnounce qc => 1 + qc.wireSize

theorem length_encodeConsensusMessage (msg : ConsensusMessage) :
    (encodeConsensusMessage msg).length = msg.wireSize := by
  cases msg <;>
    simp [encodeConsensusMessage, length_putVar_eq, length_encodeQc, length_encodeBlockHeader, varSize,
      ConsensusMessage.wireSize] <;> omega

/-! ### What fits -/

/-- A certificate that a committee of 1 to 128 validators can form. -/
def QuorumCert.Formed (P : Prims) (qc : QuorumCert) : Prop :=
  ∃ chainId slot blockHash votes keys, 1 ≤ keys.length ∧ keys.length ≤ 128 ∧
    tryFormQc P chainId slot blockHash votes keys = some qc

/-- The bound on signatures that a certificate meets or not. -/
def QuorumCert.FewSigners (qc : QuorumCert) : Prop := qc.signatures.length ≤ qcMaxSigners

variable {msg : ConsensusMessage} {P : Prims} {qc : QuorumCert}

theorem QuorumCert.Formed.fits_iff (h : qc.Formed P) : qc.Fits ↔ qc.FewSigners := by
  obtain ⟨chainId, slot, blockHash, votes, keys, _, hsize, hform⟩ := h
  obtain ⟨_, _, _, hsigned, _⟩ := tryFormQc_contents hsize hform
  exact ⟨QuorumCert.Fits.count, fun hcount => ⟨hcount, length_lt_of_signedBy hsigned⟩⟩

theorem BlockHeader.fits_iff {header : BlockHeader} :
    header.Fits ↔ header.qcPrevious.Fits ∧ header.wireSize < 2 ^ 32 := by
  constructor
  · intro h
    exact ⟨h.certificate, length_encodeBlockHeader header ▸ h.length⟩
  · rintro ⟨hqc, hsize⟩
    have hproof : 4 + header.vrfProof.length ≤ header.wireSize := by
      simp only [BlockHeader.wireSize, varSize]
      omega
    exact ⟨by omega, hqc, by rwa [length_encodeBlockHeader]⟩

def ConsensusMessage.certificates : ConsensusMessage → List QuorumCert
  | .proposal header _ => [header.qcPrevious]
  | .vote _ => []
  | .timeout _ _ _ highestQc _ => [highestQc]
  | .newView _ highestQc _ _ => [highestQc]
  | .qcAnnounce qc => [qc]

/-- The byte strings in a message are counted with 32 bits. -/
def ConsensusMessage.Sized : ConsensusMessage → Prop
  | .proposal header proposerSignature => header.wireSize < 2 ^ 32 ∧ proposerSignature.length < 2 ^ 32
  | .vote ballot => ballot.signature.length < 2 ^ 32
  | .timeout _ _ _ _ sig => sig.length < 2 ^ 32
  | .newView _ _ _ sig => sig.length < 2 ^ 32
  | .qcAnnounce _ => True

theorem ConsensusMessage.fits_iff : msg.Fits ↔ (∀ qc ∈ msg.certificates, qc.Fits) ∧ msg.Sized := by
  cases msg with
  | proposal header proposerSignature =>
    simp only [ConsensusMessage.Fits, certificates, Sized, forall_mem_singleton, BlockHeader.fits_iff, and_assoc]
  | vote ballot => simp [ConsensusMessage.Fits, certificates, Sized]
  | timeout slot voterIndex voterAddress highestQc sig => simp [ConsensusMessage.Fits, certificates, Sized]
  | newView slot highestQc voterAddress sig | qcAnnounce qc => simp [ConsensusMessage.Fits, certificates, Sized]

/-- A message that is short enough as a whole has no part that is too long. -/
theorem ConsensusMessage.Sized.of_wireSize (h : msg.wireSize < 2 ^ 32) : msg.Sized := by
  cases msg <;> simp only [ConsensusMessage.wireSize, varSize, ConsensusMessage.Sized] at h ⊢ <;> omega

/-- The bounds on a queue of messages, certificates apart. -/
def QueueSized (queue : List ConsensusMessage) : Prop :=
  queue.length ≤ maxPendingConsensusPerState ∧ ∀ msg ∈ queue, msg.wireSize < 2 ^ 32

theorem queueFits_iff {queue : List ConsensusMessage} :
    QueueFits queue ↔ (∀ msg ∈ queue, ∀ qc ∈ msg.certificates, qc.Fits) ∧ QueueSized queue := by
  constructor
  · intro h
    refine ⟨fun msg hmem => (ConsensusMessage.fits_iff.mp (h.messages msg hmem).1).1, h.count, ?_⟩
    intro msg hmem
    exact length_encodeConsensusMessage msg ▸ (h.messages msg hmem).2
  · rintro ⟨hqcs, hcount, hsizes⟩
    refine ⟨hcount, fun msg hmem => ⟨?_, ?_⟩⟩
    · exact ConsensusMessage.fits_iff.mpr ⟨hqcs msg hmem, .of_wireSize (hsizes msg hmem)⟩
    · rw [length_encodeConsensusMessage]
      exact hsizes msg hmem

def ConsensusState.certificates (st : ConsensusState) : List QuorumCert :=
  st.highestQc :: (st.pendingVotes ++ st.pendingTimeouts).flatMap ConsensusMessage.certificates

theorem ConsensusState.fits_iff {st : ConsensusState} :
    st.Fits ↔ (∀ qc ∈ st.certificates, qc.Fits) ∧ QueueSized st.pendingVotes ∧
      QueueSized st.pendingTimeouts := by
  have hqcs : (∀ qc ∈ st.certificates, qc.Fits) ↔ st.highestQc.Fits ∧
      (∀ msg ∈ st.pendingVotes, ∀ qc ∈ msg.certificates, qc.Fits) ∧
        ∀ msg ∈ st.pendingTimeouts, ∀ qc ∈ msg.certificates, qc.Fits := by
    simp only [certificates, forall_mem_cons, flatMap_append, forall_mem_append, mem_flatMap,
      forall_exists_index, and_imp]
    exact and_congr_right fun _ => and_congr ⟨fun h m hm qc hqc => h qc m hm hqc, fun h qc m hm hqc =>
      h m hm qc hqc⟩
      ⟨fun h m hm qc hqc => h qc m hm hqc, fun h qc m hm hqc => h m hm qc hqc⟩
  rw [hqcs]
  constructor
  · rintro ⟨hhighest, hvotes, htimeouts⟩
    rw [queueFits_iff] at hvotes htimeouts
    exact ⟨⟨hhighest, hvotes.1, htimeouts.1⟩, hvotes.2, htimeouts.2⟩
  · rintro ⟨⟨hhighest, hvotes, htimeouts⟩, hvoteSizes, htimeoutSizes⟩
    exact ⟨hhighest, queueFits_iff.mpr ⟨hvotes, hvoteSizes⟩, queueFits_iff.mpr ⟨htimeouts, htimeoutSizes⟩⟩

structure Transaction.Sized (tx : Transaction) : Prop where
  entries : tx.accessList.length ≤ maxAccessListEntries
  keys : ∀ entry ∈ tx.accessList, entry.reads.length ≤ maxAccessKeysPerEntry ∧
    entry.writes.length ≤ maxAccessKeysPerEntry
  size : tx.wireSize < 2 ^ 32

theorem Transaction.wireFits_iff {tx : Transaction} : tx.WireFits ↔ tx.Sized := by
  constructor
  · intro h
    exact ⟨h.entries, h.keys, length_encodeTransaction tx ▸ h.length⟩
  · intro h
    have hparts : 8 + tx.data.length + tx.signature.length ≤ tx.wireSize := by
      simp only [Transaction.wireSize, varSize]
      omega
    have hsize := h.size
    exact ⟨by omega, by omega, h.entries, h.keys, by rwa [length_encodeTransaction]⟩

/-- The bounds on a block, its certificate apart. -/
structure SignedBlock.Sized (signed : SignedBlock) : Prop where
  header : signed.block.header.wireSize < 2 ^ 32
  signature : signed.proposerSignature.length < 2 ^ 32
  transactions : ∀ tx ∈ signed.block.body.transactions, tx.Sized
  encrypted : ∀ bytes ∈ signed.block.body.encryptedTxs, bytes.length < 2 ^ 32

/-- A schedule of at most 500 transactions has few groups, with few and small indices. -/
theorem scheduleOf_wireFits {visits : List (Visit ScheduleKey)} (hfew : visits.length ≤ maxTxsPerBlock) :
    (scheduleOf visits).groups.length < 2 ^ 16 ∧ ∀ group ∈ (scheduleOf visits).groups, group.WireFits := by
  obtain ⟨hpartition, hgroups⟩ := scheduleOf_partition visits
  have htotal : ((scheduleOf visits).groups.map fun g => g.txIndices.length).sum = visits.length := by
    rw [← length_flatMap, hpartition.length_eq, length_range]
  have hbound : maxTxsPerBlock < 2 ^ 16 := by decide
  constructor
  · have hcount := length_le_sum_of_one_le ((scheduleOf visits).groups.map fun g => g.txIndices.length) ?_
    · rw [length_map, htotal] at hcount
      omega
    · intro n hn
      obtain ⟨group, hgroup, rfl⟩ := List.mem_map.mp hn
      exact List.length_pos_iff.mpr (hgroups group hgroup).1
  · intro group hgroup
    constructor
    · have hle := le_sum_of_mem (mem_map_of_mem (f := fun g => g.txIndices.length) hgroup)
      rw [htotal] at hle
      omega
    · intro idx hidx
      have hmem := hpartition.mem_iff.mp (List.mem_flatMap.mpr ⟨group, hgroup, hidx⟩)
      rw [mem_range] at hmem
      omega

/-- The schedule of a block is what one of the two schedulers says about its transactions. -/
def Block.Scheduled (P : Prims) (block : Block) : Prop :=
  block.body.executionSchedule = schedule P block.body.transactions ∨
    block.body.executionSchedule = scheduleFromAccessLists (block.body.transactions.map Transaction.accessList)

theorem Block.Scheduled.visits {block : Block} (h : block.Scheduled P) :
    ∃ visits, visits.length = block.body.transactions.length ∧
      block.body.executionSchedule = scheduleOf visits := by
  rcases h with h | h
  · exact ⟨_, length_map _, h⟩
  · exact ⟨_, by rw [length_map, length_map], h⟩

theorem SignedBlock.wireFits_iff {signed : SignedBlock} {st : StateMap} {chainId : U64}
    (hvalid : validateBlockBody P signed.block st chainId = .ok ()) (hscheduled : signed.block.Scheduled P) :
    signed.WireFits ↔ signed.block.header.qcPrevious.Fits ∧ signed.Sized := by
  constructor
  · intro h
    obtain ⟨hqc, hheader⟩ := BlockHeader.fits_iff.mp h.header
    exact ⟨hqc, hheader, h.signature, fun tx htx =>
      Transaction.wireFits_iff.mp (h.transactions tx htx), h.encrypted⟩
  · rintro ⟨hqc, hsized⟩
    obtain ⟨haccepted, -⟩ := validateBlockBody_ok.mp hvalid
    simp only [RefusedOtherwise, not_or, Nat.not_lt] at haccepted
    obtain ⟨-, hencrypted, htxs, -⟩ := haccepted
    obtain ⟨visits, hvisits, hschedule⟩ := hscheduled.visits
    obtain ⟨hcount, hgroups⟩ := scheduleOf_wireFits (hvisits ▸ htxs)
    refine ⟨BlockHeader.fits_iff.mpr ⟨hqc, hsized.header⟩, hsized.signature, htxs.trans (by decide),
      fun tx htx => Transaction.wireFits_iff.mpr (hsized.transactions tx htx), hencrypted.trans (by decide),
      hsized.encrypted, ?_, ?_, ?_⟩
    · rwa [hschedule]
    · rwa [hschedule]
    · rw [hschedule, ← hvisits]
      rfl

theorem decodeQc_encode_iff : (decodeQc.run (encodeQc qc)).map Prod.fst = .ok qc ↔ qc.Fits := by
  constructor
  · intro h
    obtain ⟨_, _, hfits, _⟩ := yields_decodeQc.decoded h
    exact hfits
  · exact fun h => (reads_decodeQc h).decoded

/-- What the protocol produces survives the wire exactly if its certificates have no more signatures than a multisig
account has signers, and its access lists, queues and byte strings are within the limits of the format. -/
theorem protocol_messages_survive_wire (P : Prims) :
    (∀ qc : QuorumCert, qc.Formed P → ((decodeQc.run (encodeQc qc)).map Prod.fst = .ok qc ↔ qc.FewSigners)) ∧
    (∀ (signed : SignedBlock) (st : StateMap) (chainId : U64),
      validateBlockBody P signed.block st chainId = .ok () → signed.block.header.qcPrevious.Formed P →
      signed.block.Scheduled P → (decodeBlock (encodeBlock signed) = .ok signed ↔
        signed.block.header.qcPrevious.FewSigners ∧ signed.Sized)) ∧
    (∀ msg : ConsensusMessage, (∀ qc ∈ msg.certificates, qc.Formed P) →
      (decodeConsensusMessage (encodeConsensusMessage msg) = .ok msg ↔
        (∀ qc ∈ msg.certificates, qc.FewSigners) ∧ msg.Sized)) ∧
    ∀ st : ConsensusState, (∀ qc ∈ st.certificates, qc.Formed P) →
      (decodeConsensusState (encodeConsensusState st) = .ok st ↔
        (∀ qc ∈ st.certificates, qc.FewSigners) ∧ QueueSized st.pendingVotes ∧
          QueueSized st.pendingTimeouts) := by
  refine ⟨?_, ?_, ?_, ?_⟩
  · intro qc hformed
    rw [decodeQc_encode_iff, hformed.fits_iff]
  · intro signed st chainId hvalid hformed hscheduled
    rw [decodeBlock_encode_iff, SignedBlock.wireFits_iff hvalid hscheduled, hformed.fits_iff]
  · intro msg hformed
    rw [decodeConsensusMessage_encode_iff, ConsensusMessage.fits_iff]
    exact and_congr_left fun _ => forall₂_congr fun qc hqc => (hformed qc hqc).fits_iff
  · intro st hformed
    rw [decodeConsensusState_encode_iff, ConsensusState.fits_iff]
    exact and_congr_left fun _ => forall₂_congr fun qc hqc => (hformed qc hqc).fits_iff

/-! ### Full committees -/

def seventeenKeys : List Bytes := (List.range 17).map fun i => lucidKey (BitVec.ofNat 8 i)

/-- A certificate for slot 1 that the whole committee signed. -/
def seventeenCertificate : QuorumCert :=
  { slot := 1, blockHash := zero32, voterBitmap := BitVec.ofNat 128 (2 ^ 17 - 1)
    signatures := (List.range 17).map fun i =>
      (lucidSignature [BitVec.ofNat 8 i] (proposerSignMessage 7 1 zero32)).bytes }

/-- The votes of a whole committee of `n` for one block of slot 1. -/
def committeeVotes (n : Nat) : List ConsensusMessage :=
  (List.range n).map fun i =>
    .vote { slot := 1, blockHash := zero32, voterIndex := BitVec.ofNat 8 i, voterAddress := zero32
            signature := (lucidSignature [BitVec.ofNat 8 i] (proposerSignMessage 7 1 zero32)).bytes }

/-- A block without transactions that carries a certificate. -/
def certifiedBlock (qc : QuorumCert) : SignedBlock where
  block := { blockOf lucid [] [] with header := { (blockOf lucid [] []).header with qcPrevious := qc } }
  proposerSignature := []

/-- A state after genesis that holds a certificate. -/
def certifiedState (qc : QuorumCert) : ConsensusState := { ConsensusState.new with highestQc := qc }

/-- A committee of seventeen forms a certificate that no validator can decode, alone, in a block, in a message and in
the persisted state. -/
theorem full_committee_certificate_refused :
    tryFormQc lucid 7 1 zero32 (committeeVotes 17) seventeenKeys = some seventeenCertificate ∧
    (decodeQc.run (encodeQc seventeenCertificate)).map Prod.fst ≠ .ok seventeenCertificate ∧
    validateBlockBody lucid (certifiedBlock seventeenCertificate).block (fun _ => none) 7 = .ok () ∧
    decodeBlock (encodeBlock (certifiedBlock seventeenCertificate)) ≠ .ok (certifiedBlock seventeenCertificate) ∧
    decodeConsensusMessage (encodeConsensusMessage (.qcAnnounce seventeenCertificate)) ≠
      .ok (.qcAnnounce seventeenCertificate) ∧
    decodeConsensusState (encodeConsensusState (certifiedState seventeenCertificate)) ≠
      .ok (certifiedState seventeenCertificate) := by
  have hmany : ¬ seventeenCertificate.Fits := fun h => absurd h.count (by decide)
  refine ⟨by decide +kernel, ?_, by decide +kernel, ?_, ?_, ?_⟩
  · exact fun h => hmany (decodeQc_encode_iff.mp h)
  · exact fun h => hmany (decodeBlock_encode_iff.mp h).header.certificate
  · exact fun h => hmany (decodeConsensusMessage_encode_iff.mp h)
  · exact fun h => hmany (decodeConsensusState_encode_iff.mp h).certificate

/-- The certificate of a committee of one. -/
def soleCertificate : QuorumCert :=
  { slot := 1, blockHash := zero32, voterBitmap := 1
    signatures := [(lucidSignature [0] (proposerSignMessage 7 1 zero32)).bytes] }

theorem soleCertificate_formed : soleCertificate.Formed lucid :=
  ⟨7, 1, zero32, committeeVotes 1, [lucidKey 0], by decide, by decide, by decide +kernel⟩

/-- The certificate of a single validator survives, and so do a block, a message and a state that carry it. -/
theorem sole_certificate_survives_wire :
    (decodeQc.run (encodeQc soleCertificate)).map Prod.fst = .ok soleCertificate ∧
    decodeBlock (encodeBlock (certifiedBlock soleCertificate)) = .ok (certifiedBlock soleCertificate) ∧
    decodeConsensusMessage (encodeConsensusMessage (.qcAnnounce soleCertificate)) =
      .ok (.qcAnnounce soleCertificate) ∧
    decodeConsensusState (encodeConsensusState (certifiedState soleCertificate)) =
      .ok (certifiedState soleCertificate) := by
  obtain ⟨hqc, hblock, hmessage, hstate⟩ := protocol_messages_survive_wire lucid
  have hformed := soleCertificate_formed
  have hfew : soleCertificate.signatures.length ≤ qcMaxSigners := by decide
  have hempty : QueueSized [] := ⟨Nat.zero_le _, nofun⟩
  refine ⟨(hqc _ hformed).mpr hfew, ?_, ?_, ?_⟩
  · refine (hblock (certifiedBlock soleCertificate) (fun _ => none) 7 (by decide +kernel) hformed (.inl ?_)).mpr
      ⟨hfew, by decide +kernel, by decide, ?_, ?_⟩
    · rfl
    · exact nofun
    · exact nofun
  · exact (hmessage (.qcAnnounce soleCertificate) (List.forall_mem_singleton.mpr hformed)).mpr
      ⟨List.forall_mem_singleton.mpr hfew, trivial⟩
  · exact (hstate (certifiedState soleCertificate) (List.forall_mem_singleton.mpr hformed)).mpr
      ⟨List.forall_mem_singleton.mpr hfew, hempty, hempty⟩

end Pyde
