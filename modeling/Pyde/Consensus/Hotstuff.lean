/-
Module: Pyde.Consensus.Hotstuff
Purpose: The voting rule of one validator, vote verification, the two loops that build a quorum certificate out
  of votes and check a received one, which agree, and the evidence of equivocation.
Trusted boundary: none
-/
import Pyde.Consensus.Block

namespace Pyde

open ByteCodec VoterSet List

/-- `proposer_sign_message`: the 48 bytes that proposers and voters sign for a block. -/
def proposerSignMessage (chainId slot : U64) (blockHash : Hash256) : Bytes :=
  toLe chainId ++ (toLe slot ++ blockHash.toList)

theorem proposerSignMessage_inj {chainId slot chainId' slot' : U64} {h h' : Hash256} :
    proposerSignMessage chainId slot h = proposerSignMessage chainId' slot' h' ↔
      chainId = chainId' ∧ slot = slot' ∧ h = h' := by
  unfold proposerSignMessage
  rw [toLe_append_inj (by decide), toLe_append_inj (by decide), List.Vector.toList_injective.eq_iff]

@[simp] theorem length_proposerSignMessage (chainId slot : U64) (h : Hash256) :
    (proposerSignMessage chainId slot h).length = 48 := by
  simp [proposerSignMessage]

/-- The payload of `ConsensusMessage::Vote`. -/
structure Vote where
  slot : U64
  blockHash : Hash256
  voterIndex : U8
  voterAddress : Address
  signature : Bytes
deriving DecidableEq

/-- Messages exchanged between validators. -/
inductive ConsensusMessage where
  | proposal (header : BlockHeader) (proposerSignature : Bytes)
  | vote (vote : Vote)
  | timeout (slot : U64) (voterIndex : U8) (voterAddress : Address) (highestQc : QuorumCert)
      (signature : Bytes)
  | newView (slot : U64) (highestQc : QuorumCert) (voterAddress : Address) (signature : Bytes)
  | qcAnnounce (qc : QuorumCert)
deriving DecidableEq

/-- The consensus state of one validator. -/
structure ConsensusState where
  currentSlot : U64
  currentEpoch : U64
  highestQc : QuorumCert
  lastVotedSlot : U64
  lastVotedView : U64
  lastCommittedHash : Hash256
  lastCommittedSlot : U64
  targetHeight : U64
  currentView : U64
  pendingVotes : List ConsensusMessage
  pendingTimeouts : List ConsensusMessage
deriving DecidableEq

namespace ConsensusState

def new : ConsensusState :=
  { currentSlot := 0, currentEpoch := 0, highestQc := QuorumCert.empty, lastVotedSlot := 0,
    lastVotedView := 0, lastCommittedHash := zero32, lastCommittedSlot := 0,
    -- genesis is at slot 0, so the first slot to commit is 1
    targetHeight := 1, currentView := 0, pendingVotes := [], pendingTimeouts := [] }

/-- `advance_slot`: the wall clock moves, the height being committed does not. -/
def advanceSlot (st : ConsensusState) : ConsensusState :=
  { st with currentSlot := st.currentSlot + 1, pendingVotes := [], pendingTimeouts := [] }

def advanceTargetHeight (st : ConsensusState) (newHeight : U64) : ConsensusState × Bool :=
  if st.targetHeight < newHeight then
    ({ st with targetHeight := newHeight, currentView := 0 }, true)
  else (st, false)

/-- The promotion of a newer certificate into `highest_qc`. -/
def adoptQc (st : ConsensusState) (qc : QuorumCert) : ConsensusState :=
  if st.highestQc.slot < qc.slot then { st with highestQc := qc } else st

end ConsensusState

/-! ### Certificate verification -/

/-- The loop of `verify_qc`: bit positions run upwards, and each set bit consumes one signature. -/
def verifyQcLoop (P : Prims) (keys : List Bytes) (preimage : Bytes)
    (voterBitmap : U128) : List Nat → List Bytes → Bool
  | [], _ => true
  | bitPos :: rest, signatures =>
    if voterBitmap.getLsbD bitPos = false then
      verifyQcLoop P keys preimage voterBitmap rest signatures
    else if keys.length ≤ bitPos then false
    else
      match signatures with
      -- the length check before the loop rules this case out
      | [] => false
      | signature :: signatures =>
        P.verifyRaw (keys.getD bitPos []) preimage signature &&
          verifyQcLoop P keys preimage voterBitmap rest signatures

/-- `verify_qc`. An empty certificate passes whatever its slot is. -/
def verifyQc (P : Prims) (qc : QuorumCert) (keys : List Bytes) (chainId : U64) : Bool :=
  if qc.voterBitmap = 0#128 ∧ qc.signatures = [] then true
  else if keys.length = 0 then false
  else if countOnes qc.voterBitmap ≠ qc.signatures.length then false
  else if countOnes qc.voterBitmap < quorumForCommittee keys.length then false
  else
    verifyQcLoop P keys (proposerSignMessage chainId qc.slot qc.blockHash) qc.voterBitmap
      (List.range 128) qc.signatures

/-- The committee member at index `i` signed `msg`, and `signature` shows it. -/
def SignedBy (P : Prims) (keys : List Bytes) (msg : Bytes) (i : Nat)
    (signature : Bytes) : Prop :=
  i < keys.length ∧ P.verifyRaw (keys.getD i []) msg signature = true

theorem verifyQcLoop_iff (P : Prims) (keys : List Bytes) (preimage : Bytes)
    (voterBitmap : U128) {bits : List Nat} {signatures : List Bytes}
    (hlen : (bits.filter (voterBitmap.getLsbD ·)).length = signatures.length) :
    verifyQcLoop P keys preimage voterBitmap bits signatures = true ↔
      List.Forall₂ (SignedBy P keys preimage) (bits.filter (voterBitmap.getLsbD ·)) signatures := by
  induction bits generalizing signatures with
  | nil =>
    have hnil : signatures = [] := eq_nil_of_length_eq_zero (by simpa using hlen.symm)
    simp [verifyQcLoop, hnil]
  | cons bit bits ih =>
    cases hbit : voterBitmap.getLsbD bit with
    | false =>
      simp only [filter_cons, hbit] at hlen ⊢
      simp only [verifyQcLoop, hbit]
      exact ih hlen
    | true =>
      simp only [filter_cons, hbit, if_true, length_cons] at hlen ⊢
      cases signatures with
      | nil => simp at hlen
      | cons signature signatures =>
        simp only [length_cons, Nat.add_right_cancel_iff] at hlen
        by_cases hidx : keys.length ≤ bit
        · simp [verifyQcLoop, hbit, hidx, SignedBy, Nat.not_lt.mpr hidx]
        · simp [verifyQcLoop, hbit, hidx, SignedBy, Nat.lt_of_not_le hidx, ih hlen]

section

variable {P : Prims} {qc : QuorumCert} {keys : List Bytes} {chainId : U64}

/-- What `verify_qc` accepts: an empty certificate, or one whose set bits are matched, position by
position, by valid signatures of at least a quorum of committee members. -/
theorem verifyQc_iff :
    verifyQc P qc keys chainId = true ↔ (qc.voterBitmap = 0#128 ∧ qc.signatures = []) ∨
      (keys.length ≠ 0 ∧ quorumForCommittee keys.length ≤ countOnes qc.voterBitmap ∧
        List.Forall₂ (SignedBy P keys (proposerSignMessage chainId qc.slot qc.blockHash))
          (positions qc.voterBitmap) qc.signatures) := by
  unfold verifyQc
  by_cases hempty : qc.voterBitmap = 0#128 ∧ qc.signatures = []
  · simp [hempty]
  rw [if_neg hempty]
  by_cases hn : keys.length = 0
  · simp [hempty, hn]
  rw [if_neg hn]
  by_cases hlen : countOnes qc.voterBitmap = qc.signatures.length
  · rw [if_neg (not_not_intro hlen)]
    by_cases hquorum : countOnes qc.voterBitmap < quorumForCommittee keys.length
    · simp [hempty, hquorum, Nat.not_le.mpr hquorum]
    rw [if_neg hquorum, verifyQcLoop_iff P keys _ _ hlen]
    simp only [hempty, false_or, ne_eq, hn, not_false_eq_true, true_and, Nat.le_of_not_lt hquorum]
    rfl
  rw [if_pos hlen]
  simp only [Bool.false_eq_true, false_iff, hempty, false_or, not_and]
  intro _ _ hforall
  exact hlen hforall.length_eq

/-- The signers of an accepted certificate with at least one voter. -/
theorem exists_signature_of_verifyQc (hverify : verifyQc P qc keys chainId = true)
    (hvoters : qc.voterBitmap ≠ 0#128) {i : Nat} (hi : i ∈ positions qc.voterBitmap) :
    ∃ signature ∈ qc.signatures,
      SignedBy P keys (proposerSignMessage chainId qc.slot qc.blockHash) i signature := by
  rcases verifyQc_iff.mp hverify with ⟨hzero, _⟩ | ⟨_, _, hforall⟩
  · exact absurd hzero hvoters
  obtain ⟨k, hk, rfl⟩ := getElem_of_mem hi
  have hk' : k < qc.signatures.length := hforall.length_eq ▸ hk
  exact ⟨qc.signatures[k], getElem_mem hk', hforall.get hk hk'⟩

end

/-! ### Voting -/

/-- The view a proposal was made in: a fallback marker in `vrf_proof` names it, and a proposal
without one is at view 0. -/
def proposalView (header : BlockHeader) : U64 :=
  match decodeFallbackProof header.vrfProof with
  | some (_, view) => view
  | none => 0

/-- `(slot, view) <= (slot', view')` on pairs, the derived lexicographic order. -/
def lexLe (slot view slot' view' : U64) : Prop := slot < slot' ∨ (slot = slot' ∧ view ≤ view')

instance (slot view slot' view' : U64) : Decidable (lexLe slot view slot' view') :=
  inferInstanceAs (Decidable (slot < slot' ∨ (slot = slot' ∧ view ≤ view')))

/-- `create_vote`. The certificate inside the header is promoted before the vote is signed, so a
signing error leaves `highest_qc` updated and nothing else. -/
def createVote (P : Prims) (chainId : U64) (st : ConsensusState) (header : BlockHeader)
    (voterIndex : U8) (voterAddress : Address) (voterSk : FalconSecretKey)
    (keys : List Bytes) (coins : Bytes) : ConsensusState × Except String (Option Vote) :=
  if lexLe header.slot (proposalView header) st.lastVotedSlot st.lastVotedView then
    (st, .ok none)
  else if header.qcPrevious.slot < st.highestQc.slot then (st, .ok none)
  else if verifyQc P header.qcPrevious keys chainId = false then
    (st, .error "invalid qc_previous: signature verification failed")
  else
    let st := st.adoptQc header.qcPrevious
    let blockHash := header.hash P
    match P.falconSign voterSk (proposerSignMessage chainId header.slot blockHash) coins with
    | none => (st, .error "vote signing failed")
    | some sig =>
      ({ st with lastVotedSlot := header.slot, lastVotedView := proposalView header },
        .ok (some { slot := header.slot, blockHash, voterIndex, voterAddress, signature := sig.bytes }))

/-- Everything one call of `create_vote` can do. -/
theorem createVote_cases (P : Prims) (chainId : U64) (st : ConsensusState)
    (header : BlockHeader) (voterIndex : U8) (voterAddress : Address) (voterSk : FalconSecretKey)
    (keys : List Bytes) (coins : Bytes) :
    (∃ reply, createVote P chainId st header voterIndex voterAddress voterSk keys coins =
        (st, reply) ∧ ∀ vote, reply ≠ .ok (some vote)) ∨ (verifyQc P header.qcPrevious keys chainId = true ∧
      P.falconSign voterSk (proposerSignMessage chainId header.slot (header.hash P)) coins = none ∧
      createVote P chainId st header voterIndex voterAddress voterSk keys coins =
        (st.adoptQc header.qcPrevious, .error "vote signing failed")) ∨
    (∃ sig, ¬ lexLe header.slot (proposalView header) st.lastVotedSlot st.lastVotedView ∧
      verifyQc P header.qcPrevious keys chainId = true ∧
      P.falconSign voterSk (proposerSignMessage chainId header.slot (header.hash P)) coins = some sig ∧
      createVote P chainId st header voterIndex voterAddress voterSk keys coins =
        ({ st.adoptQc header.qcPrevious with lastVotedSlot := header.slot, lastVotedView := proposalView header },
          .ok (some { slot := header.slot, blockHash := header.hash P, voterIndex, voterAddress,
                      signature := sig.bytes }))) := by
  unfold createVote
  by_cases hlex : lexLe header.slot (proposalView header) st.lastVotedSlot st.lastVotedView
  · rw [if_pos hlex]
    exact .inl ⟨_, rfl, by simp⟩
  rw [if_neg hlex]
  by_cases hold : header.qcPrevious.slot < st.highestQc.slot
  · rw [if_pos hold]
    exact .inl ⟨_, rfl, by simp⟩
  rw [if_neg hold]
  cases hverify : verifyQc P header.qcPrevious keys chainId with
  | false => exact .inl ⟨_, rfl, by simp⟩
  | true =>
    rw [if_neg (by decide)]
    cases hsign : P.falconSign voterSk
        (proposerSignMessage chainId header.slot (header.hash P)) coins with
    | none => exact .inr (.inl ⟨rfl, rfl, by simp only [hsign]⟩)
    | some sig => exact .inr (.inr ⟨sig, hlex, rfl, rfl, by simp only [hsign]⟩)

def verifyVote (P : Prims) (chainId : U64) (msg : ConsensusMessage) (publicKey : Bytes) : Bool :=
  match msg with
  | .vote vote => P.verifyRaw publicKey (proposerSignMessage chainId vote.slot vote.blockHash) vote.signature
  | _ => false

/-! ### Certificate formation -/

/-- The variables of the loop in `try_form_qc`. -/
structure VoteTally where
  voterBitmap : U128
  indexedSigs : List (U8 × Bytes)
  validCount : Nat
deriving DecidableEq

namespace VoteTally

def init : VoteTally := { voterBitmap := 0, indexedSigs := [], validCount := 0 }

def count (P : Prims) (chainId slot : U64) (blockHash : Hash256) (keys : List Bytes)
    (tally : VoteTally) (msg : ConsensusMessage) : VoteTally :=
  match msg with
  | .vote vote =>
    if vote.slot ≠ slot ∨ vote.blockHash ≠ blockHash then tally
    else
      let idx := vote.voterIndex.toNat
      if keys.length ≤ idx then tally
      else if hasVoter tally.voterBitmap idx then tally
      else if verifyVote P chainId msg (keys.getD idx []) then
        { voterBitmap := addVoter tally.voterBitmap idx
          indexedSigs := tally.indexedSigs ++ [(vote.voterIndex, vote.signature)]
          validCount := tally.validCount + 1 }
      else tally
  | _ => tally

end VoteTally

/-- `sort_by_key(|(idx, _)| *idx)`, which is stable. -/
def sortByIndex (indexedSigs : List (U8 × Bytes)) : List (U8 × Bytes) :=
  indexedSigs.insertionSort (fun a b => a.1.toNat ≤ b.1.toNat)

def tryFormQc (P : Prims) (chainId slot : U64) (blockHash : Hash256)
    (votes : List ConsensusMessage) (keys : List Bytes) : Option QuorumCert :=
  let tally := votes.foldl (VoteTally.count P chainId slot blockHash keys) VoteTally.init
  if quorumForCommittee keys.length ≤ tally.validCount then
    some { slot, blockHash, voterBitmap := tally.voterBitmap,
           signatures := (sortByIndex tally.indexedSigs).map Prod.snd }
  else none

structure DoubleSignEvidence where
  slot : U64
  blockHash1 : Hash256
  signature1 : Bytes
  blockHash2 : Hash256
  signature2 : Bytes
  signer : Address
  submitter : Address
deriving DecidableEq

/-- Two view-change messages of one slot that report different certificates. -/
structure DoubleViewChangeEvidence where
  slot : U64
  qcHash1 : Hash256
  signature1 : Bytes
  qcHash2 : Hash256
  signature2 : Bytes
  signer : Address
  submitter : Address
deriving DecidableEq

/-- The shared shape of both checks: two different digests, and under one key a valid signature over
the message built from each. -/
def verifyTwoSignatures (P : Prims) (publicKey : Bytes) (msg : Hash256 → Bytes)
    (hash1 : Hash256) (signature1 : Bytes) (hash2 : Hash256) (signature2 : Bytes) : Bool :=
  if hash1 = hash2 then false
  else
    match FalconPublicKey.fromBytes publicKey with
    | none => false
    | some pk =>
      match FalconSignature.fromBytes signature1, FalconSignature.fromBytes signature2 with
      | some sig1, some sig2 => P.falconVerify pk (msg hash1) sig1 && P.falconVerify pk (msg hash2) sig2
      | _, _ => false

def verifyDoubleSign (P : Prims) (chainId : U64) (ev : DoubleSignEvidence)
    (publicKey : Bytes) : Bool :=
  verifyTwoSignatures P publicKey (proposerSignMessage chainId ev.slot) ev.blockHash1
    ev.signature1 ev.blockHash2 ev.signature2

def verifyDoubleViewChange (P : Prims) (chainId : U64) (ev : DoubleViewChangeEvidence)
    (publicKey : Bytes) : Bool :=
  verifyTwoSignatures P publicKey (viewChangeSignMessageFromHash chainId ev.slot)
    ev.qcHash1 ev.signature1 ev.qcHash2 ev.signature2

theorem verifyTwoSignatures_iff {P : Prims} {publicKey : Bytes} {msg : Hash256 → Bytes}
    {hash1 hash2 : Hash256} {signature1 signature2 : Bytes} :
    verifyTwoSignatures P publicKey msg hash1 signature1 hash2 signature2 = true ↔
      hash1 ≠ hash2 ∧ P.verifyRaw publicKey (msg hash1) signature1 = true ∧
        P.verifyRaw publicKey (msg hash2) signature2 = true := by
  unfold verifyTwoSignatures Prims.verifyRaw
  by_cases hne : hash1 = hash2
  · simp [hne]
  rw [if_neg hne]
  cases FalconPublicKey.fromBytes publicKey with
  | none => simp
  | some pk =>
    cases FalconSignature.fromBytes signature1 with
    | none => simp
    | some sig1 =>
      cases FalconSignature.fromBytes signature2 with
      | none => simp
      | some sig2 => simp [hne]

variable {votes seen : List ConsensusMessage} {i : Nat} {tally : VoteTally} {qc : QuorumCert}

variable {P : Prims} {chainId slot : U64} {blockHash : Hash256} {keys : List Bytes}

/-- `message` is a vote for exactly this slot and block under committee index `i`, and its signature
is valid for the key at that index. -/
def isVoteFrom (P : Prims) (chainId slot : U64) (blockHash : Hash256)
    (keys : List Bytes) (i : Nat) : ConsensusMessage → Bool
  | .vote vote =>
    decide (vote.slot = slot ∧ vote.blockHash = blockHash ∧ vote.voterIndex.toNat = i) &&
      verifyVote P chainId (.vote vote) (keys.getD i [])
  | _ => false

/-- The committee indices with a valid vote for this slot and block among `votes`. -/
def validVoters (P : Prims) (chainId slot : U64) (blockHash : Hash256)
    (keys : List Bytes) (votes : List ConsensusMessage) : Finset Nat :=
  (Finset.range keys.length).filter
    fun i => votes.any (isVoteFrom P chainId slot blockHash keys i) = true

theorem mem_validVoters :
    i ∈ validVoters P chainId slot blockHash keys votes ↔ i < keys.length ∧
        ∃ msg ∈ votes, isVoteFrom P chainId slot blockHash keys i msg = true := by
  simp [validVoters]

theorem mem_validVoters_append_singleton {msg : ConsensusMessage} :
    i ∈ validVoters P chainId slot blockHash keys (votes ++ [msg]) ↔
      i ∈ validVoters P chainId slot blockHash keys votes ∨ (i < keys.length ∧
          isVoteFrom P chainId slot blockHash keys i msg = true) := by
  simp only [mem_validVoters, mem_append, mem_singleton, or_and_right, exists_or, exists_eq_left, and_or_left]

theorem isVoteFrom_iff {msg : ConsensusMessage} :
    isVoteFrom P chainId slot blockHash keys i msg = true ↔
      ∃ vote, msg = .vote vote ∧ vote.slot = slot ∧ vote.blockHash = blockHash ∧ vote.voterIndex.toNat = i ∧
        P.verifyRaw (keys.getD i []) (proposerSignMessage chainId slot blockHash) vote.signature = true := by
  cases msg with
  | vote vote =>
    simp only [isVoteFrom, Bool.and_eq_true, decide_eq_true_eq, verifyVote, ConsensusMessage.vote.injEq,
      exists_eq_left', and_assoc]
    refine and_congr_right ?_
    rintro rfl
    refine and_congr_right ?_
    rintro rfl
    rfl
  | proposal | timeout | newView | qcAnnounce => simp [isVoteFrom]

theorem eq_voterIndex_of_isVoteFrom {vote : Vote}
    (h : isVoteFrom P chainId slot blockHash keys i (.vote vote) = true) : i = vote.voterIndex.toNat := by
  obtain ⟨vote', heq, _, _, hidx, _⟩ := isVoteFrom_iff.mp h
  cases heq
  exact hidx.symm

namespace VoteTally

/-- One turn of the loop either finds nothing new or records exactly one new valid voter. -/
theorem count_cases (hsize : keys.length ≤ 128) (tally : VoteTally) (msg : ConsensusMessage) :
    (count P chainId slot blockHash keys tally msg = tally ∧ ∀ i < keys.length,
        isVoteFrom P chainId slot blockHash keys i msg = true → tally.voterBitmap.getLsbD i = true) ∨
    (∃ vote, msg = .vote vote ∧ vote.voterIndex.toNat < keys.length ∧
      isVoteFrom P chainId slot blockHash keys vote.voterIndex.toNat msg = true ∧
      tally.voterBitmap.getLsbD vote.voterIndex.toNat = false ∧
      count P chainId slot blockHash keys tally msg =
        { voterBitmap := setBit tally.voterBitmap vote.voterIndex.toNat
          indexedSigs := tally.indexedSigs ++ [(vote.voterIndex, vote.signature)]
          validCount := tally.validCount + 1 }) := by
  cases msg with
  | proposal | timeout | newView | qcAnnounce => exact .inl ⟨rfl, by simp [isVoteFrom]⟩
  | vote vote =>
    by_cases hnew : vote.voterIndex.toNat < keys.length ∧
      isVoteFrom P chainId slot blockHash keys vote.voterIndex.toNat (.vote vote) = true ∧
      tally.voterBitmap.getLsbD vote.voterIndex.toNat = false
    · obtain ⟨hlt, hvalid, hclear⟩ := hnew
      have hword : vote.voterIndex.toNat < 128 := by omega
      refine .inr ⟨vote, rfl, hlt, hvalid, hclear, ?_⟩
      simp only [count, hasVoter_eq hword, addVoter_eq hword]
      grind [isVoteFrom]
    · refine .inl ⟨?_, fun i hi hvote => ?_⟩
      · by_cases hlt : vote.voterIndex.toNat < keys.length
        · simp only [count, hasVoter_eq (show vote.voterIndex.toNat < 128 by omega)]
          grind [isVoteFrom]
        · simp only [count, if_pos (Nat.not_lt.mp hlt), ite_self]
      · obtain rfl := eq_voterIndex_of_isVoteFrom hvote
        exact Bool.not_eq_false _ ▸ fun hclear => hnew ⟨hi, hvote, hclear⟩

/-- The loop invariant of `try_form_qc` after the votes in `seen`. -/
structure Counts (P : Prims) (chainId slot : U64) (blockHash : Hash256)
    (keys : List Bytes) (seen : List ConsensusMessage) (tally : VoteTally) : Prop where
  bitmap_iff : ∀ i, tally.voterBitmap.getLsbD i = true ↔ i ∈ validVoters P chainId slot blockHash keys seen
  indices_iff : ∀ i, i ∈ tally.indexedSigs.map (·.1.toNat) ↔ tally.voterBitmap.getLsbD i = true
  indices_nodup : (tally.indexedSigs.map (·.1.toNat)).Nodup
  signed : ∀ entry ∈ tally.indexedSigs,
    SignedBy P keys (proposerSignMessage chainId slot blockHash) entry.1.toNat entry.2
  received : ∀ entry ∈ tally.indexedSigs, ∃ vote : Vote, .vote vote ∈ seen ∧ vote.signature = entry.2
  counted : tally.validCount = tally.indexedSigs.length

theorem counts_init : Counts P chainId slot blockHash keys [] init where
  bitmap_iff := by simp [init, mem_validVoters]
  indices_iff := by simp [init]
  indices_nodup := by simp [init]
  signed := by simp [init]
  received := by simp [init]
  counted := rfl

theorem Counts.count (hsize : keys.length ≤ 128)
    (h : Counts P chainId slot blockHash keys seen tally) (msg : ConsensusMessage) :
    Counts P chainId slot blockHash keys (seen ++ [msg])
      (tally.count P chainId slot blockHash keys msg) := by
  have hreceived : ∀ entry ∈ tally.indexedSigs, ∃ vote : Vote, .vote vote ∈ seen ++ [msg] ∧
      vote.signature = entry.2 :=
    fun entry hentry => (h.received entry hentry).imp fun _ hvote => ⟨mem_append_left _ hvote.1, hvote.2⟩
  rcases count_cases hsize tally msg with ⟨hsame, hknown⟩ | ⟨vote, rfl, hlt, hvalid, hclear, hnew⟩
  · rw [hsame]
    refine { h with bitmap_iff := fun i => ?_, received := hreceived }
    rw [mem_validVoters_append_singleton, ← h.bitmap_iff]
    exact ⟨.inl, fun hbit => hbit.elim id fun hfrom => hknown i hfrom.1 hfrom.2⟩
  · have hword : vote.voterIndex.toNat < 128 := by omega
    obtain ⟨vote, ⟨⟩, -, -, -, hverify⟩ := isVoteFrom_iff.mp hvalid
    rw [hnew]
    constructor
    case bitmap_iff =>
      intro i
      rw [mem_validVoters_append_singleton, ← h.bitmap_iff, getLsbD_setBit hword, Bool.or_eq_true, decide_eq_true_iff]
      refine or_congr_right ⟨?_, fun hfrom => eq_voterIndex_of_isVoteFrom hfrom.2⟩
      rintro rfl
      exact ⟨hlt, hvalid⟩
    case indices_iff =>
      intro i
      rw [getLsbD_setBit hword]
      simp only [map_append, mem_append, h.indices_iff, map_cons, map_nil,
        mem_singleton, Bool.or_eq_true, decide_eq_true_eq]
    case indices_nodup =>
      simp only [map_append, map_cons, map_nil]
      refine List.Nodup.append h.indices_nodup (nodup_singleton _) ?_
      rw [disjoint_singleton, h.indices_iff, hclear]
      decide
    case signed =>
      rw [forall_mem_append, forall_mem_singleton]
      exact ⟨h.signed, hlt, hverify⟩
    case received =>
      rw [forall_mem_append, forall_mem_singleton]
      exact ⟨hreceived, vote, mem_append_right _ (mem_singleton_self _), rfl⟩
    case counted => simp [h.counted]

theorem counts_foldl (hsize : keys.length ≤ 128) (votes : List ConsensusMessage) :
    Counts P chainId slot blockHash keys votes
      (votes.foldl (VoteTally.count P chainId slot blockHash keys) init) := by
  induction votes using List.reverseRecOn with
  | nil => exact counts_init
  | append_singleton votes msg ih =>
    rw [foldl_append]
    exact ih.count hsize msg

section

variable (h : Counts P chainId slot blockHash keys seen tally)
include h

theorem Counts.validCount_eq : tally.validCount = (validVoters P chainId slot blockHash keys seen).card := by
  have hset : (tally.indexedSigs.map (·.1.toNat)).toFinset =
      validVoters P chainId slot blockHash keys seen := by
    ext i
    rw [mem_toFinset, h.indices_iff, h.bitmap_iff]
  rw [← hset, toFinset_card_of_nodup h.indices_nodup, length_map, h.counted]

/-- Sorting lines the signatures up with the set bits of the bitmap. -/
theorem Counts.sorted_indices : (sortByIndex tally.indexedSigs).map (·.1.toNat) = positions tally.voterBitmap := by
  have hperm : ((sortByIndex tally.indexedSigs).map (·.1.toNat)).Perm
      (tally.indexedSigs.map (·.1.toNat)) := (perm_insertionSort _ _).map _
  have hle : ((sortByIndex tally.indexedSigs).map (·.1.toNat)).Pairwise (· ≤ ·) := by
    rw [pairwise_map]
    exact pairwise_insertionSort (fun a b : U8 × Bytes => a.1.toNat ≤ b.1.toNat) _
  have hnodup := hperm.nodup_iff.mpr h.indices_nodup
  apply positions_eq_of_sorted
  · exact hle.imp₂ (fun _ _ hab hne => Nat.lt_of_le_of_ne hab hne) hnodup
  · intro i
    rw [hperm.mem_iff, h.indices_iff]

theorem Counts.signatures_signed :
    List.Forall₂ (SignedBy P keys (proposerSignMessage chainId slot blockHash))
      (positions tally.voterBitmap) ((sortByIndex tally.indexedSigs).map Prod.snd) := by
  rw [← h.sorted_indices, forall₂_map_left_iff, forall₂_map_right_iff, forall₂_same]
  intro entry hentry
  exact h.signed entry ((perm_insertionSort _ _).mem_iff.mp hentry)

end

end VoteTally

section

variable (hsize : keys.length ≤ 128)
include hsize

/-- `try_form_qc` returns a certificate exactly when a quorum of committee indices voted. -/
theorem tryFormQc_isSome_iff :
    (tryFormQc P chainId slot blockHash votes keys).isSome = true ↔ quorumForCommittee keys.length ≤
        (validVoters P chainId slot blockHash keys votes).card := by
  have hcounts : VoteTally.Counts P chainId slot blockHash keys votes _ := VoteTally.counts_foldl hsize votes
  rw [← hcounts.validCount_eq]
  simp [tryFormQc]

/-- A returned certificate is made of the final values of the loop variables. -/
theorem tryFormQc_some (hform : tryFormQc P chainId slot blockHash votes keys = some qc) :
    ∃ tally, VoteTally.Counts P chainId slot blockHash keys votes tally ∧
      quorumForCommittee keys.length ≤ tally.validCount ∧
      qc = { slot, blockHash, voterBitmap := tally.voterBitmap,
             signatures := (sortByIndex tally.indexedSigs).map Prod.snd } := by
  simp only [tryFormQc] at hform
  split at hform
  · rename_i hquorum
    injection hform with hform
    exact ⟨_, VoteTally.counts_foldl hsize votes, hquorum, hform.symm⟩
  · cases hform

/-- The bitmap of a formed certificate is the set of valid voters. -/
theorem getLsbD_voterBitmap_of_tryFormQc (hform : tryFormQc P chainId slot blockHash votes keys = some qc)
    (i : Nat) : qc.voterBitmap.getLsbD i = true ↔ i ∈ validVoters P chainId slot blockHash keys votes := by
  obtain ⟨tally, hcounts, _, rfl⟩ := tryFormQc_some hsize hform
  exact hcounts.bitmap_iff i

theorem map_voterBitmap_tryFormQc_congr {votes' : List ConsensusMessage}
    (hvoters : validVoters P chainId slot blockHash keys votes' = validVoters P chainId slot blockHash keys votes) :
    (tryFormQc P chainId slot blockHash votes' keys).map QuorumCert.voterBitmap =
      (tryFormQc P chainId slot blockHash votes keys).map QuorumCert.voterBitmap := by
  have hcounts : VoteTally.Counts P chainId slot blockHash keys votes _ := VoteTally.counts_foldl hsize votes
  have hcounts' : VoteTally.Counts P chainId slot blockHash keys votes' _ := VoteTally.counts_foldl hsize votes'
  have hbits := fun i => (hcounts'.bitmap_iff i).trans (hvoters ▸ (hcounts.bitmap_iff i).symm)
  have hbitmap := eq_of_mem_positions fun i => mem_positions.trans ((hbits i).trans mem_positions.symm)
  simp only [tryFormQc, hcounts'.validCount_eq, hcounts.validCount_eq, hvoters, apply_ite (Option.map _),
    Option.map_some, hbitmap]

/-- What a formed certificate consists of: it is for the requested slot and block, has at least a
quorum of voters, and each set bit comes with a valid signature taken from the votes. -/
theorem tryFormQc_contents (hform : tryFormQc P chainId slot blockHash votes keys = some qc) :
    qc.slot = slot ∧ qc.blockHash = blockHash ∧ quorumForCommittee keys.length ≤ countOnes qc.voterBitmap ∧
      List.Forall₂ (SignedBy P keys (proposerSignMessage chainId slot blockHash))
        (positions qc.voterBitmap) qc.signatures ∧
      ∀ signature ∈ qc.signatures, ∃ vote : Vote, .vote vote ∈ votes ∧ vote.signature = signature := by
  obtain ⟨tally, hcounts, hquorum, rfl⟩ := tryFormQc_some hsize hform
  have hsigned := hcounts.signatures_signed
  refine ⟨rfl, rfl, ?_, hsigned, ?_⟩
  · have hlen : countOnes tally.voterBitmap = tally.indexedSigs.length := by
      rw [countOnes, ← hcounts.sorted_indices, length_map]
      exact length_insertionSort _ _
    rwa [hlen, ← hcounts.counted]
  · intro signature hsig
    obtain ⟨entry, hentry, rfl⟩ := List.mem_map.mp hsig
    exact hcounts.received entry ((perm_insertionSort _ _).mem_iff.mp hentry)

end

/-- A certificate whose bitmap and signature list differ in length, and that is not empty, is
rejected. -/
theorem verifyQc_eq_false_of_count_ne (hsome : qc.signatures ≠ [] ∨ qc.voterBitmap ≠ 0#128)
    (hcount : countOnes qc.voterBitmap ≠ qc.signatures.length) : verifyQc P qc keys chainId = false := by
  rw [← Bool.not_eq_true, verifyQc_iff]
  rintro (⟨hzero, hnil⟩ | ⟨_, _, hforall⟩)
  · rcases hsome with h | h
    · exact h hnil
    · exact h hzero
  · exact hcount hforall.length_eq

/-- QC formation and verification agree. -/
theorem qc_formation_agrees_with_verification (P : Prims) (chainId slot : U64)
    (blockHash : Hash256) (keys : List Bytes) (hpos : 1 ≤ keys.length)
    (hsize : keys.length ≤ 128) (votes : List ConsensusMessage)
    (hbind : ∀ i < keys.length, P.BindsMessage (keys.getD i [])
      {signature | ∃ vote : Vote, .vote vote ∈ votes ∧ vote.signature = signature}) :
    ((tryFormQc P chainId slot blockHash votes keys).isSome = true ↔ quorumForCommittee keys.length ≤
        (validVoters P chainId slot blockHash keys votes).card) ∧
    (∀ votes', validVoters P chainId slot blockHash keys votes' =
        validVoters P chainId slot blockHash keys votes →
      (tryFormQc P chainId slot blockHash votes' keys).map QuorumCert.voterBitmap =
        (tryFormQc P chainId slot blockHash votes keys).map QuorumCert.voterBitmap) ∧
    ∀ qc, tryFormQc P chainId slot blockHash votes keys = some qc →
      (qc.slot = slot ∧ qc.blockHash = blockHash) ∧ (∀ i, qc.voterBitmap.getLsbD i = true ↔
        i ∈ validVoters P chainId slot blockHash keys votes) ∧ verifyQc P qc keys chainId = true ∧
      (∀ slot' blockHash', (slot', blockHash') ≠ (slot, blockHash) →
        verifyQc P { qc with slot := slot', blockHash := blockHash' } keys chainId = false) ∧
      (∀ i < 128, verifyQc P { qc with voterBitmap := flipBit qc.voterBitmap i } keys chainId = false) ∧
      (∀ k < qc.signatures.length,
        verifyQc P { qc with signatures := qc.signatures.eraseIdx k } keys chainId = false) := by
  refine ⟨tryFormQc_isSome_iff hsize, fun votes' => map_voterBitmap_tryFormQc_congr hsize, ?_⟩
  intro qc hform
  obtain ⟨hslot, hhash, hquorum, hsigned, hreceived⟩ := tryFormQc_contents hsize hform
  have hvoters : 0 < countOnes qc.voterBitmap := Nat.lt_of_lt_of_le (quorumForCommittee_pos hpos) hquorum
  have hlen : countOnes qc.voterBitmap = qc.signatures.length := hsigned.length_eq
  have hnonempty : qc.signatures ≠ [] := ne_nil_of_length_pos (hlen ▸ hvoters)
  have hbitmap : qc.voterBitmap ≠ 0#128 := by
    intro hzero
    rw [hzero, countOnes, positions_zero] at hvoters
    exact Nat.lt_irrefl 0 hvoters
  refine ⟨⟨hslot, hhash⟩, getLsbD_voterBitmap_of_tryFormQc hsize hform, ?_, ?_, ?_, ?_⟩
  · rw [verifyQc_iff, hslot, hhash]
    exact .inr ⟨Nat.one_le_iff_ne_zero.mp hpos, hquorum, hsigned⟩
  · intro slot' blockHash' hchange
    rw [← Bool.not_eq_true, verifyQc_iff]
    rintro (⟨hzero, _⟩ | ⟨_, _, hsigned'⟩)
    · exact hbitmap hzero
    · -- the first signature would verify for two different messages
      have h0 : 0 < (positions qc.voterBitmap).length := hvoters
      have h0' : 0 < qc.signatures.length := hlen ▸ hvoters
      obtain ⟨hidx, hok⟩ := hsigned.get h0 h0'
      obtain ⟨_, hok'⟩ := hsigned'.get h0 h0'
      have hmsg := hbind _ hidx _ (hreceived _ (getElem_mem h0')) _ _ hok' hok
      rw [proposerSignMessage_inj] at hmsg
      exact hchange (Prod.ext hmsg.2.1 hmsg.2.2)
  · intro i hi
    refine verifyQc_eq_false_of_count_ne (.inl hnonempty) ?_
    simp only [← hlen]
    exact countOnes_flipBit_ne hi
  · intro k hk
    refine verifyQc_eq_false_of_count_ne (.inr hbitmap) ?_
    simp only [hlen, length_eraseIdx_of_lt hk]
    omega

/-- One validator, one vote: the certificate forms. -/
theorem qc_formation_agrees_single_validator :
    (tryFormQc lucid 7 1 zero32
      [.vote { slot := 1, blockHash := zero32, voterIndex := 0, voterAddress := zero32,
               signature := (lucidSignature [5] (proposerSignMessage 7 1 zero32)).bytes }]
      [lucidKey 5]).isSome = true := by
  have hbind : ∀ known, ∀ i < [lucidKey 5].length,
      lucid.BindsMessage ([lucidKey 5].getD i []) known := by
    intro known i hi
    have hi0 : i = 0 := by simpa using hi
    subst hi0
    exact lucid_bindsMessage 5 known
  refine (qc_formation_agrees_with_verification lucid 7 1 zero32 [lucidKey 5] (by decide)
    (by decide) _ (hbind _)).1.mpr ?_
  refine Finset.card_pos.mpr ⟨0, mem_validVoters.mpr ⟨by decide, _, mem_singleton_self _, ?_⟩⟩
  refine isVoteFrom_iff.mpr ⟨_, rfl, rfl, rfl, rfl, ?_⟩
  exact lucid_verifyRaw_iff.mpr ⟨by simp, rfl⟩

end Pyde
