/-
Module: Pyde.Consensus.Finality
Purpose: Soft and hard finality. How a hard-finality certificate is formed from votes, and what the tracker of
  finalised blocks reports over a history of recorded certificates.
Trusted boundary: Prims
-/
import Pyde.Consensus.Block

namespace Pyde

open ByteCodec VoterSet List

/-! ### Votes and certificates -/

inductive FinalityLevel where
  | none
  | soft
  | hard
deriving DecidableEq

structure HardFinalityCert where
  slot : U64
  blockHash : Hash256
  stateRoot : Hash256
  voterBitmap : U128
  signatures : List Bytes
deriving DecidableEq

def HardFinalityCert.voteCount (cert : HardFinalityCert) : Nat := countOnes cert.voterBitmap

structure FinalityVote where
  slot : U64
  blockHash : Hash256
  stateRoot : Hash256
  voterIndex : U8
  voterAddress : Address
  signature : Bytes
deriving DecidableEq

/-- The domain tag `b"hard_finality"`. -/
def hardFinalityTag : Bytes := [0x68, 0x61, 0x72, 0x64, 0x5f, 0x66, 0x69, 0x6e, 0x61, 0x6c, 0x69, 0x74, 0x79]

def finalitySignMessage (chainId slot : U64) (blockHash stateRoot : Hash256) : Bytes :=
  hardFinalityTag ++ (toLe chainId ++ (toLe slot ++ (blockHash.toList ++ stateRoot.toList)))

def verifyFinalityVote (P : Prims) (chainId : U64) (vote : FinalityVote) (pk : Bytes) : Bool :=
  P.verifyRaw pk (finalitySignMessage chainId vote.slot vote.blockHash vote.stateRoot) vote.signature

/-- The variables of the loop in `try_form_hard_finality`. -/
structure FinalityTally where
  voterBitmap : U128
  signatures : List Bytes
  validCount : Nat
deriving DecidableEq

namespace FinalityTally

def init : FinalityTally := { voterBitmap := 0#128, signatures := [], validCount := 0 }

def count (P : Prims) (chainId slot : U64) (blockHash stateRoot : Hash256) (keys : List Bytes)
    (tally : FinalityTally) (vote : FinalityVote) : FinalityTally :=
  if vote.slot ≠ slot ∨ vote.blockHash ≠ blockHash then tally
  else if vote.stateRoot ≠ stateRoot then tally
  else
    let idx := vote.voterIndex.toNat
    if keys.length ≤ idx then tally
    else if hasVoter tally.voterBitmap idx then tally
    else if verifyFinalityVote P chainId vote (keys.getD idx []) then
      { voterBitmap := addVoter tally.voterBitmap idx
        signatures := tally.signatures ++ [vote.signature]
        validCount := tally.validCount + 1 }
    else tally

end FinalityTally

section

variable (P : Prims) (chainId slot : U64) (blockHash stateRoot : Hash256)

def tryFormHardFinality (votes : List FinalityVote) (keys : List Bytes) : Option HardFinalityCert :=
  let tally := votes.foldl (FinalityTally.count P chainId slot blockHash stateRoot keys)
    FinalityTally.init
  if quorumForCommittee keys.length ≤ tally.validCount then
    some { slot, blockHash, stateRoot, voterBitmap := tally.voterBitmap, signatures := tally.signatures }
  else none

def finalityVoter (keys : List Bytes) (vote : FinalityVote) : Option Nat :=
  if vote.slot = slot ∧ vote.blockHash = blockHash ∧ vote.stateRoot = stateRoot ∧
      vote.voterIndex.toNat < keys.length ∧
      verifyFinalityVote P chainId vote (keys.getD vote.voterIndex.toNat []) = true then
    some vote.voterIndex.toNat
  else none

end

/-! ### What a formed certificate holds -/

section

variable {P : Prims} {chainId slot : U64} {blockHash stateRoot : Hash256} {keys : List Bytes}

/-- What the variables of the loop hold, in terms of the counted votes. -/
def FinalityTally.ofCounted (tally : VoterTally 128 FinalityVote) : FinalityTally where
  voterBitmap := tally.bitmap
  signatures := tally.counted.map FinalityVote.signature
  validCount := tally.counted.length

theorem FinalityTally.count_ofCounted (tally : VoterTally 128 FinalityVote) (vote : FinalityVote) :
    count P chainId slot blockHash stateRoot keys (ofCounted tally) vote =
      ofCounted (tally.count (finalityVoter P chainId slot blockHash stateRoot keys) vote) := by
  unfold VoterTally.count finalityVoter count
  by_cases hslot : vote.slot ≠ slot ∨ vote.blockHash ≠ blockHash
  · rw [if_pos hslot, if_neg (by tauto)]
  rw [if_neg hslot]
  push Not at hslot
  by_cases hroot : vote.stateRoot ≠ stateRoot
  · rw [if_pos hroot, if_neg (by tauto)]
  rw [if_neg hroot]
  push Not at hroot
  dsimp only
  by_cases hidx : keys.length ≤ vote.voterIndex.toNat
  · rw [if_pos hidx, if_neg (by omega)]
  rw [if_neg hidx, hasVoter_eq_getLsbD]
  have hvalid : vote.slot = slot ∧ vote.blockHash = blockHash ∧ vote.stateRoot = stateRoot ∧
      vote.voterIndex.toNat < keys.length := ⟨hslot.1, hslot.2, hroot, Nat.lt_of_not_le hidx⟩
  cases verifyFinalityVote P chainId vote (keys.getD vote.voterIndex.toNat []) with
  | false => simp only [Bool.false_eq_true, and_false, if_false, ite_self]
  | true =>
    simp only [hvalid, and_self, if_true, ofCounted]
    split
    · rfl
    · simp only [addVoter, map_append, map_cons, map_nil, length_append, length_cons, length_nil]

theorem FinalityTally.foldl_count (votes : List FinalityVote) :
    votes.foldl (count P chainId slot blockHash stateRoot keys) init =
      ofCounted (VoterTally.countAll (finalityVoter P chainId slot blockHash stateRoot keys) votes) :=
  (foldl_hom ofCounted count_ofCounted : foldl _ (ofCounted VoterTally.empty) votes = _)

/-- A vote that does not count leaves the variables as they are. -/
theorem FinalityTally.count_of_none {vote : FinalityVote}
    (h : finalityVoter P chainId slot blockHash stateRoot keys vote = none) (tally : FinalityTally) :
    count P chainId slot blockHash stateRoot keys tally vote = tally := by
  unfold finalityVoter at h
  split at h
  next => cases h
  rename_i hnot
  unfold count
  dsimp only
  split
  next => rfl
  rename_i hblock
  split
  next => rfl
  rename_i hroot
  split
  next => rfl
  rename_i hidx
  split
  next => rfl
  split
  next hok =>
    rw [not_or, not_not, not_not] at hblock
    exact absurd ⟨hblock.1, hblock.2, not_not.mp hroot, Nat.lt_of_not_le hidx, hok⟩ hnot
  next => rfl

theorem tryFormHardFinality_eq_none_of_length {votes : List FinalityVote}
    (h : votes.length < quorumForCommittee keys.length) :
    tryFormHardFinality P chainId slot blockHash stateRoot votes keys = none := by
  unfold tryFormHardFinality
  dsimp only
  rw [FinalityTally.foldl_count]
  apply if_neg
  rw [Nat.not_le]
  exact Nat.lt_of_le_of_lt (VoterTally.length_counted_le votes) h

/-- Every signature of the certificate is that of a committee member over its slot, block and state root; the
members are distinct and number at least a quorum. -/
def HardFinalityCert.Certified (P : Prims) (chainId : U64) (keys : List Bytes)
    (cert : HardFinalityCert) : Prop :=
  ∃ signers : List (Nat × Bytes), cert.signatures = signers.map Prod.snd ∧ (signers.map Prod.fst).Nodup ∧
    quorumForCommittee keys.length ≤ signers.length ∧ ∀ signer ∈ signers, signer.1 < keys.length ∧
      P.verifyRaw (keys.getD signer.1 []) (finalitySignMessage chainId cert.slot cert.blockHash
        cert.stateRoot) signer.2 = true

theorem finalityVoter_eq_some {vote : FinalityVote} {i : Nat}
    (h : finalityVoter P chainId slot blockHash stateRoot keys vote = some i) :
    i = vote.voterIndex.toNat ∧ i < keys.length ∧
      P.verifyRaw (keys.getD i []) (finalitySignMessage chainId slot blockHash stateRoot)
        vote.signature = true := by
  unfold finalityVoter at h
  split at h
  next hvalid =>
    obtain ⟨rfl, rfl, rfl, hidx, hok⟩ := hvalid
    cases h
    exact ⟨rfl, hidx, hok⟩
  next => cases h

/-- What `try_form_hard_finality` returns is certified. -/
theorem certified_tryFormHardFinality {votes : List FinalityVote} {cert : HardFinalityCert}
    (h : tryFormHardFinality P chainId slot blockHash stateRoot votes keys = some cert) :
    cert.Certified P chainId keys := by
  unfold tryFormHardFinality at h
  dsimp only at h
  rw [FinalityTally.foldl_count] at h
  have hsound : VoterTally.Sound (w := 128) (finalityVoter P chainId slot blockHash stateRoot keys)
      votes _ := VoterTally.sound_countAll (by decide) votes
  split at h
  next hquorum =>
    cases h
    generalize VoterTally.countAll (finalityVoter P chainId slot blockHash stateRoot keys) votes =
      tally at hsound hquorum
    refine ⟨tally.counted.map fun vote => (vote.voterIndex.toNat, vote.signature), ?_, ?_, ?_, ?_⟩
    · rw [map_map]
      rfl
    · -- distinct voters have distinct indices
      rw [map_map, List.Nodup, pairwise_map]
      apply hsound.distinct.imp_of_mem
      intro vote vote' hvote hvote' hne hindex
      obtain ⟨i, hi, -⟩ := hsound.voters vote hvote
      obtain ⟨j, hj, -⟩ := hsound.voters vote' hvote'
      have hij : i = j := (finalityVoter_eq_some hi).1.trans (hindex.trans (finalityVoter_eq_some hj).1.symm)
      exact hne (by rw [hi, hj, hij])
    · rw [length_map]
      exact hquorum
    · intro signer hsigner
      obtain ⟨vote, hvote, rfl⟩ := List.mem_map.mp hsigner
      obtain ⟨i, hi, -⟩ := hsound.voters vote hvote
      obtain ⟨hindex, hrest⟩ := finalityVoter_eq_some hi
      rw [hindex] at hrest
      exact hrest
  next => cases h

end

/-! ### The tracker -/

structure FinalityStatus where
  slot : U64
  blockHash : Hash256
  level : FinalityLevel
  qc : Option QuorumCert
  hardCert : Option HardFinalityCert

structure FinalityCheckpoint where
  slot : U64
  blockHash : Hash256
  stateRoot : Hash256
  cert : HardFinalityCert

/-- The checkpoint of a certificate. -/
def HardFinalityCert.checkpoint (cert : HardFinalityCert) : FinalityCheckpoint where
  slot := cert.slot
  blockHash := cert.blockHash
  stateRoot := cert.stateRoot
  cert := cert

structure FinalityTracker where
  latestCheckpoint : Option FinalityCheckpoint
  pending : List FinalityStatus
  highestSoftSlot : U64
  highestHardSlot : U64

def softFinalityStatus (slot : U64) (blockHash : Hash256) (qc : QuorumCert) (committeeSize : Nat) : FinalityStatus where
  slot := slot
  blockHash := blockHash
  level := if qc.hasQuorumFor committeeSize then .soft else .none
  qc := some qc
  hardCert := none

namespace FinalityTracker

def new : FinalityTracker where
  latestCheckpoint := none
  pending := []
  highestSoftSlot := 0
  highestHardSlot := 0

def recordSoftFinality (tracker : FinalityTracker) (slot : U64) (blockHash : Hash256) (qc : QuorumCert)
    (committeeSize : Nat) : FinalityTracker :=
  let status := softFinalityStatus slot blockHash qc committeeSize
  if status.level = .soft then
    { tracker with
      highestSoftSlot := if tracker.highestSoftSlot < slot then slot else tracker.highestSoftSlot
      pending := tracker.pending ++ [status] }
  else tracker

/-- A pending status under a certificate. -/
def promote (cert : HardFinalityCert) (status : FinalityStatus) : FinalityStatus :=
  if status.slot = cert.slot ∧ status.blockHash = cert.blockHash then
    { status with level := .hard, hardCert := some cert }
  else status

/-- The certificate is for a later slot than the checkpoint. -/
def advances (tracker : FinalityTracker) (cert : HardFinalityCert) : Bool :=
  match tracker.latestCheckpoint with
  | some cp => decide (cp.slot < cert.slot)
  | none => true

/-- `record_hard_finality`: the pending statuses of the block are promoted in any case, the checkpoint only
moves forward. -/
def recordHardFinality (tracker : FinalityTracker) (cert : HardFinalityCert) : FinalityTracker :=
  let promoted := tracker.pending.map (promote cert)
  if tracker.advances cert then
    { tracker with
      latestCheckpoint := some cert.checkpoint
      highestHardSlot := if tracker.highestHardSlot < cert.slot then cert.slot else tracker.highestHardSlot
      pending := promoted.filter fun status => cert.slot < status.slot }
  else { tracker with pending := promoted }

def canReorg (tracker : FinalityTracker) (slot : U64) : Bool :=
  match tracker.latestCheckpoint with
  | some cp => decide (cp.slot < slot)
  | none => true

/-- The level that the pending statuses give. -/
def pendingLevel (tracker : FinalityTracker) (slot : U64) (blockHash : Hash256) : FinalityLevel :=
  match tracker.pending.find? fun status => status.slot = slot ∧ status.blockHash = blockHash with
  | some status => status.level
  | none => .none

/-- `finality_level`: everything below the checkpoint counts as finalised with it. -/
def finalityLevel (tracker : FinalityTracker) (slot : U64) (blockHash : Hash256) : FinalityLevel :=
  match tracker.latestCheckpoint with
  | some cp =>
    if slot = cp.slot ∧ blockHash = cp.blockHash then .hard
    else if slot < cp.slot then .hard
    else tracker.pendingLevel slot blockHash
  | none => tracker.pendingLevel slot blockHash

end FinalityTracker

/-- A call of one of the two recording functions. -/
inductive FinalityEvent where
  | soft (slot : U64) (blockHash : Hash256) (qc : QuorumCert) (committeeSize : Nat)
  | hard (cert : HardFinalityCert)

def FinalityEvent.cert? : FinalityEvent → Option HardFinalityCert
  | soft _ _ _ _ => none
  | hard cert => some cert

namespace FinalityTracker

def record (tracker : FinalityTracker) : FinalityEvent → FinalityTracker
  | .soft slot blockHash qc committeeSize => tracker.recordSoftFinality slot blockHash qc committeeSize
  | .hard cert => tracker.recordHardFinality cert

def recordAll (events : List FinalityEvent) (tracker : FinalityTracker) : FinalityTracker :=
  events.foldl record tracker

/-- The tracker after the certificates `certs`. -/
structure Records (certs : List HardFinalityCert) (tracker : FinalityTracker) : Prop where
  bound : ∀ cert ∈ certs, ∃ cp, tracker.latestCheckpoint = some cp ∧ cert.slot ≤ cp.slot
  origin : ∀ cp, tracker.latestCheckpoint = some cp →
    tracker.highestHardSlot = cp.slot ∧ ∃ cert ∈ certs, cp = cert.checkpoint
  start : tracker.latestCheckpoint = none → tracker.highestHardSlot = 0
  pendingHard : ∀ status ∈ tracker.pending, status.level = .hard →
    ∃ cert ∈ certs, cert.slot = status.slot ∧ cert.blockHash = status.blockHash

variable {certs : List HardFinalityCert} {tracker : FinalityTracker}

theorem records_new : Records [] new where
  bound := nofun
  origin _ h := nomatch h
  start _ := rfl
  pendingHard := nofun

variable {slot : U64} (cert : HardFinalityCert)

theorem promote_slot (status : FinalityStatus) :
    (promote cert status).slot = status.slot ∧ (promote cert status).blockHash = status.blockHash := by
  unfold promote
  split <;> exact ⟨rfl, rfl⟩

theorem promote_hard {cert : HardFinalityCert} {status : FinalityStatus} (h : (promote cert status).level = .hard) :
    status.level = .hard ∨ status.slot = cert.slot ∧ status.blockHash = cert.blockHash := by
  unfold promote at h
  split at h
  next hblock => exact .inr hblock
  next => exact .inl h

theorem advances_iff :
    tracker.advances cert = true ↔ ∀ cp, tracker.latestCheckpoint = some cp → cp.slot < cert.slot := by
  unfold advances
  cases tracker.latestCheckpoint with
  | none => exact ⟨fun _ _ h => (nomatch h), fun _ => rfl⟩
  | some cp =>
    rw [decide_eq_true_eq]
    exact ⟨fun h _ hcp => Option.some.inj hcp ▸ h, fun h => h cp rfl⟩

section

variable (h : Records certs tracker)
include h

theorem Records.soft (slot : U64) (blockHash : Hash256) (qc : QuorumCert) (committeeSize : Nat) :
    Records certs (tracker.recordSoftFinality slot blockHash qc committeeSize) := by
  unfold recordSoftFinality
  dsimp only
  split
  next hsoft =>
    refine ⟨h.bound, h.origin, h.start, ?_⟩
    intro status hstatus hhard
    rcases List.mem_append.mp hstatus with hstatus | hstatus
    · exact h.pendingHard status hstatus hhard
    · rw [List.mem_singleton.mp hstatus, hsoft] at hhard
      cases hhard
  next => exact h

/-- The promoted statuses are accounted for once the certificate is. -/
theorem Records.promoted : ∀ status ∈ tracker.pending.map (promote cert), status.level = .hard →
      ∃ cert' ∈ certs ++ [cert], cert'.slot = status.slot ∧ cert'.blockHash = status.blockHash := by
  intro status hstatus hhard
  obtain ⟨before, hbefore, rfl⟩ := List.mem_map.mp hstatus
  obtain ⟨hslot, hhash⟩ := promote_slot cert before
  rw [hslot, hhash]
  rcases promote_hard hhard with hhard | ⟨hslot, hhash⟩
  · obtain ⟨cert', hcert', hsame⟩ := h.pendingHard before hbefore hhard
    exact ⟨cert', mem_append_left _ hcert', hsame⟩
  · exact ⟨cert, mem_append_right _ (List.mem_singleton.mpr rfl), hslot.symm, hhash.symm⟩

theorem Records.hard : Records (certs ++ [cert]) (tracker.recordHardFinality cert) := by
  have hpromoted := h.promoted cert
  have hlast : cert ∈ certs ++ [cert] := mem_append_right _ (List.mem_singleton.mpr rfl)
  unfold recordHardFinality
  dsimp only
  split
  next hadvances =>
    rw [advances_iff] at hadvances
    have hhighest : (if tracker.highestHardSlot < cert.slot then cert.slot else tracker.highestHardSlot) =
        cert.slot := by
      cases hcp : tracker.latestCheckpoint with
      | none =>
        rw [h.start hcp]
        split <;> bv_omega
      | some cp => rw [(h.origin cp hcp).1, if_pos (hadvances cp hcp)]
    refine ⟨?_, ?_, nofun, ?_⟩
    · intro cert' hcert'
      refine ⟨cert.checkpoint, rfl, ?_⟩
      change cert'.slot ≤ cert.slot
      rcases List.mem_append.mp hcert' with hcert' | hcert'
      · obtain ⟨cp, hcp, hle⟩ := h.bound cert' hcert'
        have hlt := hadvances cp hcp
        bv_omega
      · rw [List.mem_singleton.mp hcert']
        exact BitVec.le_refl _
    · intro cp hcp
      cases hcp
      exact ⟨hhighest, cert, hlast, rfl⟩
    · intro status hstatus
      exact hpromoted status (List.mem_filter.mp hstatus).1
  next hstays =>
    rw [advances_iff] at hstays
    push Not at hstays
    obtain ⟨cp, hcp, hle⟩ := hstays
    refine ⟨?_, ?_, h.start, hpromoted⟩
    · intro cert' hcert'
      rcases List.mem_append.mp hcert' with hcert' | hcert'
      · exact h.bound cert' hcert'
      · rw [List.mem_singleton.mp hcert']
        exact ⟨cp, hcp, BitVec.not_lt.mp hle⟩
    · intro cp' hcp'
      obtain ⟨hslot, cert', hcert', hsame⟩ := h.origin cp' hcp'
      exact ⟨hslot, cert', mem_append_left _ hcert', hsame⟩

theorem Records.recordAll (events : List FinalityEvent) :
    Records (certs ++ events.filterMap FinalityEvent.cert?) (tracker.recordAll events) := by
  induction events generalizing certs tracker with
  | nil =>
    rw [filterMap_nil, append_nil]
    exact h
  | cons event events ih =>
    cases event with
    | soft slot blockHash qc committeeSize => exact ih (h.soft slot blockHash qc committeeSize)
    | hard cert =>
      have hrest := ih (h.hard cert)
      rw [append_assoc] at hrest
      exact hrest

end

def AtCheckpoint (tracker : FinalityTracker) (slot : U64) (blockHash : Hash256) : Prop :=
  ∃ cp, tracker.latestCheckpoint = some cp ∧ (slot = cp.slot ∧ blockHash = cp.blockHash ∨ slot < cp.slot)

section

variable {slot : U64} {blockHash : Hash256}

theorem finalityLevel_hard_iff :
    tracker.finalityLevel slot blockHash = .hard ↔
      tracker.AtCheckpoint slot blockHash ∨ tracker.pendingLevel slot blockHash = .hard := by
  unfold finalityLevel AtCheckpoint
  cases tracker.latestCheckpoint with
  | none =>
    constructor
    · exact .inr
    · rintro (⟨cp, hcp, -⟩ | hpending)
      · cases hcp
      · exact hpending
  | some cp =>
    dsimp only
    split
    next hat => exact ⟨fun _ => Or.inl ⟨cp, rfl, .inl hat⟩, fun _ => rfl⟩
    rename_i hnot
    split
    next hbelow => exact ⟨fun _ => Or.inl ⟨cp, rfl, .inr hbelow⟩, fun _ => rfl⟩
    rename_i habove
    constructor
    · exact .inr
    · rintro (⟨cp', hcp', hat⟩ | hpending)
      · cases hcp'
        exact absurd hat (not_or.mpr ⟨hnot, habove⟩)
      · exact hpending

theorem exists_pending_of_hard (h : tracker.pendingLevel slot blockHash = .hard) :
    ∃ status ∈ tracker.pending, status.level = .hard ∧ status.slot = slot ∧ status.blockHash = blockHash := by
  unfold pendingLevel at h
  split at h
  next status hfind =>
    have hblock := List.find?_some hfind
    rw [decide_eq_true_eq] at hblock
    exact ⟨status, List.mem_of_find?_eq_some hfind, h, hblock⟩
  next => cases h

theorem atCheckpoint_record (h : tracker.AtCheckpoint slot blockHash) (event : FinalityEvent) :
    (tracker.record event).AtCheckpoint slot blockHash := by
  obtain ⟨cp, hcp, hat⟩ := h
  cases event with
  | soft softSlot softHash qc committeeSize =>
    refine ⟨cp, ?_, hat⟩
    rw [record, recordSoftFinality]
    split
    · exact hcp
    · exact hcp
  | hard cert =>
    rw [record, recordHardFinality]
    split
    next hadvances =>
      have hlt := (advances_iff cert).mp hadvances cp hcp
      refine ⟨cert.checkpoint, rfl, .inr ?_⟩
      change slot < cert.slot
      rcases hat with ⟨rfl, -⟩ | hbelow
      · exact hlt
      · bv_omega
    next => exact ⟨cp, hcp, hat⟩

/-- A pending status stays hard, unless a checkpoint at or above its slot takes over. -/
theorem pendingLevel_record (h : Records certs tracker) (hhard : tracker.pendingLevel slot blockHash = .hard)
    (event : FinalityEvent) : (tracker.record event).finalityLevel slot blockHash = .hard := by
  rw [finalityLevel_hard_iff]
  have hhard' := hhard
  unfold pendingLevel at hhard
  split at hhard
  next status hfind =>
    cases event with
    | soft softSlot softHash qc committeeSize =>
      refine .inr ?_
      rw [record, recordSoftFinality]
      split
      · unfold pendingLevel
        rw [List.find?_append, hfind]
        exact hhard
      · exact hhard'
    | hard cert =>
      rw [record, recordHardFinality]
      split
      next hadvances =>
        -- the certificate that made it hard is below the new one
        obtain ⟨status, hstatus, hlevel, rfl, -⟩ := exists_pending_of_hard hhard'
        obtain ⟨cert', hcert', hslot, -⟩ := h.pendingHard status hstatus hlevel
        obtain ⟨cp, hcp, hle⟩ := h.bound cert' hcert'
        have hlt := (advances_iff cert).mp hadvances cp hcp
        refine .inl ⟨cert.checkpoint, rfl, .inr ?_⟩
        change status.slot < cert.slot
        rw [← hslot]
        bv_omega
      next =>
        refine .inr ?_
        unfold pendingLevel
        have hsame : (fun s => decide (s.slot = slot ∧ s.blockHash = blockHash)) ∘ promote cert =
            fun s => decide (s.slot = slot ∧ s.blockHash = blockHash) := by
          funext s
          rw [Function.comp, (promote_slot cert s).1, (promote_slot cert s).2]
        rw [List.find?_map, hsame, hfind]
        change (promote cert status).level = .hard
        unfold promote
        split
        · rfl
        · exact hhard
  next => cases hhard

theorem finalityLevel_record (h : Records certs tracker) (hhard : tracker.finalityLevel slot blockHash = .hard)
    (event : FinalityEvent) : (tracker.record event).finalityLevel slot blockHash = .hard := by
  rcases finalityLevel_hard_iff.mp hhard with hat | hpending
  · exact finalityLevel_hard_iff.mpr (.inl (atCheckpoint_record hat event))
  · exact pendingLevel_record h hpending event

end

theorem Records.record (h : Records certs tracker) (event : FinalityEvent) :
    ∃ certs', Records certs' (tracker.record event) := by
  cases event with
  | soft slot blockHash qc committeeSize => exact ⟨certs, h.soft slot blockHash qc committeeSize⟩
  | hard cert => exact ⟨certs ++ [cert], h.hard cert⟩

theorem finalityLevel_recordAll {blockHash : Hash256} (h : Records certs tracker)
    (hhard : tracker.finalityLevel slot blockHash = .hard) (events : List FinalityEvent) :
    (tracker.recordAll events).finalityLevel slot blockHash = .hard := by
  induction events generalizing certs tracker with
  | nil => exact hhard
  | cons event events ih =>
    obtain ⟨certs', h'⟩ := h.record event
    exact ih h' (finalityLevel_record h hhard event)

theorem checkpoint_record {cp : FinalityCheckpoint} (hcp : tracker.latestCheckpoint = some cp) (event : FinalityEvent) :
    ∃ cp', (tracker.record event).latestCheckpoint = some cp' ∧ cp.slot ≤ cp'.slot := by
  cases event with
  | soft slot blockHash qc committeeSize =>
    refine ⟨cp, ?_, BitVec.le_refl _⟩
    rw [FinalityTracker.record, recordSoftFinality]
    split
    · exact hcp
    · exact hcp
  | hard cert =>
    rw [FinalityTracker.record, recordHardFinality]
    split
    next hadvances => exact ⟨cert.checkpoint, rfl, BitVec.le_of_lt ((advances_iff cert).mp hadvances cp hcp)⟩
    next => exact ⟨cp, hcp, BitVec.le_refl _⟩

theorem canReorg_eq_false_iff :
    tracker.canReorg slot = false ↔ ∃ cp, tracker.latestCheckpoint = some cp ∧ slot ≤ cp.slot := by
  unfold canReorg
  cases tracker.latestCheckpoint with
  | none => exact ⟨fun h => (nomatch h), fun ⟨_, h, _⟩ => (nomatch h)⟩
  | some cp =>
    rw [decide_eq_false_iff_not, BitVec.not_lt]
    exact ⟨fun h => ⟨cp, rfl, h⟩, fun ⟨_, hcp, hle⟩ => Option.some.inj hcp ▸ hle⟩

theorem canReorg_recordAll (h : tracker.canReorg slot = false) (events : List FinalityEvent) :
    (tracker.recordAll events).canReorg slot = false := by
  induction events generalizing tracker with
  | nil => exact h
  | cons event events ih =>
    obtain ⟨cp, hcp, hle⟩ := canReorg_eq_false_iff.mp h
    obtain ⟨cp', hcp', hforward⟩ := checkpoint_record hcp event
    exact ih (canReorg_eq_false_iff.mpr ⟨cp', hcp', BitVec.le_trans hle hforward⟩)

/-- Above the checkpoint and at it, a block is hard only by a recorded certificate of its own. -/
theorem Records.exists_cert {blockHash : Hash256} (h : Records certs tracker)
    (hslot : ∀ cp, tracker.latestCheckpoint = some cp → cp.slot ≤ slot)
    (hhard : tracker.finalityLevel slot blockHash = .hard) :
    ∃ cert ∈ certs, cert.slot = slot ∧ cert.blockHash = blockHash := by
  rcases finalityLevel_hard_iff.mp hhard with ⟨cp, hcp, hat⟩ | hpending
  · rcases hat with ⟨rfl, rfl⟩ | hbelow
    · obtain ⟨-, cert, hcert, rfl⟩ := h.origin cp hcp
      exact ⟨cert, hcert, rfl, rfl⟩
    · exact absurd hbelow (BitVec.not_lt.mpr (hslot cp hcp))
  · obtain ⟨status, hstatus, hlevel, rfl, rfl⟩ := exists_pending_of_hard hpending
    exact h.pendingHard status hstatus hlevel

end FinalityTracker

/-- The tracker after a history of calls. -/
def trackerAfter (events : List FinalityEvent) : FinalityTracker := FinalityTracker.new.recordAll events

def recordedCerts (events : List FinalityEvent) : List HardFinalityCert := events.filterMap FinalityEvent.cert?

/-- The tracker over any history of calls: what is hard below the checkpoint, at its slot and above; what is hard
stays so, and a slot that cannot be reorganised never can be again. -/
theorem hard_finality_history (events : List FinalityEvent) :
    (∀ slot blockHash, (∃ cp, (trackerAfter events).latestCheckpoint = some cp ∧ slot < cp.slot) →
        (trackerAfter events).finalityLevel slot blockHash = .hard) ∧ (∀ slot blockHash blockHash',
        (∀ cp, (trackerAfter events).latestCheckpoint = some cp → cp.slot ≤ slot) →
        (∀ cert ∈ recordedCerts events, ∀ cert' ∈ recordedCerts events, cert.slot = slot →
          cert'.slot = slot →
          cert.blockHash = cert'.blockHash) → (trackerAfter events).finalityLevel slot blockHash = .hard →
        (trackerAfter events).finalityLevel slot blockHash' = .hard → blockHash = blockHash') ∧
      (∀ later slot blockHash, (trackerAfter events).finalityLevel slot blockHash = .hard →
        (trackerAfter (events ++ later)).finalityLevel slot blockHash = .hard) ∧
      (((trackerAfter events).latestCheckpoint = none ↔ recordedCerts events = []) ∧
        ∀ cp, (trackerAfter events).latestCheckpoint = some cp →
          (trackerAfter events).highestHardSlot = cp.slot ∧
            (∃ cert ∈ recordedCerts events, cert.slot = cp.slot) ∧
            ∀ cert ∈ recordedCerts events, cert.slot ≤ cp.slot) ∧
      ∀ later slot, (trackerAfter events).canReorg slot = false →
        (trackerAfter (events ++ later)).canReorg slot = false := by
  have hrecords : FinalityTracker.Records (recordedCerts events) (trackerAfter events) :=
    FinalityTracker.records_new.recordAll events
  have happend : ∀ later, trackerAfter (events ++ later) = (trackerAfter events).recordAll later :=
    fun later => foldl_append
  refine ⟨?_, ?_, ?_, ⟨?_, ?_⟩, ?_⟩
  · rintro slot blockHash ⟨cp, hcp, hbelow⟩
    exact FinalityTracker.finalityLevel_hard_iff.mpr (.inl ⟨cp, hcp, .inr hbelow⟩)
  · intro slot blockHash blockHash' hslot hagree hhard hhard'
    obtain ⟨cert, hcert, hat, rfl⟩ := hrecords.exists_cert hslot hhard
    obtain ⟨cert', hcert', hat', rfl⟩ := hrecords.exists_cert hslot hhard'
    exact hagree cert hcert cert' hcert' hat hat'
  · intro later slot blockHash hhard
    rw [happend]
    exact FinalityTracker.finalityLevel_recordAll hrecords hhard later
  · constructor
    · intro hnone
      apply List.eq_nil_iff_forall_not_mem.mpr
      intro cert hcert
      obtain ⟨cp, hcp, -⟩ := hrecords.bound cert hcert
      rw [hnone] at hcp
      cases hcp
    · intro hnil
      cases hcp : (trackerAfter events).latestCheckpoint with
      | none => rfl
      | some cp =>
        obtain ⟨-, cert, hcert, -⟩ := hrecords.origin cp hcp
        rw [hnil] at hcert
        exact absurd hcert not_mem_nil
  · intro cp hcp
    obtain ⟨hhighest, cert, hcert, hsame⟩ := hrecords.origin cp hcp
    refine ⟨hhighest, ⟨cert, hcert, ?_⟩, ?_⟩
    · rw [hsame]
      rfl
    · intro cert' hcert'
      obtain ⟨cp', hcp', hle⟩ := hrecords.bound cert' hcert'
      rw [hcp] at hcp'
      exact Option.some.inj hcp' ▸ hle
  · intro later slot hfixed
    rw [happend]
    exact FinalityTracker.canReorg_recordAll hfixed later

def certOf (slot : U64) (blockHash : Hash256) : HardFinalityCert where
  slot := slot
  blockHash := blockHash
  stateRoot := zero32
  voterBitmap := 0
  signatures := []

/-- Any two blocks below a checkpoint are hard. So are two blocks of the slot of the checkpoint that both
have a certificate. -/
theorem two_blocks_hard :
    fill32 1 ≠ fill32 2 ∧ ((trackerAfter [.hard (certOf 2 zero32)]).finalityLevel 1 (fill32 1) = .hard ∧
      (trackerAfter [.hard (certOf 2 zero32)]).finalityLevel 1 (fill32 2) = .hard) ∧
    ((trackerAfter [.hard (certOf 2 (fill32 1)),
        .soft 2 (fill32 2) QuorumCert.empty 0, .hard (certOf 2 (fill32 2))]).finalityLevel 2
          (fill32 1) = .hard ∧ (trackerAfter [.hard (certOf 2 (fill32 1)),
        .soft 2 (fill32 2) QuorumCert.empty 0, .hard (certOf 2 (fill32 2))]).finalityLevel 2
          (fill32 2) = .hard) := by
  decide +kernel

end Pyde
