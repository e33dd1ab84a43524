/-
Module: Pyde.Tx.SlashSafety
Purpose: When the votes of a validator can be used against it.
Trusted boundary: none
-/
import Pyde.Consensus.Voting
import Pyde.Tx.Pipeline

namespace Pyde

open ByteCodec StateProgram List

variable {P : Prims} {chainId : U64} {ident : Identity} {voter : Voter}

/-! ### What a successful slash has checked -/

theorem slashSignatureFault_none {pk : Bytes} {ev : SlashEvidence} (h : slashSignatureFault P chainId pk ev = none) :
    P.verifyRaw pk (proposerSignMessage chainId ev.slot ev.blockHash1) ev.signature1 = true ∧
      P.verifyRaw pk (proposerSignMessage chainId ev.slot ev.blockHash2) ev.signature2 = true := by
  unfold slashSignatureFault at h
  unfold Prims.verifyRaw
  cases hpk : FalconPublicKey.fromBytes pk with
  | none => simp [hpk] at h
  | some key =>
    cases hsig1 : FalconSignature.fromBytes ev.signature1 with
    | none => simp [hpk, hsig1] at h
    | some sig1 =>
      cases hsig2 : FalconSignature.fromBytes ev.signature2 with
      | none => simp [hpk, hsig1, hsig2] at h
      | some sig2 =>
        simp only [hpk, hsig1, hsig2] at h
        by_cases hverify :
            P.falconVerify key (proposerSignMessageBytes chainId ev.slot ev.blockHash1) sig1 = true ∧
              P.falconVerify key (proposerSignMessageBytes chainId ev.slot ev.blockHash2) sig2 = true
        · exact hverify
        · rw [if_neg hverify] at h
          cases h

/-- A slash that succeeds has found two blocks of one slot signed under the accused's registered key. -/
theorem executeSlash_success {tx : Transaction} {balance : U128} {store : Store Hash256 Bytes}
    (h : (run stored (StateKey.hash P) (executeSlash P tx chainId balance) store).1.1.success = true) :
    ∃ ev data entry, decodeSlashEvidence tx.data = .ok ev ∧ ev.blockHash1 ≠ ev.blockHash2 ∧
      store (validatorKey P ev.signer) = some data ∧ ValidatorEntry.decode data = some entry ∧
      P.verifyRaw entry.pk (proposerSignMessage chainId ev.slot ev.blockHash1) ev.signature1 = true ∧
      P.verifyRaw entry.pk (proposerSignMessage chainId ev.slot ev.blockHash2) ev.signature2 = true := by
  unfold executeSlash at h
  cases hdecode : decodeSlashEvidence tx.data with
  | error e => simp [hdecode, Outcome.failed] at h
  | ok ev =>
    simp only [hdecode] at h
    by_cases hsame : ev.blockHash1 = ev.blockHash2
    · simp [hsame, Outcome.failed] at h
    simp only [if_neg hsame, run_bind, run_read] at h
    cases hdata : store ((StateKey.account ev.signer .validator).hash P) with
    | none => simp [hdata, Outcome.failed] at h
    | some data =>
      cases hentry : ValidatorEntry.decode data with
      | none => simp [hdata, hentry, Outcome.failed] at h
      | some entry =>
        simp only [hdata, hentry] at h
        by_cases hexited : entry.status = statusExited
        · simp [hexited, Outcome.failed] at h
        rw [if_neg hexited] at h
        cases hfault : slashSignatureFault P chainId entry.pk ev with
        | some fault => simp [hfault, Outcome.failed] at h
        | none => exact ⟨ev, data, entry, rfl, hsame, hdata, hentry, slashSignatureFault_none hfault⟩

/-! ### One vote per slot -/

/-- The call does not ask for a vote in a higher view of the slot the validator voted for last. -/
def NoCrossViewVote (voter : Voter) (call : VoteCall) : Prop :=
  voter.cast ≠ [] → call.header.slot = voter.state.lastVotedSlot →
    proposalView call.header ≤ voter.state.lastVotedView

/-- Every call of the sequence meets the condition in the state in which it is made. -/
def AllCalls (P : Prims) (chainId : U64) (ident : Identity) (φ : Voter → VoteCall → Prop) :
    Voter → List VoteCall → Prop
  | _, [] => True
  | voter, call :: calls => φ voter call ∧ AllCalls P chainId ident φ (voter.step P chainId ident call) calls

/-- The slots of the history ascend strictly up to the last recorded one. -/
structure OneVotePerSlot (voter : Voter) : Prop where
  ascending : voter.cast.Pairwise fun c c' => c.header.slot < c'.header.slot
  recorded : ∀ c ∈ voter.cast, c.header.slot ≤ voter.state.lastVotedSlot

theorem oneVotePerSlot_step (h : OneVotePerSlot voter) {call : VoteCall} (hfresh : NoCrossViewVote voter call) :
    OneVotePerSlot (voter.step P chainId ident call) := by
  rcases Voter.step_cases P chainId ident voter call with heq | ⟨_, heq⟩ | ⟨sig, hlex, _, _, heq⟩
  · rw [heq]
    exact h
  · rw [heq]
    refine ⟨h.ascending, ?_⟩
    intro c hc
    rw [(ConsensusState.adoptQc_lastVoted voter.state call.header.qcPrevious).1]
    exact h.recorded c hc
  rw [heq]
  -- once there is a history, the new slot lies above everything in it
  have hnewer : ∀ c ∈ voter.cast, c.header.slot < call.header.slot := by
    intro c hc
    have hview := hfresh (ne_nil_of_mem hc)
    have hrecorded := h.recorded c hc
    unfold lexLe at hlex
    by_cases hslot : call.header.slot = voter.state.lastVotedSlot
    · exact absurd (.inr ⟨hslot, hview hslot⟩) hlex
    · bv_omega
  constructor
  case ascending =>
    apply List.pairwise_append.mpr
    refine ⟨h.ascending, pairwise_singleton _ _, ?_⟩
    intro c hc c' hc'
    rw [mem_singleton] at hc'
    subst hc'
    exact hnewer c hc
  case recorded =>
    intro c hc
    rcases List.mem_append.mp hc with hold | hnew
    · exact BitVec.le_of_lt (hnewer c hold)
    rw [mem_singleton] at hnew
    subst hnew
    exact BitVec.le_refl _

theorem oneVotePerSlot_run (h : OneVotePerSlot voter) {calls : List VoteCall}
    (hfresh : AllCalls P chainId ident NoCrossViewVote voter calls) :
    OneVotePerSlot (voter.run P chainId ident calls) := by
  induction calls generalizing voter with
  | nil => exact h
  | cons call calls ih => exact ih (oneVotePerSlot_step h hfresh.1) hfresh.2

theorem OneVotePerSlot.eq_of_slot_eq (h : OneVotePerSlot voter) {c c' : CastVote} (hc : c ∈ voter.cast)
    (hc' : c' ∈ voter.cast) (hslot : c.header.slot = c'.header.slot) : c = c' := by
  by_contra hne
  have hsymm : Std.Symm fun c c' : CastVote => c.header.slot ≠ c'.header.slot := ⟨fun _ _ => Ne.symm⟩
  exact (h.ascending.imp (S := fun c c' => c.header.slot ≠ c'.header.slot) BitVec.ne_of_lt).forall hc hc' hne hslot

/-! ### Evidence against an honest validator -/

/-- The signatures of these votes verify, under the validator's key, for the votes they were made for
and for no other message. -/
def SignaturesBind (P : Prims) (chainId : U64) (pk : Bytes) (cast : List CastVote) : Prop :=
  ∀ c ∈ cast, ∀ msg, P.verifyRaw pk msg c.vote.signature = true → msg = c.message chainId

/-- No two signatures of the history verify for two blocks of one slot. -/
theorem no_conflicting_signatures {pk : Bytes} (hone : OneVotePerSlot voter)
    (hwf : ∀ c ∈ voter.cast, c.WellFormed P chainId ident) (hbind : SignaturesBind P chainId pk voter.cast)
    {c c' : CastVote} (hc : c ∈ voter.cast) (hc' : c' ∈ voter.cast) {slot : U64} {hash hash' : Hash256}
    (hverify : P.verifyRaw pk (proposerSignMessage chainId slot hash) c.vote.signature = true)
    (hverify' : P.verifyRaw pk (proposerSignMessage chainId slot hash') c'.vote.signature = true) :
    hash = hash' := by
  obtain ⟨_, hslot, hhash⟩ := proposerSignMessage_inj.mp (hbind c hc _ hverify)
  obtain ⟨_, hslot', hhash'⟩ := proposerSignMessage_inj.mp (hbind c' hc' _ hverify')
  have hslots : c.header.slot = c'.header.slot := by rw [← (hwf c hc).1, ← (hwf c' hc').1, ← hslot, ← hslot']
  have hsame := hone.eq_of_slot_eq hc hc' hslots
  rw [hhash, hhash', hsame]

/-- The votes that a sequence of calls makes a validator return, from the given state on. -/
def votesReturned (P : Prims) (chainId : U64) (ident : Identity) (st : ConsensusState)
    (calls : List VoteCall) : List CastVote :=
  (Voter.run P chainId ident { state := st, cast := [] } calls).cast

theorem votesReturned_wellFormed (P : Prims) (chainId : U64) (ident : Identity)
    (st : ConsensusState) (calls : List VoteCall) :
    ∀ c ∈ votesReturned P chainId ident st calls, c.WellFormed P chainId ident :=
  cast_wellFormed_run (by simp) calls

/-- A validator that is not asked to vote in two views of one slot cannot be slashed for its votes, neither by the
consensus check nor by a slash transaction. -/
theorem honest_votes_not_slashable (P : Prims) (chainId : U64) (ident : Identity)
    (st : ConsensusState) (calls : List VoteCall) (pk : Bytes)
    (hfresh : AllCalls P chainId ident NoCrossViewVote { state := st, cast := [] } calls)
    (hbind : SignaturesBind P chainId pk (votesReturned P chainId ident st calls)) :
    ∀ c ∈ votesReturned P chainId ident st calls, ∀ c' ∈ votesReturned P chainId ident st calls,
      (∀ evidence : DoubleSignEvidence,
        evidence.signature1 = c.vote.signature → evidence.signature2 = c'.vote.signature →
          verifyDoubleSign P chainId evidence pk = false) ∧
      (∀ (tx : Transaction) (balance : U128) (store : Store Hash256 Bytes) (ev : SlashEvidence)
          (data : Bytes) (entry : ValidatorEntry),
        decodeSlashEvidence tx.data = .ok ev → ev.signature1 = c.vote.signature →
          ev.signature2 = c'.vote.signature → store (validatorKey P ev.signer) = some data →
          ValidatorEntry.decode data = some entry → entry.pk = pk →
            (run stored (StateKey.hash P) (executeSlash P tx chainId balance) store).1.1.success = false) := by
  have hone : OneVotePerSlot (Voter.run P chainId ident { state := st, cast := [] } calls) :=
    oneVotePerSlot_run ⟨List.Pairwise.nil, by simp⟩ hfresh
  have hwf := votesReturned_wellFormed P chainId ident st calls
  intro c hc c' hc'
  constructor
  · intro evidence hsig1 hsig2
    apply Bool.eq_false_iff.mpr
    intro haccepted
    obtain ⟨hne, hverify1, hverify2⟩ := verifyTwoSignatures_iff.mp haccepted
    rw [hsig1] at hverify1
    rw [hsig2] at hverify2
    exact hne (no_conflicting_signatures hone hwf hbind hc hc' hverify1 hverify2)
  · intro tx balance store ev data entry hdecode hsig1 hsig2 hdata hentry hpk
    apply Bool.eq_false_iff.mpr
    intro hsuccess
    obtain ⟨ev', data', entry', hdecode', hne, hdata', hentry', hverify1, hverify2⟩ := executeSlash_success hsuccess
    rw [hdecode] at hdecode'
    cases hdecode'
    rw [hdata] at hdata'
    cases hdata'
    rw [hentry] at hentry'
    cases hentry'
    rw [hpk, hsig1] at hverify1
    rw [hpk, hsig2] at hverify2
    exact hne (no_conflicting_signatures hone hwf hbind hc hc' hverify1 hverify2)

/-! ### Votes in two views, and votes for two slots -/

def encodeDoubleSignEvidence (evidence : DoubleSignEvidence) : Bytes :=
  slashEvidenceVersion :: (toLe evidence.slot ++ (evidence.blockHash1.toList ++
    (AuthKeys.lengthPrefixed evidence.signature1 ++ (evidence.blockHash2.toList ++
      (AuthKeys.lengthPrefixed evidence.signature2 ++ (evidence.signer.toList ++ evidence.submitter.toList))))))

/-- The validator of the runs below. -/
def soloIdentity : Identity := { address := zero32, sk := ⟨[5]⟩ }

theorem lucid_signaturesBind (st : ConsensusState) (calls : List VoteCall) :
    SignaturesBind lucid 7 (lucidKey 5) (votesReturned lucid 7 soloIdentity st calls) := by
  intro c hc msg hverify
  obtain ⟨_, _, coins, sig, hsign, hsig⟩ := votesReturned_wellFormed lucid 7 soloIdentity st calls c hc
  cases hsign
  have hown : lucid.verifyRaw (lucidKey 5) (c.message 7) c.vote.signature = true :=
    lucid_verifyRaw_iff.mpr ⟨by simp [CastVote.message], hsig⟩
  exact lucid_bindsMessage 5 Set.univ _ (Set.mem_univ _) _ _ hverify hown

/-- Evidence that the two votes make, submitted under the validator's own address. -/
def evidenceOf (c c' : CastVote) : DoubleSignEvidence :=
  { slot := c.vote.slot, blockHash1 := c.vote.blockHash, signature1 := c.vote.signature,
    blockHash2 := c'.vote.blockHash, signature2 := c'.vote.signature, signer := zero32, submitter := zero32 }

def slashTransaction (evidence : DoubleSignEvidence) : Transaction :=
  { fromAddress := zero32, toAddress := zero32, value := 0, data := encodeDoubleSignEvidence evidence,
    gasLimit := 100000, nonce := 0, signature := [], feePayer := .sender, accessList := [],
    deadline := none, chainId := 7, txType := .slash }

/-- A state in which the validator is registered and active. -/
def soloRegistered : Store Hash256 Bytes :=
  insert stored (fun _ => none) (validatorKey lucid zero32)
    (stakeDepositEntry (lucidKey 5) 0)

/-- An honest validator that votes for slot 1 in view 0 and, after a view change, in view 1: both
checks accept the two votes as evidence. -/
theorem cross_view_votes_slashed :
    votesReturned lucid 7 soloIdentity ConsensusState.new [soloCall [], soloCall (encodeFallbackProof 1 1)] =
      [soloVote [], soloVote (encodeFallbackProof 1 1)] ∧ SignaturesBind lucid 7 (lucidKey 5)
      [soloVote [], soloVote (encodeFallbackProof 1 1)] ∧
    verifyDoubleSign lucid 7 (evidenceOf (soloVote []) (soloVote (encodeFallbackProof 1 1)))
      (lucidKey 5) = true ∧ ((soloRegistered (validatorKey lucid zero32)).bind ValidatorEntry.decode).map
      (fun entry => (entry.pk, entry.status)) = some (lucidKey 5, statusActive) ∧
    (run stored (StateKey.hash lucid) (executeSlash lucid
      (slashTransaction (evidenceOf (soloVote []) (soloVote (encodeFallbackProof 1 1)))) 7 0)
      soloRegistered).1.1.success = true :=
  ⟨rfl, lucid_signaturesBind ConsensusState.new [soloCall [], soloCall (encodeFallbackProof 1 1)],
    by decide +kernel, by decide +kernel, by decide +kernel⟩

/-- A call for a proposal of slot 2. -/
def soloNextCall : VoteCall := { soloCall [] with header := { soloHeader [] with slot := 2 } }

/-- Votes for slots 1 and 2 are no evidence. -/
theorem honest_votes_not_slashable_two_slots :
    ∃ c c', votesReturned lucid 7 soloIdentity ConsensusState.new [soloCall [], soloNextCall] = [c, c'] ∧
      verifyDoubleSign lucid 7 (evidenceOf c c') (lucidKey 5) = false := by
  refine ⟨_, _, rfl, ?_⟩
  apply (honest_votes_not_slashable lucid 7 soloIdentity ConsensusState.new
    [soloCall [], soloNextCall] (lucidKey 5) ⟨?_, ?_, trivial⟩
    (lucid_signaturesBind _ _) _ mem_cons_self _
    (mem_cons_of_mem _ mem_cons_self)).1 _ rfl rfl
  · exact fun h => absurd rfl h
  · intro _ hslot
    exact absurd hslot (by decide +kernel)

end Pyde
