/-
Module: Pyde.Consensus.Voting
Purpose: The voting history of one validator that is driven by an arbitrary sequence of `create_vote` calls, a
  committee in which every honest member votes so, and which certificates a validator takes over.
Trusted boundary: Network.Unforgeable
-/
import Pyde.Consensus.Hotstuff
import Mathlib.Logic.Relation

namespace Pyde

open ByteCodec VoterSet List

/-- The identity under which a validator votes. -/
structure Identity where
  address : Address
  sk : FalconSecretKey
deriving DecidableEq

/-- The arguments of one `create_vote` call, apart from the validator's own state and identity. -/
structure VoteCall where
  header : BlockHeader
  voterIndex : U8
  committeeKeys : List Bytes
  coins : Bytes
deriving DecidableEq

/-- A vote that `create_vote` returned, with the header it was cast for. -/
structure CastVote where
  header : BlockHeader
  vote : Vote
deriving DecidableEq

/-- A validator: its consensus state and the votes it has returned so far, oldest first. -/
structure Voter where
  state : ConsensusState
  cast : List CastVote
deriving DecidableEq

namespace Voter

variable (P : Prims) (chainId : U64) (ident : Identity)

/-- The effect of one `create_vote` call on a validator. -/
def step (voter : Voter) (call : VoteCall) : Voter :=
  let (st, reply) := createVote P chainId voter.state call.header call.voterIndex
    ident.address ident.sk call.committeeKeys call.coins
  match reply with
  | .ok (some vote) => { state := st, cast := voter.cast ++ [{ header := call.header, vote }] }
  | _ => { state := st, cast := voter.cast }

def run (voter : Voter) (calls : List VoteCall) : Voter := calls.foldl (step P chainId ident) voter

/-- The vote that a successful call returns. -/
def voteFor (call : VoteCall) (sig : FalconSignature) : Vote :=
  { slot := call.header.slot, blockHash := call.header.hash P, voterIndex := call.voterIndex,
    voterAddress := ident.address, signature := sig.bytes }

/-- One call changes at most the certificate the validator holds, unless it casts a vote that is newer
than everything it voted for before. -/
theorem step_cases (voter : Voter) (call : VoteCall) :
    (step P chainId ident voter call = voter) ∨
    (verifyQc P call.header.qcPrevious call.committeeKeys chainId = true ∧ step P chainId ident voter call =
        { voter with state := voter.state.adoptQc call.header.qcPrevious }) ∨
    (∃ sig, ¬ lexLe call.header.slot (proposalView call.header) voter.state.lastVotedSlot voter.state.lastVotedView ∧
      verifyQc P call.header.qcPrevious call.committeeKeys chainId = true ∧ P.falconSign ident.sk
          (proposerSignMessage chainId call.header.slot (call.header.hash P)) call.coins = some sig ∧
      step P chainId ident voter call =
        { state := { voter.state.adoptQc call.header.qcPrevious with
            lastVotedSlot := call.header.slot, lastVotedView := proposalView call.header }
          cast := voter.cast ++ [{ header := call.header, vote := voteFor P ident call sig }] }) := by
  unfold step
  rcases createVote_cases P chainId voter.state call.header call.voterIndex ident.address
      ident.sk call.committeeKeys call.coins with
    ⟨reply, heq, hnone⟩ | ⟨hverify, _, heq⟩ | ⟨sig, hlex, hverify, hsign, heq⟩
  · refine .inl ?_
    rw [heq]
    cases reply with
    | error _ => rfl
    | ok reply =>
      cases reply with
      | none => rfl
      | some vote => exact absurd rfl (hnone vote)
  · exact .inr (.inl ⟨hverify, by rw [heq]⟩)
  · exact .inr (.inr ⟨sig, hlex, hverify, hsign, by rw [heq]; rfl⟩)

end Voter

/-! ### The order of a history -/

/-- `(slot, view) < (slot', view')` in the order of the voting rule. -/
def lexLt (slot view slot' view' : U64) : Prop := ¬ lexLe slot' view' slot view

/-- The first vote was cast strictly before the second in the order of the voting rule. -/
def CastVote.Before (earlier later : CastVote) : Prop :=
  lexLt earlier.header.slot (proposalView earlier.header) later.header.slot (proposalView later.header)

theorem lexLt_of_lexLe_of_lexLt {s v s' v' s'' v'' : U64} (h : lexLe s v s' v')
    (h' : lexLt s' v' s'' v'') : lexLt s v s'' v'' := by
  unfold lexLt lexLe at *
  bv_omega

/-- The history is strictly ascending, and nothing in it is newer than the validator's own record of
its last vote. -/
structure HistoryOrdered (voter : Voter) : Prop where
  ascending : voter.cast.Pairwise CastVote.Before
  recorded : ∀ c ∈ voter.cast, lexLe c.header.slot (proposalView c.header) voter.state.lastVotedSlot
    voter.state.lastVotedView

theorem ConsensusState.adoptQc_lastVoted (st : ConsensusState) (qc : QuorumCert) :
    (st.adoptQc qc).lastVotedSlot = st.lastVotedSlot ∧
      (st.adoptQc qc).lastVotedView = st.lastVotedView := by
  unfold ConsensusState.adoptQc
  split
  · exact ⟨rfl, rfl⟩
  · exact ⟨rfl, rfl⟩

variable {voter : Voter} {c c' : CastVote}

theorem historyOrdered_step {P : Prims} {chainId : U64} {ident : Identity} (h : HistoryOrdered voter)
    (call : VoteCall) : HistoryOrdered (voter.step P chainId ident call) := by
  rcases Voter.step_cases P chainId ident voter call with
    heq | ⟨_, heq⟩ | ⟨sig, hlex, _, _, heq⟩
  · rw [heq]
    exact h
  · rw [heq]
    refine ⟨h.ascending, ?_⟩
    intro c hc
    have hkept := ConsensusState.adoptQc_lastVoted voter.state call.header.qcPrevious
    simp only [hkept.1, hkept.2]
    exact h.recorded c hc
  rw [heq]
  constructor
  case ascending =>
    rw [pairwise_append]
    refine ⟨h.ascending, pairwise_singleton _ _, ?_⟩
    intro c hc c' hc'
    rw [mem_singleton] at hc'
    subst hc'
    -- the last recorded position lies between the old vote and the new one
    exact lexLt_of_lexLe_of_lexLt (h.recorded c hc) hlex
  case recorded =>
    intro c hc
    simp only at hc ⊢
    rcases List.mem_append.mp hc with hold | hnew
    · have hrec := h.recorded c hold
      unfold lexLe at *
      bv_omega
    rw [mem_singleton] at hnew
    subst hnew
    exact .inr ⟨rfl, BitVec.le_refl _⟩

/-! ### The contents of a history -/

/-- A cast vote is for the header it was cast for, and its signature was made by the validator over
the canonical vote message. -/
def CastVote.WellFormed (P : Prims) (chainId : U64) (ident : Identity) (c : CastVote) : Prop :=
  c.vote.slot = c.header.slot ∧ c.vote.blockHash = c.header.hash P ∧ ∃ coins sig, P.falconSign ident.sk
        (proposerSignMessage chainId c.vote.slot c.vote.blockHash) coins = some sig ∧ c.vote.signature = sig.bytes

def CastVote.message (chainId : U64) (c : CastVote) : Bytes :=
  proposerSignMessage chainId c.vote.slot c.vote.blockHash

section

variable {P : Prims} {chainId : U64} {ident : Identity}
  (h : ∀ c ∈ voter.cast, c.WellFormed P chainId ident)
include h

theorem cast_wellFormed_step (call : VoteCall) :
    ∀ c ∈ (voter.step P chainId ident call).cast, c.WellFormed P chainId ident := by
  rcases Voter.step_cases P chainId ident voter call with
    heq | ⟨_, heq⟩ | ⟨sig, _, _, hsign, heq⟩
  · rw [heq]
    exact h
  · rw [heq]
    exact h
  rw [heq]
  intro c hc
  rcases List.mem_append.mp hc with hold | hnew
  · exact h c hold
  rw [mem_singleton] at hnew
  subst hnew
  exact ⟨rfl, rfl, call.coins, sig, hsign, rfl⟩

theorem cast_wellFormed_run (calls : List VoteCall) :
    ∀ c ∈ (voter.run P chainId ident calls).cast, c.WellFormed P chainId ident := by
  induction calls generalizing voter with
  | nil => exact h
  | cons call calls ih => exact ih (cast_wellFormed_step h call)

end

/-- Of two different entries of a history, one came before the other. -/
theorem HistoryOrdered.before_or_before (h : HistoryOrdered voter) (hc : c ∈ voter.cast) (hc' : c' ∈ voter.cast)
    (hne : c ≠ c') : c.Before c' ∨ c'.Before c := by
  have hsymm : Std.Symm fun c c' : CastVote => c.Before c' ∨ c'.Before c := ⟨fun _ _ => Or.symm⟩
  have hordered : voter.cast.Pairwise fun c c' => c.Before c' ∨ c'.Before c :=
    h.ascending.imp fun hbefore => .inl hbefore
  exact hordered.forall hc hc' hne

theorem CastVote.Before.view_lt (h : c.Before c') (hslot : c.header.slot = c'.header.slot) :
    proposalView c.header < proposalView c'.header := by
  simp only [CastVote.Before, lexLt, lexLe, hslot, true_and, not_or] at h
  exact BitVec.not_le.mp h.2

/-- Two votes of one slot for different blocks were cast at different views. -/
theorem HistoryOrdered.views_ne {P : Prims} {chainId : U64} {ident : Identity} (h : HistoryOrdered voter)
    (hwf : ∀ c ∈ voter.cast, c.WellFormed P chainId ident) (hc : c ∈ voter.cast) (hc' : c' ∈ voter.cast)
    (hslot : c.vote.slot = c'.vote.slot) (hhash : c.vote.blockHash ≠ c'.vote.blockHash) :
    proposalView c.header ≠ proposalView c'.header := by
  have hne : c ≠ c' := by
    rintro rfl
    exact hhash rfl
  have hslots : c.header.slot = c'.header.slot := by rw [← (hwf c hc).1, ← (hwf c' hc').1, hslot]
  rcases h.before_or_before hc hc' hne with hlt | hlt
  · have := hlt.view_lt hslots
    bv_omega
  · have := hlt.view_lt hslots.symm
    bv_omega

variable {P : Prims} {committee : Committee} {net : Network}

/-- A committee: the public keys by index, the identity behind each index, and which indices are
Byzantine. -/
structure Committee where
  chainId : U64
  keys : List Bytes
  identity : Nat → Identity
  byzantine : Finset Nat

/-- The validators of a committee, and every vote message that has been sent by anyone. -/
structure Network where
  voters : Nat → Voter
  emitted : List Vote

namespace Network

/-- Every validator starts from `ConsensusState::new`. -/
def init : Network := { voters := fun _ => { state := ConsensusState.new, cast := [] }, emitted := [] }

/-- An honest member runs one `create_vote` call; what it returns is sent. -/
def honestStep (P : Prims) (committee : Committee) (net : Network) (i : Nat) (call : VoteCall) : Network :=
  let voter := (net.voters i).step P committee.chainId (committee.identity i) call
  { voters := Function.update net.voters i voter
    emitted := net.emitted ++ (voter.cast.drop (net.voters i).cast.length).map CastVote.vote }

/-- One step of the network: an honest member handles a header, or the adversary sends a vote of its
choice. -/
inductive Step (P : Prims) (committee : Committee) : Network → Network → Prop
  | honest {net : Network} {i : Nat} (hi : i < committee.keys.length)
      (hhonest : i ∉ committee.byzantine) (call : VoteCall) :
      Step P committee net (net.honestStep P committee i call)
  | adversary {net : Network} (vote : Vote) : Step P committee net { net with emitted := net.emitted ++ [vote] }

/-- The states of the network after any interleaving of steps. -/
def Reachable (P : Prims) (committee : Committee) (net : Network) : Prop :=
  Relation.ReflTransGen (Step P committee) init net

/-- The adversary cannot sign for an honest member: a signature in circulation that verifies under an
honest member's key is over a message that this member signed in a vote. -/
def Unforgeable (P : Prims) (committee : Committee) (net : Network) : Prop :=
  ∀ i < committee.keys.length, i ∉ committee.byzantine → ∀ vote ∈ net.emitted, ∀ msg,
    P.verifyRaw (committee.keys.getD i []) msg vote.signature = true →
      ∃ c ∈ (net.voters i).cast, c.message committee.chainId = msg

/-- The certificate was assembled from signatures in circulation. -/
def Carries (net : Network) (qc : QuorumCert) : Prop :=
  ∀ signature ∈ qc.signatures, ∃ vote ∈ net.emitted, vote.signature = signature

/-- The shape of every voting history. -/
def HistoriesOrdered (P : Prims) (committee : Committee) (net : Network) : Prop :=
  ∀ i, HistoryOrdered (net.voters i) ∧
    ∀ c ∈ (net.voters i).cast, c.WellFormed P committee.chainId (committee.identity i)

theorem histories_step {net' : Network} (h : HistoriesOrdered P committee net) (hstep : Step P committee net net') :
    HistoriesOrdered P committee net' := by
  cases hstep with
  | @honest i _ _ call =>
    intro j
    by_cases hj : j = i
    · subst hj
      simp only [honestStep, Function.update_self]
      exact ⟨historyOrdered_step (h j).1 call, cast_wellFormed_step (h j).2 call⟩
    · simp only [honestStep, Function.update_of_ne hj]
      exact h j
  | adversary vote => exact h

theorem reachable_histories (hreach : Reachable P committee net) : HistoriesOrdered P committee net := by
  induction hreach with
  | refl =>
    intro i
    exact ⟨⟨List.Pairwise.nil, by simp [init]⟩, by simp [init]⟩
  | tail _ hstep ih => exact histories_step ih hstep

/-- Behind every honest bit of an accepted certificate there is a vote of that member for exactly the
certified block. -/
theorem exists_cast_of_verifyQc (hunf : Unforgeable P committee net) {qc : QuorumCert} (hcarries : net.Carries qc)
    (hvoters : qc.voterBitmap ≠ 0#128) (hverify : verifyQc P qc committee.keys committee.chainId = true) {i : Nat}
    (hi : i ∈ positions qc.voterBitmap) (hhonest : i ∉ committee.byzantine) :
    ∃ c ∈ (net.voters i).cast, c.vote.slot = qc.slot ∧ c.vote.blockHash = qc.blockHash := by
  obtain ⟨signature, hsig, hlt, hok⟩ := exists_signature_of_verifyQc hverify hvoters hi
  obtain ⟨vote, hvote, rfl⟩ := hcarries signature hsig
  obtain ⟨c, hc, hmsg⟩ := hunf i hlt hhonest vote hvote _ hok
  obtain ⟨_, hslot, hhash⟩ := proposerSignMessage_inj.mp hmsg
  exact ⟨c, hc, hslot, hhash⟩

/-- The voters of an accepted certificate are a supermajority of the committee. -/
theorem voters_supermajority {qc : QuorumCert} (hvoters : qc.voterBitmap ≠ 0#128)
    (hverify : verifyQc P qc committee.keys committee.chainId = true) :
    (positions qc.voterBitmap).toFinset ⊆ Finset.range committee.keys.length ∧
      2 * (Finset.range committee.keys.length).card ≤ 3 * (positions qc.voterBitmap).toFinset.card := by
  constructor
  · intro i hi
    rw [mem_toFinset] at hi
    obtain ⟨_, _, hlt, _⟩ := exists_signature_of_verifyQc hverify hvoters hi
    exact Finset.mem_range.mpr hlt
  · rcases verifyQc_iff.mp hverify with ⟨hzero, _⟩ | ⟨_, hquorum, _⟩
    · exact absurd hzero hvoters
    · rw [Finset.card_range, ← countOnes_eq_card]
      exact quorumForCommittee_le_iff.mp hquorum

end Network

/-- In every reachable state of a committee with fewer than a third Byzantine members, two accepted
certificates of one slot that have voters certify one block, or some honest member voted for both
blocks, in two different views of that slot. -/
theorem conflicting_certificates_share_cross_view_voter (P : Prims) (committee : Committee)
    (hthird : 3 * committee.byzantine.card < committee.keys.length) (net : Network)
    (hreach : Network.Reachable P committee net) (hunf : Network.Unforgeable P committee net)
    (qc qc' : QuorumCert) (hcarries : net.Carries qc) (hcarries' : net.Carries qc')
    (hvoters : qc.voterBitmap ≠ 0#128) (hvoters' : qc'.voterBitmap ≠ 0#128)
    (hverify : verifyQc P qc committee.keys committee.chainId = true)
    (hverify' : verifyQc P qc' committee.keys committee.chainId = true) (hslot : qc.slot = qc'.slot) :
    qc.blockHash = qc'.blockHash ∨ ∃ i < committee.keys.length, i ∉ committee.byzantine ∧
        ∃ c ∈ (net.voters i).cast, ∃ c' ∈ (net.voters i).cast,
          (c.vote.slot = qc.slot ∧ c.vote.blockHash = qc.blockHash) ∧
          (c'.vote.slot = qc.slot ∧ c'.vote.blockHash = qc'.blockHash) ∧
          proposalView c.header ≠ proposalView c'.header := by
  by_cases hhash : qc.blockHash = qc'.blockHash
  · exact .inl hhash
  refine .inr ?_
  obtain ⟨hsub, hcard⟩ := Network.voters_supermajority hvoters hverify
  obtain ⟨hsub', hcard'⟩ := Network.voters_supermajority hvoters' hverify'
  have hfaulty : 3 * committee.byzantine.card < (Finset.range committee.keys.length).card := by
    rwa [Finset.card_range]
  obtain ⟨i, hi, hi', hhonest⟩ := exists_common_of_supermajority hsub hsub' hcard hcard' hfaulty
  have hlt : i < committee.keys.length := Finset.mem_range.mp (hsub hi)
  rw [mem_toFinset] at hi hi'
  obtain ⟨c, hc, hcslot, hchash⟩ := Network.exists_cast_of_verifyQc hunf hcarries hvoters hverify hi hhonest
  obtain ⟨c', hc', hcslot', hchash'⟩ := Network.exists_cast_of_verifyQc hunf hcarries' hvoters' hverify' hi' hhonest
  obtain ⟨hordered, hwf⟩ := Network.reachable_histories hreach i
  have hviews : proposalView c.header ≠ proposalView c'.header :=
    hordered.views_ne hwf hc hc' (by rw [hcslot, hcslot', hslot]) (by rw [hchash, hchash']; exact hhash)
  exact ⟨i, hlt, hhonest, c, hc, c', hc', ⟨hcslot, hchash⟩, ⟨by rw [hcslot', hslot], hchash'⟩, hviews⟩

/-! ### One validator, two views

A committee of one honest validator certifies two blocks of slot 1: the block proposed at view 0, and
the block proposed at view 1 after a view change. -/

/-- The one member of the committee below. -/
def soloCommittee : Committee :=
  { chainId := 7, keys := [lucidKey 5], identity := fun _ => { address := zero32, sk := ⟨[5]⟩ }, byzantine := ∅ }

/-- A proposal for slot 1 on top of genesis, with the given `vrf_proof`. -/
def soloHeader (vrfProof : Bytes) : BlockHeader :=
  { slot := 1, epoch := 0, parentHash := zero32, proposer := zero32, vrfProof,
    qcPrevious := QuorumCert.empty, txRoot := zero32, stateRoot := zero32, timestamp := 0 }

def soloCall (vrfProof : Bytes) : VoteCall :=
  { header := soloHeader vrfProof, voterIndex := 0, committeeKeys := [lucidKey 5], coins := [] }

/-- The network after the member has seen the view 0 proposal and then the view 1 proposal. -/
def soloNetwork : Network :=
  (Network.init.honestStep lucid soloCommittee 0 (soloCall [])).honestStep lucid
    soloCommittee 0 (soloCall (encodeFallbackProof 1 1))

/-- The certificate of the member's vote for the proposal with the given `vrf_proof`. -/
def soloCertificate (vrfProof : Bytes) : QuorumCert :=
  { slot := 1, blockHash := (soloHeader vrfProof).hash lucid, voterBitmap := 1#128,
    signatures := [(lucidSignature [5]
      (proposerSignMessage 7 1 ((soloHeader vrfProof).hash lucid))).bytes] }

def soloVote (vrfProof : Bytes) : CastVote :=
  { header := soloHeader vrfProof
    vote := Voter.voteFor lucid { address := zero32, sk := ⟨[5]⟩ } (soloCall vrfProof)
      (lucidSignature [5] (proposerSignMessage 7 1 ((soloHeader vrfProof).hash lucid))) }

theorem soloNetwork_cast : (soloNetwork.voters 0).cast = [soloVote [], soloVote (encodeFallbackProof 1 1)] := rfl

theorem soloNetwork_emitted :
    soloNetwork.emitted = [(soloVote []).vote, (soloVote (encodeFallbackProof 1 1)).vote] := rfl

theorem soloNetwork_reachable : Network.Reachable lucid soloCommittee soloNetwork :=
  (Relation.ReflTransGen.refl.tail (Network.Step.honest (by decide) (by decide) _)).tail
    (Network.Step.honest (by decide) (by decide) _)

theorem soloNetwork_unforgeable : Network.Unforgeable lucid soloCommittee soloNetwork := by
  intro i hi _ vote hvote msg hverify
  have hi0 : i = 0 := by simpa [soloCommittee] using hi
  subst hi0
  -- a lucid signature determines the message, so the vote that carries it is the witness
  have hsigned : ∀ vrfProof, vote = (soloVote vrfProof).vote → (soloVote vrfProof).message 7 = msg := by
    rintro vrfProof rfl
    have hown : lucid.verifyRaw (lucidKey 5) ((soloVote vrfProof).message 7)
        (soloVote vrfProof).vote.signature = true :=
      lucid_verifyRaw_iff.mpr ⟨by simp [CastVote.message], rfl⟩
    exact lucid_bindsMessage 5 Set.univ _ (Set.mem_univ _) _ _ hown hverify
  rw [soloNetwork_emitted, mem_cons, mem_singleton] at hvote
  rw [soloNetwork_cast]
  rcases hvote with hvote | hvote
  · exact ⟨_, mem_cons_self, hsigned _ hvote⟩
  · exact ⟨_, mem_cons_of_mem _ mem_cons_self, hsigned _ hvote⟩

theorem soloCertificate_verifies (vrfProof : Bytes) :
    verifyQc lucid (soloCertificate vrfProof) soloCommittee.keys soloCommittee.chainId = true := by
  have hpositions : positions (soloCertificate vrfProof).voterBitmap = [0] := by
    change positions 1#128 = [0]
    decide
  rw [verifyQc_iff, countOnes, hpositions]
  refine .inr ⟨by decide, by decide, List.Forall₂.cons ⟨by decide, ?_⟩ List.Forall₂.nil⟩
  exact lucid_verifyRaw_iff.mpr ⟨by simp, rfl⟩

theorem soloCertificate_carried :
    soloNetwork.Carries (soloCertificate []) ∧ soloNetwork.Carries (soloCertificate (encodeFallbackProof 1 1)) := by
  constructor
  · intro signature hsig
    refine ⟨(soloVote []).vote, by rw [soloNetwork_emitted]; exact mem_cons_self, ?_⟩
    exact (List.mem_singleton.mp hsig).symm
  · intro signature hsig
    refine ⟨(soloVote (encodeFallbackProof 1 1)).vote, ?_, ?_⟩
    · rw [soloNetwork_emitted]
      exact mem_cons_of_mem _ mem_cons_self
    · exact (List.mem_singleton.mp hsig).symm

theorem soloCertificate_hashes_ne :
    (soloCertificate []).blockHash ≠ (soloCertificate (encodeFallbackProof 1 1)).blockHash := by
  decide +kernel

/-- Every string that the two proposals make the code hash. -/
def soloPreimages : List Bytes :=
  [[], encodeFallbackProof 1 1, QuorumCert.empty.preimage, (soloHeader []).preimage lucid,
    (soloHeader (encodeFallbackProof 1 1)).preimage lucid]

theorem soloPreimages_collisionFree : lucid.CollisionFreeOn {bs | bs ∈ soloPreimages} := by
  have hpairs : ∀ x ∈ soloPreimages, ∀ y ∈ soloPreimages,
      lucid.poseidon2Hash x = lucid.poseidon2Hash y → x = y := by
    decide +kernel
  intro x hx y hy heq
  exact hpairs x hx y hy heq

/-- The committee has no Byzantine member, signatures are unforgeable and hashes do not collide, and
still two blocks of slot 1 are certified. -/
theorem cross_view_votes_certify_two_blocks :
    3 * soloCommittee.byzantine.card < soloCommittee.keys.length ∧
    Network.Reachable lucid soloCommittee soloNetwork ∧
    Network.Unforgeable lucid soloCommittee soloNetwork ∧ lucid.CollisionFreeOn {bs | bs ∈ soloPreimages} ∧
    soloNetwork.Carries (soloCertificate []) ∧ soloNetwork.Carries (soloCertificate (encodeFallbackProof 1 1)) ∧
    verifyQc lucid (soloCertificate []) soloCommittee.keys soloCommittee.chainId = true ∧
    verifyQc lucid (soloCertificate (encodeFallbackProof 1 1)) soloCommittee.keys soloCommittee.chainId = true ∧
    (soloCertificate []).slot = (soloCertificate (encodeFallbackProof 1 1)).slot ∧
    (soloCertificate []).blockHash ≠ (soloCertificate (encodeFallbackProof 1 1)).blockHash :=
  ⟨by decide, soloNetwork_reachable, soloNetwork_unforgeable, soloPreimages_collisionFree,
    soloCertificate_carried.1, soloCertificate_carried.2, soloCertificate_verifies [],
    soloCertificate_verifies (encodeFallbackProof 1 1), rfl, soloCertificate_hashes_ne⟩

/-- On that network the two certificates are explained by the one member's votes in two views. -/
theorem conflicting_certificates_solo :
    ∃ i < soloCommittee.keys.length, i ∉ soloCommittee.byzantine ∧
      ∃ c ∈ (soloNetwork.voters i).cast, ∃ c' ∈ (soloNetwork.voters i).cast,
        (c.vote.slot = 1 ∧ c.vote.blockHash = (soloCertificate []).blockHash) ∧ (c'.vote.slot = 1 ∧
          c'.vote.blockHash = (soloCertificate (encodeFallbackProof 1 1)).blockHash) ∧
        proposalView c.header ≠ proposalView c'.header :=
  (conflicting_certificates_share_cross_view_voter lucid soloCommittee (by decide) soloNetwork
    soloNetwork_reachable soloNetwork_unforgeable (soloCertificate [])
    (soloCertificate (encodeFallbackProof 1 1)) soloCertificate_carried.1 soloCertificate_carried.2
    (by decide) (by decide) (soloCertificate_verifies [])
    (soloCertificate_verifies (encodeFallbackProof 1 1)) rfl).resolve_left soloCertificate_hashes_ne

end Pyde

namespace Pyde

open ByteCodec VoterSet List

namespace QuorumCert

def IsGenesis (qc : QuorumCert) : Prop := qc.slot = 0#64 ∧ qc.voterBitmap = 0#128

/-- At least a quorum of committee members has a valid signature in the certificate over its own
chain, slot and block hash. -/
def HoldsQuorum (P : Prims) (chainId : U64) (keys : List Bytes) (qc : QuorumCert) : Prop :=
  ∃ signers : Finset Nat, quorumForCommittee keys.length ≤ signers.card ∧
    ∀ i ∈ signers, ∃ signature ∈ qc.signatures,
      SignedBy P keys (proposerSignMessage chainId qc.slot qc.blockHash) i signature

/-- What a validator may rely on as its highest certificate. -/
def Authentic (P : Prims) (chainId : U64) (keys : List Bytes) (qc : QuorumCert) : Prop :=
  qc.IsGenesis ∨ qc.HoldsQuorum P chainId keys

theorem authentic_empty (P : Prims) (chainId : U64) (keys : List Bytes) :
    Authentic P chainId keys empty := Or.inl ⟨rfl, rfl⟩

section

variable {P : Prims} {chainId : U64} {keys : List Bytes} {qc : QuorumCert}

/-- An accepted certificate whose bitmap claims a quorum holds one. -/
theorem holdsQuorum_of_verifyQc (hverify : verifyQc P qc keys chainId = true)
    (hquorum : qc.hasQuorumFor keys.length = true) : qc.HoldsQuorum P chainId keys := by
  refine ⟨(positions qc.voterBitmap).toFinset, ?_, ?_⟩
  · rw [← countOnes_eq_card]
    exact of_decide_eq_true hquorum
  · intro i hi
    rw [mem_toFinset] at hi
    have hvoters : qc.voterBitmap ≠ 0#128 := by
      intro hzero
      rw [hzero, positions_zero] at hi
      cases hi
    exact exists_signature_of_verifyQc hverify hvoters hi

/-- An accepted certificate is authentic as soon as the empty ones are confined to slot 0. -/
theorem authentic_of_verifyQc (hverify : verifyQc P qc keys chainId = true)
    (hempty : qc.voterBitmap = 0#128 → qc.signatures = [] → qc.slot = 0#64) : Authentic P chainId keys qc := by
  rcases verifyQc_iff.mp hverify with ⟨hzero, hnil⟩ | ⟨_, hquorum, _⟩
  · exact .inl ⟨hempty hzero hnil, hzero⟩
  · exact .inr (holdsQuorum_of_verifyQc hverify (decide_eq_true hquorum))

/-- Without signatures a certificate holds no quorum of a committee that has members. -/
theorem not_holdsQuorum_of_signatures_nil (hpos : 0 < keys.length) (hnil : qc.signatures = []) :
    ¬ qc.HoldsQuorum P chainId keys := by
  rintro ⟨signers, hquorum, hsigned⟩
  have hcard : 0 < signers.card := Nat.lt_of_lt_of_le (quorumForCommittee_pos hpos) hquorum
  obtain ⟨i, hi⟩ := Finset.card_pos.mp hcard
  obtain ⟨signature, hmem, _⟩ := hsigned i hi
  rw [hnil] at hmem
  cases hmem

end

end QuorumCert

/-! ### Runs -/

/-- What makes a validator take over certificates. -/
inductive AdoptionEvent where
  | vote (header : BlockHeader) (voterIndex : U8) (coins : Bytes)
  | formViewChange (slot : U64) (msgs : List ViewChangeMessage)

/-- A validator with the view-change certificates it has formed. -/
structure Adopter where
  voter : Voter
  formed : List ViewChangeQC

namespace Adopter

variable (P : Prims) (chainId : U64) (ident : Identity) (keys : List Bytes)

/-- A validator that has seen nothing. -/
def init : Adopter := { voter := { state := ConsensusState.new, cast := [] }, formed := [] }

/-- One call of `create_vote` or of `try_form_view_change_qc`. -/
def step (adopter : Adopter) : AdoptionEvent → Adopter
  | .vote header voterIndex coins =>
    { adopter with
        voter := adopter.voter.step P chainId ident { header, voterIndex, committeeKeys := keys, coins } }
  | .formViewChange slot msgs =>
    match tryFormViewChangeQc P chainId slot msgs keys with
    | some vcQc => { adopter with formed := adopter.formed ++ [vcQc] }
    | none => adopter

def run (adopter : Adopter) (events : List AdoptionEvent) : Adopter :=
  events.foldl (step P chainId ident keys) adopter

/-- Everything the validator has taken over is authentic. -/
def AllAuthentic (adopter : Adopter) : Prop :=
  adopter.voter.state.highestQc.Authentic P chainId keys ∧
    ∀ vcQc ∈ adopter.formed, vcQc.highestQc.Authentic P chainId keys

end Adopter

/-- A header with an empty certificate names slot 0 in it, and a view-change message that claims a
quorum for a later slot carries a certificate that verifies. -/
def AdoptionEvent.Sound (P : Prims) (chainId : U64) (keys : List Bytes) :
    AdoptionEvent → Prop
  | .vote header _ _ =>
    header.qcPrevious.voterBitmap = 0#128 → header.qcPrevious.signatures = [] → header.qcPrevious.slot = 0#64
  | .formViewChange _ msgs =>
    ∀ msg ∈ msgs, 0#64 < msg.highestQc.slot → msg.highestQc.hasQuorumFor keys.length = true →
        verifyQc P msg.highestQc keys chainId = true

theorem ConsensusState.adoptQc_highestQc (st : ConsensusState) (qc : QuorumCert) :
    (st.adoptQc qc).highestQc = st.highestQc ∨ (st.adoptQc qc).highestQc = qc := by
  unfold ConsensusState.adoptQc
  split
  · exact .inr rfl
  · exact .inl rfl

/-- `create_vote` leaves the highest certificate alone or promotes the header's, which it verified. -/
theorem Voter.step_highestQc (P : Prims) (chainId : U64) (ident : Identity) (voter : Voter) (call : VoteCall) :
    (voter.step P chainId ident call).state.highestQc = voter.state.highestQc ∨
      ((voter.step P chainId ident call).state.highestQc = call.header.qcPrevious ∧
        verifyQc P call.header.qcPrevious call.committeeKeys chainId = true) := by
  have hadopt := ConsensusState.adoptQc_highestQc voter.state call.header.qcPrevious
  rcases Voter.step_cases P chainId ident voter call with
    heq | ⟨hverify, heq⟩ | ⟨sig, _, hverify, _, heq⟩
  · exact .inl (by rw [heq])
  · rw [heq]
    rcases hadopt with hkeep | htake
    · exact .inl hkeep
    · exact .inr ⟨htake, hverify⟩
  rw [heq]
  rcases hadopt with hkeep | htake
  · exact .inl hkeep
  · exact .inr ⟨htake, hverify⟩

theorem Adopter.allAuthentic_step {P : Prims} {chainId : U64} {ident : Identity}
    {keys : List Bytes} {adopter : Adopter}
    (h : adopter.AllAuthentic P chainId keys) {event : AdoptionEvent}
    (hsound : event.Sound P chainId keys) :
    (adopter.step P chainId ident keys event).AllAuthentic P chainId keys := by
  cases event with
  | vote header voterIndex coins =>
    refine ⟨?_, h.2⟩
    rcases Voter.step_highestQc P chainId ident adopter.voter
        { header, voterIndex, committeeKeys := keys, coins } with hkeep | ⟨htake, hverify⟩
    · simp only [Adopter.step, hkeep]
      exact h.1
    · simp only [Adopter.step, htake]
      exact QuorumCert.authentic_of_verifyQc hverify hsound
  | formViewChange slot msgs =>
    simp only [Adopter.step]
    cases hform : tryFormViewChangeQc P chainId slot msgs keys with
    | none => exact h
    | some vcQc =>
      refine ⟨h.1, ?_⟩
      intro vcQc' hmem
      rcases List.mem_append.mp hmem with hold | hnew
      · exact h.2 vcQc' hold
      rw [List.mem_singleton.mp hnew]
      refine tryFormViewChangeQc_highestQc hform (QuorumCert.authentic_empty P chainId keys) ?_
      intro msg hmsg hslot hquorum
      exact .inr (QuorumCert.holdsQuorum_of_verifyQc (hsound msg hmsg hslot hquorum) hquorum)

/-- In every run of events that all meet the condition, the certificate a validator holds and the ones
its view-change certificates carry are authentic. -/
theorem adopted_certificates_authentic (P : Prims) (chainId : U64) (ident : Identity)
    (keys : List Bytes) (events : List AdoptionEvent)
    (hsound : ∀ event ∈ events, event.Sound P chainId keys) :
    (Adopter.init.run P chainId ident keys events).AllAuthentic P chainId keys := by
  induction events using List.reverseRecOn with
  | nil =>
    refine ⟨QuorumCert.authentic_empty P chainId keys, ?_⟩
    exact nofun
  | append_singleton events event ih =>
    rw [Adopter.run, foldl_append]
    have hinitial := ih fun e he => hsound e (mem_append_left _ he)
    exact Adopter.allAuthentic_step hinitial (hsound event (mem_append_right _ (mem_singleton_self event)))

/-! ### A signed certificate -/

/-- A proposal for slot 2 on top of the certificate that the member of `soloCommittee` signed in slot 1. -/
def certifiedProposal : BlockHeader := { soloHeader [] with slot := 2, qcPrevious := soloCertificate [] }

def certifiedReport : ViewChangeMessage :=
  { slot := 2, highestQc := soloCertificate [], voterIndex := 0, voterAddress := zero32,
    signature := (lucidSignature [5] (viewChangeSignMessage lucid 7 2 (soloCertificate []))).bytes }

/-- `create_vote` adopts the signed certificate, and the view-change certificate formed next carries it. -/
theorem adopted_certificates_authentic_signed :
    let adopter := Adopter.init.run lucid 7 { address := zero32, sk := ⟨[5]⟩ } [lucidKey 5]
      [.vote certifiedProposal 0 [], .formViewChange 2 [certifiedReport]]
    adopter.AllAuthentic lucid 7 [lucidKey 5] ∧ adopter.voter.state.highestQc = soloCertificate [] ∧
      adopter.formed.map ViewChangeQC.highestQc = [soloCertificate []] := by
  refine ⟨adopted_certificates_authentic _ _ _ _ _ ?_, by decide +kernel, by decide +kernel⟩
  intro event hevent
  simp only [mem_cons, not_mem_nil, or_false] at hevent
  rcases hevent with rfl | rfl
  · intro hvoterless
    cases hvoterless
  · intro msg hmsg _ _
    rw [mem_singleton.mp hmsg]
    exact soloCertificate_verifies []

/-! ### Certificates nobody signed -/

/-- A certificate for slot 9 without voters. -/
def voterlessCert : QuorumCert := { slot := 9, blockHash := zero32, voterBitmap := 0#128, signatures := [] }

/-- A certificate for slot 9 that claims the one committee member as voter and has no signature. -/
def unsignedCert : QuorumCert := { slot := 9, blockHash := zero32, voterBitmap := 1#128, signatures := [] }

/-- A proposal for slot 10 on top of the certificate without voters. -/
def voterlessProposal : BlockHeader :=
  { slot := 10, epoch := 0, parentHash := zero32, proposer := zero32, vrfProof := [],
    qcPrevious := voterlessCert, txRoot := zero32, stateRoot := zero32, timestamp := 0 }

def unsignedReport : ViewChangeMessage :=
  { slot := 10, highestQc := unsignedCert, voterIndex := 0, voterAddress := zero32,
    signature := (lucidSignature [5] (viewChangeSignMessage lucid 7 10 unsignedCert)).bytes }

/-- One validator, one event of either kind, and the certificate taken over is for slot 9 although
nobody voted in that slot. -/
theorem unsigned_certificates_adopted :
    ((Adopter.init.run lucid 7 { address := zero32, sk := ⟨[5]⟩ } [lucidKey 5]
        [.vote voterlessProposal 0 []]).voter.state.highestQc = voterlessCert ∧
      ¬ voterlessCert.Authentic lucid 7 [lucidKey 5]) ∧
    ((tryFormViewChangeQc lucid 7 10 [unsignedReport] [lucidKey 5]).map
        ViewChangeQC.highestQc = some unsignedCert ∧ ¬ unsignedCert.Authentic lucid 7 [lucidKey 5]) := by
  refine ⟨⟨rfl, ?_⟩, ?_, ?_⟩
  · rintro (⟨hslot, _⟩ | hquorum)
    · cases hslot
    · exact QuorumCert.not_holdsQuorum_of_signatures_nil (by decide) rfl hquorum
  · decide +kernel
  · rintro (⟨hslot, _⟩ | hquorum)
    · cases hslot
    · exact QuorumCert.not_holdsQuorum_of_signatures_nil (by decide) rfl hquorum

end Pyde
