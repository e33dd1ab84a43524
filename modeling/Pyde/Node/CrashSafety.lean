/-
Module: Pyde.Node.CrashSafety
Purpose: Voting across restarts: what a validator that dies at any moment gets back from its store.
Trusted boundary: the store keeps a value once its write was acknowledged, Prims
-/
import Pyde.Node.WireSurvival
import Pyde.Consensus.Voting

namespace Pyde

open ByteCodec

/-- A validator process and its consensus store. -/
structure VotingNode where
  consensus : ConsensusState
  /-- `consensus_store` is `Some`. -/
  storeAttached : Bool
  /-- The value under `consensus:state`. -/
  stored : Option Bytes
  /-- The votes returned so far, those before a restart included, oldest first. -/
  returned : List CastVote
deriving DecidableEq

/-- What the engine of a starting process holds after `attach_consensus_store`: its state, and
whether it has a store. -/
def attachConsensusStore (stored : Option Bytes) : ConsensusState × Bool :=
  match stored with
  | none => (ConsensusState.new, true)
  | some bytes =>
    match decodeConsensusState bytes with
    | .ok prior => (prior, true)
    -- the attach is given up with a log line: the engine goes on with its fresh state
    | .error _ => (ConsensusState.new, false)

namespace VotingNode

/-- The process dies and a new one starts over the same store. -/
def restart (node : VotingNode) : VotingNode :=
  { node with
    consensus := (attachConsensusStore node.stored).1
    storeAttached := (attachConsensusStore node.stored).2 }

/-- `persist_consensus`. A failed write only raises the shutdown signal where one is attached, and
panics (`none`) where there is none. -/
def persistConsensus (shutdownSignal saveOk : Bool) (node : VotingNode) : Option VotingNode :=
  if node.storeAttached = false then some node
  else if saveOk then some { node with stored := some (encodeConsensusState node.consensus) }
  else if shutdownSignal then some node
  else none

variable (P : Prims) (chainId : U64) (ident : Identity) (shutdownSignal : Bool)

/-- `on_proposal`, with the answer the store gives to the write. -/
def onProposal (node : VotingNode) (call : VoteCall) (saveOk : Bool) : VotingNode :=
  match createVote P chainId node.consensus call.header call.voterIndex ident.address
      ident.sk call.committeeKeys call.coins with
  | (consensus, .ok (some vote)) =>
    match persistConsensus shutdownSignal saveOk { node with consensus } with
    | some node => { node with returned := node.returned ++ [{ header := call.header, vote }] }
    -- the release build aborts on a panic
    | none => node.restart
  | (consensus, _) => { node with consensus }

end VotingNode

/-- What can happen to a validator process. `saveOk` is the answer of the store to a write. -/
inductive VotingEvent where
  | proposal (call : VoteCall) (saveOk : Bool)
  | crash
deriving DecidableEq

section Runs

variable (P : Prims) (chainId : U64) (ident : Identity) (shutdownSignal : Bool)

def votingStep (node : VotingNode) : VotingEvent → VotingNode
  | .proposal call saveOk => node.onProposal P chainId ident shutdownSignal call saveOk
  | .crash => node.restart

/-- Any interleaving of proposals and crashes. -/
def runVoting (node : VotingNode) (events : List VotingEvent) : VotingNode :=
  events.foldl (votingStep P chainId ident shutdownSignal) node

/-- No two returned votes name different blocks for one slot and view. -/
def NeverTwoBlocks (returned : List CastVote) : Prop :=
  ∀ c ∈ returned, ∀ c' ∈ returned, c.vote.slot = c'.vote.slot →
    proposalView c.header = proposalView c'.header → c.vote.blockHash = c'.vote.blockHash

/-- A write that fails is not answered with a vote, and a certificate that would be adopted has no
more signatures than the decoder of the stored state takes. -/
def EventKept (node : VotingNode) : VotingEvent → Prop
  | .proposal call saveOk =>
    (saveOk = true ∨ shutdownSignal = false) ∧ (node.consensus.highestQc.slot < call.header.qcPrevious.slot →
      call.header.qcPrevious.signatures.length ≤ qcMaxSigners)
  | .crash => True

/-- Every event of a run is kept in the state it finds. -/
def RunKept (node : VotingNode) : List VotingEvent → Prop
  | [] => True
  | event :: events =>
    EventKept shutdownSignal node event ∧ RunKept (votingStep P chainId ident shutdownSignal node event) events

end Runs

/-! ### What one event preserves -/

/-- The validator's voting record, as far as its running process knows it. -/
def VotingNode.voter (node : VotingNode) : Voter := { state := node.consensus, cast := node.returned }

section Invariant

variable {P : Prims} {chainId : U64} {ident : Identity} {shutdownSignal : Bool}
  {node : VotingNode}

/-- What the process that replaces the running one knows of the votes returned. -/
def VotingNode.successor (node : VotingNode) : Voter :=
  { state := (attachConsensusStore node.stored).1, cast := node.returned }

variable (P chainId ident) in
/-- The process and the process that would replace it both know of every vote returned. -/
structure Recoverable (node : VotingNode) : Prop where
  attached : node.storeAttached = true
  fits : node.consensus.Fits
  ordered : HistoryOrdered node.voter
  wellFormed : ∀ c ∈ node.returned, c.WellFormed P chainId ident
  reloads : (attachConsensusStore node.stored).2 = true
  reloadFits : (attachConsensusStore node.stored).1.Fits
  reloadOrdered : HistoryOrdered node.successor

/-- The signatures of a verified certificate have the length of signatures. -/
theorem length_lt_of_verifyQc {qc : QuorumCert} {keys : List Bytes}
    (hverify : verifyQc P qc keys chainId = true) :
    ∀ sig ∈ qc.signatures, sig.length < 2 ^ 32 := by
  rcases verifyQc_iff.mp hverify with ⟨_, hnone⟩ | ⟨_, _, hsigned⟩
  · intro sig hmem
    rw [hnone] at hmem
    exact absurd hmem List.not_mem_nil
  · exact length_lt_of_signedBy hsigned

theorem fits_adoptQc {st : ConsensusState} {qc : QuorumCert} {keys : List Bytes}
    (h : st.Fits) (hverify : verifyQc P qc keys chainId = true)
    (hcount : st.highestQc.slot < qc.slot → qc.signatures.length ≤ qcMaxSigners) : (st.adoptQc qc).Fits := by
  unfold ConsensusState.adoptQc
  by_cases hnewer : st.highestQc.slot < qc.slot
  · rw [if_pos hnewer]
    exact ⟨⟨hcount hnewer, length_lt_of_verifyQc hverify⟩, h.votes, h.timeouts⟩
  · rw [if_neg hnewer]
    exact h

theorem recoverable_restart (h : Recoverable P chainId ident node) :
    Recoverable P chainId ident node.restart where
  attached := h.reloads
  fits := h.reloadFits
  ordered := h.reloadOrdered
  wellFormed := h.wellFormed
  reloads := h.reloads
  reloadFits := h.reloadFits
  reloadOrdered := h.reloadOrdered

theorem recoverable_saved {consensus : ConsensusState} {returned : List CastVote}
    (hfits : consensus.Fits) (hordered : HistoryOrdered { state := consensus, cast := returned })
    (hwellFormed : ∀ c ∈ returned, c.WellFormed P chainId ident) :
    Recoverable P chainId ident
      { consensus, storeAttached := true, stored := some (encodeConsensusState consensus), returned } := by
  have hattach : attachConsensusStore (some (encodeConsensusState consensus)) = (consensus, true) := by
    simp only [attachConsensusStore, decodeConsensusState_encode hfits]
  constructor
  case attached => rfl
  case fits => exact hfits
  case ordered => exact hordered
  case wellFormed => exact hwellFormed
  case reloads => rw [hattach]
  case reloadFits =>
    rw [hattach]
    exact hfits
  case reloadOrdered =>
    unfold VotingNode.successor
    rw [hattach]
    exact hordered

section

variable (h : Recoverable P chainId ident node)
include h

/-- One proposal. The voter of the engine takes the step of `create_vote`, and the store follows
whenever that step returned a vote. -/
theorem recoverable_onProposal {call : VoteCall} {saveOk : Bool}
    (hkept : EventKept shutdownSignal node (.proposal call saveOk)) :
    Recoverable P chainId ident (node.onProposal P chainId ident shutdownSignal call saveOk) := by
  obtain ⟨hsave, hcount⟩ := hkept
  have hordered : HistoryOrdered (node.voter.step P chainId ident call) := historyOrdered_step h.ordered call
  have hwellFormed : ∀ c ∈ (node.voter.step P chainId ident call).cast,
      c.WellFormed P chainId ident := cast_wellFormed_step h.wellFormed call
  unfold Voter.step at hordered hwellFormed
  unfold VotingNode.onProposal
  rcases createVote_cases P chainId node.consensus call.header call.voterIndex ident.address
      ident.sk call.committeeKeys call.coins with
    ⟨reply, heq, hnone⟩ | ⟨hverify, _, heq⟩ | ⟨sig, _, hverify, _, heq⟩
  case inl =>
    rw [heq]
    cases reply with
    | error _ => exact h
    | ok reply =>
      cases reply with
      | none => exact h
      | some vote => exact absurd rfl (hnone vote)
  case inr.inl =>
    simp only [VotingNode.voter, heq] at hordered
    rw [heq]
    -- nothing was returned, so what the store knows is still enough
    exact { h with fits := fits_adoptQc h.fits hverify hcount, ordered := hordered }
  case inr.inr =>
    have hadopted := fits_adoptQc h.fits hverify hcount
    simp only [VotingNode.voter, heq] at hordered hwellFormed
    rw [heq]
    simp only [VotingNode.persistConsensus, h.attached, Bool.true_eq_false, if_false]
    cases saveOk with
    | true =>
      refine recoverable_saved ?_ hordered hwellFormed
      exact ⟨hadopted.certificate, hadopted.votes, hadopted.timeouts⟩
    | false =>
      rcases hsave with hsave | hsave
      · exact absurd hsave (by decide)
      · subst hsave
        exact recoverable_restart h

theorem recoverable_run {events : List VotingEvent} (hkept : RunKept P chainId ident shutdownSignal node events) :
    Recoverable P chainId ident (runVoting P chainId ident shutdownSignal node events) := by
  induction events generalizing node with
  | nil => exact h
  | cons event events ih =>
    obtain ⟨hevent, hrest⟩ := hkept
    refine ih ?_ hrest
    cases event with
    | proposal call saveOk => exact recoverable_onProposal h hevent
    | crash => exact recoverable_restart h

/-- A process that knows of all its votes has never voted for two blocks. -/
theorem Recoverable.neverTwoBlocks : NeverTwoBlocks node.returned := by
  intro c hc c' hc' hslot hview
  by_contra hblocks
  exact h.ordered.views_ne h.wellFormed hc hc' hslot hblocks hview

end

/-- A process that finds nothing, or the encoding of some earlier state, in its store. -/
def VotingNode.over (prior : Option ConsensusState) : VotingNode :=
  VotingNode.restart
    { consensus := ConsensusState.new, storeAttached := true
      stored := prior.map encodeConsensusState, returned := [] }

theorem recoverable_over {prior : Option ConsensusState} (h : ∀ st ∈ prior, st.Fits) :
    Recoverable P chainId ident (VotingNode.over prior) := by
  have hordered : ∀ st, HistoryOrdered { state := st, cast := [] } :=
    fun st => ⟨List.Pairwise.nil, nofun⟩
  have hnone : ∀ c ∈ ([] : List CastVote), c.WellFormed P chainId ident :=
    nofun
  cases prior with
  | none =>
    have hqueue : QueueFits [] := ⟨Nat.zero_le _, nofun⟩
    have hfits : ConsensusState.new.Fits := ⟨⟨by decide, by decide⟩, hqueue, hqueue⟩
    exact ⟨rfl, hfits, hordered _, hnone, rfl, hfits, hordered _⟩
  | some st =>
    have hrestarted := recoverable_restart (recoverable_saved (h st rfl) (hordered st) hnone)
    exact hrestarted

end Invariant

/-- Whatever proposals and crashes come, no votes for two blocks of one slot and view are returned, as long as no
certificate of more than sixteen signatures is adopted and no failed write is answered with a vote. -/
theorem votes_survive_crashes (P : Prims) (chainId : U64) (ident : Identity)
    (shutdownSignal : Bool) (prior : Option ConsensusState) (hprior : ∀ st ∈ prior, st.Fits)
    (events : List VotingEvent) (hkept : RunKept P chainId ident shutdownSignal (VotingNode.over prior) events) :
    NeverTwoBlocks (runVoting P chainId ident shutdownSignal (VotingNode.over prior) events).returned :=
  (recoverable_run (recoverable_over hprior) hkept).neverTwoBlocks

/-! ### Two blocks of one slot -/

/-- A proposal for slot 2, with `tag` in its transaction root. -/
def slotTwoCall (qc : QuorumCert) (tag : Byte) : VoteCall :=
  { header := { slot := 2, epoch := 0, parentHash := zero32, proposer := zero32, vrfProof := []
                qcPrevious := qc, txRoot := fill32 tag, stateRoot := zero32, timestamp := 0 }
    voterIndex := 0, committeeKeys := seventeenKeys, coins := [] }

def seventeenIdentity : Identity := { address := zero32, sk := ⟨[0]⟩ }

/-- The validator votes, dies and is asked for another block of the same slot. -/
def twiceAround (qc : QuorumCert) (saveOk : Bool) : List VotingEvent :=
  [.proposal (slotTwoCall qc 1) saveOk, .crash, .proposal (slotTwoCall qc 2) saveOk]

/-- The blocks of slot 2, view 0 that such a validator returned votes for. -/
def slotTwoVotes (qc : QuorumCert) (saveOk : Bool) : List Hash256 :=
  ((runVoting lucid 7 seventeenIdentity true (VotingNode.over none)
    (twiceAround qc saveOk)).returned.filter fun c =>
      c.vote.slot = 2 ∧ proposalView c.header = 0).map fun c => c.vote.blockHash

/-- The stored state can not be read because the certificate inside it has seventeen signatures; or the write fails
while a shutdown signal is attached. Either way two blocks of slot 2, view 0 have the validator's vote. -/
theorem restarted_validator_votes_twice :
    verifyQc lucid seventeenCertificate seventeenKeys 7 = true ∧
    (slotTwoVotes seventeenCertificate true).length = 2 ∧ (slotTwoVotes seventeenCertificate true).Nodup ∧
    (slotTwoVotes QuorumCert.empty false).length = 2 ∧ (slotTwoVotes QuorumCert.empty false).Nodup := by
  decide +kernel

/-- With writes that succeed and the empty certificate the second vote is refused. -/
theorem votes_survive_one_crash :
    RunKept lucid 7 seventeenIdentity true (VotingNode.over none) (twiceAround QuorumCert.empty true) ∧
    (slotTwoVotes QuorumCert.empty true).length = 1 ∧
    NeverTwoBlocks (runVoting lucid 7 seventeenIdentity true (VotingNode.over none)
      (twiceAround QuorumCert.empty true)).returned := by
  have hkept : RunKept lucid 7 seventeenIdentity true (VotingNode.over none)
      (twiceAround QuorumCert.empty true) := by
    refine ⟨⟨.inl rfl, ?_⟩, trivial, ⟨.inl rfl, ?_⟩, trivial⟩
    · intro _
      exact Nat.zero_le _
    · intro _
      exact Nat.zero_le _
  refine ⟨hkept, by decide +kernel, ?_⟩
  exact votes_survive_crashes lucid 7 seventeenIdentity true none
    (fun _ hmem => absurd hmem (Option.not_mem_none _)) _ hkept

end Pyde
