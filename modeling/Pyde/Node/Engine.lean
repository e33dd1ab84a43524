/-
Module: Pyde.Node.Engine
Purpose: The validator engine: its own view-change messages, and what it does with messages from the network.
Trusted boundary: Prims
-/
import Pyde.Consensus.Hotstuff
import Pyde.Consensus.Finality

namespace Pyde

open ByteCodec List

/-- The keys under which a validator acts, and its position in the current committee. -/
structure ValidatorIdentity where
  address : Address
  publicKey : FalconPublicKey
  secretKey : FalconSecretKey
  committeeIndex : U8
deriving DecidableEq

/-- The part of the validator engine that view changes and slot pruning work on. A hash map is the
function that looks a key up in it. -/
structure ValidatorEngine where
  chainId : U64
  consensus : ConsensusState
  currentEpoch : U64
  committeeKeys : List Bytes
  prevCommitteeKeys : List Bytes
  viewChanges : U64 → Option (List ViewChangeMessage)
  votedViewPerSlot : U64 → Option U64
  seenProposals : U64 × Address → Option (BlockHeader × Bytes)
  seenVotes : U64 × U8 → Option (Hash256 × Bytes)
  seenViewChanges : U64 × U8 → Option (Hash256 × Bytes)
  seenViewChangesSelf : U64 → Option (Hash256 × Bytes)

namespace ValidatorEngine

def committeeKeysForSlot (eng : ValidatorEngine) (slot : U64) : List Bytes :=
  if slot / epochLength + 1 = eng.currentEpoch ∧ eng.prevCommitteeKeys ≠ [] then
    eng.prevCommitteeKeys
  else eng.committeeKeys

def committeeIndexForSlot (eng : ValidatorEngine) (slot : U64) (ident : ValidatorIdentity) : U8 :=
  match (eng.committeeKeysForSlot slot).findIdx? (· = ident.publicKey.bytes) with
  | some i => BitVec.ofNat 8 i
  | none => ident.committeeIndex

/-- Remember the view-change message signed for a slot. -/
def recordViewChange (eng : ValidatorEngine) (slot : U64) (qcHash : Hash256) (signature : Bytes) : ValidatorEngine :=
  { eng with seenViewChangesSelf := Function.update eng.seenViewChangesSelf slot (some (qcHash, signature)) }

/-- `on_timeout`: the engine afterwards and the message to broadcast. -/
def onTimeout (P : Prims) (eng : ValidatorEngine) (ident : ValidatorIdentity)
    (coins : Bytes) : ValidatorEngine × Option ViewChangeMessage :=
  let slot := eng.consensus.targetHeight
  let highestQc := eng.consensus.highestQc
  let highestQcHash := highestQc.hash P
  if slot ≤ highestQc.slot then (eng, none)
  else
    let voterIndex := eng.committeeIndexForSlot slot ident
    match eng.seenViewChangesSelf slot with
    | some (persistedHash, persistedSig) =>
      if persistedHash = highestQcHash then
        (eng, some { slot, highestQc, voterIndex, voterAddress := ident.address, signature := persistedSig })
      else (eng, none)
    | none =>
      match createViewChange P eng.chainId slot highestQc voterIndex ident.address
          ident.secretKey coins with
      | .ok msg => (eng.recordViewChange slot highestQcHash msg.signature, some msg)
      | .error _ => (eng, none)

/-- `retain` on a map whose keys carry a slot. -/
def retainFrom {κ α : Type} (floor : U64) (slotOf : κ → U64) (entries : κ → Option α) : κ → Option α :=
  fun key => if floor ≤ slotOf key then entries key else none

/-- The clean-up of `advance_slot` at clock value `newSlot`. Data needed for recovery is kept from the
target height on; the other maps, `seen_view_changes_self` among them, are kept for the last ten
wall-clock slots. -/
def pruneOldSlots (eng : ValidatorEngine) (newSlot : U64) : ValidatorEngine :=
  let pruneBefore := newSlot - 10
  let pruneFloor :=
    if pruneBefore ≤ eng.consensus.targetHeight then pruneBefore
    else eng.consensus.targetHeight
  { eng with
      viewChanges := retainFrom pruneFloor id eng.viewChanges
      votedViewPerSlot := retainFrom pruneFloor id eng.votedViewPerSlot
      seenProposals := retainFrom pruneFloor Prod.fst eng.seenProposals
      seenVotes := retainFrom pruneBefore Prod.fst eng.seenVotes
      seenViewChanges := retainFrom pruneBefore Prod.fst eng.seenViewChanges
      seenViewChangesSelf := retainFrom pruneBefore id eng.seenViewChangesSelf }

def advanceSlot (eng : ValidatorEngine) : ValidatorEngine :=
  let newSlot := eng.consensus.currentSlot + 1
  let ticked := { eng with consensus := eng.consensus.advanceSlot }
  if 10 < newSlot then ticked.pruneOldSlots newSlot else ticked

/-- Everything `on_timeout` can do: stay silent, send the recorded message again, or sign and record a
new one when there is no record for the target height. -/
theorem onTimeout_cases (P : Prims) (eng : ValidatorEngine) (ident : ValidatorIdentity) (coins : Bytes) :
    (eng.onTimeout P ident coins = (eng, none)) ∨
    (∃ msg, eng.onTimeout P ident coins = (eng, some msg) ∧ msg.slot = eng.consensus.targetHeight ∧
      eng.seenViewChangesSelf eng.consensus.targetHeight = some (msg.highestQc.hash P, msg.signature)) ∨
    (∃ msg, eng.onTimeout P ident coins =
        (eng.recordViewChange eng.consensus.targetHeight (msg.highestQc.hash P) msg.signature, some msg) ∧
      msg.slot = eng.consensus.targetHeight ∧ eng.seenViewChangesSelf eng.consensus.targetHeight = none) := by
  simp only [onTimeout]
  by_cases hcertified : eng.consensus.targetHeight ≤ eng.consensus.highestQc.slot
  · exact .inl (by rw [if_pos hcertified])
  rw [if_neg hcertified]
  cases hrecord : eng.seenViewChangesSelf eng.consensus.targetHeight with
  | some record =>
    obtain ⟨persistedHash, persistedSig⟩ := record
    by_cases hsame : persistedHash = eng.consensus.highestQc.hash P
    · refine .inr (.inl ⟨_, if_pos hsame, rfl, ?_⟩)
      rw [hsame]
    · exact .inl (if_neg hsame)
  | none =>
    unfold createViewChange
    cases hsign : P.falconSign ident.secretKey (viewChangeSignMessage P eng.chainId
        eng.consensus.targetHeight eng.consensus.highestQc) coins with
    | none => exact .inl rfl
    | some sig =>
      let msg : ViewChangeMessage :=
        { slot := eng.consensus.targetHeight, highestQc := eng.consensus.highestQc,
          voterIndex := eng.committeeIndexForSlot eng.consensus.targetHeight ident,
          voterAddress := ident.address, signature := sig.bytes }
      exact .inr (.inr ⟨msg, rfl, rfl, rfl⟩)

/-- A tick leaves the consensus state alone apart from the clock. -/
theorem advanceSlot_targetHeight (eng : ValidatorEngine) :
    eng.advanceSlot.consensus.targetHeight = eng.consensus.targetHeight := by
  simp only [advanceSlot]
  split
  · rfl
  · rfl

/-- A tick keeps the record of every slot that is at most ten behind the new clock. -/
theorem advanceSlot_seenViewChangesSelf (eng : ValidatorEngine) {slot : U64}
    (hkeep : 10 < eng.consensus.currentSlot + 1 → eng.consensus.currentSlot + 1 - 10 ≤ slot) :
    eng.advanceSlot.seenViewChangesSelf slot = eng.seenViewChangesSelf slot := by
  simp only [advanceSlot]
  by_cases hprune : 10 < eng.consensus.currentSlot + 1
  · rw [if_pos hprune]
    exact if_pos (hkeep hprune)
  · rw [if_neg hprune]

end ValidatorEngine

/-! ### Runs -/

/-- What can happen to an engine between two of its view-change messages. -/
inductive EngineEvent where
  | timeout (coins : Bytes)
  | tick
  | setHighestQc (qc : QuorumCert)
  | advanceTargetHeight (newHeight : U64)

/-- An engine with every view-change message it has handed out, oldest first. -/
structure EngineRun where
  engine : ValidatorEngine
  sent : List ViewChangeMessage

namespace EngineRun

def step (P : Prims) (ident : ValidatorIdentity) (run : EngineRun) : EngineEvent → EngineRun
  | .timeout coins =>
    let (eng, reply) := run.engine.onTimeout P ident coins
    { engine := eng, sent := run.sent ++ reply.toList }
  | .tick => { run with engine := run.engine.advanceSlot }
  | .setHighestQc qc =>
    { run with engine := { run.engine with consensus := { run.engine.consensus with highestQc := qc } } }
  | .advanceTargetHeight newHeight =>
    { run with engine := { run.engine with consensus := (run.engine.consensus.advanceTargetHeight newHeight).1 } }

def steps (P : Prims) (ident : ValidatorIdentity) (run : EngineRun)
    (events : List EngineEvent) : EngineRun :=
  events.foldl (step P ident) run

/-- A clock tick does not fall on an engine whose record for the target height is more than ten slots
behind the clock. -/
def TickKeepsRecord (run : EngineRun) : EngineEvent → Prop
  | .tick =>
    let newSlot := run.engine.consensus.currentSlot + 1
    run.engine.seenViewChangesSelf run.engine.consensus.targetHeight ≠ none → 10 < newSlot →
      newSlot - 10 ≤ run.engine.consensus.targetHeight
  | _ => True

/-- Every event of the list meets `TickKeepsRecord` at the point where it happens. -/
def AllTicksKeepRecord (P : Prims) (ident : ValidatorIdentity) :
    EngineRun → List EngineEvent → Prop
  | _, [] => True
  | run, event :: events =>
    run.TickKeepsRecord event ∧ AllTicksKeepRecord P ident (run.step P ident event) events

instance (run : EngineRun) : (event : EngineEvent) → Decidable (run.TickKeepsRecord event)
  | .tick => inferInstanceAs (Decidable (_ → _ → _))
  | .timeout _ | .setHighestQc _ | .advanceTargetHeight _ => isTrue trivial

instance decidableAllTicksKeepRecord (P : Prims) (ident : ValidatorIdentity) :
    (run : EngineRun) → (events : List EngineEvent) → Decidable (AllTicksKeepRecord P ident run events)
  | _, [] => isTrue trivial
  | run, event :: events =>
    have := decidableAllTicksKeepRecord P ident (run.step P ident event) events
    inferInstanceAs (Decidable (_ ∧ _))

/-- No message is for a height above the target, the messages for the target height are on record, and
messages for one slot report one certificate. -/
structure Guarded (P : Prims) (run : EngineRun) : Prop where
  below_target : ∀ msg ∈ run.sent, msg.slot ≤ run.engine.consensus.targetHeight
  on_record : ∀ msg ∈ run.sent, msg.slot = run.engine.consensus.targetHeight →
    run.engine.seenViewChangesSelf run.engine.consensus.targetHeight = some (msg.highestQc.hash P, msg.signature)
  agree : ∀ msg ∈ run.sent, ∀ msg' ∈ run.sent, msg.slot = msg'.slot →
      msg.highestQc.hash P = msg'.highestQc.hash P

variable {P : Prims} {run : EngineRun} {ident : ValidatorIdentity}

/-- A new message keeps the reports consistent when it agrees with the earlier ones for its slot. -/
theorem agree_append {sent : List ViewChangeMessage} {msg : ViewChangeMessage}
    (hagree : ∀ m ∈ sent, ∀ m' ∈ sent, m.slot = m'.slot → m.highestQc.hash P = m'.highestQc.hash P)
    (hnew : ∀ m ∈ sent, m.slot = msg.slot → m.highestQc.hash P = msg.highestQc.hash P) :
    ∀ m ∈ sent ++ [msg], ∀ m' ∈ sent ++ [msg], m.slot = m'.slot →
      m.highestQc.hash P = m'.highestQc.hash P := by
  intro m hm m' hm' heq
  rw [mem_append, mem_singleton] at hm hm'
  rcases hm with hm | rfl
  · rcases hm' with hm' | rfl
    · exact hagree m hm m' hm' heq
    · exact hnew m hm heq
  rcases hm' with hm' | rfl
  · exact (hnew m' hm' heq.symm).symm
  · rfl

section

variable (h : run.Guarded P)
include h

/-- Sending a message for the target height that is on record there keeps the guard. -/
theorem Guarded.send {eng : ValidatorEngine} {msg : ViewChangeMessage}
    (hslot : msg.slot = run.engine.consensus.targetHeight)
    (htarget : eng.consensus.targetHeight = run.engine.consensus.targetHeight)
    (hrecord : eng.seenViewChangesSelf run.engine.consensus.targetHeight = some (msg.highestQc.hash P, msg.signature))
    (hold : ∀ m ∈ run.sent, m.slot = run.engine.consensus.targetHeight →
      m.highestQc.hash P = msg.highestQc.hash P ∧ m.signature = msg.signature) :
    Guarded P { engine := eng, sent := run.sent ++ [msg] } := by
  constructor
  case below_target =>
    intro m hm
    simp only [mem_append, mem_singleton, htarget] at hm ⊢
    rcases hm with hm | rfl
    · exact h.below_target m hm
    · rw [hslot]
      exact BitVec.le_refl _
  case on_record =>
    intro m hm heq
    simp only [mem_append, mem_singleton, htarget] at hm heq ⊢
    rcases hm with hm | rfl
    · obtain ⟨hhash, hsig⟩ := hold m hm heq
      rw [hhash, hsig]
      exact hrecord
    · exact hrecord
  case agree =>
    refine agree_append h.agree ?_
    intro m hm heq
    exact (hold m hm (heq.trans hslot)).1

theorem Guarded.timeout (coins : Bytes) : (run.step P ident (.timeout coins)).Guarded P := by
  simp only [step]
  rcases run.engine.onTimeout_cases P ident coins with
    hsilent | ⟨msg, hagain, hslot, hrecord⟩ | ⟨msg, hfresh, hslot, hrecord⟩
  · rw [hsilent]
    simp only [Option.toList_none, append_nil]
    exact h
  · rw [hagain]
    refine h.send hslot rfl hrecord ?_
    -- whatever was sent for the target height is what the record holds
    intro m hm heq
    have hm' := h.on_record m hm heq
    rw [hrecord] at hm'
    injection hm' with hm'
    obtain ⟨hhash, hsig⟩ := Prod.ext_iff.mp hm'
    exact ⟨hhash.symm, hsig.symm⟩
  · rw [hfresh]
    refine h.send hslot rfl (Function.update_self ..) ?_
    -- no record for the target height means that nothing was sent for it
    intro m hm heq
    have hm' := h.on_record m hm heq
    rw [hrecord] at hm'
    cases hm'

theorem Guarded.tick (hkeep : run.TickKeepsRecord .tick) : (run.step P ident .tick).Guarded P := by
  have htarget := run.engine.advanceSlot_targetHeight
  constructor
  case below_target =>
    intro m hm
    simp only [step, htarget]
    exact h.below_target m hm
  case on_record =>
    intro m hm heq
    simp only [step, htarget] at heq ⊢
    have hrecord := h.on_record m hm heq
    rw [run.engine.advanceSlot_seenViewChangesSelf (hkeep (by rw [hrecord]; simp)), hrecord]
  case agree => exact h.agree

theorem Guarded.setHighestQc (qc : QuorumCert) : (run.step P ident (.setHighestQc qc)).Guarded P :=
  ⟨h.below_target, h.on_record, h.agree⟩

theorem Guarded.advanceTargetHeight (newHeight : U64) :
    (run.step P ident (.advanceTargetHeight newHeight)).Guarded P := by
  simp only [step, ConsensusState.advanceTargetHeight]
  by_cases hnew : run.engine.consensus.targetHeight < newHeight
  · rw [if_pos hnew]
    constructor
    case below_target =>
      intro m hm
      have := h.below_target m hm
      simp only
      bv_omega
    case on_record =>
      intro m hm heq
      have := h.below_target m hm
      simp only at heq
      bv_omega
    case agree => exact h.agree
  · rw [if_neg hnew]
    exact h

end

theorem Guarded.steps {events : List EngineEvent} (h : run.Guarded P)
    (hticks : AllTicksKeepRecord P ident run events) : (run.steps P ident events).Guarded P := by
  induction events generalizing run with
  | nil => exact h
  | cons event events ih =>
    obtain ⟨hkeep, hrest⟩ := hticks
    refine ih ?_ hrest
    cases event with
    | timeout coins => exact h.timeout coins
    | tick => exact h.tick hkeep
    | setHighestQc qc => exact h.setHighestQc qc
    | advanceTargetHeight newHeight => exact h.advanceTargetHeight newHeight

theorem guarded_start (P : Prims) (eng : ValidatorEngine) : Guarded P { engine := eng, sent := [] } := by
  constructor <;> simp

end EngineRun

/-- In every run in which no tick drops the record for the target height, the messages a validator
sends for one slot report one certificate, and no two of their signatures make up evidence of a
double view change. -/
theorem view_change_never_equivocates (P : Prims) (ident : ValidatorIdentity)
    (eng : ValidatorEngine) (events : List EngineEvent)
    (hticks : EngineRun.AllTicksKeepRecord P ident { engine := eng, sent := [] } events) :
    let sent := (EngineRun.steps P ident { engine := eng, sent := [] } events).sent
    (∀ msg ∈ sent, ∀ msg' ∈ sent, msg.slot = msg'.slot → msg.highestQc.hash P = msg'.highestQc.hash P) ∧
    ∀ pk : Bytes, (∀ msg ∈ sent, ∀ signed, P.verifyRaw pk signed msg.signature = true →
        signed = viewChangeSignMessage P eng.chainId msg.slot msg.highestQc) →
      ∀ (chainId : U64) (ev : DoubleViewChangeEvidence), (∃ msg ∈ sent, msg.signature = ev.signature1) →
        (∃ msg ∈ sent, msg.signature = ev.signature2) →
          verifyDoubleViewChange P chainId ev pk = false := by
  intro sent
  have hguarded : EngineRun.Guarded P (EngineRun.steps P ident { engine := eng, sent := [] } events) :=
    (EngineRun.guarded_start P eng).steps hticks
  refine ⟨hguarded.agree, ?_⟩
  intro pk hbind chainId ev ⟨msg, hmsg, hsig⟩ ⟨msg', hmsg', hsig'⟩
  rw [← Bool.not_eq_true, verifyDoubleViewChange, verifyTwoSignatures_iff]
  rintro ⟨hne, hok, hok'⟩
  rw [← hsig] at hok
  rw [← hsig'] at hok'
  -- each signature is over the message its sender built, so the evidence names their hashes
  obtain ⟨_, hslot, hhash⟩ := viewChangeSignMessageFromHash_inj.mp (hbind msg hmsg _ hok)
  obtain ⟨_, hslot', hhash'⟩ := viewChangeSignMessageFromHash_inj.mp (hbind msg' hmsg' _ hok')
  apply hne
  rw [hhash, hhash']
  exact hguarded.agree msg hmsg msg' hmsg' (hslot.symm.trans hslot')

/-! ### A wedged validator

The validator times out at height 5 and signs a view change. The height stays where it is while the
clock runs on, and after eleven ticks the record of that message is gone. Once the validator has
learned of a newer certificate, the next timeout makes it sign again. -/

def wedgedIdentity : ValidatorIdentity :=
  { address := zero32, publicKey := ⟨lucidKey 5⟩, secretKey := ⟨[5]⟩, committeeIndex := 0 }

def certAtSlot (slot : U64) : QuorumCert := { slot, blockHash := zero32, voterBitmap := 1#128, signatures := [] }

def wedgedEngine : ValidatorEngine :=
  { chainId := 7
    consensus := { ConsensusState.new with
      currentSlot := 5, targetHeight := 5, highestQc := certAtSlot 3 }
    currentEpoch := 0
    committeeKeys := [lucidKey 5]
    prevCommitteeKeys := []
    viewChanges := fun _ => none
    votedViewPerSlot := fun _ => none
    seenProposals := fun _ => none
    seenVotes := fun _ => none
    seenViewChanges := fun _ => none
    seenViewChangesSelf := fun _ => none }

/-- Time out, let the clock tick, learn of a newer certificate, time out again. -/
def wedgedEvents (ticks : Nat) : List EngineEvent :=
  .timeout [] :: (List.replicate ticks .tick ++ [.setHighestQc (certAtSlot 4), .timeout []])

/-- The view change for height 5 that reports the certificate of `qcSlot`. -/
def wedgedMessage (qcSlot : U64) : ViewChangeMessage :=
  { slot := 5, highestQc := certAtSlot qcSlot, voterIndex := 0, voterAddress := zero32,
    signature := (lucidSignature [5] (viewChangeSignMessage lucid 7 5 (certAtSlot qcSlot))).bytes }

def wedgedEvidence : DoubleViewChangeEvidence :=
  { slot := 5, qcHash1 := (certAtSlot 3).hash lucid, signature1 := (wedgedMessage 3).signature,
    qcHash2 := (certAtSlot 4).hash lucid, signature2 := (wedgedMessage 4).signature,
    signer := zero32, submitter := zero32 }

theorem wedged_validator_equivocates :
    (EngineRun.steps lucid wedgedIdentity { engine := wedgedEngine, sent := [] }
      (wedgedEvents 11)).sent = [wedgedMessage 3, wedgedMessage 4] ∧
    (certAtSlot 3).hash lucid ≠ (certAtSlot 4).hash lucid ∧
    verifyDoubleViewChange lucid 7 wedgedEvidence (lucidKey 5) = true := by
  refine ⟨by decide +kernel, by decide +kernel, ?_⟩
  rw [verifyDoubleViewChange, verifyTwoSignatures_iff]
  refine ⟨by decide +kernel, ?_, ?_⟩
  · exact lucid_verifyRaw_iff.mpr ⟨by simp, rfl⟩
  · exact lucid_verifyRaw_iff.mpr ⟨by simp, rfl⟩

/-- With ten ticks the record survives, and the second timeout stays silent. -/
theorem view_change_never_equivocates_ten_ticks :
    (∀ msg ∈ (EngineRun.steps lucid wedgedIdentity { engine := wedgedEngine, sent := [] }
        (wedgedEvents 10)).sent,
      ∀ msg' ∈ (EngineRun.steps lucid wedgedIdentity { engine := wedgedEngine, sent := [] }
        (wedgedEvents 10)).sent,
        msg.slot = msg'.slot → msg.highestQc.hash lucid = msg'.highestQc.hash lucid) ∧
    verifyDoubleViewChange lucid 7
      { wedgedEvidence with signature2 := (wedgedMessage 3).signature } (lucidKey 5) = false := by
  have hsent : (EngineRun.steps lucid wedgedIdentity { engine := wedgedEngine, sent := [] }
      (wedgedEvents 10)).sent = [wedgedMessage 3] := by
    decide +kernel
  have hticks : EngineRun.AllTicksKeepRecord lucid wedgedIdentity
      { engine := wedgedEngine, sent := [] } (wedgedEvents 10) := by
    decide +kernel
  obtain ⟨hagree, hevidence⟩ := view_change_never_equivocates lucid wedgedIdentity wedgedEngine
    (wedgedEvents 10) hticks
  refine ⟨hagree, hevidence (lucidKey 5) ?_ 7 _ ?_ ?_⟩
  · rw [hsent, forall_mem_singleton]
    intro signed hverify
    exact lucid_bindsMessage 5 Set.univ _ (Set.mem_univ _) _ _ hverify
      (lucid_verifyRaw_iff.mpr ⟨by simp [viewChangeSignMessage], rfl⟩)
  · rw [hsent]
    exact ⟨_, mem_singleton_self _, rfl⟩
  · rw [hsent]
    exact ⟨_, mem_singleton_self _, rfl⟩

def ConsensusState.bumpView (st : ConsensusState) : ConsensusState :=
  { st with currentView := st.currentView + 1 }

structure TimeoutTracker where
  slot : U64
  slotStartMs : U64
  messages : List ViewChangeMessage
  proposalReceived : Bool
  viewChangeQc : Option ViewChangeQC

def TimeoutTracker.new (slot slotStartMs : U64) : TimeoutTracker where
  slot := slot
  slotStartMs := slotStartMs
  messages := []
  proposalReceived := false
  viewChangeQc := none

structure BufferedProposal where
  header : BlockHeader
  proposerSignature : Bytes
  vrfScore : U64

/-- The engine with the buffers and queues that messages go through. A hash map is the function that looks a
key up in it, a hash set the membership test. -/
structure MessageEngine extends ValidatorEngine where
  genesisTimestampMs : U64
  blockTimeMs : U64
  timeout : TimeoutTracker
  finalityVotes : U64 → Option (List FinalityVote)
  seenFinalityVotes : U64 × U8 → Bool
  finality : FinalityTracker
  pendingEvidence : List DoubleSignEvidence
  broadcastEvidence : List DoubleSignEvidence
  pendingVcEvidence : List DoubleViewChangeEvidence
  seenEvidence : U64 × Address → Bool
  bufferedProposals : U64 → Option (List BufferedProposal)
  deferredFallbackProposals : U64 → Option (List (BlockHeader × Bytes))

namespace MessageEngine

/-! ### Evidence -/

section

variable (P : Prims) (eng : MessageEngine)

def committeeKeyOf (signer : Address) : Option Bytes :=
  eng.committeeKeys.find? fun pk => deriveEoaAddress P pk = signer

def ingestEvidence (ev : DoubleSignEvidence) : MessageEngine × Bool :=
  let key := (ev.slot, ev.signer)
  if eng.seenEvidence key then (eng, false)
  else
    match eng.committeeKeyOf P ev.signer with
    | none => (eng, false)
    | some pk =>
      if verifyDoubleSign P eng.chainId ev pk = false then (eng, false)
      else
        ({ eng with
            seenEvidence := Function.update eng.seenEvidence key true
            pendingEvidence := eng.pendingEvidence ++ [ev]
            broadcastEvidence := eng.broadcastEvidence ++ [ev] }, true)

/-- `ingest_view_change_evidence`: the same record of what was seen, another queue. -/
def ingestViewChangeEvidence (ev : DoubleViewChangeEvidence) : MessageEngine × Bool :=
  let key := (ev.slot, ev.signer)
  if eng.seenEvidence key then (eng, false)
  else
    match eng.committeeKeyOf P ev.signer with
    | none => (eng, false)
    | some pk =>
      if verifyDoubleViewChange P eng.chainId ev pk = false then (eng, false)
      else
        ({ eng with
            seenEvidence := Function.update eng.seenEvidence key true
            pendingVcEvidence := eng.pendingVcEvidence ++ [ev] }, true)

def drainPendingEvidence : List DoubleSignEvidence × MessageEngine :=
  (eng.pendingEvidence, { eng with pendingEvidence := [] })

def drainPendingVcEvidence : List DoubleViewChangeEvidence × MessageEngine :=
  (eng.pendingVcEvidence, { eng with pendingVcEvidence := [] })

/-- The part of the clean-up of `advance_slot` that concerns evidence. -/
def pruneSeenEvidence (pruneBefore : U64) : MessageEngine :=
  { eng with seenEvidence := fun key => decide (pruneBefore ≤ key.1) && eng.seenEvidence key }

/-! ### Fallback proposals -/

def deferredFallbackCapPerSlot : Nat := 8

/-- A fallback proposal that comes before its view-change certificate waits, up to the cap. -/
def deferFallbackProposal (header : BlockHeader) (proposerSignature : Bytes) : MessageEngine :=
  let queue := (eng.deferredFallbackProposals header.slot).getD []
  let queue := if queue.length < deferredFallbackCapPerSlot then queue ++ [(header, proposerSignature)] else queue
  { eng with
    deferredFallbackProposals := Function.update eng.deferredFallbackProposals header.slot (some queue) }

/-- The checks of `buffer_fallback_proposal` on proposer, proof and signature: the index of the proposer. -/
def fallbackProposerIndex (header : BlockHeader) (proposerSignature : Bytes) : Option Nat := do
  let proposerIdx ← eng.committeeKeys.findIdx? fun pk => deriveEoaAddress P pk = header.proposer
  let (proofSlot, proofView) ← decodeFallbackProof header.vrfProof
  if proofSlot ≠ header.slot then none
  if proposerIdx ≠ fallbackLeaderIndex header.slot proofView eng.committeeKeys.length then none
  if proposerSignature = [] then none
  if P.verifyRaw (eng.committeeKeys.getD proposerIdx [])
      (proposerSignMessage eng.chainId header.slot (header.hash P)) proposerSignature = false then none
  pure proposerIdx

def bufferFallbackProposal (header : BlockHeader) (proposerSignature : Bytes) : MessageEngine × Bool :=
  if eng.timeout.slot ≠ header.slot ∨ eng.timeout.viewChangeQc = none then
    (eng.deferFallbackProposal header proposerSignature, false)
  else
    match eng.fallbackProposerIndex P header proposerSignature with
    | none => (eng, false)
    | some proposerIdx =>
      let proposal : BufferedProposal := { header, proposerSignature, vrfScore := BitVec.ofNat 64 proposerIdx }
      ({ eng with
          bufferedProposals := Function.update eng.bufferedProposals header.slot
            (some ((eng.bufferedProposals header.slot).getD [] ++ [proposal])) }, true)

/-- The deferred proposals of a slot are tried again. -/
def drainDeferred (slot : U64) : MessageEngine :=
  match eng.deferredFallbackProposals slot with
  | none => eng
  | some deferred =>
    deferred.foldl (fun eng proposal => (eng.bufferFallbackProposal P proposal.1 proposal.2).1)
      { eng with
        deferredFallbackProposals := Function.update eng.deferredFallbackProposals slot none }

/-! ### View changes -/

/-- `slot_start_ms_for_target`, with the clock as an argument. -/
def slotStartMsForTarget (now target : U64) : U64 :=
  if eng.blockTimeMs = 0 then now
  else greater (satAdd eng.genesisTimestampMs (satMul target eng.blockTimeMs)) now

/-- The dedup record is made and the message is buffered. -/
def bufferViewChange (msg : ViewChangeMessage) : MessageEngine :=
  { eng with
    seenViewChanges := Function.update eng.seenViewChanges (msg.slot, msg.voterIndex)
      (some (msg.highestQc.hash P, msg.signature))
    viewChanges := Function.update eng.viewChanges msg.slot
      (some ((eng.viewChanges msg.slot).getD [] ++ [msg])) }

/-- What a formed certificate leads to. Only the first one of a tracker raises the view. -/
def installViewChangeQc (now slot : U64) (vcQc : ViewChangeQC) : MessageEngine :=
  if eng.timeout.viewChangeQc = none then
    { eng with
      consensus := eng.consensus.bumpView
      timeout := { TimeoutTracker.new slot (eng.slotStartMsForTarget now slot) with
        viewChangeQc := some vcQc } }.drainDeferred P slot
  else { eng with timeout := { eng.timeout with viewChangeQc := some vcQc } }

/-- A second message of a voter for a slot that reports another certificate. -/
def onSecondViewChange (msg : ViewChangeMessage) (prevQcHash : Hash256) (prevSignature : Bytes) : MessageEngine :=
  let keys := eng.committeeKeysForSlot msg.slot
  if keys.length ≤ msg.voterIndex.toNat then eng
  else if verifyViewChange P eng.chainId msg (keys.getD msg.voterIndex.toNat []) = false then eng
  else
    (eng.ingestViewChangeEvidence P
      { slot := msg.slot, qcHash1 := prevQcHash, signature1 := prevSignature, qcHash2 := msg.highestQc.hash P,
        signature2 := msg.signature, signer := msg.voterAddress, submitter := zero32 }).1

/-- `on_view_change`. The source answers whether a certificate was formed; here the answer is the
certificate. -/
def onViewChange (now : U64) (msg : ViewChangeMessage) : MessageEngine × Option ViewChangeQC :=
  if msg.slot < eng.consensus.targetHeight then (eng, none)
  else
    match eng.seenViewChanges (msg.slot, msg.voterIndex) with
    | some (prevQcHash, prevSignature) =>
      if prevQcHash = msg.highestQc.hash P then (eng, none)
      else (eng.onSecondViewChange P msg prevQcHash prevSignature, none)
    | none =>
      let buffered := eng.bufferViewChange P msg
      match tryFormViewChangeQc P eng.chainId msg.slot ((buffered.viewChanges msg.slot).getD [])
        (eng.committeeKeysForSlot msg.slot) with
      | some vcQc => (buffered.installViewChangeQc P now msg.slot vcQc, some vcQc)
      | none => (buffered, none)

/-! ### Finality -/

/-- The dedup record is made and the vote is buffered. -/
def bufferFinalityVote (vote : FinalityVote) : MessageEngine :=
  { eng with
    seenFinalityVotes := Function.update eng.seenFinalityVotes (vote.slot, vote.voterIndex) true
    finalityVotes := Function.update eng.finalityVotes vote.slot
      (some ((eng.finalityVotes vote.slot).getD [] ++ [vote])) }

/-- `on_finality_vote`. The answer is the certificate that was formed, where the source says whether one
was. -/
def onFinalityVote (vote : FinalityVote) : MessageEngine × Option HardFinalityCert :=
  if eng.seenFinalityVotes (vote.slot, vote.voterIndex) then (eng, none)
  else
    let keys := eng.committeeKeysForSlot vote.slot
    let buffered := eng.bufferFinalityVote vote
    let votes := (buffered.finalityVotes vote.slot).getD []
    if quorumForCommittee keys.length ≤ votes.length then
      match tryFormHardFinality P eng.chainId vote.slot vote.blockHash vote.stateRoot votes keys with
      | some cert => ({ buffered with finality := buffered.finality.recordHardFinality cert }, some cert)
      | none => (buffered, none)
    else (buffered, none)

def ingestFinalityCheckpoint (cp : FinalityCheckpoint) : MessageEngine × Bool :=
  match eng.finality.latestCheckpoint.filter fun existing => cp.slot ≤ existing.slot with
  | some _ => (eng, false)
  | none =>
    if eng.committeeKeys ≠ [] ∧ cp.cert.voteCount < quorumForCommittee eng.committeeKeys.length then
      (eng, false)
    else ({ eng with finality := { eng.finality with latestCheckpoint := some cp } }, true)

end

end MessageEngine

end Pyde
