/-
Module: Pyde.Node.EngineInvariants
Purpose: What holds over any sequence of messages to the validator engine: for which height the view is raised,
  which finality checkpoints become current, and which evidence reaches the queue for slashing.
Trusted boundary: Prims
-/
import Pyde.Node.Engine

namespace Pyde

open ByteCodec List Function

namespace MessageEngine

variable {P : Prims} {eng : MessageEngine}

/-! ### What a view-change message can do -/

section

variable (P : Prims) (eng : MessageEngine)

theorem bufferFallbackProposal_frame (header : BlockHeader) (sig : Bytes) :
    ∃ buffered deferred, (eng.bufferFallbackProposal P header sig).1 =
      { eng with bufferedProposals := buffered, deferredFallbackProposals := deferred } := by
  unfold bufferFallbackProposal
  split
  · exact ⟨_, _, rfl⟩
  split
  · exact ⟨eng.bufferedProposals, eng.deferredFallbackProposals, rfl⟩
  · exact ⟨_, _, rfl⟩

theorem drainDeferred_frame (slot : U64) :
    ∃ buffered deferred, eng.drainDeferred P slot =
      { eng with bufferedProposals := buffered, deferredFallbackProposals := deferred } := by
  unfold drainDeferred
  split
  · exact ⟨eng.bufferedProposals, eng.deferredFallbackProposals, rfl⟩
  next proposals hproposals =>
    clear hproposals
    induction proposals using List.reverseRecOn with
    | nil => exact ⟨_, _, rfl⟩
    | append_singleton proposals proposal ih =>
      obtain ⟨buffered, deferred, hrest⟩ := ih
      obtain ⟨buffered', deferred', hstep⟩ := bufferFallbackProposal_frame P _ proposal.1 proposal.2
      exact ⟨buffered', deferred', by rw [foldl_concat, hrest, hstep]⟩

theorem onSecondViewChange_frame (msg : ViewChangeMessage) (prevQcHash : Hash256) (prevSignature : Bytes) :
    ∃ seen pending, eng.onSecondViewChange P msg prevQcHash prevSignature =
      { eng with seenEvidence := seen, pendingVcEvidence := pending } := by
  unfold onSecondViewChange
  dsimp only
  split
  · exact ⟨eng.seenEvidence, eng.pendingVcEvidence, rfl⟩
  split
  · exact ⟨eng.seenEvidence, eng.pendingVcEvidence, rfl⟩
  unfold ingestViewChangeEvidence
  dsimp only
  split
  · exact ⟨eng.seenEvidence, eng.pendingVcEvidence, rfl⟩
  split
  · exact ⟨eng.seenEvidence, eng.pendingVcEvidence, rfl⟩
  split
  · exact ⟨eng.seenEvidence, eng.pendingVcEvidence, rfl⟩
  · exact ⟨_, _, rfl⟩

end

/-- Everything `on_view_change` can do: record evidence at most, buffer the message, or buffer it and install
the certificate that can be formed then. -/
theorem onViewChange_cases (P : Prims) (eng : MessageEngine) (now : U64) (msg : ViewChangeMessage) :
    ((msg.slot < eng.consensus.targetHeight ∨ (eng.seenViewChanges (msg.slot, msg.voterIndex)).isSome = true) ∧
      ∃ seen pending, eng.onViewChange P now msg =
        ({ eng with seenEvidence := seen, pendingVcEvidence := pending }, none)) ∨
    eng.consensus.targetHeight ≤ msg.slot ∧ eng.seenViewChanges (msg.slot, msg.voterIndex) = none ∧
      (tryFormViewChangeQc P eng.chainId msg.slot ((eng.viewChanges msg.slot).getD [] ++ [msg])
          (eng.committeeKeysForSlot msg.slot) = none ∧
        eng.onViewChange P now msg = (eng.bufferViewChange P msg, none) ∨
      ∃ vcQc, tryFormViewChangeQc P eng.chainId msg.slot ((eng.viewChanges msg.slot).getD [] ++ [msg])
          (eng.committeeKeysForSlot msg.slot) = some vcQc ∧ eng.onViewChange P now msg =
          ((eng.bufferViewChange P msg).installViewChangeQc P now msg.slot vcQc, some vcQc)) := by
  have hbuffer : ((eng.bufferViewChange P msg).viewChanges msg.slot).getD [] =
      (eng.viewChanges msg.slot).getD [] ++ [msg] := by
    unfold bufferViewChange
    dsimp only
    rw [update_self]
    rfl
  unfold onViewChange
  split
  next hslot => exact .inl ⟨.inl hslot, eng.seenEvidence, eng.pendingVcEvidence, rfl⟩
  rename_i hslot
  split
  next prevQcHash prevSignature hseen =>
    have hsome : (eng.seenViewChanges (msg.slot, msg.voterIndex)).isSome = true :=
      Option.isSome_iff_exists.mpr ⟨_, hseen⟩
    split
    next => exact .inl ⟨.inr hsome, eng.seenEvidence, eng.pendingVcEvidence, rfl⟩
    next =>
      obtain ⟨seen, pending, hframe⟩ := onSecondViewChange_frame P eng msg prevQcHash prevSignature
      exact .inl ⟨.inr hsome, seen, pending, by rw [hframe]⟩
  next hseen =>
    refine .inr ⟨BitVec.not_lt.mp hslot, hseen, ?_⟩
    dsimp only
    rw [hbuffer]
    cases hform : tryFormViewChangeQc P eng.chainId msg.slot
        ((eng.viewChanges msg.slot).getD [] ++ [msg]) (eng.committeeKeysForSlot msg.slot) with
    | none => exact .inl ⟨rfl, rfl⟩
    | some vcQc => exact .inr ⟨vcQc, rfl, rfl⟩

/-- Installing a certificate for the first time raises the view and moves the tracker to the slot; later
ones only replace the certificate. -/
theorem installViewChangeQc_cases (P : Prims) (eng : MessageEngine) (now slot : U64) (vcQc : ViewChangeQC) :
    (eng.timeout.viewChangeQc = none ∧ ∃ buffered deferred, eng.installViewChangeQc P now slot vcQc =
      { eng with
        consensus := eng.consensus.bumpView
        timeout := { TimeoutTracker.new slot (eng.slotStartMsForTarget now slot) with
          viewChangeQc := some vcQc }
        bufferedProposals := buffered
        deferredFallbackProposals := deferred }) ∨ eng.installViewChangeQc P now slot vcQc =
      { eng with timeout := { eng.timeout with viewChangeQc := some vcQc } } := by
  unfold installViewChangeQc
  split
  next hfirst => exact .inl ⟨hfirst, drainDeferred_frame P _ slot⟩
  next => exact .inr rfl

/-! ### For which height the view is raised -/

/-- Messages are delivered one after the other, each at a time of the clock. -/
def deliverViewChanges (P : Prims) (deliveries : List (U64 × ViewChangeMessage)) (eng : MessageEngine) :
    MessageEngine :=
  deliveries.foldl (fun eng delivery => (eng.onViewChange P delivery.1 delivery.2).1) eng

theorem viewChanges_onViewChange (P : Prims) (eng : MessageEngine) (now : U64) (msg : ViewChangeMessage)
    (slot : U64) :
    ((eng.onViewChange P now msg).1.viewChanges slot).getD [] = (eng.viewChanges slot).getD [] ∨
      ((eng.onViewChange P now msg).1.viewChanges slot).getD [] = (eng.viewChanges slot).getD [] ++ [msg] := by
  have hbuffer : ((eng.bufferViewChange P msg).viewChanges slot).getD [] = (eng.viewChanges slot).getD [] ∨
      ((eng.bufferViewChange P msg).viewChanges slot).getD [] = (eng.viewChanges slot).getD [] ++ [msg] := by
    unfold bufferViewChange
    dsimp only
    by_cases hslot : slot = msg.slot
    · subst hslot
      rw [update_self]
      exact .inr rfl
    · rw [update_of_ne hslot]
      exact .inl rfl
  obtain ⟨-, seen, pending, hkeep⟩ | ⟨-, -, ⟨-, hbuffered⟩ | ⟨vcQc, -, hinstalled⟩⟩ :=
    onViewChange_cases P eng now msg
  · rw [hkeep]
    exact .inl rfl
  · rw [hbuffered]
    exact hbuffer
  rw [hinstalled]
  obtain ⟨-, buffered, deferred, hinstall⟩ | hinstall :=
    installViewChangeQc_cases P (eng.bufferViewChange P msg) now msg.slot vcQc
  · rw [hinstall]
    exact hbuffer
  · rw [hinstall]
    exact hbuffer

/-- What is buffered was there at the start or has been delivered. -/
theorem mem_viewChanges_deliver (deliveries : List (U64 × ViewChangeMessage)) (slot : U64) {m : ViewChangeMessage}
    (h : m ∈ ((eng.deliverViewChanges P deliveries).viewChanges slot).getD []) :
    m ∈ (eng.viewChanges slot).getD [] ∨ m ∈ deliveries.map Prod.snd := by
  induction deliveries generalizing eng with
  | nil => exact .inl h
  | cons delivery deliveries ih =>
    rcases ih h with hstart | hlater
    · rcases viewChanges_onViewChange P eng delivery.1 delivery.2 slot with hsame | hmore
      · rw [hsame] at hstart
        exact .inl hstart
      · rw [hmore] at hstart
        rcases List.mem_append.mp hstart with hstart | hlast
        · exact .inl hstart
        · exact .inr (List.mem_cons.mpr (.inl (List.mem_singleton.mp hlast)))
    · exact .inr (mem_cons_of_mem _ hlater)

/-- A quorum of distinct committee members signed view-change messages for the slot, all among `messages`. -/
def QuorumAsksFor (P : Prims) (eng : MessageEngine) (slot : U64) (msgs : List ViewChangeMessage) : Prop :=
  ∃ voters : Finset Nat, quorumForCommittee (eng.committeeKeysForSlot slot).length ≤ voters.card ∧
    ∀ i ∈ voters, i < (eng.committeeKeysForSlot slot).length ∧
      ∃ msg ∈ msgs, msg.slot = slot ∧ msg.voterIndex.toNat = i ∧
        verifyViewChange P eng.chainId msg ((eng.committeeKeysForSlot slot).getD i []) = true

/-- A message raises the view only by completing a quorum for its own slot, and moves the tracker there. -/
theorem raise_onViewChange {now : U64} {msg : ViewChangeMessage}
    (hraise : eng.consensus.currentView < (eng.onViewChange P now msg).1.consensus.currentView) :
    (eng.onViewChange P now msg).1.timeout.slot = msg.slot ∧
      eng.QuorumAsksFor P msg.slot ((eng.viewChanges msg.slot).getD [] ++ [msg]) := by
  obtain ⟨-, seen, pending, hkeep⟩ | ⟨-, -, ⟨-, hbuffered⟩ | ⟨vcQc, hform, hinstalled⟩⟩ :=
    onViewChange_cases P eng now msg
  · rw [hkeep] at hraise
    exact absurd hraise (BitVec.lt_irrefl _)
  · rw [hbuffered] at hraise
    exact absurd hraise (BitVec.lt_irrefl _)
  rw [hinstalled] at hraise ⊢
  obtain ⟨-, buffered, deferred, hinstall⟩ | hinstall :=
    installViewChangeQc_cases P (eng.bufferViewChange P msg) now msg.slot vcQc
  · rw [hinstall]
    exact ⟨rfl, exists_voters_of_tryFormViewChangeQc hform⟩
  · rw [hinstall] at hraise
    exact absurd hraise (BitVec.lt_irrefl _)

end MessageEngine

/-- When a delivered message raises the view, a quorum has asked for it at the target height and the tracker
is at the target height, exactly if the message is for the target height. -/
theorem view_raised_for_target_iff {P : Prims} (start : MessageEngine)
    (earlier : List (U64 × ViewChangeMessage)) (now : U64) (msg : ViewChangeMessage)
    (hraise : (start.deliverViewChanges P earlier).consensus.currentView <
      ((start.deliverViewChanges P earlier).onViewChange P now msg).1.consensus.currentView) :
    ((start.deliverViewChanges P earlier).QuorumAsksFor P (start.deliverViewChanges P earlier).consensus.targetHeight
        ((start.viewChanges (start.deliverViewChanges P earlier).consensus.targetHeight).getD [] ++
          (earlier.map Prod.snd ++ [msg])) ∧
      ((start.deliverViewChanges P earlier).onViewChange P now msg).1.timeout.slot =
        (start.deliverViewChanges P earlier).consensus.targetHeight) ↔
    msg.slot = (start.deliverViewChanges P earlier).consensus.targetHeight := by
  obtain ⟨htracker, voters, hquorum, hvoters⟩ := MessageEngine.raise_onViewChange hraise
  constructor
  · rintro ⟨-, hslot⟩
    exact htracker.symm.trans hslot
  · intro hslot
    rw [← hslot]
    refine ⟨⟨voters, hquorum, ?_⟩, htracker⟩
    intro i hi
    obtain ⟨hidx, m, hm, hsigned⟩ := hvoters i hi
    refine ⟨hidx, m, ?_, hsigned⟩
    -- what is buffered has been delivered
    rcases List.mem_append.mp hm with hbuffered | hlast
    · rcases MessageEngine.mem_viewChanges_deliver earlier msg.slot hbuffered with hstart | hdelivered
      · exact mem_append_left _ hstart
      · exact mem_append_right _ (mem_append_left _ hdelivered)
    · exact mem_append_right _ (mem_append_right _ hlast)

/-! ### Which checkpoints become current -/

/-- A call that can install a checkpoint. -/
inductive CheckpointCall where
  | ingest (cp : FinalityCheckpoint)
  | record (cert : HardFinalityCert)

/-- The certificate matches the checkpoint and is signed by a quorum of the committee. -/
def FinalityCheckpoint.Certified (P : Prims) (chainId : U64) (keys : List Bytes)
    (cp : FinalityCheckpoint) : Prop :=
  (cp.cert.slot = cp.slot ∧ cp.cert.blockHash = cp.blockHash ∧ cp.cert.stateRoot = cp.stateRoot) ∧
    cp.cert.Certified P chainId keys

/-- The certificate was formed from votes, and a checkpoint has its fields from its certificate. -/
def CheckpointCall.Formed (P : Prims) (chainId : U64) (keys : List Bytes) (call : CheckpointCall) :
    Prop :=
  ∃ slot blockHash stateRoot votes cert,
    tryFormHardFinality P chainId slot blockHash stateRoot votes keys = some cert ∧
      (call = .ingest cert.checkpoint ∨ call = .record cert)

namespace MessageEngine

variable {P : Prims} {eng : MessageEngine}

def callCheckpoint (eng : MessageEngine) : CheckpointCall → MessageEngine
  | .ingest cp => (eng.ingestFinalityCheckpoint cp).1
  | .record cert => { eng with finality := eng.finality.recordHardFinality cert }

def callCheckpoints (calls : List CheckpointCall) (eng : MessageEngine) : MessageEngine :=
  calls.foldl callCheckpoint eng

/-- Everything a call can do: keep the checkpoint, or install its own, for a later slot. -/
theorem callCheckpoint_cases (eng : MessageEngine) (call : CheckpointCall) :
    (eng.callCheckpoint call).finality.latestCheckpoint = eng.finality.latestCheckpoint ∨
      ∃ cp, (eng.callCheckpoint call).finality.latestCheckpoint = some cp ∧
        (call = .ingest cp ∨ ∃ cert, call = .record cert ∧ cp = cert.checkpoint) ∧
        ∀ existing, eng.finality.latestCheckpoint = some existing → existing.slot < cp.slot := by
  cases call with
  | ingest cp =>
    unfold callCheckpoint ingestFinalityCheckpoint
    dsimp only
    split
    next => exact .inl rfl
    rename_i hnew
    split
    next => exact .inl rfl
    refine .inr ⟨cp, rfl, .inl rfl, ?_⟩
    intro existing hexisting
    rw [hexisting, Option.filter_eq_none_iff] at hnew
    have hslot := hnew existing rfl
    rw [decide_eq_true_eq, BitVec.not_le] at hslot
    exact hslot
  | record cert =>
    unfold callCheckpoint FinalityTracker.recordHardFinality
    dsimp only
    split
    next hadvances =>
      exact .inr ⟨cert.checkpoint, rfl, .inr ⟨cert, rfl, rfl⟩, (FinalityTracker.advances_iff cert).mp hadvances⟩
    next => exact .inl rfl

theorem checkpoint_callCheckpoint {cp : FinalityCheckpoint} (hcp : eng.finality.latestCheckpoint = some cp)
    (call : CheckpointCall) :
    ∃ cp', (eng.callCheckpoint call).finality.latestCheckpoint = some cp' ∧ cp.slot ≤ cp'.slot := by
  obtain hsame | ⟨cp', hinstalled, -, hlater⟩ := callCheckpoint_cases eng call
  · exact ⟨cp, hsame.trans hcp, BitVec.le_refl _⟩
  · exact ⟨cp', hinstalled, BitVec.le_of_lt (hlater cp hcp)⟩

theorem certified_callCheckpoint {chainId : U64} {keys : List Bytes} {call : CheckpointCall}
    (hformed : call.Formed P chainId keys)
    (hcertified : ∀ cp, eng.finality.latestCheckpoint = some cp → cp.Certified P chainId keys) :
    ∀ cp, (eng.callCheckpoint call).finality.latestCheckpoint = some cp → cp.Certified P chainId keys := by
  obtain hsame | ⟨cp', hinstalled, hinput, -⟩ := callCheckpoint_cases eng call
  · rw [hsame]
    exact hcertified
  intro cp hcp
  rw [hinstalled] at hcp
  cases hcp
  obtain ⟨slot, blockHash, stateRoot, votes, cert, hform, hcall⟩ := hformed
  have hcheckpoint : cp' = cert.checkpoint := by
    rcases hinput with hingest | ⟨cert', hrecord, rfl⟩
    · rcases hcall with hcall | hcall
      · exact CheckpointCall.ingest.inj (hingest.symm.trans hcall)
      · cases hingest.symm.trans hcall
    rcases hcall with hcall | hcall
    · cases hrecord.symm.trans hcall
    · rw [CheckpointCall.record.inj (hrecord.symm.trans hcall)]
  rw [hcheckpoint]
  exact ⟨⟨rfl, rfl, rfl⟩, certified_tryFormHardFinality hform⟩

end MessageEngine

/-- Whatever is handed in, the checkpoint never goes back. It is certified if every certificate that was
handed in had been formed from votes of the committee. -/
theorem installed_checkpoints_certified {P : Prims} {chainId : U64} {keys : List Bytes}
    (start : MessageEngine) (calls : List CheckpointCall) :
    (∀ cp, start.finality.latestCheckpoint = some cp →
        ∃ cp', (start.callCheckpoints calls).finality.latestCheckpoint = some cp' ∧ cp.slot ≤ cp'.slot) ∧
      ((∀ call ∈ calls, call.Formed P chainId keys) →
        (∀ cp, start.finality.latestCheckpoint = some cp → cp.Certified P chainId keys) →
        ∀ cp, (start.callCheckpoints calls).finality.latestCheckpoint = some cp →
          cp.Certified P chainId keys) := by
  induction calls generalizing start with
  | nil => exact ⟨fun cp hcp => ⟨cp, hcp, BitVec.le_refl _⟩, fun _ hstart => hstart⟩
  | cons call calls ih =>
    obtain ⟨hforward, hcertified⟩ := ih (start.callCheckpoint call)
    constructor
    · intro cp hcp
      obtain ⟨cp', hcp', hle⟩ := MessageEngine.checkpoint_callCheckpoint hcp call
      obtain ⟨cp'', hcp'', hle'⟩ := hforward cp' hcp'
      exact ⟨cp'', hcp'', BitVec.le_trans hle hle'⟩
    · intro hformed hstart
      rw [forall_mem_cons] at hformed
      exact hcertified hformed.2 (MessageEngine.certified_callCheckpoint hformed.1 hstart)

/-! ### Which evidence reaches the queue -/

/-- What happens to evidence: it is ingested, a queue is drained, or old records are dropped. -/
inductive EvidenceCall where
  | doubleSign (ev : DoubleSignEvidence)
  | viewChange (ev : DoubleViewChangeEvidence)
  | drain
  | drainVc
  | prune (pruneBefore : U64)

/-- The call drops no record of the slot. -/
def EvidenceCall.Keeps (slot : U64) : EvidenceCall → Prop
  | prune pruneBefore => pruneBefore ≤ slot
  | doubleSign _ | viewChange _ | drain | drainVc => True

namespace MessageEngine

section

variable (P : Prims) (eng : MessageEngine)

/-- The evidence is against a committee member and both signatures verify. -/
def validDoubleSign (ev : DoubleSignEvidence) : Bool :=
  ((eng.committeeKeyOf P ev.signer).map (verifyDoubleSign P eng.chainId ev)).getD false

def validDoubleViewChange (ev : DoubleViewChangeEvidence) : Bool :=
  ((eng.committeeKeyOf P ev.signer).map (verifyDoubleViewChange P eng.chainId ev)).getD false

def callEvidence : EvidenceCall → MessageEngine
  | .doubleSign ev => (eng.ingestEvidence P ev).1
  | .viewChange ev => (eng.ingestViewChangeEvidence P ev).1
  | .drain => eng.drainPendingEvidence.2
  | .drainVc => eng.drainPendingVcEvidence.2
  | .prune pruneBefore => eng.pruneSeenEvidence pruneBefore

def callsEvidence (calls : List EvidenceCall) : MessageEngine := calls.foldl (callEvidence P) eng

/-- Double-sign evidence against the signer for the slot is in the queue. -/
def QueuedNow (slot : U64) (signer : Address) : Prop :=
  ∃ ev ∈ eng.pendingEvidence, ev.slot = slot ∧ ev.signer = signer

def HasBeenQueued (calls : List EvidenceCall) (slot : U64) (signer : Address) : Prop :=
  ∃ done, done <+: calls ∧ (eng.callsEvidence P done).QueuedNow slot signer

/-- Valid evidence against the signer for the slot: `true` for double-sign evidence. -/
def kindOf (slot : U64) (signer : Address) : EvidenceCall → Option Bool
  | .doubleSign ev =>
    if ev.slot = slot ∧ ev.signer = signer ∧ eng.validDoubleSign P ev = true then some true
    else none
  | .viewChange ev =>
    if ev.slot = slot ∧ ev.signer = signer ∧ eng.validDoubleViewChange P ev = true then
      some false
    else none
  | .drain | .drainVc | .prune _ => none

def firstKind (calls : List EvidenceCall) (slot : U64) (signer : Address) : Option Bool :=
  calls.findSome? (eng.kindOf P slot signer)

end

variable {P : Prims} {eng : MessageEngine}

/-- Everything `ingest_evidence` can do. -/
theorem ingestEvidence_cases (P : Prims) (eng : MessageEngine) (ev : DoubleSignEvidence) :
    ((eng.seenEvidence (ev.slot, ev.signer) = true ∨ eng.validDoubleSign P ev = false) ∧
      eng.ingestEvidence P ev = (eng, false)) ∨
    (eng.seenEvidence (ev.slot, ev.signer) = false ∧ eng.validDoubleSign P ev = true ∧
      eng.ingestEvidence P ev = ({ eng with
            seenEvidence := Function.update eng.seenEvidence (ev.slot, ev.signer) true
            pendingEvidence := eng.pendingEvidence ++ [ev]
            broadcastEvidence := eng.broadcastEvidence ++ [ev] }, true)) := by
  unfold ingestEvidence validDoubleSign
  dsimp only
  cases hseen : eng.seenEvidence (ev.slot, ev.signer) with
  | true => exact .inl ⟨.inl rfl, rfl⟩
  | false =>
    cases hkey : eng.committeeKeyOf P ev.signer with
    | none => exact .inl ⟨.inr rfl, rfl⟩
    | some pk =>
      cases hok : verifyDoubleSign P eng.chainId ev pk with
      | false => exact .inl ⟨.inr hok, by simp [hok]⟩
      | true => exact .inr ⟨rfl, hok, by simp [hok]⟩

/-- Everything `ingest_view_change_evidence` can do. -/
theorem ingestViewChangeEvidence_cases (P : Prims) (eng : MessageEngine) (ev : DoubleViewChangeEvidence) :
    ((eng.seenEvidence (ev.slot, ev.signer) = true ∨ eng.validDoubleViewChange P ev = false) ∧
      eng.ingestViewChangeEvidence P ev = (eng, false)) ∨
    (eng.seenEvidence (ev.slot, ev.signer) = false ∧ eng.validDoubleViewChange P ev = true ∧
      eng.ingestViewChangeEvidence P ev = ({ eng with
            seenEvidence := Function.update eng.seenEvidence (ev.slot, ev.signer) true
            pendingVcEvidence := eng.pendingVcEvidence ++ [ev] }, true)) := by
  unfold ingestViewChangeEvidence validDoubleViewChange
  dsimp only
  cases hseen : eng.seenEvidence (ev.slot, ev.signer) with
  | true => exact .inl ⟨.inl rfl, rfl⟩
  | false =>
    cases hkey : eng.committeeKeyOf P ev.signer with
    | none => exact .inl ⟨.inr rfl, rfl⟩
    | some pk =>
      cases hok : verifyDoubleViewChange P eng.chainId ev pk with
      | false => exact .inl ⟨.inr hok, by simp [hok]⟩
      | true => exact .inr ⟨rfl, hok, by simp [hok]⟩

/-- What one call does to the record of a key and to the queue, where `kind` is what the call says about the
key. -/
structure EvidenceStep (slot : U64) (signer : Address) (kind : Option Bool) (before after : MessageEngine) :
    Prop where
  committee : after.committeeKeys = before.committeeKeys ∧ after.chainId = before.chainId
  seen : after.seenEvidence (slot, signer) = (before.seenEvidence (slot, signer) || kind.isSome)
  queued : after.QueuedNow slot signer →
    before.QueuedNow slot signer ∨ before.seenEvidence (slot, signer) = false ∧ kind = some true
  queues : before.seenEvidence (slot, signer) = false → kind = some true → after.QueuedNow slot signer

theorem EvidenceStep.of_frame {slot : U64} {signer : Address} {before after : MessageEngine}
    (hcommittee : after.committeeKeys = before.committeeKeys ∧ after.chainId = before.chainId)
    (hseen : after.seenEvidence (slot, signer) = before.seenEvidence (slot, signer))
    (hqueued : after.QueuedNow slot signer → before.QueuedNow slot signer) :
    EvidenceStep slot signer none before after where
  committee := hcommittee
  seen := by rw [hseen, Option.isSome_none, Bool.or_false]
  queued h := Or.inl (hqueued h)
  queues _ h := nomatch h

/-- Evidence that is turned away is not valid, or its key was recorded before. -/
theorem EvidenceStep.of_rejected {slot about : U64} {signer accused : Address} {valid kind : Bool} {eng : MessageEngine}
    (h : eng.seenEvidence (about, accused) = true ∨ valid = false) :
    EvidenceStep slot signer (if about = slot ∧ accused = signer ∧ valid = true then some kind else none) eng
      eng := by
  split
  next hkey =>
    obtain ⟨rfl, rfl, rfl⟩ := hkey
    have hseen := h.resolve_right nofun
    exact ⟨⟨rfl, rfl⟩, by rw [hseen, Bool.true_or], .inl, fun hfresh => absurd (hseen.symm.trans hfresh) nofun⟩
  next => exact .of_frame ⟨rfl, rfl⟩ rfl id

section

variable (P : Prims) (eng : MessageEngine)

theorem evidenceStep_doubleSign (ev : DoubleSignEvidence) (slot : U64) (signer : Address) :
    EvidenceStep slot signer (eng.kindOf P slot signer (.doubleSign ev)) eng
      (eng.ingestEvidence P ev).1 := by
  obtain ⟨hrejected, hsame⟩ | ⟨hfresh, hvalid, haccepted⟩ := ingestEvidence_cases P eng ev
  · rw [hsame]
    exact .of_rejected hrejected
  rw [haccepted]
  unfold kindOf
  dsimp only
  split
  next hkey =>
    obtain ⟨rfl, rfl, -⟩ := hkey
    have hlast : ev ∈ eng.pendingEvidence ++ [ev] :=
      mem_append_right _ (List.mem_singleton.mpr rfl)
    refine ⟨⟨rfl, rfl⟩, ?_, fun _ => Or.inr ⟨hfresh, rfl⟩, fun _ _ => ⟨ev, hlast, rfl, rfl⟩⟩
    dsimp only
    rw [update_self, Option.isSome_some, Bool.or_true]
  next hother =>
    have hne : (slot, signer) ≠ (ev.slot, ev.signer) := by
      intro heq
      obtain ⟨rfl, rfl⟩ := Prod.mk.inj heq
      exact hother ⟨rfl, rfl, hvalid⟩
    refine .of_frame ⟨rfl, rfl⟩ (update_of_ne hne true eng.seenEvidence) ?_
    rintro ⟨e, he, hkey⟩
    rcases List.mem_append.mp he with he | he
    · exact ⟨e, he, hkey⟩
    · rw [List.mem_singleton.mp he] at hkey
      exact absurd (Prod.ext hkey.1.symm hkey.2.symm) hne

theorem evidenceStep_viewChange (ev : DoubleViewChangeEvidence) (slot : U64) (signer : Address) :
    EvidenceStep slot signer (eng.kindOf P slot signer (.viewChange ev)) eng
      (eng.ingestViewChangeEvidence P ev).1 := by
  obtain ⟨hrejected, hsame⟩ | ⟨hfresh, hvalid, haccepted⟩ := ingestViewChangeEvidence_cases P eng ev
  · rw [hsame]
    exact .of_rejected hrejected
  rw [haccepted]
  unfold kindOf
  dsimp only
  split
  next hkey =>
    obtain ⟨rfl, rfl, -⟩ := hkey
    refine ⟨⟨rfl, rfl⟩, ?_, .inl, nofun⟩
    dsimp only
    rw [update_self, Option.isSome_some, Bool.or_true]
  next hother =>
    have hne : (slot, signer) ≠ (ev.slot, ev.signer) := by
      intro heq
      obtain ⟨rfl, rfl⟩ := Prod.mk.inj heq
      exact hother ⟨rfl, rfl, hvalid⟩
    exact .of_frame ⟨rfl, rfl⟩ (update_of_ne hne true eng.seenEvidence) fun h => h

theorem evidenceStep (slot : U64) (signer : Address) {call : EvidenceCall} (hkeeps : call.Keeps slot) :
    EvidenceStep slot signer (eng.kindOf P slot signer call) eng (eng.callEvidence P call) := by
  cases call with
  | doubleSign ev => exact evidenceStep_doubleSign P eng ev slot signer
  | viewChange ev => exact evidenceStep_viewChange P eng ev slot signer
  | drain =>
    refine .of_frame ⟨rfl, rfl⟩ rfl ?_
    rintro ⟨e, he, -⟩
    exact absurd he not_mem_nil
  | drainVc => exact .of_frame ⟨rfl, rfl⟩ rfl fun h => h
  | prune pruneBefore =>
    refine .of_frame ⟨rfl, rfl⟩ ?_ fun h => h
    have hle : pruneBefore ≤ slot := hkeeps
    change (decide (pruneBefore ≤ slot) && eng.seenEvidence (slot, signer)) = _
    rw [decide_eq_true hle, Bool.true_and]

end

theorem kindOf_congr {eng eng' : MessageEngine}
    (h : eng'.committeeKeys = eng.committeeKeys ∧ eng'.chainId = eng.chainId) (slot : U64)
    (signer : Address) (call : EvidenceCall) : eng'.kindOf P slot signer call = eng.kindOf P slot signer call := by
  cases call with
  | doubleSign ev =>
    unfold kindOf validDoubleSign committeeKeyOf
    rw [h.1, h.2]
  | viewChange ev =>
    unfold kindOf validDoubleViewChange committeeKeyOf
    rw [h.1, h.2]
  | drain => rfl
  | drainVc => rfl
  | prune pruneBefore => rfl

section

variable (P : Prims) (eng : MessageEngine) (calls : List EvidenceCall) (call : EvidenceCall)

theorem callsEvidence_concat :
    eng.callsEvidence P (calls ++ [call]) = (eng.callsEvidence P calls).callEvidence P call := by
  rw [callsEvidence, foldl_append]
  rfl

/-- The queue has held the evidence before the last call, or holds it now. -/
theorem hasBeenQueued_concat (slot : U64) (signer : Address) :
    eng.HasBeenQueued P (calls ++ [call]) slot signer ↔ eng.HasBeenQueued P calls slot signer ∨
        (eng.callsEvidence P (calls ++ [call])).QueuedNow slot signer := by
  constructor
  · rintro ⟨done, hdone, hqueued⟩
    rcases List.prefix_concat_iff.mp hdone with rfl | hearlier
    · exact .inr hqueued
    · exact .inl ⟨done, hearlier, hqueued⟩
  · rintro (⟨done, hdone, hqueued⟩ | hqueued)
    · exact ⟨done, hdone.trans (prefix_append _ _), hqueued⟩
    · exact ⟨calls ++ [call], prefix_rfl, hqueued⟩

end

/-- The record of the key and the history of the queue, in terms of the first valid evidence. -/
theorem seen_and_queued {slot : U64} {signer : Address} (hseen : eng.seenEvidence (slot, signer) = false)
    (hqueued : ¬ eng.QueuedNow slot signer) (calls : List EvidenceCall)
    (hkeeps : ∀ call ∈ calls, call.Keeps slot) :
    ((eng.callsEvidence P calls).committeeKeys = eng.committeeKeys ∧
        (eng.callsEvidence P calls).chainId = eng.chainId) ∧
      (eng.callsEvidence P calls).seenEvidence (slot, signer) = (eng.firstKind P calls slot signer).isSome ∧
      (eng.HasBeenQueued P calls slot signer ↔ eng.firstKind P calls slot signer = some true) := by
  induction calls using List.reverseRecOn with
  | nil =>
    refine ⟨⟨rfl, rfl⟩, hseen, ?_⟩
    constructor
    · rintro ⟨done, hdone, hnow⟩
      rw [List.prefix_nil.mp hdone] at hnow
      exact absurd hnow hqueued
    · exact nofun
  | append_singleton calls call ih =>
    rw [forall_mem_append, forall_mem_singleton] at hkeeps
    obtain ⟨hcommittee, hrecord, hqueue⟩ := ih hkeeps.1
    have hstep := evidenceStep P (eng.callsEvidence P calls) slot signer hkeeps.2
    rw [kindOf_congr hcommittee] at hstep
    have hfirst : eng.firstKind P (calls ++ [call]) slot signer =
        (eng.firstKind P calls slot signer).or (eng.kindOf P slot signer call) := by
      unfold firstKind
      rw [List.findSome?_append, List.findSome?_singleton]
    rw [hasBeenQueued_concat, callsEvidence_concat, hfirst, hqueue]
    refine ⟨⟨hstep.committee.1.trans hcommittee.1, hstep.committee.2.trans hcommittee.2⟩, ?_, ?_⟩
    · rw [hstep.seen, hrecord, Option.isSome_or]
    · cases hkind : eng.firstKind P calls slot signer with
      | none =>
        rw [hkind] at hrecord hqueue
        rw [Option.none_or]
        constructor
        · rintro (hnone | hnow)
          · cases hnone
          · rcases hstep.queued hnow with hbefore | ⟨-, hnew⟩
            · exact absurd (hqueue.mp ⟨calls, prefix_rfl, hbefore⟩) (by simp)
            · exact hnew
        · exact fun hnew => Or.inr (hstep.queues hrecord hnew)
      | some kind =>
        rw [hkind] at hrecord hqueue
        rw [Option.some_or]
        constructor
        · rintro (hold | hnow)
          · exact hold
          · rcases hstep.queued hnow with hbefore | ⟨hfresh, -⟩
            · exact hqueue.mp ⟨calls, prefix_rfl, hbefore⟩
            · rw [hrecord] at hfresh
              cases hfresh
        · exact .inl

end MessageEngine

/-- Valid double-sign evidence that is ingested within the retention window has some evidence of its kind in
the queue, exactly if no valid view-change evidence about the same signer and slot came before all of it. -/
theorem evidence_reaches_queue_iff {P : Prims} (start : MessageEngine) (before : List EvidenceCall)
    (ev : DoubleSignEvidence) (hvalid : start.validDoubleSign P ev = true)
    (hwindow : ∀ call ∈ before, call.Keeps ev.slot)
    (hseen : start.seenEvidence (ev.slot, ev.signer) = false)
    (hqueued : ¬ start.QueuedNow ev.slot ev.signer) :
    start.HasBeenQueued P (before ++ [.doubleSign ev]) ev.slot ev.signer ↔
      start.firstKind P before ev.slot ev.signer ≠ some false := by
  have hkeeps : ∀ call ∈ before ++ [.doubleSign ev], EvidenceCall.Keeps ev.slot call :=
    List.forall_mem_append.mpr ⟨hwindow, List.forall_mem_singleton.mpr trivial⟩
  have hkind : start.kindOf P ev.slot ev.signer (.doubleSign ev) = some true :=
    if_pos ⟨rfl, rfl, hvalid⟩
  rw [(MessageEngine.seen_and_queued hseen hqueued _ hkeeps).2.2]
  unfold MessageEngine.firstKind
  rw [List.findSome?_append, List.findSome?_singleton, hkind]
  cases before.findSome? (start.kindOf P ev.slot ev.signer) with
  | none => exact ⟨fun _ h => (nomatch h), fun _ => rfl⟩
  | some kind =>
    cases kind with
    | true => exact ⟨fun _ h => (nomatch h), fun _ => rfl⟩
    | false => exact ⟨fun h => (nomatch h), fun h => absurd rfl h⟩

/-! ### A committee of one -/

/-- An engine that has seen nothing, with the given committee. -/
def idleEngine (keys : List Bytes) : MessageEngine where
  chainId := 7
  consensus := ConsensusState.new
  currentEpoch := 0
  committeeKeys := keys
  prevCommitteeKeys := []
  viewChanges _ := none
  votedViewPerSlot _ := none
  seenProposals _ := none
  seenVotes _ := none
  seenViewChanges _ := none
  seenViewChangesSelf _ := none
  genesisTimestampMs := 0
  blockTimeMs := 0
  timeout := TimeoutTracker.new ConsensusState.new.targetHeight 0
  finalityVotes _ := none
  seenFinalityVotes _ := false
  finality := FinalityTracker.new
  pendingEvidence := []
  broadcastEvidence := []
  pendingVcEvidence := []
  seenEvidence _ := false
  bufferedProposals _ := none
  deferredFallbackProposals _ := none

/-- The view-change message of the first member for a slot. -/
def soloViewChange (slot : U64) : ViewChangeMessage where
  slot := slot
  highestQc := QuorumCert.empty
  voterIndex := 0
  voterAddress := deriveEoaAddress lucid (lucidKey 1)
  signature := (lucidSignature [1] (viewChangeSignMessage lucid 7 slot QuorumCert.empty)).bytes

theorem view_raised_for_target_solo :
    (((idleEngine [lucidKey 1]).deliverViewChanges lucid []).onViewChange lucid 0
        (soloViewChange 1)).1.timeout.slot =
      ((idleEngine [lucidKey 1]).deliverViewChanges lucid []).consensus.targetHeight := by
  have hraise : ((idleEngine [lucidKey 1]).deliverViewChanges lucid []).consensus.currentView <
      (((idleEngine [lucidKey 1]).deliverViewChanges lucid []).onViewChange lucid 0
        (soloViewChange 1)).1.consensus.currentView := by decide +kernel
  have hslot : (soloViewChange 1).slot =
      ((idleEngine [lucidKey 1]).deliverViewChanges lucid []).consensus.targetHeight := by
    decide +kernel
  exact ((view_raised_for_target_iff _ [] 0 _ hraise).mpr hslot).2

/-- A message for a later slot raises the view of the target height and takes the tracker away from it. -/
theorem view_raised_for_later_slot :
    (idleEngine [lucidKey 1]).consensus.currentView <
        ((idleEngine [lucidKey 1]).onViewChange lucid 0 (soloViewChange 5)).1.consensus.currentView ∧
      (idleEngine [lucidKey 1]).consensus.targetHeight = 1 ∧
      ((idleEngine [lucidKey 1]).onViewChange lucid 0 (soloViewChange 5)).1.timeout.slot = 5 := by
  decide +kernel

/-- The finality vote of the first member. -/
def soloFinalityVote : FinalityVote where
  slot := 3
  blockHash := fill32 1
  stateRoot := fill32 2
  voterIndex := 0
  voterAddress := deriveEoaAddress lucid (lucidKey 1)
  signature := (lucidSignature [1] (finalitySignMessage 7 3 (fill32 1) (fill32 2))).bytes

theorem installed_checkpoint_solo :
    ∃ cert, tryFormHardFinality lucid 7 3 (fill32 1) (fill32 2) [soloFinalityVote]
        [lucidKey 1] = some cert ∧
      ∀ cp, ((idleEngine [lucidKey 1]).callCheckpoints [.record cert]).finality.latestCheckpoint = some cp →
        cp.Certified lucid 7 [lucidKey 1] := by
  obtain ⟨cert, hform⟩ : ∃ cert, tryFormHardFinality lucid 7 3 (fill32 1) (fill32 2)
      [soloFinalityVote] [lucidKey 1] = some cert := by
    apply Option.isSome_iff_exists.mp
    decide +kernel
  refine ⟨cert, hform, ?_⟩
  have hformed : ∀ call ∈ [CheckpointCall.record cert], call.Formed lucid 7 [lucidKey 1] :=
    List.forall_mem_singleton.mpr ⟨3, fill32 1, fill32 2, [soloFinalityVote], cert, hform, .inr rfl⟩
  exact (installed_checkpoints_certified (idleEngine [lucidKey 1]) [.record cert]).2 hformed
    nofun

/-- A checkpoint with one bit in the bitmap, no signature and a certificate for another slot is installed. -/
theorem uncertified_checkpoint_installed :
    ((idleEngine [lucidKey 1]).ingestFinalityCheckpoint
        { slot := 9, blockHash := fill32 1, stateRoot := fill32 2
          cert := { certOf 3 zero32 with voterBitmap := 1 } }).1.finality.latestCheckpoint.map
        (fun cp => (cp.slot, cp.cert.slot, cp.cert.signatures)) = some (9, 3, []) ∧
      quorumForCommittee (idleEngine [lucidKey 1]).committeeKeys.length = 1 := by
  decide +kernel

/-- The first member signs two blocks of slot 3. -/
def soloDoubleSign : DoubleSignEvidence where
  slot := 3
  blockHash1 := fill32 1
  signature1 := (lucidSignature [1] (proposerSignMessage 7 3 (fill32 1))).bytes
  blockHash2 := fill32 2
  signature2 := (lucidSignature [1] (proposerSignMessage 7 3 (fill32 2))).bytes
  signer := deriveEoaAddress lucid (lucidKey 1)
  submitter := zero32

/-- It reports two certificates in view-change messages for slot 3. -/
def soloDoubleViewChange : DoubleViewChangeEvidence where
  slot := 3
  qcHash1 := fill32 1
  signature1 := (lucidSignature [1] (viewChangeSignMessageFromHash 7 3 (fill32 1))).bytes
  qcHash2 := fill32 2
  signature2 := (lucidSignature [1] (viewChangeSignMessageFromHash 7 3 (fill32 2))).bytes
  signer := deriveEoaAddress lucid (lucidKey 1)
  submitter := zero32

theorem evidence_reaches_queue_solo :
    (idleEngine [lucidKey 1]).HasBeenQueued lucid
      ([.drain, .prune 2] ++ [.doubleSign soloDoubleSign]) soloDoubleSign.slot soloDoubleSign.signer := by
  apply (evidence_reaches_queue_iff (idleEngine [lucidKey 1]) [.drain, .prune 2] soloDoubleSign _ _ rfl _).mpr
  · exact nofun
  · decide +kernel
  · refine List.forall_mem_cons.mpr ⟨trivial, List.forall_mem_singleton.mpr ?_⟩
    change (2 : U64) ≤ 3
    decide
  · rintro ⟨ev, hevidence, -⟩
    exact absurd hevidence not_mem_nil

/-- View-change evidence about the same member and slot comes first: the double-sign evidence never reaches
the queue. -/
theorem evidence_lost_to_view_change :
    (idleEngine [lucidKey 1]).validDoubleSign lucid soloDoubleSign = true ∧
      ∀ done ∈ [EvidenceCall.viewChange soloDoubleViewChange, .doubleSign soloDoubleSign].inits,
        ((idleEngine [lucidKey 1]).callsEvidence lucid done).pendingEvidence = [] := by
  decide +kernel

end Pyde
