/-
Module: Pyde.Node.ForgedMessages
Purpose: Two runs of the validator engine, one of them with additional messages whose signatures do not verify.
Trusted boundary: Prims
-/
import Pyde.Library.DedupInbox
import Pyde.Node.EngineInvariants

namespace Pyde

open ByteCodec DedupInbox List Function

/-! ### Messages and certificates -/

inductive MessageKind where
  | viewChange
  | finality
deriving DecidableEq

inductive EngineMessage where
  | viewChange (msg : ViewChangeMessage)
  | finalityVote (vote : FinalityVote)

/-- A certificate that the engine forms. -/
inductive FormedCert where
  | viewChange (vcQc : ViewChangeQC)
  | finality (cert : HardFinalityCert)
deriving DecidableEq

namespace EngineMessage

def kind : EngineMessage → MessageKind
  | viewChange _ => .viewChange
  | finalityVote _ => .finality

def slot : EngineMessage → U64
  | viewChange msg => msg.slot
  | finalityVote vote => vote.slot

def voterIndex : EngineMessage → U8
  | viewChange msg => msg.voterIndex
  | finalityVote vote => vote.voterIndex

def asViewChange : EngineMessage → Option ViewChangeMessage
  | viewChange msg => some msg
  | finalityVote _ => none

def asFinalityVote : EngineMessage → Option FinalityVote
  | viewChange _ => none
  | finalityVote vote => some vote

end EngineMessage

/-! ### The engine as an inbox -/

def inboxBuffer (viewChanges : U64 → Option (List ViewChangeMessage))
    (finalityVotes : U64 → Option (List FinalityVote)) :
    MessageKind × U64 → List EngineMessage
  | (.viewChange, slot) => ((viewChanges slot).getD []).map .viewChange
  | (.finality, slot) => ((finalityVotes slot).getD []).map .finalityVote

def inboxSeen (seenViewChanges : U64 × U8 → Option (Hash256 × Bytes)) (seenFinalityVotes : U64 × U8 → Bool) :
    MessageKind × U64 × U8 → Bool
  | (.viewChange, voter) => (seenViewChanges voter).isSome
  | (.finality, voter) => seenFinalityVotes voter

namespace MessageEngine

section

variable (P : Prims) (eng : MessageEngine)

def verifies : EngineMessage → Bool
  | .viewChange msg => (viewChangeVoter P eng.chainId msg.slot (eng.committeeKeysForSlot msg.slot) msg).isSome
  | .finalityVote vote =>
    (finalityVoter P eng.chainId vote.slot vote.blockHash vote.stateRoot
      (eng.committeeKeysForSlot vote.slot) vote).isSome

/-- The certificate that a message makes the engine form from the messages of its slot. -/
def formFrom (msgs : List EngineMessage) : EngineMessage → Option FormedCert
  | .viewChange msg =>
    (tryFormViewChangeQc P eng.chainId msg.slot (msgs.filterMap EngineMessage.asViewChange)
      (eng.committeeKeysForSlot msg.slot)).map .viewChange
  | .finalityVote vote =>
    (tryFormHardFinality P eng.chainId vote.slot vote.blockHash vote.stateRoot
      (msgs.filterMap EngineMessage.asFinalityVote) (eng.committeeKeysForSlot vote.slot)).map .finality

/-- View changes below the target height are stale. -/
def stale : EngineMessage → Bool
  | .viewChange msg => decide (msg.slot < eng.consensus.targetHeight)
  | .finalityVote _ => false

def inboxRules : Rules EngineMessage (MessageKind × U64 × U8) (MessageKind × U64) FormedCert where
  key m := (m.kind, m.slot, m.voterIndex)
  topic m := (m.kind, m.slot)
  stale := eng.stale
  valid := eng.verifies P
  form := eng.formFrom P

/-- The dedup records and the buffers of the engine. -/
def inbox : State EngineMessage (MessageKind × U64 × U8) (MessageKind × U64) where
  buffer := inboxBuffer eng.viewChanges eng.finalityVotes
  seen := inboxSeen eng.seenViewChanges eng.seenFinalityVotes

/-- The engine after a message that arrives at a time of the clock, and the certificate that was formed. -/
def deliver (now : U64) : EngineMessage → MessageEngine × Option FormedCert
  | .viewChange msg => ((eng.onViewChange P now msg).1, (eng.onViewChange P now msg).2.map .viewChange)
  | .finalityVote vote => ((eng.onFinalityVote P vote).1, (eng.onFinalityVote P vote).2.map .finality)

def deliverAll (msgs : List (U64 × EngineMessage)) : MessageEngine :=
  msgs.foldl (fun eng m => (eng.deliver P m.1 m.2).1) eng

end

def formedCerts (P : Prims) : List (U64 × EngineMessage) → MessageEngine → List FormedCert
  | [], _ => []
  | m :: msgs, eng =>
    (eng.deliver P m.1 m.2).2.toList ++ formedCerts P msgs (eng.deliver P m.1 m.2).1

section

variable (P : Prims) (eng : MessageEngine)

def countedViewChanges (slot : U64) : List ViewChangeMessage :=
  (VoterTally.countAll (w := 128) (viewChangeVoter P eng.chainId slot (eng.committeeKeysForSlot slot))
    ((eng.viewChanges slot).getD [])).counted

def countedFinalityVotes (slot : U64) (blockHash stateRoot : Hash256) : List FinalityVote :=
  (VoterTally.countAll (w := 128) (finalityVoter P eng.chainId slot blockHash stateRoot
    (eng.committeeKeysForSlot slot)) ((eng.finalityVotes slot).getD [])).counted

end

/-! ### The rules are lawful -/

/-- Keeping part of a sum type commutes with keeping the valid elements. -/
theorem filterMap_filter_comm {α β : Type} {f : α → Option β} {p : α → Bool} {q : β → Bool}
    (h : ∀ a b, f a = some b → p a = q b) (l : List α) : (l.filter p).filterMap f = (l.filterMap f).filter q := by
  rw [filterMap_filter, filter_filterMap]
  congr 1
  funext a
  cases hfa : f a with
  | none => exact ite_self _
  | some b =>
    rw [h a b hfa]
    rfl

variable {P : Prims} {eng : MessageEngine}

/-- A view-change message that does not verify counts for no slot. -/
theorem viewChangeVoter_eq_none {msg : ViewChangeMessage} (h : eng.verifies P (.viewChange msg) = false)
    (slot : U64) : viewChangeVoter P eng.chainId slot (eng.committeeKeysForSlot slot) msg = none := by
  cases hvoter : viewChangeVoter P eng.chainId slot (eng.committeeKeysForSlot slot) msg with
  | none => rfl
  | some i =>
    obtain ⟨-, rfl, -⟩ := viewChangeVoter_eq_some hvoter
    change (viewChangeVoter P eng.chainId msg.slot (eng.committeeKeysForSlot msg.slot) msg).isSome = false at h
    rw [hvoter] at h
    cases h

theorem finalityVoter_eq_none {vote : FinalityVote} (h : eng.verifies P (.finalityVote vote) = false)
    (slot : U64) (blockHash stateRoot : Hash256) :
    finalityVoter P eng.chainId slot blockHash stateRoot (eng.committeeKeysForSlot slot) vote = none := by
  cases hvoter : finalityVoter P eng.chainId slot blockHash stateRoot (eng.committeeKeysForSlot slot) vote with
  | none => rfl
  | some i =>
    have hvalid := hvoter
    unfold finalityVoter at hvalid
    split at hvalid
    next hfields =>
      obtain ⟨rfl, rfl, rfl, -⟩ := hfields
      change (finalityVoter P eng.chainId vote.slot vote.blockHash vote.stateRoot
        (eng.committeeKeysForSlot vote.slot) vote).isSome = false at h
      rw [hvoter] at h
      cases h
    next => cases hvalid

theorem asViewChange_filter (msgs : List EngineMessage) :
    (msgs.filter (eng.verifies P)).filterMap EngineMessage.asViewChange =
      (msgs.filterMap EngineMessage.asViewChange).filter fun msg => eng.verifies P (.viewChange msg) := by
  apply filterMap_filter_comm
  intro m msg hm
  cases m with
  | viewChange msg =>
    cases hm
    rfl
  | finalityVote vote => cases hm

theorem asFinalityVote_filter (msgs : List EngineMessage) :
    (msgs.filter (eng.verifies P)).filterMap EngineMessage.asFinalityVote =
      (msgs.filterMap EngineMessage.asFinalityVote).filter fun vote => eng.verifies P (.finalityVote vote) := by
  apply filterMap_filter_comm
  intro m vote hm
  cases m with
  | viewChange msg => cases hm
  | finalityVote vote =>
    cases hm
    rfl

theorem formFrom_filter (msgs : List EngineMessage) (m : EngineMessage) :
    eng.formFrom P (msgs.filter (eng.verifies P)) m = eng.formFrom P msgs m := by
  cases m with
  | viewChange msg =>
    unfold formFrom tryFormViewChangeQc
    dsimp only
    rw [asViewChange_filter, VoterTally.foldl_filter_of_skip]
    intro tally msg' hinvalid
    exact ViewChangeTally.count_of_none (viewChangeVoter_eq_none hinvalid _) tally
  | finalityVote vote =>
    unfold formFrom tryFormHardFinality
    dsimp only
    rw [asFinalityVote_filter, VoterTally.foldl_filter_of_skip]
    intro tally vote' hinvalid
    exact FinalityTally.count_of_none (finalityVoter_eq_none hinvalid _ _ _) tally

theorem tryFormHardFinality_concat_of_ne {slot : U64} {blockHash stateRoot : Hash256} {keys : List Bytes}
    {vote : FinalityVote} (hne : ¬ (vote.blockHash = blockHash ∧ vote.stateRoot = stateRoot)) (chainId : U64)
    (votes : List FinalityVote) :
    tryFormHardFinality P chainId slot blockHash stateRoot (votes ++ [vote]) keys =
      tryFormHardFinality P chainId slot blockHash stateRoot votes keys := by
  have hnone : finalityVoter P chainId slot blockHash stateRoot keys vote = none := by
    apply if_neg
    rintro ⟨-, hhash, hroot, -⟩
    exact hne ⟨hhash, hroot⟩
  unfold tryFormHardFinality
  rw [foldl_append, foldl_cons, foldl_nil, FinalityTally.count_of_none hnone]

theorem inboxRules_lawful (P : Prims) (eng : MessageEngine) : Lawful (eng.inboxRules P) where
  form_filter := formFrom_filter
  form_concat l m m' c htopic hform := by
    obtain ⟨hkind, hslot⟩ := Prod.mk.inj htopic
    change eng.formFrom P (l ++ [m']) m = some c at hform
    change eng.formFrom P l m = some c ∨ eng.formFrom P (l ++ [m']) m' = some c
    cases m with
    | viewChange msg =>
      cases m' with
      | finalityVote vote => cases hkind
      | viewChange msg' =>
        have hsame : msg'.slot = msg.slot := hslot
        refine .inr ?_
        unfold formFrom at hform ⊢
        dsimp only at hform ⊢
        rw [hsame]
        exact hform
    | finalityVote vote =>
      cases m' with
      | viewChange msg' => cases hkind
      | finalityVote vote' =>
        have hsame : vote'.slot = vote.slot := hslot
        unfold formFrom at hform ⊢
        dsimp only at hform ⊢
        by_cases hblock : vote'.blockHash = vote.blockHash ∧ vote'.stateRoot = vote.stateRoot
        · rw [hsame, hblock.1, hblock.2]
          exact .inr hform
        refine .inl ?_
        rw [filterMap_append] at hform
        change (tryFormHardFinality P eng.chainId vote.slot vote.blockHash vote.stateRoot
          (l.filterMap EngineMessage.asFinalityVote ++ [vote']) _).map _ = some c at hform
        rw [tryFormHardFinality_concat_of_ne hblock] at hform
        exact hform

/-! ### The engine refines its inbox -/

/-- What the rules of the inbox depend on. -/
def SameRules (eng eng' : MessageEngine) : Prop :=
  eng.chainId = eng'.chainId ∧ eng.committeeKeys = eng'.committeeKeys ∧
    eng.prevCommitteeKeys = eng'.prevCommitteeKeys ∧ eng.currentEpoch = eng'.currentEpoch ∧
    eng.consensus.targetHeight = eng'.consensus.targetHeight

theorem SameRules.committeeKeysForSlot {eng eng' : MessageEngine} (h : eng.SameRules eng') (slot : U64) :
    eng.committeeKeysForSlot slot = eng'.committeeKeysForSlot slot := by
  obtain ⟨-, hkeys, hprev, hepoch, -⟩ := h
  unfold ValidatorEngine.committeeKeysForSlot
  rw [hkeys, hprev, hepoch]

theorem SameRules.inboxRules {eng eng' : MessageEngine} (h : eng.SameRules eng') (P : Prims) :
    eng.inboxRules P = eng'.inboxRules P := by
  have hkeys := h.committeeKeysForSlot
  obtain ⟨hchain, -, -, -, htarget⟩ := h
  have hstale : eng.stale = eng'.stale := by
    funext m
    cases m with
    | viewChange msg =>
      unfold stale
      rw [htarget]
    | finalityVote vote => rfl
  have hvalid : eng.verifies P = eng'.verifies P := by
    funext m
    cases m with
    | viewChange msg | finalityVote vote =>
      unfold verifies
      dsimp only
      rw [hchain, hkeys]
  have hform : eng.formFrom P = eng'.formFrom P := by
    funext msgs m
    cases m with
    | viewChange msg | finalityVote vote =>
      unfold formFrom
      dsimp only
      rw [hchain, hkeys]
  unfold MessageEngine.inboxRules
  rw [hstale, hvalid, hform]

section

variable (P : Prims) (eng : MessageEngine)

/-- A vote is dropped, or buffered; the length check never hides a certificate. -/
theorem onFinalityVote_cases (vote : FinalityVote) :
    eng.seenFinalityVotes (vote.slot, vote.voterIndex) = true ∧ eng.onFinalityVote P vote = (eng, none) ∨
    eng.seenFinalityVotes (vote.slot, vote.voterIndex) = false ∧ ∃ finality, eng.onFinalityVote P vote =
        ({ eng.bufferFinalityVote vote with finality := finality },
          tryFormHardFinality P eng.chainId vote.slot vote.blockHash vote.stateRoot
            ((eng.finalityVotes vote.slot).getD [] ++ [vote]) (eng.committeeKeysForSlot vote.slot)) := by
  have hbuffer : ((eng.bufferFinalityVote vote).finalityVotes vote.slot).getD [] =
      (eng.finalityVotes vote.slot).getD [] ++ [vote] := by
    unfold bufferFinalityVote
    dsimp only
    rw [update_self]
    rfl
  unfold onFinalityVote
  split
  next hseen => exact .inl ⟨hseen, rfl⟩
  rename_i hseen
  refine .inr ⟨Bool.not_eq_true _ ▸ hseen, ?_⟩
  dsimp only
  rw [hbuffer]
  split
  next =>
    split
    next cert hform => exact ⟨_, by rw [hform]⟩
    next hform => exact ⟨(eng.bufferFinalityVote vote).finality, by rw [hform]⟩
  next hshort =>
    rw [tryFormHardFinality_eq_none_of_length (Nat.not_le.mp hshort)]
    exact ⟨(eng.bufferFinalityVote vote).finality, rfl⟩

theorem inbox_bufferViewChange (msg : ViewChangeMessage) :
    (eng.bufferViewChange P msg).inbox = accept (eng.inboxRules P) eng.inbox (.viewChange msg) := by
  unfold inbox accept
  congr 1
  · funext ⟨kind, slot⟩
    cases kind with
    | viewChange =>
      simp only [inboxBuffer, bufferViewChange, inboxRules, EngineMessage.kind, EngineMessage.slot, update_apply,
        Prod.mk.injEq, true_and]
      split <;> simp
    | finality => simp [inboxBuffer, bufferViewChange, inboxRules, EngineMessage.kind]
  · funext ⟨kind, voter⟩
    cases kind with
    | viewChange =>
      simp only [inboxSeen, bufferViewChange, inboxRules, EngineMessage.kind, EngineMessage.slot,
        EngineMessage.voterIndex, update_apply, Prod.mk.injEq, true_and]
      split <;> rfl
    | finality => simp [inboxSeen, bufferViewChange, inboxRules, EngineMessage.kind]

theorem inbox_bufferFinalityVote (vote : FinalityVote) :
    (eng.bufferFinalityVote vote).inbox = accept (eng.inboxRules P) eng.inbox (.finalityVote vote) := by
  unfold inbox accept
  congr 1
  · funext ⟨kind, slot⟩
    cases kind with
    | viewChange => simp [inboxBuffer, bufferFinalityVote, inboxRules, EngineMessage.kind]
    | finality =>
      simp only [inboxBuffer, bufferFinalityVote, inboxRules, EngineMessage.kind, EngineMessage.slot, update_apply,
        Prod.mk.injEq, true_and]
      split <;> simp
  · funext ⟨kind, voter⟩
    cases kind with
    | viewChange => simp [inboxSeen, bufferFinalityVote, inboxRules, EngineMessage.kind]
    | finality =>
      simp only [inboxSeen, bufferFinalityVote, inboxRules, EngineMessage.kind, EngineMessage.slot,
        EngineMessage.voterIndex, update_apply, Prod.mk.injEq, true_and]

theorem formFrom_accept (m : EngineMessage) :
    (eng.inboxRules P).form
        ((accept (eng.inboxRules P) eng.inbox m).buffer ((eng.inboxRules P).topic m)) m = match m with
      | .viewChange msg =>
        (tryFormViewChangeQc P eng.chainId msg.slot ((eng.viewChanges msg.slot).getD [] ++ [msg])
          (eng.committeeKeysForSlot msg.slot)).map .viewChange
      | .finalityVote vote => (tryFormHardFinality P eng.chainId vote.slot vote.blockHash vote.stateRoot
            ((eng.finalityVotes vote.slot).getD [] ++ [vote]) (eng.committeeKeysForSlot vote.slot)).map
            .finality := by
  rw [accept_buffer_self]
  cases m with
  | viewChange msg =>
    have hmessages : (((eng.viewChanges msg.slot).getD []).map EngineMessage.viewChange ++
        [EngineMessage.viewChange msg]).filterMap EngineMessage.asViewChange =
          (eng.viewChanges msg.slot).getD [] ++ [msg] := by
      rw [filterMap_append, filterMap_map]
      exact congrArg (· ++ [msg]) filterMap_some
    exact congrArg (fun l => (tryFormViewChangeQc P eng.chainId msg.slot l
      (eng.committeeKeysForSlot msg.slot)).map FormedCert.viewChange) hmessages
  | finalityVote vote =>
    have hvotes : (((eng.finalityVotes vote.slot).getD []).map EngineMessage.finalityVote ++
        [EngineMessage.finalityVote vote]).filterMap EngineMessage.asFinalityVote =
          (eng.finalityVotes vote.slot).getD [] ++ [vote] := by
      rw [filterMap_append, filterMap_map]
      exact congrArg (· ++ [vote]) filterMap_some
    exact congrArg (fun l => (tryFormHardFinality P eng.chainId vote.slot vote.blockHash vote.stateRoot l
      (eng.committeeKeysForSlot vote.slot)).map FormedCert.finality) hvotes

/-- Installing a certificate touches neither the inbox nor its rules. -/
theorem inbox_installViewChangeQc (now slot : U64) (vcQc : ViewChangeQC) :
    eng.SameRules (eng.installViewChangeQc P now slot vcQc) ∧
      (eng.installViewChangeQc P now slot vcQc).inbox = eng.inbox := by
  obtain ⟨-, buffered, deferred, hinstall⟩ | hinstall := installViewChangeQc_cases P eng now slot vcQc
  · rw [hinstall]
    exact ⟨⟨rfl, rfl, rfl, rfl, rfl⟩, rfl⟩
  · rw [hinstall]
    exact ⟨⟨rfl, rfl, rfl, rfl, rfl⟩, rfl⟩

theorem inbox_deliver (now : U64) (m : EngineMessage) :
    eng.SameRules (eng.deliver P now m).1 ∧ receive (eng.inboxRules P) eng.inbox m =
        ((eng.deliver P now m).1.inbox, (eng.deliver P now m).2) := by
  have hform := formFrom_accept P eng m
  unfold receive deliver
  cases m with
  | viewChange msg =>
    have hrecorded : recorded (eng.inboxRules P) eng.inbox (.viewChange msg) =
        (decide (msg.slot < eng.consensus.targetHeight) ||
          (eng.seenViewChanges (msg.slot, msg.voterIndex)).isSome) := rfl
    dsimp only at hform ⊢
    rw [hform, ← inbox_bufferViewChange, hrecorded]
    obtain ⟨hdrop, seen, pending, hkept⟩ | ⟨htarget, hnew, hbuffered⟩ := onViewChange_cases P eng now msg
    · rw [hkept, if_pos (by simpa using hdrop)]
      exact ⟨⟨rfl, rfl, rfl, rfl, rfl⟩, rfl⟩
    rw [if_neg (by simpa [hnew] using htarget)]
    obtain ⟨hnone, hbuffered⟩ | ⟨vcQc, hsome, hinstalled⟩ := hbuffered
    · rw [hnone, hbuffered]
      exact ⟨⟨rfl, rfl, rfl, rfl, rfl⟩, rfl⟩
    rw [hsome, hinstalled]
    obtain ⟨hrules, hinbox⟩ := inbox_installViewChangeQc P (eng.bufferViewChange P msg) now msg.slot vcQc
    exact ⟨hrules, Prod.ext hinbox.symm rfl⟩
  | finalityVote vote =>
    have hrecorded : recorded (eng.inboxRules P) eng.inbox (.finalityVote vote) =
        eng.seenFinalityVotes (vote.slot, vote.voterIndex) := rfl
    dsimp only at hform ⊢
    rw [hform, ← inbox_bufferFinalityVote, hrecorded]
    obtain ⟨hseen, hdropped⟩ | ⟨hseen, finality, hbuffered⟩ := onFinalityVote_cases P eng vote
    · rw [hdropped, if_pos hseen]
      exact ⟨⟨rfl, rfl, rfl, rfl, rfl⟩, rfl⟩
    · rw [hbuffered, if_neg (by rw [hseen]; exact Bool.false_ne_true)]
      exact ⟨⟨rfl, rfl, rfl, rfl, rfl⟩, rfl⟩

end

theorem SameRules.trans {e₁ e₂ e₃ : MessageEngine} (h : e₁.SameRules e₂)
    (h' : e₂.SameRules e₃) : e₁.SameRules e₃ :=
  ⟨h.1.trans h'.1, h.2.1.trans h'.2.1, h.2.2.1.trans h'.2.2.1, h.2.2.2.1.trans h'.2.2.2.1,
    h.2.2.2.2.trans h'.2.2.2.2⟩

theorem inbox_deliverAll (P : Prims) (msgs : List (U64 × EngineMessage)) (eng : MessageEngine) :
    eng.SameRules (eng.deliverAll P msgs) ∧ (eng.deliverAll P msgs).inbox =
        receiveAll (eng.inboxRules P) (msgs.map Prod.snd) eng.inbox ∧
      formedCerts P msgs eng = formed (eng.inboxRules P) (msgs.map Prod.snd) eng.inbox := by
  induction msgs generalizing eng with
  | nil => exact ⟨⟨rfl, rfl, rfl, rfl, rfl⟩, rfl, rfl⟩
  | cons m msgs ih =>
    obtain ⟨hrules, hreceive⟩ := inbox_deliver P eng m.1 m.2
    obtain ⟨hlater, hinbox, hformed⟩ := ih (eng.deliver P m.1 m.2).1
    rw [← hrules.inboxRules P] at hinbox hformed
    refine ⟨hrules.trans hlater, ?_, ?_⟩
    · rw [map_cons, receiveAll_cons, hreceive]
      exact hinbox
    · rw [map_cons, formed, hreceive, ← hformed]
      rfl

theorem asViewChange_buffer (eng : MessageEngine) (slot : U64) :
    (eng.inbox.buffer (.viewChange, slot)).filterMap EngineMessage.asViewChange =
      (eng.viewChanges slot).getD [] := by
  change (((eng.viewChanges slot).getD []).map EngineMessage.viewChange).filterMap _ = _
  rw [filterMap_map]
  exact filterMap_some

theorem asFinalityVote_buffer (eng : MessageEngine) (slot : U64) :
    (eng.inbox.buffer (.finality, slot)).filterMap EngineMessage.asFinalityVote =
      (eng.finalityVotes slot).getD [] := by
  change (((eng.finalityVotes slot).getD []).map EngineMessage.finalityVote).filterMap _ = _
  rw [filterMap_map]
  exact filterMap_some

section

variable {e₁ e₂ : MessageEngine} (h₁ : eng.SameRules e₁) (h₂ : eng.SameRules e₂) (slot : U64)
include h₁ h₂

/-- What is counted depends on the valid buffered messages only. -/
theorem countedViewChanges_congr
    (hvalid : (e₁.inbox.buffer (.viewChange, slot)).filter (eng.verifies P) =
      (e₂.inbox.buffer (.viewChange, slot)).filter (eng.verifies P)) :
    e₁.countedViewChanges P slot = e₂.countedViewChanges P slot := by
  have hcounted : ∀ msgs : List EngineMessage,
      (VoterTally.countAll (w := 128) (viewChangeVoter P eng.chainId slot (eng.committeeKeysForSlot slot))
        ((msgs.filter (eng.verifies P)).filterMap EngineMessage.asViewChange)) =
      (VoterTally.countAll (w := 128) (viewChangeVoter P eng.chainId slot (eng.committeeKeysForSlot slot))
        (msgs.filterMap EngineMessage.asViewChange)) := by
    intro msgs
    rw [asViewChange_filter]
    apply VoterTally.foldl_filter_of_skip
    intro tally msg hinvalid
    unfold VoterTally.count
    rw [viewChangeVoter_eq_none hinvalid]
  unfold countedViewChanges
  rw [← h₁.1, ← h₂.1, ← h₁.committeeKeysForSlot, ← h₂.committeeKeysForSlot, ← asViewChange_buffer,
    ← asViewChange_buffer, ← hcounted, hvalid, hcounted]

theorem countedFinalityVotes_congr (blockHash stateRoot : Hash256)
    (hvalid : (e₁.inbox.buffer (.finality, slot)).filter (eng.verifies P) =
      (e₂.inbox.buffer (.finality, slot)).filter (eng.verifies P)) :
    e₁.countedFinalityVotes P slot blockHash stateRoot = e₂.countedFinalityVotes P slot blockHash stateRoot := by
  have hcounted : ∀ msgs : List EngineMessage,
      (VoterTally.countAll (w := 128) (finalityVoter P eng.chainId slot blockHash stateRoot
        (eng.committeeKeysForSlot slot))
        ((msgs.filter (eng.verifies P)).filterMap EngineMessage.asFinalityVote)) =
      (VoterTally.countAll (w := 128) (finalityVoter P eng.chainId slot blockHash stateRoot
        (eng.committeeKeysForSlot slot))
        (msgs.filterMap EngineMessage.asFinalityVote)) := by
    intro msgs
    rw [asFinalityVote_filter]
    apply VoterTally.foldl_filter_of_skip
    intro tally vote hinvalid
    unfold VoterTally.count
    rw [finalityVoter_eq_none hinvalid]
  unfold countedFinalityVotes
  rw [← h₁.1, ← h₂.1, ← h₁.committeeKeysForSlot, ← h₂.committeeKeysForSlot, ← asFinalityVote_buffer,
    ← asFinalityVote_buffer, ← hcounted, hvalid, hcounted]

end

/-! ### Two runs -/

/-- The message is dropped: its voter is in the dedup record of its kind for the slot, or it is stale. -/
def drops (eng : MessageEngine) (m : EngineMessage) : Bool :=
  eng.stale m || inboxSeen eng.seenViewChanges eng.seenFinalityVotes (m.kind, m.slot, m.voterIndex)

/-- An inserted message is for a slot that has a committee, and comes when it is dropped or when no message of the
original sequence with its kind, slot and voter is still to come. -/
def SuppressesNone (P : Prims) : List (Delivery (U64 × EngineMessage)) → MessageEngine → Prop
  | [], _ => True
  | d :: deliveries, eng =>
    (d.inserted = true → eng.committeeKeysForSlot d.message.2.slot ≠ [] ∧
      (eng.drops d.message.2 = true ∨ ∀ later ∈ deliveries, later.inserted = false →
        (later.message.2.kind, later.message.2.slot, later.message.2.voterIndex) ≠
          (d.message.2.kind, d.message.2.slot, d.message.2.voterIndex))) ∧
      SuppressesNone P deliveries (eng.deliver P d.message.1 d.message.2).1

/-- No certificate can be formed from what is buffered. -/
def NoQuorumYet (P : Prims) (eng : MessageEngine) : Prop :=
  ∀ m, eng.committeeKeysForSlot m.slot ≠ [] →
    eng.formFrom P (inboxBuffer eng.viewChanges eng.finalityVotes (m.kind, m.slot)) m = none

theorem formFrom_nil_eq_none_iff {m : EngineMessage} :
    eng.formFrom P [] m = none ↔ eng.committeeKeysForSlot m.slot ≠ [] := by
  have hquorum : ∀ {α : Type} {keys : List Bytes} {qc : α},
      (if quorumForCommittee keys.length ≤ 0 then some qc else none) = none ↔ keys ≠ [] := by
    intro α keys qc
    have hreached : quorumForCommittee keys.length ≤ 0 ↔ keys = [] := by
      rw [quorumForCommittee_le_iff, ← length_eq_zero_iff]
      omega
    simp [hreached]
  cases m with
  | viewChange msg =>
    unfold formFrom tryFormViewChangeQc
    dsimp only
    rw [Option.map_eq_none_iff]
    exact hquorum
  | finalityVote vote =>
    unfold formFrom tryFormHardFinality
    dsimp only
    rw [Option.map_eq_none_iff]
    exact hquorum

/-- The delivery without the time of its arrival. -/
def untimed (d : Delivery (U64 × EngineMessage)) : Delivery EngineMessage :=
  { inserted := d.inserted, message := d.message.2 }

theorem originals_untimed (deliveries : List (Delivery (U64 × EngineMessage))) :
    originals (deliveries.map untimed) = (originals deliveries).map Prod.snd := by
  induction deliveries with
  | nil => rfl
  | cons d deliveries ih =>
    cases hd : d.inserted with
    | true => rw [map_cons, originals_cons_of_inserted hd, originals_cons_of_inserted (by exact hd), ih]
    | false =>
      rw [map_cons, originals_cons_of_original hd, originals_cons_of_original (by exact hd), ih]
      rfl

theorem SuppressesNone.inbox {deliveries : List (Delivery (U64 × EngineMessage))}
    (h : SuppressesNone P deliveries eng) :
    NoneSuppressed (eng.inboxRules P) (deliveries.map untimed) eng.inbox ∧
      ∀ d ∈ deliveries, d.inserted = true → eng.committeeKeysForSlot d.message.2.slot ≠ [] := by
  induction deliveries generalizing eng with
  | nil => exact ⟨trivial, nofun⟩
  | cons d deliveries ih =>
    obtain ⟨hinserted, hlater⟩ := h
    obtain ⟨hrules, hreceive⟩ := inbox_deliver P eng d.message.1 d.message.2
    obtain ⟨hkeys, hcommittee⟩ := ih hlater
    refine ⟨⟨?_, ?_⟩, List.forall_mem_cons.mpr ⟨fun hd => (hinserted hd).1, ?_⟩⟩
    · intro hd
      refine (hinserted hd).2.imp id ?_
      intro hnone
      exact List.forall_mem_map.mpr hnone
    · change NoneSuppressed _ _ (receive _ _ d.message.2).1
      rw [hreceive, hrules.inboxRules P]
      exact hkeys
    · intro d' hd' hins
      rw [hrules.committeeKeysForSlot]
      exact hcommittee d' hd' hins

end MessageEngine

/-- Inserted messages that do not verify and suppress no message of the original sequence change neither the set
of certificates that are formed nor what is counted. -/
theorem forged_messages_change_nothing {P : Prims} {start : MessageEngine} (hstart : start.NoQuorumYet P)
    (deliveries : List (Delivery (U64 × EngineMessage)))
    (hforged : ∀ d ∈ deliveries, d.inserted = true → start.verifies P d.message.2 = false)
    (hkeys : MessageEngine.SuppressesNone P deliveries start) :
    (∀ cert, cert ∈ MessageEngine.formedCerts P (deliveries.map Delivery.message) start ↔
      cert ∈ MessageEngine.formedCerts P (originals deliveries) start) ∧
    (∀ slot, (start.deliverAll P (deliveries.map Delivery.message)).countedViewChanges P slot =
      (start.deliverAll P (originals deliveries)).countedViewChanges P slot) ∧ ∀ slot blockHash stateRoot,
      (start.deliverAll P (deliveries.map Delivery.message)).countedFinalityVotes P slot blockHash stateRoot =
        (start.deliverAll P (originals deliveries)).countedFinalityVotes P slot blockHash stateRoot := by
  obtain ⟨hnone, hcommittee⟩ := hkeys.inbox
  have hinvalid : InsertionsInvalid (start.inboxRules P) (deliveries.map MessageEngine.untimed) := by
    intro untimed huntimed hins
    obtain ⟨d, hd, rfl⟩ := List.mem_map.mp huntimed
    exact ⟨hforged d hd hins, MessageEngine.formFrom_nil_eq_none_iff.mpr (hcommittee d hd hins)⟩
  have hquorum : ∀ m, (start.inboxRules P).form [] m = none →
      (start.inboxRules P).form (start.inbox.buffer ((start.inboxRules P).topic m)) m = none :=
    fun m hm => hstart m (MessageEngine.formFrom_nil_eq_none_iff.mp hm)
  obtain ⟨hformed, hbuffers⟩ :=
    insertions_change_nothing (MessageEngine.inboxRules_lawful P start) hquorum hinvalid hnone
  have hmessages : (deliveries.map MessageEngine.untimed).map Delivery.message =
      (deliveries.map Delivery.message).map Prod.snd := by
    rw [map_map, map_map]
    rfl
  rw [hmessages, MessageEngine.originals_untimed] at hformed hbuffers
  obtain ⟨hrules, hinbox, hcerts⟩ := MessageEngine.inbox_deliverAll P (deliveries.map Delivery.message) start
  obtain ⟨hrules', hinbox', hcerts'⟩ := MessageEngine.inbox_deliverAll P (originals deliveries) start
  rw [← hcerts, ← hcerts'] at hformed
  rw [← hinbox, ← hinbox'] at hbuffers
  refine ⟨hformed, ?_, ?_⟩
  · intro slot
    exact MessageEngine.countedViewChanges_congr hrules hrules' slot (hbuffers (.viewChange, slot))
  · intro slot blockHash stateRoot
    exact MessageEngine.countedFinalityVotes_congr hrules hrules' slot blockHash stateRoot
      (hbuffers (.finality, slot))

/-- The committee has one member. A message in its name that it did not sign. -/
def forgedViewChange : ViewChangeMessage := { soloViewChange 1 with signature := [] }

/-- The forged message is inserted after the one of the member. -/
def forgedAfter : List (Delivery (U64 × EngineMessage)) :=
  [⟨false, 0, .viewChange (soloViewChange 1)⟩, ⟨true, 0, .viewChange forgedViewChange⟩]

theorem forged_message_after_solo :
    {cert | cert ∈ MessageEngine.formedCerts lucid (forgedAfter.map Delivery.message)
        (idleEngine [lucidKey 1])} =
      {cert | cert ∈ MessageEngine.formedCerts lucid (originals forgedAfter) (idleEngine [lucidKey 1])} := by
  have hstart : (idleEngine [lucidKey 1]).NoQuorumYet lucid := by
    intro m hm
    cases m with
    | viewChange msg | finalityVote vote => exact MessageEngine.formFrom_nil_eq_none_iff.mpr hm
  have hkeys : MessageEngine.SuppressesNone lucid forgedAfter (idleEngine [lucidKey 1]) := by
    refine ⟨nofun, (fun _ => ⟨?_, .inl ?_⟩), trivial⟩
    · decide +kernel
    · decide +kernel
  refine Set.ext (forged_messages_change_nothing hstart forgedAfter ?_ hkeys).1
  intro d hd hins
  rcases List.mem_pair.mp hd with rfl | rfl
  · cases hins
  · decide +kernel

/-- A forged message that comes first suppresses the one of the member: the certificate is not formed. -/
theorem forged_message_suppresses :
    (idleEngine [lucidKey 1]).verifies lucid (.viewChange forgedViewChange) = false ∧
      MessageEngine.formedCerts lucid [(0, .viewChange (soloViewChange 1))] (idleEngine [lucidKey 1]) ≠ [] ∧
      MessageEngine.formedCerts lucid
        [(0, .viewChange forgedViewChange), (0, .viewChange (soloViewChange 1))] (idleEngine [lucidKey 1]) = [] := by
  refine ⟨?_, ?_, ?_⟩
  · decide +kernel
  · decide +kernel
  · decide +kernel

end Pyde
