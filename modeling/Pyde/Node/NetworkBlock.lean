/-
Module: Pyde.Node.NetworkBlock
Purpose: The header check for blocks from the network. A VRF proof and a fallback proof follow one rotation through the
  committee, so a slot and a view have one leader.
Trusted boundary: Prims
-/
import Pyde.Consensus.Hotstuff
import Pyde.Crypto.Vrf
import Pyde.Node.BlockProcessor

namespace Pyde

open ByteCodec List

/-! ### validate_network_block -/

def maxTimestampDriftMs : U64 := 5000

/-- `vrf_proposer_threshold`: no score is above it. -/
def vrfProposerThreshold (_committeeSize : Nat) : U64 := BitVec.allOnes 64

def isView0Proposer (slot : U64) (committeeIndex committeeSize : Nat) : Bool :=
  decide (committeeSize ≠ 0 ∧ slot.toNat % committeeSize = committeeIndex)

/-- Go on with a value, if there is one. -/
def okOr {α : Type} (value : Option α) (error : String) : Except String α :=
  match value with
  | some a => .ok a
  | none => .error error

section

variable (P : Prims) (header : BlockHeader) (keys : List Bytes)

/-- The third check of `validate_network_block`: the proposer leads the slot, by a VRF proof in view 0 or by a fallback
proof in the view that it states. -/
def checkLeader (epochRandomness : FixedBytes 32) (pk : FalconPublicKey) (proposerIdx : Nat) : Except String Unit := do
  if 33 ≤ header.vrfProof.length then
    let output ← okOr (fixedAt 32 header.vrfProof 0) "vrf output bytes are not 32 bytes (audit 392)"
    rejectIf (vrfVerify P pk (epochRandomness.toList ++ toLe header.slot) output (header.vrfProof.drop 32) = false)
      "invalid VRF proof in block header"
    let threshold := vrfProposerThreshold keys.length
    rejectIf (threshold < vrfOutputToScore output)
      ("VRF score " ++ decimal (vrfOutputToScore output) ++ " above proposer threshold " ++ decimal threshold ++
        " for committee size " ++ toString keys.length ++ " (audit 323)")
    rejectIf (isView0Proposer header.slot proposerIdx keys.length = false)
      ("view-0 proposer mismatch: slot " ++ decimal header.slot ++ " expected index " ++
        toString (header.slot.toNat % keys.length) ++ ", got " ++ toString proposerIdx ++ " (audit 410)")
  else if isFallbackProof header.vrfProof then
    let (proofSlot, proofView) ← okOr (decodeFallbackProof header.vrfProof)
      ("fallback proof at slot " ++ decimal header.slot ++ " is malformed (audit-234 L2)")
    rejectIf (proofSlot ≠ header.slot)
      ("fallback proof slot " ++ decimal proofSlot ++ " does not match header slot " ++ decimal header.slot ++
        " (audit-234 L2)")
    let expectedLeader := fallbackLeaderIndex header.slot proofView keys.length
    rejectIf (proposerIdx ≠ expectedLeader)
      ("fallback proposer at committee index " ++ toString proposerIdx ++ " is not the deterministic leader (expected " ++
        toString expectedLeader ++ ") for (slot " ++ decimal header.slot ++ ", view " ++ decimal proofView ++
        ") (audit-234 L2)")
  else
    .error ("block at slot " ++ decimal header.slot ++ " has invalid vrf_proof: not a VRF proof and not a fallback " ++
      "proof (len=" ++ toString header.vrfProof.length ++ ") (audit-234 L2)")

def validateNetworkBlock (chainId : U64) (proposerSignature : Bytes) (qcPreviousCommitteeKeys : Option (List Bytes))
    (epochRandomness : FixedBytes 32) (expectedParentHash : Option Hash256) (parentTimestamp : Option U64)
    (nowMs : U64) : Except String Unit :=
  let slot := header.slot
  if slot = 0 then .ok ()
  else do
    (match expectedParentHash with
    | some expected =>
      rejectIf (header.parentHash ≠ expected)
        ("parent_hash mismatch at slot " ++ decimal slot ++ ": header claims " ++ hexEncode header.parentHash.toList ++
          " but local canonical parent is " ++ hexEncode expected.toList ++ " (audit 321)")
    | none => .ok ())
    (match parentTimestamp with
    | some parentTs =>
      rejectIf (header.timestamp ≤ parentTs)
        ("timestamp " ++ decimal header.timestamp ++ " not strictly greater than parent timestamp " ++
          decimal parentTs ++ " at slot " ++ decimal slot ++ " (audit 325)")
    | none => .ok ())
    rejectIf (satAdd nowMs maxTimestampDriftMs < header.timestamp)
      ("timestamp " ++ decimal header.timestamp ++ " exceeds local now_ms " ++ decimal nowMs ++ " + drift " ++
        decimal maxTimestampDriftMs ++ " at slot " ++ decimal slot ++ " (audit 325)")
    let proposerIdx ← okOr (keys.findIdx? fun key => deriveEoaAddress P key = header.proposer)
      ("proposer " ++ hexEncode header.proposer.toList ++ " is not in the committee")
    rejectIf (proposerSignature = []) "block missing proposer signature"
    let pk ← okOr (FalconPublicKey.fromBytes (keys.getD proposerIdx [])) "invalid committee public key"
    let sig ← okOr (FalconSignature.fromBytes proposerSignature) "invalid proposer signature format"
    rejectIf (P.falconVerify pk (proposerSignMessage chainId slot (header.hash P)) sig = false)
      "proposer signature verification failed"
    checkLeader P header keys epochRandomness pk proposerIdx
    let qc := header.qcPrevious
    let qcKeys := qcPreviousCommitteeKeys.getD keys
    rejectIf (0 < qc.slot ∧ qc.hasQuorumFor qcKeys.length = false)
      ("previous QC at slot " ++ decimal qc.slot ++ " has insufficient votes (" ++ toString qc.voteCount ++ "/" ++
        toString (quorumForCommittee qcKeys.length) ++ ")")
    rejectIf (verifyQc P qc qcKeys chainId = false)
      ("previous QC at slot " ++ decimal qc.slot ++ " has invalid signatures (audit 311)")

end

/-- The view that a proof of leadership is for: the one that a fallback proof states, else view 0. -/
def provenView (vrfProof : Bytes) : U64 :=
  if 33 ≤ vrfProof.length then 0 else ((decodeFallbackProof vrfProof).map Prod.snd).getD 0

/-! ### One leader -/

theorem okOr_ok {α β : Type} {value : Option α} {error : String} {next : α → Except String β} {b : β} :
    (okOr value error >>= next) = .ok b ↔ ∃ a, value = some a ∧ next a = .ok b := by
  cases value <;> simp [okOr, bind, Except.bind]

/-- View 0 follows the rule of the later views. -/
theorem isView0Proposer_iff {slot : U64} {i n : Nat} :
    isView0Proposer slot i n = true ↔ n ≠ 0 ∧ fallbackLeaderIndex slot 0 n = i := by
  unfold isView0Proposer fallbackLeaderIndex
  rw [decide_eq_true_iff]
  refine and_congr_right fun hne => ?_
  rw [if_neg hne, show slot + 0 = slot from BitVec.add_zero slot]

section

variable {P : Prims} {header : BlockHeader} {keys : List Bytes}

theorem leader_of_checkLeader {epochRandomness : FixedBytes 32} {pk : FalconPublicKey} {proposerIdx : Nat}
    (h : checkLeader P header keys epochRandomness pk proposerIdx = .ok ()) :
    proposerIdx = fallbackLeaderIndex header.slot (provenView header.vrfProof) keys.length := by
  unfold checkLeader at h
  unfold provenView
  split at h
  · next hlong =>
    simp only [okOr_ok, checks_ok, rejectIf_ok, Bool.not_eq_false] at h
    obtain ⟨_, _, _, _, hview⟩ := h
    rw [if_pos hlong]
    exact (isView0Proposer_iff.mp hview).2.symm
  · next hshort =>
    split at h
    · simp only [okOr_ok, checks_ok, rejectIf_ok, ne_eq, Decidable.not_not] at h
      obtain ⟨decoded, hdecoded, _, hleader⟩ := h
      rw [if_neg hshort, hdecoded]
      exact hleader
    · cases h

theorem leader_of_validateNetworkBlock {chainId : U64} {proposerSignature : Bytes}
    {qcPreviousCommitteeKeys : Option (List Bytes)} {epochRandomness : FixedBytes 32}
    {expectedParentHash : Option Hash256} {parentTimestamp : Option U64} {nowMs : U64} (hslot : header.slot ≠ 0)
    (h : validateNetworkBlock P header keys chainId proposerSignature qcPreviousCommitteeKeys epochRandomness
      expectedParentHash parentTimestamp nowMs = .ok ()) :
    header.proposer = deriveEoaAddress P (keys.getD
      (fallbackLeaderIndex header.slot (provenView header.vrfProof) keys.length) []) := by
  unfold validateNetworkBlock at h
  dsimp only at h
  rw [if_neg hslot] at h
  simp only [okOr_ok, checks_ok] at h
  obtain ⟨_, _, _, i, hfound, _, pk, _, _, _, _, hleader, _⟩ := h
  obtain ⟨hlt, haddr, _⟩ := List.findIdx?_eq_some_iff_getElem.mp hfound
  rw [← leader_of_checkLeader hleader, getD_eq_getElem _ _ hlt]
  exact (of_decide_eq_true haddr).symm

end

/-- As many views in a row as there are members go once through the committee. -/
theorem leaders_eq_rotate (keys : List Bytes) {slot view : U64}
    (h : slot.toNat + view.toNat + keys.length < 2 ^ 64) :
    ((List.range keys.length).map fun i => keys.getD
      (fallbackLeaderIndex slot (view + BitVec.ofNat 64 i) keys.length) []) =
      keys.rotate (slot.toNat + view.toNat) := by
  refine ext_getElem (by simp) fun i hi hi' => ?_
  rw [length_map, length_range] at hi
  have hsum : (slot + (view + BitVec.ofNat 64 i)).toNat = i + (slot.toNat + view.toNat) := by
    rw [BitVec.toNat_add, BitVec.toNat_add, BitVec.toNat_ofNat]
    omega
  rw [getElem_map, getElem_range, getElem_rotate, fallbackLeaderIndex, if_neg (by omega), hsum,
    getD_eq_getElem _ _ (Nat.mod_lt _ (by omega))]

/-- All accepted headers of a slot and a view have the same proposer. Over as many views as the committee has members,
each member leads once, and the rule of the fallback agrees with that of view 0. -/
theorem one_leader_per_view (P : Prims) (keys : List Bytes) :
    (∀ slot view : U64, slot ≠ 0 → {proposer | ∃ header : BlockHeader, header.slot = slot ∧
      provenView header.vrfProof = view ∧ header.proposer = proposer ∧ ∃ chainId sig qcKeys randomness parent
        parentTimestamp nowMs, validateNetworkBlock P header keys chainId sig qcKeys randomness parent
          parentTimestamp nowMs = .ok ()}.Subsingleton) ∧
    (∀ slot view : U64, slot.toNat + view.toNat + keys.length < 2 ^ 64 →
      ((List.range keys.length).map fun i => keys.getD
        (fallbackLeaderIndex slot (view + BitVec.ofNat 64 i) keys.length) []).Perm keys) ∧
    ∀ slot i, isView0Proposer slot i keys.length = true ↔
      keys ≠ [] ∧ fallbackLeaderIndex slot 0 keys.length = i := by
  refine ⟨?_, fun slot view h => ?_, fun slot i => ?_⟩
  · rintro _ _ hslot _ ⟨header, rfl, rfl, rfl, _, _, _, _, _, _, _, h⟩ _
      ⟨header', hsame, hview, rfl, _, _, _, _, _, _, _, h'⟩
    rw [leader_of_validateNetworkBlock hslot h, leader_of_validateNetworkBlock (hsame ▸ hslot) h', hsame, hview]
  · rw [leaders_eq_rotate keys h]
    exact rotate_perm _ _
  · rw [isView0Proposer_iff, ne_eq, length_eq_zero_iff]

end Pyde
