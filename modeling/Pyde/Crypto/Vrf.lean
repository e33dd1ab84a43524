/-
Module: Pyde.Crypto.Vrf
Purpose: The verifiable random function made of Poseidon2 and FALCON, which outputs `vrf_verify` accepts under one
  key, and the selection of a committee by score.
Trusted boundary: Prims
-/
import Pyde.Crypto
import Mathlib.Data.List.Sort
import Mathlib.Data.List.Dedup
import Mathlib.Data.Prod.Lex

namespace Pyde

open ByteCodec List

/-! ### Proving and verifying -/

/-- `b"pyde-vrf-sk-fingerprint-v1"`. -/
def vrfFingerprintDomain : Bytes := ascii "pyde-vrf-sk-fingerprint-v1"

def vrfOutputDomain : Bytes := ascii "pyde-vrf-output-v1"

def vrfDomainProof : Bytes := ascii "pyde-vrf-proof-v1"

section

variable (P : Prims)

/-- `compute_vrf_output`: a function of secret key and input. -/
def computeVrfOutput (sk : FalconSecretKey) (input : Bytes) : Hash256 :=
  let skFingerprint := P.poseidon2Hash (vrfFingerprintDomain ++ sk.bytes)
  P.poseidon2Hash (vrfOutputDomain ++ (skFingerprint.toList ++ input))

def buildProofMessage (pk : FalconPublicKey) (input : Bytes) (output : Hash256) : Bytes :=
  vrfDomainProof ++ (pk.bytes ++ (input ++ output.toList))

def vrfProve (pk : FalconPublicKey) (sk : FalconSecretKey) (input coins : Bytes) : Option (Hash256 × Bytes) :=
  let output := computeVrfOutput P sk input
  (P.falconSign sk (buildProofMessage pk input output) coins).map fun sig => (output, sig.bytes)

/-- `vrf_verify`: the output is part of the signed message, and nothing else is said about it. -/
def vrfVerify (pk : FalconPublicKey) (input : Bytes) (output : Hash256) (proof : Bytes) : Bool :=
  match FalconSignature.fromBytes proof with
  | none => false
  | some sig => P.falconVerify pk (buildProofMessage pk input output) sig

end

/-! ### Committee scores -/

/-- The domain tag `b"PYDE_COMMITTEE_VRF_V1\0"`. -/
def committeeVrfDomain : Bytes := ascii "PYDE_COMMITTEE_VRF_V1" ++ [0]

def committeeVrfInput (epoch : U64) (epochSeed : FixedBytes 32) : Bytes :=
  committeeVrfDomain ++ (toLe epoch ++ epochSeed.toList)

def verifyCommitteeScore (P : Prims) (vrfPk : FalconPublicKey) (epoch : U64) (epochSeed : FixedBytes 32)
    (output : Hash256) (proof : Bytes) : Bool :=
  vrfVerify P vrfPk (committeeVrfInput epoch epochSeed) output proof

def vrfOutputToScore (output : Hash256) : U64 := ofLe 64 (output.toList.take 8)

/-! ### Which outputs are accepted -/

/-- The signatures under a key that anybody knows, and the messages that the holder of the key has signed. Every
known signature is for one of these messages, and every one of them has a known signature. -/
structure SigningHistory (P : Prims) (pk : FalconPublicKey) where
  signed : Set Bytes
  known : Set Bytes
  unforged : ∀ proof ∈ known, ∀ sig, FalconSignature.fromBytes proof = some sig →
    ∀ msg, P.falconVerify pk msg sig = true → msg ∈ signed
  published : ∀ msg ∈ signed, ∃ proof ∈ known, ∃ sig, FalconSignature.fromBytes proof = some sig ∧
    P.falconVerify pk msg sig = true

theorem buildProofMessage_inj {pk : FalconPublicKey} {input input' : Bytes} {output output' : Hash256}
    (h : buildProofMessage pk input output = buildProofMessage pk input' output') :
    input = input' ∧ output = output' := by
  have hrest := append_cancel_left (append_cancel_left h)
  obtain ⟨hinput, houtput⟩ := append_inj' hrest (by rw [output.toList_length, output'.toList_length])
  exact ⟨hinput, Subtype.ext houtput⟩

theorem vrfVerify_iff {P : Prims} {pk : FalconPublicKey} {input proof : Bytes} {output : Hash256} :
    vrfVerify P pk input output proof = true ↔ ∃ sig, FalconSignature.fromBytes proof = some sig ∧
      P.falconVerify pk (buildProofMessage pk input output) sig = true := by
  unfold vrfVerify
  split
  next hnone =>
    rw [hnone]
    exact ⟨nofun, (fun ⟨_, h, _⟩ => nomatch h)⟩
  rename_i sig hsome
  rw [hsome]
  constructor
  · exact fun h => ⟨sig, rfl, h⟩
  · rintro ⟨sig', hsig', h⟩
    cases hsig'
    exact h

namespace SigningHistory

variable {P : Prims} {pk : FalconPublicKey}

/-- The holder has signed at most one proof message for the input. -/
def SignsOneOutput (history : SigningHistory P pk) (input : Bytes) : Prop :=
  ∀ output output', buildProofMessage pk input output ∈ history.signed →
    buildProofMessage pk input output' ∈ history.signed → output = output'

/-- A holder that signs proof messages in `vrf_prove` only signs one output for each input. -/
theorem signsOneOutput_of_vrfProve (history : SigningHistory P pk) (sk : FalconSecretKey)
    (hproved : ∀ msg ∈ history.signed, ∃ input coins output proof,
      vrfProve P pk sk input coins = some (output, proof) ∧ msg = buildProofMessage pk input output)
    (input : Bytes) : history.SignsOneOutput input := by
  have honly : ∀ output, buildProofMessage pk input output ∈ history.signed →
      output = computeVrfOutput P sk input := by
    intro output hsigned
    obtain ⟨input', coins, output', proof, hprove, hmsg⟩ := hproved _ hsigned
    obtain ⟨rfl, rfl⟩ := buildProofMessage_inj hmsg
    obtain ⟨sig, -, hpair⟩ := Option.map_eq_some_iff.mp hprove
    exact (congrArg Prod.fst hpair).symm
  intro output output' hsigned hsigned'
  rw [honly output hsigned, honly output' hsigned']

theorem exists_accepted_iff (history : SigningHistory P pk) (input : Bytes) (output : Hash256) :
    (∃ proof ∈ history.known, vrfVerify P pk input output proof = true) ↔
      buildProofMessage pk input output ∈ history.signed := by
  constructor
  · rintro ⟨proof, hknown, hverify⟩
    obtain ⟨sig, hsig, hvalid⟩ := vrfVerify_iff.mp hverify
    exact history.unforged proof hknown sig hsig _ hvalid
  · intro hsigned
    obtain ⟨proof, hknown, sig, hsig, hvalid⟩ := history.published _ hsigned
    exact ⟨proof, hknown, vrfVerify_iff.mpr ⟨sig, hsig, hvalid⟩⟩

end SigningHistory

/-- Under a key, one output at most is accepted for an input exactly if the holder of the key has signed one output
at most. In particular this holds for the scores of a committee. -/
theorem vrf_unique_iff {P : Prims} {pk : FalconPublicKey} (history : SigningHistory P pk) (input : Bytes) :
    (∀ output output', ∀ proof ∈ history.known, ∀ proof' ∈ history.known,
      vrfVerify P pk input output proof = true → vrfVerify P pk input output' proof' = true → output = output') ↔
    history.SignsOneOutput input := by
  constructor
  · intro hunique output output' hsigned hsigned'
    obtain ⟨proof, hknown, hverify⟩ := (history.exists_accepted_iff input output).mpr hsigned
    obtain ⟨proof', hknown', hverify'⟩ := (history.exists_accepted_iff input output').mpr hsigned'
    exact hunique output output' proof hknown proof' hknown' hverify hverify'
  · intro hone output output' proof hknown proof' hknown' hverify hverify'
    apply hone
    · exact (history.exists_accepted_iff input output).mp ⟨proof, hknown, hverify⟩
    · exact (history.exists_accepted_iff input output').mp ⟨proof', hknown', hverify'⟩

/-! ### A holder with two outputs -/

/-- A scheme for proof messages whose signatures show the first byte of the key and what follows the key in the
message. -/
def readableProofs : Prims :=
  { lucid with
    falconVerify := fun pk msg sig => decide (sig.bytes.head? = pk.bytes.head? ∧
      msg = vrfDomainProof ++ (pk.bytes ++ sig.bytes.drop 500)) }

def readableProof (tag : Byte) (input : Bytes) (output : Hash256) : Bytes :=
  tag :: List.replicate 499 0 ++ (input ++ output.toList)

def readablePk (tag : Byte) : FalconPublicKey := ⟨lucidKey tag⟩

theorem readableProofs_verify_iff {tag : Byte} {input : Bytes} {output : Hash256} {sig : FalconSignature}
    {msg : Bytes} (hsig : FalconSignature.fromBytes (readableProof tag input output) = some sig) :
    readableProofs.falconVerify (readablePk tag) msg sig = true ↔
      msg = buildProofMessage (readablePk tag) input output := by
  have hbytes : sig.bytes = readableProof tag input output := by
    unfold FalconSignature.fromBytes at hsig
    split at hsig
    · cases hsig
      rfl
    · cases hsig
  have hdrop : (readableProof tag input output).drop 500 = input ++ output.toList :=
    drop_left' (by rw [length_cons, length_replicate])
  have hhead : (readableProof tag input output).head? = (readablePk tag).bytes.head? := rfl
  unfold readableProofs
  dsimp only
  rw [decide_eq_true_iff, hbytes, hdrop, hhead]
  exact ⟨fun h => h.2, fun h => ⟨rfl, h⟩⟩

theorem readableProof_fromBytes {input : Bytes} (h : input.length ≤ 400) (tag : Byte) (output : Hash256) :
    ∃ sig, FalconSignature.fromBytes (readableProof tag input output) = some sig := by
  have hlength : (readableProof tag input output).length = 499 + 1 + (input.length + 32) := by
    rw [readableProof, length_append, length_cons, length_replicate, length_append, output.toList_length]
  exact ⟨_, if_pos ⟨by omega, by omega⟩⟩

/-- The holder signs two outputs for the committee of epoch 1. -/
def twoOutputs : SigningHistory readableProofs (readablePk 1) where
  signed := {msg | ∃ b, (b = 0 ∨ b = 1) ∧
    msg = buildProofMessage (readablePk 1) (committeeVrfInput 1 zero32) (fill32 b)}
  known := {proof | ∃ b, (b = 0 ∨ b = 1) ∧ proof = readableProof 1 (committeeVrfInput 1 zero32) (fill32 b)}
  unforged := by
    rintro _ ⟨b, hb, rfl⟩ sig hsig msg hvalid
    exact ⟨b, hb, (readableProofs_verify_iff hsig).mp hvalid⟩
  published := by
    rintro _ ⟨b, hb, rfl⟩
    have hlength : (committeeVrfInput 1 zero32).length ≤ 400 := by decide
    obtain ⟨sig, hsig⟩ := readableProof_fromBytes hlength 1 (fill32 b)
    exact ⟨_, ⟨b, hb, rfl⟩, sig, hsig, (readableProofs_verify_iff hsig).mpr rfl⟩

/-- Both outputs are accepted, and they are different scores. -/
theorem two_scores_accepted :
    ∃ proof ∈ twoOutputs.known, ∃ proof' ∈ twoOutputs.known,
      verifyCommitteeScore readableProofs (readablePk 1) 1 zero32 (fill32 0) proof = true ∧
      verifyCommitteeScore readableProofs (readablePk 1) 1 zero32 (fill32 1) proof' = true ∧
      vrfOutputToScore (fill32 0) ≠ vrfOutputToScore (fill32 1) := by
  have haccepted : ∀ b, (b = 0 ∨ b = 1) → ∃ proof ∈ twoOutputs.known,
      vrfVerify readableProofs (readablePk 1) (committeeVrfInput 1 zero32) (fill32 b) proof = true :=
    fun b hb => (twoOutputs.exists_accepted_iff _ _).mpr ⟨b, hb, rfl⟩
  obtain ⟨proof, hknown, hverify⟩ := haccepted 0 (.inl rfl)
  obtain ⟨proof', hknown', hverify'⟩ := haccepted 1 (.inr rfl)
  exact ⟨proof, hknown, proof', hknown', hverify, hverify', by decide⟩

structure CommitteeReveal where
  validatorIndex : Nat
  vrfPk : FalconPublicKey
  output : Hash256
  proof : Bytes
deriving DecidableEq

section

variable (P : Prims) (epoch : U64) (epochSeed : FixedBytes 32)

/-- The reveals that pass the check, in the order of the list. -/
def validReveals (reveals : List CommitteeReveal) : List CommitteeReveal :=
  reveals.filter fun r => verifyCommitteeScore P r.vrfPk epoch epochSeed r.output r.proof

/-- `scored`: what the valid reveals are sorted by. -/
def scored (reveals : List CommitteeReveal) : List (Nat ×ₗ Nat) :=
  (validReveals P epoch epochSeed reveals).map fun r => toLex ((vrfOutputToScore r.output).toNat, r.validatorIndex)

/-- `select_top_k_by_vrf`: lowest score first, ties by index. -/
def selectTopKByVrf (reveals : List CommitteeReveal) (k : Nat) : List Nat :=
  (((scored P epoch epochSeed reveals).insertionSort (· ≤ ·)).take k).map fun score => (ofLex score).2

def revealers (reveals : List CommitteeReveal) : List Nat :=
  (validReveals P epoch epochSeed reveals).map CommitteeReveal.validatorIndex

/-- What a selection of `k` seats is to be: as many different validators as there are, up to `k`, whatever the order of
the list. -/
structure OneSeatEach (reveals : List CommitteeReveal) (k : Nat) : Prop where
  count : (selectTopKByVrf P epoch epochSeed reveals k).length =
      min k (revealers P epoch epochSeed reveals).dedup.length
  distinct : (selectTopKByVrf P epoch epochSeed reveals k).Nodup
  order : ∀ reveals', reveals'.Perm reveals →
    selectTopKByVrf P epoch epochSeed reveals' k = selectTopKByVrf P epoch epochSeed reveals k

variable {P epoch epochSeed}

/-- Scores and indices are sorted by a linear order, so the list's own order is lost. -/
theorem selectTopKByVrf_perm {reveals reveals' : List CommitteeReveal} (h : reveals'.Perm reveals) (k : Nat) :
    selectTopKByVrf P epoch epochSeed reveals' k = selectTopKByVrf P epoch epochSeed reveals k := by
  have hscored : (scored P epoch epochSeed reveals').Perm (scored P epoch epochSeed reveals) := (h.filter _).map _
  have hsorted := ((perm_insertionSort (· ≤ ·) _).trans hscored).trans (perm_insertionSort (· ≤ ·) _).symm
  unfold selectTopKByVrf
  rw [hsorted.eq_of_pairwise' (pairwise_insertionSort _ _) (pairwise_insertionSort _ _)]

theorem selectTopKByVrf_all_perm (reveals : List CommitteeReveal) :
    (selectTopKByVrf P epoch epochSeed reveals (revealers P epoch epochSeed reveals).length).Perm
      (revealers P epoch epochSeed reveals) := by
  unfold selectTopKByVrf
  rw [take_of_length_le (by simp [revealers, scored])]
  refine ((perm_insertionSort (· ≤ ·) _).map _).trans (List.Perm.of_eq ?_)
  rw [scored, map_map]
  rfl

theorem selectTopKByVrf_take (reveals : List CommitteeReveal) (k : Nat) :
    selectTopKByVrf P epoch epochSeed reveals k =
      (selectTopKByVrf P epoch epochSeed reveals (revealers P epoch epochSeed reveals).length).take k := by
  unfold selectTopKByVrf
  rw [← map_take, take_take]
  refine congrArg _ (List.take_eq_take_iff.mpr ?_)
  simp [revealers, scored]

/-- Every selection gives one seat to a validator exactly when no validator has two valid reveals in the list. -/
theorem one_seat_per_validator_iff (P : Prims) (epoch : U64) (epochSeed : FixedBytes 32)
    (reveals : List CommitteeReveal) :
    (∀ k, OneSeatEach P epoch epochSeed reveals k) ↔ (revealers P epoch epochSeed reveals).Nodup := by
  have hall : (selectTopKByVrf P epoch epochSeed reveals _).Perm _ := selectTopKByVrf_all_perm reveals
  constructor
  · intro h
    exact hall.nodup_iff.mp (h _).distinct
  · intro hnodup k
    refine ⟨?_, ?_, fun _ hperm => selectTopKByVrf_perm hperm k⟩
    · rw [selectTopKByVrf_take, length_take, hall.length_eq, hnodup.dedup]
    · rw [selectTopKByVrf_take]
      exact (hall.nodup_iff.mpr hnodup).sublist (take_sublist _ _)

def sampleReveal : CommitteeReveal where
  validatorIndex := 5
  vrfPk := readablePk 1
  output := fill32 0
  proof := readableProof 1 (committeeVrfInput 1 zero32) (fill32 0)

/-- Listed twice, it takes both seats of a committee of two. -/
theorem repeated_reveal_takes_two_seats :
    selectTopKByVrf readableProofs 1 zero32 [sampleReveal, sampleReveal] 2 = [5, 5] ∧
      ¬ OneSeatEach readableProofs 1 zero32 [sampleReveal, sampleReveal] 2 := by
  have hseats : selectTopKByVrf readableProofs 1 zero32 [sampleReveal, sampleReveal] 2 = [5, 5] := by decide +kernel
  refine ⟨hseats, fun h => ?_⟩
  have hdistinct := h.distinct
  rw [hseats] at hdistinct
  revert hdistinct
  decide

end

end Pyde
