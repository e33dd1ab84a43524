/-
Module: Pyde.Tx.MultisigAuthorization
Purpose: What stands behind a treasury spend, a rotation of the signers, a pause and a resumption: signatures of a
  threshold of the signers over this operation, under a nonce that is used once. A pause holds until then.
Trusted boundary: Prims
-/
import Pyde.Tx.SystemTransactions

namespace Pyde

open ByteCodec StateProgram List

/-! ### What is signed -/

/-- An operation of the multisig, with its parameters. -/
inductive MultisigOperation where
  | spend (body : MultisigSpend)
  | rotate (body : MultisigRotate)
  | pause (durationSlots : U64)
  | resume

variable {op : MultisigOperation} {chainId : U64}

namespace MultisigOperation

/-- What follows the chain and the nonce in the signed message. -/
def bytes : MultisigOperation → Bytes
  | spend body => body.target.toList ++ (toLe body.value ++ body.dataDigest.toList)
  | rotate body => BitVec.ofNat 8 body.newSignerPks.length :: (body.newSignerPks.flatten ++ [body.newThreshold])
  | pause durationSlots => ascii "PAUSE" ++ toLe durationSlots
  | resume => ascii "RESUME"

/-- The string whose hash is signed. -/
def preimage (op : MultisigOperation) (nonce chainId : U64) : Bytes :=
  toLe chainId ++ (toLe nonce ++ op.bytes)

def signingBytes (P : Prims) (op : MultisigOperation) (nonce chainId : U64) : Bytes :=
  multisigSigningBytes P nonce chainId op.bytes

/-- The shape of what the decoders return. -/
def WellFormed : MultisigOperation → Prop
  | rotate body => 0 < body.newSignerPks.length ∧ body.newSignerPks.length ≤ maxSigners ∧
      ∀ pk ∈ body.newSignerPks, pk.length = FalconPublicKey.size
  | _ => True

theorem length_flatten_keys {pks : List Bytes} (h : ∀ pk ∈ pks, pk.length = FalconPublicKey.size) :
    pks.flatten.length = pks.length * FalconPublicKey.size := by
  rw [← flatMap_id]
  exact length_flatMap_blocks h

/-- Keys of one length can be told apart in their concatenation. -/
theorem flatten_keys_inj {pks pks' : List Bytes} (h : ∀ pk ∈ pks, pk.length = FalconPublicKey.size)
    (h' : ∀ pk ∈ pks', pk.length = FalconPublicKey.size) (hlen : pks.length = pks'.length)
    (heq : pks.flatten = pks'.flatten) : pks = pks' := by
  rw [← flatMap_id, ← flatMap_id, ← append_nil (flatMap _ _), ← append_nil (flatMap _ pks')] at heq
  refine ((flatMap_append_inj (fun pk hpk pk' hpk' => ?_) hlen).mp heq).1
  exact append_eq_append_iff_of_length ((h pk hpk).trans (h' pk' hpk').symm)

def byteCount : MultisigOperation → Nat
  | spend _ => 80
  | rotate body => 2 + body.newSignerPks.length * 897
  | pause _ => 13
  | resume => 6

theorem length_bytes (h : op.WellFormed) : op.bytes.length = op.byteCount := by
  cases op with
  | spend body => simp [bytes, byteCount]
  | rotate body =>
    rw [bytes, length_cons, length_append, length_flatten_keys h.2.2, length_singleton, byteCount, FalconPublicKey.size]
    omega
  | pause durationSlots | resume => simp [bytes, ascii, byteCount]

/-- The four kinds have different lengths, and each determines its parameters. -/
theorem bytes_inj {other : MultisigOperation} (h : op.WellFormed) (h' : other.WellFormed)
    (heq : op.bytes = other.bytes) : op = other := by
  have hlen := congrArg List.length heq
  rw [length_bytes h, length_bytes h'] at hlen
  cases op with
  | spend body =>
    cases other with
    | spend body' =>
      rw [bytes, bytes, toList_append_inj, toLe_append_inj (by decide)] at heq
      obtain ⟨htarget, hvalue, hdigest⟩ := heq
      cases body
      cases body'
      simp_all [List.Vector.toList_injective.eq_iff]
    | rotate body' =>
      have hpos := h'.1
      simp only [byteCount] at hlen
      omega
    | pause durationSlots => cases hlen
    | resume => cases hlen
  | rotate body =>
    have hpos := h.1
    cases other with
    | spend body' =>
      simp only [byteCount] at hlen
      omega
    | rotate body' =>
      have hcount : body.newSignerPks.length = body'.newSignerPks.length := by
        simp only [byteCount] at hlen
        omega
      rw [bytes, bytes, List.cons.injEq] at heq
      obtain ⟨hkeys, hthreshold⟩ := append_inj' heq.2 rfl
      have hpks := flatten_keys_inj h.2.2 h'.2.2 hcount hkeys
      cases body
      cases body'
      simp_all
    | pause durationSlots | resume =>
      simp only [byteCount] at hlen
      omega
  | pause durationSlots =>
    cases other with
    | spend body' => cases hlen
    | rotate body' =>
      have hpos := h'.1
      simp only [byteCount] at hlen
      omega
    | pause durationSlots' =>
      have hduration := append_cancel_left heq
      rw [toLe_inj (by decide)] at hduration
      rw [hduration]
    | resume => cases hlen
  | resume =>
    cases other with
    | spend body' => cases hlen
    | rotate body' =>
      have hpos := h'.1
      simp only [byteCount] at hlen
      omega
    | pause durationSlots => cases hlen
    | resume => rfl

/-- The signed string determines kind, parameters, nonce and chain. -/
theorem preimage_inj {other : MultisigOperation} (h : op.WellFormed) (h' : other.WellFormed)
    {nonce nonce' chainId' : U64} (heq : op.preimage nonce chainId = other.preimage nonce' chainId') :
    op = other ∧ nonce = nonce' ∧ chainId = chainId' := by
  have hwidth : 8 ∣ 64 := by decide
  unfold preimage at heq
  rw [toLe_append_inj hwidth, toLe_append_inj hwidth] at heq
  obtain ⟨hchain, hnonce, hbytes⟩ := heq
  exact ⟨bytes_inj h h' hbytes, hnonce, hchain⟩

end MultisigOperation

/-- The operation that a transaction of one of the four kinds asks for, and its signatures. -/
def Transaction.multisigOperation (tx : Transaction) : Option (MultisigOperation × List SigEntry) :=
  match tx.txType with
  | .multisigTx =>
    match MultisigPayload.decode tx.data with
    | some (.spend body sigs) => some (.spend body, sigs)
    | _ => none
  | .rotateMultisig =>
    match MultisigPayload.decode tx.data with
    | some (.rotate body sigs) => some (.rotate body, sigs)
    | _ => none
  | .emergencyPause =>
    (EmergencyPausePayload.decode tx.data).map fun payload => (.pause payload.durationSlots, payload.sigs)
  | .emergencyResume => (EmergencyResumePayload.decode tx.data).map fun payload => (.resume, payload.sigs)
  | _ => none

theorem wellFormed_of_decodeBody {bytes rest : Bytes} {body : MultisigRotate}
    (h : MultisigRotate.decodeBody bytes = some (body, rest)) : (MultisigOperation.rotate body).WellFormed := by
  unfold MultisigRotate.decodeBody at h
  cases bytes with
  | nil => cases h
  | cons count tail =>
    dsimp only at h
    split at h
    next => cases h
    rename_i hcount
    split at h
    next => cases h
    rename_i hlength
    rw [not_or, Nat.not_lt] at hcount
    cases h
    have hpks : (readSignerPks count.toNat (count :: tail)).length = count.toNat := by
      rw [readSignerPks, length_map, length_range]
    refine ⟨?_, ?_, ?_⟩
    · rw [hpks]
      exact Nat.pos_of_ne_zero hcount.1
    · rw [hpks]
      exact hcount.2
    · intro pk hpk
      obtain ⟨i, hi, rfl⟩ := List.mem_map.mp hpk
      rw [mem_range] at hi
      have hend : (i + 1) * FalconPublicKey.size ≤ count.toNat * FalconPublicKey.size := Nat.mul_le_mul_right _ hi
      rw [Nat.add_mul, Nat.one_mul] at hend
      apply length_slice
      omega

variable {sigs : List SigEntry} {msg : Bytes}

theorem wellFormed_of_decode {bytes : Bytes} {body : MultisigRotate}
    (h : MultisigPayload.decode bytes = some (.rotate body sigs)) : (MultisigOperation.rotate body).WellFormed := by
  unfold MultisigPayload.decode at h
  split at h
  next version tag rest =>
    split at h
    next => cases h
    split at h
    next =>
      split at h
      next =>
        obtain ⟨_, -, hsigs⟩ := Option.map_eq_some_iff.mp h
        cases hsigs
      next => cases h
    next =>
      split at h
      next =>
        split at h
        next body' rest' hbody =>
          obtain ⟨_, -, hsigs⟩ := Option.map_eq_some_iff.mp h
          cases hsigs
          exact wellFormed_of_decodeBody hbody
        next => cases h
      next => cases h
  next => cases h

/-! ### Counting signatures -/

theorem exists_pk_of_verifySigEntry {P : Prims} {entry : SigEntry} {signerPks : List Bytes}
    (h : verifySigEntry P entry signerPks msg = true) :
    ∃ pk, signerPks[entry.signerIndex.toNat]? = some pk ∧ P.verifyRaw pk msg entry.signature = true := by
  unfold verifySigEntry at h
  split at h
  next pk hpk => exact ⟨pk, hpk, h⟩
  next => cases h

theorem countSigs_voters {P : Prims} {signerPks : List Bytes} {seen : List U8} {valid : Nat}
    (h : countSigs P signerPks msg seen sigs = .ok valid) :
    ∃ voters : Finset U8, voters.card = valid ∧ ∀ i ∈ voters, i ∉ seen ∧ ∃ entry ∈ sigs,
      entry.signerIndex = i ∧ ∃ pk, signerPks[i.toNat]? = some pk ∧
        P.verifyRaw pk msg entry.signature = true := by
  induction sigs generalizing seen valid with
  | nil =>
    cases h
    exact ⟨∅, rfl, fun _ hi => absurd hi (Finset.notMem_empty _)⟩
  | cons entry sigs ih =>
    rw [countSigs] at h
    split at h
    next => cases h
    split at h
    next => cases h
    rename_i hnew
    cases hrest : countSigs P signerPks msg (entry.signerIndex :: seen) sigs with
    | error e =>
      rw [hrest] at h
      cases h
    | ok count =>
      rw [hrest] at h
      obtain ⟨voters, hcard, hvoters⟩ := ih hrest
      have hlater : ∀ i ∈ voters, i ∉ seen ∧ i ≠ entry.signerIndex := by
        intro i hi
        have hout := (hvoters i hi).1
        rw [mem_cons, not_or] at hout
        exact ⟨hout.2, hout.1⟩
      cases hverify : verifySigEntry P entry signerPks msg with
      | false =>
        rw [hverify] at h
        cases h
        refine ⟨voters, hcard, fun i hi => ⟨(hlater i hi).1, ?_⟩⟩
        obtain ⟨-, later, hmem, hsigned⟩ := hvoters i hi
        exact ⟨later, mem_cons_of_mem _ hmem, hsigned⟩
      | true =>
        rw [hverify] at h
        cases h
        have hfresh : entry.signerIndex ∉ voters := fun hi => (hlater _ hi).2 rfl
        refine ⟨insert entry.signerIndex voters, ?_, ?_⟩
        · exact (Finset.card_insert_of_notMem hfresh).trans (congrArg Nat.succ hcard)
        · intro i hi
          rcases Finset.mem_insert.mp hi with rfl | hi
          · exact ⟨hnew, entry, mem_cons_self, rfl, exists_pk_of_verifySigEntry hverify⟩
          · obtain ⟨-, later, hmem, hsigned⟩ := hvoters i hi
            exact ⟨(hlater i hi).1, later, mem_cons_of_mem _ hmem, hsigned⟩

/-! ### What the state says about the multisig -/

section

variable (P : Prims) (st : StateMap)

def storedSigners : Option (List Bytes) := (st (globalKey P .multisigSigners)).bind decodeSignerSet

def storedThreshold : U8 := ((st (globalKey P .multisigThreshold)).bind List.head?).getD 0

def storedMultisigNonce : U64 := (runIn P readMultisigNonce st).1

/-- At least a threshold of the current signers, which is positive, have signed the message. -/
def SignedByThreshold (sigs : List SigEntry) (msg : Bytes) : Prop :=
  ∃ signers, storedSigners P st = some signers ∧ 0 < (storedThreshold P st).toNat ∧
    ∃ voters : Finset U8, (storedThreshold P st).toNat ≤ voters.card ∧ ∀ i ∈ voters, ∃ entry ∈ sigs,
      entry.signerIndex = i ∧ ∃ pk, signers[i.toNat]? = some pk ∧ P.verifyRaw pk msg entry.signature = true

end

section

variable {P : Prims} {st : StateMap}

/-- The check of all operations: it changes nothing, and it passes on the nonce if a threshold has signed. -/
theorem run_multisigOk (label : String) (sigs : List SigEntry) (gas : U64) {signing : StateProg (Bytes × U64)}
    {nonce : U64} (hsigning : runIn P signing st = ((msg, nonce), st)) :
    (∃ gas' reason, runIn P (multisigOk P label sigs gas signing) st = (.error (.failed gas' reason), st)) ∨
      SignedByThreshold P st sigs msg ∧
        runIn P (multisigOk P label sigs gas signing) st = (.ok nonce, st) := by
  have hsigners : runIn P readMultisigSigners st = (storedSigners P st, st) := rfl
  have hthreshold : runIn P readMultisigThreshold st = (storedThreshold P st, st) := rfl
  unfold multisigOk
  simp only [run_bind, hsigners]
  cases hstored : storedSigners P st with
  | none => exact .inl ⟨_, _, rfl⟩
  | some signers =>
    simp only [run_bind, hthreshold]
    split
    next => exact .inl ⟨_, _, rfl⟩
    rename_i hpositive
    simp only [run_bind, hsigning]
    cases hcount : countValidSigs P sigs signers msg with
    | error e => exact .inl ⟨_, _, rfl⟩
    | ok valid =>
      dsimp only
      split
      next => exact .inl ⟨_, _, rfl⟩
      rename_i henough
      obtain ⟨voters, hcard, hvoters⟩ := countSigs_voters hcount
      refine .inr ⟨⟨signers, hstored, ?_, voters, ?_, fun i hi => (hvoters i hi).2⟩, rfl⟩
      · exact Nat.pos_of_ne_zero fun hzero => hpositive (BitVec.eq_of_toNat_eq hzero)
      · rw [hcard]
        exact Nat.not_lt.mp henough

/-- The transaction asks for an operation that a threshold of the current signers have signed, for this nonce and
this chain. -/
def Authorized (P : Prims) (st : StateMap) (tx : Transaction) (chainId : U64) : Prop :=
  ∃ op sigs, tx.multisigOperation = some (op, sigs) ∧ op.WellFormed ∧
    SignedByThreshold P st sigs (op.signingBytes P (storedMultisigNonce P st) chainId)

/-- A handler fails and leaves the state as it is, or it was authorized and uses up the nonce. -/
def AuthorizedRun (P : Prims) (st : StateMap) (tx : Transaction) (chainId : U64)
    (res : Outcome × StateMap) : Prop :=
  (res.1.success = false ∧ res.2 = st) ∨ (res.1.success = true ∧ Authorized P st tx chainId ∧
      storedMultisigNonce P res.2 = satAdd (storedMultisigNonce P st) 1)

theorem storedMultisigNonce_write (nonce : U64) :
    storedMultisigNonce P (runIn P (writeMultisigNonce nonce) st).2 = nonce := by
  have hne : toLe nonce ≠ [] := by
    intro h
    have hlen := congrArg List.length h
    simp at hlen
  simp [storedMultisigNonce, readMultisigNonce, writeMultisigNonce, readGlobal, writeGlobal, readInt, writeInt,
    StateProgram.insert, stored, hne, slice_all, ofLe_toLe]

theorem run_readMultisigNonce_bind {α : Type} (next : U64 → StateProg α) :
    runIn P (readMultisigNonce >>= next) st = runIn P (next (storedMultisigNonce P st)) st := rfl

variable {tx : Transaction} {ctx : BlockContext}

/-- After the shared check, a handler fails or uses up the nonce. -/
theorem authorizedRun_after_multisigOk {label : String} {gas : U64} {signing : StateProg (Bytes × U64)}
    {next : Except Outcome U64 → StateProg Outcome} (hoperation : tx.multisigOperation = some (op, sigs))
    (hformed : op.WellFormed) (hsigning : runIn P signing st =
      ((op.signingBytes P (storedMultisigNonce P st) chainId, storedMultisigNonce P st), st))
    (herror : ∀ outcome, next (.error outcome) = pure outcome)
    (hok : ∀ res, res = runIn P (next (.ok (storedMultisigNonce P st))) st →
      (res.1.success = false ∧ res.2 = st) ∨
        (res.1.success = true ∧ storedMultisigNonce P res.2 = satAdd (storedMultisigNonce P st) 1)) :
    AuthorizedRun P st tx chainId (runIn P (multisigOk P label sigs gas signing >>= next) st) := by
  have hbind : runIn P (multisigOk P label sigs gas signing >>= next) st =
      runIn P (next (runIn P (multisigOk P label sigs gas signing) st).1)
        (runIn P (multisigOk P label sigs gas signing) st).2 := run_bind ..
  rw [hbind]
  obtain ⟨gas', reason, hfailed⟩ | ⟨hsigned, hpassed⟩ := run_multisigOk label sigs gas hsigning
  · rw [hfailed, herror]
    exact .inl ⟨rfl, rfl⟩
  rw [hpassed]
  obtain ⟨hfails, hsame⟩ | ⟨hdone, hnonce⟩ := hok _ rfl
  · exact .inl ⟨hfails, hsame⟩
  · exact .inr ⟨hdone, ⟨op, sigs, hoperation, hformed, hsigned⟩, hnonce⟩

theorem run_paySpend (spend : MultisigSpend) (gas nonce : U64) :
    ((runIn P (paySpend P spend gas nonce) st).1.success = false ∧
        (runIn P (paySpend P spend gas nonce) st).2 = st) ∨
      ((runIn P (paySpend P spend gas nonce) st).1.success = true ∧
        storedMultisigNonce P (runIn P (paySpend P spend gas nonce) st).2 = satAdd nonce 1) := by
  unfold paySpend
  rw [run_loadAccount_bind]
  split
  next => exact .inl ⟨rfl, rfl⟩
  next => exact .inr ⟨rfl, storedMultisigNonce_write _⟩

theorem authorizedRun_executeMultisigSpend (htype : tx.txType = .multisigTx) :
    AuthorizedRun P st tx ctx.chainId (runIn P (executeMultisigSpend P tx ctx) st) := by
  unfold executeMultisigSpend
  cases hdecode : MultisigPayload.decode tx.data with
  | none => exact .inl ⟨rfl, rfl⟩
  | some payload =>
    cases payload with
    | rotate body sigs => exact .inl ⟨rfl, rfl⟩
    | spend spend sigs =>
      have hoperation : tx.multisigOperation = some (.spend spend, sigs) := by
        unfold Transaction.multisigOperation
        rw [htype, hdecode]
      dsimp only
      split
      next => exact .inl ⟨rfl, rfl⟩
      split
      next => exact .inl ⟨rfl, rfl⟩
      next =>
        apply authorizedRun_after_multisigOk hoperation trivial rfl (fun _ => rfl)
        rintro _ rfl
        exact run_paySpend spend _ _

theorem authorizedRun_executeRotateMultisig (htype : tx.txType = .rotateMultisig) :
    AuthorizedRun P st tx ctx.chainId (runIn P (executeRotateMultisig P tx ctx) st) := by
  unfold executeRotateMultisig
  cases hdecode : MultisigPayload.decode tx.data with
  | none => exact .inl ⟨rfl, rfl⟩
  | some payload =>
    cases payload with
    | spend body sigs => exact .inl ⟨rfl, rfl⟩
    | rotate rotate sigs =>
      have hoperation : tx.multisigOperation = some (.rotate rotate, sigs) := by
        unfold Transaction.multisigOperation
        rw [htype, hdecode]
      dsimp only
      split
      next => exact .inl ⟨rfl, rfl⟩
      split
      next => exact .inl ⟨rfl, rfl⟩
      next =>
        apply authorizedRun_after_multisigOk hoperation (wellFormed_of_decode hdecode) rfl (fun _ => rfl)
        rintro _ rfl
        exact .inr ⟨rfl, storedMultisigNonce_write _⟩

theorem authorizedRun_executeEmergencyPause (htype : tx.txType = .emergencyPause) :
    AuthorizedRun P st tx ctx.chainId (runIn P (executeEmergencyPause P tx ctx) st) := by
  unfold executeEmergencyPause
  cases hdecode : EmergencyPausePayload.decode tx.data with
  | none => exact .inl ⟨rfl, rfl⟩
  | some payload =>
    have hoperation : tx.multisigOperation = some (.pause payload.durationSlots, payload.sigs) := by
      unfold Transaction.multisigOperation
      rw [htype, hdecode]
      rfl
    dsimp only
    split
    next => exact .inl ⟨rfl, rfl⟩
    split
    next => exact .inl ⟨rfl, rfl⟩
    rw [run_isPaused_bind]
    split
    next => exact .inl ⟨rfl, rfl⟩
    rw [run_readMultisigNonce_bind]
    apply authorizedRun_after_multisigOk hoperation trivial rfl (fun _ => rfl)
    rintro _ rfl
    exact .inr ⟨rfl, storedMultisigNonce_write _⟩

theorem authorizedRun_executeEmergencyResume (htype : tx.txType = .emergencyResume) :
    AuthorizedRun P st tx ctx.chainId (runIn P (executeEmergencyResume P tx ctx) st) := by
  unfold executeEmergencyResume
  cases hdecode : EmergencyResumePayload.decode tx.data with
  | none => exact .inl ⟨rfl, rfl⟩
  | some payload =>
    have hoperation : tx.multisigOperation = some (.resume, payload.sigs) := by
      unfold Transaction.multisigOperation
      rw [htype, hdecode]
      rfl
    dsimp only
    split
    next => exact .inl ⟨rfl, rfl⟩
    rw [run_isPaused_bind]
    split
    next => exact .inl ⟨rfl, rfl⟩
    rw [run_readMultisigNonce_bind]
    apply authorizedRun_after_multisigOk hoperation trivial rfl (fun _ => rfl)
    rintro _ rfl
    exact .inr ⟨rfl, storedMultisigNonce_write _⟩

end

/-! ### The rest of the pipeline -/

/-- The key is not one of the global ones. -/
def NotGlobal (key : StateKey) : Prop := ∀ field, key ≠ .single field

/-- The keys under which the multisig is stored. -/
def multisigFields : List GlobalField := [.multisigSigners, .multisigThreshold, .multisigNonce]

/-- Two states agree about the multisig. -/
def SameMultisig (P : Prims) (st st' : StateMap) : Prop :=
  ∀ field ∈ multisigFields, st (globalKey P field) = st' (globalKey P field)

section

variable {P : Prims} {st st' : StateMap}

theorem SameMultisig.nonce (h : SameMultisig P st st') :
    storedMultisigNonce P st = storedMultisigNonce P st' := by
  have hkey := h .multisigNonce (by decide)
  unfold globalKey at hkey
  unfold storedMultisigNonce readMultisigNonce readGlobal readInt
  simp only [run_bind, run_read, run_pure, hkey]

theorem SameMultisig.authorized (h : SameMultisig P st st') {tx : Transaction}
    (hauthorized : Authorized P st' tx chainId) : Authorized P st tx chainId := by
  have hsigners : storedSigners P st = storedSigners P st' := by
    unfold storedSigners
    rw [h .multisigSigners (by decide)]
  have hthreshold : storedThreshold P st = storedThreshold P st' := by
    unfold storedThreshold
    rw [h .multisigThreshold (by decide)]
  unfold Authorized SignedByThreshold at hauthorized ⊢
  rw [h.nonce, hsigners, hthreshold]
  exact hauthorized

theorem sameMultisig_frame {α : Type} {program : StateProg α} (hprogram : program.Writes NotGlobal)
    {keys : Set StateKey} (hinj : HashApart P keys)
    (hfields : ∀ field ∈ multisigFields, .single field ∈ keys)
    (hwritten : ∀ key ∈ writtenKeys P program st, key ∈ keys) :
    SameMultisig P st (runIn P program st).2 := by
  intro field hfield
  apply Eq.symm
  apply run_frame
  intro w hw heq
  have hkey := hinj (hwritten w.1 (mem_map_of_mem hw)) (hfields field hfield) heq
  exact hprogram.mem stored (StateKey.hash P) st w hw field hkey

end

theorem writesNotGlobal_applyAccountDelta (addr : Address) (initial final : Account) :
    (applyAccountDelta addr initial final).Writes NotGlobal :=
  (writes_loadAccount addr).bind fun _ => Prog.writes_write.mpr nofun

section

variable {P : Prims} {tx : Transaction} {ctx : BlockContext} {stateRoot : Hash256}

theorem writesNotGlobal_settle (senderInitial recipientInitial rcpt : Account) (res : Outcome × Account) :
    (settle P tx ctx stateRoot senderInitial recipientInitial rcpt res).Writes NotGlobal :=
  (writesNotGlobal_applyAccountDelta _ _ _).bind fun _ => (writesNotGlobal_applyAccountDelta _ _ _).bind fun _ =>
    Prog.writes_pure _

end

/-- The transaction is of one of the four kinds. -/
def TransactionType.isMultisig : TransactionType → Bool
  | .multisigTx | .rotateMultisig | .emergencyPause | .emergencyResume => true
  | _ => false

theorem dispatch_multisig (P : Prims) (pvm : Pvm) (aot : Bool) {tx : Transaction} (ctx : BlockContext)
    (hkind : tx.txType.isMultisig = true) :
    ∃ handler : StateProg Outcome, (∀ sender, dispatch P pvm aot tx ctx sender = keepSender sender handler) ∧
      ∀ st, AuthorizedRun P st tx ctx.chainId (runIn P handler st) := by
  unfold dispatch
  cases htype : tx.txType with
  | multisigTx =>
    exact ⟨executeMultisigSpend P tx ctx, fun _ => rfl, fun _ => authorizedRun_executeMultisigSpend htype⟩
  | rotateMultisig =>
    exact ⟨executeRotateMultisig P tx ctx, fun _ => rfl, fun _ => authorizedRun_executeRotateMultisig htype⟩
  | emergencyPause =>
    exact ⟨executeEmergencyPause P tx ctx, fun _ => rfl, fun _ => authorizedRun_executeEmergencyPause htype⟩
  | emergencyResume =>
    exact ⟨executeEmergencyResume P tx ctx, fun _ => rfl, fun _ => authorizedRun_executeEmergencyResume htype⟩
  | _ =>
    rw [htype] at hkind
    cases hkind

/-! ### One transaction -/

/-- What a transaction of one of the four kinds does to the multisig. -/
def AuthorizedStep (P : Prims) (st : StateMap) (sub : Submission)
    (res : Except PipelineError Receipt × StateMap) : Prop :=
  (takesEffect res.1 = false ∧ storedMultisigNonce P res.2 = storedMultisigNonce P st) ∨
    (takesEffect res.1 = true ∧ Authorized P st sub.tx sub.ctx.chainId ∧
      storedMultisigNonce P res.2 = satAdd (storedMultisigNonce P st) 1)

section

variable {P : Prims} {pvm : Pvm} {st : StateMap} {keys : Set StateKey}

section

variable (sub : Submission) (hkind : sub.tx.txType.isMultisig = true)
  (hinj : HashApart P keys) (hfields : ∀ field ∈ multisigFields, .single field ∈ keys)
include hkind hinj hfields

/-- The handler runs, and what comes after it leaves the multisig alone. -/
theorem authorizedStep_runHandler {senderInitial recipientInitial sender rcpt : Account}
    {program : StateProg Receipt}
    (hprogram : program = runHandler P pvm sub.native sub.tx sub.ctx sub.stateRoot senderInitial recipientInitial sender rcpt)
    (hwritten : ∀ key ∈ writtenKeys P program st, key ∈ keys) :
    AuthorizedStep P st sub (.ok (runIn P program st).1, (runIn P program st).2) := by
  obtain ⟨handler, hdispatch, hhandler⟩ := dispatch_multisig P pvm sub.native sub.ctx hkind
  have hkeep : runIn P (keepSender sender handler) st =
      (((runIn P handler st).1, sender), (runIn P handler st).2) := by
    unfold keepSender
    simp only [run_bind, run_pure]
  rw [runHandler_eq, hdispatch] at hprogram
  subst hprogram
  rw [writtenKeys_bind, hkeep] at hwritten
  have hrest : SameMultisig P (runIn P handler st).2
      (runIn P (settle P sub.tx sub.ctx sub.stateRoot senderInitial recipientInitial
        rcpt ((runIn P handler st).1, sender)) (runIn P handler st).2).2 :=
    sameMultisig_frame (writesNotGlobal_settle _ _ _ _) hinj hfields
      (fun key hkey => hwritten key (mem_append_right _ hkey))
  have hrun : runIn P (keepSender sender handler >>= settle P sub.tx sub.ctx sub.stateRoot
      senderInitial recipientInitial rcpt) st =
      runIn P (settle P sub.tx sub.ctx sub.stateRoot senderInitial recipientInitial rcpt
        ((runIn P handler st).1, sender)) (runIn P handler st).2 := by
    simp only [run_bind, hkeep]
  rw [hrun]
  unfold AuthorizedStep takesEffect
  dsimp only
  rw [success_settle, ← hrest.nonce]
  obtain ⟨hfailed, hsame⟩ | ⟨hdone, hauthorized, hnonce⟩ := hhandler st
  · rw [hsame]
    exact .inl ⟨hfailed, rfl⟩
  · exact .inr ⟨hdone, hauthorized, hnonce⟩

theorem authorizedStep_perform {sender rcpt : Account} {program : StateProg (Except PipelineError Receipt)}
    (hprogram : program = perform P pvm sub.native sub.tx sub.ctx sub.stateRoot sender rcpt)
    (hwritten : ∀ key ∈ writtenKeys P program st, key ∈ keys) :
    AuthorizedStep P st sub (runIn P program st) := by
  unfold perform at hprogram
  split at hprogram
  next reason hcharge =>
    -- the charge fails, and the receipt says so
    subst hprogram
    rw [writtenKeys_bind] at hwritten
    have hwrites : (emitFailedExecutionReceipt P sub.tx sub.ctx sub.stateRoot sender
        reason).Writes NotGlobal := (writesNotGlobal_applyAccountDelta _ _ _).bind fun _ => Prog.writes_pure _
    have hsame := sameMultisig_frame hwrites hinj hfields (fun key hkey => hwritten key (mem_append_left _ hkey))
    simp only [run_bind, run_pure]
    exact .inl ⟨rfl, hsame.nonce.symm⟩
  next purse hcharge =>
    split at hprogram
    next reason htransfer =>
      subst hprogram
      exact .inl ⟨rfl, rfl⟩
    rename_i payer payee htransfer
    subst hprogram
    rw [writtenKeys_bind] at hwritten
    simp only [run_bind, run_pure]
    exact authorizedStep_runHandler sub hkind hinj hfields rfl
      (fun key hkey => hwritten key (mem_append_left _ hkey))

end

theorem authorizedStep_execute {sub : Submission} (hkind : sub.tx.txType.isMultisig = true)
    (hinj : HashApart P keys) (hfields : ∀ field ∈ multisigFields, .single field ∈ keys)
    (hsender : .account sub.tx.fromAddress .nonce ∈ keys)
    (hwritten : ∀ key ∈ writtenKeys P (sub.program P pvm) st, key ∈ keys) :
    AuthorizedStep P st sub (runIn P (sub.program P pvm) st) := by
  rcases admission_cases P sub.tx sub.ctx st with
    ⟨e, hadmission, -⟩ | ⟨used, -, -, hadmission⟩
  · rw [Submission.program, run_executeTransaction_of_refused hadmission]
    exact .inl ⟨rfl, rfl⟩
  obtain ⟨hrun, hsub⟩ := run_of_admitted pvm hadmission
  have hsame : SameMultisig P st (runIn P (storeNonce sub.tx.fromAddress used) st).2 := by
    have hwrites : (storeNonce sub.tx.fromAddress used).Writes NotGlobal := Prog.writes_write.mpr (by rintro _ ⟨⟩)
    exact sameMultisig_frame hwrites hinj hfields (forall_mem_singleton.mpr hsender)
  rw [hrun]
  obtain ⟨hnone, hnonce⟩ | ⟨heffect, hauthorized, hnonce⟩ := authorizedStep_perform sub hkind hinj hfields
    rfl (fun key hkey => hwritten key (hsub key hkey))
  · exact .inl ⟨hnone, hnonce.trans hsame.nonce.symm⟩
  refine .inr ⟨heffect, hsame.authorized hauthorized, ?_⟩
  rw [hsame.nonce]
  exact hnonce

end

/-! ### Any sequence of transactions -/

section

variable (P : Prims) (pvm : Pvm)

def ChainStep.Performs (step : ChainStep) (op : MultisigOperation) : Prop :=
  takesEffect (step.run P pvm).1 = true ∧ ∃ sigs, step.submission.tx.multisigOperation = some (op, sigs)

def ChainStep.message (step : ChainStep) (op : MultisigOperation) : Bytes :=
  op.signingBytes P (storedMultisigNonce P step.before) step.submission.ctx.chainId

def ChainStep.preimage (step : ChainStep) (op : MultisigOperation) : Bytes :=
  op.preimage (storedMultisigNonce P step.before) step.submission.ctx.chainId

/-- The strings that were hashed and signed for the operations of the sequence. -/
def signedPreimages (subs : List Submission) (st : StateMap) : Set Bytes :=
  {bytes | ∃ step ∈ chainSteps P pvm subs st, ∃ op, step.Performs P pvm op ∧
    bytes = step.preimage P op}

def multisigKeysInPlay (subs : List Submission) (st : StateMap) : Set StateKey :=
  {key | key ∈ keysInPlay P pvm subs st ∨ ∃ field ∈ multisigFields, key = .single field}

variable {P pvm} {keys : Set StateKey}

theorem authorizedStep_chain (hinj : HashApart P keys)
    (hfields : ∀ field ∈ multisigFields, .single field ∈ keys) {subs : List Submission}
    {st : StateMap} (hkeys : keysInPlay P pvm subs st ⊆ keys)
    (hkind : ∀ sub ∈ subs, sub.tx.txType.isMultisig = true) :
    ∀ step ∈ chainSteps P pvm subs st, AuthorizedStep P step.before step.submission (step.run P pvm) := by
  induction subs generalizing st with
  | nil => exact forall_mem_nil _
  | cons sub rest ih =>
    obtain ⟨hwritten, hsender, hrest⟩ := keysInPlay_step hkeys
    rw [forall_mem_cons] at hkind
    rw [chainSteps, forall_mem_cons]
    exact ⟨authorizedStep_execute hkind.1 hinj hfields hsender hwritten, ih hrest hkind.2⟩

/-- Below the largest number the nonce counts the effects. -/
def CountsEffect (P : Prims) (before after : StateMap) (effect : Bool) : Prop :=
  (storedMultisigNonce P after).toNat = (storedMultisigNonce P before).toNat + effect.toNat

theorem AuthorizedStep.counts {st : StateMap} {sub : Submission}
    {res : Except PipelineError Receipt × StateMap} (h : AuthorizedStep P st sub res)
    (hroom : (storedMultisigNonce P st).toNat + 1 < 2 ^ 64) :
    CountsEffect P st res.2 (takesEffect res.1) := by
  unfold CountsEffect
  obtain ⟨hnone, hnonce⟩ | ⟨heffect, -, hnonce⟩ := h
  · rw [hnone, hnonce]
    rfl
  have hsum : (storedMultisigNonce P st).toNat + (1 : U64).toNat < 2 ^ 64 := hroom
  rw [heffect, hnonce, satAdd, if_pos hsum, BitVec.toNat_add, Nat.mod_eq_of_lt hsum]
  rfl

theorem nonce_chain {subs : List Submission} {st : StateMap}
    (hsteps : ∀ step ∈ chainSteps P pvm subs st,
      AuthorizedStep P step.before step.submission (step.run P pvm))
    (hroom : (storedMultisigNonce P st).toNat + subs.length < 2 ^ 64) :
    (∀ step ∈ chainSteps P pvm subs st,
      (storedMultisigNonce P st).toNat ≤ (storedMultisigNonce P step.before).toNat ∧
        CountsEffect P step.before (step.run P pvm).2 (takesEffect (step.run P pvm).1)) ∧
      (chainSteps P pvm subs st).Pairwise fun earlier later => takesEffect (earlier.run P pvm).1 = true →
          storedMultisigNonce P earlier.before ≠ storedMultisigNonce P later.before := by
  induction subs generalizing st with
  | nil => exact ⟨forall_mem_nil _, .nil⟩
  | cons sub rest ih =>
    rw [chainSteps] at hsteps ⊢
    rw [forall_mem_cons] at hsteps
    rw [length_cons] at hroom
    have hfirst : (storedMultisigNonce P st).toNat + 1 < 2 ^ 64 := by omega
    have hcounts := hsteps.1.counts hfirst
    have hbool := Bool.toNat_le (takesEffect (ChainStep.run P pvm { submission := sub, before := st }).1)
    have hafter : (storedMultisigNonce P (runIn P (sub.program P pvm) st).2).toNat =
        (storedMultisigNonce P st).toNat +
          (takesEffect (ChainStep.run P pvm { submission := sub, before := st }).1).toNat := hcounts
    obtain ⟨hlater, hpairs⟩ := ih hsteps.2 (by omega)
    refine ⟨List.forall_mem_cons.mpr ⟨⟨Nat.le_refl _, hcounts⟩, ?_⟩,
      List.pairwise_cons.mpr ⟨?_, hpairs⟩⟩
    · intro step hstep
      obtain ⟨hle, hcount⟩ := hlater step hstep
      exact ⟨by omega, hcount⟩
    · intro step hstep heffect hsame
      have hle := (hlater step hstep).1
      rw [← hsame, hafter, heffect] at hle
      exact absurd hle (Nat.not_succ_le_self _)

end

/-- In every sequence of the four kinds of transactions in which the multisig nonce does not reach its largest
value: what takes effect is authorized; the nonce counts the effects; and no signature is valid for two of them. -/
theorem multisig_authorization (P : Prims) (pvm : Pvm) {subs : List Submission} {st : StateMap}
    (hkind : ∀ sub ∈ subs, sub.tx.txType.isMultisig = true)
    (hkeys : P.CollisionFreeOn (StateKey.preimage '' multisigKeysInPlay P pvm subs st))
    (hsigned : P.CollisionFreeOn (signedPreimages P pvm subs st))
    (hroom : (storedMultisigNonce P st).toNat + subs.length < 2 ^ 64) :
    (∀ step ∈ chainSteps P pvm subs st,
      CountsEffect P step.before (step.run P pvm).2 (takesEffect (step.run P pvm).1) ∧
      (takesEffect (step.run P pvm).1 = true →
        Authorized P step.before step.submission.tx step.submission.ctx.chainId) ∧
      ∀ op, step.Performs P pvm op → ∀ other nonce chainId, other.WellFormed →
        other.preimage nonce chainId = step.preimage P op →
          other = op ∧ nonce = storedMultisigNonce P step.before ∧ chainId = step.submission.ctx.chainId) ∧
    (chainSteps P pvm subs st).Pairwise fun earlier later =>
      ∀ op operation', earlier.Performs P pvm op → later.Performs P pvm operation' →
        ∀ pk sig, P.BindsMessage pk {sig} →
          ¬ (P.verifyRaw pk (earlier.message P op) sig = true ∧
            P.verifyRaw pk (later.message P operation') sig = true) := by
  have hinj := StateKey.injOn_hash hkeys
  have hsteps := authorizedStep_chain hinj (fun field hfield => Or.inr ⟨field, hfield, rfl⟩)
    (fun key hkey => Or.inl hkey) hkind
  obtain ⟨hnonces, hpairs⟩ := nonce_chain hsteps hroom
  have hauthorized : ∀ step ∈ chainSteps P pvm subs st, takesEffect (step.run P pvm).1 = true →
      Authorized P step.before step.submission.tx step.submission.ctx.chainId := by
    intro step hstep heffect
    obtain ⟨hnone, -⟩ | ⟨-, hauthorized, -⟩ := hsteps step hstep
    · rw [heffect] at hnone
      cases hnone
    · exact hauthorized
  have hformed : ∀ step ∈ chainSteps P pvm subs st, ∀ op, step.Performs P pvm op →
      op.WellFormed := by
    rintro step hstep op ⟨heffect, sigs, hoperation⟩
    obtain ⟨operation', sigs', hoperation', hformed, -⟩ := hauthorized step hstep heffect
    rw [hoperation] at hoperation'
    cases hoperation'
    exact hformed
  refine ⟨?_, ?_⟩
  · intro step hstep
    refine ⟨(hnonces step hstep).2, hauthorized step hstep, ?_⟩
    · intro op hperforms other nonce chainId hother heq
      exact MultisigOperation.preimage_inj hother (hformed step hstep op hperforms) heq
  · apply hpairs.imp_of_mem
    intro earlier later hearlier hlater hdistinct op operation' hperforms hperforms' pk sig hbinds
    rintro ⟨hvalid, hvalid'⟩
    -- one signature for both: the hashed strings would be the same, and so the nonces
    have hmessage := hbinds sig rfl _ _ hvalid hvalid'
    have hpreimage : earlier.preimage P op = later.preimage P operation' :=
      hsigned ⟨earlier, hearlier, op, hperforms, rfl⟩ ⟨later, hlater, operation', hperforms', rfl⟩
        (List.Vector.toList_injective hmessage)
    have hsame := MultisigOperation.preimage_inj (hformed earlier hearlier op hperforms)
      (hformed later hlater operation' hperforms') hpreimage
    exact hdistinct hperforms.1 hsame.2.1

/-! ### A spend -/

def sampleSpend : MultisigSpend := { target := fill32 9, value := 1000, dataDigest := zero32 }

/-- What the one signer has signed for a nonce. -/
def sampleSpendSignature (nonce : U64) : Bytes :=
  (lucidSignature [1] ((MultisigOperation.spend sampleSpend).signingBytes lucid nonce devnetChainId)).bytes

def sampleSpendData (nonce : U64) : Bytes :=
  [0x01, 0x01] ++ (MultisigOperation.spend sampleSpend).bytes ++
    ([1, 0] ++ toLe (BitVec.ofNat 16 (sampleSpendSignature nonce).length) ++ sampleSpendSignature nonce)

/-- It is submitted under an account nonce. -/
def spendSubmission (accountNonce multisigNonce : U64) : Submission :=
  { tx :=
      { fromAddress := fill32 1, toAddress := zero32, value := 0, data := sampleSpendData multisigNonce,
        gasLimit := 100000, nonce := accountNonce, signature := [], feePayer := .sender, accessList := [],
        deadline := none, chainId := devnetChainId, txType := .multisigTx }
    ctx := devnetContext
    native := false
    stateRoot := zero32 }

/-- A funded submitter and treasury, and a multisig with one signer. -/
def multisigState (nonce : U64) : StateMap :=
  [((StateKey.account (fill32 1) .balance), { Account.empty (fill32 1) with balance := 1000000 }.toBytes),
    (.account (treasuryAddress lucid) .balance,
      { Account.empty (treasuryAddress lucid) with balance := 5000 }.toBytes),
    (.single .multisigSigners, encodeSignerSet [lucidKey 1]), (.single .multisigThreshold, [1]),
    (.single .multisigNonce, toLe nonce)].foldl
      (fun st entry => StateProgram.insert stored st (entry.1.hash lucid) entry.2) fun _ => none

/-- The keys that the spend writes, and those of the multisig. -/
def spendKeys : List StateKey :=
  [.account (fill32 1) .nonce, .account (fill32 1) .balance, .account zero32 .balance,
    .account (fill32 9) .balance, .account (treasuryAddress lucid) .balance, .single .multisigSigners,
    .single .multisigThreshold, .single .multisigNonce]

theorem spend_keys_distinct : lucid.CollisionFreeOn
    (StateKey.preimage '' multisigKeysInPlay lucid idlePvm [spendSubmission 0 0] (multisigState 0)) := by
  refine collisionFreeOn_of_listed spendKeys (by decide +kernel) ?_
  rintro key ((hkey | ⟨sub, hsub, rfl⟩) | ⟨field, hfield, rfl⟩)
  · revert key
    decide +kernel
  · rw [List.mem_singleton.mp hsub]
    exact mem_cons_self
  · revert field
    decide

theorem multisig_authorization_spend :
    Authorized lucid (multisigState 0) (spendSubmission 0 0).tx devnetChainId := by
  have heffect : takesEffect (ChainStep.run lucid idlePvm
      { submission := spendSubmission 0 0, before := multisigState 0 }).1 = true := by decide +kernel
  have hsigned : lucid.CollisionFreeOn
      (signedPreimages lucid idlePvm [spendSubmission 0 0] (multisigState 0)) := by
    rintro _ ⟨step, hstep, op, ⟨-, sigs, hoperation⟩, rfl⟩
      _ ⟨step', hstep', operation', ⟨-, sigs', hoperation'⟩, rfl⟩ -
    obtain rfl := List.mem_singleton.mp hstep
    obtain rfl := List.mem_singleton.mp hstep'
    rw [hoperation] at hoperation'
    cases hoperation'
    rfl
  have hkind : ∀ sub ∈ [spendSubmission 0 0], sub.tx.txType.isMultisig = true :=
    forall_mem_singleton.mpr rfl
  have hroom : (storedMultisigNonce lucid (multisigState 0)).toNat + [spendSubmission 0 0].length < 2 ^ 64 := by
    decide +kernel
  have hall := multisig_authorization lucid idlePvm hkind spend_keys_distinct hsigned hroom
  exact (hall.1 _ mem_cons_self).2.1 heffect

/-- At the largest nonce the same payload takes effect twice. -/
theorem spend_replayed_at_last_nonce :
    (spendSubmission 0 (BitVec.allOnes 64)).tx.data = (spendSubmission 1 (BitVec.allOnes 64)).tx.data ∧
      (chainSteps lucid idlePvm [spendSubmission 0 (BitVec.allOnes 64), spendSubmission 1 (BitVec.allOnes 64)]
        (multisigState (BitVec.allOnes 64))).map
          (fun step => takesEffect (step.run lucid idlePvm).1) = [true, true] := by
  refine ⟨rfl, ?_⟩
  decide +kernel

/-! ### A paused chain -/

def pauseEnd (P : Prims) (st : StateMap) : U64 := (runIn P readEmergencyPauseEndSlot st).1

/-- The step resumes the chain, with the signatures that it takes. -/
def ChainStep.Resumes (P : Prims) (pvm : Pvm) (step : ChainStep) : Prop :=
  step.submission.tx.txType = .emergencyResume ∧ takesEffect (step.run P pvm).1 = true ∧
    Authorized P step.before step.submission.tx step.submission.ctx.chainId

/-- The step changes nothing but records, and if it is of another kind, it is refused and changes nothing at all. -/
def ChainStep.Frozen (P : Prims) (pvm : Pvm) (keys : Set StateKey) (st : StateMap) (step : ChainStep) : Prop :=
  SameSystem P keys st (step.run P pvm).2 ∧
    (step.submission.tx.txType ≠ .emergencyResume → step.run P pvm = (.error chainPaused, step.before))

section

variable {P : Prims} {pvm : Pvm} {keys : Set StateKey} {sub : Submission} {st : StateMap}
  (hinj : HashApart P keys)
include hinj

/-- What does not take effect has written nothing but records. -/
theorem sameSystem_of_no_effect (hvalue : sub.tx.txType.carriesValue = false)
    (hsender : .account sub.tx.fromAddress .nonce ∈ keys)
    (hwritten : ∀ key ∈ writtenKeys P (sub.program P pvm) st, key ∈ keys)
    (hnone : takesEffect (runIn P (sub.program P pvm) st).1 = false) :
    SameSystem P keys st (runIn P (sub.program P pvm) st).2 := by
  obtain ⟨-, e, hrun⟩ | ⟨-, reason, hend⟩ | ⟨charge, purse, -, -, hend⟩ :=
    execute_valueless_cases P pvm sub st hvalue
  · rw [hrun]
    exact .refl P keys st
  · have hsame := sameSystem_of_writes (writesRecord_emitFailedExecutionReceipt _ reason) hinj
      fun key hkey => hwritten key (hend.written key hkey)
    rw [hend.run]
    exact (sameSystem_nonceRecorded hinj hsender).trans hsame
  · have hsame := sameSystem_of_writes (writesRecord_settle _ _ _ (handled P pvm sub st purse).1) hinj
      fun key hkey => hwritten key (hend.written key hkey)
    rw [hend.run] at hnone ⊢
    have hkept : (handled P pvm sub st purse).2 = nonceRecorded P sub.tx st :=
      (failsClean_dispatch P pvm sub.native sub.tx sub.ctx _).clean.run stored (StateKey.hash P) hnone
    rw [hkept] at hsame ⊢
    exact (sameSystem_nonceRecorded hinj hsender).trans hsame

variable (hfields : ∀ field ∈ multisigFields, .single field ∈ keys)
include hfields

/-- One step of a paused chain. -/
theorem frozen_step (hsender : .account sub.tx.fromAddress .nonce ∈ keys)
    (hwritten : ∀ key ∈ writtenKeys P (sub.program P pvm) st, key ∈ keys)
    (hpaused : sub.ctx.height < pauseEnd P st) :
    ChainStep.Resumes P pvm { submission := sub, before := st } ∨
      ChainStep.Frozen P pvm keys st { submission := sub, before := st } := by
  by_cases htype : sub.tx.txType = .emergencyResume
  · have hkind : sub.tx.txType.isMultisig = true := htype ▸ rfl
    obtain ⟨hnone, -⟩ | ⟨heffect, hauthorized, -⟩ := authorizedStep_execute hkind hinj hfields hsender hwritten
    · exact .inr ⟨sameSystem_of_no_effect hinj (htype ▸ rfl) hsender hwritten hnone, fun hne => absurd htype hne⟩
    · exact .inl ⟨htype, heffect, hauthorized⟩
  · have hadmission : runIn P (admission P sub.tx sub.ctx) st = (.error chainPaused, st) := by
      unfold admission
      rw [run_isPaused_bind, if_pos ⟨decide_eq_true hpaused, htype⟩]
      rfl
    have hrun : ChainStep.run P pvm { submission := sub, before := st } = (.error chainPaused, st) :=
      run_executeTransaction_of_refused hadmission
    refine .inr ⟨?_, fun _ => hrun⟩
    rw [hrun]
    exact .refl P keys st

end

/-- A pause holds until it is resumed with the signatures of a threshold of the signers, or its end is reached: until
then no transaction changes code, storage, the configuration or any other key beyond nonces and account records, and
those that are no `EmergencyResume` change nothing at all. -/
theorem pause_holds_until_resumed (P : Prims) (pvm : Pvm) (keys : Set StateKey)
    (hfree : P.CollisionFreeOn (StateKey.preimage '' keys)) {subs : List Submission} {st : StateMap}
    (hkeys : multisigKeysInPlay P pvm subs st ⊆ keys) (hend : .single .emergencyPauseEndSlot ∈ keys)
    (hpaused : ∀ sub ∈ subs, sub.ctx.height < pauseEnd P st) :
    ∃ held rest, chainSteps P pvm subs st = held ++ rest ∧ (∀ step ∈ held, step.Frozen P pvm keys st) ∧
      ∀ step ∈ rest.head?, step.Resumes P pvm := by
  have hinj := StateKey.injOn_hash hfree
  have hfields : ∀ field ∈ multisigFields, .single field ∈ keys :=
    fun field hfield => hkeys (.inr ⟨field, hfield, rfl⟩)
  have hplay : keysInPlay P pvm subs st ⊆ keys := fun key hkey => hkeys (.inl hkey)
  -- the state before each step differs from the first one in records only
  suffices hrun : ∀ {now : StateMap}, SameSystem P keys st now → keysInPlay P pvm subs now ⊆ keys →
      ∃ held rest, chainSteps P pvm subs now = held ++ rest ∧ (∀ step ∈ held, step.Frozen P pvm keys st) ∧
        ∀ step ∈ rest.head?, step.Resumes P pvm from hrun (.refl P keys st) hplay
  clear hkeys hplay
  intro now hnow hplay
  induction subs generalizing now with
  | nil => exact ⟨[], [], rfl, forall_mem_nil _, by simp⟩
  | cons sub rest ih =>
    obtain ⟨hwritten, hsender, hrest⟩ := keysInPlay_step hplay
    rw [forall_mem_cons] at hpaused
    have hsame : pauseEnd P now = pauseEnd P st := by
      have hkey := hnow _ hend (by rintro ⟨_, h | h⟩ <;> cases h)
      unfold pauseEnd readEmergencyPauseEndSlot readGlobal readInt
      simp only [run_bind, run_read, run_pure, hkey]
    rw [chainSteps]
    obtain hresumes | hfrozen := frozen_step hinj hfields hsender hwritten (hsame ▸ hpaused.1)
    · exact ⟨[], _, rfl, forall_mem_nil _, by simpa using hresumes⟩
    have hafter := hnow.trans hfrozen.1
    obtain ⟨held, later, hsteps, hheld, hlater⟩ := ih hpaused.2 hafter hrest
    exact ⟨_ :: held, later, congrArg _ hsteps, forall_mem_cons.mpr ⟨⟨hafter, hfrozen.2⟩, hheld⟩, hlater⟩

/-- The multisig of `multisigState`, paused. -/
def pausedState : StateMap :=
  StateProgram.insert stored (multisigState 0) ((StateKey.single .emergencyPauseEndSlot).hash lucid) (toLe (1000 : U64))

theorem pause_holds_until_resumed_spend : ∃ held rest,
    chainSteps lucid idlePvm [spendSubmission 0 0] pausedState = held ++ rest ∧
      (∀ step ∈ held, step.Frozen lucid idlePvm {key | key ∈ .single .emergencyPauseEndSlot :: spendKeys}
        pausedState) ∧ ∀ step ∈ rest.head?, step.Resumes lucid idlePvm := by
  refine pause_holds_until_resumed lucid idlePvm _
    (collisionFreeOn_of_listed (.single .emergencyPauseEndSlot :: spendKeys) (by decide +kernel) fun _ h => h) ?_
    mem_cons_self (by decide +kernel)
  have hwritten : ∀ key ∈ keysWritten lucid idlePvm [spendSubmission 0 0] pausedState,
      key ∈ .single .emergencyPauseEndSlot :: spendKeys := by decide +kernel
  have hfields : ∀ field ∈ multisigFields, StateKey.single field ∈ spendKeys := by decide
  rintro key ((hkey | ⟨sub, hsub, rfl⟩) | ⟨field, hfield, rfl⟩)
  · exact hwritten key hkey
  · rw [mem_singleton.mp hsub]
    exact mem_cons_of_mem _ mem_cons_self
  · exact mem_cons_of_mem _ (hfields field hfield)

end Pyde
