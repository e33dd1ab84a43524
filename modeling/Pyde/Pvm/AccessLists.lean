/-
Module: Pyde.Pvm.AccessLists
Purpose: Which storage keys a call tree records. An access list is checked on loads and stores of the first frame only;
  every key belongs to the contract of a frame that runs; and the access list that a simulation suggests.
Trusted boundary: the sponge over field elements, Prims; compiled code is not modelled
-/
import Pyde.Pvm.StaticFrames

namespace Pyde.PVM

open ByteCodec StateProgram Fallible List

variable {P : Prims} {oracle : StateKey → Option Bytes} {good : Event → Prop} {allowed : Finset U256}

/-! ### Events on storage -/

/-- The storage key that an event is about. -/
def Event.storageKey : Event → Option U256
  | .touched _ _ key | .loaded _ _ key _ | .wrote key _ | .cleared key => some key
  | .ran _ | .charged _ | .overdrawn _ | .created _ => none

def storageOpcodes : List Opcode := [.sload, .sstore, .sdelete]

/-- A frame that has recorded good events only, and that has no list but the given one. -/
structure Recorded (good : Event → Prop) (allowed : Finset U256) (vm : Vm) : Prop where
  events : ∀ event ∈ vm.trace, good event
  own : ∀ keys ∈ vm.allowedStorageKeys, keys = allowed

/-- Two frames that have recorded good events only, the one below without a list of its own. -/
structure BothRecorded (good : Event → Prop) (allowed : Finset U256) (child t : Vm) : Prop where
  caller : Recorded good allowed t
  callee : Recorded good allowed child

section

variable {s t : Vm}

section

variable (h : Recorded good allowed s)
include h

theorem Recorded.extend (events : List Event) (htrace : t.trace = s.trace ++ events)
    (hallowed : t.allowedStorageKeys = s.allowedStorageKeys) (hevents : ∀ event ∈ events, good event) :
    Recorded good allowed t where
  events := by
    rw [htrace, forall_mem_append]
    exact ⟨h.events, hevents⟩
  own := by rw [hallowed]; exact h.own

theorem Recorded.same (htrace : t.trace = s.trace) (hallowed : t.allowedStorageKeys = s.allowedStorageKeys) :
    Recorded good allowed t :=
  h.extend [] (by rw [htrace, append_nil]) hallowed (forall_mem_nil _)

theorem Recorded.undisturbed (hsame : Undisturbed s t) : Recorded good allowed t := h.same hsame.trace hsame.allowed

theorem Recorded.journalStorage (key : U256) : Recorded good allowed (s.journalStorage key) := by
  obtain ⟨_, _, heq⟩ := s.journalStorage_eq key
  rw [heq]
  exact h.same rfl rfl

theorem Recorded.refundCleared {key : U256} (hkey : good (.cleared key)) :
    Recorded good allowed (s.refundCleared key) := by
  unfold Vm.refundCleared
  split
  · exact h.extend [.cleared key] rfl rfl (forall_mem_singleton.mpr hkey)
  · exact h

theorem Recorded.fetched (hfetched : Fetched oracle s t) : Recorded good allowed t := by
  obtain ⟨memory, contracts, rfl⟩ := hfetched.same
  exact h.same rfl rfl

end

/-- A frame below starts with an empty record and without a list. -/
theorem recorded_fresh {frame child : Vm} (hstill : Still frame child) (htrace : frame.trace = [])
    (hallowed : frame.allowedStorageKeys = none) : Recorded good allowed child where
  events := by
    rw [hstill.trace, htrace]
    exact forall_mem_nil _
  own := by
    rw [allowedStorageKeys_of_world hstill.world, hallowed]
    exact nofun

end

/-! ### One instruction -/

section

variable {t s : Vm} {d : DecodedInstruction}

theorem recorded_spawnCall {isStatic isDelegate : Bool} (h : Recorded good allowed s) :
    After (fun answer t => match answer with
        | none => Recorded good allowed t
        | some child => BothRecorded good allowed child t)
      (fun _ => Recorded good allowed) ((spawnCall d isStatic isDelegate).exec oracle s) := by
  refine after_spawnCall.mono ?_ ?_
  · intro answer t ht
    cases answer with
    | none => exact h.fetched ht
    | some child =>
      obtain ⟨t₀, rfl, hspawned⟩ := ht
      obtain ⟨_, _, _, _, -, -, hstill⟩ := hspawned.frame
      exact ⟨(h.fetched hspawned.fetched).same rfl rfl, recorded_fresh hstill rfl rfl⟩
  · rintro e t ⟨t₀, ht₀, rfl | ⟨rfl, -⟩⟩
    · exact h.fetched ht₀
    · exact (h.fetched ht₀).same rfl rfl

-- from here on, whatever is not about storage is good
variable (hquiet : ∀ event : Event, event.storageKey = none → good event)
include hquiet

theorem recorded_kept (allowed : Finset U256) : KeptLocally (Recorded good allowed) (Recorded good allowed) := by
  have hlocal : ∀ {t t'}, Recorded good allowed t → Local t t' → Recorded good allowed t' := by
    intro t t' ht hlocal
    obtain ⟨gas, hmeters⟩ := hlocal.spent
    refine ht.extend _ hmeters.trace (allowedStorageKeys_of_world hlocal.world) fun event hevent => ?_
    obtain ⟨_, -, rfl⟩ := mem_map.mp hevent
    exact hquiet _ rfl
  refine ⟨hlocal, ?_⟩
  rintro t t' ht ⟨t₁, hmoved, rfl | ⟨gas, total, rfl, -⟩⟩
  · exact hlocal ht hmoved
  · exact (hlocal ht hmoved).extend [.overdrawn gas] rfl rfl (forall_mem_singleton.mpr (hquiet _ rfl))

theorem recorded_deployed (h : Recorded good allowed t) (addr : Address) (runtime : Bytes) :
    Recorded good allowed (t.register addr runtime) :=
  h.extend [.created addr] rfl rfl (forall_mem_singleton.mpr (hquiet _ rfl))

theorem recorded_beginCreate (h : Recorded good allowed s) : After (fun creation t => match creation.rest with
        | .inl child => BothRecorded good allowed child t
        | .inr balances => After (fun _ => Recorded good allowed) (fun e t' => e = .outOfGas ∧
          Recorded good allowed t')
            ((deploy creation.address creation.runtime balances).exec oracle t))
      (fun _ => Recorded good allowed) ((beginCreate P d).exec oracle s) := by
  refine after_beginCreate.mono ?_ ?_
  · rintro creation t ⟨t₀, rfl, hbegun⟩
    obtain ⟨memory, rfl⟩ := hbegun.same
    have hcounted : Recorded good allowed ({ s with memory := memory } : Vm).countCreation := h.same rfl rfl
    obtain ⟨ctx, -, hrest⟩ := hbegun.rest
    obtain ⟨addr, runtime, child | balances⟩ := creation
    · obtain ⟨args, hstill⟩ := hrest
      exact ⟨hcounted, recorded_fresh hstill rfl rfl⟩
    · have hmerged := hcounted.undisturbed (Vm.mergeBalances_undisturbed _ balances)
      exact (recorded_kept hquiet allowed).deploy hmerged fun ht => recorded_deployed hquiet ht _ _
  · rintro e t ⟨memory, -, rfl | rfl⟩
    · exact h.same rfl rfl
    · exact h.same rfl rfl

end

/-- What a storage instruction on a slot would record is good: the touch, if static mode does not stop the instruction
and its key passes the check that is made, and the rest. -/
structure Vm.RecordsGood (P : Prims) (good : Event → Prop) (vm : Vm) (d : DecodedInstruction) (slot : U256) :
    Prop where
  touch : (vm.staticMode = true → d.opcode = .sload) →
    d.opcode = .sdelete ∨ (d.opcode = .sload ∨ d.opcode = .sstore) ∧ vm.Permits (vm.slotKey P slot) →
      ∀ contract bytes, good (.touched contract bytes (vm.slotKey P slot))
  load : ∀ contract bytes value, good (.loaded contract bytes (vm.slotKey P slot) value)
  write : ∀ value, good (.wrote (vm.slotKey P slot) value)
  clear : good (.cleared (vm.slotKey P slot))

section

variable {s : Vm} {d : DecodedInstruction} (hquiet : ∀ event : Event, event.storageKey = none → good event)
  (h : Recorded good allowed s)
  (hgood : ∀ {slot}, s.cpu.readWideChecked d.rs1 = .ok slot → s.RecordsGood P good d slot)

include hquiet h hgood

theorem recorded_execSload (hop : d.opcode = .sload) :
    After (fun _ => Recorded good allowed) (fun _ => Recorded good allowed) ((execSload P d).exec oracle s) := by
  apply (recorded_kept hquiet allowed).execSload h
  · intro slot t hslot hpermits _ ht
    have htouch := (hgood hslot).touch (fun _ => hop) (.inr ⟨.inl hop, hpermits⟩)
    exact ht.extend [_] rfl rfl (forall_mem_singleton.mpr (htouch _ _))
  · exact fun _ _ ht _ _ => ht.same rfl rfl
  · exact fun hslot _ ht => ht.extend [_] rfl rfl (forall_mem_singleton.mpr ((hgood hslot).load _ _ _))

theorem recorded_execSstore (hop : d.opcode = .sstore) :
    After (fun _ => Recorded good allowed) (fun _ => Recorded good allowed) ((execSstore P d).exec oracle s) := by
  by_cases hstatic : s.staticMode = true
  · rw [exec_execSstore_static hstatic]
    exact h
  apply (recorded_kept hquiet allowed).execSstore h
  · intro slot t hslot hpermits _ ht
    have htouch := (hgood hslot).touch (fun hmode => absurd hmode hstatic) (.inr ⟨.inr hop, hpermits⟩)
    exact ht.extend [_] rfl rfl (forall_mem_singleton.mpr (htouch _ _))
  · exact fun _ _ ht => ht.journalStorage _
  · exact fun hslot _ ht _ => ht.extend [_] rfl rfl (forall_mem_singleton.mpr ((hgood hslot).write _))

theorem recorded_execSdelete (hop : d.opcode = .sdelete) :
    After (fun _ => Recorded good allowed) (fun _ => Recorded good allowed) ((execSdelete P d).exec oracle s) := by
  by_cases hstatic : s.staticMode = true
  · rw [exec_execSdelete_static hstatic]
    exact h
  apply (recorded_kept hquiet allowed).execSdelete h
  · intro slot t hslot _ ht
    have htouch := (hgood hslot).touch (fun hmode => absurd hmode hstatic) (.inl hop)
    exact ht.extend [_] rfl rfl (forall_mem_singleton.mpr (htouch _ _))
  · exact fun _ _ ht => ht.journalStorage _
  · exact fun hslot _ ht => ht.refundCleared (hgood hslot).clear
  · exact fun hslot _ ht _ => ht.extend [_] rfl rfl (forall_mem_singleton.mpr ((hgood hslot).write _))

omit hgood in
theorem recorded_handles (hgood : d.opcode ∈ storageOpcodes →
      ∀ {slot}, s.cpu.readWideChecked d.rs1 = .ok slot → s.RecordsGood P good d slot) :
    Handles P oracle d s (Recorded good allowed) (Recorded good allowed)
      fun child _ t => BothRecorded good allowed child t where
  start := h
  kept := recorded_kept hquiet allowed
  sload := fun hop => recorded_execSload hquiet h (hgood (by simp [hop, storageOpcodes])) hop
  sstore := fun hop => recorded_execSstore hquiet h (hgood (by simp [hop, storageOpcodes])) hop
  sdelete := fun hop => recorded_execSdelete hquiet h (hgood (by simp [hop, storageOpcodes])) hop
  log := fun _ => (recorded_kept hquiet allowed).execLog h fun _ ht => ht.same rfl rfl
  call := fun _ _ _ => recorded_spawnCall h
  create := fun _ _ => recorded_beginCreate hquiet h

end

section

variable {s t : Vm} (hquiet : ∀ event : Event, event.storageKey = none → good event)
include hquiet

theorem recorded_advanceStep (h : Recorded good allowed s) (hgood : ∀ d ∈ s.instruction?,
      d.opcode ∈ storageOpcodes → s.Affords (totalGas d.opcode.toU8) → ∀ slot ∈ (s.cpu.readWideChecked d.rs1).toOption,
        s.RecordsGood P good d slot) :
    After (Progressed (Recorded good allowed) fun child _ t => BothRecorded good allowed child t)
      (fun _ => Recorded good allowed) ((advanceStep P).exec oracle s) := by
  apply after_advanceStep h (fun _ _ _ _ => h.extend [_] rfl rfl (forall_mem_singleton.mpr (hquiet _ rfl)))
  intro d total hinstruction htotal hwithin
  have hbegun : Recorded good allowed (s.begun d total) := by
    refine h.extend [.charged (totalGas d.opcode.toU8), .ran d.opcode] (by simp [Vm.begun]) rfl ?_
    exact forall_mem_cons.mpr ⟨hquiet _ rfl, forall_mem_singleton.mpr (hquiet _ rfl)⟩
  have haffords : s.Affords (totalGas d.opcode.toU8) := by
    refine ⟨htotal ▸ total.isLt, hwithin.imp id fun hle => ?_⟩
    rw [← htotal]
    exact hle
  refine (recorded_handles hquiet hbegun fun hstorage {slot} hslot => ?_).dispatch
  have hread : (s.cpu.readWideChecked d.rs1).toOption = some slot := congrArg Except.toOption hslot
  have hrecords := hgood d hinstruction hstorage haffords slot hread
  exact ⟨hrecords.touch, hrecords.load, hrecords.write, hrecords.clear⟩

/-! ### Frames below -/

theorem recorded_resumeStep (h : Recorded good allowed t) (pending : Pending) {answer : ExecutionOutput × Vm}
    (hanswer : ∀ event ∈ answer.2.trace, good event) :
    After (fun _ => Recorded good allowed) (fun _ =>
      Recorded good allowed) ((resumeStep pending answer).exec oracle t) := by
  obtain ⟨output, child⟩ := answer
  have hjoined : ∀ total, Recorded good allowed (t.joined child total) := fun _ => h.extend _ rfl rfl hanswer
  have hkept := recorded_kept hquiet allowed
  cases pending with
  | call d isDelegate =>
    exact after_resumeStep_call hkept (fun _ => hjoined _) (fun total _ _ _ => hjoined total) fun total _ _ =>
      (hjoined total).undisturbed ((t.joined child total).settle_undisturbed isDelegate output child)
  | constructor d addr runtime =>
    refine after_resumeStep_constructor hkept (fun _ => hjoined _) (fun total _ _ _ => hjoined total)
      (fun total _ _ => hjoined total) (fun _ total ht' => ?_) fun _ _ ht' => recorded_deployed hquiet ht' _ _
    have hmerged := ht'.undisturbed ((t.joined child total).mergeStorage_undisturbed child)
    exact hmerged.undisturbed (Vm.mergeBalances_undisturbed _ child.ctx.balances)

omit hquiet in
theorem events_finishFrame (entry : Vm) (res : Except Trap ExecResult) (h : Recorded good allowed s) :
    ∀ event ∈ (finishFrame entry res s).2.trace, good event := by
  rw [trace_finishFrame]
  exact h.events

/-- If every instruction that is taken records good events, so do whole frames with all frames below them. -/
theorem recorded_specifies {holds : Machine.Moment Vm Pending (ExecutionOutput × Vm) → Prop}
    (hholds : ∀ s, Recorded good allowed s → holds (.taken s) → ∀ d ∈ s.instruction?,
      d.opcode ∈ storageOpcodes → s.Affords (totalGas d.opcode.toU8) → ∀ slot ∈ (s.cpu.readWideChecked d.rs1).toOption,
        s.RecordsGood P good d slot) :
    (machine P).Specifies oracle holds (Recorded good allowed) (fun _ => Recorded good allowed)
      fun _ answer => ∀ event ∈ answer.2.trace, good event where
  start := fun _ h => h.same rfl rfl
  cut := fun entry _ h => events_finishFrame entry _ h
  keeps := by
    intro entry s h hmoment
    apply Machine.Keeps.of_step (m := machine P) (recorded_advanceStep hquiet h (hholds s h hmoment))
    · exact fun ht => ht
    · exact fun ht => events_finishFrame entry _ ht
    · exact fun ht => events_finishFrame entry _ ht
    · exact fun hspawned => hspawned.callee
    · exact fun hspawned _ hanswer => recorded_resumeStep hquiet hspawned.caller _ hanswer

end

/-! ### Enforcement of an access list -/

def Listed (allowed : Finset U256) (trace : List Event) : Prop :=
  ∀ contract slot key, .touched contract slot key ∈ trace → key ∈ allowed

/-- An instruction that touches storage without a look at a list: a deletion, or any in a frame without a list. -/
def Vm.Unchecked (vm : Vm) (d : DecodedInstruction) : Prop :=
  d.opcode = .sdelete ∨ vm.allowedStorageKeys = none ∧ (d.opcode = .sload ∨ d.opcode = .sstore)

/-- An instruction that is paid for and not stopped in static mode. -/
def Vm.Admitted (vm : Vm) (d : DecodedInstruction) : Prop :=
  vm.Affords (totalGas d.opcode.toU8) ∧ (vm.staticMode = true → d.opcode = .sload)

def Vm.KeepsToList (P : Prims) (allowed : Finset U256) (vm : Vm) : Prop :=
  ∀ d ∈ vm.instruction?, vm.Unchecked d → vm.Admitted d → ∀ slot ∈ (vm.cpu.readWideChecked d.rs1).toOption,
    deriveStorageKey P vm.ctx.selfAddress slot ∈ allowed

instance (vm : Vm) (d : DecodedInstruction) : Decidable (vm.Unchecked d) := inferInstanceAs (Decidable (_ ∨ _))

instance (vm : Vm) (d : DecodedInstruction) : Decidable (vm.Admitted d) := inferInstanceAs (Decidable (_ ∧ _))

instance (P : Prims) (allowed : Finset U256) (vm : Vm) : Decidable (vm.KeepsToList P allowed) :=
  -- the one slot is looked at, not every word
  have (d : DecodedInstruction) : Decidable (∀ slot ∈ (vm.cpu.readWideChecked d.rs1).toOption,
      deriveStorageKey P vm.ctx.selfAddress slot ∈ allowed) := Option.decidableForallMem _
  inferInstanceAs (Decidable (∀ d ∈ vm.instruction?, _))

/-- A moment at which the list is kept to where that is not checked. -/
def AccessListed (P : Prims) (allowed : Finset U256) : Machine.Moment Vm Pending (ExecutionOutput × Vm) → Prop
  | .taken vm => vm.KeepsToList P allowed
  | .joined _ _ _ _ => True

instance (P : Prims) (allowed : Finset U256) : DecidablePred (AccessListed P allowed)
  | .taken vm => inferInstanceAs (Decidable (vm.KeepsToList P allowed))
  | .joined _ _ _ _ => inferInstanceAs (Decidable True)

/-- A key that an instruction which is taken touches without a look at a list. -/
def TouchedUnchecked (P : Prims) (oracle : StateKey → Option Bytes) (vm : Vm) (key : U256) : Prop :=
  ∃ t d slot, Occurs P oracle vm (.taken t) ∧ t.instruction? = some d ∧ t.Unchecked d ∧ t.Admitted d ∧
    (t.cpu.readWideChecked d.rs1).toOption = some slot ∧ t.slotKey P slot = key

def PassedEvent (passed : U256 → Prop) : Event → Prop
  | .touched _ _ key => passed key
  | _ => True

/-- In a call tree under a list, every key that is touched is in the list or is touched without a look at it. -/
theorem touched_listed_or_unchecked {vm : Vm} (hallowed : vm.allowedStorageKeys = some allowed) (hfresh : vm.trace = [])
    {contract : Address} {bytes : Bytes} {key : U256}
    (hmem : .touched contract bytes key ∈ ((execute P vm).answer oracle).2.trace) :
    key ∈ allowed ∨ TouchedUnchecked P oracle vm key := by
  let passed (key : U256) : Prop := key ∈ allowed ∨ TouchedUnchecked P oracle vm key
  have hstart : Recorded (PassedEvent passed) allowed vm := by
    refine ⟨by rw [hfresh]; exact forall_mem_nil _, fun keys hkeys => ?_⟩
    rw [hallowed] at hkeys
    exact (Option.some.inj hkeys).symm
  have hquiet : ∀ event : Event, event.storageKey = none → PassedEvent passed event := by
    intro event hevent
    cases event with
    | touched => cases hevent
    | _ => trivial
  have hspecifies : (machine P).Specifies oracle (Occurs P oracle vm) (Recorded (PassedEvent passed) allowed)
      (fun _ => Recorded (PassedEvent passed) allowed)
      fun _ answer => ∀ event ∈ answer.2.trace, PassedEvent passed event := by
    refine recorded_specifies hquiet fun s h hs d hd _ haffords slot hslot => ?_
    refine ⟨fun hmode htouches _ _ => ?_, fun _ _ _ => trivial, fun _ => trivial, trivial⟩
    rcases htouches with hdelete | ⟨hop, hpermits⟩
    · exact .inr ⟨s, d, slot, hs, hd, .inl hdelete, ⟨haffords, hmode⟩, hslot, rfl⟩
    cases hlist : s.allowedStorageKeys with
    | none => exact .inr ⟨s, d, slot, hs, hd, .inr ⟨hlist, hop⟩, ⟨haffords, hmode⟩, hslot, rfl⟩
    | some keys => exact .inl (h.own keys hlist ▸ hpermits keys hlist)
  exact hspecifies.run _ vm hstart (fun _ hmoment => hmoment) _ hmem

/-- What runs a loaded frame in `execute_in_pvm`: compiled code first, if there is any, and the interpreter, also on
what compiled code leaves behind when it fails. -/
def runLoaded (aot : Option (Vm → Except Vm (ExecutionOutput × Vm))) (P : Prims) (vm : Vm) :
    Query StateKey Bytes (ExecutionOutput × Vm) :=
  match aot with
  | none => execute P vm
  | some func =>
    match func vm with
    | .ok done => pure done
    | .error left =>
      execute P { left with storage := vm.storage, logs := vm.logs, gasUsedTotal := 0, gasRefund := 0, pc := 0 }

/-- A successful frame and the frames below it have touched listed keys only. -/
def KeepsToList (aot : Option (Vm → Except Vm (ExecutionOutput × Vm))) (P : Prims)
    (oracle : StateKey → Option Bytes) (allowed : Finset U256) (vm : Vm) : Prop :=
  ((runLoaded aot P vm).answer oracle).1.outcome = .success →
    Listed allowed ((runLoaded aot P vm).answer oracle).2.trace

theorem keepsToList_none (P : Prims) (oracle : StateKey → Option Bytes) (allowed : Finset U256) (vm : Vm) :
    KeepsToList none P oracle allowed vm ↔ (((execute P vm).answer oracle).1.outcome = .success →
      Listed allowed ((execute P vm).answer oracle).2.trace) := Iff.rfl

/-- Without compiled code, a call tree in which every unchecked instruction keeps to the list has touched listed keys
only, in the first frame and in all frames below it. -/
theorem access_list_enforced (aot : Option (Vm → Except Vm (ExecutionOutput × Vm))) (P : Prims)
    (oracle : StateKey → Option Bytes) (allowed : Finset U256) (vm : Vm) (haot : aot = none)
    (hallowed : vm.allowedStorageKeys = some allowed) (hfresh : vm.trace = [])
    (hkeeps : ∀ moment, Occurs P oracle vm moment → AccessListed P allowed moment) :
    KeepsToList aot P oracle allowed vm := by
  rw [haot, keepsToList_none]
  intro _ contract bytes key hmem
  rcases touched_listed_or_unchecked hallowed hfresh hmem with
    hlisted | ⟨t, d, slot, hoccurs, hd, hunchecked, hadmitted, hslot, rfl⟩
  · exact hlisted
  · exact hkeeps _ hoccurs d hd hunchecked hadmitted slot hslot

/-- The list of the first slots of two contracts. -/
def firstSlots : Finset U256 := {deriveStorageKey lucid zero32 0, deriveStorageKey lucid (wordBytes 1) 0}

/-- The first frame of a transaction with an access list. -/
def listing (allowed : Finset U256) (code : Bytes) : Vm :=
  { outermost 100000 .default [] code with allowedStorageKeys := some allowed }

/-- A caller that stores under a listed key, deletes it and calls a contract which reads another. -/
def listedCaller : Vm :=
  listing firstSlots (assemble [encode .sstore 0 0 0, encode .sdelete 0 0 0, encode .addi 8 0 1,
    encode .widen 1 8 0, encode .callExt 1 0 0, encode .halt 0 0 0])

def slotReader : StateKey → Option Bytes :=
  stateWith (wordBytes 1) (assemble [encode .sload 2 0 0, encode .halt 0 0 0])

theorem access_list_enforced_listed :
    KeepsToList none lucid slotReader firstSlots listedCaller ∧
      ((execute lucid listedCaller).answer slotReader).1.outcome = .success := by
  refine ⟨?_, by decide +kernel⟩
  apply access_list_enforced none lucid slotReader _ listedCaller rfl (by decide +kernel) (by decide +kernel)
  intro moment hmoment
  have hmonitor : (machine lucid).monitor slotReader stepBound
      (fun moment => AccessListed lucid firstSlots moment)
      8 (maxExtCallDepth + 1) listedCaller.clearJournals = true := by decide +kernel
  exact of_decide_eq_true (Machine.monitor_visits hmonitor hmoment)

/-- A program that deletes a slot of its own, with a list of another contract's slot. -/
def unlistedDeletion : Vm :=
  listing {deriveStorageKey lucid (wordBytes 1) 0} (assemble [encode .sdelete 0 0 0, encode .halt 0 0 0])

/-- A program that calls a contract, with a list of its own slot. -/
def unlistedCall : Vm :=
  listing {deriveStorageKey lucid zero32 0} (assemble [encode .addi 8 0 1, encode .widen 1 8 0,
    encode .callExt 1 0 0, encode .halt 0 0 0])

/-- The deletion is not checked, and neither is what the callee reads. -/
theorem unlisted_keys_touched :
    ¬ KeepsToList none lucid slotReader {deriveStorageKey lucid (wordBytes 1) 0} unlistedDeletion ∧
      ¬ KeepsToList none lucid slotReader {deriveStorageKey lucid zero32 0} unlistedCall := by
  rw [keepsToList_none, keepsToList_none]
  constructor
  · intro h
    have hsuccess : ((execute lucid unlistedDeletion).answer slotReader).1.outcome = .success := by decide +kernel
    have htouched : .touched zero32 (slotBytes 0) (deriveStorageKey lucid zero32 0) ∈
        ((execute lucid unlistedDeletion).answer slotReader).2.trace := by decide +kernel
    exact absurd (h hsuccess _ _ _ htouched) (by decide +kernel)
  · intro h
    have hsuccess : ((execute lucid unlistedCall).answer slotReader).1.outcome = .success := by decide +kernel
    have htouched : .touched (wordBytes 1) (slotBytes 0) (deriveStorageKey lucid (wordBytes 1) 0) ∈
        ((execute lucid unlistedCall).answer slotReader).2.trace := by decide +kernel
    exact absurd (h hsuccess _ _ _ htouched) (by decide +kernel)

/-! ### Whose storage is touched -/

/-- The slot that a storage instruction of the frame is about, if it is at one. -/
def Vm.slotInPlay (vm : Vm) : Option U256 :=
  vm.instruction?.bind fun d =>
    if d.opcode ∈ storageOpcodes then (vm.cpu.readWideChecked d.rs1).toOption else none

/-- The event is about no storage key, or about a slot of an owner. -/
def OwnedEvent (P : Prims) (owned : Address → U256 → Prop) (event : Event) : Prop :=
  ∀ key ∈ event.storageKey, ∃ owner slot, owned owner slot ∧ key = deriveStorageKey P owner slot

/-- Every key that is touched, loaded, written or cleared anywhere in a call tree is derived from the own address of a
frame in it and the slot that a storage instruction of this frame is about. -/
theorem touched_keys_owned (P : Prims) (oracle : StateKey → Option Bytes) {vm : Vm} (hfresh : vm.trace = []) :
    ∀ event ∈ ((execute P vm).answer oracle).2.trace, ∀ key ∈ event.storageKey,
      ∃ t, Occurs P oracle vm (.taken t) ∧ ∃ slot ∈ t.slotInPlay, key = deriveStorageKey P t.ctx.selfAddress slot := by
  let owners (owner : Address) (slot : U256) : Prop :=
    ∃ t, Occurs P oracle vm (.taken t) ∧ t.ctx.selfAddress = owner ∧ slot ∈ t.slotInPlay
  have hstart : Recorded (OwnedEvent P owners) (vm.allowedStorageKeys.getD ∅) vm := by
    refine ⟨by rw [hfresh]; exact forall_mem_nil _, fun keys hkeys => ?_⟩
    rw [Option.mem_def.mp hkeys, Option.getD_some]
  have hquiet : ∀ event : Event, event.storageKey = none → OwnedEvent P owners event := by
    intro event hnone key hkey
    rw [hnone] at hkey
    cases hkey
  have hspecifies : (machine P).Specifies oracle (Occurs P oracle vm)
      (Recorded (OwnedEvent P owners) (vm.allowedStorageKeys.getD ∅))
      (fun _ => Recorded (OwnedEvent P owners) (vm.allowedStorageKeys.getD ∅))
      fun _ answer => ∀ event ∈ answer.2.trace, OwnedEvent P owners event := by
    refine recorded_specifies hquiet fun s _ hs d hd hstorage _ slot hslot => ?_
    have hplayed : slot ∈ s.slotInPlay := by
      rw [Vm.slotInPlay, Option.mem_def.mp hd, Option.bind_some, if_pos hstorage]
      exact hslot
    have hown : ∀ event : Event, event.storageKey = some (s.slotKey P slot) → OwnedEvent P owners event := by
      intro event hevent key hkey
      rw [hevent] at hkey
      exact ⟨_, slot, ⟨s, hs, rfl, hplayed⟩, (Option.some.inj hkey).symm⟩
    exact ⟨fun _ _ _ _ => hown _ rfl, fun _ _ _ => hown _ rfl, fun _ => hown _ rfl, hown _ rfl⟩
  have howned := hspecifies.run _ vm hstart fun _ hmoment => hmoment
  intro event hevent key hkey
  obtain ⟨_, slot, ⟨t, ht, rfl, hplayed⟩, hslot⟩ := howned event hevent key hkey
  exact ⟨t, ht, slot, hplayed, hslot⟩

/-- A moment at which the slot that storage is accessed at is among the keys. -/
def SlotsWithin (keys : Set ModuleKey) : Machine.Moment Vm Pending (ExecutionOutput × Vm) → Prop
  | .taken vm => ∀ slot ∈ vm.slotInPlay, ModuleKey.slot vm.ctx.selfAddress slot ∈ keys
  | .joined _ _ _ _ => True

instance (keys : Set ModuleKey) [DecidablePred (· ∈ keys)] : DecidablePred (SlotsWithin keys)
  | .taken vm =>
    have : DecidablePred fun slot => ModuleKey.slot vm.ctx.selfAddress slot ∈ keys := fun _ => inferInstance
    Option.decidableForallMem vm.slotInPlay
  | .joined _ _ _ _ => inferInstanceAs (Decidable True)

section

variable {sponge : List Goldilocks → List.Vector Goldilocks 4} {keys : Set ModuleKey}
  (hfree : Set.InjOn sponge (bytesToElements '' (ModuleKey.preimage '' keys)))
  (hsize : ∀ key ∈ keys, key.preimage.length < 2 ^ 63) {contract : Address} {slot : U256}
  (hslot : ModuleKey.slot contract slot ∈ keys)

include hfree hsize hslot

/-- The key of a slot belongs to this slot of this contract alone, and is derived beforehand just if an access list
names the slot. It is touched, loaded or written in a call tree only if a frame of this contract runs in it, and none of
the other keys of the key module is. -/
theorem storage_isolated (P : Prims) :
    (∀ contract' slot', ModuleKey.slot contract' slot' ∈ keys →
      (deriveStorageKey (P.withSponge sponge) contract' slot' = deriveStorageKey (P.withSponge sponge) contract slot ↔
        contract' = contract ∧ slot' = slot)) ∧
    (∀ accessList callee, (∀ entry ∈ accessList, ∀ rawKey ∈ entry.reads ++ entry.writes,
        ModuleKey.slot (targetOf callee entry) (bytesWord rawKey) ∈ keys) →
      (deriveStorageKey (P.withSponge sponge) contract slot ∈
          preDeriveAccessListKeys (P.withSponge sponge) accessList callee ↔
        ∃ entry ∈ accessList, targetOf callee entry = contract ∧
          wordBytes slot ∈ entry.reads ++ entry.writes)) ∧
    (∀ key ∈ keys, key ≠ .slot contract slot →
      bytesWord (key.hash (P.withSponge sponge)) ≠ deriveStorageKey (P.withSponge sponge) contract slot) ∧
    ∀ (oracle : StateKey → Option Bytes) (vm : Vm), vm.trace = [] →
      let recorded (key : U256) : Prop := ∃ event ∈ ((execute (P.withSponge sponge) vm).answer oracle).2.trace,
        event.storageKey = some key
      (∀ moment, Occurs (P.withSponge sponge) oracle vm moment → SlotsWithin keys moment) →
      (recorded (deriveStorageKey (P.withSponge sponge) contract slot) →
        ∃ t, Occurs (P.withSponge sponge) oracle vm (.taken t) ∧ t.ctx.selfAddress = contract) ∧
      ∀ key ∈ keys, (∀ contract' slot', key ≠ .slot contract' slot') →
        ¬ recorded (bytesWord (key.hash (P.withSponge sponge))) := by
  refine ⟨fun _ _ hslot' => deriveStorageKey_inj hfree hsize hslot P hslot', ?_, ?_, ?_⟩
  · intro accessList callee hlisted
    rw [mem_preDeriveAccessListKeys]
    constructor
    · rintro ⟨entry, hentry, rawKey, hraw, hderived⟩
      obtain ⟨hcontract, rfl⟩ :=
        (deriveStorageKey_inj hfree hsize hslot P (hlisted entry hentry rawKey hraw)).mp hderived
      exact ⟨entry, hentry, hcontract, by rwa [wordBytes_bytesWord]⟩
    · rintro ⟨entry, hentry, rfl, hraw⟩
      exact ⟨entry, hentry, _, hraw, by rw [bytesWord_wordBytes]⟩
  · exact fun key hkey hne h => hne (eq_slot_of_hash hfree hsize hslot P hkey h)
  · intro oracle vm hfresh recorded hplay
    have howned := touched_keys_owned (P.withSponge sponge) oracle hfresh
    constructor
    · rintro ⟨event, hevent, hkey⟩
      obtain ⟨t, ht, slot', hplayed, hderived⟩ := howned event hevent _ hkey
      have hin := hplay _ ht slot' hplayed
      exact ⟨t, ht, ((deriveStorageKey_inj hfree hsize hslot P hin).mp hderived.symm).1⟩
    · rintro key hkeys hsystem ⟨event, hevent, hkey⟩
      obtain ⟨t, ht, slot', hplayed, hderived⟩ := howned event hevent _ hkey
      have hin := hplay _ ht slot' hplayed
      exact hsystem _ _ (eq_slot_of_hash hfree hsize hin P hkeys hderived)

end

/-- Slots of two contracts, and a balance. -/
def isolatedKeys : List ModuleKey :=
  [.slot zero32 0, .slot (fill32 1) 0, .slot zero32 (2 ^ 255), .state (.account zero32 .balance)]

/-- A contract that is called stores at its first slot, and the record of its balance is not written. -/
theorem storage_isolated_slots :
    let trace := ((execute (lucid.withSponge weightedSponge) cautiousCall).answer storingCallee).2.trace
    (∃ event ∈ trace, event.storageKey = some (deriveStorageKey (lucid.withSponge weightedSponge) zero32 0)) ∧
      ¬ ∃ event ∈ trace, event.storageKey =
        some (bytesWord (ModuleKey.hash (lucid.withSponge weightedSponge) (.state (.account zero32 .balance)))) := by
  have hsponge : ∀ key ∈ isolatedKeys, ∀ key' ∈ isolatedKeys, weightedSponge (bytesToElements key.preimage) =
      weightedSponge (bytesToElements key'.preimage) → key = key' := by decide +kernel
  have hfree : Set.InjOn weightedSponge
      (bytesToElements '' (ModuleKey.preimage '' {key | key ∈ isolatedKeys})) := by
    rintro _ ⟨_, ⟨key, hkey, rfl⟩, rfl⟩ _ ⟨_, ⟨key', hkey', rfl⟩, rfl⟩ heq
    rw [hsponge key hkey key' hkey' heq]
  have hsize : ∀ key ∈ isolatedKeys, key.preimage.length < 2 ^ 63 := by decide +kernel
  have hmem : ModuleKey.slot zero32 0 ∈ isolatedKeys := by decide +kernel
  have hwithin : ∀ moment, Occurs (lucid.withSponge weightedSponge) storingCallee cautiousCall moment →
      SlotsWithin {key | key ∈ isolatedKeys} moment := by
    intro moment hmoment
    have hmonitor : (machine (lucid.withSponge weightedSponge)).monitor storingCallee stepBound
        (fun moment => SlotsWithin {key | key ∈ isolatedKeys} moment)
        8 (maxExtCallDepth + 1) cautiousCall.clearJournals = true := by decide +kernel
    exact of_decide_eq_true (Machine.monitor_visits hmonitor hmoment)
  have hrun := (storage_isolated hfree hsize hmem lucid).2.2.2 storingCallee cautiousCall
    (outermost_fresh _ _ _ _).trace hwithin
  have hbalance : ModuleKey.state (.account zero32 .balance) ∈ isolatedKeys := by decide +kernel
  refine ⟨by decide +kernel, fun h => hrun.2 _ hbalance ?_ h⟩
  intro _ _ hslot
  cases hslot

/-! ### infer_access_list -/

section

variable (P : Prims) (order : SetOrder) (tx : Transaction) (block : BlockContext)
  (state : StateKey → Option Bytes)

end

section

variable {P : Prims} {order : SetOrder} {tx : Transaction} {vm : Vm}

end

section

variable {P : Prims} {order : SetOrder} {tx : Transaction} {block : BlockContext} {state : StateKey → Option Bytes}

end

end Pyde.PVM
