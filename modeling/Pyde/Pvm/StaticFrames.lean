/-
Module: Pyde.Pvm.StaticFrames
Purpose: Static mode is inherited by every frame below and stops every instruction that stores, logs or creates.
Trusted boundary: Prims
-/
import Pyde.Pvm.GasBounds

namespace Pyde.PVM

open ByteCodec StateProgram Fallible List

variable {P : Prims} {oracle : StateKey → Option Bytes}

/-! ### What a frame leaves as it was -/

def Backed (P : Prims) (oracle : StateKey → Option Bytes) (key : U256) (value : Bytes) : Prop :=
  ∃ contract slot, key = deriveStorageKey P contract slot ∧ oracle (.slot contract (slotBytes slot)) = some value

def Deployed (oracle : StateKey → Option Bytes) (addr : Address) (code : Bytes) : Prop :=
  oracle (.account addr .code) = some code

/-- Balances and logs are the same. So are storage and contracts, up to values that the state has and that were
kept. -/
structure Unchanged (P : Prims) (oracle : StateKey → Option Bytes) (before after : Vm) : Prop where
  ctx : after.ctx = before.ctx
  logs : after.logs = before.logs
  storage : Caches (Backed P oracle) before.storage after.storage
  contracts : Caches (Deployed oracle) before.contracts after.contracts

/-- A static frame that has changed nothing and has nothing to undo. -/
structure Frozen (P : Prims) (oracle : StateKey → Option Bytes) (entry s : Vm) : Prop
    extends Unchanged P oracle entry s where
  mode : s.staticMode = true
  storageJournal : s.storageJournal = []
  balanceJournal : s.balanceJournal = []

section

variable {entry s t : Vm}

theorem Frozen.of_world (h : Frozen P oracle entry s) (hworld : t.world = s.world) : Frozen P oracle entry t where
  ctx := (ctx_of_world hworld).trans h.ctx
  logs := (logs_of_world hworld).trans h.logs
  storage := by rw [storage_of_world hworld]; exact h.storage
  contracts := by rw [contracts_of_world hworld]; exact h.contracts
  mode := (staticMode_of_world hworld).trans h.mode
  storageJournal := (storageJournal_of_world hworld).trans h.storageJournal
  balanceJournal := (balanceJournal_of_world hworld).trans h.balanceJournal

theorem frozen_kept (entry : Vm) : KeptLocally (Frozen P oracle entry) (Frozen P oracle entry) where
  moved := fun ht hlocal => ht.of_world hlocal.world
  lapsed := by
    rintro t t' ht ⟨t₁, hlocal, rfl | ⟨gas, total, rfl, -⟩⟩
    · exact ht.of_world hlocal.world
    · exact ht.of_world hlocal.world

theorem Frozen.fetched (h : Frozen P oracle entry s) (hfetched : Fetched oracle s t) : Frozen P oracle entry t := by
  have hkept : Caches (Deployed oracle) s.contracts t.contracts := by
    rcases hfetched.contracts with heq | ⟨addr, code, hunknown, hstate, heq⟩
    · rw [heq]
      exact .refl _
    · rw [heq]
      exact .insert hunknown hstate
  obtain ⟨memory, contracts, rfl⟩ := hfetched.same
  exact ⟨⟨h.ctx, h.logs, h.storage, h.contracts.trans hkept⟩, h.mode, h.storageJournal, h.balanceJournal⟩

end

/-! ### One instruction -/

/-- An instruction of a static frame that changes nothing: a call moves no value, and the frame below can be
loaded. -/
structure Vm.ReadOnly (oracle : StateKey → Option Bytes) (vm : Vm) : Prop where
  valueless : ∀ d ∈ vm.instruction?, d.opcode = .callExt → bitAt d.rs2OrImm 13 = true →
    vm.carriedValue = 0 ∨ balanceOf vm.ctx.balances vm.ctx.selfAddress < vm.carriedValue
  fits : ∀ d ∈ vm.instruction?, d.opcode = .callExt ∨ d.opcode = .delegate → vm.CallFits oracle d

instance (oracle : StateKey → Option Bytes) (vm : Vm) : Decidable (vm.ReadOnly oracle) :=
  decidable_of_iff (_ ∧ _) ⟨fun h => ⟨h.1, h.2⟩, fun h => ⟨h.valueless, h.fits⟩⟩

/-- A frame below a static one, whose overlay it has. -/
structure Lent (P : Prims) (oracle : StateKey → Option Bytes) (entry child : Vm) (pending : Pending) (t : Vm) :
    Prop where
  call : ∃ d isDelegate, pending = .call d isDelegate
  caller : Frozen P oracle entry { t with storage := child.storage }
  mode : child.staticMode = true
  balances : child.ctx.balances = t.ctx.balances
  logs : child.logs = []

variable {entry s : Vm} {d : DecodedInstruction} {isStatic isDelegate : Bool}

/-- The context of a call that moves no value has the caller's balances. -/
theorem calleeContext_balances {target : Address} {t : Vm}
    {ctx : ExecutionContext} (hctx : calleeContext d isDelegate target t = some ctx)
    (hvalueless : isDelegate = false → bitAt d.rs2OrImm 13 = true →
      t.carriedValue = 0 ∨ balanceOf t.ctx.balances t.ctx.selfAddress < t.carriedValue) :
    ctx.balances = t.ctx.balances := by
  cases isDelegate with
  | true =>
    cases hctx
    rfl
  | false =>
    have henter : ∀ value, (value = 0 ∨ balanceOf t.ctx.balances t.ctx.selfAddress < value) →
        t.ctx.enter target value = some ctx → ctx.balances = t.ctx.balances := by
      rintro value hvalue henter
      rw [ExecutionContext.enter] at henter
      by_cases hzero : value = 0
      · subst hzero
        cases henter
        rfl
      have hpoor := hvalue.resolve_left hzero
      rw [transferValue, if_neg hzero, if_pos hpoor] at henter
      exact nomatch henter
    refine henter _ ?_ hctx
    split
    next hbit => exact hvalueless rfl hbit
    · exact .inl rfl

theorem frozen_spawnCall (h : Frozen P oracle entry s)
    (hvalueless : isDelegate = false → bitAt d.rs2OrImm 13 = true →
      s.carriedValue = 0 ∨ balanceOf s.ctx.balances s.ctx.selfAddress < s.carriedValue) (hfits :
        s.CallFits oracle d) :
    After (fun answer t => match answer with
        | none => Frozen P oracle entry t
        | some child => Lent P oracle entry child (.call d isDelegate) t)
      (fun _ => Frozen P oracle entry) ((spawnCall d isStatic isDelegate).exec oracle s) := by
  refine after_spawnCall.mono ?_ ?_
  · intro answer t ht
    cases answer with
    | none => exact h.fetched ht
    | some child =>
      obtain ⟨t₀, rfl, hspawned⟩ := ht
      have ht₀ := h.fetched hspawned.fetched
      obtain ⟨target, ctx, requested, calldata, -, hctx, hstill⟩ := hspawned.frame
      have hstorage : child.storage = t₀.storage := congrArg World.storage hstill.world
      have hmode : child.staticMode = ((isStatic || bitAt d.rs2OrImm 12) || t₀.staticMode) :=
        congrArg World.staticMode hstill.world
      have hbalances : ctx.balances = t₀.ctx.balances := by
        obtain ⟨_, _, rfl⟩ := hspawned.fetched.same
        exact calleeContext_balances hctx hvalueless
      have hchild : child.ctx = ctx := congrArg World.ctx hstill.world
      exact
        { call := ⟨d, isDelegate, rfl⟩
          caller := by rw [hstorage]; exact ht₀
          mode := by rw [hmode, ht₀.mode, Bool.or_true]
          balances := by rw [hchild]; exact hbalances
          logs := congrArg World.logs hstill.world }
  · rintro e t ⟨t₀, ht₀, rfl | ⟨-, hunfit⟩⟩
    · exact h.fetched ht₀
    · exact absurd hfits hunfit

theorem frozen_handles {total : U64}
    (h : Frozen P oracle entry (s.begun d total)) (hreads : s.ReadOnly oracle)
    (hinstruction : s.instruction? = some d) :
    Handles P oracle d (s.begun d total) (Frozen P oracle entry) (Frozen P oracle entry)
      fun child pending t => Lent P oracle entry child pending t := by
  have hkept : KeptLocally (Frozen P oracle entry) (Frozen P oracle entry) := frozen_kept entry
  have hstatic : (s.begun d total).staticMode ≠ false := by rw [h.mode]; decide
  exact
    { start := h
      kept := hkept
      sload := fun _ => hkept.execSload h (fun _ _ _ ht => ht.of_world rfl)
        (fun {slot t value} _ hworld ht hnone hanswer => by
          have hbacked : Backed P oracle (deriveStorageKey P (s.begun d total).ctx.selfAddress slot) value :=
            ⟨_, slot, rfl, hanswer⟩
          have hunknown : t.storage.lookup (deriveStorageKey P (s.begun d total).ctx.selfAddress slot) = none := by
            rw [storage_of_world hworld]
            exact hnone
          exact ⟨⟨ht.ctx, ht.logs, ht.storage.trans (.insert hunknown hbacked), ht.contracts⟩, ht.mode,
            ht.storageJournal, ht.balanceJournal⟩)
        fun _ _ ht => ht.of_world rfl
      sstore := fun _ => by rw [exec_execSstore_static h.mode]; exact h
      sdelete := fun _ => by rw [exec_execSdelete_static h.mode]; exact h
      log := fun _ => hkept.execLog h fun hmode _ => absurd hmode hstatic
      call := fun _ isDelegate hop => frozen_spawnCall h
        (fun hcall => hreads.valueless d hinstruction (by rw [hop, hcall]; rfl))
        (hreads.fits d hinstruction (by cases isDelegate <;> simp [hop, callOpcode]))
      create := fun _ hmode => absurd hmode hstatic }

theorem frozen_advanceStep (h : Frozen P oracle entry s) (hreads : s.ReadOnly oracle) :
    After (Progressed (Frozen P oracle entry) fun child pending t => Lent P oracle entry child pending t)
      (fun _ => Frozen P oracle entry) ((advanceStep P).exec oracle s) := by
  apply after_advanceStep h (fun _ _ _ _ => h.of_world rfl)
  intro d total hinstruction _ _
  have hbegun : Frozen P oracle entry (s.begun d total) := h.of_world rfl
  exact (frozen_handles hbegun hreads hinstruction).dispatch

/-! ### Frames below -/

/-- A frame that can pay for what a frame below has used. -/
def Vm.Affords (vm : Vm) (gas : U64) : Prop :=
  vm.gasUsedTotal.toNat + gas.toNat < 2 ^ 64 ∧
    (vm.gasLimit = 0 ∨ vm.gasUsedTotal.toNat + gas.toNat ≤ vm.gasLimit.toNat)

instance (vm : Vm) (gas : U64) : Decidable (vm.Affords gas) := inferInstanceAs (Decidable (_ ∧ _))

/-- What a frame in static mode leaves behind. -/
structure LeftAlone (P : Prims) (oracle : StateKey → Option Bytes) (entry : Vm) (answer : ExecutionOutput × Vm) :
    Prop extends Unchanged P oracle entry answer.2 where
  journal : answer.2.storageJournal = []
  noLogs : answer.1.logs = []

theorem Frozen.leftAlone (h : Frozen P oracle entry s) (res : Except Trap ExecResult) :
    LeftAlone P oracle entry (finishFrame entry res s) := by
  unfold finishFrame
  dsimp only
  split
  · exact ⟨⟨h.ctx, h.logs, h.storage, h.contracts⟩, rfl, by rw [Vm.clearJournals, h.logs, drop_length]⟩
  have hundone : (undo entry s).ctx = s.ctx ∧ (undo entry s).storage = s.storage ∧
      (undo entry s).logs = s.logs := by
    simp [undo, rollbackBalances, rollbackStorage, rollback, h.storageJournal, h.balanceJournal, h.logs]
  have hlogs : (undo entry s).logs = entry.logs := hundone.2.2.trans h.logs
  refine ⟨⟨hundone.1.trans h.ctx, hlogs, ?_, h.contracts⟩, rfl, ?_⟩
  · change Caches _ _ (undo entry s).storage
    rw [hundone.2.1]
    exact h.storage
  · rw [Vm.clearJournals, hlogs, drop_length]

theorem Vm.mergeBalances_self (vm : Vm) : vm.mergeBalances vm.ctx.balances = vm := by
  refine foldlRecOn (motive := (· = vm)) _ _ rfl ?_
  rintro _ rfl entry hentry
  exact if_pos (AList.mem_lookup_iff.2 hentry)

/-- The end of a frame below a static one gives the overlay back. -/
theorem Lent.settle {frame t child : Vm} {pending : Pending} {output : ExecutionOutput}
    (h : Lent P oracle entry frame pending t) (hanswer : LeftAlone P oracle frame (output, child)) (isDelegate : Bool)
    (total : U64) : Frozen P oracle entry ((t.joined child total).settle isDelegate output child) := by
  have hjournal : child.storageJournal = [] := hanswer.journal
  have hlogs : output.logs = [] := hanswer.noLogs
  have hbalances : child.ctx.balances = t.ctx.balances := by
    have hctx : child.ctx = frame.ctx := hanswer.ctx
    rw [hctx]
    exact h.balances
  have hback : Frozen P oracle entry { t.joined child total with storage := child.storage } :=
    ⟨⟨h.caller.ctx, h.caller.logs, h.caller.storage.trans hanswer.storage, h.caller.contracts⟩, h.caller.mode,
      h.caller.storageJournal, h.caller.balanceJournal⟩
  have hmerged : { t.joined child total with storage := child.storage }.mergeBalances child.ctx.balances =
      { t.joined child total with storage := child.storage } := by
    rw [hbalances]
    exact Vm.mergeBalances_self _
  unfold Vm.settle Vm.absorb
  split
  · rw [hjournal]
    dsimp only [foldl_nil]
    rw [hmerged, ite_self, hlogs, append_nil]
    exact ⟨⟨hback.ctx, hback.logs, hback.storage, hback.contracts⟩, hback.mode, hback.storageJournal,
      hback.balanceJournal⟩
  · exact ⟨⟨hback.ctx, hback.logs, hback.storage, hback.contracts⟩, hback.mode, hback.storageJournal,
      hback.balanceJournal⟩

theorem frozen_resumeStep {frame t : Vm} {pending : Pending} {answer : ExecutionOutput × Vm}
    (h : Lent P oracle entry frame pending t) (hpays : t.Affords answer.1.gasUsed)
    (hanswer : LeftAlone P oracle frame answer) :
    After (fun _ => Frozen P oracle entry) (fun _ => Frozen P oracle entry)
      ((resumeStep pending answer).exec oracle t) := by
  obtain ⟨output, child⟩ := answer
  obtain ⟨d, isDelegate, rfl⟩ := h.call
  obtain ⟨hsum, hlimit⟩ := hpays
  refine after_resumeStep_call (frozen_kept entry) (fun hover => absurd hsum (Nat.not_lt.2 hover)) ?_
    fun total _ _ => h.settle hanswer isDelegate total
  intro total htotal hpos hover
  rcases hlimit with hzero | hwithin
  · rw [hzero] at hpos
    exact absurd hpos (by decide)
  have hlt : t.gasLimit.toNat < total.toNat := hover
  rw [htotal] at hlt
  exact absurd hwithin (Nat.not_le.2 hlt)

/-! ### Whole frames -/

/-- A moment at which a static frame changes nothing: its instruction is one that only reads, and it can pay for what
a frame below has used. -/
def ReadOnly (oracle : StateKey → Option Bytes) : Machine.Moment Vm Pending (ExecutionOutput × Vm) → Prop
  | .taken vm => vm.staticMode = true → vm.ReadOnly oracle
  | .joined vm _ _ answer => vm.staticMode = true → vm.Affords answer.1.gasUsed

instance (oracle : StateKey → Option Bytes) : DecidablePred (ReadOnly oracle)
  | .taken vm => inferInstanceAs (Decidable (vm.staticMode = true → vm.ReadOnly oracle))
  | .joined vm _ _ answer => inferInstanceAs (Decidable (vm.staticMode = true → vm.Affords answer.1.gasUsed))

theorem frozen_keeps (entry s : Vm) (hinv : entry.staticMode = true → Frozen P oracle entry s)
    (hreads : ReadOnly oracle (.taken s)) :
    (machine P).Keeps oracle (ReadOnly oracle) (fun _ => True)
      (fun entry s => entry.staticMode = true → Frozen P oracle entry s)
      (fun entry answer => entry.staticMode = true → LeftAlone P oracle entry answer) entry s := by
  by_cases hmode : entry.staticMode = true
  · have h := hinv hmode
    apply Machine.Keeps.of_step (m := machine P) (frozen_advanceStep h (hreads h.mode))
    · exact fun ht _ => ht
    · exact fun ht _ => ht.leftAlone _
    · exact fun ht _ => ht.leftAlone _
    · exact fun _ => trivial
    · exact fun hlent hpays hanswer => frozen_resumeStep hlent (hpays hlent.caller.mode) (hanswer hlent.mode)
  -- nothing is said about a frame that is not static
  have hvacuous : ∀ {p : Prop}, entry.staticMode = true → p := fun hstatic => absurd hstatic hmode
  exact
    { onward := fun _ => hvacuous
      ended := fun _ => hvacuous
      failed := fun _ => hvacuous
      spawn := fun _ => trivial
      resumed := by
        intro child pending s' answer _ _ _
        rcases ((machine P).resume pending answer).exec oracle s' with ⟨_ | _, _⟩
        · exact hvacuous
        · exact hvacuous }

theorem frozen_specifies (P : Prims) (oracle : StateKey → Option Bytes) :
    (machine P).Specifies oracle (ReadOnly oracle) (fun _ => True)
      (fun entry s => entry.staticMode = true → Frozen P oracle entry s)
      (fun entry answer => entry.staticMode = true → LeftAlone P oracle entry answer) where
  start := fun _ _ hmode => ⟨⟨rfl, rfl, .refl _, .refl _⟩, hmode, rfl, rfl⟩
  cut := fun _ _ hinv hmode => (hinv hmode).leftAlone _
  keeps := frozen_keeps

/-! ### Static calls -/

/-- Every frame in static mode, at any depth, leaves storage, balances, contracts and logs as they were. -/
structure StaticFramesReadOnly (P : Prims) (oracle : StateKey → Option Bytes) (vm : Vm) : Prop where
  first : vm.staticMode = true → LeftAlone P oracle vm ((execute P vm).answer oracle)
  below : ∀ caller frame pending answer, Occurs P oracle vm (.joined caller frame pending answer) →
    frame.staticMode = true → LeftAlone P oracle frame answer

/-- If what static frames read is in the state and they can pay for the frames below them, then none of them changes
storage, logs, balances or code, wherever it is called. -/
theorem static_calls_read_only (P : Prims) (oracle : StateKey → Option Bytes) (vm : Vm)
    (hreads : ∀ moment, Occurs P oracle vm moment → ReadOnly oracle moment) : StaticFramesReadOnly P oracle vm where
  first := (frozen_specifies P oracle).run _ vm trivial hreads
  below := by
    intro caller frame pending answer hoccurs hmode
    have hstart := (frozen_specifies P oracle).start vm trivial
    exact ((frozen_specifies P oracle).visits hoccurs vm hstart hreads).2 hmode

/-- A state with a second contract. -/
def withContract (oracle : StateKey → Option Bytes) (addr : Address) (code : Bytes) : StateKey → Option Bytes :=
  fun key => if key = .account addr .code then some code else oracle key

def staticCaller : Vm :=
  outermost 100000 { ExecutionContext.default with balances := AList.insert zero32 5 ∅ } []
    (assemble [encode .callExt 0 0 0x1000, encode .halt 0 0 0])

/-- A callee that reads a slot and makes a static call without a value to a contract that halts. -/
def readingCallee : StateKey → Option Bytes :=
  withContract (stateWith zero32 (assemble [encode .sload 2 1 0, encode .addi 8 0 1, encode .widen 1 8 0,
    encode .callExt 1 0 0x1000, encode .halt 0 0 0])) (wordBytes 1) (assemble [encode .halt 0 0 0])

theorem static_calls_read_only_reading : StaticFramesReadOnly lucid readingCallee staticCaller := by
  apply static_calls_read_only lucid readingCallee staticCaller
  intro moment hmoment
  have hmonitor : (machine lucid).monitor readingCallee stepBound (fun moment => ReadOnly readingCallee moment)
      8 (maxExtCallDepth + 1) staticCaller.clearJournals = true := by decide +kernel
  exact of_decide_eq_true (Machine.monitor_visits hmonitor hmoment)

/-- The same callee, with a value on its call. -/
def payingCallee : StateKey → Option Bytes :=
  withContract (stateWith zero32 (assemble [encode .addi 8 0 1, encode .widen 1 8 0, encode .callExt 1 0 0x3000,
    encode .halt 0 0 0])) (wordBytes 1) (assemble [encode .halt 0 0 0])

/-- Whether the first instruction starts a static frame that ends with another balance of its caller. -/
def movesBalance (oracle : StateKey → Option Bytes) (vm : Vm) : Bool :=
  match (advanceStep lucid).exec oracle vm with
  | (.ok (.spawn frame _), _) =>
    frame.staticMode &&
      (((machine lucid).run stepBound maxExtCallDepth frame).answer oracle).2.ctx.balances.lookup zero32 !=
        frame.ctx.balances.lookup zero32
  | _ => false

/-- A static frame moves a balance. -/
theorem static_call_moves_balance : ¬ StaticFramesReadOnly lucid payingCallee staticCaller := by
  intro h
  have hmoves : movesBalance payingCallee staticCaller.clearJournals = true := by decide +kernel
  unfold movesBalance at hmoves
  split at hmoves
  next frame pending caller hstep =>
    rw [Bool.and_eq_true] at hmoves
    have hleft := h.below caller frame pending _ (.joined hstep) hmoves.1
    rw [hleft.ctx] at hmoves
    simp at hmoves
  next => exact nomatch hmoves

end Pyde.PVM
