/-
Module: Pyde.Pvm.Storage
Purpose: Rules for the instructions on storage and logs, and the keys that the machine derives for slots.
Trusted boundary: the sponge over field elements, Prims
-/
import Pyde.Pvm.Meter
import Pyde.Tx.ReplayProtection

namespace Pyde.PVM

open ByteCodec StateProgram Fallible

variable {oracle : StateKey → Option Bytes}

/-- A property that local parts of an instruction keep, and what holds when they fail. -/
structure KeptLocally (holds bad : Vm → Prop) : Prop where
  moved : ∀ {t t'}, holds t → Local t t' → holds t'
  lapsed : ∀ {t t'}, holds t → Lapse (Local) t t' → bad t'

namespace KeptLocally

variable {holds bad : Vm → Prop} (h : KeptLocally holds bad)

include h

theorem program {α : Type} {p : VmM α} (hp : IsLocal oracle p) {s : Vm} (hs : holds s) :
    After (fun _ => holds) (fun _ => bad) (p.exec oracle s) :=
  (hp.after s).mono (fun _ _ => h.moved hs) fun _ _ => h.lapsed hs

theorem failed {t : Vm} (ht : holds t) : bad t := h.lapsed ht ((local_composable).stop t)

/-- The same property, together with the world of a first state. -/
theorem withWorld (world : World) : KeptLocally (fun t => holds t ∧ t.world = world) bad where
  moved := fun ht hlocal => ⟨h.moved ht.1 hlocal, hlocal.world.trans ht.2⟩
  lapsed := fun ht hlapse => h.lapsed ht.1 hlapse

end KeptLocally

theorem isLocal_warmUp (key : U256) : IsLocal oracle (warmUp key) := by
  apply IsLocal.bind .state
  intro vm
  split
  · exact .pure _
  · exact .bind (.change (fun _ => rfl) (fun _ => rfl) (fun _ => rfl) fun _ h => h) fun _ => .charge _

theorem isLocal_deliverLoaded (d : DecodedInstruction) (value : Option Bytes) :
    IsLocal oracle (deliverLoaded d value) := by
  unfold deliverLoaded
  split
  · exact .bind (.writeWide _ _) fun _ => .advance
  split
  · apply IsLocal.bind (.readGp _)
    intro ptr
    split
    · exact .bind (.charge _) fun _ => .bind (.precheckBulkPageBudget _) fun _ =>
        .bind (.onMemory (.checkedWriteSlice _ _)) fun _ => .bind (.writeGp _ _) fun _ => .advance
    · exact .bind (.writeGp _ _) fun _ => .advance
  split
  · exact .bind (.writeGp _ _) fun _ => .advance
  · exact .fail _

theorem isLocal_storedOperand (d : DecodedInstruction) : IsLocal oracle (storedOperand d) := by
  unfold storedOperand
  split
  · exact .bind (.readWideChecked _) fun _ => .pure _
  split
  · exact .bind (.readGp _) fun _ => .pure _
  split
  · exact .bind (.readGp _) fun _ => .bind (.readGp _) fun _ => .bind (.charge _) fun _ =>
      .bind (.precheckBulkPageBudget _) fun _ => .onMemory (.checkedReadSlice _ _)
  · exact .fail _

theorem keepsSane_loadEach (count : Nat) : ∀ addr : U32, KeepsSane oracle (loadEach count addr) := by
  induction count with
  | zero => exact fun _ => .pure _
  | succ count ih => exact fun addr => .bind (.loadInt (by decide) _) fun _ => .bind (ih _) fun _ => .pure _

theorem keepsSane_readTopics (count : Nat) : ∀ addr : U32, KeepsSane oracle (readTopics count addr) := by
  induction count with
  | zero => exact fun _ => .pure _
  | succ count ih => exact fun addr => .bind (keepsSane_loadEach _ _) fun _ => .bind (ih _) fun _ => .pure _

theorem Memory.foldl_touchPage_bytes (pages : List Nat) (m : Memory) :
    (pages.foldl Memory.touchPage m).bytes = m.bytes := by
  refine List.foldlRecOn (motive := fun t : Memory => t.bytes = m.bytes) pages _ rfl fun t h page _ => ?_
  rw [← h]
  unfold Memory.touchPage
  split
  · rfl
  · rfl

theorem after_checkAccess_bytes (addr len : U32) (m : Memory) :
    After (fun _ m' => m'.bytes = m.bytes) (fun _ _ => True) ((Memory.checkAccess addr len).exec oracle m) := by
  unfold Memory.checkAccess
  split
  · trivial
  split
  · trivial
  · exact Memory.foldl_touchPage_bytes _ m

/-- Reading a range changes the memory only, and no byte of it; a range that can be read is no longer than the
memory. -/
theorem after_readSlice (addr : U32) (len : Nat) (s : Vm) :
    After (fun data t => (∃ memory, t = { s with memory := memory } ∧ (s.memory.Sane → memory.Sane)) ∧
        len ≤ memorySize ∧ data = s.memory.readSlice addr.toNat len)
      (fun _ t => ∃ memory, t = { s with memory := memory } ∧ (s.memory.Sane → memory.Sane))
      ((onMemory (Memory.checkedReadSlice addr len)).exec oracle s) := by
  have hmemory : After (fun data _ => len ≤ memorySize ∧ data = s.memory.readSlice addr.toNat len) (fun _ _ => True)
      ((Memory.checkedReadSlice addr len).exec oracle s.memory) := by
    unfold Memory.checkedReadSlice
    split
    next hzero =>
      subst hzero
      exact ⟨Nat.zero_le _, rfl⟩
    split
    · trivial
    next hlen =>
      apply After.bind (after_checkAccess_bytes addr _ s.memory)
      intro _ m hbytes
      refine ⟨by omega, ?_⟩
      simp only [Memory.readSlice, hbytes]
  have hkeeps : KeepsSane oracle (Memory.checkedReadSlice addr len) := .checkedReadSlice addr len
  have hsane := hkeeps.after s.memory
  rw [onMemory, exec_zoom]
  revert hmemory hsane
  rcases (Memory.checkedReadSlice addr len).exec oracle s.memory with ⟨_ | _, memory⟩
  · exact fun _ hsane => ⟨memory, rfl, hsane⟩
  · exact fun hread hsane => ⟨⟨memory, rfl, hsane⟩, hread⟩

/-! ### Static mode -/

section

variable {P : Prims} {d : DecodedInstruction} {s : Vm} (hstatic : s.staticMode = true)

include hstatic

theorem exec_writeSlot_static : (writeSlot d).exec oracle s = (.error .staticModeViolation, s) := by
  rw [writeSlot, exec_bind_ok oracle (exec_state oracle s), if_pos hstatic]
  rfl

theorem exec_execSstore_static : (execSstore P d).exec oracle s = (.error .staticModeViolation, s) :=
  exec_bind_error oracle (exec_writeSlot_static hstatic)

theorem exec_execSdelete_static : (execSdelete P d).exec oracle s = (.error .staticModeViolation, s) :=
  exec_bind_error oracle (exec_writeSlot_static hstatic)

end

/-! ### Rules -/

/-- The access list, if there is one, holds the key. -/
def Vm.Permits (vm : Vm) (key : U256) : Prop := ∀ allowed, vm.allowedStorageKeys = some allowed → key ∈ allowed

abbrev Vm.slotKey (P : Prims) (vm : Vm) (slot : U256) : U256 := deriveStorageKey P vm.ctx.selfAddress slot

namespace KeptLocally

variable {holds bad : Vm → Prop} (h : KeptLocally holds bad) {d : DecodedInstruction} {s : Vm}

include h

theorem accessSlot (hs : holds s) :
    After (fun slot t => (holds t ∧ t.world = s.world) ∧ s.cpu.readWideChecked d.rs1 = .ok slot) (fun _ => bad)
      ((PVM.accessSlot d).exec oracle s) := by
  rw [PVM.accessSlot, PVM.readWideChecked]
  cases hslot : s.cpu.readWideChecked d.rs1 with
  | error e =>
    simp only [exec_bind, exec_state, hslot, Fallible.ofExcept, exec_fail]
    exact h.failed hs
  | ok slot =>
    simp only [exec_bind, exec_state, hslot, Fallible.ofExcept, exec_pure, exec_change]
    exact ⟨⟨h.moved hs (Local.still rfl rfl rfl fun hm => hm), rfl⟩, rfl⟩

theorem writeSlot (hs : holds s) :
    After (fun slot t => (holds t ∧ t.world = s.world) ∧ s.cpu.readWideChecked d.rs1 = .ok slot ∧
        s.staticMode = false) (fun _ => bad) ((PVM.writeSlot d).exec oracle s) := by
  rw [PVM.writeSlot, exec_bind_ok oracle (exec_state oracle s)]
  by_cases hstatic : s.staticMode = true
  · rw [if_pos hstatic]
    exact h.failed hs
  rw [if_neg hstatic]
  apply After.bind (h.accessSlot hs)
  rintro slot t ⟨⟨ht, hworld⟩, hslot⟩
  simp only [exec_bind, exec_change, exec_pure]
  exact ⟨⟨h.moved ht (Local.still rfl rfl rfl fun hm => hm), hworld⟩, hslot, by simpa using hstatic⟩

theorem checkAllowed {key : U256} {t : Vm} (ht : holds t) :
    After (fun _ t' => t' = t ∧ t.Permits key) (fun _ => bad) ((PVM.checkAllowed key).exec oracle t) := by
  rw [PVM.checkAllowed, exec_bind_ok oracle (exec_state oracle t)]
  cases hallowed : t.allowedStorageKeys with
  | none => exact ⟨rfl, by simp [Vm.Permits, hallowed]⟩
  | some allowed =>
    dsimp only
    by_cases hmem : key ∈ allowed
    · rw [if_pos hmem]
      exact ⟨rfl, by simp [Vm.Permits, hallowed, hmem]⟩
    · rw [if_neg hmem]
      exact h.failed ht

omit h in
theorem lookupStorage {slot key : U256} {t : Vm} (ht : holds t) (hworld : t.world = s.world)
    (hcache : ∀ {value}, s.storage.lookup key = none →
      oracle (.slot s.ctx.selfAddress (slotBytes slot)) = some value → holds (t.cache key value)) :
    After (fun value t' => holds t' ∧ t'.ctx = s.ctx ∧
        value = (s.storage.lookup key).or (oracle (.slot s.ctx.selfAddress (slotBytes slot)))) (fun _ => bad)
      ((PVM.lookupStorage slot key).exec oracle t) := by
  have hctx := ctx_of_world hworld
  have hstorage := storage_of_world hworld
  rw [PVM.lookupStorage, exec_bind_ok oracle (exec_state oracle t), hstorage, hctx]
  cases hlookup : s.storage.lookup key with
  | some value => exact ⟨ht, hctx, rfl⟩
  | none =>
    dsimp only
    rw [exec_bind_ok oracle (exec_ask oracle _ _)]
    cases hanswer : oracle (.slot s.ctx.selfAddress (slotBytes slot)) with
    | none => exact ⟨ht, hctx, rfl⟩
    | some value => exact ⟨hcache hlookup hanswer, hctx, rfl⟩

variable {P : Prims}

/-- `sload`: noting the access, keeping a value that only the state has, and noting what was read. -/
theorem execSload (hs : holds s) (htouch : ∀ {slot t}, s.cpu.readWideChecked d.rs1 = .ok slot →
      s.Permits (s.slotKey P slot) → t.world = s.world → holds t → holds (t.noteTouched slot (s.slotKey P slot)))
    (hcache : ∀ {slot t value}, s.cpu.readWideChecked d.rs1 = .ok slot → t.world = s.world → holds t →
      s.storage.lookup (s.slotKey P slot) = none →
        oracle (.slot s.ctx.selfAddress (slotBytes slot)) = some value → holds (t.cache (s.slotKey P slot) value))
    (hload : ∀ {slot t}, s.cpu.readWideChecked d.rs1 = .ok slot → t.ctx = s.ctx → holds t →
      holds (t.noteLoaded slot (s.slotKey P slot) ((s.storage.lookup (s.slotKey P slot)).or
          (oracle (.slot s.ctx.selfAddress (slotBytes slot)))))) :
    After (fun _ => holds) (fun _ => bad) ((PVM.execSload P d).exec oracle s) := by
  apply After.bind (h.accessSlot hs)
  rintro slot t ⟨⟨ht, hworld⟩, hslot⟩
  have hctx := ctx_of_world hworld
  have hallowed := allowedStorageKeys_of_world hworld
  rw [exec_bind_ok oracle (exec_state oracle t), hctx]
  apply After.bind (h.checkAllowed ht)
  rintro _ t ⟨rfl, hpermits⟩
  have hpermits : s.Permits (s.slotKey P slot) := by
    simpa only [Vm.Permits, hallowed] using hpermits
  rw [exec_bind_ok oracle (exec_change oracle _ _)]
  apply After.bind ((h.withWorld s.world).program (isLocal_warmUp _) ⟨htouch hslot hpermits hworld ht, hworld⟩)
  rintro _ t ⟨ht, hworld⟩
  apply After.bind (lookupStorage ht hworld (hcache hslot hworld ht))
  rintro value t ⟨ht, hctx, rfl⟩
  rw [exec_bind_ok oracle (exec_change oracle _ _)]
  exact h.program (isLocal_deliverLoaded d _) (hload hslot hctx ht)

/-- A key whose old value is in the journal. -/
def Journaled (key : U256) (holds : Vm → Prop) (t : Vm) : Prop := holds t ∧ key ∈ t.storageJournalKeys

omit h in
theorem journaled (h : KeptLocally holds bad) (key : U256) : KeptLocally (Journaled key holds) bad where
  moved := by
    rintro t t' ⟨ht, hkey⟩ hlocal
    have hkeys := storageJournalKeys_of_world hlocal.world
    exact ⟨h.moved ht hlocal, hkeys ▸ hkey⟩
  lapsed := fun ht hlapse => h.lapsed ht.1 hlapse

omit h in
theorem journaled_journalStorage {key : U256} {t : Vm} (ht : holds (t.journalStorage key)) :
    Journaled key holds (t.journalStorage key) := by
  refine ⟨ht, ?_⟩
  unfold Vm.journalStorage
  split
  next hmem => exact hmem
  next => exact Finset.mem_insert_self _ _

/-- `sstore`: noting the access, journaling and storing. -/
theorem execSstore (hs : holds s) (htouch : ∀ {slot t}, s.cpu.readWideChecked d.rs1 = .ok slot →
      s.Permits (s.slotKey P slot) → t.world = s.world → holds t → holds (t.noteTouched slot (s.slotKey P slot)))
    (hjournal : ∀ {slot t}, s.cpu.readWideChecked d.rs1 = .ok slot → t.world = s.world → holds t →
      holds (t.journalStorage (s.slotKey P slot)))
    (hstore : ∀ {slot t value}, s.cpu.readWideChecked d.rs1 = .ok slot → s.staticMode = false → holds t →
      s.slotKey P slot ∈ t.storageJournalKeys → holds (t.store (s.slotKey P slot) value)) :
    After (fun _ => holds) (fun _ => bad) ((PVM.execSstore P d).exec oracle s) := by
  apply After.bind (h.writeSlot hs)
  rintro slot t ⟨⟨ht, hworld⟩, hslot, hstatic⟩
  have hctx := ctx_of_world hworld
  have hallowed := allowedStorageKeys_of_world hworld
  rw [exec_bind_ok oracle (exec_state oracle t), hctx]
  apply After.bind (h.checkAllowed ht)
  rintro _ t ⟨rfl, hpermits⟩
  have hpermits : s.Permits (s.slotKey P slot) := by
    simpa only [Vm.Permits, hallowed] using hpermits
  rw [exec_bind_ok oracle (exec_change oracle _ _)]
  apply After.bind ((h.withWorld s.world).program (isLocal_warmUp _) ⟨htouch hslot hpermits hworld ht, hworld⟩)
  rintro _ t ⟨ht, hworld⟩
  rw [exec_bind_ok oracle (exec_change oracle _ _)]
  have hjournaled := journaled_journalStorage (hjournal hslot hworld ht)
  apply After.bind ((h.journaled _).program (isLocal_storedOperand d) hjournaled)
  rintro value t ⟨ht, hkey⟩
  rw [exec_bind_ok oracle (exec_change oracle _ _)]
  exact h.program .advance (hstore hslot hstatic ht hkey)

/-- `sdelete`: noting the access, journaling, refunding and storing. The access list plays no part. -/
theorem execSdelete (hs : holds s)
    (htouch : ∀ {slot t}, s.cpu.readWideChecked d.rs1 = .ok slot → t.world = s.world → holds t →
      holds (t.noteTouched slot (s.slotKey P slot)))
    (hjournal : ∀ {slot t}, s.cpu.readWideChecked d.rs1 = .ok slot → t.world = s.world → holds t →
      holds (t.journalStorage (s.slotKey P slot)))
    (hrefund : ∀ {slot t}, s.cpu.readWideChecked d.rs1 = .ok slot → t.storage = s.storage → holds t →
      holds (t.refundCleared (s.slotKey P slot)))
    (hstore : ∀ {slot t}, s.cpu.readWideChecked d.rs1 = .ok slot → s.staticMode = false → holds t →
      s.slotKey P slot ∈ t.storageJournalKeys → holds (t.store (s.slotKey P slot) [])) :
    After (fun _ => holds) (fun _ => bad) ((PVM.execSdelete P d).exec oracle s) := by
  apply After.bind (h.writeSlot hs)
  rintro slot t ⟨⟨ht, hworld⟩, hslot, hstatic⟩
  have hctx := ctx_of_world hworld
  rw [exec_bind_ok oracle (exec_state oracle t), hctx, exec_bind_ok oracle (exec_change oracle _ _)]
  apply After.bind ((h.withWorld s.world).program (isLocal_warmUp _) ⟨htouch hslot hworld ht, hworld⟩)
  rintro _ t ⟨ht, hworld⟩
  have hstorage : (t.journalStorage (s.slotKey P slot)).storage = s.storage := by
    rw [Vm.journalStorage_storage]
    exact storage_of_world hworld
  have hjournaled := journaled_journalStorage (hjournal hslot hworld ht)
  have hrefunded := hrefund hslot hstorage hjournaled.1
  simp only [exec_bind, exec_change]
  apply h.program .advance
  apply hstore hslot hstatic hrefunded
  unfold Vm.refundCleared
  split
  · exact hjournaled.2
  · exact hjournaled.2

/-- `log`: one more log. -/
theorem execLog (hs : holds s)
    (hemit : ∀ {t topics data}, s.staticMode = false → holds t → holds (t.emit topics data)) :
    After (fun _ => holds) (fun _ => bad) ((PVM.execLog d).exec oracle s) := by
  rw [PVM.execLog, exec_bind_ok oracle (exec_state oracle s)]
  by_cases hstatic : s.staticMode = true
  · rw [if_pos hstatic]
    exact h.failed hs
  rw [if_neg hstatic]
  have hstatic : s.staticMode = false := by simpa using hstatic
  dsimp only
  split
  · exact h.failed hs
  rename_i hcount
  apply After.bind (h.program (.readGp _) hs)
  intro base t ht
  apply After.bind (h.program (.onMemory (keepsSane_readTopics _ _)) ht)
  intro topics t ht
  apply After.bind (h.program (.onMemory (.loadInt (by decide) _)) ht)
  intro ptr t ht
  apply After.bind (h.program (.onMemory (.loadInt (by decide) _)) ht)
  intro len t ht
  apply After.bind (h.program (.onMemory (.checkedReadSlice _ _)) ht)
  intro data t ht
  apply After.bind (h.program (.charge _) ht)
  intro _ t ht
  rw [exec_bind_ok oracle (exec_change oracle _ _)]
  exact h.program .advance (hemit hstatic ht)

end KeptLocally

end Pyde.PVM

namespace Pyde.PVM

open ByteCodec List

/-! ### The key module -/

/-- The keys of the key module, before hashing. A map entry, nested or not, is hashed with the key one level up. -/
inductive ModuleKey where
  | state (key : StateKey)
  | aotCode (addr : Address)
  | mapEntry (parent : Hash256) (mapKey : Bytes)
deriving DecidableEq

namespace ModuleKey

def preimage : ModuleKey → Bytes
  | state key => key.preimage
  | aotCode addr => addr.toList ++ [0x06]
  | mapEntry parent mapKey => parent.toList ++ 0x05 :: mapKey

def hash (P : Prims) (key : ModuleKey) : Hash256 := P.poseidon2Hash key.preimage

/-- The key of a storage slot, as the virtual machine derives it. -/
def slot (contract : Address) (slot : U256) : ModuleKey := .state (.slot contract (slotBytes slot))

theorem eq_slot_of_preimage {contract : Address} {bytes : Bytes} {key : ModuleKey}
    (h : key.preimage = (StateKey.slot contract bytes).preimage) : key = .state (.slot contract bytes) := by
  cases key with
  | state key => rw [StateKey.preimage_inj.mp h]
  | aotCode addr | mapEntry parent mapKey =>
    rw [preimage, StateKey.preimage, toList_append_inj, List.cons.injEq] at h
    exact absurd h.2.1 (by decide)

end ModuleKey

/-! ### The bytes of a slot -/

theorem eq_zero_of_mem_drop {bytes : Bytes} {n : Nat} (h : (bytes.reverse.dropWhile (· = 0)).length ≤ n) {b : U8}
    (hb : b ∈ bytes.drop n) : b = 0 := by
  have hsplit : bytes = (bytes.reverse.dropWhile (· = 0)).reverse ++ (bytes.reverse.takeWhile (· = 0)).reverse := by
    rw [← reverse_append, takeWhile_append_dropWhile, reverse_reverse]
  rw [hsplit, drop_append, drop_eq_nil_of_le (by rwa [length_reverse]), nil_append] at hb
  have hzeros := List.all_eq_true.mp (all_takeWhile (p := (· = 0)) (l := bytes.reverse))
  exact of_decide_eq_true (hzeros b (List.mem_reverse.mp (mem_of_mem_drop hb)))

/-- The bytes that are cut off do not count. -/
theorem ofLeBytes_slotBytes (slot : U256) : ofLeBytes (slotBytes slot) = ofLeBytes (toLe slot) := by
  unfold slotBytes
  generalize hn : max ((toLe slot).reverse.dropWhile (· = 0)).length 8 = n
  have hzeros := eq_replicate_of_mem fun b hb => eq_zero_of_mem_drop (hn ▸ Nat.le_max_left _ 8) (b := b) hb
  calc ofLeBytes ((toLe slot).take n)
      = ofLeBytes ((toLe slot).take n ++ (toLe slot).drop n) := by rw [hzeros, ofLeBytes_append_zeros]
    _ = ofLeBytes (toLe slot) := by rw [take_append_drop]

theorem slotBytes_injective : Function.Injective slotBytes := by
  intro slot slot' h
  have hvalue : ofLeBytes (toLe slot) = ofLeBytes (toLe slot') := by
    rw [← ofLeBytes_slotBytes, h, ofLeBytes_slotBytes]
  rw [← ofLe_toLe (by decide) slot, ← ofLe_toLe (by decide) slot', ofLe, ofLe, hvalue]

theorem bytesWord_injective : Function.Injective bytesWord := Function.LeftInverse.injective wordBytes_bytesWord

/-! ### Isolation -/

section

variable {sponge : List Goldilocks → List.Vector Goldilocks 4} {keys : Set ModuleKey}

/-- The contract that an entry of an access list is about. -/
def targetOf (callee : Address) (entry : AccessEntry) : Address :=
  if entry.address = zeroAddress then callee else entry.address

theorem mem_preDeriveAccessListKeys {P : Prims} {accessList : List AccessEntry} {callee : Address} {key : U256} :
    key ∈ preDeriveAccessListKeys P accessList callee ↔
      ∃ entry ∈ accessList, ∃ rawKey ∈ entry.reads ++ entry.writes,
      deriveStorageKey P (targetOf callee entry) (bytesWord rawKey) = key := by
  simp only [preDeriveAccessListKeys, mem_flatMap, mem_map, targetOf]

variable (hfree : Set.InjOn sponge (bytesToElements '' (ModuleKey.preimage '' keys)))
  (hsize : ∀ key ∈ keys, key.preimage.length < 2 ^ 63) {contract : Address} {slot : U256}
  (hslot : ModuleKey.slot contract slot ∈ keys)

include hfree hsize hslot

theorem eq_slot_of_hash (P : Prims) {key : ModuleKey} (hkey : key ∈ keys)
    (h : bytesWord (key.hash (P.withSponge sponge)) = deriveStorageKey (P.withSponge sponge) contract slot) :
    key = .slot contract slot := by
  have hcollision : (P.withSponge sponge).CollisionFreeOn (ModuleKey.preimage '' keys) := by
    refine P.collisionFreeOn_withSponge hfree ?_
    rintro _ ⟨key, hkey, rfl⟩
    exact hsize key hkey
  exact ModuleKey.eq_slot_of_preimage (hcollision ⟨key, hkey, rfl⟩ ⟨_, hslot, rfl⟩ (bytesWord_injective h))

theorem deriveStorageKey_inj (P : Prims) {contract' : Address} {slot' : U256}
    (hslot' : ModuleKey.slot contract' slot' ∈ keys) :
    deriveStorageKey (P.withSponge sponge) contract' slot' = deriveStorageKey (P.withSponge sponge) contract slot ↔
      contract' = contract ∧ slot' = slot := by
  constructor
  · intro h
    have hkey := eq_slot_of_hash hfree hsize hslot P hslot' h
    injection hkey with hkey
    injection hkey with hcontract hbytes
    exact ⟨hcontract, slotBytes_injective hbytes⟩
  · rintro ⟨rfl, rfl⟩
    rfl

end

end Pyde.PVM
