/-
Module: Pyde.Node.StateLayers
Purpose: The layers of `StateManager`: the read cache, the tree, the writes that are still to be committed to it, and
  the undo logs of recent blocks; processing a block on them, and importing snapshots from peers.
Trusted boundary: the tree commits a batch entry by entry and its root is a function of its content, Prims, Pvm, the root of the tree
-/
import Pyde.Node.BlockProcessor

namespace Pyde

open ByteCodec StateProgram

/-- `UndoEntry`: the value of a key before a block. -/
structure UndoEntry where
  key : Hash256
  oldValue : Option Bytes
deriving DecidableEq

/-- `StateManager` with its layers. The undo logs stand newest first. -/
structure Layers where
  cache : Hash256 → Option Bytes
  smt : StateMap
  root : Hash256
  pendingWrites : List (Hash256 × Bytes)
  blockUndoLogs : List (U64 × List UndoEntry)

def maxUndoDepth : Nat := 128

/-- `PersistentJMT::update_all`: an empty value is a tombstone. -/
def updateAll (entries : List (Hash256 × Bytes)) (smt : StateMap) : StateMap := replay stored id entries smt

namespace Layers

section

variable (rootOf : StateMap → Hash256)

/-- `open`: nothing is cached, the tree is what the database holds. -/
def opened (smt : StateMap) : Layers where
  cache := fun _ => none
  smt := smt
  root := rootOf smt
  pendingWrites := []
  blockUndoLogs := []

def get (st : Layers) : StateMap := WriteBehind.lookup stored st.cache st.smt

/-- The inherent `insert`, which writes cache and tree. -/
def insert (st : Layers) (key : Hash256) (value : Bytes) : Layers :=
  let smt := updateAll [(key, value)] st.smt
  { st with cache := Function.update st.cache key (some value), smt, root := rootOf smt }

/-- `delete`. Neither the cache nor `root` follows. -/
def delete (st : Layers) (key : Hash256) : Bool × Layers :=
  let existed := (st.smt key).isSome
  (existed, if existed then { st with smt := updateAll [(key, [])] st.smt } else st)

/-- `update_batch`. The cache does not follow. -/
def updateBatch (st : Layers) (entries : List (Hash256 × Bytes)) : Layers :=
  let smt := updateAll entries st.smt
  { st with smt, root := rootOf smt }

def updateBatchDeferred (st : Layers) (entries : List (Hash256 × Bytes)) : Layers :=
  { st with
    cache := WriteBehind.fill entries st.cache
    pendingWrites := st.pendingWrites ++ entries }

/-- `StateAccess::insert`. -/
def deferredInsert (st : Layers) (key : Hash256) (value : Bytes) : Layers :=
  { st with
    cache := Function.update st.cache key (some value)
    pendingWrites := st.pendingWrites ++ [(key, value)] }

def flushPending (st : Layers) : Layers :=
  if st.pendingWrites = [] then st
  else updateBatch rootOf { st with pendingWrites := [] } st.pendingWrites

def refreshRoot (st : Layers) : Layers := { st with root := rootOf st.smt }

/-- `record_block_undo`: the oldest logs beyond the depth are dropped. -/
def recordBlockUndo (st : Layers) (slot : U64) (entries : List UndoEntry) : Layers :=
  { st with blockUndoLogs := ((slot, entries) :: st.blockUndoLogs).take maxUndoDepth }

def canRevertTo (st : Layers) (targetSlot : U64) : Bool :=
  match st.blockUndoLogs.getLast? with
  | some (slot, _) => decide (satSub slot 1 ≤ targetSlot)
  | none => false

/-- One turn of the loop of `revert_to`: the old values go to the cache, or leave it, and to the tree. -/
def restore (st : Layers) (entries : List UndoEntry) : Layers :=
  let restoreWrites := entries.map fun entry => (entry.key, entry.oldValue.getD [])
  let cache := restoreWrites.foldl
    (fun (cache : Hash256 → Option Bytes) w =>
      Function.update cache w.1 (if w.2 = [] then none else some w.2)) st.cache
  let smt := updateAll restoreWrites st.smt
  { st with cache, smt, root := if restoreWrites = [] then st.root else rootOf smt }

/-- The loop of `revert_to`: logs are popped until one of the target slot or an older one is met. -/
def popLogs (targetSlot : U64) : List (U64 × List UndoEntry) → Layers → Nat × Layers
  | [], st => (0, { st with blockUndoLogs := [] })
  | (slot, entries) :: logs, st =>
    if slot ≤ targetSlot then (0, { st with blockUndoLogs := (slot, entries) :: logs })
    else
      let rest := popLogs targetSlot logs (restore rootOf st entries)
      (rest.1 + 1, rest.2)

def revertTo (st : Layers) (targetSlot : U64) : Except String (Nat × Layers) :=
  match st.blockUndoLogs.getLast? with
  | some (oldestSlot, _) =>
    if targetSlot + 1 < oldestSlot then
      .error ("revert target " ++ decimal targetSlot ++ " is below oldest undo log at slot " ++ decimal oldestSlot)
    else .ok (popLogs rootOf targetSlot st.blockUndoLogs st)
  | none => .ok (popLogs rootOf targetSlot st.blockUndoLogs st)

end

end Layers

/-! ### One map -/

/-- What callers do with the state manager. -/
inductive StateOp where
  | get (key : Hash256)
  | insert (key : Hash256) (value : Bytes)
  | deferredInsert (key : Hash256) (value : Bytes)
  | delete (key : Hash256)
  | updateBatch (entries : List (Hash256 × Bytes))
  | updateBatchDeferred (entries : List (Hash256 × Bytes))
  | flushPending

namespace StateOp

/-- What the operation does to the layers. -/
def apply (rootOf : StateMap → Hash256) (st : Layers) : StateOp → Layers
  | get _ => st
  | insert key value => st.insert rootOf key value
  | deferredInsert key value => st.deferredInsert key value
  | delete key => (st.delete key).2
  | updateBatch entries => st.updateBatch rootOf entries
  | updateBatchDeferred entries => st.updateBatchDeferred entries
  | flushPending => st.flushPending rootOf

/-- What it does to a map in which every key has the value last written to it. -/
def applyToMap (map : StateMap) : StateOp → StateMap
  | get _ => map
  | insert key value => StateProgram.insert stored map key value
  | deferredInsert key value => StateProgram.insert stored map key value
  | delete key => Function.update map key none
  | updateBatch entries => replay stored id entries map
  | updateBatchDeferred entries => replay stored id entries map
  | flushPending => map

/-- The layers that the operation passes over hold nothing it would have to change. -/
def Safe (rootOf : StateMap → Hash256) (st : Layers) : StateOp → Prop
  | insert key _ => ∀ w ∈ st.pendingWrites, w.1 ≠ key
  | delete key => st.cache key = none
  | updateBatch entries => ∀ w ∈ entries, st.cache w.1 = none
  | flushPending => st.pendingWrites ≠ [] ∨ st.root = rootOf st.smt
  | get _ | deferredInsert _ _ | updateBatchDeferred _ => True

end StateOp

/-- The layers after a sequence of operations. -/
def runOps (rootOf : StateMap → Hash256) (ops : List StateOp) (st : Layers) : Layers :=
  ops.foldl (StateOp.apply rootOf) st

/-- The map after a sequence of operations. -/
def runOpsOnMap (ops : List StateOp) (map : StateMap) : StateMap := ops.foldl StateOp.applyToMap map

/-- Every operation is safe in the state that it finds. -/
def SafeRun (rootOf : StateMap → Hash256) : List StateOp → Layers → Prop
  | [], _ => True
  | op :: ops, st => op.Safe rootOf st ∧ SafeRun rootOf ops (op.apply rootOf st)

def Layers.Holds (st : Layers) (map : StateMap) : Prop :=
  Represents stored st.cache st.pendingWrites st.smt map

section

variable {rootOf : StateMap → Hash256} {st : Layers} {map : StateMap}

theorem update_none_eq (map : StateMap) (key : Hash256) :
    Function.update map key none = replay stored id [(key, [])] map := rfl

theorem Layers.Holds.delete (h : st.Holds map) {key : Hash256} (hcold : st.cache key = none) :
    (st.delete key).2.Holds (Function.update map key none) := by
  rw [update_none_eq]
  have hwrite : Represents stored st.cache st.pendingWrites (replay stored id [(key, [])] st.smt)
      (replay stored id [(key, [])] map) := by
    apply Represents.write_tree h
    simpa using hcold
  unfold Layers.delete
  cases hkey : st.smt key with
  | some value => exact hwrite
  | none =>
    -- the tree is left alone, and the tombstone would not have changed it
    have hsame : replay stored id [(key, [])] st.smt = st.smt := by
      rw [← update_none_eq, ← hkey, Function.update_eq_self]
    rw [hsame] at hwrite
    exact hwrite

theorem Layers.Holds.flushPending (rootOf : StateMap → Hash256) (h : st.Holds map) :
    (st.flushPending rootOf).Holds map := by
  unfold Layers.flushPending
  split
  · exact h
  · exact Represents.flush h

theorem Layers.Holds.smt_flushPending (rootOf : StateMap → Hash256) (h : st.Holds map) :
    (st.flushPending rootOf).smt = map := by
  unfold Layers.flushPending
  split
  next hempty =>
    have hflushed := h.flushed
    rwa [hempty] at hflushed
  next => exact h.flushed

theorem Layers.Holds.root_flushPending (h : st.Holds map)
    (hsafe : StateOp.Safe rootOf st .flushPending) : (st.flushPending rootOf).root = rootOf map := by
  have hsmt := h.smt_flushPending rootOf
  unfold Layers.flushPending at hsmt ⊢
  split at hsmt
  next hempty =>
    rw [if_pos hempty]
    rw [← hsmt]
    exact hsafe.resolve_left (absurd hempty)
  next hpending =>
    rw [if_neg hpending]
    exact congrArg rootOf hsmt

theorem StateOp.holds_apply (op : StateOp) (h : st.Holds map) (hsafe : op.Safe rootOf st) :
    (op.apply rootOf st).Holds (op.applyToMap map) := by
  cases op with
  | get key => exact h
  | insert key value => exact Represents.insert_through h hsafe value
  | deferredInsert key value => exact Represents.defer h [(key, value)]
  | delete key => exact h.delete hsafe
  | updateBatch entries => exact Represents.write_tree h hsafe
  | updateBatchDeferred entries => exact Represents.defer h entries
  | flushPending => exact h.flushPending rootOf

theorem holds_runOps {ops : List StateOp} (h : st.Holds map) (hsafe : SafeRun rootOf ops st) :
    (runOps rootOf ops st).Holds (runOpsOnMap ops map) := by
  induction ops generalizing st map with
  | nil => exact h
  | cons op ops ih => exact ih (op.holds_apply h hsafe.1) hsafe.2

theorem SafeRun.append {done rest : List StateOp} (h : SafeRun rootOf (done ++ rest) st) :
    SafeRun rootOf done st ∧ SafeRun rootOf rest (runOps rootOf done st) := by
  induction done generalizing st with
  | nil => exact ⟨trivial, h⟩
  | cons op done ih =>
    obtain ⟨hdone, hrest⟩ := ih h.2
    exact ⟨⟨h.1, hdone⟩, hrest⟩

end

/-- Opened on a tree, the state manager answers every read with the value last written, and every flush
leaves tree and root of the map, as long as no operation passes over a layer that holds the key. -/
theorem layers_are_one_map (rootOf : StateMap → Hash256) (smt : StateMap) (ops : List StateOp)
    (hsafe : SafeRun rootOf ops (Layers.opened rootOf smt)) :
    (∀ key, (runOps rootOf ops (Layers.opened rootOf smt)).get key = runOpsOnMap ops smt key) ∧
      ∀ done, ops = done ++ [.flushPending] →
        (runOps rootOf ops (Layers.opened rootOf smt)).smt = runOpsOnMap ops smt ∧
          (runOps rootOf ops (Layers.opened rootOf smt)).root = rootOf (runOpsOnMap ops smt) := by
  have hopened : (Layers.opened rootOf smt).Holds smt := Represents.of_tree stored smt
  refine ⟨fun key => ?_, ?_⟩
  · exact congrFun (holds_runOps hopened hsafe).lookup_eq key
  · rintro done rfl
    obtain ⟨hdone, hflush, -⟩ := hsafe.append
    have hholds := holds_runOps hopened hdone
    simp only [runOps, runOpsOnMap, List.foldl_append, List.foldl_cons, List.foldl_nil]
    exact ⟨hholds.smt_flushPending rootOf, hholds.root_flushPending hflush⟩

/-- A root that tells whether the key of thirty-two ones is held. -/
def oneKeyRoot (map : StateMap) : Hash256 := if map (fill32 1) = none then zero32 else fill32 1

/-- A deferred write, a direct write and a deletion of three different keys, then a flush. -/
def threeKeyOps : List StateOp :=
  [.deferredInsert (fill32 1) [1], .insert (fill32 2) [2], .delete (fill32 3), .flushPending]

theorem layers_are_one_map_three_keys :
    (runOps oneKeyRoot threeKeyOps (Layers.opened oneKeyRoot fun _ => none)).root = fill32 1 := by
  have hsafe : SafeRun oneKeyRoot threeKeyOps (Layers.opened oneKeyRoot fun _ => none) := by
    have hcold : (runOps oneKeyRoot (threeKeyOps.take 2) (Layers.opened oneKeyRoot fun _ => none)).cache
        (fill32 3) = none := by decide +kernel
    have hother : ∀ w ∈ [((fill32 1 : Hash256), ([1] : Bytes))], w.1 ≠ fill32 2 := by decide +kernel
    exact ⟨trivial, hother, hcold, .inl (List.cons_ne_nil _ _), trivial⟩
  have hflush := (layers_are_one_map oneKeyRoot (fun _ => none) threeKeyOps hsafe).2 (threeKeyOps.take 3) rfl
  rw [hflush.2]
  decide +kernel

/-- A deleted key that is still cached is read as before, a batch written to the tree is hidden by the
cache, and a direct write is undone in the tree by an older one that was deferred. -/
theorem layers_are_not_one_map :
    let key : Hash256 := fill32 1
    let opened := Layers.opened oneKeyRoot fun _ => none
    let deleted : List StateOp := [.insert key [1], .delete key]
    let hidden : List StateOp := [.deferredInsert key [1], .updateBatch [(key, [2])]]
    let undone : List StateOp := [.deferredInsert key [1], .insert key [2], .flushPending]
    ((runOps oneKeyRoot deleted opened).get key = some [1] ∧ runOpsOnMap deleted opened.smt key = none) ∧
      ((runOps oneKeyRoot hidden opened).get key = some [1] ∧ runOpsOnMap hidden opened.smt key = some [2]) ∧
      (runOps oneKeyRoot undone opened).smt key = some [1] ∧ runOpsOnMap undone opened.smt key = some [2] := by
  decide +kernel

/-! ### Programs on the layers -/

namespace Layers

/-- What a block is processed on, as a reader of the layers sees it. -/
def view (st : Layers) : StateManager where
  store := st.get
  root := st.root

/-- `StateAccess for StateManager`: writes are deferred. -/
def deferredBackend : Backend Layers Hash256 Bytes where
  get := get
  put := deferredInsert

/-- Reads as before, but writes go through to the tree. -/
def directBackend (rootOf : StateMap → Hash256) : Backend Layers Hash256 Bytes where
  get := get
  put := insert rootOf

theorem get_deferredInsert (st : Layers) (key : Hash256) (value : Bytes) :
    (st.deferredInsert key value).get = StateProgram.insert stored st.get key value :=
  WriteBehind.lookup_update st.cache st.smt key value

theorem get_updateBatchDeferred (st : Layers) (entries : List (Hash256 × Bytes)) :
    (st.updateBatchDeferred entries).get = replay stored id entries st.get :=
  WriteBehind.lookup_fill stored entries st.cache st.smt

theorem get_insert (rootOf : StateMap → Hash256) (st : Layers) (key : Hash256) (value : Bytes) :
    (st.insert rootOf key value).get = StateProgram.insert stored st.get key value := by
  funext l
  unfold get insert WriteBehind.lookup StateProgram.insert
  by_cases hl : l = key
  · subst hl
    simp only [Function.update_self]
  · have hsmt : updateAll [(key, value)] st.smt l = st.smt l := Function.update_of_ne hl _ _
    simp only [Function.update_of_ne hl, hsmt]

theorem deferred_simulates : Simulates get deferredBackend (storeBackend stored) where
  get _ _ := rfl
  put := get_deferredInsert

theorem direct_simulates (rootOf : StateMap → Hash256) :
    Simulates get (directBackend rootOf) (storeBackend stored) where
  get _ _ := rfl
  put := get_insert rootOf

@[simp] theorem get_recordBlockUndo (st : Layers) (slot : U64) (entries : List UndoEntry) :
    (st.recordBlockUndo slot entries).get = st.get := rfl

end Layers

/-- Run a piece of the pipeline with its writes deferred. -/
abbrev runDeferred {α : Type} (P : Prims) (program : StateProg α) (st : Layers) :
    α × Layers :=
  runOn Layers.deferredBackend (StateKey.hash P) program st

/-- Run a piece of the pipeline with its writes going through to the tree. -/
abbrev runDirect {α : Type} (P : Prims) (rootOf : StateMap → Hash256) (program : StateProg α)
    (st : Layers) : α × Layers :=
  runOn (Layers.directBackend rootOf) (StateKey.hash P) program st

theorem get_runDeferred {α : Type} (P : Prims) (program : StateProg α) (st : Layers) :
    (runDeferred P program st).2.get = (runIn P program st.get).2 :=
  (runOn_simulates Layers.deferred_simulates (StateKey.hash P) program st).2

theorem get_runDirect {α : Type} (P : Prims) (rootOf : StateMap → Hash256) (program : StateProg α)
    (st : Layers) : (runDirect P rootOf program st).2.get = (runIn P program st.get).2 :=
  (runOn_simulates (Layers.direct_simulates rootOf) (StateKey.hash P) program st).2

/-! ### Execution -/

/-- The undo half of `into_writes_with_undo`. -/
def undoOf (overlay : ListedOverlay Hash256 Bytes) : List UndoEntry :=
  overlay.writes.map fun w => { key := w.1, oldValue := overlay.base w.1 }

/-- `undo_by_key`: the first entry of every key. -/
def undoByKey (entries : List UndoEntry) : List UndoEntry :=
  entries.foldl (fun kept entry => if kept.any fun e => e.key = entry.key then kept else kept ++ [entry]) []

/-- A batch is deferred unless it is empty. -/
def deferWrites (st : Layers) (entries : List (Hash256 × Bytes)) : Layers :=
  if entries = [] then st else st.updateBatchDeferred entries

section

variable (P : Prims) (pvm : Pvm) (aot : Nat → Bool)

def groupRun (txs : List Transaction) (ctx : BlockContext) (st : Layers) (order : List Nat) :
    List (Nat × Option Receipt) × ListedOverlay Hash256 Bytes :=
  runEach (ListedOverlay.backend stored) (StateKey.hash P) (blockProgram P pvm aot txs ctx st.root) order
    (ListedOverlay.new st.get)

def executeInOrderOn (txs : List Transaction) (ctx : BlockContext) (st : Layers) :
    List Receipt × Layers :=
  let run := groupRun P pvm aot txs ctx st (List.range txs.length)
  (run.1.filterMap Prod.snd, (deferWrites st run.2.writes).recordBlockUndo ctx.height (undoOf run.2))

/-- The multi-group path. The writes of the groups follow one another in one batch. -/
def executeGroupsOn (txs : List Transaction) (ctx : BlockContext) (st : Layers)
    (groups : List ExecutionGroup) : List Receipt × Layers :=
  let runs := groups.map fun group => groupRun P pvm aot txs ctx st group.txIndices
  let allWrites := runs.flatMap fun run => run.2.writes
  let undo := undoByKey (runs.flatMap fun run => undoOf run.2)
  (((runs.flatMap Prod.fst).insertionSort fun a b => a.1 ≤ b.1).filterMap Prod.snd,
    (deferWrites st allWrites).recordBlockUndo ctx.height undo)

def executeBlockOn (txs : List Transaction) (ctx : BlockContext) (st : Layers)
    (groups : List ExecutionGroup) : List Receipt × Layers :=
  if groups.length ≤ 1 then executeInOrderOn P pvm aot txs ctx st
  else executeGroupsOn P pvm aot txs ctx st groups

end

/-! ### Settlement -/

/-- The part of the reward that does not go to the proposer. -/
def mintPoolShare (slot : U64) : StateProg Unit := do
  let totalMint := blockReward slot
  let poolShare := totalMint - totalMint * serviceSharePct / 100
  whenPositive poolShare (accruePerValidator poolShare)
  let currentSupply ← readTotalSupply
  writeTotalSupply (satAdd currentSupply totalMint)

section

variable (P : Prims) (rootOf : StateMap → Hash256)

/-- The block reward. The proposer's share is the only write of a block that does not wait. -/
def mintRewardOn (slot : U64) (proposer : Address) (st : Layers) : Layers :=
  let totalMint := blockReward slot
  let serviceShare := totalMint * serviceSharePct / 100
  if 0 < totalMint ∧ proposer ≠ zero32 then
    let paid := runDirect P rootOf (whenPositive serviceShare (creditServiceShare proposer serviceShare)) st
    (runDeferred P (mintPoolShare slot) paid.2).2
  else st

/-- Everything that is written after the transactions. -/
def settleBlockOn (slot : U64) (proposer : Address) (receipts : List Receipt) (st : Layers) : Layers :=
  let credited := runDeferred P (applyBlockFees P proposer receipts) st
  let minted := mintRewardOn P rootOf slot proposer credited.2
  let subsidised := runDeferred P (paySubsidy slot) minted
  (runDeferred P (recordBurn receipts) subsidised.2).2

/-- The keys that settlement may write. -/
def settlementKeys (proposer : Address) : List StateKey :=
  [.account proposer .balance, .account (treasuryAddress P) .balance, .single .rewardsPerValidator,
    .single .supply, .single .totalBurned]

/-- `post_overlay_undo`: those keys, with the values before settlement. -/
def postOverlayUndo (proposer : Address) (st : Layers) : List UndoEntry :=
  (settlementKeys P proposer).map fun key => { key := key.hash P, oldValue := st.get (key.hash P) }

end

/-! ### The whole block -/

/-- What a processed block leaves behind, with the layers of the state. -/
structure ProcessedLayers where
  chain : ChainState
  state : Layers
  txCount : Nat
  totalGas : U64
  receipts : List Receipt

section

variable (P : Prims) (pvm : Pvm) (aot : Nat → Bool) (rootOf : StateMap → Hash256)
  (chain : ChainState) (st : Layers) (block : Block)

def applyBlockOn : ProcessedLayers :=
  let ctx := blockContext P chain st.get block
  let executed := executeBlockOn P pvm aot block.body.transactions ctx st
    block.body.executionSchedule.groups
  let totalGas := (executed.1.map Receipt.effectiveGas).sum
  let settled := settleBlockOn P rootOf block.header.slot block.header.proposer executed.1 executed.2
  { chain := { chain with baseFee := adjustBaseFee ctx.baseFee totalGas gasTarget }.advance P block.header
    state := settled.recordBlockUndo block.header.slot (postOverlayUndo P block.header.proposer executed.2)
    txCount := block.body.transactions.length
    totalGas := totalGas
    receipts := executed.1 }

/-- `process_full_block_with_aot_and_checkpoint` on the layers. -/
def processBlockOn (wsSlot : Option U64) : Except String ProcessedLayers := do
  validateHeaderWithCheckpoint block.header chain wsSlot
  validateBlockBody P block st.get chain.chainId
  pure (applyBlockOn P pvm aot rootOf chain st block)

end

/-! ### The layers do not matter to a block -/

section

variable (P : Prims) (pvm : Pvm) (aot : Nat → Bool) (rootOf : StateMap → Hash256)
  (txs : List Transaction) (ctx : BlockContext) (st : Layers)

theorem get_deferWrites (entries : List (Hash256 × Bytes)) :
    (deferWrites st entries).get = replay stored id entries st.get := by
  unfold deferWrites
  split
  next hempty =>
    rw [hempty]
    rfl
  next => exact st.get_updateBatchDeferred entries

theorem groupRun_fst (order : List Nat) :
    (groupRun P pvm aot txs ctx st order).1 =
      (runEach (Overlay.backend stored) (StateKey.hash P) (blockProgram P pvm aot txs ctx st.root) order
        (Overlay.new st.get)).1 := by
  have hlisted := runEach_simulates (ListedOverlay.simulates stored) (StateKey.hash P)
    (blockProgram P pvm aot txs ctx st.root) order (ListedOverlay.new st.get)
  have hplain := runEach_simulates (Overlay.simulates stored) (StateKey.hash P)
    (blockProgram P pvm aot txs ctx st.root) order (Overlay.new st.get)
  exact hlisted.1.trans hplain.1.symm

theorem replay_groupRun (order : List Nat) (store : StateMap) :
    replay stored id (groupRun P pvm aot txs ctx st order).2.writes store =
      (runEach (Overlay.backend stored) (StateKey.hash P) (blockProgram P pvm aot txs ctx st.root) order
        (Overlay.new st.get)).2.commit stored store := by
  unfold groupRun
  rw [ListedOverlay.replay_runEach, Overlay.commit_runEach]
  rfl

theorem executeInOrderOn_view :
    (executeInOrderOn P pvm aot txs ctx st).1 = (executeInOrder P pvm aot txs ctx st.view).1 ∧
      (executeInOrderOn P pvm aot txs ctx st).2.get = (executeInOrder P pvm aot txs ctx st.view).2 := by
  unfold executeInOrderOn executeInOrder
  constructor
  · exact congrArg (List.filterMap Prod.snd) (groupRun_fst P pvm aot txs ctx st _)
  · rw [Layers.get_recordBlockUndo, get_deferWrites, replay_groupRun]
    rfl

theorem replay_groupRuns (orders : List (List Nat)) (store : StateMap) :
    replay stored id ((orders.map (groupRun P pvm aot txs ctx st)).flatMap fun run => run.2.writes) store =
      (orders.map fun order => runEach (Overlay.backend stored) (StateKey.hash P)
        (blockProgram P pvm aot txs ctx st.root) order (Overlay.new st.get)).foldl
          (fun s run => run.2.commit stored s) store := by
  induction orders generalizing store with
  | nil => rfl
  | cons order orders ih =>
    rw [List.map_cons, List.flatMap_cons, replay_append, replay_groupRun, ih]
    rfl

theorem executeGroupsOn_view (groups : List ExecutionGroup) :
    (executeGroupsOn P pvm aot txs ctx st groups).1 = (executeGroups P pvm aot txs ctx st.view groups).1 ∧
      (executeGroupsOn P pvm aot txs ctx st groups).2.get =
        (executeGroups P pvm aot txs ctx st.view groups).2 := by
  have hruns : (groups.map fun group => groupRun P pvm aot txs ctx st group.txIndices) =
      (groups.map ExecutionGroup.txIndices).map (groupRun P pvm aot txs ctx st) := by
    rw [List.map_map]
    rfl
  unfold executeGroupsOn executeGroups runGroups
  rw [hruns]
  constructor
  · have hanswers : (((groups.map ExecutionGroup.txIndices).map (groupRun P pvm aot txs ctx st)).flatMap
        Prod.fst) = ((groups.map ExecutionGroup.txIndices).map fun order =>
          runEach (Overlay.backend stored) (StateKey.hash P) (blockProgram P pvm aot txs ctx st.root)
            order (Overlay.new st.get)).flatMap Prod.fst := by
      simp only [List.flatMap_map, groupRun_fst]
    exact congrArg (fun answers : List (Nat × Option Receipt) =>
      (answers.insertionSort fun a b => a.1 ≤ b.1).filterMap Prod.snd) hanswers
  · rw [Layers.get_recordBlockUndo, get_deferWrites, replay_groupRuns]
    rfl

theorem executeBlockOn_view (groups : List ExecutionGroup) :
    (executeBlockOn P pvm aot txs ctx st groups).1 = (executeBlock P pvm aot txs ctx st.view groups).1 ∧
      (executeBlockOn P pvm aot txs ctx st groups).2.get =
        (executeBlock P pvm aot txs ctx st.view groups).2 := by
  unfold executeBlockOn executeBlock
  split
  · exact executeInOrderOn_view P pvm aot txs ctx st
  · exact executeGroupsOn_view P pvm aot txs ctx st groups

theorem get_mintRewardOn (slot : U64) (proposer : Address) :
    (mintRewardOn P rootOf slot proposer st).get = (runIn P (mintReward slot proposer) st.get).2 := by
  unfold mintRewardOn mintReward
  dsimp only
  by_cases hmint : 0 < blockReward slot ∧ proposer ≠ zero32
  · rw [if_pos hmint, if_pos hmint, get_runDeferred, get_runDirect]
    have hsplit := run_bind stored (StateKey.hash P)
      (whenPositive (blockReward slot * serviceSharePct / 100)
        (creditServiceShare proposer (blockReward slot * serviceSharePct / 100)))
      (fun _ => mintPoolShare slot) st.get
    exact (congrArg Prod.snd hsplit).symm
  · rw [if_neg hmint, if_neg hmint]
    rfl

theorem get_settleBlockOn (slot : U64) (proposer : Address) (receipts : List Receipt) :
    (settleBlockOn P rootOf slot proposer receipts st).get =
      (runIn P (settleBlock P slot proposer receipts) st.get).2 := by
  unfold settleBlockOn settleBlock
  simp only [get_runDeferred, get_mintRewardOn, run_bind]

theorem processBlockOn_ok {chain : ChainState} {block : Block} {wsSlot : Option U64}
    {processed : ProcessedLayers}
    (h : processBlockOn P pvm aot rootOf chain st block wsSlot = .ok processed) :
    validateHeaderWithCheckpoint block.header chain wsSlot = .ok () ∧
      validateBlockBody P block st.get chain.chainId = .ok () ∧
      processed = applyBlockOn P pvm aot rootOf chain st block := by
  unfold processBlockOn at h
  cases hheader : validateHeaderWithCheckpoint block.header chain wsSlot with
  | error e =>
    rw [hheader] at h
    exact nomatch h
  | ok _ =>
    rw [hheader] at h
    change (validateBlockBody P block st.get chain.chainId >>= _) = _ at h
    cases hbody : validateBlockBody P block st.get chain.chainId with
    | error e =>
      rw [hbody] at h
      exact nomatch h
    | ok _ =>
      rw [hbody] at h
      exact ⟨rfl, rfl, (Except.ok.inj h).symm⟩

end

/-- Keys arrive as byte strings of any length. -/
abbrev SnapshotEntries := List (Bytes × Bytes)

inductive SnapshotResponse where
  | stateSnapshot (stateRoot : Hash256) (headSlot : U64) (entries : SnapshotEntries)
  | stateSnapshotChunk (stateRoot : Hash256) (headSlot : U64) (chunkIndex totalChunks : U32) (chunkHash : Hash256)
      (entries : SnapshotEntries)

/-- What the sync engine keeps of a snapshot in chunks. The tip and the flag that a matching root sets are not read on
this path. -/
structure SnapshotSync where
  snapshotChunks : List (U32 × SnapshotEntries × Hash256)
  snapshotExpectedRoot : Option Hash256
  snapshotTotalChunks : U32
  snapshotHeadSlot : U64
  snapshotRetryCount : U32

def chunkMaxRetries : U32 := 3

def checkSnapshotWsAnchor (headSlot : U64) (stateRoot : Hash256) :
    Option (U64 × Hash256) → Except String Unit
  | none => .ok ()
  | some (cpSlot, cpRoot) =>
    if headSlot < cpSlot then .error "snapshot head_slot is before WS checkpoint"
    else if headSlot = cpSlot ∧ stateRoot ≠ cpRoot then
      .error "snapshot state_root at WS checkpoint slot does not match"
    else .ok ()

/-- A key of another length becomes the zero key. -/
def keyedEntries (entries : SnapshotEntries) : List (Hash256 × Bytes) :=
  entries.map fun entry => (if h : entry.1.length = 32 then ⟨entry.1, h⟩ else zero32, entry.2)

/-- What the hash of a chunk is taken over. -/
def chunkBytes (entries : SnapshotEntries) : Bytes :=
  entries.flatMap fun entry => entry.1 ++ (toLe (BitVec.ofNat 32 entry.2.length) ++ entry.2)

namespace SnapshotSync

/-- The collected chunks are given up. -/
def abort (sync : SnapshotSync) : SnapshotSync :=
  { sync with snapshotChunks := [], snapshotExpectedRoot := none, snapshotTotalChunks := 0, snapshotRetryCount := 0 }

/-- The chunk is kept. The first one fixes root, number and slot. -/
def store (sync : SnapshotSync) (stateRoot : Hash256) (headSlot : U64) (totalChunks : U32)
    (chunk : U32 × SnapshotEntries × Hash256) : SnapshotSync :=
  let sync := { sync with snapshotRetryCount := 0, snapshotChunks := sync.snapshotChunks ++ [chunk] }
  if sync.snapshotExpectedRoot = none then
    { sync with
      snapshotExpectedRoot := some stateRoot, snapshotTotalChunks := totalChunks, snapshotHeadSlot := headSlot }
  else sync

/-- The entries of all chunks in the order of their indices. -/
def allEntries (sync : SnapshotSync) : SnapshotEntries :=
  (sync.snapshotChunks.mergeSort fun a b => a.1 ≤ b.1).flatMap fun chunk => chunk.2.1

/-- What a response comes to: the chunks that are kept, and the snapshot that is imported, with the root that it is
compared with. -/
def receive (P : Prims) (sync : SnapshotSync) (wsCheckpoint : Option (U64 × Hash256)) :
    SnapshotResponse → SnapshotSync × Option (Hash256 × SnapshotEntries)
  | .stateSnapshot stateRoot headSlot entries =>
    match checkSnapshotWsAnchor headSlot stateRoot wsCheckpoint with
    | .error _ => (sync, none)
    | .ok () => (sync, some (stateRoot, entries))
  | .stateSnapshotChunk stateRoot headSlot chunkIndex totalChunks chunkHash entries =>
    match checkSnapshotWsAnchor headSlot stateRoot wsCheckpoint with
    | .error _ => (sync.abort, none)
    | .ok () =>
      if P.poseidon2Hash (chunkBytes entries) ≠ chunkHash then
        let sync := { sync with snapshotRetryCount := sync.snapshotRetryCount + 1 }
        (if chunkMaxRetries < sync.snapshotRetryCount then sync.abort else sync, none)
      else
        let sync := sync.store stateRoot headSlot totalChunks (chunkIndex, entries, chunkHash)
        if totalChunks ≤ BitVec.ofNat 32 sync.snapshotChunks.length then
          ({ sync with snapshotChunks := [], snapshotExpectedRoot := none },
            some (sync.snapshotExpectedRoot.getD zero32, sync.allEntries))
        else (sync, none)

end SnapshotSync

section

variable (P : Prims) (rootOf : StateMap → Hash256)

/-- `import_snapshot`. The entries go into the tree that is there, and the cache does not follow. -/
def Layers.importSnapshot (st : Layers) (entries : SnapshotEntries) : Layers :=
  st.updateBatch rootOf (keyedEntries entries)

/-- The state after a response. The root is compared after the import, and a mismatch is only logged. -/
def Layers.imported (st : Layers) : Option (Hash256 × SnapshotEntries) → Layers
  | none => st
  | some (_, entries) => st.importSnapshot rootOf entries

/-- A response, with what it meets: the chunks collected so far, the checkpoint, and cache and tree. -/
structure SnapshotStep where
  sync : SnapshotSync
  wsCheckpoint : Option (U64 × Hash256)
  response : SnapshotResponse
  state : Layers

/-- The state after the response. -/
def SnapshotStep.next (step : SnapshotStep) : Layers :=
  step.state.imported rootOf (step.sync.receive P step.wsCheckpoint step.response).2

/-- `on_response` for one response after the other, each with the checkpoint of its moment. -/
def onResponses : SnapshotSync → Layers → List (Option (U64 × Hash256) × SnapshotResponse) →
    List SnapshotStep
  | _, _, [] => []
  | sync, st, (wsCheckpoint, response) :: rest =>
    let step : SnapshotStep := ⟨sync, wsCheckpoint, response, st⟩
    step :: onResponses (sync.receive P wsCheckpoint response).1 (step.next P rootOf) rest

def snapshotTree (entries : SnapshotEntries) : StateMap := updateAll (keyedEntries entries) fun _ => none

/-- Every key reads as before, or the state was replaced by a tree with the announced root. -/
def SnapshotStep.Safe (step : SnapshotStep) : Prop :=
  (∀ key, (step.next P rootOf).get key = step.state.get key) ∨
    ∃ root entries, (step.sync.receive P step.wsCheckpoint step.response).2 = some (root, entries) ∧
      rootOf (snapshotTree entries) = root ∧ ∀ key, (step.next P rootOf).get key = snapshotTree entries key

/-! ### When an import is harmless -/

/-- The value that the entries give to a key, the last one if there are several. -/
def namedValue (entries : SnapshotEntries) : Hash256 → Option Bytes :=
  WriteBehind.fill (keyedEntries entries) fun _ => none

/-- Every key of the snapshot that is not cached has its value in the tree already. -/
def Layers.Repeats (st : Layers) (entries : SnapshotEntries) : Prop :=
  ∀ key value, namedValue entries key = some value → st.cache key = none → st.smt key = stored value

/-- Cached keys have the value of the snapshot, and the tree has no other key that is not cached. -/
def Layers.Replaceable (st : Layers) (entries : SnapshotEntries) : Prop :=
  (∀ key value, st.cache key = some value → stored value = (namedValue entries key).bind stored) ∧
    ∀ key, st.cache key = none → namedValue entries key = none → st.smt key = none

/-- The snapshot that a response completes. A chunk counts if its hash is right and it is at least the last that is
missing by number; the chunks are then taken as they were collected, whatever their indices. -/
def SnapshotSync.Completes (sync : SnapshotSync) (wsCheckpoint : Option (U64 × Hash256)) (root : Hash256)
    (entries : SnapshotEntries) : SnapshotResponse → Prop
  | .stateSnapshot stateRoot headSlot announced =>
    checkSnapshotWsAnchor headSlot stateRoot wsCheckpoint = .ok () ∧ root = stateRoot ∧ entries = announced
  | .stateSnapshotChunk stateRoot headSlot chunkIndex totalChunks chunkHash chunk =>
    checkSnapshotWsAnchor headSlot stateRoot wsCheckpoint = .ok () ∧
      P.poseidon2Hash (chunkBytes chunk) = chunkHash ∧
      totalChunks ≤ BitVec.ofNat 32 (sync.snapshotChunks.length + 1) ∧
        root = sync.snapshotExpectedRoot.getD stateRoot ∧
      entries = ((sync.snapshotChunks ++ [(chunkIndex, chunk, chunkHash)]).mergeSort fun a b => a.1 ≤ b.1).flatMap
        fun chunk => chunk.2.1

/-- If the response completes a snapshot, the node has its values already; or it has the announced root, and neither
cache nor tree holds anything against it. -/
def SnapshotStep.Harmless (step : SnapshotStep) : Prop :=
  ∀ root entries, step.sync.Completes P step.wsCheckpoint root entries step.response →
    step.state.Repeats entries ∨ rootOf (snapshotTree entries) = root ∧ step.state.Replaceable entries

end

variable {P : Prims} {rootOf : StateMap → Hash256}

theorem updateAll_keyedEntries (entries : SnapshotEntries) (smt : StateMap) :
    updateAll (keyedEntries entries) smt = WriteBehind.lookup stored (namedValue entries) smt :=
  (WriteBehind.lookup_fill stored (keyedEntries entries) (fun _ => none) smt).symm

theorem get_importSnapshot (st : Layers) (entries : SnapshotEntries) (key : Hash256) :
    (st.importSnapshot rootOf entries).get key =
      WriteBehind.lookup stored st.cache (WriteBehind.lookup stored (namedValue entries) st.smt) key := by
  rw [← updateAll_keyedEntries]
  rfl

theorem snapshotTree_eq (entries : SnapshotEntries) (key : Hash256) :
    snapshotTree entries key = (namedValue entries key).bind stored := by
  rw [snapshotTree, updateAll_keyedEntries, WriteBehind.lookup]
  cases namedValue entries key with
  | none => rfl
  | some value => rfl

theorem get_importSnapshot_same_iff (st : Layers) (entries : SnapshotEntries) :
    (∀ key, (st.importSnapshot rootOf entries).get key = st.get key) ↔ st.Repeats entries := by
  refine forall_congr' fun key => ?_
  change (st.importSnapshot rootOf entries).get key = WriteBehind.lookup stored st.cache st.smt key ↔ _
  rw [get_importSnapshot]
  unfold WriteBehind.lookup
  cases st.cache key with
  | none => cases namedValue entries key <;> simp [eq_comm]
  | some value => simp

theorem get_importSnapshot_tree_iff (st : Layers) (entries : SnapshotEntries) :
    (∀ key, (st.importSnapshot rootOf entries).get key = snapshotTree entries key) ↔ st.Replaceable entries := by
  rw [Layers.Replaceable, ← forall_and]
  refine forall_congr' fun key => ?_
  rw [get_importSnapshot, snapshotTree_eq]
  unfold WriteBehind.lookup
  cases st.cache key with
  | none => cases namedValue entries key <;> simp
  | some value => simp

/-- `receive` hands over a snapshot exactly if the response completes it. -/
theorem SnapshotSync.receive_eq_some_iff (sync : SnapshotSync) (wsCheckpoint : Option (U64 × Hash256))
    (response : SnapshotResponse) (root : Hash256) (entries : SnapshotEntries) :
    (sync.receive P wsCheckpoint response).2 = some (root, entries) ↔
      sync.Completes P wsCheckpoint root entries response := by
  cases response with
  | stateSnapshot stateRoot headSlot announced =>
    unfold receive Completes
    cases hanchor : checkSnapshotWsAnchor headSlot stateRoot wsCheckpoint with
    | error e => simp [hanchor]
    | ok => simp [hanchor, eq_comm]
  | stateSnapshotChunk stateRoot headSlot chunkIndex totalChunks chunkHash chunk =>
    have hexpected : ∀ chunk, (sync.store stateRoot headSlot totalChunks chunk).snapshotExpectedRoot.getD zero32 =
        sync.snapshotExpectedRoot.getD stateRoot := by
      intro chunk
      unfold store
      cases sync.snapshotExpectedRoot <;> simp
    have hchunks : ∀ chunk, (sync.store stateRoot headSlot totalChunks chunk).snapshotChunks =
        sync.snapshotChunks ++ [chunk] := by
      intro chunk
      unfold store
      dsimp only
      split <;> rfl
    unfold receive Completes
    cases hanchor : checkSnapshotWsAnchor headSlot stateRoot wsCheckpoint with
    | error e => simp [hanchor]
    | ok =>
      by_cases hhash : P.poseidon2Hash (chunkBytes chunk) = chunkHash
      · by_cases htotal : totalChunks ≤ BitVec.ofNat 32 (sync.snapshotChunks.length + 1)
        · simp [hanchor, hhash, htotal, hexpected, hchunks, allEntries, eq_comm]
        · simp [hanchor, hhash, htotal, hchunks]
      · simp [hanchor, hhash]

theorem SnapshotStep.safe_iff (step : SnapshotStep) : step.Safe P rootOf ↔ step.Harmless P rootOf := by
  unfold Safe Harmless SnapshotStep.next
  simp only [← SnapshotSync.receive_eq_some_iff]
  cases (step.sync.receive P step.wsCheckpoint step.response).2 with
  | none => exact iff_of_true (.inl fun _ => rfl) nofun
  | some announced =>
    obtain ⟨root, entries⟩ := announced
    constructor
    · rintro (hsame | ⟨_, _, ⟨⟩, hroot, htree⟩) _ _ ⟨⟩
      · exact .inl ((get_importSnapshot_same_iff step.state entries).mp hsame)
      · exact .inr ⟨hroot, (get_importSnapshot_tree_iff step.state entries).mp htree⟩
    · intro h
      rcases h root entries rfl with hsame | ⟨hroot, htree⟩
      · exact .inl ((get_importSnapshot_same_iff step.state entries).mpr hsame)
      · exact .inr ⟨root, entries, rfl, hroot, (get_importSnapshot_tree_iff step.state entries).mpr htree⟩

/-- Over any responses, no bad snapshot changes anything exactly when every snapshot that is completed has the node's
values already, or has the announced root with nothing in cache and tree against it. -/
theorem snapshots_safe_iff (P : Prims) (rootOf : StateMap → Hash256) (sync : SnapshotSync)
    (st : Layers) (responses : List (Option (U64 × Hash256) × SnapshotResponse)) :
    (∀ step ∈ onResponses P rootOf sync st responses, step.Safe P rootOf) ↔
      ∀ step ∈ onResponses P rootOf sync st responses, step.Harmless P rootOf :=
  forall₂_congr fun step _ => step.safe_iff

/-- A snapshot without a matching root overwrites a value. -/
theorem bad_snapshot_overwrites :
    let st := Layers.opened oneKeyRoot (updateAll [(fill32 1, [1])] fun _ => none)
    let steps := onResponses lucid oneKeyRoot ⟨[], none, 0, 0, 0⟩ st
      [(none, .stateSnapshot zero32 5 [((fill32 1).toList, [2])]), (none, .stateSnapshot zero32 5 [])]
    steps.map (fun step => step.state.get (fill32 1)) = [some [1], some [2]] ∧
      oneKeyRoot (snapshotTree [((fill32 1).toList, [2])]) ≠ zero32 := by
  decide +kernel

/-! ### Incremental snapshots -/

/-- An empty value stands for a key that is gone. -/
structure IncrementalSnapshot where
  fromRoot : Hash256
  toRoot : Hash256
  diffs : List (Hash256 × Bytes)

section

variable (rootOf)

def createIncremental (oldKeys : List Hash256) (oldSmt newSmt : StateMap) (newKeys : List Hash256) :
    IncrementalSnapshot where
  fromRoot := rootOf oldSmt
  toRoot := rootOf newSmt
  diffs :=
    (newKeys.filter fun key => oldSmt key ≠ newSmt key).map (fun key => (key, (newSmt key).getD [])) ++
      (oldKeys.filter fun key => newSmt key = none ∧ oldSmt key ≠ none).map fun key => (key, [])

variable (updateTree : List (Hash256 × Bytes) → StateMap → StateMap)

/-- `apply_incremental`: the tree afterwards, and its root if the snapshot was taken. `updateTree` is the `update_all` of
the sparse Merkle tree library, to which the differences go as they are. -/
def applyIncremental (smt : StateMap) (inc : IncrementalSnapshot) : StateMap × Option Hash256 :=
  if rootOf smt ≠ inc.fromRoot then (smt, none)
  else (updateTree inc.diffs smt, some (rootOf (updateTree inc.diffs smt)))

/-- The keys list all that the tree has, and no value is empty. -/
def KeysListed (content : StateMap × List Hash256) : Prop :=
  ∀ key, content.1 key ≠ some [] ∧ (content.1 key ≠ none → key ∈ content.2)

theorem updateAll_createIncremental {old new : StateMap × List Hash256} (hold : KeysListed old)
    (hnew : KeysListed new) :
    updateAll (createIncremental rootOf old.2 old.1 new.1 new.2).diffs old.1 = new.1 := by
  funext key
  apply replay_of_agreeing
  · intro w hw hkey
    obtain hchanged | hgone := List.mem_append.mp hw
    · obtain ⟨changed, -, rfl⟩ := List.mem_map.mp hchanged
      subst hkey
      have hfull := (hnew changed).1
      cases hvalue : new.1 changed with
      | none => rfl
      | some value =>
        rw [hvalue] at hfull
        exact if_neg fun hempty => hfull (congrArg some hempty)
    · obtain ⟨gone, hfilter, rfl⟩ := List.mem_map.mp hgone
      subst hkey
      exact (of_decide_eq_true (List.mem_filter.mp hfilter).2).1.symm
  · by_cases hsame : old.1 key = new.1 key
    · exact .inl hsame
    refine .inr ?_
    by_cases hnone : new.1 key = none
    · have hthere : old.1 key ≠ none := fun hempty => hsame (hempty.trans hnone.symm)
      exact ⟨(key, []), List.mem_append_right _ (List.mem_map_of_mem (List.mem_filter.mpr
        ⟨(hold key).2 hthere, decide_eq_true ⟨hnone, hthere⟩⟩)), rfl⟩
    · exact ⟨_, List.mem_append_left _ (List.mem_map_of_mem (List.mem_filter.mpr
        ⟨(hnew key).2 hnone, decide_eq_true hsame⟩)), rfl⟩

/-- States that differ have a difference. -/
theorem diffs_ne_nil {old new : StateMap × List Hash256} (hold : KeysListed old) (hnew : KeysListed new)
    (hne : old.1 ≠ new.1) : (createIncremental rootOf old.2 old.1 new.1 new.2).diffs ≠ [] := by
  intro hnil
  have hsame := updateAll_createIncremental rootOf hold hnew
  rw [hnil] at hsame
  exact hne hsame

/-- The trees that a replica has when it is handed the snapshots one after another. -/
def replicaSteps : StateMap → List IncrementalSnapshot → List (StateMap × IncrementalSnapshot)
  | _, [] => []
  | smt, inc :: rest => (smt, inc) :: replicaSteps (applyIncremental rootOf updateTree smt inc).1 rest

/-- A replica that is handed differences between states of a node, in any order and any number of times, has one of
these states at every moment. It takes a difference exactly if it has its old state, and then has its new one. Of the
tree library only what it does with batches that are not empty is assumed. -/
theorem replica_follows (hupdate : ∀ entries ≠ [], ∀ smt, updateTree entries smt = updateAll entries smt)
    (states : Set (StateMap × List Hash256)) (hlisted : ∀ content ∈ states, KeysListed content)
    (hroots : Set.InjOn rootOf (Prod.fst '' states)) (incs : List IncrementalSnapshot)
    (hincs : ∀ inc ∈ incs, ∃ old ∈ states, ∃ new ∈ states, old.1 ≠ new.1 ∧
      inc = createIncremental rootOf old.2 old.1 new.1 new.2)
    {smt : StateMap} (hsmt : smt ∈ Prod.fst '' states) :
    ∀ step ∈ replicaSteps rootOf updateTree smt incs, step.1 ∈ Prod.fst '' states ∧
      ∃ old ∈ states, ∃ new ∈ states, step.2 = createIncremental rootOf old.2 old.1 new.1 new.2 ∧
        (step.1 = old.1 → applyIncremental rootOf updateTree step.1 step.2 = (new.1, some step.2.toRoot)) ∧
        (step.1 ≠ old.1 → applyIncremental rootOf updateTree step.1 step.2 = (step.1, none)) := by
  induction incs generalizing smt with
  | nil => exact List.forall_mem_nil _
  | cons inc rest ih =>
    rw [List.forall_mem_cons] at hincs
    obtain ⟨⟨old, hold, new, hnew, hne, hinc⟩, hrest⟩ := hincs
    have htaken : smt = old.1 → applyIncremental rootOf updateTree smt inc = (new.1, some inc.toRoot) := by
      rintro rfl
      have hsame : rootOf old.1 = inc.fromRoot := hinc ▸ rfl
      rw [applyIncremental, if_neg (not_not.mpr hsame), hinc,
        hupdate _ (diffs_ne_nil rootOf (hlisted old hold) (hlisted new hnew) hne),
        updateAll_createIncremental rootOf (hlisted old hold) (hlisted new hnew)]
      rfl
    have hrefused : smt ≠ old.1 → applyIncremental rootOf updateTree smt inc = (smt, none) := by
      intro hother
      have hroot : rootOf smt ≠ inc.fromRoot := by
        rw [hinc]
        exact fun hsame => hother (hroots hsmt ⟨old, hold, rfl⟩ hsame)
      exact if_pos hroot
    rw [replicaSteps, List.forall_mem_cons]
    refine ⟨⟨hsmt, old, hold, new, hnew, hinc, htaken, hrefused⟩, ih hrest ?_⟩
    by_cases hsame : smt = old.1
    · rw [htaken hsame]
      exact ⟨new, hnew, rfl⟩
    · rw [hrefused hsame]
      exact hsmt

end

/-- Nothing, and one key. -/
def twoStates : List (StateMap × List Hash256) :=
  [(fun _ => none, []), (fun key => if key = fill32 1 then some [1] else none, [fill32 1])]

/-- A tree library that forgets everything when it is given nothing to do. -/
def forgetfulUpdate (entries : List (Hash256 × Bytes)) (smt : StateMap) : StateMap :=
  if entries = [] then fun _ => none else updateAll entries smt

/-- The difference to one key arrives, is repeated, is taken back and arrives again. -/
theorem replica_follows_one_key :
    let up := createIncremental oneKeyRoot [] (fun _ => none) (twoStates.getD 1 default).1 [fill32 1]
    let down := createIncremental oneKeyRoot [fill32 1] (twoStates.getD 1 default).1 (fun _ => none) []
    ∀ step ∈ replicaSteps oneKeyRoot forgetfulUpdate (fun _ => none) [up, up, down, up],
      step.1 ∈ Prod.fst '' {content | content ∈ twoStates} := by
  intro up down step hstep
  have hlisted : ∀ content ∈ twoStates, KeysListed content := by simp [twoStates, KeysListed]
  have hne : (fun _ => none : StateMap) ≠ (twoStates.getD 1 default).1 := by
    intro hsame
    have hkey := congrFun hsame (fill32 1)
    simp [twoStates] at hkey
  refine (replica_follows oneKeyRoot forgetfulUpdate (fun entries hentries smt => if_neg hentries)
    {content | content ∈ twoStates} hlisted ?_ _ ?_ ⟨_, List.mem_cons_self, rfl⟩ step hstep).1
  · have hroots : ∀ old ∈ twoStates, ∀ new ∈ twoStates, oneKeyRoot old.1 = oneKeyRoot new.1 →
    old.1 = new.1 := by
      have hkeys : zero32 ≠ fill32 1#8 := by decide
      simp [twoStates, oneKeyRoot, hkeys, hkeys.symm]
    rintro _ ⟨old, hold, rfl⟩ _ ⟨new, hnew, rfl⟩
    exact hroots old hold new hnew
  · have hup : ∃ old ∈ twoStates, ∃ new ∈ twoStates, old.1 ≠ new.1 ∧
        up = createIncremental oneKeyRoot old.2 old.1 new.1 new.2 :=
      ⟨_, List.mem_cons_self, _, List.mem_cons_of_mem _ List.mem_cons_self, hne, rfl⟩
    have hdown : ∃ old ∈ twoStates, ∃ new ∈ twoStates, old.1 ≠ new.1 ∧
        down = createIncremental oneKeyRoot old.2 old.1 new.1 new.2 :=
      ⟨_, List.mem_cons_of_mem _ List.mem_cons_self, _, List.mem_cons_self, hne.symm, rfl⟩
    simp only [List.forall_mem_cons]
    exact ⟨hup, hup, hdown, hup, List.forall_mem_nil _⟩

end Pyde
