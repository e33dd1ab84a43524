/-
Module: Pyde.Node.Revert
Purpose: Reverting to the end of a slot. Every record of a block undoes what was written before it was made, so popping
  all records above the slot restores what was read there.
Trusted boundary: Prims, Pvm, Threshold, the root of the tree
-/
import Pyde.Node.Decryption

namespace Pyde

open ByteCodec StateProgram List Function

variable {entries : List UndoEntry} {logs : List (U64 × List UndoEntry)}

/-! ### Old values -/

/-- No key holds the empty value, which stands for an absent one. -/
def NoEmpty (store : StateMap) : Prop := ∀ key, store key ≠ some []

theorem stored_ne_some_nil (value : Bytes) : stored value ≠ some [] := by
  unfold stored
  split
  next => exact nofun
  next hne => exact fun h => hne (Option.some.inj h)

section

variable {κ : Type} {store : StateMap}

theorem NoEmpty.insert (h : NoEmpty store) (key : Hash256) (value : Bytes) :
    NoEmpty (StateProgram.insert stored store key value) := by
  intro l
  unfold StateProgram.insert
  by_cases hl : l = key
  · rw [hl, update_self]
    exact stored_ne_some_nil value
  · rw [update_of_ne hl]
    exact h l

theorem NoEmpty.replay (loc : κ → Hash256) (h : NoEmpty store) (log : List (κ × Bytes)) :
    NoEmpty (replay stored loc log store) := by
  induction log generalizing store with
  | nil => exact h
  | cons w log ih => exact ih (h.insert (loc w.1) w.2)

theorem NoEmpty.runIn {α : Type} (h : NoEmpty store) (P : Prims) (program : StateProg α) :
    NoEmpty (runIn P program store).2 := by
  rw [run_snd]
  exact h.replay _ _

theorem NoEmpty.stored_getD (h : NoEmpty store) (key : Hash256) : stored ((store key).getD []) = store key := by
  cases hkey : store key with
  | none => rfl
  | some value =>
    have hne : value ≠ [] := fun hnil => h key (hkey.trans (congrArg some hnil))
    exact if_neg hne

end

def restoreWrites (entries : List UndoEntry) : List (Hash256 × Bytes) :=
  entries.map fun entry => (entry.key, entry.oldValue.getD [])

/-- Writing the old values back turns `after` into `before`. -/
def Undoes (entries : List UndoEntry) (before after : StateMap) : Prop :=
  replay stored id (restoreWrites entries) after = before

theorem undoes_of_listed {before after : StateMap} (hnone : NoEmpty before)
    (hold : ∀ entry ∈ entries, entry.oldValue = before entry.key)
    (hlisted : ∀ key, after key = before key ∨ ∃ entry ∈ entries, entry.key = key) :
    Undoes entries before after := by
  apply replay_undo
  · intro u hu
    obtain ⟨entry, hentry, rfl⟩ := List.mem_map.mp hu
    dsimp only
    rw [hold entry hentry]
    exact hnone.stored_getD entry.key
  · intro key
    rcases hlisted key with hsame | ⟨entry, hentry, rfl⟩
    · exact .inl hsame
    · exact .inr ⟨_, List.mem_map.mpr ⟨entry, hentry, rfl⟩, rfl⟩

/-! ### Popping records -/

namespace Layers

variable (rootOf : StateMap → Hash256)

/-- Cache and tree take the old values together, so they read as written. -/
theorem lookup_restore (entries : List (Hash256 × Bytes)) (cache : Hash256 → Option Bytes) (smt : StateMap) :
    WriteBehind.lookup stored (entries.foldl (fun (cache : Hash256 → Option Bytes) w =>
          Function.update cache w.1 (if w.2 = [] then none else some w.2)) cache) (replay stored id entries smt) =
      replay stored id entries (WriteBehind.lookup stored cache smt) := by
  induction entries generalizing cache smt with
  | nil => rfl
  | cons w entries ih =>
    have hstep : WriteBehind.lookup stored
        (Function.update cache w.1 (if w.2 = [] then none else some w.2))
        (StateProgram.insert stored smt w.1 w.2) =
          StateProgram.insert stored (WriteBehind.lookup stored cache smt) w.1 w.2 := by
      funext key
      unfold WriteBehind.lookup StateProgram.insert
      by_cases hkey : key = w.1
      · subst hkey
        simp only [update_self]
        by_cases hempty : w.2 = []
        · simp only [hempty, if_true]
        · simp only [hempty, if_false]
      · simp only [update_of_ne hkey]
    exact (ih _ _).trans (congrArg (replay stored id entries) hstep)

theorem get_restore (st : Layers) (entries : List UndoEntry) :
    (st.restore rootOf entries).get = replay stored id (restoreWrites entries) st.get :=
  lookup_restore (restoreWrites entries) st.cache st.smt

/-- Nothing is deferred, and tree and root are those of what is read. -/
structure Settled (st : Layers) : Prop where
  nothingPending : st.pendingWrites = []
  tree : st.smt = st.get
  root : st.root = rootOf st.get

variable {rootOf}

section

variable {st : Layers} (h : st.Settled rootOf)
include h

theorem Settled.covered : st.Covered := by
  intro w hw
  rw [h.nothingPending] at hw
  exact absurd hw not_mem_nil

theorem Settled.flushPending : st.flushPending rootOf = st := if_pos h.nothingPending

theorem Settled.restore (entries : List UndoEntry) : (st.restore rootOf entries).Settled rootOf := by
  have htree : (st.restore rootOf entries).smt = (st.restore rootOf entries).get := by
    rw [get_restore, ← h.tree]
    rfl
  refine ⟨h.nothingPending, htree, ?_⟩
  rw [← htree]
  unfold Layers.restore
  dsimp only
  split
  next hempty =>
    have hsame : updateAll (entries.map fun entry => (entry.key, entry.oldValue.getD [])) st.smt = st.smt := by
      rw [hempty]
      rfl
    rw [hsame, h.root, h.tree]
  next => rfl

end

/-- What reading gives once some records are popped, newest first. -/
def restoredView (logs : List (U64 × List UndoEntry)) (view : StateMap) : StateMap :=
  logs.foldl (fun view log => replay stored id (restoreWrites log.2) view) view

variable (rootOf) in
theorem popLogs_above {target : U64} {newer older : List (U64 × List UndoEntry)}
    (habove : ∀ log ∈ newer, target < log.1) (hbelow : ∀ log ∈ older, log.1 ≤ target) (st : Layers) :
    (popLogs rootOf target (newer ++ older) st).2.get = restoredView newer st.get ∧
      (st.Settled rootOf → (popLogs rootOf target (newer ++ older) st).2.Settled rootOf) := by
  induction newer generalizing st with
  | nil =>
    have hstop : (popLogs rootOf target older st).2 = { st with blockUndoLogs := older } := by
      cases older with
      | nil => rfl
      | cons log older => rw [popLogs, if_pos (hbelow log mem_cons_self)]
    rw [nil_append, hstop]
    exact ⟨rfl, fun h => ⟨h.nothingPending, h.tree, h.root⟩⟩
  | cons log newer ih =>
    rw [forall_mem_cons] at habove
    rw [cons_append, popLogs, if_neg (BitVec.not_le.mpr habove.1)]
    obtain ⟨hget, hsettled⟩ := ih habove.2 (st.restore rootOf log.2)
    rw [get_restore] at hget
    exact ⟨hget, fun h => hsettled (h.restore log.2)⟩

/-- The records above the slot turn what is read into `target`, and there is room for more of them. -/
structure Revertible (slot : U64) (target : StateMap) (room : Nat) (st : Layers) : Prop where
  covered : st.Covered
  noEmpty : NoEmpty st.get
  logs : ∃ newer older, st.blockUndoLogs = newer ++ older ∧ (∀ log ∈ newer, slot < log.1) ∧
    (∀ log ∈ older, log.1 ≤ slot) ∧ newer.length + room ≤ maxUndoDepth ∧ restoredView newer st.get = target

variable {slot : U64} {target : StateMap} {room : Nat} {st after : Layers}

theorem Revertible.record {recordSlot : U64} (h : Revertible slot target (room + 1) st)
    (habove : slot < recordSlot) (hcovered : after.Covered) (hnone : NoEmpty after.get)
    (hlogs : after.blockUndoLogs = st.blockUndoLogs) (hundo : Undoes entries st.get after.get) :
    Revertible slot target room (after.recordBlockUndo recordSlot entries) := by
  obtain ⟨newer, older, hsplit, hnewer, holder, hroom, hview⟩ := h.logs
  refine ⟨hcovered, hnone, (recordSlot, entries) :: newer, older.take (maxUndoDepth - (newer.length + 1)), ?_,
    ?_, ?_, ?_, ?_⟩
  · -- the oldest records may go, the ones above the slot stay
    change ((recordSlot, entries) :: after.blockUndoLogs).take maxUndoDepth = _
    rw [hlogs, hsplit, ← cons_append, take_append, take_of_length_le (by simp; omega)]
    rfl
  · exact List.forall_mem_cons.mpr ⟨habove, hnewer⟩
  · intro log hlog
    exact holder log (mem_of_mem_take hlog)
  · simp only [length_cons]
    omega
  · change restoredView newer (replay stored id (restoreWrites entries) after.get) = target
    rw [hundo]
    exact hview

theorem Revertible.keep (h : Revertible slot target room st) (hcovered : after.Covered)
    (hlogs : after.blockUndoLogs = st.blockUndoLogs) (hget : after.get = st.get) :
    Revertible slot target room after := by
  refine ⟨hcovered, ?_, ?_⟩
  · rw [hget]
    exact h.noEmpty
  · rw [hlogs, hget]
    exact h.logs

theorem Revertible.mono {room' : Nat} (h : Revertible slot target room st) (hle : room' ≤ room) :
    Revertible slot target room' st := by
  obtain ⟨newer, older, hsplit, hnewer, holder, hroom, hview⟩ := h.logs
  exact ⟨h.covered, h.noEmpty, newer, older, hsplit, hnewer, holder, by omega, hview⟩

theorem Settled.revertible (h : st.Settled rootOf) (hnone : NoEmpty st.get)
    (hlogs : ∀ log ∈ st.blockUndoLogs, log.1 ≤ slot) : Revertible slot st.get maxUndoDepth st :=
  ⟨h.covered, hnone, [], st.blockUndoLogs, rfl, nofun, hlogs, le_of_eq (Nat.zero_add _), rfl⟩

theorem Revertible.get_revertTo {count : Nat} {reverted : Layers}
    (h : Revertible slot target room st) (hrevert : st.revertTo rootOf slot = .ok (count, reverted)) :
    reverted.get = target ∧ (st.Settled rootOf → reverted.Settled rootOf) := by
  have hpopped : (popLogs rootOf slot st.blockUndoLogs st).2 = reverted := by
    unfold revertTo at hrevert
    split at hrevert
    · split at hrevert
      · cases hrevert
      · exact congrArg Prod.snd (Except.ok.inj hrevert)
    · exact congrArg Prod.snd (Except.ok.inj hrevert)
  obtain ⟨newer, older, hsplit, hnewer, holder, -, hview⟩ := h.logs
  obtain ⟨hget, hsettled⟩ := popLogs_above rootOf hnewer holder st
  rw [← hsplit, hpopped] at hget hsettled
  exact ⟨hget.trans hview, hsettled⟩

end Layers

/-! ### The record of an overlay -/

section

variable {before : StateMap}

theorem undoes_of_replay {log : List (Hash256 × Bytes)} (hnone : NoEmpty before)
    (hold : ∀ entry ∈ entries, entry.oldValue = before entry.key)
    (hlisted : ∀ w ∈ log, ∃ entry ∈ entries, entry.key = w.1) :
    Undoes entries before (replay stored id log before) := by
  apply undoes_of_listed hnone hold
  intro key
  by_cases hkey : ∃ w ∈ log, w.1 = key
  · obtain ⟨w, hw, rfl⟩ := hkey
    exact .inr (hlisted w hw)
  left
  apply replay_of_untouched
  intro w hw heq
  exact hkey ⟨w, hw, heq⟩

theorem overlay_undoes {overlay : ListedOverlay Hash256 Bytes} (hbase : overlay.base = before)
    (hnone : NoEmpty before) : Undoes (undoOf overlay) before (replay stored id overlay.writes before) := by
  apply undoes_of_replay hnone
  · intro entry hentry
    obtain ⟨w, -, rfl⟩ := List.mem_map.mp hentry
    rw [hbase]
  · exact fun w hw => ⟨_, mem_map_of_mem hw, rfl⟩

/-- `undo_by_key` keeps an entry for every key, and makes none up. -/
theorem undoByKey_spec (entries : List UndoEntry) :
    (∀ entry ∈ undoByKey entries, entry ∈ entries) ∧
      ∀ entry ∈ entries, ∃ kept ∈ undoByKey entries, kept.key = entry.key := by
  induction entries using List.reverseRecOn with
  | nil => exact ⟨fun _ h => h, nofun⟩
  | append_singleton entries last ih =>
    obtain ⟨hfrom, hall⟩ := ih
    have hstep : undoByKey (entries ++ [last]) =
        if (undoByKey entries).any fun e => e.key = last.key then undoByKey entries
        else undoByKey entries ++ [last] := foldl_concat ..
    rw [hstep, forall_mem_append, forall_mem_singleton]
    split
    next hany =>
      obtain ⟨kept, hkept, hkey⟩ := List.any_eq_true.mp hany
      exact ⟨fun e he => mem_append_left _ (hfrom e he), hall, kept, hkept, of_decide_eq_true hkey⟩
    next =>
      rw [forall_mem_append, forall_mem_singleton]
      refine ⟨⟨fun e he => mem_append_left _ (hfrom e he), mem_append_right _ mem_cons_self⟩, ?_, ?_⟩
      · intro e he
        obtain ⟨kept, hkept, hkey⟩ := hall e he
        exact ⟨kept, mem_append_left _ hkept, hkey⟩
      · exact ⟨last, mem_append_right _ mem_cons_self, rfl⟩

theorem overlays_undo {overlays : List (ListedOverlay Hash256 Bytes)}
    (hbase : ∀ overlay ∈ overlays, overlay.base = before) (hnone : NoEmpty before) :
    Undoes (undoByKey (overlays.flatMap undoOf)) before
      (replay stored id (overlays.flatMap ListedOverlay.writes) before) := by
  obtain ⟨hfrom, hall⟩ := undoByKey_spec (overlays.flatMap undoOf)
  apply undoes_of_replay hnone
  · intro entry hentry
    obtain ⟨overlay, hoverlay, hmem⟩ := List.mem_flatMap.mp (hfrom entry hentry)
    obtain ⟨w, -, rfl⟩ := List.mem_map.mp hmem
    rw [hbase overlay hoverlay]
  · intro w hw
    obtain ⟨overlay, hoverlay, hw⟩ := List.mem_flatMap.mp hw
    exact hall ⟨w.1, overlay.base w.1⟩ (List.mem_flatMap.mpr ⟨overlay, hoverlay, mem_map_of_mem hw⟩)

end

/-- The overlay after a sequence of reads and writes. -/
def overlayOf (ops : Prog Hash256 Bytes Unit) (base : StateMap) : ListedOverlay Hash256 Bytes :=
  (runOn (ListedOverlay.backend stored) id ops (ListedOverlay.new base)).2

/-- Apply the writes of one overlay after another, and then the undo entries, those of the last overlay first. -/
def appliedAndUndone : List (Prog Hash256 Bytes Unit) → StateMap → StateMap
  | [], base => base
  | ops :: later, base =>
    let overlay := overlayOf ops base
    replay stored id (restoreWrites (undoOf overlay)) (appliedAndUndone later (replay stored id overlay.writes base))

theorem overlayOf_undoes {base : StateMap} (hnone : NoEmpty base) (ops : Prog Hash256 Bytes Unit) :
    Undoes (undoOf (overlayOf ops base)) base (replay stored id (overlayOf ops base).writes base) :=
  overlay_undoes (ListedOverlay.base_runOn id ops (ListedOverlay.new base)) hnone

/-- Undo entries restore what the writes changed, for one overlay and for any number of them. -/
theorem overlay_undo_left_inverse (base : {st : StateMap // NoEmpty st}) :
    (∀ ops, let overlay := overlayOf ops base.1
      Undoes (undoOf overlay) base.1 (replay stored id overlay.writes base.1) ∧
      (overlay.writes.map Prod.fst).Nodup ∧ (undoOf overlay).map UndoEntry.key = overlay.writes.map Prod.fst ∧
      ∀ key, key ∈ overlay.writes.map Prod.fst ↔ key ∈ (writes stored id ops base.1).map Prod.fst) ∧
    ∀ overlays, appliedAndUndone overlays base.1 = base.1 := by
  obtain ⟨base, hnone⟩ := base
  constructor
  · intro ops
    obtain ⟨hnodup, hmem⟩ := ListedOverlay.keys_runOn id ops (ListedOverlay.new base) nodup_nil
    refine ⟨overlayOf_undoes hnone ops, hnodup, map_map, fun key => (hmem key).trans ?_⟩
    exact ⟨fun h => h.resolve_left not_mem_nil, .inr⟩
  · intro overlays
    induction overlays generalizing base with
    | nil => rfl
    | cons ops later ih =>
      dsimp only [appliedAndUndone]
      rw [ih _ (hnone.replay id (overlayOf ops base).writes)]
      exact overlayOf_undoes hnone ops

/-! ### The record of the settlement -/

section

variable {P : Prims} {store : StateMap} {proposer : Address} {l : Hash256}

theorem creditFees_frame {addr : Address} (amt : U128)
    (hl : balanceKey P (acctAt P store addr).address ≠ l) :
    (runIn P (creditFees addr amt) store).2 l = store l := by
  unfold creditFees
  split
  · simp only [run_bind, run_loadAccount, storeAccount, run_write]
    exact update_of_ne hl.symm _ _
  · rfl

/-- Once the proposer is credited, the treasury's record is its own or the one just stored. -/
theorem acctAt_after_credit (amt : U128) (hproposer : Filed P store proposer)
    (htreasury : Filed P store (treasuryAddress P)) :
    (acctAt P (runIn P (creditFees proposer amt) store).2 (treasuryAddress P)).address = proposer ∨
      (acctAt P (runIn P (creditFees proposer amt) store).2 (treasuryAddress P)).address =
        treasuryAddress P := by
  rw [run_creditFees hproposer]
  split
  · by_cases hkey : balanceKey P (treasuryAddress P) = balanceKey P proposer
    · left
      rw [← hkey, acctAt_insert_self]
      · exact hproposer
      · exact storable_acctAt P store proposer
    · right
      rw [acctAt_insert_of_ne hkey]
      exact htreasury
  · exact .inr htreasury

theorem applyBlockFees_frame (receipts : List Receipt) (hproposer : Filed P store proposer)
    (htreasury : Filed P store (treasuryAddress P)) (hlp : balanceKey P proposer ≠ l)
    (hlt : balanceKey P (treasuryAddress P) ≠ l) :
    (runIn P (applyBlockFees P proposer receipts) store).2 l = store l := by
  have hfirst : balanceKey P (acctAt P store proposer).address ≠ l := by
    rw [show (acctAt P store proposer).address = proposer from hproposer]
    exact hlp
  rw [run_applyBlockFees, creditFees_frame, creditFees_frame _ hfirst]
  rcases acctAt_after_credit (receipts.map Receipt.feeValidator).sum hproposer htreasury with
    haddr | haddr
  · rw [haddr]
    exact hlp
  · rw [haddr]
    exact hlt

theorem writes_whenPositive {φ : StateKey → Prop} (amt : U128) {program : StateProg Unit}
    (h : program.Writes φ) : (whenPositive amt program).Writes φ := by
  unfold whenPositive
  split
  · exact h
  · exact Prog.writes_pure _

theorem writes_accruePerValidator {φ : StateKey → Prop} (h : φ (.single .rewardsPerValidator)) (amt : U128) :
    (accruePerValidator amt).Writes φ := by
  refine (writes_readGlobal 64 _ _).bind fun count => ?_
  dsimp only
  split
  · apply writes_whenPositive
    exact (writes_readGlobal 128 _ _).bind fun cur => Prog.writes_write.mpr h
  · exact Prog.writes_pure _

theorem writes_mintReward (P : Prims) (slot : U64) (proposer : Address) :
    (mintReward slot proposer).Writes (· ∈ settlementKeys P proposer) := by
  unfold mintReward
  dsimp only
  split
  · refine (writes_whenPositive _ ?_).bind fun _ => (writes_whenPositive _ ?_).bind fun _ => ?_
    · refine (Prog.writes_read _).bind fun bytes => ?_
      cases bytes.bind Account.fromBytes with
      | none => exact Prog.writes_pure _
      | some account => exact Prog.writes_write.mpr (by simp [settlementKeys])
    · exact writes_accruePerValidator (by simp [settlementKeys]) _
    · exact (writes_readGlobal 128 _ _).bind fun supply => Prog.writes_write.mpr (by simp [settlementKeys])
  · exact Prog.writes_pure _

theorem writes_paySubsidy (P : Prims) (slot : U64) (proposer : Address) :
    (paySubsidy slot).Writes (· ∈ settlementKeys P proposer) := by
  unfold paySubsidy
  refine .bind ?_ fun subsidy => ?_
  · exact (Prog.writes_read _).bind fun _ => Prog.writes_pure _
  · cases subsidy with
    | none => exact Prog.writes_pure _
    | some schedule =>
      dsimp only
      split
      · exact writes_accruePerValidator (by simp [settlementKeys]) _
      · exact Prog.writes_pure _

theorem writes_recordBurn (P : Prims) (proposer : Address) (receipts : List Receipt) :
    (recordBurn receipts).Writes (· ∈ settlementKeys P proposer) := by
  apply writes_whenPositive
  exact (writes_readGlobal 128 _ _).bind fun burned => Prog.writes_write.mpr (by simp [settlementKeys])

/-- A program whose writes are among the keys leaves every other location alone. -/
theorem frame_of_writes {program : StateProg Unit} (h : program.Writes (· ∈ settlementKeys P proposer))
    (hl : ∀ key ∈ settlementKeys P proposer, key.hash P ≠ l) (store : StateMap) :
    (runIn P program store).2 l = store l := by
  apply run_frame
  intro w hw
  exact hl w.1 (h.mem stored (StateKey.hash P) store w hw)

/-- Settlement writes nothing but the keys it lists, if the two accounts that are credited are filed under
their own address. -/
theorem settleBlock_frame (slot : U64) (receipts : List Receipt) (hproposer : Filed P store proposer)
    (htreasury : Filed P store (treasuryAddress P)) (hl : ∀ key ∈ settlementKeys P proposer, key.hash P ≠ l) :
    (runIn P (settleBlock P slot proposer receipts) store).2 l = store l := by
  have hfees := applyBlockFees_frame receipts hproposer htreasury (l := l)
    (hl (.account proposer .balance) (by simp [settlementKeys]))
    (hl (.account (treasuryAddress P) .balance) (by simp [settlementKeys]))
  simp only [settleBlock, run_bind]
  exact (frame_of_writes (writes_recordBurn P proposer receipts) hl _).trans
    ((frame_of_writes (writes_paySubsidy P slot proposer) hl _).trans
      ((frame_of_writes (writes_mintReward P slot proposer) hl _).trans hfees))

theorem settlement_undoes (rootOf : StateMap → Hash256) {st : Layers} (slot : U64)
    (receipts : List Receipt) (hnone : NoEmpty st.get) (hproposer : Filed P st.get proposer)
    (htreasury : Filed P st.get (treasuryAddress P)) :
    Undoes (postOverlayUndo P proposer st) st.get
      (settleBlockOn P rootOf slot proposer receipts st).get := by
  apply undoes_of_listed hnone
  · intro entry hentry
    obtain ⟨key, -, rfl⟩ := List.mem_map.mp hentry
    rfl
  · intro l
    by_cases hlisted : ∃ key ∈ settlementKeys P proposer, key.hash P = l
    · obtain ⟨key, hkey, rfl⟩ := hlisted
      exact .inr ⟨_, List.mem_map.mpr ⟨key, hkey, rfl⟩, rfl⟩
    left
    rw [get_settleBlockOn]
    apply settleBlock_frame slot receipts hproposer htreasury
    intro key hkey heq
    exact hlisted ⟨key, hkey, heq⟩

end

/-! ### Whole blocks -/

namespace Layers

variable {P : Prims} {pvm : Pvm} {aot : Nat → Bool} {rootOf : StateMap → Hash256} {slot : U64}
  {target : StateMap} {room : Nat} {st : Layers}

theorem covered_deferredInsert (h : st.Covered) (key : Hash256) (value : Bytes) :
    (st.deferredInsert key value).Covered := by
  intro w hw
  rcases List.mem_append.mp hw with hw | hw
  · exact WriteBehind.isSome_update key value (h w hw)
  obtain rfl := List.mem_singleton.mp hw
  change (Function.update st.cache key (some value) key).isSome
  rw [update_self]
  rfl

theorem covered_insert (h : st.Covered) (key : Hash256) (value : Bytes) :
    (st.insert rootOf key value).Covered :=
  fun w hw => WriteBehind.isSome_update key value (h w hw)

/-- What a step of settlement keeps besides what is read: deferred writes are cached, and no record is
made or dropped. -/
def KeepsRecords (logs : List (U64 × List UndoEntry)) (st : Layers) : Prop :=
  st.Covered ∧ st.blockUndoLogs = logs

theorem KeepsRecords.runDeferred {α : Type} (P : Prims) (program : StateProg α) (h : KeepsRecords logs st) :
    KeepsRecords logs (runDeferred P program st).2 :=
  runOn_invariant (fun _ key value hs => ⟨covered_deferredInsert hs.1 key value, hs.2⟩) _ program h

theorem KeepsRecords.runDirect {α : Type} (P : Prims) (rootOf : StateMap → Hash256) (program : StateProg α)
    (h : KeepsRecords logs st) : KeepsRecords logs (runDirect P rootOf program st).2 :=
  runOn_invariant (fun _ key value hs => ⟨covered_insert hs.1 key value, hs.2⟩) _ program h

theorem KeepsRecords.settleBlockOn (P : Prims) (rootOf : StateMap → Hash256) (blockSlot : U64)
    (proposer : Address) (receipts : List Receipt) (h : KeepsRecords logs st) :
    KeepsRecords logs (settleBlockOn P rootOf blockSlot proposer receipts st) := by
  have hcredited := h.runDeferred P (applyBlockFees P proposer receipts)
  have hminted : KeepsRecords logs (mintRewardOn P rootOf blockSlot proposer
      (Pyde.runDeferred P (applyBlockFees P proposer receipts) st).2) := by
    unfold mintRewardOn
    dsimp only
    split
    · exact (hcredited.runDirect P rootOf _).runDeferred P _
    · exact hcredited
  exact (hminted.runDeferred P _).runDeferred P _

theorem logs_deferWrites (st : Layers) (entries : List (Hash256 × Bytes)) :
    (deferWrites st entries).blockUndoLogs = st.blockUndoLogs := by
  unfold deferWrites
  split <;> rfl

theorem Revertible.deferWrites {recordSlot : U64} {writes : List (Hash256 × Bytes)}
    (h : Revertible slot target (room + 1) st) (habove : slot < recordSlot)
    (hundo : Undoes entries st.get (replay stored id writes st.get)) :
    Revertible slot target room ((deferWrites st writes).recordBlockUndo recordSlot entries) := by
  have hget := get_deferWrites st writes
  apply h.record habove (h.covered.deferWrites writes)
  · rw [hget]
    exact h.noEmpty.replay id writes
  · exact logs_deferWrites st writes
  · rw [hget]
    exact hundo

theorem base_groupRun (txs : List Transaction) (ctx : BlockContext) (order : List Nat) :
    (groupRun P pvm aot txs ctx st order).2.base = st.get :=
  ListedOverlay.base_runEach (StateKey.hash P) _ order (ListedOverlay.new st.get)

variable (P pvm aot) in
theorem Revertible.executeBlockOn (h : Revertible slot target (room + 1) st) (txs : List Transaction)
    (ctx : BlockContext) (groups : List ExecutionGroup) (habove : slot < ctx.height) :
    Revertible slot target room (executeBlockOn P pvm aot txs ctx st groups).2 := by
  unfold Pyde.executeBlockOn
  split
  · exact h.deferWrites habove (overlay_undoes (base_groupRun txs ctx _) h.noEmpty)
  -- the overlays of the groups, in order
  let overlays := groups.map fun group => (groupRun P pvm aot txs ctx st group.txIndices).2
  have hbase : ∀ overlay ∈ overlays, overlay.base = st.get := by
    intro overlay hoverlay
    obtain ⟨group, -, rfl⟩ := List.mem_map.mp hoverlay
    exact base_groupRun txs ctx _
  have hundo := overlays_undo hbase h.noEmpty
  have hwrites : overlays.flatMap ListedOverlay.writes =
      (groups.map fun group => groupRun P pvm aot txs ctx st group.txIndices).flatMap
        fun run => run.2.writes := by
    simp only [overlays, flatMap_map]
  have hentries : overlays.flatMap undoOf =
      (groups.map fun group => groupRun P pvm aot txs ctx st group.txIndices).flatMap
        fun run => undoOf run.2 := by
    simp only [overlays, flatMap_map]
  rw [hwrites, hentries] at hundo
  exact h.deferWrites habove hundo

end Layers

/-! ### Runs of a node -/

/-- What block processing works on. -/
structure NodeState where
  chain : ChainState
  state : Layers

/-- What happens to it: a block is processed, the decrypted transactions of a block are executed, or the
deferred writes are committed. -/
inductive NodeEvent where
  | process (aot : Nat → Bool) (wsSlot : Option U64) (block : Block)
  | decrypt (call : DecryptionCall)
  | commit

namespace NodeEvent

def Above (slot : U64) : NodeEvent → Prop
  | process _ _ block => slot < block.header.slot
  | decrypt call => slot < call.slot
  | commit => True

/-- At most so many records are made. -/
def records : NodeEvent → Nat
  | process _ _ _ => 2
  | decrypt _ => 1
  | commit => 0

section

variable (P : Prims) (pvm : Pvm) (T : Threshold) (rootOf : StateMap → Hash256)

/-- A block that is refused changes nothing. -/
def apply (node : NodeState) : NodeEvent → NodeState
  | process aot wsSlot block =>
    match processBlockOn P pvm aot rootOf node.chain node.state block wsSlot with
    | .ok processed => { chain := processed.chain, state := processed.state }
    | .error _ => node
  | decrypt call => { node with state := (tryDecryptAndExecute P pvm T rootOf call node.state).2 }
  | commit => { node with state := node.state.flushPending rootOf }

/-- When the fees of a block are credited, the records of proposer and treasury are filed under their own
address. -/
def CreditsFiled (node : NodeState) : NodeEvent → Prop
  | process aot _ block =>
    let ctx := blockContext P node.chain node.state.get block
    let executed := executeBlock P pvm aot block.body.transactions ctx node.state.view
      block.body.executionSchedule.groups
    Filed P executed.2 block.header.proposer ∧ Filed P executed.2 (treasuryAddress P)
  | decrypt _ | commit => True

end

end NodeEvent

section

variable (P : Prims) (pvm : Pvm) (T : Threshold) (rootOf : StateMap → Hash256)

def runEvents (events : List NodeEvent) (node : NodeState) : NodeState :=
  events.foldl (NodeEvent.apply P pvm T rootOf) node

theorem state_commit (events : List NodeEvent) (node : NodeState) :
    (runEvents P pvm T rootOf (events ++ [.commit]) node).state =
      (runEvents P pvm T rootOf events node).state.flushPending rootOf := by
  rw [runEvents, foldl_append]
  rfl

/-- Every block credits accounts that are filed under their own address. -/
def FiledRun : List NodeEvent → NodeState → Prop
  | [], _ => True
  | event :: events, node => event.CreditsFiled P pvm node ∧ FiledRun events (event.apply P pvm T rootOf node)

end

namespace Layers

variable {P : Prims} {pvm : Pvm} {T : Threshold} {rootOf : StateMap → Hash256} {slot : U64}
  {target : StateMap} {room : Nat} {st : Layers}

theorem Revertible.flushPending (h : Revertible slot target room st) (rootOf : StateMap → Hash256) :
    Revertible slot target room (st.flushPending rootOf) := by
  have hget := h.covered.get_flushPending rootOf
  apply h.keep _ _ hget
  · unfold Layers.flushPending
    split
    · exact h.covered
    · exact nofun
  · unfold Layers.flushPending
    split <;> rfl

theorem Revertible.applyBlockOn (h : Revertible slot target (room + 2) st) {aot : Nat → Bool}
    {chain : ChainState} {block : Block} {wsSlot : Option U64} (habove : slot < block.header.slot)
    (hfiled : (NodeEvent.process aot wsSlot block).CreditsFiled P pvm ⟨chain, st⟩) :
    Revertible slot target room (applyBlockOn P pvm aot rootOf chain st block).state := by
  have hexecuted := Revertible.executeBlockOn P pvm aot h block.body.transactions
    (blockContext P chain st.get block) block.body.executionSchedule.groups habove
  obtain ⟨hproposer, htreasury⟩ := hfiled
  obtain ⟨-, hstore⟩ := executeBlockOn_view P pvm aot block.body.transactions
    (blockContext P chain st.get block) st block.body.executionSchedule.groups
  rw [← hstore] at hproposer htreasury
  unfold Pyde.applyBlockOn
  dsimp only
  generalize (Pyde.executeBlockOn P pvm aot block.body.transactions (blockContext P chain st.get block)
    st block.body.executionSchedule.groups) = executed at hexecuted hproposer htreasury
  have hbefore : KeepsRecords executed.2.blockUndoLogs executed.2 := ⟨hexecuted.covered, rfl⟩
  have hkept := hbefore.settleBlockOn P rootOf block.header.slot block.header.proposer executed.1
  apply hexecuted.record habove hkept.1 _ hkept.2
  · exact settlement_undoes rootOf block.header.slot executed.1 hexecuted.noEmpty hproposer htreasury
  · rw [get_settleBlockOn]
    exact hexecuted.noEmpty.runIn P _

theorem Revertible.tryDecryptAndExecute (h : Revertible slot target (room + 1) st) {call : DecryptionCall}
    (habove : slot < call.slot) :
    Revertible slot target room (tryDecryptAndExecute P pvm T rootOf call st).2 := by
  cases hbatch : call.batch P T st.get with
  | error outcome =>
    rw [tryDecryptAndExecute_of_error hbatch]
    exact h.mono (Nat.le_succ room)
  | ok batch =>
    obtain ⟨ctx, txs⟩ := batch
    have hbase : (decryptedRun P pvm txs ctx st).2.base = st.get :=
      ListedOverlay.base_runEach (StateKey.hash P) _ _ (ListedOverlay.new st.get)
    have hundo := overlay_undoes hbase h.noEmpty
    -- refreshing the root is no change to what is read or recorded
    have hrefresh : ∀ flushed : Layers, Revertible slot target room flushed →
        Revertible slot target room (flushed.refreshRoot rootOf) :=
      fun flushed hflushed => hflushed.keep hflushed.covered rfl rfl
    simp only [Pyde.tryDecryptAndExecute, hbatch]
    apply hrefresh
    apply Revertible.flushPending
    split
    next hempty =>
      have hnothing : (decryptedRun P pvm txs ctx st).2.writes = [] := List.map_eq_nil_iff.mp hempty
      rw [hnothing]
      exact h.mono (Nat.le_succ room)
    next => exact h.deferWrites habove hundo

theorem Revertible.apply {node : NodeState} {event : NodeEvent}
    (h : Revertible slot target (room + event.records) node.state) (habove : event.Above slot)
    (hfiled : event.CreditsFiled P pvm node) :
    Revertible slot target room (event.apply P pvm T rootOf node).state := by
  cases event with
  | process aot wsSlot block =>
    cases hprocess : processBlockOn P pvm aot rootOf node.chain node.state block wsSlot with
    | error e =>
      simp only [NodeEvent.apply, hprocess]
      exact h.mono (Nat.le_add_right room 2)
    | ok processed =>
      obtain ⟨-, -, rfl⟩ := processBlockOn_ok P pvm aot rootOf node.state hprocess
      simp only [NodeEvent.apply, hprocess]
      exact Revertible.applyBlockOn h habove hfiled
  | decrypt call => exact h.tryDecryptAndExecute habove
  | commit => exact h.flushPending rootOf

theorem Revertible.runEvents {node : NodeState} {events : List NodeEvent}
    (h : Revertible slot target (room + (events.map NodeEvent.records).sum) node.state)
    (habove : ∀ event ∈ events, event.Above slot) (hfiled : FiledRun P pvm T rootOf events node) :
    Revertible slot target room (runEvents P pvm T rootOf events node).state := by
  induction events generalizing node with
  | nil => exact h
  | cons event events ih =>
    rw [forall_mem_cons] at habove
    apply ih _ habove.2 hfiled.2
    apply Revertible.apply _ habove.1 hfiled.1
    rw [map_cons, sum_cons, Nat.add_comm event.records, ← Nat.add_assoc] at h
    exact h

end Layers

section

variable {P : Prims} {pvm : Pvm} {T : Threshold} {rootOf : StateMap → Hash256} {slot : U64}
  {node : NodeState} {events : List NodeEvent} {count : Nat} {reverted : Layers}

/-- Reverting to the end of a slot restores reads and root for good, if tree and cache agreed there and agree again,
the records above the slot are held, and fees were credited to accounts filed under their own address. -/
theorem revert_restores_slot (hsettled : node.state.Settled rootOf) (hnone : NoEmpty node.state.get)
    (hlogs : ∀ log ∈ node.state.blockUndoLogs, log.1 ≤ slot) (habove : ∀ event ∈ events, event.Above slot)
    (hrecords : (events.map NodeEvent.records).sum ≤ maxUndoDepth) (hfiled : FiledRun P pvm T rootOf events node)
    (hagain : (runEvents P pvm T rootOf events node).state.Settled rootOf)
    (hrevert : (runEvents P pvm T rootOf events node).state.revertTo rootOf slot = .ok (count, reverted)) :
    ((∀ key, reverted.get key = node.state.get key) ∧ reverted.root = node.state.root) ∧
      (∀ key, (reverted.flushPending rootOf).get key = node.state.get key) ∧
        (reverted.flushPending rootOf).root = node.state.root := by
  have hstart : node.state.Revertible slot node.state.get (0 + (events.map NodeEvent.records).sum) :=
    (hsettled.revertible hnone hlogs).mono (by omega)
  obtain ⟨hget, hkept⟩ := (hstart.runEvents habove hfiled).get_revertTo hrevert
  have hend := hkept hagain
  have hroot : reverted.root = node.state.root := by rw [hend.root, hget, hsettled.root]
  have hread : ∀ key, reverted.get key = node.state.get key := fun key => congrFun hget key
  rw [hend.flushPending]
  exact ⟨⟨hread, hroot⟩, hread, hroot⟩

end

/-! ### When cache and tree agree -/

namespace Layers

/-- What is deferred is all that the tree lacks. -/
def Coherent (st : Layers) : Prop := st.Holds st.get

variable {P : Prims} {rootOf : StateMap → Hash256} {st : Layers}

theorem coherent_opened (rootOf : StateMap → Hash256) (smt : StateMap) :
    (opened rootOf smt).Coherent := Represents.of_tree stored smt

theorem settled_opened (rootOf : StateMap → Hash256) (smt : StateMap) :
    (opened rootOf smt).Settled rootOf := ⟨rfl, rfl, rfl⟩

theorem Coherent.deferWrites (h : st.Coherent) (entries : List (Hash256 × Bytes)) :
    (deferWrites st entries).Coherent := by
  unfold Coherent
  rw [get_deferWrites]
  unfold Pyde.deferWrites
  split
  next hempty =>
    rw [hempty]
    exact h
  next => exact Represents.defer h entries

theorem Coherent.runDeferred {α : Type} (h : st.Coherent) (program : StateProg α) :
    (runDeferred P program st).2.Coherent := by
  apply runOn_invariant _ _ program h
  intro s key value hs
  unfold Coherent
  rw [show deferredBackend.put s key value = s.deferredInsert key value from rfl, get_deferredInsert]
  exact Represents.defer hs [(key, value)]

theorem Coherent.executeBlockOn (h : st.Coherent) (pvm : Pvm) (aot : Nat → Bool)
    (txs : List Transaction) (ctx : BlockContext) (groups : List ExecutionGroup) :
    (executeBlockOn P pvm aot txs ctx st groups).2.Coherent := by
  unfold Pyde.executeBlockOn
  split
  · exact h.deferWrites _
  · exact h.deferWrites _

/-- So does the whole block, if its proposer is paid no service share. -/
theorem Coherent.applyBlockOn (h : st.Coherent) (pvm : Pvm) (aot : Nat → Bool) (chain : ChainState)
    (block : Block) (hunpaid : ¬ (0 < blockReward block.header.slot ∧ block.header.proposer ≠ zero32)) :
    (applyBlockOn P pvm aot rootOf chain st block).state.Coherent := by
  have hexecuted := h.executeBlockOn (P := P) pvm aot block.body.transactions
    (blockContext P chain st.get block) block.body.executionSchedule.groups
  have hsettled : ∀ (executed : Layers) (receipts : List Receipt), executed.Coherent →
      (settleBlockOn P rootOf block.header.slot block.header.proposer receipts executed).Coherent := by
    intro executed receipts hcoherent
    unfold settleBlockOn mintRewardOn
    dsimp only
    rw [if_neg hunpaid]
    exact ((hcoherent.runDeferred _).runDeferred _).runDeferred _
  exact hsettled _ _ hexecuted

theorem Coherent.settled_flushPending (h : st.Coherent) (hsafe : StateOp.Safe rootOf st .flushPending) :
    (st.flushPending rootOf).Settled rootOf := by
  have hget := (Holds.flushPending rootOf h).lookup_eq
  change (st.flushPending rootOf).get = st.get at hget
  refine ⟨?_, ?_, ?_⟩
  · unfold Layers.flushPending
    split
    next hempty => exact hempty
    next => rfl
  · rw [hget]
    exact Holds.smt_flushPending rootOf h
  · rw [hget]
    exact Holds.root_flushPending h hsafe

end Layers

theorem exists_ok_of_isSome {ε α : Type} {res : Except ε α} (h : res.toOption.isSome = true) :
    ∃ a, res = .ok a := by
  cases res with
  | error e => cases h
  | ok a => exact ⟨a, rfl⟩

/-- A block whose proposer is paid nothing, committed: cache and tree agree. -/
theorem settled_block_commit {P : Prims} {pvm : Pvm} {T : Threshold} {rootOf : StateMap → Hash256}
    {node : NodeState} {aot : Nat → Bool} {wsSlot : Option U64} {block : Block}
    (hcoherent : node.state.Coherent) (hok : (processBlockOn P pvm aot rootOf node.chain node.state block
      wsSlot).toOption.isSome = true)
    (hunpaid : ¬ (0 < blockReward block.header.slot ∧ block.header.proposer ≠ zero32))
    (hpending : (runEvents P pvm T rootOf [.process aot wsSlot block] node).state.pendingWrites ≠ []) :
    (runEvents P pvm T rootOf [.process aot wsSlot block, .commit] node).state.Settled rootOf := by
  obtain ⟨processed, hprocess⟩ := exists_ok_of_isSome hok
  have hstate : (runEvents P pvm T rootOf [.process aot wsSlot block] node).state =
      processed.state := by
    simp only [runEvents, foldl_cons, foldl_nil, NodeEvent.apply, hprocess]
  have hcommit := state_commit P pvm T rootOf [.process aot wsSlot block] node
  rw [singleton_append, hstate] at hcommit
  rw [hstate] at hpending
  obtain ⟨-, -, rfl⟩ := processBlockOn_ok P pvm aot rootOf node.state hprocess
  rw [hcommit]
  exact (hcoherent.applyBlockOn pvm aot node.chain block hunpaid).settled_flushPending (.inl hpending)

/-! ### A block with one transfer -/

/-- The account that receives the transfers of the small blocks. -/
def recipientKey : Hash256 := balanceKey lucid (fill32 9)

/-- A root that tells whether that account exists. -/
def recipientRoot (map : StateMap) : Hash256 := if map recipientKey = none then zero32 else fill32 1

def fundedNode : NodeState where
  chain := ChainState.genesis zero32 devnetChainId
  state := Layers.opened recipientRoot (managerOf lucid [fundedAccount 1 .none]).store

/-- The block of slot 1 is processed. -/
def transferEvent : NodeEvent :=
  .process (fun _ => false) none (blockOf lucid [transferOf devnetChainId 1 0] [[0]])

def afterTransfer (events : List NodeEvent) : Layers :=
  (runEvents lucid idlePvm openThreshold recipientRoot events fundedNode).state

theorem settled_afterTransfer : (afterTransfer [transferEvent, .commit]).Settled recipientRoot := by
  unfold afterTransfer transferEvent
  apply settled_block_commit (Layers.coherent_opened recipientRoot _)
  · decide +kernel
  · exact fun hpaid => hpaid.2 rfl
  · decide +kernel

/-- A transfer to a new account, committed and then reverted. -/
theorem revert_restores_committed_transfer :
    (afterTransfer [transferEvent, .commit]).get recipientKey ≠ none ∧
      ∃ count reverted, (afterTransfer [transferEvent, .commit]).revertTo recipientRoot 0 = .ok (count, reverted) ∧
        (∀ key, reverted.get key = fundedNode.state.get key) ∧ reverted.root = fundedNode.state.root := by
  have hfiled : FiledRun lucid idlePvm openThreshold recipientRoot [transferEvent, .commit] fundedNode := by
    refine ⟨⟨?_, ?_⟩, trivial, trivial⟩
    · decide +kernel
    · decide +kernel
  have hempty : NoEmpty fun _ => none := nofun
  have hnone : NoEmpty fundedNode.state.get :=
    hempty.insert (balanceKey lucid (fill32 1)) (fundedAccount 1 .none).toBytes
  have habove : ∀ event ∈ [transferEvent, NodeEvent.commit], event.Above 0 := by
    refine List.forall_mem_cons.mpr ⟨?_, List.forall_mem_singleton.mpr trivial⟩
    change (0 : U64) < 1
    decide
  obtain ⟨⟨count, reverted⟩, hrevert⟩ : ∃ res,
      (afterTransfer [transferEvent, .commit]).revertTo recipientRoot 0 = .ok res := by
    apply exists_ok_of_isSome
    decide +kernel
  have hrestored := revert_restores_slot (Layers.settled_opened recipientRoot _) hnone
    (nofun) habove (by decide) hfiled settled_afterTransfer hrevert
  exact ⟨by decide +kernel, count, reverted, hrevert, hrestored.1⟩

/-- A transfer that is still deferred comes back with the next flush. -/
theorem reverted_transfer_comes_back :
    (afterTransfer [transferEvent]).canRevertTo 0 = true ∧ fundedNode.state.get recipientKey = none ∧
      ((afterTransfer [transferEvent]).revertTo recipientRoot 0).toOption.map (fun res =>
          (res.2.get recipientKey, (res.2.flushPending recipientRoot).get recipientKey == none)) =
        some (none, false) ∧ ((afterTransfer [transferEvent]).revertTo recipientRoot 0).toOption.map (fun res =>
          (res.2.root, (res.2.flushPending recipientRoot).root)) = some (zero32, fill32 1) := by
  decide +kernel

end Pyde
