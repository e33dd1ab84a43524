/-
Module: Pyde.Node.ParallelExecution
Purpose: When executing a block by groups is executing it in order, and its schedule as one group label for each
  transaction.
Trusted boundary: Prims, Pvm
-/
import Pyde.Node.BlockProcessor

namespace Pyde

open ByteCodec StateProgram

/-! ### Receipts up to the state root -/

/-- A receipt without the root that was current when it was written. -/
def Receipt.withoutRoot (receipt : Receipt) : Receipt := { receipt with stateRoot := zero32 }

section

variable (P : Prims) (pvm : Pvm)

/-- The root is copied into the receipt and has no other effect. -/
theorem run_executeTransaction_withoutRoot (aot : Bool) (tx : Transaction) (ctx : BlockContext)
    (root root' : Hash256) (st : StateMap) :
    (runIn P (executeTransaction P pvm aot tx ctx root) st).1.map Receipt.withoutRoot =
        (runIn P (executeTransaction P pvm aot tx ctx root') st).1.map Receipt.withoutRoot ∧
      (runIn P (executeTransaction P pvm aot tx ctx root) st).2 =
        (runIn P (executeTransaction P pvm aot tx ctx root') st).2 := by
  simp only [executeTransaction, run_bind]
  split
  · exact ⟨rfl, rfl⟩
  simp only [perform]
  split
  · exact ⟨rfl, rfl⟩
  split
  · exact ⟨rfl, rfl⟩
  · simp only [runHandler, run_bind, run_pure]
    exact ⟨rfl, trivial⟩

theorem receiptOf_withoutRoot (tx : Transaction) (answer : Except PipelineError Receipt) :
    (receiptOf P tx answer).withoutRoot = receiptOf P tx (answer.map Receipt.withoutRoot) := by
  cases answer with
  | error e => rfl
  | ok receipt => rfl

end

section

variable (P : Prims) (pvm : Pvm) (aot : Nat → Bool) (txs : List Transaction) (ctx : BlockContext)

theorem run_blockProgram_withoutRoot (root root' : Hash256) (i : Nat) (st : StateMap) :
    (runIn P (blockProgram P pvm aot txs ctx root i) st).1.map Receipt.withoutRoot =
        (runIn P (blockProgram P pvm aot txs ctx root' i) st).1.map Receipt.withoutRoot ∧
      (runIn P (blockProgram P pvm aot txs ctx root i) st).2 =
        (runIn P (blockProgram P pvm aot txs ctx root' i) st).2 := by
  cases htx : txs[i]? with
  | none => simp only [blockProgram, htx, and_self]
  | some tx =>
    obtain ⟨hanswer, hstate⟩ := run_executeTransaction_withoutRoot P pvm (aot i) tx ctx root root' st
    rw [run_blockProgram P pvm aot htx, run_blockProgram P pvm aot htx]
    simp only [Option.map_some, receiptOf_withoutRoot]
    rw [hanswer, hstate]
    exact ⟨rfl, rfl⟩

/-! ### The two ways to execute -/

/-- All transactions one by one in the order of their indices, directly on the state; `roots i` is the
root of the state when the receipt of transaction `i` is written. -/
def executeSequentially (roots : Nat → Hash256) (st : StateMap) : List Receipt × StateMap :=
  let run := runEach (storeBackend stored) (StateKey.hash P)
    (fun i => blockProgram P pvm aot txs ctx (roots i) i) (List.range txs.length) st
  (run.1.filterMap Prod.snd, run.2)

/-- For `i < j` in different groups: nothing that transaction `i` writes when the transactions run in
order is read or written by transaction `j`. -/
def GroupsIndependent (manager : StateManager) (groups : List ExecutionGroup) : Prop :=
  Separate stored (StateKey.hash P) (blockProgram P pvm aot txs ctx manager.root) manager.store
    (groups.map ExecutionGroup.txIndices)

/-- The roots make no difference to the state, and none to the receipts apart from the root itself. -/
theorem executeSequentially_roots (roots roots' : Nat → Hash256) (st : StateMap) :
    (executeSequentially P pvm aot txs ctx roots st).1.map Receipt.withoutRoot =
        (executeSequentially P pvm aot txs ctx roots' st).1.map Receipt.withoutRoot ∧
      (executeSequentially P pvm aot txs ctx roots st).2 =
        (executeSequentially P pvm aot txs ctx roots' st).2 := by
  have hagree : ∀ i s, (runIn P (blockProgram P pvm aot txs ctx (roots i) i) s).1.map Receipt.withoutRoot =
          (runIn P (blockProgram P pvm aot txs ctx (roots' i) i) s).1.map Receipt.withoutRoot ∧
        (runIn P (blockProgram P pvm aot txs ctx (roots i) i) s).2 =
          (runIn P (blockProgram P pvm aot txs ctx (roots' i) i) s).2 :=
    fun i s => run_blockProgram_withoutRoot P pvm aot txs ctx (roots i) (roots' i) i s
  obtain ⟨hreceipts, hstate⟩ := runEach_agree stored (StateKey.hash P) hagree (List.range txs.length) st
  refine ⟨?_, hstate⟩
  have hselected := congrArg (List.filterMap Prod.snd) hreceipts
  simp only [List.filterMap_map] at hselected
  simp only [executeSequentially, List.map_filterMap]
  exact hselected

/-- The multi-group path on the groups of `schedule` computes the state and, up to the root, the
receipts of execution in order, if transactions of different groups are independent. -/
theorem executeGroups_eq_executeSequentially (manager : StateManager) (roots : Nat → Hash256)
    (hindependent : GroupsIndependent P pvm aot txs ctx manager (schedule P txs).groups) :
    (executeGroups P pvm aot txs ctx manager (schedule P txs).groups).2 =
        (executeSequentially P pvm aot txs ctx roots manager.store).2 ∧
      (executeGroups P pvm aot txs ctx manager (schedule P txs).groups).1.map Receipt.withoutRoot =
        (executeSequentially P pvm aot txs ctx roots manager.store).1.map Receipt.withoutRoot := by
  obtain ⟨hpartition, hgroups⟩ := scheduleOf_partition (txs.map (visitTransaction P))
  have hperm : ((schedule P txs).groups.map ExecutionGroup.txIndices).flatten.Perm
      (List.range txs.length) := by
    rw [← List.flatMap_def]
    rw [List.length_map] at hpartition
    exact hpartition
  have hascending : ∀ g ∈ (schedule P txs).groups.map ExecutionGroup.txIndices, g.Pairwise (· < ·) := by
    intro g hg
    obtain ⟨group, hgroup, rfl⟩ := List.mem_map.mp hg
    exact (hgroups group hgroup).2
  obtain ⟨hresults, hstore⟩ := runGroups_eq_runEach stored (StateKey.hash P) _ manager.store hperm
    hascending hindependent
  -- the overlays answer with the root below them, the run in order with a root of its own each time
  obtain ⟨hreceipts, hstate⟩ := executeSequentially_roots P pvm aot txs ctx (fun _ => manager.root)
    roots manager.store
  constructor
  · rw [← hstate]
    exact hstore
  · rw [← hreceipts]
    simp only [executeGroups, executeSequentially, hresults]

end

/-! ### Two transactions of one sender, and of two -/

def devnetManager : StateManager := managerOf lucid [fundedAccount 1 .none, fundedAccount 2 .none]

def devnetContextOf (txs : List Transaction) : BlockContext :=
  blockContext lucid (ChainState.genesis zero32 devnetChainId) devnetManager.store
    (blockOf lucid txs [])

/-- Transfers between four different accounts. -/
def separateTransfers : List Transaction :=
  [transferOf devnetChainId 1 0, { transferOf devnetChainId 2 0 with toAddress := fill32 8 }]

theorem separateTransfers_groups : (schedule lucid separateTransfers).groups = [⟨[0]⟩, ⟨[1]⟩] := by
  decide +kernel

theorem separateTransfers_independent :
    GroupsIndependent lucid idlePvm (fun _ => false) separateTransfers
      (devnetContextOf separateTransfers) devnetManager (schedule lucid separateTransfers).groups := by
  rw [separateTransfers_groups]
  intro i j hij hi hj hdepends
  have hi' : i = 0 ∨ i = 1 := by simpa using hi
  have hj' : j = 0 ∨ j = 1 := by simpa using hj
  have hcase : i = 0 ∧ j = 1 := by omega
  obtain ⟨rfl, rfl⟩ := hcase
  revert hdepends
  unfold Depends
  decide +kernel

theorem executeGroups_eq_executeSequentially_transfers :
    (executeGroups lucid idlePvm (fun _ => false) separateTransfers
        (devnetContextOf separateTransfers) devnetManager
        (schedule lucid separateTransfers).groups).1.map Receipt.success = [true, true] ∧
      (executeGroups lucid idlePvm (fun _ => false) separateTransfers
          (devnetContextOf separateTransfers) devnetManager (schedule lucid separateTransfers).groups).2 =
        (executeSequentially lucid idlePvm (fun _ => false) separateTransfers
          (devnetContextOf separateTransfers) (fun _ => zero32) devnetManager.store).2 :=
  ⟨by decide +kernel, (executeGroups_eq_executeSequentially lucid idlePvm (fun _ => false) separateTransfers
      (devnetContextOf separateTransfers) devnetManager (fun _ => zero32)
      separateTransfers_independent).1⟩

/-- A reward claim that declares a key, and a transfer by the same sender. -/
def claimThenTransfer : List Transaction :=
  [{ transferOf devnetChainId 1 0 with
      toAddress := zeroAddress, value := 0, txType := .claimReward
      accessList := [⟨fill32 5, [], [fill32 6]⟩] }, transferOf devnetChainId 1 1]

/-- The scheduler knows no implicit writes of a reward claim, so the two run on overlays of their own.
In order both nonces are used up and both fees are paid; after the merge the first nonce is free again
and the first fee is not paid. -/
theorem grouped_execution_loses_updates :
    (schedule lucid claimThenTransfer).groups = [⟨[0]⟩, ⟨[1]⟩] ∧
      (let grouped := executeGroups lucid idlePvm (fun _ => false) claimThenTransfer
          (devnetContextOf claimThenTransfer) devnetManager (schedule lucid claimThenTransfer).groups
       let sequential := executeSequentially lucid idlePvm (fun _ => false) claimThenTransfer
          (devnetContextOf claimThenTransfer) (fun _ => zero32) devnetManager.store
       (storedNonce lucid sequential.2 (fill32 1)).base = 2 ∧
         (storedNonce lucid grouped.2 (fill32 1)).base = 0 ∧
         (acctAt lucid sequential.2 (fill32 1)).balance <
           (acctAt lucid grouped.2 (fill32 1)).balance ∧ grouped.2 ≠ sequential.2) := by
  refine ⟨by decide +kernel, ?_⟩
  intro grouped sequential
  have hsequential : (storedNonce lucid sequential.2 (fill32 1)).base = 2 := by decide +kernel
  have hgrouped : (storedNonce lucid grouped.2 (fill32 1)).base = 0 := by decide +kernel
  refine ⟨hsequential, hgrouped, by decide +kernel, ?_⟩
  intro heq
  rw [heq, hsequential] at hgrouped
  exact absurd hgrouped (by decide)

end Pyde

namespace Pyde

open ByteCodec ConflictGroups List

/-- `schedule_to_group_ids`. A position past the end is dropped by `set` itself. -/
def scheduleToGroupIds (s : ExecutionSchedule) : List (BitVec 16) :=
  if s.groups.length > 65535 then []
  else s.groups.zipIdx.foldl (fun out group =>
    group.1.txIndices.foldl (fun out txIdx => out.set txIdx (BitVec.ofNat 16 group.2)) out) (replicate s.totalTxs 0)

/-- `group_ids_to_schedule`. The groups come in the order of their labels, as a `BTreeMap` lists them. -/
def groupIdsToSchedule (groupIds : List (BitVec 16)) : ExecutionSchedule :=
  let byGroup := collect (groupIds.getD · 0) (List.range groupIds.length)
  { groups := (byGroup.insertionSort (·.1.toNat ≤ ·.1.toNat)).map fun c => ⟨c.2⟩
    totalTxs := groupIds.length }

section Labels

variable {α : Type} (sets : List (Nat × α)) (out : List α)

theorem length_foldl_set : (sets.foldl (fun out w => out.set w.1 w.2) out).length = out.length := by
  induction sets generalizing out with
  | nil => rfl
  | cons w sets ih => rw [foldl_cons, ih, length_set]

variable {sets}

/-- The element after a list of replacements, if all replacements at its position agree. -/
theorem getD_foldl_set {i : Nat} {a d : α} (hagree : ∀ w ∈ sets, w.1 = i → w.2 = a) (hi : i < out.length)
    (h : out.getD i d = a ∨ ∃ w ∈ sets, w.1 = i) :
    (sets.foldl (fun out w => out.set w.1 w.2) out).getD i d = a := by
  induction sets generalizing out with
  | nil => simpa using h
  | cons w sets ih =>
    rw [forall_mem_cons] at hagree
    apply ih _ hagree.2 (by simpa using hi)
    by_cases hw : w.1 = i
    · left
      simp [hw, hi, hagree.1 hw]
    · simpa [getElem?_set_ne hw, hw] using h

end Labels

/-- The labels that are written, with their positions. -/
def ExecutionSchedule.labels (s : ExecutionSchedule) : List (Nat × BitVec 16) :=
  s.groups.zipIdx.flatMap fun group => group.1.txIndices.map (·, BitVec.ofNat 16 group.2)

section RoundTrip

variable {s : ExecutionSchedule} {i k : Nat} {a : BitVec 16} {g : ExecutionGroup}

theorem mem_labels_iff :
    (i, a) ∈ s.labels ↔ ∃ k g, s.groups[k]? = some g ∧ i ∈ g.txIndices ∧ BitVec.ofNat 16 k = a := by
  simp only [ExecutionSchedule.labels, mem_flatMap, List.mem_map, Prod.mk.injEq, Prod.exists, mem_zipIdx_iff_getElem?]
  constructor
  · rintro ⟨g, k, hk, j, hj, rfl, ha⟩
    exact ⟨k, g, hk, hj, ha⟩
  · rintro ⟨k, g, hk, hi, ha⟩
    exact ⟨g, k, hk, i, hi, rfl, ha⟩

theorem map_fst_labels : s.labels.map Prod.fst = s.groups.flatMap ExecutionGroup.txIndices := by
  simp only [ExecutionSchedule.labels, map_flatMap, map_map, Function.comp_def, map_id']
  rw [← flatMap_map Prod.fst, zipIdx_map_fst]

variable (hfew : s.groups.length ≤ 65535)
include hfew

theorem mem_group_iff (hk : s.groups[k]? = some g) : i ∈ g.txIndices ↔ (i, BitVec.ofNat 16 k) ∈ s.labels := by
  refine ⟨fun hi => mem_labels_iff.mpr ⟨k, g, hk, hi, rfl⟩, fun hi => ?_⟩
  obtain ⟨l, h, hl, hih, heq⟩ := mem_labels_iff.mp hi
  have hkl := (List.getElem?_eq_some_iff.mp hk).1
  have hll := (List.getElem?_eq_some_iff.mp hl).1
  have hlk := congrArg BitVec.toNat heq
  rw [toNat_lengthField (by omega), toNat_lengthField (by omega)] at hlk
  rw [hlk, hk] at hl
  exact Option.some.inj hl ▸ hih

theorem scheduleToGroupIds_eq :
    scheduleToGroupIds s = s.labels.foldl (fun out w => out.set w.1 w.2) (replicate s.totalTxs 0) := by
  rw [scheduleToGroupIds, if_neg (Nat.not_lt.mpr hfew), ExecutionSchedule.labels, foldl_flatMap]
  simp only [foldl_map]

variable (hpartition : (s.groups.flatMap ExecutionGroup.txIndices).Perm (List.range s.totalTxs))
include hpartition

/-- Every transaction carries the label that was written for it. -/
theorem label_iff : i ∈ List.range s.totalTxs ∧ (scheduleToGroupIds s).getD i 0 = a ↔ (i, a) ∈ s.labels := by
  have hlabel : ∀ b, (i, b) ∈ s.labels → i < s.totalTxs → (scheduleToGroupIds s).getD i 0 = b := by
    intro b hb hi
    rw [scheduleToGroupIds_eq hfew]
    refine getD_foldl_set _ ?_ (by rwa [length_replicate]) (.inr ⟨(i, b), hb, rfl⟩)
    have hnodup := hpartition.nodup_iff.mpr nodup_range
    rw [← map_fst_labels] at hnodup
    exact fun w hw hwi => congrArg Prod.snd (inj_on_of_nodup_map hnodup hw hb hwi)
  have hmem : i ∈ List.range s.totalTxs ↔ ∃ b, (i, b) ∈ s.labels := by
    rw [← hpartition.mem_iff, ← map_fst_labels]
    simp
  constructor
  · rintro ⟨hi, rfl⟩
    obtain ⟨b, hb⟩ := hmem.mp hi
    rwa [hlabel b hb (mem_range.mp hi)]
  · intro ha
    have hi := hmem.mpr ⟨a, ha⟩
    exact ⟨hi, hlabel a ha (mem_range.mp hi)⟩

/-- The labels of an ascending partition give it back, groups in the same order. -/
theorem groupIdsToSchedule_scheduleToGroupIds
    (hgroups : ∀ g ∈ s.groups, g.txIndices ≠ [] ∧ g.txIndices.Pairwise (· < ·)) :
    groupIdsToSchedule (scheduleToGroupIds s) = s := by
  have hfilter : ∀ {k g}, s.groups[k]? = some g →
      g.txIndices = (List.range s.totalTxs).filter ((scheduleToGroupIds s).getD · 0 = BitVec.ofNat 16 k) := by
    intro k g hk
    refine (hgroups g (mem_of_getElem? hk)).2.eq_of_mem_iff (pairwise_lt_range.filter _) fun i => ?_
    rw [mem_group_iff hfew hk, ← label_iff hfew hpartition, mem_filter, decide_eq_true_iff]
  have hsorted : (collect ((scheduleToGroupIds s).getD · 0) (List.range s.totalTxs)).insertionSort
      (·.1.toNat ≤ ·.1.toNat) = s.groups.zipIdx.map fun group => (BitVec.ofNat 16 group.2, group.1.txIndices) := by
    refine (collected_collect _ _).insertionSort_eq (fun _ _ => BitVec.eq_of_toNat_eq) ?_ fun c => ?_
    · rw [pairwise_map, pairwise_iff_getElem]
      intro i j hi hj hij
      rw [length_zipIdx] at hi hj
      rw [getElem_zipIdx, getElem_zipIdx, toNat_lengthField (by omega), toNat_lengthField (by omega)]
      omega
    · simp only [List.mem_map, Prod.exists, mem_zipIdx_iff_getElem?]
      constructor
      · rintro ⟨g, k, hk, rfl⟩
        exact ⟨hfilter hk, (hgroups g (mem_of_getElem? hk)).1⟩
      · rintro ⟨hmembers, hne⟩
        obtain ⟨i, hi⟩ := exists_mem_of_ne_nil _ hne
        rw [hmembers, mem_filter, decide_eq_true_iff, label_iff hfew hpartition] at hi
        obtain ⟨k, g, hk, -, hlabel⟩ := mem_labels_iff.mp hi
        refine ⟨g, k, hk, Prod.ext hlabel ?_⟩
        rw [hmembers, ← hlabel]
        exact hfilter hk
  rw [groupIdsToSchedule, scheduleToGroupIds_eq hfew, length_foldl_set, length_replicate,
    ← scheduleToGroupIds_eq hfew,
    hsorted, map_map]
  simp [Function.comp_def]

end RoundTrip

/-- The schedule of a list of transactions survives its labels exactly when there are labels enough for its
groups. -/
theorem schedule_of_groupIds_iff (P : Prims) (txs : List Transaction) :
    groupIdsToSchedule (scheduleToGroupIds (schedule P txs)) = schedule P txs ↔
      (schedule P txs).groups.length ≤ 65535 := by
  constructor
  · intro heq
    by_contra hmany
    rw [scheduleToGroupIds, if_pos (Nat.lt_of_not_le hmany)] at heq
    rw [← heq] at hmany
    simp [groupIdsToSchedule, collect] at hmany
  · intro hfew
    obtain ⟨hpartition, hgroups⟩ := scheduleOf_partition (txs.map (visitTransaction P))
    exact groupIdsToSchedule_scheduleToGroupIds hfew hpartition hgroups

end Pyde
