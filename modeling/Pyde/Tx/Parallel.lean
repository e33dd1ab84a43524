/-
Module: Pyde.Tx.Parallel
Purpose: The conflict scheduler that splits a block's transactions into groups, and exactly which
  conflicting transactions it keeps together.
Trusted boundary: Prims
-/
import Pyde.Tx.Types
import Pyde.State
import Pyde.Library.ConflictGroups

namespace Pyde

open ByteCodec ConflictGroups List

/-- What the scheduler tells transactions apart by: an address and a key. -/
abbrev ScheduleKey := Address × FixedBytes 32

/-- `implicit_writes`: the keys a transaction writes whatever its access list says, for the types where
they can be read off the header fields. -/
def implicitWrites (P : Prims) (tx : Transaction) : Option (List ScheduleKey) :=
  let sender := [(tx.fromAddress, balanceKey P tx.fromAddress), (tx.fromAddress, nonceKey P tx.fromAddress)]
  match tx.txType with
  | .standard =>
    if tx.toAddress ≠ zero32 then some (sender ++ [(tx.toAddress, balanceKey P tx.toAddress)])
    else some sender
  | .deploy => some sender
  | .registerPubkey => some sender
  | _ => none

/-- `access_list_is_uninformative`: no entry lists a key. -/
def accessListIsUninformative (accessList : List AccessEntry) : Bool :=
  accessList.all fun e => e.reads.isEmpty && e.writes.isEmpty

/-- A group of conflicting transactions that execute one after the other. -/
structure ExecutionGroup where
  txIndices : List Nat
deriving DecidableEq, Repr

structure ExecutionSchedule where
  groups : List ExecutionGroup
  totalTxs : Nat
deriving DecidableEq, Repr

namespace AccessEntry

def writeKeys (entry : AccessEntry) : List ScheduleKey := entry.writes.map (entry.address, ·)

def readKeys (entry : AccessEntry) : List ScheduleKey := entry.reads.map (entry.address, ·)

end AccessEntry

/-! ### The schedulers -/

/-- What `schedule` looks at, in the order of its loops: the implicit writes, then the declared writes
of all entries, then the declared reads of all entries. `none` is a transaction of unknown effect. -/
def visitTransaction (P : Prims) (tx : Transaction) : Visit ScheduleKey :=
  let explicit :=
    if accessListIsUninformative tx.accessList then []
    else (tx.accessList.flatMap AccessEntry.writeKeys).map Touch.write ++
      (tx.accessList.flatMap AccessEntry.readKeys).map Touch.read
  match implicitWrites P tx with
  | none => if accessListIsUninformative tx.accessList then none else some explicit
  | some writes => some (writes.map Touch.write ++ explicit)

/-- What `schedule_from_access_lists` looks at: entry by entry, the writes before the reads. -/
def visitAccessList (accessList : List AccessEntry) : Visit ScheduleKey :=
  if accessListIsUninformative accessList then none
  else some (accessList.flatMap fun e => e.writeKeys.map Touch.write ++ e.readKeys.map Touch.read)

/-- The common part of both schedulers: union-find over the items, then one group per class, ordered by
first index. -/
def scheduleOf (visits : List (Visit ScheduleKey)) : ExecutionSchedule :=
  { groups := (groups (conflictClasses visits) visits.length).map ExecutionGroup.mk
    totalTxs := visits.length }

def schedule (P : Prims) (txs : List Transaction) : ExecutionSchedule :=
  scheduleOf (txs.map (visitTransaction P))

def scheduleFromAccessLists (accessLists : List (List AccessEntry)) : ExecutionSchedule :=
  scheduleOf (accessLists.map visitAccessList)

namespace ExecutionSchedule

/-- Two transactions execute in one group. -/
def SameGroup (s : ExecutionSchedule) (i j : Nat) : Prop := ∃ g ∈ s.groups, i ∈ g.txIndices ∧ j ∈ g.txIndices

/-- What a schedule of `n` transactions should be: a partition of the indices into ascending groups
that keeps conflicting transactions together. -/
structure Sound (s : ExecutionSchedule) (n : Nat) (conflict : Nat → Nat → Prop) : Prop where
  partition : (s.groups.flatMap ExecutionGroup.txIndices).Perm (List.range n)
  inhabited : ∀ g ∈ s.groups, g.txIndices ≠ []
  ascending : ∀ g ∈ s.groups, g.txIndices.Pairwise (· < ·)
  together : ∀ i j, i < j → conflict i j → s.SameGroup i j

end ExecutionSchedule

/-- Whatever the items are, the groups are an ascending partition. -/
theorem scheduleOf_partition (visits : List (Visit ScheduleKey)) :
    ((scheduleOf visits).groups.flatMap ExecutionGroup.txIndices).Perm (List.range visits.length) ∧
      ∀ g ∈ (scheduleOf visits).groups, g.txIndices ≠ [] ∧ g.txIndices.Pairwise (· < ·) := by
  constructor
  · have hflat := groups_flatten_perm (conflictClasses visits) visits.length
    rw [flatten_eq_flatMap] at hflat
    simpa [scheduleOf, flatMap_map] using hflat
  · intro g hg
    obtain ⟨indices, hindices, rfl⟩ := List.mem_map.mp hg
    exact groups_ascending hindices

/-- Two items share a group exactly when a chain of links joins them. -/
theorem sameGroup_scheduleOf_iff {visits : List (Visit ScheduleKey)} {i j : Nat}
    (hi : i < visits.length) (hj : j < visits.length) :
    (scheduleOf visits).SameGroup i j ↔ Relation.EqvGen (Linked visits) i j := by
  rw [← equiv_conflictClasses_iff, ← sameGroup_iff hi hj]
  simp [ExecutionSchedule.SameGroup, scheduleOf]

/-- The later item touches a key that the earlier one writes, both spelled as the scheduler sees them. -/
def SeenForward (visits : List (Visit ScheduleKey)) (i j : Nat) : Prop :=
  ∃ key, WritesAt visits i key ∧ TouchesAt visits j key

/-- The conflicts a schedule has to keep together are those it sees forward, and those it overlooks but
that a chain of links joins all the same. -/
theorem scheduleOf_sound_iff (visits : List (Visit ScheduleKey)) (conflict : Nat → Nat → Prop)
    (hbound : ∀ i j, conflict i j → i < visits.length ∧ j < visits.length) :
    (scheduleOf visits).Sound visits.length conflict ↔
      ∀ i j, i < j → conflict i j → ¬ SeenForward visits i j →
        Relation.EqvGen (Linked visits) i j := by
  obtain ⟨hpartition, hgroups⟩ := scheduleOf_partition visits
  constructor
  · intro hsound i j hlt hconflict _
    obtain ⟨hi, hj⟩ := hbound i j hconflict
    exact (sameGroup_scheduleOf_iff hi hj).mp (hsound.together i j hlt hconflict)
  · intro hchained
    refine ⟨hpartition, fun g hg => (hgroups g hg).1, fun g hg => (hgroups g hg).2, ?_⟩
    intro i j hlt hconflict
    obtain ⟨hi, hj⟩ := hbound i j hconflict
    apply (sameGroup_scheduleOf_iff hi hj).mpr
    by_cases hseen : SeenForward visits i j
    · exact (Relation.EqvGen.rel j i (.inl ⟨hlt, hseen⟩)).symm
    · exact hchained i j hlt hconflict hseen

/-! ### The keys a transaction uses -/

/-- Where an entry of the access list points: the virtual machine reads the zero address in it as the
called contract. -/
def Transaction.accessTarget (tx : Transaction) (addr : Address) : Address :=
  if tx.txType = .standard ∧ addr = zero32 then tx.toAddress else addr

/-- The keys a transaction writes, implicit or declared, with the alias resolved. -/
def Transaction.writeKeys (P : Prims) (tx : Transaction) : List ScheduleKey :=
  (implicitWrites P tx).getD [] ++
    (tx.accessList.flatMap AccessEntry.writeKeys).map fun key => (tx.accessTarget key.1, key.2)

/-- The keys a transaction reads or writes, with the alias resolved. -/
def Transaction.touchKeys (P : Prims) (tx : Transaction) : List ScheduleKey :=
  tx.writeKeys P ++ (tx.accessList.flatMap AccessEntry.readKeys).map fun key => (tx.accessTarget key.1, key.2)

def TransactionsConflict (P : Prims) (txs : List Transaction) (i j : Nat) : Prop :=
  ∃ a b, txs[i]? = some a ∧ txs[j]? = some b ∧
    ((∃ key ∈ a.writeKeys P, key ∈ b.touchKeys P) ∨ (∃ key ∈ b.writeKeys P, key ∈ a.touchKeys P))

def DeclaredConflict (accessLists : List (List AccessEntry)) (i j : Nat) : Prop :=
  ∃ a b, accessLists[i]? = some a ∧ accessLists[j]? = some b ∧
    ((∃ key ∈ a.flatMap AccessEntry.writeKeys, key ∈ b.flatMap fun e => e.readKeys ++ e.writeKeys) ∨
      (∃ key ∈ b.flatMap AccessEntry.writeKeys, key ∈ a.flatMap fun e => e.readKeys ++ e.writeKeys))

/-- A schedule is sound exactly when every conflict it does not see going forward is joined by a chain of those it
does. Overlooked are writes after reads, and conflicts in which only one side names the contract by the zero address.
-/
theorem schedule_sound_iff (P : Prims) :
    (∀ txs : List Transaction, (schedule P txs).Sound txs.length (TransactionsConflict P txs) ↔
        ∀ i j, i < j → TransactionsConflict P txs i j → ¬ SeenForward (txs.map (visitTransaction P)) i j →
            Relation.EqvGen (Linked (txs.map (visitTransaction P))) i j) ∧ (∀ accessLists : List (List AccessEntry),
      (scheduleFromAccessLists accessLists).Sound accessLists.length (DeclaredConflict accessLists) ↔
        ∀ i j, i < j → DeclaredConflict accessLists i j → ¬ SeenForward (accessLists.map visitAccessList) i j →
            Relation.EqvGen (Linked (accessLists.map visitAccessList)) i j) := by
  constructor
  · intro txs
    have hsound := scheduleOf_sound_iff (txs.map (visitTransaction P)) (TransactionsConflict P txs) ?_
    · rwa [length_map] at hsound
    · rintro i j ⟨a, b, ha, hb, _⟩
      rw [length_map]
      exact ⟨(List.getElem?_eq_some_iff.mp ha).1, (List.getElem?_eq_some_iff.mp hb).1⟩
  · intro accessLists
    have hsound := scheduleOf_sound_iff (accessLists.map visitAccessList) (DeclaredConflict accessLists) ?_
    · rwa [length_map] at hsound
    · rintro i j ⟨a, b, ha, hb, _⟩
      rw [length_map]
      exact ⟨(List.getElem?_eq_some_iff.mp ha).1, (List.getElem?_eq_some_iff.mp hb).1⟩

/-! ### Overlooked conflicts -/

def callTransaction (sender contract : U8) (accessList : List AccessEntry) : Transaction where
  fromAddress := fill32 sender
  toAddress := fill32 contract
  value := 0#128
  data := []
  gasLimit := 100000#64
  nonce := 0#64
  signature := []
  feePayer := .sender
  accessList := accessList
  deadline := none
  chainId := 1#64
  txType := .standard

/-- The first call reads the slot that the second one writes. -/
def readThenWrite : List Transaction :=
  [callTransaction 1 3 [⟨fill32 3, [fill32 9], []⟩], callTransaction 2 4 [⟨fill32 3, [], [fill32 9]⟩]]

/-- Both calls write one slot of contract 3, which the first names by the zero address. -/
def writeThroughAlias : List Transaction :=
  [callTransaction 1 3 [⟨zero32, [], [fill32 9]⟩], callTransaction 2 4 [⟨fill32 3, [], [fill32 9]⟩]]

theorem not_sound_of_separate {s : ExecutionSchedule} {n : Nat} {conflict : Nat → Nat → Prop}
    (hgroups : s.groups = [⟨[0]⟩, ⟨[1]⟩]) (hconflict : conflict 0 1) : ¬ s.Sound n conflict := by
  intro hsound
  obtain ⟨g, hg, h0, h1⟩ := hsound.together 0 1 Nat.zero_lt_one hconflict
  rw [hgroups, mem_cons, mem_singleton] at hg
  rcases hg with rfl | rfl
  · simp at h1
  · simp at h0

/-- Reads before writes and aliased addresses end in different groups. -/
theorem overlooked_conflicts_scheduled_apart :
    ¬ (schedule lucid readThenWrite).Sound 2 (TransactionsConflict lucid readThenWrite) ∧
    ¬ (schedule lucid writeThroughAlias).Sound 2 (TransactionsConflict lucid writeThroughAlias) ∧
    ¬ (scheduleFromAccessLists (readThenWrite.map Transaction.accessList)).Sound 2
        (DeclaredConflict (readThenWrite.map Transaction.accessList)) := by
  refine ⟨not_sound_of_separate (by decide +kernel) ?_, not_sound_of_separate (by decide +kernel) ?_,
    not_sound_of_separate (by decide +kernel) ?_⟩
  · exact ⟨_, _, rfl, rfl, .inr ⟨(fill32 3, fill32 9), by decide +kernel, by decide +kernel⟩⟩
  · exact ⟨_, _, rfl, rfl, .inl ⟨(fill32 3, fill32 9), by decide +kernel, by decide +kernel⟩⟩
  · exact ⟨_, _, rfl, rfl, .inr ⟨(fill32 3, fill32 9), by decide +kernel, by decide +kernel⟩⟩

end Pyde
