/-
Module: Pyde.Library.RewardPool
Purpose: A pool that pays equal shares to its members without visiting them.
Trusted boundary: none
-/
import Mathlib.Algebra.Order.BigOperators.Group.Finset
import Mathlib.Algebra.Group.Action.Defs

namespace RewardPool

open Finset

variable {offered paid handedOut : Nat}

/-- What a member has earned so far, the members, their number as it is counted, and the marks. -/
structure Pool (ι : Type) where
  accrued : Nat
  count : Nat
  members : Finset ι
  mark : ι → Nat

variable {ι : Type} {pool pool' : Pool ι}

def Pool.owedTo (pool : Pool ι) (i : ι) : Nat := pool.accrued - pool.mark i

/-- What all members together may still claim. -/
def Pool.owed (pool : Pool ι) : Nat := ∑ i ∈ pool.members, pool.owedTo i

def Pool.Counted (pool : Pool ι) : Prop := pool.count = pool.members.card

/-- Everything but what a member has earned is kept, and at most `offered` is handed out. -/
structure Accrues (pool pool' : Pool ι) (offered : Nat) : Prop where
  accrued : pool.accrued ≤ pool'.accrued
  count : pool'.count = pool.count
  members : pool'.members = pool.members
  mark : pool'.mark = pool.mark
  within : (pool'.accrued - pool.accrued) * pool.count ≤ offered

theorem Accrues.refl (pool : Pool ι) : Accrues pool pool 0 where
  accrued := le_refl _
  count := rfl
  members := rfl
  mark := rfl
  within := by rw [Nat.sub_self, Nat.zero_mul]

theorem Accrues.mono {offered' : Nat} (h : Accrues pool pool' offered) (hle : offered ≤ offered') :
    Accrues pool pool' offered' :=
  { h with within := h.within.trans hle }

theorem Accrues.trans {pool'' : Pool ι} {offered' : Nat} (h : Accrues pool pool' offered)
    (h' : Accrues pool' pool'' offered') : Accrues pool pool'' (offered + offered') where
  accrued := h.accrued.trans h'.accrued
  count := h'.count.trans h.count
  members := h'.members.trans h.members
  mark := h'.mark.trans h.mark
  within := by
    have hsplit : pool''.accrued - pool.accrued =
        (pool'.accrued - pool.accrued) + (pool''.accrued - pool'.accrued) := by
      have hfirst := h.accrued
      have hsecond := h'.accrued
      omega
    have hlater := h'.within
    rw [h.count] at hlater
    rw [hsplit, Nat.add_mul]
    exact Nat.add_le_add h.within hlater

section

variable [DecidableEq ι]

/-- One step with what is paid to members and what is handed out. The marks of those who are no members after the step
are left open. -/
inductive Step (pool : Pool ι) : Nat → Nat → Pool ι → Prop
  | distribute {pool' : Pool ι} (accrued : pool.accrued ≤ pool'.accrued) (count : pool'.count = pool.count)
      (members : pool'.members = pool.members) (marks : ∀ i ∈ pool.members, pool'.mark i = pool.mark i) :
      Step pool 0 ((pool'.accrued - pool.accrued) * pool.count) pool'
  | join {pool' : Pool ι} (i : ι) (fresh : i ∉ pool.members) (accrued : pool'.accrued = pool.accrued)
      (count : pool'.count = pool.count + 1) (members : pool'.members = insert i pool.members)
      (mark : pool'.mark i = pool.accrued) (marks : ∀ j ∈ pool.members, pool'.mark j = pool.mark j) :
      Step pool 0 0 pool'
  | leave {pool' : Pool ι} (i : ι) (member : i ∈ pool.members) (accrued : pool'.accrued = pool.accrued)
      (count : pool'.count = pool.count - 1) (members : pool'.members = pool.members.erase i)
      (marks : ∀ j ∈ pool.members, j ≠ i → pool'.mark j = pool.mark j) : Step pool 0 0 pool'
  | claim {pool' : Pool ι} (i : ι) (member : i ∈ pool.members) (accrued : pool'.accrued = pool.accrued)
      (count : pool'.count = pool.count) (members : pool'.members = pool.members)
      (mark : pool.accrued ≤ pool'.mark i) (marks : ∀ j ∈ pool.members, j ≠ i → pool'.mark j = pool.mark j) :
      Step pool (pool.owedTo i) 0 pool'

theorem Step.idle (accrued : pool'.accrued = pool.accrued) (count : pool'.count = pool.count)
    (members : pool'.members = pool.members) (marks : ∀ i ∈ pool.members, pool'.mark i = pool.mark i) :
    Step pool 0 0 pool' := by
  have hstep := Step.distribute accrued.ge count members marks
  rwa [accrued, Nat.sub_self, Nat.zero_mul] at hstep

theorem Accrues.step (h : Accrues pool pool' offered) :
    Step pool 0 ((pool'.accrued - pool.accrued) * pool.count) pool' :=
  Step.distribute h.accrued h.count h.members fun i _ => congrFun h.mark i

theorem Step.counted (hstep : Step pool paid handedOut pool') (hcount : pool.Counted) : pool'.Counted := by
  unfold Pool.Counted at hcount ⊢
  cases hstep with
  | distribute accrued count members marks => rw [count, members, hcount]
  | join i fresh accrued count members mark marks => rw [count, members, card_insert_of_notMem fresh, hcount]
  | leave i member accrued count members marks => rw [count, members, card_erase_of_mem member, hcount]
  | claim i member accrued count members mark marks => rw [count, members, hcount]

theorem owedTo_erase {i : ι} (accrued : pool'.accrued = pool.accrued)
    (marks : ∀ j ∈ pool.members, j ≠ i → pool'.mark j = pool.mark j) :
    ∀ j ∈ pool.members.erase i, pool'.owedTo j = pool.owedTo j := by
  intro j hj
  obtain ⟨hne, hj⟩ := Finset.mem_erase.mp hj
  unfold Pool.owedTo
  rw [marks j hj hne, accrued]

theorem Step.covered (hstep : Step pool paid handedOut pool') (hcount : pool.Counted) :
    paid + pool'.owed ≤ handedOut + pool.owed := by
  cases hstep with
  | distribute accrued count members marks =>
    -- every member gains at most the share, and there are as many shares as members
    have hgain : ∀ i ∈ pool.members, pool'.owedTo i ≤ (pool'.accrued - pool.accrued) + pool.owedTo i := by
      intro i hi
      unfold Pool.owedTo
      rw [marks i hi]
      omega
    have hsum := sum_le_sum hgain
    rw [sum_add_distrib, sum_const, smul_eq_mul, mul_comm, ← hcount] at hsum
    unfold Pool.owed
    rw [members, Nat.zero_add]
    exact hsum
  | join i fresh accrued count members mark marks =>
    have hnew : pool'.owedTo i = 0 := by
      unfold Pool.owedTo
      rw [mark, accrued, Nat.sub_self]
    have hold : ∀ j ∈ pool.members, pool'.owedTo j = pool.owedTo j := by
      intro j hj
      unfold Pool.owedTo
      rw [marks j hj, accrued]
    unfold Pool.owed
    rw [members, sum_insert fresh, hnew, sum_congr rfl hold, Nat.zero_add]
  | leave i member accrued count members marks =>
    unfold Pool.owed
    rw [members, sum_congr rfl (owedTo_erase accrued marks), Nat.zero_add, Nat.zero_add]
    exact sum_le_sum_of_subset (erase_subset i pool.members)
  | claim i member accrued count members mark marks =>
    have hnone : pool'.owedTo i = 0 := by
      unfold Pool.owedTo
      rw [accrued]
      exact Nat.sub_eq_zero_of_le mark
    unfold Pool.owed
    rw [members, ← add_sum_erase _ _ member, ← add_sum_erase _ pool.owedTo member, hnone,
      sum_congr rfl (owedTo_erase accrued marks), Nat.zero_add, Nat.zero_add]

/-- Steps one after the other, with the sums of what they pay and hand out. -/
inductive Run : Pool ι → Nat → Nat → Pool ι → Prop
  | nil (pool : Pool ι) : Run pool 0 0 pool
  | cons {pool pool' pool'' : Pool ι} {paid handedOut paid' handedOut' : Nat} (head : Step pool paid handedOut pool')
      (tail : Run pool' paid' handedOut' pool'') : Run pool (paid + paid') (handedOut + handedOut') pool''

theorem Run.counted (hrun : Run pool paid handedOut pool') (hcount : pool.Counted) : pool'.Counted := by
  induction hrun with
  | nil pool => exact hcount
  | cons head tail ih => exact ih (head.counted hcount)

theorem Run.covered (hrun : Run pool paid handedOut pool') (hcount : pool.Counted) :
    paid + pool'.owed ≤ handedOut + pool.owed := by
  induction hrun with
  | nil pool => exact le_refl _
  | cons head tail ih =>
    have hhead := head.covered hcount
    have htail := ih (head.counted hcount)
    omega

end

end RewardPool
