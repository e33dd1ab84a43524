/-
Module: Pyde.Library.RoundRobin
Purpose: Selections from one queue per key, where an item is only ever taken from the front of its queue.
Trusted boundary: none
-/
import Mathlib.Algebra.BigOperators.Group.List.Basic
import Mathlib.Algebra.Group.Action.Defs
import Mathlib.Data.List.Nodup

namespace RoundRobin

open List

variable {κ τ : Type} [DecidableEq κ]

/-- What waits under each key, and what was selected. -/
structure Selection (κ τ : Type) where
  queues : κ → List τ
  selected : List τ

namespace Selection

def take (s : Selection κ τ) (key : κ) (item : τ) (rest : List τ) : Selection κ τ :=
  ⟨Function.update s.queues key rest, s.selected ++ [item]⟩

/-- The selected items of a key, followed by those that wait, are the items that the key had. -/
def Splits (keyOf : τ → κ) (items : κ → List τ) (s : Selection κ τ) : Prop :=
  ∀ key, s.selected.filter (keyOf · = key) ++ s.queues key = items key

variable {keyOf : τ → κ} {items : κ → List τ} {s : Selection κ τ}

theorem Splits.take (h : s.Splits keyOf items) {key : κ} {item : τ} {rest : List τ}
    (hqueue : s.queues key = item :: rest) (hkey : keyOf item = key) : (s.take key item rest).Splits keyOf items := by
  intro other
  have hother := h other
  by_cases hsame : other = key
  · subst hsame
    rw [hqueue] at hother
    simp [Selection.take, hkey, hother]
  · simp [Selection.take, hkey, hsame, Ne.symm hsame, hother]

theorem count_flatMap_of_own [BEq τ] [LawfulBEq τ] {queues : κ → List τ}
    (hown : ∀ key, ∀ item ∈ queues key, keyOf item = key) (keys : List κ) (item : τ) :
    (keys.flatMap queues).count item = keys.count (keyOf item) * (queues (keyOf item)).count item := by
  rw [count_flatMap, sum_map_eq_nsmul_single (keyOf item), smul_eq_mul, Function.comp_apply]
  intro key hne _
  exact List.count_eq_zero.mpr fun hitem => hne (hown key item hitem).symm

theorem Splits.perm (h : s.Splits keyOf items) (hown : ∀ key, ∀ item ∈ items key, keyOf item = key)
    {keys : List κ} (hnodup : keys.Nodup) (hkeys : ∀ key, items key ≠ [] → key ∈ keys) :
    (s.selected ++ keys.flatMap s.queues).Perm (keys.flatMap items) := by
  classical
  have hwaiting : ∀ key, ∀ item ∈ s.queues key, keyOf item = key := by
    intro key item hitem
    refine hown key item ?_
    rw [← h key]
    exact mem_append_right _ hitem
  rw [perm_iff_count]
  intro item
  have hitem := congrArg (List.count item) (h (keyOf item))
  rw [count_append, count_filter (by simp)] at hitem
  rw [count_append, count_flatMap_of_own hwaiting, count_flatMap_of_own hown]
  by_cases hkey : keyOf item ∈ keys
  · rw [count_eq_one_of_mem hnodup hkey]
    omega
  have hnone : items (keyOf item) = [] := Decidable.not_not.mp (mt (hkeys _) hkey)
  rw [hnone, count_nil] at hitem
  rw [count_eq_zero_of_not_mem hkey]
  omega

end Selection

end RoundRobin
