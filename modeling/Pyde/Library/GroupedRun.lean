/-
Module: Pyde.Library.GroupedRun
Purpose: Running programs in groups, each on its own overlay of one base store, and merging the overlays; and one map
  kept in three layers, a tree, unwritten writes and a cache.
Trusted boundary: none
-/
import Pyde.Library.StateProgram
import Mathlib.Data.List.Sort
import Mathlib.Data.List.Perm.Basic
import Mathlib.Data.List.Induction
import Mathlib.Data.List.Pairwise

namespace StateProgram

open List

variable {g : List Nat} {n : Nat} {groups : List (List Nat)}

variable {κ ℓ ν α σ : Type}

/-! ### Overlays -/

/-- A base store that is only read, and the values written on top of it. -/
structure Overlay (ℓ ν : Type) where
  base : Store ℓ ν
  pending : ℓ → Option ν

namespace Overlay

def new (base : Store ℓ ν) : Overlay ℓ ν := { base, pending := fun _ => none }

variable (norm : ν → Option ν)

/-- Perform the pending writes on a store. -/
def commit (o : Overlay ℓ ν) (s : Store ℓ ν) : Store ℓ ν := fun l =>
  match o.pending l with
  | some v => norm v
  | none => s l

/-- What an overlay reads: its own writes first, then the base. -/
def view (o : Overlay ℓ ν) : Store ℓ ν := o.commit norm o.base

variable [DecidableEq ℓ]

def backend : Backend (Overlay ℓ ν) ℓ ν where
  get o l := o.view norm l
  put o l v := { o with pending := Function.update o.pending l (some v) }

theorem commit_put (o : Overlay ℓ ν) (l : ℓ) (v : ν) (s : Store ℓ ν) :
    ((backend norm).put o l v).commit norm s = insert norm (o.commit norm s) l v := by
  funext m
  unfold commit insert backend
  by_cases hm : m = l
  · subst hm
    simp only [Function.update_self]
  · simp only [Function.update_of_ne hm]

theorem simulates : Simulates (view norm) (backend (ℓ := ℓ) norm) (storeBackend norm) where
  get _ _ := rfl
  put o l v := commit_put norm o l v o.base

end Overlay

/-! ### Several programs -/

/-- Run the programs of the given numbers one after the other. -/
def runEach (B : Backend σ ℓ ν) (loc : κ → ℓ) (prog : Nat → Prog κ ν α) :
    List Nat → σ → List (Nat × α) × σ
  | [], s => ([], s)
  | i :: is, s =>
    let step := runOn B loc (prog i) s
    let rest := runEach B loc prog is step.2
    ((i, step.1) :: rest.1, rest.2)

theorem runEach_simulates {σ' : Type} {view : σ → σ'} {B : Backend σ ℓ ν} {B' : Backend σ' ℓ ν}
    (h : Simulates view B B') (loc : κ → ℓ) (prog : Nat → Prog κ ν α) (is : List Nat) (s : σ) :
    (runEach B loc prog is s).1 = (runEach B' loc prog is (view s)).1 ∧
      view (runEach B loc prog is s).2 = (runEach B' loc prog is (view s)).2 := by
  induction is generalizing s with
  | nil => exact ⟨rfl, rfl⟩
  | cons i is ih =>
    obtain ⟨hresult, hstate⟩ := runOn_simulates h loc (prog i) s
    obtain ⟨hresults, hfinal⟩ := ih (runOn B loc (prog i) s).2
    simp only [runEach]
    rw [hstate] at hresults hfinal
    rw [hresult, hresults, hfinal]
    exact ⟨rfl, rfl⟩

theorem runEach_concat (B : Backend σ ℓ ν) (loc : κ → ℓ) (prog : Nat → Prog κ ν α)
    (is : List Nat) (i : Nat) (s : σ) :
    runEach B loc prog (is ++ [i]) s =
      ((runEach B loc prog is s).1 ++ [(i, (runOn B loc (prog i) (runEach B loc prog is s).2).1)],
        (runOn B loc (prog i) (runEach B loc prog is s).2).2) := by
  induction is generalizing s with
  | nil => rfl
  | cons j is ih => simp only [cons_append, runEach, ih]

section Store

variable [DecidableEq ℓ] (norm : ν → Option ν) (loc : κ → ℓ) (prog : Nat → Prog κ ν α)

/-- The writes of several programs that run one after the other. -/
def writesOfEach : List Nat → Store ℓ ν → List (κ × ν)
  | [], _ => []
  | i :: is, s => writes norm loc (prog i) s ++ writesOfEach is (run norm loc (prog i) s).2

theorem writesOfEach_concat (is : List Nat) (i : Nat) (s : Store ℓ ν) :
    writesOfEach norm loc prog (is ++ [i]) s = writesOfEach norm loc prog is s ++
      writes norm loc (prog i) (runEach (storeBackend norm) loc prog is s).2 := by
  induction is generalizing s with
  | nil => simp [writesOfEach, runEach]
  | cons j is ih =>
    rw [cons_append, writesOfEach, writesOfEach, ih, append_assoc]
    rfl

theorem runEach_snd (is : List Nat) (s : Store ℓ ν) :
    (runEach (storeBackend norm) loc prog is s).2 = replay norm loc (writesOfEach norm loc prog is s) s := by
  induction is generalizing s with
  | nil => rfl
  | cons i is ih =>
    rw [writesOfEach, replay_append, ← run_snd]
    exact ih _

section Commit

variable {B : Backend σ ℓ ν} {view : σ → Store ℓ ν} (hview : Simulates view B (storeBackend norm))
  (commit : σ → Store ℓ ν) (hput : ∀ o l v, commit (B.put o l v) = insert norm (commit o) l v)
include hview hput

/-- Committing writes one by one performs the writes of the program. -/
theorem commit_runOn (p : Prog κ ν α) (o : σ) :
    commit (runOn B loc p o).2 = replay norm loc (writes norm loc p (view o)) (commit o) := by
  induction p generalizing o with
  | pure a => rfl
  | get key next ih =>
    rw [runOn, hview.get]
    exact ih _ o
  | put key value next ih =>
    have hnext := ih (B.put o (loc key) value)
    rw [hput, hview.put] at hnext
    exact hnext

theorem commit_runEach (is : List Nat) (o : σ) :
    commit (runEach B loc prog is o).2 = replay norm loc (writesOfEach norm loc prog is (view o)) (commit o) := by
  induction is generalizing o with
  | nil => rfl
  | cons i is ih =>
    have hrest := ih (runOn B loc (prog i) o).2
    rw [(runOn_simulates hview loc (prog i) o).2, commit_runOn norm loc hview commit hput] at hrest
    rw [writesOfEach, replay_append]
    exact hrest

end Commit

theorem Overlay.commit_runEach (is : List Nat) (o : Overlay ℓ ν) (s : Store ℓ ν) :
    (runEach (Overlay.backend norm) loc prog is o).2.commit norm s =
      replay norm loc (writesOfEach norm loc prog is (o.view norm)) (o.commit norm s) :=
  StateProgram.commit_runEach norm loc prog (simulates norm) (commit norm · s) (commit_put norm · · · s) is o

/-- Programs that agree up to `f` on every store agree up to `f` when they run one after the other. -/
theorem runEach_agree {β : Type} {f : α → β} {prog prog' : Nat → Prog κ ν α}
    (h : ∀ i s, f (run norm loc (prog i) s).1 = f (run norm loc (prog' i) s).1 ∧
      (run norm loc (prog i) s).2 = (run norm loc (prog' i) s).2) (is : List Nat) (s : Store ℓ ν) :
    ((runEach (storeBackend norm) loc prog is s).1.map fun r => (r.1, f r.2)) =
        ((runEach (storeBackend norm) loc prog' is s).1.map fun r => (r.1, f r.2)) ∧
      (runEach (storeBackend norm) loc prog is s).2 = (runEach (storeBackend norm) loc prog' is s).2 := by
  induction is generalizing s with
  | nil => exact ⟨rfl, rfl⟩
  | cons i is ih =>
    obtain ⟨hresult, hstate⟩ := h i s
    unfold run at hresult hstate
    obtain ⟨hresults, hfinal⟩ := ih (runOn (storeBackend norm) loc (prog i) s).2
    simp only [runEach, map_cons]
    rw [hresult, ← hstate, hresults, hfinal]
    exact ⟨rfl, rfl⟩

variable (base : Store ℓ ν)

/-- The store in which program `i` starts when all programs run in order. -/
def stateBefore (i : Nat) : Store ℓ ν := (runEach (storeBackend norm) loc prog (List.range i) base).2

def resultAt (i : Nat) : α := (run norm loc (prog i) (stateBefore norm loc prog base i)).1

def writesAt (i : Nat) : List (κ × ν) := writes norm loc (prog i) (stateBefore norm loc prog base i)

def readsAt (i : Nat) : List κ := reads norm loc (prog i) (stateBefore norm loc prog base i)

/-- Program `j` touches a location that program `i` writes. -/
def Depends (i j : Nat) : Prop :=
  ∃ w ∈ writesAt norm loc prog base i, loc w.1 ∈ (readsAt norm loc prog base j).map loc ∨
      loc w.1 ∈ (writesAt norm loc prog base j).map fun w' => loc w'.1

/-- The writes of several programs, as they were made in the run in order. -/
def logOf (is : List Nat) : List (κ × ν) := is.flatMap (writesAt norm loc prog base)

theorem logOf_append (is js : List Nat) : logOf norm loc prog base (is ++ js) =
    logOf norm loc prog base is ++ logOf norm loc prog base js :=
  flatMap_append

theorem stateBefore_eq_replay (i : Nat) :
    stateBefore norm loc prog base i = replay norm loc (logOf norm loc prog base (List.range i)) base := by
  induction i with
  | zero => rfl
  | succ i ih =>
    have hstep : stateBefore norm loc prog base (i + 1) =
        (run norm loc (prog i) (stateBefore norm loc prog base i)).2 := by
      simp only [stateBefore, range_succ, runEach_concat]
      rfl
    rw [hstep, run_snd, logOf, range_succ, flatMap_append, replay_append, flatMap_singleton]
    exact congrArg _ ih

theorem runEach_range (n : Nat) :
    (runEach (storeBackend norm) loc prog (List.range n) base).1 =
      (List.range n).map fun i => (i, resultAt norm loc prog base i) := by
  induction n with
  | zero => rfl
  | succ n ih =>
    rw [range_succ, runEach_concat, map_append, ih]
    rfl

/-- Leaving out programs that do not write a location does not change what it ends up with. -/
theorem replay_filter {is : List Nat} {q : Nat → Bool} {l : ℓ}
    (h : ∀ i ∈ is, q i = false → ∀ w ∈ writesAt norm loc prog base i, loc w.1 ≠ l) (s : Store ℓ ν) :
    replay norm loc (logOf norm loc prog base (is.filter q)) s l =
      replay norm loc (logOf norm loc prog base is) s l := by
  induction is generalizing s with
  | nil => rfl
  | cons i is ih =>
    rw [forall_mem_cons] at h
    unfold logOf at ih ⊢
    rw [flatMap_cons, replay_append]
    cases hq : q i with
    | true =>
      rw [filter_cons_of_pos hq, flatMap_cons, replay_append]
      exact ih h.2 _
    | false =>
      rw [filter_cons_of_neg (by simp [hq]), ih h.2 s]
      exact replay_congr norm loc (replay_of_untouched norm loc (h.1 hq) s).symm _

omit [DecidableEq ℓ] in
/-- An ascending list of numbers below `n` is a selection from all of them. -/
theorem eq_filter_range (hasc : g.Pairwise (· < ·)) (hlt : ∀ i ∈ g, i < n) :
    g = (List.range n).filter fun i => decide (i ∈ g) := by
  refine List.Perm.eq_of_pairwise ?_ hasc (List.pairwise_lt_range.filter _) ?_
  · intro a b _ _ hab hba
    exact absurd hab (Nat.lt_asymm hba)
  · refine (perm_ext_iff_of_nodup (hasc.imp Nat.ne_of_lt) (List.nodup_range.filter _)).mpr fun i => ?_
    simp only [mem_filter, mem_range, decide_eq_true_eq]
    exact ⟨fun hi => ⟨hlt i hi, hi⟩, And.right⟩

/-! ### One group -/

/-- A group whose programs read nothing that an earlier program outside the group writes runs as it
would among all programs. -/
theorem runEach_group (hasc : g.Pairwise (· < ·))
    (hsep : ∀ j ∈ g, ∀ i < j, i ∉ g → ∀ w ∈ writesAt norm loc prog base i,
      ∀ key ∈ readsAt norm loc prog base j, loc w.1 ≠ loc key) :
    (runEach (storeBackend norm) loc prog g base).1 = g.map (fun i => (i, resultAt norm loc prog base i)) ∧
      writesOfEach norm loc prog g base = logOf norm loc prog base g := by
  induction g using List.reverseRecOn with
  | nil => exact ⟨rfl, rfl⟩
  | append_singleton g j ih =>
    obtain ⟨hasc, _, hbelow⟩ := List.pairwise_append.mp hasc
    have hlt : ∀ i ∈ g, i < j := fun i hi => hbelow i hi j mem_cons_self
    have hmem : ∀ {i}, i ∉ g → i ≠ j → i ∉ g ++ [j] := fun hg hne hmem =>
      (List.mem_append.mp hmem).elim hg fun h => hne (List.mem_singleton.mp h)
    obtain ⟨hresults, hlog⟩ := ih hasc fun j' hj' i hi hnot =>
      hsep j' (mem_append_left _ hj') i hi
        (hmem hnot (Nat.ne_of_lt (Nat.lt_trans hi (hlt j' hj'))))
    -- the group's store and the full store agree on what program `j` reads
    have hstate := runEach_snd norm loc prog g base
    rw [hlog] at hstate
    have hagree : ∀ key ∈ readsAt norm loc prog base j, stateBefore norm loc prog base j (loc key) =
          (runEach (storeBackend norm) loc prog g base).2 (loc key) := by
      intro key hkey
      have hothers : ∀ i ∈ List.range j, decide (i ∈ g) = false →
          ∀ w ∈ writesAt norm loc prog base i, loc w.1 ≠ loc key := by
        intro i hi hnot w hw
        have hij : i < j := List.mem_range.mp hi
        exact hsep j (mem_append_right _ mem_cons_self) i hij
          (hmem (of_decide_eq_false hnot) (Nat.ne_of_lt hij)) w hw key hkey
      have hselect := replay_filter norm loc prog base hothers base
      rw [← eq_filter_range hasc hlt] at hselect
      rw [hstate, stateBefore_eq_replay]
      exact hselect.symm
    obtain ⟨hresult, hwrites, _⟩ := run_congr norm loc (prog j) hagree
    constructor
    · rw [runEach_concat, hresults, map_append]
      exact congrArg (fun a => _ ++ [(j, a)]) hresult.symm
    · rw [writesOfEach_concat, hlog, ← hwrites]
      simp [logOf, writesAt]

/-! ### All groups -/

def runGroups (groups : List (List Nat)) : List (Nat × α) × Store ℓ ν :=
  let runs := groups.map fun g => runEach (Overlay.backend norm) loc prog g (Overlay.new base)
  (runs.flatMap Prod.fst, runs.foldl (fun s r => r.2.commit norm s) base)

/-- No program touches a location that an earlier program of another group writes. -/
def Separate (groups : List (List Nat)) : Prop :=
  ∀ i j, i < j → i ∈ groups.flatten → j ∈ groups.flatten → Depends norm loc prog base i j →
    ∃ g ∈ groups, i ∈ g ∧ j ∈ g

omit [DecidableEq ℓ] in
theorem group_unique (hnodup : groups.flatten.Nodup) {g' : List Nat} (hg : g ∈ groups) (hg' : g' ∈ groups) {i : Nat}
    (hi : i ∈ g) (hi' : i ∈ g') : g = g' := by
  by_contra hne
  have hdisjoint := (List.nodup_flatten.mp hnodup).2
  have hsymm : Std.Symm (@List.Disjoint Nat) := ⟨fun _ _ h _ hb ha => h ha hb⟩
  exact hdisjoint.forall hg hg' hne hi hi'

omit [DecidableEq ℓ] in
theorem flatten_filter_group (hnodup : groups.flatten.Nodup) (hg : g ∈ groups) :
    (groups.flatten.filter fun i => decide (i ∈ g)) = g := by
  obtain ⟨before, after, rfl⟩ := append_of_mem hg
  rw [flatten_append, flatten_cons] at hnodup ⊢
  obtain ⟨_, hnodup', hbefore⟩ := List.nodup_append.mp hnodup
  obtain ⟨_, _, hafter⟩ := List.nodup_append.mp hnodup'
  rw [filter_append, filter_append]
  have hb : (before.flatten.filter fun i => decide (i ∈ g)) = [] := by
    rw [filter_eq_nil_iff]
    intro i hi hmem
    exact hbefore i hi i (mem_append_left _ (of_decide_eq_true hmem)) rfl
  have ha : (after.flatten.filter fun i => decide (i ∈ g)) = [] := by
    rw [filter_eq_nil_iff]
    intro i hi hmem
    exact hafter i (of_decide_eq_true hmem) i hi rfl
  have hself : (g.filter fun i => decide (i ∈ g)) = g := by simp
  rw [hb, ha, hself, nil_append, append_nil]

section

variable (hsep : Separate norm loc prog base groups)
include hsep

theorem Separate.reads (hnodup : groups.flatten.Nodup)
    (hall : ∀ i j, j ∈ groups.flatten → i < j → i ∈ groups.flatten)
    (hg : g ∈ groups) : ∀ j ∈ g, ∀ i < j, i ∉ g →
      ∀ w ∈ writesAt norm loc prog base i, ∀ key ∈ readsAt norm loc prog base j, loc w.1 ≠ loc key := by
  intro j hj i hij hnot w hw key hkey heq
  have hjmem : j ∈ groups.flatten := List.mem_flatten.mpr ⟨g, hg, hj⟩
  obtain ⟨g', hg', hi', hj'⟩ := hsep i j hij (hall i j hjmem hij) hjmem
    ⟨w, hw, .inl (List.mem_map.mpr ⟨key, hkey, heq.symm⟩)⟩
  exact hnot (group_unique hnodup hg' hg hj' hj ▸ hi')

theorem Separate.writes (hnodup : groups.flatten.Nodup) (hg : g ∈ groups) {i : Nat} (hi : i ∈ g) {j : Nat}
    (hj : j ∈ groups.flatten) (hnot : j ∉ g) {w w' : κ × ν} (hw : w ∈ writesAt norm loc prog base i)
    (hw' : w' ∈ writesAt norm loc prog base j) : loc w'.1 ≠ loc w.1 := by
  intro heq
  have himem : i ∈ groups.flatten := List.mem_flatten.mpr ⟨g, hg, hi⟩
  have hne : i ≠ j := fun h => hnot (h ▸ hi)
  rcases Nat.lt_or_gt_of_ne hne with hlt | hlt
  · obtain ⟨g', hg', hi', hj'⟩ := hsep i j hlt himem hj
      ⟨w, hw, .inr (List.mem_map.mpr ⟨w', hw', heq⟩)⟩
    exact hnot (group_unique hnodup hg' hg hi' hi ▸ hj')
  obtain ⟨g', hg', hj', hi'⟩ := hsep j i hlt hj himem ⟨w', hw', .inr (List.mem_map.mpr ⟨w, hw, heq.symm⟩)⟩
  exact hnot (group_unique hnodup hg' hg hi' hi ▸ hj')

theorem replay_groups (hperm : groups.flatten.Perm (List.range n)) (hasc : ∀ g ∈ groups, g.Pairwise (· < ·)) :
    replay norm loc (logOf norm loc prog base groups.flatten) base =
      replay norm loc (logOf norm loc prog base (List.range n)) base := by
  have hnodup : groups.flatten.Nodup := hperm.nodup_iff.mpr nodup_range
  funext l
  by_cases hwriter : ∃ i ∈ groups.flatten, ∃ w ∈ writesAt norm loc prog base i, loc w.1 = l
  · -- only one group writes the location, and both logs keep that group's order
    obtain ⟨i, hi, w, hw, rfl⟩ := hwriter
    obtain ⟨g, hg, hig⟩ := List.mem_flatten.mp hi
    have hothers : ∀ j ∈ groups.flatten, decide (j ∈ g) = false →
        ∀ w' ∈ writesAt norm loc prog base j, loc w'.1 ≠ loc w.1 := fun j hj hnot w' hw' =>
      hsep.writes norm loc prog base hnodup hg hig hj (of_decide_eq_false hnot) hw hw'
    have hlt : ∀ j ∈ g, j < n := fun j hj =>
      List.mem_range.mp (hperm.mem_iff.mp (List.mem_flatten.mpr ⟨g, hg, hj⟩))
    rw [← replay_filter norm loc prog base hothers, flatten_filter_group hnodup hg,
      ← replay_filter norm loc prog base fun j hj => hothers j (hperm.mem_iff.mpr hj),
      ← eq_filter_range (hasc g hg) hlt]
  · have huntouched : ∀ is : List Nat, (∀ i ∈ is, i ∈ groups.flatten) →
        ∀ w ∈ logOf norm loc prog base is, loc w.1 ≠ l := by
      intro is his w hw heq
      obtain ⟨i, hi, hwi⟩ := List.mem_flatMap.mp hw
      exact hwriter ⟨i, his i hi, w, hwi, heq⟩
    rw [replay_of_untouched norm loc (huntouched _ fun i hi => hi),
      replay_of_untouched norm loc (huntouched _ fun i hi => hperm.mem_iff.mpr hi)]

end

/-- Grouped execution computes what execution in order computes. -/
theorem runGroups_eq_runEach (hperm : groups.flatten.Perm (List.range n))
    (hasc : ∀ g ∈ groups, g.Pairwise (· < ·))
    (hsep : Separate norm loc prog base groups) :
    ((runGroups norm loc prog base groups).1.insertionSort fun a b => a.1 ≤ b.1) =
        (runEach (storeBackend norm) loc prog (List.range n) base).1 ∧ (runGroups norm loc prog base groups).2 =
        (runEach (storeBackend norm) loc prog (List.range n) base).2 := by
  have hnodup : groups.flatten.Nodup := hperm.nodup_iff.mpr nodup_range
  have hall : ∀ i j, j ∈ groups.flatten → i < j → i ∈ groups.flatten := by
    intro i j hj hij
    have hjn : j < n := List.mem_range.mp (hperm.mem_iff.mp hj)
    exact hperm.mem_iff.mpr (List.mem_range.mpr (Nat.lt_trans hij hjn))
  have hgroup : ∀ g ∈ groups, (runEach (Overlay.backend norm) loc prog g (Overlay.new base)).1 =
          g.map (fun i => (i, resultAt norm loc prog base i)) ∧
        ∀ s, (runEach (Overlay.backend norm) loc prog g (Overlay.new base)).2.commit norm s =
          replay norm loc (logOf norm loc prog base g) s := by
    intro g hg
    obtain ⟨hresults, hlog⟩ :=
      runEach_group norm loc prog base (hasc g hg) (hsep.reads norm loc prog base hnodup hall hg)
    constructor
    · rw [(runEach_simulates (Overlay.simulates norm) loc prog g (Overlay.new base)).1]
      exact hresults
    · intro s
      rw [Overlay.commit_runEach]
      exact congrArg (fun log => replay norm loc log s) hlog
  constructor
  · have hresults : (runGroups norm loc prog base groups).1 =
        groups.flatten.map fun i => (i, resultAt norm loc prog base i) := by
      simp only [runGroups, flatMap_map]
      rw [map_flatten, flatten_eq_flatMap, flatMap_map]
      exact flatMap_congr fun g hg => (hgroup g hg).1
    rw [runEach_range, hresults]
    refine List.Perm.eq_of_pairwise ?_ (pairwise_insertionSort _ _) ?_
      ((perm_insertionSort _ _).trans (hperm.map _))
    · intro a b ha hb hab hba
      rw [mem_insertionSort, mem_map] at ha
      rw [mem_map] at hb
      obtain ⟨i, _, rfl⟩ := ha
      obtain ⟨j, _, rfl⟩ := hb
      have hij : i = j := Nat.le_antisymm hab hba
      rw [hij]
    · exact List.pairwise_map.mpr (List.pairwise_lt_range.imp Nat.le_of_lt)
  · have hfold : ∀ (gs : List (List Nat)), (∀ g ∈ gs, g ∈ groups) → ∀ s : Store ℓ ν,
        (gs.map fun g => runEach (Overlay.backend norm) loc prog g (Overlay.new base)).foldl
            (fun s r => r.2.commit norm s) s = replay norm loc (logOf norm loc prog base gs.flatten) s := by
      intro gs hgs
      induction gs with
      | nil => exact fun s => rfl
      | cons g gs ih =>
        intro s
        rw [forall_mem_cons] at hgs
        rw [map_cons, foldl_cons, ih hgs.2, (hgroup g hgs.1).2 s, flatten_cons, logOf_append, replay_append]
    have hmerged : (runGroups norm loc prog base groups).2 =
        replay norm loc (logOf norm loc prog base groups.flatten) base :=
      hfold groups (fun g hg => hg) base
    rw [hmerged, replay_groups norm loc prog base hsep hperm hasc, ← stateBefore_eq_replay]
    rfl

end Store

end StateProgram

namespace StateProgram

variable {ℓ ν : Type} [DecidableEq ℓ] {norm : ν → Option ν}

namespace WriteBehind

/-- Read a location: the cache first, then the tree. -/
def lookup (norm : ν → Option ν) (cache : ℓ → Option ν) (tree : Store ℓ ν) : Store ℓ ν := fun l =>
  match cache l with
  | some v => norm v
  | none => tree l

/-- Put a list of writes into the cache. -/
def fill (entries : List (ℓ × ν)) (cache : ℓ → Option ν) : ℓ → Option ν :=
  entries.foldl (fun cache w => Function.update cache w.1 (some w.2)) cache

theorem lookup_update (cache : ℓ → Option ν) (tree : Store ℓ ν) (l : ℓ) (v : ν) :
    lookup norm (Function.update cache l (some v)) tree = insert norm (lookup norm cache tree) l v := by
  funext m
  by_cases hm : m = l
  · subst hm
    simp only [lookup, insert, Function.update_self]
  · simp only [lookup, insert, Function.update_of_ne hm]

variable (norm) in
/-- What was put into the cache reads as if it had been written. -/
theorem lookup_fill (entries : List (ℓ × ν)) (cache : ℓ → Option ν) (tree : Store ℓ ν) :
    lookup norm (fill entries cache) tree = replay norm id entries (lookup norm cache tree) := by
  induction entries generalizing cache with
  | nil => rfl
  | cons w entries ih =>
    have hnext := ih (Function.update cache w.1 (some w.2))
    rw [lookup_update] at hnext
    exact hnext

theorem isSome_update {cache : ℓ → Option ν} {m : ℓ} (l : ℓ) (v : ν) (h : (cache m).isSome) :
    (Function.update cache l (some v) m).isSome := by
  by_cases hm : m = l
  · rw [hm, Function.update_self]
    rfl
  · rwa [Function.update_of_ne hm]

theorem isSome_fill {cache : ℓ → Option ν} {m : ℓ} (entries : List (ℓ × ν)) (h : (cache m).isSome) :
    (fill entries cache m).isSome := by
  induction entries generalizing cache with
  | nil => exact h
  | cons w entries ih => exact ih (isSome_update w.1 w.2 h)

theorem isSome_fill_of_mem {w : ℓ × ν} {entries : List (ℓ × ν)} (hw : w ∈ entries)
    (cache : ℓ → Option ν) :
    (fill entries cache w.1).isSome := by
  induction entries generalizing cache with
  | nil => exact absurd hw List.not_mem_nil
  | cons w' entries ih =>
    rcases List.mem_cons.mp hw with rfl | hw
    · have hput : (Function.update cache w.1 (some w.2) w.1).isSome := by
        rw [Function.update_self]
        rfl
      exact isSome_fill entries hput
    · exact ih hw _

end WriteBehind

open WriteBehind

/-- The layers hold the map: the cache answers as the map does, what is deferred makes the tree equal to
the map, and the cache covers what is deferred. -/
structure Represents (norm : ν → Option ν) (cache : ℓ → Option ν) (deferred : List (ℓ × ν))
    (tree map : Store ℓ ν) : Prop where
  cached : ∀ l v, cache l = some v → norm v = map l
  flushed : replay norm id deferred tree = map
  covered : ∀ w ∈ deferred, (cache w.1).isSome

namespace Represents

variable {cache : ℓ → Option ν} {deferred : List (ℓ × ν)} {tree map : Store ℓ ν} {l : ℓ}

theorem of_tree (norm : ν → Option ν) (tree : Store ℓ ν) : Represents norm (fun _ => none) [] tree tree where
  cached _ _ h := nomatch h
  flushed := rfl
  covered := nofun

section

variable (h : Represents norm cache deferred tree map)
include h

theorem untouched (hl : cache l = none) : ∀ w ∈ deferred, id w.1 ≠ l := by
  rintro w hw rfl
  have hcovered := h.covered w hw
  rw [id] at hl
  rw [hl] at hcovered
  exact Bool.false_ne_true hcovered

theorem tree_eq (hl : cache l = none) : tree l = map l := by
  rw [← h.flushed, replay_of_untouched norm id (h.untouched hl)]

theorem lookup_eq : lookup norm cache tree = map := by
  funext l
  cases hl : cache l with
  | some v => simp only [lookup, hl, h.cached l v hl]
  | none => simp only [lookup, hl, h.tree_eq hl]

/-- A write that goes through to the tree, of a location for which nothing is deferred. -/
theorem insert_through (hl : ∀ w ∈ deferred, id w.1 ≠ l) (v : ν) :
    Represents norm (Function.update cache l (some v)) deferred (insert norm tree l v) (insert norm map l v) where
  cached m u hu := by
    by_cases hm : m = l
    · subst hm
      rw [Function.update_self] at hu
      rw [insert, Function.update_self, Option.some.inj hu]
    · rw [Function.update_of_ne hm] at hu
      rw [insert, Function.update_of_ne hm, h.cached m u hu]
  flushed := by
    funext m
    by_cases hm : m = l
    · subst hm
      rw [replay_of_untouched norm id hl, insert, insert, Function.update_self, Function.update_self]
    · have hsame : insert norm tree l v m = tree m := Function.update_of_ne hm _ _
      rw [replay_congr norm id hsame, h.flushed, insert, Function.update_of_ne hm]
  covered w hw := isSome_update l v (h.covered w hw)

theorem defer (entries : List (ℓ × ν)) :
    Represents norm (fill entries cache) (deferred ++ entries) tree (replay norm id entries map) where
  cached m u hu := by
    have hread := congrFun (lookup_fill norm entries cache tree) m
    rw [h.lookup_eq] at hread
    simpa only [lookup, hu] using hread
  flushed := by rw [replay_append, h.flushed]
  covered w hw := by
    rcases List.mem_append.mp hw with hw | hw
    · exact isSome_fill entries (h.covered w hw)
    · exact isSome_fill_of_mem hw cache

/-- A batch that is written to the tree alone, of locations that are not cached. -/
theorem write_tree {entries : List (ℓ × ν)} (hcold : ∀ w ∈ entries, cache w.1 = none) :
    Represents norm cache deferred (replay norm id entries tree) (replay norm id entries map) where
  cached m u hu := by
    have huntouched : ∀ w ∈ entries, id w.1 ≠ m := by
      rintro w hw rfl
      rw [id, hcold w hw] at hu
      exact nomatch hu
    rw [replay_of_untouched norm id huntouched, h.cached m u hu]
  flushed := by
    funext m
    cases hm : cache m with
    | none =>
      rw [replay_of_untouched norm id (h.untouched hm)]
      exact replay_congr norm id (h.tree_eq hm) entries
    | some u =>
      have huntouched : ∀ w ∈ entries, id w.1 ≠ m := by
        rintro w hw rfl
        rw [id, hcold w hw] at hm
        exact nomatch hm
      have hsame : replay norm id entries tree m = tree m := replay_of_untouched norm id huntouched _
      rw [replay_of_untouched norm id huntouched, replay_congr norm id hsame, h.flushed]
  covered := h.covered

theorem flush : Represents norm cache [] (replay norm id deferred tree) map where
  cached := h.cached
  flushed := h.flushed
  covered := nofun

end

end Represents

/-! ### Overlays that list their writes -/

/-- A base store that is only read, and the writes on top of it, one for each location. -/
structure ListedOverlay (ℓ ν : Type) where
  base : Store ℓ ν
  writes : List (ℓ × ν)

namespace ListedOverlay

def new (base : Store ℓ ν) : ListedOverlay ℓ ν := { base, writes := [] }

/-- What the overlay reads: its own writes first, then the base. -/
def view (norm : ν → Option ν) (o : ListedOverlay ℓ ν) :
    Store ℓ ν := lookup norm (fill o.writes fun _ => none) o.base

/-- Reading and writing. A new write takes the place of an older one. -/
def backend (norm : ν → Option ν) : Backend (ListedOverlay ℓ ν) ℓ ν where
  get o l := o.view norm l
  put o l v := { o with writes := (o.writes.filter fun w => w.1 ≠ l) ++ [(l, v)] }

theorem view_eq (o : ListedOverlay ℓ ν) : o.view norm = replay norm id o.writes o.base :=
  lookup_fill norm o.writes _ o.base

theorem replay_filter_ne {l m : ℓ} (hm : m ≠ l) (log : List (ℓ × ν)) (s : Store ℓ ν) :
    replay norm id (log.filter fun w => w.1 ≠ l) s m = replay norm id log s m := by
  induction log generalizing s with
  | nil => rfl
  | cons w log ih =>
    by_cases hw : w.1 = l
    · rw [List.filter_cons_of_neg (by simpa using hw), ih s]
      have hsame : s m = insert norm s w.1 w.2 m := by rw [insert, Function.update_of_ne (hw ▸ hm)]
      exact replay_congr norm id hsame log
    · rw [List.filter_cons_of_pos (by simpa using hw)]
      exact ih _

theorem replay_put (o : ListedOverlay ℓ ν) (l : ℓ) (v : ν) (s : Store ℓ ν) :
    replay norm id ((backend norm).put o l v).writes s = insert norm (replay norm id o.writes s) l v := by
  change replay norm id ((o.writes.filter fun w => w.1 ≠ l) ++ [(l, v)]) s = _
  rw [replay_append]
  change insert norm (replay norm id (o.writes.filter fun w => w.1 ≠ l) s) l v = _
  funext m
  unfold insert
  by_cases hm : m = l
  · rw [hm, Function.update_self, Function.update_self]
  · rw [Function.update_of_ne hm, Function.update_of_ne hm, replay_filter_ne hm]

variable (norm) in
theorem simulates : Simulates (view norm) (backend (ℓ := ℓ) norm) (storeBackend norm) where
  get _ _ := rfl
  put o l v := by
    rw [view_eq, view_eq]
    exact replay_put o l v o.base

variable {κ α : Type} (loc : κ → ℓ)

theorem base_runOn (p : Prog κ ν α) (o : ListedOverlay ℓ ν) : (runOn (backend norm) loc p o).2.base = o.base := by
  induction p generalizing o with
  | pure a => rfl
  | get key next ih => exact ih _ o
  | put key value next ih => exact ih _

theorem base_runEach (prog : Nat → Prog κ ν α) (is : List Nat) (o : ListedOverlay ℓ ν) :
    (runEach (backend norm) loc prog is o).2.base = o.base := by
  induction is generalizing o with
  | nil => rfl
  | cons i is ih => exact (ih _).trans (base_runOn loc (prog i) o)

theorem replay_runEach (prog : Nat → Prog κ ν α) (is : List Nat) (o : ListedOverlay ℓ ν) (s : Store ℓ ν) :
    replay norm id (runEach (backend norm) loc prog is o).2.writes s =
      replay norm loc (writesOfEach norm loc prog is (o.view norm)) (replay norm id o.writes s) :=
  commit_runEach norm loc prog (simulates norm) (fun o => replay norm id o.writes s) (replay_put · · · s) is o

/-- A location is listed once if it was written, and not at all otherwise. -/
theorem keys_runOn (p : Prog κ ν α) (o : ListedOverlay ℓ ν) (h : (o.writes.map Prod.fst).Nodup) :
    ((runOn (backend norm) loc p o).2.writes.map Prod.fst).Nodup ∧
      ∀ l, l ∈ (runOn (backend norm) loc p o).2.writes.map Prod.fst ↔
        l ∈ o.writes.map Prod.fst ∨ l ∈ (StateProgram.writes norm loc p (o.view norm)).map fun w => loc w.1 := by
  induction p generalizing o with
  | pure a => exact ⟨h, fun l => ⟨.inl, fun hl => hl.resolve_right List.not_mem_nil⟩⟩
  | get key next ih => exact ih _ o h
  | put key value next ih =>
    have hkeys : ((backend norm).put o (loc key) value).writes.map Prod.fst =
        (o.writes.map Prod.fst).filter (· ≠ loc key) ++ [loc key] := by
      change ((o.writes.filter fun w => w.1 ≠ loc key) ++ [(loc key, value)]).map Prod.fst = _
      rw [List.map_append, List.filter_map]
      rfl
    obtain ⟨hnodup, hmem⟩ := ih ((backend norm).put o (loc key) value) <| by
      rw [hkeys]
      exact (h.filter _).append (List.nodup_singleton _) (by simp)
    refine ⟨hnodup, fun l => (hmem l).trans ?_⟩
    rw [hkeys, (simulates norm).put]
    change _ ↔ _ ∨ l ∈ loc key :: _
    by_cases hl : l = loc key
    · simp [hl]
    · simp [hl, storeBackend]

end ListedOverlay

/-! ### Undoing writes -/

/-- The value that the last write to a location left, if all writes to it agree. -/
theorem replay_of_agreeing {log : List (ℓ × ν)} {l : ℓ} {x : Option ν}
    (hvalue : ∀ w ∈ log, w.1 = l → norm w.2 = x) (s : Store ℓ ν) (hl : s l = x ∨ ∃ w ∈ log, w.1 = l) :
    replay norm id log s l = x := by
  induction log generalizing s with
  | nil => exact hl.resolve_right (by simp)
  | cons w log ih =>
    rw [List.forall_mem_cons] at hvalue
    apply ih hvalue.2
    by_cases hw : w.1 = l
    · left
      change insert norm s w.1 w.2 l = x
      rw [insert, hw, Function.update_self, hvalue.1 hw]
    · simpa [insert, Function.update_of_ne (Ne.symm hw), hw] using hl

/-- Old values undo a change, if they are listed for every location that changed. -/
theorem replay_undo {undo : List (ℓ × ν)} {before after : Store ℓ ν}
    (hold : ∀ u ∈ undo, norm u.2 = before u.1)
    (hlisted : ∀ l, after l = before l ∨ ∃ u ∈ undo, u.1 = l) : replay norm id undo after = before := by
  funext l
  apply replay_of_agreeing _ after (hlisted l)
  rintro u hu rfl
  exact hold u hu

end StateProgram
