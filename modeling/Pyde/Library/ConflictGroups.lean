/-
Module: Pyde.Library.ConflictGroups
Purpose: Grouping a list of items by the keys they touch.
Trusted boundary: none
-/
import Mathlib

namespace ConflictGroups

open List Function

open Batteries (UnionFind UFNode)

variable {n a b i : Nat} {uf : UnionFind}

/-! ### Union-find over an initial segment of the naturals -/

/-- `n` classes of one element each. -/
def singletons : Nat → UnionFind
  | 0 => UnionFind.empty
  | n + 1 => (singletons n).push

@[simp] theorem size_singletons (n : Nat) : (singletons n).size = n := by
  induction n with
  | zero => rfl
  | succ n ih =>
    simp only [singletons, UnionFind.size, UnionFind.arr_push, Array.size_push]
    exact congrArg (· + 1) ih

theorem equiv_singletons : (singletons n).Equiv a b ↔ a = b := by
  induction n with
  | zero => exact UnionFind.equiv_empty
  | succ n ih => exact UnionFind.equiv_push.trans ih

theorem size_linkAux (arr : Array UFNode) (x y : Fin arr.size) : (UnionFind.linkAux arr x y).size = arr.size := by
  unfold UnionFind.linkAux
  dsimp only
  split
  · rfl
  split
  · simp
  split
  · simp
  · simp

theorem size_union (uf : UnionFind) (x y : Fin uf.size) : (uf.union x y).size = uf.size := by
  have hlink : ∀ (u : UnionFind) (a b : Fin u.size) (hb), (u.link a b hb).size = u.size := by
    intro u a b hb
    exact size_linkAux _ _ _
  simp [UnionFind.union, hlink]

/-- Merge the classes of `a` and `b`. On equal rank the root of `a` stays a root. -/
def merge (uf : UnionFind) (a b : Nat) : UnionFind :=
  if h : a < uf.size ∧ b < uf.size then uf.union ⟨b, h.2⟩ ⟨a, h.1⟩ else uf

@[simp] theorem size_merge (uf : UnionFind) (a b : Nat) : (merge uf a b).size = uf.size := by
  unfold merge
  split
  · exact size_union _ _ _
  · rfl

theorem equiv_merge_mono {x y : Nat} (h : uf.Equiv x y) : (merge uf a b).Equiv x y := by
  unfold merge
  split
  · exact UnionFind.equiv_union.mpr (.inl h)
  · exact h

theorem equiv_merge_self (ha : a < uf.size) (hb : b < uf.size) : (merge uf a b).Equiv a b := by
  rw [merge, dif_pos ⟨ha, hb⟩, UnionFind.equiv_union]
  exact .inr (.inr ⟨UnionFind.Equiv.rfl, UnionFind.Equiv.rfl⟩)

/-- Merging related elements keeps the classes inside an equivalence relation. -/
theorem related_of_equiv_merge {R : Nat → Nat → Prop} (hR : Equivalence R) (huf : ∀ x y, uf.Equiv x y → R x y)
    (hab : R a b) {x y : Nat} (h : (merge uf a b).Equiv x y) : R x y := by
  unfold merge at h
  split at h
  · rcases UnionFind.equiv_union.mp h with h | ⟨h1, h2⟩ | ⟨h1, h2⟩
    · exact huf x y h
    · exact hR.trans (huf _ _ h1) (hR.trans (hR.symm hab) (huf _ _ h2))
    · exact hR.trans (huf _ _ h1) (hR.trans hab (huf _ _ h2))
  · exact huf x y h

/-- Merging every element of a list with one element. -/
def mergeAllWith (rep : Nat) (uf : UnionFind) (l : List Nat) : UnionFind :=
  l.foldl (fun uf i => if i ≠ rep then merge uf i rep else uf) uf

theorem mergeAllWith_spec {rep : Nat} {R : Nat → Nat → Prop} (hR : Equivalence R) {l : List Nat}
    (hrep : rep < uf.size) (hl : ∀ i ∈ l, i < uf.size) (huf : ∀ a b, uf.Equiv a b → R a b)
    (hmerge : ∀ i ∈ l, R i rep) :
    (∀ a b, uf.Equiv a b → (mergeAllWith rep uf l).Equiv a b) ∧
      (∀ i ∈ l, (mergeAllWith rep uf l).Equiv i rep) ∧
    (∀ a b, (mergeAllWith rep uf l).Equiv a b → R a b) := by
  induction l generalizing uf with
  | nil => exact ⟨fun _ _ h => h, by simp, huf⟩
  | cons i l ih =>
    rw [forall_mem_cons] at hl hmerge
    rw [forall_mem_cons, mergeAllWith, foldl_cons, ← mergeAllWith]
    by_cases heq : i = rep
    · rw [if_neg (not_not_intro heq)]
      obtain ⟨hkeep, hall, hrel⟩ := ih hrep hl.2 huf hmerge.2
      exact ⟨hkeep, ⟨heq ▸ UnionFind.Equiv.rfl, hall⟩, hrel⟩
    · rw [if_pos heq]
      have hsize := size_merge uf i rep
      obtain ⟨hkeep, hall, hrel⟩ := ih (hsize.symm ▸ hrep) (fun j hj => hsize.symm ▸ hl.2 j hj)
        (fun a b => related_of_equiv_merge hR huf hmerge.1) hmerge.2
      exact ⟨fun a b h => hkeep a b (equiv_merge_mono h), ⟨hkeep _ _ (equiv_merge_self hl.1 hrep), hall⟩, hrel⟩

/-! ### The scheduler -/

variable {κ : Type*}

inductive Touch (κ : Type*) where
  | write (key : κ)
  | read (key : κ)

def Touch.key : Touch κ → κ
  | .write key => key
  | .read key => key

/-- What is known about an item: the keys it touches, in the order in which they are looked at, or
nothing at all. -/
abbrev Visit (κ : Type*) := Option (List (Touch κ))

structure Scheduler (κ : Type*) where
  uf : UnionFind
  writeOwners : κ → Option Nat
  unknownRepresentative : Option Nat

namespace Scheduler

variable [DecidableEq κ]

def start (n : Nat) : Scheduler κ :=
  { uf := singletons n, writeOwners := fun _ => none, unknownRepresentative := none }

/-- Item `i` touches one key: a write claims an unowned key, and touching a key that another item owns
merges the two. -/
def touch (i : Nat) (s : Scheduler κ) : Touch κ → Scheduler κ
  | .write key =>
    match s.writeOwners key with
    | some other => { s with uf := merge s.uf i other }
    | none => { s with writeOwners := Function.update s.writeOwners key (some i) }
  | .read key =>
    match s.writeOwners key with
    | some writer => if writer ≠ i then { s with uf := merge s.uf i writer } else s
    | none => s

/-- Item `i` is looked at. Items of which nothing is known are merged with each other. -/
def visit (s : Scheduler κ) (i : Nat) : Visit κ → Scheduler κ
  | some touches => touches.foldl (touch i) s
  | none =>
    match s.unknownRepresentative with
    | some rep => { s with uf := merge s.uf i rep }
    | none => { s with unknownRepresentative := some i }

/-- The items are looked at in order, numbered from `i`. -/
def visitAll : Scheduler κ → Nat → List (Visit κ) → Scheduler κ
  | s, _, [] => s
  | s, i, v :: vs => visitAll (s.visit i v) (i + 1) vs

/-- An item of which nothing is known is merged with every other item. -/
def joinUnknown (s : Scheduler κ) (n : Nat) : UnionFind :=
  match s.unknownRepresentative with
  | none => s.uf
  | some rep => mergeAllWith rep s.uf (List.range n)

end Scheduler

/-- The classes of items that must stay together. -/
def conflictClasses [DecidableEq κ] (visits : List (Visit κ)) : UnionFind :=
  ((Scheduler.start visits.length).visitAll 0 visits).joinUnknown visits.length

/-! ### The relation the classes close up -/

def WritesAt (visits : List (Visit κ)) (i : Nat) (key : κ) : Prop :=
  ∃ touches, visits[i]? = some (some touches) ∧ .write key ∈ touches

def TouchesAt (visits : List (Visit κ)) (i : Nat) (key : κ) : Prop :=
  ∃ touches, visits[i]? = some (some touches) ∧ (.write key ∈ touches ∨ .read key ∈ touches)

/-- Item `a` touches a key that the earlier item `b` writes; or some item is unknown, which links
everything. -/
def Linked (visits : List (Visit κ)) (a b : Nat) : Prop :=
  (b < a ∧ ∃ key, WritesAt visits b key ∧ TouchesAt visits a key) ∨
    (none ∈ visits ∧ a < visits.length ∧ b < visits.length)

theorem WritesAt.touchesAt {visits : List (Visit κ)} {key : κ} (h : WritesAt visits i key) :
    TouchesAt visits i key := by
  obtain ⟨touches, hi, hmem⟩ := h
  exact ⟨touches, hi, .inl hmem⟩

theorem TouchesAt.lt {visits : List (Visit κ)} {key : κ} (h : TouchesAt visits i key) : i < visits.length := by
  obtain ⟨touches, hi, _⟩ := h
  exact (List.getElem?_eq_some_iff.mp hi).1

namespace Scheduler

def merged (s : Scheduler κ) (a b : Nat) : Scheduler κ := { s with uf := merge s.uf a b }

/-- The scheduler after item `i` has claimed a key. -/
def claimed [DecidableEq κ] (s : Scheduler κ) (i : Nat) (key : κ) : Scheduler κ :=
  { s with writeOwners := Function.update s.writeOwners key (some i) }

theorem touch_cases [DecidableEq κ] (s : Scheduler κ) (i : Nat) (t : Touch κ) :
    (∃ o, s.writeOwners t.key = some o ∧ s.touch i t = s.merged i o) ∨
    (∃ key, t = .write key ∧ s.writeOwners key = none ∧ s.touch i t = s.claimed i key) ∨
    (∃ key, t = .read key ∧ s.writeOwners key = none ∧ s.touch i t = s) ∨
    (∃ key, t = .read key ∧ s.writeOwners key = some i ∧ s.touch i t = s) := by
  cases t with
  | write key =>
    cases howner : s.writeOwners key with
    | some o => exact .inl ⟨o, howner, by simp only [touch, howner, merged]⟩
    | none => exact .inr (.inl ⟨key, rfl, howner, by simp only [touch, howner, claimed]⟩)
  | read key =>
    cases howner : s.writeOwners key with
    | none => exact .inr (.inr (.inl ⟨key, rfl, howner, by simp only [touch, howner]⟩))
    | some o =>
      by_cases hself : o = i
      · subst hself
        refine .inr (.inr (.inr ⟨key, rfl, howner, ?_⟩))
        simp [touch, howner]
      · refine .inl ⟨o, howner, ?_⟩
        simp [touch, howner, hself, merged]

theorem visit_none_cases [DecidableEq κ] (s : Scheduler κ) (i : Nat) :
    (∃ rep, s.unknownRepresentative = some rep ∧ s.visit i none = s.merged i rep) ∨
      (s.unknownRepresentative = none ∧
      s.visit i none = { s with unknownRepresentative := some i }) := by
  cases hrep : s.unknownRepresentative with
  | some rep => exact .inl ⟨rep, rfl, by simp only [visit, hrep, merged]⟩
  | none => exact .inr ⟨rfl, by simp only [visit, hrep]⟩

theorem claimed_owner [DecidableEq κ] {s : Scheduler κ} {o : Nat} {key key' : κ}
    (h : (s.claimed i key).writeOwners key' = some o) : (key' = key ∧ o = i) ∨ s.writeOwners key' = some o := by
  simp only [claimed] at h
  by_cases hkey : key' = key
  · subst hkey
    rw [update_self] at h
    injection h with h
    exact .inl ⟨rfl, h.symm⟩
  · rw [update_of_ne hkey] at h
    exact .inr h

/-- Owners found so far come no later than the item being looked at. -/
def OwnersUpTo (i : Nat) (s : Scheduler κ) : Prop := ∀ key o, s.writeOwners key = some o → o ≤ i

section

variable [DecidableEq κ] {s : Scheduler κ} (h : OwnersUpTo i s)
include h

theorem OwnersUpTo.touch (t : Touch κ) : OwnersUpTo i (s.touch i t) := by
  rcases touch_cases s i t with ⟨o, _, heq⟩ | ⟨key, _, _, heq⟩ | ⟨key, _, _, heq⟩ | ⟨key, _, _, heq⟩
  · rw [heq]
    exact h
  · rw [heq]
    intro key' o ho
    rcases claimed_owner ho with ⟨_, rfl⟩ | hold
    · exact Nat.le_refl o
    · exact h key' o hold
  · rw [heq]
    exact h
  · rw [heq]
    exact h

theorem OwnersUpTo.touchAll (touches : List (Touch κ)) : OwnersUpTo i (touches.foldl (Scheduler.touch i) s) := by
  induction touches generalizing s with
  | nil => exact h
  | cons t touches ih => exact ih (h.touch t)

theorem OwnersUpTo.visit (v : Visit κ) : OwnersUpTo i (s.visit i v) := by
  cases v with
  | some touches => exact h.touchAll touches
  | none =>
    rcases visit_none_cases s i with ⟨rep, _, heq⟩ | ⟨_, heq⟩
    · rw [heq]
      exact h
    · rw [heq]
      exact h

end

theorem OwnersUpTo.succ {s : Scheduler κ} (h : OwnersUpTo i s) : OwnersUpTo (i + 1) s :=
  fun key o ho => Nat.le_succ_of_le (h key o ho)

/-! ### Soundness: only linked items are merged -/

/-- Owners do write the keys they own, the representative is an unknown item, and all classes lie
inside the relation generated by the links. -/
structure Sound (visits : List (Visit κ)) (s : Scheduler κ) : Prop where
  owner : ∀ key o, s.writeOwners key = some o → WritesAt visits o key
  representative : ∀ rep, s.unknownRepresentative = some rep → visits[rep]? = some none
  classes : ∀ a b, s.uf.Equiv a b → Relation.EqvGen (Linked visits) a b

theorem sound_start (visits : List (Visit κ)) : Sound visits (start visits.length) where
  owner := by simp [start]
  representative := by simp [start]
  classes := by
    intro a b h
    rw [start, equiv_singletons] at h
    subst h
    exact Relation.EqvGen.refl a

theorem Sound.merged {visits : List (Visit κ)} {s : Scheduler κ} (h : Sound visits s)
    (hab : Relation.EqvGen (Linked visits) a b) : Sound visits (s.merged a b) :=
  ⟨h.owner, h.representative, fun _ _ =>
    related_of_equiv_merge (Relation.EqvGen.is_equivalence _) h.classes hab⟩

section

variable [DecidableEq κ] {visits : List (Visit κ)}

theorem Sound.touch {s : Scheduler κ} (h : Sound visits s) (hupto : OwnersUpTo i s) {touches : List (Touch κ)}
    (hi : visits[i]? = some (some touches)) {t : Touch κ} (ht : t ∈ touches) : Sound visits (s.touch i t) := by
  have htouch : TouchesAt visits i t.key := by
    cases t with
    | write key => exact ⟨touches, hi, .inl ht⟩
    | read key => exact ⟨touches, hi, .inr ht⟩
  rcases touch_cases s i t with
    ⟨o, howner, heq⟩ | ⟨key, rfl, _, heq⟩ | ⟨key, _, _, heq⟩ | ⟨key, _, _, heq⟩
  · rw [heq]
    apply h.merged
    rcases Nat.lt_or_eq_of_le (hupto _ o howner) with hlt | rfl
    · exact Relation.EqvGen.rel i o (.inl ⟨hlt, _, h.owner _ o howner, htouch⟩)
    · exact Relation.EqvGen.refl o
  · rw [heq]
    refine ⟨?_, h.representative, h.classes⟩
    intro key' o ho
    rcases claimed_owner ho with ⟨rfl, rfl⟩ | hold
    · exact ⟨touches, hi, ht⟩
    · exact h.owner key' o hold
  · rw [heq]
    exact h
  · rw [heq]
    exact h

theorem Sound.touchAll {touches : List (Touch κ)} (hi : visits[i]? = some (some touches)) {rest : List (Touch κ)}
    (hrest : ∀ t ∈ rest, t ∈ touches) {s : Scheduler κ} (h : Sound visits s) (hupto : OwnersUpTo i s) :
    Sound visits (rest.foldl (Scheduler.touch i) s) := by
  induction rest generalizing s with
  | nil => exact h
  | cons t rest ih =>
    exact ih (fun t' ht' => hrest t' (mem_cons_of_mem t ht'))
      (h.touch hupto hi (hrest t mem_cons_self)) (hupto.touch t)

theorem Sound.visit {s : Scheduler κ} (h : Sound visits s) (hupto : OwnersUpTo i s) {v : Visit κ}
    (hi : visits[i]? = some v) : Sound visits (s.visit i v) := by
  cases v with
  | some touches => exact h.touchAll hi (fun _ ht => ht) hupto
  | none =>
    obtain ⟨hlt, heq⟩ := List.getElem?_eq_some_iff.mp hi
    have hunknown : none ∈ visits := heq ▸ getElem_mem hlt
    rcases visit_none_cases s i with ⟨rep, hrep, hvisit⟩ | ⟨_, hvisit⟩
    · rw [hvisit]
      obtain ⟨hrlt, _⟩ := List.getElem?_eq_some_iff.mp (h.representative rep hrep)
      exact h.merged (Relation.EqvGen.rel i rep (.inr ⟨hunknown, hlt, hrlt⟩))
    rw [hvisit]
    refine ⟨h.owner, ?_, h.classes⟩
    intro rep hrep
    injection hrep with hrep
    exact hrep ▸ hi

end

/-! ### Completeness: linked items are merged -/

/-- `s'` has forgotten nothing that `s` knows. -/
structure Extends (s s' : Scheduler κ) : Prop where
  size : s'.uf.size = s.uf.size
  classes : ∀ a b, s.uf.Equiv a b → s'.uf.Equiv a b
  owners : ∀ key o, s.writeOwners key = some o → s'.writeOwners key = some o
  representative : ∀ rep, s.unknownRepresentative = some rep → s'.unknownRepresentative = some rep

theorem Extends.refl (s : Scheduler κ) : Extends s s := ⟨rfl, fun _ _ h => h, fun _ _ h => h, fun _ h => h⟩

theorem Extends.trans {s s' s'' : Scheduler κ} (h : Extends s s') (h' : Extends s' s'') : Extends s s'' :=
  ⟨h'.size.trans h.size, fun a b hab => h'.classes a b (h.classes a b hab),
    fun key o ho => h'.owners key o (h.owners key o ho),
    fun rep hrep => h'.representative rep (h.representative rep hrep)⟩

theorem extends_merged (s : Scheduler κ) (a b : Nat) : Extends s (s.merged a b) :=
  ⟨size_merge _ _ _, fun _ _ => equiv_merge_mono, fun _ _ h => h, fun _ h => h⟩

theorem extends_claimed [DecidableEq κ] {s : Scheduler κ} {key : κ} (hfree : s.writeOwners key = none)
    (i : Nat) : Extends s (s.claimed i key) := by
  refine ⟨rfl, fun _ _ h => h, ?_, fun _ h => h⟩
  intro key' o ho
  have hkey : key' ≠ key := by
    rintro rfl
    rw [hfree] at ho
    cases ho
  simp only [claimed, update_of_ne hkey]
  exact ho

section

variable [DecidableEq κ] (s : Scheduler κ) (i : Nat)

theorem extends_touch (t : Touch κ) : Extends s (s.touch i t) := by
  rcases touch_cases s i t with
    ⟨o, _, heq⟩ | ⟨key, _, hfree, heq⟩ | ⟨key, _, _, heq⟩ | ⟨key, _, _, heq⟩
  · exact heq ▸ extends_merged s i o
  · exact heq ▸ extends_claimed hfree i
  · exact heq.symm ▸ Extends.refl s
  · exact heq.symm ▸ Extends.refl s

theorem extends_touchAll (touches : List (Touch κ)) : Extends s (touches.foldl (touch i) s) := by
  induction touches generalizing s with
  | nil => exact Extends.refl s
  | cons t touches ih => exact (extends_touch s i t).trans (ih (s.touch i t))

theorem extends_visit (v : Visit κ) : Extends s (s.visit i v) := by
  cases v with
  | some touches => exact extends_touchAll s i touches
  | none =>
    rcases visit_none_cases s i with ⟨rep, _, heq⟩ | ⟨hnone, heq⟩
    · exact heq ▸ extends_merged s i rep
    rw [heq]
    refine ⟨rfl, fun _ _ h => h, fun _ _ h => h, ?_⟩
    intro rep hrep
    rw [hnone] at hrep
    cases hrep

end

/-- Item `i` is in the class of the owner of `key`. -/
def WithOwner (s : Scheduler κ) (i : Nat) (key : κ) : Prop := ∃ o, s.writeOwners key = some o ∧ s.uf.Equiv i o

theorem WithOwner.extend {s s' : Scheduler κ} {key : κ} (h : WithOwner s i key) (hext : Extends s s') :
    WithOwner s' i key := by
  obtain ⟨o, ho, heq⟩ := h
  exact ⟨o, hext.owners key o ho, hext.classes i o heq⟩

/-- A touch puts the item with the owner of the key, unless it only reads a key that nobody owns. -/
theorem withOwner_touch [DecidableEq κ] {s : Scheduler κ} (hi : i < s.uf.size) (hupto : OwnersUpTo i s) {t : Touch κ}
    (howned : (∃ key, t = .write key) ∨ s.writeOwners t.key ≠ none) : WithOwner (s.touch i t) i t.key := by
  rcases touch_cases s i t with
    ⟨o, howner, heq⟩ | ⟨key, rfl, _, heq⟩ | ⟨key, rfl, hfree, _⟩ | ⟨key, rfl, howner, heq⟩
  · rw [heq]
    have ho : o < s.uf.size := Nat.lt_of_le_of_lt (hupto _ o howner) hi
    exact ⟨o, howner, equiv_merge_self hi ho⟩
  · rw [heq]
    exact ⟨i, update_self .., UnionFind.Equiv.rfl⟩
  · rcases howned with ⟨key', hwrite⟩ | howned
    · cases hwrite
    · exact absurd hfree howned
  · rw [heq]
    exact ⟨i, howner, UnionFind.Equiv.rfl⟩

/-- After all its touches an item is with the owner of every key it writes, and of every key it reads
that had an owner before. -/
theorem withOwner_touchAll [DecidableEq κ] {touches : List (Touch κ)} {s : Scheduler κ} (hi : i < s.uf.size)
    (hupto : OwnersUpTo i s) {t : Touch κ} (ht : t ∈ touches)
    (howned : (∃ key, t = .write key) ∨ s.writeOwners t.key ≠ none) :
    WithOwner (touches.foldl (touch i) s) i t.key := by
  induction touches generalizing s with
  | nil => cases ht
  | cons t' touches ih =>
    have hext := extends_touch s i t'
    rcases List.mem_cons.mp ht with rfl | ht
    · exact (withOwner_touch hi hupto howned).extend (extends_touchAll _ i touches)
    refine ih (hext.size ▸ hi) (hupto.touch t') ht ?_
    refine howned.imp id fun howned => ?_
    obtain ⟨o, ho⟩ := Option.ne_none_iff_exists'.mp howned
    rw [hext.owners _ o ho]
    simp

theorem withOwner_visit [DecidableEq κ] {visits : List (Visit κ)} {s : Scheduler κ} (hi : i < s.uf.size)
    (hupto : OwnersUpTo i s) {v : Visit κ} (hv : visits[i]? = some v) {key : κ}
    (howned : WritesAt visits i key ∨ (TouchesAt visits i key ∧ s.writeOwners key ≠ none)) :
    WithOwner (s.visit i v) i key := by
  have htouch : TouchesAt visits i key := howned.elim WritesAt.touchesAt And.left
  obtain ⟨touches, hat, hmem⟩ := htouch
  rw [hv] at hat
  injection hat with hat
  subst hat
  rcases howned with ⟨touches', hat', hwrite⟩ | ⟨_, howned⟩
  · rw [hv] at hat'
    cases hat'
    exact withOwner_touchAll hi hupto hwrite (.inl ⟨key, rfl⟩)
  rcases hmem with hmem | hmem
  · exact withOwner_touchAll hi hupto hmem (.inr howned)
  · exact withOwner_touchAll hi hupto hmem (.inr howned)

/-- What is settled once the items before `i` have been looked at. -/
structure Settled (visits : List (Visit κ)) (i : Nat) (s : Scheduler κ) : Prop where
  sound : Sound visits s
  size : s.uf.size = visits.length
  upTo : OwnersUpTo i s
  writers : ∀ b < i, ∀ key, WritesAt visits b key → WithOwner s b key
  linked : ∀ a < i, ∀ b < a, ∀ key, WritesAt visits b key → TouchesAt visits a key → s.uf.Equiv a b
  unknown : ∀ u < i, visits[u]? = some none → s.unknownRepresentative ≠ none

theorem settled_start (visits : List (Visit κ)) : Settled visits 0 (start visits.length) where
  sound := sound_start visits
  size := size_singletons _
  upTo := by simp [OwnersUpTo, start]
  writers := by simp
  linked := by simp
  unknown := by simp

theorem Settled.visit [DecidableEq κ] {visits : List (Visit κ)} {s : Scheduler κ} (h : Settled visits i s)
    {v : Visit κ} (hi : visits[i]? = some v) :
    Settled visits (i + 1) (s.visit i v) := by
  obtain ⟨hlt, _⟩ := List.getElem?_eq_some_iff.mp hi
  have hext := extends_visit s i v
  have hsize : i < s.uf.size := h.size ▸ hlt
  constructor
  case sound => exact h.sound.visit h.upTo hi
  case size => rw [hext.size, h.size]
  case upTo => exact (h.upTo.visit v).succ
  case writers =>
    intro b hb key hwrites
    rcases Nat.lt_succ_iff_lt_or_eq.mp hb with hb | rfl
    · exact (h.writers b hb key hwrites).extend hext
    · exact withOwner_visit hsize h.upTo hi (.inl hwrites)
  case linked =>
    intro a ha b hb key hwrites htouches
    rcases Nat.lt_succ_iff_lt_or_eq.mp ha with ha | rfl
    · exact hext.classes a b (h.linked a ha b hb key hwrites htouches)
    -- both are with the owner of the key
    obtain ⟨o, howner, hbo⟩ := h.writers b hb key hwrites
    obtain ⟨o', howner', hao⟩ := withOwner_visit hsize h.upTo hi (.inr ⟨htouches, by simp [howner]⟩)
    rw [hext.owners key o howner] at howner'
    cases howner'
    exact hao.trans (hext.classes b o hbo).symm
  case unknown =>
    intro u hu hunknown
    rcases Nat.lt_succ_iff_lt_or_eq.mp hu with hu | rfl
    · obtain ⟨rep, hrep⟩ := Option.ne_none_iff_exists'.mp (h.unknown u hu hunknown)
      simp [hext.representative rep hrep]
    rw [hi] at hunknown
    cases hunknown
    rcases visit_none_cases s u with ⟨rep, hrep, heq⟩ | ⟨_, heq⟩
    · rw [heq]
      simp [merged, hrep]
    · rw [heq]
      simp

theorem Settled.visitAll [DecidableEq κ] {visits vs : List (Visit κ)} (hvs : visits.drop i = vs) {s : Scheduler κ}
    (h : Settled visits i s) : Settled visits (i + vs.length) (s.visitAll i vs) := by
  induction vs generalizing i s with
  | nil => exact h
  | cons v vs ih =>
    have hi : visits[i]? = some v := by rw [← List.head?_drop, hvs, List.head?_cons]
    have hnext : visits.drop (i + 1) = vs := by rw [← tail_drop, hvs, tail_cons]
    have hrest := ih hnext (h.visit hi)
    rw [Nat.add_right_comm, Nat.add_assoc] at hrest
    exact hrest

end Scheduler

/-! ### The classes -/

/-- The classes are exactly the equivalence closure of the links. -/
theorem equiv_conflictClasses_iff [DecidableEq κ] (visits : List (Visit κ)) :
    (conflictClasses visits).Equiv a b ↔ Relation.EqvGen (Linked visits) a b := by
  have hsettled : Scheduler.Settled visits (0 + visits.length) _ :=
    (Scheduler.settled_start visits).visitAll drop_zero
  rw [Nat.zero_add] at hsettled
  set s := (Scheduler.start visits.length).visitAll 0 visits with hs
  have hclosed : ∀ uf : UnionFind, (∀ a b, s.uf.Equiv a b → uf.Equiv a b) →
      (none ∈ visits → ∀ a < visits.length, ∀ b < visits.length, uf.Equiv a b) →
      ∀ {a b}, Relation.EqvGen (Linked visits) a b → uf.Equiv a b := by
    intro uf hmono hunknown a b hab
    induction hab with
    | rel a b h =>
      rcases h with ⟨hlt, key, hwrites, htouches⟩ | ⟨hmem, ha, hb⟩
      · have ha : a < visits.length := htouches.lt
        exact hmono a b (hsettled.linked a ha b hlt key hwrites htouches)
      · exact hunknown hmem a ha b hb
    | refl a => exact UnionFind.Equiv.rfl
    | symm a b _ ih => exact ih.symm
    | trans a b c _ _ ih ih' => exact ih.trans ih'
  unfold conflictClasses Scheduler.joinUnknown
  rw [← hs]
  cases hrep : s.unknownRepresentative with
  | none =>
    refine ⟨hsettled.sound.classes a b, hclosed s.uf (fun _ _ h => h) ?_⟩
    intro hmem
    obtain ⟨u, hu, heq⟩ := getElem_of_mem hmem
    exact absurd hrep (hsettled.unknown u hu (List.getElem?_eq_some_iff.mpr ⟨hu, heq⟩))
  | some rep =>
    obtain ⟨hrlt, hrnone⟩ := List.getElem?_eq_some_iff.mp (hsettled.sound.representative rep hrep)
    have hunknown : none ∈ visits := hrnone ▸ getElem_mem hrlt
    obtain ⟨hmono, hall, hsound⟩ := mergeAllWith_spec (l := List.range visits.length)
      (Relation.EqvGen.is_equivalence (Linked visits)) (hsettled.size.symm ▸ hrlt)
      (fun i hi => hsettled.size.symm ▸ List.mem_range.mp hi) hsettled.sound.classes
      (fun i hi => Relation.EqvGen.rel i rep (.inr ⟨hunknown, List.mem_range.mp hi, hrlt⟩))
    refine ⟨hsound a b, hclosed _ hmono ?_⟩
    intro _ a ha b hb
    exact (hall a (List.mem_range.mpr ha)).trans (hall b (List.mem_range.mpr hb)).symm

/-! ### Collecting the classes into groups -/

section Collect

variable {α ι : Type*} [DecidableEq ι]

/-- Put `a` at the end of the entry of `k`, which is made if there is none. -/
def addTo (k : ι) (a : α) : List (ι × List α) → List (ι × List α)
  | [] => [(k, [a])]
  | c :: rest => if c.1 = k then (k, c.2 ++ [a]) :: rest else c :: addTo k a rest

/-- The elements of a list by their value under `f`. -/
def collect (f : α → ι) (l : List α) : List (ι × List α) := l.foldl (fun comps a => addTo (f a) a comps) []

theorem collect_concat (f : α → ι) (l : List α) (a : α) : collect f (l ++ [a]) = addTo (f a) a (collect f l) := by
  simp [collect]

theorem mem_addTo_cases {k : ι} {a : α} {comps : List (ι × List α)}
    (hnodup : (comps.map Prod.fst).Nodup) {c : ι × List α} (hc : c ∈ addTo k a comps) :
    (c.1 ≠ k ∧ c ∈ comps) ∨ (∃ as, (k, as) ∈ comps ∧ c = (k, as ++ [a])) ∨
      (k ∉ comps.map Prod.fst ∧ c = (k, [a])) := by
  induction comps with
  | nil =>
    rw [addTo, mem_singleton] at hc
    exact .inr (.inr ⟨by simp, hc⟩)
  | cons d rest ih =>
    rw [map_cons, nodup_cons] at hnodup
    by_cases hd : d.1 = k
    · rw [addTo, if_pos hd, mem_cons] at hc
      rcases hc with rfl | hc
      · exact .inr (.inl ⟨d.2, by simp [← hd], rfl⟩)
      refine .inl ⟨?_, mem_cons_of_mem d hc⟩
      rintro rfl
      exact hnodup.1 (hd ▸ mem_map_of_mem hc)
    rw [addTo, if_neg hd, mem_cons] at hc
    rcases hc with rfl | hc
    · exact .inl ⟨hd, mem_cons_self⟩
    rcases ih hnodup.2 hc with ⟨hne, hmem⟩ | ⟨as, hmem, heq⟩ | ⟨hnew, heq⟩
    · exact .inl ⟨hne, mem_cons_of_mem d hmem⟩
    · exact .inr (.inl ⟨as, mem_cons_of_mem d hmem, heq⟩)
    refine .inr (.inr ⟨?_, heq⟩)
    rw [map_cons, mem_cons, not_or]
    exact ⟨fun h => hd h.symm, hnew⟩

theorem keys_addTo (k : ι) (a : α) (comps : List (ι × List α)) :
    (addTo k a comps).map Prod.fst =
      if k ∈ comps.map Prod.fst then comps.map Prod.fst else comps.map Prod.fst ++ [k] := by
  induction comps with
  | nil => rfl
  | cons d rest ih =>
    by_cases hd : d.1 = k
    · simp [addTo, hd]
    rw [addTo, if_neg hd, map_cons, ih]
    by_cases hk : k ∈ rest.map Prod.fst
    · simp [hk]
    have hk' : k ∉ (d :: rest).map Prod.fst := by
      rw [map_cons, mem_cons, not_or]
      exact ⟨fun h => hd h.symm, hk⟩
    rw [if_neg hk, if_neg hk', map_cons, cons_append]

theorem flatten_addTo_perm (k : ι) (a : α) (comps : List (ι × List α)) :
    ((addTo k a comps).map Prod.snd).flatten.Perm ((comps.map Prod.snd).flatten ++ [a]) := by
  induction comps with
  | nil => simp [addTo]
  | cons d rest ih =>
    by_cases hd : d.1 = k
    · rw [addTo, if_pos hd]
      simp only [map_cons, flatten_cons, append_assoc]
      exact List.perm_append_comm.append_left d.2
    rw [addTo, if_neg hd]
    simp only [map_cons, flatten_cons, append_assoc]
    exact ih.append_left d.2

/-- The table holds the list's elements, class by class and in the list's order. -/
structure Collected (f : α → ι) (l : List α) (comps : List (ι × List α)) : Prop where
  nodup : (comps.map Prod.fst).Nodup
  members : ∀ c ∈ comps, c.2 = l.filter (f · = c.1)
  inhabited : ∀ c ∈ comps, c.2 ≠ []
  covered : ∀ a ∈ l, f a ∈ comps.map Prod.fst
  perm : (comps.map Prod.snd).flatten.Perm l

theorem Collected.addTo {f : α → ι} {l : List α} {comps : List (ι × List α)} (h : Collected f l comps)
    (a : α) :
    Collected f (l ++ [a]) (ConflictGroups.addTo (f a) a comps) := by
  constructor
  case nodup =>
    rw [keys_addTo]
    split
    · exact h.nodup
    rename_i hnew
    exact List.nodup_append.mpr ⟨h.nodup, nodup_singleton _, by
      rintro x hx y hy rfl
      exact hnew (List.mem_singleton.mp hy ▸ hx)⟩
  case members =>
    intro c hc
    rw [filter_append]
    rcases mem_addTo_cases h.nodup hc with ⟨hne, hmem⟩ | ⟨as, hmem, rfl⟩ | ⟨hnew, rfl⟩
    · have hlast : [a].filter (f · = c.1) = [] := by simp [hne.symm]
      rw [hlast, append_nil]
      exact h.members c hmem
    · have hlast : [a].filter (f · = f a) = [a] := by simp
      rw [hlast]
      exact congrArg (· ++ [a]) (h.members _ hmem)
    have hlast : [a].filter (f · = f a) = [a] := by simp
    have hfirst : l.filter (f · = f a) = [] := by
      rw [filter_eq_nil_iff]
      intro b hb heq
      exact hnew (of_decide_eq_true heq ▸ h.covered b hb)
    rw [hlast, hfirst, nil_append]
  case inhabited =>
    intro c hc
    rcases mem_addTo_cases h.nodup hc with ⟨_, hmem⟩ | ⟨as, _, rfl⟩ | ⟨_, rfl⟩
    · exact h.inhabited c hmem
    · simp
    · simp
  case covered =>
    intro b hb
    rw [keys_addTo]
    rcases List.mem_append.mp hb with hb | hb
    · split
      · exact h.covered b hb
      · exact mem_append_left _ (h.covered b hb)
    rw [mem_singleton] at hb
    subst hb
    split
    · assumption
    · exact mem_append_right _ mem_cons_self
  case perm =>
    exact (flatten_addTo_perm (f a) a comps).trans (h.perm.append_right [a])

theorem collected_collect (f : α → ι) (l : List α) : Collected f l (collect f l) := by
  induction l using List.reverseRecOn with
  | nil => exact ⟨nodup_nil, by simp [collect], by simp [collect], by simp, List.Perm.refl _⟩
  | append_singleton l a ih =>
    rw [collect_concat]
    exact ih.addTo a

theorem Collected.mem_iff {f : α → ι} {l : List α} {comps : List (ι × List α)} (h : Collected f l comps)
    {c : ι × List α} : c ∈ comps ↔ c.2 = l.filter (f · = c.1) ∧ c.2 ≠ [] := by
  refine ⟨fun hc => ⟨h.members c hc, h.inhabited c hc⟩, ?_⟩
  rintro ⟨hmembers, hne⟩
  obtain ⟨a, ha⟩ := exists_mem_of_ne_nil _ hne
  rw [hmembers, mem_filter, decide_eq_true_iff] at ha
  obtain ⟨d, hd, hkey⟩ := List.mem_map.mp (h.covered a ha.1)
  have heq : d = c := Prod.ext (hkey.trans ha.2) (by rw [h.members d hd, hmembers, hkey, ha.2])
  exact heq ▸ hd

/-- The table in the order of its keys is the one list of classes whose keys increase. -/
theorem Collected.insertionSort_eq {f : α → ι} {l : List α} {comps classes : List (ι × List α)}
    (h : Collected f l comps) {rank : ι → Nat} (hrank : Function.Injective rank)
    (hclasses : classes.Pairwise (rank ·.1 < rank ·.1))
    (hmem : ∀ c, c ∈ classes ↔ c.2 = l.filter (f · = c.1) ∧ c.2 ≠ []) :
    comps.insertionSort (rank ·.1 ≤ rank ·.1) = classes := by
  have hle := pairwise_insertionSort (Order.Preimage (fun c : ι × List α => rank c.1) (· ≤ ·)) comps
  have hne := pairwise_map.mp (((perm_insertionSort (rank ·.1 ≤
      rank ·.1) comps).map Prod.fst).nodup_iff.mpr h.nodup)
  have hlt : (comps.insertionSort (rank ·.1 ≤ rank ·.1)).Pairwise
      (Order.Preimage (fun c : ι × List α => rank c.1) (· < ·)) :=
    (hle.and hne).imp fun hcd => Nat.lt_of_le_of_ne hcd.1 fun heq => hcd.2 (hrank heq)
  refine hlt.eq_of_mem_iff hclasses fun c => ?_
  rw [mem_insertionSort, h.mem_iff, hmem]

end Collect

/-- The classes of the first `n` numbers as groups, by their first member. -/
def groups (uf : UnionFind) (n : Nat) : List (List Nat) :=
  ((collect uf.rootD (List.range n)).map Prod.snd).insertionSort fun g h => g.headD 0 ≤ h.headD 0

theorem groups_perm (uf : UnionFind) (n : Nat) : (groups uf n).Perm ((collect uf.rootD (List.range n)).map Prod.snd) :=
  perm_insertionSort _ _

/-- Every number below `n` is in exactly one group, once. -/
theorem groups_flatten_perm (uf : UnionFind) (n : Nat) : (groups uf n).flatten.Perm (List.range n) :=
  (groups_perm uf n).flatten.trans (collected_collect _ _).perm

theorem mem_groups_iff {g : List Nat} : g ∈ groups uf n ↔ ∃ c ∈ collect uf.rootD (List.range n), c.2 = g := by
  rw [(groups_perm uf n).mem_iff, mem_map]

theorem groups_ascending {g : List Nat} (hg : g ∈ groups uf n) : g ≠ [] ∧ g.Pairwise (· < ·) := by
  obtain ⟨c, hc, rfl⟩ := mem_groups_iff.mp hg
  have hcollected := collected_collect uf.rootD (List.range n)
  refine ⟨hcollected.inhabited c hc, ?_⟩
  rw [hcollected.members c hc]
  exact List.pairwise_lt_range.filter _

/-- Two numbers are in one group exactly when they are in one class. -/
theorem sameGroup_iff (ha : a < n) (hb : b < n) : (∃ g ∈ groups uf n, a ∈ g ∧ b ∈ g) ↔ uf.Equiv a b := by
  have hcollected := collected_collect uf.rootD (List.range n)
  constructor
  · rintro ⟨g, hg, hag, hbg⟩
    obtain ⟨c, hc, rfl⟩ := mem_groups_iff.mp hg
    rw [hcollected.members c hc, mem_filter, decide_eq_true_iff] at hag hbg
    exact hag.2.trans hbg.2.symm
  · intro hequiv
    obtain ⟨c, hc, hroot⟩ := List.mem_map.mp (hcollected.covered a (List.mem_range.mpr ha))
    refine ⟨c.2, mem_groups_iff.mpr ⟨c, hc, rfl⟩, ?_⟩
    rw [hcollected.members c hc, mem_filter, mem_filter, decide_eq_true_iff, decide_eq_true_iff, mem_range, mem_range]
    exact ⟨⟨ha, hroot.symm⟩, hb, Eq.trans hequiv.symm hroot.symm⟩

end ConflictGroups
