/-
Module: Pyde.Library.StateProgram
Purpose: Programs that read and write a key-value store, with the trace of keys a run touches, and programs that may
  fail.
Trusted boundary: none
-/
import Mathlib.Data.Set.Function
import Mathlib.Logic.Function.Basic

namespace StateProgram

open List Function

variable {κ ℓ ν α β σ : Type}

/-! ### Programs -/

/-- A program over a store with keys `κ` and values `ν`. -/
inductive Prog (κ ν α : Type) where
  | pure (a : α)
  | get (key : κ) (next : Option ν → Prog κ ν α)
  | put (key : κ) (value : ν) (next : Prog κ ν α)

inductive Query (κ ν α : Type) where
  | pure (a : α)
  | get (key : κ) (next : Option ν → Query κ ν α)

namespace Prog

def bind : Prog κ ν α → (α → Prog κ ν β) → Prog κ ν β
  | pure a, f => f a
  | get key next, f => get key fun v => (next v).bind f
  | put key value next, f => put key value (next.bind f)

instance : Monad (Prog κ ν) where
  pure := Prog.pure
  bind := Prog.bind

def read (key : κ) : Prog κ ν (Option ν) := get key pure

def write (key : κ) (value : ν) : Prog κ ν Unit := put key value (pure ())

end Prog

def Query.toProg : Query κ ν α → Prog κ ν α
  | pure a => .pure a
  | get key next => .get key fun v => (next v).toProg

/-! ### Running a program -/

/-- Where a program runs: something that can be asked for a location and told a value for it. -/
structure Backend (σ ℓ ν : Type) where
  get : σ → ℓ → Option ν
  put : σ → ℓ → ν → σ

/-- Run a program, with `loc` telling where a key is stored. -/
def runOn (B : Backend σ ℓ ν) (loc : κ → ℓ) : Prog κ ν α → σ → α × σ
  | .pure a, s => (a, s)
  | .get key next, s => runOn B loc (next (B.get s (loc key))) s
  | .put key value next, s => runOn B loc next (B.put s (loc key) value)

theorem runOn_bind (B : Backend σ ℓ ν) (loc : κ → ℓ) (p : Prog κ ν α) (f : α → Prog κ ν β) (s : σ) :
    runOn B loc (p >>= f) s = runOn B loc (f (runOn B loc p s).1) (runOn B loc p s).2 := by
  change runOn B loc (p.bind f) s = _
  induction p generalizing s with
  | pure a => rfl
  | get key next ih => exact ih _ s
  | put key value next ih => exact ih _

/-- `view` makes every operation of one backend an operation of the other. -/
structure Simulates {σ' : Type} (view : σ → σ') (B : Backend σ ℓ ν) (B' : Backend σ' ℓ ν) : Prop where
  get : ∀ s l, B.get s l = B'.get (view s) l
  put : ∀ s l v, view (B.put s l v) = B'.put (view s) l v

theorem runOn_simulates {σ' : Type} {view : σ → σ'} {B : Backend σ ℓ ν} {B' : Backend σ' ℓ ν}
    (h : Simulates view B B') (loc : κ → ℓ) (p : Prog κ ν α) (s : σ) :
    (runOn B loc p s).1 = (runOn B' loc p (view s)).1 ∧ view (runOn B loc p s).2 = (runOn B' loc p (view s)).2 := by
  induction p generalizing s with
  | pure a => exact ⟨rfl, rfl⟩
  | get key next ih =>
    simp only [runOn, h.get]
    exact ih _ s
  | put key value next ih =>
    simp only [runOn, ← h.put]
    exact ih _

theorem runOn_invariant {B : Backend σ ℓ ν} {I : σ → Prop} (hput : ∀ s l v, I s → I (B.put s l v))
    (loc : κ → ℓ) (p : Prog κ ν α) {s : σ} (hs : I s) : I (runOn B loc p s).2 := by
  induction p generalizing s with
  | pure a => exact hs
  | get key next ih => exact ih _ hs
  | put key value next ih => exact ih (hput s (loc key) value hs)

/-! ### Plain stores -/

abbrev Store (ℓ ν : Type) := ℓ → Option ν

section Store

variable [DecidableEq ℓ] (norm : ν → Option ν) (loc : κ → ℓ)

/-- Store a value; it reads back as `norm` says, so that a value may stand for deletion. -/
def insert (s : Store ℓ ν) (l : ℓ) (v : ν) : Store ℓ ν := Function.update s l (norm v)

def storeBackend : Backend (Store ℓ ν) ℓ ν where
  get s l := s l
  put := insert norm

def run (p : Prog κ ν α) (s : Store ℓ ν) : α × Store ℓ ν := runOn (storeBackend norm) loc p s

def writes : Prog κ ν α → Store ℓ ν → List (κ × ν)
  | .pure _, _ => []
  | .get key next, s => writes (next (s (loc key))) s
  | .put key value next, s => (key, value) :: writes next (insert norm s (loc key) value)

/-- The keys a run reads, in order. -/
def reads : Prog κ ν α → Store ℓ ν → List κ
  | .pure _, _ => []
  | .get key next, s => key :: reads (next (s (loc key))) s
  | .put key value next, s => reads next (insert norm s (loc key) value)

def replay (log : List (κ × ν)) (s : Store ℓ ν) :
    Store ℓ ν := log.foldl (fun s w => insert norm s (loc w.1) w.2) s

@[simp] theorem run_pure (a : α) (s : Store ℓ ν) : run norm loc (pure a : Prog κ ν α) s = (a, s) := rfl

@[simp] theorem run_read (key : κ) (s : Store ℓ ν) : run norm loc (Prog.read key) s = (s (loc key), s) := rfl

@[simp] theorem run_write (key : κ) (value : ν) (s : Store ℓ ν) :
    run norm loc (Prog.write key value) s = ((), insert norm s (loc key) value) := rfl

@[simp] theorem run_bind (p : Prog κ ν α) (f : α → Prog κ ν β) (s : Store ℓ ν) :
    run norm loc (p >>= f) s = run norm loc (f (run norm loc p s).1) (run norm loc p s).2 :=
  runOn_bind _ _ _ _ _

@[simp] theorem writes_bind (p : Prog κ ν α) (f : α → Prog κ ν β) (s : Store ℓ ν) :
    writes norm loc (p >>= f) s =
      writes norm loc p s ++ writes norm loc (f (run norm loc p s).1) (run norm loc p s).2 := by
  change writes norm loc (p.bind f) s = _
  induction p generalizing s with
  | pure a => rfl
  | get key next ih => exact ih _ s
  | put key value next ih => exact congrArg _ (ih _)

theorem replay_append (log log' : List (κ × ν)) (s : Store ℓ ν) :
    replay norm loc (log ++ log') s = replay norm loc log' (replay norm loc log s) :=
  foldl_append ..

theorem run_snd (p : Prog κ ν α) (s : Store ℓ ν) :
    (run norm loc p s).2 = replay norm loc (writes norm loc p s) s := by
  induction p generalizing s with
  | pure a => rfl
  | get key next ih => exact ih _ s
  | put key value next ih => exact ih _

theorem replay_of_untouched {log : List (κ × ν)} {l : ℓ} (h : ∀ w ∈ log, loc w.1 ≠ l) (s : Store ℓ ν) :
    replay norm loc log s l = s l := by
  induction log generalizing s with
  | nil => rfl
  | cons w log ih =>
    rw [forall_mem_cons] at h
    have htail := ih h.2 (insert norm s (loc w.1) w.2)
    rw [insert, update_of_ne h.1.symm] at htail
    exact htail

variable {p : Prog κ ν α} {f : α → Prog κ ν β} {s s' : Store ℓ ν}

theorem insert_congr {l : ℓ} (h : s l = s' l) (m : ℓ) (v : ν) : insert norm s m v l = insert norm s' m v l := by
  unfold insert
  by_cases hl : l = m
  · subst hl
    rw [update_self, update_self]
  · rw [update_of_ne hl, update_of_ne hl, h]

/-- What a location holds after some writes depends only on what it held before. -/
theorem replay_congr {l : ℓ} (h : s l = s' l) (log : List (κ × ν)) :
    replay norm loc log s l = replay norm loc log s' l := by
  induction log generalizing s s' with
  | nil => exact h
  | cons w log ih => exact ih (insert_congr norm h (loc w.1) w.2)

/-- Where `loc` tells the keys in play apart, writing to locations is writing to the keys themselves. -/
theorem replay_of_injOn [DecidableEq κ] {keys : Set κ} (hinj : Set.InjOn loc keys) {log : List (κ × ν)}
    (hlog : ∀ w ∈ log, w.1 ∈ keys) {s : Store ℓ ν} {t : Store κ ν}
    (h : ∀ key ∈ keys, s (loc key) = t key) :
    ∀ key ∈ keys, replay norm loc log s (loc key) = replay norm id log t key := by
  induction log generalizing s t with
  | nil => exact h
  | cons w log ih =>
    rw [forall_mem_cons] at hlog
    have hhead : ∀ key ∈ keys, insert norm s (loc w.1) w.2 (loc key) = insert norm t w.1 w.2 key := by
      intro key hkey
      unfold insert
      by_cases heq : key = w.1
      · subst heq
        rw [update_self, update_self]
      · have hne : loc key ≠ loc w.1 := fun hsame => heq (hinj hkey hlog.1 hsame)
        rw [update_of_ne hne, update_of_ne heq, h key hkey]
    exact ih hlog.2 hhead

theorem run_congr (p : Prog κ ν α) {s s' : Store ℓ ν}
    (h : ∀ key ∈ reads norm loc p s, s (loc key) = s' (loc key)) :
    (run norm loc p s).1 = (run norm loc p s').1 ∧ writes norm loc p s = writes norm loc p s' ∧
      reads norm loc p s = reads norm loc p s' := by
  induction p generalizing s s' with
  | pure a => exact ⟨rfl, rfl, rfl⟩
  | get key next ih =>
    simp only [reads, forall_mem_cons] at h
    obtain ⟨hresult, hwrites, hreads⟩ := ih _ h.2
    change (run norm loc (next (s (loc key))) s).1 = (run norm loc (next (s' (loc key))) s').1 ∧ _
    simp only [writes, reads]
    rw [← h.1]
    exact ⟨hresult, hwrites, congrArg _ hreads⟩
  | put key value next ih =>
    have hagree : ∀ key' ∈ reads norm loc next (insert norm s (loc key) value),
        insert norm s (loc key) value (loc key') = insert norm s' (loc key) value (loc key') := by
      intro key' hkey'
      exact insert_congr norm (h key' hkey') (loc key) value
    obtain ⟨hresult, hwrites, hreads⟩ := ih hagree
    simp only [writes, reads]
    exact ⟨hresult, congrArg _ hwrites, hreads⟩

/-! ### What a program may write -/

/-- Every write the program can make, whatever it reads, is to a key with `φ`. -/
def Prog.Writes (φ : κ → Prop) : Prog κ ν α → Prop
  | .pure _ => True
  | .get _ next => ∀ v, (next v).Writes φ
  | .put key _ next => φ key ∧ next.Writes φ

variable {φ : κ → Prop}

omit [DecidableEq ℓ] in
@[simp] theorem Prog.writes_pure (a : α) : (Pure.pure a : Prog κ ν α).Writes φ := trivial

omit [DecidableEq ℓ] in
@[simp] theorem Prog.writes_read (key : κ) : (Prog.read key : Prog κ ν _).Writes φ := fun _ => trivial

omit [DecidableEq ℓ] in
@[simp] theorem Prog.writes_write {key : κ} {value : ν} :
    (Prog.write key value).Writes φ ↔ φ key := and_iff_left trivial

omit [DecidableEq ℓ] in
theorem Prog.Writes.bind (hp : p.Writes φ) (hf : ∀ a, (f a).Writes φ) : (p >>= f).Writes φ := by
  change (p.bind f).Writes φ
  induction p with
  | pure a => exact hf a
  | get key next ih => exact fun v => ih v (hp v)
  | put key value next ih => exact ⟨hp.1, ih hp.2⟩

omit [DecidableEq ℓ] in
theorem Prog.Writes.mono {φ' : κ → Prop} {p : Prog κ ν α} (h : p.Writes φ)
    (himp : ∀ key, φ key → φ' key) :
    p.Writes φ' := by
  induction p with
  | pure a => trivial
  | get key next ih => exact fun v => ih v (h v)
  | put key value next ih => exact ⟨himp key h.1, ih h.2⟩

omit [DecidableEq ℓ] in
@[simp] theorem Query.writes_toProg (q : Query κ ν α) : q.toProg.Writes φ := by
  induction q with
  | pure a => trivial
  | get key next ih => exact fun v => ih v

theorem Prog.Writes.mem (h : p.Writes φ) (s : Store ℓ ν) : ∀ w ∈ writes norm loc p s, φ w.1 := by
  induction p generalizing s with
  | pure a => simp [writes]
  | get key next ih => exact ih _ (h _) s
  | put key value next ih =>
    simp only [writes, forall_mem_cons]
    exact ⟨h.1, ih h.2 _⟩

theorem run_frame {l : ℓ} (h : ∀ w ∈ writes norm loc p s, loc w.1 ≠ l) : (run norm loc p s).2 l = s l := by
  rw [run_snd, replay_of_untouched norm loc h]

/-! ### What a program may return -/

/-- Every result of the program, whatever it reads, has `ψ`. -/
def Prog.Returns (ψ : α → Prop) : Prog κ ν α → Prop
  | .pure a => ψ a
  | .get _ next => ∀ v, (next v).Returns ψ
  | .put _ _ next => next.Returns ψ

/-- Once the program has written, it returns no result with `ψ`. -/
def Prog.CleanWhen (ψ : α → Prop) : Prog κ ν α → Prop
  | .pure _ => True
  | .get _ next => ∀ v, (next v).CleanWhen ψ
  | .put _ _ next => next.Returns fun a => ¬ ψ a

variable {ψ : α → Prop} {θ : β → Prop}

omit [DecidableEq ℓ] in
@[simp] theorem Prog.returns_pure {a : α} : (Pure.pure a : Prog κ ν α).Returns ψ ↔ ψ a := Iff.rfl

omit [DecidableEq ℓ] in
@[simp] theorem Prog.cleanWhen_pure (a : α) : (Pure.pure a : Prog κ ν α).CleanWhen ψ := trivial

omit [DecidableEq ℓ] in
theorem Prog.Returns.bind (hf : ∀ a, (f a).Returns θ) : (p >>= f).Returns θ := by
  change (p.bind f).Returns θ
  induction p with
  | pure a => exact hf a
  | get key next ih => exact fun v => ih v
  | put key value next ih => exact ih

omit [DecidableEq ℓ] in
theorem Prog.Returns.bind_of (hp : p.Returns ψ) (hf : ∀ a, ψ a → (f a).Returns θ) : (p >>= f).Returns θ := by
  change (p.bind f).Returns θ
  induction p with
  | pure a => exact hf a hp
  | get key next ih => exact fun v => ih v (hp v)
  | put key value next ih => exact ih hp

omit [DecidableEq ℓ] in
theorem Prog.Returns.mono {ψ' : α → Prop} {p : Prog κ ν α} (himp : ∀ a, ψ a → ψ' a) (h : p.Returns ψ) :
    p.Returns ψ' := by
  induction p with
  | pure a => exact himp a h
  | get key next ih => exact fun v => ih v (h v)
  | put key value next ih => exact ih h

omit [DecidableEq ℓ] in
theorem Prog.CleanWhen.bind (hp : p.Writes fun _ => False) (hf : ∀ a, (f a).CleanWhen θ) :
    (p >>= f).CleanWhen θ := by
  change (p.bind f).CleanWhen θ
  induction p with
  | pure a => exact hf a
  | get key next ih => exact fun v => ih v (hp v)
  | put key value next ih => exact absurd hp.1 id

omit [DecidableEq ℓ] in
/-- A program that never returns a result with `ψ` may write what it likes. -/
theorem Prog.CleanWhen.of_returns (h : p.Returns fun a => ¬ ψ a) : p.CleanWhen ψ := by
  induction p with
  | pure a => trivial
  | get key next ih => exact fun v => ih v (h v)
  | put key value next ih => exact h

omit [DecidableEq ℓ] in
theorem Prog.CleanWhen.map {g : α → β} (hp : p.CleanWhen ψ) (h : ∀ a, θ (g a) → ψ a) :
    (p >>= fun a => Pure.pure (g a)).CleanWhen θ := by
  change (p.bind fun a => .pure (g a)).CleanWhen θ
  induction p with
  | pure a => trivial
  | get key next ih => exact fun v => ih v (hp v)
  | put key value next ih => exact Prog.Returns.bind_of (p := next) hp fun a hnot hθ => hnot (h a hθ)

theorem Prog.Returns.run (h : p.Returns ψ) (s : Store ℓ ν) : ψ (run norm loc p s).1 := by
  induction p generalizing s with
  | pure a => exact h
  | get key next ih => exact ih _ (h _) s
  | put key value next ih => exact ih h _

theorem Prog.CleanWhen.run (h : p.CleanWhen ψ) {s : Store ℓ ν}
    (hresult : ψ (run norm loc p s).1) : (run norm loc p s).2 = s := by
  induction p with
  | pure a => rfl
  | get key next ih => exact ih _ (h _) hresult
  | put key value next ih =>
    have hnever := Prog.Returns.run norm loc (p := next) h (insert norm s (loc key) value)
    exact absurd hresult hnever

@[simp] theorem run_query_snd (q : Query κ ν α) (s : Store ℓ ν) : (run norm loc q.toProg s).2 = s := by
  induction q with
  | pure a => rfl
  | get key next ih => exact ih _

/-! ### What a run keeps -/

variable (inv : Store ℓ ν → Prop) (allowed : Set κ)

/-- Started here, a run that writes keys of `allowed` only keeps `inv` and returns a result with `ψ`. -/
def Upholds (ψ : α → Prop) (p : Prog κ ν α) (s : Store ℓ ν) : Prop :=
  inv s → (∀ w ∈ writes norm loc p s, w.1 ∈ allowed) → inv (run norm loc p s).2 ∧ ψ (run norm loc p s).1

variable {norm loc inv allowed}

theorem Upholds.pure {a : α} {s : Store ℓ ν} (h : ψ a) : Upholds norm loc inv allowed ψ (Pure.pure a) s :=
  fun hinv _ => ⟨hinv, h⟩

section

variable {p : Prog κ ν α}

theorem Upholds.given (h : inv s → Upholds norm loc inv allowed ψ p s) : Upholds norm loc inv allowed ψ p s :=
  fun hinv => h hinv hinv

theorem Upholds.result (h : Upholds norm loc inv allowed (fun _ => True) p s)
    (hresult : ψ (run norm loc p s).1) : Upholds norm loc inv allowed ψ p s :=
  fun hinv hwritten => ⟨(h hinv hwritten).1, hresult⟩

/-- A step and what follows it, in whatever store the step ends. -/
theorem Upholds.bind (hp : Upholds norm loc inv allowed ψ p s)
    (hf : ∀ a s', ψ a → Upholds norm loc inv allowed θ (f a) s') :
    Upholds norm loc inv allowed θ (p >>= f) s := by
  intro hinv hwritten
  rw [writes_bind] at hwritten
  rw [run_bind]
  obtain ⟨hmid, hresult⟩ := hp hinv fun w hw => hwritten w (mem_append_left _ hw)
  exact hf _ _ hresult hmid fun w hw => hwritten w (mem_append_right _ hw)

theorem run_snd_of_readOnly (hp : p.Writes fun _ => False) (s : Store ℓ ν) :
    (run norm loc p s).2 = s ∧ writes norm loc p s = [] := by
  have hnone : writes norm loc p s = [] := List.eq_nil_iff_forall_not_mem.mpr fun w hw => hp.mem norm loc s w hw
  rw [run_snd, hnone]
  exact ⟨rfl, rfl⟩

/-- What follows a program that only reads starts from the same store. -/
theorem Upholds.ask (hp : p.Writes fun _ => False)
    (hf : Upholds norm loc inv allowed θ (f (run norm loc p s).1) s) :
    Upholds norm loc inv allowed θ (p >>= f) s := by
  obtain ⟨hkept, hnone⟩ := run_snd_of_readOnly hp s
  intro hinv hwritten
  rw [writes_bind, hnone, hkept, nil_append] at hwritten
  rw [run_bind, hkept]
  exact hf hinv hwritten

end

theorem Upholds.write {key : κ} {value : ν} {s : Store ℓ ν}
    (hkept : inv s → key ∈ allowed → inv (insert norm s (loc key) value)) :
    Upholds norm loc inv allowed (fun _ => True) (Prog.write key value) s :=
  fun hinv hwritten => ⟨hkept hinv (hwritten (key, value) (mem_singleton_self _)), trivial⟩

theorem Upholds.of_writes (hp : p.Writes φ)
    (hkept : ∀ s key value, inv s → key ∈ allowed → φ key → inv (insert norm s (loc key) value))
    (s : Store ℓ ν) : Upholds norm loc inv allowed (fun _ => True) p s := by
  intro hinv hwritten
  refine ⟨?_, trivial⟩
  induction p generalizing s with
  | pure a => exact hinv
  | get key next ih => exact ih _ (hp _) s hinv hwritten
  | put key value next ih =>
    have hkey := hwritten (key, value) mem_cons_self
    exact ih hp.2 _ (hkept s key value hinv hkey hp.1) fun w hw => hwritten w (mem_cons_of_mem _ hw)

end Store

variable {κ ν ε σ τ α β : Type}

/-! ### Answering queries -/

namespace Query

def bind : Query κ ν α → (α → Query κ ν β) → Query κ ν β
  | pure a, f => f a
  | get key next, f => get key fun v => (next v).bind f

instance : Monad (Query κ ν) where
  pure := Query.pure
  bind := Query.bind

/-- What a query comes to when its questions are answered like this. -/
def answer (oracle : κ → Option ν) : Query κ ν α → α
  | pure a => a
  | get key next => (next (oracle key)).answer oracle

variable (oracle : κ → Option ν)

@[simp] theorem answer_pure (a : α) : (Pure.pure a : Query κ ν α).answer oracle = a := rfl

@[simp] theorem answer_bind (q : Query κ ν α) (f : α → Query κ ν β) :
    (q >>= f).answer oracle = (f (q.answer oracle)).answer oracle := by
  change (q.bind f).answer oracle = _
  induction q with
  | pure a => rfl
  | get key next ih => exact ih (oracle key)

end Query

/-! ### Programs -/

/-- A program with a state `σ` and errors `ε`. -/
def Fallible (κ ν ε σ α : Type) : Type := σ → Query κ ν (Except ε α × σ)

namespace Fallible

def bind (p : Fallible κ ν ε σ α) (f : α → Fallible κ ν ε σ β) : Fallible κ ν ε σ β := fun s => do
  match ← p s with
  | (.ok a, s') => f a s'
  | (.error e, s') => pure (.error e, s')

instance : Monad (Fallible κ ν ε σ) where
  pure a := fun s => pure (.ok a, s)
  bind := Fallible.bind

def state : Fallible κ ν ε σ σ := fun s => pure (.ok s, s)

def change (f : σ → σ) : Fallible κ ν ε σ Unit := fun s => pure (.ok (), f s)

def fail (e : ε) : Fallible κ ν ε σ α := fun s => pure (.error e, s)

def ask (key : κ) : Fallible κ ν ε σ (Option ν) := fun s => .get key fun v => pure (.ok v, s)

/-- Run a query of the store that has nothing to do with the state. -/
def lift (q : Query κ ν α) : Fallible κ ν ε σ α := fun s => do
  let a ← q
  pure (.ok a, s)

/-- An answer that may be an error. -/
def ofExcept : Except ε α → Fallible κ ν ε σ α
  | .ok a => pure a
  | .error e => fail e

/-- Run a program on a part of the state; its errors are given another name. -/
def zoom {ε' : Type} (part : σ → τ) (restore : τ → σ → σ) (blame : ε' → ε)
    (p : Fallible κ ν ε' τ α) :
    Fallible κ ν ε σ α := fun s => do
  match ← p (part s) with
  | (.ok a, t) => pure (.ok a, restore t s)
  | (.error e, t) => pure (.error (blame e), restore t s)

def attempt {ε' : Type} (p : Fallible κ ν ε σ α) : Fallible κ ν ε' σ (Except ε α) := fun s => do
  let (res, s') ← p s
  pure (.ok res, s')

/-! ### Running -/

section

variable (oracle : κ → Option ν)

def exec (p : Fallible κ ν ε σ α) (s : σ) : Except ε α × σ := (p s).answer oracle

@[simp] theorem exec_pure (a : α) (s : σ) : (pure a : Fallible κ ν ε σ α).exec oracle s = (.ok a, s) := rfl

@[simp] theorem exec_state (s : σ) : (state : Fallible κ ν ε σ σ).exec oracle s = (.ok s, s) := rfl

@[simp] theorem exec_change (f : σ → σ) (s : σ) :
    (change f : Fallible κ ν ε σ Unit).exec oracle s = (.ok (), f s) := rfl

@[simp] theorem exec_fail (e : ε) (s : σ) : (fail e : Fallible κ ν ε σ α).exec oracle s = (.error e, s) := rfl

@[simp] theorem exec_ask (key : κ) (s : σ) :
    (ask key : Fallible κ ν ε σ _).exec oracle s = (.ok (oracle key), s) := rfl

@[simp] theorem exec_lift (q : Query κ ν α) (s : σ) :
    (lift q : Fallible κ ν ε σ α).exec oracle s = (.ok (q.answer oracle), s) := by
  simp [exec, lift]

theorem exec_zoom {ε' : Type} (part : σ → τ) (restore : τ → σ → σ) (blame : ε' → ε)
    (p : Fallible κ ν ε' τ α) (s : σ) :
    (zoom part restore blame p).exec oracle s = match p.exec oracle (part s) with
      | (.ok a, t) => (.ok a, restore t s)
      | (.error e, t) => (.error (blame e), restore t s) := by
  rw [exec, zoom, Query.answer_bind, exec]
  rcases (p (part s)).answer oracle with ⟨_ | _, _⟩
  · rfl
  · rfl

theorem exec_attempt {ε' : Type} (p : Fallible κ ν ε σ α) (s : σ) :
    (attempt p : Fallible κ ν ε' σ _).exec oracle s = (.ok (p.exec oracle s).1, (p.exec oracle s).2) := by
  rw [exec, attempt, Query.answer_bind]
  rfl

theorem exec_bind (p : Fallible κ ν ε σ α) (f : α → Fallible κ ν ε σ β) (s : σ) :
    (p >>= f).exec oracle s = match p.exec oracle s with
      | (.ok a, s') => (f a).exec oracle s'
      | (.error e, s') => (.error e, s') := by
  change (p.bind f s).answer oracle = _
  rw [Fallible.bind, Query.answer_bind, exec]
  rcases (p s).answer oracle with ⟨_ | _, _⟩
  · rfl
  · rfl

section

variable {p : Fallible κ ν ε σ α} {f : α → Fallible κ ν ε σ β} {s s' : σ}

theorem exec_bind_ok {a : α} (h : p.exec oracle s = (.ok a, s')) : (p >>= f).exec oracle s = (f a).exec oracle s' := by
  rw [exec_bind, h]

theorem exec_bind_error {e : ε} (h : p.exec oracle s = (.error e, s')) : (p >>= f).exec oracle s = (.error e, s') := by
  rw [exec_bind, h]

end

end

/-! ### Pre- and postconditions -/

/-- What holds of a result and the state that comes with it. -/
def After (post : α → σ → Prop) (bad : ε → σ → Prop) : Except ε α × σ → Prop
  | (.ok a, s) => post a s
  | (.error e, s) => bad e s

theorem After.mono {post post' : α → σ → Prop} {bad bad' : ε → σ → Prop} {res : Except ε α × σ}
    (h : After post bad res) (hpost : ∀ a s, post a s → post' a s) (hbad : ∀ e s, bad e s → bad' e s) :
    After post' bad' res := by
  rcases res with ⟨_ | _, s⟩
  · exact hbad _ s h
  · exact hpost _ s h

theorem After.bind {oracle : κ → Option ν} {p : Fallible κ ν ε σ α}
    {f : α → Fallible κ ν ε σ β} {s : σ}
    {mid : α → σ → Prop} {post : β → σ → Prop} {bad : ε → σ → Prop}
    (hp : After mid bad (p.exec oracle s))
    (hf : ∀ a t, mid a t → After post bad ((f a).exec oracle t)) : After post bad ((p >>= f).exec oracle s) := by
  rw [exec_bind]
  cases hrun : p.exec oracle s with
  | mk res t =>
    rw [hrun] at hp
    cases res with
    | ok a => exact hf a t hp
    | error e => exact hp

/-! ### Relations between first and last state -/

section

variable (oracle : κ → Option ν) (good lapse : σ → σ → Prop)

/-- The state moves along `good`, and along `lapse` if the program fails. -/
structure Moves (p : Fallible κ ν ε σ α) : Prop where
  after : ∀ s, After (fun _ => good s) (fun _ => lapse s) (p.exec oracle s)

/-- Relations that can be composed: steps one after the other, and a failure after some steps. -/
structure Composable : Prop where
  refl : ∀ s, good s s
  trans : ∀ {s s' s''}, good s s' → good s' s'' → good s s''
  fails : ∀ {s s' s''}, good s s' → lapse s' s'' → lapse s s''
  stop : ∀ s, lapse s s

variable {oracle good lapse}

theorem Moves.pure (hc : Composable good lapse) (a : α) :
    Moves oracle good lapse (Pure.pure a : Fallible κ ν ε σ α) := ⟨hc.refl⟩

theorem Moves.fail (hc : Composable good lapse) (e : ε) :
    Moves oracle good lapse (Fallible.fail e : Fallible κ ν ε σ α) := ⟨hc.stop⟩

theorem Moves.change {f : σ → σ} (h : ∀ s, good s (f s)) :
    Moves oracle good lapse (Fallible.change f : Fallible κ ν ε σ Unit) := ⟨h⟩

section

variable (hc : Composable good lapse)
include hc

theorem Moves.state : Moves oracle good lapse (Fallible.state : Fallible κ ν ε σ σ) := ⟨hc.refl⟩

theorem Moves.bind {p : Fallible κ ν ε σ α} {f : α → Fallible κ ν ε σ β} (hp : Moves oracle good lapse p)
    (hf : ∀ a, Moves oracle good lapse (f a)) : Moves oracle good lapse (p >>= f) := by
  constructor
  intro s
  have hlast : After (fun _ => good s) (fun _ => lapse s) (p.exec oracle s) := hp.after s
  exact hlast.bind fun a t hstep => ((hf a).after t).mono (fun _ _ => hc.trans hstep) fun _ _ => hc.fails hstep

theorem Moves.ofExcept (answer : Except ε α) :
    Moves oracle good lapse (Fallible.ofExcept answer : Fallible κ ν ε σ α) := by
  cases answer with
  | ok a => exact Moves.pure hc a
  | error e => exact Moves.fail hc e

end

end

/-! ### Repetition -/

/-- Repeat a step until it comes to a result, at most so often. -/
def repeatStep (step : Fallible κ ν ε σ (Option α)) : Nat → Fallible κ ν ε σ (Option α)
  | 0 => pure none
  | fuel + 1 => do
    match ← step with
    | some res => pure (some res)
    | none => repeatStep step fuel

end Fallible

end StateProgram
