/-
Module: Pyde.Library.DedupInbox
Purpose: An inbox that records the key of a message before anything else about the message is checked, buffers it under
  its topic, and tries to form a certificate from the buffer.
Trusted boundary: none
-/
import Mathlib.Data.List.Basic
import Mathlib.Logic.Function.Basic

namespace DedupInbox

open List Function

variable {μ κ τ γ : Type} [DecidableEq κ] [DecidableEq τ]

/-- How messages are handled. `form buffer m` is the certificate that the buffer gives when `m` has come. -/
structure Rules (μ κ τ γ : Type) where
  key : μ → κ
  topic : μ → τ
  stale : μ → Bool
  valid : μ → Bool
  form : List μ → μ → Option γ

structure State (μ κ τ : Type) where
  buffer : τ → List μ
  seen : κ → Bool

def recorded (R : Rules μ κ τ γ) (s : State μ κ τ) (m : μ) : Bool := R.stale m || s.seen (R.key m)

def accept (R : Rules μ κ τ γ) (s : State μ κ τ) (m : μ) : State μ κ τ where
  buffer := Function.update s.buffer (R.topic m) (s.buffer (R.topic m) ++ [m])
  seen := Function.update s.seen (R.key m) true

/-- The inbox after a message, and the certificate that was formed. -/
def receive (R : Rules μ κ τ γ) (s : State μ κ τ) (m : μ) : State μ κ τ × Option γ :=
  if recorded R s m then (s, none) else (accept R s m, R.form ((accept R s m).buffer (R.topic m)) m)

def receiveAll (R : Rules μ κ τ γ) (msgs : List μ) (s : State μ κ τ) : State μ κ τ :=
  msgs.foldl (fun s m => (receive R s m).1) s

def formed (R : Rules μ κ τ γ) : List μ → State μ κ τ → List γ
  | [], _ => []
  | m :: msgs, s => (receive R s m).2.toList ++ formed R msgs (receive R s m).1

/-- Only valid messages count, and a certificate that a new message makes possible is formed when it comes. -/
structure Lawful (R : Rules μ κ τ γ) : Prop where
  form_filter : ∀ l m, R.form (l.filter R.valid) m = R.form l m
  form_concat : ∀ l m m' c, R.topic m' = R.topic m → R.form (l ++ [m']) m = some c →
    R.form l m = some c ∨ R.form (l ++ [m']) m' = some c

/-- An inserted message, or one of the original sequence. -/
structure Delivery (μ : Type) where
  inserted : Bool
  message : μ

/-- The sequence without the insertions. -/
def originals (deliveries : List (Delivery μ)) : List μ :=
  (deliveries.filter fun d => !d.inserted).map Delivery.message

/-- An inserted message comes when its key is recorded already or when no message of the original sequence
with its key is still to come. -/
def NoneSuppressed (R : Rules μ κ τ γ) : List (Delivery μ) → State μ κ τ → Prop
  | [], _ => True
  | d :: deliveries, s =>
    (d.inserted = true → recorded R s d.message = true ∨
      ∀ later ∈ deliveries, later.inserted = false → R.key later.message ≠ R.key d.message) ∧
      NoneSuppressed R deliveries (receive R s d.message).1

/-- An inserted message is invalid, and forms nothing from an empty buffer. -/
def InsertionsInvalid (R : Rules μ κ τ γ) (deliveries : List (Delivery μ)) : Prop :=
  ∀ d ∈ deliveries, d.inserted = true → R.valid d.message = false ∧ R.form [] d.message = none

/-- The run with insertions (`s`) and the run without (`b`), before the messages `rest` and after the
certificates `done`. -/
structure Related (R : Rules μ κ τ γ) (rest : List (Delivery μ)) (done : List γ)
    (s b : State μ κ τ) : Prop where
  valid : ∀ t, (s.buffer t).filter R.valid = (b.buffer t).filter R.valid
  seen : ∀ d ∈ rest, d.inserted = false → s.seen (R.key d.message) = b.seen (R.key d.message)
  complete : ∀ m c, R.form [] m = none → R.form (b.buffer (R.topic m)) m = some c → c ∈ done

variable {R : Rules μ κ τ γ} {rest : List (Delivery μ)} {done : List γ} {s b : State μ κ τ}

theorem accept_buffer_self (s : State μ κ τ) (m : μ) :
    (accept R s m).buffer (R.topic m) = s.buffer (R.topic m) ++ [m] := update_self ..

theorem accept_buffer_of_ne {t : τ} {m : μ} (h : t ≠ R.topic m) (s : State μ κ τ) :
    (accept R s m).buffer t = s.buffer t := update_of_ne h _ _

omit [DecidableEq κ] [DecidableEq τ] in
theorem Lawful.form_congr (hR : Lawful R) {l l' : List μ} (h : l.filter R.valid = l'.filter R.valid) (m : μ) :
    R.form l m = R.form l' m := by
  rw [← hR.form_filter l, h, hR.form_filter l']

theorem filter_accept (h : ∀ t, (s.buffer t).filter R.valid = (b.buffer t).filter R.valid) (m : μ) (t : τ) :
    ((accept R s m).buffer t).filter R.valid = ((accept R b m).buffer t).filter R.valid := by
  by_cases ht : t = R.topic m
  · subst ht
    rw [accept_buffer_self, accept_buffer_self, filter_append, filter_append, h]
  · rw [accept_buffer_of_ne ht, accept_buffer_of_ne ht, h]

theorem filter_accept_invalid {m : μ} (hinvalid : R.valid m = false) (s : State μ κ τ) (t : τ) :
    ((accept R s m).buffer t).filter R.valid = (s.buffer t).filter R.valid := by
  by_cases ht : t = R.topic m
  · subst ht
    rw [accept_buffer_self, filter_append, filter_cons_of_neg (by simp [hinvalid]), filter_nil, append_nil]
  · rw [accept_buffer_of_ne ht]

/-- A message of the original sequence does the same in both runs. -/
theorem Related.original (hR : Lawful R) {d : Delivery μ} (hd : d.inserted = false)
    (h : Related R (d :: rest) done s b) :
    (receive R s d.message).2 = (receive R b d.message).2 ∧
      Related R rest (done ++ (receive R b d.message).2.toList) (receive R s d.message).1
        (receive R b d.message).1 := by
  have hseen := h.seen d mem_cons_self hd
  have hrecorded : recorded R s d.message = recorded R b d.message := by
    unfold recorded
    rw [hseen]
  have hrest : ∀ d' ∈ rest, d'.inserted = false → s.seen (R.key d'.message) = b.seen (R.key d'.message) :=
    fun d' hd' => h.seen d' (mem_cons_of_mem d hd')
  unfold receive
  rw [hrecorded]
  split
  next => exact ⟨rfl, h.valid, hrest, fun m c hm hc => mem_append_left _ (h.complete m c hm hc)⟩
  have hvalid := filter_accept h.valid d.message
  have hsame := hR.form_congr (hvalid (R.topic d.message)) d.message
  refine ⟨hsame, hvalid, ?_, ?_⟩
  · intro d' hd' horiginal
    unfold accept
    dsimp only
    by_cases hkey : R.key d'.message = R.key d.message
    · rw [hkey, update_self, update_self]
    · rw [update_of_ne hkey, update_of_ne hkey]
      exact hrest d' hd' horiginal
  · intro m c hm hc
    by_cases htopic : R.topic m = R.topic d.message
    · rw [htopic, accept_buffer_self] at hc
      rcases hR.form_concat _ _ _ _ htopic.symm hc with hbefore | hnow
      · rw [← htopic] at hbefore
        exact mem_append_left _ (h.complete m c hm hbefore)
      apply mem_append_right
      rw [accept_buffer_self, hnow]
      exact List.mem_singleton.mpr rfl
    · rw [accept_buffer_of_ne htopic] at hc
      exact mem_append_left _ (h.complete m c hm hc)

/-- An inserted message forms nothing new, and leaves the runs related. -/
theorem Related.insertion (hR : Lawful R) {d : Delivery μ} (h : Related R (d :: rest) done s b)
    (hinvalid : R.valid d.message = false) (hempty : R.form [] d.message = none)
    (hkey : recorded R s d.message = true ∨
      ∀ later ∈ rest, later.inserted = false → R.key later.message ≠ R.key d.message) :
    (∀ c ∈ (receive R s d.message).2.toList, c ∈ done) ∧ Related R rest done (receive R s d.message).1 b := by
  have hrest : ∀ d' ∈ rest, d'.inserted = false → s.seen (R.key d'.message) = b.seen (R.key d'.message) :=
    fun d' hd' => h.seen d' (mem_cons_of_mem d hd')
  unfold receive
  split
  next => exact ⟨nofun, h.valid, hrest, h.complete⟩
  rename_i hnew
  have hvalid : ∀ t, ((accept R s d.message).buffer t).filter R.valid = (b.buffer t).filter R.valid :=
    fun t => (filter_accept_invalid hinvalid s t).trans (h.valid t)
  refine ⟨?_, hvalid, ?_, h.complete⟩
  · intro c hc
    rw [Option.mem_toList, hR.form_congr (hvalid _)] at hc
    exact h.complete d.message c hempty hc
  · intro d' hd' horiginal
    have hne := (hkey.resolve_left hnew) d' hd' horiginal
    unfold accept
    dsimp only
    rw [update_of_ne hne]
    exact hrest d' hd' horiginal

theorem receiveAll_cons (m : μ) (msgs : List μ) (s : State μ κ τ) :
    receiveAll R (m :: msgs) s = receiveAll R msgs (receive R s m).1 := rfl

theorem originals_cons_of_inserted {d : Delivery μ} (h : d.inserted = true) (rest : List (Delivery μ)) :
    originals (d :: rest) = originals rest := by
  unfold originals
  rw [filter_cons_of_neg (by simp [h])]

theorem originals_cons_of_original {d : Delivery μ} (h : d.inserted = false) (rest : List (Delivery μ)) :
    originals (d :: rest) = d.message :: originals rest := by
  unfold originals
  rw [filter_cons_of_pos (by simp [h]), map_cons]

theorem Related.run (hR : Lawful R) (hinvalid : InsertionsInvalid R rest) (hkeys : NoneSuppressed R rest s)
    (h : Related R rest done s b) :
    (∀ c ∈ formed R (rest.map Delivery.message) s, c ∈ done ∨ c ∈ formed R (originals rest) b) ∧
      (∀ c ∈ formed R (originals rest) b, c ∈ formed R (rest.map Delivery.message) s) ∧
      ∀ t, ((receiveAll R (rest.map Delivery.message) s).buffer t).filter R.valid =
        ((receiveAll R (originals rest) b).buffer t).filter R.valid := by
  induction rest generalizing done s b with
  | nil => exact ⟨nofun, nofun, h.valid⟩
  | cons d rest ih =>
    obtain ⟨hkey, hkeys⟩ := hkeys
    obtain ⟨hinserted, hinvalid⟩ := List.forall_mem_cons.mp hinvalid
    rw [map_cons, receiveAll_cons, formed]
    cases hd : d.inserted with
    | true =>
      obtain ⟨hforged, hempty⟩ := hinserted hd
      obtain ⟨hnothing, hrelated⟩ := h.insertion hR hforged hempty (hkey hd)
      obtain ⟨hsub, hsup, hvalid⟩ := ih hinvalid hkeys hrelated
      rw [originals_cons_of_inserted hd]
      refine ⟨?_, ?_, hvalid⟩
      · intro c hc
        rcases List.mem_append.mp hc with hc | hc
        · exact .inl (hnothing c hc)
        · exact hsub c hc
      · exact fun c hc => mem_append_right _ (hsup c hc)
    | false =>
      obtain ⟨hsame, hrelated⟩ := h.original hR hd
      obtain ⟨hsub, hsup, hvalid⟩ := ih hinvalid hkeys hrelated
      rw [originals_cons_of_original hd, receiveAll_cons, formed, hsame]
      refine ⟨?_, ?_, hvalid⟩
      · intro c hc
        rcases List.mem_append.mp hc with hc | hc
        · exact .inr (mem_append_left _ hc)
        rcases hsub c hc with hdone | hlater
        · rcases List.mem_append.mp hdone with hdone | hnow
          · exact .inl hdone
          · exact .inr (mem_append_left _ hnow)
        · exact .inr (mem_append_right _ hlater)
      · intro c hc
        rcases List.mem_append.mp hc with hc | hc
        · exact mem_append_left _ hc
        · exact mem_append_right _ (hsup c hc)

/-- If nothing can be formed at the start, insertions that suppress nothing change neither the certificates nor
the valid messages. -/
theorem insertions_change_nothing (hR : Lawful R) {deliveries : List (Delivery μ)}
    (hstart : ∀ m, R.form [] m = none → R.form (s.buffer (R.topic m)) m = none)
    (hinvalid : InsertionsInvalid R deliveries) (hkeys : NoneSuppressed R deliveries s) :
    (∀ c, c ∈ formed R (deliveries.map Delivery.message) s ↔ c ∈ formed R (originals deliveries) s) ∧
      ∀ t, ((receiveAll R (deliveries.map Delivery.message) s).buffer t).filter R.valid =
        ((receiveAll R (originals deliveries) s).buffer t).filter R.valid := by
  have hrelated : Related R deliveries [] s s := by
    refine ⟨fun _ => rfl, fun _ _ _ => rfl, ?_⟩
    intro m c hm hc
    rw [hstart m hm] at hc
    cases hc
  obtain ⟨hsub, hsup, hvalid⟩ := hrelated.run hR hinvalid hkeys
  refine ⟨fun c => ⟨fun hc => ?_, hsup c⟩, hvalid⟩
  exact (hsub c hc).resolve_left not_mem_nil

end DedupInbox
