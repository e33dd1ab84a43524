/-
Module: Pyde.Library.CallTree
Purpose: Machines whose frames start further frames. A frame takes one instruction after the other; an instruction may
  need the result of a frame below before it is complete.
Trusted boundary: none
-/
import Pyde.Library.StateProgram

namespace StateProgram

open Fallible

/-- What an instruction comes to: the frame ends, it goes on, or a frame below has to run first. -/
inductive Progress (σ α γ : Type) where
  | ended (res : α)
  | onward
  | spawn (child : σ) (pending : γ)

/-- What holds when an instruction has come so far. -/
def Progressed {σ α γ : Type} (good : σ → Prop) (spawned : σ → γ → σ → Prop) :
    Progress σ α γ → σ → Prop
  | .ended _, t => good t
  | .onward, t => good t
  | .spawn child pending, t => spawned child pending t

/-- A machine: the start of a frame, an instruction up to the frame below, the rest of it, and the result of
a frame from its first state, how it ended and its last state. A frame that is cut off ends in `cutoff`. -/
structure Machine (κ ν ε σ α γ ρ : Type) where
  start : σ → σ
  advance : Fallible κ ν ε σ (Progress σ α γ)
  resume : γ → ρ → Fallible κ ν ε σ Unit
  finish : σ → Except ε α → σ → ρ
  cutoff : ε

namespace Machine

variable {κ ν ε σ α γ ρ : Type} (m : Machine κ ν ε σ α γ ρ)

def step (spawn : σ → Query κ ν ρ) : Fallible κ ν ε σ (Option α) := do
  match ← m.advance with
  | .ended res => pure (some res)
  | .onward => pure none
  | .spawn child pending => do
    let answer ← lift (spawn child)
    m.resume pending answer
    pure none

def ending : Except ε (Option α) → Except ε α
  | .ok (some a) => .ok a
  | .ok none => .error m.cutoff
  | .error e => .error e

/-- Run a frame: at most so many instructions, and so many frames one below the other. -/
def run (fuel : Nat) : Nat → σ → Query κ ν ρ
  | 0, s => pure (m.finish s (.error m.cutoff) (m.start s))
  | level + 1, s => do
    let (res, s') ← repeatStep (m.step (run fuel level)) fuel (m.start s)
    pure (m.finish s (m.ending res) s')

variable (oracle : κ → Option ν) (fuel : Nat)

/-- The result of a loop of at most `n` instructions. -/
def loop (level n : Nat) (entry s : σ) : ρ :=
  m.finish entry (m.ending ((repeatStep (m.step (m.run fuel level)) n).exec oracle s).1)
    ((repeatStep (m.step (m.run fuel level)) n).exec oracle s).2

theorem answer_run_succ (level : Nat) (s : σ) :
    (m.run fuel (level + 1) s).answer oracle = m.loop oracle fuel level fuel s (m.start s) := by
  rw [run, Query.answer_bind]
  rfl

theorem loop_succ (level n : Nat) (entry s : σ) :
    m.loop oracle fuel level (n + 1) entry s = match m.advance.exec oracle s with
      | (.ok (.ended a), s') => m.finish entry (.ok a) s'
      | (.ok .onward, s') => m.loop oracle fuel level n entry s'
      | (.ok (.spawn child pending), s') =>
        match (m.resume pending ((m.run fuel level child).answer oracle)).exec oracle s' with
        | (.ok _, s'') => m.loop oracle fuel level n entry s''
        | (.error e, s'') => m.finish entry (.error e) s''
      | (.error e, s') => m.finish entry (.error e) s' := by
  rw [loop, repeatStep, exec_bind, step, exec_bind]
  rcases m.advance.exec oracle s with ⟨_ | _ | _ | ⟨child, pending⟩, s'⟩
  · rfl
  · rfl
  · rfl
  simp only [exec_bind, exec_lift]
  rcases (m.resume pending ((m.run fuel level child).answer oracle)).exec oracle s' with ⟨_ | _, s''⟩
  · rfl
  · rfl

/-! ### Halting -/

/-- The loop of a frame, with no bound on it: from a state it comes to an end. -/
inductive Halts : σ → Except ε α → σ → Prop where
  | ended {s s' : σ} {a : α} (hstep : m.advance.exec oracle s = (.ok (.ended a), s')) : Halts s (.ok a) s'
  | failed {s s' : σ} {e : ε} (hstep : m.advance.exec oracle s = (.error e, s')) : Halts s (.error e) s'
  | onward {s s' t : σ} {r : Except ε α} (hstep : m.advance.exec oracle s = (.ok .onward, s'))
      (hrest : Halts s' r t) : Halts s r t
  | resumed {s s' s'' t child last : σ} {pending : γ} {r r' : Except ε α}
      (hstep : m.advance.exec oracle s = (.ok (.spawn child pending), s'))
      (hchild : Halts (m.start child) r' last)
      (hresume : (m.resume pending (m.finish child r' last)).exec oracle s' = (.ok (), s''))
      (hrest : Halts s'' r t) : Halts s r t
  | abandoned {s s' s'' child last : σ} {pending : γ} {e : ε} {r' : Except ε α}
      (hstep : m.advance.exec oracle s = (.ok (.spawn child pending), s'))
      (hchild : Halts (m.start child) r' last)
      (hresume : (m.resume pending (m.finish child r' last)).exec oracle s' = (.error e, s'')) :
      Halts s (.error e) s''

def Ends (entry : σ) (answer : ρ) : Prop :=
  ∃ r last, m.Halts oracle (m.start entry) r last ∧ answer = m.finish entry r last

/-- A machine whose instructions use up a bounded quantity, and whose frames have a bounded depth. -/
structure Bounded (used depth : σ → Nat) (bound deepest : Nat) : Prop where
  within : ∀ s, used s ≤ bound
  start : ∀ s, depth (m.start s) = depth s
  onward : ∀ {s s'}, m.advance.exec oracle s = (.ok .onward, s') → used s < used s' ∧ depth s' = depth s
  spawn : ∀ {s s' child pending}, m.advance.exec oracle s = (.ok (.spawn child pending), s') →
    depth s < deepest ∧ depth child = depth s + 1
  resumed : ∀ {s s' s'' child pending answer}, m.advance.exec oracle s = (.ok (.spawn child pending), s') →
    (m.resume pending answer).exec oracle s' = (.ok (), s'') → used s < used s'' ∧ depth s'' = depth s

variable {m oracle} {used depth : σ → Nat} {bound deepest : Nat}

private theorem loop_ends (hm : m.Bounded oracle used depth bound deepest) {level : Nat}
    (hbelow : ∀ child, depth child ≤ deepest → deepest < level + depth child →
      m.Ends oracle child ((m.run fuel level child).answer oracle)) {entry : σ} :
    ∀ (n : Nat) (s : σ), bound < used s + n → deepest < level + 1 + depth s →
      ∃ r last, m.Halts oracle s r last ∧ m.loop oracle fuel level n entry s = m.finish entry r last := by
  intro n
  induction n with
  | zero =>
    intro s hfuel
    have hwithin := hm.within s
    omega
  | succ n ih =>
    intro s hfuel hlevel
    rw [loop_succ]
    cases hadvance : m.advance.exec oracle s with
    | mk res s' =>
      cases res with
      | error e => exact ⟨_, s', .failed hadvance, rfl⟩
      | ok progress =>
        cases progress with
        | ended a => exact ⟨_, s', .ended hadvance, rfl⟩
        | onward =>
          obtain ⟨hused, hdepth⟩ := hm.onward hadvance
          obtain ⟨r, last, hrest, hloop⟩ := ih s' (by omega) (by omega)
          exact ⟨r, last, .onward hadvance hrest, hloop⟩
        | spawn child pending =>
          obtain ⟨hdepth, hchild⟩ := hm.spawn hadvance
          obtain ⟨r', last', hends, hanswer⟩ := hbelow child (by omega) (by omega)
          dsimp only
          rw [hanswer]
          cases hresume : (m.resume pending (m.finish child r' last')).exec oracle s' with
          | mk res s'' =>
            cases res with
            | error e => exact ⟨_, s'', .abandoned hadvance hends hresume, rfl⟩
            | ok _ =>
              obtain ⟨hused, hsame⟩ := hm.resumed hadvance hresume
              obtain ⟨r, last, hrest, hloop⟩ := ih s'' (by omega) (by omega)
              exact ⟨r, last, .resumed hadvance hends hresume hrest, hloop⟩

/-- Enough fuel gives the result: no frame of a bounded machine is cut off. -/
theorem run_ends (hm : m.Bounded oracle used depth bound deepest) (hfuel : bound < fuel) :
    ∀ (level : Nat) (entry : σ), depth entry ≤ deepest → deepest < level + depth entry →
      m.Ends oracle entry ((m.run fuel level entry).answer oracle) := by
  intro level
  induction level with
  | zero =>
    intro entry hdepth hlevel
    omega
  | succ level ih =>
    intro entry hdepth hlevel
    rw [answer_run_succ]
    have hstart := hm.start entry
    exact loop_ends fuel hm ih fuel (m.start entry) (by omega) (by omega)

/-! ### Specifications of frames -/

/-- The moments of a run that a condition can speak about: an instruction is taken, or a frame below has ended
and the frame that waits for it goes on. -/
inductive Moment (σ γ ρ : Type) where
  | taken (s : σ)
  | joined (s child : σ) (pending : γ) (answer : ρ)

/-- The frame that takes an instruction is as its invariant has it, and a frame below has started and ended as
specified. -/
def Moment.Specified (pre : σ → Prop) (inv : σ → σ → Prop) (spec : σ → ρ → Prop) :
    Moment σ γ ρ → Prop
  | .taken t => ∃ entry, inv entry t
  | .joined _ child _ answer => pre child ∧ spec child answer

variable (m oracle)

/-- The moments of a frame and of the frames below it. -/
inductive Visits : Nat → σ → Moment σ γ ρ → Prop where
  | here {level : Nat} {s : σ} : Visits (level + 1) s (.taken s)
  | joined {level : Nat} {s s' child : σ} {pending : γ}
      (hstep : m.advance.exec oracle s = (.ok (.spawn child pending), s')) :
      Visits (level + 1) s (.joined s' child pending ((m.run fuel level child).answer oracle))
  | onward {level : Nat} {s s' : σ} {moment : Moment σ γ ρ} (hstep : m.advance.exec oracle s = (.ok .onward, s'))
      (hrest : Visits (level + 1) s' moment) : Visits (level + 1) s moment
  | beneath {level : Nat} {s s' child : σ} {pending : γ} {moment : Moment σ γ ρ}
      (hstep : m.advance.exec oracle s = (.ok (.spawn child pending), s'))
      (hrest : Visits level (m.start child) moment) : Visits (level + 1) s moment
  | resumed {level : Nat} {s s' s'' child : σ} {pending : γ} {moment : Moment σ γ ρ}
      (hstep : m.advance.exec oracle s = (.ok (.spawn child pending), s'))
      (hresume : (m.resume pending ((m.run fuel level child).answer oracle)).exec oracle s' = (.ok (), s''))
      (hrest : Visits (level + 1) s'' moment) : Visits (level + 1) s moment

/-- What has to be shown of one instruction for a specification of frames: `pre` holds of the first state of a
frame, `inv` between its first and its present state, `spec` between its first state and its result. -/
structure Keeps (holds : Moment σ γ ρ → Prop) (pre : σ → Prop) (inv : σ → σ → Prop)
    (spec : σ → ρ → Prop)
    (entry s : σ) : Prop where
  onward : ∀ {s'}, m.advance.exec oracle s = (.ok .onward, s') → inv entry s'
  ended : ∀ {a s'}, m.advance.exec oracle s = (.ok (.ended a), s') → spec entry (m.finish entry (.ok a) s')
  failed : ∀ {e s'}, m.advance.exec oracle s = (.error e, s') → spec entry (m.finish entry (.error e) s')
  spawn : ∀ {child pending s'}, m.advance.exec oracle s = (.ok (.spawn child pending), s') → pre child
  resumed : ∀ {child pending s' answer}, m.advance.exec oracle s = (.ok (.spawn child pending), s') →
    holds (.joined s' child pending answer) → spec child answer →
      After (fun _ => inv entry) (fun e s'' => spec entry (m.finish entry (.error e) s''))
        ((m.resume pending answer).exec oracle s')

variable {m oracle fuel} {holds : Moment σ γ ρ → Prop} {pre : σ → Prop} {inv : σ → σ → Prop}
    {spec : σ → ρ → Prop}

variable {steps level : Nat} {entry s : σ} {moment : Moment σ γ ρ}

/-- An instruction keeps a specification if what it comes to leads to the invariant and to the end of the frame,
and if what a frame below leaves pending does so as well. -/
theorem Keeps.of_step {good bad : σ → Prop} {spawned : σ → γ → σ → Prop}
    (hstep : After (Progressed good spawned) (fun _ => bad) (m.advance.exec oracle s))
    (hinv : ∀ {t}, good t → inv entry t) (hended : ∀ {a t}, good t → spec entry (m.finish entry (.ok a) t))
    (hfailed : ∀ {e t}, bad t → spec entry (m.finish entry (.error e) t))
    (hspawn : ∀ {child pending t}, spawned child pending t → pre child)
    (hresume : ∀ {child pending t answer}, spawned child pending t → holds (.joined t child pending answer) →
      spec child answer → After (fun _ => good) (fun _ => bad) ((m.resume pending answer).exec oracle t)) :
    m.Keeps oracle holds pre inv spec entry s where
  onward := by
    intro s' hadvance
    rw [hadvance] at hstep
    exact hinv hstep
  ended := by
    intro a s' hadvance
    rw [hadvance] at hstep
    exact hended hstep
  failed := by
    intro e s' hadvance
    rw [hadvance] at hstep
    exact hfailed hstep
  spawn := by
    intro child pending s' hadvance
    rw [hadvance] at hstep
    exact hspawn hstep
  resumed := by
    intro child pending s' answer hadvance hjoined hanswer
    rw [hadvance] at hstep
    exact (hresume hstep hjoined hanswer).mono (fun _ _ => hinv) fun _ _ => hfailed

/-- A specification of frames that every instruction keeps, if `holds` is true of every moment. -/
structure Specifies (m : Machine κ ν ε σ α γ ρ) (oracle : κ → Option ν)
    (holds : Moment σ γ ρ → Prop) (pre : σ → Prop)
    (inv : σ → σ → Prop) (spec : σ → ρ → Prop) : Prop where
  start : ∀ entry, pre entry → inv entry (m.start entry)
  cut : ∀ entry s, inv entry s → spec entry (m.finish entry (.error m.cutoff) s)
  keeps : ∀ entry s, inv entry s → holds (.taken s) → m.Keeps oracle holds pre inv spec entry s

namespace Specifies

variable (h : m.Specifies oracle holds pre inv spec)

include h

private theorem loop (hbelow : ∀ child, pre child →
    (∀ moment, m.Visits oracle fuel level (m.start child) moment → holds moment) →
      spec child ((m.run fuel level child).answer oracle)) {entry : σ} :
    ∀ (n : Nat) (s : σ), inv entry s → (∀ moment, m.Visits oracle fuel (level + 1) s moment → holds moment) →
      spec entry (m.loop oracle fuel level n entry s) := by
  intro n
  induction n with
  | zero => exact fun s hinv _ => h.cut entry s hinv
  | succ n ih =>
    intro s hinv hholds
    have hkeep := h.keeps entry s hinv (hholds _ .here)
    rw [loop_succ]
    cases hadvance : m.advance.exec oracle s with
    | mk res s' =>
      cases res with
      | error e => exact hkeep.failed hadvance
      | ok progress =>
        cases progress with
        | ended a => exact hkeep.ended hadvance
        | onward => exact ih s' (hkeep.onward hadvance) fun t ht => hholds t (.onward hadvance ht)
        | spawn child pending =>
          have hresumed := hkeep.resumed hadvance (hholds _ (.joined hadvance))
            (hbelow child (hkeep.spawn hadvance) fun t ht => hholds t (.beneath hadvance ht))
          dsimp only
          cases hresume : (m.resume pending ((m.run fuel level child).answer oracle)).exec oracle s' with
          | mk res s'' =>
            rw [hresume] at hresumed
            cases res with
            | error e => exact hresumed
            | ok _ => exact ih s'' hresumed fun t ht => hholds t (.resumed hadvance hresume ht)

theorem run : ∀ (level : Nat) (entry : σ), pre entry →
    (∀ moment, m.Visits oracle fuel level (m.start entry) moment → holds moment) →
      spec entry ((m.run fuel level entry).answer oracle) := by
  intro level
  induction level with
  | zero => exact fun entry hpre _ => h.cut entry _ (h.start entry hpre)
  | succ level ih =>
    intro entry hpre hholds
    rw [answer_run_succ]
    exact h.loop ih fuel (m.start entry) (h.start entry hpre) hholds

theorem visits (hvisits : m.Visits oracle fuel level s moment) :
    ∀ entry : σ, inv entry s → (∀ moment, m.Visits oracle fuel level s moment → holds moment) →
      Moment.Specified pre inv spec moment := by
  induction hvisits with
  | here => exact fun entry hinv _ => ⟨entry, hinv⟩
  | joined hstep =>
    intro entry hinv hholds
    have hkeep := h.keeps entry _ hinv (hholds _ .here)
    have hpre := hkeep.spawn hstep
    exact ⟨hpre, h.run _ _ hpre fun t ht => hholds t (.beneath hstep ht)⟩
  | onward hstep _ ih =>
    intro entry hinv hholds
    have hkeep := h.keeps entry _ hinv (hholds _ .here)
    exact ih entry (hkeep.onward hstep) fun t ht => hholds t (.onward hstep ht)
  | beneath hstep _ ih =>
    intro entry hinv hholds
    have hkeep := h.keeps entry _ hinv (hholds _ .here)
    exact ih _ (h.start _ (hkeep.spawn hstep)) fun t ht => hholds t (.beneath hstep ht)
  | resumed hstep hresume _ ih =>
    intro entry hinv hholds
    have hkeep := h.keeps entry _ hinv (hholds _ .here)
    have hanswer := h.run _ _ (hkeep.spawn hstep) fun t ht => hholds t (.beneath hstep ht)
    have hresumed := hkeep.resumed hstep (hholds _ (.joined hstep)) hanswer
    rw [hresume] at hresumed
    exact ih entry hresumed fun t ht => hholds t (.resumed hstep hresume ht)

end Specifies

/-! ### Watching a run -/

variable (m oracle fuel) (check : Moment σ γ ρ → Bool)

/-- Check every moment of a frame that ends after fewer than so many instructions. -/
def watch (below : σ → Bool) (level : Nat) : Nat → σ → Bool
  | 0, _ => false
  | n + 1, s =>
    check (.taken s) && match m.advance.exec oracle s with
      | (.ok .onward, s') => watch below level n s'
      | (.ok (.spawn child pending), s') =>
        check (.joined s' child pending ((m.run fuel level child).answer oracle)) && below (m.start child) &&
          match (m.resume pending ((m.run fuel level child).answer oracle)).exec oracle s' with
          | (.ok _, s'') => watch below level n s''
          | (.error _, _) => true
      | _ => true

/-- Check every moment of a frame and of the frames below it. -/
def monitor (steps : Nat) : Nat → σ → Bool
  | 0, _ => true
  | level + 1, s => m.watch oracle fuel check (monitor steps level) level steps s

variable {m oracle fuel check}

private theorem watch_visits (hvisits : m.Visits oracle fuel level s moment) :
    ∀ n, m.watch oracle fuel check (m.monitor oracle fuel check steps (level - 1)) (level - 1) n s = true →
      check moment = true := by
  induction hvisits with
  | here =>
    intro n hwatch
    cases n with
    | zero => simp [watch] at hwatch
    | succ n =>
      simp only [watch, Bool.and_eq_true] at hwatch
      exact hwatch.1
  | joined hstep =>
    intro n hwatch
    cases n with
    | zero => simp [watch] at hwatch
    | succ n =>
      simp only [watch, hstep, Bool.and_eq_true] at hwatch
      exact hwatch.2.1.1
  | onward hstep _ ih =>
    intro n hwatch
    cases n with
    | zero => simp [watch] at hwatch
    | succ n =>
      simp only [watch, hstep, Bool.and_eq_true] at hwatch
      exact ih n hwatch.2
  | @beneath level _ _ _ _ _ hstep hrest ih =>
    intro n hwatch
    cases n with
    | zero => simp [watch] at hwatch
    | succ n =>
      simp only [watch, hstep, Bool.and_eq_true] at hwatch
      have hbelow := hwatch.2.1.2
      cases level with
      | zero => cases hrest
      | succ level => exact ih steps hbelow
  | resumed hstep hresume _ ih =>
    intro n hwatch
    cases n with
    | zero => simp [watch] at hwatch
    | succ n =>
      simp only [watch, hstep, Nat.add_sub_cancel, hresume, Bool.and_eq_true] at hwatch
      exact ih n hwatch.2.2

theorem monitor_visits (h : m.monitor oracle fuel check steps level s = true)
    {moment : Moment σ γ ρ} (hvisits : m.Visits oracle fuel level s moment) : check moment = true := by
  cases level with
  | zero => cases hvisits
  | succ level => exact watch_visits hvisits steps h

end Machine

end StateProgram
