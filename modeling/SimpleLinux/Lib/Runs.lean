/-
  File:      SimpleLinux/Lib/Runs.lean
  Subject:   Runs of a machine given by an executable step function.

  A machine is a function `step : σ → α → Option (σ × List ε)`: in state `s` the action `a` is
  either impossible (`none`) or leads to a successor and emits events. A RUN from `s₀` is a chain
  of steps each of which meets a condition `ok` on the state before the step and the action taken
  there; `ok` is `anyStep` for the unconditional runs.

  * `Run step ok s₀ es s` -- the runs, with the events emitted so far;
  * `Run.invariant` -- what holds at the start and over every admitted step holds on every run;
    `Run.each_event` -- what every step's events satisfy, all events of a run do;
  * `Run.trans`, `Run.mono`, `Run.image`, `Run.any` -- runs compose, and a weaker condition admits
    more;
  * `Along` -- a condition met at every point of an explicit list of actions;
  * `exec`, `run_of_exec` -- an explicit list of actions, evaluated; a run read off a computation.
-/
import Mathlib.Data.List.Basic
import Mathlib.Tactic.Common

namespace Runs

variable {σ α ε : Type}

/-- The condition that admits every step. -/
def anyStep (_ : σ) (_ : α) : Prop := True

/-- **The runs of a machine from `s₀`** whose steps all meet `ok`, with the events emitted. -/
inductive Run (step : σ → α → Option (σ × List ε)) (ok : σ → α → Prop) (s₀ : σ) :
    List ε → σ → Prop where
  | start : Run step ok s₀ [] s₀
  | next {es es' : List ε} {s s' : σ} (a : α) (h : Run step ok s₀ es s) (hok : ok s a)
      (hs : step s a = some (s', es')) : Run step ok s₀ (es ++ es') s'

section Rules

variable {step : σ → α → Option (σ × List ε)} {ok ok' : σ → α → Prop}

/-- **The invariant rule.** -/
theorem Run.invariant {I : σ → Prop} {s₀ s : σ} {es : List ε} (h : Run step ok s₀ es s)
    (h0 : I s₀)
    (hstep : ∀ s a s' es', I s → ok s a → step s a = some (s', es') → I s') : I s := by
  induction h with
  | start => exact h0
  | next a _ hok hs ih => exact hstep _ a _ _ ih hok hs

/-- The invariant rule for a property that also reads the events emitted so far. -/
theorem Run.invariant_events {I : List ε → σ → Prop} {s₀ s : σ} {es : List ε}
    (h : Run step ok s₀ es s) (h0 : I [] s₀)
    (hstep : ∀ es s a s' es', I es s → ok s a → step s a = some (s', es') → I (es ++ es') s') :
    I es s := by
  induction h with
  | start => exact h0
  | next a _ hok hs ih => exact hstep _ _ a _ _ ih hok hs

/-- **The rule for events**: if every step, under an invariant, emits events that fit what was
    emitted before them, then so do all events of a run. -/
theorem Run.each_event {I : List ε → σ → Prop} {P : List ε → ε → Prop} {s₀ s : σ} {es : List ε}
    (h : Run step ok s₀ es s) (h0 : I [] s₀)
    (hstep : ∀ es s a s' es', I es s → ok s a → step s a = some (s', es') →
      I (es ++ es') s' ∧ ∀ es₁ e es₂, es' = es₁ ++ e :: es₂ → P (es ++ es₁) e) :
    ∀ es₁ e es₂, es = es₁ ++ e :: es₂ → P es₁ e := by
  induction h with
  | start =>
    intro es₁ e es₂ he
    cases es₁ <;> cases he
  | next a hr hok hs ih =>
    intro es₁ e es₂ he
    have hI := hr.invariant_events h0 fun es s a s' es' hI hok hs =>
      (hstep es s a s' es' hI hok hs).1
    have hnew := (hstep _ _ a _ _ hI hok hs).2
    -- the event is one of the last step, or an earlier one
    rcases List.append_eq_append_iff.mp he with ⟨as, rfl, hlast⟩ | ⟨bs, hes, hrest⟩
    · exact hnew as e es₂ hlast
    · rcases bs with - | ⟨b, bs⟩
      · rw [List.append_nil] at hes
        have hP := hnew [] e es₂ hrest.symm
        rwa [List.append_nil, hes] at hP
      · cases hrest
        exact ih es₁ e bs hes

/-- The one event of a step. -/
theorem event_of_single {e e' : ε} {es₁ es₂ : List ε} (h : [e] = es₁ ++ e' :: es₂) :
    es₁ = [] ∧ e' = e := by
  rcases List.append_eq_singleton_iff.mp h.symm with ⟨hnil, he⟩ | ⟨-, he⟩
  · cases he
    exact ⟨hnil, rfl⟩
  · cases he

/-- A weaker condition admits every run of a stronger one. -/
theorem Run.mono (hok : ∀ s a, ok s a → ok' s a) {s₀ s : σ} {es : List ε}
    (h : Run step ok s₀ es s) : Run step ok' s₀ es s := by
  induction h with
  | start => exact .start
  | next a _ h1 hs ih => exact .next a ih (hok _ _ h1) hs

/-- Runs compose. -/
theorem Run.trans {s₀ s₁ s₂ : σ} {es₁ es₂ : List ε} (h₁ : Run step ok s₀ es₁ s₁)
    (h₂ : Run step ok s₁ es₂ s₂) : Run step ok s₀ (es₁ ++ es₂) s₂ := by
  induction h₂ with
  | start => rw [List.append_nil]; exact h₁
  | next a _ hok hs ih => rw [← List.append_assoc]; exact .next a ih hok hs

/-- Runs of some of the actions. -/
theorem Run.image {β : Type} {f : β → α} {okf : σ → β → Prop} (hok : ∀ s b, okf s b → ok s (f b))
    {s₀ s : σ} {es : List ε} (h : Run (fun s b => step s (f b)) okf s₀ es s) :
    Run step ok s₀ es s := by
  induction h with
  | start => exact .start
  | next b _ h1 hs ih => exact .next (f b) ih (hok _ _ h1) hs

theorem Run.any {s₀ s : σ} {es : List ε} (h : Run step ok s₀ es s) :
    Run step anyStep s₀ es s :=
  h.mono fun _ _ _ => trivial

/-- **`P` is met wherever a list of actions leads**, also by an action that turns out to be
    impossible. -/
def Along (step : σ → α → Option (σ × List ε)) (P : σ → α → Prop) : σ → List α → Prop
  | _, [] => True
  | s, a :: as => P s a ∧ ∀ s' es, step s a = some (s', es) → Along step P s' as

theorem along_congr {P Q : σ → α → Prop} (h : ∀ s a, P s a ↔ Q s a) (s : σ) (as : List α) :
    Along step P s as ↔ Along step Q s as := by
  induction as generalizing s with
  | nil => exact Iff.rfl
  | cons a as ih => exact and_congr (h s a) (forall₃_congr fun s' _ _ => ih s')

end Rules

/-! ## Evaluating a run -/

/-- The states and events of an explicit list of actions, each guarded by `guard`. -/
def exec (step : σ → α → Option (σ × List ε)) (guard : σ → α → Bool) :
    σ → List α → Option (σ × List ε)
  | s, [] => some (s, [])
  | s, a :: as =>
    if guard s a then
      match step s a with
      | some (s', es) => (exec step guard s' as).map fun r => (r.1, es ++ r.2)
      | none => none
    else none

theorem run_of_exec {step : σ → α → Option (σ × List ε)} {guard : σ → α → Bool} :
    ∀ (as : List α) {s s' : σ} {es : List ε}, exec step guard s as = some (s', es) →
      Run step (fun s a => guard s a = true) s es s'
  | [], s, s', es, h => by
      simp only [exec, Option.some.injEq, Prod.mk.injEq] at h
      obtain ⟨rfl, rfl⟩ := h
      exact .start
  | a :: as, s, s', es, h => by
      unfold exec at h
      split at h
      · rename_i hg
        split at h
        · rename_i s₁ es₁ hs
          obtain ⟨⟨s₂, es₂⟩, hr, he⟩ := Option.map_eq_some_iff.mp h
          simp only [Prod.mk.injEq] at he
          obtain ⟨rfl, rfl⟩ := he
          have h1 : Run step (fun s a => guard s a = true) s ([] ++ es₁) s₁ :=
            .next a .start hg hs
          exact h1.trans (run_of_exec as hr)
        · cases h
      · cases h

end Runs
