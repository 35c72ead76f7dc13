/-
  File:      SimpleLinux/Process/InterruptFlag.lean
  Subject:   The interrupt flag across a call of `schedule()`.

  `schedule()` reads the flag, disables interrupts, may switch away for long, and enables them again
  only if they were. Between the two the flag is a local of a context that is not running: here it
  is the context's saved `Context`, and `InSchedule` says who holds which.

  * `FlagEvent`, `flagStep` -- the machine with the calls and returns of `schedule()` as its events;
  * `InSchedule` -- a context is inside `schedule()`, called with that flag; `traces_step` -- one
    step;
  * `flag_returned` -- every return leaves the flag of the last call, on every run.
-/
import SimpleLinux.Process.Invariant

namespace SimpleLinux

open Runs Scheduler

/-- `schedule()` is called, or returns, with the given flag; the context is that of a slot, or the
    one outside every slot. -/
inductive FlagEvent where
  | entered (i : Option Nat) (flag : Bool)
  | left (i : Option Nat) (flag : Bool)
  deriving DecidableEq, Repr

/-- What a step from `m` to `m'` says about `schedule()`. -/
def flagEvents (m m' : Machine) : List FlagEvent :=
  match m.cpu, m'.cpu with
  | .run (.sched _), .sched _ _ => [.entered m.sched.current m.intr]
  | .handler _, .sched _ _ => [.entered m.sched.current m.intr]
  | .resumed (.schedule _ _), _ => [.left m.sched.current m'.intr]
  | _, _ => []

def flagStep (m : Machine) (a : Action) : Option (Machine × List FlagEvent) :=
  (m.step a).map fun r => (r.1, flagEvents m r.1)

/-- The flag of the last call that context `i` made. -/
def lastFlag (i : Option Nat) (fs : List FlagEvent) : Option Bool :=
  fs.foldl (fun l f => match f with
    | .entered j b => if j = i then some b else l
    | .left _ _ => l) none

theorem lastFlag_append (i : Option Nat) (fs : List FlagEvent) (f : FlagEvent) :
    lastFlag i (fs ++ [f]) = match f with
      | .entered j b => if j = i then some b else lastFlag i fs
      | .left _ _ => lastFlag i fs := by
  rw [lastFlag, List.foldl_append]
  rfl

/-! ## 1. Who is inside -/

/-- The context that the CPU executes: during a switch still the one that is left. -/
def Machine.owner (m : Machine) : Option Nat :=
  match m.cpu with
  | .switch save _ => save.map Prod.fst
  | _ => m.sched.current

/-- The context that executes `schedule()`, and its `was_enabled`. -/
def Machine.inside (m : Machine) : Option (Option Nat × Bool) :=
  match m.cpu with
  | .sched w _ | .resumed (.schedule w _) => some (m.sched.current, w)
  | .switch (some (i, .schedule w _)) _ => some (some i, w)
  | _ => none

/-- **Context `i` is inside `schedule()`, called with flag `w`**: it executes it, or is suspended in
    it. -/
def InSchedule (m : Machine) (i : Option Nat) (w : Bool) : Prop :=
  m.inside = some (i, w) ∨
    ∃ j t r, i = some j ∧ m.sched.task? j = some t ∧ t.ctx = .schedule w r ∧ m.owner ≠ some j

/-- Code outside `schedule()`. -/
def Code.plain : Code → Bool
  | .sched _ _ | .switch _ _ | .resumed (.schedule _ _) => false
  | _ => true

/-- Whoever is inside `schedule()` after a step has just called it, or was inside before. -/
def Traces (m m' : Machine) : Prop :=
  ∀ i w, InSchedule m' i w → flagEvents m m' = [.entered i w] ∨
    (InSchedule m i w ∧ ∀ b, flagEvents m m' ≠ [.entered i b])

section Step

variable {m m' : Machine}

theorem plain_inside (h : m.cpu.plain = true) : m.inside = none := by
  unfold Machine.inside
  split
  · rename_i hc
    rw [hc] at h
    cases h
  · rename_i hc
    rw [hc] at h
    cases h
  · rename_i hc
    rw [hc] at h
    cases h
  · rfl

theorem plain_owner (h : m.cpu.plain = true) : m.owner = m.sched.current := by
  unfold Machine.owner
  split
  · rename_i hc
    rw [hc] at h
    cases h
  · rfl

/-- Only a step into `schedule()` is a call of it. -/
theorem not_entered (h : ∀ w r, m'.cpu ≠ .sched w r) (i : Option Nat) (b : Bool) :
    flagEvents m m' ≠ [.entered i b] := by
  unfold flagEvents
  split
  · rename_i hc'
    exact absurd hc' (h _ _)
  · rename_i hc'
    exact absurd hc' (h _ _)
  · simp
  · simp

/-- A step that is not a call. -/
theorem traces_of (hns : ∀ w r, m'.cpu ≠ .sched w r)
    (hin : ∀ i w, m'.inside = some (i, w) → InSchedule m i w)
    (hback : ∀ j t' w r, m'.sched.task? j = some t' → m'.owner ≠ some j → t'.ctx = .schedule w r →
      InSchedule m (some j) w) : Traces m m' := by
  intro i w h
  refine .inr ⟨?_, not_entered hns i⟩
  rcases h with h | ⟨j, t', r, rfl, ht', hctx, hown⟩
  · exact hin i w h
  · exact hback j t' w r ht' hown hctx

/-- A step to code outside `schedule()`. -/
theorem traces_plain (hp : m'.cpu.plain = true)
    (hback : ∀ j t' w r, m'.sched.task? j = some t' → m'.sched.current ≠ some j →
      t'.ctx = .schedule w r → InSchedule m (some j) w) : Traces m m' := by
  refine traces_of (fun w r hc => ?_) (fun i w h => ?_) fun j t' w r ht' hj => ?_
  · rw [hc] at hp
    cases hp
  · rw [plain_inside hp] at h
    cases h
  · rw [plain_owner hp] at hj
    exact hback j t' w r ht' hj

/-- A task that was suspended before, and whose context has not changed. -/
theorem InSchedule.saved {j : Nat} {t : Task} {w : Bool} {r : Ret} (ht : m.sched.task? j = some t)
    (hctx : t.ctx = .schedule w r) (hj : m.owner ≠ some j) : InSchedule m (some j) w :=
  .inr ⟨j, t, r, rfl, ht, hctx, hj⟩

/-- Such a step that changes tasks in place, but not who runs and no context. -/
theorem traces_mapped {f : Nat → Task → Task} (hp : m'.cpu.plain = true)
    (hown : m.owner = m.sched.current) (hm : Mapped f m.sched m'.sched)
    (hctx : ∀ j t, (f j t).ctx = t.ctx) : Traces m m' := by
  refine traces_plain hp fun j t' w r ht' hj hr => ?_
  obtain ⟨t, ht, rfl⟩ := hm.back ht'
  rw [hctx] at hr
  rw [hm.current, ← hown] at hj
  exact .saved ht hr hj

/-- Such a step that leaves the table alone. -/
theorem traces_same (hp : m'.cpu.plain = true) (hown : m.owner = m.sched.current)
    (hs : m'.sched = m.sched) : Traces m m' := by
  refine traces_plain hp fun j t w r ht hj hr => ?_
  rw [hs] at ht hj
  exact .saved ht hr (hown ▸ hj)

/-- `schedule()` is called with the flag of the moment. -/
theorem traces_enter {f : Nat → Task → Task} {r : Ret} (hc' : m'.cpu = .sched m.intr r)
    (he : flagEvents m m' = [.entered m.sched.current m.intr]) (hown : m.owner = m.sched.current)
    (hm : Mapped f m.sched m'.sched) (hctx : ∀ j t, (f j t).ctx = t.ctx) : Traces m m' := by
  have hown' : m'.owner = m.sched.current := by
    rw [Machine.owner, hc']
    exact hm.current
  have hin : m'.inside = some (m.sched.current, m.intr) := by
    rw [Machine.inside, hc', ← hm.current]
  intro i w h
  rw [he]
  rcases h with h | ⟨j, t', r', rfl, ht', hr, hj⟩
  · rw [hin] at h
    cases h
    exact .inl rfl
  · obtain ⟨t, ht, rfl⟩ := hm.back ht'
    rw [hctx] at hr
    rw [hown'] at hj
    refine .inr ⟨.inr ⟨j, t, r', rfl, ht, hr, hown ▸ hj⟩, fun b hb => hj ?_⟩
    simp only [List.cons.injEq, FlagEvent.entered.injEq, and_true] at hb
    exact hb.1

/-- `prep_switch` changes no context. -/
theorem prepSwitch_ctx {s : Scheduler} {idx j : Nat} {t' : Task}
    (h : (s.prepSwitch idx).2.task? j = some t') : ∃ t, s.task? j = some t ∧ t'.ctx = t.ctx := by
  rw [task?_prepSwitch] at h
  obtain ⟨t, ht, rfl⟩ := Option.map_eq_some_iff.mp h
  refine ⟨t, ht, ?_⟩
  split <;> rfl

/-- `schedule()` has chosen: its caller, if it is a task, is left in it. -/
theorem traces_schedSome {w : Bool} {r : Ret} (hc : m.cpu = .sched w r) (idx : Nat) :
    Traces m { m with
      sched := (m.sched.demoted.prepSwitch idx).2
      cpu := .switch (m.sched.demoted.current.map fun i => (i, .schedule w r)) idx } := by
  have hd := demoted_spec m.sched
  have hin : m.inside = some (m.sched.current, w) := by rw [Machine.inside, hc]
  have hown : m.owner = m.sched.current := by rw [Machine.owner, hc]
  rw [hd.current]
  refine traces_of (fun _ _ h => by cases h) (fun i w' h => ?_) fun j t' w' r' ht' hj hr => ?_
  · rcases hcur : m.sched.current with - | cur
    · rw [hcur] at h
      cases h
    · rw [hcur] at h hin
      cases h
      exact .inl hin
  · obtain ⟨t₁, ht₁, he⟩ := prepSwitch_ctx ht'
    obtain ⟨t, ht, rfl⟩ := hd.back ht₁
    have hr' : t.ctx = .schedule w' r' := by
      rw [← hr, he]
      split <;> simp
    refine .saved ht hr' fun ho => hj ?_
    rw [hown] at ho
    simp [Machine.owner, ho]

/-- `__switch` away from a task stores its context and loads another one. -/
theorem traces_switchTask (hI : Inv m) {i new : Nat} {c : Context} {t : Task}
    (hc : m.cpu = .switch (some (i, c)) new) (ht : (m.sched.saveCtx i c).task? new = some t) :
    Traces m { m with sched := m.sched.saveCtx i c, cpu := .resumed t.ctx } := by
  have hcur := hI.cpu.entered hc
  have hs := saveCtx_spec m.sched i c
  have hown : m.owner = some i := by rw [Machine.owner, hc]; rfl
  -- the context that is left is inside with what it stores, the others as before
  have hback : ∀ j t' w r, (m.sched.saveCtx i c).task? j = some t' → t'.ctx = .schedule w r →
      InSchedule m (some j) w := by
    intro j t' w r ht' hr
    obtain ⟨t₀, ht₀, rfl⟩ := hs.back ht'
    by_cases hij : i = j
    · subst hij
      rw [if_pos rfl] at hr
      exact .inl (by rw [Machine.inside, hc, show c = _ from hr])
    · rw [if_neg hij] at hr
      exact .saved ht₀ hr (by rw [hown]; exact fun h => hij (Option.some.inj h))
  refine traces_of (fun _ _ h => by cases h) (fun i' w h => ?_) fun j t' w r ht' _ hr =>
    hback j t' w r ht' hr
  rcases hctx : t.ctx with - | ⟨w', r⟩
  · rw [hctx] at h
    cases h
  · rw [hctx] at h
    simp only [Machine.inside, hs.current, hcur, Option.some.injEq, Prod.mk.injEq] at h
    obtain ⟨rfl, rfl⟩ := h
    exact hback new t w' r ht hctx

/-- `__switch` away from the context outside every slot. -/
theorem traces_switchBoot (hI : Inv m) {new : Nat} {t : Task} (hc : m.cpu = .switch none new)
    (ht : m.sched.task? new = some t) : Traces m { m with cpu := .resumed t.ctx } := by
  have hcur := hI.cpu.entered hc
  have hown : m.owner = none := by rw [Machine.owner, hc]; rfl
  refine traces_of (fun _ _ h => by cases h) (fun i w h => ?_) fun j t' w r ht' _ hr =>
    .saved ht' hr (by rw [hown]; simp)
  rcases hctx : t.ctx with - | ⟨w', r⟩
  · rw [hctx] at h
    cases h
  · rw [hctx] at h
    simp only [Machine.inside, hcur, Option.some.injEq, Prod.mk.injEq] at h
    obtain ⟨rfl, rfl⟩ := h
    exact .saved ht hctx (by rw [hown]; simp)

/-- The contexts after an exit. -/
theorem inSchedule_exit {cur : Nat} {dead : TaskId} (hown : m.owner = some cur) {j : Nat} {t : Task}
    {w : Bool} {r : Ret} (ht : ((m.sched.wakeJoiners cur dead).reap cur).task? j = some t)
    (hr : t.ctx = .schedule w r) : InSchedule m (some j) w := by
  obtain ⟨hne, t₀, ht₀, rfl⟩ := exit_back ht
  rw [wakeJoiner_ctx] at hr
  exact .saved ht₀ hr (by rw [hown]; exact fun h => hne (Option.some.inj h))

/-- **One step.** -/
theorem traces_step (hI : Inv m) {a : Action} {es : List Event} (h : StepView m a m' es) :
    Traces m m' := by
  cases h with
  | timer _ hc _ | startSome _ hc _ | startNone hc _ | yieldNow _ hc _ | sleep _ hc | join _ hc
  | exit hc | starting _ hc | clock _ _ hc _ | clockPanic _ _ hc | joinGone _ hc _
  | joinThere _ hc _ | ret _ hc | resumedCaller _ _ hc | resumedTick _ _ hc | eoi _ hc =>
    exact traces_same rfl (by rw [Machine.owner, hc]) rfl
  | spawn p id s hc hp hs =>
    obtain ⟨-, -, hcur, -, -, k, hk, ht⟩ := add_spec hs
    have hown : m.owner = m.sched.current := by rw [Machine.owner, hc]
    have hplain : m.cpu.plain = true := by rw [hc]; rfl
    refine traces_plain hplain fun j t' w r ht' hj hr => ?_
    rw [ht] at ht'
    split at ht'
    · cases ht'
      cases hr
    · exact .saved ht' hr (by rw [hown, ← hcur]; exact hj)
  | markSleep _ _ _ _ hc hs | markJoin _ _ hc hs =>
    obtain ⟨cur, -, hm⟩ := markBlocked_spec hs
    exact traces_mapped rfl (by rw [Machine.owner, hc]) hm fun j t => by split <;> rfl
  | trampoline _ hc hs | trampolineEmpty _ hc hs =>
    obtain ⟨cur, -, hm⟩ := takeFunc_spec hs
    exact traces_mapped rfl (by rw [Machine.owner, hc]) hm fun j t => by split <;> rfl
  | schedEnter c hc =>
    have hm : Mapped (fun _ t => t) m.sched m.sched := ⟨fun j => by simp, rfl, rfl, rfl, rfl⟩
    exact traces_enter rfl (by simp [flagEvents, hc]) (by rw [Machine.owner, hc]) hm fun _ _ => rfl
  | handler p hc =>
    have hown : m.owner = m.sched.current := by rw [Machine.owner, hc]
    have hm := tick_spec m.sched ((m.ticks + 1) % 2 ^ 64)
    by_cases hpre : (m.sched.tick ((m.ticks + 1) % 2 ^ 64)).1 = true
    · simp only [hpre, if_true]
      exact traces_enter rfl (by simp [flagEvents, hc]) hown hm fun _ _ => tickTask_ctx ..
    · simp only [hpre]
      exact traces_mapped rfl hown hm fun _ _ => tickTask_ctx ..
  | schedSome w r idx hc hn => exact traces_schedSome hc idx
  | schedNone w r hc hn =>
    have hd := demoted_spec m.sched
    have hown : m.owner = m.sched.current := by rw [Machine.owner, hc]
    refine traces_of (fun _ _ h => by cases h) (fun i w' h => ?_) fun j t' w' r' ht' hj hr => ?_
    · cases h
      rw [hd.current]
      exact .inl (by rw [Machine.inside, hc])
    · obtain ⟨t, ht, rfl⟩ := hd.back ht'
      have hr' : t.ctx = .schedule w' r' := by
        rw [← hr]
        split <;> simp
      refine .saved ht hr' ?_
      rw [hown, ← hd.current]
      exact hj
  | switchBoot new t hc ht => exact traces_switchBoot hI hc ht
  | switchTask i c new t hc ht => exact traces_switchTask hI hc ht
  | startSection idx hc =>
    have hown : m.owner = none := by
      rw [Machine.owner, hc]
      exact (hI.cpu.boot (by rw [hc]; rfl)).1
    refine traces_of (fun _ _ h => by cases h) (fun i w h => by cases h) fun j t' w r ht' _ hr => ?_
    obtain ⟨t, ht, he⟩ := prepSwitch_ctx ht'
    exact .saved ht (he.symm.trans hr) (by rw [hown]; simp)
  | exitSome cur dead idx hc hcur ht hn =>
    have hown : m.owner = some cur := by rw [Machine.owner, hc]; exact hcur
    refine traces_of (fun _ _ h => by cases h) (fun i w h => by cases h) fun j t' w r ht' _ hr => ?_
    obtain ⟨t, ht, he⟩ := prepSwitch_ctx ht'
    exact inSchedule_exit hown ht (he.symm.trans hr)
  | exitNone cur dead hc hcur ht hn =>
    have hown : m.owner = some cur := by rw [Machine.owner, hc]; exact hcur
    exact traces_plain rfl fun j t w r ht' _ hr => inSchedule_exit hown ht' hr

/-- `schedule()` returns with the flag that its context kept: every switch was made with interrupts
    disabled. -/
theorem intr_of_resumed (hI : Inv m) {w : Bool} {r : Ret} (hc : m.cpu = .resumed (.schedule w r))
    {a : Action} {es : List Event} (h : m.step a = some (m', es)) : m'.intr = w := by
  have hoff : m.intr = false := by rw [hI.cpu.flag, hc]; rfl
  cases a with
  | cont =>
    have hcont : m.contResumed (.schedule w r) = some (m', es) := by
      rw [← h, Machine.step, Machine.cont, hc]
    cases r with
    | caller c =>
      cases hcont
      simp [hoff]
    | tick p =>
      cases hcont
      simp [hoff]
  | _ => simp [Machine.step, hc] at h

theorem flagEvents_cases (m m' : Machine) : flagEvents m m' = [] ∨
    (∃ i b, flagEvents m m' = [.entered i b]) ∨
    ∃ w r, m.cpu = .resumed (.schedule w r) ∧
    flagEvents m m' = [.left m.sched.current m'.intr] := by
  unfold flagEvents
  split
  · exact .inr (.inl ⟨_, _, rfl⟩)
  · exact .inr (.inl ⟨_, _, rfl⟩)
  · rename_i hc
    exact .inr (.inr ⟨_, _, hc, rfl⟩)
  · exact .inl rfl

/-! ## 2. Runs -/

/-- Every context inside `schedule()` keeps the flag of its last call. -/
structure FlagInv (fs : List FlagEvent) (m : Machine) : Prop where
  inv : Inv m
  kept : ∀ i w, InSchedule m i w → lastFlag i fs = some w

theorem FlagInv.step {fs : List FlagEvent} (hF : FlagInv fs m) {a : Action} {es : List Event}
    (h : m.step a = some (m', es)) : FlagInv (fs ++ flagEvents m m') m' := by
  refine ⟨hF.inv.step h, fun i w hA => ?_⟩
  rcases traces_step hF.inv (step_view hF.inv.cpu.active h) i w hA with he | ⟨hA, hne⟩
  · rw [he, lastFlag_append]
    exact if_pos rfl
  · have hkept := hF.kept i w hA
    rcases flagEvents_cases m m' with he | ⟨j, b, he⟩ | ⟨-, -, -, he⟩
    · rw [he, List.append_nil]
      exact hkept
    · have hij : j ≠ i := fun hij => hne b (hij ▸ he)
      rw [he, lastFlag_append]
      exact (if_neg hij).trans hkept
    · rw [he, lastFlag_append]
      exact hkept

/-- Nobody is inside `schedule()` at boot. -/
theorem flagInv_boot : FlagInv [] Machine.boot := by
  refine ⟨inv_boot, fun i w hA => ?_⟩
  rcases hA with hA | ⟨j, t, r, -, ht, -⟩
  · cases hA
  · simp [Machine.boot, Scheduler.new, task?, Slots.get] at ht

/-- What is asked of a return, given the calls and returns before it. -/
def Returned (fs : List FlagEvent) : FlagEvent → Prop
  | .entered _ _ => True
  | .left i b => lastFlag i fs = some b

/-- **Every return of `schedule()` leaves the flag of the call**, on every run. -/
theorem flag_returned {ok : Machine → Action → Prop} {fs : List FlagEvent}
    (h : Run flagStep ok Machine.boot fs m) :
    ∀ fs₁ f fs₂, fs = fs₁ ++ f :: fs₂ → Returned fs₁ f := by
  refine h.each_event flagInv_boot fun fs m a m' fs' hF _ hs => ?_
  obtain ⟨⟨m₁, es⟩, hstep, he⟩ := Option.map_eq_some_iff.mp hs
  cases he
  refine ⟨hF.step hstep, fun fs₁ f fs₂ hsplit => ?_⟩
  rcases flagEvents_cases m m₁ with he | ⟨i, b, he⟩ | ⟨w, r, hc, he⟩
  · rw [he] at hsplit
    cases fs₁ <;> cases hsplit
  · rw [he] at hsplit
    obtain ⟨-, rfl⟩ := event_of_single hsplit
    trivial
  · rw [he] at hsplit
    obtain ⟨rfl, rfl⟩ := event_of_single hsplit
    rw [List.append_nil, Returned, intr_of_resumed hF.inv hc hstep]
    exact hF.kept _ w (.inl (by rw [Machine.inside, hc]))

end Step

end SimpleLinux
