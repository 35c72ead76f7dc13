/-
  File:      SimpleLinux/Process/Idle.lean
  Subject:   Is the CPU ever lost?

  When the last runnable task exits, `exit_current` leaves nobody current and idles. A tick wakes
  the sleepers that are due, but it only ever preempts a CURRENT task: with nobody current it
  dispatches nobody, so a sleeper that was left behind at such an exit becomes Ready and stays so.

  * `keepsCpu` -- the condition on a step: a task exits while others sleep only if somebody can
    take over, and no tick falls into the window in which `start()` has chosen a task and not yet
    disabled interrupts;
  * `IdleInv` -- whoever is left behind in the idle loop waits for a task that never comes;
  * `cpu_never_lost` -- in runs whose steps all meet the condition, no tick ends with a Ready task
    and nobody current;
  * `cpu_lost` -- a task sleeps, the other exits.
-/
import SimpleLinux.Process.Join

namespace SimpleLinux

open Runs

/-- Blocked in `sleep`. -/
def Task.asleep (t : Task) : Bool :=
  match t.state, t.block with
  | .blocked, .sleep _ => true
  | _, _ => false

/-- Ready, or woken by the exit of `dead`. -/
def Task.canFollow (dead : TaskId) (t : Task) : Bool :=
  t.isReady || (t.state == .blocked && t.block == .join dead)

/-- The slots of the tasks that stay when the current one exits. -/
def Scheduler.others (s : Scheduler) (cur : Nat) : List (Option Task) := Slots.clear s.slots cur

/-- A task exits while others sleep only if somebody can take over; no tick falls between the
    choice of `start()` and its `interrupts::disable()`. -/
def keepsCpu (m : Machine) (a : Action) : Bool :=
  match a, m.cpu with
  | .timer, .run (.starting _) => false
  | .cont, .exitSection =>
    match m.sched.current with
    | some cur =>
      (m.sched.task? cur).all fun dead =>
        !(m.sched.others cur).any (fun o => o.any Task.asleep) ||
          (m.sched.others cur).any fun o => o.any (Task.canFollow dead.id)
    | none => true
  | _, _ => true

/-- The runs all of whose steps meet the condition. -/
abbrev BusyRun (es : List Event) (m : Machine) : Prop :=
  KernelRun (fun m a => keepsCpu m a = true) es m

/-- `kernel_main` has not called `start()` yet. -/
def Pos.beforeStart : Pos → Bool
  | .boot | .sched .bootYield | .ret .bootYield => true
  | _ => false

/-- Everybody left behind in the idle loop waits in `join`, and no tick is being processed in the
    window of `start()`. -/
structure IdleInv (m : Machine) : Prop where
  joining : m.cpu.holder = .nobody → ∀ i t, m.sched.task? i = some t →
    t.state = .blocked ∧ ∃ id, t.block = .join id
  window : ∀ idx, m.cpu ≠ .handler (.starting idx)

section Idle

variable {m m' : Machine} {s : Scheduler}

open Scheduler

theorem any_others {cur : Nat} {p : Task → Bool} :
    (s.others cur).any (fun o => o.any p) = true ↔
      ∃ j t, cur ≠ j ∧ s.task? j = some t ∧ p t = true := by
  have hget : ∀ j, Slots.get (s.others cur) j = if cur = j then none else s.task? j :=
    fun j => Slots.get_clear _ _ _
  rw [List.any_eq_true]
  constructor
  · intro ⟨o, ho, hp⟩
    obtain ⟨t, rfl, hp⟩ := (Option.any_eq_true _ _).mp hp
    obtain ⟨j, hj⟩ := List.getElem?_of_mem ho
    have hj := Slots.get_eq_some_iff.mpr hj
    rw [hget] at hj
    split at hj
    · cases hj
    · rename_i hne
      exact ⟨j, t, hne, hj, hp⟩
  · intro ⟨j, t, hne, ht, hp⟩
    refine ⟨some t, List.mem_of_getElem? (i := j) (Slots.get_eq_some_iff.mp ?_), hp⟩
    rw [hget, if_neg hne]
    exact ht

/-- A task that can follow the exit of `dead` is Ready after it. -/
theorem wakeJoiner_canFollow {dead : TaskId} {t : Task} (h : t.canFollow dead = true) :
    (wakeJoiner dead t).state = .ready := by
  simp only [Task.canFollow, Bool.or_eq_true, Task.isReady_iff, Bool.and_eq_true, beq_iff_eq] at h
  unfold wakeJoiner
  rcases h with h | h
  · rw [if_neg fun hc => by rw [h] at hc; cases hc.1]
    exact h
  · rw [if_pos h]

/-- Under the condition an exit that finds no successor leaves only joiners behind. -/
theorem exitNone_joining (hI : Inv m) {cur : Nat} {dead : Task} (hc : m.cpu = .exitSection)
    (hok : keepsCpu m .cont = true) (hcur : m.sched.current = some cur)
    (ht : m.sched.task? cur = some dead)
    (hn : (m.sched.wakeJoiners cur dead.id).nextReady = none) {j : Nat} {u : Task}
    (hu : ((m.sched.wakeJoiners cur dead.id).reap cur).task? j = some u) :
    u.state = .blocked ∧ ∃ id, u.block = .join id := by
  have hw := wakeJoiners_spec m.sched cur dead.id
  have hnone := (nextReady_none_iff (by
    rw [hw.cursor, hw.length]
    exact hI.sched.cursor_le)).mp hn
  have hok' : TaskOk u := (hI.sched.exit hcur dead.id).ok hu
  obtain ⟨hne, t, hj, rfl⟩ := exit_back hu
  -- nobody is Ready after the wake-ups, in particular not this task
  have hready : ∀ k t, cur ≠ k → m.sched.task? k = some t →
      (wakeJoiner dead.id t).state ≠ .ready := by
    intro k t hk htk hr
    refine hnone k ⟨_, hw.forth htk, ?_⟩
    rw [if_neg hk]
    exact hr
  have hblocked : (wakeJoiner dead.id t).state = .blocked := by
    cases hs : (wakeJoiner dead.id t).state with
    | ready => exact absurd hs (hready j t hne hj)
    | running => exact absurd hs (exit_none_running hI.sched hcur hu)
    | zombie => exact absurd hs hok'.notZombie
    | blocked => rfl
  refine ⟨hblocked, ?_⟩
  have hself := (wakeJoiner_blocked hblocked).1
  rw [hself] at hblocked hok' ⊢
  cases hb : t.block with
  | none => exact absurd hb (hok'.blocked_iff.mp hblocked)
  | join id => exact ⟨id, rfl⟩
  | sleep wake =>
    have hasleep : (m.sched.others cur).any (fun o => o.any Task.asleep) = true :=
      any_others.mpr ⟨j, t, hne, hj, by simp [Task.asleep, hblocked, hb]⟩
    simp only [keepsCpu, hc, hcur, ht, Option.all_some, hasleep, Bool.not_true,
      Bool.false_or] at hok
    obtain ⟨k, v, hk, hv, hf⟩ := any_others.mp hok
    exact absurd (wakeJoiner_canFollow hf) (hready k v hk hv)

/-- A joiner sleeps through a tick. -/
theorem wakeSleeper_join {now : Nat} {t : Task} {id : TaskId} (h : t.block = .join id) :
    wakeSleeper now t = t := by
  unfold wakeSleeper
  split
  · rename_i hb
    rw [h] at hb
    cases hb
  · rfl

theorem IdleInv.tick (hD : IdleInv m) {p : Pos} (hc : m.cpu = .handler p) (hp : p.holder = .nobody)
    (now j : Nat) (u : Task) (hu : (m.sched.tick now).2.task? j = some u) :
    u.state = .blocked ∧ ∃ id, u.block = .join id := by
  obtain ⟨t, ht, rfl⟩ := (tick_spec m.sched now).back hu
  obtain ⟨hs, id, hb⟩ := hD.joining (by rw [hc]; exact hp) j t ht
  rw [tickTask_state, tickTask_block, wakeSleeper_join hb]
  exact ⟨hs, id, hb⟩

/-- **Every step that meets the condition leaves only joiners to the idle loop.** -/
theorem IdleInv.step (hI : Inv m) (hD : IdleInv m) {a : Action} {es : List Event}
    (hok : keepsCpu m a = true) (h : StepView m a m' es) : IdleInv m' := by
  -- the steps into a place that is not the idle loop's
  have away : m'.cpu.holder ≠ .nobody → (∀ idx, m'.cpu ≠ .handler (.starting idx)) → IdleInv m' :=
    fun h1 h2 => ⟨fun h => absurd h h1, h2⟩
  have stay : m'.sched = m.sched → m'.cpu.holder = m.cpu.holder →
      (∀ idx, m'.cpu ≠ .handler (.starting idx)) → IdleInv m' := fun hs hh h2 =>
    ⟨fun h i t ht => hD.joining (hh ▸ h) i t (hs ▸ ht), h2⟩
  cases h with
  | timer p hc hi =>
    refine stay rfl (by rw [hc]; rfl) fun idx h => ?_
    cases h
    simp [keepsCpu, hc] at hok
  | spawn p id s hc hp hs =>
    refine away ?_ fun idx h => ?_
    · rw [show m.cpu = _ from hc]
      rcases hp with rfl | rfl <;> decide
    · rw [show m.cpu = _ from hc] at h
      cases h
  | startNone hc hn =>
    -- before the hand-over every task is Ready, so here there is none
    obtain ⟨-, hready⟩ := hI.cpu.boot (by rw [hc]; rfl)
    have hnone := (nextReady_none_iff hI.sched.cursor_le).mp hn
    exact ⟨fun _ i t ht => absurd ⟨t, ht, hready ht⟩ (hnone i), fun idx h => by cases h⟩
  | handler p hc =>
    have hcpu : ∀ b : Bool, (if b then Code.sched m.intr (.tick p) else .eoi p).holder = p.holder :=
      fun b => by cases b <;> rfl
    refine ⟨fun h j u hu => hD.tick hc ((hcpu _).symm.trans h) _ j u hu, fun idx h => ?_⟩
    dsimp only at h
    split at h <;> cases h
  | schedSome w r idx hc hn | startSection idx hc | exitSome cur dead idx hc hcur ht hn =>
    exact away (fun h => by cases h) fun idx h => by cases h
  | schedNone w r hc hn =>
    refine ⟨fun h => ?_, fun idx h => by cases h⟩
    -- `schedule()` is never called by the idle loop
    have hfit : r.Fits w := by have := hI.cpu.code; rw [hc] at this; exact this
    cases r with
    | caller c => cases c <;> cases h
    | tick p => cases hfit.2.symm.trans h
  | exitNone cur dead hc hcur ht hn =>
    exact ⟨fun _ j u hu => exitNone_joining hI hc hok hcur ht hn hu, fun idx h => by cases h⟩
  | switchBoot new t hc ht =>
    refine away ?_ fun idx h => by cases h
    show t.ctx.holder ≠ _
    rw [(hI.cpu.saved ht).holder]
    decide
  | switchTask i c new t hc ht =>
    refine away ?_ fun idx h => by cases h
    obtain ⟨t₀, ht₀, rfl⟩ := (saveCtx_spec m.sched i c).back ht
    have hcode : c.Ok := by have := hI.cpu.code; rw [hc] at this; exact this
    show Context.holder _ ≠ _
    split
    · rw [hcode.holder]; decide
    · rw [(hI.cpu.saved ht₀).holder]; decide
  | trampoline s hc | trampolineEmpty s hc | exit hc | markSleep called n wake s hc
  | markJoin id s hc =>
    exact away (fun h => by cases h) fun idx h => by cases h
  | yieldNow c hc hy =>
    refine away (fun h => ?_) fun idx h => by cases h
    rcases hy with rfl | rfl <;> cases h
  | ret c hc =>
    refine stay rfl ?_ fun idx h => by cases h
    rw [hc]
    cases c <;> rfl
  | startSome idx hc | sleep n hc | join id hc | starting idx hc | clock called n hc
  | clockPanic called n hc | joinGone id hc | joinThere id hc | schedEnter c hc
  | resumedCaller w c hc | resumedTick w p hc | eoi p hc =>
    exact stay rfl (by rw [hc]; rfl) fun idx h => by cases h

theorem idleInv_run {es : List Event} (h : BusyRun es m) : Inv m ∧ IdleInv m := by
  have hboot : IdleInv Machine.boot := ⟨fun h => (by cases h), fun idx h => (by cases h)⟩
  exact h.invariant (I := fun m => Inv m ∧ IdleInv m) ⟨inv_boot, hboot⟩ fun m a m' es hI hok hs =>
    ⟨hI.1.step hs, IdleInv.step hI.1 hI.2 hok (step_view hI.1.cpu.active hs)⟩

end Idle

/-- **No tick after `start()` ends with a Ready task and nobody current**, in every run in which
    tasks exit among sleepers only when somebody can take over and no tick falls into the window
    of `start()`. -/
theorem cpu_never_lost {es es' : List Event} {m m' : Machine} (h : BusyRun es m) {p : Pos}
    (hc : m.cpu = .handler p) (hp : p.beforeStart = false) (hs : m.step .cont = some (m', es'))
    {i : Nat} (hr : m'.sched.ReadyAt i) : m'.sched.current ≠ none := by
  obtain ⟨hI, hD⟩ := idleInv_run h
  have hs' : m'.sched = (m.sched.tick ((m.ticks + 1) % 2 ^ 64)).2 := by
    have ha := hI.cpu.active
    simp only [Machine.step, Machine.cont, hc, Machine.contHandler, ha, if_true] at hs
    cases hs
    rfl
  rw [hs', (Scheduler.tick_spec _ _).current]
  cases hh : p.holder with
  | task => exact hI.cpu.task (by rw [hc]; exact hh)
  | nobody =>
    obtain ⟨t, ht, hst⟩ := hr
    rw [hs'] at ht
    rw [(hD.tick hc hh _ i t ht).1] at hst
    cases hst
  | boot =>
    -- the boot context stands before `start()` or in its window
    cases p with
    | starting idx => exact absurd hc (hD.window idx)
    | boot => cases hp
    | sched c | ret c =>
      cases c with
      | bootYield => cases hp
      | _ => cases hh
    | _ => cases hh

/-- Task 1 sleeps two ticks while task 2 runs: the tick that wakes it finds task 2 current. -/
theorem cpu_never_lost_two : ∃ (es es' : List Event) (m m' : Machine), BusyRun es m ∧
    m.cpu = .handler .body ∧ m.step .cont = some (m', es') ∧ m'.sched.ReadyAt 0 ∧
    m'.sched.current ≠ none := by
  have hex : (exec Machine.step keepsCpu Machine.boot
      [.spawn, .spawn, .start, .cont, .cont, .cont, .cont, .sleep 2, .cont, .cont, .cont, .cont,
        .cont, .cont, .timer, .cont, .cont, .timer]).any
      (fun r => r.1.cpu == .handler .body && (r.1.step .cont).any fun q =>
        (q.1.sched.task? 0).any Task.isReady) = true := by decide
  obtain ⟨r, hr, hp⟩ := (Option.any_eq_true _ _).mp hex
  simp only [Bool.and_eq_true, beq_iff_eq] at hp
  obtain ⟨⟨m', es'⟩, hs, ht⟩ := (Option.any_eq_true _ _).mp hp.2
  obtain ⟨t, ht, hready⟩ := (Option.any_eq_true _ _).mp ht
  have h : BusyRun r.2 r.1 := run_of_exec _ hr
  have hat : m'.sched.ReadyAt 0 := ⟨t, ht, by simpa using hready⟩
  exact ⟨r.2, es', r.1, m', h, hp.1, hs, hat, cpu_never_lost h hp.1 rfl hs hat⟩

/-- Task 1 sleeps one tick, task 2 exits, and the tick that makes task 1 Ready leaves nobody
    current. -/
theorem cpu_lost : ∃ (es es' : List Event) (m m' : Machine), PicRun es m ∧
    m.cpu = .handler .idle ∧ m.step .cont = some (m', es') ∧ m'.sched.ReadyAt 0 ∧
    m'.sched.current = none := by
  obtain ⟨es, m, h, hp⟩ := exists_picRun
    [.spawn, .spawn, .start, .cont, .cont, .cont, .cont, .sleep 1, .cont, .cont, .cont, .cont,
      .cont, .cont, .exit, .cont, .timer]
    (fun _ m => m.cpu == .handler .idle && (m.step .cont).any fun q =>
      q.1.sched.current == none && (q.1.sched.task? 0).any Task.isReady) (by decide)
  simp only [Bool.and_eq_true, beq_iff_eq] at hp
  obtain ⟨⟨m', es'⟩, hs, ht⟩ := (Option.any_eq_true _ _).mp hp.2
  simp only [Bool.and_eq_true, beq_iff_eq] at ht
  obtain ⟨t, ht', hready⟩ := (Option.any_eq_true _ _).mp ht.2
  exact ⟨es, es', m, m', h, hp.1, hs, ⟨t, ht', by simpa using hready⟩, ht.1⟩

end SimpleLinux
