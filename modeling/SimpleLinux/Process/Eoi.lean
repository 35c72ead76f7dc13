/-
  File:      SimpleLinux/Process/Eoi.lean
  Subject:   Acknowledging the timer interrupt.

  `timer_interrupt_handler` calls `process::tick()` BEFORE it signals the end of the interrupt, and
  `tick` may switch to another task. The task switched to signals it only if it was itself
  suspended inside the handler; a fresh task, or one that gave up the CPU voluntarily, goes on in
  its own code with IRQ0 still in service, and no further tick is delivered.

  * `Machine.owesEoi` -- the code the CPU executes will signal the end of the interrupt before it
    reaches own code;
  * `acknowledges` -- the condition on a step: a preempting tick switches only to a task suspended
    inside the handler (or stays with the task it interrupted);
  * `irq0_acknowledged` -- in runs whose steps all meet it, own code never runs with IRQ0 in
    service;
  * `irq0_left_in_service` -- two tasks, and the first preemption leaves IRQ0 in service.
-/
import SimpleLinux.Process.Invariant

namespace SimpleLinux

open Runs

/-- Suspended inside the timer handler: the end of the interrupt comes next. -/
def Context.inHandler : Context → Bool
  | .schedule _ (.tick _) => true
  | .schedule _ (.caller _) | .trampoline => false

/-- The slot's task is suspended inside the timer handler. -/
def Scheduler.inHandlerAt (s : Scheduler) (i : Nat) : Bool :=
  (s.task? i).any fun t => t.ctx.inHandler

/-- The successor of a preempting tick is the preempted task itself or one suspended inside the
    handler. -/
def acknowledges (m : Machine) (a : Action) : Bool :=
  match a, m.cpu with
  | .cont, .sched _ (.tick _) =>
    m.sched.demoted.nextReady.all fun idx =>
      m.sched.current == some idx || m.sched.inHandlerAt idx
  | _, _ => true

/-- The runs the interrupt controller allows, all of whose steps meet the condition. -/
abbrev EoiRun (es : List Event) (m : Machine) : Prop :=
  KernelRun (fun m a => (m.picOk a && acknowledges m a) = true) es m

/-- The CPU is on its way to the end of the interrupt. -/
def Machine.owesEoi (m : Machine) : Bool :=
  match m.cpu with
  | .handler _ | .eoi _ | .sched _ (.tick _) => true
  | .resumed c => c.inHandler
  | .switch (some (i, c)) new => if i = new then c.inHandler else m.sched.inHandlerAt new
  | .switch none new => m.sched.inHandlerAt new
  | .run _ | .sched _ (.caller _) | .startSection _ | .exitSection => false

/-- Whoever left IRQ0 in service is on its way to signal its end. -/
def EoiInv (m : Machine) : Prop := m.inService = true → m.owesEoi = true

section Eoi

variable {m m' : Machine} {s s' : Scheduler}

open Scheduler

theorem inHandlerAt_mapped {f : Nat → Task → Task} (hm : Mapped f s s')
    (hctx : ∀ j t, (f j t).ctx = t.ctx) (i : Nat) : s'.inHandlerAt i = s.inHandlerAt i := by
  unfold inHandlerAt
  rw [hm.task]
  cases s.task? i with
  | none => rfl
  | some t => simp only [Option.map_some, Option.any_some, hctx]

theorem inHandlerAt_prepSwitch (idx i : Nat) :
    (s.prepSwitch idx).2.inHandlerAt i = s.inHandlerAt i := by
  unfold inHandlerAt
  rw [task?_prepSwitch]
  cases s.task? i with
  | none => rfl
  | some t =>
    simp only [Option.map_some, Option.any_some]
    split <;> rfl

/-- From a place that owes nothing, IRQ0 is not in service and stays so. -/
theorem EoiInv.keep (hE : EoiInv m) (ho : m.owesEoi = false) (hs : m'.inService = m.inService) :
    EoiInv m' := by
  intro h
  rw [hs] at h
  rw [hE h] at ho
  cases ho

/-- The switch a preempting tick makes under the condition. -/
theorem EoiInv.preempt (hI : Inv m) {w : Bool} {p : Pos} {idx : Nat}
    (hc : m.cpu = .sched w (.tick p)) (hn : m.sched.demoted.nextReady = some idx)
    (hok : acknowledges m .cont = true) (hs : m'.sched = (m.sched.demoted.prepSwitch idx).2)
    (hc' : m'.cpu =
      .switch (m.sched.demoted.current.map fun i => (i, .schedule w (.tick p))) idx) :
    m'.owesEoi = true := by
  have hm := demoted_spec m.sched
  have hp : p.holder = .task := by
    have := hI.cpu.code
    rw [hc] at this
    exact this.2
  obtain ⟨cur, hcur⟩ := Option.ne_none_iff_exists'.mp (hI.cpu.task (by rw [hc]; exact hp))
  have hctx : ∀ (j : Nat) (t : Task), (if m.sched.current = some j then demote t else t).ctx =
      t.ctx :=
    fun j t => by split <;> simp
  simp only [acknowledges, hc, hn, Option.all_some, Bool.or_eq_true, beq_iff_eq, hcur,
    Option.some.injEq] at hok
  unfold Machine.owesEoi
  rw [hc', hm.current, hcur, hs]
  simp only [Option.map_some]
  split
  · rfl
  · rename_i hne
    rw [inHandlerAt_prepSwitch, inHandlerAt_mapped hm hctx]
    exact hok.resolve_left hne

/-- **Every step that meets the condition keeps the end of the interrupt in sight.** -/
theorem EoiInv.step (hI : Inv m) (hE : EoiInv m) {a : Action} {es : List Event}
    (hok : acknowledges m a = true) (h : StepView m a m' es) : EoiInv m' := by
  cases h with
  | timer p hc hi => exact fun _ => rfl
  | handler p hc =>
    intro _
    unfold Machine.owesEoi
    split_ifs <;> rfl
  | schedSome w r idx hc hn =>
    cases r with
    | tick p => exact fun _ => EoiInv.preempt hI hc hn hok rfl rfl
    | caller c => exact hE.keep (by unfold Machine.owesEoi; rw [hc]) rfl
  | schedNone w r hc hn =>
    cases r with
    | tick p => exact fun _ => rfl
    | caller c => exact hE.keep (by unfold Machine.owesEoi; rw [hc]) rfl
  | switchBoot new t hc ht =>
    intro h
    have ho := hE h
    unfold Machine.owesEoi inHandlerAt at ho
    rw [hc] at ho
    simp only [ht, Option.any_some] at ho
    exact ho
  | switchTask i c new t hc ht =>
    intro h
    have ho := hE h
    unfold Machine.owesEoi inHandlerAt at ho
    rw [hc] at ho
    obtain ⟨t₀, ht₀, rfl⟩ := (saveCtx_spec m.sched i c).back ht
    show Context.inHandler _ = true
    split
    · rename_i e
      simpa only [e, if_true] using ho
    · rename_i e
      simpa only [e, if_false, ht₀, Option.any_some] using ho
  | resumedTick w p hc => exact fun _ => rfl
  | eoi p hc => exact fun h => by cases h
  | trampoline s hc | trampolineEmpty s hc | resumedCaller w c hc =>
    exact hE.keep (by unfold Machine.owesEoi; rw [hc]; rfl) rfl
  | spawn p id s hc | startSome idx hc | startNone hc | yieldNow c hc | sleep n hc | join id hc
  | exit hc
  | starting idx hc | clock called n hc | clockPanic called n hc | markSleep called n wake s hc
  | joinGone id hc | joinThere id hc | markJoin id s hc | schedEnter c hc | ret c hc
  | startSection idx hc | exitSome cur dead idx hc | exitNone cur dead hc =>
    exact hE.keep (by unfold Machine.owesEoi; rw [hc]) rfl

theorem eoiInv_run {es : List Event} (h : EoiRun es m) : Inv m ∧ EoiInv m := by
  refine h.invariant (I := fun m => Inv m ∧ EoiInv m) ⟨inv_boot, fun h => by cases h⟩
    fun m a m' es hI hok hs => ⟨hI.1.step hs, ?_⟩
  exact EoiInv.step hI.1 hI.2 (Bool.and_eq_true_iff.mp hok).2 (step_view hI.1.cpu.active hs)

end Eoi

/-- **Own code runs with interrupts enabled and IRQ0 not in service**, so that the next tick can be
    delivered, in every run in which a preempting tick switches only to a task that was itself
    suspended inside the handler. -/
theorem irq0_acknowledged {es : List Event} {m : Machine} (h : EoiRun es m) {p : Pos}
    (hc : m.cpu = .run p) : m.intr = true ∧ m.inService = false ∧ m.picOk .timer = true := by
  obtain ⟨hI, hE⟩ := eoiInv_run h
  have ho : m.owesEoi = false := by
    unfold Machine.owesEoi
    rw [hc]
  have hs : m.inService = false := by
    rw [← Bool.not_eq_true]
    intro hs
    rw [hE hs] at ho
    cases ho
  exact ⟨by rw [hI.cpu.flag, hc]; rfl, hs, by simp [Machine.picOk, hs]⟩

/-- One task, preempted in favour of itself by its third tick. -/
theorem irq0_acknowledged_alone : ∃ (es : List Event) (m : Machine), EoiRun es m ∧
    m.cpu = .run .body ∧ m.ticks = 3 ∧ m.inService = false := by
  have hex : (exec Machine.step (fun m a => m.picOk a && acknowledges m a) Machine.boot
      [.spawn, .start, .cont, .cont, .cont, .cont, .timer, .cont, .cont, .timer, .cont, .cont,
        .timer, .cont, .cont, .cont, .cont, .cont]).any
      (fun r => r.1.cpu == .run .body && r.1.ticks == 3) = true := by decide
  obtain ⟨r, hr, hp⟩ := (Option.any_eq_true _ _).mp hex
  simp only [Bool.and_eq_true, beq_iff_eq] at hp
  have h : EoiRun r.2 r.1 := run_of_exec _ hr
  exact ⟨r.2, r.1, h, hp.1, hp.2, (irq0_acknowledged h hp.1).2.1⟩

/-- Two tasks: the first preemption enters the second task, fresh, with IRQ0 in service; it runs
    with interrupts enabled and the controller delivers no tick any more. -/
theorem irq0_left_in_service : ∃ (es : List Event) (m : Machine), PicRun es m ∧
    m.cpu = .run .body ∧ m.intr = true ∧ m.inService = true ∧ m.picOk .timer = false := by
  obtain ⟨es, m, h, hp⟩ := exists_picRun
    [.spawn, .spawn, .start, .cont, .cont, .cont, .cont, .timer, .cont, .cont, .timer, .cont, .cont,
      .timer, .cont, .cont, .cont, .cont]
    (fun _ m => m.cpu == .run .body && m.intr && m.inService && !m.picOk .timer) (by decide)
  simp only [Bool.and_eq_true, beq_iff_eq, Bool.not_eq_true'] at hp
  exact ⟨es, m, h, hp.1.1.1, hp.1.1.2, hp.1.2, hp.2⟩

end SimpleLinux
