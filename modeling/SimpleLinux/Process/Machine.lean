/-
  File:      SimpleLinux/Process/Machine.lean
  Subject:   The single-core machine the scheduler runs on: process/scheduler.rs with
             interrupts.rs (`timer_interrupt_handler`), timer.rs and process/context.rs
             (`__switch`, `task_trampoline`).

  The CPU executes ONE context at a time; what it executes is a `Code`. The contexts that are
  not executing are the saved ones in the slots. One step of the machine is one critical section,
  one read of the clock, one change of the interrupt flag, one `__switch`, or the delivery of the
  timer interrupt; the flag `intr` and the in-service bit of IRQ0 are explicit. The initial state
  `boot` is the one after `process::init()` and `interrupts::init()` (scheduler armed, interrupts
  enabled), with no task spawned yet.

  What a task's own code does is not fixed: `Action` lets it spawn, yield, sleep, join or return
  whenever the CPU is in its closure, and lets the timer interrupt fall wherever interrupts are
  enabled. `cont` is the next thing the code does by itself.

  NOT here: the boot context that `BOOT_CTX` saves (nothing ever loads it); and the timer interrupt
  inside a critical section that runs with interrupts enabled, whose handler then waits forever for
  the scheduler's lock (Process/Locks).
-/
import SimpleLinux.Process.Scheduler
import SimpleLinux.Lib.Runs

namespace SimpleLinux

/-- What the CPU executes next. -/
inductive Code where
  /-- own code of the current context, interrupts enabled -/
  | run (p : Pos)
  /-- `timer_interrupt_handler`, entered on top of `p` -/
  | handler (p : Pos)
  /-- `schedule()`, interrupts disabled, before its critical section -/
  | sched (wasEnabled : Bool) (r : Ret)
  /-- `__switch` to slot `new`; `save` is the slot and context left behind, if it is a task's -/
  | switch (save : Option (Nat × Context)) (new : Nat)
  /-- just returned from `__switch` into this context -/
  | resumed (c : Context)
  /-- `timer_interrupt_handler` after `tick()`: end of interrupt, then `iretq` to `p` -/
  | eoi (p : Pos)
  /-- `start()`, interrupts disabled, before its second critical section -/
  | startSection (idx : Nat)
  /-- `exit_current()`, interrupts disabled, before its critical section -/
  | exitSection
  deriving DecidableEq, Repr

/-- The machine: the scheduler behind its lock, `TICKS`, `ACTIVE`, the interrupt flag, the
    in-service bit of IRQ0 and the code being executed. -/
structure Machine where
  sched : Scheduler
  ticks : Nat
  active : Bool
  intr : Bool
  inService : Bool
  cpu : Code
  deriving DecidableEq, Repr

/-- What can happen next: the timer interrupt, a call made by the code that runs, or `cont`. -/
inductive Action where
  | timer
  | spawn
  | start
  | yieldNow
  | sleep (n : Nat)
  | join (id : TaskId)
  | exit
  | cont
  deriving DecidableEq, Repr

/-- What a run is asked about. -/
inductive Event where
  | spawned (id : TaskId)
  | exited (id : TaskId)
  /-- `prep_switch` was called with this slot -/
  | dispatched (idx : Nat)
  /-- `sleep(n)`, called at tick `called`, returns to its caller -/
  | slept (called n : Nat)
  | joined (id : TaskId)
  | ticked
  deriving DecidableEq, Repr

/-- The code a blocking call returns to. -/
def Caller.home : Caller → Pos
  | .bootYield => .boot
  | .yield | .sleep _ _ | .join _ => .body

/-- What the return of a blocking call emits. -/
def Caller.returns : Caller → List Event
  | .yield | .bootYield => []
  | .sleep called n => [.slept called n]
  | .join id => [.joined id]

namespace Machine

/-- The state in which `kernel_main` starts spawning. -/
def boot : Machine where
  sched := Scheduler.new
  ticks := 0
  active := true
  intr := true
  inService := false
  cpu := .run .boot

/-- The next step of own code at `p`: between two critical sections of a call. -/
def contRun (m : Machine) : Pos → Option (Machine × List Event)
  | .starting idx => some ({ m with intr := false, cpu := .startSection idx }, [])
  | .sleepClock called n =>
    -- `timer::ticks() + ticks` panics where the sum leaves `u64`
    if m.ticks + n < 2 ^ 64 then
      some ({ m with cpu := .run (.sleepMark called n (m.ticks + n)) }, [])
    else some ({ m with cpu := .run .panicked }, [])
  | .sleepMark called n wake =>
    (m.sched.markBlocked (.sleep wake)).map fun s =>
      ({ m with sched := s, cpu := .run (.sched (.sleep called n)) }, [])
  | .joinCheck id =>
    if m.sched.joinDone id then some ({ m with cpu := .run (.ret (.join id)) }, [])
    else some ({ m with cpu := .run (.joinMark id) }, [])
  | .joinMark id =>
    (m.sched.markBlocked (.join id)).map fun s =>
      ({ m with sched := s, cpu := .run (.sched (.join id)) }, [])
  | .sched c => some ({ m with intr := false, cpu := .sched m.intr (.caller c) }, [])
  | .ret c => some ({ m with cpu := .run c.home }, c.returns)
  | .boot | .idle | .body | .panicked => none

/-- `timer::tick()` and the section of `process::tick()`. -/
def contHandler (m : Machine) (p : Pos) : Machine × List Event :=
  let now := (m.ticks + 1) % 2 ^ 64
  if m.active then
    let r := m.sched.tick now
    ({ m with
        ticks := now
        sched := r.2
        cpu := if r.1 then .sched m.intr (.tick p) else .eoi p }, [.ticked])
  else ({ m with ticks := now, cpu := .eoi p }, [.ticked])

/-- The section of `schedule()`; with no Ready task it returns at once. -/
def contSched (m : Machine) (wasEnabled : Bool) (r : Ret) : Machine × List Event :=
  match m.sched.schedule with
  | (some (old, new), s) =>
    ({ m with sched := s, cpu := .switch (old.map fun i => (i, .schedule wasEnabled r)) new },
      [.dispatched new])
  | (none, s) => ({ m with sched := s, cpu := .resumed (.schedule wasEnabled r) }, [])

/-- `__switch`. -/
def contSwitch (m : Machine) (save : Option (Nat × Context)) (new : Nat) :
    Option (Machine × List Event) :=
  let s := match save with
    | some (i, c) => m.sched.saveCtx i c
    | none => m.sched
  (s.task? new).map fun t => ({ m with sched := s, cpu := .resumed t.ctx }, [])

/-- What a context does when `__switch` returns into it. -/
def contResumed (m : Machine) : Context → Option (Machine × List Event)
  | .trampoline =>
    m.sched.takeFunc.map fun r =>
      if r.1 then ({ m with sched := r.2, intr := true, cpu := .run .body }, [])
      else ({ m with sched := r.2, intr := false, cpu := .exitSection }, [])
  | .schedule wasEnabled (.caller c) =>
    some ({ m with intr := wasEnabled || m.intr, cpu := .run (.ret c) }, [])
  | .schedule wasEnabled (.tick p) =>
    some ({ m with intr := wasEnabled || m.intr, cpu := .eoi p }, [])

/-- The section of `exit_current()`, then the successor or the idle loop. -/
def contExit (m : Machine) : Option (Machine × List Event) :=
  m.sched.exitCurrent.map fun
    | (dead, some (_, new), s) =>
      ({ m with sched := s, cpu := .switch none new }, [.exited dead, .dispatched new])
    | (dead, none, s) =>
      ({ m with sched := s, intr := true, cpu := .run .idle }, [.exited dead])

/-- What the code does next by itself. -/
def cont (m : Machine) : Option (Machine × List Event) :=
  match m.cpu with
  | .run p => m.contRun p
  | .handler p => some (m.contHandler p)
  | .sched wasEnabled r => some (m.contSched wasEnabled r)
  | .switch save new => m.contSwitch save new
  | .resumed c => m.contResumed c
  -- `notify_end_of_interrupt`, then `iretq` restores the flag of the interrupted code
  | .eoi p => some ({ m with inService := false, intr := true, cpu := .run p }, [])
  | .startSection idx =>
    let r := m.sched.prepSwitch idx
    some ({ m with sched := r.2, cpu := .switch none idx }, [.dispatched idx])
  | .exitSection => m.contExit

/-- **One step of the machine.** -/
def step (m : Machine) : Action → Option (Machine × List Event)
  | .timer =>
    match m.cpu with
    | .run p =>
      if m.intr then some ({ m with intr := false, inService := true, cpu := .handler p }, [])
      else none
    | _ => none
  | .spawn =>
    match m.cpu with
    | .run .body | .run .boot =>
      m.sched.add.map fun r => ({ m with sched := r.2 }, [.spawned r.1])
    | _ => none
  | .start =>
    match m.cpu with
    | .run .boot =>
      match m.sched.nextReady with
      | some idx => some ({ m with cpu := .run (.starting idx) }, [])
      | none => some ({ m with cpu := .run .idle }, [])
    | _ => none
  | .yieldNow =>
    match m.cpu with
    | .run .body =>
      some ({ m with cpu := .run (if m.active then .sched .yield else .ret .yield) }, [])
    | .run .boot =>
      some ({ m with cpu := .run (if m.active then .sched .bootYield else .ret .bootYield) }, [])
    | _ => none
  | .sleep n =>
    match m.cpu with
    | .run .body =>
      let p := if m.active then .sleepClock m.ticks n else .ret (.sleep m.ticks n)
      some ({ m with cpu := .run p }, [])
    | _ => none
  | .join id =>
    match m.cpu with
    | .run .body =>
      some ({ m with cpu := .run (if m.active then .joinCheck id else .ret (.join id)) }, [])
    | _ => none
  | .exit =>
    match m.cpu with
    | .run .body => some ({ m with intr := false, cpu := .exitSection }, [])
    | _ => none
  | .cont => m.cont

/-- The 8259 raises IRQ0 only while it is not in service. -/
def picOk (m : Machine) (a : Action) : Bool := a != .timer || !m.inService

end Machine

/-! ## What one step can do -/

/-- **Every step of an armed machine, one constructor per place of the code.** -/
inductive StepView (m : Machine) : Action → Machine → List Event → Prop where
  | timer (p : Pos) (hc : m.cpu = .run p) (hi : m.intr = true) :
      StepView m .timer { m with intr := false, inService := true, cpu := .handler p } []
  | spawn (p : Pos) (id : TaskId) (s : Scheduler) (hc : m.cpu = .run p)
      (hp : p = .body ∨ p = .boot) (hs : m.sched.add = some (id, s)) :
      StepView m .spawn { m with sched := s } [.spawned id]
  | startSome (idx : Nat) (hc : m.cpu = .run .boot) (hn : m.sched.nextReady = some idx) :
      StepView m .start { m with cpu := .run (.starting idx) } []
  | startNone (hc : m.cpu = .run .boot) (hn : m.sched.nextReady = none) :
      StepView m .start { m with cpu := .run .idle } []
  | yieldNow (c : Caller) (hc : m.cpu = .run c.home) (hy : c = .yield ∨ c = .bootYield) :
      StepView m .yieldNow { m with cpu := .run (.sched c) } []
  | sleep (n : Nat) (hc : m.cpu = .run .body) :
      StepView m (.sleep n) { m with cpu := .run (.sleepClock m.ticks n) } []
  | join (id : TaskId) (hc : m.cpu = .run .body) :
      StepView m (.join id) { m with cpu := .run (.joinCheck id) } []
  | exit (hc : m.cpu = .run .body) :
      StepView m .exit { m with intr := false, cpu := .exitSection } []
  | starting (idx : Nat) (hc : m.cpu = .run (.starting idx)) :
      StepView m .cont { m with intr := false, cpu := .startSection idx } []
  | clock (called n : Nat) (hc : m.cpu = .run (.sleepClock called n))
      (hn : m.ticks + n < 2 ^ 64) :
      StepView m .cont { m with cpu := .run (.sleepMark called n (m.ticks + n)) } []
  | clockPanic (called n : Nat) (hc : m.cpu = .run (.sleepClock called n)) :
      StepView m .cont { m with cpu := .run .panicked } []
  | markSleep (called n wake : Nat) (s : Scheduler) (hc : m.cpu = .run (.sleepMark called n wake))
      (hs : m.sched.markBlocked (.sleep wake) = some s) :
      StepView m .cont { m with sched := s, cpu := .run (.sched (.sleep called n)) } []
  | joinGone (id : TaskId) (hc : m.cpu = .run (.joinCheck id)) (hd : m.sched.joinDone id = true) :
      StepView m .cont { m with cpu := .run (.ret (.join id)) } []
  | joinThere (id : TaskId) (hc : m.cpu = .run (.joinCheck id))
      (hd : m.sched.joinDone id = false) :
      StepView m .cont { m with cpu := .run (.joinMark id) } []
  | markJoin (id : TaskId) (s : Scheduler) (hc : m.cpu = .run (.joinMark id))
      (hs : m.sched.markBlocked (.join id) = some s) :
      StepView m .cont { m with sched := s, cpu := .run (.sched (.join id)) } []
  | schedEnter (c : Caller) (hc : m.cpu = .run (.sched c)) :
      StepView m .cont { m with intr := false, cpu := .sched m.intr (.caller c) } []
  | ret (c : Caller) (hc : m.cpu = .run (.ret c)) :
      StepView m .cont { m with cpu := .run c.home } c.returns
  | handler (p : Pos) (hc : m.cpu = .handler p) :
      StepView m .cont
        { m with
          ticks := (m.ticks + 1) % 2 ^ 64
          sched := (m.sched.tick ((m.ticks + 1) % 2 ^ 64)).2
          cpu := if (m.sched.tick ((m.ticks + 1) % 2 ^ 64)).1 then .sched m.intr (.tick p)
            else .eoi p } [.ticked]
  | schedSome (w : Bool) (r : Ret) (idx : Nat) (hc : m.cpu = .sched w r)
      (hn : m.sched.demoted.nextReady = some idx) :
      StepView m .cont
        { m with
          sched := (m.sched.demoted.prepSwitch idx).2
          cpu := .switch (m.sched.demoted.current.map fun i => (i, .schedule w r)) idx }
        [.dispatched idx]
  | schedNone (w : Bool) (r : Ret) (hc : m.cpu = .sched w r)
      (hn : m.sched.demoted.nextReady = none) :
      StepView m .cont { m with sched := m.sched.demoted, cpu := .resumed (.schedule w r) } []
  | switchBoot (new : Nat) (t : Task) (hc : m.cpu = .switch none new)
      (ht : m.sched.task? new = some t) :
      StepView m .cont { m with cpu := .resumed t.ctx } []
  | switchTask (i : Nat) (c : Context) (new : Nat) (t : Task)
      (hc : m.cpu = .switch (some (i, c)) new) (ht : (m.sched.saveCtx i c).task? new = some t) :
      StepView m .cont { m with sched := m.sched.saveCtx i c, cpu := .resumed t.ctx } []
  | trampoline (s : Scheduler) (hc : m.cpu = .resumed .trampoline)
      (hs : m.sched.takeFunc = some (true, s)) :
      StepView m .cont { m with sched := s, intr := true, cpu := .run .body } []
  | trampolineEmpty (s : Scheduler) (hc : m.cpu = .resumed .trampoline)
      (hs : m.sched.takeFunc = some (false, s)) :
      StepView m .cont { m with sched := s, intr := false, cpu := .exitSection } []
  | resumedCaller (w : Bool) (c : Caller) (hc : m.cpu = .resumed (.schedule w (.caller c))) :
      StepView m .cont { m with intr := w || m.intr, cpu := .run (.ret c) } []
  | resumedTick (w : Bool) (p : Pos) (hc : m.cpu = .resumed (.schedule w (.tick p))) :
      StepView m .cont { m with intr := w || m.intr, cpu := .eoi p } []
  | eoi (p : Pos) (hc : m.cpu = .eoi p) :
      StepView m .cont { m with inService := false, intr := true, cpu := .run p } []
  | startSection (idx : Nat) (hc : m.cpu = .startSection idx) :
      StepView m .cont { m with sched := (m.sched.prepSwitch idx).2, cpu := .switch none idx }
        [.dispatched idx]
  | exitSome (cur : Nat) (dead : Task) (idx : Nat) (hc : m.cpu = .exitSection)
      (hcur : m.sched.current = some cur) (ht : m.sched.task? cur = some dead)
      (hn : (m.sched.wakeJoiners cur dead.id).nextReady = some idx) :
      StepView m .cont
        { m with
          sched := (((m.sched.wakeJoiners cur dead.id).reap cur).prepSwitch idx).2
          cpu := .switch none idx } [.exited dead.id, .dispatched idx]
  | exitNone (cur : Nat) (dead : Task) (hc : m.cpu = .exitSection)
      (hcur : m.sched.current = some cur) (ht : m.sched.task? cur = some dead)
      (hn : (m.sched.wakeJoiners cur dead.id).nextReady = none) :
      StepView m .cont
        { m with
          sched := (m.sched.wakeJoiners cur dead.id).reap cur
          intr := true
          cpu := .run .idle } [.exited dead.id]

section View

variable {m m' : Machine} {es : List Event}

theorem contRun_view {p : Pos} (hc : m.cpu = .run p) (h : m.contRun p = some (m', es)) :
    StepView m .cont m' es := by
  cases p with
  | boot | idle | body | panicked => cases h
  | starting idx =>
    cases h
    exact .starting idx hc
  | sleepClock called n =>
    simp only [Machine.contRun] at h
    split at h
    · rename_i hn
      cases h
      exact .clock called n hc hn
    · cases h
      exact .clockPanic called n hc
  | sleepMark called n wake =>
    obtain ⟨s, hs, e⟩ := Option.map_eq_some_iff.mp h
    cases e
    exact .markSleep called n wake s hc hs
  | joinCheck id =>
    simp only [Machine.contRun] at h
    split at h
    · rename_i hd
      cases h
      exact .joinGone id hc hd
    · rename_i hd
      cases h
      exact .joinThere id hc (by simpa using hd)
  | joinMark id =>
    obtain ⟨s, hs, e⟩ := Option.map_eq_some_iff.mp h
    cases e
    exact .markJoin id s hc hs
  | sched c =>
    cases h
    exact .schedEnter c hc
  | ret c =>
    cases h
    exact .ret c hc

theorem contSched_view {w : Bool} {r : Ret} (hc : m.cpu = .sched w r)
    (h : m.contSched w r = (m', es)) : StepView m .cont m' es := by
  unfold Machine.contSched Scheduler.schedule at h
  cases hn : m.sched.demoted.nextReady with
  | none =>
    simp only [hn, Prod.mk.injEq] at h
    obtain ⟨rfl, rfl⟩ := h
    exact .schedNone w r hc hn
  | some idx =>
    simp only [hn, Prod.mk.injEq] at h
    obtain ⟨rfl, rfl⟩ := h
    exact .schedSome w r idx hc hn

theorem contSwitch_view {save : Option (Nat × Context)} {new : Nat}
    (hc : m.cpu = .switch save new) (h : m.contSwitch save new = some (m', es)) :
    StepView m .cont m' es := by
  obtain ⟨t, ht, e⟩ := Option.map_eq_some_iff.mp h
  cases e
  cases save with
  | none => exact .switchBoot new t hc ht
  | some ic => exact .switchTask ic.1 ic.2 new t hc ht

theorem contResumed_view {c : Context} (hc : m.cpu = .resumed c)
    (h : m.contResumed c = some (m', es)) : StepView m .cont m' es := by
  cases c with
  | trampoline =>
    obtain ⟨⟨b, s⟩, hs, e⟩ := Option.map_eq_some_iff.mp h
    cases b with
    | true => cases e; exact .trampoline s hc hs
    | false => cases e; exact .trampolineEmpty s hc hs
  | schedule w r =>
    cases r with
    | caller c => cases h; exact .resumedCaller w c hc
    | tick p => cases h; exact .resumedTick w p hc

theorem contExit_view (hc : m.cpu = .exitSection) (h : m.contExit = some (m', es)) :
    StepView m .cont m' es := by
  obtain ⟨r, hr, e⟩ := Option.map_eq_some_iff.mp h
  unfold Scheduler.exitCurrent at hr
  split at hr
  · cases hr
  · rename_i cur hcur
    split at hr
    · cases hr
    · rename_i dead ht
      dsimp only at hr
      split at hr
      · rename_i idx hn
        cases hr
        cases e
        exact .exitSome cur dead idx hc hcur ht hn
      · rename_i hn
        cases hr
        cases e
        exact .exitNone cur dead hc hcur ht hn

theorem cont_view (ha : m.active = true) (h : m.cont = some (m', es)) :
    StepView m .cont m' es := by
  unfold Machine.cont at h
  split at h
  · rename_i p hc
    exact contRun_view hc h
  · rename_i p hc
    simp only [Machine.contHandler] at h
    rw [if_pos ha] at h
    cases h
    exact .handler p hc
  · rename_i w r hc
    exact contSched_view hc (Option.some.inj h)
  · rename_i save new hc
    exact contSwitch_view hc h
  · rename_i c hc
    exact contResumed_view hc h
  · rename_i p hc
    cases h
    exact .eoi p hc
  · rename_i idx hc
    cases h
    exact .startSection idx hc
  · rename_i hc
    exact contExit_view hc h

/-- **The inversion of a step**: on an armed machine it is one of the above. -/
theorem step_view {a : Action} (ha : m.active = true) (h : m.step a = some (m', es)) :
    StepView m a m' es := by
  cases a with
  | timer =>
    simp only [Machine.step] at h
    split at h
    · rename_i p hc
      split at h
      · rename_i hi
        cases h
        exact .timer p hc hi
      · cases h
    · cases h
  | spawn =>
    simp only [Machine.step] at h
    split at h
    · rename_i hc
      obtain ⟨⟨id, s⟩, hs, e⟩ := Option.map_eq_some_iff.mp h
      cases e
      exact .spawn _ id s hc (Or.inl rfl) hs
    · rename_i hc
      obtain ⟨⟨id, s⟩, hs, e⟩ := Option.map_eq_some_iff.mp h
      cases e
      exact .spawn _ id s hc (Or.inr rfl) hs
    · cases h
  | start =>
    simp only [Machine.step] at h
    split at h
    · rename_i hc
      split at h
      · rename_i idx hn
        cases h
        exact .startSome idx hc hn
      · rename_i hn
        cases h
        exact .startNone hc hn
    · cases h
  | yieldNow =>
    simp only [Machine.step] at h
    split at h
    · rename_i hc
      rw [if_pos ha] at h
      cases h
      exact .yieldNow .yield hc (Or.inl rfl)
    · rename_i hc
      rw [if_pos ha] at h
      cases h
      exact .yieldNow .bootYield hc (Or.inr rfl)
    · cases h
  | sleep n =>
    simp only [Machine.step] at h
    split at h
    · rename_i hc
      rw [if_pos ha] at h
      cases h
      exact .sleep n hc
    · cases h
  | join id =>
    simp only [Machine.step] at h
    split at h
    · rename_i hc
      rw [if_pos ha] at h
      cases h
      exact .join id hc
    · cases h
  | exit =>
    simp only [Machine.step] at h
    split at h
    · rename_i hc
      cases h
      exact .exit hc
    · cases h
  | cont => exact cont_view ha h

end View

open Runs

/-- **The runs of the kernel** from boot whose steps all meet `ok`. -/
abbrev KernelRun (ok : Machine → Action → Prop) (es : List Event) (m : Machine) : Prop :=
  Run Machine.step ok Machine.boot es m

/-- The runs the interrupt controller allows. -/
abbrev PicRun (es : List Event) (m : Machine) : Prop :=
  KernelRun (fun m a => m.picOk a = true) es m

/-- An explicit list of actions from boot, evaluated. -/
def Machine.after (as : List Action) : Option (Machine × List Event) :=
  exec Machine.step Machine.picOk Machine.boot as

/-- A run with a decidable property of where it ends, read off a list of actions. -/
theorem exists_picRun (as : List Action) (p : List Event → Machine → Bool)
    (h : (Machine.after as).any (fun r => p r.2 r.1) = true) :
    ∃ es m, PicRun es m ∧ p es m = true := by
  obtain ⟨r, hr, hp⟩ := (Option.any_eq_true _ _).mp h
  exact ⟨r.2, r.1, run_of_exec as hr, hp⟩

end SimpleLinux
