/-
  File:      SimpleLinux/Process/Slices.lean
  Subject:   Which tick of a turn forces the reschedule?

  A TURN of a task begins when it is dispatched and goes on until a section of `schedule()` or of
  `exit_current()` runs. `tick()` tests the slice of the current task BEFORE it takes one off, and
  fills it up only when it has run out; `prep_switch` leaves it as it is. So a turn is as long as
  what the task's earlier turns have left of the slice, and one tick longer.

  * `Taken`, `Unstarted` -- a context that is still the trampoline has its closure when it is
    entered: every dispatch leads back to own code;
  * `inTurn`, `ticksIn`, `Machine.forces`, `ForcedAt` -- turns, their ticks, the tick that forces;
  * `SliceIs.step`, `turn_slice` -- ticks and slice of a turn add up;
  * `forced_at_slice_iff` -- the forcing tick of a turn is the `DEFAULT_SLICE`-th if and only if the
    slice at the dispatch was one less; `turns_vary` -- a turn of three ticks and one of a single
    tick.
-/
import SimpleLinux.Process.InterruptFlag

namespace SimpleLinux

open Runs Scheduler

/-! ## 1. Every dispatch leads to own code -/

/-- Slot `i` holds a task without a closure whose saved context is the trampoline. -/
def Taken (s : Scheduler) (i : Nat) : Prop :=
  ∃ t, s.task? i = some t ∧ t.ctx = .trampoline ∧ t.func = false

/-- Nothing to be saved or entered: neither a switch nor a trampoline that is about to start. -/
def Code.settled : Code → Bool
  | .switch _ _ | .resumed .trampoline => false
  | _ => true

/-- **Only the task that runs has lost its closure and not saved another context yet.** -/
structure Unstarted (m : Machine) : Prop where
  owned : ∀ {i : Nat}, Taken m.sched i → m.owner = some i ∧ m.cpu ≠ .resumed .trampoline
  saves : ∀ {i : Nat} {c : Context} {new : Nat}, m.cpu = .switch (some (i, c)) new → c ≠ .trampoline

section Closures

variable {m m' : Machine} {s s' : Scheduler}

theorem taken_mapped {f : Nat → Task → Task} (hm : Mapped f s s')
    (hctx : ∀ j t, (f j t).ctx = t.ctx) (hfunc : ∀ j t, (f j t).func = t.func) {i : Nat}
    (h : Taken s' i) : Taken s i := by
  obtain ⟨u, hu, hc, hf⟩ := h
  obtain ⟨t, ht, rfl⟩ := hm.back hu
  exact ⟨t, ht, (hctx i t).symm.trans hc, (hfunc i t).symm.trans hf⟩

theorem taken_prepSwitch {idx i : Nat} (h : Taken (s.prepSwitch idx).2 i) : Taken s i := by
  obtain ⟨u, hu, hc, hf⟩ := h
  rw [task?_prepSwitch] at hu
  obtain ⟨t, ht, rfl⟩ := Option.map_eq_some_iff.mp hu
  refine ⟨t, ht, ?_, ?_⟩
  · rw [← hc]
    split <;> rfl
  · rw [← hf]
    split <;> rfl

theorem wakeSleeper_func (now : Nat) (t : Task) : (wakeSleeper now t).func = t.func := by
  unfold wakeSleeper
  split
  · split <;> rfl
  · rfl

theorem tickTask_func (cur : Option Nat) (now j : Nat) (t : Task) :
    (tickTask cur now j t).func = t.func := by
  unfold tickTask chargeSlice
  split
  · split <;> exact wakeSleeper_func now t
  · exact wakeSleeper_func now t

theorem demote_func (t : Task) : (demote t).func = t.func := by
  unfold demote
  split <;> rfl

theorem wakeJoiner_func (dead : TaskId) (t : Task) : (wakeJoiner dead t).func = t.func := by
  unfold wakeJoiner
  split <;> rfl

theorem settled_owner (h : m.cpu.settled = true) : m.owner = m.sched.current := by
  unfold Machine.owner
  split
  · rename_i hc
    rw [hc] at h
    cases h
  · rfl

/-- A step to a settled place that gives nobody's closure away. -/
theorem Unstarted.settle (h : Unstarted m) (hs : m'.cpu.settled = true)
    (hown : m.owner = m'.sched.current) (hback : ∀ i, Taken m'.sched i → Taken m.sched i) :
    Unstarted m' where
  owned ht := by
    refine ⟨?_, fun hc => ?_⟩
    · rw [settled_owner hs, ← hown]
      exact (h.owned (hback _ ht)).1
    · rw [hc] at hs
      cases hs
  saves hc := by
    rw [hc] at hs
    cases hs

/-- A step after which no closure is missing. -/
theorem Unstarted.of_none (hnone : ∀ i, ¬ Taken m'.sched i)
    (hsaves : ∀ {i c new}, m'.cpu = .switch (some (i, c)) new → c ≠ .trampoline) : Unstarted m' :=
  ⟨fun ht => absurd ht (hnone _), hsaves⟩

theorem taken_exit {cur i : Nat} {dead : TaskId}
    (h : Taken ((s.wakeJoiners cur dead).reap cur) i) : cur ≠ i ∧ Taken s i := by
  obtain ⟨u, hu, hc, hf⟩ := h
  obtain ⟨hne, t, ht, rfl⟩ := exit_back hu
  rw [wakeJoiner_ctx] at hc
  rw [wakeJoiner_func] at hf
  exact ⟨hne, t, ht, hc, hf⟩

/-- After the exit of the task that ran, no closure is missing. -/
theorem Unstarted.exit (h : Unstarted m) {cur : Nat} (hown : m.owner = some cur) (dead : TaskId)
    (i : Nat) : ¬ Taken ((m.sched.wakeJoiners cur dead).reap cur) i := by
  intro ht
  obtain ⟨hne, ht₀⟩ := taken_exit ht
  rw [(h.owned ht₀).1] at hown
  exact hne (Option.some.inj hown).symm

theorem taken_add {id : TaskId} (hs : s.add = some (id, s')) {i : Nat} (h : Taken s' i) :
    Taken s i := by
  obtain ⟨-, -, -, -, -, k, -, ht⟩ := add_spec hs
  obtain ⟨u, hu, hc, hf⟩ := h
  rw [ht] at hu
  split at hu
  · cases hu
    cases hf
  · exact ⟨u, hu, hc, hf⟩

/-- `schedule()` leaves its caller, and the others wait as before. -/
theorem Unstarted.schedSome (h : Unstarted m) {w : Bool} {r : Ret} (hc : m.cpu = .sched w r)
    (idx : Nat) :
    Unstarted { m with
      sched := (m.sched.demoted.prepSwitch idx).2
      cpu := .switch (m.sched.demoted.current.map fun i => (i, .schedule w r)) idx } where
  owned {i} ht := by
    have hd := demoted_spec m.sched
    have ht₀ : Taken m.sched i := by
      refine taken_mapped hd (fun j t => ?_) (fun j t => ?_) (taken_prepSwitch ht)
      · split <;> simp
      · split
        · exact demote_func t
        · rfl
    have hown := (h.owned ht₀).1
    rw [Machine.owner, hc] at hown
    refine ⟨?_, by simp⟩
    simp only [Machine.owner, hd.current, Option.map_map]
    rw [show m.sched.current = some i from hown]
    rfl
  saves he := by
    simp only [Code.switch.injEq, Option.map_eq_some_iff, Prod.mk.injEq] at he
    obtain ⟨⟨_, -, -, rfl⟩, -⟩ := he
    simp

/-- `__switch` stores what the task that ran is to come back to. -/
theorem Unstarted.switchTask (h : Unstarted m) {i new : Nat} {c : Context} {t : Task}
    (hc : m.cpu = .switch (some (i, c)) new) :
    Unstarted { m with sched := m.sched.saveCtx i c, cpu := .resumed t.ctx } := by
  refine .of_none (fun j ⟨u, hu, hctx, hfunc⟩ => ?_) (fun he => by cases he)
  obtain ⟨t₀, ht₀, rfl⟩ := (saveCtx_spec m.sched i c).back hu
  by_cases hij : i = j
  · rw [if_pos hij] at hctx
    exact h.saves hc hctx
  · rw [if_neg hij] at hctx hfunc
    have hown := (h.owned ⟨t₀, ht₀, hctx, hfunc⟩).1
    rw [Machine.owner, hc] at hown
    exact hij (Option.some.inj hown)

/-- **One step.** -/
theorem Unstarted.step (hI : Inv m) (h : Unstarted m) {a : Action} {es : List Event}
    (hv : StepView m a m' es) : Unstarted m' := by
  cases hv with
  | timer _ hc _ | startSome _ hc _ | startNone hc _ | yieldNow _ hc _ | sleep _ hc | join _ hc
  | exit hc | starting _ hc | clock _ _ hc _ | clockPanic _ _ hc | joinGone _ hc _
  | joinThere _ hc _ | schedEnter _ hc | ret _ hc | resumedCaller _ _ hc | resumedTick _ _ hc
  | eoi _ hc =>
    exact h.settle rfl (by rw [Machine.owner, hc]) fun _ ht => ht
  | spawn p id s hc hp hs =>
    have hcur := (add_spec hs).2.2.1
    refine h.settle (by rw [hc]; rfl) ?_ fun i ht => taken_add hs ht
    rw [Machine.owner, hc]
    exact hcur.symm
  | markSleep _ _ _ _ hc hs | markJoin _ _ hc hs =>
    obtain ⟨cur, -, hm⟩ := markBlocked_spec hs
    refine h.settle rfl ?_ fun i ht =>
      taken_mapped hm (fun j t => by split <;> rfl) (fun j t => by split <;> rfl) ht
    rw [Machine.owner, hc]
    exact hm.current.symm
  | handler p hc =>
    have hm := tick_spec m.sched ((m.ticks + 1) % 2 ^ 64)
    refine h.settle ?_ ?_ fun i ht =>
      taken_mapped hm (fun _ _ => tickTask_ctx ..) (fun _ _ => tickTask_func ..) ht
    · dsimp only
      split <;> rfl
    · rw [Machine.owner, hc]
      exact hm.current.symm
  | schedSome w r idx hc hn => exact h.schedSome hc idx
  | schedNone w r hc hn =>
    have hd := demoted_spec m.sched
    refine h.settle rfl ?_ fun i ht => taken_mapped hd (fun j t => ?_) (fun j t => ?_) ht
    · rw [Machine.owner, hc]
      exact hd.current.symm
    · split <;> simp
    · split
      · exact demote_func t
      · rfl
  | switchBoot new t hc ht =>
    refine .of_none (fun i hi => ?_) (fun he => by cases he)
    have hown := (h.owned hi).1
    rw [Machine.owner, hc] at hown
    cases hown
  | switchTask i c new t hc ht => exact h.switchTask hc
  | trampoline s hc hs | trampolineEmpty s hc hs =>
    obtain ⟨cur, hcur, hm⟩ := takeFunc_spec hs
    refine ⟨fun {i} ht => ?_, fun he => by cases he⟩
    refine ⟨?_, by simp⟩
    obtain ⟨u, hu, hctx, hfunc⟩ := ht
    obtain ⟨t, ht, rfl⟩ := hm.back hu
    by_cases hi : cur = i
    · rw [← hi]
      exact hm.current.trans hcur
    · rw [if_neg hi] at hctx hfunc
      exact absurd hc (h.owned ⟨t, ht, hctx, hfunc⟩).2
  | startSection idx hc =>
    refine .of_none (fun i hi => ?_) (fun he => by cases he)
    have hown := (h.owned (taken_prepSwitch hi)).1
    rw [Machine.owner, hc, (hI.cpu.boot (by rw [hc]; rfl)).1] at hown
    cases hown
  | exitSome cur dead idx hc hcur ht hn =>
    have hown : m.owner = some cur := by
      rw [Machine.owner, hc]
      exact hcur
    exact .of_none (fun i hi => h.exit hown dead.id i (taken_prepSwitch hi)) (fun he => by cases he)
  | exitNone cur dead hc hcur ht hn =>
    have hown : m.owner = some cur := by
      rw [Machine.owner, hc]
      exact hcur
    exact .of_none (h.exit hown dead.id) (fun he => by cases he)

theorem unstarted_run {es : List Event} (h : KernelRun anyStep es m) : Unstarted m := by
  have hboth : Inv m ∧ Unstarted m := by
    refine h.invariant (I := fun m => Inv m ∧ Unstarted m) ⟨inv_boot, ?_⟩ fun m a m' es hI _ hs =>
      ⟨hI.1.step hs, hI.2.step hI.1 (step_view hI.1.cpu.active hs)⟩
    refine .of_none (fun i ⟨t, ht, _⟩ => ?_) (fun he => by cases he)
    cases ht
  exact hboth.2

end Closures

/-! ## 2. Turns and their ticks -/

/-- The section of `schedule()` or of `exit_current()` comes next. -/
def Code.givesUp : Code → Bool
  | .sched _ _ | .exitSection => true
  | _ => false

/-- The task that was dispatched keeps the CPU: it has not yielded, blocked, exited or been
    preempted. -/
def inTurn (m : Machine) (_ : Action) : Prop := m.cpu.givesUp = false

def ticksIn (es : List Event) : Nat := es.count .ticked

/-- The timer handler has called `schedule()`. -/
def Code.preempted : Code → Bool
  | .sched _ (.tick _) => true
  | _ => false

/-- The tick that the handler is about to count forces a reschedule. -/
def Machine.forces (m : Machine) : Bool := (m.step .cont).any fun r => r.1.cpu.preempted

/-- **The tick that forces a reschedule is exactly the `n`-th after the dispatch**, as long as the
    task keeps the CPU. -/
def ForcedAt (m₁ : Machine) (n : Nat) : Prop :=
  ∀ es m p, Run Machine.step inTurn m₁ es m → m.cpu = .handler p →
    (m.forces = true ↔ ticksIn es + 1 = n)

/-- The task in slot `idx` is current and has `n` ticks left. -/
def SliceIs (m : Machine) (idx n : Nat) : Prop :=
  m.sched.current = some idx ∧ ∃ t, m.sched.task? idx = some t ∧ t.slice = n

section Turns

variable {m m' : Machine} {s s' : Scheduler} {idx n : Nat} {es : List Event}

theorem ticksIn_append (es es' : List Event) : ticksIn (es ++ es') = ticksIn es + ticksIn es' :=
  List.count_append

theorem ticksIn_returns (c : Caller) : ticksIn c.returns = 0 := by
  cases c <;> rfl

theorem wakeSleeper_slice (now : Nat) (t : Task) : (wakeSleeper now t).slice = t.slice := by
  unfold wakeSleeper
  split
  · split <;> rfl
  · rfl

/-- `tick` asks for a reschedule when the slice has run out. -/
theorem tick_forces {t : Task} (hc : s.current = some idx) (ht : s.task? idx = some t) (now : Nat) :
    (s.tick now).1 = true ↔ t.slice = 0 := by
  have hw := (mapped_mapAll s (wakeSleeper now)).forth ht
  unfold tick
  dsimp only
  split
  · rename_i hnone
    rw [hc] at hnone
    cases hnone
  · rename_i cur hcur
    rw [hc] at hcur
    cases hcur
    rw [hw]
    dsimp only
    rw [chargeSlice, wakeSleeper_slice]
    split
    · rename_i h0
      simp only [h0]
    · rename_i h0
      simp only [h0, Bool.false_eq_true]

/-- Otherwise it takes one tick off. -/
theorem tickTask_slice {t : Task} (hpos : t.slice ≠ 0) (now : Nat) :
    (tickTask (some idx) now idx t).slice + 1 = t.slice := by
  unfold tickTask chargeSlice
  rw [if_pos rfl, wakeSleeper_slice, if_neg hpos]
  exact Nat.sub_add_cancel (Nat.pos_of_ne_zero hpos)

/-- A step that takes nothing off a slice. -/
theorem SliceIs.mapped (h : SliceIs m idx n) {f : Nat → Task → Task}
    (hm : Mapped f m.sched m'.sched) (hslice : ∀ j t, (f j t).slice = t.slice) :
    SliceIs m' idx n := by
  obtain ⟨hc, t, ht, hn⟩ := h
  exact ⟨hm.current.trans hc, _, hm.forth ht, (hslice idx t).trans hn⟩

theorem forces_iff (hI : Inv m) {p : Pos} (hc : m.cpu = .handler p) (h : SliceIs m idx n) :
    m.forces = true ↔ n = 0 := by
  obtain ⟨hcur, t, ht, rfl⟩ := h
  have hstep : m.step .cont = some (m.contHandler p) := by rw [Machine.step, Machine.cont, hc]
  rw [← tick_forces hcur ht ((m.ticks + 1) % 2 ^ 64), Machine.forces, hstep, Option.any_some,
    Machine.contHandler]
  simp only [hI.cpu.active, if_true]
  split
  · rename_i hpre
    simp only [hpre, Code.preempted]
  · rename_i hpre
    simp only [hpre, Code.preempted]

/-- **One step of a turn**: a tick that does not force takes one off, nothing else does. -/
theorem SliceIs.step (hI : Inv m) (h : SliceIs m idx n) {a : Action} (hturn : m.cpu.givesUp = false)
    (hv : StepView m a m' es) (hturn' : m'.cpu.givesUp = false) :
    ∃ n', SliceIs m' idx n' ∧ n' + ticksIn es = n := by
  cases hv with
  | timer | startSome | startNone | yieldNow | sleep | join | exit | starting | clock | clockPanic
  | joinGone | joinThere | schedEnter | resumedCaller | resumedTick | eoi | switchBoot =>
    exact ⟨n, h, rfl⟩
  | ret c hc => exact ⟨n, h, by rw [ticksIn_returns]; rfl⟩
  | spawn p id s hc hp hs =>
    obtain ⟨-, -, hcur, -, -, k, hk, htasks⟩ := add_spec hs
    obtain ⟨hidx, t, ht, hn⟩ := h
    refine ⟨n, ⟨hcur.trans hidx, t, ?_, hn⟩, rfl⟩
    -- the slot of the new task was free
    rw [htasks, if_neg fun hik => by rw [hik, hk] at ht; cases ht]
    exact ht
  | markSleep _ _ _ _ hc hs | markJoin _ _ hc hs =>
    obtain ⟨cur, -, hm⟩ := markBlocked_spec hs
    exact ⟨n, h.mapped hm fun j t => by split <;> rfl, rfl⟩
  | handler p hc =>
    have hpos : n ≠ 0 := by
      intro h0
      have hforces := (forces_iff hI hc h).mpr h0
      simp only [Machine.forces, Machine.step, Machine.cont, hc, Machine.contHandler,
        hI.cpu.active, if_true, Option.any_some] at hforces
      dsimp only at hturn'
      split at hturn'
      · cases hturn'
      · rename_i hpre
        rw [if_neg hpre] at hforces
        cases hforces
    obtain ⟨hcur, t, ht, rfl⟩ := h
    have hm := tick_spec m.sched ((m.ticks + 1) % 2 ^ 64)
    rw [hcur] at hm
    exact ⟨_, ⟨hm.current.trans hcur, _, hm.forth ht, rfl⟩, tickTask_slice hpos _⟩
  | schedSome w r idx hc hn | schedNone w r hc hn =>
    rw [hc] at hturn
    cases hturn
  | switchTask i c new t hc ht =>
    exact ⟨n, h.mapped (saveCtx_spec m.sched i c) fun j t => by split <;> rfl, rfl⟩
  | trampoline s hc hs | trampolineEmpty s hc hs =>
    obtain ⟨cur, -, hm⟩ := takeFunc_spec hs
    exact ⟨n, h.mapped hm fun j t => by split <;> rfl, rfl⟩
  | startSection idx hc =>
    have hnone := (hI.cpu.boot (by rw [hc]; rfl)).1
    rw [h.1] at hnone
    cases hnone
  | exitSome cur dead idx hc | exitNone cur dead hc =>
    rw [hc] at hturn
    cases hturn

/-- **Over a turn, the ticks and what is left of the slice add up** to the slice at the dispatch. -/
theorem turn_slice (hI : Inv m) (h : SliceIs m idx n) (hr : Run Machine.step inTurn m es m')
    (hturn : m'.cpu.givesUp = false) : ∃ n', SliceIs m' idx n' ∧ n' + ticksIn es = n := by
  induction hr with
  | start => exact ⟨n, h, rfl⟩
  | next a hr hok hs ih =>
    have hI' := inv_from hI hr
    obtain ⟨n₁, h₁, hsum⟩ := ih hok
    obtain ⟨n₂, h₂, hsum'⟩ := h₁.step hI' hok (step_view hI'.cpu.active hs) hturn
    refine ⟨n₂, h₂, ?_⟩
    rw [ticksIn_append]
    omega

/-! ## 3. The ticks of a turn come -/

/-- From own code, a tick that does not force leads back to it. -/
theorem tick_comes (hI : Inv m) {p : Pos} (hc : m.cpu = .run p) (h : SliceIs m idx (n + 1)) :
    ∃ m', Run Machine.step inTurn m [.ticked] m' ∧ m'.cpu = .run p := by
  obtain ⟨hcur, t, ht, hn⟩ := h
  have hflag : m.intr = true := by rw [hI.cpu.flag, hc]; rfl
  have hpre : ¬ (m.sched.tick ((m.ticks + 1) % 2 ^ 64)).1 = true := by
    rw [tick_forces hcur ht, hn]
    exact Nat.succ_ne_zero n
  let m₁ : Machine := { m with intr := false, inService := true, cpu := .handler p }
  let m₂ : Machine :=
    { m₁ with
      ticks := (m.ticks + 1) % 2 ^ 64
      sched := (m.sched.tick ((m.ticks + 1) % 2 ^ 64)).2
      cpu := .eoi p }
  have htimer : m.step .timer = some (m₁, []) := by simp only [Machine.step, hc, hflag, if_true, m₁]
  have htick : m₁.step .cont = some (m₂, [.ticked]) := by
    simp only [Machine.step, Machine.cont, Machine.contHandler, hI.cpu.active, if_true, if_neg hpre,
      m₁, m₂]
  have h₁ : Run Machine.step inTurn m [] m₁ := .next .timer .start (by rw [inTurn, hc]; rfl) htimer
  have h₂ : Run Machine.step inTurn m [.ticked] m₂ := h₁.next .cont rfl htick
  exact ⟨_, h₂.next .cont rfl rfl, rfl⟩

/-- From own code, as many ticks as are left of the slice. -/
theorem ticks_come (hI : Inv m) {p : Pos} (hc : m.cpu = .run p) (h : SliceIs m idx n) {k : Nat}
    (hk : k ≤ n) :
    ∃ es m', Run Machine.step inTurn m es m' ∧ ticksIn es = k ∧ m'.cpu = .run p := by
  induction k with
  | zero => exact ⟨[], m, .start, rfl, hc⟩
  | succ k ih =>
    obtain ⟨es, m₁, h₁, hticks, hc₁⟩ := ih (Nat.le_of_succ_le hk)
    obtain ⟨n₁, hs₁, hsum⟩ := turn_slice hI h h₁ (by rw [hc₁]; rfl)
    obtain ⟨n₂, rfl⟩ : ∃ n₂, n₁ = n₂ + 1 := ⟨n₁ - 1, by omega⟩
    obtain ⟨m₂, h₂, hc₂⟩ := tick_comes (inv_from hI h₁) hc₁ hs₁
    refine ⟨es ++ [.ticked], m₂, h₁.trans h₂, ?_, hc₂⟩
    rw [ticksIn_append, hticks]
    rfl

/-- `__switch` loads the context of the current task. -/
theorem switch_loads (hI : Inv m) {save : Option (Nat × Context)} (hc : m.cpu = .switch save idx) :
    ∃ m₁ t, m.step .cont = some (m₁, []) ∧ m₁.sched.current = some idx ∧
      m₁.sched.task? idx = some t ∧ m₁.cpu = .resumed t.ctx := by
  have hcur := hI.cpu.entered hc
  obtain ⟨t, ht⟩ := hI.sched.occupied hcur
  rcases save with - | ⟨i, c⟩
  · refine ⟨{ m with cpu := .resumed t.ctx }, t, ?_, hcur, ht, rfl⟩
    simp only [Machine.step, Machine.cont, hc, Machine.contSwitch, ht, Option.map_some]
  · have hsaved := (saveCtx_spec m.sched i c).forth ht
    refine ⟨{ m with sched := m.sched.saveCtx i c, cpu := .resumed _ }, _, ?_, hcur, hsaved, rfl⟩
    simp only [Machine.step, Machine.cont, hc, Machine.contSwitch, hsaved, Option.map_some]

/-- A loaded context goes on in own code: a fresh one has its closure, the others return. -/
theorem resumed_runs (hU : Unstarted m) {t : Task} (hcur : m.sched.current = some idx)
    (ht : m.sched.task? idx = some t) (hc : m.cpu = .resumed t.ctx) :
    ∃ m' p, Run Machine.step inTurn m [] m' ∧ m'.cpu = .run p := by
  have hturn : inTurn m .cont := by rw [inTurn, hc]; rfl
  rcases hctx : t.ctx with - | ⟨w, c | p⟩
  · have hfunc : t.func = true := by
      by_contra hno
      rw [hctx] at hc
      exact (hU.owned ⟨t, ht, hctx, Bool.eq_false_iff.mpr hno⟩).2 hc
    obtain ⟨s, hs⟩ : ∃ s, m.sched.takeFunc = some (true, s) := by
      refine ⟨{ m.sched with
        slots := Slots.update m.sched.slots idx fun t => { t with func := false } }, ?_⟩
      simp only [takeFunc, hcur, ht, hfunc]
    refine ⟨{ m with sched := s, intr := true, cpu := .run .body }, .body, ?_, rfl⟩
    refine .next .cont .start hturn ?_
    simp only [Machine.step, Machine.cont, hc, hctx, Machine.contResumed, hs, Option.map_some,
      if_true]
  · refine ⟨{ m with intr := w || m.intr, cpu := .run (.ret c) }, .ret c, ?_, rfl⟩
    refine .next .cont .start hturn ?_
    simp only [Machine.step, Machine.cont, hc, hctx, Machine.contResumed]
  · let m₁ : Machine := { m with intr := w || m.intr, cpu := .eoi p }
    have hret : m.step .cont = some (m₁, []) := by
      simp only [Machine.step, Machine.cont, hc, hctx, Machine.contResumed, m₁]
    have h₁ : Run Machine.step inTurn m [] m₁ := .next .cont .start hturn hret
    exact ⟨_, p, h₁.next .cont rfl rfl, rfl⟩

/-- **A dispatched task comes back to own code.** -/
theorem dispatch_resumes (hI : Inv m) (hU : Unstarted m) {save : Option (Nat × Context)}
    (hc : m.cpu = .switch save idx) :
    ∃ m' p, Run Machine.step inTurn m [] m' ∧ m'.cpu = .run p := by
  obtain ⟨m₁, t, hstep, hcur, ht, hcpu⟩ := switch_loads hI hc
  have hU₁ := hU.step hI (step_view hI.cpu.active hstep)
  obtain ⟨m', p, h', hc'⟩ := resumed_runs hU₁ hcur ht hcpu
  have h₁ : Run Machine.step inTurn m [] m₁ := .next .cont .start (by rw [inTurn, hc]; rfl) hstep
  exact ⟨m', p, h₁.trans h', hc'⟩

/-- After a dispatch `__switch` comes next. -/
theorem dispatched_switch {a : Action} (hv : StepView m a m' es) (hd : Event.dispatched idx ∈ es) :
    ∃ save, m'.cpu = .switch save idx := by
  cases hv with
  | schedSome w r idx' hc hn =>
    rw [List.mem_singleton] at hd
    cases hd
    exact ⟨_, rfl⟩
  | startSection idx' hc =>
    rw [List.mem_singleton] at hd
    cases hd
    exact ⟨_, rfl⟩
  | exitSome cur dead idx' hc hcur ht hn =>
    simp only [List.mem_cons, reduceCtorEq, Event.dispatched.injEq, List.not_mem_nil, or_false,
      false_or] at hd
    rw [hd]
    exact ⟨_, rfl⟩
  | ret c hc => cases c <;> simp [Caller.returns] at hd
  | _ => simp at hd

/-! ## 4. The forcing tick -/

/-- **The forcing tick is the one after the slice at the dispatch**, and no other. -/
theorem forcedAt_iff {save : Option (Nat × Context)} (hI : Inv m) (hU : Unstarted m)
    (hc : m.cpu = .switch save idx) (h : SliceIs m idx n) (k : Nat) :
    ForcedAt m k ↔ n + 1 = k := by
  have hlaw : ForcedAt m (n + 1) := by
    intro es m' p hr hc'
    obtain ⟨n', h', hsum⟩ := turn_slice hI h hr (by rw [hc']; rfl)
    rw [forces_iff (inv_from hI hr) hc' h']
    omega
  refine ⟨fun hk => ?_, fun hk => hk ▸ hlaw⟩
  -- the slice is used up, and the next tick comes
  obtain ⟨m₁, p, h₁, hc₁⟩ := dispatch_resumes hI hU hc
  have hI₁ := inv_from hI h₁
  obtain ⟨n₁, hs₁, hsum⟩ := turn_slice hI h h₁ (by rw [hc₁]; rfl)
  obtain ⟨es, m₂, h₂, hticks, hc₂⟩ := ticks_come hI₁ hc₁ hs₁ (Nat.le_refl n₁)
  have hI₂ := inv_from hI₁ h₂
  have hflag : m₂.intr = true := by rw [hI₂.cpu.flag, hc₂]; rfl
  let m₃ : Machine := { m₂ with intr := false, inService := true, cpu := .handler p }
  have htimer : m₂.step .timer = some (m₃, []) := by
    simp only [Machine.step, hc₂, hflag, if_true, m₃]
  have h₃ : Run Machine.step inTurn m (es ++ []) m₃ :=
    (h₁.trans h₂).next .timer (by rw [inTurn, hc₂]; rfl) htimer
  rw [List.append_nil] at h₃
  have hn : ticksIn es = n := by
    rw [hticks]
    exact hsum
  have hforces := (hlaw es m₃ p h₃ rfl).mpr (by rw [hn])
  rw [← hn]
  exact (hk es m₃ p h₃ rfl).mp hforces

end Turns

/-- **The time slice.** Take any run, and any step of it that dispatches a task: out of `start()`,
    or out of another task's yield, sleep, join, exit or preemption. As long as the task keeps the
    CPU, the tick that forces a reschedule is exactly the `DEFAULT_SLICE`-th after the dispatch if
    and only if the slice that its earlier turns have left it is `DEFAULT_SLICE - 1`. -/
theorem forced_at_slice_iff {m₀ m₁ : Machine} {es₀ es₁ : List Event} {a : Action} {idx : Nat}
    {t : Task} (h₀ : KernelRun anyStep es₀ m₀) (hs : m₀.step a = some (m₁, es₁))
    (hd : Event.dispatched idx ∈ es₁) (ht : m₁.sched.task? idx = some t) :
    ForcedAt m₁ defaultSlice ↔ t.slice + 1 = defaultSlice := by
  have h₁ : KernelRun anyStep (es₀ ++ es₁) m₁ := h₀.next a trivial hs
  have hI := inv_run h₁
  obtain ⟨save, hc⟩ := dispatched_switch (step_view (inv_run h₀).cpu.active hs) hd
  exact forcedAt_iff hI (unstarted_run h₁) hc ⟨hI.cpu.entered hc, t, ht, rfl⟩ defaultSlice

/-- Two tasks are spawned and the first is started, up to its dispatch. -/
def untilStart : List Action := [.spawn, .spawn, .start, .cont]

/-- A dispatched task gets to its own code, and `n` ticks come that do not force a reschedule. -/
def turnOf (n : Nat) : List Action :=
  [.cont, .cont] ++ (List.replicate n [.timer, .cont, .cont]).flatten

/-- The first task runs for `n` ticks and yields, and so does the other at once, up to the second
    dispatch of the first. -/
def untilSecond (n : Nat) : List Action :=
  untilStart ++ [.cont] ++ turnOf n ++ [.yieldNow, .cont, .cont] ++ turnOf 0 ++ [.yieldNow, .cont]

/-- The turns that the interrupt controller allows. -/
def turnOk (m : Machine) (a : Action) : Bool := !m.cpu.givesUp && m.picOk a

/-- The next step dispatches slot `idx` with `n` ticks left, and then `turn` leads where `q`
    holds. -/
def turnCheck (idx n : Nat) (turn : List Action) (q : List Event → Machine → Bool) (m₀ : Machine) :
    Bool :=
  (m₀.step .cont).any fun r => decide (r.2 = [.dispatched idx]) &&
    (r.1.sched.task? idx).any (fun t => t.slice == n) &&
    (exec Machine.step turnOk r.1 turn).any fun r' => q r'.2 r'.1

/-- A turn with a decidable property of where it ends, read off a list of actions. -/
theorem exists_turn (before turn : List Action) (idx n : Nat) (q : List Event → Machine → Bool)
    (h : (Machine.after before).any (fun r => turnCheck idx n turn q r.1) = true) :
    ∃ es₀ m₀ m₁ t es m, PicRun es₀ m₀ ∧ m₀.step .cont = some (m₁, [.dispatched idx]) ∧
      m₁.sched.task? idx = some t ∧ t.slice = n ∧
      Run Machine.step (fun m a => turnOk m a = true) m₁ es m ∧ q es m = true := by
  obtain ⟨es₀, m₀, h₀, hcheck⟩ := exists_picRun before (fun _ m => turnCheck idx n turn q m) h
  obtain ⟨⟨m₁, es₁⟩, hstep, hr⟩ := (Option.any_eq_true _ _).mp hcheck
  simp only [Bool.and_eq_true, decide_eq_true_eq, Option.any_eq_true, beq_iff_eq] at hr
  obtain ⟨⟨rfl, t, ht, hn⟩, ⟨m, es⟩, hexec, hq⟩ := hr
  exact ⟨es₀, m₀, m₁, t, es, m, h₀, hstep, ht, hn, run_of_exec turn hexec, hq⟩

/-- A task that is dispatched with one tick left is preempted by the second tick. -/
theorem forced_at_slice_one :
    ∃ es₀ m₀ m₁ t, KernelRun anyStep es₀ m₀ ∧ m₀.step .cont = some (m₁, [.dispatched 0]) ∧
      m₁.sched.task? 0 = some t ∧ t.slice = 1 ∧ ForcedAt m₁ defaultSlice := by
  obtain ⟨es₀, m₀, m₁, t, -, -, h₀, hs, ht, hn, -, -⟩ :=
    exists_turn (untilSecond 1) [] 0 1 (fun _ _ => true) (by decide)
  refine ⟨es₀, m₀, m₁, t, h₀.any, hs, ht, hn, ?_⟩
  exact (forced_at_slice_iff h₀.any hs (List.mem_singleton.mpr rfl) ht).mpr (by rw [hn]; rfl)

/-- Under the interrupt controller, a task is dispatched with `n` ticks left, keeps the CPU, and the
    `k`-th tick after the dispatch forces a reschedule. -/
def ForcedTurn (n k : Nat) : Prop :=
  ∃ es₀ m₀ m₁ idx t es m p, PicRun es₀ m₀ ∧ m₀.step .cont = some (m₁, [.dispatched idx]) ∧
    m₁.sched.task? idx = some t ∧ t.slice = n ∧
    Run Machine.step (fun m a => turnOk m a = true) m₁ es m ∧ m.cpu = .handler p ∧
    m.forces = true ∧ ticksIn es + 1 = k

theorem forcedTurn_of (before turn : List Action) (idx n k : Nat) (p : Pos)
    (h : (Machine.after before).any (fun r => turnCheck idx n turn
      (fun es m => decide (m.cpu = .handler p ∧ m.forces = true ∧ ticksIn es + 1 = k)) r.1) =
        true) :
    ForcedTurn n k := by
  obtain ⟨es₀, m₀, m₁, t, es, m, h₀, hs, ht, hn, hr, hq⟩ := exists_turn before turn idx n _ h
  exact ⟨es₀, m₀, m₁, idx, t, es, m, p, h₀, hs, ht, hn, hr, of_decide_eq_true hq⟩

/-- **Turns of different lengths**: a fresh task is preempted by the third tick after its dispatch,
    and one that has yielded after two ticks by the first tick after it comes back. -/
theorem turns_vary : defaultSlice = 2 ∧ ForcedTurn 2 3 ∧ ForcedTurn 0 1 := by
  refine ⟨rfl, ?_, ?_⟩
  · exact forcedTurn_of untilStart (turnOf 2 ++ [.timer]) 0 2 3 .body (by decide)
  · exact forcedTurn_of (untilSecond 2) (turnOf 0 ++ [.timer]) 0 0 1 (.ret .yield) (by decide)

end SimpleLinux
