/-
  File:      SimpleLinux/Process/Latency.lean
  Subject:   How many ticks does a task wait for the CPU?

  A task that is not current is changed by others only: a tick may wake it, an exit may wake it, and
  a dispatch ends its wait. While a Ready task waits, no slot is dispatched twice
  (Process/RoundRobin), and a turn takes one tick more than what is left of its slice
  (Process/Slices). So the ticks of a wait are counted by the turns ahead of it.

  * `Nudge`, `bystander_step` -- what one step makes of a task that is not current;
  * `Machine.turnLeft` -- the ticks that the turn under way can still take; `queued_step` -- a step
    pays for its ticks from there, and a dispatch fills it up;
  * `queued_run`, `ready_latency` -- a Ready task is dispatched within three ticks for each other
    slot;
  * `asleep_step`, `asleep_run`, `sleep_latency` -- a sleeper, within that of the tick that wakes
    it.
-/
import SimpleLinux.Process.RoundRobin
import SimpleLinux.Process.Slices

namespace SimpleLinux

open Runs Scheduler

/-! ## 1. A task that is not current -/

/-- What a step makes of the state and the block reason of a task that is neither current nor
    dispatched. -/
inductive Nudge (m m' : Machine) (es : List Event) (t u : Task) : Prop where
  | still (hticks : ticksIn es = 0) (hclock : m'.ticks = m.ticks) (hs : u.state = t.state)
      (hb : u.block = t.block)
  | tick (p : Pos) (hc : m.cpu = .handler p) (hticks : ticksIn es = 1)
      (hclock : m'.ticks = (m.ticks + 1) % 2 ^ 64) (hs : u.state = (wakeSleeper m'.ticks t).state)
      (hb : u.block = (wakeSleeper m'.ticks t).block)
  | exit (dead : TaskId) (hticks : ticksIn es = 0) (hclock : m'.ticks = m.ticks)
      (hs : u.state = (wakeJoiner dead t).state) (hb : u.block = (wakeJoiner dead t).block)

section Bystander

variable {m m' : Machine} {es : List Event} {j : Nat} {t : Task}

/-- **One step, seen by a task that is not current**: it stays in its slot, keeps its id, and is at
    most woken. -/
theorem bystander_step {a : Action} (hv : StepView m a m' es) (ht : m.sched.task? j = some t)
    (hne : m.sched.current ≠ some j) (hnot : j ∉ dispatches es) :
    m'.sched.current ≠ some j ∧
      ∃ u, m'.sched.task? j = some u ∧ u.id = t.id ∧ Nudge m m' es t u := by
  have hother : ∀ {cur : Nat}, m.sched.current = some cur → cur ≠ j := by
    intro cur hcur e
    exact hne (e ▸ hcur)
  cases hv with
  | timer | startSome | startNone | yieldNow | sleep | join | exit | starting | clock | clockPanic
  | joinGone | joinThere | schedEnter | resumedCaller | resumedTick | eoi | switchBoot =>
    exact ⟨hne, t, ht, rfl, .still rfl rfl rfl rfl⟩
  | ret c hc => exact ⟨hne, t, ht, rfl, .still (ticksIn_returns c) rfl rfl rfl⟩
  | spawn p id s hc hp hs =>
    obtain ⟨-, -, hcur, -, -, k, hk, htasks⟩ := add_spec hs
    refine ⟨fun h => hne (hcur.symm.trans h), t, ?_, rfl, .still rfl rfl rfl rfl⟩
    -- the slot of the new task was free
    rw [htasks, if_neg fun hjk => by rw [hjk, hk] at ht; cases ht]
    exact ht
  | markSleep _ _ _ _ hc hs | markJoin _ _ hc hs =>
    obtain ⟨cur, hcur, hm⟩ := markBlocked_spec hs
    have hu := hm.forth ht
    rw [if_neg (hother hcur)] at hu
    exact ⟨fun h => hne (hm.current.symm.trans h), t, hu, rfl, .still rfl rfl rfl rfl⟩
  | handler p hc =>
    have hm := tick_spec m.sched ((m.ticks + 1) % 2 ^ 64)
    exact ⟨fun h => hne (hm.current.symm.trans h), _, hm.forth ht, tickTask_id ..,
      .tick p hc rfl rfl (tickTask_state ..) (tickTask_block ..)⟩
  | schedSome w r idx hc hn =>
    have hidx : idx ≠ j := fun e => hnot (by simp [dispatches, e])
    have hd := (demoted_spec m.sched).forth ht
    rw [if_neg hne] at hd
    refine ⟨fun h => hidx (Option.some.inj h), t, ?_, rfl, .still rfl rfl rfl rfl⟩
    rw [task?_prepSwitch, hd, Option.map_some, if_neg hidx]
  | schedNone w r hc hn =>
    have hd := demoted_spec m.sched
    have hu := hd.forth ht
    rw [if_neg hne] at hu
    exact ⟨fun h => hne (hd.current.symm.trans h), t, hu, rfl, .still rfl rfl rfl rfl⟩
  | switchTask i c new t' hc ht' =>
    have hu := (saveCtx_spec m.sched i c).forth ht
    refine ⟨hne, _, hu, ?_, .still rfl rfl ?_ ?_⟩ <;> split <;> rfl
  | trampoline s hc hs | trampolineEmpty s hc hs =>
    obtain ⟨cur, hcur, hm⟩ := takeFunc_spec hs
    have hu := hm.forth ht
    rw [if_neg (hother hcur)] at hu
    exact ⟨fun h => hne (hm.current.symm.trans h), t, hu, rfl, .still rfl rfl rfl rfl⟩
  | startSection idx hc =>
    have hidx : idx ≠ j := fun e => hnot (by simp [dispatches, e])
    refine ⟨fun h => hidx (Option.some.inj h), t, ?_, rfl, .still rfl rfl rfl rfl⟩
    rw [task?_prepSwitch, ht, Option.map_some, if_neg hidx]
  | exitSome cur dead idx hc hcur hdead hn =>
    have hidx : idx ≠ j := fun e => hnot (by simp [dispatches, e])
    refine ⟨fun h => hidx (Option.some.inj h), wakeJoiner dead.id t, ?_, wakeJoiner_id ..,
      .exit dead.id rfl rfl rfl rfl⟩
    rw [task?_prepSwitch, task?_exit, if_neg (hother hcur), ht, Option.map_some, Option.map_some,
      if_neg hidx]
  | exitNone cur dead hc hcur hdead hn =>
    refine ⟨fun h => Option.some_ne_none j h.symm, wakeJoiner dead.id t, ?_, wakeJoiner_id ..,
      .exit dead.id rfl rfl rfl rfl⟩
    rw [task?_exit, if_neg (hother hcur), ht, Option.map_some]

end Bystander

/-! ## 2. The turn under way -/

/-- The ticks that the turn under way can still take: what is left of the slice, and the one that
    forces the reschedule; none once the CPU is given up. -/
def Machine.turnLeft (m : Machine) : Nat :=
  if m.cpu.givesUp then 0 else ((m.sched.current.bind m.sched.task?).elim 0 Task.slice) + 1

/-- Slot `j` holds the task `id`, Ready and not current. -/
structure Queued (j : Nat) (id : TaskId) (m : Machine) : Prop where
  waits : Waits j id m.sched
  other : m.sched.current ≠ some j

section Turn

variable {m m' : Machine} {es : List Event} {j c n : Nat} {id : TaskId} {a : Action}

theorem turnLeft_of_givesUp (h : m.cpu.givesUp = true) : m.turnLeft = 0 := if_pos h

theorem turnLeft_of_slice (h : SliceIs m c n) (hg : m.cpu.givesUp = false) :
    m.turnLeft = n + 1 := by
  obtain ⟨hc, t, ht, rfl⟩ := h
  rw [Machine.turnLeft, hg, hc, Option.bind_some, ht]
  rfl

/-- A turn takes at most one tick more than a full slice. -/
theorem turnLeft_le (hI : Inv m) (hcur : m.sched.current ≠ none) :
    m.turnLeft ≤ defaultSlice + 1 := by
  obtain ⟨c, hc⟩ := Option.ne_none_iff_exists'.mp hcur
  obtain ⟨t, ht⟩ := hI.sched.occupied hc
  cases hg : m.cpu.givesUp with
  | true =>
    rw [turnLeft_of_givesUp hg]
    exact Nat.zero_le _
  | false =>
    rw [turnLeft_of_slice ⟨hc, t, ht, rfl⟩ hg]
    exact Nat.succ_le_succ (hI.sched.ok ht).slice_le

/-- While the CPU is not given up a step counts at most one tick, and somebody stays current. -/
theorem keeping_step (hg : m.cpu.givesUp = false) (hcur : m.sched.current ≠ none)
    (hv : StepView m a m' es) : ticksIn es ≤ 1 ∧ m'.sched.current ≠ none := by
  cases hv with
  | timer | startSome | startNone | yieldNow | sleep | join | exit | starting | clock | clockPanic
  | joinGone | joinThere | schedEnter | resumedCaller | resumedTick | eoi | switchBoot
  | switchTask =>
    exact ⟨Nat.zero_le _, hcur⟩
  | ret c hc => exact ⟨by rw [ticksIn_returns]; exact Nat.zero_le _, hcur⟩
  | spawn p id s hc hp hs => exact ⟨Nat.zero_le _, by rw [(add_spec hs).2.2.1]; exact hcur⟩
  | markSleep _ _ _ _ hc hs | markJoin _ _ hc hs =>
    obtain ⟨cur, -, hm⟩ := markBlocked_spec hs
    exact ⟨Nat.zero_le _, by rw [hm.current]; exact hcur⟩
  | handler p hc =>
    exact ⟨Nat.le_refl _, by rw [(tick_spec m.sched ((m.ticks + 1) % 2 ^ 64)).current]; exact hcur⟩
  | trampoline s hc hs | trampolineEmpty s hc hs =>
    obtain ⟨cur, -, hm⟩ := takeFunc_spec hs
    exact ⟨Nat.zero_le _, by rw [hm.current]; exact hcur⟩
  | startSection idx hc => exact ⟨Nat.zero_le _, Option.some_ne_none idx⟩
  | schedSome w r idx hc | schedNone w r hc | exitSome cur dead idx hc | exitNone cur dead hc =>
    rw [hc] at hg
    cases hg

/-- **A turn pays for its ticks.** -/
theorem turnLeft_step (hI : Inv m) (hg : m.cpu.givesUp = false) (hcur : m.sched.current ≠ none)
    (hv : StepView m a m' es) : ticksIn es + m'.turnLeft ≤ m.turnLeft := by
  obtain ⟨c, hc⟩ := Option.ne_none_iff_exists'.mp hcur
  obtain ⟨t, ht⟩ := hI.sched.occupied hc
  have hslice : SliceIs m c t.slice := ⟨hc, t, ht, rfl⟩
  rw [turnLeft_of_slice hslice hg]
  cases hg' : m'.cpu.givesUp with
  | true =>
    have hone := (keeping_step hg hcur hv).1
    rw [turnLeft_of_givesUp hg']
    omega
  | false =>
    obtain ⟨n', hslice', hsum⟩ := hslice.step hI hg hv hg'
    rw [turnLeft_of_slice hslice' hg']
    omega

/-- While somebody else is Ready, giving up the CPU hands it on. -/
theorem giving_step (hI : Inv m) (hq : Queued j id m) (hg : m.cpu.givesUp = true)
    (hv : StepView m a m' es) :
    ticksIn es = 0 ∧ ∃ idx, dispatches es = [idx] ∧ m'.sched.current = some idx := by
  obtain ⟨t, ht, -, hready⟩ := hq.waits
  cases hv with
  | timer _ hc | spawn _ _ _ hc | startSome _ hc | startNone hc | yieldNow _ hc | sleep _ hc
  | join _ hc | exit hc | starting _ hc | clock _ _ hc | clockPanic _ _ hc | markSleep _ _ _ _ hc
  | joinGone _ hc | joinThere _ hc | markJoin _ _ hc | schedEnter _ hc | ret _ hc | handler _ hc
  | switchBoot _ _ hc | switchTask _ _ _ _ hc | trampoline _ hc | trampolineEmpty _ hc
  | resumedCaller _ _ hc | resumedTick _ _ hc | eoi _ hc | startSection _ hc =>
    rw [hc] at hg
    cases hg
  | schedSome w r idx hc hn => exact ⟨rfl, idx, rfl, rfl⟩
  | exitSome cur dead idx hc hcur hdead hn => exact ⟨rfl, idx, rfl, rfl⟩
  | schedNone w r hc hn =>
    have hd := (demoted_spec m.sched).forth ht
    rw [if_neg hq.other] at hd
    exact absurd ⟨t, hd, hready⟩ ((nextReady_none_iff hI.sched.demoted.cursor_le).mp hn j)
  | exitNone cur dead hc hcur hdead hn =>
    have hm := wakeJoiners_spec m.sched cur dead.id
    have hd := hm.forth ht
    have hne : cur ≠ j := fun e => hq.other (e ▸ hcur)
    rw [if_neg hne, wakeJoiner_of_not_blocked (by rw [hready]; decide)] at hd
    have hle : (m.sched.wakeJoiners cur dead.id).cursor ≤
        (m.sched.wakeJoiners cur dead.id).slots.length := by
      rw [hm.cursor, hm.length]
      exact hI.sched.cursor_le
    exact absurd ⟨t, hd, hready⟩ ((nextReady_none_iff hle).mp hn j)

/-- A Ready task that is not dispatched stays where it is and Ready. -/
theorem Queued.stays (hq : Queued j id m) (hv : StepView m a m' es) (hnot : j ∉ dispatches es) :
    Queued j id m' := by
  obtain ⟨t, ht, hid, hready⟩ := hq.waits
  have hnb : t.state ≠ .blocked := by rw [hready]; decide
  obtain ⟨hne, u, hu, huid, hn⟩ := bystander_step hv ht hq.other hnot
  refine ⟨⟨u, hu, huid.trans hid, ?_⟩, hne⟩
  cases hn with
  | still _ _ hs => rw [hs, hready]
  | tick _ _ _ _ hs => rw [hs, wakeSleeper_of_not_blocked hnb, hready]
  | exit dead _ _ hs => rw [hs, wakeJoiner_of_not_blocked hnb, hready]

theorem inv_view (hI : Inv m) (hv : StepView m a m' es) : Inv m' :=
  ⟨SchedInv.step hI hv, hI.cpu.step hv⟩

/-- **One step of a wait**: its ticks come off the turn under way, and a dispatch begins a turn. -/
theorem queued_step (hI : Inv m) (hq : Queued j id m) (hcur : m.sched.current ≠ none)
    (hv : StepView m a m' es) :
    m'.sched.current ≠ none ∧
      ticksIn es + m'.turnLeft ≤ m.turnLeft + (defaultSlice + 1) * (dispatches es).length := by
  cases hg : m.cpu.givesUp with
  | false =>
    refine ⟨(keeping_step hg hcur hv).2, Nat.le_trans (turnLeft_step hI hg hcur hv) ?_⟩
    exact Nat.le_add_right _ _
  | true =>
    obtain ⟨hticks, idx, hd, hcur'⟩ := giving_step hI hq hg hv
    have hsome : m'.sched.current ≠ none := by rw [hcur']; exact Option.some_ne_none idx
    refine ⟨hsome, ?_⟩
    rw [hticks, hd, Nat.zero_add, List.length_singleton, Nat.mul_one]
    exact Nat.le_trans (turnLeft_le (inv_view hI hv) hsome) (Nat.le_add_left _ _)

/-! ## 3. A Ready task -/

/-- The cursor is one past the current slot. -/
def CursorNext (s : Scheduler) : Prop := ∀ c, s.current = some c → s.cursor = c + 1

theorem Change.cursorNext {s s' : Scheduler} (h : Change s s' es) (hs : CursorNext s) :
    CursorNext s' := by
  intro c hc
  cases h with
  | inPlace f s' es hm hid hq =>
    rw [hm.cursor]
    exact hs c (hm.current.symm.trans hc)
  | spawn x s' ha =>
    obtain ⟨-, -, hcur, hcursor, -⟩ := add_spec ha
    rw [hcursor]
    exact hs c (hcur.symm.trans hc)
  | dispatch f s₁ idx hm hid hready hn =>
    cases hc
    rfl
  | exitTo cur dead idx hcur ht hn =>
    cases hc
    rfl
  | exitIdle cur dead hcur ht hn => cases hc

theorem cursorNext_run (h : KernelRun anyStep es m) : CursorNext m.sched := by
  have hboth : Inv m ∧ CursorNext m.sched := by
    refine h.invariant (I := fun m => Inv m ∧ CursorNext m.sched) ⟨inv_boot, fun c hc => ?_⟩ ?_
    · cases hc
    · intro m a m' es ⟨hI, hC⟩ _ hs
      exact ⟨hI.step hs, (change_of_step hI hs).cursorNext hC⟩
  exact hboth.2

/-- The current slot lies behind the cursor, seen from any other. -/
theorem bypass_current (hI : Inv m) (hC : CursorNext m.sched) (hc : m.sched.current = some c)
    (hne : c ≠ j) : Bypass j [c] m.sched := by
  obtain ⟨t, ht⟩ := hI.sched.occupied hc
  refine ⟨⟨List.pairwise_singleton _ c, fun d hd => ?_⟩, fun d hd => ?_⟩
  · rw [List.mem_singleton] at hd
    subst hd
    rw [hC d hc]
    split <;> omega
  · rw [List.mem_singleton] at hd
    subst hd
    exact lt_length ht

/-- What holds of a wait that began with slot `c` current. -/
structure Wait (j c : Nat) (id : TaskId) (m : Machine) (es : List Event) (m' : Machine) : Prop where
  queued : Queued j id m'
  busy : m'.sched.current ≠ none
  bypass : Bypass j (c :: dispatches es) m'.sched
  paid : ticksIn es + m'.turnLeft ≤ m.turnLeft + (defaultSlice + 1) * (dispatches es).length

/-- **A wait, over any run in which it does not end.** -/
theorem queued_run (hI : Inv m) (hC : CursorNext m.sched) (hq : Queued j id m)
    (hc : m.sched.current = some c) (h : Run Machine.step anyStep m es m')
    (hnot : j ∉ dispatches es) : Wait j c id m es m' := by
  induction h with
  | start =>
    refine ⟨hq, by rw [hc]; exact Option.some_ne_none c, ?_, ?_⟩
    · exact bypass_current hI hC hc fun e => hq.other (e ▸ hc)
    · exact Nat.le_of_eq (Nat.zero_add _)
  | next a hr _ hs ih =>
    rw [dispatches_append, List.mem_append, not_or] at hnot
    have hw := ih hnot.1
    have hI' := inv_from hI hr
    have hv := step_view hI'.cpu.active hs
    have hq' := hw.queued.stays hv hnot.2
    obtain ⟨hbusy, hpaid⟩ := queued_step hI' hw.queued hw.busy hv
    refine ⟨hq', hbusy, ?_, ?_⟩
    · rw [dispatches_append, ← List.cons_append]
      exact hw.bypass.change hI'.sched (change_of_step hI' hs) hw.queued.waits hq'.waits hnot.2
    · have hold := hw.paid
      rw [ticksIn_append, dispatches_append, List.length_append, Nat.mul_add]
      omega

/-- The turns of a wait go to different slots, none of them its own. -/
theorem Wait.turns_le (hw : Wait j c id m es m') (hne : c ≠ j) (hnot : j ∉ dispatches es) :
    (dispatches es).length + 1 ≤ m'.sched.slots.length - 1 := by
  obtain ⟨t, ht, -⟩ := hw.queued.waits
  have hlt := Slots.length_lt_of_avoids hw.bypass.visited.nodup
    (List.not_mem_cons_of_ne_of_not_mem hne.symm hnot) (lt_length ht) hw.bypass.bounded
  rw [List.length_cons] at hlt
  omega

end Turn

/-- **A Ready task waits at most `DEFAULT_SLICE + 1` ticks for each other slot.** Whatever the tasks
    and the timer do from a state in which slot `j` holds a Ready task and another slot is current:
    the task is dispatched, or it is still Ready and that many ticks have not passed. -/
theorem ready_latency {j c : Nat} {id : TaskId} {m m' : Machine} {es₀ es : List Event}
    (h₀ : KernelRun anyStep es₀ m) (hw : Waits j id m.sched) (hc : m.sched.current = some c)
    (hne : c ≠ j) (h : Run Machine.step anyStep m es m') :
    j ∈ dispatches es ∨
      (Waits j id m'.sched ∧ ticksIn es ≤ (defaultSlice + 1) * (m'.sched.slots.length - 1)) := by
  by_cases hnot : j ∈ dispatches es
  · exact Or.inl hnot
  have hI := inv_run h₀
  have hq : Queued j id m := ⟨hw, fun e => hne (Option.some.inj (hc.symm.trans e))⟩
  have hwait := queued_run hI (cursorNext_run h₀) hq hc h hnot
  refine Or.inr ⟨hwait.queued.waits, ?_⟩
  have hfirst := turnLeft_le hI (by rw [hc]; exact Option.some_ne_none c)
  have hturns := hwait.turns_le hne hnot
  calc ticksIn es
      ≤ m.turnLeft + (defaultSlice + 1) * (dispatches es).length :=
        Nat.le_trans (Nat.le_add_right _ _) hwait.paid
    _ ≤ (defaultSlice + 1) * ((dispatches es).length + 1) := by
        rw [Nat.mul_succ, Nat.add_comm]
        exact Nat.add_le_add_left hfirst _
    _ ≤ (defaultSlice + 1) * (m'.sched.slots.length - 1) := Nat.mul_le_mul_left _ hturns

/-- Two tasks: while the first keeps the CPU, the second waits for three ticks, as long as it
    can. -/
theorem ready_latency_two : ∃ (es : List Event) (m' : Machine), 1 ∉ dispatches es ∧
    Waits 1 2 m'.sched ∧ ticksIn es ≤ (defaultSlice + 1) * (m'.sched.slots.length - 1) ∧
    ticksIn es = (defaultSlice + 1) * (m'.sched.slots.length - 1) := by
  obtain ⟨es₀, m, h₀, hm⟩ := exists_picRun (untilStart ++ [.cont])
    (fun _ m => decide (Waits 1 2 m.sched) && m.sched.current == some 0 &&
      (exec Machine.step Machine.picOk m (turnOf 2 ++ [.timer, .cont])).any
        fun r => decide (dispatches r.2 = [] ∧
          ticksIn r.2 = (defaultSlice + 1) * (r.1.sched.slots.length - 1))) (by decide)
  simp only [Bool.and_eq_true, decide_eq_true_eq, beq_iff_eq, Option.any_eq_true] at hm
  obtain ⟨⟨hw, hc⟩, ⟨m', es⟩, hr, hd, hticks⟩ := hm
  have hnot : 1 ∉ dispatches es := by rw [hd]; exact List.not_mem_nil
  rcases ready_latency h₀.any hw hc (by decide) (run_of_exec _ hr).any with hin | ⟨hw', hle⟩
  · exact absurd hin hnot
  · exact ⟨es, m', hnot, hw', hle, hticks⟩

/-! ## 4. A sleeper -/

/-- Slot `j` holds the task `id`, asleep until tick `wake`. -/
def Asleep (j : Nat) (id : TaskId) (wake : Nat) (s : Scheduler) : Prop :=
  ∃ t, s.task? j = some t ∧ t.id = id ∧ t.state = .blocked ∧ t.block = .sleep wake

instance (j : Nat) (id : TaskId) (wake : Nat) (s : Scheduler) : Decidable (Asleep j id wake s) :=
  decidable_of_iff
    ((s.task? j).any (fun t => t.id == id && t.state == .blocked && t.block == .sleep wake) = true)
    (by
      unfold Asleep
      cases s.task? j <;> simp [and_assoc])

section Sleep

variable {m m' : Machine} {es : List Event} {j wake : Nat} {id : TaskId} {a : Action}

/-- **One step of a sleep**: it goes on, or the handler counts the tick that ends it. -/
theorem asleep_step (hs : Asleep j id wake m.sched) (hne : m.sched.current ≠ some j)
    (hv : StepView m a m' es) (hnot : j ∉ dispatches es) (hclock : m.ticks + ticksIn es < 2 ^ 64) :
    m'.sched.current ≠ some j ∧ m'.ticks = m.ticks + ticksIn es ∧
      ((Asleep j id wake m'.sched ∧ (ticksIn es = 0 ∨ m'.ticks < wake)) ∨
        (Waits j id m'.sched ∧ ticksIn es = 1 ∧ m.cpu.givesUp = false)) := by
  obtain ⟨t, ht, hid, hblocked, hblock⟩ := hs
  obtain ⟨hne', u, hu, huid, hn⟩ := bystander_step hv ht hne hnot
  refine ⟨hne', ?_⟩
  cases hn with
  | still hticks htime hst hb =>
    rw [hticks]
    exact ⟨htime, Or.inl ⟨⟨u, hu, huid.trans hid, hst.trans hblocked, hb.trans hblock⟩, Or.inl rfl⟩⟩
  | exit dead hticks htime hst hb =>
    -- the exit wakes joiners only
    have hsame : wakeJoiner dead t = t := by
      rw [wakeJoiner, if_neg]
      rw [hblock]
      exact fun h => by cases h.2
    rw [hsame] at hst hb
    rw [hticks]
    exact ⟨htime, Or.inl ⟨⟨u, hu, huid.trans hid, hst.trans hblocked, hb.trans hblock⟩, Or.inl rfl⟩⟩
  | tick p hc hticks htime hst hb =>
    rw [hticks] at hclock ⊢
    refine ⟨by rw [htime, Nat.mod_eq_of_lt hclock], ?_⟩
    simp only [wakeSleeper, hblocked, hblock] at hst hb
    by_cases hdue : wake ≤ m'.ticks
    · rw [if_pos hdue] at hst
      exact Or.inr ⟨⟨u, hu, huid.trans hid, hst⟩, rfl, by rw [hc]; rfl⟩
    · rw [if_neg hdue] at hst hb
      refine Or.inl ⟨⟨u, hu, huid.trans hid, hst.trans hblocked, hb.trans hblock⟩, Or.inr ?_⟩
      exact Nat.lt_of_not_le hdue

/-- Somebody is current. -/
def cpuHeld (m : Machine) (_ : Action) : Prop := m.sched.current ≠ none

/-- A run from a sleep in which the sleeper is not dispatched: it still sleeps, or it was woken in
    time and has waited since. -/
inductive SleepRun (j : Nat) (id : TaskId) (wake : Nat) (m : Machine) (es : List Event)
    (m' : Machine) : Prop where
  | asleep (hs : Asleep j id wake m'.sched) (hne : m'.sched.current ≠ some j)
      (hnow : m'.ticks = m.ticks + ticksIn es) (hearly : ticksIn es < max (wake - m.ticks) 1)
  | woken (es₁ es₂ : List Event) (m₁ : Machine) (hes : es = es₁ ++ es₂)
      (hin : ticksIn es₁ ≤ max (wake - m.ticks) 1) (hq : Queued j id m₁)
      (hleft : m₁.sched.current ≠ none → m₁.turnLeft ≤ defaultSlice)
      (h₁ : Run Machine.step cpuHeld m es₁ m₁) (h₂ : Run Machine.step cpuHeld m₁ es₂ m')

/-- **A sleep, over any run in which somebody is always current.** -/
theorem asleep_run (hI : Inv m) (hs : Asleep j id wake m.sched) (hne : m.sched.current ≠ some j)
    (h : Run Machine.step cpuHeld m es m') (hnot : j ∉ dispatches es)
    (hclock : m.ticks + ticksIn es < 2 ^ 64) :
    SleepRun j id wake m es m' := by
  induction h with
  | start => exact .asleep hs hne rfl (Nat.lt_of_lt_of_le Nat.zero_lt_one (Nat.le_max_right _ _))
  | next a hr hok hstep ih =>
    rename_i es₁ es₂ m₁ m₂
    rw [dispatches_append, List.mem_append, not_or] at hnot
    rw [ticksIn_append] at hclock
    have hI₁ := inv_from hI hr
    have hv := step_view hI₁.cpu.active hstep
    cases ih hnot.1 (by omega) with
    | woken es₃ es₄ m₃ hes hin hq hleft h₃ h₄ =>
      refine .woken es₃ (es₄ ++ es₂) m₃ ?_ hin hq hleft h₃ (h₄.next a hok hstep)
      rw [hes, List.append_assoc]
    | asleep hs₁ hne₁ hnow hearly =>
      obtain ⟨hne₂, hnow₂, hcase⟩ := asleep_step hs₁ hne₁ hv hnot.2 (by omega)
      rcases hcase with ⟨hs₂, hquiet⟩ | ⟨hw₂, hone, hg⟩
      · refine .asleep hs₂ hne₂ ?_ ?_ <;> rw [ticksIn_append] <;> omega
      · refine .woken (es₁ ++ es₂) [] m₂ (List.append_nil _).symm ?_ ⟨hw₂, hne₂⟩ (fun hcur => ?_)
          (hr.next a hok hstep) .start
        · rw [ticksIn_append]
          omega
        · have hpaid := turnLeft_step hI₁ hg hok hv
          have hfull := turnLeft_le hI₁ hok
          omega

theorem held_start (h : Run Machine.step cpuHeld m es m') (hend : m'.sched.current ≠ none) :
    m.sched.current ≠ none := by
  induction h with
  | start => exact hend
  | next a _ hok _ ih => exact ih hok

end Sleep

/-- **A sleeper waits for the tick that wakes it and then as a Ready task does.** From a state in
    which slot `j` holds a task that sleeps until `wake` and is not current, in any run in which
    somebody is always current and the tick counter does not wrap: the task is dispatched, or fewer
    ticks have passed than up to `wake` (at least one) and then `DEFAULT_SLICE + 1` for each other
    slot. -/
theorem sleep_latency {j wake : Nat} {id : TaskId} {m m' : Machine} {es₀ es : List Event}
    (h₀ : KernelRun anyStep es₀ m) (hs : Asleep j id wake m.sched)
    (hne : m.sched.current ≠ some j) (h : Run Machine.step cpuHeld m es m')
    (hend : m'.sched.current ≠ none) (hclock : m.ticks + ticksIn es < 2 ^ 64) :
    j ∈ dispatches es ∨
      ticksIn es < max (wake - m.ticks) 1 + (defaultSlice + 1) * (m'.sched.slots.length - 1) := by
  by_cases hnot : j ∈ dispatches es
  · exact Or.inl hnot
  refine Or.inr ?_
  have hI := inv_run h₀
  cases asleep_run hI hs hne h hnot hclock with
  | asleep _ _ _ hearly => exact Nat.lt_of_lt_of_le hearly (Nat.le_add_right _ _)
  | woken es₁ es₂ m₁ hes hin hq hleft h₁ h₂ =>
    have hheld := held_start h₂ hend
    obtain ⟨c, hc⟩ := Option.ne_none_iff_exists'.mp hheld
    have hcj : c ≠ j := fun e => hq.other (e ▸ hc)
    have hnot₂ : j ∉ dispatches es₂ := by
      rw [hes, dispatches_append, List.mem_append, not_or] at hnot
      exact hnot.2
    have hwait := queued_run (inv_from hI h₁) (cursorNext_run (h₀.trans h₁.any)) hq hc h₂.any hnot₂
    have hturns := Nat.mul_le_mul_left (defaultSlice + 1) (hwait.turns_le hcj hnot₂)
    have hpaid := hwait.paid
    have hfirst := hleft hheld
    rw [hes, ticksIn_append]
    rw [Nat.mul_succ] at hturns
    omega

/-- The first of two tasks sleeps one tick: it is woken by the first tick and waits for two more, as
    long as it can. -/
theorem sleep_latency_two : ∃ (es : List Event) (m m' : Machine), Asleep 0 1 1 m.sched ∧
    0 ∉ dispatches es ∧
    ticksIn es < max (1 - m.ticks) 1 + (defaultSlice + 1) * (m'.sched.slots.length - 1) ∧
    ticksIn es + 1 = max (1 - m.ticks) 1 + (defaultSlice + 1) * (m'.sched.slots.length - 1) := by
  obtain ⟨es₀, m, h₀, hm⟩ := exists_picRun
    (untilStart ++ [.cont] ++ turnOf 0 ++ [.sleep 1, .cont, .cont, .cont, .cont])
    (fun _ m => decide (Asleep 0 1 1 m.sched) && decide (m.sched.current = some 1) &&
      (exec Machine.step (fun m _ => decide (m.sched.current ≠ none)) m
        (turnOf 2 ++ [.timer, .cont])).any
        fun (r : Machine × List Event) => decide (dispatches r.2 = [] ∧ r.1.sched.current ≠ none ∧
          m.ticks + ticksIn r.2 < 2 ^ 64 ∧
          ticksIn r.2 + 1 =
            max (1 - m.ticks) 1 + (defaultSlice + 1) * (r.1.sched.slots.length - 1))) (by decide)
  simp only [Bool.and_eq_true, decide_eq_true_eq, Option.any_eq_true] at hm
  obtain ⟨⟨hs, hc⟩, ⟨m', es⟩, hr, hd, hend, hclock, hticks⟩ := hm
  have hnot : 0 ∉ dispatches es := by rw [hd]; exact List.not_mem_nil
  have hseg : Run Machine.step cpuHeld m es m' :=
    (run_of_exec _ hr).mono fun _ _ h => of_decide_eq_true h
  rcases sleep_latency h₀.any hs (by rw [hc]; decide) hseg hend hclock with hin | hlt
  · exact absurd hin hnot
  · exact ⟨es, m, m', hs, hnot, hlt, hticks⟩

end SimpleLinux
