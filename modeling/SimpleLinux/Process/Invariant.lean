/-
  File:      SimpleLinux/Process/Invariant.lean
  Subject:   The representation invariant of the scheduler, on every run of the machine.

  * `TaskOk`, `SchedInv` -- what one task and the whole table satisfy between critical sections;
    one lemma per section says that it is kept (`SchedInv.add`, `SchedInv.mapped`, …);
  * `CpuInv` -- where the CPU can stand, as far as the scheduler's state decides it: before the
    hand-over of `start()` nobody is current and every task is Ready, a chosen slot stays the one
    `next_ready` would choose again, and task code runs on an occupied current slot;
  * `Inv`, `inv_run` -- both, on every run.
-/
import SimpleLinux.Process.Machine

namespace SimpleLinux

open Runs

/-! ## 1. The table -/

/-- What holds of every task between critical sections. -/
structure TaskOk (t : Task) : Prop where
  blocked_iff : t.state = .blocked ↔ t.block ≠ .none
  notZombie : t.state ≠ .zombie
  slice_le : t.slice ≤ defaultSlice

/-- **The scheduler's invariant between critical sections.** -/
structure SchedInv (s : Scheduler) : Prop where
  distinct : ∀ {i j : Nat} {t u : Task}, s.task? i = some t → s.task? j = some u → t.id = u.id →
    i = j
  below : ∀ {i : Nat} {t : Task}, s.task? i = some t → t.id < s.nextId
  occupied : ∀ {i : Nat}, s.current = some i → ∃ t, s.task? i = some t
  running : ∀ {i : Nat} {t : Task}, s.task? i = some t → t.state = .running → s.current = some i
  ok : ∀ {i : Nat} {t : Task}, s.task? i = some t → TaskOk t
  cursor_le : s.cursor ≤ s.slots.length

theorem TaskOk.block_none {t : Task} (h : TaskOk t) (hs : t.state ≠ .blocked) :
    t.block = .none := by
  by_contra hb
  exact hs (h.blocked_iff.mpr hb)

theorem taskOk_new (id : TaskId) : TaskOk (Task.new id defaultSlice) where
  blocked_iff := by simp [Task.new]
  notZombie := by simp [Task.new]
  slice_le := Nat.le_refl _

theorem TaskOk.demote {t : Task} (h : TaskOk t) : TaskOk (Scheduler.demote t) := by
  unfold Scheduler.demote
  split
  · rename_i hs
    have hb := h.block_none (by rw [hs]; decide)
    exact ⟨by simp [hb], by simp, h.slice_le⟩
  · exact h

theorem TaskOk.wakeSleeper {t : Task} (h : TaskOk t) (now : Nat) :
    TaskOk (Scheduler.wakeSleeper now t) := by
  unfold Scheduler.wakeSleeper
  split
  · split
    · exact ⟨by simp, by simp, h.slice_le⟩
    · exact h
  · exact h

theorem TaskOk.wakeJoiner {t : Task} (h : TaskOk t) (dead : TaskId) :
    TaskOk (Scheduler.wakeJoiner dead t) := by
  unfold Scheduler.wakeJoiner
  split
  · exact ⟨by simp, by simp, h.slice_le⟩
  · exact h

theorem TaskOk.chargeSlice {t : Task} (h : TaskOk t) : TaskOk (Scheduler.chargeSlice t).2 := by
  unfold Scheduler.chargeSlice
  split
  · exact ⟨h.blocked_iff, h.notZombie, Nat.le_refl _⟩
  · exact ⟨h.blocked_iff, h.notZombie, Nat.le_trans (Nat.sub_le _ _) h.slice_le⟩

theorem TaskOk.tickTask {t : Task} (h : TaskOk t) (cur : Option Nat) (now j : Nat) :
    TaskOk (Scheduler.tickTask cur now j t) := by
  unfold Scheduler.tickTask
  split
  · exact (h.wakeSleeper now).chargeSlice
  · exact h.wakeSleeper now

namespace Scheduler

@[simp] theorem demote_id (t : Task) : (demote t).id = t.id := by
  unfold demote; split <;> rfl

@[simp] theorem wakeSleeper_id (now : Nat) (t : Task) : (wakeSleeper now t).id = t.id := by
  unfold wakeSleeper
  split
  · split <;> rfl
  · rfl

@[simp] theorem wakeJoiner_id (dead : TaskId) (t : Task) : (wakeJoiner dead t).id = t.id := by
  unfold wakeJoiner; split <;> rfl

@[simp] theorem chargeSlice_id (t : Task) : (chargeSlice t).2.id = t.id := by
  unfold chargeSlice; split <;> rfl

@[simp] theorem chargeSlice_state (t : Task) : (chargeSlice t).2.state = t.state := by
  unfold chargeSlice; split <;> rfl

@[simp] theorem chargeSlice_block (t : Task) : (chargeSlice t).2.block = t.block := by
  unfold chargeSlice; split <;> rfl

@[simp] theorem chargeSlice_ctx (t : Task) : (chargeSlice t).2.ctx = t.ctx := by
  unfold chargeSlice; split <;> rfl

@[simp] theorem tickTask_id (cur : Option Nat) (now j : Nat) (t : Task) :
    (tickTask cur now j t).id = t.id := by
  unfold tickTask; split <;> simp

/-- A tick changes a task's state and block reason as `wakeSleeper` does, current or not. -/
@[simp] theorem tickTask_state (cur : Option Nat) (now j : Nat) (t : Task) :
    (tickTask cur now j t).state = (wakeSleeper now t).state := by
  unfold tickTask; split <;> simp

@[simp] theorem tickTask_block (cur : Option Nat) (now j : Nat) (t : Task) :
    (tickTask cur now j t).block = (wakeSleeper now t).block := by
  unfold tickTask; split <;> simp

@[simp] theorem wakeSleeper_ctx (now : Nat) (t : Task) : (wakeSleeper now t).ctx = t.ctx := by
  unfold wakeSleeper
  split
  · split <;> rfl
  · rfl

@[simp] theorem tickTask_ctx (cur : Option Nat) (now j : Nat) (t : Task) :
    (tickTask cur now j t).ctx = t.ctx := by
  unfold tickTask; split <;> simp

@[simp] theorem demote_ctx (t : Task) : (demote t).ctx = t.ctx := by
  unfold demote; split <;> rfl

@[simp] theorem demote_block (t : Task) : (demote t).block = t.block := by
  unfold demote; split <;> rfl

@[simp] theorem wakeJoiner_ctx (dead : TaskId) (t : Task) : (wakeJoiner dead t).ctx = t.ctx := by
  unfold wakeJoiner; split <;> rfl

/-- A task the tick does not find Blocked keeps its state. -/
theorem wakeSleeper_of_not_blocked {now : Nat} {t : Task} (h : t.state ≠ .blocked) :
    wakeSleeper now t = t := by
  unfold wakeSleeper
  split
  · rename_i hs _
    exact absurd hs h
  · rfl

theorem wakeJoiner_of_not_blocked {dead : TaskId} {t : Task} (h : t.state ≠ .blocked) :
    wakeJoiner dead t = t := by
  unfold wakeJoiner
  rw [if_neg fun hc => h hc.1]

theorem wakeSleeper_running {now : Nat} {t : Task} (h : (wakeSleeper now t).state = .running) :
    t.state = .running := by
  unfold wakeSleeper at h
  split at h
  · split at h
    · cases h
    · exact h
  · exact h

theorem wakeJoiner_running {dead : TaskId} {t : Task} (h : (wakeJoiner dead t).state = .running) :
    t.state = .running := by
  unfold wakeJoiner at h
  split at h
  · cases h
  · exact h

theorem demote_not_running (t : Task) : (demote t).state ≠ .running := by
  unfold demote
  split
  · simp
  · assumption

end Scheduler

section Sections

variable {s s' : Scheduler}

open Scheduler

theorem schedInv_new : SchedInv Scheduler.new := by
  have h : ∀ i, Scheduler.new.task? i = none := fun i => by simp [Scheduler.new, task?, Slots.get]
  refine ⟨fun hi _ _ => ?_, fun hi => ?_, fun hc => ?_, fun hi _ => ?_, fun hi => ?_, Nat.le_refl _⟩
  · rw [h] at hi; cases hi
  · rw [h] at hi; cases hi
  · cases hc
  · rw [h] at hi; cases hi
  · rw [h] at hi; cases hi

theorem SchedInv.add (hI : SchedInv s) {id : TaskId} (h : s.add = some (id, s')) :
    SchedInv s' := by
  obtain ⟨-, hn, hc, hcu, hl, k, hk, ht⟩ := add_spec h
  -- the new task's id is the counter's old value, above every id in the table
  have old : ∀ {j t}, s'.task? j = some t →
      (j = k ∧ t = Task.new s.nextId defaultSlice) ∨ s.task? j = some t := by
    intro j t hj
    rw [ht] at hj
    split at hj
    · rename_i e; exact Or.inl ⟨e, (Option.some.inj hj).symm⟩
    · exact Or.inr hj
  constructor
  · intro i j t u hi hj e
    rcases old hi with ⟨rfl, rfl⟩ | hi' <;> rcases old hj with ⟨rfl, rfl⟩ | hj'
    · rfl
    · exact absurd e (Nat.ne_of_gt (hI.below hj'))
    · exact absurd e (Nat.ne_of_lt (hI.below hi'))
    · exact hI.distinct hi' hj' e
  · intro i t hi
    rw [hn]
    rcases old hi with ⟨-, rfl⟩ | hi'
    · exact Nat.lt_succ_self _
    · exact Nat.lt_succ_of_lt (hI.below hi')
  · intro i hi
    rw [hc] at hi
    obtain ⟨t, hit⟩ := hI.occupied hi
    refine ⟨t, ?_⟩
    rw [ht, if_neg, hit]
    rintro rfl
    rw [hk] at hit
    cases hit
  · intro i t hi hr
    rw [hc]
    rcases old hi with ⟨-, rfl⟩ | hi'
    · cases hr
    · exact hI.running hi' hr
  · intro i t hi
    rcases old hi with ⟨-, rfl⟩ | hi'
    · exact taskOk_new _
    · exact hI.ok hi'
  · rw [hcu]
    exact Nat.le_trans hI.cursor_le hl

/-- **A section that changes tasks in place** keeps the invariant when it keeps it task by task
    and makes nobody Running. -/
theorem SchedInv.mapped (hI : SchedInv s) {f : Nat → Task → Task} (h : Mapped f s s')
    (hid : ∀ j t, (f j t).id = t.id) (hok : ∀ j t, TaskOk t → TaskOk (f j t))
    (hrun : ∀ j t, (f j t).state = .running → t.state = .running) : SchedInv s' := by
  constructor
  · intro i j t u hi hj e
    obtain ⟨t₀, hi₀, rfl⟩ := h.back hi
    obtain ⟨u₀, hj₀, rfl⟩ := h.back hj
    rw [hid, hid] at e
    exact hI.distinct hi₀ hj₀ e
  · intro i t hi
    obtain ⟨t₀, hi₀, rfl⟩ := h.back hi
    rw [hid, h.nextId]
    exact hI.below hi₀
  · intro i hi
    rw [h.current] at hi
    obtain ⟨t, ht⟩ := hI.occupied hi
    exact ⟨_, h.forth ht⟩
  · intro i t hi hr
    obtain ⟨t₀, hi₀, rfl⟩ := h.back hi
    rw [h.current]
    exact hI.running hi₀ (hrun _ _ hr)
  · intro i t hi
    obtain ⟨t₀, hi₀, rfl⟩ := h.back hi
    exact hok _ _ (hI.ok hi₀)
  · rw [h.cursor, h.length]
    exact hI.cursor_le

theorem SchedInv.markBlocked (hI : SchedInv s) {why : BlockReason} (hw : why ≠ .none)
    (h : s.markBlocked why = some s') : SchedInv s' := by
  obtain ⟨cur, -, hm⟩ := markBlocked_spec h
  refine hI.mapped hm (fun j t => ?_) (fun j t ht => ?_) (fun j t hr => ?_)
  · split <;> rfl
  · split
    · exact ⟨by simp [hw], by simp, ht.slice_le⟩
    · exact ht
  · split at hr
    · cases hr
    · exact hr

theorem SchedInv.tick (hI : SchedInv s) (now : Nat) : SchedInv (s.tick now).2 :=
  hI.mapped (tick_spec s now) (fun _ _ => tickTask_id _ _ _ _) (fun _ _ h => h.tickTask _ _ _)
    fun _ _ hr => wakeSleeper_running (by rwa [tickTask_state] at hr)

theorem SchedInv.demoted (hI : SchedInv s) : SchedInv s.demoted := by
  refine hI.mapped (demoted_spec s) (fun j t => ?_) (fun j t ht => ?_) (fun j t hr => ?_)
  · split <;> simp
  · split
    · exact ht.demote
    · exact ht
  · split at hr
    · exact absurd hr (demote_not_running t)
    · exact hr

theorem SchedInv.takeFunc (hI : SchedInv s) {b : Bool} (h : s.takeFunc = some (b, s')) :
    SchedInv s' := by
  obtain ⟨cur, -, hm⟩ := takeFunc_spec h
  refine hI.mapped hm (fun j t => ?_) (fun j t ht => ?_) (fun j t hr => ?_)
  · split <;> rfl
  · split
    · exact ⟨ht.blocked_iff, ht.notZombie, ht.slice_le⟩
    · exact ht
  · split at hr <;> exact hr

theorem SchedInv.saveCtx (hI : SchedInv s) (i : Nat) (c : Context) :
    SchedInv (s.saveCtx i c) := by
  refine hI.mapped (saveCtx_spec s i c) (fun j t => ?_) (fun j t ht => ?_) (fun j t hr => ?_)
  · split <;> rfl
  · split
    · exact ⟨ht.blocked_iff, ht.notZombie, ht.slice_le⟩
    · exact ht
  · split at hr <;> exact hr

/-- After a demotion nobody is Running. -/
theorem demoted_none_running (hI : SchedInv s) {i : Nat} {t : Task}
    (h : s.demoted.task? i = some t) : t.state ≠ .running := by
  intro hr
  obtain ⟨t₀, ht₀, rfl⟩ := (demoted_spec s).back h
  split at hr
  · exact demote_not_running t₀ hr
  · rename_i hc
    exact hc (hI.running ht₀ hr)

/-- `prep_switch` keeps the invariant when it is given a Ready slot and nobody is Running. -/
theorem SchedInv.prepSwitch (hI : SchedInv s) {idx : Nat} (hr : s.ReadyAt idx)
    (hn : ∀ {i t}, s.task? i = some t → t.state ≠ .running) : SchedInv (s.prepSwitch idx).2 := by
  obtain ⟨r, hr1, hr2⟩ := hr
  have back : ∀ {j u}, (s.prepSwitch idx).2.task? j = some u → ∃ t, s.task? j = some t ∧
      u = if idx = j then { t with state := .running } else t := by
    intro j u hu
    rw [task?_prepSwitch] at hu
    obtain ⟨t, ht, e⟩ := Option.map_eq_some_iff.mp hu
    exact ⟨t, ht, e.symm⟩
  constructor
  · intro i j t u hi hj e
    obtain ⟨t₀, hi₀, rfl⟩ := back hi
    obtain ⟨u₀, hj₀, rfl⟩ := back hj
    refine hI.distinct hi₀ hj₀ ?_
    split at e <;> split at e <;> exact e
  · intro i t hi
    obtain ⟨t₀, hi₀, rfl⟩ := back hi
    have := hI.below hi₀
    split <;> exact this
  · intro i hi
    cases hi
    exact ⟨_, by rw [task?_prepSwitch, hr1]; rfl⟩
  · intro i t hi hrun
    obtain ⟨t₀, hi₀, rfl⟩ := back hi
    split at hrun
    · rename_i e; subst e; rfl
    · exact absurd hrun (hn hi₀)
  · intro i t hi
    obtain ⟨t₀, hi₀, rfl⟩ := back hi
    split
    · rename_i e
      subst e
      rw [hr1] at hi₀
      cases hi₀
      have hb := (hI.ok hr1).block_none (by rw [hr2]; decide)
      exact ⟨by simp [hb], by simp, (hI.ok hr1).slice_le⟩
    · exact hI.ok hi₀
  · show idx + 1 ≤ (Slots.update s.slots idx _).length
    rw [Slots.length_update]
    exact lt_length hr1

/-- The table after the exit of the task in slot `cur`: the slot is free, the joiners are woken. -/
theorem task?_exit (s : Scheduler) (cur j : Nat) (dead : TaskId) :
    ((s.wakeJoiners cur dead).reap cur).task? j =
      if cur = j then none else (s.task? j).map (wakeJoiner dead) := by
  rw [task?_reap]
  split
  · rfl
  · rename_i hj
    rw [(wakeJoiners_spec s cur dead).task]
    simp only [hj, if_false]

theorem exit_back {cur j : Nat} {dead : TaskId} {u : Task}
    (h : ((s.wakeJoiners cur dead).reap cur).task? j = some u) :
    cur ≠ j ∧ ∃ t, s.task? j = some t ∧ u = wakeJoiner dead t := by
  rw [task?_exit] at h
  split at h
  · cases h
  · rename_i hj
    obtain ⟨t, ht, e⟩ := Option.map_eq_some_iff.mp h
    exact ⟨hj, t, ht, e.symm⟩

theorem SchedInv.exit (hI : SchedInv s) {cur : Nat} (hc : s.current = some cur) (dead : TaskId) :
    SchedInv ((s.wakeJoiners cur dead).reap cur) := by
  constructor
  · intro i j t u hi hj e
    obtain ⟨-, t₀, hi₀, rfl⟩ := exit_back hi
    obtain ⟨-, u₀, hj₀, rfl⟩ := exit_back hj
    rw [wakeJoiner_id, wakeJoiner_id] at e
    exact hI.distinct hi₀ hj₀ e
  · intro i t hi
    obtain ⟨-, t₀, hi₀, rfl⟩ := exit_back hi
    rw [wakeJoiner_id]
    exact hI.below hi₀
  · intro i hi
    cases hi
  · intro i t hi hr
    obtain ⟨hne, t₀, hi₀, rfl⟩ := exit_back hi
    have := hI.running hi₀ (wakeJoiner_running hr)
    rw [hc] at this
    exact absurd (Option.some.inj this) hne
  · intro i t hi
    obtain ⟨-, t₀, hi₀, rfl⟩ := exit_back hi
    exact (hI.ok hi₀).wakeJoiner dead
  · show s.cursor ≤ (Slots.clear _ cur).length
    rw [Slots.length_clear]
    show s.cursor ≤ (Slots.mapAll _ _).length
    rw [Slots.length_mapAll, Slots.length_update]
    exact hI.cursor_le

/-- After an exit nobody is Running. -/
theorem exit_none_running (hI : SchedInv s) {cur i : Nat} {dead : TaskId} {t : Task}
    (hc : s.current = some cur) (h : ((s.wakeJoiners cur dead).reap cur).task? i = some t) :
    t.state ≠ .running := by
  intro hr
  have := (hI.exit hc dead).running h hr
  cases this

/-- The successor an exiting task chooses is Ready after the exit too. -/
theorem exit_readyAt {cur idx : Nat} {dead : TaskId}
    (h : (s.wakeJoiners cur dead).ReadyAt idx) :
    ((s.wakeJoiners cur dead).reap cur).ReadyAt idx := by
  obtain ⟨t, ht, hr⟩ := h
  refine ⟨t, ?_, hr⟩
  rw [task?_reap, if_neg, ht]
  rintro rfl
  obtain ⟨t₀, -, rfl⟩ := (wakeJoiners_spec s cur dead).back ht
  rw [if_pos rfl, wakeJoiner_of_not_blocked (by simp)] at hr
  cases hr

end Sections

/-! ## 2. Where the CPU stands -/

/-- Whose code the CPU executes: the boot context's, nobody's (the idle loop), a task's. -/
inductive Holder where
  | boot | nobody | task
  deriving DecidableEq, Repr

def Caller.holder : Caller → Holder
  | .bootYield => .boot
  | .yield | .sleep _ _ | .join _ => .task

def Pos.holder : Pos → Holder
  | .boot | .starting _ => .boot
  | .idle => .nobody
  | .sched c | .ret c => c.holder
  | .body | .sleepClock _ _ | .sleepMark _ _ _ | .joinCheck _ | .joinMark _ | .panicked => .task

def Ret.holder : Ret → Holder
  | .caller c => c.holder
  | .tick p => p.holder

def Context.holder : Context → Holder
  | .trampoline => .task
  | .schedule _ r => r.holder

def Code.holder : Code → Holder
  | .run p | .handler p | .eoi p => p.holder
  | .sched _ r => r.holder
  | .switch _ _ | .exitSection => .task
  | .resumed c => c.holder
  | .startSection _ => .boot

/-- The slot `start()` has chosen and not yet dispatched. -/
def Pos.chosen : Pos → Option Nat
  | .starting idx => some idx
  | _ => none

def Code.chosen : Code → Option Nat
  | .run p | .handler p | .eoi p => p.chosen
  | .startSection idx => some idx
  | _ => none

/-- Own code runs with interrupts enabled, everything else with interrupts disabled. -/
def Code.enabled : Code → Bool
  | .run _ => true
  | _ => false

/-- `was_enabled` is true of a blocking call and false of the timer handler, and the handler calls
    `schedule()` only on top of a task. -/
def Ret.Fits (w : Bool) : Ret → Prop
  | .caller _ => w = true
  | .tick p => w = false ∧ p.holder = .task

def Context.Fits : Context → Prop
  | .trampoline => True
  | .schedule w r => r.Fits w

/-- A context a task may be suspended in. -/
structure Context.Ok (c : Context) : Prop where
  holder : c.holder = .task
  fits : c.Fits

def Code.Fits : Code → Prop
  | .sched w r => r.Fits w
  | .switch (some (_, c)) _ => c.Ok
  | .resumed c => c.Fits
  | _ => True

/-- **What the scheduler's state says about the place of the CPU.** -/
structure CpuInv (m : Machine) : Prop where
  active : m.active = true
  boot : m.cpu.holder = .boot → m.sched.current = none ∧
    ∀ {i : Nat} {t : Task}, m.sched.task? i = some t → t.state = .ready
  nobody : m.cpu.holder = .nobody → m.sched.current = none
  task : m.cpu.holder = .task → m.sched.current ≠ none
  chosen : ∀ {idx : Nat}, m.cpu.chosen = some idx → m.sched.nextReady = some idx
  entered : ∀ {save : Option (Nat × Context)} {new : Nat}, m.cpu = .switch save new →
    m.sched.current = some new
  flag : m.intr = m.cpu.enabled
  code : m.cpu.Fits
  saved : ∀ {i : Nat} {t : Task}, m.sched.task? i = some t → t.ctx.Ok

section Cpu

variable {m m' : Machine}

open Scheduler

/-- A current task means that a task's code runs. -/
theorem CpuInv.holder_of_current (hI : CpuInv m) (h : m.sched.current ≠ none) :
    m.cpu.holder = .task := by
  cases hh : m.cpu.holder with
  | boot => exact absurd (hI.boot hh).1 h
  | nobody => exact absurd (hI.nobody hh) h
  | task => rfl

/-- A step that leaves the scheduler alone and stays with the same holder. -/
theorem CpuInv.move (hI : CpuInv m) (hs : m'.sched = m.sched) (ha : m'.active = m.active)
    (hh : m'.cpu.holder = m.cpu.holder)
    (hch : ∀ {idx}, m'.cpu.chosen = some idx → m.sched.nextReady = some idx)
    (hsw : ∀ save new, m'.cpu ≠ .switch save new) (hf : m'.intr = m'.cpu.enabled)
    (hc : m'.cpu.Fits) : CpuInv m' where
  active := ha.trans hI.active
  boot h := by rw [hs]; exact hI.boot (hh ▸ h)
  nobody h := by rw [hs]; exact hI.nobody (hh ▸ h)
  task h := by rw [hs]; exact hI.task (hh ▸ h)
  chosen h := by rw [hs]; exact hch h
  entered h := absurd h (hsw _ _)
  flag := hf
  code := hc
  saved h := by rw [hs] at h; exact hI.saved h

/-- A step inside task code that changes tasks in place. -/
theorem CpuInv.onTask (hI : CpuInv m) {f : Nat → Task → Task} (hm : Mapped f m.sched m'.sched)
    (hctx : ∀ j t, t.ctx.Ok → (f j t).ctx.Ok) (hcur : m.sched.current ≠ none)
    (ha : m'.active = m.active) (hh : m'.cpu.holder = .task) (hch : m'.cpu.chosen = none)
    (hsw : ∀ save new, m'.cpu ≠ .switch save new) (hf : m'.intr = m'.cpu.enabled)
    (hc : m'.cpu.Fits) : CpuInv m' where
  active := ha.trans hI.active
  boot h := by rw [hh] at h; cases h
  nobody h := by rw [hh] at h; cases h
  task _ := by rw [hm.current]; exact hcur
  chosen h := by rw [hch] at h; cases h
  entered h := absurd h (hsw _ _)
  flag := hf
  code := hc
  saved h := by
    obtain ⟨t, ht, rfl⟩ := hm.back h
    exact hctx _ _ (hI.saved ht)

/-- A dispatch: whatever happened to the tasks before it, the CPU goes to slot `idx`. -/
theorem CpuInv.dispatch (hI : CpuInv m) {s : Scheduler} {idx : Nat} {save : Option (Nat × Context)}
    (hctx : ∀ {i t}, s.task? i = some t → t.ctx.Ok) (hsave : ∀ i c, save = some (i, c) → c.Ok)
    (hf : m.intr = false) :
    CpuInv { m with sched := (s.prepSwitch idx).2, cpu := .switch save idx } where
  active := hI.active
  boot h := by cases h
  nobody h := by cases h
  task _ := by simp [prepSwitch]
  chosen h := by cases h
  entered h := by cases h; rfl
  flag := hf
  code := by
    cases save with
    | none => trivial
    | some ic => exact hsave ic.1 ic.2 rfl
  saved h := by
    rw [task?_prepSwitch] at h
    obtain ⟨t, ht, rfl⟩ := Option.map_eq_some_iff.mp h
    have hok := hctx ht
    split <;> exact hok

/-- The tick's section, wherever the interrupt fell. With nobody current it changes who is Ready
    only by waking sleepers, and before the hand-over there are none. -/
theorem CpuInv.handler (hI : CpuInv m) {p : Pos} (hc : m.cpu = .handler p) (now : Nat) :
    CpuInv { m with
      ticks := now
      sched := (m.sched.tick now).2
      cpu := if (m.sched.tick now).1 then .sched m.intr (.tick p) else .eoi p } := by
  have hm := tick_spec m.sched now
  have hhold : m.cpu.holder = p.holder := by rw [hc]; rfl
  have hintr : m.intr = false := by rw [hI.flag, hc]; rfl
  have hctx : ∀ {i t}, (m.sched.tick now).2.task? i = some t → t.ctx.Ok := by
    intro i t h
    obtain ⟨t₀, ht₀, rfl⟩ := hm.back h
    rw [tickTask_ctx]
    exact hI.saved ht₀
  by_cases hpre : (m.sched.tick now).1 = true
  · have hcur := tick_preempt hpre
    have ht : p.holder = .task := hhold ▸ hI.holder_of_current hcur
    simp only [hpre, if_true]
    exact hI.onTask hm (fun j t h => by rw [tickTask_ctx]; exact h) hcur rfl ht rfl
      (fun _ _ h => (by cases h)) hintr ⟨hintr, ht⟩
  · simp only [hpre]
    refine ⟨hI.active, fun h => ⟨hm.current.trans (hI.boot (hhold.trans h)).1, ?_⟩,
      fun h => hm.current.trans (hI.nobody (hhold.trans h)), fun h => ?_, fun {idx} h => ?_,
      fun h => (by cases h), hintr, trivial, hctx⟩
    · intro i t hi
      obtain ⟨t₀, ht₀, rfl⟩ := hm.back hi
      have hr := (hI.boot (hhold.trans h)).2 ht₀
      rw [tickTask_state, wakeSleeper_of_not_blocked (by rw [hr]; decide)]
      exact hr
    · show (m.sched.tick now).2.current ≠ none
      rw [hm.current]
      exact hI.task (hhold.trans h)
    · have hch : p.chosen = some idx := h
      have hb : p.holder = .boot := by
        cases p with
        | starting idx => rfl
        | _ => cases hch
      have hnr : m.sched.nextReady = some idx := hI.chosen (by rw [hc]; exact hch)
      show (m.sched.tick now).2.nextReady = some idx
      rw [nextReady_congr hm fun j t ht => ?_, hnr]
      have hr := (hI.boot (hhold.trans hb)).2 ht
      rw [tickTask_state, wakeSleeper_of_not_blocked (by rw [hr]; decide)]

theorem cpuInv_boot : CpuInv Machine.boot := by
  have h : ∀ i, Scheduler.new.task? i = none := fun i => by simp [Scheduler.new, task?, Slots.get]
  refine ⟨rfl, fun _ => ⟨rfl, fun hi => ?_⟩, fun h => ?_, fun h => ?_, fun h => ?_, fun h => ?_,
    rfl, trivial, fun hi => ?_⟩
  · rw [show Machine.boot.sched = Scheduler.new from rfl, h] at hi; cases hi
  · cases h
  · cases h
  · cases h
  · cases h
  · rw [show Machine.boot.sched = Scheduler.new from rfl, h] at hi; cases hi

/-- Own code goes on to another place of the same holder. -/
theorem CpuInv.goto (hI : CpuInv m) {p q : Pos} (hc : m.cpu = .run p) (hh : q.holder = p.holder)
    (hch : q.chosen = none) : CpuInv { m with cpu := .run q } := by
  have hhold : m.cpu.holder = p.holder := by rw [hc]; rfl
  have hintr : m.intr = true := by rw [hI.flag, hc]; rfl
  refine hI.move rfl rfl (hh.trans hhold.symm) (fun h => ?_) (fun _ _ h => by cases h) hintr trivial
  have hno := hch.symm.trans h
  cases hno

/-- Own code of the current task changes tasks in place and goes on. -/
theorem CpuInv.inSection (hI : CpuInv m) {f : Nat → Task → Task} {s : Scheduler} {p q : Pos}
    (hc : m.cpu = .run p) (hm : Mapped f m.sched s) (hctx : ∀ j t, (f j t).ctx = t.ctx)
    (hcur : m.sched.current ≠ none) (hh : q.holder = .task) (hch : q.chosen = none) :
    CpuInv { m with sched := s, cpu := .run q } := by
  have hintr : m.intr = true := by rw [hI.flag, hc]; rfl
  exact hI.onTask hm (fun j t ht => by rw [hctx]; exact ht) hcur rfl hh hch
    (fun _ _ h => by cases h) hintr trivial

/-- A new task is Ready and starts in the trampoline. -/
theorem CpuInv.spawn (hI : CpuInv m) {p : Pos} {id : TaskId} {s : Scheduler} (hc : m.cpu = .run p)
    (hp : p = .body ∨ p = .boot) (hs : m.sched.add = some (id, s)) :
    CpuInv { m with sched := s } := by
  obtain ⟨-, -, hcu, hcur, -, k, hk, ht⟩ := add_spec hs
  have old : ∀ {j t}, s.task? j = some t → t = Task.new m.sched.nextId defaultSlice ∨
      m.sched.task? j = some t := by
    intro j t hj
    rw [ht] at hj
    split at hj
    · exact Or.inl (Option.some.inj hj).symm
    · exact Or.inr hj
  refine ⟨hI.active, fun h => ⟨hcu.trans (hI.boot h).1, fun hi => ?_⟩,
    fun h => hcu.trans (hI.nobody h), fun h => ?_, fun h => ?_, fun h => ?_, hI.flag, hI.code,
    fun hi => ?_⟩
  · rcases old hi with rfl | hi'
    · rfl
    · exact (hI.boot h).2 hi'
  · show s.current ≠ none
    rw [hcu]
    exact hI.task h
  · rw [show m.cpu = .run p from hc] at h
    rcases hp with rfl | rfl <;> cases h
  · rw [show m.cpu = .run p from hc] at h
    cases h
  · rcases old hi with rfl | hi'
    · exact ⟨rfl, trivial⟩
    · exact hI.saved hi'

/-- Demoting the current task touches no saved context. -/
theorem CpuInv.saved_demoted (hI : CpuInv m) {i : Nat} {t : Task}
    (h : m.sched.demoted.task? i = some t) : t.ctx.Ok := by
  obtain ⟨t₀, ht₀, rfl⟩ := (demoted_spec m.sched).back h
  have hok := hI.saved ht₀
  split
  · rw [demote_ctx]
    exact hok
  · exact hok

theorem CpuInv.fits_sched (hI : CpuInv m) {w : Bool} {r : Ret} (hc : m.cpu = .sched w r) :
    r.Fits w := by
  have hcode := hI.code
  rw [hc] at hcode
  exact hcode

/-- `schedule()` found somebody: its caller, if it is a task, is left in `schedule()`. -/
theorem CpuInv.schedSome (hI : CpuInv m) {w : Bool} {r : Ret} (hc : m.cpu = .sched w r)
    (idx : Nat) :
    CpuInv { m with
      sched := (m.sched.demoted.prepSwitch idx).2
      cpu := .switch (m.sched.demoted.current.map fun i => (i, .schedule w r)) idx } := by
  refine hI.dispatch hI.saved_demoted (fun i c hsv => ?_) (by rw [hI.flag, hc]; rfl)
  obtain ⟨j, hj, e⟩ := Option.map_eq_some_iff.mp hsv
  cases e
  rw [(demoted_spec m.sched).current] at hj
  have hh := hI.holder_of_current (by rw [hj]; simp)
  rw [hc] at hh
  exact ⟨hh, hI.fits_sched hc⟩

/-- `schedule()` found nobody: its caller goes on. -/
theorem CpuInv.schedNone (hI : CpuInv m) {w : Bool} {r : Ret} (hc : m.cpu = .sched w r) :
    CpuInv { m with sched := m.sched.demoted, cpu := .resumed (.schedule w r) } := by
  have hm := demoted_spec m.sched
  have hhold : m.cpu.holder = r.holder := by rw [hc]; rfl
  refine ⟨hI.active, fun h => ?_, fun h => hm.current.trans (hI.nobody (hhold.trans h)),
    fun h => ?_, fun h => (by cases h), fun h => (by cases h), by rw [hI.flag, hc]; rfl,
    hI.fits_sched hc, hI.saved_demoted⟩
  · obtain ⟨h1, h2⟩ := hI.boot (hhold.trans h)
    refine ⟨hm.current.trans h1, fun hi => ?_⟩
    obtain ⟨t₀, ht₀, rfl⟩ := hm.back hi
    rw [if_neg (by rw [h1]; simp)]
    exact h2 ht₀
  · show m.sched.demoted.current ≠ none
    rw [hm.current]
    exact hI.task (hhold.trans h)

/-- `__switch` away from a task stores its context and loads another one. -/
theorem CpuInv.switchTask (hI : CpuInv m) {i new : Nat} {c : Context} {t : Task}
    (hc : m.cpu = .switch (some (i, c)) new) (ht : (m.sched.saveCtx i c).task? new = some t) :
    CpuInv { m with sched := m.sched.saveCtx i c, cpu := .resumed t.ctx } := by
  have hcode : c.Ok := by
    have hfits := hI.code
    rw [hc] at hfits
    exact hfits
  have hm := saveCtx_spec m.sched i c
  have hctx : ∀ j t, t.ctx.Ok → (if i = j then { t with ctx := c } else t : Task).ctx.Ok := by
    intro j t h
    split
    · exact hcode
    · exact h
  obtain ⟨t₀, ht₀, rfl⟩ := hm.back ht
  have hok := hctx new t₀ (hI.saved ht₀)
  exact hI.onTask hm hctx (by rw [hI.entered hc]; simp) rfl hok.holder rfl
    (fun _ _ h => by cases h) (by rw [hI.flag, hc]; rfl) hok.fits

/-- **Every step keeps the CPU invariant.** -/
theorem CpuInv.step (hI : CpuInv m) {a : Action} {es : List Event} (h : StepView m a m' es) :
    CpuInv m' := by
  cases h with
  | timer p hc hi =>
    exact hI.move rfl rfl (by rw [hc]; rfl) (fun h => hI.chosen (by rw [hc]; exact h))
      (fun _ _ h => by cases h) rfl trivial
  | spawn p id s hc hp hs => exact hI.spawn hc hp hs
  | startSome idx hc hn =>
    exact hI.move rfl rfl (by rw [hc]; rfl) (fun h => by cases h; exact hn)
      (fun _ _ h => by cases h) (by rw [hI.flag, hc]; rfl) trivial
  | startNone hc hn =>
    have hb := hI.boot (by rw [hc]; rfl)
    exact ⟨hI.active, fun h => (by cases h), fun _ => hb.1, fun h => (by cases h),
      fun h => (by cases h), fun h => (by cases h), by rw [hI.flag, hc]; rfl, trivial, hI.saved⟩
  | yieldNow c hc hy => rcases hy with rfl | rfl <;> exact hI.goto hc rfl rfl
  | sleep _ hc | join _ hc | clock _ _ hc _ | clockPanic _ _ hc | joinGone _ hc _
  | joinThere _ hc _ => exact hI.goto hc rfl rfl
  | exit hc =>
    exact hI.move rfl rfl (by rw [hc]; rfl) (fun h => by cases h) (fun _ _ h => by cases h)
      rfl trivial
  | starting idx hc =>
    exact hI.move rfl rfl (by rw [hc]; rfl) (fun h => hI.chosen (by rw [hc]; exact h))
      (fun _ _ h => by cases h) rfl trivial
  | markSleep _ _ _ _ hc hs | markJoin _ _ hc hs =>
    obtain ⟨cur, hcur, hm⟩ := markBlocked_spec hs
    exact hI.inSection hc hm (fun j t => by split <;> rfl) (by rw [hcur]; simp) rfl rfl
  | schedEnter c hc =>
    exact hI.move rfl rfl (by rw [hc]; rfl) (fun h => by cases h) (fun _ _ h => by cases h)
      rfl (by show m.intr = true; rw [hI.flag, hc]; rfl)
  | ret c hc => exact hI.goto hc (by cases c <;> rfl) (by cases c <;> rfl)
  | handler p hc => exact hI.handler hc _
  | schedSome w r idx hc hn => exact hI.schedSome hc idx
  | schedNone w r hc hn => exact hI.schedNone hc
  | switchBoot new t hc ht =>
    exact hI.move rfl rfl (by rw [hc]; exact (hI.saved ht).holder) (fun h => by cases h)
      (fun _ _ h => by cases h) (by rw [hI.flag, hc]; rfl) (hI.saved ht).fits
  | switchTask i c new t hc ht => exact hI.switchTask hc ht
  | trampoline s hc hs | trampolineEmpty s hc hs =>
    obtain ⟨cur, hcur, hm⟩ := takeFunc_spec hs
    refine hI.onTask hm (fun j t ht => ?_) (by rw [hcur]; simp) rfl rfl rfl
      (fun _ _ h => by cases h) rfl trivial
    split <;> exact ht
  | resumedCaller w c hc =>
    have hw : w = true := by have := hI.code; rw [hc] at this; exact this
    refine hI.move rfl rfl (by rw [hc]; rfl) (fun h => by cases h) (fun _ _ h => by cases h) ?_
      trivial
    rw [hw]
    rfl
  | resumedTick w p hc =>
    obtain ⟨hw, hp⟩ : w = false ∧ p.holder = .task := by
      have := hI.code; rw [hc] at this; exact this
    refine hI.move rfl rfl (by rw [hc]; rfl) (fun h => ?_) (fun _ _ h => by cases h) ?_ trivial
    · cases p with
      | starting idx => cases hp
      | _ => cases h
    · rw [hw, hI.flag, hc]
      rfl
  | eoi p hc =>
    exact hI.move rfl rfl (by rw [hc]; rfl) (fun h => hI.chosen (by rw [hc]; exact h))
      (fun _ _ h => by cases h) rfl trivial
  | startSection idx hc =>
    exact hI.dispatch hI.saved (fun _ _ h => by cases h) (by rw [hI.flag, hc]; rfl)
  | exitSome cur dead idx hc hcur ht hn =>
    refine hI.dispatch (fun hi => ?_) (fun _ _ h => by cases h) (by rw [hI.flag, hc]; rfl)
    obtain ⟨-, t₀, ht₀, rfl⟩ := exit_back hi
    rw [wakeJoiner_ctx]
    exact hI.saved ht₀
  | exitNone cur dead hc hcur ht hn =>
    refine ⟨hI.active, fun h => (by cases h), fun _ => rfl, fun h => (by cases h),
      fun h => (by cases h), fun h => (by cases h), rfl, trivial, fun hi => ?_⟩
    obtain ⟨-, t₀, ht₀, rfl⟩ := exit_back hi
    rw [wakeJoiner_ctx]
    exact hI.saved ht₀

end Cpu

/-! ## 3. Both, on every run -/

/-- The machine's invariant. -/
structure Inv (m : Machine) : Prop where
  sched : SchedInv m.sched
  cpu : CpuInv m

section Both

variable {m m' : Machine}

open Scheduler

theorem SchedInv.step (hI : Inv m) {a : Action} {es : List Event} (h : StepView m a m' es) :
    SchedInv m'.sched := by
  have hS := hI.sched
  cases h with
  | spawn p id s hc hp hs => exact hS.add hs
  | markSleep called n wake s hc hs => exact hS.markBlocked (by simp) hs
  | markJoin id s hc hs => exact hS.markBlocked (by simp) hs
  | handler p hc => exact hS.tick _
  | schedSome w r idx hc hn =>
    exact hS.demoted.prepSwitch (nextReady_spec hS.demoted.cursor_le hn).1 (demoted_none_running hS)
  | schedNone w r hc hn => exact hS.demoted
  | switchTask i c new t hc ht => exact hS.saveCtx i c
  | trampoline s hc hs => exact hS.takeFunc hs
  | trampolineEmpty s hc hs => exact hS.takeFunc hs
  | startSection idx hc =>
    -- nobody has run yet, so every task is still Ready, the chosen one included
    obtain ⟨-, hready⟩ := hI.cpu.boot (by rw [hc]; rfl)
    have hn : m.sched.nextReady = some idx := hI.cpu.chosen (by rw [hc]; rfl)
    exact hS.prepSwitch (nextReady_spec hS.cursor_le hn).1 fun hi => by rw [hready hi]; decide
  | exitSome cur dead idx hc hcur ht hn =>
    have hw := (nextReady_spec (s := m.sched.wakeJoiners cur dead.id) (by
      rw [(wakeJoiners_spec _ _ _).cursor, (wakeJoiners_spec _ _ _).length]
      exact hS.cursor_le) hn).1
    exact (hS.exit hcur dead.id).prepSwitch (exit_readyAt hw) (exit_none_running hS hcur)
  | exitNone cur dead hc hcur ht hn => exact hS.exit hcur dead.id
  | _ => exact hS

theorem Inv.step (hI : Inv m) {a : Action} {es : List Event} (h : m.step a = some (m', es)) :
    Inv m' :=
  have hv := step_view hI.cpu.active h
  ⟨SchedInv.step hI hv, hI.cpu.step hv⟩

theorem inv_boot : Inv Machine.boot := ⟨schedInv_new, cpuInv_boot⟩

/-- **The invariant on every run from boot.** -/
theorem inv_run {ok : Machine → Action → Prop} {es : List Event} (h : KernelRun ok es m) : Inv m :=
  h.invariant inv_boot fun _ _ _ _ hI _ hs => hI.step hs

/-- The invariant on every continuation of a run. -/
theorem inv_from {ok : Machine → Action → Prop} {es : List Event} (hI : Inv m)
    (h : Run Machine.step ok m es m') : Inv m' :=
  h.invariant hI fun _ _ _ _ hI _ hs => hI.step hs

end Both

end SimpleLinux
