/-
  File:      SimpleLinux/Process/Join.lean
  Subject:   Lost wake-ups of `join`.

  `join(id)` looks whether `id` is done in one critical section and marks itself Blocked in a
  second one; in between interrupts are enabled. `exit_current` wakes the joiners that are ALREADY
  Blocked. So the wake-up is lost exactly when the target leaves between the two sections:

  * `LostJoin` -- somebody is Blocked on a task that is not there any more;
  * `marksWhileThere` -- the condition on a step: the marking section is entered only while the
    check of the first section would still answer "not done";
  * `join_wakeup_not_lost` -- runs whose steps all meet it never lose a wake-up, and a step that
    does not meet it loses one;
  * `join_wakeup_lost` -- a run in which the timer preempts the joiner between the two sections.
-/
import SimpleLinux.Process.History

namespace SimpleLinux

open Runs

/-- Somebody is Blocked until `id` finishes, and no slot holds a live task `id`. -/
def LostJoin (s : Scheduler) (id : TaskId) : Prop :=
  ∃ i t, s.task? i = some t ∧ t.state = .blocked ∧ t.block = .join id ∧ ¬ s.Live id

/-- The marking section of `join(id)` is entered only while the check would still say "not done". -/
def marksWhileThere (m : Machine) (a : Action) : Bool :=
  match a, m.cpu with
  | .cont, .run (.joinMark id) => !m.sched.joinDone id
  | _, _ => true

/-- The runs all of whose marking sections are entered in time. -/
abbrev MarkedRun (es : List Event) (m : Machine) : Prop :=
  KernelRun (fun m a => marksWhileThere m a = true) es m

section Join

variable {m m' : Machine} {s s' : Scheduler}

open Scheduler

theorem present_of_live {id : TaskId} (h : s.Live id) : Present s id := by
  obtain ⟨i, t, ht, e, -⟩ := h
  exact ⟨i, t, ht, e⟩

/-- Between critical sections there is no Zombie, so present is live. -/
theorem live_iff_present (hI : SchedInv s) (id : TaskId) : s.Live id ↔ Present s id :=
  ⟨present_of_live, fun ⟨i, t, ht, e⟩ => ⟨i, t, ht, e, (hI.ok ht).notZombie⟩⟩

/-- **What the check of `join` decides.** -/
theorem joinDone_iff (hI : SchedInv s) (id : TaskId) : s.joinDone id = true ↔ ¬ Present s id := by
  unfold joinDone
  cases hf : s.findSlot id with
  | none =>
    refine ⟨fun _ ⟨i, t, ht, e⟩ => findSlot_none hf ht e, fun _ => rfl⟩
  | some i =>
    obtain ⟨t, ht, e⟩ := findSlot_some hf
    have hz := (hI.ok ht).notZombie
    simp only [ht, Option.any_some, beq_iff_eq]
    exact ⟨fun h => absurd h hz, fun h => absurd ⟨i, t, ht, e⟩ h⟩

/-- Every joiner's target is there. -/
def JoinInv (s : Scheduler) : Prop :=
  ∀ (i : Nat) (t : Task) (id : TaskId), s.task? i = some t → t.state = .blocked →
    t.block = .join id → Present s id

/-- A section that blocks nobody on a join keeps everybody's target. -/
theorem JoinInv.mapped (hJ : JoinInv s) {f : Nat → Task → Task} (hm : Mapped f s s')
    (hid : ∀ j t, (f j t).id = t.id)
    (hb : ∀ j t id, (f j t).state = .blocked → (f j t).block = .join id →
      t.state = .blocked ∧ t.block = .join id) : JoinInv s' := by
  intro i u id hu hs hbl
  obtain ⟨t, ht, rfl⟩ := hm.back hu
  obtain ⟨hs', hbl'⟩ := hb i t id hs hbl
  exact (present_mapped hm hid id).mpr (hJ i t id ht hs' hbl')

theorem wakeSleeper_blocked {now : Nat} {t : Task} (h : (wakeSleeper now t).state = .blocked) :
    wakeSleeper now t = t := by
  unfold wakeSleeper at h ⊢
  split at h
  · split at h
    · cases h
    · rename_i hlt
      simp only [hlt, if_false]
  · rfl

theorem demote_blocked {t : Task} (h : (demote t).state = .blocked) : demote t = t := by
  unfold demote at h ⊢
  split at h
  · cases h
  · rename_i hr
    rw [if_neg hr]

theorem wakeJoiner_blocked {dead : TaskId} {t : Task} (h : (wakeJoiner dead t).state = .blocked) :
    wakeJoiner dead t = t ∧ t.block ≠ .join dead := by
  unfold wakeJoiner at h ⊢
  split at h
  · cases h
  · rename_i hn
    exact ⟨by rw [if_neg hn], fun e => hn ⟨h, e⟩⟩

theorem JoinInv.tick (hJ : JoinInv s) (now : Nat) : JoinInv (s.tick now).2 := by
  refine hJ.mapped (tick_spec s now) (fun _ _ => tickTask_id _ _ _ _) fun j t id hs hb => ?_
  rw [tickTask_state] at hs
  have e := wakeSleeper_blocked hs
  rw [tickTask_block, e] at hb
  rw [e] at hs
  exact ⟨hs, hb⟩

theorem JoinInv.demoted (hJ : JoinInv s) : JoinInv s.demoted := by
  refine hJ.mapped (demoted_spec s) (fun j t => by split <;> simp) fun j t id hs hb => ?_
  split at hs
  · rename_i hc
    have e := demote_blocked hs
    rw [if_pos hc, e] at hb
    rw [e] at hs
    exact ⟨hs, hb⟩
  · rename_i hc
    rw [if_neg hc] at hb
    exact ⟨hs, hb⟩

theorem JoinInv.prepSwitch (hJ : JoinInv s) (idx : Nat) : JoinInv (s.prepSwitch idx).2 := by
  intro i u id hu hs hb
  rw [task?_prepSwitch] at hu
  obtain ⟨t, ht, rfl⟩ := Option.map_eq_some_iff.mp hu
  split at hs
  · cases hs
  · rename_i hne
    rw [if_neg hne] at hb
    exact (present_prepSwitch id).mpr (hJ i t id ht hs hb)

theorem JoinInv.exit (hI : SchedInv s) (hJ : JoinInv s) {cur : Nat} {dead : Task}
    (ht : s.task? cur = some dead) : JoinInv ((s.wakeJoiners cur dead.id).reap cur) := by
  intro i u id hu hs hb
  obtain ⟨-, t, hi, rfl⟩ := exit_back hu
  obtain ⟨e, hne⟩ := wakeJoiner_blocked hs
  rw [e] at hs hb
  -- a joiner of the dead task is Ready now, so this one waits for somebody else
  exact (present_exit hI ht id).mpr ⟨hJ i t id hi hs hb, fun e => hne (e ▸ hb)⟩

theorem JoinInv.markSleep (hJ : JoinInv s) {wake : Nat}
    (h : s.markBlocked (.sleep wake) = some s') : JoinInv s' := by
  obtain ⟨cur, -, hm⟩ := markBlocked_spec h
  refine hJ.mapped hm (fun j t => by split <;> rfl) fun j t id hs hb => ?_
  split at hb
  · cases hb
  · rename_i hne
    rw [if_neg hne] at hs
    exact ⟨hs, hb⟩

/-- The marking section keeps everybody's target if its own target is there. -/
theorem JoinInv.markJoin (hJ : JoinInv s) {x : TaskId} (h : s.markBlocked (.join x) = some s')
    (hx : Present s x) : JoinInv s' := by
  obtain ⟨cur, -, hm⟩ := markBlocked_spec h
  have hid : ∀ (j : Nat) (t : Task),
      (if cur = j then { t with state := .blocked, block := .join x } else t : Task).id = t.id :=
    fun j t => by split <;> rfl
  intro i u id hu hs hb
  obtain ⟨t, ht, rfl⟩ := hm.back hu
  rw [present_mapped hm hid]
  split at hb
  · cases hb
    exact hx
  · rename_i hne
    rw [if_neg hne] at hs
    exact hJ i t id ht hs hb

theorem JoinInv.step (hI : Inv m) (hJ : JoinInv m.sched) {a : Action} {es : List Event}
    (hok : marksWhileThere m a = true) (h : StepView m a m' es) : JoinInv m'.sched := by
  cases h with
  | spawn p id s hc hp hs =>
    intro i u x hu hst hb
    rw [present_add hs]
    obtain ⟨-, -, -, -, -, k, -, ht⟩ := add_spec hs
    rw [show s.task? i = _ from ht i] at hu
    split at hu
    · cases hu
      cases hst
    · exact Or.inr (hJ i u x hu hst hb)
  | markSleep called n wake s hc hs => exact hJ.markSleep hs
  | markJoin id s hc hs =>
    refine hJ.markJoin hs ?_
    by_contra hn
    simp [marksWhileThere, hc, (joinDone_iff hI.sched id).mpr hn] at hok
  | handler p hc => exact hJ.tick _
  | schedSome w r idx hc hn => exact hJ.demoted.prepSwitch idx
  | schedNone w r hc hn => exact hJ.demoted
  | switchTask i c new t hc ht =>
    refine hJ.mapped (saveCtx_spec m.sched i c) (fun j t => by split <;> rfl) fun j t id hs hb => ?_
    split at hs <;> split at hb <;> exact ⟨hs, hb⟩
  | trampoline s hc hs | trampolineEmpty s hc hs =>
    obtain ⟨cur, -, hm⟩ := takeFunc_spec hs
    refine hJ.mapped hm (fun j t => by split <;> rfl) fun j t id hs hb => ?_
    split at hs <;> split at hb <;> exact ⟨hs, hb⟩
  | startSection idx hc => exact hJ.prepSwitch idx
  | exitSome cur dead idx hc hcur ht hn => exact (JoinInv.exit hI.sched hJ ht).prepSwitch idx
  | exitNone cur dead hc hcur ht hn => exact JoinInv.exit hI.sched hJ ht
  | _ => exact hJ

theorem joinInv_run {es : List Event} (h : MarkedRun es m) :
    Inv m ∧ JoinInv m.sched := by
  refine h.invariant (I := fun m => Inv m ∧ JoinInv m.sched) ⟨inv_boot, fun i t id ht => ?_⟩
    fun m a m' es hI hok hs =>
      ⟨hI.1.step hs, JoinInv.step hI.1 hI.2 hok (step_view hI.1.cpu.active hs)⟩
  simp [Machine.boot, Scheduler.new, Scheduler.task?, Slots.get] at ht

/-- A marking section entered after the target has left makes a lost wake-up at once. -/
theorem lostJoin_of_late_mark (hI : Inv m) {a : Action} {es : List Event}
    (h : m.step a = some (m', es)) (hok : marksWhileThere m a = false) :
    ∃ id, LostJoin m'.sched id := by
  obtain ⟨id, rfl, hc, hd⟩ : ∃ id, a = .cont ∧ m.cpu = .run (.joinMark id) ∧
      m.sched.joinDone id = true := by
    unfold marksWhileThere at hok
    split at hok
    · rename_i id hc
      exact ⟨id, rfl, hc, by simpa using hok⟩
    · cases hok
  have hgone := (joinDone_iff hI.sched id).mp hd
  have h' : m.contRun (.joinMark id) = some (m', es) := by
    simpa only [Machine.step, Machine.cont, hc] using h
  obtain ⟨s, hs, e⟩ := Option.map_eq_some_iff.mp h'
  cases e
  obtain ⟨cur, hcur, hm⟩ := markBlocked_spec hs
  obtain ⟨t, ht⟩ := hI.sched.occupied hcur
  refine ⟨id, cur, _, hm.forth ht, by rw [if_pos rfl], by rw [if_pos rfl], fun hl => hgone ?_⟩
  exact (present_mapped hm (fun j t => by split <;> rfl) id).mp (present_of_live hl)

end Join

/-- **No wake-up is lost** in any run that enters the marking section of `join(id)` only while
    `id` is still there; and a step that enters it later leaves a task Blocked on nobody. -/
theorem join_wakeup_not_lost (es : List Event) (m : Machine) :
    (MarkedRun es m → ∀ id, ¬ LostJoin m.sched id) ∧
      (KernelRun anyStep es m → ∀ a m' es', m.step a = some (m', es') →
        marksWhileThere m a = false → ∃ id, LostJoin m'.sched id) := by
  refine ⟨fun h id hl => ?_, fun h a m' es' hs hok => lostJoin_of_late_mark (inv_run h) hs hok⟩
  obtain ⟨hI, hJ⟩ := joinInv_run h
  obtain ⟨i, t, ht, hst, hb, hdead⟩ := hl
  exact hdead ((live_iff_present hI.sched id).mpr (hJ i t id ht hst hb))

/-- Task 1 spawns task 2 and joins it undisturbed: it is Blocked, and its target is there. -/
theorem join_wakeup_not_lost_undisturbed : ∃ (es : List Event) (m : Machine), MarkedRun es m ∧
    m.cpu = .run (.sched (.join 2)) ∧ ¬ LostJoin m.sched 2 := by
  have hex : (exec Machine.step marksWhileThere Machine.boot
      [.spawn, .start, .cont, .cont, .cont, .cont, .spawn, .join 2, .cont, .cont]).any
      (fun r => r.1.cpu == .run (.sched (.join 2))) = true := by decide
  obtain ⟨r, hr, hc⟩ := (Option.any_eq_true _ _).mp hex
  have h : MarkedRun r.2 r.1 := run_of_exec _ hr
  exact ⟨r.2, r.1, h, by simpa using hc, (join_wakeup_not_lost _ _).1 h 2⟩

/-- Task 1 spawns task 2 and joins it; the third tick preempts it between the two sections of
    `join`, task 2 exits meanwhile, and task 1 then marks itself as waiting for nobody. -/
theorem join_wakeup_lost : ∃ (es : List Event) (m : Machine), PicRun es m ∧
    Event.spawned 2 ∈ es ∧ LostJoin m.sched 2 := by
  obtain ⟨es, m, h, hp⟩ := exists_picRun
    [.spawn, .start, .cont, .cont, .cont, .cont, .spawn, .join 2, .cont,
      .timer, .cont, .cont, .timer, .cont, .cont, .timer, .cont, .cont, .cont, .cont,
      .exit, .cont, .cont, .cont, .cont, .cont]
    (fun es m => es.contains (.spawned 2) &&
      (m.sched.task? 0).any (fun t => t.state == .blocked && t.block == .join 2) &&
      m.sched.findSlot 2 == none) (by decide)
  simp only [Bool.and_eq_true, List.contains_iff_mem, beq_iff_eq] at hp
  obtain ⟨⟨hsp, ht⟩, hf⟩ := hp
  obtain ⟨t, ht, hb⟩ := (Option.any_eq_true _ _).mp ht
  simp only [Bool.and_eq_true, beq_iff_eq] at hb
  exact ⟨es, m, h, hsp, 0, t, ht, hb.1, hb.2, fun ⟨i, u, hu, e, _⟩ =>
    Scheduler.findSlot_none hf hu e⟩

end SimpleLinux
