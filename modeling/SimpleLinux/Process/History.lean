/-
  File:      SimpleLinux/Process/History.lean
  Subject:   The scheduler's table against the history of a run.

  * `Change`, `step_change` -- what one step does to the table and what it emits, in five cases;
    every result about the table over a run is proved from these and not from the machine;
  * `Change.history`, `Change.stays` -- who is in the table, and in which slot;
  * `scheduler_representation` -- **the representation invariant over whole runs**: ids, slots,
    `current`, states, block reasons, cursor and slices, with the table exactly the spawned minus
    the exited tasks, and no live task ever in another slot.
-/
import SimpleLinux.Process.Invariant

namespace SimpleLinux

open Runs

/-! ## 1. Steps, as far as the table is concerned -/

/-- An event that spawns, ends and dispatches nothing. -/
def Event.quiet : Event → Bool
  | .slept _ _ | .joined _ | .ticked => true
  | .spawned _ | .exited _ | .dispatched _ => false

/-- **What a step does to the table.** -/
inductive Change (s : Scheduler) : Scheduler → List Event → Prop where
  | inPlace (f : Nat → Task → Task) (s' : Scheduler) (es : List Event)
      (hm : Scheduler.Mapped f s s') (hid : ∀ j t, (f j t).id = t.id)
      (hq : ∀ e ∈ es, e.quiet = true) : Change s s' es
  | spawn (id : TaskId) (s' : Scheduler) (h : s.add = some (id, s')) : Change s s' [.spawned id]
  | dispatch (f : Nat → Task → Task) (s₁ : Scheduler) (idx : Nat) (hm : Scheduler.Mapped f s s₁)
      (hid : ∀ j t, (f j t).id = t.id)
      (hready : ∀ j t, t.state = .ready → (f j t).state = .ready)
      (hn : s₁.nextReady = some idx) : Change s (s₁.prepSwitch idx).2 [.dispatched idx]
  | exitTo (cur : Nat) (dead : Task) (idx : Nat) (hcur : s.current = some cur)
      (ht : s.task? cur = some dead) (hn : (s.wakeJoiners cur dead.id).nextReady = some idx) :
      Change s (((s.wakeJoiners cur dead.id).reap cur).prepSwitch idx).2
        [.exited dead.id, .dispatched idx]
  | exitIdle (cur : Nat) (dead : Task) (hcur : s.current = some cur)
      (ht : s.task? cur = some dead) (hn : (s.wakeJoiners cur dead.id).nextReady = none) :
      Change s ((s.wakeJoiners cur dead.id).reap cur) [.exited dead.id]

section Change

variable {m m' : Machine} {s s' : Scheduler} {es : List Event}

open Scheduler

theorem Change.same (s : Scheduler) (es : List Event) (hq : ∀ e ∈ es, e.quiet = true) :
    Change s s es :=
  .inPlace (fun _ t => t) s es ⟨fun j => by simp, rfl, rfl, rfl, rfl⟩ (fun _ _ => rfl) hq

theorem Caller.returns_quiet (c : Caller) : ∀ e ∈ c.returns, e.quiet = true := by
  cases c <;> simp [Caller.returns, Event.quiet]

theorem step_change (hI : Inv m) {a : Action} (h : StepView m a m' es) :
    Change m.sched m'.sched es := by
  have hnil : ∀ e ∈ ([] : List Event), e.quiet = true := by simp
  cases h with
  | spawn p id s hc hp hs => exact .spawn id s hs
  | markSleep called n wake s hc hs =>
    obtain ⟨cur, -, hm⟩ := markBlocked_spec hs
    exact .inPlace _ s [] hm (fun j t => by split <;> rfl) hnil
  | markJoin id s hc hs =>
    obtain ⟨cur, -, hm⟩ := markBlocked_spec hs
    exact .inPlace _ s [] hm (fun j t => by split <;> rfl) hnil
  | ret c hc => exact .same _ _ c.returns_quiet
  | handler p hc =>
    exact .inPlace _ _ _ (tick_spec _ _) (fun j t => tickTask_id _ _ _ _)
      (by simp [Event.quiet])
  | schedSome w r idx hc hn =>
    refine .dispatch _ _ idx (demoted_spec m.sched) (fun j t => by split <;> simp)
      (fun j t ht => ?_) hn
    split
    · unfold demote
      rw [if_neg (by rw [ht]; decide)]
      exact ht
    · exact ht
  | schedNone w r hc hn =>
    exact .inPlace _ _ [] (demoted_spec m.sched) (fun j t => by split <;> simp) hnil
  | switchTask i c new t hc ht =>
    exact .inPlace _ _ [] (saveCtx_spec m.sched i c) (fun j t => by split <;> rfl) hnil
  | trampoline s hc hs =>
    obtain ⟨cur, -, hm⟩ := takeFunc_spec hs
    exact .inPlace _ s [] hm (fun j t => by split <;> rfl) hnil
  | trampolineEmpty s hc hs =>
    obtain ⟨cur, -, hm⟩ := takeFunc_spec hs
    exact .inPlace _ s [] hm (fun j t => by split <;> rfl) hnil
  | startSection idx hc =>
    exact .dispatch (fun _ t => t) m.sched idx ⟨fun j => by simp, rfl, rfl, rfl, rfl⟩
      (fun _ _ => rfl) (fun _ _ h => h) (hI.cpu.chosen (by rw [hc]; rfl))
  | exitSome cur dead idx hc hcur ht hn => exact .exitTo cur dead idx hcur ht hn
  | exitNone cur dead hc hcur ht hn => exact .exitIdle cur dead hcur ht hn
  | _ => exact .same _ _ hnil

/-- `prep_switch` keeps everybody's id and slot. -/
theorem prepSwitch_back {idx j : Nat} {u : Task} (h : (s.prepSwitch idx).2.task? j = some u) :
    ∃ t, s.task? j = some t ∧ u.id = t.id := by
  rw [task?_prepSwitch] at h
  obtain ⟨t, ht, rfl⟩ := Option.map_eq_some_iff.mp h
  exact ⟨t, ht, by split <;> rfl⟩

theorem prepSwitch_forth (idx : Nat) {j : Nat} {t : Task} (h : s.task? j = some t) :
    ∃ u, (s.prepSwitch idx).2.task? j = some u ∧ u.id = t.id := by
  rw [task?_prepSwitch, h]
  exact ⟨_, rfl, by split <;> rfl⟩

/-! ## 2. Who is in the table, and where -/

/-- Some slot holds a task with this id. -/
def Present (s : Scheduler) (id : TaskId) : Prop := ∃ i t, s.task? i = some t ∧ t.id = id

theorem present_mapped {f : Nat → Task → Task} (hm : Mapped f s s')
    (hid : ∀ j t, (f j t).id = t.id) (id : TaskId) : Present s' id ↔ Present s id := by
  constructor
  · rintro ⟨i, u, hu, rfl⟩
    obtain ⟨t, ht, rfl⟩ := hm.back hu
    exact ⟨i, t, ht, (hid i t).symm⟩
  · rintro ⟨i, t, ht, rfl⟩
    exact ⟨i, _, hm.forth ht, hid i t⟩

theorem present_prepSwitch {idx : Nat} (id : TaskId) :
    Present (s.prepSwitch idx).2 id ↔ Present s id := by
  constructor
  · rintro ⟨i, u, hu, rfl⟩
    obtain ⟨t, ht, e⟩ := prepSwitch_back hu
    exact ⟨i, t, ht, e.symm⟩
  · rintro ⟨i, t, ht, rfl⟩
    obtain ⟨u, hu, e⟩ := prepSwitch_forth idx ht
    exact ⟨i, u, hu, e⟩

theorem present_add {id : TaskId} (h : s.add = some (id, s')) (x : TaskId) :
    Present s' x ↔ x = id ∨ Present s x := by
  obtain ⟨rfl, -, -, -, -, k, hk, ht⟩ := add_spec h
  constructor
  · rintro ⟨i, u, hu, rfl⟩
    rw [ht] at hu
    split at hu
    · cases hu
      exact Or.inl rfl
    · exact Or.inr ⟨i, u, hu, rfl⟩
  · rintro (rfl | ⟨i, t, hi, rfl⟩)
    · exact ⟨k, _, by rw [ht, if_pos rfl], rfl⟩
    · refine ⟨i, t, ?_, rfl⟩
      rw [ht, if_neg, hi]
      rintro rfl
      rw [hk] at hi
      cases hi

/-- An exit removes exactly the dead task's id: ids are distinct. -/
theorem present_exit (hI : SchedInv s) {cur : Nat} {dead : Task} (ht : s.task? cur = some dead)
    (x : TaskId) :
    Present ((s.wakeJoiners cur dead.id).reap cur) x ↔ Present s x ∧ x ≠ dead.id := by
  constructor
  · rintro ⟨i, u, hu, rfl⟩
    obtain ⟨hne, t, hi, rfl⟩ := exit_back hu
    rw [wakeJoiner_id]
    exact ⟨⟨i, t, hi, rfl⟩, fun e => hne (hI.distinct ht hi e.symm)⟩
  · rintro ⟨⟨i, t, hi, rfl⟩, hne⟩
    refine ⟨i, wakeJoiner dead.id t, ?_, wakeJoiner_id _ _⟩
    rw [task?_exit, if_neg, hi]
    · rfl
    · rintro rfl
      rw [ht] at hi
      cases hi
      exact hne rfl

/-- The table against the events so far. -/
structure HistoryInv (es : List Event) (s : Scheduler) : Prop where
  present : ∀ id, Present s id ↔ Event.spawned id ∈ es ∧ Event.exited id ∉ es
  issued : ∀ id, Event.exited id ∈ es → id < s.nextId

/-- The id of a task that exits has been issued, as those of the tasks that have left. -/
theorem HistoryInv.issued_exit (hI : SchedInv s) {hist : List Event} (hH : HistoryInv hist s)
    {cur : Nat} {dead : Task} (ht : s.task? cur = some dead) {more : List Event}
    (hmore : ∀ id, Event.exited id ∈ more → id = dead.id) {id : TaskId}
    (hid : Event.exited id ∈ hist ++ more) : id < s.nextId := by
  rcases List.mem_append.mp hid with hid | hid
  · exact hH.issued id hid
  · rw [hmore id hid]
    exact hI.below ht

/-- What a change does to the set of present ids and to the id counter. -/
theorem Change.history (hI : SchedInv s) {hist : List Event} (hH : HistoryInv hist s)
    (h : Change s s' es) : HistoryInv (hist ++ es) s' := by
  have spawned_below : ∀ {i t}, s.task? i = some t → t.id < s.nextId := hI.below
  cases h with
  | inPlace f s' es hm hid hq =>
    have h1 : ∀ id, Event.spawned id ∉ es := fun id hi => by cases hq _ hi
    have h2 : ∀ id, Event.exited id ∉ es := fun id hi => by cases hq _ hi
    refine ⟨fun id => ?_, fun id => ?_⟩
    · rw [present_mapped hm hid, hH.present]
      simp [h1, h2]
    · rw [hm.nextId]
      simpa [h2] using hH.issued id
  | spawn id s' hs =>
    have hspec := add_spec hs
    refine ⟨fun x => ?_, fun x hx => ?_⟩
    · rw [present_add hs, hH.present]
      have hfresh : Event.exited id ∉ hist := by
        intro hx
        have := hH.issued id hx
        rw [hspec.1] at this
        exact Nat.lt_irrefl _ this
      by_cases hx : x = id
      · subst hx; simp [hfresh]
      · simp [hx]
    · rw [hspec.2.1]
      have hx' : Event.exited x ∈ hist := by simpa using hx
      exact Nat.lt_succ_of_lt (hH.issued x hx')
  | dispatch f s₁ idx hm hid hready hn =>
    refine ⟨fun id => ?_, fun id hx => ?_⟩
    · rw [present_prepSwitch, present_mapped hm hid, hH.present]
      simp
    · show id < s₁.nextId
      rw [hm.nextId]
      exact hH.issued id (by simpa using hx)
  | exitTo cur dead idx hcur ht hn =>
    refine ⟨fun id => ?_, fun id hx => ?_⟩
    · rw [present_prepSwitch, present_exit hI ht, hH.present]
      simp [and_assoc]
    · exact hH.issued_exit hI ht (fun x hmem => by simpa using hmem) hx
  | exitIdle cur dead hcur ht hn =>
    refine ⟨fun id => ?_, fun id hx => ?_⟩
    · rw [present_exit hI ht, hH.present]
      simp [and_assoc]
    · exact hH.issued_exit hI ht (fun x hmem => by simpa using hmem) hx

/-- Everybody in the table after a change is new or was in the same slot before it. -/
theorem Change.stays (h : Change s s' es) :
    s.nextId ≤ s'.nextId ∧ ∀ {j : Nat} {u : Task}, s'.task? j = some u → u.id < s.nextId →
      ∃ t, s.task? j = some t ∧ t.id = u.id := by
  cases h with
  | inPlace f s' es hm hid hq =>
    refine ⟨Nat.le_of_eq hm.nextId.symm, fun hu _ => ?_⟩
    obtain ⟨t, ht, rfl⟩ := hm.back hu
    exact ⟨t, ht, (hid _ t).symm⟩
  | spawn id s' hs =>
    obtain ⟨-, hn, -, -, -, k, -, ht⟩ := add_spec hs
    refine ⟨by rw [hn]; exact Nat.le_succ _, fun {j u} hu hlt => ?_⟩
    rw [ht] at hu
    split at hu
    · cases hu
      exact absurd hlt (Nat.lt_irrefl _)
    · exact ⟨u, hu, rfl⟩
  | dispatch f s₁ idx hm hid hready hn =>
    refine ⟨Nat.le_of_eq hm.nextId.symm, fun hu _ => ?_⟩
    obtain ⟨t₁, ht₁, e⟩ := prepSwitch_back hu
    obtain ⟨t, ht, rfl⟩ := hm.back ht₁
    exact ⟨t, ht, by rw [e, hid]⟩
  | exitTo cur dead idx hcur ht hn =>
    refine ⟨Nat.le_refl _, fun hu _ => ?_⟩
    obtain ⟨t₁, ht₁, e⟩ := prepSwitch_back hu
    obtain ⟨-, t, ht, rfl⟩ := exit_back ht₁
    exact ⟨t, ht, by rw [e, wakeJoiner_id]⟩
  | exitIdle cur dead hcur ht hn =>
    refine ⟨Nat.le_refl _, fun hu _ => ?_⟩
    obtain ⟨-, t, ht, rfl⟩ := exit_back hu
    exact ⟨t, ht, (wakeJoiner_id _ _).symm⟩

end Change

/-! ## 3. Over whole runs -/

section Runs

variable {m m' : Machine} {es es' : List Event} {ok : Machine → Action → Prop}

theorem change_of_step (hI : Inv m) {a : Action} (h : m.step a = some (m', es)) :
    Change m.sched m'.sched es :=
  step_change hI (step_view hI.cpu.active h)

theorem history_run (h : KernelRun ok es m) : HistoryInv es m.sched := by
  have hboth : Inv m ∧ HistoryInv es m.sched := by
    refine h.invariant_events (I := fun es m => Inv m ∧ HistoryInv es m.sched)
      ⟨inv_boot, fun id => ?_, fun id h => by simp at h⟩
      fun es m a m' es' hI _ hs => ⟨hI.1.step hs, (change_of_step hI.1 hs).history hI.1.sched hI.2⟩
    constructor
    · rintro ⟨i, t, ht, -⟩
      simp [Machine.boot, Scheduler.new, Scheduler.task?, Slots.get] at ht
    · rintro ⟨h, -⟩
      simp at h
  exact hboth.2

/-- Along a run a task that was there keeps its slot. -/
theorem stays_run (hI : Inv m) (h : Run Machine.step ok m es m') :
    m.sched.nextId ≤ m'.sched.nextId ∧
      ∀ {j : Nat} {u : Task}, m'.sched.task? j = some u → u.id < m.sched.nextId →
        ∃ t, m.sched.task? j = some t ∧ t.id = u.id := by
  induction h with
  | start => exact ⟨Nat.le_refl _, fun hu _ => ⟨_, hu, rfl⟩⟩
  | next a hr _ hs ih =>
    obtain ⟨hle, hst⟩ := (change_of_step (inv_from hI hr) hs).stays
    refine ⟨Nat.le_trans ih.1 hle, fun hu hlt => ?_⟩
    obtain ⟨t, ht, e⟩ := hst hu (Nat.lt_of_lt_of_le hlt ih.1)
    obtain ⟨t', ht', e'⟩ := ih.2 ht (by rw [e]; exact hlt)
    exact ⟨t', ht', e'.trans e⟩

/-- **The scheduler's representation between critical sections**, against the events `es` of the
    run that led here. -/
structure Representation (es : List Event) (s : Scheduler) : Prop where
  distinct : ∀ i j t u, s.task? i = some t → s.task? j = some u → t.id = u.id → i = j
  below : ∀ i t, s.task? i = some t → t.id < s.nextId
  exactly : ∀ id, (∃ i t, s.task? i = some t ∧ t.id = id) ↔
    Event.spawned id ∈ es ∧ Event.exited id ∉ es
  occupied : ∀ i, s.current = some i → ∃ t, s.task? i = some t
  oneRunning : ∀ i j t u, s.task? i = some t → s.task? j = some u → t.state = .running →
    u.state = .running → i = j
  running : ∀ i t, s.task? i = some t → t.state = .running → s.current = some i
  blocked_iff : ∀ i t, s.task? i = some t → (t.state = .blocked ↔ t.block ≠ .none)
  noZombie : ∀ i t, s.task? i = some t → t.state ≠ .zombie
  cursor_le : s.cursor ≤ s.slots.length
  slice_le : ∀ i t, s.task? i = some t → t.slice ≤ defaultSlice

/-- **The representation invariant over whole runs**, and no live task ever changes its slot. -/
theorem scheduler_representation (h : KernelRun anyStep es m) :
    Representation es m.sched ∧
      ∀ es' m', Run Machine.step anyStep m es' m' → ∀ i j t u, m.sched.task? i = some t →
        m'.sched.task? j = some u → t.id = u.id → i = j := by
  have hI := inv_run h
  have hS := hI.sched
  refine ⟨⟨fun _ _ _ _ hi hj e => hS.distinct hi hj e, fun _ _ hi => hS.below hi,
    (history_run h).present, fun _ hi => hS.occupied hi, fun i j t u hi hj hr hr' => ?_,
    fun _ _ hi hr => hS.running hi hr, fun _ _ hi => (hS.ok hi).blocked_iff,
    fun _ _ hi => (hS.ok hi).notZombie, hS.cursor_le, fun _ _ hi => (hS.ok hi).slice_le⟩,
    fun es' m' hr i j t u hi hj e => ?_⟩
  · have h1 := hS.running hi hr
    rw [hS.running hj hr'] at h1
    exact (Option.some.inj h1).symm
  · obtain ⟨t', ht', e'⟩ := (stays_run hI hr).2 hj (by rw [← e]; exact hS.below hi)
    exact hS.distinct hi ht' (e.trans e'.symm)

end Runs

/-- Two tasks, the first running, the second spawned by it. -/
theorem scheduler_representation_two : ∃ (es : List Event) (m : Machine),
    m.sched.taskCount = 2 ∧ Representation es m.sched := by
  obtain ⟨es, m, h, hc⟩ := exists_picRun [.spawn, .start, .cont, .cont, .cont, .cont, .spawn]
    (fun _ m => m.sched.taskCount == 2) (by decide)
  exact ⟨es, m, by simpa using hc, (scheduler_representation h.any).1⟩

end SimpleLinux
