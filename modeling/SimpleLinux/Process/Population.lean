/-
  File:      SimpleLinux/Process/Population.lean
  Subject:   How large does the table of tasks get, and what do `task_count` and `ps` show?

  `add` puts a new task into the first free slot and pushes a slot only when there is none;
  `exit_current` gives the slot of the dead task back and never shortens the table. So the table is
  as long as the largest number of tasks that were ever alive at the same time: running a batch of
  tasks a second time (`stress_test`) takes no further slot.

  * `Census`, `census` -- how many tasks are alive and the most there have been, from the events
    alone;
  * `Change.census` -- one change of the table; `census_run` -- every run;
  * `Scheduler.snapshot`, `mem_snapshot` -- what `ps` shows;
  * `table_is_census` -- the table, `task_count` and `ps` against the events of any run.
-/
import SimpleLinux.Process.History

namespace SimpleLinux

open Runs Scheduler

/-- How many tasks are alive, the most there have been at the same time, and how many were
    spawned. -/
structure Census where
  alive : Nat
  peak : Nat
  spawned : Nat
  deriving DecidableEq, Repr

/-- What one event does to the census. -/
def Census.count (c : Census) : Event → Census
  | .spawned _ => ⟨c.alive + 1, max c.peak (c.alive + 1), c.spawned + 1⟩
  | .exited _ => ⟨c.alive - 1, c.peak, c.spawned⟩
  | .dispatched _ | .slept _ _ | .joined _ | .ticked => c

/-- The census of a run. -/
def census (es : List Event) : Census := es.foldl Census.count ⟨0, 0, 0⟩

/-- `state_name`. -/
def stateName : TaskState → String
  | .ready => "ready"
  | .running => "running"
  | .blocked => "blocked"
  | .zombie => "zombie"

theorem stateName_injective {a b : TaskState} (h : stateName a = stateName b) : a = b := by
  cases a <;> cases b <;> first | rfl | exact absurd h (by decide)

/-- `snapshot`: the id and the state of every task, by slots. -/
def Scheduler.snapshot (s : Scheduler) : List (TaskId × String) :=
  (s.slots.filterMap id).map fun t => (t.id, stateName t.state)

/-- What the table says: the tasks there are, the slots, the ids handed out. -/
def Scheduler.tally (s : Scheduler) : Census := ⟨s.taskCount, s.slots.length, s.nextId - 1⟩

section Census

variable {s s' : Scheduler} {es : List Event} {m : Machine}

theorem taskCount_eq (s : Scheduler) : s.taskCount = Slots.occupied s.slots :=
  List.countP_eq_length_filter.symm

/-- A section that changes tasks in place neither adds nor removes one. -/
theorem Scheduler.Mapped.taskCount {f : Nat → Task → Task} (h : Mapped f s s') :
    s'.taskCount = s.taskCount := by
  rw [taskCount_eq, taskCount_eq]
  refine Slots.occupied_congr h.length fun j => ?_
  rw [show Slots.get s'.slots j = (s.task? j).map (f j) from h.task j, Option.isSome_map]
  rfl

theorem Scheduler.Mapped.tally {f : Nat → Task → Task} (h : Mapped f s s') :
    s'.tally = s.tally := by
  rw [Scheduler.tally, Scheduler.tally, h.taskCount, h.length, h.nextId]

theorem tally_prepSwitch (s : Scheduler) (idx : Nat) : (s.prepSwitch idx).2.tally = s.tally :=
  (mapped_update s idx fun t => { t with state := .running }).tally

/-- The table after the exit of the task in slot `cur`. -/
theorem tally_exit {cur : Nat} {dead : Task} (ht : s.task? cur = some dead) :
    ((s.wakeJoiners cur dead.id).reap cur).tally =
      ⟨s.taskCount - 1, s.slots.length, s.nextId - 1⟩ := by
  have hm := wakeJoiners_spec s cur dead.id
  have hclear := Slots.occupied_clear (hm.forth ht)
  have hcount : ((s.wakeJoiners cur dead.id).reap cur).taskCount + 1 = s.taskCount := by
    rw [← hm.taskCount, taskCount_eq, taskCount_eq]
    exact hclear
  have hlen : ((s.wakeJoiners cur dead.id).reap cur).slots.length = s.slots.length :=
    (Slots.length_clear _ _).trans hm.length
  rw [Scheduler.tally, hlen, ← hcount, Nat.add_sub_cancel]
  rfl

theorem count_quiet {c : Census} {e : Event} (h : e.quiet = true) : c.count e = c := by
  cases e with
  | spawned | exited | dispatched => cases h
  | slept | joined | ticked => rfl

theorem foldl_count_quiet (c : Census) (h : ∀ e ∈ es, e.quiet = true) :
    es.foldl Census.count c = c := by
  induction es with
  | nil => rfl
  | cons e es ih =>
    rw [List.foldl_cons, count_quiet (h e List.mem_cons_self)]
    exact ih fun e' he' => h e' (List.mem_cons_of_mem e he')

/-- **One change of the table is one change of the census.** -/
theorem Change.census (hpos : 1 ≤ s.nextId) (h : Change s s' es) :
    s'.tally = es.foldl Census.count s.tally := by
  cases h with
  | inPlace f s' es hm hid hq => rw [hm.tally, foldl_count_quiet _ hq]
  | spawn id s' ha =>
    unfold add at ha
    split at ha
    · cases ha
      have hnext : s.nextId + 1 - 1 = s.nextId - 1 + 1 := by omega
      simp only [Scheduler.tally, taskCount_eq, Slots.occupied_insert, Slots.length_insert,
        List.foldl_cons, List.foldl_nil, Census.count, hnext]
    · cases ha
  | dispatch f s₁ idx hm hid hready hn => exact (tally_prepSwitch s₁ idx).trans hm.tally
  | exitTo cur dead idx hcur ht hn => exact (tally_prepSwitch _ idx).trans (tally_exit ht)
  | exitIdle cur dead hcur ht hn => exact tally_exit ht

/-- **The table is the census**, after every run. -/
theorem census_run (h : KernelRun anyStep es m) : m.sched.tally = census es := by
  have hboth : Inv m ∧ 1 ≤ m.sched.nextId ∧ m.sched.tally = census es := by
    refine h.invariant_events
      (I := fun es m => Inv m ∧ 1 ≤ m.sched.nextId ∧ m.sched.tally = census es)
      ⟨inv_boot, Nat.le_refl 1, rfl⟩ ?_
    intro es m a m' es' ⟨hI, hpos, htally⟩ _ hs
    have hc := change_of_step hI hs
    refine ⟨hI.step hs, Nat.le_trans hpos hc.stays.1, ?_⟩
    rw [hc.census hpos, htally]
    exact List.foldl_append.symm
  exact hboth.2.2

/-! ## What `ps` shows -/

theorem mem_snapshot {x : TaskId × String} :
    x ∈ s.snapshot ↔ ∃ i t, s.task? i = some t ∧ x = (t.id, stateName t.state) := by
  unfold Scheduler.snapshot
  rw [List.mem_map]
  constructor
  · intro ⟨t, ht, e⟩
    obtain ⟨o, ho, rfl⟩ := List.mem_filterMap.mp ht
    obtain ⟨i, hi⟩ := List.getElem?_of_mem ho
    exact ⟨i, t, Slots.get_eq_some_iff.mpr hi, e.symm⟩
  · intro ⟨i, t, ht, e⟩
    exact ⟨t, List.mem_filterMap.mpr ⟨some t, List.mem_of_getElem? (Slots.get_eq_some_iff.mp ht),
      rfl⟩, e.symm⟩

/-- The tasks of a table with distinct ids are listed once each. -/
theorem snapshot_nodup (hI : SchedInv s) : (s.snapshot.map Prod.fst).Nodup := by
  unfold Scheduler.snapshot
  rw [List.map_map, List.map_filterMap, List.Nodup, List.pairwise_filterMap,
    List.pairwise_iff_getElem]
  intro i j hi hj hij x hx y hy hxy
  obtain ⟨t, ht, rfl⟩ := Option.map_eq_some_iff.mp hx
  obtain ⟨u, hu, rfl⟩ := Option.map_eq_some_iff.mp hy
  have ht' : s.task? i = some t :=
    Slots.get_eq_some_iff.mpr (by rw [List.getElem?_eq_getElem hi]; exact congrArg some ht)
  have hu' : s.task? j = some u :=
    Slots.get_eq_some_iff.mpr (by rw [List.getElem?_eq_getElem hj]; exact congrArg some hu)
  exact Nat.ne_of_lt hij (hI.distinct ht' hu' hxy)

end Census

/-- **The table of tasks against any run.** `task_count` answers how many tasks are alive, the table
    has as many slots as were ever needed at the same time, the ids handed out are those of the
    spawned tasks; and `ps` lists exactly the tasks that were spawned and have not exited, each
    once, none of them as a zombie. -/
theorem table_is_census {es : List Event} {m : Machine} (h : KernelRun anyStep es m) :
    m.sched.taskCount = (census es).alive ∧ m.sched.slots.length = (census es).peak ∧
      m.sched.nextId - 1 = (census es).spawned ∧
      (m.sched.snapshot.map Prod.fst).Nodup ∧
      (∀ id, id ∈ m.sched.snapshot.map Prod.fst ↔ Event.spawned id ∈ es ∧ Event.exited id ∉ es) ∧
      ∀ x ∈ m.sched.snapshot, x.2 ≠ stateName .zombie := by
  have hI := (inv_run h).sched
  have htally := census_run h
  refine ⟨congrArg Census.alive htally, congrArg Census.peak htally, congrArg Census.spawned htally,
    snapshot_nodup hI, fun id => ?_, fun x hx => ?_⟩
  · rw [← (history_run h).present id, List.mem_map]
    constructor
    · intro ⟨x, hx, e⟩
      obtain ⟨i, t, ht, rfl⟩ := mem_snapshot.mp hx
      exact ⟨i, t, ht, e⟩
    · intro ⟨i, t, ht, e⟩
      exact ⟨_, mem_snapshot.mpr ⟨i, t, ht, rfl⟩, e⟩
  · obtain ⟨i, t, ht, rfl⟩ := mem_snapshot.mp hx
    exact fun hz => (hI.ok ht).notZombie (stateName_injective hz)

/-- Two tasks are spawned, the first exits and a third is spawned: it takes the slot of the
    first. -/
theorem table_is_census_reuse : ∃ (es : List Event) (m : Machine), census es = ⟨2, 2, 3⟩ ∧
    m.sched.slots.length = (census es).peak ∧
    m.sched.snapshot = [(3, "ready"), (2, "running")] := by
  obtain ⟨es, m, h, hm⟩ := exists_picRun
    [.spawn, .spawn, .start, .cont, .cont, .cont, .cont, .exit, .cont, .cont, .cont, .spawn]
    (fun es m => decide (census es = ⟨2, 2, 3⟩) &&
      decide (m.sched.snapshot = [(3, "ready"), (2, "running")])) (by decide)
  simp only [Bool.and_eq_true, decide_eq_true_eq] at hm
  exact ⟨es, m, hm.1, (table_is_census h.any).2.1, hm.2⟩

end SimpleLinux
