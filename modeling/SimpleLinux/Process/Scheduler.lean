/-
  File:      SimpleLinux/Process/Scheduler.lean
  Subject:   The scheduler's data (process/scheduler.rs) and its critical sections, one function
             per section.

  `current` is an `Option`: `none` is the source's `NO_TASK`. A section that can panic (an index
  or an `unwrap`, the `u32` counter of ids under the dev profile's overflow checks) answers
  `Option`, `none` being the panic.
-/
import SimpleLinux.Process.Task
import SimpleLinux.Lib.Slots

namespace SimpleLinux

/-- `DEFAULT_SLICE`. -/
def defaultSlice : Nat := 2

/-- `Scheduler`. -/
structure Scheduler where
  slots : List (Option Task)
  current : Option Nat
  nextId : Nat
  cursor : Nat
  deriving DecidableEq, Repr

namespace Scheduler

/-! ## 1. The critical sections -/

/-- `NO_TASK`. -/
abbrev noTask : Option Nat := none

/-- `Scheduler::new`. -/
def new : Scheduler := { slots := [], current := noTask, nextId := 1, cursor := 0 }

/-- The task in slot `i`, if the slot is occupied. -/
def task? (s : Scheduler) (i : Nat) : Option Task := Slots.get s.slots i

/-- `add`: the next id, a fresh task in the first hole or at the end. `next_id += 1` panics where
    the counter would leave `u32`. -/
def add (s : Scheduler) : Option (TaskId × Scheduler) :=
  if s.nextId + 1 < 2 ^ 32 then
    some (s.nextId,
      { s with
        nextId := s.nextId + 1
        slots := Slots.insert s.slots (Task.new s.nextId defaultSlice) })
  else none

/-- `find_slot`. -/
def findSlot (s : Scheduler) (id : TaskId) : Option Nat :=
  s.slots.findIdx? fun o => o.any fun t => t.id == id

/-- `next_ready`. -/
def nextReady (s : Scheduler) : Option Nat :=
  Slots.firstFrom s.slots s.cursor Task.isReady

/-- `prep_switch`: the slot whose context is left (`none`: the boot context) and the one entered. -/
def prepSwitch (s : Scheduler) (idx : Nat) : (Option Nat × Nat) × Scheduler :=
  ((s.current, idx),
    { s with
      slots := Slots.update s.slots idx fun t => { t with state := .running }
      current := some idx
      cursor := idx + 1 })

/-- A Running task reaching `schedule()` is demoted. -/
def demote (t : Task) : Task := if t.state = .running then { t with state := .ready } else t

/-- The scheduler with its current task demoted. -/
def demoted (s : Scheduler) : Scheduler :=
  match s.current with
  | some cur => { s with slots := Slots.update s.slots cur demote }
  | none => s

/-- The section of `schedule()`: demote a Running caller, choose, prepare the switch. -/
def schedule (s : Scheduler) : Option (Option Nat × Nat) × Scheduler :=
  match s.demoted.nextReady with
  | some idx => (some (s.demoted.prepSwitch idx).1, (s.demoted.prepSwitch idx).2)
  | none => (none, s.demoted)

/-- The marking section of `sleep` and `join`: `slots[cur]` with `cur == noTask` is out of
    bounds. -/
def markBlocked (s : Scheduler) (why : BlockReason) : Option Scheduler :=
  match s.current with
  | some cur =>
    some { s with
      slots := Slots.update s.slots cur fun t => { t with state := .blocked, block := why } }
  | none => none

/-- The first section of `join`: is the target gone, or a Zombie? -/
def joinDone (s : Scheduler) (id : TaskId) : Bool :=
  match s.findSlot id with
  | none => true
  | some i => (s.task? i).any fun t => t.state == .zombie

/-- A joiner of `dead` woken (the loop body of `exit_current`). -/
def wakeJoiner (dead : TaskId) (t : Task) : Task :=
  if t.state = .blocked ∧ t.block = .join dead then { t with state := .ready, block := .none }
  else t

/-- The current task a Zombie, its joiners woken. -/
def wakeJoiners (s : Scheduler) (cur : Nat) (dead : TaskId) : Scheduler :=
  { s with
    slots := Slots.mapAll (Slots.update s.slots cur fun t => { t with state := .zombie })
      (wakeJoiner dead) }

/-- The slot given back, nobody current. -/
def reap (s : Scheduler) (cur : Nat) : Scheduler :=
  { s with slots := Slots.clear s.slots cur, current := noTask }

/-- The section of `exit_current`: become a Zombie, wake the joiners, choose a successor, give the
    slot back, prepare the switch. The dead task's id and the chosen successor. -/
def exitCurrent (s : Scheduler) : Option (TaskId × Option (Option Nat × Nat) × Scheduler) :=
  match s.current with
  | none => none
  | some cur =>
    match s.task? cur with
    | none => none
    | some dead =>
      let s₁ := s.wakeJoiners cur dead.id
      -- the successor is chosen before the slot is given back
      match s₁.nextReady with
      | some idx =>
        some (dead.id, some ((s₁.reap cur).prepSwitch idx).1, ((s₁.reap cur).prepSwitch idx).2)
      | none => some (dead.id, none, s₁.reap cur)

/-- A sleeper whose time has come, woken (the loop body of `tick`). -/
def wakeSleeper (now : Nat) (t : Task) : Task :=
  match t.state, t.block with
  | .blocked, .sleep wakeAt =>
    if now ≥ wakeAt then { t with state := .ready, block := .none } else t
  | _, _ => t

/-- One tick of the running task's slice: the task after it, and whether the slice was used up. -/
def chargeSlice (t : Task) : Bool × Task :=
  if t.slice = 0 then (true, { t with slice := defaultSlice })
  else (false, { t with slice := t.slice - 1 })

/-- The section of `tick`: wake the sleepers, charge the current task; whether to preempt it. -/
def tick (s : Scheduler) (now : Nat) : Bool × Scheduler :=
  let s₁ := { s with slots := Slots.mapAll s.slots (wakeSleeper now) }
  match s₁.current with
  | none => (false, s₁)
  | some cur =>
    match s₁.task? cur with
    | none => (false, s₁)
    | some t =>
      ((chargeSlice t).1, { s₁ with slots := Slots.update s₁.slots cur fun t => (chargeSlice t).2 })

/-- The section of `current_task_body`: take the closure out of the current task. -/
def takeFunc (s : Scheduler) : Option (Bool × Scheduler) :=
  match s.current with
  | none => none
  | some cur =>
    match s.task? cur with
    | none => none
    | some t =>
      some (t.func, { s with slots := Slots.update s.slots cur fun t => { t with func := false } })

/-- What `__switch` stores through its first argument. -/
def saveCtx (s : Scheduler) (i : Nat) (c : Context) : Scheduler :=
  { s with slots := Slots.update s.slots i fun t => { t with ctx := c } }

/-- `task_count`. -/
def taskCount (s : Scheduler) : Nat := (s.slots.filter Option.isSome).length

/-- A task with this id is in some slot and not a Zombie. -/
def Live (s : Scheduler) (id : TaskId) : Prop :=
  ∃ i t, s.task? i = some t ∧ t.id = id ∧ t.state ≠ .zombie

/-- Slot `i` holds a Ready task. -/
def ReadyAt (s : Scheduler) (i : Nat) : Prop := ∃ t, s.task? i = some t ∧ t.state = .ready

/-! ## 2. What each section does to the table

  A section that neither adds nor removes a task is described by the function it applies to each
  task (`Mapped`); `add`, `prepSwitch` and `reap` have lemmas of their own. -/

/-- `s'` is `s` with every task changed by `f`; nothing else differs. -/
structure Mapped (f : Nat → Task → Task) (s s' : Scheduler) : Prop where
  task : ∀ j, s'.task? j = (s.task? j).map (f j)
  current : s'.current = s.current
  nextId : s'.nextId = s.nextId
  cursor : s'.cursor = s.cursor
  length : s'.slots.length = s.slots.length

section Mapped

variable {s s' : Scheduler} {f : Nat → Task → Task}

theorem Mapped.back (h : Mapped f s s') {j : Nat} {u : Task} (hu : s'.task? j = some u) :
    ∃ t, s.task? j = some t ∧ u = f j t := by
  rw [h.task] at hu
  obtain ⟨t, ht, e⟩ := Option.map_eq_some_iff.mp hu
  exact ⟨t, ht, e.symm⟩

theorem Mapped.forth (h : Mapped f s s') {j : Nat} {t : Task} (ht : s.task? j = some t) :
    s'.task? j = some (f j t) := by
  rw [h.task, ht]
  rfl

/-- A change of one slot. -/
theorem mapped_update (s : Scheduler) (i : Nat) (g : Task → Task) :
    Mapped (fun j t => if i = j then g t else t) s
      { s with slots := Slots.update s.slots i g } where
  task j := by
    unfold task?
    rw [Slots.get_update]
    by_cases h : i = j
    · simp only [h, if_true]
    · simp only [h, if_false, Option.map_id']
  current := rfl
  nextId := rfl
  cursor := rfl
  length := Slots.length_update _ _ _

theorem mapped_mapAll (s : Scheduler) (g : Task → Task) :
    Mapped (fun _ t => g t) s { s with slots := Slots.mapAll s.slots g } where
  task _ := Slots.get_mapAll _ _ _
  current := rfl
  nextId := rfl
  cursor := rfl
  length := Slots.length_mapAll _ _

theorem Mapped.trans {s'' : Scheduler} {g : Nat → Task → Task} (h : Mapped f s s')
    (h' : Mapped g s' s'') : Mapped (fun j t => g j (f j t)) s s'' where
  task j := by rw [h'.task, h.task, Option.map_map]; rfl
  current := h'.current.trans h.current
  nextId := h'.nextId.trans h.nextId
  cursor := h'.cursor.trans h.cursor
  length := h'.length.trans h.length

theorem Mapped.congr {g : Nat → Task → Task} (h : Mapped f s s')
    (e : ∀ j t, s.task? j = some t → f j t = g j t) : Mapped g s s' where
  task j := by
    rw [h.task]
    cases ht : s.task? j with
    | none => rfl
    | some t => simp only [Option.map_some, e j t ht]
  current := h.current
  nextId := h.nextId
  cursor := h.cursor
  length := h.length

end Mapped

variable {s s' : Scheduler}

theorem lt_length {i : Nat} {t : Task} (h : s.task? i = some t) : i < s.slots.length :=
  Slots.lt_of_get h

/-- `add` puts one fresh task into a free slot and moves nothing. -/
theorem add_spec {id : TaskId} (h : s.add = some (id, s')) :
    id = s.nextId ∧ s'.nextId = s.nextId + 1 ∧ s'.current = s.current ∧ s'.cursor = s.cursor ∧
      s.slots.length ≤ s'.slots.length ∧
      ∃ k, s.task? k = none ∧
        ∀ j, s'.task? j = if j = k then some (Task.new s.nextId defaultSlice) else s.task? j := by
  unfold add at h
  split at h
  · simp only [Option.some.injEq, Prod.mk.injEq] at h
    obtain ⟨rfl, rfl⟩ := h
    exact ⟨rfl, rfl, rfl, rfl, Slots.length_le_insert _ _, Slots.hole s.slots,
      Slots.get_hole _, fun j => Slots.get_insert _ _ _⟩
  · cases h

theorem markBlocked_spec {why : BlockReason} (h : s.markBlocked why = some s') :
    ∃ cur, s.current = some cur ∧
      Mapped (fun j t => if cur = j then { t with state := .blocked, block := why } else t)
        s s' := by
  unfold markBlocked at h
  split at h
  · rename_i cur hc
    simp only [Option.some.injEq] at h
    subst h
    exact ⟨cur, hc, mapped_update s cur _⟩
  · cases h

/-- What a tick does to the task in slot `j`. -/
def tickTask (cur : Option Nat) (now j : Nat) (t : Task) : Task :=
  if cur = some j then (chargeSlice (wakeSleeper now t)).2 else wakeSleeper now t

theorem tick_spec (s : Scheduler) (now : Nat) :
    Mapped (tickTask s.current now) s (s.tick now).2 := by
  have h1 := mapped_mapAll s (wakeSleeper now)
  unfold tick
  dsimp only
  split
  · rename_i hc
    exact h1.congr fun j t _ => by simp [tickTask, hc]
  · rename_i cur hc
    split
    · rename_i hn
      refine h1.congr fun j t ht => ?_
      by_cases hj : cur = j
      · subst hj
        rw [h1.forth ht] at hn
        cases hn
      · simp [tickTask, hc, hj]
    · refine (h1.trans (mapped_update _ cur _)).congr fun j t _ => ?_
      by_cases hj : cur = j <;> simp [tickTask, hc, hj]

/-- A tick preempts only a current task. -/
theorem tick_preempt {now : Nat} (h : (s.tick now).1 = true) : s.current ≠ none := by
  intro hc
  unfold tick at h
  simp [hc] at h

theorem demoted_spec (s : Scheduler) :
    Mapped (fun j t => if s.current = some j then demote t else t) s s.demoted := by
  unfold demoted
  split
  · rename_i cur hc
    refine (mapped_update s cur demote).congr fun j t _ => ?_
    by_cases hj : cur = j <;> simp [hc, hj]
  · rename_i hc
    exact ⟨fun j => by simp [hc], rfl, rfl, rfl, rfl⟩

theorem takeFunc_spec {b : Bool} (h : s.takeFunc = some (b, s')) :
    ∃ cur, s.current = some cur ∧
      Mapped (fun j t => if cur = j then { t with func := false } else t) s s' := by
  unfold takeFunc at h
  split at h
  · cases h
  · rename_i cur hc
    split at h
    · cases h
    · simp only [Option.some.injEq, Prod.mk.injEq] at h
      obtain ⟨-, rfl⟩ := h
      exact ⟨cur, hc, mapped_update s cur _⟩

theorem saveCtx_spec (s : Scheduler) (i : Nat) (c : Context) :
    Mapped (fun j t => if i = j then { t with ctx := c } else t) s (s.saveCtx i c) :=
  mapped_update s i _

theorem wakeJoiners_spec (s : Scheduler) (cur : Nat) (dead : TaskId) :
    Mapped (fun j t => wakeJoiner dead (if cur = j then { t with state := .zombie } else t)) s
      (s.wakeJoiners cur dead) :=
  (mapped_update s cur _).trans (mapped_mapAll _ _)

theorem task?_reap (s : Scheduler) (cur j : Nat) :
    (s.reap cur).task? j = if cur = j then none else s.task? j :=
  Slots.get_clear _ _ _

theorem task?_prepSwitch (s : Scheduler) (idx j : Nat) :
    (s.prepSwitch idx).2.task? j =
      (s.task? j).map fun t => if idx = j then { t with state := .running } else t :=
  (mapped_update s idx fun t => { t with state := .running }).task j

/-- **What `next_ready` answers**: a Ready slot, and no Ready slot is skipped on the way to it. -/
theorem nextReady_spec {idx : Nat} (hc : s.cursor ≤ s.slots.length)
    (h : s.nextReady = some idx) :
    s.ReadyAt idx ∧
      ((s.cursor ≤ idx ∧ ∀ k, s.cursor ≤ k → k < idx → ¬ s.ReadyAt k) ∨
        (idx < s.cursor ∧ (∀ k, s.cursor ≤ k → ¬ s.ReadyAt k) ∧ ∀ k, k < idx → ¬ s.ReadyAt k)) := by
  have key : ∀ k, (Slots.get s.slots k).any Task.isReady = false → ¬ s.ReadyAt k := by
    intro k hk ⟨t, ht, hr⟩
    rw [show Slots.get s.slots k = some t from ht] at hk
    simp [Task.isReady, hr] at hk
  obtain ⟨hp, hs⟩ := Slots.firstFrom_eq_some hc h
  refine ⟨?_, ?_⟩
  · cases ht : Slots.get s.slots idx with
    | none => rw [ht] at hp; cases hp
    | some t => rw [ht] at hp; exact ⟨t, ht, by simpa using hp⟩
  · rcases hs with ⟨h1, h2⟩ | ⟨h1, h2, h3⟩
    · exact Or.inl ⟨h1, fun k hk hk' => key k (h2 k hk hk')⟩
    · exact Or.inr ⟨h1, fun k hk => key k (h2 k hk), fun k hk => key k (h3 k hk)⟩

theorem nextReady_none_iff (hc : s.cursor ≤ s.slots.length) :
    s.nextReady = none ↔ ∀ k, ¬ s.ReadyAt k := by
  unfold nextReady
  rw [Slots.firstFrom_eq_none hc]
  refine forall_congr' fun k => ?_
  unfold ReadyAt task?
  cases Slots.get s.slots k with
  | none => simp
  | some t => simp [Task.isReady]

/-- `next_ready` reads who is Ready, and nothing else of a task. -/
theorem nextReady_congr {f : Nat → Task → Task} (h : Mapped f s s')
    (hr : ∀ j t, s.task? j = some t → ((f j t).state = .ready ↔ t.state = .ready)) :
    s'.nextReady = s.nextReady := by
  have key : ∀ k, (Slots.get s'.slots k).any Task.isReady =
      (Slots.get s.slots k).any Task.isReady := by
    intro k
    rw [show Slots.get s'.slots k = (s.task? k).map (f k) from h.task k]
    cases ht : s.task? k with
    | none => rw [show Slots.get s.slots k = none from ht]; rfl
    | some t =>
      rw [show Slots.get s.slots k = some t from ht]
      have := hr k t ht
      simp only [Option.map_some, Option.any_some]
      rw [Bool.eq_iff_iff, Task.isReady_iff, Task.isReady_iff]
      exact this
  unfold nextReady Slots.firstFrom
  simp only [h.length, h.cursor, key]

/-- `find_slot` finds a slot that holds the id, if there is one. -/
theorem findSlot_some {id : TaskId} {i : Nat} (h : s.findSlot id = some i) :
    ∃ t, s.task? i = some t ∧ t.id = id := by
  unfold findSlot at h
  obtain ⟨hlt, hp, -⟩ := List.findIdx?_eq_some_iff_getElem.mp h
  cases ho : s.slots[i] with
  | none => rw [ho] at hp; cases hp
  | some t =>
    rw [ho] at hp
    refine ⟨t, Slots.get_eq_some_iff.mpr ?_, by simpa using hp⟩
    rw [List.getElem?_eq_getElem hlt, ho]

theorem findSlot_none {id : TaskId} (h : s.findSlot id = none) {i : Nat} {t : Task}
    (ht : s.task? i = some t) : t.id ≠ id := by
  intro e
  unfold findSlot at h
  rw [List.findIdx?_eq_none_iff] at h
  have hm := List.mem_of_getElem? (Slots.get_eq_some_iff.mp ht)
  have := h _ hm
  simp [e] at this

end Scheduler

end SimpleLinux
