/-
  File:      SimpleLinux/Process/Blocking.lean
  Subject:   Do `sleep` and `join` block?

  A call that blocks marks its caller Blocked and calls `schedule()`. What the caller may rely on
  when it comes back depends on how it comes back: through a dispatch it is Running again, so
  somebody has woken it; but when no task is Ready `schedule()` returns at once, to a caller that
  is still Blocked.

  * `Promise` -- what a task is owed at each place of a blocking call; `Promise.later` says that
    time, wake-ups and other tasks' steps keep it;
  * `BlockInv` -- every task, executing or suspended, is owed what its place says;
  * `canPark` -- the condition on a step: a Blocked task calls `schedule()` only while some task is
    Ready or its wait is over (and `join` is given an issued id, and the tick counter does not
    wrap);
  * `blocking_calls_block` -- in runs whose steps all meet it, a call returns only when it may.
-/
import SimpleLinux.Process.Join

namespace SimpleLinux

open Runs

/-! ## 1. The condition on a step -/

/-- What a blocked task waits for has happened. -/
def blockOver (m : Machine) : BlockReason → Bool
  | .none => true
  | .sleep wakeAt => decide (wakeAt ≤ m.ticks)
  | .join id => m.sched.joinDone id

/-- The current task is not Blocked, or its wait is over. -/
def callerReleased (m : Machine) : Bool :=
  match m.sched.current with
  | some cur => (m.sched.task? cur).all fun t => t.state != .blocked || blockOver m t.block
  | none => true

/-- `schedule()` is called by a Blocked task only while some task is Ready or its wait is over;
    `join` is given an id that was issued; the tick counter does not wrap. -/
def canPark (m : Machine) (a : Action) : Bool :=
  match a, m.cpu with
  | .join id, _ => decide (id < m.sched.nextId)
  | .cont, .handler _ => decide (m.ticks + 1 < 2 ^ 64)
  | .cont, .sched _ (.caller _) =>
    m.sched.slots.any (fun o => o.any Task.isReady) || callerReleased m
  | _, _ => true

/-- The runs whose steps all meet the condition. -/
abbrev ParkRun (es : List Event) (m : Machine) : Prop :=
  KernelRun (fun m a => canPark m a = true) es m

/-! ## 2. What a task is owed -/

/-- What a blocked task waits for has happened, and for good. -/
def Over (m : Machine) : BlockReason → Prop
  | .none => True
  | .sleep wakeAt => wakeAt ≤ m.ticks
  | .join id => id < m.sched.nextId ∧ ¬ Present m.sched id

/-- A Blocked task that is not held back any more. -/
def Free (m : Machine) (t : Task) : Prop := t.state = .blocked → Over m t.block

/-- What the return of a call says. -/
def Done (m : Machine) : Caller → Prop
  | .sleep called n => called + n ≤ m.ticks
  | .join id => id < m.sched.nextId ∧ ¬ Present m.sched id
  | .yield | .bootYield => True

/-- The block reason is one the call may wait for. -/
def Awaits (m : Machine) (b : BlockReason) : Caller → Prop
  | .sleep called n => ∃ wakeAt, b = .sleep wakeAt ∧ called + n ≤ wakeAt
  | .join id => b = .join id ∧ id < m.sched.nextId
  | .yield | .bootYield => Over m b

/-- In `schedule()`, called by `c`: Blocked on the call's own reason, or released. -/
def Waiting (m : Machine) (t : Task) (c : Caller) : Prop :=
  if t.state = .blocked then Awaits m t.block c else Done m c

/-- **What a task standing at `r` is owed.** -/
def Promise (m : Machine) (t : Task) : Ret → Prop
  | .caller c | .tick (.sched c) => Waiting m t c
  | .tick (.ret c) => Done m c ∧ Free m t
  | .tick (.sleepClock called _) => called ≤ m.ticks ∧ Free m t
  | .tick (.sleepMark called n wake) => called + n ≤ wake ∧ Free m t
  | .tick (.joinCheck id) | .tick (.joinMark id) => id < m.sched.nextId ∧ Free m t
  | .tick .boot | .tick (.starting _) | .tick .idle | .tick .body | .tick .panicked => Free m t

/-- Nothing that was over stops being over. -/
structure Later (m m' : Machine) : Prop where
  ticks : m.ticks ≤ m'.ticks
  nextId : m.sched.nextId ≤ m'.sched.nextId
  gone : ∀ id, id < m.sched.nextId → ¬ Present m.sched id → ¬ Present m'.sched id

/-- `t` has become `t'`: nobody blocked it, and if it was woken its wait was over. -/
structure Eased (m' : Machine) (t t' : Task) : Prop where
  stays : t'.state = .blocked → t.state = .blocked ∧ t'.block = t.block
  wakes : t.state = .blocked → t'.state ≠ .blocked → Over m' t.block

section Promise

variable {m m' : Machine} {t t' : Task}

theorem Over.later (hL : Later m m') : ∀ {b : BlockReason}, Over m b → Over m' b
  | .none, _ => trivial
  | .sleep _, h => Nat.le_trans h hL.ticks
  | .join id, h => ⟨Nat.lt_of_lt_of_le h.1 hL.nextId, hL.gone id h.1 h.2⟩

theorem Done.later (hL : Later m m') : ∀ {c : Caller}, Done m c → Done m' c
  | .sleep _ _, h => Nat.le_trans h hL.ticks
  | .join id, h => ⟨Nat.lt_of_lt_of_le h.1 hL.nextId, hL.gone id h.1 h.2⟩
  | .yield, _ | .bootYield, _ => trivial

theorem Awaits.later (hL : Later m m') {b : BlockReason} :
    ∀ {c : Caller}, Awaits m b c → Awaits m' b c
  | .sleep _ _, h => h
  | .join _, h => ⟨h.1, Nat.lt_of_lt_of_le h.2 hL.nextId⟩
  | .yield, h | .bootYield, h => Over.later hL h

/-- A call whose wait is over may return. -/
theorem Awaits.done {b : BlockReason} : ∀ {c : Caller}, Awaits m b c → Over m b → Done m c
  | .sleep _ _, ⟨_, hb, hle⟩, ho => by
      subst hb
      exact Nat.le_trans hle ho
  | .join _, ⟨hb, _⟩, ho => by
      subst hb
      exact ho
  | .yield, _, _ | .bootYield, _, _ => trivial

theorem Free.later (hL : Later m m') (hE : Eased m' t t') (h : Free m t) : Free m' t' := by
  intro hb
  obtain ⟨hb', e⟩ := hE.stays hb
  rw [e]
  exact (h hb').later hL

theorem Waiting.later (hL : Later m m') (hE : Eased m' t t') {c : Caller} (h : Waiting m t c) :
    Waiting m' t' c := by
  unfold Waiting at h ⊢
  by_cases hb' : t'.state = .blocked
  · obtain ⟨hb, e⟩ := hE.stays hb'
    rw [if_pos hb] at h
    rw [if_pos hb', e]
    exact h.later hL
  · rw [if_neg hb']
    by_cases hb : t.state = .blocked
    · rw [if_pos hb] at h
      exact (h.later hL).done (hE.wakes hb hb')
    · rw [if_neg hb] at h
      exact h.later hL

/-- Calling `yield_now` adds nothing to wait for. -/
theorem Waiting.of_free {c : Caller} (hy : c = .yield ∨ c = .bootYield) (h : Free m t) :
    Waiting m t c := by
  unfold Waiting
  split
  · rename_i hb
    rcases hy with rfl | rfl <;> exact h hb
  · rcases hy with rfl | rfl <;> trivial

/-- **Time, wake-ups and the steps of others keep what a task is owed.** -/
theorem Promise.later (hL : Later m m') (hE : Eased m' t t') :
    ∀ {r : Ret}, Promise m t r → Promise m' t' r
  | .caller _, h | .tick (.sched _), h => Waiting.later hL hE h
  | .tick (.ret _), h => ⟨h.1.later hL, h.2.later hL hE⟩
  | .tick (.sleepClock _ _), h => ⟨Nat.le_trans h.1 hL.ticks, h.2.later hL hE⟩
  | .tick (.sleepMark _ _ _), h => ⟨h.1, h.2.later hL hE⟩
  | .tick (.joinCheck _), h | .tick (.joinMark _), h =>
    ⟨Nat.lt_of_lt_of_le h.1 hL.nextId, h.2.later hL hE⟩
  | .tick .boot, h | .tick (.starting _), h | .tick .idle, h | .tick .body, h
  | .tick .panicked, h => Free.later hL hE h

/-! ## 3. What the sections do to one task -/

open Scheduler

theorem Eased.of_eq (hs : t'.state = t.state) (hb : t'.block = t.block) : Eased m' t t' :=
  ⟨fun h => ⟨hs ▸ h, hb⟩, fun h h' => absurd (hs.trans h) h'⟩

theorem Eased.trans {t'' : Task} (h : Eased m' t t') (h' : Eased m' t' t'') : Eased m' t t'' := by
  refine ⟨fun hb => ?_, fun hb hb' => ?_⟩
  · obtain ⟨h1, e1⟩ := h'.stays hb
    obtain ⟨h2, e2⟩ := h.stays h1
    exact ⟨h2, e1.trans e2⟩
  · by_cases h1 : t'.state = .blocked
    · rw [← (h.stays h1).2]
      exact h'.wakes h1 hb'
    · exact h.wakes hb h1

theorem Eased.of_not_blocked (h : t.state ≠ .blocked) (h' : t'.state ≠ .blocked) : Eased m' t t' :=
  ⟨fun hb => absurd hb h', fun hb => absurd hb h⟩

theorem Eased.demote (t : Task) : Eased m' t (Scheduler.demote t) := by
  by_cases h : t.state = .running
  · refine .of_not_blocked (by rw [h]; decide) ?_
    unfold Scheduler.demote
    rw [if_pos h]
    simp
  · unfold Scheduler.demote
    rw [if_neg h]
    exact .of_eq rfl rfl

theorem Eased.demoteAt (s : Scheduler) (j : Nat) (t : Task) :
    Eased m' t (if s.current = some j then Scheduler.demote t else t) := by
  split
  · exact .demote t
  · exact .of_eq rfl rfl

theorem Eased.wakeSleeper (t : Task) : Eased m' t (Scheduler.wakeSleeper m'.ticks t) := by
  refine ⟨fun h => ?_, fun h h' => ?_⟩
  · have e := wakeSleeper_blocked h
    rw [e] at h
    exact ⟨h, by rw [e]⟩
  · unfold Scheduler.wakeSleeper at h'
    split at h'
    · rename_i hb
      rw [hb]
      split at h'
      · rename_i hle
        exact hle
      · exact absurd h h'
    · exact absurd h h'

theorem Eased.tickTask (cur : Option Nat) (j : Nat) (t : Task) :
    Eased m' t (Scheduler.tickTask cur m'.ticks j t) :=
  (Eased.wakeSleeper t).trans (.of_eq (tickTask_state _ _ _ _) (tickTask_block _ _ _ _))

/-- An exit wakes its joiners, and rightly so. -/
theorem Eased.wakeJoiner {dead : TaskId} (h : Over m' (.join dead)) (t : Task) :
    Eased m' t (Scheduler.wakeJoiner dead t) := by
  by_cases hw : t.state = .blocked ∧ t.block = .join dead
  · refine ⟨fun hb => ?_, fun _ _ => by rw [hw.2]; exact h⟩
    exact absurd hw.2 (wakeJoiner_blocked hb).2
  · unfold Scheduler.wakeJoiner
    rw [if_neg hw]
    exact .of_eq rfl rfl

end Promise

/-! ## 4. Where every task stands -/

/-- Where a suspended task stands. -/
def Context.place : Context → Ret
  | .trampoline => .tick .body
  | .schedule _ r => r

/-- Where a task stands once `__switch` has returned into its context: a blocking call is over. -/
def Context.reply : Context → Ret
  | .trampoline => .tick .body
  | .schedule _ (.caller c) => .tick (.ret c)
  | .schedule _ (.tick p) => .tick p

/-- Where the current task stands; `none` while the CPU is handed over. -/
def Code.place : Code → Option Ret
  | .run p | .handler p | .eoi p => some (.tick p)
  | .sched _ r => some r
  | .resumed c => some c.reply
  | .startSection _ => some (.tick .boot)
  | .exitSection => some (.tick .body)
  | .switch _ _ => none

/-- The slot whose context is not the saved one, and where its task stands: the current slot, or
    during `__switch` the slot being left. -/
def Code.live (cur : Option Nat) : Code → Option (Nat × Ret)
  | .switch save _ => save.map fun ic => (ic.1, ic.2.place)
  | code => code.place.bind fun r => cur.map fun i => (i, r)

theorem Code.live_of_place {code : Code} {r : Ret} (h : code.place = some r) (cur : Option Nat) :
    code.live cur = cur.map fun i => (i, r) := by
  cases code with
  | switch save new => cases h
  | _ => simp only [Code.live, h, Option.bind_some]

theorem Code.not_switch_of_place {code : Code} {r : Ret} (h : code.place = some r)
    (save : Option (Nat × Context)) (new : Nat) : code ≠ .switch save new := by
  rintro rfl
  cases h

/-- Where the task `t` of slot `i` stands. -/
def Machine.placeOf (m : Machine) (i : Nat) (t : Task) : Ret :=
  match m.cpu.live m.sched.current with
  | some (j, r) => if j = i then r else t.ctx.place
  | none => t.ctx.place

/-- **Every task is owed what its place says**, and a task being switched to is Running. -/
structure BlockInv (m : Machine) : Prop where
  owed : ∀ (i : Nat) (t : Task), m.sched.task? i = some t → Promise m t (m.placeOf i t)
  entered : ∀ (save : Option (Nat × Context)) (new : Nat) (t : Task), m.cpu = .switch save new →
    m.sched.task? new = some t → t.state = .running

section Places

variable {m m' : Machine} {t t' : Task}

open Scheduler

/-- A task that is not Blocked is released by its dispatch. -/
theorem Promise.resume (h : t.state ≠ .blocked) : ∀ {c : Context}, Promise m t c.place →
    Promise m t c.reply
  | .trampoline, hp | .schedule _ (.tick _), hp => hp
  | .schedule _ (.caller c), hp => by
      have hw : Waiting m t c := hp
      unfold Waiting at hw
      rw [if_neg h] at hw
      exact ⟨hw, fun hb => absurd hb h⟩

theorem Machine.placeOf_some {i j : Nat} {r : Ret} (h : m.cpu.live m.sched.current = some (j, r)) :
    m.placeOf i t = if j = i then r else t.ctx.place := by
  unfold Machine.placeOf
  rw [h]

theorem Machine.placeOf_none {i : Nat} (h : m.cpu.live m.sched.current = none) :
    m.placeOf i t = t.ctx.place := by
  unfold Machine.placeOf
  rw [h]

/-- Outside `__switch` the current task stands where the CPU does, everybody else is suspended. -/
theorem Machine.placeOf_of_place {r : Ret} (h : m.cpu.place = some r) (i : Nat) (t : Task) :
    m.placeOf i t = if m.sched.current = some i then r else t.ctx.place := by
  unfold Machine.placeOf
  rw [Code.live_of_place h]
  cases m.sched.current with
  | none => simp
  | some cur => simp

/-- Only what `live` answers and the saved context decide a task's place. -/
theorem Machine.placeOf_congr {i : Nat}
    (hl : m'.cpu.live m'.sched.current = m.cpu.live m.sched.current) (hc : t'.ctx = t.ctx) :
    m'.placeOf i t' = m.placeOf i t := by
  unfold Machine.placeOf
  rw [hl, hc]

/-- A step at whose end each task is either eased where it stood or owed its new place. -/
theorem BlockInv.of_back (hB : BlockInv m) (hL : Later m m')
    (hback : ∀ j u, m'.sched.task? j = some u →
      (∃ t, m.sched.task? j = some t ∧ Eased m' t u ∧ m'.placeOf j u = m.placeOf j t) ∨
        Promise m' u (m'.placeOf j u))
    (hent : ∀ save new u, m'.cpu = .switch save new → m'.sched.task? new = some u →
      u.state = .running) : BlockInv m' := by
  refine ⟨fun j u hu => ?_, hent⟩
  rcases hback j u hu with ⟨t, ht, hE, e⟩ | h
  · rw [e]
    exact (hB.owed j t ht).later hL hE
  · exact h

/-- The current task moves from `r` to `r'`; the table stays as it is. -/
theorem BlockInv.move (hB : BlockInv m) (hL : Later m m') (hs : m'.sched = m.sched) {r r' : Ret}
    (hl : m.cpu.place = some r) (hl' : m'.cpu.place = some r')
    (hp : ∀ t, Promise m' t r → Promise m' t r') : BlockInv m' := by
  refine hB.of_back hL (fun j t ht => ?_) fun save new _ h =>
    absurd h (Code.not_switch_of_place hl' save new)
  rw [hs] at ht
  have ho := (hB.owed j t ht).later hL (Eased.of_eq rfl rfl)
  rw [Machine.placeOf_of_place hl] at ho
  rw [Machine.placeOf_of_place hl', hs]
  refine Or.inr ?_
  split
  · rename_i e
    rw [if_pos e] at ho
    exact hp t ho
  · rename_i e
    rw [if_neg e] at ho
    exact ho

/-- A section that eases every task, with nobody's place changed. -/
theorem BlockInv.mapped (hB : BlockInv m) (hL : Later m m') {f : Nat → Task → Task}
    (hm : Mapped f m.sched m'.sched) (hE : ∀ j t, Eased m' t (f j t))
    (hctx : ∀ j t, (f j t).ctx = t.ctx)
    (hl : m'.cpu.live m'.sched.current = m.cpu.live m.sched.current)
    (hsw : ∀ save new, m'.cpu ≠ .switch save new) : BlockInv m' := by
  refine hB.of_back hL (fun j u hu => ?_) fun save new _ h => absurd h (hsw save new)
  obtain ⟨t, ht, rfl⟩ := hm.back hu
  exact Or.inl ⟨t, ht, hE j t, Machine.placeOf_congr hl (hctx j t)⟩

/-- The marking section: the caller now waits for `why`, which its call may wait for. -/
theorem BlockInv.marked (hB : BlockInv m) (hL : Later m m') {why : BlockReason} {p : Pos}
    {c : Caller} (hs : m.sched.markBlocked why = some m'.sched) (hc : m.cpu = .run p)
    (hc' : m'.cpu = .run (.sched c)) (hw : ∀ t, Promise m t (.tick p) → Awaits m' why c) :
    BlockInv m' := by
  obtain ⟨cur, hcur, hm⟩ := markBlocked_spec hs
  have hl : m.cpu.place = some (.tick p) := by rw [hc]; rfl
  have hl' : m'.cpu.place = some (.tick (.sched c)) := by rw [hc']; rfl
  refine hB.of_back hL (fun j u hu => ?_) fun save new _ h =>
    absurd h (Code.not_switch_of_place hl' save new)
  obtain ⟨t, ht, rfl⟩ := hm.back hu
  have ho := hB.owed j t ht
  rw [Machine.placeOf_of_place hl, hcur] at ho
  by_cases e : cur = j
  · refine Or.inr ?_
    rw [Machine.placeOf_of_place hl', hm.current, hcur]
    simp only [e, if_true] at ho ⊢
    exact hw t ho
  · refine Or.inl ⟨t, ht, ?_, ?_⟩
    · simp only [e, if_false]
      exact .of_eq rfl rfl
    · rw [Machine.placeOf_of_place hl', Machine.placeOf_of_place hl, hm.current, hcur]
      simp only [Option.some.injEq, e, if_false]

/-- A dispatch: slot `idx`, Ready, is made Running; whoever was eased before it stays where it
    stood. -/
theorem BlockInv.dispatch (hB : BlockInv m) (hL : Later m m') {s : Scheduler} {idx : Nat}
    {save : Option (Nat × Context)} (hs : m'.sched = (s.prepSwitch idx).2)
    (hc : m'.cpu = .switch save idx) (hr : s.ReadyAt idx)
    (hback : ∀ j u, s.task? j = some u → ∃ t, m.sched.task? j = some t ∧ Eased m' t u ∧
      ∀ u' : Task, u'.ctx = u.ctx → m'.placeOf j u' = m.placeOf j t) :
    BlockInv m' := by
  have hrun : ∀ t, s.task? idx = some t → t.state = .ready := by
    intro t ht
    obtain ⟨t', ht', h⟩ := hr
    rw [ht] at ht'
    cases ht'
    exact h
  refine hB.of_back hL (fun j u' hu' => ?_) fun save' new u hsw hu => ?_
  · rw [hs, task?_prepSwitch] at hu'
    obtain ⟨u, hu, rfl⟩ := Option.map_eq_some_iff.mp hu'
    obtain ⟨t, ht, hE, hpl⟩ := hback j u hu
    refine Or.inl ⟨t, ht, hE.trans ?_, hpl _ (by split <;> rfl)⟩
    split
    · rename_i e
      subst e
      exact .of_not_blocked (by rw [hrun u hu]; decide) (by simp)
    · exact .of_eq rfl rfl
  · rw [hc] at hsw
    cases hsw
    rw [hs, task?_prepSwitch] at hu
    obtain ⟨t, -, rfl⟩ := Option.map_eq_some_iff.mp hu
    rw [if_pos rfl]

end Places

/-! ## 5. Every step -/

section Step

variable {m m' : Machine} {a : Action} {es : List Event}

open Scheduler

/-- Ids are never issued twice, and without a wrap the clock only moves forward. -/
theorem later_of_step (hI : Inv m) (hok : canPark m a = true) (h : StepView m a m' es) :
    Later m m' := by
  obtain ⟨hn, hst⟩ := (step_change hI h).stays
  refine ⟨?_, hn, fun id hid hgone ⟨i, u, hu, e⟩ => ?_⟩
  · cases h with
    | handler p hc =>
      have hlt : m.ticks + 1 < 2 ^ 64 := by simpa only [canPark, hc, decide_eq_true_eq] using hok
      show m.ticks ≤ (m.ticks + 1) % 2 ^ 64
      rw [Nat.mod_eq_of_lt hlt]
      exact Nat.le_succ _
    | _ => exact Nat.le_refl _
  · obtain ⟨t, ht, e'⟩ := hst hu (by rw [e]; exact hid)
    exact hgone ⟨i, t, ht, e'.trans e⟩

theorem over_of_blockOver (hI : SchedInv m.sched) {c : Caller} {b : BlockReason}
    (hw : Awaits m b c) (h : blockOver m b = true) : Over m b := by
  cases b with
  | none => trivial
  | sleep w => exact of_decide_eq_true (p := w ≤ m.ticks) h
  | join id =>
    refine ⟨?_, (joinDone_iff hI id).mp h⟩
    cases c with
    | join id' =>
      obtain ⟨e, hlt⟩ := hw
      cases e
      exact hlt
    | sleep called n =>
      obtain ⟨w, e, -⟩ := hw
      cases e
    | yield | bootYield => exact hw.1

theorem blockOver_of_over (hI : SchedInv m.sched) {b : BlockReason} (h : Over m b) :
    blockOver m b = true := by
  cases b with
  | none => rfl
  | sleep w => exact decide_eq_true h
  | join id => exact (joinDone_iff hI id).mpr h.2

/-- `schedule()` finds nobody: then nobody was Ready before it either. -/
theorem not_ready_of_nextReady_none (hI : SchedInv m.sched)
    (hn : m.sched.demoted.nextReady = none) :
    m.sched.slots.any (fun o => o.any Task.isReady) = false := by
  have hnone := (nextReady_none_iff hI.demoted.cursor_le).mp hn
  rw [List.any_eq_false]
  intro o ho hr
  obtain ⟨t, rfl, hr⟩ := (Option.any_eq_true _ _).mp hr
  obtain ⟨i, hi⟩ := List.getElem?_of_mem ho
  have ht : m.sched.task? i = some t := Slots.get_eq_some_iff.mpr hi
  refine hnone i ⟨_, (demoted_spec m.sched).forth ht, ?_⟩
  have hs : t.state = .ready := by simpa using hr
  split
  · unfold demote
    rw [if_neg (by rw [hs]; decide)]
    exact hs
  · exact hs

/-- A fresh task is owed nothing. -/
theorem BlockInv.add (hI : Inv m) (hB : BlockInv m) {p : Pos} {id : TaskId} {s : Scheduler}
    (hL : Later m { m with sched := s }) (hc : m.cpu = .run p) (hs : m.sched.add = some (id, s)) :
    BlockInv { m with sched := s } := by
  obtain ⟨-, -, hcu, -, -, k, hk, ht⟩ := add_spec hs
  have hlive : m.cpu.live s.current = m.cpu.live m.sched.current := by rw [hcu]
  refine hB.of_back hL (fun j u hu => ?_) fun save new _ h => by
    rw [show m.cpu = .run p from hc] at h
    cases h
  rw [show s.task? j = _ from ht j] at hu
  split at hu
  · rename_i e
    cases hu
    refine Or.inr ?_
    -- the slot was free, so it is not the current one
    rw [Machine.placeOf_of_place (r := .tick p) (by show m.cpu.place = _; rw [hc]; rfl), if_neg]
    · exact fun hb => by cases hb
    · rw [show s.current = _ from hcu]
      intro hcur
      obtain ⟨t, htc⟩ := hI.sched.occupied hcur
      rw [e, hk] at htc
      cases htc
  · exact Or.inl ⟨u, hu, .of_eq rfl rfl, Machine.placeOf_congr hlive rfl⟩

/-- `schedule()` returns to a caller that is not Blocked or may go on. -/
theorem schedNone_promise (hI : SchedInv m.sched) (hok : canPark m .cont = true) {w : Bool}
    {r : Ret} (hc : m.cpu = .sched w r) (hn : m.sched.demoted.nextReady = none) {cur : Nat}
    {t : Task} (hcur : m.sched.current = some cur) (ht : m.sched.task? cur = some t)
    (ho : Promise m t r) : Promise m t (Context.schedule w r).reply := by
  cases r with
  | tick p => exact ho
  | caller c =>
    have hrel : callerReleased m = true := by
      simpa only [canPark, hc, not_ready_of_nextReady_none hI hn, Bool.false_or] using hok
    unfold callerReleased at hrel
    rw [hcur] at hrel
    simp only [ht, Option.all_some, Bool.or_eq_true, bne_iff_ne, ne_eq] at hrel
    have hw : Waiting m t c := ho
    unfold Waiting at hw
    split at hw
    · rename_i hb
      have hover := over_of_blockOver hI hw (hrel.resolve_left fun h => h hb)
      exact ⟨hw.done hover, fun _ => hover⟩
    · rename_i hb
      exact ⟨hw, fun h => absurd h hb⟩

theorem BlockInv.schedSome (hI : Inv m) (hB : BlockInv m) {w : Bool} {r : Ret} {idx : Nat}
    (hc : m.cpu = .sched w r) (hn : m.sched.demoted.nextReady = some idx)
    (hL : Later m m') (hs : m'.sched = (m.sched.demoted.prepSwitch idx).2)
    (hc' : m'.cpu = .switch (m.sched.demoted.current.map fun i => (i, .schedule w r)) idx) :
    BlockInv m' := by
  have hl : m.cpu.place = some r := by rw [hc]; rfl
  have hlive : m'.cpu.live m'.sched.current = m.cpu.live m.sched.current := by
    rw [Code.live_of_place hl, hc', (demoted_spec m.sched).current]
    simp only [Code.live, Option.map_map]
    rfl
  refine hB.dispatch hL hs hc' (nextReady_spec hI.sched.demoted.cursor_le hn).1 fun j u hu => ?_
  obtain ⟨t, ht, rfl⟩ := (demoted_spec m.sched).back hu
  refine ⟨t, ht, .demoteAt _ j t, fun u' e => Machine.placeOf_congr hlive (e.trans ?_)⟩
  split <;> simp

theorem BlockInv.schedNone (hI : Inv m) (hB : BlockInv m) (hok : canPark m .cont = true) {w : Bool}
    {r : Ret} (hc : m.cpu = .sched w r) (hn : m.sched.demoted.nextReady = none) (hL : Later m m')
    (hs : m'.sched = m.sched.demoted) (hc' : m'.cpu = .resumed (.schedule w r)) :
    BlockInv m' := by
  have hm := demoted_spec m.sched
  have hl : m.cpu.place = some r := by rw [hc]; rfl
  have hl' : m'.cpu.place = some (Context.schedule w r).reply := by rw [hc']; rfl
  refine hB.of_back hL (fun j u hu => ?_) fun save new _ h =>
    absurd h (Code.not_switch_of_place hl' save new)
  rw [hs] at hu
  obtain ⟨t, ht, rfl⟩ := hm.back hu
  have ho := hB.owed j t ht
  have hE : Eased m' t _ := .demoteAt m.sched j t
  rw [Machine.placeOf_of_place hl] at ho
  by_cases hcur : m.sched.current = some j
  · refine Or.inr ?_
    rw [if_pos hcur] at ho
    have hnew := (schedNone_promise hI.sched hok hc hn hcur ht ho).later hL hE
    rw [Machine.placeOf_of_place hl', hs, hm.current]
    simp only [hcur, if_true] at hnew ⊢
    exact hnew
  · refine Or.inl ⟨t, ht, hE, ?_⟩
    rw [Machine.placeOf_of_place hl', Machine.placeOf_of_place hl, hs, hm.current]
    simp only [hcur, if_false]

/-- `__switch` lands in the context of a Running task; everybody else is suspended. -/
theorem BlockInv.land {new : Nat} {t : Task}
    (hparked : ∀ j u, m'.sched.task? j = some u → Promise m' u u.ctx.place)
    (hcur : m'.sched.current = some new) (ht : m'.sched.task? new = some t)
    (hrun : t.state = .running) (hc : m'.cpu = .resumed t.ctx) : BlockInv m' := by
  refine ⟨fun j u hu => ?_, fun _ _ _ h => by rw [hc] at h; cases h⟩
  rw [Machine.placeOf_of_place (r := t.ctx.reply) (by rw [hc]; rfl), hcur]
  split
  · rename_i e
    cases e
    rw [ht] at hu
    cases hu
    exact (hparked new t ht).resume (by rw [hrun]; decide)
  · exact hparked j u hu

theorem BlockInv.switchBoot (hI : Inv m) (hB : BlockInv m) {new : Nat} {t : Task}
    (hc : m.cpu = .switch none new) (ht : m.sched.task? new = some t) (hL : Later m m')
    (hs : m'.sched = m.sched) (hc' : m'.cpu = .resumed t.ctx) : BlockInv m' := by
  refine BlockInv.land (fun j u hu => ?_) (by rw [hs]; exact hI.cpu.entered hc)
    (by rw [hs]; exact ht) (hB.entered _ _ t hc ht) hc'
  rw [hs] at hu
  have ho := hB.owed j u hu
  rw [Machine.placeOf_none (by rw [hc]; rfl)] at ho
  exact ho.later hL (.of_eq rfl rfl)

theorem BlockInv.switchTask (hI : Inv m) (hB : BlockInv m) {i new : Nat} {c : Context} {t : Task}
    (hc : m.cpu = .switch (some (i, c)) new) (ht : (m.sched.saveCtx i c).task? new = some t)
    (hL : Later m m') (hs : m'.sched = m.sched.saveCtx i c) (hc' : m'.cpu = .resumed t.ctx) :
    BlockInv m' := by
  have hm := saveCtx_spec m.sched i c
  obtain ⟨t₀, ht₀, e₀⟩ := hm.back ht
  have hrun : t.state = .running := by
    rw [e₀, ← hB.entered _ _ t₀ hc ht₀]
    split <;> rfl
  refine BlockInv.land (fun j u hu => ?_) (by rw [hs, hm.current]; exact hI.cpu.entered hc)
    (by rw [hs]; exact ht) hrun hc'
  rw [hs] at hu
  obtain ⟨u₀, hu₀, rfl⟩ := hm.back hu
  have ho := hB.owed j u₀ hu₀
  rw [Machine.placeOf_some (j := i) (r := c.place) (by rw [hc]; rfl)] at ho
  -- the context being saved says where the task that is left stands
  by_cases e : i = j
  · simp only [e, if_true] at ho ⊢
    exact ho.later hL (.of_eq rfl rfl)
  · simp only [e, if_false] at ho ⊢
    exact ho.later hL (.of_eq rfl rfl)

theorem BlockInv.took (hB : BlockInv m) {b : Bool} {s : Scheduler}
    (hc : m.cpu = .resumed .trampoline)
    (hs : m.sched.takeFunc = some (b, s)) (hL : Later m m') (hs' : m'.sched = s)
    (hc' : m'.cpu.place = some (.tick .body)) : BlockInv m' := by
  obtain ⟨cur, -, hm⟩ := takeFunc_spec hs
  subst hs'
  refine hB.mapped hL hm (fun j t => ?_) (fun j t => by split <;> rfl) ?_
    (Code.not_switch_of_place hc')
  · split <;> exact .of_eq rfl rfl
  · rw [Code.live_of_place hc', Code.live_of_place (r := .tick .body) (by rw [hc]; rfl), hm.current]

/-- After an exit the dead task is gone for good. -/
theorem exit_over (hI : Inv m) (hL : Later m m') {cur : Nat} {dead : Task}
    (ht : m.sched.task? cur = some dead)
    (hs : ∀ id, Present m'.sched id ↔ Present ((m.sched.wakeJoiners cur dead.id).reap cur) id) :
    Over m' (.join dead.id) :=
  ⟨Nat.lt_of_lt_of_le (hI.sched.below ht) hL.nextId,
    fun h => ((present_exit hI.sched ht dead.id).mp ((hs _).mp h)).2 rfl⟩

/-- While a task exits, every other task is suspended. -/
theorem placeOf_exit {cur j : Nat} {t : Task} (hc : m.cpu = .exitSection)
    (hcur : m.sched.current = some cur) (hne : cur ≠ j) : m.placeOf j t = t.ctx.place := by
  rw [Machine.placeOf_of_place (r := .tick .body) (by rw [hc]; rfl), hcur,
    if_neg fun e => hne (Option.some.inj e)]

/-- **Every step that meets the condition keeps what the tasks are owed.** -/
theorem BlockInv.step (hI : Inv m) (hB : BlockInv m) (hok : canPark m a = true)
    (h : StepView m a m' es) : BlockInv m' := by
  have hL := later_of_step hI hok h
  cases h with
  | timer p hc hi => exact hB.move hL rfl (r := .tick p) (by rw [hc]; rfl) rfl fun _ h => h
  | spawn p id s hc hp hs => exact hB.add hI hL hc hs
  | startSome idx hc hn | startNone hc hn =>
    exact hB.move hL rfl (r := .tick .boot) (by rw [hc]; rfl) rfl fun _ h => h
  | yieldNow c hc hy =>
    refine hB.move hL rfl (r := .tick c.home) (by rw [hc]; rfl) rfl fun t h => ?_
    refine Waiting.of_free hy ?_
    rcases hy with rfl | rfl <;> exact h
  | sleep n hc =>
    exact hB.move hL rfl (r := .tick .body) (by rw [hc]; rfl) rfl fun _ h => ⟨Nat.le_refl _, h⟩
  | join id hc =>
    have hid : id < m.sched.nextId := of_decide_eq_true hok
    exact hB.move hL rfl (r := .tick .body) (by rw [hc]; rfl) rfl fun _ h => ⟨hid, h⟩
  | exit hc => exact hB.move hL rfl (r := .tick .body) (by rw [hc]; rfl) rfl fun _ h => h
  | starting idx hc =>
    exact hB.move hL rfl (r := .tick (.starting idx)) (by rw [hc]; rfl) rfl fun _ h => h
  | clock called n hc hn =>
    exact hB.move hL rfl (r := .tick (.sleepClock called n)) (by rw [hc]; rfl) rfl
      fun _ h => ⟨Nat.add_le_add_right h.1 n, h.2⟩
  | clockPanic called n hc =>
    exact hB.move hL rfl (r := .tick (.sleepClock called n)) (by rw [hc]; rfl) rfl fun _ h => h.2
  | markSleep called n wake s hc hs =>
    exact hB.marked hL (p := .sleepMark called n wake) hs hc rfl fun _ h => ⟨wake, rfl, h.1⟩
  | joinGone id hc hd =>
    have hgone := (joinDone_iff hI.sched id).mp hd
    exact hB.move hL rfl (r := .tick (.joinCheck id)) (by rw [hc]; rfl) rfl
      fun _ h => ⟨⟨h.1, hgone⟩, h.2⟩
  | joinThere id hc hd =>
    exact hB.move hL rfl (r := .tick (.joinCheck id)) (by rw [hc]; rfl) rfl fun _ h => h
  | markJoin id s hc hs =>
    exact hB.marked hL (p := .joinMark id) hs hc rfl
      fun _ h => ⟨rfl, Nat.lt_of_lt_of_le h.1 hL.nextId⟩
  | schedEnter c hc =>
    exact hB.move hL rfl (r := .tick (.sched c)) (by rw [hc]; rfl) rfl fun _ h => h
  | ret c hc =>
    refine hB.move hL rfl (r := .tick (.ret c)) (by rw [hc]; rfl) rfl fun _ h => ?_
    cases c <;> exact h.2
  | handler p hc =>
    have hpl : ∀ b : Bool, (if b then Code.sched m.intr (.tick p) else .eoi p).place
        = some (.tick p) := fun b => by cases b <;> rfl
    refine hB.mapped hL (tick_spec _ _) (fun j t => .tickTask _ _ t)
      (fun j t => tickTask_ctx _ _ _ _) ?_ (Code.not_switch_of_place (hpl _))
    rw [Code.live_of_place (hpl _), Code.live_of_place (r := .tick p) (by rw [hc]; rfl),
      (tick_spec m.sched _).current]
  | schedSome w r idx hc hn => exact hB.schedSome hI hc hn hL rfl rfl
  | schedNone w r hc hn => exact hB.schedNone hI hok hc hn hL rfl rfl
  | switchBoot new t hc ht => exact hB.switchBoot hI hc ht hL rfl rfl
  | switchTask i c new t hc ht => exact hB.switchTask hI hc ht hL rfl rfl
  | trampoline s hc hs | trampolineEmpty s hc hs => exact hB.took hc hs hL rfl rfl
  | resumedCaller w c hc =>
    exact hB.move hL rfl (r := .tick (.ret c)) (by rw [hc]; rfl) rfl fun _ h => h
  | resumedTick w p hc => exact hB.move hL rfl (r := .tick p) (by rw [hc]; rfl) rfl fun _ h => h
  | eoi p hc => exact hB.move hL rfl (r := .tick p) (by rw [hc]; rfl) rfl fun _ h => h
  | startSection idx hc =>
    have hn : m.sched.nextReady = some idx := hI.cpu.chosen (by rw [hc]; rfl)
    have hl : m.cpu.place = some (.tick .boot) := by rw [hc]; rfl
    refine hB.dispatch hL rfl rfl (nextReady_spec hI.sched.cursor_le hn).1 fun j u hu =>
      ⟨u, hu, .of_eq rfl rfl, fun u' e => Machine.placeOf_congr ?_ e⟩
    -- before the hand-over nobody is current
    rw [Code.live_of_place hl, (hI.cpu.boot (by rw [hc]; rfl)).1]
    rfl
  | exitSome cur dead idx hc hcur ht hn =>
    have hgone : Over _ (.join dead.id) := exit_over hI hL ht (fun id => present_prepSwitch id)
    have hr := (nextReady_spec (s := m.sched.wakeJoiners cur dead.id) (by
      rw [(wakeJoiners_spec _ _ _).cursor, (wakeJoiners_spec _ _ _).length]
      exact hI.sched.cursor_le) hn).1
    refine hB.dispatch hL rfl rfl (exit_readyAt hr) fun j u hu => ?_
    obtain ⟨hne, t, ht', rfl⟩ := exit_back hu
    refine ⟨t, ht', .wakeJoiner hgone t, fun u' e => ?_⟩
    rw [placeOf_exit hc hcur hne, Machine.placeOf_none rfl, e, wakeJoiner_ctx]
  | exitNone cur dead hc hcur ht hn =>
    have hgone : Over _ (.join dead.id) := exit_over hI hL ht (fun id => Iff.rfl)
    refine hB.of_back hL (fun j u hu => ?_) fun _ _ _ h => by cases h
    obtain ⟨hne, t, ht', rfl⟩ := exit_back hu
    refine Or.inl ⟨t, ht', .wakeJoiner hgone t, ?_⟩
    rw [placeOf_exit hc hcur hne, Machine.placeOf_none rfl, wakeJoiner_ctx]

theorem blockInv_boot : BlockInv Machine.boot := by
  refine ⟨fun i t ht => ?_, fun _ _ _ h => by cases h⟩
  simp [Machine.boot, Scheduler.new, Scheduler.task?, Slots.get] at ht

theorem blockInv_run (h : ParkRun es m) : Inv m ∧ BlockInv m :=
  h.invariant (I := fun m => Inv m ∧ BlockInv m) ⟨inv_boot, blockInv_boot⟩
    fun _ _ _ _ hI hok hs =>
      ⟨hI.1.step hs, BlockInv.step hI.1 hI.2 hok (step_view hI.1.cpu.active hs)⟩

/-- The current task is owed what the place of the CPU says. -/
theorem BlockInv.current (hI : Inv m) (hB : BlockInv m) {r : Ret} (hl : m.cpu.place = some r)
    {cur : Nat} (hcur : m.sched.current = some cur) :
    ∃ t, m.sched.task? cur = some t ∧ Promise m t r := by
  obtain ⟨t, ht⟩ := hI.sched.occupied hcur
  have ho := hB.owed cur t ht
  rw [Machine.placeOf_of_place hl, if_pos hcur] at ho
  exact ⟨t, ht, ho⟩

/-! ## 6. The results -/

/-- The current task executes its own code, Blocked, and its wait is not over. -/
def RunsBlocked (m : Machine) : Prop :=
  m.cpu = .run .body ∧ ∃ cur t, m.sched.current = some cur ∧ m.sched.task? cur = some t ∧
    t.state = .blocked ∧ blockOver m t.block = false

theorem BlockInv.not_runsBlocked (hI : Inv m) (hB : BlockInv m) : ¬ RunsBlocked m := by
  intro ⟨hc, cur, t, hcur, ht, hb, hover⟩
  obtain ⟨t', ht', ho⟩ := hB.current hI (r := .tick .body) (by rw [hc]; rfl) hcur
  rw [ht] at ht'
  cases ht'
  rw [blockOver_of_over hI.sched (ho hb)] at hover
  cases hover

/-- A call that returns may return. -/
theorem BlockInv.done (hI : Inv m) (hB : BlockInv m) {c : Caller} (hc : m.cpu = .run (.ret c))
    (hh : c.holder = .task) : Done m c := by
  obtain ⟨cur, hcur⟩ := Option.ne_none_iff_exists'.mp (hI.cpu.task (by rw [hc]; exact hh))
  obtain ⟨t, -, ho⟩ := hB.current hI (r := .tick (.ret c)) (by rw [hc]; rfl) hcur
  exact ho.1

/-- Where a call returns, and what that emits. -/
theorem returned_of_step (h : StepView m a m' es) {e : Event}
    (he : e ∈ es) (hq : (∃ called n, e = .slept called n) ∨ ∃ id, e = .joined id) :
    ∃ c, m.cpu = .run (.ret c) ∧ e ∈ c.returns ∧ m'.sched = m.sched ∧ m'.ticks = m.ticks := by
  cases h with
  | ret c hc => exact ⟨c, hc, he, rfl, rfl⟩
  | _ =>
    rcases hq with ⟨called, n, rfl⟩ | ⟨id, rfl⟩ <;> simp at he

theorem BlockInv.slept (hI : Inv m) (hB : BlockInv m) (h : StepView m a m' es) {called n : Nat}
    (he : Event.slept called n ∈ es) : called + n ≤ m'.ticks := by
  obtain ⟨c, hc, hm, -, ht⟩ := returned_of_step h he (Or.inl ⟨called, n, rfl⟩)
  rw [ht]
  cases c with
  | sleep called' n' =>
    have hd := hB.done hI hc rfl
    simp only [Caller.returns, List.mem_singleton, Event.slept.injEq] at hm
    rw [hm.1, hm.2]
    exact hd
  | _ => simp [Caller.returns] at hm

theorem BlockInv.joined (hI : Inv m) (hB : BlockInv m) (h : StepView m a m' es) {id : TaskId}
    (he : Event.joined id ∈ es) : ¬ m'.sched.Live id := by
  obtain ⟨c, hc, hm, hs, -⟩ := returned_of_step h he (Or.inr ⟨id, rfl⟩)
  rw [hs]
  cases c with
  | join id' =>
    have hd := hB.done hI hc rfl
    simp only [Caller.returns, List.mem_singleton, Event.joined.injEq] at hm
    rw [hm]
    exact fun hl => hd.2 (present_of_live hl)
  | _ => simp [Caller.returns] at hm

/-- What it means that the condition fails in `schedule()`. -/
theorem canPark_false {w : Bool} {c : Caller} (hc : m.cpu = .sched w (.caller c))
    (hok : canPark m .cont = false) :
    (∀ i t, m.sched.task? i = some t → t.state ≠ .ready) ∧
      ∃ cur t, m.sched.current = some cur ∧ m.sched.task? cur = some t ∧ t.state = .blocked ∧
        blockOver m t.block = false := by
  simp only [canPark, hc, Bool.or_eq_false_iff] at hok
  obtain ⟨hready, hrel⟩ := hok
  refine ⟨fun i t ht hs => ?_, ?_⟩
  · rw [List.any_eq_false] at hready
    exact hready _ (List.mem_of_getElem? (Slots.get_eq_some_iff.mp ht)) (by simpa using hs)
  · unfold callerReleased at hrel
    split at hrel
    · rename_i cur hcur
      cases ht : m.sched.task? cur with
      | none => simp [ht] at hrel
      | some t =>
        simp only [ht, Option.all_some, Bool.or_eq_false_iff, bne_eq_false_iff_eq] at hrel
        exact ⟨cur, t, hcur, ht, hrel.1, hrel.2⟩
    · cases hrel

/-- **A Blocked caller that finds nobody Ready runs on**: three steps later it is back in its own
    code, its wait not over. -/
theorem runsBlocked_of_not_canPark (hI : Inv m) {w : Bool} {c : Caller}
    (hc : m.cpu = .sched w (.caller c)) (hok : canPark m .cont = false) :
    ∃ m', Run Machine.step anyStep m c.returns m' ∧ RunsBlocked m' := by
  obtain ⟨hready, cur, t, hcur, ht, hb, hover⟩ := canPark_false hc hok
  have hm := demoted_spec m.sched
  have hdem : demote t = t := by
    unfold demote
    rw [if_neg (by rw [hb]; decide)]
  have ht' : m.sched.demoted.task? cur = some t := by
    rw [hm.forth ht, if_pos hcur, hdem]
  have hn : m.sched.demoted.nextReady = none := by
    refine (nextReady_none_iff hI.sched.demoted.cursor_le).mpr fun k ⟨u, hu, hs⟩ => ?_
    obtain ⟨u₀, hu₀, rfl⟩ := hm.back hu
    split at hs
    · rename_i hk
      rw [hcur] at hk
      cases hk
      rw [ht] at hu₀
      cases hu₀
      rw [hdem, hb] at hs
      cases hs
    · exact hready k u₀ hu₀ hs
  have hhome : c.home = .body := by
    have hh := hI.cpu.holder_of_current (by rw [hcur]; simp)
    rw [hc] at hh
    cases c with
    | bootYield => cases hh
    | _ => rfl
  let m₁ : Machine := { m with sched := m.sched.demoted, cpu := .resumed (.schedule w (.caller c)) }
  let m₂ : Machine := { m₁ with intr := w || m₁.intr, cpu := .run (.ret c) }
  let m₃ : Machine := { m₂ with cpu := .run c.home }
  have h1 : m.step .cont = some (m₁, []) := by
    simp only [Machine.step, Machine.cont, hc, Machine.contSched, Scheduler.schedule, hn]
    rfl
  have h2 : m₁.step .cont = some (m₂, []) := rfl
  have h3 : m₂.step .cont = some (m₃, c.returns) := rfl
  have hrun : Run Machine.step anyStep m ([] ++ [] ++ [] ++ c.returns) m₃ :=
    .next .cont (.next .cont (.next .cont .start trivial h1) trivial h2) trivial h3
  refine ⟨m₃, hrun, by rw [← hhome], cur, t, hm.current.trans hcur, ht', hb, ?_⟩
  cases hbl : t.block with
  | none => rw [hbl] at hover; cases hover
  | sleep wake => rw [hbl] at hover; exact hover
  | join id =>
    rw [hbl] at hover
    have hid : ∀ (j : Nat) (t : Task), (if m.sched.current = some j then demote t else t).id =
        t.id :=
      fun j t => by split <;> simp
    rw [Bool.eq_false_iff] at hover ⊢
    intro hd
    refine hover ((joinDone_iff hI.sched id).mpr ?_)
    rw [← present_mapped hm hid]
    exact (joinDone_iff hI.sched.demoted id).mp hd

end Step

/-- **In every run in which a Blocked task calls `schedule()` only while some task is Ready or its
    wait is over, blocking calls block**: a `sleep(n)` called at tick `called` returns at tick
    `called + n` or later, a `join(id)` returns when `id` is not live, and no task executes its own
    code Blocked before its wait is over. Wherever the condition fails, the caller runs on. -/
theorem blocking_calls_block (es : List Event) (m : Machine) :
    (ParkRun es m → ¬ RunsBlocked m ∧ ∀ a m' es', m.step a = some (m', es') →
      (∀ called n, Event.slept called n ∈ es' → called + n ≤ m'.ticks) ∧
        ∀ id, Event.joined id ∈ es' → ¬ m'.sched.Live id) ∧
      (KernelRun anyStep es m → ∀ w c, m.cpu = .sched w (.caller c) → canPark m .cont = false →
        ∃ m', Run Machine.step anyStep m c.returns m' ∧ RunsBlocked m') := by
  refine ⟨fun h => ?_, fun h w c hc hok => runsBlocked_of_not_canPark (inv_run h) hc hok⟩
  obtain ⟨hI, hB⟩ := blockInv_run h
  refine ⟨hB.not_runsBlocked hI, fun a m' es' hs => ?_⟩
  have hv := step_view hI.cpu.active hs
  exact ⟨fun _ _ he => hB.slept hI hv he, fun _ he => hB.joined hI hv he⟩

/-- Task 1 sleeps one tick while task 2 is Ready: it returns a tick later. -/
theorem blocking_calls_block_two : ∃ (es : List Event) (m m' : Machine), ParkRun es m ∧
    m.step .cont = some (m', [.slept 0 1]) ∧ 0 + 1 ≤ m'.ticks := by
  have hex : (exec Machine.step canPark Machine.boot
      [.spawn, .spawn, .start, .cont, .cont, .cont, .cont, .sleep 1, .cont, .cont, .cont, .cont,
        .cont, .cont, .timer, .cont, .cont, .yieldNow, .cont, .cont, .cont, .cont]).any
      (fun r => r.1.cpu == .run (.ret (.sleep 0 1))) = true := by decide
  obtain ⟨r, hr, hc⟩ := (Option.any_eq_true _ _).mp hex
  have h : ParkRun r.2 r.1 := run_of_exec _ hr
  have hs : r.1.step .cont = some ({ r.1 with cpu := .run .body }, [.slept 0 1]) := by
    simp only [beq_iff_eq] at hc
    simp only [Machine.step, Machine.cont, hc]
    rfl
  exact ⟨r.2, r.1, _, h, hs, (((blocking_calls_block _ _).1 h).2 _ _ _ hs).1 0 1 (by simp)⟩

/-- One task alone: `sleep(5)`, called at tick 0, returns at tick 0; and joining itself returns
    too. -/
theorem blocking_calls_return_early :
    (∃ (es : List Event) (m m' : Machine), PicRun es m ∧ m.step .cont = some (m', [.slept 0 5]) ∧
      m'.ticks < 0 + 5 ∧ RunsBlocked m') ∧
      ∃ (es : List Event) (m m' : Machine), PicRun es m ∧
        m.step .cont = some (m', [.joined 1]) ∧ m'.sched.Live 1 := by
  refine ⟨?_, ?_⟩
  · obtain ⟨es, m, h, hp⟩ := exists_picRun
      [.spawn, .start, .cont, .cont, .cont, .cont, .sleep 5, .cont, .cont, .cont, .cont, .cont]
      (fun _ m => m.cpu == .run (.ret (.sleep 0 5)) && m.ticks == 0 && m.sched.current == some 0 &&
        (m.sched.task? 0).any fun t => t.state == .blocked && t.block == .sleep 5) (by decide)
    simp only [Bool.and_eq_true, beq_iff_eq] at hp
    obtain ⟨⟨⟨hc, ht0⟩, hcur⟩, ht⟩ := hp
    obtain ⟨t, ht, hb⟩ := (Option.any_eq_true _ _).mp ht
    simp only [Bool.and_eq_true, beq_iff_eq] at hb
    refine ⟨es, m, { m with cpu := .run .body }, h,
      ?_, by rw [ht0]; decide, rfl, 0, t, hcur, ht, hb.1, ?_⟩
    · simp only [Machine.step, Machine.cont, hc]
      rfl
    · rw [hb.2]
      simp [blockOver, ht0]
  · obtain ⟨es, m, h, hp⟩ := exists_picRun
      [.spawn, .start, .cont, .cont, .cont, .cont, .join 1, .cont, .cont, .cont, .cont, .cont]
      (fun _ m => m.cpu == .run (.ret (.join 1)) &&
        (m.sched.task? 0).any fun t => t.id == 1 && t.state != .zombie) (by decide)
    simp only [Bool.and_eq_true, beq_iff_eq] at hp
    obtain ⟨hc, ht⟩ := hp
    obtain ⟨t, ht, hb⟩ := (Option.any_eq_true _ _).mp ht
    simp only [Bool.and_eq_true, beq_iff_eq, bne_iff_ne, ne_eq] at hb
    refine ⟨es, m, { m with cpu := .run .body }, h, ?_, 0, t, ht, hb.1, hb.2⟩
    simp only [Machine.step, Machine.cont, hc]
    rfl

end SimpleLinux
