/-
  File:      SimpleLinux/Process/Locks.lean
  Subject:   The kernel's spin locks: SCHEDULER, KEYBOARD and the heap.

  Every entry point of the scheduler and of the keyboard driver, and the two interrupt handlers,
  as the locks they take and release and what they do to the interrupt flag. How often a call
  allocates or frees on the heap is left open (the `allocs` arguments), and so are the scheduler's
  choices: the runs here are all runs of the kernel and more. `PIC` is not here: only the handlers
  take it, with interrupts disabled.

  * `startsClear` -- the condition on a step: an interrupt is delivered, and a task exits, only
    while the locks the handler or `exit_current` takes are free;
  * `no_self_deadlock` -- in runs whose steps all meet it, nobody waits for a lock with interrupts
    disabled; a step that does not meet it ends in such a wait;
  * `self_deadlock` -- `spawn` interrupted by the timer, a read of `/dev/kbd` interrupted by a key,
    an exit while a preempted task allocates.
-/
import SimpleLinux.Lib.Spin

namespace SimpleLinux

open Runs Spin

/-! ## 1. What the kernel's code takes and releases -/

/-- The spin locks. -/
inductive LockId where
  | scheduler | keyboard | heap
  deriving DecidableEq, Repr

/-- `n` uses of the global allocator. -/
def allocs : Nat → List (Op LockId)
  | 0 => []
  | n + 1 => .lock .heap :: .unlock .heap :: allocs n

/-- `n` calls of `read_key`. -/
def readKeys : Nat → List (Op LockId)
  | 0 => []
  | n + 1 => .lock .keyboard :: .unlock .keyboard :: readKeys n

/-- `schedule()` from own code. -/
def scheduleCode : List (Op LockId) :=
  [.cli, .lock .scheduler, .unlock .scheduler, .switch, .sti]

/-- What own code can call. -/
inductive KernelCall where
  | spawn (allocs : Nat)
  | start (found : Bool)
  | yieldNow
  | sleep
  | join (done : Bool)
  | snapshot (allocs : Nat)
  | taskCount
  /-- `read` of `/dev/kbd` -/
  | readKbd (keys : Nat)
  /-- `inject`, one scancode, and `inject_str` -/
  | inject (allocs : Nat)
  | allocate (n : Nat)
  deriving DecidableEq, Repr

def KernelCall.code : KernelCall → List (Op LockId)
  -- the stack and the slot are allocated under the lock
  | .spawn n => .lock .scheduler :: (allocs n ++ [.create, .unlock .scheduler])
  | .start true =>
    [.lock .scheduler, .unlock .scheduler, .cli, .lock .scheduler, .unlock .scheduler, .leave]
  | .start false => [.lock .scheduler, .unlock .scheduler, .hlt]
  | .yieldNow => scheduleCode
  | .sleep => .lock .scheduler :: .unlock .scheduler :: scheduleCode
  | .join true => [.lock .scheduler, .unlock .scheduler]
  | .join false =>
    .lock .scheduler :: .unlock .scheduler :: .lock .scheduler :: .unlock .scheduler :: scheduleCode
  | .snapshot n => .lock .scheduler :: (allocs n ++ [.unlock .scheduler])
  | .taskCount => [.lock .scheduler, .unlock .scheduler]
  | .readKbd n => readKeys n
  | .inject n => .lock .keyboard :: (allocs n ++ [.unlock .keyboard])
  | .allocate n => allocs n

/-- `exit_current` after `interrupts::disable()`: the dead task's stack is freed under the lock. -/
def exitCode (n : Nat) : List (Op LockId) :=
  .lock .scheduler :: (allocs n ++ [.unlock .scheduler, .leave])

/-- `timer_interrupt_handler`: `tick`, and `schedule()` if it preempts. -/
def timerCode : Bool → List (Op LockId)
  | false => [.lock .scheduler, .unlock .scheduler, .iret]
  | true =>
    [.lock .scheduler, .unlock .scheduler, .lock .scheduler, .unlock .scheduler, .switch, .iret]

/-- `keyboard_interrupt_handler`: the buffer may grow. -/
def keyboardCode (n : Nat) : List (Op LockId) :=
  .lock .keyboard :: (allocs n ++ [.unlock .keyboard, .iret])

/-- `current_task_body` up to the call of the closure: what a fresh task executes first. -/
def freshCode : List (Op LockId) := [.lock .scheduler, .unlock .scheduler, .sti]

/-- What can happen next. -/
inductive LockAction where
  | call (c : KernelCall)
  | exit (allocs : Nat)
  | timer (preempts : Bool)
  | keyboard (allocs : Nat)
  | cont (next : Option Nat)
  deriving DecidableEq, Repr

def LockAction.act : LockAction → Spin.Action LockId
  | .call c => .call c.code
  | .exit n => .quit (exitCode n)
  | .timer p => .irq (timerCode p)
  | .keyboard n => .irq (keyboardCode n)
  | .cont next => .cont next

abbrev Locks := Spin.State LockId

/-- The boot context alone, in its own code. -/
def Locks.boot : Locks := { ctxs := [some []], cur := 0, intr := true, owner := fun _ => none }

def Locks.step (s : Locks) (a : LockAction) : Option (Locks × List Unit) :=
  Spin.step freshCode s a.act

/-- An interrupt is delivered, and a task exits, only while the locks that are then taken with
    interrupts disabled are free. -/
def startsClear (s : Locks) : LockAction → Bool
  | .timer _ => s.free .scheduler
  | .keyboard n => s.free .keyboard && (n == 0 || s.free .heap)
  | .exit n => n == 0 || s.free .heap
  | .call _ | .cont _ => true

/-- The runs all of whose steps meet the condition. -/
abbrev ClearRun (es : List Unit) (s : Locks) : Prop :=
  Run Locks.step (fun s a => startsClear s a = true) Locks.boot es s

/-! ## 2. The kernel's code keeps the discipline -/

section Discipline

variable {rest : List (Op LockId)} {i h : Bool} {free : LockId → Bool}

@[simp] theorem wf_allocs (n : Nat) :
    wf .scheduler i h (allocs n ++ rest) = wf .scheduler i h rest := by
  induction n with
  | zero => rfl
  | succ n ih => simpa [allocs, wf] using ih

@[simp] theorem wf_readKeys (n : Nat) :
    wf .scheduler i h (readKeys n ++ rest) = wf .scheduler i h rest := by
  induction n with
  | zero => rfl
  | succ n ih => simpa [readKeys, wf] using ih

/-- With interrupts enabled allocating is always calm. -/
theorem calm_allocs_enabled (n : Nat) (hr : calm .scheduler true (fun _ => false) rest = true) :
    calm .scheduler true free (allocs n ++ rest) = true := by
  induction n generalizing free with
  | zero => exact calm_enabled hr
  | succ n ih =>
    simp only [allocs, List.cons_append, calm, Bool.true_or, Bool.true_and]
    exact ih

theorem calm_readKeys (n : Nat) : calm .scheduler true free (readKeys n) = true := by
  induction n generalizing free with
  | zero => rfl
  | succ n ih =>
    simp only [readKeys, calm, Bool.true_or, Bool.true_and]
    exact ih

/-- With interrupts disabled it is calm if the heap is free, or if nothing is allocated. -/
theorem calm_allocs_disabled (n : Nat) (hf : n = 0 ∨ free .heap = true)
    (hr : calm .scheduler false free rest = true) :
    calm .scheduler false free (allocs n ++ rest) = true := by
  induction n with
  | zero => exact hr
  | succ n ih =>
    have hh : free .heap = true := hf.resolve_left (Nat.succ_ne_zero n)
    simp only [allocs, List.cons_append, calm, hh, Bool.or_true, Bool.true_and,
      Function.update_idem]
    rw [show Function.update free .heap true = free by rw [← hh]; exact Function.update_eq_self _ _]
    exact ih (Or.inr hh)

theorem suspended_fresh : Suspended .scheduler freshCode := ⟨by decide, by decide⟩

/-- Every call keeps the discipline. -/
theorem call_fits (c : KernelCall) :
    wf .scheduler true false c.code = true ∧
      calm .scheduler true (fun _ => false) c.code = true := by
  cases c with
  | spawn n =>
    refine ⟨by simp [KernelCall.code, wf], ?_⟩
    simp only [KernelCall.code, calm, Bool.true_or, Bool.true_and]
    exact calm_allocs_enabled n rfl
  | snapshot n =>
    refine ⟨by simp [KernelCall.code, wf], ?_⟩
    simp only [KernelCall.code, calm, Bool.true_or, Bool.true_and]
    exact calm_allocs_enabled n rfl
  | inject n =>
    refine ⟨by simp [KernelCall.code, wf], ?_⟩
    simp only [KernelCall.code, calm, Bool.true_or, Bool.true_and]
    exact calm_allocs_enabled n rfl
  | readKbd n =>
    refine ⟨?_, calm_readKeys n⟩
    show wf .scheduler true false (readKeys n) = true
    rw [← List.append_nil (readKeys n), wf_readKeys]
    rfl
  | allocate n =>
    show wf .scheduler true false (allocs n) = true ∧ calm .scheduler true _ (allocs n) = true
    rw [← List.append_nil (allocs n), wf_allocs]
    exact ⟨rfl, calm_allocs_enabled n rfl⟩
  | start found => cases found <;> exact ⟨by decide, by decide⟩
  | join done => cases done <;> exact ⟨by decide, by decide⟩
  | yieldNow | sleep | taskCount => exact ⟨by decide, by decide⟩

theorem exit_fits (n : Nat) (hf : n = 0 ∨ free .heap = true) :
    wf .scheduler false false (exitCode n) = true ∧
      calm .scheduler false free (exitCode n) = true := by
  refine ⟨by simp [exitCode, wf], ?_⟩
  simp only [exitCode, calm, decide_true, Bool.or_true, Bool.true_or, Bool.true_and]
  refine calm_allocs_disabled n (hf.imp_right fun h => ?_) rfl
  rw [Function.update_of_ne (by decide)]
  exact h

theorem timer_fits (p : Bool) (hw : wf .scheduler true false rest = true)
    (hk : calm .scheduler true (fun _ => false) rest = true) :
    wf .scheduler false false (timerCode p ++ rest) = true ∧
      calm .scheduler false free (timerCode p ++ rest) = true := by
  cases p with
  | false => exact ⟨by simpa [timerCode, wf] using hw, by simpa [timerCode, calm] using hk⟩
  | true => exact ⟨by simpa [timerCode, wf] using hw, by simpa [timerCode, calm] using hk⟩

theorem keyboard_fits (n : Nat) (hkb : free .keyboard = true) (hf : n = 0 ∨ free .heap = true)
    (hw : wf .scheduler true h rest = true)
    (hk : calm .scheduler true (fun _ => false) rest = true) :
    wf .scheduler false h (keyboardCode n ++ rest) = true ∧
      calm .scheduler false free (keyboardCode n ++ rest) = true := by
  simp only [keyboardCode, List.cons_append, List.append_assoc]
  refine ⟨by simpa [wf] using hw, ?_⟩
  simp only [calm, hkb, Bool.or_true, Bool.true_and]
  refine calm_allocs_disabled n (hf.imp_right fun h => ?_) (by simpa [calm] using hk)
  rw [Function.update_of_ne (by decide)]
  exact h

/-- An action that starts clear fits the discipline. -/
theorem fits_of_startsClear {s : Locks} {a : LockAction}
    (h : startsClear s a = true) : Fits .scheduler s a.act := by
  cases a with
  | call c => exact call_fits c
  | exit n =>
    refine exit_fits n ?_
    simpa [startsClear] using h
  | timer p =>
    intro rest hw hk
    have ho : s.owner .scheduler = none := Option.isNone_iff_eq_none.mp h
    have hh : s.holds .scheduler s.cur = false := by simp [State.holds, ho]
    rw [hh] at hw ⊢
    exact timer_fits p hw hk
  | keyboard n =>
    intro rest hw hk
    simp only [startsClear, Bool.and_eq_true, Bool.or_eq_true, beq_iff_eq] at h
    exact keyboard_fits n h.1 h.2 hw hk
  | cont next => trivial

end Discipline

/-! ## 3. Whole runs -/

section LockRuns

variable {s s' : Locks} {es : List Unit}

theorem lockInv_boot : Inv .scheduler Locks.boot := by
  refine ⟨fun h => ?_, fun h => ?_, fun {c code} hne h => ?_, fun h => by cases h⟩
  · cases h
    decide
  · cases h
    rfl
  · cases c with
    | zero => exact absurd rfl hne
    | succ c => simp [Locks.boot, Slots.get] at h

theorem lockInv_run (h : ClearRun es s) : Inv .scheduler s :=
  h.invariant lockInv_boot fun _ _ _ _ hI hok hs =>
    Inv.step suspended_fresh hI (fits_of_startsClear hok) hs

/-- What starts while a lock it takes is owned gets stuck. -/
theorem stuck_of_not_startsClear {a : LockAction} {es' : List Unit} (h : s.step a = some (s', es'))
    (hok : startsClear s a = false) :
    ∃ s'', Run Locks.step anyStep s' [] s'' ∧ s''.Stuck := by
  have owned : ∀ {l}, s.free l = false → s.owner l ≠ none := by
    intro l hf e
    rw [State.free, e] at hf
    cases hf
  -- the heap is owned, and one more lock comes before it
  have second : ∀ (n : Nat) (l : LockId) (rest : List (Op LockId)), n ≠ 0 →
      s'.intr = false → s'.owner = s.owner →
      s'.code = some (.lock l :: (allocs n ++ rest)) → .heap ≠ l → s.free .heap = false →
      ∃ s'', Run Locks.step anyStep s' [] s'' ∧ s''.Stuck := by
    intro n l rest hn hi ho hc hne hf
    cases n with
    | zero => exact absurd rfl hn
    | succ n =>
      rcases stuck_of_locks freshCode hi hc hne (by rw [ho]; exact owned hf) with
        hst | ⟨s'', hs, hst⟩
      · exact ⟨s', .start, hst⟩
      · exact ⟨s'', .next (LockAction.cont none) .start trivial hs, hst⟩
  cases a with
  | call c => cases hok
  | cont next => cases hok
  | timer p =>
    simp only [Locks.step, LockAction.act, Spin.step] at h
    split at h
    · rename_i rest hc
      split at h
      · cases h
        refine ⟨_, .start, rfl, .scheduler, ?_⟩
        cases p <;> exact ⟨_, code_setCode hc _, owned hok⟩
      · cases h
    · cases h
  | keyboard n =>
    simp only [Locks.step, LockAction.act, Spin.step] at h
    split at h
    · rename_i rest hc
      split at h
      · cases h
        by_cases hk : s.free .keyboard = true
        · simp only [startsClear, hk, Bool.true_and, Bool.or_eq_false_iff,
            beq_eq_false_iff_ne] at hok
          refine second n .keyboard ([.unlock .keyboard, .iret] ++ rest) hok.1 rfl rfl ?_
            (by decide) hok.2
          exact (code_setCode hc _).trans (by simp [keyboardCode])
        · exact ⟨_, .start, rfl, .keyboard, _, code_setCode hc _, owned (by simpa using hk)⟩
      · cases h
    · cases h
  | exit n =>
    simp only [Locks.step, LockAction.act, Spin.step] at h
    split at h
    · rename_i hc
      cases h
      simp only [startsClear, Bool.or_eq_false_iff, beq_eq_false_iff_ne] at hok
      exact second n .scheduler _ hok.1 rfl rfl (code_setCode hc _) (by decide) hok.2
    · cases h

end LockRuns

/-- **Nobody waits for a lock with interrupts disabled**, in every run in which interrupts are
    delivered and tasks exit only while the locks that are then taken are free; and whatever starts
    while one of them is owned waits for it forever. -/
theorem no_self_deadlock (es : List Unit) (s : Locks) :
    (ClearRun es s → ¬ s.Stuck) ∧
      ∀ a s' es', s.step a = some (s', es') → startsClear s a = false →
        ∃ s'', Run Locks.step anyStep s' [] s'' ∧ s''.Stuck :=
  ⟨fun h => (lockInv_run h).not_stuck, fun _ _ _ hs hok => stuck_of_not_startsClear hs hok⟩

/-- A tick delivered after `spawn` has released the scheduler takes it. -/
theorem no_self_deadlock_spawn : ∃ (es : List Unit) (s : Locks), ClearRun es s ∧
    s.intr = false ∧ s.code = some [.lock .scheduler, .unlock .scheduler, .iret] ∧ ¬ s.Stuck := by
  have hex : (exec Locks.step startsClear Locks.boot
      [.call (.spawn 1), .cont none, .cont none, .cont none, .cont none, .cont none,
        .timer false]).any (fun r => !r.1.intr &&
          r.1.code == some [.lock .scheduler, .unlock .scheduler, .iret]) = true := by decide
  obtain ⟨r, hr, hp⟩ := (Option.any_eq_true _ _).mp hex
  simp only [Bool.and_eq_true, Bool.not_eq_true', beq_iff_eq] at hp
  have h : ClearRun r.2 r.1 := run_of_exec _ hr
  exact ⟨r.2, r.1, h, hp.1, hp.2, (no_self_deadlock _ _).1 h⟩

/-- Three runs into a wait that never ends: a tick inside `spawn`; a key while `/dev/kbd` is read;
    an exit while the task that was preempted in favour of it is allocating. -/
theorem self_deadlock :
    (∃ (es : List Unit) (s : Locks), Run Locks.step anyStep Locks.boot es s ∧ s.Stuck ∧
      s.code = some [.lock .scheduler, .unlock .scheduler, .iret, .lock .heap, .unlock .heap,
        .create, .unlock .scheduler]) ∧
    (∃ (es : List Unit) (s : Locks), Run Locks.step anyStep Locks.boot es s ∧ s.Stuck ∧
      s.code = some [.lock .keyboard, .unlock .keyboard, .iret, .unlock .keyboard]) ∧
    ∃ (es : List Unit) (s : Locks), Run Locks.step anyStep Locks.boot es s ∧ s.Stuck ∧
      s.code = some [.lock .heap, .unlock .heap, .unlock .scheduler, .leave] ∧
      s.owner .heap = some 1 ∧ s.cur = 2 := by
  have hrun : ∀ (as : List LockAction) (p : Locks → Bool),
      (exec Locks.step (fun _ _ => true) Locks.boot as).any (fun r => p r.1) = true →
      ∃ es s, Run Locks.step anyStep Locks.boot es s ∧ p s = true := by
    intro as p h
    obtain ⟨r, hr, hp⟩ := (Option.any_eq_true _ _).mp h
    exact ⟨r.2, r.1, (run_of_exec as hr).any, hp⟩
  refine ⟨?_, ?_, ?_⟩
  · obtain ⟨es, s, h, hp⟩ := hrun [.call (.spawn 1), .cont none, .timer false]
      (fun s => s.stuck && s.code == some [.lock .scheduler, .unlock .scheduler, .iret, .lock .heap,
        .unlock .heap, .create, .unlock .scheduler]) (by decide)
    simp only [Bool.and_eq_true, beq_iff_eq] at hp
    exact ⟨es, s, h, stuck_iff.mp hp.1, hp.2⟩
  · obtain ⟨es, s, h, hp⟩ := hrun [.call (.readKbd 1), .cont none, .keyboard 0]
      (fun s => s.stuck &&
        s.code == some [.lock .keyboard, .unlock .keyboard, .iret, .unlock .keyboard]) (by decide)
    simp only [Bool.and_eq_true, beq_iff_eq] at hp
    exact ⟨es, s, h, stuck_iff.mp hp.1, hp.2⟩
  · obtain ⟨es, s, h, hp⟩ := hrun
      [.call (.spawn 1), .cont none, .cont none, .cont none, .cont none, .cont none,
        .call (.spawn 1), .cont none, .cont none, .cont none, .cont none, .cont none,
        .call (.start true), .cont none, .cont none, .cont none, .cont none, .cont none,
        .cont (some 1), .cont none, .cont none, .cont none,
        .call (.allocate 1), .cont none, .timer true, .cont none, .cont none, .cont none,
        .cont none, .cont (some 2), .cont none, .cont none, .cont none, .exit 1, .cont none]
      (fun s => s.stuck &&
        s.code == some [.lock .heap, .unlock .heap, .unlock .scheduler, .leave] &&
        s.owner .heap == some 1 && s.cur == 2) (by decide)
    simp only [Bool.and_eq_true, beq_iff_eq] at hp
    exact ⟨es, s, h, stuck_iff.mp hp.1.1.1, hp.1.1.2, hp.1.2, hp.2⟩

end SimpleLinux
