/-
  File:      SimpleLinux/Process/Task.lean
  Subject:   Tasks (process/task.rs) and the places at which a context of the kernel can stand.

  A task is its identity, its state, why it is blocked, its time slice, whether its closure is
  still there, and its saved context. The source's `TaskContext` is a stack pointer: what it MEANS
  is the code `__switch` returns into when it loads it, and that is what `Context` records.

  Interrupts can fall between any two instructions, but only the critical sections and the clock
  are shared; so a context's own code is cut at those (`Pos`), and an interrupt falls at a `Pos`.
-/
import Mathlib.Algebra.GroupWithZero.Nat
import Mathlib.Data.List.Basic
import Mathlib.Tactic.Common

namespace SimpleLinux

/-- `TaskId(u32)`; that a handed-out id fits is `Scheduler.add`'s overflow check. -/
abbrev TaskId := Nat

/-- `TaskState`. -/
inductive TaskState where
  | ready | running | blocked | zombie
  deriving DecidableEq, Repr

/-- `BlockReason`. -/
inductive BlockReason where
  | none
  | sleep (wakeAt : Nat)
  | join (id : TaskId)
  deriving DecidableEq, Repr

/-- Who called `schedule()` with interrupts enabled. A `sleep` call keeps the tick count at which
    it was made (`called`) and its argument. -/
inductive Caller where
  | yield
  | bootYield
  | sleep (called n : Nat)
  | join (id : TaskId)
  deriving DecidableEq, Repr

/-- Where a context stands in its own code, outside every critical section, interrupts enabled. -/
inductive Pos where
  /-- `kernel_main`, before `start()` -/
  | boot
  /-- in `start()`: `next_ready()` has answered, interrupts are not yet disabled -/
  | starting (idx : Nat)
  /-- the `hlt` loop of `idle()` -/
  | idle
  /-- the task's own closure -/
  | body
  /-- in `sleep(n)`, before `timer::ticks()` is read -/
  | sleepClock (called n : Nat)
  /-- in `sleep(n)`, before the section that marks the caller Blocked -/
  | sleepMark (called n wake : Nat)
  /-- in `join(id)`, before the section that looks whether `id` is done -/
  | joinCheck (id : TaskId)
  /-- in `join(id)`, between the two sections -/
  | joinMark (id : TaskId)
  /-- in `schedule()`, before `interrupts::disable()` -/
  | sched (c : Caller)
  /-- the call is over and about to return to the code that made it -/
  | ret (c : Caller)
  /-- the `hlt` loop of the panic handler -/
  | panicked
  deriving DecidableEq, Repr

/-- What `schedule()` returns to: a blocking call, or the timer handler that interrupted `p`. -/
inductive Ret where
  | caller (c : Caller)
  | tick (p : Pos)
  deriving DecidableEq, Repr

/-- A saved context: what `__switch` returns into when it loads it. -/
inductive Context where
  /-- a fresh stack: `task_trampoline` -/
  | trampoline
  /-- inside `schedule()`, after `__switch` -/
  | schedule (wasEnabled : Bool) (ret : Ret)
  deriving DecidableEq, Repr

/-- `Task`. The stack buffer itself is not here; `func` says whether the closure is still owned. -/
structure Task where
  id : TaskId
  state : TaskState
  block : BlockReason
  ctx : Context
  slice : Nat
  func : Bool
  deriving DecidableEq, Repr

/-- `Task::new`. -/
def Task.new (id : TaskId) (slice : Nat) : Task where
  id := id
  state := .ready
  block := .none
  ctx := .trampoline
  slice := slice
  func := true

/-- `t.state == TaskState::Ready`. -/
def Task.isReady (t : Task) : Bool := t.state == .ready

@[simp] theorem Task.isReady_iff (t : Task) : t.isReady = true ↔ t.state = .ready := by
  simp [Task.isReady]

end SimpleLinux
