/-
  File:      SimpleLinux/Process/LockOrder.lean
  Subject:   All locks of the kernel: who takes what under what.

  Once `start()` has handed the CPU to the first task, whatever a task calls takes spin locks: the
  table of descriptors is held across the read or write of the file, which may go through the socket
  table, the ARP cache and the card; a delivery to a socket prints under the lock of the sockets.
  Here every function that a task can call is the shape of its critical sections, in the order of
  the source. What is left open: how often it allocates or frees (`alloc`), which way its tests go,
  whom the scheduler picks. `PIC` is not here: only the handlers take it, with interrupts disabled.

  * `Lock`, `rank` -- the locks, and the order in which they may be nested;
  * `Entry` -- what a task can call; `Entry.ordered` -- **all of it respects the order**;
  * `KernelAction` -- with the scheduler's own functions, the exit of a task and the two handlers;
  * `locks_given_back` -- in every run whose steps meet the condition `clear`, all locks can be
    given back by ticks and the code that is already there;
  * `scheduler_section_deadlock` -- a task that takes `SCHEDULER` to allocate under it while another
    task was preempted in the allocator stops the kernel for good, with interrupts enabled.
-/
import SimpleLinux.Lib.Release

namespace SimpleLinux.LockOrder

open Runs Spin

/-! ## 1. The locks -/

inductive Lock where
  | scheduler | fdTable | mounts
  /-- `children` of an initrd inode -/
  | children (node : Nat)
  | sockets
  /-- `CACHE` of net/arp.rs -/
  | cache
  | nic | keyboard | frameAllocator | serial | heap
  deriving DecidableEq, Repr

/-- A lock is taken under locks of a lower rank only. -/
def rank : Lock → Nat
  | .scheduler | .fdTable => 0
  | .mounts | .children _ | .sockets | .cache | .nic | .keyboard | .frameAllocator => 1
  | .serial | .heap => 2

abbrev Code := Shape Lock

/-- One lock, taken and released. -/
def use (l : Lock) : Code := .crit l .skip

/-- Any number of uses of the global allocator. -/
def alloc : Code := .many (use .heap)

/-! ## 2. serial.rs, memory/, drivers/ -/

/-- `_print`; the arguments of `println!` are evaluated before. -/
def print : Code := use .serial

def writeBytes : Code := use .serial

/-- `FRAME_ALLOCATOR.lock().free_count()` -/
def freeCount : Code := use .frameAllocator

def usedBytes : Code := use .heap

def freeBytes : Code := use .heap

def totalBytes : Code := use .heap

def readKey : Code := use .keyboard

def handleScancode : Code := .crit .keyboard alloc

def inject : Code := .many handleScancode

def injectStr : Code := .crit .keyboard alloc

/-- `our_mac` -/
def macAddress : Code := use .nic

def e1000Send : Code := use .nic

def pollReceive : Code := .crit .nic alloc

def rxDebug : Code := .crit .nic (.maybe (.steps [print, print]))

/-! ## 3. net/ -/

/-- The frame is allocated, and freed once it is sent. -/
def transmitEthernet : Code := .steps [macAddress, alloc, e1000Send, alloc]

namespace Arp

def remember : Code := .crit .cache alloc

def lookup : Code := use .cache

def table : Code := .crit .cache alloc

def request : Code := .steps [macAddress, alloc, transmitEthernet, print, alloc]

def handle : Code :=
  .maybe (.steps [remember, alloc, print, alloc,
    .maybe (.steps [macAddress, alloc, transmitEthernet, macAddress, alloc, print, alloc])])

end Arp

def nextHopMac : Code := .steps [Arp.lookup, .maybe Arp.lookup]

def Ip.send : Code := .steps [alloc, nextHopMac, transmitEthernet, alloc]

namespace Socket

def socket : Code := .crit .sockets alloc

def bind : Code := use .sockets

def connect : Code := use .sockets

def close : Code := .crit .sockets alloc

def recvfrom : Code := .crit .sockets alloc

/-- The message of `deliver` is printed under the lock. -/
def deliver : Code := .crit .sockets (.steps [alloc, .maybe print])

def info : Code := .crit .sockets alloc

end Socket

def Icmp.handle : Code := .maybe (.either (.steps [print, alloc, Ip.send, alloc]) print)

def Icmp.ping : Code := .steps [alloc, print, Ip.send, alloc]

def Udp.send : Code := .steps [alloc, Ip.send, alloc]

def Udp.handle : Code := .maybe (.steps [print, Socket.deliver])

def Tcp.handle : Code := .maybe (.steps [print, .maybe (.steps [alloc, Ip.send, print, alloc])])

def Ip.handle : Code :=
  .either print (.steps [alloc, print, alloc,
    .either Icmp.handle (.either Udp.handle (.either Tcp.handle print))])

def Ethernet.handle : Code := .maybe (.either Arp.handle (.either Ip.handle print))

def pump : Code := .steps [.many (.steps [pollReceive, Ethernet.handle, alloc]), .maybe pollReceive]

def Socket.sendto : Code := .steps [use .sockets, .maybe (.steps [use .sockets, Udp.send])]

/-! ## 4. fs/ -/

/-- `find_child` of an initrd inode, or a new inode of devfs or procfs. -/
def lookup (node : Nat) : Code := .either (use (.children node)) alloc

/-- One step of the walk; the inode before it may go. -/
def walk (nodes : List Nat) : Code := .steps (nodes.map fun node => .steps [lookup node, alloc])

def longestMount : Code := use .mounts

def resolve (nodes : List Nat) : Code :=
  .maybe (.steps [longestMount, .maybe (.steps [alloc, walk nodes, alloc])])

def listInode (node : Nat) : Code := .maybe (.either (.crit (.children node) alloc) alloc)

def meminfo : Code := .steps [freeCount, totalBytes, usedBytes, freeBytes, alloc]

def uptime : Code := alloc

def procRead : Code := .steps [.either meminfo uptime, alloc]

def kbdRead : Code := .many readKey

def socketWrite : Code := .steps [use .sockets, .maybe Socket.sendto]

/-- `Inode::read`: console, null, zero, a ramdisk file and a directory take nothing. -/
def inodeRead : Code := .maybe (.either kbdRead (.either procRead Socket.recvfrom))

/-- `Inode::write` -/
def inodeWrite : Code := .maybe (.either writeBytes socketWrite)

/-- A file that finds no descriptor is dropped after the lock is released. -/
def install : Code := .steps [.crit .fdTable alloc, alloc]

def openPath (nodes : List Nat) : Code := .steps [resolve nodes, .maybe install]

def read : Code := .crit .fdTable inodeRead

def write : Code := .crit .fdTable inodeWrite

def close : Code := .crit .fdTable alloc

def sockIndex : Code := use .fdTable

def listDir (nodes : List Nat) (node : Nat) : Code :=
  .steps [resolve nodes, .maybe (.steps [listInode node, alloc])]

/-! ## 5. What a task can call -/

def taskCount : Code := use .scheduler

/-- The list of the tasks is collected under the lock. -/
def snapshot : Code := .crit .scheduler alloc

inductive Entry where
  | allocate | print | freeCount | usedBytes | freeBytes | totalBytes
  | inject | injectStr | macAddress | send | pollReceive | rxDebug
  | arpLookup | arpTable | arpRequest | nextHopMac | ipSend | ping | pump
  | ethernetHandle | arpHandle | ipHandle | icmpHandle | udpHandle | tcpHandle
  | socket | bind | connect | closeSocket | recvfrom | deliver | info
  | resolve (nodes : List Nat)
  | openPath (nodes : List Nat)
  | listDir (nodes : List Nat) (node : Nat)
  | installInode | read | write | close | sockIndex
  | taskCount | snapshot

def Entry.code : Entry → Code
  | .allocate => alloc
  | .print => LockOrder.print
  | .freeCount => LockOrder.freeCount
  | .usedBytes => LockOrder.usedBytes
  | .freeBytes => LockOrder.freeBytes
  | .totalBytes => LockOrder.totalBytes
  | .inject => LockOrder.inject
  | .injectStr => LockOrder.injectStr
  | .macAddress => LockOrder.macAddress
  | .send => e1000Send
  | .pollReceive => LockOrder.pollReceive
  | .rxDebug => LockOrder.rxDebug
  | .arpLookup => Arp.lookup
  | .arpTable => Arp.table
  | .arpRequest => Arp.request
  | .nextHopMac => LockOrder.nextHopMac
  | .ipSend => Ip.send
  | .ping => Icmp.ping
  | .pump => LockOrder.pump
  | .ethernetHandle => Ethernet.handle
  | .arpHandle => Arp.handle
  | .ipHandle => Ip.handle
  | .icmpHandle => Icmp.handle
  | .udpHandle => Udp.handle
  | .tcpHandle => Tcp.handle
  | .socket => Socket.socket
  | .bind => Socket.bind
  | .connect => Socket.connect
  | .closeSocket => Socket.close
  | .recvfrom => Socket.recvfrom
  | .deliver => Socket.deliver
  | .info => Socket.info
  | .resolve nodes => LockOrder.resolve nodes
  | .openPath nodes => LockOrder.openPath nodes
  | .listDir nodes node => LockOrder.listDir nodes node
  | .installInode => install
  | .read => LockOrder.read
  | .write => LockOrder.write
  | .close => LockOrder.close
  | .sockIndex => LockOrder.sockIndex
  | .taskCount => LockOrder.taskCount
  | .snapshot => LockOrder.snapshot

theorem ordered_walk (nodes : List Nat) : (walk nodes).ordered rank 1 = true := by
  rw [walk, Shape.ordered_steps, List.all_map, List.all_eq_true]
  exact fun _ _ => rfl

theorem ordered_resolve (nodes : List Nat) : (resolve nodes).ordered rank 0 = true := by
  have hwalk := (Shape.ordered_mono (Nat.zero_le 1)) (ordered_walk nodes)
  simp only [resolve, Shape.maybe, Shape.steps, Shape.ordered, hwalk]
  rfl

/-- **Every entry respects the order.** -/
theorem Entry.ordered (e : Entry) : e.code.ordered rank 0 = true := by
  cases e with
  | resolve nodes => exact ordered_resolve nodes
  | openPath nodes =>
    simp only [code, LockOrder.openPath, Shape.steps, Shape.ordered, ordered_resolve nodes]
    rfl
  | listDir nodes node =>
    simp only [code, LockOrder.listDir, Shape.steps, Shape.ordered, ordered_resolve nodes]
    rfl
  | _ => rfl

/-! ## 6. The scheduler, the exit of a task, the handlers -/

/-- `schedule()` from own code. -/
def scheduleCode : List (Op Lock) :=
  [.cli, .lock .scheduler, .unlock .scheduler, .switch, .sti]

/-- `timer_interrupt_handler`: `tick`, and `schedule()` if it preempts. -/
def timerCode : Bool → List (Op Lock)
  | true => tickCode .scheduler 2
  | false => brackets .scheduler 1 ++ [.iret]

/-- `current_task_body` up to the call of the closure: what a fresh task executes first. -/
def freshCode : List (Op Lock) := [.lock .scheduler, .unlock .scheduler, .sti]

/-- What can happen next. -/
inductive KernelAction : Action Lock → Prop where
  | entry (e : Entry) {code : List (Op Lock)} (h : e.code.Does code) : KernelAction (.call code)
  /-- the closure, the stack and the slot are allocated under the lock -/
  | spawn {code code' : List (Op Lock)} (h : alloc.Does code) (h' : alloc.Does code') :
      KernelAction (.call (.lock .scheduler :: (code ++
        .create :: (code' ++ [.unlock .scheduler]))))
  | yieldNow : KernelAction (.call scheduleCode)
  | sleep : KernelAction (.call (.lock .scheduler :: .unlock .scheduler :: scheduleCode))
  /-- `join` of a task that is gone -/
  | joinDone : KernelAction (.call (brackets .scheduler 1))
  | join : KernelAction (.call (brackets .scheduler 2 ++ scheduleCode))
  /-- the dead task's stack is freed under the lock -/
  | exit {code : List (Op Lock)} (h : alloc.Does code) :
      KernelAction (.quit (.lock .scheduler :: (code ++ [.unlock .scheduler, .leave])))
  | timer (preempts : Bool) : KernelAction (.irq (timerCode preempts))
  /-- `keyboard_interrupt_handler` -/
  | keyboard {code : List (Op Lock)} (h : handleScancode.Does code) :
      KernelAction (.irq (code ++ [.iret]))
  | cont (next : Option Nat) : KernelAction (.cont next)

theorem KernelAction.fits {a : Action Lock} (h : KernelAction a) : Static rank .scheduler a := by
  have hnone : ∀ {k : Nat}, ∀ l ∈ ([] : List Lock), rank l < k := fun _ hl => nomatch hl
  have hone : ∀ l ∈ [Lock.scheduler], rank l < 1 := by decide
  cases h with
  | entry e h =>
    have hnil : Own rank .scheduler true [] [] := ⟨rfl, rfl⟩
    have hown := own_append h e.ordered hnone hnil
    rwa [List.append_nil] at hown
  | spawn h h' =>
    refine ⟨hnone, (nomatch ·), own_append h (k := 1) rfl hone ?_⟩
    exact own_append h' (k := 1) rfl hone ⟨[], rfl, rfl, rfl⟩
  | yieldNow => simp [Static, scheduleCode, Own]
  | sleep => simp [Static, scheduleCode, Own]
  | joinDone => simp [Static, brackets, Own]
  | join => simp [Static, brackets, scheduleCode, Own]
  | exit h =>
    exact ⟨List.not_mem_nil, masked_append h (k := 1) rfl hone ⟨[], rfl, rfl, rfl⟩⟩
  | timer preempts =>
    cases preempts with
    | true =>
      refine ⟨⟨brackets .scheduler 2 ++ [.switch], rfl⟩, fun H rest hH hrest => ?_⟩
      have hx : .scheduler ∉ H := fun hmem => hH _ hmem List.mem_cons_self
      exact ⟨List.not_mem_nil, [], rfl, List.not_mem_nil, [], rfl, rfl, hx, hrest⟩
    | false =>
      exact ⟨⟨brackets .scheduler 1, rfl⟩, fun H rest _ hrest =>
        ⟨List.not_mem_nil, [], rfl, rfl, hrest⟩⟩
  | @keyboard code h =>
    refine ⟨⟨code, rfl⟩, fun H rest _ hrest => ?_⟩
    rw [List.append_assoc]
    exact masked_append h (k := 0) rfl hnone ⟨rfl, hrest⟩
  | cont next => trivial

/-! ## 7. Whole runs -/

/-- `n` tasks that have not run yet, the `j`-th of them switched to by `start()`. -/
def started (n j : Nat) : State Lock :=
  { ctxs := List.replicate n (some freshCode), cur := j, intr := false, owner := fun _ => none }

/-- The runs of the kernel whose steps all meet the condition. -/
abbrev KernelRun (s : State Lock) (es : List Unit) (s' : State Lock) : Prop :=
  OrderedRun freshCode .scheduler KernelAction s es s'

/-- Ticks that preempt, and the code that is already there. -/
inductive Onward : Action Lock → Prop where
  | tick : Onward (.irq (timerCode true))
  | cont (next : Option Nat) : Onward (.cont next)

theorem Onward.kernel {a : Action Lock} (h : Onward a) : KernelAction a := by
  cases h with
  | tick => exact .timer true
  | cont next => exact .cont next

theorem own_fresh : Own rank .scheduler false [] freshCode := by
  simp [freshCode, Own]

theorem order_started {n j : Nat} (hj : j < n) : Order rank .scheduler (started n j) := by
  have hget : ∀ c, Slots.get (started n j).ctxs c = if c < n then some freshCode else none := by
    intro c
    by_cases h : c < n
    · simp [started, Slots.get, h]
    · simp [started, Slots.get, h]
  refine order_of_parked rfl ⟨freshCode, ?_⟩ (fun c code h => ?_) (fun h => ?_)
  · exact (hget j).trans (if_pos hj)
  · rw [hget] at h
    split at h
    · cases h
      refine ⟨[], ⟨List.nodup_nil, fun l => ⟨fun ho => ?_, fun hl => ?_⟩⟩, List.not_mem_nil,
        Or.inr ⟨rfl, own_fresh⟩⟩
      · cases ho
      · cases hl
    · cases h
  · cases h

/-- **The locks of the kernel are always given back.** In every run of any number of tasks that call
    anything in any order, preempted anywhere, in which interrupts are delivered and tasks exit only
    while the locks that are then taken are free, a task that exits hands the CPU over, and
    `SCHEDULER` is taken only while what is allocated under it can be: nobody waits with interrupts
    disabled or while holding `SCHEDULER`, and from every state some schedule, of ticks and the code
    that is already there, leads to one in which nobody holds a lock. -/
theorem locks_given_back {n j : Nat} (hj : j < n) {es : List Unit} {s : State Lock}
    (h : KernelRun (started n j) es s) :
    (∀ l rest, s.code = some (.lock l :: rest) → s.intr = false ∨ s.owner .scheduler = some s.cur →
      s.owner l = none) ∧
    ∃ s', OrderedRun freshCode .scheduler Onward s [] s' ∧ ∀ l, s'.owner l = none := by
  have hO := order_run own_fresh (fun _ => KernelAction.fits) (order_started hj) h
  refine ⟨fun l rest hc hfixed => hO.lock_free hc hfixed, ?_⟩
  have hrank : ∀ l, rank l ≤ 2 := by
    intro l
    cases l <;> simp [rank]
  exact hO.release (w := 3) own_fresh (Nat.le_refl 3) rfl hrank (fun _ ha => ha.kernel.fits) .cont
    .tick _ (Nat.le_refl _)

/-- An action with what makes it one of the kernel. -/
abbrev Act := { a : Action Lock // KernelAction a }

/-- The code that is already there goes on, `k` times. -/
def conts (k : Nat) : List Act := List.replicate k ⟨.cont none, .cont none⟩

/-- A tick hands the CPU over to context `next`. -/
def preempt (next : Nat) : List Act :=
  [⟨.irq (timerCode true), .timer true⟩] ++ conts 4 ++ [⟨.cont (some next), .cont (some next)⟩]

theorem run_of_acts (acts : List Act) {s s' : State Lock} {es : List Unit}
    (h : exec (fun s (a : Act) => step freshCode s a.1) (fun s a => clear .scheduler s a.1) s acts =
      some (s', es)) : KernelRun s es s' :=
  (run_of_exec acts h).image fun _ a hok => ⟨a.2, hok⟩

theorem does_use (l : Lock) : (use l).Does [.lock l, .unlock l] := .crit .skip

theorem does_alloc : alloc.Does [.lock .heap, .unlock .heap] := .again (does_use .heap) .done

/-- A write to the console, preempted while it holds two locks, and a read by another task that
    waits for the table of descriptors. -/
theorem locks_given_back_waiting :
    ∃ (es : List Unit) (s : State Lock), KernelRun (started 2 0) es s ∧
    s.code = some [.lock .fdTable, .unlock .fdTable] ∧ s.owner .fdTable = some 0 ∧
    s.owner .serial = some 0 ∧
    ∃ s', OrderedRun freshCode .scheduler Onward s [] s' ∧ ∀ l, s'.owner l = none := by
  have hwrite : Entry.write.code.Does
      [.lock .fdTable, .lock .serial, .unlock .serial, .unlock .fdTable] :=
    .crit (.right (.left (does_use .serial)))
  have hread : Entry.read.code.Does [.lock .fdTable, .unlock .fdTable] := .crit (.left .skip)
  have hexec : exec (fun s (a : Act) => step freshCode s a.1) (fun s a => clear .scheduler s a.1)
      (started 2 0) (conts 3 ++ [⟨_, .entry .write hwrite⟩] ++ conts 2 ++ preempt 1 ++ conts 3 ++
        [⟨_, .entry .read hread⟩]) = some (_, _) := rfl
  have hrun := run_of_acts _ hexec
  exact ⟨_, _, hrun, rfl, rfl, rfl, (locks_given_back (by decide) hrun).2⟩

/-! ## 8. The section that stops the kernel -/

/-- What a handler or a spawning task waits for in vain. -/
def stopped : Lock → Bool
  | .scheduler | .heap => true
  | _ => false

theorem alloc_cases {code : List (Op Lock)} (h : alloc.Does code) :
    code = [] ∨ ∃ r, code = .lock .heap :: r := by
  cases h with
  | done => exact Or.inl rfl
  | again h hs =>
    cases h with
    | crit h => exact Or.inr ⟨_, rfl⟩

theorem hopeless_irq {code r : List (Op Lock)} (h : KernelAction (.irq code))
    (hr : hopeless stopped r = true) : hopeless stopped (code ++ r) = true := by
  cases h with
  | timer preempts =>
    cases preempts with
    | true => rfl
    | false => rfl
  | keyboard h =>
    cases h with
    | crit h =>
      rcases alloc_cases h with rfl | ⟨r', rfl⟩
      · exact hr
      · rfl

/-- **An allocation under `SCHEDULER` can stop the kernel, with interrupts enabled.** If a task
    takes `SCHEDULER` and then needs the heap while another one owns it (it was preempted in the
    allocator), then whatever the timer, the keyboard and the tasks do, no other task ever executes
    again and both locks stay owned: the tick that would have to preempt the waiting task takes
    `SCHEDULER` itself. -/
theorem scheduler_section_deadlock {s s₁ s' : State Lock} {rest : List (Op Lock)} {c : Nat}
    {next : Option Nat} {es es' : List Unit}
    (hc : s.code = some (.lock .scheduler :: .lock .heap :: rest))
    (hfree : s.owner .scheduler = none)
    (hheap : s.owner .heap = some c) (hstep : step freshCode s (.cont next) = some (s₁, es))
    (h : Run (step freshCode) (fun _ a => KernelAction a) s₁ es' s') :
    s'.cur = s.cur ∧ s'.owner .scheduler = some s.cur ∧ s'.owner .heap = some c := by
  rw [step_cont freshCode hc rfl, State.exec, if_pos (free_iff.mpr hfree)] at hstep
  cases hstep
  have howner : ∀ l, stopped l = true →
      ((s.setCode (.lock .heap :: rest)).setOwner .scheduler (some s.cur)).owner l ≠ none := by
    intro l hl
    cases l with
    | scheduler => exact Option.some_ne_none _
    | heap =>
      show s.owner .heap ≠ none
      rw [hheap]
      exact Option.some_ne_none _
    | _ => cases hl
  have hcode : ((s.setCode (.lock .heap :: rest)).setOwner .scheduler (some s.cur)).code =
      some (.lock .heap :: rest) := code_setCode hc _
  obtain ⟨hcur, hown⟩ := doomed_run (fun _ _ ha _ hr => hopeless_irq ha hr) hcode rfl howner h
  exact ⟨hcur, hown .scheduler rfl, (hown .heap rfl).trans hheap⟩

/-- A task preempted in the allocator, and another one that spawns: a run whose steps all met the
    condition, and what every run from there on ends in. -/
theorem scheduler_section_deadlock_spawn : ∃ (es : List Unit) (s s₁ : State Lock),
    KernelRun (started 2 0) es s ∧ step freshCode s (.cont none) = some (s₁, []) ∧
    s₁.intr = true ∧
    ∀ es' s', Run (step freshCode) (fun _ a => KernelAction a) s₁ es' s' →
      s'.cur = 1 ∧ s'.owner .scheduler = some 1 ∧ s'.owner .heap = some 0 := by
  have hex : (exec (fun s (a : Act) => step freshCode s a.1) (fun s a => clear .scheduler s a.1)
      (started 2 0) (conts 3 ++ [⟨_, .entry .allocate does_alloc⟩] ++ conts 1 ++ preempt 1 ++
        conts 3 ++ [⟨_, .spawn does_alloc .done⟩])).any (fun r =>
          r.1.code == some [.lock .scheduler, .lock .heap, .unlock .heap, .create,
            .unlock .scheduler] &&
          r.1.owner .scheduler == none && r.1.owner .heap == some 0 && r.1.cur == 1 && r.1.intr) =
      true := rfl
  obtain ⟨r, hr, hp⟩ := (Option.any_eq_true _ _).mp hex
  simp only [Bool.and_eq_true, beq_iff_eq] at hp
  obtain ⟨⟨⟨⟨hc, hfree⟩, hheap⟩, hcur⟩, hi⟩ := hp
  refine ⟨r.2, r.1, _, run_of_acts _ hr, step_cont freshCode hc rfl, ?_, fun es' s' h => ?_⟩
  · rw [State.exec, if_pos (free_iff.mpr hfree)]
    exact hi
  · have hstop := scheduler_section_deadlock hc hfree hheap (step_cont freshCode hc rfl) h
    rwa [hcur] at hstop

end SimpleLinux.LockOrder
