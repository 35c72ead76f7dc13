/-
  File:      SimpleLinux/Syscall/UserMode.lean
  Subject:   User mode: `enter_user_asm`, the `int 0x80` entry and the return of an exiting program.

  The assembly of `syscall/mod.rs` is the code itself, as lists of instructions. Around it stand the
  parts that are compiled: the `sys_*` functions and the exit branch of `syscall_dispatch` are
  functions of the state they start from, with any effect on memory. Neither contains `sti` or
  `cli`, so they leave the interrupt flag alone. A user program is a list of stretches, each any
  function of the CPU (interrupts taken in ring 3 included) that ends in an `int 0x80`.

  * `enterUserAsm`, `syscallEntry`, `syscallLeave`, `syscallReturnToKernel` -- the assembly;
  * `syscallDispatch`, `int80`, `userRun` -- one system call, and a program up to its exit;
  * `int80_transparent` -- a system call changes no register of the program but `rax`;
  * `Returns` -- what the System V ABI asks of the call of `enter_user_asm`.
-/
import SimpleLinux.Lib.X86

namespace SimpleLinux

open X86

/-! ## 1. The system calls -/

inductive SyscallNr
  | write | exit | open_ | read | close | socket | bind | connect
  deriving DecidableEq, Repr

namespace SyscallNr

def toWord : SyscallNr → Word
  | write => 1#64
  | exit => 2#64
  | open_ => 3#64
  | read => 4#64
  | close => 5#64
  | socket => 6#64
  | bind => 7#64
  | connect => 8#64

def all : List SyscallNr := [write, read, open_, close, socket, bind, connect, exit]

/-- The guards of the `match` in `syscall_dispatch`, in their order. -/
def ofWord (w : Word) : Option SyscallNr := all.find? fun nr => w == nr.toWord

theorem ofWord_eq_some {w : Word} {nr : SyscallNr} : ofWord w = some nr ↔ w = nr.toWord := by
  constructor
  · intro h
    have hw := List.find?_some h
    exact eq_of_beq hw
  · intro h
    subst h
    cases nr <;> decide

end SyscallNr

/-- `-3i64 as u64`, the result of an unknown call. -/
def enosys : Word := -3#64

/-- The fields of `SyscallFrame`, in ascending order of their addresses. -/
def frameRegs : List Reg :=
  [.rax, .rbx, .rcx, .rdx, .rsi, .rdi, .rbp, .r8, .r9, .r10, .r11, .r12, .r13, .r14, .r15]

/-- The address of the field `r` of the frame at `f`. -/
def frameField (f : Word) (r : Reg) : Word := f + BitVec.ofNat 64 (8 * frameRegs.idxOf r)

/-! ## 2. The linked kernel and its assembly -/

/-- What the linker, the TSS and the compiler decide. -/
structure Kernel where
  /-- the address of `USER_KERNEL_RSP` -/
  userKernelRsp : Word
  /-- `privilege_stack_table[0]` of the TSS, the top of `SYSCALL_STACK` -/
  rsp0 : Word
  /-- the addresses of `__syscall_entry`, of `syscall_dispatch` and of the instruction after the
      call -/
  entryAddr : Word
  dispatchAddr : Word
  dispatchNext : Word
  /-- the `sys_*` functions: from `rdi`, `rsi`, `rdx` and memory to the result and memory -/
  sys : SyscallNr → Word → Word → Word → Mem → Word × Mem
  /-- the registers with which the compiled `syscall_dispatch` returns -/
  scratch : Cpu → Reg → Word
  /-- the exit branch of the compiled `syscall_dispatch`, up to the jump to
      `syscall_return_to_kernel`: registers and memory there -/
  exitBranch : Cpu → (Reg → Word) × Mem

/-- The selector of the kernel's code segment. -/
def kernelCode : Word := 0x08#64

section Assembly

variable (k : Kernel)

/-- `enter_user_asm(entry: rdi, stack: rsi, cs: rdx, ss: rcx)`. -/
def enterUserAsm : List Instr :=
  [.lea .r11 k.userKernelRsp, .store .r11 .rsp,
    .push .rcx, .push .rsi, .pushImm 0x202#64, .push .rdx, .push .rdi, .iretq]

/-- `__syscall_entry` up to its call: `r15` is pushed first, so that `rax` ends lowest. -/
def syscallEntry : List Instr :=
  frameRegs.reverse.map .push ++ [.mov .rdi .rsp, .call k.dispatchAddr k.dispatchNext]

/-- `__syscall_entry` after its call. -/
def syscallLeave : List Instr := frameRegs.map .pop ++ [.iretq]

def syscallReturnToKernel : List Instr := [.load .rsp k.userKernelRsp, .ret]

/-- The program traps in state `u`: the state in which `syscall_dispatch` is entered. -/
def trapped (u : Cpu) : Cpu :=
  run (syscallEntry k) (intGate k.rsp0 k.entryAddr kernelCode u)

inductive Outcome
  /-- `syscall_dispatch` (or the whole trap) returns -/
  | back (c : Cpu)
  /-- the exit branch jumps to `syscall_return_to_kernel` -/
  | jump (c : Cpu)

/-- The state in which `syscall_dispatch` returns with the memory `m`. -/
def dispatchReturn (c : Cpu) (m : Mem) : Cpu :=
  { c with
    regs := Function.update (k.scratch c) .rsp (c.rsp + 8#64)
    rip := c.mem.read c.rsp
    mem := m }

def syscallDispatch (c : Cpu) : Outcome :=
  let arg r := c.mem.read (frameField (c.regs .rdi) r)
  match SyscallNr.ofWord (arg .rax) with
  | some .exit => .jump { c with regs := (k.exitBranch c).1, mem := (k.exitBranch c).2 }
  | some nr =>
    let res := k.sys nr (arg .rdi) (arg .rsi) (arg .rdx) c.mem
    .back (dispatchReturn k c (res.2.write (frameField (c.regs .rdi) .rax) res.1))
  | none => .back (dispatchReturn k c (c.mem.write (frameField (c.regs .rdi) .rax) enosys))

/-- One `int 0x80` of the program. -/
def int80 (u : Cpu) : Outcome :=
  match syscallDispatch k (trapped k u) with
  | .back c => .back (run syscallLeave c)
  | .jump c => .jump c

/-- The program from state `c` on: the state of its first exiting `int 0x80`, and the state in which
    `syscall_return_to_kernel` is then entered. -/
def userRun (c : Cpu) : List (Cpu → Cpu) → Option (Cpu × Cpu)
  | [] => none
  | p :: ps =>
    match int80 k (p c) with
    | .back c' => userRun c' ps
    | .jump e => some (p c, e)

/-- The call of `enter_user_asm` in state `c`, up to the entry of `syscall_return_to_kernel`. -/
def enterUser (c : Cpu) (us : List (Cpu → Cpu)) : Option (Cpu × Cpu) :=
  userRun k (run (enterUserAsm k) c) us

end Assembly

/-- The registers a System V function preserves, `rsp` apart. -/
def calleeSaved : List Reg := [.rbx, .rbp, .r12, .r13, .r14, .r15]

/-- `r` is the state in which a function called in state `c`, its return address on top of the
    stack, has returned by the System V ABI, with the interrupt flag as it was. -/
structure Returns (c r : Cpu) : Prop where
  rip : r.rip = c.mem.read c.rsp
  rsp : r.rsp = c.rsp + 8#64
  saved : ∀ q ∈ calleeSaved, r.regs q = c.regs q
  intr : r.intr = c.intr

/-! ## 3. The trap -/

section Trap

variable (k : Kernel) (u : Cpu)

/-- The ring-0 stack as the CPU aligns it. -/
def Kernel.top : Word := k.rsp0 &&& ~~~15#64

/-- The words a trap stacks before `syscall_dispatch` is called. -/
def trapWords : List Word := [u.ss, u.rsp, u.flags, u.cs, u.rip] ++ frameRegs.reverse.map u.regs

/-- The state after the pushes of `__syscall_entry`. -/
def framed : Cpu :=
  ((intGate k.rsp0 k.entryAddr kernelCode u).set .rsp (slot k.top 20)).withMem
    (u.mem.stack k.top (trapWords u))

theorem run_framed :
    run (frameRegs.reverse.map .push) (intGate k.rsp0 k.entryAddr kernelCode u) = framed k u := by
  have hrsp : .rsp ∉ frameRegs.reverse := by decide
  have hsaved : frameRegs.reverse.map (intGate k.rsp0 k.entryAddr kernelCode u).regs =
      frameRegs.reverse.map u.regs := by
    refine List.map_congr_left fun q hq => ?_
    have hne : q ≠ .rsp := fun e => hrsp (e ▸ hq)
    exact intGate_regs _ _ _ u hne
  rw [run_push _ _ hrsp, hsaved, intGate_rsp, slot_slot, intGate_mem, framed, trapWords,
    stack_append]
  rfl

theorem trapped_eq :
    trapped k u =
      (((framed k u).set .rdi (slot k.top 20)).push k.dispatchNext).goto k.dispatchAddr := by
  have hrsp : (framed k u).regs .rsp = slot k.top 20 := by
    rw [framed, Cpu.withMem_regs, Cpu.set_self]
  unfold trapped syscallEntry
  rw [run_append, run_framed, ← hrsp]
  rfl

theorem framed_rdi_rsp : ((framed k u).set .rdi (slot k.top 20)).rsp = slot k.top 20 := by
  rw [Cpu.set_keeps_rsp _ _ (by decide), framed, Cpu.withMem_rsp, Cpu.set_rsp]

/-- `syscall_dispatch` gets the frame's address. -/
theorem trapped_rdi : (trapped k u).regs .rdi = slot k.top 20 := by
  rw [trapped_eq, Cpu.goto_regs, Cpu.push_other _ _ (by decide), Cpu.set_self]

theorem trapped_rsp : (trapped k u).rsp = slot k.top 21 := by
  rw [trapped_eq, Cpu.goto_rsp, Cpu.push_rsp, framed_rdi_rsp, slot_slot]

theorem trapped_mem :
    (trapped k u).mem = u.mem.stack k.top (trapWords u ++ [k.dispatchNext]) := by
  rw [trapped_eq, Cpu.goto_mem, Cpu.push_mem, framed_rdi_rsp, stack_append]
  rfl

/-- The other registers are still those of the program. -/
theorem trapped_regs {q : Reg} (h : q ≠ .rsp) (hd : q ≠ .rdi) :
    (trapped k u).regs q = u.regs q := by
  rw [trapped_eq, Cpu.goto_regs, Cpu.push_other _ _ h, Cpu.set_other _ _ hd, framed,
    Cpu.withMem_regs, Cpu.set_other _ _ h, intGate_regs _ _ _ u h]

/-- The handler runs with interrupts disabled. -/
theorem trapped_intr : (trapped k u).intr = false := by
  rw [trapped_eq]
  exact intGate_intr k.rsp0 k.entryAddr kernelCode u

/-- Every word stacked by the trap is in its slot. -/
theorem trapped_read {n : Nat} {w : Word} (h : (trapWords u)[n]? = some w) :
    (trapped k u).mem.read (slot k.top (n + 1)) = w := by
  have hn : (trapWords u ++ [k.dispatchNext])[n]? = some w :=
    (List.getElem?_append_left (List.getElem?_eq_some_iff.mp h).1).trans h
  have hl : (trapWords u ++ [k.dispatchNext]).length < 2 ^ 32 := by
    show 21 < 2 ^ 32
    decide
  rw [trapped_mem]
  exact read_stack_slot _ _ _ hl hn

/-- The fields of the frame, the topmost twenty words of the stack being the frame and the context
    below it. -/
theorem frameField_top {q : Reg} (hq : q ∈ frameRegs) :
    frameField (slot k.top 20) q = slot k.top (19 - frameRegs.idxOf q + 1) := by
  have hlt : frameRegs.idxOf q < 15 := List.idxOf_lt_length_of_mem hq
  unfold frameField
  rw [slot_add _ (by omega)]
  congr 1
  omega

theorem trapWords_field {q : Reg} (hq : q ∈ frameRegs) :
    (trapWords u)[19 - frameRegs.idxOf q]? = some (u.regs q) := by
  cases q <;> first | rfl | exact absurd hq (by decide)

/-- The frame holds the program's registers. -/
theorem trapped_field {q : Reg} (hq : q ∈ frameRegs) :
    (trapped k u).mem.read (frameField (slot k.top 20) q) = u.regs q := by
  rw [frameField_top k hq]
  exact trapped_read k u (trapWords_field u hq)

/-- The result of the call and the memory it leaves; `none` for the exit branch. -/
def sysResult : Option (Word × Mem) :=
  match SyscallNr.ofWord (u.regs .rax) with
  | some .exit => none
  | some nr => some (k.sys nr (u.regs .rdi) (u.regs .rsi) (u.regs .rdx) (trapped k u).mem)
  | none => some (enosys, (trapped k u).mem)

/-- The state in which the exit branch enters `syscall_return_to_kernel`. -/
def exitState : Cpu :=
  { trapped k u with
    regs := (k.exitBranch (trapped k u)).1
    mem := (k.exitBranch (trapped k u)).2 }

/-- The state in which `syscall_dispatch` returns to the stub, with result `v` and memory `m`. -/
def beforePops (v : Word) (m : Mem) : Cpu :=
  dispatchReturn k (trapped k u) (m.write (slot k.top 20) v)

/-- The state in which the program goes on. -/
def resumed (v : Word) (m : Mem) : Cpu := run syscallLeave (beforePops k u v m)

/-- `int 0x80` is decided by the program's registers at the trap. -/
theorem int80_eq :
    int80 k u =
      match sysResult k u with
      | some (v, m) => .back (resumed k u v m)
      | none => .jump (exitState k u) := by
  have hrax : frameField (slot k.top 20) .rax = slot k.top 20 := frameField_top k (by decide)
  have hnr : (trapped k u).mem.read (slot k.top 20) = u.regs .rax :=
    trapped_read k u (n := 19) rfl
  unfold int80 syscallDispatch sysResult
  simp only [trapped_rdi, hrax, hnr, trapped_field k u (q := .rdi) (by decide),
    trapped_field k u (q := .rsi) (by decide), trapped_field k u (q := .rdx) (by decide)]
  cases SyscallNr.ofWord (u.regs .rax) with
  | none => rfl
  | some nr => cases nr <;> rfl

theorem sysResult_eq_none : sysResult k u = none ↔ u.regs .rax = SyscallNr.exit.toWord := by
  rw [← SyscallNr.ofWord_eq_some]
  unfold sysResult
  cases SyscallNr.ofWord (u.regs .rax) with
  | none => simp
  | some nr => cases nr <;> simp

end Trap

/-! ## 4. The way back to ring 3 -/

section Back

variable (k : Kernel) (u : Cpu) (v : Word) (m : Mem)

theorem beforePops_rsp : (beforePops k u v m).rsp = slot k.top 20 := by
  have hup : slot k.top 21 + 8#64 = slot k.top 20 := slot_add k.top (b := 1) (by decide)
  unfold beforePops dispatchReturn Cpu.rsp
  dsimp only
  rw [Function.update_self, ← Cpu.rsp, trapped_rsp, hup]

@[simp] theorem beforePops_mem : (beforePops k u v m).mem = m.write (slot k.top 20) v := rfl

theorem resumed_eq : resumed k u v m = (run (frameRegs.map .pop) (beforePops k u v m)).iretq := by
  unfold resumed syscallLeave
  rw [run_append, run_cons, run_nil]
  rfl

/-- The pops give every register the word of its field. -/
theorem resumed_field {q : Reg} (hq : q ∈ frameRegs) :
    (resumed k u v m).regs q = (m.write (slot k.top 20) v).read (frameField (slot k.top 20) q) := by
  have hne : q ≠ .rsp := fun e => absurd hq (e ▸ by decide)
  have hget : frameRegs[frameRegs.idxOf q]? = some q :=
    List.getElem?_eq_some_iff.mpr ⟨List.idxOf_lt_length_of_mem hq, List.getElem_idxOf _⟩
  have hpop := run_pop_get frameRegs (beforePops k u v m) (by decide) (by decide) hget
  rw [beforePops_rsp, beforePops_mem] at hpop
  rw [resumed_eq, Cpu.iretq_regs _ hne, hpop, frameField]

/-- `iretq` finds the context that the trap stacked. -/
theorem resumed_context :
    (resumed k u v m).rip = (m.write (slot k.top 20) v).read (slot k.top 5) ∧
      (resumed k u v m).cs = (m.write (slot k.top 20) v).read (slot k.top 4) ∧
      (resumed k u v m).flags = (m.write (slot k.top 20) v).read (slot k.top 3) ∧
      (resumed k u v m).rsp = (m.write (slot k.top 20) v).read (slot k.top 2) ∧
      (resumed k u v m).ss = (m.write (slot k.top 20) v).read (slot k.top 1) := by
  have hrsp : (run (frameRegs.map .pop) (beforePops k u v m)).rsp = slot k.top 5 := by
    rw [run_pop_rsp _ _ (by decide), beforePops_rsp]
    exact slot_add k.top (b := 15) (by decide)
  have h4 : slot k.top 5 + 8#64 = slot k.top 4 := slot_add k.top (b := 1) (by decide)
  have h3 : slot k.top 5 + 16#64 = slot k.top 3 := slot_add k.top (b := 2) (by decide)
  have h2 : slot k.top 5 + 24#64 = slot k.top 2 := slot_add k.top (b := 3) (by decide)
  have h1 : slot k.top 5 + 32#64 = slot k.top 1 := slot_add k.top (b := 4) (by decide)
  rw [resumed_eq]
  simp only [Cpu.iretq_rip, Cpu.iretq_cs, Cpu.iretq_flags, Cpu.iretq_rsp, Cpu.iretq_ss,
    run_pop_mem, beforePops_mem, hrsp, h4, h3, h2, h1, and_self]

variable {k u m}

/-- The memory `m` still holds the words stacked by the trap. -/
def KeepsFrame (k : Kernel) (u : Cpu) (m : Mem) : Prop :=
  ∀ n w, (trapWords u)[n]? = some w → m.read (slot k.top (n + 1)) = w

/-- The result overwrites the last of the stacked words only. -/
theorem KeepsFrame.read (h : KeepsFrame k u m) {n : Nat} {w : Word} (hn : n < 19)
    (hw : (trapWords u)[n]? = some w) :
    (m.write (slot k.top 20) v).read (slot k.top (n + 1)) = w := by
  have hapart : Apart (slot k.top (n + 1)) (slot k.top 20) :=
    slot_apart _ (by omega) (by decide)
  rw [read_write_apart _ _ hapart]
  exact h n w hw

/-- **A system call is transparent.** The program goes on where it trapped, with every register as
    it was but `rax`, which holds the result; provided the call leaves the stacked words alone. -/
theorem int80_transparent (hr : sysResult k u = some (v, m)) (h : KeepsFrame k u m) :
    ∃ c, int80 k u = .back c ∧ c.regs .rax = v ∧ (∀ q, q ≠ .rax → c.regs q = u.regs q) ∧
      c.rip = u.rip ∧ c.cs = u.cs ∧ c.flags = u.flags ∧ c.ss = u.ss := by
  obtain ⟨hrip, hcs, hflags, hrsp, hss⟩ := resumed_context k u v m
  have hrax : frameField (slot k.top 20) .rax = slot k.top 20 := frameField_top k (by decide)
  have hback : int80 k u = .back (resumed k u v m) := by rw [int80_eq, hr]
  refine ⟨_, hback, ?_, ?_, hrip.trans (h.read v (by decide) rfl),
    hcs.trans (h.read v (by decide) rfl), hflags.trans (h.read v (by decide) rfl),
    hss.trans (h.read v (by decide) rfl)⟩
  · rw [resumed_field k u v m (by decide), hrax, read_write_self]
  · intro q hq
    by_cases hsp : q = .rsp
    · subst hsp
      exact hrsp.trans (h.read v (by decide) rfl)
    · have hmem : q ∈ frameRegs := by
        cases q <;> first | decide | exact absurd rfl hsp
      have hpos : 0 < frameRegs.idxOf q := by
        cases q <;> first | decide | exact absurd rfl hq
      rw [resumed_field k u v m hmem, frameField_top k hmem]
      exact h.read v (by omega) (trapWords_field u hmem)

end Back

/-! ## 5. Whole programs -/

section Program

variable (k : Kernel)

/-- A program leaves user mode only by a call with `rax = 2`, and with the state its exit branch
    makes of that trap. -/
theorem userRun_eq_some {c u e : Cpu} {us : List (Cpu → Cpu)} (h : userRun k c us = some (u, e)) :
    u.regs .rax = SyscallNr.exit.toWord ∧ e = exitState k u := by
  induction us generalizing c with
  | nil => cases h
  | cons p ps ih =>
    unfold userRun at h
    rw [int80_eq] at h
    cases hres : sysResult k (p c) with
    | none =>
      rw [hres] at h
      cases h
      exact ⟨(sysResult_eq_none k (p c)).mp hres, rfl⟩
    | some r =>
      rw [hres] at h
      exact ih h

/-- What keeps the word at `a`: it lies off the ring-0 stack, and neither the program nor a
    system call writes it. -/
structure Keeps (us : List (Cpu → Cpu)) (a : Word) : Prop where
  stack : ∀ n, 0 < n → n ≤ 21 → Apart a (slot k.top n)
  user : ∀ p ∈ us, ∀ c : Cpu, (p c).mem.read a = c.mem.read a
  sys : ∀ nr x y z m, (k.sys nr x y z m).2.read a = m.read a
  exit : ∀ c : Cpu, (k.exitBranch c).2.read a = c.mem.read a

variable {k} {us : List (Cpu → Cpu)} {a : Word}

theorem Keeps.trapped (h : Keeps k us a) (u : Cpu) : (trapped k u).mem.read a = u.mem.read a := by
  rw [trapped_mem]
  exact read_stack_apart _ _ _ _ fun n hpos hle => h.stack n hpos hle

theorem Keeps.sysResult (h : Keeps k us a) {u : Cpu} {v : Word} {m : Mem}
    (hr : sysResult k u = some (v, m)) : m.read a = u.mem.read a := by
  unfold SimpleLinux.sysResult at hr
  split at hr
  · cases hr
  · have hm : _ = m := congrArg Prod.snd (Option.some.inj hr)
    rw [← hm]
    exact (h.sys ..).trans (h.trapped u)
  · cases hr
    exact h.trapped u

theorem Keeps.resumed (h : Keeps k us a) {u : Cpu} {v : Word} {m : Mem}
    (hr : SimpleLinux.sysResult k u = some (v, m)) :
    (resumed k u v m).mem.read a = u.mem.read a := by
  rw [resumed_eq, Cpu.iretq_mem, run_pop_mem, beforePops_mem,
    read_write_apart _ _ (h.stack 20 (by decide) (by decide))]
  exact h.sysResult hr

/-- A word that every part keeps is kept by the whole run. -/
theorem Keeps.userRun (h : Keeps k us a) {c u e : Cpu} (hr : userRun k c us = some (u, e)) :
    e.mem.read a = c.mem.read a := by
  induction us generalizing c with
  | nil => cases hr
  | cons p ps ih =>
    have hp : (p c).mem.read a = c.mem.read a := h.user p (List.mem_cons_self ..) c
    have hps : Keeps k ps a :=
      ⟨h.stack, fun q hq => h.user q (List.mem_cons_of_mem _ hq), h.sys, h.exit⟩
    unfold SimpleLinux.userRun at hr
    rw [int80_eq] at hr
    cases hres : SimpleLinux.sysResult k (p c) with
    | none =>
      rw [hres] at hr
      cases hr
      calc (exitState k (p c)).mem.read a
          = (SimpleLinux.trapped k (p c)).mem.read a := h.exit _
        _ = (p c).mem.read a := h.trapped _
        _ = c.mem.read a := hp
    | some r =>
      rw [hres] at hr
      calc e.mem.read a
          = (SimpleLinux.resumed k (p c) r.1 r.2).mem.read a := ih hps hr
        _ = (p c).mem.read a := h.resumed hres
        _ = c.mem.read a := hp

end Program

/-! ## 6. The call of `enter_user_asm` -/

section Call

variable {k : Kernel} {c u e : Cpu} {us : List (Cpu → Cpu)}

/-- The context that `enter_user_asm` stacks for its `iretq`. -/
def userContext (c : Cpu) : List Word :=
  [c.regs .rcx, c.regs .rsi, 0x202#64, c.regs .rdx, c.regs .rdi]

theorem enterUserAsm_mem (k : Kernel) (c : Cpu) :
    (run (enterUserAsm k) c).mem =
      (c.mem.write k.userKernelRsp c.rsp).stack c.rsp (userContext c) := by
  simp [enterUserAsm, userContext, exec, Mem.stack, slot_slot, Cpu.set_other, Cpu.push_other,
    Cpu.set_keeps_rsp]
  rfl

/-- Off each other and off the slots of the stack that `enter_user_asm` pushes, the two words
    through which the return goes are set up: the recorded stack pointer, and the return address. -/
theorem enterUserAsm_words (hU : ∀ n ≤ 5, Apart k.userKernelRsp (slot c.rsp n)) :
    (run (enterUserAsm k) c).mem.read k.userKernelRsp = c.rsp ∧
      (run (enterUserAsm k) c).mem.read c.rsp = c.mem.read c.rsp := by
  have hself : Apart k.userKernelRsp c.rsp := slot_zero c.rsp ▸ hU 0 (by decide)
  have hslots : ∀ n, 0 < n → n ≤ 5 → Apart c.rsp (slot c.rsp n) := by
    intro n hpos hle
    have h := slot_apart c.rsp hpos (by omega)
    rwa [slot_zero] at h
  rw [enterUserAsm_mem]
  constructor
  · refine (read_stack_apart _ _ _ (userContext c) fun n _ hle => hU n hle).trans ?_
    exact read_write_self _ _ _
  · refine (read_stack_apart _ _ _ (userContext c) hslots).trans ?_
    exact read_write_apart _ _ hself.symm

theorem enterUser_intr (h : enterUser k c us = some (u, e)) : e.intr = false := by
  unfold enterUser at h
  obtain ⟨-, he⟩ := userRun_eq_some k h
  have hflags : e.flags = (trapped k u).flags := by rw [he, exitState]
  have hintr : e.intr = (trapped k u).intr := congrArg (fun w : Word => w.getLsbD 9) hflags
  rw [hintr, trapped_intr]

/-- What `syscall_return_to_kernel` makes of the state it is entered in. -/
theorem returns_iff_of_intr (he : e.intr = false) :
    Returns c (run (syscallReturnToKernel k) e) ↔
      c.intr = false ∧ (∀ q ∈ calleeSaved, e.regs q = c.regs q) ∧
        e.mem.read k.userKernelRsp = c.rsp ∧ e.mem.read c.rsp = c.mem.read c.rsp := by
  have hrun : run (syscallReturnToKernel k) e =
      (e.set .rsp (e.mem.read k.userKernelRsp + 8#64)).goto
        (e.mem.read (e.mem.read k.userKernelRsp)) := by
    simp [syscallReturnToKernel, exec]
  have hsaved : ∀ q ∈ calleeSaved, (run (syscallReturnToKernel k) e).regs q = e.regs q := by
    intro q hq
    have hne : q ≠ .rsp := fun h => absurd hq (h ▸ by decide)
    rw [hrun, Cpu.goto_regs, Cpu.set_other _ _ hne]
  have hrip : (run (syscallReturnToKernel k) e).rip =
      e.mem.read (e.mem.read k.userKernelRsp) := by rw [hrun, Cpu.goto_rip]
  have hrsp : (run (syscallReturnToKernel k) e).rsp = e.mem.read k.userKernelRsp + 8#64 := by
    rw [hrun, Cpu.goto_rsp, Cpu.set_rsp]
  have hintr : (run (syscallReturnToKernel k) e).intr = false := by
    rw [hrun]
    exact he
  constructor
  · intro h
    have hU : e.mem.read k.userKernelRsp = c.rsp :=
      (BitVec.add_left_inj _).mp (hrsp.symm.trans h.rsp)
    refine ⟨h.intr.symm.trans hintr, fun q hq => (hsaved q hq).symm.trans (h.saved q hq), hU, ?_⟩
    have h := hrip.symm.trans h.rip
    rwa [hU] at h
  · intro h
    obtain ⟨hc, hregs, hU, hret⟩ := h
    refine ⟨?_, ?_, fun q hq => (hsaved q hq).trans (hregs q hq), hintr.trans hc.symm⟩
    · rw [hrip, hU, hret]
    · rw [hrsp, hU]

/-- **When the call of `enter_user_asm` returns by the ABI.** For every program and every sequence
    of system calls before its exit: iff the call was made with interrupts disabled, the exit branch
    has the caller's callee-saved registers when it jumps to `syscall_return_to_kernel`, and the
    recorded stack pointer and the return address are as `enter_user_asm` left them. If no part
    writes those two words and the exit branch leaves the callee-saved registers alone, this comes
    down to the interrupt flag at the call and to the registers with which the program exits. -/
theorem enter_user_returns_iff (h : enterUser k c us = some (u, e)) :
    (Returns c (run (syscallReturnToKernel k) e) ↔
      c.intr = false ∧ (∀ q ∈ calleeSaved, e.regs q = c.regs q) ∧
        e.mem.read k.userKernelRsp = c.rsp ∧ e.mem.read c.rsp = c.mem.read c.rsp) ∧
    ((∀ n ≤ 5, Apart k.userKernelRsp (slot c.rsp n)) →
      Keeps k us k.userKernelRsp → Keeps k us c.rsp →
      (∀ d : Cpu, ∀ q ∈ calleeSaved, (k.exitBranch d).1 q = d.regs q) →
      (Returns c (run (syscallReturnToKernel k) e) ↔
        c.intr = false ∧ ∀ q ∈ calleeSaved, u.regs q = c.regs q)) := by
  have hiff := returns_iff_of_intr (k := k) (c := c) (enterUser_intr h)
  refine ⟨hiff, ?_⟩
  intro hU hkU hkret hexit
  unfold enterUser at h
  obtain ⟨hword, hret⟩ := enterUserAsm_words hU
  have hwords : e.mem.read k.userKernelRsp = c.rsp ∧ e.mem.read c.rsp = c.mem.read c.rsp :=
    ⟨(hkU.userRun h).trans hword, (hkret.userRun h).trans hret⟩
  have hregs : ∀ q ∈ calleeSaved, e.regs q = u.regs q := by
    intro q hq
    have hne : q ≠ .rsp ∧ q ≠ .rdi := by
      constructor <;> exact fun e => absurd hq (e ▸ by decide)
    obtain ⟨-, he⟩ := userRun_eq_some k h
    calc e.regs q
        = (k.exitBranch (trapped k u)).1 q := by rw [he, exitState]
      _ = (trapped k u).regs q := hexit _ q hq
      _ = u.regs q := trapped_regs k u hne.1 hne.2
  rw [hiff]
  constructor
  · intro hr
    exact ⟨hr.1, fun q hq => (hregs q hq).symm.trans (hr.2.1 q hq)⟩
  · intro hr
    exact ⟨hr.1, fun q hq => (hregs q hq).trans (hr.2 q hq), hwords⟩

end Call

/-! ## 7. Two calls -/

/-- A kernel whose compiled parts touch neither memory nor the callee-saved registers. -/
def plainKernel : Kernel where
  userKernelRsp := 0x5000#64
  rsp0 := 0x8000#64
  entryAddr := 0x100#64
  dispatchAddr := 0x200#64
  dispatchNext := 0x110#64
  sys := fun _ _ _ _ m => (0#64, m)
  scratch := Cpu.regs
  exitBranch := fun c => (c.regs, c.mem)

/-- `run_user` calls `enter_user_asm`, with the return address `0x1234` on the stack. -/
def callState (flags : Word) : Cpu where
  regs
    | .rdi => 0x400000#64
    | .rsi => 0x500000#64
    | .rdx => 0x23#64
    | .rcx => 0x1b#64
    | .rsp => 0x7000#64
    | _ => 0#64
  rip := 0x1000#64
  cs := kernelCode
  ss := 0x10#64
  flags := flags
  mem := Mem.write (fun _ => 0#8) 0x7000#64 0x1234#64

/-- The program sets `rbx` and exits. -/
def exitWith (rbx : Word) : Cpu → Cpu := fun c => (c.set .rbx rbx).set .rax SyscallNr.exit.toWord

theorem enterUser_exitWith (k : Kernel) (c : Cpu) (w : Word) :
    enterUser k c [exitWith w] =
      some (exitWith w (run (enterUserAsm k) c),
        exitState k (exitWith w (run (enterUserAsm k) c))) := by
  have hres := (sysResult_eq_none k (exitWith w (run (enterUserAsm k) c))).mpr (Cpu.set_self ..)
  unfold enterUser userRun
  rw [int80_eq, hres]

/-- With interrupts enabled at the call, as in `kernel_main`, they are disabled after it; and with
    interrupts disabled, a program that used `rbx` has changed it for the caller. -/
theorem enter_user_breaks_abi :
    (∃ u e, enterUser plainKernel (callState 0x202#64) [exitWith 0#64] = some (u, e) ∧
      (callState 0x202#64).intr = true ∧
      (run (syscallReturnToKernel plainKernel) e).intr = false ∧
      ¬ Returns (callState 0x202#64) (run (syscallReturnToKernel plainKernel) e)) ∧
    ∃ u e, enterUser plainKernel (callState 0x2#64) [exitWith 7#64] = some (u, e) ∧
      (callState 0x2#64).regs .rbx = 0#64 ∧
      (run (syscallReturnToKernel plainKernel) e).regs .rbx = 7#64 ∧
      ¬ Returns (callState 0x2#64) (run (syscallReturnToKernel plainKernel) e) := by
  constructor
  · have hintr : (run (syscallReturnToKernel plainKernel) (exitState plainKernel
        (exitWith 0#64 (run (enterUserAsm plainKernel) (callState 0x202#64))))).intr = false := by
      decide +kernel
    refine ⟨_, _, enterUser_exitWith .., by decide, hintr, ?_⟩
    intro h
    exact absurd (hintr.symm.trans h.intr) (by decide)
  · have hrbx : (run (syscallReturnToKernel plainKernel) (exitState plainKernel
        (exitWith 7#64 (run (enterUserAsm plainKernel) (callState 0x2#64))))).regs .rbx = 7#64 := by
      decide +kernel
    refine ⟨_, _, enterUser_exitWith .., by decide, hrbx, ?_⟩
    intro h
    exact absurd (hrbx.symm.trans (h.saved .rbx (by decide))) (by decide)

/-- A word off the stacks, kept by the plain kernel and a program that writes no memory. -/
theorem keeps_plainKernel {us : List (Cpu → Cpu)} {a : Word}
    (hus : ∀ p ∈ us, ∀ c : Cpu, (p c).mem = c.mem)
    (h : ∀ n < 22, 0 < n → Apart a (slot plainKernel.top n)) : Keeps plainKernel us a where
  stack n hpos hle := h n (by omega) hpos
  user p hp c := by rw [hus p hp c]
  sys _ _ _ _ _ := rfl
  exit _ := rfl

/-- The call of a function that has something in all of its callee-saved registers. -/
def busyCall : Cpu :=
  { callState 0x2#64 with
    regs := fun q => if q ∈ calleeSaved then 0x77#64 else (callState 0x2#64).regs q }

/-- A program that writes a line and exits. -/
def writesAndExits : List (Cpu → Cpu) :=
  [fun c => c.set .rax SyscallNr.write.toWord, fun c => c.set .rax SyscallNr.exit.toWord]

theorem enter_user_returns_undisturbed :
    ∃ u e, enterUser plainKernel busyCall writesAndExits = some (u, e) ∧
      (∀ q ∈ calleeSaved, busyCall.regs q ≠ 0#64) ∧
      Returns busyCall (run (syscallReturnToKernel plainKernel) e) := by
  have hex : (enterUser plainKernel busyCall writesAndExits).any (fun r =>
      calleeSaved.all fun q => r.1.regs q == busyCall.regs q) = true := by decide +kernel
  obtain ⟨⟨u, e⟩, hrun, hregs⟩ := (Option.any_eq_true _ _).mp hex
  have hus : ∀ p ∈ writesAndExits, ∀ c : Cpu, (p c).mem = c.mem := by
    intro p hp c
    rcases List.mem_cons.mp hp with rfl | hp
    · rfl
    · cases List.mem_singleton.mp hp
      rfl
  have hiff := (enter_user_returns_iff hrun).2 (by decide) (keeps_plainKernel hus (by decide))
    (keeps_plainKernel hus (by decide)) (fun _ _ _ => rfl)
  refine ⟨u, e, hrun, by decide, hiff.mpr ⟨by decide, fun q hq => ?_⟩⟩
  exact beq_iff_eq.mp (List.all_eq_true.mp hregs q hq)

end SimpleLinux
