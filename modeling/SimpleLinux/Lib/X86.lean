/-
  File:      SimpleLinux/Lib/X86.lean
  Subject:   A fragment of the 64-bit x86 instruction set: the stack, the interrupt gate, `iretq`.

  Memory is byte addressed and total; a word is eight bytes, least significant first, and addresses
  wrap at 2^64. Straight-line code is a list of instructions; `rip` is written only by the
  instructions that transfer control.

  * `Mem.read`, `Mem.write`, `Apart` -- words in memory, and when two of them share no byte;
    `Within` -- runs of bytes;
  * `Mem.stack` -- a stack of words growing downwards, with its read-back and frame lemmas;
  * `Instr`, `exec`, `run` -- the instructions; `run_push`, `run_pop_get` -- runs of pushes and of
    pops;
  * `intGate` -- what the CPU does when ring 3 traps through an interrupt gate.
-/
import Mathlib.Algebra.GroupWithZero.Nat
import Mathlib.Logic.Function.Basic
import Mathlib.Tactic.Common

namespace X86

/-! ## 1. Memory -/

abbrev Word := BitVec 64

/-- Byte-addressed memory. -/
abbrev Mem := Word → BitVec 8

/-- The word at address `a`. -/
def Mem.read (m : Mem) (a : Word) : Word :=
  m (a + 7#64) ++ m (a + 6#64) ++ m (a + 5#64) ++ m (a + 4#64) ++ m (a + 3#64) ++ m (a + 2#64) ++
    m (a + 1#64) ++ m a

/-- Byte `i` of a word. -/
def byte (w : Word) (i : Nat) : BitVec 8 := w.extractLsb' (8 * i) 8

def Mem.write (m : Mem) (a w : Word) : Mem :=
  fun b => if (b - a).toNat < 8 then byte w (b - a).toNat else m b

/-- The words at `a` and `b` share no byte. -/
def Apart (a b : Word) : Prop := 8 ≤ (a - b).toNat ∧ 8 ≤ (b - a).toNat

instance (a b : Word) : Decidable (Apart a b) := inferInstanceAs (Decidable (_ ∧ _))

theorem bytes_eq (w : Word) :
    byte w 7 ++ byte w 6 ++ byte w 5 ++ byte w 4 ++ byte w 3 ++ byte w 2 ++ byte w 1 ++ byte w 0 =
      w := by
  simp only [byte, BitVec.extractLsb'_append_extractLsb'_eq_extractLsb']
  exact BitVec.extractLsb'_eq_self

/-- A word is read from its eight bytes. -/
theorem read_eq (m : Mem) (a : Word) (f : Nat → BitVec 8)
    (h : ∀ i < 8, m (a + BitVec.ofNat 64 i) = f i) :
    m.read a = f 7 ++ f 6 ++ f 5 ++ f 4 ++ f 3 ++ f 2 ++ f 1 ++ f 0 := by
  have h0 := h 0 (by decide)
  rw [BitVec.add_zero] at h0
  unfold Mem.read
  rw [h0, ← h 1 (by decide), ← h 2 (by decide), ← h 3 (by decide), ← h 4 (by decide),
    ← h 5 (by decide), ← h 6 (by decide), ← h 7 (by decide)]

/-- A word reads back as it was written. -/
theorem read_write_self (m : Mem) (a w : Word) : (m.write a w).read a = w := by
  have hb : ∀ i < 8, m.write a w (a + BitVec.ofNat 64 i) = byte w i := by
    intro i hi
    have h : (a + BitVec.ofNat 64 i - a).toNat = i := by bv_omega
    unfold Mem.write
    rw [h, if_pos hi]
  rw [read_eq _ a _ hb, bytes_eq]

/-- A write leaves the words apart from it alone. -/
theorem read_write_apart (m : Mem) {a b : Word} (w : Word) (h : Apart a b) :
    (m.write b w).read a = m.read a := by
  have hb : ∀ i < 8, m.write b w (a + BitVec.ofNat 64 i) = m (a + BitVec.ofNat 64 i) := by
    intro i hi
    obtain ⟨h1, h2⟩ := h
    refine if_neg ?_
    bv_omega
  rw [read_eq _ a _ hb, ← read_eq m a _ fun _ _ => rfl]

/-- The byte `a` is one of the `n` bytes from `base` on. -/
def Within (base : Word) (n : Nat) (a : Word) : Prop := (a - base).toNat < n

instance (base : Word) (n : Nat) (a : Word) : Decidable (Within base n a) :=
  inferInstanceAs (Decidable (_ < _))

theorem within_word (a : Word) {i : Nat} (h : i < 8) : Within a 8 (a + BitVec.ofNat 64 i) := by
  unfold Within
  bv_omega

/-- A write changes its eight bytes only. -/
theorem write_outside (m : Mem) {a b : Word} (w : Word) (h : ¬ Within a 8 b) :
    m.write a w b = m b :=
  if_neg h

/-- A word is read from its own bytes. -/
theorem read_congr {m m' : Mem} {a : Word} (h : ∀ b, Within a 8 b → m' b = m b) :
    m'.read a = m.read a := by
  rw [read_eq m' a _ fun i hi => h _ (within_word a hi), ← read_eq m a _ fun _ _ => rfl]

/-! ## 2. Stacks of words -/

/-- The address of the `n`-th word below `sp`. -/
def slot (sp : Word) (n : Nat) : Word := sp - BitVec.ofNat 64 (8 * n)

/-- Memory after the words of `ws` were pushed, the first one first, onto the stack at `sp`. -/
def Mem.stack (m : Mem) (sp : Word) : List Word → Mem
  | [] => m
  | w :: ws => (m.write (slot sp 1) w).stack (slot sp 1) ws

@[simp] theorem slot_zero (sp : Word) : slot sp 0 = sp := by
  unfold slot
  bv_omega

theorem slot_slot (sp : Word) (a b : Nat) : slot (slot sp a) b = slot sp (a + b) := by
  unfold slot
  rw [Nat.mul_add]
  bv_omega

theorem slot_add (sp : Word) {a b : Nat} (h : b ≤ a) :
    slot sp a + BitVec.ofNat 64 (8 * b) = slot sp (a - b) := by
  obtain ⟨d, rfl⟩ := Nat.exists_eq_add_of_le h
  unfold slot
  rw [Nat.add_sub_cancel_left, Nat.mul_add]
  bv_omega

/-- Two slots of a stack smaller than the address space share no byte. -/
theorem slot_apart (sp : Word) {a b : Nat} (h : a < b) (hb : b < 2 ^ 32) :
    Apart (slot sp a) (slot sp b) := by
  unfold Apart slot
  constructor <;> bv_omega

theorem Apart.symm {a b : Word} (h : Apart a b) : Apart b a := ⟨h.2, h.1⟩

/-- Pushing leaves a word alone that is apart from every slot pushed. -/
theorem read_stack_apart (m : Mem) (sp a : Word) (ws : List Word)
    (h : ∀ n, 0 < n → n ≤ ws.length → Apart a (slot sp n)) : (m.stack sp ws).read a = m.read a := by
  induction ws generalizing m sp with
  | nil => rfl
  | cons w ws ih =>
    have hrest : ∀ n, 0 < n → n ≤ ws.length → Apart a (slot (slot sp 1) n) := by
      intro n hn hl
      rw [slot_slot]
      exact h _ (by omega) (by simp only [List.length_cons]; omega)
    have hhead : Apart a (slot sp 1) := h 1 (by decide) (by simp)
    calc ((m.write (slot sp 1) w).stack (slot sp 1) ws).read a
        = (m.write (slot sp 1) w).read a := ih _ _ hrest
      _ = m.read a := read_write_apart m w hhead

/-- The bytes of a slot are among those pushed. -/
theorem within_slot (sp : Word) {n k : Nat} (hn : 0 < n) (hk : n ≤ k) {b : Word}
    (h : Within (slot sp n) 8 b) : Within (slot sp k) (8 * k) b := by
  unfold Within slot at *
  bv_omega

/-- Pushing changes the bytes of the slots only. -/
theorem stack_outside (m : Mem) (sp : Word) {b : Word} {ws : List Word}
    (h : ¬ Within (slot sp ws.length) (8 * ws.length) b) : m.stack sp ws b = m b := by
  induction ws generalizing m sp with
  | nil => rfl
  | cons w ws ih =>
    rw [List.length_cons] at h
    have hhead : ¬ Within (slot sp 1) 8 b := fun hw =>
      h (within_slot sp Nat.one_pos (by omega) hw)
    have hrest : ¬ Within (slot (slot sp 1) ws.length) (8 * ws.length) b := by
      rw [slot_slot, Nat.add_comm]
      intro hw
      unfold Within at h hw
      omega
    calc (m.write (slot sp 1) w).stack (slot sp 1) ws b
        = m.write (slot sp 1) w b := ih _ _ hrest
      _ = m b := write_outside m w hhead

/-- Each word pushed reads back from its slot. -/
theorem read_stack_slot (m : Mem) (sp : Word) (ws : List Word) (hl : ws.length < 2 ^ 32)
    {n : Nat} {w : Word} (hw : ws[n]? = some w) : (m.stack sp ws).read (slot sp (n + 1)) = w := by
  induction ws generalizing m sp n with
  | nil => cases hw
  | cons v ws ih =>
    simp only [List.length_cons] at hl
    cases n with
    | zero =>
      simp only [List.getElem?_cons_zero, Option.some.injEq] at hw
      subst hw
      have hrest : ∀ n, 0 < n → n ≤ ws.length → Apart (slot sp 1) (slot (slot sp 1) n) := by
        intro n hn hle
        rw [slot_slot]
        exact slot_apart sp (by omega) (by omega)
      exact (read_stack_apart _ _ _ _ hrest).trans (read_write_self m _ _)
    | succ n =>
      have h := ih (m.write (slot sp 1) v) (slot sp 1) (by omega) hw
      rwa [slot_slot, Nat.add_comm 1] at h

theorem stack_append (m : Mem) (sp : Word) (us vs : List Word) :
    m.stack sp (us ++ vs) = (m.stack sp us).stack (slot sp us.length) vs := by
  induction us generalizing m sp with
  | nil => rw [List.nil_append, List.length_nil, slot_zero]; rfl
  | cons u us ih =>
    rw [List.cons_append, List.length_cons, Nat.add_comm, ← slot_slot]
    exact ih _ _

/-! ## 3. The CPU and its instructions -/

inductive Reg
  | rax | rbx | rcx | rdx | rsi | rdi | rbp | rsp
  | r8 | r9 | r10 | r11 | r12 | r13 | r14 | r15
  deriving DecidableEq, Repr

structure Cpu where
  regs : Reg → Word
  rip : Word
  cs : Word
  ss : Word
  flags : Word
  mem : Mem

namespace Cpu

def rsp (c : Cpu) : Word := c.regs .rsp

/-- The interrupt-enable flag, bit 9 of `rflags`. -/
def intr (c : Cpu) : Bool := c.flags.getLsbD 9

def set (c : Cpu) (r : Reg) (w : Word) : Cpu := { c with regs := Function.update c.regs r w }

def withMem (c : Cpu) (m : Mem) : Cpu := { c with mem := m }

def goto (c : Cpu) (a : Word) : Cpu := { c with rip := a }

section Projections

variable (c : Cpu) (r : Reg) (w : Word) (m : Mem)

@[simp] theorem set_self : (c.set r w).regs r = w := Function.update_self (β := fun _ => Word) ..
@[simp] theorem set_rsp : (c.set .rsp w).rsp = w := c.set_self .rsp w
@[simp] theorem set_mem : (c.set r w).mem = c.mem := rfl
@[simp] theorem withMem_regs : (c.withMem m).regs = c.regs := rfl
@[simp] theorem withMem_rsp : (c.withMem m).rsp = c.rsp := rfl
@[simp] theorem withMem_mem : (c.withMem m).mem = m := rfl
@[simp] theorem goto_regs : (c.goto w).regs = c.regs := rfl
@[simp] theorem goto_rsp : (c.goto w).rsp = c.rsp := rfl
@[simp] theorem goto_rip : (c.goto w).rip = w := rfl
@[simp] theorem goto_mem : (c.goto w).mem = c.mem := rfl

variable {r}

theorem set_other {q : Reg} (h : q ≠ r) : (c.set r w).regs q = c.regs q :=
  Function.update_of_ne (β := fun _ => Word) h ..

@[simp] theorem set_set (v : Word) : (c.set r v).set r w = c.set r w := by
  unfold set
  rw [Function.update_idem]

theorem set_keeps_rsp (h : .rsp ≠ r) : (c.set r w).rsp = c.rsp := c.set_other w h

end Projections

def push (c : Cpu) (w : Word) : Cpu :=
  (c.set .rsp (slot c.rsp 1)).withMem (c.mem.write (slot c.rsp 1) w)

@[simp] theorem push_rsp (c : Cpu) (w : Word) : (c.push w).rsp = slot c.rsp 1 := by
  rw [push, withMem_rsp, set_rsp]

@[simp] theorem push_mem (c : Cpu) (w : Word) :
    (c.push w).mem = c.mem.write (slot c.rsp 1) w := rfl

theorem push_other (c : Cpu) {q : Reg} (w : Word) (h : q ≠ .rsp) :
    (c.push w).regs q = c.regs q := by
  rw [push, withMem_regs, set_other _ _ h]

/-- The word on top of the stack goes to `r`; a `pop rsp` keeps the popped word. -/
def pop (c : Cpu) (r : Reg) : Cpu := (c.set .rsp (c.rsp + 8#64)).set r (c.mem.read c.rsp)

/-- The interrupted context comes back from the stack. -/
def iretq (c : Cpu) : Cpu :=
  { c.set .rsp (c.mem.read (c.rsp + 24#64)) with
    rip := c.mem.read c.rsp
    cs := c.mem.read (c.rsp + 8#64)
    flags := c.mem.read (c.rsp + 16#64)
    ss := c.mem.read (c.rsp + 32#64) }

@[simp] theorem iretq_rip (c : Cpu) : c.iretq.rip = c.mem.read c.rsp := rfl
@[simp] theorem iretq_cs (c : Cpu) : c.iretq.cs = c.mem.read (c.rsp + 8#64) := rfl
@[simp] theorem iretq_flags (c : Cpu) : c.iretq.flags = c.mem.read (c.rsp + 16#64) := rfl
@[simp] theorem iretq_rsp (c : Cpu) : c.iretq.rsp = c.mem.read (c.rsp + 24#64) := c.set_rsp _
@[simp] theorem iretq_ss (c : Cpu) : c.iretq.ss = c.mem.read (c.rsp + 32#64) := rfl
@[simp] theorem iretq_mem (c : Cpu) : c.iretq.mem = c.mem := rfl

theorem iretq_regs (c : Cpu) {q : Reg} (h : q ≠ .rsp) : c.iretq.regs q = c.regs q :=
  c.set_other _ h

end Cpu

inductive Instr
  | push (r : Reg)
  /-- `push imm` -/
  | pushImm (w : Word)
  | pop (r : Reg)
  | mov (dst src : Reg)
  /-- `lea dst, [rip + symbol]`, the symbol at address `a` -/
  | lea (dst : Reg) (a : Word)
  /-- `mov [base], src` -/
  | store (base src : Reg)
  /-- `mov dst, [rip + symbol]`, the symbol at address `a` -/
  | load (dst : Reg) (a : Word)
  /-- `mov dst, [base]` -/
  | loadFrom (dst base : Reg)
  /-- `call target`, with the address of the instruction after it -/
  | call (target next : Word)
  | ret
  | iretq
  deriving DecidableEq, Repr

def exec (c : Cpu) : Instr → Cpu
  | .push r => c.push (c.regs r)
  | .pushImm w => c.push w
  | .pop r => c.pop r
  | .mov dst src => c.set dst (c.regs src)
  | .lea dst a => c.set dst a
  | .store base src => c.withMem (c.mem.write (c.regs base) (c.regs src))
  | .load dst a => c.set dst (c.mem.read a)
  | .loadFrom dst base => c.set dst (c.mem.read (c.regs base))
  | .call target next => (c.push next).goto target
  | .ret => (c.set .rsp (c.rsp + 8#64)).goto (c.mem.read c.rsp)
  | .iretq => c.iretq

def run (is : List Instr) (c : Cpu) : Cpu := is.foldl exec c

/-- The flags an interrupt gate clears: IF, TF, NT, RF and VM. -/
def gateMask : Word := 0x34300#64

/-- A trap from ring 3 through an interrupt gate: the CPU aligns the ring-0 stack of the TSS, pushes
    the interrupted context and enters the handler in the code segment of the gate. -/
def intGate (rsp0 handler selector : Word) (c : Cpu) : Cpu :=
  { c.set .rsp (slot (rsp0 &&& ~~~15#64) 5) with
    rip := handler
    cs := selector
    ss := 0#64
    flags := c.flags &&& ~~~gateMask
    mem := c.mem.stack (rsp0 &&& ~~~15#64) [c.ss, c.rsp, c.flags, c.cs, c.rip] }

/-! ## 4. What runs of instructions do -/

@[simp] theorem run_nil (c : Cpu) : run [] c = c := rfl

@[simp] theorem run_cons (i : Instr) (is : List Instr) (c : Cpu) :
    run (i :: is) c = run is (exec c i) := rfl

theorem run_append (is js : List Instr) (c : Cpu) : run (is ++ js) c = run js (run is c) :=
  List.foldl_append

theorem ret_mem (c : Cpu) : (exec c .ret).mem = c.mem := rfl

theorem ret_rip (c : Cpu) : (exec c .ret).rip = c.mem.read c.rsp := rfl

theorem ret_rsp (c : Cpu) : (exec c .ret).rsp = c.rsp + 8#64 := by
  rw [exec, Cpu.goto_rsp, Cpu.set_rsp]

theorem ret_regs (c : Cpu) {q : Reg} (h : q ≠ .rsp) : (exec c .ret).regs q = c.regs q := by
  rw [exec, Cpu.goto_regs, Cpu.set_other _ _ h]

/-- A gate leaves interrupts disabled. -/
@[simp] theorem intGate_intr (rsp0 handler selector : Word) (c : Cpu) :
    (intGate rsp0 handler selector c).intr = false := by
  have hm : (~~~gateMask).getLsbD 9 = false := by decide
  show (c.flags &&& ~~~gateMask).getLsbD 9 = false
  rw [BitVec.getLsbD_and, hm, Bool.and_false]

theorem intGate_rsp (rsp0 handler selector : Word) (c : Cpu) :
    (intGate rsp0 handler selector c).rsp = slot (rsp0 &&& ~~~15#64) 5 :=
  c.set_rsp _

theorem intGate_mem (rsp0 handler selector : Word) (c : Cpu) :
    (intGate rsp0 handler selector c).mem =
      c.mem.stack (rsp0 &&& ~~~15#64) [c.ss, c.rsp, c.flags, c.cs, c.rip] := rfl

theorem intGate_regs (rsp0 handler selector : Word) (c : Cpu) {q : Reg} (h : q ≠ .rsp) :
    (intGate rsp0 handler selector c).regs q = c.regs q :=
  c.set_other _ h

/-- Pushing registers other than `rsp` stacks their values and changes nothing else. -/
theorem run_push (rs : List Reg) (c : Cpu) (h : .rsp ∉ rs) :
    run (rs.map .push) c =
      (c.set .rsp (slot c.rsp rs.length)).withMem (c.mem.stack c.rsp (rs.map c.regs)) := by
  induction rs generalizing c with
  | nil =>
    rw [List.length_nil, slot_zero, Cpu.set, Cpu.rsp, Function.update_eq_self]
    rfl
  | cons r rs ih =>
    simp only [List.mem_cons, not_or] at h
    have hregs : rs.map (c.push (c.regs r)).regs = rs.map c.regs := by
      refine List.map_congr_left fun q hq => ?_
      have hne : q ≠ .rsp := fun e => h.2 (e ▸ hq)
      exact c.push_other _ hne
    rw [List.map_cons, run_cons]
    show run _ (c.push (c.regs r)) = _
    rw [ih _ h.2, hregs, c.push_rsp, slot_slot, Nat.add_comm 1]
    simp only [Cpu.push, Cpu.set, Cpu.withMem, Function.update_idem, List.map_cons,
      List.length_cons]
    rfl

section Pops

variable (rs : List Reg) (c : Cpu)

@[simp] theorem run_pop_mem : (run (rs.map .pop) c).mem = c.mem := by
  induction rs generalizing c with
  | nil => rfl
  | cons r rs ih => exact ih (c.pop r)

theorem pop_rsp {r : Reg} (h : .rsp ≠ r) : (c.pop r).rsp = c.rsp + 8#64 := by
  rw [Cpu.pop, Cpu.set_keeps_rsp _ _ h, Cpu.set_rsp]

/-- Popping `n` registers other than `rsp` frees `n` words. -/
theorem run_pop_rsp (h : .rsp ∉ rs) :
    (run (rs.map .pop) c).rsp = c.rsp + BitVec.ofNat 64 (8 * rs.length) := by
  induction rs generalizing c with
  | nil => exact (BitVec.add_zero _).symm
  | cons r rs ih =>
    simp only [List.mem_cons, not_or] at h
    have htail := ih (c.pop r) h.2
    rw [pop_rsp c h.1] at htail
    refine htail.trans ?_
    rw [List.length_cons, Nat.mul_add]
    bv_omega

theorem run_pop_other {q : Reg} (hq : q ∉ rs) (h : q ≠ .rsp) :
    (run (rs.map .pop) c).regs q = c.regs q := by
  induction rs generalizing c with
  | nil => rfl
  | cons r rs ih =>
    simp only [List.mem_cons, not_or] at hq
    calc (run (rs.map .pop) (c.pop r)).regs q
        = (c.pop r).regs q := ih (c.pop r) hq.2
      _ = (c.set .rsp _).regs q := Cpu.set_other _ _ hq.1
      _ = c.regs q := Cpu.set_other _ _ h

/-- Each register popped gets the word of its place. -/
theorem run_pop_get (h : .rsp ∉ rs) (hn : rs.Nodup) {n : Nat} {q : Reg} (hq : rs[n]? = some q) :
    (run (rs.map .pop) c).regs q = c.mem.read (c.rsp + BitVec.ofNat 64 (8 * n)) := by
  induction rs generalizing c n with
  | nil => cases hq
  | cons r rs ih =>
    simp only [List.mem_cons, not_or] at h
    rw [List.nodup_cons] at hn
    cases n with
    | zero =>
      simp only [List.getElem?_cons_zero, Option.some.injEq] at hq
      subst hq
      refine (run_pop_other rs (c.pop r) hn.1 (Ne.symm h.1)).trans ?_
      rw [Cpu.pop, Cpu.set_self, Nat.mul_zero, BitVec.add_zero]
    | succ n =>
      have htail := ih (c.pop r) h.2 hn.2 hq
      rw [pop_rsp c h.1] at htail
      refine htail.trans (congrArg c.mem.read ?_)
      rw [Nat.mul_add]
      bv_omega

end Pops

end X86
