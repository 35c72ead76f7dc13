/-
  File:      SimpleLinux/Process/Context.lean
  Subject:   Kernel stacks and the context switch: process/context.rs, `KernelStack` of
             process/task.rs.

  A context that is not running is seven words on its own stack, the return address on top of the
  six callee-saved registers, and a `TaskContext` that says where they are. `__switch` makes one out
  of its caller and takes up another; `initial_context` writes one for a task that never ran.

  * `switchAsm`, `switched` -- the assembly, and a call of it;
  * `KernelStack.initialContext` -- the first context of a task, with the checked arithmetic;
    `initialContext_eq` -- it is a stack of seven words, for every buffer;
  * `Frame`, `Holds` -- what a context is, and that it is saved in a task's own memory;
    `holds_saved`, `switched_frame` -- it gets there, and comes back from there.
-/
import SimpleLinux.Syscall.UserMode
import SimpleLinux.Lib.Rust

namespace SimpleLinux.Switch

open X86 Rust

/-! ## 1. The code -/

/-- Where the linker puts `__switch`, `task_trampoline` and `BOOT_CTX`. -/
structure Image where
  switch : Word
  trampoline : Word
  bootCtx : Word

/-- `__switch(old: rdi, new: rsi)`. -/
def switchAsm : List Instr :=
  [.push .rbx, .push .rbp, .push .r12, .push .r13, .push .r14, .push .r15,
    .store .rdi .rsp, .loadFrom .rsp .rsi,
    .pop .r15, .pop .r14, .pop .r13, .pop .r12, .pop .rbp, .pop .rbx, .ret]

/-- The call `__switch(old, new)`, with the address of the instruction after it, up to the `ret`. -/
def switched (k : Image) (c : Cpu) (old new next : Word) : Cpu :=
  run (.call k.switch next :: switchAsm) ((c.set .rdi old).set .rsi new)

/-- `KERNEL_STACK_SIZE`. -/
def kernelStackSize : Nat := 16 * 1024

/-- `x & !15u64`. -/
def alignDown (x : Nat) : Nat := (BitVec.ofNat 64 x &&& ~~~15#64).toNat

/-- `initial_context`: the memory with the frame, and the `rsp` of the `TaskContext`. -/
def initialContext (k : Image) (m : Mem) (stackBase stackSize : Nat) : Res (Mem × Word) := do
  let top := alignDown (← add 64 stackBase stackSize)
  let retSlot ← sub top 16
  let m ← (List.range 6).foldlM
    (fun m i => do return m.write (BitVec.ofNat 64 (← sub (← sub retSlot 8) (i * 8))) 0#64)
    (m.write (BitVec.ofNat 64 retSlot) k.trampoline)
  return (m, BitVec.ofNat 64 (← sub retSlot 48))

namespace KernelStack

/-- `aligned_base`, of a buffer at `raw`. -/
def alignedBase (raw : Nat) : Res Nat := do return alignDown (← add 64 raw 15)

def usableSize (raw : Nat) : Res Nat := do
  let base ← alignedBase raw
  let stop := alignDown (← add 64 raw kernelStackSize)
  sub stop base

def initialContext (k : Image) (m : Mem) (raw : Nat) : Res (Mem × Word) := do
  let base ← alignedBase raw
  let size ← usableSize raw
  Switch.initialContext k m base size

end KernelStack

/-! ## 2. Frames -/

/-- The registers that `__switch` carries over: the callee-saved ones, `rsp` and the return
    address. -/
structure Frame where
  saved : List Word
  rsp : Word
  rip : Word
  six : saved.length = 6

def frame (c : Cpu) : Frame := ⟨calleeSaved.map c.regs, c.rsp, c.rip, rfl⟩

/-- The words of a frame, in the order in which they are pushed. -/
def Frame.words (f : Frame) : List Word := f.rip :: f.saved

theorem Frame.length_words (f : Frame) : f.words.length = 7 := congrArg Nat.succ f.six

theorem Frame.ext_words {f g : Frame} (hrsp : f.rsp = g.rsp) (hrip : f.rip = g.rip)
    (h : ∀ i < 6, f.saved[i]? = g.saved[i]?) : f = g := by
  have hsaved : f.saved = g.saved := List.ext_getElem? fun i => by
    by_cases hi : i < 6
    · exact h i hi
    · rw [List.getElem?_eq_none (by rw [f.six]; omega),
        List.getElem?_eq_none (by rw [g.six]; omega)]
  cases f
  cases g
  simp only at hsaved hrsp hrip
  subst hsaved hrsp hrip
  rfl

/-- **A task's own memory**: its stack and the word of its `TaskContext`. -/
structure Home where
  stack : Word
  ctx : Word
  /-- a buffer ends below the end of the address space -/
  fits : stack.toNat + kernelStackSize < 2 ^ 64
  apart : ∀ a, Within stack kernelStackSize a → ¬ Within ctx 8 a

def Home.Owns (h : Home) (a : Word) : Prop := Within h.stack kernelStackSize a ∨ Within h.ctx 8 a

/-- **The frame `f` is saved in the memory of a task.** -/
structure Holds (m : Mem) (h : Home) (f : Frame) : Prop where
  ctx : m.read h.ctx = slot f.rsp 7
  inside : ∀ a, Within (slot f.rsp 7) 56 a → Within h.stack kernelStackSize a
  words : ∀ {n : Nat} {w : Word}, f.words[n]? = some w → m.read (slot f.rsp (n + 1)) = w

section Holds

variable {m m' : Mem} {h : Home} {f : Frame}

/-- The bytes of the saved words are on the stack. -/
theorem Frame.word_inside (hin : ∀ a, Within (slot f.rsp 7) 56 a → Within h.stack kernelStackSize a)
    {n : Nat} {w : Word} (hw : f.words[n]? = some w) {a : Word}
    (ha : Within (slot f.rsp (n + 1)) 8 a) : Within h.stack kernelStackSize a := by
  have hn := (List.getElem?_eq_some_iff.mp hw).1
  rw [f.length_words] at hn
  exact hin a (within_slot f.rsp (Nat.succ_pos n) hn ha)

/-- Nobody else's writes reach a saved frame. -/
theorem Holds.congr (hf : Holds m h f) (hm : ∀ a, h.Owns a → m' a = m a) : Holds m' h f where
  ctx := (read_congr fun a ha => hm a (.inr ha)).trans hf.ctx
  inside := hf.inside
  words hw := (read_congr fun a ha => hm a (.inl (Frame.word_inside hf.inside hw ha))).trans
    (hf.words hw)

/-- **Saving a frame**: its words pushed, and the stack pointer stored. -/
theorem holds_saved (m : Mem) (hin : ∀ a, Within (slot f.rsp 7) 56 a →
    Within h.stack kernelStackSize a) :
    Holds ((m.stack f.rsp f.words).write h.ctx (slot f.rsp 7)) h f where
  ctx := read_write_self ..
  inside := hin
  words {n w} hw := by
    have hread := read_stack_slot m f.rsp f.words (by rw [f.length_words]; decide) hw
    rw [← hread]
    exact read_congr fun a ha => write_outside _ _ (h.apart a (Frame.word_inside hin hw ha))

/-- The rest of memory is left alone. -/
theorem saved_outside (m : Mem) (old : Word) (f : Frame) {a : Word}
    (hs : ¬ Within (slot f.rsp 7) 56 a) (hc : ¬ Within old 8 a) :
    (m.stack f.rsp f.words).write old (slot f.rsp 7) a = m a := by
  rw [write_outside _ _ hc]
  refine stack_outside m f.rsp ?_
  rw [f.length_words]
  exact hs

end Holds

/-! ## 3. The switch -/

section Switch

variable (k : Image) (c : Cpu) (old new next : Word)

/-- `__switch` is entered. -/
def called : Cpu := exec ((c.set .rdi old).set .rsi new) (.call k.switch next)

theorem called_regs {q : Reg} (h : q ≠ .rsp) :
    (called k c old new next).regs q = ((c.set .rdi old).set .rsi new).regs q :=
  Cpu.push_other _ next h

theorem called_saved : calleeSaved.map (called k c old new next).regs = calleeSaved.map c.regs := by
  refine List.map_congr_left fun q hq => ?_
  have hne : q ≠ .rsp ∧ q ≠ .rsi ∧ q ≠ .rdi := by
    revert q
    decide
  rw [called_regs _ _ _ _ _ hne.1, Cpu.set_other _ _ hne.2.1, Cpu.set_other _ _ hne.2.2]

theorem args_rsp : ((c.set .rdi old).set .rsi new).rsp = c.rsp := by
  rw [Cpu.set_keeps_rsp _ _ (by decide), Cpu.set_keeps_rsp _ _ (by decide)]

theorem called_rsp : (called k c old new next).rsp = slot c.rsp 1 := by
  rw [← args_rsp c old new]
  exact Cpu.push_rsp _ next

theorem called_mem : (called k c old new next).mem = c.mem.write (slot c.rsp 1) next := by
  rw [← args_rsp c old new]
  rfl

/-- The caller's frame is pushed. -/
def pushed : Cpu :=
  ((called k c old new next).set .rsp (slot c.rsp 7)).withMem
    (c.mem.stack c.rsp (frame (c.goto next)).words)

theorem run_pushed : run (calleeSaved.map .push) (called k c old new next) =
    pushed k c old new next := by
  rw [run_push _ _ (by decide), called_saved, called_rsp, called_mem, slot_slot]
  rfl

theorem pushed_regs {q : Reg} (h : q ≠ .rsp) :
    (pushed k c old new next).regs q = ((c.set .rdi old).set .rsi new).regs q := by
  rw [pushed, Cpu.withMem_regs, Cpu.set_other _ _ h, called_regs _ _ _ _ _ h]

/-- Memory once the caller is saved. -/
def saving : Mem :=
  (c.mem.stack c.rsp (frame (c.goto next)).words).write old (slot c.rsp 7)

/-- On the new stack, before the pops. -/
def entering : Cpu :=
  ((pushed k c old new next).withMem (saving c old next)).set .rsp ((saving c old next).read new)

/-- The eight instructions of `__switch` that leave the old stack. -/
theorem run_entering :
    run [.store .rdi .rsp, .loadFrom .rsp .rsi] (pushed k c old new next) =
      entering k c old new next := by
  have hrdi : (pushed k c old new next).regs .rdi = old := by
    rw [pushed_regs _ _ _ _ _ (by decide), Cpu.set_other _ _ (by decide), Cpu.set_self]
  have hrsi : (pushed k c old new next).regs .rsi = new := by
    rw [pushed_regs _ _ _ _ _ (by decide), Cpu.set_self]
  have hrsp : (pushed k c old new next).regs .rsp = slot c.rsp 7 := by
    rw [pushed, Cpu.withMem_regs, Cpu.set_self]
  have hstore : exec (pushed k c old new next) (.store .rdi .rsp) =
      (pushed k c old new next).withMem (saving c old next) := by
    rw [exec, hrdi, hrsp]
    rfl
  rw [run_cons, hstore, run_cons, run_nil, exec, Cpu.withMem_regs, hrsi]
  rfl

/-- The six pushes, the change of stacks, the six pops, the `ret`. -/
theorem switchAsm_eq : switchAsm = calleeSaved.map .push ++
    ([.store .rdi .rsp, .loadFrom .rsp .rsi] ++ (calleeSaved.reverse.map .pop ++ [.ret])) := rfl

theorem switched_eq : switched k c old new next =
    exec (run (calleeSaved.reverse.map .pop) (entering k c old new next)) .ret := by
  rw [switched, run_cons, switchAsm_eq, run_append, ← called, run_pushed, run_append, run_entering,
    run_append, run_cons, run_nil]

theorem switched_mem : (switched k c old new next).mem = saving c old next := by
  rw [switched_eq, ret_mem, run_pop_mem]
  rfl

/-- **Taking up a frame**: the registers that a switch leaves are those that the new context
    saved. -/
theorem switched_frame {h : Home} {f : Frame} (hf : Holds (saving c old next) h f) :
    frame (switched k c old h.ctx next) = f := by
  have hent : (entering k c old h.ctx next).rsp = slot f.rsp 7 := (Cpu.set_rsp ..).trans hf.ctx
  have hmem : (entering k c old h.ctx next).mem = saving c old next := rfl
  have hpop := run_pop_rsp calleeSaved.reverse (entering k c old h.ctx next) (by decide)
  rw [hent, show calleeSaved.reverse.length = 6 from rfl, slot_add _ (by decide)] at hpop
  have hrsp : (switched k c old h.ctx next).rsp = f.rsp := by
    have hup := slot_add f.rsp (a := 1) (b := 1) (by decide)
    rw [slot_zero] at hup
    rw [switched_eq, ret_rsp, hpop]
    exact hup
  have hrip : (switched k c old h.ctx next).rip = f.rip := by
    rw [switched_eq, ret_rip, run_pop_mem, hpop, hmem]
    exact hf.words (n := 0) rfl
  refine Frame.ext_words hrsp hrip fun i hi => ?_
  -- register `i` in the order of the pushes is number `5 - i` in the order of the pops
  have hq : ∃ q, calleeSaved[i]? = some q ∧ calleeSaved.reverse[5 - i]? = some q ∧ q ≠ .rsp := by
    revert i
    decide
  obtain ⟨q, hget, hrev, hne⟩ := hq
  have hreg := run_pop_get calleeSaved.reverse (entering k c old h.ctx next) (by decide) (by decide)
    hrev
  rw [hent, hmem, slot_add _ (by omega), show 7 - (5 - i) = i + 1 + 1 by omega] at hreg
  obtain ⟨w, hw⟩ : ∃ w, f.saved[i]? = some w :=
    ⟨_, List.getElem?_eq_getElem (by rw [f.six]; exact hi)⟩
  rw [hf.words (n := i + 1) hw, ← ret_regs _ hne, ← switched_eq] at hreg
  rw [hw, frame, List.getElem?_map, hget, Option.map_some, hreg]

end Switch

/-! ## 4. The first context -/

theorem alignDown_eq {x : Nat} (h : x < 2 ^ 64) : alignDown x = x - x % 16 := by
  have hmask : BitVec.ofNat 64 x &&& ~~~15#64 = (BitVec.ofNat 64 x >>> 4) <<< 4 := by
    have h15 : ∀ i < 64, (~~~15#64).getLsbD i = decide (4 ≤ i) := by decide
    refine BitVec.eq_of_getLsbD_eq fun i hi => ?_
    rw [BitVec.getLsbD_and, h15 i hi, BitVec.getLsbD_shiftLeft, BitVec.getLsbD_ushiftRight]
    by_cases h4 : 4 ≤ i
    · simp [h4, hi, Nat.not_lt.mpr h4, Nat.add_sub_cancel' h4]
    · simp [h4, Nat.not_le.mp h4]
  rw [alignDown, hmask, BitVec.toNat_shiftLeft, BitVec.toNat_ushiftRight, BitVec.toNat_ofNat,
    Nat.mod_eq_of_lt h, Nat.shiftRight_eq_div_pow, Nat.shiftLeft_eq]
  omega

theorem slot_ofNat {x n : Nat} (h : 8 * n ≤ x) :
    slot (BitVec.ofNat 64 x) n = BitVec.ofNat 64 (x - 8 * n) := by
  unfold slot
  bv_omega

/-- The loop that clears the callee-saved slots pushes zeros. -/
theorem zero_slots (m : Mem) {retSlot n : Nat} (h : 8 * n ≤ retSlot) :
    (List.range n).foldlM (fun m i => do
      return Mem.write m (BitVec.ofNat 64 (← sub (← sub retSlot 8) (i * 8))) 0#64) m =
      (.ok (m.stack (BitVec.ofNat 64 retSlot) (List.replicate n 0#64)) : Res Mem) := by
  induction n with
  | zero => rfl
  | succ n ih =>
    have hlast : slot (slot (BitVec.ofNat 64 retSlot) n) 1 =
        BitVec.ofNat 64 (retSlot - 8 - n * 8) := by
      rw [slot_slot, slot_ofNat (by omega)]
      congr 1
      omega
    rw [List.range_succ, List.foldlM_append, ih (by omega), ok_bind, List.foldlM_cons,
      sub_of_le (by omega), ok_bind, sub_of_le (by omega), ok_bind, List.replicate_succ',
      stack_append, List.length_replicate, Mem.stack, hlast]
    rfl

/-- The end of the usable part of a stack. -/
def stackTop (stack : Word) : Nat := alignDown (stack.toNat + kernelStackSize)

/-- **The frame with which a task starts.** -/
def entryFrame (k : Image) (stack : Word) : Frame where
  saved := List.replicate 6 0#64
  rsp := BitVec.ofNat 64 (stackTop stack - 8)
  rip := k.trampoline
  six := rfl

section Entry

variable {stack : Word} (hfits : stack.toNat + kernelStackSize < 2 ^ 64)

include hfits

theorem stackTop_spec : stackTop stack % 16 = 0 ∧ stackTop stack ≤ stack.toNat + kernelStackSize ∧
    stack.toNat + kernelStackSize < stackTop stack + 16 := by
  rw [stackTop, alignDown_eq hfits]
  omega

theorem usableSize_eq : ∃ base, KernelStack.alignedBase stack.toNat = .ok base ∧
    base ≤ stackTop stack ∧ KernelStack.usableSize stack.toNat = .ok (stackTop stack - base) := by
  have htop := stackTop_spec hfits
  have hsize : kernelStackSize = 16384 := rfl
  have hadd : stack.toNat + 15 < 2 ^ 64 := by omega
  have hbase : KernelStack.alignedBase stack.toNat = .ok (alignDown (stack.toNat + 15)) := by
    rw [KernelStack.alignedBase, add_of_lt hadd]
    rfl
  have hle : alignDown (stack.toNat + 15) ≤ stackTop stack := by
    rw [alignDown_eq hadd]
    omega
  refine ⟨_, hbase, hle, ?_⟩
  rw [KernelStack.usableSize, hbase, ok_bind, add_of_lt hfits, ok_bind]
  exact sub_of_le hle

/-- **`initial_context`** leaves the entry frame on the stack, whatever the address of the
    buffer. -/
theorem initialContext_eq (k : Image) (m : Mem) :
    KernelStack.initialContext k m stack.toNat = .ok
      (m.stack (entryFrame k stack).rsp (entryFrame k stack).words,
        slot (entryFrame k stack).rsp 7) := by
  obtain ⟨base, hbase, hle, hsize⟩ := usableSize_eq hfits
  obtain ⟨halign, htop, hbig⟩ := stackTop_spec hfits
  unfold kernelStackSize at hfits htop hbig
  have hadd : add 64 base (stackTop stack - base) = .ok (stackTop stack) :=
    add_eq_ok.mpr ⟨by omega, (Nat.add_sub_cancel' hle).symm⟩
  have hdown : alignDown (stackTop stack) = stackTop stack := by
    rw [alignDown_eq (by omega), halign, Nat.sub_zero]
  have hret : slot (entryFrame k stack).rsp 1 = BitVec.ofNat 64 (stackTop stack - 16) :=
    slot_ofNat (by omega)
  have hlast : slot (entryFrame k stack).rsp 7 = BitVec.ofNat 64 (stackTop stack - 16 - 48) :=
    slot_ofNat (by omega)
  have hwords : (entryFrame k stack).words = k.trampoline :: List.replicate 6 0#64 := rfl
  rw [KernelStack.initialContext, hbase, ok_bind, hsize, ok_bind, initialContext, hadd,
    ok_bind]
  dsimp only
  rw [hdown, sub_of_le (by omega), ok_bind, zero_slots _ (by omega), ok_bind, sub_of_le (by omega),
    ok_bind, hlast, hwords, Mem.stack, hret]
  rfl

/-- Its seven words are inside the stack. -/
theorem entryFrame_inside (k : Image) (a : Word)
    (ha : Within (slot (entryFrame k stack).rsp 7) 56 a) :
    Within stack kernelStackSize a := by
  obtain ⟨-, htop, hbig⟩ := stackTop_spec hfits
  unfold kernelStackSize at *
  have hlast : slot (entryFrame k stack).rsp 7 = BitVec.ofNat 64 (stackTop stack - 64) :=
    slot_ofNat (by omega)
  rw [hlast] at ha
  unfold Within at *
  bv_omega

theorem entryFrame_rsp (k : Image) : (entryFrame k stack).rsp.toNat % 16 = 8 := by
  obtain ⟨halign, htop, hbig⟩ := stackTop_spec hfits
  unfold kernelStackSize at *
  have hrsp : (entryFrame k stack).rsp.toNat = stackTop stack - 8 :=
    (BitVec.toNat_ofNat ..).trans (Nat.mod_eq_of_lt (by omega))
  omega

end Entry

end SimpleLinux.Switch
