/-
  File:      SimpleLinux/Lib/Asm.lean
  Subject:   Machine code: the encodings of a few x86-64 instructions.

  The moves into a 64-bit register that need no memory, and `int`. Decoding reads the bytes of one
  instruction by need, each of which may be missing, and knows no other instruction: `none` says
  that the bytes are outside this list, or not there.

  * `Mov`, `Instr`, `encode`, `decode` -- the instructions and their bytes;
  * `decode_encode` -- what is encoded is decoded, whatever follows it;
  * `Mov.run`, `Mov.runAll` -- what moves do to the registers.
-/
import SimpleLinux.Lib.X86

namespace Asm

open X86

/-! ## 1. Encodings -/

/-- The number of a register: the bit that goes to the REX byte, then three more. -/
def number : Reg → BitVec 1 × BitVec 3
  | .rax => (0#1, 0#3)
  | .rcx => (0#1, 1#3)
  | .rdx => (0#1, 2#3)
  | .rbx => (0#1, 3#3)
  | .rsp => (0#1, 4#3)
  | .rbp => (0#1, 5#3)
  | .rsi => (0#1, 6#3)
  | .rdi => (0#1, 7#3)
  | .r8 => (1#1, 0#3)
  | .r9 => (1#1, 1#3)
  | .r10 => (1#1, 2#3)
  | .r11 => (1#1, 3#3)
  | .r12 => (1#1, 4#3)
  | .r13 => (1#1, 5#3)
  | .r14 => (1#1, 6#3)
  | .r15 => (1#1, 7#3)

/-- The registers in the order of their numbers. -/
def byNumber : List Reg :=
  [.rax, .rcx, .rdx, .rbx, .rsp, .rbp, .rsi, .rdi, .r8, .r9, .r10, .r11, .r12, .r13, .r14, .r15]

def ofNumber (ext : BitVec 1) (low : BitVec 3) : Reg := byNumber.getD (ext ++ low).toNat .rax

theorem ofNumber_number (r : Reg) : ofNumber (number r).1 (number r).2 = r := by
  cases r <;> rfl

/-- REX with W set and X clear. -/
def rex (r b : BitVec 1) : BitVec 8 := 0b01001#5 ++ r ++ 0#1 ++ b

/-- ModRM with two registers. -/
def modRM (reg rm : BitVec 3) : BitVec 8 := 0b11#2 ++ reg ++ rm

/-- The four bytes of a doubleword, the lowest first. -/
def le32 (v : BitVec 32) : List (BitVec 8) :=
  [v.extractLsb' 0 8, v.extractLsb' 8 8, v.extractLsb' 16 8, v.extractLsb' 24 8]

/-- The eight bytes of a word, the lowest first. -/
def le64 (v : Word) : List (BitVec 8) := le32 (v.extractLsb' 0 32) ++ le32 (v.extractLsb' 32 32)

inductive Mov
  /-- a doubleword, extended by its sign -/
  | imm32 (r : Reg) (v : BitVec 32)
  | imm64 (r : Reg) (v : Word)
  | reg (dst src : Reg)
  deriving DecidableEq

inductive Instr
  | mov (m : Mov)
  | int (n : BitVec 8)
  deriving DecidableEq

def Mov.encode : Mov → List (BitVec 8)
  | imm32 r v => [rex 0#1 (number r).1, 0xc7#8, modRM 0#3 (number r).2] ++ le32 v
  | imm64 r v => [rex 0#1 (number r).1, 0b10111#5 ++ (number r).2] ++ le64 v
  | reg dst src =>
    [rex (number src).1 (number dst).1, 0x89#8, modRM (number src).2 (number dst).2]

def encode : Instr → List (BitVec 8)
  | .mov m => m.encode
  | .int n => [0xcd#8, n]

/-! ## 2. Decoding -/

def doubleword (code : Nat → Option (BitVec 8)) (off : Nat) : Option (BitVec 32) := do
  let b₀ ← code off
  let b₁ ← code (off + 1)
  let b₂ ← code (off + 2)
  let b₃ ← code (off + 3)
  return b₃ ++ b₂ ++ b₁ ++ b₀

def quadword (code : Nat → Option (BitVec 8)) (off : Nat) : Option Word := do
  let lo ← doubleword code off
  let hi ← doubleword code (off + 4)
  return hi ++ lo

/-- The operands after a REX byte with the bits `r` and `b`, and the length of the instruction. -/
def decodeRex (code : Nat → Option (BitVec 8)) (r b : BitVec 1) : Option (Mov × Nat) := do
  let op ← code 1
  if op = 0xc7#8 then
    let m ← code 2
    if m.extractLsb' 3 5 = 0b11000#5 then
      return (.imm32 (ofNumber b (m.extractLsb' 0 3)) (← doubleword code 3), 7)
    else none
  else if op = 0x89#8 then
    let m ← code 2
    if m.extractLsb' 6 2 = 0b11#2 then
      return (.reg (ofNumber b (m.extractLsb' 0 3)) (ofNumber r (m.extractLsb' 3 3)), 3)
    else none
  else if op.extractLsb' 3 5 = 0b10111#5 then
    return (.imm64 (ofNumber b (op.extractLsb' 0 3)) (← quadword code 2), 10)
  else none

/-- The instruction at the start of `code`, and its length. -/
def decode (code : Nat → Option (BitVec 8)) : Option (Instr × Nat) := do
  let b₀ ← code 0
  if b₀ = 0xcd#8 then return (.int (← code 1), 2)
  else if b₀.extractLsb' 3 5 = 0b01001#5 ∧ b₀.extractLsb' 1 1 = 0#1 then
    let (m, n) ← decodeRex code (b₀.extractLsb' 2 1) (b₀.extractLsb' 0 1)
    return (.mov m, n)
  else none

/-! ## 3. What is encoded is decoded -/

theorem rex_fields (r b : BitVec 1) : rex r b ≠ 0xcd#8 ∧ (rex r b).extractLsb' 3 5 = 0b01001#5 ∧
    (rex r b).extractLsb' 1 1 = 0#1 ∧ (rex r b).extractLsb' 2 1 = r ∧
    (rex r b).extractLsb' 0 1 = b := by
  revert r b
  decide

theorem modRM_fields (reg rm : BitVec 3) : (modRM reg rm).extractLsb' 6 2 = 0b11#2 ∧
    (reg = 0#3 → (modRM reg rm).extractLsb' 3 5 = 0b11000#5) ∧
    (modRM reg rm).extractLsb' 3 3 = reg ∧ (modRM reg rm).extractLsb' 0 3 = rm := by
  revert reg rm
  decide

theorem opcode_fields (low : BitVec 3) : 0b10111#5 ++ low ≠ 0xc7#8 ∧ 0b10111#5 ++ low ≠ 0x89#8 ∧
    (0b10111#5 ++ low).extractLsb' 3 5 = 0b10111#5 ∧ (0b10111#5 ++ low).extractLsb' 0 3 = low := by
  revert low
  decide

/-- The bytes `bs` stand at the start of `code`. -/
def Starts (code : Nat → Option (BitVec 8)) (bs : List (BitVec 8)) : Prop :=
  ∀ i < bs.length, code i = bs[i]?

theorem Starts.drop {code : Nat → Option (BitVec 8)} (xs : List (BitVec 8)) {ys : List (BitVec 8)}
    (h : Starts code (xs ++ ys)) : Starts (fun i => code (xs.length + i)) ys := by
  intro i hi
  have hlen : xs.length + i < (xs ++ ys).length := by
    rw [List.length_append]
    omega
  refine (h _ hlen).trans ?_
  rw [List.getElem?_append_right (Nat.le_add_right ..), Nat.add_sub_cancel_left]

theorem Starts.left {code : Nat → Option (BitVec 8)} {xs ys : List (BitVec 8)}
    (h : Starts code (xs ++ ys)) : Starts code xs := by
  intro i hi
  have hlen : i < (xs ++ ys).length := by
    rw [List.length_append]
    omega
  rw [h i hlen, List.getElem?_append_left hi]

theorem doubleword_le32 {code : Nat → Option (BitVec 8)} {off : Nat} {v : BitVec 32}
    (h : Starts (fun i => code (off + i)) (le32 v)) : doubleword code off = some v := by
  have h₀ : code off = some _ := h 0 (by simp [le32])
  have h₁ : code (off + 1) = some _ := h 1 (by simp [le32])
  have h₂ : code (off + 2) = some _ := h 2 (by simp [le32])
  have h₃ : code (off + 3) = some _ := h 3 (by simp [le32])
  have hjoin : v.extractLsb' 24 8 ++ v.extractLsb' 16 8 ++ v.extractLsb' 8 8 ++ v.extractLsb' 0 8 =
      v := by
    simp only [BitVec.extractLsb'_append_extractLsb'_eq_extractLsb']
    exact BitVec.extractLsb'_eq_self
  rw [doubleword, h₀, h₁, h₂, h₃]
  exact congrArg some hjoin

theorem quadword_le64 {code : Nat → Option (BitVec 8)} {off : Nat} {v : Word}
    (h : Starts (fun i => code (off + i)) (le64 v)) : quadword code off = some v := by
  have hhi : Starts (fun i => code (off + 4 + i)) (le32 (v.extractLsb' 32 32)) := by
    intro i hi
    exact (congrArg code (Nat.add_assoc off 4 i)).trans (h.drop _ i hi)
  have hjoin : v.extractLsb' 32 32 ++ v.extractLsb' 0 32 = v := by
    simp only [BitVec.extractLsb'_append_extractLsb'_eq_extractLsb']
    exact BitVec.extractLsb'_eq_self
  rw [quadword, doubleword_le32 h.left, doubleword_le32 hhi]
  exact congrArg some hjoin

theorem decodeRex_encode {code : Nat → Option (BitVec 8)} {m : Mov} (h : Starts code m.encode) :
    ∃ r b, code 0 = some (rex r b) ∧ decodeRex code r b = some (m, m.encode.length) := by
  cases m with
  | imm32 r v =>
    have h₁ : code 1 = some 0xc7#8 := h 1 (by simp [Mov.encode])
    have h₂ : code 2 = some (modRM 0#3 (number r).2) := h 2 (by simp [Mov.encode])
    obtain ⟨-, hmod, -, hrm⟩ := modRM_fields 0#3 (number r).2
    have hv : doubleword code 3 = some v := doubleword_le32 (h.drop [_, _, _])
    refine ⟨0#1, (number r).1, h 0 (by simp [Mov.encode]), ?_⟩
    rw [decodeRex, h₁, h₂, Option.bind_eq_bind, Option.bind_some, if_pos rfl, Option.bind_eq_bind,
      Option.bind_some, if_pos (hmod rfl), hrm, ofNumber_number, hv]
    rfl
  | imm64 r v =>
    have h₁ : code 1 = some (0b10111#5 ++ (number r).2) := h 1 (by simp [Mov.encode])
    obtain ⟨hc7, h89, hop, hlow⟩ := opcode_fields (number r).2
    have hv : quadword code 2 = some v := quadword_le64 (h.drop [_, _])
    refine ⟨0#1, (number r).1, h 0 (by simp [Mov.encode]), ?_⟩
    rw [decodeRex, h₁, Option.bind_eq_bind, Option.bind_some, if_neg hc7, if_neg h89, if_pos hop,
      hlow, ofNumber_number, hv]
    rfl
  | reg dst src =>
    have h₁ : code 1 = some 0x89#8 := h 1 (by simp [Mov.encode])
    have h₂ : code 2 = some (modRM (number src).2 (number dst).2) := h 2 (by simp [Mov.encode])
    obtain ⟨hmod, -, hreg, hrm⟩ := modRM_fields (number src).2 (number dst).2
    refine ⟨(number src).1, (number dst).1, h 0 (by simp [Mov.encode]), ?_⟩
    rw [decodeRex, h₁, h₂, Option.bind_eq_bind, Option.bind_some, if_neg (by decide), if_pos rfl,
      Option.bind_some, if_pos hmod, hrm, hreg, ofNumber_number,
      ofNumber_number]
    rfl

/-- **What is encoded is decoded.** -/
theorem decode_encode {code : Nat → Option (BitVec 8)} {i : Instr} (h : Starts code (encode i)) :
    decode code = some (i, (encode i).length) := by
  cases i with
  | int n =>
    have h₀ : code 0 = some 0xcd#8 := h 0 (by simp [encode])
    have h₁ : code 1 = some n := h 1 (by simp [encode])
    rw [decode, h₀, h₁]
    rfl
  | mov m =>
    obtain ⟨r, b, h₀, hm⟩ := decodeRex_encode h
    obtain ⟨hcd, hw, hx, hr, hb⟩ := rex_fields r b
    rw [decode, h₀, Option.bind_eq_bind, Option.bind_some, if_neg hcd, if_pos ⟨hw, hx⟩, hr, hb, hm]
    rfl

/-! ## 4. What moves do -/

def Mov.run (regs : Reg → Word) : Mov → Reg → Word
  | imm32 r v => Function.update regs r (v.signExtend 64)
  | imm64 r v => Function.update regs r v
  | reg dst src => Function.update regs dst (regs src)

def Mov.runAll (regs : Reg → Word) (ms : List Mov) : Reg → Word := ms.foldl Mov.run regs

end Asm
