/-
  File:      SimpleLinux/Syscall/Isolation.lean
  Subject:   Where do the system calls follow the pointers of a program?

  The kernel runs in ring 0 over the program's page tables: nothing stops it from following a
  pointer into a kernel page. What a call has to access on behalf of its caller depends on the call:
  the bytes that the inode takes or hands over, the string up to its NUL.

  * `Wanted` -- the addresses that a call has to access; `dispatch_touches` -- it goes there, and
    nowhere else;
  * `Isolated` -- no access outside user memory, and an error for a caller who asks for one;
  * `isolated_iff` -- that is so exactly when all the wanted addresses are the user's: no call
    checks them; `syscalls_reach_kernel` -- what a program can do with it.
-/
import SimpleLinux.Syscall.Dispatch

namespace SimpleLinux.Syscall

open Rust Paging Runs Fs
open X86 (Word)
open Net (Byte Bytes)

/-! ## 1. What a call wants -/

/-- Byte `i` of a string is reached: none before it is the NUL. -/
def Reached (space : Space) (ptr i : Nat) : Prop :=
  ∀ j < i, ∃ c, space.peek ((ptr + j) % 2 ^ 64) = some c ∧ c ≠ 0#8

/-- The addresses that a call has to access for its caller. -/
def Wanted (k : State) (f : SyscallFrame) (a : Nat) : Prop :=
  match SyscallNr.ofWord f.rax with
  | some .write =>
    k.sys.Takes f.rdi.toNat ∧ ∃ i < clamp f.rdx, a = (f.rsi.toNat + i) % 2 ^ 64
  | some .read =>
    ∃ i < (k.sys.answered f.rdi.toNat (clamp f.rdx)).length, a = (f.rsi.toNat + i) % 2 ^ 64
  | some .open_ => ∃ i < 256, a = (f.rdi.toNat + i) % 2 ^ 64 ∧ Reached k.space f.rdi.toNat i
  | _ => False

/-- No access outside user memory; a call that would need one returns a negative errno. -/
def Isolated (k : State) (f : SyscallFrame) : Prop :=
  (∀ a ∈ (syscallDispatch k f).trace, k.space.User a) ∧
  ((∃ a, Wanted k f a ∧ ¬ k.space.User a) →
    ∃ w k', (syscallDispatch k f).result = .ok (.value w, k') ∧ w.msb = true)

/-! ## 2. Where it goes -/

theorem touches_returning {x : Traced (Word × State)} {W : Nat → Prop} (h : x.Touches W) :
    (returning x).Touches W := h.bind _ fun _ => rfl

theorem touches_sysWrite (k : State) (fd buf len : Word) :
    (sysWrite k fd buf len).Touches fun a =>
      k.sys.Takes fd.toNat ∧ ∃ i < clamp len, a = (buf.toNat + i) % 2 ^ 64 := by
  rw [sysWrite]
  split
  · exact Traced.touches_stop _ _
  · exact (System.touches_write (touches_fetch ..) k.sys fd.toNat).bind _ fun _ => rfl

theorem touches_sysRead (k : State) (fd buf len : Word) :
    (sysRead k fd buf len).Touches fun a =>
      ∃ i < (k.sys.answered fd.toNat (clamp len)).length, a = (buf.toNat + i) % 2 ^ 64 := by
  rw [sysRead]
  split
  · exact Traced.touches_stop _ _
  · exact (System.touches_read (touches_deposit ..)).bind _ fun _ => rfl

/-- The string is read up to its NUL, one byte after the other. -/
theorem touches_readUserCstrFrom (space : Space) (fuel p : Nat) (bytes : Bytes) :
    (readUserCstrFrom space fuel p bytes).Touches fun a =>
      ∃ i < fuel, a = (p + i) % 2 ^ 64 ∧ Reached space p i := by
  induction fuel generalizing p bytes with
  | zero =>
    refine (Traced.touches_pure _).congr fun a => ⟨False.elim, ?_⟩
    rintro ⟨i, hi, -⟩
    exact absurd hi (Nat.not_lt_zero i)
  | succ fuel ih =>
    rw [readUserCstrFrom]
    split
    · exact Traced.touches_stop _ _
    · -- the first byte, then the others if it is not the NUL
      have hwalk := walk_succ (fun x => ∃ c, space.peek (x % 2 ^ 64) = some c ∧ c ≠ 0#8) p fuel
      refine ((touches_byte ..).seq fun c hload => ?_).congr fun a => (hwalk a).symm
      have hpeek := load_eq_ok.mp hload
      by_cases hc : c = 0#8
      · rw [if_pos hc]
        refine (Traced.touches_pure _).congr fun a => ⟨False.elim, fun ha => ?_⟩
        obtain ⟨⟨c', hc', hne⟩, -⟩ := ha
        rw [hpeek] at hc'
        cases hc'
        exact absurd hc hne
      · rw [if_neg hc]
        exact (ih (p + 1) (bytes ++ [c])).congr fun a =>
          ⟨fun ha => ⟨⟨c, hpeek, hc⟩, ha⟩, fun ha => ha.2⟩

theorem touches_sysOpen (k : State) (path : Word) :
    (sysOpen k path).Touches fun a =>
      ∃ i < 256, a = (path.toNat + i) % 2 ^ 64 ∧ Reached k.space path.toNat i := by
  refine (touches_readUserCstrFrom k.space 256 path.toNat []).bind _ ?_
  rintro (- | path)
  · rfl
  · rfl

/-- **A call goes where it is wanted, and nowhere else.** -/
theorem dispatch_touches (k : State) (f : SyscallFrame) :
    (syscallDispatch k f).Touches (Wanted k f) := by
  unfold syscallDispatch Wanted
  rcases SyscallNr.ofWord f.rax with - | (- | - | - | - | - | - | - | -)
  case none => exact touches_returning (Traced.touches_pure _)
  case some.write => exact touches_returning (touches_sysWrite ..)
  case some.read => exact touches_returning (touches_sysRead ..)
  case some.open_ => exact touches_returning (touches_sysOpen ..)
  case some.exit => exact Traced.touches_pure _
  all_goals exact touches_returning (Traced.touches_pure _)

/-! ## 3. Isolation -/

/-- **No call checks the pointers it is given**: for every state and all registers, the call is
    isolated exactly when every address it has to access is the user's anyway. -/
theorem isolated_iff (k : State) (f : SyscallFrame) :
    Isolated k f ↔ ∀ a, Wanted k f a → k.space.User a := by
  obtain ⟨hsound, hall⟩ := dispatch_touches k f
  constructor
  · intro ⟨htrace, herror⟩ a ha
    by_contra hnot
    -- the call returns, so it has been everywhere it was wanted
    obtain ⟨w, k', hr, -⟩ := herror ⟨a, ha, hnot⟩
    exact hnot (htrace a (hall ⟨_, hr⟩ a ha))
  · intro huser
    refine ⟨fun a ha => huser a (hsound a ha), ?_⟩
    intro ⟨a, ha, hnot⟩
    exact absurd (huser a ha) hnot

/-- After boot, with the path of /dev/zero in the program's memory. -/
def beforeOpen : State :=
  boot (.quiet none) (twoPages (ascii ['/', 'd', 'e', 'v', '/', 'z', 'e', 'r', 'o']))

/-- The program has opened it, as descriptor 3. -/
def afterOpen : State :=
  { beforeOpen with sys := { beforeOpen.sys with
      fds := beforeOpen.sys.fds ++ [some ⟨.zero, 0⟩] } }

theorem step_beforeOpen :
    step beforeOpen (.syscall ⟨SyscallNr.open_.toWord, 0x400000#64, 0#64, 0#64⟩) =
      some (afterOpen, [.value 3#64]) := rfl

/-- An address of the kernel. -/
def kernelByte : Nat := 0xffff800000000000

/-- **A program reaches into the kernel**: a read of /dev/zero overwrites a byte of a kernel page,
    and a write to the console sends one to the serial port; both calls succeed. -/
theorem syscalls_reach_kernel :
    ∃ k₀ es k, Booted k₀ ∧ Run step anyStep k₀ es k ∧ ¬ k.space.User kernelByte ∧
      (∃ f k', f.rax = SyscallNr.read.toWord ∧ ¬ Isolated k f ∧
        (syscallDispatch k f).result = .ok (.value 1#64, k') ∧
        k.space.peek kernelByte = some 7#8 ∧ k'.space.peek kernelByte = some 0#8) ∧
      ∃ f k', f.rax = SyscallNr.write.toWord ∧ ¬ Isolated k f ∧
        (syscallDispatch k f).result = .ok (.value 1#64, k') ∧ k'.sys.devices.serial = [7#8] := by
  have hkernel : ¬ afterOpen.space.User kernelByte := by decide
  have hviolates : ∀ f, kernelByte ∈ (syscallDispatch afterOpen f).trace → ¬ Isolated afterOpen f :=
    fun f hmem hiso => hkernel (hiso.1 kernelByte hmem)
  refine ⟨beforeOpen, _, afterOpen, booted_boot _ _, .next _ .start trivial step_beforeOpen,
    hkernel, ?_, ?_⟩
  · refine ⟨⟨SyscallNr.read.toWord, 3#64, 0xffff800000000000#64, 1#64⟩, _, rfl, ?_, rfl, ?_, ?_⟩
    · exact hviolates _ (by decide)
    · decide
    · decide
  · refine ⟨⟨SyscallNr.write.toWord, 1#64, 0xffff800000000000#64, 1#64⟩, _, rfl, ?_, rfl, ?_⟩
    · exact hviolates _ (by decide)
    · decide

end SimpleLinux.Syscall
