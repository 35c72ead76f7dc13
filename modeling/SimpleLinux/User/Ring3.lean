/-
  File:      SimpleLinux/User/Ring3.lean
  Subject:   Machine code in ring 3 over the system calls of the kernel.

  A program is bytes on pages that user mode may execute. One step decodes the instruction at `rip`
  and runs it; `int 0x80` is a call of `syscall_dispatch`, which changes no register of the program
  but `rax` (Syscall/UserMode). Of the other instructions only moves are known here: a program that
  comes to anything else, or to a page it may not execute, stops with a fault.

  The generated programs are calls one after the other, each a few moves and an `int 0x80`. What
  such a list means is told without any code (`runCalls`), and `userRun_calls` says that its
  encoding, wherever it stands, runs to exactly that.

  * `Ring3`, `trap`, `userStep`, `userRun` -- the machine;
  * `Placed` -- bytes in executable memory; `fetch_placed`, `readUserCstr_placed` -- what the kernel
    finds behind a pointer to them;
  * `trap_write`, `trap_open`, `trap_exit` -- calls of the file layer;
  * `runCalls`, `userRun_calls` -- lists of calls, and their code.
-/
import SimpleLinux.Lib.Asm
import SimpleLinux.Syscall.Dispatch

namespace SimpleLinux.User

open Rust Paging Fs Asm Syscall
open X86 (Reg Word)
open Net (Bytes)

/-! ## 1. The machine -/

structure Ring3 where
  regs : Reg → Word
  rip : Nat

inductive Outcome
  | running (k : State) (c : Ring3)
  | exited (code : Word) (k : State)

/-- The program goes on, unless it has exited. -/
def Outcome.andThen (f : State → Ring3 → Exec Outcome) : Outcome → Exec Outcome
  | running k c => f k c
  | exited code k => .ok (.exited code k)

/-- The byte at `addr`, if user mode may execute it. -/
def executable (s : Space) (addr : Nat) : Option (BitVec 8) :=
  match s.pages (addr / pageSize) with
  | some m => if m.flags.user ∧ ¬ m.flags.noExecute then s.peek addr else none
  | none => none

def frameOf (regs : Reg → Word) : SyscallFrame where
  rax := regs .rax
  rdi := regs .rdi
  rsi := regs .rsi
  rdx := regs .rdx

/-- `int 0x80`: `c` is where the program goes on. -/
def trap (k : State) (c : Ring3) : Exec Outcome := do
  match ← (Syscall.syscallDispatch k (frameOf c.regs)).result with
  | (.value w, k') => return .running k' { c with regs := Function.update c.regs .rax w }
  | (.exit code, k') => return .exited code k'

def userStep (k : State) (c : Ring3) : Exec Outcome :=
  match decode fun i => executable k.space (c.rip + i) with
  | some (.mov m, n) => .ok (.running k ⟨m.run c.regs, c.rip + n⟩)
  | some (.int n, len) =>
    -- the other gates are closed to ring 3
    if n = 0x80#8 then trap k { c with rip := c.rip + len } else .error (.fault c.rip)
  | none => .error (.fault c.rip)

/-- At most `fuel` instructions. -/
def userRun : Nat → State → Ring3 → Exec Outcome
  | 0, k, c => .ok (.running k c)
  | fuel + 1, k, c => userStep k c >>= Outcome.andThen (userRun fuel)

/-! ## 2. Code in memory -/

/-- The bytes `bs` stand at `addr`, for user mode to execute. -/
def Placed (s : Space) (addr : Nat) (bs : Bytes) : Prop :=
  ∀ i < bs.length, executable s (addr + i) = bs[i]?

section

variable {s : Space} {addr : Nat} {xs ys : Bytes}

theorem Placed.starts (h : Placed s addr xs) : Starts (fun i => executable s (addr + i)) xs := h

theorem Placed.left (h : Placed s addr (xs ++ ys)) : Placed s addr xs := Starts.left h

theorem Placed.right (h : Placed s addr (xs ++ ys)) : Placed s (addr + xs.length) ys := by
  intro i hi
  rw [Nat.add_assoc]
  exact Starts.drop xs h i hi

theorem peek_of_executable {b : BitVec 8} (h : executable s addr = some b) :
    s.peek addr = some b := by
  unfold executable at h
  split at h
  · split at h
    · exact h
    · cases h
  · cases h

theorem Placed.peek (h : Placed s addr xs) {i : Nat} (hi : i < xs.length) :
    s.peek (addr + i) = xs[i]? := by
  have he := h i hi
  rw [List.getElem?_eq_getElem hi] at he ⊢
  exact peek_of_executable he

/-- Bytes behind a pointer, as the kernel reads them. -/
theorem fetch_placed (h : Placed s addr xs) (hlt : addr + xs.length ≤ 2 ^ 64) {n : Nat}
    (hn : n ≤ xs.length) : (fetch s addr n).result = .ok (xs.take n) := by
  induction n generalizing addr xs with
  | zero => rfl
  | succ n ih =>
    rcases xs with - | ⟨b, bs⟩
    · exact absurd hn (by simp)
    · have hb : s.peek (addr % 2 ^ 64) = some b := by
        rw [Nat.mod_eq_of_lt (by rw [List.length_cons] at hlt; omega)]
        exact h.peek (i := 0) (by simp)
      have hrest : Placed s (addr + 1) bs := (show Placed s addr ([b] ++ _) from h).right
      rw [fetch, Traced.result_bind, load_eq_ok.mpr hb, exec_ok_bind, Traced.result_bind,
        ih hrest (by rw [List.length_cons] at hlt; omega) (by simpa using hn)]
      rfl

/-- A NUL-terminated string behind a pointer: the path, if it is valid UTF-8. -/
theorem readUserCstrFrom_placed {path before : Bytes} (h : Placed s addr (path ++ [0#8]))
    (hpos : 0 < addr) (hlt : addr + path.length < 2 ^ 64) (hnul : 0#8 ∉ path) {fuel : Nat}
    (hfuel : path.length < fuel) :
    (readUserCstrFrom s fuel addr before).result = .ok (Utf8.fromUtf8 (before ++ path)) := by
  induction path generalizing addr before fuel with
  | nil =>
    obtain ⟨fuel, rfl⟩ := Nat.exists_eq_add_one_of_ne_zero (Nat.ne_of_gt hfuel)
    have hmod : addr % 2 ^ 64 = addr := Nat.mod_eq_of_lt (by simpa using hlt)
    have hb : s.peek addr = some 0#8 := h.peek (i := 0) (by simp)
    rw [readUserCstrFrom, hmod, if_neg (Nat.ne_of_gt hpos), Traced.result_bind,
      load_eq_ok.mpr hb, exec_ok_bind, if_pos rfl, List.append_nil]
    rfl
  | cons b path ih =>
    obtain ⟨fuel, rfl⟩ := Nat.exists_eq_add_one_of_ne_zero (Nat.ne_of_gt (Nat.zero_lt_of_lt hfuel))
    rw [List.length_cons] at hlt hfuel
    have hmod : addr % 2 ^ 64 = addr := Nat.mod_eq_of_lt (by omega)
    have hb : s.peek addr = some b := h.peek (i := 0) (by simp)
    have hne : b ≠ 0#8 := fun he => hnul (he ▸ List.mem_cons_self)
    have hrest : Placed s (addr + 1) (path ++ [0#8]) := (show Placed s addr ([b] ++ _) from h).right
    rw [readUserCstrFrom, hmod, if_neg (Nat.ne_of_gt hpos), Traced.result_bind,
      load_eq_ok.mpr hb, exec_ok_bind, if_neg hne,
      ih hrest (by omega) (by omega) (fun hm => hnul (List.mem_cons_of_mem _ hm)) (by omega),
      List.append_assoc, List.singleton_append]

end

/-- A string that is too long. -/
theorem readUserCstrFrom_long {path before : Bytes} (h : Placed s addr path) (hpos : 0 < addr)
    (hlt : addr + path.length ≤ 2 ^ 64) (hnul : 0#8 ∉ path) {fuel : Nat}
    (hfuel : fuel ≤ path.length) :
    (readUserCstrFrom s fuel addr before).result = .ok none := by
  induction fuel generalizing addr path before with
  | zero => rfl
  | succ fuel ih =>
    rcases path with - | ⟨b, path⟩
    · exact absurd hfuel (by simp)
    · rw [List.length_cons] at hlt hfuel
      have hmod : addr % 2 ^ 64 = addr := Nat.mod_eq_of_lt (by omega)
      have hb : s.peek addr = some b := h.peek (i := 0) (by simp)
      have hne : b ≠ 0#8 := fun he => hnul (he ▸ List.mem_cons_self)
      have hrest : Placed s (addr + 1) path := (show Placed s addr ([b] ++ _) from h).right
      rw [readUserCstrFrom, hmod, if_neg (Nat.ne_of_gt hpos), Traced.result_bind,
        load_eq_ok.mpr hb, exec_ok_bind, if_neg hne]
      exact ih hrest (by omega) (by omega) (fun hm => hnul (List.mem_cons_of_mem _ hm)) (by omega)

/-- The path that `sys_open` finds behind a pointer to `path` and a NUL. -/
def pathOf (path : Bytes) : Option Str :=
  if path.length < 256 then Utf8.fromUtf8 path else none

theorem readUserCstr_placed {path : Bytes} {ptr : Word} (h : Placed s ptr.toNat (path ++ [0#8]))
    (hpos : 0 < ptr.toNat) (hlt : ptr.toNat + path.length < 2 ^ 64) (hnul : 0#8 ∉ path) :
    (readUserCstr s ptr).result = .ok (pathOf path) := by
  unfold readUserCstr pathOf
  split
  · exact readUserCstrFrom_placed h hpos hlt hnul ‹_›
  · exact readUserCstrFrom_long h.left hpos (by omega) hnul (by omega)

/-! ## 3. Calls on the file layer -/

/-- A slice that the kernel holds itself. -/
def held (bytes : Bytes) : Source := ⟨bytes.length, pure bytes⟩

/-- The bytes behind a source are asked for once or not at all; only they matter. -/
theorem inode_write_result {d : Devices} {t : Traced Bytes} {n : Nat} {bytes : Bytes}
    (h : t.result = .ok bytes) (i : Inode) :
    (i.write d ⟨n, t⟩).result = (i.write d ⟨n, pure bytes⟩).result := by
  cases i with
  | console => simp only [Inode.write, Traced.result_bind, h, Traced.result_pure]
  | socket idx =>
    simp only [Inode.write, Traced.result_bind, Net.Sockets.write]
    split
    · unfold Net.Sockets.sendto
      split
      · rfl
      · simp only [Traced.result_bind, h, Traced.result_pure]
    · rfl
  | _ => rfl

theorem write_result {sys : System} {fd n : Nat} {t : Traced Bytes} {bytes : Bytes}
    (h : t.result = .ok bytes) :
    (sys.write fd ⟨n, t⟩).result = (sys.write fd ⟨n, pure bytes⟩).result := by
  unfold System.write
  split
  · rfl
  · rw [Traced.result_bind, Traced.result_bind, inode_write_result h]

section

variable {k : State} {c : Ring3}

theorem trap_exit (hnr : c.regs .rax = SyscallNr.exit.toWord) :
    trap k c = .ok (.exited (c.regs .rdi) k) := by
  unfold trap Syscall.syscallDispatch frameOf
  rw [hnr]
  rfl

/-- `write` of bytes that are there. -/
theorem trap_write (hnr : c.regs .rax = SyscallNr.write.toWord) (hbuf : c.regs .rsi ≠ 0#64)
    {bytes : Bytes}
    (hdata : (fetch k.space (c.regs .rsi).toNat (clamp (c.regs .rdx))).result = .ok bytes) :
    trap k c = (do
      let (r, sys) ← (k.sys.write (c.regs .rdi).toNat (held bytes)).result
      return .running { k with sys }
        { c with regs := Function.update c.regs .rax (answer r) }) := by
  have hlen := result_fetch_length hdata
  unfold trap Syscall.syscallDispatch frameOf
  rw [hnr]
  show ((returning (sysWrite k _ _ _)).result >>= _) = _
  rw [returning, sysWrite, if_neg hbuf, Traced.result_bind, Traced.result_bind, write_result hdata,
    ← hlen]
  show (((k.sys.write _ (held bytes)).result >>= _) >>= _) >>= _ = _
  rcases (k.sys.write (c.regs .rdi).toNat (held bytes)).result with e | ⟨r, sys⟩
  · rfl
  · rfl

/-- The call of the file layer that `sys_open` comes to. -/
def openCall (sys : System) : Option Str → FsResult Nat × System
  | some path => sys.openPath path
  | none => (.error .invalidArg, sys)

theorem trap_open (hnr : c.regs .rax = SyscallNr.open_.toWord) {path : Option Str}
    (hpath : (readUserCstr k.space (c.regs .rdi)).result = .ok path) :
    trap k c = .ok (.running { k with sys := (openCall k.sys path).2 }
      { c with regs := Function.update c.regs .rax (answer (openCall k.sys path).1) }) := by
  unfold trap Syscall.syscallDispatch frameOf
  rw [hnr]
  show ((returning (sysOpen k _)).result >>= _) = _
  rw [returning, sysOpen, Traced.result_bind, Traced.result_bind, hpath]
  rcases path with - | path
  · rfl
  · rfl

end

/-! ## 4. Lists of calls -/

/-- The code of one call. -/
def callCode (ms : List Mov) : Bytes := ms.flatMap Mov.encode ++ encode (.int 0x80#8)

/-- **What a list of calls means**: each makes its moves and calls the kernel. -/
def runCalls (k : State) (c : Ring3) : List (List Mov) → Exec Outcome
  | [] => .ok (.running k c)
  | ms :: rest =>
    trap k ⟨Mov.runAll c.regs ms, c.rip + (callCode ms).length⟩ >>=
      Outcome.andThen fun k c => runCalls k c rest

/-- The instructions of a list of calls. -/
def callSteps (calls : List (List Mov)) : Nat := (calls.map fun ms => ms.length + 1).sum

section

variable {k : State} {c : Ring3}

theorem userStep_mov {m : Mov} (h : Placed k.space c.rip m.encode) :
    userStep k c = .ok (.running k ⟨m.run c.regs, c.rip + m.encode.length⟩) := by
  rw [userStep, decode_encode (i := .mov m) h.starts]
  rfl

theorem userStep_int (h : Placed k.space c.rip (encode (.int 0x80#8))) :
    userStep k c = trap k { c with rip := c.rip + 2 } := by
  rw [userStep, decode_encode h.starts]
  rfl

/-- Moves, one after the other. -/
theorem userRun_moves {ms : List Mov} {fuel : Nat}
    (h : Placed k.space c.rip (ms.flatMap Mov.encode)) :
    userRun (ms.length + fuel) k c =
      userRun fuel k ⟨Mov.runAll c.regs ms, c.rip + (ms.flatMap Mov.encode).length⟩ := by
  induction ms generalizing c with
  | nil => rw [List.length_nil, Nat.zero_add]; rfl
  | cons m ms ih =>
    rw [List.flatMap_cons] at h ⊢
    rw [List.length_cons, Nat.add_right_comm, userRun, userStep_mov h.left, exec_ok_bind,
      Outcome.andThen, ih h.right, List.length_append, Nat.add_assoc]
    rfl

/-- **One call**: its moves, then the kernel. -/
theorem userRun_call {ms : List Mov} {fuel : Nat} (h : Placed k.space c.rip (callCode ms)) :
    userRun (ms.length + 1 + fuel) k c =
      trap k ⟨Mov.runAll c.regs ms, c.rip + (callCode ms).length⟩ >>=
        Outcome.andThen (userRun fuel) := by
  rw [Nat.add_assoc, Nat.add_comm 1, userRun_moves h.left, userRun, userStep_int h.right, callCode,
    List.length_append, Nat.add_assoc]
  rfl

/-- Only `read` writes to the caller's memory. -/
theorem dispatch_space {f : SyscallFrame} {r : Reply} {k' : State}
    (h : (Syscall.syscallDispatch k f).result = .ok (r, k'))
    (hread : f.rax ≠ SyscallNr.read.toWord) :
    k'.space = k.space := by
  cases dispatch_does h with
  | write _ _ hspace _ => exact hspace
  | read hnr _ => exact absurd hnr hread
  | noPath _ => rfl
  | openPath path _ => rfl
  | close _ => rfl
  | socket _ => rfl
  | bind _ =>
    show (onSocket k _ _).2.space = k.space
    unfold onSocket
    split
    · split <;> rfl
    · rfl
  | connect _ =>
    show (onSocket k _ _).2.space = k.space
    unfold onSocket
    split
    · split <;> rfl
    · rfl
  | exit _ => rfl
  | unknown _ => rfl

theorem trap_running {c' : Ring3} {k' : State} (h : trap k c = .ok (.running k' c'))
    (hread : c.regs .rax ≠ SyscallNr.read.toWord) : k'.space = k.space ∧ c'.rip = c.rip := by
  rw [trap] at h
  obtain ⟨⟨r, k₁⟩, hd, h⟩ := bind_eq_ok.mp h
  cases r with
  | value w =>
    cases h
    exact ⟨dispatch_space hd hread, rfl⟩
  | exit code => cases h

/-- **Code that makes calls does what the calls mean**, if it leaves its own memory alone. -/
theorem userRun_calls {calls : List (List Mov)}
    (h : Placed k.space c.rip (calls.flatMap callCode))
    (hread : ∀ ms ∈ calls, ∀ regs, Mov.runAll regs ms .rax ≠ SyscallNr.read.toWord) :
    userRun (callSteps calls) k c = runCalls k c calls := by
  induction calls generalizing k c with
  | nil => rfl
  | cons ms calls ih =>
    obtain ⟨hms, hcalls⟩ := List.forall_mem_cons.mp hread
    rw [List.flatMap_cons] at h
    have hsteps : callSteps (ms :: calls) = ms.length + 1 + callSteps calls := by
      simp [callSteps]
    rw [hsteps, userRun_call h.left, runCalls]
    rcases htrap : trap k ⟨Mov.runAll c.regs ms, c.rip + (callCode ms).length⟩ with e | o
    · rfl
    · cases o with
      | exited code k' => rfl
      | running k' c' =>
        obtain ⟨hspace, hrip⟩ := trap_running htrap (hms c.regs)
        have hright : Placed k'.space c'.rip (calls.flatMap callCode) := by
          rw [hspace, hrip]
          exact h.right
        exact ih hright hcalls

end

end SimpleLinux.User
