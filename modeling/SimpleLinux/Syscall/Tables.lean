/-
  File:      SimpleLinux/Syscall/Tables.lean
  Subject:   What do the system calls do to the tables of the kernel, and what is left of a call
             that fails?

  A call goes through the descriptor table, the socket table and the keyboard buffer one after the
  other. All but one look before they change anything: `sys_socket` takes a socket first and a
  descriptor second, and does not give the socket back if there is none.

  * `dispatch_table`, `table_within_limit` -- a call is at most one call of the descriptor table, so
    the table keeps its limit;
  * `write_keeps`, `read_keeps`, `openPath_keeps`, ... -- a failed call changes nothing;
  * `syscall_atomic_iff` -- except for one; `socket_leaks`.
-/
import SimpleLinux.Syscall.Dispatch

namespace SimpleLinux.Syscall

open Rust Paging Runs Fs
open X86 (Word)
open Net (Byte Bytes)

variable {k k' : State} {w : Word}

/-! ## 1. The descriptor table -/

/-- At most one call of the descriptor table. -/
def Calls (t t' : FdTable Inode) : Prop := t' = t ∨ ∃ c es, Fs.step t c = some (t', es)

theorem onSocket_fds (k : State) (fd : Word) (f : Net.Stack → Nat → Bool × Net.Stack) :
    (onSocket k fd f).2.sys.fds = k.sys.fds := by
  unfold onSocket
  split
  · split
    · rfl
    · rfl
  · rfl

theorem dispatch_table {f : SyscallFrame} {r : Reply}
    (h : (syscallDispatch k f).result = .ok (r, k')) : Calls k.sys.fds k'.sys.fds := by
  rcases dispatch_does h with ⟨-, -, -, hdo⟩ | ⟨-, hdo⟩ | - | ⟨path, -⟩ | - | - | - | - | - | -
  case write r =>
    refine .inr ⟨.write f.rdi.toNat fun _ _ => r, [(.write f.rdi.toNat fun _ _ => r, r)], ?_⟩
    rw [Fs.step, System.write_table hdo]
  case read r =>
    refine .inr ⟨.read f.rdi.toNat fun _ _ => r, [(.read f.rdi.toNat fun _ _ => r, r)], ?_⟩
    rw [Fs.step, System.read_table hdo]
  case openPath => exact .inr ⟨.openPath (resolve Inode.lookup k.sys.mounts path), _, rfl⟩
  case close => exact .inr ⟨.close f.rdi.toNat, _, rfl⟩
  case socket => exact .inr ⟨.installInode _, _, rfl⟩
  case bind => exact .inl (onSocket_fds ..)
  case connect => exact .inl (onSocket_fds ..)
  all_goals exact .inl rfl

/-- One action, on the descriptors. -/
theorem step_table {a : Action} {es : List Reply} (h : step k a = some (k', es)) :
    Calls k.sys.fds k'.sys.fds := by
  rcases a with f | space | ⟨dport, src, sport, data⟩ | b
  · unfold step at h
    dsimp only at h
    split at h
    · rename_i hr
      cases h
      exact dispatch_table hr
    · cases h
  all_goals
    cases h
    exact .inl rfl

theorem length_seed {t t' : FdTable Inode} {inode : Inode} {n : Nat} (hlen : t.length ≤ maxFds)
    (h : System.seed t inode n = .ok t') : t'.length ≤ maxFds := by
  induction n generalizing t with
  | zero =>
    cases h
    exact hlen
  | succ n ih =>
    rw [System.seed, install_eq] at h
    split at h
    · rename_i fd t₁ hroom
      split at hroom
      · rename_i hlt
        cases hroom
        have hhole : Slots.hole t < maxFds := by omega
        exact ih (length_insert_le _ hlen hhole) h
      · cases hroom
    · cases h

theorem Booted.length (h : Booted k) : k.sys.fds.length ≤ maxFds := by
  obtain ⟨tar, devices, hinit⟩ := h
  obtain ⟨root, path, inode, fds, -, hseed, hsys⟩ := System.init_eq_ok hinit
  rw [hsys]
  exact length_seed (Nat.zero_le _) hseed

/-- **The table keeps its limit** in every run. -/
theorem table_within_limit {k₀ : State} {es : List Reply} (hboot : Booted k₀)
    (h : Run step anyStep k₀ es k) : k.sys.fds.length ≤ maxFds := by
  refine Run.invariant (I := fun k => k.sys.fds.length ≤ maxFds) h hboot.length
    fun s a s' es' hlen _ hs => ?_
  rcases step_table hs with he | ⟨c, cs, hc⟩
  · rw [he]
    exact hlen
  · obtain ⟨-, -, -, hle⟩ := step_refines hlen hc
    exact hle

/-! ## 2. Calls that fail -/

/-- The tables that a failed call has to leave alone: descriptors, sockets, keys. -/
def State.tables (k : State) : FdTable Inode × List (Option Net.Socket) × Bytes :=
  (k.sys.fds, k.sys.devices.net.sockets, k.sys.devices.keys)

/-- If `w` is a negative errno, the tables are as before. -/
def Keeps (k : State) (w : Word) (k' : State) : Prop := w.msb = true → k'.tables = k.tables

/-- A call that returns a negative errno leaves the tables as they were. -/
def Atomic (k : State) (f : SyscallFrame) : Prop :=
  ∀ w k', (syscallDispatch k f).result = .ok (.value w, k') → Keeps k w k'

/-- No descriptor is free. -/
def Full (t : FdTable Inode) : Prop := ∀ fd < maxFds, Slots.get t fd ≠ none

theorem full_iff {t : FdTable Inode} (hlen : t.length ≤ maxFds) :
    Full t ↔ ¬ (Slots.hole t < maxFds ∨ Slots.hole t < t.length) := by
  have hle := Slots.hole_le t
  constructor
  · intro hfull hroom
    have hlt : Slots.hole t < maxFds := by omega
    exact hfull _ hlt (Slots.get_hole t)
  · intro hroom fd hfd
    exact Slots.get_ne_none_of_lt_hole (by omega)

theorem errno_msb (e : FsError) : (errno e).msb = true := by
  cases e
  all_goals decide

/-- A count is never taken for an errno. -/
theorem answer_msb {r : FsResult Nat} (hr : ∀ n, r = .ok n → n < 2 ^ 63)
    (h : (answer r).msb = true) : ∃ e, r = .error e := by
  rcases r with e | n
  · exact ⟨e, rfl⟩
  · have hn := hr n rfl
    rw [answer, BitVec.msb_eq_decide, BitVec.toNat_ofNat, decide_eq_true_iff] at h
    omega

theorem clamp_le (len : Word) : clamp len ≤ 4096 := Nat.min_le_right ..

theorem write_keeps {fd : Nat} {data : Source} {r : FsResult Nat} (hdata : data.len ≤ 4096)
    (h : (k.sys.write fd data).result = .ok (r, k'.sys)) : Keeps k (answer r) k' := by
  intro hneg
  rcases System.write_cases h with ⟨-, -, hsame⟩ | ⟨f, -, hw, -, hfds⟩
  · rw [State.tables, hsame]
    rfl
  · obtain ⟨hsockets, hkeys, hlen⟩ := Inode.write_spec hw
    obtain ⟨e, rfl⟩ := answer_msb (fun n hn => by rw [hlen n hn]; omega) hneg
    rcases hfds with ⟨-, -, hfds⟩ | ⟨n, hn, -⟩
    · rw [State.tables, hfds, hsockets, hkeys]
      rfl
    · cases hn

theorem read_keeps {β : Type} {fd len : Nat} {put : Bytes → Traced β} {out : β} {r : FsResult Nat}
    (hlen : len ≤ 4096) (h : (k.sys.read fd len put).result = .ok (r, k'.sys, out)) :
    Keeps k (answer r) k' := by
  intro hneg
  rcases System.read_cases h with ⟨-, -, hsame⟩ | ⟨-, -, -, -, hsame⟩ |
    ⟨f, bytes, -, hread, rfl, -⟩
  · rw [State.tables, hsame]
    rfl
  · rw [State.tables, hsame]
    rfl
  · have hle := Inode.length_read hread
    obtain ⟨e, he⟩ := answer_msb (fun n hn => by cases hn; omega) hneg
    cases he

/-- With room for a descriptor the answer is not an errno. -/
theorem room_answers (hlen : k.sys.fds.length ≤ maxFds) :
    (answer (.ok (Slots.hole k.sys.fds))).msb = false := by
  have hhole := Slots.hole_le k.sys.fds
  have hmax : maxFds = 64 := rfl
  refine Bool.eq_false_iff.mpr fun hneg => ?_
  obtain ⟨e, he⟩ := answer_msb (fun n hn => by cases hn; omega) hneg
  cases he

theorem openPath_keeps (hlen : k.sys.fds.length ≤ maxFds) (path : Str) :
    Keeps k (answer (k.sys.openPath path).1) { k with sys := (k.sys.openPath path).2 } := by
  rw [System.openPath_eq]
  rcases resolve Inode.lookup k.sys.mounts path with e | inode
  · exact fun _ => rfl
  · dsimp only
    rw [System.installInode_eq]
    split
    · intro hneg
      rw [room_answers hlen] at hneg
      cases hneg
    · exact fun _ => rfl

theorem sysClose_keeps (k : State) (fd : Word) : Keeps k (sysClose k fd).1 (sysClose k fd).2 := by
  unfold sysClose System.close Fs.close
  rcases Slots.get k.sys.fds fd.toNat with - | f
  · exact fun _ => rfl
  · intro hneg
    have hzero : (0#64 : Word).msb = true := hneg
    exact absurd hzero (by decide)

/-- A change of a socket that fails is none. -/
theorem change_failed {s net : Net.Stack} {idx : Nat} {f : Net.Socket → Net.Socket}
    (h : Net.Sockets.change s idx f = (false, net)) : net = s := by
  unfold Net.Sockets.change at h
  split at h
  · cases h
  · cases h
    rfl

theorem onSocket_keeps (k : State) (fd : Word) {f : Net.Stack → Nat → Bool × Net.Stack}
    (hf : ∀ s idx net, f s idx = (false, net) → net = s) :
    Keeps k (onSocket k fd f).1 (onSocket k fd f).2 := by
  unfold onSocket
  rcases k.sys.sockIndex fd.toNat with - | idx
  · exact fun _ => rfl
  · dsimp only
    rcases hcall : f k.sys.devices.net idx with ⟨- | -, net⟩
    · intro _
      rw [hf _ _ _ hcall]
      rfl
    · intro hneg
      have hzero : (0#64 : Word).msb = true := hneg
      exact absurd hzero (by decide)

/-! ## 3. The socket -/

/-- A new socket is a new entry of the table. -/
theorem socket_changes (s : Net.Stack) (proto : Byte) :
    (Net.Sockets.socket s proto).2.sockets ≠ s.sockets := by
  intro he
  have hnew : Slots.get (Net.Sockets.socket s proto).2.sockets (Slots.hole s.sockets) =
      some (Net.Sockets.unbound proto) := by
    rw [Net.Sockets.socket_eq]
    dsimp only
    rw [Slots.get_insert, if_pos rfl]
  rw [he, Slots.get_hole] at hnew
  cases hnew

/-- Without a descriptor for it, the socket stays behind. -/
theorem sysSocket_keeps_iff (hlen : k.sys.fds.length ≤ maxFds) (proto : Word) :
    Keeps k (sysSocket k proto).1 (sysSocket k proto).2 ↔ ¬ Full k.sys.fds := by
  rw [full_iff hlen, not_not, sysSocket]
  generalize hnet : Net.Sockets.socket k.sys.devices.net (proto.setWidth 8) = r
  dsimp only
  have hfds : (k.setNet r.2).sys.fds = k.sys.fds := rfl
  rw [System.installInode_eq, hfds]
  constructor
  · intro hkeeps
    by_contra hroom
    rw [if_neg hroom] at hkeeps
    have hsame := congrArg (fun t => t.2.1) (hkeeps (errno_msb .noSpace))
    refine socket_changes k.sys.devices.net (proto.setWidth 8) ?_
    rw [hnet]
    exact hsame
  · intro hroom hneg
    rw [if_pos hroom, room_answers hlen] at hneg
    cases hneg

/-- **Failed calls are atomic, with one exception.** In every state whose descriptor table is within
    its limit, and for all registers: a call that returns a negative errno leaves the descriptors,
    the sockets and the keyboard buffer as they were, unless it is a `socket` and no descriptor is
    free. -/
theorem syscall_atomic_iff (hlen : k.sys.fds.length ≤ maxFds) (f : SyscallFrame) :
    Atomic k f ↔ ¬ (f.rax = SyscallNr.socket.toWord ∧ Full k.sys.fds) := by
  constructor
  · intro hatomic ⟨hnr, hfull⟩
    have hdispatch : (syscallDispatch k f).result =
        .ok (.value (sysSocket k f.rdi).1, (sysSocket k f.rdi).2) := by
      rw [syscallDispatch, SyscallNr.ofWord_eq_some.mpr hnr]
      rfl
    exact (sysSocket_keeps_iff hlen f.rdi).mp (hatomic _ _ hdispatch) hfull
  · intro hnot w k' h
    rcases dispatch_does h with ⟨-, -, -, hdo⟩ | ⟨-, hdo⟩ | - | ⟨path, -⟩ | - | hnr | - | - | - | -
    case write => exact write_keeps (clamp_le _) hdo
    case read => exact read_keeps (clamp_le _) hdo
    case openPath => exact openPath_keeps hlen path
    case close => exact sysClose_keeps k f.rdi
    case socket => exact (sysSocket_keeps_iff hlen f.rdi).mpr fun hfull => hnot ⟨hnr, hfull⟩
    case bind => exact onSocket_keeps k f.rdi fun _ _ _ hc => change_failed hc
    case connect => exact onSocket_keeps k f.rdi fun _ _ _ hc => change_failed hc
    all_goals exact fun _ => rfl

/-- After boot, a program with two pages. -/
def atBoot : State := boot (.quiet none) (twoPages [])

/-- At boot, a `connect` on a descriptor that was never opened is refused without a trace. -/
theorem syscall_atomic_boot :
    atBoot.sys.fds.length ≤ maxFds ∧
      Atomic atBoot ⟨SyscallNr.connect.toWord, 7#64, 0x0a000202#64, 9999#64⟩ ∧
      ((syscallDispatch atBoot ⟨SyscallNr.connect.toWord, 7#64, 0x0a000202#64, 9999#64⟩).result.map
        Prod.fst) = .ok (.value (errno .invalidArg)) := by
  have hlen : atBoot.sys.fds.length ≤ maxFds := by decide
  refine ⟨hlen, (syscall_atomic_iff hlen _).mpr ?_, rfl⟩
  rintro ⟨hnr, -⟩
  exact absurd hnr (by decide)

/-- The call `socket(17)`. -/
def socketCall : SyscallFrame := ⟨SyscallNr.socket.toWord, 17#64, 0#64, 0#64⟩

/-- The sockets before a call and after it, if it finds no descriptor. -/
def leftBehind (k : State) : Option (Nat × Nat) :=
  match (syscallDispatch k socketCall).result with
  | .ok (.value w, k') =>
    if w = errno .noSpace then
      some (k.sys.devices.net.sockets.length, k'.sys.devices.net.sockets.length)
    else none
  | _ => none

/-- **A socket is left behind**: the descriptors are used up, `socket` returns `NoSpace`, and the
    socket table has an entry more that no descriptor stands for. -/
theorem socket_leaks :
    ∃ k₀ es k k', Booted k₀ ∧ Run step anyStep k₀ es k ∧
      (syscallDispatch k socketCall).result = .ok (.value (errno .noSpace), k') ∧
      k.sys.devices.net.sockets.length = 61 ∧ k'.sys.devices.net.sockets.length = 62 ∧
      ¬ Atomic k socketCall := by
  have hex : (exec step (fun _ _ => true) atBoot (List.replicate 61 (.syscall socketCall))).any
      (fun r => leftBehind r.1 == some (61, 62)) = true := by decide +kernel
  obtain ⟨⟨k, es⟩, hrun, hleft⟩ := (Option.any_eq_true _ _).mp hex
  have hleft := eq_of_beq hleft
  unfold leftBehind at hleft
  split at hleft
  · rename_i w k' hr
    split at hleft
    · rename_i hw
      obtain ⟨hbefore, hafter⟩ := Prod.mk.inj (Option.some.inj hleft)
      subst hw
      refine ⟨atBoot, es, k, k', booted_boot _ _, (run_of_exec _ hrun).any, hr, hbefore, hafter, ?_⟩
      intro hatomic
      have hsame : k'.sys.devices.net.sockets.length = k.sys.devices.net.sockets.length :=
        congrArg (fun t => t.2.1.length) (hatomic _ _ hr (errno_msb .noSpace))
      exact absurd (hafter.symm.trans (hsame.trans hbefore)) (by decide)
    · cases hleft
  · cases hleft

end SimpleLinux.Syscall
