/-
  File:      SimpleLinux/Syscall/Dispatch.lean
  Subject:   The system calls: `syscall_dispatch` and the `sys_*` functions of syscall/mod.rs.

  The state is the file layer with its devices, and the address space of the moment, kernel pages
  included: the kernel follows the pointers of a caller through the same page tables. What the
  kernel keeps on its heap is not part of that space.

  A call is traced: one sees where the caller's pointers were followed to. Between two calls the
  program runs and may change its memory; datagrams and keys arrive.

  * `sysWrite`, `sysRead`, `sysOpen`, ..., `syscallDispatch` -- the code;
  * `Does`, `dispatch_does` -- everything that a call can do;
  * `Action`, `step`, `Booted` -- a call, or what happens between two calls; where it all starts.
-/
import SimpleLinux.Fs.Inode
import SimpleLinux.Syscall.UserMode

namespace SimpleLinux.Syscall

open Rust Paging Runs Fs
open X86 (Word)
open Net (Byte Bytes Ipv4)

/-! ## 1. The calls -/

/-- The registers that `syscall_dispatch` reads. -/
structure SyscallFrame where
  rax : Word
  rdi : Word
  rsi : Word
  rdx : Word

structure State where
  sys : System
  space : Space

/-- What a call comes to: a value in `rax`, or the end of the program. -/
inductive Reply
  | value (rax : Word)
  | exit (code : Word)
  deriving DecidableEq

def errno (e : FsError) : Word := BitVec.ofInt 64 e.errno

/-- `Ok(k) => k as u64, Err(e) => e.errno() as u64`. -/
def answer : FsResult Nat → Word
  | .ok k => BitVec.ofNat 64 k
  | .error e => errno e

/-- The limit of `sys_read` and `sys_write`. -/
def clamp (len : Word) : Nat := min len.toNat 4096

/-- The loop of `read_user_cstr`. A null pointer is refused before it is followed. -/
def readUserCstrFrom (space : Space) : Nat → Nat → Bytes → Traced (Option Str)
  | 0, _, _ => pure none
  | fuel + 1, p, bytes =>
    if p % 2 ^ 64 = 0 then Traced.stop .precondition
    else do
      let c ← load space (p % 2 ^ 64)
      if c = 0#8 then return Utf8.fromUtf8 bytes
      else readUserCstrFrom space fuel (p + 1) (bytes ++ [c])

/-- A NUL-terminated, valid UTF-8 string of at most 255 bytes. -/
def readUserCstr (space : Space) (ptr : Word) : Traced (Option Str) :=
  readUserCstrFrom space 256 ptr.toNat []

def sysOpen (k : State) (path : Word) : Traced (Word × State) := do
  match ← readUserCstr k.space path with
  | none => return (errno .invalidArg, k)
  | some path =>
    let (r, sys) := k.sys.openPath path
    return (answer r, { k with sys })

/-- `from_raw_parts_mut` refuses a null pointer, whatever the length. -/
def sysRead (k : State) (fd buf len : Word) : Traced (Word × State) :=
  if buf = 0#64 then Traced.stop .precondition
  else do
    let (r, sys, space) ← k.sys.read fd.toNat (clamp len) (deposit k.space buf.toNat)
    return (answer r, { sys, space })

/-- `from_raw_parts` refuses a null pointer, whatever the length. -/
def sysWrite (k : State) (fd buf len : Word) : Traced (Word × State) :=
  if buf = 0#64 then Traced.stop .precondition
  else do
    let (r, sys) ← k.sys.write fd.toNat ⟨clamp len, fetch k.space buf.toNat (clamp len)⟩
    return (answer r, { k with sys })

def sysClose (k : State) (fd : Word) : Word × State :=
  let (r, sys) := k.sys.close fd.toNat
  (answer (r.map fun _ => 0), { k with sys })

/-- Another state of the network. -/
def State.setNet (k : State) (net : Net.Stack) : State :=
  { k with sys := { k.sys with devices := { k.sys.devices with net } } }

/-- The socket is there before its descriptor is. -/
def sysSocket (k : State) (proto : Word) : Word × State :=
  let (idx, net) := Net.Sockets.socket k.sys.devices.net (proto.setWidth 8)
  let (r, sys) := (k.setNet net).sys.installInode (.socket idx)
  (answer r, { k with sys })

/-- The common shape of `sys_bind` and `sys_connect`. -/
def onSocket (k : State) (fd : Word) (f : Net.Stack → Nat → Bool × Net.Stack) : Word × State :=
  match k.sys.sockIndex fd.toNat with
  | some idx =>
    match f k.sys.devices.net idx with
    | (true, net) => (0#64, k.setNet net)
    | (false, net) => (errno .invalidArg, k.setNet net)
  | none => (errno .invalidArg, k)

def sysBind (k : State) (fd port : Word) : Word × State :=
  onSocket k fd fun net idx => Net.Sockets.bind net idx (port.setWidth 16)

/-- `(ip as u32).to_be_bytes()`. -/
def ipOf (ip : Word) : Ipv4 :=
  #v[ip.extractLsb' 24 8, ip.extractLsb' 16 8, ip.extractLsb' 8 8, ip.extractLsb' 0 8]

def sysConnect (k : State) (fd ip port : Word) : Word × State :=
  onSocket k fd fun net idx => Net.Sockets.connect net idx (ipOf ip) (port.setWidth 16)

/-- A call that leaves a value in `rax`. -/
def returning (x : Traced (Word × State)) : Traced (Reply × State) := do
  let (w, k) ← x
  return (.value w, k)

def syscallDispatch (k : State) (f : SyscallFrame) : Traced (Reply × State) :=
  match SyscallNr.ofWord f.rax with
  | some .write => returning (sysWrite k f.rdi f.rsi f.rdx)
  | some .read => returning (sysRead k f.rdi f.rsi f.rdx)
  | some .open_ => returning (sysOpen k f.rdi)
  | some .close => returning (pure (sysClose k f.rdi))
  | some .socket => returning (pure (sysSocket k f.rdi))
  | some .bind => returning (pure (sysBind k f.rdi f.rsi))
  | some .connect => returning (pure (sysConnect k f.rdi f.rsi f.rdx))
  | some .exit => pure (.exit f.rdi, k)
  | none => returning (pure (enosys, k))

/-! ## 2. What a call can do -/

variable {k k' : State}

/-- The buffer of a `write`, read by need. -/
def source (k : State) (buf len : Word) : Source :=
  ⟨clamp len, fetch k.space buf.toNat (clamp len)⟩

/-- **Everything that a call which comes to an end can do.** -/
inductive Does (k : State) (f : SyscallFrame) : Reply → State → Prop
  | write {r : FsResult Nat} {k' : State} (hnr : f.rax = SyscallNr.write.toWord)
      (hbuf : f.rsi ≠ 0#64) (hspace : k'.space = k.space)
      (hdo : (k.sys.write f.rdi.toNat (source k f.rsi f.rdx)).result = .ok (r, k'.sys)) :
      Does k f (.value (answer r)) k'
  | read {r : FsResult Nat} {k' : State} (hnr : f.rax = SyscallNr.read.toWord)
      (hdo : (k.sys.read f.rdi.toNat (clamp f.rdx) (deposit k.space f.rsi.toNat)).result =
        .ok (r, k'.sys, k'.space)) :
      Does k f (.value (answer r)) k'
  | noPath (hnr : f.rax = SyscallNr.open_.toWord) : Does k f (.value (errno .invalidArg)) k
  | openPath (path : Str) (hnr : f.rax = SyscallNr.open_.toWord) :
      Does k f (.value (answer (k.sys.openPath path).1)) { k with sys := (k.sys.openPath path).2 }
  | close (hnr : f.rax = SyscallNr.close.toWord) :
      Does k f (.value (sysClose k f.rdi).1) (sysClose k f.rdi).2
  | socket (hnr : f.rax = SyscallNr.socket.toWord) :
      Does k f (.value (sysSocket k f.rdi).1) (sysSocket k f.rdi).2
  | bind (hnr : f.rax = SyscallNr.bind.toWord) :
      Does k f (.value (sysBind k f.rdi f.rsi).1) (sysBind k f.rdi f.rsi).2
  | connect (hnr : f.rax = SyscallNr.connect.toWord) :
      Does k f (.value (sysConnect k f.rdi f.rsi f.rdx).1) (sysConnect k f.rdi f.rsi f.rdx).2
  | exit (hnr : f.rax = SyscallNr.exit.toWord) : Does k f (.exit f.rdi) k
  | unknown (hnr : SyscallNr.ofWord f.rax = none) : Does k f (.value enosys) k

theorem returning_eq_ok {x : Traced (Word × State)} {r : Reply}
    (h : (returning x).result = .ok (r, k')) : ∃ w, r = .value w ∧ x.result = .ok (w, k') := by
  rw [returning, Traced.result_bind] at h
  obtain ⟨⟨w, k₁⟩, hx, he⟩ := bind_eq_ok.mp h
  cases he
  exact ⟨w, rfl, hx⟩

theorem sysWrite_does {f : SyscallFrame} {w : Word} (hnr : f.rax = SyscallNr.write.toWord)
    (h : (sysWrite k f.rdi f.rsi f.rdx).result = .ok (w, k')) : Does k f (.value w) k' := by
  rw [sysWrite] at h
  split at h
  · cases h
  · rename_i hbuf
    rw [Traced.result_bind] at h
    obtain ⟨⟨r, sys⟩, hw, he⟩ := bind_eq_ok.mp h
    cases he
    exact .write hnr hbuf rfl hw

theorem sysRead_does {f : SyscallFrame} {w : Word} (hnr : f.rax = SyscallNr.read.toWord)
    (h : (sysRead k f.rdi f.rsi f.rdx).result = .ok (w, k')) : Does k f (.value w) k' := by
  rw [sysRead] at h
  split at h
  · cases h
  · rw [Traced.result_bind] at h
    obtain ⟨⟨r, sys, space⟩, hr, he⟩ := bind_eq_ok.mp h
    cases he
    exact .read hnr hr

theorem sysOpen_does {f : SyscallFrame} {w : Word} (hnr : f.rax = SyscallNr.open_.toWord)
    (h : (sysOpen k f.rdi).result = .ok (w, k')) : Does k f (.value w) k' := by
  rw [sysOpen, Traced.result_bind] at h
  obtain ⟨- | p, -, he⟩ := bind_eq_ok.mp h
  · cases he
    exact .noPath hnr
  · cases he
    exact .openPath p hnr

theorem pure_does {f : SyscallFrame} {w : Word} {p : Word × State} (hdo : Does k f (.value p.1) p.2)
    (h : (pure p : Traced (Word × State)).result = .ok (w, k')) : Does k f (.value w) k' := by
  have he : p = (w, k') := Except.ok.inj h
  rw [he] at hdo
  exact hdo

theorem dispatch_does {f : SyscallFrame} {r : Reply}
    (h : (syscallDispatch k f).result = .ok (r, k')) : Does k f r k' := by
  rw [syscallDispatch] at h
  rcases hnr : SyscallNr.ofWord f.rax with - | nr
  · rw [hnr] at h
    obtain ⟨w, rfl, hw⟩ := returning_eq_ok h
    cases hw
    exact .unknown hnr
  · have hrax := SyscallNr.ofWord_eq_some.mp hnr
    rw [hnr] at h
    rcases nr with - | - | - | - | - | - | - | -
    case exit =>
      cases h
      exact .exit hrax
    all_goals obtain ⟨w, rfl, hw⟩ := returning_eq_ok h
    case write => exact sysWrite_does hrax hw
    case open_ => exact sysOpen_does hrax hw
    case read => exact sysRead_does hrax hw
    case close => exact pure_does (.close hrax) hw
    case socket => exact pure_does (.socket hrax) hw
    case bind => exact pure_does (.bind hrax) hw
    case connect => exact pure_does (.connect hrax) hw

/-! ## 3. Runs -/

inductive Action
  | syscall (f : SyscallFrame)
  /-- the program runs, or another is loaded: any other memory -/
  | user (space : Space)
  /-- a datagram arrives -/
  | deliver (dport : BitVec 16) (src : Ipv4) (sport : BitVec 16) (data : Bytes)
  /-- a key arrives -/
  | key (b : Byte)

/-- One action, with the reply of a call; impossible if the call does not return. -/
def step (k : State) : Action → Option (State × List Reply)
  | .syscall f =>
    match (syscallDispatch k f).result with
    | .ok (r, k') => some (k', [r])
    | .error _ => none
  | .user space => some ({ k with space }, [])
  | .deliver dport src sport data =>
    some (k.setNet (Net.Sockets.deliver k.sys.devices.net dport src sport data), [])
  | .key b =>
    some ({ k with sys := { k.sys with devices :=
      { k.sys.devices with keys := k.sys.devices.keys ++ [b] } } }, [])

/-- The state after `fs::init`, with any address space. -/
def Booted (k : State) : Prop := ∃ tar devices, System.init tar devices = .ok k.sys

/-- The state after `fs::init` over an empty ramdisk. -/
def boot (devices : Devices) (space : Space) : State where
  sys :=
    { fds := List.replicate 3 (some ⟨.console, 0⟩)
      mounts := System.mountTable (.dir [slash])
      devices }
  space := space

theorem booted_boot (devices : Devices) (space : Space) : Booted (boot devices space) :=
  ⟨[], devices, rfl⟩

/-- A page of the program at 0x400000 with a text, and a page of the kernel at 0xffff800000000000
    full of sevens. -/
def twoPages (text : Str) : Space where
  pages := fun page =>
    if page = 0x400 then some ⟨1, { writable := true, user := true, noExecute := false }⟩
    else if page = 0xffff800000000 then
      some ⟨2, { writable := true, user := false, noExecute := true }⟩
    else none
  mem := fun a => if a < 2 * pageSize then text.getD (a - pageSize) 0#8 else 7#8
  wp := true
  log := []

end SimpleLinux.Syscall
