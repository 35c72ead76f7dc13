/-
  File:      SimpleLinux/Syscall/Lifetime.lean
  Subject:   Does a socket live as long as its descriptor?

  `sys_socket` takes a slot of the socket table and a descriptor for it. `sys_close` gives back the
  descriptor and nothing else: `socket::close` is never called by a system call, and the inode has
  no hook that could call it.

  A run carries a GHOST: the slots that `sys_socket` took and those whose descriptor was closed.

  * `Quiet`, `does_quiet` -- every call but `socket` and `close` leaves both tables in step;
  * `Kept` -- the invariant: a slot that was taken stays taken, and its descriptor is the only one
    that stands for it until it is closed;
  * `sockets_follow_iff` -- so the two tables agree exactly as long as no socket was closed;
    `closed_socket_receives` -- a closed socket that still queues datagrams.
-/
import SimpleLinux.Net.Queues
import SimpleLinux.Syscall.Tables

namespace SimpleLinux.Syscall

open Rust Paging Runs Fs
open X86 (Word)
open Net (Byte Bytes)

/-! ## 1. The ghost -/

structure Ghost where
  /-- the slots that `sys_socket` took -/
  made : List Nat
  /-- the slots whose descriptor was closed -/
  shut : List Nat
  deriving DecidableEq

/-- Nothing has been taken yet. -/
def Ghost.empty : Ghost := ⟨[], []⟩

/-- What an action adds, seen from the state before it. -/
def Ghost.note (k : State) (g : Ghost) : Action → Ghost
  | .syscall f =>
    if f.rax = SyscallNr.socket.toWord then
      { g with made := g.made ++ [(Net.Sockets.socket k.sys.devices.net (f.rdi.setWidth 8)).1] }
    else if f.rax = SyscallNr.close.toWord then
      { g with shut := g.shut ++ (k.sys.sockIndex f.rdi.toNat).toList }
    else g
  | _ => g

/-- A step, with its ghost. -/
def ghostStep (p : State × Ghost) (a : Action) : Option ((State × Ghost) × List Reply) :=
  (step p.1 a).map fun r => ((r.1, p.2.note p.1 a), r.2)

/-- The action is not a `socket` that fails. -/
def socketSucceeds (p : State × Ghost) : Action → Bool
  | .syscall f => decide (f.rax = SyscallNr.socket.toWord → (sysSocket p.1 f.rdi).1.msb = false)
  | _ => true

/-- Slot `i` of the socket table is occupied. -/
def Occupied (k : State) (i : Nat) : Prop :=
  (Slots.get k.sys.devices.net.sockets i).isSome = true

/-- The occupied slots among those that `sys_socket` took are the `sock_index` values of the open
    descriptors. -/
def Follows (k : State) (g : Ghost) : Prop :=
  ∀ i, (i ∈ g.made ∧ Occupied k i) ↔ ∃ fd, k.sys.sockIndex fd = some i

/-! ## 2. Calls that leave both tables in step -/

/-- No descriptor stands for another socket than before, and no slot was taken or freed. -/
structure Quiet (k k' : State) : Prop where
  index : ∀ fd, k'.sys.sockIndex fd = k.sys.sockIndex fd
  occupied : ∀ i, Occupied k' i ↔ Occupied k i
  mounts : k'.sys.mounts = k.sys.mounts

/-- The root of no mounted file system is a socket. -/
def NoSocketMounted (mounts : List (Str × Inode)) : Prop := ∀ m ∈ mounts, m.2.sockIndex = none

variable {k k' : State}

theorem Quiet.refl (k : State) : Quiet k k := ⟨fun _ => rfl, fun _ => Iff.rfl, rfl⟩

/-- Moving the offset of a descriptor does not change what it stands for. -/
theorem sockIndex_update {s s' : System} {fd offset : Nat}
    (h : s'.fds = Slots.update s.fds fd fun g => { g with offset }) (fd' : Nat) :
    s'.sockIndex fd' = s.sockIndex fd' := by
  unfold System.sockIndex
  rw [h, Slots.get_update]
  split
  · rcases Slots.get s.fds fd' with - | f
    · rfl
    · rfl
  · rfl

theorem occupied_congr (h : k'.sys.devices.net.sockets = k.sys.devices.net.sockets) (i : Nat) :
    Occupied k' i ↔ Occupied k i := by
  rw [Occupied, Occupied, h]

theorem write_quiet {fd : Nat} {data : Source} {r : FsResult Nat}
    (h : (k.sys.write fd data).result = .ok (r, k'.sys)) : Quiet k k' := by
  have hmounts := System.write_mounts h
  rcases System.write_cases h with ⟨-, -, hsame⟩ | ⟨f, -, hw, -, hfds⟩
  · refine ⟨fun fd' => ?_, occupied_congr ?_, hmounts⟩
    · rw [hsame]
    · rw [hsame]
  · refine ⟨fun fd' => ?_, occupied_congr (Inode.write_spec hw).1, hmounts⟩
    rcases hfds with ⟨e, -, hfds⟩ | ⟨n, -, -, hfds⟩
    · rw [System.sockIndex, hfds]
      rfl
    · exact sockIndex_update hfds fd'

/-- A read takes a datagram from a queue, and changes nothing else of a socket. -/
theorem read_sockets {α : Type} (f : Net.Socket → α) (hf : ∀ k rx, f { k with rx } = f k)
    (d : Devices) (i : Inode) (offset len j : Nat) :
    (Slots.get (i.read d offset len).2.net.sockets j).map f =
      (Slots.get d.net.sockets j).map f := by
  rcases i with - | - | - | - | - | - | gen | n | idx
  case socket =>
    have hdevices : ((Inode.socket idx).read d offset len).2.net =
        (Net.Sockets.recvfrom d.net idx len).2 := by
      rw [Inode.read]
      split
      · rename_i hr
        rw [hr]
      · rename_i hr
        rw [hr]
    rw [hdevices]
    rcases Net.Sockets.recvfrom_cases d.net idx len with ⟨he, -⟩ | ⟨k, dgram, rx, -, -, he⟩
    · rw [he]
    · rw [he]
      dsimp only
      rw [Slots.get_update]
      split
      · rw [Option.map_map]
        exact congrArg (Option.map · _) (funext fun k => hf k rx)
      · rfl
  all_goals rfl

theorem read_occupied (d : Devices) (i : Inode) (offset len j : Nat) :
    (Slots.get (i.read d offset len).2.net.sockets j).isSome =
      (Slots.get d.net.sockets j).isSome := by
  have hsome := congrArg Option.isSome (read_sockets (fun _ => ()) (fun _ _ => rfl) d i offset
    len j)
  rwa [Option.isSome_map, Option.isSome_map] at hsome

theorem read_quiet {β : Type} {fd len : Nat} {put : Bytes → Traced β} {out : β} {r : FsResult Nat}
    (h : (k.sys.read fd len put).result = .ok (r, k'.sys, out)) : Quiet k k' := by
  have hmounts := System.read_mounts h
  rcases System.read_cases h with ⟨-, -, hsame⟩ | ⟨-, -, -, -, hsame⟩ |
    ⟨f, bytes, -, -, -, -, hfds, hdevices, -⟩
  · refine ⟨fun fd' => ?_, occupied_congr ?_, hmounts⟩
    · rw [hsame]
    · rw [hsame]
  · refine ⟨fun fd' => ?_, occupied_congr ?_, hmounts⟩
    · rw [hsame]
    · rw [hsame]
  · refine ⟨fun fd' => sockIndex_update hfds fd', fun i => ?_, hmounts⟩
    rw [Occupied, Occupied, hdevices, read_occupied]

/-- A new descriptor, the lowest unused one, stands for the new inode. -/
theorem sockIndex_insert (s : System) (inode : Inode) (fd : Nat) :
    ({ s with fds := Slots.insert s.fds ⟨inode, 0⟩ } : System).sockIndex fd =
      if fd = Slots.hole s.fds then inode.sockIndex else s.sockIndex fd := by
  unfold System.sockIndex
  dsimp only
  rw [Slots.get_insert]
  split
  · rfl
  · rfl

theorem sockIndex_hole (s : System) : s.sockIndex (Slots.hole s.fds) = none := by
  rw [System.sockIndex, Slots.get_hole]
  rfl

theorem openPath_quiet (hm : NoSocketMounted k.sys.mounts) (path : Str) :
    Quiet k { k with sys := (k.sys.openPath path).2 } := by
  rw [System.openPath_eq]
  rcases hr : resolve Inode.lookup k.sys.mounts path with e | inode
  · exact .refl k
  · dsimp only
    rw [System.installInode_eq]
    split
    · refine ⟨fun fd => ?_, fun i => Iff.rfl, rfl⟩
      rw [sockIndex_insert]
      split
      · rename_i hfd
        rw [hfd, sockIndex_hole, resolve_sockIndex hm hr]
      · rfl
    · exact .refl k

theorem change_quiet (k : State) (idx : Nat) (f : Net.Socket → Net.Socket) :
    Quiet k (k.setNet (Net.Sockets.change k.sys.devices.net idx f).2) := by
  refine ⟨fun fd => rfl, fun i => ?_, rfl⟩
  have hget := Net.Sockets.get_change k.sys.devices.net idx i f
  rw [Occupied, Occupied, State.setNet]
  dsimp only
  rw [hget]
  split
  · rw [Option.isSome_map]
  · exact Iff.rfl

theorem onSocket_quiet (k : State) (fd : Word) (f : Nat → Net.Socket → Net.Socket) :
    Quiet k (onSocket k fd fun net idx => Net.Sockets.change net idx (f idx)).2 := by
  unfold onSocket
  rcases k.sys.sockIndex fd.toNat with - | idx
  · exact .refl k
  · have hquiet := change_quiet k idx (f idx)
    dsimp only
    rcases hc : Net.Sockets.change k.sys.devices.net idx (f idx) with ⟨- | -, net⟩
    · rw [hc] at hquiet
      exact hquiet
    · rw [hc] at hquiet
      exact hquiet

/-- **All but `socket` and `close`.** -/
theorem does_quiet {f : SyscallFrame} {r : Reply} (hm : NoSocketMounted k.sys.mounts)
    (h : Does k f r k') (hsocket : f.rax ≠ SyscallNr.socket.toWord)
    (hclose : f.rax ≠ SyscallNr.close.toWord) : Quiet k k' := by
  rcases h with ⟨-, -, -, hdo⟩ | ⟨-, hdo⟩ | - | ⟨path, -⟩ | hnr | hnr | - | - | - | -
  case write => exact write_quiet hdo
  case read => exact read_quiet hdo
  case openPath => exact openPath_quiet hm path
  case close => exact absurd hnr hclose
  case socket => exact absurd hnr hsocket
  case bind => exact onSocket_quiet k f.rdi fun _ s => { s with localPort := f.rsi.setWidth 16 }
  case connect =>
    exact onSocket_quiet k f.rdi fun _ s => { s with peer := some (ipOf f.rsi, f.rdx.setWidth 16) }
  all_goals exact .refl _

theorem deliver_quiet (k : State) (dport : BitVec 16) (src : Net.Ipv4) (sport : BitVec 16)
    (data : Bytes) :
    Quiet k (k.setNet (Net.Sockets.deliver k.sys.devices.net dport src sport data)) := by
  refine ⟨fun fd => rfl, fun i => ?_, rfl⟩
  have hget := Net.Sockets.get_deliver k.sys.devices.net dport src sport data i
  rw [Occupied, Occupied, State.setNet]
  dsimp only
  rw [hget, Option.isSome_map]

/-! ## 3. The two calls that do not -/

theorem sockIndex_close (k : State) (fd : Word) (fd' : Nat) :
    (sysClose k fd).2.sys.sockIndex fd' =
      if fd.toNat = fd' then none else k.sys.sockIndex fd' := by
  unfold sysClose System.close Fs.close System.sockIndex
  rcases hget : Slots.get k.sys.fds fd.toNat with - | f
  · dsimp only
    split
    · rename_i he
      rw [← he, hget]
      rfl
    · rfl
  · dsimp only
    rw [Slots.get_clear]
    split
    · rfl
    · rfl

/-- A descriptor that stands for a socket after a `close` did so before, and is another one. -/
theorem sockIndex_of_close {k : State} {fd : Word} {fd' i : Nat}
    (h : (sysClose k fd).2.sys.sockIndex fd' = some i) :
    fd.toNat ≠ fd' ∧ k.sys.sockIndex fd' = some i := by
  rw [sockIndex_close] at h
  split at h
  · cases h
  · rename_i hne
    exact ⟨hne, h⟩

/-- A `socket` that succeeds: the slot is new, and so is the one descriptor that stands for it. -/
theorem sysSocket_ok (k : State) (proto : Word) (h : (sysSocket k proto).1.msb = false) :
    (∀ fd, (sysSocket k proto).2.sys.sockIndex fd =
      if fd = Slots.hole k.sys.fds then
        some (Net.Sockets.socket k.sys.devices.net (proto.setWidth 8)).1
      else k.sys.sockIndex fd) ∧
    (∀ i, Occupied (sysSocket k proto).2 i ↔
      i = (Net.Sockets.socket k.sys.devices.net (proto.setWidth 8)).1 ∨ Occupied k i) ∧
    (sysSocket k proto).2.sys.mounts = k.sys.mounts := by
  have hget := Net.Sockets.get_socket k.sys.devices.net (proto.setWidth 8)
  unfold sysSocket at h ⊢
  generalize Net.Sockets.socket k.sys.devices.net (proto.setWidth 8) = r at h hget ⊢
  obtain ⟨idx, net⟩ := r
  dsimp only at h hget ⊢
  rw [System.installInode_eq] at h ⊢
  split at h
  · rename_i hroom
    rw [if_pos hroom]
    refine ⟨fun fd => ?_, fun i => ?_, rfl⟩
    · exact sockIndex_insert (k.setNet net).sys (.socket idx) fd
    · rw [Occupied, Occupied]
      dsimp only [State.setNet]
      rw [hget]
      split
      · rename_i hi
        exact ⟨fun _ => .inl hi, fun _ => rfl⟩
      · rename_i hi
        exact ⟨.inr, fun h => h.resolve_left hi⟩
  · rw [show (answer (.error .noSpace)).msb = true from errno_msb .noSpace] at h
    cases h

/-- The slot that `socket` takes was free. -/
theorem not_occupied_socket (k : State) (proto : Byte) :
    ¬ Occupied k (Net.Sockets.socket k.sys.devices.net proto).1 := by
  rw [Occupied, Net.Sockets.socket_eq, Slots.get_hole]
  exact Bool.false_ne_true

/-! ## 4. The invariant -/

structure Kept (k : State) (g : Ghost) : Prop where
  mounts : NoSocketMounted k.sys.mounts
  /-- a slot that was taken is never freed -/
  occupied : ∀ i ∈ g.made, Occupied k i
  made : ∀ fd i, k.sys.sockIndex fd = some i → i ∈ g.made
  /-- its descriptor is open until it is closed -/
  opened : ∀ i ∈ g.made, i ∉ g.shut → ∃ fd, k.sys.sockIndex fd = some i
  shut : ∀ i ∈ g.shut, i ∈ g.made ∧ ∀ fd, k.sys.sockIndex fd ≠ some i
  /-- no other descriptor stands for it -/
  unique : ∀ fd fd' i, k.sys.sockIndex fd = some i → k.sys.sockIndex fd' = some i → fd = fd'

variable {g : Ghost}

theorem Kept.quiet (h : Kept k g) (hq : Quiet k k') : Kept k' g where
  mounts := hq.mounts ▸ h.mounts
  occupied i hi := (hq.occupied i).mpr (h.occupied i hi)
  made fd i hfd := h.made fd i (hq.index fd ▸ hfd)
  opened i hi hn := by
    obtain ⟨fd, hfd⟩ := h.opened i hi hn
    exact ⟨fd, (hq.index fd).trans hfd⟩
  shut i hi := ⟨(h.shut i hi).1, fun fd hfd => (h.shut i hi).2 fd (hq.index fd ▸ hfd)⟩
  unique fd fd' i hfd hfd' := h.unique fd fd' i (hq.index fd ▸ hfd) (hq.index fd' ▸ hfd')

theorem Kept.close (h : Kept k g) (fd : Word) :
    Kept (sysClose k fd).2 { g with shut := g.shut ++ (k.sys.sockIndex fd.toNat).toList } where
  mounts := h.mounts
  occupied := h.occupied
  made fd' i hi := h.made fd' i (sockIndex_of_close hi).2
  opened i hi hn := by
    have hnew : i ∉ g.shut := fun hs => hn (List.mem_append_left _ hs)
    obtain ⟨fd', hfd'⟩ := h.opened i hi hnew
    refine ⟨fd', ?_⟩
    rw [sockIndex_close, if_neg fun he => ?_]
    · exact hfd'
    · refine hn (List.mem_append_right _ ?_)
      rw [he, hfd']
      exact List.mem_cons_self
  shut i hi := by
    rcases List.mem_append.mp hi with hi | hi
    · exact ⟨(h.shut i hi).1, fun fd' hfd' => (h.shut i hi).2 fd' (sockIndex_of_close hfd').2⟩
    · -- the descriptor just closed was the only one for its slot
      have hfd := Option.mem_toList.mp hi
      refine ⟨h.made _ i hfd, fun fd' hfd' => ?_⟩
      obtain ⟨hne, hfd'⟩ := sockIndex_of_close hfd'
      exact hne (h.unique _ _ i hfd hfd')
  unique fd₁ fd₂ i h₁ h₂ := h.unique fd₁ fd₂ i (sockIndex_of_close h₁).2 (sockIndex_of_close h₂).2

/-- The descriptors after a `socket`: the new one, and those from before. -/
theorem sockIndex_of_socket {k : State} {proto : Word} (hok : (sysSocket k proto).1.msb = false)
    {fd i : Nat} (h : (sysSocket k proto).2.sys.sockIndex fd = some i) :
    (fd = Slots.hole k.sys.fds ∧ i = (Net.Sockets.socket k.sys.devices.net (proto.setWidth 8)).1) ∨
      k.sys.sockIndex fd = some i := by
  rw [(sysSocket_ok k proto hok).1] at h
  split at h
  · rename_i hfd
    exact .inl ⟨hfd, (Option.some.inj h).symm⟩
  · exact .inr h

theorem sockIndex_socket {k : State} {proto : Word} (hok : (sysSocket k proto).1.msb = false)
    {fd i : Nat} (h : k.sys.sockIndex fd = some i) :
    (sysSocket k proto).2.sys.sockIndex fd = some i := by
  rw [(sysSocket_ok k proto hok).1, if_neg fun he => ?_]
  · exact h
  · rw [he, sockIndex_hole] at h
    cases h

theorem Kept.socket (h : Kept k g) (proto : Word) (hok : (sysSocket k proto).1.msb = false) :
    Kept (sysSocket k proto).2
      { g with made := g.made ++ [(Net.Sockets.socket k.sys.devices.net
        (proto.setWidth 8)).1] } := by
  obtain ⟨hindex, hoccupied, hmounts⟩ := sysSocket_ok k proto hok
  have hfree := not_occupied_socket k (proto.setWidth 8)
  have hcases := @sockIndex_of_socket k proto hok
  generalize (Net.Sockets.socket k.sys.devices.net (proto.setWidth 8)).1 = slot at *
  -- nothing taken before is in the new slot
  have hnew : slot ∉ g.made := fun hm => hfree (h.occupied slot hm)
  refine ⟨hmounts ▸ h.mounts, fun i hi => ?_, fun fd i hfd => ?_, fun i hi hn => ?_,
    fun i hi => ⟨List.mem_append_left _ (h.shut i hi).1, fun fd hfd => ?_⟩,
    fun fd fd' i h₁ h₂ => ?_⟩
  · rcases List.mem_append.mp hi with hi | hi
    · exact (hoccupied i).mpr (.inr (h.occupied i hi))
    · exact (hoccupied i).mpr (.inl (List.mem_singleton.mp hi))
  · rcases hcases hfd with ⟨-, rfl⟩ | hfd
    · exact List.mem_append_right _ List.mem_cons_self
    · exact List.mem_append_left _ (h.made fd i hfd)
  · rcases List.mem_append.mp hi with hi | hi
    · obtain ⟨fd, hfd⟩ := h.opened i hi hn
      exact ⟨fd, sockIndex_socket hok hfd⟩
    · rw [List.mem_singleton.mp hi]
      exact ⟨_, (hindex _).trans (if_pos rfl)⟩
  · rcases hcases hfd with ⟨-, rfl⟩ | hfd
    · exact hnew (h.shut i hi).1
    · exact (h.shut i hi).2 fd hfd
  · rcases hcases h₁ with ⟨rfl, rfl⟩ | h₁
    · rcases hcases h₂ with ⟨rfl, -⟩ | h₂
      · rfl
      · exact absurd (h.made fd' i h₂) hnew
    · rcases hcases h₂ with ⟨rfl, rfl⟩ | h₂
      · exact absurd (h.made fd i h₁) hnew
      · exact h.unique fd fd' i h₁ h₂

theorem dispatch_socket {f : SyscallFrame} (h : f.rax = SyscallNr.socket.toWord) :
    (syscallDispatch k f).result =
      .ok (.value (sysSocket k f.rdi).1, (sysSocket k f.rdi).2) := by
  rw [syscallDispatch, SyscallNr.ofWord_eq_some.mpr h]
  rfl

theorem dispatch_close {f : SyscallFrame} (h : f.rax = SyscallNr.close.toWord) :
    (syscallDispatch k f).result = .ok (.value (sysClose k f.rdi).1, (sysClose k f.rdi).2) := by
  rw [syscallDispatch, SyscallNr.ofWord_eq_some.mpr h]
  rfl

theorem Kept.syscall {f : SyscallFrame} {r : Reply} (h : Kept k g)
    (hok : f.rax = SyscallNr.socket.toWord → (sysSocket k f.rdi).1.msb = false)
    (hr : (syscallDispatch k f).result = .ok (r, k')) : Kept k' (g.note k (.syscall f)) := by
  rw [Ghost.note]
  by_cases hsocket : f.rax = SyscallNr.socket.toWord
  · cases (dispatch_socket hsocket).symm.trans hr
    rw [if_pos hsocket]
    exact h.socket f.rdi (hok hsocket)
  rw [if_neg hsocket]
  by_cases hclose : f.rax = SyscallNr.close.toWord
  · cases (dispatch_close hclose).symm.trans hr
    rw [if_pos hclose]
    exact h.close f.rdi
  rw [if_neg hclose]
  exact h.quiet (does_quiet h.mounts (dispatch_does hr) hsocket hclose)

/-- One action. -/
theorem Kept.step {p p' : State × Ghost} {a : Action} {es : List Reply} (h : Kept p.1 p.2)
    (hok : socketSucceeds p a = true) (hs : ghostStep p a = some (p', es)) : Kept p'.1 p'.2 := by
  obtain ⟨⟨k', es'⟩, hstep, he⟩ := Option.map_eq_some_iff.mp hs
  cases he
  rcases a with f | space | ⟨dport, src, sport, data⟩ | b
  · unfold Syscall.step at hstep
    dsimp only at hstep
    split at hstep
    · rename_i r k₁ hr
      cases hstep
      exact h.syscall (of_decide_eq_true hok) hr
    · cases hstep
  · cases hstep
    exact h.quiet ⟨fun _ => rfl, fun _ => Iff.rfl, rfl⟩
  · cases hstep
    exact h.quiet (deliver_quiet ..)
  · cases hstep
    exact h.quiet ⟨fun _ => rfl, fun _ => Iff.rfl, rfl⟩

/-! ## 5. Runs -/

/-- The seeds are consoles, and no mounted file system is a socket. -/
theorem kept_seed {t t' : FdTable Inode} {inode : Inode} {n : Nat} (hi : inode.sockIndex = none)
    (ht : ∀ fd f, Slots.get t fd = some f → f.inode.sockIndex = none)
    (h : System.seed t inode n = .ok t') :
    ∀ fd f, Slots.get t' fd = some f → f.inode.sockIndex = none := by
  induction n generalizing t with
  | zero =>
    cases h
    exact ht
  | succ n ih =>
    rw [System.seed, install_eq] at h
    split at h
    · rename_i fd₁ t₁ hroom
      split at hroom
      · cases hroom
        refine ih (fun fd f hf => ?_) h
        rw [Slots.get_insert] at hf
        split at hf
        · cases hf
          exact hi
        · exact ht fd f hf
      · cases hroom
    · cases h

theorem Booted.kept (h : Booted k) : Kept k Ghost.empty := by
  obtain ⟨tar, devices, hinit⟩ := h
  obtain ⟨root, path, inode, fds, hres, hseed, hsys⟩ := System.init_eq_ok hinit
  have hmounts : NoSocketMounted (System.mountTable root) := System.mountTable_sockIndex root
  have hnone (fd i : Nat) : k.sys.sockIndex fd ≠ some i := by
    intro hfd
    rw [hsys] at hfd
    obtain ⟨f, hf, hi⟩ := Option.bind_eq_some_iff.mp hfd
    have hempty (fd : Nat) (f : File Inode) (hf : Slots.get [] fd = some f) :
        f.inode.sockIndex = none := by cases hf
    have hnot := kept_seed (resolve_sockIndex hmounts hres) hempty hseed fd f hf
    rw [hnot] at hi
    cases hi
  exact ⟨hsys ▸ hmounts, fun i hi => (nomatch hi), fun fd i hfd => absurd hfd (hnone fd i),
    fun i hi => (nomatch hi), fun i hi => (nomatch hi), fun fd fd' i hfd => absurd hfd (hnone fd i)⟩

/-- **Sockets follow their descriptors as long as none of them is closed, and no longer.** In every
    run after boot in which every `socket` succeeds, whatever datagrams arrive: the occupied slots
    among those that `sys_socket` took are the `sock_index` values of the open descriptors if and
    only if no step of the run closed the descriptor of a socket. -/
theorem sockets_follow_iff {k₀ : State} {es : List Reply} (hboot : Booted k₀)
    (h : Run ghostStep (fun p a => socketSucceeds p a = true) (k₀, Ghost.empty) es (k, g)) :
    Follows k g ↔ g.shut = [] := by
  have hkept : Kept k g :=
    h.invariant (I := fun p => Kept p.1 p.2) hboot.kept fun _ _ _ _ hI hok hs => hI.step hok hs
  constructor
  · intro hfollows
    rcases hshut : g.shut with - | ⟨i, rest⟩
    · rfl
    · obtain ⟨hmade, hnone⟩ := hkept.shut i (by rw [hshut]; exact List.mem_cons_self)
      obtain ⟨fd, hfd⟩ := (hfollows i).mp ⟨hmade, hkept.occupied i hmade⟩
      exact absurd hfd (hnone fd)
  · intro hshut i
    constructor
    · intro hi
      exact hkept.opened i hi.1 (by rw [hshut]; exact List.not_mem_nil)
    · intro hfd
      obtain ⟨fd, hfd⟩ := hfd
      exact ⟨hkept.made fd i hfd, hkept.occupied i (hkept.made fd i hfd)⟩

/-- `socket(17)`, then `bind(3, 9999)`. -/
def boundSocket : List Action :=
  [.syscall socketCall, .syscall ⟨SyscallNr.bind.toWord, 3#64, 9999#64, 0#64⟩]

/-- Two sockets, one of them bound, and a datagram for it. -/
theorem sockets_follow_two :
    ∃ es k g, Run ghostStep (fun p a => socketSucceeds p a = true) (atBoot, Ghost.empty) es (k, g) ∧
      g.made = [0, 1] ∧ Follows k g := by
  have hrun := @run_of_exec _ _ _ ghostStep socketSucceeds
    (boundSocket ++ [.syscall socketCall, .deliver 9999#16 Net.gateway 7#16 [0x68#8]])
    (atBoot, .empty) _ _ rfl
  exact ⟨_, _, _, hrun, rfl, (sockets_follow_iff (booted_boot _ _) hrun).mpr rfl⟩

/-- **A closed socket receives**: its slot stays occupied, and a datagram to its old port is queued
    on it, though no descriptor stands for it. -/
theorem closed_socket_receives :
    ∃ es k g, Run ghostStep (fun p a => socketSucceeds p a = true) (atBoot, Ghost.empty) es (k, g) ∧
      g.made = [0] ∧ g.shut = [0] ∧ (∀ fd, k.sys.sockIndex fd = none) ∧
      (Slots.get k.sys.devices.net.sockets 0).map (·.rx) = some [(Net.gateway, 7#16, [0x68#8])] ∧
      ¬ Follows k g := by
  have hrun := @run_of_exec _ _ _ ghostStep socketSucceeds
    (boundSocket ++ [.syscall ⟨SyscallNr.close.toWord, 3#64, 0#64, 0#64⟩,
      .deliver 9999#16 Net.gateway 7#16 [0x68#8]]) (atBoot, .empty) _ _ rfl
  refine ⟨_, _, _, hrun, rfl, rfl, fun fd => ?_, rfl, fun hfollows => ?_⟩
  · match fd with
    | 0 | 1 | 2 | 3 => rfl
    | _ + 4 => rfl
  · obtain ⟨fd, hfd⟩ := (hfollows 0).mp ⟨List.mem_cons_self, rfl⟩
    match fd with
    | 0 | 1 | 2 | 3 => cases hfd
    | _ + 4 => cases hfd

end SimpleLinux.Syscall
