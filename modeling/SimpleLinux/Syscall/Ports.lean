/-
  File:      SimpleLinux/Syscall/Ports.lean
  Subject:   Which sockets does a datagram reach?

  A socket is to receive what arrives for the port that it was bound to. The table has no place for
  "not bound": a new socket has local port 0, and a datagram may be for port 0. And `sys_bind` takes
  a 64-bit number, of which it keeps the low 16 bits.

  A run carries a GHOST: for each slot, the argument of the last `sys_bind` that succeeded on the
  socket in it. Datagrams arrive as bytes, at `udp::handle`.

  * `Input`, `wireStep` -- calls, memory, keys, datagrams; `Bindings`, `Bindings.note` -- the ghost;
  * `Bound` -- the invariant: the local port is the low half of that argument, or 0;
  * `received_iff` -- whom a datagram reaches; `OnlyBound`, `Strays` -- only those it should, or
    not;
  * `only_bound_iff` -- over every run: a datagram strays, or it reaches only sockets bound to its
    port; `datagrams_stray` -- one of each kind that strays.
-/
import SimpleLinux.Syscall.Lifetime

namespace SimpleLinux.Syscall

open Rust Paging Runs Fs
open X86 (Word)
open Net (Byte Bytes Ipv4 wordAt)

/-! ## 1. Inputs and the ghost -/

inductive Input
  | call (f : SyscallFrame)
  | user (space : Space)
  | key (b : Byte)
  /-- the bytes of a UDP datagram, from an address -/
  | datagram (src : Ipv4) (d : Bytes)

def wireStep (k : State) : Input → Option (State × List Reply)
  | .call f => step k (.syscall f)
  | .user space => step k (.user space)
  | .key b => step k (.key b)
  | .datagram src d =>
    match Net.Udp.handle k.sys.devices.net src d with
    | .ok net => some (k.setNet net, [])
    | .error _ => none

/-- For each slot, the argument of the last successful `sys_bind`. -/
abbrev Bindings := Nat → Option Word

/-- A new socket is not bound; a `bind` that returns 0 binds. -/
def Bindings.note (k : State) (g : Bindings) : Input → Bindings
  | .call f =>
    if f.rax = SyscallNr.socket.toWord then
      Function.update g (Net.Sockets.socket k.sys.devices.net (f.rdi.setWidth 8)).1 none
    else if f.rax = SyscallNr.bind.toWord ∧ (sysBind k f.rdi f.rsi).1 = 0#64 then
      match k.sys.sockIndex f.rdi.toNat with
      | some i => Function.update g i (some f.rsi)
      | none => g
    else g
  | _ => g

def portStep (p : State × Bindings) (a : Input) : Option ((State × Bindings) × List Reply) :=
  (wireStep p.1 a).map fun r => ((r.1, p.2.note p.1 a), r.2)

/-- The socket in a slot. -/
def State.socketAt (k : State) (i : Nat) : Option Net.Socket :=
  Slots.get k.sys.devices.net.sockets i

/-- The local port of the socket in a slot. -/
def State.portAt (k : State) (i : Nat) : Option (BitVec 16) :=
  (k.socketAt i).map Net.Socket.localPort

/-! ## 2. Local ports -/

/-- The local port of a socket with this binding. -/
def portOf : Option Word → BitVec 16
  | none => 0#16
  | some w => w.setWidth 16

/-- **The invariant**: the local port of every socket is what its binding says. -/
def Bound (k : State) (g : Bindings) : Prop :=
  ∀ i port, k.portAt i = some port → port = portOf (g i)

variable {k k' : State} {g : Bindings}

theorem Bound.same (h : Bound k g) (hports : ∀ i, k'.portAt i = k.portAt i) : Bound k' g :=
  fun i port hi => h i port (hports i ▸ hi)

theorem portAt_congr (h : k'.sys.devices.net.sockets = k.sys.devices.net.sockets) (i : Nat) :
    k'.portAt i = k.portAt i := by
  rw [State.portAt, State.portAt, State.socketAt, State.socketAt, h]

theorem write_portAt {fd : Nat} {data : Source} {r : FsResult Nat}
    (h : (k.sys.write fd data).result = .ok (r, k'.sys)) (i : Nat) : k'.portAt i = k.portAt i := by
  rcases System.write_cases h with ⟨-, -, hsame⟩ | ⟨f, -, hw, -⟩
  · exact portAt_congr (by rw [hsame]) i
  · exact portAt_congr (Inode.write_spec hw).1 i

theorem read_portAt {β : Type} {fd len : Nat} {put : Bytes → Traced β} {out : β} {r : FsResult Nat}
    (h : (k.sys.read fd len put).result = .ok (r, k'.sys, out)) (i : Nat) :
    k'.portAt i = k.portAt i := by
  rcases System.read_cases h with ⟨-, -, hsame⟩ | ⟨-, -, -, -, hsame⟩ |
    ⟨f, bytes, -, -, -, -, -, hdevices, -⟩
  · exact portAt_congr (by rw [hsame]) i
  · exact portAt_congr (by rw [hsame]) i
  · rw [State.portAt, State.portAt, State.socketAt, hdevices]
    exact read_sockets _ (fun _ _ => rfl) ..

theorem openPath_portAt (path : Str) (i : Nat) :
    ({ k with sys := (k.sys.openPath path).2 } : State).portAt i = k.portAt i := by
  refine portAt_congr ?_ i
  rw [System.openPath_devices]

theorem close_portAt (fd : Word) (i : Nat) : (sysClose k fd).2.portAt i = k.portAt i := by
  refine portAt_congr ?_ i
  unfold sysClose System.close Fs.close
  rcases Slots.get k.sys.fds fd.toNat with - | f
  · rfl
  · rfl

/-- A new socket has port 0; no other slot changes. -/
theorem socket_portAt (proto : Word) (i : Nat) :
    (sysSocket k proto).2.portAt i =
      if i = (Net.Sockets.socket k.sys.devices.net (proto.setWidth 8)).1 then some 0#16
      else k.portAt i := by
  have hget := Net.Sockets.get_socket k.sys.devices.net (proto.setWidth 8) i
  have hnet : (sysSocket k proto).2.sys.devices.net =
      (Net.Sockets.socket k.sys.devices.net (proto.setWidth 8)).2 := by
    unfold sysSocket
    dsimp only
    rw [System.installInode_eq]
    split
    · rfl
    · rfl
  rw [State.portAt, State.socketAt, hnet, hget]
  split
  · rfl
  · rfl

/-- The port of one socket changes, if the descriptor stands for one. -/
theorem change_portAt (idx : Nat) (f : Net.Socket → Net.Socket) (i : Nat) :
    (k.setNet (Net.Sockets.change k.sys.devices.net idx f).2).portAt i =
      if idx = i then (k.socketAt i).map (fun s => (f s).localPort) else k.portAt i := by
  rw [State.portAt, State.socketAt, State.setNet]
  dsimp only
  rw [Net.Sockets.get_change]
  split
  · rw [Option.map_map]
    rfl
  · rfl

/-- **What `sys_bind` and `sys_connect` come to**: a socket is changed and 0 is returned, or nothing
    changes and an error is returned. -/
theorem onSocket_cases (k : State) (fd : Word) (f : Net.Socket → Net.Socket) :
    (∃ idx, k.sys.sockIndex fd.toNat = some idx ∧
      onSocket k fd (fun net idx => Net.Sockets.change net idx f) =
        (0#64, k.setNet (Net.Sockets.change k.sys.devices.net idx f).2)) ∨
    onSocket k fd (fun net idx => Net.Sockets.change net idx f) = (errno .invalidArg, k) := by
  unfold onSocket
  rcases hidx : k.sys.sockIndex fd.toNat with - | idx
  · exact .inr rfl
  · dsimp only
    rcases hget : Slots.get k.sys.devices.net.sockets idx with - | s
    · right
      simp only [Net.Sockets.change, hget]
      rfl
    · left
      refine ⟨idx, rfl, ?_⟩
      simp only [Net.Sockets.change, hget]

theorem connect_portAt (fd ip port : Word) (i : Nat) :
    (sysConnect k fd ip port).2.portAt i = k.portAt i := by
  unfold sysConnect Net.Sockets.connect
  rcases onSocket_cases k fd fun s => { s with peer := some (ipOf ip, port.setWidth 16) } with
    ⟨idx, -, he⟩ | he
  · rw [he, change_portAt]
    split
    · rfl
    · rfl
  · rw [he]

/-! ## 3. The invariant -/

theorem Bound.socket (h : Bound k g) (proto : Word) :
    Bound (sysSocket k proto).2
      (Function.update g (Net.Sockets.socket k.sys.devices.net (proto.setWidth 8)).1 none) := by
  intro i port hi
  rw [socket_portAt] at hi
  by_cases hslot : i = (Net.Sockets.socket k.sys.devices.net (proto.setWidth 8)).1
  · rw [if_pos hslot] at hi
    rw [hslot, Function.update_self]
    exact (Option.some.inj hi).symm
  · rw [if_neg hslot] at hi
    rw [Function.update_of_ne hslot]
    exact h i port hi

theorem Bound.bind (h : Bound k g) {f : SyscallFrame} (hnr : f.rax = SyscallNr.bind.toWord) :
    Bound (sysBind k f.rdi f.rsi).2 (g.note k (.call f)) := by
  have hsocket : f.rax ≠ SyscallNr.socket.toWord := by
    rw [hnr]
    decide
  have hcases := onSocket_cases k f.rdi fun s => { s with localPort := f.rsi.setWidth 16 }
  rw [Bindings.note, if_neg hsocket]
  unfold sysBind Net.Sockets.bind
  rcases hcases with ⟨idx, hidx, he⟩ | he
  · rw [he, hidx, if_pos ⟨hnr, rfl⟩]
    intro i port hi
    rw [change_portAt] at hi
    by_cases hslot : idx = i
    · rw [if_pos hslot] at hi
      obtain ⟨s, -, hs⟩ := Option.map_eq_some_iff.mp hi
      subst hslot
      dsimp only
      rw [Function.update_self]
      exact hs.symm
    · rw [if_neg hslot] at hi
      dsimp only
      rw [Function.update_of_ne (Ne.symm hslot)]
      exact h i port hi
  · have hfails : errno .invalidArg ≠ 0#64 := by decide
    rw [he, if_neg fun hboth => hfails hboth.2]
    exact h

theorem Bound.call (h : Bound k g) {f : SyscallFrame} {r : Reply}
    (hr : (syscallDispatch k f).result = .ok (r, k')) : Bound k' (g.note k (.call f)) := by
  by_cases hsocket : f.rax = SyscallNr.socket.toWord
  · cases (dispatch_socket hsocket).symm.trans hr
    rw [Bindings.note, if_pos hsocket]
    exact h.socket f.rdi
  by_cases hbind : f.rax = SyscallNr.bind.toWord
  · have hdispatch : (syscallDispatch k f).result =
        .ok (.value (sysBind k f.rdi f.rsi).1, (sysBind k f.rdi f.rsi).2) := by
      rw [syscallDispatch, SyscallNr.ofWord_eq_some.mpr hbind]
      rfl
    cases hdispatch.symm.trans hr
    exact h.bind hbind
  · -- no other call changes a port
    rw [Bindings.note, if_neg hsocket, if_neg fun hboth => hbind hboth.1]
    refine h.same fun i => ?_
    rcases dispatch_does hr with ⟨-, -, -, hdo⟩ | ⟨-, hdo⟩ | - | ⟨path, -⟩ | - | hnr |
      hnr | - | - | -
    case write => exact write_portAt hdo i
    case read => exact read_portAt hdo i
    case openPath => exact openPath_portAt path i
    case close => exact close_portAt f.rdi i
    case socket => exact absurd hnr hsocket
    case bind => exact absurd hnr hbind
    case connect => exact connect_portAt f.rdi f.rsi f.rdx i
    all_goals rfl

/-! ## 4. Datagrams -/

/-- The queue of the socket in slot `i` has grown. -/
def Received (k k' : State) (i : Nat) : Prop :=
  ∃ s s' new, k.socketAt i = some s ∧ k'.socketAt i = some s' ∧ s'.rx = s.rx ++ new ∧ new ≠ []

theorem deliver_socketAt (dport : BitVec 16) (src : Ipv4) (sport : BitVec 16) (data : Bytes)
    (i : Nat) :
    (k.setNet (Net.Sockets.deliver k.sys.devices.net dport src sport data)).socketAt i =
      (k.socketAt i).map (Net.Sockets.accept dport (src, sport, data)) :=
  Net.Sockets.get_deliver ..

/-- **A datagram reaches the UDP sockets whose local port is its destination port.** -/
theorem received_iff {dport : BitVec 16} {src : Ipv4} {sport : BitVec 16} {data : Bytes} {i : Nat} :
    Received k (k.setNet (Net.Sockets.deliver k.sys.devices.net dport src sport data)) i ↔
      ∃ s, k.socketAt i = some s ∧ s.proto = Net.Ip.protoUdp ∧ s.localPort = dport := by
  constructor
  · intro hreceived
    obtain ⟨s, s', new, hs, hs', hrx, hnew⟩ := hreceived
    rw [deliver_socketAt, hs] at hs'
    cases hs'
    refine ⟨s, hs, Classical.byContradiction fun hno => hnew ?_⟩
    rw [Net.Sockets.accept, if_neg hno] at hrx
    exact List.self_eq_append_right.mp hrx
  · intro hsocket
    obtain ⟨s, hs, hport⟩ := hsocket
    refine
      ⟨s, _, [(src, sport, data)], hs, by rw [deliver_socketAt, hs]; rfl, ?_, List.cons_ne_nil _ _⟩
    rw [Net.Sockets.accept, if_pos hport]

/-- The step from `k` to `k'` with the datagram `d` gave it to no socket but those whose last
    successful `sys_bind` was called with its destination port. -/
def OnlyBound (k k' : State) (g : Bindings) (d : Bytes) : Prop :=
  ∀ i, Received k k' i → ∃ w, g i = some w ∧ w.toNat = (wordAt d 2).toNat

/-- There is a UDP socket that is not bound, and the datagram is for port 0; or one that was bound
    to a number of which the port is only the low 16 bits. -/
def Strays (k : State) (g : Bindings) (d : Bytes) : Prop :=
  8 ≤ d.length ∧ ∃ i s, k.socketAt i = some s ∧ s.proto = Net.Ip.protoUdp ∧
    portOf (g i) = wordAt d 2 ∧ ∀ w, g i = some w → 2 ^ 16 ≤ w.toNat

/-- A socket that the datagram reaches: it is bound to the port, or the datagram has strayed. -/
theorem Bound.datagram (h : Bound k g) (src : Ipv4) (d : Bytes) :
    ∃ k', wireStep k (.datagram src d) = some (k', []) ∧ (OnlyBound k k' g d ↔ ¬ Strays k g d) := by
  have hport : ∀ {i s}, k.socketAt i = some s → s.localPort = portOf (g i) := fun {i s} hs =>
    h i _ (by rw [State.portAt, hs]; rfl)
  rcases Nat.lt_or_ge d.length 8 with hlen | hlen
  · -- too short for a header: no queue changes
    refine ⟨k, by rw [wireStep, Net.Udp.handle_short _ src hlen]; rfl, ?_⟩
    refine ⟨fun _ hstray => absurd hstray.1 (Nat.not_le.mpr hlen), fun _ i hi => ?_⟩
    obtain ⟨s, s', new, hs, hs', hrx, hnew⟩ := hi
    rw [hs] at hs'
    cases hs'
    exact absurd (List.self_eq_append_right.mp hrx) hnew
  · refine ⟨_, by rw [wireStep, Net.Udp.handle_eq _ src hlen], ?_⟩
    constructor
    · intro honly ⟨_, i, s, hs, hudp, hstray, hwide⟩
      obtain ⟨w, hw, hn⟩ := honly i (received_iff.mpr ⟨s, hs, hudp, (hport hs).trans hstray⟩)
      have hlow : (wordAt d 2).toNat < 2 ^ 16 := (wordAt d 2).isLt
      have hhigh := hwide w hw
      omega
    · intro hnot i hi
      obtain ⟨s, hs, hudp, hlocal⟩ := received_iff.mp hi
      have hof : portOf (g i) = wordAt d 2 := (hport hs).symm.trans hlocal
      rcases hg : g i with - | w
      · exact absurd ⟨hlen, i, s, hs, hudp, hof, fun w hw => by rw [hg] at hw; cases hw⟩ hnot
      · refine ⟨w, rfl, ?_⟩
        by_cases hwide : 2 ^ 16 ≤ w.toNat
        · refine absurd ⟨hlen, i, s, hs, hudp, hof, fun w' hw' => ?_⟩ hnot
          rw [hg] at hw'
          cases hw'
          exact hwide
        · rw [hg] at hof
          rw [← hof, portOf, BitVec.toNat_setWidth, Nat.mod_eq_of_lt (Nat.lt_of_not_le hwide)]

/-! ## 5. Runs -/

theorem Bound.step {p p' : State × Bindings} {a : Input} {es : List Reply} (h : Bound p.1 p.2)
    (hs : portStep p a = some (p', es)) : Bound p'.1 p'.2 := by
  obtain ⟨⟨k', es'⟩, hstep, he⟩ := Option.map_eq_some_iff.mp hs
  cases he
  rcases a with f | space | b | ⟨src, d⟩
  · rw [wireStep, Syscall.step] at hstep
    split at hstep
    · rename_i r k₁ hr
      cases hstep
      exact h.call hr
    · cases hstep
  · cases hstep
    exact h.same fun _ => rfl
  · cases hstep
    exact h.same fun _ => rfl
  · refine h.same fun i => ?_
    rw [wireStep] at hstep
    rcases Nat.lt_or_ge d.length 8 with hlen | hlen
    · rw [Net.Udp.handle_short _ src hlen] at hstep
      cases hstep
      rfl
    · rw [Net.Udp.handle_eq _ src hlen] at hstep
      cases hstep
      rw [State.portAt, deliver_socketAt, Option.map_map, State.portAt]
      refine congrArg (Option.map · _) (funext fun s => ?_)
      rw [Function.comp, Net.Sockets.accept]
      split
      · rfl
      · rfl

/-- **Only the bound port receives, unless a datagram strays.** Take any run of system calls with
    any arguments, of datagrams with any bytes, and of keys and memory, from a state without
    sockets. The next datagram is handled; and it is given to no socket but those whose last
    successful `sys_bind` was called with its destination port, if and only if it is not for port 0
    while there is a UDP socket that was never bound, nor for the low 16 bits of a larger number
    that a UDP socket was bound to. -/
theorem only_bound_iff {k₀ : State} {es : List Reply}
    (hempty : k₀.sys.devices.net.sockets = [])
    (h : Run portStep anyStep (k₀, fun _ => none) es (k, g)) (src : Ipv4) (d : Bytes) :
    ∃ k', wireStep k (.datagram src d) = some (k', []) ∧ (OnlyBound k k' g d ↔ ¬ Strays k g d) := by
  have hbound : Bound k g := by
    refine h.invariant (I := fun p => Bound p.1 p.2) (fun i port hi => ?_)
      fun _ _ _ _ hI _ hs => hI.step hs
    rw [State.portAt, State.socketAt, hempty] at hi
    cases hi
  exact hbound.datagram src d

/-- A datagram without payload for a port. -/
def emptyDatagram (dport : BitVec 16) : Bytes := Net.Udp.datagramWith 7#16 dport 0#16 []

/-- `socket(17)`, then `bind(3, port)`. -/
def boundTo (port : Word) : List Input :=
  [.call socketCall, .call ⟨SyscallNr.bind.toWord, 3#64, port, 0#64⟩]

/-- A socket bound to 9999 and a datagram for that port. -/
theorem only_bound_9999 :
    ∃ es k g k', Run portStep anyStep (atBoot, fun _ => none) es (k, g) ∧
      wireStep k (.datagram Net.gateway (emptyDatagram 9999#16)) = some (k', []) ∧
      Received k k' 0 ∧ OnlyBound k k' g (emptyDatagram 9999#16) := by
  have hrun := (@run_of_exec _ _ _ portStep (fun _ _ => true) (boundTo 9999#64)
    (atBoot, fun _ => none) _ _ rfl).any
  obtain ⟨k', hstep, hiff⟩ := only_bound_iff rfl hrun Net.gateway (emptyDatagram 9999#16)
  refine ⟨_, _, _, k', hrun, hstep, ?_, hiff.mpr ?_⟩
  · cases hstep
    exact ⟨_, _, _, rfl, rfl, rfl, List.cons_ne_nil _ _⟩
  · intro ⟨_, i, s, hs, _, _, hwide⟩
    match i with
    | 0 => exact absurd (hwide 9999#64 rfl) (by decide)
    | _ + 1 => cases hs

/-- **Two datagrams that stray**: one for port 0 is queued on a socket that was never bound, and one
    for port 9999 on a socket that was bound to 75535. -/
theorem datagrams_stray :
    (∃ es k g k', Run portStep anyStep (atBoot, fun _ => none) es (k, g) ∧
      wireStep k (.datagram Net.gateway (emptyDatagram 0#16)) = some (k', []) ∧
      g 0 = none ∧ Received k k' 0) ∧
    ∃ es k g k', Run portStep anyStep (atBoot, fun _ => none) es (k, g) ∧
      wireStep k (.datagram Net.gateway (emptyDatagram 9999#16)) = some (k', []) ∧
      g 0 = some 75535#64 ∧ Received k k' 0 := by
  have hunbound := (@run_of_exec _ _ _ portStep (fun _ _ => true) [.call socketCall]
    (atBoot, fun _ => none) _ _ rfl).any
  have hnarrowed := (@run_of_exec _ _ _ portStep (fun _ _ => true) (boundTo 75535#64)
    (atBoot, fun _ => none) _ _ rfl).any
  exact ⟨⟨_, _, _, _, hunbound, rfl, rfl, _, _, _, rfl, rfl, rfl, List.cons_ne_nil _ _⟩,
    ⟨_, _, _, _, hnarrowed, rfl, rfl, _, _, _, rfl, rfl, rfl, List.cons_ne_nil _ _⟩⟩

end SimpleLinux.Syscall
