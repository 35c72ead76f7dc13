/-
  File:      SimpleLinux/Syscall/Frames.lean
  Subject:   How long are the frames that system calls send?

  Only a `write` on a UDP socket with a peer sends. It takes at most 4096 bytes, three headers come
  in front of them, and the driver copies the result into a page.

  * `handed` -- the frame for which an action calls `e1000::send`; `step_sent` -- what reaches the
    driver is exactly that;
  * `send_inside`, `send_past` -- what a frame does to the memory around the driver's page;
  * `Oversize` -- a write of more than 4054 bytes on such a socket;
  * `frames_fit_iff` -- every frame fits exactly when there is no such write; `frame_too_long`.
-/
import SimpleLinux.Drivers.E1000
import SimpleLinux.Syscall.Dispatch

namespace SimpleLinux.Syscall

open Rust Paging Runs Fs
open X86 (Word)
open Net (Byte Bytes)

variable {k k' : State}

/-! ## 1. What is sent -/

/-- The frame for which an action calls `e1000::send`. -/
def handed (k : State) : Action → Option Bytes
  | .syscall f =>
    if f.rax = SyscallNr.write.toWord ∧ f.rsi ≠ 0#64 then
      (Slots.get k.sys.fds f.rdi.toNat).bind fun file =>
        file.inode.frameOf k.sys.devices (source k f.rsi f.rdx)
    else none
  | _ => none

/-- Nothing is sent. -/
def Silent (k k' : State) : Prop := k'.sys.devices.net.sent = k.sys.devices.net.sent

theorem change_sent (s : Net.Stack) (idx : Nat) (f : Net.Socket → Net.Socket) :
    (Net.Sockets.change s idx f).2.sent = s.sent := by
  unfold Net.Sockets.change
  rcases Slots.get s.sockets idx with - | k
  · rfl
  · rfl

theorem onSocket_silent (k : State) (fd : Word) {f : Net.Stack → Nat → Bool × Net.Stack}
    (hf : ∀ s idx, (f s idx).2.sent = s.sent) : Silent k (onSocket k fd f).2 := by
  unfold onSocket
  rcases k.sys.sockIndex fd.toNat with - | idx
  · rfl
  · have hsent := hf k.sys.devices.net idx
    dsimp only
    rcases hcall : f k.sys.devices.net idx with ⟨- | -, net⟩
    · rw [hcall] at hsent
      exact hsent
    · rw [hcall] at hsent
      exact hsent

theorem sysSocket_silent (k : State) (proto : Word) : Silent k (sysSocket k proto).2 := by
  rw [sysSocket, Net.Sockets.socket_eq]
  dsimp only
  rw [System.installInode_eq]
  split
  · rfl
  · rfl

theorem openPath_silent (k : State) (path : Str) :
    Silent k { k with sys := (k.sys.openPath path).2 } := by
  rw [Silent, System.openPath_devices]

theorem write_sent {fd : Nat} {data : Source} {r : FsResult Nat}
    (h : (k.sys.write fd data).result = .ok (r, k'.sys)) :
    k'.sys.devices.net.sent = k.sys.devices.net.sent ++
      if k.sys.devices.net.nic.isSome then
        ((Slots.get k.sys.fds fd).bind fun file =>
          file.inode.frameOf k.sys.devices data).toList
      else [] := by
  rcases System.write_cases h with ⟨hget, -, hsame⟩ | ⟨f, hget, hw, -⟩
  · rw [hsame, hget]
    simp
  · rw [hget]
    exact Inode.write_sent hw

theorem read_silent {β : Type} {fd len : Nat} {put : Bytes → Traced β} {out : β} {r : FsResult Nat}
    (h : (k.sys.read fd len put).result = .ok (r, k'.sys, out)) : Silent k k' := by
  rcases System.read_cases h with ⟨-, -, hsame⟩ | ⟨-, -, -, -, hsame⟩ |
    ⟨f, -, -, -, -, -, -, hdev, -⟩
  · rw [Silent, hsame]
  · rw [Silent, hsame]
  · rw [Silent, hdev, Inode.read_sent]

/-- Only a `write` sends. -/
theorem handed_of_ne {f : SyscallFrame} {nr : SyscallNr} (hnr : f.rax = nr.toWord)
    (hne : nr ≠ .write) : handed k (.syscall f) = none := by
  rw [handed, if_neg]
  intro h
  have hw := hnr.symm.trans h.1
  revert hne hw
  cases nr
  all_goals decide

/-- **What reaches the driver** in an action is the frame that was handed to it, if there is a
    network card. -/
theorem step_sent {a : Action} {es : List Reply} (h : step k a = some (k', es)) :
    k'.sys.devices.net.sent = k.sys.devices.net.sent ++
      if k.sys.devices.net.nic.isSome then (handed k a).toList else [] := by
  have hsilent : ∀ {a : Action}, handed k a = none → Silent k k' →
      k'.sys.devices.net.sent = k.sys.devices.net.sent ++
        if k.sys.devices.net.nic.isSome then (handed k a).toList else [] := by
    intro a hnone hs
    rw [hs, hnone, Option.toList_none, ite_self, List.append_nil]
  rcases a with f | space | ⟨dport, src, sport, data⟩ | b
  · unfold step at h
    dsimp only at h
    split at h
    · rename_i r k₁ hr
      cases h
      rcases dispatch_does hr with ⟨hnr, hbuf, -, hdo⟩ | ⟨hnr, hdo⟩ | hnr | ⟨path, hnr⟩ | hnr |
        hnr | hnr | hnr | hnr | hnr
      case write =>
        have hhanded : handed k (.syscall f) = (Slots.get k.sys.fds f.rdi.toNat).bind fun file =>
            file.inode.frameOf k.sys.devices (source k f.rsi f.rdx) := if_pos ⟨hnr, hbuf⟩
        rw [hhanded]
        exact write_sent hdo
      case read => exact hsilent (handed_of_ne hnr (by decide)) (read_silent hdo)
      case openPath => exact hsilent (handed_of_ne hnr (by decide)) (openPath_silent k path)
      case socket => exact hsilent (handed_of_ne hnr (by decide)) (sysSocket_silent k f.rdi)
      case bind =>
        exact hsilent (handed_of_ne hnr (by decide))
          (onSocket_silent k f.rdi fun s idx => change_sent ..)
      case connect =>
        exact hsilent (handed_of_ne hnr (by decide))
          (onSocket_silent k f.rdi fun s idx => change_sent ..)
      case unknown =>
        refine hsilent ?_ rfl
        rw [handed, if_neg]
        rintro ⟨hw, -⟩
        rw [SyscallNr.ofWord_eq_some.mpr hw] at hnr
        cases hnr
      all_goals exact hsilent (handed_of_ne hnr (by decide)) rfl
    · cases h
  all_goals
    cases h
    exact hsilent rfl rfl

/-! ## 2. The page of the driver -/

/-- The driver copies every frame into one page. -/
def txBufLen : Nat := 4096

/-- A frame that fits changes nothing outside the page. -/
theorem send_inside {m m' : E1000.Machine} {nic : E1000.Nic} {frame : Bytes} {sent : Bool}
    (hnic : m.nic = some nic) (h : E1000.send m frame = .ok (sent, m'))
    (hlen : frame.length ≤ txBufLen) {a : Nat}
    (ha : ¬ (nic.txBufPhys ≤ a ∧ a < nic.txBufPhys + txBufLen)) : m'.mem a = m.mem a := by
  rw [E1000.send, hnic] at h
  obtain ⟨cursor, -, he⟩ := bind_eq_ok.mp h
  cases he
  exact Store.copy_outside (by omega)

/-- A longer one is copied past its end. -/
theorem send_past {m m' : E1000.Machine} {nic : E1000.Nic} {frame : Bytes} {sent : Bool}
    (hnic : m.nic = some nic) (h : E1000.send m frame = .ok (sent, m'))
    (hlen : txBufLen < frame.length) :
    frame[txBufLen]? = some (m'.mem (nic.txBufPhys + txBufLen)) := by
  rw [E1000.send, hnic] at h
  obtain ⟨cursor, -, he⟩ := bind_eq_ok.mp h
  cases he
  have hcopy := Store.copy_inside m.mem (Nat.le_add_right nic.txBufPhys txBufLen)
    (Nat.add_lt_add_left hlen nic.txBufPhys)
  rw [Nat.add_sub_cancel_left] at hcopy
  exact hcopy

/-! ## 3. Which frames fit -/

/-- Every frame that the action hands to the driver fits its page. -/
def FramesFit (k : State) (a : Action) : Prop := ∀ frame ∈ handed k a, frame.length ≤ txBufLen

/-- The memory behind a buffer can be read. -/
def Readable (k : State) (buf len : Word) : Prop :=
  ∀ i < clamp len, (k.space.peek ((buf.toNat + i) % 2 ^ 64)).isSome

/-- A write of more than 4054 bytes, from memory that can be read, on a UDP socket with a peer. -/
def Oversize (k : State) : Action → Prop
  | .syscall f =>
    f.rax = SyscallNr.write.toWord ∧ f.rsi ≠ 0#64 ∧
    (∃ idx ∈ k.sys.sockIndex f.rdi.toNat, (Net.Sockets.route k.sys.devices.net idx).isSome) ∧
    Readable k f.rsi f.rdx ∧ 4054 < f.rdx.toNat
  | _ => False

/-- The frame of a write is 42 bytes longer than what it takes. -/
theorem mem_frameOf {s : Net.Stack} {idx : Nat} {buf len : Word} {frame : Bytes}
    (h : frame ∈ Net.Sockets.frameOf s idx (source k buf len)) :
    (Net.Sockets.route s idx).isSome ∧ Readable k buf len ∧ frame.length = 42 + clamp len := by
  unfold Net.Sockets.frameOf at h
  split at h
  · rename_i ip port bytes hroute hbytes
    have hlen : bytes.length = clamp len := result_fetch_length hbytes
    have hle : bytes.length ≤ 131052 := by
      rw [hlen, clamp]
      omega
    obtain ⟨frame', hframe, hflen⟩ := Net.Udp.frame_ok s (Net.Sockets.portOf s idx) ip port hle
    rw [hframe] at h
    cases h
    refine ⟨?_, fetch_ok_iff.mp ⟨bytes, hbytes⟩, by rw [hflen, hlen]⟩
    rw [hroute]
    rfl
  · cases h

/-- There is one if the socket has a route and the memory can be read. -/
theorem frameOf_isSome {s : Net.Stack} {idx : Nat} {buf len : Word}
    (hroute : (Net.Sockets.route s idx).isSome) (hread : Readable k buf len) :
    ∃ frame, frame ∈ Net.Sockets.frameOf s idx (source k buf len) := by
  obtain ⟨⟨ip, port⟩, hr⟩ := Option.isSome_iff_exists.mp hroute
  obtain ⟨bytes, hbytes⟩ := fetch_ok_iff.mpr hread
  have hle : bytes.length ≤ 131052 := by
    rw [result_fetch_length hbytes, clamp]
    omega
  obtain ⟨frame, hframe, -⟩ := Net.Udp.frame_ok s (Net.Sockets.portOf s idx) ip port hle
  refine ⟨frame, ?_⟩
  have hsource : (source k buf len).bytes.result = .ok bytes := hbytes
  simp only [Net.Sockets.frameOf, hr, hsource, hframe]
  rfl

/-- A frame comes from a `write` on a socket. -/
theorem mem_handed {f : SyscallFrame} {frame : Bytes} :
    frame ∈ handed k (.syscall f) ↔ f.rax = SyscallNr.write.toWord ∧ f.rsi ≠ 0#64 ∧
      ∃ idx ∈ k.sys.sockIndex f.rdi.toNat,
        frame ∈ Net.Sockets.frameOf k.sys.devices.net idx (source k f.rsi f.rdx) := by
  unfold handed System.sockIndex Inode.frameOf
  dsimp only
  rcases Slots.get k.sys.fds f.rdi.toNat with - | file
  · simp
  · rcases hidx : file.inode.sockIndex with - | idx
    · simp [hidx]
    · simp [hidx, and_assoc]

/-- **One action**: its frame fits unless it is an oversize write. -/
theorem framesFit_iff (k : State) (a : Action) : FramesFit k a ↔ ¬ Oversize k a := by
  rcases a with f | space | ⟨dport, src, sport, data⟩ | b
  · constructor
    · intro hfit ⟨hnr, hbuf, ⟨idx, hidx, hroute⟩, hread, hlen⟩
      obtain ⟨frame, hframe⟩ := frameOf_isSome hroute hread
      have hle := hfit frame (mem_handed.mpr ⟨hnr, hbuf, idx, hidx, hframe⟩)
      rw [(mem_frameOf hframe).2.2, clamp, txBufLen] at hle
      omega
    · intro hnot frame hframe
      obtain ⟨hnr, hbuf, idx, hidx, hof⟩ := mem_handed.mp hframe
      obtain ⟨hroute, hread, hlen⟩ := mem_frameOf hof
      by_contra hlong
      rw [hlen, clamp, txBufLen] at hlong
      exact hnot ⟨hnr, hbuf, ⟨idx, hidx, hroute⟩, hread, by omega⟩
  all_goals
    constructor
    · exact fun _ h => h
    · rintro - frame ⟨⟩

/-- **Every frame fits, but for oversize writes.** From every state, whatever the program calls with
    whatever registers, and whatever happens in between: all the frames that reach the driver fit
    its page iff no call is a write of more than 4054 bytes on a UDP socket with a peer. -/
theorem frames_fit_iff (k : State) (actions : List Action) :
    Along step FramesFit k actions ↔ Along step (fun k a => ¬ Oversize k a) k actions :=
  along_congr framesFit_iff k actions

/-- After boot, with a network card. -/
def connecting : State := boot (.quiet (some .broadcast)) (twoPages [])

/-- `socket(17)`, then `connect(3, 10.0.2.2, 9)`. -/
def connectCalls : List Action :=
  [.syscall ⟨SyscallNr.socket.toWord, 17#64, 0#64, 0#64⟩,
    .syscall ⟨SyscallNr.connect.toWord, 3#64, 0x0a000202#64, 9#64⟩]

/-- `write(3, 0x400000, 4096)`. -/
def bigWrite : SyscallFrame := ⟨SyscallNr.write.toWord, 3#64, 0x400000#64, 4096#64⟩

def connected : State :=
  { connecting with sys := { connecting.sys with
      fds := connecting.sys.fds ++ [some ⟨.socket 0, 0⟩]
      devices := { connecting.sys.devices with net := { connecting.sys.devices.net with
        sockets := [some { proto := 17#8, localPort := 0#16,
                           peer := some (#v[10#8, 0#8, 2#8, 2#8], 9#16), rx := [] }] } } } }

theorem exec_connectCalls :
    exec step (fun _ _ => true) connecting connectCalls =
      some (connected, [.value 3#64, .value 0#64]) :=
  rfl

/-- **A frame of 4138 bytes** for a page of 4096: a write of 4096 bytes on a connected socket. -/
theorem frame_too_long :
    ∃ k₀ es k frame, Booted k₀ ∧ Run step anyStep k₀ es k ∧ k.sys.devices.net.nic.isSome ∧
      handed k (.syscall bigWrite) = some frame ∧ frame.length = 4138 ∧
      ¬ Along step FramesFit k₀ (connectCalls ++ [.syscall bigWrite]) := by
  have hroute : (Net.Sockets.route connected.sys.devices.net 0).isSome := by decide
  have hread : Readable connected bigWrite.rsi bigWrite.rdx := by
    intro i hi
    have hi' : i < 4096 := hi
    have hpage : (0x400000 + i) % 2 ^ 64 / pageSize = 0x400 := by
      unfold pageSize
      omega
    show (connected.space.peek ((0x400000 + i) % 2 ^ 64)).isSome
    rw [Space.peek, hpage]
    rfl
  obtain ⟨frame, hframe⟩ := frameOf_isSome hroute hread
  have hhanded : frame ∈ handed connected (.syscall bigWrite) :=
    mem_handed.mpr ⟨rfl, by decide, 0, rfl, hframe⟩
  have hlen : frame.length = 4138 := (mem_frameOf hframe).2.2
  refine ⟨connecting, _, connected, frame, booted_boot _ _,
    (run_of_exec _ exec_connectCalls).any, rfl, hhanded, hlen, ?_⟩
  rintro ⟨-, h⟩
  obtain ⟨-, h⟩ := h _ _ rfl
  obtain ⟨hfit, -⟩ := h connected _ rfl
  have hle := hfit frame hhanded
  rw [hlen] at hle
  exact absurd hle (by decide)

end SimpleLinux.Syscall
