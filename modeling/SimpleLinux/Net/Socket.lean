/-
  File:      SimpleLinux/Net/Socket.lean
  Subject:   Sockets, net/socket.rs, and the transmit path below them.

  The table is a list of slots; a socket is known by its index. A datagram goes down through UDP,
  IPv4 and Ethernet to the driver, and each layer puts a header in front. The bytes to send are a
  `Source`: they are read where `udp::send` copies them, after the checks of `sendto`.

  * `socket`, `bind`, `connect`, `close`, `sendto`, `recvfrom` -- the code;
  * `Udp.frame` -- the frame that a datagram becomes; `Udp.frame_ok`, `Udp.send_eq` -- it is 42
    bytes longer than the payload, and it is what `e1000::send` is called with.
-/
import SimpleLinux.Fs.Vfs
import SimpleLinux.Lib.Slots
import SimpleLinux.Lib.Traced
import SimpleLinux.Net.Receive

namespace SimpleLinux.Net

open Rust Paging
open Fs (FsResult)

/-! ## 1. The socket table -/

namespace Sockets

/-- A socket that is neither bound nor connected. -/
def unbound (proto : Byte) : Socket := { proto, localPort := 0#16, peer := none, rx := [] }

/-- A new socket, in the first free slot or in a new one. -/
def socket (s : Stack) (proto : Byte) : Nat × Stack :=
  match s.sockets.findIdx? Option.isNone with
  | some i => (i, { s with sockets := s.sockets.set i (some (unbound proto)) })
  | none => (s.sockets.length, { s with sockets := s.sockets ++ [some (unbound proto)] })

/-- The common shape of `bind` and `connect`: a socket changed, if there is one. -/
def change (s : Stack) (idx : Nat) (f : Socket → Socket) : Bool × Stack :=
  match Slots.get s.sockets idx with
  | some _ => (true, { s with sockets := Slots.update s.sockets idx f })
  | none => (false, s)

def bind (s : Stack) (idx : Nat) (port : BitVec 16) : Bool × Stack :=
  change s idx fun k => { k with localPort := port }

def connect (s : Stack) (idx : Nat) (ip : Ipv4) (port : BitVec 16) : Bool × Stack :=
  change s idx fun k => { k with peer := some (ip, port) }

def close (s : Stack) (idx : Nat) : Stack :=
  if idx < s.sockets.length then { s with sockets := Slots.clear s.sockets idx } else s

/-- `map(|s| s.proto).unwrap_or(0)`. -/
def protoOf (s : Stack) (idx : Nat) : Byte := ((Slots.get s.sockets idx).map Socket.proto).getD 0#8

/-- `map(|s| s.local_port).unwrap_or(0)`. -/
def portOf (s : Stack) (idx : Nat) : BitVec 16 :=
  ((Slots.get s.sockets idx).map Socket.localPort).getD 0#16

/-- `and_then(|s| s.peer)`. -/
def peerOf (s : Stack) (idx : Nat) : Option (Ipv4 × BitVec 16) :=
  (Slots.get s.sockets idx).bind Socket.peer

/-- Only UDP can send. -/
def sendto (s : Stack) (idx : Nat) (dst : Ipv4) (port : BitVec 16) (data : Source) :
    Traced (FsResult Nat × Stack) :=
  if protoOf s idx ≠ Ip.protoUdp then pure (.error .invalidArg, s)
  else do
    let bytes ← data.bytes
    let (sent, s') ← Traced.lift (Udp.send s (portOf s idx) dst port bytes)
    return (if sent then .ok data.len else .error .io, s')

/-- `SocketInode::write`: to the peer, if there is one. -/
def write (s : Stack) (idx : Nat) (data : Source) : Traced (FsResult Nat × Stack) :=
  match peerOf s idx with
  | some (ip, port) => sendto s idx ip port data
  | none => pure (.error .invalidArg, s)

/-- One queued datagram, cut to the buffer; the rest of it is dropped. -/
def recvfrom (s : Stack) (idx len : Nat) : Option (Bytes × Ipv4 × BitVec 16) × Stack :=
  match Slots.get s.sockets idx with
  | none => (none, s)
  | some k =>
    match k.rx with
    | [] => (none, s)
    | (src, sport, data) :: rx =>
      (some (data.take (min len data.length), src, sport),
        { s with sockets := Slots.update s.sockets idx fun k => { k with rx } })

/-- Where a write on the socket goes: its peer, if it has one and speaks UDP. -/
def route (s : Stack) (idx : Nat) : Option (Ipv4 × BitVec 16) :=
  if protoOf s idx = Ip.protoUdp then peerOf s idx else none

theorem socket_eq (s : Stack) (proto : Byte) :
    socket s proto = (Slots.hole s.sockets,
      { s with sockets := Slots.insert s.sockets (unbound proto) }) := by
  unfold socket
  rcases Nat.lt_or_ge (Slots.hole s.sockets) s.sockets.length with h | h
  · have hsome : s.sockets.findIdx? Option.isNone = some (Slots.hole s.sockets) :=
      List.findIdx?_eq_some_iff_findIdx_eq.mpr ⟨h, rfl⟩
    rw [hsome, Slots.insert_eq_set h]
  · have he : Slots.hole s.sockets = s.sockets.length := Nat.le_antisymm (Slots.hole_le _) h
    have hnone : s.sockets.findIdx? Option.isNone = none :=
      List.findIdx?_eq_none_iff_findIdx_eq.mpr he
    rw [hnone, Slots.insert_eq_push he, he]

end Sockets

/-! ## 2. The frame of a datagram -/

/-- The frame of an IPv4 packet. -/
def Ip.frame (s : Stack) (dst : Ipv4) (proto : Byte) (payload : Bytes) : Res Bytes := do
  let h ← Ip.header proto ourIp dst (BitVec.ofNat 16 (Ip.headerLen + payload.length))
  return Ethernet.frame (nextHopMac s dst) (ourMac s) Ethernet.typeIp (h ++ payload)

/-- The frame of a UDP datagram. -/
def Udp.frame (s : Stack) (srcPort : BitVec 16) (dst : Ipv4) (dstPort : BitVec 16) (data : Bytes) :
    Res Bytes := do
  Ip.frame s dst Ip.protoUdp (← Udp.datagram srcPort dst dstPort data)

theorem Ip.send_eq (s : Stack) (dst : Ipv4) (proto : Byte) (payload : Bytes) :
    Ip.send s dst proto payload = do return e1000Send s (← Ip.frame s dst proto payload) := by
  unfold Ip.send Ip.frame
  dsimp only
  rcases Ip.header proto ourIp dst (BitVec.ofNat 16 (Ip.headerLen + payload.length)) with e | h
  · rfl
  · rfl

/-- **The driver is called with the frame**, and nothing else happens. -/
theorem Udp.send_eq (s : Stack) (srcPort : BitVec 16) (dst : Ipv4) (dstPort : BitVec 16)
    (data : Bytes) :
    Udp.send s srcPort dst dstPort data = do
      return e1000Send s (← Udp.frame s srcPort dst dstPort data) := by
  unfold Udp.send Udp.frame
  rcases Udp.datagram srcPort dst dstPort data with e | d
  · rfl
  · exact Ip.send_eq s dst Ip.protoUdp d

theorem Ip.length_header {proto : Byte} {src dst : Ipv4} {total : BitVec 16} {h : Bytes}
    (hh : Ip.header proto src dst total = .ok h) : h.length = 20 := by
  obtain ⟨c, -, he⟩ := bind_eq_ok.mp hh
  cases he
  exact length_headerWith ..

theorem Ip.frame_ok (s : Stack) (dst : Ipv4) (proto : Byte) (payload : Bytes) :
    ∃ frame, Ip.frame s dst proto payload = .ok frame ∧ frame.length = 34 + payload.length := by
  obtain ⟨h, hh, -⟩ :=
    Ip.header_verifies proto ourIp dst (BitVec.ofNat 16 (Ip.headerLen + payload.length))
  refine ⟨_, by rw [Ip.frame, hh]; rfl, ?_⟩
  have hlen := Ip.length_header hh
  simp only [Ethernet.frame, List.length_append, Vector.length_toList, length_toBe16, hlen]
  omega

/-- **The frame is 42 bytes longer than the payload.** -/
theorem Udp.frame_ok (s : Stack) (srcPort : BitVec 16) (dst : Ipv4) (dstPort : BitVec 16)
    {data : Bytes} (h : data.length ≤ 131052) :
    ∃ frame, Udp.frame s srcPort dst dstPort data = .ok frame ∧
      frame.length = 42 + data.length := by
  obtain ⟨c, hd, -⟩ := Udp.datagram_eq srcPort dst dstPort data h
  obtain ⟨frame, hf, hflen⟩ := Ip.frame_ok s dst Ip.protoUdp
    (Udp.datagramWith srcPort dstPort c data)
  rw [Udp.length_datagramWith] at hflen
  refine ⟨frame, ?_, by omega⟩
  rw [Udp.frame, hd, ok_bind, hf]

namespace Sockets

/-- Without a route a write is refused, and the bytes are not read. -/
theorem write_refused {s : Stack} {idx : Nat} (data : Source) (h : route s idx = none) :
    write s idx data = pure (.error .invalidArg, s) := by
  rw [write]
  rcases hpeer : peerOf s idx with - | ⟨ip, port⟩
  · rfl
  · have hproto : protoOf s idx ≠ Ip.protoUdp := by
      intro he
      rw [route, if_pos he, hpeer] at h
      cases h
    exact if_pos hproto

/-- **With a route** the bytes are read, and their frame is what `e1000::send` is called with. -/
theorem write_routed {s : Stack} {idx : Nat} (data : Source) {ip : Ipv4} {port : BitVec 16}
    (h : route s idx = some (ip, port)) :
    write s idx data = do
      let bytes ← data.bytes
      let frame ← Traced.lift (Udp.frame s (portOf s idx) ip port bytes)
      return (if (e1000Send s frame).1 then .ok data.len else .error .io,
          (e1000Send s frame).2) := by
  obtain ⟨hproto, hpeer⟩ := Option.ite_none_right_eq_some.mp h
  have hsend : ∀ bytes, Traced.lift (Udp.send s (portOf s idx) ip port bytes) = do
      return e1000Send s (← Traced.lift (Udp.frame s (portOf s idx) ip port bytes)) := by
    intro bytes
    rw [Udp.send_eq]
    rcases Udp.frame s (portOf s idx) ip port bytes with e | frame
    · rfl
    · rfl
  rw [write, hpeer]
  dsimp only
  rw [sendto, if_neg (not_not.mpr hproto)]
  refine congrArg (data.bytes >>= ·) (funext fun bytes => ?_)
  rw [hsend]
  rcases Udp.frame s (portOf s idx) ip port bytes with e | frame
  · rfl
  · rfl

/-- The frame for which a write calls `e1000::send`. -/
def frameOf (s : Stack) (idx : Nat) (data : Source) : Option Bytes :=
  match route s idx, data.bytes.result with
  | some (ip, port), .ok bytes => (Udp.frame s (portOf s idx) ip port bytes).toOption
  | _, _ => none

theorem e1000Send_sent (s : Stack) (frame : Bytes) :
    (e1000Send s frame).2.sent = s.sent ++ if s.nic.isSome then [frame] else [] := by
  unfold e1000Send
  rcases s.nic with - | mac
  · exact (List.append_nil _).symm
  · rfl

/-- What a write adds to the frames sent. -/
theorem write_sent {s s' : Stack} {idx : Nat} {data : Source} {r : FsResult Nat}
    (h : (write s idx data).result = .ok (r, s')) :
    s'.sent = s.sent ++ if s.nic.isSome then (frameOf s idx data).toList else [] := by
  rcases hr : route s idx with - | ⟨ip, port⟩
  · rw [write_refused data hr] at h
    cases h
    simp [frameOf, hr]
  · rw [write_routed data hr, Traced.result_bind] at h
    obtain ⟨bytes, hbytes, h⟩ := bind_eq_ok.mp h
    rw [Traced.result_bind] at h
    obtain ⟨frame, hframe, h⟩ := bind_eq_ok.mp h
    have hof : frameOf s idx data = some frame := by
      simp only [frameOf, hr, hbytes, lift_eq_ok.mp hframe]
      rfl
    cases h
    rw [e1000Send_sent, hof]
    rfl

@[simp] theorem e1000Send_sockets (s : Stack) (frame : Bytes) :
    (e1000Send s frame).2.sockets = s.sockets := by
  unfold e1000Send
  rcases s.nic with - | mac
  · rfl
  · rfl

end Sockets

end SimpleLinux.Net
