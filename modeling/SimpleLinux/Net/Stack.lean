/-
  File:      SimpleLinux/Net/Stack.lean
  Subject:   The layers of the network stack: net/ethernet.rs, arp.rs, ip.rs, icmp.rs, udp.rs,
             tcp.rs and the receive hook of socket.rs, with what they send in answer.

  A frame goes up through the decoders; each of them may change the state (learn a binding, queue a
  datagram) or hand frames to the driver. Whatever can panic is a `Res`: an index or a slice past
  the end, and the arithmetic that the dev profile checks.

  The driver is its observable side: whether the NIC came up, with which MAC address, and the frames
  handed to `e1000::send`. Console output is left out, except for `MacAddr::fmt`, which indexes.
-/
import SimpleLinux.Net.Wire

namespace SimpleLinux.Net

open Rust

/-! ## 1. The state -/

structure Socket where
  proto : Byte
  localPort : BitVec 16
  peer : Option (Ipv4 × BitVec 16)
  rx : List (Ipv4 × BitVec 16 × Bytes)

structure Stack where
  /-- the MAC address of the NIC, if it came up -/
  nic : Option MacAddr
  /-- `CACHE` of arp.rs -/
  cache : Ipv4 → Option MacAddr
  /-- `SOCKETS` of socket.rs -/
  sockets : List (Option Socket)
  /-- the frames handed to the driver, oldest first -/
  sent : List Bytes

/-- `net::IP`. -/
def ourIp : Ipv4 := #v[10, 0, 2, 15]

/-- `net::GATEWAY`. -/
def gateway : Ipv4 := #v[10, 0, 2, 2]

/-- `e1000::send`: refused without a NIC. -/
def e1000Send (s : Stack) (frame : Bytes) : Bool × Stack :=
  match s.nic with
  | some _ => (true, { s with sent := s.sent ++ [frame] })
  | none => (false, s)

/-- Our own MAC, or all zero if the NIC never came up. -/
def ourMac (s : Stack) : MacAddr := s.nic.getD ⟨Vector.replicate 6 0⟩

/-! ## 2. Ethernet and ARP -/

namespace Ethernet

def typeArp : BitVec 16 := 0x0806#16

def typeIp : BitVec 16 := 0x0800#16

def headerLen : Nat := 14

def frame (dst src : MacAddr) (ethertype : BitVec 16) (payload : Bytes) : Bytes :=
  dst.bytes.toList ++ src.bytes.toList ++ toBe16 ethertype ++ payload

end Ethernet

def transmitEthernet (s : Stack) (dst : MacAddr) (ethertype : BitVec 16) (payload : Bytes) :
    Bool × Stack :=
  e1000Send s (Ethernet.frame dst (ourMac s) ethertype payload)

/-- The next hop: the host itself if the cache knows it, else the gateway, else broadcast. -/
def nextHopMac (s : Stack) (dst : Ipv4) : MacAddr :=
  match s.cache dst with
  | some m => m
  | none =>
    match s.cache gateway with
    | some m => m
    | none => .broadcast

namespace Arp

def opRequest : BitVec 16 := 1#16

def opReply : BitVec 16 := 2#16

def payload (oper : BitVec 16) (sha : MacAddr) (spa : Ipv4) (tha : MacAddr) (tpa : Ipv4) : Bytes :=
  toBe16 1#16 ++ toBe16 0x0800#16 ++ [6#8, 4#8] ++ toBe16 oper ++ sha.bytes.toList ++ spa.toList ++
    tha.bytes.toList ++ tpa.toList

/-- "who-has", to everyone. -/
def request (s : Stack) (target : Ipv4) : Stack :=
  let pkt := payload opRequest (ourMac s) ourIp ⟨Vector.replicate 6 0#8⟩ target
  (transmitEthernet s .broadcast Ethernet.typeArp pkt).2

def remember (s : Stack) (ip : Ipv4) (mac : MacAddr) : Stack :=
  { s with cache := fun q => if q = ip then some mac else s.cache q }

/-- Learn the sender; answer a request for our address. -/
def handle (s : Stack) (arp : Bytes) : Res Stack := do
  if arp.length < 28 then
    return s
  let oper ← be16 (← slice arp 6 8)
  let sha ← macAt arp 8
  let spa ← ipv4At arp 14
  let tpa ← ipv4At arp 24
  let s := remember s spa sha
  let _ ← sha.fmt
  if oper = opRequest ∧ tpa = ourIp then
    let s := (transmitEthernet s sha Ethernet.typeArp (payload opReply (ourMac s) ourIp sha spa)).2
    let _ ← (ourMac s).fmt
    return s
  else
    return s

end Arp

/-! ## 3. IPv4, outbound -/

namespace Ip

def protoIcmp : Byte := 1#8

def protoTcp : Byte := 6#8

def protoUdp : Byte := 17#8

def headerLen : Nat := 20

/-- The header around its checksum field. -/
def headerWith (proto : Byte) (src dst : Ipv4) (total cks : BitVec 16) : Bytes :=
  [0x45#8, 0#8] ++ toBe16 total ++ toBe16 1#16 ++ toBe16 0x4000#16 ++ [64#8, proto] ++ toBe16 cks ++
    src.toList ++ dst.toList

/-- The checksum is taken over the header with a zero checksum field. -/
def header (proto : Byte) (src dst : Ipv4) (total : BitVec 16) : Res Bytes := do
  return headerWith proto src dst total (← checksum (headerWith proto src dst total 0#16))

def send (s : Stack) (dst : Ipv4) (proto : Byte) (payload : Bytes) : Res (Bool × Stack) := do
  let total := BitVec.ofNat 16 (headerLen + payload.length)
  let h ← header proto ourIp dst total
  return transmitEthernet s (nextHopMac s dst) Ethernet.typeIp (h ++ payload)

end Ip

/-! ## 4. ICMP, UDP, TCP -/

namespace Icmp

def typeEchoReply : Byte := 0#8

def typeEchoRequest : Byte := 8#8

/-- The checksum covers the message with a zero checksum field. -/
def echoRequest (id seq : BitVec 16) (payload : Bytes) : Res Bytes := do
  let m := [typeEchoRequest, 0#8] ++ toBe16 0#16 ++ toBe16 id ++ toBe16 seq ++ payload
  copyFrom m 2 (toBe16 (← checksum m))

/-- The request with its type and checksum replaced. -/
def echoReply (req : Bytes) : Res Bytes := do
  let m ← set req 0 typeEchoReply
  let m ← set m 1 0#8
  let m ← set m 2 0#8
  let m ← set m 3 0#8
  copyFrom m 2 (toBe16 (← checksum m))

def handle (s : Stack) (src : Ipv4) (msg : Bytes) : Res Stack := do
  if msg.length < 8 then
    return s
  let t ← get msg 0
  if t = typeEchoRequest then
    let _ ← sub msg.length 8
    let reply ← echoReply msg
    return (← Ip.send s src Ip.protoIcmp reply).2
  else if t = typeEchoReply then
    let _ ← be16At msg 4
    let _ ← be16At msg 6
    return s
  else
    return s

end Icmp

namespace Sockets

/-- The datagram goes to the end of the queue of every UDP socket bound to its port. -/
def deliver (s : Stack) (dport : BitVec 16) (src : Ipv4) (sport : BitVec 16) (data : Bytes) :
    Stack :=
  let one (k : Socket) : Socket :=
    if k.proto = Ip.protoUdp ∧ k.localPort = dport then
      { k with rx := k.rx ++ [(src, sport, data)] }
    else k
  { s with sockets := s.sockets.map (Option.map one) }

end Sockets

namespace Udp

def headerLen : Nat := 8

def handle (s : Stack) (src : Ipv4) (d : Bytes) : Res Stack := do
  if d.length < headerLen then
    return s
  let sport ← be16At d 0
  let dport ← be16At d 2
  let length ← be16At d 4
  let stop := min (max length.toNat headerLen) d.length
  let payload ← slice d headerLen stop
  return Sockets.deliver s dport src sport payload

/-- The datagram around its checksum field. -/
def datagramWith (srcPort dstPort cks : BitVec 16) (data : Bytes) : Bytes :=
  toBe16 srcPort ++ toBe16 dstPort ++ toBe16 (BitVec.ofNat 16 (headerLen + data.length)) ++
    toBe16 cks ++ data

/-- The checksum covers the pseudo-header and the datagram with a zero checksum field. -/
def datagram (srcPort : BitVec 16) (dst : Ipv4) (dstPort : BitVec 16) (data : Bytes) :
    Res Bytes := do
  let d := datagramWith srcPort dstPort 0#16 data
  let pseudo := ourIp.toList ++ dst.toList ++ [0#8, Ip.protoUdp] ++
    toBe16 (BitVec.ofNat 16 (headerLen + data.length)) ++ d
  copyFrom d 6 (toBe16 (← checksum pseudo))

def send (s : Stack) (srcPort : BitVec 16) (dst : Ipv4) (dstPort : BitVec 16) (data : Bytes) :
    Res (Bool × Stack) := do
  let d ← datagram srcPort dst dstPort data
  Ip.send s dst Ip.protoUdp d

end Udp

namespace Tcp

def headerLen : Nat := 20

def syn : BitVec 16 := 0x02#16

def ack : BitVec 16 := 0x10#16

/-- The segment around its checksum field. -/
def segmentWith (sport dport : BitVec 16) (seq ackNr : BitVec 32) (flags cks : BitVec 16)
    (payload : Bytes) : Bytes :=
  toBe16 sport ++ toBe16 dport ++ toBe32 seq ++ toBe32 ackNr ++
    toBe16 (BitVec.ofNat 16 (headerLen / 4) <<< 12 ||| flags) ++ toBe16 536#16 ++ toBe16 cks ++
    toBe16 0#16 ++ payload

/-- The checksum covers the pseudo-header and the segment with a zero checksum field. -/
def segment (sport dport : BitVec 16) (seq ackNr : BitVec 32) (flags : BitVec 16) (payload : Bytes)
    (dst : Ipv4) : Res Bytes := do
  let t := segmentWith sport dport seq ackNr flags 0#16 payload
  let pseudo := ourIp.toList ++ dst.toList ++ [0#8, Ip.protoTcp] ++
    toBe16 (BitVec.ofNat 16 t.length) ++ t
  copyFrom t 16 (toBe16 (← checksum pseudo))

/-- A SYN without ACK is answered; `seq + 1` overflows for the last sequence number. -/
def handle (s : Stack) (src : Ipv4) (t : Bytes) : Res Stack := do
  if t.length < headerLen then
    return s
  let sport ← be16At t 0
  let dport ← be16At t 2
  let seq ← be32At t 4
  let _ ← be32At t 8
  let flags ← be16At t 12
  if flags &&& syn ≠ 0#16 ∧ flags &&& ack = 0#16 then
    let ackNr ← add 32 seq.toNat 1
    let synAck ← segment dport sport 1000#32 (BitVec.ofNat 32 ackNr) (syn ||| ack) [] src
    return (← Ip.send s src Ip.protoTcp synAck).2
  else
    return s

end Tcp

/-! ## 5. IPv4 and Ethernet, inbound -/

/-- The protocol of the packet decides who gets its body. -/
def Ip.dispatch (s : Stack) (proto : Byte) (src : Ipv4) (body : Bytes) : Res Stack :=
  if proto = Ip.protoIcmp then Icmp.handle s src body
  else if proto = Ip.protoUdp then Udp.handle s src body
  else if proto = Ip.protoTcp then Tcp.handle s src body
  else .ok s

def Ip.handle (s : Stack) (pkt : Bytes) : Res Stack := do
  if pkt.length < Ip.headerLen then
    return s
  if (← get pkt 0) >>> 4 ≠ 4#8 then
    return s
  let ihl := ((← get pkt 0) &&& 0x0f#8).toNat * 4
  let total := (← be16 (← slice pkt 2 4)).toNat
  let proto ← get pkt 9
  let src ← ipv4At pkt 12
  let body ← slice pkt (max ihl Ip.headerLen) (min total pkt.length)
  Ip.dispatch s proto src body

def Ethernet.handle (s : Stack) (frame : Bytes) : Res Stack := do
  if frame.length < Ethernet.headerLen then
    return s
  let ethertype ← be16 (← slice frame 12 14)
  let payload ← slice frame Ethernet.headerLen frame.length
  if ethertype = Ethernet.typeArp then
    Arp.handle s payload
  else if ethertype = Ethernet.typeIp then
    Ip.handle s payload
  else
    return s

end SimpleLinux.Net
