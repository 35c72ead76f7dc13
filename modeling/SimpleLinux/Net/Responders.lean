/-
  File:      SimpleLinux/Net/Responders.lean
  Subject:   What an echo request and a SYN are answered with.

  The answer to a ping goes through every layer twice: the packet comes up with a header of 5 to 15
  words and whatever padding the link added, and the reply goes down with a header of ours. The
  answer to a SYN is built from the fields of the segment.

  * `Ip.Packet` -- a packet as it may arrive; `Ip.handle_padded` -- its body reaches its protocol;
  * `Ip.HeaderOf` -- what a header says; `Ip.send_frame` -- the frame of a body that we send;
  * `ping_answered` -- the whole way of a ping, field by field;
  * `Tcp.Handshake` -- one step of the handshake; `tcp_handshake_iff` -- it is taken, except for the
    last sequence number, whose successor overflows.
-/
import SimpleLinux.Net.RoundTrip

namespace SimpleLinux.Net

open Rust

/-! ## 1. A packet, up -/

/-- An IPv4 packet: a header of `ihl` words, options included, and a total length that is right. -/
structure Ip.Packet where
  ihl : Nat
  header : Bytes
  body : Bytes
  five_le : 5 ≤ ihl
  le_fifteen : ihl ≤ 15
  length_header : header.length = ihl * 4
  version : byteAt header 0 = BitVec.ofNat 8 (0x40 + ihl)
  total : (wordAt header 2).toNat = header.length + body.length

namespace Ip.Packet

variable (p : Ip.Packet)

def bytes : Bytes := p.header ++ p.body

def proto : Byte := byteAt p.header 9

def src : Ipv4 := addrAt p.header 12

theorem twenty_le : 20 ≤ p.header.length := by
  rw [p.length_header]
  have := p.five_le
  omega

/-- A byte of the header, whatever follows it. -/
theorem byteAt_header {i : Nat} (hi : i < 20) (pad : Bytes) :
    byteAt (p.bytes ++ pad) i = byteAt p.header i := by
  rw [bytes, List.append_assoc]
  exact byteAt_append_left _ (Nat.lt_of_lt_of_le hi p.twenty_le)

/-- Both halves of the first byte. -/
theorem first_byte (pad : Bytes) :
    byteAt (p.bytes ++ pad) 0 >>> 4 = 4#8 ∧
      (byteAt (p.bytes ++ pad) 0 &&& 0x0f#8).toNat = p.ihl := by
  have hall : ∀ n < 16, (BitVec.ofNat 8 (0x40 + n)) >>> 4 = 4#8 ∧
      (BitVec.ofNat 8 (0x40 + n) &&& 0x0f#8).toNat = n := by decide
  rw [p.byteAt_header (by decide), p.version]
  exact hall p.ihl (Nat.lt_succ_of_le p.le_fifteen)

end Ip.Packet

/-- **A packet reaches its protocol**, without its header and without the padding. -/
theorem Ip.handle_padded (s : Stack) (p : Ip.Packet) (pad : Bytes) :
    Ip.handle s (p.bytes ++ pad) = Ip.dispatch s p.proto p.src p.body := by
  have h20 := p.twenty_le
  obtain ⟨hversion, hihl⟩ := p.first_byte pad
  have hlen : (p.bytes ++ pad).length = p.header.length + p.body.length + pad.length := by
    rw [Ip.Packet.bytes, List.length_append, List.length_append]
  have hstart : Ip.bodyStart (p.bytes ++ pad) = p.header.length := by
    rw [Ip.bodyStart, hihl, ← p.length_header]
    exact Nat.max_eq_left h20
  have hend : Ip.bodyEnd (p.bytes ++ pad) = p.header.length + p.body.length := by
    have htotal : wordAt (p.bytes ++ pad) 2 = wordAt p.header 2 := by
      rw [wordAt, wordAt, p.byteAt_header (by decide), p.byteAt_header (by decide)]
    rw [Ip.bodyEnd, htotal, p.total, hlen]
    exact Nat.min_eq_left (Nat.le_add_right ..)
  have hproto : byteAt (p.bytes ++ pad) 9 = p.proto := p.byteAt_header (by decide) pad
  have hsrc : addrAt (p.bytes ++ pad) 12 = p.src := by
    rw [addrAt, Ip.Packet.src, addrAt, p.byteAt_header (by decide), p.byteAt_header (by decide),
      p.byteAt_header (by decide), p.byteAt_header (by decide)]
  have hslice : slice (p.bytes ++ pad) p.header.length (p.header.length + p.body.length) =
      .ok p.body := slice_mid p.header p.body pad rfl rfl rfl
  rw [Ip.handle_eq s ⟨by omega, hversion⟩, hstart, hend, hproto, hsrc, hslice, ok_bind]

/-! ## 2. A packet, down -/

theorem addrAt_toList {front : Bytes} {i : Nat} (hi : front.length = i) (ip : Ipv4) :
    addrAt (front ++ ip.toList) i = ip := by
  subst hi
  have hfirst := byteAt_append front ip.toList 0
  rw [Nat.add_zero] at hfirst
  rw [addrAt, hfirst, byteAt_append, byteAt_append, byteAt_append]
  match ip with
  | ⟨⟨[_, _, _, _]⟩, _⟩ => rfl

/-- What a header without options says, and that its checksum verifies. -/
structure Ip.HeaderOf (h : Bytes) (proto : Byte) (src dst : Ipv4) (total : Nat) : Prop where
  length : h.length = 20
  version : byteAt h 0 = 0x45#8
  total : (wordAt h 2).toNat = total
  proto : byteAt h 9 = proto
  src : addrAt h 12 = src
  dst : addrAt h 16 = dst
  checksum : checksum h = .ok 0#16

theorem Ip.header_of (proto : Byte) (src dst : Ipv4) (total : BitVec 16) :
    ∃ h, Ip.header proto src dst total = .ok h ∧ Ip.HeaderOf h proto src dst total.toNat := by
  obtain ⟨h, hh, hv⟩ := Ip.header_verifies proto src dst total
  have hlen := Ip.length_header hh
  obtain ⟨c, -, hc⟩ := bind_eq_ok.mp hh
  cases hc
  obtain ⟨hversion, htotal, hproto, hsrc⟩ := Ip.headerWith_fields proto src dst total c []
  rw [List.append_nil] at hversion htotal hproto hsrc
  have hdst : addrAt (Ip.headerWith proto src dst total c) 16 = dst := by
    have hfront : ([0x45#8, 0#8] ++ toBe16 total ++ toBe16 1#16 ++ toBe16 0x4000#16 ++
        [64#8, proto] ++ toBe16 c ++ src.toList).length = 16 := by simp
    exact addrAt_toList hfront dst
  exact ⟨_, hh, hlen, hversion, by rw [htotal], hproto, hsrc, hdst, hv⟩

/-- The one frame that goes to the driver for a body. -/
theorem Ip.send_frame (s : Stack) (dst : Ipv4) (proto : Byte) {body : Bytes}
    (hlen : body.length ≤ 65515) :
    ∃ h, Ip.HeaderOf h proto ourIp dst (h ++ body).length ∧
      Ip.send s dst proto body = .ok (e1000Send s
        (Ethernet.frame (nextHopMac s dst) (ourMac s) Ethernet.typeIp (h ++ body))) := by
  obtain ⟨h, hh, hof⟩ :=
    Ip.header_of proto ourIp dst (BitVec.ofNat 16 (Ip.headerLen + body.length))
  have htotal : (BitVec.ofNat 16 (Ip.headerLen + body.length)).toNat = (h ++ body).length := by
    rw [BitVec.toNat_ofNat, List.length_append, hof.length]
    exact Nat.mod_eq_of_lt (show 20 + body.length < 2 ^ 16 by omega)
  rw [htotal] at hof
  refine ⟨h, hof, ?_⟩
  rw [Ip.send_eq, Ip.frame, hh]
  rfl

/-! ## 3. Ping -/

/-- An echo message: request or reply. -/
def Icmp.echo (type : Byte) (cks id seq : BitVec 16) (data : Bytes) : Bytes :=
  [type, 0#8] ++ toBe16 cks ++ (toBe16 id ++ toBe16 seq ++ data)

theorem Icmp.length_echo (type : Byte) (cks id seq : BitVec 16) (data : Bytes) :
    (Icmp.echo type cks id seq data).length = 8 + data.length := by
  simp only [Icmp.echo, List.length_append, List.length_cons, List.length_nil, length_toBe16]
  omega

/-- A request makes the handler send the same message as a reply. -/
theorem Icmp.handle_request (s : Stack) (src : Ipv4) (cks id seq : BitVec 16) {data : Bytes}
    (hlen : data.length ≤ 65507) :
    ∃ c, checksum (Icmp.echo Icmp.typeEchoReply c id seq data) = .ok 0#16 ∧
      Icmp.handle s src (Icmp.echo Icmp.typeEchoRequest cks id seq data) = do
        return (← Ip.send s src Ip.protoIcmp (Icmp.echo Icmp.typeEchoReply c id seq data)).2 := by
  have hreq := Icmp.length_echo Icmp.typeEchoRequest cks id seq data
  obtain ⟨c, hreply, hv⟩ := Icmp.echoReply_eq (Icmp.echo Icmp.typeEchoRequest cks id seq data)
    (by omega) (by omega)
  refine ⟨c, hv, ?_⟩
  have htype : get (Icmp.echo Icmp.typeEchoRequest cks id seq data) 0 = .ok Icmp.typeEchoRequest :=
    get_byteAt (by omega)
  unfold Icmp.handle
  rw [if_neg (by omega), htype, ok_bind, if_pos rfl, sub_of_le (by omega), ok_bind, hreply, ok_bind]
  rfl

/-- **A ping is answered.** An echo request in a packet with any header of 5 to 15 words, from any
    address, with any padding behind it, makes the stack hand one frame to the driver. It is
    addressed to the next hop towards the sender; its IPv4 header goes from us to the sender, with
    the right total length and checksum; and its message is the request as a reply: the same id,
    sequence number and data, under a checksum that verifies. -/
theorem ping_answered (s : Stack) (p : Ip.Packet) (dst src : MacAddr) (cks id seq : BitVec 16)
    (data pad : Bytes) (hproto : p.proto = Ip.protoIcmp)
    (hbody : p.body = Icmp.echo Icmp.typeEchoRequest cks id seq data) :
    ∃ h c, Ethernet.handle s (Ethernet.frame dst src Ethernet.typeIp p.bytes ++ pad) =
        .ok (e1000Send s (Ethernet.frame (nextHopMac s p.src) (ourMac s) Ethernet.typeIp
          (h ++ Icmp.echo Icmp.typeEchoReply c id seq data))).2 ∧
      Ip.HeaderOf h Ip.protoIcmp ourIp p.src
        (h ++ Icmp.echo Icmp.typeEchoReply c id seq data).length ∧
      checksum (Icmp.echo Icmp.typeEchoReply c id seq data) = .ok 0#16 := by
  have hlen : data.length ≤ 65507 := by
    have htotal := p.total
    have h20 := p.twenty_le
    have hword : (wordAt p.header 2).toNat < 2 ^ 16 := (wordAt p.header 2).isLt
    rw [hbody, Icmp.length_echo] at htotal
    omega
  obtain ⟨c, hv, hhandle⟩ := Icmp.handle_request s p.src cks id seq hlen
  have hreply := Icmp.length_echo Icmp.typeEchoReply c id seq data
  obtain ⟨h, hof, hsend⟩ := Ip.send_frame s p.src Ip.protoIcmp
    (show (Icmp.echo Icmp.typeEchoReply c id seq data).length ≤ 65515 by omega)
  refine ⟨h, c, ?_, hof, hv⟩
  rw [Ethernet.handle_frame, if_neg (by decide), if_pos rfl, Ip.handle_padded, hproto, hbody,
    Ip.dispatch, if_pos rfl, hhandle, hsend]
  rfl

/-- The request of the self-test of ip.rs, from the gateway, with four bytes of options. -/
def pingPacket : Ip.Packet where
  ihl := 6
  header := [0x46#8, 0#8, 0#8, 34#8, 0#8, 1#8, 0x40#8, 0#8, 64#8, Ip.protoIcmp, 0#8, 0#8] ++
    gateway.toList ++ ourIp.toList ++ [1#8, 1#8, 1#8, 0#8]
  body := Icmp.echo Icmp.typeEchoRequest 0#16 0x1234#16 1#16 [0x68#8, 0x69#8]
  five_le := by decide
  le_fifteen := by decide
  length_header := by decide
  version := by decide
  total := by decide

theorem ping_answered_gateway :
    ∃ h c, Ethernet.handle nicStack (Ethernet.frame .broadcast .broadcast Ethernet.typeIp
        pingPacket.bytes ++ [0#8]) =
        .ok { nicStack with sent := [Ethernet.frame .broadcast (ourMac nicStack) Ethernet.typeIp
          (h ++ Icmp.echo Icmp.typeEchoReply c 0x1234#16 1#16 [0x68#8, 0x69#8])] } := by
  obtain ⟨h, c, hhandle, -⟩ := ping_answered nicStack pingPacket .broadcast .broadcast 0#16
    0x1234#16 1#16 [0x68#8, 0x69#8] [0#8] (by decide) rfl
  exact ⟨h, c, hhandle⟩

/-! ## 4. SYN -/

/-- SYN without ACK: the segments that open a connection. -/
def Tcp.Opens (t : Bytes) : Prop :=
  wordAt t 12 &&& Tcp.syn ≠ 0#16 ∧ wordAt t 12 &&& Tcp.ack = 0#16

instance (t : Bytes) : Decidable (Tcp.Opens t) := inferInstanceAs (Decidable (_ ∧ _))

/-- A SYN-ACK to the sender of `t`, read at the offsets of the decoder. -/
structure Tcp.SynAckTo (src : Ipv4) (t answer : Bytes) : Prop where
  srcPort : wordAt answer 0 = wordAt t 2
  dstPort : wordAt answer 2 = wordAt t 0
  ackNr : longAt answer 8 = longAt t 4 + 1#32
  offset : wordAt answer 12 >>> 12 = 5#16
  flags : wordAt answer 12 &&& 0x0fff#16 = Tcp.syn ||| Tcp.ack
  checksum : checksum (pseudoHeader src Ip.protoTcp answer.length ++ answer) = .ok 0#16

/-- One step of the handshake: no panic; one SYN-ACK is sent for a SYN without ACK, and nothing for
    any other segment. -/
def Tcp.Handshake (s : Stack) (src : Ipv4) (t : Bytes) : Prop :=
  ∃ s', Tcp.handle s src t = .ok s' ∧
    if Tcp.Opens t then
      ∃ answer sent, Ip.send s src Ip.protoTcp answer = .ok (sent, s') ∧ Tcp.SynAckTo src t answer
    else s' = s

theorem Tcp.synAck_fields (src : Ipv4) {t : Bytes} {c : BitVec 16}
    (hv : checksum (pseudoHeader src Ip.protoTcp 20 ++ Tcp.segmentWith (wordAt t 2) (wordAt t 0)
      1000#32 (longAt t 4 + 1#32) (Tcp.syn ||| Tcp.ack) c []) = .ok 0#16) :
    Tcp.SynAckTo src t (Tcp.segmentWith (wordAt t 2) (wordAt t 0) 1000#32 (longAt t 4 + 1#32)
      (Tcp.syn ||| Tcp.ack) c []) where
  srcPort := append_extract _
  dstPort := append_extract _
  ackNr := append_extract_long _
  offset := by rw [Tcp.wordAt_synAck]; decide
  flags := by rw [Tcp.wordAt_synAck]; decide
  checksum := by
    rw [length_segmentWith]
    exact hv

/-- The step is taken for every sequence number that has a successor. -/
theorem Tcp.handshake_of_lt (s : Stack) (src : Ipv4) {t : Bytes} (h : 20 ≤ t.length)
    (hopens : Tcp.Opens t) (hseq : (longAt t 4).toNat + 1 < 2 ^ 32) : Tcp.Handshake s src t := by
  have hnr : BitVec.ofNat 32 ((longAt t 4).toNat + 1) = longAt t 4 + 1#32 := by
    rw [BitVec.ofNat_add, BitVec.ofNat_toNat, BitVec.setWidth_eq]
  obtain ⟨c, hseg, hv⟩ := Tcp.segment_eq (wordAt t 2) (wordAt t 0) 1000#32 (longAt t 4 + 1#32)
    (Tcp.syn ||| Tcp.ack) [] src (by decide)
  obtain ⟨⟨sent, s'⟩, hsend⟩ := Ip.send_ok s src Ip.protoTcp (Tcp.segmentWith (wordAt t 2)
    (wordAt t 0) 1000#32 (longAt t 4 + 1#32) (Tcp.syn ||| Tcp.ack) c [])
  refine ⟨s', ?_, ?_⟩
  · rw [Tcp.handle_eq s src h, if_pos ⟨hopens.1, hopens.2⟩, add_of_lt hseq, ok_bind, hnr, hseg,
      ok_bind, hsend]
    rfl
  · rw [if_pos hopens]
    exact ⟨_, sent, hsend, Tcp.synAck_fields src hv⟩

/-- **A step of the handshake is taken iff the segment is not a SYN with the last sequence number**:
    the acknowledgement number is computed with a checked `+`, not modulo `2^32`. -/
theorem tcp_handshake_iff (s : Stack) (src : Ipv4) (t : Bytes) (h : 20 ≤ t.length) :
    Tcp.Handshake s src t ↔
      ¬ (Tcp.Opens t ∧ longAt t 4 = 0xffffffff#32) := by
  by_cases hopens : Tcp.Opens t
  · by_cases hlast : longAt t 4 = 0xffffffff#32
    · have hpanic := Tcp.handle_panics s src ⟨h, hopens.1, hopens.2, hlast⟩
      constructor
      · intro ⟨s', hs, _⟩
        rw [hpanic] at hs
        cases hs
      · intro hnot
        exact absurd ⟨hopens, hlast⟩ hnot
    · have hseq : (longAt t 4).toNat + 1 < 2 ^ 32 := by bv_omega
      exact ⟨fun _ hboth => hlast hboth.2, fun _ => Tcp.handshake_of_lt s src h hopens hseq⟩
  · have hquiet : Tcp.Handshake s src t := by
      refine ⟨s, ?_, by rw [if_neg hopens]⟩
      rw [Tcp.handle_eq s src h]
      exact if_neg hopens
    exact ⟨fun _ hboth => hopens hboth.1, fun _ => hquiet⟩

/-- The SYN of the self-test, with another sequence number. -/
def synSegment (seq : BitVec 32) : Bytes :=
  toBe16 51000#16 ++ toBe16 80#16 ++ toBe32 seq ++ toBe32 0#32 ++ toBe16 0x5002#16 ++
    toBe16 536#16 ++ toBe16 0#16 ++ toBe16 0#16

theorem tcp_handshake_syn :
    20 ≤ (synSegment 777#32).length ∧ Tcp.Handshake nicStack gateway (synSegment 777#32) ∧
      ∃ s', Tcp.handle nicStack gateway (synSegment 777#32) = .ok s' ∧ s'.sent.length = 1 := by
  have htaken := (tcp_handshake_iff nicStack gateway (synSegment 777#32) (by decide)).mpr
    (by decide)
  exact ⟨by decide, htaken, _, rfl, rfl⟩

theorem tcp_handshake_overflows :
    20 ≤ (synSegment 0xffffffff#32).length ∧
      Tcp.handle emptyStack gateway (synSegment 0xffffffff#32) = .error .overflow ∧
      ¬ Tcp.Handshake emptyStack gateway (synSegment 0xffffffff#32) := by
  have hpanic : Tcp.handle emptyStack gateway (synSegment 0xffffffff#32) = .error .overflow :=
    Tcp.handle_panics emptyStack gateway (by decide)
  refine ⟨by decide, hpanic, ?_⟩
  intro ⟨s', hs, _⟩
  rw [hpanic] at hs
  cases hs

end SimpleLinux.Net
