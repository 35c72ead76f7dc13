/-
  File:      SimpleLinux/Net/RoundTrip.lean
  Subject:   A frame of this stack, received by a host that runs it.

  Three encoders put a header each in front of the payload, three decoders take it off. The frame
  may have grown on the way by padding: the Ethernet decoder passes it on, the total length of the
  IPv4 header cuts it off.

  * `Ethernet.handle_frame`, `Ip.handle_packet` -- one layer each: encoded, padded, decoded;
  * `Ip.handle_frame` -- both: what `ip::send` hands to the driver arrives as the body it was built
    from, with the protocol and the address of the sender;
  * `udp_round_trip` -- a datagram arrives in `socket::deliver`, unchanged.
-/
import SimpleLinux.Net.Socket

namespace SimpleLinux.Net

open Rust

/-! ## 1. Ethernet -/

theorem Ethernet.length_frame (dst src : MacAddr) (ethertype : BitVec 16) (payload : Bytes) :
    (Ethernet.frame dst src ethertype payload).length = 14 + payload.length := by
  simp only [Ethernet.frame, List.length_append, Vector.length_toList, length_toBe16]

/-- The EtherType decides who gets the payload, padding included. -/
theorem Ethernet.handle_frame (host : Stack) (dst src : MacAddr) (ethertype : BitVec 16)
    (payload trailing : Bytes) :
    Ethernet.handle host (Ethernet.frame dst src ethertype payload ++ trailing) =
      if ethertype = Ethernet.typeArp then Arp.handle host (payload ++ trailing)
      else if ethertype = Ethernet.typeIp then Ip.handle host (payload ++ trailing)
      else .ok host := by
  have hshape : Ethernet.frame dst src ethertype payload ++ trailing =
      (dst.bytes.toList ++ src.bytes.toList) ++ (toBe16 ethertype ++ (payload ++ trailing)) := by
    simp only [Ethernet.frame, List.append_assoc]
  have haddrs : (dst.bytes.toList ++ src.bytes.toList).length = 12 := by
    simp only [List.length_append, Vector.length_toList]
  generalize dst.bytes.toList ++ src.bytes.toList = addrs at hshape haddrs
  have hword : wordAt (addrs ++ (toBe16 ethertype ++ (payload ++ trailing))) 12 = ethertype := by
    rw [← haddrs]
    exact wordAt_toBe16 ..
  have hdrop : (addrs ++ (toBe16 ethertype ++ (payload ++ trailing))).drop 14 =
      payload ++ trailing := by
    rw [← List.append_assoc, List.drop_left' (by rw [List.length_append, haddrs]; rfl)]
  have hlen : 14 ≤ (addrs ++ (toBe16 ethertype ++ (payload ++ trailing))).length := by
    rw [List.length_append, List.length_append, haddrs, length_toBe16]
    omega
  rw [hshape, Ethernet.handle_eq host hlen, hword, hdrop]

/-! ## 2. IPv4 -/

/-- The fields that the decoder reads from a header of ours. -/
theorem Ip.headerWith_fields (proto : Byte) (src dst : Ipv4) (total cks : BitVec 16)
    (back : Bytes) :
    byteAt (Ip.headerWith proto src dst total cks ++ back) 0 = 0x45#8 ∧
      wordAt (Ip.headerWith proto src dst total cks ++ back) 2 = total ∧
      byteAt (Ip.headerWith proto src dst total cks ++ back) 9 = proto ∧
      addrAt (Ip.headerWith proto src dst total cks ++ back) 12 = src := by
  refine ⟨rfl, append_extract total, rfl, ?_⟩
  match src with
  | ⟨⟨[_, _, _, _]⟩, _⟩ => rfl

/-- **A packet arrives as its body**: the total length cuts off whatever follows it. -/
theorem Ip.handle_packet (host : Stack) {proto : Byte} {src dst : Ipv4} {total : BitVec 16}
    {h payload : Bytes} (hh : Ip.header proto src dst total = .ok h)
    (htotal : total.toNat = 20 + payload.length) (trailing : Bytes) :
    Ip.handle host (h ++ payload ++ trailing) = Ip.dispatch host proto src payload := by
  have hlen := Ip.length_header hh
  obtain ⟨c, -, hc⟩ := bind_eq_ok.mp hh
  cases hc
  have hpkt : (Ip.headerWith proto src dst total c ++ payload ++ trailing).length =
      20 + payload.length + trailing.length := by
    rw [List.length_append, List.length_append, hlen]
  obtain ⟨hversion, hfield, hproto, hsrc⟩ :=
    Ip.headerWith_fields proto src dst total c (payload ++ trailing)
  rw [← List.append_assoc] at hversion hfield hproto hsrc
  have hwf : Ip.WellFormed (Ip.headerWith proto src dst total c ++ payload ++ trailing) := by
    refine ⟨by omega, ?_⟩
    rw [hversion]
    rfl
  have hstart : Ip.bodyStart (Ip.headerWith proto src dst total c ++ payload ++ trailing) = 20 := by
    rw [Ip.bodyStart, hversion]
    rfl
  have hend : Ip.bodyEnd (Ip.headerWith proto src dst total c ++ payload ++ trailing) =
      20 + payload.length := by
    rw [Ip.bodyEnd, hfield, hpkt, htotal]
    exact Nat.min_eq_left (Nat.le_add_right ..)
  rw [Ip.handle_eq host hwf, hstart, hend, hproto, hsrc,
    slice_mid _ payload trailing rfl hlen.symm (by rw [hlen]), ok_bind]

theorem Ip.handle_frame {s : Stack} {dst : Ipv4} {proto : Byte} {payload frame : Bytes}
    (hf : Ip.frame s dst proto payload = .ok frame) (hlen : payload.length ≤ 65515) (host : Stack)
    (trailing : Bytes) :
    Ethernet.handle host (frame ++ trailing) = Ip.dispatch host proto ourIp payload := by
  obtain ⟨h, hh, he⟩ := bind_eq_ok.mp hf
  cases he
  have htotal : (BitVec.ofNat 16 (Ip.headerLen + payload.length)).toNat = 20 + payload.length := by
    rw [BitVec.toNat_ofNat]
    exact Nat.mod_eq_of_lt (show 20 + payload.length < 2 ^ 16 by omega)
  rw [Ethernet.handle_frame, if_neg (by decide), if_pos rfl]
  exact Ip.handle_packet host hh htotal trailing

/-! ## 3. TCP and UDP -/

/-- The word of a SYN-ACK that holds its data offset and flags. -/
theorem Tcp.wordAt_synAck (sport dport : BitVec 16) (seq ackNr : BitVec 32) (cks : BitVec 16)
    (payload : Bytes) :
    wordAt (Tcp.segmentWith sport dport seq ackNr (Tcp.syn ||| Tcp.ack) cks payload) 12 =
      0x5012#16 :=
  (append_extract _).trans (by decide)

/-- A datagram of ours arrives at the sockets, with the payload it was built from. -/
theorem Udp.handle_datagram (host : Stack) (src : Ipv4) (srcPort dstPort cks : BitVec 16)
    {data : Bytes} (h : data.length ≤ 65507) :
    Udp.handle host src (Udp.datagramWith srcPort dstPort cks data) =
      .ok (Sockets.deliver host dstPort src srcPort data) := by
  have hlen := Udp.length_datagramWith srcPort dstPort cks data
  have hfield : (wordAt (Udp.datagramWith srcPort dstPort cks data) 4).toNat = 8 + data.length := by
    have hword : wordAt (Udp.datagramWith srcPort dstPort cks data) 4 =
        BitVec.ofNat 16 (8 + data.length) := append_extract _
    rw [hword, BitVec.toNat_ofNat]
    exact Nat.mod_eq_of_lt (by omega)
  have hstop : min (max (8 + data.length) 8)
      (Udp.datagramWith srcPort dstPort cks data).length = 8 + data.length := by
    rw [hlen, Nat.max_eq_left (Nat.le_add_right 8 _), Nat.min_self]
  have hpayload : ((Udp.datagramWith srcPort dstPort cks data).take (8 + data.length)).drop 8 =
      data := by
    rw [← hlen, List.take_length]
    rfl
  have hsport : wordAt (Udp.datagramWith srcPort dstPort cks data) 0 = srcPort := append_extract _
  have hdport : wordAt (Udp.datagramWith srcPort dstPort cks data) 2 = dstPort := append_extract _
  rw [Udp.handle_eq host src (by omega), hfield, hstop, hpayload, hsport, hdport]

/-- What any host makes of the frame of a datagram, whatever follows it on the wire. -/
theorem Udp.handle_sent {s : Stack} {srcPort dstPort : BitVec 16} {dst : Ipv4} {data frame : Bytes}
    (h : data.length ≤ 65507) (hframe : Udp.frame s srcPort dst dstPort data = .ok frame)
    (host : Stack) (trailing : Bytes) :
    Ethernet.handle host (frame ++ trailing) =
      .ok (Sockets.deliver host dstPort ourIp srcPort data) := by
  obtain ⟨c, hd, -⟩ := Udp.datagram_eq srcPort dst dstPort data (by omega)
  have hlen := Udp.length_datagramWith srcPort dstPort c data
  rw [Udp.frame, hd, ok_bind] at hframe
  rw [Ip.handle_frame hframe (by omega)]
  exact Udp.handle_datagram host ourIp srcPort dstPort c h

/-- **A datagram survives the whole stack.** The frame that `udp::send` hands to the driver,
    whatever follows it on the wire, makes any host that runs this stack deliver the payload once,
    from the sender's address and port to the destination port; that is all the host does, so it
    sends nothing. -/
theorem udp_round_trip (s : Stack) (srcPort : BitVec 16) (dst : Ipv4) (dstPort : BitVec 16)
    (data : Bytes) (h : data.length ≤ 65507) :
    ∃ frame, Udp.send s srcPort dst dstPort data = .ok (e1000Send s frame) ∧
      ∀ (host : Stack) (trailing : Bytes),
        Ethernet.handle host (frame ++ trailing) =
            .ok (Sockets.deliver host dstPort ourIp srcPort data) ∧
          (Sockets.deliver host dstPort ourIp srcPort data).sent = host.sent := by
  obtain ⟨frame, hframe, -⟩ := Udp.frame_ok s srcPort dst dstPort
    (show data.length ≤ 131052 by omega)
  refine ⟨frame, ?_, fun host trailing => ⟨Udp.handle_sent h hframe host trailing, rfl⟩⟩
  rw [Udp.send_eq, hframe]
  rfl

/-- The datagram of the self-test, cut to two bytes; the driver takes it. -/
theorem udp_round_trip_hi :
    ∃ frame, Udp.send nicStack 7#16 gateway 9999#16 [0x68#8, 0x69#8] =
        .ok (true, { nicStack with sent := [frame] }) ∧
      ∀ (host : Stack) (trailing : Bytes),
        Ethernet.handle host (frame ++ trailing) =
            .ok (Sockets.deliver host 9999#16 ourIp 7#16 [0x68#8, 0x69#8]) ∧
          (Sockets.deliver host 9999#16 ourIp 7#16 [0x68#8, 0x69#8]).sent = host.sent :=
  udp_round_trip nicStack 7#16 gateway 9999#16 [0x68#8, 0x69#8] (by decide)

end SimpleLinux.Net
