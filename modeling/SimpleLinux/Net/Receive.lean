/-
  File:      SimpleLinux/Net/Receive.lean
  Subject:   Which frames make the receive path panic?

  Every decoder checks the length it needs before it reads, with two exceptions. `ip::handle` takes
  the body of a packet from the larger of IHL and 20 to the smaller of the total-length field and
  the real length, and nothing makes the first the smaller one. `tcp::handle` adds one to the
  sequence number of a SYN.

  * `Ethernet.decode`, `Arp.decode` -- what the handlers of these layers read before they act:
    `Ethernet.handle_decode`, `Arp.handle_decode`;
  * `Arp.handle_ok`, `Icmp.handle_ok`, `Udp.handle_ok` -- these never panic;
  * `Tcp.handle_ok`, `Tcp.handle_panics`, `Ip.handle_ok_iff` -- these panic on `Tcp.SynWraps` and on
    an inverted range, and on nothing else;
  * `ethernet_handle_ok_iff` -- the whole path; `ethernet_handle_panics` -- a frame of each kind.
-/
import SimpleLinux.Net.Checksum

namespace SimpleLinux.Net

open Rust

/-! ## 1. What the path sends -/

theorem Ip.send_ok (s : Stack) (dst : Ipv4) (proto : Byte) (payload : Bytes) :
    ∃ r, Ip.send s dst proto payload = .ok r := by
  obtain ⟨h, hh, -⟩ :=
    Ip.header_verifies proto ourIp dst (BitVec.ofNat 16 (Ip.headerLen + payload.length))
  unfold Ip.send
  dsimp only
  rw [hh]
  exact ⟨_, rfl⟩

/-! ## 2. The decoders that never panic -/

/-- The fields that `arp::handle` reads. -/
structure Arp.Message where
  oper : BitVec 16
  sha : MacAddr
  spa : Ipv4
  tpa : Ipv4
  deriving DecidableEq

/-- `arp::handle` up to the point where it acts. -/
def Arp.decode (arp : Bytes) : Res (Option Arp.Message) := do
  if arp.length < 28 then
    return none
  let oper ← be16 (← slice arp 6 8)
  let sha ← macAt arp 8
  let spa ← ipv4At arp 14
  let tpa ← ipv4At arp 24
  return some ⟨oper, sha, spa, tpa⟩

/-- `arp::handle` from there. -/
def Arp.act (s : Stack) (m : Arp.Message) : Res Stack := do
  let s := Arp.remember s m.spa m.sha
  let _ ← m.sha.fmt
  if m.oper = Arp.opRequest ∧ m.tpa = ourIp then
    let s := (transmitEthernet s m.sha Ethernet.typeArp
      (Arp.payload Arp.opReply (ourMac s) ourIp m.sha m.spa)).2
    let _ ← (ourMac s).fmt
    return s
  else
    return s

/-- Decoding, then acting, is what the handler does. -/
theorem Arp.handle_decode (s : Stack) (arp : Bytes) :
    Arp.handle s arp = do
      match ← Arp.decode arp with
      | some m => Arp.act s m
      | none => return s := by
  unfold Arp.handle Arp.decode
  split
  · rfl
  · simp only [bind_assoc, pure_bind]
    rfl

theorem Arp.decode_short {arp : Bytes} (h : arp.length < 28) : Arp.decode arp = .ok none := by
  rw [Arp.decode, if_pos h]
  rfl

theorem Arp.decode_eq {arp : Bytes} (h : 28 ≤ arp.length) :
    Arp.decode arp = .ok (some ⟨wordAt arp 6, hwAddrAt arp 8, addrAt arp 14, addrAt arp 24⟩) := by
  obtain ⟨two, htwo, hoper⟩ := be16_slice (b := arp) (i := 6) (by omega)
  rw [Arp.decode, if_neg (Nat.not_lt.mpr h), htwo, ok_bind, hoper, ok_bind, macAt_eq (by omega),
    ok_bind, ipv4At_eq (by omega), ok_bind, ipv4At_eq (by omega), ok_bind]
  rfl

/-- The sender is learnt, and a request for our address is answered. -/
theorem Arp.act_eq (s : Stack) (m : Arp.Message) :
    Arp.act s m = .ok
      (if m.oper = Arp.opRequest ∧ m.tpa = ourIp then
        (transmitEthernet (Arp.remember s m.spa m.sha) m.sha Ethernet.typeArp
          (Arp.payload Arp.opReply (ourMac s) ourIp m.sha m.spa)).2
      else Arp.remember s m.spa m.sha) := by
  obtain ⟨t, ht⟩ := m.sha.fmt_ok
  unfold Arp.act
  dsimp only
  rw [ht, ok_bind]
  split
  · obtain ⟨t', ht'⟩ := (ourMac (transmitEthernet (Arp.remember s m.spa m.sha) m.sha
      Ethernet.typeArp
      (Arp.payload Arp.opReply (ourMac (Arp.remember s m.spa m.sha)) ourIp m.sha m.spa)).2).fmt_ok
    rw [ht', ok_bind]
    rfl
  · rfl

theorem Arp.handle_eq (s : Stack) {arp : Bytes} (h : 28 ≤ arp.length) :
    Arp.handle s arp = .ok
      (if wordAt arp 6 = Arp.opRequest ∧ addrAt arp 24 = ourIp then
        (transmitEthernet (Arp.remember s (addrAt arp 14) (hwAddrAt arp 8)) (hwAddrAt arp 8)
          Ethernet.typeArp (Arp.payload Arp.opReply (ourMac s) ourIp (hwAddrAt arp 8)
            (addrAt arp 14))).2
      else Arp.remember s (addrAt arp 14) (hwAddrAt arp 8)) := by
  rw [Arp.handle_decode, Arp.decode_eq h, ok_bind]
  exact Arp.act_eq s _

theorem Arp.handle_short (s : Stack) {arp : Bytes} (h : arp.length < 28) :
    Arp.handle s arp = .ok s := by
  rw [Arp.handle_decode, Arp.decode_short h]
  rfl

theorem Arp.handle_ok (s : Stack) (arp : Bytes) : ∃ s', Arp.handle s arp = .ok s' := by
  rcases Nat.lt_or_ge arp.length 28 with h | h
  · exact ⟨s, Arp.handle_short s h⟩
  · exact ⟨_, Arp.handle_eq s h⟩

theorem Icmp.handle_ok (s : Stack) (src : Ipv4) {msg : Bytes} (hle : msg.length ≤ 65535) :
    ∃ s', Icmp.handle s src msg = .ok s' := by
  unfold Icmp.handle
  by_cases h : msg.length < 8
  · rw [if_pos h]
    exact ⟨s, rfl⟩
  · rw [if_neg h, get_byteAt (by omega), ok_bind]
    split
    · have h4 : 4 ≤ msg.length := by omega
      obtain ⟨c, hreply, -⟩ := Icmp.echoReply_eq msg h4 hle
      obtain ⟨r, hr⟩ := Ip.send_ok s src Ip.protoIcmp
        ([Icmp.typeEchoReply, 0#8] ++ toBe16 c ++ msg.drop 4)
      rw [sub_of_le (by omega), ok_bind, hreply, ok_bind, hr]
      exact ⟨_, rfl⟩
    · split
      · rw [be16At_eq (by omega), ok_bind, be16At_eq (by omega), ok_bind]
        exact ⟨_, rfl⟩
      · exact ⟨_, rfl⟩

/-- A datagram with a full header: the length field is clamped on both sides, so its range is never
    inverted. -/
theorem Udp.handle_eq (s : Stack) (src : Ipv4) {d : Bytes} (h : 8 ≤ d.length) :
    Udp.handle s src d = .ok (Sockets.deliver s (wordAt d 2) src (wordAt d 0)
      ((d.take (min (max (wordAt d 4).toNat 8) d.length)).drop 8)) := by
  have h8 : Udp.headerLen ≤ d.length := h
  unfold Udp.handle
  rw [if_neg (Nat.not_lt.mpr h8), be16At_eq (by omega), ok_bind, be16At_eq (by omega), ok_bind,
    be16At_eq (by omega), ok_bind]
  dsimp only
  rw [slice_of_le (Nat.le_min.mpr ⟨Nat.le_max_right .., h8⟩) (Nat.min_le_right ..), ok_bind]
  rfl

theorem Udp.handle_short (s : Stack) (src : Ipv4) {d : Bytes} (h : d.length < 8) :
    Udp.handle s src d = .ok s := by
  rw [Udp.handle, if_pos (show d.length < Udp.headerLen from h)]
  rfl

theorem Udp.handle_ok (s : Stack) (src : Ipv4) (d : Bytes) : ∃ s', Udp.handle s src d = .ok s' := by
  rcases Nat.lt_or_ge d.length 8 with h | h
  · exact ⟨s, Udp.handle_short s src h⟩
  · exact ⟨_, Udp.handle_eq s src h⟩

/-! ## 3. The decoders that can -/

/-- A SYN without ACK whose sequence number is the last one. -/
def Tcp.SynWraps (t : Bytes) : Prop :=
  20 ≤ t.length ∧ wordAt t 12 &&& Tcp.syn ≠ 0#16 ∧ wordAt t 12 &&& Tcp.ack = 0#16 ∧
    longAt t 4 = 0xffffffff#32

instance (t : Bytes) : Decidable (Tcp.SynWraps t) := inferInstanceAs (Decidable (_ ∧ _))

/-- A segment with a full header: its fields are read, and a SYN without ACK is answered. -/
theorem Tcp.handle_eq (s : Stack) (src : Ipv4) {t : Bytes} (h : 20 ≤ t.length) :
    Tcp.handle s src t =
      if wordAt t 12 &&& Tcp.syn ≠ 0#16 ∧ wordAt t 12 &&& Tcp.ack = 0#16 then do
        let ackNr ← add 32 (longAt t 4).toNat 1
        let synAck ← Tcp.segment (wordAt t 2) (wordAt t 0) 1000#32 (BitVec.ofNat 32 ackNr)
          (Tcp.syn ||| Tcp.ack) [] src
        return (← Ip.send s src Ip.protoTcp synAck).2
      else .ok s := by
  have h20 : ¬ t.length < Tcp.headerLen := Nat.not_lt.mpr h
  unfold Tcp.handle
  rw [if_neg h20, be16At_eq (by omega), ok_bind, be16At_eq (by omega), ok_bind,
    be32At_eq (by omega), ok_bind, be32At_eq (by omega), ok_bind, be16At_eq (by omega), ok_bind]
  rfl

theorem Tcp.handle_panics (s : Stack) (src : Ipv4) {t : Bytes} (h : Tcp.SynWraps t) :
    Tcp.handle s src t = .error .overflow := by
  obtain ⟨hlen, hsyn, hack, hseq⟩ := h
  rw [Tcp.handle_eq s src hlen, if_pos ⟨hsyn, hack⟩, hseq]
  rfl

theorem Tcp.handle_ok (s : Stack) (src : Ipv4) {t : Bytes} (h : ¬ Tcp.SynWraps t) :
    ∃ s', Tcp.handle s src t = .ok s' := by
  by_cases hlen : t.length < Tcp.headerLen
  · rw [Tcp.handle, if_pos hlen]
    exact ⟨s, rfl⟩
  · have h20 : 20 ≤ t.length := Nat.le_of_not_lt hlen
    rw [Tcp.handle_eq s src h20]
    split
    · rename_i hflags
      have hseq : (longAt t 4).toNat + 1 < 2 ^ 32 := by
        have hne : longAt t 4 ≠ 0xffffffff#32 := fun e => h ⟨h20, hflags.1, hflags.2, e⟩
        bv_omega
      obtain ⟨c, hseg, -⟩ := Tcp.segment_eq (wordAt t 2) (wordAt t 0) 1000#32
        (BitVec.ofNat 32 ((longAt t 4).toNat + 1)) (Tcp.syn ||| Tcp.ack) [] src (by decide)
      rw [add_of_lt hseq, ok_bind, hseg, ok_bind]
      obtain ⟨r, hr⟩ := Ip.send_ok s src Ip.protoTcp (Tcp.segmentWith (wordAt t 2) (wordAt t 0)
        1000#32 (BitVec.ofNat 32 ((longAt t 4).toNat + 1)) (Tcp.syn ||| Tcp.ack) c [])
      rw [hr]
      exact ⟨_, rfl⟩
    · exact ⟨_, rfl⟩

/-- The bounds of the slice that `ip::handle` takes, from the IHL and total-length fields. -/
def Ip.bodyStart (pkt : Bytes) : Nat := max ((byteAt pkt 0 &&& 0x0f#8).toNat * 4) Ip.headerLen

def Ip.bodyEnd (pkt : Bytes) : Nat := min (wordAt pkt 2).toNat pkt.length

def Ip.body (pkt : Bytes) : Bytes := (pkt.take (Ip.bodyEnd pkt)).drop (Ip.bodyStart pkt)

/-- The first check of `ip::handle`. -/
def Ip.WellFormed (pkt : Bytes) : Prop := 20 ≤ pkt.length ∧ byteAt pkt 0 >>> 4 = 4#8

instance (pkt : Bytes) : Decidable (Ip.WellFormed pkt) := inferInstanceAs (Decidable (_ ∧ _))

/-- A packet that passes the check: its body is taken and handed on. -/
theorem Ip.handle_eq (s : Stack) {pkt : Bytes} (h : Ip.WellFormed pkt) :
    Ip.handle s pkt = slice pkt (Ip.bodyStart pkt) (Ip.bodyEnd pkt) >>=
      Ip.dispatch s (byteAt pkt 9) (addrAt pkt 12) := by
  obtain ⟨hlen, hversion⟩ := h
  have h20 : ¬ pkt.length < Ip.headerLen := Nat.not_lt.mpr hlen
  obtain ⟨two, htwo, htotal⟩ := be16_slice (b := pkt) (i := 2) (by omega)
  unfold Ip.handle
  rw [if_neg h20, get_byteAt (by omega), ok_bind, if_neg (not_not_intro hversion), ok_bind]
  dsimp only
  rw [htwo, ok_bind, htotal, ok_bind, get_byteAt (by omega), ok_bind, ipv4At_eq (by omega), ok_bind]
  rfl

theorem Ip.handle_malformed (s : Stack) {pkt : Bytes} (h : ¬ Ip.WellFormed pkt) :
    Ip.handle s pkt = .ok s := by
  unfold Ip.handle
  by_cases hlen : pkt.length < Ip.headerLen
  · rw [if_pos hlen]
    rfl
  · have h20 : 20 ≤ pkt.length := Nat.le_of_not_lt hlen
    rw [if_neg hlen, get_byteAt (by omega), ok_bind, if_pos fun hv => h ⟨h20, hv⟩]
    rfl

theorem Ip.dispatch_panics (s : Stack) {proto : Byte} (src : Ipv4) {body : Bytes}
    (hp : proto = Ip.protoTcp) (h : Tcp.SynWraps body) :
    Ip.dispatch s proto src body = .error .overflow := by
  subst hp
  rw [Ip.dispatch, if_neg (by decide), if_neg (by decide), if_pos rfl]
  exact Tcp.handle_panics s src h

theorem Ip.dispatch_ok (s : Stack) {proto : Byte} (src : Ipv4) {body : Bytes}
    (hle : body.length ≤ 65535) (h : ¬ (proto = Ip.protoTcp ∧ Tcp.SynWraps body)) :
    ∃ s', Ip.dispatch s proto src body = .ok s' := by
  unfold Ip.dispatch
  split
  · exact Icmp.handle_ok s src hle
  split
  · exact Udp.handle_ok s src body
  split
  · rename_i hp
    exact Tcp.handle_ok s src fun hw => h ⟨hp, hw⟩
  · exact ⟨s, rfl⟩

/-! ## 4. The whole path -/

/-- The frame carries an IPv4 packet. -/
def Ethernet.CarriesIp (frame : Bytes) : Prop :=
  14 ≤ frame.length ∧ wordAt frame 12 = Ethernet.typeIp

/-- The packet in the frame, as `ip::handle` sees it, passes its check, and the larger of its header
    length and 20 lies past the smaller of its total-length field and its real length. -/
def RangeInverted (frame : Bytes) : Prop :=
  Ethernet.CarriesIp frame ∧ Ip.WellFormed (frame.drop 14) ∧
    Ip.bodyEnd (frame.drop 14) < Ip.bodyStart (frame.drop 14)

/-- The packet in the frame carries a SYN without ACK with the last sequence number. -/
def SynOverflows (frame : Bytes) : Prop :=
  Ethernet.CarriesIp frame ∧ Ip.WellFormed (frame.drop 14) ∧
    byteAt (frame.drop 14) 9 = Ip.protoTcp ∧ Tcp.SynWraps (Ip.body (frame.drop 14))

instance (frame : Bytes) : Decidable (Ethernet.CarriesIp frame) :=
  inferInstanceAs (Decidable (_ ∧ _))

instance (frame : Bytes) : Decidable (RangeInverted frame) := inferInstanceAs (Decidable (_ ∧ _))

instance (frame : Bytes) : Decidable (SynOverflows frame) := inferInstanceAs (Decidable (_ ∧ _))

/-- `ethernet::handle` up to the point where it hands the payload on. -/
def Ethernet.decode (frame : Bytes) : Res (Option (BitVec 16 × Bytes)) := do
  if frame.length < Ethernet.headerLen then
    return none
  let ethertype ← be16 (← slice frame 12 14)
  let payload ← slice frame Ethernet.headerLen frame.length
  return some (ethertype, payload)

theorem Ethernet.handle_decode (s : Stack) (frame : Bytes) :
    Ethernet.handle s frame = do
      match ← Ethernet.decode frame with
      | some (ethertype, payload) =>
        if ethertype = Ethernet.typeArp then Arp.handle s payload
        else if ethertype = Ethernet.typeIp then Ip.handle s payload
        else return s
      | none => return s := by
  unfold Ethernet.handle Ethernet.decode
  split
  · rfl
  · simp only [bind_assoc, pure_bind]

theorem Ethernet.decode_short {frame : Bytes} (h : frame.length < 14) :
    Ethernet.decode frame = .ok none := by
  rw [Ethernet.decode, if_pos (show frame.length < Ethernet.headerLen from h)]
  rfl

theorem Ethernet.decode_eq {frame : Bytes} (h : 14 ≤ frame.length) :
    Ethernet.decode frame = .ok (some (wordAt frame 12, frame.drop 14)) := by
  have h14 : ¬ frame.length < Ethernet.headerLen := Nat.not_lt.mpr h
  obtain ⟨two, htwo, hword⟩ := be16_slice (b := frame) (i := 12) h
  rw [Ethernet.decode, if_neg h14, htwo, ok_bind, hword, ok_bind,
    slice_of_le (Nat.le_of_not_lt h14) (Nat.le_refl _), ok_bind, List.take_length]
  rfl

/-- A frame with a full header: its EtherType decides who gets the rest. -/
theorem Ethernet.handle_eq (s : Stack) {frame : Bytes} (h : 14 ≤ frame.length) :
    Ethernet.handle s frame =
      if wordAt frame 12 = Ethernet.typeArp then Arp.handle s (frame.drop 14)
      else if wordAt frame 12 = Ethernet.typeIp then Ip.handle s (frame.drop 14)
      else .ok s := by
  rw [Ethernet.handle_decode, Ethernet.decode_eq h, ok_bind]
  rfl

theorem Ethernet.handle_ip (s : Stack) {frame : Bytes} (h : Ethernet.CarriesIp frame) :
    Ethernet.handle s frame = Ip.handle s (frame.drop 14) := by
  rw [Ethernet.handle_eq s h.1, h.2, if_neg (by decide), if_pos rfl]

theorem Ethernet.handle_other (s : Stack) {frame : Bytes} (h : ¬ Ethernet.CarriesIp frame) :
    ∃ s', Ethernet.handle s frame = .ok s' := by
  by_cases hlen : frame.length < Ethernet.headerLen
  · rw [Ethernet.handle, if_pos hlen]
    exact ⟨s, rfl⟩
  · have h14 : 14 ≤ frame.length := Nat.le_of_not_lt hlen
    rw [Ethernet.handle_eq s h14]
    split
    · exact Arp.handle_ok s _
    split
    · rename_i htype
      exact absurd ⟨h14, htype⟩ h
    · exact ⟨s, rfl⟩

/-- A well-formed packet is handled to the end iff the range of its body is not inverted and it is
    not the one SYN. -/
theorem Ip.handle_ok_iff (s : Stack) {pkt : Bytes} (hwf : Ip.WellFormed pkt)
    (hle : pkt.length ≤ 65535) :
    (∃ s', Ip.handle s pkt = .ok s') ↔ Ip.bodyStart pkt ≤ Ip.bodyEnd pkt ∧
      ¬ (byteAt pkt 9 = Ip.protoTcp ∧ Tcp.SynWraps (Ip.body pkt)) := by
  have hend : Ip.bodyEnd pkt ≤ pkt.length := Nat.min_le_right ..
  have hlen : (Ip.body pkt).length ≤ 65535 := by
    rw [Ip.body, List.length_drop, List.length_take]
    omega
  rw [Ip.handle_eq s hwf]
  by_cases hrange : Ip.bodyStart pkt ≤ Ip.bodyEnd pkt
  · rw [slice_of_le hrange hend, ok_bind, ← Ip.body]
    constructor
    · intro h
      refine ⟨hrange, fun hw => ?_⟩
      obtain ⟨s', hs⟩ := h
      rw [Ip.dispatch_panics s _ hw.1 hw.2] at hs
      cases hs
    · intro h
      exact Ip.dispatch_ok s _ hlen h.2
  · rw [slice_inverted (Nat.lt_of_not_le hrange)]
    constructor
    · intro h
      obtain ⟨s', hs⟩ := h
      cases hs
    · intro h
      exact absurd h.1 hrange

/-- **Exactly two kinds of frames make the receive path panic**, whatever the state of the stack: an
    IPv4 packet whose length fields invert the range of its body, and a SYN whose acknowledgement
    number overflows. Every other frame is handled to the end. -/
theorem ethernet_handle_ok_iff (s : Stack) (frame : Bytes) (hle : frame.length ≤ 65535) :
    (∃ s', Ethernet.handle s frame = .ok s') ↔ ¬ RangeInverted frame ∧ ¬ SynOverflows frame := by
  by_cases hip : Ethernet.CarriesIp frame
  · rw [Ethernet.handle_ip s hip]
    by_cases hwf : Ip.WellFormed (frame.drop 14)
    · have hpkt : (frame.drop 14).length ≤ 65535 := by
        rw [List.length_drop]
        omega
      rw [Ip.handle_ok_iff s hwf hpkt]
      simp only [RangeInverted, SynOverflows, hip, hwf, true_and, Nat.not_lt]
    · have hno : ¬ RangeInverted frame ∧ ¬ SynOverflows frame :=
        ⟨fun h => hwf h.2.1, fun h => hwf h.2.1⟩
      exact ⟨fun _ => hno, fun _ => ⟨s, Ip.handle_malformed s hwf⟩⟩
  · have hno : ¬ RangeInverted frame ∧ ¬ SynOverflows frame :=
      ⟨fun h => hip h.1, fun h => hip h.1⟩
    exact ⟨fun _ => hno, fun _ => Ethernet.handle_other s hip⟩

/-- A stack with no NIC, an empty cache and no sockets. -/
def emptyStack : Stack := ⟨none, fun _ => none, [], []⟩

/-- The same with a NIC. -/
def nicStack : Stack :=
  { emptyStack with nic := some ⟨#v[0x52#8, 0x54#8, 0x00#8, 0x12#8, 0x34#8, 0x56#8]⟩ }

/-- Twelve bytes of addresses and the EtherType of IPv4. -/
def ipFrame (pkt : Bytes) : Bytes := List.replicate 12 0#8 ++ toBe16 Ethernet.typeIp ++ pkt

/-- A 20-byte header with a total length of zero. -/
def zeroTotal : Bytes := ipFrame (0x45#8 :: List.replicate 19 0#8)

/-- A 40-byte packet with a bare SYN. -/
def synFrame (seq : BitVec 32) : Bytes :=
  ipFrame ([0x45#8, 0#8, 0#8, 40#8] ++ List.replicate 5 0#8 ++ [Ip.protoTcp] ++
    List.replicate 10 0#8 ++ toBe16 51000#16 ++ toBe16 80#16 ++ toBe32 seq ++ toBe32 0#32 ++
    toBe16 0x5002#16 ++ List.replicate 6 0#8)

theorem ethernet_handle_panics :
    Ethernet.handle emptyStack zeroTotal = .error .range ∧
      Ethernet.handle emptyStack (synFrame 0xffffffff#32) = .error .overflow :=
  ⟨rfl, rfl⟩

theorem ethernet_handle_syn : ∃ s', Ethernet.handle emptyStack (synFrame 777#32) = .ok s' :=
  (ethernet_handle_ok_iff emptyStack (synFrame 777#32) (by decide)).mpr (by decide)

end SimpleLinux.Net
