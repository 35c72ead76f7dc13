/-
  File:      SimpleLinux/Net/Effects.lean
  Subject:   What a frame does to the tables of the stack: `CACHE` of net/arp.rs, `SOCKETS` of
             net/socket.rs, over whole histories of the stack.

  A frame can teach a binding (any ARP packet does, request or reply, asked for or not) or carry a
  datagram; replies to it change no table. Everything else that the stack does on its own account
  (datagrams, pings, ARP requests, socket calls) leaves the cache alone.

  * `learns`, `carries` -- the binding and the datagram of a frame, read off its bytes;
  * `Effect` -- what a step of the receive path changes; `Ethernet.handle_effect` -- every frame;
  * `Op` -- all that the stack does; `claimant` -- the last one to claim an address, from the
    frames;
  * `next_hop_history` -- so the next hop of a packet is a function of the frames received.
-/
import Mathlib.Data.List.Induction
import SimpleLinux.Net.Queues
import SimpleLinux.Net.RoundTrip

namespace SimpleLinux.Net

open Rust

/-! ## 1. The effect of a frame -/

/-- The sender of an ARP packet, whatever its opcode. -/
def learns (frame : Bytes) : Option (Ipv4 × MacAddr) :=
  if 42 ≤ frame.length ∧ wordAt frame 12 = Ethernet.typeArp then
    some (addrAt (frame.drop 14) 14, hwAddrAt (frame.drop 14) 8)
  else none

/-- The datagram in the body of a packet. -/
def Udp.carried (src : Ipv4) (d : Bytes) : Option (BitVec 16 × Datagram) :=
  if 8 ≤ d.length then
    some (wordAt d 2, src, wordAt d 0, (d.take (min (max (wordAt d 4).toNat 8) d.length)).drop 8)
  else none

/-- The datagram that a frame carries, with its destination port. -/
def carries (frame : Bytes) : Option (BitVec 16 × Datagram) :=
  if Ethernet.CarriesIp frame ∧ Ip.WellFormed (frame.drop 14) ∧
      byteAt (frame.drop 14) 9 = Ip.protoUdp then
    Udp.carried (addrAt (frame.drop 14) 12) (Ip.body (frame.drop 14))
  else none

/-- A cache after a binding was learnt. -/
def learn (cache : Ipv4 → Option MacAddr) (binding : Option (Ipv4 × MacAddr)) :
    Ipv4 → Option MacAddr :=
  match binding with
  | some (ip, mac) => fun q => if q = ip then some mac else cache q
  | none => cache

/-- A socket table after a datagram has come in. -/
def queue (sockets : List (Option Socket)) (arrival : Option (BitVec 16 × Datagram)) :
    List (Option Socket) :=
  match arrival with
  | some (dport, d) => sockets.map (Option.map (Sockets.accept dport d))
  | none => sockets

/-- A table with one socket, on port `p`. -/
def listening (p : BitVec 16) : List (Option Socket) :=
  [some { Sockets.unbound Ip.protoUdp with localPort := p }]

/-- Two arrivals that do the same to every table are the same: a socket on the port of one of them
    tells them apart. -/
theorem queue_injective {x y : Option (BitVec 16 × Datagram)}
    (h : ∀ sockets, queue sockets x = queue sockets y) : x = y := by
  rcases x with - | ⟨p, d⟩
  · rcases y with - | ⟨q, e⟩
    · rfl
    · have hq := h (listening q)
      simp [queue, listening, Sockets.accept, Sockets.unbound] at hq
  · have hp := h (listening p)
    rcases y with - | ⟨q, e⟩
    · simp [queue, listening, Sockets.accept, Sockets.unbound] at hp
    · by_cases hpq : p = q
      · simpa [queue, listening, Sockets.accept, Sockets.unbound, hpq] using hp
      · simp [queue, listening, Sockets.accept, Sockets.unbound, hpq] at hp

theorem carries_ipFrame {s : Stack} {dst : Ipv4} {proto : Byte} {payload frame : Bytes}
    (h : Ip.frame s dst proto payload = .ok frame) (hne : proto ≠ Ip.protoUdp) :
    carries frame = none := by
  obtain ⟨hdr, hhdr, h⟩ := bind_eq_ok.mp h
  obtain ⟨c, -, hc⟩ := bind_eq_ok.mp hhdr
  cases h
  cases hc
  have hpkt : (Ethernet.frame (nextHopMac s dst) (ourMac s) Ethernet.typeIp
      (Ip.headerWith proto ourIp dst (BitVec.ofNat 16 (Ip.headerLen + payload.length)) c ++
        payload)).drop 14 =
      Ip.headerWith proto ourIp dst (BitVec.ofNat 16 (Ip.headerLen + payload.length)) c ++
        payload := by
    rw [Ethernet.frame, List.drop_left' (by simp)]
  rw [carries, hpkt]
  refine if_neg fun hudp => hne ?_
  obtain ⟨-, -, hproto, -⟩ := Ip.headerWith_fields proto ourIp dst
    (BitVec.ofNat 16 (Ip.headerLen + payload.length)) c payload
  exact hproto.symm.trans hudp.2.2

/-- One frame at most was sent from `s` to `s'`, and it carries `arrival`. -/
def Sends (arrival : Option (BitVec 16 × Datagram)) (s s' : Stack) : Prop :=
  ∃ out, s'.sent = s.sent ++ out ∧ out.length ≤ 1 ∧ ∀ g ∈ out, carries g = arrival

theorem sends_nothing (arrival : Option (BitVec 16 × Datagram)) {s s' : Stack}
    (h : s'.sent = s.sent) : Sends arrival s s' :=
  ⟨[], by rw [h, List.append_nil], Nat.zero_le 1, fun _ hg => nomatch hg⟩

theorem sends_frame {s₀ s : Stack} (hs : s.sent = s₀.sent) (frame : Bytes) :
    Sends (carries frame) s₀ (e1000Send s frame).2 := by
  refine ⟨if s.nic.isSome then [frame] else [], by rw [Sockets.e1000Send_sent, hs], ?_, ?_⟩
  · split <;> simp
  · intro g hg
    split at hg
    · rw [List.mem_singleton.mp hg]
    · cases hg

/-- What a step of the receive path has done, with the binding and the datagram it had to do
    with. -/
structure Effect (binding : Option (Ipv4 × MacAddr)) (arrival : Option (BitVec 16 × Datagram))
    (s s' : Stack) : Prop where
  nic : s'.nic = s.nic
  cache : s'.cache = learn s.cache binding
  sockets : s'.sockets = queue s.sockets arrival
  sent : Sends none s s'

theorem effect_refl (s : Stack) : Effect none none s s := ⟨rfl, rfl, rfl, sends_nothing none rfl⟩

@[simp] theorem e1000Send_nic (s : Stack) (frame : Bytes) : (e1000Send s frame).2.nic = s.nic := by
  rw [e1000Send]
  split <;> rfl

@[simp] theorem e1000Send_cache (s : Stack) (frame : Bytes) :
    (e1000Send s frame).2.cache = s.cache := by
  rw [e1000Send]
  split <;> rfl

/-- A packet goes out: no table changes. -/
theorem Ip.send_effect {s : Stack} {dst : Ipv4} {proto : Byte} {payload : Bytes} {r : Bool × Stack}
    (h : Ip.send s dst proto payload = .ok r) (hne : proto ≠ Ip.protoUdp) :
    Effect none none s r.2 := by
  rw [Ip.send_eq] at h
  obtain ⟨frame, hframe, h⟩ := bind_eq_ok.mp h
  cases h
  refine ⟨e1000Send_nic .., e1000Send_cache .., Sockets.e1000Send_sockets .., ?_⟩
  rw [← carries_ipFrame hframe hne]
  exact sends_frame rfl frame

theorem Icmp.handle_effect {s s' : Stack} {src : Ipv4} {msg : Bytes}
    (h : Icmp.handle s src msg = .ok s') : Effect none none s s' := by
  rw [Icmp.handle] at h
  split at h
  · cases h
    exact effect_refl s
  · obtain ⟨t, -, h⟩ := bind_eq_ok.mp h
    split at h
    · obtain ⟨_, -, h⟩ := bind_eq_ok.mp h
      obtain ⟨reply, -, h⟩ := bind_eq_ok.mp h
      obtain ⟨r, hsend, h⟩ := bind_eq_ok.mp h
      cases h
      exact Ip.send_effect hsend (by decide)
    · split at h
      · obtain ⟨_, -, h⟩ := bind_eq_ok.mp h
        obtain ⟨_, -, h⟩ := bind_eq_ok.mp h
        cases h
        exact effect_refl s
      · cases h
        exact effect_refl s

theorem Tcp.handle_effect {s s' : Stack} {src : Ipv4} {t : Bytes}
    (h : Tcp.handle s src t = .ok s') : Effect none none s s' := by
  rcases Nat.lt_or_ge t.length 20 with hlen | hlen
  · rw [Tcp.handle, if_pos (show t.length < Tcp.headerLen from hlen)] at h
    cases h
    exact effect_refl s
  · rw [Tcp.handle_eq s src hlen] at h
    split at h
    · obtain ⟨ackNr, -, h⟩ := bind_eq_ok.mp h
      obtain ⟨synAck, -, h⟩ := bind_eq_ok.mp h
      obtain ⟨r, hsend, h⟩ := bind_eq_ok.mp h
      cases h
      exact Ip.send_effect hsend (by decide)
    · cases h
      exact effect_refl s

theorem Udp.handle_effect {s s' : Stack} {src : Ipv4} {d : Bytes}
    (h : Udp.handle s src d = .ok s') : Effect none (Udp.carried src d) s s' := by
  rw [Udp.carried]
  split
  · rename_i hlen
    rw [Udp.handle_eq s src hlen] at h
    cases h
    exact ⟨rfl, rfl, rfl, sends_nothing none rfl⟩
  · rename_i hlen
    rw [Udp.handle_short s src (Nat.not_le.mp hlen)] at h
    cases h
    exact effect_refl s

theorem carries_arp (dst src : MacAddr) (payload : Bytes) :
    carries (Ethernet.frame dst src Ethernet.typeArp payload) = none := by
  have htype : wordAt (Ethernet.frame dst src Ethernet.typeArp payload) 12 = Ethernet.typeArp := by
    rw [Ethernet.frame, List.append_assoc]
    have hfront := wordAt_toBe16 (dst.bytes.toList ++ src.bytes.toList) Ethernet.typeArp payload
    rwa [List.length_append, Vector.length_toList, Vector.length_toList] at hfront
  refine if_neg fun hip => ?_
  exact absurd (htype.symm.trans hip.1.2) (by decide)

theorem Arp.handle_effect {s s' : Stack} {arp : Bytes} (hlen : 28 ≤ arp.length)
    (h : Arp.handle s arp = .ok s') : Effect (some (addrAt arp 14, hwAddrAt arp 8)) none s s' := by
  rw [Arp.handle_eq s hlen] at h
  cases h
  split
  · rw [transmitEthernet]
    refine ⟨e1000Send_nic .., e1000Send_cache .., Sockets.e1000Send_sockets .., ?_⟩
    rw [← carries_arp]
    exact sends_frame rfl _
  · exact ⟨rfl, rfl, rfl, sends_nothing none rfl⟩

theorem Ip.dispatch_effect {s s' : Stack} {proto : Byte} {src : Ipv4} {body : Bytes}
    (h : Ip.dispatch s proto src body = .ok s') :
    Effect none (if proto = Ip.protoUdp then Udp.carried src body else none) s s' := by
  rw [Ip.dispatch] at h
  split at h
  · rename_i hicmp
    rw [if_neg (by rw [hicmp]; decide)]
    exact Icmp.handle_effect h
  · split at h
    · rename_i hudp
      rw [if_pos hudp]
      exact Udp.handle_effect h
    · rename_i hudp
      rw [if_neg hudp]
      split at h
      · exact Tcp.handle_effect h
      · cases h
        exact effect_refl s

theorem Ip.handle_effect {s s' : Stack} {pkt : Bytes} (h : Ip.handle s pkt = .ok s') :
    Effect none (if Ip.WellFormed pkt ∧ byteAt pkt 9 = Ip.protoUdp then
      Udp.carried (addrAt pkt 12) (Ip.body pkt) else none) s s' := by
  by_cases hwf : Ip.WellFormed pkt
  · rw [Ip.handle_eq s hwf] at h
    obtain ⟨body, hbody, h⟩ := bind_eq_ok.mp h
    obtain ⟨-, -, rfl⟩ := slice_eq_ok.mp hbody
    simpa only [hwf, true_and, Ip.body] using Ip.dispatch_effect h
  · rw [Ip.handle_malformed s hwf] at h
    cases h
    rw [if_neg fun hboth => hwf hboth.1]
    exact effect_refl s

/-- **All that a frame changes in the tables**: the binding that it teaches, the queues that its
    datagram goes to. -/
theorem Ethernet.handle_effect {s s' : Stack} {frame : Bytes}
    (h : Ethernet.handle s frame = .ok s') : Effect (learns frame) (carries frame) s s' := by
  rcases Nat.lt_or_ge frame.length 14 with hlen | hlen
  · rw [Ethernet.handle_decode, Ethernet.decode_short hlen] at h
    cases h
    rw [learns, carries, if_neg (by omega), if_neg fun hip => by have := hip.1.1; omega]
    exact effect_refl s
  · rw [Ethernet.handle_eq s hlen] at h
    split at h
    · rename_i harp
      have hnip : ¬ Ethernet.CarriesIp frame := by
        intro hip
        have hboth := harp.symm.trans hip.2
        exact absurd hboth (by decide)
      rw [carries, if_neg fun hip => hnip hip.1]
      rcases Nat.lt_or_ge frame.length 42 with hshort | hlong
      · rw [Arp.handle_short s (by rw [List.length_drop]; omega)] at h
        cases h
        rw [learns, if_neg (by omega)]
        exact effect_refl s
      · rw [learns, if_pos ⟨hlong, harp⟩]
        exact Arp.handle_effect (by rw [List.length_drop]; omega) h
    · rename_i harp
      rw [learns, if_neg fun hboth => harp hboth.2]
      split at h
      · rename_i hip
        have hcarries : Ethernet.CarriesIp frame := ⟨hlen, hip⟩
        rw [carries]
        simpa only [hcarries, true_and] using Ip.handle_effect h
      · rename_i hip
        cases h
        rw [carries, if_neg fun hboth => hip hboth.1.2]
        exact effect_refl s

/-! ## 2. All that the stack does -/

/-- `icmp::ping`; the payload is `simplelinux-ping`. -/
def Icmp.ping (s : Stack) (dst : Ipv4) (seq : BitVec 16) : Res Stack := do
  let req ← Icmp.echoRequest 0x5f#16 seq [0x73#8, 0x69#8, 0x6d#8, 0x70#8, 0x6c#8, 0x65#8, 0x6c#8,
    0x69#8, 0x6e#8, 0x75#8, 0x78#8, 0x2d#8, 0x70#8, 0x69#8, 0x6e#8, 0x67#8]
  return (← Ip.send s dst Ip.protoIcmp req).2

inductive Op
  | input (frame : Bytes)
  | udp (srcPort : BitVec 16) (dst : Ipv4) (dstPort : BitVec 16) (data : Bytes)
  | ping (dst : Ipv4) (seq : BitVec 16)
  | arp (target : Ipv4)
  | call (c : Sockets.Call)

def Op.run (s : Stack) : Op → Res Stack
  | .input frame => Ethernet.handle s frame
  | .udp srcPort dst dstPort data => do return (← Udp.send s srcPort dst dstPort data).2
  | .ping dst seq => Icmp.ping s dst seq
  | .arp target => .ok (Arp.request s target)
  | .call c =>
    match Sockets.callStep s c with
    | some (s', _) => .ok s'
    | none => .ok s

/-- The frame that an operation receives. -/
def Op.frame? : Op → Option Bytes
  | .input frame => some frame
  | _ => none

/-- The datagram that it sends. -/
def Op.posts : Op → Option (BitVec 16 × Datagram)
  | .udp srcPort _ dstPort data => some (dstPort, ourIp, srcPort, data)
  | _ => none

/-- A datagram has a length that its own length field can hold. -/
def Op.Sendable : Op → Prop
  | .udp _ _ _ data => data.length ≤ 65507
  | _ => True

/-- Socket calls touch the socket table and nothing else. -/
theorem Sockets.callStep_frame {s s' : Stack} {c : Sockets.Call} {es : List Sockets.Event}
    (h : Sockets.callStep s c = some (s', es)) :
    s'.nic = s.nic ∧ s'.cache = s.cache ∧ s'.sent = s.sent := by
  have hchange : ∀ (idx : Nat) (f : Socket → Socket), (Sockets.change s idx f).2.nic = s.nic ∧
      (Sockets.change s idx f).2.cache = s.cache ∧ (Sockets.change s idx f).2.sent = s.sent := by
    intro idx f
    rw [Sockets.change]
    split
    · exact ⟨rfl, rfl, rfl⟩
    · exact ⟨rfl, rfl, rfl⟩
  cases c with
  | socket proto =>
    cases h
    rw [Sockets.socket_eq]
    exact ⟨rfl, rfl, rfl⟩
  | bind idx port =>
    cases h
    exact hchange idx _
  | connect idx ip port =>
    cases h
    exact hchange idx _
  | close idx =>
    cases h
    rw [Sockets.close]
    split
    · exact ⟨rfl, rfl, rfl⟩
    · exact ⟨rfl, rfl, rfl⟩
  | deliver dport src sport data =>
    cases h
    exact ⟨rfl, rfl, rfl⟩
  | recvfrom idx len =>
    cases h
    obtain ⟨he, -⟩ | ⟨k, d, rx, -, -, he⟩ := Sockets.recvfrom_cases s idx len
    · rw [he]
      exact ⟨rfl, rfl, rfl⟩
    · rw [he]
      exact ⟨rfl, rfl, rfl⟩

/-- The frame of a datagram carries it, and goes to the driver. -/
theorem Udp.send_sends {s : Stack} {srcPort : BitVec 16} {dst : Ipv4} {dstPort : BitVec 16}
    {data : Bytes} {r : Bool × Stack} (hlen : data.length ≤ 65507)
    (h : Udp.send s srcPort dst dstPort data = .ok r) :
    Sends (some (dstPort, ourIp, srcPort, data)) s r.2 := by
  rw [Udp.send_eq] at h
  obtain ⟨frame, hframe, h⟩ := bind_eq_ok.mp h
  cases h
  obtain ⟨c, hd, -⟩ := Udp.datagram_eq srcPort dst dstPort data (by omega)
  rw [Udp.frame, hd, ok_bind] at hframe
  have hcarries : carries frame = some (dstPort, ourIp, srcPort, data) := by
    refine queue_injective fun sockets => ?_
    -- both sides are what a host with these sockets makes of the frame
    have hhost := Ip.handle_frame hframe (by rw [Udp.length_datagramWith]; omega)
      { emptyStack with sockets } []
    rw [List.append_nil] at hhost
    have hdeliver := hhost.trans (Udp.handle_datagram _ ourIp srcPort dstPort c hlen)
    exact (Ethernet.handle_effect hdeliver).sockets.symm
  rw [← hcarries]
  exact sends_frame rfl frame

/-- The tables after an operation: only a frame changes the cache. -/
theorem Op.run_cache {s s' : Stack} {o : Op} (h : o.run s = .ok s') :
    s'.nic = s.nic ∧ s'.cache = learn s.cache (o.frame?.bind learns) := by
  cases o with
  | input frame =>
    have heffect := Ethernet.handle_effect h
    exact ⟨heffect.nic, heffect.cache⟩
  | udp srcPort dst dstPort data =>
    obtain ⟨r, hr, h⟩ := bind_eq_ok.mp h
    cases h
    rw [Udp.send_eq] at hr
    obtain ⟨frame, -, hr⟩ := bind_eq_ok.mp hr
    cases hr
    exact ⟨e1000Send_nic .., e1000Send_cache ..⟩
  | ping dst seq =>
    obtain ⟨req, -, h⟩ := bind_eq_ok.mp h
    obtain ⟨r, hsend, h⟩ := bind_eq_ok.mp h
    cases h
    have heffect := Ip.send_effect hsend (by decide)
    exact ⟨heffect.nic, heffect.cache⟩
  | arp target =>
    cases h
    exact ⟨e1000Send_nic .., e1000Send_cache ..⟩
  | call c =>
    rw [Op.run] at h
    rcases hc : Sockets.callStep s c with - | ⟨s₁, es⟩
    · rw [hc] at h
      cases h
      exact ⟨rfl, rfl⟩
    · rw [hc] at h
      cases h
      obtain ⟨hnic, hcache, -⟩ := Sockets.callStep_frame hc
      exact ⟨hnic, hcache⟩

/-- **What goes out**: one frame at most, and it carries a datagram iff it was sent for one. -/
theorem Op.run_sends {s s' : Stack} {o : Op} (hok : o.Sendable) (h : o.run s = .ok s') :
    Sends o.posts s s' := by
  cases o with
  | input frame => exact (Ethernet.handle_effect h).sent
  | udp srcPort dst dstPort data =>
    obtain ⟨r, hr, h⟩ := bind_eq_ok.mp h
    cases h
    exact Udp.send_sends hok hr
  | ping dst seq =>
    obtain ⟨req, -, h⟩ := bind_eq_ok.mp h
    obtain ⟨r, hsend, h⟩ := bind_eq_ok.mp h
    cases h
    exact (Ip.send_effect hsend (by decide)).sent
  | arp target =>
    cases h
    have harp : Sends _ s _ := sends_frame rfl
      (Ethernet.frame .broadcast (ourMac s) Ethernet.typeArp
      (Arp.payload Arp.opRequest (ourMac s) ourIp ⟨Vector.replicate 6 0#8⟩ target))
    rwa [carries_arp] at harp
  | call c =>
    rw [Op.run] at h
    rcases hc : Sockets.callStep s c with - | ⟨s₁, es⟩
    · rw [hc] at h
      cases h
      exact sends_nothing none rfl
    · rw [hc] at h
      cases h
      obtain ⟨-, -, hsent⟩ := Sockets.callStep_frame hc
      exact sends_nothing none hsent

/-! ## 3. The cache over a history -/

/-- The last one to claim the address `ip`. -/
def claimant (frames : List Bytes) (ip : Ipv4) : Option MacAddr :=
  (((frames.filterMap learns).filter fun b => b.1 = ip).getLast?).map (·.2)

/-- The next hop to `dst`, from the frames received. -/
def hop (frames : List Bytes) (dst : Ipv4) : MacAddr :=
  ((claimant frames dst).or (claimant frames gateway)).getD .broadcast

theorem claimant_append (frames : List Bytes) (frame : Bytes) :
    claimant (frames ++ [frame]) = learn (claimant frames) (learns frame) := by
  funext ip
  rw [claimant, List.filterMap_append, List.filter_append]
  cases hl : learns frame with
  | none =>
    simp [learn, hl, claimant]
  | some b =>
    by_cases hip : ip = b.1
    · simp [learn, hl, hip]
    · simp [learn, hl, hip, Ne.symm hip, claimant]

/-- **The cache is the last claim for each address.** -/
theorem cache_claimant {ops : List Op} {s₀ s : Stack} (h0 : s₀.cache = fun _ => none)
    (h : ops.foldlM Op.run s₀ = .ok s) :
    s.nic = s₀.nic ∧ s.cache = claimant (ops.filterMap Op.frame?) := by
  induction ops using List.reverseRecOn generalizing s with
  | nil =>
    cases h
    exact ⟨rfl, h0⟩
  | append_singleton ops o ih =>
    rw [List.foldlM_append] at h
    obtain ⟨s₁, h₁, h⟩ := bind_eq_ok.mp h
    obtain ⟨hnic₁, hcache₁⟩ := ih h₁
    rw [List.foldlM_cons] at h
    obtain ⟨s₂, h₂, h⟩ := bind_eq_ok.mp h
    cases h
    obtain ⟨hnic, hcache⟩ := Op.run_cache h₂
    refine ⟨hnic.trans hnic₁, ?_⟩
    rw [hcache, hcache₁, List.filterMap_append]
    cases hf : o.frame? with
    | none => simp [hf, learn]
    | some frame => simp [hf, claimant_append]

/-- **The next hop is a function of the frames received.** After any history of frames, datagrams,
    pings, ARP requests and socket calls from the empty cache of `arp::init`, a packet to `dst` goes
    to the sender of the last ARP packet that claimed `dst`, of either opcode and asked for or not;
    if there was none, to the last one that claimed the gateway; and else to everyone. -/
theorem next_hop_history {ops : List Op} {s₀ s : Stack} (h0 : s₀.cache = fun _ => none)
    (h : ops.foldlM Op.run s₀ = .ok s) (dst : Ipv4) (proto : Byte) (payload : Bytes) :
    ∃ frame, Ip.send s dst proto payload = .ok (e1000Send s frame) ∧
      frame.take 6 = (hop (ops.filterMap Op.frame?) dst).bytes.toList := by
  obtain ⟨-, hcache⟩ := cache_claimant h0 h
  have hhop : nextHopMac s dst = hop (ops.filterMap Op.frame?) dst := by
    rw [nextHopMac, hcache, hop]
    cases claimant (ops.filterMap Op.frame?) dst with
    | some m => rfl
    | none =>
      cases claimant (ops.filterMap Op.frame?) gateway with
      | some m => rfl
      | none => rfl
  obtain ⟨frame, hframe, -⟩ := Ip.frame_ok s dst proto payload
  refine ⟨frame, by rw [Ip.send_eq, hframe]; rfl, ?_⟩
  obtain ⟨hdr, -, hframe⟩ := bind_eq_ok.mp hframe
  cases hframe
  rw [← hhop, Ethernet.frame, List.append_assoc, List.append_assoc, List.take_left' (by simp)]

/-- The address of the gateway in the self-test of arp.rs. -/
def gatewayMac : MacAddr := ⟨#v[0x52#8, 0x54#8, 0x00#8, 0x12#8, 0x34#8, 0x02#8]⟩

/-- The reply of the self-test, as a frame to everyone. -/
def gatewayReply : Bytes :=
  Ethernet.frame .broadcast gatewayMac Ethernet.typeArp
    (Arp.payload Arp.opReply gatewayMac gateway .broadcast ourIp)

/-- After that reply, a packet to another host goes to the gateway. -/
theorem next_hop_history_gateway :
    ∃ s frame, [Op.input gatewayReply].foldlM Op.run emptyStack = .ok s ∧
      Ip.send s #v[8#8, 8#8, 8#8, 8#8] Ip.protoUdp [] = .ok (e1000Send s frame) ∧
      frame.take 6 = gatewayMac.bytes.toList := by
  have hip : ¬ Ethernet.CarriesIp gatewayReply := by decide
  obtain ⟨s, hs⟩ := Ethernet.handle_other emptyStack hip
  have hrun : [Op.input gatewayReply].foldlM Op.run emptyStack = .ok s := by
    rw [List.foldlM_cons, Op.run, hs]
    rfl
  obtain ⟨frame, hsend, htake⟩ :=
    next_hop_history rfl hrun #v[8#8, 8#8, 8#8, 8#8] Ip.protoUdp []
  have hhop : hop [gatewayReply] #v[8#8, 8#8, 8#8, 8#8] = gatewayMac := by decide
  refine ⟨s, frame, hrun, hsend, ?_⟩
  rw [← hhop]
  exact htake

end SimpleLinux.Net
