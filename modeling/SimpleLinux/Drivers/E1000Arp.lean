/-
  File:      SimpleLinux/Drivers/E1000Arp.lean
  Subject:   The ARP frames of the driver, drivers/e1000/arp.rs, against those of the network stack.

  The driver has a request and a test for replies of its own, from before there was a stack. They
  lay the 42 bytes out by hand, counted from the start of the frame; the stack counts from the start
  of the ARP packet and reads the opcode as one field of 16 bits.

  * `Sees` -- a frame as the decoders of the stack see it; `sees_iff` -- by its bytes;
  * `arpRequest_eq` -- the driver's request is the stack's;
  * `isArpReply_eq` -- the driver's test looks at the low byte of the opcode only;
  * `arp_codecs_agree_iff` -- so the two agree on all frames except where an opcode has the low byte
    of a reply and a high byte that is not zero; `arp_codecs_differ` -- one such frame;
  * `demoArp_learns` -- the address that the smoke test reports is the one the stack would learn.
-/
import SimpleLinux.Net.Receive

namespace SimpleLinux.Net

open Rust

/-! ## 1. What the stack sees -/

/-- The stack sees an ARP packet in a frame. -/
def Sees (frame : Bytes) (m : Arp.Message) : Prop :=
  ∃ arp, Ethernet.decode frame = .ok (some (Ethernet.typeArp, arp)) ∧ Arp.decode arp = .ok (some m)

theorem byteAt_drop (b : Bytes) (n i : Nat) : byteAt (b.drop n) i = byteAt b (n + i) := by
  unfold byteAt
  rw [List.getD_eq_getElem?_getD, List.getD_eq_getElem?_getD, List.getElem?_drop]

theorem append_inj_iff (a b c d : Byte) : a ++ b = c ++ d ↔ a = c ∧ b = d := by
  constructor
  · intro h
    have hhigh := congrArg (BitVec.extractLsb' 8 8) h
    have hlow := congrArg (BitVec.extractLsb' 0 8) h
    rw [BitVec.extractLsb'_append_eq_left, BitVec.extractLsb'_append_eq_left] at hhigh
    rw [BitVec.extractLsb'_append_eq_right, BitVec.extractLsb'_append_eq_right] at hlow
    exact ⟨hhigh, hlow⟩
  · intro ⟨ha, hb⟩
    rw [ha, hb]

/-- **What the stack sees, by the bytes of the frame.** -/
theorem sees_iff {frame : Bytes} {m : Arp.Message} :
    Sees frame m ↔ 42 ≤ frame.length ∧ wordAt frame 12 = Ethernet.typeArp ∧
      m = ⟨wordAt frame 20, hwAddrAt frame 22, addrAt frame 28, addrAt frame 38⟩ := by
  have hfields : (⟨wordAt (frame.drop 14) 6, hwAddrAt (frame.drop 14) 8, addrAt (frame.drop 14) 14,
      addrAt (frame.drop 14) 24⟩ : Arp.Message) =
      ⟨wordAt frame 20, hwAddrAt frame 22, addrAt frame 28, addrAt frame 38⟩ := by
    simp only [wordAt, hwAddrAt, addrAt, byteAt_drop]
  have hlen : (frame.drop 14).length = frame.length - 14 := List.length_drop
  constructor
  · intro hsees
    obtain ⟨arp, hframe, harp⟩ := hsees
    rcases Nat.lt_or_ge frame.length 14 with h | h
    · rw [Ethernet.decode_short h] at hframe
      cases hframe
    · rw [Ethernet.decode_eq h, Except.ok.injEq, Option.some.injEq, Prod.mk.injEq] at hframe
      obtain ⟨htype, rfl⟩ := hframe
      rcases Nat.lt_or_ge (frame.drop 14).length 28 with h' | h'
      · rw [Arp.decode_short h'] at harp
        cases harp
      · rw [Arp.decode_eq h', hfields, Except.ok.injEq, Option.some.injEq] at harp
        exact ⟨by omega, htype, harp.symm⟩
  · intro hbytes
    obtain ⟨h, htype, hm⟩ := hbytes
    refine ⟨frame.drop 14, ?_, ?_⟩
    · rw [Ethernet.decode_eq (by omega), htype]
    · rw [Arp.decode_eq (by omega), hfields, hm]

/-- The stack learns the sender of any ARP packet that it sees, and nothing else. -/
theorem learns_of_sees {frame : Bytes} {m : Arp.Message} (h : Sees frame m) (s : Stack) :
    ∃ s', Ethernet.handle s frame = .ok s' ∧ s'.cache = (Arp.remember s m.spa m.sha).cache := by
  obtain ⟨arp, hframe, harp⟩ := h
  have hhandle : Ethernet.handle s frame = Arp.act s m := by
    rw [Ethernet.handle_decode, hframe, ok_bind]
    show Arp.handle s arp = _
    rw [Arp.handle_decode, harp, ok_bind]
  refine ⟨_, hhandle.trans (Arp.act_eq s m), ?_⟩
  split
  · rw [transmitEthernet, e1000Send]
    split <;> rfl
  · rfl

end SimpleLinux.Net

namespace SimpleLinux.E1000

open Rust Net

/-! ## 2. The driver's frames -/

def arpRequest (mac : Vector Byte 6) (target : Ipv4) : Bytes :=
  List.replicate 6 0xff#8 ++ mac.toList ++ [0x08#8, 0x06#8] ++
    [0x00#8, 0x01#8] ++ [0x08#8, 0x00#8] ++ [6#8] ++ [4#8] ++ [0x00#8, 0x01#8] ++
    mac.toList ++ ourIp.toList ++ List.replicate 6 0#8 ++ target.toList

def isArpReply (frame : Bytes) : Res Bool :=
  pure (decide (42 ≤ frame.length)) <&&> is 12 0x08#8 <&&> is 13 0x06#8 <&&> is 21 0x02#8
where
  is (i : Nat) (b : Byte) : Res Bool := return (← get frame i) == b

/-- The two hand-written layouts of a request are the same 42 bytes. -/
theorem arpRequest_eq (mac : Vector Byte 6) (target : Ipv4) :
    arpRequest mac target = Ethernet.frame .broadcast ⟨mac⟩ Ethernet.typeArp
      (Arp.payload Arp.opRequest ⟨mac⟩ ourIp ⟨Vector.replicate 6 0#8⟩ target) := by
  have hbroadcast : MacAddr.broadcast.bytes.toList = List.replicate 6 0xff#8 := rfl
  have hzero : (Vector.replicate 6 0#8).toList = List.replicate 6 0#8 := rfl
  have htype : toBe16 Ethernet.typeArp = [0x08#8, 0x06#8] := by decide
  have hip : toBe16 0x0800#16 = [0x08#8, 0x00#8] := by decide
  have hone : toBe16 1#16 = [0x00#8, 0x01#8] := by decide
  rw [Ethernet.frame, Arp.payload, Arp.opRequest, hbroadcast, hzero, htype, hip, hone, arpRequest]
  simp only [List.append_assoc, List.cons_append, List.nil_append]

/-- The stack's own request puts the driver's frame on the wire. -/
theorem arp_request_sent (s : Stack) (mac : Vector Byte 6) (target : Ipv4) :
    (Arp.request { s with nic := some ⟨mac⟩ } target).sent = s.sent ++ [arpRequest mac target] := by
  rw [arpRequest_eq]
  rfl

/-- The test never reads past the end: it asks for the length first. -/
theorem isArpReply_eq (frame : Bytes) :
    isArpReply frame = .ok (decide (42 ≤ frame.length ∧ byteAt frame 12 = 0x08#8 ∧
      byteAt frame 13 = 0x06#8 ∧ byteAt frame 21 = 0x02#8)) := by
  by_cases h : 42 ≤ frame.length
  · have his (i : Nat) (b : Byte) (hi : i < 42) :
        isArpReply.is frame i b = .ok (decide (byteAt frame i = b)) := by
      rw [isArpReply.is, get_byteAt (by omega)]
      rfl
    have hand (a b : Bool) : (Except.ok a <&&> Except.ok b : Res Bool) = .ok (a && b) := by
      cases a <;> rfl
    rw [isArpReply, his 12 _ (by decide), his 13 _ (by decide), his 21 _ (by decide), hand, hand,
      Bool.decide_and, Bool.decide_and, Bool.decide_and]
    exact hand _ _
  · rw [isArpReply, decide_eq_false h, decide_eq_false fun hall => h hall.1]
    rfl

theorem isArpReply_ok (frame : Bytes) :
    isArpReply frame = .ok true ∨ isArpReply frame = .ok false := by
  obtain ⟨reply, hreply⟩ : ∃ reply, isArpReply frame = .ok reply := ⟨_, isArpReply_eq frame⟩
  cases reply with
  | true => exact .inl hreply
  | false => exact .inr hreply

/-! ## 3. Where the two differ -/

/-- An ARP frame whose opcode ends like that of a reply and is another one. -/
def OpcodeAliased (frame : Bytes) : Prop :=
  42 ≤ frame.length ∧ wordAt frame 12 = Ethernet.typeArp ∧ byteAt frame 21 = 0x02#8 ∧
    byteAt frame 20 ≠ 0x00#8

instance (frame : Bytes) : Decidable (OpcodeAliased frame) := inferInstanceAs (Decidable (_ ∧ _))

theorem typeArp_iff (frame : Bytes) :
    wordAt frame 12 = Ethernet.typeArp ↔ byteAt frame 12 = 0x08#8 ∧ byteAt frame 13 = 0x06#8 :=
  append_inj_iff (byteAt frame 12) (byteAt frame 13) 0x08#8 0x06#8

theorem opReply_iff (frame : Bytes) :
    wordAt frame 20 = Arp.opReply ↔ byteAt frame 20 = 0x00#8 ∧ byteAt frame 21 = 0x02#8 :=
  append_inj_iff (byteAt frame 20) (byteAt frame 21) 0x00#8 0x02#8

/-- The driver's test, in the stack's terms: the high byte of the opcode is missing. -/
theorem isArpReply_iff (frame : Bytes) : isArpReply frame = .ok true ↔
    42 ≤ frame.length ∧ wordAt frame 12 = Ethernet.typeArp ∧ byteAt frame 21 = 0x02#8 := by
  rw [isArpReply_eq, Except.ok.injEq, decide_eq_true_eq, typeArp_iff, and_assoc]

theorem seesReply_iff (frame : Bytes) : (∃ m, Sees frame m ∧ m.oper = Arp.opReply) ↔
    42 ≤ frame.length ∧ wordAt frame 12 = Ethernet.typeArp ∧ byteAt frame 21 = 0x02#8 ∧
      byteAt frame 20 = 0x00#8 := by
  constructor
  · intro ⟨m, hsees, hoper⟩
    obtain ⟨hlen, htype, rfl⟩ := sees_iff.mp hsees
    obtain ⟨hhigh, hlow⟩ := (opReply_iff frame).mp hoper
    exact ⟨hlen, htype, hlow, hhigh⟩
  · intro ⟨hlen, htype, hlow, hhigh⟩
    exact ⟨_, sees_iff.mpr ⟨hlen, htype, rfl⟩, (opReply_iff frame).mpr ⟨hhigh, hlow⟩⟩

/-- **The driver's ARP frames and the stack's.** For every MAC address, target and frame: the
    request is byte for byte the one that the stack builds and sends, and the driver takes the frame
    for a reply exactly if the stack sees an ARP packet in it whose opcode is that of a reply,
    unless the frame carries an opcode with the same low byte and a high byte other than zero. -/
theorem arp_codecs_agree_iff (mac : Vector Byte 6) (target : Ipv4) (frame : Bytes) :
    (arpRequest mac target = Ethernet.frame .broadcast ⟨mac⟩ Ethernet.typeArp
        (Arp.payload Arp.opRequest ⟨mac⟩ ourIp ⟨Vector.replicate 6 0#8⟩ target) ∧
      (∀ s : Stack,
        (Arp.request { s with nic := some ⟨mac⟩ } target).sent =
          s.sent ++ [arpRequest mac target]) ∧
      ∃ reply, isArpReply frame = .ok reply ∧
        (reply = true ↔ ∃ m, Sees frame m ∧ m.oper = Arp.opReply)) ↔
    ¬ OpcodeAliased frame := by
  constructor
  · intro ⟨_, _, reply, hreply, hiff⟩ ⟨hlen, htype, hlow, hhigh⟩
    have htrue : reply = true := by
      have h := (isArpReply_iff frame).mpr ⟨hlen, htype, hlow⟩
      rw [hreply] at h
      exact Except.ok.inj h
    exact hhigh ((seesReply_iff frame).mp (hiff.mp htrue)).2.2.2
  · intro halias
    refine ⟨arpRequest_eq mac target, fun s => arp_request_sent s mac target, _,
      isArpReply_eq frame, ?_⟩
    rw [← Except.ok.injEq (ε := Panic), ← isArpReply_eq, isArpReply_iff, seesReply_iff]
    constructor
    · intro ⟨hlen, htype, hlow⟩
      exact ⟨hlen, htype, hlow, by_contra fun hhigh => halias ⟨hlen, htype, hlow, hhigh⟩⟩
    · intro ⟨hlen, htype, hlow, _⟩
      exact ⟨hlen, htype, hlow⟩

/-- A frame from the gateway with the opcode 0x0102. -/
def aliasedFrame : Bytes :=
  Ethernet.frame .broadcast .broadcast Ethernet.typeArp
    (Arp.payload 0x0102#16 .broadcast gateway .broadcast ourIp)

/-- The driver takes it for a reply, the stack reads another opcode. -/
theorem arp_codecs_differ :
    isArpReply aliasedFrame = .ok true ∧ ¬ ∃ m, Sees aliasedFrame m ∧ m.oper = Arp.opReply := by
  rw [isArpReply_iff, seesReply_iff]
  decide

/-! ## 4. The smoke test -/

inductive DemoArp
  | noNic
  | sendFailed
  | reply (spa : Ipv4) (sha : MacAddr)
  | noReply
  deriving DecidableEq

/-- `while let Some(frame) = poll_receive()`, with the frames that it returns. -/
def pollReply : List Bytes → Res (Option (Ipv4 × MacAddr))
  | [] => return none
  | frame :: frames => do
    if ← isArpReply frame then
      return some (← ipv4At frame 28, ← macAt frame 22)
    else
      pollReply frames

/-- The loop around it; a burst is what has arrived during one `sleep`. -/
def pollBursts : List (List Bytes) → Res DemoArp
  | [] => return .noReply
  | burst :: bursts => do
    match ← pollReply burst with
    | some (spa, sha) => return .reply spa sha
    | none => pollBursts bursts

/-- ARP the gateway, then wait for the answer. -/
def demoArp (s : Stack) (bursts : Vector (List Bytes) 40) : Res (DemoArp × Stack) :=
  match s.nic with
  | none => return (.noNic, s)
  | some mac => do
    let (ok, s) := e1000Send s (arpRequest mac.bytes gateway)
    if !ok then
      return (.sendFailed, s)
    return (← pollBursts bursts.toList, s)

/-- A frame that passes the test, and what the stack sees in it. -/
theorem sees_of_isArpReply {frame : Bytes} (h : isArpReply frame = .ok true) :
    Sees frame ⟨wordAt frame 20, hwAddrAt frame 22, addrAt frame 28, addrAt frame 38⟩ := by
  obtain ⟨hlen, htype, -⟩ := (isArpReply_iff frame).mp h
  exact sees_iff.mpr ⟨hlen, htype, rfl⟩

/-- A burst gives nothing, or the addresses of the first frame in it that passes the test. -/
theorem pollReply_spec (frames : List Bytes) :
    (pollReply frames = .ok none ∧ ∀ frame ∈ frames, isArpReply frame = .ok false) ∨
    ∃ front frame back, frames = front ++ frame :: back ∧ isArpReply frame = .ok true ∧
      (∀ other ∈ front, isArpReply other = .ok false) ∧
      pollReply frames = .ok (some (addrAt frame 28, hwAddrAt frame 22)) := by
  induction frames with
  | nil => exact .inl ⟨rfl, List.forall_mem_nil _⟩
  | cons frame frames ih =>
    rw [pollReply]
    rcases isArpReply_ok frame with htrue | hfalse
    · have hlen := ((isArpReply_iff frame).mp htrue).1
      refine .inr ⟨[], frame, frames, rfl, htrue, List.forall_mem_nil _, ?_⟩
      rw [htrue, ok_bind, if_pos rfl, ipv4At_eq (by omega), ok_bind, macAt_eq (by omega)]
      rfl
    · rw [hfalse, ok_bind, if_neg Bool.false_ne_true]
      rcases ih with ⟨hnone, hall⟩ | ⟨front, found, back, rfl, hfound, hfront, hpoll⟩
      · exact .inl ⟨hnone, List.forall_mem_cons.mpr ⟨hfalse, hall⟩⟩
      · exact .inr ⟨frame :: front, found, back, rfl, hfound,
          List.forall_mem_cons.mpr ⟨hfalse, hfront⟩, hpoll⟩

theorem pollBursts_spec (bursts : List (List Bytes)) :
    (pollBursts bursts = .ok .noReply ∧
      ∀ burst ∈ bursts, ∀ frame ∈ burst, isArpReply frame = .ok false) ∨
    ∃ burst ∈ bursts, ∃ frame ∈ burst, isArpReply frame = .ok true ∧
      pollBursts bursts = .ok (.reply (addrAt frame 28) (hwAddrAt frame 22)) := by
  induction bursts with
  | nil => exact .inl ⟨rfl, List.forall_mem_nil _⟩
  | cons burst bursts ih =>
    rw [pollBursts]
    rcases pollReply_spec burst with ⟨hnone, hburst⟩ | ⟨front, frame, back, rfl, hframe, -, hpoll⟩
    · rw [hnone, ok_bind]
      rcases ih with ⟨hno, hall⟩ | ⟨burst', hburst', found⟩
      · exact .inl ⟨hno, List.forall_mem_cons.mpr ⟨hburst, hall⟩⟩
      · exact .inr ⟨burst', List.mem_cons_of_mem _ hburst', found⟩
    · refine .inr
        ⟨_, List.mem_cons_self, frame, List.mem_append_right _ List.mem_cons_self, hframe, ?_⟩
      rw [hpoll, ok_bind]
      rfl

theorem e1000Send_arpRequest {s : Stack} {mac : MacAddr} (h : s.nic = some mac) (target : Ipv4) :
    e1000Send s (arpRequest mac.bytes target) = (true, Arp.request s target) := by
  have hmac : ourMac s = mac := by rw [ourMac, h, Option.getD_some]
  rw [arpRequest_eq, Arp.request, hmac, transmitEthernet, hmac, e1000Send, h]

/-- **The smoke test does what the stack does.** With a NIC it never panics, sends the stack's own
    request for the gateway, and reports either no reply or a binding that the stack, given the same
    frame, would learn. -/
theorem demoArp_learns {s : Stack} {mac : MacAddr} (h : s.nic = some mac)
    (bursts : Vector (List Bytes) 40) :
    ∃ r, demoArp s bursts = .ok (r, Arp.request s gateway) ∧
      (r = .noReply ∨ ∃ burst ∈ bursts.toList, ∃ frame ∈ burst, ∃ spa sha, r = .reply spa sha ∧
        ∀ host, ∃ host', Ethernet.handle host frame = .ok host' ∧ host'.cache spa = some sha) := by
  have hdemo (r : DemoArp) (hr : pollBursts bursts.toList = .ok r) :
      demoArp s bursts = .ok (r, Arp.request s gateway) := by
    rw [demoArp, h]
    dsimp only
    rw [e1000Send_arpRequest h, hr]
    rfl
  rcases pollBursts_spec bursts.toList with ⟨hno, -⟩ |
    ⟨burst, hburst, frame, hframe, hreply, hfound⟩
  · exact ⟨_, hdemo _ hno, .inl rfl⟩
  · refine ⟨_, hdemo _ hfound, .inr ⟨burst, hburst, frame, hframe, _, _, rfl, fun host => ?_⟩⟩
    obtain ⟨host', hhandle, hcache⟩ := learns_of_sees (sees_of_isArpReply hreply) host
    refine ⟨host', hhandle, ?_⟩
    rw [hcache]
    exact if_pos rfl

end SimpleLinux.E1000
