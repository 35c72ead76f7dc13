/-
  File:      SimpleLinux/Net/Replies.lean
  Subject:   Can two hosts that run this stack keep each other sending?

  Three messages are answered: an ARP request for our address, an echo request, a SYN without ACK.
  The answers are an ARP reply, an echo reply and a SYN with ACK, and each of them decodes on the
  other side, whatever padding it arrives with, as a message that is never answered.

  * `Silent` -- a frame that no host answers; `silent_arpReply`, `silent_ipFrame` -- the answers
    are;
  * `Answers` -- what handling a frame may send: nothing, or one silent frame that is no longer;
    one lemma per handler, up to `Ethernet.handle_answers`;
  * `Link` -- hosts and the frames between them; `link_weight` -- a frame counts two deliveries
    until it is known to be silent;
  * `no_reply_storm` -- so `n` frames cause at most `2 * n` deliveries, between any number of hosts.
-/
import SimpleLinux.Lib.Runs
import SimpleLinux.Net.RoundTrip

namespace SimpleLinux.Net

open Rust Runs

/-! ## 1. Frames that are never answered -/

/-- Handled by any host that runs this stack, alone or with padding, the frame makes it send
    nothing. -/
def Silent (frame : Bytes) : Prop :=
  ∀ (host : Stack) (pad : Bytes),
    ∃ host', Ethernet.handle host (frame ++ pad) = .ok host' ∧ host'.sent = host.sent

theorem length_arpPayload (oper : BitVec 16) (sha : MacAddr) (spa : Ipv4) (tha : MacAddr)
    (tpa : Ipv4) : (Arp.payload oper sha spa tha tpa).length = 28 := by
  simp [Arp.payload]

theorem silent_arpReply (dst src sha tha : MacAddr) (spa tpa : Ipv4) :
    Silent (Ethernet.frame dst src Ethernet.typeArp (Arp.payload Arp.opReply sha spa tha tpa)) := by
  intro host pad
  have hlen : 28 ≤ (Arp.payload Arp.opReply sha spa tha tpa ++ pad).length := by
    rw [List.length_append, length_arpPayload]
    exact Nat.le_add_right ..
  have hoper : wordAt (Arp.payload Arp.opReply sha spa tha tpa ++ pad) 6 = Arp.opReply :=
    append_extract Arp.opReply
  rw [Ethernet.handle_frame, if_pos rfl, Arp.handle_eq host hlen, hoper,
    if_neg fun h => absurd h.1 (by decide)]
  exact ⟨_, rfl, rfl⟩

/-- A packet whose body its protocol does not answer. -/
theorem silent_ipFrame {s : Stack} {dst : Ipv4} {proto : Byte} {payload frame : Bytes}
    (hf : Ip.frame s dst proto payload = .ok frame) (hlen : payload.length ≤ 65515)
    (hsilent : ∀ host, Ip.dispatch host proto ourIp payload = .ok host) : Silent frame := by
  intro host pad
  refine ⟨host, ?_, rfl⟩
  rw [Ip.handle_frame hf hlen]
  exact hsilent host

theorem Icmp.handle_reply (host : Stack) (src : Ipv4) {msg : Bytes} (h : 8 ≤ msg.length)
    (htype : byteAt msg 0 = Icmp.typeEchoReply) : Icmp.handle host src msg = .ok host := by
  unfold Icmp.handle
  rw [if_neg (Nat.not_lt.mpr h), get_byteAt (by omega), ok_bind, htype, if_neg (by decide),
    if_pos rfl, be16At_eq (by omega), ok_bind, be16At_eq (by omega), ok_bind]
  rfl

theorem Tcp.handle_synAck (host : Stack) (src : Ipv4) (sport dport : BitVec 16)
    (seq ackNr : BitVec 32) (cks : BitVec 16) (payload : Bytes) :
    Tcp.handle host src (Tcp.segmentWith sport dport seq ackNr (Tcp.syn ||| Tcp.ack) cks payload) =
      .ok host := by
  have hlen : 20 ≤ (Tcp.segmentWith sport dport seq ackNr (Tcp.syn ||| Tcp.ack) cks
      payload).length := by
    rw [length_segmentWith]
    exact Nat.le_add_right ..
  rw [Tcp.handle_eq host src hlen, Tcp.wordAt_synAck, if_neg (by decide)]

/-! ## 2. What a handler may send -/

/-- From `s` to `s'` at most one frame was sent; it is no longer than `n`, and silent. -/
def Answers (n : Nat) (s s' : Stack) : Prop :=
  ∃ out, s'.sent = s.sent ++ out ∧ out.length ≤ 1 ∧ ∀ g ∈ out, g.length ≤ n ∧ Silent g

theorem answers_refl (n : Nat) (s : Stack) : Answers n s s := ⟨[], by simp, by simp, by simp⟩

/-- Whatever else changed from `s₀` to `s`, one silent frame is sent, or refused. -/
theorem answers_send {n : Nat} {s₀ s : Stack} (hs : s.sent = s₀.sent) {g : Bytes}
    (hlen : g.length ≤ n) (hg : Silent g) : Answers n s₀ (e1000Send s g).2 := by
  unfold e1000Send
  split
  · refine ⟨[g], ?_, Nat.le_refl 1, fun g' h => ?_⟩
    · rw [← hs]
    · rw [List.mem_singleton.mp h]
      exact ⟨hlen, hg⟩
  · exact ⟨[], by rw [hs, List.append_nil], by simp, by simp⟩

/-- The same for a body that goes down through IPv4. -/
theorem answers_ipSend {n : Nat} (s : Stack) (dst : Ipv4) (proto : Byte) {payload : Bytes}
    (hn : 34 + payload.length ≤ n) (hlen : payload.length ≤ 65515)
    (hsilent : ∀ host, Ip.dispatch host proto ourIp payload = .ok host) :
    ∃ r, Ip.send s dst proto payload = .ok r ∧ Answers n s r.2 := by
  obtain ⟨frame, hf, hframe⟩ := Ip.frame_ok s dst proto payload
  refine ⟨e1000Send s frame, ?_, answers_send rfl (by omega) (silent_ipFrame hf hlen hsilent)⟩
  rw [Ip.send_eq, hf]
  rfl

theorem Arp.handle_answers {s s' : Stack} {arp : Bytes} (h : Arp.handle s arp = .ok s') :
    Answers (14 + arp.length) s s' := by
  rcases Nat.lt_or_ge arp.length 28 with hlen | hlen
  · rw [Arp.handle_short s hlen] at h
    cases h
    exact answers_refl _ _
  · rw [Arp.handle_eq s hlen] at h
    cases h
    split
    · refine answers_send rfl ?_ (silent_arpReply _ _ _ _ _ _)
      rw [Ethernet.length_frame, length_arpPayload]
      omega
    · exact ⟨[], (List.append_nil _).symm, by simp, by simp⟩

theorem Icmp.handle_answers {s s' : Stack} {src : Ipv4} {msg : Bytes} (hle : msg.length ≤ 65515)
    (h : Icmp.handle s src msg = .ok s') : Answers (34 + msg.length) s s' := by
  unfold Icmp.handle at h
  by_cases h8 : msg.length < 8
  · rw [if_pos h8] at h
    cases h
    exact answers_refl _ _
  rw [if_neg h8, get_byteAt (by omega), ok_bind] at h
  split at h
  · -- the reply has the request's length, and a type that is not answered
    obtain ⟨c, hreply, -⟩ := Icmp.echoReply_eq msg (by omega) (by omega)
    generalize hr : [Icmp.typeEchoReply, 0#8] ++ toBe16 c ++ msg.drop 4 = reply at hreply
    have hlen : reply.length = msg.length := by
      rw [← hr]
      simp only [List.length_append, List.length_cons, List.length_nil, length_toBe16,
        List.length_drop]
      omega
    have hsilent (host : Stack) : Ip.dispatch host Ip.protoIcmp ourIp reply = .ok host := by
      rw [Ip.dispatch, if_pos rfl]
      exact Icmp.handle_reply host ourIp (by omega) (by rw [← hr]; rfl)
    obtain ⟨r, hsend, hanswers⟩ := answers_ipSend (n := 34 + msg.length) s src Ip.protoIcmp
      (by omega) (by omega) hsilent
    rw [sub_of_le (by omega), ok_bind, hreply, ok_bind, hsend] at h
    cases h
    exact hanswers
  split at h
  · rw [be16At_eq (by omega), ok_bind, be16At_eq (by omega), ok_bind] at h
    cases h
    exact answers_refl _ _
  · cases h
    exact answers_refl _ _

theorem Udp.handle_answers (n : Nat) {s s' : Stack} {src : Ipv4} {d : Bytes}
    (h : Udp.handle s src d = .ok s') : Answers n s s' := by
  rcases Nat.lt_or_ge d.length 8 with hlen | hlen
  · rw [Udp.handle_short s src hlen] at h
    cases h
    exact answers_refl _ _
  · rw [Udp.handle_eq s src hlen] at h
    cases h
    exact ⟨[], (List.append_nil _).symm, by simp, by simp⟩

theorem Tcp.handle_answers {s s' : Stack} {src : Ipv4} {t : Bytes}
    (h : Tcp.handle s src t = .ok s') : Answers (34 + t.length) s s' := by
  by_cases h20 : t.length < Tcp.headerLen
  · rw [Tcp.handle, if_pos h20] at h
    cases h
    exact answers_refl _ _
  have hlen : 20 ≤ t.length := Nat.le_of_not_lt h20
  rw [Tcp.handle_eq s src hlen] at h
  split at h
  · obtain ⟨ackNr, -, h⟩ := bind_eq_ok.mp h
    obtain ⟨c, hseg, -⟩ := Tcp.segment_eq (wordAt t 2) (wordAt t 0) 1000#32 (BitVec.ofNat 32 ackNr)
      (Tcp.syn ||| Tcp.ack) [] src (by decide)
    have hsyn := length_segmentWith (wordAt t 2) (wordAt t 0) 1000#32 (BitVec.ofNat 32 ackNr)
      (Tcp.syn ||| Tcp.ack) c []
    rw [List.length_nil] at hsyn
    have hsilent (host : Stack) : Ip.dispatch host Ip.protoTcp ourIp
        (Tcp.segmentWith (wordAt t 2) (wordAt t 0) 1000#32 (BitVec.ofNat 32 ackNr)
          (Tcp.syn ||| Tcp.ack) c []) = .ok host := by
      rw [Ip.dispatch, if_neg (by decide), if_neg (by decide), if_pos rfl]
      exact Tcp.handle_synAck ..
    obtain ⟨r, hsend, hanswers⟩ := answers_ipSend (n := 34 + t.length) s src Ip.protoTcp
      (by omega) (by omega) hsilent
    rw [hseg, ok_bind, hsend] at h
    cases h
    exact hanswers
  · cases h
    exact answers_refl _ _

theorem Ip.dispatch_answers {s s' : Stack} {proto : Byte} {src : Ipv4} {body : Bytes}
    (hle : body.length ≤ 65515) (h : Ip.dispatch s proto src body = .ok s') :
    Answers (34 + body.length) s s' := by
  unfold Ip.dispatch at h
  split at h
  · exact Icmp.handle_answers hle h
  split at h
  · exact Udp.handle_answers _ h
  split at h
  · exact Tcp.handle_answers h
  · cases h
    exact answers_refl _ _

theorem Answers.mono {n m : Nat} {s s' : Stack} (h : Answers n s s') (hle : n ≤ m) :
    Answers m s s' := by
  obtain ⟨out, hsent, hone, hout⟩ := h
  exact ⟨out, hsent, hone, fun g hg => ⟨Nat.le_trans (hout g hg).1 hle, (hout g hg).2⟩⟩

/-- The body is at least the 20 bytes of a header shorter than the packet, and than 65535. -/
theorem Ip.handle_answers {s s' : Stack} {pkt : Bytes} (h : Ip.handle s pkt = .ok s') :
    Answers (14 + pkt.length) s s' := by
  by_cases hwf : Ip.WellFormed pkt
  · rw [Ip.handle_eq s hwf] at h
    obtain ⟨body, hbody, h⟩ := bind_eq_ok.mp h
    obtain ⟨-, hend, rfl⟩ := slice_eq_ok.mp hbody
    have hstart : 20 ≤ Ip.bodyStart pkt := Nat.le_max_right ..
    have htotal : Ip.bodyEnd pkt ≤ (wordAt pkt 2).toNat := Nat.min_le_left ..
    have hword : (wordAt pkt 2).toNat < 2 ^ 16 := (wordAt pkt 2).isLt
    have hlen : ((pkt.take (Ip.bodyEnd pkt)).drop (Ip.bodyStart pkt)).length =
        Ip.bodyEnd pkt - Ip.bodyStart pkt := by
      rw [List.length_drop, List.length_take, Nat.min_eq_left hend]
    have hwf20 : 20 ≤ pkt.length := hwf.1
    exact (Ip.dispatch_answers (by omega) h).mono (by omega)
  · rw [Ip.handle_malformed s hwf] at h
    cases h
    exact answers_refl _ _

/-- **A frame is answered by at most one frame, which is no longer and which nobody answers.** -/
theorem Ethernet.handle_answers {s s' : Stack} {frame : Bytes}
    (h : Ethernet.handle s frame = .ok s') : Answers frame.length s s' := by
  by_cases h14 : frame.length < Ethernet.headerLen
  · rw [Ethernet.handle, if_pos h14] at h
    cases h
    exact answers_refl _ _
  have hlen : 14 ≤ frame.length := Nat.le_of_not_lt h14
  have hdrop : 14 + (frame.drop 14).length = frame.length := by
    rw [List.length_drop]
    omega
  rw [Ethernet.handle_eq s hlen] at h
  rw [← hdrop]
  split at h
  · exact Arp.handle_answers h
  split at h
  · exact Ip.handle_answers h
  · cases h
    exact answers_refl _ _

/-! ## 3. Hosts on a link -/

/-- Hosts that run this stack, and the frames on their way. -/
structure Link (ι : Type) where
  hosts : ι → Stack
  flight : List Bytes

/-- A frame in flight arrives at a host, with padding; or a host panics over it and sends
    nothing. -/
structure Arrival (ι : Type) where
  frame : Nat
  host : ι
  pad : Bytes

section Links

variable {ι : Type}

open Classical in
/-- The deliveries that a frame can still cause: its own, and that of its answer. -/
noncomputable def cost (g : Bytes) : Nat := if Silent g then 1 else 2

theorem cost_le (g : Bytes) : cost g ≤ 2 := by
  unfold cost
  split
  · decide
  · decide

noncomputable def Link.weight (l : Link ι) : Nat := (l.flight.map cost).sum

theorem weight_le (l : Link ι) : l.weight ≤ 2 * l.flight.length := by
  unfold Link.weight
  generalize l.flight = frames
  induction frames with
  | nil => exact Nat.zero_le _
  | cons g frames ih =>
    have hg := cost_le g
    rw [List.map_cons, List.sum_cons, List.length_cons]
    omega

variable [DecidableEq ι]

/-- The frame leaves the link; what the host sends enters it. -/
def Link.step (l : Link ι) (a : Arrival ι) : Option (Link ι × List Unit) :=
  match l.flight[a.frame]? with
  | none => none
  | some g =>
    match Ethernet.handle (l.hosts a.host) (g ++ a.pad) with
    | .ok s' => some (⟨fun i => if i = a.host then s' else l.hosts i,
        l.flight.eraseIdx a.frame ++ s'.sent.drop (l.hosts a.host).sent.length⟩, [()])
    | .error _ => some (⟨l.hosts, l.flight.eraseIdx a.frame⟩, [()])

/-- What a delivery of `g` puts on the link costs less than `g` itself did. -/
theorem cost_answer {s s' : Stack} {g pad : Bytes} (h : Ethernet.handle s (g ++ pad) = .ok s') :
    ((s'.sent.drop s.sent.length).map cost).sum + 1 ≤ cost g := by
  obtain ⟨out, hsent, hone, hout⟩ := Ethernet.handle_answers h
  rw [hsent, List.drop_left]
  by_cases hg : Silent g
  · obtain ⟨host', hh, hquiet⟩ := hg s pad
    rw [h] at hh
    cases hh
    have hnil : out = [] := by
      have hself : s.sent ++ out = s.sent ++ [] := by rw [List.append_nil, ← hsent, hquiet]
      exact List.append_cancel_left hself
    rw [hnil, cost, if_pos hg]
    exact Nat.le_refl 1
  · have hsilent : ((out.map cost).sum : Nat) ≤ 1 := by
      match out, hone with
      | [], _ => exact Nat.zero_le 1
      | [g'], _ =>
        have hg' := (hout g' List.mem_cons_self).2
        have hsum : ([g'].map cost).sum = 1 := by
          rw [List.map_singleton, List.sum_singleton, cost, if_pos hg']
        exact Nat.le_of_eq hsum
    rw [cost, if_neg hg]
    omega

/-- One delivery, one unit of weight. -/
theorem link_weight {l l' : Link ι} {a : Arrival ι} {es : List Unit}
    (h : l.step a = some (l', es)) : es.length + l'.weight ≤ l.weight := by
  unfold Link.step at h
  split at h
  · cases h
  rename_i g hg
  obtain ⟨hlt, hget⟩ := List.getElem?_eq_some_iff.mp hg
  have hsplit : cost g + ((l.flight.eraseIdx a.frame).map cost).sum =
      (l.flight.map cost).sum := by
    rw [← hget]
    have hperm := (List.getElem_cons_eraseIdx_perm hlt).map cost
    rw [← hperm.sum_nat, List.map_cons, List.sum_cons]
  have hcost : 1 ≤ cost g := by
    unfold cost
    split
    · decide
    · decide
  split at h
  · rename_i s' hs
    cases h
    have hanswer := cost_answer hs
    simp only [Link.weight, List.map_append, List.sum_append_nat, List.length_singleton]
    omega
  · cases h
    simp only [Link.weight, List.length_singleton]
    omega

/-- Any run of deliveries is paid for by the frames it started with. -/
theorem run_deliveries {l l' : Link ι} {es : List Unit}
    (h : Run Link.step anyStep l es l') : es.length + l'.weight ≤ l.weight :=
  h.invariant_events (I := fun es l' => es.length + l'.weight ≤ l.weight)
    (Nat.le_of_eq (Nat.zero_add _)) fun es s a s' es' hI _ hs => by
      have hstep := link_weight hs
      rw [List.length_append]
      omega

end Links

/-- **No reply storms and no amplification.** A frame that is handled without a panic, in any state,
    makes the host send at most one frame; that frame is no longer, and fed to any host, alone or
    with padding, it makes it send nothing. So hosts that run this stack cannot keep each other
    sending: `n` frames between any number of them are at most `2 * n` deliveries, whatever the
    order, the receivers and the padding. -/
theorem no_reply_storm :
    (∀ (s s' : Stack) (f : Bytes), Ethernet.handle s f = .ok s' →
      ∃ out, s'.sent = s.sent ++ out ∧ out.length ≤ 1 ∧ ∀ g ∈ out, g.length ≤ f.length ∧
        ∀ (host : Stack) (pad : Bytes),
          ∃ host', Ethernet.handle host (g ++ pad) = .ok host' ∧ host'.sent = host.sent) ∧
    ∀ (ι : Type) [DecidableEq ι] (l l' : Link ι) (deliveries : List Unit),
      Run Link.step anyStep l deliveries l' → deliveries.length ≤ 2 * l.flight.length := by
  refine ⟨fun s s' f h => Ethernet.handle_answers h, fun ι _ l l' deliveries h => ?_⟩
  have hpaid := run_deliveries h
  have hle := weight_le l
  omega

/-- A SYN comes to one of two hosts, and its answer to the other one: the bound is attained. -/
theorem no_reply_storm_syn :
    (∃ s' g, Ethernet.handle nicStack (synFrame 777#32) = .ok s' ∧ s'.sent = [g] ∧
      ∀ host pad, ∃ host', Ethernet.handle host (g ++ pad) = .ok host' ∧ host'.sent = host.sent) ∧
    ∃ (l l' : Link Bool) (deliveries : List Unit), Run Link.step anyStep l deliveries l' ∧
      l.flight = [synFrame 777#32] ∧ l'.flight = [] ∧ deliveries.length = 2 * l.flight.length ∧
      deliveries.length ≤ 2 * l.flight.length := by
  have hanswer : ∃ s' g, Ethernet.handle nicStack (synFrame 777#32) = .ok s' ∧ s'.sent = [g] :=
    ⟨_, _, rfl, rfl⟩
  obtain ⟨s', g, hs, hg⟩ := hanswer
  obtain ⟨out, hsent, -, hout⟩ := no_reply_storm.1 nicStack s' _ hs
  have hmem : g ∈ out := by
    rw [hg] at hsent
    cases hsent
    exact List.mem_singleton_self g
  have hrun : ∃ l' es, exec Link.step (fun _ _ => true) ⟨fun _ => nicStack, [synFrame 777#32]⟩
      [⟨0, true, []⟩, ⟨0, false, []⟩] = some (l', es) ∧ l'.flight = [] ∧ es.length = 2 :=
    ⟨_, _, rfl, rfl, rfl⟩
  obtain ⟨l', es, hexec, hflight, hes⟩ := hrun
  have hrun := (run_of_exec _ hexec).any
  exact ⟨⟨s', g, hs, hg, (hout g hmem).2⟩, _, l', es, hrun, rfl, hflight, hes,
    no_reply_storm.2 Bool _ _ es hrun⟩

end SimpleLinux.Net
