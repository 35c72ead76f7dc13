/-
  File:      SimpleLinux/Net/Transfer.lean
  Subject:   Datagrams from one host to another: from `udp::send` through the transmit ring, the
             wire and the receive ring to `socket::recvfrom`.

  Two hosts run this kernel. The sender does whatever its stack can do; what that hands to the
  driver goes into the transmit ring, and the card puts it on the wire some time later. The
  receiver's card takes the frames from the wire, `pump` feeds them to the stack one by one, and a
  task reads from one socket. Sender, both cards, pump and reader take turns in any order.

  Nothing in the code keeps a frame from being lost: all sends share one staging buffer, so that one
  which comes too early changes the bytes of a frame that is still to be sent; and the receiver's
  card drops a frame of more than 2048 bytes and one that meets a full ring. So the runs are those
  where each send finds room, the staging buffer included, and the receiver's card accepts each
  frame.

  * `Hosts`, `Action`, `step` -- the two hosts; `ok` -- the runs without a loss;
  * `Flowing` -- the invariant: each stage holds a piece of what was sent, and the pieces are in
    order; one lemma for each action;
  * `udp_stream` -- the datagrams sent to a port are those received, those queued and those in
    flight.
-/
import SimpleLinux.Net.Effects
import SimpleLinux.Net.Pump

namespace SimpleLinux.Net.Transfer

open Rust Runs
open E1000 (Desc)
open E1000.Rx (Owned pollReceive deviceReceive accepts numRx)
open Inbound (Path pumpLoop)
open Sockets (cut)

/-! ## 1. Two hosts -/

structure Hosts where
  /-- the sender's stack and card -/
  snd : Stack
  tx : E1000.Machine
  /-- the number of frames of the wire that have come to the receiver -/
  carried : Nat
  rcv : Path

inductive Event
  /-- the sender's driver has taken the frame of an operation -/
  | sent (o : Op) (frame : Bytes)
  /-- the receiver's card has accepted a frame -/
  | arrived (frame : Bytes)
  /-- the receiver's stack has handled it -/
  | handled (frame : Bytes)
  /-- the reader was given a datagram, cut to a buffer of length `len` -/
  | received (len : Nat) (answer : Bytes × Ipv4 × BitVec 16)

inductive Action
  | send (o : Op)
  /-- the sender's card puts a frame on the wire -/
  | transmit
  /-- the next frame of the wire comes to the receiver's card -/
  | carry (rest : Desc)
  /-- one turn of the loop of `pump` -/
  | turn
  | recvfrom (len : Nat)
  /-- the receiver does something else -/
  | other (o : Op)

/-- The frames that were handed to the driver from `s` to `s'`. -/
def fresh (s s' : Stack) : List Bytes := s'.sent.drop s.sent.length

/-- One step; the reader reads from socket `idx`. -/
def step (idx : Nat) (h : Hosts) : Action → Option (Hosts × List Event)
  | .send o => do
    let snd ← (o.run h.snd).toOption
    let (tx, frames) ← exec E1000.step (fun _ _ => true) h.tx ((fresh h.snd snd).map .send)
    some ({ h with snd, tx }, frames.map (.sent o))
  | .transmit => (E1000.deviceTake h.tx).map fun tx => ({ h with tx }, [])
  | .carry rest => do
    let frame ← h.tx.wire[h.carried]?
    if accepts h.rcv.rx frame then
      some ({ h with
        carried := h.carried + 1, rcv := ⟨deviceReceive h.rcv.rx frame rest, h.rcv.net⟩ },
        [.arrived frame])
    else some ({ h with carried := h.carried + 1 }, [])
  | .turn => do
    let (_, rcv, es) ← pumpLoop (fun _ => []) 1 h.rcv
    some ({ h with rcv }, (Inbound.handled es).map .handled)
  | .recvfrom len =>
    let (answer, net) := Sockets.recvfrom h.rcv.net idx len
    some ({ h with rcv := ⟨h.rcv.rx, net⟩ }, (answer.map (.received len)).toList)
  | .other o => do
    let net ← (o.run h.rcv.net).toOption
    some ({ h with rcv := ⟨h.rcv.rx, net⟩ }, [])

/-- An operation that neither takes frames past `pump` nor is about socket `idx`. -/
def Spares (idx : Nat) (s : Stack) : Op → Prop
  | .input _ => False
  | .call c => ∃ j, c.slot s = some j ∧ j ≠ idx
  | _ => True

/-- **Nothing is lost**: a datagram has at most 65507 bytes and its frame at most 4096; the frame
    finds a free descriptor in the transmit ring, and the copy to the staging buffer changes no byte
    that an outstanding descriptor is still to be sent with; the receiver's card accepts what comes
    to it (one to 2048 bytes, while it owns a descriptor), and the rest of the receiver spares the
    socket. -/
def ok (idx : Nat) (h : Hosts) : Action → Prop
  | .send o => o.Sendable ∧ ∀ snd, o.run h.snd = .ok snd →
      ∀ frame ∈ fresh h.snd snd, E1000.unhurried h.tx (.send frame)
  | .carry _ => ∀ frame, h.tx.wire[h.carried]? = some frame → accepts h.rcv.rx frame
  | .other o => Spares idx h.rcv.net o
  | _ => True

/-! ## 2. The stages -/

/-- The datagram of an arrival, if it is for port `dport`. -/
def addressed (dport : BitVec 16) (arrival : Option (BitVec 16 × Datagram)) : Option Datagram :=
  arrival.bind fun a => if a.1 = dport then some a.2 else none

/-- The datagrams for `dport` in a list of frames. -/
def toPort (dport : BitVec 16) (frames : List Bytes) : List Datagram :=
  frames.filterMap fun frame => addressed dport (carries frame)

/-- The datagrams that the sender has sent to `dport`. -/
def posted (dport : BitVec 16) (es : List Event) : List Datagram :=
  es.filterMap fun
    | .sent o _ => addressed dport o.posts
    | _ => none

def sentFrames (es : List Event) : List Bytes :=
  es.filterMap fun
    | .sent _ frame => some frame
    | _ => none

def arrivedFrames (es : List Event) : List Bytes :=
  es.filterMap fun
    | .arrived frame => some frame
    | _ => none

def handledFrames (es : List Event) : List Bytes :=
  es.filterMap fun
    | .handled frame => some frame
    | _ => none

/-- What the reader was given, with the lengths of its buffers. -/
def received (es : List Event) : List (Nat × Bytes × Ipv4 × BitVec 16) :=
  es.filterMap fun
    | .received len answer => some (len, answer)
    | _ => none

/-- The answers are the datagrams, one for one, each cut to its buffer. -/
def Cuts (answers : List (Nat × Bytes × Ipv4 × BitVec 16)) (ds : List Datagram) : Prop :=
  List.Forall₂ (fun r d => r.2 = cut r.1 d) answers ds

/-- The socket of the reader: it has handed out `ds` of what was delivered, and holds the rest. -/
structure Reader (idx : Nat) (dport : BitVec 16) (delivered : List Datagram)
    (answers : List (Nat × Bytes × Ipv4 × BitVec 16)) (s : Stack) : Prop where
  socket : ∃ k ds, Slots.get s.sockets idx = some k ∧ k.proto = Ip.protoUdp ∧ k.localPort = dport ∧
    delivered = ds ++ k.rx ∧ Cuts answers ds

/-- **The invariant.** -/
structure Flowing (idx : Nat) (dport : BitVec 16) (es : List Event) (h : Hosts) : Prop where
  posts : posted dport es = toPort dport (sentFrames es)
  sound : E1000.Sound (sentFrames es) h.tx
  carried : h.carried ≤ h.tx.wire.length
  wire : arrivedFrames es = h.tx.wire.take h.carried
  card : ∃ nic, Owned (arrivedFrames es) (handledFrames es) h.rcv.rx nic
  reader : Reader idx dport (toPort dport (handledFrames es)) (received es) h.rcv.net

section Projections

variable (dport : BitVec 16) (es es' : List Event)

@[simp] theorem posted_append : posted dport (es ++ es') = posted dport es ++ posted dport es' :=
  List.filterMap_append ..

@[simp] theorem sentFrames_append : sentFrames (es ++ es') = sentFrames es ++ sentFrames es' :=
  List.filterMap_append ..

@[simp] theorem arrivedFrames_append :
    arrivedFrames (es ++ es') = arrivedFrames es ++ arrivedFrames es' := List.filterMap_append ..

@[simp] theorem handledFrames_append :
    handledFrames (es ++ es') = handledFrames es ++ handledFrames es' := List.filterMap_append ..

@[simp] theorem received_append : received (es ++ es') = received es ++ received es' :=
  List.filterMap_append ..

@[simp] theorem toPort_append (frames frames' : List Bytes) :
    toPort dport (frames ++ frames') = toPort dport frames ++ toPort dport frames' :=
  List.filterMap_append ..

@[simp] theorem toPort_singleton (frame : Bytes) :
    toPort dport [frame] = (addressed dport (carries frame)).toList := by
  rw [toPort]
  cases haddr : addressed dport (carries frame) with
  | none => simp [haddr]
  | some d => simp [haddr]

end Projections

/-! ## 3. The sender -/

section Steps

variable {idx : Nat} {dport : BitVec 16} {es : List Event} {h : Hosts}

theorem step_wire {m m' : E1000.Machine} {frame : Bytes} {out : List Bytes}
    (hs : E1000.step m (.send frame) = some (m', out)) :
    m'.wire = m.wire ∧ (out = [] ∨ out = [frame]) := by
  obtain ⟨f, hf, -, rfl, rfl⟩ | ⟨f, nic, hf, hnic, hsend, rfl⟩ | ⟨hf, -⟩ := E1000.step_cases hs
  · exact ⟨rfl, .inl rfl⟩
  · cases hf
    obtain ⟨-, hm⟩ := E1000.send_some hnic hsend
    rw [hm]
    exact ⟨rfl, .inr rfl⟩
  · cases hf

/-- The wire grows behind what the receiver has seen of it. -/
theorem Flowing.transmit (hI : Flowing idx dport es h) {tx : E1000.Machine}
    (ht : E1000.deviceTake h.tx = some tx) : Flowing idx dport es { h with tx } := by
  obtain ⟨-, htook⟩ := E1000.deviceTake_some ht
  have hwire := congrArg E1000.Machine.wire htook
  dsimp only at hwire
  have hcarried := hI.carried
  refine { hI with sound := hI.sound.device ht, carried := ?_, wire := ?_ }
  · show h.carried ≤ tx.wire.length
    rw [hwire, List.length_append]
    exact Nat.le_add_right_of_le hcarried
  · show _ = tx.wire.take h.carried
    rw [hwire, List.take_append_of_le_length hcarried]
    exact hI.wire

/-- The events of an operation of the sender. -/
theorem sent_events (dport : BitVec 16) {o : Op} {frames : List Bytes}
    (hc : ∀ frame ∈ frames, carries frame = o.posts) :
    posted dport (frames.map (.sent o)) = toPort dport frames ∧
      sentFrames (frames.map (.sent o)) = frames ∧ arrivedFrames (frames.map (.sent o)) = [] ∧
      handledFrames (frames.map (.sent o)) = [] ∧ received (frames.map (.sent o)) = [] := by
  refine ⟨?_, ?_, ?_, ?_, ?_⟩
  · rw [posted, toPort, List.filterMap_map]
    refine List.filterMap_congr fun frame hmem => ?_
    rw [hc frame hmem]
    rfl
  · rw [sentFrames, List.filterMap_map]
    exact List.filterMap_some
  · simp [arrivedFrames]
  · simp [handledFrames]
  · simp [received]

theorem Flowing.send (hI : Flowing idx dport es h) {o : Op} {h' : Hosts} {es' : List Event}
    (hok : ok idx h (.send o)) (hs : step idx h (.send o) = some (h', es')) :
    Flowing idx dport (es ++ es') h' := by
  obtain ⟨hsendable, hroom⟩ := hok
  obtain ⟨snd, hrun, hs⟩ := Option.bind_eq_some_iff.mp hs
  have hrun := Inbound.toOption_eq_some hrun
  obtain ⟨⟨tx, frames⟩, hexec, hs⟩ := Option.bind_eq_some_iff.mp hs
  cases hs
  obtain ⟨out, hsent, hone, hcarry⟩ := Op.run_sends hsendable hrun
  have hfresh : fresh h.snd snd = out := by
    rw [fresh, hsent, List.drop_left]
  rw [hfresh] at hexec
  -- the driver was called at most once
  have hdriver : E1000.Sound (sentFrames es ++ frames) tx ∧ tx.wire = h.tx.wire ∧
      ∀ frame ∈ frames, carries frame = o.posts := by
    match out, hone with
    | [], _ =>
      cases hexec
      refine ⟨?_, rfl, fun _ hmem => nomatch hmem⟩
      rw [List.append_nil]
      exact hI.sound
    | [frame], _ =>
      simp only [List.map_cons, List.map_nil, exec, if_true] at hexec
      rcases hstep : E1000.step h.tx (.send frame) with - | ⟨tx₁, out₁⟩
      · rw [hstep] at hexec
        cases hexec
      · rw [hstep] at hexec
        cases hexec
        have hmem : frame ∈ fresh h.snd snd := by
          rw [hfresh]
          exact List.mem_singleton_self frame
        obtain ⟨hwire, hout⟩ := step_wire hstep
        rw [List.append_nil]
        refine ⟨hI.sound.step (hroom snd hrun frame hmem) hstep, hwire, fun g hg => ?_⟩
        rcases hout with rfl | rfl
        · cases hg
        · exact hcarry g hg
  obtain ⟨hsound, hwire, hposts⟩ := hdriver
  obtain ⟨hp, hf, ha, hh, hr⟩ := sent_events dport hposts
  refine ⟨?_, ?_, ?_, ?_, ?_, ?_⟩
  · rw [posted_append, sentFrames_append, toPort_append, hp, hf, hI.posts]
  · rw [sentFrames_append, hf]
    exact hsound
  · show h.carried ≤ tx.wire.length
    rw [hwire]
    exact hI.carried
  · rw [arrivedFrames_append, ha, List.append_nil]
    show _ = tx.wire.take h.carried
    rw [hwire]
    exact hI.wire
  · rw [arrivedFrames_append, handledFrames_append, ha, hh, List.append_nil, List.append_nil]
    exact hI.card
  · rw [handledFrames_append, received_append, hh, hr, List.append_nil, List.append_nil]
    exact hI.reader

/-! ## 4. The receiver -/

theorem Flowing.carry (hI : Flowing idx dport es h) {rest : Desc} {h' : Hosts} {es' : List Event}
    (hok : ok idx h (.carry rest)) (hs : step idx h (.carry rest) = some (h', es')) :
    Flowing idx dport (es ++ es') h' := by
  obtain ⟨frame, hnext, hs⟩ := Option.bind_eq_some_iff.mp hs
  have hacc := hok frame hnext
  rw [if_pos hacc] at hs
  cases hs
  obtain ⟨hlt, hget⟩ := List.getElem?_eq_some_iff.mp hnext
  obtain ⟨nic, ho⟩ := hI.card
  have harrived : arrivedFrames (es ++ [.arrived frame]) = arrivedFrames es ++ [frame] :=
    arrivedFrames_append ..
  have hhandled : handledFrames (es ++ [.arrived frame]) = handledFrames es :=
    (handledFrames_append ..).trans (List.append_nil _)
  refine ⟨?_, ?_, hlt, ?_, ⟨nic, ?_⟩, ?_⟩
  · rw [posted_append, sentFrames_append]
    simpa [posted, sentFrames] using hI.posts
  · rw [sentFrames_append]
    simpa [sentFrames] using hI.sound
  · rw [harrived, hI.wire, List.take_add_one, hnext]
    rfl
  · rw [harrived, hhandled]
    exact ho.receive rest hacc
  · rw [hhandled, received_append]
    simpa [received] using hI.reader

/-- A step of the receiver that has nothing to do with the wire. -/
theorem Flowing.receiver (hI : Flowing idx dport es h) {rcv : Path} {es' : List Event}
    (hp : posted dport es' = []) (hf : sentFrames es' = []) (ha : arrivedFrames es' = [])
    (hcard : ∃ nic, Owned (arrivedFrames es) (handledFrames es ++ handledFrames es') rcv.rx nic)
    (hreader : Reader idx dport (toPort dport (handledFrames es ++ handledFrames es'))
      (received es ++ received es') rcv.net) :
    Flowing idx dport (es ++ es') { h with rcv } := by
  refine ⟨?_, ?_, hI.carried, ?_, ?_, ?_⟩
  · rw [posted_append, sentFrames_append, hp, hf, List.append_nil, List.append_nil]
    exact hI.posts
  · rw [sentFrames_append, hf, List.append_nil]
    exact hI.sound
  · rw [arrivedFrames_append, ha, List.append_nil]
    exact hI.wire
  · rw [arrivedFrames_append, handledFrames_append, ha, List.append_nil]
    exact hcard
  · rw [handledFrames_append, received_append]
    exact hreader

/-- One turn of the loop: nothing, or one frame. -/
theorem turn_cases {p p' : Path} {n : Nat} {es : List Inbound.Event}
    (ht : pumpLoop (fun _ => []) 1 p = some (n, p', es)) :
    (Inbound.handled es = [] ∧ p' = p) ∨ ∃ frame, Inbound.handled es = [frame] ∧
      pollReceive p.rx = .ok (some frame, p'.rx) ∧ Ethernet.handle p.net frame = .ok p'.net := by
  rw [pumpLoop] at ht
  obtain ⟨⟨rx, es₁⟩, hdist, ht⟩ := Option.bind_eq_some_iff.mp ht
  cases hdist
  obtain ⟨⟨polled, rx'⟩, hpoll, ht⟩ := Option.bind_eq_some_iff.mp ht
  have hpoll := Inbound.toOption_eq_some hpoll
  cases polled with
  | none =>
    cases ht
    obtain rfl := Inbound.poll_nothing hpoll
    exact .inl ⟨rfl, rfl⟩
  | some frame =>
    obtain ⟨net, hnet, ht⟩ := Option.bind_eq_some_iff.mp ht
    cases ht
    exact .inr ⟨frame, rfl, hpoll, Inbound.toOption_eq_some hnet⟩

/-- A poll that returns a frame has taken it from the ring. -/
theorem owned_polled {acc ret : List Bytes} {m m' : E1000.Rx.Machine} {nic : E1000.Rx.Nic}
    {frame : Bytes} (ho : Owned acc ret m nic) (hp : pollReceive m = .ok (some frame, m')) :
    ∃ nic', Owned acc (ret ++ [frame]) m' nic' := by
  rcases hn : E1000.Rx.backlog m nic with - | n
  · rw [E1000.Rx.poll_none ho hn] at hp
    cases hp
  · obtain ⟨hframe, rfl⟩ := E1000.Rx.poll_eq ho hn hp
    cases hframe
    exact ⟨nic.next, ho.polled hn⟩

/-- A datagram goes to the end of the queue if it is for the port, and elsewhere if not. -/
theorem Reader.deliver {delivered : List Datagram}
    {answers : List (Nat × Bytes × Ipv4 × BitVec 16)} {s s' : Stack}
    {arrival : Option (BitVec 16 × Datagram)} (hr : Reader idx dport delivered answers s)
    (hs : s'.sockets = queue s.sockets arrival) :
    Reader idx dport (delivered ++ (addressed dport arrival).toList) answers s' := by
  obtain ⟨k, ds, hk, hproto, hport, hsplit, hcuts⟩ := hr.socket
  rcases arrival with - | ⟨p, d⟩
  · rw [show addressed dport none = none from rfl, Option.toList_none, List.append_nil]
    exact ⟨k, ds, by rw [hs]; exact hk, hproto, hport, hsplit, hcuts⟩
  · have hget : Slots.get s'.sockets idx = some (Sockets.accept p d k) := by
      rw [hs]
      exact (Slots.get_mapAll ..).trans (congrArg _ hk)
    by_cases hp : p = dport
    · rw [Sockets.accept, if_pos ⟨hproto, hport.trans hp.symm⟩] at hget
      refine ⟨_, ds, hget, hproto, hport, ?_, hcuts⟩
      rw [hsplit, addressed, Option.bind_some, if_pos hp, List.append_assoc]
      rfl
    · rw [Sockets.accept, if_neg fun hboth => hp (hboth.2.symm.trans hport)] at hget
      refine ⟨k, ds, hget, hproto, hport, ?_, hcuts⟩
      rw [addressed, Option.bind_some, if_neg hp, Option.toList_none, List.append_nil, hsplit]

theorem Flowing.turn (hI : Flowing idx dport es h) {h' : Hosts} {es' : List Event}
    (hs : step idx h .turn = some (h', es')) : Flowing idx dport (es ++ es') h' := by
  obtain ⟨⟨n, rcv, evs⟩, hturn, hs⟩ := Option.bind_eq_some_iff.mp hs
  cases hs
  obtain ⟨nic, ho⟩ := hI.card
  obtain ⟨hnone, rfl⟩ | ⟨frame, hone, hpoll, hhandle⟩ := turn_cases hturn
  · rw [hnone, List.map_nil, List.append_nil]
    exact hI
  · rw [hone]
    refine hI.receiver rfl rfl rfl (owned_polled ho hpoll) ?_
    have hdeliver := hI.reader.deliver (Ethernet.handle_effect hhandle).sockets
    rw [show handledFrames ([frame].map .handled) = [frame] from rfl, toPort_append,
      toPort_singleton, show received ([frame].map .handled) = [] from rfl, List.append_nil]
    exact hdeliver

theorem Flowing.recvfrom (hI : Flowing idx dport es h) {len : Nat} {h' : Hosts} {es' : List Event}
    (hs : step idx h (.recvfrom len) = some (h', es')) : Flowing idx dport (es ++ es') h' := by
  obtain ⟨k, ds, hk, hproto, hport, hsplit, hcuts⟩ := hI.reader.socket
  obtain ⟨he, -⟩ | ⟨k', d, rx, hk', hrx, he⟩ := Sockets.recvfrom_cases h.rcv.net idx len
  · rw [step, he] at hs
    cases hs
    rw [show (Option.map (Event.received len) none).toList = [] from rfl, List.append_nil]
    exact hI
  · rw [step, he] at hs
    cases hs
    cases hk.symm.trans hk'
    have hget : Slots.get (Slots.update h.rcv.net.sockets idx fun k => { k with rx }) idx =
        some { k with rx } := by
      rw [Slots.get_update, if_pos rfl, hk]
      rfl
    have hnone : handledFrames es ++
        handledFrames ((some (cut len d)).map (Event.received len)).toList = handledFrames es :=
      List.append_nil _
    refine hI.receiver rfl rfl rfl ?_ ⟨_, ds ++ [d], hget, hproto, hport, ?_, ?_⟩
    · rw [hnone]
      exact hI.card
    · rw [hnone, hsplit, hrx, List.append_assoc]
      rfl
    · exact List.rel_append hcuts (.cons rfl .nil)

/-- What the receiver does otherwise leaves the socket as it is. -/
theorem Spares.socket {s s' : Stack} {o : Op} (hok : Spares idx s o) (hrun : o.run s = .ok s') :
    Slots.get s'.sockets idx = Slots.get s.sockets idx := by
  cases o with
  | input frame => cases hok
  | udp srcPort dst dstPort data =>
    obtain ⟨r, hr, hrun⟩ := bind_eq_ok.mp hrun
    cases hrun
    rw [Udp.send_eq] at hr
    obtain ⟨frame, -, hr⟩ := bind_eq_ok.mp hr
    cases hr
    rw [Sockets.e1000Send_sockets]
  | ping dst seq =>
    obtain ⟨req, -, hrun⟩ := bind_eq_ok.mp hrun
    obtain ⟨r, hsend, hrun⟩ := bind_eq_ok.mp hrun
    cases hrun
    rw [(Ip.send_effect hsend (by decide)).sockets]
    rfl
  | arp target =>
    cases hrun
    rw [Arp.request, transmitEthernet, Sockets.e1000Send_sockets]
  | call c =>
    obtain ⟨j, hj, hne⟩ := hok
    rw [Op.run] at hrun
    rcases hc : Sockets.callStep s c with - | ⟨s₁, es⟩
    · rw [hc] at hrun
      cases hrun
      rfl
    · rw [hc] at hrun
      cases hrun
      exact Sockets.callStep_other hc hj hne

theorem Flowing.other (hI : Flowing idx dport es h) {o : Op} {h' : Hosts} {es' : List Event}
    (hok : ok idx h (.other o)) (hs : step idx h (.other o) = some (h', es')) :
    Flowing idx dport (es ++ es') h' := by
  obtain ⟨net, hrun, hs⟩ := Option.bind_eq_some_iff.mp hs
  have hrun := Inbound.toOption_eq_some hrun
  cases hs
  obtain ⟨k, ds, hk, hrest⟩ := hI.reader.socket
  rw [List.append_nil]
  exact { hI with reader := ⟨k, ds, (Spares.socket hok hrun).trans hk, hrest⟩ }

/-- **One step.** -/
theorem Flowing.step (hI : Flowing idx dport es h) {a : Action} {h' : Hosts} {es' : List Event}
    (hok : ok idx h a) (hs : Transfer.step idx h a = some (h', es')) :
    Flowing idx dport (es ++ es') h' := by
  cases a with
  | send o => exact hI.send hok hs
  | transmit =>
    obtain ⟨tx, ht, hs⟩ := Option.map_eq_some_iff.mp hs
    cases hs
    rw [List.append_nil]
    exact hI.transmit ht
  | carry rest => exact hI.carry hok hs
  | turn => exact hI.turn hs
  | recvfrom len => exact hI.recvfrom hs
  | other o => exact hI.other hok hs

end Steps

/-! ## 5. The stream -/

/-- Both cards as they come up, and a socket bound to `dport` with an empty queue. -/
structure Start (idx : Nat) (dport : BitVec 16) (h : Hosts) : Prop where
  tx : ∃ buf mem, h.tx = .boot buf mem
  carried : h.carried = 0
  card : ∃ a mem, E1000.Rx.configure a mem = .ok h.rcv.rx
  socket : ∃ k, Slots.get h.rcv.net.sockets idx = some k ∧ k.proto = Ip.protoUdp ∧
    k.localPort = dport ∧ k.rx = []

theorem Start.flowing {idx : Nat} {dport : BitVec 16} {h : Hosts} (h0 : Start idx dport h) :
    Flowing idx dport [] h := by
  obtain ⟨buf, mem, htx⟩ := h0.tx
  obtain ⟨a, mem', hcard⟩ := h0.card
  obtain ⟨k, hk, hproto, hport, hrx⟩ := h0.socket
  refine ⟨rfl, ?_, ?_, ?_, Owned.configure hcard, ⟨k, [], hk, hproto, hport, ?_, .nil⟩⟩
  · rw [htx]
    exact E1000.Sound.boot buf mem
  · rw [h0.carried]
    exact Nat.zero_le _
  · rw [h0.carried, List.take_zero]
    rfl
  · rw [hrx]
    rfl

theorem flowing_run {idx : Nat} {dport : BitVec 16} {h₀ h : Hosts} {es : List Event}
    (h0 : Start idx dport h₀) (hrun : Run (step idx) (ok idx) h₀ es h) : Flowing idx dport es h :=
  hrun.invariant_events h0.flowing fun _ _ _ _ _ hI hok hs => hI.step hok hs

/-- **Datagrams arrive once, in order, unmodified.** In every run of two hosts in which each send
    meets `ok` (a free descriptor, and no outstanding frame overwritten in the staging buffer) and
    each frame on the wire is accepted by the receiver's card (at most 2048 bytes, and a descriptor
    for it): the datagrams that `udp::send` sent to a port are those that the reader of a socket on
    that port was given, one for one and each cut to its buffer, then those in its queue, then those
    in flight. In flight are the frames sent and not yet handled: the fewer than eight in the
    receive ring, those on the wire, those in the transmit ring; and when the sender's card is idle,
    the wire is carried over and the receive ring is empty, there are none. -/
theorem udp_stream {idx : Nat} {dport : BitVec 16} {h₀ h : Hosts} {es : List Event}
    (h0 : Start idx dport h₀) (hrun : Run (step idx) (ok idx) h₀ es h) :
    ∃ k ds ring, Slots.get h.rcv.net.sockets idx = some k ∧
      Cuts (received es) ds ∧ ring.length < numRx ∧
      sentFrames es =
        handledFrames es ++ (ring ++ h.tx.wire.drop h.carried ++ h.tx.pending) ∧
      posted dport es = ds ++ k.rx ++
        toPort dport (ring ++ h.tx.wire.drop h.carried ++ h.tx.pending) ∧
      (h.tx.tdh = h.tx.tdt → h.carried = h.tx.wire.length →
        pollReceive h.rcv.rx = .ok (none, h.rcv.rx) → posted dport es = ds ++ k.rx) := by
  have hI := flowing_run h0 hrun
  obtain ⟨k, ds, hk, -, -, hsplit, hcuts⟩ := hI.reader.socket
  obtain ⟨nic, ho⟩ := hI.card
  have hall : sentFrames es = handledFrames es ++ ((E1000.Rx.filledRing h.rcv.rx nic).map
      (E1000.Desc.read h.rcv.rx.mem) ++ h.tx.wire.drop h.carried ++ h.tx.pending) := by
    calc sentFrames es
        = h.tx.wire ++ h.tx.pending := hI.sound.split
      _ = arrivedFrames es ++ h.tx.wire.drop h.carried ++ h.tx.pending := by
          rw [hI.wire, List.take_append_drop]
      _ = _ := by
          rw [ho.split]
          simp only [List.append_assoc]
  have hposted := hI.posts
  rw [hall, toPort_append, hsplit] at hposted
  refine ⟨k, ds, _, hk, hcuts, ?_, hall, hposted, fun hquiet hcarried hpoll => ?_⟩
  · rw [List.length_map, E1000.Rx.filledRing, Ring.length_window]
    exact ho.backlog_lt
  · have hempty := Inbound.drained ho hpoll
    have hsent := hI.sound.split
    rw [E1000.pending_nil hquiet, List.append_nil] at hsent
    have harrived := hI.wire
    rw [hcarried, List.take_length, ← hsent] at harrived
    rw [hI.posts, ← harrived, ← hempty, hsplit]

section Journey

variable (idx : Nat) {h : Hosts}

theorem e1000Send_of_nic {s : Stack} (h : s.nic ≠ none) (frame : Bytes) :
    e1000Send s frame = (true, { s with sent := s.sent ++ [frame] }) := by
  rcases s with ⟨- | mac, cache, sockets, sent⟩
  · exact absurd rfl h
  · rfl

/-- A datagram is handed to a driver that takes it. -/
theorem step_udp {srcPort dstPort : BitVec 16} {dst : Ipv4} {data frame : Bytes}
    {tx : E1000.Machine} (hnic : h.snd.nic ≠ none)
    (hframe : Udp.frame h.snd srcPort dst dstPort data = .ok frame)
    (htx : E1000.step h.tx (.send frame) = some (tx, [frame])) :
    (Op.udp srcPort dst dstPort data).run h.snd =
        .ok { h.snd with sent := h.snd.sent ++ [frame] } ∧
      fresh h.snd { h.snd with sent := h.snd.sent ++ [frame] } = [frame] ∧
      step idx h (.send (.udp srcPort dst dstPort data)) =
        some ({ h with snd := { h.snd with sent := h.snd.sent ++ [frame] }, tx },
          [.sent (.udp srcPort dst dstPort data) frame]) := by
  have hrun : (Op.udp srcPort dst dstPort data).run h.snd =
      .ok { h.snd with sent := h.snd.sent ++ [frame] } := by
    rw [Op.run, Udp.send_eq, hframe, ok_bind, e1000Send_of_nic hnic]
    rfl
  have hfresh : fresh h.snd { h.snd with sent := h.snd.sent ++ [frame] } = [frame] :=
    List.drop_left
  refine ⟨hrun, hfresh, ?_⟩
  rw [step, hrun]
  simp only [Except.toOption, Option.bind_eq_bind, Option.bind_some]
  rw [hfresh]
  simp only [List.map_cons, List.map_nil, exec, if_true, htx]
  rfl

/-- A turn of the loop that finds a frame. -/
theorem step_turn {frame : Bytes} {rx : E1000.Rx.Machine} {net : Stack}
    (hpoll : pollReceive h.rcv.rx = .ok (some frame, rx))
    (hnet : Ethernet.handle h.rcv.net frame = .ok net) :
    step idx h .turn = some ({ h with rcv := ⟨rx, net⟩ }, [.handled frame]) := by
  have hloop : pumpLoop (fun _ => []) 1 h.rcv = some (1, ⟨rx, net⟩, [.handled frame]) := by
    rw [pumpLoop, show Inbound.disturb h.rcv.rx [] = some (h.rcv.rx, []) from rfl]
    simp only [Option.bind_eq_bind, Option.bind_some, hpoll, hnet, Except.toOption]
    rfl
  rw [step, hloop]
  rfl

end Journey

/-- Two bytes to port 9, where a socket is bound: sent, put on the wire, carried over, handled and
    read. -/
theorem udp_stream_one :
    ∃ (h₀ h : Hosts) (es : List Event), Start 0 9#16 h₀ ∧ Run (step 0) (ok 0) h₀ es h ∧
      posted 9#16 es = [(ourIp, 7#16, [1#8, 2#8])] ∧
      received es = [(16, [1#8, 2#8], ourIp, 7#16)] ∧
      ∃ k ds, Slots.get h.rcv.net.sockets 0 = some k ∧ Cuts (received es) ds ∧
        posted 9#16 es = ds ∧ k.rx = [] := by
  obtain ⟨m₀, hrx⟩ := E1000.Rx.configure_ok E1000.Rx.allFree_enough fun _ => 0#8
  obtain ⟨nic, howned⟩ := Owned.configure hrx
  obtain ⟨nic', hnic, hzero⟩ := E1000.Rx.configure_cursor hrx
  cases hnic.symm.trans howned.present
  let tx₀ : E1000.Machine := .boot (some 0x5000) fun _ => 0#8
  let net₀ : Stack := { nicStack with sockets := listening 9#16 }
  let h₀ : Hosts := ⟨nicStack, tx₀, 0, ⟨m₀, net₀⟩⟩
  have h0 : Start 0 9#16 h₀ := ⟨⟨_, _, rfl⟩, rfl, ⟨_, _, hrx⟩, _, rfl, rfl, rfl, rfl⟩
  obtain ⟨frame, hframe, hlen⟩ := Udp.frame_ok nicStack 7#16 gateway 9#16
    (show [1#8, 2#8].length ≤ 131052 by decide)
  -- the sender
  have hcard : ∃ tx₁ tx₂, E1000.step tx₀ (.send frame) = some (tx₁, [frame]) ∧
      E1000.deviceTake tx₁ = some tx₂ ∧ tx₂.tdh = tx₂.tdt := ⟨_, _, rfl, rfl, rfl⟩
  obtain ⟨tx₁, tx₂, hsend, htake, hquiet⟩ := hcard
  obtain ⟨hop, hfresh, hstep₁⟩ := step_udp 0 (h := h₀) (fun hn => by cases hn) hframe hsend
  have hok₁ : ok 0 h₀ (.send (.udp 7#16 gateway 9#16 [1#8, 2#8])) := by
    refine ⟨show 2 ≤ 65507 by decide, fun s' hs' g hg => ?_⟩
    cases hop.symm.trans hs'
    rw [hfresh] at hg
    cases List.mem_singleton.mp hg
    refine ⟨?_, E1000.roomy_of_quiet rfl frame⟩
    rw [hlen]
    decide
  have hrun₁ := Run.next (Action.send _) .start hok₁ hstep₁
  let h₂ : Hosts := ⟨{ nicStack with sent := [frame] }, tx₂, 0, ⟨m₀, net₀⟩⟩
  have hstep₂ : step 0 ⟨{ nicStack with sent := [frame] }, tx₁, 0, ⟨m₀, net₀⟩⟩ .transmit =
      some (h₂, []) := Option.map_eq_some_iff.mpr ⟨tx₂, htake, rfl⟩
  have hrun₂ := Run.next Action.transmit hrun₁ trivial hstep₂
  have hwire : [frame] = tx₂.wire := by
    have hsplit := (flowing_run h0 hrun₂).sound.split
    rw [show h₂.tx = tx₂ from rfl, E1000.pending_nil hquiet] at hsplit
    exact hsplit.trans (List.append_nil _)
  -- the receiver's card
  have hnext : h₂.tx.wire[h₂.carried]? = some frame := by
    show tx₂.wire[0]? = some frame
    rw [← hwire]
    rfl
  have haccepts : accepts m₀ frame := by
    refine howned.accepts_of_room rfl (by decide) (fun hnil => ?_) ?_
    · rw [hnil] at hlen
      cases hlen
    · rw [hlen]
      decide
  let m₁ := deviceReceive m₀ frame .zero
  have hstep₃ : step 0 h₂ (.carry .zero) =
      some ({ h₂ with carried := 1, rcv := ⟨m₁, net₀⟩ }, [.arrived frame]) := by
    rw [step, hnext]
    exact if_pos haccepts
  have hok₃ : ok 0 h₂ (.carry .zero) := fun g hg => by
    cases hnext.symm.trans hg
    exact haccepts
  have hrun₃ := Run.next (Action.carry .zero) hrun₂ hok₃ hstep₃
  -- pump and reader
  obtain ⟨m₂, hpoll⟩ := (howned.receive .zero haccepts).poll_returns rfl (by rw [hzero]; decide)
  have hhandle := Udp.handle_sent (show [1#8, 2#8].length ≤ 65507 by decide) hframe net₀ []
  rw [List.append_nil] at hhandle
  have hstep₄ := step_turn 0 (h := { h₂ with carried := 1, rcv := ⟨m₁, net₀⟩ }) hpoll hhandle
  have hrun₄ := Run.next Action.turn hrun₃ trivial hstep₄
  have hrun₅ := Run.next (Action.recvfrom 16) hrun₄ trivial rfl
  obtain ⟨k, ds, ring, hk, hcuts, -, -, hposted, -⟩ := udp_stream h0 hrun₅
  refine ⟨h₀, _, _, h0, hrun₅, rfl, rfl, k, ds, hk, hcuts, ?_⟩
  -- one datagram was sent and one was read, so nothing is left behind it
  cases hcuts with
  | cons hcut hnil =>
    cases hnil
    rw [List.append_assoc] at hposted
    obtain ⟨hone, hrest⟩ := List.cons.inj hposted
    exact ⟨congrArg ([·]) hone, (List.append_eq_nil_iff.mp hrest.symm).1⟩

end SimpleLinux.Net.Transfer
