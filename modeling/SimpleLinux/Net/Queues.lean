/-
  File:      SimpleLinux/Net/Queues.lean
  Subject:   The receive queues of net/socket.rs over whole histories of calls.

  A socket is known by its slot, and slots are used again. What a slot should hold is read off the
  CALLS alone: `life i` follows the history of slot `i` from the `socket` call that last took it to
  the `close` that frees it, with the port it was bound to at each point, the datagrams that were
  due to it and those that `recvfrom` returned. The table is then compared with it.

  * `Call`, `callStep` -- the six operations as a machine; `Event` -- a call with its answer;
  * `Life`, `life` -- the history of a slot; `Tracks` -- a socket holds what its life says;
  * `run_tracks` -- it does, in every run, from any table;
  * `queues_fifo` -- so what was returned is a beginning of what was due, cut to the buffers, and
    the rest is queued; no call on another slot matters.
-/
import SimpleLinux.Lib.Runs
import SimpleLinux.Net.Socket

namespace SimpleLinux.Net

open Runs

/-- A datagram in a queue: the sender's address and port, and the payload. -/
abbrev Datagram := Ipv4 × BitVec 16 × Bytes

namespace Sockets

/-! ## 1. Calls and their histories -/

inductive Call
  | socket (proto : Byte)
  | bind (idx : Nat) (port : BitVec 16)
  | connect (idx : Nat) (ip : Ipv4) (port : BitVec 16)
  | close (idx : Nat)
  | deliver (dport : BitVec 16) (src : Ipv4) (sport : BitVec 16) (data : Bytes)
  | recvfrom (idx len : Nat)

/-- A call, with the answer where there is one that matters. -/
inductive Event
  | created (slot : Nat) (proto : Byte)
  | bound (idx : Nat) (port : BitVec 16)
  | connected (idx : Nat) (ip : Ipv4) (port : BitVec 16)
  | closed (idx : Nat)
  | delivered (dport : BitVec 16) (datagram : Datagram)
  | received (idx len : Nat) (answer : Option (Bytes × Ipv4 × BitVec 16))

def callStep (s : Stack) : Call → Option (Stack × List Event)
  | .socket proto => some ((socket s proto).2, [.created (socket s proto).1 proto])
  | .bind idx port => some ((bind s idx port).2, [.bound idx port])
  | .connect idx ip port => some ((connect s idx ip port).2, [.connected idx ip port])
  | .close idx => some (close s idx, [.closed idx])
  | .deliver dport src sport data =>
    some (deliver s dport src sport data, [.delivered dport (src, sport, data)])
  | .recvfrom idx len => some ((recvfrom s idx len).2, [.received idx len (recvfrom s idx len).1])

/-- The history of one socket since it was created. -/
structure Life where
  proto : Byte
  port : BitVec 16
  peer : Option (Ipv4 × BitVec 16)
  /-- the datagrams delivered to its port of the time, while it spoke UDP -/
  due : List Datagram
  /-- what `recvfrom` returned, and the lengths of the buffers it was given -/
  returned : List (Bytes × Ipv4 × BitVec 16)
  buffers : List Nat

/-- No port, no peer, nothing due. -/
def Life.fresh (proto : Byte) : Life :=
  { proto, port := 0#16, peer := none, due := [], returned := [], buffers := [] }

def Life.follow (i : Nat) (l : Option Life) : Event → Option Life
  | .created slot proto => if slot = i then some (.fresh proto) else l
  | .bound idx port => if idx = i then l.map fun l => { l with port } else l
  | .connected idx ip port =>
    if idx = i then l.map fun l => { l with peer := some (ip, port) } else l
  | .closed idx => if idx = i then none else l
  | .delivered dport d =>
    l.map fun l =>
      if l.proto = Ip.protoUdp ∧ l.port = dport then { l with due := l.due ++ [d] } else l
  | .received idx len (some r) =>
    if idx = i then
      l.map fun l => { l with returned := l.returned ++ [r], buffers := l.buffers ++ [len] }
    else l
  | .received _ _ none => l

/-- The socket that occupies slot `i` after the calls `es`, if one was created among them. -/
def life (i : Nat) (es : List Event) : Option Life := es.foldl (Life.follow i) none

theorem life_snoc (i : Nat) (es : List Event) (e : Event) :
    life i (es ++ [e]) = Life.follow i (life i es) e := by
  rw [life, List.foldl_append]
  rfl

/-- A datagram cut to a receive buffer. -/
def cut (len : Nat) (d : Datagram) : Bytes × Ipv4 × BitVec 16 := (d.2.2.take len, d.1, d.2.1)

/-! ## 2. One socket and its life -/

/-- The socket holds what its life says: its port, its peer, and the datagrams that are due and not
    yet returned. -/
structure Tracks (l : Life) (k : Socket) : Prop where
  proto : k.proto = l.proto
  port : k.localPort = l.port
  peer : k.peer = l.peer
  buffers : l.buffers.length = l.returned.length
  le : l.returned.length ≤ l.due.length
  queue : k.rx = l.due.drop l.returned.length
  cuts : l.returned = List.zipWith cut l.buffers (l.due.take l.returned.length)

theorem tracks_fresh (proto : Byte) : Tracks (.fresh proto) (unbound proto) :=
  ⟨rfl, rfl, rfl, rfl, Nat.le_refl 0, rfl, rfl⟩

/-- What `socket::deliver` does to one socket. -/
def accept (dport : BitVec 16) (d : Datagram) (k : Socket) : Socket :=
  if k.proto = Ip.protoUdp ∧ k.localPort = dport then { k with rx := k.rx ++ [d] } else k

theorem Tracks.deliver {l : Life} {k : Socket} (h : Tracks l k) (dport : BitVec 16) (d : Datagram) :
    Tracks (if l.proto = Ip.protoUdp ∧ l.port = dport then { l with due := l.due ++ [d] } else l)
      (accept dport d k) := by
  have hcond : (k.proto = Ip.protoUdp ∧ k.localPort = dport) =
      (l.proto = Ip.protoUdp ∧ l.port = dport) := by rw [h.proto, h.port]
  by_cases hc : l.proto = Ip.protoUdp ∧ l.port = dport
  · rw [accept, if_pos hc, if_pos (hcond ▸ hc)]
    refine ⟨h.proto, h.port, h.peer, h.buffers, ?_, ?_, ?_⟩
    · rw [List.length_append]
      exact Nat.le_add_right_of_le h.le
    · rw [List.drop_append_of_le_length h.le, h.queue]
    · rw [List.take_append_of_le_length h.le]
      exact h.cuts
  · rw [accept, if_neg hc, if_neg (hcond ▸ hc)]
    exact h

/-- The head of the queue is the first datagram that is due and was not returned. -/
theorem Tracks.receive {l : Life} {k : Socket} (h : Tracks l k) (len : Nat) {d : Datagram}
    {rx : List Datagram} (hrx : k.rx = d :: rx) :
    Tracks { l with returned := l.returned ++ [cut len d], buffers := l.buffers ++ [len] }
      { k with rx } := by
  have hdrop : l.due.drop l.returned.length = d :: rx := h.queue.symm.trans hrx
  have hlt : l.returned.length < l.due.length := by
    have hlen := congrArg List.length hdrop
    rw [List.length_drop, List.length_cons] at hlen
    omega
  have hsplit := List.drop_eq_getElem_cons hlt
  rw [hdrop] at hsplit
  obtain ⟨hd, hrest⟩ := List.cons.inj hsplit
  have htake : l.due.take (l.returned.length + 1) = l.due.take l.returned.length ++ [d] := by
    rw [hd]
    exact (List.take_append_getElem hlt).symm
  have hlen : (l.returned ++ [cut len d]).length = l.returned.length + 1 := by
    rw [List.length_append, List.length_singleton]
  refine ⟨h.proto, h.port, h.peer, ?_, ?_, ?_, ?_⟩
  · rw [hlen, List.length_append, List.length_singleton, h.buffers]
  · rw [hlen]
    exact hlt
  · rw [hlen]
    exact hrest
  · have hzip : l.buffers.length = (l.due.take l.returned.length).length := by
      rw [h.buffers, List.length_take, Nat.min_eq_left h.le]
    rw [hlen, htake, List.zipWith_append hzip, ← h.cuts]
    rfl

/-! ## 3. The table -/

theorem get_socket (s : Stack) (proto : Byte) (i : Nat) :
    Slots.get (socket s proto).2.sockets i =
      if i = (socket s proto).1 then some (unbound proto) else Slots.get s.sockets i := by
  rw [socket_eq]
  exact Slots.get_insert ..

theorem get_change (s : Stack) (idx i : Nat) (f : Socket → Socket) :
    Slots.get (change s idx f).2.sockets i =
      if idx = i then (Slots.get s.sockets i).map f else Slots.get s.sockets i := by
  unfold change
  split
  · exact Slots.get_update ..
  · rename_i hnone
    split
    · rename_i he
      rw [← he, hnone]
      rfl
    · rfl

theorem get_close (s : Stack) (idx i : Nat) :
    Slots.get (close s idx).sockets i = if idx = i then none else Slots.get s.sockets i := by
  unfold close
  split
  · exact Slots.get_clear ..
  · rename_i hge
    split
    · rename_i he
      exact he ▸ Slots.get_none_of_le (Nat.le_of_not_lt hge)
    · rfl

theorem get_deliver (s : Stack) (dport : BitVec 16) (src : Ipv4) (sport : BitVec 16) (data : Bytes)
    (i : Nat) :
    Slots.get (deliver s dport src sport data).sockets i =
      (Slots.get s.sockets i).map (accept dport (src, sport, data)) :=
  Slots.get_mapAll ..

/-- Nothing to return, or the head of the queue, cut to the buffer. -/
theorem recvfrom_cases (s : Stack) (idx len : Nat) :
    (recvfrom s idx len = (none, s) ∧ ∀ k, Slots.get s.sockets idx = some k → k.rx = []) ∨
      ∃ k d rx, Slots.get s.sockets idx = some k ∧ k.rx = d :: rx ∧
        recvfrom s idx len = (some (cut len d),
          { s with sockets := Slots.update s.sockets idx fun k => { k with rx } }) := by
  rcases hk : Slots.get s.sockets idx with - | k
  · left
    rw [recvfrom, hk]
    exact ⟨rfl, fun k h => nomatch h⟩
  · rcases hrx : k.rx with - | ⟨⟨src, sport, data⟩, rx⟩
    · left
      rw [recvfrom, hk]
      dsimp only
      rw [hrx]
      refine ⟨rfl, fun k' h => ?_⟩
      cases h
      exact hrx
    · right
      refine ⟨k, (src, sport, data), rx, rfl, hrx, ?_⟩
      have hcut : data.take (min len data.length) = data.take len := by
        rw [← List.take_take, List.take_length]
      rw [recvfrom, hk]
      dsimp only
      rw [hrx]
      dsimp only
      rw [hcut]
      rfl

/-- The slot that a call is about; a delivery is about all of them. -/
def Call.slot (s : Stack) : Call → Option Nat
  | .socket proto => some (Sockets.socket s proto).1
  | .bind idx _ | .connect idx _ _ | .close idx | .recvfrom idx _ => some idx
  | .deliver .. => none

/-- **A call on another slot leaves a socket as it is.** -/
theorem callStep_other {s s' : Stack} {c : Call} {es : List Event} {i j : Nat}
    (h : callStep s c = some (s', es)) (hj : c.slot s = some j) (hne : j ≠ i) :
    Slots.get s'.sockets i = Slots.get s.sockets i := by
  cases c with
  | socket proto =>
    cases h
    cases hj
    rw [get_socket, if_neg (Ne.symm hne)]
  | bind idx port =>
    cases h
    cases hj
    rw [bind, get_change, if_neg hne]
  | connect idx ip port =>
    cases h
    cases hj
    rw [connect, get_change, if_neg hne]
  | close idx =>
    cases h
    cases hj
    rw [get_close, if_neg hne]
  | deliver dport src sport data => cases hj
  | recvfrom idx len =>
    cases h
    cases hj
    rcases recvfrom_cases s j len with ⟨he, -⟩ | ⟨k, d, rx, -, -, he⟩
    · rw [he]
    · rw [he]
      dsimp only
      rw [Slots.get_update, if_neg hne]

/-! ## 4. Runs -/

/-- Every socket created in the history holds what its life says. -/
def Tracked (es : List Event) (s : Stack) : Prop :=
  ∀ i l, life i es = some l → ∃ k, Slots.get s.sockets i = some k ∧ Tracks l k

section Changes

variable {es : List Event} {s : Stack} {i : Nat} {l : Life}

/-- `bind` and `connect`: the socket and its life change in the same way. -/
theorem tracked_change (hI : Tracked es s) {idx : Nat} {f : Socket → Socket} {g : Life → Life}
    (hfg : ∀ l k, Tracks l k → Tracks (g l) (f k))
    (h : (if idx = i then (life i es).map g else life i es) = some l) :
    ∃ k, Slots.get (change s idx f).2.sockets i = some k ∧ Tracks l k := by
  rw [get_change]
  split at h
  · rename_i hi
    obtain ⟨l₀, hl₀, rfl⟩ := Option.map_eq_some_iff.mp h
    obtain ⟨k, hk, ht⟩ := hI i l₀ hl₀
    refine ⟨f k, ?_, hfg l₀ k ht⟩
    rw [if_pos hi, hk]
    rfl
  · rename_i hi
    rw [if_neg hi]
    exact hI i l h

theorem tracked_recvfrom (hI : Tracked es s) {idx len : Nat}
    (h : life i (es ++ [.received idx len (recvfrom s idx len).1]) = some l) :
    ∃ k, Slots.get (recvfrom s idx len).2.sockets i = some k ∧ Tracks l k := by
  rw [life_snoc] at h
  rcases recvfrom_cases s idx len with ⟨he, -⟩ | ⟨k, d, rx, hk, hrx, he⟩
  · rw [he] at h ⊢
    exact hI i l h
  · rw [he] at h ⊢
    dsimp only at h ⊢
    rw [Slots.get_update]
    rw [Life.follow] at h
    split at h
    · rename_i hi
      subst hi
      obtain ⟨l₀, hl₀, rfl⟩ := Option.map_eq_some_iff.mp h
      obtain ⟨k', hk', ht⟩ := hI idx l₀ hl₀
      rw [hk] at hk'
      cases hk'
      refine ⟨{ k with rx }, ?_, ht.receive len hrx⟩
      rw [if_pos rfl, hk]
      rfl
    · rename_i hi
      rw [if_neg hi]
      exact hI i l h

end Changes

/-- One call: what it did to the table is what its event does to the lives. -/
theorem callStep_tracked {es es' : List Event} {s s' : Stack} {c : Call} (hI : Tracked es s)
    (h : callStep s c = some (s', es')) : Tracked (es ++ es') s' := by
  intro i l hl
  cases c with
  | socket proto =>
    cases h
    rw [life_snoc, Life.follow] at hl
    rw [get_socket]
    split at hl
    · rename_i hi
      cases hl
      exact ⟨_, if_pos hi.symm, tracks_fresh proto⟩
    · rename_i hi
      rw [if_neg (Ne.symm hi)]
      exact hI i l hl
  | bind idx port =>
    cases h
    rw [life_snoc] at hl
    exact tracked_change hI (g := fun l => { l with port }) (fun l k ht => { ht with port := rfl })
      hl
  | connect idx ip port =>
    cases h
    rw [life_snoc] at hl
    exact tracked_change hI (g := fun l => { l with peer := some (ip, port) })
      (fun l k ht => { ht with peer := rfl }) hl
  | close idx =>
    cases h
    rw [life_snoc, Life.follow] at hl
    rw [get_close]
    split at hl
    · cases hl
    · rename_i hi
      rw [if_neg hi]
      exact hI i l hl
  | deliver dport src sport data =>
    cases h
    rw [life_snoc, Life.follow] at hl
    obtain ⟨l₀, hl₀, rfl⟩ := Option.map_eq_some_iff.mp hl
    obtain ⟨k, hk, ht⟩ := hI i l₀ hl₀
    refine ⟨_, ?_, ht.deliver dport (src, sport, data)⟩
    rw [get_deliver, hk]
    rfl
  | recvfrom idx len =>
    cases h
    exact tracked_recvfrom hI hl

theorem run_tracks {s₀ s : Stack} {es : List Event} (h : Run callStep anyStep s₀ es s) :
    Tracked es s :=
  h.invariant_events (I := Tracked) (fun _ _ hl => nomatch hl) fun _ _ _ _ _ hI _ hs =>
    callStep_tracked hI hs

end Sockets

open Sockets

/-- **Datagram queues are FIFOs, one per socket.** After any run of calls, from any table, for every
    slot `i` whose socket was created in the run: the datagrams returned by `recvfrom` are the first
    of those that were due since it was created, in order, each cut to its buffer; the rest are
    queued, in order; its port and its peer are those of its own calls, and `recvfrom` answers
    `None` only when everything due was returned. A call on another slot leaves the socket as it
    is, and a slot that is taken, for the first time or again, starts with nothing. -/
theorem queues_fifo {s₀ s : Stack} {es : List Event} (h : Run callStep anyStep s₀ es s) :
    (∀ i l, life i es = some l →
      l.returned = List.zipWith cut l.buffers (l.due.take l.returned.length) ∧
      l.returned.length ≤ l.due.length ∧
      (∃ k, Slots.get s.sockets i = some k ∧ k.proto = l.proto ∧ k.localPort = l.port ∧
        k.peer = l.peer ∧ k.rx = l.due.drop l.returned.length) ∧
      ∀ len, (recvfrom s i len).1 = none → l.returned.length = l.due.length) ∧
    (∀ i j c s' es', callStep s c = some (s', es') → c.slot s = some j → j ≠ i →
      Slots.get s'.sockets i = Slots.get s.sockets i) ∧
    ∀ proto, Slots.get (socket s proto).2.sockets (socket s proto).1 = some (unbound proto) := by
  refine ⟨fun i l hl => ?_, fun i j c s' es' hs hj hne => callStep_other hs hj hne, fun proto => ?_⟩
  · obtain ⟨k, hk, ht⟩ := run_tracks h i l hl
    refine ⟨ht.cuts, ht.le, ⟨k, hk, ht.proto, ht.port, ht.peer, ht.queue⟩, fun len hnone => ?_⟩
    rcases recvfrom_cases s i len with ⟨-, hempty⟩ | ⟨k', d, rx, -, -, he⟩
    · have hdrop := ht.queue.symm.trans (hempty k hk)
      exact Nat.le_antisymm ht.le (List.drop_eq_nil_iff.mp hdrop)
    · rw [he] at hnone
      cases hnone
  · rw [get_socket, if_pos rfl]

/-- A socket is bound after one datagram has gone by, and receives the next into a short buffer. -/
theorem queues_fifo_rebound :
    ∃ s es l, Run callStep anyStep emptyStack es s ∧ life 0 es = some l ∧
      l.due = [(gateway, 7#16, [1#8, 2#8, 3#8])] ∧ l.returned = [([1#8, 2#8], gateway, 7#16)] ∧
      l.returned = List.zipWith cut l.buffers (l.due.take l.returned.length) := by
  have hrun := @run_of_exec _ _ _ callStep (fun _ _ => true)
    [.socket Ip.protoUdp, .deliver 9#16 gateway 7#16 [0#8], .bind 0 9#16,
      .deliver 9#16 gateway 7#16 [1#8, 2#8, 3#8], .recvfrom 0 2] emptyStack _ _ rfl
  exact ⟨_, _, _, hrun.any, rfl, rfl, rfl, ((queues_fifo hrun.any).1 0 _ rfl).1⟩

end SimpleLinux.Net
