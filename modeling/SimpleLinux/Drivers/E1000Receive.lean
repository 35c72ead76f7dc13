/-
  File:      SimpleLinux/Drivers/E1000Receive.lean
  Subject:   The receive side of the e1000 driver, against the device: drivers/e1000.rs.

  The device owns the descriptors from RDH up to RDT. When a frame arrives and RDH is not RDT, it
  writes the frame to the buffer of the descriptor at RDH, sets the length and the DD bit and moves
  RDH on; otherwise the frame is dropped. `poll_receive` looks at the descriptor at its own cursor:
  with DD set it copies the frame out, clears the descriptor and hands it back as the new RDT.

  * `allocPages`, `configure` -- the buffers are eight different frames of the allocator;
  * `pollReceive`, `deviceReceive`, `step` -- driver and device, interleaved in any way;
  * `Owned` -- the invariant: RDT is one behind the cursor; the descriptors from the cursor up to
    RDH hold, in order, the frames that were accepted and not yet returned; the others are clear;
  * `receive_in_order` -- so the frames come back in order, once, as they arrived.
-/
import SimpleLinux.Drivers.E1000
import SimpleLinux.Lib.Paging
import SimpleLinux.Memory.Pmm

namespace SimpleLinux.E1000.Rx

open Rust Runs Paging
open Net (Byte Bytes)
open Pmm (BitmapFrameAllocator PhysFrame)

/-! ## 1. Buffers -/

def numRx : Nat := 8

instance : NeZero numRx := ⟨by decide⟩

/-- Calls of `alloc_page`, one after the other. -/
def allocPages : Nat → BitmapFrameAllocator → Exec (List PhysFrame × BitmapFrameAllocator)
  | 0, a => .ok ([], a)
  | n + 1, a => do
    match ← Paging.lift a.allocFrame with
    | (some p, a') =>
      let (ps, a'') ← allocPages n a'
      return (p :: ps, a'')
    | (none, _) => .error (.expect "out of frames")

/-- The receive buffers: as many frames as there are descriptors, no two of them the same. -/
structure Buffers where
  frames : Vector PhysFrame numRx
  distinct : frames.toList.Nodup

/-- The first of the frames, and the others. -/
theorem allocPages_succ {n : Nat} {a a' : BitmapFrameAllocator} {ps : List PhysFrame}
    (h : allocPages (n + 1) a = .ok (ps, a')) :
    ∃ p a₁ ps', p.number ∈ a.freeSet ∧ a₁.freeSet = a.freeSet.erase p.number ∧
      allocPages n a₁ = .ok (ps', a') ∧ ps = p :: ps' := by
  rw [allocPages] at h
  rcases a.allocFrame_spec with ⟨-, he⟩ | ⟨p, a₁, he, hp, hfree, -⟩
  · rw [he] at h
    cases h
  · rw [he, Paging.lift_ok, exec_ok_bind] at h
    dsimp only at h
    obtain ⟨⟨ps', a₂⟩, hps, h⟩ := bind_eq_ok.mp h
    cases h
    exact ⟨p, a₁, ps', hp, hfree, hps, rfl⟩

/-- Frames that the allocator hands out one after the other are different. -/
theorem allocPages_spec {n : Nat} {a a' : BitmapFrameAllocator} {ps : List PhysFrame}
    (h : allocPages n a = .ok (ps, a')) :
    ps.length = n ∧ ps.Nodup ∧ ∀ p ∈ ps, p.number ∈ a.freeSet := by
  induction n generalizing a ps with
  | zero =>
    cases h
    exact ⟨rfl, List.nodup_nil, fun p hp => nomatch hp⟩
  | succ n ih =>
    obtain ⟨p, a₁, ps', hp, hfree, hps, rfl⟩ := allocPages_succ h
    obtain ⟨hlen, hnodup, hmem⟩ := ih hps
    have hsub (q : PhysFrame) (hq : q ∈ ps') : q.number ∈ a.freeSet.erase p.number := by
      rw [← hfree]
      exact hmem q hq
    refine ⟨by rw [List.length_cons, hlen], List.nodup_cons.mpr ⟨fun hin => ?_, hnodup⟩, ?_⟩
    · exact Finset.notMem_erase _ _ (hsub p hin)
    · intro q hq
      rcases List.mem_cons.mp hq with rfl | hq
      · exact hp
      · exact Finset.mem_of_mem_erase (hsub q hq)

/-- With enough frames the allocator does not run out. -/
theorem allocPages_ok {n : Nat} {a : BitmapFrameAllocator} (h : n ≤ a.freeSet.card) :
    ∃ r, allocPages n a = .ok r := by
  induction n generalizing a with
  | zero => exact ⟨_, rfl⟩
  | succ n ih =>
    rcases a.allocFrame_spec with ⟨hempty, -⟩ | ⟨p, a₁, he, hp, hfree, -⟩
    · rw [hempty, Finset.card_empty] at h
      omega
    · have hcard : n ≤ a₁.freeSet.card := by
        rw [hfree, Finset.card_erase_of_mem hp]
        omega
      obtain ⟨⟨ps, a₂⟩, hps⟩ := ih hcard
      refine ⟨(p :: ps, a₂), ?_⟩
      rw [allocPages, he, Paging.lift_ok, exec_ok_bind]
      dsimp only
      rw [hps]
      rfl

/-- The pages of `build_nic`: two rings, the receive buffers, the transmit buffer. -/
def buildBuffers (a : BitmapFrameAllocator) : Exec Buffers :=
  match h : allocPages (2 + numRx + 1) a with
  | .ok (ps, _) => .ok
    { frames := ⟨⟨(ps.drop 2).take numRx⟩, by
        obtain ⟨hlen, -, -⟩ := allocPages_spec h
        simp [hlen]⟩
      distinct := (allocPages_spec h).2.1.sublist
        ((List.take_sublist ..).trans (List.drop_sublist ..)) }
  | .error e => .error e

/-- All frames free are enough. -/
theorem allFree_enough : 11 ≤ BitmapFrameAllocator.allFree.freeSet.card := by
  rw [BitmapFrameAllocator.freeSet_allFree, Finset.card_range, Pmm.numFrames_eq]
  decide

theorem buildBuffers_ok {a : BitmapFrameAllocator} (h : 11 ≤ a.freeSet.card) :
    ∃ b, buildBuffers a = .ok b := by
  obtain ⟨⟨ps, a'⟩, hps⟩ := allocPages_ok (n := 2 + numRx + 1) h
  unfold buildBuffers
  split
  · exact ⟨_, rfl⟩
  · rename_i e he
    rw [hps] at he
    cases he

namespace Buffers

variable (b : Buffers)

/-- The address of the buffer of descriptor `i`. -/
def addr (i : Nat) : Nat := (Ring.slot b.frames i).start

/-- Two buffers lie at least a page apart. -/
theorem apart {i j : Nat} (h : i % numRx ≠ j % numRx) :
    b.addr i + 4096 ≤ b.addr j ∨ b.addr j + 4096 ≤ b.addr i := by
  have hlen (k : Nat) : k % numRx < b.frames.toList.length := by
    rw [Vector.length_toList]
    exact Nat.mod_lt _ (by decide)
  have hne : Ring.slot b.frames i ≠ Ring.slot b.frames j := fun he =>
    h ((@List.Nodup.getElem_inj_iff _ _ b.distinct _ (hlen i) _ (hlen j)).mp he)
  have hnumber : (Ring.slot b.frames i).number ≠ (Ring.slot b.frames j).number :=
    fun he => hne (PhysFrame.ext_number he)
  unfold addr
  rw [PhysFrame.start_eq, PhysFrame.start_eq]
  have hpage : Pmm.pageSize = 4096 := rfl
  rw [hpage]
  omega

end Buffers

/-! ## 2. Driver and device -/

/-- The DD bit. -/
def descDd : Byte := 0x01#8

/-- What the driver keeps for receiving. -/
structure Nic where
  rxBufs : Buffers
  rxCursor : Nat

structure Machine where
  nic : Option Nic
  rxRing : Vector Desc numRx
  /-- physical memory, less the ring pages -/
  mem : Nat → Byte
  rdh : Nat
  rdt : Nat

/-- A descriptor that the device may use. -/
def Desc.clear (addr : Nat) : Desc := ⟨addr, 0#16, 0#8, 0#8, 0#8, 0#8, 0#16⟩

/-- `build_nic` and the receive part of `configure`. -/
def configure (a : BitmapFrameAllocator) (mem : Nat → Byte) : Exec Machine := do
  let rxBufs ← buildBuffers a
  return {
    nic := some { rxBufs, rxCursor := 0 }
    rxRing := Vector.ofFn fun i => Desc.clear (rxBufs.addr i)
    mem
    rdh := 0
    rdt := numRx - 1 }

/-- `e1000::poll_receive`. -/
def pollReceive (m : Machine) : Res (Option Bytes × Machine) :=
  match m.nic with
  | none => .ok (none, m)
  | some nic =>
    let idx := nic.rxCursor % numRx
    let d := Ring.slot m.rxRing idx
    if d.status &&& descDd = 0#8 ∨ d.length = 0#16 then .ok (none, m)
    else do
      let out := Store.load m.mem (nic.rxBufs.addr idx) d.length.toNat
      let rxCursor ← add 64 nic.rxCursor 1
      return (some out, { m with
        nic := some { nic with rxCursor }
        rxRing := Ring.put m.rxRing idx (Desc.clear (nic.rxBufs.addr idx))
        rdt := idx })

/-- The descriptor after the device has used it: the length, the DD bit, and whatever it writes to
    the other fields. -/
def Desc.filled (d : Desc) (frame : Bytes) (rest : Desc) : Desc :=
  { rest with
    addr := d.addr, length := BitVec.ofNat 16 frame.length, status := rest.status ||| descDd }

/-- The device accepts a frame that is neither empty nor too long, if it owns a descriptor. -/
def accepts (m : Machine) (frame : Bytes) : Prop :=
  m.rdh ≠ m.rdt ∧ frame ≠ [] ∧ frame.length ≤ 2048

instance (m : Machine) (frame : Bytes) : Decidable (accepts m frame) :=
  inferInstanceAs (Decidable (_ ∧ _))

def deviceReceive (m : Machine) (frame : Bytes) (rest : Desc) : Machine :=
  let d := Ring.slot m.rxRing m.rdh
  { m with
    mem := Store.copy m.mem d.addr frame
    rxRing := Ring.put m.rxRing m.rdh (Desc.filled d frame rest)
    rdh := (m.rdh + 1) % numRx }

inductive Action
  | poll
  | arrive (frame : Bytes) (rest : Desc)

inductive Event
  | accepted (frame : Bytes)
  | returned (frame : Bytes)

/-- One call of `poll_receive`, or one frame on the wire. -/
def step (m : Machine) : Action → Option (Machine × List Event)
  | .poll =>
    match pollReceive m with
    | .ok (some frame, m') => some (m', [.returned frame])
    | .ok (none, m') => some (m', [])
    | .error _ => none
  | .arrive frame rest =>
    if accepts m frame then some (deviceReceive m frame rest, [.accepted frame]) else some (m, [])

/-- The frames that the device accepted, oldest first. -/
def accepted (es : List Event) : List Bytes :=
  es.filterMap fun
    | .accepted frame => some frame
    | .returned _ => none

/-- The frames that `poll_receive` returned, oldest first. -/
def returned (es : List Event) : List Bytes :=
  es.filterMap fun
    | .accepted _ => none
    | .returned frame => some frame

theorem accepted_append (es es' : List Event) :
    accepted (es ++ es') = accepted es ++ accepted es' :=
  List.filterMap_append ..

theorem returned_append (es es' : List Event) :
    returned (es ++ es') = returned es ++ returned es' :=
  List.filterMap_append ..

/-! ## 3. The invariant -/

/-- The number of descriptors from the cursor up to RDH. -/
def backlog (m : Machine) (nic : Nic) : Nat := Ring.gap numRx (nic.rxCursor % numRx) m.rdh

/-- Those descriptors, in order. -/
def filledRing (m : Machine) (nic : Nic) : List Desc :=
  Ring.window m.rxRing nic.rxCursor (backlog m nic)

/-- A descriptor with a frame in its buffer. -/
structure Done (d : Desc) : Prop where
  dd : d.status &&& descDd ≠ 0#8
  nonempty : d.length ≠ 0#16
  fits : d.length.toNat ≤ 2048

/-- **The invariant**, with the frames accepted and returned so far. -/
structure Owned (acc ret : List Bytes) (m : Machine) (nic : Nic) : Prop where
  present : m.nic = some nic
  head : m.rdh < numRx
  tail : m.rdt = (nic.rxCursor + (numRx - 1)) % numRx
  addr : ∀ i, (Ring.slot m.rxRing i).addr = nic.rxBufs.addr i
  done : ∀ d ∈ filledRing m nic, Done d
  clear : ∀ k, backlog m nic ≤ k → k < numRx →
    (Ring.slot m.rxRing (nic.rxCursor + k)).status = 0#8
  split : acc = ret ++ (filledRing m nic).map (Desc.read m.mem)

theorem addr_mod (b : Buffers) (i : Nat) : b.addr (i % numRx) = b.addr i := by
  rw [Buffers.addr, Ring.slot_mod]
  rfl

section Steps

variable {acc ret : List Bytes} {m m' : Machine} {nic : Nic}

theorem Owned.backlog_lt (_ : Owned acc ret m nic) : backlog m nic < numRx :=
  Nat.mod_lt _ (by decide)

/-- RDH is the first descriptor behind the backlog. -/
theorem Owned.head_eq (h : Owned acc ret m nic) :
    (nic.rxCursor + backlog m nic) % numRx = m.rdh := by
  have hc : nic.rxCursor % numRx < numRx := Nat.mod_lt _ (by decide)
  rw [← Ring.add_gap_mod hc h.head, Nat.mod_add_mod]
  rfl

/-- As long as RDH is not RDT, one more descriptor than the backlog is not the whole ring. -/
theorem Owned.room (h : Owned acc ret m nic) (hne : m.rdh ≠ m.rdt) : backlog m nic + 1 < numRx := by
  have hlt := h.backlog_lt
  refine Nat.lt_of_le_of_ne hlt fun he => hne ?_
  have hseven : backlog m nic = numRx - 1 := by omega
  rw [h.tail, ← h.head_eq, hseven]

/-- **The device writes to no buffer of the backlog.** -/
theorem Owned.head_free (h : Owned acc ret m nic) {k : Nat} (hk : k < backlog m nic) :
    (nic.rxCursor + k) % numRx ≠ m.rdh := by
  rw [← h.head_eq]
  exact Ring.add_mod_ne _ (Nat.lt_trans hk h.backlog_lt) h.backlog_lt (Nat.ne_of_lt hk)

theorem Owned.head_far (h : Owned acc ret m nic) {k : Nat} (hk : k < backlog m nic) :
    (nic.rxCursor + k) % numRx ≠ m.rdh % numRx := by
  rw [Nat.mod_eq_of_lt h.head]
  exact h.head_free hk

/-- The entries of the backlog, by position. -/
theorem mem_filledRing {d : Desc} :
    d ∈ filledRing m nic ↔ ∃ k < backlog m nic, d = Ring.slot m.rxRing (nic.rxCursor + k) := by
  unfold filledRing Ring.window
  rw [List.mem_map]
  constructor
  · intro h
    obtain ⟨k, hk, he⟩ := h
    exact ⟨k, List.mem_range.mp hk, he.symm⟩
  · intro h
    obtain ⟨k, hk, he⟩ := h
    exact ⟨k, List.mem_range.mpr hk, he.symm⟩

/-! ## 4. `poll_receive` -/

/-- With a backlog, the descriptor at the cursor is done. -/
theorem Owned.first (h : Owned acc ret m nic) {n : Nat} (hn : backlog m nic = n + 1) :
    ¬ ((Ring.slot m.rxRing nic.rxCursor).status &&& descDd = 0#8 ∨
      (Ring.slot m.rxRing nic.rxCursor).length = 0#16) := by
  have hdone : Done (Ring.slot m.rxRing nic.rxCursor) := by
    refine h.done _ ?_
    rw [filledRing, hn, Ring.window_succ]
    exact List.mem_cons_self
  exact fun hc => hc.elim hdone.dd hdone.nonempty

/-- Then a poll returns, as long as the cursor can be counted up. -/
theorem poll_ok (h : Owned acc ret m nic) {n : Nat} (hn : backlog m nic = n + 1)
    (hcount : nic.rxCursor + 1 < 2 ^ 64) : ∃ frame m', pollReceive m = .ok (some frame, m') := by
  unfold pollReceive
  rw [h.present]
  dsimp only
  rw [Ring.slot_mod, if_neg (h.first hn), add_of_lt hcount]
  exact ⟨_, _, rfl⟩

/-- The cursor moved on. -/
def Nic.next (nic : Nic) : Nic := { nic with rxCursor := nic.rxCursor + 1 }

/-- The machine after a poll that has taken the frame at the cursor. -/
def polled (m : Machine) (nic : Nic) : Machine :=
  { m with
    nic := some nic.next
    rxRing := Ring.put m.rxRing (nic.rxCursor % numRx) (Desc.clear (nic.rxBufs.addr nic.rxCursor))
    rdt := nic.rxCursor % numRx }

/-- With a backlog a poll returns the frame at the cursor. -/
theorem poll_eq (h : Owned acc ret m nic) {n : Nat} (hn : backlog m nic = n + 1)
    (hp : pollReceive m = .ok (out, m')) :
    out = some ((Ring.slot m.rxRing nic.rxCursor).read m.mem) ∧ m' = polled m nic := by
  unfold pollReceive at hp
  rw [h.present] at hp
  dsimp only at hp
  rw [Ring.slot_mod, if_neg (h.first hn), addr_mod] at hp
  obtain ⟨cursor, hcursor, hp⟩ := bind_eq_ok.mp hp
  obtain ⟨-, rfl⟩ := add_eq_ok.mp hcursor
  cases hp
  rw [Desc.read, h.addr]
  exact ⟨rfl, rfl⟩

/-- The backlog of the next cursor is one shorter, ... -/
theorem Owned.backlog_polled (h : Owned acc ret m nic) {n : Nat} (hn : backlog m nic = n + 1) :
    backlog (polled m nic) nic.next = n := by
  have hc : nic.rxCursor % numRx < numRx := Nat.mod_lt _ (by decide)
  have hne : nic.rxCursor % numRx ≠ m.rdh := fun he => by
    rw [backlog, he, Ring.gap_self] at hn
    cases hn
  have hsucc := Ring.gap_head_succ hc h.head hne
  rw [Nat.mod_add_mod] at hsucc
  unfold backlog at hn
  unfold backlog polled Nic.next
  dsimp only
  omega

/-- ... and the cleared descriptor is not part of it. -/
theorem Owned.filled_polled (h : Owned acc ret m nic) {n : Nat} (hn : backlog m nic = n + 1) :
    filledRing (polled m nic) nic.next = Ring.window m.rxRing (nic.rxCursor + 1) n := by
  have hlt := h.backlog_lt
  rw [filledRing, h.backlog_polled hn]
  refine Ring.window_put_outside _ _ fun k hk => ?_
  rw [Nat.mod_mod, Nic.next, Nat.add_assoc]
  have h0 := Ring.add_mod_ne nic.rxCursor (n := numRx) (i := 0) (j := 1 + k) (by decide)
    (by omega) (by omega)
  rwa [Nat.add_zero] at h0

/-- The descriptor behind the last one of the ring is the cleared one. -/
theorem wrap_next (cursor : Nat) : cursor + 1 + (numRx - 1) = cursor + numRx := by
  have h8 : numRx = 8 := rfl
  omega

theorem Owned.polled (h : Owned acc ret m nic) {n : Nat} (hn : backlog m nic = n + 1) :
    Owned acc (ret ++ [(Ring.slot m.rxRing nic.rxCursor).read m.mem]) (polled m nic) nic.next := by
  have hfirst : filledRing m nic = Ring.slot m.rxRing nic.rxCursor ::
      Ring.window m.rxRing (nic.rxCursor + 1) n := by
    rw [filledRing, hn, Ring.window_succ]
  refine ⟨rfl, h.head, ?_, fun i => ?_, fun d hd => ?_, fun k hk hk8 => ?_, ?_⟩
  · rw [Nic.next, wrap_next, Nat.add_mod_right]
    rfl
  · rw [Rx.polled, Ring.slot_put]
    split
    · rename_i hi
      rw [Nat.mod_mod] at hi
      rw [← addr_mod _ i, ← hi, addr_mod]
      rfl
    · exact h.addr i
  · rw [h.filled_polled hn] at hd
    exact h.done d (by rw [hfirst]; exact List.mem_cons_of_mem _ hd)
  · rw [h.backlog_polled hn] at hk
    rw [Rx.polled, Nic.next, Ring.slot_put, Nat.mod_mod]
    split
    · rfl
    · rename_i hi
      have hk7 : k + 1 < numRx := by
        refine Nat.lt_of_le_of_ne hk8 fun he => hi ?_
        rw [show k = numRx - 1 by omega, wrap_next, Nat.add_mod_right]
      have hold := h.clear (k + 1) (by omega) hk7
      rwa [← Nat.add_assoc, Nat.add_right_comm] at hold
  · rw [h.split, hfirst, h.filled_polled hn, List.map_cons, List.append_assoc]
    rfl

/-- Without one: nothing. -/
theorem poll_none (h : Owned acc ret m nic) (hn : backlog m nic = 0) :
    pollReceive m = .ok (none, m) := by
  have hclear := h.clear 0 (Nat.le_of_eq hn) (by decide)
  rw [Nat.add_zero] at hclear
  unfold pollReceive
  rw [h.present]
  dsimp only
  rw [Ring.slot_mod, hclear]
  exact if_pos (.inl (by decide))

section Pending

variable (h : Owned acc ret m nic) {frame : Bytes} {pending : List Bytes}
include h

/-- The backlog is the frames accepted and not yet returned. -/
theorem Owned.pending_eq (hp : acc = ret ++ pending) :
    (filledRing m nic).map (Desc.read m.mem) = pending :=
  List.append_cancel_left (h.split.symm.trans hp)

theorem Owned.backlog_eq (hp : acc = ret ++ pending) : backlog m nic = pending.length := by
  rw [← h.pending_eq hp, List.length_map, filledRing, Ring.length_window]

/-- The oldest of them is what a poll returns, as long as the cursor can be counted up. -/
theorem Owned.poll_returns (hp : acc = ret ++ frame :: pending)
    (hcount : nic.rxCursor + 1 < 2 ^ 64) : ∃ m', pollReceive m = .ok (some frame, m') := by
  have hn : backlog m nic = pending.length + 1 := h.backlog_eq hp
  obtain ⟨out, m', hpoll⟩ := poll_ok h hn hcount
  obtain ⟨hout, -⟩ := poll_eq h hn hpoll
  have hfirst := h.pending_eq hp
  rw [filledRing, hn, Ring.window_succ, List.map_cons] at hfirst
  exact ⟨m', by rw [hpoll, hout, (List.cons.inj hfirst).1]⟩

/-- The device has a descriptor for one more frame while there are fewer than seven. -/
theorem Owned.accepts_of_room (hp : acc = ret ++ pending) (hroom : pending.length + 1 < numRx)
    (hne : frame ≠ []) (hle : frame.length ≤ 2048) : accepts m frame := by
  refine ⟨?_, hne, hle⟩
  rw [← h.head_eq, h.tail, h.backlog_eq hp]
  exact Ring.add_mod_ne _ (by omega) (by decide) (by omega)

end Pending

/-! ## 5. The device -/

theorem read_filled (mem : Nat → Byte) (d rest : Desc) {frame : Bytes} (h : frame.length ≤ 2048) :
    Desc.read (Store.copy mem d.addr frame) (Desc.filled d frame rest) = frame := by
  have hlen : (BitVec.ofNat 16 frame.length).toNat = frame.length := by
    rw [BitVec.toNat_ofNat]
    omega
  unfold Desc.read Desc.filled
  dsimp only
  rw [hlen, Store.load_copy]

theorem done_filled (d rest : Desc) {frame : Bytes} (hne : frame ≠ []) (h : frame.length ≤ 2048) :
    Done (Desc.filled d frame rest) := by
  have hpos : 0 < frame.length := List.length_pos_iff.mpr hne
  have hlen : (BitVec.ofNat 16 frame.length).toNat = frame.length := by
    rw [BitVec.toNat_ofNat]
    omega
  refine ⟨fun hz => ?_, fun hz => ?_, Nat.le_trans (Nat.le_of_eq hlen) h⟩
  · have hand : (rest.status ||| descDd) &&& descDd = descDd := by
      ext i
      simpa using fun hbit => .inr hbit
    exact absurd (hand.symm.trans hz) (by decide)
  · have hz' : BitVec.ofNat 16 frame.length = 0#16 := hz
    rw [hz'] at hlen
    exact absurd hlen (Nat.ne_of_lt hpos)

section Receive

variable (h : Owned acc ret m nic) {frame : Bytes} (rest : Desc) (ha : accepts m frame)

include h ha

theorem Owned.backlog_receive : backlog (deviceReceive m frame rest) nic = backlog m nic + 1 := by
  have hc : nic.rxCursor % numRx < numRx := Nat.mod_lt _ (by decide)
  have hmore : Ring.gap numRx (nic.rxCursor % numRx) m.rdh + 1 < numRx := h.room ha.1
  unfold backlog deviceReceive
  dsimp only
  rw [Ring.gap_tail_succ hc h.head, if_pos hmore]

/-- The frame goes behind the backlog. -/
theorem Owned.filled_receive : filledRing (deviceReceive m frame rest) nic = filledRing m nic ++
    [Desc.filled (Ring.slot m.rxRing m.rdh) frame rest] := by
  have hring (x : Desc) : Ring.put m.rxRing m.rdh x =
      Ring.put m.rxRing (nic.rxCursor + backlog m nic) x := by
    unfold Ring.put
    simp only [h.head_eq, Nat.mod_eq_of_lt h.head]
  rw [filledRing, h.backlog_receive rest ha]
  unfold deviceReceive
  dsimp only
  rw [hring, Ring.window_put _ h.backlog_lt]
  rfl

/-- Every buffer of the backlog stays as it is: it lies in another page. -/
theorem Owned.read_receive (d : Desc) (hd : d ∈ filledRing m nic) :
    d.read (deviceReceive m frame rest).mem = d.read m.mem := by
  have hlen := ha.2.2
  obtain ⟨k, hk, rfl⟩ := mem_filledRing.mp hd
  have hfits := (h.done _ hd).fits
  have hpages := nic.rxBufs.apart (h.head_far hk)
  unfold deviceReceive
  dsimp only
  rw [Desc.read, Desc.read, h.addr, h.addr]
  exact Store.load_copy_apart (by omega)

theorem Owned.receive : Owned (acc ++ [frame]) ret (deviceReceive m frame rest) nic := by
  refine ⟨h.present, Nat.mod_lt _ (by decide), h.tail, fun i => ?_, fun d hd => ?_,
    fun k hk hk8 => ?_, ?_⟩
  · unfold deviceReceive
    dsimp only
    rw [Ring.slot_put]
    split
    · rename_i hi
      have haddr : (Desc.filled (Ring.slot m.rxRing m.rdh) frame rest).addr =
          nic.rxBufs.addr m.rdh := h.addr m.rdh
      rw [haddr, ← addr_mod, hi, addr_mod]
    · exact h.addr i
  · rw [h.filled_receive rest ha] at hd
    rcases List.mem_append.mp hd with hd | hd
    · exact h.done d hd
    · rw [List.mem_singleton.mp hd]
      exact done_filled _ rest ha.2.1 ha.2.2
  · rw [h.backlog_receive rest ha] at hk
    unfold deviceReceive
    dsimp only
    have hfar : m.rdh % numRx ≠ (nic.rxCursor + k) % numRx := by
      rw [Nat.mod_eq_of_lt h.head, ← h.head_eq]
      exact Ring.add_mod_ne _ h.backlog_lt hk8 (by omega)
    rw [Ring.slot_put, if_neg hfar]
    exact h.clear k (by omega) hk8
  · have hnew : (Desc.filled (Ring.slot m.rxRing m.rdh) frame rest).read
        (deviceReceive m frame rest).mem = frame := read_filled m.mem _ rest ha.2.2
    rw [h.filled_receive rest ha, List.map_append, List.map_congr_left (h.read_receive rest ha),
      List.map_singleton, hnew, ← List.append_assoc, ← h.split]

end Receive

end Steps

/-! ## 6. Runs -/

theorem configure_ok {a : BitmapFrameAllocator} (h : 11 ≤ a.freeSet.card) (mem : Nat → Byte) :
    ∃ m, configure a mem = .ok m := by
  obtain ⟨bufs, hbufs⟩ := buildBuffers_ok h
  rw [configure, hbufs]
  exact ⟨_, rfl⟩

theorem configure_cursor {a : BitmapFrameAllocator} {mem : Nat → Byte} {m : Machine}
    (h : configure a mem = .ok m) : ∃ nic, m.nic = some nic ∧ nic.rxCursor = 0 := by
  obtain ⟨bufs, -, h⟩ := bind_eq_ok.mp h
  cases h
  exact ⟨_, rfl, rfl⟩

theorem Owned.configure {a : BitmapFrameAllocator} {mem : Nat → Byte} {m : Machine}
    (h : configure a mem = .ok m) : ∃ nic, Owned [] [] m nic := by
  obtain ⟨bufs, -, he⟩ := bind_eq_ok.mp h
  cases he
  have hslot (i : Nat) : Ring.slot (Vector.ofFn fun j : Fin numRx => Desc.clear (bufs.addr j)) i =
      Desc.clear (bufs.addr i) := by
    unfold Ring.slot
    rw [Fin.getElem_fin, Vector.getElem_ofFn]
    exact congrArg Desc.clear (addr_mod bufs i)
  refine ⟨{ rxBufs := bufs, rxCursor := 0 }, rfl, (by decide : 0 < numRx), rfl, fun i => ?_,
    fun d hd => ?_, fun k _ _ => ?_, ?_⟩
  · rw [hslot]
    rfl
  · rw [filledRing, backlog, Nat.zero_mod, Ring.gap_self] at hd
    cases hd
  · rw [hslot]
    rfl
  · rw [filledRing, backlog, Nat.zero_mod, Ring.gap_self]
    rfl

/-- One step, with what it accepted and returned. -/
theorem Owned.step {es es' : List Event} {m m' : Machine} {nic : Nic} {a : Action}
    (h : Owned (accepted es) (returned es) m nic) (hs : Rx.step m a = some (m', es')) :
    ∃ nic', Owned (accepted (es ++ es')) (returned (es ++ es')) m' nic' := by
  rw [accepted_append, returned_append]
  rcases a with - | ⟨frame, rest⟩
  · rw [Rx.step] at hs
    rcases hn : backlog m nic with - | n
    · rw [poll_none h hn] at hs
      cases hs
      exact ⟨nic, by rwa [show accepted [] = [] from rfl, show returned [] = [] from rfl,
        List.append_nil, List.append_nil]⟩
    · rcases hp : pollReceive m with e | ⟨out, m₁⟩
      · rw [hp] at hs
        cases hs
      · obtain ⟨rfl, rfl⟩ := poll_eq h hn hp
        rw [hp] at hs
        cases hs
        refine ⟨nic.next, ?_⟩
        rw [show accepted [.returned _] = [] from rfl, List.append_nil]
        exact h.polled hn
  · rw [Rx.step] at hs
    split at hs
    · rename_i ha
      cases hs
      exact ⟨nic, by
        rw [show returned [.accepted frame] = [] from rfl, List.append_nil]
        exact h.receive rest ha⟩
    · cases hs
      exact ⟨nic, by rwa [show accepted [] = [] from rfl, show returned [] = [] from rfl,
        List.append_nil, List.append_nil]⟩

theorem Owned.run {a : BitmapFrameAllocator} {mem : Nat → Byte} {m₀ m : Machine} {es : List Event}
    (h0 : Rx.configure a mem = .ok m₀) (h : Run Rx.step anyStep m₀ es m) :
    ∃ nic, Owned (accepted es) (returned es) m nic :=
  h.invariant_events (I := fun es m => ∃ nic, Owned (accepted es) (returned es) m nic)
    (Owned.configure h0) fun _ _ _ _ _ hI _ hs => by
      obtain ⟨nic, hI⟩ := hI
      exact hI.step hs

/-- **The receive ring delivers.** From any allocator and any memory that `configure` succeeds with,
    after any run of arrivals and polls, with the driver's cursor at `c` and `n` frames accepted and
    not yet returned: what was returned is a beginning of what was accepted; the other frames lie,
    in order and unmodified, in the buffers of the `n` descriptors from `c` on; if the device may
    write, it writes to none of these; and `poll_receive` returns `None` only if `n` is zero. -/
theorem receive_in_order {a : BitmapFrameAllocator} {mem : Nat → Byte} {m₀ m : Machine}
    {es : List Event} (h0 : configure a mem = .ok m₀) (h : Run step anyStep m₀ es m) :
    returned es <+: accepted es ∧
      ∃ nic n, m.nic = some nic ∧ (accepted es).length = (returned es).length + n ∧
        (∀ k < n, (accepted es)[(returned es).length + k]? =
          some (Store.load m.mem (nic.rxBufs.addr (nic.rxCursor + k))
            (Ring.slot m.rxRing (nic.rxCursor + k)).length.toNat)) ∧
        (m.rdh ≠ m.rdt → ∀ k < n, (nic.rxCursor + k) % numRx ≠ m.rdh ∧
          (nic.rxBufs.addr (nic.rxCursor + k) + 4096 ≤ nic.rxBufs.addr m.rdh ∨
            nic.rxBufs.addr m.rdh + 4096 ≤ nic.rxBufs.addr (nic.rxCursor + k)) ∧
          (Ring.slot m.rxRing (nic.rxCursor + k)).length.toNat ≤ 2048) ∧
        ∀ m', pollReceive m = .ok (none, m') → n = 0 := by
  obtain ⟨nic, ho⟩ := Owned.run h0 h
  refine ⟨⟨_, ho.split.symm⟩, nic, backlog m nic, ho.present, ?_, fun k hk => ?_, fun _ k hk => ?_,
    fun m' hp => ?_⟩
  · rw [ho.split, List.length_append, List.length_map, filledRing, Ring.length_window]
  · have hread : Desc.read m.mem (Ring.slot m.rxRing (nic.rxCursor + k)) =
        Store.load m.mem (nic.rxBufs.addr (nic.rxCursor + k))
          (Ring.slot m.rxRing (nic.rxCursor + k)).length.toNat := by
      rw [Desc.read, ho.addr]
    rw [ho.split, List.getElem?_append_right (Nat.le_add_right ..), Nat.add_sub_cancel_left,
      List.getElem?_map, filledRing, Ring.window, List.getElem?_map, List.getElem?_range hk,
      ← hread]
    rfl
  · exact ⟨ho.head_free hk, nic.rxBufs.apart (ho.head_far hk),
      (ho.done _ (mem_filledRing.mpr ⟨k, hk, rfl⟩)).fits⟩
  · rcases hn : backlog m nic with - | n
    · rfl
    · obtain ⟨hnone, -⟩ := poll_eq ho hn hp
      cases hnone

/-- With all frames free: two frames arrive, the first is returned and the second one stays where
    the driver looks next. -/
theorem receive_in_order_two :
    ∃ m₀ m es nic, configure .allFree (fun _ => 0#8) = .ok m₀ ∧ Run step anyStep m₀ es m ∧
      accepted es = [[1#8, 2#8], [3#8, 4#8, 5#8]] ∧ returned es = [[1#8, 2#8]] ∧
      m.nic = some nic ∧ Store.load m.mem (nic.rxBufs.addr nic.rxCursor)
        (Ring.slot m.rxRing nic.rxCursor).length.toNat = [3#8, 4#8, 5#8] := by
  obtain ⟨m₀, h0⟩ := configure_ok allFree_enough fun _ => 0#8
  obtain ⟨nic₀, howned⟩ := Owned.configure h0
  obtain ⟨nic, hnic, hzero⟩ := configure_cursor h0
  cases hnic.symm.trans howned.present
  -- both frames find a descriptor
  have hfirst : accepts m₀ [1#8, 2#8] :=
    howned.accepts_of_room rfl (by decide) (by decide) (by decide)
  have howned₁ := howned.receive .zero hfirst
  have hsecond : accepts (deviceReceive m₀ [1#8, 2#8] .zero) [3#8, 4#8, 5#8] :=
    howned₁.accepts_of_room rfl (by decide) (by decide) (by decide)
  have howned₂ := howned₁.receive .zero hsecond
  obtain ⟨m, hpoll⟩ := howned₂.poll_returns rfl (by rw [hzero]; decide)
  have hpolled : step (deviceReceive (deviceReceive m₀ [1#8, 2#8] .zero) [3#8, 4#8, 5#8] .zero)
      .poll = some (m, [.returned [1#8, 2#8]]) := by
    rw [step, hpoll]
  have hrun : Run step anyStep m₀
      [.accepted [1#8, 2#8], .accepted [3#8, 4#8, 5#8], .returned [1#8, 2#8]] m :=
    .next Action.poll (.next (Action.arrive [3#8, 4#8, 5#8] .zero)
      (.next (Action.arrive [1#8, 2#8] .zero) .start trivial (if_pos hfirst)) trivial
      (if_pos hsecond)) trivial hpolled
  obtain ⟨-, nic, n, hnic, hcount, hlie, -, -⟩ := receive_in_order h0 hrun
  have hn : n = 1 := (Nat.add_left_cancel (show 1 + 1 = 1 + n from hcount)).symm
  have hnext := hlie 0 (by rw [hn]; decide)
  exact ⟨m₀, m, _, nic, h0, hrun, rfl, rfl, hnic, (Option.some.inj hnext).symm⟩

end SimpleLinux.E1000.Rx
