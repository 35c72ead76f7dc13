/-
  File:      SimpleLinux/Drivers/E1000.lean
  Subject:   The transmit side of the e1000 driver, against the device: drivers/e1000.rs.

  `send` copies the frame to the one staging buffer, writes the descriptor at the cursor and moves
  the tail register TDT. The device, at any later time, takes the descriptor at TDH while TDH is not
  TDT: it reads the bytes at that moment, puts them on the wire and moves TDH on. `send` looks
  neither at TDH nor at the status of a descriptor.

  * `send`, `deviceTake`, `step` -- driver and device, interleaved in any way;
  * `pending` -- what the device would put on the wire from the descriptors outstanding;
  * `Sound` -- accepted = on the wire ++ pending, kept by every step that meets `roomy`;
  * `transmit_in_order` -- the runs whose sends meet `roomy`; a send that does not is lost or spoils
    another frame; `transmit_corrupts`.
-/
import SimpleLinux.Lib.Dma
import SimpleLinux.Lib.Runs
import SimpleLinux.Net.Wire

namespace SimpleLinux.E1000

open Rust Runs
open Net (Byte Bytes)

/-! ## 1. Driver and device -/

def numTx : Nat := 8

instance : NeZero numTx := ⟨by decide⟩

/-- IFCS, RS and EOP. -/
def txCmd : Byte := 0x19#8

/-- A legacy descriptor of 16 bytes. -/
structure Desc where
  addr : Nat
  length : BitVec 16
  tos : Byte
  cmd : Byte
  status : Byte
  css : Byte
  offset : BitVec 16
  deriving DecidableEq

/-- A zeroed descriptor, as in a fresh ring page. -/
def Desc.zero : Desc := ⟨0, 0#16, 0#8, 0#8, 0#8, 0#8, 0#16⟩

/-- What the driver keeps for transmitting. -/
structure Nic where
  txBufPhys : Nat
  txCursor : Nat

/-- The driver, the memory it shares with the device, and the device. -/
structure Machine where
  nic : Option Nic
  txRing : Vector Desc numTx
  /-- physical memory, less the ring page -/
  mem : Nat → Byte
  tdh : Nat
  tdt : Nat
  /-- the frames put on the wire, oldest first -/
  wire : List Bytes

/-- After `init`: no device found, or `build_nic` and `configure` done with a zeroed ring, a zeroed
    buffer at `buf` and both ring registers zero. -/
def Machine.boot (buf : Option Nat) (mem : Nat → Byte) : Machine where
  nic := buf.map fun phys => ⟨phys, 0⟩
  txRing := Vector.replicate numTx .zero
  mem := match buf with
    | some phys => Store.copy mem phys (List.replicate 4096 0#8)
    | none => mem
  tdh := 0
  tdt := 0
  wire := []

/-- The descriptor that `send` writes. -/
def Nic.desc (nic : Nic) (frame : Bytes) : Desc :=
  ⟨nic.txBufPhys, BitVec.ofNat 16 frame.length, 0#8, txCmd, 0#8, 0#8, 0#16⟩

/-- `e1000::send`; false if there is no NIC. -/
def send (m : Machine) (frame : Bytes) : Res (Bool × Machine) :=
  match m.nic with
  | none => .ok (false, m)
  | some nic => do
    let cursor ← add 64 nic.txCursor 1
    return (true, { m with
      nic := some { nic with txCursor := cursor }
      txRing := Ring.put m.txRing nic.txCursor (nic.desc frame)
      mem := Store.copy m.mem nic.txBufPhys frame
      tdt := cursor % numTx })

/-- The bytes that the device reads for a descriptor. -/
def Desc.read (mem : Nat → Byte) (d : Desc) : Bytes := Store.load mem d.addr d.length.toNat

/-- The device takes the descriptor at TDH, if it is not at TDT. -/
def deviceTake (m : Machine) : Option Machine :=
  if m.tdh = m.tdt then none
  else some { m with
    wire := m.wire ++ [(Ring.slot m.txRing m.tdh).read m.mem]
    tdh := (m.tdh + 1) % numTx }

inductive Action
  | send (frame : Bytes)
  | device

/-- One call of `send` or one step of the device; a send that returned true emits its frame. -/
def step (m : Machine) : Action → Option (Machine × List Bytes)
  | .send frame =>
    match send m frame with
    | .ok (true, m') => some (m', [frame])
    | .ok (false, m') => some (m', [])
    | .error _ => none
  | .device => (deviceTake m).map fun m' => (m', [])

/-! ## 2. What is outstanding -/

namespace Machine

variable (m : Machine)

/-- The descriptors from TDH up to TDT. -/
def outstanding : List Desc := Ring.window m.txRing m.tdh (Ring.gap numTx m.tdh m.tdt)

/-- What the device would put on the wire, if nothing were written meanwhile. -/
def pending : List Bytes := m.outstanding.map (Desc.read m.mem)

/-- **In order, unmodified, and all of them when quiet.** -/
def InOrder (accepted : List Bytes) : Prop :=
  m.wire <+: accepted ∧ (m.tdh = m.tdt → m.wire = accepted)

/-- The condition on a send: there is room for one more descriptor, and the copy to the staging
    buffer changes no byte that an outstanding descriptor still has to be sent with. -/
def roomy (m : Machine) (frame : Bytes) : Prop :=
  match m.nic with
  | none => True
  | some nic => Ring.gap numTx m.tdh m.tdt + 1 < numTx ∧
      ∀ d ∈ m.outstanding, d.read (Store.copy m.mem nic.txBufPhys frame) = d.read m.mem

end Machine

/-- Frames of up to 4096 bytes. -/
def fits (_ : Machine) : Action → Prop
  | .send frame => frame.length ≤ 4096
  | .device => True

/-- Frames of up to 4096 bytes, sent when there is room. -/
def unhurried (m : Machine) : Action → Prop
  | .send frame => frame.length ≤ 4096 ∧ m.roomy frame
  | .device => True

/-- **The invariant**: the accepted frames are those on the wire and those pending. -/
structure Sound (accepted : List Bytes) (m : Machine) : Prop where
  head : m.tdh < numTx
  tail : m.tdt < numTx
  cursor : ∀ nic, m.nic = some nic → nic.txCursor % numTx = m.tdt
  absent : m.nic = none → m.tdh = m.tdt
  split : accepted = m.wire ++ m.pending

theorem pending_nil {m : Machine} (h : m.tdh = m.tdt) : m.pending = [] := by
  unfold Machine.pending Machine.outstanding
  rw [h, Ring.gap_self]
  rfl

theorem Sound.boot (buf : Option Nat) (mem : Nat → Byte) : Sound [] (.boot buf mem) where
  head := (by decide : 0 < numTx)
  tail := (by decide : 0 < numTx)
  cursor := by
    intro nic h
    obtain ⟨phys, -, rfl⟩ := Option.map_eq_some_iff.mp h
    rfl
  absent := fun _ => rfl
  split := by
    rw [pending_nil rfl]
    rfl

/-- The invariant is enough: in order, and complete when the device is quiet. -/
theorem Sound.inOrder {accepted : List Bytes} {m : Machine} (h : Sound accepted m) :
    m.InOrder accepted := by
  refine ⟨⟨m.pending, h.split.symm⟩, fun hq => ?_⟩
  rw [h.split, pending_nil hq, List.append_nil]

/-! ## 3. One step -/

theorem read_desc (mem : Nat → Byte) (nic : Nic) {frame : Bytes} (h : frame.length ≤ 4096) :
    (nic.desc frame).read (Store.copy mem nic.txBufPhys frame) = frame := by
  have hlen : (BitVec.ofNat 16 frame.length).toNat = frame.length := by
    rw [BitVec.toNat_ofNat]
    omega
  unfold Desc.read Nic.desc
  dsimp only
  rw [hlen, Store.load_copy]

/-- What a send does to a machine with a NIC. -/
theorem send_some {m m' : Machine} {frame : Bytes} {nic : Nic} {ok : Bool} (hn : m.nic = some nic)
    (h : send m frame = .ok (ok, m')) :
    ok = true ∧ m' = { m with
      nic := some { nic with txCursor := nic.txCursor + 1 }
      txRing := Ring.put m.txRing nic.txCursor (nic.desc frame)
      mem := Store.copy m.mem nic.txBufPhys frame
      tdt := (nic.txCursor + 1) % numTx } := by
  unfold send at h
  rw [hn] at h
  dsimp only at h
  by_cases hlt : nic.txCursor + 1 < 2 ^ 64
  · rw [add_of_lt hlt] at h
    cases h
    exact ⟨rfl, rfl⟩
  · rw [add, if_neg hlt] at h
    cases h

/-- The two ways a step can go. -/
theorem step_cases {m m' : Machine} {a : Action} {es : List Bytes} (h : step m a = some (m', es)) :
    (∃ frame, a = .send frame ∧ m.nic = none ∧ m' = m ∧ es = []) ∨
    (∃ frame nic, a = .send frame ∧ m.nic = some nic ∧ send m frame = .ok (true, m') ∧
      es = [frame]) ∨
    (a = .device ∧ deviceTake m = some m' ∧ es = []) := by
  rcases a with frame | -
  · unfold step at h
    dsimp only at h
    rcases hn : m.nic with - | nic
    · have hs : send m frame = .ok (false, m) := by
        unfold send
        rw [hn]
      rw [hs] at h
      cases h
      exact .inl ⟨frame, rfl, rfl, rfl, rfl⟩
    · rcases hs : send m frame with e | ⟨ok, m₁⟩
      · rw [hs] at h
        cases h
      · obtain ⟨rfl, -⟩ := send_some hn hs
        rw [hs] at h
        cases h
        exact .inr (.inl ⟨frame, nic, rfl, rfl, hs, rfl⟩)
  · obtain ⟨m₁, hd, he⟩ := Option.map_eq_some_iff.mp h
    cases he
    exact .inr (.inr ⟨rfl, hd, rfl⟩)

section Send

variable {accepted : List Bytes} {m m' : Machine} {frame : Bytes} {nic : Nic}

/-- The descriptors outstanding after a send that had room. -/
theorem outstanding_send (h : Sound accepted m) (hn : m.nic = some nic)
    (hs : send m frame = .ok (true, m')) (hroom : Ring.gap numTx m.tdh m.tdt + 1 < numTx) :
    m'.outstanding = m.outstanding ++ [nic.desc frame] := by
  obtain ⟨-, rfl⟩ := send_some hn hs
  have htail := h.cursor nic hn
  have hput : Ring.put m.txRing nic.txCursor (nic.desc frame) =
      Ring.put m.txRing (m.tdh + Ring.gap numTx m.tdh m.tdt) (nic.desc frame) := by
    unfold Ring.put
    simp only [htail, Ring.add_gap_mod h.head h.tail]
  have hsucc : (nic.txCursor + 1) % numTx = (m.tdt + 1) % numTx := by
    rw [← htail, Nat.mod_add_mod]
  unfold Machine.outstanding
  dsimp only
  rw [hsucc, Ring.gap_tail_succ h.head h.tail, if_pos hroom, hput, Ring.window_put _ (by omega)]

theorem Sound.send (h : Sound accepted m) (hn : m.nic = some nic)
    (hs : send m frame = .ok (true, m')) (hlen : frame.length ≤ 4096) (hroom : m.roomy frame) :
    Sound (accepted ++ [frame]) m' := by
  unfold Machine.roomy at hroom
  rw [hn] at hroom
  obtain ⟨hgap, hkeep⟩ := hroom
  have hout := outstanding_send h hn hs hgap
  obtain ⟨-, rfl⟩ := send_some hn hs
  refine ⟨h.head, Nat.mod_lt _ (by decide), ?_, fun he => (Option.some_ne_none _ he).elim, ?_⟩
  · intro nic' hn'
    cases hn'
    rfl
  · -- the frames pending keep their bytes, and the new descriptor reads the new frame
    unfold Machine.pending
    rw [hout, List.map_append, List.map_singleton, List.map_congr_left hkeep,
      read_desc m.mem nic hlen, ← List.append_assoc]
    exact congrArg (· ++ [frame]) h.split

end Send

/-- What the device does when it takes a descriptor. -/
theorem deviceTake_some {m m' : Machine} (h : deviceTake m = some m') :
    m.tdh ≠ m.tdt ∧ m' = { m with
      wire := m.wire ++ [(Ring.slot m.txRing m.tdh).read m.mem]
      tdh := (m.tdh + 1) % numTx } := by
  rw [deviceTake] at h
  split at h
  · cases h
  · cases h
    exact ⟨‹_›, rfl⟩

/-- The device puts the first pending frame on the wire, and only that. -/
theorem deviceTake_spec {m : Machine} (hh : m.tdh < numTx) (ht : m.tdt < numTx)
    (hne : m.tdh ≠ m.tdt) :
    ∃ m', deviceTake m = some m' ∧ m'.wire ++ m'.pending = m.wire ++ m.pending ∧
      m'.nic = m.nic ∧ m'.tdh < numTx ∧ m'.tdt = m.tdt ∧
      Ring.gap numTx m'.tdh m'.tdt + 1 = Ring.gap numTx m.tdh m.tdt := by
  have hgap := Ring.gap_head_succ hh ht hne
  have hfirst : m.pending = (Ring.slot m.txRing m.tdh).read m.mem ::
      (Ring.window m.txRing (m.tdh + 1) (Ring.gap numTx ((m.tdh + 1) % numTx) m.tdt)).map
        (Desc.read m.mem) := by
    unfold Machine.pending Machine.outstanding
    rw [← hgap, Ring.window_succ, List.map_cons]
  refine ⟨_, if_neg hne, ?_, rfl, Nat.mod_lt _ (by decide), rfl, hgap⟩
  rw [hfirst]
  unfold Machine.pending Machine.outstanding
  dsimp only
  rw [Ring.window_mod, List.append_assoc]
  rfl

theorem Sound.device {accepted : List Bytes} {m m' : Machine} (h : Sound accepted m)
    (hd : deviceTake m = some m') : Sound accepted m' := by
  obtain ⟨hne, -⟩ := deviceTake_some hd
  obtain ⟨m₁, h₁, hall, hnic, hh, ht, -⟩ := deviceTake_spec h.head h.tail hne
  cases hd.symm.trans h₁
  refine ⟨hh, ht ▸ h.tail, ?_, fun hn => absurd (h.absent (hnic ▸ hn)) hne, h.split.trans hall.symm⟩
  rw [hnic, ht]
  exact h.cursor

theorem Sound.step {accepted es : List Bytes} {m m' : Machine} {a : Action} (h : Sound accepted m)
    (hok : unhurried m a) (hs : step m a = some (m', es)) : Sound (accepted ++ es) m' := by
  rcases step_cases hs with ⟨frame, rfl, -, rfl, rfl⟩ | ⟨frame, nic, rfl, hn, hsend, rfl⟩ |
    ⟨rfl, hd, rfl⟩
  · rw [List.append_nil]
    exact h
  · exact h.send hn hsend hok.1 hok.2
  · rw [List.append_nil]
    exact h.device hd

/-- **The invariant over whole runs.** -/
theorem Sound.run {buf : Option Nat} {mem : Nat → Byte} {accepted : List Bytes} {m : Machine}
    (h : Run E1000.step unhurried (.boot buf mem) accepted m) : Sound accepted m :=
  h.invariant_events (.boot buf mem) fun _ _ _ _ _ hI hok hs => hI.step hok hs

/-! ## 4. The device runs dry -/

/-- Left alone, the device puts everything pending on the wire and is quiet. -/
theorem drain {m : Machine} (hh : m.tdh < numTx) (ht : m.tdt < numTx) :
    ∃ m', Run E1000.step (fun _ a => a = .device) m [] m' ∧ m'.tdh = m'.tdt ∧
      m'.wire = m.wire ++ m.pending := by
  -- induction on the number of descriptors outstanding
  induction hk : Ring.gap numTx m.tdh m.tdt generalizing m with
  | zero =>
    have hq : m.tdh = m.tdt := Classical.byContradiction fun hne => Ring.gap_ne_zero hh ht hne hk
    exact ⟨m, .start, hq, by rw [pending_nil hq, List.append_nil]⟩
  | succ k ih =>
    have hne : m.tdh ≠ m.tdt := fun he => by
      rw [he, Ring.gap_self] at hk
      cases hk
    obtain ⟨m₁, h₁, hall, -, hh₁, ht₁, hgap⟩ := deviceTake_spec hh ht hne
    obtain ⟨m₂, hrun, hq, hwire⟩ := ih hh₁ (ht₁ ▸ ht) (by omega)
    have hstep : E1000.step m .device = some (m₁, []) := by
      rw [E1000.step, h₁]
      rfl
    have hone : Run E1000.step (fun _ a => a = .device) m ([] ++ []) m₁ :=
      .next .device .start rfl hstep
    exact ⟨m₂, hone.trans hrun, hq, hwire.trans hall⟩

/-- **A send without room**, and what comes of it: the device goes quiet without having put all
    accepted frames on the wire as they were. -/
theorem spoiled {accepted : List Bytes} {m m' : Machine} {frame : Bytes} (h : Sound accepted m)
    (hroom : ¬ m.roomy frame) (hs : send m frame = .ok (true, m')) :
    ∃ m'', Run E1000.step (fun _ a => a = .device) m' [] m'' ∧
      ¬ m''.InOrder (accepted ++ [frame]) := by
  rcases hn : m.nic with - | nic
  · rw [Machine.roomy, hn] at hroom
    exact absurd trivial hroom
  · rw [Machine.roomy, hn] at hroom
    by_cases hgap : Ring.gap numTx m.tdh m.tdt + 1 < numTx
    · -- an outstanding frame is overwritten: the wire differs from what was accepted
      have hchanged : ¬ ∀ d ∈ m.outstanding,
          d.read (Store.copy m.mem nic.txBufPhys frame) = d.read m.mem :=
        fun hkeep => hroom ⟨hgap, hkeep⟩
      have hout := outstanding_send h hn hs hgap
      obtain ⟨-, hm'⟩ := send_some hn hs
      have hh : m'.tdh < numTx := by
        rw [hm']
        exact h.head
      have ht : m'.tdt < numTx := by
        rw [hm']
        exact Nat.mod_lt _ (by decide)
      have hmem : m'.mem = Store.copy m.mem nic.txBufPhys frame := by rw [hm']
      have hold : m'.wire = m.wire := by rw [hm']
      obtain ⟨m₂, hrun, hq, hwire⟩ := drain hh ht
      refine ⟨m₂, hrun, fun hin => hchanged (List.map_inj_left.mp ?_)⟩
      have hall := hwire.symm.trans (hin.2 hq)
      rw [h.split, Machine.pending, hout, hmem, hold, List.map_append, List.append_assoc] at hall
      exact (List.append_inj' (List.append_cancel_left hall) rfl).1
    · -- the ring is full: the tail meets the head and the device sees nothing to do
      obtain ⟨-, rfl⟩ := send_some hn hs
      have hsucc : (nic.txCursor + 1) % numTx = (m.tdt + 1) % numTx := by
        rw [← h.cursor nic hn, Nat.mod_add_mod]
      have hnone := Ring.gap_tail_succ h.head h.tail
      rw [if_neg hgap, ← hsucc] at hnone
      have hq : m.tdh = (nic.txCursor + 1) % numTx := Classical.byContradiction fun hne =>
        Ring.gap_ne_zero h.head (Nat.mod_lt _ (by decide)) hne hnone
      refine ⟨_, .start, fun hin => ?_⟩
      have hlen := congrArg List.length (hin.2 hq)
      rw [h.split] at hlen
      simp only [List.length_append, List.length_cons, List.length_nil] at hlen
      omega

/-! ## 5. Transmission in order -/

/-- A quiet device leaves room for any frame. -/
theorem roomy_of_quiet {m : Machine} (h : m.tdh = m.tdt) (frame : Bytes) : m.roomy frame := by
  unfold Machine.roomy Machine.outstanding
  rw [h, Ring.gap_self]
  split
  · trivial
  · exact ⟨by decide, by simp⟩

/-- **Transmission.** In every run from boot, whatever the interleaving with the device, in which
    each send has room: the frames on the wire are a prefix of the accepted ones, in order and
    unmodified, and all of them when the device is quiet. And the condition cannot be dropped at any
    point of such a run: after an accepted send without room the device, left alone, ends up quiet
    with something else on the wire. -/
theorem transmit_in_order {buf : Option Nat} {mem : Nat → Byte} {accepted : List Bytes}
    {m : Machine} (h : Run step unhurried (.boot buf mem) accepted m) :
    m.InOrder accepted ∧
      ∀ frame m', ¬ m.roomy frame → send m frame = .ok (true, m') →
        ∃ m'', Run step (fun _ a => a = .device) m' [] m'' ∧ ¬ m''.InOrder (accepted ++ [frame]) :=
  ⟨(Sound.run h).inOrder, fun _ _ hroom hs => spoiled (Sound.run h) hroom hs⟩

/-- Send when the device is quiet. -/
def sendsQuiet (m : Machine) : Action → Bool
  | .send frame => decide (frame.length ≤ 4096) && m.tdh == m.tdt
  | .device => true

theorem unhurried_of_sendsQuiet {m : Machine} {a : Action} (h : sendsQuiet m a = true) :
    unhurried m a := by
  rcases a with frame | -
  · obtain ⟨hlen, hq⟩ := Bool.and_eq_true_iff.mp h
    exact ⟨of_decide_eq_true hlen, roomy_of_quiet (eq_of_beq hq) frame⟩
  · trivial

theorem transmit_in_order_two :
    ∃ m, Run step unhurried (.boot (some 0x5000) fun _ => 0#8) [[1#8, 2#8], [3#8]] m ∧
      m.wire = [[1#8, 2#8]] ∧ m.InOrder [[1#8, 2#8], [3#8]] := by
  have hex : (exec step sendsQuiet (.boot (some 0x5000) fun _ => 0#8)
      [.send [1#8, 2#8], .device, .send [3#8]]).any
      (fun r => r.2 == [[1#8, 2#8], [3#8]] && r.1.wire == [[1#8, 2#8]]) = true := by decide
  obtain ⟨r, hr, hp⟩ := (Option.any_eq_true _ _).mp hex
  simp only [Bool.and_eq_true, beq_iff_eq] at hp
  have hrun := (run_of_exec _ hr).mono fun _ _ => unhurried_of_sendsQuiet
  rw [hp.1] at hrun
  exact ⟨r.1, hrun, hp.2, (transmit_in_order hrun).1⟩

def fitsB (_ : Machine) : Action → Bool
  | .send frame => decide (frame.length ≤ 4096)
  | .device => true

theorem fits_of_fitsB {m : Machine} {a : Action} (h : fitsB m a = true) : fits m a := by
  rcases a with frame | -
  · simpa [fitsB, fits] using h
  · trivial

/-- Two sends before the device moves put the second frame on the wire twice; eight of them put
    nothing there at all. -/
theorem transmit_corrupts :
    (∃ m, Run step fits (.boot (some 0x5000) fun _ => 0#8) [[1#8], [2#8]] m ∧
      m.wire = [[2#8], [2#8]] ∧ ¬ m.InOrder [[1#8], [2#8]]) ∧
    ∃ m, Run step fits (.boot (some 0x5000) fun _ => 0#8) (List.replicate 8 [1#8]) m ∧
      m.tdh = m.tdt ∧ m.wire = [] ∧ ¬ m.InOrder (List.replicate 8 [1#8]) := by
  constructor
  · have hex : (exec step fitsB (.boot (some 0x5000) fun _ => 0#8)
        [.send [1#8], .send [2#8], .device, .device]).any
        (fun r => r.2 == [[1#8], [2#8]] && r.1.wire == [[2#8], [2#8]]) = true := by decide
    obtain ⟨r, hr, hp⟩ := (Option.any_eq_true _ _).mp hex
    simp only [Bool.and_eq_true, beq_iff_eq] at hp
    have hrun := (run_of_exec _ hr).mono fun _ _ => fits_of_fitsB
    rw [hp.1] at hrun
    refine ⟨r.1, hrun, hp.2, fun h => ?_⟩
    have hprefix := h.1
    rw [hp.2] at hprefix
    exact absurd hprefix (by decide)
  · have hex : (exec step fitsB (.boot (some 0x5000) fun _ => 0#8)
        (List.replicate 8 (.send [1#8]))).any
        (fun r => r.2 == List.replicate 8 [1#8] && r.1.tdh == r.1.tdt && r.1.wire == []) =
          true := by
      decide
    obtain ⟨r, hr, hp⟩ := (Option.any_eq_true _ _).mp hex
    simp only [Bool.and_eq_true, beq_iff_eq] at hp
    have hrun := (run_of_exec _ hr).mono fun _ _ => fits_of_fitsB
    rw [hp.1.1] at hrun
    refine ⟨r.1, hrun, hp.1.2, hp.2, fun h => ?_⟩
    have hall := h.2 hp.1.2
    rw [hp.2] at hall
    exact absurd hall (by decide)

end SimpleLinux.E1000
