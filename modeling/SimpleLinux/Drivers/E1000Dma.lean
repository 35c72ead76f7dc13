/-
  File:      SimpleLinux/Drivers/E1000Dma.lean
  Subject:   The card, its driver and the rest of the kernel in one memory: `init` of
             drivers/e1000.rs and what comes after it.

  `init` looks for the card on the bus, takes eleven pages for it and starts it. From then on three
  parties write to one physical memory, in any order: `send` to the staging buffer, the card to the
  buffers of its receive descriptors, and the rest of the kernel to the frames it has. The transmit
  machine (Drivers/E1000) and the receive machine (Drivers/E1000Receive) run here on the memory of
  all.

  * `findDevice`, `mapMmio`, `buildNic`, `init` -- bringing the card up; `findDeviceFrom_spec` --
    the first card of the bus, and one register of it is changed;
  * `Host`, `step` -- the three parties; `Polite` -- what is asked of the kernel; `Card` -- the
    pages;
  * `Inv`, `TxInv` -- the invariants; `Inv.step`, `TxInv.step`;
  * `dma_isolated` -- nobody writes where another one reads.
-/
import SimpleLinux.Drivers.E1000Receive
import SimpleLinux.Memory.Vmm

namespace SimpleLinux.E1000.Dma

open Rust Runs Paging
open Net (Byte Bytes)
open Pmm (BitmapFrameAllocator PhysFrame Request callerStep FreesHeld)

/-! ## 1. Bringing the card up -/

/-- The registers behind port 0xcfc, by the address at port 0xcf8. -/
abbrev Config := BitVec 32 → BitVec 32

def pciAddress (bus dev func offset : BitVec 8) : BitVec 32 :=
  0x80000000#32 ||| bus.setWidth 32 <<< 16 ||| dev.setWidth 32 <<< 11 ||| func.setWidth 32 <<< 8 |||
    (offset.setWidth 32 &&& 0xfc#32)

def pciRead (cfg : Config) (bus dev func offset : BitVec 8) : BitVec 32 :=
  cfg (pciAddress bus dev func offset)

def pciWrite (cfg : Config) (bus dev func offset : BitVec 8) (value : BitVec 32) : Config :=
  Function.update cfg (pciAddress bus dev func offset) value

def vendorIntel : BitVec 16 := 0x8086#16
def deviceE1000 : BitVec 16 := 0x100e#16

/-- The base of BAR0, without the bits for its type. -/
def barOf (cfg : Config) (dev : BitVec 8) : BitVec 64 :=
  (pciRead cfg 0 dev 0 0x10).setWidth 64 &&& 0xfffffff0#64

/-- Memory space and bus mastering on. -/
def enabled (cfg : Config) (dev : BitVec 8) : Config :=
  pciWrite cfg 0 dev 0 0x04 (pciRead cfg 0 dev 0 0x04 ||| 0x06#32)

/-- The loop of `find_device`: device, function and the base of BAR0. -/
def findDeviceFrom (cfg : Config) :
    List (BitVec 8) → Option (BitVec 8 × BitVec 8 × BitVec 64) × Config
  | [] => (none, cfg)
  | dev :: devs =>
    let vid := (pciRead cfg 0 dev 0 0x00 &&& 0xffff#32).setWidth 16
    if vid = 0xffff#16 then findDeviceFrom cfg devs
    else
      let did := (pciRead cfg 0 dev 0 0x00 >>> 16).setWidth 16
      if vid = vendorIntel ∧ did = deviceE1000 then (some (dev, 0, barOf cfg dev), enabled cfg dev)
      else findDeviceFrom cfg devs

/-- The devices of a bus. -/
def devices : List (BitVec 8) := (List.range 32).map (BitVec.ofNat 8)

def findDevice (cfg : Config) : Option (BitVec 8 × BitVec 8 × BitVec 64) × Config :=
  findDeviceFrom cfg devices

/-- The flags of `map_mmio`; that the pages are not cached is not followed. -/
def mmioFlags : Flags := ⟨true, false, true⟩

/-- One turn of the loop of `map_mmio`. -/
def mmioTurn (virt phys : Nat) (v : Vmm.State) (i : Nat) : Exec Vmm.State := do
  let off ← lift (mul 64 i 4096)
  let sum ← lift (add 64 virt off)
  let addr ← lift (Vmm.virtAddr sum)
  let page := addr / pageSize
  match v.translate (page * pageSize) with
  | some _ => return v
  | none =>
    let sum ← lift (add 64 phys off)
    let target ← lift (Pmm.physAddr sum)
    match ← lift (v.mapPage page (.containingAddress target) mmioFlags) with
    | (.error _, _) => throw (.expect "failed to map MMIO page")
    | (.ok (), v) => return v

/-- The address of the registers, and the pages around it mapped. -/
def mapMmio (v : Vmm.State) (physOffset : Option Nat) (phys pages : Nat) :
    Exec (Nat × Vmm.State) :=
  match physOffset with
  | none => throw (.expect "physical offset")
  | some offset => do
    let sum ← lift (add 64 offset phys)
    let virt ← lift (Vmm.virtAddr sum)
    let v ← (List.range pages).foldlM (mmioTurn virt phys) v
    return (virt, v)

/-- The transmit side, the receive side and the memory that they share with the rest of the
    kernel. -/
structure Host where
  tx : E1000.Machine
  rx : Rx.Machine
  /-- physical memory, less the ring pages -/
  mem : Nat → Byte
  /-- where the card looks for its rings: RDBAH and RDBAL, TDBAH and TDBAL -/
  rdba : BitVec 64
  tdba : BitVec 64
  /-- the allocator, and the frames that the rest of the kernel has been given since -/
  frames : BitmapFrameAllocator × List PhysFrame

/-- `phys as u32` in the low register, zero in the high one. -/
def ringBase (page : Option PhysFrame) : BitVec 64 :=
  0#32 ++ BitVec.ofNat 32 (page.elim 0 PhysFrame.start)

/-- `build_nic` and `configure`: the registers are mapped; the rings, the receive buffers and the
    staging buffer are the next eleven frames, and the rings start out as the two machines say. -/
def buildNic (v : Vmm.State) (physOffset : Option Nat) (bar : Nat) : Exec (Host × Vmm.State) := do
  let (_, v) ← mapMmio v physOffset bar 16
  let (pages, frames) ← Rx.allocPages (2 + Rx.numRx + 1) v.frames
  let tx := E1000.Machine.boot (pages[2 + Rx.numRx]?.map PhysFrame.start) v.space.mem
  let rx ← Rx.configure v.frames tx.mem
  let host : Host :=
    { tx, rx, mem := tx.mem, rdba := ringBase pages[0]?, tdba := ringBase pages[1]?
      frames := (frames, []) }
  return (host, { v with frames })

/-- `e1000::init`. -/
def init (cfg : Config) (v : Vmm.State) (physOffset : Option Nat) :
    Exec (Option Host × Config × Vmm.State) :=
  match findDevice cfg with
  | (none, cfg) => .ok (none, cfg, v)
  | (some (_, _, bar), cfg) => do
    let (host, v) ← buildNic v physOffset bar.toNat
    return (some host, cfg, v)

/-! ## 2. The card on the bus -/

/-- Vendor and device of a slot in one register. -/
def cardId : BitVec 32 := 0x100e8086#32

/-- The comparison of the two halves. -/
theorem ids_iff (x : BitVec 32) :
    (x &&& 0xffff#32).setWidth 16 = vendorIntel ∧ (x >>> 16).setWidth 16 = deviceE1000 ↔
      x = cardId := by
  have hlow : ((x &&& 0xffff#32).setWidth 16).toNat = x.toNat % 2 ^ 16 := by
    rw [BitVec.toNat_setWidth, BitVec.toNat_and, show (0xffff#32).toNat = 2 ^ 16 - 1 from rfl,
      Nat.and_two_pow_sub_one_eq_mod, Nat.mod_mod]
  have hhigh : ((x >>> 16).setWidth 16).toNat = x.toNat / 2 ^ 16 := by
    rw [BitVec.toNat_setWidth, BitVec.toNat_ushiftRight, Nat.shiftRight_eq_div_pow,
      Nat.mod_eq_of_lt]
    have := x.isLt
    omega
  rw [← BitVec.toNat_inj, ← BitVec.toNat_inj, ← BitVec.toNat_inj, hlow, hhigh]
  show _ = 0x8086 ∧ _ = 0x100e ↔ _ = 0x100e8086
  omega

theorem findDeviceFrom_spec (cfg : Config) (devs : List (BitVec 8)) :
    (findDeviceFrom cfg devs = (none, cfg) ∧ ∀ d ∈ devs, pciRead cfg 0 d 0 0 ≠ cardId) ∨
    ∃ before dev after, devs = before ++ dev :: after ∧
      (∀ d ∈ before, pciRead cfg 0 d 0 0 ≠ cardId) ∧ pciRead cfg 0 dev 0 0 = cardId ∧
      findDeviceFrom cfg devs = (some (dev, 0, barOf cfg dev), enabled cfg dev) := by
  induction devs with
  | nil => exact .inl ⟨rfl, fun _ h => absurd h List.not_mem_nil⟩
  | cons dev devs ih =>
    by_cases hid : pciRead cfg 0 dev 0 0 = cardId
    · have hfound := (ids_iff _).mpr hid
      refine .inr ⟨[], dev, devs, rfl, fun _ h => absurd h List.not_mem_nil, hid, ?_⟩
      rw [findDeviceFrom, if_neg, if_pos hfound]
      rw [hfound.1]
      decide
    · have hskip : findDeviceFrom cfg (dev :: devs) = findDeviceFrom cfg devs := by
        rw [findDeviceFrom]
        split
        · rfl
        · exact if_neg fun h => hid ((ids_iff _).mp h)
      rw [hskip]
      rcases ih with ⟨hnone, hall⟩ | ⟨before, d, after, rfl, hbefore, hd, hfound⟩
      · exact .inl ⟨hnone, List.forall_mem_cons.mpr ⟨hid, hall⟩⟩
      · exact .inr
          ⟨dev :: before, d, after, rfl, List.forall_mem_cons.mpr ⟨hid, hbefore⟩, hd, hfound⟩

/-! ## 3. The pages -/

/-- A turn takes frames for tables, and touches no memory. -/
theorem mmioTurn_spec {virt phys i : Nat} {v v' : Vmm.State} (h : mmioTurn virt phys v i = .ok v') :
    v'.free ⊆ v.free ∧ v'.space.mem = v.space.mem := by
  rw [mmioTurn] at h
  obtain ⟨off, -, h⟩ := bind_eq_ok.mp h
  obtain ⟨sum, -, h⟩ := bind_eq_ok.mp h
  obtain ⟨addr, -, h⟩ := bind_eq_ok.mp h
  dsimp only at h
  split at h
  · cases h
    exact ⟨Finset.Subset.refl _, rfl⟩
  · rename_i hnone
    obtain ⟨sum', -, h⟩ := bind_eq_ok.mp h
    obtain ⟨target, -, h⟩ := bind_eq_ok.mp h
    have hpage : v.space.pages (addr / pageSize) = none := by
      rw [Vmm.State.translate, Option.map_eq_none_iff, Nat.mul_div_cancel _ (by decide)] at hnone
      exact hnone
    rcases Vmm.State.mapPage_spec hpage (.containingAddress target) mmioFlags with
      ⟨-, v₁, hmap, htook, hspace, -⟩ | ⟨-, v₁, hmap⟩
    · rw [hmap] at h
      cases h
      exact ⟨htook.subset, by rw [hspace]; rfl⟩
    · rw [hmap] at h
      cases h

theorem mmioTurns_spec {virt phys : Nat} {is : List Nat} {v v' : Vmm.State}
    (h : is.foldlM (mmioTurn virt phys) v = .ok v') :
    v'.free ⊆ v.free ∧ v'.space.mem = v.space.mem := by
  induction is generalizing v with
  | nil =>
    cases h
    exact ⟨Finset.Subset.refl _, rfl⟩
  | cons i is ih =>
    rw [List.foldlM_cons] at h
    obtain ⟨v₁, hfirst, h⟩ := bind_eq_ok.mp h
    obtain ⟨hsub, hmem⟩ := mmioTurn_spec hfirst
    obtain ⟨hsub', hmem'⟩ := ih h
    exact ⟨hsub'.trans hsub, hmem'.trans hmem⟩

/-- Mapping the registers takes frames for tables, and touches no memory. -/
theorem mapMmio_spec {v v' : Vmm.State} {physOffset : Option Nat} {phys pages virt : Nat}
    (h : mapMmio v physOffset phys pages = .ok (virt, v')) :
    v'.free ⊆ v.free ∧ v'.space.mem = v.space.mem := by
  rcases physOffset with - | offset
  · cases h
  · rw [mapMmio] at h
    obtain ⟨sum, -, h⟩ := bind_eq_ok.mp h
    obtain ⟨virt', -, h⟩ := bind_eq_ok.mp h
    obtain ⟨v₁, hrun, h⟩ := bind_eq_ok.mp h
    cases h
    exact mmioTurns_spec hrun

/-- The frames that are handed out are not free any more, and no others are taken. -/
theorem allocPages_taken {n : Nat} {a a' : BitmapFrameAllocator} {ps : List PhysFrame}
    (h : Rx.allocPages n a = .ok (ps, a')) :
    a'.freeSet ⊆ a.freeSet ∧ a'.freeSet.card + n = a.freeSet.card ∧
      ∀ p ∈ ps, p.number ∉ a'.freeSet := by
  induction n generalizing a ps with
  | zero =>
    cases h
    exact ⟨Finset.Subset.refl _, rfl, fun p hp => absurd hp List.not_mem_nil⟩
  | succ n ih =>
    obtain ⟨p, a₁, ps', hp, hfree, hps, rfl⟩ := Rx.allocPages_succ h
    obtain ⟨hsub, hcard, htaken⟩ := ih hps
    rw [hfree] at hsub hcard
    have hone := Finset.card_erase_add_one hp
    refine ⟨hsub.trans (Finset.erase_subset _ _), by omega,
      List.forall_mem_cons.mpr ⟨fun hin => ?_, htaken⟩⟩
    exact Finset.notMem_erase _ _ (hsub hin)

/-- **The pages of the card**, no two of them the same: two rings, the receive buffers, the staging
    buffer. -/
structure Card where
  page : Nat → PhysFrame
  distinct : ∀ i < 11, ∀ j < 11, page i = page j → i = j

namespace Card

variable (c : Card)

def rxRing : PhysFrame := c.page 0
def txRing : PhysFrame := c.page 1
def rxBuf (i : Nat) : PhysFrame := c.page (2 + i % Rx.numRx)
def txBuf : PhysFrame := c.page 10

/-- The numbers of the pages. -/
def pages : Finset Nat := (Finset.range 11).image fun i => (c.page i).number

theorem mem_pages {i : Nat} (hi : i < 11) : (c.page i).number ∈ c.pages :=
  Finset.mem_image_of_mem _ (Finset.mem_range.mpr hi)

theorem rxIndex_lt (i : Nat) : 2 + i % Rx.numRx < 10 := by
  have hlt : i % Rx.numRx < 8 := Nat.mod_lt _ (by decide)
  omega

theorem rxBuf_mem (i : Nat) : (c.rxBuf i).number ∈ c.pages :=
  c.mem_pages (Nat.lt_succ_of_lt (rxIndex_lt i))

theorem txBuf_mem : c.txBuf.number ∈ c.pages := c.mem_pages (by decide)

theorem card_pages : c.pages.card = 11 := by
  rw [pages, Finset.card_image_of_injOn, Finset.card_range]
  intro i hi j hj h
  exact c.distinct i (Finset.mem_range.mp hi) j (Finset.mem_range.mp hj) (PhysFrame.ext_number h)

/-- The card does not receive where it sends from. -/
theorem rxBuf_ne_txBuf (i : Nat) : (c.rxBuf i).number ≠ c.txBuf.number := by
  intro h
  have hlt := rxIndex_lt i
  have heq := c.distinct _ (Nat.lt_succ_of_lt hlt) 10 (by decide) (PhysFrame.ext_number h)
  omega

end Card

/-! ## 4. Three parties on one memory -/

inductive Action
  | tx (a : E1000.Action)
  | rx (a : Rx.Action)
  /-- the rest of the kernel asks for a frame or gives one back -/
  | request (r : Request)
  /-- and writes to memory -/
  | store (addr : Nat) (bytes : Bytes)

inductive Event
  | sent (frame : Bytes)
  | rx (e : Rx.Event)
  | stored (addr : Nat) (bytes : Bytes)

namespace Host

/-- The transmit side, on the memory of all. -/
def txOn (h : Host) : E1000.Machine := { h.tx with mem := h.mem }

/-- The receive side, on the memory of all. -/
def rxOn (h : Host) : Rx.Machine := { h.rx with mem := h.mem }

end Host

/-- One step of the driver and the card, or of the rest of the kernel. -/
def step (h : Host) : Action → Option (Host × List Event)
  | .tx a => (E1000.step h.txOn a).map fun r =>
      ({ h with tx := r.1, mem := r.1.mem }, r.2.map .sent)
  | .rx a => (Rx.step h.rxOn a).map fun r =>
      ({ h with rx := r.1, mem := r.1.mem }, r.2.map .rx)
  | .request r => (callerStep h.frames r).map fun s => ({ h with frames := s.1 }, [])
  | .store addr bytes => some ({ h with mem := Store.copy h.mem addr bytes }, [.stored addr bytes])

/-- Frames fit the staging buffer; and the rest of the kernel, with the frames that were not free
    when `a` was the allocator, gives back only what it holds and writes only to what it has. -/
def Polite (a : BitmapFrameAllocator) (h : Host) : Action → Prop
  | .tx act => E1000.fits h.tx act
  | .rx _ => True
  | .request r => FreesHeld h.frames r
  | .store addr bytes => ∀ i < bytes.length,
      (addr + i) / 4096 ∉ a.freeSet ∨ ∃ p ∈ h.frames.2, p.number = (addr + i) / 4096

/-- The same, and every frame is sent when there is room for it: a free descriptor, and no
    outstanding one whose bytes the copy to the staging buffer changes. -/
def Unhurried (a : BitmapFrameAllocator) (h : Host) (act : Action) : Prop :=
  Polite a h act ∧ ∀ b, act = .tx b → E1000.unhurried h.txOn b

def sent (es : List Event) : List Bytes :=
  es.filterMap fun
    | .sent frame => some frame
    | _ => none

def received (es : List Event) : List Rx.Event :=
  es.filterMap fun
    | .rx e => some e
    | _ => none

/-- What the rest of the kernel has written, in order. -/
def writes (es : List Event) : List (Nat × Bytes) :=
  es.filterMap fun
    | .stored addr bytes => some (addr, bytes)
    | _ => none

/-- The memory, if nobody but the rest of the kernel had written to it. -/
def stored (mem : Nat → Byte) (es : List Event) : Nat → Byte :=
  (writes es).foldl (fun m w => Store.copy m w.1 w.2) mem

section Events

variable (es es' : List Event) (frames : List Bytes) (rs : List Rx.Event)

theorem sent_append : sent (es ++ es') = sent es ++ sent es' := List.filterMap_append

theorem received_append : received (es ++ es') = received es ++ received es' :=
  List.filterMap_append

theorem writes_append : writes (es ++ es') = writes es ++ writes es' := List.filterMap_append

theorem sent_map_sent : sent (frames.map .sent) = frames := by
  simp [sent, List.filterMap_map]

theorem sent_map_rx : sent (rs.map .rx) = [] := by
  simp [sent, List.filterMap_map]

theorem received_map_sent : received (frames.map .sent) = [] := by
  simp [received, List.filterMap_map]

theorem received_map_rx : received (rs.map .rx) = rs := by
  simp [received, List.filterMap_map]

theorem writes_map_sent : writes (frames.map .sent) = [] := by
  simp [writes, List.filterMap_map]

theorem writes_map_rx : writes (rs.map .rx) = [] := by
  simp [writes, List.filterMap_map]

/-- Steps in which the rest of the kernel writes nothing. -/
theorem stored_append_quiet {es es' : List Event} (h : writes es' = []) (mem : Nat → Byte) :
    stored mem (es ++ es') = stored mem es := by
  rw [stored, writes_append, h, List.append_nil, stored]

theorem stored_append_store (mem : Nat → Byte) (addr : Nat) (bytes : Bytes) :
    stored mem (es ++ [.stored addr bytes]) = Store.copy (stored mem es) addr bytes := by
  rw [stored, writes_append, List.foldl_append]
  rfl

end Events

/-! ## 5. Who writes where -/

section Pages

variable {p : PhysFrame} {x : Nat} {mem : Nat → Byte} {bytes : Bytes}

/-- A byte of a page. -/
theorem mem_page (hlo : p.start ≤ x) (hhi : x < p.start + 4096) : x / 4096 = p.number := by
  have hstart := p.start_eq
  have hpage : Pmm.pageSize = 4096 := rfl
  rw [hpage] at hstart
  omega

/-- Bytes written to a page, seen from another one. -/
theorem copy_page (hlen : bytes.length ≤ 4096) (hx : x / 4096 ≠ p.number) :
    Store.copy mem p.start bytes x = mem x :=
  Store.copy_outside fun ⟨hlo, hhi⟩ => hx (mem_page hlo (by omega))

end Pages

/-- A load from bytes that have not changed. -/
theorem load_congr {mem mem' : Nat → Byte} {base len : Nat}
    (h : ∀ x, base ≤ x → x < base + len → mem' x = mem x) :
    Store.load mem' base len = Store.load mem base len := by
  refine List.map_congr_left fun i hi => ?_
  have hlt := List.mem_range.mp hi
  exact h _ (Nat.le_add_right ..) (by omega)

section Tx

variable {m m' : E1000.Machine} {a : E1000.Action} {es : List Bytes} {p : PhysFrame}

/-- The transmit side writes to the staging buffer only. -/
theorem tx_writes (hbuf : ∀ nic, m.nic = some nic → nic.txBufPhys = p.start) (hfit : E1000.fits m a)
    (hs : E1000.step m a = some (m', es)) :
    (∀ nic, m'.nic = some nic → nic.txBufPhys = p.start) ∧
      ∀ x, x / 4096 ≠ p.number → m'.mem x = m.mem x := by
  rcases E1000.step_cases hs with ⟨_, rfl, -, rfl, -⟩ | ⟨frame, nic, rfl, hnic, hsend, -⟩ |
    ⟨rfl, htake, -⟩
  · exact ⟨hbuf, fun _ _ => rfl⟩
  · obtain ⟨-, rfl⟩ := E1000.send_some hnic hsend
    have hstart := hbuf nic hnic
    refine ⟨fun nic' h => ?_, fun x hx => ?_⟩
    · cases h
      exact hstart
    · have hcopy : Store.copy m.mem nic.txBufPhys frame x = m.mem x := by
        rw [hstart]
        exact copy_page hfit hx
      exact hcopy
  · obtain ⟨-, rfl⟩ := E1000.deviceTake_some htake
    exact ⟨hbuf, fun _ _ => rfl⟩

end Tx

section Rx

variable {m m' : Rx.Machine} {nic : Rx.Nic} {acc ret : List Bytes}

/-- The receive side does not mind what happens outside its buffers. -/
theorem owned_congr (h : Rx.Owned acc ret m nic) {mem : Nat → Byte}
    (hsame : ∀ i x, nic.rxBufs.addr i ≤ x → x < nic.rxBufs.addr i + 4096 → mem x = m.mem x) :
    Rx.Owned acc ret { m with mem } nic where
  present := h.present
  head := h.head
  tail := h.tail
  addr := h.addr
  done := h.done
  clear := h.clear
  split := by
    rw [h.split]
    refine congrArg (ret ++ ·) (List.map_congr_left fun d hd => ?_)
    obtain ⟨k, -, rfl⟩ := Rx.mem_filledRing.mp hd
    have hfits := (h.done _ hd).fits
    rw [Desc.read, Desc.read, h.addr]
    refine (load_congr fun x hlo hhi => hsame _ x hlo ?_).symm
    omega

/-- What a step of the receive side leaves as it is: the buffers, and the memory outside them. -/
theorem rx_moves {es : List Rx.Event} {a : Rx.Action} (h : Rx.Owned acc ret m nic)
    (hs : Rx.step m a = some (m', es)) :
    (∃ nic', m'.nic = some nic' ∧ nic'.rxBufs = nic.rxBufs) ∧
      ∀ x, (∀ i, x / 4096 ≠ (Ring.slot nic.rxBufs.frames i).number) → m'.mem x = m.mem x := by
  rcases a with - | ⟨frame, rest⟩
  · rw [Rx.step] at hs
    rcases hn : Rx.backlog m nic with - | n
    · rw [Rx.poll_none h hn] at hs
      cases hs
      exact ⟨⟨nic, h.present, rfl⟩, fun _ _ => rfl⟩
    · rcases hp : Rx.pollReceive m with e | ⟨out, m₁⟩
      · rw [hp] at hs
        cases hs
      · obtain ⟨rfl, rfl⟩ := Rx.poll_eq h hn hp
        rw [hp] at hs
        cases hs
        exact ⟨⟨nic.next, rfl, rfl⟩, fun _ _ => rfl⟩
  · rw [Rx.step] at hs
    split at hs
    · rename_i hacc
      cases hs
      refine ⟨⟨nic, h.present, rfl⟩, fun x hx => ?_⟩
      have hlen : frame.length ≤ 4096 := Nat.le_trans hacc.2.2 (by decide)
      show Store.copy m.mem (Ring.slot m.rxRing m.rdh).addr frame x = m.mem x
      rw [h.addr]
      exact copy_page hlen (hx m.rdh)
    · cases hs
      exact ⟨⟨nic, h.present, rfl⟩, fun _ _ => rfl⟩

/-- The receive side writes to its buffers only, and they stay the same. -/
theorem rx_writes {es es' : List Rx.Event} {a : Rx.Action}
    (h : Rx.Owned (Rx.accepted es) (Rx.returned es) m nic) (hs : Rx.step m a = some (m', es')) :
    ∃ nic', nic'.rxBufs = nic.rxBufs ∧
      Rx.Owned (Rx.accepted (es ++ es')) (Rx.returned (es ++ es')) m' nic' ∧
      ∀ x, (∀ i, x / 4096 ≠ (Ring.slot nic.rxBufs.frames i).number) → m'.mem x = m.mem x := by
  obtain ⟨nic', howned⟩ := h.step hs
  obtain ⟨⟨nic₁, hnic₁, hbufs⟩, hmem⟩ := rx_moves h hs
  have hsame := howned.present
  rw [hnic₁] at hsame
  cases hsame
  exact ⟨nic', hbufs, howned, hmem⟩

end Rx

/-! ## 6. The invariants -/

/-- **The invariant**: driver and card keep to their pages, the rest of the kernel has none of them,
    and outside of them the memory is what the rest of the kernel has made of `mem`. -/
structure Inv (c : Card) (mem : Nat → Byte) (es : List Event) (h : Host) : Prop where
  buf : ∀ nic, h.tx.nic = some nic → nic.txBufPhys = c.txBuf.start
  owned : ∃ nic, (∀ i, Ring.slot nic.rxBufs.frames i = c.rxBuf i) ∧
    Rx.Owned (Rx.accepted (received es)) (Rx.returned (received es)) h.rxOn nic
  free : ∀ f ∈ c.pages, f ∉ h.frames.1.freeSet
  held : ∀ p ∈ h.frames.2, p.number ∉ c.pages
  outside : ∀ x, x / 4096 ∉ c.pages → h.mem x = stored mem es x

/-- A descriptor of the transmit ring: as it was at the start, or for bytes of the staging
    buffer. -/
def Staged (c : Card) (d : Desc) : Prop :=
  d.length = 0#16 ∨ d.addr = c.txBuf.start ∧ d.length.toNat ≤ 4096

/-- **The invariant of the transmit side**, if every frame had room. -/
structure TxInv (c : Card) (es : List Event) (h : Host) : Prop where
  staged : ∀ i, Staged c (Ring.slot h.tx.txRing i)
  sound : Sound (sent es) h.txOn

section Steps

variable {c : Card} {mem : Nat → Byte} {es es' : List Event} {h h' : Host}

/-- The receive side over a memory that is the same in its buffers. -/
theorem owned_moved {nic : Rx.Nic} {acc ret : List Bytes} {mem' : Nat → Byte}
    (hbufs : ∀ i, Ring.slot nic.rxBufs.frames i = c.rxBuf i) (ho : Rx.Owned acc ret h.rxOn nic)
    (hsame : ∀ i x, x / 4096 = (c.rxBuf i).number → mem' x = h.mem x) :
    Rx.Owned acc ret { h.rx with mem := mem' } nic := by
  refine owned_congr ho fun i x hlo hhi => hsame i x ?_
  rw [← hbufs]
  exact mem_page hlo hhi

/-- The pages of the card stay away from the rest of the kernel. -/
theorem Inv.request (hI : Inv c mem es h) {r : Request} {s : BitmapFrameAllocator × List PhysFrame}
    {os : List (Option PhysFrame)} (hok : FreesHeld h.frames r)
    (hs : callerStep h.frames r = some (s, os)) :
    (∀ f ∈ c.pages, f ∉ s.1.freeSet) ∧ ∀ p ∈ s.2, p.number ∉ c.pages := by
  cases r with
  | allocate =>
    rw [callerStep] at hs
    rcases h.frames.1.allocFrame_spec with ⟨-, he⟩ | ⟨p, a', he, hp, hfree, -⟩
    · rw [he] at hs
      cases hs
      exact ⟨hI.free, hI.held⟩
    · rw [he] at hs
      cases hs
      refine ⟨fun f hf hin => ?_, List.forall_mem_cons.mpr ⟨fun hmem => hI.free _ hmem hp, hI.held⟩⟩
      rw [hfree] at hin
      exact hI.free f hf (Finset.mem_of_mem_erase hin)
  | deallocate p =>
    rw [callerStep] at hs
    obtain ⟨a', he, -, hin, hout⟩ := h.frames.1.freeFrame_spec p
    rw [he] at hs
    cases hs
    refine ⟨fun f hf hmem => ?_, fun q hq => hI.held q (List.mem_of_mem_erase hq)⟩
    by_cases hlt : p.number < Pmm.numFrames
    · rw [hin hlt] at hmem
      rcases Finset.mem_insert.mp hmem with rfl | hmem
      · exact hI.held p hok hf
      · exact hI.free f hf hmem
    · rw [hout (Nat.le_of_not_lt hlt)] at hmem
      exact hI.free f hf hmem

/-- What the rest of the kernel writes to is none of the card's. -/
theorem Inv.not_stored (hI : Inv c mem es h) {a : BitmapFrameAllocator} (hsub : c.pages ⊆ a.freeSet)
    {addr : Nat} {bytes : Bytes} (hok : Polite a h (.store addr bytes)) {x : Nat}
    (hx : x / 4096 ∈ c.pages) : Store.copy h.mem addr bytes x = h.mem x := by
  refine Store.copy_outside fun ⟨hlo, hhi⟩ => ?_
  have hin := hok (x - addr) (by omega)
  rw [Nat.add_sub_cancel' hlo] at hin
  rcases hin with hused | ⟨p, hp, he⟩
  · exact hused (hsub hx)
  · exact hI.held p hp (he ▸ hx)

/-- **One step** of anybody. -/
theorem Inv.step {a : BitmapFrameAllocator} (hsub : c.pages ⊆ a.freeSet) (hI : Inv c mem es h)
    {act : Action} (hok : Polite a h act) (hs : Dma.step h act = some (h', es')) :
    Inv c mem (es ++ es') h' := by
  obtain ⟨nic, hbufs, howned⟩ := hI.owned
  cases act with
  | tx b =>
    obtain ⟨⟨m', frames⟩, hstep, he⟩ := Option.map_eq_some_iff.mp hs
    cases he
    obtain ⟨hbuf, hmem⟩ := tx_writes (m := h.txOn) hI.buf hok hstep
    refine ⟨hbuf, ⟨nic, hbufs, ?_⟩, hI.free, hI.held, fun x hx => ?_⟩
    · rw [received_append, received_map_sent, List.append_nil]
      refine owned_moved (h := h) hbufs howned fun i x hx => hmem x ?_
      rw [hx]
      exact c.rxBuf_ne_txBuf i
    · rw [stored_append_quiet (writes_map_sent frames), ← hI.outside x hx]
      exact hmem x fun he => hx (he ▸ c.txBuf_mem)
  | rx b =>
    obtain ⟨⟨m', rs⟩, hstep, he⟩ := Option.map_eq_some_iff.mp hs
    cases he
    obtain ⟨nic', hbufs', howned', hmem⟩ := rx_writes howned hstep
    refine ⟨hI.buf, ⟨nic', fun i => hbufs' ▸ hbufs i, ?_⟩, hI.free, hI.held, fun x hx => ?_⟩
    · rw [received_append, received_map_rx]
      exact howned'
    · rw [stored_append_quiet (writes_map_rx rs), ← hI.outside x hx]
      refine hmem x fun i he => hx ?_
      rw [he, hbufs]
      exact c.rxBuf_mem i
  | request r =>
    obtain ⟨⟨s, os⟩, hstep, he⟩ := Option.map_eq_some_iff.mp hs
    cases he
    rw [List.append_nil]
    obtain ⟨hfree, hheld⟩ := hI.request hok hstep
    exact ⟨hI.buf, ⟨nic, hbufs, howned⟩, hfree, hheld, hI.outside⟩
  | store addr bytes =>
    cases hs
    refine ⟨hI.buf, ⟨nic, hbufs, ?_⟩, hI.free, hI.held, fun x hx => ?_⟩
    · rw [received_append, show received [.stored addr bytes] = [] from rfl, List.append_nil]
      refine owned_moved (h := h) hbufs howned fun i x hx => hI.not_stored hsub hok ?_
      rw [hx]
      exact c.rxBuf_mem i
    · rw [stored_append_store]
      exact Store.copy_congr (hI.outside x hx)

/-- The transmit side over a memory that is the same in the staging buffer. -/
theorem TxInv.moved (hT : TxInv c es h) {mem' : Nat → Byte}
    (hsame : ∀ x, x / 4096 = c.txBuf.number → mem' x = h.mem x) :
    Sound (sent es) { h.tx with mem := mem' } where
  head := hT.sound.head
  tail := hT.sound.tail
  cursor := hT.sound.cursor
  absent := hT.sound.absent
  split := by
    rw [hT.sound.split]
    refine congrArg (h.tx.wire ++ ·) (List.map_congr_left fun d hd => ?_)
    obtain ⟨k, -, rfl⟩ := List.mem_map.mp hd
    rcases hT.staged (h.tx.tdh + k) with hzero | ⟨haddr, hlen⟩
    · show Store.load h.mem _ _ = Store.load mem' _ _
      rw [show h.txOn.txRing = h.tx.txRing from rfl, show h.txOn.tdh = h.tx.tdh from rfl, hzero]
      rfl
    · show Store.load h.mem _ _ = Store.load mem' _ _
      refine (load_congr fun x hlo hhi => hsame x ?_).symm
      rw [show h.txOn.txRing = h.tx.txRing from rfl, show h.txOn.tdh = h.tx.tdh from rfl,
        haddr] at hlo hhi
      exact mem_page hlo (by omega)

/-- A send writes one descriptor, for the staging buffer. -/
theorem staged_step {m m' : E1000.Machine} {b : E1000.Action} {frames : List Bytes}
    (hst : ∀ i, Staged c (Ring.slot m.txRing i))
    (hbuf : ∀ nic, m.nic = some nic → nic.txBufPhys = c.txBuf.start) (hfit : E1000.fits m b)
    (hs : E1000.step m b = some (m', frames)) : ∀ i, Staged c (Ring.slot m'.txRing i) := by
  rcases E1000.step_cases hs with ⟨_, rfl, -, rfl, -⟩ | ⟨frame, nic, rfl, hnic, hsend, -⟩ |
    ⟨rfl, htake, -⟩
  · exact hst
  · obtain ⟨-, rfl⟩ := E1000.send_some hnic hsend
    intro i
    show Staged c (Ring.slot (Ring.put m.txRing nic.txCursor (nic.desc frame)) i)
    rw [Ring.slot_put]
    split
    · refine .inr ⟨hbuf nic hnic, ?_⟩
      have hlen : frame.length ≤ 4096 := hfit
      show (BitVec.ofNat 16 frame.length).toNat ≤ 4096
      rw [BitVec.toNat_ofNat]
      omega
    · exact hst i
  · obtain ⟨-, rfl⟩ := E1000.deviceTake_some htake
    exact hst

/-- **One step** of anybody, if a frame is sent only when there is room. -/
theorem TxInv.step {a : BitmapFrameAllocator} (hsub : c.pages ⊆ a.freeSet) (hI : Inv c mem es h)
    (hT : TxInv c es h) {act : Action} (hok : Unhurried a h act)
    (hs : Dma.step h act = some (h', es')) : TxInv c (es ++ es') h' := by
  obtain ⟨hpolite, hroom⟩ := hok
  obtain ⟨nic, hbufs, howned⟩ := hI.owned
  cases act with
  | tx b =>
    obtain ⟨⟨m', frames⟩, hstep, he⟩ := Option.map_eq_some_iff.mp hs
    cases he
    refine ⟨staged_step (m := h.txOn) hT.staged hI.buf hpolite hstep, ?_⟩
    rw [sent_append, sent_map_sent]
    exact hT.sound.step (hroom b rfl) hstep
  | rx b =>
    obtain ⟨⟨m', rs⟩, hstep, he⟩ := Option.map_eq_some_iff.mp hs
    cases he
    obtain ⟨-, -, -, hmem⟩ := rx_writes howned hstep
    refine ⟨hT.staged, ?_⟩
    rw [sent_append, sent_map_rx, List.append_nil]
    refine hT.moved fun x hx => hmem x fun i => ?_
    rw [hx, hbufs]
    exact (c.rxBuf_ne_txBuf i).symm
  | request r =>
    obtain ⟨⟨s, os⟩, -, he⟩ := Option.map_eq_some_iff.mp hs
    cases he
    rw [List.append_nil]
    exact ⟨hT.staged, hT.sound⟩
  | store addr bytes =>
    cases hs
    refine ⟨hT.staged, ?_⟩
    rw [sent_append, show sent [.stored addr bytes] = [] from rfl, List.append_nil]
    refine hT.moved fun x hx => hI.not_stored hsub hpolite ?_
    rw [hx]
    exact c.txBuf_mem

end Steps

/-! ## 7. Isolation -/

/-- A page of the allocator is below 4 GiB, so the low register has its whole address. -/
theorem ringBase_toNat {p : PhysFrame} (hp : p.number < Pmm.numFrames) :
    (ringBase (some p)).toNat = p.start := by
  have hstart := p.start_eq
  have hnum := Pmm.numFrames_eq
  have hpage : Pmm.pageSize = 4096 := rfl
  rw [hpage] at hstart
  rw [ringBase, BitVec.toNat_append, BitVec.toNat_ofNat]
  show 0 <<< 32 ||| p.start % 2 ^ 32 = p.start
  rw [Nat.zero_shiftLeft, Nat.zero_or, Nat.mod_eq_of_lt]
  omega

/-- The receive buffers are the third to the tenth page. -/
theorem slot_buildBuffers {a a' : BitmapFrameAllocator} {ps : List PhysFrame} {bufs : Rx.Buffers}
    (hps : Rx.allocPages (2 + Rx.numRx + 1) a = .ok (ps, a')) (hbufs : Rx.buildBuffers a = .ok bufs)
    (i : Nat) : ps[2 + i % Rx.numRx]? = some (Ring.slot bufs.frames i) := by
  unfold Rx.buildBuffers at hbufs
  split at hbufs
  · rename_i ps' a'' heq
    cases hps.symm.trans heq
    cases hbufs
    have hlt : i % Rx.numRx < Rx.numRx := Nat.mod_lt _ (by decide)
    have htake : ((ps.drop 2).take Rx.numRx)[i % Rx.numRx]? = ps[2 + i % Rx.numRx]? := by
      rw [List.getElem?_take_of_lt hlt, List.getElem?_drop]
    rw [← htake]
    exact List.getElem?_eq_getElem _
  · cases hbufs

/-- Eleven different frames are the pages of a card. -/
theorem exists_card {ps : List PhysFrame} (hlen : ps.length = 11) (hnodup : ps.Nodup) :
    ∃ c : Card, ∀ i < 11, ps[i]? = some (c.page i) := by
  have hget : ∀ i < 11, ps[i]? = some (ps[i]?.getD (.containingAddress 0)) := by
    intro i hi
    rw [List.getElem?_eq_getElem (by omega)]
    rfl
  refine ⟨⟨fun i => ps[i]?.getD (.containingAddress 0), fun i hi j hj he => ?_⟩, hget⟩
  have hsame : ps[i]? = ps[j]? := by rw [hget i hi, hget j hj, he]
  exact (List.getElem?_inj (by omega) hnodup).mp hsame

/-- **Bringing the card up**: eleven pages that were free, and both invariants hold. -/
theorem buildNic_spec {v v' : Vmm.State} {physOffset : Option Nat} {bar : Nat} {h : Host}
    (hup : buildNic v physOffset bar = .ok (h, v')) :
    ∃ c : Card, c.pages ⊆ v.free ∧ h.rdba.toNat = c.rxRing.start ∧ h.tdba.toNat = c.txRing.start ∧
      Inv c v.space.mem [] h ∧ TxInv c [] h := by
  rw [buildNic] at hup
  obtain ⟨⟨virt, v₁⟩, hmmio, hup⟩ := bind_eq_ok.mp hup
  obtain ⟨⟨ps, frames⟩, hps, hup⟩ := bind_eq_ok.mp hup
  obtain ⟨hsub, hmem⟩ := mapMmio_spec hmmio
  obtain ⟨hlen, hnodup, hfree⟩ := Rx.allocPages_spec hps
  obtain ⟨-, -, htaken⟩ := allocPages_taken hps
  obtain ⟨c, hc⟩ := exists_card hlen hnodup
  have hpages : ∀ f ∈ c.pages, ∃ p ∈ ps, p.number = f := by
    intro f hf
    obtain ⟨i, hi, he⟩ := Finset.mem_image.mp hf
    exact ⟨_, List.mem_of_getElem? (hc i (Finset.mem_range.mp hi)), he⟩
  have hbase : ∀ i < 11, (ringBase ps[i]?).toNat = (c.page i).start := by
    intro i hi
    rw [hc i hi]
    exact ringBase_toNat
      (Pmm.BitmapFrameAllocator.mem_freeSet.mp (hfree _ (List.mem_of_getElem? (hc i hi)))).1
  have htx : ps[2 + Rx.numRx]? = some c.txBuf := hc 10 (by decide)
  dsimp only at hup
  rw [htx] at hup
  obtain ⟨rx, hrx, hup⟩ := bind_eq_ok.mp hup
  obtain ⟨nic, howned⟩ := Rx.Owned.configure hrx
  obtain ⟨bufs, hbufs, hconf⟩ := bind_eq_ok.mp hrx
  cases hconf
  cases hup
  have hnic : nic.rxBufs = bufs := by
    have hsome := howned.present
    cases hsome
    rfl
  refine ⟨c, fun f hf => ?_, hbase 0 (by decide), hbase 1 (by decide),
    ⟨fun nic hnic => ?_, ⟨nic, fun i => ?_, howned⟩, fun f hf => ?_, fun p hp => ?_,
      fun x hx => ?_⟩,
    fun i => .inl ?_, E1000.Sound.boot (some c.txBuf.start) v₁.space.mem⟩
  · obtain ⟨p, hp, rfl⟩ := hpages f hf
    exact hsub (hfree p hp)
  · cases hnic
    rfl
  · have hslot := slot_buildBuffers hps hbufs i
    rw [hc _ (Nat.lt_succ_of_lt (Card.rxIndex_lt i))] at hslot
    rw [hnic]
    exact (Option.some.inj hslot).symm
  · obtain ⟨p, hp, rfl⟩ := hpages f hf
    exact htaken p hp
  · cases hp
  · rw [show stored v.space.mem [] = v.space.mem from rfl, ← hmem]
    exact copy_page (Nat.le_of_eq List.length_replicate) fun he => hx (he ▸ c.txBuf_mem)
  · show (Ring.slot (Vector.replicate numTx Desc.zero) i).length = 0#16
    rw [Ring.slot, Fin.getElem_fin, Vector.getElem_replicate]
    rfl

/-- **Nobody writes where another one reads.** After `init` has found the first card of the bus,
    turned it on and brought it up: it has been told where its rings are, and eleven pages that were
    free are its own. In every run of the driver, the card and the rest of the kernel on one memory,
    in any order, in which no frame is longer than the staging buffer and the rest of the kernel
    keeps to the frames it has: every byte outside these pages is what the rest of the kernel has
    made of it; it is never given one of these pages; and the frames that are received are those
    that have arrived, in order and unmodified. If every frame is sent when there is room for it, so
    are those that are sent. -/
theorem dma_isolated {cfg cfg' : Config} {v v' : Vmm.State} {physOffset : Option Nat} {h₀ : Host}
    (hup : init cfg v physOffset = .ok (some h₀, cfg', v')) :
    (∃ before dev after, devices = before ++ dev :: after ∧
      (∀ d ∈ before, pciRead cfg 0 d 0 0 ≠ cardId) ∧ pciRead cfg 0 dev 0 0 = cardId ∧
      cfg' = enabled cfg dev) ∧
    ∃ c : Card, c.pages.card = 11 ∧ c.pages ⊆ v.free ∧
      h₀.rdba.toNat = c.rxRing.start ∧ h₀.tdba.toNat = c.txRing.start ∧
      (∀ es h, Run step (Polite v.frames) h₀ es h →
        (∀ x, x / 4096 ∉ c.pages → h.mem x = stored v.space.mem es x) ∧
        (∀ p ∈ h.frames.2, p.number ∉ c.pages) ∧
        Rx.returned (received es) <+: Rx.accepted (received es)) ∧
      ∀ es h, Run step (Unhurried v.frames) h₀ es h → h.tx.InOrder (sent es) := by
  rw [init] at hup
  rcases findDeviceFrom_spec cfg devices with ⟨hnone, -⟩ |
    ⟨before, dev, after, hdevs, hfirst, hid, hfound⟩
  · rw [findDevice, hnone] at hup
    cases hup
  · rw [findDevice, hfound] at hup
    obtain ⟨⟨h, v₁⟩, hbuild, hup⟩ := bind_eq_ok.mp hup
    cases hup
    obtain ⟨c, hsub, hrdba, htdba, hinv, htx⟩ := buildNic_spec hbuild
    refine ⟨⟨before, dev, after, hdevs, hfirst, hid, rfl⟩, c, c.card_pages, hsub, hrdba, htdba,
      fun es h hrun => ?_, fun es h hrun => ?_⟩
    · have hI := hrun.invariant_events (I := Inv c v.space.mem) hinv
        fun _ _ _ _ _ hI hok hs => hI.step hsub hok hs
      obtain ⟨nic, -, howned⟩ := hI.owned
      refine ⟨hI.outside, hI.held, ?_⟩
      rw [howned.split]
      exact List.prefix_append ..
    · have hI := hrun.invariant_events (I := fun es h => Inv c v.space.mem es h ∧ TxInv c es h)
        ⟨hinv, htx⟩ fun _ _ _ _ _ hI hok hs => ⟨hI.1.step hsub hok.1 hs, hI.2.step hsub hI.1 hok hs⟩
      exact hI.2.sound.inOrder

/-- A card in slot 3, with its registers at 0xfebc0000. -/
def sampleConfig : Config := fun addr =>
  if addr = pciAddress 0 3 0 0x00 then cardId
  else if addr = pciAddress 0 3 0 0x10 then 0xfebc0000#32
  else if addr = pciAddress 0 3 0 0x04 then 0#32
  else 0xffffffff#32

/-- Every page is mapped to the frame of its number, and all frames are free. -/
def sampleMemory (a : BitmapFrameAllocator) : Vmm.State :=
  ⟨⟨fun p => some ⟨p, mmioFlags⟩, fun _ => 0#8, true, []⟩, a, ∅⟩

theorem sample_found :
    findDevice sampleConfig = (some (3, 0, 0xfebc0000#64), enabled sampleConfig 3) := by
  rfl

theorem sample_mapped (a : BitmapFrameAllocator) :
    mapMmio (sampleMemory a) (some 0) 0xfebc0000 16 = .ok (0xfebc0000, sampleMemory a) := by
  rfl

/-- Bringing the card up there: the card owns all receive descriptors but the last, the driver all
    transmit descriptors, and there are frames left. -/
theorem sample_up : ∃ h₀ cfg v buf,
    init sampleConfig (sampleMemory .allFree) (some 0) = .ok (some h₀, cfg, v) ∧
      h₀.rx.rdh = 0 ∧ h₀.rx.rdt = 7 ∧ h₀.tx = .boot (some buf) (fun _ => 0#8) ∧
      h₀.frames.2 = [] ∧ h₀.frames.1.freeSet ≠ ∅ := by
  obtain ⟨⟨ps, a⟩, hps⟩ := Rx.allocPages_ok Rx.allFree_enough
  obtain ⟨bufs, hbufs⟩ := Rx.buildBuffers_ok Rx.allFree_enough
  obtain ⟨hlen, -, -⟩ := Rx.allocPages_spec hps
  have hpage : ∃ p, ps[2 + Rx.numRx]? = some p :=
    ⟨_, List.getElem?_eq_getElem (by rw [hlen]; decide)⟩
  obtain ⟨p, hpage⟩ := hpage
  have hleft : a.freeSet ≠ ∅ := by
    intro hempty
    obtain ⟨-, hcard, -⟩ := allocPages_taken hps
    rw [hempty, BitmapFrameAllocator.freeSet_allFree, Finset.card_range, Pmm.numFrames_eq] at hcard
    exact absurd hcard (by decide)
  rw [init, sample_found]
  dsimp only
  rw [show (0xfebc0000#64).toNat = 0xfebc0000 from rfl, buildNic, sample_mapped, exec_ok_bind]
  dsimp only [sampleMemory]
  rw [show 2 + Rx.numRx + 1 = 11 from rfl, hps, exec_ok_bind]
  dsimp only
  rw [hpage, Rx.configure, hbufs]
  exact ⟨_, _, _, p.start, rfl, rfl, rfl, rfl, rfl, hleft⟩

/-- A frame arrives there, another one is sent, and the rest of the kernel is given a frame of
    memory and writes to it: that byte has been written, and every other one outside the pages of
    the card is still zero. -/
theorem dma_isolated_parties : ∃ h₀ cfg v es h p,
    init sampleConfig (sampleMemory .allFree) (some 0) = .ok (some h₀, cfg, v) ∧
      Run step (Unhurried .allFree) h₀ es h ∧ Rx.accepted (received es) = [[1#8, 2#8]] ∧
      sent es = [[3#8, 4#8, 5#8]] ∧ h.tx.InOrder (sent es) ∧ h.frames.2 = [p] ∧
      ∃ c : Card, p.number ∉ c.pages ∧ h.mem p.start = 0x41#8 ∧
        ∀ x, x / 4096 ∉ c.pages → x ≠ p.start → h.mem x = 0#8 := by
  obtain ⟨h₀, cfg, v, buf, hup, hrdh, hrdt, htx, hnone, hleft⟩ := sample_up
  -- the card receives
  have haccepts : Rx.accepts h₀.rxOn [1#8, 2#8] := by
    refine ⟨?_, by decide, by decide⟩
    show h₀.rx.rdh ≠ h₀.rx.rdt
    rw [hrdh, hrdt]
    decide
  let m₁ := Rx.deviceReceive h₀.rxOn [1#8, 2#8] .zero
  let h₁ : Host := { h₀ with rx := m₁, mem := m₁.mem }
  have hstep₁ : step h₀ (.rx (.arrive [1#8, 2#8] .zero)) =
      some (h₁, [.rx (.accepted [1#8, 2#8])]) := by
    have harrive : Rx.step h₀.rxOn (.arrive [1#8, 2#8] .zero) =
        some (m₁, [.accepted [1#8, 2#8]]) := if_pos haccepts
    rw [step, harrive]
    rfl
  have hrun₁ : Run step (Unhurried .allFree) h₀ _ h₁ := .next (Action.rx _) .start
    ⟨trivial, fun _ h => by cases h⟩ hstep₁
  -- the driver sends
  have hsend : ∃ tx, E1000.step h₁.txOn (.send [3#8, 4#8, 5#8]) = some (tx, [[3#8, 4#8, 5#8]]) := by
    rw [Host.txOn, show h₁.tx = _ from htx]
    exact ⟨_, rfl⟩
  obtain ⟨tx, hsend⟩ := hsend
  have hroom : E1000.unhurried h₁.txOn (.send [3#8, 4#8, 5#8]) := by
    refine ⟨by decide, E1000.roomy_of_quiet ?_ _⟩
    rw [Host.txOn, show h₁.tx = _ from htx]
    rfl
  let h₂ : Host := { h₁ with tx, mem := tx.mem }
  have hstep₂ : step h₁ (.tx (.send [3#8, 4#8, 5#8])) = some (h₂, [.sent [3#8, 4#8, 5#8]]) := by
    rw [step, hsend]
    rfl
  have hrun₂ : Run step (Unhurried .allFree) h₀ _ h₂ := .next (Action.tx (.send _)) hrun₁
    ⟨hroom.1, fun b h => by cases h; exact hroom⟩ hstep₂
  -- the rest of the kernel takes a frame and writes to it
  obtain ⟨hempty, -⟩ | ⟨p, a, halloc, -⟩ := h₀.frames.1.allocFrame_spec
  · exact absurd hempty hleft
  let h₃ : Host := { h₂ with frames := (a, [p]) }
  have hstep₃ : step h₂ (.request .allocate) = some (h₃, []) := by
    have hcall : callerStep h₂.frames .allocate = some ((a, [p]), [some p]) := by
      rw [callerStep, show h₂.frames = h₀.frames from rfl, halloc, hnone]
      rfl
    rw [step, hcall]
    rfl
  have hrun₃ : Run step (Unhurried .allFree) h₀ _ h₃ := .next (Action.request .allocate) hrun₂
    ⟨trivial, fun _ h => by cases h⟩ hstep₃
  have hpage : p.start / 4096 = p.number := mem_page (Nat.le_refl _) (by omega)
  have hown : Polite .allFree h₃ (.store p.start [0x41#8]) := by
    intro i hi
    cases Nat.lt_one_iff.mp (show i < 1 from hi)
    exact .inr ⟨p, List.mem_singleton_self p, hpage.symm⟩
  have hrun₄ : Run step (Unhurried .allFree) h₀ _ _ := .next (Action.store p.start [0x41#8]) hrun₃
    ⟨hown, fun _ h => by cases h⟩ rfl
  obtain ⟨-, c, -, -, -, -, hall, horder⟩ := dma_isolated hup
  obtain ⟨hmem, hheld, -⟩ := hall _ _ (hrun₄.mono fun _ _ h => h.1)
  have hnot : p.number ∉ c.pages := hheld p (List.mem_singleton_self p)
  refine ⟨h₀, cfg, v, _, _, p, hup, hrun₄, rfl, rfl, horder _ _ hrun₄, rfl, c, hnot, ?_,
    fun x hx hne => ?_⟩
  · rw [hmem p.start (hpage ▸ hnot)]
    show Store.copy (fun _ => 0#8) p.start [0x41#8] p.start = 0x41#8
    exact Store.copy_add _ p.start [0x41#8] 0
  · rw [hmem x hx]
    show Store.copy (fun _ => 0#8) p.start [0x41#8] x = 0#8
    refine Store.copy_outside fun h => hne ?_
    obtain ⟨hlo, hhi⟩ := h
    rw [List.length_singleton] at hhi
    omega

end SimpleLinux.E1000.Dma
