/-
  File:      SimpleLinux/Memory/Boot.lean
  Subject:   Seeding the frame allocator from the firmware memory map: memory/mod.rs.

  `init` frees the usable regions and marks all others used, in the order of the map, then protects
  the kernel image and the first page. Both kinds of marking round a region OUTWARD to whole pages
  (`frames_for`): right for a region that is to be protected, wrong for one that is to be freed.

  * `lastMark` -- the region that decides about a frame; `seed_freeSet` -- the free frames;
  * `Clean` -- what a free frame must be; `WholePages` -- when the map makes every free frame so;
  * `WholePages.of_aligned` -- usable regions that begin and end on page boundaries are enough;
  * `boot_frames_protected_iff`, `boot_frees_reserved`.
-/
import SimpleLinux.Memory.Pmm
import Mathlib.Data.List.Pairwise

namespace SimpleLinux.Memory

open Rust Pmm BitmapFrameAllocator

/-! ## 1. The memory map -/

inductive MemoryRegionKind
  | usable
  | bootloader
  | unknownUefi (tag : BitVec 32)
  | unknownBios (tag : BitVec 32)
  deriving DecidableEq

/-- The bytes `[start, stop)`. -/
structure MemoryRegion where
  start : Nat
  stop : Nat
  kind : MemoryRegionKind
  deriving DecidableEq

/-- What the seeding reads of `BootInfo`. -/
structure BootInfo where
  kernelAddr : Nat
  kernelLen : Nat
  memoryRegions : List MemoryRegion

def markRegion (a : BitmapFrameAllocator) (r : MemoryRegion) : Res BitmapFrameAllocator :=
  if r.kind = .usable then a.markFreeRange r.start r.stop else a.markUsedRange r.start r.stop

/-- The part of `memory::init` that seeds the allocator. -/
def seed (b : BootInfo) : Res BitmapFrameAllocator := do
  let kernelEnd ← add 64 b.kernelAddr b.kernelLen
  let a ← b.memoryRegions.foldlM markRegion new
  let a ← a.markUsedRange b.kernelAddr kernelEnd
  a.markUsedRange 0 pageSize

/-! ## 2. Which frames end up free -/

/-- The region marked last among those that touch frame `f`. -/
def lastMark (rs : List MemoryRegion) (f : Nat) : Option MemoryRegion :=
  rs.reverse.find? fun r => decide (f ∈ touching r.start r.stop)

theorem lastMark_cons (r : MemoryRegion) (rs : List MemoryRegion) (f : Nat) :
    lastMark (r :: rs) f =
      (lastMark rs f).or (if f ∈ touching r.start r.stop then some r else none) := by
  unfold lastMark
  rw [List.reverse_cons, List.find?_append, List.find?_singleton]
  simp only [decide_eq_true_eq]

theorem lastMark_mem {rs : List MemoryRegion} {f : Nat} {r : MemoryRegion}
    (h : lastMark rs f = some r) : r ∈ rs ∧ f ∈ touching r.start r.stop := by
  unfold lastMark at h
  have htouch := List.find?_some h
  exact ⟨List.mem_reverse.mp (List.mem_of_find?_eq_some h), of_decide_eq_true htouch⟩

/-- Whether frame `f` is free after the regions: the last one that touches it says, and if there is
    none it stays as it was. -/
def FreeAfter (rs : List MemoryRegion) (before : Finset Nat) (f : Nat) : Prop :=
  match lastMark rs f with
  | some r => r.kind = .usable
  | none => f ∈ before

theorem markRegion_spec (a : BitmapFrameAllocator) (r : MemoryRegion) :
    ∃ a', markRegion a r = .ok a' ∧ ∀ f, f ∈ a'.freeSet ↔
      if f ∈ touching r.start r.stop then r.kind = .usable else f ∈ a.freeSet := by
  unfold markRegion
  by_cases hk : r.kind = .usable
  · obtain ⟨a', he, hfree, -⟩ := a.markFreeRange_spec r.start r.stop
    rw [if_pos hk]
    refine ⟨a', he, fun f => ?_⟩
    rw [hfree, Finset.mem_union]
    by_cases hf : f ∈ touching r.start r.stop <;> simp [hf, hk]
  · obtain ⟨a', he, hfree, -⟩ := a.markUsedRange_spec r.start r.stop
    rw [if_neg hk]
    refine ⟨a', he, fun f => ?_⟩
    rw [hfree, Finset.mem_sdiff]
    by_cases hf : f ∈ touching r.start r.stop <;> simp [hf, hk]

/-- The loop over the map. -/
theorem foldlM_markRegion (rs : List MemoryRegion) (a : BitmapFrameAllocator) :
    ∃ a', rs.foldlM markRegion a = .ok a' ∧ ∀ f, f ∈ a'.freeSet ↔ FreeAfter rs a.freeSet f := by
  induction rs generalizing a with
  | nil => exact ⟨a, rfl, fun f => Iff.rfl⟩
  | cons r rs ih =>
    obtain ⟨a₁, h₁, hfree₁⟩ := markRegion_spec a r
    obtain ⟨a₂, h₂, hfree₂⟩ := ih a₁
    refine ⟨a₂, ?_, fun f => ?_⟩
    · rw [List.foldlM_cons, h₁]
      exact h₂
    · rw [hfree₂, FreeAfter, FreeAfter, lastMark_cons]
      -- a later region overrides this one
      rcases lastMark rs f with - | q
      · rw [Option.none_or]
        dsimp only
        rw [hfree₁]
        by_cases hf : f ∈ touching r.start r.stop <;> simp [hf]
      · rfl

/-- **The free frames after the seeding.** -/
theorem seed_freeSet (b : BootInfo) (hk : b.kernelAddr + b.kernelLen < 2 ^ 64) :
    ∃ a, seed b = .ok a ∧ ∀ f, f ∈ a.freeSet ↔
      (∃ r, lastMark b.memoryRegions f = some r ∧ r.kind = .usable) ∧
        f ∉ touching b.kernelAddr (b.kernelAddr + b.kernelLen) ∧ f ∉ touching 0 pageSize := by
  obtain ⟨a₁, h₁, hfree₁⟩ := foldlM_markRegion b.memoryRegions new
  obtain ⟨a₂, h₂, hfree₂, -⟩ := a₁.markUsedRange_spec b.kernelAddr (b.kernelAddr + b.kernelLen)
  obtain ⟨a₃, h₃, hfree₃, -⟩ := a₂.markUsedRange_spec 0 pageSize
  refine ⟨a₃, ?_, fun f => ?_⟩
  · rw [seed, add_of_lt hk, ok_bind, h₁, ok_bind, h₂, ok_bind, h₃]
  · rw [hfree₃, Finset.mem_sdiff, hfree₂, Finset.mem_sdiff, hfree₁, FreeAfter, freeSet_new,
      and_assoc]
    rcases lastMark b.memoryRegions f with - | q <;> simp

/-! ## 3. What a free frame must be -/

def MemoryRegion.Holds (r : MemoryRegion) (x : Nat) : Prop := r.start ≤ x ∧ x < r.stop

namespace BootInfo

variable (b : BootInfo)

/-- No byte is in two regions. -/
def Disjoint : Prop := b.memoryRegions.Pairwise fun r q => ∀ x, ¬ (r.Holds x ∧ q.Holds x)

/-- Byte `x` is in a usable region. -/
def Usable (x : Nat) : Prop := ∃ r ∈ b.memoryRegions, r.kind = .usable ∧ r.Holds x

/-- No byte of frame `f` is in a region that is not usable, in the kernel image, in the first page,
    or in no usable region at all. -/
def Clean (f : Nat) : Prop :=
  ∀ x, x / pageSize = f →
    (∀ r ∈ b.memoryRegions, r.kind ≠ .usable → ¬ r.Holds x) ∧
    ¬ (b.kernelAddr ≤ x ∧ x < b.kernelAddr + b.kernelLen) ∧ pageSize ≤ x ∧ b.Usable x

/-- **The condition on the map**: a frame whose last mark is a usable region lies in usable regions
    as a whole, unless it is the first one or touches the kernel image. -/
def WholePages : Prop :=
  ∀ f r, lastMark b.memoryRegions f = some r → r.kind = .usable → f ≠ 0 →
    f ∉ touching b.kernelAddr (b.kernelAddr + b.kernelLen) → ∀ x, x / pageSize = f → b.Usable x

variable {b}

theorem Disjoint.not_holds (h : b.Disjoint) {x : Nat} (hx : b.Usable x) {r : MemoryRegion}
    (hr : r ∈ b.memoryRegions) (hk : r.kind ≠ .usable) : ¬ r.Holds x := by
  obtain ⟨q, hq, hqk, hqx⟩ := hx
  have hne : r ≠ q := fun e => hk (e ▸ hqk)
  have hsymm : Std.Symm fun r q : MemoryRegion => ∀ x, ¬ (r.Holds x ∧ q.Holds x) :=
    ⟨fun _ _ hrq x hx => hrq x ⟨hx.2, hx.1⟩⟩
  exact fun hrx => (List.Pairwise.forall h hr hq hne) x ⟨hrx, hqx⟩

/-- Usable regions that begin and end on page boundaries make whole pages. -/
theorem WholePages.of_aligned (h : ∀ r ∈ b.memoryRegions, r.kind = .usable →
    pageSize ∣ r.start ∧ pageSize ∣ r.stop) : b.WholePages := by
  intro f r hlast hk _ _ x hx
  obtain ⟨hmem, htouch⟩ := lastMark_mem hlast
  obtain ⟨-, hstop, hstart⟩ := mem_touching.mp htouch
  obtain ⟨⟨i, hi⟩, ⟨j, hj⟩⟩ := h r hmem hk
  have hpage : pageSize = 4096 := rfl
  rw [hpage] at hx hstop hstart hi hj
  exact ⟨r, hmem, hk, by omega, by omega⟩

end BootInfo

theorem mem_touching_first {f : Nat} : f ∈ touching 0 pageSize ↔ f = 0 := by
  have hpage : pageSize = 4096 := rfl
  have hpos : 0 < numFrames := numFrames_eq ▸ by decide
  rw [mem_touching, hpage]
  constructor
  · rintro ⟨-, hlt, -⟩
    omega
  · rintro rfl
    omega

/-- A frame with a byte in a range is touched by it. -/
theorem mem_touching_of_byte {lo hi x f : Nat} (hf : f < numFrames) (hx : x / pageSize = f)
    (hlo : lo ≤ x) (hhi : x < hi) : f ∈ touching lo hi :=
  (mem_touching_byte (Nat.lt_of_le_of_lt hlo hhi)).mpr ⟨hf, x, hlo, hhi, hx⟩

/-! ## 4. When the free frames are clean -/

open Runs

theorem clean_free_iff {b : BootInfo} (hdis : b.Disjoint) {free : Finset Nat}
    (hfree : ∀ f, f ∈ free ↔ (∃ r, lastMark b.memoryRegions f = some r ∧ r.kind = .usable) ∧
      f ∉ touching b.kernelAddr (b.kernelAddr + b.kernelLen) ∧ f ∉ touching 0 pageSize) :
    (∀ f ∈ free, b.Clean f) ↔ b.WholePages := by
  constructor
  · intro hclean f r hlast hk hne hker x hx
    have hf : f ∈ free := (hfree f).mpr ⟨⟨r, hlast, hk⟩, hker, mt mem_touching_first.mp hne⟩
    exact (hclean f hf x hx).2.2.2
  · intro hwhole f hf x hx
    obtain ⟨⟨r, hlast, hk⟩, hker, hfirst⟩ := (hfree f).mp hf
    have hlt : f < numFrames := (mem_touching.mp (lastMark_mem hlast).2).1
    have hne : f ≠ 0 := fun e => hfirst (mem_touching_first.mpr e)
    have husable := hwhole f r hlast hk hne hker x hx
    refine ⟨fun q hq hqk => hdis.not_holds husable hq hqk, ?_, ?_, husable⟩
    · exact fun hx' => hker (mem_touching_of_byte hlt hx hx'.1 hx'.2)
    · rw [← hx] at hne
      exact Nat.le_of_not_lt fun hlt => hne (Nat.div_eq_of_lt hlt)

/-- Callers that free only what they hold are handed out no frame that was not free at the start. -/
theorem handed_out_free {a : BitmapFrameAllocator} {s : BitmapFrameAllocator × List PhysFrame}
    {es : List (Option PhysFrame)} (hr : Run callerStep FreesHeld (a, []) es s) :
    ∀ p, some p ∈ es → p.number ∈ a.freeSet := by
  let I : List (Option PhysFrame) → BitmapFrameAllocator × List PhysFrame → Prop := fun es s =>
    s.1.freeSet ⊆ a.freeSet ∧ (∀ p ∈ s.2, p.number ∈ a.freeSet) ∧
      ∀ p, some p ∈ es → p.number ∈ a.freeSet
  suffices h : I es s from h.2.2
  refine hr.invariant_events ⟨subset_rfl, by simp, by simp⟩ ?_
  intro es s r s' es' hI hok hs
  obtain ⟨hsub, hheld, hout⟩ := hI
  rcases r with - | q
  · rcases s.1.allocFrame_spec with ⟨-, he⟩ | ⟨p, a', he, hp, hfree, -⟩
    · simp only [callerStep, he, Option.some.injEq, Prod.mk.injEq] at hs
      obtain ⟨rfl, rfl⟩ := hs
      refine ⟨hsub, hheld, fun p hp => hout p ?_⟩
      simpa using hp
    · simp only [callerStep, he, Option.some.injEq, Prod.mk.injEq] at hs
      obtain ⟨rfl, rfl⟩ := hs
      refine ⟨?_, List.forall_mem_cons.mpr ⟨hsub hp, hheld⟩, fun q hq => ?_⟩
      · rw [hfree]
        exact (Finset.erase_subset _ _).trans hsub
      · rcases List.mem_append.mp hq with hq | hq
        · exact hout q hq
        · cases List.mem_singleton.mp hq
          exact hsub hp
  · obtain ⟨a', he, -, hin, hbeyond⟩ := s.1.freeFrame_spec q
    simp only [callerStep, he, Option.some.injEq, Prod.mk.injEq] at hs
    obtain ⟨rfl, rfl⟩ := hs
    refine ⟨?_, fun p hp => hheld p (List.mem_of_mem_erase hp), by simpa using hout⟩
    have hq := hheld q hok
    rw [hin (mem_freeSet.mp hq).1]
    exact Finset.insert_subset hq hsub

/-- **Boot-time protection.** For every map of disjoint regions and every kernel image range the
    seeding does not panic; and every free frame is clean, and so is every frame ever handed out to
    callers that free only what they hold, iff the map makes whole pages. -/
theorem boot_frames_protected_iff (b : BootInfo) (hdis : b.Disjoint)
    (hk : b.kernelAddr + b.kernelLen < 2 ^ 64) :
    ∃ a, seed b = .ok a ∧
      (((∀ f ∈ a.freeSet, b.Clean f) ∧
        ∀ es s, Run callerStep FreesHeld (a, []) es s → ∀ p, some p ∈ es → b.Clean p.number) ↔
      b.WholePages) := by
  obtain ⟨a, hseed, hfree⟩ := seed_freeSet b hk
  have hiff := clean_free_iff hdis hfree
  refine ⟨a, hseed, fun h => hiff.mp h.1, fun h => ?_⟩
  have hclean := hiff.mpr h
  exact ⟨hclean, fun es s hr p hp => hclean _ (handed_out_free hr p hp)⟩

/-- A map of page-aligned regions around the kernel. -/
def alignedMap : BootInfo where
  kernelAddr := 0x200000
  kernelLen := 0x80123
  memoryRegions := [⟨0, 0x9f000, .usable⟩, ⟨0x9f000, 0x100000, .unknownBios 2#32⟩,
    ⟨0x100000, 0x7fe0000, .usable⟩]

theorem boot_frames_protected_aligned :
    ∃ a, seed alignedMap = .ok a ∧ (∀ f ∈ a.freeSet, alignedMap.Clean f) ∧
      ∀ es s, Run callerStep FreesHeld (a, []) es s → ∀ p, some p ∈ es →
        alignedMap.Clean p.number := by
  have hdis : alignedMap.Disjoint := by
    simp only [BootInfo.Disjoint, alignedMap, MemoryRegion.Holds, List.pairwise_cons,
      List.mem_cons, List.not_mem_nil, or_false, forall_eq_or_imp, forall_eq, List.Pairwise.nil]
    refine ⟨⟨fun x => ?_, fun x => ?_⟩, fun x => ?_, ?_⟩ <;> first | omega | simp
  have hwhole : alignedMap.WholePages := .of_aligned (by decide)
  obtain ⟨a, hseed, hiff⟩ := boot_frames_protected_iff alignedMap hdis (by decide)
  exact ⟨a, hseed, hiff.mpr hwhole⟩

/-- A reserved region that ends inside a page, followed by the usable one that begins there. -/
def raggedMap : BootInfo where
  kernelAddr := 0x200000
  kernelLen := 0x80123
  memoryRegions := [⟨0xf0000, 0x100400, .unknownBios 2#32⟩, ⟨0x100400, 0x7fe0000, .usable⟩]

/-- The page that the two regions share ends up free, with 1024 reserved bytes in it. -/
theorem boot_frees_reserved :
    raggedMap.Disjoint ∧ ∃ a, seed raggedMap = .ok a ∧ 0x100 ∈ a.freeSet ∧
      ∃ r ∈ raggedMap.memoryRegions, r.kind ≠ .usable ∧ r.Holds 0x100000 ∧
        0x100000 / pageSize = 0x100 := by
  refine ⟨?_, ?_⟩
  · simp only [BootInfo.Disjoint, raggedMap, MemoryRegion.Holds, List.pairwise_cons,
      List.mem_cons, List.not_mem_nil, or_false, forall_eq, List.Pairwise.nil]
    refine ⟨fun x => ?_, ?_⟩ <;> first | omega | simp
  · obtain ⟨a, hseed, hfree⟩ := seed_freeSet raggedMap (by decide)
    have hlt : 0x100 < numFrames := numFrames_eq ▸ by decide
    have htouch : (0x100 : Nat) ∈ touching 0x100400 0x7fe0000 :=
      mem_touching.mpr ⟨hlt, by decide, by decide⟩
    refine ⟨a, hseed, (hfree 0x100).mpr ⟨⟨⟨0x100400, 0x7fe0000, .usable⟩, ?_, rfl⟩, ?_, ?_⟩, ?_⟩
    · simp [lastMark, raggedMap, htouch]
    · exact fun hf => absurd (mem_touching.mp hf).2 (by decide)
    · exact fun hf => absurd (mem_touching_first.mp hf) (by decide)
    · exact ⟨⟨0xf0000, 0x100400, .unknownBios 2#32⟩, by simp [raggedMap], by decide,
        ⟨by decide, by decide⟩, by decide⟩

end SimpleLinux.Memory
