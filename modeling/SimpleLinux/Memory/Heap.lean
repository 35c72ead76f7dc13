/-
  File:      SimpleLinux/Memory/Heap.lean
  Subject:   From the memory map to the kernel heap: memory/mod.rs (`init`), memory/heap.rs (`init`)
             and memory/vmm.rs (`allocate_and_map`).

  `memory::init` seeds the frame allocator (Memory/Boot) and then maps the 256 pages of the heap,
  each to the next frame that the allocator hands out; the tables on the way take frames of the same
  allocator, in between.

  * `allocateAndMap`, `mapFresh` -- one fresh page, and a list of them; `Backed` -- everything that
    mapping the list does; `mapFresh_spec` -- when it succeeds;
  * `heapInit`, `init` -- the two functions; `heapInit_eq`, `init_eq` -- the heap is a list of
    pages;
  * `boot_heap_mapped` -- when `memory::init` returns, and what the heap then is.

  NOT here: the linked-list allocator that is given the range, and what `println!` prints.
-/
import SimpleLinux.Memory.Boot
import SimpleLinux.Memory.Vmm
import Mathlib.Data.Finset.Union
import Mathlib.Order.Interval.Finset.Nat

namespace SimpleLinux.Vmm

open Rust Paging
open Pmm (PhysFrame BitmapFrameAllocator)

/-! ## 1. Fresh pages -/

/-- `kernel_data_flags`. -/
def kernelDataFlags : Flags := ⟨true, false, true⟩

namespace State

/-- `allocate_and_map`: the physical address of the frame that `page` is mapped to. -/
def allocateAndMap (v : State) (page : Nat) (flags : Flags) :
    Res (Except MapError Nat × State) := do
  match ← v.allocFrame with
  | (none, v) => return (.error .outOfFrames, v)
  | (some frame, v) =>
    match ← v.mapPage page frame flags with
    | (.error e, v) => return (.error e, v)
    | (.ok (), v) => return (.ok frame.start, v)

/-- `allocate_and_map(page, flags).expect(msg)`. -/
def mapOrExpect (msg : String) (flags : Flags) (v : State) (page : Nat) : Exec State := do
  match ← lift (v.allocateAndMap page flags) with
  | (.error _, _) => throw (.expect msg)
  | (.ok _, v) => return v

/-- One page after the other. -/
def mapFresh (msg : String) (flags : Flags) (v : State) (pages : List Nat) : Exec State :=
  pages.foldlM (mapOrExpect msg flags) v

/-- The frames that mapping `pages` takes: one for each, and one for each table that is not
    there. -/
def cost (v : State) (pages : List Nat) : Nat :=
  pages.length + (v.missing (pages.flatMap tableKeys)).card

/-- **What mapping fresh pages does**: each is mapped to a frame of its own that was free and is not
    free any more, and no other page changes. -/
structure Backed (v : State) (pages : List Nat) (flags : Flags) (v' : State) : Prop where
  mapped : ∀ p ∈ pages, ∃ f ∈ v.free, f ∉ v'.free ∧ v'.space.pages p = some ⟨f, flags⟩
  apart : Apart v'.space (· ∈ pages)
  kept : ∀ p, p ∉ pages → v'.space.pages p = v.space.pages p
  took : v.Took (v.cost pages) v'
  tables : v'.tables = v.tables ∪ (pages.flatMap tableKeys).toFinset

section Fresh

variable {v v₁ v' : State} {page : Nat} {pages : List Nat} {flags : Flags} {msg : String}

theorem cost_nil (v : State) : v.cost [] = 0 := by
  unfold cost missing
  rw [List.flatMap_nil, List.toFinset_nil, Finset.empty_sdiff]
  rfl

/-- The tables of the first page are there for the others. -/
theorem cost_cons (htables : v₁.tables = v.tables ∪ (tableKeys page).toFinset) :
    v.cost (page :: pages) = (v.missing (tableKeys page)).card + 1 + v₁.cost pages := by
  have hsplit : v.missing ((page :: pages).flatMap tableKeys) =
      v.missing (tableKeys page) ∪ v₁.missing (pages.flatMap tableKeys) := by
    unfold missing
    rw [htables, List.flatMap_cons, List.toFinset_append]
    ext k
    simp only [Finset.mem_sdiff, Finset.mem_union]
    tauto
  have hdisjoint : Disjoint (v.missing (tableKeys page))
      (v₁.missing (pages.flatMap tableKeys)) := by
    rw [Finset.disjoint_left]
    intro k hk hk₁
    unfold missing at hk hk₁
    rw [htables] at hk₁
    exact (Finset.mem_sdiff.mp hk₁).2 (Finset.mem_union_right _ (Finset.mem_sdiff.mp hk).1)
  unfold cost
  rw [hsplit, Finset.card_union_of_disjoint hdisjoint, List.length_cons]
  omega

/-- **`allocate_and_map`** of a page that is not mapped. -/
theorem mapOrExpect_spec (h : v.space.pages page = none) (msg : String) (flags : Flags) :
    ((v.missing (tableKeys page)).card + 1 ≤ v.free.card ∧
      ∃ f v₁, v.mapOrExpect msg flags page = .ok v₁ ∧ f ∈ v.free ∧ f ∉ v₁.free ∧
        v.Took ((v.missing (tableKeys page)).card + 1) v₁ ∧
        v₁.space = v.space.map page ⟨f, flags⟩ ∧
        v₁.tables = v.tables ∪ (tableKeys page).toFinset) ∨
    (v.free.card < (v.missing (tableKeys page)).card + 1 ∧
      v.mapOrExpect msg flags page = .error (.expect msg)) := by
  unfold mapOrExpect allocateAndMap
  rcases v.allocFrame_spec with ⟨hempty, he⟩ | ⟨p, v₀, he, hp, hgone, htook, hspace, htables⟩
  · refine .inr ⟨?_, ?_⟩
    · rw [hempty, Finset.card_empty]
      exact Nat.succ_pos _
    · rw [he]
      rfl
  · have hmissing : v₀.missing (tableKeys page) = v.missing (tableKeys page) := by
      unfold missing
      rw [htables]
    have hcard := htook.card
    rw [he, ok_bind]
    dsimp only
    rcases mapPage_spec (hspace ▸ h) p flags with
      ⟨hle, v₁, he₁, htook₁, hspace₁, htables₁⟩ | ⟨hlt, v₁, he₁⟩
    · rw [hmissing] at hle htook₁
      have hall := htook.trans htook₁
      rw [Nat.add_comm] at hall
      refine .inl ⟨by omega, p.number, v₁, ?_, hp, fun hm => hgone (htook₁.subset hm), hall, ?_, ?_⟩
      · rw [he₁]
        rfl
      · rw [hspace₁, hspace]
      · rw [htables₁, htables]
    · rw [hmissing] at hlt
      refine .inr ⟨by omega, ?_⟩
      rw [he₁]
      rfl

/-- One page, then the others. -/
theorem Backed.cons {f : Nat} (hpage : page ∉ pages) (hf : f ∈ v.free) (hgone : f ∉ v₁.free)
    (htook : v.Took ((v.missing (tableKeys page)).card + 1) v₁)
    (hspace : v₁.space = v.space.map page ⟨f, flags⟩)
    (htables : v₁.tables = v.tables ∪ (tableKeys page).toFinset) (h : Backed v₁ pages flags v') :
    Backed v (page :: pages) flags v' := by
  have hself : v'.space.pages page = some ⟨f, flags⟩ := by
    rw [h.kept page hpage, hspace]
    exact Function.update_self ..
  refine ⟨?_, ?_, ?_, ?_, ?_⟩
  · intro p hp
    rcases List.mem_cons.mp hp with rfl | hp
    · exact ⟨f, hf, fun hm => hgone (h.took.subset hm), hself⟩
    · obtain ⟨g, hg, hng, hmap⟩ := h.mapped p hp
      exact ⟨g, htook.subset hg, hng, hmap⟩
  · -- the frames of the others were still free when `page` had taken its own
    have hother : ∀ q ∈ pages, ∀ n, v'.space.pages q = some n → n.frame ≠ f := by
      intro q hq n hn e
      obtain ⟨g, hg, -, hmap⟩ := h.mapped q hq
      rw [hmap] at hn
      cases hn
      exact hgone (e ▸ hg)
    intro p q m n hp hq hm hn e
    rcases List.mem_cons.mp hp with rfl | hp'
    · rw [hself] at hm
      cases hm
      rcases List.mem_cons.mp hq with rfl | hq'
      · rfl
      · exact absurd e.symm (hother q hq' n hn)
    · rcases List.mem_cons.mp hq with rfl | hq'
      · rw [hself] at hn
        cases hn
        exact absurd e (hother p hp' m hm)
      · exact h.apart p q m n hp' hq' hm hn e
  · intro p hp
    rw [List.mem_cons, not_or] at hp
    rw [h.kept p hp.2, hspace]
    exact Function.update_of_ne hp.1 _ _
  · rw [cost_cons htables]
    exact htook.trans h.took
  · rw [h.tables, htables, List.flatMap_cons, List.toFinset_append, Finset.union_assoc]

/-- **Fresh pages** are mapped exactly if there is a free frame for each of them and for each
    missing table. -/
theorem mapFresh_spec (hnodup : pages.Nodup) (hnone : ∀ p ∈ pages, v.space.pages p = none)
    (msg : String) (flags : Flags) :
    (v.cost pages ≤ v.free.card ∧ ∃ v', v.mapFresh msg flags pages = .ok v' ∧
      Backed v pages flags v') ∨
    (v.free.card < v.cost pages ∧ v.mapFresh msg flags pages = .error (.expect msg)) := by
  induction pages generalizing v with
  | nil =>
    rw [cost_nil]
    refine .inl ⟨Nat.zero_le _, v, rfl, ?_⟩
    refine ⟨fun _ hp => (nomatch hp), fun _ _ _ _ hp => (nomatch hp), fun _ _ => rfl,
      (cost_nil v).symm ▸ Took.refl v, ?_⟩
    rw [List.flatMap_nil, List.toFinset_nil, Finset.union_empty]
  | cons page pages ih =>
    rw [List.nodup_cons] at hnodup
    have hpage := hnone page List.mem_cons_self
    rcases mapOrExpect_spec hpage msg flags with
      ⟨hle, f, v₁, he, hf, hgone, htook, hspace, htables⟩ | ⟨hlt, he⟩
    · have hcost : v.cost (page :: pages) = _ := cost_cons htables
      have hcard := htook.card
      have hnone₁ : ∀ p ∈ pages, v₁.space.pages p = none := by
        intro p hp
        have hne : p ≠ page := fun e => hnodup.1 (e ▸ hp)
        rw [hspace]
        exact (Function.update_of_ne hne _ _).trans (hnone p (List.mem_cons_of_mem _ hp))
      have hstep : v.mapFresh msg flags (page :: pages) = v₁.mapFresh msg flags pages := by
        rw [mapFresh, List.foldlM_cons, he]
        rfl
      rw [hstep]
      rcases ih hnodup.2 hnone₁ with ⟨hle', v', he', hb⟩ | ⟨hlt', he'⟩
      · exact .inl ⟨by omega, v', he', hb.cons hnodup.1 hf hgone htook hspace htables⟩
      · exact .inr ⟨by omega, he'⟩
    · let v₁ : State := { v with tables := v.tables ∪ (tableKeys page).toFinset }
      have hcost : v.cost (page :: pages) = _ + v₁.cost pages := cost_cons rfl
      refine .inr ⟨by omega, ?_⟩
      rw [mapFresh, List.foldlM_cons, he]
      rfl

end Fresh

end State

end SimpleLinux.Vmm

namespace SimpleLinux.Memory

open Rust Paging Runs
open Pmm hiding pageSize
open Vmm

/-! ## 2. `heap::init` and `memory::init` -/

/-- `HEAP_START`. -/
def heapStart : Nat := 0xffffa00000000000

/-- `HEAP_SIZE`. -/
def heapSize : Nat := 1024 * 1024

/-- One turn of the loop of `heap::init`. -/
def heapTurn (base : Nat) (v : State) (i : Nat) : Exec State := do
  let off ← lift (mul 64 i pageSize)
  let sum ← lift (add 64 base off)
  let addr ← lift (virtAddr sum)
  v.mapOrExpect "failed to map heap page" kernelDataFlags (addr / pageSize)

/-- `heap::init`, up to the hand-over of the range. -/
def heapInit (v : State) : Exec State := do
  let base ← lift (virtAddr heapStart)
  (List.range (heapSize / pageSize)).foldlM (heapTurn base) v

/-- `memory::init`, given the pages and the tables that the bootloader has left. -/
def init (physicalMemoryOffset : Option Nat) (b : BootInfo) (space : Space)
    (tables : Finset (Nat × Nat)) : Exec State :=
  match physicalMemoryOffset with
  | none => .error (.expect
      "bootloader did not map physical memory (enable config.mappings.physical_memory)")
  | some offset => do
    let _ ← lift (virtAddr offset)
    let frames ← lift (seed b)
    let _ ← lift frames.freeCount
    heapInit { space, frames, tables }

/-- The pages of the heap. -/
def heapPages : List Nat := (List.range (heapSize / pageSize)).map (heapStart / pageSize + ·)

theorem mem_heapPages {p : Nat} :
    p ∈ heapPages ↔ heapStart / pageSize ≤ p ∧ p < heapStart / pageSize + heapSize / pageSize := by
  unfold heapPages
  rw [List.mem_map]
  constructor
  · intro ⟨i, hi, e⟩
    rw [List.mem_range] at hi
    omega
  · intro ⟨hlo, hhi⟩
    exact ⟨p - heapStart / pageSize, List.mem_range.mpr (by omega), by omega⟩

theorem heapPages_nodup : heapPages.Nodup :=
  List.nodup_range.map fun _ _ h => Nat.add_left_cancel h

/-- An address is in the heap exactly if its page is. -/
theorem div_mem_heapPages {addr : Nat} :
    addr / pageSize ∈ heapPages ↔ heapStart ≤ addr ∧ addr < heapStart + heapSize := by
  rw [mem_heapPages]
  unfold heapStart heapSize pageSize
  omega

/-- All pages of the heap are in the same tables. -/
theorem tableKeys_heap {p : Nat} (hp : p ∈ heapPages) :
    tableKeys p = tableKeys (heapStart / pageSize) := by
  rw [mem_heapPages] at hp
  unfold heapStart heapSize pageSize at hp
  have h3 : p / 2 ^ 27 = heapStart / pageSize / 2 ^ 27 := by unfold heapStart pageSize; omega
  have h2 : p / 2 ^ 18 = heapStart / pageSize / 2 ^ 18 := by unfold heapStart pageSize; omega
  have h1 : p / 2 ^ 9 = heapStart / pageSize / 2 ^ 9 := by unfold heapStart pageSize; omega
  unfold tableKeys
  rw [h3, h2, h1]

/-- So the heap needs one table of each level, at most. -/
theorem cost_heapPages_le (v : State) : v.cost heapPages ≤ 259 := by
  have hkeys : (heapPages.flatMap tableKeys).toFinset ⊆
      (tableKeys (heapStart / pageSize)).toFinset := by
    intro k hk
    rw [List.mem_toFinset, List.mem_flatMap] at hk
    obtain ⟨p, hp, hk⟩ := hk
    rw [List.mem_toFinset, ← tableKeys_heap hp]
    exact hk
  have hcard : (v.missing (heapPages.flatMap tableKeys)).card ≤ 3 :=
    (Finset.card_le_card (Finset.sdiff_subset.trans hkeys)).trans (List.toFinset_card_le _)
  have hlen : heapPages.length = 256 := by
    rw [heapPages, List.length_map, List.length_range]
    rfl
  unfold State.cost
  omega

theorem heapTurn_eq {i : Nat} (hi : i < heapSize / pageSize) (v : State) :
    heapTurn heapStart v i =
      v.mapOrExpect "failed to map heap page" kernelDataFlags (heapStart / pageSize + i) := by
  have hi' : i < 256 := hi
  have hmul : mul 64 i pageSize = .ok (i * pageSize) := mul_of_lt (by unfold pageSize; omega)
  have hadd : add 64 heapStart (i * pageSize) = .ok (heapStart + i * pageSize) :=
    add_of_lt (by unfold heapStart pageSize; omega)
  have hvirt : virtAddr (heapStart + i * pageSize) = .ok (heapStart + i * pageSize) :=
    virtAddr_eq_ok.mpr ⟨.inr (by unfold heapStart pageSize; omega), rfl⟩
  have hdiv : (heapStart + i * pageSize) / pageSize = heapStart / pageSize + i :=
    Nat.add_mul_div_right _ _ (by decide)
  rw [heapTurn, hmul, lift_ok, exec_ok_bind, hadd, lift_ok, exec_ok_bind, hvirt, lift_ok,
    exec_ok_bind, hdiv]

/-- **The loop of `heap::init` maps the pages of the heap.** -/
theorem heapInit_eq (v : State) :
    heapInit v = v.mapFresh "failed to map heap page" kernelDataFlags heapPages := by
  have hloop : ∀ (is : List Nat) (v : State), (∀ i ∈ is, i < heapSize / pageSize) →
      is.foldlM (heapTurn heapStart) v =
        v.mapFresh "failed to map heap page" kernelDataFlags
        (is.map (heapStart / pageSize + ·)) := by
    intro is
    induction is with
    | nil => exact fun _ _ => rfl
    | cons i is ih =>
      intro v hlt
      rw [List.foldlM_cons, heapTurn_eq (hlt i List.mem_cons_self), State.mapFresh, List.map_cons,
        List.foldlM_cons]
      exact congrArg _ (funext fun v₁ => ih v₁ fun k hk => hlt k (List.mem_cons_of_mem i hk))
  exact hloop _ v fun i hi => List.mem_range.mp hi

theorem init_eq {b : BootInfo} {a : BitmapFrameAllocator} (hseed : seed b = .ok a) {offset : Nat}
    (hoff : Canonical offset) (space : Space) (tables : Finset (Nat × Nat)) :
    init (some offset) b space tables = heapInit ⟨space, a, tables⟩ := by
  have hvirt : virtAddr offset = .ok offset := virtAddr_eq_ok.mpr ⟨hoff, rfl⟩
  rw [init, hvirt, lift_ok, exec_ok_bind, hseed, lift_ok, exec_ok_bind, a.freeCount_spec, lift_ok,
    exec_ok_bind]

/-! ## 3. The heap -/

/-- **The kernel heap**: the address space and the allocator after `memory::init`, against the free
    frames before the heap was mapped. -/
structure HeapMapped (free : Finset Nat) (pages : Nat → Option Mapping) (v : State) : Prop where
  /-- every page of the heap has a frame of its own, writable, not for user mode, not executable -/
  backed : ∀ p ∈ heapPages, ∃ f ∈ free, f ∉ v.free ∧ v.space.pages p = some ⟨f, kernelDataFlags⟩
  apart : Apart v.space (· ∈ heapPages)
  kept : ∀ p, p ∉ heapPages → v.space.pages p = pages p
  /-- what is stored to the heap is read back, and nothing else of the heap changes -/
  stores : ∀ addr bs, heapStart ≤ addr → addr + bs.length ≤ heapStart + heapSize →
    ∃ s, storeAll v.space addr bs = .ok s ∧
      ∀ x, heapStart ≤ x → x < heapStart + heapSize →
        s.contents x = Store.copy v.space.contents addr bs x
  /-- whoever asks for frames afterwards is never given one of the heap -/
  reserved : ∀ es s, Run callerStep FreesHeld (v.frames, []) es s → ∀ q, some q ∈ es →
    q.number ∈ free ∧ ∀ p ∈ heapPages, ∀ m, v.space.pages p = some m → m.frame ≠ q.number

theorem heap_stores {v v' : State} (h : v.Backed heapPages kernelDataFlags v') {addr : Nat}
    {bs : List (BitVec 8)} (hlo : heapStart ≤ addr)
    (hhi : addr + bs.length ≤ heapStart + heapSize) :
    ∃ s, storeAll v'.space addr bs = .ok s ∧
      ∀ x, heapStart ≤ x → x < heapStart + heapSize →
        s.contents x = Store.copy v'.space.contents addr bs x := by
  have htop : heapStart + heapSize ≤ 2 ^ 64 := by decide
  have hin : ∀ i < bs.length, (addr + i) / pageSize ∈ heapPages := fun i hi =>
    div_mem_heapPages.mpr ⟨by omega, by omega⟩
  obtain ⟨s, hs⟩ : ∃ s, storeAll v'.space addr bs = .ok s := by
    refine storeAll_ok_iff.mpr fun i hi => ?_
    obtain ⟨f, -, -, hmap⟩ := h.mapped _ (hin i hi)
    rw [Space.Reaches, Nat.mod_eq_of_lt (by omega)]
    exact ⟨_, hmap, fun _ => rfl⟩
  refine ⟨s, hs, fun x hx hx' => ?_⟩
  exact contents_storeAll h.apart (by omega) hin hs (div_mem_heapPages.mpr ⟨hx, hx'⟩)

theorem HeapMapped.of_backed {v v' : State} (h : v.Backed heapPages kernelDataFlags v') :
    HeapMapped v.free v.space.pages v' where
  backed := h.mapped
  apart := h.apart
  kept := h.kept
  stores _ _ := heap_stores h
  reserved es s hr q hq := by
    have hfree : q.number ∈ v'.free := handed_out_free hr q hq
    refine ⟨h.took.subset hfree, fun p hp m hm e => ?_⟩
    obtain ⟨f, -, hgone, hmap⟩ := h.mapped p hp
    rw [hmap] at hm
    cases hm
    have hf : f = q.number := e
    exact hgone (hf ▸ hfree)

/-- **From the memory map to the heap.** For every memory map, kernel image and address space in
    which the heap is not mapped yet: `memory::init` returns exactly if there is a free frame for
    each page of the heap and for each table that it needs, at most 259 in all; it takes exactly as
    many; and what it leaves is the kernel heap. If the map is one of disjoint regions and whole
    pages, the frames of the heap hold no byte of the kernel image or of a reserved region. -/
theorem boot_heap_mapped (b : BootInfo) (hk : b.kernelAddr + b.kernelLen < 2 ^ 64) {offset : Nat}
    (hoff : Canonical offset) (space : Space) (tables : Finset (Nat × Nat))
    (hnone : ∀ p ∈ heapPages, space.pages p = none) :
    ∃ a, seed b = .ok a ∧ State.cost ⟨space, a, tables⟩ heapPages ≤ 259 ∧
      ((∃ v, init (some offset) b space tables = .ok v) ↔
        State.cost ⟨space, a, tables⟩ heapPages ≤ a.freeSet.card) ∧
      ∀ v, init (some offset) b space tables = .ok v →
        HeapMapped a.freeSet space.pages v ∧
        v.free.card + State.cost ⟨space, a, tables⟩ heapPages = a.freeSet.card ∧
        (b.Disjoint → b.WholePages →
          ∀ p ∈ heapPages, ∀ m, v.space.pages p = some m → b.Clean m.frame) := by
  obtain ⟨a, hseed, hfree⟩ := seed_freeSet b hk
  refine ⟨a, hseed, cost_heapPages_le _, ?_⟩
  rw [init_eq hseed hoff, heapInit_eq]
  have hfree₀ : State.free ⟨space, a, tables⟩ = a.freeSet := rfl
  have hspec := State.mapFresh_spec (v := ⟨space, a, tables⟩) heapPages_nodup hnone
    "failed to map heap page" kernelDataFlags
  rw [hfree₀] at hspec
  rcases hspec with ⟨hle, v, he, hb⟩ | ⟨hlt, he⟩
  · have hheap := HeapMapped.of_backed hb
    have hcard := hb.took.card
    rw [hfree₀] at hheap hcard
    rw [he]
    refine ⟨⟨fun _ => hle, fun _ => ⟨v, rfl⟩⟩, fun v' hv' => ?_⟩
    rw [← Except.ok.inj hv']
    refine ⟨hheap, hcard, fun hdis hwhole p hp m hm => ?_⟩
    obtain ⟨f, hf, -, hmap⟩ := hheap.backed p hp
    rw [hmap] at hm
    rw [← Option.some.inj hm]
    exact (clean_free_iff hdis hfree).mpr hwhole f hf
  · rw [he]
    refine ⟨⟨fun ⟨v, hv⟩ => ?_, fun hle => absurd hle (Nat.not_le.mpr hlt)⟩, fun v hv => ?_⟩
    · cases hv
    · cases hv

/-- An address space in which nothing is mapped. -/
def emptySpace : Space := ⟨fun _ => none, fun _ => 0#8, true, []⟩

theorem alignedMap_disjoint : alignedMap.Disjoint := by
  simp only [BootInfo.Disjoint, alignedMap, MemoryRegion.Holds, List.pairwise_cons, List.mem_cons,
    List.not_mem_nil, or_false, forall_eq_or_imp, forall_eq, List.Pairwise.nil]
  refine ⟨⟨fun x => ?_, fun x => ?_⟩, fun x => ?_, ?_⟩ <;> first | omega | simp

theorem alignedMap_room {a : BitmapFrameAllocator} (h : seed alignedMap = .ok a) :
    4096 ≤ a.freeSet.card := by
  obtain ⟨a', h', hfree⟩ := seed_freeSet alignedMap (by decide)
  cases h.symm.trans h'
  -- frames of the last region, beyond the kernel image
  have hsub : Finset.Ico 0x1000 0x2000 ⊆ a.freeSet := by
    intro f hf
    rw [Finset.mem_Ico] at hf
    have hlast : lastMark alignedMap.memoryRegions f = some ⟨0x100000, 0x7fe0000, .usable⟩ := by
      refine List.find?_cons_of_pos (decide_eq_true (BitmapFrameAllocator.mem_touching.mpr ?_))
      unfold numFrames maxPhys Pmm.pageSize
      dsimp only
      omega
    refine (hfree f).mpr ⟨⟨_, hlast, rfl⟩, fun hk => ?_, fun h0 => ?_⟩
    · have hend := (BitmapFrameAllocator.mem_touching.mp hk).2.1
      unfold alignedMap Pmm.pageSize at hend
      dsimp only at hend
      omega
    · rw [mem_touching_first] at h0
      omega
  have hcard := Finset.card_le_card hsub
  rw [Nat.card_Ico] at hcard
  omega

/-- The map of page-aligned regions, with nothing mapped before. -/
theorem boot_heap_mapped_aligned : ∃ a v, seed alignedMap = .ok a ∧
    init (some 0) alignedMap emptySpace ∅ = .ok v ∧ HeapMapped a.freeSet emptySpace.pages v ∧
    ∀ p ∈ heapPages, ∀ m, v.space.pages p = some m → alignedMap.Clean m.frame := by
  obtain ⟨a, hseed, hcost, hiff, hall⟩ :=
    boot_heap_mapped alignedMap (by decide) (show Canonical 0 by decide) emptySpace ∅ fun _ _ => rfl
  obtain ⟨v, hv⟩ := hiff.mpr (Nat.le_trans hcost (Nat.le_trans (by decide) (alignedMap_room hseed)))
  obtain ⟨hheap, -, hclean⟩ := hall v hv
  exact ⟨a, v, hseed, hv, hheap, hclean alignedMap_disjoint (.of_aligned (by decide))⟩

end SimpleLinux.Memory
