/-
  File:      SimpleLinux/Process/Programs.lean
  Subject:   Programs run one after the other in one address space: syscall/mod.rs (run_user).

  A page that an earlier program had mapped is not cleared for the next one. What a program finds is
  its segments laid over whatever is on its pages; two histories make no difference to it exactly if
  they left the same bytes on the parts of its pages that its segments do not cover.

  * `Program`, `runUser`, `runAll` -- histories: each program may leave any memory behind;
  * `Separate` -- some pages, such as those of a program, have frames of their own; kept by every
    load;
  * `contents_load` -- the memory after a load; `loaded_memory_same_iff`.
-/
import SimpleLinux.Process.ElfImage

namespace SimpleLinux.Elf

open Rust Paging Vmm

/-! ## 1. Histories -/

/-- A program, and the physical memory it leaves behind when it exits. -/
structure Program where
  elf : Bytes
  short : elf.length < 2 ^ 63
  leaves : Nat → BitVec 8

/-- `run_user`: nothing runs if the file is refused. The program and the kernel on its behalf change
    memory, but neither the page map nor the allocator. -/
def runUser (v : State) (p : Program) : Exec State := do
  match ← load v p.elf with
  | (.error _, v) => return v
  | (.ok _, v) => return { v with space := { v.space with mem := p.leaves } }

def runAll (v : State) (ps : List Program) : Exec State := ps.foldlM runUser v

/-- No two of the pages share a frame, and none of their frames is free. -/
structure Separate (pages : List Nat) (v : State) : Prop where
  apart : Apart v.space (· ∈ pages)
  used : ∀ p ∈ pages, ∀ m, v.space.pages p = some m → m.frame ∉ v.free

section

variable {v v' : State} {O : Finset Nat} {elf : Bytes} {pages : List Nat}

theorem Separate.loading (h : Separate pages v) (hload : Loading v O v') : Separate pages v' := by
  -- a page mapped since has a frame that was free, the others have one that was not
  have hcases : ∀ p ∈ pages, ∀ m, v'.space.pages p = some m →
      (p ∈ O ∧ m.frame ∈ v.free ∧ m.frame ∉ v'.free) ∨
        (v.space.pages p = some m ∧ m.frame ∉ v.free) := by
    intro p hp m hm
    by_cases hO : p ∈ O
    · obtain ⟨m', hm', hfree, hgone, -⟩ := hload.own p hO
      rw [hm] at hm'
      cases hm'
      exact .inl ⟨hO, hfree, hgone⟩
    · rw [hload.outside p hO] at hm
      exact .inr ⟨hm, h.used p hp m hm⟩
  constructor
  · intro p q m n hp hq hm hn hf
    rcases hcases p hp m hm with ⟨hpO, hpf, -⟩ | ⟨hpm, hpf⟩
    · rcases hcases q hq n hn with ⟨hqO, -, -⟩ | ⟨-, hqf⟩
      · exact hload.apart p q m n hpO hqO hm hn hf
      · exact absurd (hf ▸ hpf) hqf
    · rcases hcases q hq n hn with ⟨-, hqf, -⟩ | ⟨hqn, -⟩
      · exact absurd (hf ▸ hqf) hpf
      · exact h.apart p q m n hp hq hpm hqn hf
  · intro p hp m hm
    rcases hcases p hp m hm with ⟨-, -, hgone⟩ | ⟨-, hnot⟩
    · exact hgone
    · exact fun hin => hnot (hload.subset hin)

theorem Separate.runUser (h : Separate pages v) {p : Program} (he : runUser v p = .ok v') :
    Separate pages v' := by
  obtain ⟨⟨r, v₁⟩, hload, he⟩ := bind_eq_ok.mp he
  rcases r with msg | img
  · cases he
    by_cases hok : HeaderOk p.elf
    · obtain ⟨-, -, -, -, hr⟩ := (load_ok_iff hok p.short).mp hload
      cases hr
    · obtain ⟨msg', href⟩ := load_refused hok v
      rw [href] at hload
      cases hload
      exact h
  · cases he
    have hsep := h.loading (loading_of_load p.short hload).2
    exact ⟨hsep.apart, hsep.used⟩

theorem Separate.runAll (h : Separate pages v) {ps : List Program} (he : runAll v ps = .ok v') :
    Separate pages v' := by
  induction ps generalizing v with
  | nil =>
    cases he
    exact h
  | cons p ps ih =>
    obtain ⟨v₁, h₁, he⟩ := bind_eq_ok.mp he
    exact ih (h.runUser h₁) he

/-! ## 2. What the next program finds -/

/-- Segments in the low half, with their file bytes inside them. -/
structure Placed (elf : Bytes) : Prop where
  size : ∀ s ∈ segments elf, s.filesz ≤ s.memsz
  low : ∀ s ∈ segments elf, s.vaddr + s.memsz ≤ 2 ^ 47

theorem WellFormed.placed (h : WellFormed elf) : Placed elf := ⟨fun s hs => (h.size s hs).1, h.low⟩

theorem segments_inBounds {ss : List Segment} (he : ss.foldlM (loadSegment elf) v = .ok v') :
    ∀ s ∈ ss, s.InBounds elf := by
  induction ss generalizing v with
  | nil => exact fun s hs => absurd hs List.not_mem_nil
  | cons s ss ih =>
    obtain ⟨v₁, h₁, he⟩ := bind_eq_ok.mp he
    exact List.forall_mem_cons.mpr ⟨loadSegment_inBounds h₁, ih he⟩

theorem Placed.lengths (h : Placed elf) (hlen : elf.length < 2 ^ 63) {img : LoadedImage}
    (he : load v elf = .ok (.ok img, v')) : ∀ s ∈ segments elf, (s.bytes elf).length = s.memsz := by
  obtain ⟨-, v₁, hseg, -⟩ := (load_ok_iff (loading_of_load hlen he).1 hlen).mp he
  exact fun s hs => length_bytes_of_le (segments_inBounds hseg s hs).file (h.size s hs)

/-- **The memory after a load**: the segments over what was there. -/
theorem contents_load (hsep : Separate (occupied elf) v) (h : Placed elf)
    (hlen : elf.length < 2 ^ 63) {img : LoadedImage} (he : load v elf = .ok (.ok img, v')) {a : Nat}
    (ha : a / pageSize ∈ occupied elf) :
    v'.space.peek a = some (image elf (segments elf) v.space.contents a) :=
  peek_load hlen he h.size (hsep.loading (loading_of_load hlen he).2).apart ha

end

/-- **No leakage, and when.** After any two histories that start from the same boot, in which the
    pages of a program, as far as they are mapped, share no frame and have none that is free: the
    program, once loaded, finds the same bytes on all its pages exactly if, outside its segments,
    the two histories have left the same bytes there (zeros on the pages that they have not
    mapped). -/
theorem loaded_memory_same_iff {boot v₁ v₂ w₁ w₂ : State} {img₁ img₂ : LoadedImage} {elf : Bytes}
    {before₁ before₂ : List Program} (hboot : Separate (occupied elf) boot)
    (h₁ : runAll boot before₁ = .ok v₁) (h₂ : runAll boot before₂ = .ok v₂)
    (hlen : elf.length < 2 ^ 63) (hplaced : Placed elf)
    (hl₁ : load v₁ elf = .ok (.ok img₁, w₁)) (hl₂ : load v₂ elf = .ok (.ok img₂, w₂)) :
    (∀ a, a / pageSize ∈ occupied elf → w₁.space.peek a = w₂.space.peek a) ↔
      ∀ a, a / pageSize ∈ occupied elf → (∀ s ∈ segments elf, ¬ s.Holds a) →
        v₁.space.contents a = v₂.space.contents a := by
  have hlens := hplaced.lengths hlen hl₁
  have hw₁ := fun a ha => contents_load (hboot.runAll h₁) hplaced hlen hl₁ (a := a) ha
  have hw₂ := fun a ha => contents_load (hboot.runAll h₂) hplaced hlen hl₂ (a := a) ha
  constructor
  · intro h a ha hnot
    have hout : ∀ s ∈ segments elf, (s.bytes elf).length = s.memsz ∧ ¬ s.Holds a := fun s hs =>
      ⟨hlens s hs, hnot s hs⟩
    have hsame := h a ha
    rw [hw₁ a ha, hw₂ a ha, image_outside hout, image_outside hout, Option.some.injEq] at hsame
    exact hsame
  · intro h a ha
    rw [hw₁ a ha, hw₂ a ha]
    by_cases hin : ∃ s ∈ segments elf, s.Holds a
    · obtain ⟨s, hs, hholds⟩ := hin
      rw [image_inside hs (hlens s hs) hholds]
    · have hnot : ∀ s ∈ segments elf, ¬ s.Holds a := fun s hs hh => hin ⟨s, hs, hh⟩
      rw [image_congr (h a ha hnot)]

/-! ## 3. The same program twice -/

section

variable {v : State} {elf : Bytes}

/-- The pages are mapped and can be written. -/
def Ready (v : State) (pages : List Nat) : Prop :=
  ∀ p ∈ pages, ∃ m, v.space.pages p = some m ∧ v.space.Allows m

theorem Ready.mapPages {pages : List Nat} (h : Ready v pages) (hlow : ∀ p ∈ pages, p < lowPages)
    (flags : Flags) : mapPages v flags pages = .ok v := by
  refine mapPages_mapped fun p hp => ⟨canonical_of_low (hlow p hp), ?_⟩
  obtain ⟨m, hm, -⟩ := h p hp
  rw [hm]
  exact Option.some_ne_none m

theorem Ready.stored {pages : List Nat} (h : Ready v pages) {addr n : Nat} {space : Space}
    (hs : Stored v.space addr n space) : Ready { v with space } pages := by
  intro p hp
  obtain ⟨m, hm, hw⟩ := h p hp
  refine ⟨m, hs.pages ▸ hm, fun hwp => hw ?_⟩
  rw [← hs.wp]
  exact hwp

theorem ready_segments (hlen : elf.length < 2 ^ 63) {pages : List Nat} (h : Ready v pages)
    {ss : List Segment} (hin : ∀ s ∈ ss, s.InBounds elf ∧ s.filesz ≤ s.memsz ∧
      s.vaddr + s.memsz ≤ 2 ^ 47 ∧ ∀ p ∈ s.pages, p ∈ pages) :
    ∃ v', ss.foldlM (loadSegment elf) v = .ok v' ∧ Ready v' pages := by
  induction ss generalizing v with
  | nil => exact ⟨v, rfl, h⟩
  | cons s ss ih =>
    obtain ⟨⟨hbounds, hsize, hlow, hpages⟩, hss⟩ := List.forall_mem_cons.mp hin
    have hmap := Ready.mapPages (fun p hp => h p (hpages p hp)) (Segment.pages_low hlow) s.ptFlags
    have hreach : ∀ i < (s.bytes elf).length, v.space.Reaches s.vaddr i := by
      intro i hi
      rw [length_bytes_of_le hbounds.file hsize] at hi
      unfold Space.Reaches
      rw [Nat.mod_eq_of_lt (by omega)]
      have hholds : s.Holds (s.vaddr + i) := ⟨Nat.le_add_right .., by omega⟩
      exact h _ (hpages _ hholds.page_mem)
    obtain ⟨space, hst⟩ := storeAll_ok_iff.mpr hreach
    have hseg := (loadSegment_eq_ok hlen).mpr ⟨hbounds, v, space, hmap, hst, rfl⟩
    obtain ⟨v', he, hv'⟩ := ih (h.stored (storeAll_stored hst)) hss
    exact ⟨v', bind_eq_ok.mpr ⟨_, hseg, he⟩, hv'⟩

/-- A program whose pages are all there can be loaded again. -/
theorem ready_load (hwf : WellFormed elf) (hlen : elf.length < 2 ^ 63)
    (hnull : ∀ s ∈ segments elf, pageSize ≤ s.vaddr) (h : Ready v (occupied elf)) :
    ∃ v', load v elf = .ok (.ok ⟨(header elf).entry, userStackTop⟩, v') := by
  have hin : ∀ s ∈ segments elf, s.InBounds elf ∧ s.filesz ≤ s.memsz ∧
      s.vaddr + s.memsz ≤ 2 ^ 47 ∧ ∀ p ∈ s.pages, p ∈ occupied elf := by
    intro s hs
    exact ⟨hwf.arranged.inBounds hs (hnull s hs), (hwf.size s hs).1, hwf.low s hs,
      fun p hp => mem_occupied.mpr (.inl ⟨s, hs, hp⟩)⟩
  obtain ⟨v', he, hv'⟩ := ready_segments hlen h hin
  have hstack : ∀ p ∈ stackPages, p ∈ occupied elf := fun p hp => mem_occupied.mpr (.inr hp)
  have hmap := Ready.mapPages (fun p hp => hv' p (hstack p hp))
    (fun p hp => (stack_mappable v' ∅ p hp).1) stackFlags
  exact ⟨v', (load_ok_iff hwf.header hlen).mpr ⟨hwf.arranged.inside, v', he, hmap, rfl⟩⟩

/-- Nothing is mapped then. -/
theorem Ready.pages_load (h : Ready v (occupied elf)) (hlen : elf.length < 2 ^ 63)
    {img : LoadedImage} (he : load v elf = .ok (.ok img, v')) : v'.space.pages = v.space.pages := by
  funext p
  refine (loading_of_load hlen he).2.outside p fun hp => ?_
  obtain ⟨hp, hnone⟩ := mem_fresh.mp hp
  obtain ⟨m, hm, -⟩ := h p hp
  rw [hm] at hnone
  cases hnone

end

theorem blank_separate (pages : List Nat) : Separate pages blank where
  apart _ _ _ _ _ _ h := nomatch h
  used _ _ _ h := nomatch h

theorem poke_short : poke.length < 2 ^ 63 := by
  rw [poke_length]
  norm_num

theorem poke_above_null : ∀ s ∈ segments poke, pageSize ≤ s.vaddr := by
  rw [poke_segments]
  decide

theorem load_poke : ∃ v', load blank poke = .ok (.ok ⟨(header poke).entry, userStackTop⟩, v') ∧
    Ready v' (occupied poke) := by
  have hfits : Fits blank poke ∅ (segments poke) := by
    rw [poke_segments]
    exact poke_fits
  have hneed := poke_room.frames
  rw [← poke_room.fresh_eq] at hneed
  obtain ⟨-, v', -, -, hload, hinv, -⟩ :=
    load_of_fits poke_wellFormed.header poke_short poke_inside hfits hneed
  refine ⟨v', hload, fun p hp => ?_⟩
  obtain ⟨m, hm, -, -, -, hw⟩ := hinv.own p (mem_fresh.mpr ⟨hp, rfl⟩)
  exact ⟨m, hm, fun hwp => hw (hinv.wp ▸ hwp)⟩

/-- The program has run and left `leaves` behind. -/
def ranLeaving (v : State) (leaves : Nat → BitVec 8) : State :=
  { v with space := { v.space with mem := leaves } }

theorem runAll_loaded {v w : State} {img : LoadedImage} {p : Program}
    (h : load v p.elf = .ok (.ok img, w)) (ps : List Program) :
    runAll v (p :: ps) = runAll (ranLeaving w p.leaves) ps := by
  have hrun : runUser v p = .ok (ranLeaving w p.leaves) := bind_eq_ok.mpr ⟨_, h, rfl⟩
  rw [runAll, List.foldlM_cons, hrun]
  rfl

/-- The program runs, and leaves its byte on the stack. -/
theorem poke_runs :
    ∃ (p : Program) (w : State), p.elf = poke ∧
      load blank poke = .ok (.ok ⟨(header poke).entry, userStackTop⟩, w) ∧
      Ready (ranLeaving w p.leaves) (occupied poke) ∧
      (ranLeaving w p.leaves).space.contents 0x4ff000 = 0x41#8 := by
  obtain ⟨w, hload, hready⟩ := load_poke
  have hocc : 0x4ff ∈ occupied poke := by
    rw [poke_occupied]
    decide
  obtain ⟨m, hm, -⟩ := hready _ hocc
  let leaves := Function.update w.space.mem (m.phys 0) 0x41#8
  refine ⟨⟨poke, poke_short, leaves⟩, w, rfl, hload, hready, ?_⟩
  have hmapped : (ranLeaving w leaves).space.pages (0x4ff000 / pageSize) = some m := hm
  have hmod : 0x4ff000 % pageSize = 0 := by decide
  rw [contents_mapped hmapped, hmod]
  exact Function.update_self ..

/-- The program, run twice, leaves for the next one what it left when it ran once. -/
theorem loaded_memory_same_again :
    ∃ p v₁ v₂ w₁ w₂ img, p.elf = poke ∧ runAll blank [p] = .ok v₁ ∧ runAll blank [p, p] = .ok v₂ ∧
      load v₁ poke = .ok (.ok img, w₁) ∧ load v₂ poke = .ok (.ok img, w₂) ∧
      ∀ a, a / pageSize ∈ occupied poke → w₁.space.peek a = w₂.space.peek a := by
  obtain ⟨⟨-, hshort, leaves⟩, w, rfl, hload, hready, -⟩ := poke_runs
  let p : Program := ⟨poke, hshort, leaves⟩
  obtain ⟨w₁, hload₁⟩ := ready_load poke_wellFormed poke_short poke_above_null hready
  -- nothing is mapped the second time
  have hpages := hready.pages_load poke_short hload₁
  have hready₂ : Ready (ranLeaving w₁ leaves) (occupied poke) := fun q hq => by
    obtain ⟨m, hm, hw⟩ := hready q hq
    exact ⟨m, hpages ▸ hm, fun hwp => hw ((loading_of_load poke_short hload₁).2.wp ▸ hwp)⟩
  obtain ⟨w₂, hload₂⟩ := ready_load poke_wellFormed poke_short poke_above_null hready₂
  have hrun₁ : runAll blank [p] = .ok (ranLeaving w leaves) := runAll_loaded (p := p) hload []
  have hrun₂ : runAll blank [p, p] = .ok (ranLeaving w₁ leaves) :=
    (runAll_loaded (p := p) hload [p]).trans (runAll_loaded (p := p) hload₁ [])
  refine ⟨p, _, _, w₁, w₂, _, rfl, hrun₁, hrun₂, hload₁, hload₂, ?_⟩
  refine (loaded_memory_same_iff (blank_separate _) hrun₁ hrun₂ poke_short poke_wellFormed.placed
    hload₁ hload₂).mpr fun a _ _ => ?_
  unfold Space.contents Space.peek ranLeaving
  dsimp only
  rw [hpages]
  rfl

/-- **A byte is left for the next program**: it finds 0x41 where it would have found 0. -/
theorem stack_byte_leaks :
    ∃ p v₂ w₁ w₂ img, p.elf = poke ∧ runAll blank [p] = .ok v₂ ∧
      load blank poke = .ok (.ok img, w₁) ∧ load v₂ poke = .ok (.ok img, w₂) ∧
      0x4ff000 / pageSize ∈ occupied poke ∧ w₁.space.peek 0x4ff000 = some 0#8 ∧
      w₂.space.peek 0x4ff000 = some 0x41#8 := by
  obtain ⟨p, w₁, helf, hload, hready, hbyte⟩ := poke_runs
  have hocc : 0x4ff000 / pageSize ∈ occupied poke := by
    rw [poke_occupied]
    decide
  have hrun : runAll blank [p] = .ok (ranLeaving w₁ p.leaves) :=
    runAll_loaded (helf.symm ▸ hload) []
  obtain ⟨w₂, hload₂⟩ := ready_load poke_wellFormed poke_short poke_above_null hready
  have hout : ∀ s ∈ segments poke, (s.bytes poke).length = s.memsz ∧ ¬ s.Holds 0x4ff000 := by
    intro s hs
    refine ⟨poke_wellFormed.placed.lengths poke_short hload s hs, ?_⟩
    rw [poke_segments] at hs
    cases List.mem_singleton.mp hs
    exact fun h => absurd h.2 (by decide)
  refine ⟨p, _, w₁, w₂, _, helf, hrun, hload, hload₂, hocc, ?_, ?_⟩
  · rw [contents_load (blank_separate _) poke_wellFormed.placed poke_short hload hocc,
      image_outside hout]
    rfl
  · rw [contents_load ((blank_separate _).runAll hrun) poke_wellFormed.placed poke_short hload₂
      hocc, image_outside hout, hbyte]

end SimpleLinux.Elf
