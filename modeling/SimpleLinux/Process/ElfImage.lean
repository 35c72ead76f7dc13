/-
  File:      SimpleLinux/Process/ElfImage.lean
  Subject:   What a loaded program finds in its memory.

  On pages that share no frame, mapping a page changes nothing that a program can see (a page that
  is not there counts as zeros), and storing a segment overwrites exactly its bytes. So the memory
  after a load is the memory before with the segments laid over it, in table order.

  * `image` -- segments laid over a memory; `contents_segments`, `peek_load` -- that is what a load
    makes of it;
  * `WellFormed`, `Room`, `Faithful` -- the files, the address spaces, and what a load is for;
  * `load_faithful` -- into an address space without the program's pages; `load_null_page`.
-/
import SimpleLinux.Process.ElfSafety

namespace SimpleLinux.Elf

open Rust Paging Vmm

/-! ## 1. Segments laid over a memory -/

/-- The segments, one over the other. -/
def image (elf : Bytes) (ss : List Segment) (c : Nat → BitVec 8) : Nat → BitVec 8 :=
  ss.foldl (fun c s => Store.copy c s.vaddr (s.bytes elf)) c

theorem image_cons (elf : Bytes) (s : Segment) (ss : List Segment) (c : Nat → BitVec 8) :
    image elf (s :: ss) c = image elf ss (Store.copy c s.vaddr (s.bytes elf)) := rfl

/-- The bytes of a segment in memory. -/
def Segment.Holds (s : Segment) (a : Nat) : Prop := s.vaddr ≤ a ∧ a < s.vaddr + s.memsz

section

variable {v₀ v v' : State} {O : Finset Nat} {elf : Bytes} {flags : Flags} {P : Nat → Prop}

theorem Loading.keeps (h : Loading v₀ O v) {p : Nat} {m : Mapping}
    (hp : v₀.space.pages p = some m) : v.space.pages p = some m := by
  rw [h.outside p fun hO => ?_, hp]
  rw [h.fresh p hO] at hp
  cases hp

/-- A page that is mapped anew shows zeros, as it did before. -/
theorem contents_mapped_page {page frame : Nat} (hn : v.space.pages page = none)
    (hm : Mapped v page flags frame v') (hlt : page < 2 ^ 52) (hap : Apart v'.space P)
    (hP : P page) {a : Nat} (ha : P (a / pageSize)) : v'.space.contents a = v.space.contents a := by
  have hpages := (zeroFill_stored hm.zeroed).pages
  have hap' : Apart (v.space.map page ⟨frame, flags⟩) P := hap.anti fun p m hpm => hpages ▸ hpm
  have hlen : page * pageSize + (List.replicate pageSize 0#8).length ≤ 2 ^ 64 := by
    rw [List.length_replicate]
    unfold pageSize
    omega
  have hin : ∀ i < (List.replicate pageSize 0#8).length, P ((page * pageSize + i) / pageSize) := by
    intro i hi
    rw [List.length_replicate] at hi
    rw [Nat.mul_comm, Nat.mul_add_div (by decide), Nat.div_eq_of_lt hi]
    exact hP
  rw [contents_storeAll hap' hlen hin hm.zeroed ha]
  by_cases hpage : a / pageSize = page
  · have haddr : a = page * pageSize + a % pageSize := by rw [← hpage, Nat.div_add_mod']
    have hoff : a % pageSize < pageSize := Nat.mod_lt _ (by decide)
    rw [contents_unmapped (hpage.symm ▸ hn), haddr, Store.copy_add,
      List.getElem?_replicate_of_lt hoff, Option.getD_some]
  · rw [Store.copy_outside, contents_map_of_ne hpage]
    rw [List.length_replicate]
    intro ⟨hle, hlt⟩
    refine hpage ((Nat.div_eq_iff (by decide)).mpr ⟨hle, ?_⟩)
    omega

theorem contents_mapPages (huser : flags.user = true) {pages : List Nat}
    (he : mapPages v flags pages = .ok v') (hap : Apart v'.space P) (hP : ∀ p ∈ pages, P p)
    {a : Nat} (ha : P (a / pageSize)) : v'.space.contents a = v.space.contents a := by
  induction pages generalizing v with
  | nil =>
    cases he
    rfl
  | cons page pages ih =>
    obtain ⟨v₁, h₁, he⟩ := bind_eq_ok.mp he
    obtain ⟨hpage, hrest⟩ := List.forall_mem_cons.mp hP
    have hkeeps := fun p m => ((Loading.refl v₁).mapPages huser he).keeps (p := p) (m := m)
    rw [ih he hrest]
    obtain ⟨hc, h₁⟩ := ensureMappedAt_eq_ok.mp h₁
    by_cases hp : v.space.pages page = none
    · obtain ⟨-, frame, hm⟩ := ensureMapped_eq_ok hp h₁
      exact contents_mapped_page hp hm (canonical_page_lt hc) (hap.anti hkeeps) hpage ha
    · rw [ensureMapped_mapped hp] at h₁
      cases h₁
      rfl

end

namespace Segment

variable {s : Segment}

theorem mem_pages {p : Nat} :
    p ∈ s.pages ↔ s.vaddr / pageSize ≤ p ∧ p < (s.vaddr + s.memsz + 4095) / pageSize := by
  unfold pages
  rw [List.mem_range'_1]
  omega

/-- The pages of a segment are those its bytes are on. -/
theorem mem_pages_iff (h : 0 < s.memsz) {p : Nat} :
    p ∈ s.pages ↔ ∃ a, s.Holds a ∧ a / pageSize = p := by
  rw [mem_pages]
  unfold Holds pageSize
  constructor
  · intro ⟨hlo, hhi⟩
    refine ⟨max s.vaddr (p * 4096), ?_, ?_⟩
    · omega
    · omega
  · rintro ⟨a, ⟨hlo, hhi⟩, rfl⟩
    omega

theorem Holds.page_mem {a : Nat} (h : s.Holds a) : a / pageSize ∈ s.pages :=
  (mem_pages_iff (by have := h.1; have := h.2; omega)).mpr ⟨a, h, rfl⟩

theorem pages_low (h : s.vaddr + s.memsz ≤ 2 ^ 47) : ∀ p ∈ s.pages, p < lowPages := by
  intro p hp
  have := (mem_pages.mp hp).2
  unfold pageSize at this
  unfold lowPages
  omega

end Segment

section

variable {v₀ v v' : State} {O : Finset Nat} {elf : Bytes} {flags : Flags} {P : Nat → Prop}

/-- **One segment** lays its bytes over the memory. -/
theorem contents_segment (hlen : elf.length < 2 ^ 63) {s : Segment}
    (he : loadSegment elf v s = .ok v') (hsize : s.filesz ≤ s.memsz) (hap : Apart v'.space P)
    (hP : ∀ p ∈ s.pages, P p) {a : Nat} (ha : P (a / pageSize)) :
    v'.space.contents a = Store.copy v.space.contents s.vaddr (s.bytes elf) a := by
  obtain ⟨hin, v₁, space, hmap, hst, rfl⟩ := (loadSegment_eq_ok hlen).mp he
  have hpages := (storeAll_stored hst).pages
  have hap₁ : Apart v₁.space P := hap.anti fun p m hpm => hpages.symm ▸ hpm
  have hbytes : (s.bytes elf).length = s.memsz := by
    rw [s.length_bytes hin.file, Nat.max_eq_right hsize]
  have hwrap : s.vaddr + (s.bytes elf).length ≤ 2 ^ 64 := by
    have := hin.memory
    omega
  have hown : ∀ i < (s.bytes elf).length, P ((s.vaddr + i) / pageSize) := fun i hi =>
    hP _ (Segment.Holds.page_mem ⟨Nat.le_add_right .., by omega⟩)
  rw [contents_storeAll hap₁ hwrap hown hst ha]
  exact Store.copy_congr (contents_mapPages rfl hmap hap₁ hP ha)

theorem image_congr {ss : List Segment} {c c' : Nat → BitVec 8} {a : Nat} (h : c a = c' a) :
    image elf ss c a = image elf ss c' a := by
  induction ss generalizing c c' with
  | nil => exact h
  | cons s ss ih => exact ih (Store.copy_congr h)

/-- **All segments.** -/
theorem contents_segments (hlen : elf.length < 2 ^ 63) {ss : List Segment}
    (he : ss.foldlM (loadSegment elf) v = .ok v') (hsize : ∀ s ∈ ss, s.filesz ≤ s.memsz)
    (hap : Apart v'.space P) (hP : ∀ s ∈ ss, ∀ p ∈ s.pages, P p) {a : Nat} (ha : P (a / pageSize)) :
    v'.space.contents a = image elf ss v.space.contents a := by
  induction ss generalizing v with
  | nil =>
    cases he
    rfl
  | cons s ss ih =>
    obtain ⟨v₁, h₁, he⟩ := bind_eq_ok.mp he
    obtain ⟨hs, hsize⟩ := List.forall_mem_cons.mp hsize
    obtain ⟨hPs, hP⟩ := List.forall_mem_cons.mp hP
    have hkeeps := fun p m => ((Loading.refl v₁).segments hlen he).keeps (p := p) (m := m)
    rw [ih he hsize hP]
    exact image_congr (contents_segment hlen h₁ hs (hap.anti hkeeps) hPs ha)

theorem length_bytes_of_le {s : Segment} (h : s.off + s.filesz ≤ elf.length)
    (hsize : s.filesz ≤ s.memsz) : (s.bytes elf).length = s.memsz := by
  rw [s.length_bytes h, Nat.max_eq_right hsize]

/-- What the segments do not cover is left. -/
theorem image_outside {ss : List Segment} {c : Nat → BitVec 8} {a : Nat}
    (h : ∀ s ∈ ss, (s.bytes elf).length = s.memsz ∧ ¬ s.Holds a) : image elf ss c a = c a := by
  induction ss generalizing c with
  | nil => rfl
  | cons s ss ih =>
    obtain ⟨⟨hlen, hs⟩, hss⟩ := List.forall_mem_cons.mp h
    have hout : ¬ (s.vaddr ≤ a ∧ a < s.vaddr + (s.bytes elf).length) := by
      rw [hlen]
      exact hs
    exact (ih hss).trans (Store.copy_outside hout)

/-- What they cover does not depend on what was there. -/
theorem image_inside {ss : List Segment} {c c' : Nat → BitVec 8} {a : Nat} {s : Segment}
    (hs : s ∈ ss) (hlen : (s.bytes elf).length = s.memsz) (ha : s.Holds a) :
    image elf ss c a = image elf ss c' a := by
  induction ss generalizing c c' with
  | nil => exact absurd hs List.not_mem_nil
  | cons s' ss ih =>
    rcases List.mem_cons.mp hs with rfl | hs
    · have hin := ha.2
      rw [← hlen] at hin
      have h₁ := Store.copy_inside c ha.1 hin
      have h₂ := Store.copy_inside c' ha.1 hin
      rw [image_cons, image_cons]
      exact image_congr (Option.some.inj (h₁.symm.trans h₂))
    · exact ih hs

/-- A byte of a segment that shares none with a later one. -/
theorem image_at {ss : List Segment} {c : Nat → BitVec 8} {a : Nat} {s : Segment} (hs : s ∈ ss)
    (hlen : ∀ s ∈ ss, (s.bytes elf).length = s.memsz)
    (hdis : ss.Pairwise fun s t => ∀ x, ¬ (s.Holds x ∧ t.Holds x)) (ha : s.Holds a) :
    (s.bytes elf)[a - s.vaddr]? = some (image elf ss c a) := by
  induction ss generalizing c with
  | nil => exact absurd hs List.not_mem_nil
  | cons s' ss ih =>
    obtain ⟨hlen', hlens⟩ := List.forall_mem_cons.mp hlen
    obtain ⟨hdis', hdis⟩ := List.pairwise_cons.mp hdis
    rcases List.mem_cons.mp hs with rfl | hs
    · have hin := ha.2
      rw [← hlen'] at hin
      have hrest : ∀ t ∈ ss, (t.bytes elf).length = t.memsz ∧ ¬ t.Holds a := fun t ht =>
        ⟨hlens t ht, fun h => hdis' t ht a ⟨ha, h⟩⟩
      rw [Store.copy_inside c ha.1 hin]
      exact congrArg some (image_outside hrest).symm
    · exact ih hs hlens hdis

/-- The stores went to frames that the load took, through mappings that allow them. -/
theorem Loading.own_log (h : Loading v₀ O v) (hown : OnlyOwn v₀ v.space.log) :
    ∃ new, v.space.log = v₀.space.log ++ new ∧
      (∀ e ∈ new, e.2.frame ∈ v₀.free ∧ e.2.frame ∉ v.free ∧ v₀.space.Allows e.2) ∧
      ∀ x, (∀ e ∈ new, x ≠ e.2.phys (e.1 % pageSize)) → v.space.mem x = v₀.space.mem x := by
  obtain ⟨new, hlog, hmapped, hmem⟩ := h.log
  obtain ⟨new', hlog', hown⟩ := hown
  rw [hlog, List.append_cancel_left_eq] at hlog'
  subst hlog'
  refine ⟨new, hlog, fun e he => ?_, hmem⟩
  have hO : e.1 / pageSize ∈ O := by
    by_contra hnot
    have hnone := h.pages_eq_none.mpr ⟨(hown e he).2.2, hnot⟩
    rw [hmapped e he] at hnone
    cases hnone
  obtain ⟨m, hm, hfree, hgone, -, hallows⟩ := h.own _ hO
  rw [hmapped e he] at hm
  cases hm
  exact ⟨hfree, hgone, hallows⟩

/-- Frames that were in use before, or are still free, are as they were. -/
theorem Loading.untouched (h : Loading v₀ O v) (hown : OnlyOwn v₀ v.space.log) {x : Nat}
    (hx : x / pageSize ∉ v₀.free ∨ x / pageSize ∈ v.free) : v.space.mem x = v₀.space.mem x := by
  obtain ⟨new, -, htook, hmem⟩ := h.own_log hown
  refine hmem x fun e he hxe => ?_
  obtain ⟨hfree, hgone, -⟩ := htook e he
  have hframe : x / pageSize = e.2.frame := by
    rw [hxe, Mapping.phys, Nat.mul_comm, Nat.mul_add_div (by decide),
      Nat.div_eq_of_lt (Nat.mod_lt _ (by decide)), Nat.add_zero]
  rw [hframe] at hx
  exact hx.elim (fun hn => hn hfree) hgone

end

/-! ## 2. A faithful load -/

/-- The pages that a program occupies: those of its segments and of the stack. -/
def occupied (elf : Bytes) : List Nat := (segments elf).flatMap Segment.pages ++ stackPages

theorem mem_occupied {elf : Bytes} {p : Nat} :
    p ∈ occupied elf ↔ (∃ s ∈ segments elf, p ∈ s.pages) ∨ p ∈ stackPages := by
  rw [occupied, List.mem_append, List.mem_flatMap]

/-- A file that says what it should, with any flags: the program headers and the bytes of the
    segments inside it, segments in the low half and not shorter than their bytes. -/
structure Arranged (elf : Bytes) : Prop where
  header : HeaderOk elf
  entrySize : 56 ≤ (Elf.header elf).phentsize
  table : (Elf.header elf).phoff + (Elf.header elf).phnum * (Elf.header elf).phentsize ≤ elf.length
  file : ∀ s ∈ segments elf, s.off + s.filesz ≤ elf.length
  size : ∀ s ∈ segments elf, s.filesz ≤ s.memsz
  low : ∀ s ∈ segments elf, s.vaddr + s.memsz ≤ 2 ^ 47

/-- A file with everything in its place: segments in the low half, writable, not over one another
    and not over the stack. -/
structure WellFormed (elf : Bytes) : Prop where
  header : HeaderOk elf
  entrySize : 56 ≤ (Elf.header elf).phentsize
  table : (Elf.header elf).phoff + (Elf.header elf).phnum * (Elf.header elf).phentsize ≤ elf.length
  file : ∀ s ∈ segments elf, s.off + s.filesz ≤ elf.length
  size : ∀ s ∈ segments elf, s.filesz ≤ s.memsz ∧ 0 < s.memsz
  writable : ∀ s ∈ segments elf, s.ptFlags.writable = true
  low : ∀ s ∈ segments elf, s.vaddr + s.memsz ≤ 2 ^ 47
  disjoint : (segments elf).Pairwise fun s t => ∀ a, ¬ (s.Holds a ∧ t.Holds a)
  offStack : ∀ s ∈ segments elf, ∀ a, s.Holds a → a / pageSize ∉ stackPages

/-- An address space without the pages of the program, and with frames for them. -/
structure Room (v : State) (elf : Bytes) : Prop where
  unmapped : ∀ p ∈ occupied elf, v.space.pages p = none
  frames : need v (occupied elf).toFinset ≤ v.free.card

/-- **What a load is for**: the bytes of the file where the segments say, zeros after them and
    everywhere else on the pages; exactly those pages mapped, each to a frame of its own; and
    nothing else changed. -/
structure Faithful (v : State) (elf : Bytes) (v' : State) : Prop where
  file : ∀ s ∈ segments elf, ∀ i < s.filesz, v'.space.peek (s.vaddr + i) = elf[s.off + i]?
  bss : ∀ s ∈ segments elf, ∀ i, s.filesz ≤ i → i < s.memsz →
    v'.space.peek (s.vaddr + i) = some 0#8
  rest : ∀ a, a / pageSize ∈ occupied elf → (∀ s ∈ segments elf, ¬ s.Holds a) →
    v'.space.peek a = some 0#8
  mapped : ∀ p, v.space.pages p = none ∧ v'.space.pages p ≠ none ↔
    (∃ s ∈ segments elf, ∃ a, s.Holds a ∧ a / pageSize = p) ∨ p ∈ stackPages
  distinct : Apart v'.space (· ∈ occupied elf)
  kept : ∀ p ∉ occupied elf, v'.space.pages p = v.space.pages p
  memory : ∀ x, x / pageSize ∉ v.free ∨ x / pageSize ∈ v'.free → v'.space.mem x = v.space.mem x

section

variable {v v' : State} {elf : Bytes}

theorem WellFormed.arranged (h : WellFormed elf) : Arranged elf :=
  ⟨h.header, h.entrySize, h.table, h.file, fun s hs => (h.size s hs).1, h.low⟩

theorem Arranged.inside (h : Arranged elf) : TableInside elf := by
  intro i hi
  have hnext : (i + 1) * (Elf.header elf).phentsize ≤
      (Elf.header elf).phnum * (Elf.header elf).phentsize := Nat.mul_le_mul_right _ hi
  have hent := h.entrySize
  have htable := h.table
  rw [Nat.add_mul, Nat.one_mul] at hnext
  unfold HeaderInside phdr
  exact ⟨by omega, fun _ => by omega⟩

theorem Arranged.inBounds (h : Arranged elf) {s : Segment} (hs : s ∈ segments elf)
    (hnull : pageSize ≤ s.vaddr) : s.InBounds elf := by
  have hlow := h.low s hs
  unfold pageSize at hnull
  exact ⟨by omega, by omega, h.file s hs⟩

/-- A page beyond the first. -/
theorem Segment.page_ne_zero {s : Segment} (h : pageSize ≤ s.vaddr) {p : Nat} (hp : p ∈ s.pages) :
    p ≠ 0 := by
  have hfirst := (Segment.mem_pages.mp hp).1
  have hpos : 0 < s.vaddr / pageSize := Nat.div_pos h (by decide)
  omega

/-- A segment beyond the first page can be loaded into an address space without its pages, if those
    it adds can be written. -/
theorem Arranged.sound (h : Arranged elf) {s : Segment} (hs : s ∈ segments elf)
    (hnull : pageSize ≤ s.vaddr) (hnone : ∀ p ∈ s.pages, v.space.pages p = none) {O : Finset Nat}
    (hw : ∀ p ∈ s.pages, p ∉ O → v.space.wp = true → s.ptFlags.writable = true) :
    s.Sound v elf O := by
  have hlow := h.low s hs
  have hsize := h.size s hs
  have hpages := Segment.pages_low hlow
  refine ⟨h.inBounds hs hnull, fun p hp => ?_, fun p hp _ => hpages p hp, fun i hi => ?_⟩
  · exact ⟨canonical_of_low (hpages p hp), fun _ hO => ⟨Segment.page_ne_zero hnull hp, hw p hp hO⟩⟩
  · rw [Nat.max_eq_right hsize] at hi
    rw [Nat.mod_eq_of_lt (by omega)]
    have hmem := Segment.Holds.page_mem (s := s) ⟨Nat.le_add_right _ i, by omega⟩
    exact Finset.mem_union_right _ (mem_fresh.mpr ⟨hmem, hnone _ hmem⟩)

theorem fits_of_sound {ss : List Segment} (h : ∀ s ∈ ss, ∀ O, s.Sound v elf O) (O : Finset Nat) :
    Fits v elf O ss := by
  induction ss generalizing O with
  | nil => trivial
  | cons s ss ih =>
    obtain ⟨hs, hss⟩ := List.forall_mem_cons.mp h
    exact ⟨hs O, ih hss _⟩

theorem Room.fresh_eq (h : Room v elf) : fresh v (occupied elf) = (occupied elf).toFinset :=
  fresh_eq_toFinset h.unmapped

/-- A load that succeeds has mapped the pages of the program that were not mapped. -/
theorem loading_of_load (hlen : elf.length < 2 ^ 63) {img : LoadedImage}
    (he : load v elf = .ok (.ok img, v')) :
    HeaderOk elf ∧ Loading v (fresh v (occupied elf)) v' := by
  by_cases hok : HeaderOk elf
  · obtain ⟨-, v₁, hseg, hstack, -⟩ := (load_ok_iff hok hlen).mp he
    rw [mapStack_eq] at hstack
    have hload := ((Loading.refl v).segments hlen hseg).mapPages rfl hstack
    rw [Finset.empty_union, ← fresh_append] at hload
    exact ⟨hok, hload⟩
  · obtain ⟨msg, href⟩ := load_refused hok v
    rw [href] at he
    cases he

/-- **The memory after a load**: the segments over what was there, if no two pages of the program
    share a frame. -/
theorem peek_load (hlen : elf.length < 2 ^ 63) {img : LoadedImage}
    (he : load v elf = .ok (.ok img, v')) (hsize : ∀ s ∈ segments elf, s.filesz ≤ s.memsz)
    (hap : Apart v'.space (· ∈ occupied elf)) {a : Nat} (ha : a / pageSize ∈ occupied elf) :
    v'.space.peek a = some (image elf (segments elf) v.space.contents a) := by
  obtain ⟨hok, hload⟩ := loading_of_load hlen he
  obtain ⟨-, v₁, hseg, hstack, -⟩ := (load_ok_iff hok hlen).mp he
  rw [mapStack_eq] at hstack
  have hkeeps := fun p m => ((Loading.refl v₁).mapPages rfl hstack).keeps (p := p) (m := m)
  have hmapStack := contents_mapPages rfl hstack hap (fun p hp => mem_occupied.mpr (.inr hp)) ha
  have hsegs := contents_segments hlen hseg hsize (hap.anti hkeeps)
    (fun s hs p hp => mem_occupied.mpr (.inl ⟨s, hs, hp⟩)) ha
  rcases hm : v'.space.pages (a / pageSize) with - | m
  · -- the page was mapped by now
    obtain ⟨hnone, hnot⟩ := hload.pages_eq_none.mp hm
    exact absurd (mem_fresh.mpr ⟨ha, hnone⟩) hnot
  · rw [← hsegs, ← hmapStack, contents_mapped hm, Space.peek, hm]
    rfl

/-- The pages of a program are those that a byte of it or the stack is on. -/
theorem WellFormed.mem_occupied_iff (h : WellFormed elf) {p : Nat} : p ∈ occupied elf ↔
    (∃ s ∈ segments elf, ∃ a, s.Holds a ∧ a / pageSize = p) ∨ p ∈ stackPages := by
  rw [mem_occupied]
  refine or_congr_left (exists_congr fun s => and_congr_right fun hs => ?_)
  exact Segment.mem_pages_iff (h.size s hs).2

/-- **Faithful loading.** Every well-formed file none of whose segments touches the null page is
    loaded faithfully into every address space that has room for it. -/
theorem load_faithful (hwf : WellFormed elf) (hlen : elf.length < 2 ^ 63)
    (hnull : ∀ s ∈ segments elf, pageSize ≤ s.vaddr) (hroom : Room v elf) :
    ∃ v', load v elf = .ok (.ok ⟨(header elf).entry, userStackTop⟩, v') ∧ Faithful v elf v' := by
  have hfits := fits_of_sound (fun s hs O => hwf.arranged.sound (O := O) hs (hnull s hs)
    (fun p hp => hroom.unmapped p (mem_occupied.mpr (.inl ⟨s, hs, hp⟩)))
    fun _ _ _ _ => hwf.writable s hs) ∅
  have hneed := hroom.frames
  rw [← hroom.fresh_eq] at hneed
  obtain ⟨-, v', -, -, hload, -, hown⟩ := load_of_fits hwf.header hlen hwf.arranged.inside hfits
    hneed
  have hinv := (loading_of_load hlen hload).2
  have hO : ∀ p, p ∈ fresh v (occupied elf) ↔ p ∈ occupied elf := fun p => by
    rw [hroom.fresh_eq, List.mem_toFinset]
  have hap : Apart v'.space (· ∈ occupied elf) := fun p q m n hp hq =>
    hinv.apart p q m n ((hO p).mpr hp) ((hO q).mpr hq)
  have hsize : ∀ s ∈ segments elf, s.filesz ≤ s.memsz := fun s hs => (hwf.size s hs).1
  have hlens : ∀ s ∈ segments elf, (s.bytes elf).length = s.memsz := fun s hs =>
    length_bytes_of_le (hwf.file s hs) (hsize s hs)
  -- what the pages show: the segments over zeros
  have hshow := fun a ha => peek_load hlen hload hsize hap (a := a) ha
  have hbyte : ∀ s ∈ segments elf, ∀ i < s.memsz,
      v'.space.peek (s.vaddr + i) = (s.bytes elf)[i]? := fun s hs i hi => by
    have hholds : s.Holds (s.vaddr + i) := ⟨Nat.le_add_right .., by omega⟩
    rw [hshow _ (mem_occupied.mpr (.inl ⟨s, hs, hholds.page_mem⟩)),
      ← image_at hs hlens hwf.disjoint hholds, Nat.add_sub_cancel_left]
  refine ⟨v', hload, ?_, ?_, ?_, ?_, hap, ?_, fun x hx => hinv.untouched hown hx⟩
  · intro s hs i hi
    rw [hbyte s hs i (Nat.lt_of_lt_of_le hi (hsize s hs)), Segment.bytes_inside (hwf.file s hs) hi]
  · intro s hs i hlo hi
    rw [hbyte s hs i hi, Segment.bytes_tail (hwf.file s hs) hlo hi]
  · intro a ha hnot
    rw [hshow a ha, image_outside fun s hs => ⟨hlens s hs, hnot s hs⟩,
      contents_unmapped (hroom.unmapped _ ha)]
  · intro p
    rw [← hwf.mem_occupied_iff, ← hO, ne_eq, hinv.pages_eq_none]
    exact ⟨fun h => Classical.byContradiction fun hp => h.2 ⟨h.1, hp⟩,
      fun hp => ⟨hinv.fresh p hp, fun h => h.2 hp⟩⟩
  · intro p hp
    exact hinv.outside p fun hmem => hp ((hO p).mp hmem)

/-- A file with one segment. -/
theorem wellFormed_single {s : Segment} (hok : HeaderOk elf) (hseg : segments elf = [s])
    (hent : 56 ≤ (header elf).phentsize)
    (htable : (header elf).phoff + (header elf).phnum * (header elf).phentsize ≤ elf.length)
    (hfile : s.off + s.filesz ≤ elf.length) (hsize : s.filesz ≤ s.memsz) (hpos : 0 < s.memsz)
    (hw : s.ptFlags.writable = true) (hstack : s.vaddr + s.memsz ≤ 0x4fc000) : WellFormed elf := by
  have hone : ∀ {Q : Segment → Prop}, Q s → ∀ t ∈ segments elf, Q t := fun hQ t ht => by
    rw [hseg] at ht
    cases List.mem_singleton.mp ht
    exact hQ
  refine ⟨hok, hent, htable, hone hfile, hone ⟨hsize, hpos⟩, hone hw, hone (by omega), ?_, hone ?_⟩
  · rw [hseg]
    exact List.pairwise_singleton _ _
  · intro a ha hmem
    have := ha.2
    simp only [stackPages, List.mem_cons, List.not_mem_nil, or_false] at hmem
    unfold pageSize at hmem
    omega

end

theorem poke_wellFormed : WellFormed poke := by
  have hok : HeaderOk poke := ⟨by rw [poke_length]; decide, by decide, by decide⟩
  exact wellFormed_single hok poke_segments (by decide) (by rw [poke_length]; decide)
    (by rw [poke_length]; decide) (by decide) (by decide) rfl (by decide)

theorem poke_occupied : occupied poke = 0x400 :: stackPages := by
  rw [occupied, poke_segments]
  rfl

theorem poke_room : Room blank poke := by
  have hneed : need blank (0x400 :: stackPages).toFinset = 8 := by decide
  refine ⟨fun _ _ => rfl, ?_⟩
  rw [poke_occupied, hneed]
  exact blank_room (by norm_num)

theorem load_faithful_poke :
    ∃ v', load blank poke = .ok (.ok ⟨0x400000, 0x500000⟩, v') ∧ Faithful blank poke v' ∧
      v'.space.peek 0x400007 = some 0x41#8 ∧ v'.space.peek 0x400011 = some 0#8 := by
  have hlen : poke.length < 2 ^ 63 := by rw [poke_length]; norm_num
  have hnull : ∀ s ∈ segments poke, pageSize ≤ s.vaddr := by rw [poke_segments]; decide
  obtain ⟨v', hload, hf⟩ := load_faithful poke_wellFormed hlen hnull poke_room
  have hs : (⟨7, 120, 0x400000, 17, 0x1000⟩ : Segment) ∈ segments poke := by
    rw [poke_segments]
    exact List.mem_singleton.mpr rfl
  have hbyte : poke[127]? = some 0x41#8 := rfl
  exact ⟨v', hload, hf, (hf.file _ hs 7 (by decide)).trans hbyte,
    hf.bss _ hs 17 (by decide) (by decide)⟩

/-- One byte in the null page. -/
def nullByte : Bytes := oneSegment 0x10 1 [0x90#8]

theorem nullByte_segments : segments nullByte = [⟨7, 120, 0x10, 1, 1⟩] := by decide

theorem nullByte_wellFormed : WellFormed nullByte := by
  have hlen : nullByte.length = 121 := rfl
  exact wellFormed_single (by decide) nullByte_segments (by decide) (by rw [hlen]; decide)
    (by rw [hlen]; decide) (by decide) (by decide) rfl (by decide)

theorem nullByte_room : Room blank nullByte := by
  have hocc : occupied nullByte = 0 :: stackPages := by
    rw [occupied, nullByte_segments]
    rfl
  have hneed : need blank (0 :: stackPages).toFinset = 9 := by decide
  refine ⟨fun _ _ => rfl, ?_⟩
  rw [hocc, hneed]
  exact blank_room (by norm_num)

/-- Mapping the null page, with frames for it, fails when it is to be cleared. -/
theorem mapPages_null {v : State} (hn : v.space.pages 0 = none) (hroom : needs v 0 ≤ v.free.card)
    (flags : Flags) (pages : List Nat) : mapPages v flags (0 :: pages) = .error .precondition := by
  have hmap : ensureMapped v 0 flags = .error .precondition := by
    rcases ensureMapped_fresh hn flags with ⟨-, -, v₁, -, -, -, -, -, he⟩ | ⟨hlt, -⟩
    · rw [he]
      rfl
    · exact absurd hroom (Nat.not_le.mpr hlt)
  have hat : ensureMappedAt v (0 * pageSize) flags = .error .precondition := hmap
  rw [mapPages, List.foldlM_cons, hat]
  rfl

/-- A segment in the null page is written through a null pointer: the precondition of `write_bytes`
    fails. -/
theorem load_null_page :
    WellFormed nullByte ∧ Room blank nullByte ∧ load blank nullByte = .error .precondition := by
  refine ⟨nullByte_wellFormed, nullByte_room, ?_⟩
  have hneeds : needs blank 0 = 4 := by decide
  have hmap := mapPages_null (v := blank) rfl (hneeds ▸ blank_room (by norm_num))
    ⟨true, true, false⟩ []
  have hseg : loadSegment nullByte blank ⟨7, 120, 0x10, 1, 1⟩ = .error .precondition := by
    have hbind : ∀ f : State → Exec State,
        (mapPages blank ⟨true, true, false⟩ [0] >>= f) = .error .precondition := fun f => by
      rw [hmap]
      rfl
    exact hbind _
  have hlen : nullByte.length < 2 ^ 63 := by
    rw [show nullByte.length = 121 from rfl]
    norm_num
  rw [load_eq_segments nullByte_wellFormed.header hlen nullByte_wellFormed.arranged.inside,
    nullByte_segments, List.foldlM_cons, hseg]
  rfl

end SimpleLinux.Elf
