/-
  File:      SimpleLinux/Process/ElfSafety.lean
  Subject:   Which files the ELF loader survives.

  `Robust` is what one would ask of a loader: it returns, an error without a single store, or an
  image with stores to nothing but low-half user pages that it mapped itself. `load` checks none of
  the fields it uses, so that is a condition on the file and on the memory it is loaded into:
  `Loadable` spells it out, and is exact.

  * `OnlyOwn` -- the stores logged since are to low-half user pages not mapped before;
  * `Segment.Sound`, `Fits` -- what a program header may say, given the pages mapped before it;
  * `load_robust_iff` -- the loader is robust exactly on the loadable files.
-/
import SimpleLinux.Process.ElfLoading
import Mathlib.Tactic.NormNum

namespace SimpleLinux.Elf

open Rust Paging Vmm

/-! ## 1. Stores to its own pages -/

/-- The stores since `v₀` went to low-half user pages that were not mapped in `v₀`. -/
def OnlyOwn (v₀ : State) (log : List (Nat × Mapping)) : Prop :=
  ∃ new, log = v₀.space.log ++ new ∧ ∀ e ∈ new, e.1 / pageSize < lowPages ∧
    e.2.flags.user = true ∧ v₀.space.pages (e.1 / pageSize) = none

theorem OnlyOwn.refl (v₀ : State) : OnlyOwn v₀ v₀.space.log :=
  ⟨[], (List.append_nil _).symm, fun _ h => absurd h List.not_mem_nil⟩

/-- A stray store stays in the log. -/
theorem OnlyOwn.earlier {v₀ : State} {log log' : List (Nat × Mapping)} (h : OnlyOwn v₀ log')
    (h₀ : v₀.space.log <+: log) (hp : log <+: log') : OnlyOwn v₀ log := by
  obtain ⟨new, rfl⟩ := h₀
  obtain ⟨more, rfl⟩ := hp
  obtain ⟨all, hall, hown⟩ := h
  rw [List.append_assoc, List.append_cancel_left_eq] at hall
  exact ⟨new, rfl, fun e he => hown e (hall ▸ List.mem_append_left _ he)⟩

section

variable {v₀ v v' : State} {O : Finset Nat} {elf : Bytes} {flags : Flags}

theorem onlyOwn_stored_iff (h : Loading v₀ O v') {s : Space} {addr n : Nat}
    (hs : Stored s addr n v'.space) (hown : OnlyOwn v₀ s.log) :
    OnlyOwn v₀ v'.space.log ↔ ∀ i < n, (addr + i) % 2 ^ 64 / pageSize < lowPages ∧
      (addr + i) % 2 ^ 64 / pageSize ∈ O := by
  obtain ⟨old, hold, hownold⟩ := hown
  obtain ⟨new, hlog, hall, hnew⟩ := hs.log
  rw [hold, List.append_assoc] at hlog
  constructor
  · intro ⟨more, hmore, hown⟩ i hi
    rw [hlog, List.append_cancel_left_eq] at hmore
    obtain ⟨m, hm, hmem⟩ := hall i hi
    obtain ⟨hlow, -, hnone⟩ := hown _ (hmore ▸ List.mem_append_right _ hmem)
    refine ⟨hlow, ?_⟩
    -- mapped now and not before
    by_contra hnot
    have hpages := h.pages_eq_none.mpr ⟨hnone, hnot⟩
    rw [hs.pages, hm] at hpages
    cases hpages
  · intro hcond
    refine ⟨old ++ new, hlog, fun e he => ?_⟩
    rcases List.mem_append.mp he with he | he
    · exact hownold e he
    · obtain ⟨i, hi, hei, hpage⟩ := hnew e he
      obtain ⟨hlow, hO⟩ := hcond i hi
      rw [← hei] at hlow hO
      obtain ⟨m, hm, -, -, huser, -⟩ := h.own _ hO
      rw [hs.pages, hpage] at hm
      cases hm
      exact ⟨hlow, huser, h.fresh _ hO⟩

theorem onlyOwn_ensureMappedAt_iff (h : Loading v₀ O v) (hO : ∀ p ∈ O, p < lowPages)
    (hown : OnlyOwn v₀ v.space.log) (huser : flags.user = true) {page : Nat}
    (he : ensureMappedAt v (page * pageSize) flags = .ok v') :
    OnlyOwn v₀ v'.space.log ↔ (v₀.space.pages page = none → page < lowPages) := by
  have hload := h.ensureMappedAt huser he
  obtain ⟨hc, he⟩ := ensureMappedAt_eq_ok.mp he
  by_cases hp : v.space.pages page = none
  · obtain ⟨hnone, -⟩ := h.pages_eq_none.mp hp
    obtain ⟨-, frame, hm⟩ := ensureMapped_eq_ok hp he
    rw [onlyOwn_stored_iff hload (zeroFill_stored hm.zeroed) hown]
    constructor
    · intro hall _
      have hfirst := hall 0 (by decide)
      rw [page_of_offset (canonical_page_lt hc) (by decide)] at hfirst
      exact hfirst.1
    · intro hlow i hi
      rw [page_of_offset (canonical_page_lt hc) hi, h.grow_fresh hp]
      exact ⟨hlow hnone, Finset.mem_insert_self ..⟩
  · rw [ensureMapped_mapped hp] at he
    cases he
    refine ⟨fun _ hnone => ?_, fun _ => hown⟩
    by_contra hlow
    exact hp (h.pages_eq_none.mpr ⟨hnone, fun hmem => hlow (hO page hmem)⟩)

theorem low_union (hO : ∀ p ∈ O, p < lowPages) {pages : List Nat}
    (h : ∀ p ∈ pages, v₀.space.pages p = none → p < lowPages) :
    ∀ p ∈ O ∪ fresh v₀ pages, p < lowPages := by
  intro p hp
  rcases Finset.mem_union.mp hp with hp | hp
  · exact hO p hp
  · obtain ⟨hp, hnone⟩ := mem_fresh.mp hp
    exact h p hp hnone

theorem onlyOwn_mapPages_iff (h : Loading v₀ O v) (hO : ∀ p ∈ O, p < lowPages)
    (hown : OnlyOwn v₀ v.space.log) (huser : flags.user = true) {pages : List Nat}
    (he : mapPages v flags pages = .ok v') :
    OnlyOwn v₀ v'.space.log ↔ ∀ p ∈ pages, v₀.space.pages p = none → p < lowPages := by
  induction pages generalizing v O with
  | nil =>
    cases he
    exact ⟨fun _ p hp => absurd hp List.not_mem_nil, fun _ => hown⟩
  | cons page pages ih =>
    obtain ⟨v₁, h₁, he⟩ := bind_eq_ok.mp he
    have hload := h.ensureMappedAt huser h₁
    have hstep := onlyOwn_ensureMappedAt_iff h hO hown huser h₁
    have hrest : OnlyOwn v₀ v₁.space.log → (v₀.space.pages page = none → page < lowPages) →
        (OnlyOwn v₀ v'.space.log ↔ ∀ p ∈ pages, v₀.space.pages p = none → p < lowPages) :=
      fun hown₁ hlow => ih hload (low_union hO (by simpa using hlow)) hown₁ he
    rw [List.forall_mem_cons]
    constructor
    · intro hfinal
      have hmore := ((Loading.refl v₁).mapPages huser he).log.grows
      have hown₁ := hfinal.earlier hload.log.grows hmore
      exact ⟨hstep.mp hown₁, (hrest hown₁ (hstep.mp hown₁)).mp hfinal⟩
    · intro ⟨hlow, hall⟩
      exact (hrest (hstep.mpr hlow) hlow).mpr hall

/-! ## 2. What a program header may say -/

/-- A segment that can be loaded after the pages `O` were mapped. -/
structure Segment.Sound (s : Segment) (v₀ : State) (elf : Bytes) (O : Finset Nat) : Prop where
  inBounds : s.InBounds elf
  mappable : ∀ p ∈ s.pages, Mappable v₀ O s.ptFlags p
  low : ∀ p ∈ s.pages, v₀.space.pages p = none → p < lowPages
  own : ∀ i < max s.filesz s.memsz, (s.vaddr + i) % 2 ^ 64 / pageSize ∈ O ∪ fresh v₀ s.pages

/-- **One segment**, in the middle of a load that has been robust so far. -/
theorem loadSegment_sound_iff (hlen : elf.length < 2 ^ 63) (h : Loading v₀ O v)
    (hO : ∀ p ∈ O, p < lowPages) (hown : OnlyOwn v₀ v.space.log) {s : Segment} :
    (∃ v', loadSegment elf v s = .ok v' ∧ OnlyOwn v₀ v'.space.log) ↔
      s.Sound v₀ elf O ∧ need v₀ (O ∪ fresh v₀ s.pages) ≤ v₀.free.card := by
  constructor
  · intro ⟨v', he, hown'⟩
    obtain ⟨hin, v₁, space, hmap, hst, rfl⟩ := (loadSegment_eq_ok hlen).mp he
    obtain ⟨hneed, hmappable⟩ := (h.mapPages_ok_iff rfl).mp ⟨v₁, hmap⟩
    have hload := h.mapPages rfl hmap
    have hstored := storeAll_stored hst
    rw [s.length_bytes hin.file] at hstored
    obtain ⟨new, hlog, -⟩ := hstored.log
    have hown₁ := hown'.earlier hload.log.grows ⟨new, hlog.symm⟩
    have hbytes := (onlyOwn_stored_iff (hload.stored hstored) hstored hown₁).mp hown'
    exact ⟨⟨hin, hmappable, (onlyOwn_mapPages_iff h hO hown rfl hmap).mp hown₁,
      fun i hi => (hbytes i hi).2⟩, hneed⟩
  · intro ⟨⟨hin, hmappable, hlow, hbytes⟩, hneed⟩
    obtain ⟨v₁, hmap⟩ := (h.mapPages_ok_iff rfl).mpr ⟨hneed, hmappable⟩
    have hload := h.mapPages rfl hmap
    have hown₁ := (onlyOwn_mapPages_iff h hO hown rfl hmap).mpr hlow
    have hreach : ∀ i < (s.bytes elf).length, v₁.space.Reaches s.vaddr i := by
      intro i hi
      rw [s.length_bytes hin.file] at hi
      obtain ⟨m, hm, -, -, -, hw⟩ := hload.own _ (hbytes i hi)
      exact ⟨m, hm, fun hwp => hw (hload.wp ▸ hwp)⟩
    obtain ⟨space, hst⟩ := storeAll_ok_iff.mpr hreach
    have hstored := storeAll_stored hst
    rw [s.length_bytes hin.file] at hstored
    refine ⟨_, (loadSegment_eq_ok hlen).mpr ⟨hin, v₁, space, hmap, hst, rfl⟩, ?_⟩
    exact (onlyOwn_stored_iff (hload.stored hstored) hstored hown₁).mpr fun i hi =>
      ⟨low_union hO hlow _ (hbytes i hi), hbytes i hi⟩

/-- One segment after the other, each on top of the pages mapped before it. -/
def Fits (v₀ : State) (elf : Bytes) : Finset Nat → List Segment → Prop
  | _, [] => True
  | O, s :: ss => s.Sound v₀ elf O ∧ Fits v₀ elf (O ∪ fresh v₀ s.pages) ss

theorem fresh_append (v₀ : State) (ps qs : List Nat) :
    fresh v₀ (ps ++ qs) = fresh v₀ ps ∪ fresh v₀ qs := by
  ext q
  simp only [Finset.mem_union, mem_fresh, List.mem_append]
  exact or_and_right

/-- A successful load of segments keeps the invariant. -/
theorem Loading.segments (h : Loading v₀ O v) (hlen : elf.length < 2 ^ 63) {ss : List Segment}
    (he : ss.foldlM (loadSegment elf) v = .ok v') :
    Loading v₀ (O ∪ Elf.fresh v₀ (ss.flatMap Segment.pages)) v' := by
  induction ss generalizing v O with
  | nil =>
    cases he
    rw [List.flatMap_nil, fresh_nil, Finset.union_empty]
    exact h
  | cons s ss ih =>
    obtain ⟨v₁, h₁, he⟩ := bind_eq_ok.mp he
    rw [List.flatMap_cons, fresh_append, ← Finset.union_assoc]
    exact ih (h.segment hlen h₁) he

theorem Fits.low {ss : List Segment} (h : Fits v₀ elf O ss) (hO : ∀ p ∈ O, p < lowPages) :
    ∀ p ∈ O ∪ fresh v₀ (ss.flatMap Segment.pages), p < lowPages := by
  induction ss generalizing O with
  | nil =>
    rw [List.flatMap_nil, fresh_nil, Finset.union_empty]
    exact hO
  | cons s ss ih =>
    rw [List.flatMap_cons, fresh_append, ← Finset.union_assoc]
    exact ih h.2 (low_union hO h.1.low)

theorem fits_iff (hlen : elf.length < 2 ^ 63) (h : Loading v₀ O v) (hO : ∀ p ∈ O, p < lowPages)
    (hown : OnlyOwn v₀ v.space.log) (ss : List Segment) :
    (∃ v', ss.foldlM (loadSegment elf) v = .ok v' ∧ OnlyOwn v₀ v'.space.log) ↔
      Fits v₀ elf O ss ∧
        need v₀ (O ∪ fresh v₀ (ss.flatMap Segment.pages)) ≤ v₀.free.card := by
  induction ss generalizing v O with
  | nil =>
    rw [List.flatMap_nil, fresh_nil, Finset.union_empty]
    have hcard := h.card
    exact ⟨fun _ => ⟨trivial, by omega⟩, fun _ => ⟨v, rfl, hown⟩⟩
  | cons s ss ih =>
    rw [List.flatMap_cons, fresh_append, ← Finset.union_assoc]
    constructor
    · intro ⟨v', he, hown'⟩
      obtain ⟨v₁, h₁, he⟩ := bind_eq_ok.mp he
      have hload := h.segment hlen h₁
      have hown₁ := hown'.earlier hload.log.grows ((Loading.refl v₁).segments hlen he).log.grows
      obtain ⟨hsound, -⟩ := (loadSegment_sound_iff hlen h hO hown).mp ⟨v₁, h₁, hown₁⟩
      obtain ⟨hfits, hneed⟩ := (ih hload (low_union hO hsound.low) hown₁).mp ⟨v', he, hown'⟩
      exact ⟨⟨hsound, hfits⟩, hneed⟩
    · intro ⟨⟨hsound, hfits⟩, hneed⟩
      have hneed₁ := Nat.le_trans (need_mono Finset.subset_union_left) hneed
      obtain ⟨v₁, h₁, hown₁⟩ := (loadSegment_sound_iff hlen h hO hown).mpr ⟨hsound, hneed₁⟩
      obtain ⟨v', he, hown'⟩ :=
        (ih (h.segment hlen h₁) (low_union hO hsound.low) hown₁).mpr ⟨hfits, hneed⟩
      exact ⟨v', bind_eq_ok.mpr ⟨v₁, h₁, he⟩, hown'⟩

end

/-! ## 3. Robustness -/

/-- **A robust load**: it returns; an error comes without a store; and the stores of a success went
    to low-half user pages that were not mapped before. -/
def Robust (v : State) (elf : Bytes) : Prop :=
  ∃ r v', load v elf = .ok (r, v') ∧
    match r with
    | .error _ => v'.space.log = v.space.log ∧ v'.space.mem = v.space.mem
    | .ok _ => OnlyOwn v v'.space.log

/-- **What the file has to say** for that, if it passes the checks that are made: its program
    headers are inside it, its segments fit, and there are frames for them and for the stack. -/
def Loadable (v : State) (elf : Bytes) : Prop :=
  HeaderOk elf → TableInside elf ∧ Fits v elf ∅ (segments elf) ∧
    need v (fresh v ((segments elf).flatMap Segment.pages ++ stackPages)) ≤ v.free.card

theorem stack_mappable (v₀ : State) (O : Finset Nat) :
    ∀ p ∈ stackPages, p < lowPages ∧ Mappable v₀ O stackFlags p := by
  intro p hp
  have hrange : p < lowPages ∧ p ≠ 0 := by
    simp only [stackPages, List.mem_cons, List.not_mem_nil, or_false] at hp
    unfold lowPages
    omega
  exact ⟨hrange.1, canonical_of_low hrange.1, fun _ _ => ⟨hrange.2, fun _ => rfl⟩⟩

/-- A loadable file is loaded: the pages that were not mapped are, and nothing else is written. -/
theorem load_of_fits {v : State} {elf : Bytes} (hok : HeaderOk elf) (hlen : elf.length < 2 ^ 63)
    (hin : TableInside elf) (hfits : Fits v elf ∅ (segments elf))
    (hneed : need v (fresh v ((segments elf).flatMap Segment.pages ++ stackPages)) ≤ v.free.card) :
    ∃ v₁ v', (segments elf).foldlM (loadSegment elf) v = .ok v₁ ∧ mapStack v₁ = .ok v' ∧
      load v elf = .ok (.ok { entry := (header elf).entry, stackTop := userStackTop }, v') ∧
      Loading v (fresh v ((segments elf).flatMap Segment.pages ++ stackPages)) v' ∧
      OnlyOwn v v'.space.log := by
  have hempty : ∀ p ∈ (∅ : Finset Nat), p < lowPages :=
    fun p hp => absurd hp (Finset.notMem_empty p)
  have hsegs := fits_iff hlen (.refl v) hempty (.refl v) (segments elf)
  have hlow := hfits.low hempty
  rw [fresh_append] at hneed ⊢
  rw [Finset.empty_union] at hsegs hlow
  have hneed₁ := Nat.le_trans (need_mono Finset.subset_union_left) hneed
  obtain ⟨v₁, hseg, hown₁⟩ := hsegs.mpr ⟨hfits, hneed₁⟩
  have hload := (Loading.refl v).segments hlen hseg
  rw [Finset.empty_union] at hload
  have hmappable := stack_mappable v (fresh v ((segments elf).flatMap Segment.pages))
  obtain ⟨v', hstack⟩ := (hload.mapPages_ok_iff rfl).mpr ⟨hneed, fun p hp => (hmappable p hp).2⟩
  refine ⟨v₁, v', hseg, hstack, (load_ok_iff hok hlen).mpr ⟨hin, v₁, hseg, hstack, rfl⟩,
    hload.mapPages rfl hstack, ?_⟩
  exact (onlyOwn_mapPages_iff hload hlow hown₁ rfl hstack).mpr fun p hp _ => (hmappable p hp).1

/-- **Loader robustness.** For every memory and every file the load is robust exactly if the file is
    loadable there. -/
theorem load_robust_iff (v : State) (elf : Bytes) (hlen : elf.length < 2 ^ 63) :
    Robust v elf ↔ Loadable v elf := by
  by_cases hok : HeaderOk elf
  · constructor
    · rintro ⟨r, v', he, hr⟩ -
      have hempty : ∀ p ∈ (∅ : Finset Nat), p < lowPages := fun p hp =>
        absurd hp (Finset.notMem_empty p)
      obtain ⟨hin, v₁, hseg, hstack, rfl⟩ := (load_ok_iff hok hlen).mp he
      have hload := (Loading.refl v).segments hlen hseg
      rw [mapStack_eq] at hstack
      have hown₁ := OnlyOwn.earlier hr hload.log.grows
        ((Loading.refl v₁).mapPages rfl hstack).log.grows
      obtain ⟨hfits, -⟩ := (fits_iff hlen (.refl v) hempty (.refl v) _).mp ⟨v₁, hseg, hown₁⟩
      obtain ⟨hneed, -⟩ := (hload.mapPages_ok_iff rfl).mp ⟨v', hstack⟩
      rw [Finset.empty_union, ← fresh_append] at hneed
      exact ⟨hin, hfits, hneed⟩
    · intro h
      obtain ⟨hin, hfits, hneed⟩ := h hok
      obtain ⟨-, v', -, -, he, -, hown⟩ := load_of_fits hok hlen hin hfits hneed
      exact ⟨_, v', he, hown⟩
  · obtain ⟨msg, he⟩ := load_refused hok v
    exact ⟨fun _ h => absurd h hok, fun _ => ⟨_, v, he, rfl, rfl⟩⟩

/-- A program that stores 0x41 at the bottom of its top stack page and exits, then zeros up to the
    end of its page. -/
def poke : Bytes :=
  oneSegment 0x400000 0x1000
    -- mov byte ptr [0x4ff000], 0x41
    [0xc6#8, 0x04#8, 0x25#8, 0x00#8, 0xf0#8, 0x4f#8, 0x00#8, 0x41#8,
      -- mov eax, 2; xor edi, edi; int 0x80
      0xb8#8, 0x02#8, 0x00#8, 0x00#8, 0x00#8, 0x31#8, 0xff#8, 0xcd#8, 0x80#8]

theorem poke_length : poke.length = 137 := by decide +kernel

theorem poke_segments : segments poke = [⟨7, 120, 0x400000, 17, 0x1000⟩] := by decide

theorem poke_inside : TableInside poke := by
  intro i hi
  cases Nat.lt_one_iff.mp (show i < 1 from hi)
  have hp : phdr poke 0 = 64 := rfl
  rw [HeaderInside, hp, poke_length]
  exact ⟨by norm_num, fun _ => by norm_num⟩

theorem poke_fits : Fits blank poke ∅ [⟨7, 120, 0x400000, 17, 0x1000⟩] := by
  have hpages : Segment.pages ⟨7, 120, 0x400000, 17, 0x1000⟩ = [0x400] := rfl
  have hlow : 0x400 < lowPages := by norm_num [lowPages]
  refine ⟨⟨⟨by norm_num, by norm_num, by rw [poke_length]; norm_num⟩, ?_, ?_, ?_⟩, trivial⟩
  · intro p hp
    cases List.mem_singleton.mp (hpages ▸ hp)
    exact ⟨canonical_of_low hlow, fun _ _ => ⟨by norm_num, fun _ => rfl⟩⟩
  · intro p hp _
    cases List.mem_singleton.mp (hpages ▸ hp)
    exact hlow
  · intro i hi
    have hpage : (0x400000 + i) % 2 ^ 64 / pageSize = 0x400 := by
      unfold pageSize
      dsimp only at hi
      omega
    rw [hpage, hpages]
    decide

theorem load_robust_poke : Robust blank poke := by
  have hlen : poke.length < 2 ^ 63 := by rw [poke_length]; norm_num
  refine (load_robust_iff blank poke hlen).mpr fun _ => ⟨poke_inside, ?_, ?_⟩
  · rw [poke_segments]
    exact poke_fits
  · have hneed : need blank (fresh blank ([0x400] ++ stackPages)) = 8 := by decide
    rw [poke_segments]
    exact blank_room (Nat.le_trans (Nat.le_of_eq hneed) (by norm_num))

/-- A header alone, which announces one program header. -/
def truncated : Bytes := ehdr 0x400000 1

/-- One byte for the first page of the high half. -/
def intruder : Bytes := oneSegment 0xffff800000000000 1 [0x90#8]

/-- A page of the kernel. -/
def kernelPage : Mapping := ⟨7, ⟨true, false, true⟩⟩

/-- The first page of the high half is the kernel's, and the stack pages are mapped. -/
def kernelPages (p : Nat) : Option Mapping :=
  if p = 0xffff800000000 then some kernelPage
  else if p ∈ stackPages then some { frame := p, flags := stackFlags }
  else none

def kernelMapped : State :=
  ⟨{ blank.space with pages := kernelPages }, blank.frames, blank.tables⟩

def kernelOverwritten : State :=
  ⟨kernelMapped.space.put 0xffff800000000000 kernelPage 0x90#8, blank.frames, blank.tables⟩

theorem load_intruder : load kernelMapped intruder =
    .ok (.ok ⟨0xffff800000000000, userStackTop⟩, kernelOverwritten) := by
  have hlen : intruder.length = 121 := rfl
  have hlt : intruder.length < 2 ^ 63 := by rw [hlen]; norm_num
  have hseg : segments intruder = [⟨7, 120, 0xffff800000000000, 1, 1⟩] := by decide
  have hp : phdr intruder 0 = 64 := rfl
  refine (load_ok_iff (by decide) hlt).mpr ⟨?_, kernelOverwritten, ?_, ?_, rfl⟩
  · intro i hi
    cases Nat.lt_one_iff.mp (show i < 1 from hi)
    rw [HeaderInside, hp, hlen]
    exact ⟨by norm_num, fun _ => by norm_num⟩
  · rw [hseg]
    refine bind_eq_ok.mpr ⟨kernelOverwritten, (loadSegment_eq_ok hlt).mpr ⟨⟨by norm_num,
      by norm_num, by rw [hlen]; norm_num⟩, kernelMapped, kernelOverwritten.space,
      mapPages_mapped ?_, rfl, rfl⟩, rfl⟩
    intro p hp
    have hpages : Segment.pages ⟨7, 120, 0xffff800000000000, 1, 1⟩ = [0xffff800000000] := rfl
    cases List.mem_singleton.mp (hpages ▸ hp)
    exact ⟨by norm_num [Canonical, pageSize], by decide⟩
  · rw [mapStack_eq]
    refine mapPages_mapped fun p hp => ⟨canonical_of_low (stack_mappable kernelMapped ∅ p hp).1, ?_⟩
    revert p
    decide

/-- The header alone is read past its end; and a segment for the high half overwrites the kernel. -/
theorem load_not_robust :
    (load blank truncated = .error (.panic .bounds) ∧ ¬ Robust blank truncated) ∧
    ∃ img v', load kernelMapped intruder = .ok (.ok img, v') ∧
      kernelMapped.space.peek 0xffff800000000000 = some 0#8 ∧
      v'.space.peek 0xffff800000000000 = some 0x90#8 ∧ ¬ Robust kernelMapped intruder := by
  have htrunc : load blank truncated = .error (.panic .bounds) := rfl
  refine ⟨⟨htrunc, fun ⟨r, v', h, _⟩ => ?_⟩, ?_⟩
  · rw [htrunc] at h
    cases h
  · refine ⟨_, _, load_intruder, by decide, by decide, ?_⟩
    intro ⟨r, v', h, hr⟩
    rw [load_intruder] at h
    cases h
    obtain ⟨new, hlog, hown⟩ := hr
    cases hlog
    exact absurd (hown _ List.mem_cons_self).1 (by decide)

end SimpleLinux.Elf
