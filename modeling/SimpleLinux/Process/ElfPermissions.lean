/-
  File:      SimpleLinux/Process/ElfPermissions.lean
  Subject:   The permissions of a page that several segments share.

  `load` computes the flags of each segment and hands them to `ensure_mapped`, which looks at them
  only if the page is not there yet. So a page has the flags of the first segment in table order
  that touches it, and the stack's if there is none; what the later ones ask for is lost.

  * `flagsAt_load` -- that is what a load does to the page map;
  * `Permitted` -- a page may be written, or executed, iff someone on it asks for that;
  * `permissions_iff` -- this holds iff the first to touch a page asks for all that is asked for;
    `shared_not_executable` -- code on a page of data.
-/
import SimpleLinux.Process.ElfReadOnly

namespace SimpleLinux.Elf

open Rust Paging Vmm

/-! ## 1. The flags of a page -/

/-- The flags that a page is mapped with. -/
def flagsAt (v : State) (p : Nat) : Option Flags := (v.space.pages p).map Mapping.flags

/-- The flags of the first segment that touches a page. -/
def firstFlags (ss : List Segment) (p : Nat) : Option Flags :=
  (ss.find? fun s => p ∈ s.pages).map Segment.ptFlags

section

variable {v v' : State} {elf : Bytes} {flags : Flags}

theorem flagsAt_eq_none {p : Nat} : flagsAt v p = none ↔ v.space.pages p = none :=
  Option.map_eq_none_iff

theorem flagsAt_stored {s s' : Space} {addr n : Nat} (h : Stored s addr n s') (p : Nat) :
    flagsAt { v with space := s' } p = flagsAt { v with space := s } p := by
  rw [flagsAt, flagsAt, h.pages]

/-- A page that is there keeps its flags; one that is not gets those that were asked for. -/
theorem flagsAt_ensureMapped {page : Nat} (h : ensureMapped v page flags = .ok v') (p : Nat) :
    flagsAt v' p = (flagsAt v p).or (if p = page then some flags else none) := by
  by_cases hpage : v.space.pages page = none
  · obtain ⟨-, frame, hm⟩ := ensureMapped_eq_ok hpage h
    have hpages := (zeroFill_stored hm.zeroed).pages
    by_cases hp : p = page
    · subst hp
      have hself : v'.space.pages p = some ⟨frame, flags⟩ := by
        rw [hpages]
        exact Function.update_self ..
      rw [if_pos rfl, flagsAt_eq_none.mpr hpage, flagsAt, hself]
      rfl
    · have hother : v'.space.pages p = v.space.pages p := by
        rw [hpages]
        exact Function.update_of_ne hp ..
      rw [if_neg hp, Option.or_none, flagsAt, hother, flagsAt]
  · rw [ensureMapped_mapped hpage] at h
    cases h
    by_cases hp : p = page
    · subst hp
      obtain ⟨f, hf⟩ := Option.ne_none_iff_exists'.mp (mt flagsAt_eq_none.mp hpage)
      rw [hf, Option.some_or]
    · rw [if_neg hp, Option.or_none]

theorem flagsAt_mapPages {pages : List Nat} (h : mapPages v flags pages = .ok v') (p : Nat) :
    flagsAt v' p = (flagsAt v p).or (if p ∈ pages then some flags else none) := by
  induction pages generalizing v with
  | nil =>
    cases h
    rw [if_neg List.not_mem_nil, Option.or_none]
  | cons page pages ih =>
    obtain ⟨v₁, h₁, h⟩ := bind_eq_ok.mp h
    rw [ih h, flagsAt_ensureMapped (ensureMappedAt_eq_ok.mp h₁).2, Option.or_assoc]
    congr 1
    by_cases hp : p = page
    · simp [hp]
    · simp [hp]

theorem flagsAt_loadSegment (hlen : elf.length < 2 ^ 63) {s : Segment}
    (h : loadSegment elf v s = .ok v') (p : Nat) :
    flagsAt v' p = (flagsAt v p).or (if p ∈ s.pages then some s.ptFlags else none) := by
  obtain ⟨-, v₁, space, hmap, hst, rfl⟩ := (loadSegment_eq_ok hlen).mp h
  rw [flagsAt_stored (storeAll_stored hst)]
  exact flagsAt_mapPages hmap p

/-- The segments, in table order: the first that touches the page decides. -/
theorem flagsAt_segments (hlen : elf.length < 2 ^ 63) {ss : List Segment}
    (h : ss.foldlM (loadSegment elf) v = .ok v') (p : Nat) :
    flagsAt v' p = (flagsAt v p).or (firstFlags ss p) := by
  induction ss generalizing v with
  | nil =>
    cases h
    exact (Option.or_none ..).symm
  | cons s ss ih =>
    obtain ⟨v₁, h₁, h⟩ := bind_eq_ok.mp h
    rw [ih h, flagsAt_loadSegment hlen h₁, Option.or_assoc]
    congr 1
    by_cases hp : p ∈ s.pages
    · simp [firstFlags, hp]
    · simp [firstFlags, hp]

/-- **A page that was not mapped has the flags of the first segment that touches it**, or else those
    of the stack. -/
theorem flagsAt_load (hlen : elf.length < 2 ^ 63) {img : LoadedImage}
    (h : load v elf = .ok (.ok img, v')) {p : Nat} (hp : v.space.pages p = none) :
    flagsAt v' p =
      (firstFlags (segments elf) p).or (if p ∈ stackPages then some stackFlags else none) := by
  obtain ⟨hok, -⟩ := loading_of_load hlen h
  obtain ⟨-, v₁, hseg, hstack, -⟩ := (load_ok_iff hok hlen).mp h
  rw [mapStack_eq] at hstack
  rw [flagsAt_mapPages hstack, flagsAt_segments hlen hseg, flagsAt_eq_none.mpr hp, Option.none_or]

end

/-! ## 2. What is asked for -/

/-- The segment asks for a page that can be written. -/
def Segment.Writes (s : Segment) : Prop := s.flagsDw &&& pfW ≠ 0

/-- The segment asks for a page that can be executed. -/
def Segment.Runs (s : Segment) : Prop := s.flagsDw &&& pfX ≠ 0

instance (s : Segment) : Decidable s.Writes := inferInstanceAs (Decidable (_ ≠ _))

instance (s : Segment) : Decidable s.Runs := inferInstanceAs (Decidable (_ ≠ _))

theorem Segment.ptFlags_writable {s : Segment} : s.ptFlags.writable = true ↔ s.Writes := by
  simp [Segment.ptFlags, Segment.Writes]

theorem Segment.ptFlags_noExecute {s : Segment} : s.ptFlags.noExecute = false ↔ s.Runs := by
  simp [Segment.ptFlags, Segment.Runs]

/-- **The permissions of the segments survive**: a page of the program can be written iff a segment
    on it has PF_W or it is a page of the stack, and executed iff a segment on it has PF_X. -/
def Permitted (elf : Bytes) (v' : State) : Prop :=
  ∀ p ∈ occupied elf, ∃ m, v'.space.pages p = some m ∧
    (m.flags.writable = true ↔ p ∈ stackPages ∨ ∃ s ∈ segments elf, p ∈ s.pages ∧ s.Writes) ∧
    (m.flags.noExecute = false ↔ ∃ s ∈ segments elf, p ∈ s.pages ∧ s.Runs)

/-- **The first segment on a page asks for all that is asked for there.** -/
def FirstSuffices (elf : Bytes) : Prop :=
  ∀ p s, (segments elf).find? (fun s => p ∈ s.pages) = some s →
    (∀ t ∈ segments elf, p ∈ t.pages → (t.Writes → s.Writes) ∧ (t.Runs → s.Runs)) ∧
      (p ∈ stackPages → s.Writes)

/-! ## 3. Loads -/

section

variable {v v' : State} {elf : Bytes}

theorem find_touching {ss : List Segment} {p : Nat} {s : Segment}
    (h : ss.find? (fun s => p ∈ s.pages) = some s) : s ∈ ss ∧ p ∈ s.pages :=
  ⟨List.mem_of_find?_eq_some h, by simpa using List.find?_some h⟩

theorem find_untouched {ss : List Segment} {p : Nat} (h : ss.find? (fun s => p ∈ s.pages) = none) :
    ∀ s ∈ ss, p ∉ s.pages := by
  simpa using List.find?_eq_none.mp h

/-- On a page that a segment touches, both permissions are those of the first. -/
theorem permitted_touched {p : Nat} {s : Segment}
    (hfind : (segments elf).find? (fun s => p ∈ s.pages) = some s) :
    ((s.Writes ↔ p ∈ stackPages ∨ ∃ t ∈ segments elf, p ∈ t.pages ∧ t.Writes) ∧
      (s.Runs ↔ ∃ t ∈ segments elf, p ∈ t.pages ∧ t.Runs)) ↔
    (∀ t ∈ segments elf, p ∈ t.pages → (t.Writes → s.Writes) ∧ (t.Runs → s.Runs)) ∧
      (p ∈ stackPages → s.Writes) := by
  obtain ⟨hs, hp⟩ := find_touching hfind
  constructor
  · intro ⟨hw, hx⟩
    refine ⟨fun t ht htp => ⟨fun h => ?_, fun h => ?_⟩, fun h => hw.mpr (.inl h)⟩
    · exact hw.mpr (.inr ⟨t, ht, htp, h⟩)
    · exact hx.mpr ⟨t, ht, htp, h⟩
  · intro ⟨hall, hstack⟩
    refine ⟨⟨fun h => .inr ⟨s, hs, hp, h⟩, fun h => ?_⟩, ⟨fun h => ⟨s, hs, hp, h⟩, fun h => ?_⟩⟩
    · rcases h with h | ⟨t, ht, htp, h⟩
      · exact hstack h
      · exact (hall t ht htp).1 h
    · obtain ⟨t, ht, htp, h⟩ := h
      exact (hall t ht htp).2 h

/-- The state after a load, page by page. -/
theorem permitted_iff (hlen : elf.length < 2 ^ 63)
    (hfresh : ∀ p ∈ occupied elf, v.space.pages p = none) {img : LoadedImage}
    (h : load v elf = .ok (.ok img, v')) : Permitted elf v' ↔ FirstSuffices elf := by
  have hflags : ∀ p ∈ occupied elf, ∃ m, v'.space.pages p = some m ∧ some m.flags =
      (firstFlags (segments elf) p).or (if p ∈ stackPages then some stackFlags else none) := by
    intro p hp
    have hat := flagsAt_load hlen h (hfresh p hp)
    rcases hm : v'.space.pages p with - | m
    · obtain ⟨hnone, hnot⟩ := (loading_of_load hlen h).2.pages_eq_none.mp hm
      exact absurd (mem_fresh.mpr ⟨hp, hnone⟩) hnot
    · rw [flagsAt, hm] at hat
      exact ⟨m, rfl, hat⟩
  constructor
  · intro hperm p s hfind
    obtain ⟨hs, hp⟩ := find_touching hfind
    have hocc : p ∈ occupied elf := mem_occupied.mpr (.inl ⟨s, hs, hp⟩)
    obtain ⟨m, hm, hw, hx⟩ := hperm p hocc
    obtain ⟨m', hm', hf⟩ := hflags p hocc
    rw [hm] at hm'
    cases hm'
    rw [firstFlags, hfind, Option.map_some, Option.some_or] at hf
    rw [Option.some.inj hf, Segment.ptFlags_writable] at hw
    rw [Option.some.inj hf, Segment.ptFlags_noExecute] at hx
    exact (permitted_touched hfind).mp ⟨hw, hx⟩
  · intro hfirst p hp
    obtain ⟨m, hm, hf⟩ := hflags p hp
    refine ⟨m, hm, ?_⟩
    rcases hfind : (segments elf).find? (fun s => p ∈ s.pages) with - | s
    · -- only the stack is on the page
      have hno := find_untouched hfind
      have hstack : p ∈ stackPages := by
        rcases mem_occupied.mp hp with ⟨s, hs, hsp⟩ | hstack
        · exact absurd hsp (hno s hs)
        · exact hstack
      rw [firstFlags, hfind, if_pos hstack] at hf
      rw [Option.some.inj hf]
      refine ⟨⟨fun _ => .inl hstack, fun _ => rfl⟩, ⟨fun h => (nomatch h), fun h => ?_⟩⟩
      obtain ⟨s, hs, hsp, -⟩ := h
      exact absurd hsp (hno s hs)
    · rw [firstFlags, hfind, Option.map_some, Option.some_or] at hf
      rw [Option.some.inj hf, Segment.ptFlags_writable, Segment.ptFlags_noExecute]
      exact (permitted_touched hfind).mpr (hfirst p s hfind)

/-- Segments that are loaded without a fault: where the WP bit is set, each that adds a page has
    PF_W. -/
theorem fits_of_writableFirst (harr : Arranged elf) {ss : List Segment} {O : Finset Nat}
    (hmem : ∀ s ∈ ss, s ∈ segments elf) (hnull : ∀ s ∈ ss, pageSize ≤ s.vaddr)
    (hfresh : ∀ s ∈ ss, ∀ p ∈ s.pages, v.space.pages p = none)
    (hneed : need v (O ∪ (ss.flatMap Segment.pages).toFinset) ≤ v.free.card)
    (hwp : v.space.wp = true → WritableFirst v O ss) : Fits v elf O ss := by
  induction ss generalizing O with
  | nil => trivial
  | cons s ss ih =>
    obtain ⟨hs, hss⟩ := List.forall_mem_cons.mp hmem
    obtain ⟨hnulls, hnullss⟩ := List.forall_mem_cons.mp hnull
    obtain ⟨hfreshs, hfreshss⟩ := List.forall_mem_cons.mp hfresh
    rw [List.flatMap_cons, List.toFinset_append, ← Finset.union_assoc] at hneed
    refine ⟨harr.sound hs hnulls hfreshs fun p hp hO hw => ?_, ?_⟩
    · obtain ⟨q, hq⟩ : ∃ q, s.pages.find? (· ∉ O) = some q := by
        rw [← Option.isSome_iff_exists, List.find?_isSome]
        exact ⟨p, hp, by simpa using hO⟩
      have hsub : insert q O ⊆ O ∪ s.pages.toFinset ∪ (ss.flatMap Segment.pages).toFinset := by
        intro r hr
        refine Finset.mem_union_left _ (Finset.mem_union.mpr ?_)
        rcases Finset.mem_insert.mp hr with rfl | hr
        · exact .inr (List.mem_toFinset.mpr (List.mem_of_find?_eq_some hq))
        · exact .inl hr
      exact (hwp hw hnulls).1 q hq (Nat.le_trans (need_mono hsub) hneed)
    · rw [fresh_eq_toFinset hfreshs]
      exact ih hss hnullss hfreshss hneed fun hw => (hwp hw hnulls).2

/-- A well-formed file is loaded, if there is room and none of its segments is in the null page, as
    long as the kernel may write to read-only pages or no segment adds one. -/
theorem load_returns (harr : Arranged elf) (hlen : elf.length < 2 ^ 63)
    (hfresh : ∀ p ∈ occupied elf, v.space.pages p = none)
    (hnull : ∀ s ∈ segments elf, pageSize ≤ s.vaddr)
    (hneed : need v (occupied elf).toFinset ≤ v.free.card)
    (hwp : v.space.wp = true → WritableFirst v ∅ (segments elf)) :
    ∃ img v', load v elf = .ok (.ok img, v') := by
  have hpages : ∀ s ∈ segments elf, ∀ p ∈ s.pages, v.space.pages p = none := fun s hs p hp =>
    hfresh p (mem_occupied.mpr (.inl ⟨s, hs, hp⟩))
  have hsub : (∅ : Finset Nat) ∪ ((segments elf).flatMap Segment.pages).toFinset ⊆
      (occupied elf).toFinset := by
    rw [Finset.empty_union, occupied, List.toFinset_append]
    exact Finset.subset_union_left
  have hfits := fits_of_writableFirst harr (fun _ hs => hs) hnull hpages
    (Nat.le_trans (need_mono hsub) hneed) hwp
  rw [← fresh_eq_toFinset hfresh] at hneed
  obtain ⟨-, v', -, -, hload, -⟩ := load_of_fits harr.header hlen harr.inside hfits hneed
  exact ⟨_, v', hload⟩

/-- **Segment permissions survive page sharing iff the first segment on a page asks for all that is
    asked for there**, for every file and every load of it into an address space without its pages.
    The loads return for every well-formed file, at the conditions of `load_returns`. -/
theorem permissions_iff (hlen : elf.length < 2 ^ 63)
    (hfresh : ∀ p ∈ occupied elf, v.space.pages p = none) :
    (∀ img v', load v elf = .ok (.ok img, v') → (Permitted elf v' ↔ FirstSuffices elf)) ∧
    (Arranged elf → (∀ s ∈ segments elf, pageSize ≤ s.vaddr) →
      need v (occupied elf).toFinset ≤ v.free.card →
      (v.space.wp = true → WritableFirst v ∅ (segments elf)) →
      ∃ img v', load v elf = .ok (.ok img, v')) :=
  ⟨fun _ _ h => permitted_iff hlen hfresh h,
    fun harr hnull hneed hwp => load_returns harr hlen hfresh hnull hneed hwp⟩

end

/-- A segment with all permissions, and code further on in its page. -/
def layered : Bytes :=
  ehdr 0x400010 2 ++ Segment.pack ⟨7, 176, 0x400000, 1, 1⟩ ++
    Segment.pack ⟨5, 177, 0x400010, 1, 1⟩ ++ [0x41#8, 0x90#8]

theorem layered_segments :
    segments layered = [⟨7, 176, 0x400000, 1, 1⟩, ⟨5, 177, 0x400010, 1, 1⟩] := by decide

theorem layered_arranged : Arranged layered := by
  have hlen : layered.length = 178 := rfl
  exact arranged_of_segments ⟨by rw [hlen]; decide, by decide, by decide⟩ layered_segments
    (by decide) (by rw [hlen]; decide) (by rw [hlen]; decide)

theorem layered_firstSuffices : FirstSuffices layered := by
  intro p s hfind
  obtain ⟨hs, hp⟩ := find_touching hfind
  rw [layered_segments] at hs hfind
  have hpage : p = 0x400 := by
    have hpages : ∀ t ∈ [(⟨7, 176, 0x400000, 1, 1⟩ : Segment), ⟨5, 177, 0x400010, 1, 1⟩],
        t.pages = [0x400] := by decide
    rw [hpages s hs] at hp
    exact List.mem_singleton.mp hp
  subst hpage
  cases (show some (⟨7, 176, 0x400000, 1, 1⟩ : Segment) = some s from hfind)
  have hboth : Segment.Writes ⟨7, 176, 0x400000, 1, 1⟩ ∧
      Segment.Runs ⟨7, 176, 0x400000, 1, 1⟩ := by decide
  exact ⟨fun t _ _ => ⟨fun _ => hboth.1, fun _ => hboth.2⟩, fun _ => hboth.1⟩

/-- Two segments on one page, the first with all permissions. -/
theorem permissions_layered :
    ∃ img v', load blank layered = .ok (.ok img, v') ∧ Permitted layered v' := by
  have hlen : layered.length < 2 ^ 63 := by
    rw [show layered.length = 178 from rfl]
    norm_num
  have hocc : occupied layered = 0x400 :: 0x400 :: stackPages := by
    rw [occupied, layered_segments]
    rfl
  have hneed : need blank (0x400 :: 0x400 :: stackPages).toFinset = 8 := by decide
  have hall := permissions_iff (v := blank) hlen fun _ _ => rfl
  obtain ⟨img, v', hload⟩ := hall.2 layered_arranged (by rw [layered_segments]; decide)
    (by rw [hocc, hneed]; exact blank_room (by norm_num)) fun _ => by
      rw [layered_segments]
      exact fun _ => ⟨fun _ _ _ => rfl, fun _ => ⟨fun _ hp _ => (by cases hp), trivial⟩⟩
  exact ⟨img, v', hload, (hall.1 img v' hload).mpr layered_firstSuffices⟩

/-- **Code on a page of data cannot be executed**: the data came first. -/
theorem shared_not_executable :
    ∃ img v' m, load blank shared = .ok (.ok img, v') ∧ v'.space.pages 0x400 = some m ∧
      m.flags.noExecute = true ∧ ¬ Permitted shared v' := by
  have hfresh : ∀ p ∈ occupied shared, blank.space.pages p = none := fun _ _ => rfl
  have hocc : occupied shared = 0x400 :: 0x400 :: stackPages := by
    rw [occupied, shared_segments]
    rfl
  have hneed : need blank (0x400 :: 0x400 :: stackPages).toFinset = 8 := by decide
  obtain ⟨img, v', hload⟩ := load_returns shared_arranged shared_short hfresh
    (by rw [shared_segments]; decide) (by rw [hocc, hneed]; exact blank_room (by norm_num))
    fun _ => shared_writableFirst
  have hflags := flagsAt_load shared_short hload (p := 0x400) rfl
  have hfirst : firstFlags (segments shared) 0x400 = some ⟨true, true, true⟩ := by
    rw [shared_segments]
    rfl
  rw [hfirst, Option.some_or] at hflags
  obtain ⟨m, hm, hmf⟩ := Option.map_eq_some_iff.mp hflags
  have hx : m.flags.noExecute = true := by rw [hmf]
  refine ⟨img, v', m, hload, hm, hx, fun hperm => ?_⟩
  have hcode : (⟨5, 177, 0x400010, 1, 1⟩ : Segment) ∈ segments shared := by
    rw [shared_segments]
    exact List.mem_cons_of_mem _ List.mem_cons_self
  obtain ⟨m', hm', -, hrun⟩ := hperm 0x400 (by rw [hocc]; exact List.mem_cons_self)
  rw [hm] at hm'
  cases hm'
  rw [hrun.mpr ⟨_, hcode, by decide, by decide⟩] at hx
  cases hx

end SimpleLinux.Elf
