/-
  File:      SimpleLinux/Process/ElfReadOnly.lean
  Subject:   Stores of the ELF loader through read-only mappings.

  `load` maps a page with the flags of the segment it is loading and then writes to it through that
  mapping: it clears the page, copies the bytes, clears the tail. With the WP bit the kernel is held
  to read-only mappings too, so the first page that a segment without PF_W adds is a page fault. A
  segment whose pages are there already is written through the mapping of the segment that was
  first.

  * `StoresWritable` -- no store of a load goes through a read-only mapping;
  * `WritableFirst` -- as far as the loader gets, every segment that adds a page has PF_W;
  * `stores_writable_iff` -- for every file and every fresh address space these are the same.
-/
import SimpleLinux.Process.ElfImage

namespace SimpleLinux.Elf

open Rust Paging Vmm

/-- **No store of the load goes through a read-only mapping.** With the WP bit such a store is a
    fault, so the load has none; and the stores of a load that returns are logged with the mapping
    of the moment. -/
def StoresWritable (v : State) (elf : Bytes) : Prop :=
  ¬ Faults (load v elf) ∧ ∀ r v', load v elf = .ok (r, v') →
    ∃ new, v'.space.log = v.space.log ++ new ∧ ∀ e ∈ new, e.2.flags.writable = true

/-- **Every segment that adds a page to `O` has PF_W**, as far as the loader gets: not past a
    segment that begins in the null page, nor to a page that there are no frames for. -/
def WritableFirst (v : State) : Finset Nat → List Segment → Prop
  | _, [] => True
  | O, s :: ss => pageSize ≤ s.vaddr →
    (∀ p, s.pages.find? (· ∉ O) = some p → need v (insert p O) ≤ v.free.card →
      s.ptFlags.writable = true) ∧ WritableFirst v (O ∪ s.pages.toFinset) ss

section

variable {v w w' : State} {O : Finset Nat} {elf : Bytes} {flags : Flags} {s : Segment}

/-- Beyond the last frame nothing is asked. -/
theorem writableFirst_of_short (h : v.free.card < need v O) (ss : List Segment) :
    WritableFirst v O ss := by
  induction ss generalizing O with
  | nil => trivial
  | cons s ss ih =>
    refine fun _ => ⟨fun p _ hle => ?_, ih (Nat.lt_of_lt_of_le h
      (need_mono Finset.subset_union_left))⟩
    have : need v O ≤ need v (insert p O) := need_mono (Finset.subset_insert p O)
    omega

/-! ## 1. Mapping pages -/

theorem ensureMappedAt_low {page : Nat} (h : page < lowPages) :
    ensureMappedAt v (page * pageSize) flags = ensureMapped v page flags := by
  have hpos : 0 < pageSize := by decide
  rw [ensureMappedAt, virtAddr_eq_ok.mpr ⟨canonical_of_low h, rfl⟩, lift_ok, exec_ok_bind,
    Nat.mul_div_cancel _ hpos]

theorem low_page_lt {page : Nat} (h : page < lowPages) : page < 2 ^ 52 :=
  canonical_page_lt (canonical_of_low h)

/-- A page that is mapped read-only faults at its first byte, when it is to be cleared. -/
theorem ensureMapped_readOnly {page : Nat} (h : v.space.pages page = none) (hp : page < lowPages)
    (hle : needs v page ≤ v.free.card) (hzero : page ≠ 0)
    (hro : ¬ (v.space.wp = true → flags.writable = true)) :
    ensureMapped v page flags = .error (.fault (page * pageSize)) := by
  rcases ensureMapped_fresh h flags with ⟨-, frame, v₁, -, -, -, -, hspace, hv₁⟩ | ⟨hlt, -⟩
  · have haddr : page * pageSize % 2 ^ 64 = page * pageSize := Nat.mod_eq_of_lt (by
      have := low_page_lt hp
      unfold pageSize
      omega)
    have hmap : v₁.space.pages (page * pageSize / pageSize) = some ⟨frame, flags⟩ := by
      rw [hspace, Nat.mul_div_cancel _ (by decide)]
      exact Function.update_self ..
    have hstore : store v₁.space (page * pageSize) 0#8 = .error (.fault (page * pageSize)) := by
      rw [store, hmap]
      refine if_neg fun ha => hro ?_
      rwa [hspace] at ha
    have hbytes : List.replicate pageSize 0#8 = 0#8 :: List.replicate 4095 0#8 := rfl
    rw [hv₁, writeBytes, if_neg (Nat.mul_ne_zero hzero (by decide)), zeroFill, hbytes, storeAll,
      haddr, hstore]
    rfl
  · exact absurd hle (Nat.not_le.mpr hlt)

/-- **When mapping a page faults.** -/
theorem ensureMapped_faults_iff {page : Nat} (h : v.space.pages page = none)
    (hp : page < lowPages) : Faults (ensureMapped v page flags) ↔
      needs v page ≤ v.free.card ∧ page ≠ 0 ∧ ¬ (v.space.wp = true → flags.writable = true) := by
  refine ⟨fun hf => ?_, fun hc => ⟨_, ensureMapped_readOnly h hp hc.1 hc.2.1 hc.2.2⟩⟩
  rcases ensureMapped_fresh h flags with ⟨hle, -, v₁, -, -, -, -, -, hv₁⟩ | ⟨-, msg, herr⟩
  · have hzero : page ≠ 0 := by
      rintro rfl
      rw [hv₁, writeBytes, if_pos (Nat.zero_mul _)] at hf
      cases hf.choose_spec
    refine ⟨hle, hzero, fun hw => ?_⟩
    obtain ⟨v', he⟩ := (ensureMapped_fresh_iff h (low_page_lt hp)).mpr ⟨hle, hzero, hw⟩
    exact not_faults_ok v' (he ▸ hf)
  · rw [herr] at hf
    cases hf.choose_spec

/-- Pages that are mapped to be written. -/
theorem not_faults_mapPages (hw : flags.writable = true) {pages : List Nat}
    (hlow : ∀ p ∈ pages, p < lowPages) (v : State) : ¬ Faults (mapPages v flags pages) := by
  refine not_faults_foldlM (fun v p hp => ?_) v
  rw [ensureMappedAt_low (hlow p hp)]
  by_cases hmapped : v.space.pages p = none
  · rw [ensureMapped_faults_iff hmapped (hlow p hp)]
    exact fun hc => hc.2.2 fun _ => hw
  · rw [ensureMapped_mapped hmapped]
    exact not_faults_ok v

/-- Pages that are mapped read-only fault at the first that is not there yet. -/
theorem Loading.mapPages_faults_iff (h : Loading v O w) (hwp : v.space.wp = true)
    (hw : flags.writable = false) {pages : List Nat} (hlow : ∀ p ∈ pages, p < lowPages)
    (hnone : ∀ p ∈ pages, v.space.pages p = none) : Faults (Elf.mapPages w flags pages) ↔
      ∃ p, pages.find? (· ∉ O) = some p ∧ p ≠ 0 ∧ need v (Insert.insert p O) ≤ v.free.card := by
  have hro : ¬ (w.space.wp = true → flags.writable = true) := by
    rw [h.wp, hwp, hw]
    decide
  induction pages with
  | nil =>
    exact ⟨fun hf => absurd hf (not_faults_ok w), fun hp => nomatch hp.choose_spec.1⟩
  | cons page pages ih =>
    obtain ⟨hlow₁, hlow⟩ := List.forall_mem_cons.mp hlow
    obtain ⟨hnone₁, hnone⟩ := List.forall_mem_cons.mp hnone
    rw [Elf.mapPages, List.foldlM_cons, ensureMappedAt_low hlow₁]
    by_cases hO : page ∈ O
    · have hp : w.space.pages page ≠ none := fun hp => (h.pages_eq_none.mp hp).2 hO
      rw [ensureMapped_mapped hp, exec_ok_bind, List.find?_cons_of_neg (by simpa using hO)]
      exact ih hlow hnone
    · have hp := h.pages_eq_none.mpr ⟨hnone₁, hO⟩
      rw [faults_bind, ensureMapped_faults_iff hp hlow₁,
        List.find?_cons_of_pos (by simpa using hO)]
      have hneed := need_insert h.tables hO
      have hcard := h.card
      refine ⟨fun hf => ?_, fun hp => ?_⟩
      · rcases hf with ⟨hle, hzero, -⟩ | ⟨w', he, -⟩
        · exact ⟨page, rfl, hzero, by omega⟩
        · exact absurd ((ensureMapped_fresh_iff hp (low_page_lt hlow₁)).mp ⟨w', he⟩).2.2 hro
      · obtain ⟨p, hp, hzero, hle⟩ := hp
        cases hp
        exact .inl ⟨by omega, hzero, hro⟩

/-! ## 2. Segments -/

/-- In the middle of the load of a file with everything in its place. -/
structure Underway (v : State) (O : Finset Nat) (w : State) : Prop where
  loading : Loading v O w
  low : ∀ p ∈ O, p < lowPages
  own : OnlyOwn v w.space.log
  null : 0 ∉ O

theorem Underway.refl (v : State) : Underway v ∅ v :=
  ⟨.refl v, fun p hp => absurd hp (Finset.notMem_empty p), .refl v, Finset.notMem_empty 0⟩

/-- A segment in the null page stops the load, but not with a fault. -/
theorem Underway.null_segment (h : Underway v O w) (elf : Bytes) (hlow : s.vaddr + s.memsz ≤ 2 ^ 47)
    (hnone : ∀ p ∈ s.pages, v.space.pages p = none) (hnull : ¬ pageSize ≤ s.vaddr) :
    ¬ Faults (loadSegment elf w s) ∧ ∀ w', loadSegment elf w s ≠ .ok w' := by
  have hsum : s.vaddr + s.memsz < 2 ^ 64 := by omega
  have hend : s.vaddr + s.memsz + 4095 < 2 ^ 64 := by omega
  have hstart : s.vaddr / pageSize = 0 := Nat.div_eq_of_lt (Nat.not_le.mp hnull)
  unfold loadSegment
  rw [add_of_lt hsum, lift_ok, exec_ok_bind, add_of_lt hend, lift_ok, exec_ok_bind]
  dsimp only
  rw [hstart, Nat.sub_zero]
  rcases hn : (s.vaddr + s.memsz + 4095) / pageSize with - | n
  · -- an empty segment at address zero
    have hvaddr : s.vaddr = 0 := by
      unfold pageSize at hn
      omega
    have hmap : mapPages w s.ptFlags (List.range' 0 0) = .ok w := rfl
    rw [hmap, exec_ok_bind, if_pos (.inl hvaddr)]
    exact ⟨fun hf => (nomatch hf.choose_spec), fun w' he => (nomatch he)⟩
  · have hmem : 0 ∈ s.pages := Segment.mem_pages.mpr ⟨by omega, by omega⟩
    have hp := h.loading.pages_eq_none.mpr ⟨hnone 0 hmem, h.null⟩
    have hlow₀ : 0 < lowPages := by decide
    have hmap : mapPages w s.ptFlags (List.range' 0 (n + 1)) =
        ensureMapped w 0 s.ptFlags >>= fun w₁ => mapPages w₁ s.ptFlags (List.range' 1 n) := by
      rw [← ensureMappedAt_low hlow₀]
      rfl
    rw [hmap, bind_assoc, faults_bind]
    have hnot : ∀ w₁, ensureMapped w 0 s.ptFlags ≠ .ok w₁ := fun w₁ he =>
      ((ensureMapped_fresh_iff hp (by norm_num)).mp ⟨w₁, he⟩).2.1 rfl
    refine ⟨fun hf => ?_, fun w' he => ?_⟩
    · rcases hf with hf | ⟨w₁, he, -⟩
      · exact ((ensureMapped_faults_iff hp hlow₀).mp hf).2.1 rfl
      · exact hnot w₁ he
    · obtain ⟨w₁, he, -⟩ := bind_eq_ok.mp he
      exact hnot w₁ he

section

variable (harr : Arranged elf) (hlen : elf.length < 2 ^ 63) (hwp : v.space.wp = true)

include hwp in
theorem Underway.mapPages_ok_iff (h : Underway v O w) (hlow : ∀ p ∈ s.pages, p < lowPages)
    (hnone : ∀ p ∈ s.pages, v.space.pages p = none) (hnull : pageSize ≤ s.vaddr) :
    (∃ w₁, mapPages w s.ptFlags s.pages = .ok w₁) ↔
      need v (O ∪ s.pages.toFinset) ≤ v.free.card ∧
        ∀ p ∈ s.pages, p ∉ O → s.ptFlags.writable = true := by
  rw [h.loading.mapPages_ok_iff rfl, fresh_eq_toFinset hnone]
  refine and_congr_right fun _ => forall₂_congr fun p hp => ?_
  refine ⟨fun hm hO => (hm.2 (hnone p hp) hO).2 hwp, fun hw => ?_⟩
  exact ⟨canonical_of_low (hlow p hp), fun _ hO => ⟨Segment.page_ne_zero hnull hp, fun _ => hw hO⟩⟩

include hwp in
theorem Underway.not_faults_mapPages_iff (h : Underway v O w) (hlow : ∀ p ∈ s.pages, p < lowPages)
    (hnone : ∀ p ∈ s.pages, v.space.pages p = none) (hnull : pageSize ≤ s.vaddr) :
    ¬ Faults (mapPages w s.ptFlags s.pages) ↔ ∀ p, s.pages.find? (· ∉ O) = some p →
      need v (insert p O) ≤ v.free.card → s.ptFlags.writable = true := by
  rcases hw : s.ptFlags.writable with - | -
  · rw [h.loading.mapPages_faults_iff hwp hw hlow hnone]
    refine ⟨fun hf p hp hle => ?_, fun hall hf => ?_⟩
    · exact absurd ⟨p, hp, Segment.page_ne_zero hnull (List.mem_of_find?_eq_some hp), hle⟩ hf
    · obtain ⟨p, hp, -, hle⟩ := hf
      exact absurd (hall p hp hle) Bool.false_ne_true
  · exact iff_of_true (Elf.not_faults_mapPages hw hlow w) fun _ _ _ => rfl

include hwp in
/-- Pages that are not mapped, without a fault, are more than there are frames for. -/
theorem Underway.short (h : Underway v O w) (hlow : ∀ p ∈ s.pages, p < lowPages)
    (hnone : ∀ p ∈ s.pages, v.space.pages p = none) (hnull : pageSize ≤ s.vaddr)
    (hmap : ¬ ∃ w₁, mapPages w s.ptFlags s.pages = .ok w₁)
    (hf : ¬ Faults (mapPages w s.ptFlags s.pages)) :
    v.free.card < need v (O ∪ s.pages.toFinset) := by
  by_contra hle
  rw [h.mapPages_ok_iff hwp hlow hnone hnull, not_and] at hmap
  refine hmap (Nat.not_lt.mp hle) fun q hq hqO => ?_
  rcases hfind : s.pages.find? (· ∉ O) with - | p
  · exact absurd (by simpa using List.find?_eq_none.mp hfind q hq) hqO
  · have hp := List.mem_of_find?_eq_some hfind
    have hsub : insert p O ⊆ O ∪ s.pages.toFinset := Finset.insert_subset
      (Finset.mem_union_right _ (List.mem_toFinset.mpr hp)) Finset.subset_union_left
    exact (h.not_faults_mapPages_iff hwp hlow hnone hnull).mp hf p hfind
      (Nat.le_trans (need_mono hsub) (Nat.not_lt.mp hle))

include harr hlen in
/-- A segment whose pages were mapped is stored. -/
theorem Underway.segment (h : Underway v O w) (hs : s ∈ segments elf)
    (hnone : ∀ p ∈ s.pages, v.space.pages p = none) (hnull : pageSize ≤ s.vaddr) {w₁ : State}
    (hmap : mapPages w s.ptFlags s.pages = .ok w₁) :
    ∃ w', loadSegment elf w s = .ok w' ∧ Underway v (O ∪ s.pages.toFinset) w' := by
  obtain ⟨hneed, hmappable⟩ := (h.loading.mapPages_ok_iff rfl).mp ⟨w₁, hmap⟩
  have hsound : s.Sound v elf O := harr.sound hs hnull hnone fun p hp hO =>
    ((hmappable p hp).2 (hnone p hp) hO).2
  obtain ⟨w', he, hown⟩ :=
    (loadSegment_sound_iff hlen h.loading h.low h.own).mpr ⟨hsound, hneed⟩
  have hlow := low_union h.low hsound.low
  have hload := h.loading.segment hlen he
  rw [fresh_eq_toFinset hnone] at hlow hload
  refine ⟨w', he, hload, hlow, hown, fun h0 => ?_⟩
  rcases Finset.mem_union.mp h0 with h0 | h0
  · exact h.null h0
  · exact Segment.page_ne_zero hnull (List.mem_toFinset.mp h0) rfl

include harr hlen in
/-- So a segment faults where its pages do. -/
theorem Underway.loadSegment_faults_iff (h : Underway v O w) (hs : s ∈ segments elf)
    (hnone : ∀ p ∈ s.pages, v.space.pages p = none) (hnull : pageSize ≤ s.vaddr) :
    Faults (loadSegment elf w s) ↔ Faults (mapPages w s.ptFlags s.pages) := by
  by_cases hmap : ∃ w₁, mapPages w s.ptFlags s.pages = .ok w₁
  · obtain ⟨w₁, hmap⟩ := hmap
    obtain ⟨w', he, -⟩ := h.segment harr hlen hs hnone hnull hmap
    rw [he, hmap]
    exact ⟨fun hf => absurd hf (not_faults_ok w'), fun hf => absurd hf (not_faults_ok w₁)⟩
  · rw [loadSegment_eq hlen (harr.inBounds hs hnull), faults_bind]
    exact or_iff_left fun hok => hmap (hok.imp fun w₁ hw => hw.1)

include harr hlen hwp in
/-- **The loop over the segments** faults exactly where a segment without PF_W adds a page. -/
theorem Underway.segments_faults_iff (h : Underway v O w) {ss : List Segment}
    (hss : ∀ s ∈ ss, s ∈ segments elf) (hnone : ∀ s ∈ ss, ∀ p ∈ s.pages, v.space.pages p = none) :
    ¬ Faults (ss.foldlM (loadSegment elf) w) ↔ WritableFirst v O ss := by
  induction ss generalizing O w with
  | nil => exact ⟨fun _ => trivial, fun _ => not_faults_ok w⟩
  | cons s ss ih =>
    obtain ⟨hs, hss⟩ := List.forall_mem_cons.mp hss
    obtain ⟨hnone₁, hnone⟩ := List.forall_mem_cons.mp hnone
    have hlow := Segment.pages_low (harr.low s hs)
    rw [List.foldlM_cons, faults_bind, not_or, WritableFirst]
    by_cases hnull : pageSize ≤ s.vaddr
    · rw [forall_prop_of_true hnull, h.loadSegment_faults_iff harr hlen hs hnone₁ hnull,
        ← h.not_faults_mapPages_iff hwp hlow hnone₁ hnull]
      refine and_congr_right fun hf => ?_
      by_cases hmap : ∃ w₁, mapPages w s.ptFlags s.pages = .ok w₁
      · -- the segment is loaded: the rest decides
        obtain ⟨w₁, hmap⟩ := hmap
        obtain ⟨w', he, hw'⟩ := h.segment harr hlen hs hnone₁ hnull hmap
        rw [he, ← ih hw' hss hnone]
        simp only [Except.ok.injEq, exists_eq_left']
      · -- it is not, for want of frames
        have hshort := h.short hwp hlow hnone₁ hnull hmap hf
        refine iff_of_true (fun hok => hmap ?_) (writableFirst_of_short hshort ss)
        obtain ⟨w', he, -⟩ := hok
        obtain ⟨-, w₁, -, hw₁, -⟩ := (loadSegment_eq_ok hlen).mp he
        exact ⟨w₁, hw₁⟩
    · obtain ⟨hnot, herr⟩ := h.null_segment elf (harr.low s hs) hnone₁ hnull
      refine iff_of_true ⟨hnot, fun hok => ?_⟩ fun hle => absurd hle hnull
      obtain ⟨w', he, -⟩ := hok
      exact herr w' he

include harr hlen in
theorem Underway.segments (h : Underway v O w) {ss : List Segment}
    (hss : ∀ s ∈ ss, s ∈ Elf.segments elf)
    (hnone : ∀ s ∈ ss, ∀ p ∈ s.pages, v.space.pages p = none)
    (he : ss.foldlM (loadSegment elf) w = .ok w') : ∃ O', Underway v O' w' := by
  induction ss generalizing O w with
  | nil =>
    cases he
    exact ⟨O, h⟩
  | cons s ss ih =>
    obtain ⟨hs, hss⟩ := List.forall_mem_cons.mp hss
    obtain ⟨hnone₁, hnone⟩ := List.forall_mem_cons.mp hnone
    obtain ⟨w₁, h₁, he⟩ := bind_eq_ok.mp he
    obtain ⟨-, w₂, -, hmap, -⟩ := (loadSegment_eq_ok hlen).mp h₁
    have hnull : pageSize ≤ s.vaddr := by
      by_contra hnull
      exact (h.null_segment elf (harr.low s hs) hnone₁ hnull).2 w₁ h₁
    obtain ⟨w₃, h₃, hw⟩ := h.segment harr hlen hs hnone₁ hnull hmap
    cases h₁.symm.trans h₃
    exact ih hw hss hnone he

end

/-! ## 3. The load -/

theorem not_faults_mapStack (w : State) : ¬ Faults (mapStack w) :=
  not_faults_mapPages rfl (fun p hp => (stack_mappable w ∅ p hp).1) w

/-- **Read-only mappings.** Every file that is arranged as it should be, with any flags, loaded into
    every fresh address space, is stored through writable mappings only exactly if every segment
    that adds a page has PF_W. -/
theorem stores_writable_iff (harr : Arranged elf) (hlen : elf.length < 2 ^ 63)
    (hfresh : ∀ p ∈ occupied elf, v.space.pages p = none) (hwp : v.space.wp = true) :
    StoresWritable v elf ↔ WritableFirst v ∅ (segments elf) := by
  have hnone : ∀ s ∈ segments elf, ∀ p ∈ s.pages, v.space.pages p = none := fun s hs p hp =>
    hfresh p (mem_occupied.mpr (.inl ⟨s, hs, hp⟩))
  have hload := load_eq_segments harr.header hlen harr.inside v
  rw [← (Underway.refl v).segments_faults_iff harr hlen hwp (fun _ hs => hs) hnone]
  refine ⟨fun h hf => h.1 ?_, fun hf => ⟨?_, fun r v' he => ?_⟩⟩
  · rw [hload]
    exact faults_bind.mpr (.inl hf)
  · rw [hload, faults_bind]
    rintro (h | ⟨w, -, h⟩)
    · exact hf h
    · rcases faults_bind.mp h with h | ⟨w', -, h⟩
      · exact not_faults_mapStack w h
      · exact not_faults_ok _ h
  · rw [hload] at he
    obtain ⟨w, hseg, he⟩ := bind_eq_ok.mp he
    obtain ⟨w', hstack, he⟩ := bind_eq_ok.mp he
    cases he
    obtain ⟨O, hw⟩ := (Underway.refl v).segments harr hlen (fun _ hs => hs) hnone hseg
    rw [mapStack_eq] at hstack
    have hown := (onlyOwn_mapPages_iff hw.loading hw.low hw.own rfl hstack).mpr fun p hp _ =>
      (stack_mappable v O p hp).1
    obtain ⟨new, hlog, hnew, -⟩ := (hw.loading.mapPages rfl hstack).own_log hown
    exact ⟨new, hlog, fun e he => (hnew e he).2.2 hwp⟩

/-- A file with the given segments. -/
theorem arranged_of_segments {ss : List Segment} (hok : HeaderOk elf) (hseg : segments elf = ss)
    (hent : 56 ≤ (header elf).phentsize)
    (htable : (header elf).phoff + (header elf).phnum * (header elf).phentsize ≤ elf.length)
    (h : ∀ s ∈ ss, s.off + s.filesz ≤ elf.length ∧ s.filesz ≤ s.memsz ∧
      s.vaddr + s.memsz ≤ 2 ^ 47) : Arranged elf := by
  subst hseg
  exact ⟨hok, hent, htable, fun s hs => (h s hs).1, fun s hs => (h s hs).2.1,
    fun s hs => (h s hs).2.2⟩

end

/-- A page of data, and code further on in it: the second segment adds no page. -/
def shared : Bytes :=
  ehdr 0x400010 2 ++ Segment.pack ⟨6, 176, 0x400000, 1, 1⟩ ++
    Segment.pack ⟨5, 177, 0x400010, 1, 1⟩ ++ [0x41#8, 0x90#8]

theorem shared_segments :
    segments shared = [⟨6, 176, 0x400000, 1, 1⟩, ⟨5, 177, 0x400010, 1, 1⟩] := by decide

theorem shared_arranged : Arranged shared := by
  have hlen : shared.length = 178 := rfl
  exact arranged_of_segments ⟨by rw [hlen]; decide, by decide, by decide⟩ shared_segments
    (by decide) (by rw [hlen]; decide) (by rw [hlen]; decide)

theorem shared_short : shared.length < 2 ^ 63 := by
  rw [show shared.length = 178 from rfl]
  norm_num

theorem shared_writableFirst : WritableFirst blank ∅ (segments shared) := by
  rw [shared_segments]
  exact fun _ => ⟨fun _ _ _ => rfl, fun _ => ⟨fun _ hp _ => (nomatch hp), trivial⟩⟩

theorem stores_writable_shared :
    WritableFirst blank ∅ (segments shared) ∧ StoresWritable blank shared :=
  ⟨shared_writableFirst,
    (stores_writable_iff shared_arranged shared_short (fun _ _ => rfl) rfl).mpr
    shared_writableFirst⟩

/-- One segment of code, read and execute. -/
def text : Bytes := ehdr 0x400000 1 ++ Segment.pack ⟨5, 120, 0x400000, 1, 1⟩ ++ [0x90#8]

theorem text_segments : segments text = [⟨5, 120, 0x400000, 1, 1⟩] := by decide

theorem text_arranged : Arranged text := by
  have hlen : text.length = 121 := rfl
  exact arranged_of_segments ⟨by rw [hlen]; decide, by decide, by decide⟩ text_segments (by decide)
    (by rw [hlen]; decide) (by rw [hlen]; decide)

/-- **Its page is mapped read-only and then cleared.** -/
theorem text_faults :
    Arranged text ∧ (∀ p ∈ occupied text, blank.space.pages p = none) ∧ blank.space.wp = true ∧
      load blank text = .error (.fault 0x400000) ∧ ¬ StoresWritable blank text := by
  have hlen : text.length < 2 ^ 63 := by
    rw [show text.length = 121 from rfl]
    norm_num
  have hneeds : needs blank 0x400 = 4 := by decide
  have hpage : ensureMappedAt blank (0x400 * pageSize) ⟨false, true, false⟩ =
      .error (.fault 0x400000) := by
    rw [ensureMappedAt_low (by decide)]
    exact ensureMapped_readOnly rfl (by decide) (hneeds ▸ blank_room (by norm_num)) (by decide)
      (by decide)
  have hseg : loadSegment text blank ⟨5, 120, 0x400000, 1, 1⟩ = .error (.fault 0x400000) := by
    have hbind : ∀ f : State → Exec State,
        (mapPages blank ⟨false, true, false⟩ [0x400] >>= f) = .error (.fault 0x400000) :=
        fun f => by
      rw [mapPages, List.foldlM_cons, hpage]
      rfl
    exact hbind _
  have hload : load blank text = .error (.fault 0x400000) := by
    rw [load_eq_segments text_arranged.header hlen text_arranged.inside, text_segments,
      List.foldlM_cons, hseg]
    rfl
  exact ⟨text_arranged, fun _ _ => rfl, rfl, hload, fun h => h.1 ⟨_, hload⟩⟩

end SimpleLinux.Elf
