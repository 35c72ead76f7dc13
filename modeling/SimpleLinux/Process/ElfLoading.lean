/-
  File:      SimpleLinux/Process/ElfLoading.lean
  Subject:   What each step of the ELF loader takes and does.

  * `Mapped` -- what mapping one page does; `ensureMapped_fresh_iff` -- when it succeeds;
  * `Loading v₀ O v` -- the state `v` in the middle of a load begun in `v₀` that has mapped the
    pages `O` so far: every successful step keeps it, and `need v₀ O` is what it has cost;
  * `loadSegment_eq_ok` -- a segment is its pages, then one run of stores.
-/
import SimpleLinux.Process.Elf
import Mathlib.Data.Finset.Union

namespace SimpleLinux.Elf

open Rust Paging Vmm

/-! ## 1. Mapping one page -/

/-- The frames that mapping `page` takes: its own and those of the tables on the way. -/
def needs (v : State) (page : Nat) : Nat := (v.missing (tableKeys page)).card + 1

/-- **What `ensure_mapped` does** to a page that was not mapped: it takes `frame`. -/
structure Mapped (v : State) (page : Nat) (flags : Flags) (frame : Nat) (v' : State) : Prop where
  took : v.Took (needs v page) v'
  free : frame ∈ v.free
  gone : frame ∉ v'.free
  tables : v'.tables = v.tables ∪ (tableKeys page).toFinset
  zeroed : zeroFill (v.space.map page ⟨frame, flags⟩) (page * pageSize) pageSize = .ok v'.space

theorem translate_isSome {v : State} {page : Nat} :
    (v.translate (page * pageSize)).isSome ↔ v.space.pages page ≠ none := by
  have hpos : 0 < pageSize := by decide
  rw [State.translate, Option.isSome_map, Nat.mul_div_cancel _ hpos, Option.isSome_iff_ne_none]

theorem ensureMapped_mapped {v : State} {page : Nat} (h : v.space.pages page ≠ none)
    (flags : Flags) : ensureMapped v page flags = .ok v := by
  rw [ensureMapped, if_pos (translate_isSome.mpr h)]

/-- Up to the clearing of the page. -/
theorem ensureMapped_fresh {v : State} {page : Nat} (h : v.space.pages page = none)
    (flags : Flags) :
    (needs v page ≤ v.free.card ∧ ∃ frame v₁, v.Took (needs v page) v₁ ∧ frame ∈ v.free ∧
      frame ∉ v₁.free ∧ v₁.tables = v.tables ∪ (tableKeys page).toFinset ∧
      v₁.space = v.space.map page ⟨frame, flags⟩ ∧
      ensureMapped v page flags = writeBytes v₁ (page * pageSize) pageSize) ∨
    (v.free.card < needs v page ∧ ∃ msg, ensureMapped v page flags = .error (.expect msg)) := by
  have hnot : ¬ (v.translate (page * pageSize)).isSome := fun ht => translate_isSome.mp ht h
  have hempty : v.free = ∅ → v.free.card < needs v page := fun he => by
    rw [he, Finset.card_empty]
    exact Nat.succ_pos _
  unfold ensureMapped
  rw [if_neg hnot]
  rcases v.allocFrame_spec with ⟨hnone, he⟩ | ⟨p, v₁, he, hp, hgone, htook, hspace, htables⟩
  · refine .inr ⟨hempty hnone, "out of physical frames", ?_⟩
    rw [he]
    rfl
  · rw [he, lift_ok, exec_ok_bind]
    dsimp only
    have hmissing : v₁.missing (tableKeys page) = v.missing (tableKeys page) := by
      unfold State.missing
      rw [htables]
    have hcard := htook.card
    rcases State.mapPage_spec (hspace ▸ h) p flags with
      ⟨hle, v₂, he₂, htook₂, hspace₂, htables₂⟩ | ⟨hlt, v₂, he₂⟩
    · rw [hmissing] at hle htook₂
      have hall := htook.trans htook₂
      rw [Nat.add_comm] at hall
      refine .inl ⟨by unfold needs; omega, p.number, v₂, hall, hp,
        fun hm => hgone (htook₂.subset hm), by rw [htables₂, htables], by rw [hspace₂, hspace], ?_⟩
      rw [he₂]
      rfl
    · rw [hmissing] at hlt
      refine .inr ⟨by unfold needs; omega, "failed to map user page", ?_⟩
      rw [he₂]
      rfl

theorem page_of_offset {page i : Nat} (hp : page < 2 ^ 52) (hi : i < pageSize) :
    (page * pageSize + i) % 2 ^ 64 / pageSize = page := by
  unfold pageSize at *
  omega

theorem ensureMapped_eq_ok {v v' : State} {page : Nat} {flags : Flags}
    (h : v.space.pages page = none) (he : ensureMapped v page flags = .ok v') :
    page ≠ 0 ∧ ∃ frame, Mapped v page flags frame v' := by
  rcases ensureMapped_fresh h flags with
    ⟨-, frame, v₁, htook, hfree, hgone, htables, hspace, hv₁⟩ | ⟨-, e, herr⟩
  · rw [hv₁, writeBytes] at he
    by_cases hzero : page * pageSize = 0
    · rw [if_pos hzero] at he
      cases he
    · rw [if_neg hzero] at he
      obtain ⟨space, hz, he⟩ := bind_eq_ok.mp he
      cases he
      refine ⟨fun hp => hzero (by rw [hp, Nat.zero_mul]), frame, ?_⟩
      exact ⟨htook.of_free rfl rfl, hfree, hgone, htables, hspace ▸ hz⟩
  · rw [herr] at he
    cases he

/-- **When `ensure_mapped` succeeds** on a page that was not mapped. -/
theorem ensureMapped_fresh_iff {v : State} {page : Nat} {flags : Flags}
    (h : v.space.pages page = none) (hp : page < 2 ^ 52) :
    (∃ v', ensureMapped v page flags = .ok v') ↔
      needs v page ≤ v.free.card ∧ page ≠ 0 ∧ (v.space.wp = true → flags.writable = true) := by
  have hreach : ∀ (frame : Nat) (i : Nat), i < pageSize →
      ((v.space.map page ⟨frame, flags⟩).Reaches (page * pageSize) i ↔
        (v.space.wp = true → flags.writable = true)) := by
    intro frame i hi
    unfold Space.Reaches Space.Allows Space.map
    rw [page_of_offset hp hi]
    simp
  rcases ensureMapped_fresh h flags with
    ⟨hle, frame, v₁, -, -, -, -, hspace, hv₁⟩ | ⟨hlt, e, herr⟩
  · rw [hv₁, writeBytes]
    by_cases hzero : page = 0
    · subst hzero
      simp
    · have hne : page * pageSize ≠ 0 := Nat.mul_ne_zero hzero (by decide)
      rw [if_neg hne, hspace]
      constructor
      · intro ⟨v', he⟩
        obtain ⟨space, hz, -⟩ := bind_eq_ok.mp he
        have hall := zeroFill_ok_iff.mp ⟨space, hz⟩ 0 (by decide)
        exact ⟨hle, hzero, (hreach frame 0 (by decide)).mp hall⟩
      · rintro ⟨-, -, hw⟩
        obtain ⟨space, hz⟩ := zeroFill_ok_iff.mpr fun i hi => (hreach frame i hi).mpr hw
        exact ⟨_, bind_eq_ok.mpr ⟨space, hz, rfl⟩⟩
  · rw [herr]
    simp only [reduceCtorEq, exists_false, false_iff]
    omega

/-! ## 2. In the middle of a load -/

/-- The pages among `pages` that were not mapped before. -/
def fresh (v₀ : State) (pages : List Nat) : Finset Nat :=
  pages.toFinset.filter fun p => v₀.space.pages p = none

theorem mem_fresh {v₀ : State} {pages : List Nat} {p : Nat} :
    p ∈ fresh v₀ pages ↔ p ∈ pages ∧ v₀.space.pages p = none := by
  rw [fresh, Finset.mem_filter, List.mem_toFinset]

theorem fresh_nil (v₀ : State) : fresh v₀ [] = ∅ := rfl

theorem fresh_eq_toFinset {v₀ : State} {pages : List Nat}
    (h : ∀ p ∈ pages, v₀.space.pages p = none) : fresh v₀ pages = pages.toFinset :=
  Finset.filter_true_of_mem fun p hp => h p (List.mem_toFinset.mp hp)

theorem fresh_cons (v₀ : State) (p : Nat) (ps : List Nat) :
    fresh v₀ (p :: ps) = fresh v₀ [p] ∪ fresh v₀ ps := by
  ext q
  simp only [Finset.mem_union, mem_fresh, List.mem_cons, List.not_mem_nil, or_false]
  exact or_and_right

/-- The tables on the way to the pages `O`. -/
def keysOf (O : Finset Nat) : Finset (Nat × Nat) := O.biUnion fun p => (tableKeys p).toFinset

/-- The frames that mapping the pages `O` takes. -/
def need (v₀ : State) (O : Finset Nat) : Nat := O.card + (keysOf O \ v₀.tables).card

theorem need_mono {v₀ : State} {O O' : Finset Nat} (h : O ⊆ O') : need v₀ O ≤ need v₀ O' :=
  Nat.add_le_add (Finset.card_le_card h)
    (Finset.card_le_card (Finset.sdiff_subset_sdiff
      (Finset.biUnion_subset_biUnion_of_subset_left _ h)
      (Finset.Subset.refl _)))

theorem need_insert {v₀ v : State} {O : Finset Nat} {page : Nat}
    (ht : v.tables = v₀.tables ∪ keysOf O) (hp : page ∉ O) :
    need v₀ (insert page O) = need v₀ O + needs v page := by
  have hsplit : keysOf (insert page O) \ v₀.tables =
      keysOf O \ v₀.tables ∪ v.missing (tableKeys page) := by
    rw [keysOf, Finset.biUnion_insert, State.missing, ht]
    ext k
    simp only [Finset.mem_union, Finset.mem_sdiff, keysOf]
    tauto
  have hdisj : Disjoint (keysOf O \ v₀.tables) (v.missing (tableKeys page)) := by
    rw [State.missing, ht]
    exact Finset.disjoint_left.mpr fun k hk hk' =>
      (Finset.mem_sdiff.mp hk').2 (Finset.mem_union_right _ (Finset.mem_sdiff.mp hk).1)
  rw [need, need, needs, hsplit, Finset.card_union_of_disjoint hdisj,
    Finset.card_insert_of_notMem hp]
  omega

/-- **In the middle of a load** begun in `v₀`: the pages `O` have been mapped since, each to a frame
    of its own that was free, for the user, and so that they can be written. -/
structure Loading (v₀ : State) (O : Finset Nat) (v : State) : Prop where
  wp : v.space.wp = v₀.space.wp
  log : Logged v₀.space v.space
  outside : ∀ p ∉ O, v.space.pages p = v₀.space.pages p
  fresh : ∀ p ∈ O, v₀.space.pages p = none
  own : ∀ p ∈ O, ∃ m, v.space.pages p = some m ∧ m.frame ∈ v₀.free ∧ m.frame ∉ v.free ∧
    m.flags.user = true ∧ v₀.space.Allows m
  apart : Apart v.space (· ∈ O)
  subset : v.free ⊆ v₀.free
  tables : v.tables = v₀.tables ∪ keysOf O
  card : v.free.card + need v₀ O = v₀.free.card

theorem Loading.refl (v₀ : State) : Loading v₀ ∅ v₀ where
  wp := rfl
  log := .refl _
  outside _ _ := rfl
  fresh _ h := absurd h (Finset.notMem_empty _)
  own _ h := absurd h (Finset.notMem_empty _)
  apart _ _ _ _ h := absurd h (Finset.notMem_empty _)
  subset := Finset.Subset.refl _
  tables := by simp [keysOf]
  card := by simp [need, keysOf]

section

variable {v₀ v v' : State} {O : Finset Nat} {flags : Flags}

theorem Loading.pages_eq_none (h : Loading v₀ O v) {p : Nat} :
    v.space.pages p = none ↔ v₀.space.pages p = none ∧ p ∉ O := by
  by_cases hp : p ∈ O
  · obtain ⟨m, hm, -⟩ := h.own p hp
    simp [hm, hp]
  · simp [h.outside p hp, hp]

/-- Stores change neither the page map nor the allocator. -/
theorem Loading.stored (h : Loading v₀ O v) {addr n : Nat} {space : Space}
    (hs : Stored v.space addr n space) : Loading v₀ O { v with space } := by
  refine ⟨hs.wp.trans h.wp, h.log.stored hs, ?_, h.fresh, ?_, ?_, h.subset, h.tables, h.card⟩
  · rw [hs.pages]
    exact h.outside
  · rw [hs.pages]
    exact h.own
  · unfold Apart
    rw [hs.pages]
    exact h.apart

theorem Loading.insert (h : Loading v₀ O v) {page frame : Nat} (hn : v.space.pages page = none)
    (hm : Mapped v page flags frame v') (huser : flags.user = true)
    (hw : v₀.space.Allows ⟨frame, flags⟩) : Loading v₀ (insert page O) v' := by
  obtain ⟨hnone, hpage⟩ := h.pages_eq_none.mp hn
  have hst := zeroFill_stored hm.zeroed
  have hself : v'.space.pages page = some ⟨frame, flags⟩ := by
    rw [hst.pages]
    exact Function.update_self ..
  have hother : ∀ p ≠ page, v'.space.pages p = v.space.pages p := fun p hp => by
    rw [hst.pages]
    exact Function.update_of_ne hp ..
  have hne : ∀ p ∈ O, p ≠ page := fun p hp he => hpage (he ▸ hp)
  refine ⟨hst.wp.trans h.wp, (h.log.map hn _).stored hst, ?_, ?_, ?_, ?_,
    hm.took.subset.trans h.subset, ?_, ?_⟩
  · intro p hp
    rw [hother p fun he => hp (he ▸ Finset.mem_insert_self ..)]
    exact h.outside p fun hmem => hp (Finset.mem_insert_of_mem hmem)
  · intro p hp
    rcases Finset.mem_insert.mp hp with rfl | hp
    · exact hnone
    · exact h.fresh p hp
  · intro p hp
    rcases Finset.mem_insert.mp hp with rfl | hp
    · exact ⟨_, hself, h.subset hm.free, hm.gone, huser, hw⟩
    · obtain ⟨m, hmap, hfree, hgone, hrest⟩ := h.own p hp
      exact ⟨m, by rw [hother p (hne p hp), hmap], hfree, fun hin => hgone (hm.took.subset hin),
        hrest⟩
  · -- the new frame was free, those of the other pages were not
    have hnew : ∀ q ∈ O, ∀ n, v.space.pages q = some n → n.frame ≠ frame := by
      intro q hq n hqn he
      obtain ⟨m, hmap, -, hgone, -⟩ := h.own q hq
      rw [hmap] at hqn
      cases hqn
      exact hgone (he ▸ hm.free)
    have hap := h.apart.insert hself (fun p hp => hother p (hne p hp)) hnew
    exact fun p q m n hp hq => hap p q m n (Finset.mem_insert.mp hp) (Finset.mem_insert.mp hq)
  · rw [hm.tables, h.tables, keysOf, keysOf, Finset.biUnion_insert, Finset.union_assoc,
      Finset.union_comm (tableKeys page).toFinset]
  · have hcard := hm.took.card
    rw [need_insert h.tables hpage, ← h.card]
    omega

/-- The pages mapped after `ensure_mapped(page)`. -/
theorem Loading.grow_mapped (h : Loading v₀ O v) {page : Nat} (hp : v.space.pages page ≠ none) :
    O ∪ Elf.fresh v₀ [page] = O := by
  refine Finset.union_eq_left.mpr fun q hq => ?_
  obtain ⟨hq, hnone⟩ := mem_fresh.mp hq
  cases List.mem_singleton.mp hq
  by_contra hnot
  exact hp (h.pages_eq_none.mpr ⟨hnone, hnot⟩)

theorem Loading.grow_fresh (h : Loading v₀ O v) {page : Nat} (hp : v.space.pages page = none) :
    O ∪ Elf.fresh v₀ [page] = Insert.insert page O := by
  ext q
  rw [Finset.mem_union, mem_fresh, Finset.mem_insert, List.mem_singleton]
  constructor
  · rintro (hq | ⟨rfl, -⟩)
    · exact .inr hq
    · exact .inl rfl
  · rintro (rfl | hq)
    · exact .inr ⟨rfl, (h.pages_eq_none.mp hp).1⟩
    · exact .inl hq

theorem Loading.ensureMapped (h : Loading v₀ O v) {page : Nat} (hlt : page < 2 ^ 52)
    (huser : flags.user = true) (he : ensureMapped v page flags = .ok v') :
    Loading v₀ (O ∪ Elf.fresh v₀ [page]) v' := by
  by_cases hp : v.space.pages page = none
  · obtain ⟨-, frame, hm⟩ := ensureMapped_eq_ok hp he
    obtain ⟨-, -, hw⟩ := (ensureMapped_fresh_iff hp hlt).mp ⟨v', he⟩
    rw [h.grow_fresh hp]
    exact h.insert hp hm huser fun hwp => hw (h.wp.trans hwp)
  · rw [ensureMapped_mapped hp] at he
    cases he
    rw [h.grow_mapped hp]
    exact h

/-- A page that has to be mapped now is not the null page, and can be written. -/
def Mappable (v₀ : State) (O : Finset Nat) (flags : Flags) (page : Nat) : Prop :=
  Canonical (page * pageSize) ∧ (v₀.space.pages page = none → page ∉ O →
    page ≠ 0 ∧ (v₀.space.wp = true → flags.writable = true))

theorem ensureMappedAt_eq_ok {page : Nat} :
    ensureMappedAt v (page * pageSize) flags = .ok v' ↔
      Canonical (page * pageSize) ∧ ensureMapped v page flags = .ok v' := by
  have hpos : 0 < pageSize := by decide
  rw [ensureMappedAt, bind_eq_ok]
  constructor
  · intro ⟨a, ha, h⟩
    obtain ⟨hc, rfl⟩ := virtAddr_eq_ok.mp (lift_eq_ok.mp ha)
    rw [Nat.mul_div_cancel _ hpos] at h
    exact ⟨hc, h⟩
  · intro ⟨hc, h⟩
    refine ⟨_, lift_eq_ok.mpr (virtAddr_eq_ok.mpr ⟨hc, rfl⟩), ?_⟩
    rwa [Nat.mul_div_cancel _ hpos]

theorem Loading.ensureMappedAt (h : Loading v₀ O v) {page : Nat} (huser : flags.user = true)
    (he : Elf.ensureMappedAt v (page * pageSize) flags = .ok v') :
    Loading v₀ (O ∪ Elf.fresh v₀ [page]) v' := by
  obtain ⟨hc, he⟩ := ensureMappedAt_eq_ok.mp he
  exact h.ensureMapped (canonical_page_lt hc) huser he

theorem Loading.ensureMappedAt_ok_iff (h : Loading v₀ O v) {page : Nat} :
    (∃ v', Elf.ensureMappedAt v (page * pageSize) flags = .ok v') ↔
      need v₀ (O ∪ Elf.fresh v₀ [page]) ≤ v₀.free.card ∧ Mappable v₀ O flags page := by
  simp only [ensureMappedAt_eq_ok, exists_and_left, Mappable]
  have hcard := h.card
  by_cases hp : v.space.pages page = none
  · obtain ⟨hnone, hnot⟩ := h.pages_eq_none.mp hp
    rw [h.grow_fresh hp, need_insert h.tables hnot]
    constructor
    · intro ⟨hc, hok⟩
      obtain ⟨hle, hne, hw⟩ := (ensureMapped_fresh_iff hp (canonical_page_lt hc)).mp hok
      exact ⟨by omega, hc, fun _ _ => ⟨hne, h.wp ▸ hw⟩⟩
    · intro ⟨hle, hc, hm⟩
      obtain ⟨hne, hw⟩ := hm hnone hnot
      exact ⟨hc, (ensureMapped_fresh_iff hp (canonical_page_lt hc)).mpr
        ⟨by omega, hne, h.wp.symm ▸ hw⟩⟩
  · rw [h.grow_mapped hp]
    constructor
    · rintro ⟨hc, -⟩
      exact ⟨by omega, hc, fun hnone hnot => absurd (h.pages_eq_none.mpr ⟨hnone, hnot⟩) hp⟩
    · rintro ⟨-, hc, -⟩
      exact ⟨hc, v, ensureMapped_mapped hp flags⟩

theorem Loading.mapPages (h : Loading v₀ O v) (huser : flags.user = true) {pages : List Nat}
    (he : mapPages v flags pages = .ok v') : Loading v₀ (O ∪ Elf.fresh v₀ pages) v' := by
  induction pages generalizing v O with
  | nil =>
    cases he
    rw [fresh_nil, Finset.union_empty]
    exact h
  | cons page pages ih =>
    obtain ⟨v₁, h₁, he⟩ := bind_eq_ok.mp he
    rw [fresh_cons, ← Finset.union_assoc]
    exact ih (h.ensureMappedAt huser h₁) he

/-- **When a list of pages can be mapped.** -/
theorem Loading.mapPages_ok_iff (h : Loading v₀ O v) (huser : flags.user = true)
    {pages : List Nat} : (∃ v', Elf.mapPages v flags pages = .ok v') ↔
      need v₀ (O ∪ Elf.fresh v₀ pages) ≤ v₀.free.card ∧ ∀ p ∈ pages, Mappable v₀ O flags p := by
  induction pages generalizing v O with
  | nil =>
    rw [fresh_nil, Finset.union_empty]
    have hcard := h.card
    exact ⟨fun _ => ⟨by omega, fun p hp => absurd hp List.not_mem_nil⟩, fun _ => ⟨v, rfl⟩⟩
  | cons page pages ih =>
    rw [fresh_cons, ← Finset.union_assoc, List.forall_mem_cons]
    constructor
    · intro ⟨v', he⟩
      obtain ⟨v₁, h₁, he⟩ := bind_eq_ok.mp he
      obtain ⟨-, hpage⟩ := h.ensureMappedAt_ok_iff.mp ⟨v₁, h₁⟩
      obtain ⟨hneed, hall⟩ := (ih (h.ensureMappedAt huser h₁)).mp ⟨v', he⟩
      refine ⟨hneed, hpage, fun p hp => ⟨(hall p hp).1, fun hnone hnot => ?_⟩⟩
      -- a page that comes again was mapped by its first turn
      by_cases hpp : p = page
      · rw [hpp] at hnone hnot ⊢
        exact hpage.2 hnone hnot
      · refine (hall p hp).2 hnone fun hmem => ?_
        rcases Finset.mem_union.mp hmem with hmem | hmem
        · exact hnot hmem
        · exact hpp (List.mem_singleton.mp (mem_fresh.mp hmem).1)
    · intro ⟨hneed, hpage, hall⟩
      have hneed₁ := Nat.le_trans (need_mono Finset.subset_union_left) hneed
      obtain ⟨v₁, h₁⟩ := h.ensureMappedAt_ok_iff.mpr ⟨hneed₁, hpage⟩
      obtain ⟨v', he⟩ := (ih (h.ensureMappedAt huser h₁)).mpr ⟨hneed, fun p hp =>
        ⟨(hall p hp).1, fun hnone hnot => (hall p hp).2 hnone fun hmem =>
          hnot (Finset.mem_union_left _ hmem)⟩⟩
      exact ⟨v', bind_eq_ok.mpr ⟨v₁, h₁, he⟩⟩

/-- Pages that are mapped already are left alone. -/
theorem mapPages_mapped {pages : List Nat}
    (h : ∀ p ∈ pages, Canonical (p * pageSize) ∧ v.space.pages p ≠ none) :
    mapPages v flags pages = .ok v := by
  induction pages with
  | nil => rfl
  | cons page pages ih =>
    obtain ⟨⟨hc, hp⟩, hall⟩ := List.forall_mem_cons.mp h
    have hstep := ensureMappedAt_eq_ok.mpr ⟨hc, ensureMapped_mapped hp flags⟩
    exact bind_eq_ok.mpr ⟨v, hstep, ih hall⟩

end

/-! ## 3. One segment -/

namespace Segment

variable (s : Segment)

/-- The pages `start_page..end_page`. -/
def pages : List Nat :=
  List.range' (s.vaddr / pageSize) ((s.vaddr + s.memsz + 4095) / pageSize - s.vaddr / pageSize)

/-- The file bytes, then zeros. -/
def bytes (elf : Bytes) : Bytes :=
  (elf.take (s.off + s.filesz)).drop s.off ++ List.replicate (s.memsz - s.filesz) 0#8

/-- The addition and the two ranges that have to be in bounds. -/
structure InBounds (elf : Bytes) : Prop where
  vaddr : s.vaddr ≠ 0
  memory : s.vaddr + s.memsz + 4095 < 2 ^ 64
  file : s.off + s.filesz ≤ elf.length

theorem length_bytes {elf : Bytes} (h : s.off + s.filesz ≤ elf.length) :
    (s.bytes elf).length = max s.filesz s.memsz := by
  unfold bytes
  rw [List.length_append, List.length_drop, List.length_take, List.length_replicate]
  omega

end Segment

/-- The pages of the user stack, in the order of the loop. -/
def stackPages : List Nat := [0x4ff, 0x4fe, 0x4fd, 0x4fc]

theorem mapStack_eq (v : State) : mapStack v = mapPages v stackFlags stackPages := rfl

theorem Segment.bytes_file {s : Segment} {elf : Bytes} (h : s.off + s.filesz ≤ elf.length) :
    ((elf.take (s.off + s.filesz)).drop s.off).length = s.filesz := by
  rw [List.length_drop, List.length_take]
  omega

theorem Segment.bytes_inside {s : Segment} {elf : Bytes} (h : s.off + s.filesz ≤ elf.length)
    {i : Nat} (hi : i < s.filesz) : (s.bytes elf)[i]? = elf[s.off + i]? := by
  have hlen := Segment.bytes_file h
  rw [bytes, List.getElem?_append_left (by rw [hlen]; exact hi), List.getElem?_drop,
    List.getElem?_take_of_lt (by omega)]

theorem Segment.bytes_tail {s : Segment} {elf : Bytes} (h : s.off + s.filesz ≤ elf.length) {i : Nat}
    (hlo : s.filesz ≤ i) (hi : i < s.memsz) : (s.bytes elf)[i]? = some 0#8 := by
  have hlen := Segment.bytes_file h
  rw [bytes, List.getElem?_append_right (by rw [hlen]; exact hlo), hlen,
    List.getElem?_replicate_of_lt (by omega)]

/-- The copy and the clearing of the tail are one run of stores. -/
theorem loadSegment_eq {elf : Bytes} (hlen : elf.length < 2 ^ 63) {s : Segment}
    (h : s.InBounds elf) (v : State) :
    loadSegment elf v s = (do
      let v₁ ← mapPages v s.ptFlags s.pages
      let space ← storeAll v₁.space s.vaddr (s.bytes elf)
      return { v₁ with space }) := by
  obtain ⟨hvaddr, hmem, hfile⟩ := h
  have hptr : ¬ (s.vaddr = 0 ∨ 2 ^ 63 ≤ s.filesz) := by omega
  have hsum : s.vaddr + s.memsz < 2 ^ 64 := by omega
  have hfsum : s.off + s.filesz < 2 ^ 64 := by omega
  unfold loadSegment
  rw [add_of_lt hsum, lift_ok, exec_ok_bind, add_of_lt hmem, lift_ok, exec_ok_bind]
  refine congrArg (bind _) (funext fun v₁ => ?_)
  rw [if_neg hptr, add_of_lt hfsum, lift_ok, exec_ok_bind,
    slice_of_le (Nat.le_add_right ..) hfile, lift_ok, exec_ok_bind, copyBytes, Segment.bytes,
    storeAll_append, Segment.bytes_file hfile]
  rcases storeAll v₁.space s.vaddr ((elf.take (s.off + s.filesz)).drop s.off) with e | space₁
  · rfl
  · simp only [exec_ok_bind, pure, Except.pure]
    by_cases htail : s.filesz < s.memsz
    · rw [if_pos htail, add_of_lt (by omega), lift_ok, exec_ok_bind, writeBytes,
        if_neg (by omega)]
      rfl
    · rw [if_neg htail, Nat.sub_eq_zero_of_le (by omega)]
      rfl

theorem loadSegment_inBounds {elf : Bytes} {v v' : State} {s : Segment}
    (h : loadSegment elf v s = .ok v') : s.InBounds elf := by
  obtain ⟨_, hadd, h⟩ := bind_eq_ok.mp h
  obtain ⟨-, rfl⟩ := add_eq_ok.mp (lift_eq_ok.mp hadd)
  obtain ⟨_, hadd, h⟩ := bind_eq_ok.mp h
  obtain ⟨hmem, rfl⟩ := add_eq_ok.mp (lift_eq_ok.mp hadd)
  obtain ⟨v₁, -, h⟩ := bind_eq_ok.mp h
  by_cases hptr : s.vaddr = 0 ∨ 2 ^ 63 ≤ s.filesz
  · rw [if_pos hptr] at h
    cases h
  · rw [if_neg hptr] at h
    obtain ⟨_, hadd, h⟩ := bind_eq_ok.mp h
    obtain ⟨-, rfl⟩ := add_eq_ok.mp (lift_eq_ok.mp hadd)
    obtain ⟨_, hslice, -⟩ := bind_eq_ok.mp h
    obtain ⟨-, hfile, -⟩ := slice_eq_ok.mp (lift_eq_ok.mp hslice)
    exact ⟨fun hv => hptr (.inl hv), hmem, hfile⟩

/-- **One segment**: its pages are mapped, then its bytes are stored. -/
theorem loadSegment_eq_ok {elf : Bytes} (hlen : elf.length < 2 ^ 63) {v v' : State} {s : Segment} :
    loadSegment elf v s = .ok v' ↔ s.InBounds elf ∧
      ∃ v₁ space, mapPages v s.ptFlags s.pages = .ok v₁ ∧
        storeAll v₁.space s.vaddr (s.bytes elf) = .ok space ∧ v' = { v₁ with space } := by
  constructor
  · intro h
    have hin := loadSegment_inBounds h
    rw [loadSegment_eq hlen hin] at h
    obtain ⟨v₁, hmap, h⟩ := bind_eq_ok.mp h
    obtain ⟨space, hst, he⟩ := bind_eq_ok.mp h
    cases he
    exact ⟨hin, v₁, space, hmap, hst, rfl⟩
  · rintro ⟨hin, v₁, space, hmap, hst, rfl⟩
    rw [loadSegment_eq hlen hin, hmap, exec_ok_bind, hst]
    rfl

theorem Loading.segment {v₀ v v' : State} {O : Finset Nat} (h : Loading v₀ O v) {elf : Bytes}
    (hlen : elf.length < 2 ^ 63) {s : Segment} (hs : loadSegment elf v s = .ok v') :
    Loading v₀ (O ∪ Elf.fresh v₀ s.pages) v' := by
  obtain ⟨-, v₁, space, hmap, hst, rfl⟩ := (loadSegment_eq_ok hlen).mp hs
  exact (h.mapPages rfl hmap).stored (storeAll_stored hst)

/-! ## 4. A file and a memory to load it into -/

/-- `struct.pack` of one number, little endian. -/
def pack (width n : Nat) : Bytes := (List.range width).map fun i => BitVec.ofNat 8 (n / 256 ^ i)

/-- The header that tools/gen_hello_elf.py writes. -/
def ehdr (entry phnum : Nat) : Bytes :=
  elfMagic ++ [2#8, 1#8, 1#8, 0#8] ++ List.replicate 8 0#8 ++ pack 2 2 ++ pack 2 0x3e ++ pack 4 1 ++
    pack 8 entry ++ pack 8 64 ++ pack 8 0 ++ pack 4 0 ++ pack 2 64 ++ pack 2 56 ++ pack 2 phnum ++
    pack 2 64 ++ pack 2 0 ++ pack 2 0

/-- A program header. -/
def Segment.pack (s : Segment) : Bytes :=
  Elf.pack 4 ptLoad ++ Elf.pack 4 s.flagsDw ++ Elf.pack 8 s.off ++ Elf.pack 8 s.vaddr ++
    Elf.pack 8 s.vaddr ++ Elf.pack 8 s.filesz ++ Elf.pack 8 s.memsz ++ Elf.pack 8 0x1000

/-- One read-write-execute segment with the given bytes, as the generator lays it out. -/
def oneSegment (vaddr memsz : Nat) (payload : Bytes) : Bytes :=
  ehdr vaddr 1 ++ Segment.pack ⟨7, 120, vaddr, payload.length, memsz⟩ ++ payload

/-- An empty address space with every frame free. -/
def blank : State where
  space := { pages := fun _ => none, mem := fun _ => 0#8, wp := true, log := [] }
  frames := ⟨Vector.replicate Pmm.words 0#64, 0⟩
  tables := ∅

theorem blank_free : blank.free = Finset.range Pmm.numFrames :=
  Pmm.BitmapFrameAllocator.freeSet_allFree

theorem blank_room {n : Nat} (h : n ≤ 262144) : n ≤ blank.free.card := by
  rw [blank_free, Finset.card_range, Pmm.numFrames_eq]
  exact h

end SimpleLinux.Elf
