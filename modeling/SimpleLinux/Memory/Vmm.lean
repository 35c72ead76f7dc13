/-
  File:      SimpleLinux/Memory/Vmm.lean
  Subject:   The virtual memory manager: memory/vmm.rs.

  One address space, the bitmap allocator behind it, and the page tables that exist so far. The
  mapper of the x86_64 crate is a page map that takes one frame of the allocator for every table on
  the way to a page that is not there yet; everything else about tables is left to it.

  * `allocFrame`, `createTables`, `mapPage`, `translate` -- the operations;
  * `Took v n v'` -- `n` free frames less; `createTables_spec`, `mapPage_spec` -- when mapping a
    page succeeds, and what it takes.
-/
import SimpleLinux.Lib.Paging
import SimpleLinux.Memory.Pmm
import Mathlib.Data.Finset.Card

namespace SimpleLinux.Vmm

open Rust Paging
open Pmm (PhysFrame BitmapFrameAllocator)

/-! ## 1. The manager -/

inductive MapError
  | map
  | outOfFrames
  deriving DecidableEq

structure State where
  space : Space
  frames : BitmapFrameAllocator
  /-- level and number of each page table below the PML4 -/
  tables : Finset (Nat × Nat)

/-- Bits 47 to 63 are equal: the low half, or the high half. -/
def Canonical (addr : Nat) : Prop := addr < 2 ^ 47 ∨ 2 ^ 64 - 2 ^ 47 ≤ addr ∧ addr < 2 ^ 64

instance (addr : Nat) : Decidable (Canonical addr) := inferInstanceAs (Decidable (_ ∨ _))

/-- `VirtAddr::new` of the x86_64 crate. -/
def virtAddr (addr : Nat) : Res Nat := if Canonical addr then .ok addr else .error .invalid

theorem virtAddr_eq_ok {addr a : Nat} : virtAddr addr = .ok a ↔ Canonical addr ∧ a = addr := by
  unfold virtAddr
  split
  · simp [*, eq_comm]
  · simp [*]

/-- The pages of the low half. -/
def lowPages : Nat := 2 ^ 35

theorem canonical_page_lt {page : Nat} (h : Canonical (page * pageSize)) : page < 2 ^ 52 := by
  unfold Canonical pageSize at h
  omega

theorem canonical_of_low {page : Nat} (h : page < lowPages) : Canonical (page * pageSize) := by
  unfold lowPages at h
  unfold Canonical pageSize
  omega

/-- The tables on the way to a page: 512 entries each. -/
def tableKeys (page : Nat) : List (Nat × Nat) :=
  [(3, page / 2 ^ 27), (2, page / 2 ^ 18), (1, page / 2 ^ 9)]

namespace State

/-- The free frames. -/
def free (v : State) : Finset Nat := v.frames.freeSet

def translate (v : State) (vaddr : Nat) : Option Nat :=
  (v.space.pages (vaddr / pageSize)).map fun m => m.phys (vaddr % pageSize)

def allocFrame (v : State) : Res (Option PhysFrame × State) := do
  let (frame, frames) ← v.frames.allocFrame
  return (frame, { v with frames })

/-- The next table on the way, created if it is not there; `false` when no frame is free. -/
def createTable (v : State) (key : Nat × Nat) : Res (Bool × State) :=
  if key ∈ v.tables then .ok (true, v)
  else do
    match ← v.allocFrame with
    | (none, v) => return (false, v)
    | (some _, v) => return (true, { v with tables := insert key v.tables })

def createTables (v : State) : List (Nat × Nat) → Res (Bool × State)
  | [] => .ok (true, v)
  | key :: keys => do
    match ← v.createTable key with
    | (true, v) => v.createTables keys
    | (false, v) => return (false, v)

/-- `map_page`: a missing frame and a page already mapped are both `MapError::Map`. -/
def mapPage (v : State) (page : Nat) (frame : PhysFrame) (flags : Flags) :
    Res (Except MapError Unit × State) := do
  match ← v.createTables (tableKeys page) with
  | (false, v) => return (.error .map, v)
  | (true, v) =>
    if (v.space.pages page).isSome then return (.error .map, v)
    else return (.ok (), { v with space := v.space.map page ⟨frame.number, flags⟩ })

/-! ## 2. What mapping a page takes -/

/-- `n` of the free frames are taken. -/
structure Took (v : State) (n : Nat) (v' : State) : Prop where
  subset : v'.free ⊆ v.free
  card : v'.free.card + n = v.free.card

theorem Took.refl (v : State) : Took v 0 v := ⟨Finset.Subset.refl _, Nat.add_zero _⟩

theorem Took.trans {v v₁ v₂ : State} {n k : Nat} (h : Took v n v₁) (h' : Took v₁ k v₂) :
    Took v (n + k) v₂ :=
  ⟨h'.subset.trans h.subset, by rw [← h.card, ← h'.card]; omega⟩

theorem Took.of_free {v w v' w' : State} {n : Nat} (h : Took v n v') (hv : w.free = v.free)
    (hw : w'.free = v'.free) : Took w n w' := by
  refine ⟨?_, ?_⟩
  · rw [hv, hw]
    exact h.subset
  · rw [hv, hw]
    exact h.card

theorem allocFrame_spec (v : State) :
    (v.free = ∅ ∧ v.allocFrame = .ok (none, v)) ∨
      ∃ p v', v.allocFrame = .ok (some p, v') ∧ p.number ∈ v.free ∧ p.number ∉ v'.free ∧
        Took v 1 v' ∧ v'.space = v.space ∧ v'.tables = v.tables := by
  rcases v.frames.allocFrame_spec with ⟨hempty, he⟩ | ⟨p, a, he, hp, hfree, -⟩
  · refine .inl ⟨hempty, ?_⟩
    rw [allocFrame, he]
    rfl
  · refine .inr ⟨p, { v with frames := a }, ?_, hp, ?_, ⟨?_, ?_⟩, rfl, rfl⟩
    · rw [allocFrame, he]
      rfl
    · rw [free, hfree]
      exact Finset.notMem_erase p.number _
    · rw [free, hfree]
      exact Finset.erase_subset ..
    · rw [free, hfree]
      exact Finset.card_erase_add_one hp

/-- The tables among `keys` that are not there. -/
def missing (v : State) (keys : List (Nat × Nat)) : Finset (Nat × Nat) := keys.toFinset \ v.tables

theorem missing_cons_mem {v : State} {key : Nat × Nat} (h : key ∈ v.tables)
    (keys : List (Nat × Nat)) : v.missing (key :: keys) = v.missing keys := by
  unfold missing
  rw [List.toFinset_cons, Finset.insert_sdiff_of_mem _ h]

theorem card_missing_cons {v v' : State} {key : Nat × Nat} (h : key ∉ v.tables)
    (hv : v'.tables = insert key v.tables) (keys : List (Nat × Nat)) :
    (v.missing (key :: keys)).card = (v'.missing keys).card + 1 := by
  have hsplit : v.missing (key :: keys) = insert key (v'.missing keys) := by
    unfold missing
    rw [hv, List.toFinset_cons]
    ext k
    simp only [Finset.mem_sdiff, Finset.mem_insert]
    constructor
    · intro ⟨hk, hnot⟩
      by_cases he : k = key
      · exact .inl he
      · exact .inr ⟨hk.resolve_left he, fun hor => hor.elim he hnot⟩
    · rintro (rfl | ⟨hk, hnot⟩)
      · exact ⟨.inl rfl, h⟩
      · exact ⟨.inr hk, fun hm => hnot (.inr hm)⟩
  rw [hsplit, Finset.card_insert_of_notMem]
  unfold missing
  rw [hv]
  exact fun hm => (Finset.mem_sdiff.mp hm).2 (Finset.mem_insert_self ..)

/-- **Tables** are created exactly if there is a free frame for each of them. -/
theorem createTables_spec (v : State) (keys : List (Nat × Nat)) :
    ((v.missing keys).card ≤ v.free.card ∧ ∃ v', v.createTables keys = .ok (true, v') ∧
      Took v (v.missing keys).card v' ∧ v'.space = v.space ∧
      v'.tables = v.tables ∪ keys.toFinset) ∨
    (v.free.card < (v.missing keys).card ∧ ∃ v', v.createTables keys = .ok (false, v')) := by
  induction keys generalizing v with
  | nil =>
    have hnone : v.missing [] = ∅ := Finset.empty_sdiff v.tables
    rw [hnone, Finset.card_empty]
    exact .inl ⟨Nat.zero_le _, v, rfl, .refl v, rfl, (Finset.union_empty _).symm⟩
  | cons key keys ih =>
    by_cases hkey : key ∈ v.tables
    · -- the table is there: nothing is taken
      have hstep : v.createTables (key :: keys) = v.createTables keys := by
        rw [createTables, createTable, if_pos hkey]
        rfl
      have htables : v.tables ∪ (key :: keys).toFinset = v.tables ∪ keys.toFinset := by
        rw [List.toFinset_cons, Finset.union_insert, Finset.insert_eq_of_mem]
        exact Finset.mem_union_left _ hkey
      rw [hstep, missing_cons_mem hkey, htables]
      exact ih v
    · rcases v.allocFrame_spec with ⟨hempty, he⟩ | ⟨p, v₁, he, -, -, htook, hspace, htables⟩
      · refine .inr ⟨?_, v, ?_⟩
        · rw [hempty, Finset.card_empty, Finset.card_pos]
          exact ⟨key, by simp [missing, hkey]⟩
        · rw [createTables, createTable, if_neg hkey, he]
          rfl
      · let v₂ : State := { v₁ with tables := insert key v₁.tables }
        have hstep : v.createTables (key :: keys) = v₂.createTables keys := by
          rw [createTables, createTable, if_neg hkey, he]
          rfl
        have hins : v₂.tables = insert key v.tables := by rw [← htables]
        have htook₂ : Took v 1 v₂ := htook.of_free rfl rfl
        rw [hstep, card_missing_cons hkey hins]
        have hcard := htook₂.card
        rcases ih v₂ with ⟨hle, v', he', ht, hs, htab⟩ | ⟨hlt, hv'⟩
        · refine .inl ⟨by omega, v', he', ?_, hs.trans hspace, ?_⟩
          · rw [Nat.add_comm]
            exact htook₂.trans ht
          · rw [htab, hins, List.toFinset_cons, Finset.insert_union, Finset.union_insert]
        · exact .inr ⟨by omega, hv'⟩

/-- **`map_page`** of a page that is not mapped succeeds exactly if there is a free frame for each
    missing table. -/
theorem mapPage_spec {v : State} {page : Nat} (h : v.space.pages page = none) (frame : PhysFrame)
    (flags : Flags) :
    ((v.missing (tableKeys page)).card ≤ v.free.card ∧
      ∃ v', v.mapPage page frame flags = .ok (.ok (), v') ∧
        Took v (v.missing (tableKeys page)).card v' ∧
        v'.space = v.space.map page ⟨frame.number, flags⟩ ∧
        v'.tables = v.tables ∪ (tableKeys page).toFinset) ∨
    (v.free.card < (v.missing (tableKeys page)).card ∧
      ∃ v', v.mapPage page frame flags = .ok (.error .map, v')) := by
  rcases v.createTables_spec (tableKeys page) with ⟨hle, v', he, ht, hs, htab⟩ | ⟨hlt, v', he⟩
  · refine .inl ⟨hle, { v' with space := v'.space.map page ⟨frame.number, flags⟩ }, ?_,
      ht.of_free rfl rfl, by rw [hs], htab⟩
    rw [mapPage, he, ok_bind]
    dsimp only
    rw [hs, h]
    rfl
  · refine .inr ⟨hlt, v', ?_⟩
    rw [mapPage, he]
    rfl

end State

end SimpleLinux.Vmm
