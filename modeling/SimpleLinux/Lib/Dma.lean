/-
  File:      SimpleLinux/Lib/Dma.lean
  Subject:   What a driver shares with a device: rings of descriptors, and byte memory.

  * `Ring.slot`, `Ring.put` -- a ring of `n` entries, indexed modulo `n`;
  * `Ring.window` -- `count` entries from `head` on, in order; `window_put`, `window_succ` -- an
    entry appended behind the window, the first entry taken off it; `window_put_outside`;
  * `Ring.gap` -- how far the tail is ahead of the head;
  * `Store.copy`, `Store.load` -- a list of bytes written to memory, and read back; what is written
    elsewhere does not matter (`load_copy_apart`).
-/
import Mathlib.Algebra.GroupWithZero.Nat
import Mathlib.Data.List.Basic
import Mathlib.Logic.Function.Basic
import Mathlib.Tactic.Common

/-! ## 1. Rings -/

namespace Ring

variable {α : Type} {n : Nat}

/-- Two entries less than `n` apart are different ones. -/
theorem add_mod_ne (head : Nat) {i j : Nat} (hi : i < n) (hj : j < n) (h : i ≠ j) :
    (head + i) % n ≠ (head + j) % n := by
  have hlt (i j : Nat) (hj : j < n) (h : i < j) : (head + i) % n ≠ (head + j) % n := by
    intro he
    have hmod := Nat.sub_mod_eq_zero_of_mod_eq he.symm
    rw [Nat.mod_eq_of_lt (by omega)] at hmod
    omega
  rcases Nat.lt_or_gt_of_ne h with hij | hij
  · exact hlt i j hj hij
  · exact (hlt j i hi hij).symm

section Slots

variable [NeZero n]

def slot (r : Vector α n) (i : Nat) : α := r[Fin.ofNat n i]

def put (r : Vector α n) (i : Nat) (x : α) : Vector α n :=
  r.set (i % n) x (Nat.mod_lt i (Nat.pos_of_neZero n))

theorem slot_put (r : Vector α n) (i : Nat) (x : α) (j : Nat) :
    slot (put r i x) j = if i % n = j % n then x else slot r j := by
  unfold slot put
  rw [Fin.getElem_fin, Fin.getElem_fin, Vector.getElem_set]
  rfl

theorem slot_mod (r : Vector α n) (i : Nat) : slot r (i % n) = slot r i := by
  unfold slot
  simp only [Fin.getElem_fin, Fin.val_ofNat, Nat.mod_mod]

/-- The `count` entries from `head` on. -/
def window (r : Vector α n) (head count : Nat) : List α :=
  (List.range count).map fun i => slot r (head + i)

@[simp] theorem window_zero (r : Vector α n) (head : Nat) : window r head 0 = [] := rfl

@[simp] theorem length_window (r : Vector α n) (head count : Nat) :
    (window r head count).length = count := by
  rw [window, List.length_map, List.length_range]

theorem window_mod (r : Vector α n) (head count : Nat) :
    window r (head % n) count = window r head count := by
  unfold window
  refine List.map_congr_left fun i _ => ?_
  rw [← slot_mod, Nat.mod_add_mod, slot_mod]

theorem window_succ (r : Vector α n) (head count : Nat) :
    window r head (count + 1) = slot r head :: window r (head + 1) count := by
  unfold window
  rw [List.range_succ_eq_map, List.map_cons, List.map_map]
  refine congrArg₂ List.cons rfl (List.map_congr_left fun i _ => ?_)
  simp only [Function.comp_apply]
  congr 1
  omega

/-- An entry written right behind a window that is not the whole ring. -/
theorem window_put (r : Vector α n) {head count : Nat} (h : count < n) (x : α) :
    window (put r (head + count) x) head (count + 1) = window r head count ++ [x] := by
  unfold window
  rw [List.range_succ, List.map_append, List.map_singleton, slot_put, if_pos rfl]
  refine congrArg (· ++ [x]) (List.map_congr_left fun i hi => ?_)
  rw [List.mem_range] at hi
  rw [slot_put, if_neg (add_mod_ne _ h (by omega) (by omega))]

/-- An entry written outside a window. -/
theorem window_put_outside (r : Vector α n) {head count i : Nat} (x : α)
    (h : ∀ k < count, i % n ≠ (head + k) % n) :
    window (put r i x) head count = window r head count := by
  unfold window
  refine List.map_congr_left fun k hk => ?_
  rw [slot_put, if_neg (h k (List.mem_range.mp hk))]

end Slots

/-- The number of entries from `head` up to `tail`. -/
def gap (n head tail : Nat) : Nat := (tail + n - head) % n

theorem gap_self (h : Nat) : gap n h h = 0 := by
  rw [gap, Nat.add_sub_cancel_left, Nat.mod_self]

theorem gap_eq {h t : Nat} (hh : h < n) (ht : t < n) :
    gap n h t = if h ≤ t then t - h else t + n - h := by
  unfold gap
  split
  · have hs : t + n - h = (t - h) + n := by omega
    rw [hs, Nat.add_mod_right, Nat.mod_eq_of_lt (by omega)]
  · rw [Nat.mod_eq_of_lt (by omega)]

theorem add_gap_mod {h t : Nat} (hh : h < n) (ht : t < n) : (h + gap n h t) % n = t := by
  rw [gap_eq hh ht]
  split
  · have hs : h + (t - h) = t := by omega
    rw [hs, Nat.mod_eq_of_lt ht]
  · have hs : h + (t + n - h) = t + n := by omega
    rw [hs, Nat.add_mod_right, Nat.mod_eq_of_lt ht]

theorem gap_ne_zero {h t : Nat} (hh : h < n) (ht : t < n) (hne : h ≠ t) : gap n h t ≠ 0 := by
  rw [gap_eq hh ht]
  split <;> omega

theorem succ_mod_eq {h : Nat} (hh : h < n) : (h + 1) % n = if h + 1 < n then h + 1 else 0 := by
  split
  · rename_i hlt
    exact Nat.mod_eq_of_lt hlt
  · have he : h + 1 = n := by omega
    rw [he, Nat.mod_self]

/-- The tail moves on: one entry more, or none at all when it meets the head. -/
theorem gap_tail_succ {h t : Nat} (hh : h < n) (ht : t < n) :
    gap n h ((t + 1) % n) = if gap n h t + 1 < n then gap n h t + 1 else 0 := by
  rw [gap_eq hh (Nat.mod_lt _ (by omega)), gap_eq hh ht, succ_mod_eq ht]
  split_ifs <;> omega

/-- The head moves on: one entry less. -/
theorem gap_head_succ {h t : Nat} (hh : h < n) (ht : t < n) (hne : h ≠ t) :
    gap n ((h + 1) % n) t + 1 = gap n h t := by
  rw [gap_eq (Nat.mod_lt _ (by omega)) ht, gap_eq hh ht, succ_mod_eq hh]
  split_ifs <;> omega

end Ring

/-! ## 2. Byte memory -/

namespace Store

variable {β : Type}

/-- The bytes `bs` written from `base` on. -/
def copy (mem : Nat → β) (base : Nat) (bs : List β) : Nat → β := fun a =>
  if base ≤ a then (bs[a - base]?).getD (mem a) else mem a

/-- The `len` bytes from `base` on. -/
def load (mem : Nat → β) (base len : Nat) : List β := (List.range len).map fun i => mem (base + i)

@[simp] theorem length_load (mem : Nat → β) (base len : Nat) :
    (load mem base len).length = len := by
  simp [load]

theorem copy_add (mem : Nat → β) (base : Nat) (bs : List β) (i : Nat) :
    copy mem base bs (base + i) = (bs[i]?).getD (mem (base + i)) := by
  unfold copy
  rw [if_pos (Nat.le_add_right base i), Nat.add_sub_cancel_left]

theorem copy_nil (mem : Nat → β) (base : Nat) : copy mem base [] = mem := by
  funext a
  unfold copy
  simp

theorem copy_outside {mem : Nat → β} {base : Nat} {bs : List β} {a : Nat}
    (h : ¬ (base ≤ a ∧ a < base + bs.length)) : copy mem base bs a = mem a := by
  unfold copy
  split
  · rw [List.getElem?_eq_none (by omega), Option.getD_none]
  · rfl

theorem copy_inside (mem : Nat → β) {base : Nat} {bs : List β} {a : Nat} (ha : base ≤ a)
    (h : a < base + bs.length) : bs[a - base]? = some (copy mem base bs a) := by
  unfold copy
  rw [if_pos ha, List.getElem?_eq_getElem (by omega), Option.getD_some]

theorem copy_congr {mem mem' : Nat → β} {base : Nat} {bs : List β} {a : Nat} (h : mem a = mem' a) :
    copy mem base bs a = copy mem' base bs a := by
  unfold copy
  rw [h]

/-- The first byte, then the others. -/
theorem copy_cons (mem : Nat → β) (base : Nat) (b : β) (bs : List β) :
    copy mem base (b :: bs) = copy (Function.update mem base b) (base + 1) bs := by
  funext a
  unfold copy
  rcases Nat.lt_trichotomy a base with h | rfl | h
  · rw [if_neg (by omega), if_neg (by omega), Function.update_of_ne (by omega)]
  · rw [if_pos (Nat.le_refl _), if_neg (by omega), Nat.sub_self, Function.update_self]
    rfl
  · have hsub : a - base = (a - (base + 1)) + 1 := by omega
    rw [if_pos (by omega), if_pos (by omega), hsub, List.getElem?_cons_succ,
      Function.update_of_ne (by omega)]

theorem load_copy (mem : Nat → β) (base : Nat) (bs : List β) :
    load (copy mem base bs) base bs.length = bs := by
  refine List.ext_getElem (length_load ..) fun i _ hi => ?_
  simp only [load, List.getElem_map, List.getElem_range, copy_add, List.getElem?_eq_getElem hi,
    Option.getD_some]

/-- Bytes written elsewhere. -/
theorem load_copy_apart {mem : Nat → β} {base base' len : Nat} {bs : List β}
    (h : base + bs.length ≤ base' ∨ base' + len ≤ base) :
    load (copy mem base bs) base' len = load mem base' len := by
  unfold load
  refine List.map_congr_left fun i hi => ?_
  rw [List.mem_range] at hi
  exact copy_outside (by omega)

end Store
