/-
  File:      SimpleLinux/Lib/Bitmap.lean
  Subject:   Bitmaps of 64-bit words.

  Bit `f` is bit `f % 64` of word `f / 64`. A bitmap stands for the finite set of its CLEAR bits;
  every operation is described by what `bit` answers after it, and from that by what it does to
  the set.

  * `bit`, `put` -- one bit read and written; `bit_put`;
  * `fill` -- a list of bits written in turn; `bit_fill`;
  * `clear` -- the set of the clear bits; `clear_put_true`, `clear_fill_true`;
  * `ones` -- the number of set bits, word by word; `ones_add_card_clear`.
-/
import Mathlib.Algebra.GroupWithZero.Nat
import Mathlib.Data.Finset.Card
import Mathlib.Data.Finset.Range
import Mathlib.Tactic.Common

namespace Bitmap

/-! ## 1. One word -/

/-- Bit `b` of `w` becomes `v`. -/
def putBit (w : BitVec 64) (b : Nat) (v : Bool) : BitVec 64 :=
  if v then w ||| (1#64 <<< b) else w &&& ~~~(1#64 <<< b)

theorem getLsbD_one_shift {b : Nat} (hb : b < 64) (i : Nat) :
    (1#64 <<< b).getLsbD i = decide (i = b) := by
  rw [BitVec.getLsbD_shiftLeft, BitVec.getLsbD_one]
  by_cases h : i = b
  · subst h
    simp [hb]
  · simp only [h, decide_false, Bool.and_eq_false_iff, Bool.not_eq_false',
      decide_eq_false_iff_not, decide_eq_true_eq]
    omega

theorem getLsbD_putBit (w : BitVec 64) {b : Nat} (hb : b < 64) (v : Bool) {i : Nat} (hi : i < 64) :
    (putBit w b v).getLsbD i = if i = b then v else w.getLsbD i := by
  unfold putBit
  cases v with
  | true =>
    rw [if_pos rfl, BitVec.getLsbD_or, getLsbD_one_shift hb]
    by_cases h : i = b <;> simp [h]
  | false =>
    rw [if_neg (by decide), BitVec.getLsbD_and, BitVec.getLsbD_not, getLsbD_one_shift hb]
    by_cases h : i = b <;> simp [h, hi]

/-- Reading a bit by shifting it to the bottom. -/
theorem shift_and_one (w : BitVec 64) (b : Nat) :
    ((w >>> b) &&& 1#64 == 1#64) = w.getLsbD b := by
  rw [BitVec.and_one_eq_setWidth_ofBool_getLsbD, BitVec.getLsbD_ushiftRight, Nat.add_zero]
  cases w.getLsbD b <;> decide

/-- `u64::count_ones`. -/
def countOnes (w : BitVec 64) : Nat := (List.range 64).countP w.getLsbD

/-! ## 2. Bits of a bitmap -/

variable {n : Nat}

/-- Bit `f`; the bits past the end read as set, as if in use. -/
def bit (m : Vector (BitVec 64) n) (f : Nat) : Bool :=
  if h : f / 64 < n then m[f / 64].getLsbD (f % 64) else true

/-- Bit `f` becomes `v`. -/
def put (m : Vector (BitVec 64) n) (f : Nat) (v : Bool) : Vector (BitVec 64) n :=
  if h : f / 64 < n then m.set (f / 64) (putBit m[f / 64] (f % 64) v) h else m

theorem div_lt {f : Nat} (h : f < 64 * n) : f / 64 < n := by omega

theorem bit_of_word (m : Vector (BitVec 64) n) {w b : Nat} (hw : w < n) (hb : b < 64) :
    bit m (w * 64 + b) = m[w].getLsbD b := by
  have hdiv : (w * 64 + b) / 64 = w := by omega
  have hmod : (w * 64 + b) % 64 = b := by omega
  unfold bit
  simp only [hdiv, hmod, hw, dif_pos]

theorem bit_put (m : Vector (BitVec 64) n) {f : Nat} (hf : f < 64 * n) (v : Bool) (g : Nat) :
    bit (put m f v) g = if g = f then v else bit m g := by
  unfold bit put
  rw [dif_pos (div_lt hf)]
  by_cases hg : g / 64 < n
  · rw [dif_pos hg, dif_pos hg, Vector.getElem_set]
    by_cases hw : f / 64 = g / 64
    · have hmod : g % 64 = f % 64 ↔ g = f := by omega
      rw [if_pos hw, getLsbD_putBit _ (Nat.mod_lt _ (by decide)) v (Nat.mod_lt _ (by decide))]
      simp only [hmod, hw]
    · have hne : g ≠ f := fun h => hw (by rw [h])
      rw [if_neg hw, if_neg hne]
  · have hne : g ≠ f := fun h => hg (h ▸ div_lt hf)
    rw [dif_neg hg, dif_neg hg, if_neg hne]

/-- The bits of `fs` become `v`, one after the other. -/
def fill (m : Vector (BitVec 64) n) (v : Bool) (fs : List Nat) : Vector (BitVec 64) n :=
  fs.foldl (fun m f => put m f v) m

theorem bit_fill (m : Vector (BitVec 64) n) (v : Bool) (fs : List Nat) (h : ∀ f ∈ fs, f < 64 * n)
    (g : Nat) : bit (fill m v fs) g = if g ∈ fs then v else bit m g := by
  induction fs generalizing m with
  | nil => rfl
  | cons f fs ih =>
    have hf := h f (List.mem_cons_self ..)
    have hfs : ∀ f ∈ fs, f < 64 * n := fun q hq => h q (List.mem_cons_of_mem _ hq)
    rw [fill, List.foldl_cons, ← fill, ih _ hfs, bit_put m hf]
    by_cases hg : g ∈ fs <;> by_cases he : g = f <;> simp [hg, he]

/-! ## 3. The set of the clear bits -/

def clear (m : Vector (BitVec 64) n) : Finset Nat :=
  (Finset.range (64 * n)).filter fun f => bit m f = false

@[simp] theorem mem_clear {m : Vector (BitVec 64) n} {f : Nat} :
    f ∈ clear m ↔ f < 64 * n ∧ bit m f = false := by
  unfold clear
  rw [Finset.mem_filter, Finset.mem_range]

/-- Setting bits takes them out of the set, and no other. -/
theorem clear_fill_true (m : Vector (BitVec 64) n) {fs : List Nat} (h : ∀ f ∈ fs, f < 64 * n) :
    clear (fill m true fs) = clear m \ fs.toFinset := by
  ext g
  rw [Finset.mem_sdiff, mem_clear, mem_clear, bit_fill m true fs h, List.mem_toFinset]
  by_cases hg : g ∈ fs <;> simp [hg]

/-- Clearing bits puts them into the set, and no other. -/
theorem clear_fill_false (m : Vector (BitVec 64) n) {fs : List Nat} (h : ∀ f ∈ fs, f < 64 * n) :
    clear (fill m false fs) = clear m ∪ fs.toFinset := by
  ext g
  rw [Finset.mem_union, mem_clear, mem_clear, bit_fill m false fs h, List.mem_toFinset]
  by_cases hg : g ∈ fs
  · simp [hg, h g hg]
  · simp [hg]

theorem clear_put_true (m : Vector (BitVec 64) n) {f : Nat} (hf : f < 64 * n) :
    clear (put m f true) = (clear m).erase f := by
  have hput : put m f true = fill m true [f] := rfl
  rw [hput, clear_fill_true m (List.forall_mem_singleton.mpr hf), List.toFinset_cons,
    List.toFinset_nil, insert_empty_eq, Finset.sdiff_singleton_eq_erase]

theorem clear_put_false (m : Vector (BitVec 64) n) {f : Nat} (hf : f < 64 * n) :
    clear (put m f false) = insert f (clear m) := by
  have hput : put m f false = fill m false [f] := rfl
  rw [hput, clear_fill_false m (List.forall_mem_singleton.mpr hf), List.toFinset_cons,
    List.toFinset_nil, insert_empty_eq, Finset.union_comm, ← Finset.insert_eq]

/-! ## 4. Counting -/

/-- The number of set bits, summed over the words. -/
def ones (m : Vector (BitVec 64) n) : Nat := (m.toList.map countOnes).sum

/-- Bit `f` of a list of words. -/
def bitOf (ws : List (BitVec 64)) (f : Nat) : Bool :=
  ((ws[f / 64]?).getD (BitVec.allOnes 64)).getLsbD (f % 64)

theorem bitOf_toList (m : Vector (BitVec 64) n) (f : Nat) : bitOf m.toList f = bit m f := by
  unfold bitOf bit
  by_cases h : f / 64 < n
  · simp [h]
  · have hnone : m.toList[f / 64]? = none := by simpa using h
    rw [dif_neg h, hnone, Option.getD_none, BitVec.getLsbD_allOnes]
    exact decide_eq_true (Nat.mod_lt _ (by decide))

/-- The words' counts add up to the number of set bits. -/
theorem sum_countOnes (ws : List (BitVec 64)) :
    (ws.map countOnes).sum = (List.range (64 * ws.length)).countP (bitOf ws) := by
  induction ws with
  | nil => rfl
  | cons w ws ih =>
    have hhead : (List.range 64).countP (bitOf (w :: ws)) = countOnes w := by
      refine List.countP_congr fun f hf => ?_
      rw [List.mem_range] at hf
      simp [bitOf, Nat.div_eq_of_lt hf, Nat.mod_eq_of_lt hf]
    have htail : ((List.range (64 * ws.length)).map (64 + ·)).countP (bitOf (w :: ws)) =
        (List.range (64 * ws.length)).countP (bitOf ws) := by
      rw [List.countP_map]
      refine List.countP_congr fun f _ => ?_
      simp [bitOf, Nat.add_div_left]
    rw [List.map_cons, List.sum_cons, ih, List.length_cons, Nat.mul_add, Nat.mul_one,
      Nat.add_comm _ 64, List.range_add, List.countP_append, hhead, htail]

theorem card_clear (m : Vector (BitVec 64) n) :
    (clear m).card = (List.range (64 * n)).countP fun f => decide ¬bit m f = true := by
  have hfilter : (fun f => decide (bit m f = false)) = fun f => decide ¬bit m f = true := by
    funext f
    cases bit m f <;> rfl
  rw [List.countP_eq_length_filter, ← hfilter]
  rfl

/-- **The set bits and the clear ones make up the whole bitmap.** -/
theorem ones_add_card_clear (m : Vector (BitVec 64) n) : ones m + (clear m).card = 64 * n := by
  have hones : ones m = (List.range (64 * n)).countP (bit m) := by
    rw [ones, sum_countOnes, Vector.length_toList]
    exact List.countP_congr fun f _ => by rw [bitOf_toList]
  have hsplit := List.length_eq_countP_add_countP (l := List.range (64 * n)) (bit m)
  have hclear := card_clear m
  rw [List.length_range] at hsplit
  omega

end Bitmap
