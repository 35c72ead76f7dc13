/-
  File:      SimpleLinux/Memory/Pmm.lean
  Subject:   The physical frame allocator: memory/pmm.rs.

  One bit per 4 KiB frame, set while the frame is in use. The operations are the code's, with the
  panics of its array accesses and of its subtraction; the abstract allocator is the finite set of
  the free frames.

  * `allocBits`, `allocWords` -- the two loops of `alloc_frame`, with its early returns;
  * `freeSet` -- the free frames; one lemma says what each operation does to it and that it does
    not panic (`markFreeRange_spec`, `allocFrame_spec`, `freeFrame_spec`, `freeCount_spec`);
  * `runOps` -- every sequence of operations from `new`;
  * `Caller`, `callerStep` -- callers that free only what they hold.
-/
import SimpleLinux.Lib.Bitmap
import SimpleLinux.Lib.Runs
import SimpleLinux.Lib.Rust

namespace SimpleLinux.Pmm

open Rust

/-! ## 1. The allocator -/

def pageSize : Nat := 4096

/-- `1 << 30`, the highest physical byte the bitmap describes. -/
def maxPhys : Nat := 2 ^ 30

def numFrames : Nat := maxPhys / pageSize

def words : Nat := numFrames / 64

theorem words_mul : 64 * words = numFrames := by decide

theorem words_pos : 0 < words := by decide

theorem numFrames_eq : numFrames = 262144 := by decide

theorem numFrames_mul_lt : numFrames * pageSize < 2 ^ 52 := by decide

-- the proofs below use the facts above; unfolding the constants would only evaluate them
attribute [irreducible] numFrames words

/-- `PhysFrame<Size4KiB>`: a page-aligned physical address. -/
structure PhysFrame where
  start : Nat
  aligned : pageSize ∣ start
  deriving DecidableEq

namespace PhysFrame

/-- `PhysFrame::containing_address` rounds down. -/
def containingAddress (addr : Nat) : PhysFrame :=
  ⟨addr / pageSize * pageSize, Nat.dvd_mul_left ..⟩

/-- The number of the frame. -/
def number (p : PhysFrame) : Nat := p.start / pageSize

theorem start_eq (p : PhysFrame) : p.start = p.number * pageSize :=
  (Nat.div_mul_cancel p.aligned).symm

theorem ext_number {p q : PhysFrame} (h : p.number = q.number) : p = q := by
  have hstart : p.start = q.start := by rw [p.start_eq, q.start_eq, h]
  cases p
  cases q
  cases hstart
  rfl

theorem number_containingAddress (f : Nat) : (containingAddress (f * pageSize)).number = f := by
  have hpos : 0 < pageSize := by decide
  unfold number containingAddress
  dsimp only
  rw [Nat.mul_div_cancel _ hpos, Nat.mul_div_cancel _ hpos]

end PhysFrame

/-- `PhysAddr::new` of the x86_64 crate: physical addresses have 52 bits. -/
def physAddr (addr : Nat) : Res Nat := if addr < 2 ^ 52 then .ok addr else .error .invalid

structure BitmapFrameAllocator where
  used : Vector (BitVec 64) words
  nextWord : Nat

namespace BitmapFrameAllocator

/-- All frames start out marked used. -/
def new : BitmapFrameAllocator := ⟨Vector.replicate words (BitVec.allOnes 64), 0⟩

def bitIndex (frame : Nat) : Nat × Nat := (frame / 64, frame % 64)

def frameUsed (a : BitmapFrameAllocator) (frame : Nat) : Res Bool := do
  let (w, b) := bitIndex frame
  let x ← index a.used w
  return (x >>> b) &&& 1#64 == 1#64

def setUsed (a : BitmapFrameAllocator) (frame : Nat) (value : Bool) :
    Res BitmapFrameAllocator := do
  let (w, b) := bitIndex frame
  let x ← index a.used w
  let used ← assign a.used w (if value then x ||| (1#64 <<< b) else x &&& ~~~(1#64 <<< b))
  return { a with used }

/-- The frames of a byte range, clamped to the bitmap; a partial last page counts. -/
def framesFor (lo hi : Nat) : Option (Nat × Nat) :=
  let start := lo / pageSize
  let stop := min (divCeil hi pageSize) numFrames
  if start < stop then some (start, stop) else none

/-- The loop that `mark_used_range` and `mark_free_range` share. -/
def markRange (value : Bool) (a : BitmapFrameAllocator) (lo hi : Nat) :
    Res BitmapFrameAllocator :=
  match framesFor lo hi with
  | some (start, stop) =>
    (List.range' start (stop - start)).foldlM (fun a f => a.setUsed f value) a
  | none => .ok a

def markUsedRange : BitmapFrameAllocator → Nat → Nat → Res BitmapFrameAllocator := markRange true

def markFreeRange : BitmapFrameAllocator → Nat → Nat → Res BitmapFrameAllocator := markRange false

/-- The inner loop of `alloc_frame`, over the bits of word `idx`: `none` when it runs to its end,
    `some none` for its `return None`, `some (some frame)` when it finds one. -/
def allocBits (a : BitmapFrameAllocator) (idx : Nat) : List Nat → Res (Option (Option Nat))
  | [] => .ok none
  | b :: bs =>
    if numFrames ≤ idx * 64 + b then .ok (some none)
    else do
      if ← a.frameUsed (idx * 64 + b) then a.allocBits idx bs
      else return some (some (idx * 64 + b))

/-- The outer loop of `alloc_frame`: the frame found and its word. -/
def allocWords (a : BitmapFrameAllocator) : List Nat → Res (Option (Nat × Nat))
  | [] => .ok none
  | wi :: wis => do
    let idx := (a.nextWord + wi) % words
    if (← index a.used idx) == BitVec.allOnes 64 then a.allocWords wis
    else
      match ← a.allocBits idx (List.range 64) with
      | none => a.allocWords wis
      | some r => return r.map fun frame => (frame, idx)

def allocFrame (a : BitmapFrameAllocator) : Res (Option PhysFrame × BitmapFrameAllocator) := do
  match ← a.allocWords (List.range words) with
  | none => return (none, a)
  | some (frame, idx) =>
    let a' ← a.setUsed frame true
    let addr ← physAddr (frame * pageSize)
    return (some (.containingAddress addr), { a' with nextWord := idx })

def freeFrame (a : BitmapFrameAllocator) (p : PhysFrame) : Res BitmapFrameAllocator :=
  if p.start / pageSize < numFrames then a.setUsed (p.start / pageSize) false else .ok a

def freeCount (a : BitmapFrameAllocator) : Res Nat :=
  sub numFrames (a.used.toList.foldl (fun n w => n + Bitmap.countOnes w) 0)

/-- **The abstract allocator**: the frames that are free. -/
def freeSet (a : BitmapFrameAllocator) : Finset Nat := Bitmap.clear a.used

/-! ## 2. Bits -/

theorem mem_freeSet {a : BitmapFrameAllocator} {f : Nat} :
    f ∈ a.freeSet ↔ f < numFrames ∧ Bitmap.bit a.used f = false := by
  rw [freeSet, Bitmap.mem_clear, words_mul]

theorem freeSet_new : new.freeSet = ∅ := by
  refine Finset.eq_empty_of_forall_notMem fun f hf => ?_
  obtain ⟨hlt, hbit⟩ := mem_freeSet.mp hf
  have hw : f / 64 < words := Bitmap.div_lt (words_mul ▸ hlt)
  rw [Bitmap.bit, dif_pos hw, new, Vector.getElem_replicate, BitVec.getLsbD_allOnes,
    decide_eq_true (Nat.mod_lt f (by decide))] at hbit
  cases hbit

/-- Every frame is free. -/
def allFree : BitmapFrameAllocator := ⟨Vector.replicate words 0#64, 0⟩

theorem freeSet_allFree : allFree.freeSet = Finset.range numFrames := by
  ext f
  rw [mem_freeSet, Finset.mem_range]
  refine ⟨fun h => h.1, fun h => ⟨h, ?_⟩⟩
  rw [Bitmap.bit, dif_pos (Bitmap.div_lt (words_mul ▸ h))]
  simp [allFree]

variable (a : BitmapFrameAllocator)

theorem frameUsed_of_lt {f : Nat} (h : f < numFrames) :
    a.frameUsed f = .ok (Bitmap.bit a.used f) := by
  have hw : f / 64 < words := Bitmap.div_lt (words_mul ▸ h)
  unfold frameUsed bitIndex
  dsimp only
  rw [index_of_lt _ hw, ok_bind, Bitmap.shift_and_one, Bitmap.bit, dif_pos hw]
  rfl

theorem setUsed_of_lt {f : Nat} (h : f < numFrames) (v : Bool) :
    a.setUsed f v = .ok { a with used := Bitmap.put a.used f v } := by
  have hw : f / 64 < words := Bitmap.div_lt (words_mul ▸ h)
  unfold setUsed bitIndex
  dsimp only
  rw [index_of_lt _ hw, ok_bind, assign_of_lt _ _ hw, ok_bind, Bitmap.put, dif_pos hw]
  rfl

/-- The loop of the two marking operations fills the bits of its range. -/
theorem foldlM_setUsed (v : Bool) (fs : List Nat) (h : ∀ f ∈ fs, f < numFrames) :
    fs.foldlM (fun a f => a.setUsed f v) a = .ok { a with used := Bitmap.fill a.used v fs } := by
  induction fs generalizing a with
  | nil => rfl
  | cons f fs ih =>
    have hf := h f (List.mem_cons_self ..)
    rw [List.foldlM_cons, a.setUsed_of_lt hf, ok_bind,
      ih _ fun g hg => h g (List.mem_cons_of_mem _ hg)]
    rfl

/-! ## 3. Marking ranges -/

/-- The frames below `numFrames` that have a byte in `[lo, hi)`. -/
def touching (lo hi : Nat) : Finset Nat :=
  (Finset.range numFrames).filter fun f => f * pageSize < hi ∧ lo < (f + 1) * pageSize

theorem mem_touching {lo hi f : Nat} :
    f ∈ touching lo hi ↔ f < numFrames ∧ f * pageSize < hi ∧ lo < (f + 1) * pageSize := by
  rw [touching, Finset.mem_filter, Finset.mem_range]

/-- The bounds of `frames_for` are those of the frames that the range touches. -/
theorem mem_touching_iff {lo hi f : Nat} :
    f ∈ touching lo hi ↔ lo / pageSize ≤ f ∧ f < min (divCeil hi pageSize) numFrames := by
  have hstart : lo / pageSize ≤ f ↔ lo < (f + 1) * pageSize := by
    rw [← Nat.lt_add_one_iff, Nat.div_lt_iff_lt_mul (by decide)]
  have hstop : f < divCeil hi pageSize ↔ f * pageSize < hi := lt_divCeil (by decide)
  rw [mem_touching, Nat.lt_min, hstart, hstop]
  tauto

/-- The frames that the loops of the marking operations run over. -/
def frameList (lo hi : Nat) : List Nat :=
  List.range' (lo / pageSize) (min (divCeil hi pageSize) numFrames - lo / pageSize)

theorem mem_frameList {lo hi f : Nat} : f ∈ frameList lo hi ↔ f ∈ touching lo hi := by
  rw [mem_touching_iff, frameList, List.mem_range'_1]
  omega

theorem markRange_eq_foldlM (v : Bool) (lo hi : Nat) :
    markRange v a lo hi = (frameList lo hi).foldlM (fun a f => a.setUsed f v) a := by
  by_cases h : lo / pageSize < min (divCeil hi pageSize) numFrames
  · have hsome : framesFor lo hi = some (lo / pageSize, min (divCeil hi pageSize) numFrames) :=
      if_pos h
    rw [markRange, hsome]
    rfl
  · have hnone : framesFor lo hi = none := if_neg h
    have hnil : frameList lo hi = [] := by
      rw [frameList, Nat.sub_eq_zero_of_le (Nat.le_of_not_lt h)]
      rfl
    rw [markRange, hnone, hnil]
    rfl

/-- Marking a range writes the bits of exactly the frames it touches, and does not panic. -/
theorem markRange_eq (v : Bool) (lo hi : Nat) :
    markRange v a lo hi = .ok { a with used := Bitmap.fill a.used v (frameList lo hi) } := by
  rw [markRange_eq_foldlM]
  exact a.foldlM_setUsed v _ fun f hf => (mem_touching.mp (mem_frameList.mp hf)).1

theorem frameList_lt {lo hi : Nat} : ∀ f ∈ frameList lo hi, f < 64 * words := by
  intro f hf
  rw [words_mul]
  exact (mem_touching.mp (mem_frameList.mp hf)).1

theorem toFinset_frameList (lo hi : Nat) : (frameList lo hi).toFinset = touching lo hi := by
  ext f
  rw [List.mem_toFinset, mem_frameList]

theorem markFreeRange_spec (lo hi : Nat) :
    ∃ a', a.markFreeRange lo hi = .ok a' ∧ a'.freeSet = a.freeSet ∪ touching lo hi ∧
      a'.nextWord = a.nextWord := by
  refine ⟨_, a.markRange_eq false lo hi, ?_, rfl⟩
  rw [← toFinset_frameList]
  exact Bitmap.clear_fill_false a.used frameList_lt

theorem markUsedRange_spec (lo hi : Nat) :
    ∃ a', a.markUsedRange lo hi = .ok a' ∧ a'.freeSet = a.freeSet \ touching lo hi ∧
      a'.nextWord = a.nextWord := by
  refine ⟨_, a.markRange_eq true lo hi, ?_, rfl⟩
  rw [← toFinset_frameList]
  exact Bitmap.clear_fill_true a.used frameList_lt

/-! ## 4. Freeing and counting -/

theorem freeFrame_spec (p : PhysFrame) :
    ∃ a', a.freeFrame p = .ok a' ∧ a'.nextWord = a.nextWord ∧
      (p.number < numFrames → a'.freeSet = insert p.number a.freeSet) ∧
      (numFrames ≤ p.number → a' = a) := by
  unfold freeFrame
  by_cases h : p.start / pageSize < numFrames
  · rw [if_pos h]
    refine ⟨_, a.setUsed_of_lt h false, rfl, ?_, fun hge => absurd h (Nat.not_lt.mpr hge)⟩
    exact fun _ => Bitmap.clear_put_false a.used (words_mul ▸ h)
  · rw [if_neg h]
    exact ⟨a, rfl, rfl, fun hlt => absurd hlt h, fun _ => rfl⟩

theorem freeCount_spec : a.freeCount = .ok a.freeSet.card := by
  have hfold : a.used.toList.foldl (fun n w => n + Bitmap.countOnes w) 0 = Bitmap.ones a.used := by
    rw [Bitmap.ones, List.sum_eq_foldl, List.foldl_map]
  have htotal := Bitmap.ones_add_card_clear a.used
  rw [words_mul] at htotal
  have hcard : numFrames - Bitmap.ones a.used = a.freeSet.card := Nat.sub_eq_of_eq_add' htotal.symm
  rw [freeCount, hfold, sub_of_le (htotal ▸ Nat.le_add_right ..), hcard]

/-! ## 5. Allocating -/

/-- The inner loop stops at the first clear bit of its word, or finds that there is none. -/
theorem allocBits_spec {idx : Nat} (hidx : idx < words) (bs : List Nat) (h : ∀ b ∈ bs, b < 64) :
    (a.allocBits idx bs = .ok none ∧ ∀ b ∈ bs, Bitmap.bit a.used (idx * 64 + b) = true) ∨
      ∃ b ∈ bs, Bitmap.bit a.used (idx * 64 + b) = false ∧
        a.allocBits idx bs = .ok (some (some (idx * 64 + b))) := by
  induction bs with
  | nil => exact .inl ⟨rfl, by simp⟩
  | cons b bs ih =>
    have hb : b < 64 := h b (List.mem_cons_self ..)
    have hlt : idx * 64 + b < numFrames := by
      rw [← words_mul]
      omega
    have hstep : a.allocBits idx (b :: bs) =
        if Bitmap.bit a.used (idx * 64 + b) = true then a.allocBits idx bs
        else .ok (some (some (idx * 64 + b))) := by
      rw [allocBits, if_neg (Nat.not_le.mpr hlt), a.frameUsed_of_lt hlt]
      rfl
    rw [hstep]
    cases hbit : Bitmap.bit a.used (idx * 64 + b) with
    | false => exact .inr ⟨b, List.mem_cons_self .., hbit, if_neg (by decide)⟩
    | true =>
      rw [if_pos rfl]
      rcases ih fun c hc => h c (List.mem_cons_of_mem _ hc) with ⟨he, hall⟩ | ⟨c, hc, hf, he⟩
      · exact .inl ⟨he, List.forall_mem_cons.mpr ⟨hbit, hall⟩⟩
      · exact .inr ⟨c, List.mem_cons_of_mem _ hc, hf, he⟩

/-- One word of the outer loop, skipped or searched: it has no clear bit, or one is returned. -/
theorem allocWord_spec (wi : Nat) (wis : List Nat) :
    (a.allocWords (wi :: wis) = a.allocWords wis ∧
        ∀ b < 64, Bitmap.bit a.used ((a.nextWord + wi) % words * 64 + b) = true) ∨
      ∃ b < 64, Bitmap.bit a.used ((a.nextWord + wi) % words * 64 + b) = false ∧
        a.allocWords (wi :: wis) =
          .ok (some ((a.nextWord + wi) % words * 64 + b, (a.nextWord + wi) % words)) := by
  have hidx : (a.nextWord + wi) % words < words := Nat.mod_lt _ words_pos
  rw [allocWords, index_of_lt _ hidx, ok_bind]
  split
  · rename_i hfull
    refine .inl ⟨rfl, fun b hb => ?_⟩
    rw [Bitmap.bit_of_word _ hidx hb, eq_of_beq hfull, BitVec.getLsbD_allOnes, decide_eq_true hb]
  · rcases a.allocBits_spec hidx (List.range 64) (by simp) with ⟨he, hall⟩ | ⟨b, hb, hf, he⟩
    · refine .inl ⟨?_, fun b hb => hall b (List.mem_range.mpr hb)⟩
      rw [he]
      rfl
    · refine .inr ⟨b, List.mem_range.mp hb, hf, ?_⟩
      rw [he]
      rfl

/-- The outer loop finds a clear bit in the words it visits, or there is none. -/
theorem allocWords_spec (wis : List Nat) :
    (a.allocWords wis = .ok none ∧ ∀ wi ∈ wis, ∀ b < 64,
        Bitmap.bit a.used ((a.nextWord + wi) % words * 64 + b) = true) ∨
      ∃ w < words, ∃ b < 64, Bitmap.bit a.used (w * 64 + b) = false ∧
        a.allocWords wis = .ok (some (w * 64 + b, w)) := by
  induction wis with
  | nil => exact .inl ⟨rfl, by simp⟩
  | cons wi wis ih =>
    rcases a.allocWord_spec wi wis with ⟨he, hall⟩ | ⟨b, hb, hf, he⟩
    · rw [he]
      rcases ih with ⟨hnone, hrest⟩ | hfound
      · exact .inl ⟨hnone, List.forall_mem_cons.mpr ⟨hall, hrest⟩⟩
      · exact .inr hfound
    · exact .inr ⟨_, Nat.mod_lt _ words_pos, b, hb, hf, he⟩

/-- The wrapping scan visits every word, wherever it starts. -/
theorem exists_visit {w : Nat} (hw : w < words) : ∃ wi < words, (a.nextWord + wi) % words = w := by
  have hr : a.nextWord % words < words := Nat.mod_lt _ words_pos
  refine ⟨(w + (words - a.nextWord % words)) % words, Nat.mod_lt _ words_pos, ?_⟩
  have hsum : a.nextWord % words + (w + (words - a.nextWord % words)) = w + words := by omega
  rw [Nat.add_mod_mod, ← Nat.mod_add_mod, hsum, Nat.add_mod_right, Nat.mod_eq_of_lt hw]

/-- **`alloc_frame`** fails, changing nothing, exactly when no frame is free; otherwise it returns
    the address of a free frame and takes exactly that one out. -/
theorem allocFrame_spec :
    (a.freeSet = ∅ ∧ a.allocFrame = .ok (none, a)) ∨
      ∃ p a', a.allocFrame = .ok (some p, a') ∧ p.number ∈ a.freeSet ∧
        a'.freeSet = a.freeSet.erase p.number ∧ a'.nextWord < words := by
  rcases a.allocWords_spec (List.range words) with ⟨he, hall⟩ | ⟨w, hw, b, hb, hf, he⟩
  · refine .inl ⟨Finset.eq_empty_of_forall_notMem fun f hf => ?_, ?_⟩
    · obtain ⟨hlt, hbit⟩ := mem_freeSet.mp hf
      obtain ⟨wi, hwi, hvisit⟩ := a.exists_visit (Bitmap.div_lt (words_mul ▸ hlt))
      have hused := hall wi (List.mem_range.mpr hwi) (f % 64) (Nat.mod_lt _ (by decide))
      rw [hvisit, Nat.div_add_mod', hbit] at hused
      cases hused
    · rw [allocFrame, he]
      rfl
  · have hlt : w * 64 + b < numFrames := by
      rw [← words_mul]
      omega
    have haddr : (w * 64 + b) * pageSize < 2 ^ 52 :=
      Nat.lt_trans (Nat.mul_lt_mul_of_pos_right hlt (by decide)) numFrames_mul_lt
    have hnumber := PhysFrame.number_containingAddress (w * 64 + b)
    refine .inr ⟨.containingAddress ((w * 64 + b) * pageSize),
      { used := Bitmap.put a.used (w * 64 + b) true, nextWord := w }, ?_, ?_, ?_, hw⟩
    · rw [allocFrame, he, ok_bind]
      dsimp only
      rw [a.setUsed_of_lt hlt, ok_bind, physAddr, if_pos haddr]
      rfl
    · rw [hnumber]
      exact mem_freeSet.mpr ⟨hlt, hf⟩
    · rw [hnumber]
      exact Bitmap.clear_put_true a.used (words_mul ▸ hlt)

end BitmapFrameAllocator

/-! ## 6. Sequences of operations -/

inductive Op
  | markFree (lo hi : Nat)
  | markUsed (lo hi : Nat)
  | allocate
  | deallocate (p : PhysFrame)

namespace BitmapFrameAllocator

variable (a : BitmapFrameAllocator)

/-- One operation; the state after it. -/
def apply : Op → Res BitmapFrameAllocator
  | .markFree lo hi => a.markFreeRange lo hi
  | .markUsed lo hi => a.markUsedRange lo hi
  | .allocate => Prod.snd <$> a.allocFrame
  | .deallocate p => a.freeFrame p

def runOps (a : BitmapFrameAllocator) (ops : List Op) : Res BitmapFrameAllocator :=
  ops.foldlM apply a

variable {a}

/-- No operation panics, and the scan hint stays a word of the bitmap. -/
theorem apply_nextWord (h : a.nextWord < words) (op : Op) :
    ∃ a', a.apply op = .ok a' ∧ a'.nextWord < words := by
  cases op with
  | markFree lo hi =>
    obtain ⟨a', he, -, hn⟩ := a.markFreeRange_spec lo hi
    exact ⟨a', he, hn ▸ h⟩
  | markUsed lo hi =>
    obtain ⟨a', he, -, hn⟩ := a.markUsedRange_spec lo hi
    exact ⟨a', he, hn ▸ h⟩
  | allocate =>
    rcases a.allocFrame_spec with ⟨-, he⟩ | ⟨p, a', he, -, -, hn⟩
    · exact ⟨a, by rw [apply, he]; rfl, h⟩
    · exact ⟨a', by rw [apply, he]; rfl, hn⟩
  | deallocate p =>
    obtain ⟨a', he, hn, -⟩ := a.freeFrame_spec p
    exact ⟨a', he, hn ▸ h⟩

theorem runOps_nextWord (h : a.nextWord < words) (ops : List Op) :
    ∃ a', a.runOps ops = .ok a' ∧ a'.nextWord < words := by
  induction ops generalizing a with
  | nil => exact ⟨a, rfl, h⟩
  | cons op ops ih =>
    obtain ⟨a₁, he, hn⟩ := apply_nextWord h op
    obtain ⟨a₂, hrun, hn₂⟩ := ih hn
    refine ⟨a₂, ?_, hn₂⟩
    rw [runOps, List.foldlM_cons, he]
    exact hrun

/-- The frames a nonempty byte range touches are those with a byte in it. -/
theorem mem_touching_byte {lo hi f : Nat} (h : lo < hi) :
    f ∈ touching lo hi ↔ f < numFrames ∧ ∃ x, lo ≤ x ∧ x < hi ∧ x / pageSize = f := by
  have hpos : 0 < pageSize := by decide
  rw [mem_touching]
  refine and_congr_right fun _ => ⟨fun hb => ?_, fun hx => ?_⟩
  · -- the first byte that is in both
    refine ⟨max lo (f * pageSize), Nat.le_max_left .., Nat.max_lt.mpr ⟨h, hb.1⟩, ?_⟩
    refine Nat.div_eq_of_lt_le (Nat.le_max_right ..) (Nat.max_lt.mpr ⟨hb.2, ?_⟩)
    exact Nat.mul_lt_mul_of_pos_right (Nat.lt_succ_self f) hpos
  · obtain ⟨x, hlo, hhi, rfl⟩ := hx
    exact ⟨Nat.lt_of_le_of_lt (Nat.div_mul_le_self x pageSize) hhi,
      Nat.lt_of_le_of_lt hlo (Nat.lt_mul_of_div_lt (Nat.lt_succ_self _) hpos)⟩

end BitmapFrameAllocator

/-! ## 7. Callers that free what they hold -/

open BitmapFrameAllocator Runs

inductive Request
  | allocate
  | deallocate (p : PhysFrame)

/-- One request; the callers' frames beside the allocator, and the answer. -/
def callerStep (s : BitmapFrameAllocator × List PhysFrame) :
    Request → Option ((BitmapFrameAllocator × List PhysFrame) × List (Option PhysFrame))
  | .allocate =>
    match s.1.allocFrame with
    | .ok (r, a') => some ((a', r.toList ++ s.2), [r])
    | .error _ => none
  | .deallocate p =>
    match s.1.freeFrame p with
    | .ok a' => some ((a', s.2.erase p), [])
    | .error _ => none

/-- Callers free only frames they hold. -/
def FreesHeld (s : BitmapFrameAllocator × List PhysFrame) : Request → Prop
  | .allocate => True
  | .deallocate p => p ∈ s.2

/-- The frames `held` are outstanding: distinct, the allocator's, and not free. -/
structure Outstanding (a : BitmapFrameAllocator) (held : List PhysFrame) : Prop where
  nodup : held.Nodup
  taken : ∀ p ∈ held, p.number < numFrames ∧ p.number ∉ a.freeSet

/-- A frame just handed out is not outstanding. -/
theorem Outstanding.not_held {a : BitmapFrameAllocator} {held : List PhysFrame}
    (h : Outstanding a held) {p : PhysFrame} (hp : p.number ∈ a.freeSet) : p ∉ held :=
  fun hmem => (h.taken p hmem).2 hp

theorem Outstanding.allocate {a a' : BitmapFrameAllocator} {held : List PhysFrame}
    (h : Outstanding a held) {p : PhysFrame} (hp : p.number ∈ a.freeSet)
    (hfree : a'.freeSet = a.freeSet.erase p.number) :
    Outstanding a' (p :: held) ∧
      a'.freeSet.card + (p :: held).length = a.freeSet.card + held.length := by
  refine ⟨⟨List.nodup_cons.mpr ⟨h.not_held hp, h.nodup⟩, ?_⟩, ?_⟩
  · rw [hfree]
    refine List.forall_mem_cons.mpr ⟨⟨(mem_freeSet.mp hp).1, Finset.notMem_erase _ _⟩, ?_⟩
    intro q hq
    exact ⟨(h.taken q hq).1, fun hmem => (h.taken q hq).2 (Finset.mem_of_mem_erase hmem)⟩
  · have hpos : 0 < a.freeSet.card := Finset.card_pos.mpr ⟨_, hp⟩
    rw [hfree, Finset.card_erase_of_mem hp, List.length_cons]
    omega

theorem Outstanding.deallocate {a a' : BitmapFrameAllocator} {held : List PhysFrame}
    (h : Outstanding a held) {p : PhysFrame} (hp : p ∈ held)
    (hfree : a'.freeSet = insert p.number a.freeSet) :
    Outstanding a' (held.erase p) ∧
      a'.freeSet.card + (held.erase p).length = a.freeSet.card + held.length := by
  refine ⟨⟨h.nodup.erase p, ?_⟩, ?_⟩
  · intro q hq
    obtain ⟨hne, hmem⟩ := (h.nodup.mem_erase_iff).mp hq
    have hnumber : q.number ≠ p.number := fun e => hne (PhysFrame.ext_number e)
    rw [hfree, Finset.mem_insert, not_or]
    exact ⟨(h.taken q hmem).1, hnumber, (h.taken q hmem).2⟩
  · have hlen : 0 < held.length := List.length_pos_of_mem hp
    rw [hfree, Finset.card_insert_of_notMem (h.taken p hp).2, List.length_erase_of_mem hp]
    omega

/-- One request of a caller that frees only what it holds. -/
theorem Outstanding.step {s s' : BitmapFrameAllocator × List PhysFrame} {r : Request}
    {es : List (Option PhysFrame)} (h : Outstanding s.1 s.2) (hok : FreesHeld s r)
    (hs : callerStep s r = some (s', es)) :
    Outstanding s'.1 s'.2 ∧
      s'.1.freeSet.card + s'.2.length = s.1.freeSet.card + s.2.length := by
  cases r with
  | allocate =>
    rcases s.1.allocFrame_spec with ⟨-, he⟩ | ⟨p, a', he, hp, hfree, -⟩
    · simp only [callerStep, he, Option.some.injEq, Prod.mk.injEq] at hs
      obtain ⟨rfl, -⟩ := hs
      exact ⟨h, rfl⟩
    · simp only [callerStep, he, Option.some.injEq, Prod.mk.injEq] at hs
      obtain ⟨rfl, -⟩ := hs
      exact h.allocate hp hfree
  | deallocate p =>
    obtain ⟨a', he, -, hfree, -⟩ := s.1.freeFrame_spec p
    simp only [callerStep, he, Option.some.injEq, Prod.mk.injEq] at hs
    obtain ⟨rfl, -⟩ := hs
    exact h.deallocate hok (hfree (h.taken p hok).1)

/-- **Callers that free only what they hold**: whatever they ask for, the frames outstanding stay
    distinct and off the free set, and free and outstanding frames together stay as many. -/
theorem Outstanding.run {a a' : BitmapFrameAllocator} {held held' : List PhysFrame}
    {es : List (Option PhysFrame)} (h : Outstanding a held)
    (hr : Run callerStep FreesHeld (a, held) es (a', held')) :
    Outstanding a' held' ∧ a'.freeSet.card + held'.length = a.freeSet.card + held.length := by
  refine hr.invariant (I := fun s => Outstanding s.1 s.2 ∧
    s.1.freeSet.card + s.2.length = a.freeSet.card + held.length) ⟨h, rfl⟩ ?_
  intro s r s' es' hI hok hs
  obtain ⟨hout, hcount⟩ := hI.1.step hok hs
  exact ⟨hout, hcount.trans hI.2⟩

/-! ## 8. The allocator refines the set of free frames -/

/-- **Every sequence of operations from `new`** runs without a panic to a state in which: the scan
    hint is a word of the bitmap; `free_count` is the size of the free set; marking a nonempty byte
    range adds or removes exactly the frames with a byte in it; `allocate_frame` answers `None`, and
    then changes nothing, iff no frame is free, and otherwise takes out exactly the frame whose
    address it returns; `deallocate_frame` adds exactly its frame if the bitmap describes it, and
    changes nothing otherwise. From there on, as long as callers free only what they hold, no frame
    is handed out that is outstanding, and free and outstanding frames stay as many. -/
theorem frame_allocator_refines (ops : List Op) :
    ∃ a, new.runOps ops = .ok a ∧ a.nextWord < words ∧ a.freeCount = .ok a.freeSet.card ∧
      (∀ lo hi, lo < hi → ∃ a', a.markFreeRange lo hi = .ok a' ∧ ∀ f, f ∈ a'.freeSet ↔
        f ∈ a.freeSet ∨ (f < numFrames ∧ ∃ x, lo ≤ x ∧ x < hi ∧ x / pageSize = f)) ∧
      (∀ lo hi, lo < hi → ∃ a', a.markUsedRange lo hi = .ok a' ∧ ∀ f, f ∈ a'.freeSet ↔
        f ∈ a.freeSet ∧ ¬ (f < numFrames ∧ ∃ x, lo ≤ x ∧ x < hi ∧ x / pageSize = f)) ∧
      (a.freeSet = ∅ → a.allocFrame = .ok (none, a)) ∧
      (a.freeSet ≠ ∅ → ∃ p a', a.allocFrame = .ok (some p, a') ∧
        p.start = p.number * pageSize ∧ p.number ∈ a.freeSet ∧
        a'.freeSet = a.freeSet.erase p.number) ∧
      (∀ p : PhysFrame, ∃ a', a.freeFrame p = .ok a' ∧
        (p.number < numFrames → a'.freeSet = insert p.number a.freeSet) ∧
        (numFrames ≤ p.number → a' = a)) ∧
      ∀ held held' es a', Outstanding a held →
        Run callerStep FreesHeld (a, held) es (a', held') →
        Outstanding a' held' ∧ a'.freeSet.card + held'.length = a.freeSet.card + held.length ∧
        ∀ p a'', a'.allocFrame = .ok (some p, a'') → p ∉ held' := by
  obtain ⟨a, hrun, hnext⟩ := runOps_nextWord (a := new) words_pos ops
  refine ⟨a, hrun, hnext, a.freeCount_spec, ?_, ?_, ?_, ?_, ?_, ?_⟩
  · intro lo hi hlt
    obtain ⟨a', he, hfree, -⟩ := a.markFreeRange_spec lo hi
    refine ⟨a', he, fun f => ?_⟩
    rw [hfree, Finset.mem_union, mem_touching_byte hlt]
  · intro lo hi hlt
    obtain ⟨a', he, hfree, -⟩ := a.markUsedRange_spec lo hi
    refine ⟨a', he, fun f => ?_⟩
    rw [hfree, Finset.mem_sdiff, mem_touching_byte hlt]
  · intro hempty
    rcases a.allocFrame_spec with ⟨-, he⟩ | ⟨p, -, -, hp, -⟩
    · exact he
    · rw [hempty] at hp
      exact absurd hp (Finset.notMem_empty _)
  · intro hne
    rcases a.allocFrame_spec with ⟨hempty, -⟩ | ⟨p, a', he, hp, hfree, -⟩
    · exact absurd hempty hne
    · exact ⟨p, a', he, p.start_eq, hp, hfree⟩
  · intro p
    obtain ⟨a', he, -, hin, hout⟩ := a.freeFrame_spec p
    exact ⟨a', he, hin, hout⟩
  · intro held held' es a' hout hr
    obtain ⟨hout', hcount⟩ := hout.run hr
    refine ⟨hout', hcount, fun p a'' he => ?_⟩
    rcases a'.allocFrame_spec with ⟨-, he'⟩ | ⟨q, b, he', hq, -⟩
    · cases he.symm.trans he'
    · cases he.symm.trans he'
      exact hout'.not_held hq

/-- The frame at 1 GiB, the first that the bitmap does not describe, is not added by
    `deallocate_frame`: the guard `idx < NUM_FRAMES` drops it. -/
theorem deallocate_beyond_bitmap :
    ∃ p : PhysFrame, p.start = 2 ^ 30 ∧ ∃ a', new.freeFrame p = .ok a' ∧
      a'.freeSet ≠ insert p.number new.freeSet := by
  refine ⟨⟨2 ^ 30, by decide⟩, rfl, ?_⟩
  obtain ⟨a', he, -, -, hout⟩ := new.freeFrame_spec ⟨2 ^ 30, by decide⟩
  have hbeyond : numFrames ≤ PhysFrame.number ⟨2 ^ 30, by decide⟩ := by
    rw [numFrames_eq]
    decide
  refine ⟨a', he, ?_⟩
  rw [hout hbeyond, freeSet_new]
  exact (Finset.insert_ne_empty _ _).symm

end SimpleLinux.Pmm
