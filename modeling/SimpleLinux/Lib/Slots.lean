/-
  File:      SimpleLinux/Lib/Slots.lean
  Subject:   Tables of stable slots.

  A table is a `List (Option α)`: an entry keeps its index for as long as it lives, a freed entry
  leaves a hole, and a new entry takes the first hole or is pushed at the end. `get` reads one
  entry; every operation below is described by what `get` and `length` answer after it.

  * `insert`, `hole` -- the first hole (or the end) takes the new entry, nothing else moves;
  * `update`, `clear`, `mapAll` -- one entry changed, one entry freed, every entry changed;
  * `firstFrom` -- the circular scan from a cursor, and what it skips (`firstFrom_eq_some`,
    `firstFrom_eq_none`);
  * `Visited` -- a run of such scans answers nobody twice while somebody waits;
  * `occupied` -- how many entries there are; the table grows only when it is full
    (`length_insert`);
  * `total` -- what the entries sum up to.
-/
import Mathlib.Algebra.GroupWithZero.Nat
import Mathlib.Data.List.Basic
import Mathlib.Data.List.Perm.Subperm
import Mathlib.Tactic.Common

namespace Slots

variable {α : Type}

/-- The entry at index `i`, if the index is in range and occupied. -/
def get (l : List (Option α)) (i : Nat) : Option α := (l[i]?).join

/-- The index a new entry goes to: the first hole, or the end of the table. -/
def hole (l : List (Option α)) : Nat := l.findIdx Option.isNone

/-- A new entry: into the first hole, or pushed at the end. -/
def insert (l : List (Option α)) (a : α) : List (Option α) :=
  match l.findIdx? Option.isNone with
  | some i => l.set i (some a)
  | none => l ++ [some a]

/-- The entry at `i`, if there is one, changed by `f`. -/
def update (l : List (Option α)) (i : Nat) (f : α → α) : List (Option α) :=
  l.modify i (Option.map f)

/-- The entry at `i` freed. -/
def clear (l : List (Option α)) (i : Nat) : List (Option α) := l.set i none

/-- Every entry changed by `f`. -/
def mapAll (l : List (Option α)) (f : α → α) : List (Option α) := l.map (Option.map f)

theorem get_eq_some_iff {l : List (Option α)} {i : Nat} {a : α} :
    get l i = some a ↔ l[i]? = some (some a) := by
  simp [get, Option.join_eq_some_iff]

theorem lt_of_get {l : List (Option α)} {i : Nat} {a : α} (h : get l i = some a) :
    i < l.length := by
  rw [get_eq_some_iff] at h
  exact (List.getElem?_eq_some_iff.mp h).1

/-! ## 1. Changing and freeing entries -/

@[simp] theorem get_update (l : List (Option α)) (i j : Nat) (f : α → α) :
    get (update l i f) j = if i = j then (get l j).map f else get l j := by
  unfold get update
  rw [List.getElem?_modify]
  by_cases h : i = j
  · simp only [h, if_true]
    cases l[j]? with
    | none => rfl
    | some o => rfl
  · simp only [h, if_false]
    cases l[j]? with
    | none => rfl
    | some o => rfl

@[simp] theorem get_clear (l : List (Option α)) (i j : Nat) :
    get (clear l i) j = if i = j then none else get l j := by
  unfold get clear
  rw [List.getElem?_set]
  by_cases h : i = j
  · subst h
    by_cases hi : i < l.length <;> simp [hi]
  · simp [h]

@[simp] theorem get_mapAll (l : List (Option α)) (j : Nat) (f : α → α) :
    get (mapAll l f) j = (get l j).map f := by
  unfold get mapAll
  rw [List.getElem?_map]
  cases l[j]? with
  | none => rfl
  | some o => rfl

@[simp] theorem length_update (l : List (Option α)) (i : Nat) (f : α → α) :
    (update l i f).length = l.length := by simp [update]

@[simp] theorem length_clear (l : List (Option α)) (i : Nat) :
    (clear l i).length = l.length := by simp [clear]

@[simp] theorem length_mapAll (l : List (Option α)) (f : α → α) :
    (mapAll l f).length = l.length := by simp [mapAll]

/-! ## 2. A new entry -/

theorem hole_le (l : List (Option α)) : hole l ≤ l.length := List.findIdx_le_length

/-- The index of the new entry was free. -/
theorem get_hole (l : List (Option α)) : get l (hole l) = none := by
  unfold get hole
  by_cases h : l.findIdx Option.isNone < l.length
  · rw [List.getElem?_eq_getElem h]
    have := List.findIdx_getElem (w := h)
    simpa using this
  · rw [List.getElem?_eq_none (by omega)]
    rfl

/-- Every index before the hole is occupied. -/
theorem get_ne_none_of_lt_hole {l : List (Option α)} {k : Nat} (h : k < hole l) :
    get l k ≠ none := by
  have hlt : k < l.length := Nat.lt_of_lt_of_le h (hole_le l)
  have hsome := List.not_of_lt_findIdx h
  unfold get
  rw [List.getElem?_eq_getElem hlt]
  intro hnone
  have hfree : l[k] = none := hnone
  rw [hfree] at hsome
  cases hsome

/-- The hole depends only on which entries there are. -/
theorem hole_congr {l l' : List (Option α)}
    (h : ∀ j, get l j = none ↔ get l' j = none) : hole l = hole l' := by
  rcases Nat.lt_trichotomy (hole l) (hole l') with hlt | heq | hgt
  · exact absurd ((h _).mp (get_hole l)) (get_ne_none_of_lt_hole hlt)
  · exact heq
  · exact absurd ((h _).mpr (get_hole l')) (get_ne_none_of_lt_hole hgt)

theorem insert_eq_set {l : List (Option α)} {a : α} (h : hole l < l.length) :
    insert l a = l.set (hole l) (some a) := by
  unfold insert
  rw [List.findIdx?_eq_some_iff_findIdx_eq.mpr ⟨h, rfl⟩]

theorem insert_eq_push {l : List (Option α)} {a : α} (h : hole l = l.length) :
    insert l a = l ++ [some a] := by
  unfold insert
  have hn : l.findIdx? Option.isNone = none := by
    rw [List.findIdx?_eq_none_iff_findIdx_eq]
    exact h
  rw [hn]

/-- **The new entry sits at `hole l`, every other entry is where it was.** -/
@[simp] theorem get_insert (l : List (Option α)) (a : α) (j : Nat) :
    get (insert l a) j = if j = hole l then some a else get l j := by
  rcases Nat.lt_or_ge (hole l) l.length with h | h
  · rw [insert_eq_set h]
    unfold get
    rw [List.getElem?_set]
    by_cases hj : hole l = j
    · subst hj; simp [h]
    · rw [if_neg hj, if_neg (fun e => hj e.symm)]
  · have he : hole l = l.length := Nat.le_antisymm (hole_le l) h
    rw [insert_eq_push he]
    unfold get
    by_cases hj : j = hole l
    · rw [if_pos hj, hj, he]; simp
    · rw [if_neg hj]
      rcases Nat.lt_or_ge j l.length with hlt | hge
      · rw [List.getElem?_append_left hlt]
      · rw [List.getElem?_eq_none (by simp; omega), List.getElem?_eq_none hge]

theorem length_le_insert (l : List (Option α)) (a : α) : l.length ≤ (insert l a).length := by
  unfold insert
  split <;> simp

/-! ## 3. The circular scan -/

/-- The first index at or after `cursor`, wrapping around, whose entry passes `p`. -/
def firstFrom (l : List (Option α)) (cursor : Nat) (p : α → Bool) : Option Nat :=
  (List.range l.length).findSome? fun i =>
    let idx := (cursor + i) % l.length
    if (get l idx).any p then some idx else none

/-- What the scan has skipped when it answers `idx`: the entries from the cursor up to `idx`, or,
    after the wrap, everything from the cursor to the end and everything below `idx`. -/
def Skipped (l : List (Option α)) (cursor : Nat) (p : α → Bool) (idx : Nat) : Prop :=
  (cursor ≤ idx ∧ ∀ k, cursor ≤ k → k < idx → (get l k).any p = false) ∨
  (idx < cursor ∧ (∀ k, cursor ≤ k → (get l k).any p = false) ∧
    ∀ k, k < idx → (get l k).any p = false)

theorem get_none_of_le {l : List (Option α)} {k : Nat} (h : l.length ≤ k) : get l k = none := by
  unfold get
  rw [List.getElem?_eq_none h]
  rfl

/-- **What the scan answers**: an entry that passes, and none it skipped does. -/
theorem firstFrom_eq_some {l : List (Option α)} {cursor : Nat} {p : α → Bool} {idx : Nat}
    (hc : cursor ≤ l.length) (h : firstFrom l cursor p = some idx) :
    (get l idx).any p = true ∧ Skipped l cursor p idx := by
  unfold firstFrom at h
  rw [List.findSome?_eq_some_iff] at h
  obtain ⟨l₁, i, l₂, hr, hi, hskip⟩ := h
  simp only [Option.ite_none_right_eq_some, Option.some.injEq] at hi
  obtain ⟨hp, rfl⟩ := hi
  refine ⟨hp, ?_⟩
  -- the scan reached offset `i`; every smaller offset was looked at and refused
  have hil : i = l₁.length := by
    have h1 : (List.range l.length)[l₁.length]? = some i := by rw [hr]; simp
    have h2 := List.getElem?_eq_some_iff.mp h1
    obtain ⟨hlt, he⟩ := h2
    simp at he
    exact he.symm
  have hin : i < l.length := by
    have : i ∈ List.range l.length := by rw [hr]; simp
    exact List.mem_range.mp this
  have hbefore : ∀ k, k < i → (get l ((cursor + k) % l.length)).any p = false := by
    intro k hk
    have hk1 : (List.range l.length)[k]? = some k := by
      rw [List.getElem?_range (by omega)]
    have hk2 : l₁[k]? = some k := by
      rw [hr, List.getElem?_append_left (by omega)] at hk1
      exact hk1
    have := hskip k (List.mem_of_getElem? hk2)
    simpa using this
  rcases Nat.lt_or_ge (cursor + i) l.length with hlt | hge
  · left
    rw [Nat.mod_eq_of_lt hlt]
    refine ⟨Nat.le_add_right _ _, fun k hk1 hk2 => ?_⟩
    have := hbefore (k - cursor) (by omega)
    rwa [show cursor + (k - cursor) = k by omega, Nat.mod_eq_of_lt (by omega)] at this
  · have hmod : (cursor + i) % l.length = cursor + i - l.length := by
      rw [Nat.mod_eq_sub_mod hge, Nat.mod_eq_of_lt (by omega)]
    rw [hmod]
    right
    refine ⟨by omega, fun k hk => ?_, fun k hk => ?_⟩
    · rcases Nat.lt_or_ge k l.length with hkl | hkl
      · have := hbefore (k - cursor) (by omega)
        rwa [show cursor + (k - cursor) = k by omega, Nat.mod_eq_of_lt hkl] at this
      · rw [get_none_of_le hkl]; rfl
    · have := hbefore (k + l.length - cursor) (by omega)
      rwa [show cursor + (k + l.length - cursor) = k + l.length by omega,
        Nat.add_mod_right, Nat.mod_eq_of_lt (by omega)] at this

/-- **When the scan answers nothing**, no entry of the table passes. -/
theorem firstFrom_eq_none {l : List (Option α)} {cursor : Nat} {p : α → Bool}
    (hc : cursor ≤ l.length) :
    firstFrom l cursor p = none ↔ ∀ k, (get l k).any p = false := by
  unfold firstFrom
  rw [List.findSome?_eq_none_iff]
  constructor
  · intro h k
    rcases Nat.lt_or_ge k l.length with hk | hk
    · -- the offset at which the scan looks at `k`
      rcases Nat.lt_or_ge k cursor with hkc | hkc
      · have := h (k + l.length - cursor) (List.mem_range.mpr (by omega))
        rw [show cursor + (k + l.length - cursor) = k + l.length by omega,
          Nat.add_mod_right, Nat.mod_eq_of_lt hk] at this
        simpa using this
      · have := h (k - cursor) (List.mem_range.mpr (by omega))
        rw [show cursor + (k - cursor) = k by omega, Nat.mod_eq_of_lt hk] at this
        simpa using this
    · rw [get_none_of_le hk]; rfl
  · intro h i _
    simp [h]

/-! ## 4. Nobody is visited twice while somebody waits

  A run of scans, each started one past the last answer, while index `j` passes all the time and
  is never answered: the answers rise from the cursor to the end of the table, wrap once, and rise
  towards `j`. The table may grow meanwhile: new indices lie beyond every old one. -/

/-- The answers `ds` so far lie behind the cursor, seen from `j`. -/
structure Visited (j cursor : Nat) (ds : List Nat) : Prop where
  nodup : ds.Nodup
  behind : ∀ d ∈ ds, if cursor ≤ j then d < cursor ∨ j < d else j < d ∧ d < cursor

theorem visited_nil (j cursor : Nat) : Visited j cursor [] := ⟨List.nodup_nil, by simp⟩

/-- **One more answer** that skips nobody who passes, `j` included, is a new one. -/
theorem Visited.visit {l : List (Option α)} {p : α → Bool} {j cursor idx : Nat} {ds : List Nat}
    (h : Visited j cursor ds) (hj : (get l j).any p = true) (hne : idx ≠ j)
    (hs : Skipped l cursor p idx) : Visited j (idx + 1) (ds ++ [idx]) := by
  have skipped : ∀ {P : Prop}, (get l j).any p = false → P := fun h' => by rw [hj] at h'; cases h'
  -- either the answer lies in front of `j`, or the scan has not yet come round to `j`
  have hcases : (cursor ≤ j → cursor ≤ idx ∧ idx < j) ∧
      (j < cursor → cursor ≤ idx ∨ idx < j) := by
    rcases hs with ⟨h1, h2⟩ | ⟨h1, h2, h3⟩
    · refine ⟨fun hc => ⟨h1, ?_⟩, fun _ => Or.inl h1⟩
      by_contra hlt
      exact skipped (h2 j hc (by omega))
    · refine ⟨fun hc => skipped (h2 j hc), fun _ => Or.inr ?_⟩
      by_contra hlt
      exact skipped (h3 j (by omega))
  have hnew : idx ∉ ds := by
    intro hm
    have hb := h.behind idx hm
    split at hb <;> omega
  constructor
  · rw [List.nodup_append]
    exact ⟨h.nodup, by simp, fun a ha b hb => by
      rw [List.mem_singleton] at hb
      subst hb
      exact fun e => hnew (e ▸ ha)⟩
  · intro d hd
    rcases List.mem_append.mp hd with hd | hd
    · have hb := h.behind d hd
      split at hb <;> split <;> omega
    · rw [List.mem_singleton] at hd
      subst hd
      split <;> omega

/-- Distinct indices of a table that leave out one of it are fewer than its length. -/
theorem length_lt_of_avoids {ds : List Nat} {j n : Nat} (hnd : ds.Nodup) (hj : j ∉ ds)
    (hjn : j < n) (hlt : ∀ d ∈ ds, d < n) : ds.length < n := by
  have hsub : (j :: ds) ⊆ List.range n := by
    intro d hd
    rw [List.mem_range]
    rcases List.mem_cons.mp hd with rfl | hd
    · exact hjn
    · exact hlt d hd
  have hle := ((List.nodup_cons.mpr ⟨hj, hnd⟩).subperm hsub).length_le
  rw [List.length_cons, List.length_range] at hle
  exact hle

/-! ## 5. How many entries there are -/

/-- The number of occupied indices. -/
def occupied (l : List (Option α)) : Nat := l.countP Option.isSome

theorem occupied_le_length (l : List (Option α)) : occupied l ≤ l.length := List.countP_le_length

/-- Only which indices are occupied matters. -/
theorem occupied_congr {l l' : List (Option α)} (hlen : l'.length = l.length)
    (h : ∀ j, (get l' j).isSome = (get l j).isSome) : occupied l' = occupied l := by
  have hmap : l'.map Option.isSome = l.map Option.isSome := by
    refine List.ext_getElem (by rw [List.length_map, List.length_map, hlen]) fun j hj hj' => ?_
    rw [List.length_map] at hj hj'
    have hget := h j
    unfold get at hget
    rw [List.getElem?_eq_getElem hj, List.getElem?_eq_getElem hj'] at hget
    rw [List.getElem_map, List.getElem_map]
    exact hget
  have hcount := congrArg (List.countP id) hmap
  rwa [List.countP_map, List.countP_map] at hcount

/-- A table without holes is full. -/
theorem occupied_eq_length {l : List (Option α)} (h : hole l = l.length) :
    occupied l = l.length := by
  rw [occupied, List.countP_eq_length]
  intro o ho
  obtain ⟨k, hk, rfl⟩ := List.getElem_of_mem ho
  have hsome := get_ne_none_of_lt_hole (l := l) (k := k) (by rw [h]; exact hk)
  unfold get at hsome
  rw [List.getElem?_eq_getElem hk] at hsome
  exact Option.isSome_iff_ne_none.mpr hsome

/-- A hole is not counted. -/
theorem occupied_lt_length {l : List (Option α)} (h : hole l < l.length) :
    occupied l < l.length := by
  refine Nat.lt_of_le_of_ne (occupied_le_length l) fun he => ?_
  rw [occupied, List.countP_eq_length] at he
  have hsome := he _ (List.getElem_mem h)
  have hnone : Option.isNone l[hole l] = true := List.findIdx_getElem (w := h)
  rw [Option.isNone_iff_eq_none] at hnone
  rw [hnone] at hsome
  cases hsome

theorem occupied_insert (l : List (Option α)) (a : α) : occupied (insert l a) = occupied l + 1 := by
  rcases Nat.lt_or_ge (hole l) l.length with h | h
  · have hnone : Option.isNone l[hole l] = true := List.findIdx_getElem (w := h)
    rw [Option.isNone_iff_eq_none] at hnone
    rw [insert_eq_set h, occupied, List.countP_set h, hnone]
    rfl
  · rw [insert_eq_push (Nat.le_antisymm (hole_le l) h), occupied, List.countP_append]
    rfl

/-- **The table grows only when it is full.** -/
theorem length_insert (l : List (Option α)) (a : α) :
    (insert l a).length = max l.length (occupied l + 1) := by
  rcases Nat.lt_or_ge (hole l) l.length with h | h
  · have hlt := occupied_lt_length h
    rw [insert_eq_set h, List.length_set]
    omega
  · have he := Nat.le_antisymm (hole_le l) h
    rw [insert_eq_push he, occupied_eq_length he, List.length_append, List.length_singleton]
    omega

/-- A freed entry is one less. -/
theorem occupied_clear {l : List (Option α)} {i : Nat} {a : α} (h : get l i = some a) :
    occupied (clear l i) + 1 = occupied l := by
  have hi := lt_of_get h
  have ha := get_eq_some_iff.mp h
  rw [List.getElem?_eq_getElem hi, Option.some.injEq] at ha
  have hpos : 0 < l.countP Option.isSome :=
    List.countP_pos_iff.mpr ⟨l[i], List.getElem_mem hi, by rw [ha]; rfl⟩
  rw [clear, occupied, occupied, List.countP_set hi, ha]
  exact Nat.sub_add_cancel hpos

/-! ## 6. What the entries sum up to -/

/-- The sum of `f` over the entries. -/
def total (f : α → Nat) (l : List (Option α)) : Nat := (l.map fun o => o.elim 0 f).sum

theorem total_set (f : α → Nat) {l : List (Option α)} {i : Nat} {o : Option α} (o' : Option α)
    (h : l[i]? = some o) :
    total f (l.set i o') + o.elim 0 f = total f l + o'.elim 0 f := by
  induction l generalizing i with
  | nil => simp at h
  | cons a l ih =>
    cases i with
    | zero =>
      cases h
      simp only [List.set_cons_zero, total, List.map_cons, List.sum_cons]
      omega
    | succ i =>
      have hl := ih h
      simp only [List.set_cons_succ, total, List.map_cons, List.sum_cons] at hl ⊢
      omega

theorem total_update (f : α → Nat) {l : List (Option α)} {i : Nat} {a : α} (g : α → α)
    (h : get l i = some a) : total f (update l i g) + f a = total f l + f (g a) := by
  have hi := get_eq_some_iff.mp h
  rw [update, List.modify_eq_set_getElem?, hi]
  exact total_set f (some (g a)) hi

theorem total_clear (f : α → Nat) {l : List (Option α)} {i : Nat} {a : α} (h : get l i = some a) :
    total f (clear l i) + f a = total f l :=
  total_set f none (get_eq_some_iff.mp h)

theorem total_insert (f : α → Nat) (l : List (Option α)) (a : α) :
    total f (insert l a) = total f l + f a := by
  rcases Nat.lt_or_eq_of_le (hole_le l) with h | h
  · have hnone : l[hole l]? = some none := by
      have hg := get_hole l
      rw [get, List.getElem?_eq_getElem h] at hg
      rw [List.getElem?_eq_getElem h]
      exact congrArg some hg
    rw [insert_eq_set h]
    exact total_set f (some a) hnone
  · rw [insert_eq_push h]
    simp [total]

end Slots
