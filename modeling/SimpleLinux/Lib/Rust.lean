/-
  File:      SimpleLinux/Lib/Rust.lean
  Subject:   Checked operations of Rust: what panics, and when.

  A computation that may panic is an `Except Panic`. Each checked operation has one lemma that says
  when it succeeds and with what; callers cite it and never unfold the operation.
-/
import Mathlib.Algebra.GroupWithZero.Nat
import Mathlib.Data.List.Basic
import Mathlib.Tactic.Common

namespace Rust

inductive Panic
  /-- index out of bounds -/
  | bounds
  /-- slice range inverted or past the end -/
  | range
  /-- arithmetic overflow, in the profiles that check it -/
  | overflow
  /-- a constructor of a dependency refused its argument -/
  | invalid
  deriving DecidableEq, Repr

abbrev Res (α : Type) := Except Panic α

@[simp] theorem ok_bind {α β : Type} (a : α) (f : α → Res β) : (Except.ok a >>= f) = f a := rfl

/-- A bind that succeeds: both parts do. -/
theorem bind_eq_ok {ε α β : Type} {x : Except ε α} {f : α → Except ε β} {b : β} :
    (x >>= f) = .ok b ↔ ∃ a, x = .ok a ∧ f a = .ok b := by
  rcases x with e | a
  · simp [bind, Except.bind]
  · simp [bind, Except.bind]

/-- `v[i]` on an array. -/
def index {α : Type} {n : Nat} (v : Vector α n) (i : Nat) : Res α :=
  if h : i < n then .ok v[i] else .error .bounds

theorem index_of_lt {α : Type} {n : Nat} (v : Vector α n) {i : Nat} (h : i < n) :
    index v i = .ok v[i] := dif_pos h

/-- `v[i] = x` on an array. -/
def assign {α : Type} {n : Nat} (v : Vector α n) (i : Nat) (x : α) : Res (Vector α n) :=
  if h : i < n then .ok (v.set i x h) else .error .bounds

theorem assign_of_lt {α : Type} {n : Nat} (v : Vector α n) {i : Nat} (x : α) (h : i < n) :
    assign v i x = .ok (v.set i x h) := dif_pos h

section Slices

variable {α : Type}

/-- `xs[i]` on a slice. -/
def get (xs : List α) (i : Nat) : Res α :=
  match xs[i]? with
  | some x => .ok x
  | none => .error .bounds

theorem get_eq_ok {xs : List α} {i : Nat} {x : α} : get xs i = .ok x ↔ xs[i]? = some x := by
  unfold get
  rcases xs[i]? with - | y
  · simp
  · simp

theorem get_of_lt (d : α) {xs : List α} {i : Nat} (h : i < xs.length) :
    get xs i = .ok (xs.getD i d) := by
  unfold get
  rw [List.getD_eq_getElem?_getD, List.getElem?_eq_getElem h, Option.getD_some]

/-- `xs[i] = x` on a slice. -/
def set (xs : List α) (i : Nat) (x : α) : Res (List α) :=
  if i < xs.length then .ok (xs.set i x) else .error .bounds

/-- `&xs[lo..hi]`. -/
def slice (xs : List α) (lo hi : Nat) : Res (List α) :=
  if lo ≤ hi ∧ hi ≤ xs.length then .ok ((xs.take hi).drop lo) else .error .range

theorem slice_of_le {xs : List α} {lo hi : Nat} (h : lo ≤ hi) (hx : hi ≤ xs.length) :
    slice xs lo hi = .ok ((xs.take hi).drop lo) := if_pos ⟨h, hx⟩

theorem slice_eq_ok {xs ys : List α} {lo hi : Nat} :
    slice xs lo hi = .ok ys ↔ lo ≤ hi ∧ hi ≤ xs.length ∧ ys = (xs.take hi).drop lo := by
  unfold slice
  split
  · simp [*, eq_comm]
  · rename_i h
    constructor
    · intro he
      cases he
    · rintro ⟨hle, hx, -⟩
      exact absurd ⟨hle, hx⟩ h

/-- The part between two others. -/
theorem slice_mid (front mid back : List α) {xs : List α} {lo hi : Nat}
    (hx : xs = front ++ mid ++ back) (hlo : lo = front.length)
    (hhi : hi = front.length + mid.length) : slice xs lo hi = .ok mid := by
  have hle : hi ≤ xs.length := by
    rw [hx, List.length_append, List.length_append]
    omega
  rw [slice_of_le (by omega) hle, hx, hhi, hlo, List.take_left' (List.length_append ..),
    List.drop_left]

theorem slice_inverted {xs : List α} {lo hi : Nat} (h : hi < lo) :
    slice xs lo hi = .error .range := if_neg fun hle => Nat.not_le.mpr h hle.1

/-- `xs[lo..lo + ys.len()].copy_from_slice(&ys)`. -/
def copyFrom (xs : List α) (lo : Nat) (ys : List α) : Res (List α) :=
  if lo + ys.length ≤ xs.length then .ok (xs.take lo ++ ys ++ xs.drop (lo + ys.length))
  else .error .range

theorem copyFrom_of_le {xs ys : List α} {lo : Nat} (h : lo + ys.length ≤ xs.length) :
    copyFrom xs lo ys = .ok (xs.take lo ++ ys ++ xs.drop (lo + ys.length)) := if_pos h

/-- The part between two others is replaced. -/
theorem copyFrom_mid (front mid back : List α) {xs ys : List α} {lo : Nat}
    (hx : xs = front ++ mid ++ back) (hlo : lo = front.length) (hlen : ys.length = mid.length) :
    copyFrom xs lo ys = .ok (front ++ ys ++ back) := by
  have hfit : lo + ys.length ≤ xs.length := by
    rw [hx, List.length_append, List.length_append]
    omega
  have htake : (front ++ mid ++ back).take front.length = front := by
    rw [List.append_assoc, List.take_left]
  rw [copyFrom_of_le hfit, hx, hlo, hlen, ← List.length_append, List.drop_left, htake]

/-- A loop none of whose steps panics does not panic. -/
theorem foldlM_ok {σ : Type} (f : σ → α → Res σ) (h : ∀ s a, ∃ s', f s a = .ok s') (s : σ)
    (xs : List α) : ∃ s', xs.foldlM f s = .ok s' := by
  induction xs generalizing s with
  | nil => exact ⟨s, rfl⟩
  | cons x xs ih =>
    obtain ⟨s₁, h₁⟩ := h s x
    obtain ⟨s₂, h₂⟩ := ih s₁
    refine ⟨s₂, ?_⟩
    rw [List.foldlM_cons, h₁]
    exact h₂

end Slices

/-- `a + b` at `w` bits. -/
def add (w a b : Nat) : Res Nat := if a + b < 2 ^ w then .ok (a + b) else .error .overflow

theorem add_of_lt {w a b : Nat} (h : a + b < 2 ^ w) : add w a b = .ok (a + b) := if_pos h

theorem add_eq_ok {w a b c : Nat} : add w a b = .ok c ↔ a + b < 2 ^ w ∧ c = a + b := by
  unfold add
  split
  · simp [*, eq_comm]
  · simp [*]

/-- `a * b` at `w` bits. -/
def mul (w a b : Nat) : Res Nat := if a * b < 2 ^ w then .ok (a * b) else .error .overflow

theorem mul_of_lt {w a b : Nat} (h : a * b < 2 ^ w) : mul w a b = .ok (a * b) := if_pos h

/-- `a - b` on an unsigned type. -/
def sub (a b : Nat) : Res Nat := if b ≤ a then .ok (a - b) else .error .overflow

theorem sub_of_le {a b : Nat} (h : b ≤ a) : sub a b = .ok (a - b) := if_pos h

/-- `a.div_ceil(b)`. -/
def divCeil (a b : Nat) : Nat := if 0 < a % b then a / b + 1 else a / b

theorem lt_divCeil {a b f : Nat} (hb : 0 < b) : f < divCeil a b ↔ f * b < a := by
  unfold divCeil
  split
  · rename_i hr
    have hne : f * b ≠ a := fun h => by
      rw [← h, Nat.mul_mod_left] at hr
      exact absurd hr (Nat.lt_irrefl 0)
    rw [Nat.lt_add_one_iff, Nat.le_div_iff_mul_le hb]
    omega
  · rename_i hr
    have ha : a / b * b = a := Nat.div_mul_cancel (Nat.dvd_of_mod_eq_zero (by omega))
    constructor
    · intro h
      rw [← ha]
      exact Nat.mul_lt_mul_of_pos_right h hb
    · intro h
      rw [← ha] at h
      exact Nat.lt_of_mul_lt_mul_right h

end Rust
