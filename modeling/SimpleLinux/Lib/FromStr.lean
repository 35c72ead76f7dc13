/-
  File:      SimpleLinux/Lib/FromStr.lean
  Subject:   `from_str` of Rust's unsigned integers.

  An optional plus sign, then one or more ASCII digits, and no overflow. The maximum of the type is
  a parameter; a `str` is the list of its characters.

  * `readDigits` -- the digits, with checked arithmetic; `readDigits_eq_some`;
  * `fromStr` -- with the sign; `Numeral` -- a run of digits and its value; `fromStr_eq_some` --
    what is accepted, and as which number;
  * `numeral_toDigits` -- what `Display` prints is a numeral.
-/
import Mathlib.Data.List.Basic
import Mathlib.Tactic.Common

namespace Rust

/-- One more digit: `checked_mul(10)`, then `checked_add`. -/
def pushDigit (limit n : Nat) (c : Char) : Option Nat :=
  let next := 10 * n + (c.toNat - '0'.toNat)
  if c.isDigit = true ∧ next ≤ limit then some next else none

def readDigits (limit : Nat) (digits : List Char) : Option Nat := digits.foldlM (pushDigit limit) 0

def fromStr (limit : Nat) : List Char → Option Nat
  | [] => none
  | ['+'] => none
  | ['-'] => none
  | '+' :: digits => readDigits limit digits
  | digits => readDigits limit digits

/-- A non-empty run of decimal digits, and its value. -/
structure Numeral (text : List Char) (n : Nat) : Prop where
  nonempty : text ≠ []
  digits : ∀ c ∈ text, c.isDigit = true
  value : Nat.ofDigitChars 10 text 0 = n

theorem le_ofDigitChars (digits : List Char) (n : Nat) : n ≤ Nat.ofDigitChars 10 digits n := by
  rw [Nat.ofDigitChars_eq_ofDigitChars_zero]
  exact Nat.le_add_right_of_le (Nat.le_mul_of_pos_left n (Nat.pow_pos (by decide)))

/-- The loop, from any number that fits. -/
theorem foldlM_pushDigit {limit n v : Nat} {digits : List Char} (hn : n ≤ limit) :
    digits.foldlM (pushDigit limit) n = some v ↔
      (∀ c ∈ digits, c.isDigit = true) ∧ Nat.ofDigitChars 10 digits n = v ∧ v ≤ limit := by
  induction digits generalizing n with
  | nil =>
    rw [List.foldlM_nil, Nat.ofDigitChars_nil]
    constructor
    · intro h
      cases h
      exact ⟨List.forall_mem_nil _, rfl, hn⟩
    · intro ⟨_, hv, _⟩
      rw [hv]
      rfl
  | cons c digits ih =>
    rw [List.foldlM_cons, Nat.ofDigitChars_cons, List.forall_mem_cons, pushDigit]
    split
    · rename_i hnext
      rw [Option.bind_eq_bind, Option.bind_some, ih hnext.2]
      exact ⟨fun ⟨hall, hrest⟩ => ⟨⟨hnext.1, hall⟩, hrest⟩, fun ⟨hall, hrest⟩ => ⟨hall.2, hrest⟩⟩
    · rename_i hnext
      constructor
      · exact nofun
      · -- the number only grows, so a digit that does not fit cannot be made good
        intro ⟨hall, hv, hle⟩
        have hgrow := le_ofDigitChars digits (10 * n + (c.toNat - '0'.toNat))
        exact absurd ⟨hall.1, by omega⟩ hnext

theorem readDigits_eq_some {limit v : Nat} {digits : List Char} (h : digits ≠ []) :
    readDigits limit digits = some v ↔ Numeral digits v ∧ v ≤ limit := by
  rw [readDigits, foldlM_pushDigit (Nat.zero_le _)]
  constructor
  · intro ⟨hall, hv, hle⟩
    exact ⟨⟨h, hall, hv⟩, hle⟩
  · intro ⟨hnum, hle⟩
    exact ⟨hnum.digits, hnum.value, hle⟩

namespace Numeral

variable {text : List Char} {n : Nat}

/-- A character that is no digit is not in a numeral. -/
theorem notMem {c : Char} (h : Numeral text n) (hc : c.isDigit = false) : c ∉ text := by
  intro hmem
  rw [h.digits c hmem] at hc
  cases hc

theorem ne_plus (h : Numeral text n) (digits : List Char) : text ≠ '+' :: digits := by
  intro htext
  exact h.notMem (c := '+') (by decide) (htext ▸ List.mem_cons_self)

end Numeral

theorem fromStr_plus {limit v : Nat} (digits : List Char) :
    fromStr limit ('+' :: digits) = some v ↔ Numeral digits v ∧ v ≤ limit := by
  cases digits with
  | nil => exact ⟨nofun, fun h => absurd rfl h.1.nonempty⟩
  | cons c digits => exact readDigits_eq_some (List.cons_ne_nil c digits)

theorem fromStr_of_ne_plus {limit v : Nat} {s : List Char} (h : ∀ digits, s ≠ '+' :: digits) :
    fromStr limit s = some v ↔ Numeral s v ∧ v ≤ limit := by
  unfold fromStr
  split
  · exact ⟨nofun, fun hnum => absurd rfl hnum.1.nonempty⟩
  · exact absurd rfl (h [])
  · exact ⟨nofun, fun hnum => absurd List.mem_cons_self (hnum.1.notMem (c := '-') (by decide))⟩
  · exact absurd rfl (h _)
  · rename_i hne _ _ _
    exact readDigits_eq_some hne

/-- **What `from_str` accepts**: a numeral that fits the type, with or without a plus sign. -/
theorem fromStr_eq_some {limit v : Nat} {s : List Char} :
    fromStr limit s = some v ↔
      v ≤ limit ∧ ∃ digits, Numeral digits v ∧ (s = digits ∨ s = '+' :: digits) := by
  by_cases hplus : ∃ digits, s = '+' :: digits
  · obtain ⟨digits, rfl⟩ := hplus
    rw [fromStr_plus]
    constructor
    · intro ⟨hnum, hle⟩
      exact ⟨hle, digits, hnum, .inr rfl⟩
    · intro ⟨hle, digits', hnum, hs⟩
      rcases hs with hs | hs
      · exact absurd hs.symm (hnum.ne_plus digits)
      · cases hs
        exact ⟨hnum, hle⟩
  · have hne (digits : List Char) : s ≠ '+' :: digits := fun hs => hplus ⟨digits, hs⟩
    rw [fromStr_of_ne_plus hne]
    constructor
    · intro ⟨hnum, hle⟩
      exact ⟨hle, s, hnum, .inl rfl⟩
    · intro ⟨hle, digits, hnum, hs⟩
      rcases hs with rfl | hs
      · exact ⟨hnum, hle⟩
      · exact absurd hs (hne digits)

/-- What `Display` prints. -/
theorem numeral_toDigits (n : Nat) : Numeral (Nat.toDigits 10 n) n where
  nonempty := Nat.toDigits_ne_nil
  digits _ hc := Nat.isDigit_of_mem_toDigits (by decide) (by decide) hc
  value := Nat.ofDigitChars_toDigits (by decide) (by decide)

end Rust
