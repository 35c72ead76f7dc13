/-
  File:      SimpleLinux/Lib/Utf8.lean
  Subject:   UTF-8: validation, and decoding with replacement.

  * `scan` -- the sequence a text starts with: complete, or the bytes that a decoder gives up on
    (the longest beginning of a sequence);
  * `valid`, `fromUtf8` -- every sequence is complete; `lossy` -- each that is not becomes U+FFFD;
  * `lossy_of_valid` -- a valid text is decoded to itself; `valid_ascii` -- ASCII is valid.
-/
import Mathlib.Data.List.Basic
import Mathlib.Tactic.Common

namespace Utf8

abbrev Bytes := List (BitVec 8)

/-- The length that the first byte announces; 0 if no sequence starts with it. -/
def width (a : BitVec 8) : Nat :=
  if a.toNat < 0x80 then 1
  else if 0xc2 ≤ a.toNat ∧ a.toNat ≤ 0xdf then 2
  else if 0xe0 ≤ a.toNat ∧ a.toNat ≤ 0xef then 3
  else if 0xf0 ≤ a.toNat ∧ a.toNat ≤ 0xf4 then 4
  else 0

/-- A continuation byte. -/
def tail (b : BitVec 8) : Bool := 0x80 ≤ b.toNat ∧ b.toNat ≤ 0xbf

/-- The second byte: no overlong form, no surrogate, nothing beyond U+10FFFF. -/
def second (a b : BitVec 8) : Bool :=
  if a = 0xe0#8 then 0xa0 ≤ b.toNat ∧ b.toNat ≤ 0xbf
  else if a = 0xed#8 then 0x80 ≤ b.toNat ∧ b.toNat ≤ 0x9f
  else if a = 0xf0#8 then 0x90 ≤ b.toNat ∧ b.toNat ≤ 0xbf
  else if a = 0xf4#8 then 0x80 ≤ b.toNat ∧ b.toNat ≤ 0x8f
  else tail b

/-- Whether the text goes on with a complete sequence after its first byte `a`, and how many bytes
    that is; if not, how many bytes are given up. -/
def scan (a : BitVec 8) (rest : Bytes) : Bool × Nat :=
  match width a, rest with
  | 0, _ => (false, 1)
  | 1, _ => (true, 1)
  | _ + 2, [] => (false, 1)
  | w + 2, b :: more =>
    if second a b then
      let found := ((more.take w).takeWhile tail).length
      (found = w, found + 2)
    else (false, 1)

/-- U+FFFD. -/
def replacement : Bytes := [0xef#8, 0xbf#8, 0xbd#8]

/-- One sequence after the other; every turn takes a byte at least. -/
def lossyFrom : Nat → Bytes → Bytes
  | fuel + 1, a :: rest =>
    let (complete, n) := scan a rest
    (if complete then (a :: rest).take n else replacement) ++ lossyFrom fuel ((a :: rest).drop n)
  | _, _ => []

/-- `String::from_utf8_lossy`. -/
def lossy (text : Bytes) : Bytes := lossyFrom text.length text

def validFrom : Nat → Bytes → Bool
  | fuel + 1, a :: rest => (scan a rest).1 && validFrom fuel ((a :: rest).drop (scan a rest).2)
  | 0, _ :: _ => false
  | _, [] => true

def valid (text : Bytes) : Bool := validFrom text.length text

/-- `String::from_utf8`. -/
def fromUtf8 (text : Bytes) : Option Bytes := if valid text then some text else none

theorem lossyFrom_of_valid {fuel : Nat} {text : Bytes} (h : validFrom fuel text = true) :
    lossyFrom fuel text = text := by
  induction fuel generalizing text with
  | zero =>
    rcases text with - | ⟨a, rest⟩
    · rfl
    · cases h
  | succ fuel ih =>
    rcases text with - | ⟨a, rest⟩
    · rfl
    · obtain ⟨hcomplete, hrest⟩ := Bool.and_eq_true_iff.mp h
      rw [lossyFrom]
      dsimp only
      rw [if_pos hcomplete, ih hrest, List.take_append_drop]

/-- **A valid text is decoded to itself.** -/
theorem lossy_of_valid {text : Bytes} (h : valid text = true) : lossy text = text :=
  lossyFrom_of_valid h

theorem scan_ascii {a : BitVec 8} (h : a.toNat < 0x80) (rest : Bytes) :
    scan a rest = (true, 1) := by
  have hwidth : width a = 1 := if_pos h
  unfold scan
  rw [hwidth]

theorem valid_ascii {text : Bytes} (h : ∀ b ∈ text, b.toNat < 0x80) : valid text = true := by
  unfold valid
  induction text with
  | nil => rfl
  | cons a rest ih =>
    rw [List.length_cons, validFrom, scan_ascii (h a List.mem_cons_self)]
    exact ih fun b hb => h b (List.mem_cons_of_mem a hb)

end Utf8
