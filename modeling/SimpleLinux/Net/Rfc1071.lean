/-
  File:      SimpleLinux/Net/Rfc1071.lean
  Subject:   Is `checksum` of net/mod.rs the checksum of RFC 1071?

  The code adds up the words in 32 bits and folds the carries in at the end. The RFC adds 16-bit
  words in ones-complement, with the carry of each addition brought round at once. Both keep the sum
  modulo 65535 and never turn a positive sum into zero, so they end in the same number.

  * `checksumIn` -- the code again, with a folding loop that counts its turns and checks its
    addition; `checksumIn_eq` -- three turns are enough for any sum, and the addition does not
    overflow;
  * `words`, `onesAdd`, `onesSum` -- the RFC; `toNat_onesSum` -- it folds the plain sum;
  * `checksum_rfc1071` -- the checksum is the complement of the ones-complement sum, and depends
    only on the sum of the words modulo 65535, zero apart;
  * `checksum_ok_iff` -- the accumulator overflows exactly if the sum does; `fits_iff` -- the bound
    of 131074 bytes is the best one.
-/
import SimpleLinux.Net.Checksum

namespace SimpleLinux.Net

open Rust

/-! ## 1. The folding loop, turn by turn -/

/-- The folding loop on a `u32`; `none` if it has not ended after so many tests of its condition. -/
def foldIn : Nat → Nat → Option (Res Nat)
  | 0, _ => none
  | turns + 1, sum =>
    if sum >>> 16 ≠ 0 then
      match add 32 (sum &&& 0xffff) (sum >>> 16) with
      | .ok sum' => foldIn turns sum'
      | .error e => some (.error e)
    else some (.ok sum)

def checksumIn (turns : Nat) (data : Bytes) : Option (Res (BitVec 16)) :=
  match sumWords 0 data with
  | .ok sum => (foldIn turns sum).map fun r => do return ~~~(BitVec.ofNat 16 (← r))
  | .error e => some (.error e)

theorem shiftRight_eq_zero_iff (sum : Nat) : sum >>> 16 = 0 ↔ sum < 65536 := by
  rw [Nat.shiftRight_eq_div_pow]
  omega

theorem foldCarry_of_lt {sum : Nat} (h : sum < 65536) : foldCarry sum = sum := by
  unfold foldCarry
  rw [if_neg (not_not.mpr ((shiftRight_eq_zero_iff sum).mpr h))]

theorem foldIn_of_lt {sum : Nat} (h : sum < 65536) (turns : Nat) :
    foldIn (turns + 1) sum = some (.ok (foldCarry sum)) := by
  rw [foldIn, if_neg (not_not.mpr ((shiftRight_eq_zero_iff sum).mpr h)), foldCarry_of_lt h]

/-- One turn: the sum gets smaller, and the addition fits. -/
theorem foldIn_turn {sum : Nat} (hsum : sum < 2 ^ 32) (h : 65536 ≤ sum) (turns : Nat) :
    foldIn (turns + 1) sum = foldIn turns (sum % 65536 + sum / 65536) ∧
      foldCarry sum = foldCarry (sum % 65536 + sum / 65536) := by
  have hne : sum >>> 16 ≠ 0 := fun he => absurd ((shiftRight_eq_zero_iff sum).mp he)
    (Nat.not_lt.mpr h)
  have hlow : sum &&& 0xffff = sum % 65536 := Nat.and_two_pow_sub_one_eq_mod sum 16
  have hhigh : sum >>> 16 = sum / 65536 := Nat.shiftRight_eq_div_pow sum 16
  constructor
  · rw [foldIn, if_pos hne, hlow, hhigh, add_of_lt (by omega)]
  · rw [foldCarry, if_pos hne, hlow, hhigh]

/-- **The folding loop ends with the third test at the latest**, without an overflow. -/
theorem foldIn_eq {sum : Nat} (hsum : sum < 2 ^ 32) (turns : Nat) :
    foldIn (turns + 3) sum = some (.ok (foldCarry sum)) := by
  rcases Nat.lt_or_ge sum 65536 with hsmall | hlarge
  · exact foldIn_of_lt hsmall _
  · -- after one turn the sum is at most twice 65535
    obtain ⟨hturn, hcarry⟩ := foldIn_turn hsum hlarge (turns + 2)
    rw [hturn, hcarry]
    rcases Nat.lt_or_ge (sum % 65536 + sum / 65536) 65536 with hsmall | hlarge'
    · exact foldIn_of_lt hsmall _
    · -- after two it is a word
      obtain ⟨hturn', hcarry'⟩ := foldIn_turn (by omega) hlarge' (turns + 1)
      rw [hturn', hcarry']
      exact foldIn_of_lt (by omega) _

theorem checksumIn_eq {data : Bytes} (h : wordSum data < 2 ^ 32) (turns : Nat) :
    checksumIn (turns + 3) data = some (checksum data) := by
  rw [checksumIn, checksum_of_lt h, sumWords_eq (by omega), Nat.zero_add]
  dsimp only
  rw [foldIn_eq h]
  rfl

/-! ## 2. Words and their ones-complement sum -/

/-- The big-endian words of a buffer; an odd last byte is padded on the right. -/
def words : Bytes → List (BitVec 16)
  | a :: b :: rest => (a ++ b) :: words rest
  | [a] => [a ++ 0#8]
  | [] => []

/-- The plain sum of some words. -/
def plainSum (ws : List (BitVec 16)) : Nat := (ws.map BitVec.toNat).sum

/-- Addition with an end-around carry. -/
def onesAdd (a b : BitVec 16) : BitVec 16 :=
  if a.toNat + b.toNat < 2 ^ 16 then a + b else a + b + 1#16

def onesSum (ws : List (BitVec 16)) : BitVec 16 := ws.foldl onesAdd 0#16

theorem plainSum_cons (w : BitVec 16) (ws : List (BitVec 16)) :
    plainSum (w :: ws) = w.toNat + plainSum ws := by
  rw [plainSum, List.map_cons, List.sum_cons]
  rfl

theorem plainSum_words (data : Bytes) : plainSum (words data) = wordSum data := by
  fun_induction words data with
  | case1 a b rest ih => rw [plainSum_cons, ih, wordSum]
  | case2 a =>
    have hzero : (0#8).toNat = 0 := rfl
    rw [plainSum_cons, BitVec.toNat_append, hzero, Nat.or_zero, wordSum]
    rfl
  | case3 => rfl

theorem length_words (data : Bytes) : (words data).length = (data.length + 1) / 2 := by
  fun_induction words data with
  | case1 a b rest ih =>
    simp only [List.length_cons, ih]
    omega
  | case2 a => rw [List.length_singleton, List.length_singleton]
  | case3 => rfl

/-- Folding before an addition or after it makes no difference. -/
theorem foldCarry_add (m n : Nat) : foldCarry (foldCarry m + n) = foldCarry (m + n) := by
  have hmod := foldCarry_mod m
  rcases Nat.eq_zero_or_pos m with hm | hm
  · rw [hm, foldCarry_zero]
  · have hpos := foldCarry_pos hm
    rw [foldCarry_eq (Nat.add_pos_left hpos n), foldCarry_eq (Nat.add_pos_left hm n)]
    omega

theorem toNat_onesAdd (a b : BitVec 16) : (onesAdd a b).toNat = foldCarry (a.toNat + b.toNat) := by
  have ha := a.isLt
  have hb := b.isLt
  unfold onesAdd
  split
  · rename_i hlt
    rw [foldCarry_of_lt hlt, BitVec.toNat_add, Nat.mod_eq_of_lt hlt]
  · rename_i hge
    rw [foldCarry_eq (by omega)]
    bv_omega

/-- **The ones-complement sum is the plain sum, folded.** -/
theorem toNat_onesSum (ws : List (BitVec 16)) : (onesSum ws).toNat = foldCarry (plainSum ws) := by
  have hfrom : ∀ (ws : List (BitVec 16)) (w : BitVec 16),
      (ws.foldl onesAdd w).toNat = foldCarry (w.toNat + plainSum ws) := by
    intro ws
    induction ws with
    | nil => exact fun w => (foldCarry_of_lt w.isLt).symm
    | cons v ws ih =>
      intro w
      rw [List.foldl_cons, ih, toNat_onesAdd, foldCarry_add, plainSum_cons, Nat.add_assoc]
  have hzero : (0#16).toNat = 0 := rfl
  rw [onesSum, hfrom, hzero, Nat.zero_add]

/-! ## 3. What the checksum depends on -/

theorem checksum_onesSum {data : Bytes} (h : data.length ≤ 131074) :
    checksum data = .ok (~~~(onesSum (words data))) := by
  rw [checksum_eq h, ← plainSum_words, ← toNat_onesSum, BitVec.ofNat_toNat, BitVec.setWidth_eq]

/-- A buffer of as many words is as short. -/
theorem short_of_words {data data' : Bytes} (h : data.length ≤ 131074)
    (hwords : (words data').length = (words data).length) : data'.length ≤ 131074 := by
  rw [length_words, length_words] at hwords
  omega

/-- Two short buffers have one checksum exactly if their sums fold to one number. -/
theorem checksum_eq_iff {data data' : Bytes} (h : data.length ≤ 131074)
    (h' : data'.length ≤ 131074) :
    checksum data' = checksum data ↔
      foldCarry (plainSum (words data')) = foldCarry (plainSum (words data)) := by
  rw [checksum_onesSum h, checksum_onesSum h', Except.ok.injEq, BitVec.not_inj, ← BitVec.toNat_inj,
    toNat_onesSum, toNat_onesSum]

theorem plainSum_perm {ws ws' : List (BitVec 16)} (h : ws.Perm ws') : plainSum ws = plainSum ws' :=
  (h.map BitVec.toNat).sum_nat

theorem plainSum_middle (front : List (BitVec 16)) (w : BitVec 16) (back : List (BitVec 16)) :
    plainSum (front ++ w :: back) = w.toNat + plainSum (front ++ back) := by
  rw [plainSum_perm List.perm_middle, plainSum_cons]

theorem plainSum_pos {ws : List (BitVec 16)} (h : ∃ w ∈ ws, w ≠ 0#16) : 0 < plainSum ws := by
  obtain ⟨w, hw, hne⟩ := h
  obtain ⟨front, back, rfl⟩ := List.append_of_mem hw
  have hpos : 0 < w.toNat := by bv_omega
  rw [plainSum_middle]
  omega

/-- **The checksum is that of RFC 1071.** For every buffer of at most 131074 bytes the accumulator
    does not overflow and the folding loop ends with its third test at the latest. The result is the
    complement of the ones-complement sum of the words: 65535 if their plain sum is zero, and
    otherwise 65535 minus the number from 1 to 65535 that is congruent to it. So it stays the same
    when the words are put in another order; and when one word is replaced, while another one is
    not zero, it stays the same if and only if the two are congruent modulo 65535. -/
theorem checksum_rfc1071 (data : Bytes) (h : data.length ≤ 131074) :
    ∃ c, (∀ turns, checksumIn (turns + 3) data = some (.ok c)) ∧ checksum data = .ok c ∧
      c = ~~~(onesSum (words data)) ∧
      (plainSum (words data) = 0 → c.toNat = 0xffff) ∧
      (plainSum (words data) ≠ 0 → ∃ r, 1 ≤ r ∧ r ≤ 65535 ∧
        r % 65535 = plainSum (words data) % 65535 ∧
        c.toNat = 0xffff - r) ∧
      (∀ data', (words data').Perm (words data) → checksum data' = .ok c) ∧
      ∀ front a b back data', words data = front ++ a :: back → words data' = front ++ b :: back →
        (∃ w ∈ front ++ back, w ≠ 0#16) →
        (checksum data' = .ok c ↔ a.toNat % 65535 = b.toNat % 65535) := by
  have hsum : wordSum data < 2 ^ 32 := by
    have hle := wordSum_le data
    omega
  have hc := checksum_onesSum h
  have hnat : (~~~(onesSum (words data))).toNat = 65535 - foldCarry (plainSum (words data)) := by
    rw [BitVec.toNat_not, toNat_onesSum]
  refine ⟨_, fun turns => ?_, hc, rfl, fun hzero => ?_, fun hpos => ?_, fun data' hperm => ?_,
    fun front a b back data' hwords hwords' hother => ?_⟩
  · rw [checksumIn_eq hsum, hc]
  · rw [hnat, hzero, foldCarry_zero]
  · exact ⟨_, foldCarry_pos (Nat.pos_of_ne_zero hpos), foldCarry_le _, foldCarry_mod _, hnat⟩
  · rw [← hc, checksum_eq_iff h (short_of_words h hperm.length_eq), plainSum_perm hperm]
  · have hlen : (words data').length = (words data).length := by
      rw [hwords, hwords', List.length_append, List.length_append, List.length_cons,
        List.length_cons]
    have hrest := plainSum_pos hother
    rw [← hc, checksum_eq_iff h (short_of_words h hlen), hwords, hwords', plainSum_middle,
      plainSum_middle, foldCarry_eq (Nat.add_pos_right _ hrest),
      foldCarry_eq (Nat.add_pos_right _ hrest)]
    omega

/-- The words 0001, f203, f4f5 and f6f7, and the same with the first two exchanged. -/
theorem checksum_rfc1071_f203 :
    checksum [0x00#8, 0x01#8, 0xf2#8, 0x03#8, 0xf4#8, 0xf5#8, 0xf6#8, 0xf7#8] = .ok 0x220d#16 ∧
      checksum [0xf2#8, 0x03#8, 0x00#8, 0x01#8, 0xf4#8, 0xf5#8, 0xf6#8, 0xf7#8] =
        .ok 0x220d#16 := by
  obtain ⟨c, -, hc, hones, -, -, hperm, -⟩ := checksum_rfc1071
    [0x00#8, 0x01#8, 0xf2#8, 0x03#8, 0xf4#8, 0xf5#8, 0xf6#8, 0xf7#8] (by decide)
  have hvalue : c = 0x220d#16 := hones.trans (by decide)
  rw [← hvalue]
  exact ⟨hc, hperm _ (List.Perm.swap ..)⟩

/-! ## 4. The bound -/

theorem sumWords_overflow {sum : Nat} {data : Bytes} (hsum : sum < 2 ^ 32)
    (h : 2 ^ 32 ≤ sum + wordSum data) : sumWords sum data = .error .overflow := by
  fun_induction wordSum data generalizing sum with
  | case1 a b rest ih =>
    rw [sumWords]
    rcases Nat.lt_or_ge (sum + (a ++ b).toNat) (2 ^ 32) with hlt | hge
    · rw [add_of_lt hlt, ok_bind]
      exact ih hlt (by omega)
    · rw [add, if_neg (Nat.not_lt.mpr hge)]
      rfl
  | case2 a => rw [sumWords, add, if_neg (Nat.not_lt.mpr h)]
  | case3 => omega

/-- **The accumulator overflows exactly if the sum of all words does.** -/
theorem checksum_ok_iff (data : Bytes) : (∃ c, checksum data = .ok c) ↔ wordSum data < 2 ^ 32 := by
  constructor
  · intro ⟨c, hc⟩
    by_contra hge
    rw [checksum, sumWords_overflow (by decide) (by omega)] at hc
    cases hc
  · intro h
    exact ⟨_, checksum_of_lt h⟩

theorem wordSum_ones : ∀ n, wordSum (List.replicate n 0xff#8) = 65535 * (n / 2) + 65280 * (n % 2)
  | 0 => rfl
  | 1 => rfl
  | n + 2 => by
    have hword : (0xff#8 ++ 0xff#8).toNat = 65535 := rfl
    rw [List.replicate_succ, List.replicate_succ, wordSum, wordSum_ones n, hword]
    omega

/-- Of the buffers full of ones, those of at most 131074 bytes and no others have a checksum. -/
theorem fits_iff (n : Nat) : (∃ c, checksum (List.replicate n 0xff#8) = .ok c) ↔ n ≤ 131074 := by
  rw [checksum_ok_iff, wordSum_ones]
  omega

end SimpleLinux.Net
