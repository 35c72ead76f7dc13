/-
  File:      SimpleLinux/Net/Wire.lean
  Subject:   Addresses, big-endian fields and the internet checksum: net/mod.rs, net/ethernet.rs.

  * `be16`, `ipv4At`, ... -- the code's reads, which panic past the end of the buffer;
  * `byteAt`, `wordAt`, `longAt` -- what they read when they do not (`be16_slice`, ...);
  * `checksum` -- RFC 1071, with the 32-bit accumulator; `checksum_eq` -- it does not overflow for
    any buffer that fits a frame.
-/
import SimpleLinux.Lib.Rust

namespace SimpleLinux.Net

open Rust

abbrev Byte := BitVec 8

abbrev Bytes := List Byte

abbrev Ipv4 := Vector Byte 4

structure MacAddr where
  bytes : Vector Byte 6
  deriving DecidableEq

def MacAddr.broadcast : MacAddr := ⟨Vector.replicate 6 0xff#8⟩

/-- `b"0123456789abcdef"`. -/
def hexDigits : Vector Byte 16 :=
  #v[0x30, 0x31, 0x32, 0x33, 0x34, 0x35, 0x36, 0x37, 0x38, 0x39, 0x61, 0x62, 0x63, 0x64, 0x65, 0x66]

/-- One byte of `MacAddr::fmt`: a colon before all but the first, then two hexadecimal digits. -/
def fmtByte (out : Bytes) (b : Byte × Nat) : Res Bytes := do
  let out := if 0 < b.2 then out ++ [0x3a#8] else out
  return out ++ [← index hexDigits (b.1 >>> 4).toNat, ← index hexDigits (b.1 &&& 0x0f#8).toNat]

/-- `aa:bb:cc:dd:ee:ff`. -/
def MacAddr.fmt (m : MacAddr) : Res Bytes := m.bytes.toList.zipIdx.foldlM fmtByte []

theorem fmtByte_ok (out : Bytes) (b : Byte × Nat) : ∃ t, fmtByte out b = .ok t := by
  have hhigh : (b.1 >>> 4).toNat < 16 := by
    rw [BitVec.toNat_ushiftRight, Nat.shiftRight_eq_div_pow]
    have := b.1.isLt
    omega
  have hlow : (b.1 &&& 0x0f#8).toNat < 16 := by
    rw [BitVec.toNat_and]
    exact Nat.lt_of_le_of_lt Nat.and_le_right (by decide)
  unfold fmtByte
  rw [index_of_lt _ hhigh, index_of_lt _ hlow]
  exact ⟨_, rfl⟩

/-- Rendering an address never indexes past the sixteen digits. -/
theorem MacAddr.fmt_ok (m : MacAddr) : ∃ t, m.fmt = .ok t := foldlM_ok _ fmtByte_ok _ _

/-! ## 1. Fields -/

/-- `u16::from_be_bytes([b[i], b[i + 1]])`. -/
def be16At (b : Bytes) (i : Nat) : Res (BitVec 16) := do
  return (← get b i) ++ (← get b (i + 1))

/-- `be16(b)`, which the decoders apply to a two-byte slice. -/
def be16 (b : Bytes) : Res (BitVec 16) := be16At b 0

/-- `u32::from_be_bytes([b[i], b[i + 1], b[i + 2], b[i + 3]])`. -/
def be32At (b : Bytes) (i : Nat) : Res (BitVec 32) := do
  return (← get b i) ++ (← get b (i + 1)) ++ (← get b (i + 2)) ++ (← get b (i + 3))

/-- `[b[i], b[i + 1], b[i + 2], b[i + 3]]`. -/
def ipv4At (b : Bytes) (i : Nat) : Res Ipv4 := do
  return #v[← get b i, ← get b (i + 1), ← get b (i + 2), ← get b (i + 3)]

/-- `MacAddr([b[i], ..., b[i + 5]])`. -/
def macAt (b : Bytes) (i : Nat) : Res MacAddr := do
  return ⟨#v[← get b i, ← get b (i + 1), ← get b (i + 2), ← get b (i + 3), ← get b (i + 4),
    ← get b (i + 5)]⟩

/-- `w.to_be_bytes()`. -/
def toBe16 (w : BitVec 16) : Bytes := [w.extractLsb' 8 8, w.extractLsb' 0 8]

def toBe32 (w : BitVec 32) : Bytes :=
  [w.extractLsb' 24 8, w.extractLsb' 16 8, w.extractLsb' 8 8, w.extractLsb' 0 8]

@[simp] theorem length_toBe16 (w : BitVec 16) : (toBe16 w).length = 2 := rfl

@[simp] theorem length_toBe32 (w : BitVec 32) : (toBe32 w).length = 4 := rfl

/-- Byte `i` of a buffer that has one. -/
def byteAt (b : Bytes) (i : Nat) : Byte := b.getD i 0#8

/-- The 16-bit field at `i`. -/
def wordAt (b : Bytes) (i : Nat) : BitVec 16 := byteAt b i ++ byteAt b (i + 1)

/-- The 32-bit field at `i`. -/
def longAt (b : Bytes) (i : Nat) : BitVec 32 :=
  byteAt b i ++ byteAt b (i + 1) ++ byteAt b (i + 2) ++ byteAt b (i + 3)

/-- The IPv4 address at `i`. -/
def addrAt (b : Bytes) (i : Nat) : Ipv4 :=
  #v[byteAt b i, byteAt b (i + 1), byteAt b (i + 2), byteAt b (i + 3)]

/-- The MAC address at `i`. -/
def hwAddrAt (b : Bytes) (i : Nat) : MacAddr :=
  ⟨#v[byteAt b i, byteAt b (i + 1), byteAt b (i + 2), byteAt b (i + 3), byteAt b (i + 4),
    byteAt b (i + 5)]⟩

section Reads

variable {b : Bytes} {i : Nat}

theorem get_byteAt (h : i < b.length) : get b i = .ok (byteAt b i) := get_of_lt _ h

theorem be16At_eq (h : i + 1 < b.length) : be16At b i = .ok (wordAt b i) := by
  unfold be16At
  rw [get_byteAt (Nat.lt_of_succ_lt h), get_byteAt h]
  rfl

theorem be32At_eq (h : i + 3 < b.length) : be32At b i = .ok (longAt b i) := by
  unfold be32At
  rw [get_byteAt (by omega), get_byteAt (by omega), get_byteAt (by omega), get_byteAt h]
  rfl

theorem ipv4At_eq (h : i + 3 < b.length) : ipv4At b i = .ok (addrAt b i) := by
  unfold ipv4At
  rw [get_byteAt (by omega), get_byteAt (by omega), get_byteAt (by omega), get_byteAt h]
  rfl

theorem macAt_eq (h : i + 5 < b.length) : macAt b i = .ok (hwAddrAt b i) := by
  unfold macAt
  rw [get_byteAt (by omega), get_byteAt (by omega), get_byteAt (by omega), get_byteAt (by omega),
    get_byteAt (by omega), get_byteAt h]
  rfl

theorem byteAt_slice {lo hi : Nat} (h : lo + i < hi) :
    byteAt ((b.take hi).drop lo) i = byteAt b (lo + i) := by
  unfold byteAt
  rw [List.getD_eq_getElem?_getD, List.getD_eq_getElem?_getD, List.getElem?_drop,
    List.getElem?_take_of_lt h]

/-- `be16(&b[i..i + 2])`: the slice, and the field read from it. -/
theorem be16_slice (h : i + 2 ≤ b.length) :
    ∃ two, slice b i (i + 2) = .ok two ∧ be16 two = .ok (wordAt b i) := by
  have hlen : ((b.take (i + 2)).drop i).length = 2 := by
    rw [List.length_drop, List.length_take]
    omega
  refine ⟨_, slice_of_le (by omega) h, ?_⟩
  rw [be16, be16At_eq (by omega), wordAt, byteAt_slice (by omega), byteAt_slice (by omega)]
  rfl

theorem byteAt_append (front back : Bytes) (i : Nat) :
    byteAt (front ++ back) (front.length + i) = byteAt back i := by
  unfold byteAt
  rw [List.getD_eq_getElem?_getD, List.getD_eq_getElem?_getD,
    List.getElem?_append_right (Nat.le_add_right ..), Nat.add_sub_cancel_left]

theorem byteAt_append_left {front : Bytes} (back : Bytes) (h : i < front.length) :
    byteAt (front ++ back) i = byteAt front i := by
  unfold byteAt
  rw [List.getD_eq_getElem?_getD, List.getD_eq_getElem?_getD, List.getElem?_append_left h]

end Reads

/-- The two bytes of a word, put together again. -/
theorem append_extract (w : BitVec 16) : w.extractLsb' 8 8 ++ w.extractLsb' 0 8 = w := by
  ext i hi
  rw [BitVec.getElem_append]
  split
  · simp [BitVec.getLsbD_eq_getElem hi]
  · have hback : 8 + (i - 8) = i := by omega
    simp [hback, BitVec.getLsbD_eq_getElem hi]

/-- The four bytes of a long word, put together again. -/
theorem append_extract_long (w : BitVec 32) :
    w.extractLsb' 24 8 ++ w.extractLsb' 16 8 ++ w.extractLsb' 8 8 ++ w.extractLsb' 0 8 = w := by
  ext i hi
  simp only [BitVec.getElem_append, BitVec.getElem_extractLsb']
  split
  · rw [Nat.zero_add, BitVec.getLsbD_eq_getElem hi]
  split
  · rw [show 8 + (i - 8) = i by omega, BitVec.getLsbD_eq_getElem hi]
  split
  · rw [show 16 + (i - 8 - 8) = i by omega, BitVec.getLsbD_eq_getElem hi]
  · rw [show 24 + (i - 8 - 8 - 8) = i by omega, BitVec.getLsbD_eq_getElem hi]

/-- What was written as a big-endian word is read back. -/
theorem wordAt_toBe16 (front : Bytes) (w : BitVec 16) (back : Bytes) :
    wordAt (front ++ (toBe16 w ++ back)) front.length = w := by
  have hlow := byteAt_append front (toBe16 w ++ back) 0
  have hhigh := byteAt_append front (toBe16 w ++ back) 1
  rw [Nat.add_zero] at hlow
  rw [wordAt, hlow, hhigh]
  exact append_extract w

/-! ## 2. The internet checksum -/

/-- The summing loop of `checksum`: two bytes at a time, an odd last byte in the high half. -/
def sumWords (sum : Nat) : Bytes → Res Nat
  | a :: b :: rest => do sumWords (← add 32 sum (a ++ b).toNat) rest
  | [a] => add 32 sum (a.toNat <<< 8)
  | [] => .ok sum

/-- The folding loop: `while sum >> 16 != 0`. -/
def foldCarry (sum : Nat) : Nat :=
  if sum >>> 16 ≠ 0 then foldCarry ((sum &&& 0xffff) + (sum >>> 16)) else sum
termination_by sum
decreasing_by
  rename_i h
  have hmod : sum &&& 0xffff = sum % 65536 := Nat.and_two_pow_sub_one_eq_mod sum 16
  rw [Nat.shiftRight_eq_div_pow] at h ⊢
  omega

/-- The RFC 1071 ones-complement checksum. -/
def checksum (data : Bytes) : Res (BitVec 16) := do
  let sum ← sumWords 0 data
  return ~~~(BitVec.ofNat 16 (foldCarry sum))

/-- The plain sum of the 16-bit words of a buffer. -/
def wordSum : Bytes → Nat
  | a :: b :: rest => (a ++ b).toNat + wordSum rest
  | [a] => a.toNat <<< 8
  | [] => 0

theorem wordSum_le (data : Bytes) : wordSum data ≤ 65535 * ((data.length + 1) / 2) := by
  fun_induction wordSum data with
  | case1 a b rest ih =>
    have hword : (a ++ b).toNat < 2 ^ 16 := (a ++ b).isLt
    simp only [List.length_cons]
    omega
  | case2 a =>
    have hbyte : a.toNat < 2 ^ 8 := a.isLt
    rw [Nat.shiftLeft_eq]
    simp only [List.length_cons, List.length_nil]
    omega
  | case3 => simp

/-- The loop adds up the words, as long as the accumulator can hold them. -/
theorem sumWords_eq {sum : Nat} {data : Bytes} (h : sum + wordSum data < 2 ^ 32) :
    sumWords sum data = .ok (sum + wordSum data) := by
  fun_induction wordSum data generalizing sum with
  | case1 a b rest ih =>
    rw [sumWords, add_of_lt (by omega), ok_bind, ih (by omega), Nat.add_assoc]
  | case2 a => rw [sumWords, add_of_lt h]
  | case3 => rfl

theorem checksum_of_lt {data : Bytes} (h : wordSum data < 2 ^ 32) :
    checksum data = .ok (~~~(BitVec.ofNat 16 (foldCarry (wordSum data)))) := by
  unfold checksum
  rw [sumWords_eq (by omega), Nat.zero_add]
  rfl

/-- No buffer of up to 131074 bytes overflows the accumulator. -/
theorem checksum_eq {data : Bytes} (h : data.length ≤ 131074) :
    checksum data = .ok (~~~(BitVec.ofNat 16 (foldCarry (wordSum data)))) := by
  have hle := wordSum_le data
  exact checksum_of_lt (by omega)

end SimpleLinux.Net
