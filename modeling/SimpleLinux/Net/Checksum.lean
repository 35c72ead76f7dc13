/-
  File:      SimpleLinux/Net/Checksum.lean
  Subject:   Do the checksums that the stack sends verify? net/mod.rs, `checksum`, and its five
             users.

  Folding the carries keeps a sum modulo 65535 and never turns a positive sum into zero, so the
  folded sum is the one number from 1 to 65535 in its class. A builder sums its bytes with a zero in
  the checksum field and patches the complement in. The field stands at an even offset, so the
  receiver's sum is the builder's plus the complement: 65535, and its complement is 0.

  * `foldCarry_eq` -- what the folding loop computes;
  * `wordSum_append` -- the words of a buffer whose first part has an even length;
  * `checksum_patch` -- the argument above, for any buffer with a field in it;
  * `checksums_verify` -- the five builders;
  * `udp_checksum_nonzero_iff` -- which datagrams go out with a zero in the field.
-/
import SimpleLinux.Net.Stack

namespace SimpleLinux.Net

open Rust

/-! ## 1. Ones-complement sums -/

theorem foldCarry_le (n : Nat) : foldCarry n ≤ 65535 := by
  fun_induction foldCarry n with
  | case1 n h ih => exact ih
  | case2 n h =>
    rw [Nat.shiftRight_eq_div_pow] at h
    omega

/-- `2^16` is one modulo 65535: a carry moved to the low end does not change the class. -/
theorem foldCarry_mod (n : Nat) : foldCarry n % 65535 = n % 65535 := by
  fun_induction foldCarry n with
  | case1 n h ih =>
    have hlow : n &&& 0xffff = n % 65536 := Nat.and_two_pow_sub_one_eq_mod n 16
    rw [ih, hlow, Nat.shiftRight_eq_div_pow]
    omega
  | case2 n h => rfl

theorem foldCarry_pos {n : Nat} (hn : 0 < n) : 0 < foldCarry n := by
  fun_induction foldCarry n with
  | case1 n h ih => exact ih (Nat.add_pos_right _ (Nat.pos_of_ne_zero h))
  | case2 n h => exact hn

/-- Of the two representations of zero, a positive sum folds to 65535. -/
theorem foldCarry_eq {n : Nat} (hn : 0 < n) : foldCarry n = (n - 1) % 65535 + 1 := by
  have hle := foldCarry_le n
  have hmod := foldCarry_mod n
  have hpos := foldCarry_pos hn
  omega

@[simp] theorem foldCarry_zero : foldCarry 0 = 0 := by
  unfold foldCarry
  rfl

/-- A sum and the complement of its folded value fold to 65535. -/
theorem foldCarry_complement (n : Nat) : foldCarry (n + (65535 - foldCarry n)) = 65535 := by
  have hle := foldCarry_le n
  have hmod := foldCarry_mod n
  rcases Nat.eq_zero_or_pos n with hn | hn
  · rw [hn, foldCarry_zero, foldCarry_eq (by decide)]
  · rw [foldCarry_eq (Nat.add_pos_left hn _)]
    omega

theorem toNat_complement (n : Nat) :
    (~~~(BitVec.ofNat 16 (foldCarry n))).toNat = 65535 - foldCarry n := by
  have hle := foldCarry_le n
  rw [BitVec.toNat_not, BitVec.toNat_ofNat]
  omega

/-! ## 2. Sums over a buffer -/

/-- An even number of bytes is a number of whole words. -/
theorem wordSum_append {front : Bytes} (back : Bytes) (h : front.length % 2 = 0) :
    wordSum (front ++ back) = wordSum front + wordSum back := by
  fun_induction wordSum front with
  | case1 a b rest ih =>
    have hrest : rest.length % 2 = 0 := by
      simp only [List.length_cons] at h
      omega
    rw [List.cons_append, List.cons_append, wordSum, ih hrest, Nat.add_assoc]
  | case2 a => cases h
  | case3 => rw [List.nil_append, Nat.zero_add]

theorem wordSum_toBe16 (w : BitVec 16) (back : Bytes) :
    wordSum (toBe16 w ++ back) = w.toNat + wordSum back := by
  rw [toBe16, List.cons_append, List.cons_append, List.nil_append, wordSum, append_extract]

/-- **A checksum that was taken over a zero field and then written to the field verifies**, if the
    field stands at an even offset. -/
theorem checksum_patch (front back : Bytes) (heven : front.length % 2 = 0)
    (hlen : front.length + back.length ≤ 131070) :
    ∃ c, checksum (front ++ toBe16 0#16 ++ back) = .ok c ∧
      checksum (front ++ toBe16 c ++ back) = .ok 0#16 := by
  have hsum (w : BitVec 16) : wordSum (front ++ toBe16 w ++ back) =
      wordSum front + wordSum back + w.toNat := by
    rw [List.append_assoc, wordSum_append _ heven, wordSum_toBe16]
    omega
  have hfit (w : BitVec 16) : (front ++ toBe16 w ++ back).length ≤ 131074 := by
    rw [List.length_append, List.length_append, length_toBe16]
    omega
  refine ⟨_, checksum_eq (hfit _), ?_⟩
  rw [checksum_eq (hfit _), hsum, hsum, toNat_complement]
  have hzero : (0#16).toNat = 0 := rfl
  rw [hzero, Nat.add_zero, foldCarry_complement]
  rfl

/-! ## 3. The builders -/

/-- The twelve bytes that the checksums of UDP and TCP cover in front of the segment. -/
def pseudoHeader (dst : Ipv4) (proto : Byte) (length : Nat) : Bytes :=
  ourIp.toList ++ dst.toList ++ [0#8, proto] ++ toBe16 (BitVec.ofNat 16 length)

@[simp] theorem length_pseudoHeader (dst : Ipv4) (proto : Byte) (length : Nat) :
    (pseudoHeader dst proto length).length = 12 := by
  simp [pseudoHeader]

theorem length_headerWith (proto : Byte) (src dst : Ipv4) (total cks : BitVec 16) :
    (Ip.headerWith proto src dst total cks).length = 20 := by
  simp [Ip.headerWith]

theorem Ip.header_verifies (proto : Byte) (src dst : Ipv4) (total : BitVec 16) :
    ∃ h, Ip.header proto src dst total = .ok h ∧ checksum h = .ok 0#16 := by
  have hwith (w : BitVec 16) : Ip.headerWith proto src dst total w =
      ([0x45#8, 0#8] ++ toBe16 total ++ toBe16 1#16 ++ toBe16 0x4000#16 ++ [64#8, proto]) ++
        toBe16 w ++ (src.toList ++ dst.toList) := List.append_assoc ..
  obtain ⟨c, hc, hv⟩ := checksum_patch
    ([0x45#8, 0#8] ++ toBe16 total ++ toBe16 1#16 ++ toBe16 0x4000#16 ++ [64#8, proto])
    (src.toList ++ dst.toList) (by simp) (by simp)
  rw [← hwith] at hc hv
  refine ⟨_, ?_, hv⟩
  rw [Ip.header, hc]
  rfl

/-- The common end of four builders: a checksum over the bytes `cover` and the message, written to
    the zero field of the message. -/
theorem patch_field (cover front : Bytes) {t back : Bytes} (ht : t = front ++ toBe16 0#16 ++ back)
    (hcover : cover.length % 2 = 0) (heven : front.length % 2 = 0)
    (hlen : cover.length + front.length + back.length ≤ 131070) :
    ∃ c, (do copyFrom t front.length (toBe16 (← checksum (cover ++ t)))) =
        .ok (front ++ toBe16 c ++ back) ∧
      checksum (cover ++ (front ++ toBe16 c ++ back)) = .ok 0#16 := by
  have hall (w : BitVec 16) : cover ++ (front ++ toBe16 w ++ back) =
      (cover ++ front) ++ toBe16 w ++ back := by
    simp only [List.append_assoc]
  have hfront : (cover ++ front).length = cover.length + front.length := List.length_append ..
  obtain ⟨c, hc, hv⟩ := checksum_patch (cover ++ front) back (by omega) (by omega)
  rw [← hall] at hc hv
  refine ⟨c, ?_, hv⟩
  rw [← ht] at hc
  rw [hc, ok_bind, copyFrom_mid front (toBe16 0#16) back ht rfl (length_toBe16 c)]

theorem Icmp.echoRequest_verifies (id seq : BitVec 16) {payload : Bytes}
    (h : payload.length ≤ 65507) :
    ∃ m, Icmp.echoRequest id seq payload = .ok m ∧ checksum m = .ok 0#16 := by
  have hm : [Icmp.typeEchoRequest, 0#8] ++ toBe16 0#16 ++ toBe16 id ++ toBe16 seq ++ payload =
      [Icmp.typeEchoRequest, 0#8] ++ toBe16 0#16 ++ (toBe16 id ++ toBe16 seq ++ payload) := by
    simp only [List.append_assoc]
  obtain ⟨c, hc, hv⟩ := patch_field [] _ hm (by simp) (by simp)
    (by simp only [List.length_append, List.length_cons, List.length_nil, length_toBe16]; omega)
  exact ⟨_, hc, hv⟩

/-- The reply is the request with its first four bytes replaced. -/
theorem Icmp.echoReply_eq (req : Bytes) (h : 4 ≤ req.length) (hle : req.length ≤ 65535) :
    ∃ c, Icmp.echoReply req = .ok ([Icmp.typeEchoReply, 0#8] ++ toBe16 c ++ req.drop 4) ∧
      checksum ([Icmp.typeEchoReply, 0#8] ++ toBe16 c ++ req.drop 4) = .ok 0#16 := by
  match req, h with
  | r₀ :: r₁ :: r₂ :: r₃ :: rest, _ =>
    have hrest : 2 + rest.length ≤ 131070 := by
      simp only [List.length_cons] at hle
      omega
    exact patch_field [] [Icmp.typeEchoReply, 0#8] rfl (by simp) (by simp) hrest

theorem Udp.length_datagramWith (srcPort dstPort cks : BitVec 16) (data : Bytes) :
    (Udp.datagramWith srcPort dstPort cks data).length = 8 + data.length := by
  simp only [Udp.datagramWith, List.length_append, length_toBe16]

/-- The datagram around its checksum, which verifies. -/
theorem Udp.datagram_eq (srcPort : BitVec 16) (dst : Ipv4) (dstPort : BitVec 16) (data : Bytes)
    (h : data.length ≤ 131052) :
    ∃ c, Udp.datagram srcPort dst dstPort data = .ok (Udp.datagramWith srcPort dstPort c data) ∧
      checksum (pseudoHeader dst Ip.protoUdp (8 + data.length) ++
        Udp.datagramWith srcPort dstPort c data) = .ok 0#16 :=
  patch_field (pseudoHeader dst Ip.protoUdp (8 + data.length)) _ rfl (by simp) (by simp)
    (by simp only [List.length_append, length_toBe16, length_pseudoHeader]; omega)

theorem length_segmentWith (sport dport : BitVec 16) (seq ackNr : BitVec 32) (flags cks : BitVec 16)
    (payload : Bytes) :
    (Tcp.segmentWith sport dport seq ackNr flags cks payload).length = 20 + payload.length := by
  simp only [Tcp.segmentWith, List.length_append, length_toBe16, length_toBe32]

theorem Tcp.segment_eq (sport dport : BitVec 16) (seq ackNr : BitVec 32) (flags : BitVec 16)
    (payload : Bytes) (dst : Ipv4) (h : payload.length ≤ 131040) :
    ∃ c, Tcp.segment sport dport seq ackNr flags payload dst =
        .ok (Tcp.segmentWith sport dport seq ackNr flags c payload) ∧
      checksum (pseudoHeader dst Ip.protoTcp (20 + payload.length) ++
        Tcp.segmentWith sport dport seq ackNr flags c payload) = .ok 0#16 := by
  have hwith (w : BitVec 16) : Tcp.segmentWith sport dport seq ackNr flags w payload =
      (toBe16 sport ++ toBe16 dport ++ toBe32 seq ++ toBe32 ackNr ++
        toBe16 (BitVec.ofNat 16 (Tcp.headerLen / 4) <<< 12 ||| flags) ++ toBe16 536#16) ++
        toBe16 w ++ (toBe16 0#16 ++ payload) := List.append_assoc ..
  obtain ⟨c, hc, hv⟩ := patch_field (pseudoHeader dst Ip.protoTcp (20 + payload.length)) _
    (hwith 0#16) (by simp) (by simp)
    (by simp only [List.length_append, length_toBe16, length_toBe32, length_pseudoHeader]; omega)
  rw [← hwith] at hc hv
  rw [← length_segmentWith sport dport seq ackNr flags 0#16] at hc
  exact ⟨c, hc, hv⟩

/-- **Every checksum that the stack sends verifies.** -/
theorem checksums_verify :
    (∀ (proto : Byte) (src dst : Ipv4) (total : BitVec 16),
      ∃ h, Ip.header proto src dst total = .ok h ∧ checksum h = .ok 0#16) ∧
    (∀ (id seq : BitVec 16) (payload : Bytes), payload.length ≤ 65507 →
      ∃ m, Icmp.echoRequest id seq payload = .ok m ∧ checksum m = .ok 0#16) ∧
    (∀ req : Bytes, 8 ≤ req.length → req.length ≤ 65515 →
      ∃ m, Icmp.echoReply req = .ok m ∧ checksum m = .ok 0#16) ∧
    (∀ (srcPort : BitVec 16) (dst : Ipv4) (dstPort : BitVec 16) (data : Bytes),
      data.length ≤ 65507 →
      ∃ d, Udp.datagram srcPort dst dstPort data = .ok d ∧
        checksum (pseudoHeader dst Ip.protoUdp d.length ++ d) = .ok 0#16) ∧
    (∀ (sport dport : BitVec 16) (seq ackNr : BitVec 32) (flags : BitVec 16) (payload : Bytes)
      (dst : Ipv4), payload.length ≤ 65495 →
      ∃ t, Tcp.segment sport dport seq ackNr flags payload dst = .ok t ∧
        checksum (pseudoHeader dst Ip.protoTcp t.length ++ t) = .ok 0#16) := by
  refine ⟨Ip.header_verifies, fun id seq payload h => Icmp.echoRequest_verifies id seq h,
    fun req h hle => ?_, fun srcPort dst dstPort data h => ?_,
    fun sport dport seq ackNr flags payload dst h => ?_⟩
  · obtain ⟨c, hc, hv⟩ := Icmp.echoReply_eq req (by omega) (by omega)
    exact ⟨_, hc, hv⟩
  · obtain ⟨c, hc, hv⟩ := Udp.datagram_eq srcPort dst dstPort data (by omega)
    rw [← Udp.length_datagramWith srcPort dstPort c] at hv
    exact ⟨_, hc, hv⟩
  · obtain ⟨c, hc, hv⟩ := Tcp.segment_eq sport dport seq ackNr flags payload dst (by omega)
    rw [← length_segmentWith sport dport seq ackNr flags c] at hv
    exact ⟨_, hc, hv⟩

/-- An odd payload, in each of the two messages of the self-test. -/
theorem checksums_verify_odd :
    (∃ m, Icmp.echoRequest 7#16 1#16 [0x68#8, 0x69#8, 0x21#8] = .ok m ∧ checksum m = .ok 0#16) ∧
      ∃ d, Udp.datagram 7#16 gateway 9999#16 [0x68#8] = .ok d ∧
        checksum (pseudoHeader gateway Ip.protoUdp d.length ++ d) = .ok 0#16 :=
  ⟨checksums_verify.2.1 _ _ _ (by decide), checksums_verify.2.2.2.1 _ _ _ _ (by decide)⟩

/-! ## 4. A checksum of zero -/

/-- The complement is zero exactly for the multiples of 65535, zero apart. -/
theorem complement_eq_zero {n : Nat} (hn : 0 < n) :
    ~~~(BitVec.ofNat 16 (foldCarry n)) = 0#16 ↔ 65535 ∣ n := by
  have hfold : foldCarry n = 65535 ↔ 65535 ∣ n := by
    rw [foldCarry_eq hn]
    omega
  rw [← hfold, ← BitVec.toNat_inj, toNat_complement]
  have hle := foldCarry_le n
  have hzero : (0#16).toNat = 0 := rfl
  omega

/-- What the checksum of a datagram is taken over. -/
def Udp.covered (srcPort : BitVec 16) (dst : Ipv4) (dstPort : BitVec 16) (data : Bytes) : Bytes :=
  pseudoHeader dst Ip.protoUdp (8 + data.length) ++ Udp.datagramWith srcPort dstPort 0#16 data

/-- The protocol number alone makes the sum positive. -/
theorem Udp.covered_pos (srcPort : BitVec 16) (dst : Ipv4) (dstPort : BitVec 16) (data : Bytes) :
    0 < wordSum (Udp.covered srcPort dst dstPort data) := by
  have hfront : (ourIp.toList ++ dst.toList).length % 2 = 0 := by simp
  have hword : ([0#8, Ip.protoUdp] : Bytes) = toBe16 17#16 := by decide
  rw [Udp.covered, pseudoHeader, hword, List.append_assoc, List.append_assoc,
    wordSum_append _ hfront, wordSum_toBe16]
  have hproto : (17#16).toNat = 17 := rfl
  omega

/-- The field of the datagram holds what `checksum` returned. -/
theorem Udp.checksum_field (srcPort : BitVec 16) (dst : Ipv4) (dstPort : BitVec 16) {data : Bytes}
    (h : data.length ≤ 65507) :
    ∃ d, Udp.datagram srcPort dst dstPort data = .ok d ∧
      checksum (pseudoHeader dst Ip.protoUdp d.length ++ d) = .ok 0#16 ∧
      checksum (Udp.covered srcPort dst dstPort data) = .ok (wordAt d 6) := by
  obtain ⟨c, hd, hv⟩ := Udp.datagram_eq srcPort dst dstPort data (by omega)
  rw [← Udp.length_datagramWith srcPort dstPort c] at hv
  refine ⟨_, hd, hv, ?_⟩
  obtain ⟨w, hw, he⟩ := bind_eq_ok.mp hd
  have hput := copyFrom_mid (toBe16 srcPort ++ toBe16 dstPort ++
    toBe16 (BitVec.ofNat 16 (Udp.headerLen + data.length))) (toBe16 0#16) data rfl rfl
    (length_toBe16 w)
  have hsame : Udp.datagramWith srcPort dstPort w data = Udp.datagramWith srcPort dstPort c data :=
    Except.ok.inj (hput.symm.trans he)
  rw [← hsame]
  exact hw.trans (congrArg Except.ok (append_extract w).symm)

theorem Udp.field_eq_zero (srcPort : BitVec 16) (dst : Ipv4) (dstPort : BitVec 16) {data : Bytes}
    (h : data.length ≤ 65507) :
    ∃ d, Udp.datagram srcPort dst dstPort data = .ok d ∧
      checksum (pseudoHeader dst Ip.protoUdp d.length ++ d) = .ok 0#16 ∧
      (wordAt d 6 = 0#16 ↔ 65535 ∣ wordSum (Udp.covered srcPort dst dstPort data)) := by
  obtain ⟨d, hd, hv, hfield⟩ := Udp.checksum_field srcPort dst dstPort h
  have hlen : (Udp.covered srcPort dst dstPort data).length ≤ 131074 := by
    rw [Udp.covered, List.length_append, length_pseudoHeader, Udp.length_datagramWith]
    omega
  rw [checksum_eq hlen] at hfield
  refine ⟨d, hd, hv, ?_⟩
  rw [← complement_eq_zero (Udp.covered_pos ..), Except.ok.inj hfield]

/-- **A datagram is sent with a checksum in force iff the words it covers do not add up to a
    multiple of 65535.** The receiver's sum comes out right for every datagram; but a computed value
    of zero is written to the field as it is, and zero there means that no checksum was taken. -/
theorem udp_checksum_nonzero_iff (srcPort : BitVec 16) (dst : Ipv4) (dstPort : BitVec 16)
    (data : Bytes) (h : data.length ≤ 65507) :
    (∃ d, Udp.datagram srcPort dst dstPort data = .ok d ∧ wordAt d 6 ≠ 0#16 ∧
      checksum (pseudoHeader dst Ip.protoUdp d.length ++ d) = .ok 0#16) ↔
    ¬ 65535 ∣ wordSum (Udp.covered srcPort dst dstPort data) := by
  obtain ⟨d, hd, hv, hfield⟩ := Udp.field_eq_zero srcPort dst dstPort h
  rw [← hfield]
  constructor
  · intro ⟨d', hd', hne, _⟩
    rw [hd] at hd'
    cases hd'
    exact hne
  · intro hne
    exact ⟨d, hd, hne, hv⟩

/-- An empty datagram from port 7 to port 9999 of the gateway. -/
theorem udp_checksum_nonzero_iff_empty :
    ([] : Bytes).length ≤ 65507 ∧
      ∃ d, Udp.datagram 7#16 gateway 9999#16 [] = .ok d ∧ wordAt d 6 ≠ 0#16 ∧
        checksum (pseudoHeader gateway Ip.protoUdp d.length ++ d) = .ok 0#16 :=
  ⟨by decide, (udp_checksum_nonzero_iff 7#16 gateway 9999#16 [] (by decide)).mpr (by decide)⟩

/-- From port 7 to port 59334 the words add up to 65535. -/
theorem udp_checksum_zero :
    ∃ d, Udp.datagram 7#16 gateway 59334#16 [] = .ok d ∧ wordAt d 6 = 0#16 := by
  obtain ⟨d, hd, -, hfield⟩ := Udp.field_eq_zero 7#16 gateway 59334#16
    (show ([] : Bytes).length ≤ 65507 by decide)
  exact ⟨d, hd, hfield.mpr (by decide)⟩

end SimpleLinux.Net
