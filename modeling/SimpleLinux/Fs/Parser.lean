/-
  File:      SimpleLinux/Fs/Parser.lean
  Subject:   The tar parser on arbitrary bytes: `parse` of fs/initrd.rs.

  Nothing is assumed about the bytes. The size field has twelve digits at most, so the position
  behind a body never overflows; the position grows by a block at least, so the loop ends; and the
  next header is looked for behind the body that the size field declares, so no two entries overlap,
  even where that body runs past the end of the archive.

  * `octal_ok` -- the size field is read without overflow, whatever is in it;
  * `Found` -- an entry and the header it was read from;
  * `parseFrom_turn`, `parseFrom_done` -- one turn of the loop, and its end;
  * `parse_total` -- the whole loop, whatever the archive.
-/
import SimpleLinux.Fs.Initrd

namespace SimpleLinux.Fs

open Rust
open Net (Byte Bytes byteAt)

/-! ## 1. The header fields -/

/-- Each digit multiplies by eight at most. -/
theorem octalFrom_ok (field : Bytes) {k value : Nat} (hv : value < 8 ^ k)
    (hk : k + field.length ≤ 21) :
    ∃ n, octalFrom value field = .ok n ∧ n < 8 ^ (k + field.length) := by
  induction field generalizing k value with
  | nil => exact ⟨value, rfl, hv⟩
  | cons b bs ih =>
    rw [List.length_cons] at hk ⊢
    have hlonger : 8 ^ (k + 1) ≤ 8 ^ 21 := Nat.pow_le_pow_right (by decide) (by omega)
    have hmore : 8 ^ (k + bs.length) ≤ 8 ^ (k + (bs.length + 1)) :=
      Nat.pow_le_pow_right (by decide) (by omega)
    rw [octalFrom]
    split
    · rename_i hdigit
      rw [Nat.pow_succ] at hlonger
      rw [mul_of_lt (by omega), ok_bind, add_of_lt (by omega), ok_bind]
      have hnext : value * 8 + (b.toNat - 0x30) < 8 ^ (k + 1) := by
        rw [Nat.pow_succ]
        omega
      obtain ⟨n, hn, hlt⟩ := ih hnext (by omega)
      exact ⟨n, hn, by rwa [Nat.add_assoc, Nat.add_comm 1] at hlt⟩
    split
    · obtain ⟨n, hn, hlt⟩ := ih hv (by omega)
      exact ⟨n, hn, Nat.lt_of_lt_of_le hlt hmore⟩
    · refine ⟨value, rfl, Nat.lt_of_lt_of_le hv (Nat.pow_le_pow_right (by decide) (by omega))⟩

/-- **The size field is read without overflow**, whatever its bytes. -/
theorem octal_ok (field : Bytes) (h : field.length ≤ 12) :
    ∃ n, octal field = .ok n ∧ n < 2 ^ 36 := by
  obtain ⟨n, hn, hlt⟩ := octalFrom_ok field (show 0 < 8 ^ 0 by decide) (by omega)
  refine ⟨n, hn, Nat.lt_of_lt_of_le hlt ?_⟩
  have hpow : 8 ^ (0 + field.length) ≤ 8 ^ 12 := Nat.pow_le_pow_right (by decide) (by omega)
  exact hpow

/-- The bytes of the archive from `pos` on, `len` of them. -/
def window (tar : Bytes) (pos len : Nat) : Bytes := (tar.drop pos).take len

theorem slice_window {tar : Bytes} {lo hi : Nat} (h : lo ≤ hi) (hle : hi ≤ tar.length) :
    slice tar lo hi = .ok (window tar lo (hi - lo)) := by
  rw [slice_of_le h hle, List.drop_take, window]

/-- A part of a part. -/
theorem slice_slice {tar : Bytes} {pos n lo hi : Nat} (h : lo ≤ hi) (hn : hi ≤ n)
    (hle : pos + n ≤ tar.length) :
    slice (window tar pos n) lo hi = .ok (window tar (pos + lo) (hi - lo)) := by
  have hlen : (window tar pos n).length = n := by
    rw [window, List.length_take, List.length_drop]
    omega
  rw [slice_window h (by omega)]
  unfold window
  rw [List.drop_take, List.take_take, List.drop_drop, Nat.min_eq_left (by omega)]

theorem get_window {tar : Bytes} {pos n i : Nat} (hi : i < n) (hle : pos + n ≤ tar.length) :
    get (window tar pos n) i = .ok (byteAt tar (pos + i)) := by
  have hlt : pos + i < tar.length := by omega
  rw [get_eq_ok, window, List.getElem?_take_of_lt hi, List.getElem?_drop, byteAt,
    List.getD_eq_getElem?_getD, List.getElem?_eq_getElem hlt, Option.getD_some]

/-! ## 2. One turn -/

/-- An entry that was read from the header at `pos`: its name, its type, and as much of the body
    that the size field declares as the archive holds. -/
structure Found (tar : Bytes) (pos size : Nat) (e : Entry) : Prop where
  fits : pos + block ≤ tar.length
  declared : octal (window tar (pos + 124) 12) = .ok size
  path : e.path = readCstr (window tar pos 100)
  named : e.path ≠ []
  isDir : e.isDir = (byteAt tar (pos + 156) == 0x35#8)
  data : e.data = if e.isDir then []
    else window tar (pos + block) (min size (tar.length - (pos + block)))

theorem Found.data_le {tar : Bytes} {pos size : Nat} {e : Entry} (h : Found tar pos size e) :
    e.data.length ≤ size := by
  rw [h.data]
  split
  · exact Nat.zero_le _
  · rw [window, List.length_take]
    omega

/-- The position behind a body of `size` bytes, rounded up to whole blocks. -/
def after (pos size : Nat) : Nat := pos + block + (size + (block - 1)) / block * block

theorem le_after (pos size : Nat) : pos + block + size ≤ after pos size := by
  unfold after block
  omega

theorem after_le (pos size : Nat) : after pos size ≤ pos + 1024 + size := by
  unfold after block
  omega

/-- An entry needs no room that is not there: its body ends behind its header at the earliest. -/
theorem entryOf_found {tar : Bytes} {pos size : Nat} (hlen : tar.length < 2 ^ 63)
    (hfits : pos + block ≤ tar.length) (hsize : size < 2 ^ 36)
    (hdeclared : octal (window tar (pos + 124) 12) = .ok size) :
    ∃ es, entryOf tar (readCstr (window tar pos 100)) (byteAt tar (pos + 156)) (pos + block) size =
        .ok es ∧ es.length ≤ 1 ∧ ∀ e ∈ es, Found tar pos size e := by
  unfold entryOf
  by_cases hname : (readCstr (window tar pos 100)).isEmpty = true
  · rw [if_pos hname]
    exact ⟨[], rfl, Nat.zero_le 1, fun e he => absurd he List.not_mem_nil⟩
  rw [if_neg hname]
  have hnamed : readCstr (window tar pos 100) ≠ [] := by simpa using hname
  by_cases htype : byteAt tar (pos + 156) = 0x35#8
  · rw [if_pos htype]
    refine ⟨_, rfl, Nat.le_refl 1, fun e he => ?_⟩
    rw [List.mem_singleton.mp he]
    exact ⟨hfits, hdeclared, rfl, hnamed, (beq_iff_eq.mpr htype).symm, rfl⟩
  · have hstop : min (pos + block + size) tar.length - (pos + block) =
        min size (tar.length - (pos + block)) := by omega
    rw [if_neg htype, add_of_lt (by omega), ok_bind,
      slice_window (Nat.le_min.mpr ⟨Nat.le_add_right .., hfits⟩) (Nat.min_le_right ..), hstop,
      ok_bind]
    refine ⟨_, rfl, Nat.le_refl 1, fun e he => ?_⟩
    rw [List.mem_singleton.mp he]
    exact ⟨hfits, hdeclared, rfl, hnamed, (beq_eq_false_iff_ne.mpr htype).symm, rfl⟩

/-- **One turn**: no slice leaves the archive and nothing overflows; at most one entry is found, and
    the loop goes on behind the body. -/
theorem parseFrom_turn {tar : Bytes} {pos : Nat} (hlen : tar.length < 2 ^ 63)
    (hfits : pos + block ≤ tar.length) (hhead : byteAt tar pos ≠ 0#8) :
    ∃ size es, size < 2 ^ 36 ∧ es.length ≤ 1 ∧ (∀ e ∈ es, Found tar pos size e) ∧
      ∀ fuel, parseFrom tar (fuel + 1) pos = do
        return es ++ (← parseFrom tar fuel (after pos size)) := by
  have hblock : block = 512 := rfl
  have hheader : pos + block - pos = block := Nat.add_sub_cancel_left ..
  obtain ⟨size, hdeclared, hsize⟩ := octal_ok (window tar (pos + 124) 12)
    (by rw [window, List.length_take]; exact Nat.min_le_left ..)
  obtain ⟨es, hes, hone, hfound⟩ := entryOf_found hlen hfits hsize hdeclared
  refine ⟨size, es, hsize, hone, hfound, fun fuel => ?_⟩
  have hround : (size + (block - 1)) / block * block ≤ size + (block - 1) := Nat.div_mul_le_self ..
  rw [parseFrom, add_of_lt (by omega), ok_bind, if_pos hfits,
    slice_window (Nat.le_add_right ..) hfits, hheader, ok_bind, get_window (by decide) hfits,
    ok_bind, Nat.add_zero, if_neg hhead, slice_slice (by decide) (by decide) hfits, ok_bind,
    slice_slice (by decide) (by decide) hfits, ok_bind, hdeclared, ok_bind,
    get_window (by decide) hfits, ok_bind, ok_bind, add_of_lt (by omega), ok_bind]
  dsimp only
  rw [Nat.add_zero, hes, ok_bind, mul_of_lt (by omega), ok_bind, add_of_lt (by omega), ok_bind]
  rfl

/-- The loop ends at the end of the archive and at a block that starts with a zero. -/
theorem parseFrom_done {tar : Bytes} {pos : Nat} (hpos : pos < 2 ^ 63 + 2 ^ 37)
    (h : pos + block ≤ tar.length → byteAt tar pos = 0#8) (fuel : Nat) :
    parseFrom tar (fuel + 1) pos = .ok [] := by
  have hblock : block = 512 := rfl
  rw [parseFrom, add_of_lt (by omega), ok_bind]
  by_cases hfits : pos + block ≤ tar.length
  · rw [if_pos hfits, slice_window (Nat.le_add_right ..) hfits, Nat.add_sub_cancel_left, ok_bind,
      get_window (by decide) hfits, ok_bind, Nat.add_zero, if_pos (h hfits)]
    rfl
  · rw [if_neg hfits]
    rfl

/-! ## 3. The whole loop -/

/-- An entry, the position of its header, and the size that the header declares. -/
structure Record where
  pos : Nat
  size : Nat
  entry : Entry

/-- What the loop finds from `start` on. -/
structure Findings (tar : Bytes) (start : Nat) (rs : List Record) : Prop where
  found : ∀ r ∈ rs, start ≤ r.pos ∧ Found tar r.pos r.size r.entry
  /-- a header starts behind every body before it -/
  apart : rs.Pairwise fun r r' => r.pos + block + r.size ≤ r'.pos
  few : rs.length * block ≤ tar.length - start

theorem findings_nil (tar : Bytes) (start : Nat) : Findings tar start [] :=
  ⟨fun _ h => absurd h List.not_mem_nil, List.Pairwise.nil, by simp⟩

/-- The entry of one turn in front of what the turns after it find. -/
theorem Findings.turn {tar : Bytes} {pos size : Nat} {es : List Entry} {rs : List Record}
    (hfits : pos + block ≤ tar.length) (hone : es.length ≤ 1)
    (hes : ∀ e ∈ es, Found tar pos size e) (h : Findings tar (after pos size) rs) :
    Findings tar pos (es.map (Record.mk pos size) ++ rs) := by
  have hafter := le_after pos size
  have hfew := h.few
  refine ⟨fun r hr => ?_, ?_, ?_⟩
  · rcases List.mem_append.mp hr with hr | hr
    · obtain ⟨e, he, rfl⟩ := List.mem_map.mp hr
      exact ⟨Nat.le_refl pos, hes e he⟩
    · obtain ⟨hle, hfound⟩ := h.found r hr
      exact ⟨by omega, hfound⟩
  · rw [List.pairwise_append]
    refine ⟨?_, h.apart, fun r hr r' hr' => ?_⟩
    · match es, hone with
      | [], _ => exact List.Pairwise.nil
      | [e], _ => exact List.pairwise_singleton ..
    · obtain ⟨e, -, rfl⟩ := List.mem_map.mp hr
      exact Nat.le_trans hafter (h.found r' hr').1
  · have hes : es.length * block ≤ 1 * block := Nat.mul_le_mul_right block hone
    rw [List.length_append, List.length_map, Nat.add_mul]
    omega

/-- **The loop ends, and finds what it should**: by induction on what is left of the archive. The
    number of turns that are allowed does not matter, as long as there is one for each block left
    and one more. -/
theorem parseFrom_findings {tar : Bytes} (hlen : tar.length < 2 ^ 63) (pos : Nat)
    (hpos : pos < 2 ^ 63 + 2 ^ 37) :
    ∃ rs, Findings tar pos rs ∧ ∀ fuel, (tar.length - pos) / block < fuel →
      parseFrom tar fuel pos = .ok (rs.map Record.entry) := by
  have hblock : block = 512 := rfl
  induction hn : tar.length - pos using Nat.strongRecOn generalizing pos with
  | ind n ih =>
    by_cases hturn : pos + block ≤ tar.length ∧ byteAt tar pos ≠ 0#8
    · obtain ⟨hfits, hhead⟩ := hturn
      obtain ⟨size, es, hsize, hone, hes, hrest⟩ := parseFrom_turn hlen hfits hhead
      have hafter := le_after pos size
      have hnear := after_le pos size
      obtain ⟨rs, hrs, hparse⟩ := ih (tar.length - after pos size) (by omega) _ (by omega) rfl
      refine ⟨_, hrs.turn hfits hone hes, fun fuel hfuel => ?_⟩
      obtain ⟨f, rfl⟩ := Nat.exists_eq_succ_of_ne_zero (Nat.ne_of_gt (Nat.zero_lt_of_lt hfuel))
      have hleft : (tar.length - after pos size) / block < f := by
        rw [hblock] at hfuel ⊢
        omega
      have hentries : (es.map (Record.mk pos size)).map Record.entry = es := by
        rw [List.map_map]
        exact List.map_id es
      rw [Nat.succ_eq_add_one, hrest, hparse f hleft, List.map_append, hentries]
      rfl
    · refine ⟨[], findings_nil tar pos, fun fuel hfuel => ?_⟩
      obtain ⟨f, rfl⟩ := Nat.exists_eq_succ_of_ne_zero (Nat.ne_of_gt (Nat.zero_lt_of_lt hfuel))
      exact parseFrom_done hpos (fun hfits => by_contra fun hne => hturn ⟨hfits, hne⟩) f

/-- **The parser is total and stays inside the archive.** For any bytes that fit a slice: the loop
    ends without a panic, and more turns would change nothing; there are no more entries than
    blocks; each entry has a name, which is the one in its own header, and a file has the bytes
    behind that header, as many as it declares or as there are; and every entry starts behind the
    header and the data of those before it. -/
theorem parse_total (tar : Bytes) (hlen : tar.length < 2 ^ 63) :
    ∃ rs : List Record, parse tar = .ok (rs.map Record.entry) ∧
      (∀ fuel, tar.length / block < fuel → parseFrom tar fuel 0 = .ok (rs.map Record.entry)) ∧
      rs.length ≤ tar.length / 512 ∧ (∀ r ∈ rs, Found tar r.pos r.size r.entry) ∧
      rs.Pairwise fun r r' => r.pos + block + r.entry.data.length ≤ r'.pos := by
  obtain ⟨rs, hrs, hparse⟩ := parseFrom_findings hlen 0 (by decide)
  rw [Nat.sub_zero] at hparse
  refine ⟨rs, hparse _ (Nat.lt_succ_self _), hparse, ?_, fun r hr => (hrs.found r hr).2, ?_⟩
  · have hfew := hrs.few
    rw [Nat.le_div_iff_mul_le (by decide)]
    exact hfew
  · refine hrs.apart.imp_of_mem fun {r r'} hr _ hapart => ?_
    have hdata := (hrs.found r hr).2.data_le
    omega

/-- One header, for a file `a` of ten bytes, of which three are there. -/
def truncated : Bytes :=
  [0x61#8] ++ List.replicate 123 0#8 ++ List.replicate 9 0x30#8 ++ [0x31#8, 0x32#8, 0#8] ++
    List.replicate 20 0#8 ++ [0x30#8] ++ List.replicate 355 0#8 ++ [1#8, 2#8, 3#8]

theorem parse_total_truncated :
    truncated.length < 2 ^ 63 ∧ ∃ rs : List Record, parse truncated = .ok (rs.map Record.entry) ∧
      rs.map Record.entry = [⟨[0x61#8], [1#8, 2#8, 3#8], false⟩] ∧
      rs.length ≤ truncated.length / 512 ∧ ∀ r ∈ rs, Found truncated r.pos r.size r.entry := by
  have hlen : truncated.length < 2 ^ 63 := by decide +kernel
  have hone : parse truncated = .ok [⟨[0x61#8], [1#8, 2#8, 3#8], false⟩] := by decide +kernel
  obtain ⟨rs, hparse, -, hfew, hfound, -⟩ := parse_total truncated hlen
  exact ⟨hlen, rs, hparse, Except.ok.inj (hparse.symm.trans hone), hfew, hfound⟩

end SimpleLinux.Fs
