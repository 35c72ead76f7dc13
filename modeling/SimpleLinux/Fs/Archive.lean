/-
  File:      SimpleLinux/Fs/Archive.lean
  Subject:   From a ustar archive to the bytes that a descriptor reads.

  An archive is packed from members; the fields of their headers that the parser does not look at
  may hold anything. The way back goes through the whole file layer: the parser, the tree, the mount
  at /initrd, a descriptor, and reads of any sizes.

  * `Member`, `Member.packed`, `archive` -- the format;
  * `parse_archive` -- the parser gives back the members;
  * `view_file`, `resolve_initrd`, `openPath_ok` -- a file stands at its path, and opening leads to
    it;
  * `drain`, `drain_node` -- reads until one returns 0;
  * `initrd_round_trip`.
-/
import SimpleLinux.Fs.Inode

namespace SimpleLinux.Fs

open Rust Paging
open Net (Byte Bytes)

/-! ## 1. The format -/

def zeros (n : Nat) : Bytes := List.replicate n 0#8

@[simp] theorem length_zeros (n : Nat) : (zeros n).length = n := List.length_replicate

/-- `n` in `k` octal digits. -/
def octalDigits : Nat → Nat → Bytes
  | 0, _ => []
  | k + 1, n => octalDigits k (n / 8) ++ [BitVec.ofNat 8 (0x30 + n % 8)]

/-- A directory or a regular file to pack, with the header fields that the parser does not read. -/
structure Member where
  path : Str
  /-- none for a directory -/
  contents : Option Bytes
  /-- mode, uid, gid -/
  owner : Vector Byte 24
  /-- mtime, checksum -/
  stamp : Vector Byte 20
  /-- everything after the typeflag -/
  rest : Vector Byte 355
  valid : Utf8.valid path = true
  nulFree : 0#8 ∉ path
  short : path.length ≤ 100
  named : components path ≠ []
  small : (contents.getD []).length < 8 ^ 11

namespace Member

def isDir (m : Member) : Bool := m.contents.isNone

def data (m : Member) : Bytes := m.contents.getD []

/-- What the parser should find. -/
def entry (m : Member) : Entry := { path := m.path, data := m.data, isDir := m.isDir }

def typeflag (m : Member) : Byte := if m.isDir then 0x35#8 else 0x30#8

def nameField (m : Member) : Bytes := m.path ++ zeros (100 - m.path.length)

def sizeField (m : Member) : Bytes := octalDigits 11 m.data.length ++ [0#8]

def header (m : Member) : Bytes :=
  m.nameField ++ m.owner.toList ++ m.sizeField ++ m.stamp.toList ++ [m.typeflag] ++ m.rest.toList

/-- The contents, filled up to whole blocks. -/
def body (m : Member) : Bytes := m.data ++ zeros ((block - m.data.length % block) % block)

def packed (m : Member) : Bytes := m.header ++ m.body

end Member

/-- The members one after the other, then two blocks of zeros. -/
def archive (ms : List Member) : Bytes := ms.flatMap Member.packed ++ zeros (2 * block)

/-! ## 2. One member -/

@[simp] theorem length_octalDigits (k n : Nat) : (octalDigits k n).length = k := by
  induction k generalizing n with
  | zero => rfl
  | succ k ih => rw [octalDigits, List.length_append, ih, List.length_singleton]

/-- The digits of a number are read back, on top of what was read before. -/
theorem octalFrom_digits {k n v : Nat} (hn : n < 8 ^ k) (hv : v * 8 ^ k + n < 2 ^ 64)
    (more : Bytes) : octalFrom v (octalDigits k n ++ more) = octalFrom (v * 8 ^ k + n) more := by
  induction k generalizing n more with
  | zero =>
    have h0 : n = 0 := by omega
    simp [octalDigits, h0]
  | succ k ih =>
    have hpow : v * 8 ^ (k + 1) = v * 8 ^ k * 8 := by rw [Nat.pow_succ, Nat.mul_assoc]
    have hn' : n / 8 < 8 ^ k := by
      rw [Nat.pow_succ] at hn
      omega
    have hdigit : (BitVec.ofNat 8 (0x30 + n % 8)).toNat = 0x30 + n % 8 := by
      rw [BitVec.toNat_ofNat]
      omega
    rw [octalDigits, List.append_assoc, ih hn' (by omega), List.singleton_append, octalFrom,
      if_pos (by omega), mul_of_lt (by omega), ok_bind, hdigit, add_of_lt (by omega), ok_bind]
    congr 1
    omega

namespace Member

variable (m : Member)

@[simp] theorem length_nameField : m.nameField.length = 100 := by
  have hshort := m.short
  rw [nameField, List.length_append, length_zeros]
  omega

@[simp] theorem length_sizeField : m.sizeField.length = 12 := by
  rw [sizeField, List.length_append, length_octalDigits, List.length_singleton]

@[simp] theorem length_header : m.header.length = block := by
  simp [header, block]

theorem length_body : m.body.length = (m.data.length + (block - 1)) / block * block := by
  rw [body, List.length_append, length_zeros]
  unfold block
  omega

theorem path_ne_nil : m.path ≠ [] := by
  intro h
  have hnamed := m.named
  rw [h, components_nil] at hnamed
  exact hnamed rfl

theorem readCstr_nameField : readCstr m.nameField = m.path := by
  have hall : ∀ b ∈ m.path, (b != 0#8) = true := by
    intro b hb
    rw [bne_iff_ne]
    intro he
    exact m.nulFree (he ▸ hb)
  have hzero : (zeros (100 - m.path.length)).takeWhile (· != 0#8) = [] := by
    unfold zeros
    rcases 100 - m.path.length with - | n
    · rfl
    · rfl
  rw [readCstr, nameField, List.takeWhile_append_of_pos hall, hzero, List.append_nil,
    Utf8.lossy_of_valid m.valid]

theorem octal_sizeField : octal m.sizeField = .ok m.data.length := by
  have hsmall : m.data.length < 8 ^ 11 := m.small
  rw [octal, sizeField, octalFrom_digits hsmall (by omega), Nat.zero_mul, Nat.zero_add]
  rfl

theorem header_head : ∃ b, get m.header 0 = .ok b ∧ b ≠ 0#8 := by
  rcases hp : m.path with - | ⟨b, bs⟩
  · exact absurd hp m.path_ne_nil
  · refine ⟨b, get_eq_ok.mpr ?_, ?_⟩
    · simp [header, nameField, hp]
    · intro he
      have hnul := m.nulFree
      rw [hp, he] at hnul
      exact hnul (List.mem_cons_self ..)

theorem slice_name : slice m.header 0 100 = .ok m.nameField := by
  refine slice_mid [] m.nameField (m.owner.toList ++ m.sizeField ++ m.stamp.toList ++
    [m.typeflag] ++ m.rest.toList) ?_ rfl (by simp)
  simp [header]

theorem slice_size : slice m.header 124 136 = .ok m.sizeField := by
  refine slice_mid (m.nameField ++ m.owner.toList) m.sizeField
    (m.stamp.toList ++ [m.typeflag] ++ m.rest.toList) ?_ (by simp) (by simp)
  simp [header]

theorem get_typeflag : get m.header 156 = .ok m.typeflag := by
  have hlen : (m.nameField ++ m.owner.toList ++ m.sizeField ++ m.stamp.toList).length = 156 := by
    simp
  rw [get_eq_ok, header, List.append_assoc, List.getElem?_append_right (by omega), hlen]
  rfl

end Member

/-! ## 3. The whole archive -/

/-- What stands where, in an archive around a member. -/
structure Around (tar front : Bytes) (m : Member) : Prop where
  fits : front.length + (block + m.body.length) ≤ tar.length
  header : slice tar front.length (front.length + block) = .ok m.header
  data : slice tar (front.length + block) (min (front.length + block + m.data.length) tar.length) =
    .ok m.data

theorem around {tar front back : Bytes} {m : Member} (htar : tar = front ++ m.packed ++ back) :
    Around tar front m := by
  have hsum : tar.length = front.length + (block + m.body.length) + back.length := by
    rw [htar, List.length_append, List.length_append, Member.packed, List.length_append,
      m.length_header]
  have hdata : m.data.length ≤ m.body.length := by
    rw [Member.body, List.length_append]
    omega
  refine ⟨by omega, ?_, ?_⟩
  · refine slice_mid front m.header (m.body ++ back) ?_ rfl (by rw [m.length_header])
    rw [htar, Member.packed]
    simp only [List.append_assoc]
  · refine slice_mid (front ++ m.header) m.data
      (zeros ((block - m.data.length % block) % block) ++ back) ?_ ?_ ?_
    · rw [htar, Member.packed, Member.body]
      simp only [List.append_assoc]
    · rw [List.length_append, m.length_header]
    · rw [List.length_append, m.length_header, Nat.min_eq_left (by omega)]

theorem Around.entryOf {tar front : Bytes} {m : Member} (h : Around tar front m)
    (hlen : front.length + block + m.data.length < 2 ^ 64) :
    entryOf tar m.path m.typeflag (front.length + block) m.data.length = .ok [m.entry] := by
  rw [Fs.entryOf, if_neg (by simp [m.path_ne_nil])]
  rcases hc : m.contents with - | contents
  · have hdir : m.isDir = true := by rw [Member.isDir, hc]; rfl
    have hnone : m.data = [] := by rw [Member.data, hc]; rfl
    rw [Member.typeflag, hdir, if_pos (by decide), Member.entry, hdir, hnone]
  · have hfile : m.isDir = false := by rw [Member.isDir, hc]; rfl
    rw [Member.typeflag, hfile, if_neg (by decide), add_of_lt hlen, ok_bind, h.data, Member.entry,
      hfile]
    rfl

/-- **One turn of the parser**: a member at the position is taken, and the next one starts behind
    its body. -/
theorem parseFrom_member {tar front back : Bytes} {m : Member} (fuel : Nat)
    (htar : tar = front ++ m.packed ++ back) (hlen : tar.length < 2 ^ 63) :
    parseFrom tar (fuel + 1) front.length = do
      return m.entry :: (← parseFrom tar fuel (front ++ m.packed).length) := by
  obtain ⟨b, hhead, hb⟩ := m.header_head
  have haround := around htar
  have hfits := haround.fits
  have hsmall : m.data.length < 8 ^ 11 := m.small
  have hbody := m.length_body
  have hblock : block = 512 := rfl
  have hnext : front.length + block + (m.data.length + (block - 1)) / block * block =
      (front ++ m.packed).length := by
    rw [List.length_append, Member.packed, List.length_append, m.length_header, hbody,
      Nat.add_assoc]
  rw [parseFrom, add_of_lt (by omega), ok_bind, if_pos (by omega), haround.header, ok_bind, hhead,
    ok_bind, if_neg hb, m.slice_name, ok_bind, m.slice_size, ok_bind, m.octal_sizeField, ok_bind,
    m.get_typeflag, ok_bind, ok_bind, add_of_lt (by omega), ok_bind, m.readCstr_nameField]
  dsimp only
  rw [haround.entryOf (by omega), ok_bind, mul_of_lt (by omega), ok_bind, add_of_lt (by omega),
    ok_bind, hnext]
  rfl

/-- The zero blocks end it. -/
theorem parseFrom_zeros {tar front : Bytes} (fuel : Nat) (htar : tar = front ++ zeros (2 * block))
    (hlen : tar.length < 2 ^ 63) : parseFrom tar (fuel + 1) front.length = .ok [] := by
  have hblock : block = 512 := rfl
  have hsum : tar.length = front.length + 2 * block := by
    rw [htar, List.length_append, length_zeros]
  have hslice : slice tar front.length (front.length + block) = .ok (zeros block) := by
    refine slice_mid front (zeros block) (zeros block) ?_ rfl (by rw [length_zeros])
    rw [htar, List.append_assoc, zeros, zeros, ← List.replicate_add, Nat.two_mul]
  rw [parseFrom, add_of_lt (by omega), ok_bind, if_pos (by omega), hslice, ok_bind]
  rfl

theorem parseFrom_members {tar : Bytes} (front : Bytes) (hlen : tar.length < 2 ^ 63)
    {ms : List Member} {fuel : Nat} (hfuel : ms.length < fuel) (htar : tar = front ++ archive ms) :
    parseFrom tar fuel front.length = .ok (ms.map Member.entry) := by
  induction ms generalizing front fuel with
  | nil =>
    obtain ⟨n, rfl⟩ := Nat.exists_eq_succ_of_ne_zero (Nat.ne_of_gt hfuel)
    exact parseFrom_zeros n htar hlen
  | cons m ms ih =>
    obtain ⟨n, rfl⟩ := Nat.exists_eq_succ_of_ne_zero (Nat.ne_of_gt (Nat.lt_of_le_of_lt
      (Nat.zero_le _) hfuel))
    have hsplit : tar = front ++ m.packed ++ archive ms := by
      rw [htar, archive, List.flatMap_cons, archive]
      simp only [List.append_assoc]
    rw [List.length_cons] at hfuel
    rw [Nat.succ_eq_add_one, parseFrom_member n hsplit hlen,
      ih (front ++ m.packed) (by omega) hsplit]
    rfl

/-- **The parser gives back the members.** -/
theorem parse_archive {ms : List Member} (hlen : (archive ms).length < 2 ^ 63) :
    parse (archive ms) = .ok (ms.map Member.entry) := by
  have hfuel : ms.length < (archive ms).length / block + 1 := by
    have hle : ∀ ms : List Member, ms.length * block ≤ (ms.flatMap Member.packed).length := by
      intro ms
      induction ms with
      | nil => simp
      | cons m ms ih =>
        rw [List.flatMap_cons, List.length_append, Member.packed, List.length_append,
          m.length_header, List.length_cons, Nat.add_mul]
        omega
    have := hle ms
    rw [Nat.lt_add_one_iff, Nat.le_div_iff_mul_le (by decide), archive, List.length_append]
    omega
  exact parseFrom_members [] hlen hfuel rfl

/-! ## 4. The tree and the mount -/

/-- No file shares its path with another member, and none stands where another needs a directory. -/
structure Consistent (ms : List Member) : Prop where
  distinct : ms.Pairwise fun a b =>
    a.isDir = false ∨ b.isDir = false → components a.path ≠ components b.path
  leaves : ∀ a ∈ ms, ∀ b ∈ ms, a.isDir = false → components a.path <+: components b.path →
    components a.path = components b.path

/-- The tree of an archive. -/
def tree (ms : List Member) : InodeNode :=
  (InodeNode.dir [slash]).withEntries (ms.map Member.entry)

theorem fromTar_archive {ms : List Member} (hlen : (archive ms).length < 2 ^ 63) :
    InodeNode.fromTar (archive ms) = .ok (tree ms) := by
  rw [InodeNode.fromTar, parse_archive hlen]
  rfl

/-- Below the root, the first member that has something to say decides. -/
theorem view_tree (ms : List Member) {q : List Str} (hq : q ≠ []) :
    (tree ms).view q = ms.findSome? fun m =>
      InodeNode.adds (InodeNode.ofEntry m.entry) (components m.path) q := by
  have hroot : (InodeNode.dir [slash]).view q = none := by
    rw [InodeNode.dir, InodeNode.view_leaf [slash] (.dir, []), if_neg hq]
  rw [tree, InodeNode.view_withEntries, hroot, Option.none_or, List.findSome?_map]
  rfl

theorem adds_eq_none {kd : FileKind × Bytes} {path q : List Str} (h : ¬ q <+: path) :
    InodeNode.adds kd path q = none := by
  have hne : q ≠ path := fun he => h (he ▸ List.prefix_refl q)
  rw [InodeNode.adds, if_neg hne, if_neg h]

/-- **A file stands at its path.** -/
theorem view_file {ms : List Member} (h : Consistent ms) {m : Member} (hm : m ∈ ms)
    {contents : Bytes} (hc : m.contents = some contents) :
    (tree ms).view (components m.path) = some (.file, contents) := by
  have hfile : m.isDir = false := by rw [Member.isDir, hc]; rfl
  obtain ⟨before, after, hms⟩ := List.append_of_mem hm
  -- no member before it reaches to its path
  have hskip : before.findSome? (fun b => InodeNode.adds (InodeNode.ofEntry b.entry)
      (components b.path) (components m.path)) = none := by
    rw [List.findSome?_eq_none_iff]
    intro b hb
    refine adds_eq_none fun hpre => ?_
    have hmem : b ∈ ms := hms ▸ List.mem_append_left _ hb
    have hdistinct := h.distinct
    rw [hms, List.pairwise_append] at hdistinct
    exact hdistinct.2.2 b hb m (List.mem_cons_self ..) (.inr hfile)
      (h.leaves m hm b hmem hfile hpre).symm
  have hself : InodeNode.adds (InodeNode.ofEntry m.entry) (components m.path) (components m.path) =
      some (.file, contents) := by
    have hof : InodeNode.ofEntry m.entry = (.file, contents) := by
      rw [InodeNode.ofEntry, Member.entry, hfile, Member.data, hc]
      rfl
    rw [InodeNode.adds, if_pos rfl, hof]
  rw [view_tree ms m.named, hms, List.findSome?_append, hskip, Option.none_or,
    List.findSome?_cons, hself]

theorem view_missing {ms : List Member} {q : List Str} (hq : q ≠ [])
    (h : ∀ m ∈ ms, ¬ q <+: components m.path) : (tree ms).view q = none := by
  rw [view_tree ms hq, List.findSome?_eq_none_iff]
  exact fun m hm => adds_eq_none (h m hm)

theorem foldlM_node (n : InodeNode) (path : List Str) :
    path.foldlM Inode.lookup (.node n) = (path.foldlM InodeNode.lookup n).map Inode.node := by
  induction path generalizing n with
  | nil => rfl
  | cons c cs ih =>
    rw [List.foldlM_cons, List.foldlM_cons, Inode.lookup]
    rcases n.lookup c with e | m
    · rfl
    · exact ih m

/-- `/initrd/` in front of a path. -/
def underInitrd (path : Str) : Str := ascii ['/', 'i', 'n', 'i', 't', 'r', 'd'] ++ slash :: path

theorem resolve_initrd (root : InodeNode) (path : Str) :
    resolve Inode.lookup (System.mountTable root) (underInitrd path) =
      match root.walk (components path) with
      | some n => .ok (.node n)
      | none => .error .notFound := by
  have hmounts : System.mountTable root = [(ascii ['/', 'd', 'e', 'v'], Inode.devDir),
      (ascii ['/', 'p', 'r', 'o', 'c'], Inode.procDir)] ++
      (ascii ['/', 'i', 'n', 'i', 't', 'r', 'd'], Inode.node root) :: [] := rfl
  rw [hmounts, underInitrd, resolve_under Inode.lookup rfl, foldlM_node, InodeNode.foldlM_lookup]
  · rcases root.walk (components path) with - | n
    · rfl
    · rfl
  · intro m hm
    rcases List.mem_cons.mp hm with rfl | hm
    · rfl
    · rw [List.mem_singleton] at hm
      subst hm
      rfl
  · intro m hm
    cases hm

/-! ## 5. Reading -/

/-- Reads of the given sizes, up to one that returns 0: what they read, and whether one did. -/
def drain (s : System) (fd : Nat) : List Nat → Option (Bytes × Bool)
  | [] => some ([], false)
  | n :: sizes =>
    match (s.read fd n pure).result with
    | .ok (.ok 0, _, _) => some ([], true)
    | .ok (.ok _, s', bytes) => (drain s' fd sizes).map fun r => (bytes ++ r.1, r.2)
    | _ => none

/-- Whatever the sizes, as long as none is zero: the reads succeed, what they read is the beginning
    of `contents`, all of it once one of them returns 0, and one does before there are more of them
    than bytes. -/
def Yields (s : System) (fd : Nat) (contents : Bytes) : Prop :=
  ∀ sizes : List Nat, (∀ n ∈ sizes, 0 < n) → ∃ bytes done, drain s fd sizes = some (bytes, done) ∧
    bytes <+: contents ∧ (done = true → bytes = contents) ∧
    (contents.length < sizes.length → done = true)

/-- What there is to be read from a file without a queue. -/
def Inode.contents (d : Devices) : Inode → Option Bytes
  | console => some []
  | null => some []
  | procFile gen => some (d.texts gen)
  | node n => some n.data
  | _ => none

theorem Inode.read_contents {d : Devices} {i : Inode} {contents : Bytes}
    (h : i.contents d = some contents) (offset len : Nat) :
    i.read d offset len = (.ok (readAt contents offset len), d) := by
  have hnone : readAt [] offset len = [] := if_pos (Nat.zero_le _)
  rcases i with - | - | - | - | - | - | gen | n | idx
  case console | null =>
    cases h
    rw [hnone]
    rfl
  case procFile | node =>
    cases h
    rfl
  all_goals cases h

/-- A read that the inode answers moves the offset. -/
theorem System.read_eq {s : System} {fd offset len : Nat} {i : Inode} {bytes : Bytes}
    {devices : Devices} (hget : Slots.get s.fds fd = some ⟨i, offset⟩)
    (hread : i.read s.devices offset len = (.ok bytes, devices))
    (hoff : offset + bytes.length < 2 ^ 64) :
    (s.read fd len pure).result =
      .ok (.ok bytes.length,
        { s with
          devices
          fds := Slots.update s.fds fd fun f => { f with offset := offset + bytes.length } },
        bytes) := by
  rw [System.read, hget]
  dsimp only
  rw [hread]
  dsimp only
  rw [Traced.result_bind, Traced.result_pure, exec_ok_bind, Traced.result_bind, System.advance,
    add_of_lt hoff]
  rfl

/-- It comes back only if the offset has room for it. -/
theorem System.read_fits {s : System} {fd offset len : Nat} {i : Inode} {bytes : Bytes}
    {devices : Devices} {r : FsResult Nat × System × Bytes}
    (hget : Slots.get s.fds fd = some ⟨i, offset⟩)
    (hread : i.read s.devices offset len = (.ok bytes, devices))
    (h : (s.read fd len pure).result = .ok r) : offset + bytes.length < 2 ^ 64 := by
  rw [System.read, hget] at h
  dsimp only at h
  rw [hread, Traced.result_bind] at h
  obtain ⟨_, -, h⟩ := bind_eq_ok.mp h
  rw [Traced.result_bind] at h
  obtain ⟨s₁, hs₁, -⟩ := bind_eq_ok.mp h
  exact (System.advance_eq_ok.mp (lift_eq_ok.mp hs₁)).1

/-- A read of a file without a queue. -/
theorem System.read_contents {s : System} {fd offset : Nat} {i : Inode} {contents : Bytes}
    (len : Nat)
    (hget : Slots.get s.fds fd = some ⟨i, offset⟩) (hi : i.contents s.devices = some contents)
    (hoff : offset + contents.length < 2 ^ 64) :
    (s.read fd len pure).result =
      .ok (.ok (readAt contents offset len).length,
        { s with
          fds := Slots.update s.fds fd fun f =>
            { f with offset := offset + (readAt contents offset len).length } },
        readAt contents offset len) := by
  refine System.read_eq hget (Inode.read_contents hi offset len) ?_
  rw [length_readAt]
  omega

/-- A read of a file of the ramdisk. -/
theorem read_node {s : System} {fd offset : Nat} {n : InodeNode} (len : Nat)
    (hget : Slots.get s.fds fd = some ⟨.node n, offset⟩)
    (hoff : offset + n.data.length < 2 ^ 64) :
    ∃ s', (s.read fd len pure).result =
        .ok (.ok (readAt n.data offset len).length, s', readAt n.data offset len) ∧
      Slots.get s'.fds fd = some ⟨.node n, offset + (readAt n.data offset len).length⟩ := by
  refine ⟨_, System.read_contents len hget rfl hoff, ?_⟩
  rw [Slots.get_update, if_pos rfl, hget]
  rfl

/-- From any offset on, what is left of the contents. -/
theorem drain_node {s : System} {fd offset : Nat} {n : InodeNode} {sizes : List Nat}
    (hget : Slots.get s.fds fd = some ⟨.node n, offset⟩) (hle : offset ≤ n.data.length)
    (hdata : n.data.length < 2 ^ 63) (hpos : ∀ k ∈ sizes, 0 < k) :
    ∃ bytes done, drain s fd sizes = some (bytes, done) ∧ bytes <+: n.data.drop offset ∧
      (done = true → bytes = n.data.drop offset) ∧
      (n.data.length - offset < sizes.length → done = true) := by
  induction sizes generalizing s offset with
  | nil =>
    refine ⟨[], false, rfl, List.nil_prefix, ?_, ?_⟩
    · intro h
      cases h
    · intro h
      cases h
  | cons len sizes ih =>
    obtain ⟨s', hread, hget'⟩ := read_node len hget (by omega)
    have hlen := length_readAt n.data offset len
    have hlenpos := hpos len (List.mem_cons_self ..)
    rw [drain, hread]
    rcases hk : (readAt n.data offset len).length with - | k
    · -- nothing is left
      have hnil : n.data.drop offset = [] := List.drop_eq_nil_of_le (by omega)
      rw [hnil]
      exact ⟨[], true, rfl, List.nil_prefix, fun _ => rfl, fun _ => rfl⟩
    · obtain ⟨bytes, done, hdrain, hpre, hdone, hend⟩ := ih hget' (by omega)
        fun k hk => hpos k (List.mem_cons_of_mem _ hk)
      have hsplit := readAt_append_drop n.data offset len
      refine ⟨readAt n.data offset len ++ bytes, done, ?_, ?_, ?_, ?_⟩
      · show (drain s' fd sizes).map _ = _
        rw [hdrain]
        rfl
      · rw [← hsplit]
        exact (List.prefix_append_right_inj _).mpr hpre
      · intro h
        rw [hdone h, hsplit]
      · intro h
        rw [List.length_cons] at h
        exact hend (by omega)

/-! ## 6. The round trip -/

theorem hole_lt {ι : Type} {t : FdTable ι} (h : ∃ fd < maxFds, Slots.get t fd = none) :
    Slots.hole t < maxFds := by
  obtain ⟨fd, hfd, hnone⟩ := h
  refine Nat.lt_of_le_of_lt (Nat.le_of_not_lt fun hlt => ?_) hfd
  exact Slots.get_ne_none_of_lt_hole hlt hnone

/-- Opening a path that resolves, while a descriptor is free. -/
theorem openPath_ok {s : System} {path : Str} {inode : Inode}
    (hres : resolve Inode.lookup s.mounts path = .ok inode)
    (hfree : ∃ fd < maxFds, Slots.get s.fds fd = none) :
    ∃ fd s', s.openPath path = (.ok fd, s') ∧ Slots.get s'.fds fd = some ⟨inode, 0⟩ := by
  refine ⟨Slots.hole s.fds, { s with fds := Slots.insert s.fds ⟨inode, 0⟩ }, ?_, ?_⟩
  · rw [System.openPath_eq, hres]
    dsimp only
    rw [System.installInode_eq, if_pos (.inl (hole_lt hfree))]
  · rw [Slots.get_insert, if_pos rfl]

/-- **The round trip of the ramdisk.** Pack any consistent list of members, mount the result at
    /initrd. While a descriptor is free, opening the path of a file gives a descriptor whose reads,
    of any sizes but zero, yield its contents; and a path that is not that of a member, nor the
    beginning of one, is not found. -/
theorem initrd_round_trip {ms : List Member} (hms : Consistent ms)
    (hlen : (archive ms).length < 2 ^ 63) :
    ∃ root, InodeNode.fromTar (archive ms) = .ok root ∧
      ∀ s : System, s.mounts = System.mountTable root →
        ((∃ fd < maxFds, Slots.get s.fds fd = none) →
          ∀ m ∈ ms, ∀ contents, m.contents = some contents →
            ∃ fd s', s.openPath (underInitrd m.path) = (.ok fd, s') ∧ Yields s' fd contents) ∧
        ∀ path, components path ≠ [] →
          (∀ m ∈ ms, ¬ components path <+: components m.path) →
          s.openPath (underInitrd path) = (.error .notFound, s) := by
  refine ⟨tree ms, fromTar_archive hlen, fun s hs => ⟨fun hfree m hm contents hc => ?_,
    fun path hpath hnot => ?_⟩⟩
  · obtain ⟨n, hwalk, hn⟩ := Option.map_eq_some_iff.mp (view_file hms hm hc)
    have hdata : n.data = contents := congrArg Prod.snd hn
    have hsmall : contents.length < 8 ^ 11 := by
      have hm := m.small
      rw [hc] at hm
      exact hm
    have hres : resolve Inode.lookup s.mounts (underInitrd m.path) = .ok (.node n) := by
      rw [hs, resolve_initrd, hwalk]
    obtain ⟨fd, s', hopen, hget⟩ := openPath_ok hres hfree
    refine ⟨fd, s', hopen, fun sizes hpos => ?_⟩
    obtain ⟨bytes, done, hdrain, hpre, hdone, hend⟩ := drain_node hget (Nat.zero_le _)
      (by rw [hdata]; omega) hpos
    rw [List.drop_zero, hdata] at hpre hdone
    rw [Nat.sub_zero, hdata] at hend
    exact ⟨bytes, done, hdrain, hpre, hdone, hend⟩
  · have hwalk : (tree ms).walk (components path) = none :=
      Option.map_eq_none_iff.mp (view_missing hpath hnot)
    have hres : resolve Inode.lookup s.mounts (underInitrd path) = .error .notFound := by
      rw [hs, resolve_initrd, hwalk]
    rw [System.openPath_eq, hres]

/-- A directory `a` and a file `a//b` of three bytes. -/
def sampleMembers : List Member :=
  [{ path := ascii ['a'], contents := none, owner := Vector.replicate 24 0x30#8,
     stamp := Vector.replicate 20 0x30#8, rest := Vector.replicate 355 0#8,
     valid := by decide, nulFree := by decide, short := by decide, named := by decide,
     small := by decide },
   { path := ascii ['a', '/', '/', 'b'], contents := some [1#8, 2#8, 3#8],
     owner := Vector.replicate 24 0x30#8, stamp := Vector.replicate 20 0x30#8,
     rest := Vector.replicate 355 0#8, valid := by decide, nulFree := by decide, short := by decide,
     named := by decide, small := by decide }]

/-- The sample archive: the file is read through `/initrd/a/b` in two pieces. -/
theorem initrd_round_trip_sample :
    ∃ root fd s', InodeNode.fromTar (archive sampleMembers) = .ok root ∧
      System.openPath ⟨[], System.mountTable root, .quiet none⟩
      (underInitrd (ascii ['a', '/', '/', 'b'])) =
        (.ok fd, s') ∧
      drain s' fd [2, 5, 1, 1] = some ([1#8, 2#8, 3#8], true) := by
  have hms : Consistent sampleMembers := by
    constructor
    · decide
    · decide
  have hlen : (archive sampleMembers).length < 2 ^ 63 := by
    simp [archive, sampleMembers, Member.packed, Member.length_body, Member.data, block]
  obtain ⟨root, hroot, hall⟩ := initrd_round_trip hms hlen
  obtain ⟨fd, s', hopen, hyields⟩ := (hall ⟨[], System.mountTable root, .quiet none⟩ rfl).1
    ⟨0, by decide, rfl⟩ _ (List.mem_cons_of_mem _ (List.mem_cons_self ..)) _ rfl
  obtain ⟨bytes, done, hdrain, -, hdone, hend⟩ := hyields [2, 5, 1, 1] (by decide)
  have htrue := hend (by decide)
  rw [htrue, hdone htrue] at hdrain
  exact ⟨root, fd, s', hroot, hopen, hdrain⟩

end SimpleLinux.Fs
