/-
  File:      SimpleLinux/Process/Elf.lean
  Subject:   The ELF loader: process/elf.rs.

  `load` checks length, magic and class, and then trusts the file: it indexes it with the fields it
  finds there, maps the pages of every `PT_LOAD` segment that are not mapped yet, copies the file
  bytes, clears the tail, and maps the four stack pages.

  * `u16At`, `u32At`, `u64At`, `programHeader`, `ensureMapped`, `loadSegment`, `load` -- the code;
  * `field`, `segments`, `HeaderOk`, `TableInside` -- what a file says, and when reading it is in
    bounds; `load_ok_iff` -- what a load that returns has done.
-/
import SimpleLinux.Memory.Vmm

namespace SimpleLinux.Elf

open Rust Paging Vmm

/-! ## 1. The loader -/

abbrev Bytes := List (BitVec 8)

/-- `\x7fELF` -/
def elfMagic : Bytes := [0x7f#8, 0x45#8, 0x4c#8, 0x46#8]

def ptLoad : Nat := 1

def pfW : Nat := 2

def pfX : Nat := 1

def userStackTop : Nat := 0x500000

def userStackPages : Nat := 4

structure LoadedImage where
  entry : Nat
  stackTop : Nat
  deriving DecidableEq

/-- `from_le_bytes`. -/
def leNat : Bytes → Nat
  | [] => 0
  | b :: bs => b.toNat + 256 * leNat bs

-- A slice is shorter than 2 ^ 63 bytes: an offset a little past one that was read does not
-- overflow.

def u16At (b : Bytes) (off : Nat) : Res Nat := do
  let b₀ ← get b off
  let b₁ ← get b (off + 1)
  return leNat [b₀, b₁]

def u32At (b : Bytes) (off : Nat) : Res Nat := do
  let b₀ ← get b off
  let b₁ ← get b (off + 1)
  let b₂ ← get b (off + 2)
  let b₃ ← get b (off + 3)
  return leNat [b₀, b₁, b₂, b₃]

def u64At (b : Bytes) (off : Nat) : Res Nat := do
  let a ← slice b off (off + 8)
  return leNat a

/-- `write_bytes(addr, 0, n)`. -/
def writeBytes (v : State) (addr n : Nat) : Exec State :=
  if addr = 0 then .error .precondition
  else do
    let space ← zeroFill v.space addr n
    return { v with space }

/-- Copying into a slice made by `from_raw_parts_mut(addr, bytes.len())`. -/
def copyBytes (v : State) (addr : Nat) (bytes : Bytes) : Exec State := do
  let space ← storeAll v.space addr bytes
  return { v with space }

def ensureMapped (v : State) (page : Nat) (flags : Flags) : Exec State :=
  if (v.translate (page * pageSize)).isSome then .ok v
  else do
    match ← lift v.allocFrame with
    | (none, _) => throw (.expect "out of physical frames")
    | (some frame, v) =>
      match ← lift (v.mapPage page frame flags) with
      | (.error _, _) => throw (.expect "failed to map user page")
      | (.ok _, v) => writeBytes v (page * pageSize) pageSize

/-- `ensure_mapped(Page::containing_address(VirtAddr::new(addr)), flags)`. -/
def ensureMappedAt (v : State) (addr : Nat) (flags : Flags) : Exec State := do
  let addr ← lift (virtAddr addr)
  ensureMapped v (addr / pageSize) flags

/-- The fields `load` reads of a `PT_LOAD` program header. -/
structure Segment where
  flagsDw : Nat
  off : Nat
  vaddr : Nat
  filesz : Nat
  memsz : Nat
  deriving DecidableEq

def Segment.ptFlags (s : Segment) : Flags where
  writable := s.flagsDw &&& pfW ≠ 0
  user := true
  noExecute := s.flagsDw &&& pfX = 0

/-- The program header at `p`; `none` if it is not a `PT_LOAD`. -/
def programHeader (elf : Bytes) (p : Nat) : Res (Option Segment) := do
  if (← u32At elf p) ≠ ptLoad then return none
  else
    let flagsDw ← u32At elf (p + 4)
    let off ← u64At elf (p + 8)
    let vaddr ← u64At elf (p + 16)
    let filesz ← u64At elf (p + 32)
    let memsz ← u64At elf (p + 40)
    return some { flagsDw, off, vaddr, filesz, memsz }

/-- `ensure_mapped` for one page after the other. -/
def mapPages (v : State) (flags : Flags) (pages : List Nat) : Exec State :=
  pages.foldlM (fun v pg => ensureMappedAt v (pg * pageSize) flags) v

def loadSegment (elf : Bytes) (v : State) (s : Segment) : Exec State := do
  let end₁ ← lift (add 64 s.vaddr s.memsz)
  let end₂ ← lift (add 64 end₁ 4095)
  let startPage := s.vaddr / pageSize
  let endPage := end₂ / pageSize
  let v ← mapPages v s.ptFlags (List.range' startPage (endPage - startPage))
  if s.vaddr = 0 ∨ 2 ^ 63 ≤ s.filesz then throw .precondition
  else
    let stop ← lift (add 64 s.off s.filesz)
    let bytes ← lift (slice elf s.off stop)
    let v ← copyBytes v s.vaddr bytes
    if s.filesz < s.memsz then
      let tail ← lift (add 64 s.vaddr s.filesz)
      writeBytes v tail (s.memsz - s.filesz)
    else return v

/-- One turn of the loop over the program headers. -/
def loadHeader (elf : Bytes) (phoff phentsize : Nat) (v : State) (i : Nat) : Exec State := do
  let p ← lift (add 64 phoff (i * phentsize))
  match ← lift (programHeader elf p) with
  | none => return v
  | some s => loadSegment elf v s

def stackFlags : Flags where
  writable := true
  user := true
  noExecute := true

def mapStack (v : State) : Exec State :=
  (List.range userStackPages).foldlM
    (fun v i => ensureMappedAt v (userStackTop - (i + 1) * pageSize) stackFlags) v

def load (v : State) (elf : Bytes) : Exec (Except String LoadedImage × State) := do
  if elf.length < 64 ∨ elf.take 4 ≠ elfMagic then return (.error "not an ELF64 file", v)
  else if (← lift (get elf 4)) ≠ 2#8 then return (.error "not ELFCLASS64", v)
  else
    let entry ← lift (u64At elf 0x18)
    let phoff ← lift (u64At elf 0x20)
    let phentsize ← lift (u16At elf 0x36)
    let phnum ← lift (u16At elf 0x38)
    let v ← (List.range phnum).foldlM (loadHeader elf phoff phentsize) v
    let v ← mapStack v
    return (.ok { entry, stackTop := userStackTop }, v)

/-! ## 2. What a file says -/

/-- The little-endian number in the `n` bytes from `off` on. -/
def field (elf : Bytes) (off n : Nat) : Nat := leNat ((elf.drop off).take n)

theorem field_succ {elf : Bytes} {off : Nat} {b : BitVec 8} (h : elf[off]? = some b) (n : Nat) :
    field elf off (n + 1) = b.toNat + 256 * field elf (off + 1) n := by
  obtain ⟨hlt, rfl⟩ := List.getElem?_eq_some_iff.mp h
  unfold field
  rw [List.drop_eq_getElem_cons hlt, List.take_succ_cons, leNat]

theorem field_zero (elf : Bytes) (off : Nat) : field elf off 0 = 0 := rfl

theorem u16At_eq_ok {elf : Bytes} {off x : Nat} :
    u16At elf off = .ok x ↔ off + 2 ≤ elf.length ∧ x = field elf off 2 := by
  constructor
  · intro h
    obtain ⟨b₀, h₀, h⟩ := bind_eq_ok.mp h
    obtain ⟨b₁, h₁, h⟩ := bind_eq_ok.mp h
    rw [get_eq_ok] at h₀ h₁
    cases h
    refine ⟨(List.getElem?_eq_some_iff.mp h₁).1, ?_⟩
    rw [field_succ h₀, field_succ h₁, field_zero]
    rfl
  · rintro ⟨hle, rfl⟩
    have h₀ := List.getElem?_eq_getElem (l := elf) (i := off) (by omega)
    have h₁ := List.getElem?_eq_getElem (l := elf) (i := off + 1) (by omega)
    rw [u16At, get_eq_ok.mpr h₀, ok_bind, get_eq_ok.mpr h₁, ok_bind, field_succ h₀, field_succ h₁,
      field_zero]
    rfl

theorem u32At_eq_ok {elf : Bytes} {off x : Nat} :
    u32At elf off = .ok x ↔ off + 4 ≤ elf.length ∧ x = field elf off 4 := by
  constructor
  · intro h
    obtain ⟨b₀, h₀, h⟩ := bind_eq_ok.mp h
    obtain ⟨b₁, h₁, h⟩ := bind_eq_ok.mp h
    obtain ⟨b₂, h₂, h⟩ := bind_eq_ok.mp h
    obtain ⟨b₃, h₃, h⟩ := bind_eq_ok.mp h
    rw [get_eq_ok] at h₀ h₁ h₂ h₃
    cases h
    refine ⟨(List.getElem?_eq_some_iff.mp h₃).1, ?_⟩
    rw [field_succ h₀, field_succ h₁, field_succ h₂, field_succ h₃, field_zero]
    rfl
  · rintro ⟨hle, rfl⟩
    have h₀ := List.getElem?_eq_getElem (l := elf) (i := off) (by omega)
    have h₁ := List.getElem?_eq_getElem (l := elf) (i := off + 1) (by omega)
    have h₂ := List.getElem?_eq_getElem (l := elf) (i := off + 2) (by omega)
    have h₃ := List.getElem?_eq_getElem (l := elf) (i := off + 3) (by omega)
    rw [u32At, get_eq_ok.mpr h₀, ok_bind, get_eq_ok.mpr h₁, ok_bind, get_eq_ok.mpr h₂, ok_bind,
      get_eq_ok.mpr h₃, ok_bind, field_succ h₀, field_succ h₁, field_succ h₂, field_succ h₃,
      field_zero]
    rfl

theorem u64At_eq_ok {elf : Bytes} {off x : Nat} :
    u64At elf off = .ok x ↔ off + 8 ≤ elf.length ∧ x = field elf off 8 := by
  have hfield : field elf off 8 = leNat ((elf.take (off + 8)).drop off) := by
    rw [field, List.drop_take, Nat.add_sub_cancel_left]
  rw [u64At, bind_eq_ok, hfield]
  constructor
  · intro ⟨bs, hs, h⟩
    obtain ⟨-, hle, rfl⟩ := slice_eq_ok.mp hs
    cases h
    exact ⟨hle, rfl⟩
  · rintro ⟨hle, rfl⟩
    exact ⟨_, slice_eq_ok.mpr ⟨Nat.le_add_right .., hle, rfl⟩, rfl⟩

/-- What the header says. -/
structure Header where
  entry : Nat
  phoff : Nat
  phentsize : Nat
  phnum : Nat

def header (elf : Bytes) : Header where
  entry := field elf 0x18 8
  phoff := field elf 0x20 8
  phentsize := field elf 0x36 2
  phnum := field elf 0x38 2

/-- The file passes the checks that `load` makes. -/
def HeaderOk (elf : Bytes) : Prop :=
  64 ≤ elf.length ∧ elf.take 4 = elfMagic ∧ elf[4]? = some 2#8

instance (elf : Bytes) : Decidable (HeaderOk elf) := inferInstanceAs (Decidable (_ ∧ _))

/-- The offset of program header `i`. -/
def phdr (elf : Bytes) (i : Nat) : Nat := (header elf).phoff + i * (header elf).phentsize

/-- What a `PT_LOAD` program header at `p` says. -/
def Segment.at (elf : Bytes) (p : Nat) : Segment where
  flagsDw := field elf (p + 4) 4
  off := field elf (p + 8) 8
  vaddr := field elf (p + 16) 8
  filesz := field elf (p + 32) 8
  memsz := field elf (p + 40) 8

/-- The segment of program header `i`, if it is a `PT_LOAD`. -/
def segmentOf (elf : Bytes) (i : Nat) : Option Segment :=
  if field elf (phdr elf i) 4 = ptLoad then some (.at elf (phdr elf i)) else none

/-- The segments, in table order. -/
def segments (elf : Bytes) : List Segment :=
  (List.range (header elf).phnum).filterMap (segmentOf elf)

/-- Reading program header `i` stays inside the file. -/
def HeaderInside (elf : Bytes) (i : Nat) : Prop :=
  phdr elf i + 4 ≤ elf.length ∧
    (field elf (phdr elf i) 4 = ptLoad → phdr elf i + 48 ≤ elf.length)

instance (elf : Bytes) (i : Nat) : Decidable (HeaderInside elf i) :=
  inferInstanceAs (Decidable (_ ∧ _))

def TableInside (elf : Bytes) : Prop := ∀ i < (header elf).phnum, HeaderInside elf i

instance (elf : Bytes) : Decidable (TableInside elf) := Nat.decidableBallLT _ _

theorem programHeader_eq_ok {elf : Bytes} {i : Nat} {r : Option Segment} :
    programHeader elf (phdr elf i) = .ok r ↔ HeaderInside elf i ∧ r = segmentOf elf i := by
  unfold programHeader HeaderInside segmentOf
  generalize phdr elf i = p
  rw [bind_eq_ok]
  constructor
  · intro ⟨ty, hty, h⟩
    obtain ⟨hle, rfl⟩ := u32At_eq_ok.mp hty
    by_cases hload : field elf p 4 = ptLoad
    · rw [if_neg (not_not.mpr hload)] at h
      obtain ⟨flags, hflags, h⟩ := bind_eq_ok.mp h
      obtain ⟨off, hoff, h⟩ := bind_eq_ok.mp h
      obtain ⟨vaddr, hvaddr, h⟩ := bind_eq_ok.mp h
      obtain ⟨filesz, hfilesz, h⟩ := bind_eq_ok.mp h
      obtain ⟨memsz, hmemsz, h⟩ := bind_eq_ok.mp h
      obtain ⟨-, rfl⟩ := u32At_eq_ok.mp hflags
      obtain ⟨-, rfl⟩ := u64At_eq_ok.mp hoff
      obtain ⟨-, rfl⟩ := u64At_eq_ok.mp hvaddr
      obtain ⟨-, rfl⟩ := u64At_eq_ok.mp hfilesz
      obtain ⟨hend, rfl⟩ := u64At_eq_ok.mp hmemsz
      cases h
      rw [if_pos hload]
      exact ⟨⟨hle, fun _ => hend⟩, rfl⟩
    · rw [if_pos hload] at h
      cases h
      rw [if_neg hload]
      exact ⟨⟨hle, fun h => absurd h hload⟩, rfl⟩
  · rintro ⟨⟨hle, hend⟩, rfl⟩
    refine ⟨_, u32At_eq_ok.mpr ⟨hle, rfl⟩, ?_⟩
    by_cases hload : field elf p 4 = ptLoad
    · have hend := hend hload
      rw [if_neg (not_not.mpr hload), if_pos hload,
        u32At_eq_ok.mpr ⟨show p + 4 + 4 ≤ elf.length by omega, rfl⟩, ok_bind,
        u64At_eq_ok.mpr ⟨show p + 8 + 8 ≤ elf.length by omega, rfl⟩, ok_bind,
        u64At_eq_ok.mpr ⟨show p + 16 + 8 ≤ elf.length by omega, rfl⟩, ok_bind,
        u64At_eq_ok.mpr ⟨show p + 32 + 8 ≤ elf.length by omega, rfl⟩, ok_bind,
        u64At_eq_ok.mpr ⟨show p + 40 + 8 ≤ elf.length by omega, rfl⟩, ok_bind]
      rfl
    · rw [if_pos hload, if_neg hload]
      rfl

/-- A program header that can be read. -/
theorem loadHeader_eq {elf : Bytes} (hlen : elf.length < 2 ^ 63) {i : Nat}
    (hin : HeaderInside elf i)
    (v : State) : loadHeader elf (header elf).phoff (header elf).phentsize v i =
      (segmentOf elf i).toList.foldlM (loadSegment elf) v := by
  have hlt : phdr elf i < 2 ^ 64 := by have := hin.1; omega
  have hadd : add 64 (header elf).phoff (i * (header elf).phentsize) = .ok (phdr elf i) :=
    add_eq_ok.mpr ⟨hlt, rfl⟩
  rw [loadHeader, hadd, lift_ok, exec_ok_bind, programHeader_eq_ok.mpr ⟨hin, rfl⟩, lift_ok,
    exec_ok_bind]
  rcases segmentOf elf i with - | s
  · rfl
  · simp

theorem headerInside_of_ok {elf : Bytes} {v v' : State} {i : Nat}
    (h : loadHeader elf (header elf).phoff (header elf).phentsize v i = .ok v') :
    HeaderInside elf i := by
  obtain ⟨p, hp, h⟩ := bind_eq_ok.mp h
  obtain ⟨-, rfl⟩ := add_eq_ok.mp (lift_eq_ok.mp hp)
  obtain ⟨r, hr, -⟩ := bind_eq_ok.mp h
  exact (programHeader_eq_ok.mp (lift_eq_ok.mp hr)).1

/-- The loop over program headers that can be read loads the segments. -/
theorem foldlM_loadHeader {elf : Bytes} (hlen : elf.length < 2 ^ 63) {is : List Nat}
    (hin : ∀ i ∈ is, HeaderInside elf i) (v : State) :
    is.foldlM (loadHeader elf (header elf).phoff (header elf).phentsize) v =
      (is.filterMap (segmentOf elf)).foldlM (loadSegment elf) v := by
  induction is generalizing v with
  | nil => rfl
  | cons i is ih =>
    obtain ⟨hi, his⟩ := List.forall_mem_cons.mp hin
    have hsplit : (i :: is).filterMap (segmentOf elf) =
        (segmentOf elf i).toList ++ is.filterMap (segmentOf elf) := by
      rw [List.filterMap_cons]
      rcases segmentOf elf i with - | s
      · rfl
      · rfl
    rw [List.foldlM_cons, loadHeader_eq hlen hi, hsplit, List.foldlM_append]
    exact congrArg (bind _) (funext fun v₁ => ih his v₁)

theorem inside_of_foldlM {elf : Bytes} {is : List Nat} {v v' : State}
    (h : is.foldlM (loadHeader elf (header elf).phoff (header elf).phentsize) v = .ok v') :
    ∀ i ∈ is, HeaderInside elf i := by
  induction is generalizing v with
  | nil => exact fun i hi => absurd hi List.not_mem_nil
  | cons i is ih =>
    obtain ⟨v₁, h₁, h⟩ := bind_eq_ok.mp h
    exact List.forall_mem_cons.mpr ⟨headerInside_of_ok h₁, ih h⟩

/-- A file that fails a check is refused at once. -/
theorem load_refused {elf : Bytes} (h : ¬ HeaderOk elf) (v : State) :
    ∃ msg, load v elf = .ok (.error msg, v) := by
  unfold load
  by_cases hmagic : elf.length < 64 ∨ elf.take 4 ≠ elfMagic
  · rw [if_pos hmagic]
    exact ⟨_, rfl⟩
  · rw [if_neg hmagic]
    obtain ⟨hlen, htake⟩ := not_or.mp hmagic
    have hget := List.getElem?_eq_getElem (l := elf) (i := 4) (by omega)
    have hclass : elf[4]? ≠ some 2#8 := fun hc => h ⟨by omega, not_not.mp htake, hc⟩
    rw [hget, ne_eq, Option.some.injEq] at hclass
    rw [get_eq_ok.mpr hget, lift_ok, exec_ok_bind, if_pos hclass]
    exact ⟨_, rfl⟩

/-- A file that passes them is loaded. -/
theorem load_eq {elf : Bytes} (h : HeaderOk elf) (v : State) :
    load v elf = (do
      let v₁ ← (List.range (header elf).phnum).foldlM
        (loadHeader elf (header elf).phoff (header elf).phentsize) v
      let v₂ ← mapStack v₁
      return (.ok { entry := (header elf).entry, stackTop := userStackTop }, v₂)) := by
  obtain ⟨h64, hmagic, hclass⟩ := h
  unfold load
  rw [if_neg (not_or.mpr ⟨by omega, not_not.mpr hmagic⟩), get_eq_ok.mpr hclass, lift_ok,
    exec_ok_bind, if_neg (not_not.mpr rfl),
    u64At_eq_ok.mpr ⟨show 0x18 + 8 ≤ elf.length by omega, rfl⟩, lift_ok, exec_ok_bind,
    u64At_eq_ok.mpr ⟨show 0x20 + 8 ≤ elf.length by omega, rfl⟩, lift_ok, exec_ok_bind,
    u16At_eq_ok.mpr ⟨show 0x36 + 2 ≤ elf.length by omega, rfl⟩, lift_ok, exec_ok_bind,
    u16At_eq_ok.mpr ⟨show 0x38 + 2 ≤ elf.length by omega, rfl⟩, lift_ok, exec_ok_bind]
  rfl

/-- A file whose program headers are inside it: the segments in table order, then the stack. -/
theorem load_eq_segments {elf : Bytes} (h : HeaderOk elf) (hlen : elf.length < 2 ^ 63)
    (hin : TableInside elf) (v : State) :
    load v elf = (do
      let v₁ ← (segments elf).foldlM (loadSegment elf) v
      let v₂ ← mapStack v₁
      return (.ok { entry := (header elf).entry, stackTop := userStackTop }, v₂)) := by
  rw [load_eq h, foldlM_loadHeader hlen fun i hi => hin i (List.mem_range.mp hi), segments]

/-- **What a load that returns has done.** -/
theorem load_ok_iff {elf : Bytes} (h : HeaderOk elf) (hlen : elf.length < 2 ^ 63) {v v' : State}
    {r : Except String LoadedImage} :
    load v elf = .ok (r, v') ↔ TableInside elf ∧
      ∃ v₁, (segments elf).foldlM (loadSegment elf) v = .ok v₁ ∧ mapStack v₁ = .ok v' ∧
        r = .ok { entry := (header elf).entry, stackTop := userStackTop } := by
  constructor
  · intro he
    have hin : TableInside elf := by
      rw [load_eq h] at he
      obtain ⟨v₁, h₁, -⟩ := bind_eq_ok.mp he
      exact fun i hi => inside_of_foldlM h₁ i (List.mem_range.mpr hi)
    rw [load_eq_segments h hlen hin] at he
    obtain ⟨v₁, h₁, he⟩ := bind_eq_ok.mp he
    obtain ⟨v₂, h₂, he⟩ := bind_eq_ok.mp he
    cases he
    exact ⟨hin, v₁, h₁, h₂, rfl⟩
  · rintro ⟨hin, v₁, h₁, h₂, rfl⟩
    rw [load_eq_segments h hlen hin]
    exact bind_eq_ok.mpr ⟨v₁, h₁, bind_eq_ok.mpr ⟨v', h₂, rfl⟩⟩

end SimpleLinux.Elf
