/-
  File:      SimpleLinux/Main.lean
  Subject:   kernel_main from the memory map to the end of Phase 6: main.rs.

  Memory and heap, the frames of the self test, the file layer and its self test, and the two user
  programs, one stage after the other. What a stage asks for is what the ones before have left: the
  frames for the programs are among those that the self test has given back, and their pages are not
  those of the heap.

  * `allocateMany`, `memorySelfTest` -- `memory_self_test`; `memorySelfTest_spec` -- its numbers,
    and that it gives back what it takes;
  * `fsCatLoop`, `fsCat`, `phase6SelfTest` -- the self test of the file layer; `fsCat_contents` --
    it shows the beginning of a file and leaves the file layer as it was;
  * `kernelMain`, `Up` -- the stages, and what they come to; `boot_runs_programs`.

  NOT here: the descriptor tables of the CPU and the clock, the vectors of `memory_self_test`, the
  breakpoint, what `println!` sends to the serial port, and that the heap may be too small for what
  is allocated on it (the ramdisk of a large archive).
-/
import SimpleLinux.Fs.Directory
import SimpleLinux.Fs.Parser
import SimpleLinux.Memory.Heap
import SimpleLinux.Shell.Cat
import SimpleLinux.User.Sessions

namespace SimpleLinux.Main

open Rust Paging Fs User
open X86 (Reg Word)
open Net (Bytes)
open Pmm (PhysFrame BitmapFrameAllocator)
open Memory (BootInfo heapPages)
open Vmm (Canonical)

/-! ## 1. The code -/

/-- `(0..n).map(|_| alloc.allocate_frame()).collect::<Option<Vec<_>>>()`, which ends with the first
    `None`. -/
def allocateMany :
    Nat → BitmapFrameAllocator → Res (Option (List PhysFrame) × BitmapFrameAllocator)
  | 0, a => .ok (some [], a)
  | n + 1, a => do
    match ← a.allocFrame with
    | (none, a) => return (none, a)
    | (some p, a) =>
      let (ps, a) ← allocateMany n a
      return (ps.map (p :: ·), a)

/-- What `memory_self_test` prints of the frames. -/
structure FrameCounts where
  before : Nat
  during : Nat
  after : Nat
  deriving DecidableEq

def memorySelfTest (a : BitmapFrameAllocator) : Exec (FrameCounts × BitmapFrameAllocator) := do
  let before ← lift a.freeCount
  match ← lift (allocateMany 1000 a) with
  | (none, _) => throw (.expect "failed to allocate 1000 test frames")
  | (some frames, a) =>
    let during ← lift a.freeCount
    let a ← lift (frames.foldlM BitmapFrameAllocator.freeFrame a)
    let after ← lift a.freeCount
    return (⟨before, during, after⟩, a)

/-- What `fs_cat` prints. -/
inductive CatReport
  | refused (e : FsError)
  | shown (total : Nat) (text : Str)
  deriving DecidableEq

def nonUtf8 : Str := ascii ['<', 'n', 'o', 'n', '-', 'u', 't', 'f', '8', '>']

/-- `from_utf8(&scratch[..total]).unwrap_or("<non-utf8>")`, with `total`. -/
def CatReport.ofBytes (bytes : Bytes) : CatReport :=
  .shown bytes.length ((Utf8.fromUtf8 bytes).getD nonUtf8)

/-- The loop of `fs_cat` over a buffer of `len` bytes, of which `scratch` have been read. Every turn
    but the last one brings a byte at least, so that `len` turns are enough. -/
def fsCatLoop (len : Nat) : Nat → System → Nat → Bytes → Exec (Bytes × System)
  | 0, s, _, scratch => .ok (scratch, s)
  | turns + 1, s, fd, scratch =>
    if scratch.length < len then do
      match ← (s.read fd (len - scratch.length) pure).result with
      | (.ok 0, s, _) => return (scratch, s)
      | (.ok (_ + 1), s, bytes) => fsCatLoop len turns s fd (scratch ++ bytes)
      | (.error _, s, _) => return (scratch, s)
    else .ok (scratch, s)

def fsCat (s : System) (path : Str) (len : Nat) : Exec (CatReport × System) :=
  match s.openPath path with
  | (.error e, s) => .ok (.refused e, s)
  | (.ok fd, s) => do
    let (bytes, s) ← fsCatLoop len len s fd []
    return (.ofBytes bytes, (s.close fd).2)

/-- What `phase6_self_test` prints. -/
structure Phase6Report where
  initrd : FsResult (List Str)
  dev : FsResult (List Str)
  motd : CatReport
  uptime : CatReport
  meminfo : CatReport
  nope : CatReport

def motdName : Str := ascii ['m', 'o', 't', 'd', '.', 't', 'x', 't']

def phase6SelfTest (s : System) : Exec (Phase6Report × System) := do
  let initrd := s.listDir (ascii ['/', 'i', 'n', 'i', 't', 'r', 'd'])
  let dev := s.listDir (ascii ['/', 'd', 'e', 'v'])
  let (motd, s) ← fsCat s (underInitrd motdName) 256
  let (uptime, s) ← fsCat s (ascii ['/', 'p', 'r', 'o', 'c', '/', 'u', 'p', 't', 'i', 'm', 'e']) 256
  let (meminfo, s) ←
    fsCat s (ascii ['/', 'p', 'r', 'o', 'c', '/', 'm', 'e', 'm', 'i', 'n', 'f', 'o']) 256
  let (nope, s) ← fsCat s (ascii ['/', 'n', 'o', 'p', 'e']) 256
  return (⟨initrd, dev, motd, uptime, meminfo, nope⟩, s)

/-- `MSG` of gen_hello_elf.py -/
def helloMsg : Bytes :=
  ascii ['H', 'e', 'l', 'l', 'o', ' ', 'f', 'r', 'o', 'm', ' ', 'u', 's', 'e', 'r', ' ', 'r', 'i',
    'n', 'g', '3', '!', '\n']

/-- `MSG` of gen_vfs_elf.py -/
def vfsMsg : Bytes :=
  ascii ['H', 'e', 'l', 'l', 'o', ' ', 'v', 'i', 'a', ' ', 'V', 'F', 'S', ' ', '/', 'd', 'e', 'v',
    '/', 'c', 'o', 'n', 's', 'o', 'l', 'e', '!', '\n']

/-- `USER_ELF` and `VFS_ELF`. -/
def userJob : Job := .hello helloMsg
def vfsJob : Job := .vfs consolePath vfsMsg

/-- What the kernel finds: what the bootloader tells and has mapped, the archive, the devices. -/
structure Machine where
  physicalMemoryOffset : Option Nat
  info : BootInfo
  space : Space
  tables : Finset (Nat × Nat)
  tar : Bytes
  devices : Devices

/-- Where the boot is after Phase 6, and what it has reported on the way. -/
structure Booted where
  counts : FrameCounts
  report : Phase6Report
  codes : List (Option Word)
  world : World

/-- `kernel_main` up to Phase 7; the registers are those at the entries of the two programs. -/
def kernelMain (fuel : Nat) (m : Machine) (regs regs' : Reg → Word) : Exec Booted := do
  let mm ← Memory.init m.physicalMemoryOffset m.info m.space m.tables
  let (counts, frames) ← memorySelfTest mm.frames
  let sys ← System.init m.tar m.devices
  let (report, sys) ← phase6SelfTest sys
  let (codes, world) ←
    runAll fuel ⟨{ mm with frames }, sys⟩ [(userJob.elf, regs), (vfsJob.elf, regs')]
  return { counts, report, codes, world }

/-! ## 2. The frames of the self test -/

/-- The numbers of some frames. -/
def numbers (ps : List PhysFrame) : Finset Nat := (ps.map PhysFrame.number).toFinset

theorem numbers_cons (p : PhysFrame) (ps : List PhysFrame) :
    numbers (p :: ps) = insert p.number (numbers ps) := by
  rw [numbers, List.map_cons, List.toFinset_cons, numbers]

/-- **The first loop** takes as many frames as it is to take, or there are fewer. -/
theorem allocateMany_spec (n : Nat) (a : BitmapFrameAllocator) :
    (n ≤ a.freeSet.card ∧ ∃ ps a', allocateMany n a = .ok (some ps, a') ∧
      numbers ps ⊆ a.freeSet ∧ (numbers ps).card = n ∧ a'.freeSet = a.freeSet \ numbers ps) ∨
    (a.freeSet.card < n ∧ ∃ a', allocateMany n a = .ok (none, a')) := by
  induction n generalizing a with
  | zero =>
    refine .inl ⟨Nat.zero_le _, [], a, rfl, Finset.empty_subset _, rfl, ?_⟩
    exact (Finset.sdiff_empty).symm
  | succ n ih =>
    rcases a.allocFrame_spec with ⟨hempty, halloc⟩ | ⟨p, a₁, halloc, hp, hfree, -⟩
    · refine .inr ⟨?_, a, ?_⟩
      · rw [hempty]
        exact Nat.succ_pos n
      · rw [allocateMany, halloc]
        rfl
    · have hcard : a₁.freeSet.card + 1 = a.freeSet.card := by
        rw [hfree, Finset.card_erase_add_one hp]
      rcases ih a₁ with ⟨hle, ps, a', hmany, hsub, hn, hfree'⟩ | ⟨hlt, a', hmany⟩
      · have hnot : p.number ∉ numbers ps := by
          intro hmem
          have := hsub hmem
          rw [hfree] at this
          exact Finset.notMem_erase _ _ this
        refine .inl ⟨by omega, p :: ps, a', ?_, ?_, ?_, ?_⟩
        · rw [allocateMany, halloc]
          simp only [ok_bind, hmany]
          rfl
        · rw [numbers_cons, Finset.insert_subset_iff]
          refine ⟨hp, hsub.trans ?_⟩
          rw [hfree]
          exact Finset.erase_subset _ _
        · rw [numbers_cons, Finset.card_insert_of_notMem hnot, hn]
        · rw [hfree', hfree, numbers_cons, Finset.sdiff_insert,
            Finset.erase_sdiff_comm]
      · refine .inr ⟨by omega, a', ?_⟩
        rw [allocateMany, halloc]
        simp only [ok_bind, hmany]
        rfl

/-- **The second loop** gives frames back. -/
theorem foldlM_freeFrame (ps : List PhysFrame) (a : BitmapFrameAllocator)
    (h : ∀ p ∈ ps, p.number < Pmm.numFrames) :
    ∃ a', ps.foldlM BitmapFrameAllocator.freeFrame a = .ok a' ∧
      a'.freeSet = a.freeSet ∪ numbers ps := by
  induction ps generalizing a with
  | nil => exact ⟨a, rfl, (Finset.union_empty _).symm⟩
  | cons p ps ih =>
    obtain ⟨a₁, hfree, -, hset, -⟩ := a.freeFrame_spec p
    obtain ⟨a', hrest, hset'⟩ := ih a₁ fun q hq => h q (List.mem_cons_of_mem _ hq)
    refine ⟨a', ?_, ?_⟩
    · rw [List.foldlM_cons, hfree]
      exact hrest
    · rw [hset', hset (h p List.mem_cons_self), numbers_cons, Finset.insert_union,
        Finset.union_insert]

/-- **The frames of `memory_self_test`**: a thousand fewer, and all of them back. -/
theorem memorySelfTest_spec (a : BitmapFrameAllocator) :
    (1000 ≤ a.freeSet.card ∧ ∃ a', memorySelfTest a =
        .ok (⟨a.freeSet.card, a.freeSet.card - 1000, a.freeSet.card⟩, a') ∧
      a'.freeSet = a.freeSet) ∨
    (a.freeSet.card < 1000 ∧
      memorySelfTest a = .error (.expect "failed to allocate 1000 test frames")) := by
  rcases allocateMany_spec 1000 a with ⟨hle, ps, a₁, hmany, hsub, hn, hfree⟩ | ⟨hlt, a₁, hmany⟩
  · have hin : ∀ p ∈ ps, p.number < Pmm.numFrames := by
      intro p hp
      have hmem : p.number ∈ numbers ps := List.mem_toFinset.mpr (List.mem_map_of_mem hp)
      exact (Pmm.BitmapFrameAllocator.mem_freeSet.mp (hsub hmem)).1
    obtain ⟨a', hback, hset⟩ := foldlM_freeFrame ps a₁ hin
    have hsame : a'.freeSet = a.freeSet := by
      rw [hset, hfree, Finset.sdiff_union_of_subset hsub]
    have hduring : a₁.freeSet.card = a.freeSet.card - 1000 := by
      rw [hfree, Finset.card_sdiff_of_subset hsub, hn]
    refine .inl ⟨hle, a', ?_, hsame⟩
    rw [memorySelfTest, a.freeCount_spec, hmany]
    dsimp only [lift_ok, bind, Except.bind]
    rw [a₁.freeCount_spec, hduring, hback]
    dsimp only [lift_ok]
    rw [a'.freeCount_spec, hsame]
    rfl
  · refine .inr ⟨hlt, ?_⟩
    rw [memorySelfTest, a.freeCount_spec, hmany]
    rfl

/-! ## 3. The self test of the file layer -/

/-- The same but for the descriptor `fd`. -/
structure Aside (fd : Nat) (s s' : System) : Prop where
  mounts : s'.mounts = s.mounts
  devices : s'.devices = s.devices
  others : ∀ j, j ≠ fd → Slots.get s'.fds j = Slots.get s.fds j

/-- The same. -/
structure Restored (s s' : System) : Prop where
  mounts : s'.mounts = s.mounts
  devices : s'.devices = s.devices
  fds : ∀ fd, Slots.get s'.fds fd = Slots.get s.fds fd

section

variable {s s' s'' : System} {fd len : Nat} {i : Inode} {contents : Bytes} {path : Str}

theorem Aside.trans (h : Aside fd s s') (h' : Aside fd s' s'') : Aside fd s s'' where
  mounts := h'.mounts.trans h.mounts
  devices := h'.devices.trans h.devices
  others j hj := (h'.others j hj).trans (h.others j hj)

theorem Restored.refl (s : System) : Restored s s := ⟨rfl, rfl, fun _ => rfl⟩

theorem Restored.trans (h : Restored s s') (h' : Restored s' s'') : Restored s s'' where
  mounts := h'.mounts.trans h.mounts
  devices := h'.devices.trans h.devices
  fds fd := (h'.fds fd).trans (h.fds fd)

theorem Restored.hole (h : Restored s s') : Slots.hole s'.fds = Slots.hole s.fds := by
  refine Slots.hole_congr fun fd => ?_
  rw [h.fds]

/-- A file that is opened, used and closed again. -/
theorem Aside.close (h : Aside (Slots.hole s.fds) { s with fds := Slots.insert s.fds ⟨i, 0⟩ } s') :
    Restored s (s'.close (Slots.hole s.fds)).2 := by
  refine ⟨h.mounts, h.devices, fun fd => ?_⟩
  have hclose : Slots.get (s'.close (Slots.hole s.fds)).2.fds fd =
      if Slots.hole s.fds = fd then none else Slots.get s'.fds fd := by
    rw [System.close, Fs.close]
    rcases hget : Slots.get s'.fds (Slots.hole s.fds) with - | f
    · dsimp only
      split
      · rename_i he
        rw [← he, hget]
      · rfl
    · exact Slots.get_clear ..
  rw [hclose]
  by_cases he : Slots.hole s.fds = fd
  · rw [if_pos he, ← he, Slots.get_hole]
  · rw [if_neg he, h.others fd (Ne.symm he), Slots.get_insert, if_neg (Ne.symm he)]

/-- **The loop of `fs_cat`** fills its buffer with the beginning of the file. -/
theorem fsCatLoop_contents {turns : Nat} {scratch : Bytes}
    (hget : Slots.get s.fds fd = some ⟨i, scratch.length⟩)
    (hi : i.contents s.devices = some contents)
    (hread : contents.take scratch.length = scratch) (hfit : scratch.length ≤ len)
    (hlen : len < 2 ^ 63) (hturns : len ≤ scratch.length + turns) :
    ∃ s', fsCatLoop len turns s fd scratch = .ok (contents.take len, s') ∧ Aside fd s s' := by
  induction turns generalizing s scratch with
  | zero =>
    have hfull : scratch.length = len := Nat.le_antisymm hfit hturns
    refine ⟨s, ?_, rfl, rfl, fun _ _ => rfl⟩
    rw [fsCatLoop, ← hfull, hread]
  | succ turns ih =>
    rw [fsCatLoop]
    by_cases hmore : scratch.length < len
    · rw [if_pos hmore]
      have hcount := length_readAt contents scratch.length (len - scratch.length)
      have hsum : scratch ++ readAt contents scratch.length (len - scratch.length) =
          contents.take len := by
        rw [readAt_eq]
        nth_rewrite 1 [← hread]
        rw [← List.take_add, Nat.add_sub_cancel' hfit]
      rw [System.read_eq hget (Inode.read_contents hi _ _) (by omega)]
      generalize readAt contents scratch.length (len - scratch.length) = bytes at hcount hsum
      have haside : Aside fd s { s with
          fds := Slots.update s.fds fd fun f =>
              { f with offset := scratch.length + bytes.length } } := by
        refine ⟨rfl, rfl, fun j hj => ?_⟩
        rw [Slots.get_update, if_neg (Ne.symm hj)]
      rcases bytes with - | ⟨byte, bytes⟩
      · -- the end of the file
        rw [← hsum, List.append_nil]
        exact ⟨_, rfl, haside⟩
      · rw [List.length_cons] at hcount
        have hnew : (scratch ++ byte :: bytes).length = scratch.length + (bytes.length + 1) :=
          List.length_append
        have hget' : Slots.get (Slots.update s.fds fd fun f =>
            { f with offset := scratch.length + (byte :: bytes).length }) fd =
            some ⟨i, (scratch ++ byte :: bytes).length⟩ := by
          rw [Slots.get_update, if_pos rfl, hget, hnew]
          rfl
        have htaken : contents.take (scratch ++ byte :: bytes).length =
            scratch ++ byte :: bytes := by
          rw [hsum, List.length_take, List.take_eq_take_iff]
          omega
        obtain ⟨s', hrest, hrest'⟩ := ih (s := { s with fds := _ }) hget' hi htaken
          (by omega) (by omega)
        exact ⟨s', hrest, haside.trans hrest'⟩
    · have hfull : scratch.length = len := Nat.le_antisymm hfit (Nat.le_of_not_lt hmore)
      rw [if_neg hmore, ← hfull, hread]
      exact ⟨s, rfl, rfl, rfl, fun _ _ => rfl⟩

/-- **`fs_cat` of a file** shows its first `len` bytes, and leaves the file layer as it was. -/
theorem fsCat_contents (hres : resolve Inode.lookup s.mounts path = .ok i)
    (hroom : Slots.hole s.fds < maxFds) (hi : i.contents s.devices = some contents)
    (hlen : len < 2 ^ 63) :
    ∃ s', fsCat s path len = .ok (.ofBytes (contents.take len), s') ∧ Restored s s' := by
  have hget : Slots.get (Slots.insert s.fds ⟨i, 0⟩) (Slots.hole s.fds) = some ⟨i, 0⟩ := by
    rw [Slots.get_insert, if_pos rfl]
  have hall : ∃ s',
      fsCatLoop len len { s with fds := Slots.insert s.fds ⟨i, 0⟩ } (Slots.hole s.fds) [] =
        .ok (contents.take len, s') ∧
      Aside (Slots.hole s.fds) { s with fds := Slots.insert s.fds ⟨i, 0⟩ } s' :=
    fsCatLoop_contents hget hi rfl (Nat.zero_le len) hlen (Nat.le_add_left ..)
  obtain ⟨s', hloop, haside⟩ := hall
  refine ⟨_, ?_, haside.close⟩
  rw [fsCat, Shell.openPath_room hres (.inl hroom)]
  dsimp only
  rw [hloop]
  rfl

/-- `fs_cat` of a path that leads nowhere. -/
theorem fsCat_refused {e : FsError} (hres : resolve Inode.lookup s.mounts path = .error e)
    (len : Nat) : fsCat s path len = .ok (.refused e, s) := by
  rw [fsCat, System.openPath_eq, hres]

end

/-- What the self test reports over a ramdisk. -/
def reportOf (root : InodeNode) (d : Devices) : Phase6Report where
  initrd := root.listDir
  dev := Inode.devDir.listDir
  motd :=
    match root.walk [motdName] with
    | some n => .ofBytes (n.data.take 256)
    | none => .refused .notFound
  uptime := .ofBytes ((d.texts .uptime).take 256)
  meminfo := .ofBytes ((d.texts .meminfo).take 256)
  nope := .refused .notFound

/-- **The self test of the file layer** returns, and leaves the file layer as it was. -/
theorem phase6SelfTest_spec {s : System} {root : InodeNode}
    (hmounts : s.mounts = System.mountTable root) (hroom : Slots.hole s.fds < maxFds) :
    ∃ s', phase6SelfTest s = .ok (reportOf root s.devices, s') ∧ Restored s s' := by
  have hmotd : ∃ s₁, fsCat s (underInitrd motdName) 256 = .ok ((reportOf root s.devices).motd, s₁) ∧
      Restored s s₁ := by
    have hres := resolve_initrd root motdName
    rw [← hmounts, show components motdName = [motdName] from by decide] at hres
    rw [reportOf]
    rcases hwalk : root.walk [motdName] with - | n
    · rw [hwalk] at hres
      exact ⟨s, fsCat_refused hres 256, .refl s⟩
    · rw [hwalk] at hres
      exact fsCat_contents hres hroom rfl (by decide)
  obtain ⟨s₁, h₁, r₁⟩ := hmotd
  have hproc : ∀ {s₂ : System} (path : Str) (gen : ProcText), Restored s s₂ →
      resolve Inode.lookup (System.mountTable root) path = .ok (.procFile gen) →
      ∃ s₃, fsCat s₂ path 256 = .ok (.ofBytes ((s.devices.texts gen).take 256), s₃) ∧
        Restored s s₃ := by
    intro s₂ path gen r hres
    rw [← hmounts, ← r.mounts] at hres
    have hcat : ∃ s₃, fsCat s₂ path 256 = .ok (.ofBytes ((s₂.devices.texts gen).take 256), s₃) ∧
        Restored s₂ s₃ := fsCat_contents hres (r.hole ▸ hroom) rfl (by decide)
    obtain ⟨s₃, hcat, r'⟩ := hcat
    rw [r.devices] at hcat
    exact ⟨s₃, hcat, r.trans r'⟩
  obtain ⟨s₂, h₂, r₂⟩ :=
    hproc (ascii ['/', 'p', 'r', 'o', 'c', '/', 'u', 'p', 't', 'i', 'm', 'e']) .uptime r₁ rfl
  obtain ⟨s₃, h₃, r₃⟩ :=
    hproc (ascii ['/', 'p', 'r', 'o', 'c', '/', 'm', 'e', 'm', 'i', 'n', 'f', 'o']) .meminfo r₂ rfl
  have h₄ : fsCat s₃ (ascii ['/', 'n', 'o', 'p', 'e']) 256 = .ok (.refused .notFound, s₃) := by
    refine fsCat_refused ?_ 256
    rw [r₃.mounts, hmounts]
    rfl
  refine ⟨s₃, ?_, r₃⟩
  rw [phase6SelfTest, System.listDir, System.listDir, hmounts, h₁]
  dsimp only [bind, Except.bind]
  rw [h₂]
  dsimp only
  rw [h₃]
  dsimp only
  rw [h₄]
  rfl

/-! ## 4. From the memory map to the user programs -/

/-- The pages of the two programs: one for the code, four for the stack. -/
def programPages : List Nat := 0x400 :: Elf.stackPages

theorem pagesOf_userJob : pagesOf userJob.payload = programPages := by decide

theorem pagesOf_vfsJob : pagesOf vfsJob.payload = programPages := by decide

theorem userJob_fits : userJob.Fits := ⟨by decide, fun _ _ h => by cases h⟩

theorem vfsJob_fits : vfsJob.Fits := by
  refine ⟨by decide, fun path msg h => ?_⟩
  cases h
  decide

theorem mem_programPages {p : Nat} (hp : p ∈ programPages) : 0x400 ≤ p ∧ p < 0x500 := by
  rcases List.mem_cons.mp hp with rfl | hp
  · decide
  · have := stack_page hp
    omega

theorem heapPages_high {p : Nat} (hp : p ∈ heapPages) : 0x500 ≤ p := by
  have hlow := (Memory.mem_heapPages.mp hp).1
  exact Nat.le_trans (by decide) hlow

/-- The programs take a frame for each of their pages, and at most three for tables. -/
theorem need_programPages (v : Vmm.State) : Elf.need v programPages.toFinset ≤ 8 := by
  have hpages : programPages.toFinset.card = 5 := by decide
  have hkeys : (Elf.keysOf programPages.toFinset).card = 3 := by decide
  have hsub := Finset.card_le_card
    (Finset.sdiff_subset : Elf.keysOf programPages.toFinset \ v.tables ⊆
      Elf.keysOf programPages.toFinset)
  unfold Elf.need
  omega

/-- **`fs::init`** over an archive that fits a slice. -/
theorem systemInit_spec {tar : Bytes} (htar : tar.length < 2 ^ 63) (devices : Devices) :
    ∃ root, InodeNode.fromTar tar = .ok root ∧ System.init tar devices =
      .ok ⟨List.replicate 3 (some ⟨.console, 0⟩), System.mountTable root, devices⟩ := by
  obtain ⟨rs, -, hparse⟩ := parseFrom_findings htar 0 (by decide)
  have hroot : InodeNode.fromTar tar = .ok (.withEntries (.dir [slash]) (rs.map Record.entry)) := by
    rw [Nat.sub_zero] at hparse
    rw [InodeNode.fromTar, parse, hparse _ (Nat.lt_succ_self _)]
    rfl
  refine ⟨_, hroot, ?_⟩
  rw [System.init, hroot]
  rfl

/-- hello.elf writes to descriptor 1, and opens and closes nothing. -/
theorem hello_meaning {sys : System} (hout : Slots.get sys.fds 1 = some ⟨.console, 0⟩) :
    ∃ fds, userJob.meaning sys = .ok { sys with fds, devices := printed sys helloMsg } ∧
      ∀ fd, Slots.get fds fd = none ↔ Slots.get sys.fds fd = none := by
  have hwrite : (sys.write 1 (held helloMsg)).result = .ok (.ok helloMsg.length, _) :=
    write_console sys hout (by decide)
  refine ⟨Slots.update sys.fds 1 fun g => { g with offset := 0 + helloMsg.length }, ?_,
    fun fd => ?_⟩
  · rw [userJob, Job.meaning, show written helloMsg = helloMsg from rfl, hwrite]
    rfl
  · rw [Slots.get_update]
    split
    · exact Option.map_eq_none_iff
    · rfl

/-- **The programs**, on a thousand free frames and over the file layer of `fs::init`. -/
theorem programs_run {v : Vmm.State} (hvac : Vacant v) (hfree : 1000 ≤ v.free.card) {sys : System}
    {root : InodeNode} (hmounts : sys.mounts = System.mountTable root)
    (hout : Slots.get sys.fds 1 = some ⟨.console, 0⟩) (hhole : Slots.hole sys.fds = 3)
    (regs regs' : Reg → Word) {fuel : Nat} (hfuel : 12 ≤ fuel) :
    ∃ mm fds, runAll fuel ⟨v, sys⟩ [(userJob.elf, regs), (vfsJob.elf, regs')] =
        .ok ([some 0#64, some 0#64],
          ⟨mm, { sys with
            fds, devices := { sys.devices with
              serial := sys.devices.serial ++ (helloMsg ++ vfsMsg) } }⟩) ∧
      Used v programPages.toFinset mm ∧ vacancies fds = (vacancies sys.fds).erase 3 := by
  have hneed : Elf.need v programPages.toFinset ≤ v.free.card :=
    Nat.le_trans (need_programPages v) (Nat.le_trans (by decide) hfree)
  -- hello.elf
  obtain ⟨mm, hused, hrun⟩ := Job.runUser (w := ⟨v, sys⟩) userJob_fits hvac (.refl v) (by
    rw [pagesOf_userJob, Finset.empty_union]
    exact hneed)
  rw [pagesOf_userJob, Finset.empty_union] at hused
  obtain ⟨fds₁, hhello, hsame⟩ := hello_meaning hout
  have hhole₁ : Slots.hole fds₁ = 3 := (Slots.hole_congr hsame).trans hhole
  -- vfs.elf opens the console again
  obtain ⟨mm', hused', hrun'⟩ := Job.runUser
    (w := ⟨mm, { sys with fds := fds₁, devices := printed sys helloMsg }⟩) vfsJob_fits hvac hused
    (by
      rw [pagesOf_vfsJob, Finset.union_self]
      exact hneed)
  rw [pagesOf_vfsJob, Finset.union_self] at hused'
  have hres : resolve Inode.lookup sys.mounts consolePath = .ok .console := by
    rw [hmounts]
    rfl
  obtain ⟨fds, hvfs, hleft, -⟩ := @vfs_meaning_open
    { sys with fds := fds₁, devices := printed sys helloMsg } consolePath consolePath (by decide)
    hres (by rw [hhole₁]; decide) vfsMsg
  dsimp only at hleft
  refine ⟨mm', fds, ?_, hused', ?_⟩
  · rw [runAll, hrun regs fuel hfuel, hhello]
    dsimp only [bind, Except.bind, pure, Except.pure]
    rw [runAll, hrun' regs' fuel hfuel, vfsJob, hvfs, ← List.append_assoc]
    rfl
  · rw [hleft, hhole₁, vacancies_congr hsame]

/-- **After Phase 6**, over the ramdisk `root`, if `free` were the free frames before the heap took
    `heap` of them. -/
structure Up (root : InodeNode) (m : Machine) (free : Finset Nat) (heap : Nat) (r : Booted) :
    Prop where
  counts : r.counts = ⟨free.card - heap, free.card - heap - 1000, free.card - heap⟩
  report : r.report = reportOf root m.devices
  codes : r.codes = [some 0#64, some 0#64]
  mounts : r.world.sys.mounts = System.mountTable root
  /-- nothing has happened to the devices but the two messages through the console -/
  devices : r.world.sys.devices =
    { m.devices with serial := m.devices.serial ++ (helloMsg ++ vfsMsg) }
  /-- the three streams, and the file that vfs.elf leaves open -/
  left : vacancies r.world.sys.fds = Finset.Ico 4 maxFds
  /-- the heap and the programs are mapped, and user mode gets only at the programs -/
  mapped : ∀ p ∈ heapPages ++ programPages, ∃ pm, r.world.mm.space.pages p = some pm ∧
    pm.frame ∈ free ∧ pm.frame ∉ r.world.mm.free ∧ (pm.flags.user = true ↔ p ∈ programPages)
  /-- each of their pages has a frame of its own -/
  apart : Apart r.world.mm.space (· ∈ heapPages ++ programPages)
  kept : ∀ p ∉ heapPages ++ programPages, r.world.mm.space.pages p = m.space.pages p
  took : free.card ≤ r.world.mm.free.card + heap + 8

theorem vacancies_restored {s s' : System} (h : Restored s s') :
    vacancies s'.fds = vacancies s.fds := by
  refine vacancies_congr fun fd => ?_
  rw [h.fds]

theorem vacancies_streams (f : File Inode) :
    (vacancies (List.replicate 3 (some f))).erase 3 = Finset.Ico 4 maxFds := by
  ext fd
  have hget : Slots.get (List.replicate 3 (some f)) fd = none ↔ 3 ≤ fd := by
    rw [Slots.get, List.getElem?_replicate]
    split
    · simp
      omega
    · simp
      omega
  rw [Finset.mem_erase, mem_vacancies, hget, Finset.mem_Ico]
  omega

/-- The memory after the programs, against that after the heap. -/
theorem memory_after {free : Finset Nat} {pages : Nat → Option Mapping} {v v' mm : Vmm.State}
    (hheap : Memory.HeapMapped free pages v) (hsub : v.free ⊆ free)
    (hused : Used v' programPages.toFinset mm) (hspace : v'.space = v.space)
    (hfree : v'.free = v.free) :
    (∀ p ∈ heapPages ++ programPages, ∃ pm, mm.space.pages p = some pm ∧
      pm.frame ∈ free ∧ pm.frame ∉ mm.free ∧ (pm.flags.user = true ↔ p ∈ programPages)) ∧
    Apart mm.space (· ∈ heapPages ++ programPages) ∧
    ∀ p ∉ heapPages ++ programPages, mm.space.pages p = pages p := by
  have hl := hused.loading
  have hout : ∀ p ∉ programPages, mm.space.pages p = v.space.pages p := by
    intro p hp
    rw [hl.outside p (fun h => hp (List.mem_toFinset.mp h)), hspace]
  have hhigh : ∀ p ∈ heapPages, p ∉ programPages := by
    intro p hp hprog
    have := heapPages_high hp
    have := mem_programPages hprog
    omega
  -- a page of the heap has a frame that was taken before the programs were loaded
  have hback : ∀ p ∈ heapPages, ∃ f ∈ free, f ∉ v.free ∧
      mm.space.pages p = some ⟨f, Vmm.kernelDataFlags⟩ := by
    intro p hp
    rw [hout p (hhigh p hp)]
    exact hheap.backed p hp
  have hown : ∀ p ∈ programPages, ∃ pm, mm.space.pages p = some pm ∧ pm.frame ∈ v.free ∧
      pm.frame ∉ mm.free ∧ pm.flags.user = true := by
    intro p hp
    obtain ⟨pm, hpm, hin, hgone, huser, -⟩ := hl.own p (List.mem_toFinset.mpr hp)
    exact ⟨pm, hpm, hfree ▸ hin, hgone, huser⟩
  have hcross : ∀ p q pm qm, p ∈ heapPages → q ∈ programPages → mm.space.pages p = some pm →
      mm.space.pages q = some qm → pm.frame ≠ qm.frame := by
    intro p q pm qm hp hq hpm hqm he
    obtain ⟨f, -, hf, hmap⟩ := hback p hp
    obtain ⟨qm', hqm', hin, -⟩ := hown q hq
    cases hpm.symm.trans hmap
    cases hqm.symm.trans hqm'
    rw [← he] at hin
    exact hf hin
  have happart : Apart mm.space fun p => p ∈ heapPages ∨ p ∈ programPages := by
    refine Apart.or (fun p q pm qm hp hq hpm hqm he => ?_) (fun p q pm qm hp hq hpm hqm he => ?_)
      hcross
    · rw [hout p (hhigh p hp)] at hpm
      rw [hout q (hhigh q hq)] at hqm
      exact hheap.apart p q pm qm hp hq hpm hqm he
    · exact hl.apart p q pm qm (List.mem_toFinset.mpr hp) (List.mem_toFinset.mpr hq) hpm hqm he
  refine ⟨fun p hp => ?_, fun p q pm qm hp hq => ?_, fun p hp => ?_⟩
  · rcases List.mem_append.mp hp with hp | hp
    · obtain ⟨f, hf, hgone, hmap⟩ := hback p hp
      refine ⟨_, hmap, hf, fun hin => hgone ?_, ?_⟩
      · exact hfree ▸ hl.subset hin
      · exact iff_of_false Bool.false_ne_true (hhigh p hp)
    · obtain ⟨pm, hpm, hin, hgone, huser⟩ := hown p hp
      exact ⟨pm, hpm, hsub hin, hgone, iff_of_true huser hp⟩
  · exact happart p q pm qm (List.mem_append.mp hp) (List.mem_append.mp hq)
  · rw [List.mem_append, not_or] at hp
    rw [hout p hp.2]
    exact hheap.kept p hp.1

/-- **The boot runs the user programs.** For every memory map, archive and address space in which
    the pages of the heap and all of 0x400 to 0x4ff, where the programs go, are not mapped yet: if
    the free frames are too few for the heap, or for a thousand frames more, the boot stops with the
    message of the one or the other; otherwise it comes to the end of Phase 6, with everything as
    `Up` says. -/
theorem boot_runs_programs (m : Machine) {offset : Nat}
    (hphys : m.physicalMemoryOffset = some offset)
    (hoff : Canonical offset) (hk : m.info.kernelAddr + m.info.kernelLen < 2 ^ 64)
    (hheap : ∀ p ∈ heapPages, m.space.pages p = none)
    (huser : ∀ p, 0x400 ≤ p → p < 0x500 → m.space.pages p = none) (htar : m.tar.length < 2 ^ 63)
    (regs regs' : Reg → Word) {fuel : Nat} (hfuel : 12 ≤ fuel) :
    ∃ a root, Memory.seed m.info = .ok a ∧ InodeNode.fromTar m.tar = .ok root ∧
      ∃ heap, heap = Vmm.State.cost ⟨m.space, a, m.tables⟩ heapPages ∧ heap ≤ 259 ∧
        (a.freeSet.card < heap →
          kernelMain fuel m regs regs' = .error (.expect "failed to map heap page")) ∧
        (heap ≤ a.freeSet.card → a.freeSet.card < heap + 1000 →
          kernelMain fuel m regs regs' = .error (.expect "failed to allocate 1000 test frames")) ∧
        (heap + 1000 ≤ a.freeSet.card →
          ∃ r, kernelMain fuel m regs regs' = .ok r ∧ Up root m a.freeSet heap r) := by
  obtain ⟨a, hseed, -⟩ := Memory.seed_freeSet m.info hk
  obtain ⟨root, hroot, hinit⟩ := systemInit_spec htar m.devices
  refine ⟨a, root, hseed, hroot, _, rfl, Memory.cost_heapPages_le _, ?_⟩
  have hmem : Memory.init m.physicalMemoryOffset m.info m.space m.tables =
      Vmm.State.mapFresh "failed to map heap page" Vmm.kernelDataFlags ⟨m.space, a, m.tables⟩
      heapPages := by
    rw [hphys, Memory.init_eq hseed hoff, Memory.heapInit_eq]
  have hspec := Vmm.State.mapFresh_spec (v := ⟨m.space, a, m.tables⟩) Memory.heapPages_nodup hheap
    "failed to map heap page" Vmm.kernelDataFlags
  have hfree₀ : Vmm.State.free ⟨m.space, a, m.tables⟩ = a.freeSet := rfl
  rw [hfree₀] at hspec
  rw [kernelMain, hmem]
  rcases hspec with ⟨hle, v, he, hb⟩ | ⟨hlt, he⟩
  · have hmapped := Memory.HeapMapped.of_backed hb
    have hcard := hb.took.card
    have hsub := hb.took.subset
    rw [hfree₀] at hmapped hcard hsub
    have htests := memorySelfTest_spec v.frames
    rw [show v.frames.freeSet = v.free from rfl] at htests
    rw [he]
    dsimp only [bind, Except.bind]
    refine ⟨fun hlt => absurd hle (Nat.not_le.mpr hlt), ?_⟩
    rcases htests with ⟨hmany, frames, htest, hback⟩ | ⟨hfew, htest⟩
    · rw [htest, hinit]
      dsimp only
      refine ⟨fun _ hlt => by omega, fun _ => ?_⟩
      -- the file layer
      obtain ⟨sys, hphase, hsame⟩ := phase6SelfTest_spec
        (s := ⟨List.replicate 3 (some ⟨.console, 0⟩), System.mountTable root, m.devices⟩) rfl
        (Nat.lt_of_le_of_lt (Slots.hole_le _) (show 3 < maxFds by decide))
      rw [hphase]
      dsimp only
      -- the programs
      have hfree : Vmm.State.free { v with frames } = v.free := hback
      have hvacant : Vacant { v with frames } := by
        intro p hlo hhi
        have hp : p ∉ heapPages := fun hp => absurd (heapPages_high hp) (Nat.not_le.mpr hhi)
        exact (hmapped.kept p hp).trans (huser p hlo hhi)
      obtain ⟨mm, fds, hrun, hused, hleft⟩ := programs_run hvacant
        (hfree ▸ hmany) hsame.mounts ((hsame.fds 1).trans rfl) (hsame.hole.trans rfl) regs regs'
        hfuel
      rw [hrun]
      obtain ⟨hpages, hapart, hkept⟩ := memory_after hmapped hsub hused rfl hfree
      have htook := hused.loading.card
      have hfew := need_programPages { v with frames }
      refine ⟨_, rfl, ?_, rfl, rfl, hsame.mounts, ?_, ?_, hpages, hapart, hkept, ?_⟩
      · have hv : v.free.card = a.freeSet.card - Vmm.State.cost ⟨m.space, a, m.tables⟩
          heapPages := by omega
        rw [← hv]
      · dsimp only
        rw [hsame.devices]
      · rw [hleft, vacancies_restored hsame]
        exact vacancies_streams _
      · rw [hfree] at htook
        dsimp only
        omega
    · rw [htest]
      exact ⟨fun _ _ => rfl, fun hlt => by omega⟩
  · rw [he]
    exact ⟨fun _ => rfl, fun hle => absurd hle (Nat.not_le.mpr hlt), fun hle => by omega⟩

/-- An archive with motd.txt in it. -/
def motdMembers : List Member :=
  [{ path := motdName, contents := some (ascii ['h', 'i', '\n']),
     owner := Vector.replicate 24 0x30#8, stamp := Vector.replicate 20 0x30#8,
     rest := Vector.replicate 355 0#8, valid := by decide, nulFree := by decide, short := by decide,
     named := by decide, small := by decide }]

/-- The map of page-aligned regions, nothing mapped, that archive and no network card. -/
def alignedMachine : Machine where
  physicalMemoryOffset := some 0
  info := Memory.alignedMap
  space := Memory.emptySpace
  tables := ∅
  tar := archive motdMembers
  devices := .quiet none

theorem boot_runs_programs_aligned : ∃ root a heap r,
    kernelMain 12 alignedMachine (fun _ => 0#64) (fun _ => 7#64) = .ok r ∧
      Up root alignedMachine a heap r ∧ r.report.initrd = .ok [motdName] ∧
      r.report.motd = .shown 3 (ascii ['h', 'i', '\n']) ∧
      r.world.sys.devices.serial = helloMsg ++ vfsMsg := by
  have hthree : (ascii ['h', 'i', '\n']).length = 3 := rfl
  have hlen : (archive motdMembers).length < 2 ^ 63 := by
    simp [archive, motdMembers, Member.packed, Member.length_body, Member.data, block, hthree]
  obtain ⟨a, root, hseed, hroot, heap, -, hle, -, -, hup⟩ := boot_runs_programs alignedMachine rfl
    (show Canonical 0 by decide) (by decide) (fun _ _ => rfl) (fun _ _ _ => rfl) hlen
    (fun _ => 0#64) (fun _ => 7#64) (Nat.le_refl 12)
  cases (fromTar_archive hlen).symm.trans hroot
  have hroom := Memory.alignedMap_room hseed
  obtain ⟨r, hr, h⟩ := hup (by omega)
  refine ⟨_, a.freeSet, heap, r, hr, h, ?_, ?_, ?_⟩
  · rw [h.report]
    rfl
  · rw [h.report]
    rfl
  · rw [h.devices]
    rfl

end SimpleLinux.Main
