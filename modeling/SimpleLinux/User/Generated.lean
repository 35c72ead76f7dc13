/-
  File:      SimpleLinux/User/Generated.lean
  Subject:   The user programs: tools/gen_hello_elf.py and tools/gen_vfs_elf.py, and what run_user
             makes of them.

  Both scripts put hand-assembled code and its texts into one segment at 0x400000. `kernel_main`
  runs the two files one after the other in one address space, through the file layer that
  `fs::init` has set up. The texts are parameters here: any message, and any path.

  What a program is for is told by calls of the file layer alone (`Job.meaning`). The file that is
  generated for it, loaded where other such programs have run before, and executed from its entry
  with any registers, does exactly that (`runAll_refines`).

  * `Hello.code`, `Hello.elf`, `Vfs.code`, `Vfs.elf` -- the generators;
  * `Hello.code_eq`, `Vfs.code_eq` -- the bytes are lists of calls; `Hello.calls_meaning`,
    `Vfs.calls_meaning` -- what these calls do;
  * `loadSegment_good`, `load_single` -- such a file is loaded, and its bytes can be executed;
  * `runUser`, `runAll`, `Job.meaning`, `generated_programs_refine` -- any list of programs.
-/
import SimpleLinux.Process.ElfPermissions
import SimpleLinux.User.Ring3

namespace SimpleLinux.User

open Rust Paging Fs Asm Syscall
open X86 (Reg Word)
open Net (Bytes)
open Elf (pack oneSegment leNat field LoadedImage Loading userStackTop stackPages)

/-! ## 1. The generators -/

/-- `BASE` -/
def base : Nat := 0x400000

/-- `b"\x48\xc7" + modrm + struct.pack("<I", v)`: one of the moves of a constant. -/
def movImm32 (modrm : BitVec 8) (v : Nat) : Bytes := [0x48#8, 0xc7#8, modrm] ++ pack 4 v

def movRax (v : Nat) : Bytes := movImm32 0xc0#8 v

def movRdi (v : Nat) : Bytes := movImm32 0xc7#8 v

def movRsi (v : Nat) : Bytes := movImm32 0xc6#8 v

def movRdx (v : Nat) : Bytes := movImm32 0xc2#8 v

def movRsiQ (v : Nat) : Bytes := [0x48#8, 0xbe#8] ++ pack 8 v

def movRdiRax : Bytes := [0x48#8, 0x89#8, 0xc7#8]

def int80Code : Bytes := [0xcd#8, 0x80#8]

/-- The file around a payload; both scripts lay it out alike. -/
def elfOf (payload : Bytes) : Bytes := oneSegment base payload.length payload

namespace Hello

def codeLen : Nat := 7 + 7 + 10 + 7 + 2 + 7 + 7 + 2

def msgAddr : Nat := base + codeLen

/-- `write(1, msg, len)`, then `exit(0)`. -/
def code (msg : Bytes) : Bytes :=
  movRax 1 ++ movRdi 1 ++ movRsiQ msgAddr ++ movRdx msg.length ++ int80Code ++
    movRax 2 ++ movRdi 0 ++ int80Code

def payload (msg : Bytes) : Bytes := code msg ++ msg

def elf (msg : Bytes) : Bytes := elfOf (payload msg)

end Hello

namespace Vfs

def codeLen : Nat := (7 + 7 + 7 + 2) + (3 + 7 + 10 + 7 + 2) + (7 + 7 + 2)

def pathAddr : Nat := base + codeLen

/-- `PATH` ends in a NUL. -/
def msgAddr (path : Bytes) : Nat := pathAddr + (path ++ [0#8]).length

/-- `fd = open(path)`, `write(fd, msg, len)`, `exit(0)`. -/
def code (path msg : Bytes) : Bytes :=
  movRax 3 ++ movRdi pathAddr ++ movRsi 0 ++ int80Code ++
    (movRdiRax ++ movRax 1 ++ movRsiQ (msgAddr path) ++ movRdx msg.length ++ int80Code) ++
    (movRax 2 ++ movRdi 0 ++ int80Code)

def payload (path msg : Bytes) : Bytes := code path msg ++ (path ++ [0#8]) ++ msg

def elf (path msg : Bytes) : Bytes := elfOf (payload path msg)

end Vfs

/-! ## 2. The code is a list of calls -/

theorem pack_succ (w n : Nat) : pack (w + 1) n = BitVec.ofNat 8 n :: pack w (n / 256) := by
  unfold pack
  rw [List.range_succ_eq_map, List.map_cons, List.map_map]
  simp only [Nat.pow_zero, Nat.div_one, List.cons.injEq, true_and]
  refine List.map_congr_left fun i _ => ?_
  rw [Function.comp_apply, Nat.pow_succ', Nat.div_div_eq_div_mul]

theorem leNat_pack (w n : Nat) : leNat (pack w n) = n % 256 ^ w := by
  induction w generalizing n with
  | zero => rw [Nat.pow_zero, Nat.mod_one]; rfl
  | succ w ih =>
    have hb : (BitVec.ofNat 8 n).toNat = n % 256 := BitVec.toNat_ofNat n 8
    rw [pack_succ, leNat, ih, hb, Nat.pow_succ', Nat.mod_mul]

theorem leNat_pack_of_lt {w n : Nat} (h : n < 256 ^ w) : leNat (pack w n) = n := by
  rw [leNat_pack, Nat.mod_eq_of_lt h]

/-- Bits of a number, cut out of a vector that holds at least those. -/
theorem extract_ofNat {w off len : Nat} (n : Nat) (h : off + len ≤ w) :
    (BitVec.ofNat w n).extractLsb' off len = BitVec.ofNat len (n / 2 ^ off) := by
  apply BitVec.eq_of_toNat_eq
  rw [BitVec.extractLsb'_toNat, BitVec.toNat_ofNat, BitVec.toNat_ofNat, Nat.shiftRight_eq_div_pow,
    ← Nat.mod_mul_right_div_self, ← Nat.pow_add, ← Nat.mod_mul_right_div_self, ← Nat.pow_add,
    Nat.mod_mod_of_dvd _ (Nat.pow_dvd_pow 2 h)]

theorem pack_four (n : Nat) : pack 4 n = le32 (BitVec.ofNat 32 n) := by
  rw [le32, extract_ofNat n (by decide), extract_ofNat n (by decide), extract_ofNat n (by decide),
    extract_ofNat n (by decide)]
  rfl

theorem pack_eight (n : Nat) : pack 8 n = le64 (BitVec.ofNat 64 n) := by
  rw [le64, extract_ofNat n (by decide), extract_ofNat n (by decide), ← pack_four, ← pack_four]
  have hsplit : pack 8 n = pack 4 n ++ pack 4 (n / 256 / 256 / 256 / 256) := by
    simp only [pack_succ]
    rfl
  rw [hsplit]
  simp [Nat.div_div_eq_div_mul]

/-- A doubleword below 2 ^ 31 is not changed by its sign. -/
theorem signExtend_ofNat {n : Nat} (h : n < 2 ^ 31) :
    (BitVec.ofNat 32 n).signExtend 64 = BitVec.ofNat 64 n := by
  have hn : (BitVec.ofNat 32 n).toNat = n := by
    rw [BitVec.toNat_ofNat]
    omega
  have hmsb : (BitVec.ofNat 32 n).msb = false := by
    rw [BitVec.msb_eq_false_iff_two_mul_lt, hn]
    omega
  rw [BitVec.signExtend_eq_setWidth_of_msb_false hmsb]
  apply BitVec.eq_of_toNat_eq
  rw [BitVec.toNat_setWidth, hn, BitVec.toNat_ofNat]

namespace Hello

def calls (msg : Bytes) : List (List Mov) :=
  [[.imm32 .rax 1#32, .imm32 .rdi 1#32, .imm64 .rsi (BitVec.ofNat 64 msgAddr),
      .imm32 .rdx (BitVec.ofNat 32 msg.length)],
    [.imm32 .rax 2#32, .imm32 .rdi 0#32]]

theorem code_eq (msg : Bytes) : code msg = (calls msg).flatMap callCode := by
  simp only [code, movRax, movRdi, movRsiQ, movRdx, movImm32, pack_four, pack_eight]
  rfl

theorem length_code (msg : Bytes) : (code msg).length = codeLen := rfl

end Hello

namespace Vfs

def calls (path msg : Bytes) : List (List Mov) :=
  [[.imm32 .rax 3#32, .imm32 .rdi (BitVec.ofNat 32 pathAddr), .imm32 .rsi 0#32],
    [.reg .rdi .rax, .imm32 .rax 1#32, .imm64 .rsi (BitVec.ofNat 64 (msgAddr path)),
      .imm32 .rdx (BitVec.ofNat 32 msg.length)],
    [.imm32 .rax 2#32, .imm32 .rdi 0#32]]

theorem code_eq (path msg : Bytes) : code path msg = (calls path msg).flatMap callCode := by
  simp only [code, movRax, movRdi, movRsi, movRsiQ, movRdx, movImm32, pack_four, pack_eight]
  rfl

theorem length_code (path msg : Bytes) : (code path msg).length = codeLen := rfl

end Vfs

/-! ## 3. What the calls do -/

/-- What `sys_write` makes of a message: at most 4096 bytes. -/
def written (msg : Bytes) : Bytes := msg.take 4096

theorem clamp_ofNat {n : Nat} (h : n < 2 ^ 64) : clamp (BitVec.ofNat 64 n) = min n 4096 := by
  rw [clamp, BitVec.toNat_ofNat, Nat.mod_eq_of_lt h]

/-- The buffer of a `write`, for bytes that stand in the program's memory. -/
theorem fetch_written {s : Space} {addr : Nat} {msg : Bytes} (h : Placed s addr msg)
    (hlt : addr + msg.length < 2 ^ 31) :
    (fetch s (BitVec.ofNat 64 addr).toNat
      (clamp ((BitVec.ofNat 32 msg.length).signExtend 64))).result = .ok (written msg) := by
  have haddr : (BitVec.ofNat 64 addr).toNat = addr := by
    rw [BitVec.toNat_ofNat]
    omega
  rw [haddr, signExtend_ofNat (by omega), clamp_ofNat (by omega),
    fetch_placed h (by omega) (Nat.min_le_left ..), written, Nat.min_comm,
    ← List.take_eq_take_min]

theorem ofNat_ne_zero {addr : Nat} (hpos : 0 < addr) (hlt : addr < 2 ^ 31) :
    BitVec.ofNat 64 addr ≠ 0#64 := by
  intro h
  have := congrArg BitVec.toNat h
  rw [BitVec.toNat_ofNat, BitVec.toNat_ofNat] at this
  omega

/-- The programs, by their texts. -/
inductive Job
  | hello (msg : Bytes)
  | vfs (path msg : Bytes)

/-- **What a program is for**, as calls of the file layer. -/
def Job.meaning (sys : System) : Job → Exec System
  | hello msg => do
    let (_, sys) ← (sys.write 1 (held (written msg))).result
    return sys
  | vfs path msg => do
    let (r, sys) := openCall sys (pathOf path)
    let (_, sys) ← (sys.write (answer r).toNat (held (written msg))).result
    return sys

/-- One after the other. -/
def meaningAll (sys : System) (jobs : List Job) : Exec System := jobs.foldlM Job.meaning sys

def Job.calls : Job → List (List Mov)
  | hello msg => Hello.calls msg
  | vfs path msg => Vfs.calls path msg

def Job.payload : Job → Bytes
  | hello msg => Hello.payload msg
  | vfs path msg => Vfs.payload path msg

def Job.elf (j : Job) : Bytes := elfOf j.payload

/-- The payload stays below the stack, and the path is a C string. -/
structure Job.Fits (j : Job) : Prop where
  below : base + j.payload.length ≤ 0x4fc000
  cstr : ∀ path msg, j = vfs path msg → 0#8 ∉ path

/-- Both programs end alike. -/
theorem runCalls_exit (k : State) (c : Ring3) :
    runCalls k c [[.imm32 .rax 2#32, .imm32 .rdi 0#32]] = .ok (.exited 0#64 k) := by
  rw [runCalls, trap_exit rfl]
  rfl

/-- A message is written to a descriptor, and the program exits. -/
theorem write_then_exit {k : State} {c : Ring3} (hnr : c.regs .rax = SyscallNr.write.toWord)
    {addr : Nat} {msg : Bytes} (hmsg : Placed k.space addr msg) (hpos : 0 < addr)
    (hlt : addr + msg.length < 2 ^ 31) (hrsi : c.regs .rsi = BitVec.ofNat 64 addr)
    (hrdx : c.regs .rdx = (BitVec.ofNat 32 msg.length).signExtend 64) :
    (trap k c >>= Outcome.andThen fun k c => runCalls k c [[.imm32 .rax 2#32, .imm32 .rdi 0#32]]) =
    (do
      let (_, sys) ← (k.sys.write (c.regs .rdi).toNat (held (written msg))).result
      return .exited 0#64 { k with sys }) := by
  have hdata := fetch_written hmsg hlt
  rw [← hrsi, ← hrdx] at hdata
  rw [trap_write hnr (hrsi ▸ ofNat_ne_zero hpos (by omega)) hdata]
  rcases (k.sys.write (c.regs .rdi).toNat (held (written msg))).result with e | ⟨r, sys⟩
  · rfl
  · exact runCalls_exit _ _

theorem Hello.calls_meaning {k : State} (c : Ring3) {msg : Bytes}
    (hmsg : Placed k.space msgAddr msg) (hlt : msgAddr + msg.length < 2 ^ 31) :
    runCalls k c (calls msg) = (do
      let sys ← (Job.hello msg).meaning k.sys
      return .exited 0#64 { k with sys }) := by
  rw [calls, runCalls, write_then_exit rfl hmsg (by decide) hlt rfl rfl, Job.meaning]
  show (k.sys.write 1 (held (written msg))).result >>= _ = _
  rcases (k.sys.write 1 (held (written msg))).result with e | ⟨r, sys⟩
  · rfl
  · rfl

theorem Vfs.calls_meaning {k : State} (c : Ring3) {path msg : Bytes}
    (hpath : Placed k.space pathAddr (path ++ [0#8])) (hmsg : Placed k.space (msgAddr path) msg)
    (hnul : 0#8 ∉ path) (hlt : msgAddr path + msg.length < 2 ^ 31) :
    runCalls k c (calls path msg) = (do
      let sys ← (Job.vfs path msg).meaning k.sys
      return .exited 0#64 { k with sys }) := by
  have hpos : 0 < pathAddr := by decide
  have hle : pathAddr + path.length < msgAddr path := by
    rw [msgAddr, List.length_append, List.length_singleton]
    omega
  have hread : (readUserCstr k.space ((BitVec.ofNat 32 pathAddr).signExtend 64)).result =
      .ok (pathOf path) := by
    have hptr : (BitVec.ofNat 64 pathAddr).toNat = pathAddr := rfl
    rw [signExtend_ofNat (by omega)]
    exact readUserCstr_placed hpath hpos (by omega) hnul
  rw [calls, runCalls, trap_open rfl hread, exec_ok_bind, Outcome.andThen,
    runCalls, Job.meaning,
    write_then_exit (k := ⟨(openCall k.sys (pathOf path)).2, k.space⟩) rfl hmsg (by omega) hlt rfl
    rfl]
  show (System.write _ (answer (openCall k.sys (pathOf path)).1).toNat _).result >>= _ = _
  rcases openCall k.sys (pathOf path) with ⟨r, sys⟩
  dsimp only
  rcases (sys.write (answer r).toNat (held (written msg))).result with e | ⟨r', sys'⟩
  · rfl
  · rfl

/-! ## 4. Loading the file -/

/-- The segment of a generated file. -/
def segmentOf (payload : Bytes) : Elf.Segment := ⟨7, 120, base, payload.length, payload.length⟩

section

variable {payload : Bytes}

theorem length_elfOf (payload : Bytes) : (elfOf payload).length = payload.length + 120 := rfl

theorem elfOf_header (payload : Bytes) : Elf.HeaderOk (elfOf payload) ∧
    Elf.header (elfOf payload) = ⟨base, 64, 56, 1⟩ := by
  refine ⟨⟨?_, rfl, rfl⟩, ?_⟩
  · rw [length_elfOf]
    omega
  · have hentry : field (elfOf payload) 0x18 8 = leNat (pack 8 base) := rfl
    have hoff : field (elfOf payload) 0x20 8 = leNat (pack 8 64) := rfl
    have hsize : field (elfOf payload) 0x36 2 = leNat (pack 2 56) := rfl
    have hnum : field (elfOf payload) 0x38 2 = leNat (pack 2 1) := rfl
    rw [Elf.header, hentry, hoff, hsize, hnum, leNat_pack_of_lt (by decide),
      leNat_pack_of_lt (by decide), leNat_pack_of_lt (by decide), leNat_pack_of_lt (by decide)]

theorem elfOf_phdr (payload : Bytes) : Elf.phdr (elfOf payload) 0 = 64 := by
  rw [Elf.phdr, (elfOf_header payload).2, Nat.zero_mul]

theorem elfOf_segments (h : payload.length < 2 ^ 64) :
    Elf.segments (elfOf payload) = [segmentOf payload] := by
  have hsize : leNat (pack 8 payload.length) = payload.length := leNat_pack_of_lt h
  have hat : Elf.Segment.at (elfOf payload) 64 = segmentOf payload := by
    have hw : field (elfOf payload) (64 + 4) 4 = leNat (pack 4 7) := rfl
    have ho : field (elfOf payload) (64 + 8) 8 = leNat (pack 8 120) := rfl
    have hv : field (elfOf payload) (64 + 16) 8 = leNat (pack 8 base) := rfl
    have hf : field (elfOf payload) (64 + 32) 8 = leNat (pack 8 payload.length) := rfl
    have hm : field (elfOf payload) (64 + 40) 8 = leNat (pack 8 payload.length) := rfl
    rw [Elf.Segment.at, hw, ho, hv, hf, hm, hsize, leNat_pack_of_lt (by decide),
      leNat_pack_of_lt (by decide), leNat_pack_of_lt (by decide)]
    rfl
  have hone : Elf.segmentOf (elfOf payload) 0 = some (segmentOf payload) := by
    have htype : field (elfOf payload) 64 4 = leNat (pack 4 Elf.ptLoad) := rfl
    rw [leNat_pack_of_lt (by decide)] at htype
    rw [Elf.segmentOf, elfOf_phdr, hat, if_pos htype]
  rw [Elf.segments, (elfOf_header payload).2]
  show List.filterMap _ [0] = _
  rw [List.filterMap_cons, hone]
  rfl

theorem segmentOf_pages (h : base + payload.length ≤ 0x4fc000) {p : Nat}
    (hp : p ∈ (segmentOf payload).pages) : 0x400 ≤ p ∧ p < 0x4fc := by
  have hmem := Elf.Segment.mem_pages.mp hp
  unfold segmentOf base pageSize at hmem
  unfold base at h
  dsimp only at hmem
  omega

theorem segmentOf_inBounds (h : base + payload.length ≤ 0x4fc000) :
    (segmentOf payload).InBounds (elfOf payload) := by
  have hbase : base = 0x400000 := rfl
  refine ⟨show base ≠ 0 by decide, ?_, ?_⟩
  · show base + payload.length + 4095 < 2 ^ 64
    omega
  · show 120 + payload.length ≤ _
    rw [length_elfOf]
    omega

theorem segmentOf_bytes (payload : Bytes) :
    (segmentOf payload).bytes (elfOf payload) = payload := by
  show List.drop 120 (List.take (120 + payload.length) (elfOf payload)) ++
    List.replicate (payload.length - payload.length) 0#8 = payload
  have hdrop : (elfOf payload).drop 120 = payload := rfl
  rw [Nat.sub_self, List.replicate_zero, List.append_nil, List.drop_take, hdrop,
    Nat.add_sub_cancel_left, List.take_length]

theorem elfOf_inside (payload : Bytes) : Elf.TableInside (elfOf payload) := by
  intro i hi
  rw [(elfOf_header payload).2] at hi
  cases Nat.lt_one_iff.mp hi
  rw [Elf.HeaderInside, elfOf_phdr, length_elfOf]
  exact ⟨by omega, fun _ => by omega⟩

end

/-- Read, write and execute. -/
def rwx : Flags where
  writable := true
  user := true
  noExecute := false

theorem segmentOf_flags (payload : Bytes) : (segmentOf payload).ptFlags = rwx := by
  show (⟨decide (7 &&& Elf.pfW ≠ 0), true, decide (7 &&& Elf.pfX = 0)⟩ : Flags) = rwx
  decide

/-- **What programs before have left of the address space** `v₀`: the pages `O` are mapped since,
    and those below the stack can be executed. -/
structure Used (v₀ : Vmm.State) (O : Finset Nat) (v : Vmm.State) : Prop where
  loading : Loading v₀ O v
  code : ∀ p ∈ O, p < 0x4fc → Elf.flagsAt v p = some rwx

/-- No page of the programs is mapped yet. -/
def Vacant (v₀ : Vmm.State) : Prop := ∀ p, 0x400 ≤ p → p < 0x500 → v₀.space.pages p = none

section

variable {v₀ v v' : Vmm.State} {O : Finset Nat} {payload : Bytes}

theorem Used.refl (v₀ : Vmm.State) : Used v₀ ∅ v₀ :=
  ⟨.refl v₀, fun _ h => absurd h (Finset.notMem_empty _)⟩

/-- Pages that are mapped for user mode, whether they are there or not. -/
theorem Used.mapPages (h : Used v₀ O v) (flags : Flags) (huser : flags.user = true)
    (hw : flags.writable = true) {pages : List Nat} (hnone : ∀ p ∈ pages, v₀.space.pages p = none)
    (hpage : ∀ p ∈ pages, p ≠ 0 ∧ p < Vmm.lowPages)
    (hcode : ∀ p ∈ pages, p < 0x4fc → flags = rwx)
    (hneed : Elf.need v₀ (O ∪ pages.toFinset) ≤ v₀.free.card) :
    ∃ v', Elf.mapPages v flags pages = .ok v' ∧ Used v₀ (O ∪ pages.toFinset) v' := by
  have hfresh := Elf.fresh_eq_toFinset hnone
  obtain ⟨v', he⟩ := (h.loading.mapPages_ok_iff huser).mpr ⟨by rw [hfresh]; exact hneed,
    fun p hp => ⟨Vmm.canonical_of_low (hpage p hp).2, fun _ _ => ⟨(hpage p hp).1, fun _ => hw⟩⟩⟩
  have hl := h.loading.mapPages huser he
  rw [hfresh] at hl
  refine ⟨v', he, hl, fun p hp hlt => ?_⟩
  rw [Elf.flagsAt_mapPages he]
  by_cases hpO : p ∈ O
  · rw [h.code p hpO hlt]
    rfl
  · have hmem : p ∈ pages := by
      rcases Finset.mem_union.mp hp with hp | hp
      · exact absurd hp hpO
      · exact List.mem_toFinset.mp hp
    have hn : Elf.flagsAt v p = none :=
      Elf.flagsAt_eq_none.mpr (h.loading.pages_eq_none.mpr ⟨hnone p hmem, hpO⟩)
    rw [hn, if_pos hmem, hcode p hmem hlt]
    rfl

theorem executable_rwx {a : Nat} (h : Elf.flagsAt v (a / pageSize) = some rwx) :
    executable v.space a = some (v.space.contents a) := by
  obtain ⟨m, hm, hflags⟩ := Option.map_eq_some_iff.mp h
  have hpeek : v.space.peek a = some (v.space.contents a) := by
    rw [contents_mapped hm, Space.peek, hm]
    rfl
  rw [executable, hm]
  dsimp only
  rw [hflags]
  exact hpeek

/-- The pages of a generated program. -/
def pagesOf (payload : Bytes) : List Nat := (segmentOf payload).pages ++ stackPages

theorem page_of_byte {i : Nat} (hi : i < payload.length) :
    (base + i) / pageSize ∈ (segmentOf payload).pages :=
  Elf.Segment.Holds.page_mem ⟨Nat.le_add_right .., Nat.add_lt_add_left hi _⟩

theorem stack_page {p : Nat} (hp : p ∈ stackPages) : 0x4fc ≤ p ∧ p < 0x500 := by
  simp only [stackPages, List.mem_cons, List.not_mem_nil, or_false] at hp
  omega

/-- **Loading a generated program** where others have run before: the file is loaded, and its bytes
    can be executed. -/
theorem Used.load (h : Used v₀ O v) (hvac : Vacant v₀) (hfit : base + payload.length ≤ 0x4fc000)
    (hneed : Elf.need v₀ (O ∪ (pagesOf payload).toFinset) ≤ v₀.free.card) :
    ∃ v', Elf.load v (elfOf payload) = .ok (.ok ⟨base, userStackTop⟩, v') ∧
      Used v₀ (O ∪ (pagesOf payload).toFinset) v' ∧ Placed v'.space base payload := by
  have hbase : base = 0x400000 := rfl
  rw [pagesOf, List.toFinset_append, ← Finset.union_assoc] at hneed ⊢
  have hcodePage := fun p => segmentOf_pages hfit (p := p)
  -- the pages of the segment
  obtain ⟨va, hmap, ha⟩ := h.mapPages rwx rfl rfl
    (fun p hp => hvac p (hcodePage p hp).1 (by have := (hcodePage p hp).2; omega))
    (fun p hp => ⟨by have := (hcodePage p hp).1; omega,
      by have := (hcodePage p hp).2; unfold Vmm.lowPages; omega⟩) (fun _ _ _ => rfl)
    (Nat.le_trans (Elf.need_mono Finset.subset_union_left) hneed)
  have hpage : ∀ i < payload.length, (base + i) / pageSize ∈
      O ∪ (segmentOf payload).pages.toFinset :=
    fun i hi => Finset.mem_union_right _ (List.mem_toFinset.mpr (page_of_byte hi))
  -- its bytes
  have hreach : ∀ i < payload.length, va.space.Reaches base i := by
    intro i hi
    obtain ⟨m, hm, -, -, -, hallow⟩ := ha.loading.own _ (hpage i hi)
    refine ⟨m, ?_, fun hwp => hallow (ha.loading.wp ▸ hwp)⟩
    rw [Nat.mod_eq_of_lt (by omega)]
    exact hm
  obtain ⟨space, hstore⟩ := storeAll_ok_iff.mpr hreach
  have hst := storeAll_stored hstore
  have hb : Used v₀ (O ∪ (segmentOf payload).pages.toFinset) { va with space } :=
    ⟨ha.loading.stored hst, fun p hp hlt => (Elf.flagsAt_stored hst p).trans (ha.code p hp hlt)⟩
  have hseg : Elf.loadSegment (elfOf payload) v (segmentOf payload) = .ok { va with space } := by
    refine (Elf.loadSegment_eq_ok (by rw [length_elfOf]; omega)).mpr
      ⟨segmentOf_inBounds hfit, va, space, ?_, ?_, rfl⟩
    · rw [segmentOf_flags]
      exact hmap
    · rw [segmentOf_bytes]
      exact hstore
  -- the stack
  obtain ⟨v', hstack, hv'⟩ := hb.mapPages Elf.stackFlags rfl rfl
    (fun p hp => hvac p (by have := (stack_page hp).1; omega) (stack_page hp).2)
    (fun p hp => ⟨by have := (stack_page hp).1; omega,
      by have := (stack_page hp).2; unfold Vmm.lowPages; omega⟩)
    (fun p hp hlt => absurd (stack_page hp).1 (by omega)) hneed
  refine ⟨v', ?_, hv', fun i hi => ?_⟩
  · refine (Elf.load_ok_iff (elfOf_header payload).1 (by rw [length_elfOf]; omega)).mpr
      ⟨elfOf_inside payload, { va with space }, ?_, ?_, ?_⟩
    · rw [elfOf_segments (by omega), List.foldlM_cons, hseg]
      rfl
    · rw [Elf.mapStack_eq]
      exact hstack
    · rw [(elfOf_header payload).2]
  · have hcode := page_of_byte hi
    have hlt := (hcodePage _ hcode).2
    rw [executable_rwx (hv'.code _ (Finset.mem_union_left _ (hpage i hi)) hlt),
      Elf.contents_mapPages rfl hstack hv'.loading.apart
        (fun p hp => Finset.mem_union_right _ (List.mem_toFinset.mpr hp))
        (Finset.mem_union_left _ (hpage i hi)),
      contents_storeAll ha.loading.apart (by omega) hpage hstore (hpage i hi), Store.copy_add,
      List.getElem?_eq_getElem hi]
    rfl

end

/-! ## 5. Running the programs -/

/-- The memory and the file layer; what the kernel itself prints is not followed. -/
structure World where
  mm : Vmm.State
  sys : System

/-- `run_user`, with any registers at the entry: the exit code of the program, or `none` if the file
    is refused or the program has not exited after `fuel` instructions. -/
def runUser (fuel : Nat) (w : World) (elf : Bytes) (regs : Reg → Word) :
    Exec (Option Word × World) := do
  match ← Elf.load w.mm elf with
  | (.error _, mm) => return (none, { w with mm })
  | (.ok img, mm) =>
    match ← userRun fuel ⟨w.sys, mm.space⟩ ⟨regs, img.entry⟩ with
    | .exited code k => return (some code, ⟨{ mm with space := k.space }, k.sys⟩)
    | .running k _ => return (none, ⟨{ mm with space := k.space }, k.sys⟩)

/-- One file after the other. -/
def runAll (fuel : Nat) (w : World) :
    List (Bytes × (Reg → Word)) → Exec (List (Option Word) × World)
  | [] => .ok ([], w)
  | (elf, regs) :: rest => do
    let (code, w) ← runUser fuel w elf regs
    let (codes, w) ← runAll fuel w rest
    return (code :: codes, w)

/-- More fuel does not matter to a program that has exited or stopped. -/
theorem userRun_mono {n : Nat} {k : State} {c : Ring3} {r : Exec Outcome} (h : userRun n k c = r)
    (hr : ∀ k' c', r ≠ .ok (.running k' c')) (m : Nat) : userRun (n + m) k c = r := by
  induction n generalizing k c with
  | zero => exact absurd h.symm (hr k c)
  | succ n ih =>
    rw [Nat.add_right_comm]
    rw [userRun] at h ⊢
    rcases hstep : userStep k c with e | o
    · rw [hstep] at h
      exact h
    · rw [hstep] at h
      cases o with
      | running k' c' => exact ih h
      | exited code k' => exact h

section

variable {k : State} {v₀ : Vmm.State} {O : Finset Nat} {w : World}

theorem Hello.placed {msg : Bytes} (h : Placed k.space base (payload msg)) :
    Placed k.space base ((calls msg).flatMap callCode) ∧ Placed k.space msgAddr msg := by
  rw [payload] at h
  exact ⟨code_eq msg ▸ h.left, h.right⟩

theorem Vfs.placed {path msg : Bytes} (h : Placed k.space base (payload path msg)) :
    Placed k.space base ((calls path msg).flatMap callCode) ∧
      Placed k.space pathAddr (path ++ [0#8]) ∧ Placed k.space (msgAddr path) msg := by
  rw [payload] at h
  refine ⟨code_eq path msg ▸ h.left.left, h.left.right, ?_⟩
  have hmsg := h.right
  rwa [List.length_append, length_code, ← Nat.add_assoc] at hmsg

/-- No call of the programs is a `read`. -/
theorem Job.calls_rax (j : Job) : ∀ ms ∈ j.calls, ∀ regs,
    Mov.runAll regs ms .rax ≠ SyscallNr.read.toWord := by
  have hone : ∀ regs : Reg → Word, regs .rax = 1#64 ∨ regs .rax = 2#64 ∨ regs .rax = 3#64 →
      regs .rax ≠ SyscallNr.read.toWord := by
    intro regs h
    rcases h with h | h | h
    all_goals rw [h]; decide
  intro ms hms regs
  apply hone
  cases j with
  | hello msg =>
    rcases List.mem_cons.mp hms with rfl | hms
    · exact .inl rfl
    · cases List.mem_singleton.mp hms
      exact .inr (.inl rfl)
  | vfs path msg =>
    rcases List.mem_cons.mp hms with rfl | hms
    · exact .inr (.inr rfl)
    · rcases List.mem_cons.mp hms with rfl | hms
      · exact .inl rfl
      · cases List.mem_singleton.mp hms
        exact .inr (.inl rfl)

theorem Job.runCalls_meaning {j : Job} (hfits : j.Fits) (h : Placed k.space base j.payload)
    (c : Ring3) : Placed k.space base (j.calls.flatMap callCode) ∧
      runCalls k c j.calls = (do
        let sys ← j.meaning k.sys
        return .exited 0#64 { k with sys }) := by
  have hbelow := hfits.below
  cases j with
  | hello msg =>
    obtain ⟨hcode, hmsg⟩ := Hello.placed h
    refine ⟨hcode, Hello.calls_meaning c hmsg ?_⟩
    have hlen : (Hello.payload msg).length = Hello.codeLen + msg.length := List.length_append
    have haddr : Hello.msgAddr = base + Hello.codeLen := rfl
    change base + (Hello.payload msg).length ≤ _ at hbelow
    omega
  | vfs path msg =>
    obtain ⟨hcode, hpath, hmsg⟩ := Vfs.placed h
    refine ⟨hcode, Vfs.calls_meaning c hpath hmsg (hfits.cstr path msg rfl) ?_⟩
    have hlen : (Vfs.payload path msg).length =
        Vfs.codeLen + (path ++ [0#8]).length + msg.length := by
      rw [Vfs.payload, List.length_append, List.length_append, Vfs.length_code]
    have haddr : Vfs.msgAddr path = base + Vfs.codeLen + (path ++ [0#8]).length := rfl
    change base + (Vfs.payload path msg).length ≤ _ at hbelow
    omega

/-- **A generated program, wherever its bytes stand, does what it is for** and exits. -/
theorem Job.run {j : Job} (hfits : j.Fits) (h : Placed k.space base j.payload) (regs : Reg → Word)
    {fuel : Nat} (hfuel : 12 ≤ fuel) :
    userRun fuel k ⟨regs, base⟩ = (do
      let sys ← j.meaning k.sys
      return .exited 0#64 { k with sys }) := by
  obtain ⟨hcode, hcalls⟩ := j.runCalls_meaning hfits h ⟨regs, base⟩
  have hsteps : callSteps j.calls ≤ 12 := by
    cases j with
    | hello msg => exact show 8 ≤ 12 by decide
    | vfs path msg => exact Nat.le_refl 12
  obtain ⟨m, rfl⟩ := Nat.exists_eq_add_of_le (Nat.le_trans hsteps hfuel)
  refine userRun_mono ((userRun_calls hcode j.calls_rax).trans hcalls) (fun k' c' he => ?_) m
  obtain ⟨sys, -, he⟩ := bind_eq_ok.mp he
  cases he

/-- `run_user` of a generated program where others have run before. -/
theorem Job.runUser {j : Job} (hfits : j.Fits) (hvac : Vacant v₀) (h : Used v₀ O w.mm)
    (hneed : Elf.need v₀ (O ∪ (pagesOf j.payload).toFinset) ≤ v₀.free.card) :
    ∃ mm, Used v₀ (O ∪ (pagesOf j.payload).toFinset) mm ∧ ∀ regs fuel, 12 ≤ fuel →
      runUser fuel w j.elf regs = (do
        let sys ← j.meaning w.sys
        return (some 0#64, ⟨mm, sys⟩)) := by
  obtain ⟨mm, hload, hused, hplaced⟩ := h.load hvac hfits.below hneed
  refine ⟨mm, hused, fun regs fuel hfuel => ?_⟩
  have hrun := j.run (k := ⟨w.sys, mm.space⟩) hfits hplaced regs hfuel
  rw [User.runUser, Job.elf, hload, exec_ok_bind]
  dsimp only
  rw [hrun]
  rcases j.meaning w.sys with e | sys
  · rfl
  · rfl

/-- A list of programs where others have run before. -/
theorem runAll_refines (hvac : Vacant v₀) {fuel : Nat} (hfuel : 12 ≤ fuel)
    (jobs : List (Job × (Reg → Word))) (hfits : ∀ j ∈ jobs, j.1.Fits) (h : Used v₀ O w.mm)
    (hneed : Elf.need v₀ (O ∪ (jobs.flatMap fun j => pagesOf j.1.payload).toFinset) ≤
      v₀.free.card) :
    (runAll fuel w (jobs.map fun j => (j.1.elf, j.2))).map (fun r => (r.1, r.2.sys)) =
      (meaningAll w.sys (jobs.map Prod.fst)).map fun sys => (jobs.map fun _ => some 0#64, sys) := by
  induction jobs generalizing O w with
  | nil => rfl
  | cons j jobs ih =>
    obtain ⟨hj, hjobs⟩ := List.forall_mem_cons.mp hfits
    rw [List.flatMap_cons, List.toFinset_append, ← Finset.union_assoc] at hneed
    obtain ⟨mm, hused, hrun⟩ := j.1.runUser hj hvac h
      (Nat.le_trans (Elf.need_mono Finset.subset_union_left) hneed)
    simp only [List.map_cons]
    rw [runAll, hrun j.2 fuel hfuel, meaningAll, List.foldlM_cons]
    rcases j.1.meaning w.sys with e | sys
    · rfl
    · have hrest := ih (w := ⟨mm, sys⟩) hjobs hused hneed
      show Except.map _ (runAll fuel ⟨mm, sys⟩ (jobs.map fun j => (j.1.elf, j.2)) >>= _) =
        Except.map _ (meaningAll sys (jobs.map Prod.fst))
      generalize runAll fuel ⟨mm, sys⟩ (jobs.map fun j => (j.1.elf, j.2)) = x at hrest ⊢
      generalize meaningAll sys (jobs.map Prod.fst) = y at hrest ⊢
      -- both stop, with the same error, or both return
      rcases x with e | ⟨codes, w'⟩
      · rcases y with e' | sys'
        · cases hrest
          rfl
        · cases hrest
      · rcases y with e' | sys'
        · cases hrest
        · cases hrest
          rfl

/-- **Generated programs do what they are for.** For every list of programs made by the two scripts,
    with any texts that fit below the stack, run one after the other from an address space without
    their pages and with frames for them: every one of them is loaded, exits with code 0 whatever
    the registers at its entry, and the file layer is left as the calls they stand for leave it. If
    such a call stops the kernel, so does the program. -/
theorem generated_programs_refine (hvac : Vacant v₀) (sys : System) {fuel : Nat} (hfuel : 12 ≤ fuel)
    {jobs : List (Job × (Reg → Word))} (hfits : ∀ j ∈ jobs, j.1.Fits)
    (hneed : Elf.need v₀ (jobs.flatMap fun j => pagesOf j.1.payload).toFinset ≤ v₀.free.card) :
    (runAll fuel ⟨v₀, sys⟩ (jobs.map fun j => (j.1.elf, j.2))).map (fun r => (r.1, r.2.sys)) =
      (meaningAll sys (jobs.map Prod.fst)).map fun sys => (jobs.map fun _ => some 0#64, sys) :=
  runAll_refines (w := ⟨v₀, sys⟩) hvac hfuel jobs hfits (.refl v₀)
    (by rw [Finset.empty_union]; exact hneed)

end

/-- `b"Hi\n"`, written by the first script and, through /dev/null, by the second. -/
def hiTwice : List (Job × (Reg → Word)) :=
  [(.hello (ascii ['H', 'i', '\n']), fun _ => 0#64),
    (.vfs (ascii ['/', 'd', 'e', 'v', '/', 'n', 'u', 'l', 'l']) (ascii ['H', 'i', '\n']),
      fun _ => 7#64)]

/-- The file layer after `fs::init`, with no ramdisk and no network card. -/
def bootSystem : System where
  fds := List.replicate 3 (some ⟨.console, 0⟩)
  mounts := System.mountTable (.dir [slash])
  devices := Devices.quiet none

theorem generated_programs_hi :
    (runAll 12 ⟨Elf.blank, bootSystem⟩ (hiTwice.map fun j => (j.1.elf, j.2))).map
        (fun r => (r.1, r.2.sys)) =
      (meaningAll bootSystem (hiTwice.map Prod.fst)).map
        (fun sys => ([some 0#64, some 0#64], sys)) ∧
    (meaningAll bootSystem (hiTwice.map Prod.fst)).map (fun sys => sys.devices.serial) =
      .ok (ascii ['H', 'i', '\n']) := by
  have hneed : Elf.need Elf.blank (hiTwice.flatMap fun j => pagesOf j.1.payload).toFinset = 8 := by
    decide
  refine ⟨generated_programs_refine (fun _ _ _ => rfl) bootSystem (Nat.le_refl 12) ?_ ?_, rfl⟩
  · intro j hj
    rcases List.mem_cons.mp hj with rfl | hj
    · exact ⟨by decide, fun path msg he => nomatch he⟩
    · cases List.mem_singleton.mp hj
      refine ⟨by decide, fun path msg he => ?_⟩
      cases he
      decide
  · rw [hneed]
    exact Elf.blank_room (by decide)

end SimpleLinux.User
