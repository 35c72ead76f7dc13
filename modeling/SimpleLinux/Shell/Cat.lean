/-
  File:      SimpleLinux/Shell/Cat.lean
  Subject:   `cat`: cmd_cat of shell.rs.

  The file is read through a buffer of 256 bytes, and what each read brings is decoded ON ITS OWN: a
  character that lies across a multiple of 256 makes both of its buffers invalid, and each of them
  is printed as `<binary>`.

  The loop ends with the first read that brings nothing or fails. Some files never end, so it has
  fuel, and `none` says that it is still reading.

  * `catLoop`, `cmdCat`, `CatOutput` -- the code; `Prints` -- what a call of it comes to;
  * `shown` -- what is shown of a file; `shown_eq_iff` -- when that is the file;
  * `catLoop_contents`, `cmdCat_contents` -- a file is read to its end, and shown;
  * `cat_prints_iff` -- `cat` prints a file of the ramdisk if and only if there is a descriptor for
    it and every chunk of 256 bytes is valid; `cat_splits_character` -- a text that is not printed.
-/
import SimpleLinux.Fs.Archive

namespace SimpleLinux.Shell

open Rust Paging Fs
open Net (Byte Bytes)

/-! ## 1. The code -/

def debugName : FsError → Str
  | .notFound => ascii ['N', 'o', 't', 'F', 'o', 'u', 'n', 'd']
  | .permissionDenied =>
    ascii ['P', 'e', 'r', 'm', 'i', 's', 's', 'i', 'o', 'n', 'D', 'e', 'n', 'i', 'e', 'd']
  | .notDir => ascii ['N', 'o', 't', 'D', 'i', 'r']
  | .isDir => ascii ['I', 's', 'D', 'i', 'r']
  | .invalidArg => ascii ['I', 'n', 'v', 'a', 'l', 'i', 'd', 'A', 'r', 'g']
  | .noSpace => ascii ['N', 'o', 'S', 'p', 'a', 'c', 'e']
  | .io => ascii ['I', 'o']

/-- What `cat` prints. -/
inductive CatOutput
  | missingOperand
  | cannotOpen (path : Str) (e : FsError)
  /-- the string accumulated over all reads -/
  | contents (out : Str)
  deriving DecidableEq

def CatOutput.text : CatOutput → Str
  | missingOperand =>
    ascii ['c', 'a', 't', ':', ' ', 'm', 'i', 's', 's', 'i', 'n', 'g', ' ',
      'o', 'p', 'e', 'r', 'a', 'n', 'd', '\n']
  | cannotOpen path e =>
    ascii ['c', 'a', 't', ':', ' '] ++ path ++ ascii [' ', '-', '>', ' '] ++ debugName e ++
      ascii ['\n']
  | contents out => out

def binary : Str := ascii ['<', 'b', 'i', 'n', 'a', 'r', 'y', '>']

/-- `from_utf8(..).unwrap_or("<binary>")`. -/
def decodeChunk (bytes : Bytes) : Str := (Utf8.fromUtf8 bytes).getD binary

def catLoop : Nat → System → Nat → Str → Option (Exec (Str × System))
  | 0, _, _, _ => none
  | fuel + 1, s, fd, out =>
    match (s.read fd 256 pure).result with
    | .error e => some (.error e)
    | .ok (.error _, s', _) => some (.ok (out, s'))
    | .ok (.ok 0, s', _) => some (.ok (out, s'))
    | .ok (.ok (_ + 1), s', bytes) => catLoop fuel s' fd (out ++ decodeChunk bytes)

def cmdCat (fuel : Nat) (s : System) (args : List Str) : Option (Exec (CatOutput × System)) :=
  match args with
  | [] => some (.ok (.missingOperand, s))
  | path :: _ =>
    match s.openPath path with
    | (.error e, s₁) => some (.ok (.cannotOpen path e, s₁))
    | (.ok fd, s₁) =>
      (catLoop fuel s₁ fd []).map fun r => do
        let (out, s₂) ← r
        return (.contents out, (s₂.close fd).2)

/-- `cat` comes to an end and prints `r`. -/
def Prints (s : System) (args : List Str) (r : CatOutput) : Prop :=
  ∃ fuel s', cmdCat fuel s args = some (.ok (r, s'))

theorem catLoop_mono {fuel more : Nat} {s : System} {fd : Nat} {out : Str} {r : Exec (Str × System)}
    (h : catLoop fuel s fd out = some r) (hle : fuel ≤ more) : catLoop more s fd out = some r := by
  induction fuel generalizing more s out with
  | zero => cases h
  | succ fuel ih =>
    obtain ⟨m, rfl⟩ := Nat.exists_eq_add_of_lt (Nat.lt_of_succ_le hle)
    rw [catLoop] at h ⊢
    split at h
    · exact h
    · exact h
    · exact h
    · exact ih h (Nat.le_add_right ..)

/-- The fuel does not matter, as long as it is enough. -/
theorem cmdCat_mono {fuel more : Nat} {s : System} {args : List Str} {r : Exec (CatOutput × System)}
    (h : cmdCat fuel s args = some r) (hle : fuel ≤ more) : cmdCat more s args = some r := by
  rcases args with - | ⟨path, rest⟩
  · exact h
  · rw [cmdCat] at h ⊢
    split at h
    · exact h
    · obtain ⟨r', hr', he⟩ := Option.map_eq_some_iff.mp h
      rw [catLoop_mono hr' hle]
      exact congrArg some he

/-- A call comes to one end only. -/
theorem Prints.unique {s : System} {args : List Str} {r r' : CatOutput} (h : Prints s args r)
    (h' : Prints s args r') : r = r' := by
  obtain ⟨fuel, s₁, hcat⟩ := h
  obtain ⟨fuel', s₂, hcat'⟩ := h'
  have hsame := (cmdCat_mono hcat (Nat.le_max_left fuel fuel')).symm.trans
    (cmdCat_mono hcat' (Nat.le_max_right fuel fuel'))
  simp only [Option.some.injEq, Except.ok.injEq, Prod.mk.injEq] at hsame
  exact hsame.1

/-! ## 2. What is shown of a file -/

/-- A file chunk by chunk. -/
def shown (data : Bytes) : Str :=
  if _h : data = [] then [] else decodeChunk (data.take 256) ++ shown (data.drop 256)
termination_by data.length
decreasing_by
  have hpos : 0 < data.length := List.length_pos_iff.mpr _h
  rw [List.length_drop]
  omega

theorem shown_nil : shown [] = [] := by rw [shown, dif_pos rfl]

theorem shown_ne {data : Bytes} (h : data ≠ []) :
    shown data = decodeChunk (data.take 256) ++ shown (data.drop 256) := by
  rw [shown, dif_neg h]

/-- The `i`-th chunk; none beyond the end. -/
def chunk (data : Bytes) (i : Nat) : Bytes := (data.drop (256 * i)).take 256

theorem decodeChunk_valid {bytes : Bytes} (h : Utf8.valid bytes = true) :
    decodeChunk bytes = bytes := by
  rw [decodeChunk, Utf8.fromUtf8, if_pos h]
  rfl

theorem decodeChunk_invalid {bytes : Bytes} (h : ¬ Utf8.valid bytes = true) :
    decodeChunk bytes = binary := by
  rw [decodeChunk, Utf8.fromUtf8, if_neg h]
  rfl

theorem length_decodeChunk (bytes : Bytes) : (decodeChunk bytes).length ≤ max bytes.length 8 := by
  by_cases h : Utf8.valid bytes = true
  · rw [decodeChunk_valid h]
    exact Nat.le_max_left ..
  · rw [decodeChunk_invalid h]
    exact Nat.le_max_right ..

/-- Only the last chunk can be shorter than its `<binary>`. -/
theorem length_shown (data : Bytes) : (shown data).length ≤ data.length + 7 := by
  fun_induction shown data with
  | case1 => exact Nat.zero_le _
  | case2 data h ih =>
    have hpos : 0 < data.length := List.length_pos_iff.mpr h
    have hfirst := length_decodeChunk (data.take 256)
    rw [List.length_take] at hfirst
    rw [List.length_drop] at ih
    rw [List.length_append]
    rcases Nat.lt_or_ge data.length 256 with hshort | hlong
    · have hrest : shown (data.drop 256) = [] := by
        rw [List.drop_eq_nil_of_le (Nat.le_of_lt hshort), shown_nil]
      rw [hrest, List.length_nil]
      omega
    · omega

theorem chunk_succ (data : Bytes) (i : Nat) : chunk data (i + 1) = chunk (data.drop 256) i := by
  rw [chunk, chunk, List.drop_drop, Nat.mul_succ, Nat.add_comm 256]

/-- **A file is shown as it is if and only if every chunk is valid**: an invalid one changes the
    length, or it is the last and reads differently. -/
theorem shown_eq_iff (data : Bytes) :
    shown data = data ↔ ∀ i, Utf8.valid (chunk data i) = true := by
  fun_induction shown data with
  | case1 =>
    refine ⟨fun _ i => ?_, fun _ => rfl⟩
    rw [chunk, List.drop_nil]
    rfl
  | case2 data h ih =>
    have hzero : chunk data 0 = data.take 256 := rfl
    by_cases hvalid : Utf8.valid (data.take 256) = true
    · rw [decodeChunk_valid hvalid]
      constructor
      · intro heq i
        rcases i with - | i
        · exact hvalid
        · rw [chunk_succ]
          refine ih.mp (List.append_cancel_left (heq.trans ?_)) i
          exact (List.take_append_drop 256 data).symm
      · intro hall
        rw [ih.mpr fun i => by rw [← chunk_succ]; exact hall (i + 1)]
        exact List.take_append_drop 256 data
    · rw [decodeChunk_invalid hvalid]
      refine ⟨fun heq => absurd heq ?_, fun hall => absurd (hall 0) hvalid⟩
      have hbinary : binary.length = 8 := rfl
      intro heq
      rcases Nat.lt_or_ge data.length 256 with hshort | hlong
      · -- the last chunk
        rw [List.drop_eq_nil_of_le (Nat.le_of_lt hshort), shown_nil, List.append_nil] at heq
        rw [List.take_of_length_le (Nat.le_of_lt hshort), ← heq] at hvalid
        exact hvalid rfl
      · have hrest := length_shown (data.drop 256)
        have hlen := congrArg List.length heq
        rw [List.length_append, hbinary] at hlen
        rw [List.length_drop] at hrest
        omega

/-! ## 3. Reading a file to its end -/

/-- There is a descriptor for one more file. -/
def HasRoom (s : System) : Prop := Slots.hole s.fds < maxFds ∨ Slots.hole s.fds < s.fds.length

/-- **The loop reads what is left of the contents.** -/
theorem catLoop_contents {s : System} {fd offset : Nat} {i : Inode} {contents : Bytes} {fuel : Nat}
    (out : Str) (hget : Slots.get s.fds fd = some ⟨i, offset⟩)
    (hi : i.contents s.devices = some contents) (hle : offset ≤ contents.length)
    (hsize : contents.length < 2 ^ 63) (hfuel : contents.length - offset < fuel) :
    ∃ s', catLoop fuel s fd out = some (.ok (out ++ shown (contents.drop offset), s')) := by
  induction fuel generalizing s offset out with
  | zero => cases hfuel
  | succ fuel ih =>
    have hlen := length_readAt contents offset 256
    rw [catLoop, System.read_contents 256 hget hi (by omega)]
    rcases hk : (readAt contents offset 256).length with - | k
    · -- the end
      have hnil : contents.drop offset = [] := List.drop_eq_nil_of_le (by omega)
      rw [hnil, shown_nil, List.append_nil]
      exact ⟨_, rfl⟩
    · have hget' :
          Slots.get (Slots.update s.fds fd fun f => { f with offset := offset + (k + 1) }) fd =
            some ⟨i, offset + (k + 1)⟩ := by
        rw [Slots.get_update, if_pos rfl, hget]
        rfl
      have hne : contents.drop offset ≠ [] := by
        intro hnil
        have hzero := congrArg List.length hnil
        rw [List.length_drop, List.length_nil] at hzero
        omega
      have hrest : contents.drop (offset + (k + 1)) = (contents.drop offset).drop 256 := by
        have hsplit := readAt_append_drop contents offset 256
        rw [hk, readAt_eq] at hsplit
        exact List.append_cancel_left (hsplit.trans (List.take_append_drop 256 _).symm)
      have hshown : shown (contents.drop offset) =
          decodeChunk (readAt contents offset 256) ++ shown (contents.drop (offset + (k + 1))) := by
        rw [shown_ne hne, readAt_eq, hrest]
      rw [hshown, ← List.append_assoc]
      exact ih (s := { s with fds := _ }) _ hget' hi (by omega) (by omega)

/-- Opening takes the first free descriptor. -/
theorem openPath_room {s : System} {path : Str} {i : Inode}
    (hres : resolve Inode.lookup s.mounts path = .ok i) (hroom : HasRoom s) :
    s.openPath path = (.ok (Slots.hole s.fds), { s with fds := Slots.insert s.fds ⟨i, 0⟩ }) := by
  rw [System.openPath_eq, hres]
  exact (System.installInode_eq s i).trans (if_pos hroom)

theorem openPath_full {s : System} {path : Str} {i : Inode}
    (hres : resolve Inode.lookup s.mounts path = .ok i) (hroom : ¬ HasRoom s) :
    s.openPath path = (.error .noSpace, s) := by
  rw [System.openPath_eq, hres]
  exact (System.installInode_eq s i).trans (if_neg hroom)

/-- **`cat` of a file without a queue** shows it. -/
theorem cmdCat_contents {s : System} {path : Str} {i : Inode} {contents : Bytes} (more : List Str)
    (hres : resolve Inode.lookup s.mounts path = .ok i) (hroom : HasRoom s)
    (hi : i.contents s.devices = some contents) (hsize : contents.length < 2 ^ 63) :
    Prints s (path :: more) (.contents (shown contents)) := by
  have hget : Slots.get (Slots.insert s.fds ⟨i, 0⟩) (Slots.hole s.fds) = some ⟨i, 0⟩ := by
    rw [Slots.get_insert, if_pos rfl]
  obtain ⟨s', hloop⟩ := catLoop_contents (s := { s with fds := Slots.insert s.fds ⟨i, 0⟩ }) [] hget
    hi (Nat.zero_le _) hsize (Nat.lt_succ_self contents.length)
  refine ⟨contents.length + 1, (s'.close (Slots.hole s.fds)).2, ?_⟩
  rw [cmdCat, openPath_room hres hroom]
  dsimp only
  rw [hloop]
  rfl

/-- **`cat` prints a file.** Take any state of the file layer, with any mounts and open files, and
    any path that leads to a node of a ramdisk, with contents of any length that a slice can have.
    `cat` comes to an end and prints exactly these contents if and only if there is a descriptor for
    the file and each of its chunks of 256 bytes, taken by itself, is valid UTF-8. -/
theorem cat_prints_iff {s : System} {path : Str} {n : InodeNode} (more : List Str)
    (hres : resolve Inode.lookup s.mounts path = .ok (.node n)) (hsize : n.data.length < 2 ^ 63) :
    Prints s (path :: more) (.contents n.data) ↔
      HasRoom s ∧ ∀ i, Utf8.valid (chunk n.data i) = true := by
  by_cases hroom : HasRoom s
  · have hprints := cmdCat_contents more hres hroom rfl hsize
    rw [← shown_eq_iff]
    constructor
    · intro h
      exact ⟨hroom, CatOutput.contents.inj (hprints.unique h)⟩
    · intro ⟨_, hshown⟩
      rw [hshown] at hprints
      exact hprints
  · refine ⟨fun ⟨fuel, s', h⟩ => ?_, fun h => absurd h.1 hroom⟩
    rw [cmdCat, openPath_full hres hroom] at h
    cases h

/-- The mounts of the kernel over a ramdisk with one file, nothing open. -/
def withFile (name : Str) (data : Bytes) : System where
  fds := []
  mounts := System.mountTable (.mk [slash] .dir [] [.file name data])
  devices := .quiet none

/-- `/initrd/hi`, a line of text. -/
theorem cat_prints_hi :
    Prints (withFile (ascii ['h', 'i']) (ascii ['H', 'e', 'l', 'l', 'o', '\n']))
      [underInitrd (ascii ['h', 'i'])] (.contents (ascii ['H', 'e', 'l', 'l', 'o', '\n'])) := by
  refine (cat_prints_iff (n := .file (ascii ['h', 'i']) (ascii ['H', 'e', 'l', 'l', 'o', '\n'])) []
    rfl (by decide)).mpr ⟨.inl (by decide), fun i => ?_⟩
  rcases i with - | i
  · rfl
  · rw [chunk_succ]
    exact (shown_eq_iff []).mp shown_nil i

/-- 255 letters, then `é`. -/
def splitText : Bytes := List.replicate 255 0x61#8 ++ [0xc3#8, 0xa9#8]

/-- **A text that is not printed**: its last character lies across the first 256 bytes. -/
theorem cat_splits_character :
    Utf8.valid splitText = true ∧
      Prints (withFile (ascii ['t']) splitText) [underInitrd (ascii ['t'])]
        (.contents (binary ++ binary)) ∧
      ¬ Prints (withFile (ascii ['t']) splitText) [underInitrd (ascii ['t'])]
        (.contents splitText) := by
  have hres : resolve Inode.lookup (withFile (ascii ['t']) splitText).mounts
      (underInitrd (ascii ['t'])) = .ok (.node (.file (ascii ['t']) splitText)) := rfl
  have hshown : shown splitText = binary ++ binary := by
    have hfirst : decodeChunk (splitText.take 256) = binary :=
      decodeChunk_invalid (by decide +kernel)
    have hlast : splitText.drop 256 = [0xa9#8] := rfl
    have hsecond : decodeChunk ([0xa9#8].take 256) = binary := decodeChunk_invalid (by decide)
    have hend : [0xa9#8].drop 256 = [] := rfl
    rw [shown_ne (by decide), hfirst, hlast, shown_ne (List.cons_ne_nil _ _), hsecond, hend,
      shown_nil, List.append_nil]
  have hdata : (Inode.node (.file (ascii ['t']) splitText)).contents
      (withFile (ascii ['t']) splitText).devices = some splitText := rfl
  have hsize : splitText.length < 2 ^ 63 := by
    rw [splitText, List.length_append, List.length_replicate]
    decide
  have hprints := cmdCat_contents [] hres (.inl (by decide)) hdata hsize
  rw [hshown] at hprints
  refine ⟨by decide +kernel, hprints, fun h => ?_⟩
  exact absurd (CatOutput.contents.inj (hprints.unique h)) (by decide)

end SimpleLinux.Shell
