/-
  File:      SimpleLinux/Fs/Initrd.lean
  Subject:   The initial ramdisk: fs/initrd.rs.

  `parse` walks the 512-byte blocks of a ustar archive; `insert` places each entry in a tree whose
  directories are found by name, the first child of that name, and created where they are missing.

  * `octal`, `readCstr`, `parse`, `InodeNode`, `insert`, `fromTar` -- the code;
  * `view` -- what a path of names leads to; `view_insertAt` -- an entry adds itself at its path and
    directories above it, wherever the tree had nothing; `view_withEntries`.
-/
import SimpleLinux.Fs.Vfs
import SimpleLinux.Lib.Utf8

namespace SimpleLinux.Fs

open Rust
open Net (Byte Bytes)

/-! ## 1. The archive -/

def block : Nat := 512

/-- One parsed entry. -/
structure Entry where
  path : Str
  data : Bytes
  isDir : Bool
  deriving DecidableEq

/-- A NUL-terminated string in a fixed field. -/
def readCstr (field : Bytes) : Str := Utf8.lossy (field.takeWhile (· != 0#8))

/-- The loop of `octal`: blanks and NULs are skipped, anything else ends it. -/
def octalFrom (value : Nat) : Bytes → Res Nat
  | [] => .ok value
  | b :: bs =>
    if 0x30 ≤ b.toNat ∧ b.toNat ≤ 0x37 then do
      let value ← mul 64 value 8
      let value ← add 64 value (b.toNat - 0x30)
      octalFrom value bs
    else if b = 0x20#8 ∨ b = 0#8 then octalFrom value bs
    else .ok value

def octal (field : Bytes) : Res Nat := octalFrom 0 field

/-- The entry of one header: none without a name, no contents for a directory. -/
def entryOf (tar : Bytes) (name : Str) (typeflag : Byte) (body size : Nat) : Res (List Entry) :=
  if name.isEmpty then .ok []
  else if typeflag = 0x35#8 then .ok [{ path := name, data := [], isDir := true }]
  else do
    let stop ← add 64 body size
    let data ← slice tar body (min stop tar.length)
    return [{ path := name, data, isDir := false }]

/-- The loop of `parse`; each turn takes a block at least. -/
def parseFrom (tar : Bytes) : Nat → Nat → Res (List Entry)
  | 0, _ => .ok []
  | fuel + 1, pos => do
    let stop ← add 64 pos block
    if stop ≤ tar.length then
      let hdr ← slice tar pos stop
      if (← get hdr 0) = 0#8 then return []
      else
        let name := readCstr (← slice hdr 0 100)
        let size ← octal (← slice hdr 124 136)
        let typeflag ← get hdr 156
        let body ← add 64 pos block
        let blocks := (← add 64 size (block - 1)) / block
        let entry ← entryOf tar name typeflag body size
        let next ← add 64 body (← mul 64 blocks block)
        return entry ++ (← parseFrom tar fuel next)
    else return []

def parse (tar : Bytes) : Res (List Entry) := parseFrom tar (tar.length / block + 1) 0

/-! ## 2. The tree -/

/-- What a file with these contents puts at the start of a buffer of `len` bytes. -/
def readAt (contents : Bytes) (offset len : Nat) : Bytes :=
  if contents.length ≤ offset then []
  else (contents.drop offset).take (min len (contents.length - offset))

theorem length_readAt (contents : Bytes) (offset len : Nat) :
    (readAt contents offset len).length = min len (contents.length - offset) := by
  unfold readAt
  split
  · rw [List.length_nil]
    omega
  · rw [List.length_take, List.length_drop]
    omega

theorem readAt_eq (contents : Bytes) (offset len : Nat) :
    readAt contents offset len = (contents.drop offset).take len := by
  unfold readAt
  split
  · rename_i h
    rw [List.drop_eq_nil_of_le h, List.take_nil]
  · rw [← List.length_drop, ← List.take_eq_take_min]

/-- A read, and what is left after it. -/
theorem readAt_append_drop (contents : Bytes) (offset len : Nat) :
    readAt contents offset len ++ contents.drop (offset + (readAt contents offset len).length) =
      contents.drop offset := by
  rw [← List.drop_drop, length_readAt, readAt_eq, ← List.length_drop, List.take_eq_take_min,
    List.take_append_drop]

inductive InodeNode
  | mk (name : Str) (kind : FileKind) (data : Bytes) (children : List InodeNode)

namespace InodeNode

def name : InodeNode → Str
  | mk name _ _ _ => name

def kind : InodeNode → FileKind
  | mk _ kind _ _ => kind

def data : InodeNode → Bytes
  | mk _ _ data _ => data

def children : InodeNode → List InodeNode
  | mk _ _ _ children => children

def dir (name : Str) : InodeNode := mk name .dir [] []

def file (name : Str) (data : Bytes) : InodeNode := mk name .file data []

def setChildren (n : InodeNode) (children : List InodeNode) : InodeNode :=
  mk n.name n.kind n.data children

def findChild (n : InodeNode) (name : Str) : Option InodeNode :=
  n.children.find? fun c => c.name == name

/-- The first child of that name, or a directory pushed for it, goes through `f`. -/
def descend (name : Str) (f : InodeNode → InodeNode) : List InodeNode → List InodeNode
  | [] => [f (dir name)]
  | c :: cs => if c.name == name then f c :: cs else c :: descend name f cs

/-- The loop of `insert`: the last component is always pushed. -/
def insertAt (leaf : Str → InodeNode) : List Str → InodeNode → InodeNode
  | [], n => n
  | [c], n => n.setChildren (n.children ++ [leaf c])
  | c :: c' :: cs, n => n.setChildren (descend c (insertAt leaf (c' :: cs)) n.children)

def insert (root : InodeNode) (e : Entry) : InodeNode :=
  insertAt (fun c => if e.isDir then dir c else file c e.data) (components e.path) root

def withEntries (root : InodeNode) (entries : List Entry) : InodeNode := entries.foldl insert root

def fromTar (tar : Bytes) : Res InodeNode := do
  return withEntries (dir [slash]) (← parse tar)

def lookup (n : InodeNode) (name : Str) : FsResult InodeNode :=
  match n.findChild name with
  | some c => .ok c
  | none => .error .notFound

def read (n : InodeNode) (offset len : Nat) : FsResult Bytes := .ok (readAt n.data offset len)

/-! ## 3. What a path leads to -/

/-- The walk along a list of names. -/
def walk (n : InodeNode) : List Str → Option InodeNode
  | [] => some n
  | c :: cs => (n.findChild c).bind fun m => m.walk cs

/-- The kind and the contents at the end of it. -/
def view (n : InodeNode) (path : List Str) : Option (FileKind × Bytes) :=
  (n.walk path).map fun m => (m.kind, m.data)

theorem foldlM_lookup (n : InodeNode) (path : List Str) :
    path.foldlM lookup n = match n.walk path with
      | some m => .ok m
      | none => .error .notFound := by
  induction path generalizing n with
  | nil => rfl
  | cons c cs ih =>
    rw [List.foldlM_cons, walk, lookup]
    rcases n.findChild c with - | m
    · rfl
    · exact ih m

@[simp] theorem dir_name (name : Str) : (dir name).name = name := rfl

@[simp] theorem setChildren_name (n : InodeNode) (cs : List InodeNode) :
    (n.setChildren cs).name = n.name := rfl

@[simp] theorem setChildren_children (n : InodeNode) (cs : List InodeNode) :
    (n.setChildren cs).children = cs := rfl

theorem view_cons (n : InodeNode) (c : Str) (cs : List Str) :
    n.view (c :: cs) = (n.findChild c).bind fun m => m.view cs := by
  unfold view
  rw [walk, Option.map_bind]
  rfl

/-- A node without children leads nowhere. -/
theorem view_leaf (name : Str) (kd : FileKind × Bytes) (path : List Str) :
    (mk name kd.1 kd.2 []).view path = if path = [] then some kd else none := by
  rcases path with - | ⟨c, cs⟩
  · rfl
  · rfl

theorem find_descend {name : Str} {f : InodeNode → InodeNode} (hf : ∀ m, (f m).name = m.name)
    (cs : List InodeNode) (d : Str) :
    (descend name f cs).find? (fun c => c.name == d) =
      if d = name then some (f ((cs.find? fun c => c.name == name).getD (dir name)))
      else cs.find? fun c => c.name == d := by
  induction cs with
  | nil =>
    by_cases hd : d = name
    · simp [descend, hf, hd]
    · simp [descend, hf, hd, Ne.symm hd]
  | cons c cs ih =>
    rw [descend]
    by_cases hc : c.name = name
    · by_cases hd : d = name
      · simp [hc, hf, hd]
      · simp [hc, hf, hd, Ne.symm hd]
    · by_cases hcd : c.name = d
      · have hd : d ≠ name := hcd ▸ hc
        simp [hcd, hd]
      · simp only [beq_iff_eq, hc, if_false, List.find?_cons]
        rw [beq_eq_false_iff_ne.mpr hcd, ih, beq_eq_false_iff_ne.mpr hc]

/-- What an entry adds to the view: itself at its path, directories above. -/
def adds (kd : FileKind × Bytes) (path q : List Str) : Option (FileKind × Bytes) :=
  if q = path then some kd else if q <+: path then some (.dir, []) else none

theorem adds_nil (kd : FileKind × Bytes) (q : List Str) :
    adds kd [] q = if q = [] then some kd else none := by
  unfold adds
  by_cases hq : q = []
  · simp [hq]
  · simp [hq]

theorem adds_cons (kd : FileKind × Bytes) (c : Str) (cs : List Str) (d : Str) (ds : List Str) :
    adds kd (c :: cs) (d :: ds) = if d = c then adds kd cs ds else none := by
  unfold adds
  by_cases hd : d = c
  · simp [hd, List.cons_prefix_cons]
  · simp [hd, List.cons_prefix_cons]

section Insert

variable {kd : FileKind × Bytes}

/-- The pushed node. -/
def leafOf (kd : FileKind × Bytes) (name : Str) : InodeNode := mk name kd.1 kd.2 []

theorem insertAt_name (path : List Str) (n : InodeNode) :
    (insertAt (leafOf kd) path n).name = n.name := by
  rcases path with - | ⟨c, - | ⟨c', cs⟩⟩
  · rfl
  · rfl
  · rfl

theorem view_insertAt_nil (path : List Str) (n : InodeNode) :
    (insertAt (leafOf kd) path n).view [] = n.view [] := by
  rcases path with - | ⟨c, - | ⟨c', cs⟩⟩
  · rfl
  · rfl
  · rfl

/-- The last component is pushed as it is: an older child of that name hides it. -/
theorem findChild_insertAt_last (c d : Str) (n : InodeNode) :
    (insertAt (leafOf kd) [c] n).findChild d =
      (n.findChild d).or (if d = c then some (leafOf kd c) else none) := by
  rw [insertAt, findChild, setChildren_children, List.find?_append, findChild]
  by_cases hd : d = c
  · simp [hd, leafOf, name]
  · simp [hd, Ne.symm hd, leafOf, name]

theorem findChild_insertAt_cons (c c' : Str) (cs : List Str) (d : Str) (n : InodeNode) :
    (insertAt (leafOf kd) (c :: c' :: cs) n).findChild d =
      if d = c then some (insertAt (leafOf kd) (c' :: cs) ((n.findChild c).getD (dir c)))
      else n.findChild d := by
  rw [insertAt, findChild, setChildren_children, find_descend (insertAt_name _)]
  rfl

theorem view_nil (n : InodeNode) : n.view [] = some (n.kind, n.data) := rfl

/-- **An entry adds itself at its path, and directories above it, wherever the tree had
    nothing.** -/
theorem view_insertAt (path : List Str) (n : InodeNode) (q : List Str) :
    (insertAt (leafOf kd) path n).view q = (n.view q).or (adds kd path q) := by
  rcases q with - | ⟨d, ds⟩
  · rw [view_insertAt_nil, view_nil, Option.some_or]
  · induction path generalizing n d ds with
    | nil =>
      rw [adds_nil, if_neg (List.cons_ne_nil d ds), Option.or_none]
      rfl
    | cons c path ih =>
      rw [view_cons, view_cons, adds_cons]
      rcases path with - | ⟨c', cs⟩
      · -- the last component is pushed behind the others
        rw [findChild_insertAt_last, adds_nil]
        rcases n.findChild d with - | m
        · by_cases hd : d = c
          · rw [if_pos hd, if_pos hd]
            exact view_leaf c kd ds
          · rw [if_neg hd, if_neg hd]
            rfl
        · rcases ds with - | ⟨e, es⟩
          · rfl
          · simp
      · -- the others are found, or pushed as directories
        rw [findChild_insertAt_cons]
        by_cases hd : d = c
        · rw [if_pos hd, if_pos hd, hd, Option.bind_some]
          rcases ds with - | ⟨e, es⟩
          · rw [view_insertAt_nil]
            rcases n.findChild c with - | m
            · simp [adds, view_nil, dir, kind, data]
            · simp [view_nil]
          · rw [ih]
            rcases n.findChild c with - | m
            · rfl
            · rfl
        · rw [if_neg hd, if_neg hd, Option.or_none]

end Insert

/-- The kind and contents of an entry. -/
def ofEntry (e : Entry) : FileKind × Bytes := if e.isDir then (.dir, []) else (.file, e.data)

theorem insert_eq (root : InodeNode) (e : Entry) :
    root.insert e = insertAt (leafOf (ofEntry e)) (components e.path) root := by
  have hleaf : (fun c => if e.isDir then dir c else file c e.data) = leafOf (ofEntry e) := by
    funext c
    unfold ofEntry
    by_cases hd : e.isDir = true
    · rw [if_pos hd, if_pos hd]
      rfl
    · rw [if_neg hd, if_neg hd]
      rfl
  rw [insert, hleaf]

/-- **The first entry that has something to say about a path decides** what it leads to. -/
theorem view_withEntries (root : InodeNode) (es : List Entry) (q : List Str) :
    (root.withEntries es).view q =
      (root.view q).or (es.findSome? fun e => adds (ofEntry e) (components e.path) q) := by
  induction es generalizing root with
  | nil => rw [List.findSome?_nil, Option.or_none]; rfl
  | cons e es ih =>
    have hstep : root.withEntries (e :: es) = (root.insert e).withEntries es := rfl
    rw [hstep, ih, insert_eq, view_insertAt, Option.or_assoc, List.findSome?_cons]
    rcases adds (ofEntry e) (components e.path) q with - | kd
    · rfl
    · rfl

end InodeNode

end SimpleLinux.Fs
