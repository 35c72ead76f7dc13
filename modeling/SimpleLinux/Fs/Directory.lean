/-
  File:      SimpleLinux/Fs/Directory.lean
  Subject:   Listing directories: `list_dir` of the trait `Inode`, of its implementations, and of
             fs/mod.rs.

  The trait says what a directory is: it lists its children, and anything else answers that it is
  none. The default method does; the nodes of the ramdisk override it for files and directories
  alike.

  * `Inode.listDir`, `System.listDir` -- the code;
  * `Inode.lookup_iff` -- what is listed is what `lookup` finds, for every inode;
  * `Inode.contract_iff` -- the contract, inode by inode; `kind_of_resolve` -- the ramdisk holds
    files and directories only;
  * `directory_contract_iff` -- every path keeps the contract, except those of files of the ramdisk;
    `initrd_file_lists`.
-/
import SimpleLinux.Fs.Archive

namespace SimpleLinux.Fs

open Rust
open Net (Bytes)

/-! ## 1. The code -/

/-- The names of the children, in order. -/
def InodeNode.listDir (n : InodeNode) : FsResult (List Str) := .ok (n.children.map InodeNode.name)

def Inode.listDir : Inode → FsResult (List Str)
  | devDir =>
    .ok [ascii ['c', 'o', 'n', 's', 'o', 'l', 'e'], ascii ['n', 'u', 'l', 'l'],
      ascii ['z', 'e', 'r', 'o'], ascii ['k', 'b', 'd']]
  | procDir =>
    .ok [ascii ['m', 'e', 'm', 'i', 'n', 'f', 'o'], ascii ['u', 'p', 't', 'i', 'm', 'e']]
  | node n => n.listDir
  | _ => .error .notDir

def System.listDir (s : System) (path : Str) : FsResult (List Str) := do
  (← resolve Inode.lookup s.mounts path).listDir

/-! ## 2. One inode -/

theorem InodeNode.lookup_iff (n : InodeNode) (name : Str) :
    (∃ m, n.lookup name = .ok m) ↔ name ∈ n.children.map InodeNode.name := by
  have hfind : (n.findChild name).isSome = true ↔ name ∈ n.children.map InodeNode.name := by
    rw [InodeNode.findChild, List.find?_isSome, List.mem_map]
    simp only [beq_iff_eq]
  rw [← hfind, InodeNode.lookup]
  rcases n.findChild name with - | m
  · simp
  · simp

/-- **A name is listed iff `lookup` finds it.** -/
theorem Inode.lookup_iff {i : Inode} {names : List Str} (h : i.listDir = .ok names) (name : Str) :
    (∃ j, i.lookup name = .ok j) ↔ name ∈ names := by
  rcases i with - | - | - | - | - | - | gen | n | idx
  case devDir | procDir =>
    cases h
    rw [Inode.lookup]
    split_ifs
    all_goals simp_all
  case node =>
    cases h
    rw [← n.lookup_iff, Inode.lookup]
    rcases n.lookup name with e | m
    · simp [Except.map]
    · simp [Except.map]
  all_goals cases h

/-- What the trait asks of an inode that was found: it can be listed iff it is a directory, and the
    list is what `lookup` knows. -/
structure DirectoryContract (i : Inode) (listed : FsResult (List Str)) : Prop where
  lists : i.kind = .dir → ∃ names, listed = .ok names
  refuses : i.kind ≠ .dir → listed = .error .notDir
  names : ∀ names, listed = .ok names → ∀ name, slash ∉ name →
    ((∃ j, i.lookup name = .ok j) ↔ name ∈ names)

/-- The node of a file of the ramdisk. -/
def Inode.isInitrdFile : Inode → Bool
  | .node n => n.kind == .file
  | _ => false

/-- Everything but a node of the ramdisk that is no directory keeps the contract. -/
theorem Inode.contract_iff {i : Inode} (hkind : ∀ n, i = .node n → n.kind = .dir ∨ n.kind = .file) :
    DirectoryContract i i.listDir ↔ i.isInitrdFile = false := by
  constructor
  · intro h
    rcases i with - | - | - | - | - | - | gen | n | idx
    case node =>
      -- a node lists its children whatever it is
      refine beq_eq_false_iff_ne.mpr fun hfile => ?_
      have hrefuses := h.refuses (by rw [Inode.kind, hfile]; decide)
      cases hrefuses
    all_goals rfl
  · intro hno
    refine ⟨fun hdir => ?_, fun hdir => ?_, fun names h name _ => Inode.lookup_iff h name⟩
    · rcases i with - | - | - | - | - | - | gen | n | idx
      case devDir | procDir | node => exact ⟨_, rfl⟩
      all_goals cases hdir
    · rcases i with - | - | - | - | - | - | gen | n | idx
      case devDir | procDir => exact absurd rfl hdir
      case node =>
        rcases hkind n rfl with hn | hn
        · exact absurd hn hdir
        · exact absurd hn (beq_eq_false_iff_ne.mp hno)
      all_goals rfl

/-! ## 3. The nodes of an archive -/

/-- The parser makes files and directories. -/
theorem kind_of_view {tar : Bytes} {root : InodeNode} (h : InodeNode.fromTar tar = .ok root)
    {q : List Str} {kd : FileKind × Bytes} (hq : root.view q = some kd) :
    kd.1 = .dir ∨ kd.1 = .file := by
  obtain ⟨es, -, he⟩ := bind_eq_ok.mp h
  cases he
  rw [InodeNode.view_withEntries, InodeNode.dir, InodeNode.view_leaf [slash] (.dir, [])] at hq
  rcases Option.or_eq_some_iff.mp hq with hq | ⟨-, hq⟩
  · split at hq
    · cases hq
      exact .inl rfl
    · cases hq
  · obtain ⟨e, -, hadds⟩ := List.exists_of_findSome?_eq_some hq
    unfold InodeNode.adds at hadds
    split at hadds
    · cases hadds
      unfold InodeNode.ofEntry
      split
      · exact .inl rfl
      · exact .inr rfl
    · split at hadds
      · cases hadds
        exact .inl rfl
      · cases hadds

theorem walk_snoc {root n : InodeNode} {q : List Str} {c : Str} (h : root.walk q = some n) :
    root.walk (q ++ [c]) = n.findChild c := by
  induction q generalizing root with
  | nil =>
    cases h
    exact Option.bind_fun_some (n.findChild c)
  | cons d q ih =>
    rw [InodeNode.walk] at h
    obtain ⟨m, hm, h⟩ := Option.bind_eq_some_iff.mp h
    rw [List.cons_append, InodeNode.walk, hm]
    exact ih h

/-- The inode is no node of a ramdisk, or one of this tree. -/
def Within (root : InodeNode) (i : Inode) : Prop := ∀ n, i = .node n → ∃ q, root.walk q = some n

theorem within_lookup {root : InodeNode} {i j : Inode} {name : Str} (hi : Within root i)
    (h : i.lookup name = .ok j) : Within root j := by
  rintro n rfl
  rcases i with - | - | - | - | - | - | gen | m | idx
  case devDir | procDir =>
    rw [Inode.lookup] at h
    split_ifs at h
    all_goals cases h
  case node =>
    obtain ⟨q, hq⟩ := hi m rfl
    rw [Inode.lookup, InodeNode.lookup] at h
    rcases hc : m.findChild name with - | c
    · rw [hc] at h
      cases h
    · rw [hc] at h
      cases h
      exact ⟨q ++ [name], (walk_snoc hq).trans hc⟩
  all_goals cases h

theorem within_resolve {root : InodeNode} {path : Str} {i : Inode}
    (h : resolve Inode.lookup (System.mountTable root) path = .ok i) : Within root i := by
  refine resolve_induction (fun m hm n hn => ?_) within_lookup h
  simp only [System.mountTable, List.mem_cons, List.not_mem_nil, or_false] at hm
  rcases hm with rfl | rfl | rfl
  · cases hn
  · cases hn
  · cases hn
    exact ⟨[], rfl⟩

theorem kind_of_resolve {tar : Bytes} {root : InodeNode} (hroot : InodeNode.fromTar tar = .ok root)
    {path : Str} {i : Inode} (h : resolve Inode.lookup (System.mountTable root) path = .ok i) :
    ∀ n, i = .node n → n.kind = .dir ∨ n.kind = .file := by
  intro n hn
  obtain ⟨q, hq⟩ := within_resolve h n hn
  have hview : root.view q = some (n.kind, n.data) := by rw [InodeNode.view, hq]; rfl
  exact kind_of_view hroot hview

/-! ## 4. Every path -/

/-- **The directory contract holds everywhere but at the files of the ramdisk.** For every archive
    and every path that resolves: `list_dir` succeeds iff the inode is a directory, answers `NotDir`
    otherwise, and lists exactly the names that `lookup` finds, unless the path leads to a file of
    the archive. -/
theorem directory_contract_iff {tar : Bytes} {root : InodeNode} {s : System} {path : Str}
    {i : Inode} (hroot : InodeNode.fromTar tar = .ok root) (hs : s.mounts = System.mountTable root)
    (hres : resolve Inode.lookup s.mounts path = .ok i) :
    DirectoryContract i (s.listDir path) ↔ i.isInitrdFile = false := by
  have hlist : s.listDir path = i.listDir := by
    rw [System.listDir, hres]
    rfl
  rw [hlist]
  rw [hs] at hres
  exact Inode.contract_iff (kind_of_resolve hroot hres)

/-- The state after `fs::init` over the sample archive. -/
def sampleSystem : System := ⟨[], System.mountTable (tree sampleMembers), .quiet none⟩

theorem fromTar_sample : InodeNode.fromTar (archive sampleMembers) = .ok (tree sampleMembers) := by
  refine fromTar_archive ?_
  simp [archive, sampleMembers, Member.packed, Member.length_body, Member.data, block]

/-- The directory of the sample archive, and the devices. -/
theorem directory_contract_sample :
    DirectoryContract .devDir (sampleSystem.listDir (ascii ['/', 'd', 'e', 'v'])) ∧
      ∃ i, resolve Inode.lookup sampleSystem.mounts (underInitrd (ascii ['a'])) = .ok i ∧
        DirectoryContract i (sampleSystem.listDir (underInitrd (ascii ['a']))) :=
  ⟨(directory_contract_iff fromTar_sample rfl rfl).mpr rfl, _, rfl,
    (directory_contract_iff fromTar_sample rfl rfl).mpr rfl⟩

/-- **A file of the ramdisk lists**: as an empty directory. -/
theorem initrd_file_lists :
    ∃ root i, InodeNode.fromTar (archive sampleMembers) = .ok root ∧
      resolve Inode.lookup (System.mountTable root) (underInitrd (ascii ['a', '/', 'b'])) = .ok i ∧
      i.kind = .file ∧
      System.listDir ⟨[], System.mountTable root, .quiet none⟩
        (underInitrd (ascii ['a', '/', 'b'])) = .ok [] ∧
      ¬ DirectoryContract i (System.listDir ⟨[], System.mountTable root, .quiet none⟩
        (underInitrd (ascii ['a', '/', 'b']))) := by
  refine ⟨tree sampleMembers, _, fromTar_sample, rfl, rfl, rfl, fun h => ?_⟩
  have hrefuses := h.refuses (by decide)
  cases hrefuses

end SimpleLinux.Fs
