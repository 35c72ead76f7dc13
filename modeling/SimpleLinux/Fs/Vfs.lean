/-
  File:      SimpleLinux/Fs/Vfs.lean
  Subject:   Errors, open files, mounts and path resolution: fs/vfs.rs.

  A `str` is the list of its UTF-8 bytes. An inode is an element of a type `ι` with a `lookup`; the
  mount table keeps the root inode of each file system beside its mount point.

  * `components` -- a path cut at its slashes, empty pieces dropped;
  * `covers`, `longestMount`, `resolve` -- the mount that a path belongs to, and the walk from
    there;
  * `resolve_induction` -- what every path leads to; `resolve_under` -- a path below a mount point
    that no other mount covers.
-/
import SimpleLinux.Net.Wire

namespace SimpleLinux.Fs

open Net (Byte Bytes)

/-- The UTF-8 bytes of a string. -/
abbrev Str := Bytes

inductive FsError
  | notFound
  | permissionDenied
  | notDir
  | isDir
  | invalidArg
  | noSpace
  | io
  deriving DecidableEq

def FsError.errno : FsError → Int
  | .io => -5
  | .notFound => -2
  | .permissionDenied => -13
  | .notDir => -20
  | .isDir => -21
  | .invalidArg => -22
  | .noSpace => -28

abbrev FsResult (α : Type) := Except FsError α

instance {α : Type} [DecidableEq α] : DecidableEq (FsResult α)
  | .ok a, .ok b => decidable_of_iff (a = b) (by simp)
  | .error a, .error b => decidable_of_iff (a = b) (by simp)
  | .ok _, .error _ => isFalse (by simp)
  | .error _, .ok _ => isFalse (by simp)

inductive FileKind
  | file
  | dir
  | charDev
  deriving DecidableEq

/-- An open file: an inode and a cursor of its own. -/
structure File (ι : Type) where
  inode : ι
  offset : Nat
  deriving DecidableEq

/-! ## 1. Paths -/

def slash : Byte := 0x2f#8

/-- `split('/').filter(|c| !c.is_empty())`. -/
def components (path : Str) : List Str := (path.splitOn slash).filter fun c => !c.isEmpty

theorem components_append_slash (a b : Str) :
    components (a ++ slash :: b) = components a ++ components b := by
  unfold components
  rw [List.splitOn_append_cons_self, List.filter_append]

@[simp] theorem components_nil : components [] = [] := rfl

theorem components_slash (b : Str) : components (slash :: b) = components b :=
  components_append_slash [] b

/-! ## 2. Mounts -/

section Resolve

variable {ι : Type}

/-- Does the mount point cover the path as a whole component? -/
def covers (point path : Str) : Bool :=
  path == point || (point.isPrefixOf path && path[point.length]? == some slash)

/-- One turn of the loop of `longest_mount`. -/
def longerMount (path : Str) (best : Option (Nat × ι)) (m : Str × ι) : Option (Nat × ι) :=
  if covers m.1 path && best.all (fun b => decide (b.1 ≤ m.1.length)) then some (m.1.length, m.2)
  else best

/-- The longest mount point that covers the path, the last mounted among equals: its length and the
    root of its file system. -/
def longestMount (mounts : List (Str × ι)) (path : Str) : Option (Nat × ι) :=
  mounts.foldl (longerMount path) none

/-- The mount of an absolute path, then one `lookup` for each component of the rest. -/
def resolve (lookup : ι → Str → FsResult ι) (mounts : List (Str × ι)) (path : Str) : FsResult ι :=
  if path.head? ≠ some slash then .error .invalidArg
  else
    match longestMount mounts path with
    | none => .error .notFound
    | some (plen, root) => (components (path.drop plen)).foldlM lookup root

theorem covers_under (point rest : Str) : covers point (point ++ slash :: rest) = true := by
  have hpre : point.isPrefixOf (point ++ slash :: rest) = true :=
    List.isPrefixOf_iff_prefix.mpr (List.prefix_append ..)
  unfold covers
  rw [hpre, List.getElem?_append_right (Nat.le_refl _), Nat.sub_self]
  simp

/-- The root that is chosen is that of a mount. -/
theorem longestMount_mem {mounts : List (Str × ι)} {path : Str} {r : Nat × ι}
    (h : longestMount mounts path = some r) : ∃ m ∈ mounts, m.2 = r.2 := by
  -- the loop keeps what it has or takes the mount it looks at
  have hloop : ∀ (ms : List (Str × ι)) (best : Option (Nat × ι)),
      ms.foldl (longerMount path) best = some r → best = some r ∨ ∃ m ∈ ms, m.2 = r.2 := by
    intro ms
    induction ms with
    | nil => exact fun best h => .inl h
    | cons m ms ih =>
      intro best h
      rcases ih _ h with hb | ⟨m', hm', he⟩
      · unfold longerMount at hb
        split at hb
        · cases hb
          exact .inr ⟨m, List.mem_cons_self, rfl⟩
        · exact .inl hb
      · exact .inr ⟨m', List.mem_cons_of_mem _ hm', he⟩
  rcases hloop mounts none h with h | h
  · cases h
  · exact h

/-- **What holds of the roots and is kept by `lookup` holds wherever a path leads.** -/
theorem resolve_induction {P : ι → Prop} {lookup : ι → Str → FsResult ι} {mounts : List (Str × ι)}
    {path : Str} {i : ι} (hroots : ∀ m ∈ mounts, P m.2)
    (hlookup : ∀ {i j name}, P i → lookup i name = .ok j → P j)
    (h : resolve lookup mounts path = .ok i) : P i := by
  have hwalk : ∀ (names : List Str) (r : ι), P r → names.foldlM lookup r = .ok i → P i := by
    intro names
    induction names with
    | nil =>
      intro r hr h
      cases h
      exact hr
    | cons name names ih =>
      intro r hr h
      rw [List.foldlM_cons] at h
      obtain ⟨j, hj, h⟩ := Rust.bind_eq_ok.mp h
      exact ih j (hlookup hr hj) h
  unfold resolve at h
  split at h
  · cases h
  · split at h
    · cases h
    · rename_i plen r hmount
      obtain ⟨m, hm, hr⟩ := longestMount_mem hmount
      refine hwalk _ r ?_ h
      rw [← show m.2 = r from hr]
      exact hroots m hm

/-- Mounts that do not cover the path change nothing. -/
theorem foldl_longerMount_skip {path : Str} {ms : List (Str × ι)}
    (h : ∀ m ∈ ms, covers m.1 path = false) (best : Option (Nat × ι)) :
    ms.foldl (longerMount path) best = best := by
  induction ms with
  | nil => rfl
  | cons m ms ih =>
    have hm : longerMount path best m = best := by
      rw [longerMount, h m (List.mem_cons_self ..), Bool.false_and, if_neg (by decide)]
    rw [List.foldl_cons, hm]
    exact ih fun q hq => h q (List.mem_cons_of_mem _ hq)

/-- A path below a mount point that no other mount covers is walked from that mount's root. -/
theorem resolve_under (lookup : ι → Str → FsResult ι) {before after : List (Str × ι)} {root : ι}
    {point rest : Str} (habs : point.head? = some slash)
    (hbefore : ∀ m ∈ before, covers m.1 (point ++ slash :: rest) = false)
    (hafter : ∀ m ∈ after, covers m.1 (point ++ slash :: rest) = false) :
    resolve lookup (before ++ (point, root) :: after) (point ++ slash :: rest) =
      (components rest).foldlM lookup root := by
  have hmount : longestMount (before ++ (point, root) :: after) (point ++ slash :: rest) =
      some (point.length, root) := by
    unfold longestMount
    rw [List.foldl_append, foldl_longerMount_skip hbefore, List.foldl_cons,
      foldl_longerMount_skip hafter, longerMount, covers_under]
    rfl
  have hhead : (point ++ slash :: rest).head? = some slash := by
    rw [List.head?_append, habs]
    rfl
  unfold resolve
  rw [if_neg (by simp [hhead]), hmount]
  dsimp only
  rw [List.drop_left, components_slash]

end Resolve

end SimpleLinux.Fs
