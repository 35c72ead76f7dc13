/-
  File:      SimpleLinux/Fs/Siblings.lean
  Subject:   Does the tree of the ramdisk have two siblings of one name?

  `insert` looks for the directories above an entry and creates those that are missing; the entry
  itself it pushes without looking. So an entry whose path leads somewhere already becomes a second
  child of its name, which `lookup` never finds.

  * `InTree`, `Distinct` -- the nodes of a tree, and that none has two children of one name;
  * `distinct_insertAt` -- one insertion keeps this iff the path led nowhere before;
  * `walk_of_distinct` -- every node of such a tree is reached by `lookup`;
  * `distinct_siblings_iff` -- the archives whose trees have it: those in which no entry comes after
    one of its own path, or of a path below it.
-/
import Mathlib.Data.List.Induction
import Mathlib.Data.List.Nodup
import SimpleLinux.Fs.Directory

namespace SimpleLinux.Fs.InodeNode

/-! ## 1. The nodes of a tree -/

/-- The node itself, its children, and so on down. -/
inductive InTree (root : InodeNode) : InodeNode → Prop
  | root : InTree root root
  | child {n c : InodeNode} (hn : InTree root n) (hc : c ∈ n.children) : InTree root c

/-- No node of the tree has two children of one name. -/
def Distinct (root : InodeNode) : Prop :=
  ∀ n, InTree root n → (n.children.map name).Nodup

theorem InTree.trans {a b c : InodeNode} (hab : InTree a b) (hbc : InTree b c) : InTree a c := by
  induction hbc with
  | root => exact hab
  | child _ hc ih => exact ih.child hc

/-- A node of the tree is the root or a node below one of its children. -/
theorem inTree_iff {root n : InodeNode} :
    InTree root n ↔ n = root ∨ ∃ c ∈ root.children, InTree c n := by
  constructor
  · intro h
    induction h with
    | root => exact .inl rfl
    | child _ hc ih =>
      rcases ih with rfl | ⟨d, hd, hin⟩
      · exact .inr ⟨_, hc, .root⟩
      · exact .inr ⟨d, hd, hin.child hc⟩
  · intro h
    rcases h with rfl | ⟨c, hc, hin⟩
    · exact .root
    · exact (InTree.root.child hc).trans hin

theorem distinct_iff {n : InodeNode} :
    n.Distinct ↔ (n.children.map name).Nodup ∧ ∀ c ∈ n.children, c.Distinct := by
  constructor
  · intro h
    exact ⟨h n .root, fun c hc m hm => h m (inTree_iff.mpr (.inr ⟨c, hc, hm⟩))⟩
  · intro ⟨hself, hall⟩ m hm
    rcases inTree_iff.mp hm with rfl | ⟨c, hc, hin⟩
    · exact hself
    · exact hall c hc m hin

theorem distinct_leaf (name : Str) (kind : FileKind) (data : Net.Bytes) :
    (mk name kind data []).Distinct := by
  rw [distinct_iff]
  exact ⟨List.nodup_nil, fun c hc => absurd hc List.not_mem_nil⟩

/-! ## 2. One insertion -/

section Descend

variable {name : Str} {f : InodeNode → InodeNode}

/-- The names of the children: a new one at the end, if it was not there. -/
theorem names_descend (hf : ∀ m, (f m).name = m.name) (cs : List InodeNode) :
    (descend name f cs).map InodeNode.name =
      if name ∈ cs.map InodeNode.name then cs.map InodeNode.name
      else cs.map InodeNode.name ++ [name] := by
  induction cs with
  | nil => simp [descend, hf]
  | cons c cs ih =>
    rw [descend]
    by_cases hc : c.name = name
    · simp [hc, hf]
    · simp only [beq_iff_eq, hc, if_false, List.map_cons, ih, List.mem_cons, Ne.symm hc, false_or]
      split
      · rfl
      · rfl

/-- A property of all children: `f` was applied to one of them, or to a new directory. -/
theorem forall_descend {P Q : InodeNode → Prop} (hP : ∀ m, P (f m) ↔ P m ∧ Q m)
    (hdir : P (dir name)) (cs : List InodeNode) :
    (∀ c ∈ descend name f cs, P c) ↔
      (∀ c ∈ cs, P c) ∧ Q ((cs.find? fun c => c.name == name).getD (dir name)) := by
  induction cs with
  | nil => simp [descend, hP, hdir]
  | cons c cs ih =>
    rw [descend]
    by_cases hc : c.name = name
    · simp [hc, hP]
      tauto
    · rw [if_neg (by simpa using hc), List.forall_mem_cons, List.forall_mem_cons, ih,
        List.find?_cons_of_neg (by simpa using hc), and_assoc]

end Descend

theorem findChild_eq_none {n : InodeNode} {c : Str} :
    n.findChild c = none ↔ c ∉ n.children.map name := by
  rw [findChild, List.find?_eq_none, List.mem_map]
  simp

/-- A new name at the end. -/
theorem nodup_push {names : List Str} {c : Str} :
    (names ++ [c]).Nodup ↔ names.Nodup ∧ c ∉ names := by
  rw [← List.concat_eq_append, List.nodup_concat, and_comm]

/-- **An insertion keeps the names apart iff its path led nowhere.** -/
theorem distinct_insertAt (kd : FileKind × Net.Bytes) (path : List Str) (n : InodeNode) :
    (insertAt (leafOf kd) path n).Distinct ↔
      n.Distinct ∧ (path ≠ [] → n.walk path = none) := by
  induction path generalizing n with
  | nil => simp [insertAt]
  | cons c path ih =>
    rw [forall_prop_of_true (List.cons_ne_nil c path), distinct_iff, distinct_iff (n := n)]
    rcases path with - | ⟨c', cs⟩
    · -- the last component is pushed whatever is there
      have hwalk : n.walk [c] = none ↔ c ∉ n.children.map name := by
        rw [← findChild_eq_none, walk]
        rcases n.findChild c with - | m
        · simp
        · simp [walk]
      have hleaf : (leafOf kd c).Distinct := distinct_leaf c kd.1 kd.2
      have hname : [leafOf kd c].map name = [c] := rfl
      rw [insertAt, setChildren_children, List.map_append, hname, nodup_push, hwalk,
        List.forall_mem_append, List.forall_mem_singleton]
      tauto
    · -- the others are found, or pushed under a name that was not there
      have hnames : ((insertAt (leafOf kd) (c :: c' :: cs) n).children.map name).Nodup ↔
          (n.children.map name).Nodup := by
        rw [insertAt, setChildren_children, names_descend (insertAt_name _)]
        by_cases hc : c ∈ n.children.map name
        · rw [if_pos hc]
        · rw [if_neg hc, nodup_push, and_iff_left hc]
      have hwalk : n.walk (c :: c' :: cs) = none ↔
          ((n.findChild c).getD (dir c)).walk (c' :: cs) = none := by
        rw [walk]
        rcases n.findChild c with - | m
        · simp [walk, findChild, dir, children]
        · simp
      rw [hnames, hwalk, and_assoc]
      refine and_congr_right fun _ => ?_
      rw [insertAt, setChildren_children]
      have hstep (m : InodeNode) : (insertAt (leafOf kd) (c' :: cs) m).Distinct ↔
          m.Distinct ∧ m.walk (c' :: cs) = none := by
        rw [ih, forall_prop_of_true (List.cons_ne_nil c' cs)]
      exact forall_descend (Q := fun m => m.walk (c' :: cs) = none) hstep
        (distinct_leaf c .dir []) n.children

theorem distinct_insert (root : InodeNode) (e : Entry) :
    (root.insert e).Distinct ↔ root.Distinct ∧
      (components e.path ≠ [] → root.walk (components e.path) = none) := by
  rw [insert_eq]
  exact distinct_insertAt ..

/-! ## 3. Every node is found -/

/-- Among children of different names, `lookup` finds each. -/
theorem findChild_of_nodup {n c : InodeNode} (h : (n.children.map name).Nodup)
    (hc : c ∈ n.children) : n.findChild c.name = some c := by
  rcases hfound : n.findChild c.name with - | d
  · exact absurd (List.mem_map_of_mem hc) (findChild_eq_none.mp hfound)
  · have hd : d ∈ n.children := List.mem_of_find?_eq_some hfound
    have hname : d.name = c.name := by simpa using List.find?_some hfound
    rw [List.inj_on_of_nodup_map h hd hc hname]

theorem walk_of_distinct {root n : InodeNode} (h : root.Distinct) (hn : InTree root n) :
    ∃ path, root.walk path = some n := by
  induction hn with
  | root => exact ⟨[], rfl⟩
  | @child n c hn hc ih =>
    obtain ⟨path, hpath⟩ := ih
    exact ⟨path ++ [c.name], (walk_snoc hpath).trans (findChild_of_nodup (h n hn) hc)⟩

/-! ## 4. Whole archives -/

/-- No entry comes after one of its own path, or of a path below it; entries without a path are
    passed over. -/
def Ordered (es : List Entry) : Prop :=
  es.Pairwise fun a b => components b.path ≠ [] → ¬ components b.path <+: components a.path

instance (es : List Entry) : Decidable (Ordered es) :=
  inferInstanceAs (Decidable (List.Pairwise _ es))

/-- A path leads somewhere once an entry of this path, or of one below it, is in the tree. -/
theorem walk_withEntries {es : List Entry} {q : List Str} (hq : q ≠ []) :
    ((dir [slash]).withEntries es).walk q = none ↔ ∀ e ∈ es, ¬ q <+: components e.path := by
  have hroot : (dir [slash]).view q = none := by
    rw [dir, view_leaf [slash] (.dir, []), if_neg hq]
  have hview : ((dir [slash]).withEntries es).walk q = none ↔
      ((dir [slash]).withEntries es).view q = none := Option.map_eq_none_iff.symm
  have hadds (e : Entry) : adds (ofEntry e) (components e.path) q = none ↔
      ¬ q <+: components e.path := by
    constructor
    · intro h hpre
      unfold adds at h
      split at h
      · cases h
      · cases h
    · exact adds_eq_none
  rw [hview, view_withEntries, hroot, Option.none_or, List.findSome?_eq_none_iff]
  simp only [hadds]

theorem distinct_withEntries (es : List Entry) :
    ((dir [slash]).withEntries es).Distinct ↔ Ordered es := by
  induction es using List.reverseRecOn with
  | nil => exact ⟨fun _ => List.Pairwise.nil, fun _ => distinct_leaf [slash] .dir []⟩
  | append_singleton es e ih =>
    have hlast : (dir [slash]).withEntries (es ++ [e]) =
        ((dir [slash]).withEntries es).insert e := by
      simp only [withEntries, List.foldl_append, List.foldl_cons, List.foldl_nil]
    rw [hlast, distinct_insert, ih]
    refine Iff.trans (and_congr_right fun _ => ?_) List.pairwise_append.symm
    constructor
    · intro h
      refine ⟨List.pairwise_singleton .., fun a ha b hb hne => ?_⟩
      rw [List.mem_singleton] at hb
      subst hb
      exact (walk_withEntries hne).mp (h hne) a ha
    · intro ⟨_, h⟩ hne
      exact (walk_withEntries hne).mpr fun a ha => h a ha e List.mem_cons_self hne

/-- **The siblings of the ramdisk have different names iff no entry of the archive comes after one
    of its own path, or of a path below it.** Every node is then found by `lookup`, name by name,
    and no directory lists a name twice. -/
theorem distinct_siblings_iff (es : List Entry) :
    (∀ n, InTree ((dir [slash]).withEntries es) n →
      (∃ names, n.listDir = .ok names ∧ names.Nodup) ∧
        ∃ path, ((dir [slash]).withEntries es).walk path = some n) ↔ Ordered es := by
  rw [← distinct_withEntries]
  constructor
  · intro h n hn
    obtain ⟨⟨names, hlist, hnodup⟩, -⟩ := h n hn
    cases hlist
    exact hnodup
  · intro h n hn
    exact ⟨⟨_, rfl, h n hn⟩, walk_of_distinct h hn⟩

/-- A file `a/b`, and a directory `a` that is packed after it. -/
def contentsFirst : List Entry :=
  [⟨ascii ['a', '/', 'b'], [1#8], false⟩, ⟨ascii ['a'], [], true⟩]

/-- The root lists `a` twice; `lookup` finds the first, which holds the file. -/
theorem contentsFirst_lists :
    ∃ n, InTree ((dir [slash]).withEntries contentsFirst) n ∧
      n.listDir = .ok [ascii ['a'], ascii ['a']] ∧ ¬ [ascii ['a'], ascii ['a']].Nodup :=
  ⟨_, .root, rfl, by decide⟩

end SimpleLinux.Fs.InodeNode
