/-
  File:      SimpleLinux/Fs/Mounts.lean
  Subject:   Is a path resolved by its components? `covers`, `longest_mount` and `resolve` of
             fs/vfs.rs against the meaning of a path.

  What a path means is its list of components: the mount is the one whose components are the longest
  beginning of it, and the rest is walked. The code compares TEXTS: the mount point has to stand at
  the beginning of the path, followed by a slash or by nothing. That misses a mount whose point is
  written with more slashes in the path, and the root: after `/` stands the first component.

  * `LastMax`, `lastMax` -- the last of the largest elements of a list, and the loop that finds it;
  * `spell`, `MountPoint` -- `/c1/.../ck` or `/`; among the beginnings of one path the longer text
    has more components (`length_spell_le_iff`);
  * `Spec.resolvePath` -- the meaning;
  * `resolve_eq_spec_iff` -- the code agrees with it exactly on the paths that spell their mount as
    it was mounted; `resolve_misses`.
-/
import Mathlib.Data.List.Induction
import SimpleLinux.Fs.Inode

namespace SimpleLinux.Fs

/-! ## 1. The last of the largest -/

section LastMax

variable {α : Type}

/-- One of the elements that `good` admits, none of them is larger, and none after it is as
    large. -/
def LastMax (good : α → Bool) (size : α → Nat) (xs : List α) (a : α) : Prop :=
  ∃ before after, xs = before ++ a :: after ∧ good a = true ∧
    (∀ b ∈ before, good b = true → size b ≤ size a) ∧ ∀ b ∈ after, good b = true → size b < size a

/-- One turn of the loop. -/
def larger (good : α → Bool) (size : α → Nat) (best : Option α) (a : α) : Option α :=
  if good a && best.all (fun b => decide (size b ≤ size a)) then some a else best

def lastMax (good : α → Bool) (size : α → Nat) (xs : List α) : Option α :=
  xs.foldl (larger good size) none

variable {good : α → Bool} {size : α → Nat} {xs : List α} {a : α}

theorem LastMax.mem (h : LastMax good size xs a) : a ∈ xs ∧ good a = true := by
  obtain ⟨before, after, rfl, hgood, -, -⟩ := h
  exact ⟨List.mem_append_right _ List.mem_cons_self, hgood⟩

theorem LastMax.bound (h : LastMax good size xs a) {b : α} (hb : b ∈ xs) (hgood : good b = true) :
    size b ≤ size a := by
  obtain ⟨before, after, rfl, -, hbefore, hafter⟩ := h
  rcases List.mem_append.mp hb with hb | hb
  · exact hbefore b hb hgood
  · rcases List.mem_cons.mp hb with rfl | hb
    · exact Nat.le_refl _
    · exact Nat.le_of_lt (hafter b hb hgood)

/-- What the loop has after some turns: nothing, if nothing was admitted; else the last of the
    largest so far. -/
theorem lastMax_cases (good : α → Bool) (size : α → Nat) (xs : List α) :
    (lastMax good size xs = none ∧ ∀ b ∈ xs, good b = false) ∨
      ∃ a, lastMax good size xs = some a ∧ LastMax good size xs a := by
  induction xs using List.reverseRecOn with
  | nil => exact .inl ⟨rfl, fun b hb => nomatch hb⟩
  | append_singleton xs c ih =>
    have hstep : lastMax good size (xs ++ [c]) = larger good size (lastMax good size xs) c := by
      rw [lastMax, List.foldl_append]
      rfl
    rw [hstep]
    rcases ih with ⟨hnone, hbad⟩ | ⟨a, ha, hmax⟩
    · rw [hnone, larger]
      by_cases hc : good c = true
      · right
        refine ⟨c, by simp [hc], xs, [], rfl, hc, fun b hb hgood => ?_, fun b hb => nomatch hb⟩
        rw [hbad b hb] at hgood
        cases hgood
      · left
        refine ⟨by simp [hc], fun b hb => ?_⟩
        rcases List.mem_append.mp hb with hb | hb
        · exact hbad b hb
        · rw [List.mem_singleton.mp hb]
          exact Bool.eq_false_iff.mpr hc
    · right
      rw [ha, larger]
      by_cases hc : good c = true ∧ size a ≤ size c
      · refine ⟨c, by simp [hc.1, hc.2], xs, [], rfl, hc.1, fun b hb hgood => ?_,
          fun b hb => nomatch hb⟩
        exact Nat.le_trans (hmax.bound hb hgood) hc.2
      · have hkeep : ¬ (good c && (some a).all fun b => decide (size b ≤ size c)) = true := by
          simpa using hc
        rw [if_neg hkeep]
        obtain ⟨before, after, rfl, hgood, hbefore, hafter⟩ := hmax
        refine ⟨a, rfl, before, after ++ [c], by simp, hgood, hbefore, fun b hb hb' => ?_⟩
        rcases List.mem_append.mp hb with hb | hb
        · exact hafter b hb hb'
        · rw [List.mem_singleton.mp hb] at hb' ⊢
          exact Nat.lt_of_not_le fun hle => hc ⟨hb', hle⟩

/-- The loop finds the last of the largest. -/
theorem LastMax.eq (h : LastMax good size xs a) : lastMax good size xs = some a := by
  obtain ⟨before, after, rfl, hgood, hbefore, hafter⟩ := h
  have hturn : larger good size (lastMax good size before) a = some a := by
    rcases lastMax_cases good size before with ⟨hnone, -⟩ | ⟨b, hb, hmax⟩
    · rw [hnone, larger]
      simp [hgood]
    · rw [hb, larger]
      simp [hgood, hbefore b hmax.mem.1 hmax.mem.2]
  have hrest : ∀ rest : List α, (∀ b ∈ rest, good b = true → size b < size a) →
      rest.foldl (larger good size) (some a) = some a := by
    intro rest hsmall
    induction rest with
    | nil => rfl
    | cons b rest ih =>
      have hb : larger good size (some a) b = some a := by
        unfold larger
        refine if_neg fun hc => ?_
        rw [Bool.and_eq_true] at hc
        have hle : size a ≤ size b := by simpa using hc.2
        exact Nat.not_le.mpr (hsmall b List.mem_cons_self hc.1) hle
      rw [List.foldl_cons, hb]
      exact ih fun b' hb' => hsmall b' (List.mem_cons_of_mem _ hb')
  rw [lastMax, List.foldl_append, List.foldl_cons]
  have hbest : before.foldl (larger good size) none = lastMax good size before := rfl
  rw [hbest, hturn]
  exact hrest after hafter

end LastMax

/-! ## 2. Mount points -/

/-- A component: not empty, and without a slash. -/
def IsComponent (c : Str) : Prop := c ≠ [] ∧ slash ∉ c

/-- `/c1/.../ck`, or `/` for no component at all. -/
def spell : List Str → Str
  | [] => [slash]
  | c :: cs => (c :: cs).flatMap (slash :: ·)

/-- A text that a file system may be mounted at. -/
def MountPoint (point : Str) : Prop := ∃ cs, (∀ c ∈ cs, IsComponent c) ∧ point = spell cs

theorem components_component {c : Str} (h : IsComponent c) : components c = [c] := by
  rw [components, List.splitOn_eq_singleton h.2]
  simp [h.1]

theorem components_flatMap {cs : List Str} (h : ∀ c ∈ cs, IsComponent c) :
    components (cs.flatMap (slash :: ·)) = cs := by
  induction cs with
  | nil => rfl
  | cons c cs ih =>
    have hc := components_component (h c List.mem_cons_self)
    have hcs := ih fun c' hc' => h c' (List.mem_cons_of_mem _ hc')
    rw [List.flatMap_cons, List.cons_append, components_slash]
    rcases cs with - | ⟨d, ds⟩
    · rw [List.flatMap_nil, List.append_nil, hc]
    · rw [List.flatMap_cons, List.cons_append] at hcs ⊢
      rw [components_slash] at hcs
      rw [components_append_slash, hc, hcs]
      rfl

theorem components_spell {cs : List Str} (h : ∀ c ∈ cs, IsComponent c) :
    components (spell cs) = cs := by
  rcases cs with - | ⟨c, cs⟩
  · rfl
  · exact components_flatMap h

/-- A mount point is the one spelling of its components. -/
theorem MountPoint.eq_spell {point : Str} (h : MountPoint point) :
    point = spell (components point) := by
  obtain ⟨cs, hcs, rfl⟩ := h
  rw [components_spell hcs]

/-- More components, a longer text. -/
theorem length_spell_lt {cs : List Str} {d : Str} (hd : d ≠ []) (ds : List Str) :
    (spell cs).length < (spell (cs ++ d :: ds)).length := by
  have hpos : 0 < d.length := List.length_pos_iff.mpr hd
  rcases cs with - | ⟨c, cs⟩
  · simp only [spell, List.nil_append, List.flatMap_cons, List.length_append, List.length_cons,
      List.length_nil]
    omega
  · simp only [spell, List.cons_append, List.flatMap_cons, List.flatMap_append, List.length_append,
      List.length_cons]
    omega

section Beginnings

variable {p q : Str} {comps : List Str}

theorem isComponent_of_mem (hp : MountPoint p) {c : Str} (hc : c ∈ components p) :
    IsComponent c := by
  obtain ⟨cs, hcs, rfl⟩ := hp
  rw [components_spell hcs] at hc
  exact hcs c hc

/-- Two mount points whose components begin the same path, the first with fewer. -/
theorem length_lt_of_components (hp : MountPoint p) (hq : MountPoint q)
    (hpc : components p <+: comps) (hqc : components q <+: comps)
    (h : (components p).length < (components q).length) : p.length < q.length := by
  obtain ⟨rest, hrest⟩ := List.prefix_of_prefix_length_le hpc hqc (Nat.le_of_lt h)
  rcases rest with - | ⟨d, ds⟩
  · rw [← hrest, List.append_nil] at h
    exact absurd h (Nat.lt_irrefl _)
  · have hd : d ∈ components q := by
      rw [← hrest]
      exact List.mem_append_right _ List.mem_cons_self
    rw [hp.eq_spell, hq.eq_spell, ← hrest]
    exact length_spell_lt (isComponent_of_mem hq hd).1 ds

theorem eq_of_components (hp : MountPoint p) (hq : MountPoint q) (hpc : components p <+: comps)
    (hqc : components q <+: comps) (h : (components p).length = (components q).length) : p = q := by
  have hcs := (List.prefix_of_prefix_length_le hpc hqc (Nat.le_of_eq h)).eq_of_length h
  rw [hp.eq_spell, hq.eq_spell, hcs]

/-- **Among the beginnings of a path, the longer text has more components.** -/
theorem length_spell_le_iff (hp : MountPoint p) (hq : MountPoint q) (hpc : components p <+: comps)
    (hqc : components q <+: comps) :
    p.length ≤ q.length ↔ (components p).length ≤ (components q).length := by
  constructor
  · intro h
    refine Nat.le_of_not_lt fun hlt => ?_
    exact absurd h (Nat.not_le.mpr (length_lt_of_components hq hp hqc hpc hlt))
  · intro h
    rcases Nat.lt_or_eq_of_le h with hlt | heq
    · exact Nat.le_of_lt (length_lt_of_components hp hq hpc hqc hlt)
    · exact Nat.le_of_eq (congrArg List.length (eq_of_components hp hq hpc hqc heq))

end Beginnings

/-! ## 3. What a path means, and what the code looks at -/

section Resolve

variable {ι : Type}

namespace Spec

/-- The mount whose components are the longest beginning of the path's, the last among equals. -/
def mountOf (mounts : List (Str × ι)) (path : Str) : Option (Str × ι) :=
  lastMax (fun m => decide (components m.1 <+: components path)) (fun m => (components m.1).length)
    mounts

/-- From its root, one `lookup` for each of the remaining components. -/
def resolvePath (lookup : ι → Str → FsResult ι) (mounts : List (Str × ι)) (path : Str) :
    FsResult ι :=
  match mountOf mounts path with
  | none => .error .notFound
  | some (point, root) => ((components path).drop (components point).length).foldlM lookup root

end Spec

/-- The mount point stands at the beginning of the path, followed by nothing or by a slash. -/
def Stands (point path : Str) : Prop := path = point ∨ point ++ [slash] <+: path

instance (point path : Str) : Decidable (Stands point path) := inferInstanceAs (Decidable (_ ∨ _))

theorem covers_iff (point path : Str) : covers point path = true ↔ Stands point path := by
  have hnext : (point.isPrefixOf path = true ∧ path[point.length]? = some slash) ↔
      point ++ [slash] <+: path := by
    constructor
    · intro h
      obtain ⟨rest, rfl⟩ := List.isPrefixOf_iff_prefix.mp h.1
      have hslash := h.2
      rw [List.getElem?_append_right (Nat.le_refl _), Nat.sub_self] at hslash
      rcases rest with - | ⟨b, rest⟩
      · cases hslash
      · have hb : b = slash := Option.some.inj hslash
        rw [hb]
        exact ⟨rest, by simp⟩
    · intro h
      obtain ⟨rest, rfl⟩ := h
      refine ⟨List.isPrefixOf_iff_prefix.mpr ⟨slash :: rest, by simp⟩, ?_⟩
      simp
  rw [covers, Bool.or_eq_true, Bool.and_eq_true, beq_iff_eq, beq_iff_eq, hnext]
  rfl

/-- A mount point that stands at the beginning: its components do, and the rest are the rest's. -/
theorem Stands.components {point path : Str} (h : Stands point path) :
    components path = components point ++ components (path.drop point.length) := by
  rcases h with rfl | ⟨rest, rfl⟩
  · rw [List.drop_length, components_nil, List.append_nil]
  · have hpath : point ++ [slash] ++ rest = point ++ slash :: rest := by simp
    rw [hpath, List.drop_left, components_append_slash, components_slash]

theorem Stands.begins {point path : Str} (h : Stands point path) :
    Fs.components point <+: Fs.components path := ⟨_, h.components.symm⟩

/-- The loop of the code is the same loop, over the texts. -/
theorem longestMount_eq (mounts : List (Str × ι)) (path : Str) :
    longestMount mounts path =
      (lastMax (fun m => covers m.1 path) (fun m => m.1.length) mounts).map
        fun m => (m.1.length, m.2) := by
  have hloop : ∀ (ms : List (Str × ι)) (best : Option (Str × ι)),
      ms.foldl (longerMount path) (best.map fun m => (m.1.length, m.2)) =
        (ms.foldl (larger (fun m => covers m.1 path) fun m => m.1.length) best).map
          fun m => (m.1.length, m.2) := by
    intro ms
    induction ms with
    | nil => exact fun best => rfl
    | cons m ms ih =>
      intro best
      have hturn : longerMount path (best.map fun m => (m.1.length, m.2)) m =
          (larger (fun m => covers m.1 path) (fun m => m.1.length) best m).map
            fun m => (m.1.length, m.2) := by
        unfold longerMount larger
        rcases best with - | b
        · simp only [Option.map_none, Option.all_none]
          split
          · rfl
          · rfl
        · simp only [Option.map_some, Option.all_some]
          split
          · rfl
          · rfl
      rw [List.foldl_cons, List.foldl_cons, hturn]
      exact ih _
  exact hloop mounts none

/-! ## 4. Where they agree -/

/-- The mount point that the path belongs to is spelt in the path as it was mounted. -/
def SpelledOut (points : List Str) (path : Str) : Prop :=
  ∀ p ∈ points, components p <+: components path →
    (∀ q ∈ points, components q <+: components path →
      (components q).length ≤ (components p).length) → Stands p path

instance (points : List Str) (path : Str) : Decidable (SpelledOut points path) :=
  inferInstanceAs (Decidable (∀ p ∈ points, _))

variable {mounts : List (Str × ι)} {path : Str}

/-- The mount that the path means is the mount that the code finds, if the path spells it out. -/
theorem longestMount_of_spelledOut (hpoints : ∀ m ∈ mounts, MountPoint m.1)
    (h : SpelledOut (mounts.map Prod.fst) path) :
    lastMax (fun m => covers m.1 path) (fun m => m.1.length) mounts = Spec.mountOf mounts path := by
  rcases lastMax_cases (fun m => decide (components m.1 <+: components path))
    (fun m => (components m.1).length) mounts with ⟨hnone, hbad⟩ | ⟨m, hm, hmax⟩
  · -- nothing begins the path, so nothing stands there either
    rw [Spec.mountOf, hnone]
    rcases lastMax_cases (fun m => covers m.1 path) (fun m => m.1.length) mounts with
      ⟨hnone', -⟩ | ⟨m, -, hmax⟩
    · exact hnone'
    · obtain ⟨hmem, hcovers⟩ := hmax.mem
      have hpre := ((covers_iff _ _).mp hcovers).begins
      exact absurd hpre (of_decide_eq_false (hbad m hmem))
  · rw [Spec.mountOf, hm]
    have hstands : Stands m.1 path := by
      refine h m.1 (List.mem_map_of_mem hmax.mem.1) (of_decide_eq_true hmax.mem.2)
        fun q hq hpre => ?_
      obtain ⟨m', hm', rfl⟩ := List.mem_map.mp hq
      exact hmax.bound hm' (decide_eq_true hpre)
    -- the two loops see the same order on what begins the path
    have hle (b : Str × ι) (hb : b ∈ mounts) (hcovers : covers b.1 path = true) :
        components b.1 <+: components path ∧
          (b.1.length ≤ m.1.length ↔ (components b.1).length ≤ (components m.1).length) ∧
          (m.1.length ≤ b.1.length ↔ (components m.1).length ≤ (components b.1).length) := by
      have hpb := ((covers_iff _ _).mp hcovers).begins
      have hpm := hstands.begins
      have hpt := hpoints m hmax.mem.1
      exact ⟨hpb, length_spell_le_iff (hpoints b hb) hpt hpb hpm,
        length_spell_le_iff hpt (hpoints b hb) hpm hpb⟩
    obtain ⟨before, after, rfl, -, hbefore, hafter⟩ := hmax
    refine LastMax.eq ⟨before, after, rfl, (covers_iff _ _).mpr hstands, fun b hb hc => ?_,
      fun b hb hc => ?_⟩
    · obtain ⟨hpre, hiff, -⟩ := hle b (List.mem_append_left _ hb) hc
      exact hiff.mpr (hbefore b hb (decide_eq_true hpre))
    · obtain ⟨hpre, -, hiff⟩ := hle b (List.mem_append_right _ (List.mem_cons_of_mem _ hb)) hc
      have hlt := hafter b hb (decide_eq_true hpre)
      exact Nat.lt_of_not_le fun hge => absurd (hiff.mp hge) (Nat.not_le.mpr hlt)

theorem resolve_of_spelledOut (lookup : ι → Str → FsResult ι)
    (hpoints : ∀ m ∈ mounts, MountPoint m.1) (habs : path.head? = some slash)
    (h : SpelledOut (mounts.map Prod.fst) path) :
    resolve lookup mounts path = Spec.resolvePath lookup mounts path := by
  have hmount := longestMount_of_spelledOut hpoints h
  unfold resolve Spec.resolvePath
  rw [if_neg (by simp [habs]), longestMount_eq, ← hmount]
  rcases lastMax_cases (fun m => covers m.1 path) (fun m => m.1.length) mounts with
    ⟨hnone, -⟩ | ⟨m, hm, hmax⟩
  · rw [hnone]
    rfl
  · rw [hm]
    dsimp only [Option.map_some]
    rw [((covers_iff _ _).mp hmax.mem.2).components, List.drop_left]

end Resolve

/-- A `lookup` that stays where it is. -/
theorem foldlM_stay {ι : Type} (i : ι) (names : List Str) :
    names.foldlM (fun j _ => (.ok j : FsResult ι)) i = .ok i := by
  induction names with
  | nil => rfl
  | cons name names ih => exact ih

/-- If the path is not spelt out, the file systems can be told apart: each is its own position in
    the table, and the code answers another one or none. -/
theorem spelledOut_of_resolve {points : List Str} {path : Str}
    (hpoints : ∀ p ∈ points, MountPoint p) (habs : path.head? = some slash)
    (h : resolve (fun i _ => .ok i) points.zipIdx path =
      Spec.resolvePath (fun i _ => .ok i) points.zipIdx path) : SpelledOut points path := by
  intro p hp hpre hlongest
  obtain ⟨i, hi, hget⟩ := List.getElem_of_mem hp
  have hmem : (p, i) ∈ points.zipIdx := by
    rw [List.mem_zipIdx_iff_getElem?, List.getElem?_eq_getElem hi, hget]
  unfold resolve Spec.resolvePath at h
  rw [if_neg (by simp [habs]), longestMount_eq] at h
  rcases lastMax_cases (fun m => decide (components m.1 <+: components path))
    (fun m => (components m.1).length) points.zipIdx with ⟨-, hbad⟩ | ⟨m, hm, hmax⟩
  · exact absurd hpre (of_decide_eq_false (hbad _ hmem))
  · rw [Spec.mountOf, hm] at h
    dsimp only at h
    rw [foldlM_stay] at h
    -- the mount that the path means has the same text as `p`
    have hpoint (m' : Str × Nat) (hm' : m' ∈ points.zipIdx) : m'.1 ∈ points :=
      List.fst_mem_of_mem_zipIdx hm'
    have hmpre : components m.1 <+: components path := of_decide_eq_true hmax.mem.2
    have hsame : m.1 = p := by
      refine eq_of_components (hpoints _ (hpoint m hmax.mem.1)) (hpoints p hp) hmpre hpre ?_
      exact Nat.le_antisymm (hlongest _ (hpoint m hmax.mem.1) hmpre)
        (hmax.bound hmem (decide_eq_true hpre))
    rcases lastMax_cases (fun m => covers m.1 path) (fun m => m.1.length) points.zipIdx with
      ⟨hnone, -⟩ | ⟨m', hm', hmax'⟩
    · rw [hnone] at h
      cases h
    · rw [hm'] at h
      dsimp only [Option.map_some] at h
      rw [foldlM_stay] at h
      have hidx : m'.2 = m.2 := Except.ok.inj h
      have hfst : m'.1 = m.1 := by
        have h₁ := List.mem_zipIdx_iff_getElem?.mp hmax'.mem.1
        have h₂ := List.mem_zipIdx_iff_getElem?.mp hmax.mem.1
        rw [hidx, h₂] at h₁
        exact (Option.some.inj h₁).symm
      rw [← hsame, ← hfst]
      exact (covers_iff _ _).mp hmax'.mem.2

/-- **Paths are resolved by their components exactly when they spell their mount out.** For every
    list of mount points, in the order in which they were mounted, and every absolute path: whatever
    file systems are mounted there, `resolve` is the walk from the longest mount by components, if
    and only if the mount point with the most components stands at the beginning of the path as it
    was mounted, followed by nothing or by a slash. -/
theorem resolve_eq_spec_iff {points : List Str} {path : Str} (hpoints : ∀ p ∈ points, MountPoint p)
    (habs : path.head? = some slash) :
    (∀ (ι : Type) (lookup : ι → Str → FsResult ι) (mounts : List (Str × ι)),
      mounts.map Prod.fst = points →
        resolve lookup mounts path = Spec.resolvePath lookup mounts path) ↔
      SpelledOut points path := by
  constructor
  · intro h
    exact spelledOut_of_resolve hpoints habs (h Nat _ points.zipIdx (by simp))
  · intro h ι lookup mounts hmounts
    subst hmounts
    exact resolve_of_spelledOut lookup (fun m hm => hpoints m.1 (List.mem_map_of_mem hm)) habs h

/-- `/dev`, and the root before it. -/
def rootAndDev : List Str := [[slash], ascii ['/', 'd', 'e', 'v']]

theorem mountPoint_rootAndDev : ∀ p ∈ rootAndDev, MountPoint p := by
  intro p hp
  rcases List.mem_cons.mp hp with rfl | hp
  · exact ⟨[], fun c hc => (nomatch hc), rfl⟩
  · rw [List.mem_singleton.mp hp]
    refine ⟨[ascii ['d', 'e', 'v']], fun c hc => ?_, rfl⟩
    rw [List.mem_singleton.mp hc]
    exact ⟨by decide, by decide⟩

/-- `/dev//null/` belongs to `/dev`. -/
theorem resolve_eq_spec_dev :
    SpelledOut rootAndDev (ascii ['/', 'd', 'e', 'v', '/', '/', 'n', 'u', 'l', 'l', '/']) ∧
      resolve (fun i _ => .ok i) (rootAndDev.zip [0, 1])
          (ascii ['/', 'd', 'e', 'v', '/', '/', 'n', 'u', 'l', 'l', '/']) =
        Spec.resolvePath (fun i _ => .ok i) (rootAndDev.zip [0, 1])
          (ascii ['/', 'd', 'e', 'v', '/', '/', 'n', 'u', 'l', 'l', '/']) := by
  refine ⟨by decide, ?_⟩
  exact (resolve_eq_spec_iff mountPoint_rootAndDev rfl).mpr (by decide) Nat _ _ rfl

/-- **Two kinds of paths are missed.** With file systems 0 at `/` and 1 at `/dev`: `/etc` is not
    found, though the root covers it; and `//dev/null`, which means `/dev/null`, is looked up in the
    root. -/
theorem resolve_misses :
    resolve (fun i _ => .ok i) (rootAndDev.zip [0, 1]) (ascii ['/', 'e', 't', 'c']) =
        .error .notFound ∧
      Spec.resolvePath (fun i _ => .ok i) (rootAndDev.zip [0, 1]) (ascii ['/', 'e', 't', 'c']) =
        .ok 0 ∧
      resolve (fun i _ => .ok i) (rootAndDev.zip [0, 1])
        (ascii ['/', '/', 'd', 'e', 'v', '/', 'n', 'u', 'l', 'l']) = .ok 0 ∧
      Spec.resolvePath (fun i _ => .ok i) (rootAndDev.zip [0, 1])
        (ascii ['/', '/', 'd', 'e', 'v', '/', 'n', 'u', 'l', 'l']) = .ok 1 := by
  decide

end SimpleLinux.Fs
