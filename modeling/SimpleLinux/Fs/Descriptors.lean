/-
  File:      SimpleLinux/Fs/Descriptors.lean
  Subject:   The descriptor table: the fd layer of fs/mod.rs.

  The table is a list of at most 64 slots. The inodes are elements of any type `ι`; what an inode
  answers to a read or a write is part of the call, so that every behaviour is covered, also that of
  an inode with a state of its own. The abstract table is a partial map from descriptors to files.

  * `install`, `installInode`, `openPath`, `read`, `write`, `close` -- the code;
  * `Spec.step` -- the same calls on the partial map, with "the lowest unused descriptor";
  * `step_refines` -- one call simulates one call; `Invariant.run` -- a whole run, and what its
    history says about each descriptor;
  * `descriptor_table_refines`.
-/
import SimpleLinux.Fs.Vfs
import SimpleLinux.Lib.Runs
import SimpleLinux.Lib.Slots

namespace SimpleLinux.Fs

open Rust Runs

variable {ι : Type}

/-! ## 1. The table -/

def maxFds : Nat := 64

abbrev FdTable (ι : Type) := List (Option (File ι))

/-- The first hole takes the file; without one the table grows, up to its limit. -/
def install (t : FdTable ι) (f : File ι) : Option Nat × FdTable ι :=
  match t.findIdx? Option.isNone with
  | some i => (some i, t.set i (some f))
  | none => if t.length < maxFds then (some t.length, t ++ [some f]) else (none, t)

def installInode (t : FdTable ι) (inode : ι) : FsResult Nat × FdTable ι :=
  match install t ⟨inode, 0⟩ with
  | (some fd, t') => (.ok fd, t')
  | (none, t') => (.error .noSpace, t')

/-- `open`, given what `resolve` answers for its path. -/
def openPath (t : FdTable ι) (resolved : FsResult ι) : FsResult Nat × FdTable ι :=
  match resolved with
  | .ok inode => installInode t inode
  | .error e => (.error e, t)

/-- The common shape of `read` and `write`: `io` is the inode's answer at the descriptor's
    offset. -/
def transfer (t : FdTable ι) (fd : Nat) (io : File ι → FsResult Nat) :
    Res (FsResult Nat × FdTable ι) :=
  match Slots.get t fd with
  | none => .ok (.error .invalidArg, t)
  | some f =>
    match io f with
    | .error e => .ok (.error e, t)
    | .ok n => do
      let offset ← add 64 f.offset n
      return (.ok n, Slots.update t fd fun f => { f with offset })

def read (t : FdTable ι) (fd : Nat) (inodeRead : ι → Nat → FsResult Nat) :
    Res (FsResult Nat × FdTable ι) := transfer t fd fun f => inodeRead f.inode f.offset

def write (t : FdTable ι) (fd : Nat) (inodeWrite : ι → Nat → FsResult Nat) :
    Res (FsResult Nat × FdTable ι) := transfer t fd fun f => inodeWrite f.inode f.offset

def close (t : FdTable ι) (fd : Nat) : FsResult Unit × FdTable ι :=
  match Slots.get t fd with
  | some _ => (.ok (), Slots.clear t fd)
  | none => (.error .invalidArg, t)

inductive Call (ι : Type)
  | openPath (resolved : FsResult ι)
  | installInode (inode : ι)
  | read (fd : Nat) (inodeRead : ι → Nat → FsResult Nat)
  | write (fd : Nat) (inodeWrite : ι → Nat → FsResult Nat)
  | close (fd : Nat)

/-- A call and what it returned (0 for the unit of `close`). -/
abbrev Event (ι : Type) := Call ι × FsResult Nat

/-- One call; impossible if it panics. -/
def step (t : FdTable ι) (c : Call ι) : Option (FdTable ι × List (Event ι)) :=
  match c with
  | .openPath resolved => some ((openPath t resolved).2, [(c, (openPath t resolved).1)])
  | .installInode inode => some ((installInode t inode).2, [(c, (installInode t inode).1)])
  | .read fd io =>
    match read t fd io with
    | .ok (r, t') => some (t', [(c, r)])
    | .error _ => none
  | .write fd io =>
    match write t fd io with
    | .ok (r, t') => some (t', [(c, r)])
    | .error _ => none
  | .close fd => some ((close t fd).2, [(c, (close t fd).1.map fun _ => 0)])

/-! ## 2. The abstract table -/

namespace Spec

/-- A partial map from descriptors to files. -/
abbrev Table (ι : Type) := Nat → Option (File ι)

/-- The lowest unused descriptor. -/
def lowest (m : Table ι) : Option Nat := (List.range maxFds).find? fun fd => (m fd).isNone

def issue (m : Table ι) (inode : ι) : FsResult Nat × Table ι :=
  match lowest m with
  | some fd => (.ok fd, Function.update m fd (some ⟨inode, 0⟩))
  | none => (.error .noSpace, m)

def advance (m : Table ι) (fd : Nat) (io : ι → Nat → FsResult Nat) : FsResult Nat × Table ι :=
  match m fd with
  | none => (.error .invalidArg, m)
  | some f =>
    match io f.inode f.offset with
    | .error e => (.error e, m)
    | .ok n => (.ok n, Function.update m fd (some { f with offset := f.offset + n }))

def remove (m : Table ι) (fd : Nat) : FsResult Nat × Table ι :=
  match m fd with
  | none => (.error .invalidArg, m)
  | some _ => (.ok 0, Function.update m fd none)

def step (m : Table ι) : Call ι → FsResult Nat × Table ι
  | .openPath (.ok inode) => issue m inode
  | .openPath (.error e) => (.error e, m)
  | .installInode inode => issue m inode
  | .read fd io => advance m fd io
  | .write fd io => advance m fd io
  | .close fd => remove m fd

/-- A sequence of calls: what they return and the map after them. -/
def run (m : Table ι) : List (Call ι) → List (FsResult Nat) × Table ι
  | [] => ([], m)
  | c :: cs => ((step m c).1 :: (run (step m c).2 cs).1, (run (step m c).2 cs).2)

theorem run_append (m : Table ι) (cs ds : List (Call ι)) :
    run m (cs ++ ds) =
      ((run m cs).1 ++ (run (run m cs).2 ds).1, (run (run m cs).2 ds).2) := by
  induction cs generalizing m with
  | nil => rfl
  | cons c cs ih => simp only [List.cons_append, run, ih]

theorem lowest_eq_some {m : Table ι} {fd : Nat} :
    lowest m = some fd ↔ fd < maxFds ∧ m fd = none ∧ ∀ k < fd, m k ≠ none := by
  unfold lowest
  rw [List.find?_range_eq_some]
  simp only [Option.isNone_iff_eq_none, List.mem_range, Bool.not_eq_true',
    Option.isNone_eq_false_iff, Option.isSome_iff_ne_none]
  tauto

theorem lowest_eq_none {m : Table ι} : lowest m = none ↔ ∀ fd < maxFds, m fd ≠ none := by
  unfold lowest
  simp

end Spec

/-! ## 3. One call -/

/-- `install` as an insertion at the hole, or a refusal when there is none. -/
theorem install_eq (t : FdTable ι) (f : File ι) :
    install t f = if Slots.hole t < maxFds ∨ Slots.hole t < t.length then
      (some (Slots.hole t), Slots.insert t f) else (none, t) := by
  unfold install
  rcases Nat.lt_or_ge (Slots.hole t) t.length with h | h
  · have hsome : t.findIdx? Option.isNone = some (Slots.hole t) :=
      List.findIdx?_eq_some_iff_findIdx_eq.mpr ⟨h, rfl⟩
    have hroom : Slots.hole t < maxFds ∨ Slots.hole t < t.length := .inr h
    rw [hsome, Slots.insert_eq_set h, if_pos hroom]
  · have he : Slots.hole t = t.length := Nat.le_antisymm (Slots.hole_le t) h
    have hnone : t.findIdx? Option.isNone = none := List.findIdx?_eq_none_iff_findIdx_eq.mpr he
    rw [hnone, Slots.insert_eq_push he, he]
    simp

theorem installInode_eq (t : FdTable ι) (inode : ι) :
    installInode t inode = if Slots.hole t < maxFds ∨ Slots.hole t < t.length then
      (.ok (Slots.hole t), Slots.insert t ⟨inode, 0⟩) else (.error .noSpace, t) := by
  rw [installInode, install_eq]
  by_cases hroom : Slots.hole t < maxFds ∨ Slots.hole t < t.length
  · rw [if_pos hroom, if_pos hroom]
  · rw [if_neg hroom, if_neg hroom]

theorem lowest_get (t : FdTable ι) :
    Spec.lowest (Slots.get t) = if Slots.hole t < maxFds then some (Slots.hole t) else none := by
  split
  · rename_i hlt
    exact Spec.lowest_eq_some.mpr ⟨hlt, Slots.get_hole t, fun k => Slots.get_ne_none_of_lt_hole⟩
  · rename_i hge
    refine Spec.lowest_eq_none.mpr fun fd hfd => Slots.get_ne_none_of_lt_hole ?_
    omega

theorem length_insert_le {t : FdTable ι} (f : File ι) (h : t.length ≤ maxFds)
    (hlt : Slots.hole t < maxFds) : (Slots.insert t f).length ≤ maxFds := by
  rcases Nat.lt_or_ge (Slots.hole t) t.length with hh | hh
  · rw [Slots.insert_eq_set hh, List.length_set]
    exact h
  · have he : Slots.hole t = t.length := Nat.le_antisymm (Slots.hole_le t) hh
    rw [Slots.insert_eq_push he, List.length_append, List.length_singleton]
    omega

/-- A call that issues a descriptor: the lowest unused one, or `NoSpace`. -/
theorem installInode_refines {t : FdTable ι} (h : t.length ≤ maxFds) (inode : ι) :
    ((installInode t inode).1, Slots.get (installInode t inode).2) =
        Spec.issue (Slots.get t) inode ∧
      (installInode t inode).2.length ≤ maxFds := by
  have hlen := Slots.hole_le t
  unfold Spec.issue
  rw [installInode_eq, lowest_get]
  by_cases hlt : Slots.hole t < maxFds
  · rw [if_pos (.inl hlt), if_pos hlt]
    refine ⟨Prod.ext rfl ?_, length_insert_le _ h hlt⟩
    funext fd
    dsimp only
    rw [Slots.get_insert, Function.update_apply]
  · have hfull : ¬ (Slots.hole t < maxFds ∨ Slots.hole t < t.length) := by omega
    rw [if_neg hfull, if_neg hlt]
    exact ⟨rfl, h⟩

theorem installInode_error {t t' : FdTable ι} {c : Call ι} {inode : ι} {e : FsError}
    (h : some ((installInode t inode).2, [(c, (installInode t inode).1)]) =
      some (t', [(c, .error e)])) : t' = t := by
  rw [installInode_eq] at h
  split at h
  · cases h
  · cases h
    rfl

/-- `read` and `write`, where they do not panic. -/
theorem transfer_refines {t t' : FdTable ι} {fd : Nat} {io : ι → Nat → FsResult Nat}
    {r : FsResult Nat} (h : transfer t fd (fun f => io f.inode f.offset) = .ok (r, t')) :
    (r, Slots.get t') = Spec.advance (Slots.get t) fd io ∧ t'.length = t.length ∧
      ∀ e, r = .error e → t' = t := by
  unfold transfer at h
  unfold Spec.advance
  rcases hget : Slots.get t fd with - | f
  · rw [hget] at h
    cases h
    exact ⟨rfl, rfl, fun _ _ => rfl⟩
  · rw [hget] at h
    dsimp only at h ⊢
    rcases hio : io f.inode f.offset with e | n
    · rw [hio] at h
      cases h
      exact ⟨rfl, rfl, fun _ _ => rfl⟩
    · rw [hio] at h
      dsimp only at h
      by_cases hlt : f.offset + n < 2 ^ 64
      · rw [add_of_lt hlt] at h
        cases h
        refine ⟨Prod.ext rfl ?_, Slots.length_update .., fun _ he => by cases he⟩
        funext k
        dsimp only
        rw [Slots.get_update, Function.update_apply]
        by_cases hk : fd = k
        · subst hk
          rw [if_pos rfl, if_pos rfl, hget]
          rfl
        · rw [if_neg hk, if_neg (Ne.symm hk)]
      · rw [add, if_neg hlt] at h
        cases h

theorem close_refines (t : FdTable ι) (fd : Nat) :
    ((close t fd).1.map fun _ => 0, Slots.get (close t fd).2) =
        Spec.remove (Slots.get t) fd ∧ (close t fd).2.length = t.length := by
  unfold close Spec.remove
  rcases hget : Slots.get t fd with - | f
  · exact ⟨rfl, rfl⟩
  · refine ⟨Prod.ext rfl ?_, Slots.length_clear ..⟩
    funext k
    dsimp only
    rw [Slots.get_clear, Function.update_apply]
    by_cases hk : fd = k
    · rw [if_pos hk, if_pos hk.symm]
    · rw [if_neg hk, if_neg (Ne.symm hk)]

/-- **One call simulates one call** on the partial map, and the table stays within its limit. -/
theorem step_refines {t t' : FdTable ι} {c : Call ι} {es : List (Event ι)}
    (hlen : t.length ≤ maxFds) (h : step t c = some (t', es)) :
    ∃ r, es = [(c, r)] ∧ Spec.step (Slots.get t) c = (r, Slots.get t') ∧ t'.length ≤ maxFds := by
  rcases c with resolved | inode | ⟨fd, io⟩ | ⟨fd, io⟩ | fd
  · cases h
    rcases resolved with e | inode
    · exact ⟨_, rfl, rfl, hlen⟩
    · obtain ⟨href, hle⟩ := installInode_refines hlen inode
      exact ⟨_, rfl, href.symm, hle⟩
  · cases h
    obtain ⟨href, hle⟩ := installInode_refines hlen inode
    exact ⟨_, rfl, href.symm, hle⟩
  · unfold step at h
    dsimp only at h
    split at h
    · rename_i r t₁ hr
      cases h
      obtain ⟨href, hle, -⟩ := transfer_refines hr
      exact ⟨r, rfl, href.symm, hle ▸ hlen⟩
    · cases h
  · unfold step at h
    dsimp only at h
    split at h
    · rename_i r t₁ hr
      cases h
      obtain ⟨href, hle, -⟩ := transfer_refines hr
      exact ⟨r, rfl, href.symm, hle ▸ hlen⟩
    · cases h
  · cases h
    obtain ⟨href, hle⟩ := close_refines t fd
    exact ⟨_, rfl, href.symm, hle ▸ hlen⟩

/-- A call that returns an error leaves the table as it is. -/
theorem step_error {t t' : FdTable ι} {c : Call ι} {e : FsError}
    (h : step t c = some (t', [(c, .error e)])) : t' = t := by
  rcases c with resolved | inode | ⟨fd, io⟩ | ⟨fd, io⟩ | fd
  · rcases resolved with e' | inode
    · cases h
      rfl
    · exact installInode_error h
  · exact installInode_error h
  · unfold step at h
    dsimp only at h
    split at h
    · rename_i hr
      cases h
      exact (transfer_refines hr).2.2 e rfl
    · cases h
  · unfold step at h
    dsimp only at h
    split at h
    · rename_i hr
      cases h
      exact (transfer_refines hr).2.2 e rfl
    · cases h
  · unfold step close at h
    dsimp only at h
    split at h
    · cases h
    · cases h
      rfl

/-! ## 4. What a history says about a descriptor -/

/-- The inode that a call would open. -/
def Call.issues : Call ι → Option ι
  | .openPath (.ok inode) => some inode
  | .installInode inode => some inode
  | _ => none

/-- The inode for which the event issued descriptor `fd`. -/
def issued (fd : Nat) : Event ι → Option ι
  | (c, .ok fd') => if fd' = fd then c.issues else none
  | (_, .error _) => none

/-- The event is a successful close of `fd`. -/
def closed (fd : Nat) : Event ι → Bool
  | (.close fd', .ok _) => fd' == fd
  | _ => false

/-- The count that a successful read or write on `fd` returned. -/
def moved (fd : Nat) : Event ι → Nat
  | (.read fd' _, .ok n) => if fd' = fd then n else 0
  | (.write fd' _, .ok n) => if fd' = fd then n else 0
  | _ => 0

/-- The descriptor whose entry a call may change. -/
def target : Event ι → Option Nat
  | (.openPath _, r) => r.toOption
  | (.installInode _, r) => r.toOption
  | (.read fd _, _) => some fd
  | (.write fd _, _) => some fd
  | (.close fd, _) => some fd

namespace Spec

/-- What an event makes of the entry of `fd`. -/
def entryAfter (fd : Nat) (e : Event ι) (before : Option (File ι)) : Option (File ι) :=
  match issued fd e with
  | some i => some ⟨i, 0⟩
  | none =>
    if closed fd e then none
    else before.map fun f => { f with offset := f.offset + moved fd e }

theorem entryAfter_same {fd : Nat} {e : Event ι} (hi : issued fd e = none)
    (hc : closed fd e = false) (hm : moved fd e = 0) (before : Option (File ι)) :
    entryAfter fd e before = before := by
  unfold entryAfter
  rw [hi, hc, hm]
  rcases before with - | f <;> rfl

theorem issue_entry (m : Table ι) {c : Call ι} {inode : ι} (hc : c.issues = some inode) (fd : Nat) :
    (issue m inode).2 fd = entryAfter fd (c, (issue m inode).1) (m fd) ∧
      ((issued fd (c, (issue m inode).1)).isSome → m fd = none) := by
  have hquiet : ∀ r, closed fd (c, r) = false ∧ moved fd (c, r) = 0 := by
    intro r
    rcases c with (e | i) | i | ⟨fd, io⟩ | ⟨fd, io⟩ | fd
    all_goals first | exact ⟨rfl, rfl⟩ | cases hc
  unfold issue
  rcases hlow : lowest m with - | fd₀
  · refine ⟨(entryAfter_same rfl (hquiet _).1 (hquiet _).2 _).symm, fun h => ?_⟩
    cases h
  · dsimp only
    rw [Function.update_apply]
    by_cases hfd : fd = fd₀
    · subst hfd
      have hi : issued fd (c, .ok fd) = some inode := by rw [issued, if_pos rfl, hc]
      rw [if_pos rfl, entryAfter, hi]
      exact ⟨rfl, fun _ => (lowest_eq_some.mp hlow).2.1⟩
    · have hi : issued fd (c, .ok fd₀) = none := by rw [issued, if_neg (Ne.symm hfd)]
      rw [if_neg hfd, entryAfter_same hi (hquiet _).1 (hquiet _).2, hi]
      exact ⟨rfl, fun h => by cases h⟩

theorem advance_entry (m : Table ι) {c : Call ι} {fd₀ : Nat} (io : ι → Nat → FsResult Nat)
    (hi : c.issues = none) (hc : ∀ fd r, closed fd (c, r) = false)
    (hm : ∀ fd n, moved fd (c, .ok n) = if fd₀ = fd then n else 0)
    (hm' : ∀ fd e, moved fd (c, .error e) = 0)
    (fd : Nat) :
    (advance m fd₀ io).2 fd = entryAfter fd (c, (advance m fd₀ io).1) (m fd) ∧
      ((issued fd (c, (advance m fd₀ io).1)).isSome → m fd = none) := by
  have hissued : ∀ r, issued fd (c, r) = none := by
    intro r
    rcases r with e | n
    · rfl
    · rw [issued, hi, ite_self]
  refine ⟨?_, fun h => by rw [hissued] at h; cases h⟩
  unfold advance
  rcases hget : m fd₀ with - | f
  · exact (entryAfter_same (hissued _) (hc _ _) (hm' _ _) _).symm
  · dsimp only
    rcases io f.inode f.offset with e | n
    · exact (entryAfter_same (hissued _) (hc _ _) (hm' _ _) _).symm
    · dsimp only
      rw [Function.update_apply]
      by_cases hfd : fd = fd₀
      · subst hfd
        rw [if_pos rfl, entryAfter, hissued, hc, hm, if_pos rfl, hget]
        rfl
      · rw [if_neg hfd]
        refine (entryAfter_same (hissued _) (hc _ _) ?_ _).symm
        rw [hm, if_neg (Ne.symm hfd)]

theorem remove_entry (m : Table ι) (fd₀ fd : Nat) :
    (remove m fd₀).2 fd = entryAfter fd (.close fd₀, (remove m fd₀).1) (m fd) ∧
      ((issued fd ((.close fd₀, (remove m fd₀).1) : Event ι)).isSome → m fd = none) := by
  unfold remove
  rcases m fd₀ with - | f
  · exact ⟨(entryAfter_same rfl rfl rfl _).symm, fun h => by cases h⟩
  · have hissued : issued fd ((.close fd₀, .ok 0) : Event ι) = none := by
      rw [issued]
      exact ite_self _
    dsimp only
    rw [Function.update_apply]
    refine ⟨?_, fun h => by rw [hissued] at h; cases h⟩
    by_cases hfd : fd = fd₀
    · subst hfd
      have hclosed : closed fd ((.close fd, .ok 0) : Event ι) = true := beq_self_eq_true fd
      rw [if_pos rfl, entryAfter, hissued, hclosed]
      rfl
    · have hclosed : closed fd ((.close fd₀, .ok 0) : Event ι) = false :=
        beq_eq_false_iff_ne.mpr (Ne.symm hfd)
      rw [if_neg hfd]
      exact (entryAfter_same hissued hclosed rfl _).symm

/-- **The effect of one call on one entry**; a descriptor is issued only while it is unused. -/
theorem step_entry (m : Table ι) (c : Call ι) (fd : Nat) :
    (step m c).2 fd = entryAfter fd (c, (step m c).1) (m fd) ∧
      ((issued fd (c, (step m c).1)).isSome → m fd = none) := by
  rcases c with (e | i) | i | ⟨fd₀, io⟩ | ⟨fd₀, io⟩ | fd₀
  · exact ⟨(entryAfter_same rfl rfl rfl _).symm, fun h => by cases h⟩
  · exact issue_entry m rfl fd
  · exact issue_entry m rfl fd
  · exact advance_entry m io rfl (fun _ _ => rfl) (fun _ _ => rfl) (fun _ _ => rfl) fd
  · exact advance_entry m io rfl (fun _ _ => rfl) (fun _ _ => rfl) (fun _ _ => rfl) fd
  · exact remove_entry m fd₀ fd

/-- An event that is not about `fd` leaves its entry alone. -/
theorem step_frame (m : Table ι) (c : Call ι) (fd : Nat)
    (h : target (c, (step m c).1) ≠ some fd) : (step m c).2 fd = m fd := by
  rw [(step_entry m c fd).1]
  generalize (step m c).1 = r at h
  refine entryAfter_same ?_ ?_ ?_ _
  · rcases r with e | fd'
    · rfl
    · rw [issued]
      split
      · rename_i he
        subst he
        rcases c with resolved | inode | ⟨fd, io⟩ | ⟨fd, io⟩ | fd
        all_goals first | rfl | exact absurd rfl h
      · rfl
  · rcases c with resolved | inode | ⟨fd₀, io⟩ | ⟨fd₀, io⟩ | fd₀
    all_goals first | rfl | skip
    rcases r with e | n
    · rfl
    · exact beq_eq_false_iff_ne.mpr fun he => h (congrArg some he)
  · rcases c with resolved | inode | ⟨fd₀, io⟩ | ⟨fd₀, io⟩ | fd₀
    all_goals rcases r with e | n
    all_goals first | rfl | exact if_neg fun he => h (congrArg some he)

end Spec

/-! ## 5. Whole runs -/

/-- The last event of a history is the one picked, or comes after it. -/
theorem snoc_split {α : Type} {es es₁ es₂ : List α} {e₀ e : α} (h : es ++ [e₀] = es₁ ++ e :: es₂) :
    (es₂ = [] ∧ es₁ = es ∧ e = e₀) ∨ ∃ es₃, es₂ = es₃ ++ [e₀] ∧ es = es₁ ++ e :: es₃ := by
  rcases List.eq_nil_or_concat es₂ with rfl | ⟨es₃, e', rfl⟩
  · obtain ⟨rfl, he⟩ := List.append_inj' h rfl
    cases he
    exact .inl ⟨rfl, rfl, rfl⟩
  · rw [List.concat_eq_append, ← List.cons_append, ← List.append_assoc] at h
    obtain ⟨he, he'⟩ := List.append_inj' h rfl
    cases he'
    exact .inr ⟨es₃, List.concat_eq_append, he⟩

/-- What holds after every run: the limit, the simulation, and the meaning of the history. -/
structure Invariant (es : List (Event ι)) (t : FdTable ι) : Prop where
  length : t.length ≤ maxFds
  simulates : Spec.run (fun _ => none) (es.map Prod.fst) = (es.map Prod.snd, Slots.get t)
  /-- issued and not closed since: the inode it was opened with, at the sum of the counts -/
  live : ∀ es₁ e es₂ fd i, es = es₁ ++ e :: es₂ → issued fd e = some i →
    (∀ e' ∈ es₂, closed fd e' = false) → Slots.get t fd = some ⟨i, (es₂.map (moved fd)).sum⟩
  /-- closed and not issued since -/
  dead : ∀ es₁ e es₂ fd, es = es₁ ++ e :: es₂ → closed fd e = true →
    (∀ e' ∈ es₂, issued fd e' = none) → Slots.get t fd = none
  unissued : ∀ fd, (∀ e ∈ es, issued fd e = none) → Slots.get t fd = none

theorem Invariant.start : Invariant [] ([] : FdTable ι) where
  length := Nat.zero_le _
  simulates := rfl
  live := by
    intro es₁ e es₂ fd i h
    exact absurd h (by simp)
  dead := by
    intro es₁ e es₂ fd h
    exact absurd h (by simp)
  unissued := fun _ _ => rfl

/-- A `close` issues nothing. -/
theorem issued_of_closed {fd : Nat} {e : Event ι} (h : closed fd e = true) :
    issued fd e = none := by
  obtain ⟨c, r⟩ := e
  rcases c with resolved | inode | ⟨fd₀, io⟩ | ⟨fd₀, io⟩ | fd₀
  all_goals first | cases h | skip
  rcases r with e | n
  · rfl
  · exact ite_self _

theorem Invariant.step {es es' : List (Event ι)} {t t' : FdTable ι} {c : Call ι}
    (h : Invariant es t) (hs : step t c = some (t', es')) : Invariant (es ++ es') t' := by
  obtain ⟨r, rfl, hspec, hlen⟩ := step_refines h.length hs
  have hentry : ∀ fd, Slots.get t' fd = Spec.entryAfter fd (c, r) (Slots.get t fd) ∧
      ((issued fd (c, r)).isSome → Slots.get t fd = none) := by
    intro fd
    have he := Spec.step_entry (Slots.get t) c fd
    rw [hspec] at he
    exact he
  refine ⟨hlen, ?_, ?_, ?_, ?_⟩
  · rw [List.map_append, Spec.run_append, h.simulates, List.map_append]
    simp only [List.map_cons, List.map_nil, Spec.run, hspec]
  · intro es₁ e es₂ fd i he hi hopen
    rw [(hentry fd).1, Spec.entryAfter]
    rcases snoc_split he with ⟨rfl, rfl, rfl⟩ | ⟨es₃, rfl, rfl⟩
    · rw [hi]
      rfl
    · have hold := h.live es₁ e es₃ fd i rfl hi fun e' he' =>
        hopen e' (List.mem_append_left _ he')
      -- a live descriptor is not issued again
      have hnot : issued fd (c, r) = none := by
        refine Option.not_isSome_iff_eq_none.mp fun hsome => ?_
        rw [(hentry fd).2 hsome] at hold
        cases hold
      rw [hnot, hopen (c, r) (List.mem_append_right _ (List.mem_singleton.mpr rfl)), hold,
        List.map_append, List.sum_append]
      simp
  · intro es₁ e es₂ fd he hclosed hnot
    rw [(hentry fd).1, Spec.entryAfter]
    rcases snoc_split he with ⟨rfl, rfl, rfl⟩ | ⟨es₃, rfl, rfl⟩
    · rw [issued_of_closed hclosed, hclosed]
      rfl
    · have hold := h.dead es₁ e es₃ fd rfl hclosed fun e' he' =>
        hnot e' (List.mem_append_left _ he')
      rw [hnot (c, r) (List.mem_append_right _ (List.mem_singleton.mpr rfl)), hold]
      simp
  · intro fd hnot
    have hold := h.unissued fd fun e he => hnot e (List.mem_append_left _ he)
    rw [(hentry fd).1, Spec.entryAfter,
      hnot (c, r) (List.mem_append_right _ (List.mem_singleton.mpr rfl)), hold]
    simp

theorem Invariant.run {es : List (Event ι)} {t : FdTable ι} (h : Run Fs.step anyStep [] es t) :
    Invariant es t :=
  h.invariant_events .start fun _ _ _ _ _ hI _ hs => hI.step hs

/-- What a call that issues a descriptor answers. -/
theorem step_issue {t : FdTable ι} (hlen : t.length ≤ maxFds) {c : Call ι} {inode : ι}
    (hc : c.issues = some inode) :
    ∃ r t', step t c = some (t', [(c, r)]) ∧
      (∀ fd, r = .ok fd ↔ fd < maxFds ∧ Slots.get t fd = none ∧ ∀ k < fd, Slots.get t k ≠ none) ∧
      (r = .error .noSpace ↔ ∀ fd < maxFds, Slots.get t fd ≠ none) := by
  have hstep : step t c = some ((installInode t inode).2, [(c, (installInode t inode).1)]) := by
    rcases c with (e | i) | i | ⟨fd, io⟩ | ⟨fd, io⟩ | fd
    all_goals cases hc
    all_goals rfl
  have hr : (installInode t inode).1 = (Spec.issue (Slots.get t) inode).1 :=
    congrArg Prod.fst (installInode_refines hlen inode).1
  refine ⟨_, _, hstep, ?_, ?_⟩
  all_goals
    rw [hr, Spec.issue]
    rcases hlow : Spec.lowest (Slots.get t) with - | fd₀
  · intro fd
    rw [← Spec.lowest_eq_some, hlow]
    simp
  · intro fd
    rw [← Spec.lowest_eq_some, hlow]
    simp
  · rw [← Spec.lowest_eq_none, hlow]
    simp
  · rw [← Spec.lowest_eq_none, hlow]
    simp

/-- Every call on an unused descriptor is refused. -/
theorem step_unused {t : FdTable ι} {fd : Nat} (h : Slots.get t fd = none) {c : Call ι}
    (hc : (∃ io, c = .read fd io) ∨ (∃ io, c = .write fd io) ∨ c = .close fd) :
    step t c = some (t, [(c, .error .invalidArg)]) := by
  rcases hc with ⟨io, rfl⟩ | ⟨io, rfl⟩ | rfl
  · simp only [step, read, transfer, h]
  · simp only [step, write, transfer, h]
  · simp only [step, close, h]
    rfl

/-- **The descriptor table refines a partial map.** After every sequence of calls, whatever the
    inodes answer: the table has at most 64 slots, and the calls have returned, and left behind,
    what the partial map says. A call that issues a descriptor gets the lowest unused one, and
    `NoSpace` iff there is none. A call changes at most the entry it is about, and nothing if it
    fails. A descriptor that was issued and not closed since stands for the inode it was opened
    with, at the sum of the counts its reads and writes returned since; one that was closed and not
    issued since is refused. -/
theorem descriptor_table_refines {es : List (Event ι)} {t : FdTable ι}
    (h : Run step anyStep [] es t) :
    t.length ≤ maxFds ∧
    Spec.run (fun _ => none) (es.map Prod.fst) = (es.map Prod.snd, Slots.get t) ∧
    (∀ (c : Call ι) (inode : ι), c.issues = some inode → ∃ r t', step t c = some (t', [(c, r)]) ∧
      (∀ fd, r = .ok fd ↔ fd < maxFds ∧ Slots.get t fd = none ∧ ∀ k < fd, Slots.get t k ≠ none) ∧
      (r = .error .noSpace ↔ ∀ fd < maxFds, Slots.get t fd ≠ none)) ∧
    (∀ (c : Call ι) (r : FsResult Nat) (t' : FdTable ι), step t c = some (t', [(c, r)]) →
      (∀ fd, target (c, r) ≠ some fd → Slots.get t' fd = Slots.get t fd) ∧
      ∀ e, r = .error e → t' = t) ∧
    (∀ es₁ e es₂ fd i, es = es₁ ++ e :: es₂ → issued fd e = some i →
      (∀ e' ∈ es₂, closed fd e' = false) →
      Slots.get t fd = some ⟨i, (es₂.map (moved fd)).sum⟩) ∧
    (∀ es₁ e es₂ fd, es = es₁ ++ e :: es₂ → closed fd e = true →
      (∀ e' ∈ es₂, issued fd e' = none) → ∀ c : Call ι,
      (∃ io, c = .read fd io) ∨ (∃ io, c = .write fd io) ∨ c = .close fd →
      step t c = some (t, [(c, .error .invalidArg)])) := by
  have hinv := Invariant.run h
  refine ⟨hinv.length, hinv.simulates, fun c inode hc => step_issue hinv.length hc, ?_,
    hinv.live, ?_⟩
  · intro c r t' hs
    refine ⟨fun fd hfd => ?_, fun e he => step_error (he ▸ hs)⟩
    obtain ⟨r', he, hspec, -⟩ := step_refines hinv.length hs
    cases he
    have hframe := Spec.step_frame (Slots.get t) c fd
    rw [hspec] at hframe
    exact hframe hfd
  · intro es₁ e es₂ fd he hclosed hnot c hc
    exact step_unused (hinv.dead es₁ e es₂ fd he hclosed hnot) hc

/-- Two descriptors on one inode, with different offsets; the first is closed and reissued. -/
theorem descriptor_table_refines_two :
    ∃ (es : List (Event Nat)) (t : FdTable Nat), Run step anyStep [] es t ∧
      es.map Prod.snd = [.ok 0, .ok 1, .ok 5, .ok 2, .ok 0, .error .io, .ok 0] ∧
      t = [some ⟨8, 0⟩, some ⟨7, 2⟩] ∧ Slots.get t 1 = some ⟨7, 2⟩ := by
  let calls : List (Call Nat) := [.openPath (.ok 7), .installInode 7, .read 0 fun _ _ => .ok 5,
    .write 1 fun _ off => .ok (off + 2), .close 0, .read 1 fun _ _ => .error .io,
    .openPath (.ok 8)]
  have hex : ∃ es, exec step (fun _ _ => true) [] calls = some ([some ⟨8, 0⟩, some ⟨7, 2⟩], es) ∧
      es.map Prod.snd = [.ok 0, .ok 1, .ok 5, .ok 2, .ok 0, .error .io, .ok 0] ∧
      ∃ es₁ e es₂, es = es₁ ++ e :: es₂ ∧ issued 1 e = some 7 ∧
        (∀ e' ∈ es₂, closed 1 e' = false) ∧ (es₂.map (moved 1)).sum = 2 := by
    exact ⟨_, rfl, rfl, [_], _, _, rfl, rfl, by decide, rfl⟩
  obtain ⟨es, hrun, hres, es₁, e, es₂, he, hi, hc, hsum⟩ := hex
  have hr := (run_of_exec calls hrun).any
  have hlive := (descriptor_table_refines hr).2.2.2.2.1 es₁ e es₂ 1 7 he hi hc
  rw [hsum] at hlive
  exact ⟨es, _, hr, hres, rfl, hlive⟩

end SimpleLinux.Fs
