/-
  File:      SimpleLinux/Lib/Paging.lean
  Subject:   Address spaces: pages mapped to frames, and stores through them.

  A space is a page map over physical byte memory. A store goes through the mapping of its page; it
  faults if there is none, or if the mapping is read-only and the CPU honours that for the kernel
  (the WP bit). Every store is logged with the mapping it went through.

  * `Stop`, `Exec` -- how kernel code can fail to return: a panic, an `expect`, a violated
    precondition of an unsafe operation, a fault (`Faults`);
  * `store`, `storeAll` -- one byte, and a list of bytes; `storeAll_ok_iff`, `Stored` -- when that
    succeeds, and everything it does;
  * `contents`, `Apart` -- what a space shows, and pages that share no frame; `contents_storeAll`.
-/
import SimpleLinux.Lib.Dma
import SimpleLinux.Lib.Rust
import Mathlib.Logic.Function.Basic

namespace Paging

open Rust

/-! ## 1. Code that may not return -/

inductive Stop
  /-- a checked operation of Rust -/
  | panic (p : Panic)
  /-- `expect` on a `None` or an `Err` -/
  | expect (msg : String)
  /-- the checked precondition of an unsafe operation: a null pointer, a slice over `isize::MAX` -/
  | precondition
  /-- a page fault or a general protection fault -/
  | fault (addr : Nat)
  deriving DecidableEq

abbrev Exec (α : Type) := Except Stop α

@[simp] theorem exec_ok_bind {α β : Type} (a : α) (f : α → Exec β) : (Except.ok a >>= f) = f a :=
  rfl

def lift {α : Type} : Res α → Exec α
  | .ok a => .ok a
  | .error p => .error (.panic p)

@[simp] theorem lift_ok {α : Type} (a : α) : lift (.ok a) = .ok a := rfl

theorem lift_eq_ok {α : Type} {x : Res α} {a : α} : lift x = .ok a ↔ x = .ok a := by
  rcases x with p | b
  · simp [lift]
  · simp [lift]

/-- It stops with a fault. -/
def Faults {α : Type} (x : Exec α) : Prop := ∃ addr, x = .error (.fault addr)

theorem not_faults_ok {α : Type} (a : α) : ¬ Faults (.ok a : Exec α) :=
  fun h => nomatch h.choose_spec

theorem faults_bind {α β : Type} {x : Exec α} {f : α → Exec β} :
    Faults (x >>= f) ↔ Faults x ∨ ∃ a, x = .ok a ∧ Faults (f a) := by
  rcases x with e | a
  · have herr : (Except.error e >>= f) = .error e := rfl
    simp [Faults, herr]
  · simp [not_faults_ok]

/-- A loop none of whose turns faults. -/
theorem not_faults_foldlM {α σ : Type} {f : σ → α → Exec σ} {as : List α}
    (h : ∀ s, ∀ a ∈ as, ¬ Faults (f s a)) (s : σ) : ¬ Faults (as.foldlM f s) := by
  induction as generalizing s with
  | nil => exact not_faults_ok s
  | cons a as ih =>
    rw [List.foldlM_cons, faults_bind]
    intro hf
    rcases hf with hf | ⟨s₁, -, hf⟩
    · exact h s a List.mem_cons_self hf
    · exact ih (fun s b hb => h s b (List.mem_cons_of_mem a hb)) s₁ hf

/-! ## 2. Spaces -/

def pageSize : Nat := 4096

/-- The flags of a present page. -/
structure Flags where
  writable : Bool
  user : Bool
  noExecute : Bool
  deriving DecidableEq

structure Mapping where
  frame : Nat
  flags : Flags
  deriving DecidableEq

/-- The physical address of offset `off` in the mapped frame. -/
def Mapping.phys (m : Mapping) (off : Nat) : Nat := m.frame * pageSize + off

structure Space where
  /-- by page number -/
  pages : Nat → Option Mapping
  /-- by physical address -/
  mem : Nat → BitVec 8
  /-- the kernel honours read-only mappings -/
  wp : Bool
  /-- the addresses stored to, with the mapping of the moment -/
  log : List (Nat × Mapping)

/-- A page more, mapped as `m`. -/
def Space.map (s : Space) (page : Nat) (m : Mapping) : Space :=
  { s with pages := Function.update s.pages page (some m) }

/-- A page of `m` can be written. -/
def Space.Allows (s : Space) (m : Mapping) : Prop := s.wp = true → m.flags.writable = true

instance (s : Space) (m : Mapping) : Decidable (s.Allows m) :=
  inferInstanceAs (Decidable (_ → _))

def Space.peek (s : Space) (addr : Nat) : Option (BitVec 8) :=
  (s.pages (addr / pageSize)).map fun m => s.mem (m.phys (addr % pageSize))

/-- The page of the address is mapped for user mode. -/
def Space.User (s : Space) (addr : Nat) : Prop :=
  ((s.pages (addr / pageSize)).any fun m => m.flags.user) = true

instance (s : Space) (addr : Nat) : Decidable (s.User addr) :=
  inferInstanceAs (Decidable (_ = true))

/-- A byte stored through the mapping `m`. -/
def Space.put (s : Space) (addr : Nat) (m : Mapping) (b : BitVec 8) : Space :=
  { s with
    mem := Function.update s.mem (m.phys (addr % pageSize)) b
    log := s.log ++ [(addr, m)] }

theorem Space.put_mem (s : Space) (addr : Nat) (m : Mapping) (b : BitVec 8) :
    (s.put addr m b).mem = Function.update s.mem (m.phys (addr % pageSize)) b := rfl

/-- One byte. -/
def store (s : Space) (addr : Nat) (b : BitVec 8) : Exec Space :=
  match s.pages (addr / pageSize) with
  | none => .error (.fault addr)
  | some m => if s.Allows m then .ok (s.put addr m b) else .error (.fault addr)

/-- A list of bytes, one after the other; addresses wrap at 64 bits. -/
def storeAll (s : Space) (addr : Nat) : List (BitVec 8) → Exec Space
  | [] => .ok s
  | b :: bs => do storeAll (← store s (addr % 2 ^ 64) b) (addr + 1) bs

/-- `write_bytes(addr, 0, n)`. -/
def zeroFill (s : Space) (addr n : Nat) : Exec Space := storeAll s addr (List.replicate n 0#8)

/-! ## 3. What a store does -/

theorem store_eq_ok {s s' : Space} {addr : Nat} {b : BitVec 8} :
    store s addr b = .ok s' ↔ ∃ m, s.pages (addr / pageSize) = some m ∧ s.Allows m ∧
      s' = s.put addr m b := by
  unfold store
  rcases s.pages (addr / pageSize) with - | m
  · simp
  · by_cases ha : s.Allows m
    · simp [ha, eq_comm]
    · simp [ha]

/-- Byte `i` of a list stored at `addr` goes to a page that is mapped and can be written. -/
def Space.Reaches (s : Space) (addr i : Nat) : Prop :=
  ∃ m, s.pages ((addr + i) % 2 ^ 64 / pageSize) = some m ∧ s.Allows m

/-- Everything that storing `n` bytes at `addr` does, but for the bytes themselves. -/
structure Stored (s : Space) (addr n : Nat) (s' : Space) : Prop where
  pages : s'.pages = s.pages
  wp : s'.wp = s.wp
  log : ∃ new, s'.log = s.log ++ new ∧
    (∀ i < n, ∃ m, s.pages ((addr + i) % 2 ^ 64 / pageSize) = some m ∧
      ((addr + i) % 2 ^ 64, m) ∈ new) ∧
    ∀ e ∈ new, ∃ i < n, e.1 = (addr + i) % 2 ^ 64 ∧ s.pages (e.1 / pageSize) = some e.2
  mem : ∀ x, (∀ i < n, ∀ m, s.pages ((addr + i) % 2 ^ 64 / pageSize) = some m →
    x ≠ m.phys ((addr + i) % 2 ^ 64 % pageSize)) → s'.mem x = s.mem x

theorem Stored.nil (s : Space) (addr : Nat) : Stored s addr 0 s :=
  ⟨rfl, rfl, ⟨[], by simp⟩, fun _ _ => rfl⟩

theorem Stored.cons {s s₁ s₂ : Space} {addr n : Nat} {b : BitVec 8}
    (h : store s (addr % 2 ^ 64) b = .ok s₁) (hs : Stored s₁ (addr + 1) n s₂) :
    Stored s addr (n + 1) s₂ := by
  obtain ⟨m, hm, -, rfl⟩ := store_eq_ok.mp h
  have hshift : ∀ i, addr + 1 + i = addr + (i + 1) := fun i => by omega
  refine ⟨hs.pages, hs.wp, ?_, ?_⟩
  · obtain ⟨new, hlog, hall, hnew⟩ := hs.log
    refine ⟨(addr % 2 ^ 64, m) :: new, by simp [hlog, Space.put], ?_, ?_⟩
    · intro i hi
      rcases i with - | i
      · exact ⟨m, hm, List.mem_cons_self⟩
      · obtain ⟨m', hm', hmem⟩ := hall i (by omega)
        rw [hshift] at hm' hmem
        exact ⟨m', hm', List.mem_cons_of_mem _ hmem⟩
    · intro e he
      rcases List.mem_cons.mp he with rfl | he
      · exact ⟨0, by omega, rfl, hm⟩
      · obtain ⟨i, hi, hei, hp⟩ := hnew e he
        rw [hshift] at hei
        exact ⟨i + 1, by omega, hei, hp⟩
  · intro x hx
    rw [hs.mem x fun i hi m' hm' => ?_]
    · exact Function.update_of_ne (hx 0 (by omega) m hm) _ _
    · rw [hshift] at hm' ⊢
      exact hx (i + 1) (by omega) m' hm'

theorem storeAll_stored {s s' : Space} {addr : Nat} {bs : List (BitVec 8)}
    (h : storeAll s addr bs = .ok s') : Stored s addr bs.length s' := by
  induction bs generalizing s addr with
  | nil =>
    cases h
    exact .nil _ _
  | cons b bs ih =>
    obtain ⟨s₁, h₁, h₂⟩ := bind_eq_ok.mp h
    exact .cons h₁ (ih h₂)

/-- **When a list of bytes can be stored.** -/
theorem storeAll_ok_iff {s : Space} {addr : Nat} {bs : List (BitVec 8)} :
    (∃ s', storeAll s addr bs = .ok s') ↔ ∀ i < bs.length, s.Reaches addr i := by
  induction bs generalizing s addr with
  | nil => exact ⟨fun _ i hi => absurd hi (by simp), fun _ => ⟨_, rfl⟩⟩
  | cons b bs ih =>
    have hshift : ∀ i, addr + 1 + i = addr + (i + 1) := fun i => by omega
    constructor
    · intro ⟨s', h⟩ i hi
      obtain ⟨s₁, h₁, h₂⟩ := bind_eq_ok.mp h
      obtain ⟨m, hm, ha, rfl⟩ := store_eq_ok.mp h₁
      rcases i with - | i
      · exact ⟨m, hm, ha⟩
      · have hr := ih.mp ⟨s', h₂⟩ i (by simpa using hi)
        unfold Space.Reaches at hr ⊢
        rw [hshift] at hr
        exact hr
    · intro h
      obtain ⟨m, hm, ha⟩ := h 0 (by simp)
      have h₁ : store s (addr % 2 ^ 64) b = .ok _ := store_eq_ok.mpr ⟨m, hm, ha, rfl⟩
      have hrest : ∀ i < bs.length, (s.put (addr % 2 ^ 64) m b).Reaches (addr + 1) i := by
        intro i hi
        have hr := h (i + 1) (by simpa using hi)
        unfold Space.Reaches at hr ⊢
        rw [hshift]
        exact hr
      obtain ⟨s', h'⟩ := ih.mpr hrest
      exact ⟨s', bind_eq_ok.mpr ⟨_, h₁, h'⟩⟩

theorem storeAll_append (s : Space) (addr : Nat) (xs ys : List (BitVec 8)) :
    storeAll s addr (xs ++ ys) = storeAll s addr xs >>=
      fun s' => storeAll s' (addr + xs.length) ys := by
  induction xs generalizing s addr with
  | nil => rfl
  | cons b xs ih =>
    rw [List.cons_append, storeAll, storeAll]
    rcases store s (addr % 2 ^ 64) b with e | s₁
    · rfl
    · rw [exec_ok_bind, exec_ok_bind, ih, List.length_cons, Nat.add_assoc, Nat.add_comm 1]

theorem zeroFill_stored {s s' : Space} {addr n : Nat} (h : zeroFill s addr n = .ok s') :
    Stored s addr n s' := by
  have hst := storeAll_stored h
  rwa [List.length_replicate] at hst

theorem zeroFill_ok_iff {s : Space} {addr n : Nat} :
    (∃ s', zeroFill s addr n = .ok s') ↔ ∀ i < n, s.Reaches addr i := by
  unfold zeroFill
  rw [storeAll_ok_iff, List.length_replicate]

/-- **The log tells everything** that changed between two spaces, and the pages it names are mapped
    as they were. -/
def Logged (s₀ s : Space) : Prop :=
  ∃ new, s.log = s₀.log ++ new ∧ (∀ e ∈ new, s.pages (e.1 / pageSize) = some e.2) ∧
    ∀ x, (∀ e ∈ new, x ≠ e.2.phys (e.1 % pageSize)) → s.mem x = s₀.mem x

theorem Logged.refl (s : Space) : Logged s s :=
  ⟨[], (List.append_nil _).symm, fun _ h => absurd h List.not_mem_nil, fun _ _ => rfl⟩

theorem Logged.grows {s₀ s : Space} (h : Logged s₀ s) : s₀.log <+: s.log := by
  obtain ⟨new, hlog, -⟩ := h
  exact ⟨new, hlog.symm⟩

theorem Logged.stored {s₀ s s' : Space} {addr n : Nat} (h : Logged s₀ s) (hs : Stored s addr n s') :
    Logged s₀ s' := by
  obtain ⟨old, hold, hmapped, hmem⟩ := h
  obtain ⟨new, hlog, hall, hnew⟩ := hs.log
  refine ⟨old ++ new, by rw [hlog, hold, List.append_assoc], fun e he => ?_, fun x hx => ?_⟩
  · rw [hs.pages]
    rcases List.mem_append.mp he with he | he
    · exact hmapped e he
    · obtain ⟨-, -, -, hpage⟩ := hnew e he
      exact hpage
  · rw [hs.mem x fun i hi m hm => ?_, hmem x fun e he => hx e (List.mem_append_left _ he)]
    obtain ⟨m', hm', hin⟩ := hall i hi
    rw [hm] at hm'
    cases hm'
    exact hx ((addr + i) % 2 ^ 64, m) (List.mem_append_right _ hin)

theorem Logged.map {s₀ s : Space} (h : Logged s₀ s) {page : Nat} (hp : s.pages page = none)
    (m : Mapping) : Logged s₀ (s.map page m) := by
  obtain ⟨new, hlog, hmapped, hmem⟩ := h
  refine ⟨new, hlog, fun e he => ?_, hmem⟩
  have hne : e.1 / pageSize ≠ page := by
    rintro rfl
    rw [hmapped e he] at hp
    cases hp
  exact (Function.update_of_ne hne _ _).trans (hmapped e he)

/-! ## 4. Contents -/

/-- What the space shows at an address; nothing where no page is mapped. -/
def Space.contents (s : Space) (addr : Nat) : BitVec 8 := (s.peek addr).getD 0#8

/-- No two pages in `P` share a frame. -/
def Apart (s : Space) (P : Nat → Prop) : Prop :=
  ∀ p q m n, P p → P q → s.pages p = some m → s.pages q = some n → m.frame = n.frame → p = q

theorem contents_mapped {s : Space} {addr : Nat} {m : Mapping}
    (h : s.pages (addr / pageSize) = some m) :
    s.contents addr = s.mem (m.phys (addr % pageSize)) := by
  unfold Space.contents Space.peek
  rw [h]
  rfl

theorem contents_unmapped {s : Space} {addr : Nat} (h : s.pages (addr / pageSize) = none) :
    s.contents addr = 0#8 := by
  unfold Space.contents Space.peek
  rw [h]
  rfl

theorem contents_map_of_ne {s : Space} {page addr : Nat} (h : addr / pageSize ≠ page)
    (m : Mapping) : (s.map page m).contents addr = s.contents addr := by
  unfold Space.contents Space.peek Space.map
  dsimp only
  rw [Function.update_of_ne h]

/-- With fewer pages. -/
theorem Apart.anti {s s' : Space} {P : Nat → Prop} (h : Apart s' P)
    (hs : ∀ p m, s.pages p = some m → s'.pages p = some m) : Apart s P :=
  fun p q m n hp hq hm hn hf => h p q m n hp hq (hs p m hm) (hs q n hn) hf

/-- The pages of both, if the ones share no frame with the others. -/
theorem Apart.or {s : Space} {P Q : Nat → Prop} (hP : Apart s P) (hQ : Apart s Q)
    (hcross : ∀ p q m n, P p → Q q → s.pages p = some m → s.pages q = some n → m.frame ≠ n.frame) :
    Apart s fun p => P p ∨ Q p := by
  intro p q m n hp hq hm hn hf
  rcases hp with hp | hp
  · rcases hq with hq | hq
    · exact hP p q m n hp hq hm hn hf
    · exact absurd hf (hcross p q m n hp hq hm hn)
  · rcases hq with hq | hq
    · exact absurd hf.symm (hcross q p n m hq hp hn hm)
    · exact hQ p q m n hp hq hm hn hf

/-- With one page more, on a frame that the others do not have. -/
theorem Apart.insert {s s' : Space} {P : Nat → Prop} {page : Nat} {m : Mapping} (h : Apart s P)
    (hself : s'.pages page = some m) (hother : ∀ p, P p → s'.pages p = s.pages p)
    (hnew : ∀ p, P p → ∀ n, s.pages p = some n → n.frame ≠ m.frame) :
    Apart s' fun p => p = page ∨ P p := by
  have hpage : Apart s' (· = page) := fun p q _ _ hp hq _ _ _ => hp.trans hq.symm
  have hrest : Apart s' P := by
    intro p q n k hp hq hn hk hf
    rw [hother p hp] at hn
    rw [hother q hq] at hk
    exact h p q n k hp hq hn hk hf
  refine hpage.or hrest fun p q n k hp hq hn hk hf => ?_
  rw [hp, hself] at hn
  cases hn
  rw [hother q hq] at hk
  exact hnew q hq k hk hf.symm

/-- Offsets into frames are addresses of their own. -/
theorem phys_inj {m n : Mapping} {i j : Nat} (hi : i < pageSize) (hj : j < pageSize)
    (h : m.phys i = n.phys j) : m.frame = n.frame ∧ i = j := by
  unfold Mapping.phys pageSize at *
  omega

theorem page_eq_of_phys {s : Space} {P : Nat → Prop} (hap : Apart s P) {a b : Nat} {m n : Mapping}
    (ha : P (a / pageSize)) (hb : P (b / pageSize)) (hm : s.pages (a / pageSize) = some m)
    (hn : s.pages (b / pageSize) = some n)
    (h : m.phys (a % pageSize) = n.phys (b % pageSize)) : a = b := by
  have hpos : 0 < pageSize := by decide
  obtain ⟨hf, hoff⟩ := phys_inj (Nat.mod_lt _ hpos) (Nat.mod_lt _ hpos) h
  rw [← Nat.div_add_mod a pageSize, hap _ _ m n ha hb hm hn hf, hoff, Nat.div_add_mod]

theorem contents_store {s s' : Space} {P : Nat → Prop} {addr : Nat} {b : BitVec 8}
    (hap : Apart s P) (hP : P (addr / pageSize)) (hs : store s addr b = .ok s') {a : Nat}
    (ha : P (a / pageSize)) : s'.contents a = Function.update s.contents addr b a := by
  obtain ⟨m, hm, -, rfl⟩ := store_eq_ok.mp hs
  rcases hn : s.pages (a / pageSize) with - | n
  · have hne : a ≠ addr := by
      rintro rfl
      rw [hm] at hn
      cases hn
    have hn' : (s.put addr m b).pages (a / pageSize) = none := hn
    rw [Function.update_of_ne hne, contents_unmapped hn, contents_unmapped hn']
  · have hn' : (s.put addr m b).pages (a / pageSize) = some n := hn
    rw [contents_mapped hn', Space.put_mem]
    by_cases he : a = addr
    · subst he
      rw [hm] at hn
      cases hn
      rw [Function.update_self, Function.update_self]
    · rw [Function.update_of_ne fun hx => he (page_eq_of_phys hap ha hP hn hm hx),
        Function.update_of_ne he, contents_mapped hn]

/-- **A list of bytes stored to pages in `P` shows as those bytes**, and the rest of `P` is as it
    was. -/
theorem contents_storeAll {s s' : Space} {P : Nat → Prop} {addr : Nat} {bs : List (BitVec 8)}
    (hap : Apart s P) (hlen : addr + bs.length ≤ 2 ^ 64)
    (hP : ∀ i < bs.length, P ((addr + i) / pageSize)) (hs : storeAll s addr bs = .ok s') {a : Nat}
    (ha : P (a / pageSize)) : s'.contents a = Store.copy s.contents addr bs a := by
  induction bs generalizing s addr with
  | nil =>
    cases hs
    rw [Store.copy_nil]
  | cons b bs ih =>
    rw [List.length_cons] at hlen
    obtain ⟨s₁, h₁, h₂⟩ := bind_eq_ok.mp hs
    rw [Nat.mod_eq_of_lt (by omega)] at h₁
    have hap₁ : Apart s₁ P := by
      obtain ⟨m, -, -, rfl⟩ := store_eq_ok.mp h₁
      exact hap
    rw [ih hap₁ (by omega) (fun i hi => ?_) h₂, Store.copy_cons]
    · exact Store.copy_congr (contents_store hap (hP 0 (by simp)) h₁ ha)
    · have hp := hP (i + 1) (by simpa using hi)
      rwa [← Nat.add_assoc, Nat.add_right_comm] at hp

end Paging
