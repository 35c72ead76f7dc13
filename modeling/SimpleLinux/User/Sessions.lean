/-
  File:      SimpleLinux/User/Sessions.lean
  Subject:   What programs leave open: the descriptor table over many runs of vfs.elf.

  The table of descriptors belongs to the kernel, not to a program, and `exit` closes nothing. So
  every run of a program that opens a file and does not close it takes one descriptor for good. When
  none is left, `open` fails; the program does not look at the result, hands the error number to
  `write` as a descriptor, and exits with code 0 without having written anything.

  * `vacancies` -- the descriptors that are left;
  * `vfs_meaning_open`, `vfs_meaning_full` -- one run, with and without a descriptor left;
  * `vfs_runs_exhaust` -- any number of runs: the message appears once for each descriptor that was
    left.
-/
import SimpleLinux.User.Generated

namespace SimpleLinux.User

open Rust Paging Fs Syscall
open X86 (Reg Word)
open Net (Bytes)

/-- The descriptors that `open` can still give away. -/
def vacancies (t : FdTable Inode) : Finset Nat :=
  (Finset.range maxFds).filter fun fd => Slots.get t fd = none

theorem mem_vacancies {t : FdTable Inode} {fd : Nat} :
    fd ∈ vacancies t ↔ fd < maxFds ∧ Slots.get t fd = none := by
  rw [vacancies, Finset.mem_filter, Finset.mem_range]

theorem vacancies_congr {t t' : FdTable Inode}
    (h : ∀ fd, Slots.get t' fd = none ↔ Slots.get t fd = none) : vacancies t' = vacancies t := by
  ext fd
  rw [mem_vacancies, mem_vacancies, h]

/-- The console has taken `bytes` more. -/
def printed (sys : System) (bytes : Bytes) : Devices :=
  { sys.devices with serial := sys.devices.serial ++ bytes }

section

variable {sys : System} {path msg : Bytes} {p : Str}

/-- A write to a console. -/
theorem write_console (sys : System) {fd offset : Nat}
    (hfd : Slots.get sys.fds fd = some ⟨.console, offset⟩)
    {bytes : Bytes} (hoff : offset + bytes.length < 2 ^ 64) :
    (sys.write fd (held bytes)).result = .ok (.ok bytes.length,
      { sys with
        fds := Slots.update sys.fds fd fun g => { g with offset := offset + bytes.length }
        devices := printed sys bytes }) := by
  have hadv : System.advance { sys with devices := printed sys bytes } fd bytes.length
      ⟨.console, offset⟩ = .ok _ := System.advance_eq_ok.mpr ⟨hoff, rfl⟩
  rw [System.write, hfd]
  show ((Traced.lift (System.advance { sys with devices := printed sys bytes } fd bytes.length
    ⟨.console, offset⟩) >>= _).result) = _
  rw [hadv]
  rfl

theorem length_written (msg : Bytes) : (written msg).length ≤ 4096 := by
  rw [written, List.length_take]
  omega

/-- A taken descriptor is one less. -/
theorem vacancies_insert (t : FdTable Inode) (f : File Inode) (g : File Inode → File Inode) :
    vacancies (Slots.update (Slots.insert t f) (Slots.hole t) g) =
      (vacancies t).erase (Slots.hole t) := by
  ext fd
  rw [Finset.mem_erase, mem_vacancies, mem_vacancies, Slots.get_update, Slots.get_insert]
  by_cases hfd : fd = Slots.hole t
  · simp [hfd]
  · rw [if_neg (Ne.symm hfd), if_neg hfd]
    exact ⟨fun h => ⟨hfd, h⟩, fun h => h.2⟩

theorem length_insert_le {t : FdTable Inode} (f : File Inode) (hroom : Slots.hole t < maxFds)
    (hlen : t.length ≤ maxFds) : (Slots.insert t f).length ≤ maxFds := by
  rcases Nat.lt_or_ge (Slots.hole t) t.length with hlt | hge
  · rw [Slots.insert_eq_set hlt, List.length_set]
    exact hlen
  · rw [Slots.insert_eq_push (Nat.le_antisymm (Slots.hole_le t) hge), List.length_append]
    have := Slots.hole_le t
    simp only [List.length_singleton]
    omega

variable (hpath : pathOf path = some p)
  (hres : resolve Inode.lookup sys.mounts p = .ok .console)

include hpath hres

/-- **A run with a descriptor left**: the first one is taken, and stays taken. -/
theorem vfs_meaning_open (hroom : Slots.hole sys.fds < maxFds) (msg : Bytes) :
    ∃ fds, (Job.vfs path msg).meaning sys =
        .ok { sys with fds, devices := printed sys (written msg) } ∧
      vacancies fds = (vacancies sys.fds).erase (Slots.hole sys.fds) ∧
      (sys.fds.length ≤ maxFds → fds.length ≤ maxFds) := by
  have hopen : openCall sys (pathOf path) = (.ok (Slots.hole sys.fds),
      { sys with fds := Slots.insert sys.fds ⟨.console, 0⟩ }) := by
    rw [hpath, openCall, System.openPath_eq, hres]
    dsimp only
    rw [System.installInode_eq, if_pos (.inl hroom)]
  have hfd : (answer (.ok (Slots.hole sys.fds))).toNat = Slots.hole sys.fds := by
    have hmax : maxFds = 64 := rfl
    rw [answer, BitVec.toNat_ofNat]
    omega
  have hget : Slots.get (Slots.insert sys.fds (⟨.console, 0⟩ : File Inode)) (Slots.hole sys.fds) =
      some ⟨.console, 0⟩ := by
    rw [Slots.get_insert, if_pos rfl]
  have hlen := length_written msg
  rw [Job.meaning, hopen]
  dsimp only
  rw [hfd, write_console { sys with fds := Slots.insert sys.fds ⟨.console, 0⟩ } hget (by omega)]
  refine ⟨_, rfl, vacancies_insert .., fun h => ?_⟩
  rw [Slots.length_update]
  exact length_insert_le _ hroom h

/-- **A run without**: nothing is written, and nothing else happens. -/
theorem vfs_meaning_full (hlen : sys.fds.length ≤ maxFds) (hfull : ¬ Slots.hole sys.fds < maxFds)
    (msg : Bytes) : (Job.vfs path msg).meaning sys = .ok sys := by
  have hopen : openCall sys (pathOf path) = (.error .noSpace, sys) := by
    rw [hpath, openCall, System.openPath_eq, hres]
    dsimp only
    rw [System.installInode_eq, if_neg (by omega)]
  have hget : Slots.get sys.fds (answer (.error .noSpace)).toNat = none := by
    apply Slots.get_none_of_le
    have hbig : maxFds ≤ (answer (.error .noSpace)).toNat := by decide
    omega
  rw [Job.meaning, hopen]
  dsimp only
  rw [System.write, hget]
  rfl

omit hpath hres in
theorem hole_lt_iff : Slots.hole sys.fds < maxFds ↔ Slots.hole sys.fds ∈ vacancies sys.fds := by
  rw [mem_vacancies]
  exact ⟨fun h => ⟨h, Slots.get_hole _⟩, fun h => h.1⟩

omit hpath hres in
theorem vacancies_full (hfull : ¬ Slots.hole sys.fds < maxFds) : vacancies sys.fds = ∅ := by
  refine Finset.eq_empty_of_forall_notMem fun fd hfd => ?_
  obtain ⟨hlt, hnone⟩ := mem_vacancies.mp hfd
  exact Slots.get_ne_none_of_lt_hole (by omega) hnone

/-- **Any number of runs**: the message once for each descriptor that is left. -/
theorem vfs_meaning_runs (hlen : sys.fds.length ≤ maxFds) (msg : Bytes) (n : Nat) :
    ∃ fds, meaningAll sys (List.replicate n (.vfs path msg)) = .ok { sys with
        fds
        devices := printed sys (List.replicate (min n (vacancies sys.fds).card)
          (written msg)).flatten } ∧
      (vacancies fds).card = (vacancies sys.fds).card - n := by
  induction n generalizing sys with
  | zero =>
    refine ⟨sys.fds, ?_, rfl⟩
    rw [Nat.zero_min]
    show _ = Except.ok { sys with devices := printed sys [] }
    rw [printed, List.append_nil]
    rfl
  | succ n ih =>
    rw [meaningAll, List.replicate_succ, List.foldlM_cons]
    by_cases hroom : Slots.hole sys.fds < maxFds
    · obtain ⟨fds₁, hone, hvac, hlen₁⟩ := vfs_meaning_open hpath hres hroom msg
      have hcard := Finset.card_erase_add_one (hole_lt_iff.mp hroom)
      rw [← hvac] at hcard
      obtain ⟨fds, hrest, hleft⟩ :=
        @ih { sys with fds := fds₁, devices := printed sys (written msg) } hres (hlen₁ hlen)
      dsimp only at hleft
      refine ⟨fds, ?_, by omega⟩
      rw [hone, exec_ok_bind]
      refine hrest.trans ?_
      rw [← hcard, Nat.succ_min_succ, List.replicate_succ, List.flatten_cons]
      simp only [printed, List.append_assoc]
    · obtain ⟨fds, hrest, hleft⟩ := ih hres hlen
      have hzero : (vacancies sys.fds).card = 0 := by
        rw [vacancies_full hroom, Finset.card_empty]
      refine ⟨fds, ?_, by omega⟩
      rw [vfs_meaning_full hpath hres hlen hroom, exec_ok_bind]
      refine hrest.trans ?_
      rw [hzero, Nat.min_zero, Nat.min_zero]

/-- **Programs that do not close run out of descriptors.** For every path that leads to the console,
    every message and every number of runs of the program with them, from an address space without
    its pages and with frames for it: every run exits with code 0, but the message appears only as
    often as there were descriptors left at the start, and each of these runs has taken one for
    good. -/
theorem vfs_runs_exhaust {v₀ : Vmm.State} (hvac : Vacant v₀) (hfits : (Job.vfs path msg).Fits)
    (hneed : Elf.need v₀ (pagesOf (Vfs.payload path msg)).toFinset ≤ v₀.free.card)
    (hlen : sys.fds.length ≤ maxFds) (runs : List (Reg → Word)) {fuel : Nat} (hfuel : 12 ≤ fuel) :
    ∃ w, runAll fuel ⟨v₀, sys⟩ (runs.map fun regs => (Vfs.elf path msg, regs)) =
        .ok (runs.map fun _ => some 0#64, w) ∧
      w.sys.devices.serial = sys.devices.serial ++
        (List.replicate (min runs.length (vacancies sys.fds).card) (written msg)).flatten ∧
      (vacancies w.sys.fds).card = (vacancies sys.fds).card - runs.length := by
  have hpages : ((runs.map fun regs => (Job.vfs path msg, regs)).flatMap fun j =>
      pagesOf j.1.payload).toFinset ⊆ (pagesOf (Vfs.payload path msg)).toFinset := by
    intro p hp
    simp only [List.mem_toFinset, List.mem_flatMap, List.mem_map] at hp
    obtain ⟨_, ⟨_, _, rfl⟩, hmem⟩ := hp
    exact List.mem_toFinset.mpr hmem
  have hfitsAll : ∀ j ∈ runs.map fun regs => (Job.vfs path msg, regs), j.1.Fits := by
    intro j hj
    obtain ⟨regs, -, rfl⟩ := List.mem_map.mp hj
    exact hfits
  have hruns := runAll_refines (w := ⟨v₀, sys⟩) hvac hfuel
    (runs.map fun regs => (.vfs path msg, regs)) hfitsAll (.refl v₀)
    (by rw [Finset.empty_union]; exact Nat.le_trans (Elf.need_mono hpages) hneed)
  obtain ⟨fds, hmeaning, hleft⟩ := vfs_meaning_runs hpath hres hlen msg runs.length
  simp only [List.map_map, Function.comp_def, List.map_const'] at hruns
  rw [hmeaning] at hruns
  change Except.map _ (runAll fuel ⟨v₀, sys⟩ (runs.map fun regs => (Vfs.elf path msg, regs))) = _
    at hruns
  rcases hall : runAll fuel ⟨v₀, sys⟩ (runs.map fun regs => (Vfs.elf path msg, regs)) with
    e | ⟨codes, w⟩
  · rw [hall] at hruns
    cases hruns
  · rw [hall] at hruns
    obtain ⟨rfl, hsys⟩ := Prod.mk.inj (Except.ok.inj hruns)
    refine ⟨w, by rw [List.map_const'], ?_, ?_⟩
    · rw [hsys]
      rfl
    · rw [hsys]
      exact hleft

end

/-- `PATH` of the script, without its NUL. -/
def consolePath : Str := ascii ['/', 'd', 'e', 'v', '/', 'c', 'o', 'n', 's', 'o', 'l', 'e']

/-- Sixty-four runs after boot: sixty-one messages, and no descriptor left. -/
theorem vfs_runs_exhaust_boot :
    ∃ w, runAll 12 ⟨Elf.blank, bootSystem⟩ ((List.replicate 64 fun _ : Reg => 0#64).map fun regs =>
        (Vfs.elf consolePath (ascii ['H', 'i']), regs)) =
        .ok ((List.replicate 64 fun _ : Reg => 0#64).map fun _ => some 0#64, w) ∧
      w.sys.devices.serial = (List.replicate 61 (ascii ['H', 'i'])).flatten ∧
      (vacancies w.sys.fds).card = 0 := by
  have hvacant : (vacancies bootSystem.fds).card = 61 := by decide
  have hneed : Elf.need Elf.blank (pagesOf (Vfs.payload consolePath (ascii ['H', 'i']))).toFinset =
      8 := by decide
  have hfits : (Job.vfs consolePath (ascii ['H', 'i'])).Fits := by
    refine ⟨by decide, fun path msg he => ?_⟩
    cases he
    decide
  obtain ⟨w, hruns, hserial, hleft⟩ := vfs_runs_exhaust
    (show pathOf consolePath = some consolePath by decide)
    (show resolve Inode.lookup bootSystem.mounts consolePath = .ok .console from rfl)
    (show Vacant Elf.blank from fun _ _ _ => rfl) hfits
    (by rw [hneed]; exact Elf.blank_room (by decide)) (by decide)
    (List.replicate 64 fun _ => 0#64) (Nat.le_refl 12)
  rw [hvacant] at hserial hleft
  exact ⟨w, hruns, hserial, hleft⟩

end SimpleLinux.User
