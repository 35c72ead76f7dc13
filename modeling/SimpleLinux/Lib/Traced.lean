/-
  File:      SimpleLinux/Lib/Traced.lean
  Subject:   Code that dereferences pointers: which addresses, in which order.

  A traced computation may stop like any other, and keeps the list of the addresses it has
  dereferenced, the one that faulted included. So one can say of code that did not return, too,
  where its pointers have led.

  * `Traced`, `lift`, `stop` -- the monad; `trace_bind_ok`, `result_bind`;
  * `load`, `fetch`, `deposit` -- one byte read, bytes read, bytes stored, through a space; `Source`
    -- a slice that is read by need;
  * `Touches` -- which addresses a computation dereferences, all of them if it returns;
    `Touches.seq` -- one after the other; `touches_fetch`, `touches_deposit`.
-/
import SimpleLinux.Lib.Paging

namespace Paging

open Rust

/-! ## 1. The monad -/

structure Traced (α : Type) where
  trace : List Nat
  result : Exec α

namespace Traced

variable {α β : Type}

def bind (x : Traced α) (f : α → Traced β) : Traced β :=
  match x.result with
  | .ok a => ⟨x.trace ++ (f a).trace, (f a).result⟩
  | .error e => ⟨x.trace, .error e⟩

instance : Monad Traced where
  pure a := ⟨[], .ok a⟩
  bind := bind

/-- Code that dereferences nothing. -/
def lift (x : Res α) : Traced α := ⟨[], Paging.lift x⟩

def stop (e : Stop) : Traced α := ⟨[], .error e⟩

@[simp] theorem result_pure (a : α) : (pure a : Traced α).result = .ok a := rfl

theorem result_bind (x : Traced α) (f : α → Traced β) :
    (x >>= f).result = x.result >>= fun a => (f a).result := by
  obtain ⟨t, e | a⟩ := x
  · rfl
  · rfl

theorem trace_bind_ok {x : Traced α} {a : α} (h : x.result = .ok a) (f : α → Traced β) :
    (x >>= f).trace = x.trace ++ (f a).trace := by
  obtain ⟨t, r⟩ := x
  cases h
  rfl

theorem trace_bind_error {x : Traced α} {e : Stop} (h : x.result = .error e) (f : α → Traced β) :
    (x >>= f).trace = x.trace := by
  obtain ⟨t, r⟩ := x
  cases h
  rfl

/-- Code after which nothing is dereferenced. -/
theorem trace_bind_quiet (x : Traced α) (f : α → Traced β) (h : ∀ a, (f a).trace = []) :
    (x >>= f).trace = x.trace := by
  rcases hx : x.result with e | a
  · exact trace_bind_error hx f
  · rw [trace_bind_ok hx, h, List.append_nil]

/-- **What a computation touches**: no address but those of `W`, and all of them if it returns. -/
def Touches (x : Traced α) (W : Nat → Prop) : Prop :=
  (∀ a ∈ x.trace, W a) ∧ ((∃ r, x.result = .ok r) → ∀ a, W a → a ∈ x.trace)

theorem touches_stop (e : Stop) (W : Nat → Prop) : (stop e : Traced α).Touches W := by
  constructor
  · rintro b ⟨⟩
  · rintro ⟨r, ⟨⟩⟩

theorem Touches.congr {x : Traced α} {W V : Nat → Prop} (hx : x.Touches W) (h : ∀ a, W a ↔ V a) :
    x.Touches V :=
  ⟨fun a ha => (h a).mp (hx.1 a ha), fun hr a ha => hx.2 hr a ((h a).mpr ha)⟩

/-- **One after the other**: what `x` touches, then what comes after a result of it. -/
theorem Touches.seq {x : Traced α} {f : α → Traced β} {V W : Nat → Prop} (hx : x.Touches V)
    (hf : ∀ r, x.result = .ok r → (f r).Touches W) : (x >>= f).Touches fun a => V a ∨ W a := by
  rcases hr : x.result with e | r
  · refine ⟨fun a ha => ?_, fun hok => ?_⟩
    · rw [trace_bind_error hr] at ha
      exact .inl (hx.1 a ha)
    · obtain ⟨b, hb⟩ := hok
      rw [result_bind, hr] at hb
      cases hb
  · obtain ⟨hsound, hall⟩ := hf r hr
    refine ⟨fun a ha => ?_, fun hok a ha => ?_⟩
    · rw [trace_bind_ok hr] at ha
      exact (List.mem_append.mp ha).imp (hx.1 a) (hsound a)
    · obtain ⟨b, hb⟩ := hok
      rw [result_bind, hr] at hb
      rw [trace_bind_ok hr, List.mem_append]
      exact ha.imp (hx.2 ⟨r, hr⟩ a) (hall ⟨b, hb⟩ a)

theorem touches_nothing {x : Traced α} (h : x.trace = []) : x.Touches fun _ => False := by
  refine ⟨fun a ha => ?_, fun _ a ha => ha.elim⟩
  rw [h] at ha
  cases ha

theorem touches_pure (a : α) : (pure a : Traced α).Touches fun _ => False := touches_nothing rfl

/-- Nothing is dereferenced after `x`. -/
theorem Touches.bind {x : Traced α} {W : Nat → Prop} (hx : x.Touches W) (f : α → Traced β)
    (hf : ∀ a, (f a).trace = []) : (x >>= f).Touches W :=
  (hx.seq fun r _ => touches_nothing (hf r)).congr fun _ => by rw [or_false]

end Traced

/-! ## 2. Memory -/

/-- One byte read. -/
def load (s : Space) (addr : Nat) : Traced (BitVec 8) :=
  ⟨[addr], match s.peek addr with
    | some b => .ok b
    | none => .error (.fault addr)⟩

/-- `n` bytes read, one after the other; addresses wrap at 64 bits. -/
def fetch (s : Space) (addr : Nat) : Nat → Traced (List (BitVec 8))
  | 0 => pure []
  | n + 1 => do
    let b ← load s (addr % 2 ^ 64)
    let bs ← fetch s (addr + 1) n
    return b :: bs

/-- Bytes stored, one after the other. -/
def deposit (s : Space) (addr : Nat) : List (BitVec 8) → Traced Space
  | [] => pure s
  | b :: bs => do
    let s ← (⟨[addr % 2 ^ 64], store s (addr % 2 ^ 64) b⟩ : Traced Space)
    deposit s (addr + 1) bs

/-- A slice behind a pointer: its length is known, its bytes are read when they are asked for. -/
structure Source where
  len : Nat
  bytes : Traced (List (BitVec 8))

theorem load_eq_ok {s : Space} {addr : Nat} {b : BitVec 8} :
    (load s addr).result = .ok b ↔ s.peek addr = some b := by
  rw [load]
  rcases s.peek addr with - | c
  · simp
  · simp

theorem result_fetch_length {s : Space} {addr n : Nat} {bs : List (BitVec 8)}
    (h : (fetch s addr n).result = .ok bs) : bs.length = n := by
  induction n generalizing addr bs with
  | zero =>
    cases h
    rfl
  | succ n ih =>
    rw [fetch, Traced.result_bind] at h
    obtain ⟨b, -, h⟩ := bind_eq_ok.mp h
    rw [Traced.result_bind] at h
    obtain ⟨bs', hbs, h⟩ := bind_eq_ok.mp h
    cases h
    rw [List.length_cons, ih hbs]

/-- A walk over the addresses from `addr` on that stops at the first where `P` fails: its first
    step, then the others. -/
theorem walk_succ (P : Nat → Prop) (addr n a : Nat) :
    (∃ i < n + 1, a = (addr + i) % 2 ^ 64 ∧ ∀ j < i, P (addr + j)) ↔
      a = addr % 2 ^ 64 ∨
        P addr ∧ ∃ i < n, a = (addr + 1 + i) % 2 ^ 64 ∧ ∀ j < i, P (addr + 1 + j) := by
  have hshift : ∀ j, addr + 1 + j = addr + (j + 1) := fun j => by omega
  constructor
  · intro ⟨i, hi, ha, hP⟩
    rcases i with - | i
    · exact .inl ha
    · refine .inr ⟨hP 0 (by omega), i, by omega, ?_, fun j hj => ?_⟩
      · rw [hshift]
        exact ha
      · rw [hshift]
        exact hP (j + 1) (by omega)
  · rintro (ha | ⟨h0, i, hi, ha, hP⟩)
    · exact ⟨0, by omega, ha, fun j hj => absurd hj (Nat.not_lt_zero j)⟩
    · refine ⟨i + 1, by omega, ?_, fun j hj => ?_⟩
      · rw [← hshift]
        exact ha
      · rcases j with - | j
        · exact h0
        · rw [← hshift]
          exact hP j (by omega)

/-- A fetch succeeds iff every byte is mapped. -/
theorem fetch_ok_iff {s : Space} {addr n : Nat} :
    (∃ bs, (fetch s addr n).result = .ok bs) ↔
      ∀ i < n, (s.peek ((addr + i) % 2 ^ 64)).isSome := by
  induction n generalizing addr with
  | zero => exact ⟨fun _ i hi => absurd hi (Nat.not_lt_zero i), fun _ => ⟨[], rfl⟩⟩
  | succ n ih =>
    have hshift : ∀ i, addr + 1 + i = addr + (i + 1) := fun i => by omega
    rw [fetch, Traced.result_bind]
    constructor
    · intro ⟨bs, h⟩
      obtain ⟨b, hb, h⟩ := bind_eq_ok.mp h
      rw [Traced.result_bind] at h
      obtain ⟨bs', hbs, -⟩ := bind_eq_ok.mp h
      intro i hi
      rcases i with - | i
      · rw [Nat.add_zero, load_eq_ok.mp hb]
        rfl
      · rw [← hshift]
        exact ih.mp ⟨bs', hbs⟩ i (by omega)
    · intro h
      obtain ⟨b, hb⟩ := Option.isSome_iff_exists.mp (h 0 (by omega))
      have hrest : ∀ i < n, (s.peek ((addr + 1 + i) % 2 ^ 64)).isSome := fun i hi => by
        rw [hshift]
        exact h (i + 1) (by omega)
      obtain ⟨bs, hbs⟩ := ih.mpr hrest
      rw [Nat.add_zero] at hb
      refine ⟨b :: bs, ?_⟩
      rw [load_eq_ok.mpr hb, exec_ok_bind, Traced.result_bind, hbs]
      rfl

theorem span_succ (addr n a : Nat) :
    (a = addr % 2 ^ 64 ∨ ∃ i < n, a = (addr + 1 + i) % 2 ^ 64) ↔
      ∃ i < n + 1, a = (addr + i) % 2 ^ 64 := by
  have hwalk := walk_succ (fun _ => True) addr n a
  simp only [implies_true, and_true, true_and] at hwalk
  exact hwalk.symm

/-- One byte read or stored, whatever comes of it. -/
theorem touches_byte (addr : Nat) {α : Type} (r : Exec α) :
    (⟨[addr], r⟩ : Traced α).Touches fun a => a = addr :=
  ⟨fun _ ha => List.mem_singleton.mp ha, fun _ _ ha => List.mem_singleton.mpr ha⟩

theorem touches_fetch (s : Space) (addr n : Nat) :
    (fetch s addr n).Touches fun a => ∃ i < n, a = (addr + i) % 2 ^ 64 := by
  induction n generalizing addr with
  | zero => exact (Traced.touches_pure _).congr fun a => by simp
  | succ n ih =>
    have hrest := fun b => (ih (addr + 1)).bind (fun bs => pure (b :: bs)) fun _ => rfl
    exact ((touches_byte ..).seq fun b _ => hrest b).congr (span_succ addr n)

theorem touches_deposit (s : Space) (addr : Nat) (bs : List (BitVec 8)) :
    (deposit s addr bs).Touches fun a => ∃ i < bs.length, a = (addr + i) % 2 ^ 64 := by
  induction bs generalizing s addr with
  | nil => exact (Traced.touches_pure _).congr fun a => by simp
  | cons b bs ih =>
    exact ((touches_byte ..).seq fun s' _ => ih s' (addr + 1)).congr (span_succ addr bs.length)

end Paging
