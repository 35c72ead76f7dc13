/-
  File:      SimpleLinux/Lib/Nesting.lean
  Subject:   Nested critical sections on one core, and when every lock is given back.

  `Lib/Spin` keeps interrupt-disabled code from waiting. That leaves the waits of ordinary code: it
  spins with interrupts enabled until a tick hands the CPU to somebody else, and the tick itself
  takes the lock `x` that guards the table of contexts. So ranks are not enough: whoever waits while
  it owns `x` can neither go on nor be preempted.

  * `Shape`, `Shape.Does` -- code up to the decisions it takes; `Shape.ordered` -- the check that
    every lock ranks above those it is taken under;
  * `Own`, `Masked` -- code that fits what its context holds: ordinary code, and what runs with
    interrupts disabled from its start;
  * `clear` -- the condition on a step: what an interrupt or an exit takes is free, and so is what
    is taken under `x` when `x` is taken;
  * `Order`, `Order.step` -- **the invariant**; `Order.lock_free` -- nobody waits with interrupts
    disabled or while it owns `x`.
-/
import SimpleLinux.Lib.Spin

namespace Spin

variable {L : Type}

/-! ## 1. Shapes of code -/

/-- The locks that code takes, up to the decisions it takes. -/
inductive Shape (L : Type) where
  | skip
  /-- a critical section -/
  | crit (l : L) (body : Shape L)
  | seq (a b : Shape L)
  | either (a b : Shape L)
  | many (a : Shape L)

/-- One after the other. -/
def Shape.steps : List (Shape L) → Shape L
  | [] => .skip
  | a :: as => .seq a (steps as)

/-- Under a condition. -/
def Shape.maybe (a : Shape L) : Shape L := .either .skip a

/-- What code of a shape can execute. -/
inductive Shape.Does : Shape L → List (Op L) → Prop where
  | skip : Does .skip []
  | crit {l : L} {body : Shape L} {code : List (Op L)} (h : Does body code) :
      Does (.crit l body) (.lock l :: (code ++ [.unlock l]))
  | seq {a b : Shape L} {c d : List (Op L)} (ha : Does a c) (hb : Does b d) :
      Does (.seq a b) (c ++ d)
  | left {a b : Shape L} {c : List (Op L)} (h : Does a c) : Does (.either a b) c
  | right {a b : Shape L} {d : List (Op L)} (h : Does b d) : Does (.either a b) d
  | done {a : Shape L} : Does (.many a) []
  | again {a : Shape L} {c d : List (Op L)} (h : Does a c) (hs : Does (.many a) d) :
      Does (.many a) (c ++ d)

/-- **The check**: every lock ranks at least `k`, and above the locks it is taken under. -/
def Shape.ordered (rank : L → Nat) : Nat → Shape L → Bool
  | _, .skip => true
  | k, .crit l body => decide (k ≤ rank l) && body.ordered rank (rank l + 1)
  | k, .seq a b | k, .either a b => a.ordered rank k && b.ordered rank k
  | k, .many a => a.ordered rank k

theorem Shape.ordered_steps (rank : L → Nat) (k : Nat) :
    ∀ as : List (Shape L), (Shape.steps as).ordered rank k = as.all (·.ordered rank k)
  | [] => rfl
  | a :: as => by rw [steps, ordered, ordered_steps rank k as, List.all_cons]

theorem Shape.ordered_mono {rank : L → Nat} {k k' : Nat} (hk : k ≤ k') :
    ∀ {a : Shape L}, a.ordered rank k' = true → a.ordered rank k = true
  | .skip, _ => rfl
  | .crit l body, h => by
      simp only [ordered, Bool.and_eq_true, decide_eq_true_eq] at h ⊢
      exact ⟨Nat.le_trans hk h.1, h.2⟩
  | .seq a b, h | .either a b, h => by
      simp only [ordered, Bool.and_eq_true] at h ⊢
      exact ⟨ordered_mono hk h.1, ordered_mono hk h.2⟩
  | .many a, h => by
      simp only [ordered] at h ⊢
      exact ordered_mono hk h

/-- Code that passed the check goes in front of whatever fits what is held: `P` is any reading of
    "fits" that admits one more lock of a higher rank, and its release. -/
theorem Shape.Does.append {rank : L → Nat} {P : List L → List (Op L) → Prop}
    (hlock : ∀ {H l r}, (∀ h ∈ H, rank h < rank l) → P (l :: H) r → P H (.lock l :: r))
    (hunlock : ∀ {H l r}, P H r → P (l :: H) (.unlock l :: r)) {a : Shape L} {code : List (Op L)}
    (h : a.Does code) : ∀ {k : Nat} {H : List L} {rest : List (Op L)}, a.ordered rank k = true →
      (∀ h ∈ H, rank h < k) → P H rest → P H (code ++ rest) := by
  induction h with
  | skip => intro k H rest _ _ hrest; exact hrest
  | @crit l body code _ ih =>
    intro k H rest hord hH hrest
    simp only [Shape.ordered, Bool.and_eq_true, decide_eq_true_eq] at hord
    have hup : ∀ h ∈ H, rank h < rank l := fun h hh => Nat.lt_of_lt_of_le (hH h hh) hord.1
    rw [List.cons_append, List.append_assoc]
    refine hlock hup ?_
    refine ih hord.2 (fun h hh => ?_) (hunlock hrest)
    rcases List.mem_cons.mp hh with rfl | hh
    · exact Nat.lt_succ_self _
    · exact Nat.lt_succ_of_lt (hup h hh)
  | seq _ _ iha ihb =>
    intro k H rest hord hH hrest
    simp only [Shape.ordered, Bool.and_eq_true] at hord
    rw [List.append_assoc]
    exact iha hord.1 hH (ihb hord.2 hH hrest)
  | left _ ih =>
    intro k H rest hord hH hrest
    simp only [Shape.ordered, Bool.and_eq_true] at hord
    exact ih hord.1 hH hrest
  | right _ ih =>
    intro k H rest hord hH hrest
    simp only [Shape.ordered, Bool.and_eq_true] at hord
    exact ih hord.2 hH hrest
  | done => intro k H rest _ _ hrest; exact hrest
  | again _ _ iha ihs =>
    intro k H rest hord hH hrest
    rw [List.append_assoc]
    exact iha hord hH (ihs hord hH hrest)

/-! ## 2. Code that fits what its context holds -/

section Discipline

variable (rank : L → Nat) (x : L)

/-- **Ordinary code**: `i` is the interrupt flag, `H` the locks held, the innermost first. A lock
    ranks above those held; only `x` is taken with interrupts disabled; nothing is held across a
    switch, at a change of the flag or at the end. -/
def Own : Bool → List L → List (Op L) → Prop
  | i, H, [] => i = true ∧ H = []
  | i, H, .lock l :: r => (∀ h ∈ H, rank h < rank l) ∧ (i = false → l = x) ∧ Own i (l :: H) r
  | i, H, .unlock l :: r => ∃ H', H = l :: H' ∧ Own i H' r
  | _, H, .cli :: r => H = [] ∧ Own false [] r
  | _, H, .sti :: r => H = [] ∧ Own true [] r
  | i, H, .create :: r => Own i H r
  | i, H, .switch :: r => i = false ∧ H = [] ∧ Own false [] r
  | _, _, .leave :: _ | _, _, .iret :: _ | _, _, .hlt :: _ => False

/-- **Code that starts with interrupts disabled**, on top of ordinary code or as its end: `T` are
    the locks it has taken itself, `H` those of the code below it. A handler that switches does it
    last, and only if `x` is not among those below. -/
def Masked : List L → List L → List (Op L) → Prop
  | T, H, .lock l :: r => l ∉ T ∧ Masked (l :: T) H r
  | T, H, .unlock l :: r => ∃ T', T = l :: T' ∧ Masked T' H r
  | T, H, .switch :: .iret :: r => T = [] ∧ x ∉ H ∧ Own rank x true H r
  | T, H, .iret :: r => T = [] ∧ Own rank x true H r
  | T, H, .leave :: _ => T = [] ∧ H = []
  | _, _, _ => False

variable {rank x}

theorem own_append {a : Shape L} {code rest : List (Op L)} {k : Nat} {H : List L} (h : a.Does code)
    (hord : a.ordered rank k = true) (hH : ∀ h ∈ H, rank h < k) (hrest : Own rank x true H rest) :
    Own rank x true H (code ++ rest) :=
  h.append (P := fun H code => Own rank x true H code) (fun hup hr => ⟨hup, (nomatch ·), hr⟩)
    (fun hr => ⟨_, rfl, hr⟩) hord hH hrest

theorem masked_append {a : Shape L} {code rest : List (Op L)} {k : Nat} {T H : List L}
    (h : a.Does code) (hord : a.ordered rank k = true) (hT : ∀ h ∈ T, rank h < k)
    (hrest : Masked rank x T H rest) : Masked rank x T H (code ++ rest) :=
  h.append (P := fun T code => Masked rank x T H code)
    (fun hup hr => ⟨fun hmem => Nat.lt_irrefl _ (hup _ hmem), hr⟩) (fun hr => ⟨_, rfl, hr⟩) hord hT
    hrest

end Discipline

/-- The locks taken before interrupts are enabled again or the CPU is handed over. -/
def locksAhead : List (Op L) → List L
  | .lock l :: r => l :: locksAhead r
  | .unlock _ :: r => locksAhead r
  | _ => []

theorem mem_of_locksAhead {l : L} : ∀ {code : List (Op L)}, l ∈ locksAhead code → .lock l ∈ code
  | .lock l' :: r, h => by
      rcases List.mem_cons.mp h with rfl | h
      · exact List.mem_cons_self
      · exact List.mem_cons_of_mem _ (mem_of_locksAhead h)
  | .unlock _ :: r, h => by
      have hr : l ∈ locksAhead r := h
      exact List.mem_cons_of_mem _ (mem_of_locksAhead hr)

theorem mem_of_locksAhead_iret {l : L} {rest : List (Op L)} :
    ∀ {body : List (Op L)}, l ∈ locksAhead (body ++ .iret :: rest) → .lock l ∈ body
  | .lock l' :: r, h => by
      rcases List.mem_cons.mp h with rfl | h
      · exact List.mem_cons_self
      · exact List.mem_cons_of_mem _ (mem_of_locksAhead_iret h)
  | .unlock _ :: r, h => by
      have hr : l ∈ locksAhead (r ++ .iret :: rest) := h
      exact List.mem_cons_of_mem _ (mem_of_locksAhead_iret hr)

variable [DecidableEq L]

/-- The locks taken before `x` is released. -/
def within (x : L) : List (Op L) → List L
  | [] => []
  | .lock l :: r => l :: within x r
  | .unlock l :: r => if l = x then [] else within x r
  | _ :: r => within x r

theorem mem_within_append {x l : L} {rest : List (Op L)} :
    ∀ {code : List (Op L)}, l ∈ within x (code ++ rest) → .lock l ∈ code ∨ l ∈ within x rest
  | [], h => Or.inr h
  | .lock l' :: r, h => by
      rcases List.mem_cons.mp h with rfl | h
      · exact Or.inl List.mem_cons_self
      · exact (mem_within_append h).imp_left (List.mem_cons_of_mem _)
  | .unlock l' :: r, h => by
      simp only [List.cons_append, within] at h
      split at h
      · cases h
      · exact (mem_within_append h).imp_left (List.mem_cons_of_mem _)
  | .cli :: r, h | .sti :: r, h | .create :: r, h | .switch :: r, h | .leave :: r, h | .iret :: r, h
  | .hlt :: r, h => by
      have hr : l ∈ within x (r ++ rest) := h
      exact (mem_within_append hr).imp_left (List.mem_cons_of_mem _)

/-- The operation takes no lock that is owned. -/
def State.unowned (s : State L) : Op L → Bool
  | .lock l => s.free l
  | _ => true

/-- **The condition on a step.** An interrupt is delivered, and a context ends, only while every
    lock that is then taken is free; a context that ends hands the CPU over to another one; and
    ordinary code takes `x` only while every lock that it takes under `x` is free. -/
def clear (x : L) (s : State L) : Action L → Bool
  | .call _ => true
  | .quit code | .irq code => code.all s.unowned
  | .cont next =>
    match s.code with
    | some (.lock l :: rest) => !s.intr || l != x || (within x rest).all s.free
    | some (.leave :: _) => next.isSome
    | _ => true

omit [DecidableEq L] in
theorem free_iff {s : State L} {l : L} : s.free l = true ↔ s.owner l = none :=
  Option.isNone_iff_eq_none

omit [DecidableEq L] in
/-- What an interrupt or the end of a context takes is owned by nobody. -/
theorem owner_of_unowned {s : State L} {code : List (Op L)} (h : code.all s.unowned = true) {l : L}
    (hl : .lock l ∈ code) : s.owner l = none :=
  free_iff.mp (List.all_eq_true.mp h _ hl)

/-! ## 3. The invariant -/

/-- `G` are the locks that context `c` owns. -/
structure Holds (owner : L → Option Nat) (c : Nat) (G : List L) : Prop where
  nodup : G.Nodup
  owns : ∀ l, owner l = some c ↔ l ∈ G

section Holds

variable {owner : L → Option Nat} {c : Nat} {G : List L} {l : L}

theorem Holds.take (h : Holds owner c G) (hl : owner l = none) :
    Holds (Function.update owner l (some c)) c (l :: G) := by
  have hnot : l ∉ G := fun hmem => by rw [(h.owns l).mpr hmem] at hl; cases hl
  refine ⟨List.nodup_cons.mpr ⟨hnot, h.nodup⟩, fun l' => ?_⟩
  by_cases e : l' = l
  · subst e
    simp
  · rw [Function.update_of_ne e, h.owns l', List.mem_cons]
    exact ⟨Or.inr, fun hmem => hmem.resolve_left e⟩

theorem Holds.give (h : Holds owner c (l :: G)) : Holds (Function.update owner l none) c G := by
  obtain ⟨hnot, hnd⟩ := List.nodup_cons.mp h.nodup
  refine ⟨hnd, fun l' => ?_⟩
  by_cases e : l' = l
  · subst e
    rw [Function.update_self]
    exact ⟨(nomatch ·), fun hmem => absurd hmem hnot⟩
  · rw [Function.update_of_ne e, h.owns l', List.mem_cons]
    exact ⟨fun hmem => hmem.resolve_left e, Or.inr⟩

omit [DecidableEq L] in
theorem Holds.congr {owner' : L → Option Nat} (h : Holds owner c G)
    (he : ∀ l, owner' l = some c ↔ owner l = some c) : Holds owner' c G :=
  ⟨h.nodup, fun l => (he l).trans (h.owns l)⟩

end Holds

/-- Nobody else owns any of these locks. -/
def State.Mine (s : State L) (ls : List L) : Prop :=
  ∀ l ∈ ls, s.owner l = none ∨ s.owner l = some s.cur

/-- **The executing context**: ordinary code, or code that started with interrupts disabled. If it
    took `x` as ordinary code, what it still takes under `x` is not owned by anybody else. -/
inductive Front (rank : L → Nat) (x : L) (s : State L) (code : List (Op L)) : Prop where
  | own (H : List L) (holds : Holds s.owner s.cur H) (hown : Own rank x s.intr H code)
      (hb : s.intr = true → x ∈ H → s.Mine (within x code))
  | masked (T H : List L) (holds : Holds s.owner s.cur (T ++ H)) (hi : s.intr = false)
      (hm : Masked rank x T H code) (hf : ∀ l ∈ locksAhead code, s.owner l = none ∨ l ∈ T)
      (hb : x ∈ H → s.Mine (within x code))

/-- **A context that is not executing** does not hold `x`. It was preempted in ordinary code, or it
    gave the CPU up, or is new, and holds nothing. -/
def Parked (rank : L → Nat) (x : L) (s : State L) (c : Nat) (code : List (Op L)) : Prop :=
  ∃ H, Holds s.owner c H ∧ x ∉ H ∧
    ((∃ r, code = .iret :: r ∧ Own rank x true H r) ∨ (H = [] ∧ Own rank x false [] code))

/-- **The invariant.** -/
structure Order (rank : L → Nat) (x : L) (s : State L) : Prop where
  front : ∃ code, s.code = some code ∧ Front rank x s code
  others : ∀ {c : Nat} {code : List (Op L)}, c ≠ s.cur → Slots.get s.ctxs c = some code →
    Parked rank x s c code
  present : ∀ {l : L} {c : Nat}, s.owner l = some c → ∃ code, Slots.get s.ctxs c = some code

/-- What an action must satisfy whenever it is taken. -/
def Static (rank : L → Nat) (x : L) : Action L → Prop
  | .call code => Own rank x true [] code
  | .quit code => Masked rank x [] [] code
  | .irq code => (∃ body, code = body ++ [.iret]) ∧ ∀ H rest, (∀ l ∈ H, .lock l ∉ code) →
      Own rank x true H rest → Masked rank x [] H (code ++ rest)
  | .cont _ => True

section Order

variable {rank : L → Nat} {x : L} {s s' : State L} {code rest : List (Op L)}

/-- `x` is owned by the executing context, or by nobody. -/
theorem Order.mine (hO : Order rank x s) {c : Nat} (h : s.owner x = some c) : c = s.cur := by
  by_contra hne
  obtain ⟨code, hc⟩ := hO.present h
  obtain ⟨H, hH, hnot, -⟩ := hO.others hne hc
  exact hnot ((hH.owns x).mp h)

/-- A step of the executing context that leaves the others where they are. -/
theorem Order.onCur (hO : Order rank x s) (hctx : s'.ctxs = (s.setCode code).ctxs)
    (hcur : s'.cur = s.cur)
    (hother : ∀ l c, c ≠ s.cur → (s'.owner l = some c ↔ s.owner l = some c))
    (hf : Front rank x s' code) : Order rank x s' := by
  obtain ⟨old, hc, -⟩ := hO.front
  have hget : ∀ c, c ≠ s.cur → Slots.get s'.ctxs c = Slots.get s.ctxs c := by
    intro c hne
    rw [hctx, get_setCode, if_neg (Ne.symm hne)]
  have hcode : s'.code = some code := by
    rw [State.code, hctx, hcur]
    exact code_setCode hc code
  refine ⟨⟨code, hcode, hf⟩, fun {c code'} hne h => ?_, fun {l c} h => ?_⟩
  · rw [hcur] at hne
    rw [hget c hne] at h
    obtain ⟨H, hH, hp⟩ := hO.others hne h
    exact ⟨H, hH.congr fun l => hother l c hne, hp⟩
  · by_cases hne : c = s.cur
    · rw [hne, ← hcur]
      exact ⟨code, hcode⟩
    · rw [hget c hne]
      exact hO.present ((hother l c hne).mp h)

/-- A lock of nobody or of the executing context changes hands: to the executing context, or to
    nobody. -/
theorem other_setOwner {l : L} {o : Option Nat} (hl : s.owner l = none ∨ s.owner l = some s.cur)
    (ho : o = none ∨ o = some s.cur) (l' : L) (c : Nat) (hne : c ≠ s.cur) :
    ((s.setCode rest).setOwner l o).owner l' = some c ↔ s.owner l' = some c := by
  rw [owner_setOwner]
  by_cases e : l' = l
  · subst e
    rw [Function.update_self]
    have hnot : ∀ {o' : Option Nat}, o' = none ∨ o' = some s.cur → o' ≠ some c := by
      intro o' ho' e
      rcases ho' with rfl | rfl
      · cases e
      · exact hne (Option.some.inj e).symm
    exact ⟨fun h => absurd h (hnot ho), fun h => absurd h (hnot hl)⟩
  · rw [Function.update_of_ne e]
    exact Iff.rfl

/-- A list of locks that are the executing context's or nobody's stays one. -/
theorem State.Mine.setOwner {ls ls' : List L} (h : s.Mine ls) (hsub : ∀ l ∈ ls', l ∈ ls) (l : L)
    {o : Option Nat} (ho : o = none ∨ o = some s.cur) :
    ((s.setCode rest).setOwner l o).Mine ls' := by
  intro l' hl'
  rw [owner_setOwner]
  by_cases e : l' = l
  · subst e
    rw [Function.update_self]
    exact ho
  · rw [Function.update_of_ne e]
    exact h l' (hsub l' hl')

theorem Order.lock (hO : Order rank x s) {l : L} (hc : s.code = some (.lock l :: rest))
    (hl : s.owner l = none) (hok : s.intr = true → l = x → s.Mine (within x rest)) :
    Order rank x ((s.setCode rest).setOwner l (some s.cur)) := by
  obtain ⟨code, hc', hf⟩ := hO.front
  cases hc.symm.trans hc'
  refine hO.onCur rfl rfl (fun l' c hne => other_setOwner (Or.inl hl) (Or.inr rfl) l' c hne) ?_
  cases hf with
  | own H holds hown hb =>
    obtain ⟨-, -, hrest⟩ := hown
    refine .own (l :: H) (holds.take hl) hrest fun hi hx => ?_
    rcases List.mem_cons.mp hx with e | hx
    · exact (hok hi e.symm).setOwner (fun _ h => h) l (Or.inr rfl)
    · exact (hb hi hx).setOwner (fun _ h => List.mem_cons_of_mem _ h) l (Or.inr rfl)
  | masked T H holds hi hm hf hb =>
    refine .masked (l :: T) H (holds.take hl) hi hm.2 (fun l' hl' => ?_) fun hx =>
      (hb hx).setOwner (fun _ h => List.mem_cons_of_mem _ h) l (Or.inr rfl)
    rw [owner_setOwner]
    by_cases e : l' = l
    · exact Or.inr (e ▸ List.mem_cons_self)
    · rw [Function.update_of_ne e]
      exact (hf l' (List.mem_cons_of_mem _ hl')).imp_right (List.mem_cons_of_mem _)

theorem Order.unlock (hO : Order rank x s) {l : L} (hc : s.code = some (.unlock l :: rest)) :
    Order rank x ((s.setCode rest).setOwner l none) := by
  obtain ⟨code, hc', hf⟩ := hO.front
  cases hc.symm.trans hc'
  -- what is released under `x` leaves the rest of the section under `x` as it was
  have hsub : x ≠ l → ∀ l' ∈ within x rest, l' ∈ within x (.unlock l :: rest) := by
    intro hne l' h
    rwa [within, if_neg (Ne.symm hne)]
  cases hf with
  | own H holds hown hb =>
    obtain ⟨H', rfl, hrest⟩ := hown
    have hmine : s.owner l = some s.cur := (holds.owns l).mpr List.mem_cons_self
    refine hO.onCur rfl rfl (fun l' c hne => other_setOwner (Or.inr hmine) (Or.inl rfl) l' c hne)
      (.own H' holds.give hrest fun hi hx => ?_)
    have hne : x ≠ l := fun e => (List.nodup_cons.mp holds.nodup).1 (e ▸ hx)
    exact (hb hi (List.mem_cons_of_mem _ hx)).setOwner (hsub hne) l (Or.inl rfl)
  | masked T H holds hi hm hf hb =>
    obtain ⟨T', rfl, hrest⟩ := hm
    have hmine : s.owner l = some s.cur := (holds.owns l).mpr List.mem_cons_self
    refine hO.onCur rfl rfl (fun l' c hne => other_setOwner (Or.inr hmine) (Or.inl rfl) l' c hne)
      (.masked T' H holds.give hi hrest (fun l' hl' => ?_) fun hx => ?_)
    · rw [owner_setOwner]
      by_cases e : l' = l
      · rw [e, Function.update_self]
        exact Or.inl rfl
      · rw [Function.update_of_ne e]
        exact (hf l' hl').imp_right fun h => (List.mem_cons.mp h).resolve_left e
    · have hne : x ≠ l := by
        intro e
        exact (List.nodup_cons.mp holds.nodup).1 (e ▸ List.mem_append_right T' hx)
      exact (hb hx).setOwner (hsub hne) l (Or.inl rfl)

/-- Ordinary code that holds nothing changes the flag. -/
theorem Order.setFlag (hO : Order rank x s) {op : Op L} {b : Bool} (hc : s.code = some (op :: rest))
    (hop : op = .cli ∧ b = false ∨ op = .sti ∧ b = true) :
    Order rank x ((s.setCode rest).setFlag b) := by
  obtain ⟨code, hc', hf⟩ := hO.front
  cases hc.symm.trans hc'
  refine hO.onCur rfl rfl (fun _ _ _ => Iff.rfl) ?_
  cases hf with
  | own H holds hown hb =>
    have hnil : H = [] ∧ Own rank x b [] rest := by
      rcases hop with ⟨rfl, rfl⟩ | ⟨rfl, rfl⟩
      · exact hown
      · exact hown
    obtain ⟨rfl, hrest⟩ := hnil
    exact .own [] holds hrest fun _ hx => absurd hx List.not_mem_nil
  | masked T H holds hi hm hf hb =>
    rcases hop with ⟨rfl, rfl⟩ | ⟨rfl, rfl⟩
    · exact absurd hm (by simp [Masked])
    · exact absurd hm (by simp [Masked])

/-- An interrupt handler returns. -/
theorem Order.iret (hO : Order rank x s) (hc : s.code = some (.iret :: rest)) :
    Order rank x ((s.setCode rest).setFlag true) := by
  obtain ⟨code, hc', hf⟩ := hO.front
  cases hc.symm.trans hc'
  refine hO.onCur rfl rfl (fun _ _ _ => Iff.rfl) ?_
  cases hf with
  | own H holds hown hb => exact absurd hown (by simp [Own])
  | masked T H holds hi hm hf hb =>
    obtain ⟨rfl, hrest⟩ := hm
    exact .own H holds hrest fun _ hx => hb hx

theorem Order.create (hO : Order rank x s) {fresh : List (Op L)}
    (hfresh : Own rank x false [] fresh) (hc : s.code = some (.create :: rest)) :
    Order rank x { s.setCode rest with ctxs := Slots.insert (s.setCode rest).ctxs fresh } := by
  obtain ⟨code, hc', hf⟩ := hO.front
  cases hc.symm.trans hc'
  have hO' : Order rank x (s.setCode rest) := by
    refine hO.onCur rfl rfl (fun _ _ _ => Iff.rfl) ?_
    cases hf with
    | own H holds hown hb => exact .own H holds hown hb
    | masked T H holds hi hm hf hb => exact absurd hm (by simp [Masked])
  obtain ⟨code, hcode, hf'⟩ := hO'.front
  have hhole := Slots.get_hole (s.setCode rest).ctxs
  have hget := Slots.get_insert (s.setCode rest).ctxs fresh
  have hold : ∀ {c : Nat} {code : List (Op L)}, Slots.get (s.setCode rest).ctxs c = some code →
      Slots.get (Slots.insert (s.setCode rest).ctxs fresh) c = some code := by
    intro c code h
    have hne : c ≠ Slots.hole (s.setCode rest).ctxs := fun e => by rw [e, hhole] at h; cases h
    rw [hget, if_neg hne]
    exact h
  refine ⟨⟨code, hold hcode, ?_⟩, fun {c code} hne h => ?_, fun {l c} h => ?_⟩
  · cases hf' with
    | own H holds hown hb => exact .own H holds hown hb
    | masked T H holds hi hm hf hb => exact .masked T H holds hi hm hf hb
  · rw [hget] at h
    split at h
    · rename_i hh
      cases h
      -- a new context owns nothing: its slot was free
      refine ⟨[], ⟨List.nodup_nil, fun l => ⟨fun ho => ?_, (nomatch ·)⟩⟩, List.not_mem_nil,
        Or.inr ⟨rfl, hfresh⟩⟩
      obtain ⟨code, hcode⟩ := hO'.present ho
      rw [hh, hhole] at hcode
      cases hcode
    · exact hO'.others hne h
  · obtain ⟨code, hcode⟩ := hO'.present h
    exact ⟨code, hold hcode⟩

/-- The CPU goes to a context that is not executing, once all are in that state. -/
theorem order_of_parked (hi : s.intr = false) (hcur : ∃ code, s.code = some code)
    (hctx : ∀ c code, Slots.get s.ctxs c = some code → Parked rank x s c code)
    (hpresent : ∀ {l : L} {c : Nat}, s.owner l = some c → ∃ code, Slots.get s.ctxs c = some code) :
    Order rank x s := by
  obtain ⟨code, hc⟩ := hcur
  refine ⟨⟨code, hc, ?_⟩, fun _ h => hctx _ _ h, hpresent⟩
  obtain ⟨H, holds, hx, ⟨r, rfl, hown⟩ | ⟨rfl, hown⟩⟩ := hctx _ _ hc
  · exact .masked [] H holds hi ⟨rfl, hown⟩ (fun _ h => nomatch h) fun h => absurd h hx
  · refine .own [] holds (by rw [hi]; exact hown) fun h => ?_
    rw [hi] at h
    cases h

theorem Order.switch (hO : Order rank x s) (fresh : List (Op L))
    (hc : s.code = some (.switch :: rest)) {next : Option Nat} (hgo : s.canGo .switch next = true) :
    Order rank x (s.exec fresh rest next .switch) := by
  obtain ⟨code, hc', hf⟩ := hO.front
  cases hc.symm.trans hc'
  have hmine : Parked rank x s s.cur rest ∧ s.intr = false := by
    cases hf with
    | own H holds hown hb =>
      obtain ⟨hi, rfl, hrest⟩ := hown
      exact ⟨⟨[], holds, List.not_mem_nil, Or.inr ⟨rfl, hrest⟩⟩, hi⟩
    | masked T H holds hi hm hf hb =>
      cases rest with
      | nil => exact absurd hm (by simp [Masked])
      | cons op r =>
        cases op with
        | iret =>
          obtain ⟨rfl, hx, hown⟩ := hm
          exact ⟨⟨H, holds, hx, Or.inl ⟨r, rfl, hown⟩⟩, hi⟩
        | _ => exact absurd hm (by simp [Masked])
  obtain ⟨hparked, hi⟩ := hmine
  have hctx : ∀ c code, Slots.get (s.setCode rest).ctxs c = some code → Parked rank x s c code := by
    intro c code h
    rw [get_setCode] at h
    split at h
    · rename_i e
      obtain ⟨_, -, e'⟩ := Option.map_eq_some_iff.mp h
      cases e'
      exact e ▸ hparked
    · rename_i hne
      exact hO.others (Ne.symm hne) h
  have hthere : ∀ {c : Nat} {code : List (Op L)}, Slots.get s.ctxs c = some code →
      ∃ code', Slots.get (s.setCode rest).ctxs c = some code' := by
    intro c code h
    rw [get_setCode, h]
    split
    · exact ⟨_, rfl⟩
    · exact ⟨_, rfl⟩
  have hpresent : ∀ {l : L} {c : Nat}, s.owner l = some c →
      ∃ code, Slots.get (s.setCode rest).ctxs c = some code := by
    intro l c h
    obtain ⟨code, h⟩ := hO.present h
    exact hthere h
  cases next with
  | none => exact order_of_parked hi (hthere hc) hctx hpresent
  | some j =>
    obtain ⟨code, hj⟩ := Option.isSome_iff_exists.mp hgo
    exact order_of_parked hi (hthere hj) hctx hpresent

theorem Order.leave (hO : Order rank x s) (hc : s.code = some (.leave :: rest)) {j : Nat}
    (hgo : s.canGo .leave (some j) = true) :
    Order rank x { s with ctxs := Slots.clear s.ctxs s.cur, cur := j } := by
  obtain ⟨code, hc', hf⟩ := hO.front
  cases hc.symm.trans hc'
  have hnothing : (∀ l, s.owner l ≠ some s.cur) ∧ s.intr = false := by
    cases hf with
    | own H holds hown hb => exact absurd hown (by simp [Own])
    | masked T H holds hi hm hf hb =>
      obtain ⟨rfl, rfl⟩ := hm
      exact ⟨fun l h => absurd ((holds.owns l).mp h) List.not_mem_nil, hi⟩
  simp only [State.canGo, Bool.and_eq_true, bne_iff_ne] at hgo
  obtain ⟨hj, hthere⟩ := hgo
  obtain ⟨code, hcode⟩ := Option.isSome_iff_exists.mp hthere
  refine order_of_parked hnothing.2 ⟨code, ?_⟩ (fun c code h => ?_) fun {l c} h => ?_
  · rw [State.code, Slots.get_clear, if_neg (Ne.symm hj)]
    exact hcode
  · rw [Slots.get_clear] at h
    split at h
    · cases h
    · rename_i hne
      exact hO.others (Ne.symm hne) h
  · have hne : s.cur ≠ c := fun e => hnothing.1 l (e ▸ h)
    obtain ⟨code, hcode⟩ := hO.present h
    exact ⟨code, by rw [Slots.get_clear, if_neg hne]; exact hcode⟩

/-- One operation of the executing context. -/
theorem Order.exec (hO : Order rank x s) {fresh : List (Op L)} (hfresh : Own rank x false [] fresh)
    {op : Op L} (hc : s.code = some (op :: rest)) {next : Option Nat} (hgo : s.canGo op next = true)
    (hok : clear x s (.cont next) = true) : Order rank x (s.exec fresh rest next op) := by
  cases op with
  | lock l =>
    simp only [State.exec]
    split
    · rename_i hfree
      refine hO.lock hc (free_iff.mp hfree) fun hi e l' hl' => ?_
      simp only [clear, hc, hi, e, bne_self_eq_false, Bool.not_true, Bool.or_self, Bool.false_or,
        List.all_eq_true] at hok
      exact Or.inl (free_iff.mp (hok l' hl'))
    · exact hO
  | unlock l => exact hO.unlock hc
  | cli => exact hO.setFlag hc (Or.inl ⟨rfl, rfl⟩)
  | sti => exact hO.setFlag hc (Or.inr ⟨rfl, rfl⟩)
  | create => exact hO.create hfresh hc
  | switch => exact hO.switch fresh hc hgo
  | leave =>
    cases next with
    | none => simp [clear, hc] at hok
    | some j => exact hO.leave hc hgo
  | iret => exact hO.iret hc
  | hlt => exact hO

/-- **Every step that meets the condition keeps the invariant.** -/
theorem Order.step (hO : Order rank x s) {fresh : List (Op L)} (hfresh : Own rank x false [] fresh)
    {a : Action L} (ha : Static rank x a) (hok : clear x s a = true) {es : List Unit}
    (h : Spin.step fresh s a = some (s', es)) : Order rank x s' := by
  obtain ⟨code, hc, hf⟩ := hO.front
  -- own code outside calls: interrupts enabled, nothing held
  have hidle : code = [] → s.intr = true ∧ Holds s.owner s.cur [] := by
    intro e
    subst e
    cases hf with
    | own H holds hown hb => exact ⟨hown.1, hown.2 ▸ holds⟩
    | masked T H holds hi hm hf hb => exact absurd hm (by simp [Masked])
  cases a with
  | call new =>
    simp only [Spin.step] at h
    split at h
    · rename_i hnil
      cases h
      cases hc.symm.trans hnil
      obtain ⟨hi, holds⟩ := hidle rfl
      refine hO.onCur rfl rfl (fun _ _ _ => Iff.rfl) (.own [] holds ?_ fun _ hx =>
        absurd hx List.not_mem_nil)
      rw [show (s.setCode new).intr = true from hi]
      exact ha
    · cases h
  | quit new =>
    simp only [Spin.step] at h
    split at h
    · rename_i hnil
      cases h
      cases hc.symm.trans hnil
      obtain ⟨-, holds⟩ := hidle rfl
      exact hO.onCur rfl rfl (fun _ _ _ => Iff.rfl) (.masked [] [] holds rfl ha
        (fun l hl => Or.inl (owner_of_unowned hok (mem_of_locksAhead hl))) fun hx =>
          absurd hx List.not_mem_nil)
    · cases h
  | irq new =>
    simp only [Spin.step, hc] at h
    split at h
    · rename_i hi
      cases h
      obtain ⟨⟨body, hbody⟩, hfits⟩ := ha
      cases hf with
      | own H holds hown hb =>
        rw [hi] at hown
        have hfree : ∀ l ∈ H, .lock l ∉ new := by
          intro l hl hmem
          have ho := owner_of_unowned hok hmem
          rw [(holds.owns l).mpr hl] at ho
          cases ho
        refine hO.onCur rfl rfl (fun _ _ _ => Iff.rfl)
          (.masked [] H holds rfl (hfits H code hfree hown)
          (fun l hl => ?_) fun hx l hl => ?_)
        · rw [hbody, List.append_assoc] at hl
          refine Or.inl (owner_of_unowned hok ?_)
          rw [hbody]
          exact List.mem_append_left _ (mem_of_locksAhead_iret hl)
        · rcases mem_within_append hl with hmem | hmem
          · exact Or.inl (owner_of_unowned hok hmem)
          · exact hb hi hx l hmem
      | masked T H holds hi' hm hf hb =>
        rw [hi] at hi'
        cases hi'
    · cases h
  | cont next =>
    simp only [Spin.step, hc] at h
    cases code with
    | nil => cases h
    | cons op r =>
      dsimp only at h
      split at h
      · rename_i hgo
        cases h
        exact hO.exec hfresh hc hgo hok
      · cases h

/-- **Nobody waits with interrupts disabled, or while holding `x`.** -/
theorem Order.lock_free (hO : Order rank x s) {l : L}
    (hc : s.code = some (.lock l :: rest)) (h : s.intr = false ∨ s.owner x = some s.cur) :
    s.owner l = none := by
  obtain ⟨code, hc', hf⟩ := hO.front
  cases hc.symm.trans hc'
  cases hf with
  | own H holds hown hb =>
    obtain ⟨hup, hdis, -⟩ := hown
    have hnot : s.owner l ≠ some s.cur := fun ho => Nat.lt_irrefl _ (hup l ((holds.owns l).mp ho))
    cases hi : s.intr with
    | false =>
      cases ho : s.owner l with
      | none => rfl
      | some c =>
        have e := hdis hi
        rw [e] at ho hnot
        rw [hO.mine ho] at ho
        exact absurd ho hnot
    | true =>
      have hxm := (holds.owns x).mp (h.resolve_left (by simp [hi]))
      exact (hb hi hxm l List.mem_cons_self).resolve_right hnot
  | masked T H holds hi hm hf hb =>
    exact (hf l List.mem_cons_self).resolve_right hm.1

end Order

end Spin
