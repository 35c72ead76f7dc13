/-
  File:      SimpleLinux/Lib/Release.lean
  Subject:   From ordered nesting to every lock given back, and what makes that impossible.

  Over the invariant of `Lib/Nesting`: a chain of waits climbs the ranks, so some context that owns
  a lock can go on, and if it is not executing a tick can hand the CPU to it. Each operation leaves
  fewer ahead, and a tick costs what the return from the tick before gives back.

  * `Order.advance` -- one operation of the executing context;
  * `Order.mover` -- a chain of waits ends; `preempt_run` -- the tick;
  * `Order.release` -- **from every state that the invariant admits all locks can be given back**;
  * `hopeless`, `doomed_run` -- the opposite: a context that waits for a lock of somebody else,
    under a lock that a switch to that one takes, waits forever.
-/
import SimpleLinux.Lib.Nesting

namespace Spin

open Runs

variable {L : Type}

/-! ## 1. How much is ahead -/

/-- What an operation counts for; a new context counts for `w`. -/
def weight (w : Nat) : Op L → Nat
  | .create => 1 + w
  | _ => 1

theorem weight_pos (w : Nat) (op : Op L) : 0 < weight w op := by
  cases op with
  | create => exact Nat.lt_of_lt_of_le Nat.zero_lt_one (Nat.le_add_right 1 w)
  | _ => exact Nat.zero_lt_one

/-- The operations ahead in `code`. -/
def ahead (w : Nat) (code : List (Op L)) : Nat := (code.map (weight w)).sum

/-- The operations ahead of all contexts. -/
def State.ahead (w : Nat) (s : State L) : Nat := Slots.total (Spin.ahead w) s.ctxs

theorem ahead_cons (w : Nat) (op : Op L) (code : List (Op L)) :
    ahead w (op :: code) = weight w op + ahead w code := by
  simp [ahead]

theorem ahead_append (w : Nat) (code rest : List (Op L)) :
    ahead w (code ++ rest) = ahead w code + ahead w rest := by
  simp [ahead]

theorem ahead_setCode (w : Nat) {s : State L} {old : List (Op L)} (hc : s.code = some old)
    (new : List (Op L)) :
    (s.setCode new).ahead w + ahead w old = s.ahead w + ahead w new :=
  Slots.total_update _ (fun _ => new) hc

variable [DecidableEq L]

theorem step_cont (fresh : List (Op L)) {s : State L} {op : Op L} {rest : List (Op L)}
    (hc : s.code = some (op :: rest)) {next : Option Nat} (hgo : s.canGo op next = true) :
    step fresh s (.cont next) = some (s.exec fresh rest next op, []) := by
  simp only [step, hc, hgo, if_true]

section Advance

variable {rank : L → Nat} {x : L} {s : State L} {w : Nat} {fresh : List (Op L)}

/-- **One operation of the executing context** that waits for nothing leaves fewer ahead. If the
    context ends, the CPU goes to one that owns a lock. -/
theorem Order.advance (hO : Order rank x s) (hw : ahead w fresh ≤ w) {op : Op L}
    {rest : List (Op L)} (hc : s.code = some (op :: rest))
    (hfree : ∀ l, op = .lock l → s.owner l = none) (hx : s.intr = true → op ≠ .lock x)
    (howned : ∃ l c, s.owner l = some c) :
    ∃ next s', Spin.step fresh s (.cont next) = some (s', []) ∧ clear x s (.cont next) = true ∧
      s'.ahead w < s.ahead w := by
  obtain ⟨code, hc', hf⟩ := hO.front
  cases hc.symm.trans hc'
  have hsum := ahead_setCode w hc rest
  have hpos := weight_pos w op
  rw [ahead_cons] at hsum
  have hdrop : (s.setCode rest).ahead w < s.ahead w := by omega
  cases op with
  | lock l =>
    have hl : s.free l = true := free_iff.mpr (hfree l rfl)
    refine ⟨none, _, step_cont fresh hc rfl, ?_, ?_⟩
    · cases hi : s.intr with
      | false => simp [clear, hc, hi]
      | true =>
        have hne : l ≠ x := fun e => hx hi (e ▸ rfl)
        simp [clear, hc, hi, hne]
    · simp only [State.exec, hl, if_true]
      exact hdrop
  | unlock l => exact ⟨none, _, step_cont fresh hc rfl, by simp [clear, hc], hdrop⟩
  | cli => exact ⟨none, _, step_cont fresh hc rfl, by simp [clear, hc], hdrop⟩
  | sti | iret => exact ⟨none, _, step_cont fresh hc rfl, by simp [clear, hc], hdrop⟩
  | switch => exact ⟨none, _, step_cont fresh hc rfl, by simp [clear, hc], hdrop⟩
  | create =>
    refine ⟨none, _, step_cont fresh hc rfl, by simp [clear, hc], ?_⟩
    have hins : Slots.total (Spin.ahead w) (Slots.insert (s.setCode rest).ctxs fresh) =
      (s.setCode rest).ahead w + ahead w fresh := Slots.total_insert _ _ _
    rw [State.exec, State.ahead, hins]
    simp only [weight] at hsum
    omega
  | leave =>
    obtain ⟨l, c, ho⟩ := howned
    have hne : c ≠ s.cur := by
      intro e
      cases hf with
      | own H holds hown hb => exact hown
      | masked T H holds hi hm hf hb =>
        obtain ⟨rfl, rfl⟩ := hm
        exact absurd ((holds.owns l).mp (e ▸ ho)) List.not_mem_nil
    obtain ⟨code, hcode⟩ := hO.present ho
    have hgo : s.canGo .leave (some c) = true := by simp [State.canGo, hne, hcode]
    refine ⟨some c, _, step_cont fresh hc hgo, by simp [clear, hc], ?_⟩
    have hclear := Slots.total_clear (Spin.ahead w) hc
    rw [ahead_cons] at hclear
    show Slots.total (Spin.ahead w) (Slots.clear s.ctxs s.cur) < Slots.total (Spin.ahead w) s.ctxs
    omega
  | hlt =>
    cases hf with
    | own H holds hown hb => exact hown.elim
    | masked T H holds hi hm hf hb => exact hm.elim

/-! ## 2. Who can go on -/

/-- Context `c` goes on with `r`, now or once the handler that preempted it returns. -/
def Resumes (s : State L) (c : Nat) (r : List (Op L)) : Prop :=
  (c = s.cur ∧ s.code = some r) ∨ (c ≠ s.cur ∧ Slots.get s.ctxs c = some (.iret :: r))

/-- Whoever owns a lock while interrupts are enabled is in ordinary code. -/
theorem Order.holder (hO : Order rank x s) (hi : s.intr = true) {l : L} {c : Nat}
    (h : s.owner l = some c) : ∃ r H, Resumes s c r ∧ Own rank x true H r ∧ l ∈ H := by
  by_cases hne : c = s.cur
  · subst hne
    obtain ⟨code, hc, hf⟩ := hO.front
    cases hf with
    | own H holds hown hb =>
      rw [hi] at hown
      exact ⟨code, H, Or.inl ⟨rfl, hc⟩, hown, (holds.owns l).mp h⟩
    | masked T H holds hi' hm hf hb =>
      rw [hi] at hi'
      cases hi'
  · obtain ⟨code, hc⟩ := hO.present h
    obtain ⟨H, holds, -, ⟨r, rfl, hown⟩ | ⟨rfl, -⟩⟩ := hO.others hne hc
    · exact ⟨r, H, Or.inr ⟨hne, hc⟩, hown, (holds.owns l).mp h⟩
    · exact absurd ((holds.owns l).mp h) List.not_mem_nil

/-- **A chain of waits ends**: some context that holds a lock waits for none. -/
theorem Order.mover (hO : Order rank x s) (hi : s.intr = true) {N : Nat} (hN : ∀ l, rank l ≤ N) :
    ∀ (n : Nat) {l : L} {c : Nat}, N - rank l ≤ n → s.owner l = some c →
      ∃ c r H, Resumes s c r ∧ Own rank x true H r ∧ H ≠ [] ∧
        ∀ l rest, r = .lock l :: rest → s.owner l = none := by
  intro n
  induction n with
  | zero =>
    intro l c hn ho
    obtain ⟨r, H, hr, hown, hl⟩ := hO.holder hi ho
    refine ⟨c, r, H, hr, hown, List.ne_nil_of_mem hl, fun l' rest e => ?_⟩
    -- nothing ranks above `l`
    rw [e] at hown
    have hup := hown.1 l hl
    have hN' := hN l'
    omega
  | succ n ih =>
    intro l c hn ho
    obtain ⟨r, H, hr, hown, hl⟩ := hO.holder hi ho
    by_cases hwait : ∃ l' rest, r = .lock l' :: rest ∧ s.owner l' ≠ none
    · obtain ⟨l', rest, e, hne⟩ := hwait
      obtain ⟨c', ho'⟩ := Option.ne_none_iff_exists'.mp hne
      rw [e] at hown
      have hup := hown.1 l hl
      exact ih (by omega) ho'
    · refine ⟨c, r, H, hr, hown, List.ne_nil_of_mem hl, fun l' rest e => ?_⟩
      by_contra hne
      exact hwait ⟨l', rest, e, hne⟩

end Advance

/-! ## 3. A tick that preempts -/

/-- `n` times `x`, taken and released. -/
def brackets (x : L) : Nat → List (Op L)
  | 0 => []
  | n + 1 => .lock x :: .unlock x :: brackets x n

/-- A tick that preempts: the table is looked at `n` times, then the CPU goes to another context. -/
def tickCode (x : L) (n : Nat) : List (Op L) := brackets x n ++ [.switch, .iret]

omit [DecidableEq L] in
theorem ahead_brackets (w : Nat) (x : L) : ∀ n, ahead w (brackets x n) = 2 * n
  | 0 => rfl
  | n + 1 => by
      rw [brackets, ahead_cons, ahead_cons, ahead_brackets w x n]
      simp only [weight]
      omega

omit [DecidableEq L] in
theorem unowned_brackets {x : L} {s : State L} (h : s.owner x = none) :
    ∀ n, (brackets x n).all s.unowned = true
  | 0 => rfl
  | n + 1 => by
      rw [brackets, List.all_cons, List.all_cons, unowned_brackets h n]
      simp [State.unowned, State.free, h]

/-- Only the executing context's code is another one. -/
structure Stays (s s' : State L) : Prop where
  cur : s'.cur = s.cur
  owner : s'.owner = s.owner
  others : ∀ c, c ≠ s.cur → Slots.get s'.ctxs c = Slots.get s.ctxs c

/-- The runs of the actions in `ok` whose steps all meet the condition. -/
abbrev OrderedRun (fresh : List (Op L)) (x : L) (ok : Action L → Prop) (s : State L)
    (es : List Unit) (s' : State L) : Prop :=
  Run (step fresh) (fun s a => ok a ∧ clear x s a = true) s es s'

section Tick

variable {rank : L → Nat} {x : L} {s s' : State L} {ok : Action L → Prop}

theorem order_run {fresh : List (Op L)} (hfresh : Own rank x false [] fresh)
    (hstatic : ∀ a, ok a → Static rank x a) (hO : Order rank x s) {es : List Unit}
    (h : OrderedRun fresh x ok s es s') : Order rank x s' :=
  h.invariant hO fun _ a _ _ hO hok hs => hO.step hfresh (hstatic a hok.1) hok.2 hs

variable (fresh : List (Op L)) (hcont : ∀ next, ok (.cont next)) (w : Nat)

include hcont

/-- `x` taken and released with interrupts disabled. -/
theorem bracket_run {code : List (Op L)} (hi : s.intr = false) (ho : s.owner x = none)
    (hc : s.code = some (.lock x :: .unlock x :: code)) :
    ∃ s', OrderedRun fresh x ok s [] s' ∧ Stays s s' ∧ s'.intr = false ∧ s'.code = some code ∧
      s'.ahead w + 2 = s.ahead w := by
  have hfree : s.free x = true := free_iff.mpr ho
  let s₁ : State L := (s.setCode (.unlock x :: code)).setOwner x (some s.cur)
  have hstep₁ : step fresh s (.cont none) = some (s₁, []) := by
    rw [step_cont fresh hc rfl, State.exec, if_pos hfree]
  have hc₁ : s₁.code = some (.unlock x :: code) := code_setCode hc _
  let s₂ : State L := (s₁.setCode code).setOwner x none
  have hstep₂ : step fresh s₁ (.cont none) = some (s₂, []) := step_cont fresh hc₁ rfl
  have hrun₁ : OrderedRun fresh x ok s [] s₁ :=
    .next (.cont none) .start ⟨hcont none, by simp [clear, hc, hi]⟩ hstep₁
  refine ⟨s₂, .next (.cont none) hrun₁ ⟨hcont none, by simp [clear, hc₁]⟩ hstep₂,
    ⟨rfl, ?_, fun c hne => ?_⟩, hi, code_setCode hc₁ code, ?_⟩
  · show Function.update (Function.update s.owner x (some s.cur)) x none = s.owner
    rw [Function.update_idem, ← ho, Function.update_eq_self]
  · have h₁ : Slots.get s₁.ctxs c = Slots.get s.ctxs c := by
      show Slots.get (s.setCode _).ctxs c = _
      rw [get_setCode, if_neg (Ne.symm hne)]
    show Slots.get (s₁.setCode code).ctxs c = _
    rw [get_setCode, if_neg (show s₁.cur ≠ c from Ne.symm hne), h₁]
  · have hsum₁ : s₁.ahead w + ahead w (.lock x :: .unlock x :: code) =
        s.ahead w + ahead w (.unlock x :: code) := ahead_setCode w hc _
    have hsum₂ : s₂.ahead w + ahead w (.unlock x :: code) = s₁.ahead w + ahead w code :=
      ahead_setCode w hc₁ code
    rw [ahead_cons, ahead_cons] at hsum₁
    rw [ahead_cons] at hsum₂
    simp only [weight] at hsum₁ hsum₂
    omega

theorem brackets_run {rest : List (Op L)} (n : Nat) (hi : s.intr = false) (ho : s.owner x = none)
    (hc : s.code = some (brackets x n ++ rest)) :
    ∃ s', OrderedRun fresh x ok s [] s' ∧ Stays s s' ∧ s'.intr = false ∧ s'.code = some rest ∧
      s'.ahead w + 2 * n = s.ahead w := by
  induction n generalizing s with
  | zero => exact ⟨s, .start, ⟨rfl, rfl, fun _ _ => rfl⟩, hi, hc, rfl⟩
  | succ n ih =>
    obtain ⟨s₁, hrun₁, hstay₁, hi₁, hc₁, hahead₁⟩ := bracket_run fresh hcont w hi ho hc
    obtain ⟨s₂, hrun₂, hstay₂, hi₂, hc₂, hahead₂⟩ := ih hi₁ (by rw [hstay₁.owner]; exact ho) hc₁
    refine ⟨s₂, hrun₁.trans hrun₂, ⟨hstay₂.cur.trans hstay₁.cur, hstay₂.owner.trans hstay₁.owner,
      fun c hne => ?_⟩, hi₂, hc₂, by omega⟩
    exact (hstay₂.others c (by rw [hstay₁.cur]; exact hne)).trans (hstay₁.others c hne)

/-- **A tick hands the CPU over** to a context that was preempted, if `x` is free; as much is ahead
    of all contexts as before. -/
theorem preempt_run {n : Nat} (htick : ok (.irq (tickCode x n))) (hi : s.intr = true)
    (ho : s.owner x = none) {code r : List (Op L)} (hc : s.code = some code) {j : Nat}
    (hne : j ≠ s.cur) (hj : Slots.get s.ctxs j = some (.iret :: r)) :
    ∃ s', OrderedRun fresh x ok s [] s' ∧ s'.cur = j ∧ s'.owner = s.owner ∧ s'.code = some r ∧
      s'.intr = true ∧ s'.ahead w = s.ahead w := by
  -- the tick is delivered
  let s₁ : State L := (s.setCode (tickCode x n ++ code)).setFlag false
  have hstep₁ : step fresh s (.irq (tickCode x n)) = some (s₁, []) := by
    simp only [step, hc, hi, if_true]
    rfl
  have hclear₁ : clear x s (.irq (tickCode x n)) = true := by
    show (tickCode x n).all s.unowned = true
    rw [tickCode, List.all_append, unowned_brackets ho n]
    rfl
  have hrun₁ : OrderedRun fresh x ok s [] s₁ := .next _ .start ⟨htick, hclear₁⟩ hstep₁
  have hc₁ : s₁.code = some (brackets x n ++ (.switch :: .iret :: code)) := by
    have h : s₁.code = some (tickCode x n ++ code) := code_setCode hc _
    rw [h, tickCode, List.append_assoc]
    rfl
  -- it looks at the table
  obtain ⟨s₂, hrun₂, hstay, hi₂, hc₂, hahead₂⟩ := brackets_run (s := s₁) fresh hcont w n rfl ho hc₁
  -- it switches
  have hj₂ : Slots.get s₂.ctxs j = some (.iret :: r) := by
    rw [hstay.others j hne]
    show Slots.get (s.setCode _).ctxs j = _
    rw [get_setCode, if_neg (Ne.symm hne)]
    exact hj
  let s₃ : State L := { s₂.setCode (.iret :: code) with cur := j }
  have hstep₃ : step fresh s₂ (.cont (some j)) = some (s₃, []) :=
    step_cont fresh hc₂ (by simp [State.canGo, hj₂])
  have hc₃ : s₃.code = some (.iret :: r) := by
    show Slots.get (s₂.setCode (.iret :: code)).ctxs j = _
    rw [get_setCode, if_neg (by rw [hstay.cur]; exact Ne.symm hne)]
    exact hj₂
  -- the handler that had preempted the other context returns
  let s₄ : State L := (s₃.setCode r).setFlag true
  have hstep₄ : step fresh s₃ (.cont none) = some (s₄, []) := step_cont fresh hc₃ rfl
  have hrun₃ : OrderedRun fresh x ok s [] s₃ :=
    .next _ (hrun₁.trans hrun₂) ⟨hcont (some j), by simp [clear, hc₂]⟩ hstep₃
  refine ⟨s₄, .next _ hrun₃ ⟨hcont none, by simp [clear, hc₃]⟩ hstep₄, rfl, hstay.owner,
    code_setCode hc₃ r, rfl, ?_⟩
  have hsum₁ : s₁.ahead w + ahead w code = s.ahead w + ahead w (tickCode x n ++ code) :=
    ahead_setCode w hc _
  have hsum₃ : s₃.ahead w + ahead w (.switch :: .iret :: code) =
      s₂.ahead w + ahead w (.iret :: code) := ahead_setCode w hc₂ _
  have hsum₄ : s₄.ahead w + ahead w (.iret :: r) = s₃.ahead w + ahead w r :=
    ahead_setCode w hc₃ r
  rw [tickCode, ahead_append, ahead_append, ahead_brackets] at hsum₁
  rw [ahead_cons, ahead_cons] at hsum₃
  rw [ahead_cons] at hsum₄
  simp only [ahead_cons, weight] at hsum₁ hsum₃ hsum₄
  simp only [ahead, List.map_nil, List.sum_nil] at hsum₁ hsum₃ hsum₄ ⊢
  omega

end Tick

/-! ## 4. Every lock can be given back -/

section Release

variable {rank : L → Nat} {x : L} {ok : Action L → Prop} {fresh : List (Op L)} {w N n : Nat}

/-- **From every state that the invariant admits, ticks and the code that is already there lead to
    one in which nobody owns a lock.** -/
theorem Order.release (hfresh : Own rank x false [] fresh) (hw : ahead w fresh ≤ w)
    (hx : rank x = 0) (hN : ∀ l, rank l ≤ N) (hstatic : ∀ a, ok a → Static rank x a)
    (hcont : ∀ next, ok (.cont next)) (htick : ok (.irq (tickCode x n))) (m : Nat) {s : State L}
    (hm : s.ahead w ≤ m) (hO : Order rank x s) :
    ∃ s', OrderedRun fresh x ok s [] s' ∧ ∀ l, s'.owner l = none := by
  induction m using Nat.strongRecOn generalizing s with
  | ind m ih =>
  by_cases hall : ∀ l, s.owner l = none
  · exact ⟨s, .start, hall⟩
  obtain ⟨l, hl⟩ := not_forall.mp hall
  obtain ⟨c, ho⟩ := Option.ne_none_iff_exists'.mp hl
  -- somebody who waits for nothing executes, after as many operations as were ahead or fewer
  have key : ∃ s₁ op rest, OrderedRun fresh x ok s [] s₁ ∧ s₁.ahead w = s.ahead w ∧
      s₁.owner = s.owner ∧ s₁.code = some (op :: rest) ∧
      (∀ l, op = .lock l → s₁.owner l = none) ∧ (s₁.intr = true → op ≠ .lock x) := by
    obtain ⟨code, hc, hf⟩ := hO.front
    by_cases hpre : s.intr = true ∧ s.owner x = none
    · obtain ⟨hi, hxo⟩ := hpre
      obtain ⟨c, r, H, hr, hown, hH, hfree⟩ := hO.mover hi hN _ (Nat.le_refl _) ho
      rcases r with - | ⟨op, rest⟩
      · exact absurd hown.2 hH
      have hnx : op ≠ .lock x := by
        intro e
        rw [e] at hown
        obtain ⟨h, hh⟩ := List.exists_mem_of_ne_nil H hH
        have hup := hown.1 h hh
        omega
      have hop : ∀ l, op = .lock l → s.owner l = none := fun l e => hfree l rest (e ▸ rfl)
      rcases hr with ⟨-, hcode⟩ | ⟨hne, hcode⟩
      · exact ⟨s, op, rest, .start, rfl, rfl, hcode, hop, fun _ => hnx⟩
      · obtain ⟨s₁, hrun, -, howner, hcode₁, -, hahead⟩ :=
          preempt_run fresh hcont w htick hi hxo hc hne hcode
        exact ⟨s₁, op, rest, hrun, hahead, howner, hcode₁, by rw [howner]; exact hop, fun _ => hnx⟩
    · -- it cannot be preempted, and then it does not wait
      have hfixed : s.intr = false ∨ s.owner x = some s.cur := by
        cases hi : s.intr with
        | false => exact Or.inl rfl
        | true =>
          obtain ⟨c', hc'⟩ := Option.ne_none_iff_exists'.mp fun e => hpre ⟨hi, e⟩
          exact Or.inr (hO.mine hc' ▸ hc')
      rcases code with - | ⟨op, rest⟩
      · cases hf with
        | own H holds hown hb =>
          obtain ⟨hi, rfl⟩ := hown
          rcases hfixed with h | h
          · rw [hi] at h
            cases h
          · exact absurd ((holds.owns x).mp h) List.not_mem_nil
        | masked T H holds hi hm hf hb => exact hm.elim
      · refine ⟨s, op, rest, .start, rfl, rfl, hc, fun l e => ?_, fun hi e => ?_⟩
        · rw [e] at hc
          exact hO.lock_free hc hfixed
        · rw [e] at hc
          have hnone := hO.lock_free hc hfixed
          rw [hfixed.resolve_left (by simp [hi])] at hnone
          cases hnone
  obtain ⟨s₁, op, rest, hrun, hahead, howner, hc₁, hfree, hnx⟩ := key
  have hO₁ := order_run hfresh hstatic hO hrun
  obtain ⟨next, s₂, hstep, hclear, hless⟩ := hO₁.advance hw hc₁ hfree hnx
    ⟨l, c, by rw [howner]; exact ho⟩
  have hrun₂ : OrderedRun fresh x ok s [] s₂ := .next _ hrun ⟨hcont next, hclear⟩ hstep
  have hO₂ := order_run hfresh hstatic hO hrun₂
  obtain ⟨s₃, hrun₃, hdone⟩ := ih (s₂.ahead w) (by omega) (Nat.le_refl _) hO₂
  exact ⟨s₃, hrun₂.trans hrun₃, hdone⟩

end Release

/-! ## 5. Waiting forever -/

/-- Code that comes to a lock in `D` before it could release one of them or hand the CPU over. -/
def hopeless (D : L → Bool) : List (Op L) → Bool
  | .lock l :: r => D l || hopeless D r
  | .unlock l :: r => !D l && hopeless D r
  | .cli :: r | .sti :: r | .iret :: r | .create :: r => hopeless D r
  | _ => false

/-- **If the executing context comes to a lock in `D` in any case, all of `D` is owned, and handlers
    get no further, then nobody else ever executes and `D` stays owned.** -/
theorem doomed_run {D : L → Bool} {fresh : List (Op L)} {ok : State L → Action L → Prop}
    (hirq : ∀ s code, ok s (.irq code) → ∀ r, hopeless D r = true → hopeless D (code ++ r) = true)
    {s s' : State L} {es : List Unit} {code : List (Op L)} (hc : s.code = some code)
    (hcode : hopeless D code = true) (hD : ∀ l, D l = true → s.owner l ≠ none)
    (h : Run (step fresh) ok s es s') :
    s'.cur = s.cur ∧ ∀ l, D l = true → s'.owner l = s.owner l := by
  have hI := h.invariant (I := fun s' => s'.cur = s.cur ∧ (∃ code, s'.code = some code ∧
      hopeless D code = true) ∧ ∀ l, D l = true → s'.owner l = s.owner l)
    ⟨rfl, ⟨code, hc, hcode⟩, fun _ _ => rfl⟩ ?_
  · exact ⟨hI.1, hI.2.2⟩
  intro t a t' es' ⟨hcur, ⟨code, hc, hcode⟩, hown⟩ hok hs
  cases a with
  | call new | quit new =>
    simp only [step] at hs
    split at hs
    · rename_i hnil
      cases hc.symm.trans hnil
      cases hcode
    · cases hs
  | irq new =>
    simp only [step, hc] at hs
    split at hs
    · cases hs
      exact ⟨hcur, ⟨new ++ code, code_setCode hc _, hirq t new hok code hcode⟩, hown⟩
    · cases hs
  | cont next =>
    rcases code with - | ⟨op, rest⟩
    · cases hcode
    simp only [step, hc] at hs
    split at hs
    swap
    · cases hs
    cases hs
    cases op with
    | lock l =>
      rw [State.exec]
      split
      · rename_i hfree
        have hl : D l = false := by
          cases hDl : D l with
          | false => rfl
          | true => exact absurd (free_iff.mp hfree) (by rw [hown l hDl]; exact hD l hDl)
        refine ⟨hcur, ⟨rest, code_setCode hc rest, by simpa [hopeless, hl] using hcode⟩,
          fun l' hl' => ?_⟩
        have hne : l' ≠ l := fun e => by rw [e, hl] at hl'; cases hl'
        rw [owner_setOwner, Function.update_of_ne hne]
        exact hown l' hl'
      · exact ⟨hcur, ⟨_, hc, hcode⟩, hown⟩
    | unlock l =>
      simp only [hopeless, Bool.and_eq_true, Bool.not_eq_true'] at hcode
      refine ⟨hcur, ⟨rest, code_setCode hc rest, hcode.2⟩, fun l' hl' => ?_⟩
      have hne : l' ≠ l := fun e => by rw [e, hcode.1] at hl'; cases hl'
      rw [State.exec, owner_setOwner, Function.update_of_ne hne]
      exact hown l' hl'
    | cli | sti | iret => exact ⟨hcur, ⟨rest, code_setCode hc rest, hcode⟩, hown⟩
    | create =>
      refine ⟨hcur, ⟨rest, ?_, hcode⟩, hown⟩
      have hcode' := code_setCode hc rest
      have hne : t.cur ≠ Slots.hole (t.setCode rest).ctxs := by
        intro e
        have hhole := Slots.get_hole (t.setCode rest).ctxs
        rw [← e] at hhole
        cases hcode'.symm.trans hhole
      show Slots.get (Slots.insert (t.setCode rest).ctxs fresh) t.cur = some rest
      rw [Slots.get_insert, if_neg hne]
      exact hcode'
    | switch | leave | hlt => cases hcode

end Spin
