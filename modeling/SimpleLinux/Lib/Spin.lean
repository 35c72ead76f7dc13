/-
  File:      SimpleLinux/Lib/Spin.lean
  Subject:   Spin locks, interrupts and preemption on one core.

  A context is what it still has to execute, a list of lock, unlock and interrupt-flag operations;
  an interrupt handler runs on the stack of the context it interrupts, so its operations are put
  in front of the context's own. One context executes at a time. A lock records the context that
  owns it. A context that finds a lock owned spins; with interrupts disabled nothing can end that,
  since whoever owns the lock is the interrupted code below it or a context that is not executing.

  * `State`, `step` -- the machine; what contexts and handlers do is the caller's (`Action`);
  * `wf x` -- the discipline for one lock `x`, the one that guards the table of contexts: taken
    and released in brackets, never held across a switch;
  * `calm x` -- an interrupt-disabled stretch finds every lock other than `x` free;
  * `Inv`, `Inv.step`, `Inv.lock_free` -- with both, nobody waits with interrupts disabled.
-/
import SimpleLinux.Lib.Slots
import SimpleLinux.Lib.Runs
import Mathlib.Logic.Function.Basic

namespace Spin

/-! ## 1. The machine -/

/-- One operation of a context. -/
inductive Op (L : Type) where
  | lock (l : L)
  | unlock (l : L)
  | cli
  | sti
  /-- a new context enters the table -/
  | create
  /-- the CPU goes to another context; the rest is executed when this one is resumed -/
  | switch
  /-- this context ends: the CPU goes to another one, or idles -/
  | leave
  | iret
  /-- the idle loop -/
  | hlt
  deriving DecidableEq, Repr

/-- The contexts, the one that executes, the interrupt flag, and who owns each lock. -/
structure State (L : Type) where
  ctxs : List (Option (List (Op L)))
  cur : Nat
  intr : Bool
  owner : L → Option Nat

/-- What can happen next. -/
inductive Action (L : Type) where
  /-- own code calls something -/
  | call (code : List (Op L))
  /-- own code is over: interrupts are disabled and the context ends -/
  | quit (code : List (Op L))
  /-- an interrupt is delivered -/
  | irq (code : List (Op L))
  /-- the next operation; `next` is the context chosen if it hands the CPU over -/
  | cont (next : Option Nat)
  deriving DecidableEq, Repr

variable {L : Type}

/-- What the executing context still has to do. -/
def State.code (s : State L) : Option (List (Op L)) := Slots.get s.ctxs s.cur

def State.setCode (s : State L) (code : List (Op L)) : State L :=
  { s with ctxs := Slots.update s.ctxs s.cur fun _ => code }

def State.setFlag (s : State L) (i : Bool) : State L := { s with intr := i }

/-- Nobody owns the lock. -/
def State.free (s : State L) (l : L) : Bool := (s.owner l).isNone

theorem get_setCode (s : State L) (code : List (Op L)) (c : Nat) :
    Slots.get (s.setCode code).ctxs c =
      if s.cur = c then (Slots.get s.ctxs c).map fun _ => code else Slots.get s.ctxs c :=
  Slots.get_update _ _ _ _

theorem code_setCode {s : State L} {rest : List (Op L)} (h : s.code = some rest)
    (code : List (Op L)) : (s.setCode code).code = some code := by
  unfold State.code at h ⊢
  rw [get_setCode, show (s.setCode code).cur = s.cur from rfl, if_pos rfl, h]
  rfl

variable [DecidableEq L]

def State.setOwner (s : State L) (l : L) (o : Option Nat) : State L :=
  { s with owner := Function.update s.owner l o }

theorem owner_setOwner (s : State L) (l : L) (o : Option Nat) :
    (s.setOwner l o).owner = Function.update s.owner l o := rfl

theorem free_setOwner (s : State L) (l : L) (o : Option Nat) :
    (s.setOwner l o).free = Function.update s.free l o.isNone := by
  funext l'
  by_cases e : l' = l
  · subst e; simp [State.free, State.setOwner]
  · simp [State.free, State.setOwner, e]

/-- One operation of the executing context, `rest` being what follows it. -/
def State.exec (fresh : List (Op L)) (s : State L) (rest : List (Op L)) (next : Option Nat) :
    Op L → State L
  | .lock l => if s.free l then (s.setCode rest).setOwner l (some s.cur) else s
  | .unlock l => (s.setCode rest).setOwner l none
  | .cli => (s.setCode rest).setFlag false
  | .sti | .iret => (s.setCode rest).setFlag true
  | .create => { s.setCode rest with ctxs := Slots.insert (s.setCode rest).ctxs fresh }
  | .switch =>
    match next with
    | some j => { s.setCode rest with cur := j }
    | none => s.setCode rest
  | .leave =>
    match next with
    | some j => { s with ctxs := Slots.clear s.ctxs s.cur, cur := j }
    | none => (s.setCode [.hlt]).setFlag true
  | .hlt => s

/-- The CPU is handed over to a context that is there, and not by one that ends to itself. -/
def State.canGo (s : State L) (op : Op L) (next : Option Nat) : Bool :=
  match op, next with
  | .switch, some j => (Slots.get s.ctxs j).isSome
  | .leave, some j => j != s.cur && (Slots.get s.ctxs j).isSome
  | _, _ => true

/-- **One step.** -/
def step (fresh : List (Op L)) (s : State L) : Action L → Option (State L × List Unit)
  | .call code => if s.code = some [] then some (s.setCode code, []) else none
  | .quit code => if s.code = some [] then some ((s.setCode code).setFlag false, []) else none
  | .irq code =>
    match s.code with
    | some rest => if s.intr then some ((s.setCode (code ++ rest)).setFlag false, []) else none
    | none => none
  | .cont next =>
    match s.code with
    | some (op :: rest) => if s.canGo op next then some (s.exec fresh rest next op, []) else none
    | _ => none

/-- With interrupts disabled, the executing context waits for a lock. -/
def State.Stuck (s : State L) : Prop :=
  s.intr = false ∧ ∃ l rest, s.code = some (.lock l :: rest) ∧ s.owner l ≠ none

/-- The same, decided. -/
def State.stuck (s : State L) : Bool :=
  !s.intr && match s.code with
    | some (.lock l :: _) => !s.free l
    | _ => false

omit [DecidableEq L] in
theorem stuck_iff {s : State L} : s.stuck = true ↔ s.Stuck := by
  unfold State.stuck State.Stuck
  rw [Bool.and_eq_true, Bool.not_eq_true']
  refine and_congr_right fun _ => ?_
  split
  · rename_i l rest hc
    rw [Bool.not_eq_true', State.free, Option.isNone_eq_false_iff, ← Option.ne_none_iff_isSome]
    exact ⟨fun h => ⟨l, rest, hc, h⟩, fun ⟨l', r, e, h⟩ => by rw [hc] at e; cases e; exact h⟩
  · rename_i hn
    exact ⟨fun h => (by cases h), fun ⟨l, r, e, _⟩ => absurd e (hn l r)⟩

/-- Interrupts disabled, one lock to take before one that is owned: the context gets stuck. -/
theorem stuck_of_locks (fresh : List (Op L)) {rest : List (Op L)} {s : State L} {a b : L}
    (hi : s.intr = false)
    (hc : s.code = some (.lock a :: .lock b :: rest)) (hne : b ≠ a) (hb : s.owner b ≠ none) :
    s.Stuck ∨ ∃ s', step fresh s (.cont none) = some (s', []) ∧ s'.Stuck := by
  by_cases ha : s.free a = true
  · refine Or.inr ⟨(s.setCode (.lock b :: rest)).setOwner a (some s.cur), ?_, hi, b, rest,
      code_setCode hc _, ?_⟩
    · simp only [step, hc, State.canGo, if_true, State.exec, ha]
    · rw [owner_setOwner, Function.update_of_ne hne]
      exact hb
  · refine Or.inl ⟨hi, a, _, hc, fun e => ha ?_⟩
    rw [State.free, e]
    rfl

/-! ## 2. The discipline -/

/-- **The discipline for `x`**: `i` is the interrupt flag, `h` whether the context holds `x`. The
    lock is taken and released in brackets, and is not held at a switch, at the end, or in own
    code outside calls. -/
def wf (x : L) : Bool → Bool → List (Op L) → Bool
  | i, h, [] => i && !h
  | i, h, .lock l :: r => if l = x then !h && wf x i true r else wf x i h r
  | i, h, .unlock l :: r => if l = x then h && wf x i false r else wf x i h r
  | _, h, .cli :: r => wf x false h r
  | _, h, .sti :: r | _, h, .iret :: r => wf x true h r
  | i, h, .create :: r => wf x i h r
  | i, h, .switch :: r => !i && !h && wf x false false r
  | i, h, .leave :: _ => !i && !h
  | i, h, .hlt :: _ => i && !h

/-- **Interrupt-disabled stretches are calm**: every lock other than `x` that one takes is free,
    `free` saying which are. Of a stretch that is entered later nothing is known to be free. -/
def calm (x : L) : Bool → (L → Bool) → List (Op L) → Bool
  | _, _, [] | _, _, .leave :: _ | _, _, .hlt :: _ => true
  | i, free, .lock l :: r =>
    (i || decide (l = x) || free l) && calm x i (Function.update free l false) r
  | i, free, .unlock l :: r => calm x i (Function.update free l true) r
  | _, _, .cli :: r | _, _, .switch :: r => calm x false (fun _ => false) r
  | _, _, .sti :: r | _, _, .iret :: r => calm x true (fun _ => false) r
  | i, free, .create :: r => calm x i free r

section Calm

variable {x : L}

/-- More free locks do no harm. -/
theorem calm_mono : ∀ {code : List (Op L)} {i : Bool} {free free' : L → Bool},
    (∀ l, free l = true → free' l = true) → calm x i free code = true →
      calm x i free' code = true
  | [], _, _, _, _, _ | .leave :: _, _, _, _, _, _ | .hlt :: _, _, _, _, _, _ => rfl
  | .lock l :: r, i, free, free', hf, h => by
      simp only [calm, Bool.and_eq_true, Bool.or_eq_true, decide_eq_true_eq] at h ⊢
      refine ⟨h.1.imp_right (hf l), calm_mono (fun l' hl' => ?_) h.2⟩
      by_cases e : l' = l
      · subst e
        rw [Function.update_self] at hl'
        cases hl'
      · rw [Function.update_of_ne e] at hl' ⊢
        exact hf l' hl'
  | .unlock l :: r, i, free, free', hf, h => by
      simp only [calm] at h ⊢
      refine calm_mono (fun l' hl' => ?_) h
      by_cases e : l' = l
      · subst e
        rw [Function.update_self]
      · rw [Function.update_of_ne e] at hl' ⊢
        exact hf l' hl'
  | .cli :: _, _, _, _, _, h | .switch :: _, _, _, _, _, h | .sti :: _, _, _, _, _, h
  | .iret :: _, _, _, _, _, h => h
  | .create :: r, i, free, free', hf, h => by
      simp only [calm] at h ⊢
      exact calm_mono hf h

/-- With interrupts enabled it does not matter what is free. -/
theorem calm_enabled : ∀ {code : List (Op L)} {free free' : L → Bool},
    calm x true free code = true → calm x true free' code = true
  | [], _, _, _ | .leave :: _, _, _, _ | .hlt :: _, _, _, _ => rfl
  | .lock l :: r, free, free', h => by
      simp only [calm, Bool.true_or, Bool.true_and] at h ⊢
      exact calm_enabled h
  | .unlock l :: r, free, free', h => by
      simp only [calm] at h ⊢
      exact calm_enabled h
  | .cli :: _, _, _, h | .switch :: _, _, _, h | .sti :: _, _, _, h | .iret :: _, _, _, h => h
  | .create :: r, free, free', h => by
      simp only [calm] at h ⊢
      exact calm_enabled h

/-- What is calm with nothing free is calm. -/
theorem calm_of_none {code : List (Op L)} {i : Bool} {free : L → Bool}
    (h : calm x i (fun _ => false) code = true) : calm x i free code = true :=
  calm_mono (fun _ hl => by cases hl) h

end Calm

/-! ## 3. The invariant -/

/-- The context holds `x`. -/
def State.holds (s : State L) (x : L) (c : Nat) : Bool := decide (s.owner x = some c)

/-- A context that is not executing: it will be resumed with interrupts disabled, not holding `x`,
    and whatever the others hold then. -/
def Suspended (x : L) (code : List (Op L)) : Prop :=
  wf x false false code = true ∧ calm x false (fun _ => false) code = true

/-- **The invariant.** -/
structure Inv (x : L) (s : State L) : Prop where
  wf : ∀ {code : List (Op L)}, s.code = some code → wf x s.intr (s.holds x s.cur) code = true
  calm : ∀ {code : List (Op L)}, s.code = some code → calm x s.intr s.free code = true
  others : ∀ {c : Nat} {code : List (Op L)}, c ≠ s.cur → Slots.get s.ctxs c = some code →
    Suspended x code
  mine : ∀ {c : Nat}, s.owner x = some c → c = s.cur

/-- What an action must satisfy: calls keep the discipline, and what starts with interrupts
    disabled is calm in the state in which it starts. -/
def Fits (x : L) (s : State L) : Action L → Prop
  | .call code => Spin.wf x true false code = true ∧ Spin.calm x true (fun _ => false) code = true
  | .quit code => Spin.wf x false false code = true ∧ Spin.calm x false s.free code = true
  | .irq code => ∀ rest, Spin.wf x true (s.holds x s.cur) rest = true →
      Spin.calm x true (fun _ => false) rest = true →
      Spin.wf x false (s.holds x s.cur) (code ++ rest) = true ∧
        Spin.calm x false s.free (code ++ rest) = true
  | .cont _ => True

section Inv

variable {x : L} {s s' : State L} {code rest : List (Op L)}

omit [DecidableEq L] in
theorem holds_of_mine (hm : ∀ {c}, s.owner x = some c → c = s.cur) (h : s.holds x s.cur = false) :
    s.owner x = none := by
  cases ho : s.owner x with
  | none => rfl
  | some c =>
    have e := hm ho
    simp [State.holds, ho, e] at h

/-- A step of the executing context that leaves the others where they are. -/
theorem Inv.onCur (hI : Inv x s) (hc : s.code = some rest)
    (hctx : s'.ctxs = (s.setCode code).ctxs) (hcur : s'.cur = s.cur)
    (hmine : ∀ c, s'.owner x = some c → c = s.cur)
    (hwf : Spin.wf x s'.intr (s'.holds x s.cur) code = true)
    (hcalm : Spin.calm x s'.intr s'.free code = true) : Inv x s' := by
  have hcode : s'.code = some code := by
    unfold State.code
    rw [hctx, hcur]
    exact code_setCode hc code
  refine ⟨fun h => ?_, fun h => ?_, fun {c code'} hne h => ?_, fun {c} h => ?_⟩
  · rw [hcode] at h
    cases h
    rw [hcur]
    exact hwf
  · rw [hcode] at h
    cases h
    exact hcalm
  · rw [hcur] at hne
    rw [hctx, get_setCode, if_neg (Ne.symm hne)] at h
    exact hI.others hne h
  · rw [hcur]
    exact hmine c h

/-- **Nobody waits with interrupts disabled.** -/
theorem Inv.lock_free (hI : Inv x s) (hi : s.intr = false) {l : L}
    (hc : s.code = some (.lock l :: rest)) : s.owner l = none := by
  have hw := hI.wf hc
  have hk := hI.calm hc
  by_cases e : l = x
  · subst e
    refine holds_of_mine hI.mine ?_
    simp only [Spin.wf, if_true, Bool.and_eq_true, Bool.not_eq_true'] at hw
    exact hw.1
  · simp only [Spin.calm, hi, Bool.false_or, decide_eq_false e, Bool.and_eq_true] at hk
    exact Option.isNone_iff_eq_none.mp hk.1

theorem Inv.not_stuck (hI : Inv x s) : ¬ s.Stuck := by
  intro ⟨hi, l, rest, hc, ho⟩
  exact ho (hI.lock_free hi hc)

/-- The lock `l` changes hands: to the executing context, or to nobody. -/
theorem Inv.setOwner (hI : Inv x s) {op : Op L} (hc : s.code = some (op :: rest)) {l : L}
    {o : Option Nat} (ho : ∀ c, o = some c → c = s.cur)
    (hw : Spin.wf x s.intr (if l = x then o.isSome else s.holds x s.cur) rest = true)
    (hk : Spin.calm x s.intr (Function.update s.free l o.isNone) rest = true) :
    Inv x ((s.setCode rest).setOwner l o) := by
  refine hI.onCur hc rfl rfl (fun c hcx => ?_) ?_ ?_
  · by_cases e : x = l
    · subst e
      rw [owner_setOwner, Function.update_self] at hcx
      exact ho c hcx
    · rw [owner_setOwner, Function.update_of_ne e] at hcx
      exact hI.mine hcx
  · have hh : ((s.setCode rest).setOwner l o).holds x s.cur =
        if l = x then o.isSome else s.holds x s.cur := by
      unfold State.holds
      rw [owner_setOwner]
      by_cases e : l = x
      · subst e
        rw [Function.update_self, if_pos rfl]
        cases o with
        | none => simp
        | some c => simp [ho c rfl]
      · rw [Function.update_of_ne (Ne.symm e), if_neg e]
        rfl
    rw [hh]
    exact hw
  · rw [free_setOwner]
    exact hk

theorem Inv.lock (hI : Inv x s) {l : L} (hc : s.code = some (.lock l :: rest)) :
    Inv x ((s.setCode rest).setOwner l (some s.cur)) := by
  have hw := hI.wf hc
  have hk := hI.calm hc
  refine hI.setOwner hc (fun c e => (Option.some.inj e).symm) ?_ ?_
  · unfold Spin.wf at hw
    split at hw
    · rename_i e
      rw [if_pos e]
      exact (Bool.and_eq_true_iff.mp hw).2
    · rename_i e
      rw [if_neg e]
      exact hw
  · exact (Bool.and_eq_true_iff.mp hk).2

theorem Inv.unlock (hI : Inv x s) {l : L} (hc : s.code = some (.unlock l :: rest)) :
    Inv x ((s.setCode rest).setOwner l none) := by
  have hw := hI.wf hc
  refine hI.setOwner hc (fun c e => by cases e) ?_ (hI.calm hc)
  unfold Spin.wf at hw
  split at hw
  · rename_i e
    rw [if_pos e]
    exact (Bool.and_eq_true_iff.mp hw).2
  · rename_i e
    rw [if_neg e]
    exact hw

/-- Changing the flag: what comes next was calm with nothing free. -/
theorem Inv.setFlag (hI : Inv x s) {op : Op L} {b : Bool} (hc : s.code = some (op :: rest))
    (hw : ∀ i h, Spin.wf x i h (op :: rest) = Spin.wf x b h rest)
    (hk : ∀ i f, Spin.calm x i f (op :: rest) = Spin.calm x b (fun _ => false) rest) :
    Inv x ((s.setCode rest).setFlag b) := by
  refine hI.onCur hc rfl rfl (fun c h => hI.mine h) ?_ ?_
  · have h := hI.wf hc
    rw [hw] at h
    exact h
  · have h := hI.calm hc
    rw [hk] at h
    exact calm_of_none h

/-- The CPU goes to a suspended context; the one that is left is suspended or gone. -/
theorem inv_of_suspended (ho : s.owner x = none) (hi : s.intr = false)
    (hctx : ∀ c code, Slots.get s.ctxs c = some code → Suspended x code) : Inv x s := by
  have hh : s.holds x s.cur = false := by simp [State.holds, ho]
  refine ⟨fun h => ?_, fun h => ?_, fun _ h => hctx _ _ h, fun h => ?_⟩
  · rw [hi, hh]
    exact (hctx _ _ h).1
  · rw [hi]
    exact calm_of_none (hctx _ _ h).2
  · rw [ho] at h
    cases h

theorem Inv.create (hI : Inv x s) {fresh : List (Op L)} (hf : Suspended x fresh)
    (hc : s.code = some (.create :: rest)) :
    Inv x { s.setCode rest with ctxs := Slots.insert (s.setCode rest).ctxs fresh } := by
  have hw := hI.wf hc
  have hk := hI.calm hc
  have hI' : Inv x (s.setCode rest) := hI.onCur hc rfl rfl (fun c h => hI.mine h) hw hk
  have hhole := Slots.get_hole (s.setCode rest).ctxs
  have hget := Slots.get_insert (s.setCode rest).ctxs fresh
  have hcur : (s.setCode rest).cur ≠ Slots.hole (s.setCode rest).ctxs := by
    intro e
    have := code_setCode hc rest
    rw [State.code, e, hhole] at this
    cases this
  refine ⟨fun h => ?_, fun h => ?_, fun {c code} hne h => ?_, fun h => hI'.mine h⟩
  · rw [State.code, hget, if_neg hcur] at h
    exact hI'.wf h
  · rw [State.code, hget, if_neg hcur] at h
    exact hI'.calm h
  · rw [hget] at h
    split at h
    · cases h
      exact hf
    · exact hI'.others hne h

theorem Inv.switch (hI : Inv x s) (hc : s.code = some (.switch :: rest)) (next : Option Nat) :
    Inv x (match next with
      | some j => { s.setCode rest with cur := j }
      | none => s.setCode rest) := by
  have hw := hI.wf hc
  simp only [Spin.wf, Bool.and_eq_true, Bool.not_eq_true'] at hw
  obtain ⟨⟨hi, hh⟩, hwr⟩ := hw
  have ho := holds_of_mine hI.mine hh
  have hk := hI.calm hc
  have hsus : ∀ c code, Slots.get (s.setCode rest).ctxs c = some code → Suspended x code := by
    intro c code h
    rw [get_setCode] at h
    split at h
    · obtain ⟨_, -, e⟩ := Option.map_eq_some_iff.mp h
      cases e
      exact ⟨hwr, hk⟩
    · rename_i hne
      exact hI.others (Ne.symm hne) h
  cases next with
  | none => exact inv_of_suspended ho hi hsus
  | some j => exact inv_of_suspended ho hi hsus

theorem Inv.leave (hI : Inv x s) (hc : s.code = some (.leave :: rest)) (next : Option Nat) :
    Inv x (match next with
      | some j => { s with ctxs := Slots.clear s.ctxs s.cur, cur := j }
      | none => (s.setCode [.hlt]).setFlag true) := by
  have hw := hI.wf hc
  simp only [Spin.wf, Bool.and_eq_true, Bool.not_eq_true'] at hw
  have ho := holds_of_mine hI.mine hw.2
  cases next with
  | none =>
    refine hI.onCur hc rfl rfl (fun c h => hI.mine h) ?_ rfl
    rw [show ((s.setCode [.hlt]).setFlag true).holds x s.cur = false from hw.2]
    rfl
  | some j =>
    refine inv_of_suspended ho hw.1 fun c code h => ?_
    rw [Slots.get_clear] at h
    split at h
    · cases h
    · rename_i hne
      exact hI.others (Ne.symm hne) h

theorem Inv.exec {fresh : List (Op L)} (hf : Suspended x fresh) (hI : Inv x s) {op : Op L}
    (hc : s.code = some (op :: rest)) (next : Option Nat) : Inv x (s.exec fresh rest next op) := by
  cases op with
  | lock l =>
    simp only [State.exec]
    split
    · exact hI.lock hc
    · exact hI
  | unlock l => exact hI.unlock hc
  | cli => exact hI.setFlag hc (fun _ _ => rfl) (fun _ _ => rfl)
  | sti => exact hI.setFlag hc (fun _ _ => rfl) (fun _ _ => rfl)
  | iret => exact hI.setFlag hc (fun _ _ => rfl) (fun _ _ => rfl)
  | create => exact hI.create hf hc
  | switch => exact hI.switch hc next
  | leave => exact hI.leave hc next
  | hlt => exact hI

/-- **Every fitting action keeps the invariant.** -/
theorem Inv.step {fresh : List (Op L)} (hf : Suspended x fresh) (hI : Inv x s) {a : Action L}
    (ha : Fits x s a) {es : List Unit} (h : Spin.step fresh s a = some (s', es)) : Inv x s' := by
  cases a with
  | call code =>
    simp only [Spin.step] at h
    split at h
    · rename_i hc
      cases h
      -- own code outside calls: interrupts enabled, `x` not held
      have hw := hI.wf hc
      simp only [Spin.wf, Bool.and_eq_true, Bool.not_eq_true'] at hw
      refine hI.onCur hc rfl rfl (fun c h => hI.mine h) ?_ ?_
      · rw [show (s.setCode code).intr = true from hw.1,
          show (s.setCode code).holds x s.cur = false from hw.2]
        exact ha.1
      · rw [show (s.setCode code).intr = true from hw.1]
        exact calm_enabled ha.2
    · cases h
  | quit code =>
    simp only [Spin.step] at h
    split at h
    · rename_i hc
      cases h
      have hw := hI.wf hc
      simp only [Spin.wf, Bool.and_eq_true, Bool.not_eq_true'] at hw
      refine hI.onCur hc rfl rfl (fun c h => hI.mine h) ?_ ha.2
      rw [show ((s.setCode code).setFlag false).holds x s.cur = false from hw.2]
      exact ha.1
    · cases h
  | irq code =>
    simp only [Spin.step] at h
    split at h
    · rename_i rest hc
      split at h
      · rename_i hi
        cases h
        have hw := hI.wf hc
        have hk := hI.calm hc
        rw [hi] at hw hk
        obtain ⟨h1, h2⟩ := ha rest hw (calm_enabled hk)
        exact hI.onCur hc rfl rfl (fun c h => hI.mine h) h1 h2
      · cases h
    · cases h
  | cont next =>
    simp only [Spin.step] at h
    split at h
    · rename_i op rest hc
      split at h
      · cases h
        exact hI.exec hf hc next
      · cases h
    · cases h

end Inv

end Spin
