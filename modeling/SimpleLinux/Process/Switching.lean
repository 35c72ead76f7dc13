/-
  File:      SimpleLinux/Process/Switching.lean
  Subject:   Context switching is transparent: any number of tasks, any sequence of switches.

  The world is one CPU and the memory of the tasks. The context that runs does what it likes to the
  registers and to memory, but leaves the memory of the other tasks alone; tasks are created and
  exit, the table of slots may move; and now and then `__switch` is called. Nothing is assumed about
  who is switched to.

  * `World`, `Act`, `step`, `Fair` -- the world, its steps, and what each leaves alone;
  * `Event`, `Life`, `life` -- what a slot's task has done: where its stack is, its last call of
    `__switch`;
  * `Suspended`, `Tracked` -- every task that does not run is saved in its own memory, as it called;
  * `context_switch_transparent` -- so it comes back as it called, or enters the trampoline; and
    `schedule()` returns with the caller's interrupt flag.
-/
import SimpleLinux.Process.Context
import SimpleLinux.Process.InterruptFlag

namespace SimpleLinux.Switch

open X86 Rust Runs

/-! ## 1. The world -/

structure World where
  cpu : Cpu
  /-- the slot of the task that runs; `none` is the boot context, or a task that has exited -/
  current : Option Nat
  homes : Nat → Option Home

inductive Act
  /-- own code of the context that runs, and the CPU that it leaves -/
  | own (c : Cpu)
  /-- `spawn`: a task for slot `i` -/
  | spawn (i : Nat) (h : Home)
  /-- the table of slots has grown and moved -/
  | move (homes : Nat → Option Home) (m : Mem)
  /-- `exit_current` gives back the slot, with the stack -/
  | exit
  /-- `__switch` to slot `i`, with the return address of the call -/
  | switch (i : Nat) (next : Word)

inductive Event
  | spawned (i : Nat) (stack : Word)
  | exited (i : Nat)
  /-- `__switch` is called, in state `c`, with the return address as its `rip` -/
  | called (i : Option Nat) (c : Cpu)
  /-- `__switch` has returned, in state `c` -/
  | resumed (i : Nat) (c : Cpu)

section Step

variable (k : Image)

/-- `ctx_ptr(current)`. -/
def World.ctxPtr (w : World) : Option Word :=
  match w.current with
  | none => some k.bootCtx
  | some i => (w.homes i).map Home.ctx

def step (w : World) : Act → Option (World × List Event)
  | .own c => some ({ w with cpu := c }, [])
  | .spawn i h =>
    match KernelStack.initialContext k w.cpu.mem h.stack.toNat with
    | .ok (m, rsp) =>
      some ({ w with
        cpu := w.cpu.withMem (m.write h.ctx rsp)
        homes := Function.update w.homes i (some h) }, [.spawned i h.stack])
    | .error _ => none
  | .move homes m => some ({ w with cpu := w.cpu.withMem m, homes }, [])
  | .exit =>
    match w.current with
    | some i =>
      some ({ w with current := none, homes := Function.update w.homes i none }, [.exited i])
    | none => none
  | .switch i next =>
    match w.ctxPtr k, w.homes i with
    | some old, some h =>
      let c := switched k w.cpu old h.ctx next
      some ({ w with cpu := c, current := some i },
        [.called w.current (w.cpu.goto next), .resumed i c])
    | _, _ => none

/-- The world with a new task, its first frame on its stack. -/
def World.add (w : World) (i : Nat) (h : Home) : World :=
  let f := entryFrame k h.stack
  { w with
    cpu := w.cpu.withMem ((w.cpu.mem.stack f.rsp f.words).write h.ctx (slot f.rsp 7))
    homes := Function.update w.homes i (some h) }

theorem step_spawn (w : World) (i : Nat) (h : Home) :
    step k w (.spawn i h) = some (w.add k i h, [.spawned i h.stack]) := by
  rw [step, initialContext_eq h.fits]
  rfl

/-- No two tasks share memory. -/
def Separate (homes : Nat → Option Home) : Prop :=
  ∀ i j h h', homes i = some h → homes j = some h' → i ≠ j → ∀ a, h.Owns a → ¬ h'.Owns a

/-- The words that the call of `__switch` pushes. -/
def World.Pushes (w : World) (a : Word) : Prop := Within (slot w.cpu.rsp 7) 56 a

/-- **What each step leaves alone.** Own code leaves the other tasks' memory, and a call of
    `__switch` pushes to the stack of its task; a new task gets memory of its own; a table that
    moves takes the `TaskContext`s along. -/
def Fair (w : World) : Act → Prop
  | .own c => ∀ j h, w.homes j = some h → w.current ≠ some j → ∀ a, h.Owns a → c.mem a = w.cpu.mem a
  | .spawn i h => w.homes i = none ∧ ∀ j h', w.homes j = some h' → ∀ a, h.Owns a → ¬ h'.Owns a
  | .move homes m => Separate homes ∧ ∀ j h', homes j = some h' → ∃ h, w.homes j = some h ∧
      h'.stack = h.stack ∧ (w.current ≠ some j → m.read h'.ctx = w.cpu.mem.read h.ctx ∧
        ∀ a, Within h.stack kernelStackSize a → m a = w.cpu.mem a)
  | .exit => True
  | .switch _ _ =>
    match w.current with
    | some j => ∀ h, w.homes j = some h → ∀ a, w.Pushes a → Within h.stack kernelStackSize a
    | none => ∀ j h, w.homes j = some h → ∀ a, h.Owns a → ¬ w.Pushes a ∧ ¬ Within k.bootCtx 8 a

end Step

/-! ## 2. What a task has done -/

/-- The stack of a task, and the state of its last call of `__switch`, if it has made one. -/
structure Life where
  stack : Word
  call : Option Cpu

def note (i : Nat) (l : Option Life) : Event → Option Life
  | .spawned j stack => if j = i then some ⟨stack, none⟩ else l
  | .exited j => if j = i then none else l
  | .called j c => if j = some i then l.map fun l => { l with call := some c } else l
  | .resumed _ _ => l

def life (i : Nat) (es : List Event) : Option Life := es.foldl (note i) none

theorem life_append (i : Nat) (es : List Event) (e : Event) :
    life i (es ++ [e]) = note i (life i es) e := by
  rw [life, List.foldl_append]
  rfl

section Runs

variable (k : Image)

/-- The registers with which the task is to go on. -/
def Life.frame (l : Life) : Frame :=
  match l.call with
  | some c => Switch.frame c
  | none => entryFrame k l.stack

/-- **A task that does not run**: its frame is saved in its memory, and the rest of its stack is as
    it was at the call. -/
structure Suspended (m : Mem) (h : Home) (l : Life) : Prop where
  holds : Holds m h (l.frame k)
  kept : ∀ c, l.call = some c → ∀ a, Within h.stack kernelStackSize a →
    ¬ Within (slot c.rsp 7) 56 a → m a = c.mem a

variable {k} {m m' : Mem} {h h' : Home} {l : Life}

theorem Suspended.congr (hs : Suspended k m h l) (hm : ∀ a, h.Owns a → m' a = m a) :
    Suspended k m' h l where
  holds := hs.holds.congr hm
  kept c hc a ha hout := (hm a (.inl ha)).trans (hs.kept c hc a ha hout)

/-- The `TaskContext` has moved. -/
theorem Suspended.move (hs : Suspended k m h l) (hstack : h'.stack = h.stack)
    (hctx : m'.read h'.ctx = m.read h.ctx)
    (hm : ∀ a, Within h.stack kernelStackSize a → m' a = m a) : Suspended k m' h' l := by
  refine ⟨⟨hctx.trans hs.holds.ctx, ?_, fun hw => ?_⟩, fun c hc a ha hout => ?_⟩
  · rw [hstack]
    exact hs.holds.inside
  · rw [← hs.holds.words hw]
    exact read_congr fun a ha => hm a (Frame.word_inside hs.holds.inside hw ha)
  · rw [hstack] at ha
    exact (hm a ha).trans (hs.kept c hc a ha hout)

/-- A new task waits to enter the trampoline. -/
theorem suspended_new (k : Image) (m : Mem) (h : Home) :
    Suspended k ((m.stack (entryFrame k h.stack).rsp (entryFrame k h.stack).words).write h.ctx
      (slot (entryFrame k h.stack).rsp 7)) h ⟨h.stack, none⟩ where
  holds := holds_saved m (entryFrame_inside h.fits k)
  kept _ hc := nomatch hc

/-- A caller of `__switch` waits to return. -/
theorem suspended_caller (k : Image) (c : Cpu) (h : Home) (next : Word) (stack : Word)
    (hin : ∀ a, Within (slot c.rsp 7) 56 a → Within h.stack kernelStackSize a) :
    Suspended k (saving c h.ctx next) h ⟨stack, some (c.goto next)⟩ where
  holds := holds_saved (f := frame (c.goto next)) c.mem hin
  kept c' hc a ha hout := by
    cases hc
    exact saved_outside c.mem h.ctx (frame (c.goto next)) hout (h.apart a ha)

/-! ## 3. Runs -/

/-- **Every task is accounted for**: no two share memory, and those that do not run are suspended as
    the events say. -/
structure Tracked (k : Image) (es : List Event) (w : World) : Prop where
  separate : Separate w.homes
  lives : ∀ i h, w.homes i = some h → ∃ l, life i es = some l ∧ l.stack = h.stack ∧
    (w.current ≠ some i → Suspended k w.cpu.mem h l)

variable {es : List Event} {w : World}

theorem Tracked.own (hT : Tracked k es w) {c : Cpu} (hf : Fair k w (.own c)) :
    Tracked k es { w with cpu := c } := by
  refine ⟨hT.separate, fun i h hi => ?_⟩
  obtain ⟨l, hl, hstack, hs⟩ := hT.lives i h hi
  exact ⟨l, hl, hstack, fun hcur => (hs hcur).congr (hf i h hi hcur)⟩

theorem Tracked.move (hT : Tracked k es w) {homes : Nat → Option Home} {m : Mem}
    (hf : Fair k w (.move homes m)) :
    Tracked k es { w with cpu := w.cpu.withMem m, homes } := by
  refine ⟨hf.1, fun i h' hi => ?_⟩
  obtain ⟨h, hi', hstack', hmoved⟩ := hf.2 i h' hi
  obtain ⟨l, hl, hstack, hs⟩ := hT.lives i h hi'
  exact ⟨l, hl, hstack.trans hstack'.symm, fun hcur =>
    (hs hcur).move hstack' (hmoved hcur).1 (hmoved hcur).2⟩

/-- A slot's task is the new one, or was there before. -/
theorem update_some {homes : Nat → Option Home} {i j : Nat} {v : Option Home}
    (h : Function.update homes i v j = some h') :
    j = i ∧ v = some h' ∨ j ≠ i ∧ homes j = some h' := by
  by_cases hji : j = i
  · subst hji
    rw [Function.update_self] at h
    exact .inl ⟨rfl, h⟩
  · rw [Function.update_of_ne hji] at h
    exact .inr ⟨hji, h⟩

theorem Separate.add {homes : Nat → Option Home} {i : Nat} (hsep : Separate homes)
    (hfree : ∀ j h', homes j = some h' → ∀ a, h.Owns a → ¬ h'.Owns a) :
    Separate (Function.update homes i (some h)) := by
  intro p q h₁ h₂ hp hq hne a h₁a h₂a
  rcases update_some hp with ⟨rfl, hnew⟩ | ⟨-, hp'⟩
  · cases hnew
    rcases update_some hq with ⟨rfl, -⟩ | ⟨-, hq'⟩
    · exact hne rfl
    · exact hfree q h₂ hq' a h₁a h₂a
  · rcases update_some hq with ⟨rfl, hnew⟩ | ⟨-, hq'⟩
    · cases hnew
      exact hfree p h₁ hp' a h₂a h₁a
    · exact hsep p q h₁ h₂ hp' hq' hne a h₁a h₂a

theorem Tracked.spawn (hT : Tracked k es w) {i : Nat} {h : Home} (hf : Fair k w (.spawn i h)) :
    Tracked k (es ++ [.spawned i h.stack]) (w.add k i h) := by
  obtain ⟨-, hfree⟩ := hf
  refine ⟨hT.separate.add hfree, fun j h' hj => ?_⟩
  rcases update_some hj with ⟨rfl, he⟩ | ⟨hji, hj⟩
  · cases he
    exact ⟨⟨h.stack, none⟩, (life_append ..).trans (if_pos rfl), rfl,
      fun _ => suspended_new k w.cpu.mem h⟩
  · obtain ⟨l, hl, hstack, hs⟩ := hT.lives j h' hj
    refine ⟨l, (life_append ..).trans ((if_neg (Ne.symm hji)).trans hl), hstack, fun hcur =>
      (hs hcur).congr fun a ha => ?_⟩
    -- the new task's words are written to its own memory
    have hout : ¬ h.Owns a := fun hown => hfree j h' hj a hown ha
    exact saved_outside w.cpu.mem h.ctx (entryFrame k h.stack)
      (fun hw => hout (.inl (entryFrame_inside h.fits k a hw))) fun hw => hout (.inr hw)

theorem Tracked.exit (hT : Tracked k es w) {i : Nat} (hcur : w.current = some i) :
    Tracked k (es ++ [.exited i])
      { w with current := none, homes := Function.update w.homes i none } := by
  have hback : ∀ {j h}, Function.update w.homes i none j = some h → j ≠ i ∧ w.homes j = some h :=
    fun hj => (update_some hj).resolve_left fun h => nomatch h.2
  refine ⟨fun p q h₁ h₂ hp hq => hT.separate p q h₁ h₂ (hback hp).2 (hback hq).2, fun j h hj => ?_⟩
  obtain ⟨hji, hj⟩ := hback hj
  obtain ⟨l, hl, hstack, hs⟩ := hT.lives j h hj
  refine ⟨l, (life_append ..).trans ((if_neg (Ne.symm hji)).trans hl), hstack, fun _ => hs ?_⟩
  rw [hcur]
  exact fun h => hji (Option.some.inj h).symm

/-- A call of `__switch` writes to the memory of its caller only. -/
theorem saving_outside (hsep : Separate w.homes) {i : Nat} {next old : Word}
    (hf : Fair k w (.switch i next)) (hold : w.ctxPtr k = some old) {j : Nat} {h : Home}
    (hj : w.homes j = some h) (hcur : w.current ≠ some j) {a : Word} (ha : h.Owns a) :
    saving w.cpu old next a = w.cpu.mem a := by
  have hout : ¬ w.Pushes a ∧ ¬ Within old 8 a := by
    rcases hc : w.current with - | i'
    · rw [World.ctxPtr, hc] at hold
      rw [Fair, hc] at hf
      cases hold
      exact hf j h hj a ha
    · rw [World.ctxPtr, hc] at hold
      rw [Fair, hc] at hf
      obtain ⟨h', hi', rfl⟩ := Option.map_eq_some_iff.mp hold
      have hne : j ≠ i' := fun e => hcur (hc.trans (congrArg some e.symm))
      have happ := hsep j i' h h' hj hi' hne a ha
      exact ⟨fun hw => happ (.inl (hf h' hi' a hw)), fun hw => happ (.inr hw)⟩
  exact saved_outside w.cpu.mem old (frame (w.cpu.goto next)) hout.1 hout.2

/-- **After the pushes every task is suspended**, the caller with the state of this call. -/
theorem Tracked.call (hT : Tracked k es w) {i : Nat} {next old : Word}
    (hf : Fair k w (.switch i next)) (hold : w.ctxPtr k = some old) {j : Nat} {h : Home}
    (hj : w.homes j = some h) :
    ∃ l, life j (es ++ [.called w.current (w.cpu.goto next)]) = some l ∧ l.stack = h.stack ∧
      Suspended k (saving w.cpu old next) h l := by
  obtain ⟨l, hl, hstack, hs⟩ := hT.lives j h hj
  by_cases hcur : w.current = some j
  · rw [Fair, hcur] at hf
    rw [World.ctxPtr, hcur] at hold
    have hctx : h.ctx = old := Option.some.inj ((congrArg (Option.map Home.ctx) hj).symm.trans hold)
    subst hctx
    refine ⟨{ l with call := some (w.cpu.goto next) }, ?_, hstack,
      suspended_caller k w.cpu h next l.stack (hf h hj)⟩
    rw [life_append, hl, hcur]
    exact if_pos rfl
  · refine ⟨l, (life_append ..).trans ((if_neg hcur).trans hl), hstack,
      (hs hcur).congr fun a ha => ?_⟩
    exact saving_outside hT.separate hf hold hj hcur ha

theorem Tracked.switch (hT : Tracked k es w) {i : Nat} {next old : Word} (h : Home)
    (hf : Fair k w (.switch i next)) (hold : w.ctxPtr k = some old) :
    Tracked k (es ++ [.called w.current (w.cpu.goto next),
        .resumed i (switched k w.cpu old h.ctx next)])
      { w with cpu := switched k w.cpu old h.ctx next, current := some i } := by
  refine ⟨hT.separate, fun j h' hj => ?_⟩
  obtain ⟨l, hl, hstack, hs⟩ := hT.call hf hold hj
  refine ⟨l, ?_, hstack, fun _ => ?_⟩
  · rw [List.append_cons, life_append]
    exact hl
  · rw [switched_mem]
    exact hs

/-- **What is asked of a return of `__switch`** into slot `i`, given the events before it: the
    registers of the task's last call and its stack as it was; or the trampoline, with the registers
    zero. -/
def Resumes (k : Image) (es : List Event) : Event → Prop
  | .resumed i c' => ∃ l, life i es = some l ∧
    match l.call with
    | some c => frame c' = frame c ∧ ∀ a, Within l.stack kernelStackSize a →
        ¬ Within (slot c.rsp 7) 56 a → c'.mem a = c.mem a
    | none => (∀ q ∈ calleeSaved, c'.regs q = 0#64) ∧ c'.rip = k.trampoline ∧
        c'.rsp.toNat % 16 = 8 ∧ ∀ a, Within (slot c'.rsp 7) 56 a → Within l.stack kernelStackSize a
  | _ => True

theorem Tracked.resumes (hT : Tracked k es w) {i : Nat} {next old : Word} {h : Home}
    (hf : Fair k w (.switch i next)) (hold : w.ctxPtr k = some old) (hi : w.homes i = some h) :
    Resumes k (es ++ [.called w.current (w.cpu.goto next)])
      (.resumed i (switched k w.cpu old h.ctx next)) := by
  obtain ⟨l, hl, hstack, hs⟩ := hT.call hf hold hi
  have hframe := switched_frame k w.cpu old next hs.holds
  have hmem := switched_mem k w.cpu old h.ctx next
  generalize switched k w.cpu old h.ctx next = c' at hframe hmem ⊢
  refine ⟨l, hl, ?_⟩
  rcases hc : l.call with - | c
  · rw [Life.frame, hc] at hframe
    have hsaved : calleeSaved.map c'.regs = List.replicate 6 0#64 := congrArg Frame.saved hframe
    have hrsp : c'.rsp = (entryFrame k l.stack).rsp := congrArg Frame.rsp hframe
    have hfits : l.stack.toNat + kernelStackSize < 2 ^ 64 := hstack ▸ h.fits
    refine ⟨fun q hq => ?_, congrArg Frame.rip hframe, ?_, ?_⟩
    · have hq' := List.mem_map_of_mem (f := c'.regs) hq
      rw [hsaved] at hq'
      exact List.eq_of_mem_replicate hq'
    · rw [hrsp]
      exact entryFrame_rsp hfits k
    · rw [hrsp]
      exact entryFrame_inside hfits k
  · rw [Life.frame, hc] at hframe
    refine ⟨hframe, fun a ha hout => ?_⟩
    rw [hmem]
    rw [hstack] at ha
    exact hs.kept c hc a ha hout

/-- **One step.** -/
theorem Tracked.step (hT : Tracked k es w) {a : Act} {w' : World} {es' : List Event}
    (hf : Fair k w a) (hs : Switch.step k w a = some (w', es')) :
    Tracked k (es ++ es') w' ∧ ∀ es₁ e es₂, es' = es₁ ++ e :: es₂ → Resumes k (es ++ es₁) e := by
  cases a with
  | own c =>
    cases hs
    rw [List.append_nil]
    exact ⟨hT.own hf, fun es₁ e es₂ h => by cases es₁ <;> cases h⟩
  | spawn i h =>
    rw [step_spawn] at hs
    cases hs
    refine ⟨hT.spawn hf, fun es₁ e es₂ h => ?_⟩
    obtain ⟨-, rfl⟩ := event_of_single h
    trivial
  | move homes m =>
    cases hs
    rw [List.append_nil]
    exact ⟨hT.move hf, fun es₁ e es₂ h => by cases es₁ <;> cases h⟩
  | exit =>
    rw [Switch.step] at hs
    rcases hcur : w.current with - | i
    · rw [hcur] at hs
      cases hs
    · rw [hcur] at hs
      cases hs
      refine ⟨hT.exit hcur, fun es₁ e es₂ h => ?_⟩
      obtain ⟨-, rfl⟩ := event_of_single h
      trivial
  | switch i next =>
    rw [Switch.step] at hs
    rcases hold : w.ctxPtr k with - | old
    · rw [hold] at hs
      cases hs
    rcases hi : w.homes i with - | h
    · rw [hold, hi] at hs
      cases hs
    rw [hold, hi] at hs
    cases hs
    refine ⟨hT.switch h hf hold, fun es₁ e es₂ h => ?_⟩
    rcases es₁ with - | ⟨e₁, es₁⟩
    · cases h
      trivial
    · obtain ⟨rfl, hlast⟩ := List.cons.inj h
      obtain ⟨rfl, rfl⟩ := event_of_single hlast
      exact hT.resumes hf hold hi

end Runs

/-- A world without tasks. -/
def World.Bare (w : World) : Prop := w.current = none ∧ ∀ i, w.homes i = none

theorem tracked_bare (k : Image) {w : World} (h : w.Bare) : Tracked k [] w where
  separate i _ _ _ hi := by
    rw [h.2 i] at hi
    cases hi
  lives i _ hi := by
    rw [h.2 i] at hi
    cases hi

/-- The first context of a task whose buffer is at `stack`: seven words inside the buffer, six zeros
    and the address of the trampoline, and nothing else written. -/
def FirstContext (k : Image) (m : Mem) (stack : Word) : Prop :=
  ∃ m' rsp, KernelStack.initialContext k m stack.toNat = .ok (m', rsp) ∧
    (∀ a, Within rsp 56 a → Within stack kernelStackSize a) ∧
    (∀ a, ¬ Within rsp 56 a → m' a = m a) ∧
    (∀ i < 6, m'.read (rsp + BitVec.ofNat 64 (8 * i)) = 0#64) ∧
    m'.read (rsp + 48#64) = k.trampoline

theorem firstContext (k : Image) (m : Mem) {stack : Word}
    (hfits : stack.toNat + kernelStackSize < 2 ^ 64) : FirstContext k m stack := by
  have hwords : ∀ {n w}, (entryFrame k stack).words[n]? = some w →
      (m.stack (entryFrame k stack).rsp (entryFrame k stack).words).read
        (slot (entryFrame k stack).rsp (n + 1)) = w :=
    read_stack_slot m _ _ (by rw [Frame.length_words]; decide)
  refine ⟨_, _, initialContext_eq hfits k m, entryFrame_inside hfits k, fun a ha => ?_,
    fun i hi => ?_, ?_⟩
  · refine stack_outside m _ ?_
    rw [Frame.length_words]
    exact ha
  · rw [slot_add _ (by omega), show 7 - i = 5 - i + 1 + 1 by omega]
    exact hwords (List.getElem?_replicate_of_lt (by omega))
  · exact (congrArg _ (slot_add _ (b := 6) (by decide))).trans (hwords (n := 0) rfl)

/-- **Context switching is transparent.** On every run of any number of tasks every return of
    `__switch` finds the registers and the stack of the task's last call, or enters the trampoline;
    first contexts fit their stacks, wherever these are; and on every run of the scheduler each
    return of `schedule()` leaves the interrupt flag of its call. -/
theorem context_switch_transparent (k : Image) :
    (∀ w₀ w es, w₀.Bare → Run (step k) (Fair k) w₀ es w →
      ∀ es₁ e es₂, es = es₁ ++ e :: es₂ → Resumes k es₁ e) ∧
    (∀ m stack, stack.toNat + kernelStackSize < 2 ^ 64 → FirstContext k m stack) ∧
    ∀ fs m, Run flagStep anyStep Machine.boot fs m →
      ∀ fs₁ f fs₂, fs = fs₁ ++ f :: fs₂ → Returned fs₁ f := by
  refine ⟨fun w₀ w es hbare h => ?_, fun m stack hfits => firstContext k m hfits,
    fun fs m h => flag_returned h⟩
  exact h.each_event (tracked_bare k hbare) fun es w a w' es' hT hf hs => hT.step hf hs

/-- Two stacks, one of them at an odd address, and the words of their `TaskContext`s. -/
def homeA : Home where
  stack := 0x10000#64
  ctx := 0x4000#64
  fits := by decide
  apart a h := by
    unfold Within kernelStackSize at *
    bv_omega

def homeB : Home where
  stack := 0x20007#64
  ctx := 0x4008#64
  fits := by decide
  apart a h := by
    unfold Within kernelStackSize at *
    bv_omega

def sampleImage : Image := ⟨0x1000#64, 0x2000#64, 0x3000#64⟩

def bareWorld : World where
  cpu := ⟨fun _ => 0x9000#64, 0#64, 0#64, 0#64, 0#64, fun _ => 0#8⟩
  current := none
  homes _ := none

/-- Both tasks spawned. -/
def spawnedWorld : World := (bareWorld.add sampleImage 0 homeA).add sampleImage 1 homeB

theorem spawnedWorld_run : Run (step sampleImage) (Fair sampleImage) bareWorld
    [.spawned 0 homeA.stack, .spawned 1 homeB.stack] spawnedWorld := by
  have hA : Fair sampleImage bareWorld (.spawn 0 homeA) := ⟨rfl, fun _ _ h => nomatch h⟩
  have hB : Fair sampleImage (bareWorld.add sampleImage 0 homeA) (.spawn 1 homeB) := by
    refine ⟨rfl, fun j h' hj a ha ha' => ?_⟩
    rcases update_some hj with ⟨-, he⟩ | ⟨-, he⟩
    · cases he
      unfold Home.Owns Within kernelStackSize homeA homeB at *
      bv_omega
    · cases he
  exact (Run.next _ .start hA (step_spawn sampleImage ..)).next _ hB (step_spawn sampleImage ..)

theorem spawnedWorld_homes {j : Nat} {h : Home} (hj : spawnedWorld.homes j = some h) :
    j = 0 ∧ h = homeA ∨ j = 1 ∧ h = homeB := by
  rcases update_some hj with ⟨rfl, he⟩ | ⟨-, hj'⟩
  · exact .inr ⟨rfl, (Option.some.inj he).symm⟩
  · rcases update_some hj' with ⟨rfl, he⟩ | ⟨-, he⟩
    · exact .inl ⟨rfl, (Option.some.inj he).symm⟩
    · cases he

/-- The first task is entered, ... -/
def enteredA : Cpu := switched sampleImage spawnedWorld.cpu 0x3000#64 homeA.ctx 0x5000#64

/-- ... sets `rbx` and yields to the second, ... -/
def enteredB : Cpu := switched sampleImage (enteredA.set .rbx 7#64) homeA.ctx homeB.ctx 0x5000#64

/-- ... which yields at once. -/
def backA : Cpu := switched sampleImage enteredB homeB.ctx homeA.ctx 0x6000#64

theorem enteredA_rsp : enteredA.rsp = 0x13ff8#64 := by decide +kernel

theorem enteredB_rsp : enteredB.rsp = 0x23ff8#64 := by decide +kernel

def running (i : Nat) (c : Cpu) : World := ⟨c, some i, spawnedWorld.homes⟩

/-- The events until then. -/
def history : List Event :=
  [.spawned 0 homeA.stack, .spawned 1 homeB.stack,
    .called none (spawnedWorld.cpu.goto 0x5000#64), .resumed 0 enteredA,
    .called (some 0) ((enteredA.set .rbx 7#64).goto 0x5000#64), .resumed 1 enteredB,
    .called (some 1) (enteredB.goto 0x6000#64)]

theorem backA_run : Run (step sampleImage) (Fair sampleImage) bareWorld
    (history ++ [.resumed 0 backA]) (running 0 backA) := by
  have h₁ : Fair sampleImage spawnedWorld (.switch 0 0x5000#64) := by
    intro j h hj a ha
    have hrsp : spawnedWorld.cpu.rsp = 0x9000#64 := rfl
    unfold World.Pushes
    rw [hrsp]
    unfold slot sampleImage
    rcases spawnedWorld_homes hj with ⟨-, rfl⟩ | ⟨-, rfl⟩
    · unfold Home.Owns Within kernelStackSize homeA at *
      bv_omega
    · unfold Home.Owns Within kernelStackSize homeB at *
      bv_omega
  have h₂ : Fair sampleImage (running 0 enteredA) (.own (enteredA.set .rbx 7#64)) :=
    fun _ _ _ _ _ _ => rfl
  have h₃ : Fair sampleImage (running 0 (enteredA.set .rbx 7#64)) (.switch 1 0x5000#64) := by
    intro h hj a ha
    cases hj
    have hrsp : (running 0 (enteredA.set .rbx 7#64)).cpu.rsp = 0x13ff8#64 :=
      (Cpu.set_keeps_rsp _ _ (by decide)).trans enteredA_rsp
    unfold World.Pushes at ha
    rw [hrsp] at ha
    unfold slot Within kernelStackSize homeA at *
    bv_omega
  have h₄ : Fair sampleImage (running 1 enteredB) (.switch 0 0x6000#64) := by
    intro h hj a ha
    cases hj
    have hrsp : (running 1 enteredB).cpu.rsp = 0x23ff8#64 := enteredB_rsp
    unfold World.Pushes at ha
    rw [hrsp] at ha
    unfold slot Within kernelStackSize homeB at *
    bv_omega
  have r₁ : Run _ _ bareWorld _ (running 0 enteredA) := spawnedWorld_run.next _ h₁ rfl
  have r₂ : Run _ _ bareWorld _ (running 0 (enteredA.set .rbx 7#64)) := r₁.next _ h₂ rfl
  have r₃ : Run _ _ bareWorld _ (running 1 enteredB) := r₂.next _ h₃ rfl
  exact r₃.next _ h₄ rfl

/-- The first task finds its `rbx` again; and a task that yields with interrupts enabled goes on
    with them enabled. -/
theorem context_switch_transparent_two : backA.regs .rbx = 7#64 ∧
    FirstContext sampleImage (fun _ => 0#8) homeB.stack ∧
    ∃ fs m, Run flagStep anyStep Machine.boot (fs ++ [.left (some 0) true]) m ∧
      lastFlag (some 0) fs = some true := by
  obtain ⟨hruns, hfirst, hflags⟩ := context_switch_transparent sampleImage
  refine ⟨?_, hfirst _ _ homeB.fits, ?_⟩
  · obtain ⟨l, hl, hres⟩ := hruns _ _ _ ⟨rfl, fun _ => rfl⟩ backA_run history _ [] rfl
    have hlife : life 0 history =
        some ⟨homeA.stack, some ((enteredA.set .rbx 7#64).goto 0x5000#64)⟩ := rfl
    cases hlife.symm.trans hl
    have hsaved := congrArg Frame.saved hres.1
    exact (List.cons.inj hsaved).1
  · have hex : (exec flagStep (fun _ _ => true) Machine.boot
        [.spawn, .start, .cont, .cont, .cont, .cont, .yieldNow, .cont, .cont, .cont, .cont,
          .cont]).any (fun r => r.2 == [.entered (some 0) true, .left (some 0) true]) = true := by
      decide
    obtain ⟨r, hr, hp⟩ := (Option.any_eq_true _ _).mp hex
    have hrun := (run_of_exec _ hr).any
    rw [eq_of_beq hp] at hrun
    exact ⟨[.entered (some 0) true], r.1, hrun, hflags _ _ hrun [_] _ [] rfl⟩

end SimpleLinux.Switch
