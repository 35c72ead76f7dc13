/-
  File:      SimpleLinux/Process/RoundRobin.lean
  Subject:   Bounded bypass: how often others are dispatched while a Ready task waits.

  A task waits in slot `j` when the slot holds it and it is Ready. Every dispatch goes through
  `next_ready` from the cursor and puts the cursor one past the slot it answers, whether it comes
  from `start`, from a yield, a sleep or a join, from a preempting tick or from an exit
  (`Change.dispatch`, `Change.exitTo`). So the dispatches of a segment throughout which `j` waits
  are a run of circular scans, and the library's `Slots.Visited` is the invariant.
-/
import SimpleLinux.Process.History

namespace SimpleLinux

open Runs

/-- The slots handed to `prep_switch`, in order. -/
def dispatches (es : List Event) : List Nat :=
  es.filterMap fun
    | .dispatched idx => some idx
    | _ => none

/-- Slot `j` holds the task `id`, and it is Ready. -/
def Waits (j : Nat) (id : TaskId) (s : Scheduler) : Prop :=
  ∃ t, s.task? j = some t ∧ t.id = id ∧ t.state = .ready

instance (j : Nat) (id : TaskId) (s : Scheduler) : Decidable (Waits j id s) :=
  decidable_of_iff ((s.task? j).any (fun t => t.id == id && t.state == .ready) = true) (by
    unfold Waits
    cases s.task? j <;> simp)

@[simp] theorem dispatches_append (es es' : List Event) :
    dispatches (es ++ es') = dispatches es ++ dispatches es' := List.filterMap_append

theorem dispatches_quiet {es : List Event} (h : ∀ e ∈ es, e.quiet = true) : dispatches es = [] := by
  unfold dispatches
  rw [List.filterMap_eq_nil_iff]
  intro e he
  cases e with
  | dispatched idx => cases h _ he
  | _ => rfl

section Segment

variable {j : Nat} {id : TaskId} {s s' : Scheduler} {es : List Event}

open Scheduler

theorem Waits.any_isReady (h : Waits j id s) : (Slots.get s.slots j).any Task.isReady = true := by
  obtain ⟨t, ht, -, hr⟩ := h
  rw [show Slots.get s.slots j = some t from ht]
  simpa using hr

/-- What a segment in which `j` waits keeps: the dispatches so far lie behind the cursor. -/
structure Bypass (j : Nat) (ds : List Nat) (s : Scheduler) : Prop where
  visited : Slots.Visited j s.cursor ds
  bounded : ∀ d ∈ ds, d < s.slots.length

/-- The segment invariant over one dispatch from a table in which `j` is still Ready. -/
theorem Bypass.dispatch {s₁ : Scheduler} {ds : List Nat} {idx : Nat} (h : Bypass j ds s)
    (hcur : s₁.cursor = s.cursor) (hlen : s₁.slots.length = s.slots.length)
    (hle : s.cursor ≤ s.slots.length) (hj : Waits j id s₁) (hne : idx ≠ j)
    (hn : s₁.nextReady = some idx) :
    Slots.Visited j (idx + 1) (ds ++ [idx]) ∧ ∀ d ∈ ds ++ [idx], d < s.slots.length := by
  obtain ⟨hidx, hsk⟩ := Slots.firstFrom_eq_some (by rw [hcur, hlen]; exact hle) hn
  refine ⟨?_, fun d hd => ?_⟩
  · rw [hcur] at hsk
    exact h.visited.visit hj.any_isReady hne hsk
  · rcases List.mem_append.mp hd with hd | hd
    · exact h.bounded d hd
    · rw [List.mem_singleton] at hd
      subst hd
      cases ht : Slots.get s₁.slots d with
      | none => rw [ht] at hidx; cases hidx
      | some t => rw [← hlen]; exact Slots.lt_of_get ht

/-- **One change of the table** keeps the segment invariant while `j` waits before and after it. -/
theorem Bypass.change (hI : SchedInv s) {ds : List Nat} (h : Bypass j ds s)
    (hc : Change s s' es) (hw : Waits j id s) (hw' : Waits j id s') (hnot : j ∉ dispatches es) :
    Bypass j (ds ++ dispatches es) s' := by
  cases hc with
  | inPlace f s' es hm hid hq =>
    rw [dispatches_quiet hq, List.append_nil]
    exact ⟨by rw [hm.cursor]; exact h.visited, fun d hd => by rw [hm.length]; exact h.bounded d hd⟩
  | spawn x s' hs =>
    obtain ⟨-, -, -, hcu, hlen, -⟩ := add_spec hs
    simp only [dispatches, List.filterMap_cons, List.filterMap_nil, List.append_nil]
    exact ⟨by rw [hcu]; exact h.visited, fun d hd => Nat.lt_of_lt_of_le (h.bounded d hd) hlen⟩
  | dispatch f s₁ idx hm hid hready hn =>
    have hne : idx ≠ j := fun e => hnot (by simp [dispatches, e])
    have hw₁ : Waits j id s₁ := by
      obtain ⟨t, ht, e, hr⟩ := hw
      exact ⟨_, hm.forth ht, (hid j t).trans e, hready j t hr⟩
    obtain ⟨h1, h2⟩ := h.dispatch hm.cursor hm.length hI.cursor_le hw₁ hne hn
    refine ⟨h1, fun d hd => ?_⟩
    show d < (Slots.update s₁.slots idx _).length
    rw [Slots.length_update, hm.length]
    exact h2 d hd
  | exitTo cur dead idx hcur ht hn =>
    have hm := wakeJoiners_spec s cur dead.id
    have hne : idx ≠ j := fun e => hnot (by simp [dispatches, e])
    -- the waiting task is still there after the exit, so it is not the one that exits
    have hcj : cur ≠ j := by
      rintro rfl
      obtain ⟨t, ht', -⟩ := hw'
      obtain ⟨t₁, ht₁, -⟩ := prepSwitch_back ht'
      exact (exit_back ht₁).1 rfl
    have hw₁ : Waits j id (s.wakeJoiners cur dead.id) := by
      obtain ⟨t, hj, e, hr⟩ := hw
      refine ⟨_, hm.forth hj, ?_, ?_⟩
      · rw [wakeJoiner_id, if_neg hcj]; exact e
      · rw [if_neg hcj, wakeJoiner_of_not_blocked (by rw [hr]; decide)]; exact hr
    obtain ⟨h1, h2⟩ := h.dispatch hm.cursor hm.length hI.cursor_le hw₁ hne hn
    refine ⟨h1, fun d hd => ?_⟩
    show d < (Slots.update (Slots.clear _ cur) idx _).length
    rw [Slots.length_update, Slots.length_clear, hm.length]
    exact h2 d hd
  | exitIdle cur dead hcur ht hn =>
    have hm := wakeJoiners_spec s cur dead.id
    simp only [dispatches, List.filterMap_cons, List.filterMap_nil, List.append_nil]
    refine ⟨h.visited, fun d hd => ?_⟩
    show d < (Slots.clear _ cur).length
    rw [Slots.length_clear, hm.length]
    exact h.bounded d hd

end Segment

/-- The segment invariant along a run in which `j` waits before every step and at the end. -/
theorem bypass_run {j : Nat} {id : TaskId} {m m' : Machine} {es : List Event} (hI : Inv m)
    (h : Run Machine.step (fun m _ => Waits j id m.sched) m es m') (hend : Waits j id m'.sched)
    (hnot : j ∉ dispatches es) : Bypass j (dispatches es) m'.sched := by
  induction h with
  | start => exact ⟨Slots.visited_nil _ _, by simp [dispatches]⟩
  | next a hr hok hs ih =>
    rw [dispatches_append] at hnot ⊢
    rw [List.mem_append, not_or] at hnot
    have hI' := inv_from hI hr
    exact (ih hok hnot.1).change hI'.sched (change_of_step hI' hs) hok hend hnot.2

/-- **Bounded bypass.** In a run segment throughout which slot `j` holds the same Ready task and
    is not dispatched, no slot is dispatched twice, so fewer than `slots.len()` dispatches of
    others happen. -/
theorem round_robin_bounded_bypass {j : Nat} {id : TaskId} {m m' : Machine} {es₀ es : List Event}
    (h₀ : KernelRun anyStep es₀ m)
    (h : Run Machine.step (fun m _ => Waits j id m.sched) m es m') (hend : Waits j id m'.sched)
    (hnot : j ∉ dispatches es) :
    (dispatches es).Nodup ∧ (dispatches es).length < m'.sched.slots.length := by
  have hb := bypass_run (inv_run h₀) h hend hnot
  obtain ⟨t, ht, -⟩ := hend
  exact ⟨hb.visited.nodup,
    Slots.length_lt_of_avoids hb.visited.nodup hnot (Scheduler.lt_length ht) hb.bounded⟩

/-- Three tasks: the first yields to the second while the third waits. -/
theorem round_robin_bounded_bypass_three : ∃ (es : List Event) (m : Machine),
    dispatches es = [1] ∧ Waits 2 3 m.sched ∧ (dispatches es).length < m.sched.slots.length := by
  obtain ⟨es₀, m, h₀, hm⟩ := exists_picRun
    [.spawn, .spawn, .spawn, .start, .cont, .cont, .cont, .cont]
    (fun _ m => (exec Machine.step (fun m _ => decide (Waits 2 3 m.sched)) m
        [.yieldNow, .cont, .cont, .cont, .cont]).any
      fun r => decide (dispatches r.2 = [1] ∧ Waits 2 3 r.1.sched)) (by decide)
  obtain ⟨r, hr, hp⟩ := (Option.any_eq_true _ _).mp hm
  obtain ⟨hd, hw⟩ := of_decide_eq_true hp
  have hseg : Run Machine.step (fun m _ => Waits 2 3 m.sched) m r.2 r.1 :=
    (run_of_exec _ hr).mono fun _ _ h => of_decide_eq_true h
  exact ⟨r.2, r.1, hd, hw, (round_robin_bounded_bypass h₀.any hseg hw (by rw [hd]; decide)).2⟩

end SimpleLinux
