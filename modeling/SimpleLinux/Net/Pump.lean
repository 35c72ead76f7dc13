/-
  File:      SimpleLinux/Net/Pump.lean
  Subject:   From the receive ring to the stack: `pump` of net/mod.rs over drivers/e1000.rs.

  `pump` polls the card and feeds each frame up the stack, until the ring is empty or 16 frames are
  done. The card does not stand still meanwhile: before each poll any number of frames may arrive,
  and `demo_arp`, the other reader of the ring, may poll on its own and keep what it gets.

  The receive path is one equation: the frames that the device accepted are those that were polled,
  by either reader, followed by the few that are still in the ring.

  * `pumpLoop`, `pump` -- the code, with what goes on outside before each poll;
  * `Action`, `step`, `Event` -- the path as a machine; `ring` -- a run of it, as the card sees it;
  * `Pumped` -- what a pump does: a run of the card, and the frames handled, in order;
  * `Harmless`, `Clean` -- the frames of the ring do not make the stack panic; then a pump returns;
  * `pump_in_order` -- every frame is handled at most once and in order, a pump that handles fewer
    than 16 frames has left none behind, and it comes to an end.
-/
import SimpleLinux.Drivers.E1000Receive
import SimpleLinux.Net.Receive

namespace SimpleLinux.Net.Inbound

open Rust Runs
open E1000 (Desc)
open E1000.Rx (Machine Nic Owned pollReceive deviceReceive accepts backlog accepted returned
  filledRing numRx)

/-! ## 1. The code -/

/-- The card and the stack above it. -/
structure Path where
  rx : Machine
  net : Stack

inductive Event
  /-- the device has accepted a frame, or `demo_arp` has polled one -/
  | outside (e : E1000.Rx.Event)
  /-- `pump` has polled a frame and fed it to the stack -/
  | handled (frame : Bytes)

/-- What happens to the card outside of `pump`. -/
def disturb (m : Machine) (as : List E1000.Rx.Action) : Option (Machine × List E1000.Rx.Event) :=
  exec E1000.Rx.step (fun _ _ => true) m as

/-- The loop of `pump` with `left` turns to go, `between left` outside of it before the next poll.
    No result is a panic. -/
def pumpLoop (between : Nat → List E1000.Rx.Action) : Nat → Path → Option (Nat × Path × List Event)
  | 0, p => some (0, p, [])
  | left + 1, p => do
    let (rx, es) ← disturb p.rx (between left)
    let (polled, rx) ← (pollReceive rx).toOption
    match polled with
    | none => some (0, ⟨rx, p.net⟩, es.map .outside)
    | some frame =>
      let net ← (Ethernet.handle p.net frame).toOption
      let (n, p', es') ← pumpLoop between left ⟨rx, net⟩
      some (n + 1, p', es.map .outside ++ .handled frame :: es')

/-- `pump`: at most 16 frames in one call. -/
def pump (between : Nat → List E1000.Rx.Action) (p : Path) : Option (Nat × Path × List Event) :=
  pumpLoop between 16 p

inductive Action
  | outside (a : E1000.Rx.Action)
  | pump (between : Nat → List E1000.Rx.Action)

def step (p : Path) : Action → Option (Path × List Event)
  | .outside a => (E1000.Rx.step p.rx a).map fun r => (⟨r.1, p.net⟩, r.2.map .outside)
  | .pump between => (pump between p).map fun r => (r.2.1, r.2.2)

/-! ## 2. A run, as the card and as the stack see it -/

/-- To the card, a frame that was handled was polled. -/
def ring (es : List Event) : List E1000.Rx.Event :=
  es.map fun
    | .outside e => e
    | .handled frame => .returned frame

/-- The frames that the stack was fed, oldest first. -/
def handled (es : List Event) : List Bytes :=
  es.filterMap fun
    | .outside _ => none
    | .handled frame => some frame

@[simp] theorem ring_append (es es' : List Event) : ring (es ++ es') = ring es ++ ring es' :=
  List.map_append

@[simp] theorem ring_outside (es : List E1000.Rx.Event) : ring (es.map .outside) = es := by
  rw [ring, List.map_map]
  exact List.map_id es

@[simp] theorem ring_handled (frame : Bytes) (es : List Event) :
    ring (.handled frame :: es) = .returned frame :: ring es := rfl

@[simp] theorem handled_append (es es' : List Event) :
    handled (es ++ es') = handled es ++ handled es' := List.filterMap_append ..

@[simp] theorem handled_outside (es : List E1000.Rx.Event) : handled (es.map .outside) = [] := by
  simp [handled]

@[simp] theorem handled_handled (frame : Bytes) (es : List Event) :
    handled (.handled frame :: es) = frame :: handled es := rfl

/-! ## 3. What a pump does -/

/-- A poll that finds nothing changes nothing; one that returns a frame counts the cursor up. -/
theorem poll_cases {m m' : Machine} {out : Option Bytes} (h : pollReceive m = .ok (out, m')) :
    (out = none ∧ m' = m) ∨
      ∃ frame nic, out = some frame ∧ m.nic = some nic ∧ m'.nic = some nic.next := by
  rw [pollReceive] at h
  cases hnic : m.nic with
  | none =>
    rw [hnic] at h
    cases h
    exact .inl ⟨rfl, rfl⟩
  | some nic =>
    rw [hnic] at h
    dsimp only at h
    split at h
    · cases h
      exact .inl ⟨rfl, rfl⟩
    · obtain ⟨c, hc, h⟩ := bind_eq_ok.mp h
      obtain ⟨-, rfl⟩ := add_eq_ok.mp hc
      cases h
      exact .inr ⟨_, nic, rfl, rfl, rfl⟩

theorem poll_nothing {m m' : Machine} (h : pollReceive m = .ok (none, m')) : m' = m := by
  obtain ⟨-, rfl⟩ | ⟨frame, nic, hsome, -⟩ := poll_cases h
  · rfl
  · cases hsome

theorem toOption_eq_some {α : Type} {x : Res α} {a : α} (h : x.toOption = some a) : x = .ok a := by
  cases x with
  | ok b =>
    cases h
    rfl
  | error e => cases h

/-- What `left` turns of the loop have done, after `n` frames. -/
structure Pumped (left : Nat) (p : Path) (n : Nat) (p' : Path) (es : List Event) : Prop where
  card : Run E1000.Rx.step anyStep p.rx (ring es) p'.rx
  stack : (handled es).foldlM Ethernet.handle p.net = .ok p'.net
  count : (handled es).length = n
  le : n ≤ left
  empty : n < left → pollReceive p'.rx = .ok (none, p'.rx)

theorem disturb_run {m m' : Machine} {as : List E1000.Rx.Action} {es : List E1000.Rx.Event}
    (h : disturb m as = some (m', es)) : Run E1000.Rx.step anyStep m es m' :=
  (run_of_exec as h).any

theorem pumpLoop_pumped {between : Nat → List E1000.Rx.Action} {left : Nat} {p p' : Path} {n : Nat}
    {es : List Event} (h : pumpLoop between left p = some (n, p', es)) : Pumped left p n p' es := by
  induction left generalizing p n es with
  | zero =>
    cases h
    exact ⟨.start, rfl, rfl, Nat.le_refl 0, fun h => absurd h (Nat.lt_irrefl 0)⟩
  | succ left ih =>
    rw [pumpLoop] at h
    obtain ⟨⟨rx, es₁⟩, hdist, h⟩ := Option.bind_eq_some_iff.mp h
    obtain ⟨⟨polled, rx'⟩, hpoll, h⟩ := Option.bind_eq_some_iff.mp h
    have hpoll := toOption_eq_some hpoll
    have hcard := disturb_run hdist
    cases polled with
    | none =>
      cases h
      obtain rfl := poll_nothing hpoll
      refine ⟨?_, ?_, ?_, Nat.zero_le _, fun _ => hpoll⟩
      · rwa [ring_outside]
      · rw [handled_outside]
        rfl
      · rw [handled_outside]
        rfl
    | some frame =>
      obtain ⟨net, hnet, h⟩ := Option.bind_eq_some_iff.mp h
      obtain ⟨⟨n', p₁, es₂⟩, hloop, h⟩ := Option.bind_eq_some_iff.mp h
      cases h
      have hnet := toOption_eq_some hnet
      have hrest := ih hloop
      have hturn : E1000.Rx.step rx .poll = some (rx', [.returned frame]) := by
        rw [E1000.Rx.step, hpoll]
      refine ⟨?_, ?_, ?_, Nat.succ_le_succ hrest.le, fun hlt => hrest.empty (by omega)⟩
      · have hturned := (Run.next .poll hcard trivial hturn).trans hrest.card
        simpa using hturned
      · rw [handled_append, handled_outside, handled_handled, List.nil_append, List.foldlM_cons,
          hnet]
        exact hrest.stack
      · simpa using hrest.count

/-- One step is a run of the card, and feeds the stack what it handles. -/
theorem step_spec {p p' : Path} {a : Action} {es : List Event} (h : step p a = some (p', es)) :
    Run E1000.Rx.step anyStep p.rx (ring es) p'.rx ∧
      (handled es).foldlM Ethernet.handle p.net = .ok p'.net := by
  cases a with
  | outside a =>
    obtain ⟨⟨m, es₁⟩, hs, h⟩ := Option.map_eq_some_iff.mp h
    cases h
    rw [ring_outside, handled_outside]
    exact ⟨.next a .start trivial hs, rfl⟩
  | pump between =>
    obtain ⟨⟨n, p₁, es₁⟩, hp, h⟩ := Option.map_eq_some_iff.mp h
    cases h
    have hpumped := pumpLoop_pumped hp
    exact ⟨hpumped.card, hpumped.stack⟩

theorem run_spec {p₀ p : Path} {es : List Event} (h : Run step anyStep p₀ es p) :
    Run E1000.Rx.step anyStep p₀.rx (ring es) p.rx ∧
      (handled es).foldlM Ethernet.handle p₀.net = .ok p.net := by
  refine h.invariant_events (I := fun es p => Run E1000.Rx.step anyStep p₀.rx (ring es) p.rx ∧
    (handled es).foldlM Ethernet.handle p₀.net = .ok p.net) ⟨.start, rfl⟩ ?_
  intro es p a p' es' ⟨hcard, hstack⟩ _ hs
  obtain ⟨hcard', hstack'⟩ := step_spec hs
  refine ⟨?_, ?_⟩
  · rw [ring_append]
    exact hcard.trans hcard'
  · rw [handled_append, List.foldlM_append, hstack]
    exact hstack'

/-! ## 4. The cursor -/

/-- The cursor counts the frames that were polled. -/
theorem cursor_step {m m' : Machine} {nic : Nic} {a : E1000.Rx.Action} {es : List E1000.Rx.Event}
    (hnic : m.nic = some nic) (h : E1000.Rx.step m a = some (m', es)) :
    ∃ nic', m'.nic = some nic' ∧ nic'.rxCursor = nic.rxCursor + (returned es).length := by
  cases a with
  | poll =>
    rw [E1000.Rx.step] at h
    rcases hp : pollReceive m with e | ⟨out, m₁⟩
    · rw [hp] at h
      cases h
    · rw [hp] at h
      obtain ⟨rfl, rfl⟩ | ⟨frame, nic₁, rfl, hnic₁, hnic'⟩ := poll_cases hp
      · cases h
        exact ⟨nic, hnic, rfl⟩
      · cases h
        cases hnic.symm.trans hnic₁
        exact ⟨nic.next, hnic', rfl⟩
  | arrive frame rest =>
    rw [E1000.Rx.step] at h
    split at h
    · cases h
      exact ⟨nic, hnic, rfl⟩
    · cases h
      exact ⟨nic, hnic, rfl⟩

theorem cursor_run {m₀ m : Machine} {nic₀ : Nic} {es : List E1000.Rx.Event}
    (hnic : m₀.nic = some nic₀) (h0 : nic₀.rxCursor = 0) (h : Run E1000.Rx.step anyStep m₀ es m) :
    ∃ nic, m.nic = some nic ∧ nic.rxCursor = (returned es).length := by
  refine h.invariant_events
    (I := fun es m => ∃ nic, m.nic = some nic ∧ nic.rxCursor = (returned es).length)
    ⟨nic₀, hnic, h0⟩ ?_
  intro es m a m' es' ⟨nic, hnic, hc⟩ _ hs
  obtain ⟨nic', hnic', hc'⟩ := cursor_step hnic hs
  refine ⟨nic', hnic', ?_⟩
  rw [hc', hc, E1000.Rx.returned_append, List.length_append]

/-! ## 5. A pump returns -/

/-- A frame that does not make the stack panic. -/
def Harmless (frame : Bytes) : Prop := ¬ RangeInverted frame ∧ ¬ SynOverflows frame

theorem handle_ok (s : Stack) {frame : Bytes} (hle : frame.length ≤ 65535) (h : Harmless frame) :
    ∃ s', Ethernet.handle s frame = .ok s' := by
  obtain ⟨hrange, hsyn⟩ := h
  by_cases hip : Ethernet.CarriesIp frame
  · rw [Ethernet.handle_ip s hip]
    by_cases hwf : Ip.WellFormed (frame.drop 14)
    · have hpkt : (frame.drop 14).length ≤ 65535 := by
        rw [List.length_drop]
        omega
      rw [Ip.handle_ok_iff s hwf hpkt]
      exact ⟨Nat.not_lt.mp fun h => hrange ⟨hip, hwf, h⟩, fun h => hsyn ⟨hip, hwf, h⟩⟩
    · exact ⟨s, Ip.handle_malformed s hwf⟩
  · exact Ethernet.handle_other s hip

/-- The card after `c` frames were polled, with nothing but harmless frames in its ring. -/
def Clean (m : Machine) (c : Nat) : Prop :=
  ∃ acc ret nic, Owned acc ret m nic ∧ nic.rxCursor = c ∧ ∀ frame ∈ acc, Harmless frame

section Clean

variable {m : Machine} {c : Nat} (h : Clean m c)
include h

theorem Clean.receive {frame : Bytes} (rest : Desc) (ha : accepts m frame) (hf : Harmless frame) :
    Clean (deviceReceive m frame rest) c := by
  obtain ⟨acc, ret, nic, ho, hc, hall⟩ := h
  refine ⟨acc ++ [frame], ret, nic, ho.receive rest ha, hc, fun f hmem => ?_⟩
  rcases List.mem_append.mp hmem with hmem | hmem
  · exact hall f hmem
  · rwa [List.mem_singleton.mp hmem]

/-- A poll returns, and what it returns is harmless. -/
theorem Clean.poll (hc : c + 1 < 2 ^ 64) :
    pollReceive m = .ok (none, m) ∨ ∃ frame m', pollReceive m = .ok (some frame, m') ∧
      frame.length ≤ 2048 ∧ Harmless frame ∧ Clean m' (c + 1) := by
  obtain ⟨acc, ret, nic, ho, rfl, hall⟩ := h
  rcases hn : backlog m nic with - | n
  · exact .inl (E1000.Rx.poll_none ho hn)
  · obtain ⟨frame, m', hp⟩ := E1000.Rx.poll_ok ho hn hc
    obtain ⟨hframe, rfl⟩ := E1000.Rx.poll_eq ho hn hp
    cases hframe
    have hmem : Ring.slot m.rxRing nic.rxCursor ∈ filledRing m nic :=
      E1000.Rx.mem_filledRing.mpr ⟨0, by omega, rfl⟩
    refine .inr ⟨_, _, hp, ?_, ?_, acc, _, nic.next, ho.polled hn, rfl, hall⟩
    · rw [E1000.Desc.read, Store.length_load]
      exact (ho.done _ hmem).fits
    · apply hall
      rw [ho.split]
      exact List.mem_append_right _ (List.mem_map_of_mem hmem)

end Clean

/-- The polls among the actions outside. -/
def polls (as : List E1000.Rx.Action) : Nat :=
  as.countP fun
    | .poll => true
    | .arrive .. => false

theorem Clean.disturb {m : Machine} {c : Nat} (h : Clean m c) {as : List E1000.Rx.Action}
    (hc : c + polls as < 2 ^ 64) (hf : ∀ frame rest, .arrive frame rest ∈ as → Harmless frame) :
    ∃ m' es c', disturb m as = some (m', es) ∧ Clean m' c' ∧ c' ≤ c + polls as := by
  induction as generalizing m c with
  | nil => exact ⟨m, [], c, rfl, h, Nat.le_refl c⟩
  | cons a as ih =>
    have htail : ∀ frame rest, .arrive frame rest ∈ as → Harmless frame :=
      fun frame rest hmem => hf frame rest (List.mem_cons_of_mem a hmem)
    -- one action, then the rest of them
    have hstep : ∃ m₁ es₁ c₁, E1000.Rx.step m a = some (m₁, es₁) ∧ Clean m₁ c₁ ∧
        c₁ + polls as ≤ c + polls (a :: as) := by
      cases a with
      | poll =>
        have hpolls : polls (.poll :: as) = polls as + 1 := List.countP_cons_of_pos rfl
        rcases h.poll (by omega) with hp | ⟨frame, m', hp, -, -, hclean⟩
        · exact ⟨m, [], c, by rw [E1000.Rx.step, hp], h, by omega⟩
        · exact ⟨m', [.returned frame], c + 1, by rw [E1000.Rx.step, hp], hclean, by omega⟩
      | arrive frame rest =>
        have hpolls : polls (.arrive frame rest :: as) = polls as :=
          List.countP_cons_of_neg Bool.false_ne_true
        by_cases ha : accepts m frame
        · have hharm := hf frame rest List.mem_cons_self
          exact ⟨_, _, c, if_pos ha, h.receive rest ha hharm, by omega⟩
        · exact ⟨_, _, c, if_neg ha, h, by omega⟩
    obtain ⟨m₁, es₁, c₁, hs, hclean, hle⟩ := hstep
    obtain ⟨m', es', c', hrest, hclean', hle'⟩ := ih hclean (by omega) htail
    refine ⟨m', es₁ ++ es', c', ?_, hclean', by omega⟩
    rw [Inbound.disturb] at hrest ⊢
    simp only [exec, hs, hrest, if_true, Option.map_some]

/-- The polls of `left` turns, those outside included. -/
def budget (between : Nat → List E1000.Rx.Action) : Nat → Nat
  | 0 => 0
  | left + 1 => polls (between left) + 1 + budget between left

theorem pumpLoop_returns {between : Nat → List E1000.Rx.Action} {left c : Nat} {p : Path}
    (h : Clean p.rx c) (hc : c + budget between left < 2 ^ 64)
    (hf : ∀ k < left, ∀ frame rest, .arrive frame rest ∈ between k → Harmless frame) :
    ∃ r, pumpLoop between left p = some r := by
  induction left generalizing p c with
  | zero => exact ⟨_, rfl⟩
  | succ left ih =>
    rw [budget] at hc
    obtain ⟨m, es, c₁, hdist, hclean, hle⟩ := h.disturb (by omega) (hf left (Nat.lt_succ_self left))
    simp only [pumpLoop, hdist, Option.bind_eq_bind, Option.bind_some]
    rcases hclean.poll (by omega) with hp | ⟨frame, m', hp, hlen, hharm, hclean'⟩
    · rw [hp]
      exact ⟨_, rfl⟩
    · obtain ⟨net, hnet⟩ := handle_ok p.net (by omega) hharm
      obtain ⟨⟨n, p', es'⟩, hrest⟩ := ih (p := ⟨m', net⟩) hclean' (by omega)
        fun k hk => hf k (Nat.lt_succ_of_lt hk)
      rw [hp]
      simp only [Except.toOption, Option.bind_some, hnet, hrest]
      exact ⟨_, rfl⟩

/-! ## 6. The path -/

theorem handled_sublist (es : List Event) : (handled es).Sublist (returned (ring es)) := by
  induction es with
  | nil => exact List.Sublist.refl []
  | cons e es ih =>
    rcases e with (frame | frame) | frame
    · exact ih
    · exact ih.cons frame
    · exact ih.cons_cons frame

/-- A poll that finds nothing: everything accepted was polled. -/
theorem drained {acc ret : List Bytes} {m : Machine} {nic : Nic} (ho : Owned acc ret m nic)
    (hp : pollReceive m = .ok (none, m)) : ret = acc := by
  rcases hn : backlog m nic with - | n
  · rw [ho.split, filledRing, hn]
    exact (List.append_nil ret).symm
  · obtain ⟨hnone, -⟩ := E1000.Rx.poll_eq ho hn hp
    cases hnone

/-- **The receive path delivers.** From any allocator and memory that `configure` succeeds with and
    any state of the stack, after any run of arrivals, polls of `demo_arp` and pumps (with arrivals
    and such polls in between): what the device accepted is what was polled, in order, followed by
    fewer than eight frames; the frames handled are some of those, once each and in order, and the
    stack is as they have left it. A further pump handles at most 16 frames, and if it handles fewer
    then all that was accepted has been polled; and it does not panic, as long as no frame that was
    accepted before, or that comes to the card meanwhile, is one of the two kinds that make the
    stack panic, and the cursor can be counted up. -/
theorem pump_in_order {a : Pmm.BitmapFrameAllocator} {mem : Nat → Byte} {m₀ : Machine}
    {net₀ : Stack} {p : Path} {es : List Event} (h0 : E1000.Rx.configure a mem = .ok m₀)
    (h : Run step anyStep ⟨m₀, net₀⟩ es p) :
    (∃ pending, accepted (ring es) = returned (ring es) ++ pending ∧ pending.length < numRx) ∧
      (handled es).Sublist (returned (ring es)) ∧
      (handled es).foldlM Ethernet.handle net₀ = .ok p.net ∧
      ∀ between,
        (∀ n p' es', pump between p = some (n, p', es') →
          n ≤ 16 ∧ (handled es').length = n ∧
            (n < 16 → returned (ring (es ++ es')) = accepted (ring (es ++ es')))) ∧
        ((∀ frame ∈ accepted (ring es), Harmless frame) →
          (∀ k < 16, ∀ frame rest, .arrive frame rest ∈ between k → Harmless frame) →
          (returned (ring es)).length + budget between 16 < 2 ^ 64 →
          ∃ r, pump between p = some r) := by
  obtain ⟨hcard, hstack⟩ := run_spec h
  obtain ⟨nic, ho⟩ := Owned.run h0 hcard
  refine ⟨⟨_, ho.split, ?_⟩, handled_sublist es, hstack, fun between => ⟨?_, ?_⟩⟩
  · rw [List.length_map, filledRing, Ring.length_window]
    exact ho.backlog_lt
  · intro n p' es' hp
    have hpumped := pumpLoop_pumped hp
    refine ⟨hpumped.le, hpumped.count, fun hlt => ?_⟩
    obtain ⟨nic', ho'⟩ := Owned.run h0 (hcard.trans hpumped.card)
    rw [ring_append]
    exact drained ho' (hpumped.empty hlt)
  · intro hharm hbetween hcount
    obtain ⟨nic₀, hnic₀, hzero⟩ := E1000.Rx.configure_cursor h0
    obtain ⟨nic₁, hnic₁, hcursor⟩ := cursor_run hnic₀ hzero hcard
    cases ho.present.symm.trans hnic₁
    exact pumpLoop_returns ⟨_, _, nic, ho, hcursor, hharm⟩ hcount hbetween

/-- With all frames free, and a short frame arriving before each poll. -/
theorem pump_in_order_busy :
    ∃ m₀ n p es, E1000.Rx.configure .allFree (fun _ => 0#8) = .ok m₀ ∧
      pump (fun _ => [.arrive [1#8, 2#8] .zero]) ⟨m₀, emptyStack⟩ = some (n, p, es) ∧ n ≤ 16 ∧
      (handled es).length = n := by
  obtain ⟨m₀, h0⟩ := E1000.Rx.configure_ok E1000.Rx.allFree_enough fun _ => 0#8
  have hshort : Harmless [1#8, 2#8] :=
    ⟨fun h => absurd h.1.1 (by decide), fun h => absurd h.1.1 (by decide)⟩
  have hrun : Run step anyStep ⟨m₀, emptyStack⟩ [] ⟨m₀, emptyStack⟩ := .start
  obtain ⟨-, -, -, hpump⟩ := pump_in_order h0 hrun
  obtain ⟨hdone, hreturns⟩ := hpump fun _ => [.arrive [1#8, 2#8] .zero]
  obtain ⟨⟨n, p, es⟩, hp⟩ := hreturns (fun _ hmem => absurd hmem List.not_mem_nil)
    (fun _ _ frame rest hmem => by
      cases List.mem_singleton.mp hmem
      exact hshort)
    (by decide)
  obtain ⟨hle, hcount, -⟩ := hdone n p es hp
  exact ⟨m₀, n, p, es, h0, hp, hle, hcount⟩

end SimpleLinux.Net.Inbound
