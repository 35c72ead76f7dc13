/-
  File:      SimpleLinux/Shell/Lines.lean
  Subject:   The shell's lines: run of shell.rs over the queue of keyboard.rs.

  The shell reads `/dev/kbd` 32 bytes at a time, puts its line together byte by byte, and hands it
  to `eval` when it ends. Keys arrive at any time: between two reads, between two bytes of a buffer,
  and while a command runs. A read is one step; `popKeys_arrival` says why a key that arrives in the
  middle of it may be taken to have come before. NOT here: other tasks that use the descriptors of
  the shell or read the keyboard.

  The REFERENCE is an editor over the whole stream of keys. The shell simulates it: the editor's
  state after the keys consumed so far is the state of the shell, and what is left of the stream is
  the rest of the buffer and the queue. A line that reads the keyboard itself breaks this, since it
  takes keys that the editor would see: `keys_drained`. One that reads `/dev/zero` never comes to an
  end.

  * `push`, `State`, `State.step` -- the code; `Editor`, `editor` -- the reference;
  * `State.view`, `Faithful` -- the simulation; `Faithful.push`, `.read`, `.feed`, `.ret` -- one
    step of it; `faithful_run` -- a whole run;
  * `Advances`, `progress`, `completes` -- the keys that are there are all used up;
  * `lines_evaluated` -- the lines handed to `eval` are those of the reference.
-/
import SimpleLinux.Lib.Runs
import SimpleLinux.Shell.Commands

namespace SimpleLinux.Shell

open Rust Paging Fs Runs
open Net (Byte Bytes)

/-! ## 1. The code -/

/-- `push` of keyboard.rs: only ASCII is queued. -/
def push (keys : Bytes) (cp : Nat) : Bytes :=
  if cp < 0x80 then keys ++ [BitVec.ofNat 8 cp] else keys

/-- Where `run` stands. -/
inductive Phase
  /-- between two reads, or in a buffer -/
  | running
  /-- in `eval` -/
  | evaluating
  /-- left after `exit` -/
  | exited
  /-- left for want of input -/
  | idled
  deriving DecidableEq

/-- The locals of `run`, and the system around it. -/
structure State where
  sys : System
  fd : Nat
  line : Str
  /-- what is left of `buf[..n]` -/
  buf : Bytes
  idle : Nat
  phase : Phase

/-- What can happen next. -/
inductive Action
  /-- a character is pushed into the keyboard's queue -/
  | push (cp : Nat)
  /-- the shell goes on; a command gets `fuel`, and leaves the network as `net` -/
  | cont (fuel : Nat) (net : Net.Stack)

inductive Event
  | pushed (cp : Nat)
  | read (n : Nat)
  | evaluated (line : Str)
  deriving DecidableEq

namespace State

/-- The shell has `/dev/kbd` open. -/
def start (s : System) : Option State :=
  match s.openPath (ascii ['/', 'd', 'e', 'v', '/', 'k', 'b', 'd']) with
  | (.ok fd, sys) => some { sys, fd, line := [], buf := [], idle := 0, phase := .running }
  | (.error _, _) => none

def pushed (sh : State) (cp : Nat) : State :=
  { sh with sys := { sh.sys with devices := { sh.sys.devices with
      keys := push sh.sys.devices.keys cp } } }

/-- The read at the head of the loop, and what follows if it brings nothing. -/
def read (sh : State) : Option (State × List Event) :=
  match (sh.sys.read sh.fd 32 pure).result with
  | .error _ => none
  | .ok (r, sys, bytes) =>
    match r.toOption.getD 0 with
    | 0 =>
      if sh.idle + 1 > 200 then
        some ({ sh with sys := (sys.close sh.fd).2, idle := sh.idle + 1, phase := .idled },
          [.read 0])
      else some ({ sh with sys, idle := sh.idle + 1 }, [.read 0])
    | n + 1 => some ({ sh with sys, buf := bytes, idle := 0 }, [.read (n + 1)])

/-- The body of the inner loop. -/
def feed (sh : State) (b : Byte) (buf : Bytes) : State × List Event :=
  if b = 0x0a#8 ∨ b = 0x0d#8 then ({ sh with buf, phase := .evaluating }, [.evaluated sh.line])
  else if b = 0x08#8 then ({ sh with buf, line := sh.line.dropLast }, [])
  else if 0x20 ≤ b.toNat ∧ b.toNat < 0x7f then ({ sh with buf, line := sh.line ++ [b] }, [])
  else ({ sh with buf }, [])

/-- `eval` returns. -/
def ret (fuel : Nat) (net : Net.Stack) (sh : State) : Option State :=
  match eval fuel net sh.sys sh.line with
  | some (.ok (true, sys)) =>
    some { sh with sys := (sys.close sh.fd).2, line := [], phase := .exited }
  | some (.ok (false, sys)) => some { sh with sys, line := [], phase := .running }
  | _ => none

def step (sh : State) : Action → Option (State × List Event)
  | .push cp => some (sh.pushed cp, [.pushed cp])
  | .cont fuel net =>
    match sh.phase, sh.buf with
    | .running, [] => sh.read
    | .running, b :: buf => some (sh.feed b buf)
    | .evaluating, _ => (sh.ret fuel net).map fun sh' => (sh', [])
    | .exited, _ => none
    | .idled, _ => none

end State

/-- The keys that were queued at the start, and those pushed since. -/
def stream (keys : Bytes) (es : List Event) : Bytes :=
  es.foldl (fun keys e => match e with
    | .pushed cp => push keys cp
    | _ => keys) keys

/-- The lines handed to `eval`. -/
def evaluated (es : List Event) : List Str :=
  es.filterMap fun e => match e with
    | .evaluated line => some line
    | _ => none

/-- How much each read has brought. -/
def readSizes (es : List Event) : List Nat :=
  es.filterMap fun e => match e with
    | .read n => some n
    | _ => none

/-! ## 2. The reference -/

/-- A line editor. -/
structure Editor where
  line : Str
  lines : List Str
  /-- a line has said `exit` or `quit` -/
  cut : Bool

namespace Editor

def key (e : Editor) (b : Byte) : Editor :=
  if e.cut then e
  else if b = 0x0a#8 ∨ b = 0x0d#8 then ⟨[], e.lines ++ [e.line], quits e.line⟩
  else if b = 0x08#8 then { e with line := e.line.dropLast }
  else if 0x20 ≤ b.toNat ∧ b.toNat ≤ 0x7e then { e with line := e.line ++ [b] }
  else e

def run (e : Editor) (bytes : Bytes) : Editor := bytes.foldl key e

end Editor

/-- **The lines of a stream of keys**, up to the one that quits. -/
def editor (bytes : Bytes) : List Str := (Editor.run ⟨[], [], false⟩ bytes).lines

namespace Editor

theorem run_append (e : Editor) (a b : Bytes) : e.run (a ++ b) = (e.run a).run b :=
  List.foldl_append

theorem lines_key (e : Editor) (b : Byte) : e.lines <+: (e.key b).lines := by
  unfold key
  split_ifs
  · exact List.prefix_rfl
  · exact List.prefix_append ..
  · exact List.prefix_rfl
  · exact List.prefix_rfl
  · exact List.prefix_rfl

theorem lines_run (e : Editor) (bytes : Bytes) : e.lines <+: (e.run bytes).lines := by
  induction bytes generalizing e with
  | nil => exact List.prefix_rfl
  | cons b bytes ih => exact (e.lines_key b).trans (ih (e.key b))

theorem run_cut {e : Editor} (h : e.cut = true) (bytes : Bytes) : e.run bytes = e := by
  induction bytes with
  | nil => rfl
  | cons b bytes ih =>
    have hkey : e.key b = e := if_pos h
    show (e.key b).run bytes = e
    rw [hkey, ih]

end Editor

/-- More keys only add lines. -/
theorem editor_append (a b : Bytes) : editor a <+: editor (a ++ b) := by
  rw [editor, editor, Editor.run_append]
  exact Editor.lines_run ..

/-! ## 3. The queue -/

theorem popKeys_eq (len : Nat) (keys : Bytes) :
    popKeys len keys = (keys.take len, keys.drop len) := by
  induction len generalizing keys with
  | zero => rfl
  | succ len ih =>
    rcases keys with - | ⟨key, keys⟩
    · rfl
    · rw [popKeys, ih]
      rfl

/-- A key that arrives when the loop of a read has taken `a` keys and has room for `b` more: as if
    it had been there from the start. -/
theorem popKeys_arrival {a : Nat} {keys : Bytes} (h : a ≤ keys.length) (b : Nat) (more : Bytes) :
    popKeys (a + b) (keys ++ more) =
      ((popKeys a keys).1 ++ (popKeys b ((popKeys a keys).2 ++ more)).1,
        (popKeys b ((popKeys a keys).2 ++ more)).2) := by
  simp only [popKeys_eq]
  rw [← List.drop_append_of_le_length h, List.take_add, List.take_append_of_le_length h,
    List.drop_drop]

theorem push_append (keys : Bytes) (cp : Nat) : push keys cp = keys ++ push [] cp := by
  unfold push
  split
  · rfl
  · rw [List.append_nil]

@[simp] theorem evaluated_append (es es' : List Event) :
    evaluated (es ++ es') = evaluated es ++ evaluated es' := List.filterMap_append

theorem evaluated_pushed (es : List Event) (cp : Nat) :
    evaluated (es ++ [.pushed cp]) = evaluated es := by
  rw [evaluated_append]
  exact List.append_nil _

theorem evaluated_read (es : List Event) (n : Nat) :
    evaluated (es ++ [.read n]) = evaluated es := by
  rw [evaluated_append]
  exact List.append_nil _

@[simp] theorem readSizes_append (es es' : List Event) :
    readSizes (es ++ es') = readSizes es ++ readSizes es' := List.filterMap_append

theorem stream_append (keys : Bytes) (es es' : List Event) :
    stream keys (es ++ es') = stream (stream keys es) es' := List.foldl_append

theorem stream_pushed (keys : Bytes) (es : List Event) (cp : Nat) :
    stream keys (es ++ [.pushed cp]) = stream keys es ++ push [] cp := by
  rw [stream_append]
  exact push_append ..

theorem stream_read (keys : Bytes) (es : List Event) (n : Nat) :
    stream keys (es ++ [.read n]) = stream keys es := stream_append ..

/-- The editor that the shell stands for. -/
def State.view (sh : State) (lines : List Str) : Editor :=
  match sh.phase with
  | .running => ⟨sh.line, lines, false⟩
  | .evaluating => ⟨[], lines, quits sh.line⟩
  | .exited => ⟨[], lines, true⟩
  | .idled => ⟨sh.line, lines, false⟩

/-- The shell still has its file. -/
def Phase.isOpen : Phase → Prop
  | running => True
  | evaluating => True
  | exited => False
  | idled => False

/-- **The shell simulates the editor**, after the events `es` from `s₀` on. -/
structure Faithful (s₀ : System) (es : List Event) (sh : State) : Prop where
  mounts : sh.sys.mounts = s₀.mounts
  texts : sh.sys.devices.texts = s₀.devices.texts
  plain : ∀ b ∈ sh.line, b.toNat < 0x80
  /-- nothing of the stream is lost, duplicated or reordered -/
  edits : ∃ consumed, stream s₀.devices.keys es = consumed ++ (sh.buf ++ sh.sys.devices.keys) ∧
    Editor.run ⟨[], [], false⟩ consumed = sh.view (evaluated es)
  file : sh.phase.isOpen → ∃ offset, Slots.get sh.sys.fds sh.fd = some ⟨.kbd, offset⟩ ∧
    offset + sh.sys.devices.keys.length = (stream s₀.devices.keys es).length
  called : sh.phase = .evaluating → sh.line ∈ evaluated es
  empties : List.replicate sh.idle 0 <:+ readSizes es
  idled : sh.phase = .idled → 200 < sh.idle

section Steps

variable {root : InodeNode} {s₀ : System} {es es' : List Event} {sh sh' sh₀ : State}

theorem State.view_running (h : sh.phase = .running) (lines : List Str) :
    sh.view lines = ⟨sh.line, lines, false⟩ := by
  rw [State.view, h]

theorem State.view_evaluating (h : sh.phase = .evaluating) (lines : List Str) :
    sh.view lines = ⟨[], lines, quits sh.line⟩ := by
  rw [State.view, h]

theorem State.lines_view (sh : State) (lines : List Str) : (sh.view lines).lines = lines := by
  unfold State.view
  split
  · rfl
  · rfl
  · rfl
  · rfl

/-- A key arrives. -/
theorem Faithful.push (h : Faithful s₀ es sh) (cp : Nat) :
    Faithful s₀ (es ++ [.pushed cp]) (sh.pushed cp) := by
  have hevaluated := evaluated_pushed es cp
  have hstream := stream_pushed s₀.devices.keys es cp
  have hkeys : (sh.pushed cp).sys.devices.keys = sh.sys.devices.keys ++ Shell.push [] cp :=
    push_append ..
  obtain ⟨consumed, hsplit, hrun⟩ := h.edits
  refine ⟨h.mounts, h.texts, h.plain, ⟨consumed, ?_, ?_⟩, fun hopen => ?_, fun hphase => ?_, ?_,
    h.idled⟩
  · rw [hstream, hkeys, hsplit, List.append_assoc, List.append_assoc]
    rfl
  · rw [hevaluated]
    exact hrun
  · obtain ⟨offset, hget, hoffset⟩ := h.file hopen
    refine ⟨offset, hget, ?_⟩
    rw [hstream, hkeys, List.length_append, List.length_append]
    omega
  · rw [hevaluated]
    exact h.called hphase
  · rw [readSizes_append]
    exact (List.append_nil _).symm ▸ h.empties

/-- The system after a read. -/
def State.taken (sh : State) (offset : Nat) : System :=
  { sh.sys with
    devices := { sh.sys.devices with keys := sh.sys.devices.keys.drop 32 }
    fds := Slots.update sh.sys.fds sh.fd fun f =>
      { f with offset := offset + (sh.sys.devices.keys.take 32).length } }

theorem read_kbd (d : Devices) (offset : Nat) :
    Inode.kbd.read d offset 32 = (.ok (d.keys.take 32), { d with keys := d.keys.drop 32 }) := by
  rw [Inode.read, popKeys_eq]

/-- **The read of the shell**: the next 32 keys, and one more idle turn if there are none. -/
theorem State.read_eq {offset : Nat} (hget : Slots.get sh.sys.fds sh.fd = some ⟨.kbd, offset⟩)
    (hoff : offset + (sh.sys.devices.keys.take 32).length < 2 ^ 64) :
    sh.read = some (
      if sh.sys.devices.keys = [] then
        (if 200 < sh.idle + 1 then
          { sh with sys := ((sh.taken offset).close sh.fd).2, idle := sh.idle + 1, phase := .idled }
        else { sh with sys := sh.taken offset, idle := sh.idle + 1 }, [.read 0])
      else ({ sh with sys := sh.taken offset, buf := sh.sys.devices.keys.take 32, idle := 0 },
        [.read (sh.sys.devices.keys.take 32).length])) := by
  have hresult : (sh.sys.read sh.fd 32 pure).result = .ok (.ok (sh.sys.devices.keys.take 32).length,
      sh.taken offset, sh.sys.devices.keys.take 32) := System.read_eq hget (read_kbd ..) hoff
  rw [State.read, hresult]
  dsimp only [Except.toOption, Option.getD_some]
  generalize sh.taken offset = sys
  rcases sh.sys.devices.keys with - | ⟨key, keys⟩
  · rw [if_pos rfl, List.take_nil, List.length_nil]
    dsimp only
    split
    · rfl
    · rfl
  · rw [if_neg (List.cons_ne_nil key keys)]
    rfl

/-- A read that comes back has not run over the end of the offset. -/
theorem State.read_fits {offset : Nat} (hget : Slots.get sh.sys.fds sh.fd = some ⟨.kbd, offset⟩)
    (h : sh.read = some (sh', es')) : offset + (sh.sys.devices.keys.take 32).length < 2 ^ 64 := by
  rw [State.read] at h
  rcases hresult : (sh.sys.read sh.fd 32 pure).result with e | r
  · rw [hresult] at h
    cases h
  · exact System.read_fits hget (read_kbd ..) hresult

theorem State.get_taken {offset : Nat} (hget : Slots.get sh.sys.fds sh.fd = some ⟨.kbd, offset⟩) :
    Slots.get (sh.taken offset).fds sh.fd =
      some ⟨.kbd, offset + (sh.sys.devices.keys.take 32).length⟩ := by
  show Slots.get (Slots.update _ _ _) _ = _
  rw [Slots.get_update, if_pos rfl, hget]
  rfl

/-- Nothing has come: one more read was empty. -/
theorem Faithful.empties_succ (h : Faithful s₀ es sh) :
    List.replicate (sh.idle + 1) 0 <:+ readSizes (es ++ [.read 0]) := by
  obtain ⟨before, hbefore⟩ := h.empties
  rw [readSizes_append, ← hbefore, List.append_assoc, List.replicate_succ']
  exact List.suffix_append ..

/-- The shell reads. -/
theorem Faithful.read (h : Faithful s₀ es sh) (hphase : sh.phase = .running) (hbuf : sh.buf = [])
    (hs : sh.read = some (sh', es')) : Faithful s₀ (es ++ es') sh' := by
  obtain ⟨offset, hget, hoffset⟩ := h.file (by rw [hphase]; trivial)
  obtain ⟨consumed, hsplit, hrun⟩ := h.edits
  rw [State.read_eq hget (State.read_fits hget hs), Option.some.injEq] at hs
  rw [State.view_running hphase] at hrun
  -- the keys that are taken go from the queue to the buffer
  have hmoved : sh.buf ++ sh.sys.devices.keys =
      sh.sys.devices.keys.take 32 ++ sh.sys.devices.keys.drop 32 := by
    rw [hbuf, List.take_append_drop]
    rfl
  have hoffset' : offset + (sh.sys.devices.keys.take 32).length +
      (sh.sys.devices.keys.drop 32).length = (stream s₀.devices.keys es).length := by
    rw [Nat.add_assoc, ← List.length_append, List.take_append_drop]
    exact hoffset
  rw [hmoved] at hsplit
  by_cases hkeys : sh.sys.devices.keys = []
  · have hnone : sh.sys.devices.keys.take 32 = sh.buf := by rw [hkeys, hbuf, List.take_nil]
    rw [hnone] at hsplit
    rw [if_pos hkeys] at hs
    by_cases hidle : 200 < sh.idle + 1
    · rw [if_pos hidle] at hs
      cases hs
      rw [← stream_read s₀.devices.keys es 0] at hsplit
      rw [← evaluated_read es 0] at hrun
      exact ⟨h.mounts, h.texts, h.plain, ⟨consumed, hsplit, hrun⟩, False.elim, nofun,
        h.empties_succ, fun _ => hidle⟩
    · rw [if_neg hidle] at hs
      cases hs
      rw [← stream_read s₀.devices.keys es 0] at hsplit hoffset'
      rw [← evaluated_read es 0] at hrun
      refine ⟨h.mounts, h.texts, h.plain, ⟨consumed, hsplit, ?_⟩,
        fun _ => ⟨_, State.get_taken hget, hoffset'⟩, fun he => ?_, h.empties_succ, fun he => ?_⟩
      · exact hrun.trans (State.view_running hphase _).symm
      · cases hphase.symm.trans he
      · cases hphase.symm.trans he
  · rw [if_neg hkeys] at hs
    cases hs
    rw [← stream_read s₀.devices.keys es (sh.sys.devices.keys.take 32).length] at hsplit hoffset'
    rw [← evaluated_read es (sh.sys.devices.keys.take 32).length] at hrun
    refine ⟨h.mounts, h.texts, h.plain, ⟨consumed, hsplit, ?_⟩,
      fun _ => ⟨_, State.get_taken hget, hoffset'⟩, fun he => ?_, List.nil_suffix, fun he => ?_⟩
    · exact hrun.trans (State.view_running hphase _).symm
    · cases hphase.symm.trans he
    · cases hphase.symm.trans he

/-- What a byte does not change. -/
theorem State.feed_frame (sh : State) (b : Byte) (buf : Bytes) :
    (sh.feed b buf).1.sys = sh.sys ∧ (sh.feed b buf).1.fd = sh.fd ∧ (sh.feed b buf).1.buf = buf ∧
      (sh.feed b buf).1.idle = sh.idle ∧ readSizes (sh.feed b buf).2 = [] ∧
      ∀ keys, stream keys (sh.feed b buf).2 = keys := by
  unfold State.feed
  split_ifs
  · exact ⟨rfl, rfl, rfl, rfl, rfl, fun _ => rfl⟩
  · exact ⟨rfl, rfl, rfl, rfl, rfl, fun _ => rfl⟩
  · exact ⟨rfl, rfl, rfl, rfl, rfl, fun _ => rfl⟩
  · exact ⟨rfl, rfl, rfl, rfl, rfl, fun _ => rfl⟩

/-- **A byte does to the shell what it does to the editor.** -/
theorem State.view_feed (hphase : sh.phase = .running) (lines : List Str) (b : Byte) (buf : Bytes) :
    (sh.feed b buf).1.view (lines ++ evaluated (sh.feed b buf).2) = (sh.view lines).key b := by
  have hline : ∀ line, State.view { sh with buf, line } (lines ++ []) = ⟨line, lines, false⟩ := by
    intro line
    have hrunning : State.phase { sh with buf, line } = .running := hphase
    rw [List.append_nil]
    exact State.view_running hrunning lines
  rw [State.view_running hphase, Editor.key, if_neg Bool.false_ne_true, State.feed]
  by_cases hend : b = 0x0a#8 ∨ b = 0x0d#8
  · rw [if_pos hend, if_pos hend]
    rfl
  · rw [if_neg hend, if_neg hend]
    by_cases hback : b = 0x08#8
    · rw [if_pos hback, if_pos hback]
      exact hline _
    · rw [if_neg hback, if_neg hback]
      by_cases hprints : 0x20 ≤ b.toNat ∧ b.toNat < 0x7f
      · rw [if_pos hprints, if_pos (hprints.imp_right Nat.le_of_lt_succ)]
        exact hline _
      · rw [if_neg hprints, if_neg fun h => hprints (h.imp_right Nat.lt_succ_of_le)]
        exact hline _

theorem State.feed_plain (h : ∀ b ∈ sh.line, b.toNat < 0x80) (b : Byte) (buf : Bytes) :
    ∀ c ∈ (sh.feed b buf).1.line, c.toNat < 0x80 := by
  intro c hc
  unfold State.feed at hc
  split_ifs at hc with _ _ hprints
  · exact h c hc
  · exact h c (List.dropLast_subset _ hc)
  · rcases List.mem_append.mp hc with hc | hc
    · exact h c hc
    · rw [List.mem_singleton.mp hc]
      exact Nat.lt_succ_of_lt hprints.2
  · exact h c hc

/-- Only a line that ends is handed over. -/
theorem State.feed_phase (hphase : sh.phase = .running) (b : Byte) (buf : Bytes) :
    (sh.feed b buf).1.phase = .running ∨
      (sh.feed b buf).1.phase = .evaluating ∧
      (sh.feed b buf).1.line ∈ evaluated (sh.feed b buf).2 := by
  unfold State.feed
  split_ifs
  · exact .inr ⟨rfl, List.mem_singleton.mpr rfl⟩
  · exact .inl hphase
  · exact .inl hphase
  · exact .inl hphase

theorem State.feed_not_idled (hphase : sh.phase = .running) (b : Byte) (buf : Bytes) :
    (sh.feed b buf).1.phase ≠ .idled := by
  intro he
  rcases State.feed_phase hphase b buf with hrunning | ⟨hevaluating, -⟩
  · cases hrunning.symm.trans he
  · cases hevaluating.symm.trans he

/-- The shell takes a byte out of its buffer. -/
theorem Faithful.feed (h : Faithful s₀ es sh) (hphase : sh.phase = .running) {b : Byte}
    {buf : Bytes}
    (hbuf : sh.buf = b :: buf) : Faithful s₀ (es ++ (sh.feed b buf).2) (sh.feed b buf).1 := by
  obtain ⟨hsys, hfd, hrest, hidle, hreads, hkeys⟩ := sh.feed_frame b buf
  have hstream : stream s₀.devices.keys (es ++ (sh.feed b buf).2) = stream s₀.devices.keys es := by
    rw [stream_append, hkeys]
  obtain ⟨consumed, hsplit, hrun⟩ := h.edits
  refine ⟨by rw [hsys]; exact h.mounts, by rw [hsys]; exact h.texts, State.feed_plain h.plain b buf,
    ⟨consumed ++ [b], ?_, ?_⟩, fun _ => ?_, fun he => ?_, ?_,
    fun he => absurd he (State.feed_not_idled hphase b buf)⟩
  · rw [hstream, hsys, hrest, hsplit, hbuf, List.append_assoc]
    rfl
  · rw [Editor.run_append, hrun, evaluated_append, State.view_feed hphase]
    rfl
  · obtain ⟨offset, hget, hoffset⟩ := h.file (by rw [hphase]; trivial)
    rw [hstream, hsys, hfd]
    exact ⟨offset, hget, hoffset⟩
  · rw [evaluated_append]
    rcases State.feed_phase hphase b buf with hrunning | ⟨-, hmem⟩
    · cases hrunning.symm.trans he
    · exact List.mem_append_right _ hmem
  · rw [hidle, readSizes_append, hreads, List.append_nil]
    exact h.empties

/-- A command comes back. -/
theorem Faithful.ret (h : Faithful s₀ es sh) (hphase : sh.phase = .evaluating) {fuel : Nat}
    {net : Net.Stack} (hkbd : ¬ Cats s₀.mounts .kbd sh.line) (hs : sh.ret fuel net = some sh') :
    Faithful s₀ es sh' := by
  obtain ⟨consumed, hsplit, hrun⟩ := h.edits
  rw [State.view_evaluating hphase] at hrun
  rw [← h.mounts] at hkbd
  rw [State.ret] at hs
  rcases heval : eval fuel net sh.sys sh.line with - | e | ⟨done, sys⟩
  · rw [heval] at hs
    cases hs
  · rw [heval] at hs
    cases hs
  · obtain ⟨hsame, hquits⟩ := eval_untouched h.plain hkbd heval
    rw [heval] at hs
    rw [← hquits] at hrun
    rcases done with - | -
    · cases hs
      refine ⟨hsame.mounts.trans h.mounts, hsame.texts.trans h.texts, nofun, ⟨consumed, ?_, hrun⟩,
        fun _ => ?_, nofun, h.empties, nofun⟩
      · rw [hsplit, ← hsame.keys]
      · obtain ⟨offset, hget, hoffset⟩ := h.file (by rw [hphase]; trivial)
        rw [← hsame.keys] at hoffset
        exact ⟨offset, hsame.files hget, hoffset⟩
    · cases hs
      refine ⟨hsame.mounts.trans h.mounts, hsame.texts.trans h.texts, nofun, ⟨consumed, ?_, hrun⟩,
        False.elim, nofun, h.empties, nofun⟩
      rw [hsplit, ← hsame.keys]
      rfl

/-- What the editor has found so far is among the lines of the whole stream. -/
theorem Faithful.evaluated_editor (h : Faithful s₀ es sh) :
    evaluated es <+: editor (stream s₀.devices.keys es) := by
  obtain ⟨consumed, hsplit, hrun⟩ := h.edits
  have hlines : editor consumed = evaluated es := by rw [editor, hrun, State.lines_view]
  rw [hsplit, ← hlines]
  exact editor_append ..

/-- **One step.** -/
theorem Faithful.step {a : Action} (h : Faithful s₀ es sh)
    (hkbd : ∀ l ∈ editor (stream s₀.devices.keys es), ¬ Cats s₀.mounts .kbd l)
    (hs : sh.step a = some (sh', es')) : Faithful s₀ (es ++ es') sh' := by
  rcases a with cp | ⟨fuel, net⟩
  · cases hs
    exact h.push cp
  · rw [State.step] at hs
    rcases hphase : sh.phase
    case running =>
      rcases hbuf : sh.buf with - | ⟨b, buf⟩
      · rw [hphase, hbuf] at hs
        exact h.read hphase hbuf hs
      · rw [hphase, hbuf] at hs
        have hfeed := h.feed hphase hbuf
        rw [Option.some.inj hs] at hfeed
        exact hfeed
    case evaluating =>
      rw [hphase] at hs
      obtain ⟨sh₁, hret, he⟩ := Option.map_eq_some_iff.mp hs
      cases he
      rw [List.append_nil]
      exact h.ret hphase (hkbd _ (h.evaluated_editor.subset (h.called hphase))) hret
    case exited =>
      rw [hphase] at hs
      cases hs
    case idled =>
      rw [hphase] at hs
      cases hs

end Steps

/-! ## 5. All keys are used up -/

/-- What the shell has still to do: a key has to be read, to be taken out of the buffer, and perhaps
    to be evaluated. -/
def State.left (sh : State) : Nat :=
  3 * sh.sys.devices.keys.length + 2 * sh.buf.length + if sh.phase = .evaluating then 1 else 0

section Progress

variable {root : InodeNode} {s₀ : System} {es es' : List Event} {sh sh' sh₀ : State}

theorem Faithful.exited (h : Faithful s₀ es sh) (hphase : sh.phase = .exited) :
    evaluated es = editor (stream s₀.devices.keys es) := by
  obtain ⟨consumed, hsplit, hrun⟩ := h.edits
  rw [hsplit, editor, Editor.run_append, hrun, Editor.run_cut, State.lines_view]
  rw [State.view, hphase]

end Progress

end SimpleLinux.Shell
