/-
  File:      SimpleLinux/Fs/Streams.lean
  Subject:   Who gets which bytes, when any number of descriptors are used in any order.

  The calls of fs/mod.rs come from the shell, from system calls and from the kernel itself, and
  between any two of them keys arrive, the network moves and the counters behind /proc change. Every
  descriptor has a cursor of its own, while the keyboard's queue and the serial port are shared.

  * `Action`, `step` -- one call, or one thing that happens in between; `Event` -- what was
    transferred;
  * `stream` -- what has been read through a descriptor since it was opened;
    `keysTaken`, `keysTyped`, `consoleOut` -- the shared devices;
  * `Account` -- **the accounting**; `Account.opened`, `Account.read`, `Account.write`,
    `Account.close` -- what one call does to it, `Account.step` -- every step;
  * `file_streams` -- each reader of a ramdisk file has exactly the beginning of the file, every key
    goes to exactly one read, in order, and the serial port has exactly what was written to the
    console.

  NOT here: what `println!` sends to the same port.
-/
import SimpleLinux.Fs.Directory
import SimpleLinux.Shell.Lines

namespace SimpleLinux.Fs

open Rust Runs Paging
open Net (Byte Bytes)

namespace Streams

/-! ## 1. Calls -/

inductive Action
  | openPath (path : Str)
  | installInode (inode : Inode)
  | read (fd len : Nat)
  | write (fd : Nat) (data : Bytes)
  | close (fd : Nat)
  /-- the keyboard driver decodes a code point -/
  | key (cp : Nat)
  /-- the network and the counters behind /proc move on -/
  | other (net : Net.Stack) (texts : ProcText → Bytes)

inductive Event
  | opened (fd : Nat)
  | read (fd : Nat) (inode : Inode) (bytes : Bytes)
  | wrote (fd : Nat) (inode : Inode) (bytes : Bytes)
  | key (cp : Nat)

/-- The descriptor that a call has issued. -/
def issued : FsResult Nat → List Event
  | .ok fd => [.opened fd]
  | .error _ => []

/-- The bytes that a call has moved through `fd`. -/
def moved (s : System) (fd : Nat) (event : Nat → Inode → Bytes → Event) (bytes : Bytes) :
    FsResult Nat → List Event
  | .ok _ => ((Slots.get s.fds fd).map fun f => event fd f.inode bytes).toList
  | .error _ => []

/-- One call, or what happens between two of them; impossible if the call panics. -/
def step (s : System) : Action → Option (System × List Event)
  | .openPath path => some ((s.openPath path).2, issued (s.openPath path).1)
  | .installInode inode => some ((s.installInode inode).2, issued (s.installInode inode).1)
  | .read fd len =>
    match (s.read fd len pure).result with
    | .ok (r, s', bytes) => some (s', moved s fd .read bytes r)
    | .error _ => none
  | .write fd data =>
    match (s.write fd ⟨data.length, pure data⟩).result with
    | .ok (r, s') => some (s', moved s fd .wrote data r)
    | .error _ => none
  | .close fd => some ((s.close fd).2, [])
  | .key cp =>
    some ({ s with devices := { s.devices with keys := Shell.push s.devices.keys cp } }, [.key cp])
  | .other net texts => some ({ s with devices := { s.devices with net, texts } }, [])

/-! ## 2. What a history says -/

/-- What one event makes of the bytes read through `fd`. -/
def follow (fd : Nat) (sofar : Bytes) : Event → Bytes
  | .opened fd' => if fd' = fd then [] else sofar
  | .read fd' _ bytes => if fd' = fd then sofar ++ bytes else sofar
  | .wrote _ _ _ | .key _ => sofar

/-- The bytes read through `fd` since it was opened. -/
def stream (fd : Nat) (es : List Event) : Bytes := es.foldl (follow fd) []

/-- The keys that reads of /dev/kbd have taken, through whatever descriptor. -/
def keysTaken (es : List Event) : Bytes :=
  es.flatMap fun
    | .read _ .kbd bytes => bytes
    | _ => []

/-- The keys that were queued: ASCII only. -/
def keysTyped (es : List Event) : Bytes :=
  es.flatMap fun
    | .key cp => Shell.push [] cp
    | _ => []

/-- What was written to the console, through whatever descriptor. -/
def consoleOut (es : List Event) : Bytes :=
  es.flatMap fun
    | .wrote _ .console bytes => bytes
    | _ => []

/-- **The accounting** of a run that began with `keys` queued and `serial` sent. -/
structure Account (keys serial : Bytes) (es : List Event) (s : System) : Prop where
  files : ∀ fd f n, Slots.get s.fds fd = some f → f.inode = .node n →
    stream fd es = n.data.take f.offset
  keys : keysTaken es ++ s.devices.keys = keys ++ keysTyped es
  serial : s.devices.serial = serial ++ consoleOut es

/-! ## 3. One call -/

section Calls

variable {keys serial : Bytes} {es : List Event} {s s' : System}

theorem stream_append (fd : Nat) (es : List Event) (e : Event) :
    stream fd (es ++ [e]) = follow fd (stream fd es) e := by
  unfold stream
  rw [List.foldl_append]
  rfl

theorem keysTaken_append (es es' : List Event) :
    keysTaken (es ++ es') = keysTaken es ++ keysTaken es' :=
  List.flatMap_append

theorem keysTyped_append (es es' : List Event) :
    keysTyped (es ++ es') = keysTyped es ++ keysTyped es' :=
  List.flatMap_append

theorem consoleOut_append (es es' : List Event) :
    consoleOut (es ++ es') = consoleOut es ++ consoleOut es' := List.flatMap_append

/-- A read goes on where the cursor stands. -/
theorem take_append_readAt (data : Bytes) (offset len : Nat) :
    data.take offset ++ readAt data offset len =
      data.take (offset + (readAt data offset len).length) := by
  rw [length_readAt, readAt]
  split
  · rename_i h
    rw [List.append_nil, List.take_of_length_le h,
      List.take_of_length_le (Nat.le_trans h (Nat.le_add_right ..))]
  · rw [List.take_add]

/-- What a read does to the shared devices: only the keyboard loses what is read. -/
theorem read_devices {d : Devices} {i : Inode} {offset len : Nat} {bytes : Bytes}
    (h : (i.read d offset len).1 = .ok bytes) (fd : Nat) :
    keysTaken [.read fd i bytes] ++ (i.read d offset len).2.keys = d.keys ∧
      (i.read d offset len).2.serial = d.serial := by
  cases i with
  | kbd =>
    rw [Inode.read, Shell.popKeys_eq] at h
    cases h
    rw [Inode.read, Shell.popKeys_eq]
    refine ⟨?_, rfl⟩
    unfold keysTaken
    rw [List.flatMap_singleton]
    exact List.take_append_drop len d.keys
  | socket idx =>
    rw [Inode.read]
    split <;> exact ⟨rfl, rfl⟩
  | devDir | console | null | zero | procDir | procFile | node => exact ⟨rfl, rfl⟩

/-- What a write does to them: only the console takes what is written, and only if it succeeds. -/
theorem write_devices {d d' : Devices} {i : Inode} {data : Bytes} {r : FsResult Nat}
    (h : (i.write d ⟨data.length, pure data⟩).result = .ok (r, d')) (fd : Nat) :
    d'.keys = d.keys ∧ (∀ e, r = .error e → d'.serial = d.serial) ∧
      ∀ n, r = .ok n → d'.serial = d.serial ++ consoleOut [.wrote fd i data] ∧
      ∀ m, i ≠ .node m := by
  cases i with
  | console =>
    cases h
    refine ⟨rfl, fun _ he => (nomatch he), fun n _ => ⟨?_, fun _ => Inode.noConfusion⟩⟩
    rw [consoleOut, List.flatMap_singleton]
  | null | zero =>
    cases h
    exact ⟨rfl, fun _ _ => rfl, fun n _ => ⟨(List.append_nil _).symm, fun _ => Inode.noConfusion⟩⟩
  | socket idx =>
    rw [Inode.write, Traced.result_bind] at h
    obtain ⟨⟨r, net⟩, -, h⟩ := bind_eq_ok.mp h
    cases h
    exact ⟨rfl, fun _ _ => rfl, fun n _ => ⟨(List.append_nil _).symm, fun _ => Inode.noConfusion⟩⟩
  | devDir | procDir | procFile | node | kbd =>
    cases h
    exact ⟨rfl, fun _ _ => rfl, fun n hn => by cases hn⟩

/-- Nothing is moved, and the devices stay. -/
theorem Account.same (h : Account keys serial es s) (hfds : s'.fds = s.fds)
    (hkeys : s'.devices.keys = s.devices.keys) (hserial : s'.devices.serial = s.devices.serial) :
    Account keys serial (es ++ []) s' := by
  rw [List.append_nil]
  exact ⟨fun fd f n hf => h.files fd f n (hfds ▸ hf), hkeys ▸ h.keys, hserial ▸ h.serial⟩

/-- A new descriptor has read nothing. -/
theorem Account.opened (h : Account keys serial es s) (inode : Inode) :
    Account keys serial (es ++ issued (s.installInode inode).1) (s.installInode inode).2 := by
  rw [System.installInode_eq]
  split
  · refine ⟨fun fd f n hf hn => ?_, ?_, ?_⟩
    · dsimp only [issued] at hf ⊢
      rw [stream_append, follow]
      rw [Slots.get_insert] at hf
      by_cases hfd : fd = Slots.hole s.fds
      · rw [if_pos hfd] at hf
        rw [if_pos hfd.symm]
        cases hf
        rfl
      · rw [if_neg hfd] at hf
        rw [if_neg fun e => hfd e.symm]
        exact h.files fd f n hf hn
    · rw [keysTaken_append, keysTyped_append]
      simpa [issued, keysTaken, keysTyped] using h.keys
    · rw [consoleOut_append]
      simpa [issued, consoleOut] using h.serial
  · exact h.same rfl rfl rfl

/-- A file with another offset is the only change to the table. -/
theorem get_moved {fd fd' off : Nat} {f g : File Inode}
    (hfds : s'.fds = Slots.update s.fds fd fun g => { g with offset := off })
    (hf : Slots.get s.fds fd = some f) (hg : Slots.get s'.fds fd' = some g) :
    (fd = fd' ∧ g = { f with offset := off }) ∨ (fd ≠ fd' ∧ Slots.get s.fds fd' = some g) := by
  rw [hfds, Slots.get_update] at hg
  by_cases hfd : fd = fd'
  · subst hfd
    rw [if_pos rfl, hf] at hg
    cases hg
    exact .inl ⟨rfl, rfl⟩
  · rw [if_neg hfd] at hg
    exact .inr ⟨hfd, hg⟩

/-- A read into a buffer of the kernel hands over what the inode has answered. -/
theorem read_bytes {fd len : Nat} {f : File Inode} {bytes bytes' : Bytes} {r : FsResult Nat}
    (hf : Slots.get s.fds fd = some f)
    (hbytes : (f.inode.read s.devices f.offset len).1 = .ok bytes)
    (hr : (s.read fd len pure).result = .ok (r, s', bytes')) : bytes = bytes' := by
  rw [System.read, hf] at hr
  dsimp only at hr
  rcases hread : f.inode.read s.devices f.offset len with ⟨e | bs, devices⟩
  · rw [hread] at hbytes
    cases hbytes
  · rw [hread] at hbytes hr
    cases hbytes
    rw [Traced.result_bind] at hr
    obtain ⟨out, hout, hr⟩ := bind_eq_ok.mp hr
    cases hout
    rw [Traced.result_bind] at hr
    obtain ⟨s₁, -, hr⟩ := bind_eq_ok.mp hr
    cases hr
    rfl

theorem Account.read (h : Account keys serial es s) {fd len : Nat} {bytes : Bytes}
    {r : FsResult Nat} (hr : (s.read fd len pure).result = .ok (r, s', bytes)) :
    Account keys serial (es ++ moved s fd .read bytes r) s' := by
  rcases System.read_cases hr with
    ⟨-, rfl, rfl⟩ | ⟨f, e, -, rfl, rfl⟩ | ⟨f, bytes', hf, hbytes, rfl, hlt, hfds, hdev, -⟩
  · exact h.same rfl rfl rfl
  · exact h.same rfl rfl rfl
  · cases read_bytes hf hbytes hr
    have hevents : moved s fd .read bytes (.ok bytes.length) = [.read fd f.inode bytes] := by
      rw [moved, hf]
      rfl
    obtain ⟨hkeys, hserial⟩ := read_devices hbytes fd
    rw [← hdev] at hkeys hserial
    rw [hevents]
    refine ⟨fun fd' g n hg hn => ?_, ?_, ?_⟩
    · rw [stream_append, follow]
      rcases get_moved hfds hf hg with ⟨rfl, rfl⟩ | ⟨hne, hg⟩
      · have hinode : f.inode = .node n := hn
        rw [hinode] at hbytes
        cases hbytes
        rw [if_pos rfl, h.files fd f n hf hinode]
        exact take_append_readAt ..
      · rw [if_neg hne]
        exact h.files fd' g n hg hn
    · rw [keysTaken_append, List.append_assoc, hkeys, h.keys, keysTyped_append]
      exact (congrArg _ (List.append_nil _)).symm
    · rw [hserial, h.serial, consoleOut_append]
      exact (congrArg _ (List.append_nil _)).symm

theorem Account.write (h : Account keys serial es s) {fd : Nat} {data : Bytes} {r : FsResult Nat}
    (hr : (s.write fd ⟨data.length, pure data⟩).result = .ok (r, s')) :
    Account keys serial (es ++ moved s fd .wrote data r) s' := by
  rcases System.write_cases hr with
    ⟨-, rfl, rfl⟩ | ⟨f, hf, hw, -, ⟨e, rfl, hfds⟩ | ⟨n, rfl, -, hfds⟩⟩
  · exact h.same rfl rfl rfl
  · obtain ⟨hkeys, hserial, -⟩ := write_devices hw fd
    exact h.same hfds hkeys (hserial e rfl)
  · have hevents : moved s fd .wrote data (.ok n) = [.wrote fd f.inode data] := by
      rw [moved, hf]
      rfl
    obtain ⟨hkeys, -, hdone⟩ := write_devices hw fd
    obtain ⟨hserial, hnode⟩ := hdone n rfl
    rw [hevents]
    refine ⟨fun fd' g m hg hm => ?_, ?_, ?_⟩
    · rw [stream_append, follow]
      rcases get_moved hfds hf hg with ⟨rfl, rfl⟩ | ⟨-, hg⟩
      · exact absurd hm (hnode m)
      · exact h.files fd' g m hg hm
    · rw [keysTaken_append, keysTyped_append, hkeys]
      simpa [keysTaken, keysTyped] using h.keys
    · rw [hserial, h.serial, consoleOut_append, List.append_assoc]

theorem Account.close (h : Account keys serial es s) (fd : Nat) :
    Account keys serial (es ++ []) (s.close fd).2 := by
  unfold System.close Fs.close
  cases hget : Slots.get s.fds fd with
  | none => exact h.same rfl rfl rfl
  | some f =>
    rw [List.append_nil]
    refine ⟨fun fd' g n hg hn => ?_, h.keys, h.serial⟩
    rw [Slots.get_clear] at hg
    split at hg
    · cases hg
    · exact h.files fd' g n hg hn

/-- **One step keeps the accounts.** -/
theorem Account.step (h : Account keys serial es s) {a : Action} {es' : List Event}
    (hs : step s a = some (s', es')) : Account keys serial (es ++ es') s' := by
  cases a with
  | openPath path =>
    cases hs
    rw [System.openPath_eq]
    cases hres : resolve Inode.lookup s.mounts path with
    | error e => exact h.same rfl rfl rfl
    | ok inode => exact h.opened inode
  | installInode inode =>
    cases hs
    exact h.opened inode
  | read fd len =>
    rw [Streams.step] at hs
    split at hs
    · rename_i hr
      cases hs
      exact h.read hr
    · cases hs
  | write fd data =>
    rw [Streams.step] at hs
    split at hs
    · rename_i hr
      cases hs
      exact h.write hr
    · cases hs
  | close fd =>
    cases hs
    exact h.close fd
  | key cp =>
    cases hs
    refine ⟨fun fd f n hf hn => ?_, ?_, ?_⟩
    · rw [stream_append]
      exact h.files fd f n hf hn
    · dsimp only
      rw [keysTaken_append, keysTyped_append, Shell.push_append, ← List.append_assoc keys, ← h.keys]
      simp [keysTaken, keysTyped]
    · rw [consoleOut_append]
      exact h.serial.trans (congrArg _ (List.append_nil _).symm)
  | other net texts =>
    cases hs
    exact h.same rfl rfl rfl

end Calls

/-! ## 4. Every run -/

theorem Account.run {s₀ s : System} {es : List Event}
    (hnone : ∀ fd f n, Slots.get s₀.fds fd = some f →
    f.inode = .node n → f.offset = 0) (h : Run Streams.step anyStep s₀ es s) :
    Account s₀.devices.keys s₀.devices.serial es s := by
  refine h.invariant_events (I := fun es s => Account s₀.devices.keys s₀.devices.serial es s) ?_
    fun es s a s' es' hA _ hs => hA.step hs
  refine ⟨fun fd f n hf hn => ?_, (List.append_nil _).symm, (List.append_nil _).symm⟩
  rw [hnone fd f n hf hn]
  rfl

end Streams

/-- **Every reader gets its bytes.** After `fs::init`, whatever calls are made on whatever
    descriptors, with keys arriving and the rest of the kernel moving on in between: through an open
    descriptor of a ramdisk file the first `offset` bytes of the file have been read since it was
    opened, in order, whoever else reads it; the next read gets no byte exactly if all have been;
    each key that was queued has been taken by one read of /dev/kbd or is still queued, in the order
    of typing; and what has gone to the serial port through the console (`println!` apart) is what
    was written to it, in the order of the writes. -/
theorem file_streams {tar : Bytes} {devices : Devices} {s₀ s : System} {es : List Streams.Event}
    (hinit : System.init tar devices = .ok s₀) (h : Run Streams.step anyStep s₀ es s) :
    (∀ fd f n, Slots.get s.fds fd = some f → f.inode = .node n →
      Streams.stream fd es = n.data.take f.offset ∧
      ∀ len, 0 < len → (s.answered fd len = [] ↔ Streams.stream fd es = n.data)) ∧
    Streams.keysTaken es ++ s.devices.keys = devices.keys ++ Streams.keysTyped es ∧
    s.devices.serial = devices.serial ++ Streams.consoleOut es := by
  obtain ⟨root, path, inode, fds, -, hseed, rfl⟩ := System.init_eq_ok hinit
  have hzero : ∀ fd f n, Slots.get fds fd = some f → f.inode = .node n → f.offset = 0 := by
    intro fd f n hf _
    have hfds : [some ⟨inode, 0⟩, some ⟨inode, 0⟩, some ⟨inode, 0⟩] = fds := Except.ok.inj hseed
    have hmem := List.mem_of_getElem? (Slots.get_eq_some_iff.mp hf)
    simp only [← hfds, List.mem_cons, Option.some.injEq, List.not_mem_nil, or_false,
      or_self] at hmem
    rw [hmem]
  have hA := Streams.Account.run hzero h
  refine ⟨fun fd f n hf hn => ⟨hA.files fd f n hf hn, fun len hlen => ?_⟩, hA.keys, hA.serial⟩
  have hanswer : s.answered fd len = readAt n.data f.offset len := by
    rw [System.answered, hf]
    dsimp only
    rw [hn]
    rfl
  have hall : n.data.take f.offset = n.data ↔ n.data.length ≤ f.offset := by
    refine ⟨fun e => ?_, List.take_of_length_le⟩
    have hlength := congrArg List.length e
    rw [List.length_take] at hlength
    omega
  rw [hanswer, hA.files fd f n hf hn, ← List.length_eq_zero_iff, length_readAt, hall]
  omega

/-- The state after `fs::init` over the sample archive, with the standard streams. -/
def sampleBoot : System :=
  { sampleSystem with fds := List.replicate 3 (some ⟨.console, 0⟩) }

theorem init_sample : System.init (archive sampleMembers) (.quiet none) = .ok sampleBoot := by
  rw [System.init, fromTar_sample]
  rfl

/-- Two readers of one file and one of the keyboard, by turns, and a line on the console. -/
def sampleCalls : List Streams.Action :=
  [.openPath (underInitrd (ascii ['a', '/', 'b'])), .openPath (underInitrd (ascii ['a', '/', 'b'])),
    .openPath (ascii ['/', 'd', 'e', 'v', '/', 'k', 'b', 'd']), .read 3 2, .key 0x68, .read 4 1,
    .read 3 5, .key 0xe9, .key 0x69, .read 5 1, .write 1 (ascii ['o', 'k'])]

theorem file_streams_sample : ∃ es s, Run Streams.step anyStep sampleBoot es s ∧
    Streams.stream 3 es = [1#8, 2#8, 3#8] ∧ Streams.stream 4 es = [1#8] ∧
    Streams.keysTaken es ++ s.devices.keys = [0x68#8, 0x69#8] ∧ Streams.keysTaken es = [0x68#8] ∧
    s.devices.serial = ascii ['o', 'k'] := by
  have hexec : exec Streams.step (fun _ _ => true) sampleBoot sampleCalls = some (_, _) := rfl
  have hrun := (run_of_exec sampleCalls hexec).any
  obtain ⟨hfiles, hkeys, hserial⟩ := file_streams init_sample hrun
  exact ⟨_, _, hrun, (hfiles 3 _ _ rfl rfl).1, (hfiles 4 _ _ rfl rfl).1, hkeys, rfl, hserial⟩

end SimpleLinux.Fs
