/-
  File:      SimpleLinux/Fs/Inode.lean
  Subject:   The inodes of the kernel and the calls on them: devfs.rs, procfs.rs, the `Inode` of
             initrd.rs and socket.rs, and fs/mod.rs over them.

  The implementations of the trait `Inode` are the constructors of a type; what they act on, the
  serial port, the keyboard buffer and the network, is one state. The text of a /proc file is made
  from counters that nothing here changes: it is part of that state.

  A read hands its bytes to the buffer behind it (`put`), a write takes them from a slice that is
  read by need, so that one sees which of them the pointers of a caller are followed for.

  * `Inode.lookup`, `Inode.read`, `Inode.write`, `Inode.sockIndex` -- the trait;
  * `System.open`, `read`, `write`, `close`, `installInode`, `init` -- fs/mod.rs;
  * `System.read_table`, `System.write_table` -- on the descriptors these are the calls of the
    table.
-/
import SimpleLinux.Fs.Descriptors
import SimpleLinux.Fs.Initrd
import SimpleLinux.Net.Socket

namespace SimpleLinux.Fs

open Rust Paging
open Net (Byte Bytes)

/-! ## 1. The inodes -/

/-- The text of an ASCII string. -/
def ascii (text : List Char) : Str := text.map fun c => BitVec.ofNat 8 c.toNat

/-- The `gen` of a `ProcFile`. -/
inductive ProcText
  | meminfo
  | uptime
  deriving DecidableEq

inductive Inode
  | devDir
  | console
  | null
  | zero
  | kbd
  | procDir
  | procFile (gen : ProcText)
  | node (n : InodeNode)
  | socket (idx : Nat)

/-- What the inodes act on. -/
structure Devices where
  net : Net.Stack
  /-- the `buffer` of keyboard.rs, the oldest key first -/
  keys : Bytes
  /-- what has been sent to COM1 -/
  serial : Bytes
  /-- what a /proc file would say now -/
  texts : ProcText → Bytes

/-- Nothing has happened yet; with or without a network card. -/
def Devices.quiet (nic : Option Net.MacAddr) : Devices where
  net := { nic, cache := fun _ => none, sockets := [], sent := [] }
  keys := []
  serial := []
  texts := fun _ => []

/-- The loop of `Kbd::read`: `read_key` until the buffer is full or no key is left. -/
def popKeys : Nat → Bytes → Bytes × Bytes
  | len + 1, key :: keys => (key :: (popKeys len keys).1, (popKeys len keys).2)
  | 0, keys => ([], keys)
  | _ + 1, [] => ([], [])

namespace Inode

def kind : Inode → FileKind
  | devDir => .dir
  | console => .charDev
  | null => .charDev
  | zero => .charDev
  | kbd => .charDev
  | procDir => .dir
  | procFile _ => .file
  | node n => n.kind
  | socket _ => .charDev

def lookup : Inode → Str → FsResult Inode
  | devDir, name =>
    if name = ascii ['c', 'o', 'n', 's', 'o', 'l', 'e'] then .ok console
    else if name = ascii ['n', 'u', 'l', 'l'] then .ok null
    else if name = ascii ['z', 'e', 'r', 'o'] then .ok zero
    else if name = ascii ['k', 'b', 'd'] then .ok kbd
    else .error .notFound
  | procDir, name =>
    if name = ascii ['m', 'e', 'm', 'i', 'n', 'f', 'o'] then .ok (procFile .meminfo)
    else if name = ascii ['u', 'p', 't', 'i', 'm', 'e'] then .ok (procFile .uptime)
    else .error .notFound
  | node n, name => (n.lookup name).map node
  | _, _ => .error .notFound

/-- The bytes that a read puts at the start of a buffer of `len` bytes. -/
def read (d : Devices) : Inode → Nat → Nat → FsResult Bytes × Devices
  | console, _, _ => (.ok [], d)
  | null, _, _ => (.ok [], d)
  | zero, _, len => (.ok (List.replicate len 0#8), d)
  | kbd, _, len => (.ok (popKeys len d.keys).1, { d with keys := (popKeys len d.keys).2 })
  | procFile gen, offset, len => (.ok (readAt (d.texts gen) offset len), d)
  | node n, offset, len => (n.read offset len, d)
  | socket idx, _, len =>
    match Net.Sockets.recvfrom d.net idx len with
    | (some (bytes, _, _), net) => (.ok bytes, { d with net })
    | (none, net) => (.ok [], { d with net })
  | devDir, _, _ => (.error .permissionDenied, d)
  | procDir, _, _ => (.error .permissionDenied, d)

def write (d : Devices) (data : Source) : Inode → Traced (FsResult Nat × Devices)
  | console => do
    let bytes ← data.bytes
    return (.ok data.len, { d with serial := d.serial ++ bytes })
  | null => pure (.ok data.len, d)
  | zero => pure (.ok data.len, d)
  | socket idx => do
    let (r, net) ← Net.Sockets.write d.net idx data
    return (r, { d with net })
  | _ => pure (.error .permissionDenied, d)

def sockIndex : Inode → Option Nat
  | socket idx => some idx
  | _ => none

end Inode

/-! ## 2. The file layer -/

structure System where
  fds : FdTable Inode
  mounts : List (Str × Inode)
  devices : Devices

namespace System

def openPath (s : System) (path : Str) : FsResult Nat × System :=
  let (r, fds) := Fs.openPath s.fds (resolve Inode.lookup s.mounts path)
  (r, { s with fds })

def installInode (s : System) (inode : Inode) : FsResult Nat × System :=
  let (r, fds) := Fs.installInode s.fds inode
  (r, { s with fds })

/-- The offset of a descriptor after `n` bytes more. -/
def advance (s : System) (fd n : Nat) (f : File Inode) : Res System := do
  let offset ← add 64 f.offset n
  return { s with fds := Slots.update s.fds fd fun f => { f with offset } }

/-- The bytes go through `put` before the offset moves; without any, `put` gets none. -/
def read {β : Type} (s : System) (fd len : Nat) (put : Bytes → Traced β) :
    Traced (FsResult Nat × System × β) :=
  match Slots.get s.fds fd with
  | none => do return (.error .invalidArg, s, ← put [])
  | some f =>
    match f.inode.read s.devices f.offset len with
    | (.error e, devices) => do return (.error e, { s with devices }, ← put [])
    | (.ok bytes, devices) => do
      let out ← put bytes
      let s' ← Traced.lift (advance { s with devices } fd bytes.length f)
      return (.ok bytes.length, s', out)

def write (s : System) (fd : Nat) (data : Source) : Traced (FsResult Nat × System) :=
  match Slots.get s.fds fd with
  | none => pure (.error .invalidArg, s)
  | some f => do
    match ← f.inode.write s.devices data with
    | (.error e, devices) => return (.error e, { s with devices })
    | (.ok n, devices) =>
      let s' ← Traced.lift (advance { s with devices } fd n f)
      return (.ok n, s')

def close (s : System) (fd : Nat) : FsResult Unit × System :=
  let (r, fds) := Fs.close s.fds fd
  (r, { s with fds })

def sockIndex (s : System) (fd : Nat) : Option Nat :=
  (Slots.get s.fds fd).bind fun f => f.inode.sockIndex

/-- The mounts of `fs::init`. -/
def mountTable (initrd : InodeNode) : List (Str × Inode) :=
  [(ascii ['/', 'd', 'e', 'v'], .devDir), (ascii ['/', 'p', 'r', 'o', 'c'], .procDir),
    (ascii ['/', 'i', 'n', 'i', 't', 'r', 'd'], .node initrd)]

/-- The three standard streams on the console. -/
def seed (t : FdTable Inode) (inode : Inode) : Nat → Exec (FdTable Inode)
  | 0 => .ok t
  | n + 1 =>
    match install t ⟨inode, 0⟩ with
    | (some _, t') => seed t' inode n
    | (none, _) => .error (.expect "no free fd for std stream")

/-- `fs::init` over an empty mount table and no descriptors. -/
def init (tar : Bytes) (devices : Devices) : Exec System := do
  let initrd ← lift (InodeNode.fromTar tar)
  let mounts := mountTable initrd
  match resolve Inode.lookup mounts
      (ascii ['/', 'd', 'e', 'v', '/', 'c', 'o', 'n', 's', 'o', 'l', 'e']) with
  | .ok inode => return { fds := ← seed [] inode 3, mounts, devices }
  | .error _ => .error (.expect "devfs must provide /dev/console")

end System

/-! ## 3. What an inode can do -/

theorem length_popKeys (len : Nat) (keys : Bytes) : (popKeys len keys).1.length ≤ len := by
  induction len generalizing keys with
  | zero => exact Nat.le_refl 0
  | succ len ih =>
    rcases keys with - | ⟨key, keys⟩
    · exact Nat.zero_le _
    · rw [popKeys, List.length_cons]
      exact Nat.succ_le_succ (ih keys)

/-- No inode finds a socket by name. -/
theorem lookup_sockIndex {i j : Inode} {name : Str} (h : i.lookup name = .ok j) :
    j.sockIndex = none := by
  rcases i with - | - | - | - | - | - | gen | n | idx
  case devDir | procDir =>
    rw [Inode.lookup] at h
    split_ifs at h
    all_goals cases h
    all_goals rfl
  case node =>
    rw [Inode.lookup] at h
    rcases hl : n.lookup name with e | m
    · rw [hl] at h
      cases h
    · rw [hl] at h
      cases h
      rfl
  all_goals cases h

/-- A path never leads to a socket. -/
theorem resolve_sockIndex {mounts : List (Str × Inode)} (hm : ∀ m ∈ mounts, m.2.sockIndex = none)
    {path : Str} {i : Inode} (h : resolve Inode.lookup mounts path = .ok i) : i.sockIndex = none :=
  resolve_induction (P := fun i => i.sockIndex = none) hm (fun _ hj => lookup_sockIndex hj) h

namespace Inode

variable {d d' : Devices} {data : Source}

/-- A read fills at most its buffer. -/
theorem length_read {i : Inode} {offset len : Nat} {bytes : Bytes}
    (h : (i.read d offset len).1 = .ok bytes) : bytes.length ≤ len := by
  rcases i with - | - | - | - | - | - | gen | n | idx
  · cases h
  · cases h
    exact Nat.zero_le _
  · cases h
    exact Nat.zero_le _
  · cases h
    exact Nat.le_of_eq List.length_replicate
  · cases h
    exact length_popKeys len d.keys
  · cases h
  · cases h
    rw [length_readAt]
    exact Nat.min_le_left ..
  · cases h
    rw [length_readAt]
    exact Nat.min_le_left ..
  · rw [read] at h
    unfold Net.Sockets.recvfrom at h
    split at h
    · rename_i src sport net hr
      cases h
      split at hr
      · cases hr
      · split at hr
        · cases hr
        · cases hr
          rw [List.length_take]
          omega
    · cases h
      exact Nat.zero_le _

/-- A read that fails does nothing. -/
theorem read_error {i : Inode} {offset len : Nat} {e : FsError}
    (h : (i.read d offset len).1 = .error e) : (i.read d offset len).2 = d := by
  rcases i with - | - | - | - | - | - | gen | n | idx
  case socket =>
    rw [read] at h
    split at h
    · cases h
    · cases h
  all_goals first | rfl | cases h

/-- The inode reads the bytes that are written to it. -/
def Takes (d : Devices) : Inode → Prop
  | console => True
  | socket idx => (Net.Sockets.route d.net idx).isSome
  | _ => False

instance (d : Devices) : (i : Inode) → Decidable (i.Takes d)
  | devDir => isFalse id
  | console => isTrue trivial
  | null => isFalse id
  | zero => isFalse id
  | kbd => isFalse id
  | procDir => isFalse id
  | procFile _ => isFalse id
  | node _ => isFalse id
  | socket idx => inferInstanceAs (Decidable ((Net.Sockets.route d.net idx).isSome = true))

/-- The pointer behind the data is followed by these inodes, and by no other. -/
theorem touches_write {W : Nat → Prop} (d : Devices) (h : data.bytes.Touches W) (i : Inode) :
    (i.write d data).Touches fun a => i.Takes d ∧ W a := by
  have hnone : ∀ {j : Inode} {r : FsResult Nat × Devices}, ¬ j.Takes d →
      (pure r : Traced (FsResult Nat × Devices)).Touches fun a => j.Takes d ∧ W a :=
    fun hj => (Traced.touches_pure _).congr fun a => ⟨False.elim, fun ha => hj ha.1⟩
  have hall : ∀ {j : Inode} {x : Traced (FsResult Nat × Devices)}, j.Takes d → x.Touches W →
      x.Touches fun a => j.Takes d ∧ W a :=
    fun hj hx => hx.congr fun a => ⟨fun ha => ⟨hj, ha⟩, And.right⟩
  rcases i with - | - | - | - | - | - | gen | n | idx
  case console => exact hall trivial (h.bind _ fun _ => rfl)
  case socket =>
    rcases hr : Net.Sockets.route d.net idx with - | ⟨ip, port⟩
    · have hnot : ¬ (socket idx).Takes d := by
        rw [Takes, hr]
        simp
      rw [write, Net.Sockets.write_refused data hr]
      exact hnone hnot
    · have htakes : (socket idx).Takes d := by
        rw [Takes, hr]
        rfl
      rw [write, Net.Sockets.write_routed data hr]
      refine hall htakes ((h.bind _ fun bytes => ?_).bind _ fun _ => rfl)
      exact Traced.trace_bind_quiet _ _ fun _ => rfl
  all_goals exact hnone id

/-- A write touches neither the sockets nor the keyboard, and takes everything or fails. -/
theorem write_spec {i : Inode} {r : FsResult Nat} (h : (i.write d data).result = .ok (r, d')) :
    d'.net.sockets = d.net.sockets ∧ d'.keys = d.keys ∧ ∀ n, r = .ok n → n = data.len := by
  have hquiet : ∀ e : FsError, (.error e : FsResult Nat) = r → ∀ n, r = .ok n → n = data.len := by
    rintro e rfl n hn
    cases hn
  rcases i with - | - | - | - | - | - | gen | n | idx
  case console =>
    rw [write, Traced.result_bind] at h
    obtain ⟨bytes, -, he⟩ := bind_eq_ok.mp h
    cases he
    refine ⟨rfl, rfl, ?_⟩
    rintro n ⟨⟩
    rfl
  case socket =>
    rw [write, Traced.result_bind] at h
    obtain ⟨⟨r', net⟩, hw, he⟩ := bind_eq_ok.mp h
    cases he
    rcases hr : Net.Sockets.route d.net idx with - | ⟨ip, port⟩
    · rw [Net.Sockets.write_refused data hr] at hw
      cases hw
      exact ⟨rfl, rfl, hquiet _ rfl⟩
    · rw [Net.Sockets.write_routed data hr, Traced.result_bind] at hw
      obtain ⟨bytes, -, hw⟩ := bind_eq_ok.mp hw
      rw [Traced.result_bind] at hw
      obtain ⟨frame, -, hw⟩ := bind_eq_ok.mp hw
      cases hw
      refine ⟨Net.Sockets.e1000Send_sockets .., rfl, fun n hn => ?_⟩
      split at hn
      · cases hn
        rfl
      · cases hn
  case null | zero =>
    cases h
    refine ⟨rfl, rfl, ?_⟩
    rintro n ⟨⟩
    rfl
  all_goals
    cases h
    exact ⟨rfl, rfl, hquiet _ rfl⟩

/-- The frame that a write hands to the driver. -/
def frameOf (d : Devices) (data : Source) (i : Inode) : Option Bytes :=
  i.sockIndex.bind fun idx => Net.Sockets.frameOf d.net idx data

theorem write_sent {i : Inode} {r : FsResult Nat} (h : (i.write d data).result = .ok (r, d')) :
    d'.net.sent = d.net.sent ++ if d.net.nic.isSome then (i.frameOf d data).toList else [] := by
  have hnone : d.net.sent = d.net.sent ++ if d.net.nic.isSome then [] else [] := by
    rw [ite_self, List.append_nil]
  rcases i with - | - | - | - | - | - | gen | n | idx
  case socket =>
    rw [write, Traced.result_bind] at h
    obtain ⟨⟨r', net⟩, hw, he⟩ := bind_eq_ok.mp h
    cases he
    exact Net.Sockets.write_sent hw
  case console =>
    rw [write, Traced.result_bind] at h
    obtain ⟨bytes, -, he⟩ := bind_eq_ok.mp h
    cases he
    exact hnone
  all_goals
    cases h
    exact hnone

theorem read_sent (d : Devices) (i : Inode) (offset len : Nat) :
    (i.read d offset len).2.net.sent = d.net.sent := by
  rcases i with - | - | - | - | - | - | gen | n | idx
  case socket =>
    rw [read]
    unfold Net.Sockets.recvfrom
    rcases Slots.get d.net.sockets idx with - | k
    · rfl
    · dsimp only
      rcases k.rx with - | ⟨⟨src, sport, data⟩, rx⟩
      · rfl
      · rfl
  all_goals rfl

end Inode

/-! ## 4. What a call can do -/

namespace System

variable {β : Type} {s s' : System}

/-- A new descriptor is the first free one. -/
theorem installInode_eq (s : System) (inode : Inode) :
    s.installInode inode =
      if Slots.hole s.fds < maxFds ∨ Slots.hole s.fds < s.fds.length then
        (.ok (Slots.hole s.fds), { s with fds := Slots.insert s.fds ⟨inode, 0⟩ })
      else (.error .noSpace, s) := by
  rw [installInode, Fs.installInode_eq]
  by_cases hroom : Slots.hole s.fds < maxFds ∨ Slots.hole s.fds < s.fds.length
  · rw [if_pos hroom, if_pos hroom]
  · rw [if_neg hroom, if_neg hroom]

theorem openPath_eq (s : System) (path : Str) :
    s.openPath path = match resolve Inode.lookup s.mounts path with
      | .ok inode => s.installInode inode
      | .error e => (.error e, s) := by
  rw [openPath]
  rcases resolve Inode.lookup s.mounts path with e | inode
  · rfl
  · rfl

theorem openPath_devices (s : System) (path : Str) : (s.openPath path).2.devices = s.devices := by
  rw [openPath_eq]
  rcases resolve Inode.lookup s.mounts path with e | inode
  · rfl
  · dsimp only
    rw [installInode_eq]
    split
    · rfl
    · rfl

theorem mountTable_sockIndex (root : InodeNode) : ∀ m ∈ mountTable root, m.2.sockIndex = none := by
  intro m hm
  simp only [mountTable, List.mem_cons, List.not_mem_nil, or_false] at hm
  rcases hm with rfl | rfl | rfl
  · rfl
  · rfl
  · rfl

/-- What `fs::init` leaves: the three mounts and the standard streams, all on one inode. -/
theorem init_eq_ok {tar : Bytes} {devices : Devices} (h : init tar devices = .ok s) :
    ∃ root path inode fds, resolve Inode.lookup (mountTable root) path = .ok inode ∧
      seed [] inode 3 = .ok fds ∧ s = ⟨fds, mountTable root, devices⟩ := by
  rw [init] at h
  obtain ⟨root, -, h⟩ := bind_eq_ok.mp h
  dsimp only at h
  split at h
  · rename_i inode hres
    obtain ⟨fds, hseed, he⟩ := bind_eq_ok.mp h
    exact ⟨root, _, inode, fds, hres, hseed, (Except.ok.inj he).symm⟩
  · cases h

theorem advance_eq_ok {fd n : Nat} {f : File Inode} :
    advance s fd n f = .ok s' ↔ f.offset + n < 2 ^ 64 ∧
      s' = { s with fds := Slots.update s.fds fd fun g => { g with offset := f.offset + n } } := by
  unfold advance
  rw [bind_eq_ok]
  constructor
  · intro ⟨c, hc, hs⟩
    obtain ⟨hlt, rfl⟩ := add_eq_ok.mp hc
    cases hs
    exact ⟨hlt, rfl⟩
  · rintro ⟨hlt, rfl⟩
    exact ⟨_, add_of_lt hlt, rfl⟩

/-- **A read**: refused for want of a file, refused by the inode, or answered. -/
theorem read_cases {fd len : Nat} {put : Bytes → Traced β} {r : FsResult Nat} {out : β}
    (h : (s.read fd len put).result = .ok (r, s', out)) :
    (Slots.get s.fds fd = none ∧ r = .error .invalidArg ∧ s' = s) ∨
    (∃ f e, Slots.get s.fds fd = some f ∧ r = .error e ∧ s' = s) ∨
    ∃ f bytes, Slots.get s.fds fd = some f ∧
      (f.inode.read s.devices f.offset len).1 = .ok bytes ∧ r = .ok bytes.length ∧
      f.offset + bytes.length < 2 ^ 64 ∧
      s'.fds = Slots.update s.fds fd (fun g => { g with offset := f.offset + bytes.length }) ∧
      s'.devices = (f.inode.read s.devices f.offset len).2 ∧ s'.mounts = s.mounts := by
  rw [read] at h
  rcases hget : Slots.get s.fds fd with - | f
  · rw [hget, Traced.result_bind] at h
    obtain ⟨o, -, he⟩ := bind_eq_ok.mp h
    cases he
    exact .inl ⟨rfl, rfl, rfl⟩
  · rw [hget] at h
    dsimp only at h
    rcases hread : f.inode.read s.devices f.offset len with ⟨e | bytes, devices⟩
    · rw [hread, Traced.result_bind] at h
      obtain ⟨o, -, he⟩ := bind_eq_ok.mp h
      have herr : (f.inode.read s.devices f.offset len).1 = .error e := by rw [hread]
      have hsame := Inode.read_error herr
      rw [hread] at hsame
      have hdev : devices = s.devices := hsame
      cases he
      refine .inr (.inl ⟨f, e, rfl, rfl, ?_⟩)
      rw [hdev]
    · rw [hread, Traced.result_bind] at h
      obtain ⟨o, -, h⟩ := bind_eq_ok.mp h
      rw [Traced.result_bind] at h
      obtain ⟨s₁, hs₁, he⟩ := bind_eq_ok.mp h
      cases he
      obtain ⟨hlt, rfl⟩ := advance_eq_ok.mp (lift_eq_ok.mp hs₁)
      exact .inr (.inr ⟨f, bytes, rfl, by rw [hread], rfl, hlt, rfl, by rw [hread], rfl⟩)

/-- **A write**: refused for want of a file, refused by the inode, or done. -/
theorem write_cases {fd : Nat} {data : Source} {r : FsResult Nat}
    (h : (s.write fd data).result = .ok (r, s')) :
    (Slots.get s.fds fd = none ∧ r = .error .invalidArg ∧ s' = s) ∨
    ∃ f, Slots.get s.fds fd = some f ∧
      (f.inode.write s.devices data).result = .ok (r, s'.devices) ∧ s'.mounts = s.mounts ∧
      ((∃ e, r = .error e ∧ s'.fds = s.fds) ∨
        ∃ n, r = .ok n ∧ f.offset + n < 2 ^ 64 ∧
          s'.fds = Slots.update s.fds fd fun g => { g with offset := f.offset + n }) := by
  rw [write] at h
  rcases hget : Slots.get s.fds fd with - | f
  · rw [hget] at h
    cases h
    exact .inl ⟨rfl, rfl, rfl⟩
  · rw [hget] at h
    dsimp only at h
    rw [Traced.result_bind] at h
    obtain ⟨⟨e | n, devices⟩, hw, h⟩ := bind_eq_ok.mp h
    · cases h
      exact .inr ⟨f, rfl, hw, rfl, .inl ⟨e, rfl, rfl⟩⟩
    · dsimp only at h
      rw [Traced.result_bind] at h
      obtain ⟨s₁, hs₁, he⟩ := bind_eq_ok.mp h
      cases he
      obtain ⟨hlt, rfl⟩ := advance_eq_ok.mp (lift_eq_ok.mp hs₁)
      exact .inr ⟨f, rfl, hw, rfl, .inr ⟨n, rfl, hlt, rfl⟩⟩

theorem read_mounts {fd len : Nat} {put : Bytes → Traced β} {r : FsResult Nat} {out : β}
    (h : (s.read fd len put).result = .ok (r, s', out)) : s'.mounts = s.mounts := by
  rcases read_cases h with ⟨-, -, hsame⟩ | ⟨-, -, -, -, hsame⟩ | ⟨-, -, -, -, -, -, -, -, hmounts⟩
  · rw [hsame]
  · rw [hsame]
  · exact hmounts

theorem write_mounts {fd : Nat} {data : Source} {r : FsResult Nat}
    (h : (s.write fd data).result = .ok (r, s')) : s'.mounts = s.mounts := by
  rcases write_cases h with ⟨-, -, hsame⟩ | ⟨-, -, -, hmounts, -⟩
  · rw [hsame]
  · exact hmounts

/-- The bytes that a read hands to its buffer. -/
def answered (s : System) (fd len : Nat) : Bytes :=
  match Slots.get s.fds fd with
  | none => []
  | some f =>
    match (f.inode.read s.devices f.offset len).1 with
    | .ok bytes => bytes
    | .error _ => []

/-- A read dereferences what `put` does, for the bytes it hands over. -/
theorem touches_read {W : Nat → Prop} {fd len : Nat} {put : Bytes → Traced β}
    (h : (put (s.answered fd len)).Touches W) : (s.read fd len put).Touches W := by
  unfold answered at h
  rw [read]
  rcases hget : Slots.get s.fds fd with - | f
  · rw [hget] at h
    exact h.bind _ fun _ => rfl
  · rw [hget] at h
    dsimp only at h ⊢
    rcases hread : f.inode.read s.devices f.offset len with ⟨e | bytes, devices⟩
    · rw [hread] at h
      exact h.bind _ fun _ => rfl
    · rw [hread] at h
      refine h.bind _ fun out => ?_
      exact Traced.trace_bind_quiet _ _ fun _ => rfl

/-- The descriptor stands for an inode that reads the bytes written to it. -/
def Takes (s : System) (fd : Nat) : Prop :=
  ∃ f ∈ Slots.get s.fds fd, f.inode.Takes s.devices

instance (s : System) (fd : Nat) : Decidable (s.Takes fd) :=
  inferInstanceAs (Decidable (∃ f ∈ Slots.get s.fds fd, _))

theorem touches_write {W : Nat → Prop} {data : Source} (h : data.bytes.Touches W) (s : System)
    (fd : Nat) : (s.write fd data).Touches fun a => s.Takes fd ∧ W a := by
  rw [write]
  rcases hget : Slots.get s.fds fd with - | f
  · have hnot : ¬ s.Takes fd := by simp [Takes, hget]
    exact (Traced.touches_pure _).congr fun a => ⟨False.elim, fun ha => hnot ha.1⟩
  · have htakes : s.Takes fd ↔ f.inode.Takes s.devices := by simp [Takes, hget]
    refine ((Inode.touches_write s.devices h f.inode).congr fun a => ?_).bind _ ?_
    · rw [htakes]
    · rintro ⟨e | n, devices⟩
      · rfl
      · exact Traced.trace_bind_quiet _ _ fun _ => rfl

/-- The answer of an inode as the table's `transfer` sees it. -/
theorem transfer_eq {t : FdTable Inode} {fd : Nat} {f : File Inode}
    (hget : Slots.get t fd = some f) :
    (∀ e, transfer t fd (fun _ => .error e) = .ok (.error e, t)) ∧
    ∀ n, f.offset + n < 2 ^ 64 → transfer t fd (fun _ => .ok n) =
      .ok (.ok n, Slots.update t fd fun g => { g with offset := f.offset + n }) := by
  unfold transfer
  rw [hget]
  refine ⟨fun e => rfl, fun n hlt => ?_⟩
  dsimp only
  rw [add_of_lt hlt]
  rfl

/-- On the descriptors, `read` is the `read` of the table. -/
theorem read_table {fd len : Nat} {put : Bytes → Traced β} {r : FsResult Nat} {out : β}
    (h : (s.read fd len put).result = .ok (r, s', out)) :
    Fs.read s.fds fd (fun _ _ => r) = .ok (r, s'.fds) := by
  rcases read_cases h with ⟨hget, rfl, rfl⟩ | ⟨f, e, hget, rfl, rfl⟩ |
    ⟨f, bytes, hget, -, rfl, hlt, hfds, -⟩
  · simp only [Fs.read, transfer, hget]
  · exact (transfer_eq hget).1 e
  · rw [hfds]
    exact (transfer_eq hget).2 _ hlt

/-- So is `write`. -/
theorem write_table {fd : Nat} {data : Source} {r : FsResult Nat}
    (h : (s.write fd data).result = .ok (r, s')) :
    Fs.write s.fds fd (fun _ _ => r) = .ok (r, s'.fds) := by
  rcases write_cases h with ⟨hget, rfl, rfl⟩ | ⟨f, hget, -, -, ⟨e, rfl, hfds⟩ | ⟨n, rfl, hlt, hfds⟩⟩
  · simp only [Fs.write, transfer, hget]
  · rw [hfds]
    exact (transfer_eq hget).1 e
  · rw [hfds]
    exact (transfer_eq hget).2 _ hlt

end System

end SimpleLinux.Fs
