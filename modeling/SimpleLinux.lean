import SimpleLinux.Lib.Runs
import SimpleLinux.Lib.Slots
import SimpleLinux.Process.Task
import SimpleLinux.Process.Scheduler
import SimpleLinux.Process.Machine
import SimpleLinux.Process.Invariant
import SimpleLinux.Process.History
import SimpleLinux.Process.RoundRobin
import SimpleLinux.Process.Join
import SimpleLinux.Process.Blocking
import SimpleLinux.Lib.Spin
import SimpleLinux.Process.Eoi
import SimpleLinux.Process.Idle
import SimpleLinux.Process.Locks
import SimpleLinux.Lib.X86
import SimpleLinux.Syscall.UserMode
import SimpleLinux.Lib.Rust
import SimpleLinux.Process.Context
import SimpleLinux.Process.InterruptFlag
import SimpleLinux.Process.Switching
import SimpleLinux.Process.Slices
import SimpleLinux.Lib.Bitmap
import SimpleLinux.Memory.Pmm
import SimpleLinux.Net.Wire
import SimpleLinux.Net.Stack
import SimpleLinux.Net.Receive
import SimpleLinux.Memory.Boot
import SimpleLinux.Lib.Dma
import SimpleLinux.Drivers.E1000
import SimpleLinux.Drivers.E1000Receive
import SimpleLinux.Drivers.E1000Arp
import SimpleLinux.Fs.Vfs
import SimpleLinux.Fs.Descriptors
import SimpleLinux.Lib.Paging
import SimpleLinux.Memory.Vmm
import SimpleLinux.Process.Elf
import SimpleLinux.Process.ElfLoading
import SimpleLinux.Process.ElfSafety
import SimpleLinux.Process.ElfImage
import SimpleLinux.Process.ElfReadOnly
import SimpleLinux.Process.ElfPermissions
import SimpleLinux.Process.Programs
import SimpleLinux.Lib.Utf8
import SimpleLinux.Lib.Traced
import SimpleLinux.Fs.Initrd
import SimpleLinux.Fs.Parser
import SimpleLinux.Net.Socket
import SimpleLinux.Net.Checksum
import SimpleLinux.Net.Rfc1071
import SimpleLinux.Net.RoundTrip
import SimpleLinux.Net.Replies
import SimpleLinux.Net.Responders
import SimpleLinux.Net.Queues
import SimpleLinux.Fs.Inode
import SimpleLinux.Fs.Archive
import SimpleLinux.Fs.Directory
import SimpleLinux.Fs.Siblings
import SimpleLinux.Shell.Cat
import SimpleLinux.Shell.Commands
import SimpleLinux.Shell.Lines
import SimpleLinux.Lib.FromStr
import SimpleLinux.Shell.Address
import SimpleLinux.Fs.Mounts
import SimpleLinux.Syscall.Dispatch
import SimpleLinux.Syscall.Isolation
import SimpleLinux.Syscall.Tables
import SimpleLinux.Syscall.Frames
import SimpleLinux.Syscall.Lifetime
import SimpleLinux.Syscall.Ports
import SimpleLinux.Lib.Asm
import SimpleLinux.User.Ring3
import SimpleLinux.User.Generated
import SimpleLinux.User.Sessions
import SimpleLinux.Net.Pump
import SimpleLinux.Net.Effects
import SimpleLinux.Net.Transfer
import SimpleLinux.Process.Latency
import SimpleLinux.Process.Population
import SimpleLinux.Memory.Heap
import SimpleLinux.Fs.Streams
import SimpleLinux.Lib.Nesting
import SimpleLinux.Lib.Release
import SimpleLinux.Process.LockOrder
import SimpleLinux.Main
import SimpleLinux.Drivers.E1000Dma
