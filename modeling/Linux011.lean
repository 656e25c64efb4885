import Linux011.Lib.Machine
import Linux011.Lib.Slots
import Linux011.Lib.Count
import Linux011.Lib.Covered
import Linux011.Lib.Tally
import Linux011.Mm.Memory
import Linux011.Mm.Entry
import Linux011.Mm.Account
import Linux011.Mm.Refine
import Linux011.Mm.Operations
import Linux011.Mm.PageCount
import Linux011.Mm.View
import Linux011.Mm.Process
import Linux011.Mm.LowTables
import Linux011.Mm.Slots
import Linux011.Mm.Events
import Linux011.Mm.ExecEvents
import Linux011.Mm.Isolation
import Linux011.Mm.DemandLoad
import Linux011.Mm.UserCall
import Linux011.Mm.UserCopy
import Linux011.Buffer.Machine
import Linux011.Buffer.Invariant
import Linux011.Buffer.Protocol
import Linux011.Buffer.Coherence
import Linux011.Buffer.LastStored
import Linux011.Sched.WaitQueue
import Linux011.Pipe.Ring
import Linux011.Pipe.Fifo
import Linux011.Pipe.Faults
import Linux011.Inode.Table
import Linux011.Inode.Machine
import Linux011.Inode.Invariant
import Linux011.Inode.Unique
import Linux011.Inode.Identity
import Linux011.Inode.Destroy
import Linux011.Fs.Inode
import Linux011.Fs.Namei
import Linux011.Lib.Walk
import Linux011.Fs.Lookup
import Linux011.Fs.Resolve
import Linux011.Fs.Reference
import Linux011.Fs.Chroot
import Linux011.Fs.Frame
import Linux011.Lib.Forest
import Linux011.Minix.Disk
import Linux011.Minix.Bmap
import Linux011.Minix.BlockMap
import Linux011.Minix.Grow
import Linux011.Minix.Truncate
import Linux011.Minix.FileDev
import Linux011.Minix.Zones
import Linux011.Minix.ReadWrite
import Linux011.Minix.Race
import Linux011.Files.Kernel
import Linux011.Files.Open
import Linux011.Files.Calls
import Linux011.Files.Effect
import Linux011.Files.Mount
import Linux011.Lib.Delta
import Linux011.Lib.Chain
import Linux011.Lib.Words
import Linux011.Sched.Timer
import Linux011.Sched.Schedule
import Linux011.Sched.Signal
import Linux011.Sched.Fpu
import Linux011.Sched.TaskTable
import Linux011.Sched.Family
import Linux011.Sched.Ledger
import Linux011.Sched.Reaping
import Linux011.Block.Request
import Linux011.Block.Queue
import Linux011.Sync.Block
import Linux011.Sync.Logical
import Linux011.Sync.Flush
import Linux011.Sync.Inodes
import Linux011.Sync.Device
import Linux011.Tty.Console
import Linux011.Tty.Screen
import Linux011.Tty.Write
import Linux011.Lib.Paged
import Linux011.Exec.Args
import Linux011.Exec.Layout
import Linux011.Malloc.Heap
import Linux011.Malloc.Buckets
import Linux011.Malloc.Calls
import Linux011.Malloc.Allocator
import Linux011.Lib.Queue
import Linux011.TtyIo.Discipline
import Linux011.TtyIo.Handlers
import Linux011.TtyIo.Counter
import Linux011.TtyIo.Line
import Linux011.TtyIo.Output
import Linux011.TtyIo.Overflow
import Linux011.Lib.Twin
import Linux011.WriteBack.Buffers
import Linux011.WriteBack.Inodes
import Linux011.WriteBack.Locked
import Linux011.WriteBack.Returns
import Linux011.Lib.Watch
import Linux011.FileSys.State
import Linux011.FileSys.Inodes
import Linux011.FileSys.Names
import Linux011.FileSys.Calls
import Linux011.FileSys.References
import Linux011.FileSys.Slots
import Linux011.FileSys.Marks
import Linux011.FileSys.Settle
import Linux011.FileSys.Bitmaps
import Linux011.FileSys.Complete
import Linux011.Exec.Header
import Linux011.Exec.Strings
import Linux011.Exec.Script
import Linux011.Mm.VerifyArea
import Linux011.Mm.Fork
import Linux011.Mm.Fault
import Linux011.Exec.Execve
import Linux011.Exec.Conserve
import Linux011.Lib.Links
import Linux011.Buffer.Queues
import Linux011.Buffer.WellFormed
import Linux011.Buffer.Stray
import Linux011.Lib.Sweep
import Linux011.Block.Elevator
import Linux011.Minix.Position
import Linux011.Minix.Freed
import Linux011.Super.ReadSuper
import Linux011.Lib.Scan
import Linux011.Directory.Entries
import Linux011.Directory.Find
import Linux011.Directory.Add
import Linux011.Directory.Scan
import Linux011.Directory.Agree
import Linux011.Drivers.Hd
import Linux011.Drivers.Transient
import Linux011.Drivers.HdErrors
import Linux011.Drivers.Floppy
import Linux011.Drivers.FloppyErrors
import Linux011.Drivers.Handlers
import Linux011.Lib.Calendar
import Linux011.Lib.Take
import Linux011.Printf.Number
import Linux011.Printf.Vsprintf
import Linux011.Printf.Laws
import Linux011.Ids.Credentials
import Linux011.Files.Access
import Linux011.Files.Descriptors
import Linux011.Sched.Kill
import Linux011.Tty.Saved
import Linux011.Time.Mktime
import Linux011.Time.Init
import Linux011.TtyIo.Reading
import Linux011.TtyIo.Waiting
import Linux011.Files.Counts
import Linux011.Files.CountedCalls
import Linux011.Files.CountedRuns
import Linux011.Files.OpenMode
import Linux011.Lib.Registers
import Linux011.Exec.Segment
import Linux011.Keyboard.PutQueue
import Linux011.Keyboard.Interrupt
import Linux011.FileSys.InodeTable
import Linux011.Buffer.Init
import Linux011.Block.Starvation
import Linux011.Sched.Starvation
import Linux011.Boot.Setup
import Linux011.Boot.Paging
import Linux011.Strings.Search
import Linux011.Strings.Token
import Linux011.Boot.Memory
import Linux011.Drivers.Ramdisk
