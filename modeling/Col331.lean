import Col331.File.Table
import Col331.Uthread.Schedule
import Col331.File.Dup2
import Col331.Log.Commit
import Col331.Log.CrashSafety
import Col331.Log.Group
import Col331.Log.GroupCommit
import Col331.Log.Reservation
import Col331.Fs.Layout
import Col331.Fs.Inode
import Col331.Fs.Owner
import Col331.Fs.Abstract
import Col331.Logic.Refine
import Col331.Fs.Rel
import Col331.Fs.Bmap
import Col331.Fs.Content
import Col331.Fs.Sim
import Col331.Fs.Trunc
import Col331.Fs.Dir
import Col331.Fs.Syscall
import Col331.Fs.Layer
import Col331.Fs.Ok
import Col331.Fs.Filewrite
import Col331.Fs.Image
import Col331.Fs.Refs
import Col331.Fs.Entries
import Col331.Fs.Safe
import Col331.Fs.Ownership
import Col331.Data.Tree
import Col331.Fs.Links
import Col331.Fs.Walk
import Col331.Fs.Calls
import Col331.Fs.Create
import Col331.Fs.Steady
import Col331.Fs.Exec
import Col331.Fs.Runs
import Col331.Icache.Steps
import Col331.Icache.Invariant
import Col331.Icache.Owner
import Col331.Icache.Refs
import Col331.Icache.Coherence
import Col331.Bio.Steps
import Col331.Bio.Cache
import Col331.Data.Window
import Col331.Pipe.Steps
import Col331.Pipe.Fifo
import Col331.Pipe.Wakeup
import Col331.File.Calls
import Col331.File.Counts
import Col331.File.Exact
import Col331.Proc.Steps
import Col331.Proc.Tree
import Col331.Proc.Kill
import Col331.Cpu.Steps
import Col331.Cpu.Drift
import Col331.Cpu.Invariant
import Col331.Cpu.Safety
import Col331.Sys.Read
import Col331.Vm.Paging
import Col331.Vm.Frames
import Col331.Vm.Uvm
import Col331.Vm.Exec
import Col331.Vm.Conserve
import Col331.Vm.Sbrk
import Col331.Sh.Lex
import Col331.Sh.Parse
import Col331.Sh.Grammar
import Col331.Sh.Agree
import Col331.Data.Fds
import Col331.Sh.Run
import Col331.Sh.Wiring
import Col331.Sh.Redirect
import Col331.Cons.Lines
import Col331.Sleep.Kill
import Col331.Fs.FileBytes
import Col331.Fs.Writers
import Col331.Fs.Shared
import Col331.Log.Waiting
import Col331.Log.Wakeup
import Col331.Data.X86
import Col331.Mkfs.Steps
import Col331.Mkfs.Files
import Col331.Mkfs.Loop
import Col331.Mkfs.Run
import Col331.Mkfs.Bounds
import Col331.Mkfs.Holes
import Col331.Mkfs.Lookup
import Col331.Data.Linked
import Col331.Ide.Steps
import Col331.Ide.Progress
import Col331.Vm.Dealloc
import Col331.Vm.Alloc
import Col331.Vm.Copy
import Col331.Bio.Readers
import Col331.Uthread.Switch
import Col331.Uthread.Create
import Col331.Grep.Lines
import Col331.Vm.Copyout
import Col331.Kdebug.Binsearch
import Col331.Lib.Memmove
import Col331.Sh.Search
import Col331.Jos.Console
