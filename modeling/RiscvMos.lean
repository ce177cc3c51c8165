import RiscvMos.Lib.RefCount
import RiscvMos.Lib.Except
import RiscvMos.Lib.Tailq
import RiscvMos.Lib.Bytes
import RiscvMos.Lib.Numeral
import RiscvMos.Lib.PageImage
import RiscvMos.Mmu
import RiscvMos.Pmap.Model
import RiscvMos.Pmap.Slots
import RiscvMos.Pmap.Consistent
import RiscvMos.Pmap.Frame
import RiscvMos.Pmap.Descend
import RiscvMos.Pmap.Leaf
import RiscvMos.Pmap.Calls
import RiscvMos.Pmap.Destroy
import RiscvMos.Pmap.View
import RiscvMos.Pmap.Run
import RiscvMos.Pmap.Refine
import RiscvMos.Pmap.Supply
import RiscvMos.Pmap.Shared
import RiscvMos.Pmap.Guard
import RiscvMos.Pmap.Exhausted
import RiscvMos.Env.Model
import RiscvMos.Env.Syscalls
import RiscvMos.Env.Sched
import RiscvMos.Env.Reach
import RiscvMos.Env.Ipc
import RiscvMos.Env.Delivery
import RiscvMos.Env.Send
import RiscvMos.Env.Fault
import RiscvMos.Env.Translation
import RiscvMos.Env.SharedDemand
import RiscvMos.Env.FaultSafe
import RiscvMos.Env.User
import RiscvMos.Env.GuardFault
import RiscvMos.Env.Readonly
import RiscvMos.Env.Teardown
import RiscvMos.Pmap.SelfMap
import RiscvMos.Env.SelfView
import RiscvMos.Env.SectorView
import RiscvMos.Lib.Ring
import RiscvMos.Env.UserMem
import RiscvMos.Env.Confined
import RiscvMos.Env.Copies
import RiscvMos.Env.Printed
import RiscvMos.Env.Elf
import RiscvMos.Env.Loader
import RiscvMos.Env.Trap
import RiscvMos.Env.Restored
import RiscvMos.Env.Returns
import RiscvMos.User.Pipe
import RiscvMos.User.PipeFifo
import RiscvMos.User.PipeRead
import RiscvMos.User.Descriptors
import RiscvMos.User.PipeClosed
import RiscvMos.User.FdMemory
import RiscvMos.Fs.Model
import RiscvMos.Fs.Cells
import RiscvMos.Fs.Layout
import RiscvMos.Fs.Blocks
import RiscvMos.Lib.FirstFree
import RiscvMos.Fs.FreeSet
import RiscvMos.Fs.Truncate
import RiscvMos.Fs.Rewritten
import RiscvMos.Fs.Tree
import RiscvMos.Fs.Lookup
import RiscvMos.Fs.Resolve
import RiscvMos.Fs.Debug
import RiscvMos.Fs.Path
import RiscvMos.Fs.Scanners
import RiscvMos.Fs.Create
import RiscvMos.Fs.Allocate
import RiscvMos.Fs.CreateFails
import RiscvMos.Fs.Serve
import RiscvMos.Fs.Replies
import RiscvMos.Fs.OpenIds
import RiscvMos.Fs.ClientWrites
import RiscvMos.Fs.ClientSessions
import RiscvMos.Fs.Init
import RiscvMos.Fs.Format
import RiscvMos.Fs.Image
import RiscvMos.Fs.Formatted
import RiscvMos.Fs.Mounted
import RiscvMos.Fs.Unshared
import RiscvMos.Fs.Finished
import RiscvMos.Fs.Agreed
import RiscvMos.User.Files
import RiscvMos.User.Windows
import RiscvMos.User.FileBounds
import RiscvMos.User.Failures
import RiscvMos.User.Fsipc
import RiscvMos.User.InitStack
import RiscvMos.User.Spawn
import RiscvMos.User.ForkCopies
import RiscvMos.User.CowContext
import RiscvMos.Disk.Virtio
import RiscvMos.Disk.Sectors
import RiscvMos.Lib.RoundRobin
import RiscvMos.Lib.Runs
import RiscvMos.Lib.Buffer
import RiscvMos.Env.Slices
import RiscvMos.Env.Lives
import RiscvMos.Env.Ids
import RiscvMos.Env.Asid
import RiscvMos.Env.Known
import RiscvMos.Env.Authority
import RiscvMos.Env.Setup
import RiscvMos.Env.Wrap
import RiscvMos.Env.MemCalls
import RiscvMos.Print.Vprintfmt
import RiscvMos.Print.Numbers
import RiscvMos.Print.NumberBuffer
import RiscvMos.Print.Pieces
import RiscvMos.Print.Scan
import RiscvMos.Lib.CString
import RiscvMos.Shell.Readline
import RiscvMos.Shell.Lexer
import RiscvMos.Shell.Command
import RiscvMos.Lib.Loop
import RiscvMos.Memcpy
