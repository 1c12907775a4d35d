import UlmerOS.Arch.VspaceReuse
import UlmerOS.Arch.VspaceShared
import UlmerOS.Boot.IdentityMap
import UlmerOS.Boot.Mmap
import UlmerOS.Boot.Reserve
import UlmerOS.Fs.AtaDma
import UlmerOS.Fs.AtaIdentify
import UlmerOS.Fs.AtaIrq
import UlmerOS.Fs.BlockDevIdentity
import UlmerOS.Fs.ConsoleBuffer
import UlmerOS.Fs.FfindWalk
import UlmerOS.Fs.FilePosition
import UlmerOS.Fs.FfindCreate
import UlmerOS.Fs.Ext2Read
import UlmerOS.Fs.Ext2Errors
import UlmerOS.Fs.Ext2Bounds
import UlmerOS.Fs.SyscallBuffers
import UlmerOS.Sched.SchedLocks
import UlmerOS.Util.LinkedListRefine
import UlmerOS.Mm.HeapPages
import UlmerOS.Proc.Teardown
import UlmerOS.Mm.HeapRelease
import UlmerOS.Mm.HeapFree
import UlmerOS.Mm.HeapSize
import UlmerOS.Proc.Conservation
import UlmerOS.Proc.Isolation
import UlmerOS.Proc.Progress
import UlmerOS.Proc.Sbrk
import UlmerOS.Proc.HeapBreak
import UlmerOS.Proc.StackUnwind
import UlmerOS.Proc.Segments
import UlmerOS.Proc.LoaderReads
import UlmerOS.Proc.LockDiscipline
import UlmerOS.Sched.MutexAsserts
import UlmerOS.Sched.MutexExclusion
import UlmerOS.Sched.MutexWaiters
import UlmerOS.Sched.SchedRemoval
import UlmerOS.Sched.MutexWake
import UlmerOS.Sched.RoundRobin
import UlmerOS.Sched.SchedScan
import UlmerOS.Sched.TaskList
import UlmerOS.Fs.BlockRead
import UlmerOS.Fs.Ext2Dir
import UlmerOS.Fs.Ext2Probe
import UlmerOS.Fs.Ext2Sparse
import UlmerOS.Fs.FfindMissing
import UlmerOS.Fs.FfindNode
import UlmerOS.Fs.FfindRace
import UlmerOS.Fs.PartWindow
import UlmerOS.Boot.Cmdline
import UlmerOS.Bus.Pci
import UlmerOS.Util.BitmapSearch
import UlmerOS.Util.ListQueue
import UlmerOS.Util.SprintfText
import UlmerOS.Proc.Ideal
import UlmerOS.Proc.MachineFrames
import UlmerOS.Proc.HeapObjects
import UlmerOS.Boot.KernelHalf
import UlmerOS.Boot.Handover
import UlmerOS.Sched.Fairness
import UlmerOS.Sched.Contexts
import UlmerOS.Mm.PageShare
import UlmerOS.Bus.PciConfig
import UlmerOS.Fs.FdTable
