import ShellBox.Logic.Loop
import ShellBox.Logic.Slots
import ShellBox.Logic.RefCount
import ShellBox.Logic.Stamp
import ShellBox.Logic.Queues
import ShellBox.Kernel.Memory.Basic
import ShellBox.Kernel.Memory.PageTable
import ShellBox.Kernel.Memory.Reservations
import ShellBox.Kernel.Memory.World
import ShellBox.Kernel.Memory.Mapping
import ShellBox.Kernel.Memory.Fault
import ShellBox.Kernel.Memory.Steps
import ShellBox.Kernel.Memory.Operations
import ShellBox.Kernel.Memory.Lifetime
import ShellBox.Kernel.Memory.Frame
import ShellBox.Kernel.Memory.Isolation
import ShellBox.Kernel.Memory.Region
import ShellBox.Kernel.Memory.Protect
import ShellBox.Kernel.Memory.Changes
import ShellBox.Kernel.Memory.Holes
import ShellBox.Kernel.Mmap
import ShellBox.Kernel.MmapFixed
import ShellBox.Kernel.Accounting
import ShellBox.Emu.Tlb
import ShellBox.Emu.TlbCoherence
import ShellBox.Logic.LittleEndian
import ShellBox.Asbestos.Atomic
import ShellBox.Asbestos.Exclusive
import ShellBox.Asbestos.ExclusivePairs
import ShellBox.Asbestos.Dispatch
import ShellBox.Asbestos.PrebuiltCall
import ShellBox.Logic.IntRange
import ShellBox.Fs.Lock
import ShellBox.Fs.LockTable
import ShellBox.Fs.LockWait
import ShellBox.Kernel.Signal
import ShellBox.Kernel.SignalPending
import ShellBox.Kernel.SignalMask
import ShellBox.Kernel.Futex
import ShellBox.Kernel.FutexWake
import ShellBox.Util.Sync
import ShellBox.Fs.Path
import ShellBox.Fs.PathRoot
import ShellBox.Fs.PathAccess
import ShellBox.Fs.PathCache
import ShellBox.Logic.PathMap
import ShellBox.Logic.PathStash
import ShellBox.Logic.FinMap
import ShellBox.Fs.MetaDb
import ShellBox.Fs.BindMount
import ShellBox.Fs.BindRouting
import ShellBox.Fs.BindReversible
import ShellBox.Fs.Fakefs
import ShellBox.Fs.FakefsReadOnly
import ShellBox.Fs.HostTree
import ShellBox.Fs.FakefsAgree
import ShellBox.Fs.FakefsOrphan
import ShellBox.Fs.FakeRebuild
import ShellBox.Fs.FdTable
import ShellBox.Fs.FdHolders
import ShellBox.Fs.FdLifetime
import ShellBox.Logic.Record
import ShellBox.Kernel.SignalFrame
import ShellBox.Kernel.SignalNesting
import ShellBox.Logic.Buckets
import ShellBox.Kernel.Credentials
import ShellBox.Kernel.ProcessGroups
import ShellBox.Kernel.Wait
import ShellBox.Fs.Open
import ShellBox.Fs.PathSearch
import ShellBox.Fs.DirPermission
import ShellBox.Kernel.Clone
import ShellBox.Kernel.Pidfd
import ShellBox.Kernel.StopEvents
import ShellBox.Kernel.Ptrace
import ShellBox.Fs.Tty
import ShellBox.Fs.Poll
import ShellBox.Fs.PollDelivery
import ShellBox.Fs.FdClosing
import ShellBox.Fs.HostFds
import ShellBox.Fs.HostFdOwners
import ShellBox.Fs.UnixNames
import ShellBox.Fs.UnixNameTable
import ShellBox.Kernel.UserCopy
import ShellBox.Kernel.FastCalls
import ShellBox.Kernel.FastAgreement
import ShellBox.Kernel.SyscallRestart
import ShellBox.Logic.RingBuffer
import ShellBox.Util.Fifo
import ShellBox.Kernel.Log
import ShellBox.Fs.TmpfsFile
import ShellBox.Kernel.Kill
import ShellBox.Kernel.Exec
import ShellBox.Kernel.PosixTimers
import ShellBox.Logic.Alarm
import ShellBox.Util.Timespec
import ShellBox.Util.Timer
import ShellBox.Kernel.TimerCalls
import ShellBox.Logic.PackedStrings
import ShellBox.Logic.StringArray
import ShellBox.Kernel.ExecArgs
import ShellBox.Kernel.ExecStack
import ShellBox.Logic.KeyedList
import ShellBox.Fs.TmpfsTree
import ShellBox.Fs.TmpfsLookup
import ShellBox.Fs.TmpfsHolders
import ShellBox.Fs.TmpfsCreate
import ShellBox.Fs.TmpfsLifetimes
import ShellBox.Fs.CloseRange
import ShellBox.Fs.DupFamily
import ShellBox.Logic.PrefixRange
import ShellBox.Fs.PathTable
import ShellBox.Logic.BitMask
import ShellBox.Asbestos.Insn
import ShellBox.Kernel.ReadRecovery
import ShellBox.Logic.Packed
import ShellBox.Asbestos.Registers
import ShellBox.Asbestos.GuestAccess
import ShellBox.Asbestos.AtomicOps
import ShellBox.Asbestos.AtomicExact
import ShellBox.Asbestos.Gadgets
import ShellBox.Asbestos.LoadPair
import ShellBox.Asbestos.LoadPairExact
import ShellBox.Kernel.Memory.ReservationsExact
import ShellBox.Kernel.Memory.HoleSearch
import ShellBox.Fs.RelativeLink
import ShellBox.Kernel.AddressWidth
import ShellBox.Kernel.FutexRefs
import ShellBox.Kernel.FutexDeadline
import ShellBox.Fs.ControlMessages
import ShellBox.Fs.BindReverse
import ShellBox.Fs.FileMapping
import ShellBox.Fs.Receive
import ShellBox.Fs.ReceiveParts
import ShellBox.Fs.ReceiveAgrees
import ShellBox.Fs.LockRange
import ShellBox.Fs.PathNormal
import ShellBox.Fs.MountTable
import ShellBox.Fs.TmpfsShape
import ShellBox.Fs.TmpfsReached
import ShellBox.Fs.TmpfsReading
import ShellBox.Fs.PathCanonical
import ShellBox.Kernel.CopyLoops
import ShellBox.Kernel.Remap
import ShellBox.Kernel.Memory.Seen
import ShellBox.Kernel.Dontneed
import ShellBox.Logic.Lanes
import ShellBox.Logic.Carryless
import ShellBox.Logic.Rotate
import ShellBox.Asbestos.VectorRegs
import ShellBox.Asbestos.VectorShift
import ShellBox.Asbestos.VectorPermute
import ShellBox.Asbestos.VectorCrypto
import ShellBox.Asbestos.VectorProduct
import ShellBox.Asbestos.VectorHelpers
import ShellBox.Fs.ProcMaps
import ShellBox.Fs.Getdents
import ShellBox.Fs.GetdentsComplete
import ShellBox.Kernel.Eventfd
import ShellBox.Logic.SignedCount
import ShellBox.Fs.ProcBuffer
import ShellBox.Fs.ProcFile
import ShellBox.Fs.VectorIo
import ShellBox.Fs.VectorIoExact
import ShellBox.Fs.PollCall
import ShellBox.Fs.SelectCall
import ShellBox.Kernel.ChildTimes
import ShellBox.Fs.FileCopy
import ShellBox.Fs.FileCopyExact
import ShellBox.Logic.Serial
import ShellBox.Fs.PositionedIo
import ShellBox.Fs.PositionedIoSerial
import ShellBox.Asbestos.BlockStore
import ShellBox.Asbestos.BlockStoreIntact
import ShellBox.Asbestos.BlockStoreRuns
import ShellBox.Asbestos.JitThreads
import ShellBox.Kernel.ResourceLimits
import ShellBox.Asbestos.BitmaskImm
import ShellBox.Asbestos.BranchFusion
