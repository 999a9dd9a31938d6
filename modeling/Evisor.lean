import Evisor.Basic
import Evisor.Lib.Radix
import Evisor.Lib.Bits
import Evisor.Lib.Bus
import Evisor.Lib.Halving
import Evisor.Lib.Lanes
import Evisor.Lib.Fifo
import Evisor.Lib.Numeral
import Evisor.Arch.LdSymbols
import Evisor.Kernel.SchedRun
import Evisor.Mm.UncachedRun
import Evisor.Mm.Heap
import Evisor.Mm.Pager
import Evisor.Platforms.BoardMap
import Evisor.Platforms.Isolation
import Evisor.Arch.Trap
import Evisor.Platforms.DemandPaging
import Evisor.Common.Queue
import Evisor.Platforms.Board
import Evisor.Kernel.Console
import Evisor.Kernel.DevicePrivacy
import Evisor.Platforms.MemoryGrowth
import Evisor.Kernel.Vcpu
import Evisor.Kernel.VcpuStep
import Evisor.Kernel.VcpuRun
import Evisor.Kernel.IrqRun
import Evisor.Arch.Mmu
import Evisor.Arch.MmuTree
import Evisor.Arch.MmuRun
import Evisor.Mm.KmmTrap
import Evisor.Mm.UncachedSafe
import Evisor.Platforms.SerialInput
import Evisor.Fs.Loader
import Evisor.Drivers.VirtioBlk
import Evisor.Drivers.VirtioBlkRun
import Evisor.Kernel.TwoRuns
import Evisor.Kernel.RegisterChannel
import Evisor.Fs.Fat.Volume
import Evisor.Fs.Fat.Read
import Evisor.Fs.Fat.Init
import Evisor.Fs.Fat.Name
import Evisor.Fs.Fat.Open
import Evisor.Mm.UserRun
import Evisor.Fs.Fat.ShortName
import Evisor.Fs.Fat.LongName
import Evisor.Fs.Fat.InitSound
import Evisor.Drivers.Mmc
import Evisor.Drivers.MmcCommand
import Evisor.Fs.Fat.Address
import Evisor.Fs.SdLoader
import Evisor.Fs.Fat.Walk
import Evisor.Fs.Fat.ReadBounds
import Evisor.Fs.Fat.ShortChain
import Evisor.Lib.Asks
import Evisor.Fs.Fat.Buffers
import Evisor.Fs.Fat.DiskErrors
import Evisor.Fs.Capacity
import Evisor.Drivers.VirtioBlkInit
import Evisor.Kernel.TaskTable
import Evisor.Kernel.FirstEntry
import Evisor.Kernel.ConsoleRun
import Evisor.Kernel.SerialOutput
import Evisor.Kernel.VirtualIrq
import Evisor.Kernel.TrappedRegs
import Evisor.Drivers.MmcTransfer
import Evisor.Drivers.MmcApp
import Evisor.Drivers.MmcClock
import Evisor.Drivers.MmcWait
import Evisor.Platforms.Timer
import Evisor.Arch.GicV2
import Evisor.Platforms.VirtioGicViews
import Evisor.Common.QueueFifo
import Evisor.Common.NumberFormat
import Evisor.Common.Printf
import Evisor.Arch.MmuPasses
import Evisor.Arch.MmuLow
import Evisor.Arch.MmuChecks
import Evisor.Common.QueueBounds
import Evisor.Fs.Fat.SectorSteps
import Evisor.Fs.Fat.ClusterCache
import Evisor.Arch.MmuLinks
import Evisor.Lib.Blocks
import Evisor.Arch.MmuTables
import Evisor.Kernel.GuestMemory
import Evisor.Kernel.SchedFair
import Evisor.Fs.RingLoader
import Evisor.Drivers.MmcDialogue
import Evisor.Drivers.MmcCard
import Evisor.Common.LinkedList
import Evisor.Common.LinkedListRun
import Evisor.Drivers.Gpio
import Evisor.Drivers.Mailbox
