import Kthxvm.Boot.BootParams
import Kthxvm.Boot.Elf
import Kthxvm.Boot.ElfBounds
import Kthxvm.Boot.ElfFailures
import Kthxvm.Boot.Gdt
import Kthxvm.Boot.GdtAgreement
import Kthxvm.Boot.GdtEncoding
import Kthxvm.Boot.HandOver
import Kthxvm.Boot.LongMode
import Kthxvm.Boot.MpReader
import Kthxvm.Boot.MpTable
import Kthxvm.Boot.Order
import Kthxvm.Boot.PageTables
import Kthxvm.Console
import Kthxvm.Cpuid
import Kthxvm.CpuidCopy
import Kthxvm.Device.I8042
import Kthxvm.Device.I8042Mailbox
import Kthxvm.Device.I8042Parameter
import Kthxvm.Device.I8042Run
import Kthxvm.Device.I8042Status
import Kthxvm.Device.I8042String
import Kthxvm.Device.LinePulses
import Kthxvm.Device.Uart
import Kthxvm.Device.UartCauses
import Kthxvm.Device.UartDivisor
import Kthxvm.Device.UartString
import Kthxvm.Exits
import Kthxvm.Layout
import Kthxvm.Lib.Flags
import Kthxvm.Lib.Product
import Kthxvm.Lib.Threads
import Kthxvm.Lifecycle
import Kthxvm.Machine
import Kthxvm.MachineParts
import Kthxvm.MachineRun
import Kthxvm.MemoryMap
import Kthxvm.SharedLine
import Kthxvm.StaleBytes
import Kthxvm.StringIo
import Kthxvm.Terminal
import Kthxvm.Virtio.AvailRing
import Kthxvm.Virtio.BlkAnswers
import Kthxvm.Virtio.BlkErrors
import Kthxvm.Virtio.BlkNotify
import Kthxvm.Virtio.BlkOrders
import Kthxvm.Virtio.Completion
import Kthxvm.Virtio.ConfigSpace
import Kthxvm.Virtio.Features
import Kthxvm.Virtio.Isolation
import Kthxvm.Virtio.NetExact
import Kthxvm.Virtio.NetPackets
import Kthxvm.Virtio.Progress
import Kthxvm.Virtio.RegisterReads
import Kthxvm.Virtio.RegisterSafety
import Kthxvm.Virtio.Reset
import Kthxvm.Virtio.RngRace
import Kthxvm.Virtio.SharedMemory
import Kthxvm.Virtio.UsedLength
import Kthxvm.Virtio.UsedRing
