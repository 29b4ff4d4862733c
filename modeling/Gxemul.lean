import Gxemul.Alpha.BranchAgree
import Gxemul.Alpha.ByteSequences
import Gxemul.Arm.MultipleAgree
import Gxemul.Arm.ProtectionRuns
import Gxemul.Arithmetic
import Gxemul.Core.Interrupts
import Gxemul.Disk.AscRuns
import Gxemul.Disk.ScsiStore
import Gxemul.Disk.WdcStore
import Gxemul.Dyntrans.Chains
import Gxemul.Isa.Cascade
import Gxemul.M88k.XmemExchange
import Gxemul.Memory.DeviceRegister
import Gxemul.Loader.ElfLoad
import Gxemul.Loader.SrecLoad
import Gxemul.Memory.FramebufferRuns
import Gxemul.Memory.Invalidation
import Gxemul.Memory.Physical
import Gxemul.Memory.StoreBuf
import Gxemul.Mips.BadVpn
import Gxemul.Mips.LoadFaults
import Gxemul.Mips.Probe
import Gxemul.Network.Dec21143Loops
import Gxemul.Network.Fifo
import Gxemul.Network.Generated
import Gxemul.Network.InsideStream
import Gxemul.Network.LanceRings
import Gxemul.Network.NatTables
import Gxemul.Network.OutsideStream
import Gxemul.Ppc.BranchAgree
import Gxemul.Ppc.LoadStoreRuns
import Gxemul.Ppc.MmuAgree
import Gxemul.Ppc.RotateAgree
import Gxemul.Ppc.Timers
import Gxemul.Sh.BankedRuns
import Gxemul.Sh.BranchAgree
import Gxemul.Sh.Divide
import Gxemul.Smp.LostUpdates
import Gxemul.Console.Fifo
import Gxemul.Core.Settings
import Gxemul.Disk.SplitReads
import Gxemul.Debugger.Evaluate
import Gxemul.Debugger.Names
import Gxemul.Network.Teardown
import Gxemul.Symbol.Lookup
import Gxemul.Config.Tables
import Gxemul.Disk.Access
import Gxemul.Disk.Size
import Gxemul.Disk.Identify
import Gxemul.Disk.Add
import Gxemul.Disk.Atapi
import Gxemul.Network.RxFilters
import Gxemul.Core.Pci
import Gxemul.Network.Dec21143Serial
import Gxemul.Core.Ticks
import Gxemul.Debugger.Readline
import Gxemul.Testmachine.Irqc
import Gxemul.Testmachine.Mp
