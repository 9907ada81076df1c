import RiscMv.Assembler.Expression
import RiscMv.Block.Agreement
import RiscMv.Block.Served
import RiscMv.Boot.Format
import RiscMv.Device.Resources
import RiscMv.ForStd.Run
import RiscMv.Interrupt.Restart
import RiscMv.Kernel.List
import RiscMv.Kernel.System
import RiscMv.Linker.Extract
import RiscMv.Memory.HeapSafe
import RiscMv.Memory.PmmPages
import RiscMv.Object.RoundTrip
import RiscMv.Paging.MapRange
import RiscMv.Processor.Trap
import RiscMv.Spec.Alive
import RiscMv.Spec.Boot
import RiscMv.Spec.Faults
import RiscMv.Spec.IdleWake
import RiscMv.Spec.Orderly
import RiscMv.Spec.OwnStack
import RiscMv.Spec.Rendezvous
import RiscMv.Spec.Saved
import RiscMv.Spec.TidySections
import RiscMv.Spec.Transparent
import RiscMv.Spec.Wakeups
import RiscMv.User.Startup
import RiscMv.Vm.Lines
import RiscMv.Vm.Timer
