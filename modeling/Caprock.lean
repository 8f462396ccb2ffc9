import Caprock.Mem.FreeSpace
import Caprock.Mem.ColouredSearch
import Caprock.Region.KmallocSafety
import Caprock.Region.Conservation
import Caprock.Dma.Scatter
import Caprock.Ipc.Exclusion
import Caprock.Ipc.Blocking
import Caprock.Ipc.Roles
import Caprock.Cap.AuditForest
import Caprock.Cap.DebugAuthority
import Caprock.Cap.Corruption
import Caprock.Cap.Refusal
import Caprock.Sched.Timeout
import Caprock.Sched.Tickless
import Caprock.Sched.Budget
import Caprock.Sched.Identity
import Caprock.Sched.WakeMark
import Caprock.Sched.Expiry
import Caprock.Wait.TimerWheel
import Caprock.Wait.Residue
import Caprock.Microkit.ThreadOwner
import Caprock.Microkit.Conservation
import Caprock.Microkit.DomainAudit
import Caprock.Microkit.Endowment
import Caprock.Microkit.Reply
import Caprock.Microkit.Portability
import Caprock.Loader.Mkarchive
import Caprock.MemServer.Isolation
import Caprock.MemServer.Conservation
import Caprock.MemServer.Agreement
import Caprock.MemServer.Lending
import Caprock.Kernel.StackArena
import Caprock.Kernel.LoadQueue
import Caprock.Microkit.Delegation
import Caprock.Microkit.CapSyscalls
import Caprock.Microkit.DmaBounds
import Caprock.Dma.Gross
import Caprock.Fat.Geometry
import Caprock.Loader.ElfSegments
import Caprock.Part.Integrity
import Caprock.Lxpd.ShaConformance
import Caprock.Region.BlockAlignment
import Caprock.Region.HandOver
import Caprock.Lxpd.PartitionBounds
import Caprock.Wasm.Acceptance
import Caprock.DeviceTree.Faithful
import Caprock.Loader.Exec
import Caprock.Cap.SpawnCheck
import Caprock.Log.LogRing
import Caprock.Ipc.TidQueue
import Caprock.Slab.Chain
import Caprock.Lxpd.DriverSet
import Caprock.Lxpd.JsonSpans
import Caprock.Lxpd.NameBinding
import Caprock.Rspd.MemoryWrite
