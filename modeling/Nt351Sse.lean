import Nt351Sse.Base.Memory
import Nt351Sse.Base.Heap
import Nt351Sse.Base.Chain
import Nt351Sse.Base.Probing
import Nt351Sse.Base.Runs
import Nt351Sse.Base.Assignment
import Nt351Sse.Base.LazyContext
import Nt351Sse.Base.LazyLoss
import Nt351Sse.Base.Preempt
import Nt351Sse.Base.X86
import Nt351Sse.Base.X86Frame
import Nt351Sse.Base.Python
import Nt351Sse.Base.Beside
import Nt351Sse.Base.Script
import Nt351Sse.Base.FirstMatch
import Nt351Sse.Base.Scan
import Nt351Sse.Base.EndAround
import Nt351Sse.Base.Interlocked
import Nt351Sse.Driver.Pool
import Nt351Sse.Driver.Table
import Nt351Sse.Driver.Conserve
import Nt351Sse.Driver.AreaMap
import Nt351Sse.Driver.Prefill
import Nt351Sse.Driver.Lookups
import Nt351Sse.Driver.Release
import Nt351Sse.Driver.Fxsave
import Nt351Sse.Driver.Trap
import Nt351Sse.Driver.Naked
import Nt351Sse.Driver.Transparent
import Nt351Sse.Driver.Computes
import Nt351Sse.Driver.Loaded
import Nt351Sse.Driver.Cpu
import Nt351Sse.Driver.CpuLazy
import Nt351Sse.Driver.Preserve
import Nt351Sse.Driver.Isolate
import Nt351Sse.Driver.Turnover
import Nt351Sse.Driver.Effect
import Nt351Sse.Driver.Machine
import Nt351Sse.Driver.KernelView
import Nt351Sse.Driver.Mxcsr
import Nt351Sse.Driver.Newcomer
import Nt351Sse.Driver.Hooks
import Nt351Sse.Driver.Patch
import Nt351Sse.Driver.Entry
import Nt351Sse.Driver.SelfTest
import Nt351Sse.Driver.Account
import Nt351Sse.Driver.Pools
import Nt351Sse.Driver.Prepare
import Nt351Sse.Driver.TrapPaths
import Nt351Sse.Driver.Install
import Nt351Sse.Driver.Load
import Nt351Sse.Driver.Unload
import Nt351Sse.Driver.Undo
import Nt351Sse.Driver.NmHook
import Nt351Sse.Driver.Restarts
import Nt351Sse.Driver.Handover
import Nt351Sse.Driver.Diagnosis
import Nt351Sse.Scripts.CheckImports
import Nt351Sse.Scripts.ImportCheck
import Nt351Sse.Scripts.ImportTable
import Nt351Sse.Scripts.ExportTable
import Nt351Sse.Scripts.Promise
import Nt351Sse.Scripts.FindIdt
import Nt351Sse.Scripts.IdtRuns
import Nt351Sse.Scripts.RvaMap
import Nt351Sse.Scripts.NmSig
import Nt351Sse.Scripts.Stamp
import Nt351Sse.Scripts.Stamped
import Nt351Sse.Scripts.Restamped
import Nt351Sse.Scripts.IdtReport
import Nt351Sse.Scripts.NmVerdict
import Nt351Sse.Scripts.StampUnseen
import Nt351Sse.Tests.SseTest
import Nt351Sse.Tests.Concurrency
import Nt351Sse.Tests.OnDriver
import Nt351Sse.Tests.Untracked
