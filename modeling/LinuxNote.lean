import LinuxNote.PerfEvent
import LinuxNote.Base.NameCache
import LinuxNote.Kvmstat.PerfEvent
import LinuxNote.GroupRead
import LinuxNote.Kvmstat.Refresh
import LinuxNote.Kvmstat.Debug
import LinuxNote.Kvmstat.Pmda
import LinuxNote.Kvmstat.TraceSlots
import LinuxNote.Kvmstat.DebugSlots
import LinuxNote.Kvmstat.Fetch
import LinuxNote.Kvmstat.Config
import LinuxNote.KvmTrace.Sampling
import LinuxNote.KvmTrace.Sample
import LinuxNote.KvmTrace.Tool
import LinuxNote.TableBounds
import LinuxNote.Base.TextSubst
import LinuxNote.Base.AwkNumber
import LinuxNote.Base.ShellText
import LinuxNote.Himeno.StartRun
import LinuxNote.Sysstat.MutationCheck
import LinuxNote.Sysstat.MutationDirection
import LinuxNote.Base.Words
import LinuxNote.Sysstat.MutationJumps
import LinuxNote.Sysstat.MutationWindow
import LinuxNote.Base.SortUnique
import LinuxNote.Sysstat.Report
import LinuxNote.Sysstat.ThresholdCheck
import LinuxNote.Sysstat.ThresholdReport
import LinuxNote.Sysstat.ThresholdCpu
import LinuxNote.Sysstat.ThresholdDisk
import LinuxNote.Sysstat.ThresholdNetwork
import LinuxNote.Base.AwkPrint
import LinuxNote.Sysstat.ThresholdCache
import LinuxNote.Iperf.GetData
import LinuxNote.Sysstat.Sar2csv
import LinuxNote.Fio.GetData
import LinuxNote.Himeno.GetData
import LinuxNote.Fio.JobCoverage
import LinuxNote.Fio.Rounds
import LinuxNote.DataOper.KvmTimeTrace
import LinuxNote.DataOper.SarSocket
import LinuxNote.Irq.GetInterrupts
import LinuxNote.DataOper.GetTop
import LinuxNote.K8s.CheckNew
import LinuxNote.Memory.StartTunning
import LinuxNote.Himeno.BindAndRun
import LinuxNote.Himeno.BindCpu
import LinuxNote.Csample.Ttyname
import LinuxNote.Base.CBuffer
import LinuxNote.Csample.RecusiveDir
import LinuxNote.Kernel.ModuleEx
import LinuxNote.Csample.TtynameStreams
import LinuxNote.Base.LoopNest
import LinuxNote.Base.Relaxation
import LinuxNote.Himeno.Jacobi
import LinuxNote.Himeno.Kernel
import LinuxNote.Himeno.Poisson
import LinuxNote.Kernel.ModuleSessions
import LinuxNote.Base.AwkPrefix
import LinuxNote.Fio.Num2str
import LinuxNote.Fio.Status
import LinuxNote.Base.RingBuffer
import LinuxNote.Base.CDouble
import LinuxNote.Cpulimit.Usage
import LinuxNote.Cpulimit.Control
import LinuxNote.Cpulimit.Slices
import LinuxNote.Cpulimit.Accuracy
import LinuxNote.Cpulimit.Stat
import LinuxNote.Base.StructPack
import LinuxNote.Base.Binary64
import LinuxNote.Xls.Cell
import LinuxNote.Base.SectorChain
import LinuxNote.Xls.CompoundDoc
import LinuxNote.Base.Utf16
import LinuxNote.Xls.SharedStrings
import LinuxNote.Base.Dict
import LinuxNote.Xls.Csv2xls
