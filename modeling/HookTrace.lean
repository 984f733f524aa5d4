import HookTrace.AddressSpace
import HookTrace.Build.CommandLine
import HookTrace.Build.Job
import HookTrace.Bytes
import HookTrace.Code
import HookTrace.Cpu.Histogram
import HookTrace.Cpu.Switch
import HookTrace.Cpu.Tracer
import HookTrace.Fault
import HookTrace.Field
import HookTrace.File.Access
import HookTrace.File.OpenFile
import HookTrace.File.PathRule
import HookTrace.File.Tracer
import HookTrace.Hook
import HookTrace.Kernel.Machine
import HookTrace.Kernel.Map
import HookTrace.Kernel.Memory
import HookTrace.Kernel.Output
import HookTrace.Kernel.Program
import HookTrace.Layout
import HookTrace.Limits
import HookTrace.Main
import HookTrace.Mysql.Capture
import HookTrace.Mysql.Connection
import HookTrace.Mysql.Ports
import HookTrace.Mysql.Tracer
import HookTrace.Payload.Capture
import HookTrace.Payload.Tracer
import HookTrace.Poll.Readiness
import HookTrace.Poll.Tracer
import HookTrace.Scarcity
import HookTrace.SocketAddress
import HookTrace.Store.ByteRing
import HookTrace.Store.Fifo
import HookTrace.Store.PerCpu
import HookTrace.Store.Recency
import HookTrace.Store.Refusing
import HookTrace.Syscall
import HookTrace.Task
import HookTrace.Tcp.AllowList
import HookTrace.Tcp.Connect
import HookTrace.Tcp.Destination
import HookTrace.Tcp.Tracer
import HookTrace.Tracer
import HookTrace.Tracing
import HookTrace.Unlink.Directory
import HookTrace.Unlink.Intercept
import HookTrace.Unlink.Tracer
import HookTrace.Utf8
import HookTrace.Proofs.Bindings
import HookTrace.Proofs.Cpu.Counting
import HookTrace.Proofs.Cpu.Doubling
import HookTrace.Proofs.Cpu.History
import HookTrace.Proofs.Cpu.Slices
import HookTrace.Proofs.Failure
import HookTrace.Proofs.Field
import HookTrace.Proofs.File.Names
import HookTrace.Proofs.File.OpenFile
import HookTrace.Proofs.File.Submission
import HookTrace.Proofs.Hook
import HookTrace.Proofs.Kernel.Context
import HookTrace.Proofs.Kernel.Memory
import HookTrace.Proofs.Kernel.Mysql
import HookTrace.Proofs.Kernel.Output
import HookTrace.Proofs.Mysql.Acts
import HookTrace.Proofs.Mysql.Bindings
import HookTrace.Proofs.Mysql.Handshake
import HookTrace.Proofs.Mysql.History
import HookTrace.Proofs.Mysql.Ledger
import HookTrace.Proofs.Mysql.Reconnect
import HookTrace.Proofs.Mysql.Submissions
import HookTrace.Proofs.Outsiders
import HookTrace.Proofs.Payload.Acts
import HookTrace.Proofs.Payload.Pairing
import HookTrace.Proofs.Poll.Acts
import HookTrace.Proofs.Poll.Bindings
import HookTrace.Proofs.Release
import HookTrace.Proofs.Settlement
import HookTrace.Proofs.Store.Capacity
import HookTrace.Proofs.Store.Delivery
import HookTrace.Proofs.Store.Eviction
import HookTrace.Proofs.Store.Journal
import HookTrace.Proofs.Store.Laws
import HookTrace.Proofs.Store.Queues
import HookTrace.Proofs.Store.Ranking
import HookTrace.Proofs.Store.Requests
import HookTrace.Proofs.Store.Reservations
import HookTrace.Proofs.Store.Slots
import HookTrace.Proofs.Store.Staging
import HookTrace.Proofs.Store.Stamps
import HookTrace.Proofs.Unlink.Acts
import HookTrace.Proofs.Unlink.Directory
import HookTrace.Proofs.Unlink.History
import HookTrace.Proofs.Unlink.Refusal
import HookTrace.Proofs.Unwinding
import HookTrace.Proofs.Upkeep
import HookTrace.Proofs.Fillings
import HookTrace.Proofs.Poll.History
import HookTrace.Proofs.Tcp.AllowList
import HookTrace.Proofs.File.PathRule
import HookTrace.Proofs.Tcp.History
import HookTrace.Proofs.File.Reports
import HookTrace.Proofs.Residue
import HookTrace.Proofs.Cpu.Refusal
import HookTrace.Proofs.File.PathScan
import HookTrace.Proofs.Store.Exclusion
import HookTrace.Proofs.Payload.Fidelity
import HookTrace.Proofs.Store.Holding
import HookTrace.Proofs.Mysql.Progress
import HookTrace.Proofs.Tcp.Configuration
import HookTrace.Proofs.Allocation
import HookTrace.Proofs.Store.Ticks
import HookTrace.Proofs.Cpu.Increments
import HookTrace.Proofs.Kernel.Histograms
import HookTrace.Proofs.SocketAddress
import HookTrace.Proofs.Mysql.Tracking
import HookTrace.Proofs.Connects
