import MeshSupervisor.Lib.Lts
import MeshSupervisor.Finality
import MeshSupervisor.Lifecycle
import MeshSupervisor.History
import MeshSupervisor.Turns
import MeshSupervisor.Recovery
import MeshSupervisor.Shutdown
import MeshSupervisor.Signals
import MeshSupervisor.Authenticity
import MeshSupervisor.Restarts
import MeshSupervisor.Isolation
import MeshSupervisor.Limiter
import MeshSupervisor.IdealBucket
import MeshSupervisor.Relaunch
import MeshSupervisor.Escalation
import MeshSupervisor.Jobs
import MeshSupervisor.Replies
import MeshSupervisor.StdinStream
import MeshSupervisor.Size
import MeshSupervisor.Config
import MeshSupervisor.Retry
import MeshSupervisor.Client
import MeshSupervisor.CpuTime
import MeshSupervisor.Panics
import MeshSupervisor.Leaves
import MeshSupervisor.Fanout
import MeshSupervisor.StdinWriters
import MeshSupervisor.Provenance
import MeshSupervisor.Calls
import MeshSupervisor.Delivery
import MeshSupervisor.Commands
import MeshSupervisor.CgroupPool
import MeshSupervisor.CgroupReads
import MeshSupervisor.LaunchRuns
import MeshSupervisor.Observation
