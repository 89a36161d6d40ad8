import Udplb.Foundation.Codec
import Udplb.Foundation.Cyclic
import Udplb.Foundation.Heap
import Udplb.Foundation.Interleaving
import Udplb.Foundation.Loop
import Udplb.Foundation.OnesComplement
import Udplb.Foundation.Tally
import Udplb.Foundation.Trace
import Udplb.Foundation.Probing
import Udplb.Foundation.ShareOut
import Udplb.Rlt.Claims
import Udplb.Rlt.Allotment
import Udplb.Rlt.FillOrder
import Udplb.Rlt.Checked
import Udplb.Rlt.Distribution
import Udplb.Rlt.Removal
import Udplb.Rlt.Quota
import Udplb.Rlt.NaiveFib
import Udplb.Rlt.Robust
import Udplb.Rlt.RobustSimple
import Udplb.Rlt.RobustFib
import Udplb.Net
import Udplb.Util.LinkedList
import Udplb.Util.ListWalks
import Udplb.Util.RingBuffer
import Udplb.Util.DropOldest
import Udplb.Util.WatcherMux
import Udplb.Util.WatcherStream
import Udplb.Util.Producer
import Udplb.Util.Delivery
import Udplb.Util.WorkerPool
import Udplb.Util.WorkerPoolDrain
import Udplb.Bpf.Affinity
import Udplb.Bpf.Datagram
import Udplb.Bpf.Exits
import Udplb.Bpf.Checksum
import Udplb.Bpf.Manager
import Udplb.Bpf.EventLoop
import Udplb.Bpf.Linearised
import Udplb.Bpf.Shutdown
import Udplb.Bpf.Outcomes
import Udplb.Bpf.Hops
import Udplb.Bpf.Processors
import Udplb.Bpf.Moments
import Udplb.Controller.Accepted
import Udplb.Controller.Affinity
import Udplb.Controller.Capacity
import Udplb.Controller.Draining
import Udplb.Controller.Failover
import Udplb.Monitor.BackendState
import Udplb.Controller.Health
import Udplb.Controller.Teardown
import Udplb.Bpf.AssignmentOrder
import Udplb.LoadBalancer.Handover
import Udplb.LoadBalancer.Parallel
import Udplb.LoadBalancer.Monitored
import Udplb.Monitor.BackendSpecMap
import Udplb.StateMachine.Machines
import Udplb.StateMachine.Counting
import Udplb.StateMachine.Memory
import Udplb.StateMachine.DeepCopy
import Udplb.Dvds.Snapshot
import Udplb.Wal.Log
import Udplb.Wal.Watched
import Udplb.Dvds.Replica
import Udplb.Dvds.Keys
import Udplb.Lifecycle
import Udplb.Cluster.Close
import Udplb.Cluster.SendLoop
import Udplb.Cluster.Receive
import Udplb.Cluster.Typed
import Udplb.Cmd.PacketFormat
import Udplb.Cmd.EchoBackend
import Udplb.Cmd.TrafficGen
import Udplb.Cmd.EndToEnd
