import PrivateCloud.Library.Machine
import PrivateCloud.Library.Bytes
import PrivateCloud.Library.Memory
import PrivateCloud.Library.Socket
import PrivateCloud.Library.Descriptors
import PrivateCloud.Nbd.Comm
import PrivateCloud.Nbd.Framing
import PrivateCloud.Nbd.ReplyFraming
import PrivateCloud.Nbd.DevOpen
import PrivateCloud.Library.Linearizable
import PrivateCloud.Local.Server
import PrivateCloud.Local.Device
import PrivateCloud.Local.Main
import PrivateCloud.Library.Bag
import PrivateCloud.Library.Stride
import PrivateCloud.Library.Condition
import PrivateCloud.Library.OrderedSet
import PrivateCloud.Sync.Semaphore
import PrivateCloud.Sync.BtsQueue
import PrivateCloud.Sync.Linearizable
import PrivateCloud.Sync.Progress
import PrivateCloud.Sync.Singleton
import PrivateCloud.ThreadPool.Pool
import PrivateCloud.ThreadPool.Workers
import PrivateCloud.ThreadPool.Drain
import PrivateCloud.ThreadPool.Leaving
import PrivateCloud.ThreadPool.Future
import PrivateCloud.ThreadPool.Permits
import PrivateCloud.ThreadPool.Clients
import PrivateCloud.ThreadPool.Waits
import PrivateCloud.ThreadPool.Locked
import PrivateCloud.ThreadPool.Seen
import PrivateCloud.ThreadPool.Ends
import PrivateCloud.Reactor.Reactor
import PrivateCloud.Host.Command
import PrivateCloud.Host.RequestHost
import PrivateCloud.Host.Placement
import PrivateCloud.Host.Transfers
import PrivateCloud.Dispatch.Dispatcher
import PrivateCloud.Dispatch.Striping
import PrivateCloud.Dispatch.Replies
import PrivateCloud.Dispatch.Totality
import PrivateCloud.Dispatch.System
import PrivateCloud.Dispatch.Creators
import PrivateCloud.Dispatch.Invariant
import PrivateCloud.Dispatch.Completion
import PrivateCloud.Dispatch.Stripes
import PrivateCloud.Dispatch.Lifetime
import PrivateCloud.Dispatch.Simulation
import PrivateCloud.Dispatch.Refinement
import PrivateCloud.Dispatch.Blocks
import PrivateCloud.Atlas.Pooled
import PrivateCloud.Atlas.Once
import PrivateCloud.Atlas.Device
import PrivateCloud.Atlas.Direct
import PrivateCloud.Dispatch.Process
import PrivateCloud.Dispatch.SetUp
import PrivateCloud.Dispatch.Main
import PrivateCloud.Observer.Observer
import PrivateCloud.Observer.Links
import PrivateCloud.Observer.Destruction
import PrivateCloud.Observer.Notify
