import Voltha.Config.Atomicity
import Voltha.Config.Cleanup
import Voltha.Config.Conflict
import Voltha.Config.Keywise
import Voltha.Config.Rejected
import Voltha.Config.Reactions
import Voltha.Config.UniqueKeys
import Voltha.Config.LoadWrites
import Voltha.Config.ConsulStore
import Voltha.Common.EventBus
import Voltha.Common.IndexPoolCalls
import Voltha.Core.DeviceAgent
import Voltha.Core.FlowChanges
import Voltha.Core.PortPeers
import Voltha.Core.GroupDeletion
import Voltha.Core.CachedTables
import Voltha.Core.OfAgentSession
import Voltha.Omci.Channel
import Voltha.Omci.OnuCapabilities
import Voltha.Omci.StoppedTasks
import Voltha.Xpon.OnuIds
import Voltha.Xpon.GroupIds
import Voltha.Mib.Progress
import Voltha.Mib.Activations
import Voltha.Mib.Interchange
import Voltha.Mib.MibResync
import Voltha.Frames.OmciFrame
import Voltha.Cluster.Dispatcher
import Voltha.Cluster.PeerConnections
import Voltha.Cluster.AssignmentRecords
import Voltha.Cluster.Coordinator
import Voltha.OfAgent.GrpcStubs
import Voltha.OfAgent.ProtocolHandler
import Voltha.OfAgent.OpenFlowConnection
import Voltha.Openolt.Platform
import Voltha.Openolt.OpenoltDevice
import Voltha.Ponsim.VlanActions
import Voltha.Adtran.EvcMap
import Voltha.Config.Hashes
