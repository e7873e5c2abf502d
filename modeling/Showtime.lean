import Showtime.Library.Run
import Showtime.Library.Channel
import Showtime.Library.KeyedSet
import Showtime.Library.Worklist
import Showtime.StageSession
import Showtime.Ownership
import Showtime.TreeEdit
import Showtime.UnknownSender
import Showtime.ConnectReplies
import Showtime.Tree
import Showtime.Rename
import Showtime.Connection
import Showtime.Rejoin
import Showtime.LocalEntities
import Showtime.Compute
import Showtime.Firing
import Showtime.Handover
import Showtime.Activation
import Showtime.Arriving
import Showtime.Departures
import Showtime.CreateOrder
import Showtime.Snapshot
import Showtime.Subscribers
import Showtime.Introductions
import Showtime.CableFailure
import Showtime.ClientCables
import Showtime.Recreated
import Showtime.FallingAsleep
import Showtime.JoinAttempts
import Showtime.Attribution
import Showtime.FactoryRequests
import Showtime.OwnerAgreement
import Showtime.Serialization
import Showtime.Transport
import Showtime.EventLoop
import Showtime.SynchronisableModule
import Showtime.TransportSteps
import Showtime.Responses
import Showtime.MessageCleanup
import Showtime.CableSets
import Showtime.CableLimit
import Showtime.ConnectOutcomes
import Showtime.Footprint
import Showtime.RenamedCables
import Showtime.Keeping
import Showtime.Heartbeats
import Showtime.Destroyed
import Showtime.LeavingPath
import Showtime.ServerDiscovery
import Showtime.ServerNotices
import Showtime.AutoJoin
import Showtime.Creatables
import Showtime.Adoption
import Showtime.Calls
import Showtime.Shadowing
import Showtime.NamedEntities
import Showtime.Requests
import Showtime.WebsocketSession
import Showtime.SocketFrames
import Showtime.ValueMessages
import Showtime.Bundles
import Showtime.Walking
import Showtime.Copies
import Showtime.LocalFactories
import Showtime.Handshakes
import Showtime.HandshakeRuns
import Showtime.CableUpkeep
import Showtime.RenameRuns
import Showtime.Returning
import Showtime.Confinement
import Showtime.ByteURI
import Showtime.PathLaws
import Showtime.PathView
import Showtime.PathKeys
import Showtime.Detaching
import Showtime.Draining
import Showtime.Hearing
import Showtime.Library.Directory
import Showtime.Library.Refinement
import Showtime.Removal
import Showtime.Remaining
import Showtime.Directories
import Showtime.Audience
import Showtime.Library.Dataflow
import Showtime.Adders
import Showtime.Feedback
import Showtime.Outflow
