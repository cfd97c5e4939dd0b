import Boardwalk.Lib.Machine
import Boardwalk.Lib.Channel
import Boardwalk.Lib.Ledger
import Boardwalk.Lib.Table
import Boardwalk.Lib.Party
import Boardwalk.Lib.Retention
import Boardwalk.Lib.Str
import Boardwalk.Lib.Ascii
import Boardwalk.Lib.Cut
import Boardwalk.Lib.Notify
import Boardwalk.Query.Json
import Boardwalk.Query.Ast
import Boardwalk.Query.Eval
import Boardwalk.Query.Spec.Glob
import Boardwalk.Query.Spec.Project
import Boardwalk.Caql.Lex
import Boardwalk.Caql.Parse
import Boardwalk.Events.Envelope
import Boardwalk.Events.Policy
import Boardwalk.Events.Coalesce
import Boardwalk.Events.CoalesceCalls
import Boardwalk.Events.CoalesceKey
import Boardwalk.Events.Replay
import Boardwalk.Events.Bus
import Boardwalk.Events.Topic
import Boardwalk.Events.Spec.Step
import Boardwalk.Events.Spec.Effect
import Boardwalk.Events.Spec.Invariant
import Boardwalk.Events.Spec.Quota
import Boardwalk.Events.Spec.Notice
import Boardwalk.Events.Spec.Alone
import Boardwalk.Events.Spec.Topic
import Boardwalk.Events.Spec.TopicText
import Boardwalk.Events.Spec.CoalesceKey
import Boardwalk.Events.Spec.Wakeup
import Boardwalk.Events.Spec.Filter
import Boardwalk.Events.Spec.Offered
import Boardwalk.Events.Spec.Once
import Boardwalk.Events.Spec.Armed
import Boardwalk.Events.Spec.Fate
import Boardwalk.Events.Spec.Record
import Boardwalk.Events.Spec.Lossless
import Boardwalk.Http.Ws
import Boardwalk.Runtime.Resource
import Boardwalk.Server.Identity
import Boardwalk.Http.EventsRequest
import Boardwalk.Http.Links
import Boardwalk.Http.EventsStream
import Boardwalk.Http.Spec.LocalForwarder
import Boardwalk.Http.Spec.StreamGap
import Boardwalk.Peer.Capabilities
import Boardwalk.Peer.Acceptor
import Boardwalk.Peer.Spec.Step
import Boardwalk.Peer.Spec.Registry
import Boardwalk.Peer.Spec.Status
import Boardwalk.Http.Forward
import Boardwalk.Http.Spec.Ceiling
import Boardwalk.Peer.Admission
import Boardwalk.Http.Headers
import Boardwalk.Http.Ingress
import Boardwalk.Http.Spec.Ingress
import Boardwalk.Http.Admission
import Boardwalk.Http.Spec.Admission
import Boardwalk.Http.ForwardRequest
import Boardwalk.Http.Spec.ForwardRequest
import Boardwalk.Http.Spec.Attestation
import Boardwalk.Http.Hrefs
import Boardwalk.Http.Spec.StreamLink
import Boardwalk.Http.Spec.SubscriptionTopic
import Boardwalk.Http.Spec.SubscriptionUrl
import Boardwalk.Lib.Owed
import Boardwalk.Http.PeerStreams
import Boardwalk.Http.Socket
import Boardwalk.Http.Spec.Socket
import Boardwalk.Runtime.Sequencer
import Boardwalk.Http.ReplaySession
import Boardwalk.Http.Spec.Replay
import Boardwalk.Http.Spec.Routing
import Boardwalk.Runtime.Spec.Publisher
import Boardwalk.Runtime.Spec.Address
import Boardwalk.Runtime.Spec.Sequencer
import Boardwalk.Runtime.PublishEnvelope
import Boardwalk.Runtime.Spec.PublishEnvelope
import Boardwalk.Runtime.Spec.ReplayOrder
import Boardwalk.Persistence.Identity
import Boardwalk.Persistence.Spec.Identity
import Boardwalk.Persistence.NodeConfig
import Boardwalk.Persistence.Spec.NodeConfig
import Boardwalk.Server.Spec.Identity
import Boardwalk.Server.Registrations
import Boardwalk.Server.Spec.Registrations
import Boardwalk.Runtime.Executor
import Boardwalk.Runtime.Spec.Executor
import Boardwalk.Http.Core
import Boardwalk.Http.Spec.Core
import Boardwalk.Http.Spec.CoreTransition
import Boardwalk.Http.Spec.CoreReads
import Boardwalk.Http.Spec.Latest
import Boardwalk.Runtime.Directory
import Boardwalk.Server.Registrar
import Boardwalk.Server.Spec.Registrar
import Boardwalk.Http.Spec.PeerStreams
import Boardwalk.Http.Spec.PeerForwarder
import Boardwalk.Http.Spec.Teardown
import Boardwalk.Http.Ndjson
import Boardwalk.Http.Spec.Ndjson
import Boardwalk.Http.PeerSession
import Boardwalk.Http.Spec.RunStream
import Boardwalk.Http.Spec.PeerSession
import Boardwalk.Http.Federation
import Boardwalk.Http.Spec.Federation
import Boardwalk.Http.Sockets
import Boardwalk.Http.Spec.PeerRefcount
import Boardwalk.Lib.Splice
import Boardwalk.Http.Spec.ReplaySession
import Boardwalk.Http.Spec.ReplayLive
import Boardwalk.Http.Spec.PeerId
import Boardwalk.Query.Spec.Laws
import Boardwalk.Lib.Descent
import Boardwalk.Caql.Spec.Grammar
import Boardwalk.Caql.Spec.Parser
import Boardwalk.Caql.Spec.Complete
import Boardwalk.Caql.Spec.Predictive
import Boardwalk.Caql.Spec.WellTyped
import Boardwalk.Caql.Spec.Lexeme
import Boardwalk.Caql.Scan
import Boardwalk.Caql.Spec.Tokenize
import Boardwalk.Caql.Spec.Scan
import Boardwalk.Caql.Spec.Strings
import Boardwalk.Caql.Spec.Spelling
import Boardwalk.Caql.Spec.Culprit
import Boardwalk.Http.Frames
import Boardwalk.Http.Spec.Mirror
import Boardwalk.Http.Spec.Capacity
import Boardwalk.Http.Spec.Hrefs
import Boardwalk.Http.HrefUrls
import Boardwalk.Http.Spec.HrefUrls
import Boardwalk.Http.Targets
import Boardwalk.Http.Spec.Targets
import Boardwalk.Http.Routes
import Boardwalk.Http.Spec.Routes
import Boardwalk.Http.Spec.Limit
import Boardwalk.Http.Spec.Bookkeeping
import Boardwalk.Tunnel.Handshake
import Boardwalk.Tunnel.Spec.NoProxy
import Boardwalk.Lib.Progress
import Boardwalk.Events.Spec.Permits
import Boardwalk.Events.Spec.Progress
import Boardwalk.Runtime.Spec.Replies
import Boardwalk.Peer.Spec.Locks
import Boardwalk.Tunnel.Spec.Handshake
import Boardwalk.Peer.Client
import Boardwalk.Peer.Spec.Client
import Boardwalk.Peer.Link
import Boardwalk.Peer.Spec.Link
import Boardwalk.Http.Spec.CoreProgress
import Boardwalk.Http.Spec.CoreShutdown
import Boardwalk.Lib.Reference
import Boardwalk.Http.Pages
import Boardwalk.Http.Spec.Pages
import Boardwalk.Http.Spec.OwnLinks
