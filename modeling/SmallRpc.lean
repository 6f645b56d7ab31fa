import SmallRpc.Runs
import SmallRpc.SocketWrites
import SmallRpc.Connection
import SmallRpc.Completions
import SmallRpc.Descriptors
import SmallRpc.SimpleSafety
import SmallRpc.Feeding
import SmallRpc.Protocols
import SmallRpc.HttpSafety
import SmallRpc.SimpleFragments
import SmallRpc.Redispatch
import SmallRpc.Timeouts
import SmallRpc.HttpFragments
import SmallRpc.BufferQueue
import SmallRpc.SimpleRoundTrip
import SmallRpc.HttpRoundTrip
import SmallRpc.PeerFailures
import SmallRpc.ExtraSegment
import SmallRpc.Contexts
import SmallRpc.DetectionOrder
import SmallRpc.TimerManager
import SmallRpc.Shutdown
import SmallRpc.AsyncCalls
import SmallRpc.SyncCall
import SmallRpc.Phases
import SmallRpc.TimeStamps
import SmallRpc.Views
import SmallRpc.SyncSession
import SmallRpc.SyncEnds
import SmallRpc.RequestLine
import SmallRpc.HeaderFields
import SmallRpc.CaseVariants
import SmallRpc.Builds
import SmallRpc.LogFile
import SmallRpc.Connecting
import SmallRpc.Setup
import SmallRpc.TimerOwners
import SmallRpc.Wakeups
import SmallRpc.Addresses
import SmallRpc.Owners
import SmallRpc.Messages
import SmallRpc.Dialogue
import SmallRpc.Exchanges
import SmallRpc.Transparency
import SmallRpc.Requests
import SmallRpc.Pipelining
import SmallRpc.Sessions
import SmallRpc.Progress
import SmallRpc.FirstWins
import SmallRpc.Registration
import SmallRpc.RoundRobin
