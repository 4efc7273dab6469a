import Nwep.Lib.Machine
import Nwep.Lib.Channel
import Nwep.Client.Request
import Nwep.Lib.Ledger
import Nwep.Lib.Vec
import Nwep.Runtime.ClientLoop
import Nwep.Runtime.ClientReplies
import Nwep.Runtime.ClientRouting
import Nwep.Runtime.ClientClose
import Nwep.Runtime.ClientWake
import Nwep.Dht
import Nwep.Runtime.ServerLoop
import Nwep.Runtime.ServerStop
import Nwep.Runtime.Serve
import Nwep.Client.Stream
import Nwep.Runtime.Stream
import Nwep.Runtime.StreamBody
import Nwep.Runtime.StreamEnd
import Nwep.Lib.Heap
import Nwep.Server.Responder
import Nwep.LogServer
import Nwep.Server.Trampoline
import Nwep.Client.DoneHook
import Nwep.Runtime.ServerReplies
import Nwep.Runtime.ServerClock
import Nwep.Runtime.ServerRouting
import Nwep.Runtime.ServerAnswers
import Nwep.Runtime.ServerCadence
import Nwep.Runtime.Waits
import Nwep.Runtime.StreamKey
import Nwep.Server.Deferred
import Nwep.Server.Headers
import Nwep.Server.Capture
import Nwep.Lib.Custody
import Nwep.Server.Teardown
import Nwep.Client.CacheAttach
import Nwep.Client.Handles
import Nwep.ErrorSites
import Nwep.Lib.Sweep
import Nwep.Runtime.Sweep
import Nwep.Shamir
import Nwep.Trust.Quorum
import Nwep.Wiping
import Nwep.Lib.Progress
import Nwep.Runtime.ClientDrop
import Nwep.Runtime.Connect
import Nwep.Runtime.StreamPath
import Nwep.Runtime.StreamProgress
import Nwep.Apps.Drop
import Nwep.Lib.Fifo
import Nwep.Lib.Simulation
import Nwep.Poll
import Nwep.Runtime.ClientPlatforms
import Nwep.Runtime.Fifo
import Nwep.Apps.Kv
import Nwep.Apps.Proxy
import Nwep.Runtime.ServerDrop
import Nwep.Lib.Launch
import Nwep.Runtime.Launch
import Nwep.Apps.LogNode
import Nwep.Runtime.ClientMessages
import Nwep.Runtime.StreamHandles
import Nwep.Runtime.ServerHandles
