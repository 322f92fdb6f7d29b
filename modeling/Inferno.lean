import Inferno.Packets.Header
import Inferno.Chat.Session
import Inferno.Lib.Clock
import Inferno.Login.AuthDatagram
import Inferno.Tokens.Store
import Inferno.Lib.Runs
import Inferno.Tokens.Lifetime
import Inferno.Lib.Datagrams
import Inferno.Login.Handshake
import Inferno.Login.Ports
import Inferno.Lib.SqlLiteral
import Inferno.Login.Credentials
import Inferno.Login.LoginUser
import Inferno.Login.SignupUser
import Inferno.Tokens.Coherence
import Inferno.Tokens.MatchMaker
import Inferno.ServerAI.Graph
import Inferno.Sockets.Registry
import Inferno.Lib.Layout
import Inferno.Packets.Bodies
import Inferno.Packets.Codec
import Inferno.Packets.Kind
import Inferno.Lib.Positions
import Inferno.MatchServer.Loops
import Inferno.Login.Segments
import Inferno.Login.TestClient
import Inferno.Login.Announce
import Inferno.Login.Verdict
import Inferno.Packets.Stale
import Inferno.Lib.Strtok
import Inferno.ServerAI.AlFile
import Inferno.Lib.Conversions
import Inferno.Lib.RunningMean
import Inferno.Login.ServiceLoop
import Inferno.MatchServer.Elo
import Inferno.Chat.Rosters
import Inferno.Lib.Counting
import Inferno.Login.ReceiveLoops
import Inferno.Login.SignupTimeout
import Inferno.Login.Token
import Inferno.Login.PortCycle
import Inferno.Packets.Lossy
import Inferno.Lib.FirstMin
import Inferno.ServerAI.Adjacency
import Inferno.ServerAI.Nearest
import Inferno.Tokens.Scrub
import Inferno.Login.AcceptLoop
import Inferno.Login.Retransmit
import Inferno.Tokens.Latest
import Inferno.Lib.Lines
import Inferno.ServerAI.MapFiles
import Inferno.ServerAI.Loader
import Inferno.ServerAI.Distance
import Inferno.Chat.Descriptors
import Inferno.MatchServer.Buffer
import Inferno.Tokens.MatchRequest
import Inferno.Sockets.UnreliableUDP
import Inferno.Sockets.Client
import Inferno.Lib.OStream
import Inferno.Login.HexDigest
import Inferno.Lib.HeapList
import Inferno.Sockets.AddressInfo
import Inferno.Sockets.ServerSocket
import Inferno.Sockets.AddressLifetime
import Inferno.Chat.Relay
import Inferno.Login.LoginExchange
import Inferno.Tokens.Leases
import Inferno.Lib.Answers
import Inferno.Login.Accounts
import Inferno.ServerAI.PlainMap
import Inferno.Login.Crowd
import Inferno.Login.Reaping
import Inferno.Sockets.Streams
import Inferno.Login.EndToEnd
import Inferno.Lib.BoundedQueue
import Inferno.MatchServer.Flow
import Inferno.Login.SignupExchange
import Inferno.Chat.FdSets
import Inferno.Login.PeerAddresses
