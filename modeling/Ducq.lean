import Ducq.Lib.Memory
import Ducq.Lib.ByteStream
import Ducq.Lib.Number
import Ducq.Lib.Printf
import Ducq.Lib.Glob
import Ducq.Lib.Sweep
import Ducq.Lib.Registry
import Ducq.Lib.Lifetime
import Ducq.Core.State
import Ducq.Core.Parse
import Ducq.Core.Ack
import Ducq.Core.RouteCmp
import Ducq.Core.Client
import Ducq.Core.Message
import Ducq.Inet.Socket
import Ducq.Tcp.Frame
import Ducq.Tcp.Capacity
import Ducq.Tcp.Session
import Ducq.Ws.Header
import Ducq.Ws.Endpoint
import Ducq.Ws.Capacity
import Ducq.Reactor.Table
import Ducq.Reactor.Invariant
import Ducq.Reactor.Registry
import Ducq.Reactor.Broadcast
import Ducq.Reactor.LastMsg
import Ducq.Reactor.Log
import Ducq.Reactor.Lifetime
import Ducq.Commands.Pub
import Ducq.Commands.Sub
import Ducq.Commands.Unsub
import Ducq.System.Run
import Ducq.System.Publication
import Ducq.System.Lifetime
import Ducq.System.Subscription
import Ducq.Lib.FirstFit
import Ducq.Reactor.Replay
import Ducq.Commands.Storage
import Ducq.System.Subscribers
import Ducq.System.Rows
import Ducq.System.Replay
import Ducq.System.Trace
import Ducq.Ws.Frame
import Ducq.Ws.Setters
import Ducq.Lib.Fifo
import Ducq.Ws.Session
import Ducq.Ws.OwnBytes
import Ducq.Inet.Http
import Ducq.Inet.Header
import Ducq.Inet.Base64
import Ducq.Inet.Exact
import Ducq.Ws.Upgrade
import Ducq.Http.Recv
import Ducq.Transport.Length
import Ducq.System.Unsub
import Ducq.System.Nested
import Ducq.System.Pass
import Ducq.System.NotFound
import Ducq.Lib.Effect
import Ducq.Lib.LuaStack
import Ducq.Reactor.Logged
import Ducq.Commands.Logged
import Ducq.Commands.Reply
import Ducq.Dispatcher.Balance
import Ducq.Dispatcher.Formats
import Ducq.Dispatcher.LogSize
import Ducq.Lib.Cursor
import Ducq.Reactor.Iterator
import Ducq.Commands.Listing
import Ducq.Lib.Flag
import Ducq.Lib.Path
import Ducq.Lib.Records
import Ducq.Core.Listen
import Ducq.Core.KeepAlive
import Ducq.Inet.Reads
import Ducq.Tcp.Outcome
import Ducq.Inet.Lookup
import Ducq.System.Pong
import Ducq.Dispatcher.Load
import Ducq.Dispatcher.Scripts
import Ducq.Dispatcher.Notify
import Ducq.Dispatcher.Reload
import Ducq.Inet.Sha1
import Ducq.Inet.Sha1Calls
import Ducq.Ws.Handshake
import Ducq.System.Server
import Ducq.Ws.Closing
import Ducq.System.Settlement
import Ducq.Lib.Broker
import Ducq.System.Broker
import Ducq.System.Delivery
import Ducq.Tcp.Listener
import Ducq.System.EndToEnd
import Ducq.Inet.Address
import Ducq.System.Lsconn
import Ducq.Dispatcher.Lifecycle
