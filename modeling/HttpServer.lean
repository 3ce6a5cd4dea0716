import HttpServer.Lib.Search
import HttpServer.Lib.Loop
import HttpServer.Http.Text
import HttpServer.Http.Chunks
import HttpServer.Http.BodyLimit
import HttpServer.Http.Client
import HttpServer.Server.Equivalence
import HttpServer.Server.Pipeline
import HttpServer.Server.KeepAlive
import HttpServer.Router.Containment
import HttpServer.Server.Framing
import HttpServer.Server.Drain
import HttpServer.Server.Wakeup
import HttpServer.Server.Queue
import HttpServer.Http.Calls
import HttpServer.Http.Decoder
import HttpServer.Server.Isolation
import HttpServer.Router.Exceptions
import HttpServer.Net.ByteStream
import HttpServer.Server.EventTable
import HttpServer.Server.Edges
import HttpServer.Server.Handlers
import HttpServer.Server.Threads
import HttpServer.Router.Order
import HttpServer.Http.ContentLength
import HttpServer.Server.Close
import HttpServer.Net.Until
import HttpServer.Net.Writing
import HttpServer.Server.Lifecycle
import HttpServer.Net.Socket
import HttpServer.Server.Arguments
import HttpServer.Server.Progress
import HttpServer.Server.Signal
import HttpServer.Server.Multiplex
import HttpServer.Server.Service
import HttpServer.Http.Patience
import HttpServer.Server.Intake
import HttpServer.Server.Turnaround
import HttpServer.Server.Api
import HttpServer.Server.Syscalls
import HttpServer.Server.Attendance
import HttpServer.Http.Faults
import HttpServer.Server.Malformed
import HttpServer.Server.Rest
import HttpServer.Server.Delivery
