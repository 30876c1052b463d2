import GrpcUds.Lib.Transition
import GrpcUds.Lib.Heap
import GrpcUds.Lib.Table
import GrpcUds.Lib.Fallible
import GrpcUds.Lib.Ledger
import GrpcUds.Lib.Cursor
import GrpcUds.Lib.Varint
import GrpcUds.Lib.Xorshift
import GrpcUds.Framing
import GrpcUds.Headers
import GrpcUds.Server.OutQueue
import GrpcUds.Server.Shipping
import GrpcUds.Server.Delivery
import GrpcUds.Server.Backpressure
import GrpcUds.Server.Retention
import GrpcUds.Server.Conn
import GrpcUds.Server.Callbacks
import GrpcUds.Server.Dispatch
import GrpcUds.Server.Machine
import GrpcUds.Server.Lane
import GrpcUds.Server.Timeout
import GrpcUds.Server.Projection
import GrpcUds.Server.Reachable
import GrpcUds.Server.Lifecycle
import GrpcUds.Server.Finish
import GrpcUds.Server.Answer
import GrpcUds.Server.Finished
import GrpcUds.Server.Refinement
import GrpcUds.Server.Contents
import GrpcUds.Server.Invocation
import GrpcUds.Server.Hooks
import GrpcUds.Server.HookLaw
import GrpcUds.Server.HookFirings
import GrpcUds.Server.Unanswered
import GrpcUds.Server.Sending
import GrpcUds.Server.Turns
import GrpcUds.Server.Served
import GrpcUds.Server.Expiry
import GrpcUds.Server.Pass
import GrpcUds.Server.Receiving
import GrpcUds.Server.SizeCap
import GrpcUds.Server.Wire
import GrpcUds.Server.WireOrder
import GrpcUds.Client.Deframe
import GrpcUds.Client.CallState
import GrpcUds.Client.Conn
import GrpcUds.Client.Timeout
import GrpcUds.Client.Calls
import GrpcUds.Client.Moves
import GrpcUds.Client.Isolation
import GrpcUds.Client.Outcome
import GrpcUds.Client.Content
import GrpcUds.Client.Bodies
import GrpcUds.Client.Percent
import GrpcUds.Client.ConnectWait
import GrpcUds.Client.Reconnect
import GrpcUds.Ffi.Mailbox
import GrpcUds.Ffi.Direct
import GrpcUds.Ffi.Identity
import GrpcUds.Ffi.Fifo
import GrpcUds.Ffi.Order
import GrpcUds.Ffi.Responder
import GrpcUds.Ffi.Completion
import GrpcUds.Ffi.SingleUse
import GrpcUds.Serve.Mailbox
import GrpcUds.Serve.Loop
import GrpcUds.Serve.Wakeup
import GrpcUds.Serve.Routing
import GrpcUds.Serve.Shutdown
import GrpcUds.Serve.Streams
import GrpcUds.Serve.Finishing
import GrpcUds.Serve.Race
import GrpcUds.Serve.Deliveries
import GrpcUds.Serve.Unary
import GrpcUds.Serve.Health
import GrpcUds.Serve.Trace
import GrpcUds.Serve.Watchers
import GrpcUds.Ffi.Health
import GrpcUds.Ffi.CheckRequest
import GrpcUds.Cxx.CheckRequest
import GrpcUds.Cxx.ServerThread
import GrpcUds.Cxx.Scan
import GrpcUds.Cxx.Lifetime
import GrpcUds.Cxx.HealthCheck
import GrpcUds.Ffi.Armed
import GrpcUds.Ffi.Watchers
import GrpcUds.Ffi.StatusOrder
import GrpcUds.Ffi.LastStatus
import GrpcUds.Codegen.Paths
import GrpcUds.Lib.Joined
import GrpcUds.Server.Marks
import GrpcUds.Server.Status
import GrpcUds.Ffi.TimeRemaining
import GrpcUds.Codegen.TypeNames
import GrpcUds.Codegen.CNames
import GrpcUds.Codegen.RustNames
import GrpcUds.Codegen.Specializations
import GrpcUds.Codegen.Setters
import GrpcUds.Codegen.Trampolines
import GrpcUds.Lib.Endian
import GrpcUds.Lib.OnesComplement
import GrpcUds.Lib.Shelf
import GrpcUds.Wirelog.Rotation
import GrpcUds.Wirelog.Record
import GrpcUds.Wirelog.Capture
import GrpcUds.Rpc.Streaming
