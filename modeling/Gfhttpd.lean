import Gfhttpd.Mem.Cycles
import Gfhttpd.Mem.Returned
import Gfhttpd.Mem.Search
import Gfhttpd.Config.Layout
import Gfhttpd.Config.Blocks
import Gfhttpd.Config.Objects
import Gfhttpd.Config.Constructors
import Gfhttpd.Config.Port
import Gfhttpd.Config.Release
import Gfhttpd.Modules.Writer
import Gfhttpd.Modules.Calls
import Gfhttpd.Router.Failure
import Gfhttpd.Router.Decision
import Gfhttpd.Router.Paths
import Gfhttpd.Router.Selection
import Gfhttpd.Router.Duplicates
import Gfhttpd.Http3.Chains
import Gfhttpd.Http3.Configured
import Gfhttpd.Http.Headers
import Gfhttpd.Log.Log
import Gfhttpd.Http2.StreamList
import Gfhttpd.Http2.Requests
import Gfhttpd.Http2.Reference
import Gfhttpd.Http2.DecodeBuffer
import Gfhttpd.Http2.FileRead
import Gfhttpd.Http2.Teardown
import Gfhttpd.Http2.Delivery
import Gfhttpd.Http2.Survival
import Gfhttpd.Http2.RequestLog
import Gfhttpd.Http3.Transfer
import Gfhttpd.Http3.Completion
import Gfhttpd.Http3.Fields
import Gfhttpd.Http3.WellFormed
import Gfhttpd.Http3.Responses
import Gfhttpd.Http3.Lifetime
import Gfhttpd.Http3.Dispatch
import Gfhttpd.Http3.Timers
import Gfhttpd.Http3.Connections
import Gfhttpd.Http3.BackPressure
import Gfhttpd.Http3.Deadline
import Gfhttpd.Http3.Lengths
import Gfhttpd.Http3.Tokens
import Gfhttpd.Http3.Batch
import Gfhttpd.Http3.HeaderArray
import Gfhttpd.Http3.Recorded
import Gfhttpd.Http3.Teardown
import Gfhttpd.Http3.Refinement
import Gfhttpd.Security.PathGate
import Gfhttpd.Security.Isolation
import Gfhttpd.Agreement.Order
import Gfhttpd.Agreement.Status
import Gfhttpd.Process.Main
