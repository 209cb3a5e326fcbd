import Icap.Basic.ByteMemory
import Icap.Basic.Ring
import Icap.Basic.Transition
import Icap.Basic.Serial
import Icap.Basic.Network
import Icap.Basic.Locks
import Icap.Basic.Atomicity
import Icap.Basic.NestedCounter
import Icap.Basic.WrappingTimer
import Icap.Protocol.Message
import Icap.Protocol.Parse
import Icap.Protocol.Dispatch
import Icap.Protocol.Response
import Icap.Protocol.Target
import Icap.Protocol.Extent
import Icap.Protocol.Answers
import Icap.Protocol.Call
import Icap.Protocol.Notification
import Icap.BareMetal.Handling
import Icap.BareMetal.Notifications
import Icap.BareMetal.Link
import Icap.BareMetal.Reinit
import Icap.Protocol.RemoteCall
import Icap.Protocol.Request
import Icap.BareMetal.Transport
import Icap.BareMetal.Interrupts
import Icap.BareMetal.Machine
import Icap.BareMetal.Acceptance
import Icap.BareMetal.Queue
import Icap.BareMetal.Buffers
import Icap.BareMetal.Reentry
import Icap.BareMetal.Responses
import Icap.BareMetal.Session
import Icap.BareMetal.RemoteCall
import Icap.BareMetal.Serving
import Icap.BareMetal.Asking
import Icap.BareMetal.Returns
import Icap.BareMetal.Requests
import Icap.BareMetal.Service
import Icap.BareMetal.Copies
import Icap.BareMetal.Destination
import Icap.BareMetal.Inbox
import Icap.BareMetal.Isolation
import Icap.BareMetal.Preemption
import Icap.BareMetal.Accesses
import Icap.BareMetal.Timeout
import Icap.Linux.Transport
import Icap.Linux.Machine
import Icap.Linux.Awaited
import Icap.Linux.Ownership
import Icap.Linux.Calls
import Icap.Linux.Matching
import Icap.Linux.Stray
import Icap.Linux.WaitBuffer
import Icap.Linux.Requests
import Icap.Linux.Notes
import Icap.Linux.Locks
import Icap.Linux.Sections
import Icap.Transports.Determined
import Icap.Transports.Stray
import Icap.Transports.Negative
import Icap.Transports.SendFailure
import Icap.Transports.Remote
import Icap.Transports.Notices
