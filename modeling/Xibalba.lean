import Xibalba.Proto.Correctness.ChunkedExact
import Xibalba.Proto.Request
import Xibalba.Lib.Wp
import Xibalba.Client.Session
import Xibalba.Client.AsyncClient
import Xibalba.Client.Correctness.Wire
import Xibalba.Client.Correctness.Head
import Xibalba.Client.Correctness.Body
import Xibalba.Client.Correctness.Exchange
import Xibalba.Client.Correctness.Isolation
import Xibalba.Client.Correctness.Streaming
import Xibalba.Client.Correctness.Replay
import Xibalba.Client.Correctness.Redirects
import Xibalba.Client.Correctness.Home
import Xibalba.Client.Correctness.Frame
import Xibalba.Client.Correctness.Threads
import Xibalba.Client.Correctness.Sound
import Xibalba.Client.Correctness.Queue
import Xibalba.Client.Correctness.Conservation
import Xibalba.Client.Correctness.Reader
import Xibalba.Client.Correctness.Outcomes
import Xibalba.Client.Correctness.Desk
import Xibalba.Client.Correctness.Deadlines
import Xibalba.Lib.Eval
import Xibalba.Client.Correctness.Delivery
import Xibalba.Client.Correctness.HeadSplit
import Xibalba.Client.Correctness.Bodies
import Xibalba.Proto.Correctness.ChunkedSafety
import Xibalba.Proto.Correctness.HeadGrammar
import Xibalba.Iouring.Correctness.Agreement
import Xibalba.Iouring.Correctness.Failure
import Xibalba.Iouring.Correctness.Sends
import Xibalba.Iouring.Correctness.Timers
import Xibalba.Iouring.Correctness.Rearms
import Xibalba.Proto.Correctness.FramingRules
import Xibalba.Proto.Correctness.Serializer
import Xibalba.Proto.Correctness.RequestLines
import Xibalba.Client.Correctness.Ranges
import Xibalba.Client.Correctness.References
import Xibalba.Iouring.Correctness.Cuts
import Xibalba.Iouring.Correctness.Panics
import Xibalba.Client.Correctness.Reuse
import Xibalba.Client.Correctness.Admission
import Xibalba.Client.Correctness.Writes
import Xibalba.Client.Correctness.Dialling
import Xibalba.Client.Correctness.Format
import Xibalba.Fuzz.Correctness.Surface
import Xibalba.Client.Correctness.Pace
import Xibalba.Client.Correctness.Traffic
import Xibalba.Client.Correctness.Progress
import Xibalba.Iouring.Correctness.Generations
