import Xibalba.Lib.Prog
import Xibalba.Client.Redirect
import Xibalba.Client.Config
import Xibalba.Proto.Request

/-!
# `Client.Sys` — the operations of the client, and the state it holds

Everything the client does outside its own memory is an operation: reading the clock, calling the
`Connector`, using the stream it owns, asking an interrupt, and, in the reader thread, using the control ring,
the chunk rings and the shared flags. What an operation answers is up to the environment.

A client owns one stream at a time. `connect` answering `Ok` is what replaces it, so "the stream" in the other
operations is the one of the last successful `connect`.

A `mark` is not an operation of the source. It has no effect and no answer; it names a point of the source's
control flow in the events of an execution, so that statements about executions can refer to it.
-/

namespace Xibalba

/-! ## What travels between the threads -/

/-- The number that identifies a request on the control ring. The counter is an `AtomicU64`, whose one
    reserved value `CANCEL_ANY` it cannot reach in practice; here the reserved value is a constructor of its
    own in `Control`. -/
abbrev Ticket := Nat

/-- One streaming request handed to the reader thread. The chunk ring's producer, the shared flags and the
    permit that the source's struct owns are addressed through `ticket`. -/
structure AsyncRequest where
  method : Method
  path : Bytes
  query : Option Bytes
  body : Option Bytes
  headers : List (Bytes × Bytes)
  ticket : Ticket
deriving DecidableEq

/-- Control message sent from the caller to the reader thread. -/
inductive Control where
  | request (r : AsyncRequest)
  | cancel (t : Ticket)
  | cancelAny
deriving DecidableEq

/-- One response chunk delivered from the reader thread to the caller. -/
inductive Chunk where
  | head (status : Nat) (headers : List (Bytes × Bytes))
  | body (data : Bytes)
  | eof
  | error (e : Error)
  | aborted
deriving DecidableEq

/-! ## Operations -/

/-- Points of the control flow that statements refer to. -/
inductive Mark where
  /-- `send_head_once` is about to write: the parameters it was called with and the request it made of them. -/
  | exchange (params : RequestParams) (request : Request)
  /-- `read_response` accepted a final head; `acc` is its accumulator, the head's end the second number. -/
  | response (acc : Bytes) (headEnd : Nat)
  /-- `execute` follows a redirect. -/
  | redirect (location : Bytes)
  /-- `next_request` returned this request. -/
  | taken (t : Ticket)
  /-- The owner of a client makes a call. -/
  | call
deriving DecidableEq

inductive Op where
  /-- `Instant::now` -/
  | now
  /-- `Connector::connect` -/
  | connect (url : Url) (deadline : Deadline)
  | setReadTimeout (d : Option Duration)
  | setWriteTimeout (d : Option Duration)
  /-- `Read::read` with a buffer of `len` bytes -/
  | read (len : Nat)
  /-- `Write::write` -/
  | write (buf : Bytes)
  /-- `Write::flush` -/
  | flush
  /-- `Interrupt::is_cancelled` of an interrupt supplied from outside -/
  | isCancelled
  /-- `shutting_down.load` -/
  | loadShuttingDown
  /-- `cancel_any.load` -/
  | loadCancelAny
  /-- `cancel_any.store` -/
  | storeCancelAny (b : Bool)
  /-- `cancelled.load` of a request -/
  | loadCancelled (t : Ticket)
  /-- `consumer_alive.load` of a request -/
  | loadConsumerAlive (t : Ticket)
  /-- `started.store(true)` of a request -/
  | storeStarted (t : Ticket)
  /-- `pop` on the control ring -/
  | pop
  /-- `pop_block` on the control ring; `none` once every producer is gone -/
  | popBlock
  /-- `push` on a request's chunk ring; `false` when the ring is full -/
  | push (t : Ticket) (c : Chunk)
  /-- the request is dropped: its permit is released and its chunk ring closed -/
  | dropRequest (t : Ticket)
  | mark (m : Mark)
deriving DecidableEq

/-- What each operation answers. A read delivers at most as many bytes as the buffer holds, and none at the
    end of the stream; a write accepts at most the bytes it was offered. -/
def Op.Ret : Op → Type
  | .now => Instant
  | .connect _ _ => Except Error Unit
  | .setReadTimeout _ | .setWriteTimeout _ | .flush => Except StdIoError Unit
  | .read len => Except StdIoError { bs : Bytes // bs.length ≤ len }
  | .write buf => Except StdIoError { n : Nat // n ≤ buf.length }
  | .isCancelled | .loadShuttingDown | .loadCancelAny | .loadCancelled _ | .loadConsumerAlive _
  | .push _ _ => Bool
  | .pop | .popBlock => Option Control
  | .storeCancelAny _ | .storeStarted _ | .dropRequest _ | .mark _ => Unit

theorem Op.all_accepted (buf : Bytes) : buf.length ≤ buf.length := Nat.le_refl _

/-- The signature of the client's programs. -/
abbrev Sys : Sig := ⟨Op, Op.Ret⟩

/-! ## Local state -/

/-- A blocking HTTP/1.1 client over one connection. `maxHeadSize` is the const parameter `MAX_HEAD_SIZE`; the
    stream is the environment's. -/
structure Client where
  config : Config
  maxHeadSize : Nat
  origin : Origin
  writeBuf : Bytes
  headBuf : Bytes
  dirty : Bool
deriving DecidableEq

/-- What the thread that drives a client holds: the client and, in the reader thread, the requests displaced
    from the control ring and the latch of the request being served. -/
structure Local where
  client : Client
  pending : List AsyncRequest
  fired : Bool
deriving DecidableEq

/-- Programs of the client that fail with an `ε`. -/
abbrev M (ε α : Type) := Act Sys Local ε α

namespace M

variable {ε : Type}

def now : M ε Instant := Act.call (S := Sys) .now

def mark (m : Mark) : M ε Unit := Act.call (S := Sys) (.mark m)

/-! The operations, with their answers' types spelled out. -/

def connect (url : Url) (deadline : Deadline) : M Error Unit := do
  Act.ofExcept (← Act.call (S := Sys) (.connect url deadline))

def setReadTimeout (d : Option Duration) : M StdIoError Unit := do
  Act.ofExcept (← Act.call (S := Sys) (.setReadTimeout d))

def setWriteTimeout (d : Option Duration) : M StdIoError Unit := do
  Act.ofExcept (← Act.call (S := Sys) (.setWriteTimeout d))

def loadShuttingDown : M ε Bool := Act.call (S := Sys) .loadShuttingDown
def loadCancelAny : M ε Bool := Act.call (S := Sys) .loadCancelAny
def storeCancelAny (b : Bool) : M ε Unit := Act.call (S := Sys) (.storeCancelAny b)
def loadCancelled (t : Ticket) : M ε Bool := Act.call (S := Sys) (.loadCancelled t)
def loadConsumerAlive (t : Ticket) : M ε Bool := Act.call (S := Sys) (.loadConsumerAlive t)
def storeStarted (t : Ticket) : M ε Unit := Act.call (S := Sys) (.storeStarted t)
def pop : M ε (Option Control) := Act.call (S := Sys) .pop
def popBlock : M ε (Option Control) := Act.call (S := Sys) .popBlock
def push (t : Ticket) (c : Chunk) : M ε Bool := Act.call (S := Sys) (.push t c)
def dropRequest (t : Ticket) : M ε Unit := Act.call (S := Sys) (.dropRequest t)

/-- The client. -/
def client : M ε Client := do return (← Act.get).client

def modifyClient (f : Client → Client) : M ε Unit := Act.modify fun l => { l with client := f l.client }

end M

end Xibalba
