import Xibalba.Client.Reader
import Xibalba.Lib.Wp

/-!
# `Client.AsyncClient` — the callers of the reader thread

`AsyncClient` and `StreamHandle` of `xibalba-client/src/async_client.rs`, with the `Admission` of `admission.rs`:
what any number of caller threads do with the rings and flags they share with the reader. The rings of
`quetzalcoatl` are queues that refuse a push when they are full; each access to a ring or a flag is one step.

A call that touches the shared state twice is two steps, the second of which is its push on the control ring:
between the two it is one of the `calls` in progress. Together with the shared state, `Shared` remembers of every
request what became of it; nothing in the source reads that part.
-/

namespace Xibalba

/-- How many requests may be outstanding at once. -/
def DEFAULT_MAX_OUTSTANDING : Nat := 64

/-- Capacity of the control ring feeding the reader thread. -/
def CONTROL_RING_CAP : Nat := DEFAULT_MAX_OUTSTANDING * 2

/-- Capacity of a request's chunk ring. -/
def CHUNK_RING_CAP : Nat := 32

/-! ## The shared state -/

/-- What a request shares with its handle. -/
structure Slot where
  cancelled : Bool
  consumerAlive : Bool
  started : Bool
  /-- the chunk ring, oldest first -/
  chunks : List Chunk
deriving DecidableEq

/-- What is remembered of a request. -/
structure Fate where
  /-- the chunks pushed on its ring so far -/
  delivered : List Chunk
  /-- `next_request` has returned it -/
  taken : Bool
  /-- it was dropped by the reader -/
  finished : Bool
  /-- a cancel of it was put on the control ring before it was taken -/
  cancelQueued : Bool
  /-- a cancel of it found the control ring full before it was taken -/
  cancelLost : Bool
  /-- a cancel flag was seen when one of its chunks was to be delivered -/
  cutOff : Bool
  /-- the stream itself reported a `Cancelled` while it was served -/
  forged : Bool
deriving DecidableEq

/-- Nothing happened to the request yet. -/
def Fate.new : Fate := ⟨[], false, false, false, false, false, false⟩

/-- A call in progress: what it still has to push. -/
inductive Calling where
  | submit (request : AsyncRequest)
  | cancel (t : Ticket)
  | cancelAny
  /-- the wakeup of `AsyncClient::drop` -/
  | wakeup
deriving DecidableEq

/-- The message the call pushes. -/
def Calling.message : Calling → Control
  | .submit request => .request request
  | .cancel t => .cancel t
  | .cancelAny | .wakeup => .cancelAny

/-- A call through the `AsyncClient`, not through a handle. -/
def Calling.ofClient : Calling → Bool
  | .cancel _ => false
  | _ => true

/-- A submission that was refused as `TooManyRequests`: whether it was admitted and its push found the control ring
    full, how many requests were admitted, and what was waiting on the ring. -/
structure Refusal where
  atPush : Bool
  admitted : Nat
  requests : Nat
  cancels : Nat
deriving DecidableEq

def Control.isRequest : Control → Bool
  | .request _ => true
  | _ => false

structure Shared where
  /-- the control ring, oldest first -/
  ring : List Control
  cancelAny : Bool
  shuttingDown : Bool
  nextTicket : Ticket
  outstanding : Nat
  slots : Ticket → Slot
  calls : List Calling
  /-- the handles the callers hold -/
  handles : List Ticket
  fates : Ticket → Fate
  /-- the request the reader has taken and not dropped -/
  current : Option Ticket
  /-- the requests put on the control ring, and those taken, in order -/
  pushed : List Ticket
  returned : List Ticket
  /-- for each call of `AsyncClient::cancel`, the request that was in flight -/
  strikes : List (Option Ticket)
  /-- a request was taken while an `AsyncClient::cancel` was still on its way -/
  overtaken : Bool
  refusals : List Refusal

namespace Shared

/-- `AsyncClient::connect`: the reader thread starts with nothing to do. -/
def start : Shared where
  ring := []
  cancelAny := false
  shuttingDown := false
  nextTicket := 0
  outstanding := 0
  slots _ := ⟨false, true, false, []⟩
  calls := []
  handles := []
  fates _ := .new
  current := none
  pushed := []
  returned := []
  strikes := []
  overtaken := false
  refusals := []

def onSlot (s : Shared) (t : Ticket) (f : Slot → Slot) : Shared :=
  { s with slots := Function.update s.slots t (f (s.slots t)) }

def onFate (s : Shared) (t : Ticket) (f : Fate → Fate) : Shared :=
  { s with fates := Function.update s.fates t (f (s.fates t)) }

/-! ## Callers -/

/-- `submit` returns `TooManyRequests`. -/
def refusal (s : Shared) (atPush : Bool) : Refusal :=
  ⟨atPush, s.outstanding, s.ring.countP Control.isRequest, s.ring.countP fun msg => !msg.isRequest⟩

/-- The message of a call is put on the ring. -/
def arrive (s : Shared) (call : Calling) : Shared :=
  let s := { s with ring := s.ring ++ [call.message], calls := s.calls.erase call }
  match call with
  | .submit request => { s with handles := request.ticket :: s.handles, pushed := s.pushed ++ [request.ticket] }
  | .cancel t => if (s.fates t).taken then s else s.onFate t fun f => { f with cancelQueued := true }
  | .cancelAny | .wakeup => s

/-- The ring was full. The submission is refused and its permit released; a cancel returns all the same. -/
def refuse (s : Shared) (call : Calling) : Option Shared :=
  let s' := { s with calls := s.calls.erase call }
  match call with
  | .submit _ => some { s' with outstanding := s.outstanding - 1, refusals := s.refusal true :: s.refusals }
  | .cancel t => some (if (s.fates t).taken then s' else s'.onFate t fun f => { f with cancelLost := true })
  | .cancelAny => some s'
  -- `push_block` waits for a slot
  | .wakeup => none

end Shared

/-- A step of a caller. -/
inductive Action where
  /-- `AsyncClient::submit`, up to its push -/
  | submit (method : Method) (path : Bytes) (query body : Option Bytes) (headers : List (Bytes × Bytes))
  /-- `StreamHandle::cancel`, up to its push -/
  | cancel (t : Ticket)
  /-- `AsyncClient::cancel`, up to its push -/
  | cancelAny
  /-- `AsyncClient::drop`, up to its push -/
  | shutdown
  /-- the push of a call in progress -/
  | push (call : Calling)
  /-- the handle takes a chunk from its ring -/
  | next (t : Ticket)
  /-- the handle is dropped -/
  | drop (t : Ticket)
deriving DecidableEq

/-- What a caller's step makes of the shared state, or `none` when it is not possible: a handle is used while it is
    held, the client until it is dropped, and dropping it excludes its other calls. -/
def Shared.perform (s : Shared) : Action → Option Shared
  | .submit method path query body headers =>
    if s.shuttingDown then none
    else
      match RequestParams.validateExtraHeaders headers with
      | .error _ => some s
      | .ok () =>
        if s.outstanding ≥ DEFAULT_MAX_OUTSTANDING then some { s with refusals := s.refusal false :: s.refusals }
        else
          some { s with
            nextTicket := s.nextTicket + 1
            outstanding := s.outstanding + 1
            calls := .submit ⟨method, path, query, body, headers, s.nextTicket⟩ :: s.calls }
  | .cancel t =>
    if t ∈ s.handles then
      some { s.onSlot t (fun slot => { slot with cancelled := true }) with calls := .cancel t :: s.calls }
    else none
  | .cancelAny =>
    if s.shuttingDown then none
    else some { s with cancelAny := true, calls := .cancelAny :: s.calls, strikes := s.current :: s.strikes }
  | .shutdown =>
    if s.shuttingDown ∨ s.calls.any Calling.ofClient then none
    else some { s with shuttingDown := true, calls := .wakeup :: s.calls }
  | .push call =>
    if call ∈ s.calls then if s.ring.length < CONTROL_RING_CAP then some (s.arrive call) else s.refuse call else none
  | .next t =>
    if t ∈ s.handles then some (s.onSlot t fun slot => { slot with chunks := slot.chunks.tail }) else none
  | .drop t =>
    if t ∈ s.handles then
      some { s.onSlot t (fun slot => { slot with consumerAlive := false }) with handles := s.handles.erase t }
    else none

/-! ## The reader -/

namespace Shared

/-- An `AsyncClient::cancel` has begun, and the reader has not taken its message from the ring. -/
def cancelPending (s : Shared) : Bool := s.cancelAny || .cancelAny ∈ s.ring || .cancelAny ∈ s.calls

/-- The reader saw a cancel flag before a delivery. -/
def seen (s : Shared) (t : Option Ticket) (b : Bool) : Shared :=
  match t with
  | some t => if b then s.onFate t fun f => { f with cutOff := true } else s
  | none => s

/-- A load answers what is stored. -/
def loaded (s : Shared) (stored answered : Bool) : Option Shared := if answered = stored then some s else none

/-- A push on a chunk ring succeeds unless the ring is full. -/
def delivers (s : Shared) (t : Ticket) (c : Chunk) (pushed : Bool) : Option Shared :=
  if pushed = decide ((s.slots t).chunks.length < CHUNK_RING_CAP) then
    if pushed then
      some ((s.onSlot t fun slot => { slot with chunks := slot.chunks ++ [c] }).onFate t
        fun f => { f with delivered := f.delivered ++ [c] })
    else some s
  else none

/-- Take the first message off the ring. -/
def popped (s : Shared) : Option Control → Option Shared
  | none => if s.ring = [] then some s else none
  | some msg => if s.ring.head? = some msg then some { s with ring := s.ring.tail } else none

/-- What an operation of the reader thread makes of the shared state, or `none` when it cannot answer so. The
    clock, the `Connector` and the streams answer as they like. -/
def answer (s : Shared) : (op : Op) → op.Ret → Option Shared
  | .loadShuttingDown, b => s.loaded s.shuttingDown b
  | .loadCancelAny, b => (s.seen s.current b).loaded s.cancelAny b
  | .storeCancelAny b, _ => some { s with cancelAny := b }
  | .loadCancelled t, b => (s.seen (some t) b).loaded (s.slots t).cancelled b
  | .loadConsumerAlive t, b => s.loaded (s.slots t).consumerAlive b
  | .storeStarted t, _ => some (s.onSlot t fun slot => { slot with started := true })
  | .pop, msg => s.popped msg
  -- every producer is gone when the client and the handles are
  | .popBlock, none => if s.shuttingDown ∧ s.handles = [] ∧ s.calls = [] then s.popped none else none
  | .popBlock, some msg => s.popped (some msg)
  | .push t c, pushed => s.delivers t c pushed
  | .dropRequest t, _ =>
    some { s.onFate t (fun f => { f with finished := true }) with
      outstanding := s.outstanding - 1
      current := if s.current = some t then none else s.current }
  | .mark (.taken t), _ =>
    some { s.onFate t (fun f => { f with taken := true }) with
      current := some t
      returned := s.returned ++ [t]
      overtaken := s.overtaken || s.cancelPending }
  | .read _, .error e =>
    match s.current with
    | some t => if Cancelled.marks e then some (s.onFate t fun f => { f with forged := true }) else some s
    | none => some s
  | _, _ => some s

end Shared

end Xibalba
