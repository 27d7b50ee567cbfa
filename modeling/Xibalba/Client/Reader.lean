import Xibalba.Client.Client

/-!
# `Client.Reader` — the reader thread of the async client

`ControlQueue` and `ControlInterrupt` of `xibalba-client/src/control.rs`, `ChunkSink` of `delivery.rs` and
`ReaderWorker` of `reader.rs`. The rings and flags the thread shares with its callers are the environment's;
what the thread owns (the client, the requests displaced from the ring, the latch) is its local state.

The pause between two attempts to push a chunk has no other effect and is left out. A request is dropped at
the end of the source's scope that owns it; `dropRequest` stands there.
-/

namespace Xibalba

variable {ε : Type}

/-! ## Delivering chunks -/

/-- Why a chunk could not be handed to the caller. -/
inductive Undelivered where
  | consumerGone
  | shuttingDown
deriving DecidableEq, Repr

namespace ChunkSink

/-- Whether a cancel of this request, or of whatever is in flight, has been published. The second flag is
    only loaded when the first is clear. -/
def observesCancel (t : Ticket) : M ε Bool := do
  if ← M.loadCancelled t then return true
  else M.loadCancelAny

/-- Why this sink must stop waiting for ring capacity, or `none` while it may keep trying. -/
def blockedReason (t : Ticket) (observeCancel : Bool) : M ε (Option Undelivered) := do
  if ← M.loadShuttingDown then return some .shuttingDown
  else
    let cancelled ← if observeCancel then observesCancel t else pure false
    if cancelled then return some .consumerGone
    else if ← M.loadConsumerAlive t then return none
    else return some .consumerGone

/-- Deliver `chunk`, waiting for ring capacity while nothing says to stop. -/
def sendInner (t : Ticket) (chunk : Chunk) (observeCancel : Bool) : Nat → M ε (Except Undelivered Unit)
  | 0 => Act.hang
  | turns + 1 => do
    match ← blockedReason t observeCancel with
    | some reason => return .error reason
    | none =>
      if ← M.push t chunk then return .ok ()
      else sendInner t chunk observeCancel turns

def send (fuel : Nat) (t : Ticket) (chunk : Chunk) : M ε (Except Undelivered Unit) :=
  sendInner t chunk true fuel

/-- Deliver a terminal chunk, where failure is not actionable. -/
def sendTerminal (fuel : Nat) (t : Ticket) (chunk : Chunk) : M ε Unit := do
  let _ ← sendInner t chunk false fuel

end ChunkSink

/-! ## The control queue -/

namespace ControlQueue

def isShuttingDown : M ε Bool := M.loadShuttingDown

def modifyPending (f : List AsyncRequest → List AsyncRequest) : M ε Unit :=
  Act.modify fun l => { l with pending := f l.pending }

/-- Hand a request to the worker: cancels of what was in flight before no longer apply. -/
def take (request : AsyncRequest) : M ε (Option AsyncRequest) := do
  M.storeCancelAny false
  M.mark (.taken request.ticket)
  return some request

/-- The next request to serve, or `none` once the reader should stop. -/
def nextRequest : Nat → M ε (Option AsyncRequest)
  | 0 => Act.hang
  | turns + 1 => do
    if ← isShuttingDown then return none
    else
      match (← Act.get).pending with
      | request :: rest =>
        modifyPending fun _ => rest
        take request
      | [] =>
        match ← M.popBlock with
        | none => return none
        | some (.request request) => take request
        | some (.cancel _) | some .cancelAny => nextRequest turns

/-- Retire the request with this ticket if it is still waiting in `pending`. -/
def abortPending (fuel : Nat) (t : Ticket) : M ε Unit := do
  match (← Act.get).pending.find? (·.ticket = t) with
  | none => return ()
  | some request =>
    modifyPending fun pending => pending.eraseP (·.ticket = t)
    ChunkSink.sendTerminal fuel request.ticket .aborted
    M.dropRequest request.ticket

/-- Drain the ring without blocking, reporting whether a cancel addressed to `current` was seen; `cancelled`
    is what earlier turns saw. -/
def pollCancel (fuel : Nat) (current : Option Ticket) : Nat → Bool → M ε Bool
  | 0, _ => Act.hang
  | turns + 1, cancelled => do
    if ← isShuttingDown then return true
    else
      match ← M.pop with
      | some .cancelAny =>
        M.storeCancelAny true
        pollCancel fuel current turns (cancelled || current.isSome)
      | some (.cancel t) =>
        if current = some t then pollCancel fuel current turns true
        else
          abortPending fuel t
          pollCancel fuel current turns cancelled
      | some (.request request) =>
        modifyPending (· ++ [request])
        pollCancel fuel current turns cancelled
      | none => return cancelled

end ControlQueue

/-- `ControlInterrupt`: answers "should this request stop?" from the control channel. -/
def ControlInterrupt (fuel : Nat) (t : Ticket) : Interrupt :=
  (ControlQueue.pollCancel fuel (some t) fuel false : M Empty Bool)

/-! ## The worker -/

namespace ReaderWorker

open ChunkSink (send sendTerminal)

/-- The parts of a response that are known once its head has been read. -/
structure ResponseStart where
  headData : HeadData
  framing : BodyFraming
  tailOffset : Nat

/-- `Latch::new`. -/
def resetLatch : M ε Unit := Act.modify fun l => { l with fired := false }

/-- The latched interrupt of one request. -/
def interruptOf (fuel : Nat) (t : Ticket) : Interrupt := .latch (ControlInterrupt fuel t)

def paramsOf (request : AsyncRequest) : RequestParams :=
  ⟨request.method, request.path, request.query, request.body, request.headers,
    request.method.isReplayEligible⟩

/-- The part of `dispatch` from the publication of `started` on. -/
def dispatchClean (fuel : Nat) (request : AsyncRequest) (deadline : RequestDeadline) :
    M ε (Option ResponseStart) := do
  M.storeStarted request.ticket
  resetLatch
  match ← Act.attempt
      (Client.sendHeadInterruptible fuel (paramsOf request) deadline (interruptOf fuel request.ticket)) with
  | .ok (headData, framing, tailOffset) => return some ⟨headData, framing, tailOffset⟩
  | .error e =>
    -- the latch, not the returned error, is what classifies a cancel
    if (← Act.get).fired then sendTerminal fuel request.ticket .aborted
    else sendTerminal fuel request.ticket (.error e)
    return none

/-- Get the request onto the wire and its head back, or deliver the terminator explaining why that did not
    happen. -/
def dispatch (fuel : Nat) (request : AsyncRequest) (deadline : RequestDeadline) :
    M ε (Option ResponseStart) := do
  if ← ControlQueue.pollCancel fuel (some request.ticket) fuel false then
    sendTerminal fuel request.ticket .aborted
    return none
  else
    match ← Act.attempt Client.ensureClean with
    | .error e =>
      sendTerminal fuel request.ticket (.error e)
      return none
    | .ok () => dispatchClean fuel request deadline

/-- Drain a non-2xx body as a single chunk for the caller to inspect. -/
def drainErrorBody (fuel : Nat) (t : Ticket) (framing : BodyFraming) (tail : Bytes)
    (deadline : RequestDeadline) (reuse : ConnectionReuse) : M ε Unit := do
  let config := (← M.client).config
  let budget ← SilenceBudget.withDeadline config.streamSilence deadline
  let stream := Stream.interruptible (interruptOf fuel t)
  match ← Act.attempt (BodyCollector.read stream config.maxResponseBody fuel budget framing tail) with
  | .ok (bytes, reusable) =>
    M.modifyClient fun c => { c with dirty := !reusable || !reuse.isKeep }
    if bytes.isEmpty then sendTerminal fuel t .eof
    else
      match ← send fuel t (.body bytes) with
      | .error _ => return ()
      | .ok () => sendTerminal fuel t .eof
  | .error e =>
    if (← Act.get).fired then sendTerminal fuel t .aborted else sendTerminal fuel t (.error e)

/-- The loop of `stream_success`; the body as it is left is returned for its flag. -/
def streamChunks (fuel : Nat) (t : Ticket) : Nat → StreamingBody → M ε StreamingBody
  | 0, _ => Act.hang
  | turns + 1, body => do
    match ← body.read (.interruptible (interruptOf fuel t)) fuel HEAD_BUF_SIZE with
    | (.ok bytes, body) =>
      if bytes.isEmpty then
        sendTerminal fuel t .eof
        return body
      else
        match ← send fuel t (.body bytes) with
        | .error _ => return body
        | .ok () => streamChunks fuel t turns body
    | (.error e, body) =>
      if Cancelled.marks e then sendTerminal fuel t .aborted
      else sendTerminal fuel t (.error (.ofStdIo e))
      return body

/-- Stream a 2xx body chunk by chunk. -/
def streamSuccess (fuel : Nat) (t : Ticket) (framing : BodyFraming) (tail : Bytes)
    (reuse : ConnectionReuse) : M ε Unit := do
  let c ← M.client
  let body ← StreamingBody.new c.dirty framing tail c.config.streamSilence reuse.isKeep
  let body ← streamChunks fuel t fuel body
  M.modifyClient fun c => { c with dirty := body.dirty }

def streamBody (fuel : Nat) (request : AsyncRequest) (start : ResponseStart) (deadline : RequestDeadline) :
    M ε Unit := do
  let status := start.headData.status
  let reuse := start.headData.connectionReuse (request.headers.any closesConnection)
  M.modifyClient fun c => { c with dirty := true }
  match ← send fuel request.ticket (.head status.code start.headData.headers) with
  | .error _ => return ()
  | .ok () =>
    resetLatch
    let tail := (← M.client).headBuf.drop start.tailOffset
    if status.isSuccess then streamSuccess fuel request.ticket start.framing tail reuse
    else drainErrorBody fuel request.ticket start.framing tail deadline reuse

def serve (fuel : Nat) (request : AsyncRequest) : M ε Unit := do
  let deadline ← RequestDeadline.after (← M.client).config.requestDeadline
  match ← dispatch fuel request deadline with
  | some start => streamBody fuel request start deadline
  | none => return ()

/-- Serve requests until the control ring closes or shutdown is signalled. -/
def run (fuel : Nat) : Nat → M ε Unit
  | 0 => Act.hang
  | turns + 1 => do
    match ← ControlQueue.nextRequest fuel with
    | none => return ()
    | some request =>
      serve fuel request
      M.dropRequest request.ticket
      run fuel turns

end ReaderWorker

end Xibalba
