import Xibalba.Iouring.Pool
import Xibalba.Iouring.Correctness.Events

/-!
# `Iouring.Driver` — the pool, the kernel and the complete thread

What the pool's operations answer and do, and what the kernel and the complete thread do on their own. The caller's
thread owns the `Caller`; the rest of a `Driver` changes also while a method of the pool is under way.

A socket has a number of its own, since the kernel gives the fd of a closed socket to a later one. An entry of the
submission queue names an fd, and which socket that is is looked up when the entry is submitted. A recv or a write that is
under way stays with its socket, whether the fd is closed or not.

Besides what the source has, the state records what statements refer to; nothing that happens depends on it.
-/

namespace Xibalba.Iouring

/-- Capacities of the response ring and the re-arm ring. -/
def RESPONSE_RING : Nat := 128
def REARM_RING : Nat := 32

def EBADF : Nat := 9
def ENOENT : Nat := 2
def ETIME : Nat := 62
def ECANCELED : Nat := 125

/-! ## The caller's side -/

/-- What the caller's thread owns: the pool, the submission queue and its fds. -/
structure Caller where
  pool : Pool
  /-- `RING` -/
  ring : Nat
  sq : List (Stamped Sqe)
  /-- the socket an open fd names -/
  sockets : Nat → Option Nat
  nextSocket : Nat
  /-- the ring's monotonic request id -/
  nextSend : Nat
  -- from here on, for statements only
  /-- the last socket each connection id was bound to -/
  last : Nat → Nat
  /-- the sends by their id, with the socket each was meant for -/
  sends : Nat → Option (Stamped SendTicket)
  /-- the requests `request` returned, with the connection and the socket -/
  requested : List (RequestId × Nat × Nat)
  /-- the number of calls so far, and whether the last one waits for results and has not returned -/
  calls : Nat
  reading : Bool
  /-- the last call has pushed a timer; its `Timeout` was not read yet; it has asked for it to be removed -/
  timed : Bool
  armed : Bool
  cancelled : Bool
  /-- the result the last call has taken from the ring or the stash -/
  hand : Option ConnResult
  /-- the result last taken from the ring, if no connection was bound to a socket since -/
  taken : Option (Stamped ConnResult)
  /-- the calls whose timer was submitted -/
  submitted : List Nat
  /-- the last call has found the re-arm ring empty; an entry it had to push for a message was refused -/
  looked : Bool
  refused : Bool
  /-- the number of the call that was the last `request` to return an id -/
  served : Nat

def Call.reads : Call → Bool
  | .poll _ | .recv _ | .recvTimeout _ => true
  | _ => false

namespace Caller

def start (ring : Nat) : Caller where
  pool := .new
  ring := ring
  sq := []
  sockets := fun _ => none
  nextSocket := 1
  nextSend := 0
  last := fun _ => 0
  sends := fun _ => none
  requested := []
  calls := 0
  reading := false
  timed := false
  armed := false
  cancelled := false
  hand := none
  taken := none
  submitted := []
  looked := false
  refused := false
  served := 0

def onPool (c : Caller) (f : Pool → Pool) : Caller := { c with pool := f c.pool }

/-- The socket an entry is meant for, or the call. -/
def stamp (c : Caller) : Sqe → Nat
  | .recvMultishot _ connId => c.last connId
  | _ => c.calls

def pushSqe (c : Caller) (sqe : Sqe) (origin : Nat) : Caller := { c with sq := c.sq ++ [⟨sqe, origin⟩] }

/-- An entry other than a send was pushed. -/
def pushed (c : Caller) (sqe : Sqe) : Caller :=
  let c := c.pushSqe sqe (c.stamp sqe)
  match sqe with
  | .timeout => { c with timed := true, armed := true }
  | .timeoutRemove => { c with cancelled := true }
  | _ => c

/-- A send was pushed. -/
def sendPushed (c : Caller) (fd : Nat) (buf : Bytes) (connId : Nat) (requestId : RequestId) : Caller :=
  { c.pushSqe (.write c.nextSend fd buf) (c.last connId) with
    nextSend := c.nextSend + 1
    sends := Function.update c.sends c.nextSend (some ⟨⟨c.nextSend, buf, connId, requestId⟩, c.last connId⟩) }

/-- The queue was submitted. -/
def submittedAll (c : Caller) : Caller :=
  { c with
    sq := []
    submitted := (c.sq.filter fun e => e.val = .timeout).map Stamped.origin ++ c.submitted }

/-- A socket was opened. -/
def opened (c : Caller) (fd : Nat) : Caller :=
  { c with sockets := Function.update c.sockets fd (some c.nextSocket), nextSocket := c.nextSocket + 1 }

def closed (c : Caller) (fd : Nat) : Caller := { c with sockets := Function.update c.sockets fd none }

/-- A connection is bound to the socket that `fd` names. -/
def bound (c : Caller) (connId fd : Nat) : Caller :=
  { c with last := Function.update c.last connId ((c.sockets fd).getD 0), taken := none }

@[simp] theorem opened_self (c : Caller) (fd : Nat) : (c.opened fd).sockets fd = some c.nextSocket :=
  Function.update_self ..

theorem opened_of_ne {fd fd' : Nat} (h : fd' ≠ fd) (c : Caller) : (c.opened fd).sockets fd' = c.sockets fd' :=
  Function.update_of_ne h ..

@[simp] theorem closed_self (c : Caller) (fd : Nat) : (c.closed fd).sockets fd = none := Function.update_self ..

theorem closed_of_ne {fd fd' : Nat} (h : fd' ≠ fd) (c : Caller) : (c.closed fd).sockets fd' = c.sockets fd' :=
  Function.update_of_ne h ..

@[simp] theorem bound_self (c : Caller) (connId fd : Nat) : (c.bound connId fd).last connId = (c.sockets fd).getD 0 :=
  Function.update_self ..

theorem bound_of_ne {connId connId' : Nat} (h : connId' ≠ connId) (c : Caller) (fd : Nat) :
    (c.bound connId fd).last connId' = c.last connId' := Function.update_of_ne h ..

/-- A method was called. -/
def called (c : Caller) (call : Call) : Caller :=
  { c with
    calls := c.calls + 1
    reading := call.reads
    timed := false
    armed := false
    cancelled := false
    hand := none
    looked := false
    refused := false }

/-- `request` has returned an id. -/
def returnedId (c : Caller) (requestId : RequestId) (connId : Nat) : Caller :=
  { c with requested := (requestId, connId, c.last connId) :: c.requested, served := c.calls }

/-- There was no message on the re-arm ring. -/
def foundEmpty (c : Caller) : Caller := { c with looked := true }

/-- The queue was full when an entry was pushed for a message. -/
def rearmRefused (c : Caller) : Caller := { c with refused := true }

/-- A result was taken from the ring. -/
def popped (c : Caller) (r : Stamped ConnResult) : Caller :=
  { c with hand := some r.val, taken := some r, armed := if r.val = .timeout then false else c.armed }

/-- A message was moved from the pending ones to the queue. -/
def rearmedOne (c : Caller) : Option Caller :=
  match c.pool.pendingRearms with
  | [] => none
  | m :: rest =>
    some (c.onPool fun p =>
      ({ p with pendingRearms := rest } : Pool).modifyConn m.val.connId fun cc => { cc with recvArmed := true })

/-- `libc_close(c.fd)`, and the connection waits for a reconnect. -/
def unbound (c : Caller) (connId : Nat) : Caller :=
  match c.pool.conns connId with
  | none => c
  | some cc =>
    (c.closed cc.fd).onPool fun p =>
      p.setConn connId (some { cc with fd := NO_FD, recvArmed := false, needsReconnect := true })

/-- What the pool's operations may answer, and what they make of what the caller's thread owns. -/
def Answers (c : Caller) : (op : PoolOp) → op.Ret → Caller → Prop
  | .self, r, c' => r = c.pool ∧ c' = c
  | .resolve _ _, _, c' => c' = c
  | .blockingConnect _, none, c' => c' = c
  | .blockingConnect _, some fd, c' => c.sockets fd = none ∧ fd < 2 ^ 31 - 1 ∧ c' = c.opened fd
  | .close fd, _, c' => c' = c.closed fd
  | .push _, .error _, c' => c.ring ≤ c.sq.length ∧ c' = c
  | .push sqe, .ok (), c' => c.sq.length < c.ring ∧ c' = c.pushed sqe
  | .pushRearm _, .error _, c' => c.ring ≤ c.sq.length ∧ c' = c.rearmRefused
  | .pushRearm m, .ok (), c' =>
    c.sq.length < c.ring ∧ c' = c.pushSqe (.recvMultishot m.val.fd m.val.connId) m.origin
  | .pushSend _ _ _ _, .error _, c' => c.ring ≤ c.sq.length ∧ c' = c
  | .pushSend fd buf connId requestId, .ok id, c' =>
    c.sq.length < c.ring ∧ id = c.nextSend ∧ id < 2 ^ 63 ∧ c' = c.sendPushed fd buf connId requestId
  | .submit, .error _, c' => c' = c
  | .submit, .ok (), c' => c' = c.submittedAll
  | .pushTicket _, _, c' => c' = c
  | .popResponse, none, c' => c' = c
  | .popResponse, some r, c' => c' = c.popped r
  | .popBlock, none, c' => c' = c
  | .popBlock, some r, c' => c' = c.popped r
  | .popRearm, none, c' => c' = c.foundEmpty
  | .popRearm, some m, c' => c' = c.onPool fun p => { p with pendingRearms := p.pendingRearms ++ [m] }
  | .allocConnId, r, c' => r = c.pool.allocConnId.1 ∧ c' = c.onPool fun p => p.allocConnId.2
  | .insertConn connId fd url, _, c' =>
    c' = (c.bound connId fd).onPool fun p => p.setConn connId (some ⟨fd, false, false, url⟩)
  | .removeConn connId, r, c' => r = c.pool.conns connId ∧ c' = c.onPool fun p => p.setConn connId none
  | .freeConnId connId, _, c' => c' = c.onPool fun p => p.freeConnId connId
  | .rebind connId fd, _, c' =>
    c' = (c.bound connId fd).onPool fun p =>
      p.modifyConn connId fun cc => { cc with fd := fd, recvArmed := false, needsReconnect := false }
  | .unbind connId _, _, c' => c' = c.unbound connId
  | .arm connId, _, c' => c' = c.onPool fun p => p.modifyConn connId fun cc => { cc with recvArmed := true }
  | .rearmed, _, c' => c.rearmedOne = some c'
  | .takeRequestId, r, c' => r = c.pool.nextRequestId ∧ c' = c.onPool Pool.bumpRequestId
  | .stash r, _, c' => c' = c.onPool fun p => p.insertStash r
  | .unstash id, r, c' =>
    r = c.pool.stash id ∧ c' = { c.onPool fun p => p.removeStash id with hand := if r.isSome then r else c.hand }
  | .call call, _, c' => c' = c.called call
  | .returned _, _, c' => c' = { c with reading := false }
  | .accepted requestId connId, _, c' => c' = c.returnedId requestId connId

end Caller

/-! ## The whole -/

/-- An operation the kernel has under way. -/
inductive KernelOp where
  | write (id : Nat) (buf : Bytes) (socket : Nat)
  | recv (fd connId socket : Nat)
  | timer (call : Nat)
deriving DecidableEq

structure Driver where
  caller : Caller
  ops : List KernelOp
  cq : List (Stamped Cqe)
  ticketRx : List SendTicket
  thread : CompleteThread
  /-- what the complete thread has yet to push of what the last entry made it push -/
  outbox : List (Stamped Msg)
  responses : List (Stamped ConnResult)
  rearms : List (Stamped RearmMsg)
  -- from here on, for statements only
  /-- by socket, the writes that did not fail, with the number of bytes accepted -/
  accepted : Nat → List (Bytes × Nat)
  /-- the sends whose requests were queued, with the result of the write -/
  queued : List (SendTicket × Int)
  /-- the sockets whose events are in the state of a connection in the complete thread -/
  touched : Nat → List Nat
  /-- the sockets on which a recv has failed, or has come to the end -/
  failed : List Nat
  /-- the calls whose timer has expired -/
  expired : List Nat
  /-- the entry the complete thread has reaped last -/
  working : Option (Stamped Cqe)
  /-- the entries it is done with, with the number of calls made by then -/
  finished : List (Stamped Cqe × Nat)

/-- Nothing is left of earlier events. -/
def ConnData.Blank (conn : ConnData) : Prop := conn.pendingIds = [] ∧ conn.parser = .new ∧ conn.recvBuf = []

instance (conn : ConnData) : Decidable conn.Blank := inferInstanceAs (Decidable (_ ∧ _ ∧ _))

namespace Driver

def start (ring : Nat) : Driver where
  caller := .start ring
  ops := []
  cq := []
  ticketRx := []
  thread := .new
  outbox := []
  responses := []
  rearms := []
  accepted := fun _ => []
  queued := []
  touched := fun _ => []
  failed := []
  expired := []
  working := none
  finished := []

/-- An entry is posted on the completion queue. -/
def post (s : Driver) (e : Cqe) (origin : Nat) : Driver := { s with cq := s.cq ++ [⟨e, origin⟩] }

/-! ### Submitting -/

/-- The first timer under way. -/
def firstTimer : List KernelOp → Option Nat
  | [] => none
  | .timer call :: _ => some call
  | _ :: ops => firstTimer ops

/-- The kernel takes an entry from the submission queue. -/
def submitOne (s : Driver) (e : Stamped Sqe) : Driver :=
  match e.val with
  | .write id fd buf =>
    match s.caller.sockets fd with
    | some socket => { s with ops := s.ops ++ [.write id buf socket] }
    | none => s.post ⟨id, -EBADF, none, false⟩ e.origin
  | .recvMultishot fd connId =>
    match s.caller.sockets fd with
    | some socket => { s with ops := s.ops ++ [.recv fd connId socket] }
    | none =>
      { s with failed := e.origin :: s.failed }.post ⟨UserData.recv fd connId, -EBADF, none, false⟩ e.origin
  | .timeout => { s with ops := s.ops ++ [.timer e.origin] }
  | .timeoutRemove =>
    match firstTimer s.ops with
    | some call =>
      ({ s with ops := s.ops.erase (.timer call) }.post ⟨TIMEOUT_UD, -ECANCELED, none, false⟩ call).post
        ⟨TIMEOUT_REMOVE_UD, 0, none, false⟩ e.origin
    | none => s.post ⟨TIMEOUT_REMOVE_UD, -ENOENT, none, false⟩ e.origin

/-! ### Operations of the pool -/

/-- What an operation of the pool does to what is shared; `none` when it cannot answer that. -/
def share (s : Driver) : (op : PoolOp) → op.Ret → Option Driver
  | .submit, .ok () => some (s.caller.sq.foldl submitOne s)
  | .pushTicket k, true =>
    if s.thread.running ∧ s.ticketRx.length < s.caller.ring then some { s with ticketRx := s.ticketRx ++ [k] } else none
  | .pushTicket _, false => if s.thread.running then none else some s
  | .popResponse, none => if s.responses = [] then some s else none
  | .popResponse, some r => if s.responses.head? = some r then some { s with responses := s.responses.tail } else none
  | .popBlock, none => if s.responses = [] ∧ !s.thread.running then some s else none
  | .popBlock, some r => if s.responses.head? = some r then some { s with responses := s.responses.tail } else none
  | .popRearm, none => if s.rearms = [] then some s else none
  | .popRearm, some m => if s.rearms.head? = some m then some { s with rearms := s.rearms.tail } else none
  | _, _ => some s

/-- An operation of the pool: what it answers, and what the driver is then. -/
def Answers (s : Driver) (op : PoolOp) (r : op.Ret) (s' : Driver) : Prop :=
  ∃ c s₁, s.caller.Answers op r c ∧ s.share op r = some s₁ ∧ s' = { s₁ with caller := c }

/-! ### The kernel and the complete thread -/

/-- What may happen on its own. The number is the place of an operation among those under way. -/
inductive Happening where
  /-- a write returns -/
  | written (i : Nat) (result : Int)
  /-- a recv brings some bytes; it is at its end if `more` is not set -/
  | received (i : Nat) (piece : Bytes) (more : Bool)
  /-- a recv fails -/
  | broken (i errno : Nat)
  /-- a recv finds the end of the stream -/
  | ended (i : Nat)
  /-- a timer expires -/
  | expired (i : Nat)
  /-- the complete thread reaps an entry -/
  | reap
  /-- the complete thread pushes a message -/
  | deliver
deriving DecidableEq

/-- What the entry `e`, now reaped, makes of `touched`. -/
def touchedBy (s : Driver) (t : CompleteThread) (e : Stamped Cqe) : Nat → List Nat :=
  match s.thread.event s.ticketRx e.val with
  | none => s.touched
  | some (connId, _) =>
    Function.update s.touched connId (if (t.entry connId).Blank then [] else e.origin :: s.touched connId)

/-- What it makes of `queued`. -/
def queuedBy (s : Driver) (e : Cqe) : List (SendTicket × Int) :=
  match s.thread.event s.ticketRx e, (s.ticketRx.foldl CompleteThread.insertTicket s.thread.tickets) e.userData with
  | some (_, .sent _), some ticket => [(ticket, e.result)]
  | _, _ => []

/-- What the complete thread is done with, if it has `outbox` still to push for the entry `e`. -/
def finishedBy (s : Driver) (e : Option (Stamped Cqe)) (outbox : List (Stamped Msg)) : List (Stamped Cqe × Nat) :=
  if outbox = [] then e.toList.map (·, s.caller.calls) ++ s.finished else s.finished

def reaped (s : Driver) (e : Stamped Cqe) (rest : List (Stamped Cqe)) : Driver :=
  let (t, ticketRx, msgs) := s.thread.reap s.ticketRx e.val
  { s with
    cq := rest
    thread := t
    ticketRx := ticketRx
    outbox := msgs.map fun m => ⟨m, e.origin⟩
    touched := s.touchedBy t e
    queued := s.queuedBy e.val ++ s.queued
    working := some e
    finished := s.finishedBy (some e) (msgs.map fun m => ⟨m, e.origin⟩) }

def accept (s : Driver) (socket : Nat) (buf : Bytes) (result : Int) : Nat → List (Bytes × Nat) :=
  if 0 ≤ result then Function.update s.accepted socket (s.accepted socket ++ [(buf, result.toNat)]) else s.accepted

/-- One step of the kernel or of the complete thread; `none` when it is not possible. -/
def perform (s : Driver) : Happening → Option Driver
  | .written i result =>
    match s.ops[i]? with
    | some (.write id buf socket) =>
      if result ≤ buf.length then
        some ({ s with ops := s.ops.eraseIdx i, accepted := s.accept socket buf result }.post
          ⟨id, result, none, false⟩ socket)
      else none
    | _ => none
  | .received i piece more =>
    match s.ops[i]? with
    | some (.recv fd connId socket) =>
      if piece = [] then none
      else
        some ({ s with ops := if more then s.ops else s.ops.eraseIdx i }.post
          ⟨UserData.recv fd connId, piece.length, some piece, more⟩ socket)
    | _ => none
  | .broken i errno =>
    match s.ops[i]? with
    | some (.recv fd connId socket) =>
      if errno = 0 then none
      else
        some ({ s with ops := s.ops.eraseIdx i, failed := socket :: s.failed }.post
          ⟨UserData.recv fd connId, -errno, none, false⟩ socket)
    | _ => none
  | .ended i =>
    match s.ops[i]? with
    | some (.recv fd connId socket) =>
      some ({ s with ops := s.ops.eraseIdx i, failed := socket :: s.failed }.post
        ⟨UserData.recv fd connId, 0, none, false⟩ socket)
    | _ => none
  | .expired i =>
    match s.ops[i]? with
    | some (.timer call) =>
      some ({ s with ops := s.ops.eraseIdx i, expired := call :: s.expired }.post
        ⟨TIMEOUT_UD, -ETIME, none, false⟩ call)
    | _ => none
  | .reap =>
    match s.cq with
    | e :: rest => if s.thread.running ∧ s.outbox = [] then some (s.reaped e rest) else none
    | [] => none
  | .deliver =>
    match s.outbox with
    | ⟨.result r, origin⟩ :: rest =>
      if s.responses.length < RESPONSE_RING then
        some { s with
          outbox := rest, responses := s.responses ++ [⟨r, origin⟩], finished := s.finishedBy s.working rest }
      else none
    | ⟨.rearm m, origin⟩ :: rest =>
      if s.rearms.length < REARM_RING then
        some { s with
          outbox := rest, rearms := s.rearms ++ [⟨m, origin⟩], finished := s.finishedBy s.working rest }
      else none
    | [] => none

end Driver

end Xibalba.Iouring
