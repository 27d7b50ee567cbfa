import Xibalba.Lib.Prog
import Xibalba.Iouring.Complete
import Xibalba.Proto.Request
import Xibalba.Proto.Url
import Mathlib.Data.List.Sort

/-!
# `Iouring.Pool` — the pool's methods

`Pool` of `xibalba-iouring/src/driver.rs`, which the caller's thread owns. A method is a program: the system calls it
makes, the entries it pushes on the submission queue, what it does to the rings it shares with the complete thread and
each change of one of the pool's own fields are operations. The pool is part of the state these act on, so that a
statement can relate it to what is under way elsewhere; nobody but the caller's thread changes it.

`call`, `returned` and `accepted` are not operations of the source. They name a point of its control flow. The number a
`Stamped` value carries is not there in the source either; no method looks at it.
-/

namespace Xibalba.Iouring

/-- A value under way between the caller, the kernel and the complete thread, with the number of the socket it is about,
    or of the call it was made for if it is about a timer. -/
structure Stamped (α : Type) where
  val : α
  origin : Nat
deriving DecidableEq

structure CallerConn where
  fd : Nat
  recvArmed : Bool
  needsReconnect : Bool
  url : Bytes
deriving DecidableEq

structure Pool where
  conns : Nat → Option CallerConn
  /-- in ascending order -/
  freeIds : List Nat
  nextConnId : Nat
  pendingRearms : List (Stamped RearmMsg)
  nextRequestId : Nat
  stash : RequestId → Option ConnResult

/-- `Error::Connection(ConnectionError::Other(..))`. -/
def otherError (message : String) : Error := .connection (.other message)

namespace Pool

def new : Pool := ⟨fun _ => none, [], 0, [], 1, fun _ => none⟩

/-! ## Changes of the fields -/

/-- The smallest id that is free, or a new one; there are fewer than `u32::MAX`. -/
def allocConnId (p : Pool) : Except Error Nat × Pool :=
  match p.freeIds with
  | id :: rest => (.ok id, { p with freeIds := rest })
  | [] =>
    if p.nextConnId + 1 < 2 ^ 32 then (.ok p.nextConnId, { p with nextConnId := p.nextConnId + 1 })
    else (.error (otherError "conn_id space exhausted (>4B connections)"), p)

/-- `free_ids.insert(conn_id)`. -/
def freeConnId (p : Pool) (connId : Nat) : Pool :=
  { p with freeIds := if connId ∈ p.freeIds then p.freeIds else p.freeIds.orderedInsert (· ≤ ·) connId }

def setConn (p : Pool) (connId : Nat) (c : Option CallerConn) : Pool :=
  { p with conns := Function.update p.conns connId c }

@[simp] theorem setConn_self (p : Pool) (connId : Nat) (c : Option CallerConn) :
    (p.setConn connId c).conns connId = c := Function.update_self ..

theorem setConn_of_ne {connId connId' : Nat} (h : connId' ≠ connId) (p : Pool) (c : Option CallerConn) :
    (p.setConn connId c).conns connId' = p.conns connId' := Function.update_of_ne h ..

/-- `if let Some(c) = self.conns.get_mut(&conn_id) { .. }`. -/
def modifyConn (p : Pool) (connId : Nat) (f : CallerConn → CallerConn) : Pool :=
  match p.conns connId with
  | some c => p.setConn connId (some (f c))
  | none => p

/-- `wrapping_add(1)` on the counter of the requests. -/
def bumpRequestId (p : Pool) : Pool := { p with nextRequestId := (p.nextRequestId + 1) % 2 ^ 32 }

def insertStash (p : Pool) (r : ConnResult) : Pool := { p with stash := Function.update p.stash r.id (some r) }

def removeStash (p : Pool) (id : RequestId) : Pool := { p with stash := Function.update p.stash id none }

end Pool

/-! ## Operations -/

/-- A submission queue entry. The `user_data` of a recv is `UserData.recv fd connId`, and of the timers the reserved
    values. -/
inductive Sqe where
  | write (id fd : Nat) (buf : Bytes)
  | recvMultishot (fd connId : Nat)
  | timeout
  | timeoutRemove
deriving DecidableEq

/-- A call of one of the pool's methods. -/
inductive Call where
  | connect (url : Bytes)
  | disconnect (conn : ConnHandle)
  | request (conn : ConnHandle) (method : Method) (path : Bytes) (query : Option Bytes)
  | poll (id : RequestId)
  | recv (id : RequestId)
  | recvTimeout (id : RequestId)
deriving DecidableEq

/-- What the pool does outside of its own computations. -/
inductive PoolOp where
  /-- the pool's fields are read -/
  | self
  /-- `resolve` -/
  | resolve (host : Bytes) (port : Nat)
  /-- `blocking_connect_resolved` -/
  | blockingConnect (addr : Nat)
  /-- `libc_close` -/
  | close (fd : Nat)
  /-- `sub.raw().push` -/
  | push (sqe : Sqe)
  /-- the same, for the recv a message from the re-arm ring asks for -/
  | pushRearm (m : Stamped RearmMsg)
  /-- `sub.push(Prepared::write(..))`, for a request on a connection; the answer is the id of the pending send -/
  | pushSend (fd : Nat) (buf : Bytes) (connId : Nat) (requestId : RequestId)
  /-- `sub.submit` -/
  | submit
  /-- `ticket_tx.push_block`; `false` when the complete thread is gone -/
  | pushTicket (ticket : SendTicket)
  /-- `response_rx.pop` -/
  | popResponse
  /-- `response_rx.pop_block`; `none` when the complete thread is gone -/
  | popBlock
  /-- `rearm_rx.pop`, and `pending_rearms.push_back` of the message it returns -/
  | popRearm
  /-- `alloc_conn_id` -/
  | allocConnId
  /-- `conns.insert`, of a new connection -/
  | insertConn (connId fd : Nat) (url : Bytes)
  /-- `conns.remove` -/
  | removeConn (connId : Nat)
  /-- `free_ids.insert` -/
  | freeConnId (connId : Nat)
  /-- a connection is bound to a new socket -/
  | rebind (connId fd : Nat)
  /-- the socket of a connection is closed, and the connection marked; `origin` is that of the message that says so -/
  | unbind (connId origin : Nat)
  /-- `c.recv_armed = true` -/
  | arm (connId : Nat)
  /-- `pending_rearms.pop_front`, and `recv_armed = true` for the connection it names -/
  | rearmed
  /-- the next request id is taken -/
  | takeRequestId
  /-- `stash.insert` -/
  | stash (r : ConnResult)
  /-- `stash.remove` -/
  | unstash (id : RequestId)
  /-- a method is called -/
  | call (c : Call)
  /-- a method that waits for a result returns -/
  | returned (r : Except Error (Option ConnResult))
  /-- `request` returns an id -/
  | accepted (requestId : RequestId) (connId : Nat)
deriving DecidableEq

def PoolOp.Ret : PoolOp → Type
  | .self => Pool
  | .resolve _ _ => Except Error Nat
  | .blockingConnect _ => Option Nat
  | .push _ | .pushRearm _ | .submit => Except String Unit
  | .pushSend _ _ _ _ => Except String Nat
  | .pushTicket _ => Bool
  | .popResponse | .popBlock => Option (Stamped ConnResult)
  | .popRearm => Option (Stamped RearmMsg)
  | .unstash _ => Option ConnResult
  | .allocConnId => Except Error Nat
  | .removeConn _ => Option CallerConn
  | .takeRequestId => Nat
  | .close _ | .insertConn _ _ _ | .freeConnId _ | .rebind _ _ | .unbind _ _ | .arm _ | .rearmed | .stash _
  | .call _ | .returned _ | .accepted _ _ => Unit

abbrev PoolSys : Sig := ⟨PoolOp, PoolOp.Ret⟩

/-- Programs of the pool. Its state is the environment's. -/
abbrev P (ε α : Type) := Act PoolSys Unit ε α

/-- One operation. -/
def P.op {ε : Type} (op : PoolOp) : P ε op.Ret := Act.call (S := PoolSys) op

namespace Pool

/-! ## Connections -/

/-- Parse a URL, resolve its host and connect to it. A host that was parsed is ASCII, so it is valid UTF-8. -/
def dial (url : Bytes) (failure : String) : P Error Nat := do
  let parsed ← Act.ofExcept ((Url.parse url).mapError Error.urlParse)
  let resolved ← P.op (.resolve parsed.host parsed.effectivePort)
  let addr ← Act.ofExcept resolved
  match ← P.op (.blockingConnect addr) with
  | some fd => return fd
  | none => Act.throw (otherError failure)

def connect (url : Bytes) : P Error ConnHandle := do
  let fd ← dial url "TCP connect failed"
  let allocated ← P.op .allocConnId
  let connId ← Act.ofExcept allocated
  let () ← P.op (.insertConn connId fd url)
  return ⟨connId, fd⟩

def disconnect (conn : ConnHandle) : P Error Unit := do
  match ← P.op (.removeConn conn.connId) with
  | none => return ()
  | some c =>
    -- the fd is already closed when `needs_reconnect` is set
    if !c.needsReconnect then
      let () ← P.op (.close c.fd)
      P.op (.freeConnId conn.connId)
    else P.op (.freeConnId conn.connId)

def markConnectionForReconnect (conn : ConnHandle) (origin : Nat) : P Error Unit := do
  let p ← P.op .self
  match p.conns conn.connId with
  | none => return ()
  | some c => if !c.needsReconnect then P.op (.unbind conn.connId origin) else return ()

/-- `handle_error` and `handle_protocol_error` for the results that are errors; the others are passed on. -/
def handleResult (r : Stamped ConnResult) : P Error ConnResult := do
  match r.val with
  | .error _ conn _ =>
    markConnectionForReconnect conn r.origin
    return r.val
  | .protocolError _ conn _ =>
    markConnectionForReconnect conn r.origin
    return r.val
  | _ => return r.val

/-! ## Requests -/

/-- `while let Some(msg) = self.rearm_rx.pop()`. -/
def collectRearms : Nat → P Error Unit
  | 0 => Act.hang
  | turns + 1 => do
    match ← P.op .popRearm with
    | none => return ()
    | some _ => collectRearms turns

/-- `while let Some(msg) = self.pending_rearms.front()`. -/
def flushRearms : Nat → P Error Unit
  | 0 => Act.hang
  | turns + 1 => do
    let p ← P.op .self
    match p.pendingRearms with
    | [] => return ()
    | m :: _ =>
      match ← P.op (.pushRearm m) with
      | .error _ => return ()
      | .ok () =>
        let () ← P.op .rearmed
        flushRearms turns

/-- The entries pushed are submitted only if some message is left over. -/
def drainRearms (turns : Nat) : P Error Unit := do
  collectRearms turns
  flushRearms turns
  let p ← P.op .self
  if p.pendingRearms.isEmpty then return ()
  else
    let _ ← P.op .submit
    return ()

/-- Lazy reconnect: if the connection was marked, dial again. -/
def reconnect (connId : Nat) : P Error Unit := do
  let p ← P.op .self
  match p.conns connId with
  | none => return ()
  | some c =>
    if c.needsReconnect then
      let fd ← dial c.url "TCP reconnect failed"
      P.op (.rebind connId fd)
    else return ()

/-- The `Host` header: the port is left out when it is the scheme's default. -/
def hostValue (parsed : Url) : Bytes :=
  if parsed.effectivePort = parsed.scheme.defaultPort then parsed.host
  else parsed.host ++ ascii ":" ++ ascii (toString parsed.effectivePort)

def requestOf (parsed : Url) (method : Method) (path : Bytes) (query : Option Bytes) : Request where
  method := method
  path := path
  query := query
  version := .http11
  headers := [⟨.known .host, hostValue parsed⟩, ⟨.known .connection, ascii "keep-alive"⟩,
    ⟨.known .userAgent, ascii "xibalba/0.1"⟩]

/-- `serialize_to_buf` into a buffer of `serialized_len` bytes, which fits. Every failure is reported as a request that is
    too large. -/
def serialize (maxReq : Nat) (req : Request) : Except Error Bytes :=
  let tooLarge := otherError ("request exceeds MAX_REQ (" ++ toString maxReq ++
    " bytes); increase the MAX_REQ const generic")
  if req.wire.length > maxReq then .error tooLarge
  else
    match req.validate with
    | .ok () => .ok req.wire
    | .error _ => .error tooLarge

/-- Queue a send; its ticket is on the ring before the send can be submitted. -/
def pushSend (fd : Nat) (buf : Bytes) (connId : Nat) (requestId : RequestId) : P Error Unit := do
  match ← P.op (.pushSend fd buf connId requestId) with
  | .error e => Act.throw (otherError ("SQ full (send): " ++ e))
  | .ok id =>
    match ← P.op (.pushTicket ⟨id, buf, connId, requestId⟩) with
    | true => return ()
    | false => Act.throw (otherError "complete thread exited unexpectedly")

/-- `if !recv_armed { .. }`: queue the recv of a connection that has none. -/
def armRecv (connId : Nat) (c : CallerConn) : P Error Unit :=
  if !c.recvArmed then do
    match ← P.op (.push (.recvMultishot c.fd connId)) with
    | .error e => Act.throw (otherError ("SQ full (recv): " ++ e))
    | .ok () => P.op (.arm connId)
  else pure ()

/-- What `request` does once the connection is there. -/
def requestOn (maxReq connId : Nat) (c : CallerConn) (method : Method) (path : Bytes) (query : Option Bytes) :
    P Error RequestId := do
  let parsed ← Act.ofExcept ((Url.parse c.url).mapError Error.urlParse)
  let buf ← Act.ofExcept (serialize maxReq (requestOf parsed method path query))
  let requestId ← P.op .takeRequestId
  pushSend c.fd buf connId requestId
  armRecv connId c
  match ← P.op .submit with
  | .error e => Act.throw (otherError ("submit: " ++ e))
  | .ok () =>
    let () ← P.op (.accepted requestId connId)
    return requestId

def request (turns maxReq : Nat) (conn : ConnHandle) (method : Method) (path : Bytes) (query : Option Bytes) :
    P Error RequestId := do
  drainRearms turns
  reconnect conn.connId
  let p ← P.op .self
  match p.conns conn.connId with
  | none => Act.throw (otherError "unknown conn_id")
  | some c => requestOn maxReq conn.connId c method path query

/-! ## Results -/

/-- The loop of `poll`: what is on the ring goes into the stash. -/
def pollLoop : Nat → P Error Unit
  | 0 => Act.hang
  | turns + 1 => do
    match ← P.op .popResponse with
    | none => return ()
    | some r =>
      let r ← handleResult r
      let () ← P.op (.stash r)
      pollLoop turns

def poll (turns : Nat) (id : RequestId) : P Error (Option ConnResult) := do
  pollLoop turns
  P.op (.unstash id)

def recv : Nat → RequestId → P Error ConnResult
  | 0, _ => Act.hang
  | turns + 1, id => do
    match ← P.op (.unstash id) with
    | some r => return r
    | none =>
      match ← P.op .popBlock with
      | none => Act.throw (otherError "complete thread exited unexpectedly")
      | some r =>
        let r ← handleResult r
        if r.id = id then return r
        else
          let () ← P.op (.stash r)
          recv turns id

def cancelTimeout : P Error Unit := do
  let _ ← P.op (.push .timeoutRemove)
  let _ ← P.op .submit
  return ()

/-- The loop of `recv_timeout`; its arms for a response and for the two errors do the same. -/
def recvTimeoutLoop : Nat → RequestId → P Error (Option ConnResult)
  | 0, _ => Act.hang
  | turns + 1, id => do
    match ← P.op .popBlock with
    | none => Act.throw (otherError "complete thread exited unexpectedly")
    | some r =>
      if r.val = .timeout then return none
      else
        let r ← handleResult r
        if r.id = id then
          cancelTimeout
          return some r
        else
          let () ← P.op (.stash r)
          recvTimeoutLoop turns id

/-- How long the wait may be is not modelled: a timer that was submitted may expire at any time. -/
def recvTimeout (turns : Nat) (id : RequestId) : P Error (Option ConnResult) := do
  match ← P.op (.unstash id) with
  | some r => return some r
  | none =>
    match ← P.op (.push .timeout) with
    -- without a timer, do not block
    | .error _ => poll turns id
    | .ok () =>
      let _ ← P.op .submit
      recvTimeoutLoop turns id

/-! ## Sessions -/

/-- A call and its return. -/
def perform (turns maxReq : Nat) (c : Call) : P Empty Unit := do
  let () ← P.op (.call c)
  match c with
  | .connect url =>
    let _ ← Act.attempt (connect url)
    return ()
  | .disconnect conn =>
    let _ ← Act.attempt (disconnect conn)
    return ()
  | .request conn method path query =>
    let _ ← Act.attempt (request turns maxReq conn method path query)
    return ()
  | .poll id =>
    let r ← Act.attempt (poll turns id)
    P.op (.returned r)
  | .recv id =>
    let r ← Act.attempt (recv turns id)
    P.op (.returned (r.map some))
  | .recvTimeout id =>
    let r ← Act.attempt (recvTimeout turns id)
    P.op (.returned r)

/-- The calls a pool's owner makes, one after the other. -/
def session (turns maxReq : Nat) : List Call → P Empty Unit
  | [] => pure ()
  | c :: calls => do
    perform turns maxReq c
    session turns maxReq calls

end Pool

end Xibalba.Iouring
