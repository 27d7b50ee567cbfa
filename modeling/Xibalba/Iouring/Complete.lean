import Xibalba.Iouring.Parser
import Mathlib.Logic.Function.Basic

/-!
# `Iouring.Complete` — the complete thread

`complete_loop` of `xibalba-iouring/src/driver.rs` and what it calls. The thread reaps completion queue entries one at a
time. It keeps the state of every connection under its `conn_id`, and the tickets of the sends that have not completed
under the `user_data` their completion carries. What it pushes to the caller on its two rings is a list of `Msg`, in the
order in which it is pushed.

A `user_data` is a `Nat` below `2 ^ 64`; the fields of a recv's stand in disjoint bits, so they are added here.
-/

namespace Xibalba.Iouring

def SHUTDOWN_UD : Nat := 2 ^ 64 - 1
def TIMEOUT_UD : Nat := 2 ^ 64 - 2
def TIMEOUT_REMOVE_UD : Nat := 2 ^ 64 - 3

/-- `usize::MAX`, which stands for no socket. -/
def NO_FD : Nat := 2 ^ 64 - 1

structure ConnHandle where
  connId : Nat
  fd : Nat
deriving DecidableEq, Repr

/-- What is delivered to the caller for a request. -/
inductive ConnResult where
  | response (r : Response)
  | error (requestId : RequestId) (conn : ConnHandle) (errno : Int)
  | protocolError (requestId : RequestId) (conn : ConnHandle) (error : Error)
  | timeout
deriving DecidableEq

/-- `result_id`. -/
def ConnResult.id : ConnResult → RequestId
  | response r => r.requestId
  | error requestId _ _ => requestId
  | protocolError requestId _ _ => requestId
  | timeout => 0

/-! ## `user_data` -/

namespace UserData

def RECV_UD_FLAG : Nat := 2 ^ 63

def recv (fd connId : Nat) : Nat := RECV_UD_FLAG + fd % 2 ^ 31 * 2 ^ 32 + connId % 2 ^ 32

def isRecv (ud : Nat) : Bool := ud / RECV_UD_FLAG % 2 = 1

def fd (ud : Nat) : Nat := ud / 2 ^ 32 % 2 ^ 31

def connId (ud : Nat) : Nat := ud % 2 ^ 32

@[simp] theorem isRecv_recv (fd connId : Nat) : isRecv (recv fd connId) = true := by
  apply decide_eq_true
  simp only [recv, RECV_UD_FLAG]
  omega

@[simp] theorem fd_recv {fd : Nat} (h : fd < 2 ^ 31) (connId : Nat) : UserData.fd (recv fd connId) = fd := by
  simp only [UserData.fd, recv, RECV_UD_FLAG]
  omega

@[simp] theorem connId_recv (fd : Nat) {connId : Nat} (h : connId < 2 ^ 32) :
    UserData.connId (recv fd connId) = connId := by
  simp only [UserData.connId, recv, RECV_UD_FLAG]
  omega

/-- A recv is told from the reserved values, and a send's `user_data` has the top bit clear. -/
theorem recv_lt {fd : Nat} (h : fd < 2 ^ 31 - 1) (connId : Nat) : recv fd connId < TIMEOUT_REMOVE_UD := by
  simp only [recv, RECV_UD_FLAG, TIMEOUT_REMOVE_UD]
  omega

theorem isRecv_of_lt {ud : Nat} (h : ud < 2 ^ 63) : isRecv ud = false := by
  apply decide_eq_false
  simp only [RECV_UD_FLAG]
  omega

end UserData

/-! ## Messages between the threads -/

/-- A submitted send and whose request it carries. `id` is the `user_data` of its completion. -/
structure SendTicket where
  id : Nat
  buf : Bytes
  connId : Nat
  requestId : RequestId
deriving DecidableEq

/-- The multishot recv was ended by the kernel; please re-arm. -/
structure RearmMsg where
  connId : Nat
  fd : Nat
deriving DecidableEq, Repr

/-- What the complete thread pushes: a result on the response ring, or a message on the re-arm ring. -/
inductive Msg where
  | result (r : ConnResult)
  | rearm (m : RearmMsg)
deriving DecidableEq

/-! ## Connections -/

structure ConnData where
  connId : Nat
  fd : Nat
  pendingIds : List RequestId
  parser : ResponseParser
  recvBuf : Bytes
deriving DecidableEq

namespace ConnData

def new (connId : Nat) : ConnData := ⟨connId, NO_FD, [], .new, []⟩

def pushRecvData (conn : ConnData) (data : Bytes) : ConnData := { conn with recvBuf := conn.recvBuf ++ data }

/-- `conn.parser.clear()` and `conn.recv_buf.clear()`, which the failure paths do together. -/
def clear (conn : ConnData) : ConnData := { conn with parser := conn.parser.clear, recvBuf := [] }

/-- `pop_pending_id().unwrap_or(0)`. -/
def popPendingId (conn : ConnData) : ConnData × RequestId :=
  ({ conn with pendingIds := conn.pendingIds.tail }, conn.pendingIds.headD 0)

end ConnData

/-- The loop of `drain_recv_buf`: `data` is fed on the first turn, and nothing on the later ones, which go on with the
    bytes the parser has kept. -/
def drainLoop (conn : ConnData) : List RequestId → Bytes → ConnData × List ConnResult
  | [], _ => ({ conn with pendingIds := [] }, [])
  | requestId :: ids, data =>
    match conn.parser.feed data requestId with
    | (parser, .ok (some resp)) =>
      let (conn, results) := drainLoop { conn with parser := parser } ids []
      (conn, .response resp :: results)
    | (parser, .ok none) => ({ conn with parser := parser, pendingIds := requestId :: ids }, [])
    | (parser, .error e) =>
      ({ conn with parser := parser, pendingIds := ids }.clear,
        [.protocolError requestId ⟨conn.connId, conn.fd⟩ e])

/-- Feed `data` to the parser and deliver what it completes, as long as requests are waiting. -/
def drainRecvBuf (conn : ConnData) (data : Bytes) : ConnData × List ConnResult := drainLoop conn conn.pendingIds data

/-- The socket is at its end. A response whose body goes on until then is complete; anything else is an error. -/
def finishUntilClose (handle : ConnHandle) (conn : ConnData) : ConnData × ConnResult :=
  let (popped, requestId) := conn.popPendingId
  match conn.parser.partialResponse with
  | some p =>
    if p.framing = .untilClose then (popped.clear, .response (p.response requestId))
    else (popped.clear, .error requestId handle 0)
  | none => (popped.clear, .error requestId handle 0)

/-- A request was sent on the connection: it waits for a response, and bytes that came before this are parsed. -/
def ConnData.onSent (conn : ConnData) (requestId : RequestId) : ConnData × List ConnResult :=
  let conn := { conn with pendingIds := conn.pendingIds ++ [requestId] }
  if conn.recvBuf.isEmpty then (conn, []) else drainRecvBuf { conn with recvBuf := [] } conn.recvBuf

/-- Bytes were received on the connection: they are kept until a request is waiting, or parsed. -/
def ConnData.onData (conn : ConnData) (fd : Nat) (data : Bytes) : ConnData × List ConnResult :=
  let conn := { conn with fd := fd }
  if conn.pendingIds.isEmpty then (conn.pushRecvData data, []) else drainRecvBuf conn data

/-! ## The loop -/

/-- A completion queue entry. `buffer` is the provided buffer that was picked, if there is one, and `more` the flag that
    says that the operation goes on. -/
structure Cqe where
  userData : Nat
  result : Int
  buffer : Option Bytes
  more : Bool
deriving DecidableEq

structure CompleteThread where
  conns : Nat → Option ConnData
  tickets : Nat → Option SendTicket
  running : Bool

namespace CompleteThread

def new : CompleteThread := ⟨fun _ => none, fun _ => none, true⟩

/-- `conns.entry(conn_id).or_insert_with(..)`. -/
def entry (t : CompleteThread) (connId : Nat) : ConnData := (t.conns connId).getD (.new connId)

def setConn (t : CompleteThread) (connId : Nat) (conn : ConnData) : CompleteThread :=
  { t with conns := Function.update t.conns connId (some conn) }

@[simp] theorem entry_setConn (t : CompleteThread) (connId : Nat) (conn : ConnData) :
    (t.setConn connId conn).entry connId = conn := by
  simp [entry, setConn]

theorem entry_setConn_of_ne {connId connId' : Nat} (h : connId' ≠ connId) (t : CompleteThread) (conn : ConnData) :
    (t.setConn connId conn).entry connId' = t.entry connId' := by
  simp [entry, setConn, h]

/-- A send finished. An error is ignored: the recv path will surface it. -/
def onSendComplete (t : CompleteThread) (ticket : SendTicket) (result : Int) : CompleteThread × List ConnResult :=
  if result < 0 then (t, [])
  else
    let (conn, results) := (t.entry ticket.connId).onSent ticket.requestId
    (t.setConn ticket.connId conn, results)

/-- `tickets.insert(t.pending.id().raw(), t)`. -/
def insertTicket (tickets : Nat → Option SendTicket) (k : SendTicket) : Nat → Option SendTicket :=
  Function.update tickets k.id (some k)

/-- A completion that is not a recv's: take over the new tickets, and redeem the one it is for. -/
def onSend (t : CompleteThread) (ticketRx : List SendTicket) (e : Cqe) : CompleteThread × List Msg :=
  let t := { t with tickets := ticketRx.foldl insertTicket t.tickets }
  match t.tickets e.userData with
  | none => (t, [])
  | some ticket =>
    let (t, results) :=
      { t with tickets := Function.update t.tickets e.userData none }.onSendComplete ticket e.result
    (t, results.map .result)

/-- The completion of a recv on the connection `connId`. -/
def onRecv (t : CompleteThread) (connId fd : Nat) (e : Cqe) : CompleteThread × List Msg :=
  if e.result < 0 then
    let (conn, requestId) := (t.entry connId).popPendingId
    (t.setConn connId conn.clear, [.result (.error requestId ⟨connId, fd⟩ (-e.result))])
  else
    let n := e.result.toNat
    if n = 0 ∧ e.buffer = none then
      let (conn, result) := finishUntilClose ⟨connId, fd⟩ (t.entry connId)
      (t.setConn connId conn, [.result result])
    else
      match e.buffer with
      | none => (t, [])
      | some buf =>
        -- `pbuf.buffer(bid, n)`
        if buf.length < n then (t, [])
        else
          let (conn, results) := (t.entry connId).onData fd (buf.take n)
          (t.setConn connId conn, results.map .result ++ if e.more then [] else [.rearm ⟨connId, fd⟩])

theorem onRecv_data {e : Cqe} {buf : Bytes} (hresult : 0 ≤ e.result) (hbuf : e.buffer = some buf)
    (hle : e.result.toNat ≤ buf.length) (t : CompleteThread) (connId fd : Nat) :
    t.onRecv connId fd e =
      (t.setConn connId ((t.entry connId).onData fd (buf.take e.result.toNat)).1,
        ((t.entry connId).onData fd (buf.take e.result.toNat)).2.map .result ++
          if e.more then [] else [Msg.rearm ⟨connId, fd⟩]) := by
  have hneg : ¬e.result < 0 := Int.not_lt.mpr hresult
  have heof : ¬(e.result.toNat = 0 ∧ e.buffer = none) := by
    rw [hbuf]
    exact fun h => nomatch h.2
  unfold onRecv
  rw [if_neg hneg]
  dsimp only
  rw [if_neg heof, hbuf]
  dsimp only
  rw [if_neg (Nat.not_lt.mpr hle)]

/-- One turn of the inner loop: an entry is reaped while the tickets `ticketRx` wait on their ring. The tickets left on
    the ring, and the messages pushed. -/
def reap (t : CompleteThread) (ticketRx : List SendTicket) (e : Cqe) : CompleteThread × List SendTicket × List Msg :=
  if e.userData = SHUTDOWN_UD then ({ t with running := false }, ticketRx, [])
  else if e.userData = TIMEOUT_UD then (t, ticketRx, [.result .timeout])
  else if e.userData = TIMEOUT_REMOVE_UD then (t, ticketRx, [])
  else if UserData.isRecv e.userData then
    let (t, msgs) := t.onRecv (UserData.connId e.userData) (UserData.fd e.userData) e
    (t, ticketRx, msgs)
  else
    let (t, msgs) := t.onSend ticketRx e
    (t, [], msgs)

/-- A send's completion. -/
theorem reap_send {e : Cqe} (h : e.userData < 2 ^ 63) (t : CompleteThread) (ticketRx : List SendTicket) :
    t.reap ticketRx e = ((t.onSend ticketRx e).1, [], (t.onSend ticketRx e).2) := by
  have hrecv := UserData.isRecv_of_lt h
  have hne : e.userData ≠ SHUTDOWN_UD ∧ e.userData ≠ TIMEOUT_UD ∧ e.userData ≠ TIMEOUT_REMOVE_UD := by
    simp only [SHUTDOWN_UD, TIMEOUT_UD, TIMEOUT_REMOVE_UD]
    omega
  unfold reap
  rw [if_neg hne.1, if_neg hne.2.1, if_neg hne.2.2, hrecv]
  rfl

/-- A recv's completion. -/
theorem reap_recv {e : Cqe} {connId fd : Nat} (h : e.userData = UserData.recv fd connId) (hconn : connId < 2 ^ 32)
    (hfd : fd < 2 ^ 31 - 1) (t : CompleteThread) (ticketRx : List SendTicket) :
    t.reap ticketRx e = ((t.onRecv connId fd e).1, ticketRx, (t.onRecv connId fd e).2) := by
  have hlt := UserData.recv_lt hfd connId
  have hne : e.userData ≠ SHUTDOWN_UD ∧ e.userData ≠ TIMEOUT_UD ∧ e.userData ≠ TIMEOUT_REMOVE_UD := by
    rw [h]
    simp only [SHUTDOWN_UD, TIMEOUT_UD, TIMEOUT_REMOVE_UD] at hlt ⊢
    omega
  unfold reap
  rw [if_neg hne.1, if_neg hne.2.1, if_neg hne.2.2, h, if_pos (UserData.isRecv_recv fd connId),
    UserData.connId_recv fd hconn, UserData.fd_recv (by omega)]

/-- The loop, on the entries that are reaped, each with the tickets that have come since the entry before it. -/
def completeLoop (t : CompleteThread) (ticketRx : List SendTicket) :
    List (List SendTicket × Cqe) → CompleteThread × List SendTicket × List Msg
  | [] => (t, ticketRx, [])
  | (arrived, e) :: rest =>
    let (t, ticketRx, msgs) := t.reap (ticketRx ++ arrived) e
    if t.running then
      let (t, ticketRx, msgs') := t.completeLoop ticketRx rest
      (t, ticketRx, msgs ++ msgs')
    else (t, ticketRx, msgs)

end CompleteThread

end Xibalba.Iouring
