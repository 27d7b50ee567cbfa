import Xibalba.Iouring.Complete
import Mathlib.Data.List.Basic

/-!
# `Iouring.Correctness.Events` — completions as events of a connection

A completion queue entry that concerns a connection is one of four things to it. `CompleteThread.event` says which, and
`reap_event` that the complete thread does what the connection does on that event, and touches no other connection.
-/

namespace Xibalba.Iouring

/-- What a completion is to the connection it is for. -/
inductive ConnEvent where
  | sent (requestId : RequestId)
  | data (fd : Nat) (bytes : Bytes)
  | failed (fd : Nat) (errno : Int)
  | eof (fd : Nat)
deriving DecidableEq

/-- The request an event adds to those that wait. -/
def ConnEvent.queued : ConnEvent → List RequestId
  | sent requestId => [requestId]
  | _ => []

/-- The connection `connId` on an event, and what is delivered. -/
def ConnData.on (conn : ConnData) (connId : Nat) : ConnEvent → ConnData × List ConnResult
  | .sent requestId => conn.onSent requestId
  | .data fd bytes => conn.onData fd bytes
  | .failed fd errno => (conn.popPendingId.1.clear, [.error conn.popPendingId.2 ⟨connId, fd⟩ errno])
  | .eof fd => ((finishUntilClose ⟨connId, fd⟩ conn).1, [(finishUntilClose ⟨connId, fd⟩ conn).2])

namespace CompleteThread

/-- The event a send's completion is: none when no ticket is found for it, or when the send has failed. -/
def sendEvent (t : CompleteThread) (ticketRx : List SendTicket) (e : Cqe) : Option (Nat × ConnEvent) :=
  match (ticketRx.foldl insertTicket t.tickets) e.userData with
  | none => none
  | some ticket => if e.result < 0 then none else some (ticket.connId, .sent ticket.requestId)

/-- The event a recv's completion is: none when it has a buffer that is too short, or bytes and no buffer. -/
def recvEvent (fd : Nat) (e : Cqe) : Option ConnEvent :=
  if e.result < 0 then some (.failed fd (-e.result))
  else
    match e.buffer with
    | none => if e.result.toNat = 0 then some (.eof fd) else none
    | some buf => if buf.length < e.result.toNat then none else some (.data fd (buf.take e.result.toNat))

/-- The connection an entry is for, and what it is to it. -/
def event (t : CompleteThread) (ticketRx : List SendTicket) (e : Cqe) : Option (Nat × ConnEvent) :=
  if e.userData = SHUTDOWN_UD ∨ e.userData = TIMEOUT_UD ∨ e.userData = TIMEOUT_REMOVE_UD then none
  else if UserData.isRecv e.userData then
    (recvEvent (UserData.fd e.userData) e).map fun ev => (UserData.connId e.userData, ev)
  else t.sendEvent ticketRx e

end CompleteThread

def Msg.result? : Msg → Option ConnResult
  | .result r => some r
  | .rearm _ => none

theorem filterMap_result (results : List ConnResult) (msgs : List Msg) (h : msgs.filterMap Msg.result? = []) :
    (results.map Msg.result ++ msgs).filterMap Msg.result? = results := by
  rw [List.filterMap_append, h, List.append_nil, List.filterMap_map]
  exact List.filterMap_some

theorem filterMap_rearm (more : Bool) (m : RearmMsg) :
    (if more then [] else [Msg.rearm m]).filterMap Msg.result? = [] := by
  cases more with
  | true => rfl
  | false => rfl

/-! ## The thread does what the connection does -/

/-- What a reaped entry did: the thread is as before but for the connection `connId`, which is now `conn`. -/
structure Touched (t t' : CompleteThread) (connId : Nat) (conn : ConnData) : Prop where
  entry : t'.entry connId = conn
  other : ∀ connId', connId' ≠ connId → t'.entry connId' = t.entry connId'
  running : t'.running = t.running

theorem touched_setConn {t t' : CompleteThread} (hconns : t'.conns = t.conns) (hrunning : t'.running = t.running)
    (connId : Nat) (conn : ConnData) : Touched t (t'.setConn connId conn) connId conn where
  entry := CompleteThread.entry_setConn t' connId conn
  other := by
    intro connId' h
    rw [CompleteThread.entry_setConn_of_ne h, CompleteThread.entry, hconns]
    rfl
  running := hrunning

namespace CompleteThread

theorem onRecv_event {t : CompleteThread} {connId fd : Nat} {e : Cqe} {ev : ConnEvent} (h : recvEvent fd e = some ev) :
    Touched t (t.onRecv connId fd e).1 connId ((t.entry connId).on connId ev).1 ∧
      (t.onRecv connId fd e).2.filterMap Msg.result? = ((t.entry connId).on connId ev).2 := by
  unfold recvEvent at h
  by_cases hneg : e.result < 0
  · rw [if_pos hneg] at h
    cases h
    unfold onRecv
    rw [if_pos hneg]
    exact ⟨touched_setConn rfl rfl _ _, rfl⟩
  · rw [if_neg hneg] at h
    cases hbuf : e.buffer with
    | none =>
        rw [hbuf] at h
        dsimp only at h
        split at h
        next hzero =>
          cases h
          unfold onRecv
          rw [if_neg hneg]
          dsimp only
          rw [if_pos ⟨hzero, hbuf⟩]
          exact ⟨touched_setConn rfl rfl _ _, rfl⟩
        next => cases h
    | some buf =>
        rw [hbuf] at h
        dsimp only at h
        split at h
        next => cases h
        next hlen =>
          cases h
          rw [onRecv_data (Int.not_lt.mp hneg) hbuf (Nat.not_lt.mp hlen)]
          exact ⟨touched_setConn rfl rfl _ _, filterMap_result _ _ (filterMap_rearm _ _)⟩

theorem onRecv_none {t : CompleteThread} {connId fd : Nat} {e : Cqe} (h : recvEvent fd e = none) :
    t.onRecv connId fd e = (t, []) := by
  unfold recvEvent at h
  unfold onRecv
  by_cases hneg : e.result < 0
  · rw [if_pos hneg] at h
    cases h
  · rw [if_neg hneg] at h
    rw [if_neg hneg]
    cases hbuf : e.buffer with
    | none =>
        rw [hbuf] at h
        dsimp only at h ⊢
        split at h
        next => cases h
        next hzero => rw [if_neg fun hand => hzero hand.1]
    | some buf =>
        rw [hbuf] at h
        dsimp only at h ⊢
        split at h
        next hlen =>
          rw [if_neg nofun]
          exact if_pos hlen
        next => cases h

/-- A send's completion that is no event only moves tickets. -/
theorem onSend_none {t : CompleteThread} {ticketRx : List SendTicket} {e : Cqe} (h : t.sendEvent ticketRx e = none) :
    (t.onSend ticketRx e).1.conns = t.conns ∧ (t.onSend ticketRx e).1.running = t.running ∧
      (t.onSend ticketRx e).2 = [] := by
  unfold sendEvent at h
  unfold onSend
  dsimp only
  cases hk : ticketRx.foldl insertTicket t.tickets e.userData with
  | none => exact ⟨rfl, rfl, rfl⟩
  | some ticket =>
      rw [hk] at h
      dsimp only at h
      split at h
      next hneg =>
        dsimp only
        unfold onSendComplete
        rw [if_pos hneg]
        exact ⟨rfl, rfl, rfl⟩
      next => cases h

theorem onSend_event {t : CompleteThread} {ticketRx : List SendTicket} {e : Cqe} {connId : Nat} {ev : ConnEvent}
    (h : t.sendEvent ticketRx e = some (connId, ev)) :
    Touched t (t.onSend ticketRx e).1 connId ((t.entry connId).on connId ev).1 ∧
      (t.onSend ticketRx e).2.filterMap Msg.result? = ((t.entry connId).on connId ev).2 := by
  unfold sendEvent at h
  unfold onSend
  dsimp only
  cases hk : ticketRx.foldl insertTicket t.tickets e.userData with
  | none =>
      rw [hk] at h
      cases h
  | some ticket =>
      rw [hk] at h
      dsimp only at h
      split at h
      next => cases h
      next hneg =>
        cases h
        dsimp only
        unfold onSendComplete
        rw [if_neg hneg]
        constructor
        · generalize hred : Function.update (ticketRx.foldl insertTicket t.tickets) e.userData none = redeemed
          exact touched_setConn (show ({ t with tickets := redeemed } : CompleteThread).conns = t.conns from rfl) rfl _ _
        · rw [← List.append_nil (List.map Msg.result _)]
          exact filterMap_result _ _ rfl

/-- **An event** of a connection: the thread does what the connection does, and touches no other one. -/
theorem reap_event {t : CompleteThread} {ticketRx : List SendTicket} {e : Cqe} {connId : Nat} {ev : ConnEvent}
    (h : t.event ticketRx e = some (connId, ev)) :
    Touched t (t.reap ticketRx e).1 connId ((t.entry connId).on connId ev).1 ∧
      (t.reap ticketRx e).2.2.filterMap Msg.result? = ((t.entry connId).on connId ev).2 := by
  unfold event at h
  split at h
  next => cases h
  next hud =>
    rw [not_or, not_or] at hud
    unfold reap
    rw [if_neg hud.1, if_neg hud.2.1, if_neg hud.2.2]
    split at h
    next hrecv =>
      rw [if_pos hrecv]
      obtain ⟨ev', hev', heq⟩ := Option.map_eq_some_iff.mp h
      cases heq
      exact onRecv_event hev'
    next hsend =>
      rw [if_neg hsend]
      exact onSend_event h

/-- **No event.** No connection is touched, and nothing is delivered but perhaps a timeout. -/
theorem reap_none {t : CompleteThread} {ticketRx : List SendTicket} {e : Cqe} (h : t.event ticketRx e = none) :
    (∀ connId, (t.reap ticketRx e).1.entry connId = t.entry connId) ∧
      ∀ r ∈ (t.reap ticketRx e).2.2.filterMap Msg.result?, r = .timeout := by
  unfold event at h
  unfold reap
  split at h
  next hud =>
    by_cases hshutdown : e.userData = SHUTDOWN_UD
    · rw [if_pos hshutdown]
      exact ⟨fun _ => rfl, List.forall_mem_nil _⟩
    · rw [if_neg hshutdown]
      by_cases htimeout : e.userData = TIMEOUT_UD
      · rw [if_pos htimeout]
        exact ⟨fun _ => rfl, fun r hr => List.mem_singleton.mp hr⟩
      · rw [if_neg htimeout, if_pos ((hud.resolve_left hshutdown).resolve_left htimeout)]
        exact ⟨fun _ => rfl, List.forall_mem_nil _⟩
  next hud =>
    rw [not_or, not_or] at hud
    rw [if_neg hud.1, if_neg hud.2.1, if_neg hud.2.2]
    split at h
    next hrecv =>
      rw [if_pos hrecv]
      have hnone : t.onRecv (UserData.connId e.userData) (UserData.fd e.userData) e = (t, []) :=
        onRecv_none (Option.map_eq_none_iff.mp h)
      dsimp only
      rw [hnone]
      exact ⟨fun _ => rfl, List.forall_mem_nil _⟩
    next hsend =>
      rw [if_neg hsend]
      obtain ⟨hconns, -, hmsgs⟩ := onSend_none h
      dsimp only
      rw [hmsgs]
      exact ⟨fun connId => by rw [entry, entry, hconns], List.forall_mem_nil _⟩

/-! ## Runs -/

/-- A run that does not end in its first part goes on from there. -/
theorem completeLoop_append {t t₁ : CompleteThread} {ticketRx ticketRx₁ : List SendTicket} {msgs : List Msg}
    {front : List (List SendTicket × Cqe)} (h : t.completeLoop ticketRx front = (t₁, ticketRx₁, msgs))
    (hrunning : t₁.running = true) (rest : List (List SendTicket × Cqe)) :
    t.completeLoop ticketRx (front ++ rest) =
      ((t₁.completeLoop ticketRx₁ rest).1, (t₁.completeLoop ticketRx₁ rest).2.1,
        msgs ++ (t₁.completeLoop ticketRx₁ rest).2.2) := by
  induction front generalizing t ticketRx msgs with
  | nil =>
      cases h
      rfl
  | cons entry front ih =>
      obtain ⟨arrived, e⟩ := entry
      rw [completeLoop] at h
      rw [List.cons_append, completeLoop]
      dsimp only at h ⊢
      split at h
      next hgo =>
        cases hloop : (t.reap (ticketRx ++ arrived) e).1.completeLoop (t.reap (ticketRx ++ arrived) e).2.1 front with
        | mk t₂ r =>
            obtain ⟨ticketRx₂, msgs₂⟩ := r
            rw [hloop] at h
            cases h
            rw [if_pos hgo, ih hloop]
            dsimp only
            rw [List.append_assoc]
      next hstop =>
        cases h
        exact absurd hrunning hstop

theorem completeLoop_concat {t t₁ : CompleteThread} {ticketRx ticketRx₁ : List SendTicket} {msgs : List Msg}
    {front : List (List SendTicket × Cqe)} (h : t.completeLoop ticketRx front = (t₁, ticketRx₁, msgs))
    (hrunning : t₁.running = true) (arrived : List SendTicket) (e : Cqe) :
    t.completeLoop ticketRx (front ++ [(arrived, e)]) =
      ((t₁.reap (ticketRx₁ ++ arrived) e).1, (t₁.reap (ticketRx₁ ++ arrived) e).2.1,
        msgs ++ (t₁.reap (ticketRx₁ ++ arrived) e).2.2) := by
  have hlast : t₁.completeLoop ticketRx₁ [(arrived, e)] = t₁.reap (ticketRx₁ ++ arrived) e := by
    rw [completeLoop]
    dsimp only
    split
    · show (_, _, _ ++ []) = _
      rw [List.append_nil]
      rfl
    · rfl
  rw [completeLoop_append h hrunning, hlast]

end CompleteThread

end Xibalba.Iouring
