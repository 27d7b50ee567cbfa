import Xibalba.Iouring.Correctness.Pairing

/-!
# `Iouring.Correctness.Failure` — the requests of a connection that fails

A connection fails when a recv returns an error, at the end of the stream, and when the parser rejects the bytes. Each of
these takes the first waiting request from the queue, reports it, and clears the parser and the bytes. The other requests
that wait stay in the queue.

Layout:
* `ConnData.on_cases`, what an event does to the queue of a connection;
* `sentIn`, the requests whose sends complete, read off the tickets and the completions;
* `Ledger`, along a run: a request whose send has completed waits, or has had a result;
* `failure_complete_iff`.
-/

namespace Xibalba.Iouring

/-! ## The ids of the results -/

namespace ResponseParser

theorem parseHeadAndMaybeFinish_id {p : ResponseParser} {requestId : RequestId} {resp : Response} {n : Nat}
    (h : (p.parseHeadAndMaybeFinish requestId).2 = .ok (some (resp, n))) : resp.requestId = requestId := by
  unfold parseHeadAndMaybeFinish at h
  split at h
  next =>
    split at h
    next => cases h
    next => cases h
  next headEnd _ =>
    dsimp only at h
    split at h
    next => cases h
    next q consumed _ =>
      generalize (p.headAccum.drop (headEnd + 4)).drop (consumed - (headEnd + 4)) = afterHead at h
      generalize (if (!afterHead.isEmpty) = true ∧ (!q.bodyDone) = true then q.pump afterHead
        else (q, Except.ok 0)) = r at h
      obtain ⟨q', pumped⟩ := r
      cases pumped with
      | error e => cases h
      | ok bodyConsumed =>
          dsimp only at h
          split at h
          next =>
            cases h
            rfl
          next => cases h

/-- A response is for the request it was fed for. -/
theorem feed_id {p p' : ResponseParser} {data : Bytes} {requestId : RequestId} {resp : Response}
    (h : p.feed data requestId = (p', .ok (some resp))) : resp.requestId = requestId := by
  have h := congrArg Prod.snd h
  unfold feed at h
  split at h
  next q _ =>
    generalize (if data.isEmpty = true then (q, Except.ok 0) else q.pump data) = r at h
    obtain ⟨q', pumped⟩ := r
    cases pumped with
    | error e => cases h
    | ok consumed =>
        dsimp only at h
        split at h
        next =>
          cases h
          rfl
        next => cases h
  next =>
    dsimp only at h
    generalize hr : parseHeadAndMaybeFinish { p with headAccum := p.headAccum ++ data } requestId = r at h
    obtain ⟨p₁, res⟩ := r
    cases res with
    | error e => cases h
    | ok out =>
        cases out with
        | none => cases h
        | some out =>
            cases h
            exact parseHeadAndMaybeFinish_id (congrArg Prod.snd hr)

end ResponseParser

def ConnResult.isProtocolError : ConnResult → Bool
  | .protocolError .. => true
  | _ => false

/-- What the parser finds in the bytes for the requests that wait: the number of responses it completes, and whether it
    rejects what is behind them. -/
def ResponseParser.finds : ResponseParser → List RequestId → Bytes → Nat × Bool
  | _, [], _ => (0, false)
  | p, requestId :: ids, data =>
    match p.feed data requestId with
    | (p, .ok (some _)) => ((p.finds ids []).1 + 1, (p.finds ids []).2)
    | (_, .ok none) => (0, false)
    | (_, .error _) => (0, true)

/-- What a drain makes of the waiting requests `ids`: the first ones have results, and the others wait. Of these the first
    has the last result, if the bytes were rejected. -/
inductive DrainedIds (ids : List RequestId) : Nat × Bool → ConnData × List ConnResult → Prop
  | answered {n conn results} (front : results.map ConnResult.id = ids.take n) (left : conn.pendingIds = ids.drop n) :
      DrainedIds ids (n, false) (conn, results)
  | rejected {n conn front} {last : ConnResult} (front' : front.map ConnResult.id = ids.take n)
      (left : last.id :: conn.pendingIds = ids.drop n) (error : last.isProtocolError) :
      DrainedIds ids (n, true) (conn, front ++ [last])

theorem drainLoop_ids (conn : ConnData) (ids : List RequestId) (data : Bytes) :
    DrainedIds ids (conn.parser.finds ids data) (drainLoop conn ids data) := by
  induction ids generalizing conn data with
  | nil => exact .answered rfl rfl
  | cons requestId ids ih =>
      unfold drainLoop ResponseParser.finds
      generalize hfeed : conn.parser.feed data requestId = fed
      obtain ⟨parser, out⟩ := fed
      cases out with
      | error e => exact @DrainedIds.rejected _ 0 _ [] _ rfl rfl rfl
      | ok out =>
          cases out with
          | none => exact .answered rfl rfl
          | some resp =>
              have hid := ResponseParser.feed_id hfeed
              dsimp only
              have ih : DrainedIds ids (parser.finds ids []) (drainLoop { conn with parser := parser } ids []) :=
                ih { conn with parser := parser } []
              generalize drainLoop { conn with parser := parser } ids [] = r at ih
              generalize parser.finds ids [] = found at ih
              cases ih with
              | answered hfront hleft =>
                  refine .answered ?_ hleft
                  rw [List.map_cons, hfront]
                  exact congrArg (· :: _) hid
              | @rejected n conn' front last hfront hleft herror =>
                  show DrainedIds _ _ (conn', (ConnResult.response resp :: front) ++ [last])
                  refine .rejected ?_ hleft herror
                  rw [List.map_cons, hfront]
                  exact congrArg (· :: _) hid

/-! ## What an event does to the queue -/

namespace ConnData

/-- The requests that wait on the connection, with the one an event adds. -/
def waiting (conn : ConnData) (e : ConnEvent) : List RequestId := conn.pendingIds ++ e.queued

/-- What the parser finds on an event when the requests `ids` wait: in the bytes that have come, or that were kept. -/
def finds (conn : ConnData) (ids : List RequestId) : ConnEvent → Nat × Bool
  | .sent _ => if conn.recvBuf.isEmpty then (0, false) else conn.parser.finds ids conn.recvBuf
  | .data _ bytes => conn.parser.finds ids bytes
  | .failed .. => (0, false)
  | .eof .. => (0, false)

/-- Those of the requests `ids` whose response an event leaves incomplete. -/
def unfinished (conn : ConnData) (ids : List RequestId) (e : ConnEvent) : List RequestId := ids.drop (conn.finds ids e).1

/-- The connection fails: on an error of the recv, at the end of the stream, and when the parser rejects the bytes. -/
def Fails (conn : ConnData) (ids : List RequestId) : ConnEvent → Prop
  | .failed .. => True
  | .eof .. => True
  | e => (conn.finds ids e).2 = true

/-- The results a request may get when its connection fails. -/
def Reports (conn : ConnData) : ConnResult → Prop
  | .error .. => True
  | .protocolError .. => True
  | .response r => ∃ p, conn.parser.partialResponse = some p ∧ p.framing = .untilClose ∧ r = p.response r.requestId
  | .timeout => False

/-- What becomes of the waiting requests when the connection does not fail: the first ones are answered. -/
def Answers (conn : ConnData) (e : ConnEvent) (r : ConnData × List ConnResult) : Prop :=
  r.2.map ConnResult.id ++ r.1.pendingIds = conn.waiting e

/-- And when it fails: the first of the unfinished ones gets the last result, and the others go on waiting. -/
structure Breaks (conn : ConnData) (e : ConnEvent) (r : ConnData × List ConnResult) (front : List ConnResult)
    (last : ConnResult) : Prop where
  results : r.2 = front ++ [last]
  frontIds : front.map ConnResult.id ++ conn.unfinished (conn.waiting e) e = conn.waiting e
  lastId : last.id = (conn.unfinished (conn.waiting e) e).headD 0
  reports : conn.Reports last
  pending : r.1.pendingIds = (conn.unfinished (conn.waiting e) e).tail

end ConnData

/-- A drain on an event fails the connection exactly when it rejects the bytes. -/
theorem DrainedIds.on {conn : ConnData} {e : ConnEvent} {r : ConnData × List ConnResult}
    (h : DrainedIds (conn.waiting e) (conn.finds (conn.waiting e) e) r)
    (hfails : conn.Fails (conn.waiting e) e ↔ (conn.finds (conn.waiting e) e).2 = true) :
    (¬conn.Fails (conn.waiting e) e ∧ conn.Answers e r) ∨
      (conn.Fails (conn.waiting e) e ∧ ∃ front last, conn.Breaks e r front last) := by
  rw [hfails]
  generalize hfound : conn.finds (conn.waiting e) e = found at h
  cases h with
  | @answered n conn' results hfront hleft =>
      refine .inl ⟨Bool.false_ne_true, ?_⟩
      rw [ConnData.Answers, hfront, hleft, List.take_append_drop]
  | @rejected n conn' front last hfront hleft herror =>
      have hunfinished : conn.unfinished (conn.waiting e) e = last.id :: conn'.pendingIds := by
        rw [ConnData.unfinished, hfound, hleft]
      refine .inr ⟨rfl, front, last, rfl, ?_, ?_, ?_, ?_⟩
      · rw [hunfinished, hleft, hfront, List.take_append_drop]
      · rw [hunfinished]
        rfl
      · cases last with
        | protocolError _ _ _ => trivial
        | response _ => cases herror
        | error _ _ _ => cases herror
        | timeout => cases herror
      · rw [hunfinished]
        rfl

/-- **What an event does to the queue** of a connection. -/
theorem ConnData.on_cases (conn : ConnData) (connId : Nat) (e : ConnEvent) :
    (¬conn.Fails (conn.waiting e) e ∧ conn.Answers e (conn.on connId e)) ∨
      (conn.Fails (conn.waiting e) e ∧ ∃ front last, conn.Breaks e (conn.on connId e) front last) := by
  cases e with
  | sent requestId =>
      refine DrainedIds.on ?_ Iff.rfl
      show DrainedIds (conn.pendingIds ++ [requestId])
        (if conn.recvBuf.isEmpty then (0, false) else conn.parser.finds (conn.pendingIds ++ [requestId]) conn.recvBuf)
        (conn.onSent requestId)
      unfold onSent
      dsimp only
      split
      · exact .answered rfl rfl
      · exact drainLoop_ids { conn with pendingIds := conn.pendingIds ++ [requestId], recvBuf := [] } _ _
  | data fd bytes =>
      refine DrainedIds.on ?_ Iff.rfl
      show DrainedIds (conn.pendingIds ++ []) (conn.parser.finds (conn.pendingIds ++ []) bytes) (conn.onData fd bytes)
      rw [List.append_nil]
      unfold onData
      dsimp only
      split
      next hnone =>
        have hnone : conn.pendingIds = [] := List.isEmpty_iff.mp hnone
        rw [hnone]
        exact .answered rfl rfl
      · exact drainLoop_ids { conn with fd := fd } _ _
  | failed fd errno =>
      have hunfinished : conn.unfinished (conn.waiting (.failed fd errno)) (.failed fd errno) = conn.pendingIds :=
        List.append_nil _
      refine .inr ⟨trivial, [], _, rfl, rfl, ?_, trivial, ?_⟩
      · rw [hunfinished]
        rfl
      · rw [hunfinished]
        rfl
  | eof fd =>
      have hunfinished : conn.unfinished (conn.waiting (.eof fd)) (.eof fd) = conn.pendingIds := List.append_nil _
      -- the result at the end of the stream is for the first id that waits, and the others are left
      have hid : (finishUntilClose ⟨connId, fd⟩ conn).2.id = conn.pendingIds.headD 0 := by
        unfold finishUntilClose
        dsimp only
        split
        · split
          · rfl
          · rfl
        · rfl
      have hpending : (finishUntilClose ⟨connId, fd⟩ conn).1.pendingIds = conn.pendingIds.tail := by
        unfold finishUntilClose
        dsimp only
        split
        · split
          · rfl
          · rfl
        · rfl
      have hreports : conn.Reports (finishUntilClose ⟨connId, fd⟩ conn).2 := by
        unfold finishUntilClose
        dsimp only
        split
        next p hp =>
          split
          next hframing => exact ⟨p, hp, hframing, rfl⟩
          next => trivial
        next => trivial
      refine .inr ⟨trivial, [], _, rfl, rfl, ?_, hreports, ?_⟩
      · rw [hunfinished]
        exact hid
      · rw [hunfinished]
        exact hpending

/-- An event answers some requests at the front of the queue: each of them, and no other request, has a result. -/
theorem ConnData.on_moves (conn : ConnData) (connId : Nat) (e : ConnEvent) :
    ∃ ids, ids ++ (conn.on connId e).1.pendingIds = conn.waiting e ∧
      (∀ r ∈ (conn.on connId e).2, r.id ≠ 0 → r.id ∈ ids) ∧ ∀ x ∈ ids, ∃ r ∈ (conn.on connId e).2, r.id = x := by
  rcases conn.on_cases connId e with ⟨-, hanswers⟩ | ⟨-, front, last, hbreaks⟩
  · exact ⟨_, hanswers, fun r hr _ => List.mem_map_of_mem hr, fun x hx => List.mem_map.mp hx⟩
  · have hids := hbreaks.frontIds
    have hlast := hbreaks.lastId
    rw [hbreaks.results, hbreaks.pending]
    have hfront : ∀ x ∈ front.map ConnResult.id, ∃ r ∈ front ++ [last], r.id = x := by
      intro x hx
      obtain ⟨r, hr, hid⟩ := List.mem_map.mp hx
      exact ⟨r, List.mem_append_left _ hr, hid⟩
    cases hunfinished : conn.unfinished (conn.waiting e) e with
    | nil =>
        rw [hunfinished] at hids hlast
        refine ⟨_, hids, fun r hr hne => ?_, hfront⟩
        rcases List.mem_append.mp hr with hr | hr
        · exact List.mem_map_of_mem hr
        · rw [List.mem_singleton.mp hr] at hne
          exact absurd hlast hne
    | cons x rest =>
        rw [hunfinished] at hids hlast
        have hlast : last.id = x := hlast
        refine ⟨front.map ConnResult.id ++ [x], ?_, fun r hr _ => ?_, fun y hy => ?_⟩
        · rw [List.append_assoc]
          exact hids
        · rcases List.mem_append.mp hr with hr | hr
          · exact List.mem_append_left _ (List.mem_map_of_mem hr)
          · rw [List.mem_singleton.mp hr, hlast]
            exact List.mem_append_right _ List.mem_cons_self
        · rcases List.mem_append.mp hy with hy | hy
          · exact hfront y hy
          · rw [List.mem_singleton.mp hy]
            exact ⟨last, List.mem_append_right _ List.mem_cons_self, hlast⟩

/-! ## Completed sends

The tickets that come on the ring and the completions say which sends have completed. -/

/-- The connection an entry is for, and what it is to it, with these tickets in flight. -/
def Cqe.event (tickets : Nat → Option SendTicket) (e : Cqe) : Option (Nat × ConnEvent) :=
  if e.userData = SHUTDOWN_UD ∨ e.userData = TIMEOUT_UD ∨ e.userData = TIMEOUT_REMOVE_UD then none
  else if UserData.isRecv e.userData then
    (CompleteThread.recvEvent (UserData.fd e.userData) e).map fun ev => (UserData.connId e.userData, ev)
  else
    match tickets e.userData with
    | none => none
    | some ticket => if e.result < 0 then none else some (ticket.connId, .sent ticket.requestId)

/-- The tickets in flight after an entry. -/
def Cqe.redeem (tickets : Nat → Option SendTicket) (e : Cqe) : Nat → Option SendTicket :=
  if e.userData = SHUTDOWN_UD ∨ e.userData = TIMEOUT_UD ∨ e.userData = TIMEOUT_REMOVE_UD ∨ UserData.isRecv e.userData then
    tickets
  else Function.update tickets e.userData none

/-- The tickets in flight after these entries. -/
def ticketsAfter (tickets : Nat → Option SendTicket) : List (List SendTicket × Cqe) → Nat → Option SendTicket
  | [] => tickets
  | (arrived, e) :: rest => ticketsAfter (e.redeem (arrived.foldl CompleteThread.insertTicket tickets)) rest

/-- The connection an entry says a send has completed on, and the request. -/
def Cqe.sent (tickets : Nat → Option SendTicket) (e : Cqe) : List (Nat × RequestId) :=
  match e.event tickets with
  | some (connId, ev) => ev.queued.map (connId, ·)
  | none => []

/-- The requests whose sends complete, and their connections, in order. -/
def sentIn (tickets : Nat → Option SendTicket) : List (List SendTicket × Cqe) → List (Nat × RequestId)
  | [] => []
  | (arrived, e) :: rest =>
    let tickets := arrived.foldl CompleteThread.insertTicket tickets
    e.sent tickets ++ if e.userData = SHUTDOWN_UD then [] else sentIn (e.redeem tickets) rest

/-- The requests sent on the connection, those in `log`, that have none of the `results`. -/
def outstanding (log : List (Nat × RequestId)) (results : List ConnResult) (connId : Nat) : List RequestId :=
  ((log.filter (·.1 = connId)).map Prod.snd).filter fun x => ∀ r ∈ results, r.id ≠ x

theorem sentIn_append {front : List (List SendTicket × Cqe)} (hfront : ∀ entry ∈ front, entry.2.userData ≠ SHUTDOWN_UD)
    (tickets : Nat → Option SendTicket) (rest : List (List SendTicket × Cqe)) :
    sentIn tickets (front ++ rest) = sentIn tickets front ++ sentIn (ticketsAfter tickets front) rest := by
  induction front generalizing tickets with
  | nil => rfl
  | cons entry front ih =>
      obtain ⟨arrived, e⟩ := entry
      obtain ⟨hne, hfront⟩ := List.forall_mem_cons.mp hfront
      rw [List.cons_append, sentIn, sentIn, if_neg hne, if_neg hne, ih hfront, List.append_assoc]
      rfl

namespace CompleteThread

theorem event_known (t : CompleteThread) (ticketRx : List SendTicket) (e : Cqe) :
    t.event ticketRx e = e.event (t.known ticketRx) := rfl

/-- The thread knows the tickets in flight. -/
theorem known_reap (t : CompleteThread) (ticketRx : List SendTicket) (e : Cqe) :
    (t.reap ticketRx e).1.known (t.reap ticketRx e).2.1 = e.redeem (t.known ticketRx) ∧
      (e.userData ≠ SHUTDOWN_UD → (t.reap ticketRx e).1.running = t.running) := by
  unfold Cqe.redeem reap
  by_cases hshutdown : e.userData = SHUTDOWN_UD
  · rw [if_pos hshutdown, if_pos (.inl hshutdown)]
    exact ⟨rfl, fun hne => absurd hshutdown hne⟩
  rw [if_neg hshutdown]
  by_cases htimeout : e.userData = TIMEOUT_UD
  · rw [if_pos htimeout, if_pos (.inr (.inl htimeout))]
    exact ⟨rfl, fun _ => rfl⟩
  rw [if_neg htimeout]
  by_cases hremove : e.userData = TIMEOUT_REMOVE_UD
  · rw [if_pos hremove, if_pos (.inr (.inr (.inl hremove)))]
    exact ⟨rfl, fun _ => rfl⟩
  rw [if_neg hremove]
  by_cases hrecv : UserData.isRecv e.userData
  · rw [if_pos hrecv, if_pos (.inr (.inr (.inr hrecv)))]
    have hsame : (t.onRecv (UserData.connId e.userData) (UserData.fd e.userData) e).1.tickets = t.tickets ∧
        (t.onRecv (UserData.connId e.userData) (UserData.fd e.userData) e).1.running = t.running := by
      unfold onRecv
      dsimp only
      split
      · exact ⟨rfl, rfl⟩
      · split
        · exact ⟨rfl, rfl⟩
        · split
          · exact ⟨rfl, rfl⟩
          · split
            · exact ⟨rfl, rfl⟩
            · exact ⟨rfl, rfl⟩
    refine ⟨?_, fun _ => hsame.2⟩
    show ticketRx.foldl insertTicket (onRecv ..).1.tickets = _
    rw [hsame.1]
    rfl
  · rw [if_neg hrecv, if_neg (by simp [hshutdown, htimeout, hremove, hrecv])]
    show (t.onSend ticketRx e).1.tickets = _ ∧ (_ → (t.onSend ticketRx e).1.running = _)
    unfold onSend
    dsimp only
    cases hticket : ticketRx.foldl insertTicket t.tickets e.userData with
    | none =>
        have hself := Function.update_eq_self e.userData (ticketRx.foldl insertTicket t.tickets)
        rw [hticket] at hself
        exact ⟨hself.symm, fun _ => rfl⟩
    | some ticket =>
        dsimp only
        unfold onSendComplete
        split
        · exact ⟨rfl, fun _ => rfl⟩
        · exact ⟨rfl, fun _ => rfl⟩

/-! ## The ids along a run -/

/-- The request whose send an entry completes. -/
def queuedBy (t : CompleteThread) (ticketRx : List SendTicket) (e : Cqe) : List RequestId :=
  match t.event ticketRx e with
  | some (_, ev) => ev.queued
  | none => []

theorem queuedBy_eq (t : CompleteThread) (ticketRx : List SendTicket) (e : Cqe) :
    t.queuedBy ticketRx e = (e.sent (t.known ticketRx)).map Prod.snd := by
  unfold queuedBy Cqe.sent
  rw [event_known]
  cases e.event (t.known ticketRx) with
  | none => rfl
  | some found =>
      dsimp only
      rw [List.map_map]
      exact (List.map_id _).symm

/-- The results of a run. -/
def results (t : CompleteThread) (ticketRx : List SendTicket) (entries : List (List SendTicket × Cqe)) :
    List ConnResult :=
  (t.completeLoop ticketRx entries).2.2.filterMap Msg.result?

/-- What is known of the requests when those in `log` were sent and `results` were delivered: on each connection those
    that have no result are waiting, in order, and every result is for one that was sent. -/
structure Ledger (t : CompleteThread) (log : List (Nat × RequestId)) (results : List ConnResult) : Prop where
  waits : ∀ connId, (t.entry connId).pendingIds = outstanding log results connId
  told : ∀ r ∈ results, r.id ≠ 0 → r.id ∈ log.map Prod.snd

theorem ledger_new : Ledger .new [] [] where
  waits := fun _ => rfl
  told := List.forall_mem_nil _

section

variable {t : CompleteThread} {log : List (Nat × RequestId)} {results : List ConnResult} (h : Ledger t log results)

include h

/-- A waiting request was sent on its connection, and has had no result. -/
theorem Ledger.of_mem {connId : Nat} {x : RequestId} (hx : x ∈ (t.entry connId).pendingIds) :
    (connId, x) ∈ log ∧ ∀ r ∈ results, r.id ≠ x := by
  rw [h.waits] at hx
  obtain ⟨hx, hnone⟩ := List.mem_filter.mp hx
  obtain ⟨⟨c, y⟩, hmem, rfl⟩ := List.mem_map.mp hx
  obtain ⟨hlog, hc⟩ := List.mem_filter.mp hmem
  have hc : c = connId := of_decide_eq_true hc
  exact ⟨hc ▸ hlog, of_decide_eq_true hnone⟩

/-- What waits on a connection, with what an event adds, has had no result. -/
theorem Ledger.waiting {connId : Nat} {ev : ConnEvent} (hlog : ((log ++ ev.queued.map (connId, ·)).map Prod.snd).Nodup)
    (hzero : 0 ∉ (log ++ ev.queued.map (connId, ·)).map Prod.snd) :
    (t.entry connId).waiting ev = outstanding (log ++ ev.queued.map (connId, ·)) results connId ∧
      ((t.entry connId).waiting ev).Nodup := by
  rw [List.map_append] at hlog hzero
  obtain ⟨hnodup, hqueued, hdisjoint⟩ := List.nodup_append'.mp hlog
  have hnew : (ev.queued.map (connId, ·)).map Prod.snd = ev.queued := by
    rw [List.map_map]
    exact List.map_id _
  have heq : (t.entry connId).waiting ev = outstanding (log ++ ev.queued.map (connId, ·)) results connId := by
    have hall : (ev.queued.map (connId, ·)).filter (·.1 = connId) = ev.queued.map (connId, ·) := by
      refine List.filter_eq_self.mpr fun p hp => ?_
      obtain ⟨x, -, rfl⟩ := List.mem_map.mp hp
      exact decide_eq_true rfl
    have hfresh : ev.queued.filter (fun x => ∀ r ∈ results, r.id ≠ x) = ev.queued := by
      refine List.filter_eq_self.mpr fun x hx => decide_eq_true ?_
      rintro r hr rfl
      rw [hnew] at hdisjoint hzero
      have hne : r.id ≠ 0 := fun h0 => hzero (List.mem_append_right _ (h0 ▸ hx))
      exact hdisjoint (h.told r hr hne) hx
    rw [ConnData.waiting, h.waits, outstanding, outstanding, List.filter_append, hall, List.map_append, hnew,
      List.filter_append, hfresh]
  refine ⟨heq, ?_⟩
  rw [heq]
  refine List.Nodup.filter _ (List.Nodup.sublist (List.Sublist.map _ List.filter_sublist) ?_)
  rw [List.map_append]
  exact hlog

/-- The ledger after an event. -/
theorem Ledger.event {t' : CompleteThread} {connId : Nat} {ev : ConnEvent}
    (hlog : ((log ++ ev.queued.map (connId, ·)).map Prod.snd).Nodup)
    (hzero : 0 ∉ (log ++ ev.queued.map (connId, ·)).map Prod.snd)
    (ht' : Touched t t' connId ((t.entry connId).on connId ev).1) :
    Ledger t' (log ++ ev.queued.map (connId, ·)) (results ++ ((t.entry connId).on connId ev).2) := by
  obtain ⟨ids, hids, hresults, hanswered⟩ := (t.entry connId).on_moves connId ev
  rw [← ht'.entry] at hids
  obtain ⟨hwaiting, hnodup⟩ := h.waiting hlog hzero
  -- what is on the log with this connection
  have hsent : ∀ x ∈ ids, (connId, x) ∈ log ++ ev.queued.map (connId, ·) := by
    intro x hx
    have hx : x ∈ (t.entry connId).waiting ev := hids ▸ List.mem_append_left _ hx
    rcases List.mem_append.mp hx with hx | hx
    · exact List.mem_append_left _ (h.of_mem hx).1
    · exact List.mem_append_right _ (List.mem_map_of_mem hx)
  have hnotZero : ∀ x ∈ ids, x ≠ 0 := by
    rintro x hx rfl
    exact hzero (List.mem_map_of_mem (hsent 0 hx))
  have hmore : ∀ c, outstanding (log ++ ev.queued.map (connId, ·)) (results ++ ((t.entry connId).on connId ev).2) c =
      (outstanding (log ++ ev.queued.map (connId, ·)) results c).filter
        fun x => ∀ r ∈ ((t.entry connId).on connId ev).2, r.id ≠ x := by
    intro c
    rw [outstanding, outstanding, List.filter_filter]
    refine List.filter_congr fun x _ => ?_
    simp only [List.forall_mem_append, Bool.decide_and]
    exact Bool.and_comm _ _
  constructor
  · intro c
    rw [hmore]
    by_cases hc : c = connId
    · subst hc
      rw [← hwaiting, ← hids, List.filter_append]
      rw [← hids] at hnodup
      have htold : ids.filter (fun x => ∀ r ∈ ((t.entry c).on c ev).2, r.id ≠ x) = [] := by
        refine List.filter_eq_nil_iff.mpr fun x hx hnone => ?_
        obtain ⟨r, hr, hid⟩ := hanswered x hx
        exact of_decide_eq_true hnone r hr hid
      have hleft : (t'.entry c).pendingIds.filter (fun x => ∀ r ∈ ((t.entry c).on c ev).2, r.id ≠ x) =
          (t'.entry c).pendingIds := by
        refine List.filter_eq_self.mpr fun x hx => decide_eq_true ?_
        rintro r hr rfl
        have hne : r.id ≠ 0 := by
          intro h0
          have hmem : r.id ∈ (t.entry c).waiting ev := hids ▸ List.mem_append_right _ hx
          rw [hwaiting] at hmem
          obtain ⟨hmem, -⟩ := List.mem_filter.mp hmem
          obtain ⟨p, hp, hid⟩ := List.mem_map.mp hmem
          exact hzero (h0 ▸ hid ▸ List.mem_map_of_mem (List.mem_filter.mp hp).1)
        exact (List.nodup_append'.mp hnodup).2.2 (hresults r hr hne) hx
      rw [htold, hleft]
      rfl
    · -- another connection is as it was
      have hothers : outstanding (log ++ ev.queued.map (connId, ·)) results c = outstanding log results c := by
        have hnone : (ev.queued.map (connId, ·)).filter (·.1 = c) = [] := by
          refine List.filter_eq_nil_iff.mpr fun p hp heq => ?_
          obtain ⟨x, -, rfl⟩ := List.mem_map.mp hp
          exact hc (of_decide_eq_true heq).symm
        rw [outstanding, outstanding, List.filter_append, hnone, List.append_nil]
      rw [ht'.other c hc, hothers, ← h.waits]
      refine (List.filter_eq_self.mpr fun x hx => decide_eq_true ?_).symm
      rintro r hr rfl
      have hsame := h.of_mem hx
      have hne : r.id ≠ 0 := fun h0 => hzero (h0 ▸ List.mem_map_of_mem (List.mem_append_left _ hsame.1))
      have hinj := List.inj_on_of_nodup_map hlog (List.mem_append_left _ hsame.1) (hsent _ (hresults r hr hne)) rfl
      exact hc (Prod.mk.inj hinj).1
  · intro r hr hne
    rcases List.mem_append.mp hr with hr | hr
    · rw [List.map_append]
      exact List.mem_append_left _ (h.told r hr hne)
    · exact List.mem_map_of_mem (hsent _ (hresults r hr hne))

/-- **One entry** keeps the ledger. -/
theorem Ledger.reap {ticketRx : List SendTicket} {e : Cqe} (hlog : ((log ++ e.sent (t.known ticketRx)).map Prod.snd).Nodup)
    (hzero : 0 ∉ (log ++ e.sent (t.known ticketRx)).map Prod.snd) :
    Ledger (t.reap ticketRx e).1 (log ++ e.sent (t.known ticketRx))
      (results ++ (t.reap ticketRx e).2.2.filterMap Msg.result?) := by
  unfold Cqe.sent at hlog hzero ⊢
  cases hev : e.event (t.known ticketRx) with
  | none =>
      obtain ⟨hentry, htimeouts⟩ := reap_none ((event_known t ticketRx e).trans hev)
      dsimp only
      rw [List.append_nil]
      constructor
      · intro connId
        rw [hentry, h.waits]
        refine List.filter_congr fun x hx => ?_
        rw [hev, List.append_nil] at hzero
        -- a timeout is for no request
        have hne : x ≠ 0 := by
          rintro rfl
          obtain ⟨p, hp, hid⟩ := List.mem_map.mp hx
          exact hzero (hid ▸ List.mem_map_of_mem (List.mem_filter.mp hp).1)
        refine decide_eq_decide.mpr ⟨fun hnone => List.forall_mem_append.mpr ⟨hnone, fun r hr heq => ?_⟩,
          fun hnone => (List.forall_mem_append.mp hnone).1⟩
        rw [htimeouts r hr] at heq
        exact hne heq.symm
      · intro r hr hne
        rcases List.mem_append.mp hr with hr | hr
        · exact h.told r hr hne
        · exact absurd (congrArg ConnResult.id (htimeouts r hr)) hne
  | some found =>
      obtain ⟨connId, ev⟩ := found
      rw [hev] at hlog hzero
      obtain ⟨htouched, hresults⟩ := reap_event ((event_known t ticketRx e).trans hev)
      dsimp only
      rw [hresults]
      exact h.event hlog hzero htouched

/-- **A run** keeps the ledger. -/
theorem Ledger.run (hrunning : t.running = true) {ticketRx : List SendTicket} {entries : List (List SendTicket × Cqe)}
    (hentries : ∀ entry ∈ entries, entry.2.userData ≠ SHUTDOWN_UD)
    (hlog : ((log ++ sentIn (t.known ticketRx) entries).map Prod.snd).Nodup)
    (hzero : 0 ∉ (log ++ sentIn (t.known ticketRx) entries).map Prod.snd) :
    Ledger (t.completeLoop ticketRx entries).1 (log ++ sentIn (t.known ticketRx) entries)
        (results ++ t.results ticketRx entries) ∧
      (t.completeLoop ticketRx entries).1.known (t.completeLoop ticketRx entries).2.1 =
        ticketsAfter (t.known ticketRx) entries ∧
      (t.completeLoop ticketRx entries).1.running = true := by
  induction entries generalizing t log results ticketRx with
  | nil =>
      refine ⟨?_, rfl, hrunning⟩
      show Ledger t (log ++ []) (results ++ [])
      rw [List.append_nil, List.append_nil]
      exact h
  | cons entry entries ih =>
      obtain ⟨arrived, e⟩ := entry
      obtain ⟨hne, hentries⟩ := List.forall_mem_cons.mp hentries
      obtain ⟨hknown, hgo⟩ := t.known_reap (ticketRx ++ arrived) e
      have hgo : (t.reap (ticketRx ++ arrived) e).1.running = true := (hgo hne).trans hrunning
      unfold CompleteThread.results
      rw [completeLoop]
      rw [sentIn] at hlog hzero ⊢
      dsimp only at hlog hzero ⊢
      rw [if_neg hne, ← known_append, ← hknown, ← List.append_assoc] at hlog hzero ⊢
      rw [if_pos hgo, ticketsAfter, ← known_append, ← hknown]
      have hfirst : ((log ++ e.sent (t.known (ticketRx ++ arrived))).map Prod.snd).Nodup := by
        rw [List.map_append] at hlog
        exact (List.nodup_append'.mp hlog).1
      have hfirst₀ : 0 ∉ (log ++ e.sent (t.known (ticketRx ++ arrived))).map Prod.snd := by
        rw [List.map_append] at hzero
        exact fun hmem => hzero (List.mem_append_left _ hmem)
      dsimp only
      rw [List.filterMap_append, ← List.append_assoc]
      exact ih (h.reap hfirst hfirst₀) hgo hentries hlog hzero

end

/-- A result of an entry is for a request that was waiting, or whose send completes; and only such a request waits after
    it. -/
theorem reap_ids (t : CompleteThread) (ticketRx : List SendTicket) (e : Cqe) :
    (∀ r ∈ (t.reap ticketRx e).2.2.filterMap Msg.result?, r.id ≠ 0 →
      (∃ connId, r.id ∈ (t.entry connId).pendingIds) ∨ r.id ∈ t.queuedBy ticketRx e) ∧
    ∀ connId, ∀ x ∈ ((t.reap ticketRx e).1.entry connId).pendingIds,
      x ∈ (t.entry connId).pendingIds ∨ x ∈ t.queuedBy ticketRx e := by
  unfold queuedBy
  cases hev : t.event ticketRx e with
  | none =>
      obtain ⟨hentry, htimeouts⟩ := reap_none hev
      constructor
      · intro r hr hne
        exact absurd (congrArg ConnResult.id (htimeouts r hr)) hne
      · intro connId x hx
        rw [hentry] at hx
        exact .inl hx
  | some found =>
      obtain ⟨connId, ev⟩ := found
      obtain ⟨htouched, hresults⟩ := reap_event hev
      obtain ⟨ids, hids, hmem, -⟩ := (t.entry connId).on_moves connId ev
      dsimp only
      constructor
      · intro r hr hne
        rw [hresults] at hr
        have hwaiting : r.id ∈ (t.entry connId).waiting ev := by
          rw [← hids]
          exact List.mem_append_left _ (hmem r hr hne)
        exact (List.mem_append.mp hwaiting).imp_left fun hx => ⟨connId, hx⟩
      · intro connId' x hx
        by_cases hc : connId' = connId
        · subst hc
          rw [htouched.entry] at hx
          have hwaiting : x ∈ (t.entry connId').waiting ev := by
            rw [← hids]
            exact List.mem_append_right _ hx
          exact List.mem_append.mp hwaiting
        · rw [htouched.other connId' hc] at hx
          exact .inl hx

/-- A request that waits nowhere, and whose send does not complete any more, gets no result. -/
theorem none_later {t : CompleteThread} {ticketRx : List SendTicket} {entries : List (List SendTicket × Cqe)}
    {x : RequestId} (hzero : x ≠ 0) (hsent : x ∉ (sentIn (t.known ticketRx) entries).map Prod.snd)
    (hnone : ∀ connId, x ∉ (t.entry connId).pendingIds) : ∀ r ∈ t.results ticketRx entries, r.id ≠ x := by
  induction entries generalizing t ticketRx with
  | nil => exact List.forall_mem_nil _
  | cons entry entries ih =>
      obtain ⟨arrived, e⟩ := entry
      obtain ⟨hresults, hpending⟩ := t.reap_ids (ticketRx ++ arrived) e
      rw [queuedBy_eq] at hresults hpending
      rw [sentIn, ← known_append, List.map_append, List.mem_append, not_or] at hsent
      have hstep : ∀ r ∈ (t.reap (ticketRx ++ arrived) e).2.2.filterMap Msg.result?, r.id ≠ x := by
        rintro r hr rfl
        rcases hresults r hr hzero with ⟨connId, hx⟩ | hx
        · exact hnone connId hx
        · exact hsent.1 hx
      unfold CompleteThread.results
      rw [completeLoop]
      dsimp only
      split
      next hgo =>
        dsimp only
        rw [List.filterMap_append]
        intro r hr
        rcases List.mem_append.mp hr with hr | hr
        · exact hstep r hr
        · by_cases hshutdown : e.userData = SHUTDOWN_UD
          · -- the thread stops here
            rw [CompleteThread.reap, if_pos hshutdown] at hgo
            cases hgo
          · rw [if_neg hshutdown, ← (t.known_reap (ticketRx ++ arrived) e).1] at hsent
            refine ih hsent.2 ?_ r hr
            intro connId hx
            rcases hpending connId x hx with hx | hx
            · exact hnone connId hx
            · exact hsent.1 hx
      next => exact hstep

end CompleteThread

/-! ## A connection fails -/

/-- The request `x` gets one result, when the connection `conn` fails: none before, and none later. -/
structure ReportedOnce (conn : ConnData) (x : RequestId) (before now later : List ConnResult) : Prop where
  once : ∃ r, now.filter (·.id = x) = [r] ∧ conn.Reports r
  before : ∀ r ∈ before, r.id ≠ x
  later : ∀ r ∈ later, r.id ≠ x

section

variable (front : List (List SendTicket × Cqe)) (arrived : List SendTicket) (e : Cqe)
  (rest : List (List SendTicket × Cqe))

/-- The complete thread when the entry after `front` is reaped. -/
def threadAt : CompleteThread := (CompleteThread.new.completeLoop [] front).1

/-- The tickets on its ring. -/
def ringAt : List SendTicket := (CompleteThread.new.completeLoop [] front).2.1 ++ arrived

/-- And the thread after it. -/
def threadAfter : CompleteThread × List SendTicket × List Msg := (threadAt front).reap (ringAt front arrived) e

/-- The requests whose sends complete in these entries, from the start, and their connections. -/
def sentFrom : List (Nat × RequestId) := sentIn (fun _ => none) front

/-- What the entry `e` after `front` is. -/
def eventAt : Option (Nat × ConnEvent) :=
  e.event (arrived.foldl CompleteThread.insertTicket (ticketsAfter (fun _ => none) front))

/-- The requests sent on the connection that have no result when the event `ev` comes after `front`. -/
def waitingAt (connId : Nat) (ev : ConnEvent) : List RequestId :=
  outstanding (sentFrom front) (CompleteThread.new.results [] front) connId ++ ev.queued

/-- Those of them whose response it leaves incomplete. -/
def unfinishedAt (connId : Nat) (ev : ConnEvent) : List RequestId :=
  ((threadAt front).entry connId).unfinished (waitingAt front connId ev) ev

/-- The request gets one result in the run, at the entry `e`. -/
def ReportedAt (connId : Nat) (x : RequestId) : Prop :=
  ReportedOnce ((threadAt front).entry connId) x (CompleteThread.new.results [] front)
    ((threadAfter front arrived e).2.2.filterMap Msg.result?)
    ((threadAfter front arrived e).1.results (threadAfter front arrived e).2.1 rest)

end

/-- Two requests are unfinished: the second one is not reported now. -/
theorem ConnData.Breaks.second_notMem {conn : ConnData} {ev : ConnEvent} {r : ConnData × List ConnResult}
    {front : List ConnResult} {last : ConnResult} {x y : RequestId} {rest : List RequestId}
    (h : conn.Breaks ev r front last) (hnodup : (conn.waiting ev).Nodup)
    (hunfinished : conn.unfinished (conn.waiting ev) ev = x :: y :: rest) : ∀ res ∈ r.2, res.id ≠ y := by
  have hids := h.frontIds
  have hlast := h.lastId
  rw [hunfinished] at hids hlast
  rw [← hids] at hnodup
  obtain ⟨-, hleft, hdisjoint⟩ := List.nodup_append'.mp hnodup
  rw [h.results]
  intro res hres heq
  rcases List.mem_append.mp hres with hres | hres
  · have hmem : res.id ∈ front.map ConnResult.id := List.mem_map_of_mem hres
    rw [heq] at hmem
    exact hdisjoint hmem (List.mem_cons_of_mem _ List.mem_cons_self)
  · rw [List.mem_singleton.mp hres, hlast] at heq
    have hxy : x = y := heq
    rw [hxy] at hleft
    exact (List.nodup_cons.mp hleft).1 List.mem_cons_self

/-- One request is unfinished: it gets the last result, and no other one is for it. -/
theorem ConnData.Breaks.filter_only {conn : ConnData} {ev : ConnEvent} {r : ConnData × List ConnResult}
    {front : List ConnResult} {last : ConnResult} {x : RequestId} (h : conn.Breaks ev r front last)
    (hnodup : (conn.waiting ev).Nodup) (hunfinished : conn.unfinished (conn.waiting ev) ev = [x]) :
    last.id = x ∧ r.2.filter (·.id = x) = [last] := by
  have hids := h.frontIds
  have hlast := h.lastId
  rw [hunfinished] at hids hlast
  rw [← hids] at hnodup
  have hlast : last.id = x := hlast
  have hfront : front.filter (·.id = x) = [] := by
    rw [List.filter_eq_nil_iff]
    intro res hres heq
    have hmem : res.id ∈ front.map ConnResult.id := List.mem_map_of_mem hres
    rw [of_decide_eq_true heq] at hmem
    exact (List.nodup_append'.mp hnodup).2.2 hmem List.mem_cons_self
  refine ⟨hlast, ?_⟩
  rw [h.results, List.filter_append, hfront, List.nil_append]
  exact List.filter_cons_of_pos (decide_eq_true hlast)

/-- If each of the unfinished requests is reported, there is at most one: the second one is not. -/
theorem ConnData.Breaks.length_le_one {conn : ConnData} {ev : ConnEvent} {r : ConnData × List ConnResult}
    {front : List ConnResult} {last : ConnResult} (h : conn.Breaks ev r front last) (hnodup : (conn.waiting ev).Nodup)
    (hall : ∀ x ∈ conn.unfinished (conn.waiting ev) ev, ∃ res, r.2.filter (·.id = x) = [res]) :
    (conn.unfinished (conn.waiting ev) ev).length ≤ 1 := by
  generalize hunfinished : conn.unfinished (conn.waiting ev) ev = ids at hall
  rcases ids with _ | ⟨x, _ | ⟨y, others⟩⟩
  · exact Nat.zero_le 1
  · exact Nat.le_refl 1
  · obtain ⟨res, hfilter⟩ := hall y (List.mem_cons_of_mem _ List.mem_cons_self)
    have hres : res ∈ r.2.filter (·.id = y) := by
      rw [hfilter]
      exact List.mem_cons_self
    obtain ⟨hres, hid⟩ := List.mem_filter.mp hres
    exact absurd (of_decide_eq_true hid) (h.second_notMem hnodup hunfinished res hres)

section

variable {front rest : List (List SendTicket × Cqe)} {arrived : List SendTicket} {e : Cqe} {connId : Nat} {ev : ConnEvent}

/-- The sends of the whole run: those up to the event, and those after it. -/
theorem sentFrom_event (hfront : ∀ entry ∈ front, entry.2.userData ≠ SHUTDOWN_UD)
    (hev : eventAt front arrived e = some (connId, ev)) :
    sentFrom (front ++ (arrived, e) :: rest) = sentFrom front ++ ev.queued.map (connId, ·) ++
      sentIn (e.redeem (arrived.foldl CompleteThread.insertTicket (ticketsAfter (fun _ => none) front))) rest := by
  have hshutdown : e.userData ≠ SHUTDOWN_UD := by
    intro heq
    rw [eventAt, Cqe.event, if_pos (.inl heq)] at hev
    cases hev
  have hsent : e.sent (arrived.foldl CompleteThread.insertTicket (ticketsAfter (fun _ => none) front)) =
      ev.queued.map (connId, ·) := by
    rw [Cqe.sent, show Cqe.event _ e = _ from hev]
  rw [sentFrom, sentIn_append hfront, sentIn, if_neg hshutdown, hsent, ← List.append_assoc]
  rfl

/-- The ledger of the thread when the entry after `front` is reaped, and the tickets it knows then. -/
theorem ledger_threadAt (arrived : List SendTicket) (hfront : ∀ entry ∈ front, entry.2.userData ≠ SHUTDOWN_UD)
    (hnodup : ((sentFrom front).map Prod.snd).Nodup) (hzero : 0 ∉ (sentFrom front).map Prod.snd) :
    CompleteThread.Ledger (threadAt front) (sentFrom front) (CompleteThread.new.results [] front) ∧
      (threadAt front).known (ringAt front arrived) =
        arrived.foldl CompleteThread.insertTicket (ticketsAfter (fun _ => none) front) := by
  have hstart : sentIn (CompleteThread.new.known []) front = sentFrom front := rfl
  obtain ⟨hledger, hknown, -⟩ := CompleteThread.ledger_new.run rfl hfront (by rwa [hstart]) (by rwa [hstart])
  refine ⟨hledger, ?_⟩
  rw [ringAt, CompleteThread.known_append]
  exact congrArg (arrived.foldl CompleteThread.insertTicket) hknown

end

/-- **Failure completeness.** A connection fails in a run in which every request has its own id. Each request whose send
    had completed on it, and whose response is not complete, gets one result, then and there, exactly when there is at most
    one such request. -/
theorem failure_complete_iff {front rest : List (List SendTicket × Cqe)} {arrived : List SendTicket} {e : Cqe}
    {connId : Nat} {ev : ConnEvent} (hids : ((sentFrom (front ++ (arrived, e) :: rest)).map Prod.snd).Nodup)
    (hzero : 0 ∉ (sentFrom (front ++ (arrived, e) :: rest)).map Prod.snd)
    (hfront : ∀ entry ∈ front, entry.2.userData ≠ SHUTDOWN_UD) (hev : eventAt front arrived e = some (connId, ev))
    (hfails : ((threadAt front).entry connId).Fails (waitingAt front connId ev) ev) :
    (∀ x ∈ unfinishedAt front connId ev, ReportedAt front arrived e rest connId x) ↔
      (unfinishedAt front connId ev).length ≤ 1 := by
  rw [sentFrom_event hfront hev, List.map_append] at hids hzero
  obtain ⟨hnow, -, hlater⟩ := List.nodup_append'.mp hids
  have hzero₁ : 0 ∉ (sentFrom front ++ ev.queued.map (connId, ·)).map Prod.snd :=
    fun hmem => hzero (List.mem_append_left _ hmem)
  have hstart : ((sentFrom front).map Prod.snd).Nodup ∧ 0 ∉ (sentFrom front).map Prod.snd := by
    rw [List.map_append] at hnow hzero₁
    exact ⟨(List.nodup_append'.mp hnow).1, fun hmem => hzero₁ (List.mem_append_left _ hmem)⟩
  obtain ⟨hbefore, htickets⟩ := ledger_threadAt arrived hfront hstart.1 hstart.2
  have hevent : (threadAt front).event (ringAt front arrived) e = some (connId, ev) := by
    rw [CompleteThread.event_known, htickets]
    exact hev
  obtain ⟨htouched, hresults⟩ := CompleteThread.reap_event hevent
  have hafter : CompleteThread.Ledger (threadAfter front arrived e).1 (sentFrom front ++ ev.queued.map (connId, ·))
      (CompleteThread.new.results [] front ++ (((threadAt front).entry connId).on connId ev).2) :=
    hbefore.event hnow hzero₁ htouched
  obtain ⟨hwaiting, hnodup⟩ := hbefore.waiting hnow hzero₁
  have hat : waitingAt front connId ev = ((threadAt front).entry connId).waiting ev := by
    rw [waitingAt, ← hbefore.waits]
    rfl
  unfold unfinishedAt ReportedAt
  rw [hat] at hfails ⊢
  obtain ⟨answered, last, hbreaks⟩ : ∃ answered last, ((threadAt front).entry connId).Breaks ev
      (((threadAt front).entry connId).on connId ev) answered last := by
    rcases ((threadAt front).entry connId).on_cases connId ev with ⟨hno, -⟩ | ⟨-, hbreaks⟩
    · exact absurd hfails hno
    · exact hbreaks
  have hmsgs : (threadAfter front arrived e).2.2.filterMap Msg.result? =
      (((threadAt front).entry connId).on connId ev).2 := hresults
  rw [hmsgs]
  constructor
  · intro hall
    refine hbreaks.length_le_one hnodup fun x hx => ?_
    obtain ⟨r, hfilter, -⟩ := (hall x hx).once
    exact ⟨r, hfilter⟩
  · intro hle x hx
    have hunfinished : ((threadAt front).entry connId).unfinished (((threadAt front).entry connId).waiting ev) ev = [x] := by
      obtain ⟨y, hy⟩ := List.length_eq_one_iff.mp (Nat.le_antisymm hle (List.length_pos_of_mem hx))
      rw [hy, List.mem_singleton] at hx
      rw [hy, hx]
    obtain ⟨hlast, hfilter⟩ := hbreaks.filter_only hnodup hunfinished
    -- it was sent before, and has no result
    have hxwaits : x ∈ ((threadAt front).entry connId).waiting ev := by
      rw [← hbreaks.frontIds, hunfinished]
      exact List.mem_append_right _ List.mem_cons_self
    rw [hwaiting] at hxwaits
    obtain ⟨hxsent, hxnone⟩ := List.mem_filter.mp hxwaits
    have hxlog : x ∈ (sentFrom front ++ ev.queued.map (connId, ·)).map Prod.snd := by
      obtain ⟨p, hp, rfl⟩ := List.mem_map.mp hxsent
      exact List.mem_map_of_mem (List.mem_filter.mp hp).1
    have hx0 : x ≠ 0 := by
      rintro rfl
      exact hzero₁ hxlog
    refine ⟨⟨last, hfilter, hbreaks.reports⟩, of_decide_eq_true hxnone, ?_⟩
    -- and it waits nowhere afterwards, so nothing later is for it
    refine CompleteThread.none_later hx0 ?_ fun c hmem => ?_
    · rw [threadAfter, (CompleteThread.known_reap _ _ _).1, htickets]
      exact fun hmem => hlater hxlog hmem
    · have hmine : last ∈ CompleteThread.new.results [] front ++ (((threadAt front).entry connId).on connId ev).2 := by
        rw [hbreaks.results]
        exact List.mem_append_right _ (List.mem_append_right _ List.mem_cons_self)
      exact (hafter.of_mem hmem).2 last hmine hlast

/-- The completion of a recv on the first connection with `ECONNRESET`. -/
def reset : Cqe := ⟨UserData.recv 5 0, -104, none, false⟩

/-- The ticket of a request made on the connection once it has been opened again. -/
def thirdTicket : SendTicket := ⟨2, ascii "c", 0, 3⟩

/-- One request waits when the connection is reset. It is reported, and the response that comes on the next socket goes to
    the request that is sent there. -/
theorem failure_complete_iff_one :
    ReportedAt [([firstTicket], Event.cqe 5 0 (.sent firstTicket))] [] reset
      [([thirdTicket], Event.cqe 6 0 (.sent thirdTicket)), ([], Event.cqe 6 0 (.received noContent.wire true))] 0 1 := by
  refine (@failure_complete_iff _ _ _ _ _ (.failed 5 104) ?_ ?_ ?_ ?_ trivial).mpr ?_ 1 ?_
  · decide
  · decide
  · decide
  · decide
  · decide
  · decide

/-- Two requests wait when the connection is reset. The second one is not reported. It is given the response to the
    request that is sent on the next socket. -/
theorem failure_misattributes : ¬∀ (front rest : List (List SendTicket × Cqe)) (arrived : List SendTicket) (e : Cqe)
    (connId : Nat) (ev : ConnEvent), ((sentFrom (front ++ (arrived, e) :: rest)).map Prod.snd).Nodup →
    0 ∉ (sentFrom (front ++ (arrived, e) :: rest)).map Prod.snd →
    (∀ entry ∈ front, entry.2.userData ≠ SHUTDOWN_UD) → eventAt front arrived e = some (connId, ev) →
    ((threadAt front).entry connId).Fails (waitingAt front connId ev) ev →
    ∀ x ∈ unfinishedAt front connId ev, ReportedAt front arrived e rest connId x := by
  intro h
  have hsecond := h [([firstTicket, secondTicket], Event.cqe 5 0 (.sent firstTicket)),
      ([], Event.cqe 5 0 (.sent secondTicket))]
    [([thirdTicket], Event.cqe 6 0 (.sent thirdTicket)), ([], Event.cqe 6 0 (.received noContent.wire true))] [] reset 0
    (.failed 5 104) (by decide) (by decide) (by decide) (by decide) trivial 2 (by decide)
  have hlater := hsecond.later (.response (noContent.response 2)) (by decide)
  exact hlater rfl

end Xibalba.Iouring
