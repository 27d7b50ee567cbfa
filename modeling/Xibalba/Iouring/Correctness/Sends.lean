import Xibalba.Iouring.Correctness.Failure
import Xibalba.Iouring.Correctness.Tickets

/-!
# `Iouring.Correctness.Sends` — requests that are sent whole

A send is one `write`, and the kernel may accept any number of its bytes. `on_send_complete` looks only at whether the
write has failed. The results here are about the runs in which a write that does not fail is accepted whole.

Layout:
* `WholeWrites`, the terms, and `Sent`, the invariant;
* its steps, and `sends_whole`;
* a run in which the head of one request is cut off and the next one follows it.
-/

namespace Xibalba.Iouring

/-- A write that does not fail is accepted whole. -/
def Driver.WholeWrite (s : Driver) : Driver.Happening → Prop
  | .written i result => ∀ id buf socket, s.ops[i]? = some (.write id buf socket) → 0 ≤ result → result = buf.length
  | _ => True

def wholeWrites : Terms := ⟨Driver.WholeWrite, fun _ _ _ => True⟩

/-- Some request was cut off on the wire, and the next bytes are those of another one. -/
def Smuggles (writes : List (Bytes × Nat)) : Prop :=
  ∃ front cut idle next back, writes = front ++ cut :: (idle ++ next :: back) ∧ 0 < cut.2 ∧ cut.2 < cut.1.length ∧
    (∀ w ∈ idle, w.2 = 0) ∧ 0 < next.2

/-! ## The invariant -/

/-- The send of a ticket was accepted whole. -/
def Driver.Whole (s : Driver) (k : SendTicket) (result : Int) : Prop :=
  result = k.buf.length ∧ ∃ socket, (k.buf, k.buf.length) ∈ s.accepted socket

/-- What holds of the sends that have completed. -/
structure Sent (s : Driver) : Prop where
  cq : ∀ e ∈ s.cq, ∀ k origin, s.caller.sends e.val.userData = some ⟨k, origin⟩ → 0 ≤ e.val.result →
    s.Whole k e.val.result
  accepted : ∀ socket, ∀ w ∈ s.accepted socket, w.2 = w.1.length
  queued : ∀ k result, (k, result) ∈ s.queued → s.Whole k result
  pending : ∀ connId, ∀ x ∈ (s.thread.entry connId).pendingIds, ∃ k result, (k, result) ∈ s.queued ∧ k.requestId = x

theorem sent_start (ring : Nat) : Sent (Driver.start ring) where
  cq := nofun
  accepted := nofun
  queued := nofun
  pending := fun _ _ h => nomatch h

section

variable {sq : List (Stamped Sqe)} {s s' : Driver}

/-- A step of the kernel. -/
theorem Sent.kernel (h : Sent s) (hcaller : s'.caller = s.caller) (hthread : s'.thread = s.thread)
    (hqueued : s'.queued = s.queued) (haccepted : ∀ socket, ∀ w ∈ s.accepted socket, w ∈ s'.accepted socket)
    (hwhole : ∀ socket, ∀ w ∈ s'.accepted socket, w.2 = w.1.length)
    (hcq : ∀ e ∈ s'.cq, e ∈ s.cq ∨ ∀ k origin, s.caller.sends e.val.userData = some ⟨k, origin⟩ →
      0 ≤ e.val.result → s'.Whole k e.val.result) : Sent s' := by
  have hkeep : ∀ k result, s.Whole k result → s'.Whole k result := by
    rintro k result ⟨hresult, socket, hmem⟩
    exact ⟨hresult, socket, haccepted socket _ hmem⟩
  constructor
  · intro e he k origin hsome hresult
    rw [hcaller] at hsome
    rcases hcq e he with he | hnew
    · exact hkeep _ _ (h.cq e he k origin hsome hresult)
    · exact hnew k origin hsome hresult
  · exact hwhole
  · rw [hqueued]
    exact fun k result hmem => hkeep k result (h.queued k result hmem)
  · rw [hthread, hqueued]
    exact h.pending

/-- An entry is posted that is for no send, or for one that has failed. -/
theorem Sent.posts (h : Sent s) (hticketed : Ticketed sq s) {e : Cqe} (he : 2 ^ 63 ≤ e.userData ∨ e.result < 0)
    (origin : Nat) (ops : List KernelOp) (failed expired : List Nat) :
    Sent ({ s with ops := ops, failed := failed, expired := expired }.post e origin) := by
  refine h.kernel rfl rfl rfl (fun _ _ hw => hw) h.accepted fun e' he' => ?_
  rcases List.mem_append.mp he' with he' | he'
  · exact .inl he'
  · rw [List.mem_singleton.mp he']
    rcases he with he | hneg
    · exact .inr fun k o hsome => absurd hsome (hticketed.foreign he)
    · exact .inr fun k o _ hresult => absurd hresult (Int.not_le.mpr hneg)

/-- The kernel accepts a write whole, or it fails. -/
theorem Sent.written (h : Sent s) (hticketed : Ticketed sq s) {front back : List KernelOp} {id : Nat} {buf : Bytes}
    {socket : Nat} {result : Int} (hops : s.ops = front ++ .write id buf socket :: back)
    (hwhole : 0 ≤ result → result = buf.length) :
    Sent ({ s with ops := front ++ back, accepted := s.accept socket buf result }.post
      ⟨id, result, none, false⟩ socket) := by
  have hsends : s.caller.Sends id buf := by
    refine hticketed.ops id buf socket ?_
    rw [hops]
    exact List.mem_append_right _ List.mem_cons_self
  -- what the socket has accepted grows by this write at most
  have haccept : ∀ socket', ∀ w ∈ s.accept socket buf result socket',
      w ∈ s.accepted socket' ∨ (0 ≤ result ∧ w = (buf, result.toNat)) := by
    intro socket' w hw
    unfold Driver.accept at hw
    split at hw
    next hresult =>
      by_cases heq : socket' = socket
      · subst heq
        rw [Function.update_self] at hw
        rcases List.mem_append.mp hw with hw | hw
        · exact .inl hw
        · exact .inr ⟨hresult, List.mem_singleton.mp hw⟩
      · rw [Function.update_of_ne heq] at hw
        exact .inl hw
    next => exact .inl hw
  refine h.kernel rfl rfl rfl ?_ ?_ ?_
  · intro socket' w hw
    show w ∈ s.accept socket buf result socket'
    unfold Driver.accept
    split
    · by_cases heq : socket' = socket
      · subst heq
        rw [Function.update_self]
        exact List.mem_append_left _ hw
      · rw [Function.update_of_ne heq]
        exact hw
    · exact hw
  · intro socket' w hw
    rcases haccept socket' w hw with hw | ⟨hresult, rfl⟩
    · exact h.accepted socket' w hw
    · show result.toNat = buf.length
      rw [hwhole hresult]
      rfl
  · intro e he
    rcases List.mem_append.mp he with he | he
    · exact .inl he
    · rw [List.mem_singleton.mp he]
      obtain ⟨k', origin', hsome', rfl⟩ := hsends
      refine .inr fun k origin hsome hresult => ?_
      have hresult : 0 ≤ result := hresult
      rw [show s.caller.sends id = some ⟨k, origin⟩ from hsome] at hsome'
      cases hsome'
      refine ⟨hwhole hresult, socket, ?_⟩
      show (k'.buf, k'.buf.length) ∈ s.accept socket k'.buf result socket
      unfold Driver.accept
      rw [if_pos hresult, Function.update_self, hwhole hresult]
      exact List.mem_append_right _ List.mem_cons_self

/-- What a reaped entry adds to `queued` is the send it completes. -/
theorem mem_queuedBy {e : Cqe} {connId : Nat} {requestId : RequestId} {k : SendTicket}
    (hev : s.thread.event s.ticketRx e = some (connId, .sent requestId))
    (hk : s.ticketRx.foldl CompleteThread.insertTicket s.thread.tickets e.userData = some k) :
    s.queuedBy e = [(k, e.result)] := by
  unfold Driver.queuedBy
  rw [hev, hk]

theorem of_mem_queuedBy {e : Cqe} {k : SendTicket} {result : Int} (h : (k, result) ∈ s.queuedBy e) :
    ∃ connId requestId, s.thread.event s.ticketRx e = some (connId, .sent requestId) ∧
      s.ticketRx.foldl CompleteThread.insertTicket s.thread.tickets e.userData = some k ∧ result = e.result := by
  unfold Driver.queuedBy at h
  split at h
  next connId requestId ticket hev hk =>
    cases List.mem_singleton.mp h
    exact ⟨connId, requestId, hev, hk, rfl⟩
  next => cases h

theorem Sent.reaped (h : Sent s) (hticketed : Ticketed sq s) {e : Stamped Cqe} {rest : List (Stamped Cqe)}
    (hcq : s.cq = e :: rest) : Sent (s.reaped e rest) := by
  constructor
  · intro e' he'
    exact h.cq e' (hcq ▸ List.mem_cons_of_mem _ he')
  · exact h.accepted
  · intro k result hmem
    rcases List.mem_append.mp hmem with hmem | hmem
    · obtain ⟨connId, requestId, hev, hk, rfl⟩ := of_mem_queuedBy hmem
      obtain ⟨hresult, -⟩ := CompleteThread.event_sent hev
      obtain ⟨origin, hsome⟩ := hticketed.found hk
      exact h.cq e (hcq ▸ List.mem_cons_self) k origin hsome hresult
    · exact h.queued k result hmem
  · intro connId x hx
    rcases (s.thread.reap_ids s.ticketRx e.val).2 connId x hx with hx | hx
    · obtain ⟨k, result, hmem, hid⟩ := h.pending connId x hx
      exact ⟨k, result, List.mem_append_right _ hmem, hid⟩
    · -- the request of the send that completes
      unfold CompleteThread.queuedBy at hx
      split at hx
      next connId' ev hev =>
        cases ev with
        | sent requestId =>
            obtain ⟨-, k, hk, -, hid⟩ := CompleteThread.event_sent hev
            refine ⟨k, e.val.result, List.mem_append_left _ ?_, hid.trans (List.mem_singleton.mp hx).symm⟩
            rw [mem_queuedBy hev hk]
            exact List.mem_cons_self
        | data fd bytes => cases hx
        | failed fd errno => cases hx
        | eof fd => cases hx
      next => cases hx

/-- **A step of the kernel or the complete thread** that meets the terms keeps the invariant. -/
theorem Sent.happened {a : Driver.Happening} (h : Sent s) (hticketed : Ticketed sq s) (hterms : s.WholeWrite a)
    (hs : s.perform a = some s') : Sent s' := by
  cases Driver.happened hs with
  | @written front back id buf socket result hops hle =>
      refine h.written hticketed hops fun hresult => hterms id buf socket ?_ hresult
      rw [hops, List.getElem?_append_right (Nat.le_refl _), Nat.sub_self]
      rfl
  | @received front back fd connId socket piece more hops hpiece =>
      exact h.posts hticketed (.inl (le_recv fd connId)) socket _ s.failed s.expired
  | @broken front back fd connId socket errno hops herrno =>
      exact h.posts hticketed (.inl (le_recv fd connId)) socket _ _ s.expired
  | @ended front back fd connId socket hops =>
      exact h.posts hticketed (.inl (le_recv fd connId)) socket _ _ s.expired
  | @expired front back call hops =>
      exact h.posts hticketed (.inl (show 2 ^ 63 ≤ TIMEOUT_UD by decide)) call _ s.failed _
  | reaped hcq hrunning houtbox => exact h.reaped hticketed hcq
  | delivered houtbox => exact { h with }
  | rearmDelivered houtbox => exact { h with }

/-- An entry is submitted. -/
theorem Sent.submits {e : Stamped Sqe} {rest : List (Stamped Sqe)} (h : Sent s) (hticketed : Ticketed (e :: rest) s)
    (hs : Driver.Submitted s e s') : Sent s' := by
  cases hs with
  | write hfd => exact { h with }
  | writeClosed hfd => exact h.posts hticketed (.inr (show -(EBADF : Int) < 0 by decide)) _ s.ops s.failed s.expired
  | recv hfd => exact { h with }
  | @recvClosed fd connId origin hfd =>
      exact h.posts hticketed (.inl (le_recv fd connId)) origin s.ops _ s.expired
  | timeout => exact { h with }
  | @removed origin call hcall =>
      have hremoved := h.posts hticketed (e := ⟨TIMEOUT_UD, -ECANCELED, none, false⟩)
        (.inl (show 2 ^ 63 ≤ TIMEOUT_UD by decide)) call (s.ops.erase (.timer call)) s.failed s.expired
      have hticketed' := hticketed.posts (e := ⟨TIMEOUT_UD, -ECANCELED, none, false⟩)
        (fun op (hop : op ∈ s.ops.erase (.timer call)) => List.mem_of_mem_erase hop)
        (.inl (show 2 ^ 63 ≤ TIMEOUT_UD by decide)) call s.accepted s.failed s.expired
      exact hremoved.posts hticketed' (e := ⟨TIMEOUT_REMOVE_UD, 0, none, false⟩)
        (.inl (show 2 ^ 63 ≤ TIMEOUT_REMOVE_UD by decide)) origin _ s.failed s.expired
  | noTimer hnone =>
      exact h.posts hticketed (.inl (show 2 ^ 63 ≤ TIMEOUT_REMOVE_UD by decide)) _ s.ops s.failed s.expired

/-- The sends are as before. -/
theorem Sent.onCaller (h : Sent s) {c : Caller} (hsends : c.sends = s.caller.sends) : Sent { s with caller := c } :=
  { h with cq := hsends ▸ h.cq }

/-- **An operation of the pool** keeps the invariant. -/
theorem Sent.acted {op : PoolOp} {r : op.Ret} (h : Sent s) (hticketed : Ticketed s.caller.sq s)
    (hs : s.Answers op r s') : Sent s' := by
  cases Driver.acted hs with
  | quiet hquiet hs hc =>
      rw [hs.shared]
      exact h.onCaller hs.sends
  | idle => exact h
  | refused | noRearm => exact { h with }
  | pushed sqe =>
      refine h.onCaller ?_
      cases sqe with
      | write id fd buf => rfl
      | recvMultishot fd connId => rfl
      | timeout => rfl
      | timeoutRemove => rfl
  | rearmPushed m => exact h.onCaller rfl
  | sendPushed fd buf connId requestId hlt =>
      refine { h with cq := fun e he k origin hsome hresult => ?_ }
      rcases sends_of_pushed hsome with heq | hsome
      · -- no entry has the new id
        obtain ⟨k', hk'⟩ := hticketed.posted e he (heq ▸ hlt)
        exact absurd (hticketed.known _ k' hk').1 (by rw [heq]; exact Nat.lt_irrefl _)
      · exact h.cq e he k origin hsome hresult
  | submitted =>
      obtain ⟨⟨-, hall⟩, hcaller⟩ := Driver.submitAll (J := fun sq s => Ticketed sq s ∧ Sent s)
        (fun hs _ h => ⟨h.1.submits hs, h.2.submits h.1 hs⟩) ⟨hticketed, h⟩
      refine hall.onCaller ?_
      rw [hcaller]
      rfl
  | ticket k => exact { h with }
  | polled hresponses => exact { h with }
  | popped hresponses => exact { h with }
  | rearm hrearms => exact { h with }

end

/-- A write that was accepted whole is no cut. -/
theorem not_smuggles {writes : List (Bytes × Nat)} (h : ∀ w ∈ writes, w.2 = w.1.length) : ¬Smuggles writes := by
  rintro ⟨front, cut, idle, next, back, rfl, -, hcut, -, -⟩
  have hwhole := h cut (List.mem_append_right _ List.mem_cons_self)
  omega

/-- **Requests are sent whole** in every run in which the kernel accepts a write whole or not at all: a request waits for a
    response only if all bytes of its head were accepted by a socket, and no socket was given the beginning of a request
    and then the beginning of another. -/
theorem sends_whole {ring turns maxReq : Nat} {calls : List Call} {p : Prog PoolSys (Except Empty Unit × Unit)} {s : Driver}
    (h : Runs wholeWrites ring turns maxReq calls p s) :
    (∀ connId, ∀ requestId ∈ (s.thread.entry connId).pendingIds, ∃ k result, (k, result) ∈ s.queued ∧
      k.requestId = requestId) ∧
    (∀ k result, (k, result) ∈ s.queued → s.Whole k result) ∧ ∀ socket, ¬Smuggles (s.accepted socket) := by
  obtain ⟨-, -, hsent⟩ := h.invariant (I := fun s => Ticketed s.caller.sq s ∧ Sent s)
    ⟨ticketed_start ring, sent_start ring⟩
    (fun hterms ha _ hI => by
      rw [Driver.perform_caller ha]
      exact ⟨hI.1.happened ha, hI.2.happened hI.1 hterms ha⟩)
    (fun hprotocol _ hact _ hI => ⟨hI.1.acted hprotocol hact, hI.2.acted hI.1 hact⟩)
  exact ⟨hsent.pending, hsent.queued, fun socket => not_smuggles (hsent.accepted socket)⟩

/-! ## Runs -/

/-- A connection to `http://a` and two requests on it. -/
def twoRequests : List Call :=
  [.connect (ascii "http://a"), .request ⟨0, 3⟩ .get (ascii "/") none, .request ⟨0, 3⟩ .get (ascii "/") none]

/-- The head of either request. -/
def firstHead : Bytes := ascii
  "GET / HTTP/1.1\r\nHost: a\r\nConnection: keep-alive\r\nUser-Agent: xibalba/0.1\r\n\r\n"

/-- The pool makes its second request. -/
def secondRequest : List (Option Driver.Happening) := List.replicate 11 none

def wholeWrites.decided : wholeWrites.Decided where
  env s
    | .written i result =>
      match s.ops[i]? with
      | some (.write _ buf _) => result < 0 || result = buf.length
      | _ => true
    | _ => true
  act _ _ _ := true
  env_sound := by
    intro s a hok
    cases a with
    | written i result =>
        intro id buf socket hop hresult
        dsimp only at hok
        rw [hop] at hok
        simp only [Bool.or_eq_true, decide_eq_true_eq] at hok
        exact hok.resolve_left (Int.not_lt.mpr hresult)
    | received i piece more => trivial
    | broken i errno => trivial
    | ended i => trivial
    | expired i => trivial
    | reap => trivial
    | deliver => trivial
  act_sound _ _ _ _ := trivial

/-- The first request is accepted whole, and waits for its response. -/
theorem sends_whole_one : ∃ p s, Runs wholeWrites 8 4 1000 twoRequests p s ∧ (s.thread.entry 0).pendingIds = [1] ∧
    ∃ k result, k.requestId = 1 ∧ s.Whole k result := by
  obtain ⟨p, s, hruns, hpending⟩ := scheduled_runs wholeWrites.decided 8 4 1000 twoRequests
    (firstRequest ++ [some (Driver.Happening.written 0 76), some .reap]) (P := fun _ s => (s.thread.entry 0).pendingIds = [1])
    (by decide +kernel)
  obtain ⟨hqueued, hwhole, -⟩ := sends_whole hruns
  obtain ⟨k, result, hmem, hid⟩ := hqueued 0 1 (by rw [hpending]; exact List.mem_cons_self)
  exact ⟨p, s, hruns, hpending, k, result, hid, hwhole k result hmem⟩

/-- Five bytes of the first request are accepted, and the second one follows them. The first request waits for a
    response all the same. -/
theorem sends_cut : ¬∀ ring turns maxReq calls p s, Runs Terms.any ring turns maxReq calls p s →
    (∀ connId, ∀ requestId ∈ (s.thread.entry connId).pendingIds, ∃ k result, (k, result) ∈ s.queued ∧
      k.requestId = requestId) ∧
    (∀ k result, (k, result) ∈ s.queued → s.Whole k result) ∧ ∀ socket, ¬Smuggles (s.accepted socket) := by
  intro h
  obtain ⟨p, s, hruns, haccepted⟩ := scheduled_runs Terms.any.decided 8 4 1000 twoRequests
    (firstRequest ++ [some (Driver.Happening.written 0 5)] ++ secondRequest ++
      [some (Driver.Happening.written 1 76), some .reap])
    (P := fun _ s => s.accepted 1 = [(firstHead, 5), (firstHead, 76)] ∧ (s.thread.entry 0).pendingIds = [1])
    (by decide +kernel)
  obtain ⟨-, -, hno⟩ := h 8 4 1000 twoRequests p s hruns
  refine hno 1 ⟨[], (firstHead, 5), [], (firstHead, 76), [], haccepted.1, by decide, by decide, nofun, by decide⟩

end Xibalba.Iouring
