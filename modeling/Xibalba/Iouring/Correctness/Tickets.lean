import Xibalba.Iouring.Correctness.Entries

/-!
# `Iouring.Correctness.Tickets` — the sends and their tickets

Each send has an id of its own, which its entry, its completion and its ticket carry. `Ticketed` is the invariant that
every id under way is that of a send that was pushed, and every ticket the one that was made for it.
-/

namespace Xibalba.Iouring

/-! ## The tickets of the complete thread -/

namespace CompleteThread

theorem foldl_insertTicket_some {ks : List SendTicket} {ts : Nat → Option SendTicket} {ud : Nat} {k : SendTicket}
    (h : ks.foldl insertTicket ts ud = some k) : ts ud = some k ∨ (k ∈ ks ∧ k.id = ud) := by
  induction ks generalizing ts with
  | nil => exact .inl h
  | cons k' ks ih =>
      rcases ih h with h | ⟨hmem, hid⟩
      · by_cases heq : ud = k'.id
        · subst heq
          rw [insertTicket, Function.update_self] at h
          cases h
          exact .inr ⟨List.mem_cons_self, rfl⟩
        · rw [insertTicket, Function.update_of_ne heq] at h
          exact .inl h
      · exact .inr ⟨List.mem_cons_of_mem _ hmem, hid⟩

theorem onSend_tickets {t : CompleteThread} {ticketRx : List SendTicket} {e : Cqe} {ud : Nat} {k : SendTicket}
    (h : (t.onSend ticketRx e).1.tickets ud = some k) : ticketRx.foldl insertTicket t.tickets ud = some k := by
  unfold onSend at h
  dsimp only at h
  split at h
  next => exact h
  next ticket hticket =>
    have htickets : ({ t with tickets := Function.update (ticketRx.foldl insertTicket t.tickets) e.userData none }.onSendComplete
        ticket e.result).1.tickets = Function.update (ticketRx.foldl insertTicket t.tickets) e.userData none := by
      unfold onSendComplete
      split
      · rfl
      · rfl
    have h := (congrFun htickets ud).symm.trans h
    by_cases heq : ud = e.userData
    · subst heq
      rw [Function.update_self] at h
      cases h
    · rwa [Function.update_of_ne heq] at h

theorem onRecv_tickets (t : CompleteThread) (connId fd : Nat) (e : Cqe) : (t.onRecv connId fd e).1.tickets = t.tickets := by
  unfold onRecv
  split
  · rfl
  · dsimp only
    split
    · rfl
    · split
      · rfl
      · split
        · rfl
        · rfl

/-- After an entry was reaped there are no tickets but those of before. -/
theorem reap_tickets (t : CompleteThread) (ticketRx : List SendTicket) (e : Cqe) :
    (∀ ud k, (t.reap ticketRx e).1.tickets ud = some k → t.tickets ud = some k ∨ (k ∈ ticketRx ∧ k.id = ud)) ∧
      ∀ k ∈ (t.reap ticketRx e).2.1, k ∈ ticketRx := by
  unfold reap
  split
  · exact ⟨fun _ _ h => .inl h, fun _ h => h⟩
  · split
    · exact ⟨fun _ _ h => .inl h, fun _ h => h⟩
    · split
      · exact ⟨fun _ _ h => .inl h, fun _ h => h⟩
      · split
        · refine ⟨fun ud k h => .inl ?_, fun _ h => h⟩
          rw [← t.onRecv_tickets (UserData.connId e.userData) (UserData.fd e.userData) e]
          exact h
        · exact ⟨fun ud k h => foldl_insertTicket_some (onSend_tickets h), nofun⟩

/-- A completion that queues a request is that of a send that has not failed. -/
theorem event_sent {t : CompleteThread} {ticketRx : List SendTicket} {e : Cqe} {connId : Nat} {requestId : RequestId}
    (h : t.event ticketRx e = some (connId, .sent requestId)) :
    0 ≤ e.result ∧ ∃ k, ticketRx.foldl insertTicket t.tickets e.userData = some k ∧ k.connId = connId ∧
      k.requestId = requestId := by
  unfold event at h
  split at h
  next => cases h
  next =>
    split at h
    next =>
      obtain ⟨ev, hev, heq⟩ := Option.map_eq_some_iff.mp h
      cases heq
      unfold recvEvent at hev
      split at hev
      next => cases hev
      next =>
        split at hev
        next =>
          split at hev
          next => cases hev
          next => cases hev
        next =>
          split at hev
          next => cases hev
          next => cases hev
    next =>
      unfold sendEvent at h
      split at h
      next => cases h
      next k hk =>
        split at h
        next => cases h
        next hneg =>
          cases h
          exact ⟨Int.not_lt.mp hneg, k, hk, rfl, rfl⟩

end CompleteThread

/-! ## The invariant -/

/-- The bytes of a send that was pushed. -/
def Caller.Sends (c : Caller) (id : Nat) (buf : Bytes) : Prop := ∃ k origin, c.sends id = some ⟨k, origin⟩ ∧ k.buf = buf

/-- What is known of the ids under way, when the entries `sq` have yet to be submitted. -/
structure Ticketed (sq : List (Stamped Sqe)) (s : Driver) : Prop where
  sq : ∀ e ∈ sq, ∀ id fd buf, e.val = .write id fd buf → s.caller.Sends id buf
  ops : ∀ id buf socket, .write id buf socket ∈ s.ops → s.caller.Sends id buf
  ring : ∀ k ∈ s.ticketRx, ∃ origin, s.caller.sends k.id = some ⟨k, origin⟩
  tickets : ∀ ud k, s.thread.tickets ud = some k → ∃ origin, s.caller.sends ud = some ⟨k, origin⟩
  known : ∀ id k, s.caller.sends id = some k → id < s.caller.nextSend ∧ id < 2 ^ 63
  posted : ∀ e ∈ s.cq, e.val.userData < 2 ^ 63 → ∃ k, s.caller.sends e.val.userData = some k

theorem ticketed_start (ring : Nat) : Ticketed [] (Driver.start ring) where
  sq _ h := by cases h
  ops _ _ _ h := by cases h
  ring _ h := by cases h
  tickets _ _ h := by cases h
  known _ _ h := by cases h
  posted _ h := by cases h

section

variable {sq sq' : List (Stamped Sqe)} {s s' : Driver}

/-- The user data of the entries that are for no send. -/
theorem le_recv (fd connId : Nat) : 2 ^ 63 ≤ UserData.recv fd connId := by
  simp only [UserData.recv, UserData.RECV_UD_FLAG]
  omega

/-- A completion that is for no send says nothing of one. -/
theorem Ticketed.foreign (h : Ticketed sq s) {ud : Nat} (hud : 2 ^ 63 ≤ ud) {k : Stamped SendTicket} :
    s.caller.sends ud ≠ some k :=
  fun hsome => Nat.not_lt.mpr hud (h.known ud k hsome).2

/-- The tickets the complete thread finds are those of the sends. -/
theorem Ticketed.found (h : Ticketed sq s) {ud : Nat} {k : SendTicket}
    (hk : s.ticketRx.foldl CompleteThread.insertTicket s.thread.tickets ud = some k) :
    ∃ origin, s.caller.sends ud = some ⟨k, origin⟩ := by
  rcases CompleteThread.foldl_insertTicket_some hk with hk | ⟨hmem, rfl⟩
  · exact h.tickets ud k hk
  · exact h.ring k hmem

/-- A step of the kernel. -/
theorem Ticketed.kernel (h : Ticketed sq s) (hcaller : s'.caller = s.caller) (hring : s'.ticketRx = s.ticketRx)
    (hthread : s'.thread = s.thread) (hsq : ∀ e ∈ sq', e ∈ sq)
    (hops : ∀ id buf socket, .write id buf socket ∈ s'.ops → s.caller.Sends id buf)
    (hcq : ∀ e ∈ s'.cq, e ∈ s.cq ∨ 2 ^ 63 ≤ e.val.userData ∨ ∃ k, s.caller.sends e.val.userData = some k) :
    Ticketed sq' s' := by
  constructor
  · rw [hcaller]
    exact fun e he => h.sq e (hsq e he)
  · rw [hcaller]
    exact hops
  · rw [hcaller, hring]
    exact h.ring
  · rw [hcaller, hthread]
    exact h.tickets
  · rw [hcaller]
    exact h.known
  · intro e he hlt
    rw [hcaller]
    rcases hcq e he with he | hforeign | hsent
    · exact h.posted e he hlt
    · exact absurd hforeign (Nat.not_le.mpr hlt)
    · exact hsent

/-- Operations of the kernel end, and an entry is posted. -/
theorem Ticketed.posts (h : Ticketed sq s) {ops : List KernelOp} (hops : ∀ op ∈ ops, op ∈ s.ops) {e : Cqe}
    (he : 2 ^ 63 ≤ e.userData ∨ ∃ k, s.caller.sends e.userData = some k) (origin : Nat)
    (accepted : Nat → List (Bytes × Nat)) (failed expired : List Nat) :
    Ticketed sq ({ s with ops := ops, accepted := accepted, failed := failed, expired := expired }.post e origin) := by
  refine h.kernel rfl rfl rfl (fun _ he => he) (fun id buf socket hmem => h.ops id buf socket (hops _ hmem)) ?_
  intro e' he'
  rcases List.mem_append.mp he' with he' | he'
  · exact .inl he'
  · rw [List.mem_singleton.mp he']
    exact .inr he

theorem Ticketed.reaped (h : Ticketed sq s) {e : Stamped Cqe} {rest : List (Stamped Cqe)} (hcq : s.cq = e :: rest) :
    Ticketed sq (s.reaped e rest) := by
  obtain ⟨htickets, hring⟩ := CompleteThread.reap_tickets s.thread s.ticketRx e.val
  constructor
  · exact h.sq
  · exact h.ops
  · intro k hk
    exact h.ring k (hring k hk)
  · intro ud k hk
    rcases htickets ud k hk with hk | ⟨hmem, rfl⟩
    · exact h.tickets ud k hk
    · exact h.ring k hmem
  · exact h.known
  · intro e' he'
    exact h.posted e' (hcq ▸ List.mem_cons_of_mem _ he')

/-- **A step of the kernel or the complete thread** keeps the invariant. -/
theorem Ticketed.happened {a : Driver.Happening} (h : Ticketed sq s) (hs : s.perform a = some s') : Ticketed sq s' := by
  cases Driver.happened hs with
  | @written front back id buf socket result hops hle =>
      refine h.posts (fun _ => Driver.mem_of_mem_front_back hops) (.inr ?_) socket _ s.failed s.expired
      obtain ⟨k, origin, hsome, -⟩ := h.ops id buf socket (by rw [hops]; exact List.mem_append_right _ List.mem_cons_self)
      exact ⟨_, hsome⟩
  | @received front back fd connId socket piece more hops hpiece =>
      refine h.posts ?_ (.inl (le_recv fd connId)) socket s.accepted s.failed s.expired
      intro op hmem
      split at hmem
      · exact hmem
      · exact Driver.mem_of_mem_front_back hops hmem
  | @broken front back fd connId socket errno hops herrno =>
      exact h.posts (fun _ => Driver.mem_of_mem_front_back hops) (.inl (le_recv fd connId)) socket s.accepted _ s.expired
  | @ended front back fd connId socket hops =>
      exact h.posts (fun _ => Driver.mem_of_mem_front_back hops) (.inl (le_recv fd connId)) socket s.accepted _ s.expired
  | @expired front back call hops =>
      exact h.posts (fun _ => Driver.mem_of_mem_front_back hops) (.inl (show 2 ^ 63 ≤ TIMEOUT_UD by decide)) call
        s.accepted s.failed _
  | reaped hcq hrunning houtbox => exact h.reaped hcq
  | delivered houtbox => exact { h with }
  | rearmDelivered houtbox => exact { h with }

/-- An entry is submitted. -/
theorem Ticketed.submits {e : Stamped Sqe} {rest : List (Stamped Sqe)} (h : Ticketed (e :: rest) s)
    (hs : Driver.Submitted s e s') : Ticketed rest s' := by
  have hrest : Ticketed rest s := { h with sq := fun e' he' => h.sq e' (List.mem_cons_of_mem _ he') }
  have hkeep : ∀ op ∈ s.ops, op ∈ s.ops := fun _ hop => hop
  have hadd : ∀ op : KernelOp, (∀ id buf socket, op = .write id buf socket → s.caller.Sends id buf) →
      Ticketed rest { s with ops := s.ops ++ [op] } := by
    intro op hop
    refine hrest.kernel rfl rfl rfl (fun _ he => he) ?_ fun _ he => .inl he
    intro id buf socket hmem
    rcases List.mem_append.mp hmem with hmem | hmem
    · exact h.ops id buf socket hmem
    · exact hop id buf socket (List.mem_singleton.mp hmem).symm
  cases hs with
  | @write id fd socket origin buf hfd =>
      refine hadd _ ?_
      rintro _ _ _ ⟨⟩
      exact h.sq _ List.mem_cons_self id fd buf rfl
  | @writeClosed id fd origin buf hfd =>
      obtain ⟨k, origin', hsome, -⟩ := h.sq _ List.mem_cons_self id fd buf rfl
      exact hrest.posts hkeep (.inr ⟨_, hsome⟩) _ s.accepted s.failed s.expired
  | recv hfd => exact hadd _ nofun
  | @recvClosed fd connId origin hfd =>
      exact hrest.posts hkeep (.inl (le_recv fd connId)) origin s.accepted _ s.expired
  | timeout => exact hadd _ nofun
  | @removed origin call hcall =>
      have hremoved := hrest.posts (e := ⟨TIMEOUT_UD, -ECANCELED, none, false⟩)
        (fun op (hop : op ∈ s.ops.erase (.timer call)) => List.mem_of_mem_erase hop)
        (.inl (show 2 ^ 63 ≤ TIMEOUT_UD by decide)) call s.accepted s.failed s.expired
      exact hremoved.posts (e := ⟨TIMEOUT_REMOVE_UD, 0, none, false⟩) (fun _ hop => hop)
        (.inl (show 2 ^ 63 ≤ TIMEOUT_REMOVE_UD by decide)) origin s.accepted s.failed s.expired
  | noTimer hnone =>
      exact hrest.posts hkeep (.inl (show 2 ^ 63 ≤ TIMEOUT_REMOVE_UD by decide)) _ s.accepted s.failed s.expired

/-- The sends are as before, and no new one is in the queue. -/
theorem Ticketed.onCaller (h : Ticketed sq s) {c : Caller} (hsends : c.sends = s.caller.sends)
    (hnext : c.nextSend = s.caller.nextSend)
    (hsq : ∀ e ∈ sq', e ∈ sq ∨ ∀ id fd buf, e.val ≠ .write id fd buf) : Ticketed sq' { s with caller := c } := by
  constructor
  · intro e he id fd buf heq
    unfold Caller.Sends
    rcases hsq e he with he | hno
    · obtain ⟨k, origin, hsome, hbuf⟩ := h.sq e he id fd buf heq
      exact ⟨k, origin, hsends ▸ hsome, hbuf⟩
    · exact absurd heq (hno id fd buf)
  · intro id buf socket hmem
    obtain ⟨k, origin, hsome, hbuf⟩ := h.ops id buf socket hmem
    exact ⟨k, origin, hsends ▸ hsome, hbuf⟩
  · exact hsends ▸ h.ring
  · exact hsends ▸ h.tickets
  · show ∀ id k, c.sends id = some k → id < c.nextSend ∧ id < 2 ^ 63
    rw [hsends, hnext]
    exact h.known
  · exact hsends ▸ h.posted

/-- The sends of before are still there after one was pushed. -/
theorem Ticketed.sends_pushed (h : Ticketed sq s) (fd : Nat) (buf : Bytes) (connId : Nat) (requestId : RequestId)
    {id : Nat} {k : Stamped SendTicket} (hsome : s.caller.sends id = some k) :
    (s.caller.sendPushed fd buf connId requestId).sends id = some k := by
  have hne : id ≠ s.caller.nextSend := Nat.ne_of_lt (h.known id k hsome).1
  exact (Function.update_of_ne hne ..).trans hsome

/-- And there is but one new one, which has a new id. -/
theorem sends_of_pushed {c : Caller} {fd : Nat} {buf : Bytes} {connId : Nat} {requestId : RequestId} {id : Nat}
    {k : Stamped SendTicket} (hsome : (c.sendPushed fd buf connId requestId).sends id = some k) :
    id = c.nextSend ∨ c.sends id = some k := by
  by_cases heq : id = c.nextSend
  · exact .inl heq
  · exact .inr ((Function.update_of_ne heq ..).symm.trans hsome)

/-- A send is pushed. Its id is new. -/
theorem Ticketed.sendPushed (h : Ticketed s.caller.sq s) (hlt : s.caller.nextSend < 2 ^ 63) (fd : Nat) (buf : Bytes)
    (connId : Nat) (requestId : RequestId) :
    Ticketed (s.caller.sendPushed fd buf connId requestId).sq
      { s with caller := s.caller.sendPushed fd buf connId requestId } := by
  have hkeep : ∀ {id k}, s.caller.sends id = some k → (s.caller.sendPushed fd buf connId requestId).sends id = some k :=
    fun hsome => h.sends_pushed fd buf connId requestId hsome
  have hsends : ∀ id b, s.caller.Sends id b → (s.caller.sendPushed fd buf connId requestId).Sends id b := by
    rintro id b ⟨k, origin, hsome, hbuf⟩
    exact ⟨k, origin, hkeep hsome, hbuf⟩
  constructor
  · intro e he id fd' buf' heq
    rcases List.mem_append.mp he with he | he
    · exact hsends id buf' (h.sq e he id fd' buf' heq)
    · rw [List.mem_singleton.mp he] at heq
      cases heq
      exact ⟨_, _, Function.update_self .., rfl⟩
  · intro id buf' socket hmem
    exact hsends id buf' (h.ops id buf' socket hmem)
  · intro k hk
    obtain ⟨origin, hsome⟩ := h.ring k hk
    exact ⟨origin, hkeep hsome⟩
  · intro ud k hk
    obtain ⟨origin, hsome⟩ := h.tickets ud k hk
    exact ⟨origin, hkeep hsome⟩
  · intro id k hsome
    rcases sends_of_pushed hsome with rfl | hsome
    · exact ⟨Nat.lt_succ_self _, hlt⟩
    · obtain ⟨hnext, hbound⟩ := h.known id k hsome
      exact ⟨Nat.lt_succ_of_lt hnext, hbound⟩
  · intro e he hud
    obtain ⟨k, hsome⟩ := h.posted e he hud
    exact ⟨k, hkeep hsome⟩

/-- **An operation of the pool** keeps the invariant. -/
theorem Ticketed.acted {op : PoolOp} {r : op.Ret} (h : Ticketed s.caller.sq s) (hprotocol : Protocol s.caller op)
    (hs : s.Answers op r s') : Ticketed s'.caller.sq s' := by
  cases Driver.acted hs with
  | quiet hquiet hs hc =>
      rw [hs.shared]
      refine h.onCaller hs.sends hs.nextSend fun e he => .inl ?_
      rw [← hs.sq]
      exact he
  | idle => exact h
  | refused | noRearm => exact { h with }
  | pushed sqe =>
      have hsame : (s.caller.pushed sqe).sends = s.caller.sends ∧ (s.caller.pushed sqe).nextSend = s.caller.nextSend := by
        cases sqe with
        | write id fd buf => exact ⟨rfl, rfl⟩
        | recvMultishot fd connId => exact ⟨rfl, rfl⟩
        | timeout => exact ⟨rfl, rfl⟩
        | timeoutRemove => exact ⟨rfl, rfl⟩
      refine h.onCaller hsame.1 hsame.2 fun e he => ?_
      rw [Caller.pushed_sq] at he
      refine (List.mem_append.mp he).imp_right fun he id fd buf heq => ?_
      rw [List.mem_singleton.mp he] at heq
      obtain rfl : sqe = .write id fd buf := heq
      exact hprotocol.elim
  | rearmPushed m =>
      refine h.onCaller rfl rfl fun e he => (List.mem_append.mp he).imp_right fun he => ?_
      rw [List.mem_singleton.mp he]
      exact nofun
  | sendPushed fd buf connId requestId hlt => exact h.sendPushed hlt fd buf connId requestId
  | submitted =>
      obtain ⟨hall, hcaller⟩ := Driver.submitAll (J := Ticketed) (fun hs _ h => Ticketed.submits h hs) h
      exact hall.onCaller (by rw [hcaller]; rfl) (by rw [hcaller]; rfl) fun e he => .inl he
  | ticket k =>
      refine { h with ring := fun k' hk' => ?_ }
      rcases List.mem_append.mp hk' with hk' | hk'
      · exact h.ring k' hk'
      · rw [List.mem_singleton.mp hk']
        exact hprotocol
  | polled hresponses => exact { h with }
  | popped hresponses => exact { h with }
  | rearm hrearms => exact { h with }

end

end Xibalba.Iouring
