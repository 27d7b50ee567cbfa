import Xibalba.Iouring.Correctness.Entries

/-!
# `Iouring.Correctness.Rearms` — the recv of a connection

The kernel may end a multishot recv with the bytes it brings. The complete thread then asks for it to be armed again, and
only `request` looks for such messages. The results here are about the runs in which a message that is handled finds room
in the queue and is about the fd its connection has: whenever a call waits for results, the recv of a connection with
requests is armed, unless the complete thread has learned that it ended since the last `request` that went through was
called.

Layout:
* `Driver.Token`, the terms, and what the kernel and the complete thread make of a token;
* `Receiving`: a connection whose recv is marked as armed has a token;
* `Serving`: a `request` that goes through leaves no message behind, and `receive_armed`;
* a run in which a `request` arms a recv again, and one in which a call waits on a connection whose recv has ended.
-/

namespace Xibalba.Iouring

/-- The completion with which the recv of a connection on a socket has ended, though not for an error or the end of the
    stream. -/
def Ends (fd connId socket : Nat) (e : Stamped Cqe) : Prop :=
  e.val.userData = UserData.recv fd connId ∧ e.origin = socket ∧ e.val.more = false ∧ ∃ piece, e.val.buffer = some piece

namespace Driver

/-- The recv of a connection is under way, or has ended and the complete thread has yet to learn that. -/
def Under (s : Driver) (fd connId socket : Nat) : Prop :=
  .recv fd connId socket ∈ s.ops ∨ ∃ e ∈ s.cq, Ends fd connId socket e

/-- There is a message that the recv is to be armed again. -/
def Asked (s : Driver) (fd connId socket : Nat) : Prop :=
  ⟨.rearm ⟨connId, fd⟩, socket⟩ ∈ s.outbox ∨ ⟨⟨connId, fd⟩, socket⟩ ∈ s.rearms ∨
    ⟨⟨connId, fd⟩, socket⟩ ∈ s.caller.pool.pendingRearms

/-- The recv is queued or under way; or it is to be armed again. -/
def Token (sq : List (Stamped Sqe)) (s : Driver) (fd connId socket : Nat) : Prop :=
  (∃ e ∈ sq, e.val = .recvMultishot fd connId) ∨ s.Under fd connId socket ∨ s.Asked fd connId socket

/-- The complete thread was done with the end of the recv only after `call` was made, or it is at it. -/
def Since (s : Driver) (call fd connId socket : Nat) : Prop :=
  (∃ e call', (e, call') ∈ s.finished ∧ call ≤ call' ∧ Ends fd connId socket e) ∨
    s.outbox ≠ [] ∧ ∃ e, s.working = some e ∧ Ends fd connId socket e

/-- There is room in the queue for the entry that a message asks for, and a message that is handled is about the fd its
    connection has. -/
def CurrentRearm (s : Driver) : (op : PoolOp) → op.Ret → Prop
  | .pushRearm _, _ => s.caller.sq.length < s.caller.ring
  | .rearmed, _ => ∀ m ∈ s.caller.pool.pendingRearms.head?, ∀ cc, s.caller.Live m.val.connId cc → cc.fd = m.val.fd
  | _, _ => True

end Driver

def currentRearms : Terms := ⟨fun _ _ => True, Driver.CurrentRearm⟩

section

variable {sq sq' : List (Stamped Sqe)} {s s' : Driver} {fd connId socket : Nat}

/-! ## The kernel and the complete thread -/

namespace Driver

/-- A recv that has failed stays so. -/
theorem perform_failed {a : Happening} (hs : s.perform a = some s') : ∀ socket ∈ s.failed, socket ∈ s'.failed := by
  intro socket hmem
  cases happened hs with
  | broken | ended => exact List.mem_cons_of_mem _ hmem
  | _ => exact hmem

/-- An operation that is no recv of the connection ends. -/
theorem Under.of_ops {ops : List KernelOp} {e : Cqe} {origin : Nat} {accepted : Nat → List (Bytes × Nat)}
    {failed expired : List Nat} (h : s.Under fd connId socket)
    (hops : .recv fd connId socket ∈ s.ops → .recv fd connId socket ∈ ops) :
    ({ s with ops := ops, accepted := accepted, failed := failed, expired := expired }.post e origin).Under fd connId
      socket := by
  rcases h with hmem | ⟨e', he', hends⟩
  · exact .inl (hops hmem)
  · exact .inr ⟨e', List.mem_append_left _ he', hends⟩

/-- **A recv that is under way** stays so, or fails, or the complete thread takes up its end and asks for it to be armed
    again. -/
theorem Under.happened {a : Happening} (h : s.Under fd connId socket) (hfitting : Fitting sq s)
    (hfits : RearmMsg.Fits ⟨connId, fd⟩) (hs : s.perform a = some s') :
    socket ∈ s'.failed ∨ s'.Under fd connId socket ∨
      ⟨.rearm ⟨connId, fd⟩, socket⟩ ∈ s'.outbox ∧ ∃ e, s'.working = some e ∧ Ends fd connId socket e := by
  have hkeep : ∀ {front back : List KernelOp} {op op' : KernelOp}, s.ops = front ++ op :: back → op' ≠ op → op' ∈ s.ops →
      op' ∈ front ++ back :=
    fun hops hne hmem => (eq_or_mem_front_back hops hmem).resolve_left hne
  cases Driver.happened hs with
  | written hops hle => exact .inr (.inl (h.of_ops (hkeep hops nofun)))
  | @received front back fd' connId' socket' piece more hops hpiece =>
      refine .inr (.inl ?_)
      cases more with
      | true => exact h.of_ops id
      | false =>
          by_cases heq : KernelOp.recv fd connId socket = .recv fd' connId' socket'
          · cases heq
            exact .inr ⟨_, List.mem_append_right _ List.mem_cons_self, rfl, rfl, rfl, piece, rfl⟩
          · exact h.of_ops (hkeep hops heq)
  | @broken front back fd' connId' socket' errno hops herrno =>
      by_cases heq : KernelOp.recv fd connId socket = .recv fd' connId' socket'
      · cases heq
        exact .inl List.mem_cons_self
      · exact .inr (.inl (h.of_ops (hkeep hops heq)))
  | @ended front back fd' connId' socket' hops =>
      by_cases heq : KernelOp.recv fd connId socket = .recv fd' connId' socket'
      · cases heq
        exact .inl List.mem_cons_self
      · exact .inr (.inl (h.of_ops (hkeep hops heq)))
  | expired hops => exact .inr (.inl (h.of_ops (hkeep hops nofun)))
  | @reaped e rest hcq hrunning houtbox =>
      rcases h with hmem | ⟨e', he', hends⟩
      · exact .inr (.inl (.inl hmem))
      · rcases List.mem_cons.mp (hcq ▸ he') with rfl | he'
        · obtain ⟨hud, rfl, hmore, hbuf⟩ := hends
          refine .inr (.inr ⟨List.mem_map.mpr ⟨_, ?_, rfl⟩, e', rfl, hud, rfl, hmore, hbuf⟩)
          exact rearm_pushed (hfitting.cq e' (hcq ▸ List.mem_cons_self)) hfits hud hmore hbuf
        · exact .inr (.inl (.inr ⟨e', he', hends⟩))
  | delivered houtbox => exact .inr (.inl h)
  | rearmDelivered houtbox => exact .inr (.inl h)

/-- The message is passed on. -/
theorem Asked.happened {a : Happening} (h : s.Asked fd connId socket) (hs : s.perform a = some s') :
    s'.Asked fd connId socket := by
  cases Driver.happened hs with
  | reaped hcq hrunning houtbox =>
      rcases h with hmem | hrest
      · rw [houtbox] at hmem
        cases hmem
      · exact .inr hrest
  | delivered houtbox =>
      rcases h with hmem | hrest
      · rcases List.mem_cons.mp (houtbox ▸ hmem) with heq | hmem
        · cases heq
        · exact .inl hmem
      · exact .inr hrest
  | rearmDelivered houtbox =>
      rcases h with hmem | hmem | hpending
      · rcases List.mem_cons.mp (houtbox ▸ hmem) with heq | hmem
        · cases heq
          exact .inr (.inl (List.mem_append_right _ List.mem_cons_self))
        · exact .inl hmem
      · exact .inr (.inl (List.mem_append_left _ hmem))
      · exact .inr (.inr hpending)
  | _ => exact h

theorem mem_finishedBy {e : Option (Stamped Cqe)} {outbox : List (Stamped Msg)} {x : Stamped Cqe × Nat}
    (h : x ∈ s.finished) : x ∈ s.finishedBy e outbox := by
  unfold finishedBy
  split
  · exact List.mem_append_right _ h
  · exact h

/-- The complete thread pushes what is first in its outbox. If that was the last of it, it is done with the entry. -/
theorem Since.delivers {call : Nat} {responses : List (Stamped ConnResult)} {rearms : List (Stamped RearmMsg)}
    (h : s.Since call fd connId socket) (hle : call ≤ s.caller.calls) (rest : List (Stamped Msg)) :
    { s with
      outbox := rest, responses := responses, rearms := rearms, finished := s.finishedBy s.working rest }.Since call fd
      connId socket := by
  rcases h with ⟨e, call', hmem, hrest⟩ | ⟨-, e, hworking, hends⟩
  · exact .inl ⟨e, call', mem_finishedBy hmem, hrest⟩
  · by_cases hnil : rest = []
    · refine .inl ⟨e, s.caller.calls, ?_, hle, hends⟩
      show _ ∈ s.finishedBy s.working rest
      unfold finishedBy
      rw [if_pos hnil, hworking]
      exact List.mem_cons_self
    · exact .inr ⟨hnil, e, hworking, hends⟩

theorem Since.happened {a : Happening} {call : Nat} (h : s.Since call fd connId socket) (hle : call ≤ s.caller.calls)
    (hs : s.perform a = some s') : s'.Since call fd connId socket := by
  cases Driver.happened hs with
  | reaped hcq hrunning houtbox =>
      rcases h with ⟨e, call', hmem, hrest⟩ | ⟨hne, -⟩
      · exact .inl ⟨e, call', mem_finishedBy hmem, hrest⟩
      · exact absurd houtbox hne
  | delivered houtbox => exact h.delivers hle _
  | rearmDelivered houtbox => exact h.delivers hle _
  | _ => exact h

/-- What submitting an entry leaves as it is. -/
structure Entered (s s' : Driver) : Prop where
  caller : s'.caller = s.caller
  outbox : s'.outbox = s.outbox
  rearms : s'.rearms = s.rearms
  working : s'.working = s.working
  finished : s'.finished = s.finished
  failed : ∀ socket ∈ s.failed, socket ∈ s'.failed
  ops : ∀ fd connId socket, .recv fd connId socket ∈ s.ops → .recv fd connId socket ∈ s'.ops
  cq : ∀ e ∈ s.cq, e ∈ s'.cq

theorem Submitted.entered {e : Stamped Sqe} (hs : Submitted s e s') : Entered s s' := by
  cases hs with
  | write hfd => exact ⟨rfl, rfl, rfl, rfl, rfl, fun _ h => h, fun _ _ _ h => List.mem_append_left _ h, fun _ h => h⟩
  | writeClosed hfd =>
      exact ⟨rfl, rfl, rfl, rfl, rfl, fun _ h => h, fun _ _ _ h => h, fun _ h => List.mem_append_left _ h⟩
  | recv hfd => exact ⟨rfl, rfl, rfl, rfl, rfl, fun _ h => h, fun _ _ _ h => List.mem_append_left _ h, fun _ h => h⟩
  | recvClosed hfd =>
      exact ⟨rfl, rfl, rfl, rfl, rfl, fun _ h => List.mem_cons_of_mem _ h, fun _ _ _ h => h,
        fun _ h => List.mem_append_left _ h⟩
  | timeout => exact ⟨rfl, rfl, rfl, rfl, rfl, fun _ h => h, fun _ _ _ h => List.mem_append_left _ h, fun _ h => h⟩
  | removed hcall =>
      refine ⟨rfl, rfl, rfl, rfl, rfl, fun _ h => h, fun _ _ _ h => ?_, fun _ h => ?_⟩
      · exact (List.mem_erase_of_ne KernelOp.noConfusion).mpr h
      · exact List.mem_append_left _ (List.mem_append_left _ h)
  | noTimer hnone =>
      exact ⟨rfl, rfl, rfl, rfl, rfl, fun _ h => h, fun _ _ _ h => h, fun _ h => List.mem_append_left _ h⟩

theorem Entered.under (h : Entered s s') (hunder : s.Under fd connId socket) : s'.Under fd connId socket :=
  hunder.imp (h.ops fd connId socket) fun ⟨e, he, hends⟩ => ⟨e, h.cq e he, hends⟩

end Driver

/-! ## A connection marked as armed -/

/-- What holds of the recvs, when the entries `sq` have yet to be submitted. -/
structure Receiving (sq : List (Stamped Sqe)) (s : Driver) : Prop where
  armed : ∀ connId cc, s.caller.Live connId cc → cc.recvArmed = true →
    s.caller.last connId ∈ s.failed ∨ s.Token sq cc.fd connId (s.caller.last connId)
  requested : ∀ q ∈ s.caller.requested, ∀ cc, s.caller.Live q.2.1 cc → s.caller.last q.2.1 = q.2.2 → cc.recvArmed = true

theorem receiving_start (ring : Nat) : Receiving [] (Driver.start ring) where
  armed := fun _ _ h => nomatch h.1
  requested := nofun

/-- The caller's side is as before. -/
theorem Receiving.kernel (h : Receiving sq s) (hsound : s.caller.Sound) (hcaller : s'.caller = s.caller)
    (hfailed : ∀ socket ∈ s.failed, socket ∈ s'.failed)
    (htoken : ∀ fd connId socket, RearmMsg.Fits ⟨connId, fd⟩ → s.caller.sockets fd = some socket →
      s.Token sq fd connId socket → socket ∈ s'.failed ∨ s'.Token sq' fd connId socket) : Receiving sq' s' := by
  constructor
  · rw [hcaller]
    intro connId cc hlive harmed
    have hbound := hsound.bound connId cc hlive
    have hfits : RearmMsg.Fits ⟨connId, cc.fd⟩ := ⟨hsound.fd_lt _ _ hbound, hsound.connId_lt connId cc hlive.1⟩
    rcases h.armed connId cc hlive harmed with hmem | hmem
    · exact .inl (hfailed _ hmem)
    · exact htoken _ _ _ hfits hbound hmem
  · rw [hcaller]
    exact h.requested

/-- **A step of the kernel or the complete thread** keeps the invariant. -/
theorem Receiving.happened {a : Driver.Happening} (h : Receiving sq s) (hfitting : Fitting sq s)
    (hsound : s.caller.Sound) (hs : s.perform a = some s') : Receiving sq s' := by
  refine h.kernel hsound (Driver.perform_caller hs) (Driver.perform_failed hs) fun fd connId socket hfits _ htoken => ?_
  rcases htoken with hsq | hunder | hasked
  · exact .inr (.inl hsq)
  · rcases hunder.happened hfitting hfits hs with hfailed | hunder | ⟨hmem, -⟩
    · exact .inl hfailed
    · exact .inr (.inr (.inl hunder))
    · exact .inr (.inr (.inr (.inl hmem)))
  · exact .inr (.inr (.inr (hasked.happened hs)))

/-- An entry is submitted. A recv is under way from then on, on the socket that its fd names. -/
theorem Receiving.submits {e : Stamped Sqe} {rest : List (Stamped Sqe)} (h : Receiving (e :: rest) s)
    (hsound : s.caller.Sound) (hs : Driver.Submitted s e s') : Receiving rest s' := by
  have hentered := hs.entered
  refine h.kernel hsound hentered.caller hentered.failed fun fd connId socket _ hbound htoken => .inr ?_
  rcases htoken with ⟨e', he', hval⟩ | hunder | hasked
  · rcases List.mem_cons.mp he' with rfl | he'
    · refine .inr (.inl (.inl ?_))
      cases hs with
      | recv hfd =>
          cases hval
          rw [hfd] at hbound
          cases hbound
          exact List.mem_append_right _ List.mem_cons_self
      | recvClosed hfd =>
          -- the fd of a live connection is open
          cases hval
          rw [hfd] at hbound
          cases hbound
      | _ => cases hval
    · exact .inl ⟨e', he', hval⟩
  · exact .inr (.inl (hentered.under hunder))
  · refine .inr (.inr ?_)
    unfold Driver.Asked
    rw [hentered.outbox, hentered.rearms, hentered.caller]
    exact hasked

/-! ### Operations of the pool -/

/-- What the caller's side holds of a token comes and goes. -/
theorem Driver.Token.onCaller (h : s.Token sq fd connId socket) {c : Caller} (hsq : ∀ e ∈ sq, e ∈ sq')
    (hpending : ∀ m ∈ s.caller.pool.pendingRearms, m ∈ c.pool.pendingRearms ∨
      ∃ e ∈ sq', e.val = .recvMultishot m.val.fd m.val.connId) : { s with caller := c }.Token sq' fd connId socket := by
  rcases h with ⟨e, he, hval⟩ | hunder | hmem | hmem | hmem
  · exact .inl ⟨e, hsq e he, hval⟩
  · exact .inr (.inl hunder)
  · exact .inr (.inr (.inl hmem))
  · exact .inr (.inr (.inr (.inl hmem)))
  · rcases hpending _ hmem with hmem | hqueued
    · exact .inr (.inr (.inr (.inr hmem)))
    · exact .inl hqueued

/-- What may become of a live connection: it is as before, but may be armed now if its recv is queued; or it is bound to
    a new socket. -/
def Caller.Kept (c c' : Caller) (sq : List (Stamped Sqe)) (connId : Nat) (cc' : CallerConn) : Prop :=
  (∃ cc, c.Live connId cc ∧ cc'.fd = cc.fd ∧ c'.last connId = c.last connId ∧
    (cc.recvArmed = true → cc'.recvArmed = true) ∧
    (cc'.recvArmed = true → cc.recvArmed = true ∨ ∃ e ∈ sq, e.val = .recvMultishot cc.fd connId)) ∨
  (cc'.recvArmed = false ∧ ∀ q ∈ c.requested, q.2.2 ≠ c'.last connId)

theorem Receiving.onCaller (h : Receiving sq s) {c : Caller}
    (hrequested : ∀ q ∈ c.requested, q ∈ s.caller.requested ∨ ∃ cc, c.Live q.2.1 cc ∧ cc.recvArmed = true)
    (hsq : ∀ e ∈ sq, e ∈ sq')
    (hpending : ∀ m ∈ s.caller.pool.pendingRearms, m ∈ c.pool.pendingRearms ∨
      ∃ e ∈ sq', e.val = .recvMultishot m.val.fd m.val.connId)
    (hlive : ∀ connId cc', c.Live connId cc' → s.caller.Kept c sq' connId cc') : Receiving sq' { s with caller := c } := by
  constructor
  · intro connId cc' hcc' harmed'
    show c.last connId ∈ s.failed ∨ { s with caller := c }.Token sq' cc'.fd connId (c.last connId)
    rcases hlive connId cc' hcc' with ⟨cc, hcc, hfd, hlast, -, harmed⟩ | ⟨hno, -⟩
    · rw [hlast, hfd]
      rcases harmed harmed' with harmed | hqueued
      · exact (h.armed connId cc hcc harmed).imp_right fun htoken => htoken.onCaller hsq hpending
      · exact .inr (.inl hqueued)
    · rw [hno] at harmed'
      cases harmed'
  · intro q hq cc' hcc' hlast'
    rcases hrequested q hq with hq | ⟨cc, hcc, harmed⟩
    · have hlast' : c.last q.2.1 = q.2.2 := hlast'
      rcases hlive q.2.1 cc' hcc' with ⟨cc, hcc, -, hlast, harmed, -⟩ | ⟨-, hnew⟩
      · exact harmed (h.requested q hq cc hcc (hlast ▸ hlast'))
      · exact absurd hlast'.symm (hnew q hq)
    · obtain rfl : cc' = cc := Option.some.inj (hcc'.1.symm.trans hcc.1)
      exact harmed

/-- The connections are as before. -/
theorem Receiving.same (h : Receiving sq s) {c : Caller} (hsame : s.caller.SameConns c) (hsq : ∀ e ∈ sq, e ∈ sq') :
    Receiving sq' { s with caller := c } := by
  refine h.onCaller (fun q hq => .inl (hsame.requested ▸ hq)) hsq (fun m hm => .inl ?_) fun connId cc hcc => .inl ?_
  · rw [hsame.pendingRearms]
    exact hm
  · exact ⟨cc, hsame.live hcc, rfl, congrFun hsame.last connId, id, .inl⟩

/-- **A quiet operation** that meets the terms keeps the live connections or binds them anew. A message it takes off is one
    whose recv is queued, and a request it adds is on a connection that is marked as armed. -/
theorem Caller.ConnMove.kept {c c' : Caller} {op : PoolOp} (h : c.ConnMove op c')
    (hterms : op = .rearmed → ∀ m ∈ c.pool.pendingRearms.head?, ∀ cc, c.Live m.val.connId cc → cc.fd = m.val.fd) :
    (∀ q ∈ c'.requested, q ∈ c.requested ∨
      (∃ requestId connId, op = .accepted requestId connId) ∧ ∃ cc, c'.Live q.2.1 cc ∧ cc.recvArmed = true) ∧
      (∀ m ∈ c.pool.pendingRearms, m ∈ c'.pool.pendingRearms ∨ c.Queues m.val.fd m.val.connId) ∧
      ∀ connId cc', c'.Live connId cc' → c.Kept c' c.sq connId cc' := by
  cases h with
  | same hsame =>
      refine ⟨fun q hq => .inl (hsame.requested ▸ hq), fun m hm => .inl (hsame.pendingRearms.symm ▸ hm),
        fun connId cc hcc => .inl ?_⟩
      exact ⟨cc, hsame.live hcc, rfl, congrFun hsame.last connId, id, .inl⟩
  | @bind _ connId fd cc hop hfresh hfd harmed =>
      refine ⟨fun q hq => .inl hq, fun m hm => .inl hm, fun connId' cc' hcc' => ?_⟩
      rcases Caller.live_onPool connId hcc' with ⟨rfl, heq, -⟩ | ⟨hne, hcc'⟩
      · -- the socket is new
        cases heq
        obtain ⟨socket, hsocket, -, hno⟩ := hfresh
        refine .inr ⟨harmed, fun q hq => ?_⟩
        show q.2.2 ≠ (c.bound connId' fd).last connId'
        rw [Caller.bound_self, hsocket]
        exact hno q hq
      · exact .inl ⟨cc', hcc', rfl, Caller.bound_of_ne hne .., id, .inl⟩
  | @drop _ connId o _ hop ho hsame htaken =>
      refine ⟨fun q hq => .inl (hsame.requested ▸ hq), fun m hm => .inl (hsame.pendingRearms.symm ▸ hm),
        fun connId' cc' hcc' => ?_⟩
      rcases Caller.live_onPool connId (hsame.live hcc') with ⟨-, rfl, hmark⟩ | ⟨-, hcc'⟩
      · rw [ho cc' rfl] at hmark
        cases hmark
      · exact .inl ⟨cc', hcc', rfl, congrFun hsame.last connId', id, .inl⟩
  | @arm connId cc hlive hqueues =>
      refine ⟨fun q hq => .inl hq, fun m hm => .inl hm, fun connId' cc' hcc' => ?_⟩
      rcases Caller.live_onPool connId hcc' with ⟨rfl, heq, -⟩ | ⟨-, hcc'⟩
      · cases heq
        exact .inl ⟨cc, hlive, rfl, rfl, fun _ => rfl, fun _ => .inr hqueues⟩
      · exact .inl ⟨cc', hcc', rfl, rfl, id, .inl⟩
  | @rearmed m _ hpending hqueues hconns hlast htaken hrequested =>
      refine ⟨fun q hq => .inl (hrequested ▸ hq), fun m' hm' => ?_, fun connId' cc' hcc' => ?_⟩
      · rcases List.mem_cons.mp (hpending ▸ hm') with rfl | hm'
        · exact .inr hqueues
        · exact .inl hm'
      · obtain ⟨cc, hcc, hfd, hother, harmed⟩ := Caller.live_armed hconns hcc'
        refine .inl ⟨cc, hcc, hfd, congrFun hlast connId', harmed, fun harmed' => ?_⟩
        by_cases heq : connId' = m.val.connId
        · -- the message is about the fd the connection has
          subst heq
          rw [hterms rfl m (by rw [hpending]; exact rfl) cc hcc]
          exact .inr hqueues
        · rw [hother heq] at harmed'
          exact .inl harmed'
  | @accepted requestId connId cc hlive harmed =>
      refine ⟨fun q hq => ?_, fun m hm => .inl hm, fun connId' cc' hcc' => .inl ⟨cc', hcc', rfl, rfl, id, .inl⟩⟩
      rcases List.mem_cons.mp hq with rfl | hq
      · exact .inr ⟨⟨requestId, connId, rfl⟩, cc, hlive, harmed⟩
      · exact .inl hq

/-- **A quiet operation** that meets the terms. -/
theorem Receiving.quiet (h : Receiving s.caller.sq s) {op : PoolOp} {c : Caller} (hmove : s.caller.ConnMove op c)
    (hterms : op = .rearmed → ∀ m ∈ s.caller.pool.pendingRearms.head?, ∀ cc, s.caller.Live m.val.connId cc →
      cc.fd = m.val.fd) : Receiving s.caller.sq { s with caller := c } := by
  obtain ⟨hrequested, hpending, hlive⟩ := hmove.kept hterms
  exact h.onCaller (fun q hq => (hrequested q hq).imp_right And.right) (fun _ he => he) hpending hlive

/-- The queue is submitted. -/
theorem Receiving.submitsAll (h : Receiving s.caller.sq s) (hsound : s.caller.Sound) :
    Receiving [] { s.caller.sq.foldl Driver.submitOne s with caller := s.caller.submittedAll } := by
  obtain ⟨⟨-, hall⟩, hcaller⟩ := Driver.submitAll (J := fun sq s => s.caller.Sound ∧ Receiving sq s)
    (fun hs hcaller h => ⟨hcaller ▸ h.1, h.2.submits h.1 hs⟩) ⟨hsound, h⟩
  refine hall.same ?_ fun _ he => he
  rw [hcaller]
  exact ⟨rfl, rfl, rfl, rfl⟩

/-- **An operation of the pool** that meets the terms keeps the invariant. -/
theorem Receiving.acted {op : PoolOp} {r : op.Ret} (h : Receiving s.caller.sq s) (hsound : s.caller.Sound)
    (hprotocol : Protocol s.caller op) (hterms : s.CurrentRearm op r) (hs : s.Answers op r s') :
    Receiving s'.caller.sq s' := by
  cases Driver.acted hs with
  | quiet hquiet hs hc =>
      rw [hs.shared, show ({ s with caller := s'.caller } : Driver).caller.sq = s.caller.sq from hs.sq]
      refine h.quiet (Caller.connMove hquiet hprotocol hc) ?_
      rintro rfl
      exact hterms
  | idle => exact h
  | refused | noRearm => exact { h with }
  | pushed sqe =>
      refine h.same (s.caller.pushed_conns sqe) fun e he => ?_
      show e ∈ (s.caller.pushed sqe).sq
      rw [Caller.pushed_sq]
      exact List.mem_append_left _ he
  | rearmPushed m => exact h.same ⟨rfl, rfl, rfl, rfl⟩ fun e he => List.mem_append_left _ he
  | sendPushed fd buf connId requestId hlt => exact h.same ⟨rfl, rfl, rfl, rfl⟩ fun e he => List.mem_append_left _ he
  | submitted => exact h.submitsAll hsound
  | ticket k => exact { h with }
  | @polled r rest hresponses =>
      exact { h.same (c := s.caller.popped r) ⟨rfl, rfl, rfl, rfl⟩ fun _ he => he with }
  | @popped r rest hresponses =>
      exact { h.same (c := s.caller.popped r) ⟨rfl, rfl, rfl, rfl⟩ fun _ he => he with }
  | @rearm m rest hrearms =>
      refine { h with armed := fun connId cc hlive harmed => (h.armed connId cc hlive harmed).imp_right fun htoken => ?_ }
      rcases htoken with hsq | hunder | hmem | hmem | hmem
      · exact .inl hsq
      · exact .inr (.inl hunder)
      · exact .inr (.inr (.inl hmem))
      · rcases List.mem_cons.mp (hrearms ▸ hmem) with rfl | hmem
        · exact .inr (.inr (.inr (.inr (List.mem_append_right _ List.mem_cons_self))))
        · exact .inr (.inr (.inr (.inl hmem)))
      · exact .inr (.inr (.inr (.inr (List.mem_append_left _ hmem))))

/-! ## A request that goes through -/

/-- What is noted of the calls and of the messages they handle is as before. -/
structure Caller.SameMarks (c c' : Caller) : Prop where
  calls : c'.calls = c.calls
  looked : c'.looked = c.looked
  refused : c'.refused = c.refused
  served : c'.served = c.served

theorem Caller.sameMarks_pushed (c : Caller) (sqe : Sqe) : c.SameMarks (c.pushed sqe) := by
  cases sqe with
  | write | recvMultishot | timeout | timeoutRemove => exact ⟨rfl, rfl, rfl, rfl⟩

/-- A quiet operation, other than the two that are for statements about calls. -/
theorem Caller.sameMarks {c c' : Caller} {op : PoolOp} {r : op.Ret} (hquiet : Driver.quiet op = true)
    (hcall : ∀ call, op ≠ .call call) (haccepted : ∀ requestId connId, op ≠ .accepted requestId connId)
    (h : c.Answers op r c') : c.SameMarks c' := by
  cases op with
  | push | pushRearm | pushSend | submit | pushTicket | popResponse | popBlock | popRearm => cases hquiet
  | call call => exact absurd rfl (hcall call)
  | accepted requestId connId => exact absurd rfl (haccepted requestId connId)
  | blockingConnect addr =>
      cases r with
      | none =>
          obtain rfl : c' = c := h
          exact ⟨rfl, rfl, rfl, rfl⟩
      | some fd =>
          obtain ⟨-, -, rfl⟩ := h
          exact ⟨rfl, rfl, rfl, rfl⟩
  | unbind connId origin =>
      obtain rfl : c' = c.unbound connId := h
      unfold unbound
      split
      · exact ⟨rfl, rfl, rfl, rfl⟩
      · exact ⟨rfl, rfl, rfl, rfl⟩
  | rearmed =>
      have h : c.rearmedOne = some c' := h
      unfold rearmedOne at h
      split at h
      · cases h
      · cases h
        exact ⟨rfl, rfl, rfl, rfl⟩
  | self | allocConnId | removeConn | takeRequestId | unstash =>
      obtain ⟨-, rfl⟩ := h
      exact ⟨rfl, rfl, rfl, rfl⟩
  | resolve | close | insertConn | freeConnId | rebind | arm | stash | returned =>
      obtain rfl := show c' = _ from h
      exact ⟨rfl, rfl, rfl, rfl⟩

/-- What holds while every message that is handled finds room: what is on the re-arm ring after a call has emptied it came
    later, and so did whatever was learned of the end of a recv after the last `request` that went through. -/
structure Serving (s : Driver) : Prop where
  asked : ∀ fd connId socket, ⟨.rearm ⟨connId, fd⟩, socket⟩ ∈ s.outbox →
    ∃ e, s.working = some e ∧ Ends fd connId socket e
  refused : s.caller.refused = false
  served_le : s.caller.served ≤ s.caller.calls
  looked : s.caller.looked = true → ∀ fd connId socket, ⟨⟨connId, fd⟩, socket⟩ ∈ s.rearms →
    s.Since s.caller.calls fd connId socket
  requested : ∀ q ∈ s.caller.requested, ∀ cc, s.caller.Live q.2.1 cc → s.caller.last q.2.1 = q.2.2 →
    q.2.2 ∈ s.failed ∨ s.Under cc.fd q.2.1 q.2.2 ∨ s.Since s.caller.served cc.fd q.2.1 q.2.2

theorem serving_start (ring : Nat) : Serving (Driver.start ring) where
  asked := nofun
  refused := rfl
  served_le := Nat.le_refl _
  looked := nofun
  requested := nofun

/-- The complete thread is at the end of a recv if it has yet to ask for it to be armed again. -/
theorem Serving.since (h : Serving s) (hmem : ⟨.rearm ⟨connId, fd⟩, socket⟩ ∈ s.outbox) (call : Nat) :
    s.Since call fd connId socket := .inr ⟨List.ne_nil_of_mem hmem, h.asked fd connId socket hmem⟩

theorem Serving.happened_asked {a : Driver.Happening} (h : Serving s) (hfitting : Fitting sq s)
    (hs : s.perform a = some s') (hmem : ⟨.rearm ⟨connId, fd⟩, socket⟩ ∈ s'.outbox) :
    ∃ e, s'.working = some e ∧ Ends fd connId socket e := by
  cases Driver.happened hs with
  | @reaped e rest hcq =>
      obtain ⟨m, hm, heq⟩ := List.mem_map.mp hmem
      cases heq
      obtain ⟨hud, hmore, hbuf, -⟩ := (reaps (hfitting.cq e (hcq ▸ List.mem_cons_self))).rearm hm
      exact ⟨e, rfl, hud, rfl, hmore, hbuf⟩
  | delivered houtbox => exact h.asked fd connId socket (houtbox ▸ List.mem_cons_of_mem _ hmem)
  | rearmDelivered houtbox => exact h.asked fd connId socket (houtbox ▸ List.mem_cons_of_mem _ hmem)
  | _ => exact h.asked fd connId socket hmem

/-- What comes on the re-arm ring was in the outbox. -/
theorem Driver.perform_rearms {a : Driver.Happening} (hs : s.perform a = some s')
    (hmem : ⟨⟨connId, fd⟩, socket⟩ ∈ s'.rearms) :
    ⟨⟨connId, fd⟩, socket⟩ ∈ s.rearms ∨ ⟨.rearm ⟨connId, fd⟩, socket⟩ ∈ s.outbox := by
  cases Driver.happened hs with
  | rearmDelivered houtbox =>
      rcases List.mem_append.mp hmem with hmem | hmem
      · exact .inl hmem
      · cases List.mem_singleton.mp hmem
        exact .inr (houtbox ▸ List.mem_cons_self)
  | _ => exact .inl hmem

/-- **A step of the kernel or the complete thread** keeps the invariant. -/
theorem Serving.happened {a : Driver.Happening} (h : Serving s) (hfitting : Fitting sq s) (hsound : s.caller.Sound)
    (hs : s.perform a = some s') : Serving s' := by
  have hcaller := Driver.perform_caller hs
  refine ⟨fun fd connId socket => h.happened_asked hfitting hs, ?_, ?_, ?_, ?_⟩
  · rw [hcaller]
    exact h.refused
  · rw [hcaller]
    exact h.served_le
  · rw [hcaller]
    intro hlooked fd connId socket hmem
    have hsince : s.Since s.caller.calls fd connId socket := by
      rcases Driver.perform_rearms hs hmem with hmem | hmem
      · exact h.looked hlooked fd connId socket hmem
      · exact h.since hmem _
    exact hsince.happened (Nat.le_refl _) hs
  · rw [hcaller]
    intro q hq cc hlive hlast
    have hbound := hsound.bound q.2.1 cc hlive
    have hfits : RearmMsg.Fits ⟨q.2.1, cc.fd⟩ := ⟨hsound.fd_lt _ _ hbound, hsound.connId_lt q.2.1 cc hlive.1⟩
    rcases h.requested q hq cc hlive hlast with hfailed | hunder | hsince
    · exact .inl (Driver.perform_failed hs _ hfailed)
    · rcases hunder.happened hfitting hfits hs with hfailed | hunder | ⟨hmem, hworking⟩
      · exact .inl hfailed
      · exact .inr (.inl hunder)
      · exact .inr (.inr (.inr ⟨List.ne_nil_of_mem hmem, hworking⟩))
    · exact .inr (.inr (hsince.happened h.served_le hs))

/-! ### Operations of the pool -/

theorem Serving.submits (h : Serving s) (hentered : Driver.Entered s s') : Serving s' := by
  have hsince : ∀ {call fd connId socket}, s.Since call fd connId socket → s'.Since call fd connId socket := by
    intro call fd connId socket hsince
    unfold Driver.Since
    rw [hentered.finished, hentered.outbox, hentered.working]
    exact hsince
  refine ⟨?_, hentered.caller ▸ h.refused, hentered.caller ▸ h.served_le, ?_, ?_⟩
  · rw [hentered.outbox, hentered.working]
    exact h.asked
  · rw [hentered.caller, hentered.rearms]
    exact fun hlooked fd connId socket hmem => hsince (h.looked hlooked fd connId socket hmem)
  · rw [hentered.caller]
    intro q hq cc hlive hlast
    exact (h.requested q hq cc hlive hlast).imp (hentered.failed _) (.imp hentered.under hsince)

theorem Serving.onCaller (h : Serving s) {c : Caller} (hmarks : s.caller.SameMarks c)
    (hlive : ∀ q ∈ c.requested, ∀ cc', c.Live q.2.1 cc' → c.last q.2.1 = q.2.2 →
      q ∈ s.caller.requested ∧ s.caller.last q.2.1 = q.2.2 ∧ ∃ cc, s.caller.Live q.2.1 cc ∧ cc'.fd = cc.fd) :
    Serving { s with caller := c } := by
  refine ⟨h.asked, hmarks.refused ▸ h.refused, ?_, ?_, ?_⟩
  · show c.served ≤ c.calls
    rw [hmarks.served, hmarks.calls]
    exact h.served_le
  · intro hlooked
    show ∀ fd connId socket, _ → s.Since c.calls fd connId socket
    rw [hmarks.calls]
    exact h.looked (hmarks.looked ▸ hlooked)
  · intro q hq cc' hcc' hlast
    obtain ⟨hq, hlast, cc, hcc, hfd⟩ := hlive q hq cc' hcc' hlast
    show q.2.2 ∈ s.failed ∨ s.Under cc'.fd q.2.1 q.2.2 ∨ s.Since c.served cc'.fd q.2.1 q.2.2
    rw [hmarks.served, hfd]
    exact h.requested q hq cc hcc hlast

/-- The connections are as before. -/
theorem Serving.same (h : Serving s) {c : Caller} (hmarks : s.caller.SameMarks c) (hsame : s.caller.SameConns c) :
    Serving { s with caller := c } :=
  h.onCaller hmarks fun q hq cc hcc hlast =>
    ⟨hsame.requested ▸ hq, (congrFun hsame.last q.2.1).symm.trans hlast, cc, hsame.live hcc, rfl⟩

/-- **A `request` goes through**: it has handled the messages on the ring, and its queue was submitted. -/
theorem Serving.returnedId (h : Serving s) (hreceiving : Receiving s.caller.sq s) {connId : Nat} {cc : CallerConn}
    (hlive : s.caller.Live connId cc) (harmed : cc.recvArmed = true) (hhandled : s.caller.Handled)
    (hsq : s.caller.sq = []) (requestId : RequestId) :
    Serving { s with caller := s.caller.returnedId requestId connId } := by
  refine ⟨h.asked, h.refused, Nat.le_refl _, h.looked, fun q hq cc' hcc' hlast => ?_⟩
  have hlast : s.caller.last q.2.1 = q.2.2 := hlast
  have harmed' : cc'.recvArmed = true := by
    rcases List.mem_cons.mp hq with rfl | hq
    · obtain rfl : cc' = cc := Option.some.inj (hcc'.1.symm.trans hlive.1)
      exact harmed
    · exact hreceiving.requested q hq cc' hcc' hlast
  show q.2.2 ∈ s.failed ∨ s.Under cc'.fd q.2.1 q.2.2 ∨ s.Since s.caller.calls cc'.fd q.2.1 q.2.2
  rw [← hlast]
  rcases hreceiving.armed q.2.1 cc' hcc' harmed' with hfailed | ⟨e, he, -⟩ | hunder | hmem | hmem | hmem
  · exact .inl hfailed
  · rw [hsq] at he
    cases he
  · exact .inr (.inl hunder)
  · exact .inr (.inr (h.since hmem _))
  · exact .inr (.inr (h.looked hhandled.1 _ _ _ hmem))
  · rw [hhandled.2 h.refused] at hmem
    cases hmem

/-- **A quiet operation** that meets the terms. -/
theorem Serving.quiet {op : PoolOp} {r : op.Ret} {c : Caller} (h : Serving s) (hreceiving : Receiving s.caller.sq s)
    (hprotocol : Protocol s.caller op) (hquiet : Driver.quiet op = true) (hterms : s.CurrentRearm op r)
    (hc : s.caller.Answers op r c) : Serving { s with caller := c } := by
  by_cases hcall : ∃ call, op = .call call
  · obtain ⟨call, rfl⟩ := hcall
    obtain rfl : c = s.caller.called call := hc
    exact ⟨h.asked, rfl, Nat.le_succ_of_le h.served_le, nofun, h.requested⟩
  by_cases haccepted : ∃ requestId connId, op = .accepted requestId connId
  · obtain ⟨requestId, connId, rfl⟩ := haccepted
    obtain ⟨⟨cc, hlive, harmed⟩, hhandled, hsq⟩ := hprotocol
    obtain rfl : c = s.caller.returnedId requestId connId := hc
    exact h.returnedId hreceiving hlive harmed hhandled hsq requestId
  obtain ⟨hrequested, -, hkept⟩ := (Caller.connMove hquiet hprotocol hc).kept (by rintro rfl; exact hterms)
  refine h.onCaller (Caller.sameMarks hquiet (not_exists.mp hcall) (fun requestId connId heq =>
    haccepted ⟨requestId, connId, heq⟩) hc) fun q hq cc' hcc' hlast => ?_
  have hq := (hrequested q hq).resolve_right fun hnew => haccepted hnew.1
  rcases hkept q.2.1 cc' hcc' with ⟨cc, hcc, hfd, heq, -⟩ | ⟨-, hnew⟩
  · exact ⟨hq, heq.symm.trans hlast, cc, hcc, hfd⟩
  · exact absurd hlast.symm (hnew q hq)

/-- **An operation of the pool** that meets the terms keeps the invariant. -/
theorem Serving.acted {op : PoolOp} {r : op.Ret} (h : Serving s) (hreceiving : Receiving s.caller.sq s)
    (hprotocol : Protocol s.caller op) (hterms : s.CurrentRearm op r) (hs : s.Answers op r s') : Serving s' := by
  have hanswers := hs
  cases Driver.acted hs with
  | quiet hquiet hs hc =>
      rw [hs.shared]
      exact h.quiet hreceiving hprotocol hquiet hterms hc
  | idle => exact h
  | refused m e =>
      -- there was room
      obtain ⟨c, -, ⟨hfull, -⟩, -⟩ := hanswers
      exact absurd hterms (Nat.not_lt.mpr hfull)
  | pushed sqe => exact h.same (s.caller.sameMarks_pushed sqe) (s.caller.pushed_conns sqe)
  | rearmPushed m => exact h.same ⟨rfl, rfl, rfl, rfl⟩ ⟨rfl, rfl, rfl, rfl⟩
  | sendPushed fd buf connId requestId hlt => exact h.same ⟨rfl, rfl, rfl, rfl⟩ ⟨rfl, rfl, rfl, rfl⟩
  | submitted =>
      obtain ⟨hall, hcaller⟩ := Driver.submitAll (J := fun _ s => Serving s) (fun hs _ h => h.submits hs.entered) h
      refine hall.same ?_ ?_
      · rw [hcaller]
        exact ⟨rfl, rfl, rfl, rfl⟩
      · rw [hcaller]
        exact ⟨rfl, rfl, rfl, rfl⟩
  | ticket k => exact { h with }
  | @polled r rest hresponses =>
      exact { h.same (c := s.caller.popped r) ⟨rfl, rfl, rfl, rfl⟩ ⟨rfl, rfl, rfl, rfl⟩ with }
  | @popped r rest hresponses =>
      exact { h.same (c := s.caller.popped r) ⟨rfl, rfl, rfl, rfl⟩ ⟨rfl, rfl, rfl, rfl⟩ with }
  | rearm hrearms =>
      refine { h with looked := fun hlooked fd connId socket hmem => ?_ }
      exact h.looked hlooked fd connId socket (hrearms ▸ List.mem_cons_of_mem _ hmem)
  | noRearm hrearms =>
      refine { h with looked := fun _ fd connId socket hmem => ?_ }
      rw [show s.rearms = [] from hrearms] at hmem
      cases hmem

end

/-- **The recv stays armed** in every run in which a message to arm one again that is handled finds room in the queue and is
    about the fd its connection has: when a call waits for results and the complete thread has nothing left to do, the
    recv of a connection that has requests and has not failed is under way, if the complete thread was done with every
    earlier end of it before the last `request` that went through was called. -/
theorem receive_armed {ring turns maxReq : Nat} {calls : List Call}
    {k : PoolOp.popBlock.Ret → Prog PoolSys (Except Empty Unit × Unit)} {s : Driver}
    (h : Runs currentRearms ring turns maxReq calls (.call .popBlock k) s) (hcq : s.cq = []) (houtbox : s.outbox = [])
    {requestId : RequestId} {connId : Nat} {cc : CallerConn}
    (hrequest : (requestId, connId, s.caller.last connId) ∈ s.caller.requested) (hlive : s.caller.Live connId cc)
    (hok : s.caller.last connId ∉ s.failed)
    (hended : ∀ e call, (e, call) ∈ s.finished → Ends cc.fd connId (s.caller.last connId) e → call < s.caller.served) :
    .recv cc.fd connId (s.caller.last connId) ∈ s.ops := by
  obtain ⟨-, -, -, hserving⟩ := h.invariant
    (I := fun s => Fitting s.caller.sq s ∧ Receiving s.caller.sq s ∧ Serving s)
    ⟨fitting_start ring, receiving_start ring, serving_start ring⟩
    (fun _ ha hsound hI => by
      rw [Driver.perform_caller ha]
      exact ⟨hI.1.happened ha, hI.2.1.happened hI.1 hsound ha, hI.2.2.happened hI.1 hsound ha⟩)
    (fun hprotocol hterms hact hsound hI => ⟨hI.1.acted hsound hprotocol hact,
      hI.2.1.acted hsound hprotocol hterms hact, hI.2.2.acted hI.2.1 hprotocol hterms hact⟩)
  rcases (hserving.requested _ hrequest cc hlive rfl).resolve_left hok with (hmem | ⟨e, he, -⟩) |
    ⟨e, call, hmem, hle, hends⟩ | ⟨hne, -⟩
  · exact hmem
  · rw [hcq] at he
    cases he
  · exact absurd (hended e call hmem hends) (Nat.not_lt.mpr hle)
  · exact absurd houtbox hne

/-! ## Runs -/

def currentRearms.decided : currentRearms.Decided where
  env _ _ := true
  act s
    | .pushRearm _, _ => decide (s.caller.sq.length < s.caller.ring)
    | .rearmed, _ =>
      match s.caller.pool.pendingRearms.head? with
      | none => true
      | some m => (s.caller.pool.conns m.val.connId).all fun cc => cc.fd = m.val.fd
    | _, _ => true
  env_sound _ _ _ := trivial
  act_sound := by
    intro s op r hok
    cases op with
    | pushRearm m =>
        show s.caller.sq.length < s.caller.ring
        exact of_decide_eq_true hok
    | rearmed =>
        intro m hm cc hlive
        rw [Option.mem_def] at hm
        dsimp only at hok
        rw [hm] at hok
        dsimp only at hok
        rw [hlive.1] at hok
        exact of_decide_eq_true hok
    | _ => trivial

/-- The pool has made its first request. Its write returns; then the kernel ends the recv with the first byte of a
    response, and the complete thread asks for it to be armed again. -/
def endsEarly : List (Option Driver.Happening) :=
  [some (.written 0 76), some .reap, some (.received 0 (ascii "H") false), some .reap, some .deliver]

/-- The second request arms the recv again, and then the pool waits for a response. -/
theorem receive_armed_again : ∃ s k,
    Runs currentRearms 8 4 1000 (oneRequest ++ [.request ⟨0, 3⟩ .get (ascii "/") none, .recv 1]) (.call .popBlock k) s ∧
      s.cq = [] ∧ (⟨⟨UserData.recv 3 0, 1, some (ascii "H"), false⟩, 1⟩, 2) ∈ s.finished ∧ .recv 3 0 1 ∈ s.ops := by
  obtain ⟨p, s, hruns, hnext, hcq, houtbox, hrequested, hconn, hlast, hfailed, hserved, hfinished, hended⟩ :=
    scheduled_runs currentRearms.decided 8 4 1000 (oneRequest ++ [.request ⟨0, 3⟩ .get (ascii "/") none, .recv 1])
      (firstRequest ++ [none] ++ endsEarly ++ List.replicate 17 none)
      (P := fun p s => p.next? = some .popBlock ∧ s.cq = [] ∧ s.outbox = [] ∧ s.caller.requested = [(2, 0, 1), (1, 0, 1)] ∧
        s.caller.pool.conns 0 = some ⟨3, true, false, ascii "http://a"⟩ ∧ s.caller.last 0 = 1 ∧ s.failed = [] ∧
        s.caller.served = 3 ∧ (⟨⟨UserData.recv 3 0, 1, some (ascii "H"), false⟩, 1⟩, 2) ∈ s.finished ∧
        ∀ x ∈ s.finished, x.2 = 2)
      (by decide +kernel)
  obtain ⟨k, rfl⟩ := Prog.next?_eq_some hnext
  refine ⟨s, k, hruns, hcq, hfinished, ?_⟩
  have hrequest : (1, 0, s.caller.last 0) ∈ s.caller.requested := by
    rw [hlast, hrequested]
    exact List.mem_cons_of_mem _ List.mem_cons_self
  have harmed := receive_armed hruns hcq houtbox hrequest ⟨hconn, rfl⟩ (by rw [hfailed]; exact List.not_mem_nil)
    fun e call hmem _ => by
      rw [hserved, show call = 2 from hended _ hmem]
      decide
  rw [hlast] at harmed
  exact harmed

/-- The kernel ends the recv with the first byte of the response. The message to re-arm it stays on its ring, since the
    call that waits does not look there. -/
theorem receive_stops : ¬∀ ring turns maxReq calls k s, Runs Terms.any ring turns maxReq calls (.call .popBlock k) s →
    s.cq = [] → s.outbox = [] → ∀ requestId connId cc, (requestId, connId, s.caller.last connId) ∈ s.caller.requested →
    requestId ∈ (s.thread.entry connId).pendingIds → s.caller.Live connId cc → s.caller.last connId ∉ s.failed →
    .recv cc.fd connId (s.caller.last connId) ∈ s.ops := by
  intro h
  obtain ⟨p, s, hruns, hnext, hcq, houtbox, hrequested, hconn, hlast, hfailed, hpending, hops⟩ :=
    scheduled_runs Terms.any.decided 8 4 1000 (oneRequest ++ [Call.recv 1])
      (firstRequest ++ List.replicate 3 none ++ endsEarly)
      (P := fun p s => p.next? = some .popBlock ∧ s.cq = [] ∧ s.outbox = [] ∧ s.caller.requested = [(1, 0, 1)] ∧
        s.caller.pool.conns 0 = some ⟨3, true, false, ascii "http://a"⟩ ∧ s.caller.last 0 = 1 ∧ s.failed = [] ∧
        (s.thread.entry 0).pendingIds = [1] ∧ s.ops = [])
      (by decide +kernel)
  obtain ⟨k, rfl⟩ := Prog.next?_eq_some hnext
  have harmed := h _ _ _ _ k s hruns hcq houtbox 1 0 _ (by rw [hlast, hrequested]; exact List.mem_cons_self)
    (by rw [hpending]; exact List.mem_cons_self) ⟨hconn, rfl⟩ (by rw [hfailed]; exact List.not_mem_nil)
  rw [hops] at harmed
  cases harmed

end Xibalba.Iouring
