import Xibalba.Iouring.Correctness.Schedule

/-!
# `Iouring.Correctness.Entries` — the entries under way

A `user_data` says what an entry is for only if its fields fit their bits. `Fitting` is the invariant that they do, for
every entry of the queues, every operation of the kernel and every message to re-arm. So each completion is one of those
that `Posted` lists, and `Reaps` is what the complete thread makes of it.
-/

namespace Xibalba.Iouring

/-! ## Entries that fit -/

def Sqe.Fits : Sqe → Prop
  | .write id _ _ => id < 2 ^ 63
  | .recvMultishot fd connId => fd < 2 ^ 31 - 1 ∧ connId < 2 ^ 32
  | _ => True

def KernelOp.Fits : KernelOp → Prop
  | .write id _ _ => id < 2 ^ 63
  | .recv fd connId _ => fd < 2 ^ 31 - 1 ∧ connId < 2 ^ 32
  | .timer _ => True

def RearmMsg.Fits (m : RearmMsg) : Prop := m.fd < 2 ^ 31 - 1 ∧ m.connId < 2 ^ 32

/-- The completions the kernel posts. -/
inductive Cqe.Posted : Cqe → Prop where
  | written {id : Nat} (hid : id < 2 ^ 63) (result : Int) : Posted ⟨id, result, none, false⟩
  | received {fd connId : Nat} (hfits : RearmMsg.Fits ⟨connId, fd⟩) {piece : Bytes} (hpiece : piece ≠ []) (more : Bool) :
      Posted ⟨UserData.recv fd connId, piece.length, some piece, more⟩
  | broken {fd connId errno : Nat} (hfits : RearmMsg.Fits ⟨connId, fd⟩) (herrno : errno ≠ 0) :
      Posted ⟨UserData.recv fd connId, -errno, none, false⟩
  | ended {fd connId : Nat} (hfits : RearmMsg.Fits ⟨connId, fd⟩) : Posted ⟨UserData.recv fd connId, 0, none, false⟩
  | timer (result : Int) : Posted ⟨TIMEOUT_UD, result, none, false⟩
  | removal (result : Int) : Posted ⟨TIMEOUT_REMOVE_UD, result, none, false⟩

/-! ## What the complete thread makes of them -/

/-- What reaping an entry can do. -/
inductive Reaps (t : CompleteThread) (ticketRx : List SendTicket) : Cqe → CompleteThread → List Msg → Prop where
  | idle {e : Cqe} {t' : CompleteThread} (hevent : t.event ticketRx e = none) (hud : e.userData ≠ TIMEOUT_UD)
      (hrecv : UserData.isRecv e.userData = true → e.userData = TIMEOUT_REMOVE_UD)
      (hentry : ∀ connId, t'.entry connId = t.entry connId) : Reaps t ticketRx e t' []
  | timeout {result : Int} (hevent : t.event ticketRx ⟨TIMEOUT_UD, result, none, false⟩ = none) :
      Reaps t ticketRx ⟨TIMEOUT_UD, result, none, false⟩ t [.result .timeout]
  | sent {e : Cqe} {t' : CompleteThread} {connId : Nat} {requestId : RequestId} (hud : e.userData < 2 ^ 63)
      (hevent : t.event ticketRx e = some (connId, .sent requestId))
      (htouched : Touched t t' connId ((t.entry connId).on connId (.sent requestId)).1) :
      Reaps t ticketRx e t' (((t.entry connId).on connId (.sent requestId)).2.map .result)
  | received {fd connId : Nat} {piece : Bytes} {more : Bool} {t' : CompleteThread} (hfits : RearmMsg.Fits ⟨connId, fd⟩)
      (hevent : t.event ticketRx ⟨UserData.recv fd connId, piece.length, some piece, more⟩ = some (connId, .data fd piece))
      (htouched : Touched t t' connId ((t.entry connId).on connId (.data fd piece)).1) :
      Reaps t ticketRx ⟨UserData.recv fd connId, piece.length, some piece, more⟩ t'
        (((t.entry connId).on connId (.data fd piece)).2.map .result ++ if more then [] else [Msg.rearm ⟨connId, fd⟩])
  | stopped {fd connId : Nat} {result : Int} {ev : ConnEvent} {t' : CompleteThread} (hfits : RearmMsg.Fits ⟨connId, fd⟩)
      (hev : (∃ errno, ev = .failed fd errno) ∨ ev = .eof fd)
      (hevent : t.event ticketRx ⟨UserData.recv fd connId, result, none, false⟩ = some (connId, ev))
      (htouched : Touched t t' connId ((t.entry connId).on connId ev).1) :
      Reaps t ticketRx ⟨UserData.recv fd connId, result, none, false⟩ t' (((t.entry connId).on connId ev).2.map .result)

section

variable {t : CompleteThread} {ticketRx : List SendTicket}

/-- A recv's completion is told from the reserved ones. -/
theorem recv_ne {fd connId : Nat} (hfits : RearmMsg.Fits ⟨connId, fd⟩) :
    UserData.recv fd connId ≠ SHUTDOWN_UD ∧ UserData.recv fd connId ≠ TIMEOUT_UD ∧
      UserData.recv fd connId ≠ TIMEOUT_REMOVE_UD := by
  have hlt := UserData.recv_lt hfits.1 connId
  simp only [SHUTDOWN_UD, TIMEOUT_UD, TIMEOUT_REMOVE_UD] at hlt ⊢
  omega

/-- A recv's `user_data` names its fd and its connection. -/
theorem recv_inj {fd connId fd' connId' : Nat} (hfits : RearmMsg.Fits ⟨connId, fd⟩) (hfits' : RearmMsg.Fits ⟨connId', fd'⟩)
    (h : UserData.recv fd connId = UserData.recv fd' connId') : fd = fd' ∧ connId = connId' := by
  have hlt : fd < 2 ^ 31 - 1 ∧ connId < 2 ^ 32 := hfits
  have hlt' : fd' < 2 ^ 31 - 1 ∧ connId' < 2 ^ 32 := hfits'
  have hfd := UserData.fd_recv (Nat.lt_of_lt_of_le hlt.1 (by omega)) connId
  have hconn := UserData.connId_recv fd hlt.2
  rw [h, UserData.fd_recv (Nat.lt_of_lt_of_le hlt'.1 (by omega))] at hfd
  rw [h, UserData.connId_recv fd' hlt'.2] at hconn
  exact ⟨hfd.symm, hconn.symm⟩

/-- The event of a recv's completion. -/
theorem event_recv {fd connId : Nat} (hfits : RearmMsg.Fits ⟨connId, fd⟩) {e : Cqe}
    (hud : e.userData = UserData.recv fd connId) :
    t.event ticketRx e = (CompleteThread.recvEvent fd e).map fun ev => (connId, ev) := by
  obtain ⟨hshutdown, htimeout, hremove⟩ := recv_ne hfits
  have hfd : UserData.fd (UserData.recv fd connId) = fd := UserData.fd_recv (Nat.lt_of_lt_of_le hfits.1 (by omega)) connId
  unfold CompleteThread.event
  rw [hud, if_neg, if_pos (UserData.isRecv_recv fd connId), hfd, UserData.connId_recv fd hfits.2]
  rintro (h | h | h)
  · exact hshutdown h
  · exact htimeout h
  · exact hremove h

/-- What a recv's completion makes the thread push, if it ends the recv without bytes. -/
theorem onRecv_stopped {connId fd : Nat} {e : Cqe} (hbuf : e.buffer = none) {ev : ConnEvent}
    (hev : CompleteThread.recvEvent fd e = some ev) :
    (t.onRecv connId fd e).2 = ((t.entry connId).on connId ev).2.map .result := by
  unfold CompleteThread.recvEvent at hev
  unfold CompleteThread.onRecv
  by_cases hneg : e.result < 0
  · rw [if_pos hneg] at hev
    cases hev
    rw [if_pos hneg]
    rfl
  · rw [if_neg hneg, hbuf] at hev
    dsimp only at hev
    split at hev
    next hzero =>
      cases hev
      rw [if_neg hneg]
      dsimp only
      rw [if_pos ⟨hzero, hbuf⟩]
      rfl
    next => cases hev

/-- The same for a completion that brings bytes. -/
theorem onRecv_received (connId fd : Nat) (piece : Bytes) (more : Bool) :
    (t.onRecv connId fd ⟨UserData.recv fd connId, piece.length, some piece, more⟩).2 =
      ((t.entry connId).on connId (.data fd piece)).2.map .result ++ if more then [] else [Msg.rearm ⟨connId, fd⟩] := by
  rw [CompleteThread.onRecv_data (Int.natCast_nonneg _) rfl (Nat.le_of_eq (Int.toNat_natCast _)), Int.toNat_natCast,
    List.take_length]
  rfl

theorem onSend_msgs {e : Cqe} {connId : Nat} {ev : ConnEvent} (h : t.sendEvent ticketRx e = some (connId, ev)) :
    (t.onSend ticketRx e).2 = ((t.entry connId).on connId ev).2.map .result := by
  unfold CompleteThread.sendEvent at h
  unfold CompleteThread.onSend
  dsimp only
  cases hk : ticketRx.foldl CompleteThread.insertTicket t.tickets e.userData with
  | none =>
      rw [hk] at h
      cases h
  | some ticket =>
      rw [hk] at h
      dsimp only at h
      split at h
      next => cases h
      next hneg =>
        cases h
        dsimp only
        unfold CompleteThread.onSendComplete
        rw [if_neg hneg]
        rfl

theorem reaps_stopped {fd connId : Nat} {result : Int} (hfits : RearmMsg.Fits ⟨connId, fd⟩) {ev : ConnEvent}
    (hev : (∃ errno, ev = .failed fd errno) ∨ ev = .eof fd)
    (hrecv : CompleteThread.recvEvent fd ⟨UserData.recv fd connId, result, none, false⟩ = some ev) :
    Reaps t ticketRx ⟨UserData.recv fd connId, result, none, false⟩
      (t.reap ticketRx ⟨UserData.recv fd connId, result, none, false⟩).1
      (t.reap ticketRx ⟨UserData.recv fd connId, result, none, false⟩).2.2 := by
  rw [CompleteThread.reap_recv rfl hfits.2 hfits.1]
  dsimp only
  rw [onRecv_stopped rfl hrecv]
  refine .stopped hfits hev ?_ (CompleteThread.onRecv_event hrecv).1
  rw [event_recv hfits rfl, hrecv]
  rfl

/-- **What the complete thread does** with a posted entry. -/
theorem reaps {e : Cqe} (h : e.Posted) : Reaps t ticketRx e (t.reap ticketRx e).1 (t.reap ticketRx e).2.2 := by
  cases h with
  | @written id hid result =>
      -- a send: its id is none of the reserved ones
      have hne : id ≠ SHUTDOWN_UD ∧ id ≠ TIMEOUT_UD ∧ id ≠ TIMEOUT_REMOVE_UD := by
        simp only [SHUTDOWN_UD, TIMEOUT_UD, TIMEOUT_REMOVE_UD]
        omega
      have hevent : t.event ticketRx ⟨id, result, none, false⟩ = t.sendEvent ticketRx ⟨id, result, none, false⟩ := by
        unfold CompleteThread.event
        rw [if_neg, if_neg]
        · dsimp only
          rw [UserData.isRecv_of_lt hid]
          exact Bool.false_ne_true
        · rintro (h | h | h)
          · exact hne.1 h
          · exact hne.2.1 h
          · exact hne.2.2 h
      rw [CompleteThread.reap_send hid]
      dsimp only
      cases hsend : t.sendEvent ticketRx ⟨id, result, none, false⟩ with
      | none =>
          obtain ⟨hconns, -, hmsgs⟩ := CompleteThread.onSend_none hsend
          rw [hmsgs]
          refine .idle (hevent.trans hsend) hne.2.1 (fun hrecv => ?_) fun connId => ?_
          · rw [show UserData.isRecv id = false from UserData.isRecv_of_lt hid] at hrecv
            cases hrecv
          · rw [CompleteThread.entry, CompleteThread.entry, hconns]
      | some ev =>
          obtain ⟨connId, ev⟩ := ev
          have hsent : ∃ requestId, ev = .sent requestId := by
            unfold CompleteThread.sendEvent at hsend
            split at hsend
            next => cases hsend
            next =>
              split at hsend
              next => cases hsend
              next =>
                cases hsend
                exact ⟨_, rfl⟩
          obtain ⟨requestId, rfl⟩ := hsent
          rw [onSend_msgs hsend]
          exact .sent hid (hevent.trans hsend) (CompleteThread.onSend_event hsend).1
  | @received fd connId hfits piece hpiece more =>
      -- a recv with bytes
      have htake : piece.take ((piece.length : Int)).toNat = piece := by
        rw [Int.toNat_natCast, List.take_length]
      have hrecv : CompleteThread.recvEvent fd ⟨UserData.recv fd connId, piece.length, some piece, more⟩ =
          some (.data fd piece) := by
        unfold CompleteThread.recvEvent
        rw [if_neg (Int.not_lt.mpr (Int.natCast_nonneg _))]
        dsimp only
        rw [if_neg (Nat.not_lt.mpr (Nat.le_of_eq (Int.toNat_natCast _))), htake]
      rw [CompleteThread.reap_recv rfl hfits.2 hfits.1]
      dsimp only
      rw [onRecv_received]
      refine .received hfits ?_ (CompleteThread.onRecv_event hrecv).1
      rw [event_recv hfits rfl, hrecv]
      rfl
  | @broken fd connId errno hfits herrno =>
      have hneg : -(errno : Int) < 0 := by omega
      exact reaps_stopped hfits (.inl ⟨_, rfl⟩) (if_pos hneg)
  | @ended fd connId hfits => exact reaps_stopped hfits (.inr rfl) rfl
  | timer result => exact .timeout rfl
  | removal result => exact .idle rfl (show TIMEOUT_REMOVE_UD ≠ TIMEOUT_UD by decide) (fun _ => rfl) fun _ => rfl

end

/-! ## The invariant -/

/-- Everything under way fits, when the entries `sq` have yet to be submitted. -/
structure Fitting (sq : List (Stamped Sqe)) (s : Driver) : Prop where
  sq : ∀ e ∈ sq, e.val.Fits
  ops : ∀ op ∈ s.ops, op.Fits
  cq : ∀ e ∈ s.cq, e.val.Posted
  outbox : ∀ m origin, ⟨.rearm m, origin⟩ ∈ s.outbox → m.Fits
  rearms : ∀ m ∈ s.rearms, m.val.Fits
  pending : ∀ m ∈ s.caller.pool.pendingRearms, m.val.Fits

theorem fitting_start (ring : Nat) : Fitting [] (Driver.start ring) where
  sq := nofun
  ops := nofun
  cq := nofun
  outbox := nofun
  rearms := nofun
  pending := nofun

/-- A message to re-arm that the complete thread pushes is for the recv whose completion it has reaped. -/
theorem Reaps.rearm {t t' : CompleteThread} {ticketRx : List SendTicket} {e : Cqe} {msgs : List Msg}
    (h : Reaps t ticketRx e t' msgs) {m : RearmMsg} (hm : .rearm m ∈ msgs) :
    e.userData = UserData.recv m.fd m.connId ∧ e.more = false ∧ (∃ piece, e.buffer = some piece) ∧ m.Fits := by
  have hresults : ∀ results : List ConnResult, .rearm m ∉ results.map Msg.result := by
    intro results hmem
    obtain ⟨r, -, hr⟩ := List.mem_map.mp hmem
    cases hr
  cases h with
  | idle => cases hm
  | timeout => cases List.mem_singleton.mp hm
  | sent => exact absurd hm (hresults _)
  | @received fd connId piece more _ hfits hevent htouched =>
      rcases List.mem_append.mp hm with hm | hm
      · exact absurd hm (hresults _)
      · cases more with
        | true => cases hm
        | false =>
            cases List.mem_singleton.mp hm
            exact ⟨rfl, rfl, ⟨piece, rfl⟩, hfits⟩
  | stopped => exact absurd hm (hresults _)

/-- A recv that has ended with the bytes it brought is to be armed again. -/
theorem rearm_pushed {t : CompleteThread} {ticketRx : List SendTicket} {e : Cqe} (h : e.Posted) {fd connId : Nat}
    (hfits : RearmMsg.Fits ⟨connId, fd⟩) (hud : e.userData = UserData.recv fd connId) (hmore : e.more = false)
    (hbuf : ∃ piece, e.buffer = some piece) : .rearm ⟨connId, fd⟩ ∈ (t.reap ticketRx e).2.2 := by
  obtain ⟨piece, hbuf⟩ := hbuf
  cases h with
  | @received fd' connId' hfits' piece' hpiece' more =>
      obtain rfl : more = false := hmore
      obtain ⟨rfl, rfl⟩ := recv_inj hfits' hfits hud
      rw [CompleteThread.reap_recv rfl hfits.2 hfits.1]
      dsimp only
      rw [onRecv_received]
      exact List.mem_append_right _ List.mem_cons_self
  | _ => cases hbuf

section

variable {sq : List (Stamped Sqe)} {s s' : Driver}

theorem Fitting.post (h : Fitting sq s) {e : Cqe} (he : e.Posted) (origin : Nat) : Fitting sq (s.post e origin) := by
  refine { h with cq := fun e' he' => ?_ }
  rcases List.mem_append.mp he' with he' | he'
  · exact h.cq e' he'
  · rw [List.mem_singleton.mp he']
    exact he

theorem Fitting.of_ops (h : Fitting sq s) {ops : List KernelOp} (hops : ∀ op ∈ ops, op.Fits)
    (accepted : Nat → List (Bytes × Nat)) (failed expired : List Nat) :
    Fitting sq { s with ops := ops, accepted := accepted, failed := failed, expired := expired } :=
  { h with ops := hops }

/-- **A step of the kernel or the complete thread.** -/
theorem Fitting.happened {a : Driver.Happening} (h : Fitting sq s) (hs : s.perform a = some s') : Fitting sq s' := by
  have hop : ∀ {front back op}, s.ops = front ++ op :: back → op.Fits := by
    intro front back op hops
    refine h.ops op ?_
    rw [hops]
    exact List.mem_append_right _ List.mem_cons_self
  have hrest : ∀ {front back op}, s.ops = front ++ op :: back → ∀ op' ∈ front ++ back, op'.Fits :=
    fun hops op' hop' => h.ops op' (Driver.mem_of_mem_front_back hops hop')
  cases Driver.happened hs with
  | @written front back id buf socket result hops hle =>
      exact (h.of_ops (hrest hops) _ s.failed s.expired).post (.written (hop hops) result) socket
  | @received front back fd connId socket piece more hops hpiece =>
      refine (h.of_ops ?_ s.accepted s.failed s.expired).post (.received (hop hops) hpiece more) socket
      split
      · exact h.ops
      · exact hrest hops
  | @broken front back fd connId socket errno hops herrno =>
      exact (h.of_ops (hrest hops) s.accepted _ s.expired).post (.broken (hop hops) herrno) socket
  | @ended front back fd connId socket hops =>
      exact (h.of_ops (hrest hops) s.accepted _ s.expired).post (.ended (hop hops)) socket
  | @expired front back call hops => exact (h.of_ops (hrest hops) s.accepted s.failed _).post (.timer _) call
  | @reaped e rest hcq hrunning houtbox =>
      refine { h with cq := fun e' he' => h.cq e' (hcq ▸ List.mem_cons_of_mem _ he'), outbox := fun m origin hm => ?_ }
      obtain ⟨msg, hmsg, heq⟩ := List.mem_map.mp hm
      cases heq
      exact ((reaps (h.cq e (hcq ▸ List.mem_cons_self))).rearm hmsg).2.2.2
  | delivered houtbox =>
      exact { h with outbox := fun m origin hm => h.outbox m origin (houtbox ▸ List.mem_cons_of_mem _ hm) }
  | @rearmDelivered m origin rest houtbox =>
      refine { h with outbox := fun m origin hm => h.outbox m origin (houtbox ▸ List.mem_cons_of_mem _ hm), rearms := ?_ }
      intro m' hm'
      rcases List.mem_append.mp hm' with hm' | hm'
      · exact h.rearms m' hm'
      · rw [List.mem_singleton.mp hm']
        exact h.outbox m origin (houtbox ▸ List.mem_cons_self)

/-- An entry is submitted. -/
theorem Fitting.submitted {e : Stamped Sqe} {rest : List (Stamped Sqe)} (h : Fitting (e :: rest) s)
    (hs : Driver.Submitted s e s') : Fitting rest s' := by
  have hfits := h.sq e List.mem_cons_self
  have hrest : Fitting rest s := { h with sq := fun e' he' => h.sq e' (List.mem_cons_of_mem _ he') }
  have hadd : ∀ op : KernelOp, op.Fits → Fitting rest { s with ops := s.ops ++ [op] } := by
    intro op hop
    refine { hrest with ops := fun op' hop' => ?_ }
    rcases List.mem_append.mp hop' with hop' | hop'
    · exact h.ops op' hop'
    · rw [List.mem_singleton.mp hop']
      exact hop
  cases hs with
  | write hfd => exact hadd _ hfits
  | writeClosed hfd => exact hrest.post (.written hfits _) _
  | recv hfd => exact hadd _ hfits
  | recvClosed hfd => exact (hrest.of_ops h.ops s.accepted _ s.expired).post (.broken hfits (by decide)) _
  | timeout => exact hadd _ trivial
  | removed hcall =>
      refine Fitting.post (Fitting.post ?_ (.timer _) _) (.removal _) _
      exact hrest.of_ops (fun op hop => h.ops op (List.mem_of_mem_erase hop)) s.accepted s.failed s.expired
  | noTimer hnone => exact hrest.post (.removal _) _

/-- The caller's side changes, and no message is added. -/
theorem Fitting.onCaller (h : Fitting sq s) {sq' : List (Stamped Sqe)} {c : Caller} (hsq : ∀ e ∈ sq', e ∈ sq ∨ e.val.Fits)
    (hpending : ∀ m ∈ c.pool.pendingRearms, m ∈ s.caller.pool.pendingRearms) : Fitting sq' { s with caller := c } :=
  { h with
    sq := fun e he => (hsq e he).elim (h.sq e) id
    pending := fun m hm => h.pending m (hpending m hm) }

/-- No new message waits after a quiet operation. -/
theorem Caller.ConnMove.pending {c c' : Caller} {op : PoolOp} (h : c.ConnMove op c') :
    ∀ m ∈ c'.pool.pendingRearms, m ∈ c.pool.pendingRearms := by
  cases h with
  | same hsame =>
      rw [hsame.pendingRearms]
      exact fun _ hm => hm
  | bind => exact fun _ hm => hm
  | drop hop ho hsame =>
      rw [hsame.pendingRearms]
      exact fun _ hm => hm
  | arm => exact fun _ hm => hm
  | rearmed hpending =>
      rw [hpending]
      exact fun _ hm => List.mem_cons_of_mem _ hm
  | accepted => exact fun _ hm => hm

/-- **An operation of the pool.** -/
theorem Fitting.acted {op : PoolOp} {r : op.Ret} (h : Fitting s.caller.sq s) (hsound : s.caller.Sound)
    (hprotocol : Protocol s.caller op) (hs : s.Answers op r s') : Fitting s'.caller.sq s' := by
  cases Driver.acted hs with
  | quiet hquiet hs hc =>
      rw [hs.shared]
      refine h.onCaller (fun e he => .inl ?_) (Caller.connMove hquiet hprotocol hc).pending
      rw [← hs.sq]
      exact he
  | idle => exact h
  | refused | noRearm => exact { h with }
  | pushed sqe =>
      have hfits : sqe.Fits := by
        cases sqe with
        | write id fd buf => exact hprotocol.elim
        | recvMultishot fd connId =>
            obtain ⟨cc, hlive, rfl⟩ := hprotocol
            exact ⟨hsound.fd_lt _ _ (hsound.bound connId cc hlive), hsound.connId_lt connId cc hlive.1⟩
        | timeout => trivial
        | timeoutRemove => trivial
      refine h.onCaller (fun e he => ?_) fun m hm => (s.caller.pushed_conns sqe).pendingRearms ▸ hm
      rw [Caller.pushed_sq] at he
      refine (List.mem_append.mp he).imp_right fun he => ?_
      rw [List.mem_singleton.mp he]
      exact hfits
  | rearmPushed m =>
      have hm : m ∈ s.caller.pool.pendingRearms := List.mem_of_mem_head? hprotocol
      refine h.onCaller (fun e he => (List.mem_append.mp he).imp_right fun he => ?_) fun _ hm => hm
      rw [List.mem_singleton.mp he]
      exact h.pending m hm
  | sendPushed fd buf connId requestId hlt =>
      refine h.onCaller (fun e he => (List.mem_append.mp he).imp_right fun he => ?_) fun _ hm => hm
      rw [List.mem_singleton.mp he]
      exact hlt
  | submitted =>
      obtain ⟨hall, hcaller⟩ := Driver.submitAll (J := Fitting) (fun hs _ h => Fitting.submitted h hs) h
      refine hall.onCaller (fun e he => .inl he) fun m hm => ?_
      rw [hcaller]
      exact hm
  | ticket k => exact { h with }
  | polled hresponses => exact { h with }
  | popped hresponses => exact { h with }
  | @rearm m rest hrearms =>
      refine { h with rearms := fun m' hm' => h.rearms m' (hrearms ▸ List.mem_cons_of_mem _ hm'), pending := ?_ }
      intro m' hm'
      rcases List.mem_append.mp hm' with hm' | hm'
      · exact h.pending m' hm'
      · rw [List.mem_singleton.mp hm']
        exact h.rearms m (hrearms ▸ List.mem_cons_self)

end

end Xibalba.Iouring
