import Xibalba.Iouring.Correctness.Protocol

/-!
# `Iouring.Correctness.Steps` — what a step of the driver can do

`Happened` lists the steps of the kernel and of the complete thread, `Shared` those of the pool that touch what it
shares with them, and `Submitted` what the kernel makes of an entry of the submission queue. The invariants of the
driver are proved over these.
-/

namespace Xibalba.Iouring

namespace Driver

/-! ## The kernel and the complete thread -/

/-- What a step of the kernel or of the complete thread can do. -/
inductive Happened (s : Driver) : Happening → Driver → Prop where
  | written {front back : List KernelOp} {id : Nat} {buf : Bytes} {socket : Nat} {result : Int}
      (hops : s.ops = front ++ .write id buf socket :: back) (hle : result ≤ buf.length) :
      Happened s (.written front.length result)
        ({ s with ops := front ++ back, accepted := s.accept socket buf result }.post ⟨id, result, none, false⟩ socket)
  | received {front back : List KernelOp} {fd connId socket : Nat} {piece : Bytes} (more : Bool)
      (hops : s.ops = front ++ .recv fd connId socket :: back) (hpiece : piece ≠ []) :
      Happened s (.received front.length piece more)
        ({ s with ops := if more then s.ops else front ++ back }.post
          ⟨UserData.recv fd connId, piece.length, some piece, more⟩ socket)
  | broken {front back : List KernelOp} {fd connId socket errno : Nat}
      (hops : s.ops = front ++ .recv fd connId socket :: back) (herrno : errno ≠ 0) :
      Happened s (.broken front.length errno)
        ({ s with ops := front ++ back, failed := socket :: s.failed }.post
          ⟨UserData.recv fd connId, -errno, none, false⟩ socket)
  | ended {front back : List KernelOp} {fd connId socket : Nat}
      (hops : s.ops = front ++ .recv fd connId socket :: back) :
      Happened s (.ended front.length)
        ({ s with ops := front ++ back, failed := socket :: s.failed }.post
          ⟨UserData.recv fd connId, 0, none, false⟩ socket)
  | expired {front back : List KernelOp} {call : Nat} (hops : s.ops = front ++ .timer call :: back) :
      Happened s (.expired front.length)
        ({ s with ops := front ++ back, expired := call :: s.expired }.post ⟨TIMEOUT_UD, -ETIME, none, false⟩ call)
  | reaped {e : Stamped Cqe} {rest : List (Stamped Cqe)} (hcq : s.cq = e :: rest) (hrunning : s.thread.running = true)
      (houtbox : s.outbox = []) : Happened s .reap (s.reaped e rest)
  | delivered {r : ConnResult} {origin : Nat} {rest : List (Stamped Msg)} (houtbox : s.outbox = ⟨.result r, origin⟩ :: rest) :
      Happened s .deliver { s with
        outbox := rest, responses := s.responses ++ [⟨r, origin⟩], finished := s.finishedBy s.working rest }
  | rearmDelivered {m : RearmMsg} {origin : Nat} {rest : List (Stamped Msg)}
      (houtbox : s.outbox = ⟨.rearm m, origin⟩ :: rest) :
      Happened s .deliver { s with
        outbox := rest, rearms := s.rearms ++ [⟨m, origin⟩], finished := s.finishedBy s.working rest }

/-- An operation at a known place splits the list there. -/
theorem split_at {ops : List KernelOp} {i : Nat} {op : KernelOp} (h : ops[i]? = some op) :
    ∃ front back, ops = front ++ op :: back ∧ front.length = i ∧ ops.eraseIdx i = front ++ back := by
  obtain ⟨hlt, rfl⟩ := List.getElem?_eq_some_iff.mp h
  refine ⟨ops.take i, ops.drop (i + 1), ?_, ?_, List.eraseIdx_eq_take_drop_succ ops i⟩
  · rw [← List.drop_eq_getElem_cons hlt, List.take_append_drop]
  · rw [List.length_take]
    omega

theorem mem_of_mem_front_back {front back : List KernelOp} {op op' : KernelOp} {ops : List KernelOp}
    (hops : ops = front ++ op :: back) (h : op' ∈ front ++ back) : op' ∈ ops := by
  rw [hops]
  rcases List.mem_append.mp h with h | h
  · exact List.mem_append_left _ h
  · exact List.mem_append_right _ (List.mem_cons_of_mem _ h)

/-- A place in a list that was added to at the end is the new one, or one of before. -/
theorem split_concat {α : Type} {l front back : List α} {x y : α} (h : l ++ [x] = front ++ y :: back) :
    (back = [] ∧ y = x) ∨ ∃ back', back = back' ++ [x] ∧ l = front ++ y :: back' := by
  rcases List.eq_nil_or_concat back with rfl | ⟨back', z, rfl⟩
  · exact .inl ⟨rfl, (List.singleton_inj.mp (List.append_inj_right' h rfl)).symm⟩
  · have heq : l ++ [x] = (front ++ y :: back') ++ [z] := by
      rw [h, List.concat_eq_append, List.append_assoc]
      rfl
    refine .inr ⟨back', ?_, List.append_inj_left' heq rfl⟩
    rw [List.concat_eq_append, List.singleton_inj.mp (List.append_inj_right' heq rfl)]

/-- What was there is the operation taken out, or is there still. -/
theorem eq_or_mem_front_back {front back : List KernelOp} {op op' : KernelOp} {ops : List KernelOp}
    (hops : ops = front ++ op :: back) (h : op' ∈ ops) : op' = op ∨ op' ∈ front ++ back := by
  rw [hops] at h
  rcases List.mem_append.mp h with h | h
  · exact .inr (List.mem_append_left _ h)
  · rcases List.mem_cons.mp h with h | h
    · exact .inl h
    · exact .inr (List.mem_append_right _ h)

/-- **Every step of the kernel and of the complete thread** is one of these. -/
theorem happened {s s' : Driver} {a : Happening} (h : s.perform a = some s') : Happened s a s' := by
  unfold perform at h
  cases a with
  | written i result =>
      dsimp only at h
      split at h
      next id buf socket hop =>
        -- the operation that completes stands between `front` and `back`
        obtain ⟨front, back, hops, rfl, herase⟩ := split_at hop
        split at h
        next hle =>
          cases h
          rw [herase]
          exact .written hops hle
        next => cases h
      next => cases h
  | received i piece more =>
      dsimp only at h
      split at h
      next fd connId socket hop =>
        obtain ⟨front, back, hops, rfl, herase⟩ := split_at hop
        split at h
        next => cases h
        next hpiece =>
          cases h
          rw [herase]
          exact .received more hops hpiece
      next => cases h
  | broken i errno =>
      dsimp only at h
      split at h
      next fd connId socket hop =>
        obtain ⟨front, back, hops, rfl, herase⟩ := split_at hop
        split at h
        next => cases h
        next herrno =>
          cases h
          rw [herase]
          exact .broken hops herrno
      next => cases h
  | ended i =>
      dsimp only at h
      split at h
      next fd connId socket hop =>
        obtain ⟨front, back, hops, rfl, herase⟩ := split_at hop
        cases h
        rw [herase]
        exact .ended hops
      next => cases h
  | expired i =>
      dsimp only at h
      split at h
      next call hop =>
        obtain ⟨front, back, hops, rfl, herase⟩ := split_at hop
        cases h
        rw [herase]
        exact .expired hops
      next => cases h
  | reap =>
      dsimp only at h
      split at h
      next e rest hcq =>
        split at h
        next hgo =>
          cases h
          exact .reaped hcq hgo.1 hgo.2
        next => cases h
      next => cases h
  | deliver =>
      dsimp only at h
      split at h
      next r origin rest houtbox =>
        split at h
        next =>
          cases h
          exact .delivered houtbox
        next => cases h
      next m origin rest houtbox =>
        split at h
        next =>
          cases h
          exact .rearmDelivered houtbox
        next => cases h
      next => cases h

/-! ## Submitting -/

/-- What the kernel can make of an entry of the submission queue. -/
inductive Submitted (s : Driver) : Stamped Sqe → Driver → Prop where
  | write {id fd socket origin : Nat} {buf : Bytes} (hfd : s.caller.sockets fd = some socket) :
      Submitted s ⟨.write id fd buf, origin⟩ { s with ops := s.ops ++ [.write id buf socket] }
  | writeClosed {id fd origin : Nat} {buf : Bytes} (hfd : s.caller.sockets fd = none) :
      Submitted s ⟨.write id fd buf, origin⟩ (s.post ⟨id, -EBADF, none, false⟩ origin)
  | recv {fd connId socket origin : Nat} (hfd : s.caller.sockets fd = some socket) :
      Submitted s ⟨.recvMultishot fd connId, origin⟩ { s with ops := s.ops ++ [.recv fd connId socket] }
  | recvClosed {fd connId origin : Nat} (hfd : s.caller.sockets fd = none) :
      Submitted s ⟨.recvMultishot fd connId, origin⟩
        ({ s with failed := origin :: s.failed }.post ⟨UserData.recv fd connId, -EBADF, none, false⟩ origin)
  | timeout {origin : Nat} : Submitted s ⟨.timeout, origin⟩ { s with ops := s.ops ++ [.timer origin] }
  | removed {origin call : Nat} (hcall : .timer call ∈ s.ops) :
      Submitted s ⟨.timeoutRemove, origin⟩
        (({ s with ops := s.ops.erase (.timer call) }.post ⟨TIMEOUT_UD, -ECANCELED, none, false⟩ call).post
          ⟨TIMEOUT_REMOVE_UD, 0, none, false⟩ origin)
  | noTimer {origin : Nat} (hnone : ∀ call, .timer call ∉ s.ops) :
      Submitted s ⟨.timeoutRemove, origin⟩ (s.post ⟨TIMEOUT_REMOVE_UD, -ENOENT, none, false⟩ origin)

theorem firstTimer_some {ops : List KernelOp} {call : Nat} (h : firstTimer ops = some call) : .timer call ∈ ops := by
  induction ops with
  | nil => cases h
  | cons op ops ih =>
      cases op with
      | timer call' =>
          cases h
          exact List.mem_cons_self
      | write id buf socket => exact List.mem_cons_of_mem _ (ih h)
      | recv fd connId socket => exact List.mem_cons_of_mem _ (ih h)

theorem firstTimer_none {ops : List KernelOp} (h : firstTimer ops = none) (call : Nat) : .timer call ∉ ops := by
  induction ops with
  | nil => exact List.not_mem_nil
  | cons op ops ih =>
      cases op with
      | timer call' => cases h
      | write id buf socket =>
          intro hmem
          rcases List.mem_cons.mp hmem with heq | hmem
          · cases heq
          · exact ih h hmem
      | recv fd connId socket =>
          intro hmem
          rcases List.mem_cons.mp hmem with heq | hmem
          · cases heq
          · exact ih h hmem

/-- **Every entry that is submitted** becomes one of these. -/
theorem submitted (s : Driver) (e : Stamped Sqe) : Submitted s e (s.submitOne e) := by
  obtain ⟨sqe, origin⟩ := e
  unfold submitOne
  cases sqe with
  | write id fd buf =>
      dsimp only
      split
      next socket hfd => exact .write hfd
      next hfd => exact .writeClosed hfd
  | recvMultishot fd connId =>
      dsimp only
      split
      next socket hfd => exact .recv hfd
      next hfd => exact .recvClosed hfd
  | timeout => exact .timeout
  | timeoutRemove =>
      dsimp only
      split
      next call hcall => exact .removed (firstTimer_some hcall)
      next hnone => exact .noTimer (firstTimer_none hnone)

/-- **Submitting a queue** preserves what submitting one entry does. `J` is given the entries still to be submitted. -/
theorem submitAll {J : List (Stamped Sqe) → Driver → Prop}
    (hstep : ∀ {s s' e rest}, Submitted s e s' → s'.caller = s.caller → J (e :: rest) s → J rest s')
    {sq : List (Stamped Sqe)} {s : Driver} (h : J sq s) :
    J [] (sq.foldl submitOne s) ∧ (sq.foldl submitOne s).caller = s.caller := by
  induction sq generalizing s with
  | nil => exact ⟨h, rfl⟩
  | cons e rest ih =>
      have hsubmitted := submitted s e
      have hcaller : (s.submitOne e).caller = s.caller := by
        generalize s.submitOne e = s' at hsubmitted
        cases hsubmitted with
        | write => rfl
        | writeClosed => rfl
        | recv => rfl
        | recvClosed => rfl
        | timeout => rfl
        | removed => rfl
        | noTimer => rfl
      obtain ⟨hall, heq⟩ := ih (hstep hsubmitted hcaller h)
      exact ⟨hall, heq.trans hcaller⟩

/-! ## The pool -/

/-- The operations that touch neither the submission queue nor what is shared. -/
def quiet : PoolOp → Bool
  | .push _ | .pushRearm _ | .pushSend _ _ _ _ | .submit | .pushTicket _ | .popResponse | .popBlock | .popRearm => false
  | _ => true

/-- What a quiet operation leaves as it is. -/
structure Quiet (s s' : Driver) : Prop where
  shared : s' = { s with caller := s'.caller }
  sq : s'.caller.sq = s.caller.sq
  sends : s'.caller.sends = s.caller.sends
  nextSend : s'.caller.nextSend = s.caller.nextSend
  submitted : s'.caller.submitted = s.caller.submitted

/-- Only the caller's side changes, and not the part of it that is listed. -/
theorem quiet_of {s : Driver} {c : Caller} (hsq : c.sq = s.caller.sq) (hsends : c.sends = s.caller.sends)
    (hnext : c.nextSend = s.caller.nextSend) (hsubmitted : c.submitted = s.caller.submitted) :
    Quiet s { s with caller := c } := ⟨rfl, hsq, hsends, hnext, hsubmitted⟩

/-- An operation that shares nothing leaves the kernel and the complete thread alone. -/
theorem answers_quiet {s s' : Driver} {op : PoolOp} {r : op.Ret} (hquiet : quiet op = true) (h : s.Answers op r s') :
    Quiet s s' := by
  obtain ⟨c, s₁, hc, hshare, rfl⟩ := h
  -- the operations on what is shared are not quiet; the others touch only the caller's side
  cases op with
  | push sqe => cases hquiet
  | pushRearm m => cases hquiet
  | pushSend fd buf connId requestId => cases hquiet
  | submit => cases hquiet
  | pushTicket k => cases hquiet
  | popResponse => cases hquiet
  | popBlock => cases hquiet
  | popRearm => cases hquiet
  | self =>
      cases hshare
      obtain ⟨-, rfl⟩ := hc
      exact quiet_of rfl rfl rfl rfl
  | resolve host port =>
      cases hshare
      obtain rfl := show c = _ from hc
      exact quiet_of rfl rfl rfl rfl
  | blockingConnect addr =>
      cases hshare
      cases r with
      | none =>
          obtain rfl := show c = _ from hc
          exact quiet_of rfl rfl rfl rfl
      | some fd =>
          obtain ⟨-, -, rfl⟩ := hc
          exact quiet_of rfl rfl rfl rfl
  | close fd =>
      cases hshare
      obtain rfl := show c = _ from hc
      exact quiet_of rfl rfl rfl rfl
  | allocConnId =>
      cases hshare
      obtain ⟨-, rfl⟩ := hc
      exact quiet_of rfl rfl rfl rfl
  | insertConn connId fd url =>
      cases hshare
      obtain rfl := show c = _ from hc
      exact quiet_of rfl rfl rfl rfl
  | removeConn connId =>
      cases hshare
      obtain ⟨-, rfl⟩ := hc
      exact quiet_of rfl rfl rfl rfl
  | freeConnId connId =>
      cases hshare
      obtain rfl := show c = _ from hc
      exact quiet_of rfl rfl rfl rfl
  | rebind connId fd =>
      cases hshare
      obtain rfl := show c = _ from hc
      exact quiet_of rfl rfl rfl rfl
  | unbind connId origin =>
      cases hshare
      obtain rfl : c = s.caller.unbound connId := hc
      unfold Caller.unbound
      split
      · exact quiet_of rfl rfl rfl rfl
      · exact quiet_of rfl rfl rfl rfl
  | arm connId =>
      cases hshare
      obtain rfl := show c = _ from hc
      exact quiet_of rfl rfl rfl rfl
  | rearmed =>
      cases hshare
      have hc : s.caller.rearmedOne = some c := hc
      unfold Caller.rearmedOne at hc
      split at hc
      · cases hc
      · cases hc
        exact quiet_of rfl rfl rfl rfl
  | takeRequestId =>
      cases hshare
      obtain ⟨-, rfl⟩ := hc
      exact quiet_of rfl rfl rfl rfl
  | stash r =>
      cases hshare
      obtain rfl := show c = _ from hc
      exact quiet_of rfl rfl rfl rfl
  | unstash id =>
      cases hshare
      obtain ⟨-, rfl⟩ := hc
      exact quiet_of rfl rfl rfl rfl
  | call call =>
      cases hshare
      obtain rfl := show c = _ from hc
      exact quiet_of rfl rfl rfl rfl
  | returned r =>
      cases hshare
      obtain rfl := show c = _ from hc
      exact quiet_of rfl rfl rfl rfl
  | accepted requestId connId =>
      cases hshare
      obtain rfl := show c = _ from hc
      exact quiet_of rfl rfl rfl rfl

/-- What an operation of the pool can do. -/
inductive Acted (s : Driver) : (op : PoolOp) → op.Ret → Driver → Prop where
  | quiet {op : PoolOp} {r : op.Ret} {s' : Driver} (hquiet : quiet op = true) (hs : Quiet s s')
      (hc : s.caller.Answers op r s'.caller) : Acted s op r s'
  | idle {op : PoolOp} (r : op.Ret) : Acted s op r s
  | refused (m : Stamped RearmMsg) (e : String) :
      Acted s (.pushRearm m) (.error e) { s with caller := s.caller.rearmRefused }
  | pushed (sqe : Sqe) : Acted s (.push sqe) (.ok ()) { s with caller := s.caller.pushed sqe }
  | rearmPushed (m : Stamped RearmMsg) :
      Acted s (.pushRearm m) (.ok ())
        { s with caller := s.caller.pushSqe (.recvMultishot m.val.fd m.val.connId) m.origin }
  | sendPushed (fd : Nat) (buf : Bytes) (connId : Nat) (requestId : RequestId) (hlt : s.caller.nextSend < 2 ^ 63) :
      Acted s (.pushSend fd buf connId requestId) (.ok s.caller.nextSend)
        { s with caller := s.caller.sendPushed fd buf connId requestId }
  | submitted : Acted s .submit (.ok ()) { s.caller.sq.foldl submitOne s with caller := s.caller.submittedAll }
  | ticket (k : SendTicket) : Acted s (.pushTicket k) true { s with ticketRx := s.ticketRx ++ [k] }
  | polled {r : Stamped ConnResult} {rest : List (Stamped ConnResult)} (hresponses : s.responses = r :: rest) :
      Acted s .popResponse (some r) { s with responses := rest, caller := s.caller.popped r }
  | popped {r : Stamped ConnResult} {rest : List (Stamped ConnResult)} (hresponses : s.responses = r :: rest) :
      Acted s .popBlock (some r) { s with responses := rest, caller := s.caller.popped r }
  | rearm {m : Stamped RearmMsg} {rest : List (Stamped RearmMsg)} (hrearms : s.rearms = m :: rest) :
      Acted s .popRearm (some m)
        { s with
          rearms := rest
          caller := s.caller.onPool fun p => { p with pendingRearms := p.pendingRearms ++ [m] } }
  | noRearm (hrearms : s.rearms = []) : Acted s .popRearm none { s with caller := s.caller.foundEmpty }

theorem head_tail {α : Type} {l : List α} {a : α} (h : l.head? = some a) : l = a :: l.tail := by
  cases l with
  | nil => cases h
  | cons b l =>
      cases h
      rfl

section

variable {s s' : Driver}

theorem acted_push {sqe : Sqe} {r : (PoolOp.push sqe).Ret} (h : s.Answers (.push sqe) r s') : Acted s (.push sqe) r s' := by
  obtain ⟨c, s₁, hc, hshare, rfl⟩ := h
  cases hshare
  cases r with
  | error e =>
      obtain ⟨-, rfl⟩ := hc
      exact .idle _
  | ok u =>
      obtain ⟨-, rfl⟩ := hc
      exact .pushed sqe

theorem acted_pushRearm {m : Stamped RearmMsg} {r : (PoolOp.pushRearm m).Ret} (h : s.Answers (.pushRearm m) r s') :
    Acted s (.pushRearm m) r s' := by
  obtain ⟨c, s₁, hc, hshare, rfl⟩ := h
  cases hshare
  cases r with
  | error e =>
      obtain ⟨-, rfl⟩ := hc
      exact .refused m e
  | ok u =>
      obtain ⟨-, rfl⟩ := hc
      exact .rearmPushed m

theorem acted_pushSend {fd connId : Nat} {buf : Bytes} {requestId : RequestId}
    {r : (PoolOp.pushSend fd buf connId requestId).Ret} (h : s.Answers (.pushSend fd buf connId requestId) r s') :
    Acted s (.pushSend fd buf connId requestId) r s' := by
  obtain ⟨c, s₁, hc, hshare, rfl⟩ := h
  cases hshare
  cases r with
  | error e =>
      obtain ⟨-, rfl⟩ := hc
      exact .idle _
  | ok id =>
      obtain ⟨-, rfl, hlt, rfl⟩ := hc
      exact .sendPushed fd buf connId requestId hlt

theorem acted_submit {r : PoolOp.submit.Ret} (h : s.Answers .submit r s') : Acted s .submit r s' := by
  obtain ⟨c, s₁, hc, hshare, rfl⟩ := h
  cases r with
  | error e =>
      cases hshare
      obtain rfl : c = s.caller := hc
      exact .idle _
  | ok u =>
      cases hshare
      obtain rfl : c = s.caller.submittedAll := hc
      exact .submitted

theorem acted_pushTicket {k : SendTicket} {r : (PoolOp.pushTicket k).Ret} (h : s.Answers (.pushTicket k) r s') :
    Acted s (.pushTicket k) r s' := by
  obtain ⟨c, s₁, hc, hshare, rfl⟩ := h
  obtain rfl : c = s.caller := hc
  unfold share at hshare
  cases r with
  | true =>
      dsimp only at hshare
      split at hshare
      · cases hshare
        exact .ticket k
      · cases hshare
  | false =>
      dsimp only at hshare
      split at hshare
      · cases hshare
      · cases hshare
        exact .idle _

theorem acted_popResponse {r : PoolOp.popResponse.Ret} (h : s.Answers .popResponse r s') : Acted s .popResponse r s' := by
  obtain ⟨c, s₁, hc, hshare, rfl⟩ := h
  unfold share at hshare
  cases r with
  | none =>
      obtain rfl : c = s.caller := hc
      dsimp only at hshare
      split at hshare
      · cases hshare
        exact .idle _
      · cases hshare
  | some r =>
      obtain rfl : c = s.caller.popped r := hc
      dsimp only at hshare
      split at hshare
      next hhead =>
        cases hshare
        exact .polled (head_tail hhead)
      next => cases hshare

theorem acted_popBlock {r : PoolOp.popBlock.Ret} (h : s.Answers .popBlock r s') : Acted s .popBlock r s' := by
  obtain ⟨c, s₁, hc, hshare, rfl⟩ := h
  unfold share at hshare
  cases r with
  | none =>
      obtain rfl : c = s.caller := hc
      dsimp only at hshare
      split at hshare
      · cases hshare
        exact .idle _
      · cases hshare
  | some r =>
      obtain rfl : c = s.caller.popped r := hc
      dsimp only at hshare
      split at hshare
      next hhead =>
        cases hshare
        exact .popped (head_tail hhead)
      next => cases hshare

theorem acted_popRearm {r : PoolOp.popRearm.Ret} (h : s.Answers .popRearm r s') : Acted s .popRearm r s' := by
  obtain ⟨c, s₁, hc, hshare, rfl⟩ := h
  unfold share at hshare
  cases r with
  | none =>
      obtain rfl : c = s.caller.foundEmpty := hc
      dsimp only at hshare
      split at hshare
      next hrearms =>
        cases hshare
        exact .noRearm hrearms
      next => cases hshare
  | some m =>
      obtain rfl := show c = _ from hc
      dsimp only at hshare
      split at hshare
      next hhead =>
        cases hshare
        exact .rearm (head_tail hhead)
      next => cases hshare

/-- **Every operation of the pool** is one of these. -/
theorem acted {op : PoolOp} {r : op.Ret} (h : s.Answers op r s') : Acted s op r s' := by
  cases hquiet : quiet op with
  | true =>
      have hs := answers_quiet hquiet h
      obtain ⟨c, s₁, hc, -, rfl⟩ := h
      exact .quiet hquiet hs hc
  | false =>
      cases op with
      | push sqe => exact acted_push h
      | pushRearm m => exact acted_pushRearm h
      | pushSend fd buf connId requestId => exact acted_pushSend h
      | submit => exact acted_submit h
      | pushTicket k => exact acted_pushTicket h
      | popResponse => exact acted_popResponse h
      | popBlock => exact acted_popBlock h
      | popRearm => exact acted_popRearm h
      | _ => cases hquiet

end

end Driver

/-! ## The caller's side -/

namespace Pool

@[simp] theorem modifyConn_stash (p : Pool) (connId : Nat) (f : CallerConn → CallerConn) :
    (p.modifyConn connId f).stash = p.stash := by
  unfold modifyConn
  split
  · rfl
  · rfl

theorem modifyConn_some {p : Pool} {connId : Nat} {cc : CallerConn} (h : p.conns connId = some cc)
    (f : CallerConn → CallerConn) : p.modifyConn connId f = p.setConn connId (some (f cc)) := by
  unfold modifyConn
  rw [h]

end Pool

namespace Caller

theorem onPool_congr {c : Caller} {f : Pool → Pool} {p : Pool} (h : f c.pool = p) : c.onPool f = c.onPool fun _ => p := by
  unfold onPool
  rw [h]

/-- The connections and what waits for them are as before. -/
structure SameConns (c c' : Caller) : Prop where
  conns : c'.pool.conns = c.pool.conns
  pendingRearms : c'.pool.pendingRearms = c.pool.pendingRearms
  last : c'.last = c.last
  requested : c'.requested = c.requested

theorem pushed_sq (c : Caller) (sqe : Sqe) : (c.pushed sqe).sq = c.sq ++ [⟨sqe, c.stamp sqe⟩] := by
  cases sqe with
  | write id fd buf => rfl
  | recvMultishot fd connId => rfl
  | timeout => rfl
  | timeoutRemove => rfl

/-- Pushing an entry changes no connection. -/
theorem pushed_conns (c : Caller) (sqe : Sqe) : SameConns c (c.pushed sqe) := by
  cases sqe with
  | write id fd buf => exact ⟨rfl, rfl, rfl, rfl⟩
  | recvMultishot fd connId => exact ⟨rfl, rfl, rfl, rfl⟩
  | timeout => exact ⟨rfl, rfl, rfl, rfl⟩
  | timeoutRemove => exact ⟨rfl, rfl, rfl, rfl⟩

/-- What a quiet operation can do to the connections. -/
inductive ConnMove (c : Caller) : PoolOp → Caller → Prop where
  | same {op : PoolOp} {c' : Caller} (hsame : SameConns c c') (htaken : c'.taken = c.taken) : ConnMove c op c'
  | bind {op : PoolOp} {connId fd : Nat} {cc : CallerConn} (hop : (∃ url, op = .insertConn connId fd url) ∨ op = .rebind connId fd)
      (hfresh : c.Fresh fd) (hfd : cc.fd = fd) (harmed : cc.recvArmed = false) :
      ConnMove c op ((c.bound connId fd).onPool fun p => p.setConn connId (some cc))
  | drop {op : PoolOp} {connId : Nat} {o : Option CallerConn} {c' : Caller}
      (hop : op = .removeConn connId ∨ ∃ origin, op = .unbind connId origin)
      (ho : ∀ cc, o = some cc → cc.needsReconnect = true)
      (hsame : SameConns (c.onPool fun p => p.setConn connId o) c') (htaken : c'.taken = c.taken) : ConnMove c op c'
  | arm {connId : Nat} {cc : CallerConn} (hlive : c.Live connId cc) (hqueues : c.Queues cc.fd connId) :
      ConnMove c (.arm connId) (c.onPool fun p => p.setConn connId (some { cc with recvArmed := true }))
  | rearmed {m : Stamped RearmMsg} {c' : Caller} (hpending : c.pool.pendingRearms = m :: c'.pool.pendingRearms)
      (hqueues : c.Queues m.val.fd m.val.connId)
      (hconns : c'.pool.conns = Function.update c.pool.conns m.val.connId
        ((c.pool.conns m.val.connId).map fun cc => { cc with recvArmed := true }))
      (hlast : c'.last = c.last) (htaken : c'.taken = c.taken) (hrequested : c'.requested = c.requested) :
      ConnMove c .rearmed c'
  | accepted {requestId : RequestId} {connId : Nat} {cc : CallerConn} (hlive : c.Live connId cc)
      (harmed : cc.recvArmed = true) :
      ConnMove c (.accepted requestId connId) (c.returnedId requestId connId)

/-- **Every operation** moves the connections in one of these ways. -/
theorem connMove {c c' : Caller} {op : PoolOp} {r : op.Ret} (hquiet : Driver.quiet op = true) (hprotocol : Protocol c op)
    (h : c.Answers op r c') : ConnMove c op c' := by
  -- the operations on the queues and rings move no connection; of the others only seven do
  cases op with
  | push sqe => cases hquiet
  | pushRearm m => cases hquiet
  | pushSend fd buf connId requestId => cases hquiet
  | submit => cases hquiet
  | pushTicket k => cases hquiet
  | popResponse => cases hquiet
  | popBlock => cases hquiet
  | popRearm => cases hquiet
  | self =>
      obtain ⟨-, rfl⟩ := h
      exact .same ⟨rfl, rfl, rfl, rfl⟩ rfl
  | resolve host port =>
      obtain rfl : c' = c := h
      exact .same ⟨rfl, rfl, rfl, rfl⟩ rfl
  | blockingConnect addr =>
      cases r with
      | none =>
          obtain rfl : c' = c := h
          exact .same ⟨rfl, rfl, rfl, rfl⟩ rfl
      | some fd =>
          obtain ⟨-, -, rfl⟩ := h
          exact .same ⟨rfl, rfl, rfl, rfl⟩ rfl
  | close fd =>
      obtain rfl : c' = c.closed fd := h
      exact .same ⟨rfl, rfl, rfl, rfl⟩ rfl
  | allocConnId =>
      obtain ⟨-, rfl⟩ := h
      exact .same ⟨c.pool.allocConnId_same.1, c.pool.allocConnId_same.2.2, rfl, rfl⟩ rfl
  | insertConn connId fd url =>
      obtain rfl := show c' = _ from h
      exact .bind (.inl ⟨url, rfl⟩) hprotocol.2 rfl rfl
  | removeConn connId =>
      obtain ⟨-, rfl⟩ := h
      exact .drop (.inl rfl) (o := none) (fun _ h => nomatch h) ⟨rfl, rfl, rfl, rfl⟩ rfl
  | freeConnId connId =>
      obtain rfl := show c' = _ from h
      exact .same ⟨rfl, rfl, rfl, rfl⟩ rfl
  | rebind connId fd =>
      obtain ⟨hfresh, cc, hcc, -⟩ := hprotocol
      obtain rfl := show c' = _ from h
      rw [onPool_congr (c := c.bound connId fd) (Pool.modifyConn_some hcc _)]
      exact .bind (.inr rfl) hfresh rfl rfl
  | unbind connId origin =>
      obtain ⟨⟨cc, hcc⟩, -⟩ := hprotocol
      obtain rfl : c' = c.unbound connId := h
      unfold unbound
      rw [hcc.1]
      refine .drop (.inr ⟨origin, rfl⟩) ?_ ⟨rfl, rfl, rfl, rfl⟩ rfl
      rintro _ ⟨⟩
      rfl
  | arm connId =>
      obtain ⟨cc, hlive, hqueues⟩ := hprotocol
      obtain rfl := show c' = _ from h
      rw [onPool_congr (Pool.modifyConn_some hlive.1 _)]
      exact .arm hlive hqueues
  | rearmed =>
      obtain ⟨m, rest, hpending, hqueues⟩ := hprotocol
      have h : c.rearmedOne = some c' := h
      unfold rearmedOne at h
      rw [hpending] at h
      cases h
      refine .rearmed (m := m) ?_ hqueues (Pool.modifyConn_conns ..) rfl rfl rfl
      simp only [hpending, onPool, Pool.modifyConn_pendingRearms]
  | takeRequestId =>
      obtain ⟨-, rfl⟩ := h
      exact .same ⟨rfl, rfl, rfl, rfl⟩ rfl
  | stash r =>
      obtain rfl := show c' = _ from h
      exact .same ⟨rfl, rfl, rfl, rfl⟩ rfl
  | unstash id =>
      obtain ⟨-, rfl⟩ := h
      exact .same ⟨rfl, rfl, rfl, rfl⟩ rfl
  | call call =>
      obtain rfl := show c' = _ from h
      exact .same ⟨rfl, rfl, rfl, rfl⟩ rfl
  | returned r =>
      obtain rfl := show c' = _ from h
      exact .same ⟨rfl, rfl, rfl, rfl⟩ rfl
  | accepted requestId connId =>
      obtain ⟨⟨cc, hlive, harmed⟩, -⟩ := hprotocol
      obtain rfl := show c' = _ from h
      exact .accepted hlive harmed

/-! ### Live connections after a step -/

theorem SameConns.live {c c' : Caller} (h : SameConns c c') {connId : Nat} {cc : CallerConn} (hcc : c'.Live connId cc) :
    c.Live connId cc := ⟨h.conns ▸ hcc.1, hcc.2⟩

/-- One connection was set. -/
theorem live_setConn {c c' : Caller} {connId : Nat} {o : Option CallerConn}
    (hconns : c'.pool.conns = Function.update c.pool.conns connId o) {connId' : Nat} {cc : CallerConn}
    (hcc : c'.Live connId' cc) :
    (connId' = connId ∧ o = some cc ∧ cc.needsReconnect = false) ∨ (connId' ≠ connId ∧ c.Live connId' cc) := by
  obtain ⟨hsome, hmark⟩ := hcc
  rw [hconns] at hsome
  by_cases heq : connId' = connId
  · subst heq
    rw [Function.update_self] at hsome
    exact .inl ⟨rfl, hsome, hmark⟩
  · rw [Function.update_of_ne heq] at hsome
    exact .inr ⟨heq, hsome, hmark⟩

/-- A connection that is live after one was set is that one, or was live before. -/
theorem live_onPool {c : Caller} (connId : Nat) {o : Option CallerConn} {connId' : Nat} {cc : CallerConn}
    (hcc : (c.onPool fun p => p.setConn connId o).Live connId' cc) :
    (connId' = connId ∧ o = some cc ∧ cc.needsReconnect = false) ∨ (connId' ≠ connId ∧ c.Live connId' cc) :=
  live_setConn rfl hcc

/-- A connection was marked as armed. -/
theorem live_armed {c c' : Caller} {connId : Nat}
    (hconns : c'.pool.conns = Function.update c.pool.conns connId
      ((c.pool.conns connId).map fun cc => { cc with recvArmed := true })) {connId' : Nat} {cc' : CallerConn}
    (hcc' : c'.Live connId' cc') :
    ∃ cc, c.Live connId' cc ∧ cc'.fd = cc.fd ∧ (connId' ≠ connId → cc' = cc) ∧ (cc.recvArmed = true → cc'.recvArmed = true) := by
  rcases live_setConn hconns hcc' with ⟨rfl, hsome, hmark⟩ | ⟨hne, hcc⟩
  · obtain ⟨cc, hcc, rfl⟩ := Option.map_eq_some_iff.mp hsome
    exact ⟨cc, ⟨hcc, hmark⟩, rfl, fun hne => absurd rfl hne, fun _ => rfl⟩
  · exact ⟨cc', hcc, rfl, fun _ => rfl, id⟩

end Caller

end Xibalba.Iouring
