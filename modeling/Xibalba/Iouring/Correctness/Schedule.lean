import Xibalba.Iouring.Correctness.Steps

/-!
# `Iouring.Correctness.Schedule` — runs by a schedule

A schedule says when the pool performs its next operation and what happens in between. The operations are answered as they
are when nothing goes wrong: every host is resolved, a connect opens the lowest fd that is free, and a submit succeeds.
-/

namespace Xibalba.Iouring

namespace Driver

/-- The lowest fd that is free, above the standard ones. -/
def freeFd (c : Caller) : Option Nat := (List.range' 3 1000).find? fun fd => (c.sockets fd).isNone

/-- An fd that is free is not open. -/
theorem freeFd_some {c : Caller} {fd : Nat} (h : freeFd c = some fd) : c.sockets fd = none ∧ fd < 2 ^ 31 - 1 := by
  have hnone := List.find?_some h
  have hmem := List.mem_of_find?_eq_some h
  rw [List.mem_range'_1] at hmem
  exact ⟨Option.isNone_iff_eq_none.mp hnone, by omega⟩

/-- The pool's next operation, if it does not block. -/
def respond (s : Driver) : (op : PoolOp) → Option (op.Ret × Driver)
  | .self => some (s.caller.pool, s)
  | .resolve _ _ => some (.ok 0, s)
  | .blockingConnect _ => (freeFd s.caller).map fun fd => (some fd, { s with caller := s.caller.opened fd })
  | .close fd => some ((), { s with caller := s.caller.closed fd })
  | .push sqe =>
    if s.caller.sq.length < s.caller.ring then some (.ok (), { s with caller := s.caller.pushed sqe })
    else some (.error "full", s)
  | .pushRearm m =>
    if s.caller.sq.length < s.caller.ring then
      some (.ok (), { s with caller := s.caller.pushSqe (.recvMultishot m.val.fd m.val.connId) m.origin })
    else some (.error "full", { s with caller := s.caller.rearmRefused })
  | .pushSend fd buf connId requestId =>
    if s.caller.sq.length < s.caller.ring ∧ s.caller.nextSend < 2 ^ 63 then
      some (.ok s.caller.nextSend, { s with caller := s.caller.sendPushed fd buf connId requestId })
    else none
  | .submit => some (.ok (), { s.caller.sq.foldl submitOne s with caller := s.caller.submittedAll })
  | .pushTicket k => (s.share (.pushTicket k) true).map fun s => (true, s)
  | .popResponse =>
    match s.responses with
    | [] => some (none, s)
    | r :: rest => some (some r, { s with responses := rest, caller := s.caller.popped r })
  | .popBlock =>
    match s.responses with
    | [] => none
    | r :: rest => some (some r, { s with responses := rest, caller := s.caller.popped r })
  | .popRearm =>
    match s.rearms with
    | [] => some (none, { s with caller := s.caller.foundEmpty })
    | m :: rest =>
      some (some m, { s with
        rearms := rest
        caller := s.caller.onPool fun p => { p with pendingRearms := p.pendingRearms ++ [m] } })
  | .allocConnId =>
    some (s.caller.pool.allocConnId.1, { s with caller := s.caller.onPool fun p => p.allocConnId.2 })
  | .insertConn connId fd url =>
    some ((), { s with
      caller := (s.caller.bound connId fd).onPool fun p => p.setConn connId (some ⟨fd, false, false, url⟩) })
  | .removeConn connId =>
    some (s.caller.pool.conns connId, { s with caller := s.caller.onPool fun p => p.setConn connId none })
  | .freeConnId connId => some ((), { s with caller := s.caller.onPool fun p => p.freeConnId connId })
  | .rebind connId fd =>
    some ((), { s with
      caller := (s.caller.bound connId fd).onPool fun p =>
        p.modifyConn connId fun cc => { cc with fd := fd, recvArmed := false, needsReconnect := false } })
  | .unbind connId _ => some ((), { s with caller := s.caller.unbound connId })
  | .arm connId =>
    some ((), { s with
      caller := s.caller.onPool fun p => p.modifyConn connId fun cc => { cc with recvArmed := true } })
  | .rearmed => s.caller.rearmedOne.map fun c => ((), { s with caller := c })
  | .takeRequestId => some (s.caller.pool.nextRequestId, { s with caller := s.caller.onPool Pool.bumpRequestId })
  | .stash r => some ((), { s with caller := s.caller.onPool fun p => p.insertStash r })
  | .unstash id =>
    let r := s.caller.pool.stash id
    some (r, { s with
      caller := { s.caller.onPool fun p => p.removeStash id with hand := if r.isSome then r else s.caller.hand } })
  | .call call => some ((), { s with caller := s.caller.called call })
  | .returned _ => some ((), { s with caller := { s.caller with reading := false } })
  | .accepted requestId connId => some ((), { s with caller := s.caller.returnedId requestId connId })

/-- An operation of the caller's side only. -/
theorem answers_of {s : Driver} {op : PoolOp} {r : op.Ret} {c : Caller} (hc : s.caller.Answers op r c)
    (hshare : s.share op r = some s) : s.Answers op r { s with caller := c } := ⟨c, s, hc, hshare, rfl⟩

section

variable {s s' : Driver}

theorem respond_blockingConnect {addr : Nat} {r : (PoolOp.blockingConnect addr).Ret}
    (h : s.respond (.blockingConnect addr) = some (r, s')) : s.Answers (.blockingConnect addr) r s' := by
  obtain ⟨fd, hfd, heq⟩ := Option.map_eq_some_iff.mp h
  cases heq
  obtain ⟨hfree, hlt⟩ := freeFd_some hfd
  exact answers_of ⟨hfree, hlt, rfl⟩ rfl

/-- A push that finds no room is answered by an error. -/
theorem respond_push {sqe : Sqe} {r : (PoolOp.push sqe).Ret} (h : s.respond (.push sqe) = some (r, s')) :
    s.Answers (.push sqe) r s' := by
  unfold respond at h
  dsimp only at h
  split at h
  next hroom =>
    cases h
    exact answers_of ⟨hroom, rfl⟩ rfl
  next hfull =>
    cases h
    exact answers_of ⟨Nat.le_of_not_lt hfull, rfl⟩ rfl

theorem respond_pushRearm {m : Stamped RearmMsg} {r : (PoolOp.pushRearm m).Ret}
    (h : s.respond (.pushRearm m) = some (r, s')) : s.Answers (.pushRearm m) r s' := by
  unfold respond at h
  dsimp only at h
  split at h
  next hroom =>
    cases h
    exact answers_of ⟨hroom, rfl⟩ rfl
  next hfull =>
    cases h
    exact answers_of ⟨Nat.le_of_not_lt hfull, rfl⟩ rfl

theorem respond_pushSend {fd connId : Nat} {buf : Bytes} {requestId : RequestId}
    {r : (PoolOp.pushSend fd buf connId requestId).Ret}
    (h : s.respond (.pushSend fd buf connId requestId) = some (r, s')) :
    s.Answers (.pushSend fd buf connId requestId) r s' := by
  unfold respond at h
  dsimp only at h
  split at h
  next hroom =>
    cases h
    exact answers_of ⟨hroom.1, rfl, hroom.2, rfl⟩ rfl
  next => cases h

theorem respond_pushTicket {k : SendTicket} {r : (PoolOp.pushTicket k).Ret}
    (h : s.respond (.pushTicket k) = some (r, s')) : s.Answers (.pushTicket k) r s' := by
  obtain ⟨s₁, hs₁, heq⟩ := Option.map_eq_some_iff.mp h
  cases heq
  have hcaller : s'.caller = s.caller := by
    unfold share at hs₁
    dsimp only at hs₁
    split at hs₁
    · cases hs₁
      rfl
    · cases hs₁
  refine ⟨s.caller, s', rfl, hs₁, ?_⟩
  rw [← hcaller]

theorem respond_popResponse {r : PoolOp.popResponse.Ret} (h : s.respond .popResponse = some (r, s')) :
    s.Answers .popResponse r s' := by
  unfold respond at h
  dsimp only at h
  split at h
  next hnil =>
    cases h
    exact answers_of rfl (if_pos hnil)
  next r' rest hresponses =>
    cases h
    have hshare : s.share .popResponse (some r') = some { s with responses := s.responses.tail } :=
      if_pos (by rw [hresponses]; rfl)
    rw [hresponses] at hshare
    exact ⟨_, _, rfl, hshare, rfl⟩

theorem respond_popBlock {r : PoolOp.popBlock.Ret} (h : s.respond .popBlock = some (r, s')) :
    s.Answers .popBlock r s' := by
  unfold respond at h
  dsimp only at h
  split at h
  next => cases h
  next r' rest hresponses =>
    cases h
    have hshare : s.share .popBlock (some r') = some { s with responses := s.responses.tail } :=
      if_pos (by rw [hresponses]; rfl)
    rw [hresponses] at hshare
    exact ⟨_, _, rfl, hshare, rfl⟩

theorem respond_popRearm {r : PoolOp.popRearm.Ret} (h : s.respond .popRearm = some (r, s')) :
    s.Answers .popRearm r s' := by
  unfold respond at h
  dsimp only at h
  split at h
  next hnil =>
    cases h
    exact answers_of rfl (if_pos hnil)
  next m rest hrearms =>
    cases h
    have hshare : s.share .popRearm (some m) = some { s with rearms := s.rearms.tail } :=
      if_pos (by rw [hrearms]; rfl)
    rw [hrearms] at hshare
    exact ⟨_, _, rfl, hshare, rfl⟩

theorem respond_rearmed {r : PoolOp.rearmed.Ret} (h : s.respond .rearmed = some (r, s')) : s.Answers .rearmed r s' := by
  obtain ⟨c, hc, heq⟩ := Option.map_eq_some_iff.mp h
  cases heq
  exact answers_of hc rfl

end

/-- A response is one of the answers an operation may have. -/
theorem respond_answers {s s' : Driver} {op : PoolOp} {r : op.Ret} (h : s.respond op = some (r, s')) :
    s.Answers op r s' := by
  cases op with
  | blockingConnect addr => exact respond_blockingConnect h
  | push sqe => exact respond_push h
  | pushRearm m => exact respond_pushRearm h
  | pushSend fd buf connId requestId => exact respond_pushSend h
  | pushTicket k => exact respond_pushTicket h
  | popResponse => exact respond_popResponse h
  | popBlock => exact respond_popBlock h
  | popRearm => exact respond_popRearm h
  | rearmed => exact respond_rearmed h
  | submit =>
      cases h
      exact ⟨_, _, rfl, rfl, rfl⟩
  | self | allocConnId | removeConn _ | takeRequestId | unstash _ =>
      cases h
      exact answers_of ⟨rfl, rfl⟩ rfl
  | resolve _ _ | close _ | insertConn _ _ _ | freeConnId _ | rebind _ _ | unbind _ _ | arm _ | stash _ | call _
  | returned _ | accepted _ _ =>
      cases h
      exact answers_of rfl rfl

end Driver

/-! ## Schedules that meet some terms -/

/-- The operation is answered, if that meets the terms. -/
def Driver.respondBy (ok : (s : Driver) → (op : PoolOp) → op.Ret → Bool) (s : Driver) (op : PoolOp) :
    Option (op.Ret × Driver) :=
  (s.respond op).filter fun r => ok s op r.1

/-- A happening that the terms allow, decided by `ok`. -/
def Driver.performBy (ok : Driver → Happening → Bool) (s : Driver) (a : Happening) : Option Driver :=
  if ok s a then s.perform a else none

/-- The terms, decided on the steps of a schedule. -/
structure Terms.Decided (terms : Terms) where
  env : Driver → Driver.Happening → Bool
  act : (s : Driver) → (op : PoolOp) → op.Ret → Bool
  env_sound : ∀ s a, env s a = true → terms.env s a
  act_sound : ∀ s op r, act s op r = true → terms.act s op r

def Terms.any.decided : Terms.any.Decided := ⟨fun _ _ => true, fun _ _ _ => true, fun _ _ _ => trivial, fun _ _ _ _ => trivial⟩

/-- The program and the state a schedule of the session with the calls `calls` ends with. -/
def scheduled {terms : Terms} (d : terms.Decided) (ring turns maxReq : Nat) (calls : List Call)
    (moves : List (Option Driver.Happening)) : Option (Prog PoolSys (Except Empty Unit × Unit) × Driver) :=
  Prog.enact (Driver.respondBy d.act) (Driver.performBy d.env) moves (Pool.session turns maxReq calls ())
    (Driver.start ring)

/-- A schedule that gets to a configuration with some property. -/
theorem scheduled_runs {terms : Terms} (d : terms.Decided) (ring turns maxReq : Nat) (calls : List Call)
    (moves : List (Option Driver.Happening)) {P : Prog PoolSys (Except Empty Unit × Unit) → Driver → Prop}
    [∀ p s, Decidable (P p s)]
    (h : (scheduled d ring turns maxReq calls moves).any (fun c => decide (P c.1 c.2)) = true) :
    ∃ p s, Runs terms ring turns maxReq calls p s ∧ P p s := by
  obtain ⟨⟨p, s⟩, hc, hP⟩ := (Option.any_eq_true _ _).mp h
  refine ⟨p, s, Prog.reach_enact ?_ ?_ hc (.refl _ _), of_decide_eq_true hP⟩
  · intro s op r s' hs'
    obtain ⟨hrespond, hok⟩ := Option.filter_eq_some_iff.mp hs'
    exact ⟨d.act_sound s op r hok, Driver.respond_answers hrespond⟩
  · intro s a s' hs'
    unfold Driver.performBy at hs'
    split at hs'
    next hok => exact .single ⟨a, d.env_sound s a hok, hs'⟩
    next => cases hs'

/-- The calls that connect to `http://a` and make a request there. -/
def oneRequest : List Call := [.connect (ascii "http://a"), .request ⟨0, 3⟩ .get (ascii "/") none]

/-- The pool connects and makes its first request, up to where it returns the id. -/
def firstRequest : List (Option Driver.Happening) := List.replicate 17 none

end Xibalba.Iouring
