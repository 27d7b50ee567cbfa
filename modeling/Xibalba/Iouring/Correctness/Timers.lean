import Xibalba.Iouring.Correctness.Entries

/-!
# `Iouring.Correctness.Timers` — whose timer a `Timeout` is

All timers share one `user_data`, and a timer that is removed completes as well. So the `Timeout` of a call that got its
result is read by a later one. The results here are about the runs in which a call reads a `Timeout` only when no timer
of an earlier call is outstanding: then `recv_timeout` gives up only if its own timer has expired, and no other call sees
a `Timeout`.

Layout:
* `Driver.Outstanding`, the terms, and `Clocked`, the invariant;
* its steps, and `timeouts_own`;
* a run in which the second of two calls gives up because of the first one's timer.
-/

namespace Xibalba.Iouring

/-! ## Timers that are not done with -/

/-- The timer of a call has completed, and the `Timeout` that comes of it was not read. -/
def Driver.Rung (s : Driver) (call : Nat) : Prop :=
  (∃ e ∈ s.cq, e.val.userData = TIMEOUT_UD ∧ e.origin = call) ∨ ⟨.result .timeout, call⟩ ∈ s.outbox ∨
    ⟨.timeout, call⟩ ∈ s.responses

/-- The timer of a call is queued or running, or it has completed and its `Timeout` was not read. -/
def Driver.Outstanding (sq : List (Stamped Sqe)) (s : Driver) (call : Nat) : Prop :=
  ⟨.timeout, call⟩ ∈ sq ∨ .timer call ∈ s.ops ∨ s.Rung call

/-- A call takes a `Timeout` from the ring only when no timer of an earlier call is outstanding. -/
def Driver.OwnTimers (s : Driver) : (op : PoolOp) → op.Ret → Prop
  | .popResponse, some r | .popBlock, some r =>
    r.val = .timeout → ∀ call, s.Outstanding s.caller.sq call → call = s.caller.calls
  | _, _ => True

def ownTimers : Terms := ⟨fun _ _ => True, Driver.OwnTimers⟩

/-- What the pool may do with a `Timeout`: a call whose timer was submitted returns without a result only if this timer has
    expired, and a `Timeout` is neither returned nor put aside. -/
def Driver.TimesOwnWait (s : Driver) : PoolOp → Prop
  | .returned (.ok none) => s.caller.calls ∈ s.caller.submitted → s.caller.calls ∈ s.expired
  | .returned (.ok (some r)) => r ≠ .timeout
  | .stash r => r ≠ .timeout
  | _ => True

/-! ## No other result is a `Timeout` -/

theorem drainLoop_ne_timeout {ids : List RequestId} {conn : ConnData} {data : Bytes} {r : ConnResult}
    (h : r ∈ (drainLoop conn ids data).2) : r ≠ .timeout := by
  induction ids generalizing conn data with
  | nil => cases h
  | cons requestId ids ih =>
      rw [drainLoop] at h
      split at h
      next parser resp hfeed =>
        rcases List.mem_cons.mp h with rfl | h
        · exact nofun
        · exact ih h
      next => cases h
      next =>
        rw [List.mem_singleton.mp h]
        exact nofun

theorem on_ne_timeout {conn : ConnData} {connId : Nat} {ev : ConnEvent} {r : ConnResult}
    (h : r ∈ (conn.on connId ev).2) : r ≠ .timeout := by
  cases ev with
  | sent requestId =>
      unfold ConnData.on ConnData.onSent at h
      dsimp only at h
      split at h
      next => cases h
      next => exact drainLoop_ne_timeout h
  | data fd bytes =>
      unfold ConnData.on ConnData.onData at h
      dsimp only at h
      split at h
      next => cases h
      next => exact drainLoop_ne_timeout h
  | failed fd errno =>
      rw [List.mem_singleton.mp h]
      exact nofun
  | eof fd =>
      rw [List.mem_singleton.mp h]
      unfold finishUntilClose
      dsimp only
      split
      next =>
        split
        · exact nofun
        · exact nofun
      next => exact nofun

/-- A `Timeout` is pushed only for the completion of a timer. -/
theorem Reaps.timeout_mem {t t' : CompleteThread} {ticketRx : List SendTicket} {e : Cqe} {msgs : List Msg}
    (h : Reaps t ticketRx e t' msgs) (hmem : .result .timeout ∈ msgs) : e.userData = TIMEOUT_UD := by
  have hresults : ∀ {conn : ConnData} {connId : Nat} {ev : ConnEvent},
      .result .timeout ∉ (conn.on connId ev).2.map Msg.result := by
    intro conn connId ev hmem
    obtain ⟨r, hr, heq⟩ := List.mem_map.mp hmem
    cases heq
    exact on_ne_timeout hr rfl
  cases h with
  | idle => cases hmem
  | timeout => rfl
  | sent => exact absurd hmem hresults
  | received =>
      rcases List.mem_append.mp hmem with hmem | hmem
      · exact absurd hmem hresults
      · split at hmem
        · cases hmem
        · cases List.mem_singleton.mp hmem
  | stopped => exact absurd hmem hresults

/-! ## The invariant -/

/-- What holds of the timers, when the entries `sq` have yet to be submitted. -/
structure Clocked (sq : List (Stamped Sqe)) (s : Driver) : Prop where
  stash : ∀ id, s.caller.pool.stash id ≠ some .timeout
  past : ∀ call, s.Outstanding sq call → call ≤ s.caller.calls
  own : s.Outstanding sq s.caller.calls → s.caller.timed = true
  past_submitted : ∀ call ∈ s.caller.submitted, call ≤ s.caller.calls
  submitted : s.caller.calls ∈ s.caller.submitted → s.caller.timed = true
  -- an earlier call asked for the removal, and its entry comes before this call's timer
  removes : s.caller.cancelled = false → ∀ front (e : Stamped Sqe) back, sq = front ++ e :: back → e.val = .timeoutRemove →
    ⟨.timeout, s.caller.calls⟩ ∉ front ∧ .timer s.caller.calls ∉ s.ops
  expired : s.caller.cancelled = false → s.Rung s.caller.calls → s.caller.calls ∈ s.expired
  hand : s.caller.hand = some .timeout → s.caller.timed = true ∧ s.caller.calls ∈ s.expired

theorem clocked_start (ring : Nat) : Clocked [] (Driver.start ring) where
  stash := nofun
  past := by
    rintro call (h | h | ⟨e, h, -⟩ | h | h)
    all_goals cases h
  own := by
    rintro (h | h | ⟨e, h, -⟩ | h | h)
    all_goals cases h
  past_submitted := nofun
  submitted := nofun
  removes := by
    intro _ front e back h
    cases front with
    | nil => cases h
    | cons e' front => cases h
  expired := by
    rintro _ (⟨e, h, -⟩ | h | h)
    all_goals cases h
  hand := nofun

section

variable {sq sq' : List (Stamped Sqe)} {s s' : Driver}

/-- A step of the kernel or of the complete thread. -/
theorem Clocked.kernel (h : Clocked sq s) (hcaller : s'.caller = s.caller)
    (houtstanding : ∀ call, s'.Outstanding sq' call → s.Outstanding sq call)
    (hremoves : s.caller.cancelled = false → ∀ front (e : Stamped Sqe) back, sq' = front ++ e :: back → e.val = .timeoutRemove →
      ⟨.timeout, s.caller.calls⟩ ∉ front ∧ .timer s.caller.calls ∉ s'.ops)
    (hexpired : ∀ call ∈ s.expired, call ∈ s'.expired)
    (hrung : s.caller.cancelled = false → s'.Rung s.caller.calls → s.Rung s.caller.calls ∨ s.caller.calls ∈ s'.expired) :
    Clocked sq' s' := by
  constructor
  · rw [hcaller]
    exact h.stash
  · intro call hcall
    rw [hcaller]
    exact h.past call (houtstanding call hcall)
  · rw [hcaller]
    exact fun hcall => h.own (houtstanding _ hcall)
  · rw [hcaller]
    exact h.past_submitted
  · rw [hcaller]
    exact h.submitted
  · rw [hcaller]
    exact hremoves
  · rw [hcaller]
    intro hcancelled hr
    rcases hrung hcancelled hr with hr | hr
    · exact hexpired _ (h.expired hcancelled hr)
    · exact hr
  · rw [hcaller]
    intro hhand
    exact ⟨(h.hand hhand).1, hexpired _ (h.hand hhand).2⟩

/-- Operations end, and an entry is posted that is no timer's. -/
theorem Clocked.posts (h : Clocked sq s) {ops : List KernelOp} (hops : ∀ op ∈ ops, op ∈ s.ops) {e : Cqe}
    (he : e.userData ≠ TIMEOUT_UD) (origin : Nat) (accepted : Nat → List (Bytes × Nat)) (failed : List Nat) :
    Clocked sq ({ s with ops := ops, accepted := accepted, failed := failed }.post e origin) := by
  have hrung : ∀ call, ({ s with ops := ops, accepted := accepted, failed := failed }.post e origin).Rung call →
      s.Rung call := by
    rintro call (⟨e', he', hud, horigin⟩ | hrung)
    · rcases List.mem_append.mp he' with he' | he'
      · exact .inl ⟨e', he', hud, horigin⟩
      · rw [List.mem_singleton.mp he'] at hud
        exact absurd hud he
    · exact .inr hrung
  refine h.kernel rfl ?_ ?_ (fun _ hcall => hcall) fun _ hr => .inl (hrung _ hr)
  · rintro call (hsq | htimer | hr)
    · exact .inl hsq
    · exact .inr (.inl (hops _ htimer))
    · exact .inr (.inr (hrung call hr))
  · intro hcancelled front e' back hsq he'
    obtain ⟨hfront, htimer⟩ := h.removes hcancelled front e' back hsq he'
    exact ⟨hfront, fun hmem => htimer (hops _ hmem)⟩

theorem Clocked.expires (h : Clocked sq s) {front back : List KernelOp} {call : Nat}
    (hops : s.ops = front ++ .timer call :: back) :
    Clocked sq ({ s with ops := front ++ back, expired := call :: s.expired }.post
      ⟨TIMEOUT_UD, -ETIME, none, false⟩ call) := by
  have hmem : .timer call ∈ s.ops := by
    rw [hops]
    exact List.mem_append_right _ List.mem_cons_self
  have hrung : ∀ call', ({ s with ops := front ++ back, expired := call :: s.expired }.post
      ⟨TIMEOUT_UD, -ETIME, none, false⟩ call).Rung call' → s.Rung call' ∨ call' = call := by
    rintro call' (⟨e', he', hud, horigin⟩ | hrung)
    · rcases List.mem_append.mp he' with he' | he'
      · exact .inl (.inl ⟨e', he', hud, horigin⟩)
      · rw [List.mem_singleton.mp he'] at horigin
        exact .inr horigin.symm
    · exact .inl (.inr hrung)
  refine h.kernel rfl ?_ ?_ (fun _ hcall => List.mem_cons_of_mem _ hcall) ?_
  · rintro call' (hsq | htimer | hr)
    · exact .inl hsq
    · exact .inr (.inl (Driver.mem_of_mem_front_back hops htimer))
    · rcases hrung call' hr with hr | rfl
      · exact .inr (.inr hr)
      · exact .inr (.inl hmem)
  · intro hcancelled front' e' back' hsq he'
    obtain ⟨hfront, htimer⟩ := h.removes hcancelled front' e' back' hsq he'
    exact ⟨hfront, fun hmem => htimer (Driver.mem_of_mem_front_back hops hmem)⟩
  · intro hcancelled hr
    rcases hrung _ hr with hr | heq
    · exact .inl hr
    · rw [heq]
      exact .inr List.mem_cons_self

theorem Clocked.reaped (h : Clocked sq s) {e : Stamped Cqe} {rest : List (Stamped Cqe)} (hposted : e.val.Posted)
    (hcq : s.cq = e :: rest) : Clocked sq (s.reaped e rest) := by
  have hrung : ∀ call, (s.reaped e rest).Rung call → s.Rung call := by
    rintro call (⟨e', he', hud⟩ | hmem | hmem)
    · exact .inl ⟨e', hcq ▸ List.mem_cons_of_mem _ he', hud⟩
    · -- the `Timeout` of the entry
      obtain ⟨msg, hmsg, heq⟩ := List.mem_map.mp hmem
      cases heq
      exact .inl ⟨e, hcq ▸ List.mem_cons_self, (reaps hposted).timeout_mem hmsg, rfl⟩
    · exact .inr (.inr hmem)
  refine h.kernel rfl ?_ h.removes (fun _ hcall => hcall) fun _ hr => .inl (hrung _ hr)
  rintro call (hsq | htimer | hr)
  · exact .inl hsq
  · exact .inr (.inl htimer)
  · exact .inr (.inr (hrung call hr))

/-- The messages of the complete thread go their way. -/
theorem Clocked.delivers (h : Clocked sq s) (outbox : List (Stamped Msg)) (responses : List (Stamped ConnResult))
    (rearms : List (Stamped RearmMsg))
    (finished : List (Stamped Cqe × Nat))
    (hrung : ∀ call, { s with outbox := outbox, responses := responses, rearms := rearms }.Rung call → s.Rung call) :
    Clocked sq { s with outbox := outbox, responses := responses, rearms := rearms, finished := finished } := by
  refine h.kernel rfl ?_ h.removes (fun _ hcall => hcall) fun _ hr => .inl (hrung _ hr)
  rintro call (hsq | htimer | hr)
  · exact .inl hsq
  · exact .inr (.inl htimer)
  · exact .inr (.inr (hrung call hr))

/-- **A step of the kernel or the complete thread** keeps the invariant. -/
theorem Clocked.happened {a : Driver.Happening} (h : Clocked sq s) (hfitting : Fitting sq s)
    (hs : s.perform a = some s') : Clocked sq s' := by
  have hop : ∀ {front back op}, s.ops = front ++ op :: back → op.Fits := by
    intro front back op hops
    refine hfitting.ops op ?_
    rw [hops]
    exact List.mem_append_right _ List.mem_cons_self
  cases Driver.happened hs with
  | @written front back id buf socket result hops hle =>
      refine h.posts (fun _ => Driver.mem_of_mem_front_back hops) ?_ socket _ s.failed
      have hid : id < 2 ^ 63 := hop hops
      show id ≠ TIMEOUT_UD
      simp only [TIMEOUT_UD]
      omega
  | @received front back fd connId socket piece more hops hpiece =>
      refine h.posts ?_ (recv_ne (hop hops)).2.1 socket s.accepted s.failed
      intro op hmem
      split at hmem
      · exact hmem
      · exact Driver.mem_of_mem_front_back hops hmem
  | @broken front back fd connId socket errno hops herrno =>
      exact h.posts (fun _ => Driver.mem_of_mem_front_back hops) (recv_ne (hop hops)).2.1 socket s.accepted _
  | @ended front back fd connId socket hops =>
      exact h.posts (fun _ => Driver.mem_of_mem_front_back hops) (recv_ne (hop hops)).2.1 socket s.accepted _
  | expired hops => exact h.expires hops
  | @reaped e rest hcq hrunning houtbox => exact h.reaped (hfitting.cq e (hcq ▸ List.mem_cons_self)) hcq
  | @delivered r origin rest houtbox =>
      refine h.delivers rest _ s.rearms _ ?_
      rintro call (hcq | hmem | hmem)
      · exact .inl hcq
      · exact .inr (.inl (houtbox ▸ List.mem_cons_of_mem _ hmem))
      · rcases List.mem_append.mp hmem with hmem | hmem
        · exact .inr (.inr hmem)
        · cases List.mem_singleton.mp hmem
          exact .inr (.inl (houtbox ▸ List.mem_cons_self))
  | @rearmDelivered m origin rest houtbox =>
      refine h.delivers rest s.responses _ _ ?_
      rintro call (hcq | hmem | hmem)
      · exact .inl hcq
      · exact .inr (.inl (houtbox ▸ List.mem_cons_of_mem _ hmem))
      · exact .inr (.inr hmem)

/-- An entry is submitted. -/
theorem Clocked.submits {e : Stamped Sqe} {rest : List (Stamped Sqe)} (h : Clocked (e :: rest) s)
    (hfits : e.val.Fits) (hs : Driver.Submitted s e s') : Clocked rest s' := by
  have hlater : s.caller.cancelled = false → ∀ front (e' : Stamped Sqe) back, rest = front ++ e' :: back → e'.val = .timeoutRemove →
      ⟨.timeout, s.caller.calls⟩ ∉ e :: front ∧ .timer s.caller.calls ∉ s.ops := by
    intro hcancelled front e' back hrest he'
    exact h.removes hcancelled (e :: front) e' back (by rw [hrest]; rfl) he'
  have hrest : Clocked rest s := by
    refine h.kernel rfl ?_ ?_ (fun _ hcall => hcall) fun _ hr => .inl hr
    · rintro call (hsq | hother)
      · exact .inl (List.mem_cons_of_mem _ hsq)
      · exact .inr hother
    · intro hcancelled front e' back hsq he'
      obtain ⟨hfront, htimer⟩ := hlater hcancelled front e' back hsq he'
      exact ⟨fun hmem => hfront (List.mem_cons_of_mem _ hmem), htimer⟩
  have hadd : ∀ op : KernelOp, (∀ call, op = .timer call → e = ⟨.timeout, call⟩) →
      Clocked rest { s with ops := s.ops ++ [op] } := by
    intro op hop
    have hmem : ∀ call, .timer call ∈ s.ops ++ [op] → .timer call ∈ s.ops ∨ e = ⟨.timeout, call⟩ := by
      intro call hmem
      exact (List.mem_append.mp hmem).imp_right fun hmem => hop call (List.mem_singleton.mp hmem).symm
    refine h.kernel rfl ?_ ?_ (fun _ hcall => hcall) fun _ hr => .inl hr
    · rintro call (hsq | htimer | hr)
      · exact .inl (List.mem_cons_of_mem _ hsq)
      · rcases hmem call htimer with htimer | rfl
        · exact .inr (.inl htimer)
        · exact .inl List.mem_cons_self
      · exact .inr (.inr hr)
    · intro hcancelled front e' back hsq he'
      obtain ⟨hfront, htimer⟩ := hlater hcancelled front e' back hsq he'
      refine ⟨fun hmem => hfront (List.mem_cons_of_mem _ hmem), fun hnew => ?_⟩
      rcases hmem _ hnew with hold | rfl
      · exact htimer hold
      · exact hfront List.mem_cons_self
  have hkeep : ∀ op ∈ s.ops, op ∈ s.ops := fun _ hop => hop
  -- the entry becomes an operation, or its completion is posted at once
  cases hs with
  | write hfd => exact hadd _ fun _ h => by cases h
  | @writeClosed id fd origin buf hfd =>
      refine hrest.posts hkeep ?_ origin s.accepted s.failed
      have hid : id < 2 ^ 63 := hfits
      show id ≠ TIMEOUT_UD
      simp only [TIMEOUT_UD]
      omega
  | recv hfd => exact hadd _ fun _ h => by cases h
  | @recvClosed fd connId origin hfd => exact hrest.posts hkeep (recv_ne hfits).2.1 origin s.accepted _
  | timeout =>
      refine hadd _ ?_
      rintro _ ⟨⟩
      rfl
  | @removed origin call hcall =>
      have hrung : ∀ call', ({ s with ops := s.ops.erase (.timer call) }.post
          ⟨TIMEOUT_UD, -ECANCELED, none, false⟩ call).Rung call' → s.Rung call' ∨ call' = call := by
        rintro call' (⟨e', he', hud, horigin⟩ | hrung)
        · rcases List.mem_append.mp he' with he' | he'
          · exact .inl (.inl ⟨e', he', hud, horigin⟩)
          · rw [List.mem_singleton.mp he'] at horigin
            exact .inr horigin.symm
        · exact .inl (.inr hrung)
      have hremoved : Clocked rest ({ s with ops := s.ops.erase (.timer call) }.post
          ⟨TIMEOUT_UD, -ECANCELED, none, false⟩ call) := by
        refine hrest.kernel rfl ?_ ?_ (fun _ hcall => hcall) ?_
        · rintro call' (hsq | htimer | hr)
          · exact .inl hsq
          · exact .inr (.inl (List.mem_of_mem_erase htimer))
          · rcases hrung call' hr with hr | rfl
            · exact .inr (.inr hr)
            · exact .inr (.inl hcall)
        · intro hcancelled front e' back hsq he'
          obtain ⟨hfront, htimer⟩ := hrest.removes hcancelled front e' back hsq he'
          exact ⟨hfront, fun hmem => htimer (List.mem_of_mem_erase hmem)⟩
        · intro hcancelled hr
          rcases hrung _ hr with hr | heq
          · exact .inl hr
          · -- the timer that is removed is that of an earlier call
            have hno := (h.removes hcancelled [] _ rest rfl rfl).2
            rw [heq] at hno
            exact absurd hcall hno
      exact hremoved.posts (e := ⟨TIMEOUT_REMOVE_UD, 0, none, false⟩) (fun _ hop => hop)
        (show TIMEOUT_REMOVE_UD ≠ TIMEOUT_UD by decide) origin s.accepted s.failed
  | noTimer hnone =>
      exact hrest.posts hkeep (show TIMEOUT_REMOVE_UD ≠ TIMEOUT_UD by decide) _ s.accepted s.failed

/-! ## Operations of the pool -/

/-- The calls and the stash are as before. -/
structure Caller.SameReads (c c' : Caller) : Prop where
  stash : c'.pool.stash = c.pool.stash
  calls : c'.calls = c.calls
  timed : c'.timed = c.timed
  cancelled : c'.cancelled = c.cancelled
  hand : c'.hand = c.hand

/-- What a quiet operation can do to the calls and the stash. -/
inductive Caller.ReadMove (c : Caller) : Caller → Prop where
  | same {c' : Caller} (hsame : SameReads c c') : ReadMove c c'
  | stash {r : ConnResult} (hhand : c.hand = some r) (htimed : c.timed = true → r ≠ .timeout) :
      ReadMove c (c.onPool fun p => p.insertStash r)
  | unstash (id : RequestId) :
      ReadMove c { c.onPool fun p => p.removeStash id with
        hand := if (c.pool.stash id).isSome then c.pool.stash id else c.hand }
  | call (call : Call) : ReadMove c (c.called call)

theorem Caller.readMove {c c' : Caller} {op : PoolOp} {r : op.Ret} (hquiet : Driver.quiet op = true)
    (hprotocol : Protocol c op) (h : c.Answers op r c') : ReadMove c c' := by
  -- only the stash and the beginning of a call concern what is read
  cases op with
  | push sqe => cases hquiet
  | pushRearm m => cases hquiet
  | pushSend fd buf connId requestId => cases hquiet
  | submit => cases hquiet
  | pushTicket k => cases hquiet
  | popResponse => cases hquiet
  | popBlock => cases hquiet
  | popRearm => cases hquiet
  | self =>
      obtain ⟨-, rfl⟩ := h
      exact .same ⟨rfl, rfl, rfl, rfl, rfl⟩
  | resolve host port =>
      obtain rfl : c' = c := h
      exact .same ⟨rfl, rfl, rfl, rfl, rfl⟩
  | blockingConnect addr =>
      cases r with
      | none =>
          obtain rfl : c' = c := h
          exact .same ⟨rfl, rfl, rfl, rfl, rfl⟩
      | some fd =>
          obtain ⟨-, -, rfl⟩ := h
          exact .same ⟨rfl, rfl, rfl, rfl, rfl⟩
  | close fd =>
      obtain rfl : c' = c.closed fd := h
      exact .same ⟨rfl, rfl, rfl, rfl, rfl⟩
  | allocConnId =>
      obtain ⟨-, rfl⟩ := h
      exact .same ⟨c.pool.allocConnId_same.2.1, rfl, rfl, rfl, rfl⟩
  | insertConn connId fd url =>
      obtain rfl := show c' = _ from h
      exact .same ⟨rfl, rfl, rfl, rfl, rfl⟩
  | removeConn connId =>
      obtain ⟨-, rfl⟩ := h
      exact .same ⟨rfl, rfl, rfl, rfl, rfl⟩
  | freeConnId connId =>
      obtain rfl := show c' = _ from h
      exact .same ⟨rfl, rfl, rfl, rfl, rfl⟩
  | rebind connId fd =>
      obtain rfl := show c' = _ from h
      exact .same ⟨Pool.modifyConn_stash .., rfl, rfl, rfl, rfl⟩
  | unbind connId origin =>
      obtain rfl : c' = c.unbound connId := h
      unfold unbound
      split
      · exact .same ⟨rfl, rfl, rfl, rfl, rfl⟩
      · exact .same ⟨rfl, rfl, rfl, rfl, rfl⟩
  | arm connId =>
      obtain rfl := show c' = _ from h
      exact .same ⟨Pool.modifyConn_stash .., rfl, rfl, rfl, rfl⟩
  | rearmed =>
      have h : c.rearmedOne = some c' := h
      unfold rearmedOne at h
      split at h
      · cases h
      · cases h
        exact .same ⟨Pool.modifyConn_stash .., rfl, rfl, rfl, rfl⟩
  | takeRequestId =>
      obtain ⟨-, rfl⟩ := h
      exact .same ⟨rfl, rfl, rfl, rfl, rfl⟩
  | stash r =>
      obtain rfl := show c' = _ from h
      exact .stash hprotocol.1 hprotocol.2
  | unstash id =>
      obtain ⟨rfl, rfl⟩ := h
      exact .unstash id
  | call call =>
      obtain rfl := show c' = _ from h
      exact .call call
  | returned r =>
      obtain rfl := show c' = _ from h
      exact .same ⟨rfl, rfl, rfl, rfl, rfl⟩
  | accepted requestId connId =>
      obtain rfl := show c' = _ from h
      exact .same ⟨rfl, rfl, rfl, rfl, rfl⟩

/-- The calls are as before, and no timer and no removal is added to the queue. -/
theorem Clocked.onCaller (h : Clocked sq s) {c : Caller} (hsame : s.caller.SameReads c)
    (hsubmitted : ∀ call ∈ c.submitted, call ≤ s.caller.calls ∧ (call = s.caller.calls → s.caller.timed = true))
    (htimers : ∀ call, ⟨.timeout, call⟩ ∈ sq' → ⟨.timeout, call⟩ ∈ sq)
    (hremoves : ∀ front (e : Stamped Sqe) back, sq' = front ++ e :: back → e.val = .timeoutRemove →
      ∃ back', sq = front ++ e :: back') :
    Clocked sq' { s with caller := c } := by
  have houtstanding : ∀ call, { s with caller := c }.Outstanding sq' call → s.Outstanding sq call := by
    rintro call (hsq | hother)
    · exact .inl (htimers call hsq)
    · exact .inr hother
  constructor
  · show ∀ id, c.pool.stash id ≠ some .timeout
    rw [hsame.stash]
    exact h.stash
  · show ∀ call, { s with caller := c }.Outstanding sq' call → call ≤ c.calls
    rw [hsame.calls]
    exact fun call hcall => h.past call (houtstanding call hcall)
  · show { s with caller := c }.Outstanding sq' c.calls → c.timed = true
    rw [hsame.calls, hsame.timed]
    exact fun hcall => h.own (houtstanding _ hcall)
  · show ∀ call ∈ c.submitted, call ≤ c.calls
    rw [hsame.calls]
    exact fun call hcall => (hsubmitted call hcall).1
  · show c.calls ∈ c.submitted → c.timed = true
    rw [hsame.calls, hsame.timed]
    exact fun hcall => (hsubmitted _ hcall).2 rfl
  · show c.cancelled = false → ∀ front (e : Stamped Sqe) back, sq' = front ++ e :: back → e.val = .timeoutRemove →
      ⟨.timeout, c.calls⟩ ∉ front ∧ .timer c.calls ∉ s.ops
    rw [hsame.cancelled, hsame.calls]
    intro hcancelled front e back hsq he
    obtain ⟨back', hsq⟩ := hremoves front e back hsq he
    exact h.removes hcancelled front e back' hsq he
  · show c.cancelled = false → s.Rung c.calls → c.calls ∈ s.expired
    rw [hsame.cancelled, hsame.calls]
    exact h.expired
  · show c.hand = some .timeout → c.timed = true ∧ c.calls ∈ s.expired
    rw [hsame.hand, hsame.timed, hsame.calls]
    exact h.hand

/-- What is known of the calls whose timer was submitted. -/
theorem Clocked.known (h : Clocked sq s) (call : Nat) (hcall : call ∈ s.caller.submitted) :
    call ≤ s.caller.calls ∧ (call = s.caller.calls → s.caller.timed = true) := by
  refine ⟨h.past_submitted call hcall, ?_⟩
  rintro rfl
  exact h.submitted hcall

/-- An entry that is for no timer is pushed. -/
theorem Clocked.pushes (h : Clocked sq s) {c : Caller} (hsame : s.caller.SameReads c)
    (hsubmitted : c.submitted = s.caller.submitted) {e : Stamped Sqe} (htimer : e.val ≠ .timeout)
    (hremove : e.val ≠ .timeoutRemove) : Clocked (sq ++ [e]) { s with caller := c } := by
  refine h.onCaller hsame (fun call hcall => h.known call (hsubmitted ▸ hcall)) ?_ ?_
  · intro call hmem
    rcases List.mem_append.mp hmem with hmem | hmem
    · exact hmem
    · rw [← List.mem_singleton.mp hmem] at htimer
      exact absurd rfl htimer
  · intro front e' back hsq he'
    rcases Driver.split_concat hsq with ⟨-, rfl⟩ | ⟨back', -, hsq⟩
    · exact absurd he' hremove
    · exact ⟨back', hsq⟩

/-- A call pushes its timer. -/
theorem Clocked.timerPushed (h : Clocked s.caller.sq s) :
    Clocked (s.caller.pushed .timeout).sq { s with caller := s.caller.pushed .timeout } := by
  constructor
  · exact h.stash
  · rintro call (hsq | hother)
    · rcases List.mem_append.mp hsq with hsq | hsq
      · exact h.past call (.inl hsq)
      · cases List.mem_singleton.mp hsq
        exact Nat.le_refl _
    · exact h.past call (.inr hother)
  · exact fun _ => rfl
  · exact h.past_submitted
  · exact fun _ => rfl
  · intro hcancelled front e back hsq he
    rcases Driver.split_concat hsq with ⟨-, rfl⟩ | ⟨back', -, hsq⟩
    · cases he
    · exact h.removes hcancelled front e back' hsq he
  · exact h.expired
  · exact fun hhand => ⟨rfl, (h.hand hhand).2⟩

/-- A call asks for its timer to be removed. -/
theorem Clocked.removalPushed (h : Clocked s.caller.sq s) :
    Clocked (s.caller.pushed .timeoutRemove).sq { s with caller := s.caller.pushed .timeoutRemove } := by
  have houtstanding : ∀ call, { s with caller := s.caller.pushed .timeoutRemove }.Outstanding
      (s.caller.pushed .timeoutRemove).sq call → s.Outstanding s.caller.sq call := by
    rintro call (hsq | hother)
    · rcases List.mem_append.mp hsq with hsq | hsq
      · exact .inl hsq
      · cases List.mem_singleton.mp hsq
    · exact .inr hother
  constructor
  · exact h.stash
  · exact fun call hcall => h.past call (houtstanding call hcall)
  · exact fun hcall => h.own (houtstanding _ hcall)
  · exact h.past_submitted
  · exact h.submitted
  · exact nofun
  · exact nofun
  · exact h.hand

/-- A result is taken from the ring. A `Timeout` is that of the call's own timer. -/
theorem Clocked.takes (h : Clocked s.caller.sq s) {r : Stamped ConnResult} {rest : List (Stamped ConnResult)}
    (hresponses : s.responses = r :: rest) (hcancelled : s.caller.cancelled = false)
    (hterms : r.val = .timeout → ∀ call, s.Outstanding s.caller.sq call → call = s.caller.calls) :
    Clocked s.caller.sq { s with responses := rest, caller := s.caller.popped r } := by
  have hrung : ∀ call, { s with responses := rest, caller := s.caller.popped r }.Rung call → s.Rung call := by
    rintro call (hcq | houtbox | hmem)
    · exact .inl hcq
    · exact .inr (.inl houtbox)
    · exact .inr (.inr (hresponses ▸ List.mem_cons_of_mem _ hmem))
  have houtstanding : ∀ call, { s with responses := rest, caller := s.caller.popped r }.Outstanding s.caller.sq call →
      s.Outstanding s.caller.sq call := by
    rintro call (hsq | htimer | hr)
    · exact .inl hsq
    · exact .inr (.inl htimer)
    · exact .inr (.inr (hrung call hr))
  constructor
  · exact h.stash
  · exact fun call hcall => h.past call (houtstanding call hcall)
  · exact fun hcall => h.own (houtstanding _ hcall)
  · exact h.past_submitted
  · exact h.submitted
  · exact h.removes
  · exact fun hno hr => h.expired hno (hrung _ hr)
  · intro hhand
    obtain ⟨val, origin⟩ := r
    cases hhand
    have hread : s.Rung origin := .inr (.inr (hresponses ▸ List.mem_cons_self))
    have hown := hterms rfl origin (.inr (.inr hread))
    rw [hown] at hread
    exact ⟨h.own (.inr (.inr hread)), h.expired hcancelled hread⟩

theorem Clocked.reads (h : Clocked sq s) {c : Caller} (hmove : s.caller.ReadMove c)
    (hsubmitted : c.submitted = s.caller.submitted) : Clocked sq { s with caller := c } := by
  cases hmove with
  | same hsame =>
      exact h.onCaller hsame (fun call hcall => h.known call (hsubmitted ▸ hcall)) (fun _ hmem => hmem)
        fun _ _ back hsq _ => ⟨back, hsq⟩
  | @stash r hhand htimed =>
      refine { h with stash := fun id hid => ?_ }
      have hid : Function.update s.caller.pool.stash r.id (some r) id = some .timeout := hid
      by_cases heq : id = r.id
      · rw [heq, Function.update_self] at hid
        cases hid
        exact htimed (h.hand hhand).1 rfl
      · rw [Function.update_of_ne heq] at hid
        exact h.stash id hid
  | unstash id =>
      refine { h with stash := fun id' hid' => ?_, hand := fun hhand => ?_ }
      · have hid' : Function.update s.caller.pool.stash id none id' = some .timeout := hid'
        by_cases heq : id' = id
        · rw [heq, Function.update_self] at hid'
          cases hid'
        · rw [Function.update_of_ne heq] at hid'
          exact h.stash id' hid'
      · dsimp only at hhand
        split at hhand
        · exact absurd hhand (h.stash id)
        · exact h.hand hhand
  | call call =>
      have hnew : ¬s.Outstanding sq (s.caller.calls + 1) := fun hcall => Nat.not_succ_le_self _ (h.past _ hcall)
      constructor
      · exact h.stash
      · exact fun call hcall => Nat.le_succ_of_le (h.past call hcall)
      · exact fun hcall => absurd hcall hnew
      · exact fun call hcall => Nat.le_succ_of_le (h.past_submitted call hcall)
      · exact fun hcall => absurd (h.past_submitted _ hcall) (Nat.not_succ_le_self _)
      · intro _ front e back hsq _
        refine ⟨fun hmem => hnew (.inl ?_), fun htimer => hnew (.inr (.inl htimer))⟩
        rw [hsq]
        exact List.mem_append_left _ hmem
      · exact fun _ hr => absurd (.inr (.inr hr)) hnew
      · exact nofun

/-- The queue is submitted. -/
theorem Clocked.submitsAll (h : Clocked s.caller.sq s) (hfitting : Fitting s.caller.sq s) :
    Clocked [] { s.caller.sq.foldl Driver.submitOne s with caller := s.caller.submittedAll } := by
  obtain ⟨⟨-, hall⟩, hcaller⟩ := Driver.submitAll (J := fun sq s => Fitting sq s ∧ Clocked sq s)
    (fun hs _ h => ⟨h.1.submitted hs, h.2.submits (h.1.sq _ List.mem_cons_self) hs⟩) ⟨hfitting, h⟩
  have hsame : Caller.SameReads (s.caller.sq.foldl Driver.submitOne s).caller s.caller.submittedAll := by
    rw [hcaller]
    exact ⟨rfl, rfl, rfl, rfl, rfl⟩
  refine hall.onCaller hsame ?_ (fun _ hmem => hmem) fun _ _ back hsq _ => ⟨back, hsq⟩
  rw [hcaller]
  intro call hcall
  rcases List.mem_append.mp hcall with hcall | hcall
  · -- the timer stood in the queue
    obtain ⟨⟨sqe, origin⟩, he, rfl⟩ := List.mem_map.mp hcall
    obtain ⟨hmem, htimer⟩ := List.mem_filter.mp he
    obtain rfl : sqe = .timeout := of_decide_eq_true htimer
    refine ⟨h.past _ (.inl hmem), ?_⟩
    rintro rfl
    exact h.own (.inl hmem)
  · exact h.known call hcall

/-- **An operation of the pool** that meets the terms keeps the invariant. -/
theorem Clocked.acted {op : PoolOp} {r : op.Ret} (h : Clocked s.caller.sq s) (hfitting : Fitting s.caller.sq s)
    (hprotocol : Protocol s.caller op) (hterms : s.OwnTimers op r) (hs : s.Answers op r s') :
    Clocked s'.caller.sq s' := by
  cases Driver.acted hs with
  | quiet hquiet hs hc =>
      rw [hs.shared, show ({ s with caller := s'.caller } : Driver).caller.sq = s.caller.sq from hs.sq]
      exact h.reads (Caller.readMove hquiet hprotocol hc) hs.submitted
  | idle => exact h
  | refused | noRearm => exact { h with }
  | pushed sqe =>
      cases sqe with
      | write id fd buf => exact hprotocol.elim
      | recvMultishot fd connId =>
          exact h.pushes (c := s.caller.pushed (.recvMultishot fd connId)) ⟨rfl, rfl, rfl, rfl, rfl⟩ rfl
            (e := ⟨.recvMultishot fd connId, _⟩) nofun nofun
      | timeout => exact h.timerPushed
      | timeoutRemove => exact h.removalPushed
  | rearmPushed m =>
      exact h.pushes (c := s.caller.pushSqe (.recvMultishot m.val.fd m.val.connId) m.origin) ⟨rfl, rfl, rfl, rfl, rfl⟩ rfl
        (e := ⟨.recvMultishot m.val.fd m.val.connId, _⟩) nofun nofun
  | sendPushed fd buf connId requestId hlt =>
      exact h.pushes (c := s.caller.sendPushed fd buf connId requestId) ⟨rfl, rfl, rfl, rfl, rfl⟩ rfl
        (e := ⟨.write s.caller.nextSend fd buf, _⟩) nofun nofun
  | submitted => exact h.submitsAll hfitting
  | ticket k => exact { h with }
  | polled hresponses => exact h.takes hresponses hprotocol.2.1 hterms
  | popped hresponses => exact h.takes hresponses hprotocol.2.1 hterms
  | rearm hrearms => exact { h with }

end

/-- **`recv_timeout` times only its own wait** in every run in which a call takes a `Timeout` from the ring only when no
    timer of an earlier call is outstanding. -/
theorem timeouts_own {ring turns maxReq : Nat} {calls : List Call} {op : PoolOp}
    {k : op.Ret → Prog PoolSys (Except Empty Unit × Unit)} {s : Driver}
    (h : Runs ownTimers ring turns maxReq calls (.call op k) s) :
    s.TimesOwnWait op ∧ ∀ id, s.caller.pool.stash id ≠ some .timeout := by
  obtain ⟨-, -, hclocked⟩ := h.invariant (I := fun s => Fitting s.caller.sq s ∧ Clocked s.caller.sq s)
    ⟨fitting_start ring, clocked_start ring⟩
    (fun _ ha _ hI => by
      rw [Driver.perform_caller ha]
      exact ⟨hI.1.happened ha, hI.2.happened hI.1 ha⟩)
    (fun hprotocol hterms hact hsound hI => ⟨hI.1.acted hsound hprotocol hact, hI.2.acted hI.1 hprotocol hterms hact⟩)
  have hprotocol := h.protocol
  refine ⟨?_, hclocked.stash⟩
  cases op with
  | returned r =>
      cases r with
      | error e => trivial
      | ok o =>
          have hgives := hprotocol o rfl
          cases o with
          | none => exact fun hsubmitted => (hclocked.hand (hgives.nothing rfl (hclocked.submitted hsubmitted))).2
          | some r =>
              rintro rfl
              obtain ⟨hhand, hno⟩ := hgives.result _ rfl
              exact hno (hclocked.hand hhand).1 rfl
  | stash r =>
      rintro rfl
      exact hprotocol.2 (hclocked.hand hprotocol.1).1 rfl
  | _ => trivial

/-! ## Runs -/

/-- The timers that are outstanding, call by call. -/
def Driver.outstanding (s : Driver) : List Nat :=
  (s.caller.sq.filter fun e => e.val = .timeout).map Stamped.origin ++
    s.ops.filterMap (fun op => match op with | .timer call => some call | _ => none) ++
    (s.cq.filter fun e => e.val.userData = TIMEOUT_UD).map Stamped.origin ++
    (s.outbox.filter fun m => m.val = .result .timeout).map Stamped.origin ++
    (s.responses.filter fun r => r.val = .timeout).map Stamped.origin

theorem Driver.mem_outstanding {s : Driver} {call : Nat} (h : s.Outstanding s.caller.sq call) :
    call ∈ s.outstanding := by
  unfold outstanding
  simp only [List.mem_append, List.mem_map, List.mem_filter, List.mem_filterMap, decide_eq_true_eq]
  rcases h with h | h | ⟨e, he, hud, rfl⟩ | h | h
  · exact .inl (.inl (.inl (.inl ⟨_, ⟨h, rfl⟩, rfl⟩)))
  · exact .inl (.inl (.inl (.inr ⟨_, h, rfl⟩)))
  · exact .inl (.inl (.inr ⟨e, ⟨he, hud⟩, rfl⟩))
  · exact .inl (.inr ⟨_, ⟨h, rfl⟩, rfl⟩)
  · exact .inr ⟨_, ⟨h, rfl⟩, rfl⟩

def ownTimers.decided : ownTimers.Decided where
  env _ _ := true
  act s
    | .popResponse, some r | .popBlock, some r => r.val ≠ .timeout || s.outstanding.all fun call => call = s.caller.calls
    | _, _ => true
  env_sound _ _ _ := trivial
  act_sound := by
    intro s op r hok
    have hall : ∀ r : Stamped ConnResult,
        (decide (r.val ≠ .timeout) || s.outstanding.all fun call => call = s.caller.calls) = true → r.val = .timeout →
        ∀ call, s.Outstanding s.caller.sq call → call = s.caller.calls := by
      intro r hok htimeout call hcall
      rcases (Bool.or_eq_true _ _).mp hok with hne | hok
      · exact absurd htimeout (of_decide_eq_true hne)
      · exact of_decide_eq_true (List.all_eq_true.mp hok call (Driver.mem_outstanding hcall))
    cases op with
    | popResponse =>
        cases r with
        | none => trivial
        | some r => exact hall r hok
    | popBlock =>
        cases r with
        | none => trivial
        | some r => exact hall r hok
    | _ => trivial

/-- A call that finds nothing is woken by its timer. -/
theorem timeouts_own_one : ∃ s k, Runs ownTimers 8 4 1000 [.recvTimeout 1] (.call (.returned (.ok none)) k) s ∧
    s.caller.calls ∈ s.caller.submitted ∧ s.caller.calls ∈ s.expired := by
  obtain ⟨p, s, hruns, hnext, hsubmitted⟩ := scheduled_runs ownTimers.decided 8 4 1000 [.recvTimeout 1]
    (List.replicate 4 none ++ [some (Driver.Happening.expired 0), some .reap, some .deliver, none])
    (P := fun p s => p.next? = some (.returned (.ok none)) ∧ s.caller.calls ∈ s.caller.submitted) (by decide +kernel)
  obtain ⟨k, rfl⟩ := Prog.next?_eq_some hnext
  exact ⟨s, k, hruns, hsubmitted, (timeouts_own hruns).1 hsubmitted⟩

/-- The first `recv_timeout` gets an error for its request, and removes its timer. The second one is woken by that, and
    gives up at once. -/
theorem timeouts_mixed : ¬∀ ring turns maxReq calls op k s, Runs Terms.any ring turns maxReq calls (.call op k) s →
    s.TimesOwnWait op ∧ ∀ id, s.caller.pool.stash id ≠ some .timeout := by
  intro h
  obtain ⟨p, s, hruns, hnext, hsubmitted, hexpired⟩ := scheduled_runs Terms.any.decided 8 4 1000
    (oneRequest ++ [Call.recvTimeout 1, .recvTimeout 2])
    (firstRequest ++ List.replicate 5 none ++
      [some (Driver.Happening.written 0 76), some .reap, some (.broken 0 104), some .reap, some .deliver] ++
      List.replicate 10 none ++ [some Driver.Happening.reap, some .deliver, none])
    (P := fun p s => p.next? = some (.returned (.ok none)) ∧ s.caller.calls ∈ s.caller.submitted ∧ s.expired = [])
    (by decide +kernel)
  obtain ⟨k, rfl⟩ := Prog.next?_eq_some hnext
  have hown := (h _ _ _ _ _ k s hruns).1 hsubmitted
  rw [hexpired] at hown
  cases hown

end Xibalba.Iouring
