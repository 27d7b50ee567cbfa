import Xibalba.Iouring.Correctness.Tickets

/-!
# `Iouring.Correctness.Generations` — the sockets of a connection id

A connection id is used again: for a new connection after `disconnect`, and for a new socket after a failure. What is
under way names the id, and the complete thread keeps its state by the id. The results here are about the runs in which an
id is bound to a new socket only when nothing under way names it and no request waits for a response on it. Then a live
connection sees only the events of its own socket.

Layout:
* `Driver.labels`, what is under way, and the terms;
* what an event does to the state of a connection;
* the invariants `Owned`, `Stirred` and `Traced`, their steps, and `generations_isolated`;
* a run in which a new connection starts with a request of the last one.
-/

namespace Xibalba.Iouring

/-! ## What names a connection -/

/-- What something under way says it is about: a connection, its fd if it names one, and the socket. -/
structure Label where
  connId : Nat
  fd? : Option Nat
  origin : Nat
deriving DecidableEq

def Caller.sqeLabel (c : Caller) (e : Stamped Sqe) : Option Label :=
  match e.val with
  | .write id fd _ => (c.sends id).map fun k => ⟨k.val.connId, some fd, e.origin⟩
  | .recvMultishot fd connId => some ⟨connId, some fd, e.origin⟩
  | .timeout | .timeoutRemove => none

def Caller.opLabel (c : Caller) : KernelOp → Option Label
  | .write id _ socket => (c.sends id).map fun k => ⟨k.val.connId, none, socket⟩
  | .recv fd connId socket => some ⟨connId, some fd, socket⟩
  | .timer _ => none

def Caller.cqeLabel (c : Caller) (e : Stamped Cqe) : Option Label :=
  if TIMEOUT_REMOVE_UD ≤ e.val.userData then none
  else if UserData.isRecv e.val.userData then
    some ⟨UserData.connId e.val.userData, some (UserData.fd e.val.userData), e.origin⟩
  else (c.sends e.val.userData).map fun k => ⟨k.val.connId, none, e.origin⟩

/-- A result names a connection if it says that it has failed. -/
def resultLabel (r : Stamped ConnResult) : Option Label := r.val.failed.map fun connId => ⟨connId, none, r.origin⟩

def rearmLabel (m : Stamped RearmMsg) : Label := ⟨m.val.connId, some m.val.fd, m.origin⟩

def msgLabel (m : Stamped Msg) : Option Label :=
  match m.val with
  | .result r => resultLabel ⟨r, m.origin⟩
  | .rearm m' => some (rearmLabel ⟨m', m.origin⟩)

/-- What is under way. -/
def Driver.labels (s : Driver) : List Label :=
  s.caller.sq.filterMap s.caller.sqeLabel ++ s.ops.filterMap s.caller.opLabel ++ s.cq.filterMap s.caller.cqeLabel ++
    s.outbox.filterMap msgLabel ++ s.responses.filterMap resultLabel ++ s.rearms.map rearmLabel ++
    s.caller.pool.pendingRearms.map rearmLabel

/-- Nothing under way names the connection, and no request waits for a response on it. -/
def Driver.Unused (s : Driver) (connId : Nat) : Prop :=
  (∀ l ∈ s.labels, l.connId ≠ connId) ∧ (s.thread.entry connId).pendingIds = []

instance (s : Driver) (connId : Nat) : Decidable (s.Unused connId) := inferInstanceAs (Decidable (_ ∧ _))

/-- A connection id is bound to a new socket only when nothing is left of the last one. -/
def Driver.CleanBind (s : Driver) : (op : PoolOp) → op.Ret → Prop
  | .insertConn connId _ _, _ | .rebind connId _, _ => s.Unused connId
  | _, _ => True

def cleanBinds : Terms := ⟨fun _ _ => True, Driver.CleanBind⟩

/-- What holds of a live connection: the events in its state, and the next one that gets there, are of its socket. -/
structure Driver.Isolated (s : Driver) : Prop where
  state : ∀ connId cc, s.caller.Live connId cc → ∀ socket ∈ s.touched connId, socket = s.caller.last connId
  event : ∀ e rest connId ev cc, s.cq = e :: rest → s.thread.event s.ticketRx e.val = some (connId, ev) →
    s.caller.Live connId cc → e.origin = s.caller.last connId

/-- What the pool may do to a live connection: mark it for a failure of its own socket, and note that its recv is armed
    for a message about its own socket. A connection that is opened, or opened again, starts from nothing. -/
def Driver.IsolatedStep (s : Driver) : PoolOp → Prop
  | .insertConn connId _ _ | .rebind connId _ => (s.thread.entry connId).Blank
  | .unbind connId origin => origin = s.caller.last connId
  | .rearmed => ∀ m ∈ s.caller.pool.pendingRearms.head?, ∀ cc, s.caller.Live m.val.connId cc →
      m.origin = s.caller.last m.val.connId
  | _ => True

/-! ## Events and the state of a connection -/

/-- Neither bytes nor a response in the making are left. -/
def ConnData.Clean (conn : ConnData) : Prop := conn.parser = .new ∧ conn.recvBuf = []

theorem ConnData.blank_iff {conn : ConnData} : conn.Blank ↔ conn.pendingIds = [] ∧ conn.Clean := Iff.rfl

theorem drainLoop_connId (conn : ConnData) (ids : List RequestId) (data : Bytes) :
    (drainLoop conn ids data).1.connId = conn.connId := by
  induction ids generalizing conn data with
  | nil => rfl
  | cons requestId ids ih =>
      rw [drainLoop]
      split
      next parser resp hfeed => exact ih _ _
      next => rfl
      next => rfl

/-- A failure that is reported while bytes are parsed is that of the connection. -/
theorem drainLoop_failed {conn : ConnData} {ids : List RequestId} {data : Bytes} {r : ConnResult} {connId : Nat}
    (h : r ∈ (drainLoop conn ids data).2) (hfailed : r.failed = some connId) : connId = conn.connId := by
  induction ids generalizing conn data with
  | nil => cases h
  | cons requestId ids ih =>
      rw [drainLoop] at h
      split at h
      next parser resp hfeed =>
        rcases List.mem_cons.mp h with rfl | h
        · cases hfailed
        · have hconn := ih h
          exact hconn
      next => cases h
      next =>
        rw [List.mem_singleton.mp h] at hfailed
        cases hfailed
        rfl

theorem ConnData.on_connId (conn : ConnData) (connId : Nat) (ev : ConnEvent) :
    (conn.on connId ev).1.connId = conn.connId := by
  cases ev with
  | sent requestId =>
      unfold ConnData.on ConnData.onSent
      dsimp only
      split
      · rfl
      · exact drainLoop_connId ..
  | data fd bytes =>
      unfold ConnData.on ConnData.onData
      dsimp only
      split
      · rfl
      · exact drainLoop_connId ..
  | failed fd errno => rfl
  | eof fd =>
      unfold ConnData.on finishUntilClose
      dsimp only
      split
      · split
        · rfl
        · rfl
      · rfl

theorem ConnData.on_failed {conn : ConnData} {connId connId' : Nat} {ev : ConnEvent} {r : ConnResult}
    (hconn : conn.connId = connId) (h : r ∈ (conn.on connId ev).2) (hfailed : r.failed = some connId') :
    connId' = connId := by
  cases ev with
  | sent requestId =>
      unfold ConnData.on ConnData.onSent at h
      dsimp only at h
      split at h
      next => cases h
      next => exact (drainLoop_failed h hfailed).trans hconn
  | data fd bytes =>
      unfold ConnData.on ConnData.onData at h
      dsimp only at h
      split at h
      next => cases h
      next => exact (drainLoop_failed h hfailed).trans hconn
  | failed fd errno =>
      rw [List.mem_singleton.mp h] at hfailed
      cases hfailed
      rfl
  | eof fd =>
      rw [List.mem_singleton.mp h] at hfailed
      unfold finishUntilClose at hfailed
      dsimp only at hfailed
      split at hfailed
      next =>
        split at hfailed
        next => cases hfailed
        next =>
          cases hfailed
          rfl
      next =>
        cases hfailed
        rfl

/-- A request that is sent leaves a clean connection clean. -/
theorem ConnData.Clean.sent {conn : ConnData} (h : conn.Clean) (connId : Nat) (requestId : RequestId) :
    (conn.on connId (.sent requestId)).1.Clean := by
  unfold ConnData.on ConnData.onSent
  dsimp only
  rw [if_pos (by rw [h.2]; rfl)]
  exact h

/-- A connection whose recv has failed or ended is clean. -/
theorem ConnData.clean_stopped (conn : ConnData) (connId : Nat) {fd : Nat} {ev : ConnEvent}
    (hev : (∃ errno, ev = .failed fd errno) ∨ ev = .eof fd) : (conn.on connId ev).1.Clean := by
  rcases hev with ⟨errno, rfl⟩ | rfl
  · exact ⟨rfl, rfl⟩
  · unfold ConnData.on finishUntilClose
    dsimp only
    split
    · split
      · exact ⟨rfl, rfl⟩
      · exact ⟨rfl, rfl⟩
    · exact ⟨rfl, rfl⟩

/-! ## What is under way is about the socket of its connection -/

/-- If the connection is live, the label is about its socket. -/
def Caller.Owns (c : Caller) (l : Label) : Prop :=
  ∀ cc, c.Live l.connId cc → l.origin = c.last l.connId ∧ ∀ fd, l.fd? = some fd → fd = cc.fd

/-- Everything under way is about the socket of its connection, when the entries `sq` have yet to be submitted. -/
structure Owned (sq : List (Stamped Sqe)) (s : Driver) : Prop where
  sq : ∀ e ∈ sq, ∀ l, s.caller.sqeLabel e = some l → s.caller.Owns l
  ops : ∀ op ∈ s.ops, ∀ l, s.caller.opLabel op = some l → s.caller.Owns l
  cq : ∀ e ∈ s.cq, ∀ l, s.caller.cqeLabel e = some l → s.caller.Owns l
  outbox : ∀ m ∈ s.outbox, ∀ l, msgLabel m = some l → s.caller.Owns l
  responses : ∀ r ∈ s.responses, ∀ l, resultLabel r = some l → s.caller.Owns l
  rearms : ∀ m ∈ s.rearms, s.caller.Owns (rearmLabel m)
  pending : ∀ m ∈ s.caller.pool.pendingRearms, s.caller.Owns (rearmLabel m)
  taken : ∀ r, s.caller.taken = some r → ∀ l, resultLabel r = some l → s.caller.Owns l

theorem owned_start (ring : Nat) : Owned [] (Driver.start ring) where
  sq := nofun
  ops := nofun
  cq := nofun
  outbox := nofun
  responses := nofun
  rearms := nofun
  pending := nofun
  taken := nofun

/-- A label that does not name the fd says less. -/
theorem Caller.Owns.weaken {c : Caller} {connId origin : Nat} {fd? : Option Nat} (h : c.Owns ⟨connId, fd?, origin⟩) :
    c.Owns ⟨connId, none, origin⟩ := fun cc hcc => ⟨(h cc hcc).1, nofun⟩

/-- An entry for an open fd is about the socket of that fd. -/
theorem Caller.Owns.at_socket {c : Caller} (hsound : c.Sound) {connId fd origin socket : Nat}
    (h : c.Owns ⟨connId, some fd, origin⟩) (hfd : c.sockets fd = some socket) : c.Owns ⟨connId, some fd, socket⟩ := by
  intro cc hcc
  obtain ⟨-, heq⟩ := h cc hcc
  refine ⟨?_, heq⟩
  rw [heq fd rfl, hsound.bound connId cc hcc] at hfd
  exact (Option.some.inj hfd).symm

theorem cqeLabel_written (c : Caller) {e : Cqe} (hud : e.userData < 2 ^ 63) (origin : Nat) :
    c.cqeLabel ⟨e, origin⟩ = (c.sends e.userData).map fun k => ⟨k.val.connId, none, origin⟩ := by
  unfold Caller.cqeLabel
  dsimp only
  rw [if_neg, UserData.isRecv_of_lt hud]
  · rfl
  · simp only [TIMEOUT_REMOVE_UD]
    omega

theorem cqeLabel_recv (c : Caller) {fd connId : Nat} (hfits : RearmMsg.Fits ⟨connId, fd⟩) {e : Cqe}
    (hud : e.userData = UserData.recv fd connId) (origin : Nat) :
    c.cqeLabel ⟨e, origin⟩ = some ⟨connId, some fd, origin⟩ := by
  have hfd : UserData.fd (UserData.recv fd connId) = fd :=
    UserData.fd_recv (Nat.lt_of_lt_of_le hfits.1 (by omega)) connId
  unfold Caller.cqeLabel
  dsimp only
  rw [hud, if_neg (Nat.not_le.mpr (UserData.recv_lt hfits.1 connId)), if_pos (UserData.isRecv_recv fd connId), hfd,
    UserData.connId_recv fd hfits.2]

theorem cqeLabel_timer (c : Caller) {e : Cqe} (hud : TIMEOUT_REMOVE_UD ≤ e.userData) (origin : Nat) :
    c.cqeLabel ⟨e, origin⟩ = none := if_pos hud

section

variable {sq sq' : List (Stamped Sqe)} {s s' : Driver}

/-- The label of a completion that is an event of a connection. -/
theorem cqeLabel_event (hticketed : Ticketed sq s) {e : Stamped Cqe} {t' : CompleteThread} {msgs : List Msg}
    (hreaps : Reaps s.thread s.ticketRx e.val t' msgs) {connId : Nat} {ev : ConnEvent}
    (hevent : s.thread.event s.ticketRx e.val = some (connId, ev)) :
    ∃ fd?, s.caller.cqeLabel e = some ⟨connId, fd?, e.origin⟩ := by
  obtain ⟨e, origin⟩ := e
  cases hreaps with
  | idle hno => exact absurd (hno.symm.trans hevent) nofun
  | timeout hno => exact absurd (hno.symm.trans hevent) nofun
  | @sent _ _ connId' requestId hud hev htouched =>
      cases Option.some.inj (hev.symm.trans hevent)
      obtain ⟨-, k, hk, rfl, -⟩ := CompleteThread.event_sent hev
      obtain ⟨origin', hsome⟩ := hticketed.found hk
      refine ⟨none, ?_⟩
      rw [cqeLabel_written _ hud, hsome]
      rfl
  | @received fd connId' piece more _ hfits hev htouched =>
      cases Option.some.inj (hev.symm.trans hevent)
      exact ⟨some fd, cqeLabel_recv _ hfits rfl _⟩
  | @stopped fd connId' result ev' _ hfits hev' hev htouched =>
      cases Option.some.inj (hev.symm.trans hevent)
      exact ⟨some fd, cqeLabel_recv _ hfits rfl _⟩

/-- Operations of the kernel end, and an entry is posted for one of them. -/
theorem Owned.posts (h : Owned sq s) {ops : List KernelOp} (hops : ∀ op ∈ ops, op ∈ s.ops) {e : Stamped Cqe}
    (he : ∀ l, s.caller.cqeLabel e = some l → s.caller.Owns l) (accepted : Nat → List (Bytes × Nat))
    (failed expired : List Nat) :
    Owned sq ({ s with ops := ops, accepted := accepted, failed := failed, expired := expired }.post e.val e.origin) := by
  refine { h with ops := fun op hop => h.ops op (hops op hop), cq := fun e' he' => ?_ }
  rcases List.mem_append.mp he' with he' | he'
  · exact h.cq e' he'
  · rw [List.mem_singleton.mp he']
    exact he

/-- What the complete thread pushes for an entry is about the connection of that entry. -/
theorem Reaps.label {t t' : CompleteThread} {ticketRx : List SendTicket} {e : Cqe} {msgs : List Msg}
    (h : Reaps t ticketRx e t' msgs) (hconnId : ∀ connId, (t.entry connId).connId = connId) {msg : Msg}
    (hmsg : msg ∈ msgs) {origin : Nat} {l : Label} (hl : msgLabel ⟨msg, origin⟩ = some l) :
    (∃ connId ev, t.event ticketRx e = some (connId, ev) ∧ l = ⟨connId, none, origin⟩) ∨
      ∃ fd connId, RearmMsg.Fits ⟨connId, fd⟩ ∧ e.userData = UserData.recv fd connId ∧ l = ⟨connId, some fd, origin⟩ := by
  have hresult : ∀ {connId : Nat} {ev : ConnEvent}, t.event ticketRx e = some (connId, ev) →
      msg ∈ ((t.entry connId).on connId ev).2.map Msg.result →
      ∃ connId ev, t.event ticketRx e = some (connId, ev) ∧ l = ⟨connId, none, origin⟩ := by
    intro connId ev hevent hmem
    obtain ⟨r, hr, rfl⟩ := List.mem_map.mp hmem
    obtain ⟨connId', hfailed, rfl⟩ := Option.map_eq_some_iff.mp (show resultLabel ⟨r, origin⟩ = some l from hl)
    rw [ConnData.on_failed (hconnId connId) hr hfailed]
    exact ⟨connId, ev, hevent, rfl⟩
  cases h with
  | idle => cases hmsg
  | timeout =>
      rw [List.mem_singleton.mp hmsg] at hl
      cases hl
  | sent hud hevent htouched => exact .inl (hresult hevent hmsg)
  | @received fd connId piece more _ hfits hevent htouched =>
      rcases List.mem_append.mp hmsg with hmsg | hmsg
      · exact .inl (hresult hevent hmsg)
      · split at hmsg
        · cases hmsg
        · rw [List.mem_singleton.mp hmsg] at hl
          cases hl
          exact .inr ⟨fd, connId, hfits, rfl, rfl⟩
  | stopped hfits hev hevent htouched => exact .inl (hresult hevent hmsg)

theorem Owned.reaped (h : Owned sq s) (hticketed : Ticketed sq s) {e : Stamped Cqe} {rest : List (Stamped Cqe)}
    (hposted : e.val.Posted) (hconnId : ∀ connId, (s.thread.entry connId).connId = connId) (hcq : s.cq = e :: rest) :
    Owned sq (s.reaped e rest) := by
  refine { h with cq := fun e' he' => h.cq e' (hcq ▸ List.mem_cons_of_mem _ he'), outbox := fun m hm l hl => ?_ }
  obtain ⟨msg, hmsg, rfl⟩ := List.mem_map.mp hm
  have hreaps : Reaps s.thread s.ticketRx e.val _ _ := reaps hposted
  rcases hreaps.label hconnId hmsg hl with ⟨connId, ev, hevent, rfl⟩ | ⟨fd, connId, hfits, hud, rfl⟩
  · obtain ⟨fd?, hlabel⟩ := cqeLabel_event hticketed hreaps hevent
    exact (h.cq e (hcq ▸ List.mem_cons_self) _ hlabel).weaken
  · exact h.cq e (hcq ▸ List.mem_cons_self) _ (cqeLabel_recv _ hfits hud e.origin)

theorem Driver.mem_of_split {ops front back : List KernelOp} {op : KernelOp} (hops : ops = front ++ op :: back) :
    op ∈ ops := by
  rw [hops]
  exact List.mem_append_right _ List.mem_cons_self

/-- **A step of the kernel or the complete thread** keeps what is owned. -/
theorem Owned.happened {a : Driver.Happening} (h : Owned sq s) (hfitting : Fitting sq s) (hticketed : Ticketed sq s)
    (hconnId : ∀ connId, (s.thread.entry connId).connId = connId) (hs : s.perform a = some s') : Owned sq s' := by
  -- an entry of a recv is about the socket of the operation
  have hrecv : ∀ {fd connId socket : Nat} {e : Cqe}, .recv fd connId socket ∈ s.ops →
      e.userData = UserData.recv fd connId → ∀ l, s.caller.cqeLabel ⟨e, socket⟩ = some l → s.caller.Owns l := by
    intro fd connId socket e hop hud l hl
    rw [cqeLabel_recv _ (hfitting.ops _ hop) hud] at hl
    exact h.ops _ hop l hl
  cases Driver.happened hs with
  | @written front back id buf socket result hops hle =>
      refine h.posts (fun _ => Driver.mem_of_mem_front_back hops) (e := ⟨⟨id, result, none, false⟩, socket⟩) ?_ _ s.failed
        s.expired
      intro l hl
      have hfits : id < 2 ^ 63 := hfitting.ops _ (Driver.mem_of_split hops)
      rw [cqeLabel_written _ hfits] at hl
      exact h.ops _ (Driver.mem_of_split hops) l hl
  | @received front back fd connId socket piece more hops hpiece =>
      refine h.posts ?_ (e := ⟨⟨UserData.recv fd connId, piece.length, some piece, more⟩, socket⟩)
        (hrecv (Driver.mem_of_split hops) rfl) s.accepted s.failed s.expired
      intro op hop
      split at hop
      · exact hop
      · exact Driver.mem_of_mem_front_back hops hop
  | @broken front back fd connId socket errno hops herrno =>
      exact h.posts (fun _ => Driver.mem_of_mem_front_back hops) (e := ⟨⟨_, _, none, false⟩, socket⟩)
        (hrecv (Driver.mem_of_split hops) rfl) s.accepted _ s.expired
  | @ended front back fd connId socket hops =>
      exact h.posts (fun _ => Driver.mem_of_mem_front_back hops) (e := ⟨⟨_, _, none, false⟩, socket⟩)
        (hrecv (Driver.mem_of_split hops) rfl) s.accepted _ s.expired
  | @expired front back call hops =>
      refine h.posts (fun _ => Driver.mem_of_mem_front_back hops) (e := ⟨⟨TIMEOUT_UD, -ETIME, none, false⟩, call⟩) ?_
        s.accepted s.failed _
      intro l hl
      rw [cqeLabel_timer _ (show TIMEOUT_REMOVE_UD ≤ TIMEOUT_UD by decide)] at hl
      cases hl
  | @reaped e rest hcq hrunning houtbox =>
      exact h.reaped hticketed (hfitting.cq e (hcq ▸ List.mem_cons_self)) hconnId hcq
  | @delivered r origin rest houtbox =>
      refine { h with outbox := fun m hm => h.outbox m (houtbox ▸ List.mem_cons_of_mem _ hm), responses := ?_ }
      intro r' hr' l hl
      rcases List.mem_append.mp hr' with hr' | hr'
      · exact h.responses r' hr' l hl
      · rw [List.mem_singleton.mp hr'] at hl
        exact h.outbox ⟨.result r, origin⟩ (houtbox ▸ List.mem_cons_self) l hl
  | @rearmDelivered m origin rest houtbox =>
      refine { h with outbox := fun m hm => h.outbox m (houtbox ▸ List.mem_cons_of_mem _ hm), rearms := ?_ }
      intro m' hm'
      rcases List.mem_append.mp hm' with hm' | hm'
      · exact h.rearms m' hm'
      · rw [List.mem_singleton.mp hm']
        exact h.outbox _ (houtbox ▸ List.mem_cons_self) _ rfl

/-- An entry is submitted. -/
theorem Owned.submits {e : Stamped Sqe} {rest : List (Stamped Sqe)} (h : Owned (e :: rest) s)
    (hfitting : Fitting (e :: rest) s) (hsound : s.caller.Sound) (hs : Driver.Submitted s e s') : Owned rest s' := by
  have hrest : Owned rest s := { h with sq := fun e' he' => h.sq e' (List.mem_cons_of_mem _ he') }
  have howns := h.sq e List.mem_cons_self
  have hfits := hfitting.sq e List.mem_cons_self
  have hkeep : ∀ op ∈ s.ops, op ∈ s.ops := fun _ hop => hop
  have hadd : ∀ op : KernelOp, (∀ l, s.caller.opLabel op = some l → s.caller.Owns l) →
      Owned rest { s with ops := s.ops ++ [op] } := by
    intro op hop
    refine { hrest with ops := fun op' hop' => ?_ }
    rcases List.mem_append.mp hop' with hop' | hop'
    · exact h.ops op' hop'
    · rw [List.mem_singleton.mp hop']
      exact hop
  have htimer : ∀ {ud : Nat} {result : Int} {origin : Nat}, TIMEOUT_REMOVE_UD ≤ ud →
      ∀ l, s.caller.cqeLabel ⟨⟨ud, result, none, false⟩, origin⟩ = some l → s.caller.Owns l := by
    intro ud result origin hud l hl
    rw [cqeLabel_timer _ hud] at hl
    cases hl
  cases hs with
  | @write id fd socket origin buf hfd =>
      refine hadd _ fun l hl => ?_
      obtain ⟨k, hk, rfl⟩ := Option.map_eq_some_iff.mp hl
      exact ((howns ⟨k.val.connId, some fd, origin⟩ (Option.map_eq_some_iff.mpr ⟨k, hk, rfl⟩)).at_socket hsound hfd).weaken
  | @writeClosed id fd origin buf hfd =>
      refine hrest.posts hkeep (e := ⟨⟨id, -EBADF, none, false⟩, origin⟩) (fun l hl => ?_) s.accepted s.failed s.expired
      have hid : id < 2 ^ 63 := hfits
      rw [cqeLabel_written _ hid] at hl
      obtain ⟨k, hk, rfl⟩ := Option.map_eq_some_iff.mp hl
      exact (howns ⟨k.val.connId, some fd, origin⟩ (Option.map_eq_some_iff.mpr ⟨k, hk, rfl⟩)).weaken
  | @recv fd connId socket origin hfd =>
      refine hadd _ fun l hl => ?_
      cases hl
      exact (howns _ rfl).at_socket hsound hfd
  | @recvClosed fd connId origin hfd =>
      refine hrest.posts hkeep (e := ⟨⟨UserData.recv fd connId, -EBADF, none, false⟩, origin⟩) (fun l hl => ?_) s.accepted _
        s.expired
      rw [cqeLabel_recv _ hfits rfl] at hl
      exact howns l hl
  | timeout => exact hadd _ nofun
  | @removed origin call hcall =>
      have hremoved := hrest.posts (fun op (hop : op ∈ s.ops.erase (.timer call)) => List.mem_of_mem_erase hop)
        (e := ⟨⟨TIMEOUT_UD, -ECANCELED, none, false⟩, call⟩) (htimer (by decide)) s.accepted s.failed s.expired
      exact hremoved.posts (fun _ hop => hop) (e := ⟨⟨TIMEOUT_REMOVE_UD, 0, none, false⟩, origin⟩)
        (htimer (Nat.le_refl _)) s.accepted s.failed s.expired
  | @noTimer origin hnone =>
      exact hrest.posts hkeep (e := ⟨⟨TIMEOUT_REMOVE_UD, -ENOENT, none, false⟩, origin⟩) (htimer (Nat.le_refl _))
        s.accepted s.failed s.expired

/-! ### Operations of the pool -/

theorem Driver.mem_labels {l : Label} : l ∈ s.labels ↔
    (∃ e ∈ s.caller.sq, s.caller.sqeLabel e = some l) ∨ (∃ op ∈ s.ops, s.caller.opLabel op = some l) ∨
      (∃ e ∈ s.cq, s.caller.cqeLabel e = some l) ∨ (∃ m ∈ s.outbox, msgLabel m = some l) ∨
      (∃ r ∈ s.responses, resultLabel r = some l) ∨ (∃ m ∈ s.rearms, rearmLabel m = l) ∨
      ∃ m ∈ s.caller.pool.pendingRearms, rearmLabel m = l := by
  simp only [labels, List.mem_append, List.mem_filterMap, List.mem_map, or_assoc]

/-- The sends are as before, and what was owned still is. -/
theorem Owned.onCaller (h : Owned s.caller.sq s) {c : Caller} (hsends : c.sends = s.caller.sends)
    (howns : ∀ l ∈ s.labels, s.caller.Owns l → c.Owns l)
    (hsq : ∀ e ∈ c.sq, e ∈ s.caller.sq ∨ ∀ l, s.caller.sqeLabel e = some l → c.Owns l)
    (hpending : ∀ m ∈ c.pool.pendingRearms, m ∈ s.caller.pool.pendingRearms)
    (htaken : ∀ r, c.taken = some r → ∀ l, resultLabel r = some l → c.Owns l) : Owned c.sq { s with caller := c } := by
  have hsqe : c.sqeLabel = s.caller.sqeLabel := by
    funext e
    unfold Caller.sqeLabel
    rw [hsends]
  have hop : c.opLabel = s.caller.opLabel := by
    funext op
    unfold Caller.opLabel
    rw [hsends]
  have hcqe : c.cqeLabel = s.caller.cqeLabel := by
    funext e
    unfold Caller.cqeLabel
    rw [hsends]
  constructor
  · intro e he l hl
    rw [show ({ s with caller := c } : Driver).caller.sqeLabel = s.caller.sqeLabel from hsqe] at hl
    rcases hsq e he with he | hnew
    · exact howns l (Driver.mem_labels.mpr (.inl ⟨e, he, hl⟩)) (h.sq e he l hl)
    · exact hnew l hl
  · intro op hmem l hl
    rw [show ({ s with caller := c } : Driver).caller.opLabel = s.caller.opLabel from hop] at hl
    exact howns l (Driver.mem_labels.mpr (.inr (.inl ⟨op, hmem, hl⟩))) (h.ops op hmem l hl)
  · intro e he l hl
    rw [show ({ s with caller := c } : Driver).caller.cqeLabel = s.caller.cqeLabel from hcqe] at hl
    exact howns l (Driver.mem_labels.mpr (.inr (.inr (.inl ⟨e, he, hl⟩)))) (h.cq e he l hl)
  · intro m hm l hl
    exact howns l (Driver.mem_labels.mpr (.inr (.inr (.inr (.inl ⟨m, hm, hl⟩))))) (h.outbox m hm l hl)
  · intro r hr l hl
    exact howns l (Driver.mem_labels.mpr (.inr (.inr (.inr (.inr (.inl ⟨r, hr, hl⟩)))))) (h.responses r hr l hl)
  · intro m hm
    exact howns _ (Driver.mem_labels.mpr (.inr (.inr (.inr (.inr (.inr (.inl ⟨m, hm, rfl⟩))))))) (h.rearms m hm)
  · intro m hm
    have hm := hpending m hm
    exact howns _ (Driver.mem_labels.mpr (.inr (.inr (.inr (.inr (.inr (.inr ⟨m, hm, rfl⟩))))))) (h.pending m hm)
  · exact htaken

/-- A live connection was live before, with the same fd and the same socket. -/
theorem Caller.Owns.of_live {c c' : Caller} {l : Label} (h : c.Owns l)
    (hlive : ∀ cc', c'.Live l.connId cc' → ∃ cc, c.Live l.connId cc ∧ cc'.fd = cc.fd ∧ c'.last l.connId = c.last l.connId) :
    c'.Owns l := by
  intro cc' hcc'
  obtain ⟨cc, hcc, hfd, hlast⟩ := hlive cc' hcc'
  rw [hfd, hlast]
  exact h cc hcc

/-- **A quiet operation** that meets the terms. -/
theorem Owned.quiet (h : Owned s.caller.sq s) {op : PoolOp} {c : Caller} (hmove : s.caller.ConnMove op c)
    (hsends : c.sends = s.caller.sends) (hsq : c.sq = s.caller.sq)
    (hterms : ∀ connId fd, (∃ url, op = .insertConn connId fd url) ∨ op = .rebind connId fd →
      ∀ l ∈ s.labels, l.connId ≠ connId) : Owned c.sq { s with caller := c } := by
  have hsq : ∀ e ∈ c.sq, e ∈ s.caller.sq ∨ ∀ l, s.caller.sqeLabel e = some l → c.Owns l := fun e he => .inl (hsq ▸ he)
  have hkept : (∀ connId cc', c.Live connId cc' → ∃ cc, s.caller.Live connId cc ∧ cc'.fd = cc.fd ∧
      c.last connId = s.caller.last connId) → c.taken = s.caller.taken →
      (∀ m ∈ c.pool.pendingRearms, m ∈ s.caller.pool.pendingRearms) → Owned c.sq { s with caller := c } := by
    intro hlive htaken hpending
    have howns : ∀ l, s.caller.Owns l → c.Owns l := fun l howns => howns.of_live fun cc' hcc' => hlive _ cc' hcc'
    refine h.onCaller hsends (fun l _ => howns l) hsq hpending fun r hr l hl => howns l (h.taken r ?_ l hl)
    rw [← htaken]
    exact hr
  have hpending := hmove.pending
  cases hmove with
  | same hsame htaken =>
      exact hkept (fun connId cc' hcc' => ⟨cc', hsame.live hcc', rfl, congrFun hsame.last connId⟩) htaken hpending
  | @bind _ connId fd cc hop hfresh hfd harmed =>
      refine h.onCaller hsends (fun l hl howns => howns.of_live fun cc' hcc' => ?_) hsq hpending nofun
      -- nothing under way names the id that is bound
      have hne := hterms connId fd hop l hl
      rcases Caller.live_onPool connId hcc' with ⟨heq, -, -⟩ | ⟨-, hcc'⟩
      · exact absurd heq hne
      · exact ⟨cc', hcc', rfl, Caller.bound_of_ne hne ..⟩
  | @drop _ connId o _ hop ho hsame htaken =>
      refine hkept (fun connId' cc' hcc' => ?_) htaken hpending
      rcases Caller.live_onPool connId (hsame.live hcc') with ⟨-, rfl, hmark⟩ | ⟨-, hcc'⟩
      · rw [ho cc' rfl] at hmark
        cases hmark
      · exact ⟨cc', hcc', rfl, congrFun hsame.last connId'⟩
  | @arm connId cc hlive hqueues =>
      refine hkept (fun connId' cc' hcc' => ?_) rfl hpending
      rcases Caller.live_onPool connId hcc' with ⟨rfl, heq, -⟩ | ⟨-, hcc'⟩
      · cases heq
        exact ⟨cc, hlive, rfl, rfl⟩
      · exact ⟨cc', hcc', rfl, rfl⟩
  | @rearmed m _ hpend hqueues hconns hlast htaken hrequested =>
      refine hkept (fun connId' cc' hcc' => ?_) htaken hpending
      obtain ⟨cc, hcc, hfd, -, -⟩ := Caller.live_armed hconns hcc'
      exact ⟨cc, hcc, hfd, congrFun hlast connId'⟩
  | @accepted requestId connId cc hlive harmed => exact hkept (fun connId' cc' hcc' => ⟨cc', hcc', rfl, rfl⟩) rfl hpending

/-- The connections are as before, and every new entry is owned. -/
theorem Owned.same (h : Owned s.caller.sq s) {c : Caller} (hsame : s.caller.SameConns c) (hsends : c.sends = s.caller.sends)
    (hsq : ∀ e ∈ c.sq, e ∈ s.caller.sq ∨ ∀ l, s.caller.sqeLabel e = some l → s.caller.Owns l)
    (htaken : ∀ r, c.taken = some r → ∀ l, resultLabel r = some l → s.caller.Owns l) :
    Owned c.sq { s with caller := c } := by
  have howns : ∀ l, s.caller.Owns l → c.Owns l := fun l howns =>
    howns.of_live fun cc hcc => ⟨cc, hsame.live hcc, rfl, congrFun hsame.last _⟩
  refine h.onCaller hsends (fun l _ => howns l) (fun e he => (hsq e he).imp_right fun hnew l hl => howns l (hnew l hl)) ?_
    fun r hr l hl => howns l (htaken r hr l hl)
  rw [hsame.pendingRearms]
  exact fun _ hm => hm

/-- A send is pushed. Its id is new, so that no other entry is about it. -/
theorem Owned.sendPushed (h : Owned s.caller.sq s) (hticketed : Ticketed s.caller.sq s)
    (hlt : s.caller.nextSend < 2 ^ 63) {cc : CallerConn} (fd : Nat) (buf : Bytes) (connId : Nat) (requestId : RequestId)
    (hlive : s.caller.Live connId cc) (hfd : cc.fd = fd) :
    Owned (s.caller.sendPushed fd buf connId requestId).sq
      { s with caller := s.caller.sendPushed fd buf connId requestId } := by
  have hsends : ∀ {id k}, s.caller.sends id = some k →
      (s.caller.sendPushed fd buf connId requestId).sends id = s.caller.sends id := by
    intro id k hsome
    rw [hsome]
    exact hticketed.sends_pushed fd buf connId requestId hsome
  constructor
  · intro e he l hl
    rcases List.mem_append.mp he with he | he
    · refine h.sq e he l ?_
      obtain ⟨sqe, origin⟩ := e
      cases sqe with
      | write id fd' buf' =>
          obtain ⟨k, origin', hsome, -⟩ := hticketed.sq _ he id fd' buf' rfl
          rw [← hl]
          show (s.caller.sends id).map _ = ((s.caller.sendPushed fd buf connId requestId).sends id).map _
          rw [hsends hsome]
      | recvMultishot fd' connId' => exact hl
      | timeout => exact hl
      | timeoutRemove => exact hl
    · rw [List.mem_singleton.mp he] at hl
      obtain ⟨k, hk, rfl⟩ := Option.map_eq_some_iff.mp hl
      cases (Function.update_self ..).symm.trans hk
      -- the entry names the socket the connection has now
      intro cc' hcc'
      obtain rfl : cc' = cc := Option.some.inj (hcc'.1.symm.trans hlive.1)
      exact ⟨rfl, fun fd' hfd' => (Option.some.inj hfd').symm.trans hfd.symm⟩
  · intro op hop l hl
    refine h.ops op hop l ?_
    cases op with
    | write id buf' socket =>
        obtain ⟨k, origin', hsome, -⟩ := hticketed.ops id buf' socket hop
        rw [← hl]
        show (s.caller.sends id).map _ = ((s.caller.sendPushed fd buf connId requestId).sends id).map _
        rw [hsends hsome]
    | recv fd' connId' socket => exact hl
    | timer call => exact hl
  · intro e he l hl
    refine h.cq e he l ?_
    rw [← hl]
    by_cases hud : e.val.userData < 2 ^ 63
    · obtain ⟨k, hsome⟩ := hticketed.posted e he hud
      rw [show ({ s with caller := s.caller.sendPushed fd buf connId requestId } : Driver).caller =
        s.caller.sendPushed fd buf connId requestId from rfl, cqeLabel_written _ hud, cqeLabel_written _ hud, hsends hsome]
    · unfold Caller.cqeLabel
      have hne : e.val.userData ≠ s.caller.nextSend := fun heq => hud (heq ▸ hlt)
      rw [show ({ s with caller := s.caller.sendPushed fd buf connId requestId } : Driver).caller.sends e.val.userData =
        s.caller.sends e.val.userData from Function.update_of_ne hne ..]
  · exact h.outbox
  · exact h.responses
  · exact h.rearms
  · exact h.pending
  · exact h.taken

/-- A result is taken from the ring. -/
theorem Owned.popped (h : Owned s.caller.sq s) {r : Stamped ConnResult} {rest : List (Stamped ConnResult)}
    (hresponses : s.responses = r :: rest) :
    Owned s.caller.sq { s with responses := rest, caller := s.caller.popped r } := by
  refine { h with
    responses := fun r' hr' => h.responses r' (hresponses ▸ List.mem_cons_of_mem _ hr')
    taken := ?_ }
  rintro _ ⟨⟩
  exact h.responses r (hresponses ▸ List.mem_cons_self)

/-- **An operation of the pool** that meets the terms keeps what is owned. -/
theorem Owned.acted {op : PoolOp} {r : op.Ret} (h : Owned s.caller.sq s) (hfitting : Fitting s.caller.sq s)
    (hticketed : Ticketed s.caller.sq s) (hsound : s.caller.Sound) (hprotocol : Protocol s.caller op)
    (hterms : s.CleanBind op r) (hs : s.Answers op r s') : Owned s'.caller.sq s' := by
  cases Driver.acted hs with
  | quiet hquiet hs hc =>
      rw [hs.shared]
      refine h.quiet (Caller.connMove hquiet hprotocol hc) hs.sends hs.sq ?_
      rintro connId fd (⟨url, rfl⟩ | rfl)
      · exact hterms.1
      · exact hterms.1
  | idle => exact h
  | refused | noRearm => exact { h with }
  | pushed sqe =>
      have hsends : (s.caller.pushed sqe).sends = s.caller.sends := by
        cases sqe with
        | write id fd buf => rfl
        | recvMultishot fd connId => rfl
        | timeout => rfl
        | timeoutRemove => rfl
      have htaken : (s.caller.pushed sqe).taken = s.caller.taken := by
        cases sqe with
        | write id fd buf => rfl
        | recvMultishot fd connId => rfl
        | timeout => rfl
        | timeoutRemove => rfl
      -- the new entry is about the socket its connection has, as the protocol says
      refine h.same (s.caller.pushed_conns sqe) hsends (fun e he => ?_) (fun r hr => h.taken r (htaken ▸ hr))
      rw [Caller.pushed_sq] at he
      refine (List.mem_append.mp he).imp_right fun he l hl => ?_
      rw [List.mem_singleton.mp he] at hl
      cases sqe with
      | write id fd buf => exact hprotocol.elim
      | recvMultishot fd connId =>
          obtain ⟨cc, hlive, rfl⟩ := hprotocol
          cases hl
          intro cc' hcc'
          obtain rfl : cc' = cc := Option.some.inj (hcc'.1.symm.trans hlive.1)
          exact ⟨rfl, fun fd hfd => (Option.some.inj hfd).symm⟩
      | timeout => cases hl
      | timeoutRemove => cases hl
  | rearmPushed m =>
      refine h.same ⟨rfl, rfl, rfl, rfl⟩ rfl (fun e he => ?_) h.taken
      refine (List.mem_append.mp he).imp_right fun he l hl => ?_
      rw [List.mem_singleton.mp he] at hl
      cases hl
      exact h.pending m (List.mem_of_mem_head? hprotocol)
  | sendPushed fd buf connId requestId hlt =>
      obtain ⟨cc, hlive, hfd⟩ := hprotocol
      exact h.sendPushed hticketed hlt fd buf connId requestId hlive hfd
  | submitted =>
      obtain ⟨⟨-, -, hall⟩, hcaller⟩ := Driver.submitAll
        (J := fun sq s => s.caller.Sound ∧ Fitting sq s ∧ Owned sq s)
        (fun hs hcaller h => ⟨hcaller ▸ h.1, h.2.1.submitted hs, h.2.2.submits h.2.1 h.1 hs⟩) ⟨hsound, hfitting, h⟩
      generalize s.caller.sq.foldl Driver.submitOne s = s₁ at hall hcaller ⊢
      rw [← hcaller]
      exact { hall with }
  | ticket k => exact { h with }
  | polled hresponses => exact h.popped hresponses
  | popped hresponses => exact h.popped hresponses
  | @rearm m rest hrearms =>
      refine { h with rearms := fun m' hm' => h.rearms m' (hrearms ▸ List.mem_cons_of_mem _ hm'), pending := ?_ }
      intro m' hm'
      rcases List.mem_append.mp hm' with hm' | hm'
      · exact h.pending m' hm'
      · rw [List.mem_singleton.mp hm']
        exact h.rearms m (hrearms ▸ List.mem_cons_self)

end

/-! ## A connection with bytes left has a recv -/

/-- The completion of a recv of the connection, which goes on after it or does not. -/
def Cqe.IsRecv (e : Cqe) (connId : Nat) (more : Bool) : Prop :=
  e.more = more ∧ ∃ fd, RearmMsg.Fits ⟨connId, fd⟩ ∧ e.userData = UserData.recv fd connId

theorem Cqe.IsRecv.ne_of_ne {e : Cqe} {fd connId connId' : Nat} {more : Bool} (hfits : RearmMsg.Fits ⟨connId, fd⟩)
    (hud : e.userData = UserData.recv fd connId) (h : e.IsRecv connId' more) : connId' = connId := by
  obtain ⟨-, fd', hfits', hud'⟩ := h
  exact (recv_inj hfits' hfits (hud'.symm.trans hud)).2

/-- Neither a send nor a timer completes a recv. -/
theorem Cqe.not_isRecv_of_lt {e : Cqe} (h : e.userData < 2 ^ 63) (connId : Nat) (more : Bool) : ¬e.IsRecv connId more := by
  rintro ⟨-, fd, -, hud⟩
  have hle := le_recv fd connId
  omega

theorem Cqe.not_isRecv_of_timer {e : Cqe} (h : TIMEOUT_REMOVE_UD ≤ e.userData) (connId : Nat) (more : Bool) :
    ¬e.IsRecv connId more := by
  rintro ⟨-, fd, hfits, hud⟩
  exact Nat.not_le.mpr (UserData.recv_lt hfits.1 connId) (hud ▸ h)

/-- A recv of the connection is queued or under way, or was the last of its entries, or is to be armed again. -/
def Driver.Receives (sq : List (Stamped Sqe)) (s : Driver) (connId : Nat) : Prop :=
  (∃ e ∈ sq, ∃ fd, e.val = .recvMultishot fd connId) ∨ (∃ fd socket, .recv fd connId socket ∈ s.ops) ∨
    (∃ e ∈ s.cq, e.val.IsRecv connId false) ∨ (∃ m ∈ s.outbox, ∃ fd, m.val = .rearm ⟨connId, fd⟩) ∨
    (∃ m ∈ s.rearms, m.val.connId = connId) ∨ ∃ m ∈ s.caller.pool.pendingRearms, m.val.connId = connId

/-- The recv of the connection is under way, or all its entries in the queue have a last one behind them. -/
def Driver.Followed (s : Driver) (connId : Nat) : Prop :=
  (∃ fd socket, .recv fd connId socket ∈ s.ops) ∨
    ∀ front e back, s.cq = front ++ e :: back → e.val.IsRecv connId true → ∃ e' ∈ back, e'.val.IsRecv connId false

/-- What holds of the state of the connections, when the entries `sq` have yet to be submitted. -/
structure Stirred (sq : List (Stamped Sqe)) (s : Driver) : Prop where
  connId : ∀ connId, (s.thread.entry connId).connId = connId
  clean : ∀ connId, ¬(s.thread.entry connId).Clean → s.Receives sq connId
  followed : ∀ connId, s.Followed connId

theorem stirred_start (ring : Nat) : Stirred [] (Driver.start ring) where
  connId _ := rfl
  clean _ h := absurd ⟨rfl, rfl⟩ h
  followed _ := .inr fun front e back h => by cases front <;> cases h

section

variable {sq sq' : List (Stamped Sqe)} {s s' : Driver}

/-- An entry is posted that is not one after which the recv of the connection goes on. -/
theorem followed_posted {s : Driver} {connId : Nat} {x : Stamped Cqe} (hx : ¬x.val.IsRecv connId true)
    (h : ∀ front e back, s.cq = front ++ e :: back → e.val.IsRecv connId true → ∃ e' ∈ back, e'.val.IsRecv connId false) :
    ∀ front e back, s.cq ++ [x] = front ++ e :: back → e.val.IsRecv connId true →
      ∃ e' ∈ back, e'.val.IsRecv connId false := by
  intro front e back hcq he
  rcases Driver.split_concat hcq with ⟨-, rfl⟩ | ⟨back', rfl, hfront⟩
  · exact absurd he hx
  · obtain ⟨e', he', hlast⟩ := h front e back' hfront he
    exact ⟨e', List.mem_append_left _ he', hlast⟩

/-- The last entry of a recv is posted. -/
theorem followed_last {s : Driver} {connId : Nat} {x : Stamped Cqe} (hx : x.val.IsRecv connId false) :
    ∀ front e back, s.cq ++ [x] = front ++ e :: back → e.val.IsRecv connId true →
      ∃ e' ∈ back, e'.val.IsRecv connId false := by
  intro front e back hcq he
  rcases Driver.split_concat hcq with ⟨-, rfl⟩ | ⟨back', rfl, -⟩
  · exact absurd (hx.1.symm.trans he.1) Bool.false_ne_true
  · exact ⟨x, List.mem_append_right _ List.mem_cons_self, hx⟩

/-- A step of the kernel. -/
theorem Stirred.kernel (h : Stirred sq s) (hthread : s'.thread = s.thread)
    (hreceives : ∀ connId, s.Receives sq connId → s'.Receives sq' connId)
    (hfollowed : ∀ connId, s.Followed connId → s'.Followed connId) : Stirred sq' s' := by
  constructor
  · rw [hthread]
    exact h.connId
  · rw [hthread]
    exact fun connId hno => hreceives connId (h.clean connId hno)
  · exact fun connId => hfollowed connId (h.followed connId)

/-- An operation that is no recv ends, and an entry is posted that is for none. -/
theorem Stirred.posts (h : Stirred sq s) {ops : List KernelOp}
    (hops : ∀ fd connId socket, .recv fd connId socket ∈ s.ops → .recv fd connId socket ∈ ops) {e : Cqe}
    (he : ∀ connId, ¬e.IsRecv connId true) (origin : Nat) (accepted : Nat → List (Bytes × Nat))
    (failed expired : List Nat) :
    Stirred sq ({ s with ops := ops, accepted := accepted, failed := failed, expired := expired }.post e origin) := by
  refine h.kernel rfl ?_ ?_
  · rintro connId (hsq | ⟨fd, socket, hop⟩ | ⟨e', he', hlast⟩ | hrest)
    · exact .inl hsq
    · exact .inr (.inl ⟨fd, socket, hops _ _ _ hop⟩)
    · exact .inr (.inr (.inl ⟨e', List.mem_append_left _ he', hlast⟩))
    · exact .inr (.inr (.inr hrest))
  · rintro connId (⟨fd, socket, hop⟩ | hfollowed)
    · exact .inl ⟨fd, socket, hops _ _ _ hop⟩
    · exact .inr (followed_posted (x := ⟨e, origin⟩) (he connId) hfollowed)

/-- A recv ends. -/
theorem Stirred.ends (h : Stirred sq s) {front back : List KernelOp} {fd connId socket : Nat}
    (hfits : RearmMsg.Fits ⟨connId, fd⟩) (hops : s.ops = front ++ .recv fd connId socket :: back) {e : Cqe}
    (hud : e.userData = UserData.recv fd connId) (hmore : e.more = false) (failed : List Nat) :
    Stirred sq ({ s with ops := front ++ back, failed := failed }.post e socket) := by
  have hlast : e.IsRecv connId false := ⟨hmore, fd, hfits, hud⟩
  have hkeep : ∀ {connId' fd' socket' : Nat}, .recv fd' connId' socket' ∈ s.ops →
      connId' = connId ∨ .recv fd' connId' socket' ∈ front ++ back := by
    intro connId' fd' socket' hop
    refine (Driver.eq_or_mem_front_back hops hop).imp_left fun heq => ?_
    cases heq
    rfl
  refine h.kernel rfl ?_ ?_
  · rintro connId' (hsq | ⟨fd', socket', hop⟩ | ⟨e', he', hlast'⟩ | hrest)
    · exact .inl hsq
    · rcases hkeep hop with rfl | hop
      · exact .inr (.inr (.inl ⟨⟨e, socket⟩, List.mem_append_right _ List.mem_cons_self, hlast⟩))
      · exact .inr (.inl ⟨fd', socket', hop⟩)
    · exact .inr (.inr (.inl ⟨e', List.mem_append_left _ he', hlast'⟩))
    · exact .inr (.inr (.inr hrest))
  · rintro connId' (⟨fd', socket', hop⟩ | hfollowed)
    · rcases hkeep hop with rfl | hop
      · exact .inr (followed_last (x := ⟨e, socket⟩) hlast)
      · exact .inl ⟨fd', socket', hop⟩
    · refine .inr (followed_posted (x := ⟨e, socket⟩) (fun hmore' => ?_) hfollowed)
      exact absurd (hmore.symm.trans hmore'.1) Bool.false_ne_true

/-- Reaping an entry keeps every other recv. -/
theorem receives_reaped {e : Stamped Cqe} {rest : List (Stamped Cqe)} (hcq : s.cq = e :: rest) (houtbox : s.outbox = [])
    {connId : Nat} (h : s.Receives sq connId) (he : ¬e.val.IsRecv connId false) :
    (s.reaped e rest).Receives sq connId := by
  rcases h with hsq | hop | ⟨e', he', hlast⟩ | ⟨m, hm, -⟩ | hrest
  · exact .inl hsq
  · exact .inr (.inl hop)
  · rcases List.mem_cons.mp (hcq ▸ he') with rfl | he'
    · exact absurd hlast he
    · exact .inr (.inr (.inl ⟨e', he', hlast⟩))
  · rw [houtbox] at hm
    cases hm
  · exact .inr (.inr (.inr (.inr hrest)))

/-- **Reaping an entry.** A connection that is left with bytes has got them from a recv, and so it has one: the recv goes
    on, or its last entry is still to be reaped, or it is to be armed again. -/
theorem Stirred.reaped (h : Stirred sq s) {e : Stamped Cqe} {rest : List (Stamped Cqe)} (hposted : e.val.Posted)
    (hcq : s.cq = e :: rest) (houtbox : s.outbox = []) : Stirred sq (s.reaped e rest) := by
  have hreaps : Reaps s.thread s.ticketRx e.val (s.thread.reap s.ticketRx e.val).1 (s.thread.reap s.ticketRx e.val).2.2 :=
    reaps hposted
  -- what makes the connection receive after the step
  have hgoes : ∀ connId, (∃ fd socket, .recv fd connId socket ∈ s.ops) → (s.reaped e rest).Receives sq connId :=
    fun _ hop => .inr (.inl hop)
  have hlater : ∀ connId, (∃ e' ∈ rest, e'.val.IsRecv connId false) → (s.reaped e rest).Receives sq connId :=
    fun _ he => .inr (.inr (.inl he))
  have hasks : ∀ connId fd, .rearm ⟨connId, fd⟩ ∈ (s.thread.reap s.ticketRx e.val).2.2 →
      (s.reaped e rest).Receives sq connId :=
    fun _ fd hmsg => .inr (.inr (.inr (.inl ⟨_, List.mem_map.mpr ⟨_, hmsg, rfl⟩, fd, rfl⟩)))
  have hkept : ∀ connId, ¬(s.thread.entry connId).Clean → ¬e.val.IsRecv connId false →
      (s.reaped e rest).Receives sq connId :=
    fun connId hno he => receives_reaped hcq houtbox (h.clean connId hno) he
  have hfollowed : ∀ connId, (s.reaped e rest).Followed connId := by
    intro connId
    refine (h.followed connId).imp_right fun hfollowed front e' back hrest he' => ?_
    have hrest : rest = front ++ e' :: back := hrest
    exact hfollowed (e :: front) e' back (by rw [hcq, hrest]; rfl) he'
  have hthread : (s.reaped e rest).thread = (s.thread.reap s.ticketRx e.val).1 := rfl
  generalize s.reaped e rest = s' at *
  suffices hstate : ∀ connId, ((s.thread.reap s.ticketRx e.val).1.entry connId).connId = connId ∧
      (¬((s.thread.reap s.ticketRx e.val).1.entry connId).Clean → s'.Receives sq connId) by
    refine ⟨fun connId => ?_, fun connId => ?_, hfollowed⟩
    · rw [hthread]
      exact (hstate connId).1
    · rw [hthread]
      exact (hstate connId).2
  clear hthread
  generalize (s.thread.reap s.ticketRx e.val).1 = t', (s.thread.reap s.ticketRx e.val).2.2 = msgs at hreaps hasks
  intro connId
  -- a connection the entry is not for
  have hother : t'.entry connId = s.thread.entry connId → ¬e.val.IsRecv connId false →
      (t'.entry connId).connId = connId ∧ (¬(t'.entry connId).Clean → s'.Receives sq connId) := by
    intro heq he
    rw [heq]
    exact ⟨h.connId connId, fun hno => hkept connId hno he⟩
  have hevent : ∀ {connId' ev}, Touched s.thread t' connId' ((s.thread.entry connId').on connId' ev).1 →
      (t'.entry connId').connId = connId' := by
    intro connId' ev htouched
    rw [htouched.entry, ConnData.on_connId]
    exact h.connId connId'
  obtain ⟨e, origin⟩ := e
  cases hreaps with
  | idle hno hud hrecv hentry =>
      refine hother (hentry connId) fun hrecv' => ?_
      obtain ⟨-, fd, hfits, hud'⟩ := id hrecv'
      have hremove : e.userData = TIMEOUT_REMOVE_UD := hrecv (by rw [hud', UserData.isRecv_recv])
      exact Cqe.not_isRecv_of_timer (Nat.le_of_eq hremove.symm) connId false hrecv'
  | timeout => exact hother rfl (Cqe.not_isRecv_of_timer (show TIMEOUT_REMOVE_UD ≤ TIMEOUT_UD by decide) connId false)
  | @sent _ _ connId' requestId hud hev htouched =>
      have hno := Cqe.not_isRecv_of_lt hud connId false
      by_cases heq : connId = connId'
      · subst heq
        -- a send brings no bytes
        refine ⟨hevent htouched, fun hdirty => hkept connId (fun hclean => hdirty ?_) hno⟩
        rw [htouched.entry]
        exact hclean.sent connId requestId
      · exact hother (htouched.other connId heq) hno
  | @received fd connId' piece more _ hfits hev htouched =>
      by_cases heq : connId = connId'
      · subst heq
        refine ⟨hevent htouched, fun _ => ?_⟩
        cases more with
        | false => exact hasks connId fd (List.mem_append_right _ List.mem_cons_self)
        | true =>
            -- the recv goes on, or the last of its entries comes behind this one
            rcases h.followed connId with hop | hback
            · exact hgoes connId hop
            · exact hlater connId (hback [] _ rest hcq ⟨rfl, fd, hfits, rfl⟩)
      · exact hother (htouched.other connId heq) fun hlast => heq (hlast.ne_of_ne hfits rfl)
  | @stopped fd connId' result ev _ hfits hev hevent' htouched =>
      by_cases heq : connId = connId'
      · subst heq
        -- its bytes are dropped with the recv
        refine ⟨hevent htouched, fun hdirty => absurd ?_ hdirty⟩
        rw [htouched.entry]
        exact ConnData.clean_stopped _ connId hev
      · exact hother (htouched.other connId heq) fun hlast => heq (hlast.ne_of_ne hfits rfl)

/-- **A step of the kernel or the complete thread.** -/
theorem Stirred.happened {a : Driver.Happening} (h : Stirred sq s) (hfitting : Fitting sq s)
    (hs : s.perform a = some s') : Stirred sq s' := by
  have hfits : ∀ {front back : List KernelOp} {op : KernelOp}, s.ops = front ++ op :: back → op.Fits :=
    fun hops => hfitting.ops _ (Driver.mem_of_split hops)
  have hkeep : ∀ {front back : List KernelOp} {op op' : KernelOp}, s.ops = front ++ op :: back → op' ≠ op → op' ∈ s.ops →
      op' ∈ front ++ back :=
    fun hops hne hop => (Driver.eq_or_mem_front_back hops hop).resolve_left hne
  cases Driver.happened hs with
  | @written front back id buf socket result hops hle =>
      exact h.posts (fun _ _ _ => hkeep hops nofun) (fun _ hmore => Bool.false_ne_true hmore.1) socket _ s.failed s.expired
  | @received front back fd connId socket piece more hops hpiece =>
      cases more with
      | false => exact h.ends (hfits hops) hops rfl rfl s.failed
      | true =>
          refine h.kernel rfl ?_ ?_
          · rintro connId' (hsq | hop | ⟨e', he', hlast⟩ | hrest)
            · exact .inl hsq
            · exact .inr (.inl hop)
            · exact .inr (.inr (.inl ⟨e', List.mem_append_left _ he', hlast⟩))
            · exact .inr (.inr (.inr hrest))
          · rintro connId' (hop | hfollowed)
            · exact .inl hop
            · by_cases heq : connId' = connId
              · -- the recv itself is under way
                refine .inl ⟨fd, socket, ?_⟩
                show .recv fd connId' socket ∈ s.ops
                rw [heq]
                exact Driver.mem_of_split hops
              · refine .inr (followed_posted (fun hmore => heq ?_) hfollowed)
                exact hmore.ne_of_ne (hfits hops) rfl
  | @broken front back fd connId socket errno hops herrno => exact h.ends (hfits hops) hops rfl rfl _
  | @ended front back fd connId socket hops => exact h.ends (hfits hops) hops rfl rfl _
  | @expired front back call hops =>
      exact h.posts (fun _ _ _ => hkeep hops nofun) (fun _ hmore => Bool.false_ne_true hmore.1) call s.accepted s.failed _
  | @reaped e rest hcq hrunning houtbox => exact h.reaped (hfitting.cq e (hcq ▸ List.mem_cons_self)) hcq houtbox
  | @delivered r origin rest houtbox =>
      refine h.kernel rfl ?_ fun _ hfollowed => hfollowed
      rintro connId (hsq | hop | hcq | ⟨m, hm, hval⟩ | hrest)
      · exact .inl hsq
      · exact .inr (.inl hop)
      · exact .inr (.inr (.inl hcq))
      · rcases List.mem_cons.mp (houtbox ▸ hm) with rfl | hm
        · obtain ⟨fd, heq⟩ := hval
          cases heq
        · exact .inr (.inr (.inr (.inl ⟨m, hm, hval⟩)))
      · exact .inr (.inr (.inr (.inr hrest)))
  | @rearmDelivered m origin rest houtbox =>
      refine h.kernel rfl ?_ fun _ hfollowed => hfollowed
      rintro connId (hsq | hop | hcq | ⟨m', hm', hval⟩ | ⟨m', hm', hconn⟩ | hpending)
      · exact .inl hsq
      · exact .inr (.inl hop)
      · exact .inr (.inr (.inl hcq))
      · rcases List.mem_cons.mp (houtbox ▸ hm') with rfl | hm'
        · obtain ⟨fd, heq⟩ := hval
          cases heq
          exact .inr (.inr (.inr (.inr (.inl ⟨_, List.mem_append_right _ List.mem_cons_self, rfl⟩))))
        · exact .inr (.inr (.inr (.inl ⟨m', hm', hval⟩)))
      · exact .inr (.inr (.inr (.inr (.inl ⟨m', List.mem_append_left _ hm', hconn⟩))))
      · exact .inr (.inr (.inr (.inr (.inr hpending))))

/-- An operation of the kernel begins. -/
theorem Stirred.begins (h : Stirred sq s) (op : KernelOp) : Stirred sq { s with ops := s.ops ++ [op] } := by
  refine h.kernel rfl ?_ ?_
  · rintro connId (hsq | ⟨fd, socket, hop⟩ | hrest)
    · exact .inl hsq
    · exact .inr (.inl ⟨fd, socket, List.mem_append_left _ hop⟩)
    · exact .inr (.inr hrest)
  · rintro connId (⟨fd, socket, hop⟩ | hfollowed)
    · exact .inl ⟨fd, socket, List.mem_append_left _ hop⟩
    · exact .inr hfollowed

/-- An entry is submitted. -/
theorem Stirred.submits {e : Stamped Sqe} {rest : List (Stamped Sqe)} (h : Stirred (e :: rest) s)
    (hfitting : Fitting (e :: rest) s) (hs : Driver.Submitted s e s') : Stirred rest s' := by
  have hrest : (∀ fd connId, e.val ≠ .recvMultishot fd connId) → Stirred rest s := by
    intro hne
    refine h.kernel rfl ?_ fun _ hfollowed => hfollowed
    rintro connId (⟨e', he', fd, hval⟩ | hrest)
    · rcases List.mem_cons.mp he' with rfl | he'
      · exact absurd hval (hne fd connId)
      · exact .inl ⟨e', he', fd, hval⟩
    · exact .inr hrest
  have hkeep : ∀ fd connId socket, .recv fd connId socket ∈ s.ops → .recv fd connId socket ∈ s.ops := fun _ _ _ hop => hop
  have hends : ∀ {e : Cqe}, e.more = false → ∀ connId, ¬e.IsRecv connId true :=
    fun hmore _ hrecv => Bool.false_ne_true (hmore.symm.trans hrecv.1)
  have hfits := hfitting.sq e List.mem_cons_self
  cases hs with
  | write hfd => exact (hrest nofun).begins _
  | writeClosed hfd => exact (hrest nofun).posts hkeep (hends rfl) _ s.accepted s.failed s.expired
  | @recv fd connId socket origin hfd =>
      refine h.kernel rfl ?_ ?_
      · rintro connId' (⟨e', he', fd', hval⟩ | ⟨fd', socket', hop⟩ | hrest)
        · rcases List.mem_cons.mp he' with rfl | he'
          · cases hval
            exact .inr (.inl ⟨fd, socket, List.mem_append_right _ List.mem_cons_self⟩)
          · exact .inl ⟨e', he', fd', hval⟩
        · exact .inr (.inl ⟨fd', socket', List.mem_append_left _ hop⟩)
        · exact .inr (.inr hrest)
      · rintro connId' (⟨fd', socket', hop⟩ | hfollowed)
        · exact .inl ⟨fd', socket', List.mem_append_left _ hop⟩
        · exact .inr hfollowed
  | @recvClosed fd connId origin hfd =>
      refine h.kernel rfl ?_ ?_
      · rintro connId' (⟨e', he', fd', hval⟩ | hop | ⟨e', he', hlast⟩ | hrest)
        · rcases List.mem_cons.mp he' with rfl | he'
          · cases hval
            exact .inr (.inr (.inl ⟨_, List.mem_append_right _ List.mem_cons_self, rfl, fd, hfits, rfl⟩))
          · exact .inl ⟨e', he', fd', hval⟩
        · exact .inr (.inl hop)
        · exact .inr (.inr (.inl ⟨e', List.mem_append_left _ he', hlast⟩))
        · exact .inr (.inr (.inr hrest))
      · rintro connId' (hop | hfollowed)
        · exact .inl hop
        · exact .inr (followed_posted (hends rfl connId') hfollowed)
  | timeout => exact (hrest nofun).begins _
  | @removed origin call hcall =>
      have hleft : ∀ fd connId socket, .recv fd connId socket ∈ s.ops → .recv fd connId socket ∈ s.ops.erase (.timer call) :=
        fun fd connId socket hop => (List.mem_erase_of_ne KernelOp.noConfusion).mpr hop
      have hremoved := (hrest nofun).posts hleft (e := ⟨TIMEOUT_UD, -ECANCELED, none, false⟩) (hends rfl) call s.accepted
        s.failed s.expired
      exact hremoved.posts (fun _ _ _ hop => hop) (hends rfl) origin s.accepted s.failed s.expired
  | noTimer hnone => exact (hrest nofun).posts hkeep (hends rfl) _ s.accepted s.failed s.expired

/-- What the caller's side holds of a recv comes and goes. -/
theorem Stirred.onCaller (h : Stirred sq s) {c : Caller} (hsq : ∀ e ∈ sq, e ∈ sq')
    (hpending : ∀ m ∈ s.caller.pool.pendingRearms, m ∈ c.pool.pendingRearms ∨
      ∃ e ∈ sq', e.val = .recvMultishot m.val.fd m.val.connId) : Stirred sq' { s with caller := c } := by
  refine h.kernel rfl ?_ fun _ hfollowed => hfollowed
  rintro connId (⟨e, he, hval⟩ | hop | hcq | houtbox | hrearms | ⟨m, hm, rfl⟩)
  · exact .inl ⟨e, hsq e he, hval⟩
  · exact .inr (.inl hop)
  · exact .inr (.inr (.inl hcq))
  · exact .inr (.inr (.inr (.inl houtbox)))
  · exact .inr (.inr (.inr (.inr (.inl hrearms))))
  · rcases hpending m hm with hm | ⟨e, he, hval⟩
    · exact .inr (.inr (.inr (.inr (.inr ⟨m, hm, rfl⟩))))
    · exact .inl ⟨e, he, m.val.fd, hval⟩

/-- A quiet operation. A message that is handled is replaced by the entry of its recv. -/
theorem Stirred.quiet (h : Stirred s.caller.sq s) {op : PoolOp} {c : Caller} (hmove : s.caller.ConnMove op c) :
    Stirred s.caller.sq { s with caller := c } := by
  refine h.onCaller (fun _ he => he) fun m hm => ?_
  cases hmove with
  | same hsame => exact .inl (hsame.pendingRearms ▸ hm)
  | bind => exact .inl hm
  | drop hop ho hsame => exact .inl (hsame.pendingRearms ▸ hm)
  | arm => exact .inl hm
  | rearmed hpending hqueues =>
      rcases List.mem_cons.mp (hpending ▸ hm) with rfl | hm
      · exact .inr hqueues
      · exact .inl hm
  | accepted => exact .inl hm

/-- **An operation of the pool.** -/
theorem Stirred.acted {op : PoolOp} {r : op.Ret} (h : Stirred s.caller.sq s) (hfitting : Fitting s.caller.sq s)
    (hprotocol : Protocol s.caller op) (hs : s.Answers op r s') : Stirred s'.caller.sq s' := by
  have hsame : ∀ {c : Caller}, s.caller.SameConns c → (∀ e ∈ s.caller.sq, e ∈ c.sq) → Stirred c.sq { s with caller := c } :=
    fun hconns hsq => h.onCaller hsq fun m hm => .inl (hconns.pendingRearms.symm ▸ hm)
  cases Driver.acted hs with
  | quiet hquiet hs hc =>
      rw [hs.shared, show ({ s with caller := s'.caller } : Driver).caller.sq = s.caller.sq from hs.sq]
      exact h.quiet (Caller.connMove hquiet hprotocol hc)
  | idle => exact h
  | refused | noRearm => exact { h with }
  | pushed sqe =>
      refine hsame (s.caller.pushed_conns sqe) fun e he => ?_
      rw [Caller.pushed_sq]
      exact List.mem_append_left _ he
  | rearmPushed m => exact hsame ⟨rfl, rfl, rfl, rfl⟩ fun e he => List.mem_append_left _ he
  | sendPushed fd buf connId requestId hlt => exact hsame ⟨rfl, rfl, rfl, rfl⟩ fun e he => List.mem_append_left _ he
  | submitted =>
      obtain ⟨⟨-, hall⟩, hcaller⟩ := Driver.submitAll (J := fun sq s => Fitting sq s ∧ Stirred sq s)
        (fun hs _ h => ⟨h.1.submitted hs, h.2.submits h.1 hs⟩) ⟨hfitting, h⟩
      refine hall.onCaller (fun _ he => he) fun m hm => .inl ?_
      rw [hcaller] at hm
      exact hm
  | ticket k => exact { h with }
  | polled hresponses => exact { h with }
  | popped hresponses => exact { h with }
  | @rearm m rest hrearms =>
      refine h.kernel rfl ?_ fun _ hfollowed => hfollowed
      rintro connId (hsq | hop | hcq | houtbox | ⟨m', hm', hval⟩ | ⟨m', hm', hval⟩)
      · exact .inl hsq
      · exact .inr (.inl hop)
      · exact .inr (.inr (.inl hcq))
      · exact .inr (.inr (.inr (.inl houtbox)))
      · rcases List.mem_cons.mp (hrearms ▸ hm') with rfl | hm'
        · exact .inr (.inr (.inr (.inr (.inr ⟨m', List.mem_append_right _ List.mem_cons_self, hval⟩))))
        · exact .inr (.inr (.inr (.inr (.inl ⟨m', hm', hval⟩))))
      · exact .inr (.inr (.inr (.inr (.inr ⟨m', List.mem_append_left _ hm', hval⟩))))

/-- An entry for a recv of the connection, wherever it is, names it. -/
theorem Driver.Receives.label (h : s.Receives s.caller.sq connId) : ∃ l ∈ s.labels, l.connId = connId := by
  rcases h with ⟨⟨sqe, origin⟩, he, fd, hval⟩ | ⟨fd, socket, hop⟩ | ⟨⟨e, origin⟩, he, -, fd, hfits, hud⟩ |
    ⟨⟨msg, origin⟩, hm, fd, hval⟩ | ⟨m, hm, rfl⟩ | ⟨m, hm, rfl⟩
  · obtain rfl : sqe = .recvMultishot fd connId := hval
    exact ⟨⟨connId, some fd, origin⟩, mem_labels.mpr (.inl ⟨_, he, rfl⟩), rfl⟩
  · exact ⟨⟨connId, some fd, socket⟩, mem_labels.mpr (.inr (.inl ⟨_, hop, rfl⟩)), rfl⟩
  · exact ⟨⟨connId, some fd, origin⟩, mem_labels.mpr (.inr (.inr (.inl ⟨_, he, cqeLabel_recv _ hfits hud origin⟩))), rfl⟩
  · obtain rfl : msg = .rearm ⟨connId, fd⟩ := hval
    exact ⟨⟨connId, some fd, origin⟩, mem_labels.mpr (.inr (.inr (.inr (.inl ⟨_, hm, rfl⟩)))), rfl⟩
  · exact ⟨rearmLabel m, mem_labels.mpr (.inr (.inr (.inr (.inr (.inr (.inl ⟨m, hm, rfl⟩)))))), rfl⟩
  · exact ⟨rearmLabel m, mem_labels.mpr (.inr (.inr (.inr (.inr (.inr (.inr ⟨m, hm, rfl⟩)))))), rfl⟩

/-- Of a connection that is not used nothing is left. -/
theorem Stirred.blank (h : Stirred s.caller.sq s) {connId : Nat} (hunused : s.Unused connId) :
    (s.thread.entry connId).Blank := by
  refine ConnData.blank_iff.mpr ⟨hunused.2, ?_⟩
  by_contra hno
  obtain ⟨l, hl, hconn⟩ := (h.clean connId hno).label
  exact hunused.1 l hl hconn

/-! ## Whose events are in the state -/

/-- The sockets whose events are in the state of a connection: none if nothing is left of them, and only its own if it is
    live. -/
structure Traced (s : Driver) : Prop where
  blank : ∀ connId, (s.thread.entry connId).Blank → s.touched connId = []
  state : ∀ connId cc, s.caller.Live connId cc → ∀ socket ∈ s.touched connId, socket = s.caller.last connId

theorem traced_start (ring : Nat) : Traced (Driver.start ring) where
  blank _ _ := rfl
  state _ _ _ _ h := by cases h

/-- The entry of an event of a live connection is about its socket. -/
theorem Owned.event (h : Owned sq s) (hfitting : Fitting sq s) (hticketed : Ticketed sq s) {e : Stamped Cqe}
    (he : e ∈ s.cq) {connId : Nat} {ev : ConnEvent} {cc : CallerConn}
    (hevent : s.thread.event s.ticketRx e.val = some (connId, ev)) (hlive : s.caller.Live connId cc) :
    e.origin = s.caller.last connId := by
  obtain ⟨fd?, hlabel⟩ := cqeLabel_event hticketed (reaps (hfitting.cq e he)) hevent
  exact (h.cq e he _ hlabel cc hlive).1

theorem Traced.reaped (h : Traced s) {e : Stamped Cqe} {rest : List (Stamped Cqe)}
    (horigin : ∀ connId ev cc, s.thread.event s.ticketRx e.val = some (connId, ev) → s.caller.Live connId cc →
      e.origin = s.caller.last connId) : Traced (s.reaped e rest) := by
  have hthread : (s.reaped e rest).thread = (s.thread.reap s.ticketRx e.val).1 := rfl
  have hcaller : (s.reaped e rest).caller = s.caller := rfl
  have htouched : (s.reaped e rest).touched = s.touchedBy (s.thread.reap s.ticketRx e.val).1 e := rfl
  generalize s.reaped e rest = s' at *
  unfold Driver.touchedBy at htouched
  cases hevent : s.thread.event s.ticketRx e.val with
  | none =>
      rw [hevent] at htouched
      constructor
      · intro connId hblank
        rw [hthread, (CompleteThread.reap_none hevent).1] at hblank
        rw [htouched]
        exact h.blank connId hblank
      · rw [hcaller, htouched]
        exact h.state
  | some event =>
      obtain ⟨connId, ev⟩ := event
      rw [hevent] at htouched
      dsimp only at htouched
      obtain ⟨⟨-, hother, -⟩, -⟩ := CompleteThread.reap_event hevent
      constructor
      · intro connId' hblank
        rw [hthread] at hblank
        rw [htouched]
        by_cases heq : connId' = connId
        · subst heq
          rw [Function.update_self, if_pos hblank]
        · rw [hother connId' heq] at hblank
          rw [Function.update_of_ne heq]
          exact h.blank connId' hblank
      · rw [hcaller, htouched]
        intro connId' cc hlive socket hsocket
        by_cases heq : connId' = connId
        · subst heq
          rw [Function.update_self] at hsocket
          -- the state was emptied, or the socket of the event is added to those of before
          split at hsocket
          · cases hsocket
          · rcases List.mem_cons.mp hsocket with rfl | hsocket
            · exact horigin connId' ev cc hevent hlive
            · exact h.state connId' cc hlive socket hsocket
        · rw [Function.update_of_ne heq] at hsocket
          exact h.state connId' cc hlive socket hsocket

/-- **A step of the kernel or the complete thread.** -/
theorem Traced.happened {a : Driver.Happening} (h : Traced s) (howned : Owned sq s) (hfitting : Fitting sq s)
    (hticketed : Ticketed sq s) (hs : s.perform a = some s') : Traced s' := by
  cases Driver.happened hs with
  | written => exact { h with }
  | received => exact { h with }
  | broken => exact { h with }
  | ended => exact { h with }
  | expired => exact { h with }
  | @reaped e rest hcq =>
      exact h.reaped fun connId ev cc hevent hlive =>
        howned.event hfitting hticketed (hcq ▸ List.mem_cons_self) hevent hlive
  | delivered => exact { h with }
  | rearmDelivered => exact { h with }

/-- A live connection was live before with the same socket, or starts from nothing. -/
theorem Traced.onCaller (h : Traced s) {c : Caller}
    (hlive : ∀ connId cc', c.Live connId cc' → (s.thread.entry connId).Blank ∨
      ∃ cc, s.caller.Live connId cc ∧ c.last connId = s.caller.last connId) : Traced { s with caller := c } := by
  refine ⟨h.blank, fun connId cc' hcc' socket hsocket => ?_⟩
  rcases hlive connId cc' hcc' with hblank | ⟨cc, hcc, hlast⟩
  · have hsocket : socket ∈ s.touched connId := hsocket
    rw [h.blank connId hblank] at hsocket
    cases hsocket
  · exact (h.state connId cc hcc socket hsocket).trans hlast.symm

/-- Submitting the queue touches no connection. -/
theorem Driver.submitAll_thread (sq : List (Stamped Sqe)) (s : Driver) :
    (sq.foldl submitOne s).thread = s.thread ∧ (sq.foldl submitOne s).touched = s.touched := by
  refine (submitAll (J := fun _ s₁ => s₁.thread = s.thread ∧ s₁.touched = s.touched) ?_ ⟨rfl, rfl⟩).1
  intro s₁ s₂ e rest hs _ hbefore
  cases hs with
  | write => exact hbefore
  | writeClosed => exact hbefore
  | recv => exact hbefore
  | recvClosed => exact hbefore
  | timeout => exact hbefore
  | removed => exact hbefore
  | noTimer => exact hbefore

/-- **An operation of the pool** that meets the terms. -/
theorem Traced.acted {op : PoolOp} {r : op.Ret} (h : Traced s) (hstirred : Stirred s.caller.sq s)
    (hprotocol : Protocol s.caller op) (hterms : s.CleanBind op r) (hs : s.Answers op r s') : Traced s' := by
  have hsame : ∀ {c : Caller}, s.caller.SameConns c → Traced { s with caller := c } :=
    fun hconns => h.onCaller fun connId cc hcc => .inr ⟨cc, hconns.live hcc, congrFun hconns.last connId⟩
  cases Driver.acted hs with
  | quiet hquiet hs hc =>
      have hmove := Caller.connMove hquiet hprotocol hc
      rw [hs.shared]
      generalize s'.caller = c at hmove
      cases hmove with
      | same hconns => exact hsame hconns
      | @bind _ connId fd cc hop =>
          have hunused : s.Unused connId := by
            rcases hop with ⟨url, rfl⟩ | rfl
            · exact hterms
            · exact hterms
          -- the connection that is bound starts from nothing, the others are as they were
          refine h.onCaller fun connId' cc' hcc' => ?_
          rcases Caller.live_onPool connId hcc' with ⟨rfl, -, -⟩ | ⟨hne, hcc'⟩
          · exact .inl (hstirred.blank hunused)
          · exact .inr ⟨cc', hcc', Caller.bound_of_ne hne ..⟩
      | @drop _ connId o _ hop ho hconns =>
          refine h.onCaller fun connId' cc' hcc' => .inr ?_
          rcases Caller.live_onPool connId (hconns.live hcc') with ⟨-, rfl, hmark⟩ | ⟨-, hcc'⟩
          · rw [ho cc' rfl] at hmark
            cases hmark
          · exact ⟨cc', hcc', congrFun hconns.last connId'⟩
      | @arm connId cc hlive =>
          refine h.onCaller fun connId' cc' hcc' => .inr ?_
          rcases Caller.live_onPool connId hcc' with ⟨rfl, -, -⟩ | ⟨-, hcc'⟩
          · exact ⟨cc, hlive, rfl⟩
          · exact ⟨cc', hcc', rfl⟩
      | @rearmed m _ hpending hqueues hconns hlast =>
          refine h.onCaller fun connId' cc' hcc' => .inr ?_
          obtain ⟨cc, hcc, -⟩ := Caller.live_armed hconns hcc'
          exact ⟨cc, hcc, congrFun hlast connId'⟩
      | accepted => exact { h with }
  | idle => exact h
  | refused | noRearm => exact { h with }
  | pushed sqe => exact hsame (s.caller.pushed_conns sqe)
  | rearmPushed m => exact { h with }
  | sendPushed => exact { h with }
  | submitted =>
      obtain ⟨hthread, htouched⟩ := Driver.submitAll_thread s.caller.sq s
      generalize s.caller.sq.foldl Driver.submitOne s = s₁ at hthread htouched
      refine ⟨?_, ?_⟩
      · show ∀ connId, (s₁.thread.entry connId).Blank → s₁.touched connId = []
        rw [hthread, htouched]
        exact h.blank
      · show ∀ connId cc, s.caller.Live connId cc → ∀ socket ∈ s₁.touched connId, socket = s.caller.last connId
        rw [htouched]
        exact h.state
  | ticket => exact { h with }
  | polled => exact { h with }
  | popped => exact { h with }
  | rearm => exact { h with }

end

/-! ## The result -/

/-- The invariant of the runs. -/
structure Apart (s : Driver) : Prop where
  fitting : Fitting s.caller.sq s
  ticketed : Ticketed s.caller.sq s
  owned : Owned s.caller.sq s
  stirred : Stirred s.caller.sq s
  traced : Traced s

section

variable {ring turns maxReq : Nat} {calls : List Call} {p : Prog PoolSys (Except Empty Unit × Unit)} {s : Driver}

theorem apart_runs (h : Runs cleanBinds ring turns maxReq calls p s) : s.caller.Sound ∧ Apart s := by
  refine h.invariant (I := Apart)
    ⟨fitting_start ring, ticketed_start ring, owned_start ring, stirred_start ring, traced_start ring⟩ ?_ ?_
  · rintro s s' a - ha hsound hI
    have hcaller := Driver.perform_caller ha
    constructor
    · rw [hcaller]
      exact hI.fitting.happened ha
    · rw [hcaller]
      exact hI.ticketed.happened ha
    · rw [hcaller]
      exact hI.owned.happened hI.fitting hI.ticketed hI.stirred.connId ha
    · rw [hcaller]
      exact hI.stirred.happened hI.fitting ha
    · exact hI.traced.happened hI.owned hI.fitting hI.ticketed ha
  · intro s s' op r hprotocol hterms hact hsound hI
    exact ⟨hI.fitting.acted hsound hprotocol hact, hI.ticketed.acted hprotocol hact,
      hI.owned.acted hI.fitting hI.ticketed hsound hprotocol hterms hact,
      hI.stirred.acted hI.fitting hprotocol hact, hI.traced.acted hI.stirred hprotocol hterms hact⟩

/-- **The sockets of a connection id are isolated** in every run in which an id is bound to a socket only when nothing is
    left of the last one: the state of a live connection holds events of its own socket only, and so will the next one
    that gets there; and no operation of the pool marks, arms or opens a connection because of another socket. -/
theorem generations_isolated (h : Runs cleanBinds ring turns maxReq calls p s) :
    s.Isolated ∧ ∀ (op : PoolOp) (k : op.Ret → Prog PoolSys (Except Empty Unit × Unit)), p = .call op k →
      ∀ r s', s.Answers op r s' → s.CleanBind op r → s.IsolatedStep op := by
  obtain ⟨hsound, hI⟩ := apart_runs h
  refine ⟨⟨hI.traced.state, ?_⟩, ?_⟩
  · intro e rest connId ev cc hcq hevent hlive
    exact hI.owned.event hI.fitting hI.ticketed (hcq ▸ List.mem_cons_self) hevent hlive
  · rintro op k rfl r s' - hclean
    have hprotocol := h.protocol
    cases op with
    | insertConn connId fd url => exact hI.stirred.blank hclean
    | rebind connId fd => exact hI.stirred.blank hclean
    | unbind connId origin =>
        -- the result that says so was pushed for the socket the connection has
        obtain ⟨⟨cc, hlive⟩, r, htaken, hfailed⟩ := hprotocol
        have howns := hI.owned.taken _ htaken ⟨connId, none, origin⟩ (by
          show r.failed.map _ = _
          rw [hfailed]
          rfl)
        exact (howns cc hlive).1
    | rearmed =>
        intro m hm cc hlive
        exact (hI.owned.pending m (List.mem_of_mem_head? hm) cc hlive).1
    | _ => trivial

end

/-! ## Runs -/

def cleanBinds.decided : cleanBinds.Decided where
  env _ _ := true
  act s
    | .insertConn connId _ _, _ | .rebind connId _, _ => decide (s.Unused connId)
    | _, _ => true
  env_sound _ _ _ := trivial
  act_sound := by
    intro s op r hok
    cases op with
    | insertConn connId fd url => exact (of_decide_eq_true hok : s.Unused connId)
    | rebind connId fd => exact (of_decide_eq_true hok : s.Unused connId)
    | _ => trivial

/-- The recv of the first request fails, and the next request connects again. -/
theorem generations_isolated_reconnect : ∃ s k, Runs cleanBinds 8 4 1000
    (oneRequest ++ [Call.recv 1, .request ⟨0, 3⟩ .get (ascii "/") none]) (.call (.rebind 0 3) k) s ∧ s.failed = [1] ∧
      s.Isolated ∧ (s.thread.entry 0).Blank := by
  obtain ⟨p, s, hruns, hnext, hfailed, hunused⟩ :=
    scheduled_runs cleanBinds.decided 8 4 1000 (oneRequest ++ [Call.recv 1, .request ⟨0, 3⟩ .get (ascii "/") none])
      (firstRequest ++ List.replicate 3 none ++ [some (Driver.Happening.written 0 76), some .reap,
        some (Driver.Happening.broken 0 104), some .reap, some .deliver] ++ List.replicate 11 none)
      (P := fun p s => p.next? = some (.rebind 0 3) ∧ s.failed = [1] ∧ s.Unused 0)
      (by decide +kernel)
  obtain ⟨k, rfl⟩ := Prog.next?_eq_some hnext
  obtain ⟨hisolated, hstep⟩ := generations_isolated hruns
  exact ⟨s, k, hruns, hfailed, hisolated, hstep (.rebind 0 3) k rfl () _ (Driver.answers_of rfl rfl) hunused⟩

/-- A connection is given up while its send completes. The next one gets its id, and with it the request that waits. -/
theorem generations_mixed : ¬∀ ring turns maxReq calls p s, Runs Terms.any ring turns maxReq calls p s → s.Isolated := by
  intro h
  obtain ⟨p, s, hruns, htouched, hlast, hconn, -⟩ :=
    scheduled_runs Terms.any.decided 8 4 1000 (oneRequest ++ [Call.disconnect ⟨0, 3⟩, .connect (ascii "http://a")])
      (firstRequest ++ [some (Driver.Happening.written 0 76)] ++ List.replicate 10 none ++ [some .reap])
      (P := fun _ s => s.touched 0 = [1] ∧ s.caller.last 0 = 2 ∧
        s.caller.pool.conns 0 = some ⟨3, false, false, ascii "http://a"⟩ ∧ (s.thread.entry 0).pendingIds = [1])
      (by decide +kernel)
  have hsocket := (h _ _ _ _ p s hruns).state 0 _ ⟨hconn, rfl⟩ 1 (by rw [htouched]; exact List.mem_cons_self)
  rw [hlast] at hsocket
  cases hsocket

end Xibalba.Iouring
