import Xibalba.Lib.Wp
import Xibalba.Iouring.Driver
import Mathlib.Logic.Relation

/-!
# `Iouring.Correctness.Protocol` — how the pool uses its operations

`Protocol` says of each operation what the pool's methods have made sure of when they perform it. It speaks of the
`Caller` only, which nothing else changes, so it is proved in the world `calling`, without the kernel and the complete
thread. `session_protocol` then holds of a pool at work in the world `driver`, however these interleave.

Layout:
* `Caller.Sound` and `Protocol`;
* the two worlds;
* a rule for each method.
-/

namespace Xibalba.Iouring

/-! ## What the pool makes sure of -/

/-- The connection a result says has failed. -/
def ConnResult.failed : ConnResult → Option Nat
  | .error _ conn _ | .protocolError _ conn _ => some conn.connId
  | _ => none

namespace Caller

/-- A connection that is not waiting for a reconnect. -/
def Live (c : Caller) (connId : Nat) (cc : CallerConn) : Prop :=
  c.pool.conns connId = some cc ∧ cc.needsReconnect = false

/-- The fd of a socket that was opened for no connection yet. -/
def Fresh (c : Caller) (fd : Nat) : Prop :=
  ∃ socket, c.sockets fd = some socket ∧ (∀ connId, c.last connId ≠ socket) ∧ ∀ q ∈ c.requested, q.2.2 ≠ socket

/-- The entry for a recv stands in the queue. -/
def Queues (c : Caller) (fd connId : Nat) : Prop := ∃ e ∈ c.sq, e.val = .recvMultishot fd connId

/-- What a call that waits for results may return: the result in hand, which is no `Timeout` if the call has a timer; or
    nothing, if it has one, only after a `Timeout`. -/
structure Gives (c : Caller) (o : Option ConnResult) : Prop where
  reading : c.reading = true
  result : ∀ r, o = some r → c.hand = some r ∧ (c.timed = true → r ≠ .timeout)
  nothing : o = none → c.timed = true → c.hand = some .timeout

/-- The call has emptied the re-arm ring, and pushed an entry for each message, unless one was refused. -/
def Handled (c : Caller) : Prop := c.looked = true ∧ (c.refused = false → c.pool.pendingRearms = [])

/-- What holds of the caller's side between any two operations. -/
structure Sound (c : Caller) : Prop where
  bound : ∀ connId cc, c.Live connId cc → c.sockets cc.fd = some (c.last connId)
  apart : ∀ connId connId' cc cc', c.Live connId cc → c.Live connId' cc' → c.last connId = c.last connId' →
    connId = connId'
  last_lt : ∀ connId, c.last connId < c.nextSocket
  socket_lt : ∀ fd socket, c.sockets fd = some socket → socket < c.nextSocket
  fd_lt : ∀ fd socket, c.sockets fd = some socket → fd < 2 ^ 31 - 1
  connId_lt : ∀ connId cc, c.pool.conns connId = some cc → connId < 2 ^ 32
  free_lt : ∀ connId ∈ c.pool.freeIds, connId < 2 ^ 32
  next_lt : c.pool.nextConnId < 2 ^ 32
  requested_lt : ∀ q ∈ c.requested, q.2.2 < c.nextSocket

end Caller

/-- What the methods have made sure of when they perform an operation. -/
def Protocol (c : Caller) : PoolOp → Prop
  | .push (.write _ _ _) => False
  | .push (.recvMultishot fd connId) => ∃ cc, c.Live connId cc ∧ cc.fd = fd
  | .push .timeout => c.reading = true ∧ c.timed = false
  | .push .timeoutRemove => c.reading = true ∧ c.armed = true ∧ c.cancelled = false
  | .pushRearm m => c.pool.pendingRearms.head? = some m
  | .pushSend fd _ connId _ => ∃ cc, c.Live connId cc ∧ cc.fd = fd
  | .pushTicket k => ∃ origin, c.sends k.id = some ⟨k, origin⟩
  | .close fd => ∀ connId cc, c.Live connId cc → cc.fd ≠ fd
  | .insertConn connId fd _ => connId < 2 ^ 32 ∧ c.Fresh fd
  | .freeConnId connId => connId < 2 ^ 32
  | .rebind connId fd => c.Fresh fd ∧ ∃ cc, c.pool.conns connId = some cc ∧ cc.needsReconnect = true
  | .unbind connId origin => (∃ cc, c.Live connId cc) ∧ ∃ r, c.taken = some ⟨r, origin⟩ ∧ r.failed = some connId
  | .arm connId => ∃ cc, c.Live connId cc ∧ c.Queues cc.fd connId
  | .rearmed => ∃ m rest, c.pool.pendingRearms = m :: rest ∧ c.Queues m.val.fd m.val.connId
  -- after its `Timeout`, `recv_timeout` reads no further
  | .popResponse | .popBlock => c.reading = true ∧ c.cancelled = false ∧ (c.timed = true → c.armed = true)
  | .stash r => c.hand = some r ∧ (c.timed = true → r ≠ .timeout)
  | .accepted _ connId => (∃ cc, c.Live connId cc ∧ cc.recvArmed = true) ∧ c.Handled ∧ c.sq = []
  | .returned r => ∀ o, r = .ok o → c.Gives o
  | _ => True

/-! ## The worlds -/

/-- Conditions on what happens in a run: on what happens on its own, and on the operations and their answers. -/
structure Terms where
  env : Driver → Driver.Happening → Prop
  act : Driver → (op : PoolOp) → op.Ret → Prop

/-- No condition. -/
def Terms.any : Terms := ⟨fun _ _ => True, fun _ _ _ => True⟩

/-- A step of the kernel or of the complete thread that meets the terms. -/
def Driver.Step (terms : Terms) (s s' : Driver) : Prop := ∃ a, terms.env s a ∧ s.perform a = some s'

/-- A pool with the kernel and the complete thread, in the runs whose steps meet the terms. -/
def driver (terms : Terms) : World PoolSys Driver where
  env := Relation.ReflTransGen (Driver.Step terms)
  guard s op := Protocol s.caller op
  act s op r s' := terms.act s op r ∧ s.Answers op r s'
  env_refl _ := .refl
  env_trans h₁ h₂ := h₁.trans h₂

/-- The caller's side of it. -/
def calling : World PoolSys Caller where
  env := Eq
  guard := Protocol
  act c op r c' := c.Answers op r c'
  env_refl _ := rfl
  env_trans h₁ h₂ := h₁.trans h₂

/-- The kernel and the complete thread leave the caller's side alone. -/
theorem Driver.perform_caller {s s' : Driver} {a : Happening} (h : s.perform a = some s') : s'.caller = s.caller := by
  unfold perform at h
  cases a with
  | written i result =>
      dsimp only at h
      split at h
      · split at h
        · cases h
          rfl
        · cases h
      · cases h
  | received i piece more =>
      dsimp only at h
      split at h
      · split at h
        · cases h
        · cases h
          rfl
      · cases h
  | broken i errno =>
      dsimp only at h
      split at h
      · split at h
        · cases h
        · cases h
          rfl
      · cases h
  | ended i =>
      dsimp only at h
      split at h
      · cases h
        rfl
      · cases h
  | expired i =>
      dsimp only at h
      split at h
      · cases h
        rfl
      · cases h
  | reap =>
      dsimp only at h
      split at h
      · split at h
        · cases h
          rfl
        · cases h
      · cases h
  | deliver =>
      dsimp only at h
      split at h
      · split at h
        · cases h
          rfl
        · cases h
      · split at h
        · cases h
          rfl
        · cases h
      · cases h

/-- What happens in between changes nothing of the caller's side. -/
theorem driver_env_caller {terms : Terms} {s s' : Driver} (h : (driver terms).env s s') : s'.caller = s.caller := by
  induction h with
  | refl => rfl
  | tail _ hstep ih =>
      obtain ⟨a, -, ha⟩ := hstep
      exact (Driver.perform_caller ha).trans ih

/-- A run of the driver is a run of the caller's side. -/
theorem reach_calling {terms : Terms} {α : Type} {p p' : Prog PoolSys α} {s s' : Driver}
    (h : Prog.Reach (driver terms) p s p' s') : Prog.Reach calling p s.caller p' s'.caller := by
  induction h with
  | refl => exact .refl _ _
  | env _ henv ih =>
      rw [driver_env_caller henv]
      exact ih
  | act _ hact ih =>
      obtain ⟨-, c, s₁, hc, -, rfl⟩ := hact
      exact .act ih hc

/-! ## Every operation keeps the caller's side sound -/

theorem Pool.modifyConn_conns (p : Pool) (connId : Nat) (f : CallerConn → CallerConn) :
    (p.modifyConn connId f).conns = Function.update p.conns connId ((p.conns connId).map f) := by
  unfold modifyConn
  cases h : p.conns connId with
  | some c => rfl
  | none =>
      show p.conns = Function.update p.conns connId none
      rw [← h, Function.update_eq_self]

@[simp] theorem Pool.modifyConn_pendingRearms (p : Pool) (connId : Nat) (f : CallerConn → CallerConn) :
    (p.modifyConn connId f).pendingRearms = p.pendingRearms := by
  unfold modifyConn
  split
  · rfl
  · rfl

theorem Pool.allocConnId_same (p : Pool) : p.allocConnId.2.conns = p.conns ∧ p.allocConnId.2.stash = p.stash ∧
    p.allocConnId.2.pendingRearms = p.pendingRearms := by
  unfold allocConnId
  split
  · exact ⟨rfl, rfl, rfl⟩
  · split
    · exact ⟨rfl, rfl, rfl⟩
    · exact ⟨rfl, rfl, rfl⟩

namespace Caller

variable {c c' : Caller}

/-- The bounds on the connection ids. -/
structure Bounded (p : Pool) : Prop where
  connId_lt : ∀ connId cc, p.conns connId = some cc → connId < 2 ^ 32
  free_lt : ∀ connId ∈ p.freeIds, connId < 2 ^ 32
  next_lt : p.nextConnId < 2 ^ 32

theorem Sound.bounded (h : c.Sound) : Bounded c.pool := ⟨h.connId_lt, h.free_lt, h.next_lt⟩

/-- No socket is opened or closed, and no connection bound to another one. -/
theorem Sound.of_live (h : c.Sound) (hsockets : c'.sockets = c.sockets) (hlast : c'.last = c.last)
    (hnext : c'.nextSocket = c.nextSocket) (hrequested : c'.requested = c.requested) (hbounded : Bounded c'.pool)
    (hlive : ∀ connId cc', c'.Live connId cc' → ∃ cc, c.Live connId cc ∧ cc.fd = cc'.fd) : c'.Sound where
  bound := by
    intro connId cc' hcc'
    obtain ⟨cc, hcc, hfd⟩ := hlive connId cc' hcc'
    rw [hsockets, hlast, ← hfd]
    exact h.bound connId cc hcc
  apart := by
    intro connId connId' cc cc' hcc hcc' heq
    obtain ⟨_, hcc, -⟩ := hlive connId cc hcc
    obtain ⟨_, hcc', -⟩ := hlive connId' cc' hcc'
    rw [hlast] at heq
    exact h.apart connId connId' _ _ hcc hcc' heq
  last_lt := by
    rw [hlast, hnext]
    exact h.last_lt
  socket_lt := by
    rw [hsockets, hnext]
    exact h.socket_lt
  fd_lt := by
    rw [hsockets]
    exact h.fd_lt
  connId_lt := hbounded.connId_lt
  free_lt := hbounded.free_lt
  next_lt := hbounded.next_lt
  requested_lt := by
    rw [hrequested, hnext]
    exact h.requested_lt

/-- The connections are as before. -/
theorem Sound.of_same (h : c.Sound) (hsockets : c'.sockets = c.sockets) (hlast : c'.last = c.last)
    (hnext : c'.nextSocket = c.nextSocket) (hrequested : c'.requested = c.requested)
    (hconns : c'.pool.conns = c.pool.conns)
    (hfree : c'.pool.freeIds = c.pool.freeIds) (hid : c'.pool.nextConnId = c.pool.nextConnId) : c'.Sound := by
  refine h.of_live hsockets hlast hnext hrequested ⟨?_, ?_, ?_⟩ ?_
  · rw [hconns]
    exact h.connId_lt
  · rw [hfree]
    exact h.free_lt
  · rw [hid]
    exact h.next_lt
  · intro connId cc' hcc'
    rw [Live, hconns] at hcc'
    exact ⟨cc', hcc', rfl⟩

theorem Sound.opened (h : c.Sound) {fd : Nat} (hfree : c.sockets fd = none) (hfd : fd < 2 ^ 31 - 1) :
    (c.opened fd).Sound := by
  have hother : ∀ fd' socket, c.sockets fd' = some socket → (c.opened fd).sockets fd' = some socket := by
    intro fd' socket hfd'
    rw [opened_of_ne, hfd']
    rintro rfl
    rw [hfree] at hfd'
    cases hfd'
  have hsocket : ∀ fd' socket, (c.opened fd).sockets fd' = some socket →
      (fd' = fd ∧ socket = c.nextSocket) ∨ c.sockets fd' = some socket := by
    intro fd' socket hsome
    by_cases heq : fd' = fd
    · subst heq
      rw [opened_self] at hsome
      cases hsome
      exact .inl ⟨rfl, rfl⟩
    · rw [opened_of_ne heq] at hsome
      exact .inr hsome
  constructor
  · intro connId cc hcc
    exact hother _ _ (h.bound connId cc hcc)
  · exact h.apart
  · intro connId
    exact Nat.lt_succ_of_lt (h.last_lt connId)
  · intro fd' socket hsome
    rcases hsocket fd' socket hsome with ⟨-, rfl⟩ | hsome
    · exact Nat.lt_succ_self _
    · exact Nat.lt_succ_of_lt (h.socket_lt fd' socket hsome)
  · intro fd' socket hsome
    rcases hsocket fd' socket hsome with ⟨rfl, -⟩ | hsome
    · exact hfd
    · exact h.fd_lt fd' socket hsome
  · exact h.connId_lt
  · exact h.free_lt
  · exact h.next_lt
  · intro q hq
    exact Nat.lt_succ_of_lt (h.requested_lt q hq)

/-- A socket is closed, and whichever connection had it is not live any more. -/
theorem Sound.of_closed (h : c.Sound) {fd : Nat} (hsockets : c'.sockets = (c.closed fd).sockets)
    (hlast : c'.last = c.last) (hnext : c'.nextSocket = c.nextSocket) (hrequested : c'.requested = c.requested)
    (hbounded : Bounded c'.pool) (hlive : ∀ connId cc, c'.Live connId cc → c.Live connId cc ∧ cc.fd ≠ fd) :
    c'.Sound := by
  have hsocket : ∀ fd' socket, c'.sockets fd' = some socket → c.sockets fd' = some socket := by
    intro fd' socket hsome
    rw [hsockets] at hsome
    by_cases heq : fd' = fd
    · subst heq
      rw [closed_self] at hsome
      cases hsome
    · rwa [closed_of_ne heq] at hsome
  constructor
  · intro connId cc hcc
    obtain ⟨hcc, hne⟩ := hlive connId cc hcc
    rw [hsockets, hlast, closed_of_ne hne]
    exact h.bound connId cc hcc
  · intro connId connId' cc cc' hcc hcc' heq
    rw [hlast] at heq
    exact h.apart connId connId' _ _ (hlive _ _ hcc).1 (hlive _ _ hcc').1 heq
  · rw [hlast, hnext]
    exact h.last_lt
  · intro fd' socket hsome
    rw [hnext]
    exact h.socket_lt fd' socket (hsocket fd' socket hsome)
  · intro fd' socket hsome
    exact h.fd_lt fd' socket (hsocket fd' socket hsome)
  · exact hbounded.connId_lt
  · exact hbounded.free_lt
  · exact hbounded.next_lt
  · rw [hrequested, hnext]
    exact h.requested_lt

/-- A connection is bound to a fresh socket. -/
theorem Sound.of_bound (h : c.Sound) {connId fd : Nat} (hfresh : c.Fresh fd) (hsockets : c'.sockets = c.sockets)
    (hlast : c'.last = (c.bound connId fd).last) (hnext : c'.nextSocket = c.nextSocket)
    (hrequested : c'.requested = c.requested) (hbounded : Bounded c'.pool)
    (hlive : ∀ connId' cc, c'.Live connId' cc → (connId' = connId ∧ cc.fd = fd) ∨ (connId' ≠ connId ∧ c.Live connId' cc)) :
    c'.Sound := by
  obtain ⟨socket, hsome, hnone, -⟩ := hfresh
  have hself : c'.last connId = socket := by
    rw [hlast, bound_self, hsome]
    rfl
  have hother : ∀ connId', connId' ≠ connId → c'.last connId' = c.last connId' := by
    intro connId' hne
    rw [hlast, bound_of_ne hne]
  constructor
  · intro connId' cc hcc
    rw [hsockets]
    rcases hlive connId' cc hcc with ⟨rfl, rfl⟩ | ⟨hne, hcc⟩
    · rw [hself, hsome]
    · rw [hother connId' hne]
      exact h.bound connId' cc hcc
  · intro id id' cc cc' hcc hcc' heq
    rcases hlive id cc hcc with ⟨rfl, -⟩ | ⟨hne, hcc⟩
    · rcases hlive id' cc' hcc' with ⟨rfl, -⟩ | ⟨hne', -⟩
      · rfl
      · rw [hself, hother id' hne'] at heq
        exact absurd heq.symm (hnone id')
    · rcases hlive id' cc' hcc' with ⟨rfl, -⟩ | ⟨hne', hcc'⟩
      · rw [hself, hother id hne] at heq
        exact absurd heq (hnone id)
      · rw [hother id hne, hother id' hne'] at heq
        exact h.apart id id' cc cc' hcc hcc' heq
  · intro connId'
    rw [hnext]
    by_cases heq : connId' = connId
    · rw [heq, hself]
      exact h.socket_lt fd socket hsome
    · rw [hother connId' heq]
      exact h.last_lt connId'
  · rw [hsockets, hnext]
    exact h.socket_lt
  · rw [hsockets]
    exact h.fd_lt
  · exact hbounded.connId_lt
  · exact hbounded.free_lt
  · exact hbounded.next_lt
  · rw [hrequested, hnext]
    exact h.requested_lt

theorem Bounded.setConn {p : Pool} (h : Bounded p) {connId : Nat} (hlt : connId < 2 ^ 32) (cc : Option CallerConn) :
    Bounded (p.setConn connId cc) where
  connId_lt := by
    intro connId' cc' hcc'
    by_cases heq : connId' = connId
    · rw [heq]
      exact hlt
    · rw [Pool.setConn_of_ne heq] at hcc'
      exact h.connId_lt connId' cc' hcc'
  free_lt := h.free_lt
  next_lt := h.next_lt

theorem Bounded.modifyConn {p : Pool} (h : Bounded p) (connId : Nat) (f : CallerConn → CallerConn) :
    Bounded (p.modifyConn connId f) := by
  unfold Pool.modifyConn
  cases hcc : p.conns connId with
  | some cc => exact h.setConn (h.connId_lt connId cc hcc) _
  | none => exact h

theorem Bounded.allocConnId {p : Pool} (h : Bounded p) : Bounded p.allocConnId.2 := by
  unfold Pool.allocConnId
  cases hfree : p.freeIds with
  | cons connId rest =>
      refine ⟨h.connId_lt, fun connId' hmem => h.free_lt connId' ?_, h.next_lt⟩
      rw [hfree]
      exact List.mem_cons_of_mem _ hmem
  | nil =>
      dsimp only
      split
      next hlt =>
        exact ⟨h.connId_lt, nofun, hlt⟩
      next => exact h

/-- An id that is freed was one that is allowed. -/
theorem Bounded.freeConnId {p : Pool} (h : Bounded p) {connId : Nat} (hlt : connId < 2 ^ 32) :
    Bounded (p.freeConnId connId) := by
  refine ⟨h.connId_lt, ?_, h.next_lt⟩
  intro connId' hmem
  unfold Pool.freeConnId at hmem
  dsimp only at hmem
  split at hmem
  · exact h.free_lt connId' hmem
  · rcases (List.mem_orderedInsert _).mp hmem with rfl | hmem
    · exact hlt
    · exact h.free_lt connId' hmem

/-- What `modifyConn` does to the live connections, if it leaves the fd and the mark alone. -/
theorem live_modifyConn {p : Pool} {connId connId' : Nat} {f : CallerConn → CallerConn} {cc : CallerConn}
    (hf : ∀ cc, (f cc).fd = cc.fd ∧ (f cc).needsReconnect = cc.needsReconnect)
    (hcc : (p.modifyConn connId f).conns connId' = some cc) (hlive : cc.needsReconnect = false) :
    ∃ cc₀, (p.conns connId' = some cc₀ ∧ cc₀.needsReconnect = false) ∧ cc₀.fd = cc.fd := by
  rw [Pool.modifyConn_conns] at hcc
  by_cases heq : connId' = connId
  · subst heq
    rw [Function.update_self] at hcc
    obtain ⟨cc₀, hcc₀, rfl⟩ := Option.map_eq_some_iff.mp hcc
    rw [(hf cc₀).2] at hlive
    exact ⟨cc₀, ⟨hcc₀, hlive⟩, ((hf cc₀).1).symm⟩
  · rw [Function.update_of_ne heq] at hcc
    exact ⟨cc, ⟨hcc, hlive⟩, rfl⟩

theorem Sound.unbound (h : c.Sound) {connId : Nat} {cc : CallerConn} (hcc : c.Live connId cc) :
    (c.unbound connId).Sound := by
  unfold Caller.unbound
  rw [hcc.1]
  refine h.of_closed rfl rfl rfl rfl (h.bounded.setConn (h.connId_lt connId cc hcc.1) _) ?_
  intro connId' cc' hcc'
  by_cases heq : connId' = connId
  · subst heq
    obtain ⟨hsome, hmark⟩ := hcc'
    have hself : some { cc with fd := NO_FD, recvArmed := false, needsReconnect := true } = some cc' :=
      (Pool.setConn_self ..).symm.trans hsome
    cases hself
    cases hmark
  · have hcc' : c.Live connId' cc' := by
      obtain ⟨hsome, hmark⟩ := hcc'
      exact ⟨(Pool.setConn_of_ne heq ..).symm.trans hsome, hmark⟩
    refine ⟨hcc', fun hfd => heq ?_⟩
    have hbound := h.bound connId' cc' hcc'
    rw [hfd, h.bound connId cc hcc] at hbound
    exact h.apart connId' connId cc' cc hcc' hcc (Option.some.inj hbound).symm

/-! One lemma for each operation that changes what `Sound` speaks of, or may change the caller's side in several ways. -/

/-- A connect opens a socket that no connection has yet. -/
theorem Sound.connected (h : c.Sound) {addr : Nat} {r : (PoolOp.blockingConnect addr).Ret}
    (hanswers : c.Answers (.blockingConnect addr) r c') : c'.Sound := by
  cases r with
  | none =>
      obtain rfl : c' = c := hanswers
      exact h
  | some fd =>
      obtain ⟨hfree, hfd, rfl⟩ := hanswers
      exact h.opened hfree hfd

theorem Sound.pushed (h : c.Sound) (sqe : Sqe) : (c.pushed sqe).Sound := by
  cases sqe with
  | write id fd buf => exact h.of_same rfl rfl rfl rfl rfl rfl rfl
  | recvMultishot fd connId => exact h.of_same rfl rfl rfl rfl rfl rfl rfl
  | timeout => exact h.of_same rfl rfl rfl rfl rfl rfl rfl
  | timeoutRemove => exact h.of_same rfl rfl rfl rfl rfl rfl rfl

theorem Sound.push (h : c.Sound) {sqe : Sqe} {r : (PoolOp.push sqe).Ret} (hanswers : c.Answers (.push sqe) r c') :
    c'.Sound := by
  cases r with
  | error e =>
      obtain ⟨-, rfl⟩ := hanswers
      exact h
  | ok u =>
      obtain ⟨-, rfl⟩ := hanswers
      exact h.pushed sqe

/-- The entry for a re-arm that is refused leaves a mark only. -/
theorem Sound.pushRearm (h : c.Sound) {m : Stamped RearmMsg} {r : (PoolOp.pushRearm m).Ret}
    (hanswers : c.Answers (.pushRearm m) r c') : c'.Sound := by
  cases r with
  | error e =>
      obtain ⟨-, rfl⟩ := hanswers
      exact h.of_same rfl rfl rfl rfl rfl rfl rfl
  | ok u =>
      obtain ⟨-, rfl⟩ := hanswers
      exact h.of_same rfl rfl rfl rfl rfl rfl rfl

theorem Sound.pushSend (h : c.Sound) {fd connId : Nat} {buf : Bytes} {requestId : RequestId}
    {r : (PoolOp.pushSend fd buf connId requestId).Ret}
    (hanswers : c.Answers (.pushSend fd buf connId requestId) r c') : c'.Sound := by
  cases r with
  | error e =>
      obtain ⟨-, rfl⟩ := hanswers
      exact h
  | ok id =>
      obtain ⟨-, -, -, rfl⟩ := hanswers
      exact h.of_same rfl rfl rfl rfl rfl rfl rfl

theorem Sound.submit (h : c.Sound) {r : PoolOp.submit.Ret} (hanswers : c.Answers .submit r c') : c'.Sound := by
  cases r with
  | error e =>
      obtain rfl : c' = c := hanswers
      exact h
  | ok u =>
      obtain rfl : c' = c.submittedAll := hanswers
      exact h.of_same rfl rfl rfl rfl rfl rfl rfl

theorem Sound.popResponse (h : c.Sound) {r : PoolOp.popResponse.Ret} (hanswers : c.Answers .popResponse r c') :
    c'.Sound := by
  cases r with
  | none =>
      obtain rfl : c' = c := hanswers
      exact h
  | some r =>
      obtain rfl : c' = c.popped r := hanswers
      exact h.of_same rfl rfl rfl rfl rfl rfl rfl

theorem Sound.popRearm (h : c.Sound) {r : PoolOp.popRearm.Ret} (hanswers : c.Answers .popRearm r c') : c'.Sound := by
  cases r with
  | none =>
      obtain rfl : c' = c.foundEmpty := hanswers
      exact h.of_same rfl rfl rfl rfl rfl rfl rfl
  | some m =>
      obtain rfl := show c' = _ from hanswers
      exact h.of_same rfl rfl rfl rfl rfl rfl rfl

theorem Sound.allocConnId (h : c.Sound) : (c.onPool fun p => p.allocConnId.2).Sound := by
  refine h.of_live rfl rfl rfl rfl h.bounded.allocConnId ?_
  intro connId cc hcc
  refine ⟨cc, ⟨?_, hcc.2⟩, rfl⟩
  rw [← (c.pool.allocConnId_same).1]
  exact hcc.1

/-- A new connection gets a socket that no other one has. -/
theorem Sound.insertConn (h : c.Sound) {connId fd : Nat} (hlt : connId < 2 ^ 32) (hfresh : c.Fresh fd) (url : Bytes) :
    ((c.bound connId fd).onPool fun p => p.setConn connId (some ⟨fd, false, false, url⟩)).Sound := by
  refine h.of_bound hfresh rfl rfl rfl rfl (h.bounded.setConn hlt _) ?_
  intro connId' cc hcc
  by_cases heq : connId' = connId
  · subst heq
    have hself : some ⟨fd, false, false, url⟩ = some cc := (Pool.setConn_self ..).symm.trans hcc.1
    cases hself
    exact .inl ⟨rfl, rfl⟩
  · exact .inr ⟨heq, (Pool.setConn_of_ne heq ..).symm.trans hcc.1, hcc.2⟩

/-- A connection that is removed needs nothing any more. -/
theorem Sound.removeConn (h : c.Sound) (connId : Nat) : (c.onPool fun p => p.setConn connId none).Sound := by
  by_cases hlt : connId < 2 ^ 32
  · refine h.of_live rfl rfl rfl rfl (h.bounded.setConn hlt _) ?_
    intro connId' cc hcc
    by_cases heq : connId' = connId
    · subst heq
      have hself : none = some cc := (Pool.setConn_self ..).symm.trans hcc.1
      cases hself
    · exact ⟨cc, ⟨(Pool.setConn_of_ne heq ..).symm.trans hcc.1, hcc.2⟩, rfl⟩
  · -- there is no such connection
    have hnone : c.pool.conns connId = none := by
      cases hcc : c.pool.conns connId with
      | none => rfl
      | some cc => exact absurd (h.connId_lt connId cc hcc) hlt
    refine h.of_same rfl rfl rfl rfl ?_ rfl rfl
    show Function.update c.pool.conns connId none = c.pool.conns
    rw [← hnone, Function.update_eq_self]

/-- A connection gets another socket. -/
theorem Sound.rebind (h : c.Sound) {connId fd : Nat} (hfresh : c.Fresh fd) {cc₀ : CallerConn}
    (hcc₀ : c.pool.conns connId = some cc₀) :
    ((c.bound connId fd).onPool fun p =>
      p.modifyConn connId fun cc => { cc with fd := fd, recvArmed := false, needsReconnect := false }).Sound := by
  refine h.of_bound hfresh rfl rfl rfl rfl (h.bounded.modifyConn _ _) ?_
  intro connId' cc hcc
  obtain ⟨hsome, hmark⟩ := hcc
  have hsome := (congrFun (Pool.modifyConn_conns ..) connId').symm.trans hsome
  by_cases heq : connId' = connId
  · subst heq
    rw [Function.update_self, show (c.bound connId' fd).pool.conns connId' = some cc₀ from hcc₀] at hsome
    cases hsome
    exact .inl ⟨rfl, rfl⟩
  · rw [Function.update_of_ne heq] at hsome
    exact .inr ⟨heq, hsome, hmark⟩

/-- The recv of a connection is marked, whatever else is made of the messages that wait. -/
theorem Sound.marked (h : c.Sound) {connId : Nat} {pending : List (Stamped RearmMsg)} :
    (c.onPool fun p =>
      ({ p with pendingRearms := pending } : Pool).modifyConn connId fun cc => { cc with recvArmed := true }).Sound := by
  have hpending : Bounded { c.pool with pendingRearms := pending } := ⟨h.connId_lt, h.free_lt, h.next_lt⟩
  refine h.of_live rfl rfl rfl rfl (hpending.modifyConn _ _) ?_
  intro connId' cc hcc
  exact live_modifyConn (p := { c.pool with pendingRearms := pending }) (f := fun cc => { cc with recvArmed := true })
    (fun _ => ⟨rfl, rfl⟩) hcc.1 hcc.2

theorem Sound.rearmed (h : c.Sound) (hanswers : c.rearmedOne = some c') : c'.Sound := by
  unfold rearmedOne at hanswers
  split at hanswers
  next => cases hanswers
  next =>
    cases hanswers
    exact h.marked

theorem Sound.returnedId (h : c.Sound) (requestId : RequestId) (connId : Nat) : (c.returnedId requestId connId).Sound := by
  refine { h with requested_lt := fun q hq => ?_ }
  rcases List.mem_cons.mp hq with rfl | hq
  · exact h.last_lt connId
  · exact h.requested_lt q hq

/-- **Every operation** the pool may perform keeps its side sound. -/
theorem Sound.answers (h : c.Sound) {op : PoolOp} {r : op.Ret} (hprotocol : Protocol c op)
    (hanswers : c.Answers op r c') : c'.Sound := by
  cases op with
  | self =>
      obtain ⟨-, rfl⟩ := hanswers
      exact h
  | resolve _ _ | pushTicket _ =>
      obtain rfl : c' = c := hanswers
      exact h
  | blockingConnect addr => exact h.connected hanswers
  | close fd =>
      obtain rfl : c' = c.closed fd := hanswers
      exact h.of_closed rfl rfl rfl rfl h.bounded fun connId cc hcc => ⟨hcc, hprotocol connId cc hcc⟩
  | push sqe => exact h.push hanswers
  | pushRearm m => exact h.pushRearm hanswers
  | pushSend fd buf connId requestId => exact h.pushSend hanswers
  | submit => exact h.submit hanswers
  | popResponse => exact h.popResponse hanswers
  | popBlock =>
      -- what the caller's thread owns does not say whether it has waited
      cases r with
      | none => exact h.popResponse (r := none) hanswers
      | some r => exact h.popResponse (r := some r) hanswers
  | popRearm => exact h.popRearm hanswers
  | allocConnId =>
      obtain ⟨-, rfl⟩ := hanswers
      exact h.allocConnId
  | insertConn connId fd url =>
      obtain ⟨hlt, hfresh⟩ := hprotocol
      obtain rfl := show c' = _ from hanswers
      exact h.insertConn hlt hfresh url
  | removeConn connId =>
      obtain ⟨-, rfl⟩ := hanswers
      exact h.removeConn connId
  | freeConnId connId =>
      obtain rfl := show c' = _ from hanswers
      exact h.of_live rfl rfl rfl rfl (h.bounded.freeConnId hprotocol) fun connId' cc hcc => ⟨cc, hcc, rfl⟩
  | rebind connId fd =>
      obtain ⟨hfresh, cc₀, hcc₀, -⟩ := hprotocol
      obtain rfl := show c' = _ from hanswers
      exact h.rebind hfresh hcc₀
  | unbind connId origin =>
      obtain ⟨⟨cc, hcc⟩, -⟩ := hprotocol
      obtain rfl : c' = c.unbound connId := hanswers
      exact h.unbound hcc
  | arm connId =>
      obtain rfl := show c' = _ from hanswers
      exact h.marked
  | rearmed => exact h.rearmed hanswers
  | takeRequestId =>
      obtain ⟨-, rfl⟩ := hanswers
      exact h.of_same rfl rfl rfl rfl rfl rfl rfl
  | unstash id =>
      obtain ⟨-, rfl⟩ := hanswers
      exact h.of_same rfl rfl rfl rfl rfl rfl rfl
  | stash _ | call _ | returned _ =>
      obtain rfl := show c' = _ from hanswers
      exact h.of_same rfl rfl rfl rfl rfl rfl rfl
  | accepted requestId connId =>
      obtain rfl : c' = c.returnedId requestId connId := hanswers
      exact h.returnedId requestId connId

end Caller

/-! ## Rules -/

/-- The caller's side is sound, and `φ` holds of it. -/
def sound (φ : Caller → Prop) : calling.Assertion Unit where
  holds _ c := c.Sound ∧ φ c
  stable := by
    rintro _ _ _ rfl h
    exact h

/-- The same at the end of a program, for its result or its failure. -/
def ends {ε α : Type} (Q : α → Caller → Prop) (E : Caller → Prop) : Except ε α → calling.Assertion Unit
  | .ok a => sound (Q a)
  | .error _ => sound E

section

variable {ε α β : Type} {φ E : Caller → Prop} {Q : α → Caller → Prop} {Q' : β → Caller → Prop}

theorem op_rule (op : PoolOp) {Q : op.Ret → Caller → Prop} (hguard : ∀ c, c.Sound → φ c → Protocol c op)
    (hpost : ∀ c r c', c.Sound → φ c → c.Answers op r c' → Q r c') :
    Act.Triple (sound φ) (P.op op : P ε op.Ret) (ends Q E) := by
  refine Act.Triple.call ?_
  rintro _ c ⟨hsound, hφ⟩
  have hprotocol := hguard c hsound hφ
  exact ⟨hprotocol, fun r c' hact => ⟨hsound.answers hprotocol hact, hpost c r c' hsound hφ hact⟩⟩

theorem bind_rule {x : P ε α} {f : α → P ε β} (hx : Act.Triple (sound φ) x (ends Q E))
    (hf : ∀ a, Act.Triple (sound (Q a)) (f a) (ends Q' E)) : Act.Triple (sound φ) (x >>= f) (ends Q' E) :=
  hx.bind hf fun _ _ _ h => h

theorem pure_rule {a : α} (h : ∀ c, φ c → Q a c) : Act.Triple (sound φ) (pure a : P ε α) (ends Q E) :=
  .pure fun _ _ hs => ⟨hs.1, h _ hs.2⟩

theorem throw_rule {e : ε} (h : ∀ c, φ c → E c) : Act.Triple (sound φ) (Act.throw e : P ε α) (ends Q E) :=
  .throw fun _ _ hs => ⟨hs.1, h _ hs.2⟩

theorem ofExcept_rule {r : Except ε α} (hE : ∀ c, φ c → E c) :
    Act.Triple (sound φ) (Act.ofExcept r : P ε α) (ends (fun a c => r = .ok a ∧ φ c) E) := by
  refine .ofExcept fun _ c hs => ?_
  cases r with
  | ok a => exact ⟨hs.1, rfl, hs.2⟩
  | error e => exact ⟨hs.1, hE c hs.2⟩

theorem conseq_rule {x : P ε α} {φ' : Caller → Prop} {Q₁ : α → Caller → Prop} {E₁ : Caller → Prop}
    (h : Act.Triple (sound φ') x (ends Q₁ E₁)) (hφ : ∀ c, φ c → φ' c) (hQ : ∀ a c, Q₁ a c → Q a c)
    (hE : ∀ c, E₁ c → E c) : Act.Triple (sound φ) x (ends Q E) := by
  refine h.conseq (fun _ c hs => ⟨hs.1, hφ c hs.2⟩) fun r _ c hs => ?_
  cases r with
  | ok a => exact ⟨hs.1, hQ a c hs.2⟩
  | error e => exact ⟨hs.1, hE c hs.2⟩

end

/-- Nothing more is known. -/
abbrev anyway : Caller → Prop := fun _ => True

/-- A method that needs nothing and leaves nothing to be known. -/
abbrev Fine {ε α : Type} (x : P ε α) : Prop := Act.Triple (sound anyway) x (ends (fun _ => anyway) anyway)

namespace Pool

/-! ### Connections -/

/-- A socket that was dialed is fresh. What is known otherwise stays. -/
theorem dial_rule (url : Bytes) (failure : String) {φ : Caller → Prop} (hφ : ∀ c fd, φ c → φ (c.opened fd)) :
    Act.Triple (sound φ) (dial url failure) (ends (fun fd c => φ c ∧ c.Fresh fd) anyway) := by
  refine bind_rule (ofExcept_rule fun _ _ => trivial) fun parsed => ?_
  refine bind_rule (op_rule (.resolve _ _) (Q := fun _ => φ) (fun _ _ _ => trivial) ?_) fun resolved => ?_
  · intro c r c' _ h hact
    obtain rfl : c' = c := hact
    exact h.2
  refine bind_rule (ofExcept_rule fun _ _ => trivial) fun addr => ?_
  refine bind_rule (op_rule (.blockingConnect addr)
    (Q := fun (r : Option Nat) c => φ c ∧ ∀ fd, r = some fd → c.Fresh fd) (fun _ _ _ => trivial) ?_) fun fd? => ?_
  · intro c r c' hsound h hact
    cases r with
    | none =>
        obtain rfl : c' = c := hact
        exact ⟨h.2, nofun⟩
    | some fd =>
        obtain ⟨-, -, rfl⟩ := hact
        refine ⟨hφ c fd h.2, ?_⟩
        rintro _ ⟨⟩
        refine ⟨c.nextSocket, Caller.opened_self c fd, fun connId => ?_, fun q hq => ?_⟩
        · exact Nat.ne_of_lt (hsound.last_lt connId)
        · exact Nat.ne_of_lt (hsound.requested_lt q hq)
  · cases fd? with
    | none => exact throw_rule fun _ _ => trivial
    | some fd => exact pure_rule fun c h => ⟨h.1, h.2 fd rfl⟩

/-- A connection id is a `u32`. -/
theorem allocConnId_lt {p : Pool} (h : Caller.Bounded p) {connId : Nat} (hok : p.allocConnId.1 = .ok connId) :
    connId < 2 ^ 32 := by
  unfold allocConnId at hok
  cases hfree : p.freeIds with
  | cons id rest =>
      rw [hfree] at hok
      cases hok
      exact h.free_lt connId (hfree ▸ List.mem_cons_self)
  | nil =>
      rw [hfree] at hok
      dsimp only at hok
      split at hok
      · cases hok
        exact h.next_lt
      · cases hok

theorem connect_fine (url : Bytes) : Fine (connect url) := by
  refine bind_rule (dial_rule url _ fun _ _ h => h) fun fd => ?_
  refine bind_rule (op_rule .allocConnId
    (Q := fun (r : Except Error Nat) c => c.Fresh fd ∧ ∀ connId, r = .ok connId → connId < 2 ^ 32)
    (fun _ _ _ => trivial) ?_) fun allocated => ?_
  · rintro c r c' hsound ⟨-, hfresh⟩ ⟨rfl, rfl⟩
    exact ⟨hfresh, fun connId hok => allocConnId_lt hsound.bounded hok⟩
  refine bind_rule (ofExcept_rule fun _ _ => trivial) fun connId => ?_
  refine bind_rule (op_rule (.insertConn connId fd url) (Q := fun _ => anyway) ?_ fun _ _ _ _ _ _ => trivial)
    fun _ => pure_rule fun _ _ => trivial
  rintro c - ⟨hok, hfresh, hlt⟩
  exact ⟨hlt connId hok, hfresh⟩

theorem disconnect_fine (conn : ConnHandle) : Fine (disconnect conn) := by
  refine bind_rule (op_rule (.removeConn conn.connId)
    (Q := fun (r : Option CallerConn) c => ∀ cc, r = some cc → conn.connId < 2 ^ 32 ∧
      (cc.needsReconnect = false → ∀ connId cc', c.Live connId cc' → cc'.fd ≠ cc.fd)) (fun _ _ _ => trivial) ?_)
    fun removed => ?_
  · rintro c r c' hsound - ⟨rfl, rfl⟩ cc hcc
    refine ⟨hsound.connId_lt _ cc hcc, fun hmark connId cc' hcc' hfd => ?_⟩
    -- another connection has another socket
    by_cases heq : connId = conn.connId
    · subst heq
      have hself : none = some cc' := (Pool.setConn_self ..).symm.trans hcc'.1
      cases hself
    · have hcc' : c.Live connId cc' := ⟨(Pool.setConn_of_ne heq ..).symm.trans hcc'.1, hcc'.2⟩
      have hbound := hsound.bound connId cc' hcc'
      rw [hfd, hsound.bound conn.connId cc ⟨hcc, hmark⟩] at hbound
      exact heq (hsound.apart connId conn.connId cc' cc hcc' ⟨hcc, hmark⟩ (Option.some.inj hbound).symm)
  · cases removed with
    | none => exact pure_rule fun _ _ => trivial
    | some cc =>
        cases hmark : cc.needsReconnect with
        | true =>
            dsimp only
            rw [hmark]
            exact op_rule (.freeConnId conn.connId) (fun c _ h => (h cc rfl).1) fun _ _ _ _ _ _ => trivial
        | false =>
            dsimp only
            rw [hmark]
            refine bind_rule (op_rule (.close cc.fd) (Q := fun _ _ => conn.connId < 2 ^ 32) ?_ ?_) fun _ => ?_
            · intro c _ h
              exact (h cc rfl).2 hmark
            · intro c _ _ _ h _
              exact (h cc rfl).1
            · exact op_rule (.freeConnId conn.connId) (fun _ _ h => h) fun _ _ _ _ _ _ => trivial

/-! ### Requests -/

theorem collectRearms_rule (turns : Nat) :
    Act.Triple (sound anyway) (collectRearms turns) (ends (fun _ c => c.looked = true) anyway) := by
  induction turns with
  | zero => exact Act.Triple.hang
  | succ turns ih =>
      refine bind_rule (op_rule .popRearm (Q := fun (m : Option (Stamped RearmMsg)) c => m = none → c.looked = true)
        (fun _ _ _ => trivial) ?_) fun m => ?_
      · rintro c _ c' - - hact rfl
        obtain rfl : c' = c.foundEmpty := hact
        rfl
      cases m with
      | none => exact pure_rule fun _ h => h rfl
      | some m => exact conseq_rule ih (fun _ _ => trivial) (fun _ _ h => h) fun _ h => h

/-- **The loop over the messages** ends with none left, or with an entry refused. -/
theorem flushRearms_rule (turns : Nat) :
    Act.Triple (sound fun c => c.looked = true) (flushRearms turns) (ends (fun _ => Caller.Handled) anyway) := by
  induction turns with
  | zero => exact Act.Triple.hang
  | succ turns ih =>
      refine bind_rule (op_rule .self (Q := fun (p : Pool) c => p = c.pool ∧ c.looked = true) (fun _ _ _ => trivial) ?_)
        fun p => ?_
      · rintro c _ _ - h ⟨rfl, rfl⟩
        exact ⟨rfl, h⟩
      cases hpending : p.pendingRearms with
      | nil =>
          refine pure_rule ?_
          rintro c ⟨rfl, hlooked⟩
          exact ⟨hlooked, fun _ => hpending⟩
      | cons m rest =>
          refine bind_rule (op_rule (.pushRearm m) (Q := fun (r : Except String Unit) c => c.looked = true ∧
            (r = .ok () → c.pool.pendingRearms = m :: rest ∧ c.Queues m.val.fd m.val.connId) ∧
            (∀ e, r = .error e → c.refused = true)) ?_ ?_) fun pushed => ?_
          · rintro c - ⟨rfl, -⟩
            show c.pool.pendingRearms.head? = some m
            rw [hpending]
            rfl
          · rintro c r c' - ⟨rfl, hlooked⟩ hact
            cases r with
            | error e =>
                obtain ⟨-, rfl⟩ := hact
                exact ⟨hlooked, nofun, fun _ _ => rfl⟩
            | ok u =>
                obtain ⟨-, rfl⟩ := hact
                exact ⟨hlooked, fun _ => ⟨hpending, _, List.mem_append_right _ List.mem_cons_self, rfl⟩, nofun⟩
          cases pushed with
          | error e =>
              refine pure_rule fun c h => ⟨h.1, fun hno => ?_⟩
              rw [h.2.2 e rfl] at hno
              cases hno
          | ok u =>
              refine bind_rule (op_rule .rearmed (Q := fun _ c => c.looked = true) ?_ ?_) fun _ => ih
              · intro c _ h
                exact ⟨m, rest, h.2.1 rfl⟩
              · rintro c r c' - ⟨hlooked, hpushed, -⟩ hact
                have hact : c.rearmedOne = some c' := hact
                unfold Caller.rearmedOne at hact
                rw [(hpushed rfl).1] at hact
                cases hact
                exact hlooked

/-- **Draining** the re-arm ring handles the messages on it. -/
theorem drainRearms_rule (turns : Nat) :
    Act.Triple (sound anyway) (drainRearms turns) (ends (fun _ => Caller.Handled) anyway) := by
  refine bind_rule (collectRearms_rule turns) fun _ => ?_
  refine bind_rule (flushRearms_rule turns) fun _ => ?_
  refine bind_rule (op_rule .self (Q := fun _ => Caller.Handled) (fun _ _ _ => trivial) ?_) fun p => ?_
  · rintro c _ _ - h ⟨-, rfl⟩
    exact h
  split
  · exact pure_rule fun _ h => h
  · refine bind_rule (op_rule .submit (Q := fun _ => Caller.Handled) (fun _ _ _ => trivial) ?_) fun _ => pure_rule fun _ h => h
    intro c r c' _ h hact
    cases r with
    | error e =>
        obtain rfl : c' = c := hact
        exact h
    | ok u =>
        obtain rfl : c' = c.submittedAll := hact
        exact h

/-- The connection, if there is one, is not waiting for a reconnect any more. -/
def Connected (connId : Nat) (c : Caller) : Prop := ∀ cc, c.pool.conns connId = some cc → cc.needsReconnect = false

/-- **A connection is connected again** before anything is sent on it. -/
theorem reconnect_rule (connId : Nat) :
    Act.Triple (sound Caller.Handled) (reconnect connId) (ends (fun _ c => Connected connId c ∧ c.Handled) anyway) := by
  refine bind_rule (op_rule .self (Q := fun (p : Pool) c => p = c.pool ∧ c.Handled) (fun _ _ _ => trivial) ?_) fun p => ?_
  · rintro c _ _ - h ⟨rfl, rfl⟩
    exact ⟨rfl, h⟩
  cases hcc : p.conns connId with
  | none =>
      refine pure_rule ?_
      rintro c ⟨rfl, hhandled⟩
      refine ⟨fun cc hsome => ?_, hhandled⟩
      rw [hcc] at hsome
      cases hsome
  | some cc =>
      dsimp only
      split
      next hmark =>
        refine bind_rule (dial_rule cc.url _ fun _ _ h => h) fun fd => ?_
        refine op_rule (.rebind connId fd) ?_ ?_
        · rintro c - ⟨⟨rfl, -⟩, hfresh⟩
          exact ⟨hfresh, cc, hcc, hmark⟩
        · rintro c _ c' - ⟨⟨rfl, hhandled⟩, -⟩ hact
          obtain rfl := show c' = _ from hact
          refine ⟨fun cc' hcc' => ?_, hhandled.1, fun hno => (Pool.modifyConn_pendingRearms ..).trans (hhandled.2 hno)⟩
          have hsome := (congrFun (Pool.modifyConn_conns ..) connId).symm.trans hcc'
          rw [Function.update_self, show (c.bound connId fd).pool.conns connId = some cc from hcc] at hsome
          cases hsome
          rfl
      next hno =>
        refine pure_rule ?_
        rintro c ⟨rfl, hhandled⟩
        refine ⟨fun cc' hsome => ?_, hhandled⟩
        rw [hcc] at hsome
        cases hsome
        exact eq_false_of_ne_true hno

/-- The connection of a request stays what it is while the send is queued. -/
theorem pushSend_rule (buf : Bytes) (connId : Nat) (requestId : RequestId) (cc : CallerConn) :
    Act.Triple (sound fun c => c.Live connId cc ∧ c.Handled) (pushSend cc.fd buf connId requestId)
      (ends (fun _ c => c.Live connId cc ∧ c.Handled) anyway) := by
  refine bind_rule (op_rule (.pushSend cc.fd buf connId requestId) (Q := fun (r : Except String Nat) c =>
    (c.Live connId cc ∧ c.Handled) ∧
      ∀ id, r = .ok id → ∃ origin, c.sends id = some ⟨⟨id, buf, connId, requestId⟩, origin⟩) ?_ ?_) fun id => ?_
  · intro c _ h
    exact ⟨cc, h.1, rfl⟩
  · intro c r c' _ h hact
    cases r with
    | error e =>
        obtain ⟨-, rfl⟩ := hact
        exact ⟨h, nofun⟩
    | ok id =>
        obtain ⟨-, rfl, -, rfl⟩ := hact
        refine ⟨h, ?_⟩
        rintro _ ⟨⟩
        exact ⟨_, Function.update_self ..⟩
  cases id with
  | error e => exact throw_rule fun _ _ => trivial
  | ok id =>
      refine bind_rule (op_rule (.pushTicket ⟨id, buf, connId, requestId⟩)
        (Q := fun _ c => c.Live connId cc ∧ c.Handled) ?_ ?_) fun taken => ?_
      · intro c _ h
        exact h.2 id rfl
      · intro c r c' _ h hact
        obtain rfl : c' = c := hact
        exact h.1
      cases taken with
      | true => exact pure_rule fun _ h => h
      | false => exact throw_rule fun _ _ => trivial

/-- The connection has a recv, in the queue or elsewhere. -/
def Armed (connId : Nat) (c : Caller) : Prop := ∃ cc, c.Live connId cc ∧ cc.recvArmed = true

/-- The recv is armed on the fd the connection has. -/
theorem armRecv_rule {connId : Nat} {cc : CallerConn} :
    Act.Triple (sound fun c => c.Live connId cc ∧ c.Handled) (armRecv connId cc)
      (ends (fun _ c => Armed connId c ∧ c.Handled) anyway) := by
  unfold armRecv
  cases harmed : cc.recvArmed with
  | true => exact pure_rule fun c h => ⟨⟨cc, h.1, harmed⟩, h.2⟩
  | false => ?_
  refine bind_rule (op_rule (.push (.recvMultishot cc.fd connId)) (Q := fun (r : Except String Unit) c =>
    (c.Live connId cc ∧ c.Handled) ∧ (r = .ok () → c.Queues cc.fd connId)) ?_ ?_) fun pushed => ?_
  · intro c _ h
    exact ⟨cc, h.1, rfl⟩
  · intro c r c' _ h hact
    cases r with
    | error e =>
        obtain ⟨-, rfl⟩ := hact
        exact ⟨h, nofun⟩
    | ok u =>
        obtain ⟨-, rfl⟩ := hact
        exact ⟨h, fun _ => ⟨_, List.mem_append_right _ List.mem_cons_self, rfl⟩⟩
  cases pushed with
  | error e => exact throw_rule fun _ _ => trivial
  | ok u =>
      refine op_rule (.arm connId) ?_ ?_
      · rintro c - ⟨⟨hlive, -⟩, hqueues⟩
        exact ⟨cc, hlive, hqueues rfl⟩
      · rintro c r c' - ⟨⟨hlive, hhandled⟩, -⟩ hact
        obtain rfl := show c' = _ from hact
        refine ⟨⟨{ cc with recvArmed := true }, ⟨?_, hlive.2⟩, rfl⟩,
          hhandled.1, fun hno => (Pool.modifyConn_pendingRearms ..).trans (hhandled.2 hno)⟩
        refine (congrFun (Pool.modifyConn_conns ..) connId).trans ?_
        rw [Function.update_self, hlive.1]
        rfl

theorem requestOn_fine (maxReq connId : Nat) (cc : CallerConn) (method : Method) (path : Bytes) (query : Option Bytes) :
    Act.Triple (sound fun c => c.Live connId cc ∧ c.Handled) (requestOn maxReq connId cc method path query)
      (ends (fun _ => anyway) anyway) := by
  refine bind_rule (ofExcept_rule fun _ _ => trivial) fun parsed => ?_
  refine bind_rule (ofExcept_rule fun _ _ => trivial) fun buf => ?_
  refine bind_rule (op_rule .takeRequestId (Q := fun _ c => c.Live connId cc ∧ c.Handled) (fun _ _ _ => trivial) ?_)
    fun requestId => ?_
  · rintro c _ _ - h ⟨-, rfl⟩
    exact h.2.2
  refine bind_rule (pushSend_rule buf connId requestId cc) fun _ => ?_
  refine bind_rule armRecv_rule fun _ => ?_
  refine bind_rule (op_rule .submit (Q := fun (r : Except String Unit) c => r = .ok () → Armed connId c ∧ c.Handled ∧ c.sq = [])
    (fun _ _ _ => trivial) ?_) fun submitted => ?_
  · rintro c _ c' - h hact rfl
    obtain rfl : c' = c.submittedAll := hact
    exact ⟨h.1, h.2, rfl⟩
  cases submitted with
  | error e => exact throw_rule fun _ _ => trivial
  | ok u =>
      exact bind_rule (op_rule (.accepted requestId connId) (Q := fun _ => anyway) (fun _ _ h => h rfl)
        fun _ _ _ _ _ _ => trivial) fun _ => pure_rule fun _ _ => trivial

/-- **`request`** keeps to the protocol. -/
theorem request_fine (turns maxReq : Nat) (conn : ConnHandle) (method : Method) (path : Bytes) (query : Option Bytes) :
    Fine (request turns maxReq conn method path query) := by
  refine bind_rule (drainRearms_rule turns) fun _ => ?_
  refine bind_rule (reconnect_rule conn.connId) fun _ => ?_
  refine bind_rule (op_rule .self (Q := fun (p : Pool) c => p = c.pool ∧ Connected conn.connId c ∧ c.Handled)
    (fun _ _ _ => trivial) ?_) fun p => ?_
  · rintro c _ _ - h ⟨rfl, rfl⟩
    exact ⟨rfl, h⟩
  cases hcc : p.conns conn.connId with
  | none => exact throw_rule fun _ _ => trivial
  | some cc =>
      refine conseq_rule (requestOn_fine maxReq conn.connId cc method path query) ?_ (fun _ _ h => h) fun _ h => h
      rintro c ⟨rfl, hconnected, hhandled⟩
      exact ⟨⟨hcc, hconnected cc hcc⟩, hhandled⟩

/-! ### Results -/

/-- A call that waits for results, with or without a timer, and has not been given up. -/
structure Reads (timed : Bool) (c : Caller) : Prop where
  reading : c.reading = true
  timed_eq : c.timed = timed
  cancelled : c.cancelled = false
  armed : timed = true → c.armed = true

/-- The same with a result in hand that was taken from the ring. -/
def Holds (timed : Bool) (r : Stamped ConnResult) (c : Caller) : Prop :=
  Reads timed c ∧ c.hand = some r.val ∧ c.taken = some r

theorem markConnectionForReconnect_rule (conn : ConnHandle) (timed : Bool) (r : Stamped ConnResult)
    (hr : r.val.failed = some conn.connId) :
    Act.Triple (sound (Holds timed r)) (markConnectionForReconnect conn r.origin)
      (ends (fun _ => Holds timed r) anyway) := by
  refine bind_rule (op_rule .self (Q := fun (p : Pool) c => p = c.pool ∧ Holds timed r c) (fun _ _ _ => trivial) ?_)
    fun p => ?_
  · rintro c _ _ - h ⟨rfl, rfl⟩
    exact ⟨rfl, h⟩
  cases hcc : p.conns conn.connId with
  | none => exact pure_rule fun _ h => h.2
  | some cc =>
      cases hmark : cc.needsReconnect with
      | true =>
          dsimp only
          rw [hmark]
          exact pure_rule fun _ h => h.2
      | false =>
          dsimp only
          rw [hmark]
          refine op_rule (.unbind conn.connId r.origin) ?_ ?_
          · rintro c - ⟨rfl, h⟩
            exact ⟨⟨cc, hcc, hmark⟩, r.val, h.2.2, hr⟩
          · rintro c _ c' - ⟨rfl, h⟩ hact
            obtain rfl : c' = c.unbound conn.connId := hact
            unfold Caller.unbound
            rw [hcc]
            exact ⟨⟨h.1.reading, h.1.timed_eq, h.1.cancelled, h.1.armed⟩, h.2⟩

/-- A result is looked at, and stays in hand. -/
theorem handleResult_rule (timed : Bool) {α : Type} {r : Stamped ConnResult} {f : ConnResult → P Error α}
    {Q : α → Caller → Prop} (hf : Act.Triple (sound (Holds timed r)) (f r.val) (ends Q anyway)) :
    Act.Triple (sound (Holds timed r)) (handleResult r >>= f) (ends Q anyway) := by
  have hresult : Act.Triple (sound (Holds timed r)) (handleResult r)
      (ends (fun r' c => r' = r.val ∧ Holds timed r c) anyway) := by
    unfold handleResult
    split
    next id conn errno hval =>
      refine bind_rule (markConnectionForReconnect_rule conn timed r ?_) fun _ => pure_rule fun _ h => ⟨rfl, h⟩
      rw [hval]
      rfl
    next id conn error hval =>
      refine bind_rule (markConnectionForReconnect_rule conn timed r ?_) fun _ => pure_rule fun _ h => ⟨rfl, h⟩
      rw [hval]
      rfl
    next => exact pure_rule fun _ h => ⟨rfl, h⟩
  refine bind_rule hresult fun r' => ?_
  refine Act.Triple.given (fun _ _ h => h.2.1) ?_
  rintro rfl
  exact conseq_rule hf (fun _ h => h.2) (fun _ _ h => h) fun _ h => h

/-- A result that was taken from the ring is in hand. A `Timeout` ends the timer. -/
theorem reads_popped {timed : Bool} {c : Caller} (h : Reads timed c) {r : Stamped ConnResult}
    (hr : timed = true → r.val ≠ .timeout) : Holds timed r (c.popped r) := by
  refine ⟨⟨h.reading, h.timed_eq, h.cancelled, fun htimed => ?_⟩, rfl, rfl⟩
  show (if r.val = .timeout then false else c.armed) = true
  rw [if_neg (hr htimed)]
  exact h.armed htimed

/-- A result is put aside. -/
theorem stash_rule {timed : Bool} {r : Stamped ConnResult} (hr : timed = true → r.val ≠ .timeout) :
    Act.Triple (sound (Holds timed r)) (P.op (.stash r.val) : P Error Unit) (ends (fun _ => Reads timed) anyway) := by
  refine op_rule (.stash r.val) ?_ ?_
  · rintro c - ⟨h, hhand, -⟩
    exact ⟨hhand, fun htimed => hr (h.timed_eq ▸ htimed)⟩
  · rintro c _ c' - ⟨h, -⟩ hact
    obtain rfl := show c' = _ from hact
    exact ⟨h.reading, h.timed_eq, h.cancelled, h.armed⟩

/-- The loop of `poll` keeps what it finds for others. -/
theorem pollLoop_rule (turns : Nat) :
    Act.Triple (sound (Reads false)) (pollLoop turns) (ends (fun _ => Reads false) anyway) := by
  induction turns with
  | zero => exact Act.Triple.hang
  | succ turns ih =>
      refine bind_rule (op_rule .popResponse (Q := fun (r : Option (Stamped ConnResult)) c =>
        Reads false c ∧ ∀ v, r = some v → Holds false v c) ?_ ?_) fun r => ?_
      · intro c _ h
        exact ⟨h.reading, h.cancelled, fun htimed => by rw [h.timed_eq] at htimed; cases htimed⟩
      · intro c r c' _ h hact
        cases r with
        | none =>
            obtain rfl : c' = c := hact
            exact ⟨h, nofun⟩
        | some r =>
            obtain rfl : c' = c.popped r := hact
            have hholds : Holds false r (c.popped r) := reads_popped h nofun
            exact ⟨hholds.1, by rintro _ ⟨⟩; exact hholds⟩
      cases r with
      | none => exact pure_rule fun _ h => h.1
      | some r =>
          have hrest : Act.Triple (sound (Holds false r)) (handleResult r >>= fun r => do
              let () ← P.op (.stash r)
              pollLoop turns) (ends (fun _ => Reads false) anyway) :=
            handleResult_rule false (bind_rule (stash_rule (fun h => nomatch h)) fun _ => ih)
          exact conseq_rule hrest (fun _ h => h.2 r rfl) (fun _ _ h => h) fun _ h => h

/-- What is found in the stash is in hand. -/
theorem unstash_rule (id : RequestId) (timed : Bool) :
    Act.Triple (sound (Reads timed)) (P.op (.unstash id) : P Error (Option ConnResult))
      (ends (fun o c => Reads timed c ∧ ∀ r, o = some r → c.hand = some r) anyway) := by
  refine op_rule (.unstash id) (fun _ _ _ => trivial) ?_
  rintro c _ _ - h ⟨rfl, rfl⟩
  refine ⟨⟨h.reading, h.timed_eq, h.cancelled, h.armed⟩, fun r hr => ?_⟩
  show (if (c.pool.stash id).isSome then c.pool.stash id else c.hand) = some r
  rw [hr]
  rfl

/-- Without a timer, what is in hand may be returned. -/
theorem Reads.gives {c : Caller} (h : Reads false c) {o : Option ConnResult} (ho : ∀ r, o = some r → c.hand = some r) :
    c.Gives o where
  reading := h.reading
  result := by
    intro r hr
    refine ⟨ho r hr, fun htimed => ?_⟩
    rw [h.timed_eq] at htimed
    cases htimed
  nothing := by
    intro _ htimed
    rw [h.timed_eq] at htimed
    cases htimed

theorem poll_rule (turns : Nat) (id : RequestId) :
    Act.Triple (sound (Reads false)) (poll turns id) (ends (fun o c => c.Gives o) anyway) :=
  bind_rule (pollLoop_rule turns) fun _ =>
    conseq_rule (unstash_rule id false) (fun _ h => h) (fun _ _ h => h.1.gives h.2) fun _ h => h

/-- `pop_block` in a call that has not been given up. -/
theorem popBlock_rule (timed : Bool) :
    Act.Triple (sound (Reads timed)) (P.op .popBlock : P Error (Option (Stamped ConnResult)))
      (ends (fun (o : Option (Stamped ConnResult)) c => ∀ r, o = some r →
        (timed = true → r.val ≠ .timeout) → Holds timed r c) anyway) := by
  refine op_rule .popBlock ?_ ?_
  · intro c _ h
    exact ⟨h.reading, h.cancelled, fun htimed => h.armed (h.timed_eq ▸ htimed)⟩
  · intro c o c' _ h hact
    cases o with
    | none => exact nofun
    | some r =>
        obtain rfl : c' = c.popped r := hact
        rintro _ ⟨⟩ hr
        exact reads_popped h hr

theorem recv_rule (turns : Nat) (id : RequestId) :
    Act.Triple (sound (Reads false)) (recv turns id) (ends (fun r c => c.Gives (some r)) anyway) := by
  induction turns with
  | zero => exact Act.Triple.hang
  | succ turns ih =>
      refine bind_rule (unstash_rule id false) fun found => ?_
      cases found with
      | some r => exact pure_rule fun _ h => h.1.gives h.2
      | none =>
          refine bind_rule (conseq_rule (popBlock_rule false) (fun _ h => h.1) (fun _ _ h => h) fun _ h => h) fun o => ?_
          cases o with
          | none => exact throw_rule fun _ _ => trivial
          | some r =>
              refine conseq_rule (handleResult_rule false ?_) (fun _ h => h r rfl nofun) (fun _ _ h => h)
                fun _ h => h
              split
              · refine pure_rule fun c h => h.1.gives ?_
                rintro _ ⟨⟩
                exact h.2.1
              · exact bind_rule (stash_rule (fun h => nomatch h)) fun _ => ih

theorem cancelTimeout_rule {r : Stamped ConnResult} (hr : r.val ≠ .timeout) :
    Act.Triple (sound (Holds true r)) cancelTimeout (ends (fun _ c => c.Gives (some r.val)) anyway) := by
  have hgives : ∀ c : Caller, c.reading = true → c.hand = some r.val → c.Gives (some r.val) := by
    intro c hreading hhand
    refine ⟨hreading, ?_, nofun⟩
    rintro _ ⟨⟩
    exact ⟨hhand, fun _ => hr⟩
  refine bind_rule (op_rule (.push .timeoutRemove) (Q := fun _ c => c.reading = true ∧ c.hand = some r.val) ?_ ?_) fun _ => ?_
  · rintro c - ⟨h, -⟩
    exact ⟨h.reading, h.armed rfl, h.cancelled⟩
  · rintro c o c' - ⟨h, hhand, -⟩ hact
    cases o with
    | error e =>
        obtain ⟨-, rfl⟩ := hact
        exact ⟨h.reading, hhand⟩
    | ok u =>
        obtain ⟨-, rfl⟩ := hact
        exact ⟨h.reading, hhand⟩
  refine bind_rule (op_rule .submit (Q := fun _ c => c.Gives (some r.val)) (fun _ _ _ => trivial) ?_) fun _ =>
    pure_rule fun _ h => h
  rintro c o c' - ⟨hreading, hhand⟩ hact
  cases o with
  | error e =>
      obtain rfl : c' = c := hact
      exact hgives c' hreading hhand
  | ok u =>
      obtain rfl : c' = c.submittedAll := hact
      exact hgives _ hreading hhand

/-- The loop of `recv_timeout` removes its timer however it ends. -/
theorem recvTimeoutLoop_rule (turns : Nat) (id : RequestId) :
    Act.Triple (sound (Reads true)) (recvTimeoutLoop turns id) (ends (fun o c => c.Gives o) anyway) := by
  induction turns with
  | zero => exact Act.Triple.hang
  | succ turns ih =>
      refine bind_rule (op_rule .popBlock (Q := fun (o : Option (Stamped ConnResult)) c => ∀ r, o = some r →
        (r.val = .timeout → c.Gives none) ∧ (r.val ≠ .timeout → Holds true r c)) ?_ ?_) fun o => ?_
      · intro c _ h
        exact ⟨h.reading, h.cancelled, fun _ => h.armed rfl⟩
      · intro c o c' _ h hact
        cases o with
        | none => exact nofun
        | some r =>
            obtain rfl : c' = c.popped r := hact
            rintro _ ⟨⟩
            refine ⟨fun htimeout => ⟨h.reading, nofun, fun _ _ => ?_⟩, fun hr => reads_popped h fun _ => hr⟩
            exact congrArg some htimeout
      cases o with
      | none => exact throw_rule fun _ _ => trivial
      | some r =>
          dsimp only
          split
          next htimeout => exact pure_rule fun _ h => (h r rfl).1 htimeout
          next hr =>
            refine conseq_rule (handleResult_rule true ?_) (fun _ h => (h r rfl).2 hr) (fun _ _ h => h)
              fun _ h => h
            split
            · exact bind_rule (cancelTimeout_rule hr) fun _ => pure_rule fun _ h => h
            · exact bind_rule (stash_rule fun _ => hr) fun _ => ih

theorem recvTimeout_rule (turns : Nat) (id : RequestId) :
    Act.Triple (sound (Reads false)) (recvTimeout turns id) (ends (fun o c => c.Gives o) anyway) := by
  refine bind_rule (unstash_rule id false) fun found => ?_
  cases found with
  | some r => exact pure_rule fun _ h => h.1.gives h.2
  | none =>
      refine bind_rule (op_rule (.push .timeout) (Q := fun (r : Except String Unit) c =>
        (r = .ok () → Reads true c) ∧ ∀ e, r = .error e → Reads false c) ?_ ?_) fun pushed => ?_
      · rintro c - ⟨h, -⟩
        exact ⟨h.reading, h.timed_eq⟩
      · rintro c r c' - ⟨h, -⟩ hact
        cases r with
        | error e =>
            obtain ⟨-, rfl⟩ := hact
            exact ⟨nofun, fun _ _ => h⟩
        | ok u =>
            obtain ⟨-, rfl⟩ := hact
            exact ⟨fun _ => ⟨h.reading, rfl, h.cancelled, fun _ => rfl⟩, nofun⟩
      cases pushed with
      | error e => exact conseq_rule (poll_rule turns id) (fun _ h => h.2 e rfl) (fun _ _ h => h) fun _ h => h
      | ok u =>
          refine bind_rule (op_rule .submit (Q := fun _ => Reads true) (fun _ _ _ => trivial) ?_) fun _ =>
            recvTimeoutLoop_rule turns id
          rintro c r c' - ⟨h, -⟩ hact
          have h := h rfl
          cases r with
          | error e =>
              obtain rfl : c' = c := hact
              exact h
          | ok u =>
              obtain rfl : c' = c.submittedAll := hact
              exact ⟨h.reading, h.timed_eq, h.cancelled, h.armed⟩

/-! ### Sessions -/

theorem attempt_rule {ε α : Type} {φ E E' : Caller → Prop} {Q : α → Caller → Prop} {x : P ε α}
    (hx : Act.Triple (sound φ) x (ends Q E)) :
    Act.Triple (sound φ) (Act.attempt x : P Empty (Except ε α)) (ends (fun r c => ∀ a, r = .ok a → Q a c) E') := by
  refine hx.attempt fun r _ c h => ?_
  cases r with
  | ok a =>
      refine ⟨h.1, ?_⟩
      rintro _ ⟨⟩
      exact h.2
  | error e => exact ⟨h.1, nofun⟩

/-- **Any call** keeps to the protocol. -/
theorem perform_fine (turns maxReq : Nat) (call : Call) : Fine (perform turns maxReq call) := by
  refine bind_rule (op_rule (.call call) (Q := fun _ c => call.reads = true → Reads false c) (fun _ _ _ => trivial) ?_)
    fun _ => ?_
  · rintro c _ c' - - hact hreads
    obtain rfl := show c' = _ from hact
    exact ⟨hreads, rfl, rfl, nofun⟩
  have hreturn : ∀ r, Act.Triple (sound fun c => ∀ o, r = .ok o → c.Gives o) (P.op (.returned r) : P Empty Unit)
      (ends (fun _ => anyway) anyway) :=
    fun r => op_rule (.returned r) (fun _ _ h => h) fun _ _ _ _ _ _ => trivial
  cases call with
  | connect url =>
      exact bind_rule (attempt_rule (conseq_rule (connect_fine url) (fun _ _ => trivial) (fun _ _ h => h) fun _ h => h))
        fun _ => pure_rule fun _ _ => trivial
  | disconnect conn =>
      exact bind_rule (attempt_rule (conseq_rule (disconnect_fine conn) (fun _ _ => trivial) (fun _ _ h => h)
        fun _ h => h)) fun _ => pure_rule fun _ _ => trivial
  | request conn method path query =>
      exact bind_rule (attempt_rule (conseq_rule (request_fine turns maxReq conn method path query) (fun _ _ => trivial)
        (fun _ _ h => h) fun _ h => h)) fun _ => pure_rule fun _ _ => trivial
  | poll id =>
      exact bind_rule (attempt_rule (conseq_rule (poll_rule turns id) (fun _ h => h rfl) (fun _ _ h => h) fun _ h => h))
        hreturn
  | recv id =>
      refine bind_rule (attempt_rule (conseq_rule (recv_rule turns id) (fun _ h => h rfl) (fun _ _ h => h) fun _ h => h))
        fun r => conseq_rule (hreturn (r.map some)) ?_ (fun _ _ h => h) fun _ h => h
      intro c h o ho
      cases r with
      | error e => cases ho
      | ok v =>
          cases ho
          exact h v rfl
  | recvTimeout id =>
      exact bind_rule (attempt_rule (conseq_rule (recvTimeout_rule turns id) (fun _ h => h rfl) (fun _ _ h => h)
        fun _ h => h)) hreturn

/-- Any number of calls do. -/
theorem session_fine (turns maxReq : Nat) (calls : List Call) : Fine (session turns maxReq calls) := by
  induction calls with
  | nil => exact pure_rule fun _ _ => trivial
  | cons call calls ih => exact bind_rule (perform_fine turns maxReq call) fun _ => ih

end Pool

theorem Caller.sound_start (ring : Nat) : (Caller.start ring).Sound where
  bound := fun _ _ h => nomatch h.1
  apart := fun _ _ _ _ h => nomatch h.1
  last_lt := fun _ => Nat.zero_lt_one
  socket_lt := nofun
  fd_lt := nofun
  connId_lt := nofun
  free_lt := nofun
  next_lt := Nat.two_pow_pos 32
  requested_lt := nofun

/-! ## The pool at work -/

/-- The states and programs a pool of `ring` entries gets to, with the calls `calls`. -/
def Runs (terms : Terms) (ring turns maxReq : Nat) (calls : List Call) (p : Prog PoolSys (Except Empty Unit × Unit))
    (s : Driver) : Prop :=
  Prog.Reach (driver terms) (Pool.session turns maxReq calls ()) (Driver.start ring) p s

section

variable {terms : Terms} {ring turns maxReq : Nat} {calls : List Call} {p : Prog PoolSys (Except Empty Unit × Unit)}
  {s : Driver}

theorem session_wp (ring turns maxReq : Nat) (calls : List Call) :
    Prog.wp calling (Pool.session turns maxReq calls ()) (fun r c => (ends (fun _ => anyway) anyway r.1) r.2 c)
      (Caller.start ring) :=
  Pool.session_fine turns maxReq calls () _ ⟨Caller.sound_start ring, trivial⟩

/-- **The pool keeps to the protocol**, whatever the kernel and the complete thread do. -/
theorem Runs.protocol {op : PoolOp} {k : op.Ret → Prog PoolSys (Except Empty Unit × Unit)}
    (h : Runs terms ring turns maxReq calls (.call op k) s) : Protocol s.caller op :=
  Prog.wp_sound (session_wp ring turns maxReq calls) (reach_calling h)

/-- What every step that meets the terms preserves holds along every run. -/
theorem Runs.invariant {I : Driver → Prop} (h : Runs terms ring turns maxReq calls p s) (hstart : I (Driver.start ring))
    (henv : ∀ {s s' a}, terms.env s a → s.perform a = some s' → s.caller.Sound → I s → I s')
    (hact : ∀ {s s' op r}, Protocol s.caller op → terms.act s op r → s.Answers op r s' → s.caller.Sound → I s → I s') :
    s.caller.Sound ∧ I s := by
  unfold Runs at h
  generalize hp₀ : Pool.session turns maxReq calls () = p₀ at h
  generalize hs₀ : Driver.start ring = s₀ at h
  induction h with
  | refl =>
      subst hs₀
      exact ⟨Caller.sound_start ring, hstart⟩
  | env _ he ih =>
      have ih := ih hs₀
      clear hp₀ hs₀
      induction he with
      | refl => exact ih
      | tail _ hstep ih =>
          obtain ⟨a, hterms, ha⟩ := hstep
          refine ⟨?_, henv hterms ha ih.1 ih.2⟩
          rw [Driver.perform_caller ha]
          exact ih.1
  | act hr ha ih =>
      have hbefore := ih hs₀
      subst hp₀ hs₀
      have hprotocol := Runs.protocol hr
      refine ⟨?_, hact hprotocol ha.1 ha.2 hbefore.1 hbefore.2⟩
      obtain ⟨c, s₁, hc, -, rfl⟩ := ha.2
      exact hbefore.1.answers hprotocol hc

end

end Xibalba.Iouring
