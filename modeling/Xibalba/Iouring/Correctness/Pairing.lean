import Xibalba.Iouring.Correctness.Events
import Xibalba.Iouring.Correctness.Feed

/-!
# `Iouring.Correctness.Pairing` — responses and the requests they are for

Requests are sent on one connection, and their responses come back on it. The completions of the sends and the pieces in
which the responses arrive reach the complete thread in any order of the two. A piece waits in `recv_buf` while no request
is waiting, and bytes behind a response wait in the parser while no request is left for them.

Layout:
* `drainLoop_spec`, what is delivered when the parser is drained;
* `Paired`, the invariant of a connection, and its two steps;
* `Buffered`, read off the completions: bytes are kept for the send that completes next;
* the complete thread on one connection, and `pairing_iff`.
-/

namespace Xibalba.Iouring

/-! ## Draining -/

/-- The results with which requests are answered by responses, in order. -/
def answers (ids : List RequestId) (ms : List Message) : List ConnResult :=
  List.zipWith (fun requestId m => .response (m.response requestId)) ids ms

theorem answers_append {ids₁ ids₂ : List RequestId} {ms₁ ms₂ : List Message} (h : ids₁.length = ms₁.length) :
    answers (ids₁ ++ ids₂) (ms₁ ++ ms₂) = answers ids₁ ms₁ ++ answers ids₂ ms₂ := List.zipWith_append h

/-- What a drain makes of the waiting requests `ids` and the responses `ms`, of which `rest` is still to come. -/
structure Drained (conn : ConnData) (ids : List RequestId) (ms : List Message) (rest : Bytes)
    (r : ConnData × List ConnResult) : Prop where
  connId : r.1.connId = conn.connId
  recvBuf : r.1.recvBuf = conn.recvBuf
  pairs : ∃ n, n ≤ ids.length ∧ n ≤ ms.length ∧ r.1.pendingIds = ids.drop n ∧ r.2 = answers (ids.take n) (ms.take n) ∧
    Stands r.1.parser (ms.drop n) rest ∧ (ids.drop n = [] ∨ Lacks (ms.drop n) rest)

/-- **Draining** delivers a response for each request that waits, as long as there are complete ones. -/
theorem drainLoop_spec {conn : ConnData} {ms : List Message} {ids : List RequestId} {data rest : Bytes}
    (hms : ∀ m ∈ ms, m.WellFormed) (hp : Stands conn.parser ms (data ++ rest)) (hids : ids ≠ [] ∨ data = []) :
    Drained conn ids ms rest (drainLoop conn ids data) := by
  induction ids generalizing conn ms data with
  | nil =>
      obtain rfl : data = [] := hids.resolve_left (fun h => h rfl)
      exact ⟨rfl, rfl, 0, Nat.zero_le _, Nat.zero_le _, rfl, rfl, hp, .inl rfl⟩
  | cons requestId ids ih =>
      have hfed := feed_spec hms hp requestId
      unfold drainLoop
      generalize hr : conn.parser.feed data requestId = r at hfed
      cases hfed with
      | @response p m ms' heq hp' =>
          subst heq
          -- the later turns feed nothing
          have hnil : Stands p ms' ([] ++ rest) := hp'
          have ih : Drained { conn with parser := p } ids ms' rest (drainLoop { conn with parser := p } ids []) :=
            ih (fun m' hm' => hms m' (List.mem_cons_of_mem m hm')) hnil (.inr rfl)
          obtain ⟨hconn, hbuf, n, hn, hn', hpending, hresults, hstands, hend⟩ := ih
          refine ⟨hconn, hbuf, n + 1, Nat.succ_le_succ hn, Nat.succ_le_succ hn', hpending, ?_, hstands, hend⟩
          exact congrArg (ConnResult.response (m.response requestId) :: ·) hresults
      | @more p hp' hlacks =>
          exact ⟨rfl, rfl, 0, Nat.zero_le _, Nat.zero_le _, rfl, rfl, hp', .inr hlacks⟩

/-! ## The invariant of a connection -/

/-- The connection `conn` after the requests `ids` were sent, with `results` delivered, and the bytes `rest` of the
    responses `ms` still to come. -/
structure Paired (ms : List Message) (ids : List RequestId) (rest : Bytes) (conn : ConnData) (results : List ConnResult) :
    Prop where
  pairs : ∃ n, n ≤ ids.length ∧ n ≤ ms.length ∧ conn.pendingIds = ids.drop n ∧ results = answers (ids.take n) (ms.take n) ∧
    Stands conn.parser (ms.drop n) (conn.recvBuf ++ rest)
  buffered : conn.recvBuf ≠ [] → conn.pendingIds = []

/-- Every request has its response, or the first response that is missing has not arrived. -/
def Settled (ms : List Message) (ids : List RequestId) (rest : Bytes) (conn : ConnData) (results : List ConnResult) : Prop :=
  ∃ n, n ≤ ids.length ∧ n ≤ ms.length ∧ conn.pendingIds = ids.drop n ∧ rest.length ≤ (wires (ms.drop n)).length ∧
    results = answers (ids.take n) (ms.take n) ∧ (ids.drop n = [] ∨ Lacks (ms.drop n) rest)

theorem paired_new (ms : List Message) (connId : Nat) : Paired ms [] (wires ms) (.new connId) [] :=
  ⟨⟨0, Nat.le_refl _, Nat.zero_le _, rfl, rfl, .between rfl⟩, fun h => absurd rfl h⟩

section

variable {ms : List Message} (hms : ∀ m ∈ ms, m.WellFormed) {ids : List RequestId} {rest : Bytes} {conn : ConnData}
  {results : List ConnResult}

include hms

/-- A drain of a connection on which requests wait. -/
theorem Paired.drained {n : Nat} {data : Bytes} (hn : n ≤ ids.length) (hn' : n ≤ ms.length)
    (hresults : results = answers (ids.take n) (ms.take n)) (hstands : Stands conn.parser (ms.drop n) (data ++ rest))
    (hbuf : conn.recvBuf = []) (hpending : conn.pendingIds = ids.drop n) (hwait : conn.pendingIds ≠ []) :
    Paired ms ids rest (drainRecvBuf conn data).1 (results ++ (drainRecvBuf conn data).2) ∧
      Settled ms ids rest (drainRecvBuf conn data).1 (results ++ (drainRecvBuf conn data).2) ∧
      (drainRecvBuf conn data).1.recvBuf = [] := by
  have hdrop : ∀ m ∈ ms.drop n, m.WellFormed := fun m hm => hms m (List.mem_of_mem_drop hm)
  have hdrained : Drained conn (ids.drop n) (ms.drop n) rest (drainRecvBuf conn data) := by
    unfold drainRecvBuf
    rw [hpending]
    exact drainLoop_spec hdrop hstands (.inl (hpending ▸ hwait))
  obtain ⟨-, hbuf', k, hk, hk', hleft, hout, hstands', hend⟩ := hdrained
  rw [hbuf] at hbuf'
  rw [List.length_drop] at hk hk'
  rw [List.drop_drop] at hleft hstands' hend
  rw [List.drop_drop] at hend
  have hall : results ++ (drainRecvBuf conn data).2 = answers (ids.take (n + k)) (ms.take (n + k)) := by
    rw [List.take_add, List.take_add, answers_append (by simp; omega), hresults, hout]
  refine ⟨⟨⟨n + k, by omega, by omega, hleft, hall, ?_⟩, ?_⟩,
    ⟨n + k, by omega, by omega, hleft, hstands'.length_le, hall, hend⟩, hbuf'⟩
  · rw [hbuf']
    exact hstands'
  · rw [hbuf']
    exact fun h => absurd rfl h

/-- A request was sent. Nothing is delivered if no bytes had been kept for it, whatever the parser holds. -/
theorem Paired.sent (h : Paired ms ids rest conn results) (requestId : RequestId) :
    Paired ms (ids ++ [requestId]) rest (conn.onSent requestId).1 (results ++ (conn.onSent requestId).2) ∧
      (conn.onSent requestId).1.recvBuf = [] ∧
      (conn.recvBuf = [] → (conn.onSent requestId).2 = [] ∧ (conn.onSent requestId).1.pendingIds ≠ []) ∧
      (conn.recvBuf ≠ [] →
        Settled ms (ids ++ [requestId]) rest (conn.onSent requestId).1 (results ++ (conn.onSent requestId).2)) := by
  obtain ⟨⟨n, hn, hn', hpending, hresults, hstands⟩, hbuffered⟩ := h
  have hdrop : (ids ++ [requestId]).drop n = conn.pendingIds ++ [requestId] := by
    rw [List.drop_append_of_le_length hn, hpending]
  have htake : (ids ++ [requestId]).take n = ids.take n := List.take_append_of_le_length hn
  have hlen : n ≤ (ids ++ [requestId]).length := by
    rw [List.length_append]
    omega
  unfold ConnData.onSent
  by_cases hbuf : conn.recvBuf = []
  · dsimp only
    rw [if_pos (List.isEmpty_iff.mpr hbuf), List.append_nil]
    refine ⟨⟨⟨n, hlen, hn', hdrop.symm, ?_, hstands⟩, fun h => absurd hbuf h⟩, hbuf, fun _ => ⟨rfl, ?_⟩, fun h => absurd hbuf h⟩
    · rw [htake]
      exact hresults
    · exact List.append_ne_nil_of_right_ne_nil _ (List.cons_ne_nil _ _)
  · dsimp only
    rw [if_neg (by rwa [List.isEmpty_iff])]
    generalize hconn : ({ conn with pendingIds := conn.pendingIds ++ [requestId], recvBuf := [] } : ConnData) = c
    have hparser : Stands c.parser (ms.drop n) (conn.recvBuf ++ rest) := by
      rw [← hconn]
      exact hstands
    have hwait : c.pendingIds = (ids ++ [requestId]).drop n := by
      rw [hdrop, ← hconn]
    have hnil : c.recvBuf = [] := by rw [← hconn]
    have hne : c.pendingIds ≠ [] := by
      rw [← hconn]
      exact List.append_ne_nil_of_right_ne_nil _ (List.cons_ne_nil _ _)
    obtain ⟨hpaired, hsettled, hnil'⟩ :=
      Paired.drained hms hlen hn' (hresults.trans (by rw [htake])) hparser hnil hwait hne
    exact ⟨hpaired, hnil', fun h => absurd h hbuf, fun _ => hsettled⟩

/-- Bytes were received. -/
theorem Paired.received {data : Bytes} (h : Paired ms ids (data ++ rest) conn results) (fd : Nat) :
    Paired ms ids rest (conn.onData fd data).1 (results ++ (conn.onData fd data).2) ∧
      Settled ms ids rest (conn.onData fd data).1 (results ++ (conn.onData fd data).2) ∧
      (conn.pendingIds = [] → (conn.onData fd data).1.recvBuf = conn.recvBuf ++ data) ∧
      (conn.pendingIds ≠ [] → (conn.onData fd data).1.recvBuf = []) := by
  obtain ⟨⟨n, hn, hn', hpending, hresults, hstands⟩, hbuffered⟩ := h
  unfold ConnData.onData
  by_cases hwait : conn.pendingIds = []
  · dsimp only
    rw [if_pos (List.isEmpty_iff.mpr hwait), List.append_nil]
    have hle : rest.length ≤ (wires (ms.drop n)).length := by
      have hall := hstands.length_le
      rw [List.length_append, List.length_append] at hall
      omega
    refine ⟨⟨⟨n, hn, hn', hpending, hresults, ?_⟩, fun _ => hwait⟩,
      ⟨n, hn, hn', hpending, hle, hresults, .inl (hpending ▸ hwait)⟩, fun _ => rfl, fun h => absurd hwait h⟩
    show Stands conn.parser (ms.drop n) (conn.recvBuf ++ data ++ rest)
    rw [List.append_assoc]
    exact hstands
  · dsimp only
    rw [if_neg (by rwa [List.isEmpty_iff])]
    have hbuf : conn.recvBuf = [] := by
      by_contra hne
      exact hwait (hbuffered hne)
    rw [hbuf, List.nil_append] at hstands
    have hdrained : Paired ms ids rest (drainRecvBuf { conn with fd := fd } data).1
        (results ++ (drainRecvBuf { conn with fd := fd } data).2) ∧ _ :=
      Paired.drained hms hn hn' hresults hstands hbuf hpending hwait
    obtain ⟨hpaired, hsettled, hnil⟩ := hdrained
    exact ⟨hpaired, hsettled, fun h => absurd h hwait, fun _ => hnil⟩

end

/-- Once everything has arrived, being settled is having every response. -/
theorem Settled.all {ms : List Message} {ids : List RequestId} {conn : ConnData} {results : List ConnResult}
    (h : Settled ms ids [] conn results) (hlen : ids.length ≤ ms.length) : results = answers ids ms := by
  obtain ⟨n, -, -, -, -, hresults, hend⟩ := h
  have hle : ids.length ≤ n := by
    rcases hend with hend | hend
    · exact List.drop_eq_nil_iff.mp hend
    · cases hms : ms.drop n with
      | nil => exact Nat.le_trans hlen (List.drop_eq_nil_iff.mp hms)
      | cons m ms' =>
          have := hend m ms' hms
          cases this
  have hcount : (answers ids ms).length ≤ n := by
    rw [answers, List.length_zipWith]
    exact Nat.le_trans (Nat.min_le_left _ _) hle
  rw [hresults, answers, ← List.take_zipWith]
  exact List.take_of_length_le hcount

/-- Being settled, no request waits exactly when the responses to all of them are among the bytes that have arrived. -/
theorem Settled.waiting_iff {ms : List Message} {ids : List RequestId} {rest : Bytes} {conn : ConnData}
    {results : List ConnResult} (h : Settled ms ids rest conn results) (hlen : ids.length ≤ ms.length) {size : Nat}
    (hsize : size + rest.length = (wires ms).length) :
    conn.pendingIds = [] ↔ (wires (ms.take ids.length)).length ≤ size := by
  obtain ⟨n, hn, -, hpending, hrest, -, hend⟩ := h
  have hcut : ∀ k, (wires (ms.take k)).length + (wires (ms.drop k)).length = (wires ms).length := by
    intro k
    rw [← List.length_append, wires, wires, ← List.flatMap_append, List.take_append_drop]
    rfl
  rw [hpending]
  constructor
  · intro hnil
    have hall : ids.length = n := Nat.le_antisymm (List.drop_eq_nil_iff.mp hnil) hn
    rw [hall]
    have := hcut n
    omega
  · intro harrived
    by_contra hwait
    have hlt : n < ids.length := Nat.lt_of_not_le fun h => hwait (List.drop_eq_nil_iff.mpr h)
    have hdrop : ms.drop n = ms[n] :: ms.drop (n + 1) := List.drop_eq_getElem_cons _
    have hlacks := hend.resolve_left hwait _ _ hdrop
    -- the first response that is missing is one of those asked for
    have hfirst : (wires (ms.drop ids.length)).length ≤ (wires (ms.drop (n + 1))).length := by
      have hsuffix : ms.drop ids.length <:+ ms.drop (n + 1) := by
        rw [← Nat.sub_add_cancel (Nat.succ_le_of_lt hlt), Nat.add_comm, ← List.drop_drop]
        exact List.drop_suffix _ _
      obtain ⟨front, hfront⟩ := hsuffix
      rw [← hfront, wires, wires, List.flatMap_append, List.length_append]
      exact Nat.le_add_left _ _
    have := hcut ids.length
    omega

/-! ## Tickets -/

/-- The tickets the thread finds when the next send completes. -/
def CompleteThread.known (t : CompleteThread) (ticketRx : List SendTicket) : Nat → Option SendTicket :=
  ticketRx.foldl insertTicket t.tickets

namespace CompleteThread

theorem foldl_insertTicket_of_notMem {ks : List SendTicket} {ud : Nat} (h : ud ∉ ks.map SendTicket.id)
    (ts : Nat → Option SendTicket) : ks.foldl insertTicket ts ud = ts ud := by
  induction ks generalizing ts with
  | nil => rfl
  | cons k ks ih =>
      have hne : ud ≠ k.id := fun heq => h (heq ▸ List.mem_cons_self)
      rw [List.foldl_cons, ih fun hmem => h (List.mem_cons_of_mem _ hmem), insertTicket, Function.update_of_ne hne]

theorem foldl_insertTicket_of_mem {ks : List SendTicket} (hks : (ks.map SendTicket.id).Nodup) {k : SendTicket} (hk : k ∈ ks)
    (ts : Nat → Option SendTicket) : ks.foldl insertTicket ts k.id = some k := by
  induction ks generalizing ts with
  | nil => cases hk
  | cons k' ks ih =>
      obtain ⟨hnotMem, hnodup⟩ := List.nodup_cons.mp hks
      rw [List.foldl_cons]
      rcases List.mem_cons.mp hk with rfl | hk
      · rw [foldl_insertTicket_of_notMem hnotMem, insertTicket, Function.update_self]
      · exact ih hnodup hk _

theorem known_append (t : CompleteThread) (ticketRx arrived : List SendTicket) :
    t.known (ticketRx ++ arrived) = arrived.foldl insertTicket (t.known ticketRx) :=
  List.foldl_append

/-- The tickets of the sends in flight stay known while more of them come. -/
theorem known_arrived {t : CompleteThread} {ticketRx unredeemed arrived : List SendTicket}
    (hknown : ∀ k ∈ unredeemed, t.known ticketRx k.id = some k)
    (hnodup : ((unredeemed ++ arrived).map SendTicket.id).Nodup) :
    ∀ k ∈ unredeemed ++ arrived, t.known (ticketRx ++ arrived) k.id = some k := by
  intro k hk
  rw [List.map_append] at hnodup
  obtain ⟨-, harrived, hdisjoint⟩ := List.nodup_append'.mp hnodup
  rw [known_append]
  rcases List.mem_append.mp hk with hk | hk
  · have hnotMem : k.id ∉ arrived.map SendTicket.id := fun hmem => hdisjoint (List.mem_map_of_mem hk) hmem
    rw [foldl_insertTicket_of_notMem hnotMem]
    exact hknown k hk
  · exact foldl_insertTicket_of_mem harrived hk _

end CompleteThread

/-! ## The complete thread on one connection -/

/-- What can complete on a connection whose requests are sent whole: a send, or a recv that has brought some bytes. -/
inductive Event where
  | sent (ticket : SendTicket)
  | received (piece : Bytes) (more : Bool)

namespace Event

def cqe (fd connId : Nat) : Event → Cqe
  | sent ticket => ⟨ticket.id, ticket.buf.length, none, false⟩
  | received piece more => ⟨UserData.recv fd connId, piece.length, some piece, more⟩

def ticket? : Event → Option SendTicket
  | sent ticket => some ticket
  | received _ _ => none

def bytes : Event → Bytes
  | sent _ => []
  | received piece _ => piece

end Event

/-! ## What the completions say

The completions so far are listed from the latest on. -/

/-- The bytes that have arrived hold the responses to all the requests sent. -/
def AllArrived (ms : List Message) (events : List Event) : Prop :=
  (wires (ms.take (events.filterMap Event.ticket?).length)).length ≤ (events.flatMap Event.bytes).length

/-- Bytes are kept for the send that completes next: since the send before it, a piece came when no request was waiting. It
    is the first piece of all, or the responses to all the requests had arrived and they had been delivered, which the
    piece before it did, or bytes kept for the send before it. -/
def Buffered (ms : List Message) : List Event → Prop
  | [] => False
  | .sent _ :: _ => False
  | [.received piece _] => piece ≠ []
  | .received piece _ :: .received piece' more' :: before =>
    Buffered ms (.received piece' more' :: before) ∨ piece ≠ [] ∧ AllArrived ms (.received piece' more' :: before)
  | .received piece _ :: .sent k :: before => piece ≠ [] ∧ Buffered ms before ∧ AllArrived ms (.sent k :: before)

/-- No request is waiting. -/
def NoneWaits (ms : List Message) : List Event → Prop
  | [] => True
  | .received piece more :: before => AllArrived ms (.received piece more :: before)
  | .sent k :: before => Buffered ms before ∧ AllArrived ms (.sent k :: before)

theorem buffered_received (ms : List Message) (piece : Bytes) (more : Bool) (before : List Event) :
    Buffered ms (.received piece more :: before) ↔ Buffered ms before ∨ piece ≠ [] ∧ NoneWaits ms before := by
  rcases before with _ | ⟨_ | _, before⟩
  · simp only [Buffered, NoneWaits, false_or, and_true]
  · simp only [Buffered, NoneWaits, false_or]
  · simp only [Buffered, NoneWaits]

/-- The connection keeps bytes, and has requests that wait, as the completions say. -/
structure Tracked (ms : List Message) (past : List Event) (conn : ConnData) : Prop where
  buffered : conn.recvBuf ≠ [] ↔ Buffered ms past
  waits : conn.pendingIds = [] ↔ NoneWaits ms past

theorem tracked_new (ms : List Message) (connId : Nat) : Tracked ms [] (.new connId) where
  buffered := iff_of_false (fun h => h rfl) id
  waits := iff_of_true rfl trivial

section

variable {ms : List Message} (hms : ∀ m ∈ ms, m.WellFormed) {past : List Event} {ids : List RequestId} {rest : Bytes}
  {conn : ConnData} {results : List ConnResult} (h : Tracked ms past conn)

include hms h

theorem Tracked.sent (hpaired : Paired ms ids rest conn results) (k : SendTicket)
    (hcount : (past.filterMap Event.ticket?).length = ids.length) (hlen : ids.length < ms.length)
    (hsize : (past.flatMap Event.bytes).length + rest.length = (wires ms).length) :
    Tracked ms (.sent k :: past) (conn.onSent k.requestId).1 := by
  obtain ⟨-, hnil, hunkept, hsettled⟩ := Paired.sent hms hpaired k.requestId
  refine ⟨iff_of_false (fun h => h hnil) id, ?_⟩
  by_cases hbuf : conn.recvBuf = []
  · exact iff_of_false (hunkept hbuf).2 fun hnone => h.buffered.mpr hnone.1 hbuf
  · have hlen' : (ids ++ [k.requestId]).length ≤ ms.length := by
      rw [List.length_append]
      exact hlen
    have hiff := (hsettled hbuf).waiting_iff hlen' hsize
    rw [List.length_append, List.length_singleton, ← hcount] at hiff
    exact hiff.trans ⟨fun harrived => ⟨h.buffered.mp hbuf, harrived⟩, And.right⟩

theorem Tracked.received {piece : Bytes} (hpaired : Paired ms ids (piece ++ rest) conn results) (fd : Nat) (more : Bool)
    (hcount : (past.filterMap Event.ticket?).length = ids.length) (hlen : ids.length ≤ ms.length)
    (hsize : (past.flatMap Event.bytes).length + (piece ++ rest).length = (wires ms).length) :
    Tracked ms (.received piece more :: past) (conn.onData fd piece).1 := by
  obtain ⟨-, hsettled, hkept, hdrained⟩ := Paired.received hms hpaired fd
  constructor
  · rw [buffered_received, ← h.buffered, ← h.waits]
    by_cases hwait : conn.pendingIds = []
    · rw [hkept hwait, Ne, List.append_eq_nil_iff, not_and_or]
      exact or_congr Iff.rfl (iff_self_and.mpr fun _ => hwait)
    · rw [hdrained hwait]
      refine iff_of_false (fun h => h rfl) ?_
      rintro (hbuf | ⟨-, hnil⟩)
      · exact hwait (hpaired.buffered hbuf)
      · exact hwait hnil
  · have hsize' : (Event.bytes (.received piece more) ++ past.flatMap Event.bytes).length + rest.length = (wires ms).length := by
      rw [List.length_append] at hsize ⊢
      rw [← hsize]
      show piece.length + _ + _ = _
      omega
    have hiff := hsettled.waiting_iff hlen hsize'
    rw [← hcount] at hiff
    exact hiff

end

/-! ## Turns -/

/-- A completion, and the tickets that have come since the one before it. -/
abbrev Turn := List SendTicket × Event

/-- The requests whose sends complete. -/
def sends (turns : List Turn) : List SendTicket := turns.filterMap fun turn => turn.2.ticket?

/-- The bytes that arrive. -/
def received (turns : List Turn) : Bytes := turns.flatMap fun turn => turn.2.bytes

/-- Every send that completes is one whose ticket has come and was not redeemed, `unredeemed` being those that were
    there before; and two sends in flight have different `user_data`. -/
def Supplied : List SendTicket → List Turn → Prop
  | _, [] => True
  | unredeemed, (arrived, e) :: turns =>
    ((unredeemed ++ arrived).map SendTicket.id).Nodup ∧
      match e with
      | .sent k => k ∈ unredeemed ++ arrived ∧ Supplied ((unredeemed ++ arrived).erase k) turns
      | .received _ _ => Supplied (unredeemed ++ arrived) turns

/-- The complete thread after these turns, what is left on its ticket ring, and the messages pushed. -/
def afterTurns (fd connId : Nat) (turns : List Turn) : CompleteThread × List SendTicket × List Msg :=
  CompleteThread.new.completeLoop [] (turns.map fun turn => (turn.1, turn.2.cqe fd connId))

/-- The results delivered in these turns. -/
def delivered (fd connId : Nat) (turns : List Turn) : List ConnResult := (afterTurns fd connId turns).2.2.filterMap Msg.result?

section

variable {connId fd : Nat} (hconn : connId < 2 ^ 32) (hfd : fd < 2 ^ 31 - 1)

/-- A send that was accepted whole completes. -/
theorem reap_sent {t : CompleteThread} {ticketRx : List SendTicket} {k : SendTicket} (hk : k.id < 2 ^ 63)
    (hknown : t.known ticketRx k.id = some k) :
    t.reap ticketRx (Event.cqe fd connId (.sent k)) =
      ({ t with tickets := Function.update (t.known ticketRx) k.id none }.setConn k.connId
        ((t.entry k.connId).onSent k.requestId).1, [], ((t.entry k.connId).onSent k.requestId).2.map .result) := by
  have hlookup : (ticketRx.foldl CompleteThread.insertTicket t.tickets) (Event.cqe fd connId (.sent k)).userData = some k :=
    hknown
  rw [CompleteThread.reap_send hk]
  unfold CompleteThread.onSend
  dsimp only
  rw [hlookup]
  dsimp only
  unfold CompleteThread.onSendComplete
  rw [if_neg (by simp [Event.cqe])]
  rfl

include hconn hfd

/-- A recv has brought some bytes. -/
theorem reap_received (t : CompleteThread) (ticketRx : List SendTicket) (piece : Bytes) (more : Bool) :
    t.reap ticketRx (Event.cqe fd connId (.received piece more)) =
      (t.setConn connId ((t.entry connId).onData fd piece).1, ticketRx,
        ((t.entry connId).onData fd piece).2.map .result ++ if more then [] else [Msg.rearm ⟨connId, fd⟩]) := by
  have hrecv := CompleteThread.onRecv_data (e := Event.cqe fd connId (.received piece more)) (Int.natCast_nonneg _) rfl
    (Nat.le_refl _) t connId fd
  rw [show (Event.cqe fd connId (.received piece more)).result.toNat = piece.length from rfl, List.take_length] at hrecv
  rw [CompleteThread.reap_recv rfl hconn hfd, hrecv]
  rfl

end

/-- The thread in the middle of the turns, the completions `past` behind it: `unredeemed` are the tickets of the sends in
    flight. -/
structure Healthy (connId : Nat) (ms : List Message) (past : List Event) (ids : List RequestId) (rest : Bytes)
    (unredeemed : List SendTicket) (t : CompleteThread) (ticketRx : List SendTicket) (results : List ConnResult) : Prop where
  running : t.running = true
  known : ∀ k ∈ unredeemed, t.known ticketRx k.id = some k
  paired : Paired ms ids rest (t.entry connId) results
  tracked : Tracked ms past (t.entry connId)
  count : (past.filterMap Event.ticket?).length = ids.length
  size : (past.flatMap Event.bytes).length + rest.length = (wires ms).length

theorem healthy_new (connId : Nat) (ms : List Message) : Healthy connId ms [] [] (wires ms) [] .new [] [] where
  running := rfl
  known := List.forall_mem_nil _
  paired := paired_new ms connId
  tracked := tracked_new ms connId
  count := rfl
  size := Nat.zero_add _

/-- The requests that are sent in one turn. -/
def Event.ids (e : Event) : List RequestId := e.ticket?.toList.map SendTicket.requestId

/-- **One turn.** It settles the connection, unless it is the completion of a send for which no bytes are kept; that
    delivers nothing. -/
theorem Healthy.turn {connId fd : Nat} (hconn : connId < 2 ^ 32) (hfd : fd < 2 ^ 31 - 1) {ms : List Message}
    (hms : ∀ m ∈ ms, m.WellFormed) {past : List Event} {ids : List RequestId} {rest : Bytes} {unredeemed : List SendTicket}
    {t : CompleteThread} {ticketRx : List SendTicket} {results : List ConnResult} {arrived : List SendTicket} {e : Event}
    {turns : List Turn} (h : Healthy connId ms past ids (e.bytes ++ rest) unredeemed t ticketRx results)
    (hsup : Supplied unredeemed ((arrived, e) :: turns)) (hown : ∀ k, e = .sent k → k.connId = connId ∧ k.id < 2 ^ 63)
    (hlen : (ids ++ e.ids).length ≤ ms.length) :
    ∃ t' ticketRx' msgs unredeemed', t.reap (ticketRx ++ arrived) (e.cqe fd connId) = (t', ticketRx', msgs) ∧
      Supplied unredeemed' turns ∧
      Healthy connId ms (e :: past) (ids ++ e.ids) rest unredeemed' t' ticketRx' (results ++ msgs.filterMap Msg.result?) ∧
      ((∀ k, e = .sent k → Buffered ms past) →
        Settled ms (ids ++ e.ids) rest (t'.entry connId) (results ++ msgs.filterMap Msg.result?)) ∧
      (∀ k, e = .sent k → ¬Buffered ms past → msgs.filterMap Msg.result? = []) := by
  obtain ⟨hnodup, hsup⟩ := hsup
  have hknown := CompleteThread.known_arrived h.known hnodup
  cases e with
  | sent k =>
      obtain ⟨hk, hsup⟩ := hsup
      obtain ⟨hkconn, hkid⟩ := hown k rfl
      have hlt : ids.length < ms.length := by
        rw [List.length_append] at hlen
        exact hlen
      have htracked := h.tracked.sent hms h.paired k h.count hlt h.size
      obtain ⟨hpaired, -, hnone, hsettled⟩ := Paired.sent hms h.paired k.requestId
      rw [reap_sent hkid (hknown k hk), hkconn]
      refine ⟨_, _, _, (unredeemed ++ arrived).erase k, rfl, hsup, ⟨h.running, ?_, ?_, ?_, ?_, h.size⟩, ?_, ?_⟩
      · -- the tickets that are left have other ids
        intro k' hk'
        have hids := List.Nodup.of_map _ hnodup
        have hmem := List.mem_of_mem_erase hk'
        have hne : k' ≠ k := ((List.Nodup.mem_erase_iff hids).mp hk').1
        have hid : k'.id ≠ k.id := fun heq => hne (List.inj_on_of_nodup_map hnodup hmem hk heq)
        show Function.update _ _ _ _ = _
        rw [Function.update_of_ne hid]
        exact hknown k' hmem
      · rw [CompleteThread.entry_setConn, ← List.append_nil (List.map Msg.result _), filterMap_result _ _ rfl]
        exact hpaired
      · rw [CompleteThread.entry_setConn]
        exact htracked
      · rw [List.length_append]
        exact congrArg (· + 1) h.count
      · intro hbuffered
        rw [CompleteThread.entry_setConn, ← List.append_nil (List.map Msg.result _), filterMap_result _ _ rfl]
        exact hsettled (h.tracked.buffered.mpr (hbuffered k rfl))
      · intro k' _ hbuffered
        have hbuf : (t.entry connId).recvBuf = [] := Classical.not_not.mp fun hne => hbuffered (h.tracked.buffered.mp hne)
        rw [(hnone hbuf).1]
        rfl
  | received piece more =>
      have hpaired : Paired ms ids (piece ++ rest) (t.entry connId) results := h.paired
      have hids : ids ++ Event.ids (.received piece more) = ids := List.append_nil ids
      rw [hids] at hlen
      have htracked := h.tracked.received hms hpaired fd more h.count hlen h.size
      obtain ⟨hpaired, hsettled, -, -⟩ := Paired.received hms hpaired fd
      rw [reap_received hconn hfd, hids]
      have hrearm : (if more then [] else [Msg.rearm ⟨connId, fd⟩]).filterMap Msg.result? = [] := by
        cases more with
        | true => rfl
        | false => rfl
      have hsize : (Event.bytes (.received piece more) ++ past.flatMap Event.bytes).length + rest.length =
          (wires ms).length := by
        have hsize := h.size
        rw [List.length_append] at hsize ⊢
        omega
      refine ⟨_, _, _, unredeemed ++ arrived, rfl, hsup, ⟨h.running, hknown, ?_, ?_, h.count, hsize⟩, ?_, nofun⟩
      · rw [CompleteThread.entry_setConn, filterMap_result _ _ hrearm]
        exact hpaired
      · rw [CompleteThread.entry_setConn]
        exact htracked
      · intro _
        rw [CompleteThread.entry_setConn, filterMap_result _ _ hrearm]
        exact hsettled

/-- **All turns** keep the invariant. -/
theorem Healthy.turns {connId fd : Nat} (hconn : connId < 2 ^ 32) (hfd : fd < 2 ^ 31 - 1) {ms : List Message}
    (hms : ∀ m ∈ ms, m.WellFormed) {turns later : List Turn} {past : List Event} {ids : List RequestId} {rest : Bytes}
    {unredeemed : List SendTicket} {t : CompleteThread} {ticketRx : List SendTicket} {results : List ConnResult}
    (h : Healthy connId ms past ids (received turns ++ rest) unredeemed t ticketRx results)
    (hsup : Supplied unredeemed (turns ++ later)) (hown : ∀ k ∈ sends turns, k.connId = connId ∧ k.id < 2 ^ 63)
    (hlen : (ids ++ (sends turns).map SendTicket.requestId).length ≤ ms.length) :
    ∃ t' ticketRx' msgs unredeemed',
      t.completeLoop ticketRx (turns.map fun turn => (turn.1, turn.2.cqe fd connId)) = (t', ticketRx', msgs) ∧
      Supplied unredeemed' later ∧
      Healthy connId ms ((turns.map Prod.snd).reverse ++ past) (ids ++ (sends turns).map SendTicket.requestId) rest
        unredeemed' t' ticketRx' (results ++ msgs.filterMap Msg.result?) := by
  induction turns generalizing past ids unredeemed t ticketRx results with
  | nil =>
      refine ⟨t, ticketRx, [], unredeemed, rfl, hsup, ?_⟩
      show Healthy connId ms past (ids ++ []) rest unredeemed t ticketRx (results ++ [])
      rw [List.append_nil, List.append_nil]
      exact h
  | cons turn turns ih =>
      obtain ⟨arrived, e⟩ := turn
      have hbytes : received ((arrived, e) :: turns) ++ rest = e.bytes ++ (received turns ++ rest) := by
        rw [received, List.flatMap_cons, List.append_assoc]
        rfl
      have hsends : (sends ((arrived, e) :: turns)).map SendTicket.requestId =
          e.ids ++ (sends turns).map SendTicket.requestId := by
        cases e with
        | sent k => rfl
        | received piece more => rfl
      have hhead : ∀ k, e = .sent k → k.connId = connId ∧ k.id < 2 ^ 63 := by
        rintro k rfl
        exact hown k List.mem_cons_self
      have htail : ∀ k ∈ sends turns, k.connId = connId ∧ k.id < 2 ^ 63 := by
        intro k hk
        cases e with
        | sent k' => exact hown k (List.mem_cons_of_mem _ hk)
        | received piece more => exact hown k hk
      rw [hbytes] at h
      rw [hsends, ← List.append_assoc] at hlen ⊢
      have hlen₁ : (ids ++ e.ids).length ≤ ms.length := by
        rw [List.length_append] at hlen
        exact Nat.le_trans (Nat.le_add_right _ _) hlen
      obtain ⟨t₁, ticketRx₁, msgs₁, unredeemed₁, hreap, hsup₁, hhealthy, -, -⟩ := h.turn hconn hfd hms hsup hhead hlen₁
      obtain ⟨t₂, ticketRx₂, msgs₂, unredeemed₂, hloop, hsup₂, hhealthy₂⟩ := ih hhealthy hsup₁ htail hlen
      refine ⟨t₂, ticketRx₂, msgs₁ ++ msgs₂, unredeemed₂, ?_, hsup₂, ?_⟩
      · rw [List.map_cons, CompleteThread.completeLoop]
        dsimp only
        rw [hreap]
        dsimp only
        rw [if_pos hhealthy.running, hloop]
      · rw [List.filterMap_append, ← List.append_assoc, List.map_cons, List.reverse_cons, List.append_assoc]
        exact hhealthy₂

/-! ## Every request its response -/

/-- What the caller sees of a response: the request it is for, and its status, headers and body. -/
def ConnResult.view : ConnResult → Option (RequestId × StatusCode × List (Bytes × Bytes) × Bytes)
  | .response r => some (r.requestId, r.status, r.headers, r.body)
  | _ => none

/-- The same of a response on the wire. -/
def Message.view (m : Message) (requestId : RequestId) : Option (RequestId × StatusCode × List (Bytes × Bytes) × Bytes) :=
  some (requestId, m.status, m.fields.map ResponseHead.Field.header, m.content)

theorem view_answers {ids : List RequestId} {ms : List Message} (hms : ∀ m ∈ ms, m.WellFormed) :
    (answers ids ms).map ConnResult.view = List.zipWith (fun requestId m => m.view requestId) ids ms := by
  induction ids generalizing ms with
  | nil => rfl
  | cons requestId ids ih =>
      cases ms with
      | nil => rfl
      | cons m ms =>
          have hview : ConnResult.view (.response (m.response requestId)) = m.view requestId := by
            show some (requestId, m.status, (m.response requestId).headers, m.content) = _
            rw [(hms m List.mem_cons_self).headers_response]
            rfl
          have ih := ih fun m' hm' => hms m' (List.mem_cons_of_mem m hm')
          show ConnResult.view _ :: (answers ids ms).map ConnResult.view = _
          rw [hview, ih]
          rfl

/-- If the last completion is that of a send, bytes had been kept for it. -/
def Awaited (ms : List Message) (turns : List Turn) : Prop :=
  match (turns.map Prod.snd).reverse with
  | .sent _ :: before => Buffered ms before
  | _ => True

theorem awaited_concat (ms : List Message) (front : List Turn) (arrived : List SendTicket) (e : Event) :
    Awaited ms (front ++ [(arrived, e)]) ↔ ∀ k, e = .sent k → Buffered ms (front.map Prod.snd).reverse := by
  rw [Awaited, List.map_append, List.reverse_append]
  cases e with
  | sent k => exact ⟨fun h _ _ => h, fun h => h k rfl⟩
  | received piece more => exact iff_of_true trivial fun k hk => by cases hk

theorem sends_concat (front : List Turn) (arrived : List SendTicket) (e : Event) :
    sends (front ++ [(arrived, e)]) = sends front ++ e.ticket?.toList := by
  rw [sends, List.filterMap_append]
  cases e with
  | sent k => rfl
  | received piece more => rfl

/-- **Pairing.** The sends of some requests and the bytes of as many responses have all completed, in whatever order the
    two have come and however the bytes were cut. Every request has its response, in order, exactly when the last
    completion was a recv's, or bytes had been kept for it. -/
theorem pairing_iff {connId fd : Nat} (hconn : connId < 2 ^ 32) (hfd : fd < 2 ^ 31 - 1) {ms : List Message}
    (hms : ∀ m ∈ ms, m.WellFormed) {turns : List Turn} (hsup : Supplied [] turns)
    (hown : ∀ k ∈ sends turns, k.connId = connId ∧ k.id < 2 ^ 63) (hlen : (sends turns).length = ms.length)
    (hbytes : received turns = wires ms) :
    (delivered fd connId turns).map ConnResult.view =
      List.zipWith (fun k m => m.view k.requestId) (sends turns) ms ↔ Awaited ms turns := by
  have hgoal : List.zipWith (fun k m => m.view k.requestId) (sends turns) ms =
      (answers ((sends turns).map SendTicket.requestId) ms).map ConnResult.view := by
    rw [view_answers hms, List.zipWith_map_left]
  have hlen' : ((sends turns).map SendTicket.requestId).length = ms.length := by rw [List.length_map, hlen]
  rw [hgoal]
  rcases List.eq_nil_or_concat turns with rfl | ⟨front, ⟨arrived, e⟩, rfl⟩
  · obtain rfl : ms = [] := List.length_eq_zero_iff.mp hlen.symm
    exact iff_of_true rfl trivial
  · rw [List.concat_eq_append] at *
    -- the thread before the last completion
    have hsends := sends_concat front arrived e
    have hreceived : wires ms = received front ++ (e.bytes ++ []) := by
      rw [← hbytes, received, List.flatMap_append]
      rfl
    have hstart : Healthy connId ms [] [] (received front ++ (e.bytes ++ [])) [] .new [] [] := by
      rw [← hreceived]
      exact healthy_new connId ms
    have hfront : ∀ k ∈ sends front, k.connId = connId ∧ k.id < 2 ^ 63 := by
      intro k hk
      exact hown k (hsends ▸ List.mem_append_left _ hk)
    have hids : [] ++ (sends front).map SendTicket.requestId ++ e.ids =
        (sends (front ++ [(arrived, e)])).map SendTicket.requestId := by
      rw [hsends, List.map_append]
      rfl
    have hall : ([] ++ (sends front).map SendTicket.requestId ++ e.ids).length ≤ ms.length := by
      rw [hids]
      exact Nat.le_of_eq hlen'
    have hsome : ([] ++ (sends front).map SendTicket.requestId).length ≤ ms.length := by
      rw [List.length_append] at hall
      exact Nat.le_trans (Nat.le_add_right _ _) hall
    obtain ⟨t₁, ticketRx₁, msgs₁, unredeemed₁, hloop, hsup₁, hhealthy⟩ := hstart.turns hconn hfd hms hsup hfront hsome
    have hlast : ∀ k, e = .sent k → k.connId = connId ∧ k.id < 2 ^ 63 := by
      rintro k rfl
      exact hown k (hsends ▸ List.mem_append_right _ List.mem_cons_self)
    obtain ⟨t₂, ticketRx₂, msgs₂, -, hreap, -, -, hsettled, hnone⟩ := hhealthy.turn hconn hfd hms hsup₁ hlast hall
    rw [List.append_nil] at hsettled hnone
    have hdelivered : delivered fd connId (front ++ [(arrived, e)]) =
        msgs₁.filterMap Msg.result? ++ msgs₂.filterMap Msg.result? := by
      rw [delivered, afterTurns, List.map_append]
      show List.filterMap _ (CompleteThread.completeLoop _ _ (_ ++ [(arrived, e.cqe fd connId)])).2.2 = _
      rw [CompleteThread.completeLoop_concat hloop hhealthy.running, hreap]
      exact List.filterMap_append
    rw [hids, List.nil_append] at hsettled
    rw [hdelivered, awaited_concat]
    constructor
    · -- without bytes for the last request there is no result for it
      rintro hview k rfl
      by_contra hbuffered
      rw [hnone k rfl hbuffered, List.append_nil] at hview
      obtain ⟨n, hn, -, -, hresults, -⟩ := hhealthy.paired.pairs
      have hcount := congrArg List.length hview
      rw [List.nil_append] at hn hresults
      rw [hresults] at hcount
      simp only [answers, List.length_map, List.length_zipWith, List.length_take, hlen'] at hcount hn
      have hlt : (sends front).length < ms.length := by
        rw [← hlen, hsends, List.length_append]
        exact Nat.lt_succ_self _
      rw [List.length_map] at hlen'
      omega
    · intro hbuffered
      rw [(hsettled hbuffered).all (Nat.le_of_eq hlen')]

/-- A response without a body. -/
def noContent : Message := ⟨ascii "HTTP/1.1 204 A", .http11, .NO_CONTENT, ascii "A", [], [], []⟩

theorem noContent_wellFormed : noContent.WellFormed where
  line := ⟨ascii "HTTP/1.1", ascii "204", by decide, by decide, by decide, by decide, .inr ⟨by decide, by
    simp [noContent, ascii, ResponseHead.IsText]⟩⟩
  fields := nofun
  count := Nat.zero_le _
  size := by decide
  body := ⟨.none, by decide, rfl, rfl⟩

/-- The tickets of two requests on the first connection. -/
def firstTicket : SendTicket := ⟨0, ascii "a", 0, 1⟩

def secondTicket : SendTicket := ⟨1, ascii "b", 0, 2⟩

/-- The second response arrives when the first request has been answered, and before the send of the second one is known
    to have completed. -/
theorem pairing_iff_sent_last :
    (delivered 5 0 [([firstTicket, secondTicket], .sent firstTicket), ([], .received noContent.wire true),
      ([], .received noContent.wire true), ([], .sent secondTicket)]).map ConnResult.view =
        [noContent.view 1, noContent.view 2] := by
  have hms : ∀ m ∈ [noContent, noContent], m.WellFormed := by
    intro m hm
    rw [show m = noContent by simpa using hm]
    exact noContent_wellFormed
  refine (pairing_iff (by decide) (by decide) hms ?_ ?_ rfl rfl).mpr ?_
  · exact ⟨by decide, by decide, by decide, by decide, by decide, by decide, trivial⟩
  · decide
  · refine .inr ⟨by decide, ?_⟩
    show (wires [noContent]).length ≤ _
    decide

/-- The responses arrive when only the first request is known to have been sent. The second one waits in the parser, and
    the completion of its request's send does not look there. -/
theorem pairing_leftover : ¬∀ (ms : List Message) (turns : List Turn), (∀ m ∈ ms, m.WellFormed) → Supplied [] turns →
    (∀ k ∈ sends turns, k.connId = 0 ∧ k.id < 2 ^ 63) → (sends turns).length = ms.length → received turns = wires ms →
    (delivered 5 0 turns).map ConnResult.view = List.zipWith (fun k m => m.view k.requestId) (sends turns) ms := by
  intro h
  have hms : ∀ m ∈ [noContent, noContent], m.WellFormed := by
    intro m hm
    rw [show m = noContent by simpa using hm]
    exact noContent_wellFormed
  have hall := h [noContent, noContent] [([firstTicket], .sent firstTicket),
    ([], .received (wires [noContent, noContent]) true), ([secondTicket], .sent secondTicket)] hms
    ⟨by decide, by decide, by decide, by decide, by decide, trivial⟩ (by decide) rfl rfl
  have hcount := congrArg List.length hall
  rw [List.length_map] at hcount
  revert hcount
  decide

end Xibalba.Iouring
