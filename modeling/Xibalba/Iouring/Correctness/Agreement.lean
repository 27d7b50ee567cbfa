import Xibalba.Iouring.Correctness.Pairing
import Xibalba.Client.Correctness.Bodies
import Xibalba.Client.Correctness.HeadSplit

/-!
# `Iouring.Correctness.Agreement` — the io_uring parser beside the blocking client

Both clients read responses with the same parsers, each with a driver of its own. A server may send interim heads before
a final response. The blocking client skips them; the io_uring parser takes each of them for a response.

Layout:
* an exchange, and what the blocking client reads of it;
* what the io_uring parser delivers for the exchanges of a connection;
* `agreement_iff`.
-/

namespace Xibalba.Iouring

open ResponseHead (Field)

/-! ## The blocking client -/

/-- The bytes of one exchange: interim heads, and a final response. -/
structure Exchange where
  interim : List Message
  final : Message

namespace Exchange

def messages (ex : Exchange) : List Message := ex.interim ++ [ex.final]

def wire (ex : Exchange) : Bytes := wires ex.messages

/-- At most eight interim heads and a final response that ends by itself. -/
structure WellFormed (ex : Exchange) : Prop where
  messages : ∀ m ∈ ex.messages, m.WellFormed
  interim : ∀ m ∈ ex.interim, Xibalba.HeadData.isInterim m.status = true
  count : ex.interim.length ≤ Xibalba.HeadData.MAX_INTERIM_RESPONSES
  final : Xibalba.HeadData.isInterim ex.final.status = false

/-- The limits of the blocking client. -/
structure Within (maxHead maxBody : Nat) (ex : Exchange) : Prop where
  head : ∀ m ∈ ex.messages, m.head.length ≤ maxHead
  body : ex.final.content.length ≤ maxBody

end Exchange

/-- `read_response`, and the body behind the head it returns. -/
def readExchange (maxHead maxBody : Nat) (headSilence bodySilence : Duration) (deadline : RequestDeadline) (fuel : Nat) :
    M Error (Xibalba.HeadData × Bytes) := do
  let (head, framing, bodyStart) ← Xibalba.HeadData.readResponse .raw maxHead headSilence deadline .get fuel
  let budget ← SilenceBudget.withDeadline bodySilence deadline
  let tail := (← M.client).headBuf.drop bodyStart
  let (body, _) ← BodyCollector.read .raw maxBody fuel budget framing tail
  return (head, body)

namespace Message

/-- What the blocking client keeps of the head. -/
def clientHead (m : Message) : Xibalba.HeadData :=
  ⟨m.version, m.status, m.head, m.headData.ranges, m.headerSlices.length⟩

section

variable {m : Message} (hm : m.WellFormed)

include hm

/-- The head is found in front of whatever follows. -/
theorem WellFormed.splitHead {maxHead : Nat} (hle : m.head.length ≤ maxHead) (ending : Ending) (rest : Bytes) :
    Xibalba.HeadData.splitHead maxHead ending (m.head ++ rest) = .ok (m.head, rest) := by
  obtain ⟨hfind, hfour⟩ := hm.find rest
  unfold Xibalba.HeadData.splitHead
  rw [hfind]
  dsimp only
  rw [Nat.sub_add_cancel hfour, if_neg (Nat.not_lt.mpr hle), List.take_left, List.drop_left]

/-- The head that is kept is accepted, and shows the fields in order. -/
theorem WellFormed.clientHead :
    Xibalba.HeadData.new m.version m.status m.head m.headData.ranges m.headerSlices.length = .ok m.clientHead ∧
      m.clientHead.headers = m.fields.map Field.header := by
  have htake : m.headData.ranges.take m.headerSlices.length = m.headerSlices.map HeaderRange.ofSlices := by
    rw [length_headerSlices, take_ranges]
  constructor
  · unfold Xibalba.HeadData.new
    have hcount : ¬m.headerSlices.length > MAX_HEADERS := by
      rw [length_headerSlices]
      exact Nat.not_lt.mpr hm.count
    have hall : (m.headData.ranges.take m.headerSlices.length).all
        (Xibalba.HeadData.rangeWithin · m.head.length) = true := by
      rw [htake, List.all_map, List.all_eq_true]
      intro h hmem
      obtain ⟨hname, hvalue, hne⟩ := hm.within h hmem
      have hn := hname.length_le
      have hv := hvalue.length_le
      have hpos : 0 < h.name.bytes.length := List.length_pos_iff.mpr hne
      simp only [Function.comp_apply, Xibalba.HeadData.rangeWithin, HeaderRange.ofSlices, Bool.and_eq_true]
      exact ⟨⟨decide_eq_true hpos, decide_eq_true hn⟩, decide_eq_true hv⟩
    rw [if_neg hcount, if_pos hall]
    rfl
  · unfold Xibalba.HeadData.headers
    rw [show m.clientHead.ranges.take m.clientHead.headerCount = _ from htake, List.map_map,
      ← ResponseHead.pair_slices (m.line.length + 2)]
    refine List.map_congr_left fun h hmem => ?_
    exact HeaderRange.read_ofSlices (hm.within h hmem)

/-- What `read_response` makes of a final head. -/
theorem WellFormed.final {maxHead : Nat} (hle : m.head.length ≤ maxHead)
    (hfinal : Xibalba.HeadData.isInterim m.status = false) {framing : BodyFraming}
    (hframing : BodyFraming.fromResponse m.status .get m.headers = .ok framing) (ending : Ending) (skips : Nat)
    (rest : Bytes) :
    Xibalba.HeadData.response maxHead .get ending skips (m.head ++ rest) =
      .ok ((m.clientHead, framing, m.head.length), rest) := by
  have hnot : ¬Xibalba.HeadData.isInterim m.status = true := by
    rw [hfinal]
    exact nofun
  rw [Xibalba.HeadData.response_final (hm.splitHead hle ending rest) hm.parse hnot, Xibalba.HeadData.finalHead]
  dsimp only
  rw [hm.buildRanges, header_headerSlices, hframing]
  show (Xibalba.HeadData.new _ _ _ _ _).map _ = _
  rw [hm.clientHead.1]
  rfl

end

/-- The body of a response that ends by itself is the content, whatever its framing. -/
theorem body_eq {framing : BodyFraming} {w out : Bytes} (h : Delimits framing w out) (ending : Ending) :
    framing.body ending w = .ok out ∧ framing.weight w = out.length := by
  cases framing with
  | none =>
      obtain ⟨rfl, rfl⟩ := h
      exact ⟨rfl, rfl⟩
  | contentLength n =>
      obtain ⟨rfl, rfl⟩ := h
      have hverdict : (BodyFraming.contentLength out.length).verdict out = .done := if_pos (Nat.le_refl _)
      unfold BodyFraming.body
      rw [hverdict]
      exact ⟨congrArg Except.ok (List.take_length), rfl⟩
  | chunked =>
      have hrun : ChunkedDecoder.run .new w = ⟨out, .done, w.length⟩ := ChunkedGrammar.accepts_new.mpr h
      have hverdict : BodyFraming.chunked.verdict w = .done := congrArg ChunkedDecoder.Outcome.verdict hrun
      have hbody : decoded .chunked w = out := congrArg ChunkedDecoder.Outcome.body hrun
      unfold BodyFraming.body
      rw [hverdict]
      exact ⟨congrArg Except.ok hbody, congrArg List.length hbody⟩
  | untilClose => exact h.elim

/-- An interim response is its head. -/
theorem WellFormed.interim {m : Message} (hm : m.WellFormed) (hint : Xibalba.HeadData.isInterim m.status = true) :
    m.wire = m.head := by
  obtain ⟨framing, hframing, hbody⟩ := hm.body
  have hinfo : m.status.isInformational = true := (Bool.and_eq_true_iff.mp hint).1
  have hnone : BodyFraming.fromResponse m.status .get m.headers = .ok .none := by
    unfold BodyFraming.fromResponse
    rw [if_pos (.inl hinfo)]
    rfl
  rw [hnone] at hframing
  cases hframing
  rw [wire, hbody.1, List.append_nil]

/-- What `read_response` makes of interim heads in front of a final one. -/
theorem response_interims {maxHead : Nat} {ending : Ending} {is : List Message} (hwf : ∀ i ∈ is, i.WellFormed)
    (hint : ∀ i ∈ is, Xibalba.HeadData.isInterim i.status = true) (hle : ∀ i ∈ is, i.head.length ≤ maxHead) (skips : Nat)
    (rest : Bytes) :
    Xibalba.HeadData.response maxHead .get ending (is.length + skips) (wires is ++ rest) =
      Xibalba.HeadData.response maxHead .get ending skips rest := by
  induction is with
  | nil => rw [List.length_nil, Nat.zero_add, wires, List.flatMap_nil, List.nil_append]
  | cons i is ih =>
      have hi := hwf i List.mem_cons_self
      have hstatus := hint i List.mem_cons_self
      have ih := ih (fun j hj => hwf j (List.mem_cons_of_mem i hj)) (fun j hj => hint j (List.mem_cons_of_mem i hj))
        fun j hj => hle j (List.mem_cons_of_mem i hj)
      rw [wires_cons, hi.interim hstatus, List.append_assoc,
        Xibalba.HeadData.response_interim (hi.splitHead (hle i List.mem_cons_self) ending _) hi.parse hstatus,
        List.length_cons, Nat.add_right_comm]
      exact ih

end Message

/-- What a client shows of a response. -/
def Message.shown (m : Message) : StatusCode × List (Bytes × Bytes) × Bytes :=
  (m.status, m.fields.map Field.header, m.content)

/-- The server of an exchange is punctual: the budget of the head lasts, and then that of the body. -/
structure OnTime {ρ : Type} (env : Env Sys ρ) (maxHead : Nat) (headSilence bodySilence : Duration)
    (deadline : RequestDeadline) (fuel : Nat) (start : Local × ρ) : Prop where
  head : Punctual env headSilence deadline start.2
  body : ∀ x l st, Prog.eval env (Xibalba.HeadData.readResponse .raw maxHead headSilence deadline .get fuel start.1)
    start.2 = some ((.ok x, l), st) → Punctual env bodySilence deadline st

/-- **The blocking client** returns the final response of an exchange, however its bytes arrive. -/
theorem readExchange_returns {ρ : Type} {env : Env Sys ρ} {due : ρ → Delivery} (hs : Supplies env due)
    {maxHead maxBody : Nat} {ex : Exchange} (hex : ex.WellFormed) (hwithin : ex.Within maxHead maxBody) {st : ρ}
    (hbytes : (due st).bytes = ex.wire) {headSilence bodySilence : Duration} {deadline : RequestDeadline} {fuel : Nat}
    {l : Local} (htime : OnTime env maxHead headSilence bodySilence deadline fuel (l, st)) (hfuel : (due st).size < fuel) :
    Act.Returns env (readExchange maxHead maxBody headSilence bodySilence deadline fuel) (fun r _ _ =>
      ∃ head body, r = .ok (head, body) ∧ (head.status, head.headers, body) = ex.final.shown) l st := by
  have hmem : ex.final ∈ ex.messages := List.mem_append_right _ List.mem_cons_self
  have hfinal := hex.messages ex.final hmem
  obtain ⟨framing, hframing, hbody⟩ := hfinal.body
  have hweight := (Message.body_eq hbody .eof).2
  have hresponse : Xibalba.HeadData.response maxHead .get (due st).ending Xibalba.HeadData.MAX_INTERIM_RESPONSES
      (due st).bytes = .ok ((ex.final.clientHead, framing, ex.final.head.length), ex.final.body) := by
    obtain ⟨skips, hskips⟩ := Nat.exists_eq_add_of_le hex.count
    have hwire : ex.wire = wires ex.interim ++ (ex.final.head ++ ex.final.body) := by
      rw [Exchange.wire, Exchange.messages, wires, List.flatMap_append, List.flatMap_singleton]
      rfl
    rw [hbytes, hwire, hskips, Message.response_interims (fun i hi => hex.messages i (List.mem_append_left _ hi))
      hex.interim (fun i hi => hwithin.head i (List.mem_append_left _ hi))]
    exact hfinal.final (hwithin.head _ hmem) hex.final hframing _ _ _
  unfold readExchange
  obtain ⟨r, l₁, st₁, heval, acc, hclient, hless, hresp⟩ :=
    Xibalba.HeadData.returns_readResponse hs maxHead htime.head .get (l := l) hfuel
  refine Act.returns_bind.mpr ⟨r, l₁, st₁, heval, ?_⟩
  rw [hresponse] at hresp
  cases r with
  | error e => cases hresp
  | ok x =>
      obtain ⟨rfl, hrest⟩ := Prod.mk.inj (Except.ok.inj hresp)
      have hbuf : l₁.client.headBuf = acc := by rw [hclient]
      -- the body is what the accumulator holds behind the head, and what is still to come
      refine Act.returns_bind.mpr (SilenceBudget.returns_withDeadline bodySilence deadline |>.mpr ?_)
      simp only [Act.then_ok, M.client, Act.returns_bind, Act.returns_get, Act.returns_pure]
      have hdue := hs.now st₁
      have hfuel₂ : (due (env st₁ .now).2).size < fuel := by
        rw [hdue]
        exact Nat.lt_of_le_of_lt hless hfuel
      refine (BodyCollector.returns_read hs maxBody (htime.body _ _ _ heval) framing _ hfuel₂).mono ?_
      rintro r l₂ st₃ ⟨-, hr⟩
      rw [hbuf, hdue, ← hrest, BodyCollector.collected, hweight, if_neg (Nat.not_lt.mpr hwithin.body)] at hr
      rw [(Message.body_eq hbody _).1] at hr
      rw [hr]
      refine Act.returns_pure.mpr ⟨_, _, rfl, ?_⟩
      rw [hfinal.clientHead.2]
      rfl

/-! ## The io_uring parser -/

/-- The pieces of a connection's bytes, one after the other. -/
def onPieces (fd : Nat) (conn : ConnData) : List Bytes → ConnData × List ConnResult
  | [] => (conn, [])
  | piece :: pieces =>
    let (conn, results) := conn.onData fd piece
    let (conn, results') := onPieces fd conn pieces
    (conn, results ++ results')

/-- What the pieces deliver while requests wait. -/
theorem onPieces_spec {ms : List Message} (hms : ∀ m ∈ ms, m.WellFormed) {ids : List RequestId} (fd : Nat)
    {pieces : List Bytes} {conn : ConnData} {results : List ConnResult}
    (h : Paired ms ids pieces.flatten conn results) (hsettled : pieces = [] → Settled ms ids [] conn results) :
    Settled ms ids [] (onPieces fd conn pieces).1 (results ++ (onPieces fd conn pieces).2) := by
  induction pieces generalizing conn results with
  | nil =>
      rw [onPieces, List.append_nil]
      exact hsettled rfl
  | cons piece pieces ih =>
      rw [List.flatten_cons] at h
      obtain ⟨hpaired, hsettled', -, -⟩ := h.received hms fd
      have ih := ih hpaired fun hnil => by
        rw [hnil] at hsettled'
        exact hsettled'
      rw [List.append_assoc] at ih
      exact ih

theorem wire_ne_nil (m : Message) : m.wire ≠ [] := by
  apply List.append_ne_nil_of_left_ne_nil
  exact List.append_ne_nil_of_right_ne_nil _ (List.cons_ne_nil _ _)

/-- With a request for each of the first responses, these are what is delivered. -/
theorem onPieces_answers {ms : List Message} (hms : ∀ m ∈ ms, m.WellFormed) {ids : List RequestId}
    (hids : ids.length ≤ ms.length) (connId fd : Nat) {pieces : List Bytes} (hpieces : pieces.flatten = wires ms) :
    (onPieces fd { ConnData.new connId with pendingIds := ids } pieces).2 = answers ids ms := by
  have hstart : Paired ms ids pieces.flatten { ConnData.new connId with pendingIds := ids } [] := by
    rw [hpieces]
    exact ⟨⟨0, Nat.zero_le _, Nat.zero_le _, rfl, rfl, .between rfl⟩, fun h => absurd rfl h⟩
  have hnil : pieces = [] → Settled ms ids [] { ConnData.new connId with pendingIds := ids } [] := by
    rintro rfl
    cases ms with
    | nil =>
        have hids : ids = [] := List.length_eq_zero_iff.mp (Nat.le_zero.mp hids)
        exact ⟨0, Nat.zero_le _, Nat.zero_le _, rfl, Nat.zero_le _, rfl, .inl hids⟩
    | cons m ms =>
        rw [wires_cons] at hpieces
        exact absurd (List.append_eq_nil_iff.mp hpieces.symm).1 (wire_ne_nil m)
  exact (onPieces_spec hms fd hstart hnil).all hids

/-! ## Agreement -/

/-- What the io_uring client shows of a result. -/
def ConnResult.shown : ConnResult → Option (StatusCode × List (Bytes × Bytes) × Bytes)
  | .response r => some (r.status, r.headers, r.body)
  | _ => none

/-- What the blocking client shows of a result. -/
def shownBlocking : Except Error (Xibalba.HeadData × Bytes) → Option (StatusCode × List (Bytes × Bytes) × Bytes)
  | .ok (head, body) => some (head.status, head.headers, body)
  | .error _ => none

theorem shown_answers {ids : List RequestId} {ms : List Message} (hms : ∀ m ∈ ms, m.WellFormed) :
    (answers ids ms).map ConnResult.shown = (ms.take ids.length).map fun m => some m.shown := by
  induction ids generalizing ms with
  | nil => rfl
  | cons requestId ids ih =>
      cases ms with
      | nil => rfl
      | cons m ms =>
          have hshown : ConnResult.shown (.response (m.response requestId)) = some m.shown := by
            show some (m.status, (m.response requestId).headers, m.content) = _
            rw [(hms m List.mem_cons_self).headers_response]
            rfl
          have ih := ih fun m' hm' => hms m' (List.mem_cons_of_mem m hm')
          show ConnResult.shown _ :: (answers ids ms).map ConnResult.shown = _
          rw [hshown, ih]
          rfl

/-- The first responses on the wire are the final ones only if nothing interim stands between them. -/
theorem take_messages_iff {exs : List Exchange} (hexs : ∀ ex ∈ exs, ex.WellFormed) :
    (((exs.flatMap Exchange.messages).take exs.length).map fun m => some m.shown) =
        exs.map (fun ex => some ex.final.shown) ↔ ∀ ex ∈ exs, ex.interim = [] := by
  induction exs with
  | nil => exact ⟨fun _ => nofun, fun _ => rfl⟩
  | cons ex exs ih =>
      have ih := ih fun ex' hex' => hexs ex' (List.mem_cons_of_mem ex hex')
      have hex := hexs ex List.mem_cons_self
      rw [List.flatMap_cons, List.length_cons, List.map_cons, List.forall_mem_cons]
      cases hint : ex.interim with
      | nil =>
          rw [Exchange.messages, hint, List.nil_append, List.singleton_append, List.take_succ_cons, List.map_cons]
          constructor
          · intro heq
            exact ⟨rfl, ih.mp (List.cons.inj heq).2⟩
          · intro h
            rw [ih.mpr h.2]
      | cons i is =>
          -- an interim status in the place of a final one
          rw [Exchange.messages, hint, List.cons_append, List.cons_append, List.take_succ_cons, List.map_cons]
          constructor
          · intro heq
            have hstatus : i.status = ex.final.status := congrArg Prod.fst (Option.some.inj (List.cons.inj heq).1)
            have hinterim := hex.interim i (hint ▸ List.mem_cons_self)
            rw [hstatus, hex.final] at hinterim
            cases hinterim
          · intro h
            cases h.1

/-- **Agreement.** The bytes of some exchanges reach the io_uring client on one connection, cut anywhere, while a request
    waits for each of them, and the blocking client exchange by exchange, cut anywhere too and in time for its budgets.
    The blocking client returns one response for each exchange; the io_uring client delivers the same responses in the
    same order exactly when no exchange has an interim head. -/
theorem agreement_iff {ρ : Type} {env : Env Sys ρ} {due : ρ → Delivery} (hs : Supplies env due) {maxHead maxBody : Nat}
    {exs : List Exchange} (hexs : ∀ ex ∈ exs, ex.WellFormed ∧ ex.Within maxHead maxBody) {ids : List RequestId}
    (hids : ids.length = exs.length) (connId fd : Nat) {pieces : List Bytes}
    (hpieces : pieces.flatten = exs.flatMap Exchange.wire) {starts : List (Local × ρ)}
    (hstarts : List.Forall₂ (fun ex start => (due start.2).bytes = ex.wire) exs starts) (headSilence bodySilence : Duration)
    (deadline : RequestDeadline) {fuel : Nat} (hfuel : ∀ start ∈ starts, (due start.2).size < fuel)
    (htime : ∀ start ∈ starts, OnTime env maxHead headSilence bodySilence deadline fuel start) :
    ∃ results, List.Forall₂ (fun start r => ∃ l st, Prog.eval env
        (readExchange maxHead maxBody headSilence bodySilence deadline fuel start.1) start.2 = some ((r, l), st))
        starts results ∧ results.map shownBlocking = exs.map (fun ex => some ex.final.shown) ∧
      ((onPieces fd { ConnData.new connId with pendingIds := ids } pieces).2.map ConnResult.shown =
        results.map shownBlocking ↔ ∀ ex ∈ exs, ex.interim = []) := by
  have hwf : ∀ ex ∈ exs, ex.WellFormed := fun ex hex => (hexs ex hex).1
  have hms : ∀ m ∈ exs.flatMap Exchange.messages, m.WellFormed := by
    intro m hm
    obtain ⟨ex, hex, hm⟩ := List.mem_flatMap.mp hm
    exact (hwf ex hex).messages m hm
  have hcount : ids.length ≤ (exs.flatMap Exchange.messages).length := by
    rw [hids]
    clear hids hpieces hstarts hexs hwf hms
    induction exs with
    | nil => exact Nat.zero_le _
    | cons ex exs ih =>
        rw [List.flatMap_cons, List.length_cons, List.length_append, Exchange.messages, List.length_append,
          List.length_singleton]
        omega
  have hwires : exs.flatMap Exchange.wire = wires (exs.flatMap Exchange.messages) := (List.flatMap_assoc).symm
  rw [onPieces_answers hms hcount connId fd (hpieces.trans hwires), shown_answers hms, hids]
  -- the blocking client, exchange by exchange
  have hblocking : ∃ results, List.Forall₂ (fun start r => ∃ l st, Prog.eval env
        (readExchange maxHead maxBody headSilence bodySilence deadline fuel start.1) start.2 = some ((r, l), st))
        starts results ∧ results.map shownBlocking = exs.map fun ex => some ex.final.shown := by
    clear hms hcount hwires hpieces hids hwf
    induction hstarts with
    | nil => exact ⟨[], .nil, rfl⟩
    | @cons ex start exs starts hbytes _ ih =>
        obtain ⟨hex, hwithin⟩ := hexs ex List.mem_cons_self
        obtain ⟨results, hresults, hshown⟩ := ih (fun ex' hex' => hexs ex' (List.mem_cons_of_mem ex hex'))
          (fun s hs' => hfuel s (List.mem_cons_of_mem start hs')) fun s hs' => htime s (List.mem_cons_of_mem start hs')
        obtain ⟨r, l, st, heval, head, body, rfl, hfinal⟩ := readExchange_returns hs hex hwithin hbytes
          (htime start List.mem_cons_self) (hfuel start List.mem_cons_self)
        refine ⟨.ok (head, body) :: results, .cons ⟨l, st, heval⟩ hresults, ?_⟩
        rw [List.map_cons, List.map_cons, hshown]
        exact congrArg (some · :: _) hfinal
  obtain ⟨results, hresults, hshown⟩ := hblocking
  refine ⟨results, hresults, hshown, ?_⟩
  rw [hshown]
  exact take_messages_iff hwf

/-- One response, which reaches the io_uring client in two pieces and the blocking client byte by byte. -/
theorem agreement_iff_noContent :
    ∃ results, List.Forall₂ (fun start r => ∃ l st, Prog.eval (Delivery.serve 0)
        (readExchange 64 64 1 1 .NONE 40 start.1) start.2 = some ((r, l), st))
        [(idle, ⟨noContent.wire.map fun b => .data [b] (List.cons_ne_nil _ _), .eof⟩)] results ∧
      (onPieces 5 { ConnData.new 0 with pendingIds := [1] } [noContent.wire.take 7, noContent.wire.drop 7]).2.map
        ConnResult.shown = results.map shownBlocking := by
  have hex : (Exchange.mk [] noContent).WellFormed := by
    refine ⟨?_, nofun, Nat.zero_le _, by decide⟩
    intro m hm
    rw [show m = noContent from List.mem_singleton.mp hm]
    exact noContent_wellFormed
  have hwithin : (Exchange.mk [] noContent).Within 64 64 := by
    refine ⟨?_, Nat.zero_le _⟩
    intro m hm
    rw [show m = noContent from List.mem_singleton.mp hm]
    decide
  have hexs : ∀ ex ∈ [Exchange.mk [] noContent], ex.WellFormed ∧ ex.Within 64 64 := by
    intro ex hmem
    rw [List.mem_singleton.mp hmem]
    exact ⟨hex, hwithin⟩
  have hids : [1].length = [Exchange.mk [] noContent].length := rfl
  have hpieces : [noContent.wire.take 7, noContent.wire.drop 7].flatten =
      [Exchange.mk [] noContent].flatMap Exchange.wire := by decide
  have hstarts : List.Forall₂ (fun (ex : Exchange) (start : Local × Delivery) => start.2.bytes = ex.wire)
      [Exchange.mk [] noContent] [(idle, ⟨noContent.wire.map fun b => .data [b] (List.cons_ne_nil _ _), .eof⟩)] :=
    .cons (by decide) .nil
  have hfuel : ∀ start ∈ [((idle, ⟨noContent.wire.map fun b => .data [b] (List.cons_ne_nil _ _), .eof⟩) : Local × Delivery)],
      start.2.size < 40 := by
    intro start hmem
    rw [List.mem_singleton.mp hmem]
    decide
  have htime : ∀ start ∈ [((idle, ⟨noContent.wire.map fun b => .data [b] (List.cons_ne_nil _ _), .eof⟩) : Local × Delivery)],
      OnTime (Delivery.serve 0) 64 1 1 .NONE 40 start :=
    fun _ _ => ⟨Delivery.punctual_serve Nat.one_pos _, fun _ _ _ _ => Delivery.punctual_serve Nat.one_pos _⟩
  obtain ⟨results, hresults, -, hagree⟩ :=
    agreement_iff (Delivery.supplies_serve 0) hexs hids 0 5 hpieces hstarts 1 1 .NONE hfuel htime
  refine ⟨results, hresults, hagree.mpr ?_⟩
  intro ex hmem
  rw [List.mem_singleton.mp hmem]

/-- An interim head. -/
def continueHead : Message := ⟨ascii "HTTP/1.1 100 A", .http11, ⟨100, by decide⟩, ascii "A", [], [], []⟩

theorem continueHead_wellFormed : continueHead.WellFormed where
  line := ⟨ascii "HTTP/1.1", ascii "100", by decide, by decide, by decide, by decide, .inr ⟨by decide, by
    simp [continueHead, ascii, ResponseHead.IsText]⟩⟩
  fields := nofun
  count := Nat.zero_le _
  size := by decide
  body := ⟨.none, by decide, rfl, rfl⟩

/-- An interim head in front of the response. The blocking client returns the response; the io_uring client delivers the
    interim head for the request. -/
theorem disagreement_on_interim :
    (Exchange.mk [continueHead] noContent).WellFormed ∧ (Exchange.mk [continueHead] noContent).Within 64 64 ∧
      (Prog.eval (Delivery.serve 0) (readExchange 64 64 1 1 .NONE 40 idle)
        ⟨[.data (Exchange.mk [continueHead] noContent).wire (by decide)], .eof⟩).map (fun c => shownBlocking c.1.1) =
          some (some noContent.shown) ∧
      (onPieces 5 { ConnData.new 0 with pendingIds := [1] } [(Exchange.mk [continueHead] noContent).wire]).2.map
        ConnResult.shown = [some continueHead.shown] ∧ continueHead.shown ≠ noContent.shown := by
  have hmem : ∀ m ∈ (Exchange.mk [continueHead] noContent).messages, m = continueHead ∨ m = noContent := by
    intro m hm
    simpa [Exchange.messages] using hm
  refine ⟨⟨?_, ?_, by decide, by decide⟩, ⟨?_, by decide⟩, by rfl, by rfl, by decide⟩
  · intro m hm
    rcases hmem m hm with rfl | rfl
    · exact continueHead_wellFormed
    · exact noContent_wellFormed
  · intro m hm
    rw [List.mem_singleton.mp hm]
    decide
  · intro m hm
    rcases hmem m hm with rfl | rfl
    · decide
    · decide

end Xibalba.Iouring
