import Xibalba.Client.Correctness.Exchange
import Xibalba.Client.Correctness.Body
import Xibalba.Client.Correctness.Neutral
import Xibalba.Client.Session

/-!
# `Client.Correctness.Isolation` — one exchange after the other

A connection carries another request only when every exchange on it is over: request written and flushed, head
and whole body consumed, no byte more, and neither side asked for the connection to be closed. What keeps this
up is the flag `dirty`: `Ready` says that a clear flag is the truth about the latest connection, and every
function of the client, of its streaming responses and of the reader thread leaves the client ready, however it
ends.

Layout:
* `Exchange.Complete`, `Connection.Clean`, the monitor `Isolated`;
* `Ready`, and `Answered` for the time between a head and the end of its body;
* the blocking calls, streaming responses, the reader thread;
* `session_isolated`.
-/

namespace Xibalba

/-- An exchange that is over and leaves its connection usable. -/
structure Exchange.Complete (ex : Exchange) : Prop where
  sent : ex.sent = ex.wire
  flushed : ex.flushed = ex.wire
  answered : ∃ interims head data framing body, ex.received = List.flatten interims ++ head ++ body ∧
    interims.length ≤ HeadData.MAX_INTERIM_RESPONSES ∧ (∀ i ∈ interims, IsInterim i) ∧
    IsFinal ex.params.method head data framing ∧ Framed framing body ∧
    data.connectionReuse ex.params.requestsClose = .keep

/-- A connection that may carry another request. -/
structure Connection.Clean (c : Connection) : Prop where
  stray : c.stray = []
  complete : ∀ ex ∈ c.exchanges, ex.Complete

/-- The monitor: a request is written on a clean connection only, and a final head is parsed from bytes of the
    exchange it answers. -/
def Isolated (w : Wire) : Op → Prop
  | .mark (.exchange _ _) => ∃ c cs, w.connections = c :: cs ∧ c.Clean
  | .mark (.response acc _) => ∃ c cs ex exs, w.connections = c :: cs ∧ c.exchanges = ex :: exs ∧
      acc <:+ ex.received
  | _ => True

/-- The requirement is about the beginnings of exchanges only. -/
theorem lenient_isolated : Lenient Isolated := by
  intro w op hop
  cases op with
  | connect url d => trivial
  | mark m => cases hop
  | _ => trivial

/-! ## The flag -/

/-- There is a connection, and a clear flag says that it is clean. -/
def Ready (dirty : Bool) (w : Wire) : Prop :=
  ∃ c cs, w.connections = c :: cs ∧ (dirty = false → c.Clean)

theorem Ready.fire {dirty : Bool} {w : Wire} (h : Ready dirty w) (f : Bool) : Ready dirty (w.fire f) := h

theorem Ready.note {dirty : Bool} {w : Wire} (h : Ready dirty w) (n : Note) : Ready dirty (w.note n) := h

/-- A new connection is clean, whatever the flag says. -/
theorem ready_dial (dirty : Bool) (url : Url) (w : Wire) : Ready dirty (w.dial url) :=
  ⟨_, _, rfl, fun _ => ⟨rfl, by simp⟩⟩

/-- The latest exchange has its final head, and `all` is what came in behind it. -/
def Answered (params : RequestParams) (data : HeadData) (framing : BodyFraming) (all : Bytes) (w : Wire) : Prop :=
  ∃ (c : Connection) (cs : List Connection) (ex : Exchange) (interims : List Bytes) (head : Bytes),
    w.connections = { c with exchanges := ex :: c.exchanges } :: cs ∧ c.Clean ∧
    ex.params = params ∧ ex.sent = ex.wire ∧ ex.flushed = ex.wire ∧
    ex.received = interims.flatten ++ head ++ all ∧
    interims.length ≤ HeadData.MAX_INTERIM_RESPONSES ∧ (∀ i ∈ interims, IsInterim i) ∧
    IsFinal params.method head data framing

namespace Answered

variable {params : RequestParams} {data : HeadData} {framing : BodyFraming} {all : Bytes} {w : Wire}

theorem fire (h : Answered params data framing all w) (f : Bool) : Answered params data framing all (w.fire f) := h

theorem receive (h : Answered params data framing all w) (bs : Bytes) :
    Answered params data framing (all ++ bs) (w.receive bs) := by
  obtain ⟨c, cs, ex, interims, head, hw, hclean, hparams, hsent, hflushed, hrecv, hlen, hall, hfinal⟩ := h
  refine ⟨c, cs, { ex with received := ex.received ++ bs }, interims, head, ?_, hclean, hparams, hsent, hflushed, ?_,
    hlen, hall, hfinal⟩
  · simp [Wire.receive, Wire.onLatest, hw, Connection.receive, Connection.onLatest]
  · rw [hrecv, List.append_assoc]

/-- The client is ready if the flag tells the truth about the body and the connection may be kept. -/
theorem ready (h : Answered params data framing all w) {dirty : Bool}
    (hdirty : dirty = false → Framed framing all ∧ data.connectionReuse params.requestsClose = .keep) :
    Ready dirty w := by
  obtain ⟨c, cs, ex, interims, head, hw, hclean, rfl, hsent, hflushed, hrecv, hlen, hall, hfinal⟩ := h
  refine ⟨_, _, hw, fun hd => ⟨hclean.stray, ?_⟩⟩
  obtain ⟨hframed, hkeep⟩ := hdirty hd
  rintro ex' (_ | ⟨_, hmem⟩)
  · exact ⟨hsent, hflushed, interims, head, data, framing, all, hrecv, hlen, hall, hfinal, hframed, hkeep⟩
  · exact hclean.complete ex' hmem

end Answered

/-- A program that leaves the client ready, however it ends. -/
abbrev KeepsReady {ε α : Type} (x : M ε α) : Prop := Keeping Isolated (fun client w => Ready client.dirty w) x

/-! ## Blocking calls -/

namespace Client

/-- What `send_head_once` and its replay leave: an answered exchange, or a client that is ready. -/
def Sent (params : RequestParams) (r : Except Error (HeadData × BodyFraming × Nat)) (l' : Local) (w' : Wire) : Prop :=
  match r with
  | .ok (data, framing, headEnd) => Answered params data framing (l'.client.headBuf.drop headEnd) w' ∧
      l'.client.dirty = true
  | .error _ => Ready l'.client.dirty w'

theorem SentOnce.sent {params : RequestParams} {l l' : Local} {c : Connection} {cs : List Connection} {w w' : Wire}
    {r : Except Error (HeadData × BodyFraming × Nat)} (hw : w.connections = c :: cs) (hclean : c.Clean)
    (h : SentOnce params l c cs w r l' w') : Sent params r l' w' := by
  obtain ⟨-, ⟨e, rfl, -, -, -, rfl⟩ | ⟨ex, interims, hdirty, hparams, -, hrecv, hlen, hall, hr⟩⟩ := h
  · exact ⟨c, cs, hw, fun _ => hclean⟩
  · rcases r with e | ⟨data, framing, headEnd⟩
    · obtain ⟨-, f, rfl, -⟩ := hr
      refine ⟨_, cs, rfl, fun hd => ?_⟩
      rw [hdirty] at hd
      cases hd
    · obtain ⟨rfl, hsent, hflushed, hfinal⟩ := hr
      refine ⟨⟨c, cs, ex, interims, l'.client.headBuf.take headEnd, rfl, hclean, hparams, hsent, hflushed, ?_, hlen,
        hall, hfinal⟩, hdirty⟩
      rw [List.append_assoc, List.take_append_drop, hrecv]

/-- A request on a connection that is ready: the response is all of what came since. -/
theorem wp_sendHeadOnce_sent {i : Interrupt} (hi : i.Quiet Isolated) (fuel : Nat) (params : RequestParams)
    (deadline : RequestDeadline) (l : Local) {c : Connection} {cs : List Connection} {w : Wire}
    (hw : w.connections = c :: cs) (hclean : c.Clean) :
    Act.wp (watched Isolated) (sendHeadOnce fuel params deadline i) (fun r l' w' =>
      SentOnce params l c cs w r l' w' ∧ Sent params r l' w') l w := by
  refine Act.wp_mono (wp_sendHeadOnce lenient_isolated hi fuel params deadline l hw ⟨c, cs, hw, hclean⟩ ?_) ?_
  · intro ex skipped acc headEnd hrecv
    exact ⟨_, cs, ex, c.exchanges, rfl, rfl, skipped, hrecv.symm⟩
  · intro r l' w' h
    exact ⟨h, h.sent hw hclean⟩

/-- A reconnect leaves a new connection, or the client as it was. -/
theorem keeping_reconnectWithDeadline (url : Url) (deadline : RequestDeadline) :
    KeepsReady (reconnectWithDeadline url deadline) := by
  intro l w h
  refine Act.wp_mono (wp_reconnectWithDeadline lenient_isolated fun _ => trivial) ?_
  intro r l' w' hr
  cases hr with
  | late => exact h
  | refused => exact h.note _
  | failed => exact ready_dial _ _ _
  | done => exact ready_dial _ _ _

/-- A reconnect that succeeds leaves a clean connection and a clear flag. -/
theorem wp_reconnectSameHost {deadline : RequestDeadline} {l : Local} {w : Wire} (h : Ready l.client.dirty w) :
    Act.wp (watched Isolated) (reconnectSameHostWithDeadline deadline) (fun r l' w' =>
      Ready l'.client.dirty w' ∧ (r = .ok () → l'.client.dirty = false)) l w := by
  simp only [reconnectSameHostWithDeadline, Act.wp_bind, wp_client, Act.cont_ok]
  refine Act.wp_mono (wp_reconnectWithDeadline lenient_isolated fun _ => trivial) ?_
  intro r l' w' hr
  cases hr with
  | late => exact ⟨h, by rintro ⟨⟩⟩
  | refused => exact ⟨h.note _, by rintro ⟨⟩⟩
  | failed => exact ⟨ready_dial _ _ _, by rintro ⟨⟩⟩
  | done => exact ⟨ready_dial _ _ _, fun _ => rfl⟩

/-- A dirty connection is replaced before it is used. -/
theorem wp_ensureClean {deadline : RequestDeadline} {l : Local} {w : Wire} (h : Ready l.client.dirty w) :
    Act.wp (watched Isolated) (ensureCleanWithDeadline deadline) (fun r l' w' =>
      Ready l'.client.dirty w' ∧ (r = .ok () → l'.client.dirty = false)) l w := by
  simp only [ensureCleanWithDeadline, Act.wp_bind, wp_client, Act.cont_ok]
  split
  · exact wp_reconnectSameHost h
  next hclean => exact Act.stays_ghost.mpr ⟨h, fun _ => by simpa using hclean⟩

/-- **One request**, with its replay: on a clean connection, it leaves an answered exchange or a client that is
    ready. -/
theorem wp_sendHeadInterruptible {i : Interrupt} (hi : i.Quiet Isolated) (fuel : Nat) (params : RequestParams)
    (deadline : RequestDeadline) {l : Local} {w : Wire} (h : Ready l.client.dirty w) (hd : l.client.dirty = false) :
    Act.wp (watched Isolated) (sendHeadInterruptible fuel params deadline i) (Sent params) l w := by
  obtain ⟨c, cs, hw, hclean⟩ := h
  simp only [sendHeadInterruptible, Act.wp_bind, Act.wp_attempt]
  refine Act.wp_mono (wp_sendHeadOnce_sent hi fuel params deadline l hw (hclean hd)) ?_
  rintro (e | head) l' w' ⟨-, hsent⟩
  · have hready : Ready l'.client.dirty w' := hsent
    simp only [Act.stays_ghost, Act.cont_ok, Act.wp_bind, wp_client]
    split
    · refine Act.wp_bind.mpr (Act.wp_mono hi.isCancelled ?_)
      rintro _ l'' w'' ⟨hl, b, f, rfl, rfl, -⟩
      have hready : Ready l''.client.dirty (w'.fire f) := by
        rw [hl]
        exact hready.fire f
      simp only [Act.cont_ok]
      split
      · exact Act.stays_ghost.mpr hready
      · refine Act.wp_bind.mpr (Act.wp_mono (wp_reconnectSameHost hready) ?_)
        rintro (e | u) l₃ w₃ ⟨hready, hdirty⟩
        · exact Act.stays_ghost.mpr hready
        · obtain ⟨c, cs, hw, hclean⟩ := hready
          have hagain := wp_sendHeadOnce_sent hi fuel params deadline l₃ hw (hclean (hdirty rfl))
          exact Act.cont_ok.mpr (Act.wp_mono hagain fun _ _ _ h => h.2)
    · exact Act.stays_ghost.mpr hready
  · simp only [Act.stays_ghost, Act.cont_ok]
    exact Act.stays_ghost.mpr hsent

/-- The flag of a body that was read, and the client's own verdict on the connection. -/
theorem ready_of_reuse {params : RequestParams} {data : HeadData} {framing : BodyFraming} {all : Bytes} {w : Wire}
    {dirty : Bool} (h : Answered params data framing all w) (hbody : dirty = false → Framed framing all)
    (hkeep : dirty = false → (data.connectionReuse params.requestsClose).isKeep = true) : Ready dirty w := by
  refine h.ready fun hd => ⟨hbody hd, ?_⟩
  simpa [ConnectionReuse.isKeep] using hkeep hd

/-- **One request and its body** leave the connection ready, or the client dirty. -/
theorem keeping_sendOne (fuel : Nat) (params : RequestParams) (deadline : RequestDeadline) :
    KeepsReady (sendOne fuel params deadline) := by
  intro l w h
  simp only [sendOne, Act.wp_bind]
  refine Act.wp_mono (wp_ensureClean h) ?_
  rintro (e | u) l' w' ⟨hready, hdirty⟩
  · exact Act.stays_ghost.mpr hready
  simp only [Act.cont_ok, Act.wp_bind]
  refine Act.wp_mono (wp_sendHeadInterruptible Interrupt.quiet_never fuel params deadline hready (hdirty rfl)) ?_
  rintro (e | ⟨data, framing, headEnd⟩) l' w' hsent
  · exact Act.stays_ghost.mpr hsent
  obtain ⟨hans, hdirty⟩ := hsent
  simp only [Act.cont_ok, Act.wp_bind]
  refine RequestDeadline.wp_check lenient_isolated.timeless ?_ ?_
  · simp only [Act.cont_ok, Act.wp_bind]
    refine Act.wp_mono (wp_readFullBody lenient_isolated fuel framing headEnd deadline l' w') ?_
    rintro (e | body) l'' w'' ⟨-, bs, hframed, hr⟩
    · obtain ⟨hdirty, -, f, rfl, -⟩ := hr
      refine Act.stays_ghost.mpr (((hans.receive bs).fire f).ready ?_)
      rw [hdirty]
      rintro ⟨⟩
    · subst hr
      have hans := hans.receive bs
      simp only [Act.cont_ok]
      split
      · simp only [Act.wp_bind, discardPartialResponse, wp_modifyClient, Act.cont_ok]
        exact Act.stays_ghost.mpr (hans.ready (by rintro ⟨⟩))
      next hkeep => exact Act.stays_ghost.mpr (ready_of_reuse hans hframed fun _ => by simpa using hkeep)
  · refine Act.stays_ghost.mpr (hans.ready ?_)
    rw [hdirty]
    rintro ⟨⟩

/-- Following a redirect replaces the connection where the origin changes. -/
theorem keeping_follow (state : RedirectState) (deadline : RequestDeadline) (status : StatusCode) (location : Bytes) :
    KeepsReady (follow state deadline status location) := by
  have hmark : KeepsReady (M.mark (.redirect location) : M Error Unit) := fun l w h => wp_mark.mpr ⟨trivial, h.note _⟩
  refine .bind .client fun c => .bind (.ofExcept _) ?_
  rintro ⟨state, hop⟩
  cases hop with
  | sameOrigin => exact .bind hmark fun _ => .pure _
  | reconnect target =>
      have hgo : KeepsReady (do
          let url ← Act.ofExcept ((Url.parse target).mapError Error.urlParse)
          M.mark (.redirect location)
          reconnectWithDeadline url deadline
          return state) :=
        .bind (.ofExcept _) fun url => .bind hmark fun _ =>
          .bind (keeping_reconnectWithDeadline url deadline) fun _ => .pure _
      intro l w h
      dsimp only
      split
      · exact Keeping.bind (.throw _) (fun _ => hgo) l w h
      · exact hgo l w h

/-- The hops of `execute`. -/
theorem keeping_executeLoop (fuel : Nat) (deadline : RequestDeadline) (hopsLeft : Nat) (state : RedirectState) :
    KeepsReady (executeLoop fuel deadline hopsLeft state) := by
  induction hopsLeft generalizing state with
  | zero =>
      rw [executeLoop_eq]
      refine .bind (keeping_sendOne fuel _ deadline) fun response => ?_
      dsimp only
      split
      · exact .pure _
      · exact .throw _
  | succ hopsLeft ih =>
      rw [executeLoop_eq]
      refine .bind (keeping_sendOne fuel _ deadline) fun response => ?_
      dsimp only
      split
      · exact .pure _
      · exact .bind (keeping_follow state deadline _ _) ih

theorem keeping_after (budget : Option Duration) : KeepsReady (RequestDeadline.after budget : M Error RequestDeadline) :=
  fun _ _ h => RequestDeadline.wp_after lenient_isolated.timeless fun _ => h

theorem keeping_execute (fuel : Nat) (params : RequestParams) : KeepsReady (execute fuel params) :=
  .bind .client fun _ => .bind (keeping_after _) fun deadline => keeping_executeLoop fuel deadline _ _

theorem keeping_send (fuel : Nat) (builder : RequestBuilder) : KeepsReady (send fuel builder) :=
  .bind (.ofExcept _) fun params => keeping_execute fuel params

end Client

/-! ## Streaming responses -/

namespace StreamingBody

/-- What the reads of a recorded stream leave. -/
def recorded : Source Wire := ⟨fun w bs => w.receive bs, Failed⟩

theorem drawn_recorded (w : Wire) (pieces : List Bytes) : recorded.drawn w pieces = w.receive pieces.flatten := by
  induction pieces generalizing w with
  | nil => exact (w.receive_nil).symm
  | cons piece pieces ih =>
      show recorded.drawn (w.receive piece) pieces = _
      rw [ih, Wire.receive_receive, List.flatten_cons]

/-- What a read draws is what the connection received. -/
theorem draws_recorded {G : Wire → Op → Prop} (hG : Lenient G) {stream : Stream} (hs : stream.Recorded G) (fuel : Nat) :
    Draws G Wire.next recorded stream fuel := by
  intro b l w hb
  refine Act.wp_mono (SilenceBudget.wp_read hG hs _ fuel b l w) ?_
  rintro (e | ⟨bs, budget⟩) l' w' ⟨hl, hw⟩
  · exact ⟨hl, hw⟩
  · exact ⟨hl, hw.1, hw.2.trans hb⟩

/-- The body of the latest exchange, fed what came in behind its head. -/
def Truthful (params : RequestParams) (data : HeadData) (b : StreamingBody) (w : Wire) : Prop :=
  ∃ framing all out, Answered params data framing all w ∧ Fed framing all out b ∧
    b.reusable = (data.connectionReuse params.requestsClose).isKeep

/-- Its flag is then the client's. -/
theorem Truthful.ready {params : RequestParams} {data : HeadData} {b : StreamingBody} {w : Wire}
    (h : Truthful params data b w) : Ready b.dirty w := by
  obtain ⟨framing, all, out, hans, hfed, hreuse⟩ := h
  refine Client.ready_of_reuse hans (fun hd => (hfed.framed hd).2) fun hd => ?_
  rw [← hreuse]
  exact (hfed.framed hd).1

/-- What a call of `read` leaves: a body that can be read on, or after an error one that can be dropped. -/
def Usable (params : RequestParams) (data : HeadData) (o : Outcome Bytes) (w : Wire) : Prop :=
  match o with
  | (.ok _, b) => Truthful params data b w
  | (.error _, b) => Ready b.dirty w

/-- A body that was read to its end leaves the connection ready. -/
theorem Read.usable {params : RequestParams} {data : HeadData} {framing : BodyFraming} {all out : Bytes}
    {b : StreamingBody} {w w' : Wire} {o : Outcome Bytes} (hans : Answered params data framing all w)
    (hreuse : b.reusable = (data.connectionReuse params.requestsClose).isKeep)
    (h : Read recorded framing all out b w o w') : Usable params data o w' := by
  obtain ⟨pieces, ⟨rfl, hk⟩ | ⟨e, b₁, rfl, hf, hfed, hlive, -, -, -⟩⟩ := h
  · rw [drawn_recorded]
    have hans := hans.receive pieces.flatten
    obtain ⟨_ | bytes, b'⟩ := o
    · exact Truthful.ready ⟨framing, _, out, hans, hk.1, hk.2.1.trans hreuse⟩
    · exact ⟨framing, _, _, hans, hk.1, hk.2.1.trans hreuse⟩
  · rw [drawn_recorded] at hf
    obtain ⟨f, rfl, -⟩ := hf
    refine ((hans.receive pieces.flatten).fire f).ready fun hd => ?_
    rw [show b₁.dirty = true from hfed.dirty hlive] at hd
    cases hd

theorem wp_read_usable {ε : Type} {stream : Stream} (hs : stream.Recorded Isolated) (fuel size : Nat)
    {params : RequestParams} {data : HeadData} {b : StreamingBody} {l : Local} {w : Wire}
    (h : Truthful params data b w) :
    Act.wp (watched Isolated) (b.read stream fuel size : M ε (Outcome Bytes)) (fun r l' w' =>
      l'.client = l.client ∧ ∃ o, r = .ok o ∧ Usable params data o w') l w := by
  obtain ⟨framing, all, out, hans, hfed, hreuse⟩ := h
  refine Act.wp_mono (wp_read (draws_recorded lenient_isolated hs fuel) size hfed l w) ?_
  rintro r l' w' ⟨hl, o, rfl, hread⟩
  exact ⟨hl, o, rfl, hread.usable hans hreuse⟩

/-- A new body is truthful, since its flag is set. -/
theorem wp_new_truthful {ε : Type} {framing : BodyFraming} {tail : Bytes} {silence : Duration} {params : RequestParams}
    {data : HeadData} {l : Local} {w : Wire} (h : Answered params data framing tail w) :
    Act.wp (watched Isolated)
      (StreamingBody.new true framing tail silence (data.connectionReuse params.requestsClose).isKeep :
        M ε StreamingBody) (fun r l' w' => l' = l ∧ ∃ b, r = .ok b ∧ Truthful params data b w') l w := by
  simp only [StreamingBody.new, SilenceBudget.new, Act.wp_bind]
  refine SilenceBudget.wp_withDeadline lenient_isolated.timeless fun budget hbudget => ?_
  refine Act.stays_ghost.mpr ⟨rfl, _, rfl, framing, tail, [], h, fed_new hbudget rfl, ?_⟩
  split
  · rfl
  · rfl

/-- Any reads of a streaming body leave it usable. -/
theorem wp_readAll {ε : Type} (fuel : Nat) (sizes : List Nat) {params : RequestParams} {data : HeadData}
    {b : StreamingBody} {l : Local} {w : Wire} (h : Truthful params data b w) :
    Act.wp (watched Isolated) (b.readAll fuel sizes : M ε StreamingBody) (fun r _ w' =>
      ∃ b', r = .ok b' ∧ Ready b'.dirty w') l w := by
  induction sizes generalizing b l w with
  | nil => exact Act.stays_ghost.mpr ⟨b, rfl, h.ready⟩
  | cons size sizes ih =>
      unfold readAll
      refine Act.wp_bind.mpr (Act.wp_mono (wp_read_usable (Stream.recorded_raw lenient_isolated) fuel size h) ?_)
      rintro _ l' w' ⟨-, ⟨_ | bytes, b'⟩, rfl, husable⟩
      · exact Act.stays_ghost.mpr ⟨b', rfl, husable⟩
      · exact Act.cont_ok.mpr (ih husable)

end StreamingBody

namespace Client

/-- A streaming response: a truthful body, or a client that is ready. -/
theorem wp_executeStreaming (fuel : Nat) (params : RequestParams) {l : Local} {w : Wire}
    (h : Ready l.client.dirty w) :
    Act.wp (watched Isolated) (executeStreaming fuel params) (fun r l' w' =>
      match r with
      | .ok (data, b) => b.Truthful params data w'
      | .error _ => Ready l'.client.dirty w') l w := by
  simp only [executeStreaming, Act.wp_bind, wp_client, Act.cont_ok]
  refine RequestDeadline.wp_after lenient_isolated.timeless fun deadline => ?_
  simp only [Act.cont_ok, Act.wp_bind]
  refine Act.wp_mono (wp_ensureClean h) ?_
  rintro (e | u) l' w' ⟨hready, hdirty⟩
  · exact Act.stays_ghost.mpr hready
  simp only [Act.cont_ok, Act.wp_bind]
  refine Act.wp_mono (wp_sendHeadInterruptible Interrupt.quiet_never fuel params deadline hready (hdirty rfl)) ?_
  rintro (e | ⟨data, framing, headEnd⟩) l' w' hsent
  · exact Act.stays_ghost.mpr hsent
  simp only [Act.cont_ok, Act.wp_bind, wp_client, wp_modifyClient]
  refine Act.wp_mono (StreamingBody.wp_new_truthful hsent.1) ?_
  rintro _ l'' w'' ⟨-, b, rfl, hb⟩
  exact Act.stays_ghost.mpr hb

end Client

theorem Call.keeping_streaming (fuel : Nat) (builder : RequestBuilder) (reads : List Nat) :
    KeepsReady (streaming fuel builder reads) := by
  refine fun l w h => Act.wp_bind.mpr (Act.wp_bind.mpr ?_)
  refine Act.stays_ghost.mpr ?_
  rcases builder.intoParams with e | params
  · exact Act.stays_ghost.mpr (Act.stays_ghost.mpr h)
  refine Act.cont_ok.mpr (Act.wp_mono (Client.wp_executeStreaming fuel params h) ?_)
  rintro (e | ⟨data, b⟩) l' w' hr
  · exact Act.stays_ghost.mpr hr
  refine Act.cont_ok.mpr (Act.wp_bind.mpr (Act.wp_mono (StreamingBody.wp_readAll fuel reads hr) ?_))
  rintro _ l'' w'' ⟨b', rfl, hready⟩
  exact Act.cont_ok.mpr (wp_modifyClient.mpr hready)

/-! ## The reader thread -/

section

variable {ε : Type}

namespace ReaderWorker

open ChunkSink (neutral_sendInner neutral_sendTerminal)

/-- What `dispatch` leaves: an answered exchange, or a client that is ready. -/
def Dispatched (request : AsyncRequest) (r : Except ε (Option ResponseStart)) (l' : Local) (w' : Wire) : Prop :=
  match r with
  | .ok (some start) =>
      Answered (paramsOf request) start.headData start.framing (l'.client.headBuf.drop start.tailOffset) w'
  | _ => Ready l'.client.dirty w'

theorem wp_dispatchClean (fuel : Nat) (request : AsyncRequest) (deadline : RequestDeadline) {l : Local} {w : Wire}
    (h : Ready l.client.dirty w) (hd : l.client.dirty = false) :
    Act.wp (watched Isolated) (dispatchClean fuel request deadline) (Dispatched (ε := ε) request) l w := by
  have hi := quiet_interruptOf lenient_isolated fuel request.ticket
  refine Neutral.wp_bind (.call lenient_isolated rfl fun _ _ => rfl) fun _ l₁ hl₁ => ?_
  refine Neutral.wp_bind (.modify fun _ => rfl) fun _ l₂ hl₂ => ?_
  rw [← hl₁, ← hl₂] at h hd
  refine Act.wp_bind.mpr (Act.wp_attempt.mpr ?_)
  refine Act.wp_mono (Client.wp_sendHeadInterruptible hi fuel (paramsOf request) deadline h hd) ?_
  rintro (e | ⟨data, framing, headEnd⟩) l' w' hsent
  · refine Act.stays_ghost.mpr (Act.cont_ok.mpr (Neutral.wp_bind .get fun latch l₃ hl₃ => ?_))
    have hready : ∀ l₄ : Local, l₄.client = l₃.client → Ready l₄.client.dirty w' := by
      intro l₄ hl₄
      rw [hl₄, hl₃]
      exact hsent
    dsimp only
    split
    · refine Neutral.wp_bind (neutral_sendTerminal lenient_isolated fuel _ _) fun _ l₄ hl₄ => ?_
      exact Act.stays_ghost.mpr (hready l₄ hl₄)
    · refine Neutral.wp_bind (neutral_sendTerminal lenient_isolated fuel _ _) fun _ l₄ hl₄ => ?_
      exact Act.stays_ghost.mpr (hready l₄ hl₄)
  · exact Act.stays_ghost.mpr (Act.stays_ghost.mpr hsent.1)

/-- A request of the reader thread, over a new connection where the old one is dirty. -/
theorem wp_dispatch (fuel : Nat) (request : AsyncRequest) (deadline : RequestDeadline) {l : Local} {w : Wire}
    (h : Ready l.client.dirty w) :
    Act.wp (watched Isolated) (dispatch fuel request deadline) (Dispatched (ε := ε) request) l w := by
  refine Neutral.wp_bind (ControlQueue.neutral_pollCancel lenient_isolated fuel _ fuel false) fun stop l₁ hl₁ => ?_
  rw [← hl₁] at h
  split
  · refine Neutral.wp_bind (neutral_sendTerminal lenient_isolated fuel _ _) fun _ l₂ hl₂ => ?_
    rw [← hl₂] at h
    exact Act.stays_ghost.mpr h
  · refine Act.wp_bind.mpr (Act.wp_attempt.mpr (Act.wp_mono (Client.wp_ensureClean h) ?_))
    rintro (e | u) l₂ w₂ ⟨hready, hdirty⟩
    · refine Act.stays_ghost.mpr (Act.cont_ok.mpr ?_)
      refine Neutral.wp_bind (neutral_sendTerminal lenient_isolated fuel _ _) fun _ l₃ hl₃ => ?_
      rw [← hl₃] at hready
      exact Act.stays_ghost.mpr hready
    · exact Act.stays_ghost.mpr (Act.cont_ok.mpr (wp_dispatchClean fuel request deadline hready (hdirty rfl)))

/-- The loop over the chunks of a 2xx body: the body it returns can be dropped. -/
theorem wp_streamChunks (fuel : Nat) (t : Ticket) (turns : Nat) {params : RequestParams} {data : HeadData}
    {b : StreamingBody} {l : Local} {w : Wire} (h : b.Truthful params data w) :
    Act.wp (watched Isolated) (streamChunks fuel t turns b : M ε StreamingBody) (fun r _ w' =>
      ∃ b', r = .ok b' ∧ Ready b'.dirty w') l w := by
  have hs := Stream.recorded_interruptible lenient_isolated (quiet_interruptOf lenient_isolated fuel t)
  induction turns generalizing b l w with
  | zero => exact Act.wp_hang
  | succ turns ih =>
      unfold streamChunks
      refine Act.wp_bind.mpr (Act.wp_mono (StreamingBody.wp_read_usable hs fuel HEAD_BUF_SIZE h) ?_)
      rintro _ l' w' ⟨-, ⟨e | bytes, b'⟩, rfl, husable⟩
      · -- an error ends the body, and with the terminator it is dropped
        have hready : Ready b'.dirty w' := husable
        simp only [Act.cont_ok]
        split
        · refine Neutral.wp_bind (neutral_sendTerminal lenient_isolated fuel _ _) fun _ l'' _ => ?_
          exact Act.stays_ghost.mpr ⟨b', rfl, hready⟩
        · refine Neutral.wp_bind (neutral_sendTerminal lenient_isolated fuel _ _) fun _ l'' _ => ?_
          exact Act.stays_ghost.mpr ⟨b', rfl, hready⟩
      · have htruth : b'.Truthful params data w' := husable
        simp only [Act.cont_ok]
        split
        · refine Neutral.wp_bind (neutral_sendTerminal lenient_isolated fuel _ _) fun _ l'' _ => ?_
          exact Act.stays_ghost.mpr ⟨b', rfl, htruth.ready⟩
        · refine Neutral.wp_bind (neutral_sendInner lenient_isolated t _ true fuel) fun sent l'' _ => ?_
          cases sent with
          | error why => exact Act.stays_ghost.mpr ⟨b', rfl, htruth.ready⟩
          | ok u => exact ih htruth

theorem wp_streamSuccess (fuel : Nat) (t : Ticket) {framing : BodyFraming} {tail : Bytes} {params : RequestParams}
    {data : HeadData} {l : Local} {w : Wire} (h : Answered params data framing tail w) (hd : l.client.dirty = true) :
    Act.wp (watched Isolated)
      (streamSuccess fuel t framing tail (data.connectionReuse params.requestsClose) : M ε Unit)
      (fun _ l' w' => Ready l'.client.dirty w') l w := by
  simp only [streamSuccess, Act.wp_bind, wp_client, Act.cont_ok, hd]
  refine Act.wp_mono (StreamingBody.wp_new_truthful h) ?_
  rintro _ l' w' ⟨-, b, rfl, hb⟩
  simp only [Act.cont_ok, Act.wp_bind]
  refine Act.wp_mono (wp_streamChunks fuel t fuel hb) ?_
  rintro _ l'' w'' ⟨b', rfl, hready⟩
  exact Act.cont_ok.mpr (wp_modifyClient.mpr hready)

theorem wp_drainErrorBody (fuel : Nat) (t : Ticket) {framing : BodyFraming} {tail : Bytes} {params : RequestParams}
    {data : HeadData} (deadline : RequestDeadline) {l : Local} {w : Wire} (h : Answered params data framing tail w)
    (hd : l.client.dirty = true) :
    Act.wp (watched Isolated)
      (drainErrorBody fuel t framing tail deadline (data.connectionReuse params.requestsClose) : M ε Unit)
      (fun _ l' w' => Ready l'.client.dirty w') l w := by
  have hs := Stream.recorded_interruptible lenient_isolated (quiet_interruptOf lenient_isolated fuel t)
  have hterminal : ∀ chunk, KeepsReady (ChunkSink.sendTerminal fuel t chunk : M ε Unit) :=
    fun chunk => .neutral (neutral_sendTerminal lenient_isolated fuel t chunk)
  simp only [drainErrorBody, Act.wp_bind, wp_client, Act.cont_ok]
  refine SilenceBudget.wp_withDeadline lenient_isolated.timeless fun budget _ => ?_
  simp only [Act.cont_ok, Act.wp_bind, Act.wp_attempt]
  refine Act.wp_mono (BodyCollector.wp_read lenient_isolated hs _ fuel budget framing tail l w) ?_
  rintro (e | ⟨body, reusable⟩) l' w' ⟨hl, bs, hr⟩
  · obtain ⟨-, f, rfl, -⟩ := hr
    have hready : Ready l'.client.dirty ((w.receive bs).fire f) := by
      rw [hl, hd]
      exact ((h.receive bs).fire f).ready (by rintro ⟨⟩)
    refine Act.stays_ghost.mpr (Act.cont_ok.mpr (Neutral.wp_bind .get fun latch l₁ hl₁ => ?_))
    rw [← hl₁] at hready
    split
    · exact hterminal _ l₁ _ hready
    · exact hterminal _ l₁ _ hready
  · obtain ⟨rfl, hframed⟩ := hr
    have hready : Ready (!reusable || !(data.connectionReuse params.requestsClose).isKeep) (w.receive bs) := by
      refine Client.ready_of_reuse (h.receive bs) (fun hd => hframed ?_) fun hd => ?_
      · simp only [Bool.or_eq_false_iff, Bool.not_eq_eq_eq_not, Bool.not_false] at hd
        exact hd.1
      · simp only [Bool.or_eq_false_iff, Bool.not_eq_eq_eq_not, Bool.not_false] at hd
        exact hd.2
    simp only [Act.stays_ghost, Act.cont_ok, Act.wp_bind, wp_modifyClient]
    split
    · exact hterminal _ _ _ hready
    · refine Neutral.wp_bind (neutral_sendInner lenient_isolated t _ true fuel) fun sent l₁ hl₁ => ?_
      have hready : Ready l₁.client.dirty (w.receive bs) := by
        rw [hl₁]
        exact hready
      cases sent with
      | error why => exact Act.stays_ghost.mpr hready
      | ok u => exact hterminal _ l₁ _ hready

/-- The body of a response in the reader thread, streamed or drained. -/
theorem wp_streamBody (fuel : Nat) (request : AsyncRequest) (start : ResponseStart) (deadline : RequestDeadline)
    {l : Local} {w : Wire}
    (h : Answered (paramsOf request) start.headData start.framing (l.client.headBuf.drop start.tailOffset) w) :
    Act.wp (watched Isolated) (streamBody fuel request start deadline : M ε Unit)
      (fun _ l' w' => Ready l'.client.dirty w') l w := by
  have hclose : request.headers.any closesConnection = (paramsOf request).requestsClose := rfl
  simp only [streamBody, Act.wp_bind, wp_modifyClient, Act.cont_ok, hclose]
  refine Act.wp_bind.mp (Neutral.wp_bind (neutral_sendInner lenient_isolated _ _ true fuel) fun sent l₁ hl₁ => ?_)
  have hdirty : l₁.client.dirty = true := by rw [hl₁]
  have hbuf : l₁.client.headBuf = l.client.headBuf := by rw [hl₁]
  cases sent with
  | error why =>
      refine Act.stays_ghost.mpr (h.ready ?_)
      rw [hdirty]
      rintro ⟨⟩
  | ok u =>
      refine Neutral.wp_bind (.modify fun _ => rfl) fun _ l₂ hl₂ => ?_
      rw [← hl₂] at hdirty hbuf
      simp only [Act.wp_bind, wp_client, Act.cont_ok, hbuf]
      split
      · exact wp_streamSuccess fuel request.ticket h hdirty
      · exact wp_drainErrorBody fuel request.ticket deadline h hdirty

theorem keeping_serve (fuel : Nat) (request : AsyncRequest) : KeepsReady (serve fuel request : M ε Unit) := by
  intro l w h
  simp only [serve, Act.wp_bind, wp_client, Act.cont_ok]
  refine RequestDeadline.wp_after lenient_isolated.timeless fun deadline => ?_
  simp only [Act.cont_ok, Act.wp_bind]
  refine Act.wp_mono (wp_dispatch fuel request deadline h) ?_
  rintro (e | _ | start) l' w' hr
  · exact Act.stays_ghost.mpr hr
  · exact Act.stays_ghost.mpr hr
  · exact Act.cont_ok.mpr (wp_streamBody fuel request start deadline hr)

/-- **The reader thread.** -/
theorem keeping_run (fuel turns : Nat) : KeepsReady (run fuel turns : M ε Unit) := by
  induction turns with
  | zero => exact .hang
  | succ turns ih =>
      unfold run
      refine .bind (.neutral (ControlQueue.neutral_nextRequest lenient_isolated (fun _ _ => trivial) fuel)) fun next => ?_
      match next with
      | none => exact .pure _
      | some request =>
          refine .bind (keeping_serve fuel request) fun _ => ?_
          exact .bind (.neutral (.call lenient_isolated rfl fun _ _ => rfl)) fun _ => ih

end ReaderWorker

/-! ## Sessions -/

theorem Call.keeping_perform (fuel : Nat) (call : Call) : KeepsReady (call.perform fuel : M ε Unit) := by
  refine .bind (fun l w h => wp_mark.mpr ⟨trivial, h.note _⟩) fun _ => ?_
  cases call with
  | send builder => exact .bind (.attempt (Client.keeping_send fuel builder)) fun _ => .pure _
  | request method path query body => exact .bind (.attempt (Client.keeping_execute fuel _)) fun _ => .pure _
  | sendStreaming builder reads => exact .bind (.attempt (keeping_streaming fuel builder reads)) fun _ => .pure _
  | reader => exact ReaderWorker.keeping_run fuel fuel

theorem keeping_performAll (fuel : Nat) (calls : List Call) : KeepsReady (performAll fuel calls : M ε Unit) := by
  induction calls with
  | nil => exact .pure _
  | cons call calls ih => exact .bind (call.keeping_perform fuel) fun _ => ih

/-- **A session** meets the requirement, from the first connection on. -/
theorem wp_session (fuel : Nat) (url : Bytes) (config : Config) (maxHeadSize : Nat) (calls : List Call) (l : Local)
    (w : Wire) :
    Act.wp (watched Isolated) (session fuel url config maxHeadSize calls) (fun _ _ _ => True) l w := by
  refine Act.wp_bind.mpr (Act.wp_bind.mpr (Act.stays_ghost.mpr ?_))
  rcases config.validate with e | u
  · exact Act.stays_ghost.mpr (Act.stays_ghost.mpr trivial)
  refine Act.cont_ok.mpr (Act.wp_bind.mpr (Act.stays_ghost.mpr ?_))
  rcases (Url.parse url).mapError Error.urlParse with e | url
  · exact Act.stays_ghost.mpr (Act.stays_ghost.mpr trivial)
  refine Act.cont_ok.mpr (Act.wp_bind.mpr (Config.wp_connectDeadline lenient_isolated.timeless fun deadline => ?_))
  refine Act.cont_ok.mpr (Act.wp_bind.mpr (Client.wp_connect.mpr ⟨trivial, fun e => ?_, ?_⟩))
  · exact Act.stays_ghost.mpr (Act.stays_ghost.mpr trivial)
  refine Act.cont_ok.mpr (Act.wp_bind.mpr (wp_modifyClient.mpr (Act.cont_ok.mpr ?_)))
  refine Client.wp_applyTimeouts lenient_isolated ?_ fun e => Act.stays_ghost.mpr trivial
  refine Act.cont_ok.mpr (Act.wp_mono (keeping_performAll fuel calls _ _ (ready_dial _ _ _)) ?_)
  intros
  trivial

end

/-- The record of a run that began without a connection. -/
def recordOf (tr : List (Prog.Event Sys)) : Wire := Prog.after Wire.next ⟨[], false, []⟩ tr

/-- **One exchange after the other.** In every session, with any answers of the `Connector`, the streams, the clock
    and the other threads: when a request begins to be written, the connection carries no exchange that is not
    complete and no byte was read from it beyond them; and a final head is parsed from bytes of the exchange it
    answers. -/
theorem session_isolated (fuel : Nat) (url : Bytes) (config : Config) (maxHeadSize : Nat) (calls : List Call)
    (l : Local) (pre post : List (Prog.Event Sys)) (e : Prog.Event Sys) (p : Prog Sys (Except Error Unit × Local))
    (hrun : Prog.Exec (session fuel url config maxHeadSize calls l) (pre ++ e :: post) p) :
    Isolated (recordOf pre) e.op :=
  Prog.exec_guard (wp_session fuel url config maxHeadSize calls l _) hrun

/-- A session of two requests. -/
def twoRequests : Prog Sys (Except Error Unit × Local) :=
  session 5 (ascii "http://a/") .default 65536
    [.request .get (ascii "/") none none, .request .get (ascii "/b") none none] idle

/-- The responses: one with a body of two bytes, one without a body. -/
def twoResponses : List (Except StdIoError Bytes) :=
  [.ok (ascii "HTTP/1.1 200 OK\r\nContent-Length: 2\r\n\r\nhi"), .ok (ascii "HTTP/1.1 204 No Content\r\n\r\n")]

/-- The second of two requests is written on the connection of the first, which is clean. -/
theorem session_isolated_two_requests :
    ∃ c, (recordOf ((Prog.play scripted 26 twoResponses twoRequests).1.take 16)).connections = [c] ∧
      c.exchanges.length = 1 ∧ c.Clean := by
  have hrun := Prog.exec_play scripted 26 twoResponses twoRequests
  have hop : ((Prog.play scripted 26 twoResponses twoRequests).1.map Prog.Event.op)[16]? =
      some (Op.mark (.exchange ⟨.get, ascii "/b", none, none, [], true⟩
        (Client.requestFor ⟨.http, ascii "a", 80⟩ ⟨.get, ascii "/b", none, none, [], true⟩))) := by
    decide +kernel
  have hone : (recordOf ((Prog.play scripted 26 twoResponses twoRequests).1.take 16)).connections.map
      (·.exchanges.length) = [1] := by
    decide +kernel
  obtain ⟨e, post, he, hsplit⟩ := Prog.Event.split hop
  rw [hsplit] at hrun
  have hiso := session_isolated 5 (ascii "http://a/") .default 65536 _ _ _ post e _ hrun
  rw [he] at hiso
  obtain ⟨c, cs, hw, hclean⟩ := hiso
  rw [hw] at hone ⊢
  simp only [List.map_cons, List.cons.injEq, List.map_eq_nil_iff] at hone
  exact ⟨c, by rw [hone.2], hone.1, hclean⟩

end Xibalba
