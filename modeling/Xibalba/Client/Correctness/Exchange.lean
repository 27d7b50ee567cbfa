import Xibalba.Client.Correctness.Head
import Xibalba.Client.Correctness.Body

/-!
# `Client.Correctness.Exchange` — what connecting and sending one request leave

Specifications of the part of the client that opens connections and writes requests: `reconnect_with_deadline`,
the writes of a request, `send_head_once`, and the reading of a whole body. They are stated over a record whose
latest connection is `c`, and leave the two marks and the `Connector` calls to the monitor.
-/

namespace Xibalba

/-- The bytes of a request: its head, and its body right behind it. -/
def Exchange.wire (e : Exchange) : Bytes := e.request.wire ++ e.params.body.getD []

/-- The head that is written is the wire format of the request. -/
theorem Request.serializeToWriter_ok {r : Request} {head : Bytes} (h : r.serializeToWriter = .ok head) :
    head = r.wire := by
  unfold serializeToWriter at h
  split at h
  · exact (Except.ok.inj h).symm
  · cases h

theorem Request.serializeToWriter_error {r : Request} {e : StdIoError} (h : r.serializeToWriter = .error e) :
    ∃ why, e = ⟨.invalidInput, .serialize why⟩ := by
  unfold serializeToWriter at h
  split at h
  · cases h
  · exact ⟨_, (Except.error.inj h).symm⟩

namespace Client

/-- Two clients that differ at most in their buffers and their flag. -/
structure Same (c c' : Client) : Prop where
  config : c'.config = c.config
  maxHeadSize : c'.maxHeadSize = c.maxHeadSize
  origin : c'.origin = c.origin

theorem Same.refl (c : Client) : Same c c := ⟨rfl, rfl, rfl⟩

theorem Same.of_eq {c c' : Client} (h : c' = c) : Same c c' := h ▸ .refl c

theorem Same.trans {c₁ c₂ c₃ : Client} (h₁ : Same c₁ c₂) (h₂ : Same c₂ c₃) : Same c₁ c₃ :=
  ⟨h₂.config.trans h₁.config, h₂.maxHeadSize.trans h₁.maxHeadSize, h₂.origin.trans h₁.origin⟩

section

variable {G : Wire → Op → Prop} (hG : Lenient G)

include hG

/-! ## Connecting -/

omit hG in
/-- A connect fails, or opens a connection that carried nothing yet. -/
theorem wp_connect {url : Url} {d : Deadline} {l : Local} {w : Wire} {Q : Except Error Unit → Local → Wire → Prop} :
    Act.wp (watched G) (M.connect url d) Q l w ↔
      G w (.connect url d) ∧ (∀ e, Q (.error e) l (w.note (.dialled url (some e)))) ∧
        Q (.ok ()) l (w.dial url) := by
  refine Act.wp_bind.trans (Act.wp_ghost_call.trans (and_congr_right fun _ => ⟨fun h => ⟨fun e => ?_, ?_⟩, ?_⟩))
  · exact Act.stays_ghost.mp (h (.error e))
  · exact Act.stays_ghost.mp (h (.ok ()))
  · rintro ⟨herr, hok⟩ (e | u)
    · exact Act.stays_ghost.mpr (herr e)
    · exact Act.stays_ghost.mpr hok

theorem wp_setTimeout {x : M StdIoError Unit} {d : Option Duration}
    (hx : x = M.setReadTimeout d ∨ x = M.setWriteTimeout d) {l : Local} {w : Wire}
    {Q : Except StdIoError Unit → Local → Wire → Prop} (hok : Q (.ok ()) l w) (herr : ∀ e, Q (.error e) l w) :
    Act.wp (watched G) x Q l w := by
  rcases hx with rfl | rfl
  · refine Act.wp_bind.mpr (Act.wp_ghost_call.mpr ⟨hG w _ rfl, ?_⟩)
    rintro (e | u)
    · exact Act.stays_ghost.mpr (herr e)
    · exact Act.stays_ghost.mpr hok
  · refine Act.wp_bind.mpr (Act.wp_ghost_call.mpr ⟨hG w _ rfl, ?_⟩)
    rintro (e | u)
    · exact Act.stays_ghost.mpr (herr e)
    · exact Act.stays_ghost.mpr hok

theorem wp_applyTimeouts {l : Local} {w : Wire} {Q : Except Error Unit → Local → Wire → Prop}
    (hok : Q (.ok ()) l w) (herr : ∀ e, Q (.error (.ofStdIo e)) l w) :
    Act.wp (watched G) applyTimeouts Q l w := by
  simp only [applyTimeouts, Act.wp_bind, wp_client, Act.cont_ok, Act.wp_mapError]
  refine wp_setTimeout hG (.inl rfl) ?_ fun e => Act.stays_ghost.mpr (Act.stays_ghost.mpr (herr e))
  refine Act.stays_ghost.mpr (Act.wp_mapError.mpr ?_)
  exact wp_setTimeout hG (.inr rfl) (Act.stays_ghost.mpr hok) fun e => Act.stays_ghost.mpr (herr e)

/-- What a reconnect leaves: it was too late or the `Connector` refused, or there is a new connection, and the
    flag is clear unless a timeout could not be set on it. -/
inductive Reconnected (url : Url) (l : Local) (w : Wire) : Except Error Unit → Local → Wire → Prop where
  | late : Reconnected url l w (.error (.connection .requestDeadlineExceeded)) l w
  | refused {e : Error} : Reconnected url l w (.error e) l (w.note (.dialled url (some e)))
  | failed {e : StdIoError} : Reconnected url l w (.error (.ofStdIo e))
      { l with client := { l.client with origin := .fromUrl url } } (w.dial url)
  | done : Reconnected url l w (.ok ())
      { l with client := { l.client with origin := .fromUrl url, dirty := false } } (w.dial url)

/-- **A new connection**, bound to the origin of `url`. -/
theorem wp_reconnectWithDeadline {url : Url} {deadline : RequestDeadline} {l : Local} {w : Wire}
    (hconn : ∀ d, G w (.connect url d)) :
    Act.wp (watched G) (reconnectWithDeadline url deadline) (Reconnected url l w) l w := by
  simp only [reconnectWithDeadline, Act.wp_bind]
  refine RequestDeadline.wp_check hG.timeless ?_ (Act.stays_ghost.mpr .late)
  simp only [Act.cont_ok, Act.wp_bind, wp_client]
  refine Config.wp_connectDeadline hG.timeless fun fallback => ?_
  simp only [Act.cont_ok, Act.wp_bind]
  refine RequestDeadline.wp_connectDeadline hG.timeless fun d => ?_
  simp only [Act.cont_ok, Act.wp_bind]
  refine wp_connect.mpr ⟨hconn d, fun e => Act.stays_ghost.mpr .refused, ?_⟩
  simp only [Act.cont_ok, Act.wp_bind, wp_modifyClient]
  refine wp_applyTimeouts hG ?_ fun e => Act.stays_ghost.mpr .failed
  simp only [Act.cont_ok, wp_modifyClient]
  exact .done

/-! ## Writing a request -/

/-- What writing a request leaves: all of it and a flush, or a failure after some of it. -/
def Written (wire : Bytes) (l : Local) (w : Wire) (r : Except Error Unit) (l' : Local) (w' : Wire) : Prop :=
  Same l.client l'.client ∧ l'.client.dirty = l.client.dirty ∧ l'.client.headBuf = l.client.headBuf ∧
    match r with
    | .ok () => w' = (w.send wire).flush
    | .error e => ∃ bs, FailedProto (w.send bs) e w'

/-- The flush at the end. -/
theorem wp_written_flush {stream : Stream} (hs : stream.Recorded G) {fuel : Nat} {budget : WriteBudget}
    {wire : Bytes} {l₀ l : Local} {w : Wire}
    (hl : l.client = l₀.client ∨ ∃ buf, l.client = { l₀.client with writeBuf := buf }) :
    Act.wp (watched G) (budget.flushProto stream fuel) (Written wire l₀ w) l (w.send wire) := by
  have hsame : ∀ l' : Local, l'.client = l.client → Same l₀.client l'.client ∧ l'.client.dirty = l₀.client.dirty ∧
      l'.client.headBuf = l₀.client.headBuf := by
    intro l' hl'
    rw [hl']
    rcases hl with hl | ⟨buf, hl⟩
    · rw [hl]
      exact ⟨.refl _, rfl, rfl⟩
    · rw [hl]
      exact ⟨⟨rfl, rfl, rfl⟩, rfl, rfl⟩
  refine Act.wp_mono (WriteBudget.wp_flushProto hG hs fuel budget l _) ?_
  rintro (e | u) l' w' ⟨hl', hw⟩
  · exact ⟨(hsame l' hl').1, (hsame l' hl').2.1, (hsame l' hl').2.2, wire, hw⟩
  · exact ⟨(hsame l' hl').1, (hsame l' hl').2.1, (hsame l' hl').2.2, hw⟩

/-- The writes of a request, in whichever of the three shapes the body asks for. -/
theorem wp_writeRequest {stream : Stream} (hs : stream.Recorded G) (fuel : Nat) (budget : WriteBudget)
    (body : Option Bytes) (l : Local) (w : Wire) :
    Act.wp (watched G) (writeRequest stream fuel budget body)
      (Written (l.client.writeBuf ++ body.getD []) l w) l w := by
  have hfail : ∀ {e : Error} {bs : Bytes} {l' : Local} {w' : Wire} {wire : Bytes}, l'.client = l.client →
      FailedProto (w.send bs) e w' → Written wire l w (.error e) l' w' := by
    intro e bs l' w' wire hl hw
    exact ⟨.of_eq hl, by rw [hl], by rw [hl], bs, hw⟩
  simp only [writeRequest, Act.wp_bind, wp_client, Act.cont_ok]
  cases body with
  | none =>
      simp only [Act.wp_bind]
      refine Act.wp_mono (WriteBudget.wp_writeAllProto hG hs fuel budget _ l w) ?_
      rintro (e | budget) l' w' ⟨hl, hw⟩
      · obtain ⟨bs, hw⟩ := hw
        exact Act.stays_ghost.mpr (hfail hl hw)
      · subst hw
        simpa using wp_written_flush hG hs (.inl hl)
  | some data =>
      simp only []
      split
      · simp only [Act.wp_bind, wp_modifyClient, Act.cont_ok]
        refine Act.wp_mono (WriteBudget.wp_writeAllProto hG hs fuel budget _ _ w) ?_
        rintro (e | budget) l' w' ⟨hl, hw⟩
        · obtain ⟨bs, hw⟩ := hw
          exact Act.stays_ghost.mpr ⟨by rw [hl]; exact ⟨rfl, rfl, rfl⟩, by rw [hl], by rw [hl], bs, hw⟩
        · subst hw
          exact wp_written_flush hG hs (.inr ⟨_, hl⟩)
      · simp only [Act.wp_bind]
        refine Act.wp_mono (WriteBudget.wp_writeAllProto hG hs fuel budget _ l w) ?_
        rintro (e | budget) l' w' ⟨hl, hw⟩
        · obtain ⟨bs, hw⟩ := hw
          exact Act.stays_ghost.mpr (hfail hl hw)
        · subst hw
          simp only [Act.cont_ok, Act.wp_bind]
          refine Act.wp_mono (WriteBudget.wp_writeAllProto hG hs fuel budget data l' _) ?_
          rintro (e | budget) l'' w'' ⟨hl', hw⟩
          · obtain ⟨bs, hw⟩ := hw
            rw [Wire.send_send] at hw
            exact Act.stays_ghost.mpr (hfail (hl'.trans hl) hw)
          · subst hw
            rw [Wire.send_send]
            exact wp_written_flush hG hs (.inl (hl'.trans hl))

/-! ## One request -/

/-- The record `w`, with a latest exchange `ex` on its latest connection `c`. -/
def during (w : Wire) (c : Connection) (cs : List Connection) (ex : Exchange) : Wire :=
  { w with connections := { c with exchanges := ex :: c.exchanges } :: cs }

/-- What `send_head_once` leaves: a request refused before anything was written, or an exchange on the connection.
    The bytes read in it are the interim heads that were dropped and what `head_buf` holds. -/
def SentOnce (params : RequestParams) (l : Local) (c : Connection) (cs : List Connection) (w : Wire)
    (r : Except Error (HeadData × BodyFraming × Nat)) (l' : Local) (w' : Wire) : Prop :=
  Same l.client l'.client ∧
  ((∃ e, r = .error e ∧ isStaleConnection e = false ∧ e.refusesRedirect = false ∧
      l'.client.dirty = l.client.dirty ∧ w' = w) ∨
  ∃ ex interims, l'.client.dirty = true ∧ ex.params = params ∧ ex.request = requestFor l.client.origin params ∧
    ex.received = List.flatten interims ++ l'.client.headBuf ∧
    interims.length ≤ HeadData.MAX_INTERIM_RESPONSES ∧ (∀ i ∈ interims, IsInterim i) ∧
    match r with
    | .ok (data, framing, headEnd) => w' = (during w c cs ex).note .answered ∧ ex.sent = ex.wire ∧
        ex.flushed = ex.wire ∧ IsFinal params.method (l'.client.headBuf.take headEnd) data framing
    | .error e => FailedProto (during w c cs ex) e w')

/-- **One attempt to send a request**, and to read the head of its response. -/
theorem wp_sendHeadOnce {i : Interrupt} (hi : i.Quiet G) (fuel : Nat) (params : RequestParams)
    (deadline : RequestDeadline) (l : Local) {c : Connection} {cs : List Connection} {w : Wire}
    (hw : w.connections = c :: cs)
    (hbegin : G w (.mark (.exchange params (requestFor l.client.origin params))))
    (hresp : ∀ ex skipped acc headEnd, ex.received = skipped ++ acc →
      G (during w c cs ex) (.mark (.response acc headEnd))) :
    Act.wp (watched G) (sendHeadOnce fuel params deadline i) (SentOnce params l c cs w) l w := by
  have hs := Stream.recorded_interruptible hG hi
  obtain ⟨connections, fired, log⟩ := w
  subst hw
  simp only [sendHeadOnce, Act.wp_bind]
  refine RequestDeadline.wp_check hG.timeless ?_ (Act.stays_ghost.mpr ⟨.refl _, .inl ⟨_, rfl, rfl, rfl, rfl, rfl⟩⟩)
  simp only [Act.cont_ok]
  split
  · exact Act.stays_ghost.mpr ⟨.refl _, .inl ⟨_, rfl, rfl, rfl, rfl, rfl⟩⟩
  · simp only [Act.wp_bind, wp_modifyClient, wp_client, Act.cont_ok, Act.wp_mapError, Act.wp_ofExcept,
      Act.stays_ghost]
    rcases hser : (requestFor l.client.origin params).serializeToWriter with e | head
    · obtain ⟨kind, rfl⟩ := Request.serializeToWriter_error hser
      exact Act.stays_ghost.mpr ⟨⟨rfl, rfl, rfl⟩, .inl ⟨_, rfl, rfl, rfl, rfl, rfl⟩⟩
    · obtain rfl := Request.serializeToWriter_ok hser
      simp only [Except.mapError, Act.cont_ok, Act.wp_bind, wp_modifyClient, discardPartialResponse, wp_mark]
      refine ⟨hbegin, WriteBudget.wp_withDeadline hG.timeless fun budget => ?_⟩
      simp only [Act.cont_ok, Act.wp_bind]
      refine Act.wp_mono (wp_writeRequest hG hs fuel budget params.body _ _) ?_
      rintro r l' w' ⟨hsame, hdirty, hbuf, hw⟩
      have hsame : Same l.client l'.client := ⟨hsame.config, hsame.maxHeadSize, hsame.origin⟩
      rcases r with e | u
      · -- the write failed: nothing was read, and the accumulator is still empty
        obtain ⟨bs, hw⟩ := hw
        refine Act.stays_ghost.mpr ⟨hsame, .inr ⟨_, [], hdirty, rfl, rfl, ?_, by simp, by simp, hw⟩⟩
        rw [hbuf]
        rfl
      · subst hw
        simp only [Act.cont_ok]
        refine Act.wp_mono (HeadData.wp_readResponse hG hs _ _ _ _ fuel l' _ ?_) ?_
        · intro skipped acc headEnd
          exact hresp _ skipped acc headEnd rfl
        · rintro r l'' w'' ⟨interims, acc, hl, hlen, hall, hw⟩
          have hsame' : Same l'.client l''.client := by
            rw [hl]
            exact ⟨rfl, rfl, rfl⟩
          have hdirty' : l''.client.dirty = true := by
            rw [hl]
            exact hdirty
          have hacc : l''.client.headBuf = acc := by rw [hl]
          refine ⟨hsame.trans hsame', .inr ?_⟩
          rcases r with e | ⟨data, framing, headEnd⟩
          · exact ⟨_, interims, hdirty', rfl, rfl, by rw [hacc]; rfl, hlen, hall, hw⟩
          · obtain ⟨rfl, hfinal⟩ := hw
            refine ⟨_, interims, hdirty', rfl, rfl, by rw [hacc]; rfl, hlen, hall, rfl, rfl, rfl, ?_⟩
            rw [hacc]
            exact hfinal

/-! ## Its body -/

/-- Reading a body into memory: a clear flag afterwards says that the tail and what was read are one body. -/
theorem wp_readFullBody (fuel : Nat) (framing : BodyFraming) (tailOffset : Nat) (deadline : RequestDeadline)
    (l : Local) (w : Wire) :
    Act.wp (watched G) (readFullBody fuel framing tailOffset deadline) (fun r l' w' =>
      Same l.client l'.client ∧ ∃ bs,
        (l'.client.dirty = false → Framed framing (l.client.headBuf.drop tailOffset ++ bs)) ∧
        match r with
        | .ok _ => w' = w.receive bs
        | .error e => l'.client.dirty = true ∧ FailedProto (w.receive bs) e w') l w := by
  have hs := Stream.recorded_raw hG
  simp only [readFullBody, Act.wp_bind, wp_client, Act.cont_ok]
  refine SilenceBudget.wp_withDeadline hG.timeless fun budget _ => ?_
  simp only [Act.cont_ok, Act.wp_bind, Act.wp_attempt]
  refine Act.wp_mono (BodyCollector.wp_read hG hs _ fuel budget framing _ l w) ?_
  rintro (e | ⟨body, reusable⟩) l' w' ⟨hl, bs, hr⟩
  · have hsame : Same l.client { l'.client with dirty := true } := by
      rw [hl]
      exact ⟨rfl, rfl, rfl⟩
    simp only [Act.stays_ghost, Act.cont_ok, Act.wp_bind, discardPartialResponse, wp_modifyClient, Act.wp_throw]
    exact ⟨hsame, bs, by rintro ⟨⟩, trivial, hr⟩
  · obtain ⟨rfl, hframed⟩ := hr
    have hsame : ∀ dirty, Same l.client { l'.client with dirty := dirty } := by
      intro dirty
      rw [hl]
      exact ⟨rfl, rfl, rfl⟩
    simp only [Act.stays_ghost, Act.cont_ok]
    cases reusable with
    | true =>
        simp only [if_true, Act.wp_bind, markReusable, wp_modifyClient, Act.cont_ok]
        exact Act.stays_ghost.mpr ⟨hsame false, bs, fun _ => hframed rfl, rfl⟩
    | false =>
        simp only [Bool.false_eq_true, if_false, Act.wp_bind, discardPartialResponse, wp_modifyClient, Act.cont_ok]
        exact Act.stays_ghost.mpr ⟨hsame true, bs, by rintro ⟨⟩, rfl⟩

end

end Client

end Xibalba
