import Xibalba.Lib.Wp
import Xibalba.Client.Reader
import Xibalba.Client.Correctness.Clock

/-!
# `Client.Correctness.Wire` — what passes over the connections

Statements about runs of the client are statements about its connections: which were opened, what was written
to and read from each, and in the course of which exchange. `Wire` is that record, computed from the events of
a run. The specifications here say what each function of the client adds to it; they hold under any monitor
`G` that leaves the plain operations alone, so that each property can bring the monitor it needs.

Layout:
* `Exchange`, `Connection`, `Wire` and what each event does to them;
* interrupts and streams;
* the budgets.
-/

namespace Xibalba

/-! ## The record -/

/-- A request and its response, as far as they passed over the stream: the bytes written, those of them that
    had been written at the last flush, and the bytes read. -/
structure Exchange where
  params : RequestParams
  request : Request
  sent : Bytes
  flushed : Bytes
  received : Bytes
deriving DecidableEq

/-- A stream the `Connector` opened: the origin it was asked for, the exchanges on it, latest first, and the
    bytes read from it and written to it outside of any exchange. -/
structure Connection where
  origin : Origin
  exchanges : List Exchange
  stray : Bytes
  unclaimed : Bytes
deriving DecidableEq

namespace Connection

/-- Change the latest exchange. -/
def onLatest (f : Exchange → Exchange) (c : Connection) : Connection :=
  { c with exchanges := c.exchanges.modifyHead f }

def receive (bs : Bytes) (c : Connection) : Connection :=
  match c.exchanges with
  | [] => { c with stray := c.stray ++ bs }
  | _ => c.onLatest fun e => { e with received := e.received ++ bs }

def send (bs : Bytes) (c : Connection) : Connection :=
  match c.exchanges with
  | [] => { c with unclaimed := c.unclaimed ++ bs }
  | _ => c.onLatest fun e => { e with sent := e.sent ++ bs }

end Connection

/-- What happens between exchanges: a `Connector` call and the error it answered, if any, a final response head,
    a redirect that is followed, and the beginning of a call of the client. -/
inductive Note where
  | dialled (url : Url) (e : Option Error)
  | answered
  | followed (location : Bytes)
  | called
deriving DecidableEq

/-- The connections of a client, latest first, whether an interrupt from outside has fired, and notes on what
    happened between the exchanges, latest first. -/
structure Wire where
  connections : List Connection
  fired : Bool
  log : List Note
deriving DecidableEq

namespace Wire

/-- Change the latest connection. -/
def onLatest (f : Connection → Connection) (w : Wire) : Wire :=
  { w with connections := w.connections.modifyHead f }

def note (n : Note) (w : Wire) : Wire := { w with log := n :: w.log }

/-- The `Connector` opened a stream. -/
def dial (url : Url) (w : Wire) : Wire :=
  { w with
    connections := ⟨.fromUrl url, [], [], []⟩ :: w.connections
    log := .dialled url none :: w.log }

/-- A request is about to be written. -/
def begin (params : RequestParams) (request : Request) : Wire → Wire :=
  onLatest fun c => { c with exchanges := ⟨params, request, [], [], []⟩ :: c.exchanges }

def receive (bs : Bytes) : Wire → Wire := onLatest (·.receive bs)

def send (bs : Bytes) : Wire → Wire := onLatest (·.send bs)

def flush : Wire → Wire := onLatest (·.onLatest fun e => { e with flushed := e.sent })

/-- An interrupt from outside answered. -/
def fire (b : Bool) (w : Wire) : Wire := { w with fired := w.fired || b }

/-- What an event adds to the record. -/
def next (w : Wire) : (op : Op) → op.Ret → Wire
  | .connect url _, .ok () => w.dial url
  | .connect url _, .error e => w.note (.dialled url (some e))
  | .mark (.exchange params request), _ => w.begin params request
  | .mark (.response _ _), _ => w.note .answered
  | .mark (.redirect location), _ => w.note (.followed location)
  | .mark .call, _ => w.note .called
  | .read _, .ok bs => w.receive bs.val
  | .write buf, .ok n => w.send (buf.take n.val)
  | .flush, .ok () => w.flush
  | .isCancelled, b => w.fire b
  | _, _ => w

@[simp] theorem receive_receive (w : Wire) (as bs : Bytes) :
    (w.receive as).receive bs = w.receive (as ++ bs) := by
  obtain ⟨_ | ⟨⟨origin, _ | ⟨e, es⟩, stray, unclaimed⟩, cs⟩, fired, log⟩ := w <;>
    simp [receive, onLatest, Connection.receive, Connection.onLatest]

@[simp] theorem receive_nil (w : Wire) : w.receive [] = w := by
  obtain ⟨_ | ⟨⟨origin, _ | ⟨e, es⟩, stray, unclaimed⟩, cs⟩, fired, log⟩ := w <;>
    simp [receive, onLatest, Connection.receive, Connection.onLatest]

@[simp] theorem send_send (w : Wire) (as bs : Bytes) : (w.send as).send bs = w.send (as ++ bs) := by
  obtain ⟨_ | ⟨⟨origin, _ | ⟨e, es⟩, stray, unclaimed⟩, cs⟩, fired, log⟩ := w <;>
    simp [send, onLatest, Connection.send, Connection.onLatest]

@[simp] theorem send_nil (w : Wire) : w.send [] = w := by
  obtain ⟨_ | ⟨⟨origin, _ | ⟨e, es⟩, stray, unclaimed⟩, cs⟩, fired, log⟩ := w <;>
    simp [send, onLatest, Connection.send, Connection.onLatest]

@[simp] theorem fire_false (w : Wire) : w.fire false = w := by simp [fire]

end Wire

/-- The record at the beginning of a call, on a connection that carried nothing yet. -/
def startOf (l : Local) : Wire := ⟨[⟨l.client.origin, [], [], []⟩], false, []⟩

/-- The record after these events of a call. -/
def recordFrom (l : Local) (tr : List (Prog.Event Sys)) : Wire := Prog.after Wire.next (startOf l) tr

/-- The operations no monitor looks at. -/
def Op.isPlain : Op → Bool
  | .connect _ _ | .mark _ => false
  | _ => true

/-- A monitor that leaves the plain operations alone. -/
def Lenient (G : Wire → Op → Prop) : Prop := ∀ w op, op.isPlain → G w op

/-- The record kept under the monitor `G`. -/
abbrev watched (G : Wire → Op → Prop) : World Sys Wire := World.ghost (S := Sys) G Wire.next

section

variable {G : Wire → Op → Prop} {ε : Type} {l : Local} {w : Wire}

@[simp] theorem wp_client {Q : Except ε Client → Local → Wire → Prop} :
    Act.wp (watched G) M.client Q l w ↔ Q (.ok l.client) l w := by
  simp [M.client]

@[simp] theorem wp_modifyClient {f : Client → Client} {Q : Except ε Unit → Local → Wire → Prop} :
    Act.wp (watched G) (M.modifyClient f) Q l w ↔ Q (.ok ()) { l with client := f l.client } w := by
  simp [M.modifyClient]

theorem wp_mark {m : Mark} {Q : Except ε Unit → Local → Wire → Prop} :
    Act.wp (watched G) (M.mark m) Q l w ↔ G w (.mark m) ∧ Q (.ok ()) l (w.next (.mark m) ()) :=
  Act.wp_ghost_call.trans (and_congr_right fun _ => ⟨fun h => h (), fun h _ => h⟩)

theorem Lenient.timeless (hG : Lenient G) : Timeless G Wire.next where
  allowed w := hG w .now rfl
  same _ _ := rfl

variable (hG : Lenient G)

include hG

/-! ## Interrupts and streams -/

/-- An interrupt that leaves the client and the connections alone, and reports what was fired from
    outside. -/
def Interrupt.Quiet (G : Wire → Op → Prop) (i : Interrupt) : Prop :=
  ∀ l w, Act.wp (watched G) (i : M Empty Bool) (fun r l' w' =>
    l'.client = l.client ∧ ∃ b f : Bool, r = .ok b ∧ w' = w.fire f ∧ (f → b)) l w

omit hG in
theorem Interrupt.quiet_never : Interrupt.never.Quiet G := by
  intro l w
  exact Act.wp_pure.mpr (Act.stays_ghost.mpr ⟨rfl, false, false, rfl, (w.fire_false).symm, id⟩)

theorem Interrupt.quiet_outside : Interrupt.outside.Quiet G := by
  intro l w
  refine Act.wp_ghost_call.mpr ⟨hG w _ rfl, fun b => ?_⟩
  exact ⟨rfl, b, b, rfl, rfl, id⟩

omit hG in
theorem Interrupt.Quiet.latch {i : Interrupt} (hi : i.Quiet G) : (Interrupt.latch i).Quiet G := by
  intro l w
  refine Act.wp_bind.mpr (Act.wp_mono (hi l w) ?_)
  rintro _ l' w' ⟨hl, b, f, rfl, hw, hf⟩
  simp only [Act.cont_ok, Act.wp_bind, Act.wp_get, Act.stays_ghost, Act.wp_modify, Act.wp_pure]
  exact ⟨hl, _, f, rfl, hw, fun h => by simp [hf h]⟩

omit hG in
theorem Interrupt.Quiet.isCancelled {i : Interrupt} (hi : i.Quiet G) :
    Act.wp (watched G) (i.isCancelled : M ε Bool) (fun r l' w' =>
      l'.client = l.client ∧ ∃ b f : Bool, r = .ok b ∧ w' = w.fire f ∧ (f → b)) l w := by
  refine Act.wp_infallible.mpr (Act.wp_mono (hi l w) ?_)
  rintro _ l' w' ⟨hl, b, f, rfl, hw, hf⟩
  exact Act.stays_ghost.mpr ⟨hl, b, f, rfl, hw, hf⟩

/-- What an operation of a stream leaves when it fails: the record unchanged, but for an interrupt that fired
    if the failure is its cancellation. -/
def Failed (w : Wire) (e : StdIoError) (w' : Wire) : Prop :=
  ∃ f : Bool, w' = w.fire f ∧ (f → e = Cancelled.error)

/-- The stream operations record what they moved. -/
structure Stream.Recorded (G : Wire → Op → Prop) (stream : Stream) : Prop where
  read : ∀ len l w, Act.wp (watched G) (stream.read len) (fun r l' w' => l'.client = l.client ∧
    match r with
    | .ok bs => w' = w.receive bs.val
    | .error e => Failed w e w') l w
  write : ∀ buf l w, Act.wp (watched G) (stream.write buf) (fun r l' w' => l'.client = l.client ∧
    match r with
    | .ok n => w' = w.send (buf.take n.val)
    | .error e => Failed w e w') l w
  flush : ∀ l w, Act.wp (watched G) stream.flush (fun r l' w' => l'.client = l.client ∧
    match r with
    | .ok () => w' = w.flush
    | .error e => Failed w e w') l w

omit hG in
theorem Failed.refl (w : Wire) (e : StdIoError) : Failed w e w := ⟨false, (w.fire_false).symm, nofun⟩

theorem Stream.recorded_raw : Stream.raw.Recorded G where
  read len l w := by
    simp only [raw, Act.wp_bind]
    refine Act.wp_ghost_call.mpr ⟨hG w _ rfl, fun r => ?_⟩
    cases r with
    | ok bs => exact Act.stays_ghost.mpr ⟨rfl, rfl⟩
    | error e => exact Act.stays_ghost.mpr ⟨rfl, .refl w e⟩
  write buf l w := by
    simp only [raw, Act.wp_bind]
    refine Act.wp_ghost_call.mpr ⟨hG w _ rfl, fun r => ?_⟩
    cases r with
    | ok n => exact Act.stays_ghost.mpr ⟨rfl, rfl⟩
    | error e => exact Act.stays_ghost.mpr ⟨rfl, .refl w e⟩
  flush l w := by
    simp only [raw, Act.wp_bind]
    refine Act.wp_ghost_call.mpr ⟨hG w _ rfl, fun r => ?_⟩
    cases r with
    | ok u => exact Act.stays_ghost.mpr ⟨rfl, rfl⟩
    | error e => exact Act.stays_ghost.mpr ⟨rfl, .refl w e⟩

omit hG in
/-- An operation that consults an interrupt first is recorded as the operation, or fails with the
    interrupt's cancellation. -/
theorem wp_interrupted {α : Type} {i : Interrupt} (hi : i.Quiet G) {x : M StdIoError α}
    {Q : Except StdIoError α → Local → Wire → Prop}
    (hx : ∀ l', l'.client = l.client → Act.wp (watched G) x Q l' w)
    (he : ∀ l' w', l'.client = l.client → Failed w Cancelled.error w' → Q (.error Cancelled.error) l' w') :
    Act.wp (watched G) (do
      if ← i.isCancelled then Act.throw Cancelled.error
      x) Q l w := by
  simp only [Act.wp_bind]
  refine Act.wp_mono hi.isCancelled ?_
  rintro _ l' w' ⟨hl, b, f, rfl, rfl, hf⟩
  cases b with
  | true =>
      simp only [Act.cont_ok, if_true, Act.wp_bind, Act.wp_throw, Act.cont_error, Act.stays_ghost]
      exact he _ _ hl ⟨f, rfl, fun _ => rfl⟩
  | false =>
      have hf : f = false := by simpa using hf
      subst hf
      simp only [Act.cont_ok, Bool.false_eq_true, if_false, Wire.fire_false]
      exact hx l' hl

theorem Stream.recorded_interruptible {i : Interrupt} (hi : i.Quiet G) : (Stream.interruptible i).Recorded G
    where
  read len l w := by
    refine wp_interrupted hi (fun l' hl => ?_) fun l' w' hl hw => ⟨hl, hw⟩
    rw [← hl]
    exact (recorded_raw hG).read len l' w
  write buf l w := by
    refine wp_interrupted hi (fun l' hl => ?_) fun l' w' hl hw => ⟨hl, hw⟩
    rw [← hl]
    exact (recorded_raw hG).write buf l' w
  flush l w := by
    refine wp_interrupted hi (fun l' hl => ?_) fun l' w' hl hw => ⟨hl, hw⟩
    rw [← hl]
    exact (recorded_raw hG).flush l' w

/-! ## Budgets -/

omit hG in
/-- A tick is not a cancellation. -/
theorem Failed.eq_of_tick {w' : Wire} {e : StdIoError} (h : Failed w e w') (ht : Tick.marks e) : w' = w := by
  obtain ⟨f, rfl, hf⟩ := h
  cases f with
  | false => exact w.fire_false
  | true =>
      rw [hf rfl] at ht
      cases ht

/-- A read under a budget records the bytes it returns. -/
theorem SilenceBudget.wp_read {stream : Stream} (hs : stream.Recorded G) (len fuel : Nat) (b : SilenceBudget)
    (l : Local) (w : Wire) :
    Act.wp (watched G) (SilenceBudget.read stream len fuel b) (fun r l' w' => l'.client = l.client ∧
      match r with
      | .ok (bs, b') => w' = w.receive bs.val ∧ b'.deadline = b.deadline
      | .error e => Failed w e w') l w := by
  induction fuel generalizing l b with
  | zero => exact Act.wp_hang
  | succ fuel ih =>
      refine Act.wp_bind.mpr (RequestDeadline.wp_expired hG.timeless fun late => ?_)
      cases late with
      | true => exact Act.stays_ghost.mpr ⟨rfl, .refl w _⟩
      | false =>
          simp only [Act.cont_ok, Bool.false_eq_true, if_false]
          refine Act.wp_bind.mpr (Act.wp_attempt.mpr (Act.wp_mono (hs.read len l w) ?_))
          rintro (e | bs) l' w' ⟨hl, hw⟩
          · by_cases ht : Tick.marks e
            · rw [hw.eq_of_tick ht]
              simp only [Act.stays_ghost, Act.cont_ok, if_pos ht]
              refine wp_tick hG.timeless ⟨hl, .refl w _⟩ ?_
              rw [← hl]
              exact ih b l'
            · simp only [Act.stays_ghost, Act.cont_ok, if_neg ht]
              exact Act.stays_ghost.mpr ⟨hl, hw⟩
          · simp only [Act.stays_ghost, Act.cont_ok]
            refine Act.wp_bind.mpr ((wp_now hG.timeless).mpr fun t => ?_)
            exact Act.stays_ghost.mpr ⟨hl, hw, rfl⟩

omit hG in
/-- The verdicts on a redirect. -/
def Error.refusesRedirect : Error → Bool
  | .connection e => e = .tooManyRedirects || e = .insecureRedirect || e = .unsupportedRedirectScheme ||
      e = .crossOriginRedirectRefused
  | _ => false

omit hG in
/-- `Failed`, for an error that crossed the boundary to the protocol's error type. It is not about a redirect. -/
def FailedProto (w : Wire) (e : Error) (w' : Wire) : Prop :=
  e.refusesRedirect = false ∧ ∃ f : Bool, w' = w.fire f ∧ (f → e = .ofStdIo Cancelled.error)

omit hG in
theorem FailedProto.refl (w : Wire) {e : Error} (he : e.refusesRedirect = false) : FailedProto w e w :=
  ⟨he, false, (w.fire_false).symm, nofun⟩

omit hG in
theorem RequestDeadline.classify_refuses (e : StdIoError) : (classify e).refusesRedirect = false := by
  unfold classify
  split
  · rfl
  · rfl

omit hG in
theorem Failed.classify {e : StdIoError} {w' : Wire} (h : Failed w e w') :
    FailedProto w (RequestDeadline.classify e) w' := by
  obtain ⟨f, hw, hf⟩ := h
  refine ⟨RequestDeadline.classify_refuses e, f, hw, fun h => ?_⟩
  rw [hf h]
  rfl

theorem SilenceBudget.wp_readProto {stream : Stream} (hs : stream.Recorded G) (len fuel : Nat)
    (b : SilenceBudget) (l : Local) (w : Wire) :
    Act.wp (watched G) (SilenceBudget.readProto stream len fuel b) (fun r l' w' => l'.client = l.client ∧
      match r with
      | .ok (bs, _) => w' = w.receive bs.val
      | .error e => FailedProto w e w') l w := by
  refine Act.wp_mapError.mpr (Act.wp_mono (wp_read hG hs len fuel b l w) ?_)
  rintro (e | ⟨bs, b⟩) l' w' ⟨hl, hw⟩
  · exact Act.stays_ghost.mpr ⟨hl, hw.classify⟩
  · exact Act.stays_ghost.mpr ⟨hl, hw.1⟩

/-- Reading exactly `need` bytes records them; a failure may have recorded some of them. -/
theorem SilenceBudget.wp_readExact {stream : Stream} (hs : stream.Recorded G) (fuel turns : Nat)
    (b : SilenceBudget) (need : Nat) (got : Bytes) (l : Local) (w : Wire) :
    Act.wp (watched G) (SilenceBudget.readExact stream fuel turns b need got) (fun r l' w' =>
      l'.client = l.client ∧
      match r with
      | .ok all => ∃ bs, all = got ++ bs ∧ bs.length = need ∧ w' = w.receive bs
      | .error e => ∃ bs, bs.length ≤ need ∧ Failed (w.receive bs) e w') l w := by
  induction turns generalizing b need got l w with
  | zero => exact Act.wp_hang
  | succ turns ih =>
      unfold SilenceBudget.readExact
      by_cases hneed : need = 0
      · rw [if_pos hneed]
        exact Act.stays_ghost.mpr ⟨rfl, [], by simp, by simp [hneed], by simp⟩
      · rw [if_neg hneed]
        refine Act.wp_bind.mpr (Act.wp_mono (wp_read hG hs need fuel b l w) ?_)
        rintro (e | ⟨bs, b⟩) l' w' ⟨hl, hw⟩
        · exact Act.stays_ghost.mpr ⟨hl, [], by simp, by simpa using hw⟩
        · simp only [Act.cont_ok]
          obtain ⟨hw, -⟩ := hw
          by_cases hbs : bs.val.isEmpty = true
          · rw [if_pos hbs]
            subst hw
            have hnil : bs.val = [] := List.isEmpty_iff.mp hbs
            exact Act.stays_ghost.mpr ⟨hl, [], by simp, by simpa [hnil] using Failed.refl w _⟩
          · rw [if_neg hbs]
            subst hw
            have hlen := bs.property
            refine Act.wp_mono (ih _ _ _ l' _) ?_
            rintro (e | all) l'' w'' ⟨hl', hw⟩
            · obtain ⟨more, hmore, hw⟩ := hw
              refine ⟨hl'.trans hl, bs.val ++ more, ?_, by simpa using hw⟩
              rw [List.length_append]
              omega
            · obtain ⟨more, hall, hmore, hw⟩ := hw
              refine ⟨hl'.trans hl, bs.val ++ more, by simp [hall], ?_, by simpa using hw⟩
              rw [List.length_append]
              omega

theorem SilenceBudget.wp_readExactProto {stream : Stream} (hs : stream.Recorded G) (fuel : Nat)
    (b : SilenceBudget) (need : Nat) (l : Local) (w : Wire) :
    Act.wp (watched G) (SilenceBudget.readExactProto stream fuel b need) (fun r l' w' =>
      l'.client = l.client ∧
      match r with
      | .ok bs => bs.length = need ∧ w' = w.receive bs
      | .error e => ∃ bs, FailedProto (w.receive bs) e w') l w := by
  refine Act.wp_mapError.mpr (Act.wp_mono (wp_readExact hG hs fuel fuel b need [] l w) ?_)
  rintro (e | all) l' w' ⟨hl, hw⟩
  · obtain ⟨bs, -, hw⟩ := hw
    exact Act.stays_ghost.mpr ⟨hl, bs, hw.classify⟩
  · obtain ⟨bs, rfl, hlen, hw⟩ := hw
    exact Act.stays_ghost.mpr ⟨hl, hlen, hw⟩

/-- Writing all of a buffer records it; a failure may have recorded part of it. -/
theorem WriteBudget.wp_writeAllRaw {stream : Stream} (hs : stream.Recorded G) (fuel : Nat) (b : WriteBudget)
    (buf : Bytes) (l : Local) (w : Wire) :
    Act.wp (watched G) (WriteBudget.writeAllRaw stream fuel b buf) (fun r l' w' => l'.client = l.client ∧
      match r with
      | .ok _ => w' = w.send buf
      | .error e => ∃ bs, Failed (w.send bs) e w') l w := by
  induction fuel generalizing b buf l w with
  | zero => exact Act.wp_hang
  | succ fuel ih =>
      unfold WriteBudget.writeAllRaw
      by_cases hbuf : buf.isEmpty = true
      · rw [if_pos hbuf]
        have hnil : buf = [] := List.isEmpty_iff.mp hbuf
        exact Act.stays_ghost.mpr ⟨rfl, by simp [hnil]⟩
      · rw [if_neg hbuf]
        refine Act.wp_bind.mpr (RequestDeadline.wp_checkIo hG.timeless ?_ ?_)
        · simp only [Act.cont_ok]
          refine Act.wp_bind.mpr (Act.wp_attempt.mpr (Act.wp_mono (hs.write buf l w) ?_))
          rintro (e | n) l' w' ⟨hl, hw⟩
          · by_cases ht : Tick.marks e
            · rw [hw.eq_of_tick ht]
              simp only [Act.stays_ghost, Act.cont_ok, if_pos ht]
              refine wp_tick hG.timeless ⟨hl, [], by simpa using Failed.refl w _⟩ ?_
              rw [← hl]
              exact ih b buf l' w
            · simp only [Act.stays_ghost, Act.cont_ok, if_neg ht]
              exact Act.stays_ghost.mpr ⟨hl, [], by simpa using hw⟩
          · simp only [Act.stays_ghost, Act.cont_ok]
            subst hw
            by_cases hn : n.val = 0
            · rw [if_pos hn]
              exact Act.stays_ghost.mpr ⟨hl, [], by simpa [hn] using Failed.refl w _⟩
            · rw [if_neg hn]
              refine Act.wp_bind.mpr ((wp_now hG.timeless).mpr fun t => ?_)
              simp only [Act.cont_ok]
              refine Act.wp_mono (ih _ _ l' _) ?_
              rintro (e | b') l'' w'' ⟨hl', hw⟩
              · obtain ⟨bs, hw⟩ := hw
                exact ⟨hl'.trans hl, _, by simpa using hw⟩
              · exact ⟨hl'.trans hl, by simpa using hw⟩
        · exact Act.stays_ghost.mpr ⟨rfl, [], by simpa using Failed.refl w _⟩

theorem WriteBudget.wp_writeAllProto {stream : Stream} (hs : stream.Recorded G) (fuel : Nat) (b : WriteBudget)
    (buf : Bytes) (l : Local) (w : Wire) :
    Act.wp (watched G) (WriteBudget.writeAllProto stream fuel b buf) (fun r l' w' => l'.client = l.client ∧
      match r with
      | .ok _ => w' = w.send buf
      | .error e => ∃ bs, FailedProto (w.send bs) e w') l w := by
  refine Act.wp_mapError.mpr (Act.wp_mono (wp_writeAllRaw hG hs fuel b buf l w) ?_)
  rintro (e | b') l' w' ⟨hl, hw⟩
  · obtain ⟨bs, hw⟩ := hw
    exact Act.stays_ghost.mpr ⟨hl, bs, hw.classify⟩
  · exact Act.stays_ghost.mpr ⟨hl, hw⟩

theorem WriteBudget.wp_flush {stream : Stream} (hs : stream.Recorded G) (fuel : Nat) (b : WriteBudget)
    (l : Local) (w : Wire) :
    Act.wp (watched G) (WriteBudget.flush stream fuel b) (fun r l' w' => l'.client = l.client ∧
      match r with
      | .ok () => w' = w.flush
      | .error e => Failed w e w') l w := by
  induction fuel generalizing l w with
  | zero => exact Act.wp_hang
  | succ fuel ih =>
      refine Act.wp_bind.mpr (RequestDeadline.wp_checkIo hG.timeless ?_ ?_)
      · simp only [Act.cont_ok]
        refine Act.wp_bind.mpr (Act.wp_attempt.mpr (Act.wp_mono (hs.flush l w) ?_))
        rintro (e | u) l' w' ⟨hl, hw⟩
        · by_cases ht : Tick.marks e
          · rw [hw.eq_of_tick ht]
            simp only [Act.stays_ghost, Act.cont_ok, if_pos ht]
            refine wp_tick hG.timeless ⟨hl, .refl w _⟩ ?_
            rw [← hl]
            exact ih l' w
          · simp only [Act.stays_ghost, Act.cont_ok, if_neg ht]
            exact Act.stays_ghost.mpr ⟨hl, hw⟩
        · exact Act.stays_ghost.mpr (Act.stays_ghost.mpr ⟨hl, hw⟩)
      · exact Act.stays_ghost.mpr ⟨rfl, .refl w _⟩

theorem WriteBudget.wp_flushProto {stream : Stream} (hs : stream.Recorded G) (fuel : Nat) (b : WriteBudget)
    (l : Local) (w : Wire) :
    Act.wp (watched G) (WriteBudget.flushProto stream fuel b) (fun r l' w' => l'.client = l.client ∧
      match r with
      | .ok () => w' = w.flush
      | .error e => FailedProto w e w') l w := by
  refine Act.wp_mapError.mpr (Act.wp_mono (wp_flush hG hs fuel b l w) ?_)
  rintro (e | u) l' w' ⟨hl, hw⟩
  · exact Act.stays_ghost.mpr ⟨hl, hw.classify⟩
  · exact Act.stays_ghost.mpr ⟨hl, hw⟩

end

end Xibalba
