import Xibalba.Client.Correctness.Frame
import Xibalba.Client.Session

/-!
# `Client.Correctness.Throughout` — what holds throughout a session

A session is a client's calls, and its calls are made of a few blocks: a new connection, one request, the body of a
response, the control queue, the sinks. An assertion that the blocks keep is kept by every session. What is asked of a
request's parameters, `P`, the callers establish and redirects preserve.

Layout:
* `Persistent`, what redirects preserve;
* `During`, what the blocks of one request keep, and the reader thread serving it;
* `Throughout`, what the blocks of a session keep: blocking calls, streaming responses, the reader thread;
* `Throughout.performAll`, any number of calls.
-/

namespace Xibalba

open Act (Keeps Sure Triple)

/-- The operations that only leave a note, for the callers or in the record. -/
def Op.isNote : Op → Bool
  | .storeStarted _ | .mark (.redirect _) | .mark (.taken _) | .mark .call => true
  | _ => false

/-- The interrupts the client itself brings: none, and the one of a request in the reader thread. -/
inductive Interrupt.IsOwn : Interrupt → Prop where
  | never : IsOwn .never
  | interruptOf (fuel : Nat) (t : Ticket) : IsOwn (ReaderWorker.interruptOf fuel t)

/-- A property of parameters that requests start with and redirects preserve. -/
structure Persistent (P : RequestParams → Prop) : Prop where
  built : ∀ b params, RequestBuilder.intoParams b = .ok params → P params
  plain : ∀ method path query body allowReplay, P ⟨method, path, query, body, [], allowReplay⟩
  advance : ∀ (state state' : RedirectState) origin status location hop,
    state.advance origin status location = .ok (state', hop) → P state.params → P state'.params

variable {σ ε : Type} {W : World Sys σ}

/-- An assertion that the blocks of a request keep, if its parameters satisfy `P`. -/
structure During (P : RequestParams → Prop) (I : W.Assertion Local) : Prop where
  hearing : Hearing I
  queueing : Queueing I
  started : ∀ t l s, I l s → W.guard s (.storeStarted t) ∧ ∀ r s', W.act s (.storeStarted t) r s' → I l s'
  reconnect : ∀ url deadline, Keeps I (Client.reconnectWithDeadline url deadline)
  send : ∀ fuel params deadline i, Interrupt.IsOwn i → P params → Keeps I (Client.sendHeadOnce fuel params deadline i)

/-- An assertion that the blocks of a session keep, if the parameters of its requests satisfy `P`. -/
structure Throughout (P : RequestParams → Prop) (I : W.Assertion Local) : Prop where
  hearing : Hearing I
  queueing : Queueing I
  note : ∀ op : Op, op.isNote → ∀ l s, I l s → W.guard s op ∧ ∀ r s', W.act s op r s' → I l s'
  reconnect : ∀ url deadline, Keeps I (Client.reconnectWithDeadline url deadline)
  send : ∀ fuel params deadline i, Interrupt.IsOwn i → P params → Keeps I (Client.sendHeadOnce fuel params deadline i)
  waiting : ∀ l s, I l s → ∀ r ∈ l.pending, P (ReaderWorker.paramsOf r)

/-- `I`, and `φ` of a result that is no failure. -/
def yielding (I : W.Assertion Local) {α : Type} (φ : α → Prop) (r : Except ε α) : W.Assertion Local where
  holds l s := I l s ∧ ∀ a, r = .ok a → φ a
  stable henv h := ⟨I.stable henv h.1, h.2⟩

theorem yielding_ok {I : W.Assertion Local} {α : Type} {φ : α → Prop} {a : α} {l : Local} {s : σ} (h : I l s) (ha : φ a) :
    yielding I φ (.ok a : Except ε α) l s := by
  refine ⟨h, fun a' ha' => ?_⟩
  cases ha'
  exact ha

/-- A failure yields nothing that has to satisfy `φ`. -/
theorem yielding_error {I : W.Assertion Local} {α : Type} {φ : α → Prop} {e : ε} {l : Local} {s : σ} (h : I l s) :
    yielding I φ (.error e) l s := by
  refine ⟨h, fun a' ha' => ?_⟩
  cases ha'

/-- `I`, and `P` of the parameters of the request that was found. -/
def finding (I : W.Assertion Local) (P : RequestParams → Prop) (next : Option AsyncRequest) : W.Assertion Local where
  holds l s := I l s ∧ ∀ r, next = some r → P (ReaderWorker.paramsOf r)
  stable henv h := ⟨I.stable henv h.1, h.2⟩

/-! ## One request -/

namespace During

variable {P : RequestParams → Prop} {I : W.Assertion Local} (hI : During P I)

include hI

/-- Asking one of the client's own interrupts. -/
theorem keeps_own {i : Interrupt} (hi : i.IsOwn) : Keeps I (i : M Empty Bool) := by
  cases hi with
  | never => exact Keeps.pure false
  | interruptOf fuel t => exact ReaderWorker.aside_interruptOf hI.queueing fuel t

theorem reconnectSameHost (deadline : RequestDeadline) : Keeps I (Client.reconnectSameHostWithDeadline deadline) :=
  Triple.seq Keeps.client fun _ => hI.reconnect _ deadline

/-- A dirty connection is replaced. -/
theorem ensureClean (deadline : RequestDeadline) : Keeps I (Client.ensureCleanWithDeadline deadline) :=
  Client.keeps_ensureClean (hI.reconnectSameHost deadline)

/-- A request may be sent twice, with a new connection in between. -/
theorem sendHead {i : Interrupt} (hi : i.IsOwn) (fuel : Nat) {params : RequestParams} (hP : P params)
    (deadline : RequestDeadline) : Keeps I (Client.sendHeadInterruptible fuel params deadline i) :=
  Client.keeps_replayed (hI.keeps_own hi) (hI.reconnectSameHost deadline) (hI.send fuel params deadline i hi hP)

/-! ### The reader thread serves it -/

theorem sendTerminal (fuel : Nat) (t : Ticket) (chunk : Chunk) {α : Type} (a : α) :
    Keeps I (do
      ChunkSink.sendTerminal fuel t chunk
      return a : M ε α) :=
  Triple.seq (ChunkSink.aside_sendTerminal hI.queueing fuel t chunk).keeps fun _ => Keeps.pure a

/-- The request of the reader thread, on a clean connection. -/
theorem dispatchClean (fuel : Nat) {request : AsyncRequest} (hP : P (ReaderWorker.paramsOf request))
    (deadline : RequestDeadline) :
    Keeps I (ReaderWorker.dispatchClean fuel request deadline : M ε (Option ReaderWorker.ResponseStart)) := by
  refine Triple.seq (Triple.call (hI.started request.ticket)) fun _ => ?_
  refine Triple.after (hI.queueing.modify fun _ => ⟨rfl, fun _ hr => hr⟩) fun _ => ?_
  refine Triple.seq (Keeps.attempt (hI.sendHead (.interruptOf fuel request.ticket) fuel hP deadline)) fun sent => ?_
  cases sent with
  | ok head => exact Keeps.pure _
  | error e =>
      refine Triple.seq Keeps.get fun l => ?_
      dsimp only
      split
      · exact hI.sendTerminal fuel _ _ _
      · exact hI.sendTerminal fuel _ _ _

theorem dispatch (fuel : Nat) {request : AsyncRequest} (hP : P (ReaderWorker.paramsOf request)) (deadline : RequestDeadline) :
    Keeps I (ReaderWorker.dispatch fuel request deadline : M ε (Option ReaderWorker.ResponseStart)) := by
  refine Triple.after (ControlQueue.aside_pollCancel hI.queueing fuel _ fuel false) fun stop => ?_
  split
  · exact hI.sendTerminal fuel _ _ _
  refine Triple.seq (Keeps.attempt (hI.ensureClean .NONE)) fun clean => ?_
  cases clean with
  | error e => exact hI.sendTerminal fuel _ _ _
  | ok u => exact hI.dispatchClean fuel hP deadline

/-- **Serving one request** in the reader thread. -/
theorem serve (fuel : Nat) {request : AsyncRequest} (hP : P (ReaderWorker.paramsOf request)) :
    Keeps I (ReaderWorker.serve fuel request : M ε Unit) := by
  refine Triple.seq Keeps.client fun c => ?_
  refine Triple.seq (RequestDeadline.keeps_after hI.hearing.listening _) fun deadline => ?_
  refine Triple.seq (hI.dispatch fuel hP deadline) fun start => ?_
  cases start with
  | none => exact Keeps.pure _
  | some start => exact ReaderWorker.queueing_streamBody hI.hearing hI.queueing fuel request start deadline

end During

namespace Throughout

variable {P : RequestParams → Prop} {I : W.Assertion Local} (hI : Throughout P I)

include hI

theorem mark {op : Op} (hop : op.isNote) : Keeps I (Act.call (S := Sys) op : M ε op.Ret) :=
  Triple.call fun l s h => hI.note op hop l s h

/-- What the blocks of a session keep, those of one request keep. -/
theorem during : During P I :=
  ⟨hI.hearing, hI.queueing, fun _ => hI.note _ rfl, hI.reconnect, hI.send⟩

/-! ## Blocking calls -/

theorem modifyClient {f : Client → Client} (hf : ∀ c, (f c).config = c.config ∧ (f c).origin = c.origin) :
    Keeps I (M.modifyClient f : M ε Unit) :=
  hI.hearing.listening.modifyClient f hf

/-- The body of a response to a blocking call. -/
theorem readFullBody (fuel : Nat) (framing : BodyFraming) (tailOffset : Nat) (deadline : RequestDeadline) :
    Keeps I (Client.readFullBody fuel framing tailOffset deadline) := by
  have hdirty : ∀ b : Bool, Keeps I (M.modifyClient fun c => { c with dirty := b } : M Error Unit) :=
    fun b => hI.modifyClient fun _ => ⟨rfl, rfl⟩
  refine Triple.seq Keeps.client fun c => Triple.seq (SilenceBudget.keeps_withDeadline hI.hearing.listening _ _) fun budget => ?_
  have hread := BodyCollector.listening_read hI.hearing.listening hI.hearing.keeps_raw c.config.maxResponseBody fuel budget
    framing (c.headBuf.drop tailOffset)
  refine Triple.seq (Keeps.attempt hread) fun r => ?_
  match r with
  | .ok (data, reusable) =>
      cases reusable with
      | true => exact Triple.seq (hdirty false) fun _ => Keeps.pure _
      | false => exact Triple.seq (hdirty true) fun _ => Keeps.pure _
  | .error e => exact Triple.seq (hdirty true) fun _ => Keeps.throw _

theorem sendOne (fuel : Nat) {params : RequestParams} (hP : P params) (deadline : RequestDeadline) :
    Keeps I (Client.sendOne fuel params deadline) := by
  refine Triple.seq (hI.during.ensureClean deadline) fun _ => Triple.seq (hI.during.sendHead .never fuel hP deadline) fun sent => ?_
  refine Triple.seq (deadline.keeps_check hI.hearing.listening) fun _ => ?_
  refine Triple.seq (hI.readFullBody fuel _ _ deadline) fun body => ?_
  split
  · exact Triple.seq (hI.modifyClient fun _ => ⟨rfl, rfl⟩) fun _ => Keeps.pure _
  · exact Keeps.pure _

/-- A redirect that is followed leaves parameters that are as good. -/
theorem follow (hP : Persistent P) {state : RedirectState} (hstate : P state.params) (deadline : RequestDeadline)
    (status : StatusCode) (location : Bytes) :
    Triple I (Client.follow state deadline status location) (yielding I fun state' => P state'.params) := by
  have hmark : Keeps I (M.mark (.redirect location) : M Error Unit) := hI.mark rfl
  refine Triple.lookClient fun l₀ => ?_
  have hadvance : Triple (I.at l₀) (Act.ofExcept (state.advance l₀.client.origin status location) : M Error _)
      (yielding I fun next => state.advance l₀.client.origin status location = .ok next) :=
    Triple.ofExcept fun l s h => ⟨h.2, fun _ hr => hr⟩
  refine Triple.bind hadvance (fun next => ?_) fun e l s h => yielding_error h.1
  refine Triple.given (φ := P next.1.params) (fun l s h => ?_) fun hnext => ?_
  · exact hP.advance state next.1 _ _ _ next.2 (h.2 next rfl) hstate
  refine Triple.conseq (P := I) ?_ (fun _ _ h => h.1) fun _ _ _ h => h
  obtain ⟨state', hop⟩ := next
  cases hop with
  | sameOrigin =>
      refine Triple.bind hmark (fun _ => ?_) fun e l s h => yielding_error h
      exact Triple.pure fun l s h => yielding_ok h hnext
  | reconnect target =>
      have hgo : Triple I (do
          let url ← Act.ofExcept ((Url.parse target).mapError Error.urlParse)
          M.mark (.redirect location)
          Client.reconnectWithDeadline url deadline
          return state') (yielding I fun state' => P state'.params) := by
        refine Triple.bind (R := fun _ => I) (Keeps.ofExcept _) (fun url => ?_) fun e l s h => yielding_error h
        refine Triple.bind hmark (fun _ => ?_) fun e l s h => yielding_error h
        refine Triple.bind (hI.reconnect url deadline) (fun _ => ?_) fun e l s h => yielding_error h
        exact Triple.pure fun l s h => yielding_ok h hnext
      dsimp only
      split
      · exact Triple.bind (R := fun _ => I) (Keeps.throw _) (fun _ => hgo) fun e l s h => yielding_error h
      · exact hgo

/-- The hops of `execute`: the parameters of each come from those of the hop before. -/
theorem executeLoop (hP : Persistent P) (fuel hopsLeft : Nat) (deadline : RequestDeadline) {state : RedirectState}
    (hstate : P state.params) : Keeps I (Client.executeLoop fuel deadline hopsLeft state) := by
  induction hopsLeft generalizing state with
  | zero =>
      rw [Client.executeLoop_eq]
      refine Triple.seq (hI.sendOne fuel hstate deadline) fun response => ?_
      dsimp only
      split
      · exact Keeps.pure _
      · exact Keeps.throw _
  | succ hopsLeft ih =>
      rw [Client.executeLoop_eq]
      refine Triple.seq (hI.sendOne fuel hstate deadline) fun response => ?_
      dsimp only
      split
      · exact Keeps.pure _
      · refine Triple.bind (hI.follow hP hstate deadline _ _) (fun state' => ?_) fun e l s h => h.1
        refine Triple.given (φ := P state'.params) (fun l s h => h.2 state' rfl) fun hstate' => ?_
        exact Triple.conseq (ih hstate') (fun _ _ h => h.1) fun _ _ _ h => h

/-- **A blocking call.** -/
theorem execute (hP : Persistent P) (fuel : Nat) {params : RequestParams} (hparams : P params) :
    Keeps I (Client.execute fuel params) := by
  refine Triple.seq Keeps.client fun c => ?_
  refine Triple.seq (RequestDeadline.keeps_after hI.hearing.listening _) fun deadline => ?_
  exact hI.executeLoop hP fuel _ deadline hparams

omit hI in
/-- The parameters a builder makes. -/
theorem intoParams (hP : Persistent P) (builder : RequestBuilder) {α : Type} {x : RequestParams → M Error α}
    (hx : ∀ params, P params → Keeps I (x params)) : Keeps I (Act.ofExcept builder.intoParams >>= x) := by
  have hbuilt : Triple I (Act.ofExcept builder.intoParams : M Error RequestParams) (yielding I P) :=
    Triple.ofExcept fun l s h => ⟨h, fun params hr => hP.built builder params hr⟩
  refine Triple.bind hbuilt (fun params => ?_) fun e l s h => h.1
  refine Triple.given (φ := P params) (fun l s h => h.2 params rfl) fun hparams => ?_
  exact Triple.conseq (hx params hparams) (fun _ _ h => h.1) fun _ _ _ h => h

/-! ## Streaming responses -/

theorem executeStreaming (fuel : Nat) {params : RequestParams} (hparams : P params) :
    Keeps I (Client.executeStreaming fuel params) := by
  refine Triple.seq Keeps.client fun c => ?_
  refine Triple.seq (RequestDeadline.keeps_after hI.hearing.listening _) fun deadline => ?_
  refine Triple.seq (hI.during.ensureClean deadline) fun _ => Triple.seq (hI.during.sendHead .never fuel hparams deadline) fun sent => ?_
  refine Triple.seq Keeps.client fun c => Triple.seq (hI.modifyClient fun _ => ⟨rfl, rfl⟩) fun _ => ?_
  exact Triple.after (StreamingBody.sure_new hI.hearing.listening _ _ _ _ _) fun _ => Keeps.pure _

/-- Any reads of a streaming body. -/
theorem readAll (fuel : Nat) (sizes : List Nat) (b : StreamingBody) :
    Keeps I (b.readAll fuel sizes : M ε StreamingBody) := by
  have hs : Triple I (Stream.raw.read HEAD_BUF_SIZE) (onMark I I) :=
    Triple.conseq (hI.hearing.keeps_raw _) (fun _ _ h => h) fun _ _ _ h => ⟨h, fun _ _ _ => h⟩
  induction sizes generalizing b with
  | nil => exact Keeps.pure b
  | cons size sizes ih =>
      refine Triple.after (StreamingBody.sure_read hI.hearing.listening hs fuel size b) fun o => ?_
      refine Triple.conseq (P := I) ?_ (fun _ _ h => h.1) fun _ _ _ h => h
      obtain ⟨_ | bytes, b'⟩ := o
      · exact Keeps.pure b'
      · exact ih b'

theorem streaming (hP : Persistent P) (fuel : Nat) (builder : RequestBuilder) (reads : List Nat) :
    Keeps I (Call.streaming fuel builder reads) := by
  refine Triple.seq (intoParams hP builder fun params hparams => hI.executeStreaming fuel hparams) fun sent => ?_
  exact Triple.seq (hI.readAll fuel reads sent.2) fun body => hI.modifyClient fun _ => ⟨rfl, rfl⟩

/-! ## The reader thread -/

theorem nextRequest (turns : Nat) :
    Sure I (ControlQueue.nextRequest turns : M ε (Option AsyncRequest)) (finding I P) := by
  have hnone : ∀ l s, I l s → finding I P none l s := by
    refine fun l s h => ⟨h, fun r hr => ?_⟩
    cases hr
  refine ControlQueue.queueing_nextRequest hI.queueing hnone (fun request => ?_) turns
  have hshared : Sure (offered I request) (M.storeCancelAny false : M ε Unit) fun _ => offered I request :=
    Triple.call fun l s h => hI.queueing.shared _ rfl { l with pending := l.pending ++ [request] } s h
  have htaken : Sure (offered I request) (M.mark (.taken request.ticket) : M ε Unit) fun _ => offered I request :=
    Triple.call fun l s h => hI.note _ rfl { l with pending := l.pending ++ [request] } s h
  refine Triple.after hshared fun _ => Triple.after htaken fun _ => Triple.pure fun l s h => ⟨?_, fun r hr => ?_⟩
  · exact hI.queueing.own { l with pending := l.pending ++ [request] } s l rfl (fun r hr => List.mem_append_left _ hr) h
  · cases hr
    exact hI.waiting _ s h request (List.mem_append_right _ (List.mem_singleton_self _))

/-- **The reader thread**, for as long as it runs. -/
theorem run (fuel turns : Nat) : Keeps I (ReaderWorker.run fuel turns : M ε Unit) := by
  induction turns with
  | zero => exact Triple.hang
  | succ turns ih =>
      refine Triple.after (hI.nextRequest fuel) fun next => ?_
      cases next with
      | none => exact Triple.pure fun l s h => h.1
      | some request =>
          refine Triple.given (φ := P (ReaderWorker.paramsOf request)) (fun l s h => h.2 request rfl) fun hP => ?_
          refine Triple.conseq (P := I) ?_ (fun _ _ h => h.1) fun _ _ _ h => h
          refine Triple.seq (hI.during.serve fuel hP) fun _ => ?_
          exact Triple.after (R := fun _ : Unit => I) (hI.queueing.call rfl) fun _ => ih

/-! ## Sessions -/

/-- **One call** of a session. -/
theorem perform (hP : Persistent P) (fuel : Nat) (call : Call) : Keeps I (call.perform fuel : M ε Unit) := by
  refine Triple.seq (hI.mark rfl) fun _ => ?_
  have hattempt : ∀ {α : Type} {x : M Error α}, Keeps I x → Keeps I (do let _ ← Act.attempt x : M ε Unit) :=
    fun hx => Triple.seq (Keeps.attempt hx) fun _ => Keeps.pure _
  cases call with
  | send builder => exact hattempt (intoParams hP builder fun params hparams => hI.execute hP fuel hparams)
  | request method path query body => exact hattempt (hI.execute hP fuel (hP.plain _ _ _ _ _))
  | sendStreaming builder reads => exact hattempt (hI.streaming hP fuel builder reads)
  | reader => exact hI.run fuel fuel

/-- **Any number of calls** keep what their blocks keep. -/
theorem performAll (hP : Persistent P) (fuel : Nat) (calls : List Call) :
    Keeps I (Xibalba.performAll fuel calls : M ε Unit) := by
  induction calls with
  | nil => exact Keeps.pure _
  | cons call calls ih => exact Triple.seq (hI.perform hP fuel call) fun _ => ih

end Throughout

end Xibalba
