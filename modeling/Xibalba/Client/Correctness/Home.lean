import Xibalba.Client.Correctness.Redirects
import Xibalba.Client.Correctness.Isolation

/-!
# `Client.Correctness.Home` — where the calls of a session start

A client is connected to one origin, and its owner writes the headers of every call for that origin. A redirect
that a call follows elsewhere moves the client for good, though: the next call starts where the last one ended,
with all its headers. `calls_start_at_home` says that nothing else does this: as long as no call begins after a
redirect has taken the client away, every call starts at home, and credentials are written nowhere else.

Layout:
* the monitor `HomeFirst`;
* `Steady`, what streaming calls and the reader thread keep, since they follow no redirects;
* `calls_start_at_home`.
-/

namespace Xibalba

/-- When each of the calls began, the redirects of the calls before it had left the client at home, or had taken
    it back there. -/
def Returned (home : Origin) (log : List Note) : Prop :=
  ∀ earlier, (.called :: earlier) <:+ log → landing home earlier = home

/-- The redirects of the calls before this one had led back home. -/
theorem Returned.before {home : Origin} {w : Wire} (h : Returned home w.log) : landing home w.before = home := by
  unfold Wire.before
  cases hrest : w.log.dropWhile (· ≠ .called) with
  | nil => rfl
  | cons x earlier =>
      have hx : x = .called := by
        have hnot := List.head?_dropWhile_not (· ≠ .called) w.log
        rw [hrest] at hnot
        simpa using hnot
      subst hx
      refine h earlier ?_
      rw [← hrest]
      exact List.dropWhile_suffix _

/-- A request goes home: the first request of a call does, and one that does not has no credentials. -/
def GoesHome (home : Origin) (w : Wire) (request : Request) : Prop :=
  ∃ c cs, w.connections = c :: cs ∧ (w.followed = 0 → c.origin = home) ∧ (c.origin = home ∨ request.Bare)

/-- What is required of the operations: each request goes home, as long as every call began there. -/
def HomeFirst (home : Origin) (w : Wire) : Op → Prop
  | .mark (.exchange _ request) => Returned home w.log → GoesHome home w request
  | _ => True

/-- The requirement is one that the calls meet, on any connection they bind. -/
theorem permits_homeFirst (home start : Origin) (config : Config) : Permits home start config (HomeFirst home) where
  lenient w op hop := by
    cases op with
    | mark m => cases hop
    | _ => trivial
  response _ _ _ := trivial
  redirect _ _ _ := trivial
  connect _ _ _ _ _ := trivial
  exchange {params n client w} h := by
    intro hret
    have hstart : start = home := h.begun.trans hret.before
    obtain ⟨c, cs, hw, ho⟩ := h.latest
    refine ⟨c, cs, hw, fun hfirst => ?_, ?_⟩
    · rw [ho, h.stayed (h.first (h.followed.symm.trans hfirst)), hstart]
    · by_cases hleft : w.Left start
      · exact .inr (Client.bare_requestFor (h.bare hleft))
      · exact .inl (by rw [ho, h.stayed hleft, hstart])

/-! ## Calls that follow no redirects -/

/-- What holds during a call that follows no redirects, whatever it sends. -/
def Steady (home start : Origin) (config : Config) (client : Client) (w : Wire) : Prop :=
  ∀ params, Bound home start config params 0 client w

section

variable {home start : Origin} {config : Config} {client client' : Client} {w : Wire}

/-- A client bound to its origin that followed no redirect is steady. -/
theorem Bound.steady {params : RequestParams} (h : Bound home start config params 0 client w) :
    Steady home start config client w :=
  fun _ => { h with bare := fun hs => absurd hs (h.first rfl) }

namespace Steady

theorem placed (h : Steady home start config client w) : Placed home config client w :=
  (h ⟨.get, [], none, none, [], false⟩).toPlaced

/-- Bytes that arrive change nothing. -/
theorem receive (h : Steady home start config client w) (bs : Bytes) : Steady home start config client (w.receive bs) :=
  fun params => (h params).receive (.refl _) bs

theorem fire (h : Steady home start config client w) (f : Bool) : Steady home start config client (w.fire f) :=
  fun params => (h params).fire f

/-- Only the origin and the configuration of the client matter. -/
theorem same (h : Steady home start config client w) (hsame : Client.Same client client') :
    Steady home start config client' w :=
  fun params => (h params).same hsame (h params).latest rfl

end Steady

/-- A call begins: the client is where the call starts. -/
theorem Placed.steady (h : Placed home config client w) :
    Steady home client.origin config client (w.note .called) := by
  have hleft : ¬ (w.note .called).Left client.origin := by
    rintro ⟨url, e, hmem, -⟩
    cases hmem
  intro params
  exact { configured := h.configured, latest := h.latest, landed := h.landed, begun := h.landed, fixed := fun _ => rfl,
          stayed := fun _ => rfl, bare := fun hs => absurd hs hleft, first := fun _ => hleft, followed := rfl }

end

section

variable {ε : Type} {home start : Origin} {config : Config}

/-- A program that keeps the client steady, however it ends. -/
abbrev KeepsSteady (home start : Origin) (config : Config) {α : Type} (x : M ε α) : Prop :=
  Keeping (HomeFirst home) (Steady home start config) x

theorem lenient_homeFirst (home : Origin) : Lenient (HomeFirst home) := (permits_homeFirst home home .default).lenient

namespace Client

theorem steady_modify {f : Client → Client} (hf : ∀ c, Same c (f c)) :
    KeepsSteady home start config (M.modifyClient f : M ε Unit) :=
  fun _ _ h => wp_modifyClient.mpr (h.same (hf _))

/-- A dirty connection is replaced by one to the same origin. -/
theorem steady_ensureClean (deadline : RequestDeadline) :
    KeepsSteady home start config (ensureCleanWithDeadline deadline) := by
  intro l w h
  have hbound := h ⟨.get, [], none, none, [], false⟩
  refine Act.wp_mono (wp_ensureClean_bound (permits_homeFirst home start config) deadline hbound) ?_
  intro r l' w' hr
  exact hr.1.steady

/-- A request outside of `execute` goes to the origin the client is bound to. -/
theorem steady_sendHeadInterruptible {i : Interrupt} (hi : i.Quiet (HomeFirst home)) (fuel : Nat)
    (params : RequestParams) (deadline : RequestDeadline) :
    KeepsSteady home start config (sendHeadInterruptible fuel params deadline i) := by
  intro l w h
  refine Act.wp_mono
    (wp_sendHeadInterruptible_bound (permits_homeFirst home start config) hi fuel deadline (h params)) ?_
  intro r l' w' hr
  exact hr.1.1.steady

end Client

namespace StreamingBody

/-- A body that can be read. -/
def Readable (b : StreamingBody) : Prop := ∃ framing all out, Fed framing all out b

theorem steady_read {stream : Stream} (hs : stream.Recorded (HomeFirst home)) (fuel size : Nat) {b : StreamingBody}
    (hb : b.Readable) {l : Local} {w : Wire} (h : Steady home start config l.client w) :
    Act.wp (watched (HomeFirst home)) (b.read stream fuel size : M ε (Outcome Bytes)) (fun r l' w' =>
      Steady home start config l'.client w' ∧ ∃ o, r = .ok o ∧ ∀ bytes, o.1 = .ok bytes → o.2.Readable) l w := by
  obtain ⟨framing, all, out, hfed⟩ := hb
  refine Act.wp_mono (wp_read (draws_recorded (lenient_homeFirst home) hs fuel) size hfed l w) ?_
  rintro r l' w' ⟨hl, o, rfl, pieces, ⟨rfl, hk⟩ | ⟨e, b₁, rfl, hf, -⟩⟩
  · rw [drawn_recorded, hl]
    refine ⟨h.receive _, o, rfl, fun bytes ho => ?_⟩
    obtain ⟨_ | _, b'⟩ := o
    · cases ho
    · exact ⟨framing, _, _, hk.1⟩
  · rw [drawn_recorded] at hf
    obtain ⟨f, rfl, -⟩ := hf
    rw [hl]
    exact ⟨(h.receive _).fire f, _, rfl, nofun⟩

/-- A body that is streamed begins with what was read behind the head. -/
theorem steady_new {framing : BodyFraming} {tail : Bytes} {silence : Duration} {reusable : Bool} {l : Local} {w : Wire}
    (h : Steady home start config l.client w) :
    Act.wp (watched (HomeFirst home)) (StreamingBody.new true framing tail silence reusable : M ε StreamingBody)
      (fun r l' w' => Steady home start config l'.client w' ∧ ∃ b, r = .ok b ∧ b.Readable) l w := by
  simp only [StreamingBody.new, SilenceBudget.new, Act.wp_bind]
  refine SilenceBudget.wp_withDeadline (lenient_homeFirst home).timeless fun budget hbudget => ?_
  exact Act.stays_ghost.mpr ⟨h, _, rfl, framing, tail, [], fed_new hbudget rfl⟩

theorem steady_readAll (fuel : Nat) (sizes : List Nat) {b : StreamingBody} (hb : b.Readable) :
    KeepsSteady home start config (b.readAll fuel sizes : M ε StreamingBody) := by
  have hs := Stream.recorded_raw (lenient_homeFirst home)
  induction sizes generalizing b with
  | nil => exact .pure b
  | cons size sizes ih =>
      intro l w h
      unfold readAll
      refine Act.wp_bind.mpr (Act.wp_mono (steady_read hs fuel size hb h) ?_)
      rintro _ l' w' ⟨hsteady, ⟨_ | bytes, b'⟩, rfl, hb'⟩
      · exact Act.stays_ghost.mpr hsteady
      · exact Act.cont_ok.mpr (ih (hb' bytes rfl) l' w' hsteady)

end StreamingBody

/-- A streaming call: one request, and any reads of its body. -/
theorem Call.steady_streaming (fuel : Nat) (builder : RequestBuilder) (reads : List Nat) :
    KeepsSteady home start config (streaming fuel builder reads) := by
  have hG := lenient_homeFirst home
  intro l w h
  refine Act.wp_bind.mpr (Act.wp_bind.mpr (Act.stays_ghost.mpr ?_))
  rcases builder.intoParams with e | params
  · exact Act.stays_ghost.mpr (Act.stays_ghost.mpr h)
  refine Act.cont_ok.mpr ?_
  simp only [Client.executeStreaming, Act.wp_bind, wp_client, Act.cont_ok]
  refine RequestDeadline.wp_after hG.timeless fun deadline => ?_
  simp only [Act.cont_ok, Act.wp_bind]
  refine Act.wp_mono (Client.steady_ensureClean deadline l w h) ?_
  rintro (e | u) l₁ w₁ h₁
  · exact Act.stays_ghost.mpr (Act.stays_ghost.mpr h₁)
  simp only [Act.cont_ok, Act.wp_bind]
  refine Act.wp_mono (Client.steady_sendHeadInterruptible Interrupt.quiet_never fuel params deadline l₁ w₁ h₁) ?_
  rintro (e | ⟨data, framing, headEnd⟩) l₂ w₂ h₂
  · exact Act.stays_ghost.mpr (Act.stays_ghost.mpr h₂)
  simp only [Act.cont_ok, Act.wp_bind, wp_client, wp_modifyClient]
  refine Act.wp_mono (StreamingBody.steady_new (h₂.same ⟨rfl, rfl, rfl⟩)) ?_
  rintro _ l₃ w₃ ⟨h₃, b, rfl, hb⟩
  refine Act.cont_ok.mpr (Act.stays_ghost.mpr (Act.cont_ok.mpr ?_))
  refine Act.wp_bind.mpr (Act.wp_mono (StreamingBody.steady_readAll fuel reads hb l₃ w₃ h₃) ?_)
  rintro (e | body) l₄ w₄ h₄
  · exact Act.stays_ghost.mpr h₄
  · exact Act.cont_ok.mpr (wp_modifyClient.mpr (h₄.same ⟨rfl, rfl, rfl⟩))

/-! ## The reader thread -/

namespace ReaderWorker

open ChunkSink (neutral_sendInner neutral_sendTerminal)

theorem steady_dispatch (fuel : Nat) (request : AsyncRequest) (deadline : RequestDeadline) :
    KeepsSteady home start config (dispatch fuel request deadline : M ε (Option ResponseStart)) := by
  have hG := lenient_homeFirst home
  have hterminal : ∀ chunk, KeepsSteady home start config (do
      ChunkSink.sendTerminal fuel request.ticket chunk
      return none : M ε (Option ResponseStart)) :=
    fun chunk => .bind (.neutral (neutral_sendTerminal hG fuel _ chunk)) fun _ => .pure _
  refine .bind (.neutral (ControlQueue.neutral_pollCancel hG fuel _ fuel false)) fun stop => ?_
  split
  · exact hterminal _
  refine .bind (.attempt (Client.steady_ensureClean _)) fun clean => ?_
  cases clean with
  | error e => exact hterminal _
  | ok u =>
      have hi := quiet_interruptOf hG fuel request.ticket
      refine .bind (.neutral (.call hG rfl fun _ _ => rfl)) fun _ => .bind (.neutral (.modify fun _ => rfl)) fun _ => ?_
      refine .bind (.attempt (Client.steady_sendHeadInterruptible hi fuel _ deadline)) fun sent => ?_
      cases sent with
      | ok head => exact .pure _
      | error e =>
          refine .bind (.neutral .get) fun latch => ?_
          dsimp only
          split
          · exact hterminal _
          · exact hterminal _

/-- The chunks of a body are read and delivered, and nothing is sent. -/
theorem steady_streamChunks (fuel : Nat) (t : Ticket) (turns : Nat) {b : StreamingBody} (hb : b.Readable) :
    KeepsSteady home start config (streamChunks fuel t turns b : M ε StreamingBody) := by
  have hG := lenient_homeFirst home
  have hs := Stream.recorded_interruptible hG (quiet_interruptOf hG fuel t)
  have hterminal : ∀ chunk (b : StreamingBody), KeepsSteady home start config (do
      ChunkSink.sendTerminal fuel t chunk
      return b : M ε StreamingBody) :=
    fun chunk _ => .bind (.neutral (neutral_sendTerminal hG fuel t chunk)) fun _ => .pure _
  induction turns generalizing b with
  | zero => exact .hang
  | succ turns ih =>
      intro l w h
      unfold streamChunks
      refine Act.wp_bind.mpr (Act.wp_mono (StreamingBody.steady_read hs fuel HEAD_BUF_SIZE hb h) ?_)
      rintro _ l' w' ⟨hsteady, ⟨e | bytes, b'⟩, rfl, hb'⟩
      · simp only [Act.cont_ok]
        split
        · exact hterminal _ b' l' w' hsteady
        · exact hterminal _ b' l' w' hsteady
      · simp only [Act.cont_ok]
        split
        · exact hterminal _ b' l' w' hsteady
        · refine Neutral.wp_bind (neutral_sendInner hG t _ true fuel) fun sent l'' hl => ?_
          rw [← hl] at hsteady
          cases sent with
          | error why => exact Act.stays_ghost.mpr hsteady
          | ok u => exact ih (hb' bytes rfl) l'' w' hsteady

theorem steady_drainErrorBody (fuel : Nat) (t : Ticket) (framing : BodyFraming) (tail : Bytes)
    (deadline : RequestDeadline) (reuse : ConnectionReuse) :
    KeepsSteady home start config (drainErrorBody fuel t framing tail deadline reuse : M ε Unit) := by
  have hG := lenient_homeFirst home
  have hs := Stream.recorded_interruptible hG (quiet_interruptOf hG fuel t)
  have hterminal : ∀ chunk, KeepsSteady home start config (ChunkSink.sendTerminal fuel t chunk : M ε Unit) :=
    fun chunk => .neutral (neutral_sendTerminal hG fuel t chunk)
  have hread : ∀ limit budget, KeepsSteady home start config
      (BodyCollector.read (.interruptible (interruptOf fuel t)) limit fuel budget framing tail) := by
    intro limit budget l w h
    refine Act.wp_mono (BodyCollector.wp_read hG hs _ fuel budget framing tail l w) ?_
    rintro r l' w' ⟨hl, bs, hr⟩
    show Steady home start config l'.client w'
    rw [hl]
    rcases r with e | ⟨body, reusable⟩
    · obtain ⟨-, f, rfl, -⟩ := hr
      exact (h.receive bs).fire f
    · obtain ⟨rfl, -⟩ := hr
      exact h.receive bs
  refine .bind .client fun c => .bind (fun l w h => SilenceBudget.wp_withDeadline hG.timeless fun _ _ => h) fun budget => ?_
  refine .bind (.attempt (hread _ budget)) fun result => ?_
  match result with
  | .error e =>
      refine .bind (.neutral .get) fun latch => ?_
      split
      · exact hterminal _
      · exact hterminal _
  | .ok (body, reusable) =>
      refine .bind (Client.steady_modify fun _ => ⟨rfl, rfl, rfl⟩) fun _ => ?_
      split
      · exact hterminal _
      · refine .bind (.neutral (neutral_sendInner hG t _ true fuel)) fun sent => ?_
        cases sent with
        | error why => exact .pure _
        | ok u => exact hterminal _

/-- The body of a response in the reader thread, streamed or drained. -/
theorem steady_streamBody (fuel : Nat) (request : AsyncRequest) (response : ResponseStart) (deadline : RequestDeadline) :
    KeepsSteady home start config (streamBody fuel request response deadline : M ε Unit) := by
  have hG := lenient_homeFirst home
  intro l w h
  simp only [streamBody, Act.wp_bind, wp_modifyClient, Act.cont_ok]
  have h : Steady home start config { l.client with dirty := true } w := h.same ⟨rfl, rfl, rfl⟩
  refine Act.wp_bind.mp (Neutral.wp_bind (neutral_sendInner hG _ _ true fuel) fun sent l₁ hl₁ => ?_)
  have h₁ : Steady home start config l₁.client w := by
    rw [hl₁]
    exact h
  have hdirty : l₁.client.dirty = true := by rw [hl₁]
  cases sent with
  | error why => exact Act.stays_ghost.mpr h₁
  | ok u =>
      refine Neutral.wp_bind (.modify fun _ => rfl) fun _ l₂ hl₂ => ?_
      rw [← hl₂] at h₁ hdirty
      simp only [Act.wp_bind, wp_client, Act.cont_ok]
      split
      · simp only [streamSuccess, Act.wp_bind, wp_client, Act.cont_ok, hdirty]
        refine Act.wp_mono (StreamingBody.steady_new h₁) ?_
        rintro _ l₃ w₃ ⟨h₃, b, rfl, hb⟩
        refine Act.cont_ok.mpr (Act.wp_bind.mpr (Act.wp_mono (steady_streamChunks fuel _ fuel hb l₃ w₃ h₃) ?_))
        rintro (e | body) l₄ w₄ h₄
        · exact Act.stays_ghost.mpr h₄
        · exact Act.cont_ok.mpr (wp_modifyClient.mpr (h₄.same ⟨rfl, rfl, rfl⟩))
      · exact steady_drainErrorBody fuel _ _ _ deadline _ l₂ w h₁

/-- **The reader thread** follows no redirects. -/
theorem steady_run (fuel turns : Nat) : KeepsSteady home start config (run fuel turns : M ε Unit) := by
  have hG := lenient_homeFirst home
  induction turns with
  | zero => exact .hang
  | succ turns ih =>
      unfold run
      refine .bind (.neutral (ControlQueue.neutral_nextRequest hG (fun _ _ => trivial) fuel)) fun next => ?_
      cases next with
      | none => exact .pure _
      | some request =>
          have hserve : KeepsSteady home start config (serve fuel request : M ε Unit) := by
            refine .bind .client fun c => .bind (fun l w h => RequestDeadline.wp_after hG.timeless fun _ => h) fun deadline => ?_
            refine .bind (steady_dispatch fuel request deadline) fun response => ?_
            cases response with
            | none => exact .pure _
            | some response => exact steady_streamBody fuel request response deadline
          exact .bind hserve fun _ => .bind (.neutral (.call hG rfl fun _ _ => rfl)) fun _ => ih

end ReaderWorker

/-! ## Sessions -/

/-- **Where a session's requests go.** Every call leaves the client where its connection is. -/
theorem placed_perform (fuel : Nat) (call : Call) :
    Keeping (HomeFirst home) (Placed home config) (call.perform fuel : M ε Unit) := by
  intro l w h
  have hG := permits_homeFirst home l.client.origin config
  have hexecute : ∀ params, Act.wp (watched (HomeFirst home)) (Client.execute fuel params)
      (fun _ l' w' => Placed home config l'.client w') l (w.note .called) := by
    intro params
    exact Act.wp_mono (Client.wp_execute hG fuel (h.steady params)) fun _ _ _ hr => hr.1
  have hsteady : ∀ {ε α : Type} {x : M ε α}, KeepsSteady home l.client.origin config x →
      Act.wp (watched (HomeFirst home)) x (fun _ l' w' => Placed home config l'.client w') l (w.note .called) := by
    intro ε α x hx
    exact Act.wp_mono (hx l _ h.steady) fun _ _ _ hr => hr.placed
  refine Act.wp_bind.mpr (wp_mark.mpr ⟨trivial, Act.cont_ok.mpr ?_⟩)
  cases call with
  | send builder =>
      refine Act.wp_bind.mpr (Act.wp_attempt.mpr (Act.wp_bind.mpr (Act.stays_ghost.mpr ?_)))
      rcases builder.intoParams with e | params
      · exact Act.stays_ghost.mpr (Act.stays_ghost.mpr (Act.stays_ghost.mpr h.steady.placed))
      · refine Act.cont_ok.mpr (Act.wp_mono (hexecute params) fun _ _ _ hr => ?_)
        exact Act.stays_ghost.mpr (Act.stays_ghost.mpr hr)
  | request method path query body =>
      refine Act.wp_bind.mpr (Act.wp_attempt.mpr (Act.wp_mono (hexecute _) fun _ _ _ hr => ?_))
      exact Act.stays_ghost.mpr (Act.stays_ghost.mpr hr)
  | sendStreaming builder reads =>
      exact hsteady (.bind (.attempt (Call.steady_streaming fuel builder reads)) fun _ => .pure _)
  | reader => exact hsteady (ReaderWorker.steady_run fuel fuel)

/-- Any number of calls leave the client placed. -/
theorem placed_performAll (fuel : Nat) (calls : List Call) :
    Keeping (HomeFirst home) (Placed home config) (performAll fuel calls : M ε Unit) := by
  induction calls with
  | nil => exact .pure _
  | cons call calls ih => exact .bind (placed_perform fuel call) fun _ => ih

end

/-- **A session** meets the requirement, from the first connection on. -/
theorem wp_session_home (fuel : Nat) {urlBytes : Bytes} {url : Url} (hurl : Url.parse urlBytes = .ok url)
    (config : Config) (maxHeadSize : Nat) (calls : List Call) (l : Local) :
    Act.wp (watched (HomeFirst (.fromUrl url))) (session fuel urlBytes config maxHeadSize calls) (fun _ _ _ => True) l
      ⟨[], false, []⟩ := by
  have hG := lenient_homeFirst (.fromUrl url)
  refine Act.wp_bind.mpr (Act.wp_bind.mpr (Act.stays_ghost.mpr ?_))
  rcases config.validate with e | u
  · exact Act.stays_ghost.mpr (Act.stays_ghost.mpr trivial)
  rw [hurl]
  refine Act.cont_ok.mpr (Act.wp_bind.mpr (Act.stays_ghost.mpr (Act.cont_ok.mpr (Act.wp_bind.mpr ?_))))
  refine Config.wp_connectDeadline hG.timeless fun deadline => ?_
  refine Act.cont_ok.mpr (Act.wp_bind.mpr (Client.wp_connect.mpr ⟨trivial, fun e => ?_, ?_⟩))
  · exact Act.stays_ghost.mpr (Act.stays_ghost.mpr trivial)
  refine Act.cont_ok.mpr (Act.wp_bind.mpr (wp_modifyClient.mpr (Act.cont_ok.mpr ?_)))
  refine Client.wp_applyTimeouts hG ?_ fun e => Act.stays_ghost.mpr trivial
  have hplaced : Placed (.fromUrl url) config (Client.fresh config maxHeadSize url) (Wire.dial url ⟨[], false, []⟩) :=
    ⟨rfl, ⟨_, _, rfl, rfl⟩, rfl⟩
  refine Act.cont_ok.mpr (Act.wp_mono (placed_performAll fuel calls _ _ hplaced) ?_)
  intros
  trivial

/-- **Calls start at home.** In every run of a session on a client connected to `url`: a request that is about to be
    written goes home, if no call up to it began after redirects had taken the client elsewhere. -/
theorem calls_start_at_home {fuel : Nat} {urlBytes : Bytes} {url : Url} (hurl : Url.parse urlBytes = .ok url)
    {config : Config} {maxHeadSize : Nat} {calls : List Call} {l : Local} {pre post : List (Prog.Event Sys)}
    {e : Prog.Event Sys} {p : Prog Sys (Except Error Unit × Local)}
    (hrun : Prog.Exec (session fuel urlBytes config maxHeadSize calls l) (pre ++ e :: post) p)
    {params : RequestParams} {request : Request} (he : e.op = .mark (.exchange params request))
    (hret : Returned (.fromUrl url) (recordOf pre).log) : GoesHome (.fromUrl url) (recordOf pre) request := by
  have hguard := Prog.exec_guard (wp_session_home fuel hurl config maxHeadSize calls l) hrun
  rw [he] at hguard
  exact hguard hret

/-- A session on `http://a` of a call, and another one with credentials. -/
def visit : Prog Sys (Except Error Unit × Local) :=
  session 9 (ascii "http://a/") .default 65536
    [.request .get (ascii "/") none none,
      .send ⟨.get, ascii "/", none, none, [(ascii "Authorization", ascii "secret")], true⟩] idle

/-- The events of the session when the reads answer `reads`. -/
def visitRun (reads : List (Except StdIoError Bytes)) : List (Prog.Event Sys) := (Prog.play scripted 90 reads visit).1

/-- A redirect to this location, with an empty body. -/
def moved (location : String) : Except StdIoError Bytes :=
  .ok (ascii "HTTP/1.1 302 Found\r\nLocation: " ++ ascii location ++ ascii "\r\nContent-Length: 0\r\n\r\n")

/-- A response without a body. -/
def noContent : Except StdIoError Bytes := .ok (ascii "HTTP/1.1 204 No Content\r\n\r\n")

/-- The first call is sent to `http://b` and back again. -/
def thereAndBack : List (Except StdIoError Bytes) := [moved "http://b/", moved "http://a/", noContent, noContent]

/-- The first call is sent to `http://b` and answered there. -/
def thereForGood : List (Except StdIoError Bytes) := [moved "http://b/", noContent, noContent]

/-- The parameters of the call with credentials. -/
def secretGet : RequestParams := ⟨.get, ascii "/", none, none, [(ascii "Authorization", ascii "secret")], true⟩

/-- A client that was sent away and back again writes the next call's credentials at home. -/
theorem calls_start_at_home_there_and_back :
    GoesHome ⟨.http, ascii "a", 80⟩ (recordOf ((visitRun thereAndBack).take 46))
      (Client.requestFor ⟨.http, ascii "a", 80⟩ secretGet) := by
  have hrun := Prog.exec_play scripted 90 thereAndBack visit
  have hop : ((visitRun thereAndBack).map Prog.Event.op)[46]? =
      some (Op.mark (.exchange secretGet (Client.requestFor ⟨.http, ascii "a", 80⟩ secretGet))) := by
    decide +kernel
  have hcalls : ∀ log ∈ (recordOf ((visitRun thereAndBack).take 46)).log.tails, log.head? = some .called →
      landing ⟨.http, ascii "a", 80⟩ log.tail = ⟨.http, ascii "a", 80⟩ := by
    decide +kernel
  obtain ⟨e, post, he, hsplit⟩ := Prog.Event.split hop
  have hsplit : (Prog.play scripted 90 thereAndBack visit).1 = _ := hsplit
  rw [hsplit] at hrun
  have hurl : Url.parse (ascii "http://a/") = .ok ⟨.http, ascii "a", none, ascii "/", none, none⟩ := by decide
  refine calls_start_at_home hurl hrun he ?_
  intro earlier hsuffix
  exact hcalls _ ((List.mem_tails _ _).mpr hsuffix) rfl

/-- A client that was sent away writes the next call's credentials there: its first request does not go home. -/
theorem credentials_follow_redirect : ∃ pre, ∃ e : Prog.Event Sys, ∃ post p request, Prog.Exec visit (pre ++ e :: post) p ∧
    e.op = .mark (.exchange secretGet request) ∧ (recordOf pre).followed = 0 ∧ ¬ request.Bare ∧
    ¬ GoesHome ⟨.http, ascii "a", 80⟩ (recordOf pre) request := by
  have hrun := Prog.exec_play scripted 90 thereForGood visit
  have hop : ((visitRun thereForGood).map Prog.Event.op)[31]? =
      some (Op.mark (.exchange secretGet (Client.requestFor ⟨.http, ascii "b", 80⟩ secretGet))) := by
    decide +kernel
  have hfirst : (recordOf ((visitRun thereForGood).take 31)).followed = 0 := by decide +kernel
  have haway : (recordOf ((visitRun thereForGood).take 31)).connections.head?.map (·.origin) =
      some ⟨.http, ascii "b", 80⟩ := by
    decide +kernel
  obtain ⟨e, post, he, hsplit⟩ := Prog.Event.split hop
  have hsplit : (Prog.play scripted 90 thereForGood visit).1 = _ := hsplit
  rw [hsplit] at hrun
  refine ⟨_, e, post, _, _, hrun, he, hfirst, ?_, ?_⟩
  · intro hbare
    have hsecret := hbare ⟨.known .authorization, ascii "secret"⟩ (by decide +kernel)
    revert hsecret
    decide
  · rintro ⟨c, cs, hw, hhome, -⟩
    have hw : (recordOf ((visitRun thereForGood).take 31)).connections = c :: cs := hw
    rw [hw, List.head?_cons, Option.map_some, hhome hfirst] at haway
    revert haway
    decide

end Xibalba
