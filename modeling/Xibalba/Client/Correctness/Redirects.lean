import Xibalba.Client.Correctness.Exchange
import Xibalba.Client.Session
import Xibalba.Proto.Correctness.HeaderNames

/-!
# `Client.Correctness.Redirects` — where one call may go

A call of `execute` starts on the connection it finds and may be sent elsewhere by the responses. Whatever the
`Location`s are: once it has left the origin it started on, its requests carry no credentials; it never goes from
https to http; it follows no more redirects than allowed, and none to another origin unless that is allowed; and
a redirect that is refused costs no connection.

Layout:
* credentials, in the form they take on the wire;
* `advance`, on an arbitrary `Location`;
* where a client is: `Placed`, what holds between two calls, and `Bound`, what holds between two dispatches;
* one call, under any monitor that permits what a bound client does;
* `execute_redirects_safe`.
-/

namespace Xibalba

open RedirectState (isCredential)

/-! ## Credentials on the wire -/

theorem RedirectState.isCredential_congr {a b : Bytes} (h : Bytes.lower a = Bytes.lower b) :
    isCredential a = isCredential b := by
  have hname : ∀ name, Bytes.asciiEqIgnoreCase a name = Bytes.asciiEqIgnoreCase b name := by
    intro name
    rw [Bool.eq_iff_iff, Bytes.asciiEqIgnoreCase_iff, Bytes.asciiEqIgnoreCase_iff, h]
  simp only [isCredential, hname]

/-- Reading a name into a `HeaderName` neither makes nor hides a credential. -/
theorem HeaderName.isCredential_fromBytes (name : Bytes) : isCredential (fromBytes name).asBytes = isCredential name :=
  RedirectState.isCredential_congr (lower_fromBytes name)

/-- Parameters without credentials. -/
def RequestParams.Bare (params : RequestParams) : Prop := ∀ h ∈ params.extraHeaders, isCredential h.1 = false

/-- A request without credentials, whatever the letter case of its names. -/
def Request.Bare (r : Request) : Prop := ∀ h ∈ r.headers, isCredential h.name.asBytes = false

theorem Client.bare_requestFor {origin : Origin} {params : RequestParams} (h : params.Bare) :
    (requestFor origin params).Bare := by
  intro header hmem
  simp only [requestFor, List.cons_append, List.mem_cons, List.mem_append, List.mem_map] at hmem
  rcases hmem with rfl | ⟨x, hx, rfl⟩ | hlen
  · show isCredential (ascii "Host") = false
    decide
  · exact (HeaderName.isCredential_fromBytes x.1).trans (h x hx)
  · cases hcl : contentLength params with
    | none => simp [hcl] at hlen
    | some len =>
        rw [hcl] at hlen
        rw [List.mem_singleton.mp hlen]
        show isCredential (ascii "Content-Length") = false
        decide

/-! ## Applying a `Location` -/

namespace RedirectState

variable {s s' : RedirectState} {origin : Origin} {location : Bytes} {hop : Hop}

/-- What an accepted `Location` makes of the request: it stays with the origin and keeps its headers, or goes to a
    URL of another origin that is no downgrade, without credentials. -/
def Advanced (origin : Origin) (s s' : RedirectState) (hop : Hop) : Prop :=
  s'.extraHeaders ⊆ s.extraHeaders ∧
    (hop = .sameOrigin ∨ ∃ target url, hop = .reconnect target ∧ Url.parse target = .ok url ∧
      origin.downgradesTo url.scheme = false ∧ origin.covers url = false ∧ s'.params.Bare)

theorem applyAbsoluteLocation_advanced (h : s.applyAbsoluteLocation origin location = .ok (s', hop)) :
    Advanced origin s s' hop := by
  unfold applyAbsoluteLocation at h
  cases hparse : Url.parse location with
  | error e =>
      rw [hparse] at h
      cases h
  | ok url =>
      rw [hparse] at h
      dsimp only at h
      split at h
      · cases h
      next hdown =>
        by_cases hcov : origin.covers url = true
        · rw [if_pos hcov] at h
          cases h
          exact ⟨List.Subset.refl _, .inl rfl⟩
        · rw [if_neg hcov] at h
          cases h
          refine ⟨List.filter_subset_self _, .inr ⟨location, url, rfl, hparse, by simpa using hdown, by simpa using hcov, ?_⟩⟩
          intro header hmem
          simpa using (List.mem_filter.mp hmem).2

theorem applyLocation_advanced (h : s.applyLocation origin location = .ok (s', hop)) : Advanced origin s s' hop := by
  unfold applyLocation at h
  dsimp only at h
  split at h
  · exact applyAbsoluteLocation_advanced h
  · split at h
    · cases h
    · split at h
      · exact applyAbsoluteLocation_advanced h
      · split at h
        · cases h
          exact ⟨List.Subset.refl _, .inl rfl⟩
        · cases h
          exact ⟨List.Subset.refl _, .inl rfl⟩

theorem applyMethodRedirect_subset (s : RedirectState) (status : StatusCode) :
    (s.applyMethodRedirect status).extraHeaders ⊆ s.extraHeaders := by
  have hstrip : ∀ c : Prop, [Decidable c] →
      (if c then stripRepresentationHeaders { s with method := .get, body := none } else s).extraHeaders ⊆
        s.extraHeaders := by
    intro c _
    split
    · exact List.filter_subset_self _
    · exact List.Subset.refl _
  exact hstrip _

theorem advance_advanced {status : StatusCode} (h : s.advance origin status location = .ok (s', hop)) :
    Advanced origin s s' hop := by
  obtain ⟨hsub, hhop⟩ := applyLocation_advanced h
  exact ⟨List.Subset.trans hsub (applyMethodRedirect_subset s status), hhop⟩

end RedirectState

/-! ## Where a client is -/

/-- The notes of the latest call, and those from before it. -/
def Wire.call (w : Wire) : List Note := w.log.takeWhile (· ≠ .called)

def Wire.before (w : Wire) : List Note := (w.log.dropWhile (· ≠ .called)).tail

/-- In the latest call the `Connector` was asked for a URL the origin does not cover. -/
def Wire.Left (start : Origin) (w : Wire) : Prop := ∃ url e, .dialled url e ∈ w.call ∧ start.covers url = false

def Note.isFollowed : Note → Bool
  | .followed _ => true
  | _ => false

/-- The number of redirects the latest call followed. -/
def Wire.followed (w : Wire) : Nat := w.call.countP Note.isFollowed

/-- Where the redirects have taken a client that was connected to `home`: to the URL of the last connection that
    was opened to follow one. -/
def landing (home : Origin) : List Note → Origin
  | [] => home
  | .dialled url none :: .followed _ :: _ => .fromUrl url
  | _ :: log => landing home log

namespace Wire

variable {w : Wire} {x : Note}

theorem call_note (hx : x ≠ .called) : (w.note x).call = x :: w.call := by simp [call, note, hx]

theorem before_note (hx : x ≠ .called) : (w.note x).before = w.before := by simp [before, note, hx]

theorem call_dial (url : Url) : (w.dial url).call = .dialled url none :: w.call := by simp [call, dial]

theorem before_dial (url : Url) : (w.dial url).before = w.before := by simp [before, dial]

end Wire

/-- Opening a connection where the client is changes nothing. -/
theorem landing_dialled (home : Origin) (log : List Note) {url : Url} (h : .fromUrl url = landing home log)
    (e : Option Error) : landing home (.dialled url e :: log) = landing home log := by
  cases e with
  | some e => rfl
  | none =>
      cases log with
      | nil => rfl
      | cons x log =>
          cases x with
          | followed location => exact h
          | dialled url' e => rfl
          | answered => rfl
          | called => rfl

/-- What holds whenever the client is idle: it is where its latest connection is, and only redirects took it
    there. -/
structure Placed (home : Origin) (config : Config) (client : Client) (w : Wire) : Prop where
  configured : client.config = config
  latest : ∃ c cs, w.connections = c :: cs ∧ c.origin = client.origin
  landed : client.origin = landing home w.log

/-- What holds between two dispatches of a call: the client is where the call started unless the call left, and
    then the request to send is bare. -/
structure Bound (home start : Origin) (config : Config) (params : RequestParams) (n : Nat) (client : Client) (w : Wire) :
    Prop extends Placed home config client w where
  begun : start = landing home w.before
  fixed : config.allowCrossOriginRedirects = false → client.origin = start
  stayed : ¬ w.Left start → client.origin = start
  bare : w.Left start → params.Bare
  first : n = 0 → ¬ w.Left start
  followed : w.followed = n

/-- An error that is not about a redirect, or that the `Connector` answered. -/
def OwnOrDialled (e : Error) (w : Wire) : Prop :=
  e.refusesRedirect = false ∨ ∃ url, .dialled url (some e) ∈ w.log

theorem Origin.covers_rootUrl (o : Origin) : o.covers o.rootUrl = true := by
  simp [covers, rootUrl, Url.effectivePort, Bytes.asciiEqIgnoreCase_refl]

theorem Origin.downgradesTo_rootUrl (o : Origin) : o.downgradesTo o.rootUrl.scheme = false := by
  cases h : o.scheme with
  | http => simp [downgradesTo, h]
  | https => simp [downgradesTo, rootUrl, h]

namespace Bound

variable {home start : Origin} {config : Config} {params : RequestParams} {n : Nat} {client client' : Client} {w w' : Wire}

/-- What happens on a connection changes nothing. -/
theorem same (h : Bound home start config params n client w) (hl : Client.Same client client')
    (hw : ∃ c cs, w'.connections = c :: cs ∧ c.origin = client.origin) (hlog : w'.log = w.log) :
    Bound home start config params n client' w' := by
  have hcall : w'.call = w.call := by rw [Wire.call, hlog, Wire.call]
  have hleft : w'.Left start ↔ w.Left start := by rw [Wire.Left, hcall, Wire.Left]
  refine { configured := hl.config.trans h.configured, latest := ?_, landed := ?_, begun := ?_, fixed := ?_,
           stayed := ?_, bare := fun hs => h.bare (hleft.mp hs), first := fun hn hs => h.first hn (hleft.mp hs),
           followed := ?_ }
  · obtain ⟨c, cs, hw, ho⟩ := hw
    exact ⟨c, cs, hw, ho.trans hl.origin.symm⟩
  · rw [hl.origin, hlog]
    exact h.landed
  · rw [Wire.before, hlog]
    exact h.begun
  · exact fun hc => hl.origin.trans (h.fixed hc)
  · exact fun hs => hl.origin.trans (h.stayed fun hs' => hs (hleft.mpr hs'))
  · rw [Wire.followed, hcall]
    exact h.followed

theorem receive (h : Bound home start config params n client w) (hl : Client.Same client client') (bs : Bytes) :
    Bound home start config params n client' (w.receive bs) := by
  obtain ⟨c, cs, hw, ho⟩ := h.latest
  refine h.same hl ⟨c.receive bs, cs, ?_, ?_⟩ rfl
  · simp [Wire.receive, Wire.onLatest, hw]
  · unfold Connection.receive
    split
    · exact ho
    · exact ho

theorem fire (h : Bound home start config params n client w) (f : Bool) : Bound home start config params n client (w.fire f) :=
  h.same (.refl _) h.latest rfl

/-- A note that is neither a `Connector` call elsewhere nor a redirect. -/
theorem note (h : Bound home start config params n client w) {x : Note}
    (hx : x = .answered ∨ ∃ e, x = .dialled client.origin.rootUrl e) :
    Bound home start config params n client (w.note x) := by
  have hcalled : x ≠ .called := by rcases hx with rfl | ⟨e, rfl⟩ <;> nofun
  have hlanding : landing home (x :: w.log) = landing home w.log := by
    rcases hx with rfl | ⟨e, rfl⟩
    · rfl
    · exact landing_dialled home w.log (show Origin.fromUrl client.origin.rootUrl = _ from h.landed) e
  have hleft : (w.note x).Left start ↔ w.Left start := by
    constructor
    · rintro ⟨url, e, hmem, hcov⟩
      by_contra hnot
      rw [Wire.call_note hcalled] at hmem
      rcases List.mem_cons.mp hmem with rfl | hmem
      · rcases hx with hx | ⟨e', hx⟩
        · cases hx
        · cases hx
          rw [h.stayed hnot, Origin.covers_rootUrl] at hcov
          cases hcov
      · exact hnot ⟨url, e, hmem, hcov⟩
    · rintro ⟨url, e, hmem, hcov⟩
      rw [Wire.Left, Wire.call_note hcalled]
      exact ⟨url, e, List.mem_cons_of_mem _ hmem, hcov⟩
  refine { configured := h.configured, latest := h.latest, landed := h.landed.trans hlanding.symm, begun := ?_,
           fixed := h.fixed, stayed := fun hs => h.stayed fun hs' => hs (hleft.mpr hs'),
           bare := fun hs => h.bare (hleft.mp hs), first := fun hn hs => h.first hn (hleft.mp hs), followed := ?_ }
  · rw [Wire.before_note hcalled]
    exact h.begun
  · rw [Wire.followed, Wire.call_note hcalled, ← h.followed]
    rcases hx with rfl | ⟨e, rfl⟩
    · exact List.countP_cons_of_neg (by simp [Note.isFollowed])
    · exact List.countP_cons_of_neg (by simp [Note.isFollowed])

/-- A reconnect to the origin the client is on. -/
theorem dial (h : Bound home start config params n client w) (hl : Client.Same client client') :
    Bound home start config params n client' (w.dial client.origin.rootUrl) := by
  have hnote := h.note (x := .dialled client.origin.rootUrl none) (.inr ⟨none, rfl⟩)
  exact hnote.same hl ⟨_, w.connections, rfl, rfl⟩ rfl

/-- Following a redirect on the same origin. -/
theorem stay {params' : RequestParams} (h : Bound home start config params n client w)
    (hsub : params'.extraHeaders ⊆ params.extraHeaders) (location : Bytes) :
    Bound home start config params' (n + 1) client (w.note (.followed location)) := by
  have hcall : (w.note (.followed location)).call = .followed location :: w.call := Wire.call_note nofun
  have hleft : (w.note (.followed location)).Left start ↔ w.Left start := by
    rw [Wire.Left, hcall, Wire.Left]
    simp
  refine { configured := h.configured, latest := h.latest, landed := h.landed, begun := ?_, fixed := h.fixed,
           stayed := fun hs => h.stayed fun hs' => hs (hleft.mpr hs'), bare := fun hs header hmem => ?_,
           first := nofun, followed := ?_ }
  · exact h.begun
  · exact h.bare (hleft.mp hs) header (hsub hmem)
  · rw [Wire.followed, hcall, ← h.followed]
    exact List.countP_cons_of_pos rfl

/-- Following a redirect to another origin. -/
theorem move {params' : RequestParams} (h : Bound home start config params n client w) (hbare : params'.Bare)
    (hallow : config.allowCrossOriginRedirects = true) {url : Url} (hcov : client.origin.covers url = false)
    (location : Bytes) :
    Bound home start config params' (n + 1)
      { client with origin := .fromUrl url, dirty := false }
      ((w.note (.followed location)).dial url) := by
  have hcall : ((w.note (.followed location)).dial url).call = .dialled url none :: .followed location :: w.call := by
    rw [Wire.call_dial, Wire.call_note (x := .followed location) nofun]
  have hleft : ((w.note (.followed location)).dial url).Left start := by
    rw [Wire.Left, hcall]
    by_cases hs : w.Left start
    · obtain ⟨url', e, hmem, hcov'⟩ := hs
      exact ⟨url', e, List.mem_cons_of_mem _ (List.mem_cons_of_mem _ hmem), hcov'⟩
    · rw [h.stayed hs] at hcov
      exact ⟨url, none, List.mem_cons_self, hcov⟩
  refine { configured := h.configured, latest := ⟨_, _, rfl, rfl⟩, landed := rfl, begun := ?_, fixed := fun hc => ?_,
           stayed := fun hs => absurd hleft hs, bare := fun _ => hbare, first := nofun, followed := ?_ }
  · rw [Wire.before_dial]
    exact h.begun
  · rw [hallow] at hc
    cases hc
  · rw [Wire.followed, hcall, ← h.followed, List.countP_cons_of_neg (by simp [Note.isFollowed])]
    exact List.countP_cons_of_pos rfl

end Bound

/-! ## One call -/

/-- A monitor that allows what a call does in a state that is `Bound`. -/
structure Permits (home start : Origin) (config : Config) (G : Wire → Op → Prop) : Prop where
  lenient : Lenient G
  response : ∀ w acc headEnd, G w (.mark (.response acc headEnd))
  exchange : ∀ {params n client w}, Bound home start config params n client w →
    G w (.mark (.exchange params (Client.requestFor client.origin params)))
  redirect : ∀ {params n client w} location, Bound home start config params n client w → n < config.maxRedirects →
    G w (.mark (.redirect location))
  connect : ∀ {params n client w} url d, Bound home start config params n client w →
    client.origin.downgradesTo url.scheme = false →
    (config.allowCrossOriginRedirects = false → Origin.fromUrl url = start) → G w (.connect url d)

namespace Client

variable {home start : Origin} {config : Config} {G : Wire → Op → Prop} {params : RequestParams} {n : Nat} {l : Local}
  {w : Wire}

/-- What a part of a dispatch leaves. -/
def Dispatch (home start : Origin) (config : Config) (params : RequestParams) (n : Nat) {α : Type}
    (r : Except Error α) (l' : Local) (w' : Wire) : Prop :=
  Bound home start config params n l'.client w' ∧ ∀ e, r = .error e → OwnOrDialled e w'

/-- What holds of the error of a call that returned. -/
theorem ok_ne_error {α : Type} {P : Error → Prop} {a : α} : ∀ e, (.ok a : Except Error α) = .error e → P e := nofun

/-- What holds of the result of a call that failed. -/
theorem error_ne_ok {α : Type} {P : α → Prop} {e : Error} : ∀ a, (.error e : Except Error α) = .ok a → P a := nofun

section

variable (hG : Permits home start config G)

include hG

theorem wp_reconnectSameHost_bound (deadline : RequestDeadline) (h : Bound home start config params n l.client w) :
    Act.wp (watched G) (reconnectSameHostWithDeadline deadline) (Dispatch home start config params n) l w := by
  simp only [reconnectSameHostWithDeadline, Act.wp_bind, wp_client, Act.cont_ok]
  refine Act.wp_mono (wp_reconnectWithDeadline hG.lenient fun d => ?_) ?_
  · exact hG.connect _ d h (Origin.downgradesTo_rootUrl _) h.fixed
  · intro r l' w' hr
    cases hr with
    | late => exact ⟨h, fun e he => .inl (by cases he; rfl)⟩
    | @refused e =>
        refine ⟨h.note (.inr ⟨_, rfl⟩), fun e' he => .inr ⟨l.client.origin.rootUrl, ?_⟩⟩
        cases he
        exact List.mem_cons_self
    | failed => exact ⟨h.dial ⟨rfl, rfl, rfl⟩, fun e he => .inl (by cases he; rfl)⟩
    | done => exact ⟨h.dial ⟨rfl, rfl, rfl⟩, ok_ne_error⟩

/-- One attempt to send the request. -/
theorem wp_sendHeadOnce_bound {i : Interrupt} (hi : i.Quiet G) (fuel : Nat) (deadline : RequestDeadline)
    (h : Bound home start config params n l.client w) :
    Act.wp (watched G) (sendHeadOnce fuel params deadline i) (fun r l' w' =>
      Dispatch home start config params n r l' w' ∧ ∀ head, r = .ok head → ∃ log, w'.log = .answered :: log) l w := by
  obtain ⟨c, cs, hw, ho⟩ := h.latest
  refine Act.wp_mono (wp_sendHeadOnce hG.lenient hi fuel params deadline l hw (hG.exchange h)
    fun _ _ _ _ _ => hG.response _ _ _) ?_
  rintro r l' w' ⟨hsame, ⟨e, rfl, -, href, -, rfl⟩ | ⟨ex, interims, -, -, -, -, -, -, hr⟩⟩
  · exact ⟨⟨h.same hsame h.latest rfl, fun e' he => .inl (by cases he; exact href)⟩, error_ne_ok⟩
  · have hduring : Bound home start config params n l'.client (during w c cs ex) := h.same hsame ⟨_, cs, rfl, ho⟩ rfl
    rcases r with e | ⟨data, framing, headEnd⟩
    · obtain ⟨href, f, rfl, -⟩ := hr
      exact ⟨⟨hduring.fire f, fun e' he => .inl (by cases he; exact href)⟩, error_ne_ok⟩
    · obtain ⟨rfl, -⟩ := hr
      exact ⟨⟨hduring.note (.inl rfl), ok_ne_error⟩, fun _ _ => ⟨_, rfl⟩⟩

theorem wp_sendHeadInterruptible_bound {i : Interrupt} (hi : i.Quiet G) (fuel : Nat) (deadline : RequestDeadline)
    (h : Bound home start config params n l.client w) :
    Act.wp (watched G) (sendHeadInterruptible fuel params deadline i) (fun r l' w' =>
      Dispatch home start config params n r l' w' ∧ ∀ head, r = .ok head → ∃ log, w'.log = .answered :: log) l w := by
  simp only [sendHeadInterruptible, Act.wp_bind, Act.wp_attempt]
  refine Act.wp_mono (wp_sendHeadOnce_bound hG hi fuel deadline h) ?_
  rintro (e | head) l' w' ⟨⟨hbound, herr⟩, hok⟩
  · simp only [Act.stays_ghost, Act.cont_ok, Act.wp_bind, wp_client]
    split
    · refine Act.wp_bind.mpr (Act.wp_mono hi.isCancelled ?_)
      rintro _ l'' w'' ⟨hl, b, f, rfl, rfl, -⟩
      have hbound : Bound home start config params n l''.client (w'.fire f) :=
        (hbound.fire f).same (.of_eq hl) hbound.latest rfl
      simp only [Act.cont_ok]
      split
      · exact Act.stays_ghost.mpr ⟨⟨hbound, fun e he => .inl (by cases he; rfl)⟩, error_ne_ok⟩
      · refine Act.wp_bind.mpr (Act.wp_mono (wp_reconnectSameHost_bound hG deadline hbound) ?_)
        rintro (e | u) l₃ w₃ ⟨hbound, herr⟩
        · exact Act.stays_ghost.mpr ⟨⟨hbound, fun e' he => herr e' (by rw [Except.error.inj he])⟩, error_ne_ok⟩
        · exact Act.cont_ok.mpr (wp_sendHeadOnce_bound hG hi fuel deadline hbound)
    · exact Act.stays_ghost.mpr ⟨⟨hbound, herr⟩, error_ne_ok⟩
  · exact Act.stays_ghost.mpr (Act.stays_ghost.mpr ⟨⟨hbound, ok_ne_error⟩, fun _ _ => hok _ rfl⟩)

theorem wp_ensureClean_bound (deadline : RequestDeadline) (h : Bound home start config params n l.client w) :
    Act.wp (watched G) (ensureCleanWithDeadline deadline) (Dispatch home start config params n) l w := by
  simp only [ensureCleanWithDeadline, Act.wp_bind, wp_client, Act.cont_ok]
  split
  · exact wp_reconnectSameHost_bound hG deadline h
  · exact Act.stays_ghost.mpr ⟨h, ok_ne_error⟩

/-- **One dispatch.** A response leaves its head as the latest note. -/
theorem wp_sendOne_bound (fuel : Nat) (deadline : RequestDeadline) (h : Bound home start config params n l.client w) :
    Act.wp (watched G) (sendOne fuel params deadline) (fun r l' w' =>
      Dispatch home start config params n r l' w' ∧
        ∀ response, r = .ok response → ∃ log, w'.log = .answered :: log) l w := by
  simp only [sendOne, Act.wp_bind]
  refine Act.wp_mono (wp_ensureClean_bound hG deadline h) ?_
  rintro (e | u) l₁ w₁ ⟨h₁, herr⟩
  · exact Act.stays_ghost.mpr ⟨⟨h₁, fun e' he => herr e' (by rw [Except.error.inj he])⟩, error_ne_ok⟩
  simp only [Act.cont_ok, Act.wp_bind]
  refine Act.wp_mono (wp_sendHeadInterruptible_bound hG Interrupt.quiet_never fuel deadline h₁) ?_
  rintro (e | ⟨data, framing, headEnd⟩) l₂ w₂ ⟨⟨h₂, herr⟩, hok⟩
  · exact Act.stays_ghost.mpr ⟨⟨h₂, fun e' he => herr e' (by rw [Except.error.inj he])⟩, error_ne_ok⟩
  obtain ⟨log, hlog⟩ := hok _ rfl
  simp only [Act.cont_ok, Act.wp_bind]
  refine RequestDeadline.wp_check hG.lenient.timeless ?_
    (Act.stays_ghost.mpr ⟨⟨h₂, fun e he => .inl (by cases he; rfl)⟩, error_ne_ok⟩)
  simp only [Act.cont_ok, Act.wp_bind]
  refine Act.wp_mono (wp_readFullBody hG.lenient fuel framing headEnd deadline l₂ w₂) ?_
  rintro (e | body) l₃ w₃ ⟨hsame, bs, -, hr⟩
  · obtain ⟨-, href, f, rfl, -⟩ := hr
    exact Act.stays_ghost.mpr ⟨⟨(h₂.receive hsame bs).fire f, fun e' he => .inl (by cases he; exact href)⟩, error_ne_ok⟩
  · subst hr
    have h₃ : ∀ dirty, Bound home start config params n { l₃.client with dirty := dirty }
        (w₂.receive bs) := by
      intro dirty
      refine h₂.receive ?_ bs
      exact ⟨hsame.config, hsame.maxHeadSize, hsame.origin⟩
    simp only [Act.cont_ok]
    split
    · simp only [Act.wp_bind, discardPartialResponse, wp_modifyClient, Act.cont_ok]
      exact Act.stays_ghost.mpr ⟨⟨h₃ true, ok_ne_error⟩, fun _ _ => ⟨log, hlog⟩⟩
    · exact Act.stays_ghost.mpr ⟨⟨h₃ l₃.client.dirty, ok_ne_error⟩, fun _ _ => ⟨log, hlog⟩⟩

end

/-- An error is not about a redirect, or was answered by the `Connector`, or came before any call of it. -/
def Refused (e : Error) (w : Wire) : Prop := OwnOrDialled e w ∨ ∃ log, w.log = .answered :: log

/-- What a call leaves. -/
def Executed (home : Origin) (config : Config) (r : Except Error Response) (l' : Local) (w' : Wire) : Prop :=
  Placed home config l'.client w' ∧ ∀ e, r = .error e → Refused e w'

section

variable (hG : Permits home start config G)

include hG

theorem wp_follow {state : RedirectState} (deadline : RequestDeadline) (status : StatusCode) (location : Bytes)
    (h : Bound home start config state.params n l.client w) (hn : n < config.maxRedirects) {log : List Note}
    (hlog : w.log = .answered :: log) :
    Act.wp (watched G) (follow state deadline status location) (fun r l' w' =>
      match r with
      | .ok state' => Bound home start config state'.params (n + 1) l'.client w'
      | .error e => Placed home config l'.client w' ∧ Refused e w') l w := by
  have hrefused : ∀ e : Error, Placed home config l.client w ∧ Refused e w := fun _ => ⟨h.toPlaced, .inr ⟨log, hlog⟩⟩
  simp only [follow, Act.wp_bind, wp_client, Act.cont_ok, Act.wp_ofExcept, Act.stays_ghost]
  rcases hadv : state.advance l.client.origin status location with e | ⟨state', hop⟩
  · exact Act.stays_ghost.mpr (hrefused _)
  obtain ⟨hsub, rfl | ⟨target, url, rfl, hparse, hdown, hcov, hbare⟩⟩ := RedirectState.advance_advanced hadv
  · simp only [Act.cont_ok, Act.wp_bind, wp_mark]
    exact ⟨hG.redirect location h hn, Act.stays_ghost.mpr (h.stay hsub location)⟩
  simp only [Act.cont_ok]
  split
  · exact Act.stays_ghost.mpr (hrefused _)
  next hallow =>
    have hallow : config.allowCrossOriginRedirects = true := by simpa [h.configured] using hallow
    have hstay := h.stay (List.Subset.refl _) location
    simp only [Act.wp_bind, Act.wp_ofExcept, Act.stays_ghost, hparse, Except.mapError, Act.cont_ok, wp_mark]
    refine ⟨hG.redirect location h hn, Act.wp_mono (wp_reconnectWithDeadline hG.lenient fun d => ?_) ?_⟩
    · refine hG.connect url d hstay hdown fun hc => ?_
      rw [hallow] at hc
      cases hc
    · intro r l' w' hr
      cases hr with
      | late => exact Act.stays_ghost.mpr ⟨hstay.toPlaced, .inl (.inl rfl)⟩
      | refused => exact Act.stays_ghost.mpr ⟨⟨h.configured, h.latest, h.landed⟩, .inl (.inr ⟨url, List.mem_cons_self⟩)⟩
      | failed => exact Act.stays_ghost.mpr ⟨⟨h.configured, ⟨_, _, rfl, rfl⟩, rfl⟩, .inl (.inl rfl)⟩
      | done => exact Act.stays_ghost.mpr (h.move hbare hallow hcov location)

theorem wp_executeLoop (fuel : Nat) (deadline : RequestDeadline) (hopsLeft : Nat) {state : RedirectState}
    (h : Bound home start config state.params n l.client w) (hn : n + hopsLeft = config.maxRedirects) :
    Act.wp (watched G) (executeLoop fuel deadline hopsLeft state) (Executed home config) l w := by
  induction hopsLeft generalizing state n l w with
  | zero =>
      rw [executeLoop_eq]
      refine Act.wp_bind.mpr (Act.wp_mono (wp_sendOne_bound hG fuel deadline h) ?_)
      rintro (e | response) l' w' ⟨⟨hbound, herr⟩, hok⟩
      · exact Act.stays_ghost.mpr ⟨hbound.toPlaced, fun e' he => .inl (herr e' (by rw [Except.error.inj he]))⟩
      simp only [Act.cont_ok]
      split
      · exact Act.stays_ghost.mpr ⟨hbound.toPlaced, ok_ne_error⟩
      · exact Act.stays_ghost.mpr ⟨hbound.toPlaced, fun _ _ => .inr (hok _ rfl)⟩
  | succ hopsLeft ih =>
      rw [executeLoop_eq]
      refine Act.wp_bind.mpr (Act.wp_mono (wp_sendOne_bound hG fuel deadline h) ?_)
      rintro (e | response) l' w' ⟨⟨hbound, herr⟩, hok⟩
      · exact Act.stays_ghost.mpr ⟨hbound.toPlaced, fun e' he => .inl (herr e' (by rw [Except.error.inj he]))⟩
      obtain ⟨log, hlog⟩ := hok _ rfl
      simp only [Act.cont_ok]
      split
      · exact Act.stays_ghost.mpr ⟨hbound.toPlaced, ok_ne_error⟩
      · refine Act.wp_bind.mpr (Act.wp_mono (wp_follow hG deadline _ _ hbound (by omega) hlog) ?_)
        rintro (e | state') l'' w'' hr
        · refine Act.stays_ghost.mpr ⟨hr.1, fun e' he => ?_⟩
          rw [← Except.error.inj he]
          exact hr.2
        · exact Act.cont_ok.mpr (ih hr (by omega))

/-- **One call.** -/
theorem wp_execute (fuel : Nat) (h : Bound home start config params 0 l.client w) :
    Act.wp (watched G) (execute fuel params) (Executed home config) l w := by
  simp only [execute, Act.wp_bind, wp_client, Act.cont_ok]
  refine RequestDeadline.wp_after hG.lenient.timeless fun deadline => ?_
  refine Act.cont_ok.mpr (wp_executeLoop hG fuel deadline _ (n := 0) h ?_)
  rw [Nat.zero_add, h.configured]

end

end Client

/-- The monitor: bare requests once the origin was left, no downgrade, no connection elsewhere unless allowed, and
    no redirect too many. -/
def Guarded (start : Origin) (config : Config) (w : Wire) : Op → Prop
  | .mark (.exchange _ request) => w.Left start → request.Bare
  | .mark (.redirect _) => w.followed < config.maxRedirects
  | .connect url _ => (∀ c cs, w.connections = c :: cs → c.origin.downgradesTo url.scheme = false) ∧
      (config.allowCrossOriginRedirects = false → Origin.fromUrl url = start)
  | _ => True

theorem permits_guarded (start : Origin) (config : Config) : Permits start start config (Guarded start config) where
  lenient w op hop := by
    cases op with
    | connect url d => cases hop
    | mark m => cases hop
    | _ => trivial
  response _ _ _ := trivial
  exchange h := fun hs => Client.bare_requestFor (h.bare hs)
  redirect location h hn := by
    show Wire.followed _ < _
    rw [h.followed]
    exact hn
  connect url d h hdown hfixed := by
    refine ⟨fun c cs hw => ?_, hfixed⟩
    obtain ⟨c', cs', hw', ho⟩ := h.latest
    obtain ⟨rfl, -⟩ := List.cons.inj (hw.symm.trans hw')
    rw [ho]
    exact hdown

theorem bound_startOf (params : RequestParams) (l : Local) :
    Bound l.client.origin l.client.origin l.client.config params 0 l.client (startOf l) where
  configured := rfl
  latest := ⟨_, _, rfl, rfl⟩
  landed := rfl
  begun := rfl
  fixed _ := rfl
  stayed _ := rfl
  bare := by
    rintro ⟨url, e, hmem, -⟩
    cases hmem
  first _ := by
    rintro ⟨url, e, hmem, -⟩
    cases hmem
  followed := rfl

/-- **Redirect safety** of a run of one call, up to the program that is left of it. -/
structure RedirectSafe (l : Local) (tr : List (Prog.Event Sys)) (p : Prog Sys (Except Error Client.Response × Local)) :
    Prop where
  /-- once a hop has left the origin the call started on, no request carries credentials -/
  credentials : ∀ pre (e : Prog.Event Sys) post params request, tr = pre ++ e :: post → e.op = .mark (.exchange params request) →
    (recordFrom l pre).Left l.client.origin → request.Bare
  /-- the `Connector` is not called with an http URL when the client is on https -/
  secure : ∀ pre (e : Prog.Event Sys) post url d, tr = pre ++ e :: post → e.op = .connect url d →
    ∀ c cs, (recordFrom l pre).connections = c :: cs → c.origin.downgradesTo url.scheme = false
  /-- no more redirects than `max_redirects` -/
  bounded : (recordFrom l tr).followed ≤ l.client.config.maxRedirects
  /-- without `allow_cross_origin_redirects` the `Connector` is called for the origin of the call only -/
  home : ∀ pre (e : Prog.Event Sys) post url d, tr = pre ++ e :: post → e.op = .connect url d →
    l.client.config.allowCrossOriginRedirects = false → Origin.fromUrl url = l.client.origin
  /-- a verdict on a redirect, unless the `Connector` answered it, comes right after the response -/
  refused : ∀ e l', p = .pure (.error e, l') → e.refusesRedirect = true →
    (∃ url, .dialled url (some e) ∈ (recordFrom l tr).log) ∨ ∃ log, (recordFrom l tr).log = .answered :: log

theorem followed_step {start : Origin} {config : Config} (w : Wire) (op : Op) (r : op.Ret)
    (hg : Guarded start config w op) (h : w.followed ≤ config.maxRedirects) :
    (w.next op r).followed ≤ config.maxRedirects := by
  cases op with
  | mark m =>
      cases m with
      | redirect location =>
          have hg : w.followed < config.maxRedirects := hg
          have hnext : (w.note (.followed location)).followed = w.followed + 1 := by
            rw [Wire.followed, Wire.call_note (x := .followed location) nofun]
            exact List.countP_cons_of_pos rfl
          show (w.note (.followed location)).followed ≤ _
          omega
      | response acc headEnd => exact h
      | call => exact Nat.zero_le _
      | exchange params request => exact h
      | taken t => exact h
  | connect url d =>
      cases r with
      | error e => exact h
      | ok u => exact h
  | read len =>
      cases r with
      | error e => exact h
      | ok bs => exact h
  | write buf =>
      cases r with
      | error e => exact h
      | ok n => exact h
  | flush =>
      cases r with
      | error e => exact h
      | ok u => exact h
  | _ => exact h

/-- **Redirects.** Every run of a call of `execute` is redirect safe: for every request and configuration, and for
    any answers of the streams and the `Connector`, with whatever `Location`s are in them. -/
theorem execute_redirects_safe {fuel : Nat} {params : RequestParams} {l : Local} {tr : List (Prog.Event Sys)}
    {p : Prog Sys (Except Error Client.Response × Local)} (hrun : Prog.Exec (Client.execute fuel params l) tr p) :
    RedirectSafe l tr p := by
  have hwp := Client.wp_execute (permits_guarded _ _) fuel (bound_startOf params l)
  have hguard : ∀ pre e post, tr = pre ++ e :: post →
      Guarded l.client.origin l.client.config (recordFrom l pre) e.op := by
    intro pre e post htr
    rw [htr] at hrun
    exact Prog.exec_guard hwp hrun
  refine ⟨?_, ?_, ?_, ?_, ?_⟩
  · intro pre e post q request htr hop
    have hg := hguard pre e post htr
    rw [hop] at hg
    exact hg
  · intro pre e post url d htr hop
    have hg := hguard pre e post htr
    rw [hop] at hg
    exact hg.1
  · exact Prog.exec_invariant hwp hrun (Nat.zero_le _) followed_step
  · intro pre e post url d htr hop
    have hg := hguard pre e post htr
    rw [hop] at hg
    exact hg.2
  · intro e l' hp href
    rw [hp] at hrun
    rcases (Prog.exec_result hwp hrun).2 e rfl with (hown | hdialled) | hanswered
    · rw [href] at hown
      cases hown
    · exact .inl hdialled
    · exact .inr hanswered

/-- A request with credentials, and what is left of it on another origin. -/
def authorizedGet (extraHeaders : List (Bytes × Bytes)) : RequestParams :=
  ⟨.get, ascii "/", none, none, extraHeaders, true⟩

/-- A call with credentials. -/
def authorizedCall : Prog Sys (Except Error Client.Response × Local) :=
  Client.execute 9 (authorizedGet [(ascii "AUTHORIZATION", ascii "secret")]) idle

/-- A redirect to another host, and the response there. -/
def sentElsewhere : List (Except StdIoError Bytes) :=
  [.ok (ascii "HTTP/1.1 302 Found\r\nLocation: http://b/\r\nContent-Length: 0\r\n\r\n"),
    .ok (ascii "HTTP/1.1 204 No Content\r\n\r\n")]

/-- A call that is sent from `http://a` to `http://b` leaves its credentials behind. -/
theorem execute_redirects_safe_other_host :
    (recordFrom idle (Prog.play scripted 60 sentElsewhere authorizedCall).1).followed = 1 ∧
      (Client.requestFor ⟨.http, ascii "b", 80⟩ (authorizedGet [])).Bare := by
  have hsafe := execute_redirects_safe (Prog.exec_play scripted 60 sentElsewhere authorizedCall)
  refine ⟨by decide +kernel, ?_⟩
  have hop : ((Prog.play scripted 60 sentElsewhere authorizedCall).1.map Prog.Event.op)[15]? =
      some (Op.mark (.exchange (authorizedGet []) (Client.requestFor ⟨.http, ascii "b", 80⟩ (authorizedGet [])))) := by
    decide +kernel
  have hdialled : .dialled ⟨.http, ascii "b", none, ascii "/", none, none⟩ none ∈
      (recordFrom idle ((Prog.play scripted 60 sentElsewhere authorizedCall).1.take 15)).call := by
    decide +kernel
  obtain ⟨e, post, he, hsplit⟩ := Prog.Event.split hop
  exact hsafe.credentials _ e post _ _ hsplit he ⟨_, _, hdialled, by decide⟩

end Xibalba
