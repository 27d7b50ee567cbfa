import Xibalba.Client.Correctness.Throughout
import Xibalba.Client.Correctness.Isolation
import Xibalba.Client.Correctness.Redirects
import Xibalba.Client.Correctness.Writes
import Xibalba.Proto.Correctness.RequestStream
import Xibalba.Proto.Correctness.HeaderNames

/-!
# `Client.Correctness.Format` — what a session writes on its connections

Whatever the calls, the redirects, the replays and the streams: a connection carries whole requests, one after the other,
and at the end a part of one more. Each has a `Host` field for the origin that the connection was opened to, no
`Transfer-Encoding`, and a `Content-Length` that is the length of the body behind it, so that a server finds the requests
that were meant and nothing between them.

Layout:
* the fields of a request whose extra headers were accepted;
* `posted`, the world of a session whose control ring holds submitted requests;
* `send_head_once` continues the request that its connection is about, by simulation;
* sessions: `sessions_write_requests`.
-/

namespace Xibalba

open Act (Keeps Sure Triple)
open RequestStream (Honest hasName bodyLength)

/-! ## The fields of a request -/

namespace RequestParams

/-- The request sets none of the headers that the client writes itself. -/
def Unmanaged (p : RequestParams) : Prop := ∀ h ∈ p.extraHeaders, isManaged h.1 = false

theorem unmanaged_of_accepted {p : RequestParams} (h : validateExtraHeaders p.extraHeaders = .ok ()) : p.Unmanaged := by
  unfold validateExtraHeaders at h
  split at h
  · cases h
  next hany =>
    intro x hx
    have hgood := List.any_eq_false.mp (Bool.eq_false_iff.mpr hany) x hx
    simp only [Bool.or_eq_true, not_or] at hgood
    simpa using hgood.1

end RequestParams

theorem persistent_unmanaged : Persistent RequestParams.Unmanaged where
  built b params h := by
    unfold RequestBuilder.intoParams at h
    cases hv : RequestParams.validateExtraHeaders b.extraHeaders with
    | error e =>
        rw [hv] at h
        cases h
    | ok u =>
        rw [hv] at h
        cases h
        exact RequestParams.unmanaged_of_accepted hv
  plain _ _ _ _ _ := by
    intro h hh
    cases hh
  advance state state' _ _ _ _ hadv h := fun x hx => h x ((RedirectState.advance_advanced hadv).1 hx)

/-- A header of this name, in any case. -/
def Header.named (name : String) (h : Header) : Bool := Bytes.asciiEqIgnoreCase h.name.asBytes (ascii name)

/-- What a request says about where it goes and how long it is. -/
structure Request.Framed (origin : Origin) (params : RequestParams) (r : Request) : Prop where
  host : r.headers.filter (Header.named "Host") = [⟨.known .host, origin.hostHeaderValue⟩]
  coding : r.headers.filter (Header.named "Transfer-Encoding") = []
  length : r.headers.filter (Header.named "Content-Length") =
    (Client.contentLength params).toList.map fun len => ⟨.known .contentLength, ascii (toString len)⟩
  /-- the length is announced if and only if there is a body, or the method is one that has one -/
  announced : (Client.contentLength params).isSome = true ↔
    params.body.isSome = true ∨ params.method = .post ∨ params.method = .put ∨ params.method = .patch
  body : (Client.contentLength params).getD 0 = (params.body.getD []).length

namespace Client

theorem named_fromBytes (name : String) (bytes value : Bytes) :
    Header.named name ⟨.fromBytes bytes, value⟩ = Bytes.asciiEqIgnoreCase bytes (ascii name) := by
  rw [Bool.eq_iff_iff]
  unfold Header.named
  rw [Bytes.asciiEqIgnoreCase_iff, Bytes.asciiEqIgnoreCase_iff, HeaderName.lower_fromBytes]

/-- The fields of a request with this name, if the client writes them itself. -/
theorem filter_requestFor (origin : Origin) {params : RequestParams} {name : String}
    (hname : ∀ bytes, RequestParams.isManaged bytes = false → Bytes.asciiEqIgnoreCase bytes (ascii name) = false)
    (hparams : params.Unmanaged) :
    (requestFor origin params).headers.filter (Header.named name) =
      [(⟨.known .host, origin.hostHeaderValue⟩ : Header)].filter (Header.named name) ++
        ((contentLength params).toList.map fun len => (⟨.known .contentLength, ascii (toString len)⟩ : Header)).filter
          (Header.named name) := by
  have hextra : (params.extraHeaders.map fun h => (⟨.fromBytes h.1, h.2⟩ : Header)).filter (Header.named name) = [] := by
    rw [List.filter_eq_nil_iff]
    intro h hh
    obtain ⟨x, hx, rfl⟩ := List.mem_map.mp hh
    rw [named_fromBytes, hname x.1 (hparams x hx)]
    exact Bool.false_ne_true
  have hheaders : (requestFor origin params).headers =
      [⟨.known .host, origin.hostHeaderValue⟩] ++ (params.extraHeaders.map fun h => ⟨.fromBytes h.1, h.2⟩) ++
        (contentLength params).toList.map fun len => ⟨.known .contentLength, ascii (toString len)⟩ := by
    unfold requestFor
    cases contentLength params with
    | none => rfl
    | some len => rfl
  rw [hheaders, List.filter_append, List.filter_append, hextra, List.append_nil]

theorem framed_requestFor (origin : Origin) {params : RequestParams} (hparams : params.Unmanaged) :
    (requestFor origin params).Framed origin params := by
  have hmanaged : ∀ bytes, RequestParams.isManaged bytes = false →
      Bytes.asciiEqIgnoreCase bytes (ascii "Host") = false ∧ Bytes.asciiEqIgnoreCase bytes (ascii "Content-Length") = false ∧
        Bytes.asciiEqIgnoreCase bytes (ascii "Transfer-Encoding") = false := by
    intro bytes h
    simpa [RequestParams.isManaged, and_assoc] using h
  have hlength : ∀ name (keep : Bool), Bytes.asciiEqIgnoreCase (ascii "Content-Length") (ascii name) = keep →
      ((contentLength params).toList.map fun len => (⟨.known .contentLength, ascii (toString len)⟩ : Header)).filter
        (Header.named name) = if keep then (contentLength params).toList.map fun len =>
          ⟨.known .contentLength, ascii (toString len)⟩ else [] := by
    intro name keep hkeep
    have hall : ∀ h ∈ (contentLength params).toList.map fun len =>
        (⟨.known .contentLength, ascii (toString len)⟩ : Header), Header.named name h = keep := by
      intro h hh
      obtain ⟨len, -, rfl⟩ := List.mem_map.mp hh
      exact hkeep
    cases keep with
    | true => exact List.filter_eq_self.mpr hall
    | false =>
        refine List.filter_eq_nil_iff.mpr fun h hh => ?_
        rw [hall h hh]
        exact Bool.false_ne_true
  refine ⟨?_, ?_, ?_, ?_, ?_⟩
  · rw [filter_requestFor origin (fun bytes h => (hmanaged bytes h).1) hparams, hlength "Host" false (by decide)]
    rfl
  · rw [filter_requestFor origin (fun bytes h => (hmanaged bytes h).2.2) hparams,
      hlength "Transfer-Encoding" false (by decide)]
    rfl
  · rw [filter_requestFor origin (fun bytes h => (hmanaged bytes h).2.1) hparams, hlength "Content-Length" true (by decide)]
    rfl
  · unfold contentLength
    cases params.body with
    | some data => simp
    | none =>
        dsimp only
        split
        next hm => simp [hm]
        next hm => simp [hm]
  · unfold contentLength
    cases params.body with
    | some data => rfl
    | none =>
        dsimp only
        split
        · rfl
        · rfl

/-- A server reads the length of a body that the client has announced. -/
theorem number_toString (n : Nat) : RequestStream.number (Bytes.trimOws (ascii (toString n))) = some n := by
  have hdigits : ascii (toString n) = (Nat.toDigits 10 n).map fun c => UInt8.ofNat c.toNat := by
    unfold ascii
    rw [Nat.toString_eq_ofList_toDigits, String.toList_ofList]
  have hdigit : ∀ c ∈ Nat.toDigits 10 n, 0x30 ≤ c.toNat ∧ c.toNat ≤ 0x39 := by
    intro c hc
    have h := Nat.isDigit_of_mem_toDigits (by decide) (by decide) hc
    simpa [Char.isDigit, UInt32.le_iff_toNat_le] using h
  have hbyte : ∀ c : Char, c.toNat ≤ 0x39 → (UInt8.ofNat c.toNat).toNat = c.toNat := by
    intro c hc
    rw [UInt8.toNat_ofNat']
    exact Nat.mod_eq_of_lt (by omega)
  have hall : ∀ b ∈ ascii (toString n), isAsciiDigit b = true := by
    intro b hb
    rw [hdigits] at hb
    obtain ⟨c, hc, rfl⟩ := List.mem_map.mp hb
    obtain ⟨hlo, hhi⟩ := hdigit c hc
    unfold isAsciiDigit
    simp only [Bool.and_eq_true, decide_eq_true_eq, UInt8.le_iff_toNat_le, hbyte c hhi]
    exact ⟨hlo, hhi⟩
  have hows : ∀ b ∈ ascii (toString n), isOws b = false := by
    intro b hb
    have h := hall b hb
    unfold isAsciiDigit at h
    unfold isOws
    rw [Bool.eq_false_iff]
    intro hbad
    rcases Bool.or_eq_true_iff.mp hbad with heq | heq
    · rw [beq_iff_eq.mp heq] at h
      exact absurd h (by decide)
    · rw [beq_iff_eq.mp heq] at h
      exact absurd h (by decide)
  -- the value of the digits, as the server computes it
  have hfold : ∀ (cs : List Char) (acc : Nat), (∀ c ∈ cs, c ∈ Nat.toDigits 10 n) →
      (cs.map fun c => UInt8.ofNat c.toNat).foldl (fun n b => 10 * n + (b.toNat - 0x30)) acc = Nat.ofDigitChars 10 cs acc := by
    intro cs
    induction cs with
    | nil =>
        intro acc _
        rw [Nat.ofDigitChars_nil]
        rfl
    | cons c cs ih =>
        intro acc hcs
        obtain ⟨hc, hcs⟩ := List.forall_mem_cons.mp hcs
        rw [List.map_cons, List.foldl_cons, ih _ hcs, Nat.ofDigitChars_cons, hbyte c (hdigit c hc).2]
        rfl
  have htrim : Bytes.trimOws (ascii (toString n)) = ascii (toString n) := by
    simpa using @Bytes.trimOws_pad [] (ascii (toString n)) [] (by simp) hows
  unfold RequestStream.number
  rw [htrim, if_neg]
  · rw [hdigits, hfold _ 0 fun _ hc => hc, Nat.ofDigitChars_ten_toDigits]
  · simp only [Bool.or_eq_true, List.isEmpty_iff, List.any_eq_true, Bool.not_eq_true', not_or, not_exists, not_and]
    refine ⟨?_, fun b hb => by simp [hall b hb]⟩
    rw [hdigits]
    simp

theorem honest_requestFor {origin : Origin} {params : RequestParams} (hparams : params.Unmanaged)
    (hvalid : (requestFor origin params).validate = .ok ()) :
    Honest (requestFor origin params, params.body.getD []) := by
  have hframed := framed_requestFor origin hparams
  have hnamed : ∀ name, (requestFor origin params).headerPairs.filter (hasName name) =
      ((requestFor origin params).headers.filter (Header.named name)).map fun h => (h.name.asBytes, Bytes.trimOws h.value) := by
    intro name
    unfold Request.headerPairs
    rw [List.filter_map]
    rfl
  refine ⟨hvalid, ?_⟩
  unfold bodyLength
  have hcoding : (requestFor origin params).headerPairs.any (hasName "Transfer-Encoding") = false := by
    have hnone := hnamed "Transfer-Encoding"
    rw [hframed.coding, List.map_nil, List.filter_eq_nil_iff] at hnone
    exact List.any_eq_false.mpr hnone
  rw [if_neg (by rw [hcoding]; exact Bool.false_ne_true), hnamed, hframed.length]
  have hbody := hframed.body
  cases hlen : contentLength params with
  | none =>
      rw [hlen] at hbody
      exact congrArg some hbody
  | some len =>
      rw [hlen] at hbody
      show RequestStream.number (Bytes.trimOws (ascii (toString len))) = _
      rw [number_toString]
      exact congrArg some hbody

end Client

theorem Request.validate_of_serialized {r : Request} {head : Bytes} (h : r.serializeToWriter = .ok head) :
    r.validate = .ok () := by
  unfold serializeToWriter at h
  cases hv : r.validate with
  | ok u => rfl
  | error e =>
      rw [hv] at h
      cases h

/-! ## The world of a session -/

/-- What the control ring delivers was submitted, so its headers were accepted. -/
def Vetted : (op : Op) → op.Ret → Prop
  | .pop, some (.request r) | .popBlock, some (.request r) => RequestParams.validateExtraHeaders r.headers = .ok ()
  | _, _ => True

/-- The world of a session whose events `next` records, under a monitor. -/
def posted {σ : Type} (G : σ → Op → Prop) (next : σ → (op : Op) → op.Ret → σ) : World Sys σ where
  env := Eq
  guard := G
  act s op r s' := s' = next s op r ∧ Vetted op r
  env_refl _ := rfl
  env_trans h h' := h.trans h'

/-- What is written goes on with the request that its connection is about. -/
def Continues (w : Wire) : Op → Prop
  | .write buf => ∃ c cs ex exs, w.connections = c :: cs ∧ c.exchanges = ex :: exs ∧ ex.sent ++ buf <+: ex.wire
  | .mark (.exchange params request) => ∃ c cs, w.connections = c :: cs ∧ request = Client.requestFor c.origin params ∧
      request.validate = .ok () ∧ params.Unmanaged
  | _ => True

/-- The requests that wait set none of the client's headers. -/
def Local.Orderly (l : Local) : Prop := ∀ r ∈ l.pending, (ReaderWorker.paramsOf r).Unmanaged

section

variable {σ : Type} {G : σ → Op → Prop} {next : σ → (op : Op) → op.Ret → σ} {l : Local} {s s' : σ}

/-- A request from the control ring may wait. -/
theorem Local.Orderly.posted {r : AsyncRequest} (h : l.Orderly)
    (hact : (posted G next).act s .pop (some (.request r)) s' ∨ (posted G next).act s .popBlock (some (.request r)) s') :
    Local.Orderly { l with pending := l.pending ++ [r] } := by
  intro r' hr'
  rcases List.mem_append.mp hr' with hr' | hr'
  · exact h r' hr'
  · rw [List.mem_singleton.mp hr']
    rcases hact with hact | hact
    · exact RequestParams.unmanaged_of_accepted hact.2
    · exact RequestParams.unmanaged_of_accepted hact.2

end

/-! ## One request -/

/-- The points of `send_head_once`: before the request is begun, and after that. -/
def Staged (params : RequestParams) (request : Request) : Bool → Op → Prop
  | false, op => op.isListening ∨ op = .mark (.exchange params request) ∧ request.validate = .ok ()
  | true, .connect _ _ | true, .mark (.exchange _ _) | true, .mark (.taken _) => False
  | true, _ => True

def nextStage (begun : Bool) : (op : Op) → op.Ret → Bool
  | .mark (.exchange _ _), _ => true
  | _, _ => begun

/-- The stage, while the client's origin is `o`. -/
def atStage (params : RequestParams) (request : Request) (o : Origin) (begun : Bool) :
    (posted (Staged params request) nextStage).Assertion Local where
  holds l b := b = begun ∧ l.client.origin = o ∧ l.Orderly
  stable henv h := by
    cases henv
    exact h

/-- The client's origin is `o` at any stage. -/
def anyStage (params : RequestParams) (request : Request) (o : Origin) :
    (posted (Staged params request) nextStage).Assertion Local where
  holds l _ := l.client.origin = o ∧ l.Orderly
  stable _ h := h

section

variable {params : RequestParams} {request : Request} {o : Origin}

theorem listening_atStage (begun : Bool) : Listening (atStage params request o begun) where
  client l b c hc h := ⟨h.1, hc.2.trans h.2.1, h.2.2⟩
  wire op hop l b h := by
    have hguard : Staged params request b op := by
      cases b with
      | false => exact .inl hop
      | true =>
          cases op with
          | now => trivial
          | mark m =>
              cases m with
              | response acc headEnd => trivial
              | _ => cases hop
          | _ => cases hop
    refine ⟨hguard, fun r b' hact => ⟨?_, h.2⟩⟩
    rw [hact.1, ← h.1]
    cases op with
    | now => rfl
    | mark m =>
        cases m with
        | response acc headEnd => rfl
        | _ => cases hop
    | _ => cases hop

/-- Nothing that is allowed after the beginning leaves this stage. -/
theorem begun_step {op : Op} (hguard : Staged params request true op) (l : Local) (b : Bool)
    (h : atStage params request o true l b) : (posted (Staged params request) nextStage).guard b op ∧
      ∀ r b', (posted (Staged params request) nextStage).act b op r b' → atStage params request o true l b' := by
  obtain ⟨rfl, h⟩ := h
  refine ⟨hguard, fun r b' hact => ⟨?_, h⟩⟩
  rw [hact.1]
  cases op with
  | mark m =>
      cases m with
      | exchange p r => cases hguard
      | _ => rfl
  | _ => rfl

theorem hearing_begun : Hearing (atStage params request o true) where
  listening := listening_atStage true
  read _ := begun_step trivial

theorem queueing_begun : Queueing (atStage params request o true) where
  own l b l' hclient hpending h := ⟨h.1, hclient ▸ h.2.1, fun r hr => h.2.2 r (hpending r hr)⟩
  shared op hop := by
    refine begun_step ?_
    cases op with
    | connect url d => cases hop
    | mark m => cases hop
    | _ => trivial
  popped l b b' r h hact := by
    refine ⟨?_, h.2.1, h.2.2.posted hact⟩
    rw [← h.1]
    rcases hact with hact | hact
    · exact hact.1
    · exact hact.1

theorem keeps_begun {i : Interrupt} (hi : i.IsOwn) : Keeps (atStage params request o true) (i : M Empty Bool) := by
  cases hi with
  | never => exact Keeps.pure false
  | interruptOf fuel t => exact ReaderWorker.aside_interruptOf queueing_begun fuel t

theorem keeping_begun {i : Interrupt} (hi : i.IsOwn) : (Stream.interruptible i).Keeping (atStage params request o true) where
  read := hearing_begun.keeps_interruptible (keeps_begun hi)
  write _ := keeps_unless (i.keeps_isCancelled (keeps_begun hi))
    (Triple.seq (Triple.call (begun_step trivial)) fun _ => Keeps.ofExcept _)
  flush := keeps_unless (i.keeps_isCancelled (keeps_begun hi))
    (Triple.seq (Triple.call (begun_step trivial)) fun _ => Keeps.ofExcept _)

theorem atStage_any {begun : Bool} {l : Local} {b : Bool} (h : atStage params request o begun l b) :
    anyStage params request o l b := h.2

/-- **One request** is begun once, before anything is written. -/
theorem staged_sendHeadOnce {i : Interrupt} (hi : i.IsOwn) (fuel : Nat) (params : RequestParams) (deadline : RequestDeadline)
    (o : Origin) : Triple (atStage params (Client.requestFor o params) o false) (Client.sendHeadOnce fuel params deadline i)
      fun _ => anyStage params (Client.requestFor o params) o := by
  have hL : Listening (atStage params (Client.requestFor o params) o false) := listening_atStage false
  -- all but the check of the deadline
  have hgo : Triple (atStage params (Client.requestFor o params) o false) (do
      M.modifyClient fun c => { c with headBuf := [] }
      let c ← M.client
      let request := Client.requestFor c.origin params
      M.modifyClient fun c => { c with writeBuf := [] }
      let head ← Act.mapError Error.ofStdIo (Act.ofExcept request.serializeToWriter)
      M.modifyClient fun c => { c with writeBuf := head }
      Client.discardPartialResponse
      M.mark (.exchange params request)
      let budget ← WriteBudget.withDeadline c.config.headSilence deadline
      let wire := Stream.interruptible i
      Client.writeRequest wire fuel budget params.body
      HeadData.readResponse wire c.maxHeadSize c.config.headSilence deadline params.method fuel) fun _ =>
        anyStage params (Client.requestFor o params) o := by
    refine Triple.bind (hL.modifyClient _ fun _ => ⟨rfl, rfl⟩) (fun _ => ?_) fun _ _ _ => atStage_any
    refine Triple.lookClient fun l₀ => ?_
    refine Triple.given (φ := l₀.client.origin = o) (fun l b h => h.1 ▸ h.2.2.1) fun ho => ?_
    refine Triple.conseq (P := atStage params (Client.requestFor o params) o false) ?_ (fun _ _ h => h.2) fun _ _ _ h => h
    rw [ho]
    refine Triple.bind (hL.modifyClient _ fun _ => ⟨rfl, rfl⟩) (fun _ => ?_) fun _ _ _ => atStage_any
    have hhead : Triple (atStage params (Client.requestFor o params) o false)
        (Act.mapError Error.ofStdIo (Act.ofExcept (Client.requestFor o params).serializeToWriter) : M Error Bytes)
        (yielding (atStage params (Client.requestFor o params) o false) fun _ =>
          (Client.requestFor o params).validate = .ok ()) := by
      refine Triple.mapError (Q := yielding (atStage params (Client.requestFor o params) o false) fun _ =>
        (Client.requestFor o params).validate = .ok ()) (Triple.ofExcept fun l b h => ⟨h, fun head hr => ?_⟩) ?_
      · exact Request.validate_of_serialized hr
      · rintro (e | head) l b h
        · exact yielding_error h.1
        · exact yielding_ok h.1 (h.2 head rfl)
    refine Triple.bind hhead (fun head => ?_) fun _ _ _ h => atStage_any h.1
    refine Triple.given (φ := (Client.requestFor o params).validate = .ok ()) (fun l b h => h.2 head rfl) fun hvalid => ?_
    refine Triple.conseq (P := atStage params (Client.requestFor o params) o false) ?_ (fun _ _ h => h.1) fun _ _ _ h => h
    refine Triple.bind (hL.modifyClient _ fun _ => ⟨rfl, rfl⟩) (fun _ => ?_) fun _ _ _ => atStage_any
    refine Triple.bind (hL.modifyClient _ fun _ => ⟨rfl, rfl⟩) (fun _ => ?_) fun _ _ _ => atStage_any
    -- from here on the exchange has begun
    have hmark : Sure (atStage params (Client.requestFor o params) o false)
        (M.mark (.exchange params (Client.requestFor o params)) : M Error Unit) fun _ =>
          atStage params (Client.requestFor o params) o true := by
      refine Triple.call fun l b h => ⟨?_, fun r b' hact => ⟨hact.1, h.2⟩⟩
      rw [show b = false from h.1]
      exact .inr ⟨rfl, hvalid⟩
    refine Triple.after hmark fun _ => ?_
    have hL : Listening (atStage params (Client.requestFor o params) o true) := listening_atStage true
    have hs : (Stream.interruptible i).Keeping (atStage params (Client.requestFor o params) o true) := keeping_begun hi
    refine Triple.conseq (Triple.seq (WriteBudget.keeps_withDeadline hL _ _) fun budget => ?_) (fun _ _ h => h)
      fun _ _ _ => atStage_any
    refine Triple.seq (Client.keeps_writeRequest hL hs fuel budget _) fun _ => ?_
    exact HeadData.keeps_readResponse hL hs.read _ _ _ _ fuel
  refine Triple.bind (deadline.keeps_check hL) (fun _ => ?_) fun _ _ _ => atStage_any
  split
  · exact Triple.bind (Keeps.throw _) (fun _ => hgo) fun _ _ _ => atStage_any
  · exact hgo

end

/-! ### Its bytes -/

/-- What an operation between the beginning of an exchange and the next one makes of it. -/
theorem Wire.next_latest {w : Wire} {c : Connection} {cs : List Connection} {ex : Exchange} {exs : List Exchange}
    (hw : w.connections = { c with exchanges := ex :: exs } :: cs) {params : RequestParams} {request : Request} {op : Op}
    (hop : Staged params request true op) (r : op.Ret) {u : Upload} (hu : u.accepted = ex.sent) :
    ∃ ex', (w.next op r).connections = { c with exchanges := ex' :: exs } :: cs ∧ ex'.params = ex.params ∧
      ex'.request = ex.request ∧ (u.next op r).accepted = ex'.sent := by
  obtain ⟨connections, fired, log⟩ := w
  subst hw
  have hsame : ∀ {w' : Wire}, w'.connections = { c with exchanges := ex :: exs } :: cs → ∃ ex',
      w'.connections = { c with exchanges := ex' :: exs } :: cs ∧ ex'.params = ex.params ∧ ex'.request = ex.request ∧
        u.accepted = ex'.sent := fun h => ⟨ex, h, rfl, rfl, hu⟩
  cases op with
  | connect url d => cases hop
  | read len =>
      cases r with
      | error e => exact hsame rfl
      | ok bs => exact ⟨{ ex with received := ex.received ++ bs.val }, rfl, rfl, rfl, hu⟩
  | write buf =>
      cases r with
      | error e => exact hsame rfl
      | ok n => exact ⟨{ ex with sent := ex.sent ++ buf.take n.val }, rfl, rfl, rfl, by rw [← hu]; rfl⟩
  | flush =>
      cases r with
      | error e => exact hsame rfl
      | ok n => exact ⟨{ ex with flushed := ex.sent }, rfl, rfl, rfl, hu⟩
  | mark m =>
      cases m with
      | exchange p r => cases hop
      | _ => exact hsame rfl
  | _ => exact hsame rfl

/-- How the record of a session reflects the progress of one request on its connection `c`. -/
def Reflects (c : Connection) (cs : List Connection) (params : RequestParams) (request : Request) (s : Upload × Bool)
    (w : Wire) : Prop :=
  (s.2 = false ∧ s.1.accepted = [] ∧ w.connections = c :: cs) ∨
    (s.2 = true ∧ ∃ ex, w.connections = { c with exchanges := ex :: c.exchanges } :: cs ∧ ex.params = params ∧
      ex.request = request ∧ s.1.accepted = ex.sent)

section

variable {c : Connection} {cs : List Connection} {params : RequestParams} {w : Wire} {u : Upload} {b : Bool}

/-- The request goes on: what it may do, the session may do. -/
theorem Reflects.continues (h : Reflects c cs params (Client.requestFor c.origin params) (u, b) w) (hparams : params.Unmanaged)
    {op : Op} (hresumes : Upload.Resumes [(Client.requestFor c.origin params).wire,
      (Client.requestFor c.origin params).wire ++ params.body.getD []] u op)
    (hstaged : Staged params (Client.requestFor c.origin params) b op) : Continues w op := by
  cases op with
  | write buf =>
      rcases h with ⟨hb, -, -⟩ | ⟨-, ex, hw, rfl, hrequest, hsent⟩
      · obtain rfl : b = false := hb
        rcases hstaged with h | ⟨h, -⟩
        · cases h
        · cases h
      · refine ⟨_, cs, ex, _, hw, rfl, ?_⟩
        unfold Exchange.wire
        rw [← hsent, hrequest]
        rcases List.mem_pair.mp hresumes.2 with h | h
        · rw [show u.accepted ++ buf = _ from h]
          exact List.prefix_append _ _
        · rw [show u.accepted ++ buf = _ from h]
  | mark m =>
      cases m with
      | exchange p r =>
          rcases h with ⟨hb, -, hw⟩ | ⟨hb, -⟩
          · obtain rfl : b = false := hb
            rcases hstaged with h | ⟨h, hvalid⟩
            · cases h
            · cases h
              exact ⟨c, cs, hw, rfl, hvalid, hparams⟩
          · obtain rfl : b = true := hb
            cases hstaged
      | _ => trivial
  | _ => trivial

theorem Reflects.next {request : Request} (h : Reflects c cs params request (u, b) w) {op : Op}
    (hstaged : Staged params request b op) (r : op.Ret) :
    Reflects c cs params request (u.next op r, nextStage b op r) (w.next op r) := by
  rcases h with ⟨hb, hu, hw⟩ | ⟨hb, ex, hw, hparams, hrequest, hu⟩
  · obtain rfl : b = false := hb
    rcases hstaged with hop | ⟨rfl, -⟩
    · cases op with
      | now => exact .inl ⟨rfl, hu, hw⟩
      | mark m =>
          cases m with
          | response acc headEnd => exact .inl ⟨rfl, hu, hw⟩
          | _ => cases hop
      | _ => cases hop
    · refine .inr ⟨rfl, ⟨params, request, [], [], []⟩, ?_, rfl, rfl, hu⟩
      show (Wire.begin params request w).connections = _
      unfold Wire.begin Wire.onLatest
      rw [hw]
      rfl
  · obtain rfl : b = true := hb
    obtain ⟨ex', hw', hparams', hrequest', hsent⟩ := Wire.next_latest hw hstaged r hu
    refine .inr ⟨?_, ex', hw', hparams'.trans hparams, hrequest'.trans hrequest, hsent⟩
    cases op with
    | mark m =>
        cases m with
        | exchange p r => cases hstaged
        | _ => rfl
    | _ => rfl

end

/-! ## Every block of a session -/

/-- The client's origin is the one of the latest connection, and the requests that wait are in order. -/
def homed : (posted Continues Wire.next).Assertion Local where
  holds l w := (∃ c cs, w.connections = c :: cs ∧ c.origin = l.client.origin) ∧ l.Orderly
  stable henv h := by
    cases henv
    exact h

/-- Only a new connection changes where the latest one goes. -/
theorem Wire.next_origin {w : Wire} {c : Connection} {cs : List Connection} (hw : w.connections = c :: cs) {op : Op}
    (hop : ∀ url d, op ≠ .connect url d) (r : op.Ret) :
    ∃ c' cs', (w.next op r).connections = c' :: cs' ∧ c'.origin = c.origin := by
  obtain ⟨connections, fired, log⟩ := w
  subst hw
  have hsame : ∀ {w' : Wire}, w'.connections = c :: cs → ∃ c' cs', w'.connections = c' :: cs' ∧ c'.origin = c.origin :=
    fun h => ⟨c, cs, h, rfl⟩
  cases op with
  | connect url d => exact absurd rfl (hop url d)
  | read len =>
      cases r with
      | error e => exact hsame rfl
      | ok bs =>
          refine ⟨c.receive bs.val, cs, rfl, ?_⟩
          unfold Connection.receive
          split
          · rfl
          · rfl
  | write buf =>
      cases r with
      | error e => exact hsame rfl
      | ok n =>
          refine ⟨c.send (buf.take n.val), cs, rfl, ?_⟩
          unfold Connection.send
          split
          · rfl
          · rfl
  | flush =>
      cases r with
      | error e => exact hsame rfl
      | ok n => exact ⟨_, cs, rfl, rfl⟩
  | mark m =>
      cases m with
      | exchange p r => exact ⟨_, cs, rfl, rfl⟩
      | _ => exact hsame rfl
  | _ => exact hsame rfl

/-- An operation that is allowed anywhere. -/
def Op.isFree : Op → Bool
  | .connect _ _ | .write _ | .mark (.exchange _ _) => false
  | _ => true

theorem homed_step {op : Op} (hop : op.isFree) (l : Local) (w : Wire) (h : homed l w) :
    (posted Continues Wire.next).guard w op ∧ ∀ r w', (posted Continues Wire.next).act w op r w' → homed l w' := by
  obtain ⟨⟨c, cs, hw, ho⟩, hl⟩ := h
  refine ⟨?_, fun r w' hact => ⟨?_, hl⟩⟩
  · cases op with
    | write buf => cases hop
    | mark m =>
        cases m with
        | exchange p r => cases hop
        | _ => trivial
    | _ => trivial
  · obtain ⟨rfl, -⟩ := hact
    obtain ⟨c', cs', hw', ho'⟩ := Wire.next_origin hw (by rintro url d rfl; cases hop) r
    exact ⟨c', cs', hw', ho'.trans ho⟩

theorem hearing_homed : Hearing homed where
  listening := {
    client := fun l w c hc h => ⟨by rw [hc.2]; exact h.1, h.2⟩
    wire := fun op hop => homed_step (by
      cases op with
      | now => rfl
      | mark m =>
          cases m with
          | response acc headEnd => rfl
          | _ => cases hop
      | _ => cases hop) }
  read _ := homed_step rfl

theorem queueing_homed : Queueing homed where
  own l w l' hclient hpending h := ⟨hclient ▸ h.1, fun r hr => h.2 r (hpending r hr)⟩
  shared op hop := homed_step (by
    cases op with
    | connect url d => cases hop
    | mark m => cases hop
    | write buf => cases hop
    | _ => rfl)
  popped l w w' r h hact := by
    have hpending := h.2.posted hact
    rcases hact with hact | hact
    · exact ⟨((homed_step rfl l w h).2 _ w' hact).1, hpending⟩
    · exact ⟨((homed_step rfl l w h).2 _ w' hact).1, hpending⟩

/-- **One request** in a session. -/
theorem homed_sendHeadOnce {i : Interrupt} (hi : i.IsOwn) (fuel : Nat) {params : RequestParams} (hparams : params.Unmanaged)
    (deadline : RequestDeadline) : Keeps homed (Client.sendHeadOnce fuel params deadline i) := by
  rintro l w ⟨⟨c, cs, hw, ho⟩, hl⟩
  have hmute : i.Mute := by
    cases hi with
    | never => exact Interrupt.mute_never
    | interruptOf fuel t => exact Interrupt.mute_interruptOf fuel t
  have hsends := Client.sends_sendHeadOnce hmute fuel params deadline l rfl
  have hstaged := staged_sendHeadOnce hi fuel params deadline l.client.origin l false ⟨rfl, rfl, hl⟩
  rw [← ho] at hsends hstaged
  refine Prog.wp_mono (Prog.wp_simulated (R := Reflects c cs params (Client.requestFor c.origin params)) ?_ ?_ ?_
    (.inl ⟨rfl, rfl, hw⟩) (Prog.wp_beside hsends hstaged)) ?_
  · rintro s w _ hR rfl
    exact ⟨s, ⟨rfl, rfl⟩, hR⟩
  · rintro ⟨u, b⟩ w op hR ⟨hresumes, hstage⟩
    exact hR.continues hparams hresumes hstage
  · rintro ⟨u, b⟩ w op r _ hR ⟨-, hstage⟩ ⟨rfl, hvetted⟩
    exact ⟨(u.next op r, nextStage b op r), ⟨rfl, rfl, hvetted⟩, hR.next hstage r⟩
  · rintro ⟨r, l'⟩ w' ⟨⟨u, b⟩, hR, -, horigin, hl'⟩
    refine ⟨?_, hl'⟩
    rcases hR with ⟨-, -, hw'⟩ | ⟨-, ex, hw', -⟩
    · exact ⟨c, cs, hw', horigin.symm⟩
    · exact ⟨_, cs, hw', horigin.symm⟩

/-- The latest connection goes to `url`. -/
def opened (url : Url) : (posted Continues Wire.next).Assertion Local where
  holds l w := (∃ c cs, w.connections = c :: cs ∧ c.origin = .fromUrl url) ∧ l.Orderly
  stable henv h := by
    cases henv
    exact h

/-- What a connect leaves. -/
def dialled (url : Url) : Except Error Unit → (posted Continues Wire.next).Assertion Local
  | .ok _ => opened url
  | .error _ => homed

theorem dialled_connect (url : Url) (d : Deadline) : Triple homed (M.connect url d) (dialled url) := by
  refine Triple.after (R := dialled url) (Triple.call fun l w h => ⟨trivial, fun r w' hact => ?_⟩) fun r =>
    Triple.ofExcept fun _ _ h => h
  obtain ⟨rfl, -⟩ := hact
  cases r with
  | error e => exact h
  | ok u => exact ⟨⟨_, _, rfl, rfl⟩, h.2⟩

theorem homed_applyTimeouts : Keeps homed Client.applyTimeouts := by
  refine Triple.seq Keeps.client fun c => ?_
  refine Triple.seq (Keeps.mapError (Triple.seq (Triple.call (homed_step rfl)) fun _ => Keeps.ofExcept _)) fun _ => ?_
  exact Keeps.mapError (Triple.seq (Triple.call (homed_step rfl)) fun _ => Keeps.ofExcept _)

/-- A reconnect moves the client to where the new connection goes. -/
theorem homed_reconnect (url : Url) (deadline : RequestDeadline) : Keeps homed (Client.reconnectWithDeadline url deadline) := by
  have hL := hearing_homed.listening
  refine Triple.seq (deadline.keeps_check hL) fun _ => Triple.seq Keeps.client fun c => ?_
  refine Triple.seq (c.config.keeps_connectDeadline hL) fun fallback => ?_
  refine Triple.seq (deadline.keeps_connectDeadline hL fallback) fun d => ?_
  refine Triple.bind (dialled_connect url d) (fun _ => ?_) fun _ _ _ h => h
  refine Triple.after (R := fun _ => homed) (Triple.modify fun l w h => h) fun _ => ?_
  exact Triple.seq homed_applyTimeouts fun _ => hL.modifyClient _ fun _ => ⟨rfl, rfl⟩

theorem throughout_homed : Throughout RequestParams.Unmanaged homed where
  hearing := hearing_homed
  queueing := queueing_homed
  note op hop := homed_step (by
    cases op with
    | connect url d => cases hop
    | write buf => cases hop
    | mark m =>
        cases m with
        | exchange p r => cases hop
        | _ => rfl
    | _ => rfl)
  reconnect := homed_reconnect
  send fuel _ deadline _ hi hparams := homed_sendHeadOnce hi fuel hparams deadline
  waiting _ _ h := h.2

/-! ## Sessions -/

/-- There need not be a connection. -/
def unconnected : (posted Continues Wire.next).Assertion Local where
  holds l _ := l.Orderly
  stable _ h := h

theorem listening_unconnected : Listening unconnected where
  client _ _ _ _ h := h
  wire op hop l w h := by
    refine ⟨?_, fun r w' _ => h⟩
    cases op with
    | write buf => cases hop
    | mark m =>
        cases m with
        | exchange p r => cases hop
        | _ => trivial
    | _ => trivial

/-- What the first connect leaves. -/
def reached (url : Url) : Except Error Unit → (posted Continues Wire.next).Assertion Local
  | .ok _ => opened url
  | .error _ => unconnected

/-- What `Client::connect` leaves. -/
def connected : Except Error Unit → (posted Continues Wire.next).Assertion Local
  | .ok _ => homed
  | .error _ => unconnected

theorem connected_connect (urlBytes : Bytes) (config : Config) (maxHeadSize : Nat) :
    Triple unconnected (Client.connect urlBytes config maxHeadSize) connected := by
  refine Triple.bind (R := fun _ => unconnected) (Keeps.ofExcept _) (fun _ => ?_) fun _ _ _ h => h
  refine Triple.bind (R := fun _ => unconnected) (Keeps.ofExcept _) (fun url => ?_) fun _ _ _ h => h
  refine Triple.bind (R := fun _ => unconnected) (config.keeps_connectDeadline listening_unconnected) (fun d => ?_)
    fun _ _ _ h => h
  have hconnect : Triple unconnected (M.connect url d) (reached url) := by
    refine Triple.after (R := reached url) (Triple.call fun l w h => ⟨trivial, fun r w' hact => ?_⟩) fun r =>
      Triple.ofExcept fun _ _ h => h
    obtain ⟨rfl, -⟩ := hact
    cases r with
    | error e => exact h
    | ok u => exact ⟨⟨_, _, rfl, rfl⟩, h⟩
  refine Triple.bind hconnect (fun _ => ?_) fun _ _ _ h => h
  refine Triple.after (R := fun _ => homed) (Triple.modify fun l w h => h) fun _ => ?_
  refine Triple.conseq homed_applyTimeouts (fun _ _ h => h) fun r l w h => ?_
  cases r with
  | error e => exact h.2
  | ok u => exact h

/-- **Every write** of a session goes on with the request that its connection is about. -/
theorem continues_session (fuel : Nat) (urlBytes : Bytes) (config : Config) (maxHeadSize : Nat) (calls : List Call) :
    Triple unconnected (session fuel urlBytes config maxHeadSize calls) fun _ => unconnected := by
  refine Triple.bind (connected_connect urlBytes config maxHeadSize) (fun _ => ?_) fun _ _ _ h => h
  exact Triple.conseq (throughout_homed.performAll persistent_unmanaged fuel calls) (fun _ _ h => h) fun _ _ _ h => h.2

/-- What a connection carries: whole requests, each as the client makes it for the origin of the connection, and a part of
    one more; and nothing else. -/
structure Connection.Carries (c : Connection) : Prop where
  claimed : c.unclaimed = []
  whole : ∀ ex ∈ c.exchanges.tail, ex.sent = ex.wire
  latest : ∀ ex ∈ c.exchanges.head?, ex.sent <+: ex.wire
  made : ∀ ex ∈ c.exchanges, ex.request = Client.requestFor c.origin ex.params ∧ ex.request.validate = .ok () ∧
    ex.params.Unmanaged

namespace Connection.Carries

variable {c : Connection}

/-- Only what was sent matters. -/
theorem onLatest (h : c.Carries) {f : Exchange → Exchange} (hf : ∀ ex, (f ex).params = ex.params ∧ (f ex).request = ex.request)
    (hsent : ∀ ex ∈ c.exchanges.head?, (f ex).sent <+: ex.wire) : (c.onLatest f).Carries := by
  obtain ⟨o, exchanges, stray, unclaimed⟩ := c
  cases exchanges with
  | nil => exact h
  | cons ex exs =>
      refine ⟨h.claimed, h.whole, ?_, List.forall_mem_cons.mpr ⟨?_, (List.forall_mem_cons.mp h.made).2⟩⟩
      · rintro _ ⟨⟩
        have hwire : (f ex).wire = ex.wire := by rw [Exchange.wire, Exchange.wire, (hf ex).1, (hf ex).2]
        rw [hwire]
        exact hsent ex rfl
      · rw [(hf ex).1, (hf ex).2]
        exact (List.forall_mem_cons.mp h.made).1

theorem receive (h : c.Carries) (bs : Bytes) : (c.receive bs).Carries := by
  unfold Connection.receive
  split
  next hnil => exact ⟨h.claimed, h.whole, h.latest, h.made⟩
  · exact h.onLatest (fun _ => ⟨rfl, rfl⟩) h.latest

/-- Bytes that go on with the latest request. -/
theorem send (h : c.Carries) {bs : Bytes} {ex : Exchange} {exs : List Exchange} (hexs : c.exchanges = ex :: exs)
    (hbegins : ex.sent ++ bs <+: ex.wire) : (c.send bs).Carries := by
  unfold Connection.send
  rw [hexs]
  refine h.onLatest (fun _ => ⟨rfl, rfl⟩) fun ex' hex => ?_
  rw [hexs] at hex
  cases hex
  exact hbegins

end Connection.Carries

/-- An operation that both monitors allow leaves every connection as it should be. -/
theorem carries_next {w : Wire} {op : Op} (r : op.Ret) (hcontinues : Continues w op) (hisolated : Isolated w op)
    (h : ∀ c ∈ w.connections, c.Carries) : ∀ c ∈ (w.next op r).connections, c.Carries := by
  have hlatest : ∀ {f : Connection → Connection}, (∀ c cs, w.connections = c :: cs → c.Carries → (f c).Carries) →
      ∀ c ∈ (w.onLatest f).connections, c.Carries := by
    intro f hf
    show ∀ c ∈ w.connections.modifyHead f, c.Carries
    cases hw : w.connections with
    | nil => rw [hw] at h; exact h
    | cons c cs =>
        rw [hw] at h
        obtain ⟨hc, hcs⟩ := List.forall_mem_cons.mp h
        exact List.forall_mem_cons.mpr ⟨hf c cs hw hc, hcs⟩
  cases op with
  | connect url d =>
      cases r with
      | error e => exact h
      | ok u => exact List.forall_mem_cons.mpr ⟨⟨rfl, by simp, by simp, by simp⟩, h⟩
  | read len =>
      cases r with
      | error e => exact h
      | ok bs => exact hlatest fun c cs _ hc => hc.receive bs.val
  | write buf =>
      cases r with
      | error e => exact h
      | ok n =>
          refine hlatest fun c cs hw hc => ?_
          obtain ⟨c', cs', ex, exs, hw', hexs, hbegins⟩ := hcontinues
          rw [hw] at hw'
          cases hw'
          exact hc.send hexs (((List.prefix_append_right_inj _).mpr (List.take_prefix _ _)).trans hbegins)
  | flush =>
      cases r with
      | error e => exact h
      | ok n => exact hlatest fun c cs _ hc => hc.onLatest (fun _ => ⟨rfl, rfl⟩) hc.latest
  | mark m =>
      cases m with
      | exchange params request =>
          refine hlatest fun c cs hw hc => ?_
          obtain ⟨c', cs', hw', hrequest, hvalid, hparams⟩ := hcontinues
          obtain ⟨c'', cs'', hw'', hclean⟩ := hisolated
          rw [hw] at hw' hw''
          cases hw'
          cases hw''
          refine ⟨hc.claimed, fun ex hex => (hclean.complete ex hex).sent, ?_,
            List.forall_mem_cons.mpr ⟨⟨hrequest, hvalid, hparams⟩, hc.made⟩⟩
          rintro _ ⟨⟩
          exact List.nil_prefix
      | _ => exact h
  | _ => exact h

/-! ## What a server reads -/

namespace Connection

/-- The bytes written on the connection: those that are of no exchange came before the first. -/
def output (c : Connection) : Bytes := c.unclaimed ++ (c.exchanges.reverse.map Exchange.sent).flatten

end Connection

/-- The request of an exchange, as a server reads it. -/
def Exchange.served (ex : Exchange) : RequestStream.Received :=
  RequestStream.received (ex.request, ex.params.body.getD [])

/-- A server that reads the connection finds the requests that were sent, and a part of one more or nothing. -/
def Connection.Served (c : Connection) : Prop :=
  ∃ done part, (c.exchanges = done ∧ part = [] ∨ ∃ ex, c.exchanges = ex :: done ∧ part = ex.sent ∧ part ≠ ex.wire) ∧
    RequestStream.readAll c.output = (done.reverse.map Exchange.served, part)

theorem Connection.Carries.served {c : Connection} (h : c.Carries) : c.Served := by
  obtain ⟨o, exchanges, stray, unclaimed⟩ := c
  have hhonest : ∀ ex ∈ exchanges, Honest (ex.request, ex.params.body.getD []) := by
    intro ex hex
    obtain ⟨hrequest, hvalid, hparams⟩ := h.made ex hex
    rw [hrequest] at hvalid ⊢
    exact Client.honest_requestFor hparams hvalid
  -- the bytes of requests that were sent in full
  have hsent : ∀ done : List Exchange, (∀ ex ∈ done, ex.sent = ex.wire) → (done.reverse.map Exchange.sent).flatten =
      (done.reverse.map fun ex => (ex.request, ex.params.body.getD [])).flatMap RequestStream.bytes := by
    intro done hdone
    rw [List.flatMap_map, ← List.flatMap_def]
    exact List.flatMap_congr fun ex hex => hdone ex (List.mem_reverse.mp hex)
  have hread : ∀ (done : List Exchange) (part : Bytes), (∀ ex ∈ done, ex.sent = ex.wire ∧ ex ∈ exchanges) →
      RequestStream.readRequest part = none →
      RequestStream.readAll ((done.reverse.map Exchange.sent).flatten ++ part) = (done.reverse.map Exchange.served, part) := by
    intro done part hdone hpart
    rw [hsent done fun ex hex => (hdone ex hex).1, RequestStream.readAll_wires ?_ hpart, List.map_map]
    · rfl
    · intro x hx
      obtain ⟨ex, hex, rfl⟩ := List.mem_map.mp hx
      exact hhonest ex (hdone ex (List.mem_reverse.mp hex)).2
  obtain rfl : unclaimed = [] := h.claimed
  by_cases hall : ∀ ex ∈ exchanges, ex.sent = ex.wire
  · refine ⟨exchanges, [], .inl ⟨rfl, rfl⟩, ?_⟩
    have hall := hread exchanges [] (fun ex hex => ⟨hall ex hex, hex⟩) rfl
    rwa [List.append_nil] at hall
  · cases exchanges with
    | nil => exact absurd (fun ex hex => by cases hex) hall
    | cons ex exs =>
        have hpart : ex.sent ≠ ex.wire := fun heq => hall (List.forall_mem_cons.mpr ⟨heq, h.whole⟩)
        refine ⟨exs, ex.sent, .inr ⟨ex, rfl, rfl, hpart⟩, ?_⟩
        have hone := RequestStream.readRequest_bytes (hhonest ex (List.mem_cons_self)) []
        rw [List.append_nil] at hone
        have hnone := RequestStream.readRequest_part hone (h.latest ex rfl) hpart
        have hrest := hread exs ex.sent (fun ex' hex' => ⟨h.whole ex' hex', List.mem_cons_of_mem _ hex'⟩) hnone
        rw [Connection.output, List.reverse_cons, List.map_append, List.flatten_append]
        simpa using hrest

/-- **What a session writes.** In every run of a session whose control ring holds submitted requests, every write goes on
    with the request that the latest connection is about. On each connection the bytes are whole requests and a part of
    one more, and nothing else; a server that reads them finds just these. Each is made for the origin of the connection,
    with one `Host`, no `Transfer-Encoding`, and a `Content-Length`, if it has one, that is the length of its body. -/
theorem sessions_write_requests {fuel : Nat} {urlBytes : Bytes} {config : Config} {maxHeadSize : Nat} {calls : List Call}
    {l : Local} {p : Prog Sys (Except Error Unit × Local)} {w : Wire} (hl : l.pending = [])
    (hrun : Prog.Reach (posted Continues Wire.next) (session fuel urlBytes config maxHeadSize calls l) ⟨[], false, []⟩ p w) :
    (∀ buf, p.next? = some (.write buf) → ∃ c cs ex exs, w.connections = c :: cs ∧ c.exchanges = ex :: exs ∧
      ex.sent ++ buf <+: ex.wire) ∧
    ∀ c ∈ w.connections, c.unclaimed = [] ∧ (∀ ex ∈ c.exchanges.tail, ex.sent = ex.wire) ∧
      (∀ ex ∈ c.exchanges.head?, ex.sent <+: ex.wire) ∧
      (∀ ex ∈ c.exchanges, ex.request = Client.requestFor c.origin ex.params ∧ ex.request.Framed c.origin ex.params) ∧
      c.Served := by
  have horderly : l.Orderly := by
    intro r hr
    rw [hl] at hr
    cases hr
  have hsession := continues_session fuel urlBytes config maxHeadSize calls l ⟨[], false, []⟩ horderly
  have hcarries : ∀ c ∈ w.connections, c.Carries :=
    Prog.reach_monitored (W := posted Continues Wire.next) (fun _ _ h => h) (fun _ _ _ _ h => h.1)
      (wp_session fuel urlBytes config maxHeadSize calls l _) hsession hrun (fun c hc => by cases hc)
      fun w op r w' hcontinues hisolated hact hw => hact.1 ▸ carries_next r hcontinues hisolated hw
  refine ⟨fun buf hnext => ?_, fun c hc => ?_⟩
  · obtain ⟨k, rfl⟩ := Prog.next?_eq_some hnext
    exact Prog.wp_sound hsession hrun
  have h := hcarries c hc
  refine ⟨h.claimed, h.whole, h.latest, fun ex hex => ?_, h.served⟩
  obtain ⟨hrequest, -, hparams⟩ := h.made ex hex
  exact ⟨hrequest, hrequest ▸ Client.framed_requestFor c.origin hparams⟩

/-- The execution of a session that takes nothing from the control ring is a run of it. -/
theorem reach_of_exec {σ α : Type} {G : σ → Op → Prop} {next : σ → (op : Op) → op.Ret → σ} {p q : Prog Sys α}
    {tr : List (Prog.Event Sys)} {s : σ} (hexec : Prog.Exec p tr q)
    (htr : ∀ e ∈ tr, e.op ≠ .pop ∧ e.op ≠ .popBlock) :
    Prog.Reach (posted G next) p s q (Prog.after next s tr) := by
  have hfrom : ∀ {p₀ : Prog Sys α} {s₀ : σ}, Prog.Reach (posted G next) p₀ s₀ p s →
      Prog.Reach (posted G next) p₀ s₀ q (Prog.after next s tr) := by
    induction hexec generalizing s with
    | refl p => exact id
    | @call op k tr p' r hexec ih =>
        intro p₀ s₀ hr
        obtain ⟨⟨hpop, hpopBlock⟩, htr⟩ := List.forall_mem_cons.mp htr
        refine ih htr (.act hr ⟨rfl, ?_⟩)
        cases op with
        | pop => exact absurd rfl hpop
        | popBlock => exact absurd rfl hpopBlock
        | _ => trivial
  exact hfrom (.refl p s)

/-- A session of a request with a body, and of one without. -/
def postThenGet : Prog Sys (Except Error Unit × Local) :=
  session 5 (ascii "http://a/") .default 65536
    [.request .post (ascii "/") none (some (ascii "hi")), .request .get (ascii "/b") none none] idle

/-- A server that reads the connection of the session finds both requests. -/
theorem sessions_write_requests_two :
    ∃ c, (recordOf (Prog.play scripted 26 twoResponses postThenGet).1).connections = [c] ∧ c.Served ∧
      c.exchanges.map Exchange.served =
        [⟨ascii "GET /b HTTP/1.1", [(ascii "Host", ascii "a")], []⟩,
          ⟨ascii "POST / HTTP/1.1", [(ascii "Host", ascii "a"), (ascii "Content-Length", ascii "2")], ascii "hi"⟩] := by
  have hrun := Prog.exec_play scripted 26 twoResponses postThenGet
  have hops : ((Prog.play scripted 26 twoResponses postThenGet).1.map Prog.Event.op).all
      (fun op => op != .pop && op != .popBlock) = true := by
    decide +kernel
  have hreach : Prog.Reach (posted Continues Wire.next) postThenGet ⟨[], false, []⟩ _ _ := reach_of_exec hrun fun e he => by
    simpa using List.all_eq_true.mp hops e.op (List.mem_map_of_mem he)
  have hone : (recordOf (Prog.play scripted 26 twoResponses postThenGet).1).connections.map
      (fun c => c.exchanges.map Exchange.served) =
      [[⟨ascii "GET /b HTTP/1.1", [(ascii "Host", ascii "a")], []⟩,
        ⟨ascii "POST / HTTP/1.1", [(ascii "Host", ascii "a"), (ascii "Content-Length", ascii "2")], ascii "hi"⟩]] := by
    decide +kernel
  obtain ⟨c, hw, hserved⟩ := List.map_eq_singleton_iff.mp hone
  have hmem : c ∈ (recordOf (Prog.play scripted 26 twoResponses postThenGet).1).connections := by
    rw [hw]
    exact List.mem_singleton_self c
  obtain ⟨-, -, -, -, hc⟩ := (sessions_write_requests rfl hreach).2 c hmem
  exact ⟨c, hw, hc, hserved⟩

end Xibalba
