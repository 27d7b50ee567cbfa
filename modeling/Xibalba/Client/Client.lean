import Xibalba.Client.Head
import Xibalba.Client.Body

/-!
# `Client.Client` — the blocking client

`Client` of `xibalba-client/src/client.rs`: connecting and reconnecting, one request and its response head with
the replay after a stale connection, and the three ways a response is used: buffered (`send`, `request`),
following redirects, and streaming.
-/

namespace Xibalba.Client

variable {ε : Type}

/-! ## Connecting -/

def applyTimeouts : M Error Unit := do
  let c ← M.client
  Act.mapError Error.ofStdIo (M.setReadTimeout c.config.readTimeout)
  Act.mapError Error.ofStdIo (M.setWriteTimeout c.config.writeTimeout)

/-- The client `connect` builds around a new stream to `url`. -/
def fresh (config : Config) (maxHeadSize : Nat) (url : Url) : Client where
  config := config
  maxHeadSize := maxHeadSize
  origin := .fromUrl url
  writeBuf := []
  headBuf := []
  dirty := false

/-- `Client::connect`. The client that was there before, if any, is not looked at. -/
def connect (urlBytes : Bytes) (config : Config) (maxHeadSize : Nat) : M Error Unit := do
  Act.ofExcept config.validate
  let url ← Act.ofExcept ((Url.parse urlBytes).mapError Error.urlParse)
  let deadline ← config.connectDeadline
  M.connect url deadline
  M.modifyClient fun _ => fresh config maxHeadSize url
  applyTimeouts

def reconnectWithDeadline (url : Url) (deadline : RequestDeadline) : M Error Unit := do
  deadline.check
  let c ← M.client
  let connectDeadline ← deadline.connectDeadline (← c.config.connectDeadline)
  M.connect url connectDeadline
  M.modifyClient fun c => { c with origin := .fromUrl url }
  applyTimeouts
  M.modifyClient fun c => { c with dirty := false }

/-- Reconnect to the current host. -/
def reconnectSameHostWithDeadline (deadline : RequestDeadline) : M Error Unit := do
  let c ← M.client
  reconnectWithDeadline c.origin.rootUrl deadline

/-- Reconnect to the current host if the previous exchange left the connection unusable. -/
def ensureCleanWithDeadline (deadline : RequestDeadline) : M Error Unit := do
  if (← M.client).dirty then reconnectSameHostWithDeadline deadline

def ensureClean : M Error Unit := ensureCleanWithDeadline .NONE

/-- Mark the live connection unusable: the next request must reconnect. -/
def discardPartialResponse : M ε Unit := M.modifyClient fun c => { c with dirty := true }

/-- Declare the connection safe to reuse for the next request. -/
def markReusable : M ε Unit := M.modifyClient fun c => { c with dirty := false }

/-! ## One request and its response head -/

/-- Whether `err` is the signature of a server-closed idle keep-alive connection. -/
def isStaleConnection : Error → Bool
  | .connection .connectionClosed => true
  | .io e =>
    e.kind = .unexpectedEof || e.kind = .connectionReset || e.kind = .connectionAborted ||
      e.kind = .brokenPipe
  | _ => false

/-- The length announced as `Content-Length`, if one is. -/
def contentLength (params : RequestParams) : Option Nat :=
  match params.body with
  | some data => some data.length
  | none =>
    if params.method = .post ∨ params.method = .put ∨ params.method = .patch then some 0 else none

/-- The request `send_head_once` serializes for `params` on a connection to `origin`. -/
def requestFor (origin : Origin) (params : RequestParams) : Request where
  method := params.method
  path := params.path
  query := params.query
  version := .http11
  headers :=
    ⟨.known .host, origin.hostHeaderValue⟩ ::
      params.extraHeaders.map (fun h => ⟨.fromBytes h.1, h.2⟩) ++
      match contentLength params with
      | some len => [⟨.known .contentLength, ascii (toString len)⟩]
      | none => []

/-- Largest request body written as part of the head buffer instead of a second `write_all`. -/
def MAX_INLINE_BODY : Nat := 64 * 1024

/-- The writes of `send_head_once`: the head in `write_buf`, and the body with it or after it. -/
def writeRequest (wire : Stream) (fuel : Nat) (budget : WriteBudget) (body : Option Bytes) :
    M Error Unit := do
  let head := (← M.client).writeBuf
  match body with
  | none =>
    let budget ← budget.writeAllProto wire fuel head
    budget.flushProto wire fuel
  | some data =>
    if head.length + data.length ≤ MAX_INLINE_BODY then
      M.modifyClient fun c => { c with writeBuf := head ++ data }
      let budget ← budget.writeAllProto wire fuel (head ++ data)
      budget.flushProto wire fuel
    else
      let budget ← budget.writeAllProto wire fuel head
      let budget ← budget.writeAllProto wire fuel data
      budget.flushProto wire fuel

/-- Write one request and read the response head, leaving the body unread on the stream. -/
def sendHeadOnce (fuel : Nat) (params : RequestParams) (deadline : RequestDeadline) (interrupt : Interrupt) :
    M Error (HeadData × BodyFraming × Nat) := do
  deadline.check
  if params.method = .connect then Act.throw (.connection .tunnelingNotSupported)
  M.modifyClient fun c => { c with headBuf := [] }
  let c ← M.client
  let request := requestFor c.origin params
  M.modifyClient fun c => { c with writeBuf := [] }
  let head ← Act.mapError Error.ofStdIo (Act.ofExcept request.serializeToWriter)
  M.modifyClient fun c => { c with writeBuf := head }
  -- Past this point bytes may have reached the peer: poison first, clear once the exchange is complete.
  discardPartialResponse
  M.mark (.exchange params request)
  let budget ← WriteBudget.withDeadline c.config.headSilence deadline
  let wire := Stream.interruptible interrupt
  writeRequest wire fuel budget params.body
  HeadData.readResponse wire c.maxHeadSize c.config.headSilence deadline params.method fuel

/-- The error of a replay that was cancelled before it reconnected. -/
def replayCancelled : Error := .ofStdIo ⟨.interrupted, .text "request cancelled"⟩

/-- Write one request and read the response head, reconnecting and retrying once if the connection fails at
    the transport level before the accumulator holds a byte. -/
def sendHeadInterruptible (fuel : Nat) (params : RequestParams) (deadline : RequestDeadline)
    (interrupt : Interrupt) : M Error (HeadData × BodyFraming × Nat) := do
  match ← Act.attempt (sendHeadOnce fuel params deadline interrupt) with
  | .ok head => return head
  | .error e =>
    if params.allowReplay && isStaleConnection e && (← M.client).headBuf.isEmpty then
      if ← interrupt.isCancelled then Act.throw replayCancelled
      reconnectSameHostWithDeadline deadline
      sendHeadOnce fuel params deadline interrupt
    else Act.throw e

/-! ## Whole responses -/

/-- Read the response body declared by `framing` into memory, marking the connection dirty on failure. -/
def readFullBody (fuel : Nat) (framing : BodyFraming) (tailOffset : Nat) (deadline : RequestDeadline) :
    M Error Bytes := do
  let c ← M.client
  let budget ← SilenceBudget.withDeadline c.config.streamSilence deadline
  let tail := c.headBuf.drop tailOffset
  match ← Act.attempt (BodyCollector.read .raw c.config.maxResponseBody fuel budget framing tail) with
  | .ok (data, reusable) =>
    if reusable then markReusable else discardPartialResponse
    return data
  | .error e =>
    discardPartialResponse
    Act.throw e

structure Response where
  head : HeadData
  body : Bytes
deriving DecidableEq

def sendOne (fuel : Nat) (params : RequestParams) (deadline : RequestDeadline) : M Error Response := do
  ensureCleanWithDeadline deadline
  let (headData, framing, tailOffset) ← sendHeadInterruptible fuel params deadline .never
  let reuse := headData.connectionReuse params.requestsClose
  deadline.check
  let body ← readFullBody fuel framing tailOffset deadline
  if !reuse.isKeep then discardPartialResponse
  return ⟨headData, body⟩

/-- Send one request and return a response whose body is decoded as the caller reads it. -/
def executeStreaming (fuel : Nat) (params : RequestParams) : M Error (HeadData × StreamingBody) := do
  let deadline ← RequestDeadline.after (← M.client).config.requestDeadline
  ensureCleanWithDeadline deadline
  let (headData, framing, tailOffset) ← sendHeadInterruptible fuel params deadline .never
  let reuse := headData.connectionReuse params.requestsClose
  let c ← M.client
  let tail := c.headBuf.drop tailOffset
  M.modifyClient fun c => { c with dirty := true }
  let body ← StreamingBody.new true framing tail c.config.streamSilence reuse.isKeep
  return (headData, body)

/-- Take one redirect of `execute`: what the next request is, on a connection that can carry it. -/
def follow (state : RedirectState) (deadline : RequestDeadline) (status : StatusCode) (location : Bytes) :
    M Error RedirectState := do
  let c ← M.client
  let (state, hop) ← Act.ofExcept (state.advance c.origin status location)
  match hop with
  | .sameOrigin =>
    M.mark (.redirect location)
    return state
  | .reconnect target =>
    if !c.config.allowCrossOriginRedirects then Act.throw (.connection .crossOriginRedirectRefused)
    let url ← Act.ofExcept ((Url.parse target).mapError Error.urlParse)
    M.mark (.redirect location)
    reconnectWithDeadline url deadline
    return state

/-- The loop of `execute`. -/
def executeLoop (fuel : Nat) (deadline : RequestDeadline) : Nat → RedirectState → M Error Response
  | hopsLeft, state => do
    let response ← sendOne fuel state.params deadline
    let status := response.head.status
    match RedirectState.locationToFollow status response.head.headers with
    | none => return response
    | some location =>
      -- the budget is checked before the `Location` is applied
      match hopsLeft with
      | 0 => Act.throw (.connection .tooManyRedirects)
      | hopsLeft + 1 =>
        let state ← follow state deadline status location
        executeLoop fuel deadline hopsLeft state

theorem executeLoop_eq (fuel : Nat) (deadline : RequestDeadline) (hopsLeft : Nat) (state : RedirectState) :
    executeLoop fuel deadline hopsLeft state = (do
      let response ← sendOne fuel state.params deadline
      match RedirectState.locationToFollow response.head.status response.head.headers with
      | none => return response
      | some location =>
        match hopsLeft with
        | 0 => Act.throw (.connection .tooManyRedirects)
        | hopsLeft + 1 => do
          let state ← follow state deadline response.head.status location
          executeLoop fuel deadline hopsLeft state) := by
  rw [executeLoop]

/-- Execute a request, following redirects up to `max_redirects`. -/
def execute (fuel : Nat) (params : RequestParams) : M Error Response := do
  let config := (← M.client).config
  let deadline ← RequestDeadline.after config.requestDeadline
  executeLoop fuel deadline config.maxRedirects (.new params)

/-! ## Public calls -/

def send (fuel : Nat) (builder : RequestBuilder) : M Error Response := do
  let params ← Act.ofExcept builder.intoParams
  execute fuel params

def sendStreaming (fuel : Nat) (builder : RequestBuilder) : M Error (HeadData × StreamingBody) := do
  let params ← Act.ofExcept builder.intoParams
  executeStreaming fuel params

def request (fuel : Nat) (method : Method) (path : Bytes) (query body : Option Bytes) : M Error Response :=
  execute fuel ⟨method, path, query, body, [], method.isReplayEligible⟩

end Xibalba.Client
