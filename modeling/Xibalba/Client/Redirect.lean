import Xibalba.Client.Origin
import Xibalba.Client.HeadData

/-!
# `Client.Redirect` — request parameters and the redirect state

`RequestParams` of `xibalba-client/src/params.rs` and `RedirectState` of `redirect.rs`. Nothing here touches a
connection: a hop is reported, and dialling is the client's business.
-/

namespace Xibalba

/-! ## Request parameters -/

/-- Wire-level request data: what `Client` serializes for one dispatch. -/
structure RequestParams where
  method : Method
  path : Bytes
  query : Option Bytes
  body : Option Bytes
  extraHeaders : List (Bytes × Bytes)
  allowReplay : Bool
deriving DecidableEq

/-- A header a request carries that asks the server to close the connection. -/
def closesConnection (header : Bytes × Bytes) : Bool :=
  Bytes.asciiEqIgnoreCase header.1 (ascii "Connection") &&
    Bytes.containsTokenIgnoreCase header.2 (ascii "close")

namespace RequestParams

/-- Headers the client serializes itself. -/
def isManaged (name : Bytes) : Bool :=
  Bytes.asciiEqIgnoreCase name (ascii "Host") || Bytes.asciiEqIgnoreCase name (ascii "Content-Length") ||
    Bytes.asciiEqIgnoreCase name (ascii "Transfer-Encoding")

/-- Headers that may appear several times in one request. -/
def isRepeatable (name : Bytes) : Bool :=
  Bytes.asciiEqIgnoreCase name (ascii "Cookie") || Bytes.asciiEqIgnoreCase name (ascii "Cookie2")

def requestsClose (p : RequestParams) : Bool := p.extraHeaders.any closesConnection

/-- Reject headers the client serializes itself and duplicate names before any byte is written. -/
def validateExtraHeaders (extraHeaders : List (Bytes × Bytes)) : Except SerializeError Unit :=
  if extraHeaders.any fun h =>
      isManaged h.1 ||
        ((extraHeaders.filter fun o => Bytes.asciiEqIgnoreCase o.1 h.1).length > 1 && !isRepeatable h.1)
  then .error .duplicateHeader
  else .ok ()

end RequestParams

/-- The request builder, with the calls of its chain already made. -/
structure RequestBuilder where
  method : Method
  path : Bytes
  query : Option Bytes
  body : Option Bytes
  extraHeaders : List (Bytes × Bytes)
  allowReplay : Bool
deriving DecidableEq

/-- Materialize the collected parameters. -/
def RequestBuilder.intoParams (b : RequestBuilder) : Except Error RequestParams :=
  match RequestParams.validateExtraHeaders b.extraHeaders with
  | .error e => .error (.serialize e)
  | .ok () => .ok ⟨b.method, b.path, b.query, b.body, b.extraHeaders, b.allowReplay⟩

/-! ## Redirects -/

/-- What following one `Location` requires of the connection. -/
inductive Hop where
  | sameOrigin
  | reconnect (target : Bytes)
deriving DecidableEq, Repr

/-- Per-request state carried across redirect hops. -/
structure RedirectState where
  method : Method
  path : Bytes
  query : Option Bytes
  body : Option Bytes
  extraHeaders : List (Bytes × Bytes)
  allowReplay : Bool
deriving DecidableEq

namespace RedirectState

def new (p : RequestParams) : RedirectState :=
  ⟨p.method, p.path, p.query, p.body, p.extraHeaders, p.allowReplay⟩

/-- The parameters for the next dispatch. -/
def params (s : RedirectState) : RequestParams :=
  ⟨s.method, s.path, s.query, s.body, s.extraHeaders, s.allowReplay⟩

/-- A header that carries credentials. -/
def isCredential (name : Bytes) : Bool :=
  Bytes.asciiEqIgnoreCase name (ascii "Authorization") ||
    Bytes.asciiEqIgnoreCase name (ascii "Proxy-Authorization") ||
    Bytes.asciiEqIgnoreCase name (ascii "Cookie") || Bytes.asciiEqIgnoreCase name (ascii "Cookie2")

/-- Drop credentials-bearing headers when a redirect leaves the origin. -/
def stripCrossOriginHeaders (s : RedirectState) : RedirectState :=
  { s with extraHeaders := s.extraHeaders.filter fun h => !isCredential h.1 }

/-- A header that describes a body. -/
def isRepresentation (name : Bytes) : Bool :=
  Bytes.asciiEqIgnoreCase name (ascii "Content-Type") ||
    Bytes.asciiEqIgnoreCase name (ascii "Content-Encoding") ||
    Bytes.asciiEqIgnoreCase name (ascii "Content-Language") ||
    Bytes.asciiEqIgnoreCase name (ascii "Content-Location")

/-- Drop headers that describe a body the rewritten request no longer carries. -/
def stripRepresentationHeaders (s : RedirectState) : RedirectState :=
  { s with extraHeaders := s.extraHeaders.filter fun h => !isRepresentation h.1 }

def isFollowedStatus (status : StatusCode) : Bool :=
  status = .MOVED_PERMANENTLY || status = .FOUND || status = .SEE_OTHER ||
    status = .TEMPORARY_REDIRECT || status = .PERMANENT_REDIRECT

/-- The `Location` of a response worth following, if there is one. -/
def locationToFollow (status : StatusCode) (headers : List (Bytes × Bytes)) : Option Bytes :=
  if isFollowedStatus status then
    (headers.find? fun h => Bytes.asciiEqIgnoreCase h.1 (ascii "Location")).map (·.2)
  else none

def applyMethodRedirect (s : RedirectState) (status : StatusCode) : RedirectState :=
  let becomesGet :=
    if status = .SEE_OTHER then s.method ≠ .head
    else if status = .MOVED_PERMANENTLY ∨ status = .FOUND then s.method = .post
    else False
  if becomesGet then stripRepresentationHeaders { s with method := .get, body := none } else s

/-- Whether `location` begins with an absolute HTTP(S) scheme. -/
def hasAbsoluteScheme (location : Bytes) : Bool :=
  match location.findIdx? (· == 0x3a) with
  | none => false
  | some colon =>
    let scheme := location.take colon
    (Bytes.asciiEqIgnoreCase scheme (ascii "http") || Bytes.asciiEqIgnoreCase scheme (ascii "https")) &&
      (ascii "://").isPrefixOf (location.drop colon)

/-- `ALPHA *( ALPHA / DIGIT / "+" / "-" / "." )`. -/
def isSchemeToken : Bytes → Bool
  | [] => false
  | first :: rest =>
    isAsciiAlphabetic first && rest.all fun b => isAsciiAlphanumeric b || [0x2b, 0x2d, 0x2e].contains b

/-- Whether `location` opens with a scheme name. -/
def hasNamedScheme (location : Bytes) : Bool :=
  let segment := location.takeWhile fun b => !(b == 0x2f || b == 0x3f)
  match segment.findIdx? (· == 0x3a) with
  | none => false
  | some colon => isSchemeToken (location.take colon)

/-- Follow an absolute URL. -/
def applyAbsoluteLocation (s : RedirectState) (origin : Origin) (location : Bytes) :
    Except Error (RedirectState × Hop) :=
  match Url.parse location with
  | .error e => .error (.urlParse e)
  | .ok url =>
    if origin.downgradesTo url.scheme then .error (.connection .insecureRedirect)
    else
      let (s, hop) :=
        if origin.covers url then (s, Hop.sameOrigin)
        else (s.stripCrossOriginHeaders, Hop.reconnect location)
      let path := if url.path.isEmpty then ascii "/" else UriReference.removeDotSegments url.path
      .ok ({ s with path := path, query := url.query }, hop)

/-- Apply one `Location`, without its fragment, to this request. -/
def applyLocation (s : RedirectState) (origin : Origin) (location : Bytes) :
    Except Error (RedirectState × Hop) :=
  let location := (Url.cutAt (· == 0x23) location).1
  if hasAbsoluteScheme location then s.applyAbsoluteLocation origin location
  else if hasNamedScheme location then .error (.connection .unsupportedRedirectScheme)
  else if (ascii "//").isPrefixOf location then
    s.applyAbsoluteLocation origin (origin.scheme.asBytes ++ ascii ":" ++ location)
  else
    let (pathPart, query) := Url.cutAt (· == 0x3f) location
    if pathPart.isEmpty then
      .ok ({ s with query := if query.isSome then query else s.query }, .sameOrigin)
    else
      let path :=
        if pathPart.head? = some 0x2f then UriReference.removeDotSegments pathPart
        else UriReference.resolve s.path pathPart
      .ok ({ s with path := path, query := query }, .sameOrigin)

/-- Apply one redirect to this request, reporting what the connection must do to serve the result. -/
def advance (s : RedirectState) (origin : Origin) (status : StatusCode) (location : Bytes) :
    Except Error (RedirectState × Hop) :=
  (s.applyMethodRedirect status).applyLocation origin location

end RedirectState

end Xibalba
