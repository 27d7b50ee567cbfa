import Xibalba.Proto.Framing

/-!
# `Client.HeadData` — a parsed response head, and what it says about its connection

`HeadData` of `xibalba-client/src/response/head.rs` without its reading loop, and `ConnectionReuse` of
`reuse.rs`.
-/

namespace Xibalba

/-- The parsed response head: status line plus headers, kept verbatim so header ranges stay valid. -/
structure HeadData where
  version : Version
  status : StatusCode
  headBuf : Bytes
  ranges : List HeaderRange
  headerCount : Nat
deriving DecidableEq

namespace HeadData

/-- A live range must land inside the buffer and name a non-empty header. -/
def rangeWithin (range : HeaderRange) (len : Nat) : Bool :=
  0 < range.nameLen && range.nameStart + range.nameLen ≤ len && range.valueStart + range.valueLen ≤ len

/-- Build a head from a buffer and the ranges describing it. -/
def new (version : Version) (status : StatusCode) (headBuf : Bytes) (ranges : List HeaderRange)
    (headerCount : Nat) : Except Error HeadData :=
  if headerCount > MAX_HEADERS then .error (.connection .headerRangeOverflow)
  else if (ranges.take headerCount).all (rangeWithin · headBuf.length) then
    .ok ⟨version, status, headBuf, ranges, headerCount⟩
  else .error (.connection .headerNotInBuffer)

/-- Every header, in the order received. -/
def headers (h : HeadData) : List (Bytes × Bytes) :=
  (h.ranges.take h.headerCount).map fun r =>
    ((h.headBuf.drop r.nameStart).take r.nameLen, (h.headBuf.drop r.valueStart).take r.valueLen)

/-- `&buf[start..start + len]`; `none` is the panic of a slice that reaches past the buffer. -/
def sliceChecked (buf : Bytes) (start len : Nat) : Option Bytes :=
  if start + len ≤ buf.length then some ((buf.drop start).take len) else none

/-- `headers`, with every slice it takes checked. -/
def headersChecked (h : HeadData) : Option (List (Bytes × Bytes)) :=
  if h.headerCount ≤ h.ranges.length then
    (h.ranges.take h.headerCount).mapM fun r => do
      let name ← sliceChecked h.headBuf r.nameStart r.nameLen
      let value ← sliceChecked h.headBuf r.valueStart r.valueLen
      return (name, value)
  else none

end HeadData

/-! ## Connection reuse -/

/-- Which headers in the response head declared where the body ends. -/
structure FramingHeaders where
  transferEncoding : Bool
  contentLength : Bool
deriving DecidableEq, Repr

/-- Whether the sender described where this message ends in two ways a recipient could read
    differently. -/
def FramingHeaders.isAmbiguous (f : FramingHeaders) (version : Version) : Bool :=
  (f.transferEncoding && f.contentLength) || (f.transferEncoding && version == .http10)

/-- What the response head said about the connection and its framing. -/
structure HeadSurvey where
  announcedClose : Bool
  announcedKeepAlive : Bool
  framing : FramingHeaders
deriving DecidableEq, Repr

namespace HeadSurvey

def default : HeadSurvey := ⟨false, false, ⟨false, false⟩⟩

/-- One header of the survey. -/
def step (survey : HeadSurvey) (header : Bytes × Bytes) : HeadSurvey :=
  let (name, value) := header
  if Bytes.asciiEqIgnoreCase name (ascii "Connection") then
    { survey with
      announcedClose := survey.announcedClose || Bytes.containsTokenIgnoreCase value (ascii "close")
      announcedKeepAlive :=
        survey.announcedKeepAlive || Bytes.containsTokenIgnoreCase value (ascii "keep-alive") }
  else if Bytes.asciiEqIgnoreCase name (ascii "Transfer-Encoding") then
    { survey with framing := { survey.framing with transferEncoding := true } }
  else if Bytes.asciiEqIgnoreCase name (ascii "Content-Length") then
    { survey with framing := { survey.framing with contentLength := true } }
  else survey

def of (headers : List (Bytes × Bytes)) : HeadSurvey := headers.foldl step default

end HeadSurvey

inductive ConnectionReuse where
  | keep
  | close
deriving DecidableEq, Repr

namespace ConnectionReuse

def evaluate (version : Version) (status : StatusCode) (requestCloses : Bool)
    (headers : List (Bytes × Bytes)) : ConnectionReuse :=
  if requestCloses then close
  else if status = .SWITCHING_PROTOCOLS then close
  else
    let survey := HeadSurvey.of headers
    if survey.announcedClose || survey.framing.isAmbiguous version then close
    else
      match version with
      | .http11 => keep
      | .http10 => if survey.announcedKeepAlive then keep else close

def isKeep (r : ConnectionReuse) : Bool := r = keep

end ConnectionReuse

/-- Whether the connection that carried this response may serve another request once the body has been
    consumed. -/
def HeadData.connectionReuse (h : HeadData) (requestCloses : Bool) : ConnectionReuse :=
  .evaluate h.version h.status requestCloses h.headers

end Xibalba
