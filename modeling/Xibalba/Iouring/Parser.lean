import Xibalba.Proto.Chunked
import Xibalba.Proto.Framing

/-!
# `Iouring.Parser` — the response parser of the io_uring driver

`ResponseParser` and `PartialResponse` of `xibalba-iouring/src/driver.rs`. The parser is fed the pieces in which a
connection's bytes arrive. It is between responses, with the bytes of a head collected in `head_accum`, or inside a
response whose head is parsed and whose body is being pumped.

A source method on `&mut self` returns the new state here, next to its result; an error keeps what was changed before
it.
-/

namespace Xibalba.Iouring

def BLOCK_SIZE : Nat := 8192

def MAX_RESPONSE_HEAD : Nat := 64 * 1024

abbrev RequestId := Nat

/-- A parsed head: its bytes, and where the headers stand in them. -/
structure HeadData where
  headBuf : Bytes
  ranges : List HeaderRange
  headerCount : Nat
deriving DecidableEq

namespace HeadData

/-- `buf.get(start..start + len)`. -/
def slice (buf : Bytes) (start len : Nat) : Option Bytes :=
  if start + len ≤ buf.length then some ((buf.drop start).take len) else none

def headers (h : HeadData) : List (Bytes × Bytes) :=
  (h.ranges.take h.headerCount).filterMap fun r => do
    let name ← slice h.headBuf r.nameStart r.nameLen
    let value ← slice h.headBuf r.valueStart r.valueLen
    return (name, value)

end HeadData

structure Response where
  requestId : RequestId
  version : Version
  status : StatusCode
  head : HeadData
  body : Bytes
deriving DecidableEq

def Response.headers (r : Response) : List (Bytes × Bytes) := r.head.headers

inductive InternalFraming where
  | contentLength (remaining : Nat)
  | chunked (decoder : ChunkedDecoder)
  | untilClose
  | done
deriving DecidableEq

structure PartialResponse where
  version : Version
  status : StatusCode
  head : HeadData
  bodyBuf : Bytes
  bodyDone : Bool
  framing : InternalFraming
deriving DecidableEq

namespace PartialResponse

/-- What the decode loop of `pump` leaves behind: the decoder, the position in the data, the bytes for the body, whether
    the body is done, and the error it returned with. -/
structure Pumped where
  decoder : ChunkedDecoder
  pos : Nat
  body : Bytes
  bodyDone : Bool
  error : Option ParseError
deriving DecidableEq

/-- The decode loop of `pump`; `none` when its turns have run out, or when `decode` panics. -/
def pumpLoop (data : Bytes) : Nat → ChunkedDecoder → Nat → Bytes → Option Pumped
  | 0, _, _, _ => none
  | turns + 1, decoder, pos, body =>
    if pos < data.length ∧ !decoder.isDone then
      let d := decoder.decode (data.drop pos) BLOCK_SIZE
      match d.result with
      | .data _ =>
        if d.decoder.isDone then some ⟨d.decoder, pos + d.consumed, body ++ d.written, true, none⟩
        else pumpLoop data turns d.decoder (pos + d.consumed) (body ++ d.written)
      | .done => some ⟨d.decoder, pos + d.consumed, body, true, none⟩
      | .needMore => some ⟨d.decoder, pos + d.consumed, body, d.decoder.isDone, none⟩
      | .error e => some ⟨d.decoder, pos + d.consumed, body, false, some e⟩
      | .panicked => none
    else some ⟨decoder, pos, body, decoder.isDone, none⟩

/-- Take what belongs to the body from the front of `data`, and return how much that was. The decode loop takes at most
    one turn more than there are bytes (`pumpLoop_spec`). -/
def pump (p : PartialResponse) (data : Bytes) : PartialResponse × Except Error Nat :=
  match p.framing with
  | .done => ({ p with bodyDone := true }, .ok 0)
  | .contentLength remaining =>
    let toTake := min data.length remaining
    let p := { p with bodyBuf := p.bodyBuf ++ data.take toTake, framing := .contentLength (remaining - toTake) }
    (if remaining - toTake = 0 then { p with bodyDone := true } else p, .ok toTake)
  | .chunked decoder =>
    match pumpLoop data (data.length + 1) decoder 0 [] with
    | none => (p, .ok 0)
    | some d =>
      let p := { p with bodyBuf := p.bodyBuf ++ d.body, framing := .chunked d.decoder }
      match d.error with
      | some e => (p, .error (.parse e))
      | none => (if d.bodyDone then { p with bodyDone := true } else p, .ok d.pos)
  | .untilClose => ({ p with bodyBuf := p.bodyBuf ++ data }, .ok data.length)

/-- The response a completed one is delivered as. -/
def response (p : PartialResponse) (requestId : RequestId) : Response :=
  ⟨requestId, p.version, p.status, p.head, p.bodyBuf⟩

end PartialResponse

structure ResponseParser where
  headAccum : Bytes
  bodyBuf : Bytes
  partialResponse : Option PartialResponse
deriving DecidableEq

namespace ResponseParser

def new : ResponseParser := ⟨[], [], none⟩

def clear (_ : ResponseParser) : ResponseParser := ⟨[], [], none⟩

/-- How `pump` starts on a body, and whether there is none. -/
def internalFraming : BodyFraming → InternalFraming × Bool
  | .none => (.done, true)
  | .contentLength n => (.contentLength n, n = 0)
  | .chunked => (.chunked .new, false)
  | .untilClose => (.untilClose, false)

/-- What is read off the head `bytes` before anything is changed: the response to complete, and where its body starts.
    Every response is framed as one to a GET. -/
def parseHead (bytes : Bytes) (bodyBuf : Bytes) : Except Error (PartialResponse × Nat) := do
  let (head, consumed) ← (ResponseHead.parse bytes MAX_HEADERS).mapError Error.parse
  let framing ← (BodyFraming.fromResponse head.status .get (head.headers.map HeaderSlice.header)).mapError Error.parse
  let ranges ← HeaderRange.buildRanges head.headers bytes
  let (framing, bodyDone) := internalFraming framing
  return (⟨head.version, head.status, ⟨bytes, ranges, head.headers.length⟩, bodyBuf, bodyDone, framing⟩, consumed)

/-- Look for the end of the head in `head_accum`. If it is there, parse the head, and set up the response or finish it at
    once if the body is there too. -/
def parseHeadAndMaybeFinish (p : ResponseParser) (requestId : RequestId) :
    ResponseParser × Except Error (Option (Response × Nat)) :=
  match Bytes.findWindow (ascii "\r\n\r\n") p.headAccum with
  | none =>
    if p.headAccum.length > MAX_RESPONSE_HEAD then (p, .error (.connection .headTooLarge)) else (p, .ok none)
  | some headEnd =>
    let headBytesLen := headEnd + 4
    -- the body buffer is taken out of the parser and cleared
    match parseHead (p.headAccum.take headBytesLen) [] with
    | .error e => (p, .error e)
    | .ok (q, consumed) =>
      let accum := p.headAccum.drop headBytesLen
      let consumedAfterDrain := consumed - headBytesLen
      let afterHead := accum.drop consumedAfterDrain
      let (q, pumped) := if !afterHead.isEmpty ∧ !q.bodyDone then q.pump afterHead else (q, .ok 0)
      match pumped with
      | .error e => (⟨accum, [], none⟩, .error e)
      | .ok bodyConsumed =>
        if q.bodyDone then
          (⟨accum.drop (consumedAfterDrain + bodyConsumed), [], none⟩, .ok (some (q.response requestId, bodyConsumed)))
        else (⟨accum.drop consumedAfterDrain, [], some q⟩, .ok none)

/-- Feed data and attempt to complete a response; `none` when more data is needed. -/
def feed (p : ResponseParser) (data : Bytes) (requestId : RequestId) : ResponseParser × Except Error (Option Response) :=
  match p.partialResponse with
  | some q =>
    let (q, pumped) := if data.isEmpty then (q, .ok 0) else q.pump data
    match pumped with
    | .error e => ({ p with partialResponse := some q }, .error e)
    | .ok consumed =>
      if q.bodyDone then
        ({ p with partialResponse := none, headAccum := data.drop consumed }, .ok (some (q.response requestId)))
      else ({ p with partialResponse := some q }, .ok none)
  | none =>
    let (p, r) := parseHeadAndMaybeFinish { p with headAccum := p.headAccum ++ data } requestId
    (p, r.map fun response => response.map Prod.fst)

end ResponseParser

end Xibalba.Iouring
