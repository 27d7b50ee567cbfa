import Xibalba.Client.Budget
import Xibalba.Proto.Chunked

/-!
# `Client.Body` — reading a response body

`BodyCollector` of `xibalba-client/src/body/collect.rs`, which reads a whole body into memory, and
`StreamingBody` of `body/streaming.rs`, which decodes it as the caller reads.

A `StreamingBody` borrows the client's stream and its `dirty` flag. Here it carries the flag itself, and what
it left there is written back to the client when the response is dropped. Its state survives an error, so its
operations return the body next to the result.
-/

namespace Xibalba

/-! ## Buffered bodies -/

namespace BodyCollector

/-- What one pass of the decode loop over a piece of input leaves: the decoder waiting for more, or the end of
    the body, with the bytes of the piece left over. -/
inductive Pumped where
  | needMore (decoder : ChunkedDecoder) (body : Bytes)
  | done (body leftover : Bytes)
  | error (e : Error)

/-- The decode loop of `read_chunked` over one piece of input. The loop over the tail runs until the decoder
    asks for more; the loop over a socket read (`whileInput`) also ends when the piece is used up. -/
def pump (maxBody : Nat) (whileInput : Bool) : Nat → ChunkedDecoder → Bytes → Bytes → Option Pumped
  | 0, _, _, _ => none
  | turns + 1, decoder, body, input =>
    if whileInput && input.isEmpty then some (.needMore decoder body)
    else
      let d := decoder.decode input HEAD_BUF_SIZE
      let input := input.drop d.consumed
      match d.result with
      | .data _ =>
        let body := body ++ d.written
        if body.length > maxBody then some (.error (.connection .bodyTooLarge))
        else if d.decoder.isDone then some (.done body input)
        else pump maxBody whileInput turns d.decoder body input
      | .done => some (.done body input)
      | .needMore => some (.needMore d.decoder body)
      | .error e => some (.error (.parse e))
      | .panicked => none

/-- A piece of input through the decode loop; a panic has no result. A turn that reports data has consumed a
    byte, so the turns given are never used up. -/
def pumped (maxBody : Nat) (whileInput : Bool) (decoder : ChunkedDecoder) (body input : Bytes) :
    M Error Pumped :=
  match pump maxBody whileInput (input.length + 2) decoder body input with
  | some p => pure p
  | none => Act.hang

/-- The socket loop of `read_chunked`: what the body is, and whether nothing followed it. -/
def readChunkedMore (stream : Stream) (maxBody fuel : Nat) :
    Nat → SilenceBudget → ChunkedDecoder → Bytes → M Error (Bytes × Bool)
  | 0, _, _, _ => Act.hang
  | turns + 1, budget, decoder, body => do
    let (bs, budget) ← budget.readProto stream HEAD_BUF_SIZE fuel
    if bs.val.isEmpty then Act.throw (.connection .connectionClosed)
    match ← pumped maxBody true decoder body bs.val with
    | .needMore decoder body => readChunkedMore stream maxBody fuel turns budget decoder body
    | .done body leftover => return (body, leftover.isEmpty)
    | .error e => Act.throw e

def readChunked (stream : Stream) (maxBody fuel : Nat) (budget : SilenceBudget) (tail : Bytes) :
    M Error (Bytes × Bool) := do
  match ← pumped maxBody false .new [] tail with
  | .needMore decoder body => readChunkedMore stream maxBody fuel fuel budget decoder body
  | .done body leftover => return (body, leftover.isEmpty)
  | .error e => Act.throw e

/-- Exactly `len` bytes; a tail that reaches past them is surplus. `usize` holds every `u64`. -/
def readContentLength (stream : Stream) (maxBody fuel : Nat) (budget : SilenceBudget) (len : Nat)
    (tail : Bytes) : M Error (Bytes × Bool) := do
  if len > maxBody then Act.throw (.connection .bodyTooLarge)
  let reusable : Bool := tail.length ≤ len
  let fromTail := tail.take len
  if fromTail.length < len then
    let rest ← budget.readExactProto stream fuel (len - fromTail.length)
    return (fromTail ++ rest, reusable)
  else return (fromTail, reusable)

def readUntilClose (stream : Stream) (maxBody fuel : Nat) : Nat → SilenceBudget → Bytes → M Error Bytes
  | 0, _, _ => Act.hang
  | turns + 1, budget, body => do
    if body.length > maxBody then Act.throw (.connection .bodyTooLarge)
    let (bs, budget) ← budget.readProto stream HEAD_BUF_SIZE fuel
    if bs.val.isEmpty then return body
    else readUntilClose stream maxBody fuel turns budget (body ++ bs.val)

/-- Read one complete response body according to its framing; the flag is `is_reusable` afterwards. -/
def read (stream : Stream) (maxBody fuel : Nat) (budget : SilenceBudget) (framing : BodyFraming)
    (tail : Bytes) : M Error (Bytes × Bool) :=
  match framing with
  | .none => pure ([], tail.isEmpty)
  | .contentLength len => readContentLength stream maxBody fuel budget len tail
  | .chunked => readChunked stream maxBody fuel budget tail
  | .untilClose => do return (← readUntilClose stream maxBody fuel fuel budget tail, false)

end BodyCollector

/-! ## Streaming bodies -/

inductive StreamState where
  | length (remaining : Nat)
  | chunked (decoder : ChunkedDecoder)
  | untilClose
  | done
deriving DecidableEq

/-- Incremental body reader over a live connection stream. `raw` holds bytes pulled off the stream, of which
    `rawPos` have been decoded. -/
structure StreamingBody where
  state : StreamState
  raw : Bytes
  rawPos : Nat
  budget : SilenceBudget
  reusable : Bool
  dirty : Bool
deriving DecidableEq

namespace StreamingBody

variable {ε : Type}

/-- What an operation of the body leaves: its `io::Result`, and the body. -/
abbrev Outcome (α : Type) := Except StdIoError α × StreamingBody

def isDone (b : StreamingBody) : Bool := b.state = .done

def finish (b : StreamingBody) : StreamingBody :=
  { b with state := .done, dirty := !b.reusable || b.rawPos != b.raw.length }

/-- The state a framing starts in. -/
def initialState : BodyFraming → StreamState
  | .contentLength 0 | .none => .done
  | .contentLength len => .length len
  | .chunked => .chunked .new
  | .untilClose => .untilClose

def new (dirty : Bool) (framing : BodyFraming) (tail : Bytes) (silence : Duration) (reusable : Bool) :
    M ε StreamingBody := do
  let body : StreamingBody := ⟨initialState framing, tail, 0, ← SilenceBudget.new silence, reusable, dirty⟩
  return if body.isDone then body.finish else body

/-- `Vec::resize(len, 0)`. -/
def resize (raw : Bytes) (len : Nat) : Bytes := raw.take len ++ List.replicate (len - raw.length) 0

/-- Refill the raw buffer; `Ok(false)` means the peer closed. The buffer is resized before the read, and a
    read that fails leaves it so. -/
def refill (stream : Stream) (fuel : Nat) (b : StreamingBody) : M ε (Outcome Bool) := do
  if b.rawPos < b.raw.length then return (.ok true, b)
  else
    let b := { b with raw := resize b.raw HEAD_BUF_SIZE }
    match ← Act.attempt (SilenceBudget.read stream HEAD_BUF_SIZE fuel b.budget) with
    | .error e => return (.error e, b)
    | .ok (bs, budget) =>
      return (.ok !bs.val.isEmpty, { b with raw := bs.val, rawPos := 0, budget := budget })

/-- The bytes `input` hands out: what is left of the raw buffer. -/
def input (b : StreamingBody) : Bytes := b.raw.drop b.rawPos

/-- `read_content_length` with its input at hand. -/
def takeContentLength (b : StreamingBody) (bufLen remaining : Nat) : Outcome Bytes :=
  if b.input.isEmpty then (.error ⟨.unexpectedEof, .text "connection closed mid-body"⟩, b)
  else
    let n := min (min remaining b.input.length) bufLen
    let bytes := b.input.take n
    let b := { b with rawPos := b.rawPos + n }
    (.ok bytes, if remaining - n = 0 then b.finish else { b with state := .length (remaining - n) })

/-- `read_until_close` with its input at hand. The connection is dead at the end, so the flag stays set. -/
def takeUntilClose (b : StreamingBody) (bufLen : Nat) : Outcome Bytes :=
  if b.input.isEmpty then (.ok [], { b with state := .done })
  else
    let n := min b.input.length bufLen
    (.ok (b.input.take n), { b with rawPos := b.rawPos + n })

inductive ChunkedRead where
  | progress (bytes : Bytes)
  | needMore

/-- The part of `read_chunked` after its refill; `none` is a panic. -/
def decodeChunked (b : StreamingBody) (bufLen : Nat) : Option (Outcome ChunkedRead) :=
  match b.state with
  | .chunked decoder =>
    let d := decoder.decode b.input bufLen
    let b := { b with state := .chunked d.decoder, rawPos := b.rawPos + d.consumed }
    match d.result with
    | .data _ => some (.ok (.progress d.written), if d.decoder.isDone then b.finish else b)
    | .done => some (.ok (.progress []), b.finish)
    | .needMore => some (.ok .needMore, b)
    | .error e => some (.error ⟨.invalidData, .parse e⟩, b)
    | .panicked => none
  -- `unreachable!("read_chunked called outside Chunked state")`
  | _ => none

/-- The loop of `read` in the chunked state: until the decoder emits data, finishes, or fails. -/
def readChunked (stream : Stream) (fuel bufLen : Nat) : Nat → StreamingBody → M ε (Outcome Bytes)
  | 0, _ => Act.hang
  | turns + 1, b => do
    match ← refill stream fuel b with
    | (.error e, b) => return (.error e, b)
    | (.ok false, b) => return (.error ⟨.unexpectedEof, .text "connection closed mid-chunked-body"⟩, b)
    | (.ok true, b) =>
      match b.decodeChunked bufLen with
      | some (.ok (.progress bytes), b) => return (.ok bytes, b)
      | some (.ok .needMore, b) => readChunked stream fuel bufLen turns b
      | some (.error e, b) => return (.error e, b)
      | none => Act.hang

/-- A refill, and then `take` on its input. -/
def refillThen (stream : Stream) (fuel : Nat) (take : StreamingBody → Outcome Bytes) (b : StreamingBody) :
    M ε (Outcome Bytes) := do
  match ← refill stream fuel b with
  | (.error e, b) => return (.error e, b)
  | (.ok _, b) => return take b

/-- `Read::read` into a buffer of `bufLen` bytes; the bytes are those written to the front of it. -/
def read (stream : Stream) (fuel bufLen : Nat) (b : StreamingBody) : M ε (Outcome Bytes) :=
  if bufLen = 0 then pure (.ok [], b)
  else
    match b.state with
    | .done => pure (.ok [], b)
    | .length remaining => refillThen stream fuel (·.takeContentLength bufLen remaining) b
    | .untilClose => refillThen stream fuel (·.takeUntilClose bufLen) b
    | .chunked _ => readChunked stream fuel bufLen fuel b

end StreamingBody

end Xibalba
