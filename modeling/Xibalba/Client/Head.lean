import Xibalba.Client.Budget

/-!
# `Client.Head` — reading a response head

`HeadData::read_response` and `read_until_head_end` of `xibalba-client/src/response/head.rs`. The accumulator
`head_acc` the source borrows is the client's `head_buf`, and it keeps what was read when reading fails: the
decision to replay a request looks at it.
-/

namespace Xibalba.HeadData

/-- Upper bound on 1xx heads skipped before one final response. -/
def MAX_INTERIM_RESPONSES : Nat := 8

/-- Grow the accumulator until it holds a complete head, and return the offset just past the terminating
    CRLFCRLF. Bytes already there are scanned before the stream is touched; `scanned` of them have been. -/
def readUntilHeadEnd (stream : Stream) (maxHead fuel : Nat) :
    Nat → Nat → SilenceBudget → M Error (Nat × SilenceBudget)
  | 0, _, _ => Act.hang
  | turns + 1, scanned, budget => do
    let acc := (← M.client).headBuf
    let scanFrom := scanned - 3
    match Bytes.findWindow (ascii "\r\n\r\n") (acc.drop scanFrom) with
    | some pos =>
      let headEnd := scanFrom + pos + 4
      if headEnd > maxHead then Act.throw (.connection .headTooLarge) else return (headEnd, budget)
    | none =>
      if acc.length > maxHead then Act.throw (.connection .headTooLarge)
      let (bs, budget) ← budget.readProto stream HEAD_BUF_SIZE fuel
      if bs.val.isEmpty then Act.throw (.connection .connectionClosed)
      M.modifyClient fun c => { c with headBuf := c.headBuf ++ bs.val }
      readUntilHeadEnd stream maxHead fuel turns acc.length budget

/-- A 1xx response that precedes the real one. 101 is the exception: it hands the connection over to another
    protocol, so it is surfaced as a final response. -/
def isInterim (status : StatusCode) : Bool :=
  status.isInformational && status != .SWITCHING_PROTOCOLS

/-- What the loop of `read_response` leaves with. -/
structure FinalHead where
  head : ResponseHead
  ranges : List HeaderRange
  headEnd : Nat
  framing : BodyFraming

/-- The ranges and the framing of a final head, which is the first `headEnd` bytes, `bytes`. -/
def finalHead (method : Method) (headEnd : Nat) (bytes : Bytes) (head : ResponseHead) :
    Except Error FinalHead := do
  let ranges ← HeaderRange.buildRanges head.headers bytes
  let framing ← (BodyFraming.fromResponse head.status method (head.headers.map HeaderSlice.header)).mapError
    Error.parse
  return ⟨head, ranges, headEnd, framing⟩

/-- The loop of `read_response`: read heads until one is final, dropping the interim ones. -/
def readFinalHead (stream : Stream) (maxHead : Nat) (method : Method) (fuel : Nat) :
    Nat → Nat → SilenceBudget → M Error FinalHead
  | 0, _, _ => Act.hang
  | turns + 1, interimSeen, budget => do
    let (headEnd, budget) ← readUntilHeadEnd stream maxHead fuel fuel 0 budget
    let bytes := (← M.client).headBuf.take headEnd
    let (head, _) ← Act.ofExcept ((ResponseHead.parse bytes MAX_HEADERS).mapError Error.parse)
    if isInterim head.status then
      if interimSeen + 1 > MAX_INTERIM_RESPONSES then
        Act.throw (.connection .tooManyInterimResponses)
      M.modifyClient fun c => { c with headBuf := c.headBuf.drop headEnd }
      readFinalHead stream maxHead method fuel turns (interimSeen + 1) budget
    else Act.ofExcept (finalHead method headEnd bytes head)

/-- Read one response head, skipping 1xx interim responses, and derive the body framing from it. The third
    result is the offset of the body's first byte in the accumulator. -/
def readResponse (stream : Stream) (maxHead : Nat) (silence : Duration) (deadline : RequestDeadline)
    (method : Method) (fuel : Nat) : M Error (HeadData × BodyFraming × Nat) := do
  M.modifyClient fun c => { c with headBuf := [] }
  let budget ← SilenceBudget.withDeadline silence deadline
  let final ← readFinalHead stream maxHead method fuel fuel 0 budget
  let acc := (← M.client).headBuf
  let head := final.head
  let headData ← Act.ofExcept
    (new head.version head.status (acc.take final.headEnd) final.ranges head.headers.length)
  M.mark (.response acc final.headEnd)
  return (headData, final.framing, final.headEnd)

end Xibalba.HeadData
