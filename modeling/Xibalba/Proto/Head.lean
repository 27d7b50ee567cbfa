import Xibalba.Proto.Message

/-!
# `Proto.Head` — parsing a response head

`ResponseHead::parse` of `xibalba-proto/src/response/head.rs` and `HeaderRange` of `ranges.rs`.

The source's headers are slices that borrow the parse buffer, and `build_ranges` later recovers their
positions from the slice addresses. A `Slice` therefore keeps the offset at which its bytes stand.
-/

namespace Xibalba

/-- A borrowed part of a buffer: where it starts, and its bytes. -/
structure Slice where
  start : Nat
  bytes : Bytes
deriving DecidableEq, Repr

/-- One header as `parse` stores it in the caller's array: name and value borrow the parsed buffer. -/
structure HeaderSlice where
  name : Slice
  value : Slice
deriving DecidableEq, Repr

/-- The `Header` a parsed header is: the name is kept raw, without the known-header lookup. -/
def HeaderSlice.header (h : HeaderSlice) : Header := ⟨.raw h.name.bytes, h.value.bytes⟩

/-- The result of parsing a response head. `headers` is the part of the caller's array that was filled;
    the source keeps its length as `header_count`. -/
structure ResponseHead where
  version : Version
  status : StatusCode
  reason : Bytes
  headers : List HeaderSlice
deriving DecidableEq

namespace ResponseHead

/-- A control byte other than HTAB: what neither a reason phrase nor a field value may hold. -/
def isCtl (b : UInt8) : Bool := (b < 0x20 || b == 0x7f) && b != 0x09

/-- Phase 1 of `parse_header_line`: the index of the colon, `none` when the bytes run out first. -/
def scanName (idx : Nat) : Bytes → Except ParseError (Option Nat)
  | [] => .ok none
  | b :: rest =>
    if b = 0x3a then .ok (some idx)
    else if !Tchar.isValid b then .error .invalidHeaderName
    else scanName (idx + 1) rest

/-- `raw_value` without its trailing OWS. -/
def trimTrailingOws (raw : Bytes) : Bytes :=
  match raw.getLast? with
  | some b => if isOws b then (raw.reverse.dropWhile isOws).reverse else raw
  | none => raw

/-- The single-pass header line parser: name, value and the bytes consumed, CRLF included. Offsets are
    relative to `line`. -/
def parseHeaderLine (line : Bytes) : Except ParseError (HeaderSlice × Nat) := do
  if line.isEmpty then throw .invalidHeaderName
  match ← scanName 0 line with
  | none => throw .incomplete
  | some nameLen =>
    if nameLen = 0 then throw .invalidHeaderName
    let afterColon := line.drop (nameLen + 1)
    let valueStart := nameLen + 1 + (afterColon.takeWhile isOws).length
    let fromValue := line.drop valueStart
    match fromValue.findIdx? isCtl with
    | none => throw .incomplete
    | some ctlPos =>
      if fromValue[ctlPos]? ≠ some 0x0d then throw .invalidHeaderValue
      if fromValue[ctlPos + 1]? ≠ some 0x0a then throw .incomplete
      return (⟨⟨0, line.take nameLen⟩, ⟨valueStart, trimTrailingOws (fromValue.take ctlPos)⟩⟩,
        valueStart + ctlPos + 2)

/-- The header loop of `parse`, from `pos`, with `slots` free entries in the caller's array. Every turn
    consumes at least one byte, so more turns than bytes are never taken. -/
def parseHeaders (buf : Bytes) : Nat → Nat → Nat → List HeaderSlice →
    Except ParseError (List HeaderSlice × Nat)
  | 0, _, _, _ => throw .incomplete
  | fuel + 1, pos, slots, headers => do
    if buf.length ≤ pos then throw .incomplete
    -- a lone trailing CR is the head terminator with its LF still in flight
    if buf[pos]? = some 0x0d ∧ buf.length ≤ pos + 1 then throw .incomplete
    if buf[pos]? = some 0x0d ∧ buf[pos + 1]? = some 0x0a then return (headers, pos + 2)
    let (h, lineEnd) ← parseHeaderLine (buf.drop pos)
    match slots with
    | 0 => throw .tooManyHeaders
    | slots + 1 =>
      let h := ⟨⟨pos + h.name.start, h.name.bytes⟩, ⟨pos + h.value.start, h.value.bytes⟩⟩
      parseHeaders buf fuel (pos + lineEnd) slots (headers ++ [h])

/-- Parse the response head from `buf` into an array of `slots` headers; the second result is the number
    of bytes consumed. -/
def parse (buf : Bytes) (slots : Nat) : Except ParseError (ResponseHead × Nat) := do
  match Bytes.findCrlf buf with
  | none => throw .incomplete
  | some statusLineEnd =>
    let statusLine := buf.take statusLineEnd
    if statusLine.length < 12 then throw .invalidVersion
    let version ← Version.tryFrom (statusLine.take 8)
    if statusLine[8]? ≠ some 0x20 then throw .invalidVersion
    let status ← StatusCode.tryFrom ((statusLine.drop 9).take 3)
    let reason ← match statusLine[12]? with
      | none => pure []
      | some b => if b = 0x20 then pure (statusLine.drop 13) else throw .invalidStatusCode
    if reason.any isCtl then throw .invalidReasonPhrase
    let (headers, consumed) ← parseHeaders buf (buf.length + 1) (statusLineEnd + 2) slots []
    return (⟨version, status, reason, headers⟩, consumed)

end ResponseHead

/-! ## Header ranges -/

def MAX_HEADERS : Nat := 64

/-- Largest response head whose header positions fit the ranges' `u32` fields. -/
def MAX_ADDRESSABLE_HEAD : Nat := 2 ^ 32 - 1

structure HeaderRange where
  nameStart : Nat
  nameLen : Nat
  valueStart : Nat
  valueLen : Nat
deriving DecidableEq, Repr

namespace HeaderRange

/-- `HeaderRange::default`. -/
def default : HeaderRange := ⟨0, 0, 0, 0⟩

/-- The offset of a slice of `src`, from its address; a slice outside `src` is searched for. -/
def offsetInOrFind (src : Bytes) (part : Slice) : Option Nat :=
  if part.start < src.length then some part.start else Bytes.findSubsequence src part.bytes

/-- `from_parts`: each number must fit a `u32`. -/
def fromParts (nameStart nameLen valueStart valueLen : Nat) : Except Error HeaderRange :=
  if nameStart ≤ MAX_ADDRESSABLE_HEAD ∧ nameLen ≤ MAX_ADDRESSABLE_HEAD ∧
      valueStart ≤ MAX_ADDRESSABLE_HEAD ∧ valueLen ≤ MAX_ADDRESSABLE_HEAD then
    .ok ⟨nameStart, nameLen, valueStart, valueLen⟩
  else .error (.connection .headerRangeOverflow)

/-- The range of one header. -/
def ofHeader (src : Bytes) (h : HeaderSlice) : Except Error HeaderRange :=
  match offsetInOrFind src h.name, offsetInOrFind src h.value with
  | some ns, some vs => fromParts ns h.name.bytes.length vs h.value.bytes.length
  | _, _ => .error (.connection .headerNotInBuffer)

/-- Byte-offset ranges for each parsed header against `src`, padded to the array's fixed length. -/
def buildRanges (headers : List HeaderSlice) (src : Bytes) : Except Error (List HeaderRange) := do
  if headers.length > MAX_HEADERS then throw (.parse .tooManyHeaders)
  let ranges ← headers.mapM (ofHeader src)
  return ranges ++ List.replicate (MAX_HEADERS - ranges.length) default

end HeaderRange

end Xibalba
