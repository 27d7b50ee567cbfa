import Xibalba.Proto.Header

/-!
# `Proto.Chunked` — the chunked `Transfer-Encoding` decoder

`ChunkedDecoder` of `xibalba-proto/src/response/chunked.rs`: nine live states, an extension machine of
eight phases, a trailer machine of two, and three metadata budgets. `decode` takes a piece of input and an
output buffer and reports what it produced.

The three metadata readers (`read_size_line`, `read_data_terminator`, `read_trailer`) share one loop: walk
the input with an index, let the state decide what the byte does, and return early on a verdict. That loop
is `scan`; each reader is `scan` applied to its own match on the state. A match arm the source marks
`unreachable!()` is `unreachable` here and surfaces as the result `panicked`, so that reaching one is
visible instead of silently being something else.
-/

namespace Xibalba

/-- Largest chunk extension, in bytes, accepted on a single chunk. -/
def MAX_CHUNK_EXTENSION : Nat := 4096

/-- Largest trailer section, in bytes, accepted after the final chunk. -/
def MAX_TRAILER_SECTION : Nat := 8192

/-- Largest chunk-size line, in hex digits. -/
def MAX_CHUNK_SIZE_DIGITS : Nat := 1024

/-- Bounds the metadata a peer may send between body bytes. -/
structure MetadataBudget where
  sizeDigits : Nat
  extension : Nat
  trailer : Nat
deriving DecidableEq, Repr

namespace MetadataBudget

def new : MetadataBudget := ⟨0, 0, 0⟩

/-- Charge one size-line hex digit; the flag says whether it was within the budget. -/
def chargeSizeDigit (m : MetadataBudget) : MetadataBudget × Bool :=
  ({ m with sizeDigits := m.sizeDigits + 1 }, m.sizeDigits + 1 ≤ MAX_CHUNK_SIZE_DIGITS)

/-- Charge one extension byte. -/
def chargeExtension (m : MetadataBudget) : MetadataBudget × Bool :=
  ({ m with extension := m.extension + 1 }, m.extension + 1 ≤ MAX_CHUNK_EXTENSION)

/-- Charge one trailer byte; never reset, so the whole section shares one budget. -/
def chargeTrailer (m : MetadataBudget) : MetadataBudget × Bool :=
  ({ m with trailer := m.trailer + 1 }, m.trailer + 1 ≤ MAX_TRAILER_SECTION)

def resetSizeDigits (m : MetadataBudget) : MetadataBudget := { m with sizeDigits := 0 }

def resetExtension (m : MetadataBudget) : MetadataBudget := { m with extension := 0 }

end MetadataBudget

/-- Position within `chunk-ext`. -/
inductive ExtPhase where
  | beforeName
  | name
  | afterName
  | beforeValue
  | valueToken
  | valueQuoted
  | valueQuotedEscaped
  | afterValue
deriving DecidableEq, Repr

/-- Position within one trailer field line. -/
inductive TrailerPhase where
  | fieldName
  | afterColon
deriving DecidableEq, Repr

inductive ChunkedState where
  | readingSize
  | readingExtension
  | readingSizeLf
  | readingData
  | readingDataCr
  | readingDataLf
  | readingTrailer
  | readingTrailerLf
  | done
  | failed (e : ParseError)
deriving DecidableEq, Repr

/-- What the decoder wants the caller to do next. `panicked` is not a value of the source's enum: it
    marks a call that ran into `unreachable!()`. -/
inductive DecodeResult where
  | data (n : Nat)
  | needMore
  | done
  | error (e : ParseError)
  | panicked
deriving DecidableEq, Repr

structure ChunkedDecoder where
  state : ChunkedState
  chunkSize : Nat
  sawSizeDigit : Bool
  remaining : Nat
  trailerLineEmpty : Bool
  metadata : MetadataBudget
  extPhase : ExtPhase
  trailerPhase : TrailerPhase
  trailerNameLen : Nat
deriving DecidableEq, Repr

/-- What one byte of `step_extension` decided; `continue` carries the phase it moves to. -/
inductive ExtStep where
  | continue (phase : ExtPhase)
  | endOfLine
  | invalid
deriving DecidableEq, Repr

/-- What a metadata reader asks of `decode`. -/
inductive Step where
  | advance (n : Nat)
  | yield (e : ParseError) (consumed : Nat)
  | emitAndContinue (n : Nat)
  | unreachable
deriving DecidableEq, Repr

inductive DataStep where
  | copied (n : Nat)
  | bufferFull
deriving DecidableEq, Repr

/-- What the body of a reader's loop does with one byte: go on, return a `Step`, or panic. -/
inductive ByteStep where
  | next
  | advance
  | emitAndContinue
  | yield (e : ParseError)
  | unreachable
deriving DecidableEq, Repr

/-- `HexDigit::decode`. -/
def HexDigit.decode (b : UInt8) : Option Nat :=
  if 0x30 ≤ b ∧ b ≤ 0x39 then some (b - 0x30).toNat
  else if 0x61 ≤ b ∧ b ≤ 0x66 then some ((b - 0x61).toNat + 10)
  else if 0x41 ≤ b ∧ b ≤ 0x46 then some ((b - 0x41).toNat + 10)
  else none

namespace ChunkedDecoder

def new : ChunkedDecoder where
  state := .readingSize
  chunkSize := 0
  sawSizeDigit := false
  remaining := 0
  trailerLineEmpty := true
  metadata := .new
  extPhase := .beforeName
  trailerPhase := .fieldName
  trailerNameLen := 0

def isDone (d : ChunkedDecoder) : Bool := d.state = .done

/-- Whether `b` may appear inside a chunk extension or trailer line. -/
def isMetadataByte (b : UInt8) : Bool := b == 0x09 || (0x20 ≤ b && b != 0x7f)

/-- SP or HTAB, the "bad whitespace" tolerated around `;` and `=`. -/
def isBws (b : UInt8) : Bool := b == 0x20 || b == 0x09

/-! ## The extension machine -/

/-- Advance the extension phase by one byte. The arms stand in the source's order: several phases share a
    byte, and the first arm that applies wins. -/
def stepExtension (phase : ExtPhase) (b : UInt8) : ExtStep :=
  let before := phase = .beforeName ∨ phase = .beforeValue
  let after := phase = .name ∨ phase = .afterName ∨ phase = .valueToken ∨ phase = .afterValue
  if before ∧ isBws b then .continue phase
  else if after ∧ isBws b then
    .continue (if phase = .valueToken ∨ phase = .afterValue then .afterValue else .afterName)
  else if phase = .beforeName ∧ Tchar.isValid b then .continue .name
  else if phase = .name ∧ Tchar.isValid b then .continue .name
  else if (phase = .name ∨ phase = .afterName) ∧ b = 0x3d then .continue .beforeValue
  else if after ∧ b = 0x3b then .continue .beforeName
  else if after ∧ b = 0x0d then .endOfLine
  else if phase = .beforeValue ∧ b = 0x22 then .continue .valueQuoted
  else if (phase = .beforeValue ∨ phase = .valueToken) ∧ Tchar.isValid b then .continue .valueToken
  else if phase = .valueQuoted ∧ b = 0x5c then .continue .valueQuotedEscaped
  else if phase = .valueQuoted ∧ b = 0x22 then .continue .afterValue
  else if phase = .valueQuoted ∧ isMetadataByte b then .continue .valueQuoted
  else if phase = .valueQuotedEscaped ∧ isMetadataByte b then .continue .valueQuoted
  else .invalid

/-- Charge and advance one byte of `chunk-ext`. The terminating CR is not charged. -/
def advanceExtension (d : ChunkedDecoder) (b : UInt8) : ChunkedDecoder × ByteStep :=
  match stepExtension d.extPhase b with
  | .continue phase =>
    let (metadata, within) := d.metadata.chargeExtension
    let d := { d with extPhase := phase, metadata := metadata }
    if within then (d, .next) else (d, .yield .invalidChunkMetadata)
  | .endOfLine => ({ d with remaining := d.chunkSize, state := .readingSizeLf }, .next)
  | .invalid => (d, .yield .invalidChunkMetadata)

/-! ## The metadata readers -/

/-- The loop the metadata readers share: `for (i, &b) in input.iter().enumerate()` around `body`, and
    `Step::Advance(input.len())` when the input runs out. -/
def scan (body : ChunkedDecoder → UInt8 → ChunkedDecoder × ByteStep) (i : Nat) (d : ChunkedDecoder) :
    Bytes → ChunkedDecoder × Step
  | [] => (d, .advance i)
  | b :: rest =>
    match body d b with
    | (d, .next) => scan body (i + 1) d rest
    | (d, .advance) => (d, .advance (i + 1))
    | (d, .emitAndContinue) => (d, .emitAndContinue (i + 1))
    | (d, .yield e) => (d, .yield e i)
    | (d, .unreachable) => (d, .unreachable)

/-- One byte of `read_size_line` in `ReadingSize`. -/
def sizeByte (d : ChunkedDecoder) (b : UInt8) : ChunkedDecoder × ByteStep :=
  match HexDigit.decode b with
  | some digit =>
    let (metadata, within) := d.metadata.chargeSizeDigit
    let d := { d with metadata := metadata }
    if !within then (d, .yield .invalidChunkSize)
    else
      let d := { d with sawSizeDigit := true }
      -- `checked_mul(16)` and then `checked_add(digit)` on a `u64`
      if d.chunkSize * 16 + digit < 2 ^ 64 then
        ({ d with chunkSize := d.chunkSize * 16 + digit }, .next)
      else (d, .yield .invalidChunkSize)
  | none =>
    if (b = 0x0d ∨ b = 0x3b ∨ b = 0x20 ∨ b = 0x09) ∧ d.sawSizeDigit then
      if b = 0x0d then
        ({ d with remaining := d.chunkSize, state := .readingSizeLf }, .next)
      else
        advanceExtension { d with state := .readingExtension, extPhase := .afterValue } b
    else (d, .yield .invalidChunkSize)

/-- The loop body of `read_size_line`. -/
def sizeLineByte (d : ChunkedDecoder) (b : UInt8) : ChunkedDecoder × ByteStep :=
  match d.state with
  | .readingSize => sizeByte d b
  | .readingExtension => advanceExtension d b
  | .readingSizeLf =>
    if b ≠ 0x0a then (d, .yield .invalidChunkTerminator)
    else if d.chunkSize = 0 then
      ({ d with state := .readingTrailer, trailerLineEmpty := true,
                metadata := d.metadata.resetExtension }, .advance)
    else ({ d with state := .readingData }, .emitAndContinue)
  | _ => (d, .unreachable)

def readSizeLine (d : ChunkedDecoder) (input : Bytes) : ChunkedDecoder × Step :=
  scan sizeLineByte 0 d input

/-- `read_data` on an input and `room` free bytes of output; the bytes copied are the first `n` of the
    input. -/
def readData (d : ChunkedDecoder) (input : Bytes) (room : Nat) : ChunkedDecoder × DataStep :=
  if room = 0 then (d, .bufferFull)
  else
    let toCopy := min (min input.length room) d.remaining
    if toCopy = 0 then ({ d with state := .readingDataCr }, .copied 0)
    else
      let d := { d with remaining := d.remaining - toCopy }
      let d := if d.remaining = 0 then { d with state := .readingDataCr } else d
      (d, .copied toCopy)

/-- The loop body of `read_data_terminator`. -/
def dataTerminatorByte (d : ChunkedDecoder) (b : UInt8) : ChunkedDecoder × ByteStep :=
  match d.state with
  | .readingDataCr =>
    if b ≠ 0x0d then (d, .yield .invalidChunkTerminator)
    else ({ d with state := .readingDataLf }, .next)
  | .readingDataLf =>
    if b ≠ 0x0a then (d, .yield .invalidChunkTerminator)
    else
      ({ d with chunkSize := 0, sawSizeDigit := false,
                metadata := d.metadata.resetExtension.resetSizeDigits,
                extPhase := .beforeName, state := .readingSize }, .advance)
  | _ => (d, .unreachable)

def readDataTerminator (d : ChunkedDecoder) (input : Bytes) : ChunkedDecoder × Step :=
  scan dataTerminatorByte 0 d input

/-- The loop body of `read_trailer`. -/
def trailerByte (d : ChunkedDecoder) (b : UInt8) : ChunkedDecoder × ByteStep :=
  match d.state with
  | .readingTrailer =>
    if b = 0x0d ∧ d.trailerPhase = .fieldName ∧ d.trailerNameLen = 0 then
      ({ d with state := .readingTrailerLf }, .next)
    else
      let (metadata, within) := d.metadata.chargeTrailer
      let d := { d with metadata := metadata }
      if !within then (d, .yield .invalidChunkMetadata)
      else
        let d := { d with trailerLineEmpty := false }
        match d.trailerPhase with
        | .fieldName =>
          if b = 0x3a ∧ d.trailerNameLen > 0 then ({ d with trailerPhase := .afterColon }, .next)
          else if Tchar.isValid b then ({ d with trailerNameLen := d.trailerNameLen + 1 }, .next)
          else (d, .yield .invalidChunkMetadata)
        | .afterColon =>
          if isMetadataByte b then (d, .next)
          else if b = 0x0d then ({ d with state := .readingTrailerLf }, .next)
          else (d, .yield .invalidChunkMetadata)
  | .readingTrailerLf =>
    if b ≠ 0x0a then (d, .yield .invalidChunkTerminator)
    else if d.trailerLineEmpty then ({ d with state := .done }, .advance)
    else
      ({ d with state := .readingTrailer, trailerLineEmpty := true, trailerPhase := .fieldName,
                trailerNameLen := 0 }, .next)
  | _ => (d, .unreachable)

def readTrailer (d : ChunkedDecoder) (input : Bytes) : ChunkedDecoder × Step :=
  scan trailerByte 0 d input

/-! ## `decode` -/

/-- What a call of `decode` leaves behind: the decoder, the result, the bytes consumed from the input and
    the bytes written to the front of the output buffer. -/
structure Decoded where
  decoder : ChunkedDecoder
  result : DecodeResult
  consumed : Nat
  written : Bytes
deriving DecidableEq, Repr

/-- Deliver body bytes decoded before a verdict was reached, holding the verdict for the next call. -/
def deliver (d : ChunkedDecoder) (e : ParseError) (consumed : Nat) (written : Bytes) : Decoded :=
  if 0 < written.length then
    ⟨{ d with state := .failed e }, .data written.length, consumed, written⟩
  else ⟨d, .error e, consumed, written⟩

/-- What `decode` returns once its loop has ended. -/
def finish (d : ChunkedDecoder) (inPos : Nat) (written : Bytes) : Decoded :=
  if 0 < written.length then ⟨d, .data written.length, inPos, written⟩
  else if d.isDone then ⟨d, .done, inPos, written⟩
  else ⟨d, .needMore, inPos, written⟩

/-- The loop of `decode`: `input` is what is left from `in_pos` on, `written` the output so far, whose
    length is `out_pos`. Every turn but one consumes a byte, so `2 * input.length + 1` turns are enough
    (`decodeLoop_stretch` never reaches the zero case). -/
def decodeLoop (outLen : Nat) : Nat → ChunkedDecoder → Bytes → Nat → Bytes → Decoded
  | 0, d, _, inPos, written => finish d inPos written
  | fuel + 1, d, input, inPos, written =>
    if input.isEmpty then finish d inPos written
    else
      match d.state with
      | .readingSize | .readingExtension | .readingSizeLf =>
        match d.readSizeLine input with
        | (d, .advance n) => decodeLoop outLen fuel d (input.drop n) (inPos + n) written
        | (d, .yield e consumed) => deliver d e (inPos + consumed) written
        | (d, .emitAndContinue n) =>
          if 0 < written.length then ⟨d, .data written.length, inPos + n, written⟩
          else decodeLoop outLen fuel d (input.drop n) (inPos + n) written
        | (d, .unreachable) => ⟨d, .panicked, inPos, written⟩
      | .readingData =>
        match d.readData input (outLen - written.length) with
        | (d, .copied n) =>
          decodeLoop outLen fuel d (input.drop n) (inPos + n) (written ++ input.take n)
        | (d, .bufferFull) => ⟨d, .data written.length, inPos, written⟩
      | .readingDataCr | .readingDataLf =>
        match d.readDataTerminator input with
        | (d, .advance n) => decodeLoop outLen fuel d (input.drop n) (inPos + n) written
        | (d, .yield e consumed) => deliver d e (inPos + consumed) written
        | (d, _) => ⟨d, .panicked, inPos, written⟩
      | .readingTrailer | .readingTrailerLf =>
        match d.readTrailer input with
        | (d, .advance n) => decodeLoop outLen fuel d (input.drop n) (inPos + n) written
        | (d, .yield e consumed) => deliver d e (inPos + consumed) written
        | (d, _) => ⟨d, .panicked, inPos, written⟩
      | .failed e => ⟨d, .error e, inPos, written⟩
      | .done => finish d inPos written

/-- Decode chunked data from `input` into an output buffer of `outLen` bytes. -/
def decode (d : ChunkedDecoder) (input : Bytes) (outLen : Nat) : Decoded :=
  match d.state with
  | .failed e => ⟨d, .error e, 0, []⟩
  | _ => decodeLoop outLen (2 * input.length + 1) d input 0 []

end ChunkedDecoder

end Xibalba
