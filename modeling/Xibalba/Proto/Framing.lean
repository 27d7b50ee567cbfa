import Xibalba.Proto.Head

/-!
# `Proto.Framing` — where a response body ends

`TransferCodings` of `xibalba-proto/src/coding.rs` and `BodyFraming` of `response/framing.rs`.
-/

namespace Xibalba

/-- What a `Transfer-Encoding` list asks the recipient to do with the body. -/
inductive TransferCoding where
  | absent
  | chunked
  | identity
deriving DecidableEq, Repr

namespace TransferCodings

/-- The non-empty codings of one header value. -/
def ofValue (value : Bytes) : List Bytes :=
  ((value.splitOnP (· == 0x2c)).map Bytes.trimOws).filter (!·.isEmpty)

/-- Interpret every `Transfer-Encoding` header in order. -/
def parse (headers : List Header) : Except ParseError TransferCoding :=
  let values := (headers.filter fun h => h.name.eq (.known .transferEncoding)).map Header.value
  let codings := values.flatMap ofValue
  if values.isEmpty then .ok .absent
  else if codings.isEmpty then .ok .identity
  else
    let isChunked (c : Bytes) := Bytes.asciiEqIgnoreCase c (ascii "chunked")
    let chunkedCount := (codings.filter isChunked).length
    if chunkedCount > 1 then .error .invalidTransferEncoding
    else
      let chunkedIsFinal := codings.getLast?.any isChunked
      if chunkedCount = 1 ∧ !chunkedIsFinal then .error .invalidTransferEncoding
      else
        let leading := if chunkedIsFinal then codings.dropLast else codings
        if leading.any fun c => !Bytes.asciiEqIgnoreCase c (ascii "identity") then
          .error .unsupportedTransferCoding
        else if chunkedIsFinal then .ok .chunked
        else .ok .identity

end TransferCodings

/-- How the response body is framed. -/
inductive BodyFraming where
  | contentLength (len : Nat)
  | chunked
  | untilClose
  | none
deriving DecidableEq, Repr

namespace BodyFraming

/-- The `Content-Length` loop of `from_response`: every value must parse, and to the same number. -/
def contentLengthOf (found : Option Nat) : List Header → Except ParseError (Option Nat)
  | [] => .ok found
  | h :: rest =>
    if h.name.eq (.known .contentLength) then
      match Bytes.parseU64 h.value with
      | Option.none => .error .invalidContentLength
      | some len =>
        if found.any (· ≠ len) then .error .invalidContentLength else contentLengthOf (some len) rest
    else contentLengthOf found rest

/-- Body framing from the request method, the response status, and the headers. -/
def fromResponse (status : StatusCode) (requestMethod : Method) (headers : List Header) :
    Except ParseError BodyFraming := do
  if status.isInformational ∨ status = .NO_CONTENT ∨ status = .NOT_MODIFIED ∨
      !requestMethod.responseCanHaveContent status then
    return .none
  match ← TransferCodings.parse headers with
  | .chunked => return .chunked
  | .identity => return .untilClose
  | .absent =>
    match ← contentLengthOf Option.none headers with
    | some len => return .contentLength len
    | Option.none => return .untilClose

end BodyFraming

end Xibalba
