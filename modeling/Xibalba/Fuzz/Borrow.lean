import Xibalba.Proto.Head
import Xibalba.Proto.Url

/-!
# `Fuzz.Borrow` — the parsers, with the addresses of what they return

`ResponseHead::parse` (`response/head.rs`) and `Url::parse` (`url.rs`) of `xibalba-proto`, once more. The byte slices
they return are here what they are in the source, an address and a length: the fuzz targets look at where a slice
points. An address is an offset into the parsed input, or none for a literal of the program.
-/

namespace Xibalba.Fuzz

/-- A byte slice: the offset into the input at which it starts, if it points there, and its bytes. -/
structure Part where
  start : Option Nat
  bytes : Bytes
deriving DecidableEq, Repr

namespace Part

/-- The input itself. -/
def whole (input : Bytes) : Part := ⟨some 0, input⟩

/-- A byte string of the program. -/
def literal (bytes : Bytes) : Part := ⟨none, bytes⟩

def ofSlice (s : Slice) : Part := ⟨some s.start, s.bytes⟩

/-- `&part[..n]`. -/
def take (n : Nat) (part : Part) : Part := ⟨part.start, part.bytes.take n⟩

/-- `&part[n..]`. -/
def drop (n : Nat) (part : Part) : Part := ⟨part.start.map (· + n), part.bytes.drop n⟩

end Part

/-! ## Response heads -/

/-- `ResponseHead`, with the part of the caller's array that was filled. -/
structure HeadParts where
  version : Version
  status : StatusCode
  reason : Part
  headers : List HeaderSlice
deriving DecidableEq

namespace HeadParts

/-- The head, without addresses. -/
def head (h : HeadParts) : ResponseHead := ⟨h.version, h.status, h.reason.bytes, h.headers⟩

/-- The slices of the head: the reason, and each header's name and value. -/
def parts (h : HeadParts) : List Part :=
  h.reason :: h.headers.flatMap fun header => [.ofSlice header.name, .ofSlice header.value]

/-- `ResponseHead::parse`. -/
def parse (buf : Bytes) (slots : Nat) : Except ParseError (HeadParts × Nat) := do
  match Bytes.findCrlf buf with
  | none => throw .incomplete
  | some statusLineEnd =>
    let statusLine := (Part.whole buf).take statusLineEnd
    if statusLine.bytes.length < 12 then throw .invalidVersion
    let version ← Version.tryFrom (statusLine.take 8).bytes
    if statusLine.bytes[8]? ≠ some 0x20 then throw .invalidVersion
    let status ← StatusCode.tryFrom ((statusLine.drop 9).take 3).bytes
    let reason ← match statusLine.bytes[12]? with
      | none => pure (Part.literal [])
      | some b => if b = 0x20 then pure (statusLine.drop 13) else throw .invalidStatusCode
    if reason.bytes.any ResponseHead.isCtl then throw .invalidReasonPhrase
    let (headers, consumed) ← ResponseHead.parseHeaders buf (buf.length + 1) (statusLineEnd + 2) slots []
    return (⟨version, status, reason, headers⟩, consumed)

end HeadParts

/-! ## URLs -/

/-- `Url`. -/
structure UrlParts where
  scheme : Scheme
  host : Part
  port : Option Nat
  path : Part
  query : Option Part
  fragment : Option Part
deriving DecidableEq, Repr

namespace UrlParts

/-- The URL, without addresses. -/
def url (u : UrlParts) : Url :=
  ⟨u.scheme, u.host.bytes, u.port, u.path.bytes, u.query.map Part.bytes, u.fragment.map Part.bytes⟩

/-- `connection_host`. -/
def connectionHost (u : UrlParts) : Part :=
  match u.host.bytes.head?, u.host.bytes.getLast? with
  | some 0x5b, some 0x5d => (u.host.drop 1).take (u.host.bytes.length - 2)
  | _, _ => u.host

/-- `parse_authority`. -/
def parseAuthority (authority : Part) : Except UrlError (Part × Option Nat) := do
  if authority.bytes.isEmpty then return (.literal [], none)
  match authority.bytes.findIdx? (· == 0x40) with
  | some atSign => throw (.invalidByte atSign)
  | none =>
    if authority.bytes.head? = some 0x5b then
      match authority.bytes.findIdx? (· == 0x5d) with
      | none => throw (.invalidByte 0)
      | some bracketEnd =>
        let host := authority.take (bracketEnd + 1)
        Url.validateIpLiteral ((authority.take bracketEnd).drop 1).bytes
        match (authority.drop (bracketEnd + 1)).bytes with
        | [] => return (host, none)
        | b :: rest =>
          if b = 0x3a then return (host, some (← Url.parsePort rest))
          else throw (.invalidByte (bracketEnd + 1))
    else
      match Url.rposition (· == 0x3a) authority.bytes with
      | some colonPos =>
        let host := authority.take colonPos
        Url.validateRegName host.bytes
        return (host, some (← Url.parsePort (authority.drop (colonPos + 1)).bytes))
      | none =>
        Url.validateRegName authority.bytes
        return (authority, none)

/-- Cut at the first byte satisfying `p`, dropping that byte. -/
def cutAt (p : UInt8 → Bool) (part : Part) : Part × Option Part :=
  match part.bytes.findIdx? p with
  | none => (part, none)
  | some pos => (part.take pos, some (part.drop (pos + 1)))

/-- `parse_path_query_fragment`. -/
def parsePathQueryFragment (input : Part) : Part × Option Part × Option Part :=
  if input.bytes.isEmpty then (.literal [], none, none)
  else
    let (beforeFragment, fragment) := cutAt (· == 0x23) input
    let (path, query) := cutAt (· == 0x3f) beforeFragment
    (path, query, fragment)

/-- `Url::parse`. -/
def parse (input : Bytes) : Except UrlError UrlParts := do
  if input.isEmpty then throw .empty
  match Bytes.findSubsequence input (ascii "://") with
  | none => throw .invalidScheme
  | some sepPos =>
    let scheme ← Scheme.tryFrom ((Part.whole input).take sepPos).bytes
    let rest := (Part.whole input).drop (sepPos + 3)
    let authorityEnd := (rest.bytes.findIdx? fun b => b == 0x2f || b == 0x3f || b == 0x23).getD rest.bytes.length
    let (host, port) ← parseAuthority (rest.take authorityEnd)
    if host.bytes.isEmpty then throw .missingHost
    match host.bytes.findIdx? (!Url.isHostByte ·) with
    | some bad => throw (.invalidByte bad)
    | none =>
      let (path, query, fragment) := parsePathQueryFragment (rest.drop authorityEnd)
      return ⟨scheme, host, port, path, query, fragment⟩

end UrlParts

end Xibalba.Fuzz
