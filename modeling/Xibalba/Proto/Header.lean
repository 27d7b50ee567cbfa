import Xibalba.Proto.Error

/-!
# `Proto.Header` — token characters and header names

`Tchar` and `HeaderName` of `xibalba-proto/src/header.rs`. A name is a well-known header or the bytes as
written; the two representations compare case-insensitively with one another.
-/

namespace Xibalba

/-- `Tchar::is_valid`: membership in the 256-entry table, which holds exactly the RFC 7230 token
    characters. -/
def Tchar.isValid (b : UInt8) : Bool :=
  isAsciiAlphanumeric b ||
    [0x21, 0x23, 0x24, 0x25, 0x26, 0x27, 0x2a, 0x2b, 0x2d, 0x2e, 0x5e, 0x5f, 0x60, 0x7c, 0x7e].contains b

inductive KnownHeader where
  | host
  | contentLength
  | contentType
  | transferEncoding
  | connection
  | accept
  | userAgent
  | acceptEncoding
  | location
  | cacheControl
  | date
  | server
  | contentEncoding
  | setCookie
  | cookie
  | authorization
deriving DecidableEq, Repr

namespace KnownHeader

/-- `KNOWN_CANONICAL`. -/
def canonical : KnownHeader → Bytes
  | host => ascii "Host"
  | contentLength => ascii "Content-Length"
  | contentType => ascii "Content-Type"
  | transferEncoding => ascii "Transfer-Encoding"
  | connection => ascii "Connection"
  | accept => ascii "Accept"
  | userAgent => ascii "User-Agent"
  | acceptEncoding => ascii "Accept-Encoding"
  | location => ascii "Location"
  | cacheControl => ascii "Cache-Control"
  | date => ascii "Date"
  | server => ascii "Server"
  | contentEncoding => ascii "Content-Encoding"
  | setCookie => ascii "Set-Cookie"
  | cookie => ascii "Cookie"
  | authorization => ascii "Authorization"

/-- `KNOWN_HEADERS`, in the order `from_bytes` searches it. -/
def table : List (KnownHeader × Bytes) :=
  [(host, ascii "host"), (contentLength, ascii "content-length"),
   (contentType, ascii "content-type"), (transferEncoding, ascii "transfer-encoding"),
   (connection, ascii "connection"), (accept, ascii "accept"), (userAgent, ascii "user-agent"),
   (acceptEncoding, ascii "accept-encoding"), (location, ascii "location"),
   (cacheControl, ascii "cache-control"), (date, ascii "date"), (server, ascii "server"),
   (contentEncoding, ascii "content-encoding"), (setCookie, ascii "set-cookie"),
   (cookie, ascii "cookie"), (authorization, ascii "authorization")]

end KnownHeader

inductive HeaderName where
  | known (k : KnownHeader)
  | other (raw : Bytes)
deriving DecidableEq, Repr

namespace HeaderName

def asBytes : HeaderName → Bytes
  | known k => k.canonical
  | other raw => raw

/-- Parse a header name from raw bytes, case-insensitively. -/
def fromBytes (bytes : Bytes) : HeaderName :=
  match KnownHeader.table.find? fun p => Bytes.asciiEqIgnoreCase bytes p.2 with
  | some (k, _) => known k
  | none => other bytes

/-- Wrap raw bytes from the wire without the known-header lookup. -/
def raw (bytes : Bytes) : HeaderName := other bytes

/-- `PartialEq for HeaderNameInner`, the comparison the source's `==` on names runs. -/
def eq : HeaderName → HeaderName → Bool
  | known a, known b => a == b
  | other a, other b => Bytes.asciiEqIgnoreCase a b
  | other a, known k => Bytes.asciiEqIgnoreCase a k.canonical
  | known k, other b => Bytes.asciiEqIgnoreCase b k.canonical

/-- `Hash for HeaderNameInner`: the bytes of the name in lower case, one call of the hasher's `write_u8` each. -/
def hash {H : Type} (name : HeaderName) (writeU8 : H → UInt8 → H) (state : H) : H :=
  let bytes := match name with
    | known k => k.canonical
    | other b => b
  bytes.foldl (fun state byte => writeU8 state (toAsciiLowercase byte)) state

end HeaderName

structure Header where
  name : HeaderName
  value : Bytes
deriving DecidableEq, Repr

end Xibalba
