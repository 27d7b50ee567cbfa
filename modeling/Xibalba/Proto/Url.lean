import Xibalba.Proto.Message

/-!
# `Proto.Url` — URL parsing

`Url::parse` of `xibalba-proto/src/url.rs`: scheme, authority with its three host forms, and the tail. Error
positions are those of the source, which mixes offsets into the authority, into the host and into a literal.
-/

namespace Xibalba

structure Url where
  scheme : Scheme
  host : Bytes
  port : Option Nat
  path : Bytes
  query : Option Bytes
  fragment : Option Bytes
deriving DecidableEq, Repr

namespace Url

/-- The effective port (explicit or scheme default). -/
def effectivePort (url : Url) : Nat := url.port.getD url.scheme.defaultPort

/-- The host to connect to, with the brackets of an IP literal removed. -/
def connectionHost (url : Url) : Bytes :=
  match url.host.head?, url.host.getLast? with
  | some 0x5b, some 0x5d => (url.host.drop 1).take (url.host.length - 2)
  | _, _ => url.host

/-- The path to use in the request line. -/
def requestPath (url : Url) : Bytes := if url.path.isEmpty then ascii "/" else url.path

/-! ## Byte classes -/

/-- `unreserved`, the bytes a zone ID may hold unescaped. -/
def isZoneIdByte (b : UInt8) : Bool :=
  isAsciiAlphanumeric b || [0x2d, 0x2e, 0x5f, 0x7e].contains b

/-- `unreserved / sub-delims`. -/
def isRegNameByte (b : UInt8) : Bool :=
  isZoneIdByte b || [0x21, 0x24, 0x26, 0x27, 0x28, 0x29, 0x2a, 0x2b, 0x2c, 0x3b, 0x3d].contains b

/-- Bytes allowed in a host of any form. -/
def isHostByte (b : UInt8) : Bool := isRegNameByte b || [0x25, 0x5b, 0x5d, 0x3a].contains b

/-! ## Hosts -/

/-- Bytes accepted by `plain`, and well-formed percent triples; the error carries the index of the first
    byte that is neither. -/
def validatePctEncodedUnreserved (plain : UInt8 → Bool) (i : Nat) : Bytes → Except UrlError Unit
  | [] => .ok ()
  | 0x25 :: hi :: lo :: rest =>
    if isAsciiHexdigit hi && isAsciiHexdigit lo then validatePctEncodedUnreserved plain (i + 3) rest
    else .error (.invalidByte i)
  | b :: rest =>
    if b ≠ 0x25 ∧ plain b then validatePctEncodedUnreserved plain (i + 1) rest
    else .error (.invalidByte i)

def validateRegName (host : Bytes) : Except UrlError Unit :=
  validatePctEncodedUnreserved isRegNameByte 0 host

def validateZoneId (zone : Bytes) : Except UrlError Unit :=
  if zone.isEmpty then .error (.invalidByte 1) else validatePctEncodedUnreserved isZoneIdByte 0 zone

/-- `IPvFuture = "v" 1*HEXDIG "." 1*( unreserved / sub-delims / ":" )`. -/
def validateIpvfuture (inner : Bytes) : Except UrlError Unit :=
  match inner.findIdx? (· == 0x2e) with
  | none => .error (.invalidByte 1)
  | some dot =>
    let version := (inner.take dot).drop 1
    let rest := inner.drop (dot + 1)
    if version.isEmpty || rest.isEmpty || !version.all isAsciiHexdigit then .error (.invalidByte 1)
    else if rest.all fun b => isRegNameByte b || b == 0x3a then .ok ()
    else .error (.invalidByte 1)

/-- A decimal octet without a leading zero and at most 255. -/
def isDecOctet (octet : Bytes) : Bool :=
  !octet.isEmpty && octet.length ≤ 3 && octet.all isAsciiDigit &&
    (octet.length == 1 || octet.head? != some 0x30) &&
    octet.foldl (fun acc b => acc * 10 + (b - 0x30).toNat) 0 ≤ 255

def isIpv4Address (bytes : Bytes) : Bool :=
  let octets := bytes.splitOnP (· == 0x2e)
  octets.length == 4 && octets.all isDecOctet

/-- Split on `:` into `h16` groups, the last of which may be an IPv4 address when that is allowed. -/
def h16Groups (part : Bytes) (allowTrailingV4 : Bool) : Except UrlError (List Bytes × Bool) :=
  if part.isEmpty then .ok ([], false)
  else
    let rawGroups := part.splitOnP (· == 0x3a)
    if rawGroups.any List.isEmpty then .error (.invalidByte 1)
    else
      let hasTrailingV4 := allowTrailingV4 && rawGroups.getLast?.any isIpv4Address
      let groups := if hasTrailingV4 then rawGroups.dropLast else rawGroups
      if groups.all fun g => !g.isEmpty && g.length ≤ 4 && g.all isAsciiHexdigit then
        .ok (groups, hasTrailingV4)
      else .error (.invalidByte 1)

/-- `IPv6address`: eight groups, or fewer around one `::`. -/
def validateIpv6Address (address : Bytes) : Except UrlError Unit := do
  if address.isEmpty then throw (UrlError.invalidByte 1)
  let doubleColon := Bytes.findWindow (ascii "::") address
  if doubleColon.any fun first => (Bytes.findWindow (ascii "::") (address.drop (first + 2))).isSome then
    throw (UrlError.invalidByte 1)
  let (left, right, elided) := match doubleColon with
    | none => (address, [], false)
    | some pos => (address.take pos, address.drop (pos + 2), true)
  -- the side in front of a `::` cannot embed an IPv4 address
  let (leftGroups, leftV4) ← h16Groups left (!elided)
  let (rightGroups, rightV4) ← h16Groups right true
  let total := leftGroups.length + 2 * leftV4.toNat + (rightGroups.length + 2 * rightV4.toNat)
  if elided then
    if total ≥ 8 then throw (UrlError.invalidByte 1)
  else if total ≠ 8 then throw (UrlError.invalidByte 1)

/-- The bytes between brackets. -/
def validateIpLiteral (inner : Bytes) : Except UrlError Unit := do
  match inner.head? with
  | none => throw (.invalidByte 1)
  | some first =>
    if first = 0x76 ∨ first = 0x56 then validateIpvfuture inner
    else
      match Bytes.findWindow (ascii "%25") inner with
      | none => validateIpv6Address inner
      | some pos =>
        validateIpv6Address (inner.take pos)
        validateZoneId (inner.drop (pos + 3))

/-! ## Authority and tail -/

/-- The digit loop of `parse_port`. -/
def parsePortDigits (acc : Nat) : Bytes → Except UrlError Nat
  | [] => .ok acc
  | b :: rest =>
    let digit := (b - 0x30).toNat
    if digit > 9 then .error .invalidPort
    else if acc * 10 + digit > 65535 then .error .invalidPort
    else parsePortDigits (acc * 10 + digit) rest

def parsePort (bytes : Bytes) : Except UrlError Nat :=
  if bytes.isEmpty then .error .invalidPort else parsePortDigits 0 bytes

/-- The index of the last byte satisfying `p`: `iter().rposition(p)`. -/
def rposition (p : UInt8 → Bool) (bytes : Bytes) : Option Nat :=
  (bytes.reverse.findIdx? p).map fun i => bytes.length - 1 - i

/-- Host and port. -/
def parseAuthority (authority : Bytes) : Except UrlError (Bytes × Option Nat) := do
  if authority.isEmpty then return ([], none)
  match authority.findIdx? (· == 0x40) with
  | some atSign => throw (.invalidByte atSign)
  | none =>
    if authority.head? = some 0x5b then
      match authority.findIdx? (· == 0x5d) with
      | none => throw (.invalidByte 0)
      | some bracketEnd =>
        let host := authority.take (bracketEnd + 1)
        validateIpLiteral ((authority.take bracketEnd).drop 1)
        match authority.drop (bracketEnd + 1) with
        | [] => return (host, none)
        | b :: rest =>
          if b = 0x3a then return (host, some (← parsePort rest))
          else throw (.invalidByte (bracketEnd + 1))
    else
      match rposition (· == 0x3a) authority with
      | some colonPos =>
        let host := authority.take colonPos
        validateRegName host
        return (host, some (← parsePort (authority.drop (colonPos + 1))))
      | none =>
        validateRegName authority
        return (authority, none)

/-- Cut at the first byte satisfying `p`, dropping that byte. -/
def cutAt (p : UInt8 → Bool) (bytes : Bytes) : Bytes × Option Bytes :=
  match bytes.findIdx? p with
  | none => (bytes, none)
  | some pos => (bytes.take pos, some (bytes.drop (pos + 1)))

/-- Path, query and fragment. -/
def parsePathQueryFragment (input : Bytes) : Bytes × Option Bytes × Option Bytes :=
  let (beforeFragment, fragment) := cutAt (· == 0x23) input
  let (path, query) := cutAt (· == 0x3f) beforeFragment
  (path, query, fragment)

/-- Parse a URL from bytes. -/
def parse (input : Bytes) : Except UrlError Url := do
  if input.isEmpty then throw .empty
  match Bytes.findSubsequence input (ascii "://") with
  | none => throw .invalidScheme
  | some sepPos =>
    let scheme ← Scheme.tryFrom (input.take sepPos)
    let rest := input.drop (sepPos + 3)
    let authorityEnd := (rest.findIdx? fun b => b == 0x2f || b == 0x3f || b == 0x23).getD rest.length
    let (host, port) ← parseAuthority (rest.take authorityEnd)
    if host.isEmpty then throw .missingHost
    match host.findIdx? (!isHostByte ·) with
    | some bad => throw (.invalidByte bad)
    | none =>
      let (path, query, fragment) := parsePathQueryFragment (rest.drop authorityEnd)
      return ⟨scheme, host, port, path, query, fragment⟩

end Url

/-! ## Query parameters -/

/-- The iterator over the parameters of a query. -/
structure QueryParams where
  remaining : Bytes
  done : Bool
deriving DecidableEq, Repr

/-- `Url::query_params`. -/
def Url.queryParams (url : Url) : QueryParams := ⟨url.query.getD [], url.query.isNone⟩

namespace QueryParams

/-- Key and value of one pair. -/
def splitPair (pair : Bytes) : Bytes × Option Bytes := Url.cutAt (· == 0x3d) pair

/-- `Iterator::next`. An empty pair behind the last `&` is none. -/
def next (q : QueryParams) : Option (Bytes × Option Bytes) × QueryParams :=
  if q.done then (none, q)
  else
    match q.remaining.findIdx? (· == 0x26) with
    | some pos => (some (splitPair (q.remaining.take pos)), { q with remaining := q.remaining.drop (pos + 1) })
    | none =>
      let q' : QueryParams := ⟨[], true⟩
      if q.remaining.isEmpty then (none, q') else (some (splitPair q.remaining), q')

end QueryParams

end Xibalba
