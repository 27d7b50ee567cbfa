import Xibalba.Proto.Url

/-!
# `Client.Origin` — what a connection is connected to

`Origin` of `xibalba-client/src/origin.rs` and `UriReference` of `reference.rs`.
-/

namespace Xibalba

structure Origin where
  scheme : Scheme
  host : Bytes
  port : Nat
deriving DecidableEq, Repr

namespace Origin

def fromUrl (url : Url) : Origin := ⟨url.scheme, url.host, url.effectivePort⟩

/-- Whether `url` points at this origin. -/
def covers (o : Origin) (url : Url) : Bool :=
  Bytes.asciiEqIgnoreCase url.host o.host && url.effectivePort == o.port && url.scheme == o.scheme

/-- Whether reaching `target` from here would downgrade HTTPS to HTTP. -/
def downgradesTo (o : Origin) (target : Scheme) : Bool := o.scheme == .https && target == .http

/-- The `Host` header value: the port is elided when it is the scheme's default. -/
def hostHeaderValue (o : Origin) : Bytes :=
  if o.port = o.scheme.defaultPort then o.host else o.host ++ ascii ":" ++ ascii (toString o.port)

/-- This origin as a URL for its root. -/
def rootUrl (o : Origin) : Url := ⟨o.scheme, o.host, some o.port, ascii "/", none, none⟩

end Origin

namespace UriReference

/-- RFC 3986 §5.2.3: keep everything up to the base's last slash and append the reference. -/
def merge (basePath reference : Bytes) : Bytes :=
  let baseEnd := (Url.rposition (· == 0x2f) basePath).elim 0 (· + 1)
  let merged := basePath.take baseEnd
  (if merged.isEmpty then ascii "/" else merged) ++ reference

/-- One turn of the segment loop: the segments kept so far, and whether the path ends in a slash. -/
def segmentStep (st : List Bytes × Bool) (segment : Bytes) : List Bytes × Bool :=
  if segment = ascii ".." then (st.1.dropLast, true)
  else if segment = ascii "." ∨ segment = [] then (st.1, true)
  else (st.1 ++ [segment], false)

/-- RFC 3986 §5.2.4: resolve `.` and `..` against the path. -/
def removeDotSegments (path : Bytes) : Bytes :=
  let (out, trailingSlash) := (path.splitOnP (· == 0x2f)).foldl segmentStep ([], false)
  let resolved := out.flatMap (ascii "/" ++ ·)
  let resolved := if trailingSlash then resolved ++ ascii "/" else resolved
  let resolved := if resolved.isEmpty then ascii "/" else resolved
  if path.head? ≠ some 0x2f ∧ resolved.head? = some 0x2f then resolved.drop 1 else resolved

/-- Merge `reference` with `basePath` and remove dot segments. -/
def resolve (basePath reference : Bytes) : Bytes := removeDotSegments (merge basePath reference)

end UriReference

end Xibalba
