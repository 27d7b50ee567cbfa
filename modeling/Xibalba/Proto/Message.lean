import Xibalba.Proto.Header

/-!
# `Proto.Message` — scheme, method, version and status

The small enumerations of the protocol layer: `scheme.rs`, `method.rs`, `version.rs` and `status.rs` of
`xibalba-proto/src`.
-/

namespace Xibalba

/-! ## Scheme -/

inductive Scheme where
  | http
  | https
deriving DecidableEq, Repr

namespace Scheme

def defaultPort : Scheme → Nat
  | http => 80
  | https => 443

def asBytes : Scheme → Bytes
  | http => ascii "http"
  | https => ascii "https"

/-- `TryFrom<&[u8]> for Scheme`: every byte is folded with `| 0x20` before it is compared. -/
def tryFrom (bytes : Bytes) : Except UrlError Scheme :=
  let folded := bytes.map (· ||| 0x20)
  if folded = ascii "http" then .ok http
  else if folded = ascii "https" then .ok https
  else .error .invalidScheme

end Scheme

/-! ## Status -/

/-- A status code: three digits, the first of them not zero. -/
structure StatusCode where
  code : Nat
  valid : 100 ≤ code ∧ code ≤ 999
deriving DecidableEq

namespace StatusCode

def fromU16 (code : Nat) : Except ParseError StatusCode :=
  if h : 100 ≤ code ∧ code ≤ 999 then .ok ⟨code, h⟩ else .error .invalidStatusCode

/-- `TryFrom<&[u8]> for StatusCode`: exactly three ASCII digits. -/
def tryFrom (bytes : Bytes) : Except ParseError StatusCode :=
  match bytes with
  | [h, t, u] =>
    let (h, t, u) := ((h - 0x30).toNat, (t - 0x30).toNat, (u - 0x30).toNat)
    if h > 9 ∨ t > 9 ∨ u > 9 then .error .invalidStatusCode else fromU16 (h * 100 + t * 10 + u)
  | _ => .error .invalidStatusCode

def SWITCHING_PROTOCOLS : StatusCode := ⟨101, by decide⟩
def NO_CONTENT : StatusCode := ⟨204, by decide⟩
def MOVED_PERMANENTLY : StatusCode := ⟨301, by decide⟩
def FOUND : StatusCode := ⟨302, by decide⟩
def SEE_OTHER : StatusCode := ⟨303, by decide⟩
def NOT_MODIFIED : StatusCode := ⟨304, by decide⟩
def TEMPORARY_REDIRECT : StatusCode := ⟨307, by decide⟩
def PERMANENT_REDIRECT : StatusCode := ⟨308, by decide⟩

def isInformational (s : StatusCode) : Bool := 100 ≤ s.code && s.code < 200

def isSuccess (s : StatusCode) : Bool := 200 ≤ s.code && s.code < 300

end StatusCode

/-! ## Method -/

inductive Method where
  | get
  | head
  | post
  | put
  | delete
  | connect
  | options
  | trace
  | patch
deriving DecidableEq, Repr

namespace Method

/-- `Token::as_bytes` for `Method`. -/
def asBytes : Method → Bytes
  | get => ascii "GET"
  | head => ascii "HEAD"
  | post => ascii "POST"
  | put => ascii "PUT"
  | delete => ascii "DELETE"
  | connect => ascii "CONNECT"
  | options => ascii "OPTIONS"
  | trace => ascii "TRACE"
  | patch => ascii "PATCH"

/-- Whether resending after an ambiguous transport failure cannot repeat a side effect. -/
def isReplayEligible : Method → Bool
  | get | head | put | delete | options | trace => true
  | post | connect | patch => false

/-- Whether a response to this method, with this status, carries content. -/
def responseCanHaveContent (m : Method) (status : StatusCode) : Bool :=
  match m with
  | head => false
  | connect => !status.isSuccess
  | _ => true

end Method

/-! ## Version -/

inductive Version where
  | http10
  | http11
deriving DecidableEq, Repr

namespace Version

def asBytes : Version → Bytes
  | http10 => ascii "HTTP/1.0"
  | http11 => ascii "HTTP/1.1"

def tryFrom (bytes : Bytes) : Except ParseError Version :=
  if bytes = ascii "HTTP/1.1" then .ok http11
  else if bytes = ascii "HTTP/1.0" then .ok http10
  else .error .invalidVersion

end Version

end Xibalba
