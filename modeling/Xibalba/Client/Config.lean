import Xibalba.Proto.Error

/-!
# `Client.Config` — configuration and deadlines

`Config` of `xibalba-client/src/config.rs`, `Deadline` of `deadline.rs` and `RequestDeadline` of `silence.rs`.
An instant is a number of nanoseconds on the monotonic clock; reading the clock is an operation of the
environment, so the constructors that start "now" take the instant they read.
-/

namespace Xibalba

/-- `DEFAULT_MAX_HEAD_SIZE`, the default of the client's `MAX_HEAD_SIZE` parameter. -/
def DEFAULT_MAX_HEAD_SIZE : Nat := 64 * 1024

/-- Size of each socket read and body-decoding scratch buffer. -/
def HEAD_BUF_SIZE : Nat := 8192

structure Config where
  readTimeout : Option Duration
  writeTimeout : Option Duration
  connectTimeout : Option Duration
  maxResponseBody : Nat
  maxRedirects : Nat
  allowCrossOriginRedirects : Bool
  headSilence : Duration
  streamSilence : Duration
  requestDeadline : Option Duration
deriving DecidableEq, Repr

namespace Config

def seconds (n : Nat) : Duration := n * 1000000000

/-- `Config::default`. -/
def default : Config where
  readTimeout := some (seconds 30)
  writeTimeout := some (seconds 30)
  connectTimeout := some (seconds 30)
  maxResponseBody := 10 * 1024 * 1024
  maxRedirects := 10
  allowCrossOriginRedirects := true
  headSilence := seconds 120
  streamSilence := seconds 300
  requestDeadline := none

def validate (c : Config) : Except Error Unit :=
  match c.readTimeout with
  | none => .error (.connection .infiniteReadTimeout)
  | some readTimeout =>
    if readTimeout = 0 ∨ c.headSilence = 0 ∨ c.streamSilence = 0 ∨ c.writeTimeout = some 0 ∨
        c.connectTimeout = some 0 ∨ c.requestDeadline = some 0 then
      .error (.connection .zeroDuration)
    else if readTimeout > c.headSilence ∨ readTimeout > c.streamSilence then
      .error (.connection .timeoutExceedsBudget)
    else .ok ()

example : default.validate = .ok () := by decide

end Config

/-! ## Deadlines -/

/-- An instant of the monotonic clock, in nanoseconds. -/
abbrev Instant := Nat

/-- The last instant the clock's representation holds: `i64` seconds and a nanosecond part. -/
def MAX_INSTANT : Instant := (2 ^ 63 - 1) * 1000000000 + 999999999

/-- `Instant::checked_add`. -/
def Instant.checkedAdd (t : Instant) (d : Duration) : Option Instant :=
  if t + d ≤ MAX_INSTANT then some (t + d) else none

/-- The instant by which a `Connector::connect` must return. -/
structure Deadline where
  expiresAt : Option Instant
deriving DecidableEq, Repr

namespace Deadline

/-- A deadline `budget` from `now`. -/
def after (now : Instant) (budget : Duration) : Deadline := ⟨now.checkedAdd budget⟩

def never : Deadline := ⟨none⟩

/-- Whichever of two deadlines expires first. -/
def sooner (a b : Deadline) : Deadline :=
  match a.expiresAt, b.expiresAt with
  | some x, some y => ⟨some (min x y)⟩
  | some _, none => a
  | none, some _ => b
  | none, none => never

end Deadline

/-- The total wall-clock bound for one operation. -/
structure RequestDeadline where
  expiresAt : Option Instant
deriving DecidableEq, Repr

namespace RequestDeadline

/-- No total bound. -/
def NONE : RequestDeadline := ⟨none⟩

/-- The error a passing total produces, in the `io::Error` shape the read loop works in. -/
def error : StdIoError := ⟨.timedOut, .requestDeadlineExceeded⟩

/-- Whether the total has passed at `now`. -/
def expiredAt (d : RequestDeadline) (now : Instant) : Bool := d.expiresAt.any (· ≤ now)

/-- Re-type a deadline expiry at the `io::Error` boundary; any other error passes through. -/
def classify (e : StdIoError) : Error :=
  if e.payload = .requestDeadlineExceeded then .connection .requestDeadlineExceeded else .ofStdIo e

end RequestDeadline

end Xibalba
