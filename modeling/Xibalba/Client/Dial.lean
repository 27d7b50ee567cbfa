import Xibalba.Lib.Prog
import Xibalba.Client.Config
import Xibalba.Proto.Url

/-!
# `Client.Dial` — the TCP half of a connection

`TcpDialer` of `xibalba-client/src/dial.rs`, the questions it asks a `Deadline` (`deadline.rs`), and the `Connector` of
`plain.rs`. Addresses are those of the resolver and are not looked into; a `TcpStream` is known by the address it is
connected to.
-/

namespace Xibalba

/-! ## Operations -/

namespace Dial

/-- What dialling asks of the clock, the resolver and the sockets. -/
inductive Op (Addr : Type) where
  /-- `Instant::now` -/
  | now
  /-- `ToSocketAddrs::to_socket_addrs` -/
  | resolve (host : String) (port : Nat)
  /-- `TcpStream::connect_timeout` -/
  | connectTimeout (address : Addr) (allowed : Duration)
  /-- `TcpStream::set_nodelay` -/
  | setNodelay (on : Bool)
deriving DecidableEq

/-- What each operation answers; a lookup that fails, the text of its error. -/
def Op.Ret {Addr : Type} : Op Addr → Type
  | .now => Instant
  | .resolve _ _ => Except String (List Addr)
  | .connectTimeout _ _ | .setNodelay _ => Except StdIoError Unit

end Dial

/-- The signature of the dialler's programs. -/
abbrev Net (Addr : Type) : Sig := ⟨Dial.Op Addr, Dial.Op.Ret⟩

/-- Programs of the dialler that fail with an `ε`. -/
abbrev DialM (Addr ε α : Type) := Act (Net Addr) Unit ε α

/-- `TcpStream`. -/
structure TcpStream (Addr : Type) where
  peer : Addr
deriving DecidableEq

/-! ## The deadline -/

/-- What is left of a `Deadline` when it is asked. -/
inductive TimeLeft where
  | unbounded
  | remaining (left : Duration)
  | expired
deriving DecidableEq, Repr

namespace Deadline

variable {Addr ε : Type}

/-- What `time_left` makes of the instant it reads; `checked_duration_since` has no answer once the deadline has
    passed, and a zero answer is none either. -/
def leftAt (expiresAt now : Instant) : TimeLeft :=
  if now < expiresAt then .remaining (expiresAt - now) else .expired

/-- Without an instant the clock is not read. -/
def timeLeft (d : Deadline) : DialM Addr ε TimeLeft := do
  match d.expiresAt with
  | none => return .unbounded
  | some expiresAt => return leftAt expiresAt (← Act.call (S := Net Addr) .now)

def isExpired (d : Deadline) : DialM Addr ε Bool := do return (← d.timeLeft) = .expired

def check (d : Deadline) : DialM Addr Error Unit := do
  if ← d.isExpired then Act.throw (.connection .connectDeadlineExceeded)

/-- The timeout for one attempt that carries its own: `step`, or the time left when that is shorter. -/
def clamp (d : Deadline) (step : Duration) : DialM Addr Error Duration := do
  match ← d.timeLeft with
  | .unbounded => return step
  | .remaining left => return min step left
  | .expired => Act.throw (.connection .connectDeadlineExceeded)

end Deadline

/-! ## Dialling -/

structure TcpDialer where
  connectTimeout : Duration
deriving DecidableEq, Repr

namespace TcpDialer

variable {Addr : Type}

/-- `DEFAULT_CONNECT_TIMEOUT`. -/
def DEFAULT_CONNECT_TIMEOUT : Duration := Config.seconds 10

/-- `TcpDialer::default`. -/
def default : TcpDialer := ⟨DEFAULT_CONNECT_TIMEOUT⟩

/-- What becomes of a list of addresses none of which accepted. -/
def exhausted (last : Option StdIoError) : DialM Addr Error (TcpStream Addr) :=
  match last with
  | none => Act.throw (.connection (.other "host resolved to no addresses"))
  | some e => Act.throw (.ofStdIo e)

/-- The loop of `dial_addresses`; `last` is the failure of the last attempt. -/
def dialFrom (dialer : TcpDialer) (deadline : Deadline) :
    List Addr → Option StdIoError → DialM Addr Error (TcpStream Addr)
  | [], last => exhausted last
  | address :: addresses, _ => do
    let allowed ← deadline.clamp dialer.connectTimeout
    match ← Act.call (S := Net Addr) (.connectTimeout address allowed) with
    | .ok () =>
      Act.mapError Error.ofStdIo (do Act.ofExcept (← Act.call (S := Net Addr) (.setNodelay true)))
      return ⟨address⟩
    | .error e => dialFrom dialer deadline addresses (some e)

/-- Try each address in turn until one accepts, within `deadline`. -/
def dialAddresses (dialer : TcpDialer) (addresses : List Addr) (deadline : Deadline) :
    DialM Addr Error (TcpStream Addr) :=
  dialer.dialFrom deadline addresses none

/-- The host as the resolver takes it: `str::from_utf8`. -/
def hostText (url : Url) : Option String := String.fromUTF8? ⟨url.connectionHost.toArray⟩

/-- Resolve `url` and connect to the first address that accepts. -/
def dial (dialer : TcpDialer) (url : Url) (deadline : Deadline) : DialM Addr Error (TcpStream Addr) := do
  match hostText url with
  | none => Act.throw (.connection (.other "invalid UTF-8 in host"))
  | some host =>
    deadline.check
    match ← Act.call (S := Net Addr) (.resolve host url.effectivePort) with
    | .error e => Act.throw (.connection (.other ("DNS failed: " ++ e)))
    | .ok addresses =>
      deadline.check
      dialer.dialAddresses addresses deadline

/-- Reject HTTPS before connecting. -/
def dialPlaintext (dialer : TcpDialer) (url : Url) (deadline : Deadline) : DialM Addr Error (TcpStream Addr) :=
  if url.scheme = .https then Act.throw (.connection .plaintextConnectorForHttps) else dialer.dial url deadline

end TcpDialer

/-- `PlainConnector::connect`. -/
def PlainConnector.connect {Addr : Type} (url : Url) (deadline : Deadline) : DialM Addr Error (TcpStream Addr) :=
  TcpDialer.default.dialPlaintext url deadline

end Xibalba
