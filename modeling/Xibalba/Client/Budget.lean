import Xibalba.Client.Sys

/-!
# `Client.Budget` — reads and writes under a budget and an interrupt

`Interrupt`, `Latch` and `InterruptibleStream` of `xibalba-client/src/interrupt.rs`, `Tick` of `tick.rs`,
`SilenceBudget` of `silence.rs` and `WriteBudget` of `write_budget.rs`.

The retry loops run until the stream answers with something else than a timeout tick or a budget is spent,
so each takes a number of turns and ends in `hang` when they are used up. The pause between two ticks
(`Tick::pace`) and the clock reading it needs have no other effect and are left out.
-/

namespace Xibalba

/-! ## Interrupts -/

/-- Asked before each blocking step of a request whether to give up. -/
def Interrupt : Type := M Empty Bool

namespace Interrupt

variable {ε : Type}

def isCancelled (i : Interrupt) : M ε Bool := Act.infallible i

/-- `NeverCancelled`. -/
def never : Interrupt := (pure false : M Empty Bool)

/-- An interrupt supplied from outside, which may answer anything at any time. -/
def outside : Interrupt := (Act.call (S := Sys) .isCancelled : M Empty Bool)

/-- `Latch`: remembers whether the interrupt it wraps ever fired. -/
def latch (inner : Interrupt) : Interrupt := show M Empty Bool from do
  let now ← (inner : M Empty Bool)
  let fired := (← Act.get).fired || now
  Act.modify fun l => { l with fired := fired }
  return fired

end Interrupt

/-- The error a cancelled operation returns. -/
def Cancelled.error : StdIoError := ⟨.other, .cancelled⟩

/-- Whether `e` is a cancellation rather than a transport failure. -/
def Cancelled.marks (e : StdIoError) : Bool := e.payload = .cancelled

/-! ## Streams -/

/-- What the budgets need of a stream: `Read` and `Write`. -/
structure Stream where
  read : (len : Nat) → M StdIoError { bs : Bytes // bs.length ≤ len }
  write : (buf : Bytes) → M StdIoError { n : Nat // n ≤ buf.length }
  flush : M StdIoError Unit

namespace Stream

/-- The client's own stream. -/
def raw : Stream where
  read len := do Act.ofExcept (← Act.call (S := Sys) (.read len))
  write buf := do Act.ofExcept (← Act.call (S := Sys) (.write buf))
  flush := do Act.ofExcept (← Act.call (S := Sys) .flush)

/-- `InterruptibleStream`: every read, write and flush consults the interrupt first. -/
def interruptible (i : Interrupt) : Stream where
  read len := do
    if ← i.isCancelled then Act.throw Cancelled.error
    raw.read len
  write buf := do
    if ← i.isCancelled then Act.throw Cancelled.error
    raw.write buf
  flush := do
    if ← i.isCancelled then Act.throw Cancelled.error
    raw.flush

end Stream

/-- Whether an error is a timeout tick rather than a failure. -/
def Tick.marks (e : StdIoError) : Bool := e.kind = .wouldBlock || e.kind = .timedOut

/-! ## The total deadline -/

namespace RequestDeadline

variable {ε : Type}

/-- A deadline `budget` from now, or none when no budget was configured. -/
def after (budget : Option Duration) : M ε RequestDeadline := do
  match budget with
  | none => return NONE
  | some b => return ⟨(← M.now).checkedAdd b⟩

/-- Whether the total has passed. Without a total the clock is not read. -/
def expired (d : RequestDeadline) : M ε Bool := do
  match d.expiresAt with
  | none => return false
  | some _ => return d.expiredAt (← M.now)

def checkIo (d : RequestDeadline) : M StdIoError Unit := do
  if ← d.expired then Act.throw error

def check (d : RequestDeadline) : M Error Unit := do
  if ← d.expired then Act.throw (.connection .requestDeadlineExceeded)

/-- The deadline a reconnect's `Connector::connect` should receive: the sooner of the remaining total and
    `fallback`. -/
def connectDeadline (d : RequestDeadline) (fallback : Deadline) : M ε Deadline := do
  match d.expiresAt with
  | none => return fallback
  | some expiresAt =>
    let left := expiresAt - (← M.now)
    return .sooner (.after (← M.now) left) fallback

end RequestDeadline

/-- The deadline for one connect attempt, starting now. -/
def Config.connectDeadline {ε : Type} (c : Config) : M ε Deadline := do
  match c.connectTimeout with
  | none => return .never
  | some budget => return .after (← M.now) budget

/-! ## Silence budgets -/

/-- Wall-clock tolerance for peer silence across read-timeout ticks. -/
structure SilenceBudget where
  limit : Duration
  lastProgress : Instant
  deadline : RequestDeadline
deriving DecidableEq, Repr

namespace SilenceBudget

variable {ε : Type}

def withDeadline (limit : Duration) (deadline : RequestDeadline) : M ε SilenceBudget := do
  return ⟨limit, ← M.now, deadline⟩

def new (limit : Duration) : M ε SilenceBudget := withDeadline limit .NONE

/-- The error surfaced when the budget is exhausted. -/
def expired (b : SilenceBudget) : StdIoError := ⟨.timedOut, .silenceExhausted b.limit⟩

/-- Read from `stream` into `len` bytes, absorbing timeout ticks until data arrives or the budget is
    exhausted. -/
def read (stream : Stream) (len : Nat) :
    Nat → SilenceBudget → M StdIoError ({ bs : Bytes // bs.length ≤ len } × SilenceBudget)
  | 0, _ => Act.hang
  | fuel + 1, b => do
    if ← b.deadline.expired then Act.throw RequestDeadline.error
    match ← Act.attempt (stream.read len) with
    | .ok bs => return (bs, { b with lastProgress := ← M.now })
    | .error e =>
      if Tick.marks e then
        if (← M.now) - b.lastProgress ≥ b.limit then Act.throw b.expired
        read stream len fuel b
      else Act.throw e

/-- `read_proto`: a deadline expiry is re-typed as the protocol error. -/
def readProto (stream : Stream) (len fuel : Nat) (b : SilenceBudget) :
    M Error ({ bs : Bytes // bs.length ≤ len } × SilenceBudget) :=
  Act.mapError RequestDeadline.classify (read stream len fuel b)

/-- `read_exact`: the `need` bytes that fill the buffer, in front of which `got` have been read. -/
def readExact (stream : Stream) (fuel : Nat) : Nat → SilenceBudget → Nat → Bytes → M StdIoError Bytes
  | 0, _, _, _ => Act.hang
  | turns + 1, b, need, got => do
    if need = 0 then return got
    let (bs, b) ← read stream need fuel b
    if bs.val.isEmpty then Act.throw ⟨.unexpectedEof, .text "connection closed mid-body"⟩
    readExact stream fuel turns b (need - bs.val.length) (got ++ bs.val)

def readExactProto (stream : Stream) (fuel : Nat) (b : SilenceBudget) (need : Nat) : M Error Bytes :=
  Act.mapError RequestDeadline.classify (readExact stream fuel fuel b need [])

end SilenceBudget

/-- Wall-clock tolerance for a write making no progress. -/
structure WriteBudget where
  limit : Duration
  lastProgress : Instant
  deadline : RequestDeadline
deriving DecidableEq, Repr

namespace WriteBudget

variable {ε : Type}

def withDeadline (limit : Duration) (deadline : RequestDeadline) : M ε WriteBudget := do
  return ⟨limit, ← M.now, deadline⟩

def expired (b : WriteBudget) : StdIoError := ⟨.timedOut, .writeExhausted b.limit⟩

/-- Write all of `buf`, absorbing timeout ticks; `buf` is what is left to write. -/
def writeAllRaw (stream : Stream) : Nat → WriteBudget → Bytes → M StdIoError WriteBudget
  | 0, _, _ => Act.hang
  | fuel + 1, b, buf => do
    if buf.isEmpty then return b
    b.deadline.checkIo
    match ← Act.attempt (stream.write buf) with
    | .ok n =>
      if n.val = 0 then Act.throw ⟨.writeZero, .text "peer accepted no bytes"⟩
      writeAllRaw stream fuel { b with lastProgress := ← M.now } (buf.drop n.val)
    | .error e =>
      if Tick.marks e then
        if (← M.now) - b.lastProgress ≥ b.limit then Act.throw b.expired
        writeAllRaw stream fuel b buf
      else Act.throw e

def writeAllProto (stream : Stream) (fuel : Nat) (b : WriteBudget) (buf : Bytes) : M Error WriteBudget :=
  Act.mapError RequestDeadline.classify (writeAllRaw stream fuel b buf)

/-- Flush, absorbing ticks on the same budget. -/
def flush (stream : Stream) : Nat → WriteBudget → M StdIoError Unit
  | 0, _ => Act.hang
  | fuel + 1, b => do
    b.deadline.checkIo
    match ← Act.attempt stream.flush with
    | .ok () => return ()
    | .error e =>
      if Tick.marks e then
        if (← M.now) - b.lastProgress ≥ b.limit then Act.throw b.expired
        flush stream fuel b
      else Act.throw e

def flushProto (stream : Stream) (fuel : Nat) (b : WriteBudget) : M Error Unit :=
  Act.mapError RequestDeadline.classify (flush stream fuel b)

end WriteBudget

end Xibalba
