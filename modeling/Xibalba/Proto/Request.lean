import Xibalba.Proto.Message

/-!
# `Proto.Request` — serializing a request head

`Request` of `xibalba-proto/src/request.rs`: validation, `serialize_to_writer` into a growing buffer, and
`serialize_to_buf` into one of a fixed size, which a caller finds with `serialized_len`.
-/

namespace Xibalba

structure Request where
  method : Method
  path : Bytes
  query : Option Bytes
  version : Version
  headers : List Header
deriving DecidableEq

namespace Request

def isTargetByte (b : UInt8) : Bool := b > 0x20 && b != 0x7f

/-- A header that can be put on the wire: a token as its name, no control byte but HTAB in its value. -/
def isHeaderValid (h : Header) : Bool :=
  !h.name.asBytes.isEmpty && h.name.asBytes.all Tchar.isValid &&
    !h.value.any fun b => b != 0x09 && (b < 0x20 || b == 0x7f)

/-- Reject targets and headers that could corrupt the request line or smuggle a second request. -/
def validate (r : Request) : Except SerializeError Unit :=
  if r.path.isEmpty || r.path.any (!isTargetByte ·) then .error .invalidPath
  else if r.query.any fun q => q.any (!isTargetByte ·) then .error .invalidPath
  else if r.headers.all isHeaderValid then .ok ()
  else .error .invalidHeader

/-- One serialized header line. -/
def headerLine (h : Header) : Bytes := h.name.asBytes ++ ascii ": " ++ h.value ++ ascii "\r\n"

/-- The bytes `serialize_to_writer` writes for a valid request. -/
def wire (r : Request) : Bytes :=
  r.method.asBytes ++ ascii " " ++ r.path ++
    (match r.query with
      | some q => ascii "?" ++ q
      | none => []) ++
    ascii " " ++ r.version.asBytes ++ ascii "\r\n" ++ r.headers.flatMap headerLine ++ ascii "\r\n"

/-- `serialize_to_writer` on an empty `Vec`: a rejected request becomes an `InvalidInput` carrying the
    rejection's text, and writes nothing. -/
def serializeToWriter (r : Request) : Except StdIoError Bytes :=
  match r.validate with
  | .ok () => .ok r.wire
  | .error e => .error ⟨.invalidInput, .serialize e⟩

/-- `serialize_to_writer` on a `Vec`, whose `write_all` appends and never fails: the vector afterwards, and the
    result. -/
def serializeToVec (r : Request) (w : Bytes) : Bytes × Except StdIoError Unit :=
  match r.validate with
  | .error e => (w, .error ⟨.invalidInput, .serialize e⟩)
  | .ok () =>
    let w := w ++ r.method.asBytes
    let w := w ++ ascii " "
    let w := w ++ r.path
    let w := match r.query with
      | some query => w ++ ascii "?" ++ query
      | none => w
    let w := w ++ ascii " "
    let w := w ++ r.version.asBytes
    let w := w ++ ascii "\r\n"
    let w := r.headers.foldl (fun w h => w ++ h.name.asBytes ++ ascii ": " ++ h.value ++ ascii "\r\n") w
    (w ++ ascii "\r\n", .ok ())

/-- Exact byte count the serialized request head will occupy. -/
def serializedLen (r : Request) : Nat :=
  let len := r.method.asBytes.length
  let len := len + 1
  let len := len + r.path.length
  let len := match r.query with
    | some query => len + 1 + query.length
    | none => len
  let len := len + 1
  let len := len + r.version.asBytes.length
  let len := len + 2
  let len := r.headers.foldl (fun len h => len + h.name.asBytes.length + 2 + h.value.length + 2) len
  len + 2

end Request

/-- Cursor over a serialization buffer. -/
structure BufWriter where
  buf : Bytes
  pos : Nat
deriving DecidableEq, Repr

/-- What a `BufWriter` method does to the writer it borrows, and what it returns. -/
abbrev BufWrite := ExceptT SerializeError (StateM BufWriter)

namespace BufWriter

/-- Append `data` at the current position. -/
def writeBytes (data : Bytes) : BufWrite Unit := do
  let w ← get
  let stop := w.pos + data.length
  if stop > w.buf.length then throw .bufferTooSmall
  set { w with buf := w.buf.take w.pos ++ data ++ w.buf.drop stop, pos := stop : BufWriter }

/-- Append a single byte at the current position. -/
def writeByte (byte : UInt8) : BufWrite Unit := do
  let w ← get
  if w.pos ≥ w.buf.length then throw .bufferTooSmall
  set { w with buf := w.buf.set w.pos byte, pos := w.pos + 1 : BufWriter }

end BufWriter

namespace Request

open BufWriter

/-- One header of the loop of `serialize_to_buf`. -/
def writeHeader (h : Header) : BufWrite Unit := do
  writeBytes h.name.asBytes
  writeBytes (ascii ": ")
  writeBytes h.value
  writeBytes (ascii "\r\n")

def writeQuery : Option Bytes → BufWrite Unit
  | some query => do
    writeByte 0x3f
    writeBytes query
  | none => pure ()

/-- The writes of `serialize_to_buf`. -/
def writeHead (r : Request) : BufWrite Unit := do
  writeBytes r.method.asBytes
  writeByte 0x20
  writeBytes r.path
  writeQuery r.query
  writeByte 0x20
  writeBytes r.version.asBytes
  writeBytes (ascii "\r\n")
  r.headers.forM writeHeader
  writeBytes (ascii "\r\n")

/-- `serialize_to_buf`: the buffer afterwards, and the number of bytes written. -/
def serializeToBuf (r : Request) (buf : Bytes) : Bytes × Except SerializeError Nat :=
  match r.validate with
  | .error e => (buf, .error e)
  | .ok () =>
    let (result, w) := (r.writeHead).run.run ⟨buf, 0⟩
    (w.buf, result.map fun _ => w.pos)

end Request

end Xibalba
