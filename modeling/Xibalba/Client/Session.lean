import Xibalba.Client.Reader

/-!
# `Client.Session` — the life of a client

What the owner of a client does with it: connect, and then any number of calls. Each call ends, in success or
failure, before the next begins, because it borrows the client. A streaming response is read with buffers of
any sizes until the owner drops it, at the latest at its first error; an `AsyncClient` hands the client to the
reader thread.
-/

namespace Xibalba

variable {ε : Type}

/-- Read a streaming body into buffers of these sizes, up to the first error. -/
def StreamingBody.readAll (fuel : Nat) : List Nat → StreamingBody → M ε StreamingBody
  | [], b => pure b
  | size :: sizes, b => do
    match ← b.read .raw fuel size with
    | (.ok _, b) => readAll fuel sizes b
    | (.error _, b) => return b

/-- A call of a client. -/
inductive Call where
  | send (builder : RequestBuilder)
  | request (method : Method) (path : Bytes) (query body : Option Bytes)
  /-- `send_streaming`, and reads into buffers of these sizes before the response is dropped -/
  | sendStreaming (builder : RequestBuilder) (reads : List Nat)
  /-- the thread of an `AsyncClient` -/
  | reader

namespace Call

/-- Use a streaming response and drop it. -/
def streaming (fuel : Nat) (builder : RequestBuilder) (reads : List Nat) : M Error Unit := do
  let (_, body) ← Client.sendStreaming fuel builder
  let body ← body.readAll fuel reads
  M.modifyClient fun c => { c with dirty := body.dirty }

/-- Make a call; what it returns is the owner's business. -/
def perform (fuel : Nat) (call : Call) : M ε Unit := do
  M.mark .call
  match call with
  | .send builder => let _ ← Act.attempt (Client.send fuel builder)
  | .request method path query body => let _ ← Act.attempt (Client.request fuel method path query body)
  | .sendStreaming builder reads => let _ ← Act.attempt (streaming fuel builder reads)
  | .reader => ReaderWorker.run fuel fuel

end Call

/-- Make calls one after the other. -/
def performAll (fuel : Nat) : List Call → M ε Unit
  | [] => pure ()
  | call :: calls => do
    call.perform fuel
    performAll fuel calls

/-- Connect, and make calls. -/
def session (fuel : Nat) (url : Bytes) (config : Config) (maxHeadSize : Nat) (calls : List Call) :
    M Error Unit := do
  Client.connect url config maxHeadSize
  performAll fuel calls

/-! ## Concrete runs -/

/-- A thread with a client that is connected to `http://a`. -/
def idle : Local := ⟨.fresh .default 65536 ⟨.http, ascii "a", none, ascii "/", none, none⟩, [], false⟩

/-- An environment in which the reads of the streams answer these results in turn, and then the end of the
    stream; the clock stands still, nothing is asked of the reader thread, and everything else succeeds. -/
def scripted (reads : List (Except StdIoError Bytes)) :
    (op : Op) → op.Ret × List (Except StdIoError Bytes)
  | .read len =>
    match reads with
    | [] => (.ok ⟨[], Nat.zero_le _⟩, [])
    | .ok bs :: reads => (.ok ⟨bs.take len, List.length_take_le _ _⟩, reads)
    | .error e :: reads => (.error e, reads)
  | .write buf => (.ok ⟨buf.length, Op.all_accepted buf⟩, reads)
  | .now => ((0 : Nat), reads)
  | .connect _ _ | .setReadTimeout _ | .setWriteTimeout _ | .flush => (.ok (), reads)
  | .isCancelled | .loadShuttingDown | .loadCancelAny | .loadCancelled _ => (false, reads)
  | .loadConsumerAlive _ | .push _ _ => (true, reads)
  | .pop | .popBlock => (none, reads)
  | .storeCancelAny _ | .storeStarted _ | .dropRequest _ | .mark _ => ((), reads)

end Xibalba
