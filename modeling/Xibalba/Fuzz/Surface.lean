import Xibalba.Proto.Chunked
import Xibalba.Fuzz.Borrow

/-!
# `Fuzz.Surface` — what the fuzz targets check

The invariants of `xibalba-fuzz`, which the fuzz targets and a test of the protocol layer run on every input they come
up with: `ChunkedInvariants` (`chunked.rs`), `HeadInvariants` (`head.rs`), `UrlInvariants` (`url.rs`) and `Surface`
(`lib.rs`). An assertion that fails makes a check `false`.
-/

namespace Xibalba.Fuzz

/-- `is_borrowed_from_input`: the slice starts in the input, and ends no later than the input. -/
def isBorrowedFromInput (data : Bytes) (slice : Part) : Bool :=
  slice.bytes.isEmpty || slice.start.any fun start => start + slice.bytes.length ≤ data.length

/-- `has_line_ending`. -/
def hasLineEnding (slice : Bytes) : Bool := slice.any fun b => b == 0x0d || b == 0x0a

/-! ## Chunked bodies -/

namespace ChunkedInvariants

def OUTPUT : Nat := 256

/-- The number of `decode` calls after which a run counts as stalled. -/
def MAX_STEPS : Nat := 100000

inductive Outcome where
  | complete
  | errored
  | exhausted
  | stalled
deriving DecidableEq, Repr

/-- What a decode run produced: the body bytes, and how it ended. -/
structure Decoded where
  body : Bytes
  outcome : Outcome
deriving DecidableEq, Repr

/-- The `i`th size of the pattern, which is cycled through. -/
def sliceSize (pattern : List Nat) (i : Nat) : Nat := max (pattern[i % pattern.length]?.getD 1) 1

/-- The `i`th slice, when `fed` bytes have been taken. -/
def slice (data : Bytes) (pattern : List Nat) (i fed : Nat) : Bytes := (data.drop fed).take (sliceSize pattern i)

/-- The loops of `run`, from a call of `decode` on; `window` is what is left of the current slice and `i` the number of
    the next one. `none` is a failed assertion. -/
def runFrom (data : Bytes) (pattern : List Nat) (outputLen : Nat) :
    Nat → ChunkedDecoder → Bytes → Nat → Nat → Bytes → Option Decoded
  | 0, _, body, _, _, _ => some ⟨body, .stalled⟩
  | steps + 1, decoder, body, fed, i, window =>
    let d := decoder.decode window outputLen
    -- both go on with what is left of the slice, or with the next one
    let goOn (body : Bytes) : Option Decoded :=
      let fed := fed + d.consumed
      let window := window.drop d.consumed
      if window.isEmpty then
        if fed < data.length then
          runFrom data pattern outputLen steps d.decoder body fed (i + 1) (slice data pattern i fed)
        else some ⟨body, if d.decoder.isDone then .complete else .exhausted⟩
      else if d.consumed = 0 ∧ d.result = .needMore then some ⟨body, .stalled⟩
      else runFrom data pattern outputLen steps d.decoder body fed i window
    if window.length < d.consumed then none
    else
      match d.result with
      | .data n => if outputLen < n then none else goOn (body ++ d.written.take n)
      | .needMore => goOn body
      | .done => if d.decoder.isDone then some ⟨body, .complete⟩ else none
      | .error _ => some ⟨body, .errored⟩
      | .panicked => none

/-- Feed the input in slices sized by `pattern`, and collect everything the decoder emits. -/
def run (data : Bytes) (pattern : List Nat) (outputLen : Nat) : Option Decoded :=
  if data.isEmpty then some ⟨[], .exhausted⟩
  else runFrom data pattern outputLen MAX_STEPS .new [] 0 1 (slice data pattern 0 0)

def decodeInSlices (data : Bytes) (pattern : List Nat) : Option Decoded := run data pattern OUTPUT

def decodeWithOutput (data : Bytes) (slice output : Nat) : Option Decoded := run data [slice] output

def aRunTerminates (whole : Decoded) : Bool := whole.outcome ≠ .stalled

def splitFeedsAgreeWithOneFeed (data : Bytes) (whole : Decoded) : Bool :=
  ([1, 2, 3, 7, 13].all fun chunk => decodeInSlices data [chunk] = some whole) &&
    decodeInSlices data [1, 5, 2, 11, 3] = some whole

def aTinyOutputBufferLosesNothing (data : Bytes) (whole : Decoded) : Bool :=
  (decodeWithOutput data (max data.length 1) 1).map Decoded.body = some whole.body

def checkAll (data : Bytes) : Bool :=
  match decodeInSlices data [max data.length 1] with
  | none => false
  | some whole =>
    aRunTerminates whole && splitFeedsAgreeWithOneFeed data whole && aTinyOutputBufferLosesNothing data whole

end ChunkedInvariants

/-! ## Response heads -/

namespace HeadInvariants

def SLOTS : Nat := 16

def MAX_PREFIX_SWEEP : Nat := 512

def consumedIsWithinTheBuffer (data : Bytes) (consumed : Nat) : Bool := consumed ≤ data.length

def countMatchesTheBufferItDescribes (head : HeadParts) : Bool := head.headers.length ≤ SLOTS

def parsedBytesAreBorrowedNotSynthesised (data : Bytes) (head : HeadParts) : Bool :=
  head.parts.all (isBorrowedFromInput data)

def noFieldSmugglesALineEnding (head : HeadParts) : Bool := head.parts.all fun part => !hasLineEnding part.bytes

/-- The prefixes are those of `1..sweep` bytes. -/
def everyShorterPrefixAsksForMore (data : Bytes) (consumed : Nat) : Bool :=
  ((List.range (min consumed MAX_PREFIX_SWEEP)).drop 1).all fun stop =>
    HeadParts.parse (data.take stop) SLOTS = .error .incomplete

/-- An error of `ResponseHead::parse` is always `Error::Parse`. -/
def checkAll (data : Bytes) : Bool :=
  match HeadParts.parse data SLOTS with
  | .ok (head, consumed) =>
    consumedIsWithinTheBuffer data consumed && countMatchesTheBufferItDescribes head &&
      parsedBytesAreBorrowedNotSynthesised data head && noFieldSmugglesALineEnding head &&
      everyShorterPrefixAsksForMore data consumed
  | .error _ => true

end HeadInvariants

/-! ## URLs -/

namespace UrlInvariants

def everyPartIsBorrowed (data : Bytes) (url : UrlParts) : Bool :=
  [url.host, url.path, url.query.getD (.literal []), url.fragment.getD (.literal [])].all (isBorrowedFromInput data)

def aHostIsNeverEmpty (url : Url) : Bool := !url.host.isEmpty

def connectionHostStaysWithinTheHost (data : Bytes) (url : UrlParts) : Bool :=
  url.connectionHost.bytes.length ≤ url.host.bytes.length && isBorrowedFromInput data url.connectionHost &&
    url.connectionHost.bytes.head? ≠ some 0x5b && url.connectionHost.bytes.getLast? ≠ some 0x5d

def aRequestPathIsAbsolute (url : Url) : Bool := url.requestPath.head? = some 0x2f

def noPartSmugglesALineEnding (url : Url) : Bool := !hasLineEnding url.host

/-- `query_params().take(limit).count()`. -/
def countParams : Nat → QueryParams → Nat
  | 0, _ => 0
  | limit + 1, q =>
    match q.next with
    | (none, _) => 0
    | (some _, q) => countParams limit q + 1

def queryParamsTerminate (url : Url) : Bool :=
  let budget := (url.query.getD []).length + 1
  countParams (budget + 1) url.queryParams ≤ budget

/-- An error of `Url::parse` is always a URL verdict. -/
def checkAll (data : Bytes) : Bool :=
  match UrlParts.parse data with
  | .ok url =>
    everyPartIsBorrowed data url && aHostIsNeverEmpty url.url && connectionHostStaysWithinTheHost data url &&
      aRequestPathIsAbsolute url.url && noPartSmugglesALineEnding url.url && queryParamsTerminate url.url
  | .error _ => true

end UrlInvariants

/-! ## Surfaces -/

/-- The three parser surfaces reachable from untrusted bytes. -/
inductive Surface where
  | responseHead
  | chunkedBody
  | url
deriving DecidableEq, Repr

/-- Run every invariant this surface has against `data`. That parsing twice gives the same result is no question for a
    function. -/
def Surface.check (data : Bytes) : Surface → Bool
  | .responseHead => HeadInvariants.checkAll data
  | .chunkedBody => ChunkedInvariants.checkAll data
  | .url => UrlInvariants.checkAll data

end Xibalba.Fuzz
