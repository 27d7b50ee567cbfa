import Xibalba.Proto.Bytes

/-!
# `Proto.Error` — the error types of the protocol layer

The enums of `xibalba-proto/src/error.rs`, constructor for constructor, and the `std::io::Error` values
they are converted from. Display texts of the enums are left out: nothing of the model reads them.
-/

namespace Xibalba

/-- A span of time in nanoseconds, the source's `Duration`. -/
abbrev Duration := Nat

/-- `std::io::ErrorKind`: the kinds the client tells apart, and `unlisted` for every other one. -/
inductive ErrorKind where
  | wouldBlock
  | timedOut
  | interrupted
  | unexpectedEof
  | connectionReset
  | connectionAborted
  | brokenPipe
  | writeZero
  | invalidData
  | invalidInput
  | other
  | unlisted (code : Nat)
deriving DecidableEq, Repr

inductive ParseError where
  | incomplete
  | invalidVersion
  | invalidStatusCode
  | invalidMethod
  | missingColon
  | invalidHeaderName
  | invalidHeaderValue
  | tooManyHeaders
  | invalidContentLength
  | invalidReasonPhrase
  | invalidTransferEncoding
  | unsupportedTransferCoding
  | invalidChunkSize
  | invalidChunkTerminator
  | invalidChunkMetadata
deriving DecidableEq, Repr

inductive SerializeError where
  | bufferTooSmall
  | invalidPath
  | invalidHeader
  | duplicateHeader
deriving DecidableEq, Repr

inductive UrlError where
  | empty
  | invalidScheme
  | missingHost
  | invalidPort
  | invalidByte (pos : Nat)
deriving DecidableEq, Repr

inductive ConnectionError where
  | connectionClosed
  | contentLengthOverflow
  | invalidUtf8Body
  | headerRangeOverflow
  | headerNotInBuffer
  | bodyTooLarge
  | headTooLarge
  | tooManyRedirects
  | tooManyInterimResponses
  | infiniteReadTimeout
  | zeroDuration
  | timeoutExceedsBudget
  | requestDeadlineExceeded
  | plaintextConnectorForHttps
  | connectDeadlineExceeded
  | readerGone
  | insecureRedirect
  | unsupportedRedirectScheme
  | crossOriginRedirectRefused
  | tooManyRequests
  | tunnelingNotSupported
  | other (message : String)
deriving DecidableEq, Repr

/-- What a `std::io::Error` carries besides its kind. The two markers are the private payload types
    `Cancelled` and `RequestDeadlineExceeded`, which the client recognises by type; the rest are texts,
    kept as the values they are formatted from. -/
inductive Payload where
  | cancelled
  | requestDeadlineExceeded
  /-- `"peer sent no data for … (silence budget exhausted)"` -/
  | silenceExhausted (limit : Duration)
  /-- `"peer accepted no data for … (write budget exhausted)"` -/
  | writeExhausted (limit : Duration)
  | parse (e : ParseError)
  | serialize (e : SerializeError)
  | text (message : String)
deriving DecidableEq, Repr

/-- `std::io::Error`. -/
structure StdIoError where
  kind : ErrorKind
  payload : Payload
deriving DecidableEq, Repr

/-- `xibalba_proto::error::IoError`: the kind and the rendered message. The payload's type is gone
    here, which is why the client never asks a converted error what it marked. -/
structure IoError where
  kind : ErrorKind
  message : Payload
deriving DecidableEq, Repr

inductive Error where
  | urlParse (e : UrlError)
  | parse (e : ParseError)
  | serialize (e : SerializeError)
  | io (e : IoError)
  | tls (message : String)
  | connection (e : ConnectionError)
deriving DecidableEq, Repr

/-- `From<std::io::Error> for Error`. -/
def Error.ofStdIo (e : StdIoError) : Error := .io ⟨e.kind, e.payload⟩

end Xibalba
