import Xibalba.Proto.Correctness.ChunkedGrammar

/-!
# `Proto.Correctness.ChunkedExact` — the decoder accepts exactly the chunked grammar

For each state of the decoder `Residual` says what the grammar still allows there. A byte changes the
residual exactly as the decoder changes its state (`residual_cons_meta`), so by induction over the input the
decoder ends in `Done` on exactly the words of its residual (`accepts_iff`), and a fresh decoder on exactly
the words of the grammar (`chunked_grammar_exact`).

Layout:
* inversion: one lemma per state says which bytes are taken and what they make of the decoder (`takes_…`);
* the counters' invariant `Counters`, kept by every byte taken;
* `Residual`, its derivative, and the induction;
* the theorem about a decoder driven in any way.
-/

namespace Xibalba
namespace ChunkedGrammar

open ChunkedDecoder

/-! ## What the decoder does with one byte -/

/-- A reader's verdict on a byte was to go on, with decoder `d'`. -/
def Accepted (res : ChunkedDecoder × ByteStep) (d' : ChunkedDecoder) : Prop :=
  match res.2 with
  | .yield _ | .unreachable => False
  | .next | .advance | .emitAndContinue => d' = res.1

@[simp] theorem accepted_next {d d' : ChunkedDecoder} : Accepted (d, .next) d' ↔ d' = d := Iff.rfl

@[simp] theorem accepted_advance {d d' : ChunkedDecoder} : Accepted (d, .advance) d' ↔ d' = d := Iff.rfl

@[simp] theorem accepted_emit {d d' : ChunkedDecoder} : Accepted (d, .emitAndContinue) d' ↔ d' = d :=
  Iff.rfl

@[simp] theorem accepted_yield {d d' : ChunkedDecoder} {e : ParseError} :
    Accepted (d, .yield e) d' ↔ False := Iff.rfl

/-- The decoder takes a metadata byte and becomes `d'`. -/
def Takes (d : ChunkedDecoder) (b : UInt8) (d' : ChunkedDecoder) : Prop :=
  ∃ r, readerOf d.state = some r ∧ Accepted (r.byte d b) d'

/-- A byte of an extension is accepted within the budget for extensions, if the grammar goes on with it. -/
theorem accepted_advanceExtension {d d' : ChunkedDecoder} {b : UInt8} :
    Accepted (advanceExtension d b) d' ↔
      (∃ p, stepExtension d.extPhase b = .continue p ∧ d.metadata.extension + 1 ≤ 4096 ∧
        d' = { d with extPhase := p, metadata := { d.metadata with
          extension := d.metadata.extension + 1 } }) ∨
      stepExtension d.extPhase b = .endOfLine ∧
        d' = { d with remaining := d.chunkSize, state := .readingSizeLf } := by
  unfold advanceExtension MetadataBudget.chargeExtension MAX_CHUNK_EXTENSION
  cases hstep : stepExtension d.extPhase b with
  | «continue» p =>
      by_cases hle : d.metadata.extension + 1 ≤ 4096 <;> simp [hle]
  | endOfLine => simp
  | invalid => simp

theorem takes_extension {d d' : ChunkedDecoder} {b : UInt8} (hs : d.state = .readingExtension) :
    Takes d b d' ↔ Accepted (advanceExtension d b) d' := by
  simp [Takes, hs, readerOf, Reader.byte, sizeLineByte]

/-- In the size: one more digit, the beginning of an extension, or the end of the line. -/
theorem takes_size {d d' : ChunkedDecoder} {b : UInt8} (hs : d.state = .readingSize) :
    Takes d b d' ↔
      (∃ digit, HexDigit.decode b = some digit ∧ d.metadata.sizeDigits + 1 ≤ 1024 ∧
        d.chunkSize * 16 + digit < 2 ^ 64 ∧
        d' = { d with chunkSize := d.chunkSize * 16 + digit, sawSizeDigit := true,
                      metadata := { d.metadata with sizeDigits := d.metadata.sizeDigits + 1 } }) ∨
      HexDigit.decode b = none ∧ d.sawSizeDigit = true ∧
        (b = CR ∧ d' = { d with remaining := d.chunkSize, state := .readingSizeLf } ∨
         (b = 0x3b ∨ isBws b = true) ∧
          Accepted (advanceExtension { d with state := .readingExtension, extPhase := .afterValue } b)
            d') := by
  have htakes : Takes d b d' ↔ Accepted (sizeByte d b) d' := by
    simp [Takes, hs, readerOf, Reader.byte, sizeLineByte]
  rw [htakes, bws_iff]
  unfold sizeByte MetadataBudget.chargeSizeDigit MAX_CHUNK_SIZE_DIGITS CR
  cases hdec : HexDigit.decode b with
  | some digit =>
      generalize 2 ^ 64 = bound
      by_cases hle : d.metadata.sizeDigits + 1 ≤ 1024
      · by_cases hlt : d.chunkSize * 16 + digit < bound <;> simp [hle, hlt]
      · simp [hle]
  | none =>
      by_cases hsaw : d.sawSizeDigit = true
      · by_cases hcr : b = 0x0d
        · subst hcr
          simp [hsaw]
        · by_cases hext : b = 0x3b ∨ b = 0x20 ∨ b = 0x09 <;> simp [hsaw, hcr, hext]
      · simp [hsaw]

/-- The last-chunk leads to the trailer section, other chunks to their data. -/
theorem takes_sizeLf {d d' : ChunkedDecoder} {b : UInt8} (hs : d.state = .readingSizeLf) :
    Takes d b d' ↔ b = LF ∧
      (d.chunkSize = 0 ∧ d' = { d with state := .readingTrailer, trailerLineEmpty := true,
                                       metadata := d.metadata.resetExtension } ∨
       d.chunkSize ≠ 0 ∧ d' = { d with state := .readingData }) := by
  simp only [Takes, hs, readerOf, Option.some.injEq, exists_eq_left', Reader.byte, sizeLineByte, LF]
  by_cases hb : b = 0x0a <;> by_cases hz : d.chunkSize = 0 <;> simp [hb, hz]

theorem takes_dataCr {d d' : ChunkedDecoder} {b : UInt8} (hs : d.state = .readingDataCr) :
    Takes d b d' ↔ b = CR ∧ d' = { d with state := .readingDataLf } := by
  simp only [Takes, hs, readerOf, Option.some.injEq, exists_eq_left', Reader.byte, dataTerminatorByte, CR]
  by_cases hb : b = 0x0d <;> simp [hb]

theorem takes_dataLf {d d' : ChunkedDecoder} {b : UInt8} (hs : d.state = .readingDataLf) :
    Takes d b d' ↔ b = LF ∧
      d' = { d with chunkSize := 0, sawSizeDigit := false,
                    metadata := d.metadata.resetExtension.resetSizeDigits,
                    extPhase := .beforeName, state := .readingSize } := by
  simp only [Takes, hs, readerOf, Option.some.injEq, exists_eq_left', Reader.byte, dataTerminatorByte, LF]
  by_cases hb : b = 0x0a <;> simp [hb]

theorem takes_trailerLf {d d' : ChunkedDecoder} {b : UInt8} (hs : d.state = .readingTrailerLf) :
    Takes d b d' ↔ b = LF ∧
      (d.trailerLineEmpty = true ∧ d' = { d with state := .done } ∨
       d.trailerLineEmpty = false ∧ d' = { d with state := .readingTrailer, trailerLineEmpty := true,
                                                  trailerPhase := .fieldName, trailerNameLen := 0 }) := by
  simp only [Takes, hs, readerOf, Option.some.injEq, exists_eq_left', Reader.byte, trailerByte, LF]
  by_cases hb : b = 0x0a <;> cases hl : d.trailerLineEmpty <;> simp [hb]

/-- The decoder after one more trailer byte has been charged. -/
def chargedTrailer (d : ChunkedDecoder) : ChunkedDecoder :=
  { d with metadata := { d.metadata with trailer := d.metadata.trailer + 1 }, trailerLineEmpty := false }

/-- At the beginning of a trailer line: the blank line, or the first byte of a name. -/
theorem takes_trailer_empty {d d' : ChunkedDecoder} {b : UInt8} (hs : d.state = .readingTrailer)
    (hp : d.trailerPhase = .fieldName) (hn : d.trailerNameLen = 0) :
    Takes d b d' ↔ b = CR ∧ d' = { d with state := .readingTrailerLf } ∨
      d.metadata.trailer + 1 ≤ 8192 ∧ Tchar.isValid b = true ∧
        d' = { chargedTrailer d with trailerNameLen := 1 } := by
  have hcr : Tchar.isValid 0x0d = false := by decide
  simp only [Takes, hs, readerOf, Option.some.injEq, exists_eq_left', Reader.byte, trailerByte, hp, hn, CR,
    MetadataBudget.chargeTrailer, MAX_TRAILER_SECTION, chargedTrailer]
  by_cases hb : b = 0x0d
  · subst hb
    simp [hcr]
  · by_cases hle : d.metadata.trailer + 1 ≤ 8192 <;> by_cases ht : Tchar.isValid b = true <;>
      simp [hb, hle, ht]

theorem takes_trailer_name {d d' : ChunkedDecoder} {b : UInt8} (hs : d.state = .readingTrailer)
    (hp : d.trailerPhase = .fieldName) (hn : 0 < d.trailerNameLen) :
    Takes d b d' ↔ d.metadata.trailer + 1 ≤ 8192 ∧
      (b = 0x3a ∧ d' = { chargedTrailer d with trailerPhase := .afterColon } ∨
       Tchar.isValid b = true ∧
        d' = { chargedTrailer d with trailerNameLen := d.trailerNameLen + 1 }) := by
  have hcolon : Tchar.isValid 0x3a = false := by decide
  have hne : d.trailerNameLen ≠ 0 := by omega
  simp only [Takes, hs, readerOf, Option.some.injEq, exists_eq_left', Reader.byte, trailerByte, hp,
    MetadataBudget.chargeTrailer, MAX_TRAILER_SECTION, chargedTrailer]
  by_cases hb : b = 0x3a
  · subst hb
    by_cases hle : d.metadata.trailer + 1 ≤ 8192 <;> simp [hle, hn, hne, hcolon]
  · by_cases hle : d.metadata.trailer + 1 ≤ 8192 <;> by_cases ht : Tchar.isValid b = true <;>
      simp [hb, hle, ht, hne]

theorem takes_trailer_value {d d' : ChunkedDecoder} {b : UInt8} (hs : d.state = .readingTrailer)
    (hp : d.trailerPhase = .afterColon) :
    Takes d b d' ↔ d.metadata.trailer + 1 ≤ 8192 ∧
      (isMetadataByte b = true ∧ d' = chargedTrailer d ∨
       b = CR ∧ d' = { chargedTrailer d with state := .readingTrailerLf }) := by
  have hcr : isMetadataByte 0x0d = false := by decide
  simp only [Takes, hs, readerOf, Option.some.injEq, exists_eq_left', Reader.byte, trailerByte, hp, CR,
    MetadataBudget.chargeTrailer, MAX_TRAILER_SECTION, chargedTrailer]
  by_cases hle : d.metadata.trailer + 1 ≤ 8192
  · by_cases hb : b = 0x0d
    · subst hb
      simp [hle, hcr]
    · by_cases hm : isMetadataByte b = true <;> simp [hle, hb, hm]
  · simp [hle]

/-! ## The decoder accepts its residual -/

/-- The decoder ends in `Done` on exactly `xs`, having emitted `out`. -/
def Accepts (d : ChunkedDecoder) (xs out : Bytes) : Prop := run d xs = ⟨out, .done, xs.length⟩

theorem accepts_nil {d : ChunkedDecoder} {out : Bytes} :
    Accepts d [] out ↔ d.state = .done ∧ out = [] := by
  unfold Accepts run isDone
  by_cases h : d.state = .done <;> simp [h, eq_comm]

theorem outcome_after_eq {o : Outcome} {pre out : Bytes} {n : Nat} :
    o.after pre 1 = ⟨out, .done, n + 1⟩ ↔ ∃ out', out = pre ++ out' ∧ o = ⟨out', .done, n⟩ := by
  obtain ⟨body, verdict, consumed⟩ := o
  simp only [Outcome.after, Outcome.mk.injEq]
  constructor
  · rintro ⟨rfl, rfl, h⟩
    exact ⟨body, rfl, rfl, rfl, by omega⟩
  · rintro ⟨out', rfl, rfl, rfl, rfl⟩
    exact ⟨rfl, rfl, by omega⟩

/-- Outside of the data, a byte is accepted if the state takes it and what follows is accepted. -/
theorem accepts_cons_meta {d : ChunkedDecoder} {r : Reader} (hr : readerOf d.state = some r) {b : UInt8}
    {xs out : Bytes} : Accepts d (b :: xs) out ↔ ∃ d', Takes d b d' ∧ Accepts d' xs out := by
  have htakes : ∀ d', Takes d b d' ↔ Accepted (r.byte d b) d' := by
    intro d'
    simp [Takes, hr]
  simp only [Accepts, run, hr, htakes, List.length_cons]
  obtain ⟨d', s⟩ := r.byte d b
  cases s with
  | next => simp [outcome_after_eq]
  | advance => simp [outcome_after_eq]
  | emitAndContinue => simp [outcome_after_eq]
  | yield e => simp
  | unreachable => simp [Accepted]

/-- A byte of data is put out. -/
theorem accepts_cons_data {d : ChunkedDecoder} (hs : d.state = .readingData) {b : UInt8}
    {xs out : Bytes} :
    Accepts d (b :: xs) out ↔ ∃ out', out = b :: out' ∧ Accepts (d.takeData 1) xs out' := by
  simp only [Accepts, run, hs, readerOf, List.length_cons, outcome_after_eq, List.singleton_append]

/-- The counters' invariant: no budget is exceeded, and what only the trailer uses is untouched before
    it. -/
structure Counters (d : ChunkedDecoder) : Prop where
  inv : Inv d
  sizeDigits : d.metadata.sizeDigits ≤ 1024
  extension : d.metadata.extension ≤ 4096
  trailer : d.metadata.trailer ≤ 8192
  chunkSize : d.chunkSize < 2 ^ 64
  readingSize : d.state = .readingSize → d.metadata.extension = 0
  beforeTrailer : d.state ≠ .readingTrailer → d.state ≠ .readingTrailerLf → d.state ≠ .done →
    d.metadata.trailer = 0 ∧ d.trailerPhase = .fieldName ∧ d.trailerNameLen = 0
  trailerLine : d.state = .readingTrailer →
    (d.trailerLineEmpty = true ↔ d.trailerPhase = .fieldName ∧ d.trailerNameLen = 0)

/-- **What the grammar still allows** after the bytes that led to a decoder. -/
def Residual (d : ChunkedDecoder) (xs out : Bytes) : Prop :=
  match d.state with
  | .readingSize => SizeTail d.metadata.sizeDigits d.chunkSize d.sawSizeDigit xs out
  | .readingExtension => ExtTail d.extPhase d.metadata.extension d.chunkSize xs out
  | .readingSizeLf => ∃ rest, xs = LF :: rest ∧ AfterSize d.chunkSize rest out
  | .readingData => DataRest d.remaining xs out
  | .readingDataCr => ∃ rest, xs = CR :: LF :: rest ∧ ChunkedBody rest out
  | .readingDataLf => ∃ rest, xs = LF :: rest ∧ ChunkedBody rest out
  | .readingTrailer =>
    out = [] ∧
      if d.trailerPhase = .afterColon then ValueTail d.metadata.trailer xs
      else if d.trailerNameLen = 0 then TrailerFrom d.metadata.trailer xs
      else NameTail d.metadata.trailer xs
  | .readingTrailerLf =>
    out = [] ∧
      if d.trailerLineEmpty then xs = [LF] else ∃ rest, xs = LF :: rest ∧ TrailerFrom d.metadata.trailer rest
  | .done => xs = [] ∧ out = []
  | .failed _ => False

theorem counters_new : Counters new := by
  refine ⟨inv_new, ?_, ?_, ?_, ?_, ?_, ?_, ?_⟩ <;> simp [new, MetadataBudget.new]

/-- Only a finished decoder has nothing left to read. -/
theorem residual_nil {d : ChunkedDecoder} {out : Bytes} :
    Residual d [] out ↔ d.state = .done ∧ out = [] := by
  unfold Residual
  cases hs : d.state with
  | readingSize =>
      refine iff_of_false ?_ (by simp)
      rintro ⟨digits, tail, hxs, -, -, -, -, ext, rest, rfl, -⟩
      simp at hxs
  | readingExtension =>
      refine iff_of_false ?_ (by simp)
      rintro ⟨ext, rest, hxs, -⟩
      simp at hxs
  | readingSizeLf => simp
  | readingData =>
      refine iff_of_false ?_ (by simp)
      rintro ⟨data, rest, body, -, hxs, -⟩
      simp at hxs
  | readingDataCr => simp
  | readingDataLf => simp
  | readingTrailer =>
      refine iff_of_false ?_ (by simp)
      rintro ⟨-, h⟩
      split at h
      · obtain ⟨value, rest, hxs, -⟩ := h
        simp at hxs
      · split at h
        · exact nil_trailerFrom h
        · obtain ⟨name, rest, hxs, -⟩ := h
          simp at hxs
  | readingTrailerLf => simp
  | done => simp
  | failed e => simp

/-- Before the trailer section, what the trailer counters need is that they are untouched. -/
theorem Counters.untouched {d : ChunkedDecoder} (h : Counters d) {r : Reader}
    (hr : readerOf d.state = some r) (hne : r ≠ .trailer) :
    d.metadata.trailer = 0 ∧ d.trailerPhase = .fieldName ∧ d.trailerNameLen = 0 := by
  refine h.beforeTrailer ?_ ?_ ?_ <;> intro hs <;> rw [hs] at hr <;> cases hr <;> exact hne rfl

theorem counters_advanceExtension {d d' : ChunkedDecoder} {b : UInt8} (hc : Counters d)
    (hs : d.state = .readingExtension) (h : Accepted (advanceExtension d b) d') : Counters d' := by
  have hun := hc.untouched (show readerOf d.state = some .sizeLine by rw [hs]; rfl) (by simp)
  rcases accepted_advanceExtension.mp h with ⟨p, -, hle, rfl⟩ | ⟨-, rfl⟩
  · exact ⟨⟨by simp [hs], by simp [hs], by simp [hs]⟩, hc.sizeDigits, hle, hc.trailer, hc.chunkSize,
      by simp [hs], by simp [hs, hun], by simp [hs]⟩
  · exact ⟨⟨by simp, by simp, by simp⟩, hc.sizeDigits, hc.extension, hc.trailer, hc.chunkSize, by simp,
      by simp [hun], by simp⟩

/-- **One metadata byte keeps the counters' invariant.** -/
theorem counters_takes {d d' : ChunkedDecoder} {b : UInt8} (hc : Counters d) (h : Takes d b d') :
    Counters d' := by
  obtain ⟨r, hr, -⟩ := id h
  have hun := hc.untouched hr
  cases hs : d.state with
  | readingSize =>
      have hun := hun (by rw [hs] at hr; cases hr; simp)
      rcases (takes_size hs).mp h with ⟨digit, -, hle, hlt, rfl⟩ | ⟨-, -, ⟨-, rfl⟩ | ⟨-, hext⟩⟩
      · exact ⟨⟨by simp [hs], by simp [hs], by simp [hs]⟩, hle, hc.extension, hc.trailer, hlt,
          fun _ => hc.readingSize hs, by simp [hs, hun], by simp [hs]⟩
      · exact ⟨⟨by simp, by simp, by simp⟩, hc.sizeDigits, hc.extension, hc.trailer, hc.chunkSize, by simp,
          by simp [hun], by simp⟩
      · refine counters_advanceExtension ?_ rfl hext
        exact ⟨⟨by simp, by simp, by simp⟩, hc.sizeDigits, hc.extension, hc.trailer, hc.chunkSize, by simp,
          by simp [hun], by simp⟩
  | readingExtension => exact counters_advanceExtension hc hs ((takes_extension hs).mp h)
  | readingSizeLf =>
      have hun := hun (by rw [hs] at hr; cases hr; simp)
      have hrem := hc.inv.sizeLf hs
      rcases (takes_sizeLf hs).mp h with ⟨-, ⟨-, rfl⟩ | ⟨hne, rfl⟩⟩
      · exact ⟨⟨by simp, by simp, by simp⟩, hc.sizeDigits, by simp [MetadataBudget.resetExtension],
          hc.trailer, hc.chunkSize, by simp, by simp, by simp [hun]⟩
      · exact ⟨⟨by simp, by simp, fun _ => by simp only; omega⟩, hc.sizeDigits, hc.extension, hc.trailer,
          hc.chunkSize, by simp, by simp [hun], by simp⟩
  | readingDataCr =>
      have hun := hun (by rw [hs] at hr; cases hr; simp)
      obtain ⟨-, rfl⟩ := (takes_dataCr hs).mp h
      exact ⟨⟨by simp, by simp, by simp⟩, hc.sizeDigits, hc.extension, hc.trailer, hc.chunkSize, by simp,
        by simp [hun], by simp⟩
  | readingDataLf =>
      have hun := hun (by rw [hs] at hr; cases hr; simp)
      obtain ⟨-, rfl⟩ := (takes_dataLf hs).mp h
      refine ⟨⟨by simp, by simp, by simp⟩, ?_, ?_, hc.trailer, by simp, ?_, ?_, by simp⟩
      · simp [MetadataBudget.resetSizeDigits]
      · simp [MetadataBudget.resetExtension, MetadataBudget.resetSizeDigits]
      · simp [MetadataBudget.resetExtension, MetadataBudget.resetSizeDigits]
      · simp [MetadataBudget.resetExtension, MetadataBudget.resetSizeDigits, hun]
  | readingTrailer =>
      cases hp : d.trailerPhase with
      | fieldName =>
          rcases Nat.eq_zero_or_pos d.trailerNameLen with hn | hn
          · rcases (takes_trailer_empty hs hp hn).mp h with ⟨-, rfl⟩ | ⟨hle, -, rfl⟩
            · exact ⟨⟨by simp, by simp, by simp⟩, hc.sizeDigits, hc.extension, hc.trailer, hc.chunkSize,
                by simp, by simp, by simp⟩
            · exact ⟨⟨by simp [chargedTrailer, hs], by simp [chargedTrailer, hs],
                by simp [chargedTrailer, hs]⟩, hc.sizeDigits, hc.extension, hle, hc.chunkSize,
                by simp [chargedTrailer, hs], by simp [chargedTrailer, hs], by simp [chargedTrailer]⟩
          · rcases (takes_trailer_name hs hp hn).mp h with ⟨hle, ⟨-, rfl⟩ | ⟨-, rfl⟩⟩
            · exact ⟨⟨by simp [chargedTrailer, hs], by simp [chargedTrailer, hs],
                by simp [chargedTrailer, hs]⟩, hc.sizeDigits, hc.extension, hle, hc.chunkSize,
                by simp [chargedTrailer, hs], by simp [chargedTrailer, hs], by simp [chargedTrailer]⟩
            · exact ⟨⟨by simp [chargedTrailer, hs], by simp [chargedTrailer, hs],
                by simp [chargedTrailer, hs]⟩, hc.sizeDigits, hc.extension, hle, hc.chunkSize,
                by simp [chargedTrailer, hs], by simp [chargedTrailer, hs], by simp [chargedTrailer]⟩
      | afterColon =>
          rcases (takes_trailer_value hs hp).mp h with ⟨hle, ⟨-, rfl⟩ | ⟨-, rfl⟩⟩
          · exact ⟨⟨by simp [chargedTrailer, hs], by simp [chargedTrailer, hs],
              by simp [chargedTrailer, hs]⟩, hc.sizeDigits, hc.extension, hle, hc.chunkSize,
              by simp [chargedTrailer, hs], by simp [chargedTrailer, hs], by simp [chargedTrailer, hp]⟩
          · exact ⟨⟨by simp, by simp, by simp⟩, hc.sizeDigits, hc.extension, hle, hc.chunkSize, by simp,
              by simp, by simp⟩
  | readingTrailerLf =>
      rcases (takes_trailerLf hs).mp h with ⟨-, ⟨-, rfl⟩ | ⟨-, rfl⟩⟩
      · exact ⟨⟨by simp, by simp, by simp⟩, hc.sizeDigits, hc.extension, hc.trailer, hc.chunkSize, by simp,
          by simp, by simp⟩
      · exact ⟨⟨by simp, by simp, by simp⟩, hc.sizeDigits, hc.extension, hc.trailer, hc.chunkSize, by simp,
          by simp, by simp⟩
  | readingData => rw [hs] at hr; cases hr
  | done => rw [hs] at hr; cases hr
  | failed e => rw [hs] at hr; cases hr

theorem residual_advanceExtension {d : ChunkedDecoder} (hs : d.state = .readingExtension)
    (hle : d.metadata.extension ≤ 4096) {b : UInt8} {xs out : Bytes} :
    ExtTail d.extPhase d.metadata.extension d.chunkSize (b :: xs) out ↔
      ∃ d', Accepted (advanceExtension d b) d' ∧ Residual d' xs out := by
  rw [cons_extTail hle]
  simp only [accepted_advanceExtension]
  constructor
  · rintro (⟨p, hstep, hlt, htail⟩ | ⟨hstep, hrest⟩)
    · refine ⟨_, .inl ⟨p, hstep, hlt, rfl⟩, ?_⟩
      simpa only [Residual, hs] using htail
    · exact ⟨_, .inr ⟨hstep, rfl⟩, hrest⟩
  · rintro ⟨_, ⟨p, hstep, hlt, rfl⟩ | ⟨hstep, rfl⟩, hres⟩
    · simp only [Residual, hs] at hres
      exact .inl ⟨p, hstep, hlt, hres⟩
    · exact .inr ⟨hstep, hres⟩

/-- After the digits: the CR, or the first byte of the extension part. -/
theorem residual_size_end {d : ChunkedDecoder} (hext : d.metadata.extension = 0) {b : UInt8}
    {xs out : Bytes} :
    ExtTail .afterValue 0 d.chunkSize (b :: xs) out ↔
      ∃ d', (b = CR ∧ d' = { d with remaining := d.chunkSize, state := .readingSizeLf } ∨
        (b = 0x3b ∨ isBws b = true) ∧
          Accepted (advanceExtension { d with state := .readingExtension, extPhase := .afterValue } b) d') ∧
        Residual d' xs out := by
  rw [show ExtTail .afterValue 0 d.chunkSize (b :: xs) out ↔ ∃ d', Accepted (advanceExtension
      { d with state := .readingExtension, extPhase := .afterValue } b) d' ∧ Residual d' xs out by
    rw [← residual_advanceExtension rfl (by simp only [hext]; omega)]
    simp only [hext]]
  have hcr : stepExtension .afterValue CR = .endOfLine := by decide
  by_cases hb : b = CR
  · subst hb
    have hno : ¬ (CR = 0x3b ∨ isBws CR = true) := by decide
    simp only [accepted_advanceExtension, hcr, hno, false_and, or_false, true_and, reduceCtorEq,
      exists_false, false_or, exists_eq_left]
    rfl
  · simp only [hb, false_and, false_or]
    constructor
    · rintro ⟨d', hacc, hres⟩
      refine ⟨d', ⟨?_, hacc⟩, hres⟩
      -- from `AfterValue` the machine goes on only from `;` and white space
      rcases accepted_advanceExtension.mp hacc with ⟨p, hstep, -⟩ | ⟨hstep, -⟩
      · simp only [stepExtension] at hstep
        grind
      · exact absurd ((stepExtension_endOfLine _ b).mp hstep).1 hb
    · rintro ⟨d', ⟨-, hacc⟩, hres⟩
      exact ⟨d', hacc, hres⟩

/-- **Derivative of the residual.** What the grammar allows after a byte is what it allows of the decoder
    that took the byte. -/
theorem residual_cons_meta {d : ChunkedDecoder} (hc : Counters d) {r : Reader}
    (hr : readerOf d.state = some r) {b : UInt8} {xs out : Bytes} :
    Residual d (b :: xs) out ↔ ∃ d', Takes d b d' ∧ Residual d' xs out := by
  cases hs : d.state with
  | readingSize =>
      simp only [takes_size hs]
      rw [show Residual d (b :: xs) out ↔
        SizeTail d.metadata.sizeDigits d.chunkSize d.sawSizeDigit (b :: xs) out by simp only [Residual, hs],
        cons_sizeTail hc.sizeDigits hc.chunkSize, residual_size_end (hc.readingSize hs)]
      constructor
      · rintro (⟨digit, hdig, hle, hlt, htail⟩ | ⟨hnone, hsaw, d', hd', hres⟩)
        · refine ⟨_, .inl ⟨digit, hdig, hle, hlt, rfl⟩, ?_⟩
          simpa only [Residual, hs] using htail
        · exact ⟨d', .inr ⟨hnone, hsaw, hd'⟩, hres⟩
      · rintro ⟨d', ⟨digit, hdig, hle, hlt, rfl⟩ | ⟨hnone, hsaw, hd'⟩, hres⟩
        · simp only [Residual, hs] at hres
          exact .inl ⟨digit, hdig, hle, hlt, hres⟩
        · exact .inr ⟨hnone, hsaw, d', hd', hres⟩
  | readingExtension =>
      simp only [takes_extension hs]
      rw [← residual_advanceExtension hs hc.extension]
      simp only [Residual, hs]
  | readingSizeLf =>
      have hun := hc.untouched (show readerOf d.state = some .sizeLine by rw [hs]; rfl) (by simp)
      simp only [takes_sizeLf hs]
      rw [show Residual d (b :: xs) out ↔ b = LF ∧ AfterSize d.chunkSize xs out by
        simp [Residual, hs]]
      have hdata := hc.inv.sizeLf hs
      constructor
      · rintro ⟨rfl, ⟨hz, hout, htr⟩ | ⟨hpos, hdr⟩⟩
        · refine ⟨_, ⟨rfl, .inl ⟨hz, rfl⟩⟩, ?_⟩
          simpa [Residual, hun, hout, MetadataBudget.resetExtension] using trailerSection_iff.mp htr
        · refine ⟨_, ⟨rfl, .inr ⟨by omega, rfl⟩⟩, ?_⟩
          simpa only [Residual, hdata] using hdr
      · rintro ⟨_, ⟨rfl, ⟨hz, rfl⟩ | ⟨hz, rfl⟩⟩, hres⟩
        · simp [Residual, hun, MetadataBudget.resetExtension] at hres
          exact ⟨rfl, .inl ⟨hz, hres.1, trailerSection_iff.mpr hres.2⟩⟩
        · simp only [Residual, hdata] at hres
          exact ⟨rfl, .inr ⟨by omega, hres⟩⟩
  | readingDataCr =>
      simp only [takes_dataCr hs]
      simp [Residual, hs, and_assoc]
  | readingDataLf =>
      simp only [takes_dataLf hs]
      simp [Residual, hs, chunkedBody_iff, MetadataBudget.resetExtension, MetadataBudget.resetSizeDigits]
  | readingTrailer =>
      cases hp : d.trailerPhase with
      | fieldName =>
          rcases Nat.eq_zero_or_pos d.trailerNameLen with hn | hn
          · -- the first byte of a line: the CR of the last one, or the first byte of a name
            have hempty := (hc.trailerLine hs).mpr ⟨hp, hn⟩
            simp only [takes_trailer_empty hs hp hn]
            rw [show Residual d (b :: xs) out ↔ out = [] ∧ TrailerFrom d.metadata.trailer (b :: xs) by
              simp [Residual, hs, hp, hn], cons_trailerFrom]
            constructor
            · rintro ⟨hout, ⟨-, hb, hxs⟩ | ⟨hb, htail⟩⟩
              · refine ⟨_, .inl ⟨hb, rfl⟩, ?_⟩
                simp [Residual, hempty, hout, hxs]
              · refine ⟨_, .inr ⟨le_of_nameTail htail, hb, rfl⟩, ?_⟩
                simpa [Residual, chargedTrailer, hs, hp, hout] using htail
            · rintro ⟨_, ⟨hb, rfl⟩ | ⟨-, hb, rfl⟩, hres⟩
              · simp [Residual, hempty] at hres
                exact ⟨hres.1, .inl ⟨hc.trailer, hb, hres.2⟩⟩
              · simp [Residual, chargedTrailer, hs, hp] at hres
                exact ⟨hres.1, .inr ⟨hb, hres.2⟩⟩
          · have hne : d.trailerNameLen ≠ 0 := by omega
            simp only [takes_trailer_name hs hp hn]
            rw [show Residual d (b :: xs) out ↔ out = [] ∧ NameTail d.metadata.trailer (b :: xs) by
              simp [Residual, hs, hp, hne], cons_nameTail]
            constructor
            · rintro ⟨hout, ⟨hb, htail⟩ | ⟨hb, htail⟩⟩
              · refine ⟨_, ⟨le_of_valueTail htail, .inl ⟨hb, rfl⟩⟩, ?_⟩
                simpa [Residual, chargedTrailer, hs, hout] using htail
              · refine ⟨_, ⟨le_of_nameTail htail, .inr ⟨hb, rfl⟩⟩, ?_⟩
                simpa [Residual, chargedTrailer, hs, hp, hout] using htail
            · rintro ⟨_, ⟨-, ⟨hb, rfl⟩ | ⟨hb, rfl⟩⟩, hres⟩
              · simp [Residual, chargedTrailer, hs] at hres
                exact ⟨hres.1, .inl ⟨hb, hres.2⟩⟩
              · simp [Residual, chargedTrailer, hs, hp] at hres
                exact ⟨hres.1, .inr ⟨hb, hres.2⟩⟩
      | afterColon =>
          simp only [takes_trailer_value hs hp]
          rw [show Residual d (b :: xs) out ↔ out = [] ∧ ValueTail d.metadata.trailer (b :: xs) by
            simp [Residual, hs, hp], cons_valueTail]
          constructor
          · rintro ⟨hout, ⟨hb, rest, hxs, htail⟩ | ⟨hb, htail⟩⟩
            · refine ⟨_, ⟨le_of_trailerFrom htail, .inr ⟨hb, rfl⟩⟩, ?_⟩
              simpa [Residual, chargedTrailer, hout, hxs] using htail
            · refine ⟨_, ⟨le_of_valueTail htail, .inl ⟨hb, rfl⟩⟩, ?_⟩
              simpa [Residual, chargedTrailer, hs, hp, hout] using htail
          · rintro ⟨_, ⟨-, ⟨hb, rfl⟩ | ⟨hb, rfl⟩⟩, hres⟩
            · simp [Residual, chargedTrailer, hs, hp] at hres
              exact ⟨hres.1, .inr ⟨hb, hres.2⟩⟩
            · simp [Residual, chargedTrailer] at hres
              exact ⟨hres.1, .inl ⟨hb, hres.2⟩⟩
  | readingTrailerLf =>
      simp only [takes_trailerLf hs]
      cases hl : d.trailerLineEmpty
      · simp [Residual, hs, hl, and_left_comm]
      · simp [Residual, hs, hl, and_comm, and_assoc]
  | readingData => rw [hs] at hr; cases hr
  | done => rw [hs] at hr; cases hr
  | failed e => rw [hs] at hr; cases hr

theorem counters_takeData {d : ChunkedDecoder} (hc : Counters d) (hs : d.state = .readingData) :
    Counters (d.takeData 1) := by
  have hun := hc.beforeTrailer (by simp [hs]) (by simp [hs]) (by simp [hs])
  refine ⟨inv_takeData hs 1, hc.sizeDigits, hc.extension, hc.trailer, hc.chunkSize, ?_, fun _ _ _ => hun, ?_⟩
  · simp only [takeData, hs]
    split <;> simp
  · simp only [takeData, hs]
    split <;> simp

/-- The grammar of what is left, over a byte of data. -/
theorem residual_cons_data {d : ChunkedDecoder} (hc : Counters d) (hs : d.state = .readingData)
    {b : UInt8} {xs out : Bytes} :
    Residual d (b :: xs) out ↔ ∃ out', out = b :: out' ∧ Residual (d.takeData 1) xs out' := by
  obtain ⟨n, hn⟩ : ∃ n, d.remaining = n + 1 := ⟨d.remaining - 1, by have := hc.inv.data hs; omega⟩
  have hres : ∀ out', Residual (d.takeData 1) xs out' ↔ DataRest n xs out' := by
    intro out'
    by_cases hz : n = 0
    · -- the chunk's last byte: its CRLF is next
      subst hz
      simp [Residual, takeData, hn, DataRest, List.length_eq_zero_iff]
    · simp [Residual, takeData, hn, hz, hs]
  simp only [hres]
  rw [← cons_dataRest, ← hn]
  simp only [Residual, hs]

/-- **The decoder accepts exactly its residual.** -/
theorem accepts_iff {d : ChunkedDecoder} (hc : Counters d) (xs out : Bytes) :
    Accepts d xs out ↔ Residual d xs out := by
  induction xs generalizing d out with
  | nil => rw [accepts_nil, residual_nil]
  | cons b xs ih =>
      cases hr : readerOf d.state with
      | some r =>
          rw [accepts_cons_meta hr, residual_cons_meta hc hr]
          refine exists_congr fun d' => and_congr_right fun htakes => ?_
          exact ih (counters_takes hc htakes) out
      | none =>
          cases hs : d.state with
          | readingData =>
              rw [accepts_cons_data hs, residual_cons_data hc hs]
              refine exists_congr fun out' => and_congr_right fun _ => ?_
              exact ih (counters_takeData hc hs) out'
          | done => simp [Accepts, run_done hs, Residual, hs]
          | failed e => exact absurd hs (hc.inv.live e)
          | readingSize | readingExtension | readingSizeLf | readingDataCr | readingDataLf
          | readingTrailer | readingTrailerLf => rw [hs] at hr; cases hr

/-! ## Accepted prefixes of a longer input -/

/-- A decoder that accepts a word stops at its end, whatever follows. -/
theorem run_of_accepts {d : ChunkedDecoder} {pre out : Bytes} (h : Accepts d pre out) (rest : Bytes) :
    run d (pre ++ rest) = ⟨out, .done, pre.length⟩ := by
  induction pre generalizing d out with
  | nil =>
      obtain ⟨hs, rfl⟩ := accepts_nil.mp h
      exact run_done hs _
  | cons b pre ih =>
      cases hr : readerOf d.state with
      | some r =>
          obtain ⟨d', htakes, hacc⟩ := (accepts_cons_meta hr).mp h
          obtain ⟨r', hr', htakes⟩ := htakes
          have hadv : Advances d [b] [] d' := by
            rcases hres : r'.byte d b with ⟨d₁, s⟩
            rw [hres] at htakes
            cases s with
            | next | advance | emitAndContinue =>
                obtain rfl : d' = d₁ := htakes
                exact advances_byte hr' hres (by simp) (by simp)
            | yield e => exact absurd htakes (by simp)
            | unreachable => exact absurd htakes (by simp [Accepted])
          have hrun := hadv (pre ++ rest)
          rw [ih hacc] at hrun
          simpa [Outcome.after, Nat.add_comm] using hrun
      | none =>
          cases hs : d.state with
          | readingData =>
              obtain ⟨out', rfl, hacc⟩ := (accepts_cons_data hs).mp h
              simp only [List.cons_append, run, readerOf, hs, ih hacc]
              simp [Outcome.after, Nat.add_comm]
          | done =>
              unfold Accepts at h
              rw [run_done hs] at h
              simp at h
          | failed e =>
              unfold Accepts at h
              rw [run_failed hs (by simp)] at h
              simp at h
          | readingSize | readingExtension | readingSizeLf | readingDataCr | readingDataLf
          | readingTrailer | readingTrailerLf => rw [hs] at hr; cases hr

/-- A run that ends in `Done` accepted a prefix of its input. -/
theorem accepts_of_run {d : ChunkedDecoder} {bytes out : Bytes} {k : Nat}
    (h : run d bytes = ⟨out, .done, k⟩) : ∃ pre, pre <+: bytes ∧ Accepts d pre out := by
  induction bytes generalizing d out k with
  | nil =>
      refine ⟨[], List.prefix_rfl, accepts_nil.mpr ?_⟩
      unfold run isDone at h
      by_cases hs : d.state = .done
      · simp [hs] at h
        exact ⟨hs, h.1⟩
      · simp [hs] at h
  | cons b rest ih =>
      cases hr : readerOf d.state with
      | some r =>
          simp only [run, hr] at h
          rcases hres : r.byte d b with ⟨d', s⟩
          rw [hres] at h
          have hgo : (run d' rest).after [] 1 = ⟨out, .done, k⟩ → Accepted (d', s) d' →
              ∃ pre, pre <+: b :: rest ∧ Accepts d pre out := by
            intro hafter hacc
            rcases hrun : run d' rest with ⟨body, verdict, consumed⟩
            rw [hrun] at hafter
            simp only [Outcome.after, List.nil_append, Outcome.mk.injEq] at hafter
            obtain ⟨rfl, rfl, -⟩ := hafter
            obtain ⟨pre, hpre, hacc'⟩ := ih hrun
            refine ⟨b :: pre, List.cons_prefix_cons.mpr ⟨rfl, hpre⟩, (accepts_cons_meta hr).mpr ?_⟩
            exact ⟨d', ⟨r, hr, by rw [hres]; exact hacc⟩, hacc'⟩
          cases s with
          | next => exact hgo h rfl
          | advance => exact hgo h rfl
          | emitAndContinue => exact hgo h rfl
          | yield e => simp at h
          | unreachable => simp at h
      | none =>
          cases hs : d.state with
          | readingData =>
              simp only [run, readerOf, hs] at h
              rcases hrun : run (d.takeData 1) rest with ⟨body, verdict, consumed⟩
              rw [hrun] at h
              simp only [Outcome.after, List.singleton_append, Outcome.mk.injEq] at h
              obtain ⟨rfl, rfl, -⟩ := h
              obtain ⟨pre, hpre, hacc⟩ := ih hrun
              exact ⟨b :: pre, List.cons_prefix_cons.mpr ⟨rfl, hpre⟩,
                (accepts_cons_data hs).mpr ⟨body, rfl, hacc⟩⟩
          | done =>
              rw [run_done hs] at h
              simp only [Outcome.mk.injEq, true_and] at h
              exact ⟨[], List.nil_prefix, accepts_nil.mpr ⟨hs, h.1.symm⟩⟩
          | failed e =>
              rw [run_failed hs (by simp)] at h
              simp at h
          | readingSize | readingExtension | readingSizeLf | readingDataCr | readingDataLf
          | readingTrailer | readingTrailerLf => rw [hs] at hr; cases hr

/-- A fresh decoder accepts the grammar. -/
theorem accepts_new {xs out : Bytes} : Accepts new xs out ↔ ChunkedBody xs out := by
  rw [accepts_iff counters_new, chunkedBody_iff]
  rfl

/-- **The decoder accepts exactly the chunked grammar.** However a fresh decoder is driven over `bytes`,
    it reaches `Done` if and only if a prefix of `bytes` is a chunked body; then the prefix is the only one,
    the consumed count is its length, and the decoded body is the concatenation of its data fields. -/
theorem chunked_grammar_exact (bytes : Bytes) (pieces : List Bytes) (hp : pieces.flatten = bytes)
    (outs : Nat → Nat) (hout : ∀ i, 0 < outs i) (fuel : Nat)
    (hfuel : pieces.length + bytes.length < fuel) :
    ∃ o : Outcome, drive fuel outs new [] pieces = some o ∧
      (o.verdict = .done ↔ ∃ pre body, pre <+: bytes ∧ ChunkedBody pre body) ∧
      ∀ pre body, pre <+: bytes → ChunkedBody pre body →
        o.consumed = pre.length ∧ o.body = body ∧
        ∀ pre' body', pre' <+: bytes → ChunkedBody pre' body' → pre' = pre := by
  have hgood : ∀ pre body, pre <+: bytes → ChunkedBody pre body →
      run new bytes = ⟨body, .done, pre.length⟩ := by
    rintro pre body ⟨rest, rfl⟩ hbody
    exact run_of_accepts (accepts_new.mpr hbody) rest
  refine ⟨run new bytes, ?_, ⟨?_, ?_⟩, ?_⟩
  · rw [drive_eq_run fuel hout (.inl inv_new) (by simpa [hp] using hfuel), List.nil_append, hp]
  · intro hdone
    rcases hrun : run new bytes with ⟨body, verdict, consumed⟩
    rw [hrun] at hdone
    obtain rfl : verdict = .done := hdone
    obtain ⟨pre, hpre, hacc⟩ := accepts_of_run hrun
    exact ⟨pre, body, hpre, accepts_new.mp hacc⟩
  · rintro ⟨pre, body, hpre, hbody⟩
    rw [hgood pre body hpre hbody]
  · intro pre body hpre hbody
    have hrun := hgood pre body hpre hbody
    refine ⟨by rw [hrun], by rw [hrun], ?_⟩
    intro pre' body' hpre' hbody'
    have hlen : pre'.length = pre.length := by
      rw [hgood pre' body' hpre' hbody'] at hrun
      exact congrArg Outcome.consumed hrun
    exact (List.prefix_of_prefix_length_le hpre' hpre (by omega)).eq_of_length hlen

/-- The theorem at a body with one chunk and one trailer line, followed by other bytes. -/
theorem chunked_grammar_exact_trailer :
    ∃ o : Outcome, drive 45 (fun _ => 8) new [] [ascii "1;a=\x22\x22\r\nx\r\n0\r\nT: v\r\n\r\nHTTP/1.1"] = some o ∧
      (o.verdict = .done ↔ ∃ pre body,
        pre <+: ascii "1;a=\x22\x22\r\nx\r\n0\r\nT: v\r\n\r\nHTTP/1.1" ∧ ChunkedBody pre body) := by
  obtain ⟨o, ho, hiff, -⟩ := chunked_grammar_exact
    (ascii "1;a=\x22\x22\r\nx\r\n0\r\nT: v\r\n\r\nHTTP/1.1")
    [ascii "1;a=\x22\x22\r\nx\r\n0\r\nT: v\r\n\r\nHTTP/1.1"] (by decide) (fun _ => 8) (by simp) 45
    (by decide)
  exact ⟨o, ho, hiff⟩

end ChunkedGrammar
end Xibalba
