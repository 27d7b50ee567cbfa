import Xibalba.Proto.Chunked

/-!
# `Proto.Correctness.ChunkedRun` — the decoder as a byte machine, and split invariance

`decode` is called with whatever a socket read happened to deliver and with whatever output buffer the
caller has. This module fixes one reference, `run`, which feeds a decoder one byte at a time and never
stops early, and proves that every call of `decode` is a stretch of that run (`decode_spec`). Any two ways
of driving a decoder over one byte string therefore end in the same place (`chunked_split_invariant`).

Layout:
* the reference machine `run` and the relation `Advances` between a stretch of input and the decoder state
  it leads to;
* the decoder invariant `Inv` and its one-byte preservation lemma;
* `scan_result` for the metadata readers, `readData_result` for body bytes, `decodeLoop_stretch` for the
  loop;
* `drive`, the caller's loop, and the theorem about it.
-/

namespace Xibalba
/-! A budget that is spent stays spent. -/

theorem MetadataBudget.chargeSizeDigit_over {m : MetadataBudget} (h : m.chargeSizeDigit.2 = false) :
    m.chargeSizeDigit.1.chargeSizeDigit.2 = false := by
  have hover : ¬ m.sizeDigits + 1 ≤ MAX_CHUNK_SIZE_DIGITS := of_decide_eq_false h
  exact decide_eq_false (show ¬ m.sizeDigits + 1 + 1 ≤ MAX_CHUNK_SIZE_DIGITS by omega)

theorem MetadataBudget.chargeExtension_over {m : MetadataBudget} (h : m.chargeExtension.2 = false) :
    m.chargeExtension.1.chargeExtension.2 = false := by
  have hover : ¬ m.extension + 1 ≤ MAX_CHUNK_EXTENSION := of_decide_eq_false h
  exact decide_eq_false (show ¬ m.extension + 1 + 1 ≤ MAX_CHUNK_EXTENSION by omega)

theorem MetadataBudget.chargeTrailer_over {m : MetadataBudget} (h : m.chargeTrailer.2 = false) :
    m.chargeTrailer.1.chargeTrailer.2 = false := by
  have hover : ¬ m.trailer + 1 ≤ MAX_TRAILER_SECTION := of_decide_eq_false h
  exact decide_eq_false (show ¬ m.trailer + 1 + 1 ≤ MAX_TRAILER_SECTION by omega)

namespace ChunkedDecoder

/-! ## The reference machine -/

/-- How a run over some input ended. -/
inductive Verdict where
  | done
  | error (e : ParseError)
  | wanting
  | panicked
deriving DecidableEq, Repr

/-- What a run delivers: the body bytes, the verdict, and how much input it consumed. -/
structure Outcome where
  body : Bytes
  verdict : Verdict
  consumed : Nat
deriving DecidableEq, Repr

/-- The outcome of a run whose first stretch consumed `n` bytes and emitted `out`. -/
def Outcome.after (o : Outcome) (out : Bytes) (n : Nat) : Outcome :=
  ⟨out ++ o.body, o.verdict, n + o.consumed⟩

@[simp] theorem Outcome.after_nil_zero (o : Outcome) : o.after [] 0 = o := by
  simp [Outcome.after]

@[simp] theorem Outcome.after_after (o : Outcome) (out₁ out₂ : Bytes) (n₁ n₂ : Nat) :
    (o.after out₂ n₂).after out₁ n₁ = o.after (out₁ ++ out₂) (n₁ + n₂) := by
  simp [Outcome.after, Nat.add_assoc]

/-- The three metadata readers of `decode`. -/
inductive Reader where
  | sizeLine
  | dataTerminator
  | trailer
deriving DecidableEq, Repr

/-- The loop body of each reader. -/
def Reader.byte : Reader → ChunkedDecoder → UInt8 → ChunkedDecoder × ByteStep
  | .sizeLine => sizeLineByte
  | .dataTerminator => dataTerminatorByte
  | .trailer => trailerByte

/-- The reader `decode` calls in a state, if the state is a metadata state. -/
def readerOf : ChunkedState → Option Reader
  | .readingSize | .readingExtension | .readingSizeLf => some .sizeLine
  | .readingDataCr | .readingDataLf => some .dataTerminator
  | .readingTrailer | .readingTrailerLf => some .trailer
  | .readingData | .done | .failed _ => none

/-- The decoder after `n` body bytes have been copied out of the current chunk. -/
def takeData (d : ChunkedDecoder) (n : Nat) : ChunkedDecoder :=
  { d with remaining := d.remaining - n,
           state := if d.remaining - n = 0 then .readingDataCr else d.state }

/-- **The reference run.** One byte at a time, emitting each body byte as it is read. -/
def run : ChunkedDecoder → Bytes → Outcome
  | d, [] => ⟨[], if d.isDone then .done else .wanting, 0⟩
  | d, b :: rest =>
    match readerOf d.state with
    | some r =>
      match r.byte d b with
      | (_, .yield e) => ⟨[], .error e, 0⟩
      | (_, .unreachable) => ⟨[], .panicked, 0⟩
      | (d', _) => (run d' rest).after [] 1
    | none =>
      match d.state with
      | .failed e => ⟨[], .error e, 0⟩
      | .readingData => (run (d.takeData 1) rest).after [b] 1
      | _ => ⟨[], .done, 0⟩

/-- The bytes `xs` take decoder `d` to `d'` and emit `out`, whatever follows them. -/
def Advances (d : ChunkedDecoder) (xs out : Bytes) (d' : ChunkedDecoder) : Prop :=
  ∀ rest, run d (xs ++ rest) = (run d' rest).after out xs.length

theorem Advances.refl (d : ChunkedDecoder) : Advances d [] [] d := by
  intro rest; simp

theorem Advances.trans {d₁ d₂ d₃ : ChunkedDecoder} {xs ys out₁ out₂ : Bytes}
    (h₁ : Advances d₁ xs out₁ d₂) (h₂ : Advances d₂ ys out₂ d₃) :
    Advances d₁ (xs ++ ys) (out₁ ++ out₂) d₃ := by
  intro rest
  rw [List.append_assoc, h₁ (ys ++ rest), h₂ rest, Outcome.after_after, List.length_append]

/-- A decoder that is done stays done and consumes nothing more. -/
theorem run_done {d : ChunkedDecoder} (h : d.state = .done) (xs : Bytes) :
    run d xs = ⟨[], .done, 0⟩ := by
  cases xs with
  | nil => simp [run, isDone, h]
  | cons b rest => simp [run, readerOf, h]

/-- A deferred verdict is reported on the next byte. -/
theorem run_failed {d : ChunkedDecoder} {e : ParseError} (h : d.state = .failed e) {xs : Bytes}
    (hx : xs ≠ []) : run d xs = ⟨[], .error e, 0⟩ := by
  cases xs with
  | nil => exact absurd rfl hx
  | cons b rest => simp [run, readerOf, h]

/-! ## The decoder invariant -/

/-- **The decoder invariant.** No verdict is pending; the size line has been copied into `remaining` once
    its CR is read; a chunk being read has bytes left. -/
structure Inv (d : ChunkedDecoder) : Prop where
  live : ∀ e, d.state ≠ .failed e
  sizeLf : d.state = .readingSizeLf → d.remaining = d.chunkSize
  data : d.state = .readingData → 0 < d.remaining

theorem inv_new : Inv new := by
  constructor <;> simp [new]

/-- Everything one byte of a metadata reader can do. -/
inductive ByteResult (r : Reader) : ChunkedDecoder × ByteStep → Prop where
  | next {d : ChunkedDecoder} : readerOf d.state = some r → Inv d → ByteResult r (d, .next)
  | advance {d : ChunkedDecoder} : Inv d → ByteResult r (d, .advance)
  | emit {d : ChunkedDecoder} : r = .sizeLine → Inv d → ByteResult r (d, .emitAndContinue)
  | yield {d : ChunkedDecoder} {e : ParseError} : ByteResult r (d, .yield e)

theorem advanceExtension_result {d : ChunkedDecoder} (h : d.state = .readingExtension) (b : UInt8) :
    ByteResult .sizeLine (advanceExtension d b) := by
  unfold advanceExtension
  split
  · dsimp only
    split
    · exact .next (by simp [readerOf, h]) ⟨by simp [h], by simp [h], by simp [h]⟩
    · exact .yield
  · exact .next rfl ⟨by simp, by simp, by simp⟩
  · exact .yield

theorem sizeByte_result {d : ChunkedDecoder} (h : d.state = .readingSize) (b : UInt8) :
    ByteResult .sizeLine (sizeByte d b) := by
  unfold sizeByte
  split
  · dsimp only
    split
    · exact .yield
    · split
      · exact .next (by simp [readerOf, h]) ⟨by simp [h], by simp [h], by simp [h]⟩
      · exact .yield
  · split
    · split
      · exact .next rfl ⟨by simp, by simp, by simp⟩
      · exact advanceExtension_result rfl b
    · exact .yield

theorem sizeLineByte_result {d : ChunkedDecoder} (hr : readerOf d.state = some .sizeLine) (hi : Inv d)
    (b : UInt8) : ByteResult .sizeLine (sizeLineByte d b) := by
  unfold sizeLineByte
  split
  next hs => exact sizeByte_result hs b
  next hs => exact advanceExtension_result hs b
  next hs =>
    split
    · exact .yield
    · split
      · exact .advance ⟨by simp, by simp, by simp⟩
      next hz =>
        -- the only way into `readingData`: the chunk is not empty, and all of it remains
        have hrem := hi.sizeLf hs
        exact .emit rfl ⟨by simp, by simp, fun _ => by simp only; omega⟩
  next h₁ h₂ h₃ =>
    cases hs : d.state <;> simp_all [readerOf]

theorem dataTerminatorByte_result {d : ChunkedDecoder} (hr : readerOf d.state = some .dataTerminator)
    (b : UInt8) : ByteResult .dataTerminator (dataTerminatorByte d b) := by
  unfold dataTerminatorByte
  split
  · split
    · exact .yield
    · exact .next rfl ⟨by simp, by simp, by simp⟩
  · split
    · exact .yield
    · exact .advance ⟨by simp, by simp, by simp⟩
  next h₁ h₂ =>
    cases hs : d.state <;> simp_all [readerOf]

theorem trailerByte_result {d : ChunkedDecoder} (hr : readerOf d.state = some .trailer) (b : UInt8) :
    ByteResult .trailer (trailerByte d b) := by
  unfold trailerByte
  split
  next hs =>
    split
    · exact .next rfl ⟨by simp, by simp, by simp⟩
    · dsimp only
      split
      · exact .yield
      · split
        · split
          · exact .next (by simp [readerOf, hs]) ⟨by simp [hs], by simp [hs], by simp [hs]⟩
          · split
            · exact .next (by simp [readerOf, hs]) ⟨by simp [hs], by simp [hs], by simp [hs]⟩
            · exact .yield
        · split
          · exact .next (by simp [readerOf, hs]) ⟨by simp [hs], by simp [hs], by simp [hs]⟩
          · split
            · exact .next rfl ⟨by simp, by simp, by simp⟩
            · exact .yield
  · split
    · exact .yield
    · split
      · exact .advance ⟨by simp, by simp, by simp⟩
      · exact .next rfl ⟨by simp, by simp, by simp⟩
  next h₁ h₂ =>
    cases hs : d.state <;> simp_all [readerOf]

/-- One byte in any metadata state. -/
theorem byte_result {d : ChunkedDecoder} {r : Reader} (hr : readerOf d.state = some r) (hi : Inv d)
    (b : UInt8) : ByteResult r (r.byte d b) := by
  cases r with
  | sizeLine => exact sizeLineByte_result hr hi b
  | dataTerminator => exact dataTerminatorByte_result hr b
  | trailer => exact trailerByte_result hr b

/-- A metadata byte that is accepted advances the run by that byte. -/
theorem advances_byte {d d' : ChunkedDecoder} {r : Reader} {b : UInt8} {s : ByteStep}
    (hr : readerOf d.state = some r) (h : r.byte d b = (d', s)) (hs : ∀ e, s ≠ .yield e)
    (hu : s ≠ .unreachable) : Advances d [b] [] d' := by
  intro rest
  simp only [List.singleton_append, run, hr, h, List.length_singleton]

/-- A metadata byte that is refused ends the run with the error, consuming nothing. -/
theorem run_byte_yield {d d' : ChunkedDecoder} {r : Reader} {b : UInt8} {e : ParseError}
    (hr : readerOf d.state = some r) (h : r.byte d b = (d', .yield e)) (rest : Bytes) :
    run d (b :: rest) = ⟨[], .error e, 0⟩ := by
  simp only [run, hr, h]

theorem inv_takeData {d : ChunkedDecoder} (hs : d.state = .readingData) (n : Nat) :
    Inv (d.takeData n) := by
  constructor
  · intro e
    simp only [takeData, hs]
    split <;> simp
  · simp only [takeData, hs]
    split <;> simp
  · simp only [takeData, hs]
    split
    · simp
    · intro _; omega

/-- A run from a decoder that keeps the invariant never meets an `unreachable!()`. -/
theorem run_not_panicked {d : ChunkedDecoder} (hi : Inv d) (xs : Bytes) :
    (run d xs).verdict ≠ .panicked := by
  induction xs generalizing d with
  | nil =>
      unfold run
      split <;> simp
  | cons b rest ih =>
      unfold run
      split
      next r hr =>
        have hb := byte_result hr hi b
        generalize r.byte d b = res at hb
        cases hb with
        | next _ hi' => exact ih hi'
        | advance hi' => exact ih hi'
        | emit _ hi' => exact ih hi'
        | yield => simp
      · split
        · simp
        next hs => exact ih (inv_takeData hs 1)
        · simp

/-! ## A refused byte is refused again

Refusing a byte may charge a budget or move the extension phase, but the decoder left behind refuses the same
byte with the same error: a caller that presents what it could not get consumed gets the same answer. -/

/-- Only CR ends an extension, and CR never continues one. -/
theorem stepExtension_cr (p : ExtPhase) {b : UInt8} :
    (stepExtension p b = .endOfLine → b = 0x0d) ∧ ∀ q, stepExtension p b = .continue q → b ≠ 0x0d := by
  constructor
  · intro h
    by_contra hb
    cases p <;> simp [stepExtension, hb] at h <;> repeat' split at h
    all_goals cases h
  · rintro q h rfl
    have hcr : Tchar.isValid 0x0d = false := by decide
    cases p <;> simp [stepExtension, isBws, isMetadataByte, hcr] at h

theorem advanceExtension_again {d d' : ChunkedDecoder} {b : UInt8} {e : ParseError}
    (h : advanceExtension d b = (d', .yield e)) :
    d'.state = d.state ∧ (advanceExtension d' b).2 = .yield e := by
  unfold advanceExtension at h
  split at h
  next phase hstep =>
    dsimp only at h
    split at h
    · cases h
    next hover =>
      cases h
      refine ⟨rfl, ?_⟩
      have hb := (stepExtension_cr d.extPhase).2 phase hstep
      unfold advanceExtension
      split
      · dsimp only
        rw [if_neg]
        simp [MetadataBudget.chargeExtension_over (by simpa using hover)]
      next hend => exact absurd ((stepExtension_cr _).1 hend) hb
      · rfl
  · cases h
  next hstep =>
    cases h
    refine ⟨rfl, ?_⟩
    unfold advanceExtension
    rw [hstep]

/-- The reader's byte `b` is refused with `e`, and the decoder left behind refuses it again. -/
theorem sizeLineByte_again {d d' : ChunkedDecoder} {b : UInt8} {e : ParseError}
    (hr : readerOf d.state = some .sizeLine) (h : sizeLineByte d b = (d', .yield e)) :
    readerOf d'.state = some .sizeLine ∧ (sizeLineByte d' b).2 = .yield e := by
  -- one case for each way a byte of a size line is refused
  unfold sizeLineByte at h
  split at h
  next hs =>
    unfold sizeByte at h
    split at h
    next digit hdigit =>
      dsimp only at h
      split at h
      next hover =>
        cases h
        refine ⟨by simp [hs, readerOf], ?_⟩
        simp only [sizeLineByte, hs, sizeByte, hdigit]
        rw [if_pos]
        simp [MetadataBudget.chargeSizeDigit_over (by simpa using hover)]
      · split at h
        · cases h
        next hbig =>
          cases h
          refine ⟨by simp [hs, readerOf], ?_⟩
          simp only [sizeLineByte, hs, sizeByte, hdigit]
          split
          · rfl
          · rfl
    next hdigit =>
      split at h
      · split at h
        · cases h
        · obtain ⟨hst, hagain⟩ := advanceExtension_again h
          dsimp only at hst
          refine ⟨by simp [hst, readerOf], ?_⟩
          simp only [sizeLineByte, hst]
          exact hagain
      next hend =>
        cases h
        refine ⟨hr, ?_⟩
        simp only [sizeLineByte, hs, sizeByte, hdigit]
        rw [if_neg hend]
  next hs =>
    obtain ⟨hst, hagain⟩ := advanceExtension_again h
    refine ⟨by simp [hst, hs, readerOf], ?_⟩
    simp only [sizeLineByte, hst, hs]
    exact hagain
  next hs =>
    split at h
    next hb =>
      cases h
      refine ⟨hr, ?_⟩
      simp only [sizeLineByte, hs]
      rw [if_pos hb]
    · split at h <;> cases h
  · cases h

theorem dataTerminatorByte_again {d d' : ChunkedDecoder} {b : UInt8} {e : ParseError}
    (h : dataTerminatorByte d b = (d', .yield e)) : d' = d := by
  unfold dataTerminatorByte at h
  split at h
  · split at h <;> cases h
    rfl
  · split at h <;> cases h
    rfl
  · cases h

theorem trailerByte_again {d d' : ChunkedDecoder} {b : UInt8} {e : ParseError}
    (hr : readerOf d.state = some .trailer) (h : trailerByte d b = (d', .yield e)) :
    readerOf d'.state = some .trailer ∧ (trailerByte d' b).2 = .yield e := by
  unfold trailerByte at h
  split at h
  next hs =>
    split at h
    · cases h
    next hend =>
      dsimp only at h
      split at h
      next hover =>
        cases h
        refine ⟨by simp [hs, readerOf], ?_⟩
        simp only [trailerByte, hs]
        rw [if_neg hend, if_pos]
        simp [MetadataBudget.chargeTrailer_over (by simpa using hover)]
      · -- whether the budget holds once more or not, the error is the same
        split at h
        next hphase =>
          split at h
          · cases h
          next hcolon =>
            split at h
            · cases h
            next hchar =>
              cases h
              refine ⟨by simp [hs, readerOf], ?_⟩
              simp only [trailerByte, hs]
              rw [if_neg hend]
              split
              · rfl
              · simp only [hphase]
        next hphase =>
          split at h
          · cases h
          next hmeta =>
            split at h
            · cases h
            next hcr =>
              cases h
              refine ⟨by simp [hs, readerOf], ?_⟩
              simp only [trailerByte, hs]
              rw [if_neg hend]
              split
              · rfl
              · simp only [hphase]
  next hs =>
    split at h
    next hb =>
      cases h
      refine ⟨hr, ?_⟩
      simp only [trailerByte, hs]
      rw [if_pos hb]
    · split at h <;> cases h
  · cases h

/-- The decoder refuses the first byte of `xs`. -/
def Refuses (d : ChunkedDecoder) (xs : Bytes) (e : ParseError) : Prop :=
  ∃ r b rest, xs = b :: rest ∧ readerOf d.state = some r ∧ (r.byte d b).2 = .yield e

theorem refuses_again {d d' : ChunkedDecoder} {r : Reader} {b : UInt8} {e : ParseError}
    (hr : readerOf d.state = some r) (h : r.byte d b = (d', .yield e)) (rest : Bytes) :
    Refuses d' (b :: rest) e := by
  cases r with
  | sizeLine =>
      obtain ⟨hr', hagain⟩ := sizeLineByte_again hr h
      exact ⟨.sizeLine, b, rest, rfl, hr', hagain⟩
  | dataTerminator =>
      obtain rfl := dataTerminatorByte_again h
      exact ⟨.dataTerminator, b, rest, rfl, hr, by rw [h]⟩
  | trailer =>
      obtain ⟨hr', hagain⟩ := trailerByte_again hr h
      exact ⟨.trailer, b, rest, rfl, hr', hagain⟩

/-! ## The readers are stretches of the run -/

/-- What a reader's loop over `input` reports: `k` counts the bytes of `input` it accepted. -/
inductive Scanned (r : Reader) (i : Nat) (d : ChunkedDecoder) (input : Bytes) :
    ChunkedDecoder × Step → Prop where
  | advance {d' : ChunkedDecoder} (k : Nat) : k ≤ input.length → (input ≠ [] → 0 < k) →
      Advances d (input.take k) [] d' → Inv d' → Scanned r i d input (d', .advance (i + k))
  | emit {d' : ChunkedDecoder} (k : Nat) : r = .sizeLine → k ≤ input.length → 0 < k →
      Advances d (input.take k) [] d' → Inv d' → Scanned r i d input (d', .emitAndContinue (i + k))
  | yield {d' : ChunkedDecoder} {e : ParseError} (k : Nat) : k < input.length →
      (∀ rest, run d (input ++ rest) = ⟨[], .error e, k⟩) → Refuses d' (input.drop k) e →
      Scanned r i d input (d', .yield e (i + k))

/-- A byte in front of a scanned stretch. -/
theorem Scanned.cons {r : Reader} {i : Nat} {d d₁ : ChunkedDecoder} {b : UInt8} {rest : Bytes}
    {res : ChunkedDecoder × Step} (hadv : Advances d [b] [] d₁) (h : Scanned r (i + 1) d₁ rest res) :
    Scanned r i d (b :: rest) res := by
  cases h with
  | advance k hk _ h' hi =>
      rw [show i + 1 + k = i + (k + 1) by omega]
      refine .advance (k + 1) (by simpa using hk) (fun _ => by omega) ?_ hi
      simpa using hadv.trans h'
  | emit k hr hk _ h' hi =>
      rw [show i + 1 + k = i + (k + 1) by omega]
      refine .emit (k + 1) hr (by simpa using hk) (by omega) ?_ hi
      simpa using hadv.trans h'
  | yield k hk h' href =>
      rw [show i + 1 + k = i + (k + 1) by omega]
      refine .yield (k + 1) (by simpa using hk) ?_ href
      intro tail
      have := hadv (rest ++ tail)
      rw [h' tail] at this
      simpa [Outcome.after, Nat.add_comm] using this

theorem scan_result {r : Reader} {d : ChunkedDecoder} (hr : readerOf d.state = some r) (hi : Inv d)
    (i : Nat) (input : Bytes) : Scanned r i d input (scan r.byte i d input) := by
  induction input generalizing d i with
  | nil => exact .advance 0 (by simp) (by simp) (by simpa using Advances.refl d) hi
  | cons b rest ih =>
      have hb := byte_result hr hi b
      generalize hres : r.byte d b = res at hb
      unfold scan
      rw [hres]
      cases hb with
      | next hr' hi' => exact (ih hr' hi' (i + 1)).cons (advances_byte hr hres (by simp) (by simp))
      | advance hi' =>
          have hadv := advances_byte hr hres (by simp) (by simp)
          exact .advance 1 (by simp) (by simp) (by simpa using hadv) hi'
      | emit hsz hi' =>
          have hadv := advances_byte hr hres (by simp) (by simp)
          exact .emit 1 hsz (by simp) (by simp) (by simpa using hadv) hi'
      | yield => exact .yield 0 (by simp) (run_byte_yield hr hres <| rest ++ ·) (refuses_again hr hres rest)

/-- Body bytes are copied one for one. -/
theorem advances_data {d : ChunkedDecoder} (hs : d.state = .readingData) (xs : Bytes)
    (hpos : 0 < xs.length) (hle : xs.length ≤ d.remaining) :
    Advances d xs xs (d.takeData xs.length) := by
  induction xs generalizing d with
  | nil => simp at hpos
  | cons b rest ih =>
      have hone : Advances d [b] [b] (d.takeData 1) := by
        intro tail
        simp [run, readerOf, hs]
      by_cases hrest : rest = []
      · subst hrest
        exact hone
      · -- bytes of this chunk remain, so the state is still `readingData`
        have hlen : 0 < rest.length := List.length_pos_iff.mpr hrest
        simp only [List.length_cons] at hle
        have hs' : (d.takeData 1).state = .readingData := by
          simp only [takeData, hs]
          rw [if_neg (by omega)]
        have htail := ih hs' hlen (by simp only [takeData]; omega)
        have hcomp : (d.takeData 1).takeData rest.length = d.takeData (rest.length + 1) := by
          simp only [takeData, Nat.sub_sub, Nat.add_comm 1]
          rw [if_neg (show ¬ d.remaining - 1 = 0 by omega)]
        rw [hcomp] at htail
        exact hone.trans htail

/-- With room and input, `read_data` copies at least one byte. -/
theorem readData_result {d : ChunkedDecoder} (hs : d.state = .readingData) (hi : Inv d) {input : Bytes}
    (hin : input ≠ []) {room : Nat} (hroom : 0 < room) :
    ∃ n, 0 < n ∧ n ≤ input.length ∧ d.readData input room = (d.takeData n, .copied n) ∧
      Advances d (input.take n) (input.take n) (d.takeData n) := by
  have hrem := hi.data hs
  have hlen : 0 < input.length := List.length_pos_iff.mpr hin
  refine ⟨min (min input.length room) d.remaining, by omega, by omega, ?_, ?_⟩
  · unfold readData
    rw [if_neg (by omega), if_neg (by omega)]
    simp only [takeData, hs]
    split <;> rfl
  · have htake : (input.take (min (min input.length room) d.remaining)).length
        = min (min input.length room) d.remaining := by
      rw [List.length_take]; omega
    have hadv := advances_data hs (input.take (min (min input.length room) d.remaining))
      (by omega) (by omega)
    rwa [htake] at hadv

/-! ## One call of `decode` is a stretch of the run -/

/-- What a call that was handed `input` reports, against the reference run. -/
inductive Stretch (d : ChunkedDecoder) (input : Bytes) : Decoded → Prop where
  | data {d' : ChunkedDecoder} {k : Nat} {out : Bytes} : 0 < out.length → 0 < k → k ≤ input.length →
      (Inv d' ∨ (∃ e, d'.state = .failed e) ∧ k < input.length) →
      (∀ rest, run d (input ++ rest) = (run d' (input.drop k ++ rest)).after out k) →
      Stretch d input ⟨d', .data out.length, k, out⟩
  | needMore {d' : ChunkedDecoder} : Inv d' → d'.isDone = false → Advances d input [] d' →
      Stretch d input ⟨d', .needMore, input.length, []⟩
  | done {d' : ChunkedDecoder} {k : Nat} : k ≤ input.length → d'.isDone = true →
      (∀ rest, run d (input ++ rest) = ⟨[], .done, k⟩) → Stretch d input ⟨d', .done, k, []⟩
  | error {d' : ChunkedDecoder} {e : ParseError} {k : Nat} : k < input.length →
      (∀ rest, run d (input ++ rest) = ⟨[], .error e, k⟩) → Refuses d' (input.drop k) e →
      Stretch d input ⟨d', .error e, k, []⟩

/-- A run that went through `pre` and now stands at `input`. -/
theorem run_after_pre {d₀ d : ChunkedDecoder} {pre written : Bytes} (h : Advances d₀ pre written d)
    (input rest : Bytes) :
    run d₀ (pre ++ input ++ rest) = (run d ((pre ++ input).drop pre.length ++ rest)).after written
      pre.length := by
  rw [List.append_assoc, h (input ++ rest), List.drop_left]

theorem deliver_stretch {d₀ d d' : ChunkedDecoder} {pre input written : Bytes} {e : ParseError} {k : Nat}
    (h : Advances d₀ pre written d) (hw : 0 < written.length → 0 < pre.length) (hk : k < input.length)
    (he : ∀ rest, run d (input ++ rest) = ⟨[], .error e, k⟩) (href : Refuses d' (input.drop k) e) :
    Stretch d₀ (pre ++ input) (deliver d' e (pre.length + k) written) := by
  have hrun : ∀ rest, run d₀ (pre ++ input ++ rest) = ⟨written, .error e, pre.length + k⟩ := by
    intro rest
    rw [List.append_assoc, h (input ++ rest), he rest]
    simp [Outcome.after]
  unfold deliver
  split
  next hpos =>
    -- the verdict is held: the byte it is about is still unconsumed, and the next call reports it
    have hpre := hw hpos
    have hlt : pre.length + k < (pre ++ input).length := by rw [List.length_append]; omega
    refine .data hpos (by omega) (by omega) (.inr ⟨⟨e, rfl⟩, hlt⟩) ?_
    intro rest
    have hne : (pre ++ input).drop (pre.length + k) ++ rest ≠ [] := by
      intro hnil
      have := congrArg List.length hnil
      simp only [List.length_append, List.length_drop, List.length_nil] at this hlt
      omega
    rw [run_failed rfl hne, hrun rest]
    simp [Outcome.after]
  next hpos =>
    obtain rfl : written = [] := List.length_eq_zero_iff.mp (by omega)
    refine .error (by rw [List.length_append]; omega) hrun ?_
    rwa [List.drop_append, List.drop_eq_nil_of_le (by omega), List.nil_append, Nat.add_sub_cancel_left]

theorem finish_stretch {d₀ d : ChunkedDecoder} {pre input written : Bytes} (h : Advances d₀ pre written d)
    (hw : 0 < written.length → 0 < pre.length) (hi : Inv d)
    (hend : input = [] ∨ d.isDone = true) :
    Stretch d₀ (pre ++ input) (finish d pre.length written) := by
  unfold finish
  split
  next hpos =>
    exact .data hpos (hw hpos) (by simp) (.inl hi) (run_after_pre h input)
  next hpos =>
    obtain rfl : written = [] := List.length_eq_zero_iff.mp (by omega)
    split
    next hd =>
      refine .done (by simp) hd ?_
      intro rest
      rw [run_after_pre h, run_done (by simpa [isDone] using hd)]
      simp [Outcome.after]
    next hd =>
      rcases hend with rfl | hend
      · have hn : Stretch d₀ pre ⟨d, .needMore, pre.length, []⟩ :=
          .needMore hi (by simpa using hd) h
        simpa using hn
      · exact absurd hend hd

/-- **The loop of `decode`.** From a position reached by `pre`, with more turns allowed than bytes left,
    the call ends in a stretch of the run that started before `pre`. -/
theorem decodeLoop_stretch {outLen : Nat} (hout : 0 < outLen) (fuel : Nat) {d₀ d : ChunkedDecoder}
    {pre input written : Bytes} (hadv : Advances d₀ pre written d)
    (hw : 0 < written.length → 0 < pre.length) (hi : Inv d) (hfuel : input.length < fuel) :
    Stretch d₀ (pre ++ input) (decodeLoop outLen fuel d input pre.length written) := by
  induction fuel generalizing d pre input written with
  | zero => omega
  | succ fuel ih =>
      unfold decodeLoop
      split
      next hnil => exact finish_stretch hadv hw hi (.inl (List.isEmpty_iff.mp hnil))
      next hcons =>
        have hin : input ≠ [] := fun h => hcons (List.isEmpty_iff.mpr h)
        -- one more turn from a later position of the same input
        have hnext : ∀ {d' : ChunkedDecoder} {k : Nat} {out : Bytes}, 0 < k → k ≤ input.length →
            Advances d (input.take k) out d' → Inv d' →
            Stretch d₀ (pre ++ input)
              (decodeLoop outLen fuel d' (input.drop k) (pre.length + k) (written ++ out)) := by
          intro d' k out hpos hk h' hi'
          have hlen : pre.length + k = (pre ++ input.take k).length := by
            rw [List.length_append, List.length_take]; omega
          rw [hlen, show pre ++ input = (pre ++ input.take k) ++ input.drop k by
            rw [List.append_assoc, List.take_append_drop]]
          refine ih (hadv.trans h') (fun _ => by omega) hi' ?_
          rw [List.length_drop]; omega
        -- a reader that stopped at a chunk boundary with bytes to hand over
        have hemit : ∀ {d' : ChunkedDecoder} {k : Nat}, 0 < k → k ≤ input.length →
            Advances d (input.take k) [] d' → Inv d' → 0 < written.length →
            Stretch d₀ (pre ++ input) ⟨d', .data written.length, pre.length + k, written⟩ := by
          intro d' k hpos hk h' hi' hlen
          refine .data hlen (by omega) (by rw [List.length_append]; omega) (.inl hi') ?_
          intro rest
          have hall := hadv.trans h' (input.drop k ++ rest)
          rw [List.append_nil, List.length_append, List.length_take, Nat.min_eq_left hk] at hall
          rw [List.drop_append, List.drop_eq_nil_of_le (by omega), List.nil_append,
            Nat.add_sub_cancel_left, ← hall]
          simp only [List.append_assoc]
          rw [← List.append_assoc (input.take k), List.take_append_drop]
        have hsize (hr : readerOf d.state = some .sizeLine) := scan_result hr hi 0 input
        have hterm (hr : readerOf d.state = some .dataTerminator) := scan_result hr hi 0 input
        have htrail (hr : readerOf d.state = some .trailer) := scan_result hr hi 0 input
        cases hs : d.state with
        | readingSize | readingExtension | readingSizeLf =>
            have hscan := hsize (by rw [hs]; rfl)
            simp only [readSizeLine]
            simp only [Reader.byte] at hscan
            generalize scan sizeLineByte 0 d input = res at hscan ⊢
            cases hscan with
            | advance k hk hpos h' hi' =>
                simpa using hnext (hpos hin) hk h' hi'
            | emit k _ hk hpos h' hi' =>
                simp only [Nat.zero_add]
                split
                next hlen => exact hemit hpos hk h' hi' hlen
                · simpa using hnext hpos hk h' hi'
            | yield k hk he href =>
                simpa using deliver_stretch hadv hw hk he href
        | readingDataCr | readingDataLf =>
            have hscan := hterm (by rw [hs]; rfl)
            simp only [readDataTerminator]
            simp only [Reader.byte] at hscan
            generalize scan dataTerminatorByte 0 d input = res at hscan ⊢
            cases hscan with
            | advance k hk hpos h' hi' => simpa using hnext (hpos hin) hk h' hi'
            | emit k hr => cases hr
            | yield k hk he href => simpa using deliver_stretch hadv hw hk he href
        | readingTrailer | readingTrailerLf =>
            have hscan := htrail (by rw [hs]; rfl)
            simp only [readTrailer]
            simp only [Reader.byte] at hscan
            generalize scan trailerByte 0 d input = res at hscan ⊢
            cases hscan with
            | advance k hk hpos h' hi' => simpa using hnext (hpos hin) hk h' hi'
            | emit k hr => cases hr
            | yield k hk he href => simpa using deliver_stretch hadv hw hk he href
        | readingData =>
            by_cases hroom : 0 < outLen - written.length
            · obtain ⟨n, hpos, hn, heq, h'⟩ := readData_result hs hi hin hroom
              simp only [heq]
              exact hnext hpos hn h' (inv_takeData hs n)
            · -- the output buffer is full
              have hfull : d.readData input (outLen - written.length) = (d, .bufferFull) := by
                unfold readData
                rw [if_pos (by omega)]
              have hlen : 0 < written.length := by omega
              simp only [hfull]
              exact .data hlen (hw hlen) (by simp) (.inl hi) (run_after_pre hadv input)
        | done => exact finish_stretch hadv hw hi (.inr (by simp [isDone, hs]))
        | failed e => exact absurd hs (hi.live e)

/-- **One call of `decode`.** A decoder with no verdict pending, handed any input and a non-empty buffer,
    reports a stretch of the reference run. -/
theorem decode_stretch {d : ChunkedDecoder} (hi : Inv d) (input : Bytes) {outLen : Nat}
    (hout : 0 < outLen) : Stretch d input (d.decode input outLen) := by
  have h : Stretch d ([] ++ input) (decodeLoop outLen (2 * input.length + 1) d input 0 []) :=
    decodeLoop_stretch hout (2 * input.length + 1) (Advances.refl d) (by simp) hi (by omega)
  unfold decode
  split
  next e hs => exact absurd hs (hi.live e)
  · exact h

/-- A decoder that refuses the byte in front of it reports the error, consumes nothing, and refuses it still. -/
theorem Refuses.decode {d : ChunkedDecoder} {xs : Bytes} {e : ParseError} (h : Refuses d xs e) (outLen : Nat) :
    ∃ d', d.decode xs outLen = ⟨d', .error e, 0, []⟩ ∧ Refuses d' xs e := by
  obtain ⟨r, b, rest, rfl, hr, hb⟩ := h
  rcases hres : r.byte d b with ⟨d', step⟩
  rw [hres] at hb
  dsimp only at hb
  subst hb
  refine ⟨d', ?_, refuses_again hr hres rest⟩
  have hscan : scan r.byte 0 d (b :: rest) = (d', .yield e 0) := by rw [scan, hres]
  rw [ChunkedDecoder.decode]
  cases r with
  | sizeLine =>
      simp only [Reader.byte] at hscan
      cases hs : d.state with
      | readingSize | readingExtension | readingSizeLf =>
          simp only [decodeLoop, hs, readSizeLine, hscan, List.isEmpty_cons]
          rfl
      | readingData | readingDataCr | readingDataLf | readingTrailer | readingTrailerLf | done =>
          rw [hs] at hr
          cases hr
      | failed e =>
          rw [hs] at hr
          cases hr
  | dataTerminator =>
      simp only [Reader.byte] at hscan
      cases hs : d.state with
      | readingDataCr | readingDataLf =>
          simp only [decodeLoop, hs, readDataTerminator, hscan, List.isEmpty_cons]
          rfl
      | readingSize | readingExtension | readingSizeLf | readingData | readingTrailer | readingTrailerLf | done =>
          rw [hs] at hr
          cases hr
      | failed e =>
          rw [hs] at hr
          cases hr
  | trailer =>
      simp only [Reader.byte] at hscan
      cases hs : d.state with
      | readingTrailer | readingTrailerLf =>
          simp only [decodeLoop, hs, readTrailer, hscan, List.isEmpty_cons]
          rfl
      | readingSize | readingExtension | readingSizeLf | readingData | readingDataCr | readingDataLf | done =>
          rw [hs] at hr
          cases hr
      | failed e =>
          rw [hs] at hr
          cases hr

/-! ## Driving a decoder -/

/-- **A caller's loop.** Each call is handed the bytes the last one left, in front of the next piece of
    `pieces`, and an output buffer of the next size in `outs`; it goes on until `Done`, `Error`, or all
    input is consumed. The outcome holds the bytes the `Data` results reported. -/
def drive : Nat → (Nat → Nat) → ChunkedDecoder → Bytes → List Bytes → Option Outcome
  | 0, _, _, _, _ => none
  | fuel + 1, outs, d, left, pieces =>
    if left = [] ∧ pieces = [] then some ⟨[], if d.isDone then .done else .wanting, 0⟩
    else
      let input := left ++ pieces.headD []
      let r := d.decode input (outs 0)
      let again := drive fuel (fun i => outs (i + 1)) r.decoder (input.drop r.consumed) pieces.tail
      match r.result with
      | .data n => again.map (·.after (r.written.take n) r.consumed)
      | .needMore => again.map (·.after [] r.consumed)
      | .done => some ⟨[], .done, r.consumed⟩
      | .error e => some ⟨[], .error e, r.consumed⟩
      | .panicked => some ⟨[], .panicked, r.consumed⟩

/-- A decoder a caller can hold: fresh, or left behind by calls none of which reported an error. -/
inductive Reached : ChunkedDecoder → Prop where
  | new : Reached new
  | call {d : ChunkedDecoder} {input : Bytes} {outLen : Nat} : Reached d → 0 < outLen →
      (∀ e, (d.decode input outLen).result ≠ .error e) → Reached (d.decode input outLen).decoder

theorem Reached.inv_or_failed {d : ChunkedDecoder} (h : Reached d) :
    Inv d ∨ ∃ e, d.state = .failed e := by
  induction h with
  | new => exact .inl inv_new
  | @call d input outLen _ hout herr ih =>
      rcases ih with hi | ⟨e, he⟩
      · have hst := decode_stretch hi input hout
        generalize hres : d.decode input outLen = res at hst herr
        cases hst with
        | data _ _ _ hinv _ =>
            rcases hinv with hinv | ⟨hfail, _⟩
            · exact .inl hinv
            · exact .inr hfail
        | needMore hinv _ _ => exact .inl hinv
        | @done d' k _ hd _ =>
            have hst : d'.state = .done := by simpa [isDone] using hd
            exact .inl ⟨by simp [hst], by simp [hst], by simp [hst]⟩
        | @error d' e k _ _ _ => exact absurd rfl (herr e)
      · exact absurd (by simp [decode, he]) (herr e)

/-- **Data first.** Whatever a call wrote into the buffer it reports as `Data` in that call, so an error
    is only ever reported by a call that has nothing to deliver. -/
theorem Reached.decode_written {d : ChunkedDecoder} (h : Reached d) (input : Bytes) {outLen : Nat}
    (hout : 0 < outLen) (hw : (d.decode input outLen).written ≠ []) :
    (d.decode input outLen).result = .data (d.decode input outLen).written.length := by
  rcases h.inv_or_failed with hi | ⟨e, he⟩
  · have hst := decode_stretch hi input hout
    generalize d.decode input outLen = res at hst hw
    cases hst with
    | data _ _ _ _ _ => rfl
    | needMore _ _ _ => exact absurd rfl hw
    | done _ _ _ => exact absurd rfl hw
    | error _ _ _ => exact absurd rfl hw
  · exact absurd (by simp [decode, he]) hw

/-- The measure the caller's loop decreases: a call takes a piece or consumes a byte. -/
theorem drive_eq_run (fuel : Nat) {outs : Nat → Nat} (hout : ∀ i, 0 < outs i) {d : ChunkedDecoder}
    {left : Bytes} {pieces : List Bytes} (hd : Inv d ∨ (∃ e, d.state = .failed e) ∧ left ≠ [])
    (hfuel : pieces.length + (left ++ pieces.flatten).length < fuel) :
    drive fuel outs d left pieces = some (run d (left ++ pieces.flatten)) := by
  induction fuel generalizing outs d left pieces with
  | zero => omega
  | succ fuel ih =>
      unfold drive
      split
      next hend =>
        obtain ⟨rfl, rfl⟩ := hend
        simp [run]
      next hmore =>
        -- `input` is what this call is handed, `tail` what it is not
        have hsplit : left ++ pieces.flatten = (left ++ pieces.headD []) ++ pieces.tail.flatten := by
          cases pieces <;> simp
        have htake : pieces.tail.length + (left ++ pieces.headD []).length
            + pieces.tail.flatten.length < fuel + 1 := by
          rw [hsplit, List.length_append] at hfuel
          rw [List.length_tail]; omega
        have hprog : left ++ pieces.headD [] ≠ [] ∨ pieces.tail.length < pieces.length := by
          cases pieces with
          | nil => exact .inl (by simpa using hmore)
          | cons p ps => exact .inr (by simp)
        rw [hsplit]
        generalize hinput : left ++ pieces.headD [] = input at *
        generalize htail : pieces.tail = tail at *
        dsimp only
        have hagain : ∀ {d' : ChunkedDecoder} {k : Nat}, k ≤ input.length →
            (Inv d' ∨ (∃ e, d'.state = .failed e) ∧ k < input.length) →
            (0 < k ∨ tail.length < pieces.length) →
            drive fuel (fun i => outs (i + 1)) d' (input.drop k) tail
              = some (run d' (input.drop k ++ tail.flatten)) := by
          intro d' k hk hd' hdec
          refine ih (fun i => hout (i + 1)) ?_ ?_
          · rcases hd' with hi' | ⟨hf, hlt⟩
            · exact .inl hi'
            · refine .inr ⟨hf, fun hnil => ?_⟩
              have := List.drop_eq_nil_iff.mp hnil
              omega
          · rw [List.length_append, List.length_drop]
            rw [hsplit, List.length_append] at hfuel
            omega
        rcases hd with hi | ⟨⟨e, he⟩, hne⟩
        · have hst := decode_stretch hi input (hout 0)
          generalize d.decode input (outs 0) = res at hst
          cases hst with
          | data hpos hk hle hinv hrun =>
              simp only [hagain hle hinv (.inl hk), Option.map_some, List.take_length, hrun]
          | needMore hinv _ hadv =>
              have hdec : 0 < input.length ∨ tail.length < pieces.length := by
                rcases hprog with h | h
                · exact .inl (List.length_pos_iff.mpr h)
                · exact .inr h
              simp only [hagain (Nat.le_refl _) (.inl hinv) hdec, Option.map_some]
              rw [hadv tail.flatten, List.drop_length, List.nil_append]
          | done hk _ hrun => simp only [hrun]
          | error _ hrun _ => simp only [hrun]
        · have hin : input ≠ [] := by
            rw [← hinput]
            simp [hne]
          have hdec : d.decode input (outs 0) = ⟨d, .error e, 0, []⟩ := by simp [decode, he]
          simp only [hdec]
          rw [run_failed he (by simp [hin])]

/-- **Split invariance.** Two ways of cutting one byte string into pieces and of sizing the output
    buffers deliver the same body, the same verdict and the same consumed count; neither panics; and
    what a call decodes before an error it delivers before the error is reported. -/
theorem chunked_split_invariant (bytes : Bytes) (pieces₁ pieces₂ : List Bytes)
    (h₁ : pieces₁.flatten = bytes) (h₂ : pieces₂.flatten = bytes) (outs₁ outs₂ : Nat → Nat)
    (hout₁ : ∀ i, 0 < outs₁ i) (hout₂ : ∀ i, 0 < outs₂ i) :
    (∃ o : Outcome, o.verdict ≠ .panicked ∧
      (∀ fuel, pieces₁.length + bytes.length < fuel → drive fuel outs₁ new [] pieces₁ = some o) ∧
      (∀ fuel, pieces₂.length + bytes.length < fuel → drive fuel outs₂ new [] pieces₂ = some o)) ∧
    ∀ d input outLen, Reached d → 0 < outLen → (d.decode input outLen).written ≠ [] →
      (d.decode input outLen).result = .data (d.decode input outLen).written.length := by
  refine ⟨⟨run new bytes, ?_, ?_, ?_⟩, fun d input outLen hd hout => hd.decode_written input hout⟩
  · exact run_not_panicked inv_new bytes
  · intro fuel hf
    rw [drive_eq_run fuel hout₁ (.inl inv_new) (by simpa [h₁] using hf), List.nil_append, h₁]
  · intro fuel hf
    rw [drive_eq_run fuel hout₂ (.inl inv_new) (by simpa [h₂] using hf), List.nil_append, h₂]

/-- The theorem at one chunk: presented whole with a wide buffer, and byte by byte with a buffer of one. -/
theorem chunked_split_invariant_one_chunk :
    ∃ o : Outcome, o.verdict ≠ .panicked ∧
      drive 15 (fun _ => 64) new [] [ascii "2\r\nok\r\n0\r\n\r\n"] = some o ∧
      drive 26 (fun _ => 1) new [] ((ascii "2\r\nok\r\n0\r\n\r\n").map fun b => [b]) = some o := by
  obtain ⟨⟨o, hp, ho₁, ho₂⟩, -⟩ := chunked_split_invariant (ascii "2\r\nok\r\n0\r\n\r\n")
    [ascii "2\r\nok\r\n0\r\n\r\n"] ((ascii "2\r\nok\r\n0\r\n\r\n").map fun b => [b])
    (by decide) (by decide) (fun _ => 64) (fun _ => 1) (by simp) (by simp)
  exact ⟨o, hp, ho₁ 15 (by decide), ho₂ 26 (by decide)⟩

end ChunkedDecoder
end Xibalba
