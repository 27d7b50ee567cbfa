import Xibalba.Proto.Correctness.ChunkedSafety

/-!
# `Proto.Correctness.ChunkedBounds` — metadata a peer may send between body bytes

Size lines, extensions and trailers carry no payload. The budgets are there so that a peer cannot stream them forever
and keep a request occupied. `allowance` is what a decoder would still accept of them before it wants a body byte: a
metadata byte that is accepted uses it up, a body byte restores it.

Layout:
* `allowance`, and what one byte of a metadata reader does to it;
* one call of `decode`;
* `metadata_bounded`, for any calls.
-/

namespace Xibalba

namespace ChunkedDecoder

/-! ## The allowance -/

/-- The metadata that may stand between two body bytes: a terminator, a size line and an extension. -/
def CHUNK_METADATA : Nat := MAX_CHUNK_SIZE_DIGITS + MAX_CHUNK_EXTENSION + 4

/-- What the trailer section may still hold, where its line is empty. A charged byte pays for itself and for the LF
    behind it; one that is refused also pays for the CR LF its line may still end with. -/
def trailerRoom (d : ChunkedDecoder) : Nat := 3 * (MAX_TRAILER_SECTION - d.metadata.trailer) + 2

/-- The bytes a decoder accepts, at most, before the next body byte. -/
def allowance (d : ChunkedDecoder) : Nat :=
  match d.state with
  | .readingSize =>
    (MAX_CHUNK_SIZE_DIGITS - d.metadata.sizeDigits) + (MAX_CHUNK_EXTENSION - d.metadata.extension) + 2 + d.trailerRoom
  | .readingExtension => (MAX_CHUNK_EXTENSION - d.metadata.extension) + 2 + d.trailerRoom
  | .readingSizeLf => 1 + d.trailerRoom
  | .readingData => d.trailerRoom
  | .readingDataCr => CHUNK_METADATA + d.trailerRoom
  | .readingDataLf => CHUNK_METADATA - 1 + d.trailerRoom
  | .readingTrailer => if d.trailerLineEmpty then d.trailerRoom else d.trailerRoom + 2
  | .readingTrailerLf => if d.trailerLineEmpty then 1 else d.trailerRoom + 1
  | .done | .failed _ => 0

/-- The largest allowance there is. -/
def MAX_ALLOWANCE : Nat := CHUNK_METADATA + 3 * MAX_TRAILER_SECTION + 2

theorem trailerRoom_le (d : ChunkedDecoder) : d.trailerRoom ≤ 3 * MAX_TRAILER_SECTION + 2 := by
  unfold trailerRoom
  omega

theorem allowance_le (d : ChunkedDecoder) : d.allowance ≤ MAX_ALLOWANCE := by
  have hroom := d.trailerRoom_le
  have hmeta : CHUNK_METADATA = MAX_CHUNK_SIZE_DIGITS + MAX_CHUNK_EXTENSION + 4 := rfl
  unfold allowance MAX_ALLOWANCE
  cases d.state with
  | readingTrailer => dsimp only; split <;> omega
  | readingTrailerLf => dsimp only; split <;> omega
  | _ => dsimp only; omega

/-! ## One byte -/

/-- The bytes of the input that a step accepts. -/
def ByteStep.taken : ByteStep → Nat
  | .next | .advance | .emitAndContinue => 1
  | .yield _ | .unreachable => 0

/-- A step pays for what it accepts. -/
def Pays (d : ChunkedDecoder) (r : ChunkedDecoder × ByteStep) : Prop :=
  r.1.allowance + ByteStep.taken r.2 ≤ d.allowance

theorem advanceExtension_pays {d : ChunkedDecoder} (hs : d.state = .readingExtension) (b : UInt8) :
    Pays d (advanceExtension d b) := by
  unfold advanceExtension Pays
  split
  · -- the charge is made before the budget is looked at
    simp only [MetadataBudget.chargeExtension, decide_eq_true_eq]
    split
    · simp only [allowance, hs, trailerRoom, ByteStep.taken]
      omega
    · simp only [allowance, hs, trailerRoom, ByteStep.taken]
      omega
  · simp only [allowance, hs, trailerRoom, ByteStep.taken]
    omega
  · simp only [allowance, hs, ByteStep.taken]
    omega

theorem sizeByte_pays {d : ChunkedDecoder} (hs : d.state = .readingSize) (b : UInt8) : Pays d (sizeByte d b) := by
  unfold sizeByte
  split
  · unfold Pays
    simp only [MetadataBudget.chargeSizeDigit, Bool.not_eq_true', decide_eq_false_iff_not]
    split
    · simp only [allowance, hs, trailerRoom, ByteStep.taken]
      omega
    · split
      · simp only [allowance, hs, trailerRoom, ByteStep.taken]
        omega
      · simp only [allowance, hs, trailerRoom, ByteStep.taken]
        omega
  · split
    · split
      · simp only [Pays, allowance, hs, trailerRoom, ByteStep.taken]
        omega
      · -- the byte is the first of the extension
        have h := @advanceExtension_pays { d with state := .readingExtension, extPhase := .afterValue } rfl b
        refine Nat.le_trans h ?_
        simp only [allowance, hs, trailerRoom]
        omega
    · simp only [Pays, allowance, hs, ByteStep.taken]
      omega

theorem sizeLineByte_pays (d : ChunkedDecoder) (b : UInt8) : Pays d (sizeLineByte d b) := by
  unfold sizeLineByte
  split
  next hs => exact sizeByte_pays hs b
  next hs => exact advanceExtension_pays hs b
  next hs =>
    split
    · exact Nat.le_refl _
    · split
      · simp only [Pays, allowance, hs, trailerRoom, ByteStep.taken, MetadataBudget.resetExtension, if_pos]
        omega
      · simp only [Pays, allowance, hs, trailerRoom, ByteStep.taken]
        omega
  · exact Nat.le_refl _

theorem dataTerminatorByte_pays (d : ChunkedDecoder) (b : UInt8) : Pays d (dataTerminatorByte d b) := by
  unfold dataTerminatorByte
  split
  next hs =>
    split
    · exact Nat.le_refl _
    · simp only [Pays, allowance, hs, trailerRoom, ByteStep.taken, CHUNK_METADATA]
      omega
  next hs =>
    split
    · exact Nat.le_refl _
    · -- a new chunk: both of its budgets are whole
      simp only [Pays, allowance, hs, trailerRoom, ByteStep.taken, CHUNK_METADATA, MetadataBudget.resetExtension,
        MetadataBudget.resetSizeDigits]
      omega
  · exact Nat.le_refl _

theorem trailerByte_pays (d : ChunkedDecoder) (b : UInt8) : Pays d (trailerByte d b) := by
  unfold trailerByte
  split
  next hs =>
    split
    · simp only [Pays, allowance, hs, trailerRoom, ByteStep.taken]
      split <;> omega
    · simp only [MetadataBudget.chargeTrailer, Bool.not_eq_true', decide_eq_false_iff_not]
      split
      · simp only [Pays, allowance, hs, trailerRoom, ByteStep.taken]
        split <;> omega
      · -- a charge of one pays for this byte, and for three more where its line has ended
        have hcharged : ∀ d' : ChunkedDecoder, ∀ s : ByteStep, d'.trailerLineEmpty = false →
            d'.state = .readingTrailer ∨ d'.state = .readingTrailerLf →
            d'.metadata.trailer = d.metadata.trailer + 1 → Pays d (d', s) := by
          intro d' s hline hstate hcount
          have htaken : ByteStep.taken s ≤ 1 := by cases s <;> simp [ByteStep.taken]
          have hbefore : d.trailerRoom ≤ d.allowance := by
            simp only [allowance, hs]
            split <;> omega
          have hafter : d'.allowance ≤ 3 * (MAX_TRAILER_SECTION - (d.metadata.trailer + 1)) + 4 := by
            rcases hstate with hstate | hstate
            · simp [allowance, hstate, hline, trailerRoom, hcount]
            · simp [allowance, hstate, hline, trailerRoom, hcount]
          unfold trailerRoom at hbefore
          show d'.allowance + ByteStep.taken s ≤ d.allowance
          omega
        split
        · split
          · exact hcharged _ _ rfl (.inl hs) rfl
          · split
            · exact hcharged _ _ rfl (.inl hs) rfl
            · exact hcharged _ _ rfl (.inl hs) rfl
        · split
          · exact hcharged _ _ rfl (.inl hs) rfl
          · split
            · exact hcharged _ _ rfl (.inr rfl) rfl
            · exact hcharged _ _ rfl (.inl hs) rfl
  next hs =>
    split
    · exact Nat.le_refl _
    · split
      next hline =>
        simp only [Pays, allowance, hs, ByteStep.taken, hline, if_pos]
        omega
      next hline =>
        simp only [Pays, allowance, hs, trailerRoom, ByteStep.taken, hline]
        simp
  · exact Nat.le_refl _

/-- **One byte** in any metadata state. -/
theorem byte_pays (r : Reader) (d : ChunkedDecoder) (b : UInt8) : Pays d (r.byte d b) := by
  cases r with
  | sizeLine => exact sizeLineByte_pays d b
  | dataTerminator => exact dataTerminatorByte_pays d b
  | trailer => exact trailerByte_pays d b

/-! ## Calls -/

/-- The bytes of the input that a reader's loop accepts. -/
def Step.taken : Step → Nat
  | .advance n | .emitAndContinue n | .yield _ n => n
  | .unreachable => 0

theorem scan_pays (r : Reader) (i : Nat) (d : ChunkedDecoder) (input : Bytes) :
    (scan r.byte i d input).1.allowance + Step.taken (scan r.byte i d input).2 ≤ d.allowance + i := by
  induction input generalizing d i with
  | nil => exact Nat.le_refl _
  | cons b rest ih =>
      have hpays := byte_pays r d b
      unfold scan
      unfold Pays at hpays
      generalize r.byte d b = res at hpays
      obtain ⟨d', s⟩ := res
      cases s with
      | next =>
          have hrest := ih (i + 1) d'
          simp only [ByteStep.taken] at hpays
          dsimp only
          omega
      | advance | emitAndContinue | yield e | unreachable =>
          simp only [ByteStep.taken] at hpays
          simp only [Step.taken]
          omega

/-- A position of `decode`: what it stands at has been paid for, and so has what is accepted from here on. -/
def Settles (d : ChunkedDecoder) (inPos : Nat) (written : Bytes) (r : Decoded) : Prop :=
  r.decoder.allowance + r.consumed + (CHUNK_METADATA + 1) * written.length ≤
    d.allowance + inPos + (CHUNK_METADATA + 1) * r.written.length

theorem finish_settles (d : ChunkedDecoder) (inPos : Nat) (written : Bytes) :
    Settles d inPos written (finish d inPos written) := by
  unfold finish
  split
  · exact Nat.le_refl _
  · split
    · exact Nat.le_refl _
    · exact Nat.le_refl _

theorem deliver_settles {d d' : ChunkedDecoder} {inPos n : Nat} {written : Bytes} {e : ParseError}
    (h : d'.allowance + n ≤ d.allowance) : Settles d inPos written (deliver d' e (inPos + n) written) := by
  unfold deliver Settles
  split
  · -- a verdict that is held accepts nothing any more
    have hheld : ({ d' with state := .failed e } : ChunkedDecoder).allowance = 0 := rfl
    rw [hheld]
    dsimp only
    omega
  · dsimp only
    omega

theorem takeData_allowance {d : ChunkedDecoder} (hs : d.state = .readingData) {n : Nat} (hn : 0 < n) :
    (d.takeData n).allowance + n ≤ d.allowance + (CHUNK_METADATA + 1) * n := by
  have hle : CHUNK_METADATA ≤ CHUNK_METADATA * n := Nat.le_mul_of_pos_right _ hn
  have hafter : (d.takeData n).allowance ≤ CHUNK_METADATA + d.allowance := by
    by_cases hlast : d.remaining - n = 0
    · simp only [takeData, allowance, hs, hlast, if_pos]
      exact Nat.le_refl _
    · simp only [takeData, allowance, hs, hlast, if_neg, not_false_eq_true]
      exact Nat.le_add_left _ _
  rw [Nat.add_mul, Nat.one_mul]
  omega

/-- **The loop of `decode`.** -/
theorem decodeLoop_settles (outLen fuel : Nat) {d : ChunkedDecoder} (hi : Inv d) (input : Bytes) (inPos : Nat)
    (written : Bytes) : Settles d inPos written (decodeLoop outLen fuel d input inPos written) := by
  induction fuel generalizing d input inPos written with
  | zero => exact finish_settles d inPos written
  | succ fuel ih =>
      unfold decodeLoop
      split
      · exact finish_settles d inPos written
      next hcons =>
        -- one more turn, behind what a reader accepted
        have hnext : ∀ {d' : ChunkedDecoder} {n : Nat}, Inv d' → d'.allowance + n ≤ d.allowance →
            Settles d inPos written (decodeLoop outLen fuel d' (input.drop n) (inPos + n) written) := by
          intro d' n hi' hle
          have h := ih hi' (input.drop n) (inPos + n) written
          unfold Settles at h ⊢
          omega
        have hscan : ∀ {r : Reader}, readerOf d.state = some r → Scanned r 0 d input (scan r.byte 0 d input) ∧
            (scan r.byte 0 d input).1.allowance + Step.taken (scan r.byte 0 d input).2 ≤ d.allowance :=
          fun hr => ⟨scan_result hr hi 0 input, scan_pays _ 0 d input⟩
        cases hs : d.state with
        | readingSize | readingExtension | readingSizeLf =>
            have h := @hscan .sizeLine (by rw [hs]; rfl)
            simp only [readSizeLine]
            simp only [Reader.byte] at h
            generalize scan sizeLineByte 0 d input = res at h ⊢
            obtain ⟨hres, hpays⟩ := h
            cases hres with
            | advance k hk hpos h' hi' => exact hnext hi' hpays
            | emit k _ hk hpos h' hi' =>
                dsimp only
                split
                · unfold Settles
                  simp only [Step.taken] at hpays
                  dsimp only
                  omega
                · exact hnext hi' hpays
            | yield k hk he href => exact deliver_settles hpays
        | readingDataCr | readingDataLf =>
            have h := @hscan .dataTerminator (by rw [hs]; rfl)
            simp only [readDataTerminator]
            simp only [Reader.byte] at h
            generalize scan dataTerminatorByte 0 d input = res at h ⊢
            obtain ⟨hres, hpays⟩ := h
            cases hres with
            | advance k hk hpos h' hi' => exact hnext hi' hpays
            | emit k hr => cases hr
            | yield k hk he href => exact deliver_settles hpays
        | readingTrailer | readingTrailerLf =>
            have h := @hscan .trailer (by rw [hs]; rfl)
            simp only [readTrailer]
            simp only [Reader.byte] at h
            generalize scan trailerByte 0 d input = res at h ⊢
            obtain ⟨hres, hpays⟩ := h
            cases hres with
            | advance k hk hpos h' hi' => exact hnext hi' hpays
            | emit k hr => cases hr
            | yield k hk he href => exact deliver_settles hpays
        | readingData =>
            by_cases hroom : 0 < outLen - written.length
            · have hin : input ≠ [] := fun h => hcons (List.isEmpty_iff.mpr h)
              obtain ⟨n, hpos, hn, heq, -⟩ := readData_result hs hi hin hroom
              have hdata := takeData_allowance hs hpos
              have h := ih (inv_takeData hs n) (input.drop n) (inPos + n) (written ++ input.take n)
              simp only [heq]
              unfold Settles at h ⊢
              rw [List.length_append, List.length_take, Nat.min_eq_left hn, Nat.mul_add] at h
              omega
            · have hfull : d.readData input (outLen - written.length) = (d, .bufferFull) := by
                unfold readData
                rw [if_pos (by omega)]
              simp only [hfull]
              exact Nat.le_refl _
        | done => exact finish_settles d inPos written
        | failed e => exact absurd hs (hi.live e)

/-- One call, on a decoder that keeps its invariant or holds a verdict. -/
theorem decode_allowance {d : ChunkedDecoder} (hd : Inv d ∨ ∃ e, d.state = .failed e) (input : Bytes) (outLen : Nat) :
    (d.decode input outLen).decoder.allowance + (d.decode input outLen).consumed ≤
      d.allowance + (CHUNK_METADATA + 1) * (d.decode input outLen).written.length := by
  rcases hd with hi | ⟨e, he⟩
  · have h := decodeLoop_settles outLen (2 * input.length + 1) hi input 0 []
    have heq : d.decode input outLen = decodeLoop outLen (2 * input.length + 1) d input 0 [] := by
      unfold decode
      split
      next e hs => exact absurd hs (hi.live e)
      · rfl
    rw [heq]
    exact h
  · rw [decode_failed he]
    exact Nat.le_refl _

/-- The bytes these calls consume. -/
def drawn (d : ChunkedDecoder) : List (Bytes × Nat) → Nat
  | [] => 0
  | (input, outLen) :: calls => (d.decode input outLen).consumed + (d.decode input outLen).decoder.drawn calls

/-- The body bytes they deliver. -/
def emitted (d : ChunkedDecoder) : List (Bytes × Nat) → Bytes
  | [] => []
  | (input, outLen) :: calls => (d.decode input outLen).written ++ (d.decode input outLen).decoder.emitted calls

theorem afterCalls_allowance (calls : List (Bytes × Nat)) {d : ChunkedDecoder} (hd : Inv d ∨ ∃ e, d.state = .failed e) :
    (d.afterCalls calls).allowance + d.drawn calls ≤ d.allowance + (CHUNK_METADATA + 1) * (d.emitted calls).length := by
  induction calls generalizing d with
  | nil => exact Nat.le_refl _
  | cons call calls ih =>
      obtain ⟨input, outLen⟩ := call
      have hone := decode_allowance hd input outLen
      have hrest := ih (afterCalls_inv [(input, outLen)] hd)
      have hlen : (d.emitted ((input, outLen) :: calls)).length =
          (d.decode input outLen).written.length + ((d.decode input outLen).decoder.emitted calls).length :=
        List.length_append
      have hdrawn : d.drawn ((input, outLen) :: calls) =
          (d.decode input outLen).consumed + (d.decode input outLen).decoder.drawn calls := rfl
      have hafter : d.afterCalls ((input, outLen) :: calls) = (d.decode input outLen).decoder.afterCalls calls := rfl
      rw [hlen, hdrawn, hafter, Nat.mul_add]
      have hsame : d.afterCalls [(input, outLen)] = (d.decode input outLen).decoder := rfl
      rw [hsame] at hrest
      omega

/-- **Metadata is bounded.** After any calls, any further calls consume no more than a fixed amount for each body byte
    they deliver and a fixed amount besides: however a peer goes on, it makes the decoder deliver a body byte, finish or
    fail. -/
theorem metadata_bounded (before calls : List (Bytes × Nat)) :
    (new.afterCalls before).drawn calls ≤
      MAX_ALLOWANCE + (CHUNK_METADATA + 1) * ((new.afterCalls before).emitted calls).length := by
  have h := afterCalls_allowance calls (afterCalls_inv before (.inl inv_new))
  have hmax := (new.afterCalls before).allowance_le
  omega

end ChunkedDecoder

end Xibalba
