import Xibalba.Proto.Correctness.ChunkedRun

/-!
# `Proto.Correctness.ChunkedSafety` — any sequence of calls of `decode`

A caller may hand the decoder any input and any output buffer, an empty one included, and may call it again after it
reported an error. Whatever the calls were, the decoder keeps its invariant, a call stays within its buffers, and a call
that can make progress does.

An error is kept for later calls when body bytes were decoded in front of it, and is forgotten when there were none: the
decoder then goes on with the next input as if the malformed byte had not been there.

Layout:
* one byte keeps the invariant, also a byte that is refused;
* errors that stay: `error_sticky_iff`;
* `decode` with its slices and subtractions checked, and `decode_orderly`.
-/

namespace Xibalba

namespace ChunkedDecoder

/-- The decoder after these calls, each with its input and the size of its output buffer. -/
def afterCalls (d : ChunkedDecoder) (calls : List (Bytes × Nat)) : ChunkedDecoder :=
  calls.foldl (fun d call => (d.decode call.1 call.2).decoder) d

/-! ## One byte -/

theorem advanceExtension_inv {d : ChunkedDecoder} (hs : d.state = .readingExtension) (b : UInt8) :
    Inv (advanceExtension d b).1 := by
  unfold advanceExtension
  split
  · dsimp only
    split
    · exact ⟨by simp [hs], by simp [hs], by simp [hs]⟩
    · exact ⟨by simp [hs], by simp [hs], by simp [hs]⟩
  · exact ⟨by simp, by simp, by simp⟩
  · exact ⟨by simp [hs], by simp [hs], by simp [hs]⟩

theorem sizeByte_inv {d : ChunkedDecoder} (hs : d.state = .readingSize) (b : UInt8) : Inv (sizeByte d b).1 := by
  have hkeep : ∀ d' : ChunkedDecoder, d'.state = d.state → Inv d' := by
    intro d' h
    rw [hs] at h
    exact ⟨by simp [h], by simp [h], by simp [h]⟩
  unfold sizeByte
  split
  · dsimp only
    split
    · exact hkeep _ rfl
    · split
      · exact hkeep _ rfl
      · exact hkeep _ rfl
  · split
    · split
      · exact ⟨by simp, by simp, by simp⟩
      · exact advanceExtension_inv rfl b
    · exact hkeep _ rfl

theorem trailerByte_inv {d : ChunkedDecoder} (hi : Inv d) (b : UInt8) : Inv (trailerByte d b).1 := by
  unfold trailerByte
  split
  next hs =>
    have hkeep : ∀ d' : ChunkedDecoder, d'.state = .readingTrailer → Inv d' := by
      intro d' h
      exact ⟨by simp [h], by simp [h], by simp [h]⟩
    split
    · exact ⟨by simp, by simp, by simp⟩
    · dsimp only
      split
      · exact hkeep _ hs
      · split
        · split
          · exact hkeep _ hs
          · split
            · exact hkeep _ hs
            · exact hkeep _ hs
        · split
          · exact hkeep _ hs
          · split
            · exact ⟨by simp, by simp, by simp⟩
            · exact hkeep _ hs
  · split
    · exact hi
    · split
      · exact ⟨by simp, by simp, by simp⟩
      · exact ⟨by simp, by simp, by simp⟩
  · exact hi

/-- A refused byte keeps the invariant too. -/
theorem byte_inv {d : ChunkedDecoder} {r : Reader} (hr : readerOf d.state = some r) (hi : Inv d) (b : UInt8) :
    Inv (r.byte d b).1 := by
  cases r with
  | sizeLine =>
      have hres := sizeLineByte_result hr hi b
      show Inv (sizeLineByte d b).1
      unfold sizeLineByte at hres ⊢
      split
      next hs => exact sizeByte_inv hs b
      next hs => exact advanceExtension_inv hs b
      next hs =>
        rw [hs] at hres
        dsimp only at hres ⊢
        split
        · exact hi
        next hlf =>
          rw [if_neg hlf] at hres
          split
          · exact ⟨by simp, by simp, by simp⟩
          next hz =>
            rw [if_neg hz] at hres
            cases hres with
            | emit _ hinv => exact hinv
      · exact hi
  | dataTerminator =>
      show Inv (dataTerminatorByte d b).1
      unfold dataTerminatorByte
      split
      · split
        · exact hi
        · exact ⟨by simp, by simp, by simp⟩
      · split
        · exact hi
        · exact ⟨by simp, by simp, by simp⟩
      · exact hi
  | trailer => exact trailerByte_inv hi b

/-- What a reader's loop leaves, however it ends. -/
theorem scan_inv {r : Reader} {d : ChunkedDecoder} (hr : readerOf d.state = some r) (hi : Inv d) (i : Nat)
    (input : Bytes) : Inv (scan r.byte i d input).1 := by
  induction input generalizing d i with
  | nil => exact hi
  | cons b rest ih =>
      have hb := byte_result hr hi b
      have hinv := byte_inv hr hi b
      unfold scan
      generalize r.byte d b = res at hb hinv
      cases hb with
      | next hr' hi' => exact ih hr' hi' (i + 1)
      | advance hi' => exact hi'
      | emit _ hi' => exact hi'
      | yield => exact hinv

/-! ## Errors that stay -/

/-- From now on every call reports `e` and consumes nothing, and the decoder is never done. -/
def Sticky (d : ChunkedDecoder) (e : ParseError) : Prop :=
  ∀ calls : List (Bytes × Nat), (d.afterCalls calls).isDone = false ∧ ∀ input outLen,
    ((d.afterCalls calls).decode input outLen).result = .error e ∧
      ((d.afterCalls calls).decode input outLen).consumed = 0

theorem decode_failed {d : ChunkedDecoder} {e : ParseError} (h : d.state = .failed e) (input : Bytes) (outLen : Nat) :
    d.decode input outLen = ⟨d, .error e, 0, []⟩ := by
  unfold decode
  rw [h]

theorem afterCalls_failed {d : ChunkedDecoder} {e : ParseError} (h : d.state = .failed e) (calls : List (Bytes × Nat)) :
    d.afterCalls calls = d := by
  induction calls with
  | nil => rfl
  | cons call calls ih =>
      unfold afterCalls at ih ⊢
      rw [List.foldl_cons, decode_failed h]
      exact ih

theorem sticky_failed {d : ChunkedDecoder} {e : ParseError} (h : d.state = .failed e) : d.Sticky e := by
  intro calls
  rw [afterCalls_failed h]
  refine ⟨by simp [isDone, h], fun input outLen => ?_⟩
  rw [decode_failed h]
  exact ⟨rfl, rfl⟩

/-- A call without input reports no error of its own. -/
theorem decode_nil_ne_error {d : ChunkedDecoder} (h : ∀ e, d.state ≠ .failed e) (outLen : Nat) (e : ParseError) :
    (d.decode [] outLen).result ≠ .error e := by
  have hloop : d.decode [] outLen = finish d 0 [] := by
    unfold decode
    split
    next e' hs => exact absurd hs (h e')
    · rfl
  rw [hloop, finish]
  cases d.isDone <;> exact nofun

/-- An error that is reported at once is not kept. -/
theorem not_sticky {d : ChunkedDecoder} (h : ∀ e, d.state ≠ .failed e) (e : ParseError) : ¬d.Sticky e := by
  intro hsticky
  exact decode_nil_ne_error h 0 e ((hsticky []).2 [] 0).1

/-! ## Checked execution -/

/-- `&buf[pos..]`, which panics past the end. -/
def sliceFrom (buf : Bytes) (pos : Nat) : Option Bytes := if pos ≤ buf.length then some (buf.drop pos) else none

/-- `a - b` on unsigned integers, which panics below zero. -/
def checkedSub (a b : Nat) : Option Nat := if b ≤ a then some (a - b) else none

/-- `read_data`, with its slices and its subtraction checked. -/
def readDataChecked (d : ChunkedDecoder) (input : Bytes) (room : Nat) : Option (ChunkedDecoder × DataStep) :=
  if room = 0 then some (d, .bufferFull)
  else
    let toCopy := min (min input.length room) d.remaining
    if toCopy = 0 then some ({ d with state := .readingDataCr }, .copied 0)
    else do
      let _ ← checkedSub room toCopy
      let _ ← checkedSub input.length toCopy
      let remaining ← checkedSub d.remaining toCopy
      let d := { d with remaining := remaining }
      some (if d.remaining = 0 then { d with state := .readingDataCr } else d, .copied toCopy)

/-- The loop of `decode` with its slices checked. There is no result when it panics, or when it does not end within
    the given turns. -/
def decodeLoopChecked (input : Bytes) (outLen : Nat) : Nat → ChunkedDecoder → Nat → Bytes → Option Decoded
  | 0, _, _, _ => none
  | fuel + 1, d, inPos, written =>
    if inPos < input.length then
      match d.state with
      | .readingSize | .readingExtension | .readingSizeLf => do
        match d.readSizeLine (← sliceFrom input inPos) with
        | (d, .advance n) => decodeLoopChecked input outLen fuel d (inPos + n) written
        | (d, .yield e consumed) => some (deliver d e (inPos + consumed) written)
        | (d, .emitAndContinue n) =>
          if 0 < written.length then some ⟨d, .data written.length, inPos + n, written⟩
          else decodeLoopChecked input outLen fuel d (inPos + n) written
        | (_, .unreachable) => none
      | .readingData => do
        let rest ← sliceFrom input inPos
        match ← d.readDataChecked rest (← checkedSub outLen written.length) with
        | (d, .copied n) => decodeLoopChecked input outLen fuel d (inPos + n) (written ++ rest.take n)
        | (d, .bufferFull) => some ⟨d, .data written.length, inPos, written⟩
      | .readingDataCr | .readingDataLf => do
        match d.readDataTerminator (← sliceFrom input inPos) with
        | (d, .advance n) => decodeLoopChecked input outLen fuel d (inPos + n) written
        | (d, .yield e consumed) => some (deliver d e (inPos + consumed) written)
        | _ => none
      | .readingTrailer | .readingTrailerLf => do
        match d.readTrailer (← sliceFrom input inPos) with
        | (d, .advance n) => decodeLoopChecked input outLen fuel d (inPos + n) written
        | (d, .yield e consumed) => some (deliver d e (inPos + consumed) written)
        | _ => none
      | .failed e => some ⟨d, .error e, inPos, written⟩
      | .done => some (finish d inPos written)
    else some (finish d inPos written)

/-- `decode` as the source executes it. -/
def decodeChecked (d : ChunkedDecoder) (input : Bytes) (outLen : Nat) : Option Decoded :=
  match d.state with
  | .failed e => some ⟨d, .error e, 0, []⟩
  | _ => decodeLoopChecked input outLen (input.length + 1) d 0 []

/-- What every call that returns owes its caller. -/
structure Orderly (input : Bytes) (outLen : Nat) (r : Decoded) : Prop where
  decoder : Inv r.decoder ∨ (∃ e, r.decoder.state = .failed e) ∧ ∃ n, r.result = .data n
  reached : r.result ≠ .panicked
  consumed : r.consumed ≤ input.length
  written : r.written.length ≤ outLen
  data : ∀ n, r.result = .data n → n = r.written.length ∧ (0 < outLen → 0 < n)
  progress : input ≠ [] → 0 < outLen → 0 < r.consumed ∨ r.result = .done ∨ ∃ e, r.result = .error e

theorem sliceFrom_le {buf : Bytes} {pos : Nat} (h : pos ≤ buf.length) : sliceFrom buf pos = some (buf.drop pos) :=
  if_pos h

theorem checkedSub_le {a b : Nat} (h : b ≤ a) : checkedSub a b = some (a - b) := if_pos h

theorem readDataChecked_eq (d : ChunkedDecoder) (input : Bytes) (room : Nat) :
    d.readDataChecked input room = some (d.readData input room) := by
  unfold readDataChecked readData
  split
  · rfl
  · dsimp only
    split
    · rfl
    · rw [checkedSub_le (by omega), checkedSub_le (by omega), checkedSub_le (by omega)]
      rfl

theorem readData_copied_le {d : ChunkedDecoder} {input : Bytes} {room n : Nat}
    (h : (d.readData input room).2 = .copied n) : n ≤ room := by
  unfold readData at h
  split at h
  · cases h
  · dsimp only at h
    split at h
    · cases h
      exact Nat.zero_le _
    · cases h
      omega

section

variable {input written : Bytes} {outLen inPos : Nat} {d : ChunkedDecoder}

theorem orderly_finish (hi : Inv d) (hpos : inPos ≤ input.length) (hroom : written.length ≤ outLen)
    (hw : 0 < written.length → 0 < inPos) (hend : inPos = input.length ∨ d.isDone = true) :
    Orderly input outLen (finish d inPos written) := by
  unfold finish
  split
  next hlen =>
    refine ⟨.inl hi, nofun, hpos, hroom, ?_, fun _ _ => .inl (hw hlen)⟩
    intro n hn
    cases hn
    exact ⟨rfl, fun _ => hlen⟩
  next =>
    split
    · exact ⟨.inl hi, nofun, hpos, hroom, nofun, fun _ _ => .inr (.inl rfl)⟩
    next hnd =>
      refine ⟨.inl hi, nofun, hpos, hroom, nofun, fun hin _ => .inl ?_⟩
      -- more is wanted only when all of the input has been consumed
      rw [hend.resolve_right hnd]
      exact List.length_pos_iff.mpr hin

theorem orderly_deliver (hi : Inv d) (e : ParseError) (hpos : inPos ≤ input.length) (hroom : written.length ≤ outLen)
    (hw : 0 < written.length → 0 < inPos) : Orderly input outLen (deliver d e inPos written) := by
  unfold deliver
  split
  next hlen =>
    refine ⟨.inr ⟨⟨e, rfl⟩, _, rfl⟩, nofun, hpos, hroom, ?_, fun _ _ => .inl (hw hlen)⟩
    intro n hn
    cases hn
    exact ⟨rfl, fun _ => hlen⟩
  · exact ⟨.inl hi, nofun, hpos, hroom, nofun, fun _ _ => .inr (.inr ⟨e, rfl⟩)⟩

/-- The checked loop returns what the loop computes, and that is orderly. -/
def Agrees (input : Bytes) (outLen : Nat) (checked : Option Decoded) (r : Decoded) : Prop :=
  checked = some r ∧ Orderly input outLen r

/-- The loop stands before a byte of the input. -/
structure AtByte (input : Bytes) (outLen : Nat) (d : ChunkedDecoder) (inPos : Nat) (written : Bytes) : Prop where
  inv : Inv d
  pos : inPos < input.length
  room : written.length ≤ outLen
  moved : 0 < written.length → 0 < inPos

/-- The turns behind one that consumed some bytes agree. -/
def Continues (input : Bytes) (outLen fuel fuel' inPos : Nat) : Prop :=
  ∀ {d : ChunkedDecoder} {n : Nat} {written : Bytes}, 0 < n → n ≤ (input.drop inPos).length → Inv d →
    written.length ≤ outLen → Agrees input outLen (decodeLoopChecked input outLen fuel d (inPos + n) written)
      (decodeLoop outLen fuel' d ((input.drop inPos).drop n) (inPos + n) written)

variable {fuel fuel' : Nat}

theorem AtByte.ne_nil (h : AtByte input outLen d inPos written) : input.drop inPos ≠ [] := by
  intro hnil
  exact absurd h.pos (Nat.not_lt.mpr (List.drop_eq_nil_iff.mp hnil))

/-- A turn looks at the input from its position on. -/
theorem AtByte.turn (h : AtByte input outLen d inPos written) :
    inPos < input.length ∧ ¬(input.drop inPos).isEmpty = true ∧ sliceFrom input inPos = some (input.drop inPos) :=
  ⟨h.pos, fun hnil => h.ne_nil (List.isEmpty_iff.mp hnil), sliceFrom_le (Nat.le_of_lt h.pos)⟩

/-- A refused byte ends the call. -/
theorem AtByte.yields (h : AtByte input outLen d inPos written) {d' : ChunkedDecoder} (hi : Inv d') (e : ParseError)
    {k : Nat} (hk : k < (input.drop inPos).length) :
    Agrees input outLen (some (deliver d' e (inPos + k) written)) (deliver d' e (inPos + k) written) := by
  rw [List.length_drop] at hk
  exact ⟨rfl, orderly_deliver hi e (by omega) h.room fun hw => Nat.lt_of_lt_of_le (h.moved hw) (Nat.le_add_right _ _)⟩

/-- A turn in a size line. -/
theorem AtByte.sizeLine (h : AtByte input outLen d inPos written) (hr : readerOf d.state = some .sizeLine)
    (hnext : Continues input outLen fuel fuel' inPos) :
    Agrees input outLen (decodeLoopChecked input outLen (fuel + 1) d inPos written)
      (decodeLoop outLen (fuel' + 1) d (input.drop inPos) inPos written) := by
  have hscan := scan_result hr h.inv 0 (input.drop inPos)
  have hinv := scan_inv hr h.inv 0 (input.drop inPos)
  obtain ⟨hlt, hne, hslice⟩ := h.turn
  unfold decodeLoopChecked decodeLoop
  rw [if_pos hlt, if_neg hne, hslice]
  cases hs : d.state with
  | readingSize | readingExtension | readingSizeLf =>
      dsimp only [bind, Option.bind, readSizeLine]
      simp only [Reader.byte] at hscan hinv
      generalize scan sizeLineByte 0 d (input.drop inPos) = res at hscan hinv ⊢
      cases hscan with
      | advance k hk hkpos _ hi' =>
          rw [Nat.zero_add]
          exact hnext (hkpos h.ne_nil) hk hi' h.room
      | emit k _ hk hkpos _ hi' =>
          rw [Nat.zero_add]
          dsimp only
          split
          next hlen =>
            -- what was decoded in front of the chunk is delivered first
            rw [List.length_drop] at hk
            refine ⟨rfl, .inl hi', ?_, by dsimp only; omega, h.room, ?_, fun _ _ => .inl (by dsimp only; omega)⟩
            · intro hfull
              cases hfull
            · intro n hn
              cases hn
              exact ⟨rfl, fun _ => hlen⟩
          · exact hnext hkpos hk hi' h.room
      | yield k hk _ _ =>
          rw [Nat.zero_add]
          exact h.yields hinv _ hk
  | _ =>
      rw [hs] at hr
      cases hr

/-- A turn between the bytes of a chunk and the next size line. -/
theorem AtByte.dataTerminator (h : AtByte input outLen d inPos written) (hr : readerOf d.state = some .dataTerminator)
    (hnext : Continues input outLen fuel fuel' inPos) :
    Agrees input outLen (decodeLoopChecked input outLen (fuel + 1) d inPos written)
      (decodeLoop outLen (fuel' + 1) d (input.drop inPos) inPos written) := by
  have hscan := scan_result hr h.inv 0 (input.drop inPos)
  have hinv := scan_inv hr h.inv 0 (input.drop inPos)
  obtain ⟨hlt, hne, hslice⟩ := h.turn
  unfold decodeLoopChecked decodeLoop
  rw [if_pos hlt, if_neg hne, hslice]
  cases hs : d.state with
  | readingDataCr | readingDataLf =>
      dsimp only [bind, Option.bind, readDataTerminator]
      simp only [Reader.byte] at hscan hinv
      generalize scan dataTerminatorByte 0 d (input.drop inPos) = res at hscan hinv ⊢
      cases hscan with
      | advance k hk hkpos _ hi' =>
          rw [Nat.zero_add]
          exact hnext (hkpos h.ne_nil) hk hi' h.room
      | emit k hemit => cases hemit
      | yield k hk _ _ =>
          rw [Nat.zero_add]
          exact h.yields hinv _ hk
  | _ =>
      rw [hs] at hr
      cases hr

/-- A turn in the trailer section. -/
theorem AtByte.trailer (h : AtByte input outLen d inPos written) (hr : readerOf d.state = some .trailer)
    (hnext : Continues input outLen fuel fuel' inPos) :
    Agrees input outLen (decodeLoopChecked input outLen (fuel + 1) d inPos written)
      (decodeLoop outLen (fuel' + 1) d (input.drop inPos) inPos written) := by
  have hscan := scan_result hr h.inv 0 (input.drop inPos)
  have hinv := scan_inv hr h.inv 0 (input.drop inPos)
  obtain ⟨hlt, hne, hslice⟩ := h.turn
  unfold decodeLoopChecked decodeLoop
  rw [if_pos hlt, if_neg hne, hslice]
  cases hs : d.state with
  | readingTrailer | readingTrailerLf =>
      dsimp only [bind, Option.bind, readTrailer]
      simp only [Reader.byte] at hscan hinv
      generalize scan trailerByte 0 d (input.drop inPos) = res at hscan hinv ⊢
      cases hscan with
      | advance k hk hkpos _ hi' =>
          rw [Nat.zero_add]
          exact hnext (hkpos h.ne_nil) hk hi' h.room
      | emit k hemit => cases hemit
      | yield k hk _ _ =>
          rw [Nat.zero_add]
          exact h.yields hinv _ hk
  | _ =>
      rw [hs] at hr
      cases hr

/-- A turn in the bytes of a chunk: the output buffer is full, or some are copied. -/
theorem AtByte.data (h : AtByte input outLen d inPos written) (hs : d.state = .readingData)
    (hnext : Continues input outLen fuel fuel' inPos) :
    Agrees input outLen (decodeLoopChecked input outLen (fuel + 1) d inPos written)
      (decodeLoop outLen (fuel' + 1) d (input.drop inPos) inPos written) := by
  obtain ⟨hlt, hne, hslice⟩ := h.turn
  unfold decodeLoopChecked decodeLoop
  rw [if_pos hlt, if_neg hne, hslice, hs]
  dsimp only [bind, Option.bind]
  rw [checkedSub_le h.room]
  dsimp only
  rw [readDataChecked_eq]
  dsimp only
  by_cases hfull : outLen - written.length = 0
  · have hdata : d.readData (input.drop inPos) (outLen - written.length) = (d, .bufferFull) := by
      unfold readData
      rw [if_pos hfull]
    have hroom := h.room
    rw [hdata]
    refine ⟨rfl, .inl h.inv, ?_, Nat.le_of_lt hlt, hroom, ?_, fun _ hout => .inl (h.moved (by omega))⟩
    · intro hended
      cases hended
    · intro n hn
      cases hn
      exact ⟨rfl, fun hout => by omega⟩
  · obtain ⟨n, hnpos, hn, heq, -⟩ := readData_result hs h.inv h.ne_nil (Nat.pos_of_ne_zero hfull)
    have hcopied : n ≤ outLen - written.length := readData_copied_le (congrArg Prod.snd heq)
    rw [heq]
    refine hnext hnpos hn (inv_takeData hs n) ?_
    rw [List.length_append, List.length_take]
    omega

/-- **The loop of `decode`, checked.** It ends within a turn for each byte that is left, without a panic, in what
    `decode` computes. -/
theorem decodeLoop_checked (fuel fuel' : Nat) (hi : Inv d) (hpos : inPos ≤ input.length) (hroom : written.length ≤ outLen)
    (hw : 0 < written.length → 0 < inPos) (hfuel : input.length - inPos < fuel) (hfuel' : input.length - inPos < fuel') :
    Agrees input outLen (decodeLoopChecked input outLen fuel d inPos written)
      (decodeLoop outLen fuel' d (input.drop inPos) inPos written) := by
  induction fuel generalizing fuel' d inPos written with
  | zero => omega
  | succ fuel ih =>
      obtain ⟨fuel', rfl⟩ : ∃ n, fuel' = n + 1 := ⟨fuel' - 1, by omega⟩
      rcases Nat.lt_or_eq_of_le hpos with hlt | hend
      · have h : AtByte input outLen d inPos written := ⟨hi, hlt, hroom, hw⟩
        have hnext : Continues input outLen fuel fuel' inPos := by
          intro d' n written' hn hle hi' hroom'
          rw [List.length_drop] at hle
          rw [List.drop_drop]
          exact ih fuel' hi' (by omega) hroom' (fun _ => by omega) (by omega) (by omega)
        cases hs : d.state with
        | readingSize | readingExtension | readingSizeLf => exact h.sizeLine (by rw [hs]; rfl) hnext
        | readingData => exact h.data hs hnext
        | readingDataCr | readingDataLf => exact h.dataTerminator (by rw [hs]; rfl) hnext
        | readingTrailer | readingTrailerLf => exact h.trailer (by rw [hs]; rfl) hnext
        | done =>
            obtain ⟨-, hne, -⟩ := h.turn
            unfold decodeLoopChecked decodeLoop
            rw [if_pos hlt, if_neg hne, hs]
            exact ⟨rfl, orderly_finish hi hpos hroom hw (.inr (by simp [isDone, hs]))⟩
        | failed e => exact absurd hs (hi.live e)
      · have hnil : (input.drop inPos).isEmpty = true := by
          rw [List.isEmpty_iff, List.drop_eq_nil_iff]
          exact Nat.le_of_eq hend.symm
        unfold decodeLoopChecked decodeLoop
        rw [if_neg (Nat.not_lt.mpr (Nat.le_of_eq hend.symm)), if_pos hnil]
        exact ⟨rfl, orderly_finish hi hpos hroom hw (.inl hend)⟩

end

/-- **One call of `decode`** on a decoder that keeps its invariant: it does not panic, and is orderly. -/
theorem decode_checked {d : ChunkedDecoder} (hi : Inv d) (input : Bytes) (outLen : Nat) :
    d.decodeChecked input outLen = some (d.decode input outLen) ∧ Orderly input outLen (d.decode input outLen) := by
  have hloop := @decodeLoop_checked input [] outLen 0 d (input.length + 1) (2 * input.length + 1) hi (Nat.zero_le _)
    (Nat.zero_le _) nofun (by omega) (by omega)
  rw [List.drop_zero] at hloop
  have hdecode : d.decode input outLen = decodeLoop outLen (2 * input.length + 1) d input 0 [] := by
    unfold decode
    split
    next e hs => exact absurd hs (hi.live e)
    · rfl
  have hchecked : d.decodeChecked input outLen = decodeLoopChecked input outLen (input.length + 1) d 0 [] := by
    unfold decodeChecked
    split
    next e hs => exact absurd hs (hi.live e)
    · rfl
  rw [hdecode, hchecked]
  exact hloop

/-- Whatever calls were made: the invariant holds, or a verdict is held for every call to come. -/
theorem afterCalls_inv (calls : List (Bytes × Nat)) {d : ChunkedDecoder} (hd : Inv d ∨ ∃ e, d.state = .failed e) :
    Inv (d.afterCalls calls) ∨ ∃ e, (d.afterCalls calls).state = .failed e := by
  induction calls generalizing d with
  | nil => exact hd
  | cons call calls ih =>
      show Inv ((d.decode call.1 call.2).decoder.afterCalls calls) ∨
        ∃ e, ((d.decode call.1 call.2).decoder.afterCalls calls).state = .failed e
      apply ih
      rcases hd with hi | ⟨e, he⟩
      · exact (decode_checked hi call.1 call.2).2.decoder.imp_right And.left
      · rw [decode_failed he]
        exact .inr ⟨e, he⟩

/-- **Which errors stay.** After any calls, a call that reports an error is followed by nothing but that error, with no
    byte consumed and never done, exactly when the decoder had been put into its failed state before the call: when an
    earlier call met the malformed byte behind body bytes that it delivered first. -/
theorem error_sticky_iff (calls : List (Bytes × Nat)) (input : Bytes) (outLen : Nat) (e : ParseError)
    (h : ((new.afterCalls calls).decode input outLen).result = .error e) :
    ((new.afterCalls calls).decode input outLen).decoder.Sticky e ↔ (new.afterCalls calls).state = .failed e := by
  rcases afterCalls_inv calls (.inl inv_new) with hi | ⟨e', he'⟩
  · have hnot : ∀ e', ((new.afterCalls calls).decode input outLen).decoder.state ≠ .failed e' := by
      rcases (decode_checked hi input outLen).2.decoder with hinv | ⟨-, n, hn⟩
      · exact hinv.live
      · rw [h] at hn
        cases hn
    constructor
    · intro hsticky
      exact absurd hsticky (not_sticky hnot e)
    · intro hs
      exact absurd hs (hi.live e)
  · rw [decode_failed he'] at h ⊢
    cases h
    constructor
    · exact fun _ => he'
    · exact fun _ => sticky_failed he'

/-- A malformed size line behind a chunk that was delivered first. -/
theorem error_sticky_iff_held : (new.afterCalls [(ascii "1\r\na\r\nz\r\n", 64)]).Sticky .invalidChunkSize := by
  have h := (error_sticky_iff [(ascii "1\r\na\r\nz\r\n", 64)] (ascii "0\r\n\r\n") 64 .invalidChunkSize
    (by decide)).mpr (by decide)
  have hsame : ((new.afterCalls [(ascii "1\r\na\r\nz\r\n", 64)]).decode (ascii "0\r\n\r\n") 64).decoder =
      new.afterCalls [(ascii "1\r\na\r\nz\r\n", 64)] := by decide
  rwa [hsame] at h

/-- The same size line with nothing in front of it: the error is reported, and the next call finds a complete body. -/
theorem error_forgotten :
    (new.decode (ascii "z\r\n") 64).result = .error .invalidChunkSize ∧
      ((new.decode (ascii "z\r\n") 64).decoder.decode (ascii "0\r\n\r\n") 64).result = .done ∧
      ((new.decode (ascii "z\r\n") 64).decoder.decode (ascii "0\r\n\r\n") 64).decoder.isDone = true := by
  decide

end ChunkedDecoder

end Xibalba
