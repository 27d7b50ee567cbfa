import Xibalba.Client.Correctness.Collect

/-!
# `Client.Correctness.Drain` — the body a streaming reader yields

A streaming body that is being read has a prospect: the bytes it will still yield and how it will end, computed from
its state and the bytes that are still to come. A call of `read` hands out the front of the prospect and leaves the
rest, whatever the size of the caller's buffer and the segments the bytes arrive in. A caller that reads to the end is
given all of it.

Layout:
* `Prospect`, and the flag a body will leave;
* `Yields`, what a part of `read` does to them, and the parts;
* `drain`, a caller that reads to the end.
-/

namespace Xibalba

open ChunkedDecoder

/-! ## Prospects -/

/-- How a body ends. -/
inductive Finale where
  | complete
  | broken (e : StdIoError)
deriving DecidableEq

/-- What a body will still yield, and how it will end then. -/
structure Prospect where
  bytes : Bytes
  finale : Finale
deriving DecidableEq

/-- The prospect before these bytes were yielded. -/
def Prospect.after (p : Prospect) (bytes : Bytes) : Prospect := ⟨bytes ++ p.bytes, p.finale⟩

@[simp] theorem Prospect.after_after (p : Prospect) (xs ys : Bytes) : (p.after ys).after xs = p.after (xs ++ ys) := by
  simp [Prospect.after]

/-- The error of a chunked body that still wants bytes. -/
def cutChunked : Ending → StdIoError
  | .eof => ⟨.unexpectedEof, .text "connection closed mid-chunked-body"⟩
  | .failed e _ => e

/-- The prospect of a body in this state when `unread` and then the end of the stream come. -/
def StreamState.prospect (ending : Ending) (unread : Bytes) : StreamState → Prospect
  | .done => ⟨[], .complete⟩
  | .length remaining =>
    ⟨unread.take remaining, if remaining ≤ unread.length then .complete else .broken ending.cut⟩
  | .untilClose =>
    ⟨unread, match ending with
      | .eof => .complete
      | .failed e _ => .broken e⟩
  | .chunked d =>
    ⟨(run d unread).body, match (run d unread).verdict with
      | .done => .complete
      | .error e => .broken ⟨.invalidData, .parse e⟩
      | .wanting | .panicked => .broken (cutChunked ending)⟩

theorem verdict_of_complete {d : ChunkedDecoder} {ending : Ending} {unread : Bytes}
    (h : ((StreamState.chunked d).prospect ending unread).finale = .complete) : (run d unread).verdict = .done := by
  dsimp only [StreamState.prospect] at h
  split at h
  · assumption
  · cases h
  · cases h
  · cases h

namespace StreamingBody

/-- The prospect of a body when `f` is still due. -/
def prospect (b : StreamingBody) (f : Delivery) : Prospect := b.state.prospect f.ending (b.input ++ f.bytes)

/-- The flag a body will leave if it comes to its end. -/
def final (b : StreamingBody) (f : Delivery) : Bool :=
  match b.state with
  | .length remaining => !b.reusable || !(leftover remaining b.input (f.bites HEAD_BUF_SIZE)).isEmpty
  | .chunked d =>
    !b.reusable || !(leftover (run d (b.input ++ f.bytes)).consumed b.input (f.bites HEAD_BUF_SIZE)).isEmpty
  | .untilClose | .done => b.dirty

/-- A body that may be read: the cursor is in the buffer, and the state is one that is waiting for something. -/
structure Open (b : StreamingBody) : Prop where
  pos : b.rawPos ≤ b.raw.length
  length : ∀ {remaining}, b.state = .length remaining → 0 < remaining
  chunked : ∀ {d}, b.state = .chunked d → Live d b.input ∧ d.isDone = false

/-- What a part of a call does: it hands out `bytes`, and the prospect is what it was, less these. -/
structure Yields (b : StreamingBody) (f : Delivery) (bytes : Bytes) (b' : StreamingBody) (f' : Delivery) : Prop where
  prospect : b.prospect f = (b'.prospect f').after bytes
  final : (b.prospect f).finale = .complete → b.final f = b'.final f'
  dirty : b'.state ≠ .done → b'.dirty = b.dirty
  isOpen : Open b'
  ending : f'.ending = f.ending
  size : f'.size ≤ f.size

namespace Yields

variable {b b' b'' : StreamingBody} {f f' f'' : Delivery} {xs ys : Bytes}

theorem refl (h : Open b) : Yields b f [] b f := ⟨rfl, fun _ => rfl, fun _ => rfl, h, rfl, Nat.le_refl _⟩

theorem trans (h : Yields b f xs b' f') (hlive : b'.state ≠ .done) (h' : Yields b' f' ys b'' f'') :
    Yields b f (xs ++ ys) b'' f'' := by
  have hp : b.prospect f = (b''.prospect f'').after (xs ++ ys) := by
    rw [h.prospect, h'.prospect, Prospect.after_after]
  refine ⟨hp, fun hc => ?_, fun hne => ?_, h'.isOpen, h'.ending.trans h.ending, Nat.le_trans h'.size h.size⟩
  · have hc' : (b'.prospect f').finale = .complete := by
      rw [h.prospect] at hc
      exact hc
    rw [h.final hc, h'.final hc']
  · rw [h'.dirty hne, h.dirty hlive]

end Yields

/-- A caller that reads into buffers of these sizes until it is told that there is nothing more. -/
def drain {ε : Type} (stream : Stream) (fuel : Nat) (sizes : Nat → Nat) : Nat → StreamingBody → Bytes → M ε (Outcome Bytes)
  | 0, _, _ => Act.hang
  | turns + 1, b, got => do
    match ← read stream fuel (sizes turns) b with
    | (.error e, b) => return (.error e, b)
    | (.ok bytes, b) => if bytes.isEmpty then return (.ok got, b) else drain stream fuel sizes turns b (got ++ bytes)

/-! ## The parts of a call -/

/-- Only the bytes in the buffer that are not decoded matter, and the bites to come continue them. -/
theorem yields_refill {b b' : StreamingBody} {f f' : Delivery} (hopen : Open b) (hin : b.input = [])
    (hs : b'.state = b.state) (hr : b'.reusable = b.reusable) (hd : b'.dirty = b.dirty) (hp : b'.rawPos ≤ b'.raw.length)
    (hbytes : f.bytes = b'.input ++ f'.bytes) (hbites : f.bites HEAD_BUF_SIZE = b'.input :: f'.bites HEAD_BUF_SIZE)
    (hend : f'.ending = f.ending) (hsize : f'.size ≤ f.size) : Yields b f [] b' f' := by
  have hprospect : b.prospect f = b'.prospect f' := by
    rw [prospect, prospect, hs, hend, hin, hbytes, List.nil_append]
  refine ⟨hprospect, fun hc => ?_, fun _ => hd, ⟨hp, fun h => hopen.length (hs ▸ h), fun h => ?_⟩, hend, hsize⟩
  · unfold final
    rw [hs, hr, hd, hin, hbytes, hbites, List.nil_append]
    cases hst : b.state with
    | length remaining =>
        dsimp only
        rw [leftover_nil_cons (hopen.length hst)]
    | chunked d =>
        rw [prospect, hst, hin, hbytes, List.nil_append] at hc
        dsimp only
        rw [leftover_nil_cons (consumed_pos (hopen.chunked hst).2 (verdict_of_complete hc))]
    | untilClose => rfl
    | done => rfl
  · obtain ⟨hlive, hnd⟩ := hopen.chunked (hs ▸ h)
    refine ⟨?_, hnd⟩
    rw [hin] at hlive
    exact .inl (hlive.resolve_right fun h => h.2 rfl)

/-- What a refill leaves: bytes to decode, or the end of the stream with nothing left to decode. -/
inductive Refills (b : StreamingBody) (f f' : Delivery) : Outcome Bool → Prop where
  | failed {e : StdIoError} {he : Tick.marks e = false} {b' : StreamingBody} (hfailed : f.ending = .failed e he)
      (hunread : b.input ++ f.bytes = []) (hd : b'.dirty = b.dirty) : Refills b f f' (.error e, b')
  | eof {b' : StreamingBody} (heof : f.ending = .eof) (hunread : b.input ++ f.bytes = []) (hin : b'.input = [])
      (hd : b'.dirty = b.dirty) (hpos : b'.rawPos ≤ b'.raw.length) (hend : f'.ending = f.ending) (hbytes : f'.bytes = [])
      (hsize : f'.size ≤ f.size) : Refills b f f' (.ok false, b')
  | ready {b' : StreamingBody} (hin : b'.input ≠ []) (hs : b'.state = b.state) (hy : Yields b f [] b' f')
      (hsize : f'.size + 1 ≤ f.size + if b.input.isEmpty then 0 else 1) : Refills b f f' (.ok true, b')

/-- The bytes in the buffer behind a cursor that has moved on. -/
theorem drop_rawPos (b : StreamingBody) (n : Nat) : b.raw.drop (b.rawPos + n) = b.input.drop n := by
  rw [input, List.drop_drop]

/-- The flag of a body that ends `n` bytes into its input. -/
theorem finish_dirty {b : StreamingBody} {n : Nat} (hn : n ≤ b.input.length) (hpos : b.rawPos ≤ b.raw.length) (bites : List Bytes) :
    (!b.reusable || !(leftover n b.input bites).isEmpty) = (!b.reusable || b.rawPos + n != b.raw.length) := by
  rw [leftover_of_le hn]
  have hlen : (b.input.drop n).length = b.raw.length - (b.rawPos + n) := by rw [← drop_rawPos, List.length_drop]
  have hle : b.rawPos + n ≤ b.raw.length := by
    rw [input, List.length_drop] at hn
    omega
  congr 1
  by_cases heq : b.rawPos + n = b.raw.length
  · have hnil : b.input.drop n = [] := List.eq_nil_of_length_eq_zero (by omega)
    rw [hnil, heq]
    simp
  · have hne : b.input.drop n ≠ [] := List.ne_nil_of_length_pos (by omega)
    have hempty : (b.input.drop n).isEmpty = false := by simpa using hne
    rw [hempty]
    simpa using heq

/-- `read_content_length` hands out the next bytes of the body. -/
theorem takeContentLength_yields {b : StreamingBody} {f : Delivery} (hopen : Open b) {remaining bufLen : Nat}
    (hs : b.state = .length remaining) (hin : b.input ≠ []) (hlen : 0 < bufLen) :
    ∃ bytes b', b.takeContentLength bufLen remaining = (.ok bytes, b') ∧ bytes ≠ [] ∧ Yields b f bytes b' f := by
  have hpos := hopen.length hs
  have hinpos : 0 < b.input.length := List.length_pos_iff.mpr hin
  have hempty : b.input.isEmpty = false := by simpa using hin
  unfold takeContentLength
  rw [if_neg (by simp [hempty])]
  dsimp only
  generalize hn : min (min remaining b.input.length) bufLen = n
  have hle : n ≤ b.input.length := by omega
  have hpos' : b.rawPos + n ≤ b.raw.length := by
    rw [input, List.length_drop] at hle
    have := hopen.pos
    omega
  have htake : b.input.take n ≠ [] := List.ne_nil_of_length_pos (by rw [List.length_take]; omega)
  have hunread : (b.input ++ f.bytes).length = b.input.length + f.bytes.length := List.length_append
  -- what is yielded is the front of what is unread
  have hsplit : (b.input ++ f.bytes).take remaining =
      b.input.take n ++ (b.input.drop n ++ f.bytes).take (remaining - n) := by
    have hfront : b.input ++ f.bytes = b.input.take n ++ (b.input.drop n ++ f.bytes) := by
      rw [← List.append_assoc, List.take_append_drop]
    have hlenn : (b.input.take n).length = n := List.length_take_of_le hle
    rw [hfront, List.take_append, hlenn, List.take_of_length_le (by omega)]
  refine ⟨_, _, rfl, htake, ?_⟩
  by_cases hzero : remaining - n = 0
  · rw [if_pos hzero]
    refine ⟨?_, fun _ => ?_, fun h => absurd rfl h, ⟨hpos', fun h => ?_, fun h => ?_⟩, rfl, Nat.le_refl _⟩
    · rw [prospect, prospect, hs, StreamState.prospect, hsplit, hzero, List.take_zero, if_pos (by omega)]
      rfl
    · have hrem : remaining = n := by omega
      rw [final, hs, hrem]
      exact finish_dirty hle hopen.pos _
    · cases h
    · cases h
  · rw [if_neg hzero]
    have hin' : ({ b with rawPos := b.rawPos + n, state := .length (remaining - n) } : StreamingBody).input =
        b.input.drop n := drop_rawPos b n
    refine ⟨?_, fun _ => ?_, fun _ => rfl, ⟨hpos', fun h => ?_, fun h => ?_⟩, rfl, Nat.le_refl _⟩
    · rw [prospect, hs, prospect, hin']
      dsimp only [StreamState.prospect, Prospect.after]
      rw [hsplit]
      have hrest : (b.input.drop n ++ f.bytes).length = b.input.length - n + f.bytes.length := by
        rw [List.length_append, List.length_drop]
      congr 1
      by_cases hfull : remaining ≤ (b.input ++ f.bytes).length
      · rw [if_pos hfull, if_pos (by omega)]
      · rw [if_neg hfull, if_neg (by omega)]
    · rw [final, hs, final, hin']
      dsimp only
      rw [← leftover_drop hle, show n + (remaining - n) = remaining by omega]
    · cases h
      omega
    · cases h

/-- `read_until_close` hands out what is there. -/
theorem takeUntilClose_yields {b : StreamingBody} {f : Delivery} (hopen : Open b) {bufLen : Nat}
    (hs : b.state = .untilClose) (hin : b.input ≠ []) (hlen : 0 < bufLen) :
    ∃ bytes b', b.takeUntilClose bufLen = (.ok bytes, b') ∧ bytes ≠ [] ∧ Yields b f bytes b' f := by
  have hinpos : 0 < b.input.length := List.length_pos_iff.mpr hin
  have hempty : b.input.isEmpty = false := by simpa using hin
  unfold takeUntilClose
  rw [if_neg (by simp [hempty])]
  dsimp only
  generalize hn : min b.input.length bufLen = n
  have hle : n ≤ b.input.length := by omega
  have hpos' : b.rawPos + n ≤ b.raw.length := by
    rw [input, List.length_drop] at hle
    have := hopen.pos
    omega
  have htake : b.input.take n ≠ [] := List.ne_nil_of_length_pos (by rw [List.length_take]; omega)
  have hin' : ({ b with rawPos := b.rawPos + n } : StreamingBody).input = b.input.drop n := drop_rawPos b n
  refine ⟨_, _, rfl, htake, ?_, fun _ => ?_, fun _ => rfl, ⟨hpos', fun h => ?_, fun h => ?_⟩, rfl, Nat.le_refl _⟩
  · rw [prospect, prospect, hin']
    dsimp only
    rw [hs]
    dsimp only [StreamState.prospect, Prospect.after]
    rw [← List.append_assoc, List.take_append_drop]
  · rw [final, final]
    dsimp only
    rw [hs]
  · rw [hs] at h
    cases h
  · rw [hs] at h
    cases h

/-- One call of the decoder on a buffer that is not empty. -/
inductive DecodesChunked (b : StreamingBody) (f : Delivery) : Outcome ChunkedRead → Prop where
  | progress {bytes : Bytes} {b' : StreamingBody} (hne : bytes ≠ []) (hy : Yields b f bytes b' f) :
      DecodesChunked b f (.ok (.progress bytes), b')
  | finished {b' : StreamingBody} (hdone : b'.state = .done) (hy : Yields b f [] b' f) :
      DecodesChunked b f (.ok (.progress []), b')
  | needMore {b' : StreamingBody} {d : ChunkedDecoder} (hs : b'.state = .chunked d) (hin : b'.input = [])
      (hy : Yields b f [] b' f) : DecodesChunked b f (.ok .needMore, b')
  | refused {e : StdIoError} {b' : StreamingBody} (hp : b.prospect f = ⟨[], .broken e⟩) (hd : b'.dirty = b.dirty) :
      DecodesChunked b f (.error e, b')

section

variable {b : StreamingBody} {f : Delivery} (hopen : Open b) {d : ChunkedDecoder} (hs : b.state = .chunked d) {k : Nat}
  (hk : k ≤ b.input.length) {out : Bytes}

include hopen hs hk

/-- A body whose decoder has come to its end. -/
theorem yields_finish (hrun : run d (b.input ++ f.bytes) = ⟨out, .done, k⟩) (d' : ChunkedDecoder) :
    Yields b f out (finish { b with state := .chunked d', rawPos := b.rawPos + k }) f := by
  have hpos' : b.rawPos + k ≤ b.raw.length := by
    rw [input, List.length_drop] at hk
    have := hopen.pos
    omega
  refine ⟨?_, fun _ => ?_, fun h => absurd rfl h, ⟨hpos', fun h => ?_, fun h => ?_⟩, rfl, Nat.le_refl _⟩
  · rw [prospect, hs, StreamState.prospect, hrun]
    exact congrArg (Prospect.mk · _) (List.append_nil out).symm
  · rw [final, hs]
    dsimp only
    rw [hrun]
    exact finish_dirty hk hopen.pos _
  · cases h
  · cases h

/-- A body whose decoder goes on. -/
theorem yields_chunked {d' : ChunkedDecoder} (hlive : Live d' (b.input.drop k)) (hnd : d'.isDone = false)
    (hrun : run d (b.input ++ f.bytes) = (run d' (b.input.drop k ++ f.bytes)).after out k) :
    Yields b f out { b with state := .chunked d', rawPos := b.rawPos + k } f := by
  have hpos' : b.rawPos + k ≤ b.raw.length := by
    rw [input, List.length_drop] at hk
    have := hopen.pos
    omega
  have hin' : ({ b with state := .chunked d', rawPos := b.rawPos + k } : StreamingBody).input = b.input.drop k :=
    drop_rawPos b k
  refine ⟨?_, fun _ => ?_, fun _ => rfl, ⟨hpos', fun h => ?_, fun h => ?_⟩, rfl, Nat.le_refl _⟩
  · rw [prospect, hs, prospect, hin', StreamState.prospect, hrun]
    rfl
  · rw [final, hs, final, hin']
    dsimp only
    rw [hrun, Outcome.after, leftover_drop hk]
  · cases h
  · cases h
    rw [hin']
    exact ⟨hlive, hnd⟩

end

theorem decodeChunked_decodes {b : StreamingBody} {f : Delivery} (hopen : Open b) {d : ChunkedDecoder} {bufLen : Nat}
    (hs : b.state = .chunked d) (hlen : 0 < bufLen) :
    ∃ o, b.decodeChunked bufLen = some o ∧ DecodesChunked b f o := by
  obtain ⟨hlive, hnd⟩ := hopen.chunked hs
  unfold decodeChunked
  rw [hs]
  have hdec := hlive.decodes hlen
  dsimp only
  generalize d.decode b.input bufLen = res at hdec
  cases hdec with
  | @data d' k out hne hpos hk hlive' hrun =>
      refine ⟨_, rfl, .progress hne ?_⟩
      dsimp only
      by_cases hd : d'.isDone = true
      · rw [if_pos hd]
        refine yields_finish hopen hs hk ?_ d'
        rw [hrun, run_done (by simpa [ChunkedDecoder.isDone] using hd)]
        simp [Outcome.after]
      · rw [if_neg hd]
        exact yields_chunked hopen hs hk hlive' (by simpa using hd) (hrun f.bytes)
  | @needMore d' hinv hnd' hadv =>
      refine ⟨_, rfl, .needMore rfl ?_ (yields_chunked hopen hs (Nat.le_refl _) (.inl hinv) hnd' ?_)⟩
      · exact (drop_rawPos b b.input.length).trans (List.drop_length)
      · rw [hadv, List.drop_length, List.nil_append]
  | @done d' k hk hrun =>
      refine ⟨_, rfl, .finished rfl ?_⟩
      exact yields_finish hopen hs hk (hrun f.bytes) d'
  | @error d' e k hk hrun =>
      refine ⟨_, rfl, .refused ?_ rfl⟩
      rw [prospect, hs, StreamState.prospect, hrun]

/-! What is decoded does not touch the budget. -/

theorem takeContentLength_budget (b : StreamingBody) (bufLen remaining : Nat) :
    (b.takeContentLength bufLen remaining).2.budget = b.budget := by
  unfold takeContentLength
  split
  · rfl
  · dsimp only
    split
    · rfl
    · rfl

theorem takeUntilClose_budget (b : StreamingBody) (bufLen : Nat) : (b.takeUntilClose bufLen).2.budget = b.budget := by
  unfold takeUntilClose
  split
  · rfl
  · rfl

theorem decodeChunked_budget {b : StreamingBody} {bufLen : Nat} {o : Outcome ChunkedRead}
    (ho : b.decodeChunked bufLen = some o) : o.2.budget = b.budget := by
  unfold decodeChunked at ho
  split at ho
  · dsimp only at ho
    split at ho
    · cases ho
      dsimp only
      split
      · rfl
      · rfl
    · cases ho
      rfl
    · cases ho
      rfl
    · cases ho
      rfl
    · cases ho
  · cases ho

theorem input_eq_nil {b : StreamingBody} : b.input = [] ↔ ¬b.rawPos < b.raw.length := by
  rw [input, List.drop_eq_nil_iff, Nat.not_lt]

section

variable {ρ : Type} {env : Env Sys ρ} {due : ρ → Delivery} (h : Supplies env due) {ε : Type} {l : Local} {st : ρ}

include h

theorem returns_refill {fuel : Nat} {b : StreamingBody} (hopen : Open b) (hb : b.budget.Lasts env st)
    (hfuel : (due st).size < fuel) :
    Act.Returns env (refill .raw fuel b : M ε (Outcome Bool)) (fun r l' st' => l'.client = l.client ∧
      ∃ o, r = .ok o ∧ Refills b (due st) (due st') o ∧ (o.1 = .ok true → o.2.budget.Lasts env st')) l st := by
  rw [refill]
  by_cases hlt : b.rawPos < b.raw.length
  · rw [if_pos hlt, Act.returns_pure]
    have hin : b.input ≠ [] := fun h => input_eq_nil.mp h hlt
    refine ⟨rfl, _, rfl, .ready hin rfl (.refl hopen) ?_, fun _ => hb⟩
    rw [if_neg (by simpa using hin)]
  · rw [if_neg hlt]
    have hin : b.input = [] := input_eq_nil.mpr hlt
    simp only [Act.returns_bind, Act.returns_attempt]
    refine (SilenceBudget.returns_read h (by decide) hb hfuel).mono ?_
    rintro r l₁ st₁ ⟨hclient, hpull, hon⟩
    rcases r with e | ⟨bs, budget⟩
    · cases hpull with
      | failed hfailed hbytes _ _ _ =>
          refine Act.returns_pure.mpr ⟨hclient, _, rfl, .failed hfailed (by rw [hin, hbytes, List.nil_append]) rfl, ?_⟩
          rintro ⟨⟩
    · have hpull : (due st).Pulls HEAD_BUF_SIZE (due st₁) (.ok bs) := hpull
      cases hpull with
      | eof hnil heof hbytes hbytes' hend hsize =>
          refine Act.returns_pure.mpr ⟨hclient, _, rfl, ?_, ?_⟩
          · rw [hnil]
            exact .eof heof (by rw [hin, hbytes, List.nil_append]) rfl rfl (Nat.le_refl _) hend hbytes' hsize
          · rw [hnil]
            rintro ⟨⟩
      | bytes hne hbytes hbites hend hsize =>
          have hempty : bs.val.isEmpty = false := by simpa using hne
          have hpos : 0 < bs.val.length := List.length_pos_iff.mpr hne
          refine Act.returns_pure.mpr ⟨hclient, _, rfl, ?_, fun _ => hon bs budget rfl hne⟩
          rw [hempty]
          refine .ready hne rfl (yields_refill hopen hin rfl rfl rfl (Nat.zero_le _) hbytes hbites hend (by omega)) ?_
          rw [hin]
          omega

/-- What a call of `read` gives: bytes, the end of the body, or an error. -/
inductive Gives (b : StreamingBody) (f f' : Delivery) : Outcome Bytes → Prop where
  | broken {e : StdIoError} {b' : StreamingBody} (hp : b.prospect f = ⟨[], .broken e⟩) (hd : b'.dirty = b.dirty) :
      Gives b f f' (.error e, b')
  | bytes {bytes : Bytes} {b' : StreamingBody} (hne : bytes ≠ []) (hy : Yields b f bytes b' f') :
      Gives b f f' (.ok bytes, b')
  | ended {b' : StreamingBody} (hdone : b'.state = .done) (hy : Yields b f [] b' f') : Gives b f f' (.ok [], b')

omit h in
/-- What is given after a part that yields nothing. -/
theorem Gives.after {b b' : StreamingBody} {f f' f'' : Delivery} {o : Outcome Bytes} (hy : Yields b f [] b' f')
    (hlive : b'.state ≠ .done) (h : Gives b' f' f'' o) : Gives b f f'' o := by
  cases h with
  | broken hp hd =>
      refine .broken ?_ (hd.trans (hy.dirty hlive))
      rw [hy.prospect, hp]
      rfl
  | bytes hne hy' => exact .bytes hne (hy.trans hlive hy')
  | ended hdone hy' => exact .ended hdone (hy.trans hlive hy')

/-- What a call leaves: the client as it was, and bytes, the end or an error; behind bytes the budget lasts on. -/
def Called (env : Env Sys ρ) (due : ρ → Delivery) (b : StreamingBody) (l : Local) (st : ρ) (r : Except ε (Outcome Bytes))
    (l' : Local) (st' : ρ) : Prop :=
  l'.client = l.client ∧ ∃ o, r = .ok o ∧ Gives b (due st) (due st') o ∧
    ∀ bytes, o.1 = .ok bytes → bytes ≠ [] → o.2.budget.Lasts env st'

theorem returns_refillThen {fuel : Nat} {take : StreamingBody → Outcome Bytes} {b : StreamingBody} (hopen : Open b)
    (hb : b.budget.Lasts env st) (hlive : b.state ≠ .done) (hfuel : (due st).size < fuel)
    (hfailed : ∀ e he, (due st).ending = .failed e he → b.input ++ (due st).bytes = [] →
      b.prospect (due st) = ⟨[], .broken e⟩)
    (heof : ∀ b' f', (due st).ending = .eof → b.input ++ (due st).bytes = [] → b'.input = [] → b'.dirty = b.dirty →
      b'.rawPos ≤ b'.raw.length → f'.ending = (due st).ending → f'.size ≤ (due st).size →
      Gives b (due st) f' (take b') ∧ ∀ bytes, (take b').1 = .ok bytes → bytes = [])
    (hready : ∀ b' f', b'.state = b.state → b'.input ≠ [] → Open b' → ∃ bytes b'', take b' = (.ok bytes, b'') ∧
      bytes ≠ [] ∧ Yields b' f' bytes b'' f') (htake : ∀ b', (take b').2.budget = b'.budget) :
    Act.Returns env (refillThen .raw fuel take b : M ε (Outcome Bytes)) (Called env due b l st) l st := by
  rw [refillThen, Act.returns_bind]
  refine (returns_refill h hopen hb hfuel).mono ?_
  rintro r l₁ st₁ ⟨hclient, o, rfl, hrefill, hon⟩
  cases hrefill with
  | @failed e he b' hend hunread hd =>
      exact Act.returns_pure.mpr ⟨hclient, _, rfl, .broken (hfailed e he hend hunread) hd, nofun⟩
  | eof hend hunread hin hd hpos hend' _ hsize =>
      obtain ⟨hgives, hnone⟩ := heof _ _ hend hunread hin hd hpos hend' hsize
      exact Act.returns_pure.mpr ⟨hclient, _, rfl, hgives, fun bytes hok hne => absurd (hnone bytes hok) hne⟩
  | @ready b' hin hst hy hsize =>
      obtain ⟨bytes, b'', hbytes, hne, hy'⟩ := hready b' (due st₁) hst hin hy.isOpen
      have hbudget := htake b'
      rw [hbytes] at hbudget
      refine Act.returns_pure.mpr ⟨hclient, _, rfl, ?_, ?_⟩
      · rw [hbytes]
        exact .after hy (by rwa [hst]) (.bytes hne hy')
      · rw [hbytes]
        intro _ _ _
        rw [hbudget]
        exact hon rfl

theorem returns_readChunked {fuel turns bufLen : Nat} (hlen : 0 < bufLen) {b : StreamingBody} (hopen : Open b)
    (hb : b.budget.Lasts env st) {d : ChunkedDecoder} (hst : b.state = .chunked d) (hfuel : (due st).size < fuel)
    (hturns : ((due st).size + if b.input.isEmpty then 0 else 1) < turns) :
    Act.Returns env (readChunked .raw fuel bufLen turns b : M ε (Outcome Bytes)) (Called env due b l st) l st := by
  induction turns generalizing b d l st with
  | zero => omega
  | succ turns ih =>
      have hlive : b.state ≠ .done := by simp [hst]
      have hnd := (hopen.chunked hst).2
      have hcut : b.input ++ (due st).bytes = [] → b.prospect (due st) = ⟨[], .broken (cutChunked (due st).ending)⟩ := by
        intro hnil
        rw [prospect, hst, hnil, StreamState.prospect, run, hnd]
        rfl
      rw [readChunked, Act.returns_bind]
      refine (returns_refill h hopen hb hfuel).mono ?_
      rintro r l₁ st₁ ⟨hclient, o, rfl, hrefill, hon⟩
      cases hrefill with
      | failed hend hunread hd =>
          refine Act.returns_pure.mpr ⟨hclient, _, rfl, .broken ?_ hd, by rintro _ ⟨⟩⟩
          rw [hcut hunread, hend]
          rfl
      | eof hend hunread _ hd _ _ _ _ =>
          refine Act.returns_pure.mpr ⟨hclient, _, rfl, .broken ?_ hd, by rintro _ ⟨⟩⟩
          rw [hcut hunread, hend]
          rfl
      | @ready b' hin hst' hy hsize =>
          have hlive' : b'.state ≠ .done := by rwa [hst']
          have hb' : b'.budget.Lasts env st₁ := hon rfl
          obtain ⟨o, ho, hdec⟩ := decodeChunked_decodes (f := due st₁) hy.isOpen (hst'.trans hst) hlen
          have hbudget := decodeChunked_budget ho
          simp only [Act.then_ok, ho]
          cases hdec with
          | progress hne hy' =>
              refine Act.returns_pure.mpr ⟨hclient, _, rfl, .after hy hlive' (.bytes hne hy'), fun _ _ _ => ?_⟩
              exact hbudget ▸ hb'
          | finished hdone hy' =>
              refine Act.returns_pure.mpr ⟨hclient, _, rfl, .after hy hlive' (.ended hdone hy'), fun _ _ _ => ?_⟩
              exact hbudget ▸ hb'
          | refused hp hd => exact Act.returns_pure.mpr ⟨hclient, _, rfl, .after hy hlive' (.broken hp hd), by rintro _ ⟨⟩⟩
          | @needMore b'' d'' hs'' hin'' hy' =>
              have hle := hy.size
              refine (ih hy'.isOpen (hbudget ▸ hb') hs'' (by omega) ?_).mono ?_
              · rw [hin'']
                simp only [List.isEmpty_nil, if_true]
                omega
              · rintro r l₂ st₂ ⟨hclient', o, rfl, hgives, hon'⟩
                have hy'' := hy.trans hlive' hy'
                exact ⟨hclient'.trans hclient, o, rfl, .after hy'' (by simp [hs'']) hgives, hon'⟩

/-- **A call of `read`** gives the front of the prospect, whatever the size of the buffer. -/
theorem returns_read {fuel bufLen : Nat} (hlen : 0 < bufLen) {b : StreamingBody} (hopen : Open b)
    (hb : b.budget.Lasts env st) (hfuel : (due st).size + 1 < fuel) :
    Act.Returns env (read .raw fuel bufLen b : M ε (Outcome Bytes)) (Called env due b l st) l st := by
  rw [read, if_neg (Nat.ne_of_gt hlen)]
  cases hst : b.state with
  | done => exact Act.returns_pure.mpr ⟨rfl, _, rfl, .ended hst (.refl hopen), fun _ _ _ => hb⟩
  | length remaining =>
      have hpos := hopen.length hst
      have hcut : b.input ++ (due st).bytes = [] → b.prospect (due st) = ⟨[], .broken (due st).ending.cut⟩ := by
        intro hnil
        have hlt : ¬ remaining ≤ ([] : Bytes).length := Nat.not_le.mpr hpos
        rw [prospect, hst, hnil, StreamState.prospect, List.take_nil, if_neg hlt]
      refine returns_refillThen h hopen hb (by simp [hst]) (by omega) ?_ ?_ ?_ fun b' => takeContentLength_budget b' _ _
      · intro e he hend hunread
        rw [hcut hunread, hend]
        rfl
      · intro b' f' hend hunread hin hd _ _ _
        rw [takeContentLength, hin]
        refine ⟨.broken ?_ hd, nofun⟩
        rw [hcut hunread, hend]
        rfl
      · intro b' f' hst' hin hopen'
        exact takeContentLength_yields hopen' (hst'.trans hst) hin hlen
  | untilClose =>
      refine returns_refillThen h hopen hb (by simp [hst]) (by omega) ?_ ?_ ?_ fun b' => takeUntilClose_budget b' _
      · intro e he hend hunread
        rw [prospect, hst, hunread, hend]
        rfl
      · intro b' f' hend hunread hin hd hpos hend' hsize
        rw [takeUntilClose, hin]
        refine ⟨.ended rfl ⟨?_, fun _ => ?_, fun h => absurd rfl h, ⟨hpos, nofun, nofun⟩, hend', hsize⟩, fun bytes hok => ?_⟩
        · rw [prospect, hst, hunread, hend]
          rfl
        · rw [final, hst]
          exact hd.symm
        · exact (Except.ok.inj hok).symm
      · intro b' f' hst' hin hopen'
        exact takeUntilClose_yields hopen' (hst'.trans hst) hin hlen
  | chunked d =>
      refine returns_readChunked h hlen hopen hb hst (by omega) ?_
      split
      · omega
      · omega

/-! ## A new body -/

/-- The flag a body of this framing leaves when it has come to its end. -/
def leaves (dirty : Bool) (framing : BodyFraming) (reusable : Bool) (tail bytes : Bytes) (bites : List Bytes) : Bool :=
  match framing with
  | .untilClose => dirty
  | framing => !reusable || !(leftover (framing.extent bytes) tail bites).isEmpty

/-- A body as `new` makes it: `tail` came with the head, and `f` is due. -/
structure Starts (dirty : Bool) (framing : BodyFraming) (tail : Bytes) (reusable : Bool) (f : Delivery)
    (b : StreamingBody) : Prop where
  isOpen : Open b
  prospect : b.prospect f = (initialState framing).prospect f.ending (tail ++ f.bytes)
  final : b.final f = leaves dirty framing reusable tail (tail ++ f.bytes) (f.bites HEAD_BUF_SIZE)
  dirty : b.state ≠ .done → b.dirty = dirty

omit h in
/-- The body of a response without one. -/
theorem starts_done {dirty reusable : Bool} {framing : BodyFraming} {tail : Bytes} {f : Delivery} {budget : SilenceBudget}
    (hdone : initialState framing = .done) (hleaves : ∀ bytes bites, leaves dirty framing reusable tail bytes bites =
      (!reusable || !(leftover 0 tail bites).isEmpty)) :
    Starts dirty framing tail reusable f (finish ⟨.done, tail, 0, budget, reusable, dirty⟩) := by
  refine ⟨⟨Nat.zero_le _, nofun, nofun⟩, ?_, ?_, fun h => absurd rfl h⟩
  · rw [hdone]
    rfl
  · rw [hleaves]
    exact (finish_dirty (b := ⟨.done, tail, 0, budget, reusable, dirty⟩) (Nat.zero_le _) (Nat.zero_le _) _).symm

theorem returns_new (dirty : Bool) (framing : BodyFraming) (tail : Bytes) {silence : Duration} (reusable : Bool)
    (hpunctual : Punctual env silence .NONE st) :
    Act.Returns env (new dirty framing tail silence reusable : M ε StreamingBody) (fun r l' st' => l' = l ∧
      due st' = due st ∧ ∃ b, r = .ok b ∧ Starts dirty framing tail reusable (due st) b ∧ b.budget.Lasts env st') l st := by
  rw [new, SilenceBudget.new, Act.returns_bind, SilenceBudget.returns_withDeadline]
  refine Act.returns_pure.mpr ⟨rfl, h.now st, _, rfl, ?_, ?_⟩
  · cases framing with
    | none => exact starts_done rfl fun _ _ => rfl
    | contentLength len =>
        cases len with
        | zero => exact starts_done rfl fun _ _ => rfl
        | succ len =>
            refine ⟨⟨Nat.zero_le _, fun h => ?_, nofun⟩, rfl, rfl, fun _ => rfl⟩
            cases h
            exact Nat.succ_pos len
    | chunked =>
        refine ⟨⟨Nat.zero_le _, nofun, fun h => ?_⟩, rfl, rfl, fun _ => rfl⟩
        cases h
        exact ⟨.inl inv_new, rfl⟩
    | untilClose => exact ⟨⟨Nat.zero_le _, nofun, nofun⟩, rfl, rfl, fun _ => rfl⟩
  · dsimp only
    split
    · exact hpunctual
    · exact hpunctual

/-! ## Reading to the end -/

/-- What a caller that reads to the end has: the whole prospect behind what it had, or the error the body ends in; the
    flag is the one that was announced, or stays as it was. -/
inductive Drains (b : StreamingBody) (f : Delivery) (got : Bytes) : Outcome Bytes → Prop where
  | broken {e : StdIoError} {b' : StreamingBody} (hp : (b.prospect f).finale = .broken e) (hd : b'.dirty = b.dirty) :
      Drains b f got (.error e, b')
  | complete {b' : StreamingBody} (hp : (b.prospect f).finale = .complete) (hd : b'.dirty = b.final f) :
      Drains b f got (.ok (got ++ (b.prospect f).bytes), b')

omit h in
theorem Drains.after {b b' : StreamingBody} {f f' : Delivery} {got bytes : Bytes} {o : Outcome Bytes}
    (hy : Yields b f bytes b' f') (h : Drains b' f' (got ++ bytes) o) : Drains b f got o := by
  have hp' : (b.prospect f).finale = (b'.prospect f').finale := by
    rw [hy.prospect]
    rfl
  cases h with
  | broken hp hd =>
      -- a body that is done does not break
      have hlive : b'.state ≠ .done := by
        intro hdone
        rw [prospect, hdone] at hp
        cases hp
      exact .broken (hp'.trans hp) (hd.trans (hy.dirty hlive))
  | complete hp hd =>
      have hall : got ++ bytes ++ (b'.prospect f').bytes = got ++ (b.prospect f).bytes := by
        rw [hy.prospect, Prospect.after, List.append_assoc]
      rw [hall]
      exact .complete (hp'.trans hp) (hd.trans (hy.final (hp'.trans hp)).symm)

omit h in
theorem drains_done {b b' : StreamingBody} {f f' : Delivery} (got : Bytes) (hdone : b'.state = .done)
    (hy : Yields b f [] b' f') : Drains b f got (.ok got, b') := by
  have hprospect : b.prospect f = ⟨[], .complete⟩ := by
    rw [hy.prospect, prospect, hdone]
    rfl
  have hfinal : b'.dirty = b.final f := by
    rw [hy.final (by rw [hprospect]), final, hdone]
  have hcomplete : Drains b f got (.ok (got ++ (b.prospect f).bytes), b') := .complete (by rw [hprospect]) hfinal
  rw [hprospect, List.append_nil] at hcomplete
  exact hcomplete

/-- **Reading to the end** gives the whole prospect, whatever the sizes of the reads. -/
theorem returns_drain {fuel turns : Nat} {sizes : Nat → Nat} (hsizes : ∀ i, 0 < sizes i) {b : StreamingBody}
    (hopen : Open b) (hb : b.budget.Lasts env st) (got : Bytes) (hfuel : (due st).size + 1 < fuel)
    (hturns : (b.prospect (due st)).bytes.length < turns) :
    Act.Returns env (drain .raw fuel sizes turns b got : M ε (Outcome Bytes)) (fun r l' _ =>
      l'.client = l.client ∧ ∃ o, r = .ok o ∧ Drains b (due st) got o) l st := by
  induction turns generalizing b got l st with
  | zero => omega
  | succ turns ih =>
      rw [drain, Act.returns_bind]
      refine (returns_read h (hsizes turns) hopen hb hfuel).mono ?_
      rintro r l₁ st₁ ⟨hclient, o, rfl, hgives, hon⟩
      cases hgives with
      | broken hp hd => exact Act.returns_pure.mpr ⟨hclient, _, rfl, .broken (by rw [hp]) hd⟩
      | ended hdone hy => exact Act.returns_pure.mpr ⟨hclient, _, rfl, drains_done got hdone hy⟩
      | @bytes bytes b' hne hy =>
          have hempty : bytes.isEmpty = false := by simpa using hne
          have hpos : 0 < bytes.length := List.length_pos_iff.mpr hne
          have hsize := hy.size
          have hlen : (b'.prospect (due st₁)).bytes.length < turns := by
            rw [hy.prospect, Prospect.after, List.length_append] at hturns
            omega
          simp only [Act.then_ok, hempty, Bool.false_eq_true, if_false]
          refine (ih hy.isOpen (hon bytes rfl hne) (got ++ bytes) (by omega) hlen).mono ?_
          rintro r l₂ _ ⟨hclient', o, rfl, hdrains⟩
          exact ⟨hclient'.trans hclient, o, rfl, hdrains.after hy⟩

end

end StreamingBody

end Xibalba
