import Xibalba.Proto.Correctness.HeadSafety
import Xibalba.Iouring.Correctness.Cuts

/-!
# `Iouring.Correctness.Panics` — which bytes make the parser panic

The complete thread feeds the parser of every connection, so that a panic in `feed` is the end of them all. Here `feed`
is given with its slices, drains, subtractions and allocations checked. From the parser's first state on, whatever pieces
it was fed, one check can fail: `body_buf.reserve` is handed the length that a head declares, which the peer is free to
choose, and panics when no vector can be that long.

Sums are not checked. Each is of positions in one buffer, and stays within it.

Layout:
* vectors;
* `pump`, and `pump_checked`;
* `feed`, and `feed_checked`;
* runs, and `feeds_return_iff`.
-/

namespace Xibalba.Iouring

open ChunkedDecoder (Inv Advances Outcome Orderly run sliceFrom sliceFrom_le checkedSub checkedSub_le)

/-! ## Vectors -/

/-- `isize::MAX` on a 64-bit target, which no vector is larger than. -/
def ISIZE_MAX : Nat := 2 ^ 63 - 1

/-- `reserve` on a vector that has nothing allocated: a capacity overflow panics. -/
def reserveChecked (additional : Nat) : Option Unit := if additional ≤ ISIZE_MAX then some () else none

/-- `extend_from_slice`. A vector that has to grow may double on the way, and is taken to do so. -/
def extendChecked (buf more : Bytes) : Option Bytes :=
  if 2 * (buf.length + more.length) ≤ ISIZE_MAX then some (buf ++ more) else none

/-- `drain(..n)`, which panics past the end: what is drained, and what is left. -/
def drainChecked (buf : Bytes) (n : Nat) : Option (Bytes × Bytes) :=
  if n ≤ buf.length then some (buf.take n, buf.drop n) else none

theorem extendChecked_le {buf more : Bytes} (h : 2 * (buf.length + more.length) ≤ ISIZE_MAX) :
    extendChecked buf more = some (buf ++ more) := if_pos h

theorem drainChecked_le {buf : Bytes} {n : Nat} (h : n ≤ buf.length) : drainChecked buf n = some (buf.take n, buf.drop n) :=
  if_pos h

/-! ## Bodies -/

namespace PartialResponse

/-- The decode loop of `pump`, on the body that is there already. There is no result when it panics, or when it does not
    end within the given turns. -/
def pumpLoopChecked (data : Bytes) : Nat → ChunkedDecoder → Nat → Bytes → Option Pumped
  | 0, _, _, _ => none
  | turns + 1, decoder, pos, bodyBuf =>
    if pos < data.length ∧ !decoder.isDone then do
      let d ← decoder.decodeChecked (← sliceFrom data pos) BLOCK_SIZE
      match d.result with
      | .data n => do
        -- `out`, of which the call has overwritten the front
        let out := d.written ++ List.replicate (BLOCK_SIZE - d.written.length) 0
        let bodyBuf ← extendChecked bodyBuf (← sliceTo out n)
        if d.decoder.isDone then some ⟨d.decoder, pos + d.consumed, bodyBuf, true, none⟩
        else pumpLoopChecked data turns d.decoder (pos + d.consumed) bodyBuf
      | .done => some ⟨d.decoder, pos + d.consumed, bodyBuf, true, none⟩
      | .needMore => some ⟨d.decoder, pos + d.consumed, bodyBuf, d.decoder.isDone, none⟩
      | .error e => some ⟨d.decoder, pos + d.consumed, bodyBuf, false, some e⟩
      | .panicked => none
    else some ⟨decoder, pos, bodyBuf, decoder.isDone, none⟩

def pumpChecked (p : PartialResponse) (data : Bytes) : Option (PartialResponse × Except Error Nat) :=
  match p.framing with
  | .done => some ({ p with bodyDone := true }, .ok 0)
  | .contentLength remaining => do
    let toTake := min data.length remaining
    let bodyBuf ← extendChecked p.bodyBuf (← sliceTo data toTake)
    let remaining ← checkedSub remaining toTake
    let p := { p with bodyBuf := bodyBuf, framing := .contentLength remaining }
    some (if remaining = 0 then { p with bodyDone := true } else p, .ok toTake)
  | .chunked decoder => do
    let d ← pumpLoopChecked data (data.length + 1) decoder 0 p.bodyBuf
    let p := { p with bodyBuf := d.body, framing := .chunked d.decoder }
    match d.error with
    | some e => some (p, .error (.parse e))
    | none => some (if d.bodyDone then { p with bodyDone := true } else p, .ok d.pos)
  | .untilClose => do
    let bodyBuf ← extendChecked p.bodyBuf data
    some ({ p with bodyBuf := bodyBuf }, .ok data.length)

/-- `pump`, which is called on a condition. -/
def pumpWhenChecked (c : Prop) [Decidable c] (p : PartialResponse) (data : Bytes) :
    Option (PartialResponse × Except Error Nat) := if c then p.pumpChecked data else some (p, .ok 0)

end PartialResponse

/-- A run delivers no more bytes than it consumes, and consumes no more than there are. -/
theorem run_length (d : ChunkedDecoder) (xs : Bytes) :
    (run d xs).body.length ≤ (run d xs).consumed ∧ (run d xs).consumed ≤ xs.length := by
  induction xs generalizing d with
  | nil => exact ⟨Nat.zero_le _, Nat.zero_le _⟩
  | cons b rest ih =>
      have hstop : ∀ v, (Outcome.mk [] v 0).body.length ≤ (Outcome.mk [] v 0).consumed ∧
          (Outcome.mk [] v 0).consumed ≤ (b :: rest).length := fun _ => ⟨Nat.zero_le _, Nat.zero_le _⟩
      have hafter : ∀ (d' : ChunkedDecoder) (out : Bytes), out.length ≤ 1 →
          ((run d' rest).after out 1).body.length ≤ ((run d' rest).after out 1).consumed ∧
          ((run d' rest).after out 1).consumed ≤ (b :: rest).length := by
        intro d' out hout
        obtain ⟨hbody, hconsumed⟩ := ih d'
        simp only [Outcome.after, List.length_append, List.length_cons]
        omega
      unfold run
      split
      · split
        · exact hstop _
        · exact hstop _
        · exact hafter _ [] (Nat.zero_le _)
      · split
        · exact hstop _
        · exact hafter _ [b] (Nat.le_refl _)
        · exact hstop _

/-- A decoder that calls of `decode` left behind, whatever they reported. -/
def Called (d : ChunkedDecoder) : Prop := Inv d ∨ ∃ e, d.state = .failed e

/-- What is known of a call of `decode`. -/
structure Calls (input : Bytes) (r : ChunkedDecoder.Decoded) : Prop where
  decoder : Called r.decoder
  reached : r.result ≠ .panicked
  consumed : r.consumed ≤ input.length
  data : ∀ n, r.result = .data n → n = r.written.length ∧ n ≤ BLOCK_SIZE

theorem Called.decode {d : ChunkedDecoder} (h : Called d) (input : Bytes) :
    d.decodeChecked input BLOCK_SIZE = some (d.decode input BLOCK_SIZE) ∧ Calls input (d.decode input BLOCK_SIZE) := by
  rcases h with hi | ⟨e, he⟩
  · obtain ⟨hchecked, hord⟩ := ChunkedDecoder.decode_checked hi input BLOCK_SIZE
    refine ⟨hchecked, hord.decoder.imp_right And.left, hord.reached, hord.consumed, fun n hn => ?_⟩
    have hlen := (hord.data n hn).1
    exact ⟨hlen, hlen ▸ hord.written⟩
  · rw [ChunkedDecoder.decode_failed he]
    refine ⟨?_, .inr ⟨e, he⟩, nofun, Nat.zero_le _, nofun⟩
    unfold ChunkedDecoder.decodeChecked
    rw [he]

namespace PartialResponse

/-- The sizes of what the decode loop leaves behind. -/
theorem Pumped.Of.length_le {d : ChunkedDecoder} {xs body : Bytes} {pos : Nat} {r : Pumped} (h : Pumped.Of d xs pos body r) :
    r.body.length ≤ body.length + xs.length ∧ (r.error = none → r.pos ≤ pos + xs.length) := by
  obtain ⟨hbody, hconsumed⟩ := run_length d xs
  cases h with
  | more hi hd h =>
      have h := h []
      rw [List.append_nil] at h
      rw [h] at hbody
      simp only [Outcome.after, run, List.append_nil, Nat.add_zero] at hbody
      dsimp only
      rw [List.length_append]
      exact ⟨by omega, fun _ => Nat.le_refl _⟩
  | done hk h =>
      have h := h []
      rw [List.append_nil] at h
      rw [h] at hbody
      dsimp only at hbody ⊢
      rw [List.length_append]
      exact ⟨by omega, fun _ => by omega⟩
  | error h =>
      have h := h []
      rw [List.append_nil] at h
      rw [h] at hbody hconsumed
      dsimp only at hbody hconsumed ⊢
      rw [List.length_append]
      exact ⟨by omega, fun h => by cases h⟩

/-- **The decode loop, checked**, as long as the body it makes fits. -/
theorem pumpLoop_checked {data buf : Bytes} {turns : Nat} {d : ChunkedDecoder} {pos : Nat} {body : Bytes} {r : Pumped}
    (hpos : pos ≤ data.length) (hd : Called d) (hr : pumpLoop data turns d pos body = some r) :
    Called r.decoder ∧ body.length ≤ r.body.length ∧ (2 * (buf.length + r.body.length) ≤ ISIZE_MAX →
      pumpLoopChecked data turns d pos (buf ++ body) = some { r with body := buf ++ r.body }) := by
  -- on the turns; the decoder stays one that calls of `decode` have led to
  induction turns generalizing d pos body with
  | zero => cases hr
  | succ turns ih =>
      unfold pumpLoop at hr
      unfold pumpLoopChecked
      by_cases hgo : pos < data.length ∧ (!d.isDone) = true
      · rw [if_pos hgo] at hr ⊢
        obtain ⟨hchecked, hcalls⟩ := hd.decode (data.drop pos)
        rw [sliceFrom_le hpos]
        dsimp only [bind, Option.bind]
        rw [hchecked]
        dsimp only at hr ⊢
        generalize d.decode (data.drop pos) BLOCK_SIZE = res at hr hcalls
        obtain ⟨d', result, consumed, written⟩ := res
        obtain ⟨hd', hreached, hconsumed, hdata⟩ := hcalls
        rw [List.length_drop] at hconsumed
        cases result with
        | data n =>
            dsimp only at hr hd' hdata hconsumed ⊢
            obtain ⟨rfl, hn⟩ := hdata n rfl
            rw [sliceTo_le (by simp), List.take_left]
            dsimp only
            by_cases hdone : d'.isDone = true
            · rw [if_pos hdone] at hr
              cases hr
              refine ⟨hd', by simp, fun hsize => ?_⟩
              simp only [List.length_append] at hsize
              rw [extendChecked_le (by rw [List.length_append]; omega), List.append_assoc]
              dsimp only
              rw [if_pos hdone]
            · rw [if_neg hdone] at hr
              obtain ⟨hdr, hlen, heq⟩ := ih (by omega) hd' hr
              rw [List.length_append] at hlen
              refine ⟨hdr, by omega, fun hsize => ?_⟩
              rw [extendChecked_le (by rw [List.length_append]; omega), List.append_assoc]
              dsimp only
              rw [if_neg hdone]
              exact heq hsize
        | needMore =>
            cases hr
            exact ⟨hd', Nat.le_refl _, fun _ => rfl⟩
        | done =>
            cases hr
            exact ⟨hd', Nat.le_refl _, fun _ => rfl⟩
        | error e =>
            cases hr
            exact ⟨hd', Nat.le_refl _, fun _ => rfl⟩
        | panicked => exact absurd rfl hreached
      · rw [if_neg hgo] at hr ⊢
        cases hr
        exact ⟨hd, Nat.le_refl _, fun _ => rfl⟩

end PartialResponse

/-- What is kept of a body between feeds. -/
def InternalFraming.Kept : InternalFraming → Prop
  | .chunked d => Called d
  | _ => True

namespace PartialResponse

/-- What `pump` owes its caller. -/
structure Pumps (q : PartialResponse) (data : Bytes) (r : PartialResponse × Except Error Nat) : Prop where
  framing : r.1.framing.Kept
  bodyBuf : r.1.bodyBuf.length ≤ q.bodyBuf.length + data.length
  taken : ∀ k, r.2 = .ok k → k ≤ data.length

/-- **No check of `pump` fails**, as long as the body fits. -/
theorem pump_checked {q : PartialResponse} (hq : q.framing.Kept) {data : Bytes} (hdata : data ≠ [])
    (hsize : 2 * (q.bodyBuf.length + data.length) ≤ ISIZE_MAX) :
    q.pumpChecked data = some (q.pump data) ∧ Pumps q data (q.pump data) := by
  obtain ⟨version, status, head, bodyBuf, bodyDone, framing⟩ := q
  unfold pumpChecked pump
  dsimp only at hq hsize ⊢
  cases framing with
  | done => exact ⟨rfl, trivial, Nat.le_add_right _ _, fun k hk => by cases hk; exact Nat.zero_le _⟩
  | contentLength n =>
      have hle : min data.length n ≤ data.length := Nat.min_le_left _ _
      dsimp only [bind, Option.bind]
      rw [sliceTo_le hle]
      dsimp only
      rw [extendChecked_le (by rw [List.length_take]; omega)]
      dsimp only
      rw [checkedSub_le (Nat.min_le_right _ _)]
      refine ⟨rfl, ?_, ?_, ?_⟩
      · split
        · trivial
        · trivial
      · have hlen : (bodyBuf ++ data.take (min data.length n)).length ≤ bodyBuf.length + data.length := by
          rw [List.length_append, List.length_take]
          omega
        split
        · exact hlen
        · exact hlen
      · intro k hk
        cases hk
        exact hle
  | chunked d =>
      -- the loop is the one of `pumpLoop_spec`; its body is no longer than the input
      have hpos : 0 < data.length := List.length_pos_iff.mpr hdata
      obtain ⟨r, hr, hof⟩ := @pumpLoop_spec data (data.length + 1) d 0 [] (Nat.zero_le _)
        (hq.imp_right fun h => ⟨h, hpos⟩) (Nat.lt_succ_self _)
      obtain ⟨hbody, htaken⟩ := hof.length_le
      rw [List.drop_zero, List.length_nil, Nat.zero_add] at hbody
      rw [List.drop_zero, Nat.zero_add] at htaken
      obtain ⟨hcalled, -, hchecked⟩ := @pumpLoop_checked data bodyBuf _ d 0 [] r (Nat.zero_le _) hq hr
      rw [List.append_nil] at hchecked
      dsimp only [bind, Option.bind]
      rw [hchecked (by omega), hr]
      dsimp only
      have hlen : (bodyBuf ++ r.body).length ≤ bodyBuf.length + data.length := by
        rw [List.length_append]
        omega
      cases he : r.error with
      | some e => exact ⟨rfl, hcalled, hlen, nofun⟩
      | none =>
          dsimp only
          refine ⟨rfl, ?_, ?_, ?_⟩
          · split
            · exact hcalled
            · exact hcalled
          · split
            · exact hlen
            · exact hlen
          · intro k hk
            cases hk
            exact htaken he
  | untilClose =>
      dsimp only [bind, Option.bind]
      rw [extendChecked_le hsize]
      refine ⟨rfl, trivial, ?_, fun k hk => by cases hk; exact Nat.le_refl _⟩
      rw [List.length_append]

theorem pumpWhen_checked {c : Prop} [Decidable c] {q : PartialResponse} (hq : q.framing.Kept) {data : Bytes}
    (hc : c → data ≠ []) (hsize : 2 * (q.bodyBuf.length + data.length) ≤ ISIZE_MAX) :
    ∃ r, q.pumpWhenChecked c data = some r ∧ (if c then q.pump data else (q, .ok 0)) = r ∧ Pumps q data r := by
  unfold pumpWhenChecked
  by_cases h : c
  · obtain ⟨hchecked, hpumps⟩ := pump_checked hq (hc h) hsize
    rw [if_pos h, if_pos h]
    exact ⟨_, hchecked, rfl, hpumps⟩
  · rw [if_neg h, if_neg h]
    refine ⟨_, rfl, rfl, hq, Nat.le_add_right _ _, fun k hk => ?_⟩
    cases hk
    exact Nat.zero_le _

end PartialResponse

namespace ResponseParser

/-- The buffer for a body whose length is declared. -/
def reserveBody : BodyFraming → Option Unit
  | .contentLength n => reserveChecked n
  | _ => some ()

/-- What `parse_head_and_maybe_finish` reads off a head before it changes anything. -/
def readHeadChecked (bytes : Bytes) : Option (Except Error (ResponseHead × Nat × BodyFraming × List HeaderRange)) := do
  match ← ResponseHead.parseChecked bytes MAX_HEADERS with
  | .error e => some (.error (.parse e))
  | .ok (head, consumed) =>
    match ← BodyFraming.fromResponseChecked head.status .get (head.headers.map HeaderSlice.header) with
    | .error e => some (.error (.parse e))
    | .ok framing => do
      -- `&hdr_buf[..head.header_count]`
      let _ ← checkedSub MAX_HEADERS head.headers.length
      match HeaderRange.buildRanges head.headers bytes with
      | .error e => some (.error e)
      | .ok ranges => some (.ok (head, consumed, framing, ranges))

/-- `parse_head_and_maybe_finish` as the source executes it. -/
def parseHeadAndMaybeFinishChecked (p : ResponseParser) (requestId : RequestId) :
    Option (ResponseParser × Except Error (Option (Response × Nat))) :=
  match Bytes.findWindow (ascii "\r\n\r\n") p.headAccum with
  | none =>
    if p.headAccum.length > MAX_RESPONSE_HEAD then some (p, .error (.connection .headTooLarge)) else some (p, .ok none)
  | some headEnd => do
    let headBytesLen := headEnd + 4
    match ← readHeadChecked (← sliceTo p.headAccum headBytesLen) with
    | .error e => some (p, .error e)
    | .ok (head, consumed, framing, ranges) => do
      let (headBuf, accum) ← drainChecked p.headAccum headBytesLen
      let consumedAfterDrain ← checkedSub consumed headBytesLen
      let (internal, bodyDone) := internalFraming framing
      let _ ← reserveBody framing
      let q : PartialResponse := ⟨head.version, head.status, ⟨headBuf, ranges, head.headers.length⟩, [], bodyDone, internal⟩
      let afterHead ← sliceFrom accum consumedAfterDrain
      let (q, pumped) ← q.pumpWhenChecked (!afterHead.isEmpty ∧ !q.bodyDone) afterHead
      match pumped with
      | .error e => some (⟨accum, [], none⟩, .error e)
      | .ok bodyConsumed =>
        if q.bodyDone then do
          let (_, left) ← drainChecked accum (consumedAfterDrain + bodyConsumed)
          some (⟨left, [], none⟩, .ok (some (q.response requestId, bodyConsumed)))
        else do
          let (_, left) ← drainChecked accum consumedAfterDrain
          some (⟨left, [], some q⟩, .ok none)

/-- `feed` as the source executes it. -/
def feedChecked (p : ResponseParser) (data : Bytes) (requestId : RequestId) :
    Option (ResponseParser × Except Error (Option Response)) :=
  match p.partialResponse with
  | some q => do
    let (q, pumped) ← q.pumpWhenChecked (¬data.isEmpty) data
    match pumped with
    | .error e => some ({ p with partialResponse := some q }, .error e)
    | .ok consumed =>
      if q.bodyDone then do
        let headAccum ← extendChecked [] (← sliceFrom data consumed)
        some ({ p with partialResponse := none, headAccum := headAccum }, .ok (some (q.response requestId)))
      else some ({ p with partialResponse := some q }, .ok none)
  | none => do
    let headAccum ← extendChecked p.headAccum data
    let (p, r) ← parseHeadAndMaybeFinishChecked { p with headAccum := headAccum } requestId
    some (p, r.map fun response => response.map Prod.fst)

/-- The bytes start with a head that declares a body of `n` bytes. -/
def Declares (bs : Bytes) (n : Nat) : Prop :=
  ∃ k head consumed ranges, Bytes.findWindow blank bs = some k ∧
    ResponseHead.parse (bs.take (k + 4)) MAX_HEADERS = .ok (head, consumed) ∧
    BodyFraming.fromResponse head.status .get (head.headers.map HeaderSlice.header) = .ok (.contentLength n) ∧
    HeaderRange.buildRanges head.headers (bs.take (k + 4)) = .ok ranges

/-- What is kept between feeds, `fed` being how many bytes there were. -/
structure Kept (p : ResponseParser) (fed : Nat) : Prop where
  headAccum : p.headAccum.length ≤ fed
  inside : ∀ q, p.partialResponse = some q → q.framing.Kept ∧ q.bodyBuf.length ≤ fed

theorem kept_between {acc : Bytes} {fed : Nat} (h : acc.length ≤ fed) : Kept ⟨acc, [], none⟩ fed :=
  ⟨h, fun q hq => by cases hq⟩

/-- The size of the larger of the two vectors that a parser holds. -/
def held (p : ResponseParser) : Nat :=
  max p.headAccum.length ((p.partialResponse.map fun q => q.bodyBuf.length).getD 0)

theorem Kept.held {p : ResponseParser} {fed : Nat} (h : p.Kept fed) : p.Kept p.held ∧ p.held ≤ fed := by
  obtain ⟨acc, bodyBuf, partialResponse⟩ := p
  cases partialResponse with
  | none => exact ⟨⟨Nat.le_max_left _ _, fun q hq => by cases hq⟩, Nat.max_le.mpr ⟨h.headAccum, Nat.zero_le _⟩⟩
  | some q =>
      have hq := h.inside q rfl
      refine ⟨⟨Nat.le_max_left _ _, ?_⟩, Nat.max_le.mpr ⟨h.headAccum, hq.2⟩⟩
      rintro _ ⟨⟩
      exact ⟨hq.1, Nat.le_max_right _ _⟩

theorem internalFraming_kept (framing : BodyFraming) : (internalFraming framing).1.Kept := by
  cases framing with
  | none => trivial
  | contentLength n => trivial
  | chunked => exact .inl ChunkedDecoder.inv_new
  | untilClose => trivial

theorem reserveBody_le {framing : BodyFraming} (h : ∀ n, framing = .contentLength n → n ≤ ISIZE_MAX) :
    reserveBody framing = some () := by
  cases framing with
  | contentLength n => exact if_pos (h n rfl)
  | none => rfl
  | chunked => rfl
  | untilClose => rfl

/-- What is read off a head, beside what `parseHead` makes of it. -/
inductive HeadReads (bytes : Bytes) : Except Error (ResponseHead × Nat × BodyFraming × List HeaderRange) → Prop where
  | refused {e : Error} (h : parseHead bytes [] = .error e) : HeadReads bytes (.error e)
  | accepted {head : ResponseHead} {consumed : Nat} {framing : BodyFraming} {ranges : List HeaderRange}
      (hparse : ResponseHead.parse bytes MAX_HEADERS = .ok (head, consumed))
      (hframing : BodyFraming.fromResponse head.status .get (head.headers.map HeaderSlice.header) = .ok framing)
      (hranges : HeaderRange.buildRanges head.headers bytes = .ok ranges)
      (h : parseHead bytes [] = .ok (⟨head.version, head.status, ⟨bytes, ranges, head.headers.length⟩, [],
        (internalFraming framing).2, (internalFraming framing).1⟩, consumed)) :
      HeadReads bytes (.ok (head, consumed, framing, ranges))

theorem readHead_checked (bytes : Bytes) : ∃ r, readHeadChecked bytes = some r ∧ HeadReads bytes r := by
  have hhead := parseHead_eq bytes
  unfold readHeadChecked
  rw [ResponseHead.parse_checked]
  dsimp only [bind, Option.bind]
  cases hparse : ResponseHead.parse bytes MAX_HEADERS with
  | error e =>
      rw [hparse] at hhead
      exact ⟨_, rfl, .refused hhead⟩
  | ok parsed =>
      obtain ⟨head, consumed⟩ := parsed
      rw [hparse] at hhead
      dsimp only at hhead ⊢
      rw [BodyFraming.fromResponse_checked]
      dsimp only
      cases hframing : BodyFraming.fromResponse head.status .get (head.headers.map HeaderSlice.header) with
      | error e =>
          rw [hframing] at hhead
          exact ⟨_, rfl, .refused hhead⟩
      | ok framing =>
          rw [hframing] at hhead
          dsimp only at hhead ⊢
          rw [checkedSub_le (ResponseHead.parse_within hparse).2.1]
          dsimp only
          cases hranges : HeaderRange.buildRanges head.headers bytes with
          | error e =>
              rw [hranges] at hhead
              exact ⟨_, rfl, .refused hhead⟩
          | ok ranges =>
              rw [hranges] at hhead
              exact ⟨_, rfl, .accepted hparse hframing hranges hhead⟩

/-- What a head declares is what it is read to be. -/
theorem Declares.read {bs : Bytes} {n k : Nat} (h : Declares bs n) (hk : Bytes.findWindow blank bs = some k)
    {r : Except Error (ResponseHead × Nat × BodyFraming × List HeaderRange)} (hr : HeadReads (bs.take (k + 4)) r) :
    ∃ head consumed ranges, r = .ok (head, consumed, .contentLength n, ranges) := by
  obtain ⟨k', head, consumed, ranges, hfind, hparse, hframing, hranges⟩ := h
  cases hk.symm.trans hfind
  cases hr with
  | refused hrefused =>
      rw [parseHead_eq, hparse] at hrefused
      dsimp only at hrefused
      rw [hframing] at hrefused
      dsimp only at hrefused
      rw [hranges] at hrefused
      cases hrefused
  | accepted hparse' hframing' hranges' _ =>
      cases hparse.symm.trans hparse'
      cases hframing.symm.trans hframing'
      cases hranges.symm.trans hranges'
      exact ⟨_, _, _, rfl⟩

/-- **The one check that can fail** is the one on the length that a head declares. -/
theorem parseHeadAndMaybeFinish_checked {p : ResponseParser} (hnone : p.partialResponse = none)
    (hsize : 2 * p.headAccum.length ≤ ISIZE_MAX) (requestId : RequestId) :
    ((∀ n, Declares p.headAccum n → n ≤ ISIZE_MAX) →
      p.parseHeadAndMaybeFinishChecked requestId = some (p.parseHeadAndMaybeFinish requestId)) ∧
    (∀ n, Declares p.headAccum n → ISIZE_MAX < n → p.parseHeadAndMaybeFinishChecked requestId = none) ∧
    (p.parseHeadAndMaybeFinish requestId).1.Kept p.headAccum.length := by
  unfold parseHeadAndMaybeFinishChecked parseHeadAndMaybeFinish
  have hsame : p.Kept p.headAccum.length := ⟨Nat.le_refl _, fun q hq => by rw [hnone] at hq; cases hq⟩
  cases hfind : Bytes.findWindow (ascii "\r\n\r\n") p.headAccum with
  | none =>
      have hno : ∀ n, ¬Declares p.headAccum n := by
        rintro n ⟨k, -, -, -, hk, -⟩
        cases hfind.symm.trans hk
      -- no head is complete yet, so none declares a length
      dsimp only
      split
      · exact ⟨fun _ => rfl, fun n hn => absurd hn (hno n), hsame⟩
      · exact ⟨fun _ => rfl, fun n hn => absurd hn (hno n), hsame⟩
  | some k =>
      have hk : k + 4 ≤ p.headAccum.length := (findWindow_append hfind []).2
      obtain ⟨r, hr, hreads⟩ := readHead_checked (p.headAccum.take (k + 4))
      dsimp only [bind, Option.bind]
      rw [sliceTo_le hk]
      dsimp only
      rw [hr]
      have hread : ∀ n, Declares p.headAccum n → ∃ head consumed ranges, r = .ok (head, consumed, .contentLength n, ranges) :=
        fun n hn => hn.read hfind hreads
      cases hreads with
      | refused h =>
          rw [h]
          refine ⟨fun _ => rfl, fun n hn => ?_, hsame⟩
          obtain ⟨_, _, _, hok⟩ := hread n hn
          cases hok
      | @accepted head consumed framing ranges hparse hframing hranges h =>
          obtain rfl := parseHead_consumed hfind h
          rw [h]
          dsimp only
          rw [drainChecked_le hk, checkedSub_le (Nat.le_refl _), Nat.sub_self]
          dsimp only
          rw [sliceFrom_le (Nat.zero_le _), List.drop_zero]
          dsimp only
          have hlen : (p.headAccum.drop (k + 4)).length ≤ p.headAccum.length := by
            rw [List.length_drop]
            exact Nat.sub_le _ _
          generalize p.headAccum.drop (k + 4) = after at hlen
          obtain ⟨answer, hanswer, hpure, hpumps⟩ := @PartialResponse.pumpWhen_checked
            ((!after.isEmpty) = true ∧ (!(internalFraming framing).2) = true) inferInstance
            ⟨head.version, head.status, ⟨p.headAccum.take (k + 4), ranges, head.headers.length⟩, [],
              (internalFraming framing).2, (internalFraming framing).1⟩ (internalFraming_kept framing) after
            (by simp +contextual) (by rw [List.length_nil]; omega)
          rw [hanswer, hpure]
          obtain ⟨q, pumped⟩ := answer
          obtain ⟨hq, hbody, htaken⟩ := hpumps
          rw [List.length_nil, Nat.zero_add] at hbody
          -- of all the checks only the reservation can fail, for a length that cannot be reserved
          refine ⟨fun h => ?_, fun n hn hbig => ?_, ?_⟩
          · rw [reserveBody_le fun n hn => h n ⟨k, head, k + 4, ranges, hfind, hparse, hn ▸ hframing, hranges⟩]
            dsimp only
            cases pumped with
            | error e => rfl
            | ok bodyConsumed =>
                dsimp only
                rw [Nat.zero_add, drainChecked_le (htaken _ rfl), drainChecked_le (Nat.zero_le _)]
                dsimp only
                split
                · rfl
                · rfl
          · obtain ⟨_, _, _, hok⟩ := hread n hn
            cases hok
            have hreserve : reserveBody (.contentLength n) = none := if_neg (Nat.not_le.mpr hbig)
            rw [hreserve]
          · cases pumped with
            | error e => exact kept_between hlen
            | ok bodyConsumed =>
                dsimp only
                split
                · refine kept_between ?_
                  rw [List.length_drop]
                  omega
                · refine ⟨hlen, ?_⟩
                  rintro q' hq'
                  cases hq'
                  exact ⟨hq, Nat.le_trans hbody hlen⟩

/-- The piece completes a head that declares a body of `n` bytes. -/
def Announces (p : ResponseParser) (data : Bytes) (n : Nat) : Prop :=
  p.partialResponse = none ∧ Declares (p.headAccum ++ data) n

/-- **One feed.** It panics when a length is announced that no vector can have, and otherwise returns what `feed` does. -/
theorem feed_checked {p : ResponseParser} {fed : Nat} (hp : p.Kept fed) {data : Bytes}
    (hsize : 2 * (fed + data.length) ≤ ISIZE_MAX) (requestId : RequestId) :
    ((∀ n, p.Announces data n → n ≤ ISIZE_MAX) → p.feedChecked data requestId = some (p.feed data requestId)) ∧
    (∀ n, p.Announces data n → ISIZE_MAX < n → p.feedChecked data requestId = none) ∧
    (p.feed data requestId).1.Kept (fed + data.length) := by
  obtain ⟨acc, bodyBuf, partialResponse⟩ := p
  obtain ⟨hacc, hinside⟩ := hp
  dsimp only at hacc hinside
  unfold feedChecked feed
  cases partialResponse with
  | some q =>
      -- inside a body: the head has been read, so nothing is announced
      have hno : ∀ n, ¬Announces ⟨acc, bodyBuf, some q⟩ data n := by
        rintro n ⟨hnone, -⟩
        cases hnone
      obtain ⟨hq, hbody⟩ := hinside q rfl
      obtain ⟨r, hr, hpure, hpumps⟩ := @PartialResponse.pumpWhen_checked (¬data.isEmpty = true) inferInstance q hq data
        (by simp) (by omega)
      rw [ite_not] at hpure
      dsimp only [bind, Option.bind]
      rw [hr, hpure]
      obtain ⟨q', pumped⟩ := r
      obtain ⟨hq', hbody', htaken⟩ := hpumps
      have hkept : q'.framing.Kept ∧ q'.bodyBuf.length ≤ fed + data.length := ⟨hq', by dsimp only at hbody'; omega⟩
      dsimp only
      refine ⟨fun _ => ?_, fun n hn => absurd hn (hno n), ?_⟩
      · cases pumped with
        | error e => rfl
        | ok consumed =>
            have hfits : 2 * (([] : Bytes).length + (data.drop consumed).length) ≤ ISIZE_MAX := by
              rw [List.length_nil, List.length_drop]
              omega
            dsimp only
            rw [sliceFrom_le (htaken _ rfl)]
            dsimp only
            rw [extendChecked_le hfits]
            dsimp only
            split
            · rfl
            · rfl
      · have hinside' : ∀ q, some q' = some q → q.framing.Kept ∧ q.bodyBuf.length ≤ fed + data.length := by
          rintro q heq
          cases heq
          exact hkept
        cases pumped with
        | error e => exact ⟨by dsimp only; omega, hinside'⟩
        | ok consumed =>
            dsimp only
            split
            · refine ⟨?_, fun q hq => by cases hq⟩
              dsimp only
              rw [List.length_drop]
              omega
            · exact ⟨by dsimp only; omega, hinside'⟩
  | none =>
      -- the piece goes to the accumulator, and a head may be complete there
      have hlen : (acc ++ data).length ≤ fed + data.length := by
        rw [List.length_append]
        omega
      dsimp only [bind, Option.bind]
      rw [extendChecked_le (by omega)]
      obtain ⟨hreturns, hpanics, hkept⟩ := @parseHeadAndMaybeFinish_checked ⟨acc ++ data, bodyBuf, none⟩ rfl
        (by dsimp only; omega) requestId
      dsimp only at hreturns hpanics hkept ⊢
      refine ⟨fun h => ?_, fun n hn hbig => ?_, hkept.headAccum.trans hlen, fun q hq => ?_⟩
      · rw [hreturns fun n hn => h n ⟨rfl, hn⟩]
      · rw [hpanics n hn.2 hbig]
      · exact (hkept.inside q hq).imp_right fun h => h.trans hlen

/-! ## Runs -/

/-- What the driver does with a parser. -/
inductive Call where
  | feed (data : Bytes) (requestId : RequestId)
  | clear

/-- The bytes fed by some calls. -/
def fed : List Call → Nat
  | [] => 0
  | .feed data _ :: calls => data.length + fed calls
  | .clear :: calls => fed calls

/-- What some calls come to, and the answers to the feeds among them. -/
def feeds : ResponseParser → List Call → ResponseParser × List (Except Error (Option Response))
  | p, [] => (p, [])
  | p, .feed data requestId :: calls =>
    let (p, answer) := p.feed data requestId
    let (p, answers) := p.feeds calls
    (p, answer :: answers)
  | p, .clear :: calls => p.clear.feeds calls

/-- The same, as the source executes it. -/
def feedsChecked : ResponseParser → List Call → Option (ResponseParser × List (Except Error (Option Response)))
  | p, [] => some (p, [])
  | p, .feed data requestId :: calls => do
    let (p, answer) ← p.feedChecked data requestId
    let (p, answers) ← p.feedsChecked calls
    some (p, answer :: answers)
  | p, .clear :: calls => p.clear.feedsChecked calls

/-- No piece completes a head that declares more than a vector can hold. -/
def Modest : ResponseParser → List Call → Prop
  | _, [] => True
  | p, .feed data requestId :: calls =>
    (∀ n, p.Announces data n → n ≤ ISIZE_MAX) ∧ (p.feed data requestId).1.Modest calls
  | p, .clear :: calls => p.clear.Modest calls

/-- No piece is so long that a vector would have to grow past what one can hold. -/
def Roomy : ResponseParser → List Call → Prop
  | _, [] => True
  | p, .feed data requestId :: calls => 2 * (p.held + data.length) ≤ ISIZE_MAX ∧ (p.feed data requestId).1.Roomy calls
  | p, .clear :: calls => p.clear.Roomy calls

/-- Less than 2⁶² bytes in all are few enough. -/
theorem roomy_of_fed {p : ResponseParser} {before : Nat} (hp : p.Kept before) {calls : List Call}
    (hsize : 2 * (before + fed calls) ≤ ISIZE_MAX) : p.Roomy calls := by
  induction calls generalizing p before with
  | nil => trivial
  | cons call calls ih =>
      cases call with
      | clear => exact ih (kept_between (Nat.zero_le before)) hsize
      | feed data requestId =>
          rw [fed, ← Nat.add_assoc] at hsize
          have hfits : 2 * (before + data.length) ≤ ISIZE_MAX := by omega
          obtain ⟨-, -, hkept⟩ := feed_checked hp hfits requestId
          have hheld := hp.held.2
          exact ⟨by omega, ih hkept hsize⟩

/-- **A run** from what earlier calls left behind. -/
theorem feeds_checked {p : ResponseParser} {before : Nat} (hp : p.Kept before) {calls : List Call} (hsize : p.Roomy calls) :
    (p.Modest calls → p.feedsChecked calls = some (p.feeds calls)) ∧ (¬p.Modest calls → p.feedsChecked calls = none) := by
  induction calls generalizing p before with
  | nil => exact ⟨fun _ => rfl, fun h => absurd trivial h⟩
  | cons call calls ih =>
      cases call with
      | clear => exact ih (kept_between (Nat.zero_le before)) hsize
      | feed data requestId =>
          obtain ⟨hreturns, hpanics, hkept⟩ := feed_checked hp.held.1 hsize.1 requestId
          obtain ⟨hrest, hpanics'⟩ := ih hkept hsize.2
          unfold feedsChecked Modest
          dsimp only [bind, Option.bind]
          by_cases hmodest : ∀ n, p.Announces data n → n ≤ ISIZE_MAX
          · rw [hreturns hmodest]
            dsimp only
            refine ⟨fun h => ?_, fun h => ?_⟩
            · rw [hrest h.2]
              rfl
            · rw [hpanics' fun h' => h ⟨hmodest, h'⟩]
          · obtain ⟨n, hn⟩ := not_forall.mp hmodest
            obtain ⟨hn, hbig⟩ := Classical.not_imp.mp hn
            rw [hpanics n hn (Nat.lt_of_not_le hbig)]
            exact ⟨fun h => absurd h.1 hmodest, fun _ => rfl⟩

/-- **Which runs return.** Whatever pieces a parser is fed from its first state on, if each fits what the parser holds then,
    none of the feeds panics exactly when no piece completes a head that declares more than `isize::MAX` bytes. -/
theorem feeds_return_iff (calls : List Call) (hsize : new.Roomy calls) :
    (new.feedsChecked calls).isSome = true ↔ new.Modest calls := by
  obtain ⟨hreturns, hpanics⟩ := feeds_checked (kept_between (Nat.le_refl 0)) hsize
  constructor
  · intro h
    by_contra hnot
    have hnone : new.feedsChecked calls = none := hpanics hnot
    rw [hnone] at h
    cases h
  · intro h
    have hsome : new.feedsChecked calls = some (new.feeds calls) := hreturns h
    rw [hsome]
    rfl

/-- A response in two pieces, and one after it. -/
def modestCalls : List Call :=
  [.feed (ascii "HTTP/1.1 200 OK\r\nContent-Length: 2\r\n\r\no") 0, .feed (ascii "kHTTP/1.1 204 No") 0,
    .feed (ascii " Content\r\n\r\n") 1, .clear]

theorem feeds_return_iff_modest : new.Modest modestCalls :=
  (feeds_return_iff modestCalls (roomy_of_fed (kept_between (Nat.le_refl 0)) (by decide))).mp (by decide)

/-- A head that declares 2⁶⁴ − 1 bytes. -/
def boundlessHead : Bytes := ascii "HTTP/1.1 200 OK\r\nContent-Length: 18446744073709551615\r\n\r\n"

theorem feed_panics_boundless : new.feedChecked boundlessHead 0 = none := by decide

end ResponseParser

end Xibalba.Iouring
