import Xibalba.Iouring.Correctness.Feed

/-!
# `Iouring.Correctness.Cuts` — what the cuts of a stream do to its responses

The bytes of a connection arrive in pieces. What they come to can be read off the whole stream, one response after the
other, and the parser, fed the pieces, answers the same wherever the stream was cut, with one exception. The limit on a
head is only looked at as long as the end of the head has not arrived: a head that is longer is refused where a cut shows
the parser more than the limit without its end, and accepted where no cut does.

Layout:
* reading a stream, with nothing cut;
* what `pump` and `feed` answer, beside that reading;
* `drain`, and `feedAll` on a list of pieces;
* heads that are too long;
* `cuts_agree_iff`.
-/

namespace Xibalba.Iouring

open ChunkedDecoder (Inv Advances Outcome run)

/-! ## Reading a stream -/

/-- What the front of a stream comes to. -/
inductive Reading where
  | wanting
  | failed (e : Error)
  | complete (q : PartialResponse) (rest : Bytes)

/-- What a body comes to when `bs` is all that is still to come. -/
def InternalFraming.read : InternalFraming → Bytes → Outcome
  | .contentLength n, bs => ⟨bs.take n, if n ≤ bs.length then .done else .wanting, min n bs.length⟩
  | .chunked d, bs => run d bs
  | .untilClose, bs => ⟨bs, .wanting, bs.length⟩
  | .done, _ => ⟨[], .done, 0⟩

def PartialResponse.read (q : PartialResponse) (bs : Bytes) : Reading :=
  match (q.framing.read bs).verdict with
  | .done =>
    .complete { q with bodyBuf := q.bodyBuf ++ (q.framing.read bs).body, bodyDone := true, framing := .done }
      (bs.drop (q.framing.read bs).consumed)
  | .error e => .failed (.parse e)
  | .wanting => .wanting
  | .panicked => .wanting

/-- The end of a head. -/
def blank : Bytes := ascii "\r\n\r\n"

/-- What a stream comes to whose first bytes are those of a head. -/
def readFront (bs : Bytes) : Reading :=
  match Bytes.findWindow blank bs with
  | none => if bs.length > MAX_RESPONSE_HEAD then .failed (.connection .headTooLarge) else .wanting
  | some headEnd =>
    match ResponseParser.parseHead (bs.take (headEnd + 4)) [] with
    | .error e => .failed e
    | .ok (q, _) => q.read (bs.drop (headEnd + 4))

/-- What `bs` comes to behind what the parser has taken already. -/
def ResponseParser.ahead (p : ResponseParser) (bs : Bytes) : Reading :=
  match p.partialResponse with
  | none => readFront (p.headAccum ++ bs)
  | some q => q.read bs

theorem blank_length : blank.length = 4 := by decide

theorem blank_ne_nil : blank ≠ [] := by decide

/-- The end of a head stays where it is when more follows. -/
theorem findWindow_append {bs : Bytes} {k : Nat} (h : Bytes.findWindow blank bs = some k) (rest : Bytes) :
    Bytes.findWindow blank (bs ++ rest) = some k ∧ k + 4 ≤ bs.length := by
  have hlen := Bytes.length_of_prefix_drop blank_ne_nil (Bytes.findWindow_eq_some h)
  rw [blank_length] at hlen
  refine ⟨Bytes.findWindow_congr blank_ne_nil h ?_, hlen⟩
  rw [blank_length, List.take_append_of_le_length hlen]

theorem readFront_none {bs : Bytes} (h : Bytes.findWindow blank bs = none) :
    readFront bs = if bs.length > MAX_RESPONSE_HEAD then .failed (.connection .headTooLarge) else .wanting := by
  unfold readFront
  rw [h]

theorem readFront_error {bs : Bytes} {k : Nat} {e : Error} (h : Bytes.findWindow blank bs = some k)
    (he : ResponseParser.parseHead (bs.take (k + 4)) [] = .error e) (rest : Bytes) : readFront (bs ++ rest) = .failed e := by
  obtain ⟨hfind, hlen⟩ := findWindow_append h rest
  unfold readFront
  rw [hfind]
  dsimp only
  rw [List.take_append_of_le_length hlen, he]

theorem readFront_head {bs : Bytes} {k consumed : Nat} {q : PartialResponse} (h : Bytes.findWindow blank bs = some k)
    (hq : ResponseParser.parseHead (bs.take (k + 4)) [] = .ok (q, consumed)) (rest : Bytes) :
    readFront (bs ++ rest) = q.read (bs.drop (k + 4) ++ rest) := by
  obtain ⟨hfind, hlen⟩ := findWindow_append h rest
  unfold readFront
  rw [hfind]
  dsimp only
  rw [List.take_append_of_le_length hlen, hq]
  dsimp only
  rw [List.drop_append_of_le_length hlen]

/-! ## Bodies -/

/-- A body that is not over. -/
def InternalFraming.Live : InternalFraming → Prop
  | .contentLength n => 0 < n
  | .chunked d => Inv d ∧ d.isDone = false
  | .untilClose => True
  | .done => False

theorem InternalFraming.Live.read_nil {f : InternalFraming} (h : f.Live) : (f.read []).verdict = .wanting := by
  cases f with
  | contentLength n =>
      have hn : ¬n ≤ ([] : Bytes).length := Nat.not_le.mpr h
      exact if_neg hn
  | chunked d => simp [InternalFraming.read, run, h.2]
  | untilClose => rfl
  | done => exact h.elim

/-- A body that is not over takes a byte at least. -/
theorem InternalFraming.Live.consumed_pos {f : InternalFraming} (h : f.Live) {bs : Bytes}
    (hdone : (f.read bs).verdict = .done) : 0 < (f.read bs).consumed := by
  cases f with
  | contentLength n =>
      have hle : n ≤ bs.length := by
        by_contra hnot
        rw [InternalFraming.read, if_neg hnot] at hdone
        cases hdone
      have hn : 0 < n := h
      show 0 < min n bs.length
      omega
  | chunked d =>
      have hrun : run d bs = ⟨(run d bs).body, .done, (run d bs).consumed⟩ := by
        rw [← show (run d bs).verdict = .done from hdone]
      obtain ⟨pre, ⟨rest, rfl⟩, hacc⟩ := ChunkedGrammar.accepts_of_run hrun
      have hlen := congrArg Outcome.consumed (ChunkedGrammar.run_of_accepts hacc rest)
      show 0 < (run d (pre ++ rest)).consumed
      rw [hlen]
      apply List.length_pos_iff.mpr
      rintro rfl
      have hs := (ChunkedGrammar.accepts_nil.mp hacc).1
      have hnot := h.2
      rw [ChunkedDecoder.isDone, hs] at hnot
      cases hnot
  | untilClose => cases hdone
  | done => exact h.elim

namespace PartialResponse

theorem read_done {q : PartialResponse} {bs out : Bytes} {k : Nat} (h : q.framing.read bs = ⟨out, .done, k⟩) :
    q.read bs = .complete { q with bodyBuf := q.bodyBuf ++ out, bodyDone := true, framing := .done } (bs.drop k) := by
  unfold PartialResponse.read
  rw [h]

theorem read_error {q : PartialResponse} {bs out : Bytes} {k : Nat} {e : ParseError}
    (h : q.framing.read bs = ⟨out, .error e, k⟩) : q.read bs = .failed (.parse e) := by
  unfold PartialResponse.read
  rw [h]

theorem read_nil {q : PartialResponse} (hl : q.framing.Live) : q.read [] = .wanting := by
  unfold PartialResponse.read
  rw [hl.read_nil]

/-- Reading goes on where a stretch of the body has been taken. -/
theorem read_after {q : PartialResponse} {data rest out : Bytes} {f : InternalFraming}
    (h : q.framing.read (data ++ rest) = (f.read rest).after out data.length) :
    q.read (data ++ rest) = PartialResponse.read { q with bodyBuf := q.bodyBuf ++ out, framing := f } rest := by
  unfold PartialResponse.read
  rw [h]
  dsimp only [Outcome.after]
  rw [List.drop_length_add_append, List.append_assoc]

/-- What `pump` answers, beside what the body comes to. -/
inductive PumpAnswers (q : PartialResponse) (data : Bytes) : PartialResponse × Except Error Nat → Prop where
  | more {f : InternalFraming} {out : Bytes} (hl : f.Live)
      (h : ∀ rest, q.framing.read (data ++ rest) = (f.read rest).after out data.length) :
      PumpAnswers q data ({ q with bodyBuf := q.bodyBuf ++ out, framing := f }, .ok data.length)
  | done {f : InternalFraming} {out : Bytes} {k : Nat} (hk : k ≤ data.length)
      (h : ∀ rest, q.framing.read (data ++ rest) = ⟨out, .done, k⟩) :
      PumpAnswers q data ({ q with bodyBuf := q.bodyBuf ++ out, bodyDone := true, framing := f }, .ok k)
  | failed {q' : PartialResponse} {e : ParseError} {out : Bytes} {k : Nat}
      (h : ∀ rest, q.framing.read (data ++ rest) = ⟨out, .error e, k⟩) : PumpAnswers q data (q', .error (.parse e))

theorem pump_answers {q : PartialResponse} (hl : q.framing.Live) (hdone : q.bodyDone = false) (data : Bytes) :
    PumpAnswers q data (q.pump data) := by
  obtain ⟨version, status, head, bodyBuf, bodyDone, framing⟩ := q
  dsimp only at hl hdone
  subst hdone
  unfold pump
  cases framing with
  | contentLength n =>
      have hn : 0 < n := hl
      dsimp only
      by_cases hle : n ≤ data.length
      · have hmin : min data.length n = n := by omega
        rw [hmin, Nat.sub_self, if_pos rfl]
        refine .done hle fun rest => ?_
        have hlen : n ≤ (data ++ rest).length := by
          rw [List.length_append]
          omega
        rw [InternalFraming.read, if_pos hlen, List.take_append_of_le_length hle, Nat.min_eq_left hlen]
      · have hmin : min data.length n = data.length := by omega
        rw [hmin, if_neg (by omega), List.take_length]
        refine .more (by show 0 < n - data.length; omega) fun rest => ?_
        have htake : (data ++ rest).take n = data ++ rest.take (n - data.length) := by
          rw [List.take_append, List.take_of_length_le (by omega)]
        have hiff : n ≤ (data ++ rest).length ↔ n - data.length ≤ rest.length := by
          rw [List.length_append]
          omega
        have hmin : min n (data ++ rest).length = data.length + min (n - data.length) rest.length := by
          rw [List.length_append]
          omega
        simp only [InternalFraming.read, Outcome.after, htake, hiff, hmin]
  | chunked d =>
      obtain ⟨hi, -⟩ := hl
      obtain ⟨r, hr, hof⟩ := pumpLoop_start hi data
      dsimp only
      rw [hr]
      cases hof with
      | @more d' out hi' hdone hadv =>
          rw [List.nil_append, Nat.zero_add]
          exact .more ⟨hi', hdone⟩ hadv
      | @done d' out k hk hrun =>
          rw [List.nil_append, Nat.zero_add]
          exact .done hk hrun
      | @error d' out k e hrun => exact .failed hrun
  | untilClose =>
      refine .more trivial fun rest => ?_
      simp [InternalFraming.read, Outcome.after]
  | done => exact hl.elim

end PartialResponse

/-! ## Heads -/

namespace ResponseParser

/-- What `parse_head_and_maybe_finish` reads off a head: a response that is complete, or one whose body is not over. -/
theorem parseHead_ok {bytes : Bytes} {q : PartialResponse} {consumed : Nat} (h : parseHead bytes [] = .ok (q, consumed)) :
    ∃ head framing, ResponseHead.parse bytes MAX_HEADERS = .ok (head, consumed) ∧
      BodyFraming.fromResponse head.status .get (head.headers.map HeaderSlice.header) = .ok framing ∧
      q.framing = (internalFraming framing).1 ∧ q.bodyDone = (internalFraming framing).2 := by
  rw [parseHead_eq] at h
  split at h
  · cases h
  next head consumed' hparse =>
    split at h
    · cases h
    next framing hframing =>
      split at h
      · cases h
      · cases h
        exact ⟨head, framing, hparse, hframing, rfl, rfl⟩

/-- The head ends where its first blank line does. -/
theorem parseHead_consumed {bs : Bytes} {k consumed : Nat} {q : PartialResponse} (hk : Bytes.findWindow blank bs = some k)
    (h : parseHead (bs.take (k + 4)) [] = .ok (q, consumed)) : consumed = k + 4 := by
  obtain ⟨head, framing, hparse, -⟩ := parseHead_ok h
  obtain ⟨hfour, hfind⟩ := ResponseHead.parse_first_blank hparse
  have htake := Bytes.findWindow_take blank_ne_nil hk
  rw [blank_length] at htake
  have heq : some (consumed - 4) = some k := hfind.symm.trans htake
  have := Option.some.inj heq
  omega

/-- A body that is over with its head, or one that is not over. -/
theorem parseHead_body {bytes : Bytes} {q : PartialResponse} {consumed : Nat} (h : parseHead bytes [] = .ok (q, consumed)) :
    q.bodyDone = true ∧ (∀ rest, q.framing.read rest = ⟨[], .done, 0⟩) ∨ q.bodyDone = false ∧ q.framing.Live := by
  obtain ⟨head, framing, -, -, hf, hd⟩ := parseHead_ok h
  rw [hf, hd]
  cases framing with
  | none => exact .inl ⟨rfl, fun _ => rfl⟩
  | contentLength n =>
      cases n with
      | zero => exact .inl ⟨rfl, fun rest => by simp [internalFraming, InternalFraming.read]⟩
      | succ n => exact .inr ⟨rfl, Nat.succ_pos n⟩
  | chunked => exact .inr ⟨rfl, ChunkedDecoder.inv_new, rfl⟩
  | untilClose => exact .inr ⟨rfl, trivial⟩

theorem mapM_ne_error {α β ε : Type} {f : α → Except ε β} {e : ε} (h : ∀ x, f x ≠ .error e) (xs : List α) :
    xs.mapM f ≠ .error e := by
  induction xs with
  | nil => nofun
  | cons x xs ih =>
      rw [List.mapM_cons]
      intro herr
      cases hx : f x with
      | error e' =>
          rw [hx] at herr
          cases herr
          exact h x hx
      | ok y =>
          rw [hx] at herr
          cases hxs : xs.mapM f with
          | error e' =>
              rw [hxs] at herr
              cases herr
              exact ih hxs
          | ok ys =>
              rw [hxs] at herr
              cases herr

theorem buildRanges_ne_tooLarge (headers : List HeaderSlice) (bytes : Bytes) :
    HeaderRange.buildRanges headers bytes ≠ .error (.connection .headTooLarge) := by
  intro h
  unfold HeaderRange.buildRanges at h
  split at h
  · cases h
  · replace h : (headers.mapM (HeaderRange.ofHeader bytes) >>= fun ranges => _) =
      Except.error (Error.connection .headTooLarge) := h
    cases hmap : headers.mapM (HeaderRange.ofHeader bytes) with
    | ok ranges =>
        rw [hmap] at h
        cases h
    | error e =>
        rw [hmap] at h
        cases h
        refine mapM_ne_error (fun hs hof => ?_) _ hmap
        unfold HeaderRange.ofHeader at hof
        split at hof
        · unfold HeaderRange.fromParts at hof
          split at hof
          · cases hof
          · cases hof
        · cases hof

/-- A head that is looked at is not refused for its length. -/
theorem parseHead_ne_tooLarge (bytes : Bytes) : parseHead bytes [] ≠ .error (.connection .headTooLarge) := by
  intro h
  rw [parseHead_eq] at h
  split at h
  · cases h
  split at h
  · cases h
  split at h
  next hranges =>
    cases h
    exact buildRanges_ne_tooLarge _ _ hranges
  · cases h

/-! ## A feed -/

/-- A parser between responses, or inside one whose body is not over. -/
structure Ready (p : ResponseParser) : Prop where
  bodyBuf : p.bodyBuf = []
  live : ∀ q, p.partialResponse = some q → q.bodyDone = false ∧ q.framing.Live

theorem ready_between (acc : Bytes) : Ready ⟨acc, [], none⟩ := ⟨rfl, fun q hq => by cases hq⟩

theorem ready_new : Ready .new := ready_between []

/-- What a feed answers, beside what the stream comes to. The limit on a head is looked at in the first case only. -/
inductive FeedAnswers (p : ResponseParser) (data : Bytes) (requestId : RequestId) :
    ResponseParser × Except Error (Option Response) → Prop where
  | tooLarge {p' : ResponseParser} (hp : p.partialResponse = none)
      (hfind : Bytes.findWindow blank (p.headAccum ++ data) = none)
      (hlen : (p.headAccum ++ data).length > MAX_RESPONSE_HEAD) :
      FeedAnswers p data requestId (p', .error (.connection .headTooLarge))
  | failed {p' : ResponseParser} {e : Error} (he : e ≠ .connection .headTooLarge)
      (h : ∀ rest, p.ahead (data ++ rest) = .failed e) : FeedAnswers p data requestId (p', .error e)
  | more {p' : ResponseParser} (hp : p'.Ready) (hwant : p'.ahead [] = .wanting)
      (h : ∀ rest, p.ahead (data ++ rest) = p'.ahead rest)
      (hfront : p'.partialResponse = none → p.partialResponse = none ∧ p'.headAccum = p.headAccum ++ data) :
      FeedAnswers p data requestId (p', .ok none)
  | complete {left : Bytes} {q : PartialResponse} (hlt : left.length < p.headAccum.length + data.length)
      (h : ∀ rest, p.ahead (data ++ rest) = .complete q (left ++ rest)) :
      FeedAnswers p data requestId (⟨left, [], none⟩, .ok (some (q.response requestId)))

/-- A feed inside a response. -/
theorem feed_answers_inside {acc : Bytes} {q : PartialResponse} (hdone : q.bodyDone = false) (hl : q.framing.Live)
    (data : Bytes) (requestId : RequestId) :
    FeedAnswers ⟨acc, [], some q⟩ data requestId (feed ⟨acc, [], some q⟩ data requestId) := by
  unfold feed
  dsimp only
  by_cases hempty : data.isEmpty = true
  · obtain rfl := List.isEmpty_iff.mp hempty
    rw [if_pos hempty, hdone]
    refine .more ⟨rfl, ?_⟩ (PartialResponse.read_nil hl) (fun _ => rfl) nofun
    rintro q' heq
    cases heq
    exact ⟨hdone, hl⟩
  rw [if_neg hempty]
  have hpump := PartialResponse.pump_answers hl hdone data
  generalize q.pump data = pumped at hpump
  cases hpump with
  | more hl' h =>
      dsimp only
      rw [hdone]
      refine .more ⟨rfl, ?_⟩ (PartialResponse.read_nil hl') (fun rest => PartialResponse.read_after (h rest)) nofun
      rintro q' heq
      cases heq
      exact ⟨rfl, hl'⟩
  | @done f out k hk h =>
      dsimp only
      rw [if_pos rfl]
      have hpos : 0 < k := by
        have hread := h []
        have hpos := hl.consumed_pos (show (q.framing.read (data ++ [])).verdict = .done by rw [hread])
        rwa [hread] at hpos
      have hlt : (data.drop k).length < acc.length + data.length := by
        rw [List.length_drop]
        omega
      refine @FeedAnswers.complete ⟨acc, [], some q⟩ data requestId (data.drop k)
        { q with bodyBuf := q.bodyBuf ++ out, bodyDone := true, framing := .done } hlt fun rest => ?_
      show q.read (data ++ rest) = _
      rw [PartialResponse.read_done (h rest), List.drop_append_of_le_length hk]
  | failed h =>
      refine .failed nofun fun rest => ?_
      exact PartialResponse.read_error (h rest)

/-- A feed between responses, `acc` being what the parser has collected then. -/
theorem feed_answers_between {acc data : Bytes} (requestId : RequestId) :
    FeedAnswers ⟨acc, [], none⟩ data requestId (feed ⟨acc, [], none⟩ data requestId) := by
  unfold feed parseHeadAndMaybeFinish
  have hahead : ∀ rest, ahead ⟨acc, [], none⟩ (data ++ rest) = readFront (acc ++ data ++ rest) := by
    intro rest
    rw [List.append_assoc]
    rfl
  dsimp only
  cases hfind : Bytes.findWindow (ascii "\r\n\r\n") (acc ++ data) with
  | none =>
      dsimp only
      by_cases hlen : (acc ++ data).length > MAX_RESPONSE_HEAD
      · rw [if_pos hlen]
        exact .tooLarge rfl hfind hlen
      · rw [if_neg hlen]
        refine .more (ready_between _) ?_ hahead fun _ => ⟨rfl, rfl⟩
        show readFront (acc ++ data ++ []) = _
        rw [List.append_nil, readFront_none hfind, if_neg hlen]
  | some k =>
      dsimp only
      cases hparse : parseHead ((acc ++ data).take (k + 4)) [] with
      | error e =>
          refine .failed (fun he => parseHead_ne_tooLarge _ (he ▸ hparse)) fun rest => ?_
          rw [hahead, readFront_error hfind hparse]
      | ok parsed =>
          obtain ⟨q, consumed⟩ := parsed
          obtain rfl := parseHead_consumed hfind hparse
          have hread : ∀ rest, ahead ⟨acc, [], none⟩ (data ++ rest) = q.read ((acc ++ data).drop (k + 4) ++ rest) := by
            intro rest
            rw [hahead, readFront_head hfind hparse]
          have hlen : ((acc ++ data).drop (k + 4)).length < acc.length + data.length := by
            have hle := (findWindow_append hfind []).2
            rw [List.length_append] at hle
            rw [List.length_drop, List.length_append]
            omega
          dsimp only
          rw [Nat.sub_self, List.drop_zero]
          generalize (acc ++ data).drop (k + 4) = after at hread hlen
          rcases parseHead_body hparse with ⟨hdone, hover⟩ | ⟨hdone, hl⟩
          · -- the body is over with the head
            rw [if_neg (by simp [hdone])]
            dsimp only
            rw [if_pos hdone, Nat.zero_add, List.drop_zero]
            have hresponse : q.response requestId = PartialResponse.response
                { q with bodyBuf := q.bodyBuf ++ [], bodyDone := true, framing := .done } requestId := by
              simp [PartialResponse.response]
            show FeedAnswers _ _ _ (_, .ok (some (q.response requestId)))
            rw [hresponse]
            refine @FeedAnswers.complete ⟨acc, [], none⟩ data requestId after
              { q with bodyBuf := q.bodyBuf ++ [], bodyDone := true, framing := .done } hlen fun rest => ?_
            rw [hread, PartialResponse.read_done (hover _), List.drop_zero]
          by_cases hempty : after = []
          · subst hempty
            rw [if_neg (by simp)]
            dsimp only
            rw [if_neg (by simp [hdone])]
            refine .more ⟨rfl, ?_⟩ (PartialResponse.read_nil hl) hread nofun
            rintro q' heq
            cases heq
            exact ⟨hdone, hl⟩
          rw [if_pos (by simp [hdone, hempty])]
          have hpump := PartialResponse.pump_answers hl hdone after
          generalize q.pump after = pumped at hpump
          cases hpump with
          | more hl' h =>
              dsimp only
              rw [if_neg (by simp [hdone])]
              refine .more ⟨rfl, ?_⟩ (PartialResponse.read_nil hl') (fun rest => ?_) nofun
              · rintro q' heq
                cases heq
                exact ⟨hdone, hl'⟩
              · rw [hread, PartialResponse.read_after (h rest)]
                rfl
          | @done f out j hj h =>
              dsimp only
              rw [if_pos rfl, Nat.zero_add]
              have hlt : (after.drop j).length < acc.length + data.length := by
                rw [List.length_drop]
                omega
              refine @FeedAnswers.complete ⟨acc, [], none⟩ data requestId (after.drop j)
                { q with bodyBuf := q.bodyBuf ++ out, bodyDone := true, framing := .done } hlt fun rest => ?_
              rw [hread, PartialResponse.read_done (h rest), List.drop_append_of_le_length hj]
          | failed h =>
              refine .failed nofun fun rest => ?_
              rw [hread, PartialResponse.read_error (h rest)]

/-- **A feed** answers what the stream comes to. -/
theorem feed_answers {p : ResponseParser} (hp : p.Ready) (data : Bytes) (requestId : RequestId) :
    FeedAnswers p data requestId (p.feed data requestId) := by
  obtain ⟨acc, bodyBuf, partialResponse⟩ := p
  obtain ⟨rfl, hlive⟩ := hp
  cases partialResponse with
  | none => exact feed_answers_between requestId
  | some q =>
      obtain ⟨hdone, hl⟩ := hlive q rfl
      exact feed_answers_inside hdone hl data requestId

end ResponseParser

/-! ## Pieces -/

namespace ResponseParser

/-- `feed` with a piece, and then with nothing as long as responses come out, as `drain_recv_buf` calls it. The `n`th
    response is for the request `ids n`. A response takes bytes from the parser, so that turns are never lacking. -/
def drain (ids : Nat → RequestId) :
    Nat → Nat → ResponseParser → Bytes → ResponseParser × List Response × Option Error
  | 0, _, p, _ => (p, [], none)
  | turns + 1, n, p, data =>
    match p.feed data (ids n) with
    | (p, .error e) => (p.clear, [], some e)
    | (p, .ok none) => (p, [], none)
    | (p, .ok (some response)) =>
      let (p, responses, error) := drain ids turns (n + 1) p []
      (p, response :: responses, error)

/-- The responses and the first error that come out of pieces. -/
def feedAll (ids : Nat → RequestId) : Nat → ResponseParser → List Bytes → List Response × Option Error
  | _, _, [] => ([], none)
  | n, p, data :: pieces =>
    match drain ids (p.headAccum.length + data.length + 1) n p data with
    | (_, responses, some e) => (responses, some e)
    | (p, responses, none) =>
      let (more, error) := feedAll ids (n + responses.length) p pieces
      (responses ++ more, error)

end ResponseParser

/-- A response is in front of what is left. -/
theorem readFront_lt {bs rest : Bytes} {q : PartialResponse} (h : readFront bs = .complete q rest) :
    rest.length < bs.length := by
  cases hfind : Bytes.findWindow blank bs with
  | none =>
      rw [readFront_none hfind] at h
      split at h
      · cases h
      · cases h
  | some k =>
      have hle := (findWindow_append hfind []).2
      cases hparse : ResponseParser.parseHead (bs.take (k + 4)) [] with
      | error e =>
          have herr := readFront_error hfind hparse []
          rw [List.append_nil, h] at herr
          cases herr
      | ok parsed =>
          obtain ⟨q', consumed⟩ := parsed
          have hread := readFront_head hfind hparse []
          rw [List.append_nil, List.append_nil, h] at hread
          unfold PartialResponse.read at hread
          split at hread
          · cases hread
            simp only [List.length_drop]
            omega
          · cases hread
          · cases hread
          · cases hread

/-- The responses a stream comes to, and its first error. -/
def outcome (ids : Nat → RequestId) (n : Nat) (bs : Bytes) : List Response × Option Error :=
  match _h : readFront bs with
  | .wanting => ([], none)
  | .failed e => ([], some e)
  | .complete q rest =>
    let (responses, error) := outcome ids (n + 1) rest
    (q.response (ids n) :: responses, error)
termination_by bs.length
decreasing_by exact readFront_lt ‹_›

/-- What follows from what the front of a stream comes to. -/
def Reading.outcome (ids : Nat → RequestId) (n : Nat) : Reading → List Response × Option Error
  | .wanting => ([], none)
  | .failed e => ([], some e)
  | .complete q rest =>
    (q.response (ids n) :: (Iouring.outcome ids (n + 1) rest).1, (Iouring.outcome ids (n + 1) rest).2)

theorem outcome_eq (ids : Nat → RequestId) (n : Nat) (bs : Bytes) : outcome ids n bs = (readFront bs).outcome ids n := by
  rw [outcome]
  split
  next h => rw [h]; rfl
  next h => rw [h]; rfl
  next h => rw [h]; rfl

/-! ## Heads that are too long -/

/-- A head whose end comes more than a byte behind the limit. -/
def LongHead (bs : Bytes) : Prop := ∃ k, Bytes.findWindow blank bs = some k ∧ MAX_RESPONSE_HEAD + 1 < k + 4

/-- **A stream with a head that is too long** behind complete responses, or right in front. -/
inductive Overlong : Bytes → Prop where
  | here {bs : Bytes} (h : LongHead bs) : Overlong bs
  | behind {head body content rest : Bytes} {h : ResponseHead} {framing : BodyFraming}
      (hparse : ResponseHead.parse head MAX_HEADERS = .ok (h, head.length))
      (hframing : BodyFraming.fromResponse h.status .get (h.headers.map HeaderSlice.header) = .ok framing)
      (hbody : Delimits framing body content) (hrest : Overlong rest) : Overlong (head ++ (body ++ rest))

/-- The same, told by what the stream comes to. -/
inductive Long : Bytes → Prop where
  | here {bs : Bytes} (h : LongHead bs) : Long bs
  | behind {bs rest : Bytes} {q : PartialResponse} (h : readFront bs = .complete q rest) (hrest : Long rest) : Long bs

/-- What a delimited body comes to, whatever follows it. -/
theorem read_delimits {framing : BodyFraming} {body content : Bytes} (h : Delimits framing body content) (rest : Bytes) :
    (ResponseParser.internalFraming framing).1.read (body ++ rest) = ⟨content, .done, body.length⟩ := by
  cases framing with
  | none =>
      obtain ⟨rfl, rfl⟩ := h
      rfl
  | contentLength n =>
      obtain ⟨hlen, rfl⟩ := h
      have hle : n ≤ (content ++ rest).length := by
        rw [List.length_append]
        omega
      show Outcome.mk _ _ _ = _
      rw [if_pos hle, Nat.min_eq_left hle, ← hlen, List.take_left]
  | chunked => exact ChunkedGrammar.run_of_accepts (ChunkedGrammar.accepts_new.mpr h) rest
  | untilClose => exact h.elim

/-- A body that comes to its end is delimited. -/
theorem delimits_of_read {framing : BodyFraming} {bs : Bytes}
    (h : ((ResponseParser.internalFraming framing).1.read bs).verdict = .done) :
    ∃ body content rest, bs = body ++ rest ∧ Delimits framing body content ∧
      ((ResponseParser.internalFraming framing).1.read bs).consumed = body.length := by
  cases framing with
  | none => exact ⟨[], [], bs, rfl, ⟨rfl, rfl⟩, rfl⟩
  | contentLength n =>
      have hle : n ≤ bs.length := by
        by_contra hnot
        replace h : (if n ≤ bs.length then ChunkedDecoder.Verdict.done else .wanting) = .done := h
        rw [if_neg hnot] at h
        cases h
      refine ⟨bs.take n, bs.take n, bs.drop n, (List.take_append_drop n bs).symm, ⟨List.length_take_of_le hle, rfl⟩, ?_⟩
      show min n bs.length = (bs.take n).length
      rw [List.length_take]
  | chunked =>
      have hrun : run .new bs = ⟨(run .new bs).body, .done, (run .new bs).consumed⟩ := by
        rw [← show (run .new bs).verdict = .done from h]
      obtain ⟨pre, ⟨rest, rfl⟩, hacc⟩ := ChunkedGrammar.accepts_of_run hrun
      refine ⟨pre, _, rest, rfl, ChunkedGrammar.accepts_new.mp hacc, ?_⟩
      show (run .new (pre ++ rest)).consumed = _
      rw [ChunkedGrammar.run_of_accepts hacc rest]
  | untilClose => cases h

/-- The first response of a stream, cut off from the rest. -/
theorem readFront_complete {bs rest : Bytes} {q : PartialResponse} (h : readFront bs = .complete q rest) :
    ∃ head body content parsed framing, bs = head ++ (body ++ rest) ∧
      ResponseHead.parse head MAX_HEADERS = .ok (parsed, head.length) ∧
      BodyFraming.fromResponse parsed.status .get (parsed.headers.map HeaderSlice.header) = .ok framing ∧
      Delimits framing body content ∧ ∀ rest', readFront (head ++ (body ++ rest')) = .complete q rest' := by
  cases hfind : Bytes.findWindow blank bs with
  | none =>
      rw [readFront_none hfind] at h
      split at h
      · cases h
      · cases h
  | some k =>
      have hle := (findWindow_append hfind []).2
      cases hparse : ResponseParser.parseHead (bs.take (k + 4)) [] with
      | error e =>
          have herr := readFront_error hfind hparse []
          rw [List.append_nil, h] at herr
          cases herr
      | ok found =>
          obtain ⟨q', consumed⟩ := found
          obtain rfl := ResponseParser.parseHead_consumed hfind hparse
          obtain ⟨parsed, framing, hhead, hframing, hf, -⟩ := ResponseParser.parseHead_ok hparse
          have hlen : (bs.take (k + 4)).length = k + 4 := List.length_take_of_le hle
          have hread := readFront_head hfind hparse []
          rw [List.append_nil, List.append_nil, h] at hread
          have hdone : (q'.framing.read (bs.drop (k + 4))).verdict = .done := by
            unfold PartialResponse.read at hread
            split at hread
            next hdone => exact hdone
            next => cases hread
            next => cases hread
            next => cases hread
          rw [hf] at hdone
          obtain ⟨body, content, tail, htail, hbody, -⟩ := delimits_of_read hdone
          have hq : ∀ rest', q'.read (body ++ rest') = .complete
              { q' with bodyBuf := q'.bodyBuf ++ content, bodyDone := true, framing := .done } rest' := by
            intro rest'
            rw [PartialResponse.read_done (by rw [hf]; exact read_delimits hbody rest'), List.drop_left]
          rw [htail, hq] at hread
          cases hread
          have hbs : bs = bs.take (k + 4) ++ (body ++ rest) := by rw [← htail, List.take_append_drop]
          refine ⟨bs.take (k + 4), body, content, parsed, framing, hbs, by rw [hlen]; exact hhead, hframing, hbody, ?_⟩
          intro rest'
          have htake : (bs.take (k + 4)).take (k + 4) = bs.take (k + 4) := by rw [List.take_take, Nat.min_self]
          have hfind' : Bytes.findWindow blank (bs.take (k + 4)) = some k := by
            have h := Bytes.findWindow_take blank_ne_nil hfind
            rwa [blank_length] at h
          have hdrop : (bs.take (k + 4)).drop (k + 4) = [] := List.drop_eq_nil_iff.mpr (by omega)
          rw [readFront_head hfind' (by rw [htake]; exact hparse), hdrop, List.nil_append, hq]

/-- A head that is accepted and can be addressed makes a response. -/
theorem parseHead_of_parse {head : Bytes} {h : ResponseHead} {framing : BodyFraming}
    (hparse : ResponseHead.parse head MAX_HEADERS = .ok (h, head.length))
    (hframing : BodyFraming.fromResponse h.status .get (h.headers.map HeaderSlice.header) = .ok framing)
    (hlen : head.length ≤ MAX_ADDRESSABLE_HEAD) :
    ∃ q, ResponseParser.parseHead head [] = .ok (q, head.length) ∧
      q.framing = (ResponseParser.internalFraming framing).1 := by
  obtain ⟨-, hcount, hin⟩ := ResponseHead.parse_within hparse
  rw [List.take_length] at hin
  rw [ResponseParser.parseHead_eq, hparse]
  dsimp only
  rw [hframing]
  dsimp only
  rw [HeaderRange.buildRanges_within hin hcount hlen]
  exact ⟨_, rfl, rfl⟩

theorem overlong_iff {bs : Bytes} : Overlong bs ↔ Long bs := by
  constructor
  · intro h
    induction h with
    | here h => exact .here h
    | @behind head body content rest h framing hparse hframing hbody _ ih =>
        obtain ⟨hfour, hfind⟩ := ResponseHead.parse_first_blank hparse
        replace hfind : Bytes.findWindow blank head = some (head.length - 4) := hfind
        by_cases hlong : MAX_RESPONSE_HEAD + 1 < head.length
        · exact .here ⟨_, (findWindow_append hfind _).1, by omega⟩
        · have hlen : head.length ≤ MAX_ADDRESSABLE_HEAD := by
            have : MAX_RESPONSE_HEAD + 1 ≤ MAX_ADDRESSABLE_HEAD := by decide
            omega
          obtain ⟨q, hq, hf⟩ := parseHead_of_parse hparse hframing hlen
          have htake : head.take (head.length - 4 + 4) = head := by
            rw [Nat.sub_add_cancel hfour, List.take_length]
          have hread := readFront_head hfind (by rw [htake]; exact hq) (body ++ rest)
          have hdrop : head.drop (head.length - 4 + 4) = [] := by
            rw [Nat.sub_add_cancel hfour, List.drop_length]
          rw [hdrop, List.nil_append, PartialResponse.read_done (by rw [hf]; exact read_delimits hbody rest),
            List.drop_left] at hread
          exact .behind hread ih
  · intro h
    induction h with
    | here h => exact .here h
    | behind h _ ih =>
        obtain ⟨head, body, content, parsed, framing, rfl, hparse, hframing, hbody, -⟩ := readFront_complete h
        exact .behind hparse hframing hbody ih

/-! ## Streams without one -/

namespace ResponseParser

variable (ids : Nat → RequestId)

/-- No head that is too long is to come. -/
def Fits (p : ResponseParser) (bs : Bytes) : Prop :=
  (p.partialResponse = none → ¬LongHead (p.headAccum ++ bs)) ∧ ∀ q rest, p.ahead bs = .complete q rest → ¬Long rest

theorem fits_between {acc bs : Bytes} (h : ¬Long (acc ++ bs)) : Fits ⟨acc, [], none⟩ bs :=
  ⟨fun _ hlong => h (.here hlong), fun _ _ hread hlong => h (.behind hread hlong)⟩

/-- What a piece makes of the parser, with `stream` for what comes of what follows. -/
inductive DrainAnswers (n : Nat) (p : ResponseParser) (data rest : Bytes) :
    ResponseParser × List Response × Option Error → Prop where
  | waits {p' : ResponseParser} {responses : List Response} (hp : p'.Ready) (hwant : p'.ahead [] = .wanting)
      (hfits : p'.Fits rest)
      (h : (p.ahead (data ++ rest)).outcome ids n =
        (responses ++ ((p'.ahead rest).outcome ids (n + responses.length)).1,
          ((p'.ahead rest).outcome ids (n + responses.length)).2)) :
      DrainAnswers n p data rest (p', responses, none)
  | failed {p' : ResponseParser} {responses : List Response} {e : Error}
      (h : (p.ahead (data ++ rest)).outcome ids n = (responses, some e)) :
      DrainAnswers n p data rest (p', responses, some e)

/-- **A piece** of a stream without heads that are too long. -/
theorem drain_answers {turns n : Nat} {p : ResponseParser} {data rest : Bytes} (hp : p.Ready) (hfits : p.Fits (data ++ rest))
    (hturns : p.headAccum.length + data.length < turns) : DrainAnswers ids n p data rest (drain ids turns n p data) := by
  induction turns generalizing n p data with
  | zero => omega
  | succ turns ih =>
      have hfeed := feed_answers hp data (ids n)
      unfold drain
      generalize p.feed data (ids n) = answer at hfeed
      cases hfeed with
      | tooLarge hnone hfind hlen =>
          refine .failed ?_
          have hahead : p.ahead (data ++ rest) = readFront (p.headAccum ++ data ++ rest) := by
            rw [ahead, hnone, List.append_assoc]
          rw [hahead]
          cases hfind' : Bytes.findWindow blank (p.headAccum ++ data ++ rest) with
          | none =>
              rw [readFront_none hfind', if_pos (by rw [List.length_append]; omega)]
              rfl
          | some k =>
              -- the end of the head is still to come, so that the head is too long
              have hk : (p.headAccum ++ data).length < k + 4 := by
                by_contra hle
                have hsame : (p.headAccum ++ data ++ rest).take (k + blank.length) =
                    (p.headAccum ++ data).take (k + blank.length) := by
                  rw [blank_length, List.take_append_of_le_length (by omega)]
                have hcut := Bytes.findWindow_congr blank_ne_nil hfind' hsame
                rw [hfind] at hcut
                cases hcut
              refine absurd ⟨k, ?_, by omega⟩ (hfits.1 hnone)
              rw [← List.append_assoc]
              exact hfind'
      | failed _ h =>
          refine .failed ?_
          rw [h]
          rfl
      | @more p' hp' hwant h hfront =>
          refine .waits hp' hwant ⟨fun hnone => ?_, fun q tail hq => ?_⟩ ?_
          · obtain ⟨hnone', hacc⟩ := hfront hnone
            have hnot := hfits.1 hnone'
            rwa [← List.append_assoc, ← hacc] at hnot
          · exact hfits.2 q tail (by rw [h]; exact hq)
          · rw [h]
            rfl
      | @complete left q hlt h =>
          have hfits' : Fits ⟨left, [], none⟩ ([] ++ rest) := fits_between (hfits.2 q _ (h rest))
          have hdrain := @ih (n + 1) ⟨left, [], none⟩ [] (ready_between left) hfits' (by
            show left.length + 0 < turns
            omega)
          have hout : (p.ahead (data ++ rest)).outcome ids n =
              (q.response (ids n) :: ((ahead ⟨left, [], none⟩ ([] ++ rest)).outcome ids (n + 1)).1,
                ((ahead ⟨left, [], none⟩ ([] ++ rest)).outcome ids (n + 1)).2) := by
            rw [h, List.nil_append]
            show (_ :: (outcome ids (n + 1) (left ++ rest)).1, (outcome ids (n + 1) (left ++ rest)).2) = _
            rw [outcome_eq]
            rfl
          dsimp only
          generalize drain ids turns (n + 1) ⟨left, [], none⟩ [] = answer at hdrain
          cases hdrain with
          | @waits p' responses hp' hwant hfits' h' =>
              refine .waits hp' hwant hfits' ?_
              have hn : n + (q.response (ids n) :: responses).length = n + 1 + responses.length := by
                rw [List.length_cons]
                omega
              rw [hout, h']
              dsimp only
              rw [hn]
              rfl
          | failed h' =>
              refine .failed ?_
              rw [hout, h']

/-- **The pieces** of a stream without heads that are too long come to what the stream comes to. -/
theorem feedAll_outcome {n : Nat} {p : ResponseParser} {pieces : List Bytes} (hp : p.Ready) (hwant : p.ahead [] = .wanting)
    (hfits : p.Fits pieces.flatten) : feedAll ids n p pieces = (p.ahead pieces.flatten).outcome ids n := by
  induction pieces generalizing n p with
  | nil =>
      rw [List.flatten_nil, hwant]
      rfl
  | cons data pieces ih =>
      rw [List.flatten_cons] at hfits ⊢
      have hdrain := drain_answers ids hp hfits (Nat.lt_succ_self _) (n := n)
      unfold feedAll
      generalize drain ids (p.headAccum.length + data.length + 1) n p data = answer at hdrain
      cases hdrain with
      | waits hp' hwant' hfits' h =>
          dsimp only
          rw [ih hp' hwant' hfits', h]
      | failed h => exact h.symm

/-! ## Streams with one -/

/-- A feed with a whole response leaves nothing behind, and the pieces after it are those of a stream again. -/
theorem feedAll_cons {w : Bytes} {q : PartialResponse} (h : readFront w = .complete q []) (n : Nat) (pieces : List Bytes) :
    feedAll ids n .new (w :: pieces) =
      (q.response (ids n) :: (feedAll ids (n + 1) .new pieces).1, (feedAll ids (n + 1) .new pieces).2) := by
  have hfeed := feed_answers ready_new w (ids n)
  have hahead : ahead .new (w ++ []) = .complete q [] := by
    rw [List.append_nil]
    exact h
  have hdrain : drain ids (w.length + 1) n .new w = (.new, [q.response (ids n)], none) := by
    unfold drain
    generalize feed .new w (ids n) = answer at hfeed
    cases hfeed with
    | tooLarge hnone hfind hlen =>
        replace hfind : Bytes.findWindow blank w = none := hfind
        rw [readFront_none hfind] at h
        split at h
        · cases h
        · cases h
    | failed _ h' =>
        rw [h'] at hahead
        cases hahead
    | more _ hwant h' _ =>
        rw [h', hwant] at hahead
        cases hahead
    | @complete left q' hlt h' =>
        rw [h', List.append_nil] at hahead
        cases hahead
        dsimp only
        cases w with
        | nil => cases hlt
        | cons b w => rfl
  have hturns : ResponseParser.new.headAccum.length + w.length + 1 = w.length + 1 := by simp [new]
  rw [feedAll, hturns, hdrain]
  rfl

/-- A head that is too long is refused when a cut shows the parser more than the limit without its end. -/
theorem feedAll_cut {bs : Bytes} (h : LongHead bs) (n : Nat) :
    feedAll ids n .new [bs.take (MAX_RESPONSE_HEAD + 1), bs.drop (MAX_RESPONSE_HEAD + 1)] =
      ([], some (.connection .headTooLarge)) := by
  obtain ⟨k, hk, hlong⟩ := h
  have hle := (findWindow_append hk []).2
  have hcut : Bytes.findWindow (ascii "\r\n\r\n") ([] ++ bs.take (MAX_RESPONSE_HEAD + 1)) = none :=
    Bytes.findWindow_cut blank_ne_nil hk (by rw [blank_length]; omega)
  have hlen : (bs.take (MAX_RESPONSE_HEAD + 1)).length = MAX_RESPONSE_HEAD + 1 := List.length_take_of_le (by omega)
  have hrefused : (feed .new (bs.take (MAX_RESPONSE_HEAD + 1)) (ids n)).2 = .error (.connection .headTooLarge) := by
    show (parseHeadAndMaybeFinish ⟨[] ++ bs.take (MAX_RESPONSE_HEAD + 1), [], none⟩ (ids n)).2.map _ = _
    unfold parseHeadAndMaybeFinish
    dsimp only
    rw [hcut]
    dsimp only
    rw [List.nil_append, hlen, if_pos (Nat.lt_succ_self _)]
    rfl
  rw [feedAll, drain]
  generalize feed .new (bs.take (MAX_RESPONSE_HEAD + 1)) (ids n) = answer at hrefused
  obtain ⟨p, r⟩ := answer
  obtain rfl : r = .error (.connection .headTooLarge) := hrefused
  rfl

/-- It is not when its end is there. -/
theorem feedAll_whole {bs : Bytes} (h : LongHead bs) (n : Nat) :
    feedAll ids n .new [bs] ≠ ([], some (.connection .headTooLarge)) := by
  obtain ⟨k, hk, -⟩ := h
  intro heq
  have hfeed := feed_answers ready_new bs (ids n)
  rw [feedAll, drain] at heq
  generalize feed .new bs (ids n) = answer at hfeed heq
  cases hfeed with
  | tooLarge _ hfind _ =>
      replace hfind : Bytes.findWindow blank bs = none := hfind
      rw [hk] at hfind
      cases hfind
  | failed he _ => exact he (Option.some.inj (Prod.mk.inj heq).2)
  | more _ _ _ _ => cases (Prod.mk.inj heq).2
  | @complete left q _ _ =>
      dsimp only at heq
      generalize drain ids (new.headAccum.length + bs.length) (n + 1) ⟨left, [], none⟩ [] = drained at heq
      obtain ⟨p, responses, error⟩ := drained
      cases error with
      | none => cases (Prod.mk.inj heq).1
      | some e => cases (Prod.mk.inj heq).1

theorem cuts_differ {bs : Bytes} (h : Long bs) (n : Nat) :
    ∃ cs ds, cs.flatten = bs ∧ ds.flatten = bs ∧ feedAll ids n .new cs ≠ feedAll ids n .new ds := by
  induction h generalizing n with
  | @here bs h =>
      refine ⟨[bs.take (MAX_RESPONSE_HEAD + 1), bs.drop (MAX_RESPONSE_HEAD + 1)], [bs], by simp, by simp, ?_⟩
      rw [feedAll_cut ids h n]
      exact (feedAll_whole ids h n).symm
  | @behind bs rest q h _ ih =>
      obtain ⟨head, body, -, -, -, rfl, -, -, -, hread⟩ := readFront_complete h
      obtain ⟨cs, ds, hcs, hds, hne⟩ := ih (n + 1)
      have hw : readFront (head ++ body) = .complete q [] := by
        rw [← hread [], List.append_nil]
      refine ⟨(head ++ body) :: cs, (head ++ body) :: ds, ?_, ?_, ?_⟩
      · rw [List.flatten_cons, hcs, List.append_assoc]
      · rw [List.flatten_cons, hds, List.append_assoc]
      · rw [feedAll_cons ids hw, feedAll_cons ids hw]
        intro heq
        obtain ⟨h₁, h₂⟩ := Prod.mk.inj heq
        exact hne (Prod.ext (List.cons.inj h₁).2 h₂)

end ResponseParser

/-- **Where a stream is cut changes nothing** exactly as long as none of its heads is more than a byte longer than the
    limit. -/
theorem cuts_agree_iff (ids : Nat → RequestId) (bs : Bytes) :
    (∀ cs ds : List Bytes, cs.flatten = bs → ds.flatten = bs →
      ResponseParser.feedAll ids 0 .new cs = ResponseParser.feedAll ids 0 .new ds) ↔ ¬Overlong bs := by
  rw [overlong_iff]
  constructor
  · intro h hlong
    obtain ⟨cs, ds, hcs, hds, hne⟩ := ResponseParser.cuts_differ ids hlong 0
    exact hne (h cs ds hcs hds)
  · intro h cs ds hcs hds
    have hread : ∀ pieces : List Bytes, pieces.flatten = bs →
        ResponseParser.feedAll ids 0 .new pieces = (ResponseParser.ahead .new bs).outcome ids 0 := by
      rintro pieces rfl
      exact ResponseParser.feedAll_outcome ids ResponseParser.ready_new rfl (ResponseParser.fits_between h)
    rw [hread cs hcs, hread ds hds]

/-- A response with a field of 65,536 bytes. -/
def longLine : Bytes := ascii "HTTP/1.1 204 No Content"

def longField : ResponseHead.Field := ⟨ascii "A", List.replicate MAX_RESPONSE_HEAD 0x61⟩

def longResponse : Bytes :=
  longLine ++ ResponseHead.crlf ++ ResponseHead.fieldLines [longField] ++ ResponseHead.crlf

theorem parse_longResponse : ∃ h, ResponseHead.parse longResponse MAX_HEADERS = .ok (h, longResponse.length) ∧
    h.status = .NO_CONTENT := by
  have hline : ResponseHead.IsStatusLine longLine .http11 .NO_CONTENT (ascii "No Content") := by
    refine ⟨ascii "HTTP/1.1", ascii "204", by decide, by decide, by decide, by decide, .inr ⟨by decide, ?_⟩⟩
    unfold ResponseHead.IsText
    decide +kernel
  have hfields : ∀ f ∈ [longField], f.WellFormed := by
    intro f hf
    rw [List.mem_singleton.mp hf]
    refine ⟨by decide, by decide +kernel, fun b hb => ?_⟩
    rw [List.eq_of_mem_replicate hb]
    unfold ResponseHead.IsText
    decide
  have hparse := ResponseHead.parse_fields hline hfields (show 1 ≤ MAX_HEADERS by decide) []
  rw [List.append_nil] at hparse
  exact ⟨_, hparse, rfl⟩

theorem length_oneField (f : ResponseHead.Field) :
    (longLine ++ ResponseHead.crlf ++ ResponseHead.fieldLines [f] ++ ResponseHead.crlf).length =
      f.name.length + f.raw.length + 30 := by
  have hline : longLine.length = 23 := by decide
  simp only [ResponseHead.fieldLines, ResponseHead.Field.wire, ResponseHead.crlf, List.flatMap_cons, List.flatMap_nil,
    List.length_append, List.length_cons, List.length_nil, hline]
  omega

theorem length_longResponse : longResponse.length = MAX_RESPONSE_HEAD + 31 := by
  have hlen := length_oneField longField
  have hname : longField.name.length = 1 := by decide
  have hraw : longField.raw.length = MAX_RESPONSE_HEAD := List.length_replicate
  rw [hname, hraw] at hlen
  unfold longResponse
  omega

/-- Whole it is a response. Cut behind the limit it is refused. -/
theorem cuts_differ_longResponse :
    (∃ response, ResponseParser.feedAll (fun _ => 0) 0 .new [longResponse] = ([response], none)) ∧
      ResponseParser.feedAll (fun _ => 0) 0 .new
          [longResponse.take (MAX_RESPONSE_HEAD + 1), longResponse.drop (MAX_RESPONSE_HEAD + 1)] =
        ([], some (.connection .headTooLarge)) ∧
      [longResponse.take (MAX_RESPONSE_HEAD + 1), longResponse.drop (MAX_RESPONSE_HEAD + 1)].flatten =
        [longResponse].flatten := by
  obtain ⟨h, hparse, hstatus⟩ := parse_longResponse
  obtain ⟨hfour, hfind⟩ := ResponseHead.parse_first_blank hparse
  have hlen := length_longResponse
  have hlong : LongHead longResponse := ⟨_, hfind, by omega⟩
  have hframing : BodyFraming.fromResponse h.status .get (h.headers.map HeaderSlice.header) = .ok .none := by
    rw [hstatus]
    rfl
  have hsize : longResponse.length ≤ MAX_ADDRESSABLE_HEAD := by
    rw [hlen]
    decide
  obtain ⟨q, hq, hf⟩ := parseHead_of_parse hparse hframing hsize
  have htake : longResponse.take (longResponse.length - 4 + 4) = longResponse := by
    rw [Nat.sub_add_cancel hfour, List.take_length]
  have hread := readFront_head hfind (by rw [htake]; exact hq) []
  have hover : q.framing.read (longResponse.drop (longResponse.length - 4 + 4) ++ []) = ⟨[], .done, 0⟩ := by
    rw [hf]
    rfl
  rw [List.append_nil, PartialResponse.read_done hover, Nat.sub_add_cancel hfour, List.drop_length] at hread
  refine ⟨⟨_, ResponseParser.feedAll_cons _ hread 0 []⟩, ResponseParser.feedAll_cut _ hlong 0, by simp⟩

end Xibalba.Iouring
