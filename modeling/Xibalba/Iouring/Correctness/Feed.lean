import Xibalba.Iouring.Complete
import Xibalba.Proto.Correctness.ChunkedExact
import Xibalba.Proto.Correctness.HeadRanges

/-!
# `Iouring.Correctness.Feed` — what the parser makes of a stream of responses

The bytes of some responses arrive in pieces, and the parser is fed the pieces. Wherever the stream has been cut, the
parser stands before the responses that are still to be completed, `Stands`, and a feed completes the first of them as
soon as its last byte is there.

Layout:
* `pump`, on the wire form of a body that ends by itself;
* `parseHead_eq`, what is read off a head;
* `Message`, a response as it stands on the wire, and its head;
* `Stands`, and `feed_spec`.
-/

namespace Xibalba.Iouring

open ChunkedDecoder (Inv Advances run)
open ChunkedGrammar (Accepts ChunkedBody)

/-! ## The decode loop -/

namespace PartialResponse

/-- What the decode loop may return when `xs` is in front of it. -/
inductive Pumped.Of (d : ChunkedDecoder) (xs : Bytes) (pos : Nat) (body : Bytes) : Pumped → Prop where
  | more {d' : ChunkedDecoder} {out : Bytes} (hi : Inv d') (hd : d'.isDone = false) (h : Advances d xs out d') :
      Pumped.Of d xs pos body ⟨d', pos + xs.length, body ++ out, false, none⟩
  | done {d' : ChunkedDecoder} {out : Bytes} {k : Nat} (hk : k ≤ xs.length)
      (h : ∀ rest, run d (xs ++ rest) = ⟨out, .done, k⟩) :
      Pumped.Of d xs pos body ⟨d', pos + k, body ++ out, true, none⟩
  | error {d' : ChunkedDecoder} {out : Bytes} {k : Nat} {e : ParseError}
      (h : ∀ rest, run d (xs ++ rest) = ⟨out, .error e, k⟩) :
      Pumped.Of d xs pos body ⟨d', pos + k, body ++ out, false, some e⟩

/-- A turn that consumed `k` bytes and delivered `out`, and what follows it. -/
theorem Pumped.Of.after {d d' : ChunkedDecoder} {xs body out : Bytes} {pos k : Nat} {r : Pumped} (hk : k ≤ xs.length)
    (hrun : ∀ rest, run d (xs ++ rest) = (run d' (xs.drop k ++ rest)).after out k)
    (h : Pumped.Of d' (xs.drop k) (pos + k) (body ++ out) r) : Pumped.Of d xs pos body r := by
  have hlen : (xs.drop k).length = xs.length - k := List.length_drop
  cases h with
  | @more d₂ out₂ hi hd h =>
      have hpos : pos + k + (xs.drop k).length = pos + xs.length := by omega
      rw [hpos, List.append_assoc]
      refine .more hi hd fun rest => ?_
      rw [hrun, h rest, ChunkedDecoder.Outcome.after_after]
      congr 1
      omega
  | @done d₂ out₂ k₂ hk₂ h =>
      rw [Nat.add_assoc, List.append_assoc]
      refine .done (by omega) fun rest => ?_
      rw [hrun, h rest]
      rfl
  | @error d₂ out₂ k₂ e h =>
      rw [Nat.add_assoc, List.append_assoc]
      refine .error fun rest => ?_
      rw [hrun, h rest]
      rfl

/-- **The decode loop** returns, in at most one turn more than there are bytes. -/
theorem pumpLoop_spec (data : Bytes) {turns : Nat} {d : ChunkedDecoder} {pos : Nat} (body : Bytes) (hpos : pos ≤ data.length)
    (hd : Inv d ∨ (∃ e, d.state = .failed e) ∧ pos < data.length) (hturns : data.length - pos < turns) :
    ∃ r, pumpLoop data turns d pos body = some r ∧ Pumped.Of d (data.drop pos) pos body r := by
  induction turns generalizing d pos body with
  | zero => omega
  | succ turns ih =>
      unfold pumpLoop
      have hlen : (data.drop pos).length = data.length - pos := List.length_drop
      by_cases hgo : pos < data.length ∧ (!d.isDone) = true
      · rw [if_pos hgo]
        obtain ⟨hlt, hnot⟩ := hgo
        rcases hd with hi | ⟨⟨e, he⟩, -⟩
        · have hst := ChunkedDecoder.decode_stretch hi (data.drop pos) (show 0 < BLOCK_SIZE by decide)
          generalize d.decode (data.drop pos) BLOCK_SIZE = res at hst
          cases hst with
          | @data d' k out hout hk hle hinv hrun =>
              dsimp only
              by_cases hdone : d'.isDone = true
              · rw [if_pos hdone]
                refine ⟨_, rfl, .done hle fun rest => ?_⟩
                have hs : d'.state = .done := by simpa [ChunkedDecoder.isDone] using hdone
                rw [hrun, ChunkedDecoder.run_done hs]
                simp [ChunkedDecoder.Outcome.after]
              · rw [if_neg hdone]
                have hinv' : Inv d' ∨ (∃ e, d'.state = .failed e) ∧ pos + k < data.length := by
                  rcases hinv with hinv | ⟨hfail, hlt'⟩
                  · exact .inl hinv
                  · exact .inr ⟨hfail, by omega⟩
                obtain ⟨r, hr, hof⟩ := ih (body ++ out) (by omega) hinv' (by omega)
                rw [← List.drop_drop] at hof
                exact ⟨r, hr, hof.after hle hrun⟩
          | @needMore d' hinv hdone hadv =>
              dsimp only
              rw [hdone]
              refine ⟨_, rfl, ?_⟩
              have h : Pumped.Of d (data.drop pos) pos body ⟨d', _, body ++ [], _, _⟩ := .more hinv hdone hadv
              rwa [List.append_nil] at h
          | @done d' k hk hdone hrun =>
              refine ⟨_, rfl, ?_⟩
              have h : Pumped.Of d (data.drop pos) pos body ⟨d', _, body ++ [], _, _⟩ := .done hk hrun
              rwa [List.append_nil] at h
          | @error d' e k hk hrun _ =>
              refine ⟨_, rfl, ?_⟩
              have h : Pumped.Of d (data.drop pos) pos body ⟨d', _, body ++ [], _, _⟩ := .error hrun
              rwa [List.append_nil] at h
        · -- the verdict of an earlier turn
          have hdec : d.decode (data.drop pos) BLOCK_SIZE = ⟨d, .error e, 0, []⟩ := by simp [ChunkedDecoder.decode, he]
          rw [hdec]
          refine ⟨_, rfl, ?_⟩
          have hne : data.drop pos ≠ [] := List.ne_nil_of_length_pos (by omega)
          have h : Pumped.Of d (data.drop pos) pos body ⟨d, pos + 0, body ++ [], false, some e⟩ :=
            .error fun rest => ChunkedDecoder.run_failed he (List.append_ne_nil_of_left_ne_nil hne rest)
          rwa [List.append_nil] at h
      · rw [if_neg hgo]
        refine ⟨_, rfl, ?_⟩
        by_cases hdone : d.isDone = true
        · have hs : d.state = .done := by simpa [ChunkedDecoder.isDone] using hdone
          have h : Pumped.Of d (data.drop pos) pos body ⟨d, pos + 0, body ++ [], true, none⟩ :=
            .done (Nat.zero_le _) fun rest => ChunkedDecoder.run_done hs _
          rw [hdone]
          rwa [List.append_nil] at h
        · have hend : ¬pos < data.length := fun hlt => hgo ⟨hlt, by simpa using hdone⟩
          have hnil : data.drop pos = [] := List.drop_eq_nil_iff.mpr (by omega)
          have hi : Inv d := by
            rcases hd with hi | ⟨-, hlt⟩
            · exact hi
            · exact absurd hlt hend
          have hfalse : d.isDone = false := by simpa using hdone
          have h : Pumped.Of d [] pos body ⟨d, pos + 0, body ++ [], false, none⟩ := .more hi hfalse (Advances.refl d)
          rw [hnil, hfalse]
          rwa [List.append_nil] at h

/-- The loop as `pump` enters it. -/
theorem pumpLoop_start {d : ChunkedDecoder} (hi : Inv d) (data : Bytes) :
    ∃ r, pumpLoop data (data.length + 1) d 0 [] = some r ∧ Pumped.Of d data 0 [] r :=
  pumpLoop_spec data [] (Nat.zero_le _) (.inl hi) (Nat.lt_succ_self _)

/-! ## A body that ends by itself -/

end PartialResponse

/-- The bytes `w` are what is missing of the body, and carry `out`. -/
def InternalFraming.Owes : InternalFraming → Bytes → Bytes → Prop
  | .contentLength n, w, out => 0 < n ∧ w.length = n ∧ out = w
  | .chunked d, w, out => Inv d ∧ d.isDone = false ∧ Accepts d w out
  | .untilClose, _, _ => False
  | .done, _, _ => False

theorem InternalFraming.Owes.ne_nil {f : InternalFraming} {w out : Bytes} (h : f.Owes w out) : w ≠ [] := by
  rintro rfl
  cases f with
  | contentLength n =>
      obtain ⟨hpos, hlen, -⟩ := h
      cases hlen
      cases hpos
  | chunked d =>
      obtain ⟨-, hdone, hacc⟩ := h
      have hs := (ChunkedGrammar.accepts_nil.mp hacc).1
      rw [ChunkedDecoder.isDone, hs] at hdone
      cases hdone
  | untilClose => exact h
  | done => exact h

namespace PartialResponse

/-- A piece that stops short of the end of the body. -/
theorem pump_short {q : PartialResponse} {data w out : Bytes} (h : q.framing.Owes (data ++ w) out) (hw : w ≠ []) :
    ∃ f out₁ out₂, q.pump data = ({ q with bodyBuf := q.bodyBuf ++ out₁, framing := f }, .ok data.length) ∧ f.Owes w out₂ ∧
      out = out₁ ++ out₂ := by
  have hpos : 0 < w.length := List.length_pos_iff.mpr hw
  unfold pump
  cases hf : q.framing with
  | contentLength n =>
      rw [hf] at h
      obtain ⟨-, hlen, rfl⟩ := h
      rw [List.length_append] at hlen
      have hmin : min data.length n = data.length := by omega
      refine ⟨.contentLength (n - data.length), data, w, ?_, ⟨by omega, by omega, rfl⟩, rfl⟩
      dsimp only
      rw [hmin, if_neg (by omega), List.take_length]
  | chunked d =>
      rw [hf] at h
      obtain ⟨hi, -, hacc⟩ := h
      obtain ⟨r, hr, hof⟩ := pumpLoop_start hi data
      dsimp only
      rw [hr]
      have hacc : run d (data ++ w) = ⟨out, .done, (data ++ w).length⟩ := hacc
      cases hof with
      | @more d' out₁ hi' hdone hadv =>
          rw [hadv w] at hacc
          rcases hrun : run d' w with ⟨body, verdict, consumed⟩
          rw [hrun] at hacc
          simp only [ChunkedDecoder.Outcome.after, ChunkedDecoder.Outcome.mk.injEq, List.length_append] at hacc
          obtain ⟨hout, rfl, hk⟩ := hacc
          have hk : consumed = w.length := by omega
          refine ⟨.chunked d', out₁, body, ?_, ⟨hi', hdone, ?_⟩, hout.symm⟩
          · simp
          · rw [Accepts, hrun, hk]
      | @done d' out₁ k hk hrun =>
          rw [hrun w] at hacc
          cases hacc
          rw [List.length_append] at hk
          omega
      | error hrun =>
          rw [hrun w] at hacc
          cases hacc
  | untilClose =>
      rw [hf] at h
      exact h.elim
  | done =>
      rw [hf] at h
      exact h.elim

/-- A piece with the rest of the body in front. -/
theorem pump_whole {q : PartialResponse} {w out : Bytes} (more : Bytes) (h : q.framing.Owes w out) :
    ∃ f, q.pump (w ++ more) = ({ q with bodyBuf := q.bodyBuf ++ out, bodyDone := true, framing := f }, .ok w.length) := by
  unfold pump
  cases hf : q.framing with
  | contentLength n =>
      rw [hf] at h
      obtain ⟨-, hlen, rfl⟩ := h
      have hmin : min (out ++ more).length n = n := by
        rw [List.length_append]
        omega
      refine ⟨.contentLength 0, ?_⟩
      dsimp only
      rw [hmin, Nat.sub_self, if_pos rfl, ← hlen, List.take_left]
  | chunked d =>
      rw [hf] at h
      obtain ⟨hi, -, hacc⟩ := h
      obtain ⟨r, hr, hof⟩ := pumpLoop_start hi (w ++ more)
      dsimp only
      rw [hr]
      have hacc := ChunkedGrammar.run_of_accepts hacc more
      cases hof with
      | @more d' out₁ hi' hdone hadv =>
          -- a decoder that is not done has not seen the end
          have hadv := hadv []
          rw [List.append_nil, hacc] at hadv
          have hverdict := congrArg ChunkedDecoder.Outcome.verdict hadv
          simp [ChunkedDecoder.Outcome.after, run, hdone] at hverdict
      | @done d' out₁ k hk hrun =>
          have hrun := hrun []
          rw [List.append_nil, hacc] at hrun
          cases hrun
          refine ⟨.chunked d', ?_⟩
          simp
      | error hrun =>
          have hrun := hrun []
          rw [List.append_nil, hacc] at hrun
          cases hrun
  | untilClose =>
      rw [hf] at h
      exact h.elim
  | done =>
      rw [hf] at h
      exact h.elim

end PartialResponse

/-! ## Heads -/

namespace ResponseParser

/-- Reading a head is parsing it, framing it, and writing down where its headers stand. -/
theorem parseHead_eq (bytes : Bytes) : parseHead bytes [] =
    match ResponseHead.parse bytes MAX_HEADERS with
    | .error e => .error (.parse e)
    | .ok (head, consumed) =>
      match BodyFraming.fromResponse head.status .get (head.headers.map HeaderSlice.header) with
      | .error e => .error (.parse e)
      | .ok framing =>
        match HeaderRange.buildRanges head.headers bytes with
        | .error e => .error e
        | .ok ranges => .ok (⟨head.version, head.status, ⟨bytes, ranges, head.headers.length⟩, [],
            (internalFraming framing).2, (internalFraming framing).1⟩, consumed) := by
  unfold parseHead
  cases ResponseHead.parse bytes MAX_HEADERS with
  | error e => rfl
  | ok parsed =>
      obtain ⟨head, consumed⟩ := parsed
      dsimp only [Except.mapError, bind, Except.bind, pure, Except.pure]
      cases BodyFraming.fromResponse head.status .get (head.headers.map HeaderSlice.header) with
      | error e => rfl
      | ok framing =>
          dsimp only
          cases HeaderRange.buildRanges head.headers bytes with
          | error e => rfl
          | ok ranges => rfl

end ResponseParser

/-! ## Messages -/

open ResponseHead (Field IsStatusLine fieldLines crlf slices)

/-- The bytes `w` are a body of this framing that ends by itself, and carry `out`. -/
def Delimits : BodyFraming → Bytes → Bytes → Prop
  | .none, w, out => w = [] ∧ out = []
  | .contentLength n, w, out => w.length = n ∧ out = w
  | .chunked, w, out => ChunkedBody w out
  | .untilClose, _, _ => False

/-- A response as it stands on the wire: its status line, its fields, and the wire form of its body, which carries
    `content`. -/
structure Message where
  line : Bytes
  version : Version
  status : StatusCode
  reason : Bytes
  fields : List Field
  body : Bytes
  content : Bytes

namespace Message

def head (m : Message) : Bytes := m.line ++ crlf ++ fieldLines m.fields ++ crlf

def wire (m : Message) : Bytes := m.head ++ m.body

/-- The fields as the framing rules see them. -/
def headers (m : Message) : List Header := m.fields.map fun f => ⟨.raw f.header.1, f.header.2⟩

/-- A response to a GET that ends by itself, within the driver's limits. -/
structure WellFormed (m : Message) : Prop where
  line : IsStatusLine m.line m.version m.status m.reason
  fields : ∀ f ∈ m.fields, f.WellFormed
  count : m.fields.length ≤ MAX_HEADERS
  size : m.head.length ≤ MAX_RESPONSE_HEAD
  body : ∃ framing, BodyFraming.fromResponse m.status .get m.headers = .ok framing ∧ Delimits framing m.body m.content

/-- The headers as slices of the head. -/
def headerSlices (m : Message) : List HeaderSlice := slices (m.line.length + 2) m.fields

/-- What the driver keeps of the head. -/
def headData (m : Message) : HeadData :=
  ⟨m.head, m.headerSlices.map HeaderRange.ofSlices ++ List.replicate (MAX_HEADERS - m.headerSlices.length) HeaderRange.default,
    m.fields.length⟩

/-- The response as it is delivered for a request. -/
def response (m : Message) (requestId : RequestId) : Response := ⟨requestId, m.version, m.status, m.headData, m.content⟩

theorem slice_within {s : Slice} {src : Bytes} (h : s.Within src) :
    HeadData.slice src s.start s.bytes.length = some s.bytes := by
  rw [HeadData.slice, if_pos h.length_le, h.take]

theorem length_headerSlices (m : Message) : m.headerSlices.length = m.fields.length := by
  have hlen := congrArg List.length (ResponseHead.pair_slices (m.line.length + 2) m.fields)
  rwa [List.length_map, List.length_map] at hlen

/-- The headers as the framing rules see them. -/
theorem header_headerSlices (m : Message) : m.headerSlices.map HeaderSlice.header = m.headers := by
  have hpair := ResponseHead.pair_slices (m.line.length + 2) m.fields
  have hmap := congrArg (List.map fun p : Bytes × Bytes => Header.mk (.raw p.1) p.2) hpair
  rw [List.map_map, List.map_map] at hmap
  exact hmap

/-- The ranges of the fields. -/
theorem take_ranges (m : Message) : m.headData.ranges.take m.fields.length = m.headerSlices.map HeaderRange.ofSlices := by
  show List.take m.fields.length (_ ++ _) = _
  rw [← length_headerSlices, ← List.length_map (f := HeaderRange.ofSlices), List.take_left]

section

variable {m : Message} (hm : m.WellFormed)

include hm

theorem WellFormed.parse : ResponseHead.parse m.head MAX_HEADERS =
    .ok (⟨m.version, m.status, m.reason, m.headerSlices⟩, m.head.length) := by
  have hparse := ResponseHead.parse_fields hm.line hm.fields hm.count []
  rw [List.append_nil] at hparse
  exact hparse

theorem WellFormed.within : ∀ h ∈ m.headerSlices, h.Within m.head := by
  intro h hmem
  have hin := ResponseHead.within_slices hm.fields (m.line ++ crlf) crlf h
  rw [← List.append_assoc, List.length_append] at hin
  exact hin hmem

theorem WellFormed.buildRanges : HeaderRange.buildRanges m.headerSlices m.head = .ok m.headData.ranges :=
  HeaderRange.buildRanges_within hm.within (by rw [length_headerSlices]; exact hm.count)
    (Nat.le_trans hm.size (by decide))

/-- The headers of a delivered response are the fields, in order. -/
theorem WellFormed.headers_response (requestId : RequestId) :
    (m.response requestId).headers = m.fields.map Field.header := by
  have hread : ∀ h ∈ m.headerSlices, (do
      let name ← HeadData.slice m.head (HeaderRange.ofSlices h).nameStart (HeaderRange.ofSlices h).nameLen
      let value ← HeadData.slice m.head (HeaderRange.ofSlices h).valueStart (HeaderRange.ofSlices h).valueLen
      return (name, value)) = some h.pair := by
    intro h hmem
    have hin := hm.within h hmem
    show (do
      let name ← HeadData.slice m.head h.name.start h.name.bytes.length
      let value ← HeadData.slice m.head h.value.start h.value.bytes.length
      return (name, value)) = _
    rw [slice_within hin.1, slice_within hin.2.1]
    rfl
  show HeadData.headers m.headData = _
  unfold HeadData.headers
  rw [show m.headData.headerCount = m.fields.length from rfl, take_ranges, List.filterMap_map, ← ResponseHead.pair_slices (m.line.length + 2)]
  exact List.filterMap_eq_map_iff_forall_eq_some.mpr hread

/-- The end of a head is the first blank line. -/
theorem WellFormed.find (rest : Bytes) :
    Bytes.findWindow (ascii "\r\n\r\n") (m.head ++ rest) = some (m.head.length - 4) ∧ 4 ≤ m.head.length := by
  have hparse := ResponseHead.parse_fields hm.line hm.fields (Nat.le_refl _) rest
  obtain ⟨hlen, hfind⟩ := ResponseHead.parse_first_blank hparse
  exact ⟨hfind, hlen⟩

/-- Before its last byte there is none. -/
theorem WellFormed.find_short {acc : Bytes} (hacc : acc <+: m.head) (hlt : acc.length < m.head.length) :
    Bytes.findWindow (ascii "\r\n\r\n") acc = none := by
  obtain ⟨hfind, hlen⟩ := hm.find []
  rw [List.append_nil] at hfind
  have hk : acc.length < m.head.length - 4 + (ascii "\r\n\r\n").length := by
    rw [show (ascii "\r\n\r\n").length = 4 by decide]
    omega
  have hcut := Bytes.findWindow_cut (by decide) hfind hk
  rwa [← List.prefix_iff_eq_take.mp hacc] at hcut

end

/-- `q` is on its way to the response `m`. -/
structure Begun (m : Message) (q : PartialResponse) : Prop where
  version : q.version = m.version
  status : q.status = m.status
  head : q.head = m.headData

theorem Begun.response {m : Message} {q : PartialResponse} (h : m.Begun q) (hbody : q.bodyBuf = m.content)
    (requestId : RequestId) : q.response requestId = m.response requestId := by
  show Response.mk requestId q.version q.status q.head q.bodyBuf = _
  rw [h.version, h.status, h.head, hbody]
  rfl

/-- What the pump changes leaves the response the same. -/
theorem Begun.pumped {m : Message} {q : PartialResponse} (h : m.Begun q) (bodyBuf : Bytes) (bodyDone : Bool)
    (framing : InternalFraming) : m.Begun { q with bodyBuf := bodyBuf, bodyDone := bodyDone, framing := framing } :=
  ⟨h.version, h.status, h.head⟩

/-- What the head of a response makes of the parser: the response is complete, or the body is owed. -/
theorem WellFormed.parseHead {m : Message} (hm : m.WellFormed) :
    ∃ q, ResponseParser.parseHead m.head [] = .ok (q, m.head.length) ∧ m.Begun q ∧ q.bodyBuf = [] ∧
      (q.bodyDone = true ∧ m.body = [] ∧ m.content = [] ∨ q.bodyDone = false ∧ q.framing.Owes m.body m.content) := by
  obtain ⟨framing, hframing, hbody⟩ := hm.body
  have hhead : ResponseParser.parseHead m.head [] = .ok (⟨m.version, m.status, m.headData, [],
      (ResponseParser.internalFraming framing).2, (ResponseParser.internalFraming framing).1⟩, m.head.length) := by
    rw [ResponseParser.parseHead_eq, hm.parse]
    dsimp only
    rw [header_headerSlices, hframing]
    dsimp only
    rw [hm.buildRanges, length_headerSlices]
    rfl
  refine ⟨_, hhead, ⟨rfl, rfl, rfl⟩, rfl, ?_⟩
  cases framing with
  | none => exact .inl ⟨rfl, hbody⟩
  | contentLength n =>
      obtain ⟨hlen, hcontent⟩ := hbody
      by_cases hn : n = 0
      · have hnil : m.body = [] := List.length_eq_zero_iff.mp (hlen.trans hn)
        exact .inl ⟨decide_eq_true hn, hnil, hcontent.trans hnil⟩
      · exact .inr ⟨decide_eq_false hn, Nat.pos_of_ne_zero hn, hlen, hcontent⟩
  | chunked => exact .inr ⟨rfl, ChunkedDecoder.inv_new, rfl, ChunkedGrammar.accepts_new.mpr hbody⟩
  | untilClose => exact hbody.elim

end Message

/-! ## The parser on a stream of responses -/

/-- The bytes of these responses. -/
def wires (ms : List Message) : Bytes := ms.flatMap Message.wire

@[simp] theorem wires_cons (m : Message) (ms : List Message) : wires (m :: ms) = m.wire ++ wires ms := List.flatMap_cons

/-- The parser stands before the responses `ms`, of which the bytes `rest` are still to come. -/
inductive Stands : ResponseParser → List Message → Bytes → Prop where
  | between {acc rest : Bytes} {ms : List Message} (h : acc ++ rest = wires ms) : Stands ⟨acc, [], none⟩ ms rest
  | inside {acc w out : Bytes} {q : PartialResponse} {m : Message} {ms : List Message} (hq : m.Begun q)
      (hdone : q.bodyDone = false) (howes : q.framing.Owes w out) (hbody : q.bodyBuf ++ out = m.content)
      (hw : w <:+ m.wire) : Stands ⟨acc, [], some q⟩ (m :: ms) (w ++ wires ms)

/-- No more is to come than the responses. -/
theorem Stands.length_le {p : ResponseParser} {ms : List Message} {rest : Bytes} (h : Stands p ms rest) :
    rest.length ≤ (wires ms).length := by
  cases h with
  | between h =>
      rw [← h, List.length_append]
      exact Nat.le_add_left _ _
  | inside _ _ _ _ hw =>
      rw [wires_cons, List.length_append, List.length_append]
      exact Nat.add_le_add_right hw.length_le _

/-- Something of the first response is still to come. -/
def Lacks (ms : List Message) (rest : Bytes) : Prop := ∀ m ms', ms = m :: ms' → (wires ms').length < rest.length

/-- What a feed makes of the responses `ms` and of the bytes still to come: the first response, or nothing. -/
inductive Fed (ms : List Message) (rest : Bytes) (requestId : RequestId) :
    ResponseParser × Except Error (Option Response) → Prop where
  | response {p : ResponseParser} {m : Message} {ms' : List Message} (hms : ms = m :: ms') (hp : Stands p ms' rest) :
      Fed ms rest requestId (p, .ok (some (m.response requestId)))
  | more {p : ResponseParser} (hp : Stands p ms rest) (hlacks : Lacks ms rest) : Fed ms rest requestId (p, .ok none)

/-- The two ways in which one list stands to the front of another. -/
theorem split_front {α : Type} {xs ys w zs : List α} (h : xs ++ ys = w ++ zs) :
    (∃ w', w = xs ++ w' ∧ w' ≠ [] ∧ ys = w' ++ zs) ∨ ∃ more, xs = w ++ more ∧ zs = more ++ ys := by
  rcases List.append_eq_append_iff.mp h with ⟨w', rfl, rfl⟩ | ⟨more, rfl, rfl⟩
  · cases w' with
    | nil => exact .inr ⟨[], by simp⟩
    | cons b w' => exact .inl ⟨b :: w', rfl, List.cons_ne_nil _ _, rfl⟩
  · exact .inr ⟨more, rfl, rfl⟩

theorem lacks_cons {m : Message} {ms : List Message} {w : Bytes} (hw : w ≠ []) : Lacks (m :: ms) (w ++ wires ms) := by
  intro m' ms' heq
  cases heq
  have hpos : 0 < w.length := List.length_pos_iff.mpr hw
  rw [List.length_append]
  omega

/-- A feed inside a response. -/
theorem feed_inside {acc w out data rest : Bytes} {q : PartialResponse} {m : Message} {ms : List Message} (hq : m.Begun q)
    (hdone : q.bodyDone = false) (howes : q.framing.Owes w out) (hbody : q.bodyBuf ++ out = m.content) (hw : w <:+ m.wire)
    (hrest : data ++ rest = w ++ wires ms) (requestId : RequestId) :
    Fed (m :: ms) rest requestId (ResponseParser.feed ⟨acc, [], some q⟩ data requestId) := by
  unfold ResponseParser.feed
  rcases split_front hrest with ⟨w', rfl, hw', rfl⟩ | ⟨more, rfl, hmore⟩
  · -- the piece stops short of the end of the body
    have hlacks : Lacks (m :: ms) (w' ++ wires ms) := lacks_cons hw'
    cases data with
    | nil =>
        dsimp only
        rw [if_pos List.isEmpty_nil, hdone]
        exact .more (.inside hq hdone howes hbody hw) hlacks
    | cons b data =>
        obtain ⟨f, out₁, out₂, hpump, howes', rfl⟩ := PartialResponse.pump_short howes hw'
        dsimp only
        rw [if_neg (by simp), hpump]
        dsimp only
        rw [hdone]
        refine .more (.inside (hq.pumped _ _ _) rfl howes' ?_ ((List.suffix_append _ _).trans hw)) hlacks
        rw [List.append_assoc]
        exact hbody
  · have hne : ¬(w ++ more).isEmpty = true := by
      rw [List.isEmpty_iff]
      exact List.append_ne_nil_of_left_ne_nil howes.ne_nil more
    obtain ⟨f, hpump⟩ := PartialResponse.pump_whole more howes
    dsimp only
    rw [if_neg hne, hpump]
    dsimp only
    rw [if_pos rfl, List.drop_left, (hq.pumped (q.bodyBuf ++ out) true f).response hbody]
    exact .response rfl (.between hmore.symm)

/-- A feed between responses, `acc` being what the parser has collected then. -/
theorem parse_between {acc rest : Bytes} {ms : List Message} (hms : ∀ m ∈ ms, m.WellFormed) (h : acc ++ rest = wires ms)
    (requestId : RequestId) :
    ∃ p r, ResponseParser.parseHeadAndMaybeFinish ⟨acc, [], none⟩ requestId = (p, r) ∧
      Fed ms rest requestId (p, r.map fun response => response.map Prod.fst) := by
  unfold ResponseParser.parseHeadAndMaybeFinish
  cases ms with
  | nil =>
      obtain ⟨rfl, rfl⟩ := List.append_eq_nil_iff.mp h
      refine ⟨_, _, rfl, .more (.between rfl) ?_⟩
      nofun
  | cons m ms =>
      have hm := hms m List.mem_cons_self
      rw [wires_cons, Message.wire, List.append_assoc] at h
      rcases split_front h with ⟨w, hw, hne, rfl⟩ | ⟨after, rfl, hafter⟩
      · -- the head is not complete
        have hlen : acc.length < m.head.length := by
          have hpos : 0 < w.length := List.length_pos_iff.mpr hne
          rw [hw, List.length_append]
          omega
        have hsize := hm.size
        dsimp only
        rw [hm.find_short ⟨w, hw.symm⟩ hlen]
        dsimp only
        rw [if_neg (by omega)]
        refine ⟨_, _, rfl, .more (.between ?_) ?_⟩
        · rw [wires_cons, Message.wire, hw]
          simp
        · rw [← List.append_assoc]
          exact lacks_cons (List.append_ne_nil_of_left_ne_nil hne _)
      · obtain ⟨hfind, hfour⟩ := hm.find after
        obtain ⟨q, hparse, hq, hnil, hbody⟩ := hm.parseHead
        dsimp only
        rw [hfind]
        dsimp only
        rw [Nat.sub_add_cancel hfour, List.take_left, hparse]
        dsimp only
        rw [Nat.sub_self, List.drop_left, List.drop_zero]
        rcases hbody with ⟨hdone, hbody, hcontent⟩ | ⟨hdone, howes⟩
        · -- there is no body
          rw [hbody, List.nil_append] at hafter
          rw [if_neg (by simp [hdone])]
          dsimp only
          rw [if_pos hdone, hq.response (hnil.trans hcontent.symm)]
          exact ⟨_, _, rfl, .response rfl (.between hafter.symm)⟩
        · cases after with
          | nil =>
              rw [if_neg (by simp)]
              dsimp only
              rw [List.nil_append] at hafter
              rw [if_neg (by simp [hdone]), ← hafter]
              refine ⟨_, _, rfl, .more (.inside hq hdone howes ?_ (List.suffix_append _ _)) (lacks_cons howes.ne_nil)⟩
              rw [hnil, List.nil_append]
          | cons b after =>
              rw [if_pos ⟨rfl, by simp [hdone]⟩]
              rcases split_front hafter.symm with ⟨w', hw, hw', rfl⟩ | ⟨more, hmore, hrest⟩
              · rw [hw] at howes
                obtain ⟨f, out₁, out₂, hpump, howes', hout⟩ := PartialResponse.pump_short howes hw'
                rw [hpump]
                dsimp only
                rw [if_neg (by simp [hdone])]
                have hleft : w' <:+ m.wire := by
                  rw [Message.wire, hw]
                  exact (List.suffix_append _ _).trans (List.suffix_append _ _)
                refine ⟨_, _, rfl, .more (.inside (hq.pumped _ _ _) hdone howes' ?_ hleft) (lacks_cons hw')⟩
                rw [hnil, List.nil_append, hout]
              · obtain ⟨f, hpump⟩ := PartialResponse.pump_whole more howes
                have hbody : q.bodyBuf ++ m.content = m.content := by rw [hnil, List.nil_append]
                rw [hmore, hpump]
                dsimp only
                rw [if_pos rfl, Nat.zero_add, List.drop_left, (hq.pumped (q.bodyBuf ++ m.content) true f).response hbody]
                exact ⟨_, _, rfl, .response rfl (.between hrest.symm)⟩

/-- **A feed** completes the first response as soon as its last byte is there. -/
theorem feed_spec {p : ResponseParser} {ms : List Message} {data rest : Bytes} (hms : ∀ m ∈ ms, m.WellFormed)
    (hp : Stands p ms (data ++ rest)) (requestId : RequestId) : Fed ms rest requestId (p.feed data requestId) := by
  generalize hall : data ++ rest = all at hp
  cases hp with
  | between h =>
      rw [← hall, ← List.append_assoc] at h
      obtain ⟨p, r, hparse, hfed⟩ := parse_between hms h requestId
      unfold ResponseParser.feed
      dsimp only
      rw [hparse]
      exact hfed
  | inside hq hdone howes hbody hw => exact feed_inside hq hdone howes hbody hw hall requestId

end Xibalba.Iouring
