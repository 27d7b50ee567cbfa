import Xibalba.Client.Correctness.Wire
import Xibalba.Proto.Correctness.ChunkedExact

/-!
# `Client.Correctness.Body` — what reading a body consumes

`Framed framing wire` says that `wire` is a whole body of that framing, no byte less and no byte more. A body
reader that reports its connection reusable has consumed such a `wire`: the tail of the head read and what it
read from the stream.

Layout:
* `Framed`;
* `Standing`, the relation between a decoder and the bytes that came in so far;
* the buffered reader.
-/

namespace Xibalba

open ChunkedDecoder ChunkedGrammar

/-- `wire` is exactly one body of this framing. A body that ends with its connection is never that. -/
def Framed : BodyFraming → Bytes → Prop
  | .none, wire => wire = []
  | .contentLength len, wire => wire.length = len
  | .chunked, wire => ∃ body, ChunkedBody wire body
  | .untilClose, _ => False

/-! ## The decoder on a stream -/

/-- Of the bytes `all` that came in, the decoder `d` has not consumed `left`, and it has emitted `out`. -/
structure Standing (all left out : Bytes) (d : ChunkedDecoder) : Prop where
  live : Inv d ∨ (∃ e, d.state = .failed e) ∧ left ≠ []
  le : left.length ≤ all.length
  run : ∀ rest, run new (all ++ rest) = (run d (left ++ rest)).after out (all.length - left.length)

namespace Standing

variable {all left out : Bytes} {d : ChunkedDecoder}

theorem new (all : Bytes) : Standing all all [] ChunkedDecoder.new :=
  ⟨.inl inv_new, Nat.le_refl _, by simp⟩

/-- More bytes come in once all of them are consumed. -/
theorem more (h : Standing all [] out d) (bs : Bytes) : Standing (all ++ bs) bs out d := by
  refine ⟨?_, by simp, ?_⟩
  · rcases h.live with hi | ⟨_, hne⟩
    · exact .inl hi
    · exact absurd rfl hne
  · intro rest
    have hlen : (all ++ bs).length - bs.length = all.length := by simp
    rw [List.append_assoc, h.run (bs ++ rest), hlen]
    simp

/-- What was emitted is the beginning of the decoded body. -/
theorem out_initial (h : Standing all left out d) : out <+: (ChunkedDecoder.run .new all).body := by
  have := h.run []
  rw [List.append_nil] at this
  rw [this]
  exact List.prefix_append _ _

/-- A decoder that is done has decoded the body; if no byte is left, the body is all there is. -/
theorem framed (h : Standing all [] out d) (hd : d.isDone = true) : ChunkedBody all out := by
  have hstate : d.state = .done := by simpa [isDone] using hd
  have := h.run []
  rw [List.append_nil, run_done hstate] at this
  exact accepts_new.mp (by simpa [Accepts, Outcome.after] using this)

/-- One call of `decode` on the bytes that are left. -/
theorem decode (h : Standing all left out d) {outLen : Nat} (hout : 0 < outLen) :
    match (d.decode left outLen).result with
    | .data _ => Standing all (left.drop (d.decode left outLen).consumed)
        (out ++ (d.decode left outLen).written) (d.decode left outLen).decoder
    | .needMore => Standing all [] out (d.decode left outLen).decoder ∧
        left.drop (d.decode left outLen).consumed = []
    | .done => Standing all (left.drop (d.decode left outLen).consumed) out (d.decode left outLen).decoder ∧
        (d.decode left outLen).decoder.isDone = true
    | .error _ => Standing all (left.drop (d.decode left outLen).consumed) out (d.decode left outLen).decoder ∨
        ∃ e, Refuses (d.decode left outLen).decoder (left.drop (d.decode left outLen).consumed) e
    | .panicked => False := by
  rcases h.live with hi | ⟨⟨e, he⟩, -⟩
  · have hst := decode_stretch hi left hout
    have hle := h.le
    generalize d.decode left outLen = res at hst
    cases hst with
    | @data d' k written hpos hk hkle hinv hrun =>
        dsimp only
        refine ⟨?_, ?_, ?_⟩
        · rcases hinv with hinv | ⟨hfail, hlt⟩
          · exact .inl hinv
          · refine .inr ⟨hfail, fun hnil => ?_⟩
            have := List.drop_eq_nil_iff.mp hnil
            omega
        · rw [List.length_drop]
          omega
        · intro rest
          rw [h.run rest, hrun rest, Outcome.after_after, List.length_drop]
          congr 1
          omega
    | @needMore d' hinv hnd hadv =>
        refine ⟨⟨.inl hinv, by simp, ?_⟩, by simp⟩
        intro rest
        rw [h.run rest, hadv rest, Outcome.after_after]
        simp only [List.append_nil, List.nil_append, List.length_nil]
        congr 1
        omega
    | @done d' k hk hd hrun =>
        dsimp only
        have hstate : d'.state = .done := by simpa [isDone] using hd
        refine ⟨⟨.inl ⟨by simp [hstate], by simp [hstate], by simp [hstate]⟩, ?_, ?_⟩, hd⟩
        · rw [List.length_drop]
          omega
        · intro rest
          rw [h.run rest, hrun rest, run_done hstate, List.length_drop]
          simp only [Outcome.after, List.append_nil, Outcome.mk.injEq, true_and]
          omega
    | @error d' e k hk hrun href => exact .inr ⟨e, href⟩
  · -- the verdict was held back for this call, and is held for the next one too
    have hdec : d.decode left outLen = ⟨d, .error e, 0, []⟩ := by simp [ChunkedDecoder.decode, he]
    rw [hdec]
    exact .inl h

end Standing

/-! ## Buffered bodies -/

/-- What a pass of the decode loop says about the bytes that came in: the end of the body with nothing left
    over is the end of a body that is all of them. -/
def BodyCollector.Pumped.Says (all : Bytes) : Pumped → Prop
  | .needMore d body => Standing all [] body d
  | .done _ leftover => leftover = [] → Framed .chunked all
  | .error e => e.refusesRedirect = false

theorem BodyCollector.pump_spec {maxBody turns : Nat} {whileInput : Bool} {d : ChunkedDecoder}
    {all body input : Bytes} (h : Standing all input body d) {p : Pumped}
    (hp : pump maxBody whileInput turns d body input = some p) : p.Says all := by
  induction turns generalizing d body input with
  | zero => cases hp
  | succ turns ih =>
      rw [pump] at hp
      split at hp
      next hend =>
        cases hp
        have hnil : input = [] := by
          rw [Bool.and_eq_true] at hend
          exact List.isEmpty_iff.mp hend.2
        subst hnil
        exact h
      next =>
        have hdec := h.decode (show 0 < HEAD_BUF_SIZE by decide)
        dsimp only at hp
        generalize d.decode input HEAD_BUF_SIZE = res at hdec hp
        obtain ⟨d', result, consumed, written⟩ := res
        cases result with
        | data n =>
            dsimp only at hp hdec
            split at hp
            · cases hp
              exact rfl
            · split at hp
              next hd =>
                cases hp
                intro hnil
                rw [hnil] at hdec
                exact ⟨_, hdec.framed hd⟩
              · exact ih hdec hp
        | needMore =>
            cases hp
            exact hdec.1
        | done =>
            cases hp
            intro hnil
            obtain ⟨hst, hd⟩ := hdec
            rw [hnil] at hst
            exact ⟨_, hst.framed hd⟩
        | error e =>
            cases hp
            exact rfl
        | panicked => cases hp

section

variable {G : Wire → Op → Prop} (hG : Lenient G) {stream : Stream} (hs : stream.Recorded G)

omit hG hs in
theorem BodyCollector.wp_pumped {maxBody : Nat} {whileInput : Bool} {d : ChunkedDecoder}
    {all body input : Bytes} (h : Standing all input body d) {l : Local} {w : Wire}
    {Q : Except Error Pumped → Local → Wire → Prop} (hQ : ∀ p : Pumped, p.Says all → Q (.ok p) l w) :
    Act.wp (watched G) (pumped maxBody whileInput d body input) Q l w := by
  unfold pumped
  split
  next p hp => exact Act.stays_ghost.mpr (hQ p (pump_spec h hp))
  · exact Act.wp_hang

include hG hs

/-- What a body reader leaves: the bytes it read, and if it says the connection can be reused, then with the
    `front` it was given they are one body. -/
def BodyCollector.Leaves (framing : BodyFraming) (front : Bytes) (l : Local) (w : Wire)
    (r : Except Error (Bytes × Bool)) (l' : Local) (w' : Wire) : Prop :=
  l'.client = l.client ∧ ∃ bs, match r with
    | .ok (_, reusable) => w' = w.receive bs ∧ (reusable = true → Framed framing (front ++ bs))
    | .error e => FailedProto (w.receive bs) e w'

theorem BodyCollector.wp_readChunkedMore (maxBody fuel turns : Nat) (b : SilenceBudget) {d : ChunkedDecoder}
    {all body : Bytes} (h : Standing all [] body d) (l : Local) (w : Wire) :
    Act.wp (watched G) (readChunkedMore stream maxBody fuel turns b d body)
      (Leaves .chunked all l w) l w := by
  induction turns generalizing b d all body l w with
  | zero => exact Act.wp_hang
  | succ turns ih =>
      simp only [readChunkedMore, Act.wp_bind]
      refine Act.wp_mono (SilenceBudget.wp_readProto hG hs _ fuel b l w) ?_
      rintro (e | ⟨bs, b⟩) l' w' ⟨hl, hw⟩
      · exact Act.stays_ghost.mpr ⟨hl, [], by simpa using hw⟩
      · subst hw
        simp only [Act.cont_ok]
        split
        · exact Act.stays_ghost.mpr ⟨hl, bs.val, .refl _ rfl⟩
        · refine Act.wp_bind.mpr (wp_pumped (h.more bs.val) fun p hp => ?_)
          cases p with
          | needMore d' body' =>
              refine Act.wp_mono (ih b hp l' _) ?_
              rintro (e | ⟨body, reusable⟩) l'' w'' ⟨hl', more, hmore⟩
              · exact ⟨hl'.trans hl, bs.val ++ more, by simpa using hmore⟩
              · exact ⟨hl'.trans hl, bs.val ++ more, by simpa using hmore⟩
          | done body' leftover =>
              refine Act.stays_ghost.mpr ⟨hl, bs.val, rfl, fun hnil => ?_⟩
              exact hp (List.isEmpty_iff.mp hnil)
          | error e => exact Act.stays_ghost.mpr ⟨hl, bs.val, .refl _ hp⟩

theorem BodyCollector.wp_readChunked (maxBody fuel : Nat) (b : SilenceBudget) (tail : Bytes) (l : Local)
    (w : Wire) :
    Act.wp (watched G) (readChunked stream maxBody fuel b tail) (Leaves .chunked tail l w) l w := by
  simp only [readChunked, Act.wp_bind]
  refine wp_pumped (.new tail) fun p hp => ?_
  cases p with
  | needMore d body => exact wp_readChunkedMore hG hs maxBody fuel fuel b hp l w
  | done body leftover =>
      refine Act.stays_ghost.mpr ⟨rfl, [], by simp, fun hnil => ?_⟩
      simpa using hp (List.isEmpty_iff.mp hnil)
  | error e => exact Act.stays_ghost.mpr ⟨rfl, [], by simpa using FailedProto.refl w hp⟩

theorem BodyCollector.wp_readContentLength (maxBody fuel : Nat) (b : SilenceBudget) (len : Nat) (tail : Bytes)
    (l : Local) (w : Wire) :
    Act.wp (watched G) (readContentLength stream maxBody fuel b len tail)
      (Leaves (.contentLength len) tail l w) l w := by
  unfold readContentLength
  split
  · exact Act.stays_ghost.mpr ⟨rfl, [], by simpa using FailedProto.refl w rfl⟩
  · have hlen : (tail.take len).length = min len tail.length := List.length_take
    dsimp only
    split
    next hshort =>
      refine Act.wp_bind.mpr (Act.wp_mono (SilenceBudget.wp_readExactProto hG hs fuel b _ l w) ?_)
      rintro (e | rest) l' w' ⟨hl, hw⟩
      · obtain ⟨bs, hw⟩ := hw
        exact Act.stays_ghost.mpr ⟨hl, bs, hw⟩
      · obtain ⟨hrest, rfl⟩ := hw
        refine Act.stays_ghost.mpr ⟨hl, rest, rfl, fun _ => ?_⟩
        show (tail ++ rest).length = len
        rw [List.length_append]
        omega
    next hfull =>
      refine Act.stays_ghost.mpr ⟨rfl, [], by simp, fun hreuse => ?_⟩
      have hreuse : tail.length ≤ len := by simpa using hreuse
      show (tail ++ []).length = len
      rw [List.append_nil]
      omega

theorem BodyCollector.wp_readUntilClose (maxBody fuel turns : Nat) (b : SilenceBudget) (body : Bytes)
    (l : Local) (w : Wire) :
    Act.wp (watched G) (readUntilClose stream maxBody fuel turns b body) (fun r l' w' =>
      l'.client = l.client ∧ ∃ bs, match r with
        | .ok _ => w' = w.receive bs
        | .error e => FailedProto (w.receive bs) e w') l w := by
  induction turns generalizing b body l w with
  | zero => exact Act.wp_hang
  | succ turns ih =>
      unfold readUntilClose
      split
      · exact Act.stays_ghost.mpr ⟨rfl, [], by simpa using FailedProto.refl w rfl⟩
      · refine Act.wp_bind.mpr (Act.wp_mono (SilenceBudget.wp_readProto hG hs _ fuel b l w) ?_)
        rintro (e | ⟨bs, b⟩) l' w' ⟨hl, hw⟩
        · exact Act.stays_ghost.mpr ⟨hl, [], by simpa using hw⟩
        · subst hw
          simp only [Act.cont_ok]
          split
          · exact Act.stays_ghost.mpr ⟨hl, bs.val, rfl⟩
          · refine Act.wp_mono (ih b _ l' _) ?_
            rintro (e | all) l'' w'' ⟨hl', more, hmore⟩
            · exact ⟨hl'.trans hl, bs.val ++ more, by simpa using hmore⟩
            · exact ⟨hl'.trans hl, bs.val ++ more, by simpa using hmore⟩

/-- **A buffered body.** A reader that says the connection can be reused has consumed the tail and the bytes
    it read as one whole body. -/
theorem BodyCollector.wp_read (maxBody fuel : Nat) (b : SilenceBudget) (framing : BodyFraming) (tail : Bytes)
    (l : Local) (w : Wire) :
    Act.wp (watched G) (read stream maxBody fuel b framing tail) (Leaves framing tail l w) l w := by
  cases framing with
  | none =>
      refine Act.stays_ghost.mpr ⟨rfl, [], by simp, fun hnil => ?_⟩
      have hnil : tail = [] := List.isEmpty_iff.mp hnil
      simp [Framed, hnil]
  | contentLength len => exact wp_readContentLength hG hs maxBody fuel b len tail l w
  | chunked => exact wp_readChunked hG hs maxBody fuel b tail l w
  | untilClose =>
      refine Act.wp_bind.mpr (Act.wp_mono (wp_readUntilClose hG hs maxBody fuel fuel b tail l w) ?_)
      rintro (e | body) l' w' ⟨hl, bs, hw⟩
      · exact Act.stays_ghost.mpr ⟨hl, bs, hw⟩
      · exact Act.stays_ghost.mpr ⟨hl, bs, hw, nofun⟩

end

/-! ## Streaming bodies -/

/-- The body that `all` decodes to, as far as it goes. -/
def decoded : BodyFraming → Bytes → Bytes
  | .none, _ => []
  | .contentLength len, all => all.take len
  | .chunked, all => (run .new all).body
  | .untilClose, all => all

namespace StreamingBody

/-- **The state of a streaming body.** Of the bytes `all` that came in, those in `input` are not decoded yet,
    and `out` has been handed to the caller. A chunked body whose bytes were refused stands still. A body
    that is done leaves the connection clean only if it was all there is and the connection may be kept. A
    streaming body has no total deadline. -/
def Fed (framing : BodyFraming) (all out : Bytes) (b : StreamingBody) : Prop :=
  b.budget.deadline = .NONE ∧ match b.state with
  | .length remaining => (∃ len, framing = .contentLength len ∧ out.length + remaining = len) ∧
      0 < remaining ∧ all = out ++ b.input ∧ b.dirty = true
  | .chunked d => framing = .chunked ∧ b.dirty = true ∧
      (Standing all b.input out d ∨ out <+: decoded .chunked all ∧ ∃ e, Refuses d b.input e)
  | .untilClose => framing = .untilClose ∧ all = out ++ b.input ∧ b.dirty = true
  | .done => out <+: decoded framing all ∧ (b.dirty = false → b.reusable = true ∧ Framed framing all)

/-- What was handed out is the beginning of the body. -/
theorem Fed.out_initial {framing : BodyFraming} {all out : Bytes} {b : StreamingBody} (h : Fed framing all out b) :
    out <+: decoded framing all := by
  obtain ⟨-, h⟩ := h
  split at h
  next remaining hs =>
    obtain ⟨⟨len, rfl, hlen⟩, hpos, rfl, -⟩ := h
    exact List.prefix_take_iff.mpr ⟨List.prefix_append _ _, by omega⟩
  next d hs =>
    obtain ⟨rfl, -, hst | ⟨hpre, -⟩⟩ := h
    · exact hst.out_initial
    · exact hpre
  next hs =>
    obtain ⟨rfl, rfl, -⟩ := h
    exact List.prefix_append _ _
  next hs => exact h.1

/-- The flag is clear only after a whole body. -/
theorem Fed.framed {framing : BodyFraming} {all out : Bytes} {b : StreamingBody} (h : Fed framing all out b)
    (hclean : b.dirty = false) : b.reusable = true ∧ Framed framing all := by
  obtain ⟨-, h⟩ := h
  split at h
  next => simp [h.2.2.2] at hclean
  next => simp [h.2.1] at hclean
  next => simp [h.2.2] at hclean
  next => exact h.2 hclean

/-- A body is done: what it leaves in the flag is the truth. -/
theorem fed_finish {framing : BodyFraming} {all out : Bytes} {b : StreamingBody} (hb : b.budget.deadline = .NONE)
    (hpre : out <+: decoded framing all) (hframed : b.input = [] → Framed framing all) :
    Fed framing all out b.finish := by
  refine ⟨hb, hpre, fun hclean => ?_⟩
  simp only [finish, Bool.or_eq_false_iff, Bool.not_eq_eq_eq_not, Bool.not_false, bne_eq_false_iff_eq] at hclean
  exact ⟨hclean.1, hframed (by simp [input, hclean.2])⟩

/-- More bytes come in once all of them are decoded. -/
theorem Fed.more {framing : BodyFraming} {all out : Bytes} {b : StreamingBody} (h : Fed framing all out b)
    (hin : b.input = []) (hlive : b.state ≠ .done) (bs : Bytes) {budget : SilenceBudget}
    (hb : budget.deadline = .NONE) :
    Fed framing (all ++ bs) out { b with raw := bs, rawPos := 0, budget := budget } := by
  obtain ⟨-, h⟩ := h
  refine ⟨hb, ?_⟩
  dsimp only
  split at h
  next remaining hs =>
    obtain ⟨hlen, hpos, hall, hdirty⟩ := h
    simp only [hs]
    exact ⟨hlen, hpos, by rw [hall, hin]; simp [input], hdirty⟩
  next d hs =>
    obtain ⟨hf, hdirty, hst | ⟨-, e, r, x, rest, hnil, -⟩⟩ := h
    · simp only [hs]
      rw [hin] at hst
      exact ⟨hf, hdirty, .inl (hst.more bs)⟩
    · rw [hin] at hnil
      cases hnil
  next hs =>
    obtain ⟨hf, hall, hdirty⟩ := h
    simp only [hs]
    exact ⟨hf, by rw [hall, hin]; simp [input], hdirty⟩
  next hs => exact absurd hs hlive

/-- The buffer matters only for the bytes in it that are not decoded. -/
theorem Fed.congr {framing : BodyFraming} {all out : Bytes} {b b' : StreamingBody} (h : Fed framing all out b)
    (hs : b'.state = b.state) (hin : b'.input = b.input) (hd : b'.dirty = b.dirty)
    (hr : b'.reusable = b.reusable) (hb : b'.budget = b.budget) : Fed framing all out b' := by
  unfold Fed at h ⊢
  rw [hs, hin, hd, hr, hb]
  exact h

theorem Fed.dirty {framing : BodyFraming} {all out : Bytes} {b : StreamingBody} (h : Fed framing all out b)
    (hlive : b.state ≠ .done) : b.dirty = true := by
  obtain ⟨-, h⟩ := h
  split at h
  next => exact h.2.2.2
  next => exact h.2.1
  next => exact h.2.2
  next hs => exact absurd hs hlive

/-- What a call makes of a body that was fed `all` and had handed out `out`: it leaves the permission and the buffer. -/
def Keeps (framing : BodyFraming) (all out : Bytes) (reusable : Bool) (raw : Bytes) : Outcome Bytes → Prop
  | (.ok bytes, b') => Fed framing all (out ++ bytes) b' ∧ b'.reusable = reusable ∧ b'.raw = raw
  | (.error _, b') => Fed framing all out b' ∧ b'.reusable = reusable ∧ b'.raw = raw ∧ b'.dirty = true

theorem takeContentLength_keeps {framing : BodyFraming} {all out : Bytes} {b : StreamingBody}
    (h : Fed framing all out b) {remaining : Nat} (hs : b.state = .length remaining) (bufLen : Nat) :
    Keeps framing all out b.reusable b.raw (b.takeContentLength bufLen remaining) := by
  have hdirty := h.dirty (by simp [hs])
  unfold takeContentLength
  split
  · exact ⟨h, rfl, rfl, hdirty⟩
  next hin =>
    have h' := h
    simp only [Fed, hs] at h'
    obtain ⟨hb, ⟨len, rfl, hlen⟩, hpos, hall, -⟩ := h'
    have hlt : 0 < b.input.length := List.length_pos_iff.mpr (by simpa using hin)
    dsimp only
    generalize hn : min (min remaining b.input.length) bufLen = n
    have htake : (b.input.take n).length = n := by
      rw [List.length_take]
      omega
    have hin' : b.raw.drop (b.rawPos + n) = b.input.drop n := by simp [input, List.drop_drop]
    split
    next hzero =>
      refine ⟨fed_finish hb ?_ fun hnil => ?_, rfl, rfl⟩
      · rw [hall]
        refine List.prefix_take_iff.mpr ⟨?_, ?_⟩
        · rw [List.prefix_append_right_inj]
          exact List.take_prefix n b.input
        · rw [List.length_append]
          omega
      · have hnil : b.raw.drop (b.rawPos + n) = [] := hnil
        rw [hin', List.drop_eq_nil_iff] at hnil
        show all.length = len
        rw [hall, List.length_append]
        omega
    next hzero =>
      refine ⟨?_, rfl, rfl⟩
      refine ⟨hb, ⟨len, rfl, ?_⟩, by omega, ?_, hdirty⟩
      · rw [List.length_append]
        omega
      · show all = out ++ b.input.take n ++ b.raw.drop (b.rawPos + n)
        rw [hin', List.append_assoc, List.take_append_drop, hall]

theorem takeUntilClose_keeps {framing : BodyFraming} {all out : Bytes} {b : StreamingBody}
    (h : Fed framing all out b) (hs : b.state = .untilClose) (bufLen : Nat) :
    Keeps framing all out b.reusable b.raw (b.takeUntilClose bufLen) := by
  have hdirty := h.dirty (by simp [hs])
  have h' := h
  simp only [Fed, hs] at h'
  obtain ⟨hb, rfl, hall, -⟩ := h'
  unfold takeUntilClose
  split
  next hnil =>
    refine ⟨⟨hb, ?_, fun hclean => ?_⟩, rfl, rfl⟩
    · rw [List.append_nil, hall]
      exact List.prefix_append _ _
    · rw [hdirty] at hclean
      cases hclean
  next hin =>
    have hin' : b.raw.drop (b.rawPos + min b.input.length bufLen) = b.input.drop (min b.input.length bufLen) := by
      simp [input, List.drop_drop]
    refine ⟨⟨hb, ?_⟩, rfl, rfl⟩
    simp only [hs]
    refine ⟨trivial, ?_, hdirty⟩
    show all = out ++ _ ++ b.raw.drop (b.rawPos + min b.input.length bufLen)
    rw [hin', List.append_assoc, List.take_append_drop, hall]

/-- One decoder call: bytes for the caller, or a reason to refill with nothing left undecoded, or an error. -/
theorem decodeChunked_keeps {framing : BodyFraming} {all out : Bytes} {b : StreamingBody}
    (h : Fed framing all out b) {bufLen : Nat} (hlen : 0 < bufLen) {o : Outcome ChunkedRead}
    (ho : b.decodeChunked bufLen = some o) :
    match o.1 with
    | .ok (.progress bytes) => Keeps framing all out b.reusable b.raw (.ok bytes, o.2)
    | .ok .needMore => Fed framing all out o.2 ∧ o.2.reusable = b.reusable ∧ o.2.state ≠ .done ∧ o.2.input = [] ∧
        o.2.raw = b.raw
    | .error e => Keeps framing all out b.reusable b.raw (.error e, o.2) := by
  unfold decodeChunked at ho
  split at ho
  next d hs =>
    have hdirty := h.dirty (by simp [hs])
    have h' := h
    simp only [Fed, hs] at h'
    obtain ⟨hb, rfl, -, hst | ⟨hpre, e, href⟩⟩ := h'
    · have hdec := hst.decode hlen
      have hpre := hst.out_initial
      dsimp only at ho
      generalize d.decode b.input bufLen = res at hdec ho
      obtain ⟨d', result, consumed, written⟩ := res
      have hin' : b.raw.drop (b.rawPos + consumed) = b.input.drop consumed := by simp [input, List.drop_drop]
      cases result with
      | data n =>
          cases ho
          dsimp only at hdec ⊢
          split
          next hd =>
            refine ⟨fed_finish hb hdec.out_initial fun hnil => ?_, rfl, rfl⟩
            have hnil : b.raw.drop (b.rawPos + consumed) = [] := hnil
            rw [hin'] at hnil
            rw [hnil] at hdec
            exact ⟨_, hdec.framed hd⟩
          · refine ⟨⟨hb, rfl, hdirty, .inl ?_⟩, rfl, rfl⟩
            show Standing all (b.raw.drop (b.rawPos + consumed)) _ _
            rw [hin']
            exact hdec
      | needMore =>
          cases ho
          obtain ⟨hst', hnil⟩ := hdec
          refine ⟨⟨hb, rfl, hdirty, .inl ?_⟩, rfl, by simp, ?_, rfl⟩
          · show Standing all (b.raw.drop (b.rawPos + consumed)) _ _
            rw [hin', hnil]
            exact hst'
          · show b.raw.drop (b.rawPos + consumed) = []
            rw [hin', hnil]
      | done =>
          cases ho
          obtain ⟨hst', hd⟩ := hdec
          refine ⟨fed_finish hb (by simpa [decoded] using hst'.out_initial) fun hnil => ?_, rfl, rfl⟩
          have hnil : b.raw.drop (b.rawPos + consumed) = [] := hnil
          rw [hin'] at hnil
          dsimp only at hst'
          rw [hnil] at hst'
          exact ⟨_, hst'.framed hd⟩
      | error e =>
          cases ho
          refine ⟨⟨hb, rfl, hdirty, ?_⟩, rfl, rfl, hdirty⟩
          show Standing all (b.raw.drop (b.rawPos + consumed)) _ _ ∨ _ ∧ ∃ e, Refuses _ (b.raw.drop _) e
          rw [hin']
          rcases hdec with hst' | href
          · exact .inl hst'
          · exact .inr ⟨hpre, href⟩
      | panicked => cases ho
    · -- the refused byte is still in front
      obtain ⟨d', hdec, href'⟩ := href.decode bufLen
      simp only [hdec, Nat.add_zero] at ho
      cases ho
      exact ⟨⟨hb, rfl, hdirty, .inr ⟨hpre, e, href'⟩⟩, rfl, rfl, hdirty⟩
  · cases ho

/-! The calls that touch the stream. What a delivery and a failure do to the record is a parameter: the reader
does not depend on it. -/

/-- What the reads of a stream leave in a record. -/
structure Source (σ : Type) where
  got : σ → Bytes → σ
  failed : σ → StdIoError → σ → Prop

/-- The record after several deliveries. -/
def Source.drawn {σ : Type} (src : Source σ) (s : σ) (pieces : List Bytes) : σ := pieces.foldl src.got s

section

variable {σ ε : Type} {guard : σ → Op → Prop} {next : σ → (op : Op) → op.Ret → σ} {src : Source σ}
  {stream : Stream} {fuel : Nat}

/-- Reads of this stream under a budget without a total deadline leave in the record what `src` says. -/
def Draws (guard : σ → Op → Prop) (next : σ → (op : Op) → op.Ret → σ) (src : Source σ) (stream : Stream)
    (fuel : Nat) : Prop :=
  ∀ (b : SilenceBudget) l s, b.deadline = .NONE →
    Act.wp (World.ghost (S := Sys) guard next) (SilenceBudget.read stream HEAD_BUF_SIZE fuel b)
    (fun r l' s' => l'.client = l.client ∧ match r with
      | .ok (bs, b') => s' = src.got s bs.val ∧ b'.deadline = .NONE
      | .error e => src.failed s e s') l s

/-- What a refill does: nothing while bytes are left, else a delivery (an empty one at the end of the stream),
    or a failure that leaves the buffer resized. -/
inductive Refilled (src : Source σ) (b : StreamingBody) (s : σ) : Outcome Bool → σ → Prop where
  | full : b.input ≠ [] → Refilled src b s (.ok true, b) s
  | got {bs : Bytes} {budget : SilenceBudget} : b.input = [] → budget.deadline = .NONE →
      Refilled src b s (.ok !bs.isEmpty, { b with raw := bs, rawPos := 0, budget := budget }) (src.got s bs)
  | failed {e : StdIoError} {s' : σ} : b.input = [] → src.failed s e s' →
      Refilled src b s (.error e, { b with raw := resize b.raw HEAD_BUF_SIZE }) s'

theorem wp_refill (hd : Draws guard next src stream fuel) {b : StreamingBody} (hb : b.budget.deadline = .NONE)
    (l : Local) (s : σ) :
    Act.wp (World.ghost (S := Sys) guard next) (refill stream fuel b : M ε (Outcome Bool))
      (fun r l' s' => l'.client = l.client ∧ ∃ o, r = .ok o ∧ Refilled src b s o s') l s := by
  unfold refill
  split
  next hlt =>
    have hne : b.input ≠ [] := by
      simp only [input, ne_eq, List.drop_eq_nil_iff]
      omega
    exact Act.stays_ghost.mpr ⟨rfl, _, rfl, .full hne⟩
  next hge =>
    have hin : b.input = [] := by
      simp only [input, List.drop_eq_nil_iff]
      omega
    refine Act.wp_bind.mpr (Act.wp_attempt.mpr (Act.wp_mono (hd _ l s hb) ?_))
    rintro (e | ⟨bs, budget⟩) l' s' ⟨hl, hs⟩
    · exact Act.stays_ghost.mpr (Act.stays_ghost.mpr ⟨hl, _, rfl, .failed hin hs⟩)
    · obtain ⟨rfl, hbudget⟩ := hs
      exact Act.stays_ghost.mpr (Act.stays_ghost.mpr ⟨hl, _, rfl, .got hin hbudget⟩)

/-- **What a call of `read` leaves.** Some pieces were delivered. If the call returned, or failed for a reason of
    its own, the body has been fed them. If the stream failed, so has the body `b₁` the call had reached, and
    what the call left is `b₁` with its buffer resized. -/
def Read (src : Source σ) (framing : BodyFraming) (all out : Bytes) (b : StreamingBody) (s : σ)
    (o : Outcome Bytes) (s' : σ) : Prop :=
  ∃ pieces : List Bytes,
    (s' = src.drawn s pieces ∧
      Keeps framing (all ++ pieces.flatten) out b.reusable (pieces.getLast?.getD b.raw) o) ∨
    ∃ e b₁, o = (.error e, { b₁ with raw := resize b₁.raw HEAD_BUF_SIZE }) ∧
      src.failed (src.drawn s pieces) e s' ∧ Fed framing (all ++ pieces.flatten) out b₁ ∧ b₁.state ≠ .done ∧
      b₁.input = [] ∧ b₁.reusable = b.reusable ∧ b₁.raw = pieces.getLast?.getD b.raw

/-- A call that begins with a delivery. -/
theorem Read.cons {framing : BodyFraming} {all out bs : Bytes} {b : StreamingBody} (budget : SilenceBudget)
    {s s' : σ} {o : Outcome Bytes}
    (h : Read src framing (all ++ bs) out { b with raw := bs, rawPos := 0, budget := budget } (src.got s bs) o s') :
    Read src framing all out b s o s' := by
  obtain ⟨pieces, h⟩ := h
  have hlast : (bs :: pieces).getLast?.getD b.raw = pieces.getLast?.getD bs := by
    cases pieces with
    | nil => rfl
    | cons p ps => simp [List.getLast?_cons]
  refine ⟨bs :: pieces, ?_⟩
  rw [List.flatten_cons, ← List.append_assoc, hlast]
  exact h

theorem wp_refillThen (hd : Draws guard next src stream fuel) {framing : BodyFraming} {all out : Bytes}
    {b : StreamingBody} (h : Fed framing all out b) (hlive : b.state ≠ .done)
    {take : StreamingBody → Outcome Bytes}
    (htake : ∀ all b', b'.state = b.state → Fed framing all out b' →
      Keeps framing all out b'.reusable b'.raw (take b'))
    (l : Local) (s : σ) :
    Act.wp (World.ghost (S := Sys) guard next) (refillThen stream fuel take b : M ε (Outcome Bytes))
      (fun r l' s' => l'.client = l.client ∧ ∃ o, r = .ok o ∧ Read src framing all out b s o s') l s := by
  refine Act.wp_bind.mpr (Act.wp_mono (wp_refill hd h.1 l s) ?_)
  rintro r l' s' ⟨hl, o, rfl, ho⟩
  cases ho with
  | full hne =>
      refine Act.stays_ghost.mpr ⟨hl, _, rfl, [], .inl ⟨rfl, ?_⟩⟩
      simpa using htake all b rfl h
  | @got bs budget hin hbudget =>
      refine Act.stays_ghost.mpr ⟨hl, _, rfl, Read.cons budget ⟨[], .inl ⟨rfl, ?_⟩⟩⟩
      have hkeeps := htake (all ++ bs) { b with raw := bs, rawPos := 0, budget := budget } rfl
        (h.more hin hlive bs hbudget)
      simpa using hkeeps
  | failed hin hf =>
      exact Act.stays_ghost.mpr ⟨hl, _, rfl, [], .inr ⟨_, b, rfl, hf, by simpa using h, hlive, hin, rfl, rfl⟩⟩

/-- A call on a body with the same buffer and permission. -/
theorem Read.of_raw {framing : BodyFraming} {all out : Bytes} {b b' : StreamingBody} {s s' : σ} {o : Outcome Bytes}
    (hraw : b'.raw = b.raw) (hr : b'.reusable = b.reusable) (h : Read src framing all out b' s o s') :
    Read src framing all out b s o s' := by
  unfold Read at h ⊢
  rw [hraw, hr] at h
  exact h

/-- The turn of `read_chunked` that the decoder has taken. -/
def decoded (stream : Stream) (fuel bufLen turns : Nat) :
    Option (Outcome ChunkedRead) → M ε (Outcome Bytes)
  | some (.ok (.progress bytes), b) => pure (.ok bytes, b)
  | some (.ok .needMore, b) => readChunked stream fuel bufLen turns b
  | some (.error e, b) => pure (.error e, b)
  | none => Act.hang

theorem wp_readChunked (hd : Draws guard next src stream fuel) {bufLen : Nat} (hlen : 0 < bufLen) (turns : Nat)
    {framing : BodyFraming} {all out : Bytes} {b : StreamingBody} (h : Fed framing all out b)
    (hlive : b.state ≠ .done) (l : Local) (s : σ) :
    Act.wp (World.ghost (S := Sys) guard next) (readChunked stream fuel bufLen turns b : M ε (Outcome Bytes))
      (fun r l' s' => l'.client = l.client ∧ ∃ o, r = .ok o ∧ Read src framing all out b s o s') l s := by
  induction turns generalizing all b l s with
  | zero => exact Act.wp_hang
  | succ turns ih =>
      -- the decoder's turn: it hands out bytes, fails, or has used up its input and goes round again
      have hturn : ∀ {all : Bytes} {b : StreamingBody} (l : Local) (s : σ), Fed framing all out b →
          Act.wp (World.ghost (S := Sys) guard next) (decoded stream fuel bufLen turns (b.decodeChunked bufLen) : M ε (Outcome Bytes))
            (fun r l' s' => l'.client = l.client ∧ ∃ o, r = .ok o ∧ Read src framing all out b s o s') l s := by
        intro all b l s h
        cases hdec : b.decodeChunked bufLen with
        | none => exact Act.wp_hang
        | some o =>
            have hk := decodeChunked_keeps h hlen hdec
            obtain ⟨_ | (bytes | _), b'⟩ := o
            · exact Act.stays_ghost.mpr ⟨rfl, _, rfl, [], .inl ⟨rfl, by simpa using hk⟩⟩
            · exact Act.stays_ghost.mpr ⟨rfl, _, rfl, [], .inl ⟨rfl, by simpa using hk⟩⟩
            · obtain ⟨hfed, hr, hlive', -, hraw⟩ := hk
              refine Act.wp_mono (ih hfed hlive' l s) ?_
              rintro r l' s' ⟨hl, o, ho, hread⟩
              exact ⟨hl, o, ho, hread.of_raw hraw hr⟩
      refine Act.wp_bind.mpr (Act.wp_mono (wp_refill hd h.1 l s) ?_)
      rintro r l' s' ⟨hl, o, rfl, ho⟩
      rw [← hl]
      cases ho with
      | full hne => exact hturn l' s h
      | @got bs budget hin hbudget =>
          have hfed := h.more hin hlive bs hbudget
          cases bs with
          | nil =>
              refine Act.stays_ghost.mpr ⟨rfl, _, rfl, Read.cons budget ⟨[], .inl ⟨rfl, ?_⟩⟩⟩
              rw [List.flatten_nil, List.append_nil]
              exact ⟨hfed, rfl, rfl, hfed.dirty hlive⟩
          | cons x xs =>
              simp only [List.isEmpty_cons, Bool.not_false, Act.cont_ok]
              refine Act.wp_mono (hturn l' (src.got s (x :: xs)) hfed) ?_
              rintro r l'' s'' ⟨hl', o, ho, hread⟩
              exact ⟨hl', o, ho, hread.cons budget⟩
      | failed hin hf =>
          exact Act.stays_ghost.mpr ⟨rfl, _, rfl, [], .inr ⟨_, b, rfl, hf, by simpa using h, hlive, hin, rfl, rfl⟩⟩

/-- **A streaming body.** A call of `read`, whatever the stream does. -/
theorem wp_read (hd : Draws guard next src stream fuel) (bufLen : Nat) {framing : BodyFraming} {all out : Bytes}
    {b : StreamingBody} (h : Fed framing all out b) (l : Local) (s : σ) :
    Act.wp (World.ghost (S := Sys) guard next) (read stream fuel bufLen b : M ε (Outcome Bytes))
      (fun r l' s' => l'.client = l.client ∧ ∃ o, r = .ok o ∧ Read src framing all out b s o s') l s := by
  have hnothing : Read src framing all out b s (.ok [], b) s :=
    ⟨[], .inl ⟨rfl, by simpa using h, rfl, rfl⟩⟩
  unfold read
  split
  · exact Act.stays_ghost.mpr ⟨rfl, _, rfl, hnothing⟩
  next hbuf =>
    cases hs : b.state with
    | done => exact Act.stays_ghost.mpr ⟨rfl, _, rfl, hnothing⟩
    | length remaining =>
        refine wp_refillThen hd h (by simp [hs]) (fun all b' hs' hfed => ?_) l s
        exact takeContentLength_keeps hfed (hs'.trans hs) bufLen
    | untilClose =>
        refine wp_refillThen hd h (by simp [hs]) (fun all b' hs' hfed => ?_) l s
        exact takeUntilClose_keeps hfed (hs'.trans hs) bufLen
    | chunked d => exact wp_readChunked hd (by omega) fuel h (by simp [hs]) l s

/-- A new body has been fed the tail of the head read. -/
theorem fed_new {framing : BodyFraming} {tail : Bytes} {budget : SilenceBudget} {reusable : Bool}
    {b : StreamingBody} (hbudget : budget.deadline = .NONE)
    (hb : b = ⟨initialState framing, tail, 0, budget, reusable, true⟩) :
    Fed framing tail [] (if b.isDone then b.finish else b) := by
  subst hb
  cases framing with
  | none => exact fed_finish hbudget List.prefix_rfl fun hnil => by simpa [input, Framed] using hnil
  | contentLength len =>
      cases len with
      | zero => exact fed_finish hbudget (by simp) fun hnil => by simpa [input, Framed] using hnil
      | succ len =>
          refine ⟨hbudget, ⟨len + 1, rfl, ?_⟩, Nat.succ_pos len, rfl, rfl⟩
          simp
  | chunked => exact ⟨hbudget, rfl, rfl, .inl (.new tail)⟩
  | untilClose => exact ⟨hbudget, rfl, rfl, rfl⟩

end

end StreamingBody

end Xibalba
