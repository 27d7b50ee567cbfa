import Xibalba.Client.Correctness.Body
import Xibalba.Client.Session

/-!
# `Client.Correctness.Streaming` — reading a body call by call

A caller may read a streaming body as it likes, also after an error: `read_to_end` tries again after
`Interrupted`. What it has been given must be the beginning of the body, and the flag must be clear only after
a whole body.

The buffer is resized before the read that refills it, and a failed read leaves it so, with the cursor where it
was. If the last delivery did not fill the buffer, what lies behind the cursor then was never delivered, and the
next call decodes it. `Reading.Safe` rules that call out; without it the statement is false.

Layout:
* `Feed`, what a stream has done, and `Reading`, a caller in the middle of a body;
* `ReadRun`, the runs of reads;
* `readRun_truthful` under `Safe`, and the run that shows why it is needed.
-/

namespace Xibalba

open StreamingBody

/-- What a stream has done: the bytes it delivered, the length of its last delivery, and whether the last read
    failed. -/
structure Feed where
  delivered : Bytes
  last : Nat
  failed : Bool
deriving DecidableEq

namespace Feed

def got (f : Feed) (bs : Bytes) : Feed := ⟨f.delivered ++ bs, bs.length, false⟩

def fail (f : Feed) : Feed := { f with failed := true }

def next (f : Feed) : (op : Op) → op.Ret → Feed
  | .read _, .ok bs => f.got bs.val
  | .read _, .error _ => f.fail
  | _, _ => f

/-- What the reads of the client's own stream leave. -/
def source : Source Feed := ⟨got, fun f _ f' => f' = f.fail⟩

@[simp] theorem got_fail (f : Feed) (bs : Bytes) : f.fail.got bs = f.got bs := rfl

@[simp] theorem fail_fail (f : Feed) : f.fail.fail = f.fail := rfl

theorem drawn_delivered (f : Feed) (pieces : List Bytes) :
    (source.drawn f pieces).delivered = f.delivered ++ pieces.flatten := by
  induction pieces generalizing f with
  | nil => simp [Source.drawn]
  | cons p ps ih =>
      have h := ih (f.got p)
      simpa [Source.drawn, source, got] using h

theorem drawn_last (f : Feed) (pieces : List Bytes) :
    (source.drawn f pieces).last = (pieces.getLast?.map List.length).getD f.last := by
  induction pieces generalizing f with
  | nil => simp [Source.drawn]
  | cons p ps ih =>
      have h := ih (f.got p)
      simp only [Source.drawn, source, got, List.foldl_cons] at h ⊢
      rw [h]
      cases ps with
      | nil => rfl
      | cons q qs => simp [List.getLast?_cons]

/-- The world of these reads: every operation is allowed. -/
abbrev world : World Sys Feed := World.ghost (S := Sys) (fun _ _ => True) next

/-- Reading the clock leaves no trace. -/
theorem wp_now {ε : Type} {Q : Except ε Instant → Local → Feed → Prop} {l : Local} {f : Feed} :
    Act.wp world M.now Q l f ↔ ∀ t, Q (.ok t) l f :=
  Act.wp_ghost_call.trans (and_iff_right trivial)

/-- A read under a budget without a total deadline fails only after the stream did. -/
theorem draws (fuel : Nat) : Draws (fun _ _ => True) next source .raw fuel := by
  suffices h : ∀ (b : SilenceBudget) (l : Local) (f f₀ : Feed), b.deadline = .NONE → f = f₀ ∨ f = f₀.fail →
      Act.wp world (SilenceBudget.read .raw HEAD_BUF_SIZE fuel b) (fun r l' f' => l'.client = l.client ∧
        (∀ p, r = .ok p → f' = f₀.got p.1.val ∧ p.2.deadline = .NONE) ∧ ∀ e, r = .error e → f' = f₀.fail) l f by
    intro b l f hb
    refine Act.wp_mono (h b l f f hb (.inl rfl)) ?_
    rintro (e | ⟨bs, b'⟩) l' f' ⟨hl, hok, herr⟩
    · exact ⟨hl, herr e rfl⟩
    · exact ⟨hl, hok _ rfl⟩
  intro b l f f₀ hb hf
  induction fuel generalizing f with
  | zero => exact Act.wp_hang
  | succ fuel ih =>
      have hgot : ∀ bs, f.got bs = f₀.got bs := by
        rcases hf with rfl | rfl <;> simp
      have hfail : f.fail = f₀.fail := by
        rcases hf with rfl | rfl <;> simp
      simp only [SilenceBudget.read, RequestDeadline.expired, hb, RequestDeadline.NONE, Act.wp_bind, Act.wp_pure,
        Act.stays_ghost, Act.cont_ok, Bool.false_eq_true, if_false, Act.wp_attempt]
      refine Act.wp_bind.mpr (Act.wp_ghost_call.mpr ⟨trivial, fun r => ?_⟩)
      cases r with
      | ok bs =>
          refine Act.stays_ghost.mpr (Act.wp_bind.mpr (wp_now.mpr fun t => ?_))
          refine Act.stays_ghost.mpr ⟨rfl, ?_, fun e he => by cases he⟩
          rintro _ ⟨⟩
          exact ⟨hgot bs.val, rfl⟩
      | error e =>
          refine Act.stays_ghost.mpr ?_
          show Act.wp world (if _ then _ else _) _ l f.fail
          split
          · refine Act.wp_bind.mpr (wp_now.mpr fun t => Act.cont_ok.mpr ?_)
            split
            · exact Act.stays_ghost.mpr ⟨rfl, fun p hp => (by cases hp), fun _ _ => hfail⟩
            · exact ih f.fail (.inr hfail)
          · exact Act.stays_ghost.mpr ⟨rfl, fun p hp => (by cases hp), fun _ _ => hfail⟩

end Feed

/-- A caller in the middle of a body: the body, the bytes its calls have returned with `Ok`, and what the stream
    has done. -/
structure Reading where
  body : StreamingBody
  out : Bytes
  feed : Feed
deriving DecidableEq

namespace Reading

/-- What a call leaves. -/
def after (r : Reading) (o : Outcome Bytes) (feed : Feed) : Reading :=
  match o with
  | (.ok bytes, b) => ⟨b, r.out ++ bytes, feed⟩
  | (.error _, b) => ⟨b, r.out, feed⟩

/-- The truth: what was handed out is the beginning of the body, and a clear flag says that the body, of the tail
    and the bytes delivered, is whole. -/
def Truthful (framing : BodyFraming) (tail : Bytes) (r : Reading) : Prop :=
  r.out <+: decoded framing (tail ++ r.feed.delivered) ∧
    (r.body.dirty = false → Framed framing (tail ++ r.feed.delivered))

/-- A call that does not decode what a failed refill left in the buffer: it asks for nothing, or the body is done,
    or the last read of the stream did not fail, or the last delivery filled the buffer. -/
def Safe (r : Reading) (size : Nat) : Prop :=
  size = 0 ∨ r.body.state = .done ∨ r.feed.failed = false ∨ HEAD_BUF_SIZE ≤ r.feed.last

end Reading

/-- The runs of reads of one body whose calls all satisfy `C`. The stream answers each call in any way. -/
inductive ReadRun (C : Reading → Nat → Prop) (framing : BodyFraming) (tail : Bytes) (reusable : Bool) :
    Reading → Prop where
  | new (silence : Duration) {tr : List (Prog.Event Sys)} {l l' : Local} {b : StreamingBody} :
      Prog.Exec ((StreamingBody.new true framing tail silence reusable : M Empty StreamingBody) l) tr
        (.pure (.ok b, l')) →
      ReadRun C framing tail reusable ⟨b, [], [], tail.length, false⟩
  | read {r : Reading} (size fuel : Nat) {tr : List (Prog.Event Sys)} {l l' : Local} {o : Outcome Bytes} :
      ReadRun C framing tail reusable r → C r size →
      Prog.Exec ((r.body.read .raw fuel size : M Empty (Outcome Bytes)) l) tr (.pure (.ok o, l')) →
      ReadRun C framing tail reusable (r.after o (Prog.after Feed.next r.feed tr))

namespace Reading

variable {framing : BodyFraming} {tail : Bytes} {r : Reading}

/-- A caller that may go on: the body has been fed what was delivered. -/
structure Sound (framing : BodyFraming) (tail : Bytes) (r : Reading) : Prop where
  fed : Fed framing (tail ++ r.feed.delivered) r.out r.body
  full : HEAD_BUF_SIZE ≤ r.feed.last → HEAD_BUF_SIZE ≤ r.body.raw.length

/-- A caller that must not: a refill failed behind a delivery that did not fill the buffer. -/
structure Stuck (framing : BodyFraming) (tail : Bytes) (r : Reading) : Prop where
  failed : r.feed.failed = true
  short : r.feed.last < HEAD_BUF_SIZE
  live : r.body.state ≠ .done
  out : r.out <+: decoded framing (tail ++ r.feed.delivered)
  dirty : r.body.dirty = true

theorem Sound.truthful (h : Sound framing tail r) : Truthful framing tail r :=
  ⟨h.fed.out_initial, fun hclean => (h.fed.framed hclean).2⟩

theorem Stuck.truthful (h : Stuck framing tail r) : Truthful framing tail r := by
  refine ⟨h.out, fun hclean => ?_⟩
  rw [h.dirty] at hclean
  cases hclean

/-- Nothing lies behind the cursor of a buffer that was full when it was resized. -/
theorem input_resize {b : StreamingBody} (hin : b.input = []) (hfull : HEAD_BUF_SIZE ≤ b.raw.length) :
    ({ b with raw := resize b.raw HEAD_BUF_SIZE } : StreamingBody).input = [] := by
  have hpos : b.raw.length ≤ b.rawPos := List.drop_eq_nil_iff.mp hin
  refine List.drop_eq_nil_iff.mpr ?_
  simp only [resize, List.length_append, List.length_take, List.length_replicate]
  omega

/-- A call by a caller that may go on leaves one that may go on, or one that must not. -/
theorem Sound.read (h : Sound framing tail r) {o : Outcome Bytes} {feed : Feed}
    (hread : StreamingBody.Read Feed.source framing (tail ++ r.feed.delivered) r.out r.body r.feed o feed) :
    Sound framing tail (r.after o feed) ∨ Stuck framing tail (r.after o feed) := by
  obtain ⟨pieces, hread⟩ := hread
  have hdelivered := Feed.drawn_delivered r.feed pieces
  have hlast := Feed.drawn_last r.feed pieces
  -- the buffer is the last delivery, or what it was
  have hfull : HEAD_BUF_SIZE ≤ (Feed.source.drawn r.feed pieces).last →
      HEAD_BUF_SIZE ≤ (pieces.getLast?.getD r.body.raw).length := by
    intro hle
    rw [hlast] at hle
    cases hp : pieces.getLast? with
    | none =>
        rw [hp] at hle
        exact h.full hle
    | some p =>
        rw [hp] at hle
        exact hle
  rcases hread with ⟨rfl, hk⟩ | ⟨e, b₁, rfl, hf, hfed, hlive, hin, -, hraw⟩
  · left
    rw [List.append_assoc, ← hdelivered] at hk
    obtain ⟨_ | bytes, b'⟩ := o
    · obtain ⟨hfed, -, hraw, -⟩ := hk
      refine ⟨hfed, fun hle => ?_⟩
      show HEAD_BUF_SIZE ≤ b'.raw.length
      rw [hraw]
      exact hfull hle
    · obtain ⟨hfed, -, hraw⟩ := hk
      refine ⟨hfed, fun hle => ?_⟩
      show HEAD_BUF_SIZE ≤ b'.raw.length
      rw [hraw]
      exact hfull hle
  · obtain rfl : feed = (Feed.source.drawn r.feed pieces).fail := hf
    rw [List.append_assoc, ← hdelivered] at hfed
    by_cases hle : HEAD_BUF_SIZE ≤ (Feed.source.drawn r.feed pieces).last
    · left
      have hle₁ : HEAD_BUF_SIZE ≤ b₁.raw.length := by
        rw [hraw]
        exact hfull hle
      refine ⟨hfed.congr rfl ?_ rfl rfl rfl, fun _ => ?_⟩
      · rw [hin]
        exact input_resize hin hle₁
      · simp only [after, resize, List.length_append, List.length_take, List.length_replicate]
        omega
    · exact .inr ⟨rfl, Nat.lt_of_not_le hle, hlive, hfed.out_initial, hfed.dirty hlive⟩

end Reading

theorem StreamingBody.wp_new {framing : BodyFraming} {tail : Bytes} {silence : Duration} {reusable : Bool} {l : Local}
    {f : Feed} :
    Act.wp Feed.world (StreamingBody.new true framing tail silence reusable : M Empty StreamingBody)
      (fun r _ _ => ∃ b, r = .ok b ∧ Fed framing tail [] b ∧ b.raw = tail) l f := by
  refine Act.wp_bind.mpr (Act.wp_bind.mpr (Feed.wp_now.mpr fun t => ?_))
  refine Act.stays_ghost.mpr (Act.stays_ghost.mpr ⟨_, rfl, fed_new rfl rfl, ?_⟩)
  split
  · rfl
  · rfl

/-- **A streaming body tells the truth** to every caller that does not go on after a failed refill of a buffer that
    was not full, whatever the framing, the tail, the stream and the sizes of the reads. -/
theorem readRun_truthful {framing : BodyFraming} {tail : Bytes} {reusable : Bool} {r : Reading}
    (h : ReadRun Reading.Safe framing tail reusable r) : r.Truthful framing tail := by
  suffices hinv : r.Sound framing tail ∨ r.Stuck framing tail by
    rcases hinv with hinv | hinv
    · exact hinv.truthful
    · exact hinv.truthful
  induction h with
  | new silence hexec =>
      obtain ⟨b', hb, hfed, hraw⟩ := Prog.exec_result (StreamingBody.wp_new (f := ⟨[], tail.length, false⟩)) hexec
      obtain rfl : _ = b' := Except.ok.inj hb
      refine .inl ⟨by simpa using hfed, fun hle => ?_⟩
      rw [hraw]
      exact hle
  | @read r size fuel tr l l' o _ hsafe hexec ih =>
      rcases ih with hsound | hstuck
      · have hwp := StreamingBody.wp_read (ε := Empty) (Feed.draws fuel) size hsound.fed l r.feed
        obtain ⟨-, o', ho, hread⟩ := Prog.exec_result hwp hexec
        obtain rfl : o = o' := Except.ok.inj ho
        exact hsound.read hread
      · -- only a read of no bytes is safe here, and it does nothing
        have hsize : size = 0 := by
          rcases hsafe with hsize | hdone | hok | hfull
          · exact hsize
          · exact absurd hdone hstuck.live
          · rw [hstuck.failed] at hok
            cases hok
          · exact absurd hstuck.short (Nat.not_lt.mpr hfull)
        subst hsize
        cases hexec with
        | refl =>
            refine .inr ⟨hstuck.failed, hstuck.short, hstuck.live, ?_, hstuck.dirty⟩
            show r.out ++ [] <+: _
            rw [List.append_nil]
            exact hstuck.out

/-- A call that a script answers. -/
theorem ReadRun.scripted {C : Reading → Nat → Prop} {framing : BodyFraming} {tail : Bytes} {reusable : Bool}
    {r : Reading} (h : ReadRun C framing tail reusable r) (size fuel : Nat) (hC : C r size)
    (reads : List (Except StdIoError Bytes)) (o : Outcome Bytes)
    (ho : (Prog.play Xibalba.scripted fuel reads
      ((r.body.read .raw fuel size : M Empty (Outcome Bytes)) idle)).2.result? = some (.ok o, idle)) :
    ReadRun C framing tail reusable (r.after o (Prog.after Feed.next r.feed
      (Prog.play Xibalba.scripted fuel reads ((r.body.read .raw fuel size : M Empty (Outcome Bytes)) idle)).1)) :=
  .read size fuel h hC (Prog.exec_result? ho)

/-- A new body of a framing that is not done at once. -/
theorem ReadRun.start (C : Reading → Nat → Prop) (framing : BodyFraming) (tail : Bytes) (reusable : Bool)
    (hlive : initialState framing ≠ .done) :
    ReadRun C framing tail reusable
      ⟨⟨initialState framing, tail, 0, ⟨0, 0, .NONE⟩, reusable, true⟩, [], [], tail.length, false⟩ := by
  have hdone : (⟨initialState framing, tail, 0, ⟨0, 0, .NONE⟩, reusable, true⟩ : StreamingBody).isDone = false := by
    simpa [isDone] using hlive
  have hexec := Prog.exec_play Xibalba.scripted 1 []
    ((StreamingBody.new true framing tail 0 reusable : M Empty StreamingBody) idle)
  rw [show (Prog.play Xibalba.scripted 1 [] ((StreamingBody.new true framing tail 0 reusable :
    M Empty StreamingBody) idle)).2 = .pure (.ok (ite _ _ _), idle) from rfl, if_neg (by simp [hdone])] at hexec
  exact .new 0 hexec

/-- A call that finds bytes in the buffer. -/
theorem ReadRun.buffered {C : Reading → Nat → Prop} {framing : BodyFraming} {tail : Bytes} {reusable : Bool} {r : Reading}
    (h : ReadRun C framing tail reusable r) {size : Nat} (remaining : Nat) (hsize : 0 < size) (hC : C r size)
    (hs : r.body.state = .length remaining) (hlt : r.body.rawPos < r.body.raw.length) :
    ReadRun C framing tail reusable (r.after (r.body.takeContentLength size remaining) r.feed) := by
  have hrefill : (refill .raw 0 r.body : M Empty (Outcome Bool)) = pure (.ok true, r.body) := by
    rw [refill, if_pos hlt]
  have hread : (r.body.read .raw 0 size : M Empty (Outcome Bytes)) idle =
      .pure (.ok (r.body.takeContentLength size remaining), idle) := by
    rw [StreamingBody.read, if_neg (Nat.ne_of_gt hsize), hs]
    dsimp only
    rw [refillThen, hrefill]
    rfl
  have hexec := Prog.Exec.refl ((r.body.read .raw 0 size : M Empty (Outcome Bytes)) idle)
  nth_rewrite 2 [hread] at hexec
  exact .read size 0 h hC hexec

/-- A call that takes the whole buffer, of a body that goes on behind it or ends with it. -/
theorem StreamingBody.takeContentLength_raw {b : StreamingBody} {remaining more : Nat} (hpos : b.rawPos = 0)
    (hne : 0 < b.raw.length) (hmore : remaining = b.raw.length + more) :
    b.takeContentLength b.raw.length remaining =
      (.ok b.raw, if more = 0 then finish { b with rawPos := b.raw.length }
        else { b with rawPos := b.raw.length, state := .length more }) := by
  have hin : b.input = b.raw := by simp [input, hpos]
  have hnil : b.raw.isEmpty = false := by
    rw [List.isEmpty_eq_false_iff]
    exact List.ne_nil_of_length_pos hne
  simp [takeContentLength, hin, hnil, hpos, hmore]

/-- A body that wants one byte more, when the buffer has been read to its end. -/
def StreamingBody.lacking (raw : Bytes) (pos : Nat) : StreamingBody := ⟨.length 1, raw, pos, ⟨0, 0, .NONE⟩, true, true⟩

/-- A read of the stream fails behind a delivery that filled the buffer, and the next call goes on behind it. -/
theorem ReadRun.retried {t : Bytes} (ht : t.length = HEAD_BUF_SIZE) :
    ReadRun Reading.Safe (.contentLength (t.length + 1)) t true
      ⟨⟨.done, ascii "!", 1, ⟨0, 0, .NONE⟩, true, false⟩, t ++ ascii "!", ⟨ascii "!", 1, false⟩⟩ := by
  have hpos : 0 < t.length := by
    rw [ht]
    decide
  have hend : ∀ raw : Bytes, ¬t.length < (resize raw HEAD_BUF_SIZE).length := by
    intro raw
    simp only [resize, List.length_append, List.length_take, List.length_replicate]
    omega
  have h₀ := ReadRun.start Reading.Safe (.contentLength (t.length + 1)) t true nofun
  have h₁ : ReadRun Reading.Safe (.contentLength (t.length + 1)) t true ⟨lacking t t.length, t, ⟨[], t.length, false⟩⟩ := by
    have h₁ := h₀.buffered (t.length + 1) hpos (.inr (.inr (.inl rfl))) rfl hpos
    rwa [takeContentLength_raw rfl hpos rfl] at h₁
  have h₂ : ReadRun Reading.Safe (.contentLength (t.length + 1)) t true
      ⟨lacking (resize t HEAD_BUF_SIZE) t.length, t, ⟨[], t.length, true⟩⟩ := by
    -- the refill finds the cursor at the end of the buffer, which the resize leaves as it is
    have h₂ := h₁.scripted 1 9 (.inr (.inr (.inl rfl))) [.error ⟨.interrupted, .text "interrupted"⟩]
      (.error ⟨.interrupted, .text "interrupted"⟩, lacking (resize t HEAD_BUF_SIZE) t.length) (by
        unfold StreamingBody.read lacking refillThen refill
        rw [if_neg (Nat.lt_irrefl _)]
        rfl)
    unfold StreamingBody.read lacking refillThen refill at h₂
    rw [if_neg (Nat.lt_irrefl _)] at h₂
    exact h₂
  have h₃ := h₂.scripted 1 9 (.inr (.inr (.inr (Nat.le_of_eq ht.symm)))) [.ok (ascii "!")]
    (.ok (ascii "!"), ⟨.done, ascii "!", 1, ⟨0, 0, .NONE⟩, true, false⟩) (by
      unfold StreamingBody.read lacking refillThen refill
      rw [if_neg (hend _)]
      rfl)
  unfold StreamingBody.read lacking refillThen refill at h₃
  rw [if_neg (hend _)] at h₃
  exact h₃

/-- A body of five bytes, two of them in the tail: two reads give it whole, and the connection is clean. And so does a read
    after one that failed behind a buffer that was full. -/
theorem readRun_truthful_two_bodies :
    (∃ r, ReadRun Reading.Safe (.contentLength 5) (ascii "he") true r ∧ r.out = ascii "hello" ∧ r.body.dirty = false ∧
      r.Truthful (.contentLength 5) (ascii "he")) ∧
    ∃ r, ReadRun Reading.Safe (.contentLength (HEAD_BUF_SIZE + 1)) (List.replicate HEAD_BUF_SIZE 97) true r ∧
      r.out = List.replicate HEAD_BUF_SIZE 97 ++ ascii "!" ∧ r.body.dirty = false ∧
      r.Truthful (.contentLength (HEAD_BUF_SIZE + 1)) (List.replicate HEAD_BUF_SIZE 97) := by
  have h₀ := ReadRun.start Reading.Safe (.contentLength 5) (ascii "he") true (by decide)
  have h₁ := h₀.scripted 10 9 (.inr (.inr (.inl rfl))) []
    (.ok (ascii "he"), ⟨.length 3, ascii "he", 2, ⟨0, 0, .NONE⟩, true, true⟩) (by decide +kernel)
  have h₂ := h₁.scripted 10 9 (.inr (.inr (.inl (by decide +kernel)))) [.ok (ascii "llo")]
    (.ok (ascii "llo"), ⟨.done, ascii "llo", 3, ⟨0, 0, .NONE⟩, true, false⟩) (by decide +kernel)
  refine ⟨⟨_, h₂, by decide +kernel, by decide +kernel, readRun_truthful h₂⟩, ?_⟩
  have h₃ := ReadRun.retried (t := List.replicate HEAD_BUF_SIZE 97) List.length_replicate
  rw [List.length_replicate] at h₃
  exact ⟨_, h₃, rfl, rfl, readRun_truthful h₃⟩

/-- After `Interrupted`, a second read returns 8192 bytes that were never delivered and declares the connection
    clean. -/
theorem readRun_invents_bytes :
    ∃ r, ReadRun (fun _ _ => True) (.contentLength 8192) [] true r ∧ r.feed.delivered = [] ∧
      r.out.length = 8192 ∧ r.body.dirty = false ∧ ¬ r.Truthful (.contentLength 8192) [] := by
  have hlen : (resize [] HEAD_BUF_SIZE).length = 8192 := by
    simp only [resize, HEAD_BUF_SIZE, List.take_nil, List.nil_append, List.length_replicate, List.length_nil,
      Nat.sub_zero]
  have h₀ := ReadRun.start (fun _ _ => True) (.contentLength 8192) [] true (by decide)
  have h₁ : ReadRun (fun _ _ => True) (.contentLength 8192) [] true
      ⟨⟨.length 8192, resize [] HEAD_BUF_SIZE, 0, ⟨0, 0, .NONE⟩, true, true⟩, [], [], 0, true⟩ :=
    h₀.scripted 8192 9 trivial [.error ⟨.interrupted, .text "interrupted"⟩]
      (.error ⟨.interrupted, .text "interrupted"⟩,
        ⟨.length 8192, resize [] HEAD_BUF_SIZE, 0, ⟨0, 0, .NONE⟩, true, true⟩) rfl
  -- the buffer now holds the zeros of the resize, and the second call finds them behind the cursor
  have hpos : 0 < (resize [] HEAD_BUF_SIZE).length := by
    rw [hlen]
    decide
  have h₂ : ReadRun (fun _ _ => True) (.contentLength 8192) [] true
      ⟨finish ⟨.length 8192, resize [] HEAD_BUF_SIZE, (resize [] HEAD_BUF_SIZE).length, ⟨0, 0, .NONE⟩, true, true⟩,
        resize [] HEAD_BUF_SIZE, [], 0, true⟩ := by
    have h₂ := h₁.buffered 8192 hpos trivial rfl hpos
    rwa [takeContentLength_raw rfl hpos (show 8192 = _ + 0 from hlen.symm), if_pos rfl] at h₂
  refine ⟨_, h₂, rfl, ?_, ?_, fun htrue => ?_⟩
  · exact hlen
  · simp [finish]
  · have hle := htrue.1.length_le
    rw [List.nil_append, hlen] at hle
    exact absurd hle (by decide)

end Xibalba
