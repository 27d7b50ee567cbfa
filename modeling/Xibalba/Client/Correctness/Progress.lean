import Xibalba.Lib.Total
import Xibalba.Client.Correctness.Drain
import Xibalba.Iouring.Correctness.Feed
import Xibalba.Proto.Correctness.ChunkedSafety

/-!
# `Client.Correctness.Progress` — decode loops end

Three loops drive a `ChunkedDecoder`: the buffered reader's, the streaming reader's and that of the io_uring parser. None
of them has a bound of its own. That they end rests on the decoder: a call on some input consumes a byte of it, is done
or fails, whatever calls were made before, also after an error.

Layout:
* one call, and the loops over a piece of input;
* `lasting`, a stream that answers so many times;
* the buffered and the streaming reader on such a stream;
* `decoding_ends`.
-/

namespace Xibalba

open Act (Total)
open ChunkedDecoder (Inv)

/-! ## Calls -/

namespace ChunkedDecoder

/-- What a call owes its caller, whether or not a verdict is held. -/
structure Serves (input : Bytes) (outLen : Nat) (r : Decoded) : Prop where
  reached : r.result ≠ .panicked
  consumed : r.consumed ≤ input.length
  written : r.written.length ≤ outLen
  data : ∀ n, r.result = .data n → n = r.written.length ∧ (0 < outLen → 0 < n)
  progress : input ≠ [] → 0 < outLen → 0 < r.consumed ∨ r.result = .done ∨ ∃ e, r.result = .error e

/-- A decoder as calls leave it: it keeps its invariant, or holds a verdict. -/
def Sane (d : ChunkedDecoder) : Prop := Inv d ∨ ∃ e, d.state = .failed e

theorem sane_afterCalls (before : List (Bytes × Nat)) : (new.afterCalls before).Sane := afterCalls_inv before (.inl inv_new)

/-- **One call** on any of them: no slice, subtraction or `unreachable!` of it panics. -/
theorem Sane.decode {d : ChunkedDecoder} (hd : d.Sane) (input : Bytes) (outLen : Nat) :
    d.decodeChecked input outLen = some (d.decode input outLen) ∧ Serves input outLen (d.decode input outLen) ∧
      (d.decode input outLen).decoder.Sane := by
  rcases hd with hi | ⟨e, he⟩
  · obtain ⟨hchecked, hord⟩ := decode_checked hi input outLen
    exact ⟨hchecked, ⟨hord.reached, hord.consumed, hord.written, hord.data, hord.progress⟩, hord.decoder.imp_right And.left⟩
  · rw [decode_failed he]
    refine ⟨by rw [decodeChecked, he], ⟨?_, Nat.zero_le _, Nat.zero_le _, ?_, fun _ _ => .inr (.inr ⟨e, rfl⟩)⟩, .inr ⟨e, he⟩⟩
    · intro h
      cases h
    · intro n h
      cases h

/-- A decoder that asks for more has taken all there was. -/
theorem Sane.needMore {d : ChunkedDecoder} (hd : d.Sane) {input : Bytes} {outLen : Nat} (hout : 0 < outLen)
    (h : (d.decode input outLen).result = .needMore) : (d.decode input outLen).consumed = input.length := by
  rcases hd with hi | ⟨e, he⟩
  · have hst := decode_stretch hi input hout
    generalize d.decode input outLen = res at hst h
    cases hst with
    | needMore => rfl
    | data => cases h
    | done => cases h
    | error => cases h
  · rw [decode_failed he] at h
    cases h

/-- A call that delivers bytes has consumed some. -/
theorem Sane.data {d : ChunkedDecoder} (hd : d.Sane) {input : Bytes} {outLen n : Nat} (hout : 0 < outLen)
    (h : (d.decode input outLen).result = .data n) : 0 < (d.decode input outLen).consumed := by
  rcases hd with hi | ⟨e, he⟩
  · have hst := decode_stretch hi input hout
    generalize d.decode input outLen = res at hst h
    cases hst with
    | data _ hk => exact hk
    | needMore => cases h
    | done => cases h
    | error => cases h
  · rw [decode_failed he] at h
    cases h

end ChunkedDecoder

open ChunkedDecoder (Sane)

/-- The loop of the buffered reader over one piece: a turn that does not end it has consumed a byte. -/
theorem BodyCollector.pump_isSome (maxBody : Nat) (whileInput : Bool) {turns : Nat} {d : ChunkedDecoder} (hd : d.Sane)
    (body input : Bytes) (hturns : input.length < turns) : (pump maxBody whileInput turns d body input).isSome := by
  induction turns generalizing d body input with
  | zero => exact absurd hturns (Nat.not_lt_zero _)
  | succ turns ih =>
      unfold pump
      split
      · rfl
      obtain ⟨-, hserves, hsane⟩ := hd.decode input HEAD_BUF_SIZE
      dsimp only
      split
      next n hdata =>
        split
        · rfl
        · split
          · rfl
          · have hpos := hd.data (show 0 < HEAD_BUF_SIZE by decide) hdata
            have hle := hserves.consumed
            refine ih hsane _ _ ?_
            rw [List.length_drop]
            omega
      · rfl
      · rfl
      · rfl
      next hpanic => exact absurd hpanic hserves.reached

/-- The loop of the io_uring parser. -/
theorem Iouring.PartialResponse.pumpLoop_isSome (data : Bytes) {turns : Nat} {d : ChunkedDecoder} (hd : d.Sane) (pos : Nat)
    (body : Bytes) (hturns : data.length - pos < turns) : (pumpLoop data turns d pos body).isSome := by
  induction turns generalizing d pos body with
  | zero => exact absurd hturns (Nat.not_lt_zero _)
  | succ turns ih =>
      unfold pumpLoop
      split
      next hgo =>
        obtain ⟨-, hserves, hsane⟩ := hd.decode (data.drop pos) BLOCK_SIZE
        dsimp only
        split
        next n hdata =>
          split
          · rfl
          · have hpos := hd.data (show 0 < BLOCK_SIZE by decide) hdata
            refine ih hsane _ _ ?_
            omega
        · rfl
        · rfl
        · rfl
        next hpanic => exact absurd hpanic hserves.reached
      · rfl

/-! ## A stream that ends -/

/-- Whether an answer keeps its reader waiting for more: some bytes, or a timeout tick. -/
def Op.lasts : (op : Op) → op.Ret → Bool
  | .read _, .ok bs => !bs.val.isEmpty
  | .read _, .error e => Tick.marks e
  | _, _ => false

/-- The state is how often the stream still answers with bytes or with a tick, at most. Whatever else is answered, and
    every passing of time, is left open. -/
def lasting : World Sys Nat where
  env := Eq
  guard _ _ := True
  act n op r n' := n' + (op.lasts r).toNat ≤ n
  env_refl _ := rfl
  env_trans h₁ h₂ := h₁.trans h₂

section

variable {ε α : Type} {n fuel : Nat}

/-- At most `n` answers are left. -/
def noMore (n : Nat) : lasting.Assertion Local where
  holds _ s := s ≤ n
  stable henv h := by
    cases henv
    exact h

/-- Fewer than `n` answers are left. -/
def under (n : Nat) : lasting.Assertion Local where
  holds _ s := s < n
  stable henv h := by
    cases henv
    exact h

theorem noMore_under {l : Local} {s : Nat} (h : under n l s) : noMore n l s := Nat.le_of_lt h

/-- One turn fewer is needed where one answer fewer is left. -/
theorem Total.under {x : M ε α} {Q : Except ε α → lasting.Assertion Local}
    (h : ∀ n', n = n' + 1 → Total (noMore n') x Q) : Total (under n) x Q := by
  cases n with
  | zero => exact Total.given (φ := False) (fun _ _ h => Nat.not_lt_zero _ h) False.elim
  | succ n => exact Total.conseq (h n rfl) (fun _ _ h => Nat.le_of_lt_succ h) fun _ _ _ h => h

/-- A look at the clock does not make answers more. -/
theorem lasting_now {I : lasting.Assertion Local} (hI : ∀ l s s', s' ≤ s → I l s → I l s') :
    Total I (M.now : M ε Instant) (.onOk fun _ => I) :=
  Total.call fun l s h => ⟨trivial, fun _ s' hact => hI l s s' (Nat.le_trans (Nat.le_add_right _ _) hact) h⟩

theorem noMore_falls (l : Local) (s s' : Nat) (hs : s' ≤ s) (h : noMore n l s) : noMore n l s' := Nat.le_trans hs h

theorem under_falls (l : Local) (s s' : Nat) (hs : s' ≤ s) (h : under n l s) : under n l s' := Nat.lt_of_le_of_lt hs h

/-- What a read leaves. -/
def answered (n : Nat) {len : Nat} : Except StdIoError { bs : Bytes // bs.length ≤ len } → lasting.Assertion Local
  | .ok bs => if bs.val.isEmpty then noMore n else under n
  | .error e => if Tick.marks e then under n else noMore n

theorem Stream.lasting_read (len : Nat) : Total (noMore n) (Stream.raw.read len) (answered n) := by
  refine Total.after (R := answered n) (Total.call fun l s h => ⟨trivial, fun r s' hact => ?_⟩) fun r =>
    Total.ofExcept fun _ _ h => h
  cases r with
  | ok bs =>
      have hle : s' + (!bs.val.isEmpty).toNat ≤ s := hact
      show (if bs.val.isEmpty then noMore n else under n).holds l s'
      split
      next hempty =>
        rw [hempty] at hle
        exact Nat.le_trans hle h
      next hempty =>
        rw [Bool.eq_false_of_not_eq_true hempty] at hle
        exact Nat.le_trans hle h
  | error e =>
      have hle : s' + (Tick.marks e).toNat ≤ s := hact
      show (if Tick.marks e then under n else noMore n).holds l s'
      split
      next htick =>
        rw [htick] at hle
        exact Nat.le_trans hle h
      next htick =>
        rw [Bool.eq_false_of_not_eq_true htick] at hle
        exact Nat.le_trans hle h

theorem RequestDeadline.lasting_expired (d : RequestDeadline) :
    Total (noMore n) (d.expired : M ε Bool) (.onOk fun _ => noMore n) := by
  unfold expired
  cases d.expiresAt with
  | none => exact Total.pure fun _ _ h => h
  | some e => exact Total.after (lasting_now noMore_falls) fun _ => Total.pure fun _ _ h => h

/-- What a read under a budget leaves. -/
def pulled (n : Nat) {len : Nat} : Except ε ({ bs : Bytes // bs.length ≤ len } × SilenceBudget) → lasting.Assertion Local
  | .ok r => if r.1.val.isEmpty then noMore n else under n
  | .error _ => noMore n

theorem pulled_mono {m len : Nat} (hm : n ≤ m) {r : Except ε ({ bs : Bytes // bs.length ≤ len } × SilenceBudget)} {l : Local}
    {s : Nat} (h : pulled n r l s) : pulled m r l s := by
  cases r with
  | ok r =>
      have h : (if r.1.val.isEmpty then noMore n else under n).holds l s := h
      show (if r.1.val.isEmpty then noMore m else under m).holds l s
      split
      next hempty =>
        rw [if_pos hempty] at h
        exact Nat.le_trans h hm
      next hempty =>
        rw [if_neg hempty] at h
        exact Nat.lt_of_lt_of_le h hm
  | error e => exact Nat.le_trans h hm

namespace SilenceBudget

/-- A read is over after as many ticks as there are. -/
theorem lasting_read (len : Nat) {turns : Nat} (b : SilenceBudget) (hturns : n < turns) :
    Total (noMore n) (read .raw len turns b) (pulled n) := by
  induction turns generalizing n with
  | zero => exact absurd hturns (Nat.not_lt_zero _)
  | succ turns ih =>
      refine Total.after b.deadline.lasting_expired fun late => ?_
      cases late with
      | true => exact Total.raise fun _ _ h => h
      | false =>
          refine Total.after (Total.attempt (Stream.lasting_read len) fun _ _ _ h => h) fun r => ?_
          cases r with
          | ok bs =>
              show Total (if bs.val.isEmpty then noMore n else under n) _ _
              split
              next hempty =>
                refine Total.after (lasting_now noMore_falls) fun now => Total.pure fun l s h => ?_
                show (if bs.val.isEmpty then noMore n else under n).holds l s
                rw [if_pos hempty]
                exact h
              next hempty =>
                refine Total.after (lasting_now under_falls) fun now => Total.pure fun l s h => ?_
                show (if bs.val.isEmpty then noMore n else under n).holds l s
                rw [if_neg hempty]
                exact h
          | error err =>
              show Total (if Tick.marks err then under n else noMore n) _ _
              dsimp only
              split
              next htick =>
                refine Total.under fun n' hn => ?_
                subst hn
                have hrest := Total.conseq (ih (Nat.lt_of_succ_lt_succ hturns)) (fun _ _ h => h)
                  fun _ _ _ h => pulled_mono (Nat.le_succ n') h
                exact Total.after (lasting_now noMore_falls) fun now => Total.orThrow (fun _ _ h => Nat.le_succ_of_le h) hrest
              next htick => exact Total.throw fun _ _ h => h

theorem lasting_readProto (len : Nat) (b : SilenceBudget) (hfuel : n < fuel) :
    Total (noMore n) (b.readProto .raw len fuel) (pulled n) := by
  refine Total.mapError (lasting_read len b hfuel) fun r l s h => ?_
  cases r with
  | ok r => exact h
  | error e => exact h

/-- The rule for a read that is given up where the stream has ended. -/
theorem Total.more {len : Nat} {e : ε} {x : { bs : Bytes // bs.length ≤ len } × SilenceBudget → M ε α}
    {y : M ε ({ bs : Bytes // bs.length ≤ len } × SilenceBudget)} (hy : Total (noMore n) y (pulled n))
    (hx : ∀ r n', n = n' + 1 → Total (noMore n') (x r) fun _ => noMore n) :
    Total (noMore n) (do
      let r ← y
      if r.1.val.isEmpty then Act.throw e
      x r) fun _ => noMore n := by
  refine Total.bind hy (fun r => ?_) fun _ _ _ h => h
  show Total (if r.1.val.isEmpty then noMore n else under n) _ _
  split
  · exact Total.raise fun _ _ h => h
  · exact Total.under (hx r)

theorem lasting_readExact {turns : Nat} (b : SilenceBudget) (need : Nat) (got : Bytes) (hfuel : n < fuel)
    (hturns : n < turns) :
    Total (noMore n) (readExact .raw fuel turns b need got) fun _ => noMore n := by
  induction turns generalizing n b need got with
  | zero => exact absurd hturns (Nat.not_lt_zero _)
  | succ turns ih =>
      unfold readExact
      split
      · exact Total.pure fun _ _ h => h
      refine Total.more (lasting_read need b hfuel) fun r n' hn => ?_
      subst hn
      refine Total.conseq (ih r.2 _ _ (Nat.lt_of_succ_lt hfuel) (Nat.lt_of_succ_lt_succ hturns)) (fun _ _ h => h)
        fun _ _ _ h => ?_
      exact Nat.le_succ_of_le h

end SilenceBudget

/-! ## The buffered reader -/

namespace BodyCollector

/-- The decode loop over a piece comes to an end, and so does what follows it. -/
theorem total_pumped_bind {σ β : Type} {W : World Sys σ} {I : W.Assertion Local} {Q : Except Error β → W.Assertion Local}
    {f : Pumped → M Error β} {maxBody : Nat} (whileInput : Bool) {d : ChunkedDecoder} {body : Bytes} (input : Bytes)
    (hinv : d.Inv) (hnd : d.isDone = false) (hmax : body.length ≤ maxBody)
    (hf : ∀ p, p.Exact maxBody d body input → Total I (f p) Q) :
    Total I (pumped maxBody whileInput d body input >>= f) Q := by
  obtain ⟨p, hp, hexact⟩ := pump_exact whileInput (.inl hinv) hnd hmax (Nat.lt_add_of_pos_right Nat.zero_lt_two)
  unfold pumped
  rw [hp]
  exact hf p hexact

theorem lasting_readChunkedMore {maxBody turns : Nat} (b : SilenceBudget) {d : ChunkedDecoder} {body : Bytes} (hinv : d.Inv)
    (hnd : d.isDone = false) (hmax : body.length ≤ maxBody) (hfuel : n < fuel) (hturns : n < turns) :
    Total (noMore n) (readChunkedMore .raw maxBody fuel turns b d body) fun _ => noMore n := by
  induction turns generalizing n b d body with
  | zero => exact absurd hturns (Nat.not_lt_zero _)
  | succ turns ih =>
      unfold readChunkedMore
      refine SilenceBudget.Total.more (SilenceBudget.lasting_readProto _ b hfuel) fun r n' hn => ?_
      subst hn
      refine total_pumped_bind true r.1.val hinv hnd hmax fun p hp => ?_
      cases p with
      | needMore d' body' =>
          obtain ⟨hinv', hnd', hmax', -⟩ := hp
          exact Total.conseq
            (ih r.2 hinv' hnd' hmax' (Nat.lt_of_succ_lt hfuel) (Nat.lt_of_succ_lt_succ hturns)) (fun _ _ h => h)
            fun _ _ _ h => Nat.le_succ_of_le h
      | done body' leftover => exact Total.pure fun _ _ h => Nat.le_succ_of_le h
      | error err => exact Total.throw fun _ _ h => Nat.le_succ_of_le h

theorem lasting_readUntilClose {maxBody turns : Nat} (b : SilenceBudget) (body : Bytes) (hfuel : n < fuel)
    (hturns : n < turns) :
    Total (noMore n) (readUntilClose .raw maxBody fuel turns b body) fun _ => noMore n := by
  induction turns generalizing n b body with
  | zero => exact absurd hturns (Nat.not_lt_zero _)
  | succ turns ih =>
      unfold readUntilClose
      refine Total.orThrow (fun _ _ h => h)
        (Total.bind (SilenceBudget.lasting_readProto _ b hfuel) (fun r => ?_) fun _ _ _ h => h)
      show Total (if r.1.val.isEmpty then noMore n else under n) _ _
      dsimp only
      split
      · exact Total.pure fun _ _ h => h
      · refine Total.under fun n' hn => ?_
        subst hn
        refine Total.conseq (ih r.2 _ (Nat.lt_of_succ_lt hfuel) (Nat.lt_of_succ_lt_succ hturns)) (fun _ _ h => h)
          fun _ _ _ h => ?_
        exact Nat.le_succ_of_le h

/-- **The buffered reader**, on every framing. -/
theorem lasting_read (maxBody : Nat) (b : SilenceBudget) (framing : BodyFraming) (tail : Bytes) (hfuel : n < fuel) :
    Total (noMore n) (read .raw maxBody fuel b framing tail) fun _ => noMore n := by
  cases framing with
  | none => exact Total.pure fun _ _ h => h
  | contentLength len =>
      refine Total.orThrow (fun _ _ h => h) (Total.ite ?_ (Total.pure fun _ _ h => h))
      refine Total.seq (Total.mapError ?_ fun _ _ _ h => h) fun rest => Total.pure fun _ _ h => h
      exact SilenceBudget.lasting_readExact b _ [] hfuel hfuel
  | chunked =>
      refine total_pumped_bind false tail ChunkedDecoder.inv_new rfl (Nat.zero_le _) fun p hp => ?_
      cases p with
      | needMore d body =>
          obtain ⟨hinv, hnd, hmax, -⟩ := hp
          exact lasting_readChunkedMore b hinv hnd hmax hfuel hfuel
      | done body leftover => exact Total.pure fun _ _ h => h
      | error err => exact Total.throw fun _ _ h => h
  | untilClose =>
      exact Total.seq (lasting_readUntilClose b tail hfuel hfuel) fun _ => Total.pure fun _ _ h => h

end BodyCollector

/-! ## The streaming reader -/

namespace StreamingBody

/-- A body as calls leave it. -/
def Sane (b : StreamingBody) : Prop := ∀ d, b.state = .chunked d → d.Sane

theorem sane_finish (b : StreamingBody) : Sane b.finish := by
  intro d hd
  cases hd

/-- What a refill leaves: a body whose input is not empty where it says so, and an answer fewer where it had been. -/
def refilled (n : Nat) (b : StreamingBody) : Except ε (Outcome Bool) → lasting.Assertion Local
  | .ok (.ok true, b') => ⟨fun l s => (if b.input.isEmpty then under n else noMore n).holds l s ∧ b'.state = b.state,
      fun henv h => ⟨World.Assertion.stable _ henv h.1, h.2⟩⟩
  | .ok o => ⟨fun l s => noMore n l s ∧ o.2.state = b.state, fun henv h => ⟨World.Assertion.stable _ henv h.1, h.2⟩⟩
  | .error _ => ⟨fun _ _ => False, fun _ h => h⟩

theorem lasting_refill (b : StreamingBody) (hfuel : n < fuel) :
    Total (noMore n) (refill .raw fuel b : M ε (Outcome Bool)) (refilled n b) := by
  unfold refill
  split
  next hlt =>
    have hin : b.input.isEmpty = false := by
      rw [List.isEmpty_eq_false_iff]
      exact fun h => input_eq_nil.mp h hlt
    refine Total.pure fun l s h => ⟨?_, rfl⟩
    rw [hin]
    exact h
  next hlt =>
    have hin : b.input.isEmpty = true := List.isEmpty_iff.mpr (input_eq_nil.mpr hlt)
    refine Total.after (Total.attempt (SilenceBudget.lasting_read HEAD_BUF_SIZE b.budget hfuel) fun _ _ _ h => h) fun r => ?_
    cases r with
    | error e => exact Total.pure fun _ _ h => ⟨h, rfl⟩
    | ok r =>
        obtain ⟨bs, budget⟩ := r
        show Total (if bs.val.isEmpty then noMore n else under n) _ _
        dsimp only
        cases hempty : bs.val.isEmpty with
        | true => exact Total.pure fun _ _ h => ⟨h, rfl⟩
        | false =>
            refine Total.pure fun l s h => ⟨?_, rfl⟩
            rw [hin]
            exact h

/-- One call of the decoder: it does not panic, and where it asks for more its input is used up. -/
theorem Sane.decodeChunked {b : StreamingBody} (hb : Sane b) {d : ChunkedDecoder} (hs : b.state = .chunked d) {bufLen : Nat}
    (hlen : 0 < bufLen) :
    ∃ o, b.decodeChunked bufLen = some o ∧ Sane o.2 ∧
      (o.1 = .ok .needMore → o.2.input = [] ∧ ∃ d', o.2.state = .chunked d') := by
  have hd := hb d hs
  obtain ⟨-, hserves, hsane⟩ := hd.decode b.input bufLen
  have hkeep : ∀ b' : StreamingBody, b'.state = .chunked (d.decode b.input bufLen).decoder → Sane b' := by
    intro b' hb' d' hd'
    rw [hb'] at hd'
    cases hd'
    exact hsane
  unfold StreamingBody.decodeChunked
  rw [hs]
  dsimp only
  cases hres : (d.decode b.input bufLen).result with
  | data n =>
      refine ⟨_, rfl, ?_, fun h => ?_⟩
      · dsimp only
        split
        · exact sane_finish _
        · exact hkeep _ rfl
      · cases h
  | done => exact ⟨_, rfl, sane_finish _, fun h => by cases h⟩
  | needMore =>
      refine ⟨_, rfl, hkeep _ rfl, fun _ => ⟨?_, _, rfl⟩⟩
      have hall := hd.needMore hlen hres
      show b.raw.drop (b.rawPos + (d.decode b.input bufLen).consumed) = []
      rw [drop_rawPos, hall, List.drop_length]
  | error e => exact ⟨_, rfl, hkeep _ rfl, fun h => by cases h⟩
  | panicked => exact absurd hres hserves.reached

/-- What a call leaves: a body that can be read on. -/
def readOn (n : Nat) (r : Except ε (Outcome Bytes)) : lasting.Assertion Local where
  holds l s := noMore n l s ∧ ∃ o, r = .ok o ∧ Sane o.2
  stable henv h := ⟨(noMore n).stable henv h.1, h.2⟩

theorem lasting_readChunked {bufLen : Nat} (hlen : 0 < bufLen) {turns : Nat} {b : StreamingBody} (hb : Sane b)
    {d : ChunkedDecoder} (hs : b.state = .chunked d) (hfuel : n < fuel)
    (hturns : (n + if b.input.isEmpty then 0 else 1) < turns) :
    Total (noMore n) (readChunked .raw fuel bufLen turns b : M ε (Outcome Bytes)) (readOn n) := by
  induction turns generalizing n b d with
  | zero => exact absurd hturns (Nat.not_lt_zero _)
  | succ turns ih =>
      have hstop : ∀ (r : Except StdIoError Bytes) (b' : StreamingBody), b'.state = b.state →
          ∀ (l : Local) s, noMore n l s → readOn n (.ok (r, b') : Except ε (Outcome Bytes)) l s := by
        intro r b' hb' l s h
        refine ⟨h, _, rfl, fun d' hd' => hb d' ?_⟩
        rw [← hb']
        exact hd'
      unfold readChunked
      refine Total.bind (lasting_refill b hfuel) (fun o => ?_) fun _ _ _ h => h.elim
      obtain ⟨r, b'⟩ := o
      cases r with
      | error e => exact Total.pure fun l s h => hstop _ _ h.2 l s h.1
      | ok more =>
          cases more with
          | false => exact Total.pure fun l s h => hstop _ _ h.2 l s h.1
          | true =>
              refine Total.given (φ := b'.state = b.state) (fun _ _ h => h.2) fun hsame => ?_
              have hsane : Sane b' := fun d' hd' => hb d' (hsame ▸ hd')
              obtain ⟨o, ho, hsane', hmore⟩ := hsane.decodeChunked (hsame.trans hs) hlen
              dsimp only
              rw [ho]
              refine Total.conseq (P := if b.input.isEmpty then under n else noMore n) ?_ (fun _ _ h => h.1) fun _ _ _ h => h
              have hkept : ∀ l s, (if b.input.isEmpty then under n else noMore n).holds l s → noMore n l s := by
                intro l s h
                split at h
                · exact noMore_under h
                · exact h
              obtain ⟨r, b''⟩ := o
              cases r with
              | error e => exact Total.pure fun l s h => ⟨hkept l s h, _, rfl, hsane'⟩
              | ok r =>
                  cases r with
                  | progress bytes => exact Total.pure fun l s h => ⟨hkept l s h, _, rfl, hsane'⟩
                  | needMore =>
                      -- the next turn has to read, and needs an answer for that
                      obtain ⟨hnil, d'', hs''⟩ := hmore rfl
                      have hnext : ∀ m ≤ n, m < turns →
                          Total (noMore m) (readChunked .raw fuel bufLen turns b'' : M ε (Outcome Bytes)) (readOn n) := by
                        intro m hm hlt
                        refine Total.conseq (ih hsane' hs'' (Nat.lt_of_le_of_lt hm hfuel) ?_) (fun _ _ h => h)
                          fun _ _ _ h => ⟨Nat.le_trans h.1 hm, h.2⟩
                        show (m + if b''.input.isEmpty then 0 else 1) < turns
                        rw [hnil]
                        exact hlt
                      split
                      next hempty =>
                        refine Total.under fun n' hn => hnext n' (by omega) ?_
                        rw [if_pos hempty] at hturns
                        omega
                      next hempty =>
                        rw [if_neg hempty] at hturns
                        exact hnext n (Nat.le_refl n) (by omega)

theorem lasting_refillThen {take : StreamingBody → Outcome Bytes} {b : StreamingBody} (hb : Sane b)
    (htake : ∀ b', b'.state = b.state → Sane (take b').2) (hfuel : n < fuel) :
    Total (noMore n) (refillThen .raw fuel take b : M ε (Outcome Bytes)) (readOn n) := by
  have hkept : ∀ b' : StreamingBody, b'.state = b.state → Sane b' := by
    intro b' hsame d hd
    rw [hsame] at hd
    exact hb d hd
  refine Total.bind (lasting_refill b hfuel) (fun o => ?_) fun _ _ _ h => h.elim
  obtain ⟨r, b'⟩ := o
  cases r with
  | error e => exact Total.pure fun l s h => ⟨h.1, _, rfl, hkept _ h.2⟩
  | ok more =>
      cases more with
      | false => exact Total.pure fun l s h => ⟨h.1, _, rfl, htake _ h.2⟩
      | true =>
          refine Total.pure fun l s h => ⟨?_, _, rfl, htake _ h.2⟩
          have hanswers := h.1
          split at hanswers
          · exact noMore_under hanswers
          · exact hanswers

theorem sane_of_state {b : StreamingBody} (h : ∀ d, b.state ≠ .chunked d) : Sane b := fun d hd => absurd hd (h d)

/-- **One call of `read`**, in whatever state the calls before it left the body. -/
theorem lasting_read (bufLen : Nat) {b : StreamingBody} (hb : Sane b) (hfuel : n + 1 < fuel) :
    Total (noMore n) (read .raw fuel bufLen b : M ε (Outcome Bytes)) (readOn n) := by
  have hstay : Total (noMore n) (pure (.ok [], b) : M ε (Outcome Bytes)) (readOn n) :=
    Total.pure fun _ _ h => ⟨h, _, rfl, hb⟩
  unfold read
  split
  · exact hstay
  next hlen =>
    split
    · exact hstay
    next remaining hs =>
      refine lasting_refillThen hb (fun b' hsame => sane_of_state fun d => ?_) (Nat.lt_of_succ_lt hfuel)
      unfold takeContentLength
      split
      · rw [hsame, hs]
        exact fun h => by cases h
      · dsimp only
        split
        · exact fun h => by cases h
        · exact fun h => by cases h
    next hs =>
      refine lasting_refillThen hb (fun b' hsame => sane_of_state fun d => ?_) (Nat.lt_of_succ_lt hfuel)
      unfold takeUntilClose
      split
      · exact fun h => by cases h
      · rw [hsame, hs]
        exact fun h => by cases h
    next d hs =>
      refine lasting_readChunked (Nat.pos_of_ne_zero hlen) hb hs (Nat.lt_of_succ_lt hfuel) ?_
      split
      · omega
      · exact hfuel

/-- Calls of `read` with buffers of these sizes, going on after an error. -/
def readEach {ε : Type} (stream : Stream) (fuel : Nat) : List Nat → StreamingBody → M ε (List (Except StdIoError Bytes))
  | [], _ => pure []
  | bufLen :: sizes, b => do
    let o ← read stream fuel bufLen b
    let rest ← readEach stream fuel sizes o.2
    return o.1 :: rest

/-- **Any calls of `read`** come to an end. -/
theorem lasting_readEach (sizes : List Nat) {b : StreamingBody} (hb : Sane b) (hfuel : n + 1 < fuel) :
    Total (noMore n) (readEach .raw fuel sizes b : M ε (List (Except StdIoError Bytes))) fun _ => noMore n := by
  induction sizes generalizing b with
  | nil => exact Total.pure fun _ _ h => h
  | cons bufLen sizes ih =>
      refine Total.bind (lasting_read bufLen hb hfuel) (fun o => ?_) fun _ _ _ h => h.1
      refine Total.given (φ := Sane o.2) (fun l s h => ?_) fun hsane => ?_
      · obtain ⟨-, o', ho, hsane⟩ := h
        cases ho
        exact hsane
      refine Total.conseq (P := noMore n) ?_ (fun _ _ h => h.1) fun _ _ _ h => h
      exact Total.seq (ih hsane) fun rest => Total.pure fun _ _ h => h

end StreamingBody

end

/-! A program is a finite tree, so a run that is not cut off goes on to a result. -/

/-- **Decode loops end.** After any calls on a decoder, errors included, one more call panics nowhere, stays within its
    buffers and, given input and room, consumes a byte, is done or fails. So the loops that call it end: over a piece of
    input within two turns more than it has bytes; and on every stream that answers finitely often, with a timeout tick,
    some bytes or an error at a time, the buffered reader on every framing, and any calls of the streaming reader. -/
theorem decoding_ends :
    (∀ before input outLen, (ChunkedDecoder.new.afterCalls before).decodeChecked input outLen =
        some ((ChunkedDecoder.new.afterCalls before).decode input outLen) ∧
      ChunkedDecoder.Serves input outLen ((ChunkedDecoder.new.afterCalls before).decode input outLen)) ∧
    (∀ before maxBody whileInput body input, (BodyCollector.pump maxBody whileInput (input.length + 2)
      (ChunkedDecoder.new.afterCalls before) body input).isSome) ∧
    (∀ before body data, (Iouring.PartialResponse.pumpLoop data (data.length + 1)
      (ChunkedDecoder.new.afterCalls before) 0 body).isSome) ∧
    (∀ maxBody fuel budget framing tail n l p s, n < fuel →
      Prog.Reach lasting (BodyCollector.read .raw maxBody fuel budget framing tail l) n p s → p ≠ .hang) ∧
    ∀ sizes fuel (b : StreamingBody) n l p s,
      (∀ d, b.state = .chunked d → ∃ before, d = ChunkedDecoder.new.afterCalls before) →
      n + 1 < fuel → Prog.Reach lasting ((b.readEach .raw fuel sizes : M Error _) l) n p s → p ≠ .hang := by
  have hsane := ChunkedDecoder.sane_afterCalls
  refine ⟨fun before input outLen => ?_, fun before maxBody whileInput body input => ?_, fun before body data => ?_, ?_, ?_⟩
  · obtain ⟨hchecked, hserves, -⟩ := (hsane before).decode input outLen
    exact ⟨hchecked, hserves⟩
  · exact BodyCollector.pump_isSome maxBody whileInput (hsane before) body input (Nat.lt_add_of_pos_right Nat.zero_lt_two)
  · exact Iouring.PartialResponse.pumpLoop_isSome data (hsane before) 0 body (Nat.lt_succ_self _)
  · intro maxBody fuel budget framing tail n l p s hfuel hrun
    exact Prog.uncut_sound ((BodyCollector.lasting_read maxBody budget framing tail hfuel).uncut l n (Nat.le_refl n)) hrun
  · intro sizes fuel b n l p s hb hfuel hrun
    have hb' : b.Sane := by
      intro d hd
      obtain ⟨before, rfl⟩ := hb d hd
      exact hsane before
    exact Prog.uncut_sound ((StreamingBody.lasting_readEach sizes hb' hfuel).uncut l n (Nat.le_refl n)) hrun

/-- A stream that has the same five bytes so many times, and then ends. -/
def fiveBytes (n : Nat) : (op : Op) → Option (op.Ret × Nat)
  | .now => some ((0 : Nat), n)
  | .read len => if n = 0 then some (.ok ⟨[], Nat.zero_le _⟩, 0)
    else some (.ok ⟨(ascii "3\r\nhi").take len, List.length_take_le _ _⟩, n - 1)
  | _ => none

theorem lasting_fiveBytes {n n' : Nat} {op : Op} {r : op.Ret} (h : fiveBytes n op = some (r, n')) :
    lasting.act n op r n' := by
  cases op with
  | now =>
      cases h
      exact Nat.le_refl n
  | read len =>
      have h : (if n = 0 then some ((.ok ⟨[], Nat.zero_le _⟩, 0) : (Op.read len).Ret × Nat)
        else some (.ok ⟨(ascii "3\r\nhi").take len, List.length_take_le _ _⟩, n - 1)) = some (r, n') := h
      split at h
      · cases h
        exact Nat.zero_le _
      next hn =>
        cases h
        show n - 1 + _ ≤ n
        have hone : ((Op.read len).lasts (.ok ⟨(ascii "3\r\nhi").take len, List.length_take_le _ _⟩)).toNat ≤ 1 :=
          Bool.toNat_le _
        omega
  | _ => cases h

/-- The state of a thread that reads a body. -/
def bodyReader : Local := ⟨.fresh .default 65536 ⟨.http, ascii "a", none, ascii "/", none, none⟩, [], false⟩

/-- A chunked body at its beginning. -/
def unreadBody : StreamingBody := ⟨.chunked .new, [], 0, ⟨Config.seconds 60, (0 : Nat), .NONE⟩, true, true⟩

/-- Four calls: two bytes of the chunk, its last one, the malformed size line behind it, and the same error again. -/
theorem decoding_ends_four_reads : ∃ p s, p ≠ .hang ∧
    Prog.Reach lasting ((unreadBody.readEach .raw 5 [4, 4, 4, 4] : M Error _) bodyReader) 2 p s ∧
    p.result?.map Prod.fst = some (.ok [.ok (ascii "hi"), .ok (ascii "3"),
      .error ⟨.invalidData, .parse .invalidChunkSize⟩, .error ⟨.invalidData, .parse .invalidChunkSize⟩]) := by
  have hrun : (Prog.enact (A := Empty) fiveBytes (fun _ a => a.elim) (List.replicate 4 none)
      ((unreadBody.readEach .raw 5 [4, 4, 4, 4] : M Error _) bodyReader) 2).map (fun c => c.1.result?.map Prod.fst) =
      some (some (.ok [.ok (ascii "hi"), .ok (ascii "3"),
        .error ⟨.invalidData, .parse .invalidChunkSize⟩, .error ⟨.invalidData, .parse .invalidChunkSize⟩])) := by
    decide +kernel
  obtain ⟨⟨p, s⟩, henact, hresult⟩ := Option.map_eq_some_iff.mp hrun
  have hreach : Prog.Reach lasting _ _ p s :=
    Prog.reach_enact (fun _ _ _ _ h => lasting_fiveBytes h) (fun _ a => a.elim) henact (.refl _ _)
  have hends := decoding_ends.2.2.2.2 [4, 4, 4, 4] 5 unreadBody 2 bodyReader p s
    (fun d hd => ⟨[], by cases hd; rfl⟩) (by decide) hreach
  exact ⟨p, s, hends, hreach, hresult⟩

end Xibalba
