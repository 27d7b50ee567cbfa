import Xibalba.Client.Correctness.Body
import Xibalba.Client.Correctness.Delivery

/-!
# `Client.Correctness.Collect` — the body a buffered reader returns

What a body is depends on the bytes behind the head only: `decoded`, `verdict` and `extent` say what it decodes to, how
that ends and how many of the bytes it takes up. `BodyCollector` computes this, whatever the tail and the segments the
bytes arrive in. Whether it reports the connection reusable does depend on them: `leftover` is what came together with
the last byte of the body.

Layout:
* the reference, for every framing;
* one call of the decoder, and the decode loop over one piece of input;
* the buffered reader over a delivery.
-/

namespace Xibalba

open ChunkedDecoder

/-! ## The reference -/

namespace BodyFraming

/-- How the body at the front of `bytes` ends. One that ends with the connection is `wanting` as long as it has not. -/
def verdict : BodyFraming → Bytes → Verdict
  | .none, _ => .done
  | .contentLength len, bytes => if len ≤ bytes.length then .done else .wanting
  | .chunked, bytes => (run .new bytes).verdict
  | .untilClose, _ => .wanting

/-- The bytes a body takes up that is delimited by itself. -/
def extent : BodyFraming → Bytes → Nat
  | .contentLength len, _ => len
  | .chunked, bytes => (run .new bytes).consumed
  | .none, _ | .untilClose, _ => 0

/-- What is held against the limit: the length that was declared, or the bytes that were decoded. -/
def weight : BodyFraming → Bytes → Nat
  | .contentLength len, _ => len
  | framing, bytes => (decoded framing bytes).length

/-- What the end of the stream makes of a body that is `wanting`. -/
def closed : BodyFraming → Ending → Bytes → Except Error Bytes
  | .untilClose, .eof, bytes => .ok bytes
  | .contentLength _, ending, _ => .error (RequestDeadline.classify ending.cut)
  | _, ending, _ => .error ending.error

/-- The body at the front of `bytes`, behind which the stream ends. -/
def body (framing : BodyFraming) (ending : Ending) (bytes : Bytes) : Except Error Bytes :=
  match framing.verdict bytes with
  | .done => .ok (decoded framing bytes)
  | .error e => .error (.parse e)
  | .wanting | .panicked => framing.closed ending bytes

end BodyFraming

/-- What comes together with the end of the first `n` bytes: the rest of the buffer or of the segment it is in. -/
def leftover : Nat → Bytes → List Bytes → Bytes
  | n, buf, [] => buf.drop n
  | n, buf, s :: ss => if n ≤ buf.length then buf.drop n else leftover (n - buf.length) s ss

theorem leftover_of_le {n : Nat} {buf : Bytes} (h : n ≤ buf.length) (ss : List Bytes) :
    leftover n buf ss = buf.drop n := by
  cases ss with
  | nil => rfl
  | cons s ss => rw [leftover, if_pos h]

/-- A buffer that ends before is as good as none. -/
theorem leftover_of_lt {n : Nat} {buf : Bytes} (h : buf.length < n) (ss : List Bytes) :
    leftover n buf ss = leftover (n - buf.length) [] ss := by
  cases ss with
  | nil => rw [leftover, leftover, List.drop_nil, List.drop_eq_nil_iff.mpr (Nat.le_of_lt h)]
  | cons s ss =>
      have hpos : ¬ n - buf.length ≤ ([] : Bytes).length := by
        rw [List.length_nil]
        omega
      rw [leftover, if_neg (Nat.not_le.mpr h), leftover, if_neg hpos, List.length_nil, Nat.sub_zero]

/-- Bytes of the buffer that are used up before the end do not matter. -/
theorem leftover_drop {n : Nat} {buf : Bytes} (h : n ≤ buf.length) (m : Nat) (ss : List Bytes) :
    leftover (n + m) buf ss = leftover m (buf.drop n) ss := by
  have hlen : (buf.drop n).length = buf.length - n := List.length_drop
  cases ss with
  | nil => rw [leftover, leftover, List.drop_drop]
  | cons s ss =>
      rw [leftover, leftover, hlen]
      by_cases hle : n + m ≤ buf.length
      · rw [if_pos hle, if_pos (by omega), List.drop_drop]
      · rw [if_neg hle, if_neg (by omega), show n + m - buf.length = m - (buf.length - n) by omega]

theorem leftover_nil_cons {n : Nat} (h : 0 < n) (s : Bytes) (ss : List Bytes) :
    leftover n [] (s :: ss) = leftover n s ss := by
  have hlt : ¬ n ≤ ([] : Bytes).length := Nat.not_le.mpr h
  rw [leftover, if_neg hlt, List.length_nil, Nat.sub_zero]

/-- The end is behind the first segment. -/
theorem leftover_cons {n : Nat} (h : 0 < n) (s : Bytes) (ss : List Bytes) :
    leftover (s.length + n) [] (s :: ss) = leftover n [] ss := by
  rw [leftover_nil_cons (Nat.add_pos_right _ h), leftover_of_lt (Nat.lt_add_of_pos_right h), Nat.add_sub_cancel_left]

/-! ## The decode loop -/

namespace ChunkedDecoder

/-- A decoder that goes on with `input`: in the middle of a body, or with a verdict held back and bytes behind it. -/
def Live (d : ChunkedDecoder) (input : Bytes) : Prop := Inv d ∨ (∃ e, d.state = .failed e) ∧ input ≠ []

/-- One call of `decode`, as a stretch of the run over all bytes. -/
inductive Decodes (d : ChunkedDecoder) (input : Bytes) : Decoded → Prop where
  | data {d' : ChunkedDecoder} {k : Nat} {out : Bytes} : out ≠ [] → 0 < k → k ≤ input.length → Live d' (input.drop k) →
      (∀ rest, run d (input ++ rest) = (run d' (input.drop k ++ rest)).after out k) →
      Decodes d input ⟨d', .data out.length, k, out⟩
  | needMore {d' : ChunkedDecoder} : Inv d' → d'.isDone = false → Advances d input [] d' →
      Decodes d input ⟨d', .needMore, input.length, []⟩
  | done {d' : ChunkedDecoder} {k : Nat} : k ≤ input.length → (∀ rest, run d (input ++ rest) = ⟨[], .done, k⟩) →
      Decodes d input ⟨d', .done, k, []⟩
  | error {d' : ChunkedDecoder} {e : ParseError} {k : Nat} : k ≤ input.length →
      (∀ rest, run d (input ++ rest) = ⟨[], .error e, k⟩) → Decodes d input ⟨d', .error e, k, []⟩

theorem Live.decodes {d : ChunkedDecoder} {input : Bytes} (h : Live d input) {outLen : Nat} (hout : 0 < outLen) :
    Decodes d input (d.decode input outLen) := by
  rcases h with hi | ⟨⟨e, he⟩, hne⟩
  · have hst := decode_stretch hi input hout
    generalize d.decode input outLen = res at hst
    cases hst with
    | data hpos hk hkle hinv hrun =>
        refine .data (List.ne_nil_of_length_pos hpos) hk hkle ?_ hrun
        rcases hinv with hinv | ⟨hfail, hlt⟩
        · exact .inl hinv
        · refine .inr ⟨hfail, fun hnil => ?_⟩
          have := List.drop_eq_nil_iff.mp hnil
          omega
    | needMore hinv hnd hadv => exact .needMore hinv hnd hadv
    | done hk _ hrun => exact .done hk hrun
    | error hk hrun _ => exact .error (Nat.le_of_lt hk) hrun
  · have hdec : d.decode input outLen = ⟨d, .error e, 0, []⟩ := by simp [ChunkedDecoder.decode, he]
    rw [hdec]
    refine .error (Nat.zero_le _) fun rest => run_failed he ?_
    simp [hne]

/-- A body that is not done takes up another byte before it is. -/
theorem consumed_pos {d : ChunkedDecoder} (hnd : d.isDone = false) {xs : Bytes} (h : (run d xs).verdict = .done) :
    0 < (run d xs).consumed := by
  cases xs with
  | nil =>
      rw [run, hnd] at h
      cases h
  | cons b rest =>
      rw [run] at h ⊢
      split at h
      next r hr =>
        split at h
        · cases h
        · cases h
        · exact Nat.lt_add_right _ Nat.one_pos
      next hr =>
        split at h
        · cases h
        · exact Nat.lt_add_right _ Nat.one_pos
        next hfail hdata =>
          exfalso
          cases hs : d.state with
          | done => simp [isDone, hs] at hnd
          | failed e => exact hfail e hs
          | readingData => exact hdata hs
          | _ =>
              rw [hs] at hr
              cases hr

end ChunkedDecoder

namespace BodyCollector

/-- What a pass of the decode loop over `input` says about the run of the decoder `d`, `body` having been decoded
    before: more is needed, the body is complete, or it is refused. -/
def Pumped.Exact (maxBody : Nat) (d : ChunkedDecoder) (body input : Bytes) : Pumped → Prop
  | .needMore d' body' => Inv d' ∧ d'.isDone = false ∧ body'.length ≤ maxBody ∧
      ∃ out, body' = body ++ out ∧ Advances d input out d'
  | .done body' left => body'.length ≤ maxBody ∧ ∃ out k, body' = body ++ out ∧ k ≤ input.length ∧
      left = input.drop k ∧ ∀ rest, run d (input ++ rest) = ⟨out, .done, k⟩
  | .error e => ∀ rest, if (body ++ (run d (input ++ rest)).body).length > maxBody
      then e = .connection .bodyTooLarge
      else ∃ pe, (run d (input ++ rest)).verdict = .error pe ∧ e = .parse pe

/-- What is said of the rest of a piece is said of all of it. -/
theorem Pumped.Exact.after {maxBody k : Nat} {d d' : ChunkedDecoder} {body input out : Bytes} {p : Pumped}
    (hk : k ≤ input.length) (hrun : ∀ rest, run d (input ++ rest) = (run d' (input.drop k ++ rest)).after out k)
    (h : p.Exact maxBody d' (body ++ out) (input.drop k)) : p.Exact maxBody d body input := by
  cases p with
  | needMore d'' body' =>
      obtain ⟨hinv, hnd, hmax, out', hbody, hadv⟩ := h
      refine ⟨hinv, hnd, hmax, out ++ out', by rw [hbody, List.append_assoc], fun rest => ?_⟩
      rw [hrun, hadv rest, Outcome.after_after, List.length_drop, Nat.add_sub_cancel' hk]
  | done body' left =>
      obtain ⟨hmax, out', k', hbody, hk', hleft, hdone⟩ := h
      rw [List.length_drop] at hk'
      refine ⟨hmax, out ++ out', k + k', by rw [hbody, List.append_assoc], by omega, ?_, fun rest => ?_⟩
      · rw [hleft, List.drop_drop]
      · rw [hrun, hdone rest]
        rfl
  | error e =>
      intro rest
      have := h rest
      rw [hrun]
      simp only [Outcome.after, ← List.append_assoc]
      exact this

/-- **The decode loop** over a piece of input comes to an end, and says exactly what the decoder's run over it is. -/
theorem pump_exact {maxBody turns : Nat} (whileInput : Bool) {d : ChunkedDecoder} {body input : Bytes}
    (hlive : Live d input) (hnd : d.isDone = false) (hmax : body.length ≤ maxBody) (hturns : input.length < turns) :
    ∃ p, pump maxBody whileInput turns d body input = some p ∧ p.Exact maxBody d body input := by
  induction turns generalizing d body input with
  | zero => omega
  | succ turns ih =>
      rw [pump]
      split
      next hend =>
        have hnil : input = [] := by
          rw [Bool.and_eq_true] at hend
          exact List.isEmpty_iff.mp hend.2
        subst hnil
        have hinv : Inv d := hlive.resolve_right fun h => h.2 rfl
        exact ⟨_, rfl, hinv, hnd, hmax, [], (List.append_nil _).symm, .refl d⟩
      next =>
        have hdec := hlive.decodes (show 0 < HEAD_BUF_SIZE by decide)
        generalize d.decode input HEAD_BUF_SIZE = res at hdec
        cases hdec with
        | @data d' k out hne hpos hk hlive' hrun =>
            dsimp only
            by_cases hbig : (body ++ out).length > maxBody
            · rw [if_pos hbig]
              refine ⟨_, rfl, fun rest => ?_⟩
              rw [hrun, if_pos]
              rw [List.length_append] at hbig
              simp only [Outcome.after, List.length_append]
              omega
            · rw [if_neg hbig]
              by_cases hd : d'.isDone = true
              · rw [if_pos hd]
                refine ⟨_, rfl, Nat.not_lt.mp hbig, out, k, rfl, hk, rfl, fun rest => ?_⟩
                rw [hrun, run_done (by simpa [isDone] using hd)]
                simp [Outcome.after]
              · rw [if_neg hd]
                have hlen : (input.drop k).length < turns := by
                  rw [List.length_drop]
                  omega
                obtain ⟨p, hp, hexact⟩ := ih hlive' (by simpa using hd) (Nat.not_lt.mp hbig) hlen
                exact ⟨p, hp, hexact.after hk hrun⟩
        | needMore hinv hnd' hadv =>
            exact ⟨_, rfl, hinv, hnd', hmax, [], (List.append_nil _).symm, hadv⟩
        | @done d' k hk hrun =>
            exact ⟨_, rfl, hmax, [], k, (List.append_nil _).symm, hk, rfl, hrun⟩
        | @error d' e k hk hrun =>
            refine ⟨_, rfl, fun rest => ?_⟩
            rw [hrun, if_neg]
            · exact ⟨e, rfl, rfl⟩
            · rw [List.append_nil]
              omega

/-! ## The buffered reader -/

/-- What a reader that has decoded `body` returns when the rest decodes to `o`. -/
def outcome (maxBody : Nat) (ending : Ending) (body : Bytes) (o : Outcome) (clean : Bool) :
    Except Error (Bytes × Bool) :=
  if (body ++ o.body).length > maxBody then .error (.connection .bodyTooLarge)
  else
    match o.verdict with
    | .done => .ok (body ++ o.body, clean)
    | .error e => .error (.parse e)
    | .wanting | .panicked => .error ending.error

/-- The decoder has gone through some of the bytes. -/
theorem outcome_after {maxBody n : Nat} {ending : Ending} {body out : Bytes} {o : Outcome} {clean : Bool} :
    outcome maxBody ending body (o.after out n) clean = outcome maxBody ending (body ++ out) o clean := by
  unfold outcome
  rw [show (o.after out n).body = out ++ o.body from rfl, ← List.append_assoc]
  rfl

/-- The flag matters for a body that is complete only. -/
theorem outcome_congr {maxBody : Nat} {ending : Ending} {body : Bytes} {o : Outcome} {clean clean' : Bool}
    (h : o.verdict = .done → clean = clean') :
    outcome maxBody ending body o clean = outcome maxBody ending body o clean' := by
  unfold outcome
  cases hv : o.verdict with
  | done => rw [h hv]
  | _ => rfl

/-- What the decode loop says when it has a verdict. -/
theorem outcome_of_error {maxBody : Nat} {ending : Ending} {body : Bytes} {o : Outcome} {clean : Bool} {e : Error}
    (h : if (body ++ o.body).length > maxBody then e = .connection .bodyTooLarge
      else ∃ pe, o.verdict = .error pe ∧ e = .parse pe) :
    outcome maxBody ending body o clean = .error e := by
  unfold outcome
  by_cases hbig : (body ++ o.body).length > maxBody
  · rw [if_pos hbig] at h ⊢
    rw [h]
  · rw [if_neg hbig] at h ⊢
    obtain ⟨pe, hv, rfl⟩ := h
    rw [hv]

theorem outcome_of_done {maxBody k : Nat} {ending : Ending} {body out : Bytes} {clean : Bool}
    (h : (body ++ out).length ≤ maxBody) :
    outcome maxBody ending body ⟨out, .done, k⟩ clean = .ok (body ++ out, clean) := by
  unfold outcome
  rw [if_neg (Nat.not_lt.mpr h)]

/-- The body a buffered reader returns for `bytes`, behind which the stream ends. -/
def collected (maxBody : Nat) (framing : BodyFraming) (ending : Ending) (bytes : Bytes) : Except Error Bytes :=
  if framing.weight bytes > maxBody then .error (.connection .bodyTooLarge) else framing.body ending bytes

/-- Whether it reports the connection reusable: `bytes` arrived as the tail and these bites. -/
def clean (framing : BodyFraming) (tail bytes : Bytes) (bites : List Bytes) : Bool :=
  match framing with
  | .none => tail.isEmpty
  | .contentLength len => tail.length ≤ len
  | .chunked => (leftover (framing.extent bytes) tail bites).isEmpty
  | .untilClose => false

section

variable {ρ : Type} {env : Env Sys ρ} {due : ρ → Delivery} (h : Supplies env due) {l : Local} {st : ρ}

omit h in
theorem returns_pumped {maxBody : Nat} {whileInput : Bool} {d : ChunkedDecoder} {body input : Bytes}
    (hlive : Live d input) (hnd : d.isDone = false) (hmax : body.length ≤ maxBody)
    {Q : Except Error Pumped → Local → ρ → Prop} (h : ∀ p, p.Exact maxBody d body input → Q (.ok p) l st) :
    Act.Returns env (pumped maxBody whileInput d body input) Q l st := by
  obtain ⟨p, hp, hexact⟩ := pump_exact whileInput hlive hnd hmax (Nat.lt_add_of_pos_right (Nat.zero_lt_two))
  unfold pumped
  rw [hp]
  exact Act.returns_pure.mpr (h p hexact)

include h

theorem returns_readChunkedMore (maxBody : Nat) {fuel turns : Nat} {b : SilenceBudget} (hb : b.Lasts env st)
    {d : ChunkedDecoder} {body : Bytes} (hinv : Inv d) (hnd : d.isDone = false) (hmax : body.length ≤ maxBody)
    (hfuel : (due st).size < fuel) (hturns : (due st).size < turns) :
    Act.Returns env (readChunkedMore .raw maxBody fuel turns b d body) (fun r l' _ => l'.client = l.client ∧
      r = outcome maxBody (due st).ending body (run d (due st).bytes)
        (leftover (run d (due st).bytes).consumed [] ((due st).bites HEAD_BUF_SIZE)).isEmpty) l st := by
  -- on the turns: the decoder stays sound, not done, and within the limit
  induction turns generalizing d body b l st with
  | zero => omega
  | succ turns ih =>
      rw [readChunkedMore, Act.returns_bind]
      refine (SilenceBudget.returns_readProto h (by decide) hb hfuel).mono ?_
      rintro r l₁ st₁ ⟨hclient, r, rfl, hpull, hon⟩
      have hcut : (due st).bytes = [] → outcome maxBody (due st).ending body (run d (due st).bytes)
          (leftover (run d (due st).bytes).consumed [] ((due st).bites HEAD_BUF_SIZE)).isEmpty =
            .error (due st).ending.error := by
        intro hnil
        have hrun : run d [] = ⟨[], .wanting, 0⟩ := by
          rw [run, hnd]
          rfl
        rw [hnil, hrun, outcome, List.append_nil, if_neg (Nat.not_lt.mpr hmax)]
      rcases r with e | ⟨bs, b⟩
      · cases hpull with
        | failed hfailed hbytes _ _ _ =>
            refine ⟨hclient, ?_⟩
            rw [hcut hbytes, hfailed]
            rfl
      · have hpull : (due st).Pulls HEAD_BUF_SIZE (due st₁) (.ok bs) := hpull
        simp only [Except.mapError, Act.then_ok]
        cases hpull with
        | eof hnil heof hbytes _ _ _ =>
            simp only [hnil, List.isEmpty_nil, if_true, Act.returns_bind, Act.returns_throw, Act.then_error]
            refine ⟨hclient, ?_⟩
            rw [hcut hbytes, heof]
            rfl
        | bytes hne hbytes hbites hend hsize =>
            have hempty : bs.val.isEmpty = false := by simpa using hne
            have hpos : 0 < bs.val.length := List.length_pos_iff.mpr hne
            simp only [hempty, Bool.false_eq_true, if_false, Act.returns_bind]
            refine returns_pumped (.inl hinv) hnd hmax fun p hexact => ?_
            rw [hbytes, hbites]
            cases p with
            | needMore d' body' =>
                obtain ⟨hinv', hnd', hmax', out, rfl, hadv⟩ := hexact
                refine (ih (hon bs b rfl hne) hinv' hnd' hmax' (by omega) (by omega)).mono ?_
                rintro r' l₂ _ ⟨hclient', hr⟩
                refine ⟨hclient'.trans hclient, ?_⟩
                rw [hr, hadv, outcome_after, hend]
                refine outcome_congr fun hv => ?_
                exact (congrArg List.isEmpty (leftover_cons (consumed_pos hnd' hv) _ _)).symm
            | done body' left =>
                obtain ⟨hmax', out, k, rfl, hk, rfl, hrun⟩ := hexact
                have hmore : 0 < k := by
                  have hdone : (run d (bs.val ++ (due st₁).bytes)).verdict = .done := by rw [hrun]
                  have := consumed_pos hnd hdone
                  rwa [hrun] at this
                refine Act.returns_pure.mpr ⟨hclient, ?_⟩
                rw [hrun, outcome_of_done hmax', leftover_nil_cons hmore, leftover_of_le hk]
            | error e =>
                refine Act.returns_throw.mpr ⟨hclient, ?_⟩
                rw [outcome_of_error (hexact _)]

theorem returns_readChunked (maxBody : Nat) {fuel : Nat} {b : SilenceBudget} (hb : b.Lasts env st) (tail : Bytes)
    (hfuel : (due st).size < fuel) :
    Act.Returns env (readChunked .raw maxBody fuel b tail) (fun r l' _ => l'.client = l.client ∧
      r = outcome maxBody (due st).ending [] (run .new (tail ++ (due st).bytes))
        (leftover (run .new (tail ++ (due st).bytes)).consumed tail ((due st).bites HEAD_BUF_SIZE)).isEmpty) l st := by
  rw [readChunked, Act.returns_bind]
  refine returns_pumped (.inl inv_new) rfl (Nat.zero_le _) fun p hexact => ?_
  cases p with
  | needMore d' body' =>
      obtain ⟨hinv', hnd', hmax', out, rfl, hadv⟩ := hexact
      refine (returns_readChunkedMore h maxBody hb hinv' hnd' hmax' hfuel hfuel).mono ?_
      rintro r l₁ _ ⟨hclient, hr⟩
      refine ⟨hclient, ?_⟩
      rw [hr, hadv, outcome_after]
      refine outcome_congr fun hv => congrArg List.isEmpty ?_
      have hmore := consumed_pos hnd' hv
      have hlt := leftover_of_lt (Nat.lt_add_of_pos_right (n := tail.length) hmore) ((due st).bites HEAD_BUF_SIZE)
      rw [Nat.add_sub_cancel_left] at hlt
      exact hlt.symm
  | done body' left =>
      obtain ⟨hmax', out, k, rfl, hk, rfl, hrun⟩ := hexact
      refine Act.returns_pure.mpr ⟨rfl, ?_⟩
      rw [hrun, outcome_of_done hmax', leftover_of_le hk]
      rfl
  | error e =>
      refine Act.returns_throw.mpr ⟨rfl, ?_⟩
      rw [outcome_of_error (hexact _)]

theorem returns_readContentLength (maxBody : Nat) {fuel : Nat} {b : SilenceBudget} (hb : b.Lasts env st) (len : Nat)
    (tail : Bytes) (hfuel : (due st).size < fuel) :
    Act.Returns env (readContentLength .raw maxBody fuel b len tail) (fun r l' _ => l'.client = l.client ∧
      r = if len > maxBody then .error (.connection .bodyTooLarge)
        else if len ≤ (tail ++ (due st).bytes).length then
          .ok ((tail ++ (due st).bytes).take len, decide (tail.length ≤ len))
        else .error (RequestDeadline.classify (due st).ending.cut)) l st := by
  rw [readContentLength]
  by_cases hbig : len > maxBody
  · rw [if_pos hbig, if_pos hbig, Act.returns_bind, Act.returns_throw]
    exact ⟨rfl, rfl⟩
  · simp only [if_neg hbig]
    have htake : (tail.take len).length = min len tail.length := List.length_take
    by_cases hshort : (tail.take len).length < len
    · have hle : tail.length ≤ len := by omega
      have hall : tail.take len = tail := List.take_of_length_le hle
      rw [if_pos hshort, Act.returns_bind, SilenceBudget.readExactProto, Act.returns_mapError]
      refine (SilenceBudget.returns_readExact h hb _ [] hfuel hfuel).mono ?_
      rintro r l₁ _ ⟨hclient, rfl⟩
      rw [hall]
      have hiff : len - tail.length ≤ (due st).bytes.length ↔ len ≤ (tail ++ (due st).bytes).length := by
        rw [List.length_append]
        omega
      by_cases hfull : len ≤ (tail ++ (due st).bytes).length
      · rw [if_pos (hiff.mpr hfull), if_pos hfull]
        refine Act.returns_pure.mpr ⟨hclient, ?_⟩
        rw [List.take_append, List.take_of_length_le hle, List.nil_append]
      · rw [if_neg fun h => hfull (hiff.mp h), if_neg hfull]
        exact ⟨hclient, rfl⟩
    · have hle : len ≤ tail.length := by omega
      rw [if_neg hshort, Act.returns_pure, if_pos (by rw [List.length_append]; omega),
        List.take_append_of_le_length hle]
      exact ⟨rfl, rfl⟩

theorem returns_readUntilClose (maxBody : Nat) {fuel turns : Nat} {b : SilenceBudget} (hb : b.Lasts env st) (body : Bytes)
    (hfuel : (due st).size < fuel) (hturns : (due st).size < turns) :
    Act.Returns env (readUntilClose .raw maxBody fuel turns b body) (fun r l' _ => l'.client = l.client ∧
      r = if (body ++ (due st).bytes).length > maxBody then .error (.connection .bodyTooLarge)
        else BodyFraming.untilClose.closed (due st).ending (body ++ (due st).bytes)) l st := by
  induction turns generalizing b body l st with
  | zero => omega
  | succ turns ih =>
      rw [readUntilClose]
      by_cases hbig : body.length > maxBody
      · have hall : (body ++ (due st).bytes).length > maxBody := by
          rw [List.length_append]
          omega
        rw [if_pos hbig, if_pos hall, Act.returns_bind, Act.returns_throw]
        exact ⟨rfl, rfl⟩
      · simp only [if_neg hbig, Act.returns_bind]
        refine (SilenceBudget.returns_readProto h (by decide) hb hfuel).mono ?_
        rintro r l₁ st₁ ⟨hclient, r, rfl, hpull, hon⟩
        rcases r with e | ⟨bs, b⟩
        · cases hpull with
          | failed hfailed hbytes _ _ _ =>
              refine ⟨hclient, ?_⟩
              rw [hbytes, List.append_nil, if_neg hbig, hfailed]
              rfl
        · have hpull : (due st).Pulls HEAD_BUF_SIZE (due st₁) (.ok bs) := hpull
          simp only [Except.mapError, Act.then_ok]
          cases hpull with
          | eof hnil heof hbytes _ _ _ =>
              simp only [hnil, List.isEmpty_nil, if_true, Act.returns_pure]
              refine ⟨hclient, ?_⟩
              rw [hbytes, List.append_nil, if_neg hbig, heof]
              rfl
          | bytes hne hbytes _ hend hsize =>
              have hempty : bs.val.isEmpty = false := by simpa using hne
              have hpos : 0 < bs.val.length := List.length_pos_iff.mpr hne
              simp only [hempty, Bool.false_eq_true, if_false]
              refine (ih (hon bs b rfl hne) (body ++ bs.val) (by omega) (by omega)).mono ?_
              rintro r' l₂ _ ⟨hclient', hr⟩
              refine ⟨hclient'.trans hclient, ?_⟩
              rw [hr, hend, List.append_assoc, ← hbytes]

omit h in
theorem outcome_eq_collected (maxBody : Nat) (ending : Ending) (bytes : Bytes) (clean : Bool) :
    outcome maxBody ending [] (run .new bytes) clean =
      (collected maxBody .chunked ending bytes).map fun body => (body, clean) := by
  have hweight : BodyFraming.chunked.weight bytes = ([] ++ (run .new bytes).body).length := rfl
  unfold outcome collected
  rw [hweight]
  by_cases hbig : ([] ++ (run .new bytes).body).length > maxBody
  · rw [if_pos hbig, if_pos hbig]
    rfl
  · rw [if_neg hbig, if_neg hbig, BodyFraming.body, BodyFraming.verdict]
    cases hv : (run .new bytes).verdict with
    | _ => rfl

/-- **The buffered reader** returns the body of the bytes behind the head, whatever they arrive in. -/
theorem returns_read (maxBody : Nat) {fuel : Nat} {b : SilenceBudget} (hb : b.Lasts env st) (framing : BodyFraming)
    (tail : Bytes) (hfuel : (due st).size < fuel) :
    Act.Returns env (read .raw maxBody fuel b framing tail) (fun r l' _ => l'.client = l.client ∧
      r = (collected maxBody framing (due st).ending (tail ++ (due st).bytes)).map fun body =>
        (body, clean framing tail (tail ++ (due st).bytes) ((due st).bites HEAD_BUF_SIZE))) l st := by
  cases framing with
  | none => exact Act.returns_pure.mpr ⟨rfl, rfl⟩
  | contentLength len =>
      refine (returns_readContentLength h maxBody hb len tail hfuel).mono ?_
      rintro r l' _ ⟨hclient, rfl⟩
      refine ⟨hclient, ?_⟩
      unfold collected BodyFraming.body BodyFraming.weight BodyFraming.verdict
      by_cases hbig : len > maxBody
      · simp only [if_pos hbig, Except.map]
      · by_cases hle : len ≤ (tail ++ (due st).bytes).length
        · simp only [if_neg hbig, if_pos hle, Except.map, decoded, clean]
        · simp only [if_neg hbig, if_neg hle, Except.map, BodyFraming.closed]
  | chunked =>
      refine (returns_readChunked h maxBody hb tail hfuel).mono ?_
      rintro r l' _ ⟨hclient, rfl⟩
      exact ⟨hclient, outcome_eq_collected maxBody _ _ _⟩
  | untilClose =>
      refine Act.returns_bind.mpr ((returns_readUntilClose h maxBody hb tail hfuel hfuel).mono ?_)
      rintro r l' _ ⟨hclient, rfl⟩
      unfold collected
      rw [show BodyFraming.untilClose.weight (tail ++ (due st).bytes) = (tail ++ (due st).bytes).length from rfl]
      by_cases hbig : (tail ++ (due st).bytes).length > maxBody
      · rw [if_pos hbig, if_pos hbig]
        exact ⟨hclient, rfl⟩
      · rw [if_neg hbig, if_neg hbig]
        cases (due st).ending with
        | eof => exact Act.returns_pure.mpr ⟨hclient, rfl⟩
        | failed e he => exact ⟨hclient, rfl⟩

end

end BodyCollector

end Xibalba
