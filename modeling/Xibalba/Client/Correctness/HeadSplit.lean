import Xibalba.Client.Correctness.Head
import Xibalba.Client.Correctness.Delivery
import Xibalba.Client.Session

/-!
# `Client.Correctness.HeadSplit` — head reading does not depend on read boundaries

`HeadData.response` says what response head a sequence of bytes holds, with no notion of reads: heads end just past
their first blank line, interim ones are skipped, and the size limit is on where a head ends. `read_response` computes
this function, whatever the pieces its bytes arrive in.

Layout:
* `splitHead` and `response`;
* the loops of `read_response` over a delivery;
* two deliveries of the same bytes.
-/

namespace Xibalba

namespace HeadData

/-- The first head of `bytes` and what follows it. Without a blank line there is no head, and the bytes are too many
    for one or the stream ended too early. -/
def splitHead (maxHead : Nat) (ending : Ending) (bytes : Bytes) : Except Error (Bytes × Bytes) :=
  match Bytes.findWindow (ascii "\r\n\r\n") bytes with
  | some pos =>
    if pos + 4 > maxHead then .error (.connection .headTooLarge) else .ok (bytes.take (pos + 4), bytes.drop (pos + 4))
  | none => .error (if bytes.length > maxHead then .connection .headTooLarge else ending.error)

/-- The final head of `bytes`, after at most `skips` interim ones: what `read_response` returns for it, and the bytes
    behind it. -/
def response (maxHead : Nat) (method : Method) (ending : Ending) :
    Nat → Bytes → Except Error ((HeadData × BodyFraming × Nat) × Bytes)
  | skips, bytes => do
    let (bytes, rest) ← splitHead maxHead ending bytes
    let (head, _) ← (ResponseHead.parse bytes MAX_HEADERS).mapError Error.parse
    if isInterim head.status then
      match skips with
      | 0 => .error (.connection .tooManyInterimResponses)
      | skips + 1 => response maxHead method ending skips rest
    else
      let final ← finalHead method bytes.length bytes head
      let data ← new head.version head.status bytes final.ranges head.headers.length
      return ((data, final.framing, bytes.length), rest)

/-! ## The loops -/

/-- A blank line that has been found ends the first head, whatever is still to come. -/
theorem splitHead_found {maxHead pos : Nat} {ending : Ending} {acc : Bytes} (more : Bytes)
    (h : Bytes.findWindow (ascii "\r\n\r\n") acc = some pos) :
    splitHead maxHead ending (acc ++ more) =
      if pos + 4 > maxHead then .error (.connection .headTooLarge)
      else .ok (acc.take (pos + 4), acc.drop (pos + 4) ++ more) := by
  have hlen : (ascii "\r\n\r\n").length = 4 := by decide
  have hle : pos + 4 ≤ acc.length := by
    have := Bytes.length_of_prefix_drop (by decide) (Bytes.findWindow_eq_some h)
    omega
  have htake : (acc ++ more).take (pos + 4) = acc.take (pos + 4) := List.take_append_of_le_length hle
  have hdrop : (acc ++ more).drop (pos + 4) = acc.drop (pos + 4) ++ more := List.drop_append_of_le_length hle
  have hfind : Bytes.findWindow (ascii "\r\n\r\n") (acc ++ more) = some pos := by
    apply Bytes.findWindow_congr (by decide) h
    rw [hlen, htake]
  simp only [splitHead, hfind, htake, hdrop]

/-- More bytes than a head may have, and no end: no head can come of it. -/
theorem splitHead_too_large {maxHead : Nat} {ending : Ending} {acc : Bytes} (more : Bytes)
    (h : Bytes.findWindow (ascii "\r\n\r\n") acc = none) (hlt : maxHead < acc.length) :
    splitHead maxHead ending (acc ++ more) = .error (.connection .headTooLarge) := by
  unfold splitHead
  cases hfind : Bytes.findWindow (ascii "\r\n\r\n") (acc ++ more) with
  | none =>
      have : maxHead < (acc ++ more).length := by
        rw [List.length_append]
        omega
      exact congrArg Except.error (if_pos this)
  | some pos =>
      refine if_pos ?_
      by_contra hle
      have hlen : (ascii "\r\n\r\n").length = 4 := by decide
      -- a head within the limit would lie within the bytes that were searched
      have hfound : Bytes.findWindow (ascii "\r\n\r\n") acc = some pos := by
        apply Bytes.findWindow_congr (by decide) hfind
        rw [hlen, List.take_append_of_le_length (by omega)]
      rw [h] at hfound
      cases hfound

theorem splitHead_ended {maxHead : Nat} {ending : Ending} {acc : Bytes}
    (h : Bytes.findWindow (ascii "\r\n\r\n") acc = none) (hle : acc.length ≤ maxHead) :
    splitHead maxHead ending acc = .error ending.error := by
  unfold splitHead
  rw [h]
  exact congrArg Except.error (if_neg (Nat.not_lt.mpr hle))

/-- A first head is a complete one. -/
theorem splitHead_isHead {maxHead : Nat} {ending : Ending} {bytes head rest : Bytes}
    (h : splitHead maxHead ending bytes = .ok (head, rest)) : IsHead head := by
  unfold splitHead at h
  cases hfind : Bytes.findWindow (ascii "\r\n\r\n") bytes with
  | none =>
      rw [hfind] at h
      cases h
  | some pos =>
      rw [hfind] at h
      dsimp only at h
      split at h
      · cases h
      · cases h
        have hle := Bytes.length_of_prefix_drop (by decide) (Bytes.findWindow_eq_some hfind)
        exact ⟨pos, Bytes.findWindow_take (by decide) hfind, (List.length_take_of_le hle).symm⟩

section

variable {maxHead skips : Nat} {method : Method} {ending : Ending} {bytes head rest : Bytes} {e : Error}

theorem response_split (h : splitHead maxHead ending bytes = .error e) :
    response maxHead method ending skips bytes = .error e := by
  rw [response, h]
  rfl

theorem response_parse {e : ParseError} (h : splitHead maxHead ending bytes = .ok (head, rest))
    (hparse : ResponseHead.parse head MAX_HEADERS = .error e) :
    response maxHead method ending skips bytes = .error (.parse e) := by
  rw [response, h]
  simp only [bind, Except.bind, hparse, Except.mapError]

variable {hd : ResponseHead} {n : Nat} (h : splitHead maxHead ending bytes = .ok (head, rest))
  (hparse : ResponseHead.parse head MAX_HEADERS = .ok (hd, n))

include h hparse

theorem response_interim (hint : isInterim hd.status = true) :
    response maxHead method ending skips bytes =
      match skips with
      | 0 => .error (.connection .tooManyInterimResponses)
      | skips + 1 => response maxHead method ending skips rest := by
  rw [response, h]
  simp only [bind, Except.bind, hparse, Except.mapError, if_pos hint]

theorem response_final (hint : ¬isInterim hd.status = true) :
    response maxHead method ending skips bytes = (finalHead method head.length head hd).bind fun final =>
      (new hd.version hd.status head final.ranges hd.headers.length).map fun data =>
        ((data, final.framing, head.length), rest) := by
  rw [response, h]
  simp only [bind, Except.bind, hparse, Except.mapError, if_neg hint]
  rfl

end

section

variable {ρ : Type} {env : Env Sys ρ} {due : ρ → Delivery} (hs : Supplies env due) {l : Local} {st : ρ}

/-- What a part of `read_response` has done to the accumulator and the delivery: `got` went from one to the other. -/
structure Moved (due : ρ → Delivery) (l : Local) (st : ρ) (l' : Local) (st' : ρ) (got : Bytes) : Prop where
  client : l'.client = { l.client with headBuf := l.client.headBuf ++ got }
  bytes : (due st).bytes = got ++ (due st').bytes
  ending : (due st').ending = (due st).ending
  size : (due st').size + got.length ≤ (due st).size

omit hs in
theorem Moved.refl (due : ρ → Delivery) (l : Local) (st : ρ) : Moved due l st l st [] :=
  ⟨by simp, rfl, rfl, Nat.le_refl _⟩

/-- What `read_until_head_end` returns for the head there is, `acc` being its accumulator then. -/
def Finds (acc unread : Bytes) (r : Except Error (Nat × SilenceBudget)) : Except Error (Bytes × Bytes) → Prop
  | .ok (head, rest) => ∃ b tail, r = .ok (head.length, b) ∧ acc = head ++ tail ∧ rest = tail ++ unread
  | .error e => r = .error e

include hs

/-- **`read_until_head_end`** finds the first head of the accumulator and the bytes to come; the budget lasts on. -/
theorem returns_readUntilHeadEnd (maxHead : Nat) {fuel turns scanned : Nat} {b : SilenceBudget} (hb : b.Lasts env st)
    (hscan : Searched l.client.headBuf scanned) (hfuel : (due st).size < fuel) (hturns : (due st).size < turns) :
    Act.Returns env (readUntilHeadEnd .raw maxHead fuel turns scanned b) (fun r l' st' =>
      (∃ got, Moved due l st l' st' got ∧ Finds l'.client.headBuf (due st').bytes r
        (splitHead maxHead (due st).ending (l.client.headBuf ++ (due st).bytes))) ∧
      ∀ n b', r = .ok (n, b') → b'.Lasts env st') l st := by
  -- on the turns: each read brings bytes, and `scanned` stays in front of the first end of a head
  induction turns generalizing scanned b l st with
  | zero => omega
  | succ turns ih =>
      have hfind := hscan.find
      simp only [readUntilHeadEnd, M.client, Act.returns_bind, Act.returns_get, Act.returns_pure, Act.then_ok]
      cases hpos : Bytes.findWindow (ascii "\r\n\r\n") (l.client.headBuf.drop (scanned - 3)) with
      | some pos =>
          rw [hpos, Option.map_some] at hfind
          rw [splitHead_found _ hfind]
          have hle := (hscan.isHead hpos).1
          by_cases hbig : scanned - 3 + pos + 4 > maxHead
          · simp only [if_pos hbig, Act.returns_throw]
            exact ⟨⟨[], .refl due l st, rfl⟩, by rintro _ _ ⟨⟩⟩
          · simp only [if_neg hbig, Act.returns_pure]
            refine ⟨⟨[], .refl due l st, b, _, ?_, (List.take_append_drop _ _).symm, rfl⟩, ?_⟩
            · rw [List.length_take, Nat.min_eq_left hle]
            · rintro n b' ⟨⟩
              exact hb
      | none =>
          rw [hpos, Option.map_none] at hfind
          by_cases hbig : l.client.headBuf.length > maxHead
          · simp only [if_pos hbig, Act.returns_bind, Act.returns_throw, Act.then_error]
            rw [splitHead_too_large _ hfind hbig]
            exact ⟨⟨[], .refl due l st, rfl⟩, by rintro _ _ ⟨⟩⟩
          · simp only [if_neg hbig, Act.returns_bind]
            refine (SilenceBudget.returns_readProto hs (by decide) hb hfuel).mono ?_
            rintro r l₁ st₁ ⟨hclient, r, rfl, hpull, hon⟩
            have hstill : l₁.client = { l.client with headBuf := l.client.headBuf ++ [] } := by
              rw [hclient, List.append_nil]
            rcases r with e | ⟨bs, b⟩
            · -- the stream failed behind the bytes that were searched
              cases hpull with
              | failed hfailed hbytes hbytes' hend hsize =>
                  refine ⟨⟨[], ⟨hstill, by rw [hbytes, hbytes', List.nil_append], hend, hsize⟩, ?_⟩, by rintro _ _ ⟨⟩⟩
                  rw [hbytes, List.append_nil, splitHead_ended hfind (Nat.not_lt.mp hbig), hfailed]
                  rfl
            · have hpull : (due st).Pulls HEAD_BUF_SIZE (due st₁) (.ok bs) := hpull
              simp only [Except.mapError, Act.then_ok]
              cases hpull with
              | eof hnil heof hbytes hbytes' hend hsize =>
                  simp only [hnil, List.isEmpty_nil, if_true, Act.returns_bind, Act.returns_throw, Act.then_error]
                  refine ⟨⟨[], ⟨hstill, by rw [hbytes, hbytes', List.nil_append], hend, hsize⟩, ?_⟩, by rintro _ _ ⟨⟩⟩
                  rw [hbytes, List.append_nil, splitHead_ended hfind (Nat.not_lt.mp hbig), heof]
                  rfl
              | bytes hne hbytes _ hend hsize =>
                  have hempty : bs.val.isEmpty = false := by simpa using hne
                  have hlen : 0 < bs.val.length := List.length_pos_iff.mpr hne
                  simp only [hempty, Bool.false_eq_true, if_false, M.modifyClient, Act.returns_bind,
                    Act.returns_modify, Act.then_ok]
                  have hscan' : Searched (l₁.client.headBuf ++ bs.val) l.client.headBuf.length := by
                    rw [hclient]
                    exact hscan.append hpos bs.val
                  refine (ih (hon bs b rfl hne) hscan' (by omega) (by omega)).mono ?_
                  rintro r' l₂ st₂ ⟨⟨got, hmoved, hfinds⟩, hlasts⟩
                  have hsize₂ := hmoved.size
                  refine ⟨⟨bs.val ++ got, ⟨?_, ?_, ?_, ?_⟩, ?_⟩, hlasts⟩
                  · rw [hmoved.client, hclient, List.append_assoc]
                  · rw [hbytes, hmoved.bytes, List.append_assoc]
                  · rw [hmoved.ending, hend]
                  · rw [List.length_append]
                    omega
                  · rw [hend, hclient, List.append_assoc, ← hbytes] at hfinds
                    exact hfinds

/-- **The loop of `read_response`** finds the final head of the accumulator and the bytes to come; `new` makes the
    response of it. -/
theorem returns_readFinalHead (maxHead : Nat) (method : Method) {fuel turns seen : Nat} {b : SilenceBudget}
    (hb : b.Lasts env st) (hseen : seen ≤ MAX_INTERIM_RESPONSES) (hfuel : (due st).size < fuel)
    (hturns : l.client.headBuf.length + (due st).size < turns) :
    Act.Returns env (readFinalHead .raw maxHead method fuel turns seen b) (fun r l' st' =>
      ∃ acc, l'.client = { l.client with headBuf := acc } ∧ (due st').size ≤ (due st).size ∧
        response maxHead method (due st).ending (MAX_INTERIM_RESPONSES - seen) (l.client.headBuf ++ (due st).bytes) =
          r.bind fun final =>
            (new final.head.version final.head.status (acc.take final.headEnd) final.ranges
              final.head.headers.length).map
              fun data => ((data, final.framing, final.headEnd), acc.drop final.headEnd ++ (due st').bytes)) l st := by
  -- on the turns: each interim head is a turn, and makes the accumulator shorter
  induction turns generalizing seen b l st with
  | zero => omega
  | succ turns ih =>
      rw [readFinalHead, Act.returns_bind]
      refine (returns_readUntilHeadEnd hs maxHead hb (.zero _) hfuel hfuel).mono ?_
      rintro r l₁ st₁ ⟨⟨got, hmoved, hfinds⟩, hlasts⟩
      have hless : (due st₁).size ≤ (due st).size := Nat.le_trans (Nat.le_add_right _ _) hmoved.size
      rcases hsplit : splitHead maxHead (due st).ending (l.client.headBuf ++ (due st).bytes) with e | ⟨head, rest⟩
      · rw [hsplit] at hfinds
        cases hfinds
        exact ⟨_, hmoved.client, hless, response_split hsplit⟩
      · rw [hsplit] at hfinds
        obtain ⟨b, tail, rfl, hacc, rfl⟩ := hfinds
        have htake : l₁.client.headBuf.take head.length = head := by
          rw [hacc]
          exact List.take_left
        have hdrop : l₁.client.headBuf.drop head.length = tail := by
          rw [hacc]
          exact List.drop_left
        simp only [Act.then_ok, M.client, Act.returns_bind, Act.returns_get, Act.returns_pure, htake,
          Act.returns_ofExcept]
        rcases hparse : ResponseHead.parse head MAX_HEADERS with e | ⟨h, n⟩
        · exact ⟨_, hmoved.client, hless, response_parse hsplit hparse⟩
        · simp only [Except.mapError, Act.then_ok]
          by_cases hint : isInterim h.status = true
          · rw [if_pos hint, response_interim hsplit hparse hint]
            by_cases hmax : seen + 1 > MAX_INTERIM_RESPONSES
            · rw [if_pos hmax, Act.returns_bind, Act.returns_throw]
              have hzero : MAX_INTERIM_RESPONSES - seen = 0 := by omega
              rw [hzero]
              exact ⟨_, hmoved.client, hless, rfl⟩
            · have hsucc : MAX_INTERIM_RESPONSES - seen = MAX_INTERIM_RESPONSES - (seen + 1) + 1 := by omega
              have hlen : tail.length + (due st₁).size < turns := by
                obtain ⟨p, -, hp⟩ := splitHead_isHead hsplit
                have hsize := hmoved.size
                have hbuf := congrArg List.length hacc
                rw [hmoved.client, List.length_append, List.length_append] at hbuf
                omega
              have hsize₁ : (due st₁).size < fuel := Nat.lt_of_le_of_lt hless hfuel
              simp only [if_neg hmax, hsucc, M.modifyClient, Act.returns_bind, Act.returns_modify, Act.then_ok, hdrop]
              refine (ih (hlasts _ _ rfl) (by omega) hsize₁ hlen).mono ?_
              rintro r' l₂ st₂ ⟨acc, hclient, hless₂, hresp⟩
              refine ⟨acc, ?_, Nat.le_trans hless₂ hless, ?_⟩
              · rw [hclient, hmoved.client]
              · rw [hmoved.ending] at hresp
                exact hresp
          · rw [if_neg hint, response_final hsplit hparse hint, Act.returns_ofExcept]
            refine ⟨_, hmoved.client, hless, ?_⟩
            rcases hfinal : finalHead method head.length head h with e | final
            · rfl
            · obtain ⟨hend, rfl⟩ := finalHead_eq hfinal
              have hbuf : l.client.headBuf ++ got = head ++ tail := by
                rw [← hacc, hmoved.client]
              simp only [Except.bind, hend, hbuf, List.take_left, List.drop_left]

/-- **`read_response`** returns what `response` says of the bytes to come. -/
theorem returns_readResponse (maxHead : Nat) {silence : Duration} {deadline : RequestDeadline}
    (hpunctual : Punctual env silence deadline st) (method : Method) {fuel : Nat} (hfuel : (due st).size < fuel) :
    Act.Returns env (readResponse .raw maxHead silence deadline method fuel) (fun r l' st' =>
      ∃ acc, l'.client = { l.client with headBuf := acc } ∧ (due st').size ≤ (due st).size ∧
        response maxHead method (due st).ending MAX_INTERIM_RESPONSES (due st).bytes =
          r.map fun x => (x, acc.drop x.2.2 ++ (due st').bytes)) l st := by
  simp only [readResponse, M.modifyClient, Act.returns_bind, Act.returns_modify, Act.then_ok,
    SilenceBudget.returns_withDeadline]
  have hdue := hs.now st
  refine (returns_readFinalHead hs maxHead method hpunctual (Nat.zero_le _) (hdue ▸ hfuel) ?_).mono ?_
  · rw [hdue]
    simpa using hfuel
  · rintro r l₂ st₂ ⟨acc, hclient, hless, hresp⟩
    rw [hdue] at hless
    rw [hdue, List.nil_append] at hresp
    cases r with
    | error e => exact ⟨acc, hclient, hless, hresp⟩
    | ok final =>
        have hacc : l₂.client.headBuf = acc := by rw [hclient]
        simp only [Act.then_ok, M.client, Act.returns_bind, Act.returns_get, Act.returns_pure, hacc,
          Act.returns_ofExcept]
        rcases hnew : new final.head.version final.head.status (acc.take final.headEnd) final.ranges
          final.head.headers.length with e | data
        · rw [Except.bind, hnew] at hresp
          exact ⟨acc, hclient, hless, hresp⟩
        · rw [Except.bind, hnew] at hresp
          refine Act.returns_bind.mpr (Act.returns_call.mpr (Act.returns_pure.mpr ⟨acc, hclient, ?_, ?_⟩))
          · rw [hs.mark]
            exact hless
          · rw [hs.mark]
            exact hresp

end

/-! ## Two deliveries of the same bytes -/

/-- The parser consumes all of a complete head. -/
theorem consumed_isHead {bytes : Bytes} (h : IsHead bytes) {slots consumed : Nat} {head : ResponseHead}
    (hparse : ResponseHead.parse bytes slots = .ok (head, consumed)) : consumed = bytes.length := by
  obtain ⟨pos, hpos, hlen⟩ := h
  obtain ⟨hle, hblank⟩ := ResponseHead.parse_first_blank hparse
  have hsame : ResponseHead.crlf ++ ResponseHead.crlf = ascii "\r\n\r\n" := by decide
  rw [hsame, hpos, Option.some.injEq] at hblank
  omega

/-- Whatever the stream answers, the parser consumes exactly what `read_until_head_end` delimited. -/
theorem consumed_eq_headEnd {maxHead fuel turns : Nat} {b b' : SilenceBudget} {l l' : Local}
    {tr : List (Prog.Event Sys)} {headEnd : Nat}
    (h : Prog.Exec (readUntilHeadEnd .raw maxHead fuel turns 0 b l) tr (.pure (.ok (headEnd, b'), l')))
    {head : ResponseHead} {consumed : Nat}
    (hparse : ResponseHead.parse (l'.client.headBuf.take headEnd) MAX_HEADERS = .ok (head, consumed)) :
    consumed = headEnd := by
  have hG : Lenient fun _ _ => True := fun _ _ _ => trivial
  have hwp := wp_readUntilHeadEnd hG (Stream.recorded_raw hG) maxHead fuel turns 0 b l ⟨[], false, []⟩ (.zero _)
  obtain ⟨bs, -, -, hle, hhead⟩ := Prog.wp_ghost_pure.mp (Prog.wp_exec hwp h)
  rw [consumed_isHead hhead hparse, List.length_take, Nat.min_eq_left hle]

theorem eq_of_map_pair {ε α β : Type} {r r' : Except ε α} {f g : α → β}
    (h : (r.map fun x => (x, f x)) = r'.map fun x => (x, g x)) : r = r' := by
  cases r with
  | error e =>
      cases r' with
      | error e' =>
          cases h
          rfl
      | ok x' => cases h
  | ok x =>
      cases r' with
      | error e' => cases h
      | ok x' =>
          have hpair : (x, f x) = (x', g x') := Except.ok.inj h
          rw [(Prod.mk.inj hpair).1]

/-- **Head reading does not depend on read boundaries.** Two environments that serve the same bytes and the same end
    of the stream, in whatever pieces, with whatever ticks between them and whatever the clock says, as long as the
    budgets last: `read_response` returns `response` of the bytes in both, hence the same, and the accumulator behind the
    head and what was not read are the bytes behind the final head. The parser consumes all of each head. -/
theorem readResponse_split {ρ₁ ρ₂ : Type} {env₁ : Env Sys ρ₁} {env₂ : Env Sys ρ₂} {due₁ : ρ₁ → Delivery}
    {due₂ : ρ₂ → Delivery} (h₁ : Supplies env₁ due₁) (h₂ : Supplies env₂ due₂) (st₁ : ρ₁) (st₂ : ρ₂)
    (hbytes : (due₁ st₁).bytes = (due₂ st₂).bytes) (hending : (due₁ st₁).ending = (due₂ st₂).ending)
    (maxHead : Nat) (method : Method) (silence₁ silence₂ : Duration) (deadline₁ deadline₂ : RequestDeadline)
    (hpunctual₁ : Punctual env₁ silence₁ deadline₁ st₁) (hpunctual₂ : Punctual env₂ silence₂ deadline₂ st₂)
    (fuel₁ fuel₂ : Nat) (hfuel₁ : (due₁ st₁).size < fuel₁) (hfuel₂ : (due₂ st₂).size < fuel₂) (l₁ l₂ : Local) :
    (∃ r l₁' st₁' l₂' st₂',
      Prog.eval env₁ (readResponse .raw maxHead silence₁ deadline₁ method fuel₁ l₁) st₁ = some ((r, l₁'), st₁') ∧
      Prog.eval env₂ (readResponse .raw maxHead silence₂ deadline₂ method fuel₂ l₂) st₂ = some ((r, l₂'), st₂') ∧
      response maxHead method (due₁ st₁).ending MAX_INTERIM_RESPONSES (due₁ st₁).bytes =
        r.map (fun x => (x, l₁'.client.headBuf.drop x.2.2 ++ (due₁ st₁').bytes)) ∧
      response maxHead method (due₂ st₂).ending MAX_INTERIM_RESPONSES (due₂ st₂).bytes =
        r.map fun x => (x, l₂'.client.headBuf.drop x.2.2 ++ (due₂ st₂').bytes)) ∧
    ∀ fuel turns b b' l l' tr headEnd head consumed,
      Prog.Exec (readUntilHeadEnd .raw maxHead fuel turns 0 b l) tr (.pure (.ok (headEnd, b'), l')) →
      ResponseHead.parse (l'.client.headBuf.take headEnd) MAX_HEADERS = .ok (head, consumed) →
      consumed = headEnd := by
  refine ⟨?_, fun _ _ _ _ _ _ _ _ _ _ hexec hparse => consumed_eq_headEnd hexec hparse⟩
  obtain ⟨r₁, l₁', st₁', heval₁, acc₁, hclient₁, -, hresp₁⟩ :=
    returns_readResponse h₁ maxHead hpunctual₁ method (l := l₁) hfuel₁
  obtain ⟨r₂, l₂', st₂', heval₂, acc₂, hclient₂, -, hresp₂⟩ :=
    returns_readResponse h₂ maxHead hpunctual₂ method (l := l₂) hfuel₂
  have hsame : r₁ = r₂ := by
    have hboth := hresp₁
    rw [hbytes, hending, hresp₂] at hboth
    exact (eq_of_map_pair hboth).symm
  subst hsame
  refine ⟨r₁, l₁', st₁', l₂', st₂', heval₁, heval₂, ?_, ?_⟩
  · rw [hresp₁, hclient₁]
  · rw [hresp₂, hclient₂]

/-- An interim head and a final one. -/
def interimThenFinal : Bytes := ascii "HTTP/1.1 100 A\r\n\r\nHTTP/1.1 204 B\r\n\r\n"

/-- They arrive in one piece, and byte by byte after a tick. -/
theorem readResponse_split_bytewise :
    ∃ r l₁ f₁ l₂ f₂,
      Prog.eval (Delivery.serve 0) (readResponse .raw 64 1 .NONE .get 40 idle)
        ⟨[.data interimThenFinal (by decide)], .eof⟩ = some ((r, l₁), f₁) ∧
      Prog.eval (Delivery.serve 0) (readResponse .raw 64 1 .NONE .get 40 idle)
        ⟨.tick ⟨.wouldBlock, .text ""⟩ rfl :: interimThenFinal.map fun b => .data [b] (List.cons_ne_nil _ _), .eof⟩ =
          some ((r, l₂), f₂) := by
  obtain ⟨⟨r, l₁, f₁, l₂, f₂, h₁, h₂, -, -⟩, -⟩ :=
    readResponse_split (Delivery.supplies_serve 0) (Delivery.supplies_serve 0)
      ⟨[.data interimThenFinal (by decide)], .eof⟩
      ⟨.tick ⟨.wouldBlock, .text ""⟩ rfl :: interimThenFinal.map fun b => .data [b] (List.cons_ne_nil _ _), .eof⟩
      (by decide) rfl 64 .get 1 1 .NONE .NONE (Delivery.punctual_serve Nat.one_pos _)
      (Delivery.punctual_serve Nat.one_pos _) 40 40 (by decide) (by decide) idle idle
  exact ⟨r, l₁, f₁, l₂, f₂, h₁, h₂⟩

end HeadData

end Xibalba
