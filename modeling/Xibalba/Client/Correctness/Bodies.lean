import Xibalba.Client.Correctness.Drain
import Xibalba.Client.Session

/-!
# `Client.Correctness.Bodies` — the two body readers side by side

The buffered and the streaming reader are two programs for one thing: the body at the front of the bytes behind a head.
They agree on the body for every framing and every way the bytes arrive. On whether the connection may be used again
they agree except where the buffered reader asks for no more than the bytes of a known length: what came with the last
of them is left in the socket, and it does not see it.

Layout:
* the prospect of a new body and the reference;
* both readers compute the body;
* both readers' verdicts on the connection.
-/

namespace Xibalba

open ChunkedDecoder StreamingBody

/-- A body is complete where the reference is, and breaks where it fails. -/
theorem prospect_initial (framing : BodyFraming) (ending : Ending) (bytes : Bytes) :
    ((initialState framing).prospect ending bytes).bytes = decoded framing bytes ∧
      match ((initialState framing).prospect ending bytes).finale with
      | .complete => framing.body ending bytes = .ok (decoded framing bytes)
      | .broken _ => ∃ e, framing.body ending bytes = .error e := by
  cases framing with
  | none => exact ⟨rfl, rfl⟩
  | contentLength len =>
      cases len with
      | zero => exact ⟨rfl, rfl⟩
      | succ len =>
          refine ⟨rfl, ?_⟩
          have hinit : initialState (.contentLength (len + 1)) = .length (len + 1) := rfl
          rw [hinit]
          dsimp only [StreamState.prospect, BodyFraming.body, BodyFraming.verdict]
          by_cases hle : len + 1 ≤ bytes.length
          · rw [if_pos hle, if_pos hle]
          · rw [if_neg hle, if_neg hle]
            exact ⟨_, rfl⟩
  | chunked =>
      refine ⟨rfl, ?_⟩
      dsimp only [initialState, StreamState.prospect, BodyFraming.body, BodyFraming.verdict]
      cases hv : (run .new bytes).verdict with
      | done => rfl
      | error e => exact ⟨_, rfl⟩
      | wanting => exact ⟨_, rfl⟩
      | panicked => exact ⟨_, rfl⟩
  | untilClose =>
      refine ⟨rfl, ?_⟩
      cases ending with
      | eof => rfl
      | failed e he => exact ⟨_, rfl⟩

/-! ## The body -/

/-- The streaming reader as its caller uses it: a new body, read to the end. -/
def streamed (dirty : Bool) (framing : BodyFraming) (tail : Bytes) (silence : Duration) (reusable : Bool)
    (fuel : Nat) (sizes : Nat → Nat) (turns : Nat) : M Error (StreamingBody.Outcome Bytes) := do
  let body ← StreamingBody.new dirty framing tail silence reusable
  body.drain .raw fuel sizes turns []

section

variable {ρ : Type} {env : Env Sys ρ} {due : ρ → Delivery} (h : Supplies env due) {l : Local} {st : ρ}

include h

theorem returns_streamed (dirty reusable : Bool) {framing : BodyFraming} {tail : Bytes} {silence : Duration}
    (hpunctual : Punctual env silence .NONE st) {fuel turns : Nat} {sizes : Nat → Nat} (hsizes : ∀ i, 0 < sizes i)
    (hfuel : (due st).size + 1 < fuel) (hturns : (decoded framing (tail ++ (due st).bytes)).length < turns) :
    Act.Returns env (streamed dirty framing tail silence reusable fuel sizes turns) (fun r _ _ => ∃ o, r = .ok o ∧
      (((∃ e, o.1 = .error e) ∧ ∃ e, framing.body (due st).ending (tail ++ (due st).bytes) = .error e) ∨
        (o.1 = .ok (decoded framing (tail ++ (due st).bytes)) ∧
          framing.body (due st).ending (tail ++ (due st).bytes) = .ok (decoded framing (tail ++ (due st).bytes)) ∧
          o.2.dirty = leaves dirty framing reusable tail (tail ++ (due st).bytes) ((due st).bites HEAD_BUF_SIZE)))) l st := by
  obtain ⟨hbytes, hfinale⟩ := prospect_initial framing (due st).ending (tail ++ (due st).bytes)
  rw [streamed, Act.returns_bind]
  refine (returns_new h dirty framing tail reusable hpunctual).mono ?_
  rintro r l₁ st₁ ⟨rfl, hdue, b, rfl, hstarts, hb⟩
  rw [← hdue] at hstarts hfuel hturns hbytes hfinale ⊢
  have hlen : (b.prospect (due st₁)).bytes.length < turns := by
    rw [hstarts.prospect, hbytes]
    exact hturns
  refine (returns_drain h hsizes hstarts.isOpen hb [] hfuel hlen).mono ?_
  rintro r l₂ st₂ ⟨-, o, rfl, hdrains⟩
  refine ⟨o, rfl, ?_⟩
  cases hdrains with
  | broken hp hd =>
      rw [hstarts.prospect] at hp
      rw [hp] at hfinale
      exact .inl ⟨⟨_, rfl⟩, hfinale⟩
  | complete hp hd =>
      rw [hstarts.prospect] at hp
      rw [hp] at hfinale
      refine .inr ⟨?_, hfinale, hd.trans hstarts.final⟩
      rw [hstarts.prospect, hbytes, List.nil_append]

end

/-! No error of a body is about the limit, and none is about the end of a body that ends with the connection. -/

theorem BodyFraming.body_ne_tooLarge (framing : BodyFraming) (bytes : Bytes) :
    framing.body .eof bytes ≠ .error (.connection .bodyTooLarge) := by
  unfold body
  cases framing.verdict bytes with
  | done => exact nofun
  | error e => exact nofun
  | _ => cases framing <;> exact nofun

theorem BodyFraming.body_wanting {framing : BodyFraming} {bytes : Bytes} (h : framing.verdict bytes = .wanting)
    (hne : framing ≠ .untilClose) : ∃ e, framing.body .eof bytes = .error e := by
  unfold body
  rw [h]
  cases framing with
  | untilClose => exact absurd rfl hne
  | _ => exact ⟨_, rfl⟩

/-- What a buffered reader returns, case by case. -/
theorem BodyCollector.collected_cases {maxBody : Nat} {framing : BodyFraming} {bytes : Bytes} {clean : Bool}
    {r : Except Error (Bytes × Bool)}
    (hr : r = (collected maxBody framing .eof bytes).map fun body => (body, clean)) :
    (∀ body, (∃ reusable, r = .ok (body, reusable)) ↔
      framing.body .eof bytes = .ok body ∧ framing.weight bytes ≤ maxBody) ∧
    (r = .error (.connection .bodyTooLarge) ↔ maxBody < framing.weight bytes) := by
  subst hr
  unfold collected
  by_cases hbig : framing.weight bytes > maxBody
  · rw [if_pos hbig]
    refine ⟨fun body => ⟨?_, fun h => absurd h.2 (Nat.not_le.mpr hbig)⟩, fun _ => hbig, fun _ => rfl⟩
    rintro ⟨reusable, h⟩
    cases h
  · rw [if_neg hbig]
    have hne := framing.body_ne_tooLarge bytes
    cases hbody : framing.body .eof bytes with
    | error e =>
        rw [hbody] at hne
        refine ⟨fun body => ⟨?_, fun h => nomatch h.1⟩, fun h => ?_, fun h => absurd h hbig⟩
        · rintro ⟨reusable, h⟩
          cases h
        · cases h
          exact absurd rfl hne
    | ok body =>
        refine ⟨fun body' => ⟨?_, fun h => ?_⟩, nofun, fun h => absurd h hbig⟩
        · rintro ⟨reusable, h⟩
          cases h
          exact ⟨rfl, Nat.not_lt.mp hbig⟩
        · cases h.1
          exact ⟨clean, rfl⟩

/-- **Both body readers compute the framed body.** However `bytes` are split into a tail and reads, for every framing
    and every clock under which the budgets last, both return. The buffered reader returns the body exactly when the
    reference has one that fits, says that it is too large exactly when what is held against the limit exceeds it, and
    never returns a body that was cut short; reading the streaming body to the end, in whatever steps, gives the body
    exactly when the reference has one. -/
theorem readers_decode {ρ₁ ρ₂ : Type} {env₁ : Env Sys ρ₁} {env₂ : Env Sys ρ₂} {due₁ : ρ₁ → Delivery}
    {due₂ : ρ₂ → Delivery} (h₁ : Supplies env₁ due₁) (h₂ : Supplies env₂ due₂) (st₁ : ρ₁) (st₂ : ρ₂)
    (framing : BodyFraming) (bytes tail₁ tail₂ : Bytes) (hbytes₁ : tail₁ ++ (due₁ st₁).bytes = bytes)
    (hbytes₂ : tail₂ ++ (due₂ st₂).bytes = bytes) (heof₁ : (due₁ st₁).ending = .eof) (heof₂ : (due₂ st₂).ending = .eof)
    (maxBody : Nat) (budget : SilenceBudget) (hbudget : budget.Lasts env₁ st₁) (dirty reusable : Bool) (silence : Duration)
    (hpunctual : Punctual env₂ silence .NONE st₂) (sizes : Nat → Nat) (hsizes : ∀ i, 0 < sizes i)
    (fuel₁ fuel₂ turns : Nat) (hfuel₁ : (due₁ st₁).size < fuel₁) (hfuel₂ : (due₂ st₂).size + 1 < fuel₂)
    (hturns : (decoded framing bytes).length < turns) (l₁ l₂ : Local) :
    ∃ r l₁' st₁' o l₂' st₂',
      Prog.eval env₁ (BodyCollector.read .raw maxBody fuel₁ budget framing tail₁ l₁) st₁ = some ((r, l₁'), st₁') ∧
      Prog.eval env₂ (streamed dirty framing tail₂ silence reusable fuel₂ sizes turns l₂) st₂ =
        some ((.ok o, l₂'), st₂') ∧
      (∀ body, (∃ reusable, r = .ok (body, reusable)) ↔
        framing.body .eof bytes = .ok body ∧ framing.weight bytes ≤ maxBody) ∧
      (r = .error (.connection .bodyTooLarge) ↔ maxBody < framing.weight bytes) ∧
      (framing.verdict bytes = .wanting → framing ≠ .untilClose → ∀ x, r ≠ .ok x) ∧
      ∀ body, o.1 = .ok body ↔ framing.body .eof bytes = .ok body := by
  obtain ⟨r, l₁', st₁', heval₁, -, hr⟩ :=
    BodyCollector.returns_read h₁ maxBody hbudget framing tail₁ (l := l₁) hfuel₁
  obtain ⟨ro, l₂', st₂', heval₂, o, rfl, ho⟩ :=
    returns_streamed h₂ dirty reusable hpunctual (l := l₂) hsizes hfuel₂ (hbytes₂.symm ▸ hturns)
  rw [hbytes₁, heof₁] at hr
  obtain ⟨hok, hlarge⟩ := BodyCollector.collected_cases hr
  refine ⟨r, l₁', st₁', o, l₂', st₂', heval₁, heval₂, hok, hlarge, fun hwant hne x hx => ?_, fun body => ?_⟩
  · obtain ⟨e, he⟩ := BodyFraming.body_wanting hwant hne
    have := ((hok x.1).mp ⟨x.2, hx⟩).1
    rw [he] at this
    cases this
  · rw [hbytes₂, heof₂] at ho
    rcases ho with ⟨⟨e, he⟩, e', he'⟩ | ⟨hout, hbody, -⟩
    · rw [he, he']
      constructor
      · exact nofun
      · exact nofun
    · rw [hout, hbody, Except.ok.injEq, Except.ok.injEq]

/-- A chunked body in one piece behind a tail, and byte by byte; there are no ticks, so the clock does not matter. -/
theorem readers_decode_chunk :
    ∃ r l₁ f₁ o l₂ f₂,
      Prog.eval (Delivery.serve 0) (BodyCollector.read .raw 8 20 ⟨1, 0, .NONE⟩ .chunked (ascii "1\r\n") idle)
        ⟨[.data (ascii "x\r\n0\r\n\r\n") (by decide)], .eof⟩ = some ((r, l₁), f₁) ∧
      Prog.eval (Delivery.serve 0) (streamed true .chunked [] 1 true 20 (fun _ => 1) 4 idle)
        ⟨(ascii "1\r\nx\r\n0\r\n\r\n").map fun b => .data [b] (List.cons_ne_nil _ _), .eof⟩ =
          some ((.ok o, l₂), f₂) ∧
      (∀ body, (∃ reusable, r = .ok (body, reusable)) ↔
        BodyFraming.chunked.body .eof (ascii "1\r\nx\r\n0\r\n\r\n") = .ok body ∧
          BodyFraming.chunked.weight (ascii "1\r\nx\r\n0\r\n\r\n") ≤ 8) ∧
      ∀ body, o.1 = .ok body ↔ BodyFraming.chunked.body .eof (ascii "1\r\nx\r\n0\r\n\r\n") = .ok body := by
  have htickless₁ : Delivery.Tickless ⟨[.data (ascii "x\r\n0\r\n\r\n") (by decide)], .eof⟩ := by
    intro e he hmem
    cases List.mem_singleton.mp hmem
  have htickless₂ : Delivery.Tickless
      ⟨(ascii "1\r\nx\r\n0\r\n\r\n").map fun b => .data [b] (List.cons_ne_nil _ _), .eof⟩ := by
    intro e he hmem
    obtain ⟨b, -, hb⟩ := List.mem_map.mp hmem
    cases hb
  obtain ⟨r, l₁, f₁, o, l₂, f₂, h₁, h₂, hok, -, -, ho⟩ :=
    readers_decode (Delivery.supplies_serve 0) (Delivery.supplies_serve 0)
      ⟨[.data (ascii "x\r\n0\r\n\r\n") (by decide)], .eof⟩
      ⟨(ascii "1\r\nx\r\n0\r\n\r\n").map fun b => .data [b] (List.cons_ne_nil _ _), .eof⟩ .chunked
      (ascii "1\r\nx\r\n0\r\n\r\n") (ascii "1\r\n") [] (by decide) (by decide) rfl rfl 8 ⟨1, 0, .NONE⟩
      (SilenceBudget.lasts_of_tickless (Delivery.supplies_serve 0) rfl htickless₁) true true 1
      (punctual_of_tickless (Delivery.supplies_serve 0) 1 htickless₂) (fun _ => 1) (fun _ => Nat.one_pos) 20 20 4
      (by decide) (by decide) (by decide) idle idle
  exact ⟨r, l₁, f₁, o, l₂, f₂, h₁, h₂, hok, ho⟩

/-! ## The connection -/

/-- Whether a buffer of a body that ends in it holds more than the body. -/
theorem drop_isEmpty (tail : Bytes) (n : Nat) : (tail.drop n).isEmpty = decide (tail.length ≤ n) := by
  rw [Bool.eq_iff_iff, List.isEmpty_iff, List.drop_eq_nil_iff, decide_eq_true_iff]

/-- What the two readers say about the connection: the same, but for a surplus that a known length hides. -/
theorem clean_eq_leaves {framing : BodyFraming} (hself : framing ≠ .untilClose) (dirty : Bool) (tail bytes : Bytes)
    (bites : List Bytes) :
    BodyCollector.clean framing tail bytes bites = (!leaves dirty framing true tail bytes bites) ↔
      ∀ len, framing = .contentLength len → tail.length < len → leftover len tail bites = [] := by
  cases framing with
  | untilClose => exact absurd rfl hself
  | none =>
      refine ⟨fun _ _ h => (by cases h), fun _ => ?_⟩
      simp [BodyCollector.clean, leaves, BodyFraming.extent, leftover_of_le]
  | chunked =>
      refine ⟨fun _ _ h => (by cases h), fun _ => ?_⟩
      simp [BodyCollector.clean, leaves]
  | contentLength len =>
      have hleaves : leaves dirty (.contentLength len) true tail bytes bites = !(leftover len tail bites).isEmpty := rfl
      rw [hleaves, Bool.not_not, BodyCollector.clean]
      by_cases hlt : tail.length < len
      · rw [decide_eq_true (Nat.le_of_lt hlt)]
        constructor
        · intro h len' heq _
          cases heq
          exact List.isEmpty_iff.mp h.symm
        · intro h
          rw [h len rfl hlt]
          rfl
      · rw [leftover_of_le (Nat.not_lt.mp hlt), drop_isEmpty]
        refine ⟨fun _ len' heq h => ?_, fun _ => rfl⟩
        cases heq
        exact absurd h hlt

/-- A surplus that came with the last byte of the body is what keeps the streaming reader from reusing the connection. -/
theorem leaves_of_leftover {framing : BodyFraming} (hself : framing ≠ .untilClose) (dirty : Bool) {tail bytes : Bytes}
    {bites : List Bytes} (h : leftover (framing.extent bytes) tail bites ≠ []) :
    leaves dirty framing true tail bytes bites = true := by
  have hempty : (leftover (framing.extent bytes) tail bites).isEmpty = false := by simpa using h
  cases framing with
  | untilClose => exact absurd rfl hself
  | none | contentLength _ | chunked =>
      unfold leaves
      dsimp only
      rw [hempty]
      rfl

/-- A complete body that fits is returned. -/
theorem BodyCollector.collected_ok {maxBody : Nat} {framing : BodyFraming} (ending : Ending) {bytes : Bytes}
    (hdone : framing.verdict bytes = .done) (hmax : framing.weight bytes ≤ maxBody) :
    framing.body ending bytes = .ok (decoded framing bytes) ∧
      collected maxBody framing ending bytes = .ok (decoded framing bytes) := by
  have hbody : framing.body ending bytes = .ok (decoded framing bytes) := by
    rw [BodyFraming.body, hdone]
  refine ⟨hbody, ?_⟩
  rw [collected, if_neg (Nat.not_lt.mpr hmax), hbody]

/-- **The two readers on reuse.** A complete body that fits, and whatever follows it, arrives behind a head that allows
    reuse as the same tail and the same segments for both readers, and their budgets last. Both return it. They then
    agree on whether the connection may be used again, and refuse it when a byte came together with the last of the body,
    exactly when no such byte came in a segment behind which the body has its declared length. -/
theorem readers_agree_on_reuse {ρ₁ ρ₂ : Type} {env₁ : Env Sys ρ₁} {env₂ : Env Sys ρ₂} {due₁ : ρ₁ → Delivery}
    {due₂ : ρ₂ → Delivery} (h₁ : Supplies env₁ due₁) (h₂ : Supplies env₂ due₂) (st₁ : ρ₁) (st₂ : ρ₂)
    (framing : BodyFraming) (hself : framing ≠ .untilClose) (tail : Bytes) (segments : List Bytes)
    (hseg₁ : (due₁ st₁).segments = segments) (hseg₂ : (due₂ st₂).segments = segments)
    (hsize : ∀ s ∈ segments, s.length ≤ HEAD_BUF_SIZE) (hdone : framing.verdict (tail ++ segments.flatten) = .done)
    (maxBody : Nat) (hmax : framing.weight (tail ++ segments.flatten) ≤ maxBody) (budget : SilenceBudget)
    (hbudget : budget.Lasts env₁ st₁) (dirty : Bool) (silence : Duration) (hpunctual : Punctual env₂ silence .NONE st₂)
    (sizes : Nat → Nat) (hsizes : ∀ i, 0 < sizes i) (fuel₁ fuel₂ turns : Nat)
    (hfuel₁ : (due₁ st₁).size < fuel₁) (hfuel₂ : (due₂ st₂).size + 1 < fuel₂)
    (hturns : (decoded framing (tail ++ segments.flatten)).length < turns) (l₁ l₂ : Local) :
    ∃ r l₁' st₁' o l₂' st₂',
      Prog.eval env₁ (BodyCollector.read .raw maxBody fuel₁ budget framing tail l₁) st₁ = some ((r, l₁'), st₁') ∧
      Prog.eval env₂ (streamed dirty framing tail silence true fuel₂ sizes turns l₂) st₂ =
        some ((.ok o, l₂'), st₂') ∧
      ∃ reusable, r = .ok (decoded framing (tail ++ segments.flatten), reusable) ∧
        o.1 = .ok (decoded framing (tail ++ segments.flatten)) ∧
        ((reusable = !o.2.dirty) ∧
            (leftover (framing.extent (tail ++ segments.flatten)) tail segments ≠ [] →
              reusable = false ∧ o.2.dirty = true) ↔
          ∀ len, framing = .contentLength len → tail.length < len → leftover len tail segments = []) := by
  have hbytes₁ : (due₁ st₁).bytes = segments.flatten := by rw [← hseg₁, Delivery.flatten_segments]
  have hbytes₂ : (due₂ st₂).bytes = segments.flatten := by rw [← hseg₂, Delivery.flatten_segments]
  have hbites₁ : (due₁ st₁).bites HEAD_BUF_SIZE = segments := by rw [Delivery.bites_of_le (hseg₁.symm ▸ hsize), hseg₁]
  have hbites₂ : (due₂ st₂).bites HEAD_BUF_SIZE = segments := by rw [Delivery.bites_of_le (hseg₂.symm ▸ hsize), hseg₂]
  obtain ⟨r, l₁', st₁', heval₁, -, hr⟩ :=
    BodyCollector.returns_read h₁ maxBody hbudget framing tail (l := l₁) hfuel₁
  obtain ⟨ro, l₂', st₂', heval₂, o, rfl, ho⟩ :=
    returns_streamed h₂ dirty true hpunctual (l := l₂) hsizes hfuel₂ (hbytes₂.symm ▸ hturns)
  rw [hbytes₁, hbites₁, (BodyCollector.collected_ok _ hdone hmax).2] at hr
  rw [hbytes₂, hbites₂, (BodyCollector.collected_ok _ hdone hmax).1] at ho
  obtain ⟨-, e, he⟩ | ⟨hout, -, hdirty⟩ := ho
  · cases he
  refine ⟨r, l₁', st₁', o, l₂', st₂', heval₁, heval₂, _, hr, hout, ?_⟩
  rw [hdirty, ← clean_eq_leaves hself dirty tail (tail ++ segments.flatten) segments]
  constructor
  · exact And.left
  · intro heq
    refine ⟨heq, fun hsurplus => ?_⟩
    have hleaves := leaves_of_leftover hself dirty hsurplus
    rw [heq, hleaves]
    exact ⟨rfl, rfl⟩

/-- A chunked body with a surplus byte, all in one segment behind a tick. -/
theorem readers_agree_on_reuse_chunk :
    ∃ r l₁ f₁ o l₂ f₂,
      Prog.eval (Delivery.serve 0) (BodyCollector.read .raw 8 20 ⟨1, 0, .NONE⟩ .chunked [] idle)
        ⟨[.tick ⟨.wouldBlock, .text ""⟩ rfl, .data (ascii "0\r\n\r\nx") (by decide)], .eof⟩ = some ((r, l₁), f₁) ∧
      Prog.eval (Delivery.serve 0) (streamed true .chunked [] 1 true 20 (fun _ => 1) 4 idle)
        ⟨[.tick ⟨.wouldBlock, .text ""⟩ rfl, .data (ascii "0\r\n\r\nx") (by decide)], .eof⟩ = some ((.ok o, l₂), f₂) ∧
      ∃ reusable, r = .ok ([], reusable) ∧ o.1 = .ok [] ∧ reusable = !o.2.dirty := by
  obtain ⟨r, l₁, f₁, o, l₂, f₂, h₁, h₂, reusable, hr, ho, hiff⟩ :=
    readers_agree_on_reuse (Delivery.supplies_serve 0) (Delivery.supplies_serve 0)
      ⟨[.tick ⟨.wouldBlock, .text ""⟩ rfl, .data (ascii "0\r\n\r\nx") (by decide)], .eof⟩
      ⟨[.tick ⟨.wouldBlock, .text ""⟩ rfl, .data (ascii "0\r\n\r\nx") (by decide)], .eof⟩ .chunked nofun
      [] [ascii "0\r\n\r\nx"] (by decide) (by decide) (by decide) (by decide) 8 (by decide) ⟨1, 0, .NONE⟩
      (Delivery.punctual_serve Nat.one_pos _) true 1 (Delivery.punctual_serve Nat.one_pos _) (fun _ => 1)
      (fun _ => Nat.one_pos) 20 20 4 (by decide) (by decide) (by decide) idle idle
  exact ⟨r, l₁, f₁, o, l₂, f₂, h₁, h₂, reusable, hr, ho, (hiff.mpr nofun).1⟩

/-- A body of one byte and a surplus byte in one segment: the buffered reader asks for one byte and calls the connection
    reusable, the streaming reader has both in its buffer and does not. -/
theorem readers_disagree_on_surplus :
    ∃ l₁ f₁ o l₂ f₂,
      Prog.eval (Delivery.serve 0) (BodyCollector.read .raw 8 20 ⟨1, 0, .NONE⟩ (.contentLength 1) [] idle)
        ⟨[.data (ascii "xy") (by decide)], .eof⟩ = some ((.ok (ascii "x", true), l₁), f₁) ∧
      Prog.eval (Delivery.serve 0) (streamed true (.contentLength 1) [] 1 true 20 (fun _ => 1) 4 idle)
        ⟨[.data (ascii "xy") (by decide)], .eof⟩ = some ((.ok o, l₂), f₂) ∧
      o.1 = .ok (ascii "x") ∧ o.2.dirty = true ∧
      leftover ((BodyFraming.contentLength 1).extent (ascii "xy")) [] [ascii "xy"] ≠ [] := by
  exact ⟨_, _, _, _, _, rfl, rfl, rfl, rfl, by decide⟩

end Xibalba
