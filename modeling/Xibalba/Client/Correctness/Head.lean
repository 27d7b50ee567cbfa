import Xibalba.Client.Correctness.Wire
import Xibalba.Proto.Correctness.HeadParse

/-!
# `Client.Correctness.Head` — what reading a response head consumes

A head ends just past its first CRLFCRLF. The bytes read for one response head are the interim heads that were
dropped, and the accumulator: the final head and whatever followed it in the same read. This is `wp_readResponse`;
it holds of failures too, which is what the decision to replay a request rests on.
-/

namespace Xibalba

/-! ## The first blank line -/

/-- A complete head: bytes that end with their first blank line. -/
def IsHead (bytes : Bytes) : Prop :=
  ∃ p, Bytes.findWindow (ascii "\r\n\r\n") bytes = some p ∧ p + 4 = bytes.length

/-- The accumulator has been searched up to `scanned`. -/
def Searched (acc : Bytes) (scanned : Nat) : Prop :=
  scanned ≤ acc.length ∧ Bytes.findWindow (ascii "\r\n\r\n") (acc.take scanned) = none

theorem Searched.zero (acc : Bytes) : Searched acc 0 := ⟨by simp, by simp [Bytes.findWindow]⟩

/-- Backing up three bytes is enough to find a blank line that straddles the boundary. -/
theorem Searched.find {acc : Bytes} {scanned : Nat} (h : Searched acc scanned) :
    Bytes.findWindow (ascii "\r\n\r\n") acc =
      (Bytes.findWindow (ascii "\r\n\r\n") (acc.drop (scanned - 3))).map (scanned - 3 + ·) := by
  apply Bytes.findWindow_drop
  intro q hq hpre
  have hlen : (ascii "\r\n\r\n").length = 4 := by decide
  have hle : (ascii "\r\n\r\n").length ≤ scanned - q := by omega
  have hmem : ascii "\r\n\r\n" <+: (acc.take scanned).drop q := by
    rw [List.drop_take]
    exact List.prefix_take_iff.mpr ⟨hpre, hle⟩
  refine Bytes.findWindow_eq_none h.2 q ?_ hmem
  have := h.1
  rw [List.length_take]
  omega

/-- The head a search found. -/
theorem Searched.isHead {acc : Bytes} {scanned pos : Nat} (h : Searched acc scanned)
    (hpos : Bytes.findWindow (ascii "\r\n\r\n") (acc.drop (scanned - 3)) = some pos) :
    scanned - 3 + pos + 4 ≤ acc.length ∧ IsHead (acc.take (scanned - 3 + pos + 4)) := by
  have hfind := h.find
  rw [hpos, Option.map_some] at hfind
  have hlen : (ascii "\r\n\r\n").length = 4 := by decide
  have hle : scanned - 3 + pos + 4 ≤ acc.length := by
    have := (Bytes.findWindow_eq_some hfind).length_le
    rw [List.length_drop] at this
    omega
  refine ⟨hle, scanned - 3 + pos, Bytes.findWindow_take (by decide) hfind, ?_⟩
  rw [List.length_take]
  omega

/-- A search without a find, and the bytes that are read next. -/
theorem Searched.append {acc : Bytes} {scanned : Nat} (h : Searched acc scanned)
    (hnone : Bytes.findWindow (ascii "\r\n\r\n") (acc.drop (scanned - 3)) = none) (bs : Bytes) :
    Searched (acc ++ bs) acc.length := by
  refine ⟨by simp, ?_⟩
  rw [List.take_left, h.find, hnone, Option.map_none]

/-! ## Reading a head -/

/-- A complete head the client drops: a 1xx other than 101. -/
def IsInterim (bytes : Bytes) : Prop :=
  IsHead bytes ∧ ∃ h n, ResponseHead.parse bytes MAX_HEADERS = .ok (h, n) ∧ HeadData.isInterim h.status = true

/-- A complete final head, what the client makes of it, and the framing of the body behind it. -/
def IsFinal (method : Method) (bytes : Bytes) (data : HeadData) (framing : BodyFraming) : Prop :=
  IsHead bytes ∧ ∃ h n final, ResponseHead.parse bytes MAX_HEADERS = .ok (h, n) ∧
    HeadData.isInterim h.status = false ∧ HeadData.finalHead method bytes.length bytes h = .ok final ∧
    final.framing = framing ∧
    HeadData.new h.version h.status bytes final.ranges h.headers.length = .ok data

/-! No error of a head is about a redirect. -/

theorem HeadData.new_refuses {version : Version} {status : StatusCode} {headBuf : Bytes}
    {ranges : List HeaderRange} {headerCount : Nat} {e : Error}
    (h : new version status headBuf ranges headerCount = .error e) : e.refusesRedirect = false := by
  unfold new at h
  split at h
  · cases h
    rfl
  · split at h
    · cases h
    · cases h
      rfl

theorem HeaderRange.ofHeader_refuses {src : Bytes} {header : HeaderSlice} {e : Error}
    (h : ofHeader src header = .error e) : e.refusesRedirect = false := by
  unfold ofHeader fromParts at h
  split at h
  · split at h
    · cases h
    · cases h
      rfl
  · cases h
    rfl

theorem HeaderRange.buildRanges_refuses {headers : List HeaderSlice} {src : Bytes} {e : Error}
    (h : buildRanges headers src = .error e) : e.refusesRedirect = false := by
  have hmap : ∀ headers : List HeaderSlice, headers.mapM (ofHeader src) = .error e → e.refusesRedirect = false := by
    intro headers h
    induction headers with
    | nil => cases h
    | cons header headers ih =>
        rw [List.mapM_cons] at h
        cases hone : ofHeader src header with
        | error e' =>
            rw [hone] at h
            cases h
            exact ofHeader_refuses hone
        | ok range =>
            cases hrest : headers.mapM (ofHeader src) with
            | error e' =>
                rw [hone, hrest] at h
                cases h
                exact ih hrest
            | ok ranges =>
                rw [hone, hrest] at h
                cases h
  unfold buildRanges at h
  split at h
  · cases h
    rfl
  · cases hranges : headers.mapM (ofHeader src) with
    | error e' =>
        rw [hranges] at h
        cases h
        exact hmap headers hranges
    | ok ranges =>
        rw [hranges] at h
        cases h

theorem HeadData.finalHead_refuses {method : Method} {headEnd : Nat} {bytes : Bytes} {h : ResponseHead} {e : Error}
    (hf : finalHead method headEnd bytes h = .error e) : e.refusesRedirect = false := by
  simp only [finalHead, bind, Except.bind] at hf
  split at hf
  next e' hranges =>
    cases hf
    exact HeaderRange.buildRanges_refuses hranges
  · split at hf
    next e' hframing =>
      cases hf
      cases hfrom : BodyFraming.fromResponse h.status method (h.headers.map HeaderSlice.header) with
      | error e'' =>
          rw [hfrom] at hframing
          cases hframing
          rfl
      | ok framing =>
          rw [hfrom] at hframing
          cases hframing
    · cases hf

section

variable {G : Wire → Op → Prop} (hG : Lenient G) {stream : Stream} (hs : stream.Recorded G)

include hG hs

theorem HeadData.wp_readUntilHeadEnd (maxHead fuel turns scanned : Nat) (b : SilenceBudget) (l : Local)
    (w : Wire) (hscan : Searched l.client.headBuf scanned) :
    Act.wp (watched G) (readUntilHeadEnd stream maxHead fuel turns scanned b) (fun r l' w' =>
      ∃ bs, l'.client = { l.client with headBuf := l.client.headBuf ++ bs } ∧
      match r with
      | .ok (headEnd, _) => w' = w.receive bs ∧ headEnd ≤ l'.client.headBuf.length ∧
          IsHead (l'.client.headBuf.take headEnd)
      | .error e => FailedProto (w.receive bs) e w') l w := by
  induction turns generalizing scanned b l w with
  | zero => exact Act.wp_hang
  | succ turns ih =>
      simp only [readUntilHeadEnd, Act.wp_bind, wp_client, Act.cont_ok]
      cases hpos : Bytes.findWindow (ascii "\r\n\r\n") (l.client.headBuf.drop (scanned - 3)) with
      | some pos =>
          have hhead := hscan.isHead hpos
          simp only []
          split
          · exact Act.stays_ghost.mpr ⟨[], by simp, by simpa using FailedProto.refl w rfl⟩
          · exact Act.stays_ghost.mpr ⟨[], by simp, by simp, by simpa using hhead⟩
      | none =>
          simp only []
          split
          · exact Act.stays_ghost.mpr ⟨[], by simp, by simpa using FailedProto.refl w rfl⟩
          · refine Act.wp_bind.mpr (Act.wp_mono (SilenceBudget.wp_readProto hG hs _ fuel b l w) ?_)
            rintro (e | ⟨bs, b⟩) l' w' ⟨hl, hw⟩
            · exact Act.stays_ghost.mpr ⟨[], by simp [hl], by simpa using hw⟩
            · simp only [Act.cont_ok]
              subst hw
              split
              · rename_i hnil
                have hnil : bs.val = [] := List.isEmpty_iff.mp hnil
                exact Act.stays_ghost.mpr ⟨[], by simp [hl], by simpa [hnil] using FailedProto.refl w rfl⟩
              · simp only [Act.wp_bind, wp_modifyClient, Act.cont_ok]
                refine Act.wp_mono (ih l.client.headBuf.length b _ _ ?_) ?_
                · simpa [hl] using hscan.append hpos bs.val
                · rintro r l'' w'' ⟨more, hl'', hw⟩
                  refine ⟨bs.val ++ more, by simp [hl'', hl], ?_⟩
                  simpa using hw

omit hG hs in
theorem HeadData.finalHead_eq {method : Method} {headEnd : Nat} {bytes : Bytes} {h : ResponseHead}
    {final : FinalHead} (hf : finalHead method headEnd bytes h = .ok final) :
    final.headEnd = headEnd ∧ final.head = h := by
  simp only [finalHead, bind, Except.bind] at hf
  split at hf
  · cases hf
  · split at hf
    · cases hf
    · cases hf
      exact ⟨rfl, rfl⟩

/-- The loop of `read_response`: what was read is the interim heads that were dropped and the accumulator. -/
theorem HeadData.wp_readFinalHead (maxHead : Nat) (method : Method) (fuel turns seen : Nat)
    (b : SilenceBudget) (l : Local) (w : Wire) (hseen : seen ≤ MAX_INTERIM_RESPONSES) :
    Act.wp (watched G) (readFinalHead stream maxHead method fuel turns seen b) (fun r l' w' =>
      ∃ bs interims acc, l'.client = { l.client with headBuf := acc } ∧
      l.client.headBuf ++ bs = List.flatten interims ++ acc ∧
      seen + interims.length ≤ MAX_INTERIM_RESPONSES ∧ (∀ i ∈ interims, IsInterim i) ∧
      match r with
      | .ok final => w' = w.receive bs ∧ final.headEnd ≤ acc.length ∧ IsHead (acc.take final.headEnd) ∧
          (∃ n, ResponseHead.parse (acc.take final.headEnd) MAX_HEADERS = .ok (final.head, n)) ∧
          isInterim final.head.status = false ∧
          finalHead method final.headEnd (acc.take final.headEnd) final.head = .ok final
      | .error e => FailedProto (w.receive bs) e w') l w := by
  -- on the turns: each skipped head adds one to `interims`
  induction turns generalizing seen b l w with
  | zero => exact Act.wp_hang
  | succ turns ih =>
      simp only [readFinalHead, Act.wp_bind]
      refine Act.wp_mono (wp_readUntilHeadEnd hG hs maxHead fuel fuel 0 b l w (.zero _)) ?_
      rintro (e | ⟨headEnd, b⟩) l' w' ⟨bs, hl, hw⟩
      · exact Act.stays_ghost.mpr ⟨bs, [], _, hl, by simp, by simpa using hseen, by simp, hw⟩
      · obtain ⟨rfl, hle, hhead⟩ := hw
        simp only [Act.cont_ok, Act.wp_bind, wp_client, Act.wp_ofExcept, Act.stays_ghost]
        rcases hparse : ResponseHead.parse (l'.client.headBuf.take headEnd) MAX_HEADERS with e | ⟨h, n⟩
        · exact Act.stays_ghost.mpr ⟨bs, [], _, hl, by simp, by simpa using hseen, by simp, .refl _ rfl⟩
        · simp only [Except.mapError, Act.cont_ok]
          by_cases hint : isInterim h.status = true
          · rw [if_pos hint]
            split
            · exact Act.stays_ghost.mpr ⟨bs, [], _, hl, by simp, by simpa using hseen, by simp, .refl _ rfl⟩
            · rename_i hmax
              simp only [Act.wp_bind, wp_modifyClient, Act.cont_ok]
              refine Act.wp_mono (ih (seen + 1) b _ _ (by omega)) ?_
              rintro r l'' w'' ⟨more, interims, acc, hl'', hacc, hlen, hall, hw⟩
              dsimp only at hacc
              refine ⟨bs ++ more, l'.client.headBuf.take headEnd :: interims, acc, by simp [hl'', hl], ?_, ?_, ?_,
                by cases r <;> simpa using hw⟩
              · calc l.client.headBuf ++ (bs ++ more)
                  _ = l'.client.headBuf ++ more := by rw [hl, List.append_assoc]
                  _ = l'.client.headBuf.take headEnd ++ (l'.client.headBuf.drop headEnd ++ more) := by
                    rw [← List.append_assoc, List.take_append_drop]
                  _ = _ := by rw [hacc, List.flatten_cons, List.append_assoc]
              · rw [List.length_cons]
                omega
              · rintro i (_ | ⟨_, hi⟩)
                · exact ⟨hhead, h, n, hparse, hint⟩
                · exact hall i hi
          · rw [if_neg hint, Act.wp_ofExcept, Act.stays_ghost]
            refine ⟨bs, [], _, hl, by simp, by simpa using hseen, by simp, ?_⟩
            rcases hfinal : finalHead method headEnd (l'.client.headBuf.take headEnd) h with e | final
            · exact .refl _ (finalHead_refuses hfinal)
            · obtain ⟨hheadEnd, hh⟩ := finalHead_eq hfinal
              subst hheadEnd hh
              rw [hl] at hle hhead hparse hfinal
              exact ⟨rfl, hle, hhead, ⟨n, hparse⟩, by simpa using hint, hfinal⟩

/-- **Reading a response head** reads some interim heads and then what the accumulator holds; the head it
    returns is at the front of the accumulator. The mark in the middle is up to the monitor. -/
theorem HeadData.wp_readResponse (maxHead : Nat) (silence : Duration) (deadline : RequestDeadline)
    (method : Method) (fuel : Nat) (l : Local) (w : Wire)
    (hmark : ∀ skipped acc headEnd, G (w.receive (skipped ++ acc)) (.mark (.response acc headEnd))) :
    Act.wp (watched G) (readResponse stream maxHead silence deadline method fuel) (fun r l' w' =>
      ∃ interims acc, l'.client = { l.client with headBuf := acc } ∧
      interims.length ≤ MAX_INTERIM_RESPONSES ∧ (∀ i ∈ interims, IsInterim i) ∧
      match r with
      | .ok (data, framing, headEnd) => w' = (w.receive (List.flatten interims ++ acc)).note .answered ∧
          IsFinal method (acc.take headEnd) data framing
      | .error e => FailedProto (w.receive (List.flatten interims ++ acc)) e w') l w := by
  simp only [readResponse, Act.wp_bind, wp_modifyClient, Act.cont_ok]
  refine SilenceBudget.wp_withDeadline hG.timeless fun b _ => ?_
  simp only [Act.cont_ok, Act.wp_bind]
  refine Act.wp_mono (wp_readFinalHead hG hs maxHead method fuel fuel 0 b _ w (by simp)) ?_
  rintro (e | final) l' w' ⟨bs, interims, acc, hl, hacc, hlen, hall, hw⟩
  · simp only [List.nil_append, Nat.zero_add] at hacc hlen
    subst hacc
    exact Act.stays_ghost.mpr ⟨interims, acc, hl, hlen, hall, hw⟩
  · simp only [List.nil_append, Nat.zero_add] at hacc hlen
    subst hacc
    obtain ⟨rfl, hle, hhead, ⟨n, hparse⟩, hint, hfinal⟩ := hw
    have hbuf : l'.client.headBuf = acc := by rw [hl]
    simp only [Act.cont_ok, Act.wp_bind, wp_client, Act.wp_ofExcept, Act.stays_ghost, hbuf]
    rcases hnew : new final.head.version final.head.status (acc.take final.headEnd) final.ranges
      final.head.headers.length with e | data
    · exact Act.stays_ghost.mpr ⟨interims, acc, hl, hlen, hall, .refl _ (new_refuses hnew)⟩
    · refine Act.cont_ok.mpr (Act.wp_bind.mpr (wp_mark.mpr ⟨hmark _ _ _, ?_⟩))
      refine Act.stays_ghost.mpr ⟨interims, acc, hl, hlen, hall, rfl, hhead, final.head, n, final, hparse, hint,
        ?_, rfl, hnew⟩
      rwa [List.length_take, Nat.min_eq_left hle]

end

end Xibalba
