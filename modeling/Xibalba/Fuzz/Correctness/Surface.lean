import Xibalba.Fuzz.Surface
import Xibalba.Fuzz.Correctness.Borrow
import Xibalba.Proto.Correctness.ChunkedSafety
import Xibalba.Proto.Correctness.HeadGrammar
import Xibalba.Proto.Correctness.UrlGrammar

/-!
# `Fuzz.Correctness.Surface` — no input makes a fuzz target fail

The three checks hold of every input, with one condition: a chunked body is fed in at most `MAX_STEPS` calls, one for
each byte at the worst, and a run that takes more counts as stalled.

Layout:
* a run of the chunked check is the decoder's reference run, whatever the slices;
* the parts of a head point into its bytes, and every proper prefix of a head is incomplete;
* the parts of a URL point into its text;
* `Surface.check_total`.
-/

namespace Xibalba.Fuzz

/-! ## Chunked bodies -/

namespace ChunkedInvariants

/-- How a run ends that ends with this verdict. -/
def outcomeOf : ChunkedDecoder.Verdict → Outcome
  | .done => .complete
  | .wanting => .exhausted
  | .error _ => .errored
  | .panicked => .stalled

/-- What a run reports that has emitted `body` and goes on like the reference run `o`. -/
def report (body : Bytes) (o : ChunkedDecoder.Outcome) : Decoded := ⟨body ++ o.body, outcomeOf o.verdict⟩

theorem report_after (body out : Bytes) (o : ChunkedDecoder.Outcome) (n : Nat) :
    report body (o.after out n) = report (body ++ out) o := by
  simp [report, ChunkedDecoder.Outcome.after]

theorem slice_ne_nil {data : Bytes} {fed : Nat} (pattern : List Nat) (i : Nat) (h : fed < data.length) :
    slice data pattern i fed ≠ [] := by
  have hpos : 0 < sliceSize pattern i := Nat.lt_of_lt_of_le Nat.zero_lt_one (Nat.le_max_right _ _)
  rw [← List.length_pos_iff, slice, List.length_take, List.length_drop]
  omega

variable {data : Bytes} {pattern : List Nat} {outputLen : Nat}

/-- **The reference run.** Every call consumes a byte or ends the run, so there are steps enough. -/
theorem runFrom_eq (hout : 0 < outputLen) {steps : Nat} {d : ChunkedDecoder} {body window rest : Bytes} {fed : Nat} (i : Nat)
    (hd : ChunkedDecoder.Inv d ∨ ∃ e, d.state = .failed e) (hdata : data.drop fed = window ++ rest) (hwindow : window ≠ [])
    (hsteps : data.length - fed ≤ steps) :
    runFrom data pattern outputLen steps d body fed i window = some (report body (d.run (data.drop fed))) := by
  induction steps generalizing d body window rest fed i with
  | zero =>
      have hlen := congrArg List.length hdata
      have hpos := List.length_pos_iff.mpr hwindow
      rw [List.length_drop, List.length_append] at hlen
      omega
  | succ steps ih =>
      have hlen := congrArg List.length hdata
      have hpos := List.length_pos_iff.mpr hwindow
      rw [List.length_drop, List.length_append] at hlen
      -- what follows a call that consumed `k` bytes
      have hnext : ∀ {d' : ChunkedDecoder} {k : Nat} (body : Bytes), 0 < k → k ≤ window.length →
          (ChunkedDecoder.Inv d' ∨ (∃ e, d'.state = .failed e) ∧ k < window.length) →
          (if (window.drop k).isEmpty then
            if fed + k < data.length then
              runFrom data pattern outputLen steps d' body (fed + k) (i + 1) (slice data pattern i (fed + k))
            else some ⟨body, if d'.isDone then .complete else .exhausted⟩
          else runFrom data pattern outputLen steps d' body (fed + k) i (window.drop k)) =
            some (report body (d'.run (window.drop k ++ rest))) := by
        intro d' k body hk hle hd'
        have hdrop : data.drop (fed + k) = window.drop k ++ rest := by
          rw [← List.drop_drop, hdata, List.drop_append_of_le_length hle]
        by_cases hend : (window.drop k).isEmpty
        · have hall : window.length ≤ k := List.drop_eq_nil_iff.mp (List.isEmpty_iff.mp hend)
          have hinv : ChunkedDecoder.Inv d' := hd'.resolve_right fun h => absurd h.2 (Nat.not_lt.mpr hall)
          rw [if_pos hend]
          by_cases hmore : fed + k < data.length
          · rw [if_pos hmore, ← hdrop]
            refine ih (i + 1) (.inl hinv) (List.take_append_drop _ _).symm (slice_ne_nil pattern i hmore) ?_
            omega
          · rw [if_neg hmore, ← hdrop, List.drop_of_length_le (Nat.not_lt.mp hmore)]
            cases hdone : d'.isDone <;> simp [ChunkedDecoder.run, report, outcomeOf, hdone]
        · rw [if_neg hend, ← hdrop]
          refine ih i (hd'.imp id And.left) hdrop (fun h => hend (List.isEmpty_iff.mpr h)) ?_
          omega
      rw [hdata]
      unfold runFrom
      rcases hd with hi | ⟨e, he⟩
      · have hst := ChunkedDecoder.decode_stretch hi window hout
        have hroom := (ChunkedDecoder.decode_checked hi window outputLen).2.written
        generalize d.decode window outputLen = r at hst hroom
        cases hst with
        | @data d' k out hsome hk hle hd' hrun =>
            dsimp only
            rw [if_neg (Nat.not_lt.mpr hle), if_neg (Nat.not_lt.mpr hroom), List.take_length, hrun rest, report_after]
            have hmid : ¬ (k = 0 ∧ DecodeResult.data out.length = .needMore) := fun h => by cases h.2
            rw [if_neg hmid]
            exact hnext _ hk hle hd'
        | @needMore d' hinv hnot hadv =>
            dsimp only
            have hgo := hnext body hpos (Nat.le_refl _) (.inl hinv)
            rw [List.drop_length, List.nil_append, if_pos List.isEmpty_nil] at hgo
            rw [if_neg (Nat.lt_irrefl _), hadv rest, report_after, List.append_nil, List.drop_length, if_pos List.isEmpty_nil]
            exact hgo
        | @done d' k hle hdone hrun =>
            dsimp only
            rw [if_neg (Nat.not_lt.mpr hle), if_pos hdone, hrun rest]
            simp [report, outcomeOf]
        | @error d' e k hlt hrun _ =>
            dsimp only
            rw [if_neg (Nat.not_lt.mpr (Nat.le_of_lt hlt)), hrun rest]
            simp [report, outcomeOf]
      · rw [ChunkedDecoder.decode_failed he, ChunkedDecoder.run_failed he (by simp [hwindow])]
        simp [report, outcomeOf]

theorem run_eq (hout : 0 < outputLen) (hlen : data.length ≤ MAX_STEPS) :
    run data pattern outputLen = some (report [] (ChunkedDecoder.run .new data)) := by
  unfold run
  split
  next hempty =>
    rw [List.isEmpty_iff.mp hempty]
    rfl
  next hsome =>
    have hpos : 0 < data.length := by rwa [List.length_pos_iff, ne_eq, ← List.isEmpty_iff]
    exact runFrom_eq hout 1 (.inl ChunkedDecoder.inv_new) (List.take_append_drop _ _).symm (slice_ne_nil pattern 0 hpos) hlen

theorem checkAll_eq_true (hlen : data.length ≤ MAX_STEPS) : checkAll data = true := by
  have hrun : ∀ pattern, decodeInSlices data pattern = some (report [] (ChunkedDecoder.run .new data)) :=
    fun _ => run_eq (by decide) hlen
  have htiny : ∀ slice, decodeWithOutput data slice 1 = some (report [] (ChunkedDecoder.run .new data)) :=
    fun _ => run_eq Nat.one_pos hlen
  have hends : aRunTerminates (report [] (ChunkedDecoder.run .new data)) = true := by
    have hreached := ChunkedDecoder.run_not_panicked ChunkedDecoder.inv_new data
    unfold aRunTerminates report
    generalize (ChunkedDecoder.run .new data).verdict = v at hreached
    cases v with
    | panicked => exact absurd rfl hreached
    | _ => rfl
  unfold checkAll splitFeedsAgreeWithOneFeed aTinyOutputBufferLosesNothing
  simp [hrun, htiny, hends]

end ChunkedInvariants

/-! ## Parts of the input -/

/-- A slice that points into the input passes the check of its addresses. -/
theorem isBorrowed_of_in {data : Bytes} {slice : Part} (h : slice.In data) : isBorrowedFromInput data slice = true := by
  unfold isBorrowedFromInput
  rcases h with ⟨start, hstart, hle⟩ | rfl
  · rw [hstart, Option.any_some, decide_eq_true hle, Bool.or_true]
  · rfl

/-- No byte of the slice ends a line. -/
theorem hasLineEnding_eq_false {slice : Bytes} (h : ∀ b ∈ slice, b ≠ 0x0d ∧ b ≠ 0x0a) : hasLineEnding slice = false := by
  unfold hasLineEnding
  rw [List.any_eq_false]
  intro b hb
  simp [h b hb]

/-- Trimming takes bytes away. -/
theorem trimOws_subset (raw : Bytes) : Bytes.trimOws raw ⊆ raw := by
  unfold Bytes.trimOws
  have hback : ((raw.dropWhile isOws).reverse.dropWhile isOws).reverse ⊆ raw.dropWhile isOws := by
    intro b hb
    exact List.mem_reverse.mp ((List.dropWhile_suffix _).subset (List.mem_reverse.mp hb))
  exact fun b hb => (List.dropWhile_suffix _).subset (hback hb)

/-! ## Response heads -/

namespace HeadInvariants

open ResponseHead (Field IsStatusLine IsText fieldLines)

/-- Neither the text of a field nor a token byte ends a line. -/
theorem text_no_ending {b : UInt8} (h : IsText b) : b ≠ 0x0d ∧ b ≠ 0x0a := by
  unfold IsText at h
  constructor
  · rintro rfl
    revert h
    decide
  · rintro rfl
    revert h
    decide

theorem tchar_no_ending {b : UInt8} (h : Tchar.isValid b = true) : b ≠ 0x0d ∧ b ≠ 0x0a := by
  constructor
  · rintro rfl
    revert h
    decide
  · rintro rfl
    revert h
    decide

theorem reason_text {line reason : Bytes} {version : Version} {status : StatusCode}
    (h : IsStatusLine line version status reason) : ∀ b ∈ reason, IsText b := by
  obtain ⟨v, s, -, -, -, -, ⟨-, rfl⟩ | ⟨-, htext⟩⟩ := h
  · exact fun _ hb => absurd hb List.not_mem_nil
  · exact htext

variable {data : Bytes} {head : HeadParts} {consumed : Nat}

/-- An accepted head has its fields within the slots, and no slice of it has a line ending. -/
theorem parts_spec (h : ResponseHead.parse data SLOTS = .ok (head.head, consumed)) :
    head.headers.length ≤ SLOTS ∧ ∀ part ∈ head.parts, ∀ b ∈ part.bytes, b ≠ 0x0d ∧ b ≠ 0x0a := by
  obtain ⟨line, version, status, reason, fields, rest, hline, hwf, hslots, rfl⟩ := ResponseHead.fields_of_parse h
  rw [ResponseHead.parse_fields hline hwf hslots rest] at h
  have hhead := (Prod.mk.inj (Except.ok.inj h)).1
  have hreason : reason = head.reason.bytes := congrArg ResponseHead.reason hhead
  have hheaders := congrArg ResponseHead.headers hhead
  have hpairs := ResponseHead.pair_slices (line.length + 2) fields
  dsimp only [HeadParts.head] at hheaders
  rw [hheaders] at hpairs
  refine ⟨?_, fun part hpart => ?_⟩
  · have hlen := congrArg List.length hpairs
    rw [List.length_map, List.length_map] at hlen
    exact hlen.trans_le hslots
  rcases List.mem_cons.mp hpart with rfl | hpart
  · rw [← hreason]
    exact fun b hb => text_no_ending (reason_text hline b hb)
  · obtain ⟨slice, hslice, hpart⟩ := List.mem_flatMap.mp hpart
    have hpair : slice.pair ∈ fields.map Field.header := by
      rw [← hpairs]
      exact List.mem_map_of_mem hslice
    obtain ⟨f, hf, hpair⟩ := List.mem_map.mp hpair
    obtain ⟨hname, hvalue⟩ := Prod.mk.inj hpair
    rcases List.mem_cons.mp hpart with rfl | hpart
    · show ∀ b ∈ slice.name.bytes, _
      rw [← hname]
      exact fun b hb => tchar_no_ending ((hwf f hf).name b hb)
    · rw [List.mem_singleton.mp hpart]
      show ∀ b ∈ slice.value.bytes, _
      rw [← hvalue]
      exact fun b hb => text_no_ending ((hwf f hf).raw b (trimOws_subset f.raw hb))

/-- Every accepted head keeps the invariants. -/
theorem checkAll_eq_true (data : Bytes) : checkAll data = true := by
  unfold checkAll
  split
  next head consumed h =>
    have hhead : ResponseHead.parse data SLOTS = .ok (head.head, consumed) := HeadParts.parse_ok h
    obtain ⟨hcount, hplain⟩ := parts_spec hhead
    have hstable := ResponseHead.stable_parse SLOTS
    have hborrowed : parsedBytesAreBorrowedNotSynthesised data head = true :=
      List.all_eq_true.mpr fun part hpart => isBorrowed_of_in (HeadParts.in_parse h part hpart)
    have hending : noFieldSmugglesALineEnding head = true := by
      refine List.all_eq_true.mpr fun part hpart => ?_
      rw [hasLineEnding_eq_false (hplain part hpart)]
      rfl
    have hprefixes : everyShorterPrefixAsksForMore data consumed = true := by
      refine List.all_eq_true.mpr fun stop hstop => ?_
      have hlt := List.mem_range.mp (List.mem_of_mem_drop hstop)
      have hcut := hstable.cut hhead stop (Nat.lt_of_lt_of_le hlt (Nat.min_le_left _ _))
      exact decide_eq_true (HeadParts.parse_error hcut)
    simp [consumedIsWithinTheBuffer, countMatchesTheBufferItDescribes, hstable.length_le hhead, hcount, hborrowed, hending,
      hprefixes]
  next => rfl

end HeadInvariants

/-! ## URLs -/

namespace UrlInvariants

open UrlGrammar

/-- A query has no more parameters than bytes, and one. -/
theorem countParams_le (limit : Nat) (q : QueryParams) : countParams limit q ≤ q.remaining.length + 1 := by
  induction limit generalizing q with
  | zero => exact Nat.zero_le _
  | succ limit ih =>
      have hdone : ∀ q : QueryParams, q.done = true → countParams limit q = 0 := by
        intro q hq
        cases limit with
        | zero => rfl
        | succ n => rw [countParams, QueryParams.next, if_pos hq]
      unfold countParams
      by_cases hq : q.done
      · rw [QueryParams.next, if_pos hq]
        exact Nat.zero_le _
      · rw [QueryParams.next, if_neg hq]
        cases hpos : q.remaining.findIdx? (· == 0x26) with
        | none =>
            by_cases hempty : q.remaining.isEmpty
            · simp only [hempty, if_true]
              exact Nat.zero_le _
            · simp only [hempty]
              -- the last parameter
              exact (congrArg (· + 1) (hdone ⟨[], true⟩ rfl)).trans_le (Nat.le_add_left _ _)
        | some pos =>
            obtain ⟨hlt, -⟩ := List.findIdx?_eq_some_iff_getElem.mp hpos
            have hrest := ih { q with remaining := q.remaining.drop (pos + 1) }
            rw [List.length_drop] at hrest
            dsimp only
            omega

theorem nameByte_no_ending {b : UInt8} (h : IsNameByte b) : b ≠ 0x0d ∧ b ≠ 0x0a :=
  ⟨nameByte_ne h (by unfold IsNameByte; decide), nameByte_ne h (by unfold IsNameByte; decide)⟩

/-- The host to connect to is no longer than the host and has no brackets; the host has no line ending. -/
theorem host_spec {url : Url} (h : IsHost url.host) :
    url.connectionHost.length ≤ url.host.length ∧ (∀ b ∈ url.connectionHost, b ≠ 0x5b ∧ b ≠ 0x5d) ∧
      ∀ b ∈ url.host, b ≠ 0x0d ∧ b ≠ 0x0a := by
  have hbracket : ∀ {b : UInt8}, IsNameByte b → b ≠ 0x5b ∧ b ≠ 0x5d :=
    fun hb => ⟨nameByte_ne hb (not_nameByte (by decide)), nameByte_ne hb (not_nameByte (by decide))⟩
  rcases connectionHost_spec h with ⟨hname, heq⟩ | ⟨inner, hinner, hhost, heq⟩
  · rw [heq]
    exact ⟨Nat.le_refl _, fun b hb => hbracket (hname.bytes b hb), fun b hb => nameByte_no_ending (hname.bytes b hb)⟩
  · have hending : ∀ b ∈ inner, b ≠ 0x0d ∧ b ≠ 0x0a := by
      intro b hb
      rcases hinner.bytes b hb with hb | rfl
      · exact nameByte_no_ending hb
      · decide
    rw [heq, hhost]
    refine ⟨?_, fun b hb => ?_, fun b hb => ?_⟩
    · rw [List.length_cons, List.length_append]
      omega
    · rcases hinner.bytes b hb with hb | rfl
      · exact hbracket hb
      · decide
    · simp only [List.mem_cons, List.mem_append, List.not_mem_nil, or_false] at hb
      rcases hb with rfl | hb | rfl
      · decide
      · exact hending b hb
      · decide

/-- A part that is missing counts as an empty one. -/
theorem in_getD {data : Bytes} {part : Option Part} (h : ∀ p ∈ part, p.In data) : (part.getD (.literal [])).In data := by
  cases part with
  | none => exact .inr rfl
  | some p => exact h p rfl

/-- Every accepted URL keeps the invariants. -/
theorem checkAll_eq_true (data : Bytes) : checkAll data = true := by
  unfold checkAll
  split
  next url h =>
    have hurl : Url.parse data = .ok url.url := by
      rw [← UrlParts.parse_url, h]
      rfl
    obtain ⟨hparts, hhost, -⟩ := parse_sound hurl
    obtain ⟨hlen, hbrackets, hending⟩ := host_spec hhost
    obtain ⟨hhostIn, hpathIn, hqueryIn, hfragmentIn⟩ := UrlParts.in_parse h
    have hborrowed : everyPartIsBorrowed data url = true := by
      refine List.all_eq_true.mpr fun part hpart => isBorrowed_of_in ?_
      simp only [List.mem_cons, List.not_mem_nil, or_false] at hpart
      rcases hpart with rfl | rfl | rfl | rfl
      · exact hhostIn
      · exact hpathIn
      · exact in_getD hqueryIn
      · exact in_getD hfragmentIn
    have hconnection : connectionHostStaysWithinTheHost data url = true := by
      have hborrow := isBorrowed_of_in (UrlParts.in_connectionHost hhostIn)
      rw [← UrlParts.connectionHost_bytes] at hlen hbrackets
      have hlen : url.connectionHost.bytes.length ≤ url.host.bytes.length := hlen
      have hhead : url.connectionHost.bytes.head? ≠ some 0x5b := fun h => (hbrackets _ (List.mem_of_mem_head? h)).1 rfl
      have hlast : url.connectionHost.bytes.getLast? ≠ some 0x5d := fun h => (hbrackets _ (List.mem_of_getLast? h)).2 rfl
      simp [connectionHostStaysWithinTheHost, hlen, hborrow, hhead, hlast]
    have hne : aHostIsNeverEmpty url.url = true := by
      have hhost : url.url.host ≠ [] := by
        rcases hhost with ⟨hne, -⟩ | ⟨inner, heq, -⟩
        · exact hne
        · rw [heq]
          exact List.cons_ne_nil _ _
      simp [aHostIsNeverEmpty, hhost]
    have habsolute : aRequestPathIsAbsolute url.url = true := by
      unfold aRequestPathIsAbsolute Url.requestPath
      rcases hparts.path with hpath | hpath
      · rw [hpath]
        rfl
      · rw [if_neg, hpath]
        · rfl
        · intro hempty
          rw [List.isEmpty_iff.mp hempty] at hpath
          cases hpath
    have hline : noPartSmugglesALineEnding url.url = true := by
      unfold noPartSmugglesALineEnding
      rw [hasLineEnding_eq_false hending]
      rfl
    have hquery : queryParamsTerminate url.url = true := decide_eq_true (countParams_le _ _)
    simp [hborrowed, hne, hconnection, habsolute, hline, hquery]
  next => rfl

end UrlInvariants

/-- No assertion of the fuzz targets fails, on any surface and any input. A chunked body may take a `decode` call a byte,
so one of more than `MAX_STEPS` bytes could be told to be stalled. -/
theorem Surface.check_total (surface : Surface) (data : Bytes)
    (h : surface = .chunkedBody → data.length ≤ ChunkedInvariants.MAX_STEPS) : surface.check data = true := by
  cases surface with
  | responseHead => exact HeadInvariants.checkAll_eq_true data
  | chunkedBody => exact ChunkedInvariants.checkAll_eq_true (h rfl)
  | url => exact UrlInvariants.checkAll_eq_true data

theorem Surface.check_total_chunk : Surface.check (ascii "5\r\nhello\r\n0\r\n\r\n") .chunkedBody = true :=
  Surface.check_total .chunkedBody _ fun _ => by decide

end Xibalba.Fuzz
