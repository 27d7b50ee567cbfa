import Xibalba.Lib.Split
import Xibalba.Proto.Framing
import Xibalba.Proto.Correctness.HeaderNames

/-!
# `Proto.Correctness.FramingRules` — where a response body ends, for every list of headers

The rules of message framing, stated on what the headers say and not on how the parser walks through them: the
codings of all `Transfer-Encoding` values taken together, and the numbers of all `Content-Length` values.

Layout:
* names, values and codings;
* what `TransferCodings::parse` makes of the codings, and the loop over `Content-Length`;
* `fromResponse_rules`.
-/

namespace Xibalba

open Bytes (lower decimal IsNumeral trimOws)

/-! ## What the headers say -/

/-- The values of the headers of a name, in order; names compare without case. -/
def valuesOf (name : Bytes) (headers : List Header) : List Bytes :=
  (headers.filter fun h => lower h.name.asBytes = lower name).map Header.value

/-- The codings of all `Transfer-Encoding` values joined by commas, in lower case. -/
def codings (headers : List Header) : List Bytes :=
  (((([0x2c] : Bytes).intercalate (valuesOf (ascii "Transfer-Encoding") headers)).splitOnP (· == 0x2c)).map trimOws).filter
    (!·.isEmpty) |>.map lower

/-- The value is a decimal numeral for `n` below `2^64`, with white space around it. -/
def Declares (value : Bytes) (n : Nat) : Prop := IsNumeral (trimOws value) ∧ decimal (trimOws value) = n ∧ n < 2 ^ 64

/-- No response with this status, or to this method with this status, carries content. -/
def Contentless (status : StatusCode) (method : Method) : Prop :=
  100 ≤ status.code ∧ status.code < 200 ∨ status.code = 204 ∨ status.code = 304 ∨ method = .head ∨
    method = .connect ∧ 200 ≤ status.code ∧ status.code < 300

/-- `chunked` occurs more than once, or not at the end. -/
def MisplacedChunked (cs : List Bytes) : Prop :=
  1 < cs.count (ascii "chunked") ∨ ascii "chunked" ∈ cs ∧ cs.getLast? ≠ some (ascii "chunked")

/-- `chunked` occurs once, at the end, and all other codings are `identity`. -/
def ChunkedLast (cs : List Bytes) : Prop :=
  ∃ front, cs = front ++ [ascii "chunked"] ∧ ∀ c ∈ front, c = ascii "identity"

/-- What the codings make of the framing. -/
structure CodingRules (cs : List Bytes) (r : Except ParseError BodyFraming) : Prop where
  chunked : r = .ok .chunked ↔ ChunkedLast cs
  untilClose : r = .ok .untilClose ↔ ∀ c ∈ cs, c = ascii "identity"
  misplaced : r = .error .invalidTransferEncoding ↔ MisplacedChunked cs
  unsupported : r = .error .unsupportedTransferCoding ↔
    ¬ChunkedLast cs ∧ ¬(∀ c ∈ cs, c = ascii "identity") ∧ ¬MisplacedChunked cs

/-- What the lengths make of the framing. -/
structure LengthRules (values : List Bytes) (r : Except ParseError BodyFraming) : Prop where
  length : ∀ n, r = .ok (.contentLength n) ↔ values ≠ [] ∧ ∀ v ∈ values, Declares v n
  untilClose : r = .ok .untilClose ↔ values = []
  invalid : r = .error .invalidContentLength ↔ values ≠ [] ∧ ¬∃ n, ∀ v ∈ values, Declares v n

/-! ## Names -/

theorem filter_known (k : KnownHeader) (headers : List Header) :
    (headers.filter fun h => h.name.eq (.known k)).map Header.value = valuesOf k.canonical headers := by
  unfold valuesOf
  congr 1
  apply List.filter_congr
  intro h _
  rw [Bool.eq_iff_iff, HeaderName.eq_iff, decide_eq_true_iff]
  rfl

/-! ## Transfer-Encoding -/

/-- The codings are read value by value. -/
theorem codings_eq {headers : List Header} (h : valuesOf (ascii "Transfer-Encoding") headers ≠ []) :
    codings headers =
      ((valuesOf (ascii "Transfer-Encoding") headers).flatMap TransferCodings.ofValue).map lower := by
  unfold codings
  rw [Split.pieces_intercalate h]
  congr 1
  simp only [List.map_flatMap, List.filter_flatMap]
  rfl

theorem isChunked_iff {c : Bytes} : Bytes.asciiEqIgnoreCase c (ascii "chunked") = true ↔ lower c = ascii "chunked" :=
  Bytes.asciiEqIgnoreCase_iff

theorem isIdentity_iff {c : Bytes} : Bytes.asciiEqIgnoreCase c (ascii "identity") = true ↔ lower c = ascii "identity" :=
  Bytes.asciiEqIgnoreCase_iff

/-- How often `chunked` occurs. -/
theorem length_filter_chunked (cs : List Bytes) :
    (cs.filter fun c => Bytes.asciiEqIgnoreCase c (ascii "chunked")).length = (cs.map lower).count (ascii "chunked") := by
  rw [List.count_eq_length_filter, List.filter_map, List.length_map]
  congr 1
  apply List.filter_congr
  intro c _
  rw [Bool.eq_iff_iff, isChunked_iff]
  simp

/-- The last coding is `chunked`. -/
theorem getLast_chunked (cs : List Bytes) :
    (cs.getLast?.any fun c => Bytes.asciiEqIgnoreCase c (ascii "chunked")) = true ↔
      (cs.map lower).getLast? = some (ascii "chunked") := by
  rw [List.getLast?_map]
  cases cs.getLast? with
  | none => exact ⟨nofun, nofun⟩
  | some c =>
      show Bytes.asciiEqIgnoreCase c (ascii "chunked") = true ↔ some (lower c) = some (ascii "chunked")
      rw [isChunked_iff, Option.some.injEq]

/-- Some of the codings is not `identity`. -/
theorem any_not_identity (cs : List Bytes) :
    (cs.any fun c => !Bytes.asciiEqIgnoreCase c (ascii "identity")) = true ↔ ¬∀ c ∈ cs.map lower, c = ascii "identity" := by
  rw [List.any_eq_true, List.forall_mem_map]
  constructor
  · rintro ⟨c, hmem, hc⟩ hall
    rw [isIdentity_iff.mpr (hall c hmem)] at hc
    cases hc
  · intro h
    by_contra hno
    apply h
    intro c hmem
    by_contra hc
    refine hno ⟨c, hmem, ?_⟩
    rw [Bool.not_eq_true', ← Bool.not_eq_true, isIdentity_iff]
    exact hc

theorem ChunkedLast.not_identity {cs : List Bytes} (h : ChunkedLast cs) : ¬∀ c ∈ cs, c = ascii "identity" := by
  obtain ⟨front, rfl, -⟩ := h
  intro hall
  exact absurd (hall (ascii "chunked") (by simp)) (by decide)

theorem ChunkedLast.not_misplaced {cs : List Bytes} (h : ChunkedLast cs) : ¬MisplacedChunked cs := by
  obtain ⟨front, rfl, hfront⟩ := h
  have hnone : ascii "chunked" ∉ front := fun hmem => absurd (hfront _ hmem) (by decide)
  rintro (hcount | ⟨-, hlast⟩)
  · rw [List.count_append, List.count_eq_zero_of_not_mem hnone] at hcount
    simp at hcount
  · exact hlast List.getLast?_concat

theorem not_misplaced_of_identity {cs : List Bytes} (h : ∀ c ∈ cs, c = ascii "identity") : ¬MisplacedChunked cs := by
  have hnone : ascii "chunked" ∉ cs := fun hmem => absurd (h _ hmem) (by decide)
  rintro (hcount | ⟨hmem, -⟩)
  · rw [List.count_eq_zero_of_not_mem hnone] at hcount
    omega
  · exact hnone hmem

/-- **`TransferCodings::parse`** on headers with at least one `Transfer-Encoding`. -/
theorem TransferCodings.parse_cases {headers : List Header} (h : valuesOf (ascii "Transfer-Encoding") headers ≠ []) :
    MisplacedChunked (codings headers) ∧ parse headers = .error .invalidTransferEncoding ∨
      ¬MisplacedChunked (codings headers) ∧
        (ChunkedLast (codings headers) ∧ parse headers = .ok .chunked ∨
          (∀ c ∈ codings headers, c = ascii "identity") ∧ parse headers = .ok .identity ∨
          ¬ChunkedLast (codings headers) ∧ ¬(∀ c ∈ codings headers, c = ascii "identity") ∧
            parse headers = .error .unsupportedTransferCoding) := by
  unfold parse
  rw [codings_eq h, filter_known]
  dsimp only
  rw [if_neg (by rwa [List.isEmpty_iff])]
  show _ ∧ _ ∨ _
  generalize hcs : (valuesOf (ascii "Transfer-Encoding") headers).flatMap ofValue = cs
  rw [show KnownHeader.transferEncoding.canonical = ascii "Transfer-Encoding" from rfl, hcs]
  by_cases hempty : cs.isEmpty = true
  · rw [if_pos hempty, List.isEmpty_iff.mp hempty]
    have hall : ∀ c ∈ ([] : List Bytes).map lower, c = ascii "identity" := nofun
    exact .inr ⟨not_misplaced_of_identity hall, .inr (.inl ⟨hall, rfl⟩)⟩
  rw [if_neg hempty, length_filter_chunked]
  by_cases hcount : 1 < (cs.map lower).count (ascii "chunked")
  · rw [if_pos hcount]
    exact .inl ⟨.inl hcount, rfl⟩
  rw [if_neg hcount]
  by_cases hlast : (cs.map lower).getLast? = some (ascii "chunked")
  · -- `chunked` is the last coding, and there is no other
    rw [getLast_chunked cs |>.mpr hlast, if_neg (by simp)]
    obtain ⟨front, hfront⟩ := List.getLast?_eq_some_iff.mp hlast
    have hdrop : cs.dropLast.map lower = front := by rw [List.map_dropLast, hfront, List.dropLast_concat]
    have hmisplaced : ¬MisplacedChunked (cs.map lower) := by
      rintro (h | ⟨-, h⟩)
      · exact hcount h
      · exact h hlast
    refine .inr ⟨hmisplaced, ?_⟩
    by_cases hall : ∀ c ∈ front, c = ascii "identity"
    · have hno : ¬(cs.dropLast.any fun c => !Bytes.asciiEqIgnoreCase c (ascii "identity")) = true := by
        rw [any_not_identity, hdrop]
        exact not_not_intro hall
      rw [if_pos rfl, if_neg hno, if_pos rfl]
      exact .inl ⟨⟨front, hfront, hall⟩, rfl⟩
    · have hyes : (cs.dropLast.any fun c => !Bytes.asciiEqIgnoreCase c (ascii "identity")) = true := by
        rw [any_not_identity, hdrop]
        exact hall
      rw [if_pos rfl, if_pos hyes]
      refine .inr (.inr ⟨?_, ?_, rfl⟩)
      · rintro ⟨front', heq, hall'⟩
        rw [hfront] at heq
        rw [(List.append_inj' heq rfl).1] at hall
        exact hall hall'
      · intro hid
        rw [hfront] at hid
        exact hall fun c hmem => hid c (List.mem_append_left _ hmem)
  · have hfinal : (cs.getLast?.any fun c => Bytes.asciiEqIgnoreCase c (ascii "chunked")) = false := by
      rw [← Bool.not_eq_true, getLast_chunked]
      exact hlast
    rw [hfinal]
    by_cases hmem : ascii "chunked" ∈ cs.map lower
    · have hone : (cs.map lower).count (ascii "chunked") = 1 := by
        have hpos := List.count_pos_iff.mpr hmem
        omega
      rw [if_pos ⟨hone, rfl⟩]
      exact .inl ⟨.inr ⟨hmem, hlast⟩, rfl⟩
    · rw [List.count_eq_zero_of_not_mem hmem, if_neg (by simp)]
      have hmisplaced : ¬MisplacedChunked (cs.map lower) := by
        rintro (h | ⟨h, -⟩)
        · exact hcount h
        · exact hmem h
      refine .inr ⟨hmisplaced, .inr ?_⟩
      by_cases hall : ∀ c ∈ cs.map lower, c = ascii "identity"
      · have hno : ¬(cs.any fun c => !Bytes.asciiEqIgnoreCase c (ascii "identity")) = true := by
          rw [any_not_identity]
          exact not_not_intro hall
        rw [if_neg Bool.false_ne_true, if_neg hno, if_neg Bool.false_ne_true]
        exact .inl ⟨hall, rfl⟩
      · have hyes : (cs.any fun c => !Bytes.asciiEqIgnoreCase c (ascii "identity")) = true := by
          rw [any_not_identity]
          exact hall
        rw [if_neg Bool.false_ne_true, if_pos hyes]
        refine .inr ⟨?_, hall, rfl⟩
        rintro ⟨front, heq, -⟩
        exact hmem (by rw [heq]; simp)

/-! ## Content-Length -/

theorem declares_iff {value : Bytes} {n : Nat} : Bytes.parseU64 value = some n ↔ Declares value n := Bytes.parseU64_iff

theorem Declares.unique {value : Bytes} {m n : Nat} (hm : Declares value m) (hn : Declares value n) : m = n :=
  hm.2.1.symm.trans hn.2.1

namespace BodyFraming

theorem valuesOf_cons (h : Header) (rest : List Header) : valuesOf (ascii "Content-Length") (h :: rest) =
    if h.name.eq (.known .contentLength) then h.value :: valuesOf (ascii "Content-Length") rest
    else valuesOf (ascii "Content-Length") rest := by
  show valuesOf KnownHeader.contentLength.canonical (h :: rest) = _
  rw [← filter_known]
  show _ = if _ then _ :: valuesOf KnownHeader.contentLength.canonical rest else valuesOf KnownHeader.contentLength.canonical rest
  rw [← filter_known, List.filter_cons]
  split <;> rfl

/-- Once a length has been found, every value after it has to declare that length. -/
theorem contentLengthOf_some {n : Nat} (headers : List Header) :
    (∀ v ∈ valuesOf (ascii "Content-Length") headers, Declares v n) ∧ contentLengthOf (some n) headers = .ok (some n) ∨
      (∃ v ∈ valuesOf (ascii "Content-Length") headers, ¬Declares v n) ∧
        contentLengthOf (some n) headers = .error .invalidContentLength := by
  induction headers with
  | nil => exact .inl ⟨nofun, rfl⟩
  | cons h rest ih =>
      unfold contentLengthOf
      rw [valuesOf_cons]
      by_cases hname : h.name.eq (.known .contentLength) = true
      · rw [if_pos hname, if_pos hname]
        cases hparse : Bytes.parseU64 h.value with
        | none =>
            refine .inr ⟨⟨h.value, List.mem_cons_self, ?_⟩, rfl⟩
            intro hdec
            rw [declares_iff.mpr hdec] at hparse
            cases hparse
        | some m =>
            have hdec := declares_iff.mp hparse
            by_cases hm : m = n
            · subst hm
              show _ ∧ (if (decide (m ≠ m)) = true then _ else _) = _ ∨ _ ∧ (if (decide (m ≠ m)) = true then _ else _) = _
              rw [if_neg (by simp)]
              rcases ih with ⟨hall, hok⟩ | ⟨⟨v, hmem, hv⟩, herr⟩
              · exact .inl ⟨List.forall_mem_cons.mpr ⟨hdec, hall⟩, hok⟩
              · exact .inr ⟨⟨v, List.mem_cons_of_mem _ hmem, hv⟩, herr⟩
            · show _ ∧ (if (decide (n ≠ m)) = true then _ else _) = _ ∨ _ ∧ (if (decide (n ≠ m)) = true then _ else _) = _
              rw [if_pos (by simpa using Ne.symm hm)]
              exact .inr ⟨⟨h.value, List.mem_cons_self, fun hn => hm (hdec.unique hn)⟩, rfl⟩
      · rw [if_neg hname, if_neg hname]
        exact ih

/-- **The loop over `Content-Length`.** -/
theorem contentLengthOf_none (headers : List Header) :
    valuesOf (ascii "Content-Length") headers = [] ∧ contentLengthOf Option.none headers = .ok Option.none ∨
      valuesOf (ascii "Content-Length") headers ≠ [] ∧
        ((∃ n, (∀ v ∈ valuesOf (ascii "Content-Length") headers, Declares v n) ∧
            contentLengthOf Option.none headers = .ok (some n)) ∨
          (¬∃ n, ∀ v ∈ valuesOf (ascii "Content-Length") headers, Declares v n) ∧
            contentLengthOf Option.none headers = .error .invalidContentLength) := by
  induction headers with
  | nil => exact .inl ⟨rfl, rfl⟩
  | cons h rest ih =>
      unfold contentLengthOf
      rw [valuesOf_cons]
      by_cases hname : h.name.eq (.known .contentLength) = true
      · rw [if_pos hname, if_pos hname]
        refine .inr ⟨List.cons_ne_nil _ _, ?_⟩
        cases hparse : Bytes.parseU64 h.value with
        | none =>
            refine .inr ⟨?_, rfl⟩
            rintro ⟨n, hall⟩
            rw [declares_iff.mpr (hall h.value List.mem_cons_self)] at hparse
            cases hparse
        | some m =>
            have hdec := declares_iff.mp hparse
            rcases contentLengthOf_some (n := m) rest with ⟨hall, hok⟩ | ⟨⟨v, hmem, hv⟩, herr⟩
            · exact .inl ⟨m, List.forall_mem_cons.mpr ⟨hdec, hall⟩, hok⟩
            · refine .inr ⟨?_, herr⟩
              rintro ⟨n, hall⟩
              have hmn : m = n := hdec.unique (hall h.value List.mem_cons_self)
              subst hmn
              exact hv (hall v (List.mem_cons_of_mem _ hmem))
      · rw [if_neg hname, if_neg hname]
        exact ih

/-! ## The rules -/

theorem contentless_iff {status : StatusCode} {method : Method} :
    (status.isInformational ∨ status = .NO_CONTENT ∨ status = .NOT_MODIFIED ∨
      !method.responseCanHaveContent status) ↔ Contentless status method := by
  have hcode : ∀ s : StatusCode, status = s ↔ status.code = s.code := by
    intro s
    cases status
    cases s
    simp
  rw [hcode, hcode]
  unfold Contentless StatusCode.isInformational
  cases method with
  | head => simp [Method.responseCanHaveContent]
  | connect =>
      simp [Method.responseCanHaveContent, StatusCode.isSuccess, StatusCode.NO_CONTENT, StatusCode.NOT_MODIFIED]
  | _ => simp [Method.responseCanHaveContent, StatusCode.NO_CONTENT, StatusCode.NOT_MODIFIED]

/-- The framing rules for a response: no content by its status or method, else its codings, else its lengths. -/
structure Follows (status : StatusCode) (method : Method) (headers : List Header)
    (r : Except ParseError BodyFraming) : Prop where
  none : r = .ok .none ↔ Contentless status method
  codings : ¬Contentless status method → valuesOf (ascii "Transfer-Encoding") headers ≠ [] →
    CodingRules (codings headers) r
  lengths : ¬Contentless status method → valuesOf (ascii "Transfer-Encoding") headers = [] →
    LengthRules (valuesOf (ascii "Content-Length") headers) r

theorem filter_transferEncoding (headers : List Header) :
    TransferCodings.parse headers = .ok .absent ↔ valuesOf (ascii "Transfer-Encoding") headers = [] := by
  constructor
  · intro h
    by_contra hne
    rcases TransferCodings.parse_cases hne with ⟨-, hr⟩ | ⟨-, ⟨-, hr⟩ | ⟨-, hr⟩ | ⟨-, -, hr⟩⟩ <;>
      · rw [hr] at h
        cases h
  · intro h
    unfold TransferCodings.parse
    rw [filter_known]
    dsimp only
    rw [show KnownHeader.transferEncoding.canonical = ascii "Transfer-Encoding" from rfl, h]
    rfl

/-- With content, the codings come first. -/
theorem fromResponse_content {status : StatusCode} {method : Method} (h : ¬Contentless status method)
    (headers : List Header) : fromResponse status method headers = do
      match ← TransferCodings.parse headers with
      | .chunked => return .chunked
      | .identity => return .untilClose
      | .absent =>
        match ← contentLengthOf Option.none headers with
        | some len => return .contentLength len
        | Option.none => return .untilClose := by
  unfold fromResponse
  rewrite [if_neg (fun hcond => h (contentless_iff.mp hcond))]
  rfl

/-- A response framed by its codings. -/
theorem codingRules {status : StatusCode} {method : Method} {headers : List Header} (h : ¬Contentless status method)
    (hte : valuesOf (ascii "Transfer-Encoding") headers ≠ []) :
    CodingRules (Xibalba.codings headers) (fromResponse status method headers) := by
  rw [fromResponse_content h]
  rcases TransferCodings.parse_cases hte with ⟨hm, hr⟩ | ⟨hm, ⟨hlast, hr⟩ | ⟨hall, hr⟩ | ⟨hlast, hall, hr⟩⟩
  · have hlast : ¬ChunkedLast (Xibalba.codings headers) := fun hlast => hlast.not_misplaced hm
    have hall : ¬∀ c ∈ Xibalba.codings headers, c = ascii "identity" := fun hall => not_misplaced_of_identity hall hm
    rw [hr]
    exact ⟨⟨nofun, fun h => absurd h hlast⟩, ⟨nofun, fun h => absurd h hall⟩, ⟨fun _ => hm, fun _ => rfl⟩,
      ⟨nofun, fun h => absurd hm h.2.2⟩⟩
  · rw [hr]
    exact ⟨⟨fun _ => hlast, fun _ => rfl⟩, ⟨nofun, fun h => absurd h hlast.not_identity⟩, ⟨nofun, fun h => absurd h hm⟩,
      ⟨nofun, fun h => absurd hlast h.1⟩⟩
  · rw [hr]
    exact ⟨⟨nofun, fun h => absurd hall h.not_identity⟩, ⟨fun _ => hall, fun _ => rfl⟩, ⟨nofun, fun h => absurd h hm⟩,
      ⟨nofun, fun h => absurd hall h.2.1⟩⟩
  · rw [hr]
    exact ⟨⟨nofun, fun h => absurd h hlast⟩, ⟨nofun, fun h => absurd h hall⟩, ⟨nofun, fun h => absurd h hm⟩,
      ⟨fun _ => ⟨hlast, hall, hm⟩, fun _ => rfl⟩⟩

/-- A response framed by its lengths. -/
theorem lengthRules {status : StatusCode} {method : Method} {headers : List Header} (h : ¬Contentless status method)
    (hte : valuesOf (ascii "Transfer-Encoding") headers = []) :
    LengthRules (valuesOf (ascii "Content-Length") headers) (fromResponse status method headers) := by
  rw [fromResponse_content h, (filter_transferEncoding headers).mpr hte]
  rcases contentLengthOf_none headers with ⟨hnil, hr⟩ | ⟨hne, ⟨n, hall, hr⟩ | ⟨hno, hr⟩⟩
  · show LengthRules _ (contentLengthOf Option.none headers >>= _)
    rw [hr]
    exact ⟨fun _ => ⟨nofun, fun h => absurd hnil h.1⟩, ⟨fun _ => hnil, fun _ => rfl⟩, ⟨nofun, fun h => absurd hnil h.1⟩⟩
  · show LengthRules _ (contentLengthOf Option.none headers >>= _)
    rw [hr]
    refine ⟨fun m => ⟨?_, ?_⟩, ⟨nofun, fun h => absurd h hne⟩, ⟨nofun, fun h => absurd ⟨n, hall⟩ h.2⟩⟩
    · intro heq
      cases heq
      exact ⟨hne, hall⟩
    · rintro ⟨-, hm⟩
      obtain ⟨v, hmem⟩ := List.exists_mem_of_ne_nil _ hne
      rw [(hall v hmem).unique (hm v hmem)]
      rfl
  · show LengthRules _ (contentLengthOf Option.none headers >>= _)
    rw [hr]
    exact ⟨fun n => ⟨nofun, fun h => absurd ⟨n, h.2⟩ hno⟩, ⟨nofun, fun h => absurd h hne⟩, ⟨fun _ => ⟨hne, hno⟩, fun _ => rfl⟩⟩

/-- The codings decide the framing. -/
theorem codingRules_unique {cs : List Bytes} {r r' : Except ParseError BodyFraming} (h : CodingRules cs r)
    (h' : CodingRules cs r') : r = r' := by
  by_cases hlast : ChunkedLast cs
  · rw [h.chunked.mpr hlast, h'.chunked.mpr hlast]
  by_cases hall : ∀ c ∈ cs, c = ascii "identity"
  · rw [h.untilClose.mpr hall, h'.untilClose.mpr hall]
  by_cases hm : MisplacedChunked cs
  · rw [h.misplaced.mpr hm, h'.misplaced.mpr hm]
  · rw [h.unsupported.mpr ⟨hlast, hall, hm⟩, h'.unsupported.mpr ⟨hlast, hall, hm⟩]

/-- **Body framing follows the message rules**, for every list of headers; and where there is a `Transfer-Encoding`,
    nothing counts but its codings. -/
theorem fromResponse_rules (status : StatusCode) (method : Method) (headers : List Header) :
    Follows status method headers (fromResponse status method headers) ∧
      ∀ headers' : List Header, valuesOf (ascii "Transfer-Encoding") headers ≠ [] →
        valuesOf (ascii "Transfer-Encoding") headers' ≠ [] → Xibalba.codings headers = Xibalba.codings headers' →
          fromResponse status method headers = fromResponse status method headers' := by
  have hnone : ∀ headers, fromResponse status method headers = .ok .none ↔ Contentless status method := by
    intro headers
    constructor
    · intro heq
      by_contra h
      by_cases hte : valuesOf (ascii "Transfer-Encoding") headers = []
      · have hrules := lengthRules h hte
        by_cases hcl : valuesOf (ascii "Content-Length") headers = []
        · rw [hrules.untilClose.mpr hcl] at heq
          cases heq
        · by_cases hn : ∃ n, ∀ v ∈ valuesOf (ascii "Content-Length") headers, Declares v n
          · obtain ⟨n, hn⟩ := hn
            rw [(hrules.length n).mpr ⟨hcl, hn⟩] at heq
            cases heq
          · rw [hrules.invalid.mpr ⟨hcl, hn⟩] at heq
            cases heq
      · rw [fromResponse_content h] at heq
        rcases TransferCodings.parse_cases hte with ⟨-, hr⟩ | ⟨-, ⟨-, hr⟩ | ⟨-, hr⟩ | ⟨-, -, hr⟩⟩ <;>
          · rw [hr] at heq
            cases heq
    · intro h
      unfold fromResponse
      rw [if_pos (contentless_iff.mpr h)]
      rfl
  refine ⟨⟨hnone headers, codingRules, lengthRules⟩, fun headers' hte hte' hcs => ?_⟩
  by_cases h : Contentless status method
  · rw [(hnone headers).mpr h, (hnone headers').mpr h]
  · have hrules := codingRules h hte
    rw [hcs] at hrules
    exact codingRules_unique hrules (codingRules h hte')

end BodyFraming

end Xibalba
