import Xibalba.Lib.Split
import Xibalba.Proto.Request
import Xibalba.Proto.Correctness.HeadGrammar
import Xibalba.Proto.Correctness.Text

/-!
# `Proto.Correctness.RequestLines` — a serialized request head decodes uniquely

The bytes of a request that `validate` accepts are lines: one request line, one line for each header and an empty one.
Nothing in a line ends it early, so a reader that cuts at CRLF finds these lines and no others, and what it reads in them
is what the request says.

Layout:
* `crlfPieces`, cutting at CRLF;
* the lines of an accepted request;
* a header line, read by `parse_header_line`;
* `wire_decodes`, and two requests with the same bytes.
-/

namespace Xibalba

/-! ## Cutting at CRLF -/

/-- The pieces between one CRLF and the next. -/
def crlfPieces : Bytes → List Bytes
  | [] => [[]]
  | 0x0d :: 0x0a :: rest => [] :: crlfPieces rest
  | b :: rest => (crlfPieces rest).modifyHead (b :: ·)

/-- Text without CR and LF, as a line may hold it. -/
def IsLineText (text : Bytes) : Prop := ∀ b ∈ text, b ≠ 0x0d ∧ b ≠ 0x0a

theorem crlfPieces_cons {b : UInt8} (hb : b ≠ 0x0d) (rest : Bytes) :
    crlfPieces (b :: rest) = (crlfPieces rest).modifyHead (b :: ·) := by
  rw [crlfPieces]
  intro rest' hcr _
  exact hb hcr

/-- A line is the first piece. -/
theorem crlfPieces_line {text : Bytes} (h : IsLineText text) (rest : Bytes) :
    crlfPieces (text ++ (ascii "\r\n" ++ rest)) = text :: crlfPieces rest := by
  induction text with
  | nil => rfl
  | cons b text ih =>
      obtain ⟨hb, htext⟩ := List.forall_mem_cons.mp h
      rw [List.cons_append, crlfPieces_cons hb.1, ih htext]
      rfl

theorem crlfPieces_lines {texts : List Bytes} (h : ∀ text ∈ texts, IsLineText text) (rest : Bytes) :
    crlfPieces ((texts.flatMap fun text => text ++ ascii "\r\n") ++ rest) = texts ++ crlfPieces rest := by
  induction texts with
  | nil => rfl
  | cons text texts ih =>
      obtain ⟨htext, htexts⟩ := List.forall_mem_cons.mp h
      rw [List.flatMap_cons, List.append_assoc, List.append_assoc, crlfPieces_line htext, ih htexts]
      rfl

namespace Request

open ResponseHead (IsText Field)

/-! ## The lines of a request -/

/-- The request target: the path, then the query behind its question mark. -/
def target (r : Request) : Bytes :=
  r.path ++ match r.query with
    | some query => 0x3f :: query
    | none => []

/-- Method, target and version. -/
def requestLine (r : Request) : Bytes := r.method.asBytes ++ 0x20 :: (r.target ++ 0x20 :: r.version.asBytes)

/-- A header line without its CRLF. -/
def headerText (h : Header) : Bytes := h.name.asBytes ++ 0x3a :: 0x20 :: h.value

theorem headerLine_eq (h : Header) : headerLine h = headerText h ++ ascii "\r\n" := by
  unfold headerLine headerText
  rw [show ascii ": " = [0x3a, 0x20] by decide]
  simp only [List.append_assoc, List.cons_append, List.nil_append]

/-- The head is its lines. -/
theorem wire_lines (r : Request) : r.wire =
    r.requestLine ++ (ascii "\r\n" ++ ((r.headers.map headerText).flatMap (fun text => text ++ ascii "\r\n") ++ ascii "\r\n")) := by
  have hheaders : r.headers.flatMap headerLine = (r.headers.map headerText).flatMap fun text => text ++ ascii "\r\n" := by
    rw [List.flatMap_map]
    exact List.flatMap_congr fun h _ => headerLine_eq h
  unfold wire requestLine target
  rw [hheaders, show ascii " " = [0x20] by decide, show ascii "?" = [0x3f] by decide]
  cases r.query with
  | none => simp only [List.append_assoc, List.cons_append, List.nil_append]
  | some query => simp only [List.append_assoc, List.cons_append, List.nil_append]

/-- What `validate` asks for. -/
theorem validate_iff {r : Request} : r.validate = .ok () ↔
    r.path ≠ [] ∧ (∀ b ∈ r.path, isTargetByte b = true) ∧ (∀ query, r.query = some query → ∀ b ∈ query, isTargetByte b = true) ∧
      ∀ h ∈ r.headers, isHeaderValid h = true := by
  unfold validate
  by_cases hpath : (r.path.isEmpty || r.path.any (!isTargetByte ·)) = true
  · rw [if_pos hpath]
    refine ⟨nofun, ?_⟩
    rintro ⟨hne, hall, -⟩
    rcases Bool.or_eq_true_iff.mp hpath with hempty | hany
    · exact absurd (List.isEmpty_iff.mp hempty) hne
    · obtain ⟨b, hb, hbad⟩ := List.any_eq_true.mp hany
      rw [hall b hb] at hbad
      cases hbad
  rw [if_neg hpath]
  simp only [Bool.or_eq_true, List.isEmpty_iff, List.any_eq_true, Bool.not_eq_true', not_or, not_exists, not_and,
    Bool.not_eq_false] at hpath
  by_cases hquery : (r.query.any fun q => q.any (!isTargetByte ·)) = true
  · rw [if_pos hquery]
    refine ⟨nofun, ?_⟩
    rintro ⟨-, -, hall, -⟩
    obtain ⟨query, hq, hany⟩ := (Option.any_eq_true _ _).mp hquery
    obtain ⟨b, hb, hbad⟩ := List.any_eq_true.mp hany
    rw [hall query hq b hb] at hbad
    cases hbad
  rw [if_neg hquery]
  have hquery : ∀ query, r.query = some query → ∀ b ∈ query, isTargetByte b = true := by
    intro query hq b hb
    by_contra hbad
    apply hquery
    rw [hq, Option.any_some, List.any_eq_true]
    exact ⟨b, hb, by simpa using hbad⟩
  by_cases hheaders : r.headers.all isHeaderValid = true
  · rw [if_pos hheaders]
    exact ⟨fun _ => ⟨hpath.1, hpath.2, hquery, List.all_eq_true.mp hheaders⟩, fun _ => rfl⟩
  · rw [if_neg hheaders]
    exact ⟨nofun, fun h => absurd (List.all_eq_true.mpr h.2.2.2) hheaders⟩

theorem isTargetByte_ne {b : UInt8} (h : isTargetByte b = true) : b ≠ 0x20 ∧ b ≠ 0x0d ∧ b ≠ 0x0a := by
  refine ⟨?_, ?_, ?_⟩ <;>
    · rintro rfl
      exact absurd h (by decide)

theorem method_bytes (m : Method) : ∀ b ∈ m.asBytes, b ≠ 0x20 ∧ b ≠ 0x0d ∧ b ≠ 0x0a := by
  cases m <;> decide +kernel

theorem version_bytes (v : Version) : ∀ b ∈ v.asBytes, b ≠ 0x20 ∧ b ≠ 0x0d ∧ b ≠ 0x0a := by
  cases v <;> decide +kernel

theorem method_inj {m m' : Method} (h : m.asBytes = m'.asBytes) : m = m' := by
  revert h
  cases m <;> cases m' <;> decide

theorem version_inj {v v' : Version} (h : v.asBytes = v'.asBytes) : v = v' := by
  revert h
  cases v <;> cases v' <;> decide

/-- A header of an accepted request is a field that a response could carry too. -/
theorem headerField {h : Header} (hvalid : isHeaderValid h = true) :
    Field.WellFormed ⟨h.name.asBytes, 0x20 :: h.value⟩ := by
  unfold isHeaderValid at hvalid
  simp only [Bool.and_eq_true, Bool.not_eq_true', List.isEmpty_eq_false_iff, List.all_eq_true] at hvalid
  obtain ⟨⟨hne, hname⟩, hvalue⟩ := hvalid
  refine ⟨hne, hname, List.forall_mem_cons.mpr ⟨.inr (by decide), fun b hb => ?_⟩⟩
  rw [List.any_eq_false] at hvalue
  have hb := hvalue b hb
  by_cases htab : b = 0x09
  · exact .inl htab
  · refine .inr ?_
    simpa [htab] using hb

theorem headerText_wire (h : Header) :
    headerText h ++ ascii "\r\n" = Field.wire ⟨h.name.asBytes, 0x20 :: h.value⟩ := by
  unfold headerText Field.wire
  simp only [List.append_assoc, List.cons_append]
  rfl

theorem headerText_text {h : Header} (hvalid : isHeaderValid h = true) : IsLineText (headerText h) := by
  have hf := headerField hvalid
  intro b hb
  rcases List.mem_append.mp hb with hb | hb
  · have hb := hf.name b hb
    constructor <;>
      · rintro rfl
        exact absurd hb (by decide)
  · rcases List.mem_cons.mp hb with rfl | hb
    · decide
    · have hb := hf.raw b hb
      constructor <;>
        · rintro rfl
          unfold IsText at hb
          exact absurd hb (by decide)

section

variable {r : Request} (hr : r.validate = .ok ())

include hr

theorem target_bytes : ∀ b ∈ r.target, b ≠ 0x20 ∧ b ≠ 0x0d ∧ b ≠ 0x0a := by
  obtain ⟨-, hpath, hquery, -⟩ := validate_iff.mp hr
  intro b hb
  rcases List.mem_append.mp hb with hb | hb
  · exact isTargetByte_ne (hpath b hb)
  · cases hq : r.query with
    | none =>
        rw [hq] at hb
        cases hb
    | some query =>
        rw [hq] at hb
        rcases List.mem_cons.mp hb with rfl | hb
        · decide
        · exact isTargetByte_ne (hquery query hq b hb)

theorem requestLine_text : IsLineText r.requestLine := by
  intro b hb
  rcases List.mem_append.mp hb with hb | hb
  · exact (method_bytes _ b hb).2
  · rcases List.mem_cons.mp hb with rfl | hb
    · decide
    · rcases List.mem_append.mp hb with hb | hb
      · exact (target_bytes hr b hb).2
      · rcases List.mem_cons.mp hb with rfl | hb
        · decide
        · exact (version_bytes _ b hb).2

/-- The request line falls at its two spaces into three. -/
theorem requestLine_pieces : r.requestLine.splitOnP (· == 0x20) = [r.method.asBytes, r.target, r.version.asBytes] := by
  have hne : ∀ {w : Bytes}, (∀ b ∈ w, b ≠ 0x20 ∧ b ≠ 0x0d ∧ b ≠ 0x0a) → ∀ b ∈ w, (b == 0x20) = false :=
    fun h b hb => beq_eq_false_iff_ne.mpr (h b hb).1
  unfold requestLine
  rw [List.splitOnP_append_cons_of_forall_mem (hne (method_bytes _)) _ (by rfl),
    List.splitOnP_append_cons_of_forall_mem (hne (target_bytes hr)) _ (by rfl),
    List.splitOnP_eq_singleton (hne (version_bytes _))]

/-- The head falls at CRLF into its lines and an empty one. -/
theorem wire_pieces : crlfPieces r.wire = r.requestLine :: (r.headers.map headerText ++ [[], []]) := by
  have htexts : ∀ text ∈ r.headers.map headerText, IsLineText text := by
    intro text ht
    obtain ⟨h, hh, rfl⟩ := List.mem_map.mp ht
    exact headerText_text ((validate_iff.mp hr).2.2.2 h hh)
  rw [wire_lines, crlfPieces_line (requestLine_text hr), crlfPieces_lines htexts]
  rfl

/-- **A header line**, read by the parser of responses where it stands. -/
theorem parse_headerText {front back : List Header} {h : Header} (hsplit : r.headers = front ++ h :: back) :
    ∃ s, ResponseHead.parseHeaderLine (r.wire.drop (r.requestLine.length + 2 + (front.flatMap headerLine).length)) =
        .ok (s, (headerText h).length + 2) ∧ s.pair = (h.name.asBytes, Bytes.trimOws h.value) := by
  have hf := headerField ((validate_iff.mp hr).2.2.2 h (by rw [hsplit]; simp))
  have hrest : r.wire.drop (r.requestLine.length + 2 + (front.flatMap headerLine).length) =
      Field.wire ⟨h.name.asBytes, 0x20 :: h.value⟩ ++ (back.flatMap headerLine ++ ascii "\r\n") := by
    have hlines : (r.headers.map headerText).flatMap (fun text => text ++ ascii "\r\n") = r.headers.flatMap headerLine := by
      rw [List.flatMap_map]
      exact List.flatMap_congr fun h _ => (headerLine_eq h).symm
    rw [wire_lines, hlines, hsplit, List.flatMap_append, List.flatMap_cons, headerLine_eq, headerText_wire, Nat.add_assoc,
      List.drop_length_add_append, ← List.drop_drop]
    show List.drop _ ((front.flatMap headerLine ++ (_ ++ back.flatMap headerLine)) ++ ascii "\r\n") = _
    rw [List.append_assoc, List.drop_left, List.append_assoc]
  have hlen : (Field.wire ⟨h.name.asBytes, 0x20 :: h.value⟩).length = (headerText h).length + 2 := by
    rw [← headerText_wire, List.length_append]
    rfl
  rw [hrest, ResponseHead.parseHeaderLine_eq (List.append_ne_nil_of_left_ne_nil (ResponseHead.wire_ne_nil _) _),
    ResponseHead.headerLine_wire hf, hlen]
  refine ⟨_, rfl, ?_⟩
  show (h.name.asBytes, ResponseHead.trimTrailingOws ((0x20 :: h.value).dropWhile isOws)) = _
  rw [ResponseHead.trimTrailingOws_dropWhile]
  rfl

end

/-! ## What a reader makes of the bytes -/

/-- The bytes of a request decode into what it says. -/
structure Decodes (r : Request) : Prop where
  lines : crlfPieces r.wire = r.requestLine :: (r.headers.map headerText ++ [[], []])
  texts : IsLineText r.requestLine ∧ ∀ h ∈ r.headers, IsLineText (headerText h)
  spaces : r.requestLine.splitOnP (· == 0x20) = [r.method.asBytes, r.target, r.version.asBytes]
  headers : ∀ front h back, r.headers = front ++ h :: back →
    ∃ s, ResponseHead.parseHeaderLine (r.wire.drop (r.requestLine.length + 2 + (front.flatMap headerLine).length)) =
        .ok (s, (headerText h).length + 2) ∧ s.pair = (h.name.asBytes, Bytes.trimOws h.value)

/-- The names and the values of a request's headers, without the white space around the values. -/
def headerPairs (r : Request) : List (Bytes × Bytes) := r.headers.map fun h => (h.name.asBytes, Bytes.trimOws h.value)

/-- The text of a header line says what the header is. -/
theorem headerText_inj {h h' : Header} (hv : isHeaderValid h = true) (hv' : isHeaderValid h' = true)
    (heq : headerText h = headerText h') : h.name.asBytes = h'.name.asBytes ∧ h.value = h'.value := by
  have hpieces : ∀ {h : Header}, isHeaderValid h = true →
      (headerText h).splitOnP (· == 0x3a) = h.name.asBytes :: (0x20 :: h.value).splitOnP (· == 0x3a) := by
    intro h hv
    refine List.splitOnP_append_cons_of_forall_mem (fun b hb => ?_) _ (by rfl) _
    rw [beq_eq_false_iff_ne]
    rintro rfl
    exact absurd ((headerField hv).name _ hb) (by decide)
  have hname : h.name.asBytes = h'.name.asBytes := by
    have hsplit := hpieces hv
    rw [heq, hpieces hv'] at hsplit
    exact (List.cons.inj hsplit).1.symm
  refine ⟨hname, ?_⟩
  unfold headerText at heq
  rw [hname] at heq
  simpa using heq

theorem headerPairs_inj {hs hs' : List Header} (hv : ∀ h ∈ hs, isHeaderValid h = true)
    (hv' : ∀ h ∈ hs', isHeaderValid h = true) (heq : hs.map headerText = hs'.map headerText) :
    (hs.map fun h => (h.name.asBytes, Bytes.trimOws h.value)) = hs'.map fun h => (h.name.asBytes, Bytes.trimOws h.value) := by
  induction hs generalizing hs' with
  | nil =>
      cases hs' with
      | nil => rfl
      | cons h' hs' => cases heq
  | cons h hs ih =>
      cases hs' with
      | nil => cases heq
      | cons h' hs' =>
          obtain ⟨hh, hhs⟩ := List.forall_mem_cons.mp hv
          obtain ⟨hh', hhs'⟩ := List.forall_mem_cons.mp hv'
          obtain ⟨htext, htexts⟩ := List.cons.inj heq
          obtain ⟨hname, hvalue⟩ := headerText_inj hh hh' htext
          rw [List.map_cons, List.map_cons, hname, hvalue, ih hhs hhs' htexts]

/-- **Serialized request heads decode uniquely.** -/
theorem wire_decodes {r : Request} (hr : r.validate = .ok ()) :
    Decodes r ∧ ∀ r' : Request, r'.validate = .ok () → r'.wire = r.wire →
      r'.method = r.method ∧ r'.target = r.target ∧ r'.version = r.version ∧ r'.headerPairs = r.headerPairs := by
  refine ⟨⟨wire_pieces hr, ⟨requestLine_text hr, fun h hh => headerText_text ((validate_iff.mp hr).2.2.2 h hh)⟩,
    requestLine_pieces hr, fun front h back hsplit => parse_headerText hr hsplit⟩, ?_⟩
  intro r' hr' hwire
  have hpieces := wire_pieces hr'
  rw [hwire, wire_pieces hr] at hpieces
  obtain ⟨hline, htexts⟩ := List.cons.inj hpieces
  have hspaces := requestLine_pieces hr'
  rw [← hline, requestLine_pieces hr] at hspaces
  simp only [List.cons.injEq, and_true] at hspaces
  obtain ⟨hmethod, htarget, hversion⟩ := hspaces
  refine ⟨(method_inj hmethod).symm, htarget.symm, (version_inj hversion).symm, ?_⟩
  exact headerPairs_inj (validate_iff.mp hr').2.2.2 (validate_iff.mp hr).2.2.2 (List.append_cancel_right htexts).symm

/-- A request with a query and a value that has white space around it. -/
def paddedRequest : Request :=
  ⟨.get, ascii "/a", some (ascii "b"), .http11, [⟨.known .host, ascii "h"⟩, ⟨.other (ascii "X"), ascii " y\t"⟩]⟩

theorem wire_decodes_padded : Decodes paddedRequest := (wire_decodes (by decide)).1

end Request

end Xibalba
