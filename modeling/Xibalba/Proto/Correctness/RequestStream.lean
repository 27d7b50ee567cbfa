import Xibalba.Proto.Correctness.RequestLines

/-!
# `Proto.Correctness.RequestStream` — what a server makes of a connection's bytes

A server that reads requests one after the other takes lines up to an empty one, looks for a `Content-Length` among them,
and takes that many bytes as the body; what follows is the next request. This reading of a byte stream belongs to no
function of the source. It is what the bytes a client writes are measured by: `readAll_wires` says that it finds the
requests that were serialized, each with its body, and no others.

Layout:
* the server: `readLine`, `readLines`, `bodyLength`, `readRequest`, `readAll`;
* a request is read from its first bytes on, and never from fewer: `readRequest_append`;
* a serialized request with an honest length, and any number of them.
-/

namespace Xibalba.RequestStream

open Request (requestLine headerText headerPairs)

/-! ## The server -/

/-- The line up to the first CRLF, and what follows it. -/
def readLine : Bytes → Option (Bytes × Bytes)
  | [] => none
  | 0x0d :: 0x0a :: rest => some ([], rest)
  | b :: rest => (readLine rest).map fun r => (b :: r.1, r.2)

/-- The lines up to the first empty one, at most `n` of them, and what follows it. -/
def readLines : Nat → Bytes → Option (List Bytes × Bytes)
  | 0, _ => none
  | n + 1, input => (readLine input).bind fun r =>
    if r.1.isEmpty then some ([], r.2) else (readLines n r.2).map fun rs => (r.1 :: rs.1, rs.2)

/-- The name of a field line, and its value without the white space around it. -/
def fieldOf (line : Bytes) : Bytes × Bytes :=
  let name := line.takeWhile (· != 0x3a)
  (name, Bytes.trimOws (line.drop (name.length + 1)))

/-- `1*DIGIT`. -/
def number (value : Bytes) : Option Nat :=
  if value.isEmpty || value.any (!isAsciiDigit ·) then none
  else some (value.foldl (fun n b => 10 * n + (b.toNat - 0x30)) 0)

def hasName (name : String) (field : Bytes × Bytes) : Bool := Bytes.asciiEqIgnoreCase field.1 (ascii name)

/-- The length of the body behind these fields. A `Transfer-Encoding` or more than one `Content-Length` is refused. -/
def bodyLength (fields : List (Bytes × Bytes)) : Option Nat :=
  if fields.any (hasName "Transfer-Encoding") then none
  else
    match fields.filter (hasName "Content-Length") with
    | [] => some 0
    | [field] => number field.2
    | _ => none

/-- A request as it was read. -/
structure Received where
  line : Bytes
  fields : List (Bytes × Bytes)
  body : Bytes
deriving DecidableEq

/-- The first request of a byte stream, if all of it is there, and what follows it. -/
def readRequest (input : Bytes) : Option (Received × Bytes) :=
  (readLines input.length input).bind fun head =>
    (bodyLength (head.1.tail.map fieldOf)).bind fun len =>
      if head.1.isEmpty || head.2.length < len then none
      else some (⟨head.1.headD [], head.1.tail.map fieldOf, head.2.take len⟩, head.2.drop len)

/-- The first `n` requests, and what is left. -/
def readRequests : Nat → Bytes → List Received × Bytes
  | 0, input => ([], input)
  | n + 1, input =>
    match readRequest input with
    | none => ([], input)
    | some r => (r.1 :: (readRequests n r.2).1, (readRequests n r.2).2)

/-- The requests of a byte stream, and what is left. A request is not empty, so there are no more of them than bytes. -/
def readAll (input : Bytes) : List Received × Bytes := readRequests (input.length + 1) input

/-! ## More bytes do not change what was read -/

theorem readLine_cons {b : UInt8} (hb : b ≠ 0x0d) (rest : Bytes) :
    readLine (b :: rest) = (readLine rest).map fun r => (b :: r.1, r.2) := by
  rw [readLine]
  intro rest' hcr _
  exact hb hcr

theorem readLine_append {input line rest : Bytes} (h : readLine input = some (line, rest)) (more : Bytes) :
    readLine (input ++ more) = some (line, rest ++ more) := by
  induction input using readLine.induct generalizing line with
  | case1 => cases h
  | case2 rest' =>
      cases h
      rfl
  | case3 b input hcrlf ih =>
      rw [readLine] at h
      · obtain ⟨⟨line', rest'⟩, hline, heq⟩ := Option.map_eq_some_iff.mp h
        obtain ⟨rfl, rfl⟩ := Prod.mk.inj heq
        rw [List.cons_append, readLine]
        · rw [ih hline]
          rfl
        · intro rest'' hb hrest
          cases input with
          | nil => cases hline
          | cons c input => exact hcrlf input hb (by rw [(List.cons.inj hrest).1])
      · exact hcrlf

theorem readLines_append {n m : Nat} {input : Bytes} {lines : List Bytes} {rest : Bytes}
    (h : readLines n input = some (lines, rest)) (hm : n ≤ m) (more : Bytes) :
    readLines m (input ++ more) = some (lines, rest ++ more) := by
  induction n generalizing m input lines with
  | zero => cases h
  | succ n ih =>
      obtain ⟨m, rfl⟩ : ∃ k, m = k + 1 := ⟨m - 1, by omega⟩
      obtain ⟨⟨line, after⟩, hline, h⟩ := Option.bind_eq_some_iff.mp h
      rw [readLines, readLine_append hline, Option.bind_some]
      dsimp only at h ⊢
      by_cases hempty : line.isEmpty
      · rw [if_pos hempty] at h ⊢
        cases h
        rfl
      · rw [if_neg hempty] at h ⊢
        obtain ⟨⟨lines', rest'⟩, hlines, heq⟩ := Option.map_eq_some_iff.mp h
        obtain ⟨rfl, rfl⟩ := Prod.mk.inj heq
        rw [ih hlines (by omega)]
        rfl

/-- **Requests are decided by their bytes.** -/
theorem readRequest_append {input rest : Bytes} {r : Received} (h : readRequest input = some (r, rest)) (more : Bytes) :
    readRequest (input ++ more) = some (r, rest ++ more) := by
  obtain ⟨⟨lines, after⟩, hlines, h⟩ := Option.bind_eq_some_iff.mp h
  obtain ⟨len, hlen, h⟩ := Option.bind_eq_some_iff.mp h
  have hmore := readLines_append hlines (m := (input ++ more).length) (by simp) more
  rw [readRequest, hmore, Option.bind_some, hlen, Option.bind_some]
  dsimp only at h ⊢
  by_cases hshort : (lines.isEmpty || decide (after.length < len)) = true
  · rw [if_pos hshort] at h
    cases h
  · rw [if_neg hshort] at h
    cases h
    simp only [Bool.or_eq_true, decide_eq_true_eq, not_or, Nat.not_lt] at hshort
    have hlong : ¬ (lines.isEmpty || decide ((after ++ more).length < len)) = true := by
      simp only [Bool.or_eq_true, decide_eq_true_eq, not_or, Nat.not_lt, List.length_append]
      exact ⟨hshort.1, by omega⟩
    rw [if_neg hlong, List.take_append_of_le_length hshort.2, List.drop_append_of_le_length hshort.2]

/-- A part of what is one request is none. -/
theorem readRequest_part {whole part : Bytes} {r : Received} (h : readRequest whole = some (r, [])) (hpart : part <+: whole)
    (hne : part ≠ whole) : readRequest part = none := by
  obtain ⟨more, rfl⟩ := hpart
  cases hread : readRequest part with
  | none => rfl
  | some r' =>
      rw [readRequest_append hread more] at h
      have hmore := (List.append_eq_nil_iff.mp (Prod.mk.inj (Option.some.inj h)).2).2
      rw [hmore, List.append_nil] at hne
      exact absurd rfl hne

/-! ## A serialized request -/

theorem readLine_text {text : Bytes} (h : IsLineText text) (rest : Bytes) :
    readLine (text ++ (ascii "\r\n" ++ rest)) = some (text, rest) := by
  induction text with
  | nil => rfl
  | cons b text ih =>
      obtain ⟨hb, htext⟩ := List.forall_mem_cons.mp h
      rw [List.cons_append, readLine_cons hb.1, ih htext]
      rfl

theorem readLines_texts {texts : List Bytes} {n : Nat} (h : ∀ text ∈ texts, IsLineText text ∧ text ≠ []) (hn : texts.length < n)
    (rest : Bytes) :
    readLines n ((texts.flatMap fun text => text ++ ascii "\r\n") ++ (ascii "\r\n" ++ rest)) = some (texts, rest) := by
  induction texts generalizing n with
  | nil =>
      obtain ⟨n, rfl⟩ : ∃ k, n = k + 1 := ⟨n - 1, by simp at hn; omega⟩
      rfl
  | cons text texts ih =>
      obtain ⟨n, rfl⟩ : ∃ k, n = k + 1 := ⟨n - 1, by simp at hn; omega⟩
      obtain ⟨⟨htext, hne⟩, htexts⟩ := List.forall_mem_cons.mp h
      rw [List.flatMap_cons, List.append_assoc, List.append_assoc, readLines, readLine_text htext, Option.bind_some]
      dsimp only
      rw [if_neg (by rwa [List.isEmpty_iff]), ih htexts (by simpa using hn)]
      rfl

theorem fieldOf_headerText {h : Header} (hvalid : Request.isHeaderValid h = true) :
    fieldOf (headerText h) = (h.name.asBytes, Bytes.trimOws h.value) := by
  have hname : ∀ b ∈ h.name.asBytes, (b != 0x3a) = true := by
    intro b hb
    rw [bne_iff_ne]
    rintro rfl
    exact absurd ((Request.headerField hvalid).name _ hb) (by decide)
  have htake : (headerText h).takeWhile (· != 0x3a) = h.name.asBytes := by
    unfold Request.headerText
    rw [List.takeWhile_append_of_pos hname]
    simp
  unfold fieldOf
  dsimp only
  rw [htake]
  congr 1
  unfold Request.headerText
  rw [List.drop_length_add_append]
  rfl

theorem fields_headerTexts {headers : List Header} (h : ∀ x ∈ headers, Request.isHeaderValid x = true) :
    (headers.map headerText).map fieldOf = headers.map fun x => (x.name.asBytes, Bytes.trimOws x.value) := by
  rw [List.map_map]
  exact List.map_congr_left fun x hx => fieldOf_headerText (h x hx)

/-- **A serialized request** is read with the body its fields announce, whatever follows it. -/
theorem readRequest_wire {r : Request} (hr : r.validate = .ok ()) {body : Bytes}
    (hlen : bodyLength r.headerPairs = some body.length) (rest : Bytes) :
    readRequest (r.wire ++ (body ++ rest)) = some (⟨r.requestLine, r.headerPairs, body⟩, rest) := by
  have htexts : ∀ text ∈ r.requestLine :: r.headers.map headerText, IsLineText text ∧ text ≠ [] := by
    refine List.forall_mem_cons.mpr ⟨⟨Request.requestLine_text hr, ?_⟩, fun text ht => ?_⟩
    · unfold Request.requestLine
      simp
    · obtain ⟨h, hh, rfl⟩ := List.mem_map.mp ht
      refine ⟨Request.headerText_text ((Request.validate_iff.mp hr).2.2.2 h hh), ?_⟩
      unfold Request.headerText
      simp
  have hwire : r.wire ++ (body ++ rest) =
      ((r.requestLine :: r.headers.map headerText).flatMap fun text => text ++ ascii "\r\n") ++
        (ascii "\r\n" ++ (body ++ rest)) := by
    rw [Request.wire_lines, List.flatMap_cons]
    simp only [List.append_assoc]
  have hfuel : (r.requestLine :: r.headers.map headerText).length < (r.wire ++ (body ++ rest)).length := by
    have hlines : ∀ texts : List Bytes, texts.length ≤ (texts.flatMap fun text => text ++ ascii "\r\n").length := by
      intro texts
      induction texts with
      | nil => exact Nat.le_refl _
      | cons text texts ih =>
          rw [List.flatMap_cons, List.length_append, List.length_cons, List.length_append]
          have h2 : (ascii "\r\n").length = 2 := by decide
          omega
    have h2 : (ascii "\r\n").length = 2 := by decide
    have hle := hlines (r.requestLine :: r.headers.map headerText)
    rw [hwire, List.length_append, List.length_append]
    omega
  have hlines := readLines_texts htexts hfuel (body ++ rest)
  rw [← hwire] at hlines
  have hfields : (r.headers.map headerText).map fieldOf = r.headerPairs :=
    fields_headerTexts (Request.validate_iff.mp hr).2.2.2
  rw [readRequest, hlines, Option.bind_some]
  dsimp only [List.tail_cons]
  rw [hfields, hlen, Option.bind_some, if_neg]
  · rw [List.take_left, List.drop_left]
    rfl
  · simp

/-! ## Any number of requests -/

/-- A request and its body. -/
def bytes (x : Request × Bytes) : Bytes := x.1.wire ++ x.2

/-- A request that can be serialized, and announces the length of its body. -/
structure Honest (x : Request × Bytes) : Prop where
  valid : x.1.validate = .ok ()
  length : bodyLength x.1.headerPairs = some x.2.length

def received (x : Request × Bytes) : Received := ⟨x.1.requestLine, x.1.headerPairs, x.2⟩

theorem readRequest_bytes {x : Request × Bytes} (hx : Honest x) (rest : Bytes) :
    readRequest (bytes x ++ rest) = some (received x, rest) := by
  rw [bytes, List.append_assoc]
  exact readRequest_wire hx.valid hx.length rest

theorem bytes_ne_nil (x : Request × Bytes) : bytes x ≠ [] := by
  unfold bytes
  rw [Request.wire_lines]
  intro h
  have h2 := congrArg List.length h
  simp only [List.length_append, List.length_nil] at h2
  have hcr : (ascii "\r\n").length = 2 := by decide
  omega

/-- **Whole requests and a part of one.** The server finds the requests, each with its body, and waits for the rest. -/
theorem readAll_wires {xs : List (Request × Bytes)} (hxs : ∀ x ∈ xs, Honest x) {part : Bytes}
    (hpart : readRequest part = none) : readAll (xs.flatMap bytes ++ part) = (xs.map received, part) := by
  have hreads : ∀ n, xs.length < n → readRequests n (xs.flatMap bytes ++ part) = (xs.map received, part) := by
    induction xs with
    | nil =>
        intro n hn
        obtain ⟨n, rfl⟩ : ∃ k, n = k + 1 := ⟨n - 1, by simp at hn; omega⟩
        rw [List.flatMap_nil, List.nil_append, readRequests, hpart]
        rfl
    | cons x xs ih =>
        intro n hn
        obtain ⟨n, rfl⟩ : ∃ k, n = k + 1 := ⟨n - 1, by simp at hn; omega⟩
        obtain ⟨hx, hxs⟩ := List.forall_mem_cons.mp hxs
        rw [List.flatMap_cons, List.append_assoc, readRequests, readRequest_bytes hx]
        dsimp only
        rw [ih hxs n (by simpa using hn)]
        rfl
  have hlen : ∀ xs : List (Request × Bytes), xs.length ≤ (xs.flatMap bytes).length := by
    intro xs
    induction xs with
    | nil => exact Nat.le_refl _
    | cons x xs ih =>
        have hpos := List.length_pos_iff.mpr (bytes_ne_nil x)
        rw [List.flatMap_cons, List.length_append, List.length_cons]
        omega
  have hle := hlen xs
  refine hreads _ ?_
  rw [List.length_append]
  omega

end Xibalba.RequestStream
