import Xibalba.Fuzz.Borrow
import Xibalba.Proto.Correctness.HeadRanges

/-!
# `Fuzz.Correctness.Borrow` — every slice a parser returns points into its input

With or without addresses, the parsers accept the same bytes and find the same in them. A slice is cut from the input, and
a cut stays within what it is cut from.

Layout:
* `Part.In`, and cuts;
* the slices of a head;
* the slices of a URL.
-/

namespace Xibalba.Fuzz

namespace Part

/-- The slice points into the input, or is empty. -/
def In (input : Bytes) (part : Part) : Prop :=
  (∃ start, part.start = some start ∧ start + part.bytes.length ≤ input.length) ∨ part = .literal []

variable {input : Bytes} {part : Part}

theorem in_whole : (whole input).In input := .inl ⟨0, rfl, Nat.le_of_eq (Nat.zero_add _)⟩

theorem In.take (h : part.In input) (n : Nat) : (part.take n).In input := by
  rcases h with ⟨start, hstart, hle⟩ | rfl
  · refine .inl ⟨start, hstart, Nat.le_trans (Nat.add_le_add_left ?_ _) hle⟩
    exact List.length_take_le' n _
  · exact .inr (congrArg (mk none) List.take_nil)

/-- A slice may be cut up to its end. -/
theorem In.drop (h : part.In input) {n : Nat} (hn : n ≤ part.bytes.length) : (part.drop n).In input := by
  rcases h with ⟨start, hstart, hle⟩ | rfl
  · refine .inl ⟨start + n, congrArg (Option.map (· + n)) hstart, ?_⟩
    show start + n + (part.bytes.drop n).length ≤ input.length
    rw [List.length_drop]
    omega
  · exact .inr (congrArg (mk none) List.drop_nil)

end Part

/-! ## Response heads -/

namespace HeadParts

/-- What follows the status line. -/
def finish (buf : Bytes) (slots pos : Nat) (version : Version) (status : StatusCode) (reason : Part) :
    Except ParseError (HeadParts × Nat) := do
  if reason.bytes.any ResponseHead.isCtl then throw .invalidReasonPhrase
  let (headers, consumed) ← ResponseHead.parseHeaders buf (buf.length + 1) pos slots []
  return (⟨version, status, reason, headers⟩, consumed)

/-- Without addresses, the parser is the one that the client uses. -/
theorem parse_head (buf : Bytes) (slots : Nat) :
    (parse buf slots).map (fun r => (r.1.head, r.2)) = ResponseHead.parse buf slots := by
  unfold parse ResponseHead.parse
  cases Bytes.findCrlf buf with
  | none => rfl
  | some statusLineEnd =>
      dsimp only [Part.whole, Part.take, Part.drop]
      by_cases hshort : (buf.take statusLineEnd).length < 12
      · rw [if_pos hshort, if_pos hshort]
        rfl
      rw [if_neg hshort, if_neg hshort]
      cases Version.tryFrom ((buf.take statusLineEnd).take 8) with
      | error e => rfl
      | ok version =>
          dsimp only [Except.bind, bind]
          by_cases hspace : (buf.take statusLineEnd)[8]? ≠ some 0x20
          · rw [if_pos hspace, if_pos hspace]
            rfl
          rw [if_neg hspace, if_neg hspace]
          cases StatusCode.tryFrom (((buf.take statusLineEnd).drop 9).take 3) with
          | error e => rfl
          | ok status =>
              -- what follows is the same for every reason
              have hfinish : ∀ reason : Part, (finish buf slots (statusLineEnd + 2) version status reason).map
                  (fun r => (r.1.head, r.2)) = (do
                    if reason.bytes.any ResponseHead.isCtl then throw .invalidReasonPhrase
                    let (headers, consumed) ← ResponseHead.parseHeaders buf (buf.length + 1) (statusLineEnd + 2) slots []
                    return (⟨version, status, reason.bytes, headers⟩, consumed)) := by
                intro reason
                unfold finish
                split
                · rfl
                · cases ResponseHead.parseHeaders buf (buf.length + 1) (statusLineEnd + 2) slots [] with
                  | error e => rfl
                  | ok r => rfl
              cases (buf.take statusLineEnd)[12]? with
              | none => exact hfinish (.literal [])
              | some b =>
                  dsimp only
                  by_cases hb : b = 0x20
                  · rw [if_pos hb, if_pos hb]
                    exact hfinish ⟨some (0 + 13), _⟩
                  · rw [if_neg hb, if_neg hb]
                    rfl

theorem parse_ok {buf : Bytes} {slots consumed : Nat} {h : HeadParts} (hparse : parse buf slots = .ok (h, consumed)) :
    ResponseHead.parse buf slots = .ok (h.head, consumed) := by
  rw [← parse_head, hparse]
  rfl

theorem parse_error {buf : Bytes} {slots : Nat} {e : ParseError} (hparse : ResponseHead.parse buf slots = .error e) :
    parse buf slots = .error e := by
  rw [← parse_head] at hparse
  cases hparts : parse buf slots with
  | error e' =>
      rw [hparts] at hparse
      cases hparse
      rfl
  | ok r =>
      rw [hparts] at hparse
      cases hparse

/-- The reason is cut from the status line. -/
theorem in_reason {buf : Bytes} {slots consumed : Nat} {h : HeadParts} (hparse : parse buf slots = .ok (h, consumed)) :
    h.reason.In buf := by
  unfold parse at hparse
  cases hline : Bytes.findCrlf buf with
  | none =>
      rw [hline] at hparse
      cases hparse
  | some statusLineEnd =>
      rw [hline] at hparse
      dsimp only at hparse
      have hwhole : ((Part.whole buf).take statusLineEnd).In buf := Part.in_whole.take statusLineEnd
      generalize (Part.whole buf).take statusLineEnd = statusLine at hparse hwhole
      -- the headers leave the reason as it is
      have hfinish : ∀ {version status} {reason : Part}, reason.In buf →
          finish buf slots (statusLineEnd + 2) version status reason = .ok (h, consumed) → h.reason.In buf := by
        intro version status reason hreason hparse
        unfold finish at hparse
        split at hparse
        · cases hparse
        · cases hheaders : ResponseHead.parseHeaders buf (buf.length + 1) (statusLineEnd + 2) slots [] with
          | error e =>
              rw [hheaders] at hparse
              cases hparse
          | ok r =>
              rw [hheaders] at hparse
              cases hparse
              exact hreason
      split at hparse
      · cases hparse
      cases hversion : Version.tryFrom (statusLine.take 8).bytes with
      | error e =>
          rw [hversion] at hparse
          cases hparse
      | ok version =>
          rw [hversion] at hparse
          dsimp only [Except.bind, bind] at hparse
          split at hparse
          · cases hparse
          cases hstatus : StatusCode.tryFrom ((statusLine.drop 9).take 3).bytes with
          | error e =>
              rw [hstatus] at hparse
              cases hparse
          | ok status =>
              rw [hstatus] at hparse
              dsimp only at hparse
              cases hreason : statusLine.bytes[12]? with
              | none =>
                  rw [hreason] at hparse
                  exact hfinish (.inr rfl) hparse
              | some b =>
                  rw [hreason] at hparse
                  dsimp only at hparse
                  split at hparse
                  · refine hfinish (hwhole.drop ?_) hparse
                    obtain ⟨hlt, -⟩ := List.getElem?_eq_some_iff.mp hreason
                    exact hlt
                  · cases hparse

/-- Every slice of a parsed head points into the input. -/
theorem in_parse {buf : Bytes} {slots consumed : Nat} {h : HeadParts} (hparse : parse buf slots = .ok (h, consumed)) :
    ∀ part ∈ h.parts, part.In buf := by
  obtain ⟨hconsumed, -, hwithin⟩ := ResponseHead.parse_within (parse_ok hparse)
  -- a slice of the bytes the head took
  have htaken : ∀ {s : Slice}, s.Within (buf.take consumed) → (Part.ofSlice s).In buf := by
    intro s hs
    refine .inl ⟨s.start, rfl, Nat.le_trans hs.length_le ?_⟩
    rw [List.length_take_of_le hconsumed]
    exact hconsumed
  intro part hpart
  rcases List.mem_cons.mp hpart with rfl | hpart
  · exact in_reason hparse
  · obtain ⟨header, hheader, hpart⟩ := List.mem_flatMap.mp hpart
    obtain ⟨hname, hvalue, -⟩ := hwithin header hheader
    rcases List.mem_cons.mp hpart with rfl | hpart
    · exact htaken hname
    · rw [List.mem_singleton.mp hpart]
      exact htaken hvalue

end HeadParts

/-! ## URLs -/

namespace UrlParts

variable {input : Bytes}

theorem cutAt_bytes (p : UInt8 → Bool) (part : Part) :
    ((cutAt p part).1.bytes, (cutAt p part).2.map Part.bytes) = Url.cutAt p part.bytes := by
  unfold cutAt Url.cutAt
  cases part.bytes.findIdx? p with
  | none => rfl
  | some pos => rfl

/-- Both sides of a cut. -/
theorem in_cutAt {part : Part} (h : part.In input) (p : UInt8 → Bool) :
    (cutAt p part).1.In input ∧ ∀ behind ∈ (cutAt p part).2, behind.In input := by
  unfold cutAt
  cases hpos : part.bytes.findIdx? p with
  | none => exact ⟨h, nofun⟩
  | some pos =>
      obtain ⟨hlt, -⟩ := List.findIdx?_eq_some_iff_getElem.mp hpos
      refine ⟨h.take pos, ?_⟩
      rintro _ ⟨⟩
      exact h.drop hlt

theorem parsePathQueryFragment_bytes (part : Part) :
    ((parsePathQueryFragment part).1.bytes, (parsePathQueryFragment part).2.1.map Part.bytes,
      (parsePathQueryFragment part).2.2.map Part.bytes) = Url.parsePathQueryFragment part.bytes := by
  unfold parsePathQueryFragment Url.parsePathQueryFragment
  split
  next hempty =>
    rw [List.isEmpty_iff.mp hempty]
    rfl
  · have hfragment := cutAt_bytes (· == 0x23) part
    have hquery := cutAt_bytes (· == 0x3f) (cutAt (· == 0x23) part).1
    rw [← hfragment]
    dsimp only
    rw [← hquery]

theorem in_parsePathQueryFragment {part : Part} (h : part.In input) :
    (parsePathQueryFragment part).1.In input ∧ (∀ query ∈ (parsePathQueryFragment part).2.1, query.In input) ∧
      ∀ fragment ∈ (parsePathQueryFragment part).2.2, fragment.In input := by
  unfold parsePathQueryFragment
  split
  · exact ⟨.inr rfl, nofun, nofun⟩
  · obtain ⟨hbefore, hfragment⟩ := in_cutAt h (· == 0x23)
    obtain ⟨hpath, hquery⟩ := in_cutAt hbefore (· == 0x3f)
    exact ⟨hpath, hquery, hfragment⟩

theorem parseAuthority_bytes (authority : Part) :
    (parseAuthority authority).map (fun r => (r.1.bytes, r.2)) = Url.parseAuthority authority.bytes := by
  unfold parseAuthority Url.parseAuthority
  dsimp only [Part.take, Part.drop, Part.literal]
  split
  · rfl
  cases authority.bytes.findIdx? (· == 0x40) with
  | some atSign => rfl
  | none =>
      dsimp only
      split
      · cases authority.bytes.findIdx? (· == 0x5d) with
        | none => rfl
        | some bracketEnd =>
            dsimp only
            cases Url.validateIpLiteral ((authority.bytes.take bracketEnd).drop 1) with
            | error e => rfl
            | ok u =>
                cases authority.bytes.drop (bracketEnd + 1) with
                | nil => rfl
                | cons b rest =>
                    dsimp only [Except.bind, bind]
                    split
                    · cases Url.parsePort rest with
                      | error e => rfl
                      | ok port => rfl
                    · rfl
      · cases Url.rposition (· == 0x3a) authority.bytes with
        | none =>
            dsimp only
            cases Url.validateRegName authority.bytes with
            | error e => rfl
            | ok u => rfl
        | some colonPos =>
            dsimp only
            cases Url.validateRegName (authority.bytes.take colonPos) with
            | error e => rfl
            | ok u =>
                cases Url.parsePort (authority.bytes.drop (colonPos + 1)) with
                | error e => rfl
                | ok port => rfl

/-- The host is cut from the authority. -/
theorem in_parseAuthority {authority host : Part} {port : Option Nat} (hin : authority.In input)
    (h : parseAuthority authority = .ok (host, port)) : host.In input := by
  unfold parseAuthority at h
  split at h
  · cases h
    exact .inr rfl
  split at h
  · cases h
  split at h
  · split at h
    · cases h
    -- a literal in brackets
    next bracketEnd _ =>
      cases hliteral : Url.validateIpLiteral ((authority.take bracketEnd).drop 1).bytes with
      | error e =>
          rw [hliteral] at h
          cases h
      | ok u =>
          rw [hliteral] at h
          dsimp only [Except.bind, bind] at h
          split at h
          · cases h
            exact hin.take _
          next b rest _ =>
            split at h
            · cases hport : Url.parsePort rest with
              | error e =>
                  rw [hport] at h
                  cases h
              | ok n =>
                  rw [hport] at h
                  cases h
                  exact hin.take _
            · cases h
  · split at h
    -- a name in front of a port
    next colonPos _ =>
      dsimp only at h
      cases hname : Url.validateRegName (authority.take colonPos).bytes with
      | error e =>
          rw [hname] at h
          cases h
      | ok u =>
          rw [hname] at h
          dsimp only [Except.bind, bind] at h
          cases hport : Url.parsePort (authority.drop (colonPos + 1)).bytes with
          | error e =>
              rw [hport] at h
              cases h
          | ok n =>
              rw [hport] at h
              cases h
              exact hin.take _
    · cases hname : Url.validateRegName authority.bytes with
      | error e =>
          rw [hname] at h
          cases h
      | ok u =>
          rw [hname] at h
          cases h
          exact hin

/-- Without addresses, the parser is the one that the client uses. -/
theorem parse_url (input : Bytes) : (parse input).map url = Url.parse input := by
  unfold parse Url.parse
  by_cases hempty : input.isEmpty
  · rw [if_pos hempty, if_pos hempty]
    rfl
  rw [if_neg hempty, if_neg hempty]
  cases Bytes.findSubsequence input (ascii "://") with
  | none => rfl
  | some sepPos =>
      dsimp only [Part.whole, Part.take, Part.drop]
      cases Scheme.tryFrom (input.take sepPos) with
      | error e => rfl
      | ok scheme =>
          dsimp only [Except.bind, bind]
          have hauthority : ∀ start bytes,
              (parseAuthority ⟨start, bytes⟩).map (fun r => (r.1.bytes, r.2)) = Url.parseAuthority bytes :=
            fun start bytes => parseAuthority_bytes ⟨start, bytes⟩
          rw [← hauthority]
          generalize parseAuthority _ = authority
          cases authority with
          | error e => rfl
          | ok r =>
              obtain ⟨host, port⟩ := r
              dsimp only [Except.map]
              by_cases hmissing : host.bytes.isEmpty
              · rw [if_pos hmissing, if_pos hmissing]
                rfl
              rw [if_neg hmissing, if_neg hmissing]
              cases host.bytes.findIdx? (!Url.isHostByte ·) with
              | some bad => rfl
              | none =>
                  have htail : ∀ start bytes, ((parsePathQueryFragment ⟨start, bytes⟩).1.bytes,
                      (parsePathQueryFragment ⟨start, bytes⟩).2.1.map Part.bytes,
                      (parsePathQueryFragment ⟨start, bytes⟩).2.2.map Part.bytes) = Url.parsePathQueryFragment bytes :=
                    fun start bytes => parsePathQueryFragment_bytes ⟨start, bytes⟩
                  rw [← htail]
                  rfl

/-- Every slice of a parsed URL points into the input. -/
theorem in_parse {u : UrlParts} (h : parse input = .ok u) :
    u.host.In input ∧ u.path.In input ∧ (∀ query ∈ u.query, query.In input) ∧ ∀ fragment ∈ u.fragment, fragment.In input := by
  unfold parse at h
  by_cases hempty : input.isEmpty
  · rw [if_pos hempty] at h
    cases h
  rw [if_neg hempty] at h
  cases hsep : Bytes.findSubsequence input (ascii "://") with
  | none =>
      rw [hsep] at h
      cases h
  | some sepPos =>
      rw [hsep] at h
      dsimp only [Except.bind, bind] at h
      -- the text behind the scheme, and where the authority ends in it
      have hrest : ((Part.whole input).drop (sepPos + 3)).In input :=
        Part.in_whole.drop (Bytes.length_of_prefix_drop (by decide) (Bytes.findWindow_eq_some hsep))
      generalize (Part.whole input).drop (sepPos + 3) = rest at h hrest
      have hend : (rest.bytes.findIdx? fun b => b == 0x2f || b == 0x3f || b == 0x23).getD rest.bytes.length ≤
          rest.bytes.length := by
        cases hpos : rest.bytes.findIdx? fun b => b == 0x2f || b == 0x3f || b == 0x23 with
        | none => exact Nat.le_refl _
        | some pos =>
            obtain ⟨hlt, -⟩ := List.findIdx?_eq_some_iff_getElem.mp hpos
            exact Nat.le_of_lt hlt
      generalize (rest.bytes.findIdx? fun b => b == 0x2f || b == 0x3f || b == 0x23).getD rest.bytes.length = authorityEnd
        at h hend
      cases hscheme : Scheme.tryFrom ((Part.whole input).take sepPos).bytes with
      | error e =>
          rw [hscheme] at h
          cases h
      | ok scheme =>
          rw [hscheme] at h
          dsimp only at h
          cases hauthority : parseAuthority (rest.take authorityEnd) with
          | error e =>
              rw [hauthority] at h
              cases h
          | ok r =>
              obtain ⟨host, port⟩ := r
              rw [hauthority] at h
              dsimp only at h
              by_cases hmissing : host.bytes.isEmpty
              · rw [if_pos hmissing] at h
                cases h
              rw [if_neg hmissing] at h
              cases hbad : host.bytes.findIdx? (!Url.isHostByte ·) with
              | some bad =>
                  rw [hbad] at h
                  cases h
              | none =>
                  rw [hbad] at h
                  cases h
                  exact ⟨in_parseAuthority (hrest.take authorityEnd) hauthority,
                    in_parsePathQueryFragment (hrest.drop hend)⟩

theorem in_connectionHost {u : UrlParts} (h : u.host.In input) : u.connectionHost.In input := by
  unfold connectionHost
  split
  next hhead _ =>
    refine (h.drop ?_).take _
    rw [Nat.one_le_iff_ne_zero]
    intro hnil
    rw [List.length_eq_zero_iff.mp hnil] at hhead
    cases hhead
  · exact h

theorem connectionHost_bytes (u : UrlParts) : u.connectionHost.bytes = u.url.connectionHost := by
  by_cases hbracketed : u.host.bytes.head? = some 0x5b ∧ u.host.bytes.getLast? = some 0x5d
  · unfold connectionHost Url.connectionHost url
    dsimp only
    rw [hbracketed.1, hbracketed.2]
    rfl
  · have hparts : u.connectionHost = u.host := by
      unfold connectionHost
      split
      next hopen hclose => exact (hbracketed ⟨hopen, hclose⟩).elim
      · rfl
    have hurl : u.url.connectionHost = u.url.host := by
      unfold Url.connectionHost
      split
      next hopen hclose => exact (hbracketed ⟨hopen, hclose⟩).elim
      · rfl
    rw [hparts, hurl]
    rfl

end UrlParts

end Xibalba.Fuzz
