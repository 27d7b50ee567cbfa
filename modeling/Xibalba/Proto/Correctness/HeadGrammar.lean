import Xibalba.Proto.Correctness.HeadParse

/-!
# `Proto.Correctness.HeadGrammar` — the heads `parse` accepts

A response head is a status line, field lines and a blank line. Here they are written down as the bytes they are made
of, and `parse` accepts a buffer exactly when it starts with one, reports what stands in it, and refuses it for the
number of its fields exactly when there are more of them than slots.

Layout:
* `IsStatusLine`, `Field` and the bytes of a head;
* the status line;
* field lines: a well-formed one is read, and what is read is one;
* `parse_grammar_exact`.
-/

namespace Xibalba

/-- The name and the value of a header. -/
def HeaderSlice.pair (h : HeaderSlice) : Bytes × Bytes := (h.name.bytes, h.value.bytes)

namespace ResponseHead

open Parser

/-! ## The grammar -/

/-- HTAB, or a byte from SP on other than DEL. -/
def IsText (b : UInt8) : Prop := b = 0x09 ∨ 0x20 ≤ b ∧ b ≠ 0x7f

/-- A status line without its CRLF. -/
def IsStatusLine (line : Bytes) (version : Version) (status : StatusCode) (reason : Bytes) : Prop :=
  ∃ v s, v.length = 8 ∧ s.length = 3 ∧ Version.tryFrom v = .ok version ∧ StatusCode.tryFrom s = .ok status ∧
    (line = v ++ 0x20 :: s ∧ reason = [] ∨ line = v ++ 0x20 :: (s ++ 0x20 :: reason) ∧ ∀ b ∈ reason, IsText b)

/-- A field as it stands on its line: the name, and what is between the colon and the CRLF. -/
structure Field where
  name : Bytes
  raw : Bytes

namespace Field

structure WellFormed (f : Field) : Prop where
  named : f.name ≠ []
  name : ∀ b ∈ f.name, Tchar.isValid b = true
  raw : ∀ b ∈ f.raw, IsText b

/-- The field line. -/
def wire (f : Field) : Bytes := f.name ++ 0x3a :: (f.raw ++ crlf)

/-- The name as written, and the value without the white space around it. -/
def header (f : Field) : Bytes × Bytes := (f.name, Bytes.trimOws f.raw)

end Field

/-- The lines of these fields. -/
def fieldLines (fields : List Field) : Bytes := fields.flatMap Field.wire

@[simp] theorem fieldLines_cons (f : Field) (fields : List Field) : fieldLines (f :: fields) = f.wire ++ fieldLines fields :=
  List.flatMap_cons

/-! ## Bytes -/

theorem not_isCtl_iff {b : UInt8} : isCtl b = false ↔ IsText b := by
  unfold isCtl IsText
  by_cases hb : b = 0x09
  · subst hb
    decide
  · simp [hb]

theorem nameByte_iff {b : UInt8} : nameByte b = .ok false ↔ Tchar.isValid b = true := by
  unfold nameByte
  by_cases hb : b = 0x3a
  · subst hb
    decide
  · rw [if_neg hb]
    cases Tchar.isValid b with
    | true => exact ⟨fun _ => rfl, fun _ => rfl⟩
    | false => exact ⟨nofun, nofun⟩

theorem valueByte_iff {b : UInt8} : valueByte b = .ok false ↔ IsText b := by
  rw [← not_isCtl_iff]
  unfold valueByte
  cases isCtl b with
  | false => exact ⟨fun _ => rfl, fun _ => rfl⟩
  | true =>
      refine ⟨fun h => ?_, nofun⟩
      split at h
      · split at h
        · cases h
        · cases h
      next hn => exact absurd rfl hn

/-- Removing the leading white space and then the trailing white space is removing both. -/
theorem trimTrailingOws_dropWhile (raw : Bytes) : trimTrailingOws (raw.dropWhile isOws) = Bytes.trimOws raw := by
  unfold trimTrailingOws Bytes.trimOws
  split
  next b hb =>
    split
    · rfl
    next hows =>
      -- the last byte stays, so there is nothing to drop
      obtain ⟨front, hfront⟩ := List.getLast?_eq_some_iff.mp hb
      rw [hfront, List.reverse_append, List.reverse_singleton, List.singleton_append, List.dropWhile_cons_of_neg hows,
        List.reverse_cons, List.reverse_reverse]
  next hnone =>
    rw [List.getLast?_eq_none_iff.mp hnone]
    rfl

/-! ## The status line -/

/-- What `statusOf` makes of a line that is long enough and has its first space where it should be. -/
theorem statusOf_append {v s : Bytes} (hv : v.length = 8) (hs : s.length = 3) (tail : Bytes) :
    statusOf (v ++ 0x20 :: (s ++ tail)) = do
      let version ← Version.tryFrom v
      let status ← StatusCode.tryFrom s
      let reason ← match tail with
        | [] => pure []
        | b :: reason => if b = 0x20 then pure reason else throw .invalidStatusCode
      if reason.any isCtl then throw .invalidReasonPhrase
      return (version, status, reason) := by
  have hlen : ¬(v ++ 0x20 :: (s ++ tail)).length < 12 := by
    simp only [List.length_append, List.length_cons]
    omega
  have htake : (v ++ 0x20 :: (s ++ tail)).take 8 = v := by rw [← hv, List.take_left]
  have hspace : (v ++ 0x20 :: (s ++ tail))[8]? = some 0x20 := by
    rw [List.getElem?_append_right (by omega), hv]
    rfl
  have hstatus : ((v ++ 0x20 :: (s ++ tail)).drop 9).take 3 = s := by
    rw [show 9 = v.length + 1 by omega, List.drop_length_add_append, List.drop_one, List.tail_cons, ← hs, List.take_left]
  have hget : (v ++ 0x20 :: (s ++ tail))[12]? = tail.head? := by
    rw [List.getElem?_append_right (by omega), hv, List.getElem?_cons_succ, List.getElem?_append_right (by omega), hs,
      List.head?_eq_getElem?]
  have hdrop : (v ++ 0x20 :: (s ++ tail)).drop 13 = tail.tail := by
    rw [show 13 = v.length + 5 by omega, List.drop_length_add_append, List.drop_succ_cons,
      show 4 = s.length + 1 by omega, List.drop_length_add_append, List.drop_one]
  unfold statusOf
  rw [if_neg hlen, htake, hspace, hstatus, hget, hdrop]
  cases Version.tryFrom v with
  | error e => rfl
  | ok version =>
      cases tail with
      | nil => rfl
      | cons b reason => rfl

/-- The reason phrase of a status line, and the check on it. -/
theorem reason_ok {α : Type} {reason : Bytes} {k : α} {r : α} :
    (do
      if reason.any isCtl then throw ParseError.invalidReasonPhrase
      return k : Except ParseError α) = .ok r ↔ (∀ b ∈ reason, IsText b) ∧ k = r := by
  cases hany : reason.any isCtl with
  | true =>
      refine ⟨nofun, fun h => ?_⟩
      obtain ⟨b, hb, hctl⟩ := List.any_eq_true.mp hany
      rw [not_isCtl_iff.mpr (h.1 b hb)] at hctl
      cases hctl
  | false =>
      have htext : ∀ b ∈ reason, IsText b := by
        intro b hb
        apply not_isCtl_iff.mp
        have := List.any_eq_false.mp hany b hb
        simpa using this
      constructor
      · intro h
        exact ⟨htext, Except.ok.inj h⟩
      · intro h
        rw [h.2]
        rfl

/-- `statusOf` reads exactly the status lines. -/
theorem statusOf_iff {bytes : Bytes} {version : Version} {status : StatusCode} {reason : Bytes} :
    statusOf bytes = .ok (version, status, reason) ↔ IsStatusLine bytes version status reason := by
  constructor
  · intro h
    have hlen : ¬bytes.length < 12 := by
      intro hlt
      rw [statusOf, if_pos hlt] at h
      cases h
    have hspace : bytes[8]? = some 0x20 := by
      by_contra hne
      rw [statusOf, if_neg hlen] at h
      cases hv : Version.tryFrom (bytes.take 8) with
      | error e =>
          rw [hv] at h
          cases h
      | ok v =>
          rw [hv] at h
          have h : (if bytes[8]? ≠ some 0x20 then Except.error ParseError.invalidVersion else _) = _ := h
          rw [if_pos hne] at h
          cases h
    have hv : (bytes.take 8).length = 8 := by
      rw [List.length_take]
      omega
    have hs : ((bytes.drop 9).take 3).length = 3 := by
      rw [List.length_take, List.length_drop]
      omega
    -- the line is a version, a space, three bytes of a status, and what follows
    have hsplit : bytes = bytes.take 8 ++ 0x20 :: ((bytes.drop 9).take 3 ++ bytes.drop 12) := by
      have hdrop : bytes.drop 8 = 0x20 :: bytes.drop 9 := by
        have hlt : 8 < bytes.length := by omega
        rw [List.drop_eq_getElem_cons hlt]
        congr 1
        rw [List.getElem?_eq_getElem hlt] at hspace
        exact Option.some.inj hspace
      have hrest : (bytes.drop 9).take 3 ++ bytes.drop 12 = bytes.drop 9 := by
        rw [show 12 = 9 + 3 from rfl, ← List.drop_drop, List.take_append_drop]
      rw [hrest, ← hdrop, List.take_append_drop]
    rw [hsplit, statusOf_append hv hs] at h
    cases hversion : Version.tryFrom (bytes.take 8) with
    | error e =>
        rw [hversion] at h
        cases h
    | ok v =>
        cases hstatus : StatusCode.tryFrom ((bytes.drop 9).take 3) with
        | error e =>
            rw [hversion, hstatus] at h
            cases h
        | ok c =>
            rw [hversion, hstatus] at h
            refine ⟨bytes.take 8, (bytes.drop 9).take 3, hv, hs, ?_⟩
            cases htail : bytes.drop 12 with
            | nil =>
                rw [htail] at h hsplit
                cases h
                rw [List.append_nil] at hsplit
                exact ⟨hversion, hstatus, .inl ⟨hsplit, rfl⟩⟩
            | cons b rest =>
                rw [htail] at h hsplit
                by_cases hb : b = 0x20
                · subst hb
                  obtain ⟨htext, heq⟩ := reason_ok.mp h
                  cases heq
                  exact ⟨hversion, hstatus, .inr ⟨hsplit, htext⟩⟩
                · have h : (do
                      let reason ← if b = 0x20 then pure rest else throw ParseError.invalidStatusCode
                      if reason.any isCtl then throw ParseError.invalidReasonPhrase
                      return (v, c, reason) : Except ParseError (Version × StatusCode × Bytes)) = .ok _ := h
                  rw [if_neg hb] at h
                  cases h
  · rintro ⟨v, s, hv, hs, hversion, hstatus, ⟨rfl, rfl⟩ | ⟨rfl, htext⟩⟩
    · have h := statusOf_append hv hs []
      rw [List.append_nil] at h
      rw [h, hversion, hstatus]
      rfl
    · rw [statusOf_append hv hs, hversion, hstatus]
      exact reason_ok.mpr ⟨htext, rfl⟩

/-- A status line holds no CR, so it ends at the first CRLF. -/
theorem IsStatusLine.cr_notMem {line : Bytes} {version : Version} {status : StatusCode} {reason : Bytes}
    (h : IsStatusLine line version status reason) : 0x0d ∉ line := by
  obtain ⟨v, s, -, -, hversion, hstatus, hline⟩ := h
  have hv : 0x0d ∉ v := by
    unfold Version.tryFrom at hversion
    split at hversion
    next heq =>
      rw [heq]
      decide
    next =>
      split at hversion
      next heq =>
        rw [heq]
        decide
      next => cases hversion
  have hs : 0x0d ∉ s := by
    unfold StatusCode.tryFrom at hstatus
    split at hstatus
    next a b c =>
      -- a CR is no digit
      intro hmem
      have hcr : (0x0d - 0x30 : UInt8).toNat > 9 := by decide
      dsimp only at hstatus
      rw [if_pos] at hstatus
      · cases hstatus
      · simp only [List.mem_cons, List.not_mem_nil, or_false] at hmem
        rcases hmem with rfl | rfl | rfl
        · exact .inl hcr
        · exact .inr (.inl hcr)
        · exact .inr (.inr hcr)
    next => cases hstatus
  have hsp : (0x0d : UInt8) ≠ 0x20 := by decide
  rcases hline with ⟨rfl, -⟩ | ⟨rfl, htext⟩
  · simp [hv, hs]
  · have hreason : 0x0d ∉ reason := fun hmem => absurd (htext 0x0d hmem) (by unfold IsText; decide)
    simp [hv, hs, hreason]

theorem upto_crlf {line : Bytes} (h : 0x0d ∉ line) (rest : Bytes) :
    Bytes.upto crlf (line ++ (crlf ++ rest)) = .ok (line, line.length + 2) := by
  have hfind : Bytes.findWindow crlf (line ++ (crlf ++ rest)) = some line.length := by
    have hne : crlf ≠ [] := List.cons_ne_nil _ _
    rw [Bytes.findWindow_iff hne, List.drop_left]
    refine ⟨List.prefix_append crlf rest, ?_⟩
    intro q hq hpre
    rw [List.drop_append_of_le_length (Nat.le_of_lt hq), List.drop_eq_getElem_cons hq] at hpre
    have hget := (List.cons_prefix_cons.mp hpre).1
    exact h (hget ▸ List.getElem_mem hq)
  unfold Bytes.upto
  rw [hfind]
  dsimp only
  rw [List.take_left]
  rfl

theorem statusLine_iff {xs : Bytes} {version : Version} {status : StatusCode} {reason : Bytes} {n : Nat} :
    statusLine xs = .ok ((version, status, reason), n) ↔
      ∃ line rest, IsStatusLine line version status reason ∧ xs = line ++ (crlf ++ rest) ∧ n = line.length + 2 := by
  constructor
  · intro h
    obtain ⟨line, n₁, m, hupto, hstatus, rfl⟩ := Parser.andThen_ok h
    obtain ⟨p, hp, rfl, rfl⟩ := Bytes.upto_ok hupto
    have hof : statusOf (xs.take p) = .ok (version, status, reason) ∧ m = 0 := by
      unfold Parser.of at hstatus
      cases hs : statusOf (xs.take p) with
      | error e =>
          rw [hs] at hstatus
          cases hstatus
      | ok r =>
          rw [hs] at hstatus
          cases hstatus
          exact ⟨rfl, rfl⟩
    obtain ⟨hof, rfl⟩ := hof
    obtain ⟨rest, hrest⟩ := Bytes.findWindow_eq_some hp
    have hple : p ≤ xs.length :=
      Nat.le_trans (Nat.le_add_right _ _) (Bytes.length_of_prefix_drop (List.cons_ne_nil _ _) (Bytes.findWindow_eq_some hp))
    refine ⟨xs.take p, rest, statusOf_iff.mp hof, ?_, ?_⟩
    · rw [hrest, List.take_append_drop]
    · rw [List.length_take_of_le hple]
      rfl
  · rintro ⟨line, rest, hline, rfl, rfl⟩
    unfold statusLine
    rw [Parser.andThen_of_ok (upto_crlf hline.cr_notMem rest), Parser.of, statusOf_iff.mpr hline]
    rfl

/-- The status line is never what makes the headers too many. -/
theorem statusLine_ne_tooMany (xs : Bytes) : statusLine xs ≠ .error .tooManyHeaders := by
  intro h
  have hstatus : ∀ bytes, statusOf bytes ≠ .error .tooManyHeaders := by
    intro bytes h
    have hversion : ∀ v, Version.tryFrom v ≠ .error .tooManyHeaders := by
      intro v
      unfold Version.tryFrom
      split
      · nofun
      · split <;> nofun
    have hcode : ∀ c, StatusCode.tryFrom c ≠ .error .tooManyHeaders := by
      intro c
      unfold StatusCode.tryFrom StatusCode.fromU16
      split
      · dsimp only
        split
        · nofun
        · split <;> nofun
      · nofun
    -- neither sequencing nor a choice makes the error, if their parts do not
    have hbind : ∀ {α β : Type} {x : Except ParseError α} {f : α → Except ParseError β}, x ≠ .error .tooManyHeaders →
        (∀ a, f a ≠ .error .tooManyHeaders) → (x >>= f) ≠ .error .tooManyHeaders := by
      intro α β x f hx hf h
      cases x with
      | error e =>
          cases h
          exact hx rfl
      | ok a => exact hf a h
    have hite : ∀ {α : Type} {c : Prop} [Decidable c] {x y : Except ParseError α}, x ≠ .error .tooManyHeaders →
        y ≠ .error .tooManyHeaders → (if c then x else y) ≠ .error .tooManyHeaders := by
      intro α c _ x y hx hy
      split
      · exact hx
      · exact hy
    revert h
    unfold statusOf
    refine hite nofun (hbind (hversion _) fun v => hite nofun (hbind (hcode _) fun c => ?_))
    have hreason : ∀ reason : Bytes, (if reason.any isCtl then Except.error ParseError.invalidReasonPhrase
        else Except.ok (v, c, reason)) ≠ .error .tooManyHeaders := fun reason => hite nofun nofun
    cases bytes[12]? with
    | none => exact hreason []
    | some b => exact hite (hreason _) nofun
  rcases Parser.andThen_eq_error h with h | ⟨line, n, -, h⟩
  · unfold Bytes.upto at h
    split at h
    · cases h
    · cases h
  · unfold Parser.of at h
    cases hs : statusOf line with
    | error e =>
        rw [hs] at h
        cases h
        exact hstatus line hs
    | ok r =>
        rw [hs] at h
        cases h

/-! ## Field lines -/

theorem headerLine_wire {f : Field} (hf : f.WellFormed) (rest : Bytes) :
    headerLine (f.wire ++ rest) = .ok (headerOf f.name f.raw, f.wire.length) := by
  have hline := headerLine_of hf.named (fun b hb => nameByte_iff.mpr (hf.name b hb)) fun b hb => valueByte_iff.mpr (hf.raw b hb)
  exact stable_headerLine.append hline rest

theorem headerLine_field {xs : Bytes} {h : HeaderSlice} {n : Nat} (hok : headerLine xs = .ok (h, n)) :
    ∃ f rest, Field.WellFormed f ∧ xs = f.wire ++ rest ∧ h = headerOf f.name f.raw ∧ n = f.wire.length := by
  obtain ⟨name, raw, rest, rfl, hnil, hname, hraw, rfl, rfl⟩ := headerLine_parts hok
  refine ⟨⟨name, raw⟩, rest, ⟨hnil, ?_, ?_⟩, ?_, rfl, ?_⟩
  · exact fun b hb => nameByte_iff.mp (hname b hb)
  · exact fun b hb => valueByte_iff.mp (hraw b hb)
  · simp [Field.wire, crlf]
  · simp [Field.wire, crlf]
    omega

theorem pair_headerOf (f : Field) (pos : Nat) : (shiftSlice pos (headerOf f.name f.raw)).pair = f.header := by
  show (f.name, trimTrailingOws (f.raw.dropWhile isOws)) = _
  rw [trimTrailingOws_dropWhile]
  rfl

theorem wire_ne_nil (f : Field) : f.wire ≠ [] := List.append_ne_nil_of_right_ne_nil _ (List.cons_ne_nil _ _)

/-- A field line is not the start of a blank line. -/
theorem lines_field {f : Field} (hf : f.WellFormed) (rest : Bytes) (fuel pos slots : Nat) :
    lines (fuel + 1) pos slots (f.wire ++ rest) = field pos slots (lines fuel) (f.wire ++ rest) := by
  obtain ⟨b, name, hname⟩ : ∃ b name, f.name = b :: name := List.exists_cons_of_ne_nil hf.named
  have hb : b ≠ 0x0d := by
    rintro rfl
    have := hf.name 0x0d (by rw [hname]; exact List.mem_cons_self)
    revert this
    decide
  unfold lines
  rw [Field.wire, hname, List.cons_append, List.cons_append]
  exact blankOr_of_ne hb _

/-- The headers of these fields, with the first line at `pos`. -/
def slices : Nat → List Field → List HeaderSlice
  | _, [] => []
  | pos, f :: fields => shiftSlice pos (headerOf f.name f.raw) :: slices (pos + f.wire.length) fields

theorem pair_slices (pos : Nat) (fields : List Field) : (slices pos fields).map HeaderSlice.pair = fields.map Field.header := by
  induction fields generalizing pos with
  | nil => rfl
  | cons f fields ih => rw [slices, List.map_cons, List.map_cons, pair_headerOf, ih]

/-- Field lines up to a blank line are read, if there is a slot for each of them. -/
theorem lines_fields {fields : List Field} (hwf : ∀ f ∈ fields, f.WellFormed) (rest : Bytes) {fuel slots : Nat}
    (hfuel : fields.length < fuel) (hslots : fields.length ≤ slots) (pos : Nat) :
    lines fuel pos slots (fieldLines fields ++ (crlf ++ rest)) =
      .ok (slices pos fields, (fieldLines fields).length + 2) := by
  induction fields generalizing fuel pos slots with
  | nil =>
      cases fuel with
      | zero => cases hfuel
      | succ fuel => exact blankOr_blank rest
  | cons f fields ih =>
      obtain ⟨fuel, rfl⟩ := Nat.exists_eq_succ_of_ne_zero (Nat.ne_zero_of_lt hfuel)
      obtain ⟨slots, rfl⟩ := Nat.exists_eq_succ_of_ne_zero (Nat.ne_zero_of_lt hslots)
      have hf := hwf f List.mem_cons_self
      have ih := ih (fun g hg => hwf g (List.mem_cons_of_mem f hg)) (Nat.lt_of_succ_lt_succ hfuel)
        (Nat.le_of_succ_le_succ hslots) (pos + f.wire.length)
      rw [fieldLines_cons, List.append_assoc, lines_field hf]
      unfold field
      rw [Parser.andThen_of_ok (headerLine_wire hf _), List.drop_left]
      dsimp only
      rw [Parser.andThen_of_ok ih]
      show Except.ok (_, f.wire.length + ((fieldLines fields).length + 2 + 0)) = _
      rw [slices, List.length_append, Nat.add_zero, Nat.add_assoc]

/-- A field line behind as many as there are slots is one too many. -/
theorem lines_tooMany {fields : List Field} (hwf : ∀ f ∈ fields, f.WellFormed) (rest : Bytes) {fuel slots : Nat}
    (hfuel : fields.length ≤ fuel) (hslots : fields.length = slots + 1) (pos : Nat) :
    lines fuel pos slots (fieldLines fields ++ rest) = .error .tooManyHeaders := by
  induction fields generalizing fuel pos slots with
  | nil => cases hslots
  | cons f fields ih =>
      obtain ⟨fuel, rfl⟩ := Nat.exists_eq_succ_of_ne_zero (Nat.ne_zero_of_lt hfuel)
      have hf := hwf f List.mem_cons_self
      rw [fieldLines_cons, List.append_assoc, lines_field hf]
      unfold field
      rw [Parser.andThen_of_ok (headerLine_wire hf _), List.drop_left]
      cases slots with
      | zero => rfl
      | succ slots =>
          have ih := ih (fun g hg => hwf g (List.mem_cons_of_mem f hg)) (Nat.le_of_succ_le_succ hfuel)
            (Nat.succ.inj hslots) (pos + f.wire.length)
          dsimp only
          rw [Parser.andThen_error ih]
          rfl

/-- What `lines` has seen when it does not ask for more: a blank line, or something for `field`. -/
theorem lines_cases {fuel pos slots : Nat} {xs : Bytes} {r : Except ParseError (List HeaderSlice × Nat)}
    (h : lines fuel pos slots xs = r) (hr : r ≠ .error .incomplete) :
    (∃ rest, xs = crlf ++ rest ∧ r = .ok ([], 2)) ∨
      ∃ fuel', fuel = fuel' + 1 ∧ field pos slots (lines fuel') xs = r := by
  subst h
  cases fuel with
  | zero => exact absurd rfl hr
  | succ fuel =>
      unfold lines at hr ⊢
      match xs with
      | [] => exact absurd rfl hr
      | b :: rest =>
          by_cases hb : b = 0x0d
          · subst hb
            match rest with
            | [] => exact absurd rfl hr
            | c :: rest =>
                by_cases hc : c = 0x0a
                · subst hc
                  exact .inl ⟨rest, rfl, rfl⟩
                · exact .inr ⟨fuel, rfl, (blankOr_cr hc rest).symm⟩
          · exact .inr ⟨fuel, rfl, (blankOr_of_ne hb rest).symm⟩

/-- Lines that are read are field lines and a blank line. -/
theorem fields_of_lines {fuel pos slots : Nat} {xs : Bytes} {hs : List HeaderSlice} {n : Nat}
    (h : lines fuel pos slots xs = .ok (hs, n)) :
    ∃ fields rest, (∀ f ∈ fields, Field.WellFormed f) ∧ fields.length ≤ slots ∧
      xs = fieldLines fields ++ (crlf ++ rest) := by
  induction fuel generalizing pos slots xs hs n with
  | zero => cases h
  | succ fuel ih =>
      rcases lines_cases h nofun with ⟨rest, rfl, -⟩ | ⟨fuel', hfuel, hfield⟩
      · exact ⟨[], rest, nofun, Nat.zero_le _, rfl⟩
      · cases hfuel
        obtain ⟨header, n₁, m, hline, hrest, -⟩ := Parser.andThen_ok hfield
        obtain ⟨f, tail, hf, rfl, -, rfl⟩ := headerLine_field hline
        rw [List.drop_left] at hrest
        cases slots with
        | zero => cases hrest
        | succ slots =>
            obtain ⟨hs', n₂, m₂, hlines, -, -⟩ := Parser.andThen_ok hrest
            obtain ⟨fields, rest, hwf, hlen, rfl⟩ := ih hlines
            refine ⟨f :: fields, rest, ?_, Nat.succ_le_succ hlen, ?_⟩
            · intro g hg
              rcases List.mem_cons.mp hg with rfl | hg
              · exact hf
              · exact hwf g hg
            · rw [fieldLines_cons, List.append_assoc]

/-- A line by itself is never one too many. -/
theorem headerLine_ne_tooMany (xs : Bytes) : headerLine xs ≠ .error .tooManyHeaders := by
  intro h
  have hname : ∀ b, nameByte b ≠ .error .tooManyHeaders := by
    intro b
    unfold nameByte
    split
    · nofun
    · split <;> nofun
  have hvalue : ∀ b, valueByte b ≠ .error .tooManyHeaders := by
    intro b
    unfold valueByte
    split
    · split <;> nofun
    · nofun
  have hscan : ∀ {cls : UInt8 → Except ParseError Bool} {ys : Bytes}, (∀ b, cls b ≠ .error .tooManyHeaders) →
      scan .incomplete cls ys ≠ .error .tooManyHeaders := by
    intro cls ys hcls h
    rcases Parser.scan_eq_error h with h | ⟨b, hb⟩
    · cases h
    · exact hcls b hb
  rcases Parser.andThen_eq_error h with h | ⟨name, n, -, h⟩
  · exact hscan hname h
  · split at h
    · cases h
    · rcases Parser.andThen_eq_error h with h | ⟨raw, m, -, h⟩
      · exact hscan hvalue h
      · rcases Parser.andThen_eq_error h with h | ⟨u, k, -, h⟩
        · cases hys : (xs.drop n).drop m with
          | nil =>
              rw [hys] at h
              cases h
          | cons b ys =>
              rw [hys] at h
              have h : (lineFeed b).map _ = .error .tooManyHeaders := h
              unfold lineFeed at h
              split at h
              · cases h
              · cases h
        · cases h

/-- Where there are too many fields, one more than the slots stand in front. -/
theorem fields_of_tooMany {fuel pos slots : Nat} {xs : Bytes} (h : lines fuel pos slots xs = .error .tooManyHeaders) :
    ∃ fields rest, (∀ f ∈ fields, Field.WellFormed f) ∧ fields.length = slots + 1 ∧ xs = fieldLines fields ++ rest := by
  induction fuel generalizing pos slots xs with
  | zero => cases h
  | succ fuel ih =>
      rcases lines_cases h nofun with ⟨rest, -, hok⟩ | ⟨fuel', hfuel, hfield⟩
      · cases hok
      · cases hfuel
        rcases Parser.andThen_eq_error hfield with hline | ⟨header, n, hline, hrest⟩
        · exact absurd hline (headerLine_ne_tooMany xs)
        · obtain ⟨f, tail, hf, rfl, -, rfl⟩ := headerLine_field hline
          rw [List.drop_left] at hrest
          cases slots with
          | zero =>
              refine ⟨[f], tail, ?_, rfl, ?_⟩
              · intro g hg
                rw [List.mem_singleton.mp hg]
                exact hf
              · rw [fieldLines_cons, fieldLines, List.flatMap_nil, List.append_nil]
          | succ slots =>
              rcases Parser.andThen_eq_error hrest with hlines | ⟨hs, m, -, hof⟩
              · obtain ⟨fields, rest, hwf, hlen, rfl⟩ := ih hlines
                refine ⟨f :: fields, rest, ?_, congrArg Nat.succ hlen, ?_⟩
                · intro g hg
                  rcases List.mem_cons.mp hg with rfl | hg
                  · exact hf
                  · exact hwf g hg
                · rw [fieldLines_cons, List.append_assoc]
              · cases hof

/-! ## Heads -/

theorem length_le_fieldLines (fields : List Field) : fields.length ≤ (fieldLines fields).length := by
  induction fields with
  | nil => exact Nat.zero_le _
  | cons f fields ih =>
      have hpos : 0 < f.wire.length := List.length_pos_iff.mpr (wire_ne_nil f)
      rw [fieldLines_cons, List.length_append, List.length_cons]
      omega

/-- What `parse` makes of a head with a slot for each field. -/
theorem parse_fields {line : Bytes} {version : Version} {status : StatusCode} {reason : Bytes}
    (hline : IsStatusLine line version status reason) {fields : List Field} (hwf : ∀ f ∈ fields, f.WellFormed) {slots : Nat}
    (hslots : fields.length ≤ slots) (rest : Bytes) :
    parse (line ++ crlf ++ fieldLines fields ++ crlf ++ rest) slots =
      .ok (⟨version, status, reason, slices (line.length + 2) fields⟩,
        (line ++ crlf ++ fieldLines fields ++ crlf).length) := by
  have hassoc : line ++ crlf ++ fieldLines fields ++ crlf ++ rest =
      line ++ (crlf ++ (fieldLines fields ++ (crlf ++ rest))) := by
    simp only [List.append_assoc]
  have hdrop : (line ++ (crlf ++ (fieldLines fields ++ (crlf ++ rest)))).drop (line.length + 2) =
      fieldLines fields ++ (crlf ++ rest) := by
    rw [List.drop_length_add_append]
    rfl
  rw [hassoc, parse_eq (Nat.lt_succ_self _) slots]
  have hfuel : fields.length < (line ++ (crlf ++ (fieldLines fields ++ (crlf ++ rest)))).length + 1 := by
    have hle := length_le_fieldLines fields
    simp only [List.length_append]
    omega
  have hlines := lines_fields hwf rest hfuel hslots (line.length + 2)
  unfold headOf
  rw [Parser.andThen_of_ok (statusLine_iff.mpr ⟨line, _, hline, rfl, rfl⟩), hdrop, Parser.andThen_of_ok hlines]
  show Except.ok (_, line.length + 2 + ((fieldLines fields).length + 2 + 0)) = _
  congr 2
  simp only [List.length_append, crlf, List.length_cons, List.length_nil]
  omega

/-- And what it accepts is such a head. -/
theorem fields_of_parse {buf : Bytes} {slots consumed : Nat} {head : ResponseHead} (h : parse buf slots = .ok (head, consumed)) :
    ∃ line version status reason fields rest, IsStatusLine line version status reason ∧
      (∀ f ∈ fields, Field.WellFormed f) ∧ fields.length ≤ slots ∧
      buf = line ++ crlf ++ fieldLines fields ++ crlf ++ rest := by
  rw [parse_eq (Nat.lt_succ_self _)] at h
  obtain ⟨⟨version, status, reason⟩, n, m, hstatus, hrest, -⟩ := Parser.andThen_ok h
  obtain ⟨line, tail, hline, rfl, rfl⟩ := statusLine_iff.mp hstatus
  obtain ⟨hs, n₂, m₂, hlines, -, -⟩ := Parser.andThen_ok hrest
  obtain ⟨fields, rest, hwf, hlen, htail⟩ := fields_of_lines hlines
  rw [List.drop_length_add_append] at htail
  have htail : tail = fieldLines fields ++ (crlf ++ rest) := htail
  refine ⟨line, version, status, reason, fields, rest, hline, hwf, hlen, ?_⟩
  rw [htail]
  simp only [List.append_assoc]

/-- **The grammar.** `parse` accepts exactly the buffers that start with a head that has a slot for each field, reports
    what stands in the head, and finds too many headers exactly where one more field line than slots follows a status
    line. -/
theorem parse_grammar_exact (buf : Bytes) (slots : Nat) :
    ((∃ head consumed, parse buf slots = .ok (head, consumed)) ↔
      ∃ line version status reason fields rest, IsStatusLine line version status reason ∧
        (∀ f ∈ fields, Field.WellFormed f) ∧ fields.length ≤ slots ∧
        buf = line ++ crlf ++ fieldLines fields ++ crlf ++ rest) ∧
    (∀ line version status reason fields rest, IsStatusLine line version status reason →
      (∀ f ∈ fields, Field.WellFormed f) → fields.length ≤ slots →
      buf = line ++ crlf ++ fieldLines fields ++ crlf ++ rest →
      ∃ headers, parse buf slots = .ok (⟨version, status, reason, headers⟩,
          (line ++ crlf ++ fieldLines fields ++ crlf).length) ∧
        headers.length = fields.length ∧ headers.map HeaderSlice.pair = fields.map Field.header) ∧
    (parse buf slots = .error .tooManyHeaders ↔
      ∃ line version status reason fields rest, IsStatusLine line version status reason ∧
        (∀ f ∈ fields, Field.WellFormed f) ∧ fields.length = slots + 1 ∧
        buf = line ++ crlf ++ fieldLines fields ++ rest) := by
  have hreport : ∀ line version status reason fields rest, IsStatusLine line version status reason →
      (∀ f ∈ fields, Field.WellFormed f) → fields.length ≤ slots →
      buf = line ++ crlf ++ fieldLines fields ++ crlf ++ rest →
      ∃ headers, parse buf slots = .ok (⟨version, status, reason, headers⟩,
          (line ++ crlf ++ fieldLines fields ++ crlf).length) ∧
        headers.length = fields.length ∧ headers.map HeaderSlice.pair = fields.map Field.header := by
    intro line version status reason fields rest hline hwf hslots hbuf
    have hpair := pair_slices (line.length + 2) fields
    have hlen := congrArg List.length hpair
    rw [List.length_map, List.length_map] at hlen
    exact ⟨slices (line.length + 2) fields, by rw [hbuf]; exact parse_fields hline hwf hslots rest, hlen, hpair⟩
  refine ⟨⟨?_, ?_⟩, hreport, ?_, ?_⟩
  · rintro ⟨head, consumed, h⟩
    exact fields_of_parse h
  · rintro ⟨line, version, status, reason, fields, rest, hline, hwf, hslots, hbuf⟩
    obtain ⟨headers, hparse, -⟩ := hreport line version status reason fields rest hline hwf hslots hbuf
    exact ⟨_, _, hparse⟩
  · intro h
    rw [parse_eq (Nat.lt_succ_self _)] at h
    -- the status line never reports too many headers, so a header line did
    rcases Parser.andThen_eq_error h with h | ⟨⟨version, status, reason⟩, n, hstatus, h⟩
    · exact absurd h (statusLine_ne_tooMany buf)
    rcases Parser.andThen_eq_error h with h | ⟨hs, m, -, h⟩
    · obtain ⟨line, tail, hline, rfl, rfl⟩ := statusLine_iff.mp hstatus
      obtain ⟨fields, rest, hwf, hlen, htail⟩ := fields_of_tooMany h
      rw [List.drop_length_add_append] at htail
      have htail : tail = fieldLines fields ++ rest := htail
      refine ⟨line, version, status, reason, fields, rest, hline, hwf, hlen, ?_⟩
      rw [htail]
      simp only [List.append_assoc]
    · cases h
  · rintro ⟨line, version, status, reason, fields, rest, hline, hwf, hlen, rfl⟩
    have hassoc : line ++ crlf ++ fieldLines fields ++ rest = line ++ (crlf ++ (fieldLines fields ++ rest)) := by
      simp only [List.append_assoc]
    have hdrop : (line ++ (crlf ++ (fieldLines fields ++ rest))).drop (line.length + 2) = fieldLines fields ++ rest := by
      rw [List.drop_length_add_append]
      rfl
    have hfuel : fields.length ≤ (line ++ (crlf ++ (fieldLines fields ++ rest))).length + 1 := by
      have hle := length_le_fieldLines fields
      simp only [List.length_append]
      omega
    rw [hassoc, parse_eq (Nat.lt_succ_self _)]
    unfold headOf
    rw [Parser.andThen_of_ok (statusLine_iff.mpr ⟨line, _, hline, rfl, rfl⟩), hdrop,
      Parser.andThen_error (lines_tooMany hwf rest hfuel hlen _)]
    rfl

end ResponseHead

end Xibalba
