import Xibalba.Lib.Incremental
import Xibalba.Proto.Head
import Mathlib.Data.List.TakeWhile

/-!
# `Proto.Correctness.HeadParse` — parsing a head that is still arriving

`ResponseHead::parse` is called again whenever more of a head has arrived. It is put together from parsers that are
stable in the sense of `Lib.Incremental`: a search for the end of the status line, and a loop over header lines. A head
it accepts is made of lines without a CR, so it ends just past the first blank line. Where it asks for more, more can
help, with one exception: a CR in a field value that something other than a LF follows.

Layout:
* searching: `Bytes.findWindow_iff`;
* one header line, and the loop over them: `headerLine`, `lines`, and `parse_eq`;
* the lines of a head;
* `parse_stable`, and `parse_completable_iff`.
-/

namespace Xibalba

/-! ## Searching -/

namespace Bytes

/-- Searching from `k` on finds the first occurrence if there is none before `k`. -/
theorem findWindow_drop {needle : Bytes} (k : Nat) (xs : Bytes) (h : ∀ q < k, ¬ needle <+: xs.drop q) :
    findWindow needle xs = (findWindow needle (xs.drop k)).map (k + ·) := by
  induction k generalizing xs with
  | zero => simp
  | succ k ih =>
      cases xs with
      | nil => simp [findWindow]
      | cons x xs =>
          have h0 : ¬ needle <+: x :: xs := h 0 (by omega)
          have ih := ih xs fun q hq => h (q + 1) (by omega)
          rw [findWindow, if_neg (by simpa using h0), ih, List.drop_succ_cons, Option.map_map]
          congr 1
          funext n
          simp only [Function.comp_apply]
          omega

theorem findWindow_eq_none {needle xs : Bytes} (h : findWindow needle xs = none) (q : Nat)
    (hq : q < xs.length) : ¬ needle <+: xs.drop q := by
  induction xs generalizing q with
  | nil => simp at hq
  | cons x xs ih =>
      rw [findWindow] at h
      split at h
      · cases h
      · rename_i h0
        cases q with
        | zero => simpa using h0
        | succ q => exact ih (Option.map_eq_none_iff.mp h) q (by simpa using hq)

theorem findWindow_eq_some {needle xs : Bytes} {p : Nat} (h : findWindow needle xs = some p) :
    needle <+: xs.drop p := by
  induction xs generalizing p with
  | nil => simp [findWindow] at h
  | cons x xs ih =>
      rw [findWindow] at h
      split at h
      · rename_i h0
        cases h
        simpa using h0
      · obtain ⟨p', hp', rfl⟩ := Option.map_eq_some_iff.mp h
        exact ih hp'

/-- The first occurrence. -/
theorem findWindow_iff {needle xs : Bytes} (hn : needle ≠ []) {p : Nat} :
    findWindow needle xs = some p ↔ needle <+: xs.drop p ∧ ∀ q < p, ¬ needle <+: xs.drop q := by
  constructor
  · intro h
    refine ⟨findWindow_eq_some h, ?_⟩
    induction xs generalizing p with
    | nil => cases h
    | cons x xs ih =>
        intro q hq
        rw [findWindow] at h
        split at h
        · cases h
          cases hq
        next h0 =>
          obtain ⟨p', hp', rfl⟩ := Option.map_eq_some_iff.mp h
          cases q with
          | zero =>
              intro hpre
              exact h0 (List.isPrefixOf_iff_prefix.mpr hpre)
          | succ q => exact ih hp' q (Nat.lt_of_succ_lt_succ hq)
  · rintro ⟨hpre, hfirst⟩
    rw [findWindow_drop p xs hfirst]
    obtain ⟨rest, hrest⟩ := hpre
    rw [← hrest]
    cases needle with
    | nil => exact absurd rfl hn
    | cons a needle =>
        rw [List.cons_append, findWindow, if_pos]
        · rfl
        · rw [List.isPrefixOf_iff_prefix]
          exact List.prefix_append (a :: needle) rest

/-- An occurrence lies within the bytes. -/
theorem length_of_prefix_drop {needle xs : Bytes} (hn : needle ≠ []) {p : Nat} (h : needle <+: xs.drop p) :
    p + needle.length ≤ xs.length := by
  have hle := h.length_le
  have hpos : 0 < needle.length := List.length_pos_iff.mpr hn
  rw [List.length_drop] at hle
  omega

/-- The bytes up to the end of an occurrence decide whether it is one. -/
theorem prefix_drop_take {needle xs : Bytes} {q n : Nat} (hq : q + needle.length ≤ n) :
    needle <+: (xs.take n).drop q ↔ needle <+: xs.drop q := by
  rw [List.drop_take, List.prefix_take_iff]
  constructor
  · exact And.left
  · intro h
    exact ⟨h, by omega⟩

/-- A first occurrence depends on nothing behind it. -/
theorem findWindow_congr {needle xs ys : Bytes} (hn : needle ≠ []) {p : Nat} (h : findWindow needle xs = some p)
    (heq : xs.take (p + needle.length) = ys.take (p + needle.length)) : findWindow needle ys = some p := by
  rw [findWindow_iff hn] at h ⊢
  have hsame : ∀ q ≤ p, (needle <+: xs.drop q ↔ needle <+: ys.drop q) := by
    intro q hq
    have hle : q + needle.length ≤ p + needle.length := Nat.add_le_add_right hq _
    rw [← prefix_drop_take hle, heq, prefix_drop_take hle]
  refine ⟨(hsame p (Nat.le_refl p)).mp h.1, ?_⟩
  intro q hq hpre
  exact h.2 q hq ((hsame q (Nat.le_of_lt hq)).mpr hpre)

/-- Cutting the bytes right behind the first occurrence leaves it the first occurrence. -/
theorem findWindow_take {needle xs : Bytes} (hn : needle ≠ []) {p : Nat} (h : findWindow needle xs = some p) :
    findWindow needle (xs.take (p + needle.length)) = some p := by
  refine findWindow_congr hn h ?_
  rw [List.take_take, Nat.min_self]

/-- Before its end there is no occurrence. -/
theorem findWindow_cut {needle xs : Bytes} (hn : needle ≠ []) {p : Nat} (h : findWindow needle xs = some p) {k : Nat}
    (hk : k < p + needle.length) : findWindow needle (xs.take k) = none := by
  cases hq : findWindow needle (xs.take k) with
  | none => rfl
  | some q =>
      have hpre := findWindow_eq_some hq
      have hlen := length_of_prefix_drop hn hpre
      rw [List.length_take] at hlen
      have hqk : q + needle.length ≤ k := Nat.le_trans hlen (Nat.min_le_left _ _)
      exact absurd ((prefix_drop_take hqk).mp hpre) (((findWindow_iff hn).mp h).2 q (by omega))

end Bytes

open Parser (Stable andThen next of scan)

/-- The bytes before the first `needle`. -/
def Bytes.upto (needle : Bytes) : Parser UInt8 ParseError Bytes := fun xs =>
  match findWindow needle xs with
  | none => .error .incomplete
  | some p => .ok (xs.take p, p + needle.length)

theorem Bytes.upto_ok {needle xs line : Bytes} {n : Nat} (h : upto needle xs = .ok (line, n)) :
    ∃ p, findWindow needle xs = some p ∧ line = xs.take p ∧ n = p + needle.length := by
  unfold upto at h
  split at h
  · cases h
  next p hp =>
    cases h
    exact ⟨p, hp, rfl, rfl⟩

theorem Bytes.stable_upto {needle : Bytes} (hn : needle ≠ []) : Stable .incomplete (upto needle) := by
  refine ⟨?_, ?_, ?_, ?_⟩
  · intro xs line n h
    obtain ⟨p, hp, -, rfl⟩ := upto_ok h
    exact length_of_prefix_drop hn (findWindow_eq_some hp)
  · intro xs line n h ys
    obtain ⟨p, hp, rfl, rfl⟩ := upto_ok h
    have hlen : (xs.take (p + needle.length)).length = p + needle.length :=
      List.length_take_of_le (length_of_prefix_drop hn (findWindow_eq_some hp))
    have hsame : findWindow needle (xs.take (p + needle.length) ++ ys) = some p := by
      refine findWindow_congr hn hp ?_
      rw [List.take_append_of_le_length (Nat.le_of_eq hlen.symm), List.take_of_length_le (Nat.le_of_eq hlen)]
    have htake : (xs.take (p + needle.length) ++ ys).take p = xs.take p := by
      rw [List.take_append_of_le_length (by omega), List.take_take, Nat.min_eq_left (Nat.le_add_right _ _)]
    unfold upto
    rw [hsame]
    dsimp only
    rw [htake]
  · intro xs line n h k hk
    obtain ⟨p, hp, -, rfl⟩ := upto_ok h
    unfold upto
    rw [findWindow_cut hn hp hk]
  · intro xs e h hne
    unfold upto at h
    split at h
    · cases h
      exact absurd rfl hne
    · cases h

/-! ## Header lines -/

namespace ResponseHead

def nameByte (b : UInt8) : Except ParseError Bool :=
  if b = 0x3a then .ok true else if !Tchar.isValid b then .error .invalidHeaderName else .ok false

def valueByte (b : UInt8) : Except ParseError Bool :=
  if isCtl b then if b = 0x0d then .ok true else .error .invalidHeaderValue else .ok false

/-- The byte behind the CR that ends a line. -/
def lineFeed (b : UInt8) : Except ParseError Unit := if b = 0x0a then .ok () else .error .incomplete

/-- The header on a line, with `raw` between the colon and the CR. -/
def headerOf (name raw : Bytes) : HeaderSlice :=
  ⟨⟨0, name⟩, ⟨name.length + 1 + (raw.takeWhile isOws).length, trimTrailingOws (raw.dropWhile isOws)⟩⟩

/-- A header line, byte by byte. -/
def headerLine : Parser UInt8 ParseError HeaderSlice :=
  andThen (scan .incomplete nameByte) fun name _ =>
    if name = [] then of (.error .invalidHeaderName)
    else
      andThen (scan .incomplete valueByte) fun raw _ =>
        andThen (next .incomplete lineFeed) fun _ _ => of (.ok (headerOf name raw))

theorem stable_headerLine : Stable .incomplete headerLine := by
  refine (Parser.stable_scan _ _).andThen fun name _ => ?_
  by_cases hname : name = []
  · rw [if_pos hname]
    exact Parser.stable_of _ _
  · rw [if_neg hname]
    refine (Parser.stable_scan _ _).andThen fun raw _ => ?_
    exact (Parser.stable_next _ _).andThen fun _ _ => Parser.stable_of _ _

/-- Phase 1 of `parse_header_line`. -/
theorem scanName_eq (idx : Nat) (line : Bytes) : scanName idx line =
    match scan .incomplete nameByte line with
    | .ok (name, _) => .ok (some (idx + name.length))
    | .error .incomplete => .ok none
    | .error e => .error e := by
  induction line generalizing idx with
  | nil => rfl
  | cons b rest ih =>
      by_cases hcolon : b = 0x3a
      · have hb : nameByte b = .ok true := if_pos hcolon
        rw [scanName, if_pos hcolon, Parser.scan_stop hb]
        rfl
      by_cases hvalid : !Tchar.isValid b
      · have hb : nameByte b = .error .invalidHeaderName := (if_neg hcolon).trans (if_pos hvalid)
        rw [scanName, if_neg hcolon, if_pos hvalid, Parser.scan_error hb]
      · have hb : nameByte b = .ok false := (if_neg hcolon).trans (if_neg hvalid)
        rw [scanName, if_neg hcolon, if_neg hvalid, Parser.scan_go hb, ih]
        cases hrest : scan .incomplete nameByte rest with
        | ok r =>
            show Except.ok (some (idx + 1 + r.1.length)) = .ok (some (idx + (r.1.length + 1)))
            rw [Nat.add_assoc, Nat.add_comm 1]
        | error e => cases e <;> rfl

/-- Phase 3 of `parse_header_line`: one search for a control byte finds the CR and validates the value. -/
theorem scan_valueByte (xs : Bytes) : scan .incomplete valueByte xs =
    match xs.findIdx? isCtl with
    | none => .error .incomplete
    | some p => if xs[p]? ≠ some 0x0d then .error .invalidHeaderValue else .ok (xs.take p, p + 1) := by
  induction xs with
  | nil => rfl
  | cons b rest ih =>
      rw [List.findIdx?_cons]
      by_cases hctl : isCtl b = true
      · rw [if_pos hctl]
        dsimp only
        rw [List.getElem?_cons_zero]
        by_cases hcr : b = 0x0d
        · have hb : valueByte b = .ok true := (if_pos hctl).trans (if_pos hcr)
          rw [Parser.scan_stop hb, if_neg (by rw [hcr]; exact fun h => h rfl)]
          rfl
        · have hb : valueByte b = .error .invalidHeaderValue := (if_pos hctl).trans (if_neg hcr)
          rw [Parser.scan_error hb, if_pos (by intro h; exact hcr (Option.some.inj h))]
      · have hb : valueByte b = .ok false := if_neg hctl
        rw [Parser.scan_go hb, ih, if_neg hctl]
        cases rest.findIdx? isCtl with
        | none => rfl
        | some p =>
            show Except.map _ _ = if (b :: rest)[p + 1]? ≠ some 0x0d then _ else _
            rw [List.getElem?_cons_succ]
            dsimp only
            split
            · rfl
            · rfl

theorem not_isCtl_of_isOws {b : UInt8} (h : isOws b = true) : ¬ isCtl b = true := by
  unfold isOws at h
  rcases Bool.or_eq_true_iff.mp h with h | h
  · rw [beq_iff_eq.mp h]
    decide
  · rw [beq_iff_eq.mp h]
    decide

/-- Optional whitespace in front of a value holds no control byte. -/
theorem findIdx?_isCtl (xs : Bytes) : xs.findIdx? isCtl =
    ((xs.dropWhile isOws).findIdx? isCtl).map (· + (xs.takeWhile isOws).length) := by
  have hows : (xs.takeWhile isOws).findIdx? isCtl = none := by
    rw [List.findIdx?_eq_none_iff]
    intro b hb
    exact Bool.not_eq_true _ ▸ not_isCtl_of_isOws (List.mem_takeWhile_imp hb)
  have happ : (xs.takeWhile isOws ++ xs.dropWhile isOws).findIdx? isCtl = _ := List.findIdx?_append
  rw [List.takeWhile_append_dropWhile, hows, Option.none_or] at happ
  exact happ

/-- Cutting a value does not change the whitespace in front of it. -/
theorem ows_of_take (xs : Bytes) (p : Nat) :
    (xs.takeWhile isOws ++ (xs.dropWhile isOws).take p).takeWhile isOws = xs.takeWhile isOws ∧
      (xs.takeWhile isOws ++ (xs.dropWhile isOws).take p).dropWhile isOws = (xs.dropWhile isOws).take p := by
  have hall : ∀ b ∈ xs.takeWhile isOws, isOws b = true := fun b hb => List.mem_takeWhile_imp hb
  rw [List.takeWhile_append_of_pos hall, List.dropWhile_append_of_pos hall]
  have hhead := List.head?_dropWhile_not isOws xs
  cases hval : xs.dropWhile isOws with
  | nil => exact ⟨by rw [List.take_nil, List.takeWhile_nil, List.append_nil], by rw [List.take_nil, List.dropWhile_nil]⟩
  | cons b val =>
      rw [hval] at hhead
      have hb : ¬ isOws b = true := by simpa using hhead
      cases p with
      | zero => exact ⟨by rw [List.take_zero, List.takeWhile_nil, List.append_nil], rfl⟩
      | succ p =>
          rw [List.take_succ_cons, List.takeWhile_cons_of_neg hb, List.append_nil, List.dropWhile_cons_of_neg hb]
          exact ⟨rfl, rfl⟩

/-- What comes behind the colon. -/
theorem headerValue_eq (name rest : Bytes) :
    (match (rest.dropWhile isOws).findIdx? isCtl with
      | none => .error .incomplete
      | some p =>
        if (rest.dropWhile isOws)[p]? ≠ some 0x0d then .error .invalidHeaderValue
        else if (rest.dropWhile isOws)[p + 1]? ≠ some 0x0a then .error .incomplete
        else .ok (⟨⟨0, name⟩, ⟨name.length + 1 + (rest.takeWhile isOws).length,
              trimTrailingOws ((rest.dropWhile isOws).take p)⟩⟩,
            name.length + 1 + (rest.takeWhile isOws).length + p + 2)) =
      Except.map (fun r => (r.1, name.length + 1 + r.2))
        (andThen (scan .incomplete valueByte)
          (fun raw _ => andThen (next .incomplete lineFeed) fun _ _ => of (.ok (headerOf name raw))) rest) := by
  have hscan := scan_valueByte rest
  have hsplit : rest.takeWhile isOws ++ rest.dropWhile isOws = rest := List.takeWhile_append_dropWhile
  rw [findIdx?_isCtl] at hscan
  cases hp : (rest.dropWhile isOws).findIdx? isCtl with
  | none =>
      rw [hp] at hscan
      rw [Parser.andThen_error hscan]
      rfl
  | some p =>
      rw [hp] at hscan
      dsimp only [Option.map_some] at hscan ⊢
      -- positions behind the whitespace
      have hget : ∀ q, rest[q + (rest.takeWhile isOws).length]? = (rest.dropWhile isOws)[q]? := by
        intro q
        have happ : (rest.takeWhile isOws ++ rest.dropWhile isOws)[q + (rest.takeWhile isOws).length]? = _ :=
          List.getElem?_append_right (Nat.le_add_left _ _)
        rw [hsplit, Nat.add_sub_cancel] at happ
        exact happ
      rw [hget] at hscan
      by_cases hcr : (rest.dropWhile isOws)[p]? ≠ some 0x0d
      · rw [if_pos hcr] at hscan ⊢
        rw [Parser.andThen_error hscan]
        rfl
      rw [if_neg hcr] at hscan ⊢
      rw [Parser.andThen_of_ok hscan]
      have hraw : rest.take (p + (rest.takeWhile isOws).length) = rest.takeWhile isOws ++ (rest.dropWhile isOws).take p := by
        have htake : (rest.takeWhile isOws ++ rest.dropWhile isOws).take ((rest.takeWhile isOws).length + p) = _ :=
          List.take_length_add_append p
        rw [hsplit] at htake
        rw [Nat.add_comm]
        exact htake
      have hlf : (rest.dropWhile isOws)[p + 1]? = (rest.drop (p + (rest.takeWhile isOws).length + 1))[0]? := by
        rw [List.getElem?_drop, Nat.add_zero, ← hget, Nat.add_right_comm]
      rw [hlf]
      cases hrest : rest.drop (p + (rest.takeWhile isOws).length + 1) with
      | nil =>
          rw [if_pos (by rw [List.getElem?_nil]; exact nofun)]
          rfl
      | cons b more =>
          rw [List.getElem?_cons_zero]
          by_cases hb : b = 0x0a
          · have hfeed : next .incomplete lineFeed (b :: more) = .ok ((), 1) := by
              show (lineFeed b).map _ = _
              rw [lineFeed, if_pos hb]
              rfl
            rw [if_neg (by rw [hb]; exact fun h => h rfl), Parser.andThen_of_ok hfeed]
            obtain ⟨hows, hval⟩ := ows_of_take rest p
            show Except.ok _ =
              Except.ok (headerOf name _, name.length + 1 + (p + (rest.takeWhile isOws).length + 1 + (1 + 0)))
            rw [headerOf, hraw, hows, hval]
            congr 2
            omega
          · have hfeed : next .incomplete lineFeed (b :: more) = .error .incomplete := by
              show (lineFeed b).map _ = _
              rw [lineFeed, if_neg hb]
              rfl
            rw [if_pos (fun h => hb (Option.some.inj h)), Parser.andThen_error hfeed]
            rfl

/-- **The header line parser** goes over the line byte by byte. -/
theorem parseHeaderLine_eq {line : Bytes} (hline : line ≠ []) : parseHeaderLine line = headerLine line := by
  unfold parseHeaderLine
  rw [if_neg (by rw [List.isEmpty_iff]; exact hline), scanName_eq]
  cases hscan : scan .incomplete nameByte line with
  | error e =>
      unfold headerLine
      rw [Parser.andThen_error hscan]
      cases e <;> rfl
  | ok r =>
      obtain ⟨name, n⟩ := r
      obtain ⟨c, rest, rfl, rfl, -, -⟩ := Parser.scan_ok hscan
      have hdrop : (name ++ c :: rest).drop (name.length + 1) = rest := by
        rw [List.drop_length_add_append]
        rfl
      have hows : (name ++ c :: rest).drop (name.length + 1 + (rest.takeWhile isOws).length) = rest.dropWhile isOws := by
        rw [← List.drop_drop, hdrop]
        have happ : (rest.takeWhile isOws ++ rest.dropWhile isOws).drop (rest.takeWhile isOws).length = _ := List.drop_left
        rw [List.takeWhile_append_dropWhile] at happ
        exact happ
      unfold headerLine
      rw [Parser.andThen_of_ok hscan]
      simp only [bind, Except.bind, pure, Except.pure, throw, throwThe, MonadExceptOf.throw, Nat.zero_add]
      rw [hdrop, hows, List.take_left]
      by_cases hname : name = []
      · rw [if_pos (List.length_eq_zero_iff.mpr hname), if_pos hname]
        rfl
      · rw [if_neg (fun h => hname (List.length_eq_zero_iff.mp h)), if_neg hname]
        exact headerValue_eq name rest

/-! ## The loop over header lines -/

/-- The blank line that ends a head, or what `f` reads. -/
def blankOr (f : Parser UInt8 ParseError (List HeaderSlice)) : Parser UInt8 ParseError (List HeaderSlice)
  | [] => .error .incomplete
  | b :: rest =>
    if b = 0x0d then
      match rest with
      | [] => .error .incomplete
      | c :: _ => if c = 0x0a then .ok ([], 2) else f (b :: rest)
    else f (b :: rest)

section

variable {f : Parser UInt8 ParseError (List HeaderSlice)}

theorem blankOr_of_ne {b : UInt8} (hb : b ≠ 0x0d) (rest : Bytes) : blankOr f (b :: rest) = f (b :: rest) := if_neg hb

theorem blankOr_blank (rest : Bytes) : blankOr f (0x0d :: 0x0a :: rest) = .ok ([], 2) := rfl

theorem blankOr_cr {c : UInt8} (hc : c ≠ 0x0a) (rest : Bytes) : blankOr f (0x0d :: c :: rest) = f (0x0d :: c :: rest) :=
  if_neg hc

theorem blankOr_congr {g : Parser UInt8 ParseError (List HeaderSlice)} {xs : Bytes} (h : f xs = g xs) :
    blankOr f xs = blankOr g xs := by
  cases xs with
  | nil => rfl
  | cons b rest => simp only [blankOr, h]

/-- A line that does not start with a CR is left to `f`, which takes some of it. -/
theorem stable_blankOr (hf : Stable .incomplete f) (hpos : ∀ {xs hs n}, f xs = .ok (hs, n) → 0 < n)
    (hcr : ∀ rest, f (0x0d :: rest) = .error .invalidHeaderName) : Stable .incomplete (blankOr f) := by
  -- what the parser can have seen when it returns a result
  have hok : ∀ {xs hs n}, blankOr f xs = .ok (hs, n) →
      (∃ rest, xs = 0x0d :: 0x0a :: rest ∧ hs = [] ∧ n = 2) ∨ ∃ b rest, xs = b :: rest ∧ b ≠ 0x0d ∧ f xs = .ok (hs, n) := by
    intro xs hs n h
    match xs with
    | [] => cases h
    | b :: rest =>
        by_cases hb : b = 0x0d
        · subst hb
          match rest with
          | [] => cases h
          | c :: rest =>
              by_cases hc : c = 0x0a
              · subst hc
                rw [blankOr_blank] at h
                cases h
                exact .inl ⟨rest, rfl, rfl, rfl⟩
              · rw [blankOr_cr hc, hcr] at h
                cases h
        · rw [blankOr_of_ne hb] at h
          exact .inr ⟨b, rest, rfl, hb, h⟩
  refine ⟨?_, ?_, ?_, ?_⟩
  · intro xs hs n h
    rcases hok h with ⟨rest, rfl, -, rfl⟩ | ⟨b, rest, -, -, hfx⟩
    · exact Nat.succ_le_succ (Nat.succ_le_succ (Nat.zero_le _))
    · exact hf.length_le hfx
  · intro xs hs n h ys
    rcases hok h with ⟨rest, rfl, rfl, rfl⟩ | ⟨b, rest, rfl, hb, hfx⟩
    · exact blankOr_blank _
    · obtain ⟨m, rfl⟩ := Nat.exists_eq_add_of_lt (hpos hfx)
      have hext := hf.extend hfx ys
      rw [Nat.zero_add, List.take_succ_cons, List.cons_append] at hext ⊢
      rw [blankOr_of_ne hb]
      exact hext
  · intro xs hs n h k hk
    rcases hok h with ⟨rest, rfl, -, rfl⟩ | ⟨b, rest, rfl, hb, hfx⟩
    · match k, hk with
      | 0, _ => rfl
      | 1, _ => rfl
    · cases k with
      | zero => rfl
      | succ k =>
          have hcut := hf.cut hfx (k + 1) hk
          rw [List.take_succ_cons] at hcut ⊢
          rw [blankOr_of_ne hb]
          exact hcut
  · intro xs e h hne ys
    match xs with
    | [] =>
        cases h
        exact absurd rfl hne
    | b :: rest =>
        by_cases hb : b = 0x0d
        · subst hb
          match rest with
          | [] =>
              cases h
              exact absurd rfl hne
          | c :: rest =>
              by_cases hc : c = 0x0a
              · subst hc
                cases h
              · rw [blankOr_cr hc] at h
                rw [List.cons_append, List.cons_append, blankOr_cr hc]
                exact hf.failed h hne ys
        · rw [blankOr_of_ne hb] at h
          rw [List.cons_append, blankOr_of_ne hb]
          exact hf.failed h hne ys

end

/-- The header as it stands in a buffer with the line at `pos`. -/
def shiftSlice (pos : Nat) (h : HeaderSlice) : HeaderSlice :=
  ⟨⟨pos + h.name.start, h.name.bytes⟩, ⟨pos + h.value.start, h.value.bytes⟩⟩

/-- A header line and what `rest` makes of the lines behind it. -/
def field (pos slots : Nat) (rest : Nat → Nat → Parser UInt8 ParseError (List HeaderSlice)) :
    Parser UInt8 ParseError (List HeaderSlice) :=
  andThen headerLine fun h n =>
    match slots with
    | 0 => of (.error .tooManyHeaders)
    | slots + 1 => andThen (rest (pos + n) slots) fun hs _ => of (.ok (shiftSlice pos h :: hs))

/-- The lines of a head from `pos` on, blank line included, with `slots` free entries. -/
def lines : Nat → Nat → Nat → Parser UInt8 ParseError (List HeaderSlice)
  | 0, _, _ => of (.error .incomplete)
  | fuel + 1, pos, slots => blankOr (field pos slots (lines fuel))

theorem nameByte_true {b : UInt8} (h : nameByte b = .ok true) : b = 0x3a := by
  by_cases hb : b = 0x3a
  · exact hb
  · rw [nameByte, if_neg hb] at h
    split at h
    · cases h
    · cases h

theorem valueByte_true {b : UInt8} (h : valueByte b = .ok true) : b = 0x0d := by
  unfold valueByte at h
  split at h
  · split at h
    next hb => exact hb
    next => cases h
  · cases h

/-- A header line is a name, a colon, a value and CRLF. -/
theorem headerLine_parts {xs : Bytes} {h : HeaderSlice} {n : Nat} (hok : headerLine xs = .ok (h, n)) :
    ∃ name raw rest, xs = name ++ 0x3a :: (raw ++ 0x0d :: 0x0a :: rest) ∧ name ≠ [] ∧
      (∀ b ∈ name, nameByte b = .ok false) ∧ (∀ b ∈ raw, valueByte b = .ok false) ∧ h = headerOf name raw ∧
      n = name.length + raw.length + 3 := by
  obtain ⟨name, n₁, m₁, hname, hrest, rfl⟩ := Parser.andThen_ok hok
  obtain ⟨c, rest₁, rfl, rfl, hc, hall⟩ := Parser.scan_ok hname
  by_cases hnil : name = []
  · rw [if_pos hnil] at hrest
    cases hrest
  rw [if_neg hnil, List.drop_length_add_append] at hrest
  obtain ⟨raw, n₂, m₂, hraw, hend, rfl⟩ := Parser.andThen_ok hrest
  obtain ⟨d, rest₂, hsplit, rfl, hd, hvalues⟩ := Parser.scan_ok hraw
  rw [hsplit, List.drop_length_add_append] at hend
  have hsplit : rest₁ = raw ++ d :: rest₂ := hsplit
  obtain ⟨u, n₃, m₃, hfeed, hheader, rfl⟩ := Parser.andThen_ok hend
  cases rest₂ with
  | nil => cases hfeed
  | cons e rest₃ =>
      have hfeed : (lineFeed e).map (fun b => (b, 1)) = .ok (u, n₃) := hfeed
      have he : e = 0x0a := by
        by_cases he : e = 0x0a
        · exact he
        · rw [lineFeed, if_neg he] at hfeed
          cases hfeed
      subst he
      cases hfeed
      cases hheader
      refine ⟨name, raw, rest₃, ?_, hnil, hall, hvalues, rfl, by omega⟩
      rw [hsplit, valueByte_true hd, nameByte_true hc]

/-- A header line is made of bytes other than CR, and ends with CRLF. -/
theorem headerLine_ok {xs : Bytes} {h : HeaderSlice} {n : Nat} (hok : headerLine xs = .ok (h, n)) :
    ∃ line rest, xs = line ++ 0x0d :: 0x0a :: rest ∧ line ≠ [] ∧ 0x0d ∉ line ∧ n = line.length + 2 := by
  obtain ⟨name, raw, rest, rfl, hnil, hname, hraw, -, rfl⟩ := headerLine_parts hok
  refine ⟨name ++ 0x3a :: raw, rest, by simp, List.append_ne_nil_of_left_ne_nil hnil _, ?_, by simp; omega⟩
  intro hmem
  rcases List.mem_append.mp hmem with hmem | hmem
  · exact absurd (hname _ hmem) (by decide)
  rcases List.mem_cons.mp hmem with hmem | hmem
  · cases hmem
  · exact absurd (hraw _ hmem) (by decide)

theorem headerLine_cr (rest : Bytes) : headerLine (0x0d :: rest) = .error .invalidHeaderName :=
  Parser.andThen_error (Parser.scan_error (show nameByte 0x0d = .error .invalidHeaderName by decide) rest)

theorem stable_lines (fuel pos slots : Nat) : Stable .incomplete (lines fuel pos slots) := by
  induction fuel generalizing pos slots with
  | zero => exact Parser.stable_of _ _
  | succ fuel ih =>
      refine stable_blankOr ?_ ?_ fun rest => Parser.andThen_error (headerLine_cr rest)
      · refine stable_headerLine.andThen fun h n => ?_
        cases slots with
        | zero => exact Parser.stable_of _ _
        | succ slots => exact (ih _ _).andThen fun hs _ => Parser.stable_of _ _
      · intro xs hs n h
        obtain ⟨_, n₁, m, hline, -, rfl⟩ := Parser.andThen_ok h
        obtain ⟨line, rest, -, -, -, rfl⟩ := headerLine_ok hline
        omega

/-- More turns than there are bytes are never taken. -/
theorem lines_fuel {xs : Bytes} {fuel fuel' : Nat} (h : xs.length < fuel) (h' : xs.length < fuel') (pos slots : Nat) :
    lines fuel pos slots xs = lines fuel' pos slots xs := by
  induction fuel generalizing xs fuel' pos slots with
  | zero => cases h
  | succ fuel ih =>
      cases fuel' with
      | zero => cases h'
      | succ fuel' =>
          have hfield : field pos slots (lines fuel) xs = field pos slots (lines fuel') xs := by
            unfold field
            cases hline : headerLine xs with
            | error e => rw [Parser.andThen_error hline, Parser.andThen_error hline]
            | ok r =>
                obtain ⟨header, n⟩ := r
                rw [Parser.andThen_of_ok hline, Parser.andThen_of_ok hline]
                cases slots with
                | zero => rfl
                | succ slots =>
                    have hlt : (xs.drop n).length < xs.length := by
                      have hle := stable_headerLine.length_le hline
                      obtain ⟨line, rest, -, -, -, rfl⟩ := headerLine_ok hline
                      rw [List.length_drop]
                      omega
                    have hlt' : (xs.drop n).length < fuel' := Nat.lt_of_lt_of_le hlt (Nat.le_of_lt_succ h')
                    have hrest := ih (Nat.lt_of_lt_of_le hlt (Nat.le_of_lt_succ h)) hlt' (pos + n) slots
                    dsimp only
                    unfold andThen
                    rw [hrest]
          exact blankOr_congr hfield

/-- What the loop of `parse` does with a line that is not blank; `rest` is the buffer from the line on. -/
def parseLine (buf rest : Bytes) (fuel pos slots : Nat) (hs : List HeaderSlice) :
    Except ParseError (List HeaderSlice × Nat) := do
  let (h, lineEnd) ← parseHeaderLine rest
  match slots with
  | 0 => throw .tooManyHeaders
  | slots + 1 =>
    let h := ⟨⟨pos + h.name.start, h.name.bytes⟩, ⟨pos + h.value.start, h.value.bytes⟩⟩
    parseHeaders buf fuel (pos + lineEnd) slots (hs ++ [h])

theorem parseLine_eq {buf : Bytes} {fuel pos : Nat} (slots : Nat) (hs : List HeaderSlice) (hne : buf.drop pos ≠ [])
    (ih : ∀ pos slots hs, parseHeaders buf fuel pos slots hs =
      (lines fuel pos slots (buf.drop pos)).map fun r => (hs ++ r.1, pos + r.2)) :
    parseLine buf (buf.drop pos) fuel pos slots hs =
      (field pos slots (lines fuel) (buf.drop pos)).map fun r => (hs ++ r.1, pos + r.2) := by
  unfold parseLine
  rw [parseHeaderLine_eq hne]
  unfold field
  cases hline : headerLine (buf.drop pos) with
  | error e =>
      rw [Parser.andThen_error hline]
      rfl
  | ok r =>
      obtain ⟨h, n⟩ := r
      rw [Parser.andThen_of_ok hline]
      cases slots with
      | zero => rfl
      | succ slots =>
          show parseHeaders buf fuel (pos + n) slots (hs ++ [shiftSlice pos h]) = _
          rw [ih, List.drop_drop]
          dsimp only
          unfold andThen
          cases lines fuel (pos + n) slots (buf.drop (pos + n)) with
          | error e => rfl
          | ok r =>
              obtain ⟨hs', m⟩ := r
              show Except.ok (hs ++ [shiftSlice pos h] ++ hs', pos + n + m) =
                .ok (hs ++ shiftSlice pos h :: hs', pos + (n + (m + 0)))
              rw [List.append_assoc, List.singleton_append, Nat.add_zero, Nat.add_assoc]

/-- The loop of `parse` reads the lines from its position on. -/
theorem parseHeaders_eq (buf : Bytes) (fuel pos slots : Nat) (hs : List HeaderSlice) :
    parseHeaders buf fuel pos slots hs =
      (lines fuel pos slots (buf.drop pos)).map fun r => (hs ++ r.1, pos + r.2) := by
  induction fuel generalizing pos slots hs with
  | zero => rfl
  | succ fuel ih =>
      have hfirst : buf[pos]? = (buf.drop pos)[0]? := by rw [List.getElem?_drop, Nat.add_zero]
      have hsecond : buf[pos + 1]? = (buf.drop pos)[1]? := by rw [List.getElem?_drop]
      have hlen : (buf.drop pos).length = buf.length - pos := List.length_drop
      -- what the header line parser sees
      have hmore : buf.drop pos ≠ [] → parseLine buf (buf.drop pos) fuel pos slots hs =
          (field pos slots (lines fuel) (buf.drop pos)).map fun r => (hs ++ r.1, pos + r.2) :=
        fun hne => parseLine_eq slots hs hne ih
      unfold parseHeaders
      rw [hfirst, hsecond]
      show _ = (blankOr (field pos slots (lines fuel)) (buf.drop pos)).map _
      cases hrest : buf.drop pos with
      | nil =>
          rw [hrest] at hlen
          rw [if_pos (Nat.le_of_sub_eq_zero hlen.symm)]
          rfl
      | cons b more =>
          rw [hrest] at hlen hmore
          have hmore := hmore (List.cons_ne_nil b more)
          rw [if_neg (by rw [List.length_cons] at hlen; omega), List.getElem?_cons_zero]
          by_cases hb : b = 0x0d
          · subst hb
            cases more with
            | nil =>
                rw [if_pos ⟨rfl, by simp at hlen; omega⟩]
                rfl
            | cons c more =>
                rw [if_neg (by rintro ⟨-, hle⟩; simp at hlen; omega)]
                by_cases hc : c = 0x0a
                · subst hc
                  rw [if_pos ⟨rfl, rfl⟩]
                  show Except.ok (hs, pos + 2) = .ok (hs ++ [], pos + 2)
                  rw [List.append_nil]
                · rw [if_neg (by rintro ⟨-, heq⟩; exact hc (Option.some.inj heq)), blankOr_cr hc]
                  exact hmore
          · have hne : some b ≠ some 0x0d := fun h => hb (Option.some.inj h)
            rw [if_neg (fun h => hne h.1), if_neg (fun h => hne h.1), blankOr_of_ne hb]
            exact hmore

/-! ## The head -/

def crlf : Bytes := [0x0d, 0x0a]

/-- What `parse` makes of the bytes before the first CRLF. -/
def statusOf (bytes : Bytes) : Except ParseError (Version × StatusCode × Bytes) := do
  if bytes.length < 12 then throw .invalidVersion
  let version ← Version.tryFrom (bytes.take 8)
  if bytes[8]? ≠ some 0x20 then throw .invalidVersion
  let status ← StatusCode.tryFrom ((bytes.drop 9).take 3)
  let reason ← match bytes[12]? with
    | none => pure []
    | some b => if b = 0x20 then pure (bytes.drop 13) else throw ParseError.invalidStatusCode
  if reason.any isCtl then throw .invalidReasonPhrase
  return (version, status, reason)

def statusLine : Parser UInt8 ParseError (Version × StatusCode × Bytes) :=
  andThen (Bytes.upto crlf) fun line _ => of (statusOf line)

/-- A head: the status line and the lines behind it. -/
def headOf (slots fuel : Nat) : Parser UInt8 ParseError ResponseHead :=
  andThen statusLine fun status n =>
    andThen (lines fuel n slots) fun hs _ => of (.ok ⟨status.1, status.2.1, status.2.2, hs⟩)

theorem stable_statusLine : Stable .incomplete statusLine :=
  (Bytes.stable_upto (List.cons_ne_nil _ _)).andThen fun _ _ => Parser.stable_of _ _

theorem stable_headOf (slots fuel : Nat) : Stable .incomplete (headOf slots fuel) :=
  stable_statusLine.andThen fun _ n => (stable_lines fuel n slots).andThen fun _ _ => Parser.stable_of _ _

/-- What follows the checks of the status line. -/
theorem statusOf_bind {α : Type} (bytes : Bytes) (k : Version × StatusCode × Bytes → Except ParseError α) :
    (do
      if bytes.length < 12 then throw .invalidVersion
      let version ← Version.tryFrom (bytes.take 8)
      if bytes[8]? ≠ some 0x20 then throw .invalidVersion
      let status ← StatusCode.tryFrom ((bytes.drop 9).take 3)
      let reason ← match bytes[12]? with
        | none => pure []
        | some b => if b = 0x20 then pure (bytes.drop 13) else throw ParseError.invalidStatusCode
      if reason.any isCtl then throw .invalidReasonPhrase
      k (version, status, reason)) = statusOf bytes >>= k := by
  unfold statusOf
  by_cases hlen : bytes.length < 12
  · rw [if_pos hlen, if_pos hlen]
    rfl
  rw [if_neg hlen, if_neg hlen]
  cases Version.tryFrom (bytes.take 8) with
  | error e => rfl
  | ok version =>
      show (if bytes[8]? ≠ some 0x20 then _ else _) = (if bytes[8]? ≠ some 0x20 then _ else _) >>= k
      by_cases hspace : bytes[8]? ≠ some 0x20
      · rw [if_pos hspace, if_pos hspace]
        rfl
      rw [if_neg hspace, if_neg hspace]
      cases StatusCode.tryFrom ((bytes.drop 9).take 3) with
      | error e => rfl
      | ok status =>
          have hreason : ∀ reason : Bytes,
              (do
                if reason.any isCtl then throw .invalidReasonPhrase
                k (version, status, reason)) =
              (do
                if reason.any isCtl then throw .invalidReasonPhrase
                return (version, status, reason) : Except ParseError (Version × StatusCode × Bytes)) >>= k := by
            intro reason
            by_cases hctl : reason.any isCtl = true
            · rw [if_pos hctl, if_pos hctl]
              rfl
            · rw [if_neg hctl, if_neg hctl]
              rfl
          cases hb : bytes[12]? with
          | none => exact hreason []
          | some b =>
              by_cases hsp : b = 0x20
              · have hgo := hreason (bytes.drop 13)
                simp only [hsp, if_true]
                exact hgo
              · simp only [hsp, if_false]
                rfl

/-- The status line, and the lines behind it. -/
theorem parse_line {buf : Bytes} {p : Nat} (h : Bytes.findCrlf buf = some p) (slots : Nat) :
    parse buf slots = statusOf (buf.take p) >>= fun status => do
      let (headers, consumed) ← parseHeaders buf (buf.length + 1) (p + 2) slots []
      return (⟨status.1, status.2.1, status.2.2, headers⟩, consumed) := by
  rw [← statusOf_bind]
  unfold parse
  rewrite [h]
  rfl

theorem parse_eq {buf : Bytes} {fuel : Nat} (hfuel : buf.length < fuel) (slots : Nat) :
    parse buf slots = headOf slots fuel buf := by
  unfold headOf statusLine
  cases hp : Bytes.findWindow [0x0d, 0x0a] buf with
  | none =>
      have hupto : Bytes.upto crlf buf = .error .incomplete := by
        unfold Bytes.upto crlf
        rw [hp]
      rw [Parser.andThen_error (Parser.andThen_error hupto)]
      unfold parse Bytes.findCrlf Bytes.findSubsequence
      rw [if_neg (by decide), hp]
      rfl
  | some p =>
      have hupto : Bytes.upto crlf buf = .ok (buf.take p, p + 2) := by
        unfold Bytes.upto crlf
        rw [hp]
        rfl
      have hstatus : andThen (Bytes.upto crlf) (fun line _ => of (statusOf line)) buf =
          (statusOf (buf.take p)).map fun status => (status, p + 2) := by
        rw [Parser.andThen_of_ok hupto, of]
        cases statusOf (buf.take p) with
        | error e => rfl
        | ok status => rfl
      rw [parse_line hp]
      cases hof : statusOf (buf.take p) with
      | error e =>
          rw [hof] at hstatus
          rw [Parser.andThen_error hstatus]
          rfl
      | ok status =>
          rw [hof] at hstatus
          rw [Parser.andThen_of_ok hstatus]
          have hlen : (buf.drop (p + 2)).length ≤ buf.length := by
            rw [List.length_drop]
            exact Nat.sub_le _ _
          have hsame := lines_fuel (Nat.lt_succ_of_le hlen) (Nat.lt_of_le_of_lt hlen hfuel) (p + 2) slots
          show (do
            let (headers, consumed) ← parseHeaders buf (buf.length + 1) (p + 2) slots []
            return (⟨status.1, status.2.1, status.2.2, headers⟩, consumed) : Except ParseError (ResponseHead × Nat)) = _
          rw [parseHeaders_eq, hsame]
          unfold andThen
          cases lines fuel (p + 2) slots (buf.drop (p + 2)) with
          | error e => rfl
          | ok r => rfl

/-- **The parser is stable.** -/
theorem stable_parse (slots : Nat) : Stable .incomplete fun buf => parse buf slots :=
  .of_fuel (stable_headOf slots) fun _ _ hfuel => (parse_eq hfuel slots).symm

/-! ## The lines of a head -/

/-- Lines that are not blank, and the blank line behind them. -/
def blankEnded (ls : List Bytes) : Bytes := (ls.map (· ++ crlf)).flatten ++ crlf

/-- A line that a head may have behind its status line. -/
def IsLine (line : Bytes) : Prop := line ≠ [] ∧ 0x0d ∉ line

theorem lines_ok {fuel pos slots n : Nat} {xs : Bytes} {hs : List HeaderSlice} (h : lines fuel pos slots xs = .ok (hs, n)) :
    ∃ ls rest, (∀ l ∈ ls, IsLine l) ∧ xs = blankEnded ls ++ rest ∧ n = (blankEnded ls).length := by
  induction fuel generalizing pos slots n xs hs with
  | zero => cases h
  | succ fuel ih =>
      have hfield : ∀ {n}, field pos slots (lines fuel) xs = .ok (hs, n) →
          ∃ ls rest, (∀ l ∈ ls, IsLine l) ∧ xs = blankEnded ls ++ rest ∧ n = (blankEnded ls).length := by
        intro n h
        obtain ⟨header, n₁, m, hline, hrest, rfl⟩ := Parser.andThen_ok h
        obtain ⟨line, rest, rfl, hne, hcr, rfl⟩ := headerLine_ok hline
        have hdrop : (line ++ 0x0d :: 0x0a :: rest).drop (line.length + 2) = rest := by
          rw [List.drop_length_add_append]
          rfl
        rw [hdrop] at hrest
        cases slots with
        | zero => cases hrest
        | succ slots =>
            obtain ⟨hs', n₂, m₂, hlines, hend, rfl⟩ := Parser.andThen_ok hrest
            cases hend
            obtain ⟨ls, rest', hls, rfl, rfl⟩ := ih hlines
            refine ⟨line :: ls, rest', ?_, ?_, ?_⟩
            · intro l hl
              rcases List.mem_cons.mp hl with rfl | hl
              · exact ⟨hne, hcr⟩
              · exact hls l hl
            · simp [blankEnded, crlf]
            · simp [blankEnded, crlf]
              omega
      have h : blankOr (field pos slots (lines fuel)) xs = .ok (hs, n) := h
      match xs with
      | [] => cases h
      | b :: rest =>
          by_cases hb : b = 0x0d
          · subst hb
            match rest with
            | [] => cases h
            | c :: rest =>
                by_cases hc : c = 0x0a
                · subst hc
                  cases h
                  exact ⟨[], rest, nofun, rfl, rfl⟩
                · rw [blankOr_cr hc] at h
                  exact hfield h
          · rw [blankOr_of_ne hb] at h
            exact hfield h

/-- A head is a status line, lines without a CR, and a blank line. -/
theorem parse_ok {buf : Bytes} {slots n : Nat} {head : ResponseHead} (h : parse buf slots = .ok (head, n)) :
    ∃ p ls rest, Bytes.findWindow crlf buf = some p ∧ (∀ l ∈ ls, IsLine l) ∧
      buf = buf.take p ++ crlf ++ blankEnded ls ++ rest ∧ n = p + 2 + (blankEnded ls).length := by
  rw [parse_eq (Nat.lt_succ_self _)] at h
  obtain ⟨status, n₁, m₁, hstatus, hrest, rfl⟩ := Parser.andThen_ok h
  obtain ⟨line, n₂, m₂, hupto, hof, rfl⟩ := Parser.andThen_ok hstatus
  obtain ⟨p, hp, rfl, rfl⟩ := Bytes.upto_ok hupto
  have hm₂ : m₂ = 0 := by
    unfold of at hof
    cases hs : statusOf (buf.take p) with
    | error e =>
        rw [hs] at hof
        cases hof
    | ok status =>
        rw [hs] at hof
        cases hof
        rfl
  subst hm₂
  obtain ⟨hs, n₃, m₃, hlines, hend, rfl⟩ := Parser.andThen_ok hrest
  cases hend
  obtain ⟨ls, rest, hls, hdrop, rfl⟩ := lines_ok hlines
  refine ⟨p, ls, rest, hp, hls, ?_, rfl⟩
  have hcrlf : buf.drop p = crlf ++ buf.drop (p + 2) := by
    obtain ⟨after, hafter⟩ := Bytes.findWindow_eq_some hp
    have hskip : buf.drop (p + 2) = after := by
      rw [← List.drop_drop, ← hafter]
      rfl
    rw [hskip, hafter]
  have hdrop : buf.drop (p + 2) = blankEnded ls ++ rest := hdrop
  rw [List.append_assoc, List.append_assoc, ← hdrop, ← hcrlf, List.take_append_drop]

/-- A blank line starts with the CR of the line before it, and has its own two bytes on. -/
theorem blankLine_bytes {xs : Bytes} {q : Nat} (h : crlf ++ crlf <+: xs.drop q) :
    xs[q]? = some 0x0d ∧ xs[q + 2]? = some 0x0d := by
  obtain ⟨rest, hrest⟩ := h
  have hget : ∀ k, xs[q + k]? = (xs.drop q)[k]? := fun k => by rw [List.getElem?_drop]
  have h0 := hget 0
  have h2 := hget 2
  rw [← hrest] at h0 h2
  exact ⟨h0, h2⟩

/-- The first blank line of lines that are not blank is the one behind them. -/
theorem find_blankEnded {ls : List Bytes} (hls : ∀ l ∈ ls, IsLine l) (rest : Bytes) :
    Bytes.findWindow (crlf ++ crlf) (crlf ++ blankEnded ls ++ rest) = some ((blankEnded ls).length - 2) := by
  induction ls with
  | nil => rfl
  | cons l ls ih =>
      obtain ⟨hne, hcr⟩ := hls l List.mem_cons_self
      have hsplit : crlf ++ blankEnded (l :: ls) ++ rest = crlf ++ l ++ (crlf ++ blankEnded ls ++ rest) := by
        simp [blankEnded]
      have hskip : ∀ q < 2 + l.length, ¬ crlf ++ crlf <+: (crlf ++ l ++ (crlf ++ blankEnded ls ++ rest)).drop q := by
        intro q hq hpre
        obtain ⟨h0, h2⟩ := blankLine_bytes hpre
        match q with
        | 0 =>
            -- the line is not blank
            cases l with
            | nil => exact hne rfl
            | cons x l =>
                cases h2
                exact hcr List.mem_cons_self
        | 1 => cases h0
        | q + 2 =>
            have hmem : l[q]? = some 0x0d := by
              have hlt : q < l.length := by omega
              have happ : (l ++ (crlf ++ blankEnded ls ++ rest))[q]? = some 0x0d := h0
              rw [List.getElem?_append_left hlt] at happ
              exact happ
            exact hcr (List.mem_of_getElem? hmem)
      have hlen : (crlf ++ l).length = 2 + l.length := by
        rw [List.length_append]
        rfl
      rw [hsplit, Bytes.findWindow_drop (2 + l.length) _ hskip, ← hlen, List.drop_left, ih fun l' hl' =>
        hls l' (List.mem_cons_of_mem l hl')]
      simp [blankEnded, crlf]
      omega

/-- **The head ends with the first blank line.** -/
theorem parse_first_blank {buf : Bytes} {slots n : Nat} {head : ResponseHead} (h : parse buf slots = .ok (head, n)) :
    4 ≤ n ∧ Bytes.findWindow (crlf ++ crlf) buf = some (n - 4) := by
  obtain ⟨p, ls, rest, hp, hls, hbuf, rfl⟩ := parse_ok h
  have hlen : 2 ≤ (blankEnded ls).length := by
    rw [blankEnded, List.length_append]
    exact Nat.le_add_left _ _
  have hne : crlf ≠ [] := List.cons_ne_nil _ _
  have hfirst : ∀ q < p, ¬ crlf ++ crlf <+: buf.drop q := by
    intro q hq hpre
    exact ((Bytes.findWindow_iff hne).mp hp).2 q hq ((List.prefix_append crlf crlf).trans hpre)
  have hple : p ≤ buf.length := Nat.le_trans (Nat.le_add_right _ _) (Bytes.length_of_prefix_drop hne (Bytes.findWindow_eq_some hp))
  have hdrop : buf.drop p = crlf ++ blankEnded ls ++ rest := by
    have htake : (buf.take p).length = p := List.length_take_of_le hple
    have happ := congrArg (List.drop p) hbuf
    rw [List.append_assoc, List.append_assoc, List.drop_append_of_le_length (Nat.le_of_eq htake.symm),
      List.drop_of_length_le (Nat.le_of_eq htake), List.nil_append, ← List.append_assoc] at happ
    exact happ
  refine ⟨by omega, ?_⟩
  rw [Bytes.findWindow_drop p buf hfirst, hdrop, find_blankEnded hls rest]
  simp only [Option.map_some, Option.some.injEq]
  omega

/-- **`ResponseHead::parse` is stable under incremental input.** A head it accepts ends just past the first blank line of
    the buffer, does not depend on what follows, and is asked for as long as any of it is missing; any other error is
    final. -/
theorem parse_stable (buf : Bytes) (slots : Nat) :
    (∀ head n, parse buf slots = .ok (head, n) →
      (4 ≤ n ∧ Bytes.findSubsequence buf (ascii "\r\n\r\n") = some (n - 4)) ∧
      (∀ suffix, parse (buf.take n ++ suffix) slots = .ok (head, n)) ∧
      ∀ k < n, parse (buf.take k) slots = .error .incomplete) ∧
    ∀ e, parse buf slots = .error e → e ≠ .incomplete → ∀ suffix, parse (buf ++ suffix) slots = .error e := by
  have hstable := stable_parse slots
  refine ⟨?_, ?_⟩
  · intro head n h
    refine ⟨?_, ?_, ?_⟩
    · exact parse_first_blank h
    · intro suffix
      exact hstable.extend h suffix
    · intro k hk
      exact hstable.cut h k hk
  · intro e h hne suffix
    exact hstable.failed h hne suffix

/-! ## What more input can complete -/

/-- A CR that something other than a LF follows. -/
def strayCr : Bytes → Bool
  | a :: b :: rest => (a == 0x0d && b != 0x0a) || strayCr (b :: rest)
  | _ => false

/-- The lines that have arrived with their CRLF. -/
def lineCount : Bytes → Nat
  | a :: b :: rest => (if a = 0x0d ∧ b = 0x0a then 1 else 0) + lineCount (b :: rest)
  | _ => 0

theorem strayCr_iff {xs : Bytes} : strayCr xs = true ↔ 
    ∃ (i : Nat) (c : UInt8), xs[i]? = some 0x0d ∧ xs[i + 1]? = some c ∧ c ≠ 0x0a := by
  induction xs with
  | nil =>
      constructor
      · nofun
      · rintro ⟨i, c, h, -⟩
        cases h
  | cons a xs ih =>
      cases xs with
      | nil =>
          constructor
          · nofun
          · rintro ⟨i, c, -, h, -⟩
            cases h
      | cons b rest =>
          rw [strayCr, Bool.or_eq_true, ih, Bool.and_eq_true, beq_iff_eq, bne_iff_ne]
          constructor
          · rintro (⟨rfl, hb⟩ | ⟨i, c, hi, hc, hne⟩)
            · exact ⟨0, b, rfl, rfl, hb⟩
            · exact ⟨i + 1, c, hi, hc, hne⟩
          · rintro ⟨i, c, hi, hc, hne⟩
            cases i with
            | zero =>
                cases hi
                cases hc
                exact .inl ⟨rfl, hne⟩
            | succ i => exact .inr ⟨i, c, hi, hc, hne⟩

theorem strayCr_suffix (xs : Bytes) {ys : Bytes} (h : strayCr (xs ++ ys) = false) : strayCr ys = false := by
  rw [← Bool.not_eq_true, strayCr_iff] at h ⊢
  rintro ⟨i, c, hi, hc, hne⟩
  refine h ⟨xs.length + i, c, ?_, ?_, hne⟩
  · rw [List.getElem?_append_right (Nat.le_add_right _ _), Nat.add_sub_cancel_left]
    exact hi
  · rw [Nat.add_assoc, List.getElem?_append_right (Nat.le_add_right _ _), Nat.add_sub_cancel_left]
    exact hc

theorem lineCount_line {line : Bytes} (h : 0x0d ∉ line) (rest : Bytes) :
    lineCount (line ++ 0x0d :: 0x0a :: rest) = lineCount rest + 1 := by
  induction line with
  | nil =>
      rw [List.nil_append, lineCount, if_pos ⟨rfl, rfl⟩, Nat.add_comm]
      cases rest with
      | nil => rfl
      | cons c rest =>
          rw [lineCount, if_neg (by rintro ⟨h, -⟩; cases h), Nat.zero_add]
  | cons a line ih =>
      have ha : a ≠ 0x0d := fun ha => h (ha ▸ List.mem_cons_self)
      have ih := ih fun hmem => h (List.mem_cons_of_mem a hmem)
      cases line with
      | nil =>
          rw [List.nil_append] at ih
          rw [List.singleton_append, lineCount, if_neg (fun hab => ha hab.1), Nat.zero_add, ih]
      | cons b line =>
          rw [List.cons_append] at ih
          rw [List.cons_append, List.cons_append, lineCount, if_neg (fun hab => ha hab.1), Nat.zero_add, ih]

theorem headerLine_of {name raw : Bytes} (hne : name ≠ []) (hname : ∀ b ∈ name, nameByte b = .ok false)
    (hraw : ∀ b ∈ raw, valueByte b = .ok false) :
    headerLine (name ++ 0x3a :: (raw ++ [0x0d, 0x0a])) =
      .ok (headerOf name raw, (name ++ 0x3a :: (raw ++ [0x0d, 0x0a])).length) := by
  have hcolon : scan .incomplete nameByte (name ++ 0x3a :: (raw ++ [0x0d, 0x0a])) = .ok (name, name.length + 1) := by
    rw [Parser.scan_append _ hname, Parser.scan_stop (show nameByte 0x3a = .ok true by decide)]
    show Except.ok (name ++ [], 1 + name.length) = _
    rw [List.append_nil, Nat.add_comm]
  have hcr : scan .incomplete valueByte (raw ++ [0x0d, 0x0a]) = .ok (raw, raw.length + 1) := by
    rw [Parser.scan_append _ hraw, Parser.scan_stop (show valueByte 0x0d = .ok true by decide)]
    show Except.ok (raw ++ [], 1 + raw.length) = _
    rw [List.append_nil, Nat.add_comm]
  have hfeed : next .incomplete lineFeed [0x0a] = .ok ((), 1) := by decide
  unfold headerLine
  rw [Parser.andThen_of_ok hcolon, if_neg hne, List.drop_length_add_append]
  show Except.map _ (andThen _ _ (raw ++ [0x0d, 0x0a])) = _
  rw [Parser.andThen_of_ok hcr, List.drop_length_add_append]
  show Except.map _ (Except.map _ (andThen _ _ [0x0a])) = _
  rw [Parser.andThen_of_ok hfeed]
  show Except.ok (headerOf name raw, name.length + 1 + (raw.length + 1 + (1 + 0))) = _
  rw [List.length_append, List.length_cons, List.length_append, List.length_cons, List.length_singleton]
  congr 2
  omega

/-- A line that is still arriving can be completed, unless a stray CR stands in it. -/
theorem headerLine_completable {xs : Bytes} (hne : xs ≠ []) (hmore : headerLine xs = .error .incomplete)
    (hstray : strayCr xs = false) : ∃ ys h, headerLine (xs ++ ys) = .ok (h, (xs ++ ys).length) := by
  have hname_ne : ∀ b, nameByte b ≠ .error .incomplete := by
    intro b h
    unfold nameByte at h
    split at h
    · cases h
    · split at h
      · cases h
      · cases h
  have hvalue_ne : ∀ b, valueByte b ≠ .error .incomplete := by
    intro b h
    unfold valueByte at h
    split at h
    · split at h
      · cases h
      · cases h
    · cases h
  cases hname : scan .incomplete nameByte xs with
  | error e =>
      have he : e = .incomplete := by
        unfold headerLine at hmore
        rw [Parser.andThen_error hname] at hmore
        exact Except.error.inj hmore
      subst he
      -- the name has no end yet
      have hall := Parser.scan_eq_more hname_ne hname
      refine ⟨0x3a :: ([] ++ [0x0d, 0x0a]), _, headerLine_of hne hall nofun⟩
  | ok r =>
      obtain ⟨name, n⟩ := r
      obtain ⟨c, rest, rfl, rfl, hc, hall⟩ := Parser.scan_ok hname
      have hc := nameByte_true hc
      subst hc
      unfold headerLine at hmore
      rw [Parser.andThen_of_ok hname] at hmore
      by_cases hnil : name = []
      · rw [if_pos hnil] at hmore
        cases hmore
      rw [if_neg hnil, List.drop_length_add_append] at hmore
      have hmore : Except.map _ (andThen (scan .incomplete valueByte) _ rest) = .error .incomplete := hmore
      cases hvalue : scan .incomplete valueByte rest with
      | error e =>
          have he : e = .incomplete := by
            rw [Parser.andThen_error hvalue] at hmore
            exact Except.error.inj hmore
          subst he
          -- the value has no end yet
          have hvalues := Parser.scan_eq_more hvalue_ne hvalue
          refine ⟨[0x0d, 0x0a], headerOf name rest, ?_⟩
          have happ : name ++ 0x3a :: rest ++ [0x0d, 0x0a] = name ++ 0x3a :: (rest ++ [0x0d, 0x0a]) := by
            rw [List.append_assoc, List.cons_append]
          rw [happ]
          exact headerLine_of hnil hall hvalues
      | ok r =>
          obtain ⟨raw, n⟩ := r
          obtain ⟨d, rest, rfl, rfl, hd, hvalues⟩ := Parser.scan_ok hvalue
          have hd := valueByte_true hd
          subst hd
          rw [Parser.andThen_of_ok hvalue, List.drop_length_add_append] at hmore
          cases rest with
          | nil =>
              -- the CR is the last byte that has arrived
              refine ⟨[0x0a], headerOf name raw, ?_⟩
              have happ : name ++ 0x3a :: (raw ++ [0x0d]) ++ [0x0a] = name ++ 0x3a :: (raw ++ [0x0d, 0x0a]) := by
                rw [List.append_assoc, List.cons_append, List.append_assoc, List.singleton_append]
              rw [happ]
              exact headerLine_of hnil hall hvalues
          | cons b rest =>
              by_cases hb : b = 0x0a
              · subst hb
                cases hmore
              · have hsome : strayCr (name ++ 0x3a :: (raw ++ 0x0d :: b :: rest)) = true := by
                  have happ : name ++ 0x3a :: (raw ++ 0x0d :: b :: rest) = (name ++ 0x3a :: raw) ++ (0x0d :: b :: rest) := by
                    rw [List.append_assoc, List.cons_append]
                  rw [happ, ← Bool.not_eq_false]
                  intro hnone
                  have htail := strayCr_suffix _ hnone
                  rw [strayCr, Bool.or_eq_false_iff, Bool.and_eq_false_iff] at htail
                  rcases htail.1 with h | h
                  · cases h
                  · exact hb (by simpa using h)
                rw [hsome] at hstray
                cases hstray

/-- Lines that are still arriving can be completed, unless a stray CR stands in them. -/
theorem lines_completable {fuel pos slots : Nat} {xs : Bytes} (hfuel : xs.length < fuel)
    (hmore : lines fuel pos slots xs = .error .incomplete) (hslots : lineCount xs < slots) (hstray : strayCr xs = false) :
    ∃ ys, ∀ fuel', (xs ++ ys).length < fuel' → ∃ hs n, lines fuel' pos slots (xs ++ ys) = .ok (hs, n) := by
  induction fuel generalizing pos slots xs with
  | zero => cases hfuel
  | succ fuel ih =>
      have hmore : blankOr (field pos slots (lines fuel)) xs = .error .incomplete := hmore
      -- bytes that start with something other than a CR
      have hline : ∀ {b rest}, xs = b :: rest → b ≠ 0x0d →
          ∃ ys, ∀ fuel', (xs ++ ys).length < fuel' → ∃ hs n, lines fuel' pos slots (xs ++ ys) = .ok (hs, n) := by
        intro b rest hxs hb
        have hfield : field pos slots (lines fuel) xs = .error .incomplete := by
          rw [hxs, blankOr_of_ne hb] at hmore
          rw [hxs]
          exact hmore
        obtain ⟨slots, rfl⟩ : ∃ k, slots = k + 1 := ⟨slots - 1, by omega⟩
        unfold field at hfield
        -- what a completed line and the lines behind it give
        have hcomplete : ∀ {ys h n hs m fuel'}, headerLine (xs ++ ys) = .ok (h, n) →
            lines fuel' (pos + n) slots ((xs ++ ys).drop n) = .ok (hs, m) →
            ∃ hs n, lines (fuel' + 1) pos (slots + 1) (xs ++ ys) = .ok (hs, n) := by
          intro ys h n hs m fuel' hh hlines
          refine ⟨shiftSlice pos h :: hs, n + (m + 0), ?_⟩
          show blankOr (field pos (slots + 1) (lines fuel')) (xs ++ ys) = _
          rw [hxs, List.cons_append, blankOr_of_ne hb, ← List.cons_append, ← hxs]
          unfold field
          rw [Parser.andThen_of_ok hh]
          dsimp only
          rw [Parser.andThen_of_ok hlines]
          rfl
        cases hh : headerLine xs with
        | error e =>
            rw [Parser.andThen_error hh] at hfield
            cases hfield
            obtain ⟨zs, h, hzs⟩ := headerLine_completable (by rw [hxs]; exact List.cons_ne_nil b rest) hh hstray
            refine ⟨zs ++ crlf, fun fuel' hfuel' => ?_⟩
            obtain ⟨f, rfl⟩ : ∃ f, fuel' = f + 2 := ⟨fuel' - 2, by simp [crlf] at hfuel'; omega⟩
            have hext := stable_headerLine.append hzs crlf
            rw [List.append_assoc] at hext
            have hend : lines (f + 1) (pos + (xs ++ zs).length) slots ((xs ++ (zs ++ crlf)).drop (xs ++ zs).length) =
                .ok ([], 2) := by
              rw [← List.append_assoc, List.drop_left]
              rfl
            exact hcomplete hext hend
        | ok r =>
            obtain ⟨h, n⟩ := r
            rw [Parser.andThen_of_ok hh] at hfield
            obtain ⟨line, after, hsplit, -, hcr, rfl⟩ := headerLine_ok hh
            have hdrop : xs.drop (line.length + 2) = after := by
              rw [hsplit, List.drop_length_add_append]
              rfl
            have hrest : lines fuel (pos + (line.length + 2)) slots after = .error .incomplete := by
              rw [hdrop] at hfield
              unfold andThen at hfield
              cases hl : lines fuel (pos + (line.length + 2)) slots after with
              | error e =>
                  simp only [hl] at hfield
                  exact hfield
              | ok r =>
                  simp only [hl] at hfield
                  cases hfield
            have hcount : lineCount after < slots := by
              rw [hsplit, lineCount_line hcr] at hslots
              exact Nat.lt_of_succ_lt_succ hslots
            have hlen : after.length < fuel := by
              rw [hsplit, List.length_append, List.length_cons, List.length_cons] at hfuel
              omega
            have hstray' : strayCr after = false := by
              refine strayCr_suffix (line ++ [0x0d, 0x0a]) ?_
              rw [List.append_assoc, ← hstray, hsplit]
              rfl
            obtain ⟨ys, hys⟩ := ih hlen hrest hcount hstray'
            refine ⟨ys, fun fuel' hfuel' => ?_⟩
            obtain ⟨f, rfl⟩ : ∃ f, fuel' = f + 1 := ⟨fuel' - 1, by omega⟩
            have hafter : (xs ++ ys).drop (line.length + 2) = after ++ ys := by
              rw [List.drop_append_of_le_length (stable_headerLine.length_le hh), hdrop]
            have hlt : (after ++ ys).length < f := by
              have hle := (stable_headerLine.length_le (stable_headerLine.append hh ys))
              rw [← hafter, List.length_drop]
              omega
            obtain ⟨hs, m, hlines⟩ := hys f hlt
            rw [← hafter] at hlines
            exact hcomplete (stable_headerLine.append hh ys) hlines
      match hxs : xs with
      | [] =>
          refine ⟨crlf, fun fuel' hfuel' => ⟨[], 2, ?_⟩⟩
          obtain ⟨f, rfl⟩ : ∃ f, fuel' = f + 1 := ⟨fuel' - 1, by omega⟩
          rfl
      | b :: rest =>
          by_cases hb : b = 0x0d
          · subst hb
            match rest with
            | [] =>
                refine ⟨[0x0a], fun fuel' hfuel' => ⟨[], 2, ?_⟩⟩
                obtain ⟨f, rfl⟩ : ∃ f, fuel' = f + 1 := ⟨fuel' - 1, by omega⟩
                rfl
            | c :: rest =>
                by_cases hc : c = 0x0a
                · subst hc
                  cases hmore
                · rw [blankOr_cr hc] at hmore
                  unfold field at hmore
                  rw [Parser.andThen_error (headerLine_cr _)] at hmore
                  cases hmore
          · exact hline rfl hb

theorem blankEnded_cr {ls : List Bytes} (hls : ∀ l ∈ ls, IsLine l) {i : Nat} (h : (blankEnded ls)[i]? = some 0x0d) :
    (blankEnded ls)[i + 1]? = some 0x0a := by
  induction ls generalizing i with
  | nil =>
      match i with
      | 0 => rfl
      | 1 => cases h
      | i + 2 => cases h
  | cons l ls ih =>
      have hcr := (hls l List.mem_cons_self).2
      have hsplit : blankEnded (l :: ls) = l ++ (0x0d :: 0x0a :: blankEnded ls) := by
        simp [blankEnded, crlf]
      rw [hsplit] at h ⊢
      by_cases hi : i < l.length
      · rw [List.getElem?_append_left hi] at h
        exact absurd (List.mem_of_getElem? h) hcr
      obtain ⟨j, rfl⟩ := Nat.exists_eq_add_of_le (Nat.le_of_not_lt hi)
      rw [List.getElem?_append_right (Nat.le_add_right _ _), Nat.add_sub_cancel_left] at h
      rw [Nat.add_assoc, List.getElem?_append_right (Nat.le_add_right _ _), Nat.add_sub_cancel_left]
      match j with
      | 0 => rfl
      | 1 => cases h
      | j + 2 => exact ih (fun l' hl' => hls l' (List.mem_cons_of_mem l hl')) h

section

variable {buf : Bytes} {p slots : Nat}

theorem findWindow_crlf (h : Bytes.findCrlf buf = some p) : Bytes.findWindow crlf buf = some p := h

/-- Bytes with a stray CR behind the status line that are not a head cannot become one. -/
theorem not_completable (hline : Bytes.findCrlf buf = some p) (hmore : parse buf slots = .error .incomplete)
    (hstray : strayCr (buf.drop (p + 2)) = true) {suffix : Bytes} {head : ResponseHead} {n : Nat} :
    parse (buf ++ suffix) slots ≠ .ok (head, n) := by
  intro h
  obtain ⟨i, c, hi, hc, hne⟩ := strayCr_iff.mp hstray
  have hcrlf : crlf ≠ [] := List.cons_ne_nil _ _
  have hline := findWindow_crlf hline
  obtain ⟨p', ls, rest, hp', hls, hsplit, rfl⟩ := parse_ok h
  have hfirst : p + crlf.length ≤ buf.length := Bytes.length_of_prefix_drop hcrlf (Bytes.findWindow_eq_some hline)
  have hp : p' = p := by
    have hsame : Bytes.findWindow crlf (buf ++ suffix) = some p := by
      refine Bytes.findWindow_congr hcrlf hline ?_
      rw [List.take_append_of_le_length hfirst]
    exact Option.some.inj (hp'.symm.trans hsame)
  subst hp
  have hfirst : p' + 2 ≤ buf.length := hfirst
  -- the bytes behind the status line
  have hafter : buf.drop (p' + 2) ++ suffix = blankEnded ls ++ rest := by
    have htake : (buf ++ suffix).take p' ++ crlf = (buf ++ suffix).take (p' + 2) := by
      obtain ⟨tail, htail⟩ := Bytes.findWindow_eq_some hp'
      rw [List.take_add, ← htail]
      rfl
    have hlen : ((buf ++ suffix).take (p' + 2)).length = p' + 2 := by
      rw [List.length_take, List.length_append]
      omega
    have hdrop := congrArg (List.drop (p' + 2)) hsplit
    rw [htake, List.append_assoc, List.drop_append_of_le_length hfirst,
      List.drop_append_of_le_length (Nat.le_of_eq hlen.symm), List.drop_of_length_le (Nat.le_of_eq hlen), List.nil_append] at hdrop
    exact hdrop
  have hget : ∀ {k : Nat} {b : UInt8}, (buf.drop (p' + 2))[k]? = some b → (blankEnded ls ++ rest)[k]? = some b := by
    intro k b hk
    obtain ⟨hlt, -⟩ := List.getElem?_eq_some_iff.mp hk
    rw [← hafter, List.getElem?_append_left hlt]
    exact hk
  by_cases hin : i + 1 < (blankEnded ls).length
  · -- within the head every CR is followed by a LF
    have hi := hget hi
    have hc := hget hc
    rw [List.getElem?_append_left (Nat.lt_of_succ_lt hin)] at hi
    rw [List.getElem?_append_left hin, blankEnded_cr hls hi] at hc
    cases hc
    exact hne rfl
  · -- the head had arrived already
    obtain ⟨hlt, -⟩ := List.getElem?_eq_some_iff.mp hc
    rw [List.length_drop] at hlt
    have hle : p' + 2 + (blankEnded ls).length ≤ buf.length := by omega
    have hext := (stable_parse slots).extend h (buf.drop (p' + 2 + (blankEnded ls).length))
    rw [List.take_append_of_le_length hle, List.take_append_drop] at hext
    have hext : parse buf slots = _ := hext
    rw [hmore] at hext
    cases hext

/-- Bytes without a stray CR behind an accepted status line can become a head. -/
theorem completable {status : Version × StatusCode × Bytes} (hline : Bytes.findCrlf buf = some p)
    (hstatus : statusOf (buf.take p) = .ok status) (hslots : lineCount (buf.drop (p + 2)) < slots)
    (hmore : parse buf slots = .error .incomplete) (hstray : strayCr (buf.drop (p + 2)) = false) :
    ∃ suffix head n, parse (buf ++ suffix) slots = .ok (head, n) := by
  have hline := findWindow_crlf hline
  have hfirst : p + 2 ≤ buf.length :=
    Bytes.length_of_prefix_drop (List.cons_ne_nil _ _) (Bytes.findWindow_eq_some hline)
  have hupto : Bytes.upto crlf buf = .ok (buf.take p, p + 2) := by
    unfold Bytes.upto
    rw [hline]
    rfl
  have hhead : statusLine buf = .ok (status, p + 2) := by
    unfold statusLine
    rw [Parser.andThen_of_ok hupto, of, hstatus]
    rfl
  have hfuel : (buf.drop (p + 2)).length < buf.length + 1 := by
    rw [List.length_drop]
    omega
  have hlines : lines (buf.length + 1) (p + 2) slots (buf.drop (p + 2)) = .error .incomplete := by
    rw [parse_eq (Nat.lt_succ_self _)] at hmore
    unfold headOf at hmore
    rw [Parser.andThen_of_ok hhead] at hmore
    cases hl : lines (buf.length + 1) (p + 2) slots (buf.drop (p + 2)) with
    | error e =>
        rw [Parser.andThen_error hl] at hmore
        cases hmore
        rfl
    | ok r =>
        rw [Parser.andThen_of_ok hl] at hmore
        cases hmore
  obtain ⟨ys, hys⟩ := lines_completable hfuel hlines hslots hstray
  have hdrop : (buf ++ ys).drop (p + 2) = buf.drop (p + 2) ++ ys := List.drop_append_of_le_length hfirst
  have hlt : (buf.drop (p + 2) ++ ys).length < (buf ++ ys).length + 1 := by
    rw [← hdrop, List.length_drop]
    omega
  obtain ⟨hs, n, hok⟩ := hys _ hlt
  refine ⟨ys, ⟨status.1, status.2.1, status.2.2, hs⟩, p + 2 + (n + 0), ?_⟩
  rw [parse_eq (Nat.lt_succ_self _)]
  unfold headOf
  rw [Parser.andThen_of_ok (stable_statusLine.append hhead ys), hdrop, Parser.andThen_of_ok hok]
  rfl

/-- **What `Incomplete` asks for.** When an accepted status line has arrived and there are free entries for the lines,
    more bytes can complete the head the parser asks for if and only if no CR behind the status line is followed by
    something other than a LF. -/
theorem parse_completable_iff {status : Version × StatusCode × Bytes} (hline : Bytes.findCrlf buf = some p)
    (hstatus : statusOf (buf.take p) = .ok status) (hslots : lineCount (buf.drop (p + 2)) < slots)
    (hmore : parse buf slots = .error .incomplete) :
    (∃ suffix head n, parse (buf ++ suffix) slots = .ok (head, n)) ↔ strayCr (buf.drop (p + 2)) = false := by
  constructor
  · rintro ⟨suffix, head, n, hok⟩
    rw [← Bool.not_eq_true]
    intro hstray
    exact not_completable hline hmore hstray hok
  · exact completable hline hstatus hslots hmore

/-- A head whose second header line has begun. -/
def begunHead : Bytes := ascii "HTTP/1.1 200 OK\r\nA: b\r\nC"

theorem parse_completable_iff_begun : ∃ suffix head n, parse (begunHead ++ suffix) 2 = .ok (head, n) := by
  have hline : Bytes.findCrlf begunHead = some 15 := by decide
  have hstatus : statusOf (begunHead.take 15) = .ok (.http11, ⟨200, by decide⟩, ascii "OK") := by decide
  exact (parse_completable_iff hline hstatus (by decide) (by decide)).mpr (by decide)

/-- A head with a CR in a value. -/
def strayHead : Bytes := ascii "HTTP/1.1 200 OK\r\nA: b\rc"

/-- The parser asks for more of a head that nothing can complete. -/
theorem incomplete_forever : (∃ p status, Bytes.findCrlf strayHead = some p ∧ statusOf (strayHead.take p) = .ok status ∧
      lineCount (strayHead.drop (p + 2)) < 64) ∧
    parse strayHead 64 = .error .incomplete ∧ ¬ ∃ suffix head n, parse (strayHead ++ suffix) 64 = .ok (head, n) := by
  have hline : Bytes.findCrlf strayHead = some 15 := by decide
  have hmore : parse strayHead 64 = .error .incomplete := by decide
  refine ⟨⟨15, (.http11, ⟨200, by decide⟩, ascii "OK"), hline, by decide, by decide⟩, hmore, ?_⟩
  rintro ⟨suffix, head, n, hok⟩
  exact not_completable hline hmore (by decide) hok

end

end ResponseHead

end Xibalba
