import Xibalba.Lib.Derivative
import Xibalba.Proto.Correctness.ChunkedRun

/-!
# `Proto.Correctness.ChunkedGrammar` — the grammar of a chunked body

The grammar of a chunked body with the decoder's limits is written down on its own, without any of the
decoder's phases or counters: `Ext` for the extension part, `TrailerLine`, and `ChunkedBody` for the whole.
For each place a reader can have come to in such a body, a predicate says what may still follow
(`ExtTail`, `SizeTail`, `DataRest`, `TrailerFrom`, …), and its derivative lemma says what one byte makes of
it. `Proto.Correctness.ChunkedExact` holds the decoder against them.

Layout:
* the grammar;
* the extension part: one residual language per phase, and their derivatives;
* the rest of a body: size line, data, trailer section.
-/

namespace Xibalba
namespace ChunkedGrammar

open ChunkedDecoder Derivative Computability

/-! ## The grammar -/

def CR : UInt8 := 0x0d
def LF : UInt8 := 0x0a

/-- `BWS`. -/
def BWS : Language UInt8 := (sym (isBws · = true))∗

/-- `token = 1*tchar`. -/
def token : Language UInt8 := sym (Tchar.isValid · = true) * (sym (Tchar.isValid · = true))∗

/-- One byte, as a language. -/
def byte (c : UInt8) : Language UInt8 := sym (· = c)

/-- `qdtext / quoted-pair`. -/
def quotedItem : Language UInt8 :=
  sym (fun b => isMetadataByte b = true ∧ b ≠ 0x22 ∧ b ≠ 0x5c)
    + byte 0x5c * sym (isMetadataByte · = true)

/-- `quoted-string = DQUOTE *( qdtext / quoted-pair ) DQUOTE`. -/
def quotedString : Language UInt8 := byte 0x22 * (quotedItem∗ * byte 0x22)

/-- `[ BWS "=" BWS ( token / quoted-string ) ]`. -/
def extValue : Language UInt8 := 1 + BWS * (byte 0x3d * (BWS * (token + quotedString)))

/-- `BWS ";" BWS token [ BWS "=" BWS ( token / quoted-string ) ]`. -/
def extItem : Language UInt8 := BWS * (byte 0x3b * (BWS * (token * extValue)))

/-- The extension part of a size line: `*( BWS ";" BWS token [ … ] ) BWS`. -/
def Ext : Language UInt8 := extItem∗ * BWS

/-- The number a string of hex digits denotes. -/
def hexValue (digits : Bytes) : Nat :=
  digits.foldl (fun v b => v * 16 + (HexDigit.decode b).getD 0) 0

/-- A size line: digits, extension part and CRLF, denoting `size`. -/
structure SizeLine (wire : Bytes) (size : Nat) : Prop where
  intro ::
  parts : ∃ digits ext, wire = digits ++ ext ++ [CR, LF] ∧
    1 ≤ digits.length ∧ digits.length ≤ 1024 ∧ (∀ b ∈ digits, (HexDigit.decode b).isSome) ∧
    hexValue digits = size ∧ ext ∈ Ext ∧ ext.length ≤ 4096

/-- A trailer line: `1*tchar ":" *( HTAB / byte >= 0x20 other than DEL ) CRLF`. -/
def TrailerLine (line : Bytes) : Prop :=
  ∃ name value, line = name ++ 0x3a :: value ++ [CR, LF] ∧ name ≠ [] ∧
    (∀ b ∈ name, Tchar.isValid b) ∧ ∀ b ∈ value, isMetadataByte b

/-- A trailer section: trailer lines whose bytes other than LF number at most 8192, then CRLF. -/
def TrailerSection (wire : Bytes) : Prop :=
  ∃ lines : List Bytes, wire = lines.flatten ++ [CR, LF] ∧ (∀ line ∈ lines, TrailerLine line) ∧
    lines.flatten.countP (· ≠ LF) ≤ 8192

/-- **The grammar.** `ChunkedBody wire body`: `wire` is a chunked body whose data fields, in order,
    concatenate to `body`. -/
inductive ChunkedBody : Bytes → Bytes → Prop where
  | last {line trailer : Bytes} : SizeLine line 0 → TrailerSection trailer →
      ChunkedBody (line ++ trailer) []
  | chunk {line data rest body : Bytes} : SizeLine line data.length → 1 ≤ data.length →
      data.length ≤ 2 ^ 64 - 1 → ChunkedBody rest body →
      ChunkedBody (line ++ data ++ [CR, LF] ++ rest) (data ++ body)

/-! ## Byte classes -/

theorem tchar_ne {b c : UInt8} (h : Tchar.isValid b) (hc : Tchar.isValid c = false) : b ≠ c := by
  rintro rfl
  rw [hc] at h
  exact absurd h (by simp)

theorem bws_iff {b : UInt8} : isBws b = true ↔ b = 0x20 ∨ b = 0x09 := by
  simp [isBws]

/-! ## What is left of an extension part -/

/-- The words that complete an extension part from a phase of the extension machine. -/
def extRest : ExtPhase → Language UInt8
  | .beforeName => BWS * (token * (extValue * Ext))
  | .name => (sym (Tchar.isValid · = true))∗ * (extValue * Ext)
  | .afterName => extValue * Ext
  | .beforeValue => BWS * ((token + quotedString) * Ext)
  | .valueToken => (sym (Tchar.isValid · = true))∗ * Ext
  | .valueQuoted => quotedItem∗ * (byte 0x22 * Ext)
  | .valueQuotedEscaped => sym (isMetadataByte · = true) * (quotedItem∗ * (byte 0x22 * Ext))
  | .afterValue => Ext

theorem mem_ext {x : Bytes} : x ∈ Ext ↔ x ∈ BWS ∨ x ∈ BWS * (byte 0x3b * extRest .beforeName) := by
  unfold Ext
  rw [mem_star_mul]
  simp only [extItem, extRest, Ext, mul_assoc]

theorem mem_afterName {x : Bytes} :
    x ∈ extRest .afterName ↔ x ∈ Ext ∨ x ∈ BWS * (byte 0x3d * extRest .beforeValue) := by
  simp only [extRest, extValue, mem_add_mul, mem_one_mul, mul_assoc]

theorem cons_mem_bws {b : UInt8} {x : Bytes} : b :: x ∈ BWS ↔ isBws b = true ∧ x ∈ BWS := by
  unfold BWS
  rw [mem_syms, mem_syms]
  exact List.forall_mem_cons

theorem cons_mem_bws_mul {b : UInt8} {x : Bytes} {m : Language UInt8} :
    b :: x ∈ BWS * m ↔ b :: x ∈ m ∨ isBws b = true ∧ x ∈ BWS * m :=
  cons_mem_syms_mul

theorem cons_mem_byte_mul {b c : UInt8} {x : Bytes} {m : Language UInt8} :
    b :: x ∈ byte c * m ↔ b = c ∧ x ∈ m :=
  cons_mem_sym_mul

theorem cons_mem_token_mul {b : UInt8} {x : Bytes} {m : Language UInt8} :
    b :: x ∈ token * m ↔ Tchar.isValid b = true ∧ x ∈ (sym (Tchar.isValid · = true))∗ * m := by
  rw [token, mem_mul_assoc, cons_mem_sym_mul]

theorem cons_mem_ext {b : UInt8} {x : Bytes} :
    b :: x ∈ Ext ↔ isBws b = true ∧ x ∈ Ext ∨ b = 0x3b ∧ x ∈ extRest .beforeName := by
  rw [mem_ext, mem_ext, cons_mem_bws, cons_mem_bws_mul, cons_mem_byte_mul]
  tauto

theorem cons_mem_afterName {b : UInt8} {x : Bytes} :
    b :: x ∈ extRest .afterName ↔ isBws b = true ∧ x ∈ extRest .afterName ∨
      b = 0x3b ∧ x ∈ extRest .beforeName ∨ b = 0x3d ∧ x ∈ extRest .beforeValue := by
  rw [mem_afterName, mem_afterName, cons_mem_ext, cons_mem_bws_mul, cons_mem_byte_mul]
  tauto

theorem cons_mem_beforeValue {b : UInt8} {x : Bytes} :
    b :: x ∈ extRest .beforeValue ↔ Tchar.isValid b = true ∧ x ∈ extRest .valueToken ∨
      b = 0x22 ∧ x ∈ extRest .valueQuoted ∨ isBws b = true ∧ x ∈ extRest .beforeValue := by
  simp only [extRest]
  rw [cons_mem_bws_mul, mem_add_mul, cons_mem_token_mul, quotedString, mem_mul_assoc,
    cons_mem_byte_mul, mem_mul_assoc]
  tauto

theorem cons_mem_valueQuoted {b : UInt8} {x : Bytes} :
    b :: x ∈ extRest .valueQuoted ↔ b = 0x22 ∧ x ∈ Ext ∨
      (isMetadataByte b = true ∧ b ≠ 0x22 ∧ b ≠ 0x5c) ∧ x ∈ extRest .valueQuoted ∨
      b = 0x5c ∧ x ∈ extRest .valueQuotedEscaped := by
  simp only [extRest]
  rw [mem_star_mul, cons_mem_byte_mul]
  conv_lhs => rw [show quotedItem = sym (fun b => isMetadataByte b = true ∧ b ≠ 0x22 ∧ b ≠ 0x5c)
    + byte 0x5c * sym (isMetadataByte · = true) from rfl]
  rw [mem_add_mul, cons_mem_sym_mul, mem_mul_assoc, cons_mem_byte_mul]
  rfl

/-- The bytes the extension machine gives a meaning of their own lie in no class it tests. -/
theorem classes_disjoint (b : UInt8) :
    (isBws b = true → Tchar.isValid b = false) ∧
    (b = 0x3b ∨ b = 0x3d ∨ b = 0x0d ∨ b = 0x22 → isBws b = false ∧ Tchar.isValid b = false) := by
  constructor
  · rw [bws_iff]
    rintro (rfl | rfl) <;> decide
  · rintro (rfl | rfl | rfl | rfl) <;> decide

/-- **Derivative of the extension part.** A byte that starts a completion from phase `p` is one the
    machine continues on, and the rest completes from the phase it moves to. -/
theorem cons_mem_extRest (p : ExtPhase) (b : UInt8) (x : Bytes) :
    b :: x ∈ extRest p ↔ ∃ p', stepExtension p b = .continue p' ∧ x ∈ extRest p' := by
  obtain ⟨hbws, hsep⟩ := classes_disjoint b
  cases p with
  | beforeName =>
      have h : b :: x ∈ extRest .beforeName ↔
          Tchar.isValid b = true ∧ x ∈ extRest .name ∨ isBws b = true ∧ x ∈ extRest .beforeName := by
        simp only [extRest]
        rw [cons_mem_bws_mul, cons_mem_token_mul]
      rw [h]
      simp only [stepExtension]
      grind
  | name =>
      have h : b :: x ∈ extRest .name ↔
          b :: x ∈ extRest .afterName ∨ Tchar.isValid b = true ∧ x ∈ extRest .name := cons_mem_syms_mul
      rw [h, cons_mem_afterName]
      simp only [stepExtension]
      grind
  | afterName =>
      rw [cons_mem_afterName]
      simp only [stepExtension]
      grind
  | beforeValue =>
      rw [cons_mem_beforeValue]
      simp only [stepExtension]
      grind
  | valueToken =>
      have h : b :: x ∈ extRest .valueToken ↔
          b :: x ∈ Ext ∨ Tchar.isValid b = true ∧ x ∈ extRest .valueToken := cons_mem_syms_mul
      rw [h, cons_mem_ext]
      simp only [stepExtension]
      grind [extRest]
  | valueQuoted =>
      rw [cons_mem_valueQuoted]
      simp only [stepExtension]
      grind [extRest]
  | valueQuotedEscaped =>
      have h : b :: x ∈ extRest .valueQuotedEscaped ↔
          isMetadataByte b = true ∧ x ∈ extRest .valueQuoted := cons_mem_sym_mul
      rw [h]
      simp only [stepExtension]
      grind
  | afterValue =>
      have h : b :: x ∈ extRest .afterValue ↔ b :: x ∈ Ext := Iff.rfl
      rw [h, cons_mem_ext]
      simp only [stepExtension]
      grind [extRest]

/-- The size line may end exactly in the phases that complete with nothing. -/
theorem stepExtension_endOfLine (p : ExtPhase) (b : UInt8) :
    stepExtension p b = .endOfLine ↔ b = CR ∧ [] ∈ extRest p := by
  have hext : [] ∈ Ext := mem_ext.mpr (.inl (Language.nil_mem_kstar _))
  have hafter : [] ∈ extRest .afterName := mem_afterName.mpr (.inl hext)
  have hnil : [] ∈ extRest p ↔ p = .name ∨ p = .afterName ∨ p = .valueToken ∨ p = .afterValue := by
    cases p with
    | beforeName =>
        simp only [extRest]
        rw [BWS, nil_mem_syms_mul, token, mem_mul_assoc]
        simp [nil_notMem_sym_mul]
    | name => exact iff_of_true (nil_mem_syms_mul.mpr hafter) (by simp)
    | afterName => exact iff_of_true hafter (by simp)
    | beforeValue =>
        simp only [extRest]
        rw [BWS, nil_mem_syms_mul, mem_add_mul, token, mem_mul_assoc, quotedString, mem_mul_assoc, byte]
        simp [nil_notMem_sym_mul]
    | valueToken => exact iff_of_true (nil_mem_syms_mul.mpr hext) (by simp)
    | valueQuoted =>
        simp only [extRest]
        rw [mem_star_mul, quotedItem, mem_add_mul, mem_mul_assoc, byte, byte]
        simp [nil_notMem_sym_mul]
    | valueQuotedEscaped => exact iff_of_false nil_notMem_sym_mul (by simp)
    | afterValue => exact iff_of_true hext (by simp)
  obtain ⟨hbws, hsep⟩ := classes_disjoint b
  rw [hnil]
  unfold CR
  cases p <;> simp only [stepExtension] <;> grind

/-! ## What is left of a body -/

/-- The rest of a chunk's data, the CRLF after it, and the chunks that follow. -/
def DataRest (n : Nat) (xs out : Bytes) : Prop :=
  ∃ data rest body, data.length = n ∧ xs = data ++ CR :: LF :: rest ∧ out = data ++ body ∧
    ChunkedBody rest body

/-- What follows a size line that denotes `size`. -/
def AfterSize (size : Nat) (xs out : Bytes) : Prop :=
  size = 0 ∧ out = [] ∧ TrailerSection xs ∨ 0 < size ∧ DataRest size xs out

/-- The rest of a size line whose extension part has come to phase `p` after `n` bytes, and what follows. -/
def ExtTail (p : ExtPhase) (n size : Nat) (xs out : Bytes) : Prop :=
  ∃ ext rest, xs = ext ++ CR :: LF :: rest ∧ ext ∈ extRest p ∧ n + ext.length ≤ 4096 ∧
    AfterSize size rest out

/-- The value of a digit string read after digits that denote `v`. -/
def hexFrom (v : Nat) (digits : Bytes) : Nat :=
  digits.foldl (fun v b => v * 16 + (HexDigit.decode b).getD 0) v

/-- The rest of a size line of which `n` digits, denoting `v`, have been read, and what follows. -/
def SizeTail (n v : Nat) (saw : Bool) (xs out : Bytes) : Prop :=
  ∃ digits tail, xs = digits ++ tail ∧ (saw = true ∨ digits ≠ []) ∧ n + digits.length ≤ 1024 ∧
    (∀ b ∈ digits, (HexDigit.decode b).isSome) ∧ hexFrom v digits < 2 ^ 64 ∧
    ExtTail .afterValue 0 (hexFrom v digits) tail out

/-- A trailer section of which `n` bytes other than LF have been read. -/
def TrailerFrom (n : Nat) (xs : Bytes) : Prop :=
  ∃ lines : List Bytes, xs = lines.flatten ++ [CR, LF] ∧ (∀ line ∈ lines, TrailerLine line) ∧
    n + lines.flatten.countP (· ≠ LF) ≤ 8192

/-- The same, inside a field value. -/
def ValueTail (n : Nat) (xs : Bytes) : Prop :=
  ∃ value rest, xs = value ++ CR :: LF :: rest ∧ (∀ b ∈ value, isMetadataByte b) ∧
    TrailerFrom (n + value.length + 1) rest

/-- The same, inside a field name. -/
def NameTail (n : Nat) (xs : Bytes) : Prop :=
  ∃ name rest, xs = name ++ 0x3a :: rest ∧ (∀ b ∈ name, Tchar.isValid b) ∧
    ValueTail (n + name.length + 1) rest

/-! ### Derivatives -/

theorem cons_dataRest {n : Nat} {b : UInt8} {xs out : Bytes} :
    DataRest (n + 1) (b :: xs) out ↔ ∃ out', out = b :: out' ∧ DataRest n xs out' := by
  constructor
  · rintro ⟨data, rest, body, hlen, hxs, rfl, hbody⟩
    cases data with
    | nil => simp at hlen
    | cons c data =>
        obtain ⟨rfl, rfl⟩ : b = c ∧ xs = data ++ CR :: LF :: rest := by simpa using hxs
        exact ⟨data ++ body, rfl, data, rest, body, by simpa using hlen, rfl, rfl, hbody⟩
  · rintro ⟨out', rfl, data, rest, body, hlen, rfl, rfl, hbody⟩
    exact ⟨b :: data, rest, body, by simpa using hlen, rfl, rfl, hbody⟩

theorem cons_extTail {p : ExtPhase} {n size : Nat} (hn : n ≤ 4096) {b : UInt8} {xs out : Bytes} :
    ExtTail p n size (b :: xs) out ↔
      (∃ p', stepExtension p b = .continue p' ∧ n + 1 ≤ 4096 ∧ ExtTail p' (n + 1) size xs out) ∨
      stepExtension p b = .endOfLine ∧ ∃ rest, xs = LF :: rest ∧ AfterSize size rest out := by
  constructor
  · rintro ⟨ext, rest, hxs, hext, hlen, hafter⟩
    cases ext with
    | nil =>
        obtain ⟨rfl, rfl⟩ : b = CR ∧ xs = LF :: rest := by simpa using hxs
        exact .inr ⟨(stepExtension_endOfLine p CR).mpr ⟨rfl, hext⟩, rest, rfl, hafter⟩
    | cons c ext =>
        obtain ⟨rfl, rfl⟩ : b = c ∧ xs = ext ++ CR :: LF :: rest := by simpa using hxs
        obtain ⟨p', hstep, hext'⟩ := (cons_mem_extRest p b ext).mp hext
        simp only [List.length_cons] at hlen
        exact .inl ⟨p', hstep, by omega, ext, rest, rfl, hext', by omega, hafter⟩
  · rintro (⟨p', hstep, _, ext, rest, rfl, hext, hlen, hafter⟩ | ⟨hstep, rest, rfl, hafter⟩)
    · refine ⟨b :: ext, rest, rfl, (cons_mem_extRest p b ext).mpr ⟨p', hstep, hext⟩, ?_, hafter⟩
      simp only [List.length_cons]
      omega
    · obtain ⟨rfl, hnil⟩ := (stepExtension_endOfLine p b).mp hstep
      exact ⟨[], rest, rfl, hnil, by simpa using hn, hafter⟩

theorem le_hexFrom (v : Nat) (digits : Bytes) : v ≤ hexFrom v digits := by
  induction digits generalizing v with
  | nil => exact Nat.le_refl v
  | cons b digits ih =>
      have h := ih (v * 16 + (HexDigit.decode b).getD 0)
      unfold hexFrom at h ⊢
      rw [List.foldl_cons]
      omega

/-- No hex digit can follow the digits as the first byte of the extension part or as its CR. -/
theorem decode_eq_none_of_extTail {n size : Nat} {b : UInt8} {xs out : Bytes}
    (h : ExtTail .afterValue n size (b :: xs) out) : HexDigit.decode b = none := by
  obtain ⟨ext, rest, hxs, hext, -⟩ := h
  cases ext with
  | nil =>
      obtain ⟨rfl, -⟩ : b = CR ∧ xs = LF :: rest := by simpa using hxs
      decide
  | cons c ext =>
      obtain ⟨rfl, -⟩ : b = c ∧ xs = ext ++ CR :: LF :: rest := by simpa using hxs
      have hcases : isBws b = true ∨ b = 0x3b := (cons_mem_ext.mp hext).imp And.left And.left
      rw [bws_iff] at hcases
      rcases hcases with (rfl | rfl) | rfl <;> decide

theorem cons_sizeTail {n v : Nat} (hn : n ≤ 1024) (hv : v < 2 ^ 64) {saw : Bool} {b : UInt8}
    {xs out : Bytes} :
    SizeTail n v saw (b :: xs) out ↔
      (∃ digit, HexDigit.decode b = some digit ∧ n + 1 ≤ 1024 ∧ v * 16 + digit < 2 ^ 64 ∧
        SizeTail (n + 1) (v * 16 + digit) true xs out) ∨
      HexDigit.decode b = none ∧ saw = true ∧ ExtTail .afterValue 0 v (b :: xs) out := by
  constructor
  · rintro ⟨digits, tail, hxs, hsaw, hlen, hdig, hlt, htail⟩
    cases digits with
    | nil =>
        obtain rfl : b :: xs = tail := by simpa using hxs
        exact .inr ⟨decode_eq_none_of_extTail htail, by simpa using hsaw, htail⟩
    | cons c digits =>
        obtain ⟨rfl, rfl⟩ : b = c ∧ xs = digits ++ tail := by simpa using hxs
        rw [List.forall_mem_cons] at hdig
        obtain ⟨digit, hdigit⟩ := Option.isSome_iff_exists.mp hdig.1
        have hfrom : hexFrom v (b :: digits) = hexFrom (v * 16 + digit) digits := by
          unfold hexFrom
          rw [List.foldl_cons, hdigit, Option.getD_some]
        rw [hfrom] at hlt htail
        have hle := le_hexFrom (v * 16 + digit) digits
        simp only [List.length_cons] at hlen
        exact .inl ⟨digit, hdigit, by omega, by omega, digits, tail, rfl, .inl rfl, by omega, hdig.2, hlt,
          htail⟩
  · rintro (⟨digit, hdigit, _, _, digits, tail, rfl, _, hlen, hdig, hlt, htail⟩ | ⟨_, hsaw, htail⟩)
    · have hfrom : hexFrom v (b :: digits) = hexFrom (v * 16 + digit) digits := by
        unfold hexFrom
        rw [List.foldl_cons, hdigit, Option.getD_some]
      rw [← hfrom] at hlt htail
      refine ⟨b :: digits, tail, rfl, .inr (by simp), ?_, ?_, hlt, htail⟩
      · simp only [List.length_cons]
        omega
      · rw [List.forall_mem_cons]
        exact ⟨by rw [hdigit]; rfl, hdig⟩
    · exact ⟨[], b :: xs, rfl, .inl hsaw, by simpa using hn, by simp, hv, htail⟩

theorem cons_valueTail {n : Nat} {b : UInt8} {xs : Bytes} :
    ValueTail n (b :: xs) ↔ b = CR ∧ (∃ rest, xs = LF :: rest ∧ TrailerFrom (n + 1) rest) ∨
      isMetadataByte b = true ∧ ValueTail (n + 1) xs := by
  constructor
  · rintro ⟨value, rest, hxs, hval, hrest⟩
    cases value with
    | nil =>
        obtain ⟨rfl, rfl⟩ : b = CR ∧ xs = LF :: rest := by simpa using hxs
        exact .inl ⟨rfl, rest, rfl, by simpa using hrest⟩
    | cons c value =>
        obtain ⟨rfl, rfl⟩ : b = c ∧ xs = value ++ CR :: LF :: rest := by simpa using hxs
        rw [List.forall_mem_cons] at hval
        rw [List.length_cons, show n + (value.length + 1) + 1 = n + 1 + value.length + 1 by omega] at hrest
        exact .inr ⟨hval.1, value, rest, rfl, hval.2, hrest⟩
  · rintro (⟨rfl, rest, rfl, hrest⟩ | ⟨hb, value, rest, rfl, hval, hrest⟩)
    · exact ⟨[], rest, rfl, by simp, by simpa using hrest⟩
    · refine ⟨b :: value, rest, rfl, List.forall_mem_cons.mpr ⟨hb, hval⟩, ?_⟩
      rwa [List.length_cons, show n + (value.length + 1) + 1 = n + 1 + value.length + 1 by omega]

theorem cons_nameTail {n : Nat} {b : UInt8} {xs : Bytes} :
    NameTail n (b :: xs) ↔ b = 0x3a ∧ ValueTail (n + 1) xs ∨
      Tchar.isValid b = true ∧ NameTail (n + 1) xs := by
  constructor
  · rintro ⟨name, rest, hxs, hname, hrest⟩
    cases name with
    | nil =>
        obtain ⟨rfl, rfl⟩ : b = 0x3a ∧ xs = rest := by simpa using hxs
        exact .inl ⟨rfl, by simpa using hrest⟩
    | cons c name =>
        obtain ⟨rfl, rfl⟩ : b = c ∧ xs = name ++ 0x3a :: rest := by simpa using hxs
        rw [List.forall_mem_cons] at hname
        rw [List.length_cons, show n + (name.length + 1) + 1 = n + 1 + name.length + 1 by omega] at hrest
        exact .inr ⟨hname.1, name, rest, rfl, hname.2, hrest⟩
  · rintro (⟨rfl, hrest⟩ | ⟨hb, name, rest, rfl, hname, hrest⟩)
    · exact ⟨[], xs, rfl, by simp, by simpa using hrest⟩
    · refine ⟨b :: name, rest, rfl, List.forall_mem_cons.mpr ⟨hb, hname⟩, ?_⟩
      rwa [List.length_cons, show n + (name.length + 1) + 1 = n + 1 + name.length + 1 by omega]

/-- The bytes of a trailer line that its budget counts: all but the LF. -/
theorem countP_trailerLine {name value : Bytes} (hname : ∀ b ∈ name, Tchar.isValid b)
    (hval : ∀ b ∈ value, isMetadataByte b) :
    (name ++ 0x3a :: value ++ [CR, LF]).countP (· ≠ LF) = name.length + value.length + 2 := by
  have h₁ : name.countP (· ≠ LF) = name.length := by
    rw [List.countP_eq_length]
    intro b hb
    simpa using tchar_ne (hname b hb) (show Tchar.isValid LF = false by decide)
  have h₂ : value.countP (· ≠ LF) = value.length := by
    rw [List.countP_eq_length]
    intro b hb
    have hb := hval b hb
    have hne : b ≠ LF := by
      rintro rfl
      exact absurd hb (by decide)
    simpa using hne
  rw [List.countP_append, List.countP_append, List.countP_cons, h₁, h₂]
  simp [CR, LF, Nat.add_assoc]

/-- A line in front of a trailer section, and the first byte of its name. -/
theorem trailerFrom_iff {n : Nat} {xs : Bytes} :
    TrailerFrom n xs ↔ n ≤ 8192 ∧ xs = [CR, LF] ∨
      ∃ name value rest, xs = name ++ 0x3a :: (value ++ CR :: LF :: rest) ∧ name ≠ [] ∧
        (∀ b ∈ name, Tchar.isValid b) ∧ (∀ b ∈ value, isMetadataByte b) ∧
        TrailerFrom (n + name.length + value.length + 2) rest := by
  constructor
  · rintro ⟨lines, rfl, hlines, hcount⟩
    cases lines with
    | nil => exact .inl ⟨by simpa using hcount, rfl⟩
    | cons line lines =>
        rw [List.forall_mem_cons] at hlines
        obtain ⟨⟨name, value, rfl, hne, hname, hval⟩, hlines⟩ := hlines
        rw [List.flatten_cons, List.countP_append, countP_trailerLine hname hval] at hcount
        refine .inr ⟨name, value, lines.flatten ++ [CR, LF], by simp, hne, hname, hval, lines, rfl, hlines,
          ?_⟩
        omega
  · rintro (⟨hn, rfl⟩ | ⟨name, value, rest, rfl, hne, hname, hval, lines, rfl, hlines, hcount⟩)
    · exact ⟨[], rfl, by simp, by simpa using hn⟩
    · refine ⟨(name ++ 0x3a :: value ++ [CR, LF]) :: lines, by simp, ?_, ?_⟩
      · rw [List.forall_mem_cons]
        exact ⟨⟨name, value, rfl, hne, hname, hval⟩, hlines⟩
      · rw [List.flatten_cons, List.countP_append, countP_trailerLine hname hval]
        omega

theorem cons_trailerFrom {n : Nat} {b : UInt8} {xs : Bytes} :
    TrailerFrom n (b :: xs) ↔ n ≤ 8192 ∧ b = CR ∧ xs = [LF] ∨
      Tchar.isValid b = true ∧ NameTail (n + 1) xs := by
  rw [trailerFrom_iff]
  refine or_congr (by simp) ⟨?_, ?_⟩
  · rintro ⟨name, value, rest, hxs, hne, hname, hval, hrest⟩
    cases name with
    | nil => exact absurd rfl hne
    | cons c name =>
        obtain ⟨rfl, rfl⟩ : b = c ∧ xs = name ++ 0x3a :: (value ++ CR :: LF :: rest) := by
          simpa using hxs
        rw [List.forall_mem_cons] at hname
        refine ⟨hname.1, name, _, rfl, hname.2, value, rest, rfl, hval, ?_⟩
        rw [List.length_cons] at hrest
        rwa [show n + 1 + name.length + 1 + value.length + 1 = n + (name.length + 1) + value.length + 2
          by omega]
  · rintro ⟨hb, name, _, rfl, hname, value, rest, rfl, hval, hrest⟩
    refine ⟨b :: name, value, rest, rfl, by simp, List.forall_mem_cons.mpr ⟨hb, hname⟩, hval, ?_⟩
    rw [List.length_cons]
    rwa [show n + (name.length + 1) + value.length + 2 = n + 1 + name.length + 1 + value.length + 1
      by omega]

theorem nil_trailerFrom {n : Nat} : ¬ TrailerFrom n [] := by
  rintro ⟨lines, hxs, -⟩
  simp at hxs

theorem le_of_trailerFrom {n : Nat} {xs : Bytes} (h : TrailerFrom n xs) : n ≤ 8192 := by
  obtain ⟨lines, -, -, hcount⟩ := h
  omega

theorem le_of_valueTail {n : Nat} {xs : Bytes} (h : ValueTail n xs) : n ≤ 8192 := by
  obtain ⟨value, rest, -, -, hrest⟩ := h
  have := le_of_trailerFrom hrest
  omega

theorem le_of_nameTail {n : Nat} {xs : Bytes} (h : NameTail n xs) : n ≤ 8192 := by
  obtain ⟨name, rest, -, -, hrest⟩ := h
  have := le_of_valueTail hrest
  omega

theorem trailerSection_iff {xs : Bytes} : TrailerSection xs ↔ TrailerFrom 0 xs := by
  unfold TrailerSection TrailerFrom
  simp only [Nat.zero_add]

/-- **A body is a size line and what follows it.** -/
theorem chunkedBody_iff {xs out : Bytes} : ChunkedBody xs out ↔ SizeTail 0 0 false xs out := by
  constructor
  · intro h
    cases h with
    | @last line trailer hline htrailer =>
        obtain ⟨digits, ext, rfl, hpos, hle, hdig, hval, hext, hlen⟩ := hline.parts
        refine ⟨digits, ext ++ CR :: LF :: trailer, by simp, .inr ?_, by omega, hdig, ?_, ext, trailer, rfl,
          hext, by omega, .inl ⟨hval, rfl, htrailer⟩⟩
        · exact List.length_pos_iff.mp hpos
        · rw [show hexFrom 0 digits = 0 from hval]
          omega
    | @chunk line data rest body hline hpos' hle' hbody =>
        obtain ⟨digits, ext, rfl, hpos, hle, hdig, hval, hext, hlen⟩ := hline.parts
        have hval : hexFrom 0 digits = data.length := hval
        refine ⟨digits, ext ++ CR :: LF :: (data ++ CR :: LF :: rest), by simp, .inr ?_, by omega, hdig, ?_,
          ext, _, rfl, hext, by omega, .inr ⟨by omega, data, rest, body, hval.symm, rfl, rfl, hbody⟩⟩
        · exact List.length_pos_iff.mp hpos
        · omega
  · rintro ⟨digits, _, rfl, hne, hle, hdig, hlt, ext, rest, rfl, hext, hlen, hafter⟩
    have hpos : 1 ≤ digits.length := List.length_pos_iff.mpr (by simpa using hne)
    have hline : SizeLine (digits ++ ext ++ [CR, LF]) (hexFrom 0 digits) :=
      ⟨digits, ext, rfl, hpos, by omega, hdig, rfl, hext, by omega⟩
    rcases hafter with ⟨hzero, rfl, htrailer⟩ | ⟨hsize, data, tail, body, hdata, rfl, rfl, hbody⟩
    · rw [hzero] at hline
      simpa using ChunkedBody.last hline htrailer
    · rw [← hdata] at hline hlt hsize
      simpa using ChunkedBody.chunk hline hsize (by omega) hbody

end ChunkedGrammar
end Xibalba
