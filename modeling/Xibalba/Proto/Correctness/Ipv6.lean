import Mathlib.Computability.Language
import Xibalba.Lib.Split
import Xibalba.Proto.Url
import Xibalba.Proto.Correctness.HeadParse
import Xibalba.Proto.Correctness.Text

/-!
# `Proto.Correctness.Ipv6` — the grammar of an IPv6 address

The nine alternatives of the `IPv6address` rule of RFC 3986 §3.2.2, as languages, and the validator, which counts the
groups on the two sides of a `::` instead.

Layout:
* the grammar;
* the two parts of an address as lists of groups, `Side`;
* `h16_groups` on a part, and where the `::` stands;
* `validateIpv6Address_exact`.
-/

namespace Xibalba

namespace Ipv6

open Bytes (decimal IsNumeral)

/-! ## The grammar -/

/-- A literal. -/
def lit (s : String) : Language UInt8 := {w | w = ascii s}

/-- `h16 = 1*4HEXDIG`. -/
def h16 : Language UInt8 := {w | 1 ≤ w.length ∧ w.length ≤ 4 ∧ ∀ b ∈ w, isAsciiHexdigit b = true}

/-- `dec-octet`: a numeral without a leading zero, at most 255. -/
def decOctet : Language UInt8 :=
  {w | IsNumeral w ∧ (w.length = 1 ∨ w.head? ≠ some 0x30) ∧ decimal w ≤ 255}

/-- `IPv4address = dec-octet "." dec-octet "." dec-octet "." dec-octet`. -/
def ipv4address : Language UInt8 :=
  decOctet * (lit "." * (decOctet * (lit "." * (decOctet * (lit "." * decOctet)))))

/-- `ls32 = ( h16 ":" h16 ) / IPv4address`. -/
def ls32 : Language UInt8 := h16 * (lit ":" * h16) + ipv4address

/-- `n( h16 ":" )`. -/
def groups (n : Nat) : Language UInt8 := (h16 * lit ":") ^ n

/-- `[ *n( h16 ":" ) h16 ]`. -/
def leading (n : Nat) : Language UInt8 := {w | w = [] ∨ ∃ k ≤ n, w ∈ groups k * h16}

/-- **`IPv6address`**, RFC 3986 §3.2.2. -/
def ipv6address : Language UInt8 :=
  groups 6 * ls32
    + lit "::" * (groups 5 * ls32)
    + leading 0 * (lit "::" * (groups 4 * ls32))
    + leading 1 * (lit "::" * (groups 3 * ls32))
    + leading 2 * (lit "::" * (groups 2 * ls32))
    + leading 3 * (lit "::" * (h16 * (lit ":" * ls32)))
    + leading 4 * (lit "::" * ls32)
    + leading 5 * (lit "::" * h16)
    + leading 6 * lit "::"

/-! ## Groups -/

/-- Groups joined by colons. -/
def join (gs : List Bytes) : Bytes := ([0x3a] : Bytes).intercalate gs

/-- What may stand on one side of a `::`, and how many groups of 16 bits it accounts for: groups, the last of which may
    be an IPv4 address where that is allowed. -/
inductive Side (allowV4 : Bool) : Bytes → Nat → Prop
  | empty : Side allowV4 [] 0
  | groups {gs : List Bytes} (hne : gs ≠ []) (h : ∀ g ∈ gs, g ∈ h16) : Side allowV4 (join gs) gs.length
  | embedded {gs : List Bytes} {v4 : Bytes} (hallow : allowV4 = true) (h : ∀ g ∈ gs, g ∈ h16) (hv4 : v4 ∈ ipv4address) :
      Side allowV4 (join (gs ++ [v4])) (gs.length + 2)

theorem mem_lit_mul {s : String} {m : Language UInt8} {w : Bytes} : w ∈ lit s * m ↔ ∃ t ∈ m, w = ascii s ++ t := by
  rw [Language.mem_mul]
  constructor
  · rintro ⟨_, rfl, t, ht, rfl⟩
    exact ⟨t, ht, rfl⟩
  · rintro ⟨t, ht, rfl⟩
    exact ⟨_, rfl, t, ht, rfl⟩

/-- Words that start with `n` groups and their colons. -/
theorem mem_groups_mul {n : Nat} {m : Language UInt8} {w : Bytes} : w ∈ groups n * m ↔
    ∃ gs : List Bytes, gs.length = n ∧ (∀ g ∈ gs, g ∈ h16) ∧ ∃ t ∈ m, w = gs.flatMap (· ++ [0x3a]) ++ t := by
  induction n generalizing w with
  | zero =>
      rw [groups, pow_zero, one_mul]
      constructor
      · intro h
        exact ⟨[], rfl, nofun, w, h, rfl⟩
      · rintro ⟨gs, hlen, -, t, ht, rfl⟩
        rw [List.length_eq_zero_iff.mp hlen]
        exact ht
  | succ n ih =>
      rw [groups, pow_succ', mul_assoc, mul_assoc, Language.mem_mul]
      constructor
      · rintro ⟨g, hg, _, hrest, rfl⟩
        obtain ⟨t', ht', rfl⟩ := mem_lit_mul.mp hrest
        obtain ⟨gs, rfl, hgs, t, ht, rfl⟩ := ih.mp ht'
        refine ⟨g :: gs, rfl, List.forall_mem_cons.mpr ⟨hg, hgs⟩, t, ht, ?_⟩
        rw [List.flatMap_cons, List.append_assoc, List.append_assoc]
        rfl
      · rintro ⟨gs, hlen, hgs, t, ht, rfl⟩
        cases gs with
        | nil => cases hlen
        | cons g gs =>
            obtain ⟨hg, hgs⟩ := List.forall_mem_cons.mp hgs
            refine ⟨g, hg, ascii ":" ++ (gs.flatMap (· ++ [0x3a]) ++ t), ?_, ?_⟩
            · exact mem_lit_mul.mpr ⟨_, ih.mpr ⟨gs, by simpa using hlen, hgs, t, ht, rfl⟩, rfl⟩
            · rw [List.flatMap_cons, List.append_assoc, List.append_assoc]
              rfl

/-- Groups that each end in a colon, and one more. -/
theorem flatMap_colon (gs : List Bytes) (last : Bytes) : gs.flatMap (· ++ [0x3a]) ++ last = join (gs ++ [last]) :=
  Split.flatMap_append gs last

theorem h16_ne_nil {g : Bytes} (h : g ∈ h16) : g ≠ [] := by
  rintro rfl
  exact absurd h.1 (by decide)

theorem hexdigit_ne_colon {b : UInt8} (h : isAsciiHexdigit b = true) : b ≠ 0x3a := by
  rintro rfl
  exact absurd h (by decide)

theorem h16_colon {g : Bytes} (h : g ∈ h16) : (0x3a : UInt8) ∉ g := fun hmem => hexdigit_ne_colon (h.2.2 _ hmem) rfl

/-! ## IPv4 addresses -/

/-- A numeral with a leading digit other than zero has at least the value its length suggests. -/
theorem le_foldl_decimal (acc : Nat) (w : Bytes) :
    acc * 10 ^ w.length ≤ w.foldl (fun n b => n * 10 + (b - 0x30).toNat) acc := by
  induction w generalizing acc with
  | nil => simp
  | cons b w ih =>
      have h := ih (acc * 10 + (b - 0x30).toNat)
      rw [List.length_cons, List.foldl_cons, pow_succ]
      calc acc * (10 ^ w.length * 10) = (acc * 10) * 10 ^ w.length := by rw [Nat.mul_comm (10 ^ w.length), Nat.mul_assoc]
        _ ≤ (acc * 10 + (b - 0x30).toNat) * 10 ^ w.length := Nat.mul_le_mul_right _ (Nat.le_add_right _ _)
        _ ≤ _ := h

theorem digit_pos : ∀ b : UInt8, isAsciiDigit b = true → b ≠ 0x30 → 1 ≤ (b - 0x30).toNat :=
  forall_byte (by decide +kernel)

/-- A `dec-octet` has at most three digits. -/
theorem decOctet_length {w : Bytes} (h : w ∈ decOctet) : w.length ≤ 3 := by
  obtain ⟨⟨hne, hdigits⟩, hzero, hle⟩ := h
  rcases hzero with hone | hhead
  · omega
  · cases w with
    | nil => exact absurd rfl hne
    | cons b w =>
        have hb : 1 ≤ (b - 0x30).toNat := digit_pos b (hdigits b List.mem_cons_self) fun h => hhead (congrArg some h)
        have hval := le_foldl_decimal (0 * 10 + (b - 0x30).toNat) w
        have hdec : decimal (b :: w) = w.foldl (fun n b => n * 10 + (b - 0x30).toNat) (0 * 10 + (b - 0x30).toNat) := rfl
        by_contra hlen
        have hpow : 10 ^ 3 ≤ 10 ^ w.length := by
          apply Nat.pow_le_pow_right (by decide)
          rw [List.length_cons] at hlen
          omega
        have hmul : 1 * 10 ^ w.length ≤ (0 * 10 + (b - 0x30).toNat) * 10 ^ w.length :=
          Nat.mul_le_mul_right _ (by omega)
        omega

theorem isDecOctet_iff {w : Bytes} : Url.isDecOctet w = true ↔ w ∈ decOctet := by
  unfold Url.isDecOctet
  simp only [Bool.and_eq_true, Bool.or_eq_true, Bool.not_eq_true', decide_eq_true_eq, List.all_eq_true, beq_iff_eq,
    bne_iff_ne]
  constructor
  · rintro ⟨⟨⟨⟨hne, -⟩, hdigits⟩, hzero⟩, hle⟩
    refine ⟨⟨?_, hdigits⟩, hzero, hle⟩
    rintro rfl
    cases hne
  · intro h
    have hlen := decOctet_length h
    obtain ⟨⟨hne, hdigits⟩, hzero, hle⟩ := h
    refine ⟨⟨⟨⟨?_, hlen⟩, hdigits⟩, hzero⟩, hle⟩
    rw [List.isEmpty_eq_false_iff]
    exact hne

theorem decOctet_ne {w : Bytes} (h : w ∈ decOctet) {c : UInt8} (hc : isAsciiDigit c = false) : c ∉ w := by
  intro hmem
  rw [h.1.2 c hmem] at hc
  cases hc

/-- An address is four octets between dots. -/
theorem mem_ipv4address {w : Bytes} : w ∈ ipv4address ↔
    ∃ a ∈ decOctet, ∃ b ∈ decOctet, ∃ c ∈ decOctet, ∃ d ∈ decOctet, w = ([0x2e] : Bytes).intercalate [a, b, c, d] := by
  unfold ipv4address
  constructor
  · rintro ⟨a, ha, _, h₁, rfl⟩
    obtain ⟨_, ⟨b, hb, _, h₂, rfl⟩, rfl⟩ := mem_lit_mul.mp h₁
    obtain ⟨_, ⟨c, hc, _, h₃, rfl⟩, rfl⟩ := mem_lit_mul.mp h₂
    obtain ⟨d, hd, rfl⟩ := mem_lit_mul.mp h₃
    refine ⟨a, ha, b, hb, c, hc, d, hd, ?_⟩
    simp [show ascii "." = [0x2e] by decide]
  · rintro ⟨a, ha, b, hb, c, hc, d, hd, rfl⟩
    refine ⟨a, ha, _, mem_lit_mul.mpr ⟨_, ⟨b, hb, _, mem_lit_mul.mpr ⟨_, ⟨c, hc, _, mem_lit_mul.mpr ⟨d, hd, rfl⟩, rfl⟩, rfl⟩, rfl⟩, rfl⟩, ?_⟩
    simp [show ascii "." = [0x2e] by decide]

theorem isIpv4Address_iff {w : Bytes} : Url.isIpv4Address w = true ↔ w ∈ ipv4address := by
  unfold Url.isIpv4Address
  rw [mem_ipv4address]
  simp only [Bool.and_eq_true, beq_iff_eq, List.all_eq_true]
  constructor
  · rintro ⟨hlen, hall⟩
    have hw : ([0x2e] : Bytes).intercalate (w.splitOnP (· == 0x2e)) = w := Split.join_pieces w
    generalize w.splitOnP (· == 0x2e) = octets at hlen hall hw
    obtain ⟨a, b, c, d, rfl⟩ : ∃ a b c d, octets = [a, b, c, d] := by
      match octets, hlen with
      | [a, b, c, d], _ => exact ⟨a, b, c, d, rfl⟩
    have hoctet : ∀ o ∈ [a, b, c, d], o ∈ decOctet := fun o ho => isDecOctet_iff.mp (hall o ho)
    exact ⟨a, hoctet a (by simp), b, hoctet b (by simp), c, hoctet c (by simp), d, hoctet d (by simp), hw.symm⟩
  · rintro ⟨a, ha, b, hb, c, hc, d, hd, rfl⟩
    have hoctet : ∀ o ∈ [a, b, c, d], o ∈ decOctet := by
      intro o ho
      simp only [List.mem_cons, List.not_mem_nil, or_false] at ho
      rcases ho with rfl | rfl | rfl | rfl
      · exact ha
      · exact hb
      · exact hc
      · exact hd
    rw [Split.pieces_join (List.cons_ne_nil _ _) fun o ho => decOctet_ne (hoctet o ho) (by decide)]
    exact ⟨rfl, fun o ho => isDecOctet_iff.mpr (hoctet o ho)⟩

/-- What an IPv4 address is made of: something, digits and dots. -/
theorem ipv4_bytes {w : Bytes} (h : w ∈ ipv4address) :
    w ≠ [] ∧ 0x2e ∈ w ∧ ∀ b ∈ w, isAsciiDigit b = true ∨ b = 0x2e := by
  obtain ⟨a, ha, b, hb, c, hc, d, hd, rfl⟩ := mem_ipv4address.mp h
  have hdigits : ∀ {o : Bytes}, o ∈ decOctet → ∀ x ∈ o, isAsciiDigit x = true ∨ x = 0x2e := fun ho x hx => .inl (ho.1.2 x hx)
  refine ⟨by simp, by simp, ?_⟩
  intro x hx
  simp only [List.intercalate_cons_cons, List.intercalate_singleton, List.mem_append, List.mem_singleton] at hx
  rcases hx with (hx | rfl) | (hx | rfl) | (hx | rfl) | hx
  · exact hdigits ha x hx
  · exact .inr rfl
  · exact hdigits hb x hx
  · exact .inr rfl
  · exact hdigits hc x hx
  · exact .inr rfl
  · exact hdigits hd x hx

theorem ipv4_colon {w : Bytes} (h : w ∈ ipv4address) : (0x3a : UInt8) ∉ w := by
  intro hmem
  rcases (ipv4_bytes h).2.2 _ hmem with hd | hd
  · exact absurd hd (by decide)
  · exact absurd hd (by decide)

/-- An `h16` is no IPv4 address: it holds no dot. -/
theorem h16_not_ipv4 {w : Bytes} (h : w ∈ h16) : w ∉ ipv4address := fun h4 =>
  absurd (h.2.2 _ (ipv4_bytes h4).2.1) (by decide)

/-! ## The parts of an address -/

/-- The groups of 16 bits that `h16_groups` has counted. -/
def weight (r : List Bytes × Bool) : Nat := r.1.length + 2 * r.2.toNat

theorem all_h16_iff {gs : List Bytes} :
    (gs.all fun g => !g.isEmpty && g.length ≤ 4 && g.all isAsciiHexdigit) = true ↔ ∀ g ∈ gs, g ∈ h16 := by
  rw [List.all_eq_true]
  apply forall_congr'
  intro g
  apply imp_congr_right
  intro _
  simp only [Bool.and_eq_true, Bool.not_eq_true', decide_eq_true_eq, List.all_eq_true, List.isEmpty_eq_false_iff,
    ← List.length_pos_iff]
  exact and_assoc

/-- The pieces of groups joined by colons are the groups. -/
theorem pieces_join {gs : List Bytes} (hne : gs ≠ []) (h : ∀ g ∈ gs, (0x3a : UInt8) ∉ g) :
    (join gs).splitOnP (· == 0x3a) = gs :=
  Split.pieces_join hne h

/-- Groups with an address behind them: none is empty, and none holds a colon. -/
theorem embedded_groups {gs : List Bytes} {v4 : Bytes} (h : ∀ g ∈ gs, g ∈ h16) (hv4 : v4 ∈ ipv4address) :
    ∀ g ∈ gs ++ [v4], g ≠ [] ∧ (0x3a : UInt8) ∉ g := by
  intro g hg
  rcases List.mem_append.mp hg with hg | hg
  · exact ⟨h16_ne_nil (h g hg), h16_colon (h g hg)⟩
  · rw [List.mem_singleton.mp hg]
    exact ⟨(ipv4_bytes hv4).1, ipv4_colon hv4⟩

/-- No piece of a part is empty, unless the part is. -/
theorem Side.pieces {allowV4 : Bool} {part : Bytes} {n : Nat} (h : Side allowV4 part n) (hne : part ≠ []) :
    [] ∉ part.splitOnP (· == 0x3a) := by
  cases h with
  | empty => exact absurd rfl hne
  | groups hgs h =>
      rw [pieces_join hgs fun g hg => h16_colon (h g hg)]
      exact fun hmem => h16_ne_nil (h _ hmem) rfl
  | @embedded gs v4 _ h hv4 =>
      have hgroups := embedded_groups h hv4
      rw [pieces_join (by simp) fun g hg => (hgroups g hg).2]
      exact fun hmem => (hgroups _ hmem).1 rfl

theorem join_ne_nil {gs : List Bytes} (hne : gs ≠ []) (h : ∀ g ∈ gs, g ≠ []) : join gs ≠ [] := by
  cases gs with
  | nil => exact absurd rfl hne
  | cons g gs =>
      have hg := h g List.mem_cons_self
      cases g with
      | nil => exact absurd rfl hg
      | cons b g => simp [join]

/-- **`h16_groups`** accepts a part of the grammar, and counts its groups. -/
theorem h16Groups_side {allowV4 : Bool} {part : Bytes} {n : Nat} (h : Side allowV4 part n) :
    ∃ r, Url.h16Groups part allowV4 = .ok r ∧ weight r = n := by
  unfold Url.h16Groups
  cases h with
  | empty => exact ⟨_, rfl, rfl⟩
  | @groups gs hne h =>
      have hpieces := pieces_join hne fun g hg => h16_colon (h g hg)
      have hnot : ¬(gs.any List.isEmpty) = true := by
        rw [List.any_eq_true]
        rintro ⟨g, hg, hempty⟩
        exact h16_ne_nil (h g hg) (List.isEmpty_iff.mp hempty)
      have hlast : (gs.getLast?.any Url.isIpv4Address) = false := by
        cases hl : gs.getLast? with
        | none => rfl
        | some g =>
            rw [Option.any_some, ← Bool.not_eq_true, isIpv4Address_iff]
            exact h16_not_ipv4 (h g (List.mem_of_getLast? hl))
      have hpart : ¬(join gs).isEmpty = true := by
        rw [List.isEmpty_iff]
        exact join_ne_nil hne fun g hg => h16_ne_nil (h g hg)
      dsimp only
      rw [if_neg hpart, hpieces, if_neg hnot, hlast, Bool.and_false, if_neg Bool.false_ne_true, if_pos (all_h16_iff.mpr h)]
      exact ⟨_, rfl, rfl⟩
  | @embedded gs v4 hallow h hv4 =>
      have hgroups := embedded_groups h hv4
      have hnot : ¬((gs ++ [v4]).any List.isEmpty) = true := by
        rw [List.any_eq_true]
        rintro ⟨g, hg, hempty⟩
        exact (hgroups g hg).1 (List.isEmpty_iff.mp hempty)
      have hpart : ¬(join (gs ++ [v4])).isEmpty = true := by
        rw [List.isEmpty_iff]
        exact join_ne_nil (by simp) fun g hg => (hgroups g hg).1
      dsimp only
      rw [if_neg hpart, pieces_join (by simp) fun g hg => (hgroups g hg).2, if_neg hnot, List.getLast?_concat, Option.any_some,
        isIpv4Address_iff.mpr hv4, hallow, Bool.and_self, if_pos rfl, List.dropLast_concat, if_pos (all_h16_iff.mpr h)]
      exact ⟨_, rfl, rfl⟩

/-- What `h16_groups` accepts is a part of the grammar. -/
theorem side_of_h16Groups {allowV4 : Bool} {part : Bytes} {r : List Bytes × Bool}
    (h : Url.h16Groups part allowV4 = .ok r) : Side allowV4 part (weight r) := by
  unfold Url.h16Groups at h
  by_cases hpart : part.isEmpty = true
  · rw [if_pos hpart] at h
    cases h
    rw [List.isEmpty_iff.mp hpart]
    exact .empty
  rw [if_neg hpart] at h
  have hjoin : join (part.splitOnP (· == 0x3a)) = part := Split.join_pieces part
  have hne := List.splitOnP_ne_nil (· == 0x3a) part
  generalize part.splitOnP (· == 0x3a) = raw at h hjoin hne
  dsimp only at h
  by_cases hempty : (raw.any List.isEmpty) = true
  · rw [if_pos hempty] at h
    cases h
  rw [if_neg hempty] at h
  by_cases hv4 : (allowV4 && raw.getLast?.any Url.isIpv4Address) = true
  · rw [hv4, if_pos rfl] at h
    split at h
    next hall =>
      cases h
      obtain ⟨hallow, hlast⟩ := Bool.and_eq_true_iff.mp hv4
      obtain ⟨v4, hget, hlast'⟩ := (Option.any_eq_true _ _).mp hlast
      obtain ⟨gs, rfl⟩ := List.getLast?_eq_some_iff.mp hget
      rw [List.dropLast_concat] at hall ⊢
      have hside : Side allowV4 (join (gs ++ [v4])) (gs.length + 2) :=
        .embedded hallow (all_h16_iff.mp hall) (isIpv4Address_iff.mp hlast')
      rwa [hjoin] at hside
    next => cases h
  · rw [Bool.not_eq_true] at hv4
    rw [hv4, if_neg Bool.false_ne_true] at h
    split at h
    next hall =>
      cases h
      have hside : Side allowV4 (join raw) raw.length := .groups hne (all_h16_iff.mp hall)
      rwa [hjoin] at hside
    next => cases h

/-! ## Where the `::` stands -/

/-- A part of the grammar holds no `::`, and no colon that one behind it could make into one. -/
theorem Side.no_double {allowV4 : Bool} {part : Bytes} {n : Nat} (h : Side allowV4 part n) (rest : Bytes) {q : Nat}
    (hq : q < part.length) : ¬ascii "::" <+: (part ++ rest).drop q := by
  intro hpre
  have hne : part ≠ [] := List.ne_nil_of_length_pos (by omega)
  exact h.pieces hne (Split.nil_mem_pieces hq hpre)

theorem Side.findWindow_none {allowV4 : Bool} {part : Bytes} {n : Nat} (h : Side allowV4 part n) :
    Bytes.findWindow (ascii "::") part = none := by
  cases hf : Bytes.findWindow (ascii "::") part with
  | none => rfl
  | some q =>
      have hpre := Bytes.findWindow_eq_some hf
      have hlen := Bytes.length_of_prefix_drop (by decide) hpre
      rw [show (ascii "::").length = 2 by decide] at hlen
      have hno := h.no_double [] (show q < part.length by omega)
      rw [List.append_nil] at hno
      exact absurd hpre hno

/-- The first `::` stands behind the left part. -/
theorem Side.findWindow_left {allowV4 : Bool} {left : Bytes} {n : Nat} (h : Side allowV4 left n) (right : Bytes) :
    Bytes.findWindow (ascii "::") (left ++ (ascii "::" ++ right)) = some left.length := by
  rw [Bytes.findWindow_iff (by decide)]
  refine ⟨?_, fun q hq => h.no_double _ hq⟩
  rw [List.drop_left]
  exact List.prefix_append _ _

/-- Without a `::` the whole address is one part. -/
theorem validate_whole {address : Bytes} (hne : address ≠ []) (hf : Bytes.findWindow (ascii "::") address = none) :
    Url.validateIpv6Address address =
      (Url.h16Groups address true >>= fun r => if weight r = 8 then .ok () else .error (.invalidByte 1)) := by
  unfold Url.validateIpv6Address
  rw [if_neg (by rwa [List.isEmpty_iff]), hf]
  have hright : Url.h16Groups [] true = .ok ([], false) := rfl
  cases hg : Url.h16Groups address true with
  | error e =>
    simp only [Option.any_none, Bool.false_eq_true, ↓reduceIte, Bool.not_false, hg, ne_eq, ite_not]
    rfl
  | ok r =>
    simp only [Option.any_none, Bool.false_eq_true, ↓reduceIte, Bool.not_false, hg, hright, ne_eq, ite_not]
    rfl

/-- With a `::` the address is two parts, and no other `::` may follow. -/
theorem validate_split {address left right : Bytes} {pos : Nat} (hne : address ≠ [])
    (hf : Bytes.findWindow (ascii "::") address = some pos) (hleft : address.take pos = left)
    (hright : address.drop (pos + 2) = right) :
    Url.validateIpv6Address address =
      if (Bytes.findWindow (ascii "::") right).isSome then .error (.invalidByte 1)
      else Url.h16Groups left false >>= fun l => Url.h16Groups right true >>= fun r =>
        if weight l + weight r < 8 then .ok () else .error (.invalidByte 1) := by
  unfold Url.validateIpv6Address
  rw [if_neg (by rwa [List.isEmpty_iff]), hf]
  simp only [Option.any_some, hright, hleft, Bool.not_true, ↓reduceIte, ge_iff_le]
  by_cases hsecond : (Bytes.findWindow (ascii "::") right).isSome = true
  · rw [if_pos hsecond, if_pos hsecond]
    rfl
  rw [if_neg hsecond, if_neg hsecond]
  cases Url.h16Groups left false with
  | error e => rfl
  | ok l =>
      cases Url.h16Groups right true with
      | error e => rfl
      | ok r =>
          show (if 8 ≤ weight l + weight r then _ else _) = if weight l + weight r < 8 then _ else _
          by_cases hlt : weight l + weight r < 8
          · rw [if_pos hlt, if_neg (by omega)]
            rfl
          · rw [if_neg hlt, if_pos (by omega)]
            rfl

/-- **The validator** asks for one part of weight eight, or for two parts around a `::` that weigh less. -/
theorem validate_iff {address : Bytes} : Url.validateIpv6Address address = .ok () ↔
    Side true address 8 ∨
      ∃ left right m n, address = left ++ (ascii "::" ++ right) ∧ Side false left m ∧ Side true right n ∧ m + n < 8 := by
  constructor
  · intro h
    by_cases hne : address = []
    · rw [hne] at h
      cases h
    cases hf : Bytes.findWindow (ascii "::") address with
    | none =>
        -- without `::` there are eight groups
        rw [validate_whole hne hf] at h
        cases hg : Url.h16Groups address true with
        | error e =>
            rw [hg] at h
            cases h
        | ok r =>
            rw [hg] at h
            replace h : (if weight r = 8 then Except.ok () else Except.error (UrlError.invalidByte 1)) = .ok () := h
            split at h
            next hw => exact .inl (hw ▸ side_of_h16Groups hg)
            next => cases h
    | some pos =>
        -- `::` stands for at least one group
        rw [validate_split hne hf rfl rfl] at h
        split at h
        · cases h
        obtain ⟨rest, hrest⟩ := Bytes.findWindow_eq_some hf
        have haddr : address = address.take pos ++ (ascii "::" ++ address.drop (pos + 2)) := by
          have hdrop : address.drop (pos + 2) = rest := by
            rw [← List.drop_drop, ← hrest]
            rfl
          rw [hdrop, hrest, List.take_append_drop]
        cases hl : Url.h16Groups (address.take pos) false with
        | error e =>
            rw [hl] at h
            cases h
        | ok l =>
            cases hr : Url.h16Groups (address.drop (pos + 2)) true with
            | error e =>
                rw [hl, hr] at h
                cases h
            | ok r =>
                rw [hl, hr] at h
                replace h : (if weight l + weight r < 8 then Except.ok () else Except.error (UrlError.invalidByte 1)) = .ok () := h
                split at h
                next hw => exact .inr ⟨_, _, _, _, haddr, side_of_h16Groups hl, side_of_h16Groups hr, hw⟩
                next => cases h
  · rintro (h | ⟨left, right, m, n, rfl, hl, hr, hw⟩)
    · have hne : address ≠ [] := by
        rintro rfl
        have hempty : Side true [] 0 := .empty
        obtain ⟨r, hr, hw⟩ := h16Groups_side h
        obtain ⟨r', hr', hw'⟩ := h16Groups_side hempty
        rw [hr] at hr'
        cases hr'
        omega
      obtain ⟨r, hr, hw⟩ := h16Groups_side h
      rw [validate_whole hne h.findWindow_none, hr]
      exact if_pos hw
    · obtain ⟨l, hgl, rfl⟩ := h16Groups_side hl
      obtain ⟨r, hgr, rfl⟩ := h16Groups_side hr
      have hright : (left ++ (ascii "::" ++ right)).drop (left.length + 2) = right := by
        rw [List.drop_length_add_append]
        rfl
      rw [validate_split (by simp [show ascii "::" = [0x3a, 0x3a] by decide]) (hl.findWindow_left right) List.take_left
        hright, hr.findWindow_none, Option.isSome_none, if_neg Bool.false_ne_true, hgl, hgr]
      exact if_pos hw

/-! ## The nine alternatives -/

/-- What may stand in front of a `::`. -/
theorem mem_leading {k : Nat} {w : Bytes} : w ∈ leading k ↔ ∃ m ≤ k + 1, Side false w m := by
  constructor
  · rintro (rfl | ⟨j, hj, hw⟩)
    · exact ⟨0, Nat.zero_le _, .empty⟩
    · obtain ⟨gs, rfl, hgs, t, ht, rfl⟩ := mem_groups_mul.mp hw
      have hall : ∀ g ∈ gs ++ [t], g ∈ h16 := by
        intro g hg
        rcases List.mem_append.mp hg with hg | hg
        · exact hgs g hg
        · rw [List.mem_singleton.mp hg]
          exact ht
      have hside : Side false (join (gs ++ [t])) (gs ++ [t]).length := .groups (by simp) hall
      rw [List.length_append, List.length_singleton] at hside
      exact ⟨_, Nat.succ_le_succ hj, by rwa [flatMap_colon]⟩
  · rintro ⟨m, hm, hside⟩
    cases hside with
    | empty => exact .inl rfl
    | @groups gs hne h =>
        obtain ⟨front, last, rfl⟩ := (List.eq_nil_or_concat' gs).resolve_left hne
        rw [List.length_append, List.length_singleton] at hm
        refine .inr ⟨front.length, by omega, mem_groups_mul.mpr ⟨front, rfl, ?_, last, ?_, (flatMap_colon front last).symm⟩⟩
        · exact fun g hg => h g (List.mem_append_left _ hg)
        · exact h last (by simp)
    | embedded hallow => cases hallow

/-- What may end an address, when it weighs two or more. -/
theorem mem_ls32 {k : Nat} {w : Bytes} : w ∈ groups k * ls32 ↔ Side true w (k + 2) := by
  rw [mem_groups_mul]
  constructor
  · rintro ⟨gs, rfl, hgs, t, ht, rfl⟩
    rcases ht with ⟨a, ha, _, htail, rfl⟩ | hv4
    · obtain ⟨b, hb, rfl⟩ := mem_lit_mul.mp htail
      have hall : ∀ g ∈ gs ++ [a, b], g ∈ h16 := by
        intro g hg
        rcases List.mem_append.mp hg with hg | hg
        · exact hgs g hg
        · rcases List.mem_pair.mp hg with rfl | rfl
          · exact ha
          · exact hb
      have hside : Side true (join (gs ++ [a, b])) (gs ++ [a, b]).length := .groups (by simp) hall
      have hjoin : gs.flatMap (· ++ [0x3a]) ++ (a ++ (ascii ":" ++ b)) = join (gs ++ [a, b]) := by
        have h := flatMap_colon (gs ++ [a]) b
        rw [List.flatMap_append, List.append_assoc, List.append_assoc] at h
        simpa [show ascii ":" = [0x3a] by decide] using h
      rw [List.length_append] at hside
      show Side true (gs.flatMap (· ++ [0x3a]) ++ (a ++ (ascii ":" ++ b))) _
      rw [hjoin]
      exact hside
    · rw [flatMap_colon]
      exact .embedded rfl hgs hv4
  · intro hside
    generalize hn : k + 2 = n at hside
    cases hside with
    | empty => omega
    | @groups gs hne h =>
        obtain ⟨front, b, rfl⟩ := (List.eq_nil_or_concat' gs).resolve_left hne
        rw [List.length_append, List.length_singleton] at hn
        have hfront : front ≠ [] := by
          rintro rfl
          rw [List.length_nil] at hn
          omega
        obtain ⟨front, a, rfl⟩ := (List.eq_nil_or_concat' front).resolve_left hfront
        rw [List.length_append, List.length_singleton] at hn
        have ha : a ∈ h16 := h a (by simp)
        have hb : b ∈ h16 := h b (by simp)
        refine ⟨front, by omega, fun g hg => h g (by simp [hg]), a ++ (ascii ":" ++ b),
          .inl ⟨a, ha, _, mem_lit_mul.mpr ⟨b, hb, rfl⟩, rfl⟩, ?_⟩
        have hjoin := flatMap_colon (front ++ [a]) b
        rw [List.flatMap_append, List.append_assoc] at hjoin
        rw [← hjoin]
        simp [show ascii ":" = [0x3a] by decide]
    | @embedded gs v4 _ h hv4 => exact ⟨gs, by omega, h, v4, .inr hv4, (flatMap_colon gs v4).symm⟩

theorem mem_h16 {w : Bytes} : w ∈ h16 ↔ Side true w 1 := by
  constructor
  · intro h
    have hside : Side true (join [w]) [w].length := .groups (by simp) (by simpa using h)
    simpa [join] using hside
  · intro hside
    generalize hn : 1 = n at hside
    cases hside with
    | empty => omega
    | @groups gs _ h =>
        obtain ⟨g, rfl⟩ := List.length_eq_one_iff.mp hn.symm
        simpa [join] using h g (by simp)
    | embedded => omega

theorem side_zero {allowV4 : Bool} {w : Bytes} : w = [] ↔ Side allowV4 w 0 := by
  constructor
  · rintro rfl
    exact .empty
  · intro hside
    generalize hn : 0 = n at hside
    cases hside with
    | empty => rfl
    | groups hne => exact absurd (List.length_eq_zero_iff.mp hn.symm) hne
    | embedded => omega

/-- The alternatives with something in front of the `::`. -/
theorem mem_around {l r : Language UInt8} {w : Bytes} :
    w ∈ l * (lit "::" * r) ↔ ∃ left ∈ l, ∃ right ∈ r, w = left ++ (ascii "::" ++ right) := by
  constructor
  · rintro ⟨left, hl, _, htail, rfl⟩
    obtain ⟨right, hr, rfl⟩ := mem_lit_mul.mp htail
    exact ⟨left, hl, right, hr, rfl⟩
  · rintro ⟨left, hl, right, hr, rfl⟩
    exact ⟨left, hl, _, mem_lit_mul.mpr ⟨right, hr, rfl⟩, rfl⟩

/-- Two parts around a `::` that weigh at most seven, by the weight of the right one. -/
theorem around_iff {k n : Nat} {r : Language UInt8} (hr : ∀ {w : Bytes}, w ∈ r ↔ Side true w n) (hkn : k + n = 6) {w : Bytes} :
    w ∈ leading k * (lit "::" * r) ↔
      ∃ left right m, w = left ++ (ascii "::" ++ right) ∧ Side false left m ∧ Side true right n ∧ m + n < 8 := by
  rw [mem_around]
  constructor
  · rintro ⟨left, hl, right, hright, rfl⟩
    obtain ⟨m, hm, hside⟩ := mem_leading.mp hl
    exact ⟨left, right, m, rfl, hside, hr.mp hright, by omega⟩
  · rintro ⟨left, right, m, rfl, hside, hright, hw⟩
    exact ⟨left, mem_leading.mpr ⟨m, by omega, hside⟩, right, hr.mpr hright, rfl⟩

/-- **The grammar** asks for the same parts as the validator. -/
theorem mem_ipv6address {w : Bytes} : w ∈ ipv6address ↔
    Side true w 8 ∨
      ∃ left right m n, w = left ++ (ascii "::" ++ right) ∧ Side false left m ∧ Side true right n ∧ m + n < 8 := by
  have hls : ∀ {w : Bytes}, w ∈ ls32 ↔ Side true w 2 := by
    intro w
    have h := @mem_ls32 0 w
    rwa [groups, pow_zero, one_mul] at h
  have hls₁ : ∀ {w : Bytes}, w ∈ h16 * (lit ":" * ls32) ↔ Side true w 3 := by
    intro w
    have h := @mem_ls32 1 w
    rwa [groups, pow_one, mul_assoc] at h
  have hlast : leading 6 * lit "::" = leading 6 * (lit "::" * 1) := by rw [mul_one]
  have hone : ∀ {w : Bytes}, w ∈ (1 : Language UInt8) ↔ Side true w 0 := by
    intro w
    rw [Language.mem_one, side_zero]
  have hfirst : w ∈ lit "::" * (groups 5 * ls32) ↔
      ∃ left right m, w = left ++ (ascii "::" ++ right) ∧ Side false left m ∧ Side true right 7 ∧ m + 7 < 8 := by
    rw [mem_lit_mul]
    constructor
    · rintro ⟨right, hr, rfl⟩
      exact ⟨[], right, 0, rfl, .empty, mem_ls32.mp hr, by omega⟩
    · rintro ⟨left, right, m, rfl, hl, hr, hw⟩
      obtain rfl : m = 0 := by omega
      rw [← side_zero] at hl
      subst hl
      exact ⟨right, mem_ls32.mpr hr, rfl⟩
  unfold ipv6address
  rw [hlast]
  simp only [Language.mem_add]
  rw [mem_ls32, hfirst, around_iff mem_ls32 (by rfl), around_iff mem_ls32 (by rfl), around_iff mem_ls32 (by rfl),
    around_iff hls₁ (by rfl), around_iff hls (by rfl), around_iff mem_h16 (by rfl), around_iff hone (by rfl)]
  constructor
  · rintro ((((((((h | ⟨l, r, m, hw⟩) | ⟨l, r, m, hw⟩) | ⟨l, r, m, hw⟩) | ⟨l, r, m, hw⟩) | ⟨l, r, m, hw⟩) | ⟨l, r, m, hw⟩) |
      ⟨l, r, m, hw⟩) | ⟨l, r, m, hw⟩)
    · exact .inl h
    all_goals exact .inr ⟨l, r, m, _, hw⟩
  · rintro (h | ⟨l, r, m, n, rfl, hl, hr, hw⟩)
    · exact .inl (.inl (.inl (.inl (.inl (.inl (.inl (.inl h)))))))
    · have hn : n < 8 := by omega
      -- one alternative for each weight of the right part
      match n, hn with
      | 7, _ => exact .inl (.inl (.inl (.inl (.inl (.inl (.inl (.inr ⟨l, r, m, rfl, hl, hr, hw⟩)))))))
      | 6, _ => exact .inl (.inl (.inl (.inl (.inl (.inl (.inr ⟨l, r, m, rfl, hl, hr, hw⟩))))))
      | 5, _ => exact .inl (.inl (.inl (.inl (.inl (.inr ⟨l, r, m, rfl, hl, hr, hw⟩)))))
      | 4, _ => exact .inl (.inl (.inl (.inl (.inr ⟨l, r, m, rfl, hl, hr, hw⟩))))
      | 3, _ => exact .inl (.inl (.inl (.inr ⟨l, r, m, rfl, hl, hr, hw⟩)))
      | 2, _ => exact .inl (.inl (.inr ⟨l, r, m, rfl, hl, hr, hw⟩))
      | 1, _ => exact .inl (.inr ⟨l, r, m, rfl, hl, hr, hw⟩)
      | 0, _ => exact .inr ⟨l, r, m, rfl, hl, hr, hw⟩

/-- The validator accepts the words of the grammar. -/
theorem ipv6address_iff {address : Bytes} : Url.validateIpv6Address address = .ok () ↔ address ∈ ipv6address := by
  rw [validate_iff, mem_ipv6address]

end Ipv6

/-- **IPv6 validation is exact.** -/
theorem Url.validateIpv6Address_exact (address : Bytes) :
    Url.validateIpv6Address address = .ok () ↔ address ∈ Ipv6.ipv6address :=
  Ipv6.ipv6address_iff

end Xibalba
