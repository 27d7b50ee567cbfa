import Xibalba.Proto.Correctness.Ipv6

/-!
# `Proto.Correctness.UrlGrammar` — the URLs `parse` accepts

A URL is a scheme, a host, a port and a tail. Here they are written down as languages, after RFC 3986 §3 and RFC 6874,
and `Url::parse` accepts exactly their concatenation and takes it apart again.

Layout:
* byte classes and the host forms, each with its validator;
* the port;
* the authority, from its bytes and back;
* the tail, and `Url.parse_grammar`.
-/

namespace Xibalba

namespace UrlGrammar

open Bytes (lower decimal IsNumeral)
open Ipv6 (lit ipv6address)

/-! ## The grammar -/

/-- `unreserved = ALPHA / DIGIT / "-" / "." / "_" / "~"`. -/
def IsUnreserved (b : UInt8) : Prop := isAsciiAlphanumeric b = true ∨ b ∈ ascii "-._~"

/-- `sub-delims`. -/
def IsSubDelim (b : UInt8) : Prop := b ∈ ascii "!$&'()*+,;="

/-- Plain bytes and `pct-encoded = "%" HEXDIG HEXDIG`, any number of them. -/
inductive PctEncoded (plain : UInt8 → Prop) : Bytes → Prop
  | nil : PctEncoded plain []
  | plain {b : UInt8} {rest : Bytes} (hb : plain b) (h : PctEncoded plain rest) : PctEncoded plain (b :: rest)
  | triple {hi lo : UInt8} {rest : Bytes} (hhi : isAsciiHexdigit hi = true) (hlo : isAsciiHexdigit lo = true)
      (h : PctEncoded plain rest) : PctEncoded plain (0x25 :: hi :: lo :: rest)

/-- `reg-name = *( unreserved / pct-encoded / sub-delims )`. -/
def RegName (w : Bytes) : Prop := PctEncoded (fun b => IsUnreserved b ∨ IsSubDelim b) w

/-- `ZoneID = 1*( unreserved / pct-encoded )`. -/
def ZoneId (w : Bytes) : Prop := w ≠ [] ∧ PctEncoded IsUnreserved w

/-- `IPvFuture = "v" 1*HEXDIG "." 1*( unreserved / sub-delims / ":" )`, the `v` in either case. -/
def IPvFuture (w : Bytes) : Prop :=
  ∃ v version rest, w = v :: (version ++ 0x2e :: rest) ∧ (v = 0x76 ∨ v = 0x56) ∧ version ≠ [] ∧
    (∀ b ∈ version, isAsciiHexdigit b = true) ∧ rest ≠ [] ∧ ∀ b ∈ rest, IsUnreserved b ∨ IsSubDelim b ∨ b = 0x3a

/-- What stands between the brackets of an IP literal. -/
def IpLiteral (w : Bytes) : Prop :=
  w ∈ ipv6address ∨ (∃ address zone, w = address ++ (ascii "%25" ++ zone) ∧ address ∈ ipv6address ∧ ZoneId zone) ∨
    IPvFuture w

/-- A non-empty `reg-name`, or an IP literal in brackets. -/
def IsHost (host : Bytes) : Prop :=
  host ≠ [] ∧ RegName host ∨ ∃ inner, host = 0x5b :: (inner ++ [0x5d]) ∧ IpLiteral inner

/-- `[ ":" 1*DIGIT ]`, of a value that fits 16 bits. -/
def IsPort (port : Bytes) : Prop :=
  port = [] ∨ ∃ digits, port = 0x3a :: digits ∧ IsNumeral digits ∧ decimal digits ≤ 65535

/-- `http` or `https`, in any case. -/
def IsScheme (w : Bytes) : Prop := lower w = ascii "http" ∨ lower w = ascii "https"

/-- Nothing, or something that starts a path, a query or a fragment. -/
def IsTail (tail : Bytes) : Prop := ∀ b ∈ tail.head?, b = 0x2f ∨ b = 0x3f ∨ b = 0x23

/-- **The grammar.** -/
def IsUrl (input : Bytes) : Prop :=
  ∃ scheme host port tail, input = scheme ++ (ascii "://" ++ (host ++ (port ++ tail))) ∧ IsScheme scheme ∧ IsHost host ∧
    IsPort port ∧ IsTail tail

/-! ## Byte classes -/

theorem isZoneIdByte_iff {b : UInt8} : Url.isZoneIdByte b = true ↔ IsUnreserved b := by
  unfold Url.isZoneIdByte IsUnreserved
  rw [Bool.or_eq_true, List.contains_iff_mem, show ascii "-._~" = [0x2d, 0x2e, 0x5f, 0x7e] by decide]

theorem isRegNameByte_iff {b : UInt8} : Url.isRegNameByte b = true ↔ IsUnreserved b ∨ IsSubDelim b := by
  unfold Url.isRegNameByte IsSubDelim
  rw [Bool.or_eq_true, isZoneIdByte_iff, List.contains_iff_mem,
    show ascii "!$&'()*+,;=" = [0x21, 0x24, 0x26, 0x27, 0x28, 0x29, 0x2a, 0x2b, 0x2c, 0x3b, 0x3d] by decide]

/-- A byte of a host that is neither a bracket nor a colon. -/
def IsNameByte (b : UInt8) : Prop := Url.isRegNameByte b = true ∨ b = 0x25

theorem isHostByte_iff {b : UInt8} : Url.isHostByte b = true ↔ IsNameByte b ∨ b = 0x5b ∨ b = 0x5d ∨ b = 0x3a := by
  unfold Url.isHostByte IsNameByte
  rw [Bool.or_eq_true, List.contains_iff_mem]
  simp [or_assoc]

/-- What no name byte is: the delimiters of a URL. -/
theorem nameByte_ne {b c : UInt8} (h : IsNameByte b) (hc : ¬IsNameByte c) : b ≠ c := by
  rintro rfl
  exact hc h

theorem not_nameByte {c : UInt8} (hc : c ∈ ascii "/?#@[]:") : ¬IsNameByte c := by
  rw [show ascii "/?#@[]:" = [0x2f, 0x3f, 0x23, 0x40, 0x5b, 0x5d, 0x3a] by decide] at hc
  unfold IsNameByte
  revert c
  decide +kernel

theorem hexdigit_nameByte : ∀ b : UInt8, isAsciiHexdigit b = true → IsNameByte b := by
  have h : ∀ b : UInt8, isAsciiHexdigit b = true → Url.isRegNameByte b = true := forall_byte (by decide +kernel)
  exact fun b hb => .inl (h b hb)

/-! ## Names -/

/-- **`validate_pct_encoded_unreserved`** accepts plain bytes and percent triples. -/
theorem validatePct_iff {p : UInt8 → Bool} {plain : UInt8 → Prop} (hp : ∀ b, p b = true ↔ plain b) (hpct : ¬plain 0x25)
    {i : Nat} {w : Bytes} : Url.validatePctEncodedUnreserved p i w = .ok () ↔ PctEncoded plain w := by
  constructor
  · intro h
    fun_induction Url.validatePctEncodedUnreserved p i w with
    | case1 => exact .nil
    | case2 i hi lo rest hhex ih =>
        obtain ⟨hhi, hlo⟩ := Bool.and_eq_true_iff.mp hhex
        exact .triple hhi hlo (ih h)
    | case3 => cases h
    | case4 i b rest _ hb ih => exact .plain ((hp b).mp hb.2) (ih h)
    | case5 => cases h
  · intro h
    induction h generalizing i with
    | nil => rfl
    | @plain b rest hb _ ih =>
        have hne : b ≠ 0x25 := by
          rintro rfl
          exact hpct hb
        rw [Url.validatePctEncodedUnreserved, if_pos ⟨hne, (hp b).mpr hb⟩]
        · exact ih
        · intro hi lo rest' hb' _
          exact hne hb'
    | triple hhi hlo _ ih =>
        rw [Url.validatePctEncodedUnreserved, hhi, hlo, if_pos (by rfl)]
        exact ih

theorem regName_iff {w : Bytes} : Url.validateRegName w = .ok () ↔ RegName w :=
  validatePct_iff (fun _ => isRegNameByte_iff) (by rw [← isRegNameByte_iff]; decide)

theorem zoneId_iff {w : Bytes} : Url.validateZoneId w = .ok () ↔ ZoneId w := by
  unfold Url.validateZoneId ZoneId
  by_cases hw : w.isEmpty = true
  · rw [if_pos hw]
    exact ⟨nofun, fun h => absurd (List.isEmpty_iff.mp hw) h.1⟩
  · rw [if_neg hw, validatePct_iff (fun _ => isZoneIdByte_iff) (by rw [← isZoneIdByte_iff]; decide)]
    exact ⟨fun h => ⟨fun hnil => hw (List.isEmpty_iff.mpr hnil), h⟩, fun h => h.2⟩

/-- The bytes of a string of plain bytes and percent triples. -/
theorem PctEncoded.bytes {plain : UInt8 → Prop} (hplain : ∀ b, plain b → IsNameByte b) {w : Bytes} (h : PctEncoded plain w) :
    ∀ b ∈ w, IsNameByte b := by
  induction h with
  | nil => nofun
  | plain hb _ ih => exact List.forall_mem_cons.mpr ⟨hplain _ hb, ih⟩
  | triple hhi hlo _ ih =>
      refine List.forall_mem_cons.mpr ⟨.inr rfl, List.forall_mem_cons.mpr ⟨hexdigit_nameByte _ hhi, ?_⟩⟩
      exact List.forall_mem_cons.mpr ⟨hexdigit_nameByte _ hlo, ih⟩

theorem RegName.bytes {w : Bytes} (h : RegName w) : ∀ b ∈ w, IsNameByte b :=
  PctEncoded.bytes (fun _ hb => .inl (isRegNameByte_iff.mpr hb)) h

theorem ZoneId.bytes {w : Bytes} (h : ZoneId w) : ∀ b ∈ w, IsNameByte b :=
  h.2.bytes fun _ hb => .inl (isRegNameByte_iff.mpr (.inl hb))

/-! ## IP literals -/

theorem future_rest_iff {b : UInt8} :
    (Url.isRegNameByte b || b == 0x3a) = true ↔ IsUnreserved b ∨ IsSubDelim b ∨ b = 0x3a := by
  rw [Bool.or_eq_true, isRegNameByte_iff, beq_iff_eq, or_assoc]

/-- **`validate_ipvfuture`**, on a literal whose first byte has been looked at. -/
theorem ipvfuture_iff {v : UInt8} {w : Bytes} (hv : v = 0x76 ∨ v = 0x56) :
    Url.validateIpvfuture (v :: w) = .ok () ↔ IPvFuture (v :: w) := by
  have hdot : (v == 0x2e) = false := by
    rcases hv with rfl | rfl <;> decide
  unfold Url.validateIpvfuture
  constructor
  · intro h
    cases hf : (v :: w).findIdx? (· == 0x2e) with
    | none =>
        rw [hf] at h
        cases h
    | some n =>
        rw [hf] at h
        -- the version ends at the first dot
        obtain ⟨front, x, rest, hw, rfl, hx, -⟩ := Split.exists_of_findIdx? hf
        obtain rfl : x = 0x2e := by simpa using hx
        cases front with
        | nil =>
            rw [List.nil_append] at hw
            cases hw
            cases hdot
        | cons v' version =>
            rw [List.cons_append] at hw
            obtain ⟨rfl, rfl⟩ := List.cons.inj hw
            have htake : (v :: (version ++ 0x2e :: rest)).take (v :: version).length = v :: version := by
              rw [← List.cons_append, List.take_left]
            have hdrop : (v :: (version ++ 0x2e :: rest)).drop ((v :: version).length + 1) = rest := by
              rw [← List.cons_append, List.drop_length_add_append]
              rfl
            dsimp only at h
            rw [htake, hdrop, List.drop_succ_cons, List.drop_zero] at h
            split at h
            · cases h
            next hshape =>
              split at h
              next hall =>
                simp only [Bool.or_eq_true, Bool.not_eq_true', not_or, Bool.not_eq_false, List.isEmpty_iff,
                  List.all_eq_true] at hshape
                rw [List.all_eq_true] at hall
                exact ⟨v, version, rest, rfl, hv, hshape.1.1, hshape.2, hshape.1.2, fun b hb => future_rest_iff.mp (hall b hb)⟩
              next => cases h
  · rintro ⟨v', version, rest, hw, -, hversion, hhex, hrest, hall⟩
    obtain ⟨rfl, rfl⟩ := List.cons.inj hw
    have hno : ∀ a ∈ v :: version, (a == 0x2e) = false := by
      refine List.forall_mem_cons.mpr ⟨hdot, fun a ha => ?_⟩
      rw [beq_eq_false_iff_ne]
      rintro rfl
      exact absurd (hhex _ ha) (by decide)
    have hf : (v :: (version ++ 0x2e :: rest)).findIdx? (· == 0x2e) = some (v :: version).length :=
      Split.findIdx?_cons_append hno (by rfl)
    have htake : (v :: (version ++ 0x2e :: rest)).take (v :: version).length = v :: version := by
      rw [← List.cons_append, List.take_left]
    have hdrop : (v :: (version ++ 0x2e :: rest)).drop ((v :: version).length + 1) = rest := by
      rw [← List.cons_append, List.drop_length_add_append]
      rfl
    rw [hf]
    dsimp only
    rw [htake, hdrop, List.drop_succ_cons, List.drop_zero, if_neg, if_pos]
    · rw [List.all_eq_true]
      exact fun b hb => future_rest_iff.mpr (hall b hb)
    · simp only [Bool.or_eq_true, Bool.not_eq_true', not_or, Bool.not_eq_false, List.isEmpty_iff, List.all_eq_true]
      exact ⟨⟨hversion, hrest⟩, hhex⟩

/-- The bytes of an IPv6 address: hex digits, colons and dots. -/
theorem ipv6_bytes {w : Bytes} (h : w ∈ ipv6address) :
    w ≠ [] ∧ ∀ b ∈ w, isAsciiHexdigit b = true ∨ b = 0x3a ∨ b = 0x2e := by
  have hside : ∀ {allowV4 : Bool} {w : Bytes} {n : Nat}, Ipv6.Side allowV4 w n →
      ∀ b ∈ w, isAsciiHexdigit b = true ∨ b = 0x3a ∨ b = 0x2e := by
    intro allowV4 w n h b hb
    have hh16 : ∀ {g : Bytes}, g ∈ Ipv6.h16 → b ∈ g → isAsciiHexdigit b = true ∨ b = 0x3a ∨ b = 0x2e :=
      fun hg hb => .inl (hg.2.2 b hb)
    cases h with
    | empty => cases hb
    | groups _ h =>
        obtain rfl | ⟨g, hg, hb⟩ := Split.mem_join hb
        · exact .inr (.inl rfl)
        · exact hh16 (h g hg) hb
    | embedded _ h hv4 =>
        obtain rfl | ⟨g, hg, hb⟩ := Split.mem_join hb
        · exact .inr (.inl rfl)
        · rcases List.mem_append.mp hg with hg | hg
          · exact hh16 (h g hg) hb
          · rw [List.mem_singleton.mp hg] at hb
            rcases (Ipv6.ipv4_bytes hv4).2.2 b hb with hdigit | hdot
            · exact .inl (by simp [isAsciiHexdigit, hdigit])
            · exact .inr (.inr hdot)
  constructor
  · rintro rfl
    cases Ipv6.ipv6address_iff.mpr h
  · rcases Ipv6.mem_ipv6address.mp h with h | ⟨left, right, m, n, rfl, hl, hr, -⟩
    · exact hside h
    · intro b hb
      rcases List.mem_append.mp hb with hb | hb
      · exact hside hl b hb
      · rcases List.mem_append.mp hb with hb | hb
        · rw [show ascii "::" = [0x3a, 0x3a] by decide] at hb
          exact .inr (.inl (by simpa using hb))
        · exact hside hr b hb

/-- The bytes of an IPv6 address are neither a percent sign nor a `v`. -/
theorem ipv6_byte_ne {w : Bytes} (h : w ∈ ipv6address) {b : UInt8} (hb : b ∈ w) : b ≠ 0x25 ∧ ¬(b = 0x76 ∨ b = 0x56) := by
  have hclass : ∀ c : UInt8, isAsciiHexdigit c = true → c ≠ 0x25 ∧ ¬(c = 0x76 ∨ c = 0x56) :=
    forall_byte (by decide +kernel)
  rcases (ipv6_bytes h).2 b hb with hhex | rfl | rfl
  · exact hclass b hhex
  · decide
  · decide

/-- The zone of an address starts behind the first escaped percent sign. -/
theorem findWindow_zone {address : Bytes} (h : address ∈ ipv6address) (zone : Bytes) :
    Bytes.findWindow (ascii "%25") (address ++ (ascii "%25" ++ zone)) = some address.length := by
  rw [Bytes.findWindow_iff (by decide)]
  constructor
  · rw [List.drop_left]
    exact List.prefix_append _ _
  · intro q hq hpre
    rw [List.drop_append_of_le_length (Nat.le_of_lt hq), List.drop_eq_getElem_cons hq, List.cons_append,
      show ascii "%25" = [0x25, 0x32, 0x35] by decide, List.cons_prefix_cons] at hpre
    exact (ipv6_byte_ne h (List.getElem_mem hq)).1 hpre.1.symm

theorem findWindow_address {address : Bytes} (h : address ∈ ipv6address) :
    Bytes.findWindow (ascii "%25") address = none := by
  cases hf : Bytes.findWindow (ascii "%25") address with
  | none => rfl
  | some q =>
      have hpre := Bytes.findWindow_eq_some hf
      rw [show ascii "%25" = [0x25, 0x32, 0x35] by decide] at hpre
      have hmem : (0x25 : UInt8) ∈ address := List.mem_of_mem_drop (hpre.subset (by simp))
      exact absurd rfl (ipv6_byte_ne h hmem).1

/-- A literal that starts with a `v` is one of the future. -/
theorem ipLiteral_future {v : UInt8} {w : Bytes} (hv : v = 0x76 ∨ v = 0x56) : IpLiteral (v :: w) ↔ IPvFuture (v :: w) := by
  constructor
  · rintro (h | ⟨address, zone, heq, h, -⟩ | h)
    · exact absurd hv (ipv6_byte_ne h List.mem_cons_self).2
    · cases address with
      | nil => exact absurd rfl (ipv6_bytes h).1
      | cons b address =>
          obtain ⟨rfl, -⟩ := List.cons.inj heq
          exact absurd hv (ipv6_byte_ne h List.mem_cons_self).2
    · exact h
  · intro h
    exact .inr (.inr h)

/-- And any other is an address, with or without a zone. -/
theorem ipLiteral_address {v : UInt8} {w : Bytes} (hv : ¬(v = 0x76 ∨ v = 0x56)) : IpLiteral (v :: w) ↔
    v :: w ∈ ipv6address ∨
      ∃ address zone, v :: w = address ++ (ascii "%25" ++ zone) ∧ address ∈ ipv6address ∧ ZoneId zone := by
  constructor
  · rintro (h | h | ⟨v', version, rest, heq, hv', -⟩)
    · exact .inl h
    · exact .inr h
    · obtain ⟨rfl, -⟩ := List.cons.inj heq
      exact absurd hv' hv
  · rintro (h | h)
    · exact .inl h
    · exact .inr (.inl h)

/-- **`validate_ip_literal`** accepts what may stand between brackets. -/
theorem ipLiteral_iff {w : Bytes} : Url.validateIpLiteral w = .ok () ↔ IpLiteral w := by
  unfold Url.validateIpLiteral
  cases w with
  | nil =>
      refine ⟨nofun, ?_⟩
      rintro (h | ⟨address, zone, heq, h, -⟩ | ⟨v, version, rest, heq, -⟩)
      · exact absurd rfl (ipv6_bytes h).1
      · exact absurd (List.append_eq_nil_iff.mp heq.symm).1 (ipv6_bytes h).1
      · cases heq
  | cons v w =>
      rw [List.head?_cons]
      dsimp only
      by_cases hv : v = 0x76 ∨ v = 0x56
      · rw [if_pos hv, ipvfuture_iff hv, ipLiteral_future hv]
      rw [if_neg hv, ipLiteral_address hv]
      cases hf : Bytes.findWindow (ascii "%25") (v :: w) with
      | none =>
          dsimp only
          rw [Ipv6.ipv6address_iff]
          constructor
          · exact .inl
          · rintro (h | ⟨address, zone, heq, h, -⟩)
            · exact h
            · rw [heq, findWindow_zone h] at hf
              cases hf
      | some pos =>
          dsimp only
          -- a zone follows the address
          have hsplit : v :: w = (v :: w).take pos ++ (ascii "%25" ++ (v :: w).drop (pos + 3)) := by
            obtain ⟨rest, hrest⟩ := Bytes.findWindow_eq_some hf
            have hdrop : (v :: w).drop (pos + 3) = rest := by
              rw [← List.drop_drop, ← hrest]
              rfl
            rw [hdrop, hrest, List.take_append_drop]
          constructor
          · intro h
            cases ha : Url.validateIpv6Address ((v :: w).take pos) with
            | error e =>
                rw [ha] at h
                cases h
            | ok u =>
                rw [ha] at h
                exact .inr ⟨_, _, hsplit, Ipv6.ipv6address_iff.mp ha, zoneId_iff.mp h⟩
          · rintro (h | ⟨address, zone, heq, h, hz⟩)
            · rw [findWindow_address h] at hf
              cases hf
            · rw [heq, findWindow_zone h] at hf
              cases hf
              have hdrop : (address ++ (ascii "%25" ++ zone)).drop (address.length + 3) = zone := by
                rw [List.drop_length_add_append]
                rfl
              rw [heq, List.take_left, hdrop, Ipv6.ipv6address_iff.mpr h]
              exact zoneId_iff.mpr hz

/-- The bytes of a literal: name bytes and colons. -/
theorem IpLiteral.bytes {w : Bytes} (h : IpLiteral w) : ∀ b ∈ w, IsNameByte b ∨ b = 0x3a := by
  have haddr : ∀ {w : Bytes}, w ∈ ipv6address → ∀ b ∈ w, IsNameByte b ∨ b = 0x3a := by
    intro w h b hb
    rcases (ipv6_bytes h).2 b hb with hhex | rfl | rfl
    · exact .inl (hexdigit_nameByte b hhex)
    · exact .inr rfl
    · exact .inl (.inl (by decide))
  rcases h with h | ⟨address, zone, rfl, h, hz⟩ | ⟨v, version, rest, rfl, hv, -, hversion, -, hrest⟩
  · exact haddr h
  · intro b hb
    rcases List.mem_append.mp hb with hb | hb
    · exact haddr h b hb
    · rcases List.mem_append.mp hb with hb | hb
      · have hpct : ∀ b ∈ ascii "%25", IsNameByte b := by
          unfold IsNameByte
          decide +kernel
        exact .inl (hpct b hb)
      · exact .inl (hz.bytes b hb)
  · refine List.forall_mem_cons.mpr ⟨.inl ?_, fun b hb => ?_⟩
    · rcases hv with rfl | rfl
      · exact .inl (by decide)
      · exact .inl (by decide)
    · rcases List.mem_append.mp hb with hb | hb
      · exact .inl (hexdigit_nameByte b (hversion b hb))
      · rcases List.mem_cons.mp hb with rfl | hb
        · exact .inl (.inl (by decide))
        · rcases hrest b hb with hb | hb | rfl
          · exact .inl (.inl (isRegNameByte_iff.mpr (.inl hb)))
          · exact .inl (.inl (isRegNameByte_iff.mpr (.inr hb)))
          · exact .inr rfl

/-! ## The port -/

/-- The text of a port, and the number it stands for. -/
def PortText (text : Bytes) (port : Option Nat) : Prop :=
  text = [] ∧ port = none ∨
    ∃ digits, text = 0x3a :: digits ∧ IsNumeral digits ∧ decimal digits ≤ 65535 ∧ port = some (decimal digits)

theorem isPort_iff {text : Bytes} : IsPort text ↔ ∃ port, PortText text port := by
  constructor
  · rintro (rfl | ⟨digits, rfl, hnum, hle⟩)
    · exact ⟨none, .inl ⟨rfl, rfl⟩⟩
    · exact ⟨_, .inr ⟨digits, rfl, hnum, hle, rfl⟩⟩
  · rintro ⟨port, ⟨rfl, -⟩ | ⟨digits, rfl, hnum, hle, -⟩⟩
    · exact .inl rfl
    · exact .inr ⟨digits, rfl, hnum, hle⟩

theorem parsePortDigits_iff {acc n : Nat} {w : Bytes} (hacc : acc ≤ 65535) : Url.parsePortDigits acc w = .ok n ↔
    (∀ b ∈ w, isAsciiDigit b = true) ∧ w.foldl (fun n b => n * 10 + (b - 0x30).toNat) acc = n ∧ n ≤ 65535 := by
  induction w generalizing acc with
  | nil =>
      show Except.ok acc = .ok n ↔ _
      constructor
      · intro h
        cases h
        exact ⟨nofun, rfl, hacc⟩
      · rintro ⟨-, h, -⟩
        exact congrArg Except.ok h
  | cons b w ih =>
      have hle := Bytes.le_decimal_foldl (acc * 10 + (b - 0x30).toNat) w
      unfold Url.parsePortDigits
      rw [List.forall_mem_cons, Bytes.digit_iff, List.foldl_cons]
      dsimp only
      by_cases hdigit : (b - 0x30).toNat > 9
      · rw [if_pos hdigit]
        exact ⟨nofun, fun h => absurd h.1.1 (by omega)⟩
      · rw [if_neg hdigit]
        by_cases hover : acc * 10 + (b - 0x30).toNat > 65535
        · rw [if_pos hover]
          constructor
          · nofun
          · rintro ⟨-, hn, hlt⟩
            omega
        · rw [if_neg hover, ih (by omega), and_assoc]
          exact ⟨fun h => ⟨by omega, h⟩, fun h => h.2⟩

theorem parsePort_iff {w : Bytes} {n : Nat} : Url.parsePort w = .ok n ↔ IsNumeral w ∧ decimal w = n ∧ n ≤ 65535 := by
  unfold Url.parsePort IsNumeral
  by_cases hw : w.isEmpty = true
  · rw [if_pos hw]
    exact ⟨nofun, fun h => absurd (List.isEmpty_iff.mp hw) h.1.1⟩
  · rw [if_neg hw, parsePortDigits_iff (by decide)]
    constructor
    · rintro ⟨hdigits, hn, hle⟩
      exact ⟨⟨fun hnil => hw (List.isEmpty_iff.mpr hnil), hdigits⟩, hn, hle⟩
    · rintro ⟨⟨-, hdigits⟩, hn, hle⟩
      exact ⟨hdigits, hn, hle⟩

/-- The port behind a colon. -/
theorem portText_colon {digits : Bytes} {port : Option Nat} :
    PortText (0x3a :: digits) port ↔ ∃ n, Url.parsePort digits = .ok n ∧ port = some n := by
  constructor
  · rintro (⟨h, -⟩ | ⟨digits', heq, hnum, hle, rfl⟩)
    · cases h
    · cases heq
      exact ⟨_, parsePort_iff.mpr ⟨hnum, rfl, hle⟩, rfl⟩
  · rintro ⟨n, hn, rfl⟩
    obtain ⟨hnum, rfl, hle⟩ := parsePort_iff.mp hn
    exact .inr ⟨digits, rfl, hnum, hle, rfl⟩

/-- The bytes of a port behind its colon. -/
theorem digit_nameByte {b : UInt8} (h : isAsciiDigit b = true) : IsNameByte b :=
  hexdigit_nameByte b (by simp [isAsciiHexdigit, h])

/-! ## The authority -/

/-- A host as `parse_authority` takes it: `parse` refuses the empty one afterwards. -/
def HostText (host : Bytes) : Prop := RegName host ∨ ∃ inner, host = 0x5b :: (inner ++ [0x5d]) ∧ IpLiteral inner

theorem isHost_iff {host : Bytes} : IsHost host ↔ HostText host ∧ host ≠ [] := by
  constructor
  · rintro (⟨hne, h⟩ | ⟨inner, rfl, h⟩)
    · exact ⟨.inl h, hne⟩
    · exact ⟨.inr ⟨inner, rfl, h⟩, List.cons_ne_nil _ _⟩
  · rintro ⟨h | h, hne⟩
    · exact .inl ⟨hne, h⟩
    · exact .inr h

theorem HostText.bytes {host : Bytes} (h : HostText host) : ∀ b ∈ host, Url.isHostByte b = true := by
  rcases h with h | ⟨inner, rfl, h⟩
  · exact fun b hb => isHostByte_iff.mpr (.inl (h.bytes b hb))
  · refine List.forall_mem_cons.mpr ⟨by decide, fun b hb => ?_⟩
    rcases List.mem_append.mp hb with hb | hb
    · rcases h.bytes b hb with hb | hb
      · exact isHostByte_iff.mpr (.inl hb)
      · exact isHostByte_iff.mpr (.inr (.inr (.inr hb)))
    · rw [List.mem_singleton.mp hb]
      decide

theorem PortText.bytes {text : Bytes} {port : Option Nat} (h : PortText text port) : ∀ b ∈ text, Url.isHostByte b = true := by
  rcases h with ⟨rfl, -⟩ | ⟨digits, rfl, hnum, -⟩
  · nofun
  · exact List.forall_mem_cons.mpr ⟨by decide, fun b hb => isHostByte_iff.mpr (.inl (digit_nameByte (hnum.2 b hb)))⟩

/-- An authority is made of host bytes only. -/
theorem authority_bytes {host text : Bytes} {port : Option Nat} (hh : HostText host) (hp : PortText text port) :
    ∀ b ∈ host ++ text, Url.isHostByte b = true := by
  intro b hb
  rcases List.mem_append.mp hb with hb | hb
  · exact hh.bytes b hb
  · exact hp.bytes b hb

theorem no_at {authority : Bytes} (h : ∀ b ∈ authority, Url.isHostByte b = true) :
    authority.findIdx? (· == 0x40) = none := by
  rw [List.findIdx?_eq_none_iff]
  intro b hb
  rw [beq_eq_false_iff_ne]
  rintro rfl
  exact absurd (h _ hb) (by decide)

/-- The authority of a literal in brackets. -/
theorem parseAuthority_literal {inner after : Bytes} (hat : (0x5b :: (inner ++ 0x5d :: after)).findIdx? (· == 0x40) = none)
    (hinner : ∀ b ∈ inner, (b == 0x5d) = false) :
    Url.parseAuthority (0x5b :: (inner ++ 0x5d :: after)) = (Url.validateIpLiteral inner >>= fun _ =>
      match after with
      | [] => .ok (0x5b :: (inner ++ [0x5d]), none)
      | b :: rest =>
        if b = 0x3a then Url.parsePort rest >>= fun n => .ok (0x5b :: (inner ++ [0x5d]), some n)
        else .error (.invalidByte (inner.length + 2))) := by
  have hno : ∀ b ∈ 0x5b :: inner, (b == 0x5d) = false := List.forall_mem_cons.mpr ⟨by decide, hinner⟩
  have hfind : (0x5b :: inner ++ 0x5d :: after).findIdx? (· == 0x5d) = some (0x5b :: inner).length :=
    Split.findIdx?_cons_append hno (by rfl)
  have hhost : (0x5b :: inner ++ 0x5d :: after).take ((0x5b :: inner).length + 1) = 0x5b :: (inner ++ [0x5d]) := by
    rw [List.take_length_add_append]
    rfl
  have hafter : (0x5b :: inner ++ 0x5d :: after).drop ((0x5b :: inner).length + 1) = after := by
    rw [List.drop_length_add_append]
    rfl
  rw [← List.cons_append] at hat ⊢
  unfold Url.parseAuthority
  rw [if_neg (by simp), hat]
  dsimp only
  rw [if_pos (by rfl), hfind]
  dsimp only
  rw [hhost, hafter, List.take_left, List.drop_succ_cons, List.drop_zero]
  cases Url.validateIpLiteral inner with
  | error e => rfl
  | ok u =>
      cases after with
      | nil => rfl
      | cons b rest =>
          show (if b = 0x3a then _ else _) = if b = 0x3a then _ else _
          by_cases hb : b = 0x3a
          · rw [if_pos hb, if_pos hb]
            rfl
          · rw [if_neg hb, if_neg hb]
            rfl

/-- The authority of a name. -/
theorem parseAuthority_name {authority : Bytes} (hne : authority ≠ [])
    (hat : authority.findIdx? (· == 0x40) = none) (hhead : authority.head? ≠ some 0x5b) :
    Url.parseAuthority authority =
      match Url.rposition (· == 0x3a) authority with
      | some colonPos => Url.validateRegName (authority.take colonPos) >>= fun _ =>
          Url.parsePort (authority.drop (colonPos + 1)) >>= fun n => .ok (authority.take colonPos, some n)
      | none => Url.validateRegName authority >>= fun _ => .ok (authority, none) := by
  unfold Url.parseAuthority
  rw [if_neg (by rwa [List.isEmpty_iff]), hat]
  dsimp only
  rw [if_neg hhead]
  cases Url.rposition (· == 0x3a) authority with
  | none => rfl
  | some colonPos => rfl

/-- The last colon of an authority. -/
theorem rposition_append_cons {host digits : Bytes} (h : ∀ b ∈ digits, (b == 0x3a) = false) :
    Url.rposition (· == 0x3a) (host ++ 0x3a :: digits) = some host.length := by
  unfold Url.rposition
  rw [Split.reverse_findIdx?_append_cons h (by rfl), Option.map_some, List.length_append, List.length_cons]
  congr 1
  omega

theorem exists_of_rposition {w : Bytes} {n : Nat} (h : Url.rposition (· == 0x3a) w = some n) :
    ∃ host digits, w = host ++ 0x3a :: digits ∧ host.length = n := by
  obtain ⟨i, hi, rfl⟩ := Option.map_eq_some_iff.mp h
  obtain ⟨front, x, back, rfl, rfl, hx, -⟩ := Split.exists_of_reverse_findIdx? hi
  obtain rfl : x = 0x3a := by simpa using hx
  refine ⟨front, back, rfl, ?_⟩
  rw [List.length_append, List.length_cons]
  omega

theorem rposition_none {w : Bytes} (h : ∀ b ∈ w, (b == 0x3a) = false) : Url.rposition (· == 0x3a) w = none := by
  unfold Url.rposition
  rw [List.findIdx?_eq_none_iff.mpr fun b hb => h b (List.mem_reverse.mp hb)]
  rfl

theorem parseAuthority_literal_iff {inner after host : Bytes} {port : Option Nat}
    (hat : (0x5b :: (inner ++ 0x5d :: after)).findIdx? (· == 0x40) = none) (hinner : ∀ b ∈ inner, (b == 0x5d) = false) :
    Url.parseAuthority (0x5b :: (inner ++ 0x5d :: after)) = .ok (host, port) ↔
      IpLiteral inner ∧ host = 0x5b :: (inner ++ [0x5d]) ∧ PortText after port := by
  rw [parseAuthority_literal hat hinner, ← ipLiteral_iff]
  cases Url.validateIpLiteral inner with
  | error e => exact ⟨nofun, nofun⟩
  | ok u =>
      cases after with
      | nil =>
          constructor
          · intro h
            cases h
            exact ⟨rfl, rfl, .inl ⟨rfl, rfl⟩⟩
          · rintro ⟨-, rfl, ⟨-, rfl⟩ | ⟨digits, heq, -⟩⟩
            · rfl
            · cases heq
      | cons c digits =>
          show (if c = 0x3a then _ else _) = _ ↔ _
          by_cases hc : c = 0x3a
          · rw [if_pos hc, hc, portText_colon]
            cases Url.parsePort digits with
            | error e => exact ⟨nofun, fun h => absurd h.2.2 (by simp)⟩
            | ok n =>
                constructor
                · intro h
                  cases h
                  exact ⟨rfl, rfl, n, rfl, rfl⟩
                · rintro ⟨-, rfl, m, hm, rfl⟩
                  cases hm
                  rfl
          · rw [if_neg hc]
            refine ⟨nofun, ?_⟩
            rintro ⟨-, -, ⟨heq, -⟩ | ⟨digits', heq, -⟩⟩
            · cases heq
            · exact absurd (List.cons.inj heq).1 hc

theorem parseAuthority_name_iff {authority host : Bytes} {port : Option Nat} (hne : authority ≠ [])
    (hat : authority.findIdx? (· == 0x40) = none) (hhead : authority.head? ≠ some 0x5b) :
    Url.parseAuthority authority = .ok (host, port) ↔
      RegName host ∧ ∃ text, authority = host ++ text ∧ PortText text port := by
  rw [parseAuthority_name hne hat hhead]
  have hcolon : ∀ b : UInt8, IsNameByte b → (b == 0x3a) = false := by
    intro b hb
    rw [beq_eq_false_iff_ne]
    exact nameByte_ne hb (not_nameByte (by decide))
  constructor
  · intro h
    cases hr : Url.rposition (· == 0x3a) authority with
    | none =>
        rw [hr] at h
        dsimp only at h
        cases hv : Url.validateRegName authority with
        | error e =>
            rw [hv] at h
            cases h
        | ok u =>
            rw [hv] at h
            cases h
            exact ⟨regName_iff.mp hv, [], by simp, .inl ⟨rfl, rfl⟩⟩
    | some n =>
        -- the port is behind the last colon
        obtain ⟨name, digits, rfl, rfl⟩ := exists_of_rposition hr
        have hdrop : (name ++ 0x3a :: digits).drop (name.length + 1) = digits := by
          rw [List.drop_length_add_append]
          rfl
        rw [hr] at h
        dsimp only at h
        rw [List.take_left, hdrop] at h
        cases hv : Url.validateRegName name with
        | error e =>
            rw [hv] at h
            cases h
        | ok u =>
            rw [hv] at h
            cases hp : Url.parsePort digits with
            | error e =>
                rw [hp] at h
                cases h
            | ok n =>
                rw [hp] at h
                cases h
                exact ⟨regName_iff.mp hv, 0x3a :: digits, rfl, portText_colon.mpr ⟨n, hp, rfl⟩⟩
  · rintro ⟨hname, text, rfl, ⟨rfl, rfl⟩ | ⟨digits, rfl, hnum, hle, rfl⟩⟩
    · rw [List.append_nil, rposition_none fun b hb => hcolon b (hname.bytes b hb)]
      dsimp only
      rw [regName_iff.mpr hname]
      rfl
    · have hdrop : (host ++ 0x3a :: digits).drop (host.length + 1) = digits := by
        rw [List.drop_length_add_append]
        rfl
      rw [rposition_append_cons fun b hb => hcolon b (digit_nameByte (hnum.2 b hb))]
      dsimp only
      rw [List.take_left, hdrop, regName_iff.mpr hname, parsePort_iff.mpr ⟨hnum, rfl, hle⟩]
      rfl

/-- **`parse_authority`** takes a host and a port apart. -/
theorem parseAuthority_iff {authority host : Bytes} {port : Option Nat} :
    Url.parseAuthority authority = .ok (host, port) ↔
      HostText host ∧ ∃ text, authority = host ++ text ∧ PortText text port := by
  constructor
  · intro h
    by_cases hne : authority = []
    · subst hne
      cases h
      exact ⟨.inl .nil, [], rfl, .inl ⟨rfl, rfl⟩⟩
    cases hat : authority.findIdx? (· == 0x40) with
    | some n =>
        unfold Url.parseAuthority at h
        rw [if_neg (by rwa [List.isEmpty_iff]), hat] at h
        cases h
    | none =>
        by_cases hhead : authority.head? = some 0x5b
        · obtain ⟨rest, rfl⟩ := List.head?_eq_some_iff.mp hhead
          cases hf : (0x5b :: rest).findIdx? (· == 0x5d) with
          | none =>
              unfold Url.parseAuthority at h
              rw [if_neg (by simp), hat] at h
              dsimp only at h
              rw [if_pos hhead, hf] at h
              cases h
          | some n =>
              -- a literal ends at its first closing bracket
              obtain ⟨front, x, after, heq, -, hx, hno⟩ := Split.exists_of_findIdx? hf
              obtain rfl : x = 0x5d := by simpa using hx
              cases front with
              | nil => cases heq
              | cons b inner =>
                  rw [List.cons_append] at heq
                  obtain ⟨rfl, rfl⟩ := List.cons.inj heq
                  obtain ⟨hl, rfl, hp⟩ :=
                    (parseAuthority_literal_iff hat fun b hb => hno b (List.mem_cons_of_mem _ hb)).mp h
                  exact ⟨.inr ⟨inner, rfl, hl⟩, after, by simp, hp⟩
        · obtain ⟨hname, htext⟩ := (parseAuthority_name_iff hne hat hhead).mp h
          exact ⟨.inl hname, htext⟩
  · rintro ⟨hhost, text, rfl, hp⟩
    -- neither part holds an `@`
    have hat := no_at (authority_bytes hhost hp)
    rcases hhost with hname | ⟨inner, rfl, hl⟩
    · by_cases hne : host ++ text = []
      · obtain ⟨rfl, rfl⟩ := List.append_eq_nil_iff.mp hne
        rcases hp with ⟨-, rfl⟩ | ⟨digits, heq, -⟩
        · rfl
        · cases heq
      · refine (parseAuthority_name_iff hne hat ?_).mpr ⟨hname, text, rfl, hp⟩
        intro hhead
        cases host with
        | nil =>
            rcases hp with ⟨rfl, -⟩ | ⟨digits, rfl, -⟩
            · cases hhead
            · cases hhead
        | cons b host =>
            cases hhead
            exact nameByte_ne (hname.bytes _ List.mem_cons_self) (not_nameByte (by decide)) rfl
    · have hbracket : ∀ b ∈ inner, (b == 0x5d) = false := by
        intro b hb
        rw [beq_eq_false_iff_ne]
        rcases hl.bytes b hb with hb | rfl
        · exact nameByte_ne hb (not_nameByte (by decide))
        · decide
      rw [List.cons_append, List.append_assoc, List.singleton_append] at hat ⊢
      exact (parseAuthority_literal_iff hat hbracket).mpr ⟨hl, rfl, hp⟩

/-! ## The scheme -/

/-- Folding a byte to a lower-case letter is writing it in lower case. -/
theorem fold_eq_iff {b c : UInt8} (hc : isAsciiLowercase c = true) : b ||| 0x20 = c ↔ Bytes.lowerByte b = c := by
  rcases Bytes.fold_byte b with ⟨-, hl⟩ | ⟨hfold, hl, hb⟩
  · rw [hl]
  · rw [hl]
    constructor
    · rintro rfl
      rw [hfold] at hc
      cases hc
    · rintro rfl
      rw [hb] at hc
      cases hc

theorem fold_iff {w letters : Bytes} (h : ∀ c ∈ letters, isAsciiLowercase c = true) :
    w.map (· ||| 0x20) = letters ↔ lower w = letters := by
  induction w generalizing letters with
  | nil => exact Iff.rfl
  | cons b w ih =>
      cases letters with
      | nil => exact ⟨nofun, nofun⟩
      | cons c letters =>
          obtain ⟨hc, hletters⟩ := List.forall_mem_cons.mp h
          show _ :: _ = _ ↔ Bytes.lowerByte b :: lower w = _
          rw [List.cons.injEq, List.cons.injEq, fold_eq_iff hc, ih hletters]

theorem tryFrom_iff {w : Bytes} {scheme : Scheme} : Scheme.tryFrom w = .ok scheme ↔ lower w = scheme.asBytes := by
  unfold Scheme.tryFrom
  dsimp only
  by_cases hhttp : w.map (· ||| 0x20) = ascii "http"
  · rw [if_pos hhttp, (fold_iff (by decide +kernel)).mp hhttp]
    cases scheme with
    | http => exact ⟨fun _ => rfl, fun _ => rfl⟩
    | https => exact ⟨nofun, fun h => absurd h (by decide)⟩
  rw [if_neg hhttp]
  have hhttp' : lower w ≠ ascii "http" := fun h => hhttp ((fold_iff (by decide +kernel)).mpr h)
  by_cases hhttps : w.map (· ||| 0x20) = ascii "https"
  · rw [if_pos hhttps, (fold_iff (by decide +kernel)).mp hhttps]
    cases scheme with
    | http => exact ⟨nofun, fun h => absurd h (by decide)⟩
    | https => exact ⟨fun _ => rfl, fun _ => rfl⟩
  · rw [if_neg hhttps]
    refine ⟨nofun, fun h => ?_⟩
    cases scheme with
    | http => exact absurd h hhttp'
    | https => exact absurd ((fold_iff (by decide +kernel)).mpr h) hhttps

theorem isScheme_iff {w : Bytes} : IsScheme w ↔ ∃ scheme : Scheme, lower w = scheme.asBytes := by
  constructor
  · rintro (h | h)
    · exact ⟨.http, h⟩
    · exact ⟨.https, h⟩
  · rintro ⟨scheme, h⟩
    cases scheme with
    | http => exact .inl h
    | https => exact .inr h

/-- The separator stands right behind the scheme. -/
theorem findWindow_scheme {w : Bytes} (h : IsScheme w) (rest : Bytes) :
    Bytes.findWindow (ascii "://") (w ++ (ascii "://" ++ rest)) = some w.length := by
  have hcolon : ∀ b ∈ w, b ≠ 0x3a := by
    rintro b hb rfl
    have hmem : Bytes.lowerByte 0x3a ∈ lower w := List.mem_map_of_mem hb
    rcases h with h | h
    · rw [h] at hmem
      exact absurd hmem (by decide)
    · rw [h] at hmem
      exact absurd hmem (by decide)
  rw [Bytes.findWindow_iff (by decide)]
  constructor
  · rw [List.drop_left]
    exact List.prefix_append _ _
  · intro q hq hpre
    rw [List.drop_append_of_le_length (Nat.le_of_lt hq), List.drop_eq_getElem_cons hq, List.cons_append,
      show ascii "://" = [0x3a, 0x2f, 0x2f] by decide, List.cons_prefix_cons] at hpre
    exact hcolon _ (List.getElem_mem hq) hpre.1.symm

/-! ## The tail -/

/-- A query with the question mark in front of it. -/
def queryText : Option Bytes → Bytes
  | none => []
  | some query => 0x3f :: query

/-- A fragment with the number sign in front of it. -/
def fragmentText : Option Bytes → Bytes
  | none => []
  | some fragment => 0x23 :: fragment

/-- Cutting at a byte takes apart what the byte holds together. -/
theorem cutAt_spec (c : UInt8) (w : Bytes) :
    ((Url.cutAt (· == c) w).2 = none ∧ (Url.cutAt (· == c) w).1 = w ∨
      ∃ back, (Url.cutAt (· == c) w).2 = some back ∧ w = (Url.cutAt (· == c) w).1 ++ c :: back) ∧
      c ∉ (Url.cutAt (· == c) w).1 := by
  unfold Url.cutAt
  cases hf : w.findIdx? (· == c) with
  | none =>
      refine ⟨.inl ⟨rfl, rfl⟩, fun hmem => ?_⟩
      have hno := List.findIdx?_eq_none_iff.mp hf c hmem
      simp at hno
  | some n =>
      obtain ⟨front, x, back, rfl, rfl, hx, hno⟩ := Split.exists_of_findIdx? hf
      obtain rfl : x = c := by simpa using hx
      have hdrop : (front ++ x :: back).drop (front.length + 1) = back := by
        rw [List.drop_length_add_append]
        rfl
      dsimp only
      rw [List.take_left, hdrop]
      refine ⟨.inr ⟨back, rfl, rfl⟩, fun hmem => ?_⟩
      have hfalse := hno x hmem
      simp at hfalse

/-- What `parse_path_query_fragment` makes of a tail. -/
theorem parseTail_spec {tail path : Bytes} {query fragment : Option Bytes} (htail : IsTail tail)
    (h : Url.parsePathQueryFragment tail = (path, query, fragment)) :
    tail = path ++ (queryText query ++ fragmentText fragment) ∧ (path = [] ∨ path.head? = some 0x2f) ∧
      (∀ b ∈ path, b ≠ 0x3f ∧ b ≠ 0x23) ∧ ∀ q, query = some q → (0x23 : UInt8) ∉ q := by
  unfold Url.parsePathQueryFragment at h
  obtain ⟨hfrag, hno⟩ := cutAt_spec 0x23 tail
  generalize Url.cutAt (· == 0x23) tail = cut at h hfrag hno
  obtain ⟨before, frag⟩ := cut
  obtain ⟨hquery, hno'⟩ := cutAt_spec 0x3f before
  dsimp only at h hfrag hno
  generalize Url.cutAt (· == 0x3f) before = cut at h hquery hno'
  obtain ⟨path', query'⟩ := cut
  dsimp only at h hquery hno'
  cases h
  have hbefore : before = path ++ queryText query := by
    rcases hquery with ⟨rfl, rfl⟩ | ⟨back, rfl, heq⟩
    · exact (List.append_nil _).symm
    · exact heq
  have hall : tail = path ++ (queryText query ++ fragmentText fragment) := by
    rw [← List.append_assoc, ← hbefore]
    rcases hfrag with ⟨rfl, rfl⟩ | ⟨back, rfl, heq⟩
    · exact (List.append_nil _).symm
    · exact heq
  refine ⟨hall, ?_, ?_, ?_⟩
  · cases path with
    | nil => exact .inl rfl
    | cons b path =>
        rw [hall] at htail
        rcases htail b rfl with rfl | rfl | rfl
        · exact .inr rfl
        · exact absurd List.mem_cons_self hno'
        · exact absurd (by rw [hbefore]; simp) hno
  · intro b hb
    constructor
    · rintro rfl
      exact hno' hb
    · rintro rfl
      exact hno (by rw [hbefore]; exact List.mem_append_left _ hb)
  · rintro q rfl hq
    exact hno (by rw [hbefore]; exact List.mem_append_right _ (List.mem_cons_of_mem _ hq))

/-! ## The whole URL -/

/-- The parts of a URL put together are the input. -/
structure Decomposes (input : Bytes) (url : Url) : Prop where
  whole : ∃ scheme port, lower scheme = url.scheme.asBytes ∧ PortText port url.port ∧
    input = scheme ++ (ascii "://" ++ (url.host ++ (port ++
      (url.path ++ (queryText url.query ++ fragmentText url.fragment)))))
  path : url.path = [] ∨ url.path.head? = some 0x2f
  pathBytes : ∀ b ∈ url.path, b ≠ 0x3f ∧ b ≠ 0x23
  queryBytes : ∀ q, url.query = some q → (0x23 : UInt8) ∉ q
  connectionHost : RegName url.host ∧ url.connectionHost = url.host ∨
    ∃ inner, IpLiteral inner ∧ url.host = 0x5b :: (inner ++ [0x5d]) ∧ url.connectionHost = inner

/-- The host to connect to. -/
theorem connectionHost_spec {url : Url} (h : IsHost url.host) : RegName url.host ∧ url.connectionHost = url.host ∨
    ∃ inner, IpLiteral inner ∧ url.host = 0x5b :: (inner ++ [0x5d]) ∧ url.connectionHost = inner := by
  unfold Url.connectionHost
  rcases h with ⟨hne, hname⟩ | ⟨inner, hhost, hl⟩
  · refine .inl ⟨hname, ?_⟩
    split
    next hhead _ =>
      have hmem : (0x5b : UInt8) ∈ url.host := List.mem_of_mem_head? hhead
      exact absurd rfl (nameByte_ne (hname.bytes _ hmem) (not_nameByte (by decide)))
    · rfl
  · refine .inr ⟨inner, hl, hhost, ?_⟩
    have hlast : (0x5b :: (inner ++ [0x5d])).getLast? = some (0x5d : UInt8) := by
      rw [← List.cons_append, List.getLast?_concat]
    rw [hhost, List.head?_cons, hlast]
    simp

/-- The bytes that end an authority. -/
def isDelimiter (b : UInt8) : Bool := b == 0x2f || b == 0x3f || b == 0x23

theorem isTail_iff {tail : Bytes} : IsTail tail ↔ ∀ b ∈ tail.head?, isDelimiter b = true := by
  unfold IsTail isDelimiter
  simp [or_assoc]

/-- `parse` on an input whose separator and authority have been found. -/
theorem parse_parts {scheme authority tail : Bytes}
    (hsep : Bytes.findWindow (ascii "://") (scheme ++ (ascii "://" ++ (authority ++ tail))) = some scheme.length)
    (hauth : ∀ b ∈ authority, isDelimiter b = false) (htail : ∀ b ∈ tail.head?, isDelimiter b = true) :
    Url.parse (scheme ++ (ascii "://" ++ (authority ++ tail))) =
      (Scheme.tryFrom scheme >>= fun s => Url.parseAuthority authority >>= fun a =>
        if a.1.isEmpty then .error .missingHost
        else match a.1.findIdx? (!Url.isHostByte ·) with
          | some bad => .error (.invalidByte bad)
          | none => .ok ⟨s, a.1, a.2, (Url.parsePathQueryFragment tail).1, (Url.parsePathQueryFragment tail).2.1,
              (Url.parsePathQueryFragment tail).2.2⟩) := by
  have hrest : (scheme ++ (ascii "://" ++ (authority ++ tail))).drop (scheme.length + 3) = authority ++ tail := by
    rw [List.drop_length_add_append]
    rfl
  have hend : ((authority ++ tail).findIdx? fun b => b == 0x2f || b == 0x3f || b == 0x23).getD (authority ++ tail).length =
      authority.length := Split.findIdx?_getD hauth htail
  unfold Url.parse
  rw [if_neg (by simp [show ascii "://" = [0x3a, 0x2f, 0x2f] by decide])]
  have hfind : Bytes.findSubsequence (scheme ++ (ascii "://" ++ (authority ++ tail))) (ascii "://") = some scheme.length := hsep
  dsimp only [bind, Except.bind, pure, Except.pure]
  rw [hfind]
  dsimp only
  rw [List.take_left, hrest]
  cases Scheme.tryFrom scheme with
  | error e => rfl
  | ok s =>
      rw [hend, List.take_left, List.drop_left]
      cases Url.parseAuthority authority with
      | error e => rfl
      | ok a =>
          show (if a.1.isEmpty = true then _ else _) = if a.1.isEmpty = true then _ else _
          by_cases hempty : a.1.isEmpty = true
          · rw [if_pos hempty, if_pos hempty]
            rfl
          · rw [if_neg hempty, if_neg hempty]
            show (match a.1.findIdx? (!Url.isHostByte ·) with | some bad => _ | none => _) = _
            cases a.1.findIdx? (!Url.isHostByte ·) with
            | some bad => rfl
            | none => rfl

/-- What `parse` takes apart decomposes its input, and the input is a URL. -/
theorem parse_sound {input : Bytes} {url : Url} (h : Url.parse input = .ok url) :
    Decomposes input url ∧ IsHost url.host ∧ IsUrl input := by
  cases hsep : Bytes.findWindow (ascii "://") input with
  | none =>
      unfold Url.parse at h
      by_cases hempty : input.isEmpty = true
      · rw [if_pos hempty] at h
        cases h
      · rw [if_neg hempty, show Bytes.findSubsequence input (ascii "://") = none from hsep] at h
        cases h
  | some pos =>
      obtain ⟨rest, hrest⟩ := Bytes.findWindow_eq_some hsep
      -- cut at `://`, and the rest where the authority ends
      have hsplit : input = input.take pos ++ (ascii "://" ++ rest) := by rw [hrest, List.take_append_drop]
      have hlen : (input.take pos).length = pos := by
        have hle := Bytes.length_of_prefix_drop (by decide) (Bytes.findWindow_eq_some hsep)
        rw [List.length_take]
        omega
      generalize input.take pos = scheme at hsplit hlen
      subst hlen
      obtain ⟨hauth, htail⟩ := Split.findIdx?_getD_spec isDelimiter rest
      have hparts := (List.take_append_drop ((rest.findIdx? isDelimiter).getD rest.length) rest).symm
      generalize rest.take ((rest.findIdx? isDelimiter).getD rest.length) = authority at hauth hparts
      generalize rest.drop ((rest.findIdx? isDelimiter).getD rest.length) = tail at htail hparts
      subst hparts hsplit
      rcases hcut : Url.parsePathQueryFragment tail with ⟨path, query, fragment⟩
      rw [parse_parts hsep hauth htail, hcut] at h
      cases hs : Scheme.tryFrom scheme with
      | error e =>
          rw [hs] at h
          cases h
      | ok s =>
          cases ha : Url.parseAuthority authority with
          | error e =>
              rw [hs, ha] at h
              cases h
          | ok a =>
              rw [hs, ha] at h
              replace h : (if a.1.isEmpty = true then _ else _) = Except.ok url := h
              split at h
              · cases h
              next hempty =>
                split at h
                · cases h
                · cases h
                  obtain ⟨host, port⟩ := a
                  obtain ⟨hhost, text, rfl, hp⟩ := parseAuthority_iff.mp ha
                  have hhost : IsHost host := isHost_iff.mpr ⟨hhost, by rwa [List.isEmpty_iff] at hempty⟩
                  have htail := isTail_iff.mpr htail
                  obtain ⟨hall, hpath, hbytes, hquery⟩ := parseTail_spec htail hcut
                  refine ⟨⟨⟨scheme, text, tryFrom_iff.mp hs, hp, ?_⟩, hpath, hbytes, hquery, connectionHost_spec hhost⟩, hhost, ?_⟩
                  · rw [hall, List.append_assoc]
                  · refine ⟨scheme, host, text, tail, by rw [List.append_assoc], ?_, hhost, isPort_iff.mpr ⟨_, hp⟩, htail⟩
                    exact isScheme_iff.mpr ⟨s, tryFrom_iff.mp hs⟩

end UrlGrammar

open UrlGrammar in
/-- **`Url::parse` accepts its grammar** and nothing else, and the parts it returns are those of the input. -/
theorem Url.parse_grammar (input : Bytes) :
    ((∃ url, Url.parse input = .ok url) ↔ IsUrl input) ∧ ∀ url, Url.parse input = .ok url → Decomposes input url := by
  refine ⟨⟨fun ⟨url, h⟩ => (parse_sound h).2.2, ?_⟩, fun url h => (parse_sound h).1⟩
  rintro ⟨scheme, host, text, tail, rfl, hscheme, hhost, hport, htail⟩
  obtain ⟨s, hs⟩ := isScheme_iff.mp hscheme
  obtain ⟨port, hp⟩ := isPort_iff.mp hport
  obtain ⟨hhost, hne⟩ := isHost_iff.mp hhost
  have hauth : ∀ b ∈ host ++ text, isDelimiter b = false := by
    intro b hb
    have hclass : ∀ b : UInt8, Url.isHostByte b = true → isDelimiter b = false := forall_byte (by decide +kernel)
    exact hclass b (authority_bytes hhost hp b hb)
  have hgood : host.findIdx? (!Url.isHostByte ·) = none := by
    rw [List.findIdx?_eq_none_iff]
    intro b hb
    rw [hhost.bytes b hb]
    rfl
  rw [← List.append_assoc host, parse_parts (findWindow_scheme hscheme _) hauth (isTail_iff.mp htail), tryFrom_iff.mpr hs,
    parseAuthority_iff.mpr ⟨hhost, text, rfl, hp⟩]
  rcases Url.parsePathQueryFragment tail with ⟨path, query, fragment⟩
  refine ⟨⟨s, host, port, path, query, fragment⟩, ?_⟩
  show (if host.isEmpty = true then _ else match host.findIdx? (!Url.isHostByte ·) with | some bad => _ | none => _) = _
  rw [if_neg (by rwa [List.isEmpty_iff]), hgood]

end Xibalba
