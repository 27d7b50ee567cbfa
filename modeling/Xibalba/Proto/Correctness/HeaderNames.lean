import Xibalba.Proto.Header
import Xibalba.Proto.Correctness.Text

/-!
# `Proto.Correctness.HeaderNames` — header names and their two representations

A name is an entry of the table of well-known headers or the bytes as written. Comparing and hashing tell neither the
representation nor the letter case: both go by the bytes of the name in lower case.
-/

namespace Xibalba

open Bytes (lower lowerByte)

theorem toAsciiLowercase_eq (b : UInt8) : toAsciiLowercase b = lowerByte b := by
  revert b
  exact forall_byte (by decide +kernel)

/-! ## The two tables -/

namespace KnownHeader

/-- No two well-known headers have the same name. -/
theorem lower_canonical_inj {a b : KnownHeader} (h : lower a.canonical = lower b.canonical) : a = b := by
  revert h
  cases a <;> cases b <;> decide

/-- What `from_bytes` searches for is what `as_bytes` shows, in lower case. -/
theorem lower_table : ∀ p ∈ table, lower p.2 = lower p.1.canonical := by decide

end KnownHeader

namespace HeaderName

/-- The bytes of a name survive the search for a well-known header, up to case. -/
theorem lower_fromBytes (bytes : Bytes) : lower (fromBytes bytes).asBytes = lower bytes := by
  unfold fromBytes
  cases hfind : KnownHeader.table.find? fun p => Bytes.asciiEqIgnoreCase bytes p.2 with
  | none => rfl
  | some p =>
      have hname : Bytes.asciiEqIgnoreCase bytes p.2 = true := by simpa using List.find?_some hfind
      have htable := KnownHeader.lower_table p (List.mem_of_find?_eq_some hfind)
      exact ((Bytes.asciiEqIgnoreCase_iff.mp hname).trans htable).symm

/-- Both ways to make a name of bytes keep them up to case. -/
theorem lower_built {make : Bytes → HeaderName} (h : make ∈ [fromBytes, raw]) (bytes : Bytes) :
    lower (make bytes).asBytes = lower bytes := by
  rcases List.mem_pair.mp h with rfl | rfl
  · exact lower_fromBytes bytes
  · rfl

/-! ## Comparing and hashing -/

/-- All paths of the comparison compare the bytes in lower case. -/
theorem eq_iff {x y : HeaderName} : x.eq y = true ↔ lower x.asBytes = lower y.asBytes := by
  cases x with
  | known a =>
      cases y with
      | known b =>
          -- by the constructor, which the canonical names determine
          show (a == b) = true ↔ lower a.canonical = lower b.canonical
          constructor
          · intro h
            rw [eq_of_beq h]
          · intro h
            rw [KnownHeader.lower_canonical_inj h]
            exact beq_self_eq_true b
      | other b => exact Bytes.asciiEqIgnoreCase_iff.trans eq_comm
  | other a =>
      cases y with
      | known b => exact Bytes.asciiEqIgnoreCase_iff
      | other b => exact Bytes.asciiEqIgnoreCase_iff

theorem eq_equivalence : Equivalence fun x y : HeaderName => x.eq y = true where
  refl _ := eq_iff.mpr rfl
  symm h := eq_iff.mpr (eq_iff.mp h).symm
  trans h h' := eq_iff.mpr ((eq_iff.mp h).trans (eq_iff.mp h'))

/-- What a hasher is given of a name. -/
theorem hash_eq {H : Type} (name : HeaderName) (writeU8 : H → UInt8 → H) (state : H) :
    name.hash writeU8 state = (lower name.asBytes).foldl writeU8 state := by
  have hbytes : name.hash writeU8 state =
      name.asBytes.foldl (fun state byte => writeU8 state (toAsciiLowercase byte)) state := by
    cases name with
    | known k => rfl
    | other b => rfl
  rw [hbytes, lower, List.foldl_map]
  simp only [toAsciiLowercase_eq]

/-- A hasher that keeps the bytes it is given, latest first. -/
theorem hash_recorded (name : HeaderName) :
    name.hash (fun (bytes : Bytes) byte => byte :: bytes) [] = (lower name.asBytes).reverse := by
  rw [hash_eq, List.foldl_flip_cons_eq_append', List.append_nil]

/-- **Names compare by their folded bytes**, in whichever way they were made; so do the bytes that a hasher is given, and
    the bytes that are shown. -/
theorem eq_folded :
    (∀ make ∈ [fromBytes, raw], ∀ make' ∈ [fromBytes, raw], ∀ a b,
      (make a).eq (make' b) = true ↔ lower a = lower b) ∧
    (Equivalence fun x y : HeaderName => x.eq y = true) ∧
    (∀ x y : HeaderName, x.eq y = true ↔
      ∀ (H : Type) (writeU8 : H → UInt8 → H) (state : H), x.hash writeU8 state = y.hash writeU8 state) ∧
    ∀ a, lower (fromBytes a).asBytes = lower a := by
  refine ⟨fun make hmake make' hmake' a b => ?_, eq_equivalence, fun x y => ⟨fun h H writeU8 state => ?_, fun h => ?_⟩,
    lower_fromBytes⟩
  · rw [eq_iff, lower_built hmake, lower_built hmake']
  · rw [hash_eq, hash_eq, eq_iff.mp h]
  · have hbytes := h _ (fun (bytes : Bytes) byte => byte :: bytes) []
    rw [hash_recorded, hash_recorded] at hbytes
    exact eq_iff.mpr (List.reverse_inj.mp hbytes)

end HeaderName

end Xibalba
