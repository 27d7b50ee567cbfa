import Mathlib.Data.List.TakeWhile
import Xibalba.Lib.Split
import Xibalba.Proto.Bytes

/-!
# `Proto.Correctness.Text` — letters, digits and lists of tokens

What the helpers of `Proto.Bytes` mean: comparing without case is comparing in lower case, the digit loops compute the
value of a decimal numeral, and the search for a token looks at every element of a comma-separated list.
-/

namespace Xibalba

/-- What holds of the 256 bytes holds of every byte. -/
theorem forall_byte {P : UInt8 → Prop} (h : ∀ n < 256, P (UInt8.ofNat n)) (b : UInt8) : P b := by
  have hb := h b.toNat b.toNat_lt
  rwa [UInt8.ofNat_toNat] at hb

namespace Bytes

/-! ## Letters -/

/-- A letter in lower case, and any other byte as it is. -/
def lowerByte (b : UInt8) : UInt8 := if 0x41 ≤ b ∧ b ≤ 0x5a then b + 0x20 else b

def lower (xs : Bytes) : Bytes := xs.map lowerByte

/-- What setting bit `0x20` does to a byte: it folds letters, and makes a letter of nothing else. -/
theorem fold_byte (b : UInt8) :
    isAsciiLowercase (b ||| 0x20) = true ∧ lowerByte b = b ||| 0x20 ∨
      isAsciiLowercase (b ||| 0x20) = false ∧ lowerByte b = b ∧ isAsciiLowercase b = false := by
  revert b
  exact forall_byte (by decide +kernel)

theorem byteEqIgnoreCase_iff {x y : UInt8} : byteEqIgnoreCase x y = true ↔ lowerByte x = lowerByte y := by
  simp only [byteEqIgnoreCase, Bool.or_eq_true, Bool.and_eq_true, beq_iff_eq]
  rcases fold_byte x with ⟨hx, hlx⟩ | ⟨hx, hlx, hx'⟩
  · rcases fold_byte y with ⟨hy, hly⟩ | ⟨hy, hly, hy'⟩
    · rw [hlx, hly]
      constructor
      · rintro (rfl | ⟨h, -⟩)
        · rfl
        · exact h
      · intro h
        exact .inr ⟨h, hx⟩
    · -- a letter is not a byte that is none
      rw [hlx, hly]
      constructor
      · rintro (rfl | ⟨h, -⟩)
        · rw [hx] at hy
          cases hy
        · rw [h, hy] at hx
          cases hx
      · intro h
        rw [h, hy'] at hx
        cases hx
  · rcases fold_byte y with ⟨hy, hly⟩ | ⟨hy, hly, hy'⟩
    · rw [hlx, hly]
      constructor
      · rintro (rfl | ⟨-, h⟩)
        · rw [hy] at hx
          cases hx
        · rw [hx] at h
          cases h
      · intro h
        rw [← h, hx'] at hy
        cases hy
    · rw [hlx, hly]
      constructor
      · rintro (h | ⟨-, h⟩)
        · exact h
        · rw [hx] at h
          cases h
      · intro h
        exact .inl h

/-- **Comparing without case** is comparing in lower case. -/
theorem asciiEqIgnoreCase_iff {xs ys : Bytes} : asciiEqIgnoreCase xs ys = true ↔ lower xs = lower ys := by
  induction xs generalizing ys with
  | nil =>
      cases ys with
      | nil => exact ⟨fun _ => rfl, fun _ => rfl⟩
      | cons y ys => exact ⟨nofun, nofun⟩
  | cons x xs ih =>
      cases ys with
      | nil => exact ⟨nofun, nofun⟩
      | cons y ys => simp [lower, byteEqIgnoreCase_iff, ih]

/-! ## Decimal numerals -/

/-- The number a string of decimal digits stands for. -/
def decimal (xs : Bytes) : Nat := xs.foldl (fun n b => n * 10 + (b - 0x30).toNat) 0

/-- `1*DIGIT`. -/
def IsNumeral (xs : Bytes) : Prop := xs ≠ [] ∧ ∀ b ∈ xs, isAsciiDigit b = true

theorem digit_iff (b : UInt8) : isAsciiDigit b = true ↔ (b - 0x30).toNat ≤ 9 := by
  revert b
  exact forall_byte (by decide +kernel)

/-- Digits after a number never make it smaller. -/
theorem le_decimal_foldl (acc : Nat) (xs : Bytes) : acc ≤ xs.foldl (fun n b => n * 10 + (b - 0x30).toNat) acc := by
  induction xs generalizing acc with
  | nil => exact Nat.le_refl _
  | cons b xs ih =>
      have h := ih (acc * 10 + (b - 0x30).toNat)
      show acc ≤ List.foldl _ (acc * 10 + (b - 0x30).toNat) xs
      omega

theorem parseDigits_iff {acc n : Nat} {xs : Bytes} (hacc : acc < 2 ^ 64) : parseDigits acc xs = some n ↔
    (∀ b ∈ xs, isAsciiDigit b = true) ∧ xs.foldl (fun n b => n * 10 + (b - 0x30).toNat) acc = n ∧ n < 2 ^ 64 := by
  induction xs generalizing acc with
  | nil =>
      show some acc = some n ↔ _
      constructor
      · intro h
        cases h
        exact ⟨nofun, rfl, hacc⟩
      · rintro ⟨-, h, -⟩
        exact congrArg some h
  | cons b xs ih =>
      have hle := le_decimal_foldl (acc * 10 + (b - 0x30).toNat) xs
      unfold parseDigits
      rw [List.forall_mem_cons, digit_iff, List.foldl_cons]
      dsimp only
      by_cases hdigit : (b - 0x30).toNat > 9
      · rw [if_pos hdigit]
        exact ⟨nofun, fun h => absurd h.1.1 (by omega)⟩
      · rw [if_neg hdigit]
        by_cases hfits : acc * 10 + (b - 0x30).toNat < 2 ^ 64
        · rw [if_pos hfits, ih hfits, and_assoc]
          exact ⟨fun h => ⟨by omega, h⟩, fun h => h.2⟩
        · rw [if_neg hfits]
          constructor
          · nofun
          · rintro ⟨-, hn, hlt⟩
            omega

/-- **`parse_u64`** reads a numeral below `2^64`, with white space around it. -/
theorem parseU64_iff {xs : Bytes} {n : Nat} :
    parseU64 xs = some n ↔ IsNumeral (trimOws xs) ∧ decimal (trimOws xs) = n ∧ n < 2 ^ 64 := by
  unfold parseU64 IsNumeral
  dsimp only
  by_cases hempty : (trimOws xs).isEmpty = true
  · rw [if_pos hempty]
    exact ⟨nofun, fun h => absurd (List.isEmpty_iff.mp hempty) h.1.1⟩
  · rw [if_neg hempty, parseDigits_iff (by decide)]
    constructor
    · rintro ⟨hdigits, hn, hlt⟩
      exact ⟨⟨fun h => hempty (List.isEmpty_iff.mpr h), hdigits⟩, hn, hlt⟩
    · rintro ⟨⟨-, hdigits⟩, hn, hlt⟩
      exact ⟨hdigits, hn, hlt⟩

/-! ## Comma-separated lists -/

/-- The comma-separated list `value` has an element that is `token`, in any case and with white space around it. -/
def Lists (token value : Bytes) : Prop :=
  ∃ before pad written pad' after, value = ([0x2c] : Bytes).intercalate (before ++ (pad ++ written ++ pad') :: after) ∧
    lower written = lower token ∧ ∀ b ∈ pad ++ pad', isOws b = true

/-- Bytes that can be an element of a list. -/
def IsElement (token : Bytes) : Prop := ∀ b ∈ token, isOws b = false ∧ b ≠ 0x2c

instance (token : Bytes) : Decidable (IsElement token) := inferInstanceAs (Decidable (∀ b ∈ token, _))

theorem isOws_lowerByte (b : UInt8) : isOws (lowerByte b) = isOws b ∧ (lowerByte b = 0x2c ↔ b = 0x2c) := by
  revert b
  exact forall_byte (by decide +kernel)

/-- The letter case of an element does not matter. -/
theorem IsElement.of_lower {xs ys : Bytes} (h : IsElement xs) (heq : lower ys = lower xs) : IsElement ys := by
  intro b hb
  have hmem : lowerByte b ∈ lower xs := heq ▸ List.mem_map_of_mem hb
  obtain ⟨a, ha, hab⟩ := List.mem_map.mp hmem
  obtain ⟨hows, hcomma⟩ := h a ha
  constructor
  · rw [← (isOws_lowerByte b).1, ← hab, (isOws_lowerByte a).1, hows]
  · intro hb'
    exact hcomma ((isOws_lowerByte a).2.mp (hab.trans ((isOws_lowerByte b).2.mpr hb')))

/-- Trimming takes white space off both ends. -/
theorem trimOws_spec (xs : Bytes) :
    ∃ pad pad', xs = pad ++ trimOws xs ++ pad' ∧ ∀ b ∈ pad ++ pad', isOws b = true := by
  refine ⟨xs.takeWhile isOws, ((xs.dropWhile isOws).reverse.takeWhile isOws).reverse, ?_, ?_⟩
  · have hback := congrArg List.reverse ((xs.dropWhile isOws).reverse.takeWhile_append_dropWhile (p := isOws))
    rw [List.reverse_append, List.reverse_reverse] at hback
    rw [trimOws, List.append_assoc, hback, List.takeWhile_append_dropWhile]
  · intro b hb
    rcases List.mem_append.mp hb with hb | hb
    · exact List.mem_takeWhile_imp hb
    · exact List.mem_takeWhile_imp (List.mem_reverse.mp hb)

/-- White space around what has none is what trimming takes off. -/
theorem trimOws_pad {pad xs pad' : Bytes} (hpad : ∀ b ∈ pad ++ pad', isOws b = true)
    (hxs : ∀ b ∈ xs, isOws b = false) : trimOws (pad ++ xs ++ pad') = xs := by
  have hfront : ∀ b ∈ pad, isOws b = true := fun b hb => hpad b (List.mem_append_left _ hb)
  have hback : ∀ b ∈ pad'.reverse, isOws b = true := fun b hb => hpad b (List.mem_append_right _ (List.mem_reverse.mp hb))
  have hkeep : ∀ ys : Bytes, (∀ b ∈ ys, isOws b = false) → ys.dropWhile isOws = ys := by
    intro ys hys
    cases ys with
    | nil => rfl
    | cons y ys => rw [List.dropWhile_cons, if_neg (by simp [hys y])]
  unfold trimOws
  rw [List.append_assoc, List.dropWhile_append_of_pos hfront]
  cases xs with
  | nil =>
      rw [List.nil_append, List.dropWhile_eq_nil_iff.mpr fun b hb => hpad b (List.mem_append_right _ hb)]
      rfl
  | cons x xs =>
      rw [List.cons_append, List.dropWhile_cons, if_neg (by simp [hxs x]), ← List.cons_append, List.reverse_append,
        List.dropWhile_append_of_pos hback, hkeep _ fun b hb => hxs b (List.mem_reverse.mp hb), List.reverse_reverse]

/-- **The search for a token** finds it in any case and at any place of the list. -/
theorem containsTokenIgnoreCase_iff {value token : Bytes} (htoken : IsElement token) :
    containsTokenIgnoreCase value token = true ↔ Lists token value := by
  unfold containsTokenIgnoreCase
  rw [List.any_eq_true]
  constructor
  · rintro ⟨part, hpart, heq⟩
    obtain ⟨before, after, hsplit⟩ := List.append_of_mem hpart
    obtain ⟨pad, pad', hpad, hows⟩ := trimOws_spec part
    refine ⟨before, pad, trimOws part, pad', after, ?_, asciiEqIgnoreCase_iff.mp heq, hows⟩
    rw [← hpad, ← hsplit, Split.join_pieces]
  · rintro ⟨before, pad, written, pad', after, rfl, heq, hows⟩
    have hwritten := htoken.of_lower heq
    have hcomma : ∀ b ∈ pad ++ written ++ pad', (b == 0x2c) = false := by
      intro b hb
      refine beq_eq_false_iff_ne.mpr ?_
      rintro rfl
      rw [List.append_assoc, List.mem_append, List.mem_append, or_left_comm, ← List.mem_append] at hb
      rcases hb with hb | hb
      · exact (hwritten _ hb).2 rfl
      · have hows := hows _ hb
        revert hows
        decide
    refine ⟨pad ++ written ++ pad', ?_, asciiEqIgnoreCase_iff.mpr ?_⟩
    · rw [Split.pieces_intercalate (by simp), List.flatMap_append, List.flatMap_cons, List.splitOnP_eq_singleton hcomma]
      simp
    · rw [trimOws_pad hows fun b hb => (hwritten b hb).1, heq]

/-- Two lists with a comma between them are one list. -/
theorem containsTokenIgnoreCase_comma (xs ys token : Bytes) : containsTokenIgnoreCase (xs ++ 0x2c :: ys) token =
    (containsTokenIgnoreCase xs token || containsTokenIgnoreCase ys token) := by
  unfold containsTokenIgnoreCase
  rw [List.splitOnP_append_cons _ _ (by simp), List.any_append]

end Bytes

end Xibalba
