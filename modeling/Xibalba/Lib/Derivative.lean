import Mathlib.Computability.Language

/-!
# `Lib.Derivative` — reading a language one symbol at a time

A recogniser that consumes a word from the left is compared with a language by asking, for each of its
states, what the language of the words it still accepts does with one symbol. The lemmas here answer that
for the languages built from symbol classes, products and stars: each turns `a :: x ∈ l` into a condition
on `a` and memberships of `x`, so that a simp call computes the derivative.

Products are kept in the form `l₁ * (l₂ * (l₃ * m))`; `mem_mul_assoc` brings a word problem there.
-/

namespace Derivative

open Computability

variable {α : Type*} {p : α → Prop} {l m : Language α} {a : α} {x : List α}

/-- The one-symbol words whose symbol satisfies `p`. -/
def sym (p : α → Prop) : Language α := {x | ∃ a, p a ∧ x = [a]}

/-- The derivative of a symbol and what follows it. -/
theorem cons_mem_sym_mul : a :: x ∈ sym p * m ↔ p a ∧ x ∈ m := by
  rw [Language.mem_mul]
  constructor
  · rintro ⟨u, ⟨b, hb, rfl⟩, v, hv, huv⟩
    obtain ⟨rfl, rfl⟩ : b = a ∧ v = x := by simpa using huv
    exact ⟨hb, hv⟩
  · rintro ⟨hp, hx⟩
    exact ⟨[a], ⟨a, hp, rfl⟩, x, hx, rfl⟩

theorem nil_notMem_sym_mul : ([] : List α) ∉ sym p * m := by
  rw [Language.mem_mul]
  rintro ⟨u, ⟨b, _, rfl⟩, v, _, huv⟩
  simp at huv

/-- **Unrolling a star in front of a language.** -/
theorem mem_star_mul : x ∈ l∗ * m ↔ x ∈ m ∨ x ∈ l * (l∗ * m) := by
  have h : l∗ * m = m + l * (l∗ * m) := by
    conv_lhs => rw [← Language.one_add_self_mul_kstar_eq_kstar l, add_mul, one_mul, mul_assoc]
  rw [← Language.mem_add, ← h]

/-- The derivative of a repetition: it ends, or goes on with a symbol. -/
theorem cons_mem_syms_mul : a :: x ∈ (sym p)∗ * m ↔ a :: x ∈ m ∨ p a ∧ x ∈ (sym p)∗ * m := by
  rw [mem_star_mul, cons_mem_sym_mul]

theorem nil_mem_syms_mul : [] ∈ (sym p)∗ * m ↔ [] ∈ m := by
  rw [mem_star_mul, or_iff_left nil_notMem_sym_mul]

/-- The derivative of a choice. -/
theorem mem_add_mul {l₁ l₂ : Language α} : x ∈ (l₁ + l₂) * m ↔ x ∈ l₁ * m ∨ x ∈ l₂ * m := by
  rw [add_mul, Language.mem_add]

theorem mem_one_mul : x ∈ (1 : Language α) * m ↔ x ∈ m := by
  rw [one_mul]

theorem mem_mul_assoc {k : Language α} : x ∈ l * m * k ↔ x ∈ l * (m * k) := by
  rw [mul_assoc]

/-- A word of a class star holds only symbols of the class. -/
theorem mem_syms : x ∈ (sym p)∗ ↔ ∀ a ∈ x, p a := by
  induction x with
  | nil => simp [Language.nil_mem_kstar]
  | cons a x ih =>
      have hcons := @cons_mem_syms_mul α p 1 a x
      rw [mul_one] at hcons
      rw [hcons, ih]
      simp

end Derivative
