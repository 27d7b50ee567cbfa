import Mathlib.Data.List.Basic
import Mathlib.Tactic.Common

/-!
# `Lib.Split` — pieces between separators

Splitting a list at a separator and joining pieces with it are inverse to one another where the pieces hold no
separator. The lemmas here say what the pieces of a list are, and what two separators in a row do to them.
-/

namespace Split

variable {α : Type*} [BEq α] [LawfulBEq α] {c : α}

/-- Joining the pieces of a list gives the list back. -/
theorem join_pieces (xs : List α) : [c].intercalate (xs.splitOnP (· == c)) = xs := List.intercalate_splitOn c

/-- The pieces of a list joined from parts without a separator are the parts. -/
theorem pieces_join {parts : List (List α)} (hne : parts ≠ []) (h : ∀ part ∈ parts, c ∉ part) :
    ([c].intercalate parts).splitOnP (· == c) = parts :=
  List.splitOn_intercalate c h hne

/-- The pieces of joined parts are the pieces of every part, in order. -/
theorem pieces_intercalate {parts : List (List α)} (hne : parts ≠ []) :
    ([c].intercalate parts).splitOnP (· == c) = parts.flatMap fun part => part.splitOnP (· == c) := by
  induction parts with
  | nil => exact absurd rfl hne
  | cons part parts ih =>
      cases parts with
      | nil => simp
      | cons part' parts =>
          have ih := ih (List.cons_ne_nil _ _)
          rw [List.intercalate_cons_cons, List.append_assoc, List.singleton_append,
            List.splitOnP_append_cons _ _ (by simp), ih]
          simp

/-- No piece holds a separator. -/
theorem not_mem_of_mem_pieces {xs piece : List α} (h : piece ∈ xs.splitOnP (· == c)) : c ∉ piece := by
  induction xs generalizing piece with
  | nil =>
      rw [List.splitOnP_nil, List.mem_singleton] at h
      subst h
      exact List.not_mem_nil
  | cons x xs ih =>
      rw [List.splitOnP_cons_eq_if_modifyHead] at h
      split at h
      · rcases List.mem_cons.mp h with rfl | h
        · exact List.not_mem_nil
        · exact ih h
      next hx =>
        cases hp : xs.splitOnP (· == c) with
        | nil => exact absurd hp (List.splitOnP_ne_nil _ _)
        | cons first pieces =>
            rw [hp] at h ih
            rw [List.modifyHead_cons] at h
            rcases List.mem_cons.mp h with rfl | h
            · intro hmem
              rcases List.mem_cons.mp hmem with rfl | hmem
              · simp at hx
              · exact ih List.mem_cons_self hmem
            · exact ih (List.mem_cons_of_mem _ h)

omit [BEq α] [LawfulBEq α] in
/-- Parts that each end in a separator, and a last one that does not. -/
theorem flatMap_append (parts : List (List α)) (last : List α) :
    (parts.flatMap fun part => part ++ [c]) ++ last = [c].intercalate (parts ++ [last]) := by
  induction parts with
  | nil => simp
  | cons part parts ih =>
      have hne : parts ++ [last] ≠ [] := by simp
      rw [List.flatMap_cons, List.append_assoc, ih, List.cons_append, List.intercalate_cons_of_ne_nil hne]

omit [BEq α] [LawfulBEq α] in
/-- What joined parts are made of. -/
theorem mem_join {parts : List (List α)} {x : α} (h : x ∈ [c].intercalate parts) : x = c ∨ ∃ part ∈ parts, x ∈ part := by
  induction parts with
  | nil => simp at h
  | cons part parts ih =>
      by_cases hne : parts = []
      · subst hne
        rw [List.intercalate_singleton] at h
        exact .inr ⟨part, List.mem_cons_self, h⟩
      · rw [List.intercalate_cons_of_ne_nil hne, List.append_assoc] at h
        rcases List.mem_append.mp h with h | h
        · exact .inr ⟨part, List.mem_cons_self, h⟩
        · rcases List.mem_append.mp h with h | h
          · exact .inl (List.mem_singleton.mp h)
          · obtain hc | ⟨p, hp, hx⟩ := ih h
            · exact .inl hc
            · exact .inr ⟨p, List.mem_cons_of_mem _ hp, hx⟩

/-- A separator at the end of a list, or one right before another, leaves an empty piece. -/
theorem nil_mem_pieces {xs : List α} {q : Nat} {rest : List α} (hq : q < xs.length)
    (h : [c, c] <+: (xs ++ rest).drop q) : [] ∈ xs.splitOnP (· == c) := by
  rw [List.drop_append_of_le_length (Nat.le_of_lt hq)] at h
  have hxs : xs = xs.take q ++ xs.drop q := (List.take_append_drop q xs).symm
  cases htail : xs.drop q with
  | nil =>
      rw [List.drop_eq_nil_iff] at htail
      omega
  | cons x tail =>
      rw [htail, List.cons_append, List.cons_prefix_cons] at h
      obtain ⟨rfl, h⟩ := h
      rw [hxs, htail, List.splitOnP_append_cons _ _ (by simp)]
      apply List.mem_append_right
      cases tail with
      | nil => simp
      | cons y tail =>
          rw [List.cons_append, List.cons_prefix_cons] at h
          obtain ⟨rfl, -⟩ := h
          rw [List.splitOnP_cons_eq_if_modifyHead, if_pos (by simp)]
          exact List.mem_cons_self

/-! ## Cutting at the first or the last element of a kind -/

section

variable {β : Type*} {p : β → Bool} {x : β} {front back xs : List β}

theorem findIdx?_cons_append (hfront : ∀ a ∈ front, p a = false) (hx : p x = true) :
    (front ++ x :: back).findIdx? p = some front.length := by
  rw [List.findIdx?_append, List.findIdx?_eq_none_iff.mpr hfront, List.findIdx?_cons, if_pos hx]
  simp

/-- The first element of a kind, with what is in front of it and behind it. -/
theorem exists_of_findIdx? {n : Nat} (h : xs.findIdx? p = some n) :
    ∃ front x back, xs = front ++ x :: back ∧ front.length = n ∧ p x = true ∧ ∀ a ∈ front, p a = false := by
  obtain ⟨hn, hx, hfirst⟩ := List.findIdx?_eq_some_iff_getElem.mp h
  refine ⟨xs.take n, xs[n], xs.drop (n + 1), ?_, ?_, hx, ?_⟩
  · rw [List.getElem_cons_drop, List.take_append_drop]
  · rw [List.length_take]
    omega
  · intro a ha
    obtain ⟨i, hi, rfl⟩ := List.mem_take_iff_getElem.mp ha
    simpa using hfirst i (by omega)

/-- The last element of a kind, counted from the end. -/
theorem exists_of_reverse_findIdx? {n : Nat} (h : xs.reverse.findIdx? p = some n) :
    ∃ front x back, xs = front ++ x :: back ∧ back.length = n ∧ p x = true ∧ ∀ a ∈ back, p a = false := by
  obtain ⟨front, x, back, hxs, hlen, hx, hno⟩ := exists_of_findIdx? h
  refine ⟨back.reverse, x, front.reverse, ?_, ?_, hx, fun a ha => hno a (List.mem_reverse.mp ha)⟩
  · rw [← List.reverse_reverse xs, hxs, List.reverse_append, List.reverse_cons, List.append_assoc, List.singleton_append]
  · rw [List.length_reverse, hlen]

theorem reverse_findIdx?_append_cons (hback : ∀ a ∈ back, p a = false) (hx : p x = true) :
    (front ++ x :: back).reverse.findIdx? p = some back.length := by
  rw [List.reverse_append, List.reverse_cons, List.append_assoc, List.singleton_append,
    findIdx?_cons_append (fun a ha => hback a (List.mem_reverse.mp ha)) hx, List.length_reverse]

/-- Where the first part of a list ends, when nothing in it is of the kind and something of the kind, or nothing at all,
    follows. -/
theorem findIdx?_getD (hfront : ∀ a ∈ front, p a = false) (hback : ∀ a ∈ back.head?, p a = true) :
    ((front ++ back).findIdx? p).getD (front ++ back).length = front.length := by
  cases back with
  | nil =>
      rw [List.append_nil, List.findIdx?_eq_none_iff.mpr hfront]
      rfl
  | cons x back =>
      rw [findIdx?_cons_append hfront (hback x rfl)]
      rfl

/-- The parts of a list around the first element of a kind. -/
theorem findIdx?_getD_spec (p : β → Bool) (xs : List β) :
    (∀ a ∈ xs.take ((xs.findIdx? p).getD xs.length), p a = false) ∧
      ∀ a ∈ (xs.drop ((xs.findIdx? p).getD xs.length)).head?, p a = true := by
  cases h : xs.findIdx? p with
  | none =>
      rw [Option.getD_none, List.take_length, List.drop_length]
      exact ⟨List.findIdx?_eq_none_iff.mp h, nofun⟩
  | some n =>
      obtain ⟨front, x, back, rfl, rfl, hx, hfront⟩ := exists_of_findIdx? h
      rw [Option.getD_some, List.take_left, List.drop_left]
      refine ⟨hfront, ?_⟩
      intro a ha
      cases ha
      exact hx

end

end Split
