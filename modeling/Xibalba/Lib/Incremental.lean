import Mathlib.Data.List.Basic
import Mathlib.Tactic.Common

/-!
# `Lib.Incremental` — parsers that are fed while the input arrives

A parser makes something of a prefix of its input and says how long that prefix is. One that is called again whenever
more has arrived has to be *stable*: what it makes of a prefix does not depend on what follows, it asks for more as
long as the prefix has not arrived, and an error that does not ask for more is final.

Layout:
* `Parser` and `Stable`;
* the parsers a stable one is put together from: `of`, `next`, `scan`, `andThen`;
* `Stable.of_fuel`, for a recursion that is cut off after a given number of turns.
-/

/-- A parser of a prefix: what it makes of the input, and how much of the input that took. -/
abbrev Parser (α ε β : Type) := List α → Except ε (β × Nat)

namespace Parser

variable {α ε β γ : Type}

/-- **Stability.** `more` is the error that asks for more input. -/
structure Stable (more : ε) (f : Parser α ε β) : Prop where
  length_le : ∀ {xs b n}, f xs = .ok (b, n) → n ≤ xs.length
  /-- a result does not depend on what follows -/
  extend : ∀ {xs b n}, f xs = .ok (b, n) → ∀ ys, f (xs.take n ++ ys) = .ok (b, n)
  /-- there is no result before its end -/
  cut : ∀ {xs b n}, f xs = .ok (b, n) → ∀ k < n, f (xs.take k) = .error more
  /-- any other error is final -/
  failed : ∀ {xs e}, f xs = .error e → e ≠ more → ∀ ys, f (xs ++ ys) = .error e

/-- More input does not change a result. -/
theorem Stable.append {more : ε} {f : Parser α ε β} (h : Stable more f) {xs : List α} {b : β} {n : Nat}
    (hxs : f xs = .ok (b, n)) (ys : List α) : f (xs ++ ys) = .ok (b, n) := by
  have heq : xs ++ ys = xs.take n ++ (xs.drop n ++ ys) := by
    rw [← List.append_assoc, List.take_append_drop]
  rw [heq]
  exact h.extend hxs _

/-! ## Building blocks -/

/-- A result that takes no input. -/
def of (r : Except ε β) : Parser α ε β := fun _ => r.map fun b => (b, 0)

theorem stable_of (more : ε) (r : Except ε β) : Stable more (of r : Parser α ε β) := by
  cases r with
  | error e =>
      refine ⟨nofun, nofun, nofun, ?_⟩
      intro xs e' h _ ys
      exact h
  | ok b =>
      refine ⟨?_, ?_, ?_, nofun⟩
      · intro xs b' n h
        cases h
        exact Nat.zero_le _
      · intro xs b' n h ys
        exact h
      · intro xs b' n h k hk
        cases h
        cases hk

/-- One element. -/
def next (more : ε) (cls : α → Except ε β) : Parser α ε β
  | [] => .error more
  | a :: _ => (cls a).map fun b => (b, 1)

theorem stable_next (more : ε) (cls : α → Except ε β) : Stable more (next more cls) := by
  have hok : ∀ {xs b n}, next more cls xs = .ok (b, n) → ∃ a rest, xs = a :: rest ∧ cls a = .ok b ∧ n = 1 := by
    intro xs b n h
    cases xs with
    | nil => cases h
    | cons a rest =>
        have h : (cls a).map (fun b => (b, 1)) = .ok (b, n) := h
        cases hcls : cls a with
        | error e =>
            rw [hcls] at h
            cases h
        | ok b' =>
            rw [hcls] at h
            cases h
            exact ⟨a, rest, rfl, hcls, rfl⟩
  refine ⟨?_, ?_, ?_, ?_⟩
  · intro xs b n h
    obtain ⟨a, rest, rfl, -, rfl⟩ := hok h
    exact Nat.succ_le_succ (Nat.zero_le _)
  · intro xs b n h ys
    obtain ⟨a, rest, rfl, hcls, rfl⟩ := hok h
    show (cls a).map _ = _
    rw [hcls]
    rfl
  · intro xs b n h k hk
    obtain ⟨a, rest, rfl, -, rfl⟩ := hok h
    rw [Nat.lt_one_iff.mp hk]
    rfl
  · intro xs e h hne ys
    cases xs with
    | nil =>
        cases h
        exact absurd rfl hne
    | cons a rest => exact h

/-- The elements before one at which `cls` says to stop. -/
def scan (more : ε) (cls : α → Except ε Bool) : Parser α ε (List α)
  | [] => .error more
  | a :: rest =>
    match cls a with
    | .error e => .error e
    | .ok true => .ok ([], 1)
    | .ok false => (scan more cls rest).map fun r => (a :: r.1, r.2 + 1)

section

variable {more : ε} {cls : α → Except ε Bool}

theorem scan_error {a : α} {e : ε} (h : cls a = .error e) (rest : List α) : scan more cls (a :: rest) = .error e := by
  rw [scan, h]

theorem scan_stop {a : α} (h : cls a = .ok true) (rest : List α) : scan more cls (a :: rest) = .ok ([], 1) := by
  rw [scan, h]

theorem scan_go {a : α} (h : cls a = .ok false) (rest : List α) :
    scan more cls (a :: rest) = (scan more cls rest).map fun r => (a :: r.1, r.2 + 1) := by
  rw [scan, h]

/-- What a scan found: the element at which it stopped, and those before it. -/
theorem scan_ok {xs ys : List α} {n : Nat} (h : scan more cls xs = .ok (ys, n)) :
    ∃ a rest, xs = ys ++ a :: rest ∧ n = ys.length + 1 ∧ cls a = .ok true ∧ ∀ y ∈ ys, cls y = .ok false := by
  induction xs generalizing ys n with
  | nil => cases h
  | cons x xs ih =>
      rcases hx : cls x with e | _ | _
      · rw [scan_error hx] at h
        cases h
      · rw [scan_go hx] at h
        cases hrest : scan more cls xs with
        | error e =>
            rw [hrest] at h
            cases h
        | ok r =>
            rw [hrest] at h
            obtain ⟨ys', n'⟩ := r
            cases h
            obtain ⟨a, rest, rfl, rfl, ha, hys⟩ := ih hrest
            refine ⟨a, rest, rfl, rfl, ha, ?_⟩
            intro y hy
            rcases List.mem_cons.mp hy with rfl | hy
            · exact hx
            · exact hys y hy
      · rw [scan_stop hx] at h
        cases h
        exact ⟨x, xs, rfl, rfl, hx, nofun⟩

/-- An error of a scan is that of an element, or asks for more. -/
theorem scan_eq_error {xs : List α} {e : ε} (h : scan more cls xs = .error e) : e = more ∨ ∃ a, cls a = .error e := by
  induction xs with
  | nil =>
      cases h
      exact .inl rfl
  | cons x xs ih =>
      rcases hx : cls x with e' | _ | _
      · rw [scan_error hx] at h
        cases h
        exact .inr ⟨x, hx⟩
      · rw [scan_go hx] at h
        cases hrest : scan more cls xs with
        | error e' =>
            rw [hrest] at h
            cases h
            exact ih hrest
        | ok r =>
            rw [hrest] at h
            cases h
      · rw [scan_stop hx] at h
        cases h

/-- A scan goes on over elements at which it does not stop. -/
theorem scan_append (more : ε) {ys : List α} (h : ∀ y ∈ ys, cls y = .ok false) (xs : List α) :
    scan more cls (ys ++ xs) = (scan more cls xs).map fun r => (ys ++ r.1, r.2 + ys.length) := by
  induction ys with
  | nil =>
      rw [List.nil_append]
      cases scan more cls xs with
      | error e => rfl
      | ok r => rfl
  | cons y ys ih =>
      have hy := h y (List.mem_cons_self)
      have hys : ∀ z ∈ ys, cls z = .ok false := fun z hz => h z (List.mem_cons_of_mem y hz)
      rw [List.cons_append, scan_go hy, ih hys]
      cases scan more cls xs with
      | error e => rfl
      | ok r => rfl

/-- A scan of elements at which it does not stop asks for more. -/
theorem scan_more {ys : List α} (h : ∀ y ∈ ys, cls y = .ok false) : scan more cls ys = .error more := by
  have happ := scan_append more h []
  rw [List.append_nil] at happ
  rw [happ]
  rfl

/-- A scan asks for more only when it has gone over everything. -/
theorem scan_eq_more (hcls : ∀ a, cls a ≠ .error more) {xs : List α} (h : scan more cls xs = .error more) :
    ∀ x ∈ xs, cls x = .ok false := by
  induction xs with
  | nil => nofun
  | cons x xs ih =>
      rcases hx : cls x with e | _ | _
      · rw [scan_error hx] at h
        cases h
        exact absurd hx (hcls x)
      · rw [scan_go hx] at h
        have hrest : scan more cls xs = .error more := by
          cases hxs : scan more cls xs with
          | error e =>
              rw [hxs] at h
              exact h
          | ok r =>
              rw [hxs] at h
              cases h
        intro y hy
        rcases List.mem_cons.mp hy with rfl | hy
        · exact hx
        · exact ih hrest y hy
      · rw [scan_stop hx] at h
        cases h

theorem stable_scan (more : ε) (cls : α → Except ε Bool) : Stable more (scan more cls) := by
  refine ⟨?_, ?_, ?_, ?_⟩
  · intro xs ys n h
    obtain ⟨a, rest, rfl, rfl, -⟩ := scan_ok h
    rw [List.length_append, List.length_cons]
    omega
  · intro xs ys n h zs
    obtain ⟨a, rest, rfl, rfl, ha, hys⟩ := scan_ok h
    have htake : (ys ++ a :: rest).take (ys.length + 1) = ys ++ [a] := by
      rw [List.take_append, List.take_of_length_le (Nat.le_succ _), Nat.add_sub_cancel_left]
      rfl
    rw [htake, List.append_assoc, scan_append more hys, List.singleton_append, scan_stop ha]
    show Except.ok (ys ++ [], 1 + ys.length) = _
    rw [List.append_nil, Nat.add_comm]
  · intro xs ys n h k hk
    obtain ⟨a, rest, rfl, rfl, -, hys⟩ := scan_ok h
    rw [List.take_append_of_le_length (Nat.le_of_lt_succ hk)]
    exact scan_more fun y hy => hys y (List.mem_of_mem_take hy)
  · intro xs e h hne ys
    induction xs with
    | nil =>
        cases h
        exact absurd rfl hne
    | cons x xs ih =>
        rw [List.cons_append]
        rcases hx : cls x with e' | _ | _
        · rw [scan_error hx] at h ⊢
          exact h
        · rw [scan_go hx] at h ⊢
          cases hrest : scan more cls xs with
          | error e' =>
              rw [hrest] at h
              cases h
              rw [ih hrest]
              rfl
          | ok r =>
              rw [hrest] at h
              cases h
        · rw [scan_stop hx] at h
          cases h

end

/-- One parser after the other. The second sees what the first made, and how much of the input that took. -/
def andThen (f : Parser α ε β) (g : β → Nat → Parser α ε γ) : Parser α ε γ := fun xs =>
  match f xs with
  | .error e => .error e
  | .ok (b, n) => (g b n (xs.drop n)).map fun r => (r.1, n + r.2)

section

variable {more : ε} {f : Parser α ε β} {g : β → Nat → Parser α ε γ} {xs : List α}

theorem andThen_error {e : ε} (h : f xs = .error e) : andThen f g xs = .error e := by
  rw [andThen, h]

theorem andThen_of_ok {b : β} {n : Nat} (h : f xs = .ok (b, n)) :
    andThen f g xs = (g b n (xs.drop n)).map fun r => (r.1, n + r.2) := by
  rw [andThen, h]

theorem andThen_ok {c : γ} {k : Nat} (h : andThen f g xs = .ok (c, k)) :
    ∃ b n m, f xs = .ok (b, n) ∧ g b n (xs.drop n) = .ok (c, m) ∧ k = n + m := by
  cases hf : f xs with
  | error e =>
      rw [andThen_error hf] at h
      cases h
  | ok r =>
      obtain ⟨b, n⟩ := r
      rw [andThen_of_ok hf] at h
      cases hg : g b n (xs.drop n) with
      | error e =>
          rw [hg] at h
          cases h
      | ok r =>
          obtain ⟨c', m⟩ := r
          rw [hg] at h
          cases h
          exact ⟨b, n, m, rfl, hg, rfl⟩

/-- An error is the first parser's, or that of the second behind what the first took. -/
theorem andThen_eq_error {e : ε} (h : andThen f g xs = .error e) :
    f xs = .error e ∨ ∃ b n, f xs = .ok (b, n) ∧ g b n (xs.drop n) = .error e := by
  cases hf : f xs with
  | error e' =>
      rw [andThen_error hf] at h
      cases h
      exact .inl rfl
  | ok r =>
      obtain ⟨b, n⟩ := r
      rw [andThen_of_ok hf] at h
      cases hg : g b n (xs.drop n) with
      | error e' =>
          rw [hg] at h
          cases h
          exact .inr ⟨b, n, rfl, hg⟩
      | ok r =>
          rw [hg] at h
          cases h

/-- **Sequencing** keeps stability. -/
theorem Stable.andThen (hf : Stable more f) (hg : ∀ b n, Stable more (g b n)) : Stable more (andThen f g) := by
  refine ⟨?_, ?_, ?_, ?_⟩
  · intro xs c k h
    obtain ⟨b, n, m, hfx, hgx, rfl⟩ := andThen_ok h
    have hn := hf.length_le hfx
    have hm := (hg b n).length_le hgx
    rw [List.length_drop] at hm
    omega
  · intro xs c k h ys
    obtain ⟨b, n, m, hfx, hgx, rfl⟩ := andThen_ok h
    have hn := hf.length_le hfx
    have hsplit : xs.take (n + m) ++ ys = xs.take n ++ ((xs.drop n).take m ++ ys) := by
      rw [List.take_add, List.append_assoc]
    have hlen : (xs.take n).length = n := List.length_take_of_le hn
    rw [hsplit, andThen_of_ok (hf.extend hfx _), List.drop_append_of_le_length (Nat.le_of_eq hlen.symm),
      List.drop_of_length_le (Nat.le_of_eq hlen), List.nil_append, (hg b n).extend hgx]
    rfl
  · intro xs c k h j hj
    obtain ⟨b, n, m, hfx, hgx, rfl⟩ := andThen_ok h
    by_cases hjn : j < n
    · exact andThen_error (hf.cut hfx j hjn)
    · -- the first part has arrived
      have hnj : n ≤ j := Nat.le_of_not_lt hjn
      have hn := hf.length_le hfx
      have hsplit : xs.take j = xs.take n ++ (xs.drop n).take (j - n) := by
        rw [← List.take_add, Nat.add_sub_cancel' hnj]
      have hlen : (xs.take n).length = n := List.length_take_of_le hn
      rw [hsplit, andThen_of_ok (hf.extend hfx _), List.drop_append_of_le_length (Nat.le_of_eq hlen.symm),
        List.drop_of_length_le (Nat.le_of_eq hlen), List.nil_append, (hg b n).cut hgx (j - n) (by omega)]
      rfl
  · intro xs e h hne ys
    cases hfx : f xs with
    | error e' =>
        rw [andThen_error hfx] at h
        cases h
        exact andThen_error (hf.failed hfx hne ys)
    | ok r =>
        obtain ⟨b, n⟩ := r
        rw [andThen_of_ok hfx] at h
        cases hgx : g b n (xs.drop n) with
        | ok r =>
            rw [hgx] at h
            cases h
        | error e' =>
            rw [hgx] at h
            cases h
            rw [andThen_of_ok (hf.append hfx ys), List.drop_append_of_le_length (hf.length_le hfx),
              (hg b n).failed hgx hne ys]
            rfl

end

/-! ## Recursion -/

/-- A parser is stable if its recursion is, cut off anywhere, and never takes more turns than it has input. -/
theorem Stable.of_fuel {more : ε} {f : Parser α ε β} {F : Nat → Parser α ε β} (hF : ∀ fuel, Stable more (F fuel))
    (heq : ∀ xs fuel, xs.length < fuel → F fuel xs = f xs) : Stable more f := by
  refine ⟨?_, ?_, ?_, ?_⟩
  · intro xs b n h
    rw [← heq xs (xs.length + 1) (Nat.lt_succ_self _)] at h
    exact (hF _).length_le h
  · intro xs b n h ys
    have hx : xs.length < xs.length + ys.length + 1 := by omega
    have hy : (xs.take n ++ ys).length < xs.length + ys.length + 1 := by
      rw [List.length_append, List.length_take]
      omega
    rw [← heq _ _ hx] at h
    rw [← heq _ _ hy]
    exact (hF _).extend h ys
  · intro xs b n h k hk
    have hx : xs.length < xs.length + 1 := Nat.lt_succ_self _
    have hy : (xs.take k).length < xs.length + 1 := by
      rw [List.length_take]
      omega
    rw [← heq _ _ hx] at h
    rw [← heq _ _ hy]
    exact (hF _).cut h k hk
  · intro xs e h hne ys
    have hx : xs.length < xs.length + ys.length + 1 := by omega
    have hy : (xs ++ ys).length < xs.length + ys.length + 1 := by
      rw [List.length_append]
      exact Nat.lt_succ_self _
    rw [← heq _ _ hx] at h
    rw [← heq _ _ hy]
    exact (hF _).failed h hne ys

end Parser
