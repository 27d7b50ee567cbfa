import Mathlib.Tactic.Common

/-!
# `Lib.Prog` — programs that talk to an environment

A program over a signature of operations is a tree: it returns a value, or performs an operation and goes on
with whatever answer the environment gives. Nothing says which answer that is, so a statement about every
branch of the tree is a statement about every behaviour of the environment. A loop whose number of turns the
environment decides is cut off after a given number of turns; the cut is `hang`, which has no behaviour.

Layout:
* `Sig`, `Prog` and its monad;
* `Exec`, the finite executions of a program and the events they leave;
* `Act`, programs with a local state that may fail, and the combinators a model is written with.
-/

/-- A signature: operations, and the type of each operation's answer. -/
structure Sig where
  Op : Type
  Ret : Op → Type

/-- A program over `S` that returns an `α`. -/
inductive Prog (S : Sig) (α : Type) : Type where
  | pure (a : α)
  | call (op : S.Op) (k : S.Ret op → Prog S α)
  | hang

namespace Prog

variable {S : Sig} {α β γ : Type}

protected def bind : Prog S α → (α → Prog S β) → Prog S β
  | .pure a, f => f a
  | .call op k, f => .call op fun r => (k r).bind f
  | .hang, _ => .hang

instance : Monad (Prog S) where
  pure := Prog.pure
  bind := Prog.bind

theorem bind_assoc (p : Prog S α) (f : α → Prog S β) (g : β → Prog S γ) :
    (p.bind f).bind g = p.bind fun a => (f a).bind g := by
  induction p with
  | pure a => rfl
  | call op k ih =>
      show Prog.call op _ = Prog.call op _
      congr 1
      funext r
      exact ih r
  | hang => rfl

/-! ## Executions -/

/-- One performed operation and its answer. -/
structure Event (S : Sig) where
  op : S.Op
  ret : S.Ret op

/-- `Exec p tr p'`: after the events `tr`, oldest first, the program `p` has become `p'`. -/
inductive Exec : Prog S α → List (Event S) → Prog S α → Prop where
  | refl (p : Prog S α) : Exec p [] p
  | call {op : S.Op} {k : S.Ret op → Prog S α} {tr : List (Event S)} {p' : Prog S α} (r : S.Ret op) :
      Exec (k r) tr p' → Exec (.call op k) (⟨op, r⟩ :: tr) p'

/-- An execution of a sequence is one of its first part, or one that has run through it. -/
theorem exec_bind {p : Prog S α} {f : α → Prog S β} {tr : List (Event S)} {q : Prog S β} (h : Exec (p.bind f) tr q) :
    (∃ p', Exec p tr p') ∨
      ∃ a tr₁ tr₂, tr = tr₁ ++ tr₂ ∧ Exec p tr₁ (.pure a) ∧ Exec (f a) tr₂ q := by
  induction p generalizing tr with
  | pure a => exact .inr ⟨a, [], tr, rfl, .refl _, h⟩
  | call op k ih =>
      cases h with
      | refl => exact .inl ⟨_, .refl _⟩
      | call r h =>
          rcases ih r h with ⟨p', h'⟩ | ⟨a, tr₁, tr₂, rfl, h₁, h₂⟩
          · exact .inl ⟨p', .call r h'⟩
          · exact .inr ⟨a, ⟨op, r⟩ :: tr₁, tr₂, rfl, .call r h₁, h₂⟩
  | hang =>
      cases h
      exact .inl ⟨_, .refl _⟩

/-- An operation at a known place of a run splits the run there. -/
theorem Event.split {tr : List (Event S)} {n : Nat} {op : S.Op} (h : (tr.map Event.op)[n]? = some op) :
    ∃ e post, e.op = op ∧ tr = tr.take n ++ e :: post := by
  rw [List.getElem?_map, Option.map_eq_some_iff] at h
  obtain ⟨e, he, rfl⟩ := h
  obtain ⟨hlt, rfl⟩ := List.getElem?_eq_some_iff.mp he
  refine ⟨tr.get ⟨n, hlt⟩, tr.drop (n + 1), rfl, ?_⟩
  rw [List.get_eq_getElem, ← List.drop_eq_getElem_cons hlt, List.take_append_drop]

/-- The events of at most `n` operations when the environment answers by `env` from a state of its own, and what
    is left of the program. -/
def play {ρ : Type} (env : ρ → (op : S.Op) → S.Ret op × ρ) : Nat → ρ → Prog S α → List (Event S) × Prog S α
  | n + 1, st, .call op k =>
    let (r, st) := env st op
    let (tr, p) := play env n st (k r)
    (⟨op, r⟩ :: tr, p)
  | _, _, p => ([], p)

theorem exec_play {ρ : Type} (env : ρ → (op : S.Op) → S.Ret op × ρ) (n : Nat) (st : ρ) (p : Prog S α) :
    Exec p (play env n st p).1 (play env n st p).2 := by
  induction n generalizing st p with
  | zero =>
      rw [play.eq_2 _ _ _ _ (by simp)]
      exact .refl p
  | succ n ih =>
      cases p with
      | pure a => exact .refl _
      | call op k => exact .call _ (ih _ _)
      | hang => exact .refl _

/-- The value of a program that has returned. -/
def result? : Prog S α → Option α
  | .pure a => some a
  | _ => none

theorem result?_eq_some {p : Prog S α} {a : α} (h : p.result? = some a) : p = .pure a := by
  cases p with
  | pure b =>
      cases h
      rfl
  | call op k => cases h
  | hang => cases h

/-- The operation a program is about to perform. -/
def next? : Prog S α → Option S.Op
  | .call op _ => some op
  | _ => none

theorem next?_eq_some {p : Prog S α} {op : S.Op} (h : p.next? = some op) : ∃ k, p = .call op k := by
  cases p with
  | pure a => cases h
  | call op' k =>
      cases h
      exact ⟨k, rfl⟩
  | hang => cases h

theorem exec_result? {ρ : Type} {env : ρ → (op : S.Op) → S.Ret op × ρ} {n : Nat} {st : ρ} {p : Prog S α} {a : α}
    (h : (play env n st p).2.result? = some a) : Exec p (play env n st p).1 (.pure a) := by
  have hexec := exec_play env n st p
  generalize (play env n st p).2 = q at h hexec
  cases q with
  | pure b =>
      cases h
      exact hexec
  | call op k => cases h
  | hang => cases h

end Prog

/-! ## Programs with a local state -/

/-- A program with local state `ℓ` that returns an `α` or fails with an `ε`; the state survives a failure. -/
def Act (S : Sig) (ℓ ε α : Type) : Type := ℓ → Prog S (Except ε α × ℓ)

namespace Act

variable {S : Sig} {ℓ ε ε' α β : Type}

/-- Go on after a result: a failure ends the program, keeping the state. -/
def next (f : α → Act S ℓ ε β) : Except ε α × ℓ → Prog S (Except ε β × ℓ)
  | (.ok a, l) => f a l
  | (.error e, l) => .pure (.error e, l)

instance : Monad (Act S ℓ ε) where
  pure a := fun l => .pure (.ok a, l)
  bind x f := fun l => (x l).bind (next f)

/-- Fail. -/
def throw (e : ε) : Act S ℓ ε α := fun l => .pure (.error e, l)

/-- Perform one operation. -/
def call (op : S.Op) : Act S ℓ ε (S.Ret op) := fun l => .call op fun r => .pure (.ok r, l)

/-- Stop without a result. -/
def hang : Act S ℓ ε α := fun _ => .hang

def get : Act S ℓ ε ℓ := fun l => .pure (.ok l, l)

def modify (f : ℓ → ℓ) : Act S ℓ ε Unit := fun l => .pure (.ok (), f l)

/-- A computed result. -/
def ofExcept (r : Except ε α) : Act S ℓ ε α := fun l => .pure (r, l)

/-- Run to the result, success or failure, and return it as a value. -/
def attempt (x : Act S ℓ ε α) : Act S ℓ ε' (Except ε α) := fun l =>
  (x l).bind fun p => .pure (.ok p.1, p.2)

/-- Re-type a failure. -/
def mapError (f : ε → ε') (x : Act S ℓ ε α) : Act S ℓ ε' α := fun l =>
  (x l).bind fun p => .pure (p.1.mapError f, p.2)

/-- A program that cannot fail, where one that may is expected. -/
def infallible (x : Act S ℓ Empty α) : Act S ℓ ε α := mapError (fun e => nomatch e) x

/-- An execution of an attempt and what follows it is one of the attempted program, or one that has run through
    it. -/
theorem exec_attempt_bind {x : Act S ℓ ε α} {f : Except ε α → Act S ℓ ε' β} {l : ℓ} {tr : List (Prog.Event S)}
    {q : Prog S (Except ε' β × ℓ)} (h : Prog.Exec ((attempt x >>= f) l) tr q) :
    (∃ p, Prog.Exec (x l) tr p) ∨
      ∃ r l' tr₁ tr₂, tr = tr₁ ++ tr₂ ∧ Prog.Exec (x l) tr₁ (.pure (r, l')) ∧ Prog.Exec (f r l') tr₂ q := by
  have heq : (attempt x >>= f) l = (x l).bind fun p => f p.1 p.2 := Prog.bind_assoc _ _ _
  rw [heq] at h
  rcases Prog.exec_bind h with h | ⟨⟨r, l'⟩, tr₁, tr₂, htr, h₁, h₂⟩
  · exact .inl h
  · exact .inr ⟨r, l', tr₁, tr₂, htr, h₁, h₂⟩

end Act
