import Xibalba.Lib.Prog

/-!
# `Lib.Eval` — programs in an environment that answers by a function

An environment with a state of its own, which answers each operation by a function, runs a program to at most one
result. Quantified over every such environment this says no less than a statement about every answer, and it says
more: that the program does come to a result.

Layout:
* `Prog.eval` and how it goes through a sequence;
* `Act.Returns`, which holds when a program returns and its result satisfies a postcondition, and its rules.
-/

/-- An environment with states `ρ` that answers by a function. -/
abbrev Env (S : Sig) (ρ : Type) : Type := ρ → (op : S.Op) → S.Ret op × ρ

namespace Prog

variable {S : Sig} {ρ α β : Type} (env : Env S ρ)

/-- The result of a program and the state its environment is left in; there is none when the program hangs. -/
def eval : Prog S α → ρ → Option (α × ρ)
  | .pure a, st => some (a, st)
  | .call op k, st => eval (k (env st op).1) (env st op).2
  | .hang, _ => none

/-- A sequence is run part by part. -/
theorem eval_bind (p : Prog S α) (f : α → Prog S β) (st : ρ) :
    eval env (p.bind f) st = (eval env p st).bind fun c => eval env (f c.1) c.2 := by
  induction p generalizing st with
  | pure a => rfl
  | call op k ih => exact ih (env st op).1 (env st op).2
  | hang => rfl

variable {env}

/-- An evaluation is one of the executions of the program. -/
theorem exec_eval {p : Prog S α} {st st' : ρ} {a : α} (h : eval env p st = some (a, st')) :
    ∃ tr, Exec p tr (.pure a) := by
  induction p generalizing st with
  | pure b =>
      cases h
      exact ⟨[], .refl _⟩
  | call op k ih =>
      obtain ⟨tr, htr⟩ := ih (env st op).1 h
      exact ⟨_, .call _ htr⟩
  | hang => cases h

end Prog

namespace Act

variable {S : Sig} {ρ ℓ ε ε' α β : Type} {env : Env S ρ} {l : ℓ} {st : ρ}

/-- Started in `l`, the program returns, and `Q` holds of its result and of what it leaves. -/
def Returns (env : Env S ρ) (x : Act S ℓ ε α) (Q : Except ε α → ℓ → ρ → Prop) (l : ℓ)
    (st : ρ) : Prop :=
  ∃ r l' st', Prog.eval env (x l) st = some ((r, l'), st') ∧ Q r l' st'

namespace Returns

variable {Q : Except ε α → ℓ → ρ → Prop}

theorem mono {x : Act S ℓ ε α} {Q' : Except ε α → ℓ → ρ → Prop} (h : Returns env x Q l st)
    (hQ : ∀ r l st, Q r l st → Q' r l st) : Returns env x Q' l st := by
  obtain ⟨r, l', st', heval, hr⟩ := h
  exact ⟨r, l', st', heval, hQ r l' st' hr⟩

end Returns

variable {Q : Except ε α → ℓ → ρ → Prop}

/-- What is left to show after the first part of a sequence. -/
def Then (env : Env S ρ) (f : α → Act S ℓ ε β) (Q : Except ε β → ℓ → ρ → Prop) :
    Except ε α → ℓ → ρ → Prop
  | .ok a, l, st => Returns env (f a) Q l st
  | .error e, l, st => Q (.error e) l st

@[simp] theorem then_ok {f : α → Act S ℓ ε β} {Q : Except ε β → ℓ → ρ → Prop} {a : α} :
    Then env f Q (.ok a) l st ↔ Returns env (f a) Q l st := Iff.rfl

@[simp] theorem then_error {f : α → Act S ℓ ε β} {Q : Except ε β → ℓ → ρ → Prop} {e : ε} :
    Then env f Q (.error e) l st ↔ Q (.error e) l st := Iff.rfl

@[simp] theorem returns_pure {a : α} : Returns env (pure a : Act S ℓ ε α) Q l st ↔ Q (.ok a) l st := by
  constructor
  · rintro ⟨r, l', st', heval, hr⟩
    cases heval
    exact hr
  · exact fun h => ⟨_, _, _, rfl, h⟩

@[simp] theorem returns_ofExcept {r : Except ε α} :
    Returns env (ofExcept r : Act S ℓ ε α) Q l st ↔ Q r l st := by
  constructor
  · rintro ⟨r, l', st', heval, hr⟩
    cases heval
    exact hr
  · exact fun h => ⟨_, _, _, rfl, h⟩

@[simp] theorem returns_throw {e : ε} : Returns env (throw e : Act S ℓ ε α) Q l st ↔ Q (.error e) l st :=
  returns_ofExcept

@[simp] theorem returns_get {Q : Except ε ℓ → ℓ → ρ → Prop} :
    Returns env (get : Act S ℓ ε ℓ) Q l st ↔ Q (.ok l) l st := returns_ofExcept (r := .ok l)

@[simp] theorem returns_modify {f : ℓ → ℓ} {Q : Except ε Unit → ℓ → ρ → Prop} :
    Returns env (modify f : Act S ℓ ε Unit) Q l st ↔ Q (.ok ()) (f l) st := by
  constructor
  · rintro ⟨r, l', st', heval, hr⟩
    cases heval
    exact hr
  · exact fun h => ⟨_, _, _, rfl, h⟩

/-- A call returns what the environment answers. -/
@[simp] theorem returns_call {op : S.Op} {Q : Except ε (S.Ret op) → ℓ → ρ → Prop} :
    Returns env (call op : Act S ℓ ε (S.Ret op)) Q l st ↔ Q (.ok (env st op).1) l (env st op).2 := by
  constructor
  · rintro ⟨r, l', st', heval, hr⟩
    cases heval
    exact hr
  · exact fun h => ⟨_, _, _, rfl, h⟩

/-- The rule for a sequence. -/
@[simp] theorem returns_bind {x : Act S ℓ ε α} {f : α → Act S ℓ ε β} {Q : Except ε β → ℓ → ρ → Prop} :
    Returns env (x >>= f) Q l st ↔ Returns env x (Then env f Q) l st := by
  have heval : Prog.eval env ((x >>= f) l) st =
      (Prog.eval env (x l) st).bind fun c => Prog.eval env (next f c.1) c.2 := Prog.eval_bind env _ _ _
  unfold Returns
  rw [heval]
  constructor
  · rintro ⟨r, l', st', hsome, hr⟩
    obtain ⟨⟨⟨r₁, l₁⟩, st₁⟩, h₁, h₂⟩ := Option.bind_eq_some_iff.mp hsome
    refine ⟨r₁, l₁, st₁, h₁, ?_⟩
    cases r₁ with
    | ok a => exact ⟨r, l', st', h₂, hr⟩
    | error e =>
        cases h₂
        exact hr
  · rintro ⟨r₁, l₁, st₁, h₁, h₂⟩
    rw [h₁]
    cases r₁ with
    | ok a => exact h₂
    | error e => exact ⟨_, _, _, rfl, h₂⟩

/-- The two combinators that only look at the result. -/
theorem returns_map {x : Act S ℓ ε α} {g : Except ε α → Except ε' β} {Q : Except ε' β → ℓ → ρ → Prop} :
    Returns env (fun l => (x l).bind fun p => .pure (g p.1, p.2)) Q l st ↔
      Returns env x (fun r l st => Q (g r) l st) l st := by
  unfold Returns
  rw [Prog.eval_bind]
  constructor
  · rintro ⟨r, l', st', hsome, hr⟩
    obtain ⟨⟨⟨r₁, l₁⟩, st₁⟩, h₁, h₂⟩ := Option.bind_eq_some_iff.mp hsome
    cases h₂
    exact ⟨r₁, l₁, st₁, h₁, hr⟩
  · rintro ⟨r₁, l₁, st₁, h₁, h₂⟩
    rw [h₁]
    exact ⟨_, _, _, rfl, h₂⟩

/-- An attempt returns, with what failed as its result. -/
@[simp] theorem returns_attempt {x : Act S ℓ ε α} {Q : Except ε' (Except ε α) → ℓ → ρ → Prop} :
    Returns env (attempt x : Act S ℓ ε' (Except ε α)) Q l st ↔
      Returns env x (fun r l st => Q (.ok r) l st) l st := returns_map

@[simp] theorem returns_mapError {f : ε → ε'} {x : Act S ℓ ε α} {Q : Except ε' α → ℓ → ρ → Prop} :
    Returns env (mapError f x) Q l st ↔ Returns env x (fun r l st => Q (r.mapError f) l st) l st := returns_map

end Act
