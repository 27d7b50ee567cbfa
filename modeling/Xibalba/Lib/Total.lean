import Xibalba.Lib.Wp

/-!
# `Lib.Total` — programs that are not cut off

A weakest precondition allows a program to be cut off anywhere. `Total` does not: it is a triple of a program none of
whose runs in the world ends in `hang`. A loop with a number of turns satisfies it where the world lets it take no more
turns than it has.

Layout:
* `Prog.Uncut`, no run of a program is cut off;
* `Act.Total`, triples of programs with a local state, and their rules.
-/

namespace Prog

variable {S : Sig} {σ α β : Type} {W : World S σ} {s s' : σ}

/-- No run of the program in the world is cut off. -/
def Uncut (W : World S σ) : Prog S α → σ → Prop
  | .pure _, _ => True
  | .call op k, s => ∀ s₁, W.env s s₁ → ∀ r s₂, W.act s₁ op r s₂ → Uncut W (k r) s₂
  | .hang, _ => False

theorem uncut_env {p : Prog S α} (h : Uncut W p s) (henv : W.env s s') : Uncut W p s' := by
  cases p with
  | pure a => trivial
  | call op k =>
      intro s₁ h₁
      exact h s₁ (W.env_trans henv h₁)
  | hang => exact h

/-- A sequence is not cut off if its first part is not, nor what follows a result of it. -/
theorem uncut_bind {p : Prog S α} {f : α → Prog S β} (hp : Uncut W p s) (hf : wp W p (fun a s => Uncut W (f a) s) s) :
    Uncut W (p.bind f) s := by
  induction p generalizing s with
  | pure a => exact hf s (W.env_refl s)
  | call op k ih =>
      intro s₁ henv r s₂ hact
      exact ih r (hp s₁ henv r s₂ hact) ((hf s₁ henv).2 r s₂ hact)
  | hang => exact hp.elim

/-- What cannot be cut short stays so along a run. -/
theorem uncut_reach {p p' : Prog S α} (h : Uncut W p s) (hr : Reach W p s p' s') : Uncut W p' s' := by
  induction hr with
  | refl => exact h
  | env _ henv ih => exact uncut_env (ih h) henv
  | act _ hact ih => exact ih h _ (W.env_refl _) _ _ hact

/-- **Soundness.** No reachable configuration is the one where the program is cut off. -/
theorem uncut_sound {p p' : Prog S α} (h : Uncut W p s) (hr : Reach W p s p' s') : p' ≠ .hang := by
  rintro rfl
  exact uncut_reach h hr

end Prog

namespace Act

variable {S : Sig} {σ ℓ ε ε' α β : Type} {W : World S σ}

/-- A triple of a program that is not cut off where `P` holds. -/
structure Total (P : W.Assertion ℓ) (x : Act S ℓ ε α) (Q : Except ε α → W.Assertion ℓ) : Prop where
  triple : Triple P x Q
  uncut : ∀ l s, P l s → Prog.Uncut W (x l) s

namespace Total

variable {P P' I : W.Assertion ℓ} {Q Q' : Except ε α → W.Assertion ℓ}

/-- The rule of consequence. -/
theorem conseq {x : Act S ℓ ε α} (h : Total P x Q) (hP : ∀ l s, P' l s → P l s) (hQ : ∀ r l s, Q r l s → Q' r l s) :
    Total P' x Q' where
  triple := h.triple.conseq hP hQ
  uncut l s hs := h.uncut l s (hP l s hs)

theorem pure {a : α} (h : ∀ l s, P l s → Q (.ok a) l s) : Total P (pure a) Q where
  triple := Triple.pure h
  uncut _ _ _ := trivial

theorem throw {e : ε} (h : ∀ l s, P l s → Q (.error e) l s) : Total P (throw e) Q where
  triple := Triple.throw h
  uncut _ _ _ := trivial

theorem ofExcept {r : Except ε α} (h : ∀ l s, P l s → Q r l s) : Total P (ofExcept r) Q where
  triple := Triple.ofExcept h
  uncut _ _ _ := trivial

theorem get {Q : Except ε ℓ → W.Assertion ℓ} (h : ∀ l s, P l s → Q (.ok l) l s) : Total P get Q where
  triple := Triple.get h
  uncut _ _ _ := trivial

theorem modify {f : ℓ → ℓ} {Q : Except ε Unit → W.Assertion ℓ} (h : ∀ l s, P l s → Q (.ok ()) (f l) s) :
    Total P (modify f) Q where
  triple := Triple.modify h
  uncut _ _ _ := trivial

theorem call {op : S.Op} {Q : Except ε (S.Ret op) → W.Assertion ℓ}
    (h : ∀ l s, P l s → W.guard s op ∧ ∀ r s', W.act s op r s' → Q (.ok r) l s') : Total P (call op) Q where
  triple := Triple.call h
  uncut _ _ _ _ _ _ _ _ := trivial

/-- The rule for a sequence. -/
theorem bind {R : Except ε α → W.Assertion ℓ} {Q : Except ε β → W.Assertion ℓ} {x : Act S ℓ ε α}
    {f : α → Act S ℓ ε β} (hx : Total P x R) (hf : ∀ a, Total (R (.ok a)) (f a) Q)
    (herr : ∀ e l s, R (.error e) l s → Q (.error e) l s) : Total P (x >>= f) Q where
  triple := hx.triple.bind (fun a => (hf a).triple) herr
  uncut l s hs := by
    refine Prog.uncut_bind (hx.uncut l s hs) (Prog.wp_mono (hx.triple l s hs) ?_)
    rintro ⟨_ | a, l'⟩ s' hr
    · trivial
    · exact (hf a).uncut l' s' hr

/-- The rule for a first part that does not fail. -/
theorem after {R : α → W.Assertion ℓ} {Q : Except ε β → W.Assertion ℓ} {x : Act S ℓ ε α} {f : α → Act S ℓ ε β}
    (hx : Total P x (.onOk R)) (hf : ∀ a, Total (R a) (f a) Q) : Total P (x >>= f) Q :=
  hx.bind hf fun _ _ _ h => h.elim

/-- The rule for a look at the local state. -/
theorem look {Q : Except ε β → W.Assertion ℓ} {f : ℓ → Act S ℓ ε β} (hf : ∀ l₀, Total (P.at l₀) (f l₀) Q) :
    Total P (Act.get >>= f) Q :=
  after (R := P.at) (get fun _ _ hs => ⟨rfl, hs⟩) hf

/-- A fact the precondition implies may be used in the proof. -/
theorem given {x : Act S ℓ ε α} {φ : Prop} (h : ∀ l s, P l s → φ) (hx : φ → Total P x Q) : Total P x Q where
  triple := Triple.given h fun hφ => (hx hφ).triple
  uncut l s hs := (hx (h l s hs)).uncut l s hs

/-- The rule for a first part that keeps an assertion. -/
theorem seq {x : Act S ℓ ε α} {f : α → Act S ℓ ε β} (hx : Total I x fun _ => I) (hf : ∀ a, Total I (f a) fun _ => I) :
    Total I (x >>= f) fun _ => I :=
  hx.bind hf fun _ _ _ h => h

theorem attempt {x : Act S ℓ ε α} {Q' : Except ε' (Except ε α) → W.Assertion ℓ} (hx : Total P x Q)
    (h : ∀ r l s, Q r l s → Q' (.ok r) l s) : Total P (attempt x) Q' where
  triple := hx.triple.attempt h
  uncut l s hs := Prog.uncut_bind (hx.uncut l s hs) (Prog.wp_mono (hx.triple l s hs) fun _ _ _ => trivial)

theorem mapError {f : ε → ε'} {x : Act S ℓ ε α} {Q' : Except ε' α → W.Assertion ℓ} (hx : Total P x Q)
    (h : ∀ r l s, Q r l s → Q' (r.mapError f) l s) : Total P (mapError f x) Q' where
  triple := hx.triple.mapError h
  uncut l s hs := Prog.uncut_bind (hx.uncut l s hs) (Prog.wp_mono (hx.triple l s hs) fun _ _ _ => trivial)

/-- What follows a failure is not run. -/
theorem raise {e : ε} {Q : Except ε β → W.Assertion ℓ} {f : α → Act S ℓ ε β} (h : ∀ l s, P l s → Q (.error e) l s) :
    Total P (Act.throw e >>= f) Q where
  triple l s hs := Triple.throw h l s hs
  uncut _ _ _ := trivial

theorem ite {c : Prop} [Decidable c] {x y : Act S ℓ ε α} (hx : Total P x Q) (hy : Total P y Q) :
    Total P (if c then x else y) Q := by
  split
  · exact hx
  · exact hy

/-- A guard that fails, and what comes after it. -/
theorem orThrow {c : Prop} [Decidable c] {e : ε} {x : Act S ℓ ε α} (h : ∀ l s, P l s → Q (.error e) l s)
    (hx : Total P x Q) : Total P (if c then (Act.throw e : Act S ℓ ε β) >>= fun _ => x else x) Q :=
  ite (raise h) hx

end Total

end Act
