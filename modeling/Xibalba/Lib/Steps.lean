import Mathlib.Data.List.Induction
import Mathlib.Tactic.Common

/-!
# `Lib.Steps` — runs of a system that takes steps

A system says of each event what state it leads to, if it can happen at all; a run takes the events of a list in
order. What every step preserves holds after every run. What held at some moment of a run is `Once`, whatever happens
afterwards.
-/

namespace Steps

variable {σ ε : Type*} {step : σ → ε → Option σ} {s s' : σ} {es : List ε}

/-- Take the events in order. -/
def run (step : σ → ε → Option σ) : σ → List ε → Option σ
  | s, [] => some s
  | s, e :: es => (step s e).bind fun s => run step s es

theorem run_append (es es' : List ε) : run step s (es ++ es') = (run step s es).bind fun s => run step s es' := by
  induction es generalizing s with
  | nil => rfl
  | cons e es ih =>
      cases h : step s e with
      | none => simp [run, h]
      | some s₁ => simp [run, h, ih]

theorem run_concat {e : ε} {s'' : σ} :
    run step s (es ++ [e]) = some s'' ↔ ∃ s', run step s es = some s' ∧ step s' e = some s'' := by
  rw [run_append, Option.bind_eq_some_iff]
  simp [run]

/-- The rule for runs. What is shown may speak of the events so far. -/
theorem run_induction {motive : List ε → σ → Prop} (nil : motive [] s)
    (concat : ∀ es e s' s'', run step s es = some s' → motive es s' → step s' e = some s'' → motive (es ++ [e]) s'')
    (h : run step s es = some s') : motive es s' := by
  induction es using List.reverseRecOn generalizing s' with
  | nil =>
      cases h
      exact nil
  | append_singleton es e ih =>
      obtain ⟨s₁, hrun, hstep⟩ := run_concat.mp h
      exact concat es e s₁ s' hrun (ih hrun) hstep

/-- What every step preserves holds after every run. -/
theorem run_invariant {I : σ → Prop} (hstep : ∀ s e s', I s → step s e = some s' → I s') (hs : I s)
    (h : run step s es = some s') : I s' :=
  run_induction (motive := fun _ s => I s) hs (fun _ e s' s'' _ hI he => hstep s' e s'' hI he) h

/-- At some moment of the run, `P` held. -/
def Once (step : σ → ε → Option σ) (P : σ → Prop) (s : σ) (es : List ε) : Prop :=
  ∃ front back s', es = front ++ back ∧ run step s front = some s' ∧ P s'

theorem Once.now {P : σ → Prop} (h : run step s es = some s') (hP : P s') : Once step P s es :=
  ⟨es, [], s', (List.append_nil es).symm, h, hP⟩

theorem Once.later {P : σ → Prop} (h : Once step P s es) (es' : List ε) : Once step P s (es ++ es') := by
  obtain ⟨front, back, s', rfl, hrun, hP⟩ := h
  exact ⟨front, back ++ es', s', List.append_assoc _ _ _, hrun, hP⟩

/-- What else is known of every moment of the run is known of that moment. -/
theorem Once.imp {P Q : σ → Prop} (h : Once step P s es)
    (hPQ : ∀ front s', run step s front = some s' → P s' → Q s') : Once step Q s es := by
  obtain ⟨front, back, s', hes, hrun, hP⟩ := h
  exact ⟨front, back, s', hes, hrun, hPQ front s' hrun hP⟩

end Steps
