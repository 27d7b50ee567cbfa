import Xibalba.Lib.Eval
import Xibalba.Lib.Wp

/-!
# `Lib.Stall` — where a program is cut off

The weakest precondition says nothing of a program that hangs. `Stalls` does: what holds wherever the program is cut
off. A program with a loop of `n` turns that is cut off only after `n` of some event is, run with more turns than there
are such events, not cut off at all.
-/

namespace Prog

variable {S : Sig} {σ α β : Type} {guard : σ → S.Op → Prop} {next : σ → (op : S.Op) → S.Ret op → σ} {H : σ → Prop} {s : σ}

/-- Wherever the program, started in `s`, is cut off, `H` holds of the state that the events have led to. -/
def Stalls (next : σ → (op : S.Op) → S.Ret op → σ) (H : σ → Prop) (p : Prog S α) (s : σ) : Prop :=
  ∀ tr, Exec p tr .hang → H (after next s tr)

theorem stalls_pure (a : α) : Stalls next H (.pure a : Prog S α) s := by
  intro tr h
  cases h

theorem stalls_hang (h : H s) : Stalls next H (.hang : Prog S α) s := by
  intro tr hexec
  cases hexec
  exact h

theorem stalls_call {op : S.Op} {k : S.Ret op → Prog S α} (h : ∀ r, Stalls next H (k r) (next s op r)) :
    Stalls next H (.call op k) s := by
  intro tr hexec
  cases hexec with
  | call r hexec => exact h r _ hexec

/-- A sequence is cut off in its first part, or in what follows a result of it. -/
theorem stalls_bind {p : Prog S α} {f : α → Prog S β} (hp : Stalls next H p s)
    (hf : wp (World.ghost guard next) p (fun a s => Stalls next H (f a) s) s) : Stalls next H (p.bind f) s := by
  induction p generalizing s with
  | pure a => exact wp_ghost_pure.mp hf
  | call op k ih =>
      refine stalls_call fun r => ih r (fun tr hexec => ?_) ((wp_ghost_call.mp hf).2 r)
      exact hp _ (.call r hexec)
  | hang => exact stalls_hang (hp [] (.refl _))

/-- What holds of everything holds of a result. -/
theorem wp_any {p : Prog S α} {Q : α → σ → Prop} (h : ∀ a s, Q a s) :
    wp (World.ghost (fun _ _ => True) next) p Q s := by
  induction p generalizing s with
  | pure a => exact wp_ghost_pure.mpr (h a s)
  | call op k ih => exact wp_ghost_call.mpr ⟨trivial, fun r => ih r⟩
  | hang => trivial

/-- A program whose operations are allowed and leave the state alone, as far as its executions tell. -/
theorem wp_of_exec {p : Prog S α} (h : ∀ tr q op, Exec p tr q → q.next? = some op → guard s op ∧ ∀ r, next s op r = s) :
    wp (World.ghost guard next) p (fun _ s' => s' = s) s := by
  induction p with
  | pure a => exact wp_ghost_pure.mpr rfl
  | call op k ih =>
      obtain ⟨hguard, hnext⟩ := h [] _ op (.refl _) rfl
      refine wp_ghost_call.mpr ⟨hguard, fun r => ?_⟩
      rw [hnext r]
      exact ih r fun tr q op' hexec => h _ q op' (.call r hexec)
  | hang => trivial

/-- Executions compose. -/
theorem exec_trans {p q r : Prog S α} {tr tr' : List (Event S)} (h : Exec p tr q) (h' : Exec q tr' r) :
    Exec p (tr ++ tr') r := by
  induction h with
  | refl p => exact h'
  | call a _ ih => exact .call a (ih h')

/-- An environment that answers by a function runs a program to a result or to where it is cut off. -/
theorem eval_or_stalls {ρ : Type} (env : Env S ρ) (p : Prog S α) (st : ρ) :
    (∃ a st', eval env p st = some (a, st')) ∨ ∃ tr, Exec p tr .hang := by
  induction p generalizing st with
  | pure a => exact .inl ⟨a, st, rfl⟩
  | call op k ih =>
      rcases ih (env st op).1 (env st op).2 with h | ⟨tr, h⟩
      · exact .inl h
      · exact .inr ⟨_, .call _ h⟩
  | hang => exact .inr ⟨[], .refl _⟩

end Prog

namespace Act

variable {S : Sig} {σ ℓ ε ε' α β : Type} {guard : σ → S.Op → Prop} {next : σ → (op : S.Op) → S.Ret op → σ}
  {H : σ → Prop} {l : ℓ} {s : σ}

/-- The same for a program with a local state. -/
def Stalls (next : σ → (op : S.Op) → S.Ret op → σ) (H : σ → Prop) (x : Act S ℓ ε α) (l : ℓ) (s : σ) : Prop :=
  Prog.Stalls next H (x l) s

theorem stalls_pure (a : α) : Stalls next H (pure a : Act S ℓ ε α) l s := Prog.stalls_pure _

theorem stalls_throw (e : ε) : Stalls next H (throw e : Act S ℓ ε α) l s := Prog.stalls_pure _

theorem stalls_ofExcept (r : Except ε α) : Stalls next H (ofExcept r : Act S ℓ ε α) l s := Prog.stalls_pure _

theorem stalls_hang (h : H s) : Stalls next H (hang : Act S ℓ ε α) l s := Prog.stalls_hang h

theorem stalls_call {op : S.Op} : Stalls next H (call op : Act S ℓ ε (S.Ret op)) l s :=
  Prog.stalls_call fun _ => Prog.stalls_pure _

/-- What is left to show after the first part of a sequence. -/
def StallsThen (next : σ → (op : S.Op) → S.Ret op → σ) (H : σ → Prop) (f : α → Act S ℓ ε β) :
    Except ε α → ℓ → σ → Prop
  | .ok a, l, s => Stalls next H (f a) l s
  | .error _, _, _ => True

/-- A sequence stalls where its first part does, or where its second does behind it. -/
theorem stalls_bind {x : Act S ℓ ε α} {f : α → Act S ℓ ε β} (hx : Stalls next H x l s)
    (hf : wp (World.ghost guard next) x (StallsThen next H f) l s) : Stalls next H (x >>= f) l s := by
  refine Prog.stalls_bind hx (Prog.wp_mono hf ?_)
  rintro ⟨_ | a, l'⟩ s' h
  · exact Prog.stalls_pure _
  · exact h

/-- The rule for a first part that what follows does not depend on. -/
theorem stalls_bind_any {x : Act S ℓ ε α} {f : α → Act S ℓ ε β} (hx : Stalls next H x l s)
    (hf : ∀ a l s, Stalls next H (f a) l s) : Stalls next H (x >>= f) l s := by
  refine stalls_bind hx (Prog.wp_any ?_)
  rintro ⟨_ | a, l'⟩ s'
  · trivial
  · exact hf a l' s'

/-- A weaker condition on where the program may stall. -/
theorem Stalls.mono {H' : σ → Prop} {x : Act S ℓ ε α} (h : Stalls next H x l s) (hH : ∀ s, H s → H' s) :
    Stalls next H' x l s :=
  fun tr hexec => hH _ (h tr hexec)

theorem stalls_attempt {x : Act S ℓ ε α} (hx : Stalls next H x l s) :
    Stalls next H (attempt x : Act S ℓ ε' (Except ε α)) l s := by
  exact Prog.stalls_bind hx (Prog.wp_any fun _ _ => Prog.stalls_pure _)

end Act
