import Xibalba.Lib.Prog

/-!
# `Lib.Wp` — what a program guarantees in a world

A `World` says what the environment may do on its own between two operations of a program (`env`), which
operations the program may perform in a state (`guard`), and what an operation may answer and make of the
state (`act`). `wp W p Q s` holds when the program `p`, started in state `s`, performs only allowed operations
and satisfies `Q` whenever it returns, whatever the environment answers and wherever it interleaves steps of
its own.

Layout:
* `World`, `wp` and its structural rules, simulation between worlds and worlds side by side;
* `Act.wp`, the same for programs with a local state;
* `Reach`, the configurations of a program running in a world, and `wp_sound`;
* `World.Assertion`, what the environment cannot break, and `Act.Triple`, the rules for a program between two;
* worlds without an environment: `World.ghost`, whose state is computed from the events, and `exec_guard`.
-/

/-- What surrounds a program over `S`, with states `σ`. -/
structure World (S : Sig) (σ : Type) where
  /-- What the environment may do on its own, any number of steps of it. -/
  env : σ → σ → Prop
  /-- The operations the program may perform. -/
  guard : σ → S.Op → Prop
  /-- The answers and outcomes of an operation. -/
  act : σ → (op : S.Op) → S.Ret op → σ → Prop
  env_refl : ∀ s, env s s
  env_trans : ∀ {s₁ s₂ s₃}, env s₁ s₂ → env s₂ s₃ → env s₁ s₃

/-- Two worlds side by side: an operation is allowed where both allow it, and has its outcome in both. -/
def World.beside {S : Sig} {σ τ : Type} (W : World S σ) (V : World S τ) : World S (σ × τ) where
  env s s' := W.env s.1 s'.1 ∧ V.env s.2 s'.2
  guard s op := W.guard s.1 op ∧ V.guard s.2 op
  act s op r s' := W.act s.1 op r s'.1 ∧ V.act s.2 op r s'.2
  env_refl s := ⟨W.env_refl s.1, V.env_refl s.2⟩
  env_trans h h' := ⟨W.env_trans h.1 h'.1, V.env_trans h.2 h'.2⟩

namespace Prog

variable {S : Sig} {σ α β : Type} {W : World S σ}

/-- **The weakest precondition** of a program in a world. -/
def wp (W : World S σ) : Prog S α → (α → σ → Prop) → σ → Prop
  | .pure a, Q, s => ∀ s₁, W.env s s₁ → Q a s₁
  | .call op k, Q, s => ∀ s₁, W.env s s₁ →
      W.guard s₁ op ∧ ∀ r s₂, W.act s₁ op r s₂ → wp W (k r) Q s₂
  | .hang, _, _ => True

theorem wp_mono {p : Prog S α} {Q Q' : α → σ → Prop} {s : σ} (h : wp W p Q s)
    (hQ : ∀ a s, Q a s → Q' a s) : wp W p Q' s := by
  induction p generalizing s with
  | pure a =>
      intro s₁ henv
      exact hQ a s₁ (h s₁ henv)
  | call op k ih =>
      intro s₁ henv
      obtain ⟨hg, hk⟩ := h s₁ henv
      exact ⟨hg, fun r s₂ hact => ih r (hk r s₂ hact)⟩
  | hang => trivial

/-- What a program guarantees is not affected by a step of the environment before it. -/
theorem wp_env {p : Prog S α} {Q : α → σ → Prop} {s s' : σ} (h : wp W p Q s) (henv : W.env s s') :
    wp W p Q s' := by
  cases p with
  | pure a =>
      intro s₁ h₁
      exact h s₁ (W.env_trans henv h₁)
  | call op k =>
      intro s₁ h₁
      exact h s₁ (W.env_trans henv h₁)
  | hang => trivial

theorem wp_bind {p : Prog S α} {f : α → Prog S β} {Q : β → σ → Prop} {s : σ} :
    wp W (p.bind f) Q s ↔ wp W p (fun a s => wp W (f a) Q s) s := by
  induction p generalizing s with
  | pure a =>
      constructor
      · intro h s₁ henv
        exact wp_env h henv
      · intro h
        exact h s (W.env_refl s)
  | call op k ih =>
      refine forall_congr' fun s₁ => imp_congr_right fun _ => and_congr_right fun _ => ?_
      exact forall_congr' fun r => forall_congr' fun s₂ => imp_congr_right fun _ => ih r
  | hang => exact Iff.rfl

/-! ## Several worlds -/

section

variable {τ : Type} {V : World S τ} {p : Prog S α} {Q : α → σ → Prop}

/-- **Simulation.** What a program guarantees in one world, it guarantees in another one whose steps the first can follow. -/
theorem wp_simulated {R : σ → τ → Prop} (henv : ∀ s t t', R s t → V.env t t' → ∃ s', W.env s s' ∧ R s' t')
    (hguard : ∀ s t op, R s t → W.guard s op → V.guard t op)
    (hact : ∀ s t op r t', R s t → W.guard s op → V.act t op r t' → ∃ s', W.act s op r s' ∧ R s' t') {s : σ} {t : τ}
    (hR : R s t) (h : wp W p Q s) : wp V p (fun a t => ∃ s, R s t ∧ Q a s) t := by
  induction p generalizing s t with
  | pure a =>
      intro t₁ ht
      obtain ⟨s₁, hs, hR⟩ := henv s t t₁ hR ht
      exact ⟨s₁, hR, h s₁ hs⟩
  | call op k ih =>
      intro t₁ ht
      obtain ⟨s₁, hs, hR⟩ := henv s t t₁ hR ht
      obtain ⟨hg, hk⟩ := h s₁ hs
      refine ⟨hguard s₁ t₁ op hR hg, fun r t₂ ha => ?_⟩
      obtain ⟨s₂, ha, hR⟩ := hact s₁ t₁ op r t₂ hR hg ha
      exact ih r hR (hk r s₂ ha)
  | hang => trivial

/-- What a program guarantees in two worlds, it guarantees where both go on side by side. -/
theorem wp_beside {P : α → τ → Prop} {s : σ} {t : τ} (h : wp W p Q s) (h' : wp V p P t) :
    wp (W.beside V) p (fun a st => Q a st.1 ∧ P a st.2) (s, t) := by
  induction p generalizing s t with
  | pure a => exact fun st henv => ⟨h st.1 henv.1, h' st.2 henv.2⟩
  | call op k ih =>
      intro st henv
      obtain ⟨hg, hk⟩ := h st.1 henv.1
      obtain ⟨hg', hk'⟩ := h' st.2 henv.2
      exact ⟨⟨hg, hg'⟩, fun r st' hact => ih r (hk r st'.1 hact.1) (hk' r st'.2 hact.2)⟩
  | hang => trivial

end

/-! ## Soundness -/

/-- The configurations a program can reach in a world: its own operations and the environment's steps, in
    any order. -/
inductive Reach (W : World S σ) : Prog S α → σ → Prog S α → σ → Prop where
  | refl (p : Prog S α) (s : σ) : Reach W p s p s
  | env {p p' : Prog S α} {s s' s'' : σ} : Reach W p s p' s' → W.env s' s'' → Reach W p s p' s''
  | act {p : Prog S α} {s s' s'' : σ} {op : S.Op} {k : S.Ret op → Prog S α} {r : S.Ret op} :
      Reach W p s (.call op k) s' → W.act s' op r s'' → Reach W p s (k r) s''

theorem wp_reach {p p' : Prog S α} {Q : α → σ → Prop} {s s' : σ} (h : wp W p Q s)
    (hr : Reach W p s p' s') : wp W p' Q s' := by
  induction hr with
  | refl => exact h
  | env _ henv ih => exact wp_env (ih h) henv
  | act _ hact ih => exact (ih h _ (W.env_refl _)).2 _ _ hact

/-- **Soundness.** No reachable configuration is about to perform an operation that is not allowed. -/
theorem wp_sound {p : Prog S α} {Q : α → σ → Prop} {s s' : σ} (h : wp W p Q s) {op : S.Op}
    {k : S.Ret op → Prog S α} (hr : Reach W p s (.call op k) s') : W.guard s' op :=
  (wp_reach h hr s' (W.env_refl s')).1

theorem wp_result {p : Prog S α} {Q : α → σ → Prop} {s s' : σ} (h : wp W p Q s) {a : α}
    (hr : Reach W p s (.pure a) s') : Q a s' :=
  wp_reach h hr s' (W.env_refl s')

/-- A program that has returned does nothing more. -/
theorem reach_pure {p : Prog S α} {s s' : σ} {a : α} (hr : Reach W (.pure a) s p s') : p = .pure a ∧ W.env s s' := by
  induction hr with
  | refl => exact ⟨rfl, W.env_refl _⟩
  | env _ henv ih => exact ⟨ih.1, W.env_trans ih.2 henv⟩
  | act _ _ ih => cases ih.1

/-- What the environment and the allowed operations preserve holds in every reachable state. -/
theorem reach_invariant {p p' : Prog S α} {Q : α → σ → Prop} {s s' : σ} {I : σ → Prop} (h : wp W p Q s)
    (hr : Reach W p s p' s') (hs : I s) (henv : ∀ {s s'}, W.env s s' → I s → I s')
    (hact : ∀ {s s'} op r, W.guard s op → W.act s op r s' → I s → I s') : I s' := by
  induction hr with
  | refl => exact hs
  | env _ he ih => exact henv he (ih h hs)
  | act hr ha ih => exact hact _ _ (wp_sound h hr) ha (ih h hs)

/-! ### Runs in several worlds -/

section

variable {τ : Type} {V : World S τ} {p p' : Prog S α} {s s' : σ}

/-- A run in two worlds is one in the first. -/
theorem reach_left {t t' : τ} (hr : Reach (W.beside V) p (s, t) p' (s', t')) : Reach W p s p' s' := by
  have hfrom : ∀ {q : Prog S α} {st st'}, Reach (W.beside V) p st q st' → Reach W p st.1 q st'.1 := by
    intro q st st' h
    induction h with
    | refl => exact .refl _ _
    | env _ henv ih => exact .env ih henv.1
    | act _ hact ih => exact .act ih hact.1
  exact hfrom hr

/-- A run in one world is one in two, if the other follows every operation of the run. -/
theorem reach_beside (hr : Reach W p s p' s')
    (hact : ∀ {op : S.Op} {k : S.Ret op → Prog S α} {s₁ s₂ : σ} {r : S.Ret op}, Reach W p s (.call op k) s₁ →
      W.act s₁ op r s₂ → ∀ t, ∃ t', V.act t op r t') (t : τ) : ∃ t', Reach (W.beside V) p (s, t) p' (s', t') := by
  induction hr with
  | refl => exact ⟨t, .refl _ _⟩
  | env _ henv ih =>
      obtain ⟨t', hr⟩ := ih hact
      exact ⟨t', .env hr ⟨henv, V.env_refl t'⟩⟩
  | act hr ha ih =>
      obtain ⟨t₁, hr₁⟩ := ih hact
      obtain ⟨t₂, ht⟩ := hact hr ha t₁
      exact ⟨t₂, .act hr₁ ⟨ha, ht⟩⟩

end

/-! ### Schedules -/

section

variable {ρ A : Type} (choose : ρ → σ → (op : S.Op) → S.Ret op × ρ) (act : σ → (op : S.Op) → S.Ret op → Option σ)
  (env : σ → A → Option σ)

/-- Run a schedule: `some a` is a step `a` of the environment, `none` the program's next operation, which answers
    what `choose` says. -/
def drive : List (Option A) → ρ → Prog S α → σ → Option (Prog S α × σ)
  | [], _, p, s => some (p, s)
  | some a :: moves, st, p, s => (env s a).bind fun s => drive moves st p s
  | none :: moves, st, .call op k, s =>
    let (r, st) := choose st s op
    (act s op r).bind fun s => drive moves st (k r) s
  | none :: _, _, _, _ => none

variable {choose act env}

theorem reach_drive (hact : ∀ s op r s', act s op r = some s' → W.act s op r s')
    (henv : ∀ s a s', env s a = some s' → W.env s s') {moves : List (Option A)} {st : ρ} {p₀ p p' : Prog S α}
    {s₀ s s' : σ} (h : drive choose act env moves st p s = some (p', s')) (hr : Reach W p₀ s₀ p s) :
    Reach W p₀ s₀ p' s' := by
  induction moves generalizing st p s with
  | nil =>
      cases h
      exact hr
  | cons move moves ih =>
      cases move with
      | some a =>
          obtain ⟨s₁, hs₁, h⟩ := Option.bind_eq_some_iff.mp h
          exact ih h (.env hr (henv _ _ _ hs₁))
      | none =>
          cases p with
          | call op k =>
              obtain ⟨s₁, hs₁, h⟩ := Option.bind_eq_some_iff.mp h
              exact ih h (.act hr (hact _ _ _ _ hs₁))
          | pure a => cases h
          | hang => cases h

/-- A schedule at whose end the program has returned. -/
theorem reach_result (hact : ∀ s op r s', act s op r = some s' → W.act s op r s')
    (henv : ∀ s a s', env s a = some s' → W.env s s') {moves : List (Option A)} {st : ρ} {p : Prog S α} {s : σ} {a : α}
    {P : σ → Prop} [DecidablePred P]
    (h : ((drive choose act env moves st p s).bind fun c => if P c.2 then c.1.result? else none) = some a) :
    ∃ s', Reach W p s (.pure a) s' ∧ P s' := by
  obtain ⟨⟨q, s'⟩, hdrive, h⟩ := Option.bind_eq_some_iff.mp h
  have hr := reach_drive hact henv hdrive (.refl p s)
  dsimp only at h
  split at h
  next hP =>
    cases q with
    | pure b =>
        cases h
        exact ⟨s', hr, hP⟩
    | call op k => cases h
    | hang => cases h
  next => cases h

/-- The same when the answer and the state after it are chosen together. -/
def enact (respond : σ → (op : S.Op) → Option (S.Ret op × σ)) (env : σ → A → Option σ) :
    List (Option A) → Prog S α → σ → Option (Prog S α × σ)
  | [], p, s => some (p, s)
  | some a :: moves, p, s => (env s a).bind fun s => enact respond env moves p s
  | none :: moves, .call op k, s => (respond s op).bind fun r => enact respond env moves (k r.1) r.2
  | none :: _, _, _ => none

theorem reach_enact {respond : σ → (op : S.Op) → Option (S.Ret op × σ)}
    (hact : ∀ s op r s', respond s op = some (r, s') → W.act s op r s')
    (henv : ∀ s a s', env s a = some s' → W.env s s') {moves : List (Option A)} {p₀ p p' : Prog S α} {s₀ s s' : σ}
    (h : enact respond env moves p s = some (p', s')) (hr : Reach W p₀ s₀ p s) : Reach W p₀ s₀ p' s' := by
  induction moves generalizing p s with
  | nil =>
      cases h
      exact hr
  | cons move moves ih =>
      cases move with
      | some a =>
          obtain ⟨s₁, hs₁, h⟩ := Option.bind_eq_some_iff.mp h
          exact ih h (.env hr (henv _ _ _ hs₁))
      | none =>
          cases p with
          | call op k =>
              obtain ⟨⟨r, s₁⟩, hs₁, h⟩ := Option.bind_eq_some_iff.mp h
              exact ih h (.act hr (hact _ _ _ _ hs₁))
          | pure a => cases h
          | hang => cases h

end

end Prog

/-! ## Programs with a local state -/

namespace Act

variable {S : Sig} {σ ℓ ε ε' α β : Type} {W : World S σ} {Q : Except ε α → ℓ → σ → Prop} {l : ℓ} {s : σ}

/-- The weakest precondition of a program with a local state; `Q` sees the result and the state. -/
def wp (W : World S σ) (x : Act S ℓ ε α) (Q : Except ε α → ℓ → σ → Prop) (l : ℓ) (s : σ) : Prop :=
  Prog.wp W (x l) (fun p s => Q p.1 p.2 s) s

theorem wp_mono {x : Act S ℓ ε α} {Q' : Except ε α → ℓ → σ → Prop} (h : wp W x Q l s)
    (hQ : ∀ r l s, Q r l s → Q' r l s) : wp W x Q' l s :=
  Prog.wp_mono h fun p s hp => hQ p.1 p.2 s hp

/-- `Q` holds now and after any steps of the environment. -/
def Stays (W : World S σ) (P : σ → Prop) (s : σ) : Prop := ∀ s₁, W.env s s₁ → P s₁

/-- What is left to show after the first part of a sequence. -/
def Cont (W : World S σ) (f : α → Act S ℓ ε β) (Q : Except ε β → ℓ → σ → Prop) :
    Except ε α → ℓ → σ → Prop
  | .ok a, l, s => wp W (f a) Q l s
  | .error e, l, s => Stays W (Q (.error e) l) s

@[simp] theorem cont_ok {f : α → Act S ℓ ε β} {Q : Except ε β → ℓ → σ → Prop} {a : α} :
    Cont W f Q (.ok a) l s ↔ wp W (f a) Q l s := Iff.rfl

@[simp] theorem cont_error {f : α → Act S ℓ ε β} {Q : Except ε β → ℓ → σ → Prop} {e : ε} :
    Cont W f Q (.error e) l s ↔ Stays W (Q (.error e) l) s := Iff.rfl

theorem wp_bind {x : Act S ℓ ε α} {f : α → Act S ℓ ε β} {Q : Except ε β → ℓ → σ → Prop} :
    wp W (x >>= f) Q l s ↔ wp W x (Cont W f Q) l s := by
  refine Prog.wp_bind.trans ⟨fun h => ?_, fun h => ?_⟩
  · refine Prog.wp_mono h ?_
    rintro ⟨_ | a, l'⟩ s' h' <;> exact h'
  · refine Prog.wp_mono h ?_
    rintro ⟨_ | a, l'⟩ s' h' <;> exact h'

theorem wp_pure {a : α} : wp W (pure a : Act S ℓ ε α) Q l s ↔ Stays W (Q (.ok a) l) s := Iff.rfl

theorem wp_throw {e : ε} : wp W (throw e : Act S ℓ ε α) Q l s ↔ Stays W (Q (.error e) l) s := Iff.rfl

theorem wp_get {Q : Except ε ℓ → ℓ → σ → Prop} :
    wp W (get : Act S ℓ ε ℓ) Q l s ↔ Stays W (Q (.ok l) l) s := Iff.rfl

theorem wp_modify {f : ℓ → ℓ} {Q : Except ε Unit → ℓ → σ → Prop} :
    wp W (modify f : Act S ℓ ε Unit) Q l s ↔ Stays W (Q (.ok ()) (f l)) s := Iff.rfl

theorem wp_ofExcept {r : Except ε α} : wp W (ofExcept r : Act S ℓ ε α) Q l s ↔ Stays W (Q r l) s :=
  Iff.rfl

theorem wp_hang : wp W (hang : Act S ℓ ε α) Q l s := trivial

theorem wp_call {op : S.Op} {Q : Except ε (S.Ret op) → ℓ → σ → Prop} :
    wp W (call op : Act S ℓ ε (S.Ret op)) Q l s ↔ ∀ s₁, W.env s s₁ →
      W.guard s₁ op ∧ ∀ r s₂, W.act s₁ op r s₂ → Stays W (Q (.ok r) l) s₂ := Iff.rfl

theorem wp_attempt {x : Act S ℓ ε α} {Q : Except ε' (Except ε α) → ℓ → σ → Prop} :
    wp W (attempt x : Act S ℓ ε' (Except ε α)) Q l s ↔ wp W x (fun r l s => Stays W (Q (.ok r) l) s) l s :=
  Prog.wp_bind

theorem wp_mapError {f : ε → ε'} {x : Act S ℓ ε α} {Q : Except ε' α → ℓ → σ → Prop} :
    wp W (mapError f x) Q l s ↔ wp W x (fun r l s => Stays W (Q (r.mapError f) l) s) l s :=
  Prog.wp_bind

/-- A program that cannot fail, used where one that may is expected. -/
theorem wp_infallible {x : Act S ℓ Empty α} :
    wp W (infallible x : Act S ℓ ε α) Q l s ↔
      wp W x (fun r l s => Stays W (Q (r.mapError fun e => nomatch e) l) s) l s :=
  wp_mapError

attribute [simp] wp_bind wp_pure wp_throw wp_get wp_modify wp_ofExcept wp_hang wp_attempt wp_mapError

end Act

/-! ## Assertions and triples -/

/-- A relation between a program's local state and the world's that the environment cannot break. -/
structure World.Assertion {S : Sig} {σ : Type} (W : World S σ) (ℓ : Type) where
  holds : ℓ → σ → Prop
  stable : ∀ {l s s'}, W.env s s' → holds l s → holds l s'

/-- What is required of a result that is not a failure; there is no failure. -/
def World.Assertion.onOk {S : Sig} {σ ℓ ε α : Type} {W : World S σ} (R : α → W.Assertion ℓ) :
    Except ε α → W.Assertion ℓ
  | .ok a => R a
  | .error _ => ⟨fun _ _ => False, fun _ h => h⟩

/-- The assertion, with the local state known. -/
def World.Assertion.at {S : Sig} {σ ℓ : Type} {W : World S σ} (P : W.Assertion ℓ) (l₀ : ℓ) : W.Assertion ℓ where
  holds l s := l = l₀ ∧ P.holds l s
  stable henv h := ⟨h.1, P.stable henv h.2⟩

namespace Act

variable {S : Sig} {σ ℓ ε ε' α β : Type} {W : World S σ}

instance : CoeFun (W.Assertion ℓ) fun _ => ℓ → σ → Prop := ⟨World.Assertion.holds⟩

/-- Started where `P` holds, the program performs only allowed operations and ends where `Q` holds of its result. -/
def Triple (P : W.Assertion ℓ) (x : Act S ℓ ε α) (Q : Except ε α → W.Assertion ℓ) : Prop :=
  ∀ l s, P l s → wp W x (fun r l' s' => Q r l' s') l s

/-- The same for a program that does not fail. -/
abbrev Sure (P : W.Assertion ℓ) (x : Act S ℓ ε α) (R : α → W.Assertion ℓ) : Prop := Triple P x (.onOk R)

/-- A program that keeps `I`, however it ends. -/
abbrev Keeps (I : W.Assertion ℓ) (x : Act S ℓ ε α) : Prop := Triple I x fun _ => I

namespace Triple

variable {P P' I : W.Assertion ℓ} {Q Q' : Except ε α → W.Assertion ℓ}

theorem conseq {x : Act S ℓ ε α} (h : Triple P x Q) (hP : ∀ l s, P' l s → P l s) (hQ : ∀ r l s, Q r l s → Q' r l s) :
    Triple P' x Q' :=
  fun l s hs => wp_mono (h l s (hP l s hs)) hQ

theorem pure {a : α} (h : ∀ l s, P l s → Q (.ok a) l s) : Triple P (pure a) Q :=
  fun l _ hs s₁ henv => h l s₁ (P.stable henv hs)

theorem throw {e : ε} (h : ∀ l s, P l s → Q (.error e) l s) : Triple P (throw e) Q :=
  fun l _ hs s₁ henv => h l s₁ (P.stable henv hs)

theorem ofExcept {r : Except ε α} (h : ∀ l s, P l s → Q r l s) : Triple P (ofExcept r) Q :=
  fun l _ hs s₁ henv => h l s₁ (P.stable henv hs)

theorem hang : Triple P (hang : Act S ℓ ε α) Q := fun _ _ _ => wp_hang

theorem get {Q : Except ε ℓ → W.Assertion ℓ} (h : ∀ l s, P l s → Q (.ok l) l s) : Triple P get Q :=
  fun l _ hs s₁ henv => h l s₁ (P.stable henv hs)

theorem modify {f : ℓ → ℓ} {Q : Except ε Unit → W.Assertion ℓ} (h : ∀ l s, P l s → Q (.ok ()) (f l) s) :
    Triple P (modify f) Q :=
  fun l _ hs s₁ henv => h l s₁ (P.stable henv hs)

theorem call {op : S.Op} {Q : Except ε (S.Ret op) → W.Assertion ℓ}
    (h : ∀ l s, P l s → W.guard s op ∧ ∀ r s', W.act s op r s' → Q (.ok r) l s') : Triple P (call op) Q := by
  intro l s hs s₁ henv
  obtain ⟨hguard, hact⟩ := h l s₁ (P.stable henv hs)
  exact ⟨hguard, fun r s₂ ha s₃ henv' => (Q (.ok r)).stable henv' (hact r s₂ ha)⟩

theorem bind {R : Except ε α → W.Assertion ℓ} {Q : Except ε β → W.Assertion ℓ} {x : Act S ℓ ε α}
    {f : α → Act S ℓ ε β} (hx : Triple P x R) (hf : ∀ a, Triple (R (.ok a)) (f a) Q)
    (herr : ∀ e l s, R (.error e) l s → Q (.error e) l s) : Triple P (x >>= f) Q := by
  intro l s hs
  refine wp_bind.mpr (wp_mono (hx l s hs) ?_)
  rintro (e | a) l' s' hr
  · exact fun s₁ henv => (Q (.error e)).stable henv (herr e l' s' hr)
  · exact hf a l' s' hr

/-- The rule for a first part that does not fail. -/
theorem after {R : α → W.Assertion ℓ} {Q : Except ε β → W.Assertion ℓ} {x : Act S ℓ ε α} {f : α → Act S ℓ ε β}
    (hx : Sure P x R) (hf : ∀ a, Triple (R a) (f a) Q) : Triple P (x >>= f) Q :=
  hx.bind hf fun _ _ _ h => h.elim

/-- The rule for a look at the local state. -/
theorem look {Q : Except ε β → W.Assertion ℓ} {f : ℓ → Act S ℓ ε β} (hf : ∀ l₀, Triple (P.at l₀) (f l₀) Q) :
    Triple P (Act.get >>= f) Q :=
  after (R := P.at) (get fun _ _ hs => ⟨rfl, hs⟩) hf

/-- What the assertion says once and for all may be used. -/
theorem given {x : Act S ℓ ε α} {φ : Prop} (h : ∀ l s, P l s → φ) (hx : φ → Triple P x Q) : Triple P x Q :=
  fun l s hs => hx (h l s hs) l s hs

/-- The rule for a first part that keeps an assertion. -/
theorem seq {x : Act S ℓ ε α} {f : α → Act S ℓ ε β} (hx : Keeps I x) (hf : ∀ a, Keeps I (f a)) : Keeps I (x >>= f) :=
  hx.bind hf fun _ _ _ h => h

theorem keeps {x : Act S ℓ ε α} (hx : Sure I x fun _ => I) : Keeps I x := by
  refine conseq hx (fun _ _ h => h) fun r l s h => ?_
  cases r with
  | ok a => exact h
  | error e => exact h.elim

theorem attempt {x : Act S ℓ ε α} {Q' : Except ε' (Except ε α) → W.Assertion ℓ} (hx : Triple P x Q)
    (h : ∀ r l s, Q r l s → Q' (.ok r) l s) : Triple P (attempt x) Q' := by
  intro l s hs
  refine wp_attempt.mpr (wp_mono (hx l s hs) ?_)
  intro r l' s' hr s₁ henv
  exact (Q' (.ok r)).stable henv (h r l' s' hr)

theorem mapError {f : ε → ε'} {x : Act S ℓ ε α} {Q' : Except ε' α → W.Assertion ℓ} (hx : Triple P x Q)
    (h : ∀ r l s, Q r l s → Q' (r.mapError f) l s) : Triple P (mapError f x) Q' := by
  intro l s hs
  refine wp_mapError.mpr (wp_mono (hx l s hs) ?_)
  intro r l' s' hr s₁ henv
  exact (Q' (r.mapError f)).stable henv (h r l' s' hr)

theorem ite {c : Prop} [Decidable c] {x y : Act S ℓ ε α} (hx : Triple P x Q) (hy : Triple P y Q) :
    Triple P (if c then x else y) Q := by
  split
  · exact hx
  · exact hy

end Triple

end Act

/-! ## Ghost worlds -/

/-- A world without an environment of its own, whose state is computed from the events: every answer is
    possible, and `next` says what an event makes of the state. -/
def World.ghost {S : Sig} {σ : Type} (guard : σ → S.Op → Prop)
    (next : σ → (op : S.Op) → S.Ret op → σ) : World S σ where
  env := Eq
  guard := guard
  act s op r s' := s' = next s op r
  env_refl _ := rfl
  env_trans h₁ h₂ := h₁.trans h₂

namespace Prog

variable {S : Sig} {σ α : Type} {guard : σ → S.Op → Prop} {next : σ → (op : S.Op) → S.Ret op → σ}

@[simp] theorem wp_ghost_pure {a : α} {Q : α → σ → Prop} {s : σ} :
    wp (World.ghost guard next) (.pure a) Q s ↔ Q a s := by
  simp [wp, World.ghost]

@[simp] theorem wp_ghost_call {op : S.Op} {k : S.Ret op → Prog S α} {Q : α → σ → Prop} {s : σ} :
    wp (World.ghost guard next) (.call op k) Q s ↔
      guard s op ∧ ∀ r, wp (World.ghost guard next) (k r) Q (next s op r) := by
  simp [wp, World.ghost]

/-- The ghost state after some events. -/
def after (next : σ → (op : S.Op) → S.Ret op → σ) (s : σ) (tr : List (Event S)) : σ :=
  tr.foldl (fun s e => next s e.op e.ret) s

theorem wp_exec {p p' : Prog S α} {Q : α → σ → Prop} {s : σ} {tr : List (Event S)}
    (h : wp (World.ghost guard next) p Q s) (he : Exec p tr p') :
    wp (World.ghost guard next) p' Q (after next s tr) := by
  induction he generalizing s with
  | refl p => exact h
  | call r _ ih => exact ih ((wp_ghost_call.mp h).2 r)

/-- **Soundness for ghost worlds.** Every event of every execution was allowed in the ghost state of the
    events before it. -/
theorem exec_guard {p p' : Prog S α} {Q : α → σ → Prop} {s : σ} {pre post : List (Event S)}
    {e : Event S} (h : wp (World.ghost guard next) p Q s) (he : Exec p (pre ++ e :: post) p') :
    guard (after next s pre) e.op := by
  induction pre generalizing p s with
  | nil =>
      cases he with
      | call r _ => exact (wp_ghost_call.mp h).1
  | cons e₀ pre ih =>
      cases he with
      | call r he => exact ih ((wp_ghost_call.mp h).2 r) he

/-- What the allowed operations preserve holds after every execution. -/
theorem exec_invariant {p p' : Prog S α} {Q : α → σ → Prop} {s : σ} {tr : List (Event S)} {I : σ → Prop}
    (h : wp (World.ghost guard next) p Q s) (he : Exec p tr p') (hs : I s)
    (hstep : ∀ s op r, guard s op → I s → I (next s op r)) : I (after next s tr) := by
  induction he generalizing s with
  | refl p => exact hs
  | call r _ ih =>
      obtain ⟨hg, hk⟩ := wp_ghost_call.mp h
      exact ih (hk r) (hstep _ _ r hg hs)

theorem exec_result {p : Prog S α} {Q : α → σ → Prop} {s : σ} {tr : List (Event S)} {a : α}
    (h : wp (World.ghost guard next) p Q s) (he : Exec p tr (.pure a)) : Q a (after next s tr) :=
  wp_ghost_pure.mp (wp_exec h he)

/-! ### A ghost beside another world -/

section

variable {W : World S σ} {p p' : Prog S α} {Q : α → σ → Prop}

/-- **Two monitors.** What holds at the start and is preserved by the operations that a ghost and a world whose states it
    computes both allow, holds in every reachable state. -/
theorem reach_monitored {P : α → σ → Prop} {s s' : σ} {I : σ → Prop}
    (henv : ∀ s s', W.env s s' → s = s') (hact : ∀ s op r s', W.act s op r s' → s' = next s op r)
    (h : wp (World.ghost guard next) p Q s) (h' : wp W p P s) (hr : Reach W p s p' s') (hs : I s)
    (hstep : ∀ s op r s', W.guard s op → guard s op → W.act s op r s' → I s → I s') : I s' := by
  have hghost : wp (World.ghost guard next) p' Q s' ∧ I s' := by
    induction hr with
    | refl => exact ⟨h, hs⟩
    | env _ he ih => exact henv _ _ he ▸ ih h h' hs
    | act hr ha ih =>
        obtain ⟨hg, hI⟩ := ih h h' hs
        obtain ⟨hguard, hk⟩ := wp_ghost_call.mp hg
        refine ⟨?_, hstep _ _ _ _ (wp_sound h' hr) hguard ha hI⟩
        rw [hact _ _ _ _ ha]
        exact hk _
  exact hghost.2

end

end Prog

namespace Act

variable {S : Sig} {σ ℓ ε α : Type} {guard : σ → S.Op → Prop} {next : σ → (op : S.Op) → S.Ret op → σ}
  {l : ℓ} {s : σ}

@[simp] theorem stays_ghost {P : σ → Prop} : Stays (World.ghost guard next) P s ↔ P s := by
  simp [Stays, World.ghost]

theorem wp_ghost_call {op : S.Op} {Q : Except ε (S.Ret op) → ℓ → σ → Prop} :
    wp (World.ghost guard next) (call op : Act S ℓ ε (S.Ret op)) Q l s ↔
      guard s op ∧ ∀ r, Q (.ok r) l (next s op r) := by
  rw [wp_call]
  simp [World.ghost, Stays]

end Act
