import Xibalba.Client.Admission
import Xibalba.Lib.Steps

/-!
# `Client.Correctness.Admission` — the counter counts the live permits

A call of `try_admit` compares and exchanges a value of the counter that may be long out of date. The exchange succeeds
only if the counter has that value again, and then there is room for one more; and the value a call is refused for was
the counter's while the call was in progress.
-/

namespace Xibalba

namespace Admission

/-! ## What a step does -/

/-- What a call makes of where it stands and of the counter. -/
inductive Moves (s : Admission) : TryAdmit → TryAdmit → UInt64 → Prop where
  | load : Moves s .entered (.looping s.outstanding) s.outstanding
  | full {current : UInt64} (h : s.max ≤ current) : Moves s (.looping current) .refused s.outstanding
  | room {current : UInt64} (h : current < s.max) : Moves s (.looping current) (.exchanging current) s.outstanding
  | taken : Moves s (.exchanging s.outstanding) .admitted (s.outstanding + 1)
  | retried {current : UInt64} : Moves s (.exchanging current) (.looping s.outstanding) s.outstanding
  | dropped : Moves s .admitted .released (s.outstanding - 1)

/-- A step begins a call, or is a move of one call. -/
theorem step_cases {s s' : Admission} {e : Atomic} (h : s.step e = some s') :
    s' = { s with calls := s.calls ++ [.entered] } ∨
      ∃ i c c' value, s.calls[i]? = some c ∧ Moves s c c' value ∧
        s' = { s.goOn i c' with outstanding := value } := by
  cases e with
  | call => exact .inl (Option.some.inj h).symm
  | load i =>
      simp only [step] at h
      split at h
      next hi => exact .inr ⟨i, _, _, _, hi, .load, (Option.some.inj h).symm⟩
      next => cases h
  | compare i =>
      simp only [step] at h
      split at h
      next current hi =>
        cases h
        by_cases hfull : s.max ≤ current
        · exact .inr ⟨i, _, _, _, hi, .full hfull, by rw [if_pos hfull]; rfl⟩
        · exact .inr ⟨i, _, _, _, hi, .room (UInt64.not_le.mp hfull), by rw [if_neg hfull]; rfl⟩
      next => cases h
  | exchange i spurious =>
      simp only [step] at h
      split at h
      next current hi =>
        unfold compareExchangeWeak at h
        by_cases hsame : s.outstanding = current ∧ spurious = false
        · rw [if_pos hsame] at h
          obtain ⟨rfl, -⟩ := hsame
          exact .inr ⟨i, _, _, _, hi, .taken, (Option.some.inj h).symm⟩
        · rw [if_neg hsame] at h
          exact .inr ⟨i, _, _, _, hi, .retried, (Option.some.inj h).symm⟩
      next => cases h
  | drop i =>
      simp only [step] at h
      split at h
      next hi => exact .inr ⟨i, _, _, _, hi, .dropped, (Option.some.inj h).symm⟩
      next => cases h

theorem step_max {s s' : Admission} {e : Atomic} (h : s.step e = some s') : s'.max = s.max := by
  obtain rfl | ⟨i, c, c', value, -, -, rfl⟩ := step_cases h <;> rfl

theorem goOn_self {s : Admission} {i : Nat} {c c' : TryAdmit} (h : s.calls[i]? = some c) :
    (s.goOn i c').calls[i]? = some c' := by
  obtain ⟨hi, -⟩ := List.getElem?_eq_some_iff.mp h
  exact List.getElem?_set_self hi

theorem goOn_of_ne {s : Admission} {i j : Nat} {c' : TryAdmit} (h : i ≠ j) : (s.goOn i c').calls[j]? = s.calls[j]? :=
  List.getElem?_set_ne h

/-- A move changes the number of live permits by those of the one call. -/
theorem permits_goOn {s : Admission} {i : Nat} {c c' : TryAdmit} (h : s.calls[i]? = some c) :
    (s.goOn i c').permits + c.isLive.toNat = s.permits + c'.isLive.toNat := by
  obtain ⟨hi, hc⟩ := List.getElem?_eq_some_iff.mp h
  have hle : c.isLive.toNat ≤ s.permits := by
    cases hlive : c.isLive with
    | false => exact Nat.zero_le _
    | true => exact List.countP_pos_iff.mpr ⟨c, List.mem_of_getElem? h, hlive⟩
  have hset : (s.goOn i c').permits = s.permits - c.isLive.toNat + c'.isLive.toNat := by
    unfold permits goOn
    rw [List.countP_set hi, hc]
    cases c.isLive <;> cases c'.isLive <;> rfl
  omega

/-! ## The counter -/

/-- The counter is the number of live permits and within the limit, and who is about to exchange has seen room. -/
structure Counted (s : Admission) : Prop where
  counted : s.outstanding.toNat = s.permits
  bounded : s.outstanding ≤ s.max
  room : ∀ (i : Nat) (current : UInt64), s.calls[i]? = some (.exchanging current) → current < s.max

theorem Counted.new (max : UInt64) : Counted (.new max) where
  counted := rfl
  bounded := UInt64.zero_le
  room := by simp [Admission.new]

/-- A drop takes the counter down by one; there is a live permit to drop. -/
theorem Counted.pos {s : Admission} (h : Counted s) {i : Nat} (hi : s.calls[i]? = some .admitted) :
    (s.outstanding - 1).toNat + 1 = s.outstanding.toNat := by
  have hpos : 0 < s.permits := List.countP_pos_iff.mpr ⟨.admitted, List.mem_of_getElem? hi, rfl⟩
  have hle : (1 : UInt64) ≤ s.outstanding := by
    rw [UInt64.le_iff_toNat_le, h.counted]
    exact hpos
  rw [UInt64.toNat_sub_of_le _ _ hle]
  exact Nat.sub_add_cancel (UInt64.le_iff_toNat_le.mp hle)

/-- A successful exchange takes the counter up by one. What was exchanged had been seen to be below the limit. -/
theorem Counted.succ {s : Admission} (h : Counted s) {i : Nat} (hi : s.calls[i]? = some (.exchanging s.outstanding)) :
    (s.outstanding + 1).toNat = s.outstanding.toNat + 1 ∧ s.outstanding + 1 ≤ s.max := by
  have hlt := UInt64.lt_iff_toNat_lt.mp (h.room i _ hi)
  have hmax := s.max.toNat_lt
  have hsucc : (s.outstanding + 1).toNat = s.outstanding.toNat + 1 := by
    rw [UInt64.toNat_add]
    exact Nat.mod_eq_of_lt (by simp; omega)
  exact ⟨hsucc, by rw [UInt64.le_iff_toNat_le, hsucc]; exact hlt⟩

theorem Moves.exchanging {s : Admission} {c : TryAdmit} {current value : UInt64}
    (h : Moves s c (.exchanging current) value) : current < s.max := by
  cases h with
  | room hlt => exact hlt

theorem Counted.step {s s' : Admission} (h : Counted s) {e : Atomic} (hstep : s.step e = some s') : Counted s' := by
  obtain rfl | ⟨i, c, c', value, hi, hmove, rfl⟩ := step_cases hstep
  · refine ⟨?_, h.bounded, fun j current hj => ?_⟩
    · simpa [permits, TryAdmit.isLive] using h.counted
    · rw [List.getElem?_append] at hj
      split at hj
      · exact h.room j current hj
      · simp [List.getElem?_singleton] at hj
  · have hpermits : (s.goOn i c').permits + c.isLive.toNat = s.permits + c'.isLive.toNat := permits_goOn hi
    have hcounted := h.counted
    refine ⟨?_, ?_, fun j current hj => ?_⟩
    · show value.toNat = (s.goOn i c').permits
      cases hmove with
      | load | full | room | retried => exact hcounted.trans hpermits.symm
      | taken =>
          rw [(h.succ hi).1, hcounted]
          exact hpermits.symm
      | dropped =>
          have hpos := h.pos hi
          rw [← hcounted, ← hpos] at hpermits
          exact (Nat.succ.inj hpermits).symm
    · show value ≤ s.max
      cases hmove with
      | load | full | room | retried => exact h.bounded
      | taken => exact (h.succ hi).2
      | dropped =>
          rw [UInt64.le_iff_toNat_le]
          have hpos := h.pos hi
          have hle := UInt64.le_iff_toNat_le.mp h.bounded
          omega
    · by_cases hij : i = j
      · subst hij
        have hc : c' = .exchanging current := Option.some.inj ((goOn_self hi).symm.trans hj)
        subst hc
        exact hmove.exchanging
      · exact h.room j current ((goOn_of_ne hij).symm.trans hj)

theorem Counted.run {s s' : Admission} {steps : List Atomic} (hs : Counted s)
    (h : Steps.run Admission.step s steps = some s') : Counted s' ∧ s'.max = s.max :=
  Steps.run_invariant (I := fun s' => Counted s' ∧ s'.max = s.max)
    (fun _ _ _ hs' he => ⟨hs'.1.step he, (step_max he).trans hs'.2⟩) ⟨hs, rfl⟩ h

/-! ## Refusals -/

/-- The call `i` is in progress. -/
def Running (s : Admission) (i : Nat) : Prop := ∃ c, s.calls[i]? = some c ∧ c.isRunning

/-- What a call that stands at `c` takes the counter to have been. -/
def Reads (max : UInt64) (c : TryAdmit) (value : UInt64) : Prop :=
  match c with
  | .looping current | .exchanging current => value = current
  | .refused => max ≤ value
  | _ => True

/-- The counter was what the call `i` takes it to have been, at some moment since `s₁` at which the call was in
    progress. -/
def Seen (i : Nat) (s₁ : Admission) (steps : List Atomic) (s : Admission) : Prop :=
  ∃ c, s.calls[i]? = some c ∧
    (c = .entered ∨ Steps.Once step (fun s => Running s i ∧ Reads s₁.max c s.outstanding) s₁ steps)

/-- The call stays where it is. -/
theorem Seen.later {i : Nat} {s₁ s s' : Admission} {steps : List Atomic} (h : Seen i s₁ steps s)
    (hsame : s'.calls[i]? = s.calls[i]?) (e : Atomic) : Seen i s₁ (steps ++ [e]) s' := by
  obtain ⟨c, hc, hseen⟩ := h
  refine ⟨c, hsame.trans hc, ?_⟩
  rcases hseen with rfl | honce
  · exact .inl rfl
  · exact .inr (honce.later [e])

theorem Seen.step {i : Nat} {s₁ s s' : Admission} {steps : List Atomic} {e : Atomic}
    (hrun : Steps.run Admission.step s₁ steps = some s) (hmax : s.max = s₁.max) (h : Seen i s₁ steps s)
    (hstep : s.step e = some s') : Seen i s₁ (steps ++ [e]) s' := by
  have hrun' := Steps.run_concat.mpr ⟨s, hrun, hstep⟩
  obtain rfl | ⟨j, c, c', value, hj, hmove, rfl⟩ := step_cases hstep
  · have hi : i < s.calls.length := by
      obtain ⟨c, hc, -⟩ := h
      exact (List.getElem?_eq_some_iff.mp hc).1
    exact h.later (List.getElem?_append_left hi) e
  by_cases hij : j = i
  · subst hij
    have hself : (s.goOn j c').calls[j]? = some c' := goOn_self hj
    obtain ⟨c₀, hc₀, hseen⟩ := h
    obtain rfl : c = c₀ := Option.some.inj (hj.symm.trans hc₀)
    have hpast : c ≠ .entered →
        Steps.Once Admission.step (fun s => Running s j ∧ Reads s₁.max c s.outstanding) s₁ (steps ++ [e]) :=
      fun hne => (hseen.resolve_left hne).later [e]
    refine ⟨c', hself, .inr ?_⟩
    cases hmove with
    | load | retried => exact .now hrun' ⟨⟨_, hself, rfl⟩, rfl⟩
    | full hfull =>
        refine (hpast (by simp)).imp fun _ s _ hs => ⟨hs.1, ?_⟩
        show s₁.max ≤ s.outstanding
        rw [← hmax, show s.outstanding = _ from hs.2]
        exact hfull
    | room => exact hpast (by simp)
    | taken | dropped => exact (hpast (by simp)).imp fun _ _ _ hs => ⟨hs.1, trivial⟩
  · exact h.later (goOn_of_ne hij) e

theorem seen_run {s₀ s₁ s : Admission} {steps : List Atomic} (hcall : s₀.step .call = some s₁)
    (h : Steps.run step s₁ steps = some s) : Seen s₀.calls.length s₁ steps s := by
  have hcalled : Seen s₀.calls.length s₁ [] s₁ := by
    cases hcall
    exact ⟨.entered, by simp, .inl rfl⟩
  have hboth := Steps.run_induction (motive := fun steps s => s.max = s₁.max ∧ Seen s₀.calls.length s₁ steps s)
    ⟨rfl, hcalled⟩ (fun steps e s s' hrun hs he => ⟨(step_max he).trans hs.1, hs.2.step hrun hs.1 he⟩) h
  exact hboth.2

/-- **The counter counts the live permits**, whatever calls and drops interleave: it never exceeds the limit, and no drop
    takes it below zero. A call returns `None` only if the counter was at the limit at some moment while the call was in
    progress. -/
theorem admission_counts (max : UInt64) :
    (∀ steps s, Steps.run step (new max) steps = some s →
      s.outstanding.toNat = s.permits ∧ s.outstanding ≤ max ∧
        ∀ i s', s.step (.drop i) = some s' → s'.outstanding.toNat + 1 = s.outstanding.toNat) ∧
    ∀ before s₀ s₁ steps s, Steps.run step (new max) before = some s₀ → s₀.step .call = some s₁ →
      Steps.run step s₁ steps = some s → s.calls[s₀.calls.length]? = some .refused →
      Steps.Once step (fun s => Running s s₀.calls.length ∧ s.outstanding = max) s₁ steps := by
  constructor
  · intro steps s h
    obtain ⟨hs, hmax⟩ := (Counted.new max).run h
    have hmax : s.max = max := hmax
    refine ⟨hs.counted, hmax ▸ hs.bounded, fun i s' hdrop => ?_⟩
    simp only [step] at hdrop
    split at hdrop
    next hi =>
      cases hdrop
      exact hs.pos hi
    next => cases hdrop
  · intro before s₀ s₁ steps s hbefore hcall hsteps hrefused
    obtain ⟨hs₀, hmax₀⟩ := (Counted.new max).run hbefore
    have hmax₁ : s₁.max = max := (step_max hcall).trans hmax₀
    obtain ⟨c, hc, hseen⟩ := seen_run hcall hsteps
    obtain rfl : c = .refused := Option.some.inj (hc.symm.trans hrefused)
    refine (hseen.resolve_left (by simp)).imp fun front s' hrun hs' => ⟨hs'.1, ?_⟩
    obtain ⟨hcounted, hmax'⟩ := (hs₀.step hcall).run hrun
    have hge : max ≤ s'.outstanding := hmax₁ ▸ hs'.2
    have hle : s'.outstanding ≤ max := (hmax'.trans hmax₁) ▸ hcounted.bounded
    exact UInt64.le_antisymm hle hge

/-- Two calls load the counter before either exchanges it; there is room for one. -/
example : (Steps.run step (new 1) [.call, .call, .load 0, .load 1, .compare 0, .compare 1, .exchange 0 false,
    .exchange 1 false, .compare 1]).map (fun s => (s.outstanding, s.calls)) = some (1, [.admitted, .refused]) := by decide

end Admission

end Xibalba
