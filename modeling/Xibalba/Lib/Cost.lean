import Xibalba.Lib.Wp

/-!
# `Lib.Cost` — what the operations of a program cost

Every answer of the environment has a price. A bound on what the executions of a program cost is a triple whose
assertions are about credit: an operation may be performed where the credit covers whatever it is answered. Costs then
compose as the program does, and they may depend on the local state.

Layout:
* `Prog.spent` and the world `Prog.metered`, with its soundness;
* `Act.funds` and the rules for single operations.
-/

namespace Prog

variable {S : Sig} {α : Type} (price : (op : S.Op) → S.Ret op → Nat)

/-- What an execution costs. -/
def spent : List (Event S) → Nat
  | [] => 0
  | e :: tr => price e.op e.ret + spent tr

/-- The state is the credit that is left. -/
def metered : World S Nat := World.ghost (fun credit op => ∀ r, price op r ≤ credit) fun credit op r => credit - price op r

variable {price}

/-- **Soundness.** No execution costs more than the credit its program started with, and a result leaves the rest. -/
theorem exec_spent {p p' : Prog S α} {Q : α → Nat → Prop} {credit : Nat} {tr : List (Event S)}
    (h : wp (metered price) p Q credit) (he : Exec p tr p') :
    spent price tr ≤ credit ∧ wp (metered price) p' Q (credit - spent price tr) := by
  induction he generalizing credit with
  | refl p => exact ⟨Nat.zero_le _, h⟩
  | @call op k tr p' r he ih =>
      obtain ⟨hguard, hk⟩ := wp_ghost_call.mp h
      obtain ⟨hle, hwp⟩ := ih (hk r)
      have hcost : spent price (⟨op, r⟩ :: tr) = price op r + spent price tr := rfl
      have hr := hguard r
      rw [hcost]
      refine ⟨by omega, ?_⟩
      rwa [← Nat.sub_sub]

end Prog

namespace Act

variable {S : Sig} {ℓ ε α : Type} {price : (op : S.Op) → S.Ret op → Nat} {I : ℓ → Prop} {k k' : ℓ → Nat}

/-- `I` of the local state, and a credit of `k`. -/
def funds (price : (op : S.Op) → S.Ret op → Nat) (I : ℓ → Prop) (k : ℓ → Nat) : (Prog.metered price).Assertion ℓ where
  holds l credit := I l ∧ k l ≤ credit
  stable henv h := by
    cases henv
    exact h

theorem funds_mono (hk : ∀ l, I l → k' l ≤ k l) {l : ℓ} {credit : Nat} (h : funds price I k l credit) :
    funds price I k' l credit :=
  ⟨h.1, Nat.le_trans (hk l h.1) h.2⟩

/-- An operation that costs at most `n`: what its answer has not cost remains. -/
theorem Triple.pay {op : S.Op} {n : Nat} (h : ∀ r, price op r ≤ n) :
    Sure (funds price I fun l => n + k l) (Act.call op : Act S ℓ ε (S.Ret op)) fun r =>
      funds price I fun l => n - price op r + k l := by
  refine Triple.call fun l credit hcredit => ⟨fun r => ?_, ?_⟩
  · exact Nat.le_trans (h r) (Nat.le_trans (Nat.le_add_right n _) hcredit.2)
  · rintro r _ rfl
    have hr := h r
    have hle : n + k l ≤ credit := hcredit.2
    refine ⟨hcredit.1, ?_⟩
    show n - price op r + k l ≤ credit - price op r
    omega

/-- An operation that costs nothing. -/
theorem Triple.free {op : S.Op} (h : ∀ r, price op r = 0) :
    Sure (funds price I k) (Act.call op : Act S ℓ ε (S.Ret op)) fun _ => funds price I k := by
  refine Triple.call fun l credit hcredit => ⟨fun r => ?_, ?_⟩
  · rw [h r]
    exact Nat.zero_le _
  · rintro r _ rfl
    refine ⟨hcredit.1, ?_⟩
    show k l ≤ credit - price op r
    rw [h r]
    exact hcredit.2

end Act
