import Xibalba.Lib.Wp
import Xibalba.Client.Budget

/-!
# `Client.Correctness.Clock` — reading the clock leaves no trace

Most records of a run do not show that the clock was read, and what it answers is arbitrary: whatever depends on it only
is covered by a statement for every answer.
-/

namespace Xibalba

variable {σ ε : Type} {G : σ → Op → Prop} {next : σ → (op : Op) → op.Ret → σ} {l : Local} {s : σ}

/-- The clock may be read, and the record does not show it. -/
structure Timeless (G : σ → Op → Prop) (next : σ → (op : Op) → op.Ret → σ) : Prop where
  allowed : ∀ s, G s .now
  same : ∀ s t, next s .now t = s

variable (hT : Timeless G next)

include hT

/-- The clock may answer anything. -/
theorem wp_now {Q : Except ε Instant → Local → σ → Prop} :
    Act.wp (World.ghost (S := Sys) G next) M.now Q l s ↔ ∀ t, Q (.ok t) l s := by
  refine Act.wp_ghost_call.trans ((and_iff_right (hT.allowed s)).trans (forall_congr' fun t => ?_))
  show Q (.ok t) l (next s .now t) ↔ _
  rw [hT.same]

/-- The deadline of a budget may be any deadline. -/
theorem RequestDeadline.wp_after {budget : Option Duration} {Q : Except ε RequestDeadline → Local → σ → Prop}
    (h : ∀ d, Q (.ok d) l s) : Act.wp (World.ghost (S := Sys) G next) (RequestDeadline.after budget) Q l s := by
  cases budget with
  | none => exact Act.stays_ghost.mpr (h _)
  | some b =>
      refine Act.wp_bind.mpr ((wp_now hT).mpr fun t => ?_)
      exact Act.stays_ghost.mpr (h _)

/-- A deadline may have passed, or not. -/
theorem RequestDeadline.wp_expired {d : RequestDeadline} {Q : Except ε Bool → Local → σ → Prop}
    (h : ∀ b, Q (.ok b) l s) : Act.wp (World.ghost (S := Sys) G next) d.expired Q l s := by
  unfold RequestDeadline.expired
  cases d.expiresAt with
  | none => exact Act.stays_ghost.mpr (h _)
  | some t =>
      refine Act.wp_bind.mpr ((wp_now hT).mpr fun t => ?_)
      exact Act.stays_ghost.mpr (h _)

/-- Checking a deadline passes, or fails with the error of a deadline that has passed. -/
theorem RequestDeadline.wp_checkIo {d : RequestDeadline} {Q : Except StdIoError Unit → Local → σ → Prop}
    (hok : Q (.ok ()) l s) (herr : Q (.error RequestDeadline.error) l s) :
    Act.wp (World.ghost (S := Sys) G next) d.checkIo Q l s := by
  refine Act.wp_bind.mpr (wp_expired hT fun b => ?_)
  cases b with
  | true => exact Act.stays_ghost.mpr herr
  | false => exact Act.stays_ghost.mpr hok

theorem RequestDeadline.wp_check {d : RequestDeadline} {Q : Except Error Unit → Local → σ → Prop}
    (hok : Q (.ok ()) l s) (herr : Q (.error (.connection .requestDeadlineExceeded)) l s) :
    Act.wp (World.ghost (S := Sys) G next) d.check Q l s := by
  refine Act.wp_bind.mpr (wp_expired hT fun b => ?_)
  cases b with
  | true => exact Act.stays_ghost.mpr herr
  | false => exact Act.stays_ghost.mpr hok

/-- The deadline for connecting may be any deadline. -/
theorem RequestDeadline.wp_connectDeadline {d : RequestDeadline} {fallback : Deadline}
    {Q : Except ε Deadline → Local → σ → Prop} (h : ∀ d, Q (.ok d) l s) :
    Act.wp (World.ghost (S := Sys) G next) (d.connectDeadline fallback) Q l s := by
  unfold RequestDeadline.connectDeadline
  cases d.expiresAt with
  | none => exact Act.stays_ghost.mpr (h _)
  | some t =>
      refine Act.wp_bind.mpr ((wp_now hT).mpr fun t => ?_)
      refine Act.wp_bind.mpr ((wp_now hT).mpr fun t => ?_)
      exact Act.stays_ghost.mpr (h _)

theorem Config.wp_connectDeadline {c : Config} {Q : Except ε Deadline → Local → σ → Prop}
    (h : ∀ d, Q (.ok d) l s) : Act.wp (World.ghost (S := Sys) G next) c.connectDeadline Q l s := by
  unfold Config.connectDeadline
  cases c.connectTimeout with
  | none => exact Act.stays_ghost.mpr (h _)
  | some t =>
      refine Act.wp_bind.mpr ((wp_now hT).mpr fun t => ?_)
      exact Act.stays_ghost.mpr (h _)

/-- A silence budget may begin at any time, but its request deadline is the one it is given. -/
theorem SilenceBudget.wp_withDeadline {limit : Duration} {d : RequestDeadline}
    {Q : Except ε SilenceBudget → Local → σ → Prop} (h : ∀ b : SilenceBudget, b.deadline = d → Q (.ok b) l s) :
    Act.wp (World.ghost (S := Sys) G next) (SilenceBudget.withDeadline limit d) Q l s := by
  refine Act.wp_bind.mpr ((wp_now hT).mpr fun t => ?_)
  exact Act.stays_ghost.mpr (h _ rfl)

theorem WriteBudget.wp_withDeadline {limit : Duration} {d : RequestDeadline}
    {Q : Except ε WriteBudget → Local → σ → Prop} (h : ∀ b, Q (.ok b) l s) :
    Act.wp (World.ghost (S := Sys) G next) (WriteBudget.withDeadline limit d) Q l s := by
  refine Act.wp_bind.mpr ((wp_now hT).mpr fun t => ?_)
  exact Act.stays_ghost.mpr (h _)

/-- The turn of a budget's loop after a tick: the silence is either over the limit, or the loop goes on. -/
theorem wp_tick {α : Type} {last : Instant} {limit : Duration} {e : StdIoError} {x : M StdIoError α}
    {Q : Except StdIoError α → Local → σ → Prop} (herr : Q (.error e) l s)
    (hx : Act.wp (World.ghost (S := Sys) G next) x Q l s) :
    Act.wp (World.ghost (S := Sys) G next) (do
      if (← M.now) - last ≥ limit then Act.throw e
      x) Q l s := by
  refine Act.wp_bind.mpr ((wp_now hT).mpr fun t => ?_)
  by_cases hlate : t - last ≥ limit
  · simp only [Act.cont_ok, if_pos hlate]
    exact Act.stays_ghost.mpr herr
  · simp only [Act.cont_ok, if_neg hlate]
    exact hx

end Xibalba
