import Xibalba.Client.Correctness.Wire
import Xibalba.Client.Correctness.Frame

/-!
# `Client.Correctness.Neutral` — the reader thread's own business

Delivering chunks and reading the control queue touch neither the client nor a connection, however they go. A
latched control interrupt is therefore as good as one that never asks anything.
-/

namespace Xibalba

variable {G : Wire → Op → Prop} {ε : Type}

/-- A program that returns and leaves the client and the connections alone. -/
def Neutral (G : Wire → Op → Prop) {α : Type} (x : M ε α) : Prop :=
  ∀ l w, Act.wp (watched G) x (fun r l' w' => (∃ a, r = .ok a) ∧ l'.client = l.client ∧ w' = w) l w

namespace Neutral

variable {α β : Type}

theorem get : Neutral G (Act.get : M ε Local) := fun l _ => Act.stays_ghost.mpr ⟨⟨l, rfl⟩, rfl, rfl⟩

/-- A change of the thread's own state, apart from the client. -/
theorem modify {f : Local → Local} (hf : ∀ l, (f l).client = l.client) : Neutral G (Act.modify f : M ε Unit) :=
  fun l _ => Act.stays_ghost.mpr ⟨⟨(), rfl⟩, hf l, rfl⟩

/-- An operation that the record does not see. -/
theorem call {op : Op} (hG : Lenient G) (hop : op.isPlain) (hw : ∀ w r, Wire.next w op r = w) :
    Neutral G (Act.call (S := Sys) op : M ε op.Ret) := by
  intro l w
  refine Act.wp_ghost_call.mpr ⟨hG w op hop, fun r => ?_⟩
  exact ⟨⟨r, rfl⟩, rfl, hw w r⟩

/-- Go on after a program that leaves the client and the connections alone. -/
theorem wp_bind {x : M ε α} {f : α → M ε β} {Q : Except ε β → Local → Wire → Prop} {l : Local} {w : Wire}
    (hx : Neutral G x) (hf : ∀ a l', l'.client = l.client → Act.wp (watched G) (f a) Q l' w) :
    Act.wp (watched G) (x >>= f) Q l w := by
  refine Act.wp_bind.mpr (Act.wp_mono (hx l w) ?_)
  rintro _ l' w' ⟨⟨a, rfl⟩, hl, rfl⟩
  exact Act.cont_ok.mpr (hf a l' hl)

end Neutral

/-- A relation between the client and the record. -/
def about (G : Wire → Op → Prop) (I : Client → Wire → Prop) : (watched G).Assertion Local where
  holds l w := I l.client w
  stable henv h := by
    cases henv
    exact h

/-- A program that keeps such a relation, however it ends. -/
def Keeping (G : Wire → Op → Prop) (I : Client → Wire → Prop) {α : Type} (x : M ε α) : Prop :=
  Act.Keeps (about G I) x

namespace Keeping

open Act (Triple)

variable {I : Client → Wire → Prop} {ε' α β : Type}

theorem pure (a : α) : Keeping G I (pure a : M ε α) := Triple.pure fun _ _ h => h

theorem throw (e : ε) : Keeping G I (Act.throw e : M ε α) := Triple.throw fun _ _ h => h

theorem ofExcept (r : Except ε α) : Keeping G I (Act.ofExcept r : M ε α) := Triple.ofExcept fun _ _ h => h

theorem hang : Keeping G I (Act.hang : M ε α) := Triple.hang

/-- Looking at the client. -/
theorem client : Keeping G I (M.client : M ε Client) := fun _ _ h => wp_client.mpr h

/-- A sequence keeps what its parts keep. -/
theorem bind {x : M ε α} {f : α → M ε β} (hx : Keeping G I x) (hf : ∀ a, Keeping G I (f a)) :
    Keeping G I (x >>= f) :=
  Triple.seq hx hf

/-- Catching the error makes no difference. -/
theorem attempt {x : M ε α} (hx : Keeping G I x) : Keeping G I (Act.attempt x : M ε' (Except ε α)) :=
  Triple.attempt hx fun _ _ _ h => h

/-- What is neutral keeps every relation of the client and the record. -/
theorem neutral {x : M ε α} (hx : Neutral G x) : Keeping G I x := by
  intro l w h
  refine Act.wp_mono (hx l w) ?_
  rintro r l' w' ⟨-, hl, rfl⟩
  show I l'.client w'
  rw [hl]
  exact h

end Keeping

section

variable (hG : Lenient G)

include hG

/-- The client and the record as they are now are none of the queue's business. -/
theorem aside_about (c : Client) (w : Wire) : Aside (about G fun c' w' => c' = c ∧ w' = w) where
  own l w' l' hl h := ⟨hl.trans h.1, h.2⟩
  shared op hop l w' h := by
    have hplain : op.isPlain := by
      cases op with
      | connect url d => cases hop
      | mark m => cases hop
      | _ => rfl
    have hnext : ∀ r, Wire.next w' op r = w' := by
      cases op with
      | loadShuttingDown | loadCancelAny | storeCancelAny | loadCancelled | loadConsumerAlive => exact fun _ => rfl
      | pop | popBlock | push | dropRequest => exact fun _ => rfl
      | _ => cases hop
    refine ⟨hG w' op hplain, fun r w'' hact => ?_⟩
    cases hact
    exact ⟨h.1, (hnext r).trans h.2⟩

/-- What the queue and the sinks do not touch they leave alone. -/
theorem Neutral.of_aside {α : Type} {x : M ε α}
    (hx : ∀ {I : (watched G).Assertion Local}, Aside I → Act.Sure I x fun _ => I) : Neutral G x := by
  intro l w
  refine Act.wp_mono (hx (aside_about hG l.client w) l w ⟨rfl, rfl⟩) ?_
  rintro (e | a) l' w' h
  · exact h.elim
  · exact ⟨⟨a, rfl⟩, h⟩

/-- Delivering a chunk touches neither the client nor the record. -/
theorem ChunkSink.neutral_sendInner (t : Ticket) (chunk : Chunk) (observeCancel : Bool) (turns : Nat) :
    Neutral G (sendInner t chunk observeCancel turns : M ε (Except Undelivered Unit)) :=
  .of_aside hG fun hI => aside_sendInner hI t chunk observeCancel turns

theorem ChunkSink.neutral_sendTerminal (fuel : Nat) (t : Ticket) (chunk : Chunk) :
    Neutral G (sendTerminal fuel t chunk : M ε Unit) :=
  .of_aside hG fun hI => aside_sendTerminal hI fuel t chunk

/-- Nor does looking for a cancel. -/
theorem ControlQueue.neutral_pollCancel (fuel : Nat) (current : Option Ticket) (turns : Nat) (cancelled : Bool) :
    Neutral G (pollCancel fuel current turns cancelled : M ε Bool) :=
  .of_aside hG fun hI => aside_pollCancel hI fuel current turns cancelled

/-- Nor does taking the next request, if it may be marked as taken. -/
theorem ControlQueue.neutral_nextRequest (htaken : ∀ w t, G w (.mark (.taken t))) (turns : Nat) :
    Neutral G (nextRequest turns : M ε (Option AsyncRequest)) := by
  intro l w
  have hI := aside_about hG l.client w
  refine Act.wp_mono (aside_nextRequest hI (R := fun _ => about G _) (fun _ _ h => h) (fun request => ?_) turns l w ⟨rfl, rfl⟩) ?_
  · refine Act.Triple.after (R := fun _ : Unit => about G _) (hI.call rfl) fun _ => ?_
    refine Act.Triple.after (R := fun _ : Unit => about G _) (fun l' w' h => ?_) fun _ => sure_pure _
    exact wp_mark.mpr ⟨htaken w' _, h⟩
  · rintro (e | a) l' w' h
    · exact h.elim
    · exact ⟨⟨a, rfl⟩, h⟩

/-- The latched interrupt of the control queue asks without a trace. -/
theorem quiet_controlInterrupt (fuel : Nat) (t : Ticket) : (ControlInterrupt fuel t).Quiet G := by
  intro l w
  refine Act.wp_mono (ControlQueue.neutral_pollCancel hG fuel (some t) fuel false l w) ?_
  rintro r l' w' ⟨⟨b, rfl⟩, hl, rfl⟩
  exact ⟨hl, b, false, rfl, (Wire.fire_false _).symm, nofun⟩

theorem ReaderWorker.quiet_interruptOf (fuel : Nat) (t : Ticket) : (interruptOf fuel t).Quiet G :=
  (quiet_controlInterrupt hG fuel t).latch

end

end Xibalba
