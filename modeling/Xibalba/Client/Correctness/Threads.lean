import Xibalba.Client.AsyncClient
import Xibalba.Client.Session
import Mathlib.Logic.Relation
import Mathlib.Data.List.Perm.Basic

/-!
# `Client.Correctness.Threads` — the world of the reader thread

The reader thread runs in a world where any number of callers take steps of their own between its operations.

Layout:
* what waits where;
* how a request may end: `Closes`, and the world `threads`;
* what a step of a caller can do: `Performed`.
-/

namespace Xibalba

/-! ## What waits -/

/-- The requests of the submissions in progress. -/
def submits (calls : List Calling) : List Ticket :=
  calls.filterMap fun
    | .submit r => some r.ticket
    | _ => none

/-- The requests on the control ring. -/
def requests (ring : List Control) : List Ticket :=
  ring.filterMap fun
    | .request r => some r.ticket
    | _ => none

def tickets (pending : List AsyncRequest) : List Ticket := pending.map (·.ticket)

/-- All requests that wait; `queue` is what the reader has displaced from the ring. -/
def waiting (queue : List Ticket) (s : Shared) : List Ticket := submits s.calls ++ (queue ++ requests s.ring)

@[simp] theorem requests_append (ring ring' : List Control) : requests (ring ++ ring') = requests ring ++ requests ring' :=
  List.filterMap_append

theorem mem_submits {calls : List Calling} {t : Ticket} : t ∈ submits calls ↔ ∃ r, .submit r ∈ calls ∧ r.ticket = t := by
  constructor
  · intro h
    obtain ⟨c, hc, ht⟩ := List.mem_filterMap.mp h
    cases c with
    | submit r => exact ⟨r, hc, Option.some.inj ht⟩
    | cancel u => cases ht
    | cancelAny => cases ht
    | wakeup => cases ht
  · rintro ⟨r, hr, rfl⟩
    exact List.mem_filterMap.mpr ⟨.submit r, hr, rfl⟩

theorem mem_requests {ring : List Control} {t : Ticket} : t ∈ requests ring ↔ ∃ r, .request r ∈ ring ∧ r.ticket = t := by
  constructor
  · intro h
    obtain ⟨c, hc, ht⟩ := List.mem_filterMap.mp h
    cases c with
    | request r => exact ⟨r, hc, Option.some.inj ht⟩
    | cancel u => cases ht
    | cancelAny => cases ht
  · rintro ⟨r, hr, rfl⟩
    exact List.mem_filterMap.mpr ⟨.request r, hr, rfl⟩

theorem submits_erase_perm {calls : List Calling} {r : AsyncRequest} (h : .submit r ∈ calls) :
    (submits calls).Perm (r.ticket :: submits (calls.erase (.submit r))) :=
  (List.perm_cons_erase h).filterMap _

theorem submits_erase {calls : List Calling} {c : Calling} (hc : ∀ r, c ≠ .submit r) (h : c ∈ calls) :
    (submits calls).Perm (submits (calls.erase c)) := by
  have hperm := (List.perm_cons_erase h).filterMap fun
    | .submit r => some r.ticket
    | _ => none
  cases c with
  | submit r => exact absurd rfl (hc r)
  | cancel t => exact hperm
  | cancelAny => exact hperm
  | wakeup => exact hperm

/-! ## How a request may end -/

/-- A head and bodies, or nothing: what a response looks like before its terminator. -/
def Partial (chunks : List Chunk) : Prop :=
  chunks = [] ∨ ∃ status headers, ∃ bodies : List Bytes, chunks = .head status headers :: bodies.map .body

def Chunk.terminates : Chunk → Bool
  | .eof | .error _ | .aborted => true
  | _ => false

/-- At most one head, then bodies, then one terminator. -/
def Complete (chunks : List Chunk) : Prop :=
  ∃ front last, chunks = front ++ [last] ∧ Partial front ∧ last.terminates = true

theorem Partial.not_complete {chunks : List Chunk} (h : Partial chunks) : ¬ Complete chunks := by
  rintro ⟨front, last, rfl, -, hlast⟩
  have hmem : last ∈ front ++ [last] := by simp
  rcases h with h | ⟨status, headers, bodies, h⟩
  · rw [h] at hmem
    cases hmem
  · rw [h] at hmem
    rcases List.mem_cons.mp hmem with rfl | hbody
    · cases hlast
    · obtain ⟨bs, -, rfl⟩ := List.mem_map.mp hbody
      cases hlast

/-- Somebody asked for the request to be given up: its own handle, a cancel of whatever was in flight while it was,
    or the client that is being dropped. -/
def Excused (s : Shared) (t : Ticket) : Prop :=
  s.shuttingDown = true ∨ (s.slots t).cancelled = true ∨ some t ∈ s.strikes ∨ s.overtaken = true

/-- How a request may end. It has its terminator, which is `Aborted` for a reason only; or it has none, because the
    client is shutting down, its handle is gone, or a cancel flag was seen when a chunk was to be delivered. -/
def Closes (s : Shared) (t : Ticket) : Prop :=
  (Complete (s.fates t).delivered ∧ (s.fates t).cutOff = false ∧
      ((s.fates t).delivered.getLast? = some .aborted → Excused s t ∨ (s.fates t).forged = true)) ∨
    (Partial (s.fates t).delivered ∧
      (s.shuttingDown = true ∨ (s.slots t).consumerAlive = false ∨ ((s.fates t).cutOff = true ∧ Excused s t)))

/-! ## The world of the reader thread -/

/-- The monitor: chunks are delivered to requests that have not ended, a request ends as it may, and what is written is
    for a request in flight of which no cancel was queued before it was taken. -/
def Allowed (s : Shared) : Op → Prop
  | .push t _ | .loadCancelled t => (s.fates t).finished = false
  | .loadCancelAny => ∀ t, s.current = some t → (s.fates t).finished = false
  | .dropRequest t => Closes s t ∧ (submits s.calls).length + (requests s.ring).length < s.outstanding
  | .write _ => ∃ t, s.current = some t ∧ (s.fates t).cancelQueued = false
  | _ => True

/-- A step of some caller. -/
def Shared.Step (s s' : Shared) : Prop := ∃ a, s.perform a = some s'

/-- The reader thread among its callers, under some monitor. -/
def threads (guard : Shared → Op → Prop) : World Sys Shared where
  env := Relation.ReflTransGen Shared.Step
  guard := guard
  act s op r s' := s.answer op r = some s'
  env_refl _ := .refl
  env_trans h₁ h₂ := h₁.trans h₂

/-- The monitor does not matter to a run. -/
theorem threads_reach {G G' : Shared → Op → Prop} {α : Type} {p p' : Prog Sys α} {s s' : Shared}
    (h : Prog.Reach (threads G) p s p' s') : Prog.Reach (threads G') p s p' s' := by
  induction h with
  | refl => exact .refl _ _
  | env _ henv ih => exact .env ih henv
  | act _ hact ih => exact .act ih hact

/-- What every step of a caller preserves, callers preserve. -/
theorem env_of_step {G : Shared → Op → Prop} {P : Shared → Prop} (hstep : ∀ {s s'}, s.Step s' → P s → P s')
    {s s' : Shared} (h : (threads G).env s s') (hs : P s) : P s' := by
  induction h with
  | refl => exact hs
  | tail _ hstep' ih => exact hstep hstep' ih

/-- A schedule: the shared state answers for itself, and the stream by the script `reads`. -/
def Shared.respond (reads : List (Except StdIoError Bytes)) (s : Shared) :
    (op : Op) → op.Ret × List (Except StdIoError Bytes)
  | .loadShuttingDown => (s.shuttingDown, reads)
  | .loadCancelAny => (s.cancelAny, reads)
  | .loadCancelled t => ((s.slots t).cancelled, reads)
  | .loadConsumerAlive t => ((s.slots t).consumerAlive, reads)
  | .pop | .popBlock => (s.ring.head?, reads)
  | .push t _ => (decide ((s.slots t).chunks.length < CHUNK_RING_CAP), reads)
  | op => scripted reads op

/-- The program and the state a schedule ends with. -/
def Shared.schedule {α : Type} (moves : List (Option Action)) (reads : List (Except StdIoError Bytes)) (p : Prog Sys α) :
    Option (Prog Sys α × Shared) :=
  Prog.drive Shared.respond Shared.answer Shared.perform moves reads p .start

theorem schedule_reach {G : Shared → Op → Prop} {α : Type} {moves : List (Option Action)}
    {reads : List (Except StdIoError Bytes)} {p p' : Prog Sys α} {s : Shared}
    (h : Shared.schedule moves reads p = some (p', s)) : Prog.Reach (threads G) p .start p' s :=
  Prog.reach_drive (fun _ _ _ _ h => h) (fun _ a _ h => Relation.ReflTransGen.single ⟨a, h⟩) h (.refl p _)

/-- A schedule at whose end the program has returned. -/
theorem schedule_result {G : Shared → Op → Prop} {α : Type} (moves : List (Option Action))
    (reads : List (Except StdIoError Bytes)) {p : Prog Sys α} {a : α} {P : Shared → Prop} [DecidablePred P]
    (h : ((Shared.schedule moves reads p).bind fun c => if P c.2 then c.1.result? else none) = some a) :
    ∃ s, Prog.Reach (threads G) p .start (.pure a) s ∧ P s :=
  Prog.reach_result (fun _ _ _ _ h => h) (fun _ a _ h => Relation.ReflTransGen.single ⟨a, h⟩) h

/-- A schedule that ends in a configuration with a property. -/
theorem schedule_exists {G : Shared → Op → Prop} {α : Type} (moves : List (Option Action))
    (reads : List (Except StdIoError Bytes)) {p : Prog Sys α} {P : Prog Sys α → Shared → Prop}
    [∀ p s, Decidable (P p s)] (h : (Shared.schedule moves reads p).any (fun c => decide (P c.1 c.2)) = true) :
    ∃ p' s, Prog.Reach (threads G) p .start p' s ∧ P p' s := by
  obtain ⟨⟨p', s⟩, hc, hP⟩ := (Option.any_eq_true _ _).mp h
  exact ⟨p', s, schedule_reach hc, of_decide_eq_true hP⟩

/-- What a step of a caller can do. -/
inductive Performed (s : Shared) : Shared → Prop where
  | idle : Performed s s
  | refused (h : DEFAULT_MAX_OUTSTANDING ≤ s.outstanding) : Performed s { s with refusals := s.refusal false :: s.refusals }
  | submit (r : AsyncRequest) (hr : r.ticket = s.nextTicket) (h : s.outstanding < DEFAULT_MAX_OUTSTANDING)
      (hheaders : RequestParams.validateExtraHeaders r.headers = .ok ()) : Performed s { s with
        nextTicket := s.nextTicket + 1, outstanding := s.outstanding + 1, calls := .submit r :: s.calls }
  | cancel (t : Ticket) (h : t ∈ s.handles) : Performed s
      { s.onSlot t (fun slot => { slot with cancelled := true }) with calls := .cancel t :: s.calls }
  | cancelAny : Performed s
      { s with cancelAny := true, calls := .cancelAny :: s.calls, strikes := s.current :: s.strikes }
  | shutdown : Performed s { s with shuttingDown := true, calls := .wakeup :: s.calls }
  | arrive (call : Calling) (hcall : call ∈ s.calls) (hroom : s.ring.length < CONTROL_RING_CAP) :
      Performed s (s.arrive call)
  | refuse (call : Calling) (hcall : call ∈ s.calls) (hfull : CONTROL_RING_CAP ≤ s.ring.length) {s' : Shared}
      (h : s.refuse call = some s') : Performed s s'
  | next (t : Ticket) : Performed s (s.onSlot t fun slot => { slot with chunks := slot.chunks.tail })
  | drop (t : Ticket) : Performed s
      { s.onSlot t (fun slot => { slot with consumerAlive := false }) with handles := s.handles.erase t }

theorem Shared.Step.performed {s s' : Shared} (h : s.Step s') : Performed s s' := by
  obtain ⟨a, h⟩ := h
  unfold Shared.perform at h
  -- an action that its guard forbids is no step
  cases a with
  | submit method path query body headers =>
      dsimp only at h
      split at h
      · cases h
      · split at h
        · cases h
          exact .idle
        next hheaders =>
          split at h
          next hfull =>
            cases h
            exact .refused hfull
          next hroom =>
            cases h
            exact .submit _ rfl (Nat.lt_of_not_le hroom) hheaders
  | cancel t =>
      dsimp only at h
      split at h
      next ht =>
        cases h
        exact .cancel t ht
      · cases h
  | cancelAny =>
      dsimp only at h
      split at h
      · cases h
      · cases h
        exact .cancelAny
  | shutdown =>
      dsimp only at h
      split at h
      · cases h
      · cases h
        exact .shutdown
  | push call =>
      dsimp only at h
      split at h
      next hcall =>
        split at h
        next hroom =>
          cases h
          exact .arrive call hcall hroom
        next hfull => exact .refuse call hcall (Nat.le_of_not_lt hfull) h
      · cases h
  | next t =>
      dsimp only at h
      split at h
      · cases h
        exact .next t
      · cases h
  | drop t =>
      dsimp only at h
      split at h
      · cases h
        exact .drop t
      · cases h

end Xibalba
