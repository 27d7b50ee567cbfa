import Xibalba.Client.Correctness.Conservation
import Xibalba.Client.Correctness.Reader
import Mathlib.Data.List.Nodup
import Mathlib.Data.Option.Basic

/-!
# `Client.Correctness.Outcomes` — what callers of the async client can rely on

Statements about every run of the reader thread among its callers, read off the monitor `Allowed`, which the reader
never violates: how a request ends, whom a cancel reaches, and when a submission is refused. The code misses each of them
in one way; a run shows it.

Layout:
* what an operation of the reader can do: `Replied`;
* how a request ends;
* `next_request` leaves `cancel_any` clear, and whom a cancel of whatever is in flight reaches;
* when a submission is refused.
-/

namespace Xibalba

open Act (Sure Triple)

/-! ## What the reader can do -/

/-- What an allowed operation of the reader can do to the shared state. -/
inductive Replied (s : Shared) (op : Op) : Shared → Prop where
  | same : Replied s op s
  | flag (b : Bool) : Replied s op { s with cancelAny := b }
  | started (t : Ticket) : Replied s op (s.onSlot t fun slot => { slot with started := true })
  | popped (msg : Control) (ring : List Control) (h : s.ring = msg :: ring) : Replied s op { s with ring := ring }
  | saw (t : Ticket) (h : (s.fates t).finished = false) : Replied s op (s.onFate t fun f => { f with cutOff := true })
  | delivered (t : Ticket) (c : Chunk) (h : (s.fates t).finished = false) : Replied s op
      ((s.onSlot t fun slot => { slot with chunks := slot.chunks ++ [c] }).onFate t
        fun f => { f with delivered := f.delivered ++ [c] })
  | dropped (t : Ticket) (h : Closes s t) (hroom : (submits s.calls).length + (requests s.ring).length < s.outstanding) :
      Replied s op { s.onFate t (fun f => { f with finished := true }) with
        outstanding := s.outstanding - 1, current := if s.current = some t then none else s.current }
  | took (t : Ticket) (h : op = .mark (.taken t)) : Replied s op { s.onFate t (fun f => { f with taken := true }) with
      current := some t, returned := s.returned ++ [t], overtaken := s.overtaken || s.cancelPending }
  | forged (t : Ticket) : Replied s op (s.onFate t fun f => { f with forged := true })

theorem Replied.seen {s s' : Shared} {op : Op} {t : Option Ticket} {b x : Bool}
    (h : ∀ u, t = some u → (s.fates u).finished = false) (hact : (s.seen t b).loaded x b = some s') : Replied s op s' := by
  obtain ⟨rfl, -⟩ := Shared.loaded_eq hact
  cases t with
  | none => exact .same
  | some u =>
      unfold Shared.seen
      dsimp only
      split
      · exact .saw u (h u rfl)
      · exact .same

theorem Replied.pop {s s' : Shared} {op : Op} {msg : Option Control} (hact : s.popped msg = some s') : Replied s op s' := by
  cases msg with
  | none =>
      obtain ⟨-, rfl⟩ := Shared.popped_none hact
      exact .same
  | some msg =>
      obtain ⟨ring, hring, rfl⟩ := Shared.popped_some hact
      exact .popped msg ring hring

theorem replied {s s' : Shared} (op : Op) (r : op.Ret) (hguard : Allowed s op) (hact : s.answer op r = some s') :
    Replied s op s' := by
  have hsame : ∀ {op s'}, some s = some s' → Replied s op s' := by
    intro op s' heq
    cases heq
    exact .same
  cases op with
  | loadShuttingDown =>
      obtain ⟨rfl, -⟩ := Shared.loaded_eq hact
      exact .same
  | loadCancelAny => exact .seen hguard hact
  | storeCancelAny b =>
      cases hact
      exact .flag b
  | loadCancelled t =>
      refine .seen (fun u hu => ?_) hact
      cases hu
      exact hguard
  | loadConsumerAlive t =>
      obtain ⟨rfl, -⟩ := Shared.loaded_eq hact
      exact .same
  | storeStarted t =>
      cases hact
      exact .started t
  | pop => exact .pop hact
  | popBlock =>
      cases r with
      | some msg =>
          have hact : s.popped (some msg) = some s' := hact
          exact .pop hact
      | none =>
          unfold Shared.answer at hact
          dsimp only at hact
          split at hact
          · exact .pop hact
          · cases hact
  | push t c =>
      unfold Shared.answer Shared.delivers at hact
      dsimp only at hact
      split at hact
      · split at hact
        · cases hact
          exact .delivered t c hguard
        · exact hsame hact
      · cases hact
  | dropRequest t =>
      cases hact
      exact .dropped t hguard.1 hguard.2
  | mark m =>
      cases m with
      | taken t =>
          cases hact
          exact .took t rfl
      | _ => exact hsame hact
  | read len =>
      cases r with
      | ok bs => exact hsame hact
      | error e =>
          unfold Shared.answer at hact
          dsimp only at hact
          split at hact
          · split at hact
            · cases hact
              exact .forged _
            · exact hsame hact
          · exact hsame hact
  | _ => exact hsame hact

/-- A run of the reader thread of a new client, among any callers. -/
structure Serves (fuel turns : Nat) (l : Local) (p : Prog Sys (Except Empty Unit × Local)) (s : Shared) : Prop where
  new : l.pending = []
  reach : Prog.Reach (threads Allowed) (ReaderWorker.run fuel turns l) .start p s

/-- **Invariants of every run**: what the callers' steps and the reader's allowed operations preserve. -/
theorem Serves.invariant {fuel turns : Nat} {l : Local} {p : Prog Sys (Except Empty Unit × Local)} {s : Shared}
    (h : Serves fuel turns l p s) {I : Shared → Prop} (hstart : I .start)
    (hstep : ∀ {s s'}, Performed s s' → I s → I s') (hans : ∀ {s op s'}, Replied s op s' → I s → I s') : I s := by
  refine Prog.reach_invariant (wp_reader h.new fuel turns) h.reach hstart (fun henv hs => ?_) fun op r hguard hact hs => ?_
  · exact env_of_step (fun hs' hI => hstep hs'.performed hI) henv hs
  · exact hans (replied op r hguard hact) hs

/-! ## How a request ends -/

/-- Requests that have ended did so as they may. -/
def Ended (s : Shared) : Prop := ∀ t, (s.fates t).finished = true → Closes s t

/-- A note about a request that is not about what it was sent. -/
theorem Closes.onFate {s : Shared} {u : Ticket} (h : Closes s u) (t : Ticket) (g : Fate → Fate)
    (hdel : (g (s.fates t)).delivered = (s.fates t).delivered) (hcut : (g (s.fates t)).cutOff = (s.fates t).cutOff)
    (hforged : (s.fates t).forged = true → (g (s.fates t)).forged = true) : Closes (s.onFate t g) u :=
  h.lasts (s.fates_onFate_eq t u g hdel) (s.fates_onFate_eq t u g hcut)
    (s.fates_onFate_of t u g (P := fun f => f.forged = true) hforged) id id id

theorem Ended.replied {s s' : Shared} {op : Op} (h : Ended s) (ha : Replied s op s') : Ended s' := by
  -- a change of one request that has not ended does not matter to those that have
  have hoff : ∀ {t : Ticket} {g : Fate → Fate}, (s.fates t).finished = false → (∀ f, (g f).finished = f.finished) →
      Ended (s.onFate t g) := by
    intro t g hnot hg u hu
    have hut : u ≠ t := by
      rintro rfl
      rw [s.fates_onFate, hg, hnot] at hu
      cases hu
    rw [s.fates_onFate_ne _ hut] at hu
    have hsame := s.fates_onFate_ne g hut
    exact (h u hu).lasts (congrArg Fate.delivered hsame) (congrArg Fate.cutOff hsame) (congrArg Fate.forged hsame).trans id
      id id
  cases ha with
  | same => exact h
  | flag b => exact h
  | started t =>
      intro u hu
      have hg : Grows s (s.onSlot t fun slot => { slot with started := true }) :=
        Grows.onSlot (fun _ hc => hc) fun _ hd => hd
      exact (h u hu).grows hg
  | popped msg ring _ => exact h
  | saw t hnot => exact hoff hnot fun _ => rfl
  | delivered t c hnot =>
      intro u hu
      have hg : Grows s (s.onSlot t fun slot => { slot with chunks := slot.chunks ++ [c] }) :=
        Grows.onSlot (fun _ hc => hc) fun _ hd => hd
      have hended := hoff (g := fun f => { f with delivered := f.delivered ++ [c] }) hnot (fun _ => rfl) u hu
      refine hended.lasts rfl rfl id (fun hx => ?_) id fun hd => hg.consumerAlive u hd
      exact hx.imp_right (Or.imp_left (hg.cancelled u))
  | dropped t hcloses _ =>
      intro u hu
      have hold : Closes s u := by
        by_cases hut : u = t
        · exact hut ▸ hcloses
        · have hu : ((s.onFate t fun f => { f with finished := true }).fates u).finished = true := hu
          rw [s.fates_onFate_ne _ hut] at hu
          exact h u hu
      exact (hold.onFate t (fun f => { f with finished := true }) rfl rfl id).lasts rfl rfl id id id id
  | took t _ =>
      intro u hu
      have hfin := s.fates_onFate_eq t u (fun f => { f with taken := true }) (p := Fate.finished) rfl
      have hold := (h u (hfin.symm.trans hu)).onFate t (fun f => { f with taken := true }) rfl rfl id
      refine hold.lasts rfl rfl id (fun hx => ?_) id id
      -- `overtaken` may have been noted
      refine hx.imp_right (Or.imp_right (Or.imp_right fun ho => ?_))
      show (s.overtaken || s.cancelPending) = true
      rw [show s.overtaken = true from ho]
      rfl
  | forged t =>
      intro u hu
      have hfin := s.fates_onFate_eq t u (fun f => { f with forged := true }) (p := Fate.finished) rfl
      exact (h u (hfin.symm.trans hu)).onFate t (fun f => { f with forged := true }) rfl rfl fun _ => rfl

theorem Ended.grows {s s' : Shared} (h : Ended s) (hg : Grows s s') : Ended s' := by
  intro t ht
  rw [(hg.delivered t).finished] at ht
  exact (h t ht).grows hg

variable {fuel turns : Nat} {l : Local} {p : Prog Sys (Except Empty Unit × Local)} {s : Shared}

theorem Serves.ended (h : Serves fuel turns l p s) : Ended s := by
  refine h.invariant nofun ?_ ?_
  · intro s s' hp hI
    exact hI.grows (.of_performed hp)
  · intro s op s' ha hI
    exact hI.replied ha

/-- **One terminator per request.** A request that the reader is done with, whose handle is alive and whose client is
    not shut down, was sent at most one head, then bodies, then one terminator; unless a cancel flag was seen when a
    chunk of it was to be delivered, and then it was sent no terminator. -/
theorem one_terminator_iff (h : Serves fuel turns l p s) {t : Ticket} (hfin : (s.fates t).finished = true)
    (hdown : s.shuttingDown = false) (halive : (s.slots t).consumerAlive = true) :
    Complete (s.fates t).delivered ↔ (s.fates t).cutOff = false := by
  rcases h.ended t hfin with ⟨hc, hcut, -⟩ | ⟨hp, hwhy⟩
  · exact ⟨fun _ => hcut, fun _ => hc⟩
  · have hcut : (s.fates t).cutOff = true := by
      rcases hwhy with hd | hd | hx
      · rw [hdown] at hd
        cases hd
      · rw [halive] at hd
        cases hd
      · exact hx.1
    constructor
    · intro hc
      exact absurd hc hp.not_complete
    · intro hnot
      rw [hcut] at hnot
      cases hnot

/-- A response with an empty body. -/
def Serves.response : Bytes := ascii "HTTP/1.1 200 OK\x0d\nContent-Length: 0\x0d\n\x0d\n"

/-- Nobody cancels: the request gets its head and its end. -/
theorem one_terminator_iff_one_request :
    ∃ p s, Serves 8 8 idle p s ∧ (s.fates 0).finished = true ∧ (s.fates 0).cutOff = false ∧
      Complete (s.fates 0).delivered := by
  obtain ⟨p, s, hr, hfin, hdown, halive, hcut⟩ := schedule_exists (G := Allowed)
    (submitted 0 ++ List.replicate 32 none) [.ok Serves.response] (p := ReaderWorker.run (ε := Empty) 8 8 idle)
    (P := fun _ s => (s.fates 0).finished = true ∧ s.shuttingDown = false ∧ (s.slots 0).consumerAlive = true ∧
      (s.fates 0).cutOff = false) (by decide +kernel)
  have h : Serves 8 8 idle p s := ⟨rfl, hr⟩
  exact ⟨p, s, h, hfin, hcut, (one_terminator_iff h hfin hdown halive).mpr hcut⟩

/-- The handle's cancel is seen when the head is to be delivered: the request is dropped without a chunk. -/
theorem cancelled_without_terminator :
    ∃ p s, Serves 8 8 idle p s ∧ (s.fates 0).finished = true ∧ s.shuttingDown = false ∧
      (s.slots 0).consumerAlive = true ∧ ¬ Complete (s.fates 0).delivered := by
  obtain ⟨p, s, hr, hfin, hdown, halive, hnone⟩ := schedule_exists (G := Allowed)
    (submitted 0 ++ List.replicate 22 none ++ [some (Action.cancel 0), some (.push (.cancel 0))] ++ List.replicate 3 none)
    [.ok Serves.response] (p := ReaderWorker.run (ε := Empty) 8 8 idle)
    (P := fun _ s => (s.fates 0).finished = true ∧ s.shuttingDown = false ∧ (s.slots 0).consumerAlive = true ∧
      (s.fates 0).delivered = []) (by decide +kernel)
  refine ⟨p, s, ⟨rfl, hr⟩, hfin, hdown, halive, ?_⟩
  rw [hnone]
  exact Partial.not_complete (.inl rfl)

/-! ## Whom a cancel of whatever is in flight reaches -/

/-- The last chunk of a response that was served to its end. -/
def Chunk.isEnd : Chunk → Bool
  | .eof | .error _ => true
  | _ => false

/-- The request ended early: aborted, or without a terminator. Neither its own handle nor the stream asked for it. -/
structure CutShort (s : Shared) (t : Ticket) : Prop where
  finished : (s.fates t).finished = true
  alive : (s.slots t).consumerAlive = true
  early : (s.fates t).delivered.getLast?.any Chunk.isEnd = false
  unasked : (s.slots t).cancelled = false
  unforged : (s.fates t).forged = false

instance (s : Shared) (t : Ticket) : Decidable (CutShort s t) :=
  decidable_of_iff ((s.fates t).finished = true ∧ (s.slots t).consumerAlive = true ∧
      (s.fates t).delivered.getLast?.any Chunk.isEnd = false ∧ (s.slots t).cancelled = false ∧ (s.fates t).forged = false)
    ⟨fun ⟨h₁, h₂, h₃, h₄, h₅⟩ => ⟨h₁, h₂, h₃, h₄, h₅⟩,
      fun h => ⟨h.finished, h.alive, h.early, h.unasked, h.unforged⟩⟩

/-- A request that ended early was given up for a reason. -/
theorem CutShort.excused {t : Ticket} (h : CutShort s t) (hcloses : Closes s t) (hdown : s.shuttingDown = false) :
    Excused s t := by
  rcases hcloses with ⟨⟨front, last, hdel, -, hterm⟩, -, hwhy⟩ | ⟨-, hwhy⟩
  · have hlast : (s.fates t).delivered.getLast? = some last := by
      rw [hdel, List.getLast?_append, List.getLast?_singleton]
      rfl
    have hearly := h.early
    rw [hlast] at hearly
    cases last with
    | aborted => exact (hwhy hlast).resolve_right fun hf => nomatch h.unforged.symm.trans hf
    | eof => cases hearly
    | error e => cases hearly
    | head status headers => cases hterm
    | body data => cases hterm
  · rcases hwhy with hd | hd | hx
    · rw [hdown] at hd
      cases hd
    · rw [h.alive] at hd
      cases hd
    · exact hx.2

/-- The flag is set by `AsyncClient::cancel` only. -/
theorem Performed.strikes {s s' : Shared} (h : Performed s s') :
    (s'.strikes = s.strikes ∧ s'.cancelAny = s.cancelAny) ∨ s'.strikes = s.current :: s.strikes := by
  cases h with
  | cancelAny => exact .inr rfl
  | arrive call hcall hroom =>
      left
      unfold Shared.arrive
      cases call with
      | cancel t =>
          dsimp only
          split
          · exact ⟨rfl, rfl⟩
          · exact ⟨rfl, rfl⟩
      | submit | cancelAny | wakeup => exact ⟨rfl, rfl⟩
  | refuse call hcall hfull h =>
      left
      unfold Shared.refuse at h
      cases call with
      | cancel t =>
          dsimp only at h
          split at h
          · cases h
            exact ⟨rfl, rfl⟩
          · cases h
            exact ⟨rfl, rfl⟩
      | submit | cancelAny =>
          cases h
          exact ⟨rfl, rfl⟩
      | wakeup => cases h
  | _ => exact .inl ⟨rfl, rfl⟩

/-- There were the calls `strikes` of `AsyncClient::cancel`; and `cancel_any` was cleared after them. -/
structure Cleared (strikes : List (Option Ticket)) (s : Shared) : Prop where
  later : strikes <:+ s.strikes
  clear : s.strikes = strikes → s.cancelAny = false

/-- The flag is clear when a request is taken, if there was no call in between. -/
def TakesCleared (strikes : List (Option Ticket)) (s : Shared) : Op → Prop
  | .mark (.taken _) => s.strikes = strikes → s.cancelAny = false
  | _ => True

section

variable {strikes : List (Option Ticket)} {ε : Type}

theorem later_performed {s s' : Shared} (h : strikes <:+ s.strikes) (hs : Performed s s') : strikes <:+ s'.strikes := by
  rcases hs.strikes with ⟨hstrikes, -⟩ | hstrikes
  · rwa [hstrikes]
  · rw [hstrikes]
    exact h.trans (List.suffix_cons _ _)

theorem Cleared.performed {s s' : Shared} (h : Cleared strikes s) (hs : Performed s s') : Cleared strikes s' := by
  refine ⟨later_performed h.later hs, fun heq => ?_⟩
  rcases hs.strikes with ⟨hstrikes, hflag⟩ | hstrikes
  · rw [hflag]
    exact h.clear (hstrikes.symm.trans heq)
  · -- there is one call more
    have hlen := h.later.length_le
    rw [← heq, hstrikes, List.length_cons] at hlen
    exact absurd hlen (Nat.not_succ_le_self _)

def later (strikes : List (Option Ticket)) : (threads (TakesCleared strikes)).Assertion Local where
  holds _ s := strikes <:+ s.strikes
  stable henv h := env_of_step (fun hs h => later_performed h hs.performed) henv h

def cleared (strikes : List (Option Ticket)) : (threads (TakesCleared strikes)).Assertion Local where
  holds _ s := Cleared strikes s
  stable henv h := env_of_step (fun hs h => Cleared.performed h hs.performed) henv h

theorem ControlQueue.later_take (r : AsyncRequest) :
    Sure (later strikes) (take r : M ε (Option AsyncRequest)) fun _ => later strikes := by
  refine Triple.after (R := fun _ => cleared strikes) (Triple.call fun l s h => ⟨trivial, fun _ s' hact => ?_⟩) fun _ => ?_
  · cases hact
    exact ⟨h, fun _ => rfl⟩
  refine Triple.after (R := fun _ => later strikes) (Triple.call fun l s h => ⟨h.clear, fun _ s' hact => ?_⟩) fun _ => ?_
  · cases hact
    exact h.later
  · exact Triple.pure fun _ _ h => h

theorem ControlQueue.later_nextRequest (turns : Nat) :
    Sure (later strikes) (nextRequest turns : M ε (Option AsyncRequest)) fun _ => later strikes := by
  induction turns with
  | zero => exact Triple.hang
  | succ turns ih =>
      refine Triple.after (R := fun _ => later strikes) (Triple.call fun l s h => ⟨trivial, fun b s' hact => ?_⟩) fun stop => ?_
      · obtain ⟨rfl, -⟩ := Shared.loaded_eq hact
        exact h
      cases stop with
      | true => exact Triple.pure fun _ _ h => h
      | false =>
          refine Triple.look fun l₀ => Triple.conseq (P := later strikes) ?_ (fun _ _ h => h.2) fun _ _ _ h => h
          cases hp : l₀.pending with
          | cons r rest =>
              exact Triple.after (R := fun _ => later strikes) (Triple.modify fun _ _ h => h) fun _ => later_take r
          | nil =>
              refine Triple.after (R := fun _ => later strikes) (Triple.call fun l s h => ⟨trivial, fun msg s' hact => ?_⟩)
                fun msg => ?_
              · cases msg with
                | none =>
                    have hact : (if s.shuttingDown ∧ s.handles = [] ∧ s.calls = [] then s.popped none else none) = some s' :=
                      hact
                    split at hact
                    · obtain ⟨-, rfl⟩ := Shared.popped_none hact
                      exact h
                    · cases hact
                | some msg =>
                    obtain ⟨ring, -, rfl⟩ := Shared.popped_some hact
                    exact h
              · cases msg with
                | none => exact Triple.pure fun _ _ h => h
                | some msg =>
                    cases msg with
                    | request r => exact later_take r
                    | cancel t => exact ih
                    | cancelAny => exact ih

end

/-- **`next_request` leaves `cancel_any` clear.** If `AsyncClient::cancel` is not called while it runs, such a cancel is
    still on its way when a request is taken only if its message is. -/
theorem ControlQueue.nextRequest_clears {G : Shared → Op → Prop} {turns : Nat} {l : Local} {t : Ticket} {s₀ s : Shared}
    {k : Op.Ret (.mark (.taken t)) → Prog Sys (Except Empty (Option AsyncRequest) × Local)}
    (h : Prog.Reach (threads G) (nextRequest turns l) s₀ (.call (.mark (.taken t)) k) s)
    (hnone : s.strikes = s₀.strikes) : s.cancelPending = true ↔ .cancelAny ∈ s.ring ∨ .cancelAny ∈ s.calls := by
  have hclear : s.cancelAny = false :=
    Prog.wp_sound (later_nextRequest turns l s₀ (List.suffix_refl _)) (threads_reach h) hnone
  rw [Shared.cancelPending_iff, hclear]
  constructor
  · rintro (hno | hmem)
    · cases hno
    · exact hmem
  · exact .inr
/-- **A cancel of whatever is in flight** reaches a request that was in flight when it was made, and each call one
    request at most, in every run in which no request is taken from the queue while such a cancel is still on its way. -/
theorem cancel_reaches_in_flight (h : Serves fuel turns l p s) (hdown : s.shuttingDown = false)
    (hover : s.overtaken = false) :
    (∀ t, CutShort s t → some t ∈ s.strikes) ∧
      ∀ ts : List Ticket, ts.Nodup → (∀ t ∈ ts, CutShort s t) → ts.length ≤ s.strikes.length := by
  have hstruck : ∀ t, CutShort s t → some t ∈ s.strikes := by
    intro t ht
    rcases ht.excused (h.ended t ht.finished) hdown with hd | hc | hx | ho
    · rw [hdown] at hd
      cases hd
    · rw [ht.unasked] at hc
      cases hc
    · exact hx
    · rw [hover] at ho
      cases ho
  refine ⟨hstruck, fun ts hnodup hts => ?_⟩
  have hmap : (ts.map some).Nodup := hnodup.map (Option.some_injective _)
  have hsub : ts.map some ⊆ s.strikes := by
    intro x hx
    obtain ⟨t, ht, rfl⟩ := List.mem_map.mp hx
    exact hstruck t (hts t ht)
  have hlen := (List.subperm_of_subset hmap hsub).length_le
  rwa [List.length_map] at hlen

/-- A cancel while a request waits for its head: it is aborted, and was in flight. -/
theorem cancel_reaches_in_flight_one_request :
    ∃ p s, Serves 8 8 idle p s ∧ CutShort s 0 ∧ s.overtaken = false ∧ some 0 ∈ s.strikes := by
  obtain ⟨p, s, hr, hcut, hdown, hover⟩ := schedule_exists (G := Allowed)
    (submitted 0 ++ List.replicate 17 none ++ [some Action.cancelAny, some (.push .cancelAny)] ++ List.replicate 9 none)
    [.ok Serves.response] (p := ReaderWorker.run (ε := Empty) 8 8 idle)
    (P := fun _ s => CutShort s 0 ∧ s.shuttingDown = false ∧ s.overtaken = false) (by decide +kernel)
  have h : Serves 8 8 idle p s := ⟨rfl, hr⟩
  exact ⟨p, s, h, hcut, hover, (cancel_reaches_in_flight h hdown hover).1 0 hcut⟩

/-- One cancel, made when the head of a request is to be delivered while another waits on the ring, ends both. -/
theorem one_cancel_ends_two :
    ∃ p s, Serves 8 8 idle p s ∧ s.shuttingDown = false ∧ s.strikes = [some 0] ∧ CutShort s 0 ∧ CutShort s 1 := by
  obtain ⟨p, s, hr, hdown, hstrikes, hcut⟩ := schedule_exists (G := Allowed)
    (submitted 0 ++ List.replicate 22 none ++ submitted 1 ++ [some Action.cancelAny, some (.push .cancelAny)] ++
      List.replicate 17 none)
    [.ok Serves.response] (p := ReaderWorker.run (ε := Empty) 8 8 idle)
    (P := fun _ s => s.shuttingDown = false ∧ s.strikes = [some 0] ∧ CutShort s 0 ∧ CutShort s 1) (by decide +kernel)
  exact ⟨p, s, ⟨rfl, hr⟩, hdown, hstrikes, hcut⟩

/-! ## When a submission is refused -/

/-- What a refusal as `TooManyRequests` is due to: 64 requests are admitted, or the push of a submission finds the ring
    full and most of what is on it are cancels. -/
def Refusal.Due (f : Refusal) : Prop :=
  f.admitted = DEFAULT_MAX_OUTSTANDING ∨ (f.atPush = true ∧ DEFAULT_MAX_OUTSTANDING < f.cancels)

/-- The requests that wait are admitted, and the ring is no longer than it may be. -/
structure Bounded (s : Shared) : Prop where
  admitted : (submits s.calls).length + (requests s.ring).length ≤ s.outstanding
  outstanding : s.outstanding ≤ DEFAULT_MAX_OUTSTANDING
  ring : s.ring.length ≤ CONTROL_RING_CAP
  refusals : ∀ f ∈ s.refusals, f.Due

theorem length_requests (ring : List Control) : (requests ring).length = ring.countP Control.isRequest := by
  induction ring with
  | nil => rfl
  | cons m ring ih =>
      cases m with
      | request r =>
          rw [List.countP_cons_of_pos rfl, ← ih]
          rfl
      | cancel t =>
          rw [List.countP_cons_of_neg Bool.false_ne_true, ← ih]
          rfl
      | cancelAny =>
          rw [List.countP_cons_of_neg Bool.false_ne_true, ← ih]
          rfl

namespace Bounded

/-- A submission finds the ring full. -/
theorem due (h : Bounded s) {r : AsyncRequest} (hr : .submit r ∈ s.calls) (hfull : CONTROL_RING_CAP ≤ s.ring.length) :
    (s.refusal true).Due := by
  have hsubmit : 0 < (submits s.calls).length := List.length_pos_of_mem (mem_submits.mpr ⟨r, hr, rfl⟩)
  have hlen := List.length_eq_countP_add_countP Control.isRequest (l := s.ring)
  have hreq := length_requests s.ring
  have hadm := h.admitted
  have hout := h.outstanding
  have hring := h.ring
  refine .inr ⟨rfl, ?_⟩
  unfold CONTROL_RING_CAP at hfull hring
  show _ < s.ring.countP fun msg => !msg.isRequest
  have hnot : s.ring.countP (fun msg => !msg.isRequest) = s.ring.countP fun msg => decide ¬ msg.isRequest = true := by
    refine List.countP_congr fun msg _ => ?_
    cases msg.isRequest <;> decide
  rw [hnot]
  omega

/-- A call that submits nothing is over, and what it may have put on the ring is no request. -/
theorem answered {s' : Shared} (h : Bounded s) {call : Calling} (hcall : call ∈ s.calls) (hne : ∀ r, call ≠ .submit r)
    (hcalls : s'.calls = s.calls.erase call) (hreq : requests s'.ring = requests s.ring)
    (hring : s'.ring.length ≤ CONTROL_RING_CAP) (hout : s'.outstanding = s.outstanding)
    (hrefusals : s'.refusals = s.refusals) : Bounded s' where
  admitted := by
    rw [hcalls, hreq, hout, ← (submits_erase hne hcall).length_eq]
    exact h.admitted
  outstanding := hout ▸ h.outstanding
  ring := hring
  refusals := hrefusals ▸ h.refusals

theorem performed {s' : Shared} (h : Bounded s) (hp : Performed s s') : Bounded s' := by
  have hadm := h.admitted
  have hout := h.outstanding
  cases hp with
  | idle => exact h
  | refused hfull => exact { h with refusals := List.forall_mem_cons.mpr ⟨.inl (Nat.le_antisymm hout hfull), h.refusals⟩ }
  | submit r _ hroom _ =>
      refine { h with admitted := ?_, outstanding := hroom }
      show (submits s.calls).length + 1 + (requests s.ring).length ≤ s.outstanding + 1
      omega
  | cancel t _ => exact { h with }
  | cancelAny => exact { h with }
  | shutdown => exact { h with }
  | arrive call hcall hroom =>
      have hlen : ∀ {s₁ : Shared}, s₁.ring = s.ring ++ [call.message] → s₁.ring.length ≤ CONTROL_RING_CAP := by
        intro s₁ hring
        rw [hring, List.length_append]
        exact hroom
      have hreq : ∀ m : Control, requests [m] = [] → requests (s.ring ++ [m]) = requests s.ring := by
        intro m hm
        rw [requests_append, hm, List.append_nil]
      cases call with
      | submit r =>
          -- the request is on the ring now, and no longer on its way
          refine { h with admitted := ?_, ring := hlen rfl }
          have hsub := (submits_erase_perm hcall).length_eq
          show (submits (s.calls.erase (.submit r))).length + (requests (s.ring ++ [Control.request r])).length ≤ s.outstanding
          rw [requests_append, List.length_append]
          rw [List.length_cons] at hsub
          show _ + (_ + 1) ≤ _
          omega
      | cancel t =>
          unfold Shared.arrive
          dsimp only
          split
          · exact h.answered hcall (fun _ hc => by cases hc) rfl (hreq _ rfl) (hlen rfl) rfl rfl
          · exact h.answered hcall (fun _ hc => by cases hc) rfl (hreq _ rfl) (hlen rfl) rfl rfl
      | cancelAny => exact h.answered hcall (fun _ hc => by cases hc) rfl (hreq .cancelAny rfl) (hlen rfl) rfl rfl
      | wakeup => exact h.answered hcall (fun _ hc => by cases hc) rfl (hreq .cancelAny rfl) (hlen rfl) rfl rfl
  | refuse call hcall hfull hs =>
      cases call with
      | submit r =>
          -- the permit is given back, and the ring is full of cancels
          cases hs
          have hsub := (submits_erase_perm hcall).length_eq
          rw [List.length_cons] at hsub
          refine { h with
            admitted := ?_, outstanding := Nat.le_trans (Nat.sub_le _ _) hout
            refusals := List.forall_mem_cons.mpr ⟨h.due hcall hfull, h.refusals⟩ }
          show (submits (s.calls.erase (.submit r))).length + (requests s.ring).length ≤ s.outstanding - 1
          omega
      | cancel t =>
          cases hs
          split
          · exact h.answered hcall (fun _ hc => by cases hc) rfl rfl h.ring rfl rfl
          · exact h.answered hcall (fun _ hc => by cases hc) rfl rfl h.ring rfl rfl
      | cancelAny =>
          cases hs
          exact h.answered hcall (fun _ hc => by cases hc) rfl rfl h.ring rfl rfl
      | wakeup => cases hs
  | next t => exact { h with }
  | drop t => exact { h with }

theorem replied {s' : Shared} {op : Op} (h : Bounded s) (ha : Replied s op s') : Bounded s' := by
  cases ha with
  | same => exact h
  | flag b => exact { h with }
  | started t => exact { h with }
  | popped msg ring hring =>
      have hadm := h.admitted
      have hlen := h.ring
      rw [hring] at hadm hlen
      refine { h with admitted := Nat.le_trans (Nat.add_le_add_left ?_ _) hadm, ring := Nat.le_of_succ_le hlen }
      exact ((List.sublist_cons_self msg ring).filterMap _).length_le
  | saw t _ => exact { h with }
  | delivered t c _ => exact { h with }
  | dropped t _ hroom =>
      refine { h with admitted := ?_, outstanding := Nat.le_trans (Nat.sub_le _ _) h.outstanding }
      exact Nat.le_sub_one_of_lt hroom
  | took t _ => exact { h with }
  | forged t => exact { h with }

end Bounded

/-- **Refused submissions.** In every run, each submission that is refused finds 64 requests admitted, unless it was
    admitted and its push found the control ring full with more than 64 cancels on it. -/
theorem refused_at_admission (h : Serves fuel turns l p s) :
    ∀ f ∈ s.refusals, (f.atPush = true → f.cancels ≤ DEFAULT_MAX_OUTSTANDING) → f.admitted = DEFAULT_MAX_OUTSTANDING := by
  have hbounded : Bounded s :=
    h.invariant ⟨Nat.zero_le _, Nat.zero_le _, Nat.zero_le _, nofun⟩ (fun hp hI => hI.performed hp) fun ha hI => hI.replied ha
  intro f hf hcancels
  rcases hbounded.refusals f hf with hadm | ⟨hpush, hmany⟩
  · exact hadm
  · exact absurd (hcancels hpush) (Nat.not_le_of_lt hmany)

/-- The submission after 64 others is refused. -/
theorem refused_at_admission_sixty_four :
    ∃ p s, Serves 8 8 idle p s ∧ s.refusals ≠ [] ∧ ∀ f ∈ s.refusals, f.admitted = DEFAULT_MAX_OUTSTANDING := by
  obtain ⟨p, s, hr, hsome, hadmission⟩ := schedule_exists (G := Allowed)
    (((List.range 64).map submitted).flatten ++ [some (Action.submit .get (ascii "/") none none [])]) []
    (p := ReaderWorker.run (ε := Empty) 8 8 idle)
    (P := fun _ s => s.refusals ≠ [] ∧ ∀ f ∈ s.refusals, f.atPush = false) (by decide +kernel)
  have h : Serves 8 8 idle p s := ⟨rfl, hr⟩
  refine ⟨p, s, h, hsome, fun f hf => refused_at_admission h f hf fun hpush => ?_⟩
  rw [hadmission f hf] at hpush
  cases hpush

/-- The cancels of one request fill the control ring, and the second submission is refused. -/
theorem refused_by_cancels : ∃ p s, Serves 8 8 idle p s ∧ ∃ f ∈ s.refusals, f.admitted = 2 := by
  obtain ⟨p, s, hr, hrefused⟩ := schedule_exists (G := Allowed)
    (submitted 0 ++ (List.replicate 127 [some (Action.cancel 0), some (.push (.cancel 0))]).flatten ++ submitted 1) []
    (p := ReaderWorker.run (ε := Empty) 8 8 idle)
    (P := fun _ s => ∃ f ∈ s.refusals, f.admitted = 2) (by decide +kernel)
  exact ⟨p, s, ⟨rfl, hr⟩, hrefused⟩

end Xibalba
