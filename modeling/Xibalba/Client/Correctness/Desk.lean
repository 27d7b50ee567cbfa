import Xibalba.Client.Correctness.Format
import Xibalba.Client.Correctness.Outcomes

/-!
# `Client.Correctness.Desk` — the reader thread writes the request that it took

A request that the ring hands to the reader thread waits or is served. `Desk` is the record of the requests that were
handed over, of the one that was taken last, and of the bytes the stream has accepted for it. What is written goes on with
these bytes: it is of the head and the body of the request that was taken last, whatever the callers do meanwhile. So a
request that was cancelled in the queue is written only if the control ring was full each time.

Layout:
* `Desk`, and the monitor `Assigned`;
* the blocks of one request and the reader thread keep to it;
* the reader thread among its callers, with the record: `Attends`;
* `cancelled_in_queue_not_written`.
-/

namespace Xibalba

open Act (Keeps Sure Triple)

/-! ## The record -/

/-- The requests the control ring handed over, the one that was taken last, and what the stream has accepted since it was
    taken, or since it was begun anew. -/
structure Desk where
  offered : List AsyncRequest
  taken : Option Ticket
  sent : Bytes
deriving DecidableEq

namespace Desk

def start : Desk := ⟨[], none, []⟩

/-- What an event adds to the record. -/
def next (d : Desk) : (op : Op) → op.Ret → Desk
  | .pop, some (.request r) | .popBlock, some (.request r) => { d with offered := r :: d.offered }
  | .mark (.taken t), _ => { d with taken := some t, sent := [] }
  | .mark (.exchange _ _), _ => { d with sent := [] }
  | .write buf, .ok n => { d with sent := d.sent ++ buf.take n.val }
  | _, _ => d

/-- What is handed over stays so. -/
theorem mem_offered {d : Desk} {q : AsyncRequest} (h : q ∈ d.offered) (op : Op) (r : op.Ret) : q ∈ (d.next op r).offered := by
  have hpop : ∀ msg : Option Control, q ∈ (d.next .pop msg).offered ∧ q ∈ (d.next .popBlock msg).offered := by
    intro msg
    match msg with
    | some (.request r) => exact ⟨List.mem_cons_of_mem _ h, List.mem_cons_of_mem _ h⟩
    | some (.cancel _) | some .cancelAny | none => exact ⟨h, h⟩
  cases op with
  | pop => exact (hpop r).1
  | popBlock => exact (hpop r).2
  | write buf =>
      cases r with
      | ok n => exact h
      | error e => exact h
  | mark m =>
      cases m with
      | taken t => exact h
      | exchange p q => exact h
      | _ => exact h
  | _ => exact h

/-- A message from the control ring leaves alone what is written. -/
theorem same_pop (d : Desk) (msg : Option Control) :
    ((d.next .pop msg).taken = d.taken ∧ (d.next .pop msg).sent = d.sent) ∧
      (d.next .popBlock msg).taken = d.taken ∧ (d.next .popBlock msg).sent = d.sent := by
  match msg with
  | some (.request r) => exact ⟨⟨rfl, rfl⟩, rfl, rfl⟩
  | some (.cancel _) | some .cancelAny | none => exact ⟨⟨rfl, rfl⟩, rfl, rfl⟩

/-- What was handed over came with the message, or was there. -/
theorem offered_pop {d : Desk} {msg : Option Control} {q : AsyncRequest}
    (h : q ∈ (d.next .pop msg).offered ∨ q ∈ (d.next .popBlock msg).offered) : msg = some (.request q) ∨ q ∈ d.offered := by
  match msg with
  | some (.request r) =>
      have h : q ∈ r :: d.offered := h.elim id id
      refine (List.mem_cons.mp h).imp_left fun heq => ?_
      rw [heq]
  | some (.cancel _) | some .cancelAny | none => exact .inr (h.elim id id)

end Desk

/-- The head and the body of a request, on a connection to some origin. -/
def AsyncRequest.Spells (r : AsyncRequest) (bytes : Bytes) : Prop :=
  ∃ origin, bytes = (Client.requestFor origin (ReaderWorker.paramsOf r)).wire ++ r.body.getD []

/-- What is written goes on with the request that was taken last. -/
def Assigned (d : Desk) : Op → Prop
  | .write buf => ∃ r ∈ d.offered, d.taken = some r.ticket ∧ ∃ whole, r.Spells whole ∧ d.sent ++ buf <+: whole
  | _ => True

/-! ## One request -/

/-- The requests that wait were handed over. -/
def Local.OnDesk (l : Local) (d : Desk) : Prop := ∀ q ∈ l.pending, q ∈ d.offered

section

variable {G : Desk → Op → Prop} {l : Local} {d d' : Desk} {op : Op} {r : op.Ret}

theorem Local.OnDesk.next (h : l.OnDesk d) (hact : (posted G Desk.next).act d op r d') : l.OnDesk d' := by
  obtain ⟨rfl, -⟩ := hact
  exact fun q hq => Desk.mem_offered (h q hq) op r

theorem Local.OnDesk.popped {q : AsyncRequest} (h : l.OnDesk d)
    (hact : (posted G Desk.next).act d .pop (some (.request q)) d' ∨ (posted G Desk.next).act d .popBlock (some (.request q)) d') :
    Local.OnDesk { l with pending := l.pending ++ [q] } d' := by
  obtain rfl : d' = { d with offered := q :: d.offered } := by
    rcases hact with hact | hact
    · exact hact.1
    · exact hact.1
  intro q' hq'
  rcases List.mem_append.mp hq' with hq' | hq'
  · exact List.mem_cons_of_mem _ (h q' hq')
  · exact List.mem_cons.mpr (.inl (List.mem_singleton.mp hq'))

end

/-- The monitor that allows everything. -/
abbrev unwatched : Desk → Op → Prop := fun _ _ => True

/-- The requests that wait were handed over, whatever is written. -/
def onDesk : (posted unwatched Desk.next).Assertion Local where
  holds l d := l.OnDesk d
  stable henv h := by
    cases henv
    exact h

theorem settled_onDesk : Settled onDesk where
  client _ _ _ _ h := h
  wire _ _ _ _ h := ⟨trivial, fun _ _ hact => h.next hact⟩

theorem queueing_onDesk : Queueing onDesk where
  own _ _ _ _ hpending h := fun q hq => h q (hpending q hq)
  shared _ _ _ _ h := ⟨trivial, fun _ _ hact => h.next hact⟩
  popped _ _ _ _ h hact := h.popped hact

theorem onDesk_sendHeadOnce {i : Interrupt} (hi : i.IsOwn) (fuel : Nat) (params : RequestParams) (deadline : RequestDeadline) :
    Keeps onDesk (Client.sendHeadOnce fuel params deadline i) := by
  refine Client.keeps_sendHeadOnce settled_onDesk ?_ fuel params deadline
  cases hi with
  | never => exact Keeps.pure false
  | interruptOf fuel t => exact ReaderWorker.aside_interruptOf queueing_onDesk fuel t

/-- The reader thread serves `r`. -/
def attending (r : AsyncRequest) : (posted Assigned Desk.next).Assertion Local where
  holds l d := (r ∈ d.offered ∧ d.taken = some r.ticket) ∧ l.OnDesk d ∧ l.Orderly
  stable henv h := by
    cases henv
    exact h

/-- How the record reflects the progress of the request that was taken. -/
structure Attended (r : AsyncRequest) (s : Upload × Bool) (d : Desk) : Prop where
  offered : r ∈ d.offered
  taken : d.taken = some r.ticket
  unbegun : s.2 = false → s.1.accepted = []
  begun : s.2 = true → d.sent = s.1.accepted

namespace Attended

variable {r : AsyncRequest} {u : Upload} {b : Bool} {d : Desk} {o : Origin}

/-- The request goes on: what it may do, the reader thread may do. -/
theorem assigned (h : Attended r (u, b) d) {op : Op}
    (hresumes : Upload.Resumes [(Client.requestFor o (ReaderWorker.paramsOf r)).wire,
      (Client.requestFor o (ReaderWorker.paramsOf r)).wire ++ r.body.getD []] u op)
    (hstaged : Staged (ReaderWorker.paramsOf r) (Client.requestFor o (ReaderWorker.paramsOf r)) b op) : Assigned d op := by
  cases op with
  | write buf =>
      have hb : b = true := by
        cases b with
        | true => rfl
        | false =>
            rcases hstaged with h | ⟨h, -⟩
            · cases h
            · cases h
      refine ⟨r, h.offered, h.taken, _, ⟨o, rfl⟩, ?_⟩
      rw [h.begun hb]
      rcases List.mem_pair.mp hresumes.2 with heq | heq
      · rw [heq]
        exact List.prefix_append _ _
      · rw [heq]
  | _ => trivial

theorem next {params : RequestParams} {request : Request} (h : Attended r (u, b) d) {op : Op}
    (hstaged : Staged params request b op) (a : op.Ret) :
    Attended r (u.next op a, nextStage b op a) (d.next op a) := by
  have hoffered := Desk.mem_offered h.offered op a
  -- most operations change neither record
  have hsame : ∀ {d' : Desk} {b' : Bool} {u' : Upload}, r ∈ d'.offered → d'.taken = d.taken → d'.sent = d.sent → b' = b →
      u' = u → Attended r (u', b') d' := by
    rintro d' _ _ hoffered htaken hsent rfl rfl
    exact ⟨hoffered, htaken.trans h.taken, h.unbegun, fun hb => hsent.trans (h.begun hb)⟩
  cases op with
  | pop => exact hsame hoffered (Desk.same_pop d a).1.1 (Desk.same_pop d a).1.2 rfl rfl
  | popBlock => exact hsame hoffered (Desk.same_pop d a).2.1 (Desk.same_pop d a).2.2 rfl rfl
  | write buf =>
      cases a with
      | error e => exact ⟨h.offered, h.taken, h.unbegun, h.begun⟩
      | ok n =>
          have hb : b = true := by
            cases b with
            | true => rfl
            | false =>
                rcases hstaged with h | ⟨h, -⟩
                · cases h
                · cases h
          subst hb
          exact ⟨h.offered, h.taken, nofun, fun _ => congrArg (· ++ buf.take n.val) (h.begun rfl)⟩
  | mark m =>
      cases m with
      | taken t =>
          cases b with
          | true => cases hstaged
          | false =>
              rcases hstaged with h | ⟨h, -⟩
              · cases h
              · cases h
      | exchange p q =>
          cases b with
          | true => cases hstaged
          | false => exact ⟨h.offered, h.taken, nofun, fun _ => (h.unbegun rfl).symm⟩
      | _ => exact hsame hoffered rfl rfl rfl rfl
  | _ => exact hsame hoffered rfl rfl rfl rfl

end Attended

section

variable {r : AsyncRequest}

/-- An operation that neither writes nor takes a request. -/
theorem attending_step {op : Op} (hwrite : ∀ buf, op ≠ .write buf) (htaken : ∀ t, op ≠ .mark (.taken t)) (l : Local) (d : Desk)
    (h : attending r l d) : (posted Assigned Desk.next).guard d op ∧
      ∀ a d', (posted Assigned Desk.next).act d op a d' → attending r l d' := by
  obtain ⟨⟨hr, ht⟩, hdesk, horderly⟩ := h
  refine ⟨?_, fun a d' hact => ⟨⟨?_, ?_⟩, hdesk.next hact, horderly⟩⟩
  · cases op with
    | write buf => exact absurd rfl (hwrite buf)
    | _ => trivial
  · exact hact.1 ▸ Desk.mem_offered hr op a
  · rw [hact.1, ← ht]
    cases op with
    | write buf => exact absurd rfl (hwrite buf)
    | pop => exact (Desk.same_pop d a).1.1
    | popBlock => exact (Desk.same_pop d a).2.1
    | mark m =>
        cases m with
        | taken t => exact absurd rfl (htaken t)
        | _ => rfl
    | _ => rfl

theorem hearing_attending : Hearing (attending r) where
  listening := {
    client := fun _ _ _ _ h => h
    wire := fun op hop => attending_step (by rintro buf rfl; cases hop) (by rintro t rfl; cases hop) }
  read _ := attending_step (by simp) (by simp)

theorem queueing_attending : Queueing (attending r) where
  own _ _ _ _ hpending h := ⟨h.1, fun q hq => h.2.1 q (hpending q hq), fun q hq => h.2.2 q (hpending q hq)⟩
  shared op hop := attending_step (by rintro buf rfl; cases hop) (by rintro t rfl; cases hop)
  popped l d d' q h hact := by
    refine ⟨?_, h.2.1.popped hact, h.2.2.posted hact⟩
    rcases hact with hact | hact
    · exact ((attending_step (by simp) (by simp) l d h).2 _ _ hact).1
    · exact ((attending_step (by simp) (by simp) l d h).2 _ _ hact).1

theorem attending_reconnect (url : Url) (deadline : RequestDeadline) :
    Keeps (attending r) (Client.reconnectWithDeadline url deadline) := by
  have hL := (hearing_attending (r := r)).listening
  have hset : ∀ {op : Op} {α : Type} (f : op.Ret → Except StdIoError α), (∀ buf, op ≠ .write buf) →
      (∀ t, op ≠ .mark (.taken t)) → Keeps (attending r) (Act.mapError Error.ofStdIo (do Act.ofExcept (f (← Act.call (S := Sys) op)))) :=
    fun f hwrite htaken => Keeps.mapError (Triple.seq (Triple.call (attending_step hwrite htaken)) fun _ => Keeps.ofExcept _)
  have htimeouts : Keeps (attending r) Client.applyTimeouts :=
    Triple.seq Keeps.client fun _ => Triple.seq (hset id (by simp) (by simp)) fun _ => hset id (by simp) (by simp)
  refine Triple.seq (deadline.keeps_check hL) fun _ => Triple.seq Keeps.client fun c => ?_
  refine Triple.seq (c.config.keeps_connectDeadline hL) fun fallback => ?_
  refine Triple.seq (deadline.keeps_connectDeadline hL fallback) fun d => ?_
  refine Triple.seq (Triple.seq (Triple.call (attending_step (by simp) (by simp))) fun _ => Keeps.ofExcept _) fun _ => ?_
  refine Triple.seq (Triple.modify fun l d h => h) fun _ => ?_
  exact Triple.seq htimeouts fun _ => hL.modifyClient _ fun _ => ⟨rfl, rfl⟩

/-- **One request** of the reader thread. -/
theorem attending_sendHeadOnce {i : Interrupt} (hi : i.IsOwn) (fuel : Nat) (deadline : RequestDeadline) :
    Keeps (attending r) (Client.sendHeadOnce fuel (ReaderWorker.paramsOf r) deadline i) := by
  rintro l d ⟨⟨hr, ht⟩, hdesk, horderly⟩
  have hmute : i.Mute := by
    cases hi with
    | never => exact Interrupt.mute_never
    | interruptOf fuel t => exact Interrupt.mute_interruptOf fuel t
  have hsends := Client.sends_sendHeadOnce hmute fuel (ReaderWorker.paramsOf r) deadline l rfl
  have hstaged := staged_sendHeadOnce hi fuel (ReaderWorker.paramsOf r) deadline l.client.origin l false ⟨rfl, rfl, horderly⟩
  have hwaits := onDesk_sendHeadOnce hi fuel (ReaderWorker.paramsOf r) deadline l d hdesk
  refine Prog.wp_mono (Prog.wp_simulated (R := fun s d' => Attended r (s.1, s.2.1) d' ∧ s.2.2 = d') ?_ ?_ ?_
    ⟨⟨hr, ht, fun _ => rfl, fun hb => Bool.noConfusion hb⟩, rfl⟩ (Prog.wp_beside hsends (Prog.wp_beside hstaged hwaits))) ?_
  · rintro s d _ hR rfl
    exact ⟨s, ⟨rfl, rfl, rfl⟩, hR⟩
  · rintro ⟨u, b, _⟩ d op ⟨hR, rfl⟩ ⟨hresumes, hstage, -⟩
    exact hR.assigned hresumes hstage
  · rintro ⟨u, b, e⟩ d op a _ ⟨hR, hd⟩ ⟨-, hstage, -⟩ ⟨rfl, hvetted⟩
    obtain rfl : e = d := hd
    exact ⟨(u.next op a, nextStage b op a, e.next op a), ⟨rfl, ⟨rfl, hvetted⟩, rfl, hvetted⟩, hR.next hstage a, rfl⟩
  · rintro ⟨a, l'⟩ d' ⟨⟨u, b, _⟩, ⟨hR, rfl⟩, -, ⟨-, horderly'⟩, hdesk'⟩
    exact ⟨⟨hR.offered, hR.taken⟩, hdesk', horderly'⟩

theorem during_attending : During (· = ReaderWorker.paramsOf r) (attending r) where
  hearing := hearing_attending
  queueing := queueing_attending
  started _ := attending_step (by simp) (by simp)
  reconnect := attending_reconnect
  send fuel _ deadline _ hi hparams := by
    subst hparams
    exact attending_sendHeadOnce hi fuel deadline

end

/-! ## The reader thread -/

/-- The reader thread between two requests. -/
def atDesk : (posted Assigned Desk.next).Assertion Local where
  holds l d := l.OnDesk d ∧ l.Orderly
  stable henv h := by
    cases henv
    exact h

theorem queueing_atDesk : Queueing atDesk where
  own _ _ _ _ hpending h := ⟨fun q hq => h.1 q (hpending q hq), fun q hq => h.2 q (hpending q hq)⟩
  shared op hop l d h := by
    refine ⟨?_, fun _ _ hact => ⟨h.1.next hact, h.2⟩⟩
    cases op with
    | write buf => cases hop
    | _ => trivial
  popped _ _ _ _ h hact := ⟨h.1.popped hact, h.2.posted hact⟩

/-- What looking for a request leaves. -/
def assigned : Option AsyncRequest → (posted Assigned Desk.next).Assertion Local
  | some r => attending r
  | none => atDesk

variable {ε : Type}

theorem assigned_nextRequest (turns : Nat) :
    Sure atDesk (ControlQueue.nextRequest turns : M ε (Option AsyncRequest)) assigned := by
  refine ControlQueue.queueing_nextRequest queueing_atDesk (fun _ _ h => h) (fun r => ?_) turns
  have hstore : Sure (offered atDesk r) (M.storeCancelAny false : M ε Unit) fun _ => offered atDesk r :=
    Triple.call fun l d h => queueing_atDesk.shared _ rfl { l with pending := l.pending ++ [r] } d h
  have htaken : Sure (offered atDesk r) (M.mark (.taken r.ticket) : M ε Unit) fun _ => attending r := by
    refine Triple.call fun l d h => ⟨trivial, fun _ d' hact => ?_⟩
    obtain ⟨rfl, -⟩ := hact
    obtain ⟨hdesk, horderly⟩ := h
    refine ⟨⟨hdesk r (List.mem_append_right _ (List.mem_singleton_self r)), rfl⟩, fun q hq => ?_, fun q hq => ?_⟩
    · exact hdesk q (List.mem_append_left _ hq)
    · exact horderly q (List.mem_append_left _ hq)
  exact Triple.after hstore fun _ => Triple.after htaken fun _ => Triple.pure fun _ _ h => h

/-- **The reader thread** writes what was assigned to it. -/
theorem assigned_run (fuel turns : Nat) : Keeps atDesk (ReaderWorker.run fuel turns : M ε Unit) := by
  induction turns with
  | zero => exact Triple.hang
  | succ turns ih =>
      refine Triple.after (assigned_nextRequest fuel) fun next => ?_
      cases next with
      | none => exact Triple.pure fun _ _ h => h
      | some r =>
          have hserve : Keeps (attending r) (ReaderWorker.serve fuel r : M ε Unit) := during_attending.serve fuel rfl
          refine Triple.bind hserve (fun _ => ?_) fun _ _ _ h => h.2
          exact Triple.after (R := fun _ : Unit => attending r) (queueing_attending.call rfl) fun _ =>
            Triple.conseq ih (fun _ _ h => h.2) fun _ _ _ h => h

/-! ## Among its callers -/

/-- A run of the reader thread of a new client, among any callers, with the record of what is on its desk. -/
structure Attends (fuel turns : Nat) (l : Local) (p : Prog Sys (Except Empty Unit × Local)) (s : Shared) (d : Desk) : Prop where
  new : l.pending = []
  reach : Prog.Reach ((threads Allowed).beside (posted Assigned Desk.next)) (ReaderWorker.run fuel turns l)
    (.start, .start) p (s, d)

/-- The request waits for the reader thread. -/
def Shared.Awaits (s : Shared) (r : AsyncRequest) : Prop := .submit r ∈ s.calls ∨ .request r ∈ s.ring

namespace Shared.Awaits

variable {s s' : Shared} {r : AsyncRequest}

/-- A call that is no submission comes and goes. -/
theorem of_erase {calls : List Calling} {c : Calling} (h : Calling.submit r ∈ calls.erase c) : .submit r ∈ calls :=
  List.mem_of_mem_erase h

/-- A message is put on the ring. -/
theorem arrive {call : Calling} (hcall : call ∈ s.calls) (h : (s.arrive call).Awaits r) : s.Awaits r := by
  have hring : (s.arrive call).ring = s.ring ++ [call.message] ∧ (s.arrive call).calls = s.calls.erase call := by
    unfold Shared.arrive
    cases call with
    | submit q => exact ⟨rfl, rfl⟩
    | cancel t =>
        dsimp only
        split
        · exact ⟨rfl, rfl⟩
        · exact ⟨rfl, rfl⟩
    | cancelAny => exact ⟨rfl, rfl⟩
    | wakeup => exact ⟨rfl, rfl⟩
  unfold Shared.Awaits at h
  rw [hring.1, hring.2] at h
  rcases h with h | h
  · exact .inl (of_erase h)
  · rcases List.mem_append.mp h with h | h
    · exact .inr h
    · cases call with
      | submit q =>
          cases List.mem_singleton.mp h
          exact .inl hcall
      | cancel t => cases List.mem_singleton.mp h
      | cancelAny => cases List.mem_singleton.mp h
      | wakeup => cases List.mem_singleton.mp h

/-- The push of a call finds the ring full. -/
theorem refuse {call : Calling} (hrefuse : s.refuse call = some s') (h : s'.Awaits r) : s.Awaits r := by
  have hsame : s'.ring = s.ring ∧ s'.calls = s.calls.erase call := by
    unfold Shared.refuse at hrefuse
    cases call with
    | submit q =>
        cases hrefuse
        exact ⟨rfl, rfl⟩
    | cancel t =>
        cases hrefuse
        split
        · exact ⟨rfl, rfl⟩
        · exact ⟨rfl, rfl⟩
    | cancelAny =>
        cases hrefuse
        exact ⟨rfl, rfl⟩
    | wakeup => cases hrefuse
  unfold Shared.Awaits at h
  rw [hsame.1, hsame.2] at h
  exact h.imp_left of_erase

end Shared.Awaits

/-- What waits after a step of a caller waited before, or is a new submission. -/
theorem Performed.awaits {s s' : Shared} (hp : Performed s s') :
    ((∀ r, s'.Awaits r → s.Awaits r) ∧ s'.nextTicket = s.nextTicket) ∨
      ∃ r, r.ticket = s.nextTicket ∧ RequestParams.validateExtraHeaders r.headers = .ok () ∧
        s'.nextTicket = s.nextTicket + 1 ∧ ∀ q, s'.Awaits q → q = r ∨ s.Awaits q := by
  -- a call that is no submission begins
  have hbegin : ∀ {c : Calling} {r : AsyncRequest}, c ≠ .submit r → Calling.submit r ∈ c :: s.calls → .submit r ∈ s.calls :=
    fun hne hr => (List.mem_cons.mp hr).resolve_left hne.symm
  cases hp with
  | idle => exact .inl ⟨fun r h => h, rfl⟩
  | refused _ => exact .inl ⟨fun r h => h, rfl⟩
  | submit r hr _ hheaders =>
      refine .inr ⟨r, hr, hheaders, rfl, fun q hq => ?_⟩
      rcases hq with hq | hq
      · rcases List.mem_cons.mp hq with hq | hq
        · cases hq
          exact .inl rfl
        · exact .inr (.inl hq)
      · exact .inr (.inr hq)
  | cancel t _ => exact .inl ⟨fun r h => h.imp_left (hbegin (by simp)), rfl⟩
  | cancelAny => exact .inl ⟨fun r h => h.imp_left (hbegin (by simp)), rfl⟩
  | shutdown => exact .inl ⟨fun r h => h.imp_left (hbegin (by simp)), rfl⟩
  | arrive call hcall _ =>
      refine .inl ⟨fun r h => h.arrive hcall, ?_⟩
      unfold Shared.arrive
      cases call with
      | cancel t =>
          dsimp only
          split
          · rfl
          · rfl
      | _ => rfl
  | refuse call hcall _ h =>
      refine .inl ⟨fun r hr => hr.refuse h, ?_⟩
      unfold Shared.refuse at h
      cases call with
      | cancel t =>
          cases h
          split
          · rfl
          · rfl
      | wakeup => cases h
      | _ =>
          cases h
          rfl
  | next t => exact .inl ⟨fun r h => h, rfl⟩
  | drop t => exact .inl ⟨fun r h => h, rfl⟩

/-- Callers take nothing from the ring. -/
theorem Performed.current {s s' : Shared} (hp : Performed s s') : s'.current = s.current := by
  cases hp with
  | arrive call _ _ =>
      unfold Shared.arrive
      cases call with
      | cancel t =>
          dsimp only
          split
          · rfl
          · rfl
      | _ => rfl
  | refuse call _ _ h =>
      unfold Shared.refuse at h
      cases call with
      | cancel t =>
          cases h
          split
          · rfl
          · rfl
      | wakeup => cases h
      | _ =>
          cases h
          rfl
  | _ => rfl

/-- The reader thread submits nothing. -/
theorem Replied.awaits {s s' : Shared} {op : Op} (ha : Replied s op s') :
    (∀ r, s'.Awaits r → s.Awaits r) ∧ s'.nextTicket = s.nextTicket := by
  cases ha with
  | popped msg ring hring =>
      refine ⟨fun r h => h.imp_right fun hr => ?_, rfl⟩
      rw [hring]
      exact List.mem_cons_of_mem _ hr
  | _ => exact ⟨fun r h => h, rfl⟩

/-- The request in flight changes when one is taken or dropped. -/
theorem Replied.current {s s' : Shared} {op : Op} (ha : Replied s op s') (hop : ∀ t, op ≠ .mark (.taken t)) {t : Ticket}
    (ht : s'.current = some t) : s.current = some t := by
  cases ha with
  | dropped u _ _ =>
      have ht : (if s.current = some u then none else s.current) = some t := ht
      split at ht
      · cases ht
      · exact ht
  | took u h => exact absurd h (hop u)
  | _ => exact ht

variable {fuel turns : Nat} {l : Local} {p : Prog Sys (Except Empty Unit × Local)} {s : Shared} {d : Desk}

/-- What waits was submitted, and a submission's headers are validated. -/
theorem Serves.validated (h : Serves fuel turns l p s) :
    ∀ r, s.Awaits r → RequestParams.validateExtraHeaders r.headers = .ok () := by
  refine h.invariant (I := fun s => ∀ r, s.Awaits r → RequestParams.validateExtraHeaders r.headers = .ok ()) ?_ ?_ ?_
  · rintro r (hr | hr)
    · cases hr
    · cases hr
  · intro s s' hp hI r hr
    rcases hp.awaits with ⟨hold, -⟩ | ⟨new, -, hheaders, -, hold⟩
    · exact hI r (hold r hr)
    · rcases hold r hr with rfl | hr
      · exact hheaders
      · exact hI r hr
  · intro s op s' ha hI r hr
    exact hI r (ha.awaits.1 r hr)

/-- What the ring hands over was validated. -/
theorem Serves.vetted {op : Op} {k : op.Ret → Prog Sys (Except Empty Unit × Local)} {r : op.Ret} {s' : Shared}
    (h : Serves fuel turns l (.call op k) s) (hact : s.answer op r = some s') : Vetted op r := by
  have hpopped : ∀ q, s.popped (some (.request q)) = some s' → RequestParams.validateExtraHeaders q.headers = .ok () := by
    intro q hq
    obtain ⟨ring, hring, -⟩ := Shared.popped_some hq
    refine h.validated q (.inr ?_)
    rw [hring]
    exact List.mem_cons_self
  cases op with
  | pop =>
      match r, hact with
      | some (.request q), hact => exact hpopped q hact
      | some (.cancel _), _ | some .cancelAny, _ | none, _ => trivial
  | popBlock =>
      match r, hact with
      | some (.request q), hact => exact hpopped q hact
      | some (.cancel _), _ | some .cancelAny, _ | none, _ => trivial
  | _ => trivial

/-- The record can be kept in every run. -/
theorem Serves.attends (h : Serves fuel turns l p s) : ∃ d, Attends fuel turns l p s d := by
  have hfollow : ∀ {op : Op} {k : op.Ret → Prog Sys (Except Empty Unit × Local)} {s₁ s₂ : Shared} {r : op.Ret},
      Prog.Reach (threads Allowed) (ReaderWorker.run fuel turns l) .start (.call op k) s₁ →
      (threads Allowed).act s₁ op r s₂ → ∀ d, ∃ d', (posted Assigned Desk.next).act d op r d' := by
    intro op k s₁ s₂ r hr hact d
    have hserves : Serves fuel turns l (.call op k) s₁ := ⟨h.new, hr⟩
    exact ⟨d.next op r, rfl, hserves.vetted hact⟩
  obtain ⟨d, hr⟩ := Prog.reach_beside h.reach hfollow Desk.start
  exact ⟨d, h.new, hr⟩

theorem Attends.wp (h : Attends fuel turns l p s d) :
    Prog.wp ((threads Allowed).beside (posted Assigned Desk.next)) (ReaderWorker.run (ε := Empty) fuel turns l)
      (fun _ _ => True) (.start, .start) := by
  have hempty : ∀ {P : AsyncRequest → Prop}, ∀ q ∈ l.pending, P q := by
    intro P q hq
    rw [h.new] at hq
    cases hq
  have hdesk := assigned_run (ε := Empty) fuel turns l .start ⟨hempty, hempty⟩
  exact Prog.wp_mono (Prog.wp_beside (wp_reader h.new fuel turns) hdesk) fun _ _ _ => trivial

/-- How the record fits the shared state: the request in flight was taken last, and a ticket is of one request. -/
structure Filed (s : Shared) (d : Desk) : Prop where
  current : ∀ t, s.current = some t → d.taken = some t
  fresh : ∀ r, s.Awaits r ∨ r ∈ d.offered → r.ticket < s.nextTicket
  once : ∀ r q, s.Awaits r ∨ r ∈ d.offered → s.Awaits q ∨ q ∈ d.offered → r.ticket = q.ticket → r = q

namespace Filed

/-- Nothing new waits. -/
theorem of_known {s' : Shared} {d' : Desk} (h : Filed s d) (hcurrent : ∀ t, s'.current = some t → d'.taken = some t)
    (hknown : ∀ r, s'.Awaits r ∨ r ∈ d'.offered → s.Awaits r ∨ r ∈ d.offered) (hnext : s'.nextTicket = s.nextTicket) :
    Filed s' d' where
  current := hcurrent
  fresh r hr := hnext ▸ h.fresh r (hknown r hr)
  once r q hr hq := h.once r q (hknown r hr) (hknown q hq)

theorem performed {s' : Shared} (h : Filed s d) (hp : Performed s s') : Filed s' d := by
  have hcurrent : s'.current = s.current := hp.current
  rcases hp.awaits with ⟨hold, hnext⟩ | ⟨new, hticket, -, hnext, hold⟩
  · exact h.of_known (hcurrent ▸ h.current) (fun r hr => hr.imp_left (hold r)) hnext
  · have hknown : ∀ r, s'.Awaits r ∨ r ∈ d.offered → r = new ∨ s.Awaits r ∨ r ∈ d.offered := by
      rintro r (hr | hr)
      · exact (hold r hr).imp_right .inl
      · exact .inr (.inr hr)
    refine ⟨hcurrent ▸ h.current, fun r hr => ?_, fun r q hr hq heq => ?_⟩
    · rw [hnext]
      rcases hknown r hr with rfl | hr
      · exact hticket ▸ Nat.lt_succ_self _
      · exact Nat.lt_succ_of_lt (h.fresh r hr)
    · rcases hknown r hr with rfl | hr
      · rcases hknown q hq with rfl | hq
        · rfl
        · exact absurd (h.fresh q hq) (by rw [← heq, hticket]; exact Nat.lt_irrefl _)
      · rcases hknown q hq with rfl | hq
        · exact absurd (h.fresh r hr) (by rw [heq, hticket]; exact Nat.lt_irrefl _)
        · exact h.once r q hr hq heq

/-- An operation of the reader thread. -/
theorem next {s' : Shared} {op : Op} {r : op.Ret} (h : Filed s d) (hguard : Allowed s op) (hact : s.answer op r = some s') :
    Filed s' (d.next op r) := by
  have ha := replied op r hguard hact
  -- a message was on the ring
  have hpop : ∀ {msg : Option Control} {d' : Desk}, s.popped msg = some s' → d'.taken = d.taken →
      (∀ q, q ∈ d'.offered → msg = some (.request q) ∨ q ∈ d.offered) → Filed s' d' := by
    intro msg d' hpopped htaken hoffered
    have hring : s'.current = s.current ∧ ∀ q, msg = some (.request q) → s.Awaits q := by
      cases msg with
      | none =>
          obtain ⟨-, rfl⟩ := Shared.popped_none hpopped
          exact ⟨rfl, nofun⟩
      | some m =>
          obtain ⟨ring, hring, rfl⟩ := Shared.popped_some hpopped
          refine ⟨rfl, ?_⟩
          rintro q ⟨⟩
          exact .inr (hring ▸ List.mem_cons_self)
    refine h.of_known (fun t ht => ?_) (fun q hq => ?_) ha.awaits.2
    · rw [htaken]
      exact h.current t (hring.1 ▸ ht)
    · rcases hq with hq | hq
      · exact .inl (ha.awaits.1 q hq)
      · exact (hoffered q hq).imp_left (hring.2 q)
  -- nothing is handed over or taken
  have hsame : ∀ {d' : Desk}, (∀ t, op ≠ .mark (.taken t)) → d'.taken = d.taken → d'.offered = d.offered → Filed s' d' := by
    intro d' hop htaken hoffered
    refine h.of_known (fun t ht => htaken.trans (h.current t (ha.current hop ht))) (fun q hq => ?_) ha.awaits.2
    exact hq.imp (ha.awaits.1 q) fun hq => hoffered ▸ hq
  cases op with
  | pop => exact hpop hact (Desk.same_pop d r).1.1 fun q hq => Desk.offered_pop (.inl hq)
  | popBlock =>
      refine hpop ?_ (Desk.same_pop d r).2.1 fun q hq => Desk.offered_pop (.inr hq)
      cases r with
      | some msg => exact hact
      | none =>
          unfold Shared.answer at hact
          dsimp only at hact
          split at hact
          · exact hact
          · cases hact
  | write buf =>
      cases r with
      | ok n => exact hsame (by simp) rfl rfl
      | error e => exact hsame (by simp) rfl rfl
  | mark m =>
      cases m with
      | taken t =>
          cases hact
          exact h.of_known (fun _ ht => ht) (fun q hq => hq) rfl
      | _ => exact hsame (by simp) rfl rfl
  | _ => exact hsame (by simp) rfl rfl

theorem start : Filed .start .start where
  current _ ht := by cases ht
  fresh r hr := by
    rcases hr with (hr | hr) | hr <;> cases hr
  once r q hr := by
    rcases hr with (hr | hr) | hr <;> cases hr

end Filed

theorem Attends.filed (h : Attends fuel turns l p s d) : Filed s d := by
  refine Prog.reach_invariant (I := fun sd : Shared × Desk => Filed sd.1 sd.2) h.wp h.reach .start ?_ ?_
  · rintro ⟨s, d⟩ ⟨s', d'⟩ ⟨henv, hd⟩ hI
    obtain rfl : d = d' := hd
    exact env_of_step (P := fun s => Filed s d) (fun hstep hI => hI.performed hstep.performed) henv hI
  · rintro ⟨s, d⟩ ⟨s', d'⟩ op r ⟨hguard, -⟩ ⟨hact, hd, -⟩ hI
    obtain rfl : d' = d.next op r := hd
    exact hI.next hguard hact

/-! ## A request that was cancelled in the queue -/

/-- A cancel of the request returned before the request was taken. -/
def Fate.cancelledInQueue (f : Fate) : Bool := f.cancelQueued || f.cancelLost

/-- **A request that was cancelled in the queue is not written**, in every run in which one of these cancels finds a
    slot on the control ring. What is written goes on with the bytes the stream has accepted of the request in flight, up
    to the end of its head and its body; and if that request was cancelled before it was taken, the ring was full each
    time. -/
theorem cancelled_in_queue_not_written {buf : Bytes} {k : Op.Ret (.write buf) → Prog Sys (Except Empty Unit × Local)}
    (h : Attends fuel turns l (.call (.write buf) k) s d) :
    ∃ r ∈ d.offered, s.current = some r.ticket ∧ (∀ q ∈ d.offered, q.ticket = r.ticket → q = r) ∧
      (∃ whole, r.Spells whole ∧ d.sent ++ buf <+: whole) ∧
      ((s.fates r.ticket).cancelledInQueue = true →
        (s.fates r.ticket).cancelQueued = false ∧ (s.fates r.ticket).cancelLost = true) := by
  obtain ⟨⟨t, hcur, hq⟩, r, hr, htaken, hspells⟩ := Prog.wp_sound h.wp h.reach
  have hfiled := h.filed
  obtain rfl : t = r.ticket := Option.some.inj ((hfiled.current t hcur).symm.trans htaken)
  refine ⟨r, hr, hcur, fun q hq heq => hfiled.once q r (.inr hq) (.inr hr) heq, hspells, fun hcancel => ⟨hq, ?_⟩⟩
  unfold Fate.cancelledInQueue at hcancel
  rw [hq] at hcancel
  exact hcancel

/-- The head of the plain request. -/
def Serves.written : Bytes := ascii "GET / HTTP/1.1\x0d\nHost: a\x0d\n\x0d\n"

/-- The request in flight when a plain request is written. -/
theorem cancelled_in_queue_not_written_one_request :
    ∃ k s d, Attends 8 8 idle (.call (.write Serves.written) k) s d ∧ s.current = some 0 ∧
      ∃ r ∈ d.offered, s.current = some r.ticket ∧ (∀ q ∈ d.offered, q.ticket = r.ticket → q = r) ∧
        (∃ whole, r.Spells whole ∧ d.sent ++ Serves.written <+: whole) ∧
        ((s.fates r.ticket).cancelledInQueue = true →
          (s.fates r.ticket).cancelQueued = false ∧ (s.fates r.ticket).cancelLost = true) := by
  obtain ⟨p, s, hr, hnext, hcur⟩ := schedule_exists (G := Allowed) (submitted 0 ++ List.replicate 11 none) []
    (p := ReaderWorker.run (ε := Empty) 8 8 idle)
    (P := fun p s => p.next? = some (.write Serves.written) ∧ s.current = some 0) (by decide +kernel)
  obtain ⟨k, rfl⟩ := Prog.next?_eq_some hnext
  have h : Serves 8 8 idle (.call (.write Serves.written) k) s := ⟨rfl, hr⟩
  obtain ⟨d, hd⟩ := h.attends
  exact ⟨k, s, d, hd, hcur, cancelled_in_queue_not_written hd⟩

/-- The head of a request that nobody else makes. -/
def Serves.writtenNext : Bytes := ascii "GET /next HTTP/1.1\x0d\nHost: a\x0d\n\x0d\n"

/-- The control ring is full when the second request is cancelled, and the cancel is lost: the request is written. -/
theorem lost_cancel_is_written :
    ∃ k s, Serves 136 8 idle (.call (.write Serves.writtenNext) k) s ∧ s.current = some 1 ∧
      (s.fates 1).cancelledInQueue = true := by
  obtain ⟨p, s, hr, hnext, hcur, hcancel⟩ := schedule_exists (G := Allowed)
    (submitted 0 ++ [some (Action.submit .get (ascii "/next") none none []),
        some (.push (.submit ⟨.get, ascii "/next", none, none, [], 1⟩))] ++
      (List.replicate 126 [some (Action.cancel 0), some (.push (.cancel 0))]).flatten ++
      [some (Action.cancel 1), some (.push (.cancel 1))] ++ List.replicate 274 none) []
    (p := ReaderWorker.run (ε := Empty) 136 8 idle)
    (P := fun p s => p.next? = some (.write Serves.writtenNext) ∧ s.current = some 1 ∧ (s.fates 1).cancelledInQueue = true)
    (by decide +kernel)
  obtain ⟨k, rfl⟩ := Prog.next?_eq_some hnext
  exact ⟨k, s, ⟨rfl, hr⟩, hcur, hcancel⟩

end Xibalba
