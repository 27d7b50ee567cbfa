import Xibalba.Client.Correctness.Frame
import Xibalba.Client.Correctness.Queue

/-!
# `Client.Correctness.Reader` — the reader thread among its callers

The reader thread never violates the monitor `Allowed`: whatever the callers do, it delivers chunks to requests that
have not ended, ends a request as it may (`Closes`), and writes nothing for a request that was cancelled in the queue.

Layout:
* what is known of the request in flight: `Flying`, `serving`;
* its interrupt, and the reads of its body;
* `dispatch`, `streamBody`, `serve`, `run`.
-/

namespace Xibalba

open Act (Triple Sure Keeps)

/-! ## The request in flight -/

/-- The request is in flight and no cancel of it was queued before it was taken; if the latch is its own and has fired,
    there is a reason. -/
structure Flying (own : Bool) (t : Ticket) (l : Local) (s : Shared) : Prop where
  current : s.current = some t
  taken : (s.fates t).taken = true
  clear : (s.fates t).cancelQueued = false
  latched : own = true → l.fired = true → Excused s t

theorem Flying.apart {own : Bool} {t : Ticket} {l : Local} {s s' : Shared} (h : Flying own t l s) (ha : Apart s s') :
    Flying own t l s' :=
  ⟨ha.current.trans h.current, (ha.taken t).trans h.taken, (ha.course t h.taken).2.2.trans h.clear,
    fun ho hf => ha.excused (h.latched ho hf)⟩

def flying (own : Bool) (t : Ticket) : Lasting := ⟨fun l s => Flying own t l s, fun hg h => h.apart hg.toApart⟩

theorem Excused.sameBut {t u : Ticket} {s s' : Shared} (h : Excused s u) (hs : SameBut t s s') : Excused s' u := by
  have hrest : ∀ {β : Type} (p : Shared → β), p { s' with slots := s.slots, fates := s.fates } = p s :=
    fun p => congrArg p hs.rest
  rcases h with hd | hc | hx | ho
  · exact .inl ((hrest Shared.shuttingDown).trans hd)
  · exact .inr (.inl ((hs.slots u).1.trans hc))
  · exact .inr (.inr (.inl ((hrest Shared.strikes).symm ▸ hx)))
  · exact .inr (.inr (.inr ((hrest Shared.overtaken).trans ho)))

theorem flying_free (own : Bool) (t : Ticket) : (flying own t).Free t := by
  intro l s s' hs h
  have hcur : s'.current = s.current := (congrArg Shared.current hs.rest : _)
  exact ⟨hcur.trans h.current, hs.same.1.trans h.taken, hs.same.2.1.trans h.clear, fun ho hf => (h.latched ho hf).sameBut hs⟩

variable {G : Shared → Op → Prop} {ε : Type}

/-- The request `t` is served, and `d` was delivered to it. -/
def serving (own : Bool) (t : Ticket) (d : List Chunk) : (threads G).Assertion Local :=
  holding (fun l => tickets l.pending) [t] none ((delivering t d).and (flying own t))

section

variable {own : Bool} {t : Ticket} {d : List Chunk} (hG : ∀ {s op}, Allowed s op → G s op)

/-- The stream reports a `Cancelled` of its own. -/
theorem serving_forge {l : Local} {s : Shared} (h : serving (G := G) own t d l s) :
    serving (G := G) own t d l (s.onFate t fun f => { f with forged := true }) := by
  obtain ⟨hsound, hp, hf⟩ := h
  have hat := s.fates_onFate t fun f => { f with forged := true }
  refine ⟨hsound.touch (List.mem_singleton_self _) (fun _ => rfl) (fun _ => rfl) fun _ => rfl, ⟨?_, ?_⟩, hf.current, ?_, ?_,
    hf.latched⟩
  · exact (congrArg Fate.delivered hat).trans hp.delivered
  · exact (congrArg Fate.cutOff hat).trans hp.cutOff
  · exact (congrArg Fate.taken hat).trans hf.taken
  · exact (congrArg Fate.cancelQueued hat).trans hf.clear

/-- A read that fails while a request is in flight. -/
theorem Shared.answer_read_error {s : Shared} {t : Ticket} {len : Nat} {e : StdIoError} (h : s.current = some t) :
    s.answer (.read len) (.error e) =
      if Cancelled.marks e then some (s.onFate t fun f => { f with forged := true }) else some s := by
  simp only [answer, h]

include hG in
/-- What is known of the request in flight is not disturbed by the client's own work for it. -/
theorem serving_carried (own : Bool) (t : Ticket) (d : List Chunk) : Carried (serving (G := G) own t d) := by
  refine ⟨fun l s c h => ⟨h.1, h.2.1, ⟨h.2.2.current, h.2.2.taken, h.2.2.clear, h.2.2.latched⟩⟩, fun op hop l s h => ?_⟩
  have hsame : ∀ {s'}, some s = some s' → serving (G := G) own t d l s' := by
    intro s' heq
    cases heq
    exact h
  cases op with
  | now => exact ⟨hG trivial, fun _ _ hact => hsame hact⟩
  | connect url deadline => exact ⟨hG trivial, fun _ _ hact => hsame hact⟩
  | setReadTimeout d => exact ⟨hG trivial, fun _ _ hact => hsame hact⟩
  | setWriteTimeout d => exact ⟨hG trivial, fun _ _ hact => hsame hact⟩
  | read len =>
      refine ⟨hG trivial, fun r s' hact => ?_⟩
      cases r with
      | ok bs => exact hsame hact
      | error e =>
          have hact : s.answer (.read len) (.error e) = some s' := hact
          rw [Shared.answer_read_error h.2.2.current] at hact
          split at hact
          · cases hact
            exact serving_forge h
          · exact hsame hact
  | write buf =>
      exact ⟨hG ⟨t, h.2.2.current, h.2.2.clear⟩, fun _ _ hact => hsame hact⟩
  | flush => exact ⟨hG trivial, fun _ _ hact => hsame hact⟩
  | mark m =>
      cases m with
      | exchange params request => exact ⟨hG trivial, fun _ _ hact => hsame hact⟩
      | response acc headEnd => exact ⟨hG trivial, fun _ _ hact => hsame hact⟩
      | redirect location => cases hop
      | taken u => cases hop
      | call => cases hop
  | _ => cases hop

theorem serving_blind (own : Bool) (t : Ticket) (d : List Chunk) : ((delivering t d).and (flying own t)).Blind where
  pending _ _ _ h := ⟨h.1, ⟨h.2.current, h.2.taken, h.2.clear, h.2.latched⟩⟩
  apart _ _ _ ha h := ⟨h.1.course (ha.course t h.2.taken).1, h.2.apart ha⟩

/-- A cancel that is reported for the request in flight has a reason. -/
theorem Reason.excused {s : Shared} (h : Reason (some t) s) (hcur : s.current = some t) : Excused s t := by
  rcases h with hs | ⟨u, hu, hc⟩ | hsig
  · exact .inl hs
  · cases hu
    exact .inr (.inl hc)
  · exact (hsig.struck t hcur).excused

/-- Somebody asked for the request to be given up. -/
def excused (t : Ticket) : Lasting := ⟨fun _ s => Excused s t, fun hg h => hg.excused h⟩

/-! ## Its interrupt -/

/-- `serving`, with a reason to stop when there is one. -/
def asked (t : Ticket) (d : List Chunk) (b : Bool) : (threads G).Assertion Local where
  holds l s := serving (G := G) true t d l s ∧ (b = true → Excused s t)
  stable henv h := ⟨(serving true t d).stable henv h.1, fun hb => (Grows.of_env henv).excused (h.2 hb)⟩

include hG

namespace ReaderWorker

theorem sure_interruptOf (fuel : Nat) :
    Sure (serving (G := G) true t d) (interruptOf fuel t : M Empty Bool) fun b => asked t d b := by
  refine Triple.conseq (P := draining [t] (some t) false false ((delivering t d).and (flying true t)))
    (Triple.after (ControlQueue.sure_pollCancel hG (serving_blind true t d) fuel fuel false) fun b => ?_)
    (fun l s h => ⟨h.1, ⟨nofun, fun u hu => ?_, nofun⟩, h.2⟩) fun _ _ _ h => h
  · refine Triple.after (R := fun l₀ => ⟨fun l s => l = l₀ ∧ asked (G := G) t d (l.fired || b) l s,
      fun {l _ _} henv h => ⟨h.1, (asked t d (l.fired || b)).stable henv h.2⟩⟩) (Triple.get fun l s h => ⟨rfl, ?_⟩) fun l₀ => ?_
    · obtain ⟨hsound, hv, hp, hf⟩ := h
      refine ⟨⟨hsound, hp, hf⟩, fun hb => ?_⟩
      rcases Bool.or_eq_true _ _ ▸ hb with hfired | rfl
      · exact hf.latched rfl hfired
      · exact (hv.reason rfl).excused hf.current
    · refine Triple.after (R := fun _ => asked t d (l₀.fired || b)) (Triple.modify ?_) fun _ => Triple.pure fun _ _ h => h
      rintro l s ⟨rfl, ⟨hsound, hp, hf⟩, hx⟩
      exact ⟨⟨hsound, hp, ⟨hf.current, hf.taken, hf.clear, fun _ => hx⟩⟩, hx⟩
  · cases hu
    exact h.2.2.taken

theorem keeps_interruptOf (fuel : Nat) : Keeps (serving (G := G) true t d) (interruptOf fuel t : M Empty Bool) := by
  refine Triple.conseq (sure_interruptOf hG fuel) (fun _ _ h => h) ?_
  rintro (e | b) l s h
  · exact h.elim
  · exact h.1

/-- Why a read of the body may fail as cancelled: the interrupt fired, or the stream said so. -/
def marked (t : Ticket) : (threads G).Assertion Local where
  holds _ s := Excused s t ∨ ((s.fates t).forged = true ∧ (s.fates t).taken = true)
  stable henv h := by
    have hg := Grows.of_env henv
    exact h.imp hg.excused fun hf => ⟨(hg.course t hf.2).2.1.trans hf.1, (hg.taken t).trans hf.2⟩

/-- A read of the body. -/
theorem triple_read (fuel len : Nat) :
    Triple (serving (G := G) true t d) ((Stream.interruptible (interruptOf fuel t)).read len)
      (onMark (serving true t d) (marked t)) := by
  have hraw : Triple (serving (G := G) true t d) (Stream.raw.read len) (onMark (serving true t d) (marked t)) := by
    refine Triple.after (R := fun r => onMark (serving true t d) (marked t) r) (Triple.call fun l s h => ?_) fun r => ?_
    · obtain ⟨hguard, hact⟩ := (serving_carried hG true t d).wire (.read len) rfl l s h
      refine ⟨hguard, fun r s' ha => ⟨hact r s' ha, fun e he hm => .inr ?_⟩⟩
      subst he
      have ha : s.answer (.read len) (.error e) = some s' := ha
      rw [Shared.answer_read_error h.2.2.current, if_pos hm] at ha
      cases ha
      have hat := s.fates_onFate t fun f => { f with forged := true }
      exact ⟨congrArg Fate.forged hat, (congrArg Fate.taken hat).trans h.2.2.taken⟩
    · exact Triple.ofExcept fun _ _ h => h
  have hask : Sure (serving (G := G) true t d) ((interruptOf fuel t).isCancelled : M StdIoError Bool) fun b => asked t d b := by
    refine Triple.mapError (sure_interruptOf hG fuel) ?_
    rintro (e | b) l s h
    · exact h.elim
    · exact h
  refine Triple.after hask fun b => ?_
  cases b with
  | false => exact Triple.conseq hraw (fun _ _ h => h.1) fun _ _ _ h => h
  | true =>
      refine Triple.bind (R := onMark (serving true t d) (marked t)) (Triple.throw fun l s h => ⟨h.1, fun _ _ _ => .inl (h.2 rfl)⟩)
        (fun _ => Triple.conseq hraw (fun _ _ h => h.1) fun _ _ _ h => h) fun e l s h => ⟨h.1, fun e' he => h.2 e' ?_⟩
      rw [Except.error.inj he]

end ReaderWorker

end

/-! ## How it ends -/

/-- How a request may end depends on what it was sent, and on reasons that do not go away. -/
theorem Closes.lasts {s s' : Shared} {t : Ticket} (h : Closes s t) (hdel : (s'.fates t).delivered = (s.fates t).delivered)
    (hcut : (s'.fates t).cutOff = (s.fates t).cutOff) (hforged : (s.fates t).forged = true → (s'.fates t).forged = true)
    (hx : Excused s t → Excused s' t) (hdown : s.shuttingDown = true → s'.shuttingDown = true)
    (hdead : (s.slots t).consumerAlive = false → (s'.slots t).consumerAlive = false) : Closes s' t := by
  rcases h with ⟨hc, hnot, hwhy⟩ | ⟨hp, hwhy⟩
  · left
    rw [← hdel] at hc
    refine ⟨hc, hcut.trans hnot, fun hlast => ?_⟩
    rw [hdel] at hlast
    exact (hwhy hlast).imp hx hforged
  · right
    rw [← hdel] at hp
    exact ⟨hp, hwhy.imp hdown (Or.imp hdead fun h => ⟨hcut.trans h.1, hx h.2⟩)⟩

theorem Closes.grows {s s' : Shared} {t : Ticket} (h : Closes s t) (hg : Grows s s') : Closes s' t :=
  h.lasts (hg.delivered t).delivered (hg.delivered t).cutOff (hg.forged t).trans hg.excused hg.shuttingDown
    (hg.consumerAlive t)

/-- The request may be dropped. -/
def closing (t : Ticket) : Lasting where
  holds _ s := Closes s t ∧ (s.fates t).taken = true
  lasts hg h := ⟨h.1.grows hg, (hg.taken t).trans h.2⟩

def closed (t : Ticket) : (threads G).Assertion Local := holding (fun l => tickets l.pending) [t] none (closing t)

/-- There is a reason to report the request as aborted. -/
def blamed (t : Ticket) : Lasting where
  holds _ s := (Excused s t ∨ (s.fates t).forged = true) ∧ (s.fates t).taken = true
  lasts hg h := ⟨h.1.imp hg.excused (hg.course t h.2).2.1.trans, (hg.taken t).trans h.2⟩

theorem blamed_free (t : Ticket) : (blamed t).Free t := by
  rintro l s s' hs ⟨hwhy, htaken⟩
  exact ⟨hwhy.imp (·.sameBut hs) hs.same.2.2.trans, hs.same.1.trans htaken⟩

/-- A response with its terminator. -/
theorem closes_of_ending {s : Shared} {t : Ticket} {d : List Chunk} {chunk : Chunk} (hd : Partial d)
    (hterm : chunk.terminates = true) (hwhy : chunk = .aborted → Excused s t ∨ (s.fates t).forged = true)
    (h : Progress t (d ++ [chunk]) s ∨ Stopped false t d s) : Closes s t := by
  rcases h with hp | ⟨hp, hend⟩ | ⟨hno, -⟩
  · left
    refine ⟨⟨d, chunk, hp.delivered, hd, hterm⟩, hp.cutOff, fun hlast => hwhy ?_⟩
    rw [hp.delivered, List.getLast?_append, List.getLast?_singleton] at hlast
    exact Option.some.inj hlast
  · right
    refine ⟨?_, hend.imp_right .inl⟩
    rw [hp.delivered]
    exact hd
  · cases hno

/-- A response that was given up. -/
theorem closes_of_stopped {s : Shared} {t : Ticket} {d : List Chunk} (hd : Partial d) (h : Stopped true t d s) :
    Closes s t := by
  right
  rcases h with ⟨hp, hend⟩ | ⟨-, hdel, hcut, hx⟩
  · refine ⟨?_, hend.imp_right .inl⟩
    rw [hp.delivered]
    exact hd
  · refine ⟨?_, .inr (.inr ⟨hcut, hx⟩)⟩
    rw [hdel]
    exact hd

section

variable {own : Bool} {t : Ticket} {d : List Chunk} (hG : ∀ {s op}, Allowed s op → G s op) (hd : Partial d)

include hG hd

namespace ChunkSink

/-- Reporting a request as aborted. -/
theorem sure_aborted (fuel : Nat) :
    Sure (holding (G := G) (fun l => tickets l.pending) [t] none ((delivering t d).and (blamed t)))
      (sendTerminal fuel t .aborted : M ε Unit) fun _ => closed t := by
  refine Triple.conseq (sure_sendTerminal hG (List.mem_singleton_self _) (blamed_free t) fuel .aborted) (fun _ _ h => h) ?_
  rintro (e | u) l s h
  · exact h
  · exact ⟨h.1, closes_of_ending hd rfl (fun _ => h.2.2.1) h.2.1, h.2.2.2⟩

/-- Any other terminator. -/
theorem sure_terminated (fuel : Nat) (chunk : Chunk) (hterm : chunk.terminates = true) (hne : chunk ≠ .aborted) :
    Sure (serving (G := G) own t d) (sendTerminal fuel t chunk : M ε Unit) fun _ => closed t := by
  refine Triple.conseq (sure_sendTerminal hG (List.mem_singleton_self _) (flying_free own t) fuel chunk) (fun _ _ h => h) ?_
  rintro (e | u) l s h
  · exact h
  · exact ⟨h.1, closes_of_ending hd hterm (fun heq => absurd heq hne) h.2.1, h.2.2.taken⟩

/-- A chunk of the response. -/
theorem sure_send (fuel : Nat) (chunk : Chunk) :
    Sure (serving (G := G) own t d) (send fuel t chunk : M ε (Except Undelivered Unit))
      fun r => match r with
        | .ok () => serving own t (d ++ [chunk])
        | .error _ => closed t := by
  refine Triple.conseq (sure_sendInner hG (List.mem_singleton_self _) (flying_free own t) true
    (fun _ _ _ h => h.current) chunk fuel) (fun _ _ h => h) ?_
  rintro (e | r) l s h
  · exact h
  · cases r with
    | ok u => exact h
    | error e => exact ⟨h.1, closes_of_stopped hd h.2.1, h.2.2.taken⟩

end ChunkSink

end

/-! ## Serving a request -/

/-- A request that was taken, before the first hunt for its cancels is over. -/
def underway (t : Ticket) : Lasting where
  holds _ s := Progress t [] s ∧ (s.fates t).taken = true ∧ s.current = some t
  lasts hg h := ⟨h.1.course (hg.delivered t), (hg.taken t).trans h.2.1, hg.current.trans h.2.2⟩

/-- A response with its head. -/
def Headed (d : List Chunk) : Prop := ∃ status headers, ∃ bodies : List Bytes, d = .head status headers :: bodies.map .body

theorem Headed.begun {d : List Chunk} (h : Headed d) : Partial d := .inr h

theorem Headed.body {d : List Chunk} (h : Headed d) (bytes : Bytes) : Headed (d ++ [Chunk.body bytes]) := by
  obtain ⟨status, headers, bodies, rfl⟩ := h
  refine ⟨status, headers, bodies ++ [bytes], ?_⟩
  rw [List.map_append]
  rfl

section

variable {own : Bool} {t : Ticket} {d : List Chunk} (hG : ∀ {s op}, Allowed s op → G s op)

namespace ReaderWorker

open ChunkSink (sure_aborted sure_terminated sure_send)

omit hG in
theorem sure_resetLatch : Sure (serving (G := G) own t d) (resetLatch : M ε Unit) fun _ => serving true t d :=
  Triple.modify fun _ _ h => ⟨h.1, h.2.1, ⟨h.2.2.current, h.2.2.taken, h.2.2.clear, nofun⟩⟩

include hG

/-- The latch has fired, so a failure is reported as a cancellation. -/
theorem sure_fired (hd : Partial d) (fuel : Nat) {l₀ : Local} (hfired : l₀.fired = true) :
    Sure ((serving (G := G) true t d).at l₀) (ChunkSink.sendTerminal fuel t .aborted : M ε Unit) fun _ => closed t := by
  refine Triple.conseq (sure_aborted hG hd fuel) ?_ fun _ _ _ h => h
  rintro l s ⟨rfl, hsound, hp, hf⟩
  exact ⟨hsound, hp, .inl (hf.latched rfl hfired), hf.taken⟩

/-- The latch has not fired: it is the failure that is reported. -/
theorem sure_failed (hd : Partial d) (fuel : Nat) (l₀ : Local) (e : Error) :
    Sure ((serving (G := G) true t d).at l₀) (ChunkSink.sendTerminal fuel t (.error e) : M ε Unit) fun _ => closed t :=
  Triple.conseq (sure_terminated hG hd fuel (.error e) rfl nofun) (fun _ _ h => h.2) fun _ _ _ h => h

theorem sure_dispatchClean (fuel : Nat) (request : AsyncRequest) (deadline : RequestDeadline) :
    Sure (serving (G := G) own request.ticket []) (dispatchClean fuel request deadline : M ε (Option ResponseStart))
      fun o => if o.isSome then serving true request.ticket [] else closed request.ticket := by
  refine Triple.after (R := fun _ => serving own request.ticket []) (Triple.call fun l s h => ⟨hG trivial, fun _ s' hact => ?_⟩)
    fun _ => ?_
  · cases hact
    have hslot : Grows s (s.onSlot request.ticket fun slot => { slot with started := true }) :=
      Grows.onSlot (fun _ hc => hc) fun _ hd => hd
    exact ⟨h.1.onSlot (fun _ hc => hc) fun _ hd => hd, Lasting.lasts _ hslot h.2⟩
  refine Triple.after sure_resetLatch fun _ => ?_
  have hI := serving_carried hG true request.ticket []
  have hsend := Client.keeps_sendHeadInterruptible hI.settled (keeps_interruptOf hG (t := request.ticket) fuel)
    (Client.keeps_reconnectSameHost hI deadline) fuel (paramsOf request)
  refine Triple.after (R := fun _ => serving true request.ticket []) (Triple.attempt hsend fun _ _ _ h => h) fun r => ?_
  cases r with
  | ok head => exact Triple.pure fun _ _ h => h
  | error e =>
      refine Triple.look fun l₀ => ?_
      split
      next hfired => exact Triple.after (sure_fired hG (.inl rfl) fuel hfired) fun _ => Triple.pure fun _ _ h => h
      next => exact Triple.after (sure_failed hG (.inl rfl) fuel l₀ e) fun _ => Triple.pure fun _ _ h => h

theorem sure_dispatch (fuel : Nat) (request : AsyncRequest) (deadline : RequestDeadline) :
    Sure (holding (G := G) (fun l => tickets l.pending) [request.ticket] none (justTaken request.ticket))
      (dispatch fuel request deadline : M ε (Option ResponseStart))
      fun o => if o.isSome then serving true request.ticket [] else closed request.ticket := by
  have hblind : (underway request.ticket).Blind :=
    ⟨fun _ _ _ h => h, fun _ _ _ ha h => ⟨h.1.course (ha.course _ h.2.1).1, (ha.taken _).trans h.2.1, ha.current.trans h.2.2⟩⟩
  refine Triple.conseq (P := draining [request.ticket] (some request.ticket) true false (underway request.ticket))
    (Triple.after (ControlQueue.sure_pollCancel hG hblind fuel fuel false) fun b => ?_)
    (fun l s h => ⟨h.1, h.2.2.1, h.2.1, h.2.2.1.taken _ rfl, h.2.2.2⟩) fun _ _ _ h => h
  cases b with
  | true =>
      refine Triple.conseq (Triple.after (sure_aborted hG (.inl rfl) fuel) fun _ => Triple.pure fun _ _ h => h) ?_
        fun _ _ _ h => h
      rintro l s ⟨hsound, hv, hp, htaken, hcur⟩
      exact ⟨hsound, hp, .inl ((hv.reason rfl).excused hcur), htaken⟩
  | false =>
      -- the ring was drained, so no cancel of this request was queued before it was taken
      have hclean := Client.keeps_ensureClean (Client.keeps_reconnectSameHost (serving_carried hG false request.ticket []) .NONE)
      refine Triple.conseq (P := serving false request.ticket []) (Triple.after (R := fun _ => serving false request.ticket [])
        (Triple.attempt hclean fun _ _ _ h => h) fun r => ?_) ?_ fun _ _ _ h => h
      · cases r with
        | ok u => exact sure_dispatchClean hG fuel request deadline
        | error e =>
            exact Triple.after (sure_terminated hG (.inl rfl) fuel (.error e) rfl nofun) fun _ => Triple.pure fun _ _ h => h
      · rintro l s ⟨hsound, hv, hp, htaken, hcur⟩
        exact ⟨hsound, hp, ⟨hcur, htaken, (hv.clear rfl rfl _ rfl).2, nofun⟩⟩

theorem sure_drainErrorBody (hd : Headed d) (fuel : Nat) (framing : BodyFraming) (tail : Bytes) (deadline : RequestDeadline)
    (reuse : ConnectionReuse) :
    Sure (serving (G := G) true t d) (drainErrorBody fuel t framing tail deadline reuse : M ε Unit) fun _ => closed t := by
  have hI := serving_carried hG true t d
  have hclient : Sure (serving (G := G) true t d) (M.client : M ε Client) fun _ => serving true t d :=
    Triple.after (R := fun _ => serving true t d) (Triple.get fun _ _ h => h) fun _ => Triple.pure fun _ _ h => h
  have hmodify : ∀ f, Sure (serving (G := G) true t d) (M.modifyClient f : M ε Unit) fun _ => serving true t d :=
    fun f => Triple.modify fun l s h => hI.client l s _ h
  refine Triple.after hclient fun c => ?_
  refine Triple.after (R := fun _ => serving true t d)
    (Triple.after (hI.settled.sure rfl) fun _ => Triple.pure fun _ _ h => h) fun budget => ?_
  have hread := BodyCollector.keeps_read hI.settled (Stream.keeping_interruptible hI.settled (keeps_interruptOf hG fuel))
    c.config.maxResponseBody fuel budget framing tail
  refine Triple.after (R := fun _ => serving true t d) (Triple.attempt hread fun _ _ _ h => h) fun r => ?_
  cases r with
  | ok r =>
      refine Triple.after (hmodify _) fun _ => ?_
      split
      · exact sure_terminated hG hd.begun fuel .eof rfl nofun
      · refine Triple.after (sure_send hG hd.begun fuel (.body r.1)) fun sent => ?_
        cases sent with
        | ok u => exact sure_terminated hG (hd.body r.1).begun fuel .eof rfl nofun
        | error e => exact Triple.pure fun _ _ h => h
  | error e =>
      refine Triple.look fun l₀ => ?_
      split
      next hfired => exact sure_fired hG hd.begun fuel hfired
      next => exact sure_failed hG hd.begun fuel l₀ e

theorem sure_streamChunks (hd : Headed d) (fuel turns : Nat) (body : StreamingBody) :
    Sure (serving (G := G) true t d) (streamChunks fuel t turns body : M ε StreamingBody) fun _ => closed t := by
  induction turns generalizing d body with
  | zero => exact Triple.hang
  | succ turns ih =>
      refine Triple.after (StreamingBody.sure_read (serving_carried hG true t d).settled (triple_read hG fuel HEAD_BUF_SIZE) fuel
        HEAD_BUF_SIZE body) fun o => ?_
      obtain ⟨e | bytes, body'⟩ := o
      · dsimp only
        split
        next hmarks =>
          refine Triple.conseq (Triple.after (sure_aborted hG hd.begun fuel) fun _ => Triple.pure fun _ _ h => h) ?_
            fun _ _ _ h => h
          rintro l s ⟨⟨hsound, hp, hf⟩, hmark⟩
          exact ⟨hsound, hp, (hmark e rfl hmarks).imp_right And.left, hf.taken⟩
        next =>
          refine Triple.conseq (P := serving true t d) (Triple.after (sure_terminated hG hd.begun fuel (.error (.ofStdIo e)) rfl nofun)
            fun _ => Triple.pure fun _ _ h => h) (fun _ _ h => h.1) fun _ _ _ h => h
      · refine Triple.conseq (P := serving true t d) ?_ (fun _ _ h => h.1) fun _ _ _ h => h
        dsimp only
        split
        · exact Triple.after (sure_terminated hG hd.begun fuel .eof rfl nofun) fun _ => Triple.pure fun _ _ h => h
        · refine Triple.after (sure_send hG hd.begun fuel (.body bytes)) fun sent => ?_
          cases sent with
          | ok u => exact ih (hd.body bytes) body'
          | error e => exact Triple.pure fun _ _ h => h

omit hG in
theorem sure_modifyClient (f : Client → Client) :
    Sure (closed (G := G) t) (M.modifyClient f : M ε Unit) fun _ => closed t :=
  Triple.modify fun _ _ h => h

theorem sure_streamSuccess (hd : Headed d) (fuel : Nat) (framing : BodyFraming) (tail : Bytes) (reuse : ConnectionReuse) :
    Sure (serving (G := G) true t d) (streamSuccess fuel t framing tail reuse : M ε Unit) fun _ => closed t := by
  have hI := serving_carried hG true t d
  refine Triple.after (R := fun _ => serving true t d)
    (Triple.after (R := fun _ => serving true t d) (Triple.get fun _ _ h => h) fun _ => Triple.pure fun _ _ h => h) fun c => ?_
  refine Triple.after (StreamingBody.sure_new hI.settled c.dirty framing tail c.config.streamSilence reuse.isKeep) fun body => ?_
  exact Triple.after (sure_streamChunks hG hd fuel fuel body) fun body => sure_modifyClient _

theorem sure_streamBody (fuel : Nat) (request : AsyncRequest) (start : ResponseStart) (deadline : RequestDeadline) :
    Sure (serving (G := G) own request.ticket []) (streamBody fuel request start deadline : M ε Unit)
      fun _ => closed request.ticket := by
  have hI := serving_carried hG own request.ticket []
  refine Triple.after (R := fun _ => serving own request.ticket []) (Triple.modify fun l s h => hI.client l s _ h) fun _ => ?_
  refine Triple.after (sure_send hG (.inl rfl) fuel _) fun sent => ?_
  cases sent with
  | error e => exact Triple.pure fun _ _ h => h
  | ok u =>
      have hd : Headed ([] ++ [Chunk.head start.headData.status.code start.headData.headers]) := ⟨_, _, [], rfl⟩
      refine Triple.after sure_resetLatch fun _ => ?_
      refine Triple.after (R := fun _ => serving true request.ticket _) (Triple.after (R := fun _ => serving true request.ticket _)
        (Triple.get fun _ _ h => h) fun _ => Triple.pure fun _ _ h => h) fun c => ?_
      dsimp only
      split
      · exact sure_streamSuccess hG hd fuel start.framing _ _
      · exact sure_drainErrorBody hG hd fuel start.framing _ deadline _

/-- **Serving a request**: it may be dropped afterwards. -/
theorem sure_serve (fuel : Nat) (request : AsyncRequest) :
    Sure (holding (G := G) (fun l => tickets l.pending) [request.ticket] none (justTaken request.ticket))
      (serve fuel request : M ε Unit) fun _ => closed request.ticket := by
  have hafter : ∀ budget : Option Duration,
      Sure (holding (G := G) (fun l => tickets l.pending) [request.ticket] none (justTaken request.ticket))
        (RequestDeadline.after budget : M ε RequestDeadline)
        fun _ => holding (fun l => tickets l.pending) [request.ticket] none (justTaken request.ticket) := by
    intro budget
    cases budget with
    | none => exact Triple.pure fun _ _ h => h
    | some b =>
        refine Triple.after (R := fun _ => holding (fun l => tickets l.pending) [request.ticket] none (justTaken request.ticket))
          (Triple.call fun l s h => ⟨hG trivial, fun _ s' hact => ?_⟩) fun _ => Triple.pure fun _ _ h => h
        cases hact
        exact h
  refine Triple.after (R := fun _ => holding (fun l => tickets l.pending) [request.ticket] none (justTaken request.ticket))
    (Triple.after (R := fun _ => holding (fun l => tickets l.pending) [request.ticket] none (justTaken request.ticket))
      (Triple.get fun _ _ h => h) fun _ => Triple.pure fun _ _ h => h) fun c => ?_
  refine Triple.after (hafter _) fun deadline => ?_
  refine Triple.after (sure_dispatch hG fuel request deadline) fun start => ?_
  cases start with
  | none => exact Triple.pure fun _ _ h => h
  | some start => exact sure_streamBody hG fuel request start deadline

/-- Nothing more is known. -/
def nothing : Lasting := ⟨fun _ _ => True, fun _ h => h⟩

/-- **The reader thread** violates nothing. -/
theorem sure_run (fuel turns : Nat) :
    Sure (holding (G := G) (fun l => tickets l.pending) [] none nothing) (run fuel turns : M ε Unit)
      fun _ => holding (fun l => tickets l.pending) [] none nothing := by
  have hblind : nothing.Blind := ⟨fun _ _ _ _ => trivial, fun _ _ _ _ _ => trivial⟩
  have htake : ∀ {l : Local} {s s' : Shared} {t : Ticket}, s.answer (.mark (.taken t)) () = some s' →
      Untouched (s.fates t) → nothing l s → (fun _ => nothing) t l s' := fun _ _ _ => trivial
  induction turns with
  | zero => exact Triple.hang
  | succ turns ih =>
      refine Triple.after (ControlQueue.sure_nextRequest hG hblind htake fuel) fun next => ?_
      cases next with
      | none => exact Triple.pure fun _ _ h => h
      | some request =>
          refine Triple.conseq (P := holding (fun l => tickets l.pending) [request.ticket] none (justTaken request.ticket))
            (Triple.after (sure_serve hG fuel request) fun _ => ?_) (fun _ _ h => ⟨h.1, h.2.1⟩) fun _ _ _ h => h
          refine Triple.after (R := fun _ => holding (fun l => tickets l.pending) [] none nothing) (Triple.call ?_) fun _ => ih
          rintro l s ⟨hsound, hcloses, htaken⟩
          refine ⟨hG ⟨hcloses, hsound.room (List.mem_singleton_self _)⟩, fun _ s' hact => ?_⟩
          cases hact
          refine ⟨hsound.release fun hnot => ?_, trivial⟩
          rw [htaken] at hnot
          cases hnot

end ReaderWorker

end

/-- The reader thread, from the start. -/
theorem wp_reader {l : Local} (hl : l.pending = []) (fuel turns : Nat) :
    Prog.wp (threads Allowed) (ReaderWorker.run (ε := Empty) fuel turns l) (fun _ _ => True) .start := by
  have hsound : Sound (tickets l.pending) [] none .start := by
    rw [hl]
    exact Sound.start
  have hrun := ReaderWorker.sure_run (G := Allowed) (ε := Empty) id fuel turns l .start ⟨hsound, trivial⟩
  exact Prog.wp_mono hrun fun _ _ _ => trivial

end Xibalba
