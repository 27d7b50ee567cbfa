import Xibalba.Client.Correctness.Sound

/-!
# `Client.Correctness.Queue` — the control queue among its callers

The specifications of `ChunkSink` and `ControlQueue` in the world `threads`. What the reader knows of a request it has
taken is not disturbed by the callers, nor by its own hunt for cancels (`Apart`).

Layout:
* `Apart`, `Grows` and the facts that last;
* delivering a chunk: `ChunkSink.sure_sendInner`;
* the queue: `ControlQueue.sure_abortPending`, `sure_pollCancel`, `sure_nextRequest`.
-/

namespace Xibalba

open Act (Triple Sure Keeps)

/-! ## What lasts -/

/-- What the reader cannot tell apart in the requests it has taken: the callers went on, and requests that it has not
    taken came or went. -/
structure Apart (s s' : Shared) : Prop where
  current : s'.current = s.current
  returned : s'.returned = s.returned
  overtaken : s'.overtaken = s.overtaken
  shuttingDown : s.shuttingDown = true → s'.shuttingDown = true
  strikes : ∀ x ∈ s.strikes, x ∈ s'.strikes
  cancelled : ∀ u, (s.slots u).cancelled = true → (s'.slots u).cancelled = true
  consumerAlive : ∀ u, (s.slots u).consumerAlive = false → (s'.slots u).consumerAlive = false
  taken : ∀ u, (s'.fates u).taken = (s.fates u).taken
  course : ∀ u, (s.fates u).taken = true →
    SameCourse (s.fates u) (s'.fates u) ∧ (s'.fates u).forged = (s.fates u).forged ∧
      (s'.fates u).cancelQueued = (s.fates u).cancelQueued

/-- The callers went on: what is on the ring stays there, and nothing is delivered. -/
structure Grows (s s' : Shared) : Prop extends Apart s s' where
  ring : s.ring <+: s'.ring
  delivered : ∀ u, SameCourse (s.fates u) (s'.fates u)
  queued : ∀ u, (s.fates u).cancelQueued = true → (s'.fates u).cancelQueued = true
  forged : ∀ u, (s'.fates u).forged = (s.fates u).forged

theorem SameCourse.refl (f : Fate) : SameCourse f f := ⟨rfl, rfl, rfl, rfl⟩

theorem SameCourse.trans {f f' f'' : Fate} (h : SameCourse f f') (h' : SameCourse f' f'') : SameCourse f f'' :=
  ⟨h'.delivered.trans h.delivered, h'.taken.trans h.taken, h'.finished.trans h.finished, h'.cutOff.trans h.cutOff⟩

namespace Apart

variable {s s' s'' : Shared}

theorem refl (s : Shared) : Apart s s :=
  ⟨rfl, rfl, rfl, id, fun _ => id, fun _ => id, fun _ => id, fun _ => rfl, fun _ _ => ⟨.refl _, rfl, rfl⟩⟩

theorem trans (h : Apart s s') (h' : Apart s' s'') : Apart s s'' where
  current := h'.current.trans h.current
  returned := h'.returned.trans h.returned
  overtaken := h'.overtaken.trans h.overtaken
  shuttingDown hs := h'.shuttingDown (h.shuttingDown hs)
  strikes x hx := h'.strikes x (h.strikes x hx)
  cancelled u hu := h'.cancelled u (h.cancelled u hu)
  consumerAlive u hu := h'.consumerAlive u (h.consumerAlive u hu)
  taken u := (h'.taken u).trans (h.taken u)
  course u hu := by
    obtain ⟨hc, hf, hq⟩ := h.course u hu
    obtain ⟨hc', hf', hq'⟩ := h'.course u ((h.taken u).trans hu)
    exact ⟨hc.trans hc', hf'.trans hf, hq'.trans hq⟩

/-- Somebody's reason to give a request up does not go away. -/
theorem struck (h : Apart s s') {t : Ticket} (ht : Struck s t) : Struck s' t :=
  ht.imp (h.strikes _) (Or.imp (fun ho => h.overtaken.trans ho) h.shuttingDown)

theorem excused (h : Apart s s') {t : Ticket} (ht : Excused s t) : Excused s' t := by
  rcases ht with hs | hc | hx | ho
  · exact .inl (h.shuttingDown hs)
  · exact .inr (.inl (h.cancelled t hc))
  · exact .inr (.inr (.inl (h.strikes _ hx)))
  · exact .inr (.inr (.inr (h.overtaken.trans ho)))

end Apart

theorem Struck.excused {s : Shared} {t : Ticket} (h : Struck s t) : Excused s t := by
  rcases h with hx | ho | hs
  · exact .inr (.inr (.inl hx))
  · exact .inr (.inr (.inr ho))
  · exact .inl hs

namespace Grows

variable {s s' s'' : Shared}

theorem refl (s : Shared) : Grows s s := ⟨.refl s, List.prefix_refl _, fun _ => .refl _, fun _ => id, fun _ => rfl⟩

theorem trans (h : Grows s s') (h' : Grows s' s'') : Grows s s'' :=
  ⟨h.toApart.trans h'.toApart, h.ring.trans h'.ring, fun u => (h.delivered u).trans (h'.delivered u),
    fun u hu => h'.queued u (h.queued u hu), fun u => (h'.forged u).trans (h.forged u)⟩

/-- A change of one request's fate that leaves its course alone, and its cancels if it was taken. -/
theorem onFate {t : Ticket} {g : Fate → Fate} (hcourse : ∀ f, SameCourse f (g f)) (hforged : ∀ f, (g f).forged = f.forged)
    (hmore : ∀ f, f.cancelQueued = true → (g f).cancelQueued = true)
    (hqueued : (s.fates t).taken = true → (g (s.fates t)).cancelQueued = (s.fates t).cancelQueued) :
    Grows s (s.onFate t g) := by
  have hall : ∀ u, SameCourse (s.fates u) ((s.onFate t g).fates u) := fun u =>
    s.fates_onFate_of t u g (P := SameCourse (s.fates u)) (fun h => h.trans (hcourse _)) (.refl _)
  refine ⟨⟨rfl, rfl, rfl, id, fun _ => id, fun _ => id, fun _ => id, fun u => (hall u).taken, fun u hu => ⟨hall u, ?_⟩⟩,
    List.prefix_refl _, hall, fun u hu => s.fates_onFate_of t u g (P := fun f => f.cancelQueued = true) (hmore _) hu,
    fun u => s.fates_onFate_eq t u g (p := Fate.forged) (hforged _)⟩
  by_cases hut : u = t
  · subst hut
    rw [s.fates_onFate]
    exact ⟨hforged _, hqueued hu⟩
  · rw [s.fates_onFate_ne _ hut]
    exact ⟨rfl, rfl⟩

/-- A change of one request's slot that neither takes a cancel back nor revives a consumer. -/
theorem onSlot {t : Ticket} {f : Slot → Slot} (hcancel : ∀ slot, slot.cancelled = true → (f slot).cancelled = true)
    (halive : ∀ slot, slot.consumerAlive = false → (f slot).consumerAlive = false) : Grows s (s.onSlot t f) :=
  ⟨⟨rfl, rfl, rfl, id, fun _ => id,
    fun u hu => s.slots_onSlot_of t u f (P := fun slot => slot.cancelled = true) (hcancel _) hu,
    fun u hu => s.slots_onSlot_of t u f (P := fun slot => slot.consumerAlive = false) (halive _) hu,
    fun _ => rfl, fun _ _ => ⟨.refl _, rfl, rfl⟩⟩, List.prefix_refl _, fun _ => .refl _, fun _ => id, fun _ => rfl⟩

theorem arrive (s : Shared) (c : Calling) : Grows s (s.arrive c) := by
  have hfirst : Grows s { s with ring := s.ring ++ [c.message], calls := s.calls.erase c } :=
    { refl s with ring := List.prefix_append _ _ }
  cases c with
  | submit r => exact { hfirst with }
  | cancel t =>
      unfold Shared.arrive
      dsimp only
      split
      · exact hfirst
      next hnot =>
        refine hfirst.trans (onFate (fun _ => ⟨rfl, rfl, rfl, rfl⟩) (fun _ => rfl) (fun _ _ => rfl) ?_)
        exact fun htaken => absurd htaken hnot
  | cancelAny => exact hfirst
  | wakeup => exact hfirst

theorem refuse {c : Calling} {s' : Shared} (h : s.refuse c = some s') : Grows s s' := by
  cases c with
  | submit r =>
      cases h
      exact { refl s with }
  | cancel t =>
      cases h
      split
      · exact { refl s with }
      · have hfirst : Grows s { s with calls := s.calls.erase (.cancel t) } := { refl s with }
        exact hfirst.trans (onFate (fun _ => ⟨rfl, rfl, rfl, rfl⟩) (fun _ => rfl) (fun _ => id) fun _ => rfl)
  | cancelAny =>
      cases h
      exact { refl s with }
  | wakeup => cases h

/-- A step of a caller. -/
theorem of_performed (h : Performed s s') : Grows s s' := by
  cases h with
  | idle => exact refl _
  | refused _ => exact { refl s with }
  | submit r _ _ => exact { refl s with }
  | cancel t _ =>
      have hslot := onSlot (s := s) (t := t) (f := fun slot => { slot with cancelled := true }) (fun _ _ => rfl) fun _ hd => hd
      exact { hslot with }
  | cancelAny => exact { refl s with strikes := fun _ hx => List.mem_cons_of_mem _ hx }
  | shutdown => exact { refl s with shuttingDown := fun _ => rfl }
  | arrive call _ _ => exact arrive s call
  | refuse call _ _ h => exact refuse h
  | next t => exact onSlot (fun _ hc => hc) fun _ hd => hd
  | drop t =>
      have hslot := onSlot (s := s) (t := t) (f := fun slot => { slot with consumerAlive := false }) (fun _ hc => hc)
        fun _ _ => rfl
      exact { hslot with }

/-- **The callers go on.** -/
theorem of_env {G : Shared → Op → Prop} (h : (threads G).env s s') : Grows s s' :=
  env_of_step (P := Grows s) (fun hstep hs => hs.trans (of_performed hstep.performed)) h (refl s)

end Grows

/-- What the reader knows and the callers leave true. -/
structure Lasting where
  holds : Local → Shared → Prop
  lasts : ∀ {l s s'}, Grows s s' → holds l s → holds l s'

namespace Lasting

instance : CoeFun Lasting fun _ => Local → Shared → Prop := ⟨holds⟩

protected def and (F F' : Lasting) : Lasting := ⟨fun l s => F l s ∧ F' l s, fun h hs => hs.imp (F.lasts h) (F'.lasts h)⟩

end Lasting

variable {G : Shared → Op → Prop} {ε : Type}

/-- The invariant, and what the reader knows besides. -/
def holding (queue : Local → List Ticket) (held : List Ticket) (spared : Option Ticket) (F : Lasting) :
    (threads G).Assertion Local where
  holds l s := Sound (queue l) held spared s ∧ F l s
  stable henv h := ⟨h.1.env henv, F.lasts (.of_env henv) h.2⟩

/-! ## Delivering chunks -/

/-- What was delivered so far; no cancel flag was seen. -/
structure Progress (t : Ticket) (d : List Chunk) (s : Shared) : Prop where
  delivered : (s.fates t).delivered = d
  cutOff : (s.fates t).cutOff = false

theorem Progress.course {t : Ticket} {d : List Chunk} {s s' : Shared} (h : Progress t d s)
    (hc : SameCourse (s.fates t) (s'.fates t)) : Progress t d s' :=
  ⟨hc.delivered.trans h.delivered, hc.cutOff.trans h.cutOff⟩

/-- The delivery was given up. -/
def Stopped (observe : Bool) (t : Ticket) (d : List Chunk) (s : Shared) : Prop :=
  (Progress t d s ∧ (s.shuttingDown = true ∨ (s.slots t).consumerAlive = false)) ∨
    (observe = true ∧ (s.fates t).delivered = d ∧ (s.fates t).cutOff = true ∧ Excused s t)

theorem Stopped.grows {observe : Bool} {t : Ticket} {d : List Chunk} {s s' : Shared} (h : Stopped observe t d s)
    (hg : Grows s s') : Stopped observe t d s' := by
  rcases h with ⟨hp, hend⟩ | ⟨ho, hd, hc, hx⟩
  · exact .inl ⟨hp.course (hg.delivered t), hend.imp hg.shuttingDown (hg.consumerAlive t)⟩
  · exact .inr ⟨ho, (hg.delivered t).delivered.trans hd, (hg.delivered t).cutOff.trans hc, hg.excused hx⟩

/-- Where a request's delivery stands. -/
def delivering (t : Ticket) (d : List Chunk) : Lasting :=
  ⟨fun _ s => Progress t d s, fun hg h => h.course (hg.delivered t)⟩

/-- What a delivery comes to. -/
def delivery (observe : Bool) (t : Ticket) (d : List Chunk) (chunk : Chunk) : Except Undelivered Unit → Lasting
  | .ok () => delivering t (d ++ [chunk])
  | .error _ => ⟨fun _ s => Stopped observe t d s, fun hg h => h.grows hg⟩

/-- Only what one request was sent has changed. -/
structure SameBut (t : Ticket) (s s' : Shared) : Prop where
  rest : { s' with slots := s.slots, fates := s.fates } = s
  slots : ∀ u, (s'.slots u).cancelled = (s.slots u).cancelled ∧ (s'.slots u).consumerAlive = (s.slots u).consumerAlive
  others : ∀ u, u ≠ t → s'.fates u = s.fates u
  same : (s'.fates t).taken = (s.fates t).taken ∧ (s'.fates t).cancelQueued = (s.fates t).cancelQueued ∧
    (s'.fates t).forged = (s.fates t).forged

/-- What is known does not depend on what the request was sent. -/
def Lasting.Free (F : Lasting) (t : Ticket) : Prop := ∀ l s s', SameBut t s s' → F l s → F l s'

theorem Shared.loaded_eq {s s' : Shared} {x b : Bool} (h : s.loaded x b = some s') : s' = s ∧ b = x := by
  unfold Shared.loaded at h
  split at h
  next hb =>
    cases h
    exact ⟨rfl, hb⟩
  · cases h

theorem SameBut.onFate {s : Shared} {t : Ticket} {g : Fate → Fate} (htaken : ∀ f, (g f).taken = f.taken)
    (hqueued : ∀ f, (g f).cancelQueued = f.cancelQueued) (hforged : ∀ f, (g f).forged = f.forged) :
    SameBut t s (s.onFate t g) where
  rest := rfl
  slots _ := ⟨rfl, rfl⟩
  others u hu := s.fates_onFate_ne _ hu
  same := by
    rw [s.fates_onFate]
    exact ⟨htaken _, hqueued _, hforged _⟩

/-- A cancel flag is seen before a delivery. -/
theorem Sound.see {queue held : List Ticket} {spared : Option Ticket} {s : Shared} {t : Ticket} {d : List Chunk}
    (h : Sound queue held spared s) (ht : t ∈ held) (hp : Progress t d s) (hx : Excused s t) :
    Sound queue held spared (s.onFate t fun f => { f with cutOff := true }) ∧
      Stopped true t d (s.onFate t fun f => { f with cutOff := true }) ∧
      SameBut t s (s.onFate t fun f => { f with cutOff := true }) := by
  refine ⟨h.touch ht (fun _ => rfl) (fun _ => rfl) fun _ => rfl, .inr ⟨rfl, ?_, ?_, hx⟩,
    .onFate (fun _ => rfl) (fun _ => rfl) fun _ => rfl⟩
  · rw [s.fates_onFate]
    exact hp.delivered
  · rw [s.fates_onFate]

/-- A chunk is put on a request's ring. -/
theorem Sound.deliver {queue held : List Ticket} {spared : Option Ticket} {s : Shared} {t : Ticket} {d : List Chunk}
    (h : Sound queue held spared s) (ht : t ∈ held) (hp : Progress t d s) (chunk : Chunk) :
    let s' := (s.onSlot t fun slot => { slot with chunks := slot.chunks ++ [chunk] }).onFate t
      fun f => { f with delivered := f.delivered ++ [chunk] }
    Sound queue held spared s' ∧ Progress t (d ++ [chunk]) s' ∧ SameBut t s s' := by
  have hslot := h.onSlot (t := t) (f := fun slot => { slot with chunks := slot.chunks ++ [chunk] }) (fun _ hc => hc)
    fun _ hd => hd
  refine ⟨hslot.touch ht (fun _ => rfl) (fun _ => rfl) fun _ => rfl, ⟨?_, ?_⟩, rfl, fun u => ?_, fun u hu => ?_, ?_⟩
  · rw [Shared.fates_onFate]
    exact congrArg (· ++ [chunk]) hp.delivered
  · rw [Shared.fates_onFate]
    exact hp.cutOff
  · exact s.slots_onSlot_of t u (fun slot => { slot with chunks := slot.chunks ++ [chunk] })
      (P := fun slot => slot.cancelled = (s.slots u).cancelled ∧ slot.consumerAlive = (s.slots u).consumerAlive)
      (fun h => h) ⟨rfl, rfl⟩
  · exact Shared.fates_onFate_ne _ _ hu
  · rw [Shared.fates_onFate]
    exact ⟨rfl, rfl, rfl⟩

section

variable {queue : Local → List Ticket} {held : List Ticket} {spared : Option Ticket} {t : Ticket} {d : List Chunk}
  {F : Lasting} (hG : ∀ {s op}, Allowed s op → G s op) (ht : t ∈ held) (hF : F.Free t)

/-- A delivery that was given up. -/
def stopped (observe : Bool) (t : Ticket) (d : List Chunk) : Lasting :=
  ⟨fun _ s => Stopped observe t d s, fun hg h => h.grows hg⟩

include hG ht hF

theorem ChunkSink.sure_observesCancel (hcur : ∀ l s, F l s → s.current = some t) :
    Sure (holding (G := G) queue held spared ((delivering t d).and F)) (observesCancel t : M ε Bool)
      fun b => holding queue held spared ((if b then stopped true t d else delivering t d).and F) := by
  refine Triple.after (R := fun b => holding queue held spared ((if b then stopped true t d else delivering t d).and F))
    (Triple.call fun l s h => ⟨hG (h.1.unfinished t ht), fun b s' hact => ?_⟩) fun b => ?_
  · obtain ⟨hs', rfl⟩ := Shared.loaded_eq hact
    subst hs'
    obtain ⟨hsound, hp, hf⟩ := h
    cases hc : (s.slots t).cancelled with
    | false => exact ⟨hsound, hp, hf⟩
    | true =>
        obtain ⟨hsound', hstop, hsame⟩ := hsound.see ht hp (.inr (.inl hc))
        exact ⟨hsound', hstop, hF _ _ _ hsame hf⟩
  · cases b with
    | true => exact Triple.pure fun _ _ h => h
    | false =>
        refine Triple.call fun l s h => ⟨hG fun u hu => h.1.unfinished u (h.1.inFlight u hu).1, fun b s' hact => ?_⟩
        obtain ⟨hs', rfl⟩ := Shared.loaded_eq hact
        subst hs'
        obtain ⟨hsound, hp, hf⟩ := h
        rw [hcur l s hf]
        cases hc : s.cancelAny with
        | false => exact ⟨hsound, hp, hf⟩
        | true =>
            have hstruck := hsound.struck t (hcur l s hf) (s.cancelPending_iff.mpr (.inl hc))
            obtain ⟨hsound', hstop, hsame⟩ := hsound.see ht hp hstruck.excused
            exact ⟨hsound', hstop, hF _ _ _ hsame hf⟩

theorem ChunkSink.sure_blockedReason (observe : Bool) (hcur : observe = true → ∀ l s, F l s → s.current = some t) :
    Sure (holding (G := G) queue held spared ((delivering t d).and F)) (blockedReason t observe : M ε (Option Undelivered))
      fun r => holding queue held spared ((if r.isSome then stopped observe t d else delivering t d).and F) := by
  refine Triple.after
    (R := fun b => holding queue held spared ((if b then stopped observe t d else delivering t d).and F))
    (Triple.call fun l s h => ⟨hG trivial, fun b s' hact => ?_⟩) fun b => ?_
  · obtain ⟨rfl, rfl⟩ := Shared.loaded_eq hact
    obtain ⟨hsound, hp, hf⟩ := h
    cases hs : s'.shuttingDown with
    | false => exact ⟨hsound, hp, hf⟩
    | true => exact ⟨hsound, .inl ⟨hp, .inl hs⟩, hf⟩
  cases b with
  | true => exact Triple.pure fun _ _ h => h
  | false =>
      -- the flags are clear; is there still somebody who reads?
      have hrest : ∀ cancelled : Bool,
          Triple (holding (G := G) queue held spared ((if cancelled then stopped observe t d else delivering t d).and F))
            (if cancelled then pure (some .consumerGone)
              else do if ← M.loadConsumerAlive t then return none else return some .consumerGone : M ε (Option Undelivered))
            (.onOk fun r => holding queue held spared ((if r.isSome then stopped observe t d else delivering t d).and F)) := by
        intro cancelled
        cases cancelled with
        | true => exact Triple.pure fun _ _ h => h
        | false =>
            refine Triple.after
              (R := fun b => holding queue held spared ((if b then delivering t d else stopped observe t d).and F))
              (Triple.call fun l s h => ⟨hG trivial, fun b s' hact => ?_⟩) fun b => ?_
            · obtain ⟨rfl, rfl⟩ := Shared.loaded_eq hact
              obtain ⟨hsound, hp, hf⟩ := h
              cases hs : (s'.slots t).consumerAlive with
              | false => exact ⟨hsound, .inl ⟨hp, .inr hs⟩, hf⟩
              | true => exact ⟨hsound, hp, hf⟩
            · cases b with
              | true => exact Triple.pure fun _ _ h => h
              | false => exact Triple.pure fun _ _ h => h
      cases observe with
      | true => exact Triple.after (sure_observesCancel hG ht hF (hcur rfl)) hrest
      | false =>
          exact Triple.after (R := fun b : Bool => holding queue held spared
            ((if b then stopped false t d else delivering t d).and F)) (Triple.pure fun _ _ h => h) hrest

/-- **Delivering a chunk.** It is delivered, or the delivery is given up for a reason. -/
theorem ChunkSink.sure_sendInner (observe : Bool) (hcur : observe = true → ∀ l s, F l s → s.current = some t)
    (chunk : Chunk) (turns : Nat) :
    Sure (holding (G := G) queue held spared ((delivering t d).and F))
      (sendInner t chunk observe turns : M ε (Except Undelivered Unit))
      fun r => holding queue held spared ((delivery observe t d chunk r).and F) := by
  induction turns with
  | zero => exact Triple.hang
  | succ turns ih =>
      refine Triple.after (sure_blockedReason hG ht hF observe hcur) fun r => ?_
      cases r with
      | some reason => exact Triple.pure fun _ _ h => h
      | none =>
          refine Triple.after
            (R := fun b => holding queue held spared ((if b then delivering t (d ++ [chunk]) else delivering t d).and F))
            (Triple.call fun l s h => ⟨hG (h.1.unfinished t ht), fun b s' hact => ?_⟩) fun b => ?_
          · obtain ⟨hsound, hp, hf⟩ := h
            unfold threads Shared.answer Shared.delivers at hact
            dsimp only at hact
            split at hact
            · cases b with
              | false =>
                  cases hact
                  exact ⟨hsound, hp, hf⟩
              | true =>
                  cases hact
                  obtain ⟨hsound', hp', hsame⟩ := hsound.deliver ht hp chunk
                  exact ⟨hsound', hp', hF _ _ _ hsame hf⟩
            · cases hact
          · cases b with
            | true => exact Triple.pure fun _ _ h => h
            | false => exact ih

/-- How a request stands after its terminator was to be delivered. -/
def ending (t : Ticket) (d : List Chunk) (chunk : Chunk) : Lasting where
  holds _ s := Progress t (d ++ [chunk]) s ∨ Stopped false t d s
  lasts hg h := h.imp (fun hp => hp.course (hg.delivered t)) fun hs => hs.grows hg

/-- **Delivering a terminator.** -/
theorem ChunkSink.sure_sendTerminal (fuel : Nat) (chunk : Chunk) :
    Sure (holding (G := G) queue held spared ((delivering t d).and F)) (sendTerminal fuel t chunk : M ε Unit)
      fun _ => holding queue held spared ((ending t d chunk).and F) := by
  refine Triple.after (sure_sendInner hG ht hF false nofun chunk fuel) fun r => ?_
  apply Triple.pure
  rintro l s ⟨hsound, hd, hf⟩
  refine ⟨hsound, ?_, hf⟩
  cases r with
  | ok u => exact .inl hd
  | error e => exact .inr hd

end

/-! ## The queue -/

/-- What the reader knows, if it does not depend on the requests that wait. -/
structure Lasting.Steady (F : Lasting) : Prop where
  pending : ∀ l s pending, F l s → F { l with pending := pending } s
  apart : ∀ l s s', Apart s s' → s'.ring = s.ring → F l s → F l s'

/-- What the reader knows, if it does not depend on the ring either. -/
structure Lasting.Blind (F : Lasting) : Prop where
  pending : ∀ l s pending, F l s → F { l with pending := pending } s
  apart : ∀ l s s', Apart s s' → F l s → F l s'

theorem SameBut.apart {t : Ticket} {s s' : Shared} (h : SameBut t s s') (ht : (s.fates t).taken = false) : Apart s s' := by
  have hrest : ∀ {β : Type} (p : Shared → β), p { s' with slots := s.slots, fates := s.fates } = p s :=
    fun p => congrArg p h.rest
  refine ⟨hrest Shared.current, hrest Shared.returned, hrest Shared.overtaken, fun hs => ?_, fun x hx => ?_,
    fun u hu => (h.slots u).1.trans hu, fun u hu => (h.slots u).2.trans hu, fun u => ?_, fun u hu => ?_⟩
  · exact (hrest Shared.shuttingDown).trans hs
  · exact (hrest Shared.strikes).symm ▸ hx
  · by_cases hut : u = t
    · subst hut
      exact h.same.1
    · rw [h.others u hut]
  · have hut : u ≠ t := by
      rintro rfl
      rw [ht] at hu
      cases hu
    rw [h.others u hut]
    exact ⟨.refl _, rfl, rfl⟩

theorem tickets_eraseP (pending : List AsyncRequest) (t : Ticket) :
    tickets (pending.eraseP (·.ticket = t)) = (tickets pending).erase t := by
  induction pending with
  | nil => rfl
  | cons r pending ih =>
      by_cases hr : r.ticket = t
      · rw [List.eraseP_cons_of_pos (by simpa using hr)]
        show tickets pending = (r.ticket :: tickets pending).erase t
        rw [hr, List.erase_cons_head]
      · rw [List.eraseP_cons_of_neg (by simpa using hr)]
        show r.ticket :: tickets _ = (r.ticket :: tickets pending).erase t
        rw [ih, List.erase_cons_tail (by simpa using hr)]

theorem find?_tickets {pending : List AsyncRequest} {t : Ticket} (h : pending.find? (·.ticket = t) = none) :
    t ∉ tickets pending := by
  intro hmem
  obtain ⟨r, hr, hrt⟩ := List.mem_map.mp hmem
  have hnot := List.find?_eq_none.mp h r hr
  simp [hrt] at hnot

section

variable {held : List Ticket} {t : Ticket} {F : Lasting} (hG : ∀ {s op}, Allowed s op → G s op) (hF : F.Steady)

/-- The request was cancelled while it waited. -/
structure Noted (t : Ticket) (s : Shared) : Prop where
  queued : (s.fates t).cancelQueued = true
  cancelled : (s.slots t).cancelled = true
  taken : (s.fates t).taken = false

theorem Noted.grows {t : Ticket} {s s' : Shared} (h : Noted t s) (hg : Grows s s') : Noted t s' :=
  ⟨hg.queued t h.queued, hg.cancelled t h.cancelled, (hg.taken t).trans h.taken⟩

def noted (t : Ticket) : Lasting := ⟨fun _ s => Noted t s, fun hg h => h.grows hg⟩

/-- What is known of the requests that were taken does not depend on what one that was not is sent. -/
theorem Lasting.Steady.free_noted (hF : F.Steady) (t : Ticket) : ((noted t).and F).Free t := by
  rintro l s s' hsame ⟨hn, hf⟩
  have happart := hsame.apart hn.taken
  have hring : s'.ring = s.ring := (congrArg Shared.ring hsame.rest : _)
  exact ⟨⟨hsame.same.2.1.trans hn.queued, happart.cancelled t hn.cancelled, hsame.same.1.trans hn.taken⟩,
    hF.apart l s s' happart hring hf⟩

/-- The cancel of a request has been taken off the ring, and the request is still in the queue if it ever was. -/
def sparing (held : List Ticket) (t : Ticket) (F : Lasting) : (threads G).Assertion Local where
  holds l s := Sound (tickets l.pending) held (if t ∈ tickets l.pending then some t else none) s ∧
    (t ∈ tickets l.pending → Noted t s) ∧ F l s
  stable henv h := ⟨h.1.env henv, fun hmem => (h.2.1 hmem).grows (.of_env henv), F.lasts (.of_env henv) h.2.2⟩

/-- A request that was cancelled in the queue may end so. -/
theorem Noted.closes {s : Shared} (h : Noted t s) (hend : Progress t ([] ++ [Chunk.aborted]) s ∨ Stopped false t [] s) :
    Closes s t ∧ ((s.fates t).delivered = [Chunk.aborted] ∨ s.shuttingDown = true ∨ (s.slots t).consumerAlive = false) := by
  rcases hend with hp | ⟨hp, hwhy⟩ | ⟨hno, -⟩
  · refine ⟨.inl ⟨⟨[], .aborted, hp.delivered, .inl rfl, rfl⟩, hp.cutOff, fun _ => ?_⟩, .inl hp.delivered⟩
    exact .inl (.inr (.inl h.cancelled))
  · refine ⟨.inr ⟨.inl hp.delivered, ?_⟩, .inr hwhy⟩
    exact hwhy.imp_right .inl
  · cases hno

/-- What the guard of a drop asks of the ring holds when a request is held. -/
theorem Sound.room {queue : List Ticket} {spared : Option Ticket} {s : Shared} (h : Sound queue held spared s)
    (ht : t ∈ held) : (submits s.calls).length + (requests s.ring).length < s.outstanding := by
  have hpos := List.length_pos_of_mem ht
  have hp := h.permits
  unfold waiting at hp
  rw [List.length_append, List.length_append] at hp
  omega

theorem Apart.drop {s : Shared} (htaken : (s.fates t).taken = false) (hcur : s.current ≠ some t) :
    Apart s { s.onFate t (fun f => { f with finished := true }) with
      outstanding := s.outstanding - 1, current := if s.current = some t then none else s.current } := by
  refine { Apart.refl s with current := if_neg hcur, taken := fun u => ?_, course := fun u hu => ?_ }
  · exact s.fates_onFate_eq t u (fun f => { f with finished := true }) (p := Fate.taken) rfl
  · have hut : u ≠ t := by
      rintro rfl
      rw [htaken] at hu
      cases hu
    show SameCourse _ ((s.onFate t fun f => { f with finished := true }).fates u) ∧
      ((s.onFate t fun f => { f with finished := true }).fates u).forged = _ ∧
      ((s.onFate t fun f => { f with finished := true }).fates u).cancelQueued = _
    rw [s.fates_onFate_ne _ hut]
    exact ⟨.refl _, rfl, rfl⟩

include hG hF

/-- **Retiring a request that waits in the queue.** -/
theorem ControlQueue.sure_abortPending (fuel : Nat) :
    Sure (sparing (G := G) held t F) (abortPending fuel t : M ε Unit)
      fun _ => holding (fun l => tickets l.pending) held none F := by
  refine Triple.look fun l₀ => ?_
  cases hfind : l₀.pending.find? (·.ticket = t) with
  | none =>
      apply Triple.pure
      rintro l s ⟨rfl, hsound, -, hf⟩
      rw [if_neg (find?_tickets hfind)] at hsound
      exact ⟨hsound, hf⟩
  | some r =>
      have hr : r.ticket = t := by simpa using List.find?_some hfind
      have hmem : t ∈ tickets l₀.pending := List.mem_map.mpr ⟨r, List.mem_of_find?_eq_some hfind, hr⟩
      refine Triple.after (R := fun _ => holding (fun l => tickets l.pending) (t :: held) none
        ((delivering t []).and ((noted t).and F))) (Triple.modify ?_) fun _ => ?_
      · rintro l s ⟨rfl, hsound, hn, hf⟩
        rw [if_pos hmem] at hsound
        have huntouched := hsound.untouched t (List.mem_append_right _ (List.mem_append_left _ hmem))
        refine ⟨?_, ⟨huntouched.delivered, huntouched.cutOff⟩, hn hmem, hF.pending _ _ _ hf⟩
        show Sound (tickets (l.pending.eraseP (·.ticket = t))) (t :: held) none s
        rw [tickets_eraseP]
        exact hsound.remove hmem fun u hu heq => hu (Option.some.inj heq)
      · rw [hr]
        refine Triple.after (ChunkSink.sure_sendTerminal hG List.mem_cons_self (hF.free_noted t) fuel .aborted) fun _ => ?_
        apply Triple.call
        rintro l s ⟨hsound, hend, hn, hf⟩
        obtain ⟨hcloses, hwhy⟩ := hn.closes hend
        refine ⟨hG ⟨hcloses, hsound.room List.mem_cons_self⟩, fun _ s' hact => ?_⟩
        cases hact
        have hcur : s.current ≠ some t := by
          intro hc
          have htaken := (hsound.taken t).mpr (hsound.inFlight t hc).2
          rw [hn.taken] at htaken
          cases htaken
        exact ⟨hsound.release fun _ => ⟨hn.queued, hwhy⟩, hF.apart _ _ _ (Apart.drop hn.taken hcur) rfl hf⟩

end

/-- An `AsyncClient::cancel`, or the client's end, was meant for the request in flight. -/
structure Signalled (s : Shared) : Prop where
  struck : ∀ t, s.current = some t → Struck s t
  published : s.strikes ≠ [] ∨ s.shuttingDown = true

/-- Why `poll_cancel` may report a cancel of `current`. -/
def Reason (current : Option Ticket) (s : Shared) : Prop :=
  s.shuttingDown = true ∨ (∃ t, current = some t ∧ (s.slots t).cancelled = true) ∨ Signalled s

theorem Signalled.apart {s s' : Shared} (h : Signalled s) (ha : Apart s s') : Signalled s' := by
  refine ⟨fun t ht => ha.struck (h.struck t (ha.current.symm.trans ht)), h.published.imp (fun hne => ?_) ha.shuttingDown⟩
  obtain ⟨x, hx⟩ := List.exists_mem_of_ne_nil _ hne
  exact List.ne_nil_of_mem (ha.strikes x hx)

theorem Reason.apart {current : Option Ticket} {s s' : Shared} (h : Reason current s) (ha : Apart s s') :
    Reason current s' := by
  rcases h with hs | ⟨t, rfl, hc⟩ | hsig
  · exact .inl (ha.shuttingDown hs)
  · exact .inr (.inl ⟨t, rfl, ha.cancelled t hc⟩)
  · exact .inr (.inr (hsig.apart ha))

/-- What a hunt for cancels of `current` has found so far. When it is `armed`, a cancel that was queued before the
    request was taken has been found, or is still on the ring. -/
structure Hunt (current : Option Ticket) (armed found : Bool) (s : Shared) : Prop where
  reason : found = true → Reason current s
  taken : ∀ t, current = some t → (s.fates t).taken = true
  due : armed = true → ∀ t, current = some t → (s.fates t).cancelQueued = true → found = true ∨ .cancel t ∈ s.ring

theorem Hunt.apart {current : Option Ticket} {armed found : Bool} {s s' : Shared} (h : Hunt current armed found s)
    (ha : Apart s s') (hring : armed = true → ∀ t, current = some t → .cancel t ∈ s.ring → .cancel t ∈ s'.ring) :
    Hunt current armed found s' := by
  refine ⟨fun hfound => (h.reason hfound).apart ha, fun t ht => (ha.taken t).trans (h.taken t ht), fun harmed t ht hq => ?_⟩
  have hsame := (ha.course t (h.taken t ht)).2.2
  exact (h.due harmed t ht (hsame.symm.trans hq)).imp_right (hring harmed t ht)

def hunting (current : Option Ticket) (armed found : Bool) : Lasting where
  holds _ s := Hunt current armed found s
  lasts hg h := h.apart hg.toApart fun _ _ _ hmem => hg.ring.subset hmem

/-- What a finished hunt says. -/
structure Verdict (current : Option Ticket) (armed b : Bool) (s : Shared) : Prop where
  reason : b = true → Reason current s
  clear : b = false → armed = true → ∀ t, current = some t →
    (s.fates t).taken = true ∧ (s.fates t).cancelQueued = false

def verdict (current : Option Ticket) (armed b : Bool) : Lasting where
  holds _ s := Verdict current armed b s
  lasts hg h := by
    refine ⟨fun hb => (h.reason hb).apart hg.toApart, fun hb harmed t ht => ?_⟩
    obtain ⟨htaken, hq⟩ := h.clear hb harmed t ht
    exact ⟨(hg.taken t).trans htaken, (hg.course t htaken).2.2.trans hq⟩

theorem Apart.ring (s : Shared) (ring : List Control) : Apart s { s with ring := ring } := { Apart.refl s with }

theorem Shared.popped_none {s s' : Shared} (h : s.popped none = some s') : s.ring = [] ∧ s' = s := by
  unfold Shared.popped at h
  dsimp only at h
  split at h
  next hnil =>
    cases h
    exact ⟨hnil, rfl⟩
  · cases h

theorem Shared.popped_some {s s' : Shared} {msg : Control} (h : s.popped (some msg) = some s') :
    ∃ ring, s.ring = msg :: ring ∧ s' = { s with ring := ring } := by
  unfold Shared.popped at h
  dsimp only at h
  split at h
  next hhead =>
    cases h
    exact ⟨s.ring.tail, List.eq_cons_of_mem_head? hhead, rfl⟩
  · cases h

section

variable {held : List Ticket} {current : Option Ticket} {armed : Bool} {F : Lasting}
  (hG : ∀ {s op}, Allowed s op → G s op) (hF : F.Blind)

/-- What holds while the ring is drained. -/
def draining (held : List Ticket) (current : Option Ticket) (armed found : Bool) (F : Lasting) :
    (threads G).Assertion Local :=
  holding (fun l => tickets l.pending) held none ((hunting current armed found).and F)

/-- What holds after a message was taken off the ring. -/
def afterPop (held : List Ticket) (current : Option Ticket) (armed found : Bool) (F : Lasting) :
    Option Control → (threads G).Assertion Local
  | none => holding (fun l => tickets l.pending) held none ((verdict current armed found).and F)
  | some (.request r) =>
    holding (fun l => tickets l.pending ++ [r.ticket]) held none ((hunting current armed found).and F)
  | some (.cancel t) =>
    if current = some t then draining held current armed true F
    else sparing held t ((hunting current armed found).and F)
  | some .cancelAny =>
    holding (fun l => tickets l.pending) held none
      (((hunting current armed found).and F).and ⟨fun _ s => Signalled s, fun hg h => h.apart hg.toApart⟩)

include hG hF

theorem ControlQueue.sure_pop (found : Bool) :
    Sure (draining (G := G) held current armed found F) (M.pop : M ε (Option Control))
      (afterPop held current armed found F) := by
  apply Triple.call
  rintro l s ⟨hsound, hh, hf⟩
  refine ⟨hG trivial, ?_⟩
  intro msg s' hact
  cases msg with
  | none =>
      obtain ⟨hnil, rfl⟩ := Shared.popped_none hact
      refine ⟨hsound, ⟨hh.reason, fun hfound harmed t ht => ⟨hh.taken t ht, ?_⟩⟩, hf⟩
      -- the ring is empty, so a cancel that was due would have been found
      cases hq : (s'.fates t).cancelQueued with
      | false => rfl
      | true =>
          rcases hh.due harmed t ht hq with h | h
          · rw [hfound] at h
            cases h
          · rw [hnil] at h
            cases h
  | some msg =>
      obtain ⟨ring, hring, rfl⟩ := Shared.popped_some hact
      have happart := Apart.ring s ring
      have hother : ∀ {m : Control}, m ∈ s.ring → m ≠ msg → m ∈ ring := by
        intro m hm hne
        rw [hring] at hm
        exact (List.mem_cons.mp hm).resolve_left hne
      cases msg with
      | request r =>
          refine ⟨hsound.displace hring, hh.apart happart fun _ t _ hm => ?_, hF.apart _ _ _ happart hf⟩
          exact hother hm nofun
      | cancelAny =>
          have hmem : Control.cancelAny ∈ s.ring := by
            rw [hring]
            exact List.mem_cons_self
          have hpend := s.cancelPending_iff.mpr (.inr (.inl hmem))
          have hsig : Signalled s := ⟨fun t ht => hsound.struck t ht hpend, hsound.published (.inl hpend)⟩
          refine ⟨hsound.popped hring (fun _ => nofun) fun _ _ _ => nofun, ⟨?_, hF.apart _ _ _ happart hf⟩,
            hsig.apart happart⟩
          exact hh.apart happart fun _ t _ hm => hother hm nofun
      | cancel t =>
          have hmem : Control.cancel t ∈ s.ring := by
            rw [hring]
            exact List.mem_cons_self
          obtain ⟨-, hflag⟩ := hsound.cancels t (.inl hmem)
          show (if current = some t then draining (G := G) held current armed true F
            else sparing held t ((hunting current armed found).and F)) l _
          split
          next hcur =>
            -- it is the request in flight that is cancelled
            refine ⟨hsound.popped hring (fun _ => nofun) ?_, ⟨fun _ => ?_, hh.taken, fun _ _ _ _ => .inl rfl⟩,
              hF.apart _ _ _ happart hf⟩
            · intro u hu _ heq
              have huntouched := hsound.untouched u (List.mem_append_right _ ?_)
              · cases heq
                have htaken := hh.taken t hcur
                rw [huntouched.taken] at htaken
                cases htaken
              · rw [hring]
                exact hu
            · exact .inr (.inl ⟨t, hcur, hflag⟩)
          next hcur =>
            refine ⟨hsound.popped hring (fun _ => nofun) ?_, ?_, hh.apart happart ?_, hF.apart _ _ _ happart hf⟩
            · intro u hu hne heq
              cases heq
              rcases List.mem_append.mp hu with hu | hu
              · rw [if_pos hu] at hne
                exact hne rfl
              · exact hsound.cancel_not_behind hring hu
            · intro hin
              have huntouched := hsound.untouched t (List.mem_append_right _ (List.mem_append_left _ hin))
              exact ⟨hsound.queued t hmem huntouched.taken, hflag, huntouched.taken⟩
            · intro _ u hu hm
              refine hother hm fun heq => hcur ?_
              rw [hu, Control.cancel.inj heq]

/-- **Draining the ring** for cancels of a request. -/
theorem ControlQueue.sure_pollCancel (fuel turns : Nat) (found : Bool) :
    Sure (draining (G := G) held current armed found F) (pollCancel fuel current turns found : M ε Bool)
      fun b => holding (fun l => tickets l.pending) held none ((verdict current armed b).and F) := by
  induction turns generalizing found with
  | zero => exact Triple.hang
  | succ turns ih =>
      refine Triple.after (R := fun b => if b then holding (fun l => tickets l.pending) held none
        ((verdict current armed true).and F) else draining held current armed found F) (Triple.call ?_) fun b => ?_
      · rintro l s ⟨hsound, hh, hf⟩
        refine ⟨hG trivial, fun b s' hact => ?_⟩
        obtain ⟨rfl, rfl⟩ := Shared.loaded_eq hact
        cases hs : s'.shuttingDown with
        | false => exact ⟨hsound, hh, hf⟩
        | true => exact ⟨hsound, ⟨fun _ => .inl hs, nofun⟩, hf⟩
      cases b with
      | true => exact Triple.pure fun _ _ h => h
      | false =>
          refine Triple.after (sure_pop hG hF found) fun msg => ?_
          match msg with
          | none => exact Triple.pure fun _ _ h => h
          | some .cancelAny =>
              refine Triple.after (R := fun _ => draining held current armed (found || current.isSome) F)
                (Triple.call ?_) fun _ => ih _
              rintro l s ⟨hsound, ⟨hh, hf⟩, hsig⟩
              refine ⟨hG trivial, fun _ s' hact => ?_⟩
              cases hact
              have happart : Apart s { s with cancelAny := true } := { Apart.refl s with }
              have hh' := hh.apart happart fun _ _ _ hm => hm
              refine ⟨hsound.storeTrue hsig.struck hsig.published, ⟨fun _ => .inr (.inr (hsig.apart happart)), hh'.taken,
                fun harmed t ht hq => (hh'.due harmed t ht hq).imp_left fun h => ?_⟩, hF.apart _ _ _ happart hf⟩
              rw [h]
              rfl
          | some (.cancel t) =>
              dsimp only [afterPop]
              split
              · exact ih true
              · refine Triple.after (sure_abortPending hG ?_ fuel) fun _ => ih found
                refine ⟨fun l s pending h => ⟨h.1, hF.pending l s pending h.2⟩, fun l s s' ha hring h => ?_⟩
                exact ⟨h.1.apart ha fun _ _ _ hm => hring ▸ hm, hF.apart l s s' ha h.2⟩
          | some (.request r) =>
              refine Triple.after (R := fun _ => draining held current armed found F) (Triple.modify ?_) fun _ => ih found
              rintro l s ⟨hsound, hh, hf⟩
              refine ⟨?_, hh, hF.pending _ _ _ hf⟩
              show Sound (tickets (l.pending ++ [r])) held none s
              unfold tickets
              rw [List.map_append]
              exact hsound

end

/-- A request that was just taken: nothing was delivered to it yet, and a cancel that was queued in time is due. -/
def justTaken (t : Ticket) : Lasting where
  holds _ s := Progress t [] s ∧ Hunt (some t) true false s ∧ s.current = some t
  lasts hg h := ⟨h.1.course (hg.delivered t), h.2.1.apart hg.toApart fun _ _ _ hm => hg.ring.subset hm,
    hg.current.trans h.2.2⟩

/-- What the reader holds when it has popped a message: a request is now in front of the pending ones. -/
def poppedHolding (G : Shared → Op → Prop) (F : Lasting) : Option Control → (threads G).Assertion Local
  | some (.request r) => holding (fun l => r.ticket :: tickets l.pending) [] none F
  | _ => holding (fun l => tickets l.pending) [] none F

section

variable {F : Lasting} {F' : Ticket → Lasting} (hG : ∀ {s op}, Allowed s op → G s op) (hF : F.Blind)
  (hT : ∀ {l s s' t}, s.answer (.mark (.taken t)) () = some s' → Untouched (s.fates t) → F l s → F' t l s')

include hG hF hT

theorem ControlQueue.sure_take (r : AsyncRequest) :
    Sure (holding (G := G) (fun l => r.ticket :: tickets l.pending) [] none F) (take r : M ε (Option AsyncRequest))
      fun o => match o with
        | none => holding (fun l => tickets l.pending) [] none F
        | some r => holding (fun l => tickets l.pending) [r.ticket] none ((justTaken r.ticket).and (F' r.ticket)) := by
  refine Triple.after (R := fun _ => holding (fun l => r.ticket :: tickets l.pending) [] none F) (Triple.call ?_) fun _ => ?_
  · rintro l s ⟨hsound, hf⟩
    refine ⟨hG trivial, fun _ s' hact => ?_⟩
    cases hact
    exact ⟨hsound.storeFalse, hF.apart _ _ _ { Apart.refl s with } hf⟩
  refine Triple.after (R := fun _ => holding (fun l => tickets l.pending) [r.ticket] none
    ((justTaken r.ticket).and (F' r.ticket))) (Triple.call ?_) fun _ => ?_
  · rintro l s ⟨hsound, hf⟩
    refine ⟨hG trivial, fun _ s' hact => ?_⟩
    have huntouched := hsound.untouched r.ticket (List.mem_append_right _ List.mem_cons_self)
    have hf' := hT hact huntouched hf
    cases hact
    have hat := s.fates_onFate r.ticket fun f => { f with taken := true }
    refine ⟨hsound.take, ⟨⟨?_, ?_⟩, ⟨nofun, ?_, ?_⟩, rfl⟩, hf'⟩
    · exact (congrArg Fate.delivered hat).trans huntouched.delivered
    · exact (congrArg Fate.cutOff hat).trans huntouched.cutOff
    · intro t ht
      cases ht
      exact congrArg Fate.taken hat
    · intro _ t ht hq
      cases ht
      have hq : (s.fates r.ticket).cancelQueued = true := (congrArg Fate.cancelQueued hat).symm.trans hq
      exact .inr (hsound.early _ List.mem_cons_self nofun hq)
  · exact Triple.pure fun _ _ h => h

/-- **The next request.** -/
theorem ControlQueue.sure_nextRequest (turns : Nat) :
    Sure (holding (G := G) (fun l => tickets l.pending) [] none F) (nextRequest turns : M ε (Option AsyncRequest))
      fun o => match o with
        | none => holding (fun l => tickets l.pending) [] none F
        | some r => holding (fun l => tickets l.pending) [r.ticket] none ((justTaken r.ticket).and (F' r.ticket)) := by
  -- on the turns: a message that is no request is skipped
  induction turns with
  | zero => exact Triple.hang
  | succ turns ih =>
      refine Triple.after (R := fun _ => holding (fun l => tickets l.pending) [] none F) (Triple.call ?_) fun stop => ?_
      · rintro l s h
        refine ⟨hG trivial, fun b s' hact => ?_⟩
        obtain ⟨rfl, -⟩ := Shared.loaded_eq hact
        exact h
      cases stop with
      | true => exact Triple.pure fun _ _ h => h
      | false =>
          refine Triple.look fun l₀ => ?_
          cases hp : l₀.pending with
          | cons r rest =>
              refine Triple.after (R := fun _ => holding (fun l => r.ticket :: tickets l.pending) [] none F)
                (Triple.modify ?_) fun _ => sure_take hG hF hT r
              rintro l s ⟨rfl, hsound, hf⟩
              have hsound : Sound (tickets l.pending) [] none s := hsound
              rw [hp] at hsound
              exact ⟨hsound, hF.pending _ _ _ hf⟩
          | nil =>
              -- nothing is pending: a message is awaited, and a request among these is taken at once
              refine Triple.after (R := poppedHolding G F) (Triple.call ?_) fun msg => ?_
              · rintro l s ⟨rfl, hsound, hf⟩
                refine ⟨hG trivial, fun msg s' hact => ?_⟩
                have hsound : Sound (tickets l.pending) [] none s := hsound
                rw [hp] at hsound
                cases msg with
                | none =>
                    have hact : (if s.shuttingDown ∧ s.handles = [] ∧ s.calls = [] then s.popped none else none) = some s' :=
                      hact
                    split at hact
                    · obtain ⟨-, rfl⟩ := Shared.popped_none hact
                      refine ⟨?_, hf⟩
                      show Sound (tickets l.pending) [] none s'
                      rw [hp]
                      exact hsound
                    · cases hact
                | some msg =>
                    obtain ⟨ring, hring, rfl⟩ := Shared.popped_some hact
                    have hf' := hF.apart l s _ (Apart.ring s ring) hf
                    cases msg with
                    | request r =>
                        refine ⟨?_, hf'⟩
                        show Sound (r.ticket :: tickets l.pending) [] none _
                        rw [hp]
                        exact hsound.displace hring
                    | cancel t =>
                        refine ⟨?_, hf'⟩
                        show Sound (tickets l.pending) [] none _
                        rw [hp]
                        refine hsound.popped hring (fun _ h => by cases h) fun u hu _ heq => ?_
                        cases heq
                        exact hsound.cancel_not_behind hring hu
                    | cancelAny =>
                        refine ⟨?_, hf'⟩
                        show Sound (tickets l.pending) [] none _
                        rw [hp]
                        exact hsound.popped hring (fun _ h => by cases h) fun _ _ _ h => by cases h
              · cases msg with
                | none => exact Triple.pure fun _ _ h => h
                | some msg =>
                    cases msg with
                    | request r => exact sure_take hG hF hT r
                    | cancel t => exact ih
                    | cancelAny => exact ih

end

end Xibalba
