import Xibalba.Client.Correctness.Threads

/-!
# `Client.Correctness.Sound` — the invariant of callers and reader

`Sound` relates the shared state to what the reader has of it: the requests it has displaced from the ring, in
order, and those it holds. Every request waits in one place, a cancel comes behind the request it names, and an
`AsyncClient::cancel` that is still on its way was meant for the request in flight.

Layout:
* `Sound`;
* steps of the callers, and `Sound.env`: it holds whatever they do;
* steps of the reader: a request is touched, displaced, taken, dropped.
-/

namespace Xibalba

/-- Nothing happened to the request, except that it may have been cancelled. -/
structure Untouched (f : Fate) : Prop where
  delivered : f.delivered = []
  taken : f.taken = false
  finished : f.finished = false
  cutOff : f.cutOff = false

/-- The same happened to the request under both, cancels in the queue apart. -/
structure SameCourse (f f' : Fate) : Prop where
  delivered : f'.delivered = f.delivered
  taken : f'.taken = f.taken
  finished : f'.finished = f.finished
  cutOff : f'.cutOff = f.cutOff

theorem Untouched.sameCourse {f f' : Fate} (h : Untouched f) (hc : SameCourse f f') : Untouched f' :=
  ⟨hc.delivered.trans h.delivered, hc.taken.trans h.taken, hc.finished.trans h.finished, hc.cutOff.trans h.cutOff⟩

/-- The second message is not the request the first one cancels. -/
def NotBehind (m m' : Control) : Prop := ∀ t r, m = .cancel t → m' = .request r → r.ticket ≠ t

/-- A cancel of whatever is in flight was made while the request was. -/
def Struck (s : Shared) (t : Ticket) : Prop := some t ∈ s.strikes ∨ s.overtaken = true ∨ s.shuttingDown = true

/-- What holds of the shared state. `queue` are the requests the reader has displaced from the ring, `held` those it
    has taken out of the queue and not dropped, and `spared` is a request whose cancel it has just taken off the
    ring. -/
structure Sound (queue held : List Ticket) (spared : Option Ticket) (s : Shared) : Prop where
  -- where requests are
  nodup : (waiting queue s ++ held).Nodup
  known : ∀ t ∈ waiting queue s ++ held, t < s.nextTicket
  issued : ∀ t ∈ s.pushed, t < s.nextTicket ∧ t ∉ submits s.calls
  pushedOnce : s.pushed.Nodup
  order : (s.returned ++ (queue ++ requests s.ring)).Sublist s.pushed
  kept : ∀ t ∈ s.pushed, t ∈ waiting queue s ∨ t ∈ held ∨ (s.fates t).finished = true
  permits : s.outstanding = (waiting queue s).length + held.length
  bound : s.outstanding ≤ DEFAULT_MAX_OUTSTANDING
  -- what became of them
  fresh : ∀ t, s.nextTicket ≤ t → s.fates t = .new
  untouched : ∀ t ∈ waiting queue s, Untouched (s.fates t)
  unfinished : ∀ t ∈ held, (s.fates t).finished = false
  inFlight : ∀ t, s.current = some t → t ∈ held ∧ t ∈ s.returned
  taken : ∀ t, (s.fates t).taken = true ↔ t ∈ s.returned
  retired : ∀ t, (s.fates t).finished = true → (s.fates t).taken = false →
    (s.fates t).cancelQueued = true ∧
      ((s.fates t).delivered = [.aborted] ∨ s.shuttingDown = true ∨ (s.slots t).consumerAlive = false)
  -- cancels of one request: they are behind it, and a request that was cancelled in time has one before it
  handles : ∀ t ∈ s.handles, t ∈ s.pushed
  cancels : ∀ t, .cancel t ∈ s.ring ∨ .cancel t ∈ s.calls → t ∈ s.pushed ∧ (s.slots t).cancelled = true
  behind : s.ring.Pairwise NotBehind
  queued : ∀ t, .cancel t ∈ s.ring → (s.fates t).taken = false → (s.fates t).cancelQueued = true
  unborn : ∀ t ∈ submits s.calls, (s.fates t).cancelQueued = false
  early : ∀ t ∈ queue ++ requests s.ring, some t ≠ spared → (s.fates t).cancelQueued = true → .cancel t ∈ s.ring
  -- cancels of whatever is in flight
  struck : ∀ t, s.current = some t → s.cancelPending = true → Struck s t
  published : s.cancelPending = true ∨ s.overtaken = true → s.strikes ≠ [] ∨ s.shuttingDown = true
  wakeup : .wakeup ∈ s.calls → s.shuttingDown = true

namespace Shared

variable (s : Shared) (t u : Ticket) (f : Slot → Slot) (g : Fate → Fate)

theorem slots_onSlot : (s.onSlot t f).slots t = f (s.slots t) := by simp [onSlot]

theorem slots_onSlot_ne {t u : Ticket} (h : u ≠ t) : (s.onSlot t f).slots u = s.slots u := by simp [onSlot, h]

theorem fates_onFate : (s.onFate t g).fates t = g (s.fates t) := by simp [onFate]

theorem fates_onFate_ne {t u : Ticket} (h : u ≠ t) : (s.onFate t g).fates u = s.fates u := by simp [onFate, h]

/-- What a change of one request's slot keeps, read at any request. -/
theorem slots_onSlot_of {P : Slot → Prop} (hf : P (s.slots t) → P (f (s.slots t))) (hu : P (s.slots u)) :
    P ((s.onSlot t f).slots u) := by
  by_cases hut : u = t
  · subst hut
    rw [slots_onSlot]
    exact hf hu
  · rw [slots_onSlot_ne _ _ hut]
    exact hu

theorem fates_onFate_of {P : Fate → Prop} (hg : P (s.fates t) → P (g (s.fates t))) (hu : P (s.fates u)) :
    P ((s.onFate t g).fates u) := by
  by_cases hut : u = t
  · subst hut
    rw [fates_onFate]
    exact hg hu
  · rw [fates_onFate_ne _ _ hut]
    exact hu

/-- What a change of one request's fate keeps is the same at any request. -/
theorem fates_onFate_eq {β : Type} {p : Fate → β} (hg : p (g (s.fates t)) = p (s.fates t)) :
    p ((s.onFate t g).fates u) = p (s.fates u) :=
  s.fates_onFate_of t u g (P := fun f => p f = p (s.fates u)) (fun h => hg.trans h) rfl

theorem cancelPending_iff :
    s.cancelPending = true ↔ s.cancelAny = true ∨ .cancelAny ∈ s.ring ∨ .cancelAny ∈ s.calls := by
  simp [cancelPending, or_assoc]

end Shared

theorem Untouched.new : Untouched .new := ⟨rfl, rfl, rfl, rfl⟩

namespace Sound

variable {queue held : List Ticket} {spared : Option Ticket} {s : Shared}

theorem mem_waiting_submit {t : Ticket} (ht : t ∈ submits s.calls) : t ∈ waiting queue s :=
  List.mem_append_left _ ht

/-- A request that is held does not wait. -/
theorem held_not_waiting (h : Sound queue held spared s) {t : Ticket} (ht : t ∈ held) : t ∉ waiting queue s :=
  fun hw => (List.nodup_append.mp h.nodup).2.2 t hw t ht rfl

theorem held_known (h : Sound queue held spared s) {t : Ticket} (ht : t ∈ held) : t < s.nextTicket :=
  h.known t (List.mem_append_right _ ht)

/-! ### Steps of the callers -/

/-- A submission begins. -/
theorem submit (h : Sound queue held spared s) {r : AsyncRequest} (hr : r.ticket = s.nextTicket)
    (hroom : s.outstanding < DEFAULT_MAX_OUTSTANDING) :
    Sound queue held spared { s with
      nextTicket := s.nextTicket + 1, outstanding := s.outstanding + 1, calls := .submit r :: s.calls } := by
  have hnew : ∀ u, u < s.nextTicket → u ≠ r.ticket := by
    rintro u hu rfl
    exact Nat.lt_irrefl _ (hr ▸ hu)
  have hfate : s.fates r.ticket = .new := h.fresh _ (Nat.le_of_eq hr.symm)
  have hcalls : ∀ c, (∀ r, c ≠ .submit r) → c ∈ Calling.submit r :: s.calls → c ∈ s.calls := by
    intro c hc hmem
    exact (List.mem_cons.mp hmem).resolve_left (hc r)
  have hpend : Shared.cancelPending { s with
      nextTicket := s.nextTicket + 1, outstanding := s.outstanding + 1, calls := .submit r :: s.calls } = true →
      s.cancelPending = true := by
    simp only [Shared.cancelPending_iff]
    exact Or.imp_right (Or.imp_right (hcalls _ nofun))
  refine { h with
    nodup := List.nodup_cons.mpr ⟨fun hmem => hnew _ (h.known _ hmem) rfl, h.nodup⟩
    known := List.forall_mem_cons.mpr ⟨Nat.lt_succ_of_le (Nat.le_of_eq hr), fun t ht => Nat.lt_succ_of_lt (h.known t ht)⟩
    issued := ?_, kept := ?_, permits := ?_, bound := hroom
    fresh := fun t ht => h.fresh t (Nat.le_of_succ_le ht)
    untouched := List.forall_mem_cons.mpr ⟨by show Untouched (s.fates r.ticket); rw [hfate]; exact .new, h.untouched⟩
    cancels := fun t ht => h.cancels t (ht.imp_right (hcalls _ nofun))
    unborn := List.forall_mem_cons.mpr ⟨by show (s.fates r.ticket).cancelQueued = false; rw [hfate]; rfl, h.unborn⟩
    struck := fun t ht hp => h.struck t ht (hpend hp)
    published := fun hp => h.published (hp.imp_left hpend)
    wakeup := fun hw => h.wakeup (hcalls _ nofun hw) }
  · intro t ht
    obtain ⟨hlt, hsub⟩ := h.issued t ht
    exact ⟨Nat.lt_succ_of_lt hlt, fun hmem => (List.mem_cons.mp hmem).elim (hnew t hlt) hsub⟩
  · intro t ht
    exact (h.kept t ht).imp_left (List.mem_cons_of_mem _)
  · show s.outstanding + 1 = (waiting queue s).length + 1 + held.length
    rw [h.permits]
    exact Nat.add_right_comm _ _ _

/-- A change of a slot that neither takes a cancel back nor revives a consumer. -/
theorem onSlot (h : Sound queue held spared s) {t : Ticket} {f : Slot → Slot}
    (hcancel : ∀ slot, slot.cancelled = true → (f slot).cancelled = true)
    (halive : ∀ slot, slot.consumerAlive = false → (f slot).consumerAlive = false) :
    Sound queue held spared (s.onSlot t f) := by
  refine { h with retired := ?_, cancels := ?_ }
  · intro u hfin htaken
    obtain ⟨hq, hend⟩ := h.retired u hfin htaken
    refine ⟨hq, hend.imp_right (Or.imp_right fun hdead => ?_)⟩
    exact s.slots_onSlot_of t u f (P := fun slot => slot.consumerAlive = false) (halive _) hdead
  · intro u hu
    obtain ⟨hp, hflag⟩ := h.cancels u hu
    exact ⟨hp, s.slots_onSlot_of t u f (P := fun slot => slot.cancelled = true) (hcancel _) hflag⟩

/-- A handle's cancel begins. -/
theorem cancel (h : Sound queue held spared s) {t : Ticket} (ht : t ∈ s.handles) :
    Sound queue held spared
      { s.onSlot t (fun slot => { slot with cancelled := true }) with calls := .cancel t :: s.calls } := by
  have h' := h.onSlot (t := t) (f := fun slot => { slot with cancelled := true }) (fun _ _ => rfl) fun _ hd => hd
  have hcalls : ∀ c, c ≠ .cancel t → c ∈ Calling.cancel t :: s.calls → c ∈ s.calls :=
    fun c hc hmem => (List.mem_cons.mp hmem).resolve_left hc
  have hpend : Shared.cancelPending
      { s.onSlot t (fun slot => { slot with cancelled := true }) with calls := .cancel t :: s.calls } = true →
      s.cancelPending = true := by
    simp only [Shared.cancelPending_iff]
    exact Or.imp_right (Or.imp_right (hcalls _ nofun))
  refine { h' with
    cancels := ?_
    struck := fun u hu hp => h.struck u hu (hpend hp)
    published := fun hp => h.published (hp.imp_left hpend)
    wakeup := fun hw => h.wakeup (hcalls _ nofun hw) }
  intro u hu
  by_cases hut : u = t
  · subst hut
    refine ⟨h.handles u ht, ?_⟩
    exact congrArg Slot.cancelled (s.slots_onSlot u fun slot => { slot with cancelled := true })
  · exact h'.cancels u (hu.imp_right (hcalls _ fun heq => hut (Calling.cancel.inj heq)))

/-- An `AsyncClient::cancel` begins. -/
theorem cancelAny (h : Sound queue held spared s) :
    Sound queue held spared
      { s with cancelAny := true, calls := .cancelAny :: s.calls, strikes := s.current :: s.strikes } := by
  have hcalls : ∀ c, c ≠ .cancelAny → c ∈ Calling.cancelAny :: s.calls → c ∈ s.calls :=
    fun c hc hmem => (List.mem_cons.mp hmem).resolve_left hc
  refine { h with
    cancels := fun u hu => h.cancels u (hu.imp_right (hcalls _ nofun))
    struck := ?_
    published := fun _ => .inl (List.cons_ne_nil _ _)
    wakeup := fun hw => h.wakeup (hcalls _ nofun hw) }
  intro u hu _
  have hu : s.current = some u := hu
  left
  show some u ∈ s.current :: s.strikes
  rw [hu]
  exact List.mem_cons_self

theorem shutdown (h : Sound queue held spared s) :
    Sound queue held spared { s with shuttingDown := true, calls := .wakeup :: s.calls } := by
  refine { h with
    retired := ?_
    cancels := ?_
    struck := fun _ _ _ => .inr (.inr rfl)
    published := fun _ => .inr rfl
    wakeup := fun _ => rfl }
  · intro u hfin htaken
    exact ⟨(h.retired u hfin htaken).1, .inr (.inl rfl)⟩
  · intro u hu
    refine h.cancels u (hu.imp_right fun hmem => ?_)
    have hne : Calling.cancel u ≠ .wakeup := nofun
    exact (List.mem_cons.mp hmem).resolve_left hne

/-- A call that is no submission is over, and what waits is the same. -/
theorem waiting_erase {c : Calling} (hc : ∀ r, c ≠ .submit r) (hmem : c ∈ s.calls) {ring : List Control}
    (hring : requests ring = requests s.ring) {s' : Shared} (hr : s'.ring = ring) (hcalls : s'.calls = s.calls.erase c) :
    (waiting queue s').Perm (waiting queue s) := by
  unfold waiting
  rw [hr, hcalls, hring]
  exact (submits_erase hc hmem).symm.append_right _

/-- What waits may be listed in another order, as long as the ring and the queue are not. -/
theorem relisted (h : Sound queue held spared s) {s' : Shared} (hperm : (waiting queue s').Perm (waiting queue s))
    (hnext : s'.nextTicket = s.nextTicket) :
    (waiting queue s' ++ held).Nodup ∧ (∀ t ∈ waiting queue s' ++ held, t < s'.nextTicket) ∧
      (waiting queue s').length = (waiting queue s).length := by
  have hall := hperm.append_right held
  refine ⟨hall.nodup_iff.mpr h.nodup, fun t ht => ?_, hperm.length_eq⟩
  rw [hnext]
  exact h.known t (hall.mem_iff.mp ht)

/-- A call that is no submission is over: its message is on the ring, or was lost, and the request it named may be
    noted as cancelled. -/
theorem settle (h : Sound queue held spared s) {c : Calling} (hmem : c ∈ s.calls) (hc : ∀ r, c ≠ .submit r)
    (ms : List Control) (hms : ∀ m ∈ ms, m = c.message) (fates : Ticket → Fate)
    (hcourse : ∀ u, SameCourse (s.fates u) (fates u)) (hfresh : ∀ u, s.nextTicket ≤ u → fates u = .new)
    (hmore : ∀ u, (s.fates u).cancelQueued = true → (fates u).cancelQueued = true)
    (honly : ∀ u, (fates u).cancelQueued = true → (s.fates u).cancelQueued = true ∨ c = .cancel u ∧ .cancel u ∈ ms)
    (hmark : ∀ u, .cancel u ∈ ms → (fates u).taken = false → (fates u).cancelQueued = true) :
    Sound queue held spared { s with ring := s.ring ++ ms, calls := s.calls.erase c, fates := fates } := by
  have hno : ∀ m ∈ ms, ∀ r, m ≠ .request r := by
    intro m hm r
    rw [hms m hm]
    cases c with
    | submit r' => exact absurd rfl (hc r')
    | cancel t => exact nofun
    | cancelAny => exact nofun
    | wakeup => exact nofun
  have hnone : requests ms = [] := by
    refine List.filterMap_eq_nil_iff.mpr fun m hm => ?_
    cases m with
    | request r => exact absurd rfl (hno _ hm r)
    | cancel t => rfl
    | cancelAny => rfl
  have hring : requests (s.ring ++ ms) = requests s.ring := by
    rw [requests_append, hnone, List.append_nil]
  have hperm : (waiting queue { s with ring := s.ring ++ ms, calls := s.calls.erase c, fates := fates }).Perm
      (waiting queue s) := waiting_erase hc hmem hring rfl rfl
  obtain ⟨hnodup, hknown, hlen⟩ := h.relisted hperm rfl
  have hsub : ∀ t, t ∈ submits (s.calls.erase c) → t ∈ submits s.calls :=
    fun t ht => (submits_erase hc hmem).mem_iff.mpr ht
  have hpend : Shared.cancelPending { s with ring := s.ring ++ ms, calls := s.calls.erase c, fates := fates } = true →
      s.cancelPending = true ∨ s.shuttingDown = true := by
    simp only [Shared.cancelPending_iff]
    rintro (hp | hp | hp)
    · exact .inl (.inl hp)
    · rcases List.mem_append.mp hp with hp | hp
      · exact .inl (.inr (.inl hp))
      · -- the message is the one of `c`
        have hmsg := hms _ hp
        cases c with
        | submit r => cases hmsg
        | cancel t => cases hmsg
        | cancelAny => exact .inl (.inr (.inr hmem))
        | wakeup => exact .inr (h.wakeup hmem)
    · exact .inl (.inr (.inr (List.mem_of_mem_erase hp)))
  have hcancel : ∀ t, .cancel t ∈ s.ring ++ ms → .cancel t ∈ s.ring ∨ .cancel t ∈ s.calls := by
    intro t ht
    refine (List.mem_append.mp ht).imp_right fun hm => ?_
    have hmsg := hms _ hm
    cases c with
    | submit r => cases hmsg
    | cancel u =>
        cases hmsg
        exact hmem
    | cancelAny => cases hmsg
    | wakeup => cases hmsg
  refine { h with
    nodup := hnodup, known := hknown
    issued := fun t ht => ⟨(h.issued t ht).1, fun hm => (h.issued t ht).2 (hsub t hm)⟩
    order := hring ▸ h.order
    kept := ?_, permits := hlen ▸ h.permits
    fresh := hfresh
    untouched := fun t ht => (h.untouched t (hperm.mem_iff.mp ht)).sameCourse (hcourse t)
    unfinished := fun t ht => (hcourse t).finished.trans (h.unfinished t ht)
    taken := fun t => (hcourse t).taken ▸ h.taken t
    retired := ?_
    cancels := ?_, behind := ?_, queued := ?_
    unborn := ?_, early := ?_, struck := ?_, published := ?_
    wakeup := fun hw => h.wakeup (List.mem_of_mem_erase hw) }
  · intro t ht
    rcases h.kept t ht with hw | hh | hf
    · exact .inl (hperm.mem_iff.mpr hw)
    · exact .inr (.inl hh)
    · exact .inr (.inr ((hcourse t).finished.trans hf))
  · intro t hfin htaken
    obtain ⟨hq, hend⟩ := h.retired t ((hcourse t).finished ▸ hfin) ((hcourse t).taken ▸ htaken)
    exact ⟨hmore t hq, hend.imp_left (hcourse t).delivered.trans⟩
  · intro t ht
    exact h.cancels t (ht.elim (hcancel t) fun hm => .inr (List.mem_of_mem_erase hm))
  · refine List.pairwise_append.mpr ⟨h.behind, ?_, ?_⟩
    · exact List.pairwise_of_forall_mem_list fun m _ m' hm' t r _ hr => absurd hr (hno m' hm' r)
    · exact fun m _ m' hm' t r _ hr => absurd hr (hno m' hm' r)
  · intro t ht htaken
    rcases List.mem_append.mp ht with hm | hm
    · exact hmore t (h.queued t hm ((hcourse t).taken ▸ htaken))
    · exact hmark t hm htaken
  · intro t ht
    have hold := h.unborn t (hsub t ht)
    -- a submission in progress has no handle yet, so nobody cancels it
    by_contra hq
    rcases honly t (Bool.not_eq_false _ ▸ hq) with hq | ⟨rfl, -⟩
    · rw [hold] at hq
      cases hq
    · exact (h.issued t (h.cancels t (.inr hmem)).1).2 (hsub t ht)
  · intro t ht hne hq
    rcases honly t hq with hq | ⟨-, hm⟩
    · have ht : t ∈ queue ++ requests (s.ring ++ ms) := ht
      rw [hring] at ht
      exact List.mem_append_left _ (h.early t ht hne hq)
    · exact List.mem_append_right _ hm
  · intro t ht hp
    exact (hpend hp).elim (h.struck t ht) fun hs => .inr (.inr hs)
  · rintro (hp | ho)
    · exact (hpend hp).elim (fun hp => h.published (.inl hp)) .inr
    · exact h.published (.inr ho)

/-- A request is put on the ring. -/
theorem arrive_submit (h : Sound queue held spared s) {r : AsyncRequest} (hr : .submit r ∈ s.calls) :
    Sound queue held spared (s.arrive (.submit r)) := by
  have hsub := submits_erase_perm hr
  have hmem : r.ticket ∈ submits s.calls := mem_submits.mpr ⟨r, hr, rfl⟩
  have hring : requests (s.arrive (.submit r)).ring = requests s.ring ++ [r.ticket] := requests_append _ _
  -- the request only moves, from the calls to the ring
  have hperm : (waiting queue (s.arrive (.submit r))).Perm (waiting queue s) := by
    unfold waiting
    rw [hring, ← List.append_assoc, ← List.append_assoc]
    refine (List.perm_append_singleton _ _).trans ?_
    rw [List.append_assoc]
    exact hsub.symm.append_right (queue ++ requests s.ring)
  obtain ⟨hnodup, hknown, hlen⟩ := h.relisted hperm rfl
  have hnew : r.ticket ∉ s.pushed := fun hp => (h.issued _ hp).2 hmem
  have hnodupSub : (submits s.calls).Nodup := (List.nodup_append.mp (List.nodup_append.mp h.nodup).1).1
  have hgone : r.ticket ∉ submits (s.calls.erase (.submit r)) := (List.nodup_cons.mp (hsub.nodup_iff.mp hnodupSub)).1
  have hless : ∀ t, t ∈ submits (s.calls.erase (.submit r)) → t ∈ submits s.calls :=
    fun t ht => hsub.mem_iff.mpr (List.mem_cons_of_mem _ ht)
  have hold : ∀ m, (∀ r, m ≠ .request r) → m ∈ (s.arrive (.submit r)).ring → m ∈ s.ring := by
    intro m hm hmr
    exact (List.mem_append.mp hmr).resolve_right fun hlast => hm r (List.mem_singleton.mp hlast)
  have hpend : (s.arrive (.submit r)).cancelPending = true → s.cancelPending = true := by
    simp only [Shared.cancelPending_iff]
    exact Or.imp_right (Or.imp (hold _ nofun) List.mem_of_mem_erase)
  refine { h with
    nodup := hnodup, known := hknown, issued := ?_, pushedOnce := ?_, order := ?_, kept := ?_
    permits := hlen ▸ h.permits
    untouched := fun t ht => h.untouched t (hperm.mem_iff.mp ht)
    handles := ?_, cancels := ?_, behind := ?_
    queued := fun t ht => h.queued t (hold _ nofun ht)
    unborn := fun t ht => h.unborn t (hless t ht), early := ?_
    struck := fun t ht hp => h.struck t ht (hpend hp)
    published := fun hp => h.published (hp.imp_left hpend)
    wakeup := fun hw => h.wakeup (List.mem_of_mem_erase hw) }
  · intro t ht
    rcases List.mem_append.mp ht with ht | ht
    · exact ⟨(h.issued t ht).1, fun hs => (h.issued t ht).2 (hless t hs)⟩
    · rw [List.mem_singleton.mp ht]
      exact ⟨h.known _ (List.mem_append_left _ (mem_waiting_submit hmem)), hgone⟩
  · exact (List.perm_append_singleton _ _).nodup_iff.mpr (List.nodup_cons.mpr ⟨hnew, h.pushedOnce⟩)
  · rw [hring, ← List.append_assoc, ← List.append_assoc]
    refine List.Sublist.append_right ?_ [r.ticket]
    rw [List.append_assoc]
    exact h.order
  · intro t ht
    rcases List.mem_append.mp ht with ht | ht
    · exact (h.kept t ht).imp_left hperm.mem_iff.mpr
    · rw [List.mem_singleton.mp ht]
      exact .inl (hperm.mem_iff.mpr (mem_waiting_submit hmem))
  · intro t ht
    rcases List.mem_cons.mp ht with rfl | ht
    · exact List.mem_append_right _ (List.mem_singleton_self _)
    · exact List.mem_append_left _ (h.handles t ht)
  · intro t ht
    obtain ⟨hp, hflag⟩ := h.cancels t (ht.imp (hold _ nofun) List.mem_of_mem_erase)
    exact ⟨List.mem_append_left _ hp, hflag⟩
  · refine List.pairwise_append.mpr ⟨h.behind, List.pairwise_singleton _ _, ?_⟩
    intro m hm m' hm' t r' hmt hr'
    rw [List.mem_singleton.mp hm'] at hr'
    cases hr'
    rintro rfl
    exact hnew (h.cancels _ (.inl (hmt ▸ hm))).1
  · intro t ht hne hq
    rw [hring, ← List.append_assoc] at ht
    refine List.mem_append_left _ ?_
    rcases List.mem_append.mp ht with ht | ht
    · exact h.early t ht hne hq
    · rw [List.mem_singleton.mp ht] at hq
      have hq' : (s.fates r.ticket).cancelQueued = true := hq
      rw [h.unborn _ hmem] at hq'
      cases hq'

/-- A submission finds the ring full. -/
theorem refuse_submit (h : Sound queue held spared s) {r : AsyncRequest} (hr : .submit r ∈ s.calls) :
    Sound queue held spared { s with
      calls := s.calls.erase (.submit r), outstanding := s.outstanding - 1, refusals := s.refusal true :: s.refusals } := by
  have hsub := submits_erase_perm hr
  have hperm : (waiting queue s).Perm (r.ticket :: waiting queue { s with
      calls := s.calls.erase (.submit r), outstanding := s.outstanding - 1, refusals := s.refusal true :: s.refusals }) :=
    hsub.append_right (queue ++ requests s.ring)
  have hall := hperm.append_right held
  have hless : ∀ t, t ∈ submits (s.calls.erase (.submit r)) → t ∈ submits s.calls :=
    fun t ht => hsub.mem_iff.mpr (List.mem_cons_of_mem _ ht)
  have hpend : Shared.cancelPending { s with
      calls := s.calls.erase (.submit r), outstanding := s.outstanding - 1, refusals := s.refusal true :: s.refusals } = true →
      s.cancelPending = true := by
    simp only [Shared.cancelPending_iff]
    exact Or.imp_right (Or.imp_right List.mem_of_mem_erase)
  refine { h with
    nodup := (List.nodup_cons.mp (hall.nodup_iff.mp h.nodup)).2
    known := fun t ht => h.known t (hall.mem_iff.mpr (List.mem_cons_of_mem _ ht))
    issued := fun t ht => ⟨(h.issued t ht).1, fun hm => (h.issued t ht).2 (hless t hm)⟩
    kept := ?_, permits := ?_
    bound := Nat.le_trans (Nat.sub_le _ _) h.bound
    untouched := fun t ht => h.untouched t (hperm.mem_iff.mpr (List.mem_cons_of_mem _ ht))
    cancels := fun t ht => h.cancels t (ht.imp_right List.mem_of_mem_erase)
    unborn := fun t ht => h.unborn t (hless t ht)
    struck := fun t ht hp => h.struck t ht (hpend hp)
    published := fun hp => h.published (hp.imp_left hpend)
    wakeup := fun hw => h.wakeup (List.mem_of_mem_erase hw) }
  · intro t ht
    refine (h.kept t ht).imp_left fun hw => ?_
    rcases List.mem_cons.mp (hperm.mem_iff.mp hw) with rfl | hw
    · exact absurd (mem_submits.mpr ⟨r, hr, rfl⟩) (h.issued _ ht).2
    · exact hw
  · have hp := h.permits
    have hlen := hperm.length_eq
    rw [List.length_cons] at hlen
    show s.outstanding - 1 = _
    omega

/-- The message of a call is put on the ring. -/
theorem arrive (h : Sound queue held spared s) {c : Calling} (hmem : c ∈ s.calls) :
    Sound queue held spared (s.arrive c) := by
  have same : ∀ u, SameCourse (s.fates u) (s.fates u) := fun _ => ⟨rfl, rfl, rfl, rfl⟩
  cases c with
  | submit r => exact h.arrive_submit hmem
  | cancel t =>
      have hknown : t < s.nextTicket := (h.issued t (h.cancels t (.inr hmem)).1).1
      by_cases htaken : (s.fates t).taken = true
      · have heq : s.arrive (.cancel t) =
            { s with ring := s.ring ++ [.cancel t], calls := s.calls.erase (.cancel t), fates := s.fates } :=
          if_pos htaken
        rw [heq]
        refine h.settle hmem (fun _ => nofun) _ (fun m hm => List.mem_singleton.mp hm) _ same h.fresh (fun _ hq => hq)
          (fun _ hq => .inl hq) fun u hu hnot => ?_
        cases List.mem_singleton.mp hu
        rw [htaken] at hnot
        cases hnot
      · have heq : s.arrive (.cancel t) =
            { s with
              ring := s.ring ++ [.cancel t], calls := s.calls.erase (.cancel t)
              fates := (s.onFate t fun f => { f with cancelQueued := true }).fates } :=
          if_neg htaken
        rw [heq]
        refine h.settle hmem (fun _ => nofun) _ (fun m hm => List.mem_singleton.mp hm) _ (fun u => ?_) (fun u hu => ?_) (fun u hq => ?_)
          (fun u hq => ?_) fun u hu _ => ?_
        · exact s.fates_onFate_of t u _ (P := SameCourse (s.fates u))
            (fun hc => ⟨hc.delivered, hc.taken, hc.finished, hc.cutOff⟩) (same u)
        · rw [s.fates_onFate_ne _ (Nat.ne_of_gt (Nat.lt_of_lt_of_le hknown hu))]
          exact h.fresh u hu
        · exact s.fates_onFate_of t u _ (P := fun f => f.cancelQueued = true) (fun _ => rfl) hq
        · by_cases hut : u = t
          · subst hut
            exact .inr ⟨rfl, List.mem_singleton_self _⟩
          · rw [s.fates_onFate_ne _ hut] at hq
            exact .inl hq
        · cases List.mem_singleton.mp hu
          rw [s.fates_onFate]
  | cancelAny =>
      exact h.settle hmem (fun _ => nofun) [.cancelAny] (fun m hm => List.mem_singleton.mp hm) _ same h.fresh (fun _ hq => hq)
        (fun _ hq => .inl hq) fun u hu _ => nomatch List.mem_singleton.mp hu
  | wakeup =>
      exact h.settle hmem (fun _ => nofun) [.cancelAny] (fun m hm => List.mem_singleton.mp hm) _ same h.fresh (fun _ hq => hq)
        (fun _ hq => .inl hq) fun u hu _ => nomatch List.mem_singleton.mp hu

/-- The ring was full. -/
theorem refuse (h : Sound queue held spared s) {c : Calling} (hmem : c ∈ s.calls) {s' : Shared}
    (hs : s.refuse c = some s') : Sound queue held spared s' := by
  have same : ∀ u, SameCourse (s.fates u) (s.fates u) := fun _ => ⟨rfl, rfl, rfl, rfl⟩
  have hlost : ∀ {c : Calling}, c ∈ s.calls → (∀ r, c ≠ .submit r) →
      Sound queue held spared { s with ring := s.ring ++ [], calls := s.calls.erase c, fates := s.fates } :=
    fun hmem hc => h.settle hmem hc _ (fun m hm => absurd hm List.not_mem_nil) _ same h.fresh (fun _ hq => hq) (fun _ hq => .inl hq)
      fun u hu _ => absurd hu List.not_mem_nil
  simp only [List.append_nil] at hlost
  cases c with
  | submit r =>
      cases hs
      exact h.refuse_submit hmem
  | cancel t =>
      cases hs
      have h' := hlost hmem fun _ => nofun
      have hknown : t < s.nextTicket := (h.issued t (h.cancels t (.inr hmem)).1).1
      split
      · exact h'
      · have hq : ∀ u, ((s.onFate t fun f => { f with cancelLost := true }).fates u).cancelQueued =
            (s.fates u).cancelQueued := fun u => s.fates_onFate_eq t u _ (p := Fate.cancelQueued) rfl
        have hlost' := h.settle hmem (fun _ => nofun) [] (fun m hm => nomatch hm)
          (s.onFate t fun f => { f with cancelLost := true }).fates
          (fun u => s.fates_onFate_of t u _ (P := SameCourse (s.fates u))
            (fun hc => ⟨hc.delivered, hc.taken, hc.finished, hc.cutOff⟩) (same u))
          (fun u hu => by
            rw [s.fates_onFate_ne _ (Nat.ne_of_gt (Nat.lt_of_lt_of_le hknown hu))]
            exact h.fresh u hu)
          (fun u hu => (hq u).trans hu) (fun u hu => .inl ((hq u).symm.trans hu)) fun u hu _ => nomatch hu
        simp only [List.append_nil] at hlost'
        exact hlost'
  | cancelAny =>
      cases hs
      exact hlost hmem fun _ => nofun
  | wakeup => cases hs

/-- A handle is dropped. -/
theorem drop (h : Sound queue held spared s) (t : Ticket) :
    Sound queue held spared
      { s.onSlot t (fun slot => { slot with consumerAlive := false }) with handles := s.handles.erase t } := by
  have h' := h.onSlot (t := t) (f := fun slot => { slot with consumerAlive := false }) (fun _ hc => hc) fun _ _ => rfl
  exact { h' with handles := fun u hu => h.handles u (List.mem_of_mem_erase hu) }

/-- **Callers keep the invariant.** -/
theorem env {G : Shared → Op → Prop} {s' : Shared} (henv : (threads G).env s s') (h : Sound queue held spared s) :
    Sound queue held spared s' := by
  refine env_of_step (fun {s s'} hstep h => ?_) henv h
  cases hstep.performed with
  | idle => exact h
  | refused _ => exact { h with }
  | submit r hr hroom _ => exact h.submit hr hroom
  | cancel t ht => exact h.cancel ht
  | cancelAny => exact h.cancelAny
  | shutdown => exact h.shutdown
  | arrive call hcall _ => exact h.arrive hcall
  | refuse call hcall _ hs => exact h.refuse hcall hs
  | next t => exact h.onSlot (fun _ hc => hc) fun _ hd => hd
  | drop t => exact h.drop t

/-- A request that is held changes in what it was sent. -/
theorem touch (h : Sound queue held spared s) {t : Ticket} (ht : t ∈ held) {g : Fate → Fate}
    (htaken : ∀ f, (g f).taken = f.taken) (hfin : ∀ f, (g f).finished = f.finished)
    (hqueued : ∀ f, (g f).cancelQueued = f.cancelQueued) : Sound queue held spared (s.onFate t g) := by
  have hne : ∀ u ∈ waiting queue s, u ≠ t := fun u hu heq => h.held_not_waiting ht (heq ▸ hu)
  have ht' : ∀ u, ((s.onFate t g).fates u).taken = (s.fates u).taken := fun u => s.fates_onFate_eq t u g (htaken _)
  have hf' : ∀ u, ((s.onFate t g).fates u).finished = (s.fates u).finished := fun u => s.fates_onFate_eq t u g (hfin _)
  have hq' : ∀ u, ((s.onFate t g).fates u).cancelQueued = (s.fates u).cancelQueued :=
    fun u => s.fates_onFate_eq t u g (hqueued _)
  refine { h with
    kept := fun u hu => (hf' u) ▸ h.kept u hu
    fresh := fun u hu => ?_
    untouched := fun u hu => ?_
    unfinished := fun u hu => (hf' u).trans (h.unfinished u hu)
    taken := fun u => (ht' u) ▸ h.taken u
    retired := fun u hfin htaken => ?_
    queued := fun u hu htaken => (hq' u).trans (h.queued u hu ((ht' u).symm.trans htaken))
    unborn := fun u hu => (hq' u).trans (h.unborn u hu)
    early := fun u hu hsp hq => h.early u hu hsp ((hq' u).symm.trans hq) }
  · rw [s.fates_onFate_ne _ (Nat.ne_of_gt (Nat.lt_of_lt_of_le (h.held_known ht) hu))]
    exact h.fresh u hu
  · rw [s.fates_onFate_ne _ (hne u hu)]
    exact h.untouched u hu
  · rw [hf'] at hfin
    have hut : u ≠ t := by
      rintro rfl
      rw [h.unfinished u ht] at hfin
      cases hfin
    rw [s.fates_onFate_ne _ hut] at htaken ⊢
    exact h.retired u hfin htaken

/-- A new reader has nothing. -/
theorem start : Sound [] [] none Shared.start where
  nodup := .nil
  known := nofun
  issued := nofun
  pushedOnce := .nil
  order := .slnil
  kept := nofun
  permits := rfl
  bound := Nat.zero_le _
  fresh _ _ := rfl
  untouched := nofun
  unfinished := nofun
  inFlight := nofun
  taken _ := ⟨nofun, nofun⟩
  retired := nofun
  handles := nofun
  cancels t ht := by rcases ht with ht | ht <;> cases ht
  behind := .nil
  queued := nofun
  unborn := nofun
  early := nofun
  struck := nofun
  published h := by rcases h with h | h <;> cases h
  wakeup := nofun

/-! ### The queue -/

/-- A request is displaced from the ring. -/
theorem displace (h : Sound queue held none s) {r : AsyncRequest} {ring : List Control} (hring : s.ring = .request r :: ring) :
    Sound (queue ++ [r.ticket]) held none { s with ring := ring } := by
  have hreq : queue ++ requests s.ring = queue ++ [r.ticket] ++ requests ring := by
    rw [hring, List.append_assoc]
    rfl
  have hwait : waiting queue s = waiting (queue ++ [r.ticket]) { s with ring := ring } :=
    congrArg (submits s.calls ++ ·) hreq
  have hmem : ∀ m, (∀ r, m ≠ .request r) → (m ∈ s.ring ↔ m ∈ ring) := by
    intro m hm
    rw [hring, List.mem_cons]
    exact or_iff_right (hm r)
  have hpend : Shared.cancelPending { s with ring := ring } = true ↔ s.cancelPending = true := by
    rw [Shared.cancelPending_iff, Shared.cancelPending_iff, hmem .cancelAny fun _ => nofun]
  refine { h with
    nodup := hwait ▸ h.nodup, known := hwait ▸ h.known, order := hreq ▸ h.order, kept := hwait ▸ h.kept
    permits := hwait ▸ h.permits, untouched := hwait ▸ h.untouched
    cancels := fun t ht => h.cancels t (ht.imp_left (hmem (.cancel t) fun _ => nofun).mpr)
    behind := (List.pairwise_cons.mp (hring ▸ h.behind)).2
    queued := fun t ht => h.queued t ((hmem (.cancel t) fun _ => nofun).mpr ht)
    early := fun t ht hne hq => (hmem (.cancel t) fun _ => nofun).mp (h.early t (hreq ▸ ht) hne hq)
    struck := fun t ht hp => h.struck t ht (hpend.mp hp)
    published := fun hp => h.published (hp.imp_left hpend.mp) }

/-- What is on the ring behind its first message. -/
theorem popped (h : Sound queue held none s) {m : Control} {ring : List Control} (hring : s.ring = m :: ring)
    (hm : ∀ r, m ≠ .request r) {spared : Option Ticket}
    (hearly : ∀ t ∈ queue ++ requests ring, some t ≠ spared → m ≠ .cancel t) :
    Sound queue held spared { s with ring := ring } := by
  have hreq : requests ring = requests s.ring := by
    rw [hring]
    cases m with
    | request r => exact absurd rfl (hm r)
    | cancel t => rfl
    | cancelAny => rfl
  have hwait : waiting queue s = waiting queue { s with ring := ring } :=
    congrArg (fun reqs => submits s.calls ++ (queue ++ reqs)) hreq.symm
  have hsub : ∀ m', m' ∈ ring → m' ∈ s.ring := fun m' hm' => hring ▸ List.mem_cons_of_mem _ hm'
  have hpend : Shared.cancelPending { s with ring := ring } = true → s.cancelPending = true := by
    simp only [Shared.cancelPending_iff]
    exact Or.imp_right (Or.imp_left (hsub _))
  refine { h with
    nodup := hwait ▸ h.nodup, known := hwait ▸ h.known, order := hreq ▸ h.order, kept := hwait ▸ h.kept
    permits := hwait ▸ h.permits, untouched := hwait ▸ h.untouched
    cancels := fun t ht => h.cancels t (ht.imp_left (hsub _))
    behind := (List.pairwise_cons.mp (hring ▸ h.behind)).2
    queued := fun t ht => h.queued t (hsub _ ht)
    early := fun t ht hne hq => ?_
    struck := fun t ht hp => h.struck t ht (hpend hp)
    published := fun hp => h.published (hp.imp_left hpend) }
  have hold := h.early t (hreq ▸ ht) nofun hq
  rw [hring, List.mem_cons] at hold
  exact hold.resolve_left (hearly t ht hne).symm

/-- A cancel that is taken off the ring finds its request in the queue or nowhere. -/
theorem cancel_not_behind (h : Sound queue held spared s) {t : Ticket} {ring : List Control}
    (hring : s.ring = .cancel t :: ring) : t ∉ requests ring := by
  intro ht
  obtain ⟨r, hr, hrt⟩ := mem_requests.mp ht
  have hbehind : (Control.cancel t :: ring).Pairwise NotBehind := hring ▸ h.behind
  exact (List.pairwise_cons.mp hbehind).1 _ hr t r rfl rfl hrt

/-- A request leaves the queue. -/
theorem remove {t : Ticket} (h : Sound queue held spared s) (ht : t ∈ queue)
    (hspared : ∀ u, u ≠ t → some u ≠ spared) : Sound (queue.erase t) (t :: held) none s := by
  have hperm : (waiting queue s).Perm (t :: waiting (queue.erase t) s) := by
    refine (((List.perm_cons_erase ht).append_right (requests s.ring)).append_left (submits s.calls)).trans ?_
    exact List.perm_middle
  have hall : (waiting queue s ++ held).Perm (waiting (queue.erase t) s ++ t :: held) :=
    (hperm.append_right held).trans List.perm_middle.symm
  have hmem : ∀ u, u ∈ waiting (queue.erase t) s → u ∈ waiting queue s :=
    fun u hu => hperm.mem_iff.mpr (List.mem_cons_of_mem _ hu)
  have hsub : (queue.erase t ++ requests s.ring).Sublist (queue ++ requests s.ring) :=
    List.erase_sublist.append_right _
  have hnodup : (waiting (queue.erase t) s ++ t :: held).Nodup := hall.nodup_iff.mp h.nodup
  refine { h with
    nodup := hnodup
    known := fun u hu => h.known u (hall.mem_iff.mpr hu)
    order := (hsub.append_left s.returned).trans h.order
    kept := fun u hu => ?_
    permits := ?_
    untouched := fun u hu => h.untouched u (hmem u hu)
    unfinished := List.forall_mem_cons.mpr ⟨(h.untouched t ?_).finished, h.unfinished⟩
    inFlight := fun u hu => (h.inFlight u hu).imp_left (List.mem_cons_of_mem _)
    early := fun u hu _ hq => h.early u (hsub.subset hu) (hspared u ?_) hq }
  · rcases h.kept u hu with hw | hh | hf
    · exact (List.mem_cons.mp (hperm.mem_iff.mp hw)).elim (fun heq => .inr (.inl (heq ▸ List.mem_cons_self))) .inl
    · exact .inr (.inl (List.mem_cons_of_mem _ hh))
    · exact .inr (.inr hf)
  · have hp := h.permits
    have hlen := hperm.length_eq
    rw [List.length_cons] at hlen
    rw [List.length_cons]
    omega
  · exact List.mem_append_right _ (List.mem_append_left _ ht)
  · rintro rfl
    exact (List.nodup_append.mp hnodup).2.2 u (List.mem_append_right _ hu) u List.mem_cons_self rfl

/-- `next_request` returns the first request of the queue. -/
theorem take {t : Ticket} (h : Sound (t :: queue) held none s) :
    Sound queue (t :: held) none
      { s.onFate t (fun f => { f with taken := true }) with
        current := some t, returned := s.returned ++ [t], overtaken := s.overtaken || s.cancelPending } := by
  have hrem := h.remove List.mem_cons_self nofun
  rw [List.erase_cons_head] at hrem
  have hne : ∀ u ∈ waiting queue s, u ≠ t := fun u hu heq => hrem.held_not_waiting List.mem_cons_self (heq ▸ hu)
  have hlow : t < s.nextTicket := hrem.held_known List.mem_cons_self
  have hf' : ∀ u, ((s.onFate t fun f => { f with taken := true }).fates u).finished = (s.fates u).finished :=
    fun u => s.fates_onFate_eq t u _ (p := Fate.finished) rfl
  have hq' : ∀ u, ((s.onFate t fun f => { f with taken := true }).fates u).cancelQueued = (s.fates u).cancelQueued :=
    fun u => s.fates_onFate_eq t u _ (p := Fate.cancelQueued) rfl
  -- a request that still counts as not taken is not the one that was
  have hnot : ∀ u, ((s.onFate t fun f => { f with taken := true }).fates u).taken = false →
      u ≠ t ∧ (s.fates u).taken = false := by
    intro u hu
    by_cases hut : u = t
    · subst hut
      rw [s.fates_onFate] at hu
      cases hu
    · rw [s.fates_onFate_ne _ hut] at hu
      exact ⟨hut, hu⟩
  refine { hrem with
    order := ?_
    kept := fun u hu => hf' u ▸ hrem.kept u hu
    fresh := fun u hu => ?_
    untouched := fun u hu => ?_
    unfinished := fun u hu => (hf' u).trans (hrem.unfinished u hu)
    inFlight := fun u hu => Option.some.inj hu ▸ ⟨List.mem_cons_self, List.mem_append_right _ List.mem_cons_self⟩
    taken := fun u => ?_
    retired := fun u hfin htaken => ?_
    queued := fun u hu htaken => (hq' u).trans (hrem.queued u hu (hnot u htaken).2)
    unborn := fun u hu => (hq' u).trans (hrem.unborn u hu)
    early := fun u hu hsp hq => hrem.early u hu hsp ((hq' u).symm.trans hq)
    struck := fun u _ hp => .inr (.inl (Bool.or_eq_true _ _ ▸ .inr hp))
    published := fun hp => h.published ?_ }
  · show (s.returned ++ [t] ++ (queue ++ requests s.ring)).Sublist s.pushed
    rw [List.append_assoc]
    exact h.order
  · show (s.onFate t fun f => { f with taken := true }).fates u = .new
    rw [s.fates_onFate_ne _ (Nat.ne_of_gt (Nat.lt_of_lt_of_le hlow hu))]
    exact h.fresh u hu
  · show Untouched ((s.onFate t fun f => { f with taken := true }).fates u)
    rw [s.fates_onFate_ne _ (hne u hu)]
    exact hrem.untouched u hu
  · show ((s.onFate t fun f => { f with taken := true }).fates u).taken = true ↔ u ∈ s.returned ++ [t]
    by_cases hut : u = t
    · subst hut
      rw [s.fates_onFate]
      simp
    · rw [s.fates_onFate_ne _ hut, List.mem_append, List.mem_singleton]
      exact (h.taken u).trans (or_iff_left hut).symm
  · obtain ⟨hut, htaken⟩ := hnot u htaken
    show ((s.onFate t fun f => { f with taken := true }).fates u).cancelQueued = true ∧
      (((s.onFate t fun f => { f with taken := true }).fates u).delivered = _ ∨ _)
    rw [hf'] at hfin
    rw [s.fates_onFate_ne _ hut]
    exact h.retired u hfin htaken
  · exact hp.elim .inl fun ho => (Bool.or_eq_true _ _ ▸ ho : s.overtaken = true ∨ s.cancelPending = true).symm

/-- The reader drops a request. -/
theorem release {t : Ticket} (h : Sound queue (t :: held) none s)
    (hend : (s.fates t).taken = false → (s.fates t).cancelQueued = true ∧
      ((s.fates t).delivered = [.aborted] ∨ s.shuttingDown = true ∨ (s.slots t).consumerAlive = false)) :
    Sound queue held none
      { s.onFate t (fun f => { f with finished := true }) with
        outstanding := s.outstanding - 1, current := if s.current = some t then none else s.current } := by
  -- what waits is not what is released, and its fate stays as it was
  have hne : ∀ u ∈ waiting queue s, u ≠ t := fun u hu heq => h.held_not_waiting List.mem_cons_self (heq ▸ hu)
  have hheld : t ∉ held := (List.nodup_cons.mp (List.nodup_append.mp h.nodup).2.1).1
  have ht' : ∀ u, ((s.onFate t fun f => { f with finished := true }).fates u).taken = (s.fates u).taken :=
    fun u => s.fates_onFate_eq t u _ (p := Fate.taken) rfl
  have hq' : ∀ u, ((s.onFate t fun f => { f with finished := true }).fates u).cancelQueued = (s.fates u).cancelQueued :=
    fun u => s.fates_onFate_eq t u _ (p := Fate.cancelQueued) rfl
  have hd' : ∀ u, ((s.onFate t fun f => { f with finished := true }).fates u).delivered = (s.fates u).delivered :=
    fun u => s.fates_onFate_eq t u _ (p := Fate.delivered) rfl
  have hcur : ∀ u, (if s.current = some t then none else s.current) = some u → s.current = some u ∧ u ≠ t := by
    intro u hu
    split at hu
    next => cases hu
    next hct => exact ⟨hu, fun heq => hct (heq ▸ hu)⟩
  refine { h with
    nodup := h.nodup.sublist ((List.sublist_cons_self t held).append_left _)
    known := fun u hu => h.known u (((List.sublist_cons_self t held).append_left _).subset hu)
    kept := fun u hu => ?_
    permits := ?_
    bound := Nat.le_trans (Nat.sub_le _ _) h.bound
    fresh := fun u hu => ?_
    untouched := fun u hu => ?_
    unfinished := fun u hu => ?_
    inFlight := fun u hu => (h.inFlight u (hcur u hu).1).imp_left
      fun hm => (List.mem_cons.mp hm).resolve_left (hcur u hu).2
    taken := fun u => (ht' u) ▸ h.taken u
    retired := fun u hfin htaken => ?_
    queued := fun u hu htaken => (hq' u).trans (h.queued u hu ((ht' u).symm.trans htaken))
    unborn := fun u hu => (hq' u).trans (h.unborn u hu)
    early := fun u hu hsp hq => h.early u hu hsp ((hq' u).symm.trans hq)
    struck := fun u hu hp => h.struck u (hcur u hu).1 hp }
  · show u ∈ waiting queue s ∨ u ∈ held ∨ ((s.onFate t fun f => { f with finished := true }).fates u).finished = true
    by_cases hut : u = t
    · subst hut
      rw [s.fates_onFate]
      exact .inr (.inr rfl)
    · rw [s.fates_onFate_ne _ hut]
      exact (h.kept u hu).imp_right (Or.imp_left fun hm => (List.mem_cons.mp hm).resolve_left hut)
  · have hp := h.permits
    rw [List.length_cons] at hp
    show s.outstanding - 1 = (waiting queue s).length + held.length
    omega
  · show (s.onFate t fun f => { f with finished := true }).fates u = .new
    rw [s.fates_onFate_ne _ (Nat.ne_of_gt (Nat.lt_of_lt_of_le (h.held_known List.mem_cons_self) hu))]
    exact h.fresh u hu
  · show Untouched ((s.onFate t fun f => { f with finished := true }).fates u)
    rw [s.fates_onFate_ne _ (hne u hu)]
    exact h.untouched u hu
  · show ((s.onFate t fun f => { f with finished := true }).fates u).finished = false
    have hut : u ≠ t := fun heq => hheld (heq ▸ hu)
    rw [s.fates_onFate_ne _ hut]
    exact h.unfinished u (List.mem_cons_of_mem _ hu)
  · show ((s.onFate t fun f => { f with finished := true }).fates u).cancelQueued = true ∧
      (((s.onFate t fun f => { f with finished := true }).fates u).delivered = _ ∨ _)
    rw [hq', hd']
    have hnot : (s.fates u).taken = false := (ht' u).symm.trans htaken
    by_cases hut : u = t
    · subst hut
      exact hend hnot
    · have hfin : ((s.onFate t fun f => { f with finished := true }).fates u).finished = true := hfin
      rw [s.fates_onFate_ne _ hut] at hfin
      exact h.retired u hfin hnot

/-- The flag of `AsyncClient::cancel` is reset. -/
theorem storeFalse (h : Sound queue held spared s) : Sound queue held spared { s with cancelAny := false } := by
  have hpend : Shared.cancelPending { s with cancelAny := false } = true → s.cancelPending = true := by
    simp only [Shared.cancelPending_iff]
    exact fun hp => .inr (hp.resolve_left nofun)
  exact { h with
    struck := fun t ht hp => h.struck t ht (hpend hp)
    published := fun hp => h.published (hp.imp_left hpend) }

/-- The flag is set again, when the message that set it is seen. -/
theorem storeTrue (h : Sound queue held spared s) (hstruck : ∀ t, s.current = some t → Struck s t)
    (hpub : s.strikes ≠ [] ∨ s.shuttingDown = true) : Sound queue held spared { s with cancelAny := true } :=
  { h with struck := fun t ht _ => hstruck t ht, published := fun _ => hpub }

end Sound

end Xibalba
