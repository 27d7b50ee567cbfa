import Xibalba.Client.Correctness.Queue
import Xibalba.Client.Session

/-!
# `Client.Correctness.Conservation` — the control queue loses nothing

The thread that owns a `ControlQueue` calls `next_request` and `poll_cancel` in any order, while callers push requests
and cancels. Whatever the interleaving, every pushed request is returned once, or retired with one `Aborted`, or still
waits; the returned ones come in push order; and a cancel reaches the request it names and no other.
-/

namespace Xibalba

open Act (Triple Sure)

/-! ## Calls on the queue -/

/-- A call of the thread that owns the queue. It polls for the request it took last. -/
inductive QueueCall where
  | next
  | poll
deriving DecidableEq

/-- What a call returned. -/
inductive Report where
  | returned (request : AsyncRequest)
  | stopped
  | polled (current : Option Ticket) (cancelled : Bool)
deriving DecidableEq

/-- The requests that were returned. -/
def returnedIn (reports : List Report) : List Ticket :=
  reports.filterMap fun
    | .returned r => some r.ticket
    | _ => none

namespace ControlQueue

variable {ε : Type}

/-- The thread is done with the request it took. -/
def finish : Option Ticket → M ε Unit
  | some t => M.dropRequest t
  | none => return ()

/-- Make the calls, and return what they return. -/
def drive (fuel : Nat) : Option Ticket → List QueueCall → M ε (List Report)
  | _, [] => return []
  | current, .next :: calls => do
    finish current
    match ← nextRequest fuel with
    | some request => return .returned request :: (← drive fuel (some request.ticket) calls)
    | none => return .stopped :: (← drive fuel none calls)
  | current, .poll :: calls => do
    let cancelled ← pollCancel fuel current fuel false
    return .polled current cancelled :: (← drive fuel current calls)

end ControlQueue

/-! ## What the reports say -/

/-- A cancel that was queued before the request was taken is reported by a poll with this answer. -/
def Heeded (t : Ticket) (b : Bool) (s : Shared) : Prop :=
  (s.fates t).taken = true ∧ ((s.fates t).cancelQueued = true → b = true)

structure Reported (reports : List Report) (s : Shared) : Prop where
  returned : s.returned = returnedIn reports
  /-- the queue sends nothing to a request it has returned -/
  clean : ∀ u, (s.fates u).taken = true → (s.fates u).delivered = []
  reason : ∀ t, .polled (some t) true ∈ reports →
    (s.slots t).cancelled = true ∨ s.strikes ≠ [] ∨ s.shuttingDown = true
  /-- the first poll for a request -/
  heeded : ∀ before after r b, reports = before ++ Report.returned r :: .polled (some r.ticket) b :: after → Heeded r.ticket b s

/-- The callers went on, and other requests were taken or dropped. -/
structure Onward (s s' : Shared) : Prop where
  shuttingDown : s.shuttingDown = true → s'.shuttingDown = true
  strikes : s.strikes ≠ [] → s'.strikes ≠ []
  cancelled : ∀ u, (s.slots u).cancelled = true → (s'.slots u).cancelled = true
  taken : ∀ u, (s.fates u).taken = true → (s'.fates u).taken = true
  queued : ∀ u, (s.fates u).taken = true → (s'.fates u).cancelQueued = (s.fates u).cancelQueued
  clean : (∀ u, (s.fates u).taken = true → (s.fates u).delivered = []) →
    ∀ u, (s'.fates u).taken = true → (s'.fates u).delivered = []

theorem Apart.onward {s s' : Shared} (h : Apart s s') : Onward s s' where
  shuttingDown := h.shuttingDown
  strikes hne := by
    obtain ⟨x, hx⟩ := List.exists_mem_of_ne_nil _ hne
    exact List.ne_nil_of_mem (h.strikes x hx)
  cancelled := h.cancelled
  taken u hu := (h.taken u).trans hu
  queued u hu := (h.course u hu).2.2
  clean hc u hu := by
    have hold : (s.fates u).taken = true := (h.taken u).symm.trans hu
    exact (h.course u hold).1.delivered.trans (hc u hold)

/-- What the reports say stays true. -/
theorem Reported.onward {reports reports' : List Report} {s s' : Shared} (h : Reported reports s) (ho : Onward s s')
    (hret : s'.returned = returnedIn reports')
    (hpolled : ∀ t, .polled (some t) true ∈ reports' → .polled (some t) true ∈ reports)
    (hfirst : ∀ before after r b, reports' = before ++ Report.returned r :: .polled (some r.ticket) b :: after →
      Heeded r.ticket b s) : Reported reports' s' := by
  refine ⟨hret, ho.clean h.clean, fun t ht => ?_, fun before after r b heq => ?_⟩
  · exact (h.reason t (hpolled t ht)).imp (ho.cancelled t) (Or.imp ho.strikes ho.shuttingDown)
  · obtain ⟨htaken, hb⟩ := hfirst before after r b heq
    exact ⟨ho.taken _ htaken, fun hq => hb ((ho.queued _ htaken).symm.trans hq)⟩

theorem Reported.apart {reports : List Report} {s s' : Shared} (h : Reported reports s) (ha : Apart s s') :
    Reported reports s' :=
  h.onward ha.onward (ha.returned.trans h.returned) (fun _ => id) h.heeded

def reported (reports : List Report) : Lasting := ⟨fun _ s => Reported reports s, fun hg h => h.apart hg.toApart⟩

theorem reported_blind (reports : List Report) : (reported reports).Blind :=
  ⟨fun _ _ _ h => h, fun _ _ _ ha h => h.apart ha⟩

/-- Two reports in a row, when one more is added: the second is the new one, or both are old. -/
theorem reports_snoc {reports before after : List Report} {x y z : Report}
    (h : reports ++ [z] = before ++ x :: y :: after) :
    (reports = before ++ [x] ∧ z = y) ∨ ∃ after, reports = before ++ x :: y :: after := by
  rcases List.eq_nil_or_concat after with rfl | ⟨after, last, rfl⟩
  · have h : reports ++ [z] = (before ++ [x]) ++ [y] := by
      rw [h, List.append_assoc]
      rfl
    obtain ⟨hreports, hz⟩ := List.append_inj' h rfl
    exact .inl ⟨hreports, List.singleton_inj.mp hz⟩
  · have h : reports ++ [z] = (before ++ x :: y :: after) ++ [last] := by
      rw [h, List.concat_eq_append, List.append_assoc]
      rfl
    exact .inr ⟨after, (List.append_inj' h rfl).1⟩

/-- One more report. -/
theorem Reported.snoc {reports : List Report} {s : Shared} (h : Reported reports s) {report : Report}
    (hret : ∀ r, report ≠ .returned r)
    (hpolled : ∀ t, report = .polled (some t) true → (s.slots t).cancelled = true ∨ s.strikes ≠ [] ∨ s.shuttingDown = true)
    (hfirst : ∀ before r b, reports = before ++ [Report.returned r] → report = .polled (some r.ticket) b → Heeded r.ticket b s) :
    Reported (reports ++ [report]) s := by
  refine ⟨?_, h.clean, fun t ht => ?_, fun before after r b heq => ?_⟩
  · rw [h.returned]
    unfold returnedIn
    rw [List.filterMap_append]
    cases report with
    | returned r => exact absurd rfl (hret r)
    | stopped => exact (List.append_nil _).symm
    | polled current b => exact (List.append_nil _).symm
  · rcases List.mem_append.mp ht with ht | ht
    · exact h.reason t ht
    · exact hpolled t (List.mem_singleton.mp ht).symm
  · rcases reports_snoc heq with ⟨hreports, hreport⟩ | ⟨after, hreports⟩
    · exact hfirst before r b hreports hreport
    · exact h.heeded before after r b hreports

/-- A request is taken. -/
theorem Reported.take {reports : List Report} {s s' : Shared} {r : AsyncRequest} (h : Reported reports s)
    (hact : s.answer (.mark (.taken r.ticket)) () = some s') (huntouched : Untouched (s.fates r.ticket)) :
    Reported (reports ++ [Report.returned r]) s' := by
  cases hact
  have hat := s.fates_onFate r.ticket fun f => { f with taken := true }
  have hoff : ∀ u, u ≠ r.ticket → (s.onFate r.ticket fun f => { f with taken := true }).fates u = s.fates u :=
    fun u hu => s.fates_onFate_ne _ hu
  refine h.onward ⟨id, id, fun _ => id, fun u hu => ?_, fun u _ => ?_, fun hc u hu => ?_⟩ ?_ (fun t ht => ?_)
    fun before after r' b heq => ?_
  · exact s.fates_onFate_of r.ticket u (fun f => { f with taken := true }) (P := fun f => f.taken = true) (fun _ => rfl) hu
  · exact s.fates_onFate_eq r.ticket u (fun f => { f with taken := true }) (p := Fate.cancelQueued) rfl
  · by_cases hut : u = r.ticket
    · subst hut
      exact (congrArg Fate.delivered hat).trans huntouched.delivered
    · have hu : ((s.onFate r.ticket fun f => { f with taken := true }).fates u).taken = true := hu
      rw [hoff u hut] at hu
      exact (congrArg Fate.delivered (hoff u hut)).trans (hc u hu)
  · show s.returned ++ [r.ticket] = returnedIn (reports ++ [Report.returned r])
    unfold returnedIn
    rw [List.filterMap_append, h.returned]
    rfl
  · rcases List.mem_append.mp ht with ht | ht
    · exact ht
    · cases List.mem_singleton.mp ht
  · rcases reports_snoc heq with ⟨-, hpoll⟩ | ⟨after, hreports⟩
    · cases hpoll
    · exact h.heeded before after r' b hreports

/-- What the reports say once a request with this ticket is returned. -/
def reportedNext (reports : List Report) (t : Ticket) : Lasting where
  holds _ s := ∀ r : AsyncRequest, r.ticket = t → Reported (reports ++ [Report.returned r]) s
  lasts hg h := fun r hr => (h r hr).apart hg.toApart

theorem reportedNext_take (reports : List Report) {l : Local} {s s' : Shared} {t : Ticket}
    (hact : s.answer (.mark (.taken t)) () = some s') (huntouched : Untouched (s.fates t)) (h : reported reports l s) :
    reportedNext reports t l s' := by
  rintro r rfl
  exact h.take hact huntouched

/-- A request that was returned is dropped. -/
theorem Reported.drop {reports : List Report} {s : Shared} (h : Reported reports s) (t : Ticket) :
    Reported reports { s.onFate t (fun f => { f with finished := true }) with
      outstanding := s.outstanding - 1, current := if s.current = some t then none else s.current } := by
  have htaken : ∀ u, ((s.onFate t fun f => { f with finished := true }).fates u).taken = (s.fates u).taken :=
    fun u => s.fates_onFate_eq t u (fun f => { f with finished := true }) (p := Fate.taken) rfl
  refine h.onward ⟨id, id, fun _ => id, fun u hu => (htaken u).trans hu, fun u _ => ?_, fun hc u hu => ?_⟩ h.returned
    (fun _ => id) h.heeded
  · exact s.fates_onFate_eq t u (fun f => { f with finished := true }) (p := Fate.cancelQueued) rfl
  · have hd := s.fates_onFate_eq t u (fun f => { f with finished := true }) (p := Fate.delivered) rfl
    exact hd.trans (hc u ((htaken u).symm.trans hu))

/-! ## Any sequence of calls -/

/-- The calls are made by anybody. -/
abbrev anybody : Shared → Op → Prop := fun _ _ => True

/-- The invariant with some request held, and what the reports say. -/
def accounted (reports : List Report) : (threads anybody).Assertion Local where
  holds l s := (∃ current : Option Ticket, Sound (tickets l.pending) current.toList none s ∧
    ∀ t, current = some t → (s.fates t).taken = true) ∧ Reported reports s
  stable henv h := by
    obtain ⟨⟨current, hsound, htaken⟩, hrep⟩ := h
    have hg := Grows.of_env henv
    exact ⟨⟨current, hsound.env henv, fun t ht => (hg.taken t).trans (htaken t ht)⟩, hrep.apart hg.toApart⟩

/-- The request a thread polls for was taken. -/
def wasTaken (current : Option Ticket) : Lasting where
  holds _ s := ∀ t, current = some t → (s.fates t).taken = true
  lasts hg h := fun t ht => (hg.taken t).trans (h t ht)

namespace ControlQueue

variable {ε : Type} {current : Option Ticket} {reports : List Report}

theorem sure_finish {armed : Bool} :
    Sure (holding (G := anybody) (fun l => tickets l.pending) current.toList none
        ((hunting current armed false).and (reported reports))) (finish current : M ε Unit)
      fun _ => holding (fun l => tickets l.pending) [] none (reported reports) := by
  cases current with
  | none => exact Triple.pure fun _ _ h => ⟨h.1, h.2.2⟩
  | some t =>
      apply Triple.call
      rintro l s ⟨hsound, hh, hrep⟩
      refine ⟨trivial, fun _ s' hact => ?_⟩
      cases hact
      refine ⟨hsound.release fun hnot => ?_, hrep.drop t⟩
      rw [hh.taken t rfl] at hnot
      cases hnot

/-- **The calls, one after the other.** `armed` says that `current` was returned by the last call. -/
theorem sure_drive (fuel : Nat) (calls : List QueueCall) {armed : Bool}
    (harmed : ∀ before r, reports = before ++ [Report.returned r] → armed = true ∧ current = some r.ticket) :
    Sure (holding (G := anybody) (fun l => tickets l.pending) current.toList none
        ((hunting current armed false).and (reported reports))) (drive fuel current calls : M ε (List Report))
      fun more => accounted (reports ++ more) := by
  have hG : ∀ {s op}, Allowed s op → anybody s op := fun _ => trivial
  -- on the calls; `armed` says that the last report returned a request that was not polled yet
  induction calls generalizing current reports armed with
  | nil =>
      apply Triple.pure
      rintro l s ⟨hsound, hh, hrep⟩
      show accounted (reports ++ []) l s
      rw [List.append_nil]
      exact ⟨⟨current, hsound, hh.taken⟩, hrep⟩
  | cons call calls ih =>
      have hsnoc : ∀ {before : List Report} {report : Report} {r : AsyncRequest},
          reports ++ [report] = before ++ [Report.returned r] → report = .returned r :=
        fun heq => List.singleton_inj.mp (List.append_inj' heq rfl).2
      -- one more report, and the calls that are left
      have hthen : ∀ (report : Report) (current' : Option Ticket) (armed' : Bool),
          (∀ before r, reports ++ [report] = before ++ [Report.returned r] → armed' = true ∧ current' = some r.ticket) →
          Sure (holding (G := anybody) (fun l => tickets l.pending) current'.toList none
              ((hunting current' armed' false).and (reported (reports ++ [report]))))
            (do return report :: (← drive fuel current' calls) : M ε (List Report))
            fun more => accounted (reports ++ more) := by
        intro report current' armed' h
        refine Triple.after (ih h) fun rest => ?_
        apply Triple.pure
        intro l s hs
        have hassoc : reports ++ [report] ++ rest = reports ++ report :: rest := List.append_assoc _ _ _
        show accounted (reports ++ report :: rest) l s
        rw [← hassoc]
        exact hs
      cases call with
      | next =>
          refine Triple.after sure_finish fun _ => ?_
          refine Triple.after (sure_nextRequest hG (reported_blind reports) (reportedNext_take reports) fuel) fun o => ?_
          cases o with
          | none =>
              refine Triple.conseq (hthen .stopped none false fun before r heq => ?_)
                (fun l s hs => ?_) fun _ _ _ h => h
              · cases hsnoc heq
              · refine ⟨hs.1, ⟨nofun, nofun, nofun⟩, ?_⟩
                exact hs.2.snoc (fun _ => nofun) (fun _ => nofun) fun _ _ _ _ => nofun
          | some r =>
              refine Triple.conseq (hthen (.returned r) (some r.ticket) true fun before r' heq => ?_) (fun l s hs => ?_) fun _ _ _ h => h
              · cases hsnoc heq
                exact ⟨rfl, rfl⟩
              · obtain ⟨hsound, ⟨-, hh, -⟩, hrep⟩ := hs
                exact ⟨hsound, hh, hrep r rfl⟩
      | poll =>
          have hblind : ((reported reports).and (wasTaken current)).Blind :=
            ⟨fun _ _ _ h => h, fun l s s' ha h => ⟨h.1.apart ha, fun t ht => (ha.taken t).trans (h.2 t ht)⟩⟩
          refine Triple.conseq (P := draining current.toList current armed false ((reported reports).and (wasTaken current)))
            (Triple.after (sure_pollCancel hG hblind fuel fuel false) fun b => ?_)
            (fun l s hs => ⟨hs.1, hs.2.1, hs.2.2, hs.2.1.taken⟩) fun _ _ _ h => h
          refine Triple.conseq (hthen (.polled current b) current false fun before r heq => ?_) (fun l s hs => ?_) fun _ _ _ h => h
          · cases hsnoc heq
          · obtain ⟨hsound, hv, hrep, htaken⟩ := hs
            refine ⟨hsound, ⟨nofun, htaken, nofun⟩, hrep.snoc (fun _ => nofun) (fun t ht => ?_) fun before r b' heq hb => ?_⟩
            · cases ht
              rcases hv.reason rfl with hs | ⟨t', ht', hc⟩ | hsig
              · exact .inr (.inr hs)
              · cases ht'
                exact .inl hc
              · exact .inr hsig.published
            · obtain ⟨rfl, rfl⟩ := harmed before r heq
              cases hb
              refine ⟨htaken _ rfl, fun hq => ?_⟩
              cases b with
              | true => rfl
              | false =>
                  obtain ⟨-, hclear⟩ := hv.clear rfl rfl r.ticket rfl
                  rw [hclear] at hq
                  cases hq

end ControlQueue

/-! ## Conservation and order -/

/-- The request was retired in the queue. -/
def Retired (s : Shared) (t : Ticket) : Prop := (s.fates t).finished = true ∧ (s.fates t).delivered = [.aborted]

/-- What became of the pushed requests, by the time the calls have returned `reports` and `pending` is what they left in
    the queue. -/
structure Conserved (reports : List Report) (pending : List AsyncRequest) (s : Shared) : Prop where
  /-- every request was returned, or retired, or still waits -/
  covered : ∀ t ∈ s.pushed, t ∈ returnedIn reports ∨ Retired s t ∨ t ∈ tickets pending ++ requests s.ring
  /-- none is returned twice, or returned and still waiting -/
  once : (returnedIn reports ++ (tickets pending ++ requests s.ring)).Nodup
  /-- a retired one is neither returned nor waiting -/
  apart : ∀ t, Retired s t → t ∉ returnedIn reports ++ (tickets pending ++ requests s.ring)
  order : (returnedIn reports).Sublist s.pushed
  /-- one is retired only if a cancel of it was queued, and the others are sent nothing -/
  scope : ∀ t ∈ s.pushed, (Retired s t ∧ (s.fates t).cancelQueued = true) ∨ (s.fates t).delivered = []
  /-- a cancel is reported for the request it names only -/
  named : ∀ t, .polled (some t) true ∈ reports → (s.slots t).cancelled = true
  /-- the first poll for a request reports a cancel that was queued before it was returned -/
  heard : ∀ before after r b, reports = before ++ .returned r :: .polled (some r.ticket) b :: after →
    (s.fates r.ticket).cancelQueued = true → b = true

theorem accounted.conserved {reports : List Report} {l : Local} {s : Shared} (h : accounted reports l s)
    (hany : s.strikes = []) (hdown : s.shuttingDown = false) (halive : ∀ t ∈ s.pushed, (s.slots t).consumerAlive = true) :
    Conserved reports l.pending s := by
  obtain ⟨⟨current, hsound, hcur⟩, hrep⟩ := h
  have hret : ∀ t, (s.fates t).taken = true ↔ t ∈ returnedIn reports := hrep.returned ▸ hsound.taken
  have horder := hsound.order
  rw [hrep.returned] at horder
  -- a request that is finished and was not returned was retired
  have hretired : ∀ t ∈ s.pushed, (s.fates t).finished = true → (s.fates t).taken = false →
      Retired s t ∧ (s.fates t).cancelQueued = true := by
    intro t ht hfin hnot
    obtain ⟨hq, hd | hs | hdead⟩ := hsound.retired t hfin hnot
    · exact ⟨⟨hfin, hd⟩, hq⟩
    · rw [hdown] at hs
      cases hs
    · rw [halive t ht] at hdead
      cases hdead
  have hwaiting : ∀ t ∈ tickets l.pending ++ requests s.ring, Untouched (s.fates t) :=
    fun t ht => hsound.untouched t (List.mem_append_right _ ht)
  have hplace : ∀ t ∈ s.pushed, (s.fates t).taken = true ∨ t ∈ tickets l.pending ++ requests s.ring ∨
      (Retired s t ∧ (s.fates t).cancelQueued = true) := by
    intro t ht
    by_cases htaken : (s.fates t).taken = true
    · exact .inl htaken
    right
    rcases hsound.kept t ht with hw | hh | hf
    · exact .inl ((List.mem_append.mp hw).resolve_left (hsound.issued t ht).2)
    · cases hc : current with
      | none =>
          rw [hc] at hh
          cases hh
      | some u =>
          rw [hc] at hh
          rw [List.mem_singleton.mp hh] at htaken
          exact absurd (hcur u hc) htaken
    · exact .inr (hretired t ht hf (Bool.not_eq_true _ ▸ htaken))
  refine ⟨fun t ht => ?_, hsound.pushedOnce.sublist horder, fun t hr hmem => ?_, (List.sublist_append_left _ _).trans horder,
    fun t ht => ?_, fun t ht => ?_, fun before after r b heq hq => (hrep.heeded before after r b heq).2 hq⟩
  · rcases hplace t ht with htaken | hw | hr
    · exact .inl ((hret t).mp htaken)
    · exact .inr (.inr hw)
    · exact .inr (.inl hr.1)
  · rcases List.mem_append.mp hmem with hm | hm
    · have hd := hrep.clean t ((hret t).mpr hm)
      rw [hr.2] at hd
      cases hd
    · have hf := (hwaiting t hm).finished
      rw [hr.1] at hf
      cases hf
  · rcases hplace t ht with htaken | hw | hr
    · exact .inr (hrep.clean t htaken)
    · exact .inr (hwaiting t hw).delivered
    · exact .inl hr
  · rcases hrep.reason t ht with hc | hs | hs
    · exact hc
    · exact absurd hany hs
    · rw [hdown] at hs
      cases hs

/-- **Conservation and order of the control queue.** Whatever calls the thread makes, and however pushes of requests and
    of their cancels interleave with them, every pushed request is returned once, or retired with one `Aborted`, or
    still waits. -/
theorem control_queue_conserves {fuel : Nat} {calls : List QueueCall} {l l' : Local} (hl : l.pending = []) {s : Shared}
    {reports : List Report}
    (hr : Prog.Reach (threads anybody) (ControlQueue.drive (ε := Empty) fuel none calls l) .start (.pure (.ok reports, l')) s)
    (hany : s.strikes = []) (hdown : s.shuttingDown = false) (halive : ∀ t ∈ s.pushed, (s.slots t).consumerAlive = true) :
    Conserved reports l'.pending s := by
  have hstart : Reported [] .start := ⟨rfl, nofun, nofun, fun before _ _ _ heq => by cases before <;> cases heq⟩
  have hsound : Sound (tickets l.pending) [] none .start := by
    rw [hl]
    exact Sound.start
  have hempty : ∀ before r, [] = before ++ [Report.returned r] → false = true ∧ none = some r.ticket :=
    fun before r heq => by cases before <;> cases heq
  have hdrive := ControlQueue.sure_drive (ε := Empty) fuel calls hempty l
    .start ⟨hsound, ⟨nofun, nofun, nofun⟩, hstart⟩
  exact accounted.conserved (Prog.wp_result hdrive hr) hany hdown halive

/-- A plain request with this ticket. -/
def AsyncRequest.plain (t : Ticket) : AsyncRequest := ⟨.get, ascii "/", none, none, [], t⟩

/-- The submission of a plain request, and its push. -/
def submitted (t : Ticket) : List (Option Action) :=
  [some (.submit .get (ascii "/") none none []), some (.push (.submit (.plain t)))]

/-- Two requests are submitted; the second is cancelled after the first was taken, and is retired by the poll. -/
theorem control_queue_conserves_two_requests :
    ∃ s, Prog.Reach (threads anybody) (ControlQueue.drive (ε := Empty) 8 none [.next, .poll] idle) .start
        (.pure (.ok [.returned (.plain 0), .polled (some 0) false], idle)) s ∧ s.pushed = [0, 1] ∧
      Conserved [.returned (.plain 0), .polled (some 0) false] [] s := by
  obtain ⟨s, hr, hpushed, hany, hdown, halive⟩ := schedule_result (G := anybody)
    (submitted 0 ++ submitted 1 ++ List.replicate 4 none ++ [some (Action.cancel 1), some (.push (.cancel 1))] ++
      List.replicate 10 none) []
    (p := ControlQueue.drive (ε := Empty) 8 none [.next, .poll] idle)
    (a := (.ok [.returned (.plain 0), .polled (some 0) false], idle))
    (P := fun s => s.pushed = [0, 1] ∧ s.strikes = [] ∧ s.shuttingDown = false ∧
      ∀ t ∈ s.pushed, (s.slots t).consumerAlive = true) (by decide +kernel)
  exact ⟨s, hr, hpushed, control_queue_conserves rfl hr hany hdown halive⟩

end Xibalba
