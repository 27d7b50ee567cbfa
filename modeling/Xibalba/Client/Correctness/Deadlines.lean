import Xibalba.Client.Correctness.Frame
import Xibalba.Client.Session

/-!
# `Client.Correctness.Deadlines` — the deadlines that `Connector::connect` receives

A request has one total, which starts when the call or the reader thread takes it up, and every connect that is made
for it has a budget of its own. Both bound the deadline that the connect receives: the second always, the first unless
the reader thread connects for a request it has just taken, for which it passes no total, or the clock moves while the
deadline is computed.

Layout:
* `Timing`, the record of the clock readings, and `timed`, the world in which the clock does not go back;
* `ticking`, what holds while a request is made;
* calls, the reader thread and sessions keep it: `connects_in_time`.
-/

namespace Xibalba

open Act (Keeps Sure Triple)

/-! ## The record -/

/-- The last two readings of the clock, and the total of the request that is being made. -/
structure Timing where
  clock : Instant
  previous : Instant
  /-- a request has begun, and its total starts with the next reading -/
  begun : Bool
  expires : Option Instant
  /-- the reader thread has taken the request and has not yet published that it is started -/
  queued : Bool
deriving DecidableEq

namespace Timing

/-- Nothing has begun, and the clock shows `t`. -/
def start (t : Instant) : Timing := ⟨t, t, false, none, false⟩

def begin (s : Timing) (queued : Bool) : Timing := { s with begun := true, expires := none, queued := queued }

/-- A reading of the clock. With no budget there is no total. -/
def reading (s : Timing) (budget : Option Duration) (t : Instant) : Timing :=
  { s with
    clock := t
    previous := s.clock
    begun := false
    expires := if s.begun then budget.bind fun b => Instant.checkedAdd t b else s.expires }

def next (config : Config) (s : Timing) : (op : Op) → op.Ret → Timing
  | .now, t => s.reading config.requestDeadline t
  | .mark .call, _ => s.begin false
  | .mark (.taken _), _ => s.begin true
  | .storeStarted _, _ => { s with queued := false }
  | _, _ => s

/-- The total `t` was passed on, and the clock stood still before it when the deadline was computed. -/
structure OnTime (s : Timing) (t : Instant) : Prop where
  published : s.queued = false
  still : s.clock = s.previous
  left : s.clock ≤ t

/-- The total `t` was passed on before it was over, and an instant that is later by what the clock moved when the deadline
    was computed can be represented. -/
structure Passed (s : Timing) (t : Instant) : Prop where
  published : s.queued = false
  left : s.previous ≤ t
  fits : t + (s.clock - s.previous) ≤ MAX_INSTANT

end Timing

/-- The deadline expires at `t` at the latest. -/
def Deadline.Within (d : Deadline) (t : Instant) : Prop := ∃ e, d.expiresAt = some e ∧ e ≤ t

/-- The deadline of a connect is within the connect timeout from now. -/
def Deadline.Limited (d : Deadline) (config : Config) (s : Timing) : Prop :=
  ∀ timeout t, config.connectTimeout = some timeout → Instant.checkedAdd s.clock timeout = some t → d.Within t

/-- Connects are within the connect timeout, and within the total of their request, or late by what the clock moved. -/
def InTime (config : Config) (s : Timing) : Op → Prop
  | .connect _ d =>
    d.Limited config s ∧ (∀ t, s.expires = some t → s.OnTime t → d.Within t) ∧
      ∀ t, s.expires = some t → s.Passed t → d.Within (t + (s.clock - s.previous))
  | _ => True

/-- The world that keeps the record. The clock does not go back. -/
def timed (config : Config) : World Sys Timing where
  env := Eq
  guard := InTime config
  act s op r s' := s' = s.next config op r ∧ s.clock ≤ s'.clock
  env_refl _ := rfl
  env_trans h₁ h₂ := h₁.trans h₂

/-! ## Deadlines -/

/-- A deadline that can be represented is at its distance from now. -/
theorem Instant.checkedAdd_eq_some {t u : Instant} {d : Duration} :
    Instant.checkedAdd t d = some u ↔ t + d = u ∧ u ≤ MAX_INSTANT := by
  unfold checkedAdd
  by_cases h : t + d ≤ MAX_INSTANT
  · rw [if_pos h, Option.some.injEq]
    constructor
    · rintro rfl
      exact ⟨rfl, h⟩
    · exact And.left
  · rw [if_neg h]
    constructor
    · intro hnone
      cases hnone
    · rintro ⟨rfl, hle⟩
      exact absurd hle h

namespace Deadline

theorem Within.mono {d : Deadline} {t u : Instant} (h : d.Within t) (htu : t ≤ u) : d.Within u := by
  obtain ⟨e, he, hle⟩ := h
  exact ⟨e, he, Nat.le_trans hle htu⟩

/-- The sooner of two deadlines is as close as either. -/
theorem Within.sooner_left {a : Deadline} {t : Instant} (h : a.Within t) (b : Deadline) : (sooner a b).Within t := by
  obtain ⟨x, hx, hle⟩ := h
  unfold sooner
  rw [hx]
  cases hb : b.expiresAt with
  | none => exact ⟨x, hx, hle⟩
  | some y => exact ⟨min x y, rfl, Nat.le_trans (Nat.min_le_left x y) hle⟩

theorem Within.sooner_right {b : Deadline} {t : Instant} (h : b.Within t) (a : Deadline) : (sooner a b).Within t := by
  obtain ⟨y, hy, hle⟩ := h
  unfold sooner
  rw [hy]
  cases ha : a.expiresAt with
  | none => exact ⟨y, hy, hle⟩
  | some x => exact ⟨min x y, rfl, Nat.le_trans (Nat.min_le_right x y) hle⟩

theorem Limited.mono {d : Deadline} {config : Config} {s s' : Timing} (h : d.Limited config s) (hclock : s.clock ≤ s'.clock) :
    d.Limited config s' := by
  intro timeout t htimeout ht
  obtain ⟨rfl, hmax⟩ := Instant.checkedAdd_eq_some.mp ht
  have hle : s.clock + timeout ≤ s'.clock + timeout := Nat.add_le_add_right hclock timeout
  have hsome := Instant.checkedAdd_eq_some.mpr ⟨rfl, Nat.le_trans hle hmax⟩
  exact (h timeout _ htimeout hsome).mono hle

end Deadline

/-! ## While a request is made -/

variable {config : Config} {ε : Type}

/-- The client has this configuration. -/
def resting (config : Config) : (timed config).Assertion Local where
  holds l _ := l.client.config = config
  stable _ h := h

/-- The total of the request that is being made is `d`. -/
structure Ticking (config : Config) (d : RequestDeadline) (queued : Bool) (l : Local) (s : Timing) : Prop where
  configured : l.client.config = config
  expires : s.expires = d.expiresAt
  /-- without a budget nothing reads the clock when the request begins -/
  begun : s.begun = true → config.requestDeadline = none ∧ d.expiresAt = none
  queued : s.queued = queued
  bounded : ∀ t, d.expiresAt = some t → t ≤ MAX_INSTANT

def ticking (config : Config) (d : RequestDeadline) (queued : Bool) : (timed config).Assertion Local where
  holds := Ticking config d queued
  stable henv h := by
    cases henv
    exact h

/-- A request has begun. -/
def beginning (config : Config) (queued : Bool) : (timed config).Assertion Local where
  holds l s := l.client.config = config ∧ ∃ s₀ : Timing, s = s₀.begin queued
  stable henv h := by
    cases henv
    exact h

theorem Ticking.reading {d : RequestDeadline} {queued : Bool} {l : Local} {s : Timing}
    (h : Ticking config d queued l s) (t : Instant) : Ticking config d queued l (s.reading config.requestDeadline t) := by
  refine { h with expires := ?_, begun := nofun, queued := h.queued }
  unfold Timing.reading
  dsimp only
  split
  next hbegun =>
    obtain ⟨hbudget, hnone⟩ := h.begun hbegun
    rw [hbudget, hnone]
    rfl
  next => exact h.expires

/-- An operation the record does not look at. -/
theorem act_same {op : Op} {r : op.Ret} {s s' : Timing} (hsame : s.next config op r = s) (hact : (timed config).act s op r s') :
    s' = s :=
  hact.1.trans hsame

theorem settled_of_reading {I : (timed config).Assertion Local}
    (hclient : ∀ l s c, c.config = l.client.config → I l s → I { l with client := c } s)
    (hreading : ∀ l s t, I l s → s.clock ≤ t → I l (s.reading config.requestDeadline t)) : Settled I where
  client := hclient
  wire op hop l s h := by
    have hother : ∀ (op : Op), (∀ r : op.Ret, s.next config op r = s) → InTime config s op →
        (timed config).guard s op ∧ ∀ r s', (timed config).act s op r s' → I l s' := by
      intro op hsame hguard
      refine ⟨hguard, fun r s' hact => ?_⟩
      rw [act_same (hsame r) hact]
      exact h
    cases op with
    | now =>
        refine ⟨trivial, fun t s' hact => ?_⟩
        obtain ⟨rfl, hle⟩ := hact
        exact hreading l s t h hle
    | setReadTimeout d => exact hother _ (fun _ => rfl) trivial
    | setWriteTimeout d => exact hother _ (fun _ => rfl) trivial
    | read len => exact hother _ (fun _ => rfl) trivial
    | write buf => exact hother _ (fun _ => rfl) trivial
    | flush => exact hother _ (fun _ => rfl) trivial
    | mark m =>
        cases m with
        | exchange params request => exact hother _ (fun _ => rfl) trivial
        | response acc headEnd => exact hother _ (fun _ => rfl) trivial
        | _ => cases hop
    | _ => cases hop

theorem aside_of_client {I : (timed config).Assertion Local} (hown : ∀ l s l', l'.client = l.client → I l s → I l' s) :
    Aside I where
  own := hown
  shared op hop l s h := by
    have hsame : ∀ r : op.Ret, s.next config op r = s := by
      cases op with
      | loadShuttingDown | loadCancelAny | storeCancelAny | loadCancelled | loadConsumerAlive => exact fun _ => rfl
      | pop | popBlock | push | dropRequest => exact fun _ => rfl
      | _ => cases hop
    have hguard : InTime config s op := by
      cases op with
      | connect url d => cases hop
      | _ => trivial
    refine ⟨hguard, fun r s' hact => ?_⟩
    rw [act_same (hsame r) hact]
    exact h

theorem settled_ticking (config : Config) (d : RequestDeadline) (queued : Bool) : Settled (ticking config d queued) :=
  settled_of_reading (fun _ _ _ hc h => { h with configured := hc.trans h.configured }) fun _ _ t h _ => h.reading t

theorem aside_ticking (config : Config) (d : RequestDeadline) (queued : Bool) : Aside (ticking config d queued) :=
  aside_of_client fun _ _ _ hl h => { h with configured := (congrArg Client.config hl).trans h.configured }

theorem settled_resting : Settled (resting config) :=
  settled_of_reading (fun _ _ _ hc h => hc.trans h) fun _ _ _ h _ => h

theorem aside_resting : Aside (resting config) := aside_of_client fun _ _ _ hl h => (congrArg Client.config hl).trans h

/-- The total starts when the request has begun. -/
theorem sure_after (queued : Bool) :
    Sure (beginning config queued) (RequestDeadline.after config.requestDeadline : M ε RequestDeadline)
      fun d => ticking config d queued := by
  cases hbudget : config.requestDeadline with
  | none =>
      refine Triple.pure fun l s h => ?_
      obtain ⟨hconfig, s₀, rfl⟩ := h
      exact ⟨hconfig, rfl, fun _ => ⟨hbudget, rfl⟩, rfl, nofun⟩
  | some b =>
      refine Triple.after (R := fun t : Instant => ticking config ⟨t.checkedAdd b⟩ queued) (Triple.call fun l s h => ?_) fun t => ?_
      · refine ⟨trivial, fun t s' hact => ?_⟩
        obtain ⟨hconfig, s₀, rfl⟩ := h
        obtain ⟨rfl, -⟩ := hact
        refine ⟨hconfig, ?_, nofun, rfl, fun u hu => ?_⟩
        · show (if true = true then config.requestDeadline.bind fun b => Instant.checkedAdd t b else none) = _
          rw [hbudget]
          rfl
        · exact (Instant.checkedAdd_eq_some.mp hu).2
      · exact Triple.pure fun _ _ h => h

/-! ## Connecting -/

/-- An assertion, and something about the record. -/
def noting (I : (timed config).Assertion Local) (P : Timing → Prop) : (timed config).Assertion Local where
  holds l s := I l s ∧ P s
  stable henv h := by
    cases henv
    exact h

/-- A reading of the clock, of which something is noted. -/
theorem Settled.sure_now {I : (timed config).Assertion Local} (hI : Settled I) {P : Timing → Prop}
    {R : Instant → Timing → Prop}
    (h : ∀ s t, P s → s.clock ≤ t → R t (s.reading config.requestDeadline t)) :
    Sure (noting I P) (M.now : M ε Instant) fun t => noting I (R t) := by
  refine Triple.call fun l s hs => ?_
  obtain ⟨hguard, hkeep⟩ := hI.wire .now rfl l s hs.1
  refine ⟨hguard, fun t s' hact => ⟨hkeep t s' hact, ?_⟩⟩
  obtain ⟨rfl, hle⟩ := hact
  exact h s t hs.2 hle

theorem Config.sure_connectDeadline {I : (timed config).Assertion Local} (hI : Settled I) :
    Sure I (config.connectDeadline : M ε Deadline) fun d => noting I (d.Limited config) := by
  unfold connectDeadline
  cases hc : config.connectTimeout with
  | none =>
      refine Triple.pure fun l s h => ⟨h, fun timeout t htimeout => ?_⟩
      rw [hc] at htimeout
      cases htimeout
  | some budget =>
      have hnow : Sure (noting I fun _ => True) (M.now : M ε Instant) fun t =>
          noting I ((Deadline.after t budget).Limited config) := by
        refine hI.sure_now fun s t _ _ timeout u htimeout hu => ?_
        rw [hc] at htimeout
        cases htimeout
        exact ⟨u, hu, Nat.le_refl u⟩
      refine Triple.conseq (Triple.after hnow fun t => ?_) (fun l s h => ⟨h, trivial⟩) fun _ _ _ h => h
      exact Triple.pure fun _ _ h => h

/-- The deadline that `reconnect_with_deadline` passes on. While the request is not queued, it must have been given the
    request's own total. -/
theorem RequestDeadline.sure_connectDeadline {d deadline : RequestDeadline} {queued : Bool}
    (hd : queued = false → deadline = d) (fallback : Deadline) (url : Url) :
    Sure (noting (ticking config d queued) (fallback.Limited config)) (deadline.connectDeadline fallback : M ε Deadline)
      fun cd => noting (ticking config d queued) fun s => InTime config s (.connect url cd) := by
  have hI := settled_ticking config d queued
  unfold connectDeadline
  cases he : deadline.expiresAt with
  | none =>
      -- a total that was passed on would be the request's own
      have hnone : ∀ l s, Ticking config d queued l s → ∀ t, s.expires = some t → s.queued ≠ false := by
        intro l s h t ht hpublished
        rw [h.expires, ← hd (h.queued.symm.trans hpublished), he] at ht
        cases ht
      refine Triple.pure fun l s h => ⟨h.1, h.2, fun t ht hon => ?_, fun t ht hon => ?_⟩
      · exact absurd hon.published (hnone l s h.1 t ht)
      · exact absurd hon.published (hnone l s h.1 t ht)
  | some e =>
      refine Triple.after (R := fun t₁ : Instant =>
        noting (ticking config d queued) fun s => fallback.Limited config s ∧ s.clock = t₁) ?_ fun t₁ => ?_
      · refine hI.sure_now fun s t h hle => ⟨h.mono hle, rfl⟩
      refine Triple.after (R := fun t₂ : Instant => noting (ticking config d queued) fun s =>
        fallback.Limited config s ∧ s.previous = t₁ ∧ s.clock = t₂ ∧ t₁ ≤ t₂) ?_ fun t₂ => ?_
      · refine hI.sure_now fun s t h hle => ⟨h.1.mono hle, h.2, rfl, h.2 ▸ hle⟩
      refine Triple.pure fun l s h => ?_
      obtain ⟨htick, hlimit, rfl, rfl, hle⟩ := h
      -- the remaining total is added to a later reading than the one it was computed from
      have hslack : ∀ t, s.expires = some t → s.Passed t →
          (Deadline.after s.clock (e - s.previous)).Within (t + (s.clock - s.previous)) := by
        intro t ht hpassed
        have htotal : d.expiresAt = some e := by rw [← hd (htick.queued.symm.trans hpassed.published), he]
        rw [htick.expires, htotal] at ht
        cases ht
        have hswap : ∀ c p e : Nat, p ≤ e → p ≤ c → c + (e - p) = e + (c - p) := by
          intro c p e
          omega
        have hsum : s.clock + (e - s.previous) = e + (s.clock - s.previous) := hswap _ _ _ hpassed.left hle
        exact ⟨_, Instant.checkedAdd_eq_some.mpr ⟨hsum, hpassed.fits⟩, Nat.le_refl _⟩
      refine ⟨htick, fun timeout t htimeout ht => ?_, fun t ht hon => ?_, fun t ht hpassed => ?_⟩
      · exact (hlimit timeout t htimeout ht).sooner_right _
      · -- the clock stood still
        have hzero : t + (s.clock - s.previous) = t := by
          rw [hon.still, Nat.sub_self, Nat.add_zero]
        have hpassed : s.Passed t := by
          refine ⟨hon.published, hon.still ▸ hon.left, ?_⟩
          rw [hzero]
          exact htick.bounded t (htick.expires.symm.trans ht)
        have hwithin := hslack t ht hpassed
        rw [hzero] at hwithin
        exact hwithin.sooner_left _
      · exact (hslack t ht hpassed).sooner_left _

namespace Client

variable {d deadline : RequestDeadline} {queued : Bool}

theorem keeps_reconnect (hd : queued = false → deadline = d) (url : Url) :
    Keeps (ticking config d queued) (reconnectWithDeadline url deadline) := by
  have hI := settled_ticking config d queued
  refine Triple.seq (deadline.keeps_check hI.listening) fun _ => Triple.lookClient fun l₀ => ?_
  refine Triple.given (φ := l₀.client.config = config) (fun l s h => h.1 ▸ h.2.configured) fun hconfig => ?_
  rw [hconfig]
  refine Triple.conseq (P := ticking config d queued) ?_ (fun _ _ h => h.2) fun _ _ _ h => h
  refine Triple.after (Config.sure_connectDeadline hI) fun fallback => ?_
  refine Triple.after (RequestDeadline.sure_connectDeadline hd fallback url) fun cd => ?_
  have hconnect : Sure (noting (ticking config d queued) fun s => InTime config s (.connect url cd))
      (Act.call (S := Sys) (.connect url cd) : M Error (Except Error Unit)) fun _ => ticking config d queued := by
    refine Triple.call fun l s h => ⟨h.2, fun r s' hact => ?_⟩
    rw [act_same rfl hact]
    exact h.1
  refine Triple.bind (R := fun _ => ticking config d queued) (Triple.after hconnect fun r => Keeps.ofExcept r) (fun _ => ?_)
    fun _ _ _ h => h
  refine Triple.seq (hI.modifyClient _ fun _ => rfl) fun _ => ?_
  exact Triple.seq (keeps_applyTimeouts hI) fun _ => hI.modifyClient _ fun _ => rfl

theorem keeps_reconnectSame (hd : queued = false → deadline = d) :
    Keeps (ticking config d queued) (reconnectSameHostWithDeadline deadline) :=
  Triple.seq Keeps.client fun _ => keeps_reconnect hd _

/-- One request looks at its deadline wherever it waits. -/
theorem ticking_sendOne (fuel : Nat) (params : RequestParams) : Keeps (ticking config d false) (sendOne fuel params d) := by
  have hI := settled_ticking config d false
  have hr : Keeps (ticking config d false) (reconnectSameHostWithDeadline d) := keeps_reconnectSame fun _ => rfl
  have hnever : Keeps (ticking config d false) (Interrupt.never : M Empty Bool) := Keeps.pure false
  refine Triple.seq (keeps_ensureClean hr) fun _ => ?_
  refine Triple.seq (keeps_sendHeadInterruptible hI hnever hr fuel params) fun sent => ?_
  refine Triple.seq (d.keeps_check hI.listening) fun _ => Triple.seq ?_ fun body => ?_
  · refine Triple.seq Keeps.client fun c => Triple.seq (SilenceBudget.keeps_withDeadline hI.listening _ _) fun budget => ?_
    have hread := BodyCollector.keeps_read hI (Stream.keeping_raw hI) c.config.maxResponseBody fuel budget sent.2.1
      (c.headBuf.drop sent.2.2)
    refine Triple.seq (Keeps.attempt hread) fun r => ?_
    match r with
    | .ok (data, reusable) =>
        dsimp only
        split
        · exact Triple.seq (hI.modifyClient _ fun _ => rfl) fun _ => Keeps.pure _
        · exact Triple.seq (hI.modifyClient _ fun _ => rfl) fun _ => Keeps.pure _
    | .error e => exact Triple.seq (hI.modifyClient _ fun _ => rfl) fun _ => Keeps.throw e
  · split
    · exact Triple.seq (hI.modifyClient _ fun _ => rfl) fun _ => Keeps.pure _
    · exact Keeps.pure _

theorem ticking_follow (state : RedirectState) (status : StatusCode) (location : Bytes) :
    Keeps (ticking config d false) (follow state d status location) := by
  have hmark : Keeps (ticking config d false) (M.mark (.redirect location) : M Error Unit) := by
    refine Triple.call fun l s h => ⟨trivial, fun r s' hact => ?_⟩
    rw [act_same rfl hact]
    exact h
  refine Triple.seq Keeps.client fun c => Triple.seq (Keeps.ofExcept _) fun hop => ?_
  obtain ⟨state', hop⟩ := hop
  cases hop with
  | sameOrigin => exact Triple.seq hmark fun _ => Keeps.pure _
  | reconnect target =>
      have hgo : Keeps (ticking config d false) (do
          let url ← Act.ofExcept ((Url.parse target).mapError Error.urlParse)
          M.mark (.redirect location)
          reconnectWithDeadline url d
          return state') := by
        refine Triple.seq (Keeps.ofExcept _) fun url => Triple.seq hmark fun _ => ?_
        exact Triple.seq (keeps_reconnect (fun _ => rfl) url) fun _ => Keeps.pure _
      dsimp only
      split
      · exact Triple.seq (Keeps.throw _) fun _ => hgo
      · exact hgo

/-- The hops of `execute` share one deadline. -/
theorem ticking_executeLoop (fuel hopsLeft : Nat) (state : RedirectState) :
    Keeps (ticking config d false) (executeLoop fuel d hopsLeft state) := by
  induction hopsLeft generalizing state with
  | zero =>
      rw [executeLoop_eq]
      refine Triple.seq (ticking_sendOne fuel _) fun response => ?_
      dsimp only
      split
      · exact Keeps.pure _
      · exact Keeps.throw _
  | succ hopsLeft ih =>
      rw [executeLoop_eq]
      refine Triple.seq (ticking_sendOne fuel _) fun response => ?_
      dsimp only
      split
      · exact Keeps.pure _
      · exact Triple.seq (ticking_follow state _ _) fun state' => ih state'

end Client

/-! ## Calls -/

/-- A request that has begun, and the total with which it goes on. -/
theorem triple_begun {queued : Bool} {α : Type} {x : Config → RequestDeadline → M ε α}
    (hx : ∀ d, Triple (ticking config d queued) (x config d) fun _ => resting config) :
    Triple (beginning config queued) (do
      let c ← M.client
      let d ← RequestDeadline.after c.config.requestDeadline
      x c.config d) fun _ => resting config := by
  refine Triple.lookClient fun l₀ => ?_
  refine Triple.given (φ := l₀.client.config = config) (fun l s h => h.1 ▸ h.2.1) fun hconfig => ?_
  rw [hconfig]
  refine Triple.conseq (P := beginning config queued) ?_ (fun _ _ h => h.2) fun _ _ _ h => h
  exact Triple.after (sure_after queued) hx

/-- The same for a request that only asks the configuration for its total. -/
theorem triple_begun_with {queued : Bool} {α : Type} {x : RequestDeadline → M ε α}
    (hx : ∀ d, Triple (ticking config d queued) (x d) fun _ => resting config) :
    Triple (beginning config queued) (do
      let c ← M.client
      let d ← RequestDeadline.after c.config.requestDeadline
      x d) fun _ => resting config :=
  triple_begun (x := fun _ => x) hx

theorem ticking_resting {d : RequestDeadline} {queued : Bool} {α : Type} {x : M ε α} (hx : Keeps (ticking config d queued) x) :
    Triple (ticking config d queued) x fun _ => resting config :=
  Triple.conseq hx (fun _ _ h => h) fun _ _ _ h => h.configured

theorem Client.begun_execute (fuel : Nat) (params : RequestParams) :
    Triple (beginning config false) (execute fuel params) fun _ => resting config :=
  triple_begun (x := fun config d => executeLoop fuel d config.maxRedirects (.new params))
    fun _ => ticking_resting (ticking_executeLoop fuel _ _)

theorem beginning_resting {queued : Bool} {l : Local} {s : Timing} (h : beginning config queued l s) : resting config l s := h.1

theorem Client.begun_executeStreaming (fuel : Nat) (params : RequestParams) :
    Triple (beginning config false) (executeStreaming fuel params) fun _ => resting config := by
  unfold executeStreaming
  refine triple_begun_with fun d => ticking_resting ?_
  have hI := settled_ticking config d false
  have hr : Keeps (ticking config d false) (reconnectSameHostWithDeadline d) := keeps_reconnectSame fun _ => rfl
  refine Triple.seq (keeps_ensureClean hr) fun _ => ?_
  refine Triple.seq (keeps_sendHeadInterruptible hI (Keeps.pure false) hr fuel params) fun sent => ?_
  refine Triple.seq Keeps.client fun c => Triple.seq (hI.modifyClient _ fun _ => rfl) fun _ => ?_
  exact Triple.after (StreamingBody.sure_new hI _ _ _ _ _) fun _ => Keeps.pure _

theorem StreamingBody.keeps_readAll {I : (timed config).Assertion Local} (hI : Settled I) (fuel : Nat) (sizes : List Nat)
    (b : StreamingBody) : Act.Keeps I (b.readAll fuel sizes : M ε StreamingBody) := by
  have hs : Triple I (Stream.raw.read HEAD_BUF_SIZE) (onMark I I) :=
    Triple.conseq ((Stream.keeping_raw hI).read _) (fun _ _ h => h) fun _ _ _ h => ⟨h, fun _ _ _ => h⟩
  induction sizes generalizing b with
  | nil => exact Keeps.pure b
  | cons size sizes ih =>
      unfold readAll
      refine Triple.after (sure_read hI hs fuel size b) fun o => ?_
      refine Triple.conseq (P := I) ?_ (fun _ _ h => h.1) fun _ _ _ h => h
      match o with
      | (.ok bytes, b') => exact ih b'
      | (.error e, b') => exact Keeps.pure b'

theorem Call.begun_streaming (fuel : Nat) (builder : RequestBuilder) (reads : List Nat) :
    Triple (beginning config false) (streaming fuel builder reads) fun _ => resting config := by
  refine Triple.bind (R := fun _ => resting config) ?_ (fun sent => ?_) fun _ _ _ h => h
  · refine Triple.bind (R := fun _ => beginning config false) (Keeps.ofExcept _) (fun params => ?_)
      fun _ _ _ h => beginning_resting h
    exact Client.begun_executeStreaming fuel params
  · refine Triple.seq (StreamingBody.keeps_readAll settled_resting fuel reads sent.2) fun body => ?_
    exact settled_resting.modifyClient _ fun _ => rfl

/-! ## The reader thread -/

namespace ReaderWorker

variable {d : RequestDeadline} {queued : Bool}

theorem ticking_dispatchClean (fuel : Nat) (request : AsyncRequest) :
    Triple (ticking config d true) (dispatchClean fuel request d : M ε (Option ResponseStart)) fun _ => resting config := by
  have hI := settled_ticking config d false
  have hA := aside_ticking config d false
  have hstarted : Sure (ticking config d true) (M.storeStarted request.ticket : M ε Unit) fun _ => ticking config d false := by
    refine Triple.call fun l s h => ⟨trivial, fun r s' hact => ?_⟩
    rw [hact.1]
    exact { h with queued := rfl }
  refine Triple.after hstarted fun _ => Triple.after (hA.modify fun _ => rfl) fun _ => ?_
  have hsend := Client.keeps_sendHeadInterruptible hI (aside_interruptOf hA fuel request.ticket)
    (Client.keeps_reconnectSame fun _ => rfl) fuel (paramsOf request)
  refine Triple.conseq (Triple.seq (Keeps.attempt hsend) fun sent => ?_) (fun _ _ h => h) fun _ _ _ h => h.configured
  match sent with
  | .ok (headData, framing, tailOffset) => exact Keeps.pure _
  | .error e =>
      have hend : ∀ chunk, Keeps (ticking config d false) (do
          ChunkSink.sendTerminal fuel request.ticket chunk
          return none : M ε (Option ResponseStart)) :=
        fun chunk => Triple.seq (ChunkSink.aside_sendTerminal hA fuel _ chunk).keeps fun _ => Keeps.pure _
      refine Triple.seq Keeps.get fun l => ?_
      dsimp only
      split
      · exact hend _
      · exact hend _

/-- The connection of a request that has just been taken is cleaned without its total. -/
theorem ticking_dispatch (fuel : Nat) (request : AsyncRequest) :
    Triple (ticking config d true) (dispatch fuel request d : M ε (Option ResponseStart)) fun _ => resting config := by
  have hA := aside_ticking config d true
  have hend : ∀ chunk, Triple (ticking config d true) (do
      ChunkSink.sendTerminal fuel request.ticket chunk
      return none : M ε (Option ResponseStart)) fun _ => resting config := by
    intro chunk
    refine Triple.after (ChunkSink.aside_sendTerminal hA fuel _ chunk) fun _ => ?_
    exact Triple.pure fun _ _ h => h.configured
  refine Triple.after (ControlQueue.aside_pollCancel hA fuel _ fuel false) fun stop => ?_
  split
  · exact hend _
  have hclean : Keeps (ticking config d true) Client.ensureClean := Client.keeps_ensureClean (Client.keeps_reconnectSame nofun)
  refine Triple.after (R := fun _ => ticking config d true) (Triple.attempt hclean fun _ _ _ h => h) fun clean => ?_
  cases clean with
  | error e => exact hend _
  | ok u => exact ticking_dispatchClean fuel request

/-- A request of the reader thread starts its own deadline. -/
theorem begun_serve (fuel : Nat) (request : AsyncRequest) :
    Triple (beginning config true) (serve fuel request : M ε Unit) fun _ => resting config := by
  unfold serve
  refine triple_begun_with fun d => ?_
  refine Triple.bind (R := fun _ => resting config) (ticking_dispatch fuel request) (fun r => ?_) fun _ _ _ h => h
  cases r with
  | some start => exact keeps_streamBody settled_resting aside_resting fuel request start d
  | none => exact Keeps.pure _

/-- Between its requests the reader thread has no deadline. -/
theorem resting_run (fuel turns : Nat) : Keeps (resting config) (run fuel turns : M ε Unit) := by
  have hA := (aside_resting : Aside (resting config))
  induction turns with
  | zero => exact Triple.hang
  | succ turns ih =>
      have hnext : Sure (resting config) (ControlQueue.nextRequest fuel : M ε (Option AsyncRequest)) fun r =>
          if r.isSome then beginning config true else resting config := by
        refine ControlQueue.aside_nextRequest hA (fun _ _ h => h) (fun request => ?_) fuel
        refine Triple.after (R := fun _ : Unit => resting config) (hA.call rfl) fun _ => ?_
        refine Triple.after (R := fun _ : Unit => beginning config true) (Triple.call fun l s h => ?_) fun _ => ?_
        · exact ⟨trivial, fun r s' hact => ⟨h, s, hact.1⟩⟩
        · exact Triple.pure fun _ _ h => h
      unfold run
      refine Triple.after hnext fun next => ?_
      match next with
      | none => exact Keeps.pure _
      | some request =>
          refine Triple.bind (R := fun _ => resting config) (begun_serve fuel request) (fun _ => ?_) fun _ _ _ h => h
          exact Triple.after (R := fun _ : Unit => resting config) (hA.call rfl) fun _ => ih

end ReaderWorker

/-! ## Sessions -/

theorem resting_perform (fuel : Nat) (call : Call) : Keeps (resting config) (call.perform fuel : M ε Unit) := by
  have hmark : Sure (resting config) (M.mark .call : M ε Unit) fun _ => beginning config false := by
    refine Triple.call fun l s h => ⟨trivial, fun r s' hact => ?_⟩
    exact ⟨h, s, hact.1⟩
  have hattempt : ∀ {α : Type} {x : M Error α}, Triple (beginning config false) x (fun _ => resting config) →
      Triple (beginning config false) (do let _ ← Act.attempt x : M ε Unit) fun _ => resting config := by
    intro α x hx
    refine Triple.bind (R := fun _ => resting config) (Triple.attempt hx fun _ _ _ h => h) (fun _ => ?_) fun _ _ _ h => h
    exact Keeps.pure _
  refine Triple.after hmark fun _ => ?_
  cases call with
  | send builder =>
      refine hattempt ?_
      refine Triple.bind (R := fun _ => beginning config false) (Keeps.ofExcept _) (fun params => ?_)
        fun _ _ _ h => beginning_resting h
      exact Client.begun_execute fuel params
  | request method path query body => exact hattempt (Client.begun_execute fuel _)
  | sendStreaming builder reads => exact hattempt (Call.begun_streaming fuel builder reads)
  | reader => exact Triple.conseq (ReaderWorker.resting_run fuel fuel) (fun _ _ h => beginning_resting h) fun _ _ _ h => h

theorem resting_performAll (fuel : Nat) (calls : List Call) :
    Keeps (resting config) (performAll fuel calls : M ε Unit) := by
  induction calls with
  | nil => exact Keeps.pure _
  | cons call calls ih => exact Triple.seq (resting_perform fuel call) fun _ => ih

/-- No request has begun. -/
def unbegun (config : Config) : (timed config).Assertion Local where
  holds _ s := s.begun = false ∧ s.expires = none
  stable henv h := by
    cases henv
    exact h

theorem settled_unbegun : Settled (unbegun config) := by
  refine settled_of_reading (fun _ _ _ _ h => h) fun l s t h _ => ⟨rfl, ?_⟩
  show (if s.begun = true then _ else s.expires) = none
  rw [h.1]
  exact h.2

/-- A new client has the configuration it was given. -/
theorem triple_connect (urlBytes : Bytes) (maxHeadSize : Nat) :
    Triple (unbegun config) (Client.connect urlBytes config maxHeadSize) fun r =>
      ⟨fun l s => r = .ok () → resting config l s, fun _ h => h⟩ := by
  have hI : Settled (unbegun config) := settled_unbegun
  refine Triple.bind (R := fun _ => unbegun config) (Keeps.ofExcept _) (fun _ => ?_) fun _ _ _ _ => nofun
  refine Triple.bind (R := fun _ => unbegun config) (Keeps.ofExcept _) (fun url => ?_) fun _ _ _ _ => nofun
  refine Triple.after (Config.sure_connectDeadline hI) fun deadline => ?_
  refine Triple.bind (R := fun _ => unbegun config) ?_ (fun _ => ?_) fun _ _ _ _ => nofun
  · refine Triple.after (R := fun _ : Except Error Unit => unbegun config) (Triple.call fun l s h => ?_) fun r => Keeps.ofExcept r
    have hnone : ∀ t, s.expires ≠ some t := by
      intro t ht
      rw [h.1.2] at ht
      cases ht
    refine ⟨⟨h.2, fun t ht => absurd ht (hnone t), fun t ht => absurd ht (hnone t)⟩, fun r s' hact => ?_⟩
    · rw [act_same rfl hact]
      exact h.1
  refine Triple.after (R := fun _ => resting config) (Triple.modify fun _ _ _ => rfl) fun _ => ?_
  exact Triple.conseq (Client.keeps_applyTimeouts settled_resting) (fun _ _ h => h) fun _ _ _ h _ => h

/-- **A session** connects within its deadlines. -/
theorem triple_session (fuel : Nat) (urlBytes : Bytes) (maxHeadSize : Nat) (calls : List Call) :
    Triple (unbegun config) (session fuel urlBytes config maxHeadSize calls) fun _ => ⟨fun _ _ => True, fun _ h => h⟩ := by
  refine Triple.bind (triple_connect urlBytes maxHeadSize) (fun _ => ?_) fun _ _ _ _ => trivial
  exact Triple.conseq (resting_performAll fuel calls) (fun _ _ h => h rfl) fun _ _ _ _ => trivial

/-- **Deadlines of connects.** In every run of a session, every connect is within the connect timeout, and within the
    total of the request it is made for, if that has been published as started and the clock, still before the total,
    stood still when the deadline was computed. A clock that moved then makes it later by as much. -/
theorem connects_in_time {fuel : Nat} {urlBytes : Bytes} {maxHeadSize : Nat} {calls : List Call} {l : Local} {t₀ : Instant}
    {url : Url} {d : Deadline} {k : Op.Ret (.connect url d) → Prog Sys (Except Error Unit × Local)} {s : Timing}
    (hrun : Prog.Reach (timed config) (session fuel urlBytes config maxHeadSize calls l) (.start t₀)
      (.call (.connect url d) k) s) :
    d.Limited config s ∧ (∀ t, s.expires = some t → s.OnTime t → d.Within t) ∧
      ∀ t, s.expires = some t → s.Passed t → d.Within (t + (s.clock - s.previous)) :=
  Prog.wp_sound (triple_session fuel urlBytes maxHeadSize calls l (.start t₀) ⟨rfl, rfl⟩) hrun

/-! ### Runs -/

/-- Every request has a second. -/
def hurried : Config := { Config.default with requestDeadline := some (Config.seconds 1) }

/-- The peer closes the connection after its response. -/
def closingResponse : Bytes := ascii "HTTP/1.1 200 OK\x0d\nConnection: close\x0d\nContent-Length: 0\x0d\n\x0d\n"

/-- The requests that the control ring holds, and the reads of the streams. -/
def queuedReads : List Control × List (Except StdIoError Bytes) → Timing → (op : Op) →
    op.Ret × List Control × List (Except StdIoError Bytes)
  | (msg :: ring, reads), _, .popBlock => (some msg, ring, reads)
  | (ring, reads), _, op => ((scripted reads op).1, ring, (scripted reads op).2)

/-- One event of the record, if the clock does not go back. -/
def Timing.step (config : Config) (s : Timing) (op : Op) (r : op.Ret) : Option Timing :=
  if s.clock ≤ (s.next config op r).clock then some (s.next config op r) else none

/-- Run a session on `http://a` for `n` operations. -/
def hurry (calls : List Call) (ring : List Control) (reads : List (Except StdIoError Bytes)) (n : Nat) :
    Option (Prog Sys (Except Error Unit × Local) × Timing) :=
  Prog.drive (A := Empty) queuedReads (Timing.step hurried) (fun _ a => nomatch a) (List.replicate n none) (ring, reads)
    (session 8 (ascii "http://a/") hurried 65536 calls idle) (.start 0)

theorem hurry_reach {calls : List Call} {ring : List Control} {reads : List (Except StdIoError Bytes)} {n : Nat}
    {p : Prog Sys (Except Error Unit × Local)} {s : Timing} (h : hurry calls ring reads n = some (p, s)) :
    Prog.Reach (timed hurried) (session 8 (ascii "http://a/") hurried 65536 calls idle) (.start 0) p s := by
  refine Prog.reach_drive (fun s op r s' hact => ?_) (fun _ a => nomatch a) h (.refl _ _)
  unfold Timing.step at hact
  split at hact
  next hle =>
    cases hact
    exact ⟨rfl, hle⟩
  next => cases hact

/-- The connect that a run is about to make. -/
theorem hurry_connect {calls : List Call} {ring : List Control} {reads : List (Except StdIoError Bytes)} {n : Nat}
    {url : Url} {d : Deadline} {s : Timing}
    (h : (hurry calls ring reads n).map (fun c => (c.1.next?, c.2)) = some (some (.connect url d), s)) :
    ∃ k, Prog.Reach (timed hurried) (session 8 (ascii "http://a/") hurried 65536 calls idle) (.start 0)
      (.call (.connect url d) k) s := by
  obtain ⟨⟨p, s'⟩, hrun, heq⟩ := Option.map_eq_some_iff.mp h
  obtain ⟨hnext, rfl⟩ := Prod.mk.inj heq
  obtain ⟨k, rfl⟩ := Prog.next?_eq_some hnext
  exact ⟨k, hurry_reach hrun⟩

/-- `http://a`, as a client reconnects to it. -/
def homeUrl : Url := (Origin.fromUrl ⟨.http, ascii "a", none, ascii "/", none, none⟩).rootUrl

/-- The second of two calls reconnects, within its total. -/
theorem connects_in_time_second_call : ∃ url d k s,
    Prog.Reach (timed hurried) (session 8 (ascii "http://a/") hurried 65536
      [.request .get (ascii "/") none none, .request .get (ascii "/") none none] idle) (.start 0)
      (.call (.connect url d) k) s ∧ s.expires = some (Config.seconds 1) ∧ d.Within (Config.seconds 1) := by
  have hrun : (hurry [.request .get (ascii "/") none none, .request .get (ascii "/") none none] [] [.ok closingResponse] 27).map
      (fun c => (c.1.next?, c.2)) =
      some (some (.connect homeUrl ⟨some (Config.seconds 1)⟩), ⟨0, 0, false, some (Config.seconds 1), false⟩) := by
    decide +kernel
  obtain ⟨k, hreach⟩ := hurry_connect hrun
  exact ⟨homeUrl, _, k, _, hreach, rfl, (connects_in_time hreach).2.1 _ rfl ⟨rfl, rfl, Nat.zero_le _⟩⟩

/-- The reader thread reconnects for the second of two requests, and passes on the connect timeout of 30 seconds where
    a second is left. -/
theorem connect_outlasts_request : ∃ url d k s t,
    Prog.Reach (timed hurried) (session 8 (ascii "http://a/") hurried 65536 [.reader] idle) (.start 0)
      (.call (.connect url d) k) s ∧ s.expires = some t ∧ ¬ d.Within t := by
  have hrun : (hurry [.reader] [.request ⟨.get, ascii "/", none, none, [], 0⟩, .request ⟨.get, ascii "/", none, none, [], 1⟩]
      [.ok closingResponse] 50).map (fun c => (c.1.next?, c.2)) =
      some (some (.connect homeUrl ⟨some (Config.seconds 30)⟩), ⟨0, 0, false, some (Config.seconds 1), true⟩) := by
    decide +kernel
  obtain ⟨k, hreach⟩ := hurry_connect hrun
  refine ⟨homeUrl, _, k, _, _, hreach, rfl, ?_⟩
  rintro ⟨e, he, hle⟩
  cases he
  revert hle
  decide

end Xibalba
