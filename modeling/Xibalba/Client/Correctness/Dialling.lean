import Xibalba.Lib.Wp
import Xibalba.Client.Dial

/-!
# `Client.Correctness.Dialling` — a dialler keeps the `Connector` contract

A connector must return by its deadline, with a stream or with an error. `TcpDialer` does, but for a lookup that takes
longer than that: every attempt is cut to what the deadline leaves, so all of them together end by it. The addresses are
tried in the resolver's order, each once and none after one that accepted, and what is returned says which of the ways to
end it was.

Layout:
* `Dialling`, the record of a run; `unruly`, the world in which everything answers as it likes, and `networked`, the one in
  which a connect keeps its timeout;
* the deadline's questions;
* `Concluded`, the ways to end; the loop, the dialler and the connector;
* what holds at every moment, and the contract.
-/

namespace Xibalba

open Act (Keeps Sure Triple)

/-! ## The record -/

/-- A connect that was tried: when, as far as the dialler knew, and how long it was allowed to take. -/
structure Attempt (Addr : Type) where
  address : Addr
  started : Instant
  allowed : Duration
  answer : Except StdIoError Unit

def Attempt.Refused {Addr : Type} (a : Attempt Addr) : Prop := ∃ e, a.answer = .error e

/-- How far a run has come: the time, as the clock said it last or an operation ended; when the addresses were known, what
    the resolver said, and what was tried. -/
structure Dialling (Addr : Type) where
  clock : Instant
  looked : Instant
  lookup : Option (Except String (List Addr))
  attempts : List (Attempt Addr)
  nodelay : Option (Except StdIoError Unit)

namespace Dialling

variable {Addr : Type}

/-- Nothing was asked of the network yet. -/
def start (t : Instant) (lookup : Option (Except String (List Addr))) : Dialling Addr := ⟨t, t, lookup, [], none⟩

/-- An operation that ends at `t`, and its answer. -/
def step (s : Dialling Addr) (t : Instant) : (op : Dial.Op Addr) → op.Ret → Dialling Addr
  | .now, now => { s with clock := now }
  | .resolve _ _, r => { s with clock := t, looked := t, lookup := some r }
  | .connectTimeout address allowed, r => { s with clock := t, attempts := s.attempts ++ [⟨address, s.clock, allowed, r⟩] }
  | .setNodelay _, r => { s with nodelay := some r }

/-- When an operation may end: a connect within its timeout, a lookup at any time. The rest takes no time. -/
def Takes (s : Dialling Addr) (t : Instant) : (op : Dial.Op Addr) → op.Ret → Prop
  | .now, now => now = s.clock
  | .resolve _ _, _ => s.clock ≤ t
  | .connectTimeout _ allowed, _ => s.clock ≤ t ∧ t ≤ s.clock + allowed
  | .setNodelay _, _ => True

end Dialling

/-- The deadline has not passed at `t`. -/
def Deadline.Open (d : Deadline) (t : Instant) : Prop := ∀ e, d.expiresAt = some e → t < e

/-- An attempt has the next address, while all before it were refused, and a timeout that ends by the deadline. -/
structure TcpDialer.Allows {Addr : Type} (dialer : TcpDialer) (deadline : Deadline) (s : Dialling Addr) (address : Addr)
    (allowed : Duration) : Prop where
  next : ∃ later, s.lookup = some (.ok (s.attempts.map Attempt.address ++ address :: later))
  refused : ∀ a ∈ s.attempts, a.Refused
  short : allowed ≤ dialer.connectTimeout
  /-- `connect_timeout` takes a zero timeout for a mistake -/
  pos : 0 < dialer.connectTimeout → 0 < allowed
  inTime : ∀ e, deadline.expiresAt = some e → s.clock + allowed ≤ e

/-- What a dialler may do: look up the URL's host and port once, try the addresses in turn, and set `TCP_NODELAY` on a
    stream that was accepted. -/
def TcpDialer.Permits {Addr : Type} (dialer : TcpDialer) (deadline : Deadline) (url : Url) (s : Dialling Addr) :
    Dial.Op Addr → Prop
  | .now => True
  | .resolve host port => TcpDialer.hostText url = some host ∧ port = url.effectivePort ∧ s.lookup = none ∧
      deadline.Open s.clock
  | .connectTimeout address allowed => dialer.Allows deadline s address allowed
  | .setNodelay on => on = true ∧ ∃ tried a started allowed, s.attempts = tried ++ [⟨a, started, allowed, .ok ()⟩]

/-- When an operation may end, and with what answer. -/
abbrev Allotment (Addr : Type) := Dialling Addr → Instant → (op : Dial.Op Addr) → op.Ret → Prop

/-- The world in which operations end as `takes` says. -/
def dialling {Addr : Type} (takes : Allotment Addr) (dialer : TcpDialer) (deadline : Deadline) (url : Url) :
    World (Net Addr) (Dialling Addr) where
  env := Eq
  guard := dialer.Permits deadline url
  act s op r s' := ∃ t, takes s t op r ∧ s' = s.step t op r
  env_refl _ := rfl
  env_trans h₁ h₂ := h₁.trans h₂

/-- The world in which everything answers as it likes, the clock as well. -/
abbrev unruly {Addr : Type} (dialer : TcpDialer) (deadline : Deadline) (url : Url) : World (Net Addr) (Dialling Addr) :=
  dialling (fun _ _ _ _ => True) dialer deadline url

/-- The world in which a connect keeps its timeout. -/
abbrev networked {Addr : Type} (dialer : TcpDialer) (deadline : Deadline) (url : Url) : World (Net Addr) (Dialling Addr) :=
  dialling Dialling.Takes dialer deadline url

variable {Addr ε : Type} {takes : Allotment Addr} {dialer : TcpDialer} {deadline : Deadline} {url : Url}

/-- A state of the run. -/
def jotted (P : Dialling Addr → Prop) : (dialling takes dialer deadline url).Assertion Unit where
  holds _ s := P s
  stable henv h := by
    cases henv
    exact h

/-! ## The deadline's questions -/

namespace Deadline

variable {P : Dialling Addr → Prop} (hP : ∀ s t, P s → P { s with clock := t })

include hP

theorem sure_timeLeft :
    Sure (W := dialling takes dialer deadline url) (jotted P) (deadline.timeLeft : DialM Addr ε TimeLeft)
      fun left => jotted fun s => P s ∧ match left with
        | .unbounded => deadline.expiresAt = none
        | .remaining d => 0 < d ∧ ∀ e, deadline.expiresAt = some e → s.clock + d = e
        | .expired => ∃ e, deadline.expiresAt = some e ∧ e ≤ s.clock := by
  unfold timeLeft
  cases hd : deadline.expiresAt with
  | none => exact Triple.pure fun l s h => ⟨h, rfl⟩
  | some e =>
      refine Triple.after (R := fun t : Instant => jotted fun s : Dialling Addr => P s ∧ t = s.clock) ?_ fun t => ?_
      · refine Triple.call fun l s h => ⟨trivial, ?_⟩
        rintro t _ ⟨_, -, rfl⟩
        exact ⟨hP s t h, rfl⟩
      · refine Triple.pure fun l s h => ?_
        obtain ⟨h, rfl⟩ := h
        refine ⟨h, ?_⟩
        unfold leftAt
        by_cases hlt : s.clock < e
        · rw [if_pos hlt]
          refine ⟨Nat.sub_pos_of_lt hlt, fun e' he => ?_⟩
          cases he
          exact Nat.add_sub_cancel' (Nat.le_of_lt hlt)
        · rw [if_neg hlt]
          exact ⟨e, rfl, Nat.not_lt.mp hlt⟩

/-- What a check lets through is on time, and what it stops is late. -/
theorem triple_check :
    Triple (W := dialling takes dialer deadline url) (jotted P) (deadline.check : DialM Addr Error Unit)
      fun r => jotted fun s => P s ∧ match r with
        | .ok () => deadline.Open s.clock
        | .error e => e = .connection .connectDeadlineExceeded ∧ ∃ t, deadline.expiresAt = some t ∧ t ≤ s.clock := by
  refine Triple.after (R := fun late : Bool => jotted fun s : Dialling Addr => P s ∧
    if late then ∃ t, deadline.expiresAt = some t ∧ t ≤ s.clock else deadline.Open s.clock) ?_ fun late => ?_
  · refine Triple.after (sure_timeLeft hP) fun left => Triple.pure fun l s h => ⟨h.1, ?_⟩
    obtain ⟨-, h⟩ := h
    cases left with
    | unbounded =>
        intro e he
        rw [show deadline.expiresAt = none from h] at he
        cases he
    | remaining d =>
        intro e he
        rw [← h.2 e he]
        exact Nat.lt_add_of_pos_right h.1
    | expired => exact h
  · cases late with
    | true => exact Triple.throw fun l s h => ⟨h.1, rfl, h.2⟩
    | false => exact Triple.pure fun l s h => h

/-- A step that a clamp lets through ends by the deadline. -/
theorem triple_clamp (step : Duration) :
    Triple (W := dialling takes dialer deadline url) (jotted P) (deadline.clamp step : DialM Addr Error Duration)
      fun r => jotted fun s => P s ∧ match r with
        | .ok allowed => allowed ≤ step ∧ (0 < step → 0 < allowed) ∧ ∀ e, deadline.expiresAt = some e → s.clock + allowed ≤ e
        | .error e => e = .connection .connectDeadlineExceeded ∧ ∃ t, deadline.expiresAt = some t ∧ t ≤ s.clock := by
  refine Triple.after (sure_timeLeft hP) fun left => ?_
  cases left with
  | unbounded =>
      refine Triple.pure fun l s h => ⟨h.1, Nat.le_refl _, id, fun e he => ?_⟩
      rw [show deadline.expiresAt = none from h.2] at he
      cases he
  | remaining d =>
      refine Triple.pure fun l s h => ⟨h.1, Nat.min_le_left _ _, fun hpos => ?_, fun e he => ?_⟩
      · exact lt_min hpos h.2.1
      · rw [← h.2.2 e he]
        exact Nat.add_le_add_left (Nat.min_le_right step d) _
  | expired => exact Triple.throw fun l s h => ⟨h.1, rfl, h.2⟩

end Deadline

/-! ## The ways to end -/

namespace Dialling

/-- The addresses in front of `later` were tried in turn, and every one refused. -/
structure Trying (s : Dialling Addr) (later : List Addr) : Prop where
  lookup : s.lookup = some (.ok (s.attempts.map Attempt.address ++ later))
  refused : ∀ a ∈ s.attempts, a.Refused

/-- The last attempt was an attempt at `address`, and all before it were refused. -/
def Reached (s : Dialling Addr) (address : Addr) (answer : Except StdIoError Unit) : Prop :=
  ∃ tried started allowed, s.attempts = tried ++ [⟨address, started, allowed, answer⟩] ∧ ∀ a ∈ tried, a.Refused

/-- Nothing was asked of the network. -/
def Untouched (s : Dialling Addr) : Prop := s.lookup = none ∧ s.attempts = []

end Dialling

/-- What a result says of the run. -/
inductive Concluded (deadline : Deadline) (url : Url) (s : Dialling Addr) : Except Error (TcpStream Addr) → Prop where
  | connected (address : Addr) : s.Reached address (.ok ()) → s.nodelay = some (.ok ()) → Concluded deadline url s (.ok ⟨address⟩)
  | delayed (address : Addr) (e : StdIoError) : s.Reached address (.ok ()) → s.nodelay = some (.error e) →
      Concluded deadline url s (.error (.ofStdIo e))
  | refused (address : Addr) (e : StdIoError) : s.Reached address (.error e) → s.Trying [] →
      Concluded deadline url s (.error (.ofStdIo e))
  | noAddresses : s.lookup = some (.ok []) → s.attempts = [] →
      Concluded deadline url s (.error (.connection (.other "host resolved to no addresses")))
  /-- the deadline passed before the lookup, behind it, or before the next attempt -/
  | late (t : Instant) : deadline.expiresAt = some t → t ≤ s.clock →
      s.Untouched ∨ (∃ addresses, s.lookup = some (.ok addresses) ∧ s.attempts = []) ∨
        (∃ address later, s.Trying (address :: later)) →
      Concluded deadline url s (.error (.connection .connectDeadlineExceeded))
  | unresolved (message : String) : s.lookup = some (.error message) → s.attempts = [] →
      Concluded deadline url s (.error (.connection (.other ("DNS failed: " ++ message))))
  | unreadable : TcpDialer.hostText url = none → s.Untouched →
      Concluded deadline url s (.error (.connection (.other "invalid UTF-8 in host")))
  | refusedPlaintext : url.scheme = .https → s.Untouched →
      Concluded deadline url s (.error (.connection .plaintextConnectorForHttps))

namespace TcpDialer

/-- The failure that the loop remembers is that of the last attempt. -/
def Remembers (s : Dialling Addr) : Option StdIoError → Prop
  | none => s.attempts = []
  | some e => ∃ address, s.Reached address (.error e)

theorem triple_exhausted (last : Option StdIoError) :
    Triple (W := dialling takes dialer deadline url) (jotted fun s => s.Trying [] ∧ Remembers s last)
      (exhausted last) fun r => jotted fun s => Concluded deadline url s r := by
  cases last with
  | none =>
      refine Triple.throw fun l s h => .noAddresses ?_ h.2
      rw [h.1.lookup, show s.attempts = [] from h.2]
      rfl
  | some e =>
      refine Triple.throw fun l s h => ?_
      obtain ⟨address, hreached⟩ := h.2
      exact .refused address e hreached h.1

/-- `TCP_NODELAY` on a stream that was accepted. -/
theorem triple_setNodelay (address : Addr) :
    Triple (W := dialling takes dialer deadline url) (jotted fun s => s.Reached address (.ok ()))
      (do
        Act.mapError Error.ofStdIo (do Act.ofExcept (← Act.call (S := Net Addr) (.setNodelay true)))
        return ⟨address⟩ : DialM Addr Error (TcpStream Addr))
      fun r => jotted fun s => Concluded deadline url s r := by
  have hset : Sure (W := dialling takes dialer deadline url) (jotted fun s => s.Reached address (.ok ()))
      (Act.call (S := Net Addr) (.setNodelay true) : DialM Addr StdIoError (Except StdIoError Unit))
      fun r => jotted fun s => s.Reached address (.ok ()) ∧ s.nodelay = some r := by
    refine Triple.call fun l s h => ⟨⟨rfl, ?_⟩, ?_⟩
    · obtain ⟨tried, started, allowed, hattempts, -⟩ := h
      exact ⟨tried, address, started, allowed, hattempts⟩
    · rintro r _ ⟨t, -, rfl⟩
      exact ⟨h, rfl⟩
  have hmapped : Triple (W := dialling takes dialer deadline url) (jotted fun s => s.Reached address (.ok ()))
      (Act.mapError Error.ofStdIo (do Act.ofExcept (← Act.call (S := Net Addr) (.setNodelay true))) : DialM Addr Error Unit)
      fun r => jotted fun s => s.Reached address (.ok ()) ∧
        ∃ r', s.nodelay = some r' ∧ r = r'.mapError Error.ofStdIo := by
    refine Triple.mapError (Q := fun r => jotted fun s => s.Reached address (.ok ()) ∧ s.nodelay = some r) ?_ fun r l s h => ?_
    · exact Triple.after hset fun r => Triple.ofExcept fun _ _ h => h
    · exact ⟨h.1, r, h.2, rfl⟩
  refine Triple.bind hmapped (fun _ => Triple.pure fun l s h => ?_) fun e l s h => ?_
  · obtain ⟨hreached, r, hr, heq⟩ := h
    cases r with
    | ok u => exact .connected address hreached hr
    | error e => cases heq
  · obtain ⟨hreached, r, hr, heq⟩ := h
    cases r with
    | ok u => cases heq
    | error e' =>
        cases heq
        exact .delayed address e' hreached hr

/-- The loop: what it leaves of the addresses is what it still has to try. -/
theorem triple_dialFrom (addresses : List Addr) (last : Option StdIoError) :
    Triple (W := dialling takes dialer deadline url) (jotted fun s => s.Trying addresses ∧ Remembers s last)
      (dialer.dialFrom deadline addresses last) fun r => jotted fun s => Concluded deadline url s r := by
  induction addresses generalizing last with
  | nil => exact triple_exhausted last
  | cons address addresses ih =>
      unfold dialFrom
      have hclock : ∀ (s : Dialling Addr) t, s.Trying (address :: addresses) ∧ Remembers s last →
          Dialling.Trying { s with clock := t } (address :: addresses) ∧ Remembers { s with clock := t } last := by
        rintro s t ⟨htrying, hlast⟩
        refine ⟨⟨htrying.lookup, htrying.refused⟩, ?_⟩
        cases last with
        | none => exact hlast
        | some e => exact hlast
      refine Triple.bind (Deadline.triple_clamp hclock dialer.connectTimeout) (fun allowed => ?_) fun e l s h => ?_
      · refine Triple.after (R := fun r : Except StdIoError Unit => jotted fun s : Dialling Addr =>
          s.Reached address r ∧ ∀ e, r = .error e → s.Trying addresses) ?_ fun r => ?_
        · refine Triple.call fun l s h => ?_
          obtain ⟨⟨htrying, -⟩, hshort, hpos, htime⟩ := h
          refine ⟨⟨⟨addresses, htrying.lookup⟩, htrying.refused, hshort, hpos, htime⟩, ?_⟩
          rintro r _ ⟨t, -, rfl⟩
          refine ⟨⟨s.attempts, s.clock, allowed, rfl, htrying.refused⟩, ?_⟩
          rintro e rfl
          constructor
          · show s.lookup = some (.ok ((s.attempts ++ [Attempt.mk address s.clock allowed (.error e)]).map Attempt.address ++ addresses))
            rw [htrying.lookup, List.map_append, List.append_assoc]
            rfl
          · intro a ha
            rcases List.mem_append.mp ha with ha | ha
            · exact htrying.refused a ha
            · rw [List.mem_singleton.mp ha]
              exact ⟨e, rfl⟩
        · cases r with
          | ok u => exact Triple.conseq (triple_setNodelay address) (fun _ _ h => h.1) fun _ _ _ h => h
          | error e =>
              refine Triple.conseq (ih (some e)) (fun _ _ h => ?_) fun _ _ _ h => h
              exact ⟨h.2 e rfl, address, h.1⟩
      · obtain ⟨⟨htrying, -⟩, rfl, t, ht, hle⟩ := h
        exact .late t ht hle (.inr (.inr ⟨address, addresses, htrying⟩))

theorem triple_dialAddresses (addresses : List Addr) :
    Triple (W := dialling takes dialer deadline url)
      (jotted fun s => s.lookup = some (.ok addresses) ∧ s.attempts = [])
      (dialer.dialAddresses addresses deadline) fun r => jotted fun s => Concluded deadline url s r := by
  refine Triple.conseq (triple_dialFrom addresses none) (fun l s h => ⟨⟨?_, ?_⟩, h.2⟩) fun _ _ _ h => h
  · rw [h.1, h.2]
    rfl
  · intro a ha
    rw [h.2] at ha
    cases ha

/-- **One dial.** -/
theorem triple_dial :
    Triple (W := dialling takes dialer deadline url) (jotted Dialling.Untouched) (dialer.dial url deadline)
      fun r => jotted fun s => Concluded deadline url s r := by
  unfold dial
  cases hhost : hostText url with
  | none => exact Triple.throw fun l s h => .unreadable hhost h
  | some host =>
      refine Triple.bind (Deadline.triple_check fun _ _ h => h) (fun _ => ?_) fun e l s h => ?_
      · refine Triple.after (R := fun r : Except String (List Addr) => jotted fun s : Dialling Addr =>
          s.lookup = some r ∧ s.attempts = []) ?_ fun r => ?_
        · refine Triple.call fun l s h => ⟨⟨hhost, rfl, h.1.1, h.2⟩, ?_⟩
          rintro r _ ⟨t, -, rfl⟩
          exact ⟨rfl, h.1.2⟩
        · cases r with
          | error e => exact Triple.throw fun l s h => .unresolved e h.1 h.2
          | ok addresses =>
              refine Triple.bind (Deadline.triple_check fun _ _ h => h) (fun _ => ?_) fun e l s h => ?_
              · exact Triple.conseq (triple_dialAddresses addresses) (fun _ _ h => h.1) fun _ _ _ h => h
              · obtain ⟨hlooked, rfl, t, ht, hle⟩ := h
                exact .late t ht hle (.inr (.inl ⟨addresses, hlooked⟩))
      · obtain ⟨huntouched, rfl, t, ht, hle⟩ := h
        exact .late t ht hle (.inl huntouched)

theorem triple_dialPlaintext :
    Triple (W := dialling takes dialer deadline url) (jotted Dialling.Untouched) (dialer.dialPlaintext url deadline)
      fun r => jotted fun s => Concluded deadline url s r := by
  unfold dialPlaintext
  split
  next hscheme => exact Triple.throw fun l s h => .refusedPlaintext hscheme h
  next => exact triple_dial

end TcpDialer

/-! ## Every moment -/

namespace Dialling

/-- The attempts are a beginning of the resolver's list, each refused but perhaps the last, and each with a timeout of its
    own that ends by the deadline. -/
structure InTurn (dialer : TcpDialer) (deadline : Deadline) (s : Dialling Addr) : Prop where
  order : s.attempts ≠ [] → ∃ later, s.lookup = some (.ok (s.attempts.map Attempt.address ++ later))
  refused : ∀ a ∈ s.attempts.dropLast, a.Refused
  timeouts : ∀ a ∈ s.attempts, a.allowed ≤ dialer.connectTimeout ∧ (0 < dialer.connectTimeout → 0 < a.allowed)
  inTime : ∀ a ∈ s.attempts, ∀ e, deadline.expiresAt = some e → a.started + a.allowed ≤ e

/-- All attempts together take no longer than their timeouts, and end by the deadline, unless it passed before the
    first of them. -/
structure OnTime (dialer : TcpDialer) (deadline : Deadline) (s : Dialling Addr) : Prop where
  bounded : s.clock ≤ s.looked + s.attempts.length * dialer.connectTimeout
  inTime : ∀ e, deadline.expiresAt = some e → s.clock ≤ max s.looked e

theorem inTurn_start (t : Instant) (lookup : Option (Except String (List Addr))) : (start t lookup).InTurn dialer deadline :=
  ⟨fun h => absurd rfl h, (fun _ h => by cases h), (fun _ h => by cases h), fun _ h => by cases h⟩

theorem InTurn.step {s : Dialling Addr} (h : s.InTurn dialer deadline) {op : Dial.Op Addr}
    (hop : dialer.Permits deadline url s op) (t : Instant) (r : op.Ret) : (s.step t op r).InTurn dialer deadline := by
  cases op with
  | now => exact ⟨h.order, h.refused, h.timeouts, h.inTime⟩
  | setNodelay on => exact ⟨h.order, h.refused, h.timeouts, h.inTime⟩
  | resolve host port =>
      have hnone : s.attempts = [] := by
        by_contra hne
        obtain ⟨later, hlater⟩ := h.order hne
        rw [hop.2.2.1] at hlater
        cases hlater
      exact ⟨fun hne => absurd hnone hne, h.refused, h.timeouts, h.inTime⟩
  | connectTimeout address allowed =>
      obtain ⟨later, hlater⟩ := hop.next
      refine ⟨fun _ => ⟨later, ?_⟩, ?_, ?_, ?_⟩
      · show s.lookup = some (.ok ((s.attempts ++ [Attempt.mk address s.clock allowed r]).map Attempt.address ++ later))
        rw [hlater, List.map_append, List.append_assoc]
        rfl
      · show ∀ a ∈ (s.attempts ++ [Attempt.mk address s.clock allowed r]).dropLast, a.Refused
        rw [List.dropLast_concat]
        exact hop.refused
      · intro a ha
        rcases List.mem_append.mp ha with ha | ha
        · exact h.timeouts a ha
        · rw [List.mem_singleton.mp ha]
          exact ⟨hop.short, hop.pos⟩
      · intro a ha
        rcases List.mem_append.mp ha with ha | ha
        · exact h.inTime a ha
        · rw [List.mem_singleton.mp ha]
          exact hop.inTime

theorem onTime_start (t : Instant) (lookup : Option (Except String (List Addr))) : (start t lookup).OnTime dialer deadline :=
  ⟨Nat.le_add_right _ _, fun e _ => Nat.le_max_left t e⟩

theorem OnTime.step {s : Dialling Addr} (h : s.OnTime dialer deadline) {op : Dial.Op Addr}
    (hop : dialer.Permits deadline url s op) {t : Instant} {r : op.Ret} (ht : s.Takes t op r) :
    (s.step t op r).OnTime dialer deadline := by
  cases op with
  | now =>
      obtain rfl : r = s.clock := ht
      exact h
  | setNodelay on => exact ⟨h.bounded, h.inTime⟩
  | resolve host port => exact ⟨Nat.le_add_right _ _, fun e _ => Nat.le_max_left _ _⟩
  | connectTimeout address allowed =>
      refine ⟨?_, fun e he => Nat.le_trans (Nat.le_trans ht.2 (hop.inTime e he)) (Nat.le_max_right _ _)⟩
      have hstep : t ≤ s.clock + dialer.connectTimeout := Nat.le_trans ht.2 (Nat.add_le_add_left hop.short _)
      show t ≤ s.looked + (s.attempts ++ [Attempt.mk address s.clock allowed r]).length * dialer.connectTimeout
      rw [List.length_append, List.length_singleton, Nat.succ_mul, ← Nat.add_assoc]
      exact Nat.le_trans hstep (Nat.add_le_add_right h.bounded _)

end Dialling

/-! ## Runs -/

section

variable {t₀ : Instant} {lookup : Option (Except String (List Addr))} {x : DialM Addr Error (TcpStream Addr)}
  {p : Prog (Net Addr) (Except Error (TcpStream Addr) × Unit)} {s : Dialling Addr}

/-- What holds of a run of a dialler's program, at every moment and at its end. -/
theorem run_of_triple
    (hx : Triple (W := dialling takes dialer deadline url) (jotted fun s => s = .start t₀ lookup) x
      fun r => jotted fun s => Concluded deadline url s r)
    (hrun : Prog.Reach (dialling takes dialer deadline url) (x ()) (.start t₀ lookup) p s) :
    s.InTurn dialer deadline ∧ ∀ r, p = .pure (r, ()) → Concluded deadline url s r := by
  have hwp := hx () (.start t₀ lookup) rfl
  constructor
  · refine Prog.reach_invariant hwp hrun (Dialling.inTurn_start t₀ lookup) ?_ ?_
    · rintro s _ rfl h
      exact h
    · rintro s _ op r hop ⟨t, -, rfl⟩ h
      exact h.step hop t r
  · rintro r rfl
    exact Prog.wp_result hwp hrun

theorem start_dialPlaintext :
    Triple (W := dialling takes dialer deadline url) (jotted fun s => s = .start t₀ none) (dialer.dialPlaintext url deadline)
      fun r => jotted fun s => Concluded deadline url s r := by
  refine Triple.conseq TcpDialer.triple_dialPlaintext ?_ fun _ _ _ h => h
  rintro _ _ rfl
  exact ⟨rfl, rfl⟩

theorem start_dialAddresses (addresses : List Addr) :
    Triple (W := dialling takes dialer deadline url) (jotted fun s => s = .start t₀ (some (.ok addresses)))
      (dialer.dialAddresses addresses deadline) fun r => jotted fun s => Concluded deadline url s r := by
  refine Triple.conseq (TcpDialer.triple_dialAddresses addresses) ?_ fun _ _ _ h => h
  rintro _ _ rfl
  exact ⟨rfl, rfl⟩

/-- **Addresses in turn.** In every run of a dialler, whatever the resolver, the sockets and the clock answer, the attempts
    are a beginning of the resolver's list, in its order, none after one that accepted, each with a timeout of its own that
    ends by the deadline; and the result says how it ended: with the first address that accepted, with the failure of the
    last one when all of them refused, or with the reason for which no further one was tried. -/
theorem dials_in_turn :
    (∀ p s, Prog.Reach (unruly dialer deadline url) (dialer.dialPlaintext url deadline ()) (.start t₀ none) p s →
      s.InTurn dialer deadline ∧ ∀ r : Except Error (TcpStream Addr), p = .pure (r, ()) → Concluded deadline url s r) ∧
    ∀ addresses p s,
      Prog.Reach (unruly dialer deadline url) (dialer.dialAddresses addresses deadline ()) (.start t₀ (some (.ok addresses))) p s →
      s.InTurn dialer deadline ∧ ∀ r : Except Error (TcpStream Addr), p = .pure (r, ()) → Concluded deadline url s r := by
  constructor
  · intro p s hrun
    exact run_of_triple start_dialPlaintext hrun
  · intro addresses p s hrun
    exact run_of_triple (start_dialAddresses addresses) hrun

/-- No attempt was accepted in a run that ended late. -/
theorem Concluded.of_late {r : Except Error (TcpStream Addr)} (h : Concluded deadline url s r)
    (hr : r = .error (.connection .connectDeadlineExceeded)) :
    (∃ e, deadline.expiresAt = some e ∧ e ≤ s.clock) ∧ ∀ a ∈ s.attempts, a.Refused := by
  cases h with
  | late t ht hle hleft =>
      refine ⟨⟨t, ht, hle⟩, ?_⟩
      rcases hleft with ⟨-, hnone⟩ | ⟨addresses, -, hnone⟩ | ⟨address, later, htrying⟩
      · simp [hnone]
      · simp [hnone]
      · exact htrying.refused
  | _ => cases hr

/-- **The contract of a connector.** `PlainConnector` returns by the deadline, but for what the lookup takes; each address
    adds no more than the connect timeout. When it reports the deadline, the deadline has passed and no address had
    accepted. Nothing is asked of the network for an HTTPS URL. -/
theorem plain_connector_contract
    (hrun : Prog.Reach (networked .default deadline url) (PlainConnector.connect url deadline ()) (.start t₀ none) p s) :
    (∀ e, deadline.expiresAt = some e → s.clock ≤ max s.looked e) ∧
    s.clock ≤ s.looked + s.attempts.length * TcpDialer.DEFAULT_CONNECT_TIMEOUT ∧
    (p = .pure (.error (.connection .connectDeadlineExceeded), ()) →
      (∃ e, deadline.expiresAt = some e ∧ e ≤ s.clock) ∧ ∀ a ∈ s.attempts, a.Refused) ∧
    (url.scheme = .https → s = .start t₀ none ∧ p = .pure (.error (.connection .plaintextConnectorForHttps), ())) := by
  have hend := (run_of_triple start_dialPlaintext hrun).2
  have htime : s.OnTime .default deadline := by
    refine Prog.reach_invariant (start_dialPlaintext () (.start t₀ none) rfl) hrun (Dialling.onTime_start t₀ none) ?_ ?_
    · rintro s _ rfl h
      exact h
    · rintro s _ op r hop ⟨t, ht, rfl⟩ h
      exact h.step hop ht
  refine ⟨htime.inTime, htime.bounded, fun hp => (hend _ hp).of_late rfl, fun hscheme => ?_⟩
  rw [PlainConnector.connect, TcpDialer.dialPlaintext, if_pos hscheme] at hrun
  obtain ⟨hp, hs⟩ := Prog.reach_pure hrun
  exact ⟨hs.symm, hp⟩

end

/-! ### A run -/

/-- Nobody answers at the address 1; at the address 2 somebody does, in the last moment. -/
def unanswered (s : Dialling Nat) : (op : Dial.Op Nat) → Option (op.Ret × Dialling Nat)
  | .now => some (s.clock, s)
  | .resolve host port => some (.ok [1, 2], s.step s.clock (.resolve host port) (.ok [1, 2]))
  | .connectTimeout address allowed =>
    let r : Except StdIoError Unit := if address = 1 then .error ⟨.timedOut, .text "connection timed out"⟩ else .ok ()
    some (r, s.step (s.clock + allowed) (.connectTimeout address allowed) r)
  | .setNodelay on => some (.ok (), s.step s.clock (.setNodelay on) (.ok ()))

/-- `http://a`. -/
def plainUrl : Url := ⟨.http, ascii "a", none, [], none, none⟩

/-- Fifteen seconds to connect to it. -/
def quarterMinute : Deadline := ⟨some (Config.seconds 15)⟩

theorem takes_unanswered {s s' : Dialling Nat} {op : Dial.Op Nat} {r : op.Ret} (h : unanswered s op = some (r, s')) :
    ∃ t, s.Takes t op r ∧ s' = s.step t op r := by
  cases op with
  | now =>
      cases h
      exact ⟨0, rfl, rfl⟩
  | resolve host port =>
      cases h
      exact ⟨s.clock, Nat.le_refl _, rfl⟩
  | connectTimeout address allowed =>
      cases h
      exact ⟨s.clock + allowed, ⟨Nat.le_add_right _ _, Nat.le_refl _⟩, rfl⟩
  | setNodelay on =>
      cases h
      exact ⟨s.clock, trivial, rfl⟩

/-- A connect to two addresses, the first of which uses up its ten seconds. -/
theorem unanswered_reach (takes : Allotment Nat) (htakes : ∀ s t op r, s.Takes t op r → takes s t op r) : ∃ s : Dialling Nat,
    Prog.Reach (dialling takes .default quarterMinute plainUrl) (PlainConnector.connect plainUrl quarterMinute ()) (.start 0 none)
      (.pure (.ok ⟨2⟩, ())) s ∧
    s.clock = Config.seconds 15 ∧ s.attempts.map Attempt.allowed = [Config.seconds 10, Config.seconds 5] := by
  have hrun : (Prog.enact (A := Empty) unanswered (fun _ a => a.elim) (List.replicate 8 none)
      (PlainConnector.connect plainUrl quarterMinute ()) (.start 0 none)).map
      (fun c => (c.1.result?, c.2.clock, c.2.attempts.map Attempt.allowed)) =
      some (some (.ok ⟨2⟩, ()), Config.seconds 15, [Config.seconds 10, Config.seconds 5]) := by decide +kernel
  obtain ⟨⟨p, s⟩, hdrive, heq⟩ := Option.map_eq_some_iff.mp hrun
  obtain ⟨hresult, heq⟩ := Prod.mk.inj heq
  obtain ⟨hclock, hallowed⟩ := Prod.mk.inj heq
  obtain rfl := Prog.result?_eq_some hresult
  have hact : ∀ s op r s', unanswered s op = some (r, s') → (dialling takes .default quarterMinute plainUrl).act s op r s' := by
    intro s op r s' h
    obtain ⟨t, ht, hs⟩ := takes_unanswered h
    exact ⟨t, htakes s t op r ht, hs⟩
  exact ⟨s, Prog.reach_enact hact (fun _ a => a.elim) hdrive (.refl _ _), hclock, hallowed⟩

/-- The second attempt gets what the first one left. -/
theorem dials_in_turn_two : ∃ s : Dialling Nat, s.attempts.map Attempt.allowed = [Config.seconds 10, Config.seconds 5] ∧
    s.InTurn .default quarterMinute ∧ Concluded quarterMinute plainUrl s (.ok ⟨2⟩) := by
  obtain ⟨s, hreach, -, hallowed⟩ := unanswered_reach (fun _ _ _ _ => True) fun _ _ _ _ _ => trivial
  obtain ⟨hturn, hend⟩ := dials_in_turn.1 _ s hreach
  exact ⟨s, hallowed, hturn, hend _ rfl⟩

/-- The stream is there just in time. -/
theorem plain_connector_contract_two : ∃ s : Dialling Nat, s.clock = Config.seconds 15 ∧
    s.clock ≤ max s.looked (Config.seconds 15) ∧ s.clock ≤ s.looked + s.attempts.length * Config.seconds 10 := by
  obtain ⟨s, hreach, hclock, -⟩ := unanswered_reach _ fun _ _ _ _ => id
  obtain ⟨htime, hbounded, -⟩ := plain_connector_contract hreach
  exact ⟨s, hclock, htime _ rfl, hbounded⟩

end Xibalba
