import Xibalba.Lib.Total
import Xibalba.Client.Correctness.Deadlines
import Xibalba.Client.Correctness.Collect

/-!
# `Client.Correctness.Pace` — a bounded call returns in time

The silence budgets bound gaps, so a peer that sends a byte just often enough passes them forever. `request_deadline`
bounds the whole call. Here the clock runs: an operation of the stream takes some time, but no longer than the socket
timeout lets it block, and a connector keeps its contract. The call then returns, and no later than one such operation
after its deadline, whatever the peer sends and whenever.

That it returns is read off the clock: a loop that is cut off after `fuel` turns has spent `fuel` times the shortest
operation, which the deadline does not leave.

Layout:
* `Tempo` and `paced`, the world in which the clock runs;
* the budgets: the deadline is looked at before each operation of the stream;
* heads, bodies, and one request;
* `bounded_calls_return`.
-/

namespace Xibalba

open Act (Sure Total)

/-! ## The clock -/

/-- How long an operation of a stream takes: at least `tick`, with the pause that follows a timeout tick, and at most
    `block`. -/
structure Tempo where
  tick : Duration
  block : Duration

/-- The time an operation takes. A connector returns by its deadline; what is neither the stream's nor the connector's
    takes no time. -/
def Tempo.Takes (tempo : Tempo) (t : Instant) : (op : Op) → op.Ret → Instant → Prop
  | .now, r, t' => r = t ∧ t' = t
  | .connect _ d, _, t' => t ≤ t' ∧ ∀ e, d.expiresAt = some e → t' ≤ max t e
  | .read _, _, t' | .write _, _, t' | .flush, _, t' => t + tempo.tick ≤ t' ∧ t' ≤ t + tempo.block
  | _, _, t' => t' = t

/-- So many turns, each with an operation, do not fit between `c` and the end of the operation that is under way when the
    deadline `e` passes. -/
def Tempo.Enough (tempo : Tempo) (e : Instant) (turns : Nat) (c : Instant) : Prop :=
  e + tempo.block < c + turns * tempo.tick

/-- The world in which the clock runs. Nothing may be done later than one operation past the deadline `e`. -/
def paced (tempo : Tempo) (e : Instant) : World Sys Instant where
  env := Eq
  guard t _ := t ≤ e + tempo.block
  act t op r t' := tempo.Takes t op r t'
  env_refl _ := rfl
  env_trans h₁ h₂ := h₁.trans h₂

variable {tempo : Tempo} {ε α β : Type} {c c' e : Instant}

/-- It is `c` or later, and at most one operation past the deadline `e`. -/
def within (tempo : Tempo) (e c : Instant) : (paced tempo e).Assertion Local where
  holds _ t := c ≤ t ∧ t ≤ e + tempo.block
  stable henv h := by
    cases henv
    exact h

/-- It is `c` or later, and the deadline has not passed. -/
def early (tempo : Tempo) (e c : Instant) : (paced tempo e).Assertion Local where
  holds _ t := c ≤ t ∧ t < e
  stable henv h := by
    cases henv
    exact h

/-- A result that satisfies `φ`, at `c'` or later; a failure at `c` or later. -/
def leaving (tempo : Tempo) (e c c' : Instant) (φ : α → Prop) : Except ε α → (paced tempo e).Assertion Local
  | .ok a => ⟨fun l t => within tempo e c' l t ∧ φ a, fun henv h => ⟨(within tempo e c').stable henv h.1, h.2⟩⟩
  | .error _ => within tempo e c

theorem within_mono (hc : c ≤ c') {l : Local} {t : Instant} (h : within tempo e c' l t) : within tempo e c l t :=
  ⟨Nat.le_trans hc h.1, h.2⟩

theorem within_early {l : Local} {t : Instant} (h : early tempo e c l t) : within tempo e c l t :=
  ⟨h.1, Nat.le_trans (Nat.le_of_lt h.2) (Nat.le_add_right e _)⟩

/-- The rule for a first part whose result satisfies `φ`. -/
theorem Total.leave {P : (paced tempo e).Assertion Local} {Q : Except ε β → (paced tempo e).Assertion Local} {φ : α → Prop}
    {x : M ε α} {f : α → M ε β} (hx : Total P x (leaving tempo e c c' φ))
    (herr : ∀ err l t, within tempo e c l t → Q (.error err) l t)
    (hf : ∀ a, φ a → Total (within tempo e c') (f a) Q) : Total P (x >>= f) Q := by
  refine Total.bind hx (fun a => ?_) herr
  refine Total.given (φ := φ a) (fun _ _ h => h.2) fun ha => ?_
  exact Total.conseq (hf a ha) (fun _ _ h => h.1) fun _ _ _ h => h

namespace Tempo.Enough

theorem later {turns : Nat} (h : tempo.Enough e turns c) (hc : c ≤ c') : tempo.Enough e turns c' :=
  Nat.lt_of_lt_of_le h (Nat.add_le_add_right hc _)

theorem next {turns : Nat} (h : tempo.Enough e (turns + 1) c) : tempo.Enough e turns (c + tempo.tick) := by
  unfold Enough at h ⊢
  rwa [Nat.add_assoc, Nat.add_comm tempo.tick, ← Nat.succ_mul]

theorem none_left {l : Local} {t : Instant} (h : tempo.Enough e 0 c) : ¬within tempo e c l t := by
  rintro ⟨hc, ht⟩
  rw [Enough, Nat.zero_mul, Nat.add_zero] at h
  exact absurd (Nat.le_trans hc ht) (Nat.not_le_of_lt h)

end Tempo.Enough

/-- An operation that takes no time. -/
theorem total_instant {op : Op} (h : ∀ t r t', tempo.Takes t op r t' → t' = t) :
    Total (within tempo e c) (Act.call (S := Sys) op : M ε op.Ret) fun _ => within tempo e c := by
  refine Total.call fun l t hwithin => ⟨hwithin.2, fun r t' hact => ?_⟩
  cases h t r t' hact
  exact hwithin

/-- A look at the clock. -/
theorem total_now : Total (within tempo e c) (M.now : M ε Instant) (.onOk fun now =>
    ⟨fun l t => within tempo e c l t ∧ now = t, fun henv h => by cases henv; exact h⟩) := by
  refine Total.call fun l t h => ⟨h.2, fun r t' hact => ?_⟩
  obtain ⟨rfl, rfl⟩ := hact
  exact ⟨h, rfl⟩

theorem total_client {I : (paced tempo e).Assertion Local} : Total I (M.client : M ε Client) (.onOk fun _ => I) :=
  Total.after (R := fun _ => I) (Total.get fun _ _ h => h) fun _ => Total.pure fun _ _ h => h

/-- What the client keeps in its own memory does not concern the clock. -/
theorem total_modifyClient (f : Client → Client) :
    Total (within tempo e c) (M.modifyClient f : M ε Unit) (.onOk fun _ => within tempo e c) :=
  Total.modify fun _ _ h => h

/-! ## The deadline -/

namespace RequestDeadline

variable {d : RequestDeadline} (hd : d.expiresAt = some e)

include hd

/-- A deadline that has not passed leaves time for one operation. -/
theorem total_expired :
    Total (within tempo e c) (d.expired : M ε Bool)
      (.onOk fun late => if late then within tempo e c else early tempo e c) := by
  unfold expired
  rw [hd]
  refine Total.after total_now fun now => Total.pure fun l t h => ?_
  obtain ⟨hwithin, rfl⟩ := h
  show (if d.expiredAt now = true then within tempo e c else early tempo e c).holds l now
  split
  · exact hwithin
  next hlate =>
    refine ⟨hwithin.1, ?_⟩
    rw [expiredAt, hd] at hlate
    simpa using hlate

/-- A check, and what is done in time after it. -/
theorem total_unless {err : ε} {x : M ε α} {Q : Except ε α → (paced tempo e).Assertion Local}
    (herr : ∀ l t, within tempo e c l t → Q (.error err) l t) (hx : Total (early tempo e c) x Q) :
    Total (within tempo e c) (do
      if ← d.expired then Act.throw err
      x) Q := by
  refine Total.after (total_expired hd) fun late => ?_
  cases late with
  | true => exact Total.raise herr
  | false => exact hx

/-- A check that leaves time for one operation, or ends what it is part of. -/
def opening (tempo : Tempo) (e c : Instant) : Except ε Unit → (paced tempo e).Assertion Local
  | .ok _ => early tempo e c
  | .error _ => within tempo e c

theorem total_checkIo : Total (within tempo e c) d.checkIo (opening tempo e c) := by
  refine Total.after (total_expired hd) fun late => ?_
  cases late with
  | true => exact Total.throw fun _ _ h => h
  | false => exact Total.pure fun _ _ h => h

theorem total_check : Total (within tempo e c) d.check (opening tempo e c) := by
  refine Total.after (total_expired hd) fun late => ?_
  cases late with
  | true => exact Total.throw fun _ _ h => h
  | false => exact Total.pure fun _ _ h => h

end RequestDeadline

/-! ## Streams and budgets -/

/-- A stream whose operations take their time. -/
structure Stream.Paced (tempo : Tempo) (e : Instant) (stream : Stream) : Prop where
  read : ∀ c len, Total (early tempo e c) (stream.read len) fun _ => within tempo e (c + tempo.tick)
  write : ∀ c buf, Total (early tempo e c) (stream.write buf) fun _ => within tempo e (c + tempo.tick)
  flush : ∀ c, Total (early tempo e c) stream.flush fun _ => within tempo e (c + tempo.tick)

/-- An operation that began before the deadline. -/
theorem total_operation {op : Op}
    (h : ∀ t r t', tempo.Takes t op r t' → t + tempo.tick ≤ t' ∧ t' ≤ t + tempo.block) :
    Total (early tempo e c) (Act.call (S := Sys) op : M ε op.Ret) (.onOk fun _ => within tempo e (c + tempo.tick)) := by
  refine Total.call fun l t hearly => ⟨(within_early hearly).2, fun r t' hact => ?_⟩
  obtain ⟨hmin, hmax⟩ := h t r t' hact
  refine ⟨Nat.le_trans (Nat.add_le_add_right hearly.1 _) hmin, Nat.le_trans hmax ?_⟩
  exact Nat.add_le_add_right (Nat.le_of_lt hearly.2) _

theorem Stream.paced_raw (tempo : Tempo) (e : Instant) : Stream.raw.Paced tempo e where
  read _ _ := Total.after (total_operation fun _ _ _ h => h) fun _ => Total.ofExcept fun _ _ h => h
  write _ _ := Total.after (total_operation fun _ _ _ h => h) fun _ => Total.ofExcept fun _ _ h => h
  flush _ := Total.after (total_operation fun _ _ _ h => h) fun _ => Total.ofExcept fun _ _ h => h

/-- Asking an interrupt that never fires takes no time. -/
theorem Stream.paced_never (tempo : Tempo) (e : Instant) : (Stream.interruptible .never).Paced tempo e where
  read := (paced_raw tempo e).read
  write := (paced_raw tempo e).write
  flush := (paced_raw tempo e).flush

section

variable {fuel : Nat} {stream : Stream} (hs : stream.Paced tempo e)

/-- What follows a timeout tick: the budget is used up, or the operation is tried again. -/
theorem total_tick {Q : Except StdIoError α → (paced tempo e).Assertion Local} (last : Instant) (limit : Duration)
    (err : StdIoError) {x : M StdIoError α} (herr : ∀ l t, within tempo e c l t → Q (.error err) l t)
    (hx : Total (within tempo e c) x Q) :
    Total (within tempo e c) (do
      if (← M.now) - last ≥ limit then Act.throw err
      x) Q := by
  refine Total.after total_now fun now => ?_
  refine Total.conseq (Total.orThrow herr hx) (fun _ _ h => h.1) fun _ _ _ h => h

/-- A loop that has used up its turns has also used up the time. -/
theorem total_cut {Q : Except ε α → (paced tempo e).Assertion Local} (h : tempo.Enough e 0 c) :
    Total (within tempo e c) (Act.hang : M ε α) Q :=
  Total.given (φ := False) (fun _ _ hwithin => h.none_left hwithin) False.elim

include hs

namespace SilenceBudget

/-- A budget whose total is the deadline `e`. -/
def Due (e : Instant) (b : SilenceBudget) : Prop := b.deadline.expiresAt = some e

omit hs in
theorem total_withDeadline {d : RequestDeadline} (hd : d.expiresAt = some e) (limit : Duration) :
    Total (within tempo e c) (withDeadline limit d : M ε SilenceBudget) (leaving tempo e c c (Due e)) :=
  Total.after total_now fun _ => Total.pure fun _ _ h => ⟨h.1, hd⟩

/-- **One read.** It delivers one operation later at the earliest. -/
theorem total_read (len turns : Nat) {b : SilenceBudget} (hb : b.Due e) (hc : c ≤ c')
    (hturns : tempo.Enough e turns c') :
    Total (within tempo e c') (read stream len turns b) (leaving tempo e c (c + tempo.tick) fun r => r.2.Due e) := by
  induction turns generalizing c' with
  | zero => exact total_cut hturns
  | succ turns ih =>
      have htick : c + tempo.tick ≤ c' + tempo.tick := Nat.add_le_add_right hc _
      have hle : c ≤ c' + tempo.tick := Nat.le_trans hc (Nat.le_add_right _ _)
      refine RequestDeadline.total_unless hb (fun _ _ h => within_mono hc h) ?_
      refine Total.after (Total.attempt (hs.read c' len) fun _ _ _ h => h) fun r => ?_
      cases r with
      | ok bs => exact Total.after total_now fun now => Total.pure fun _ _ h => ⟨within_mono htick h.1, hb⟩
      | error err =>
          dsimp only
          split
          · exact total_tick _ _ _ (fun _ _ h => within_mono hle h) (ih hle hturns.next)
          · exact Total.throw fun _ _ h => within_mono hle h

theorem total_readProto (len : Nat) {b : SilenceBudget} (hb : b.Due e) (hfuel : tempo.Enough e fuel c) :
    Total (within tempo e c) (b.readProto stream len fuel) (leaving tempo e c (c + tempo.tick) fun r => r.2.Due e) := by
  refine Total.mapError (total_read hs len fuel hb (Nat.le_refl c) hfuel) fun r l t h => ?_
  cases r with
  | ok r => exact h
  | error err => exact h

theorem total_readExact {turns : Nat} (need : Nat) (got : Bytes) {b : SilenceBudget} (hb : b.Due e)
    (hfuel : tempo.Enough e fuel c) (hc : c ≤ c') (hturns : tempo.Enough e turns c') :
    Total (within tempo e c') (readExact stream fuel turns b need got) fun _ => within tempo e c := by
  induction turns generalizing b need got c' with
  | zero => exact total_cut hturns
  | succ turns ih =>
      unfold readExact
      split
      · exact Total.pure fun _ _ h => within_mono hc h
      have hle : c ≤ c' + tempo.tick := Nat.le_trans hc (Nat.le_add_right _ _)
      refine Total.leave (total_read hs need fuel hb (Nat.le_refl c') (hfuel.later hc)) (fun _ _ _ h => within_mono hc h)
        fun r hr => ?_
      exact Total.orThrow (fun _ _ h => within_mono hle h) (ih _ _ hr hle hturns.next)

end SilenceBudget

namespace WriteBudget

/-- A budget whose total is the deadline `e`. -/
def Due (e : Instant) (b : WriteBudget) : Prop := b.deadline.expiresAt = some e

omit hs in
theorem total_withDeadline {d : RequestDeadline} (hd : d.expiresAt = some e) (limit : Duration) :
    Total (within tempo e c) (withDeadline limit d : M ε WriteBudget) (leaving tempo e c c (Due e)) :=
  Total.after total_now fun _ => Total.pure fun _ _ h => ⟨h.1, hd⟩

theorem total_writeAllRaw {turns : Nat} (buf : Bytes) {b : WriteBudget} (hb : b.Due e) (hc : c ≤ c')
    (hturns : tempo.Enough e turns c') :
    Total (within tempo e c') (writeAllRaw stream turns b buf) (leaving tempo e c c (Due e)) := by
  induction turns generalizing b buf c' with
  | zero => exact total_cut hturns
  | succ turns ih =>
      have hle : c ≤ c' + tempo.tick := Nat.le_trans hc (Nat.le_add_right _ _)
      unfold writeAllRaw
      split
      · exact Total.pure fun _ _ h => ⟨within_mono hc h, hb⟩
      refine Total.bind (RequestDeadline.total_checkIo hb) (fun _ => ?_) fun _ _ _ h => within_mono hc h
      refine Total.after (Total.attempt (hs.write c' buf) fun _ _ _ h => h) fun r => ?_
      cases r with
      | ok n =>
          refine Total.orThrow (fun _ _ h => within_mono hle h) (Total.after total_now fun now => ?_)
          exact Total.conseq (ih (buf.drop n.val) hb hle hturns.next) (fun _ _ h => h.1) fun _ _ _ h => h
      | error err =>
          dsimp only
          split
          · exact total_tick _ _ _ (fun _ _ h => within_mono hle h) (ih buf hb hle hturns.next)
          · exact Total.throw fun _ _ h => within_mono hle h

theorem total_writeAllProto (buf : Bytes) {b : WriteBudget} (hb : b.Due e) (hfuel : tempo.Enough e fuel c) :
    Total (within tempo e c) (b.writeAllProto stream fuel buf) (leaving tempo e c c (Due e)) := by
  refine Total.mapError (total_writeAllRaw hs buf hb (Nat.le_refl c) hfuel) fun r l t h => ?_
  cases r with
  | ok b' => exact h
  | error err => exact h

theorem total_flush {turns : Nat} {b : WriteBudget} (hb : b.Due e) (hc : c ≤ c') (hturns : tempo.Enough e turns c') :
    Total (within tempo e c') (flush stream turns b) fun _ => within tempo e c := by
  induction turns generalizing c' with
  | zero => exact total_cut hturns
  | succ turns ih =>
      have hle : c ≤ c' + tempo.tick := Nat.le_trans hc (Nat.le_add_right _ _)
      refine Total.bind (RequestDeadline.total_checkIo hb) (fun _ => ?_) fun _ _ _ h => within_mono hc h
      refine Total.after (Total.attempt (hs.flush c') fun _ _ _ h => h) fun r => ?_
      cases r with
      | ok u => exact Total.pure fun _ _ h => within_mono hle h
      | error err =>
          dsimp only
          split
          · exact total_tick _ _ _ (fun _ _ h => within_mono hle h) (ih hle hturns.next)
          · exact Total.throw fun _ _ h => within_mono hle h

theorem total_flushProto {b : WriteBudget} (hb : b.Due e) (hfuel : tempo.Enough e fuel c) :
    Total (within tempo e c) (b.flushProto stream fuel) fun _ => within tempo e c :=
  Total.mapError (total_flush hs hb (Nat.le_refl c) hfuel) fun _ _ _ h => h

end WriteBudget

/-! ## Heads -/

namespace HeadData

theorem total_readUntilHeadEnd {maxHead turns : Nat} (scanned : Nat) {b : SilenceBudget} (hb : b.Due e)
    (hfuel : tempo.Enough e fuel c) (hc : c ≤ c') (hturns : tempo.Enough e turns c') :
    Total (within tempo e c') (readUntilHeadEnd stream maxHead fuel turns scanned b)
      (leaving tempo e c c fun r => r.2.Due e) := by
  induction turns generalizing b scanned c' with
  | zero => exact total_cut hturns
  | succ turns ih =>
      have hle : c ≤ c' + tempo.tick := Nat.le_trans hc (Nat.le_add_right _ _)
      unfold readUntilHeadEnd
      refine Total.after total_client fun client => ?_
      dsimp only
      split
      · split
        · exact Total.throw fun _ _ h => within_mono hc h
        · exact Total.pure fun _ _ h => ⟨within_mono hc h, hb⟩
      refine Total.orThrow (fun _ _ h => within_mono hc h) ?_
      refine Total.leave (SilenceBudget.total_readProto hs _ hb (hfuel.later hc)) (fun _ _ _ h => within_mono hc h)
        fun r hr => ?_
      refine Total.orThrow (fun _ _ h => within_mono hle h) ?_
      exact Total.after (total_modifyClient _) fun _ => ih _ hr hle hturns.next

/-- At most nine heads are read, so ten turns are enough. -/
theorem total_readFinalHead {maxHead turns : Nat} {method : Method} (interimSeen : Nat) {b : SilenceBudget} (hb : b.Due e)
    (hfuel : tempo.Enough e fuel c) (hturns : MAX_INTERIM_RESPONSES < interimSeen + turns)
    (hseen : interimSeen ≤ MAX_INTERIM_RESPONSES) :
    Total (within tempo e c) (readFinalHead stream maxHead method fuel turns interimSeen b) fun _ => within tempo e c := by
  induction turns generalizing b interimSeen with
  | zero => exact absurd hseen (Nat.not_le_of_lt hturns)
  | succ turns ih =>
      unfold readFinalHead
      refine Total.leave (total_readUntilHeadEnd hs 0 hb hfuel (Nat.le_refl c) hfuel) (fun _ _ _ h => h) fun r hr => ?_
      refine Total.after total_client fun client => Total.seq (Total.ofExcept fun _ _ h => h) fun parsed => ?_
      dsimp only
      split
      · split
        · exact Total.raise fun _ _ h => h
        · exact Total.after (total_modifyClient _) fun _ => ih (interimSeen + 1) hr (by omega) (by omega)
      · exact Total.ofExcept fun _ _ h => h

theorem total_readResponse {maxHead : Nat} {silence : Duration} {deadline : RequestDeadline} {method : Method}
    (hd : deadline.expiresAt = some e) (hfuel : tempo.Enough e fuel c) (hheads : MAX_INTERIM_RESPONSES < fuel) :
    Total (within tempo e c) (readResponse stream maxHead silence deadline method fuel) fun _ => within tempo e c := by
  refine Total.after (total_modifyClient _) fun _ => ?_
  refine Total.leave (SilenceBudget.total_withDeadline hd silence) (fun _ _ _ h => h) fun budget hb => ?_
  refine Total.seq (total_readFinalHead hs 0 hb hfuel (by omega) (Nat.zero_le _)) fun final => ?_
  refine Total.after total_client fun client => Total.seq (Total.ofExcept fun _ _ h => h) fun data => ?_
  exact Total.seq (total_instant fun _ _ _ h => h) fun _ => Total.pure fun _ _ h => h

end HeadData

/-! ## Bodies -/

namespace BodyCollector

omit hs in
/-- The decode loop over a piece of input comes to an end. -/
theorem total_pumped {maxBody : Nat} (whileInput : Bool) {d : ChunkedDecoder} {body : Bytes} (input : Bytes)
    (hinv : d.Inv) (hnd : d.isDone = false) (hmax : body.length ≤ maxBody) :
    Total (within tempo e c) (pumped maxBody whileInput d body input)
      (leaving tempo e c c fun p => p.Exact maxBody d body input) := by
  obtain ⟨p, hp, hexact⟩ := pump_exact whileInput (.inl hinv) hnd hmax (Nat.lt_add_of_pos_right Nat.zero_lt_two)
  unfold pumped
  rw [hp]
  exact Total.pure fun _ _ h => ⟨h, hexact⟩

theorem total_readChunkedMore {maxBody turns : Nat} {b : SilenceBudget} {d : ChunkedDecoder} {body : Bytes} (hb : b.Due e)
    (hinv : d.Inv) (hnd : d.isDone = false) (hmax : body.length ≤ maxBody) (hfuel : tempo.Enough e fuel c) (hc : c ≤ c')
    (hturns : tempo.Enough e turns c') :
    Total (within tempo e c') (readChunkedMore stream maxBody fuel turns b d body) fun _ => within tempo e c := by
  induction turns generalizing b d body c' with
  | zero => exact total_cut hturns
  | succ turns ih =>
      have hle : c ≤ c' + tempo.tick := Nat.le_trans hc (Nat.le_add_right _ _)
      unfold readChunkedMore
      refine Total.leave (SilenceBudget.total_readProto hs _ hb (hfuel.later hc)) (fun _ _ _ h => within_mono hc h)
        fun r hr => ?_
      refine Total.orThrow (fun _ _ h => within_mono hle h) ?_
      refine Total.leave (total_pumped true r.1.val hinv hnd hmax) (fun _ _ _ h => within_mono hle h) fun p hp => ?_
      cases p with
      | needMore d' body' =>
          obtain ⟨hinv', hnd', hmax', -⟩ := hp
          exact ih hr hinv' hnd' hmax' hle hturns.next
      | done body' leftover => exact Total.pure fun _ _ h => within_mono hle h
      | error err => exact Total.throw fun _ _ h => within_mono hle h

theorem total_readUntilClose {maxBody turns : Nat} {b : SilenceBudget} (body : Bytes) (hb : b.Due e)
    (hfuel : tempo.Enough e fuel c) (hc : c ≤ c') (hturns : tempo.Enough e turns c') :
    Total (within tempo e c') (readUntilClose stream maxBody fuel turns b body) fun _ => within tempo e c := by
  induction turns generalizing b body c' with
  | zero => exact total_cut hturns
  | succ turns ih =>
      have hle : c ≤ c' + tempo.tick := Nat.le_trans hc (Nat.le_add_right _ _)
      unfold readUntilClose
      refine Total.orThrow (fun _ _ h => within_mono hc h) ?_
      refine Total.leave (SilenceBudget.total_readProto hs _ hb (hfuel.later hc)) (fun _ _ _ h => within_mono hc h)
        fun r hr => ?_
      dsimp only
      split
      · exact Total.pure fun _ _ h => within_mono hle h
      · exact ih _ hr hle hturns.next

/-- **Every framing** is read in time. -/
theorem total_read {maxBody : Nat} {b : SilenceBudget} (framing : BodyFraming) (tail : Bytes) (hb : b.Due e)
    (hfuel : tempo.Enough e fuel c) :
    Total (within tempo e c) (read stream maxBody fuel b framing tail) fun _ => within tempo e c := by
  have hc := Nat.le_refl c
  cases framing with
  | none => exact Total.pure fun _ _ h => h
  | contentLength len =>
      refine Total.orThrow (fun _ _ h => h) (Total.ite ?_ (Total.pure fun _ _ h => h))
      refine Total.seq (Total.mapError ?_ fun _ _ _ h => h) fun rest => Total.pure fun _ _ h => h
      exact SilenceBudget.total_readExact hs _ [] hb hfuel hc hfuel
  | chunked =>
      refine Total.leave (total_pumped false tail ChunkedDecoder.inv_new rfl (Nat.zero_le _)) (fun _ _ _ h => h)
        fun p hp => ?_
      cases p with
      | needMore d body =>
          obtain ⟨hinv, hnd, hmax, -⟩ := hp
          exact total_readChunkedMore hs hb hinv hnd hmax hfuel hc hfuel
      | done body leftover => exact Total.pure fun _ _ h => h
      | error err => exact Total.throw fun _ _ h => h
  | untilClose => exact Total.seq (total_readUntilClose hs tail hb hfuel hc hfuel) fun _ => Total.pure fun _ _ h => h

end BodyCollector

end

/-! ## Connecting -/

section

variable {fuel : Nat} {deadline : RequestDeadline} (hd : deadline.expiresAt = some e) (hmax : e ≤ MAX_INSTANT)

/-- The clock stands at `t`, before the deadline. -/
def standing (tempo : Tempo) (e c t : Instant) : (paced tempo e).Assertion Local where
  holds l t' := early tempo e c l t' ∧ t' = t
  stable henv h := by
    cases henv
    exact h

/-- The rule for a clock that stands. -/
theorem Total.stand {Q : Except ε α → (paced tempo e).Assertion Local} {x : M ε α}
    (h : ∀ t, Total (standing tempo e c t) x Q) : Total (early tempo e c) x Q where
  triple l t hearly := (h t).triple l t ⟨hearly, rfl⟩
  uncut l t hearly := (h t).uncut l t ⟨hearly, rfl⟩

theorem total_standing {t : Instant} : Total (standing tempo e c t) (M.now : M ε Instant) (.onOk fun now =>
    ⟨fun l t' => standing tempo e c t l t' ∧ now = t, fun henv h => by cases henv; exact h⟩) := by
  refine Total.call fun l t' h => ⟨(within_early h.1).2, fun r t'' hact => ?_⟩
  obtain ⟨rfl, rfl⟩ := hact
  exact ⟨h, h.2⟩

theorem Config.total_connectDeadline (config : Config) {t : Instant} :
    Total (standing tempo e c t) (config.connectDeadline : M ε Deadline) (.onOk fun _ => standing tempo e c t) := by
  unfold Config.connectDeadline
  cases config.connectTimeout with
  | none => exact Total.pure fun _ _ h => h
  | some budget => exact Total.after total_standing fun now => Total.pure fun _ _ h => h.1

include hd hmax

/-- The deadline of a connect is the total's at the latest. -/
theorem RequestDeadline.total_connectDeadline (fallback : Deadline) {t : Instant} :
    Total (standing tempo e c t) (deadline.connectDeadline fallback : M ε Deadline) (.onOk fun d =>
      ⟨fun l t' => early tempo e c l t' ∧ d.Within e, fun henv h => by cases henv; exact h⟩) := by
  unfold connectDeadline
  rw [hd]
  refine Total.after total_standing fun t₁ => ?_
  refine Total.given (φ := t₁ = t) (fun _ _ h => h.2) fun ht₁ => ?_
  refine Total.conseq (P := standing tempo e c t) ?_ (fun _ _ h => h.1) fun _ _ _ h => h
  refine Total.after total_standing fun t₂ => Total.pure fun l t' h => ?_
  obtain ⟨⟨hearly, rfl⟩, rfl⟩ := h
  refine ⟨hearly, Deadline.Within.sooner_left ⟨e, ?_, Nat.le_refl e⟩ fallback⟩
  rw [ht₁]
  exact Instant.checkedAdd_eq_some.mpr ⟨Nat.add_sub_cancel' (Nat.le_of_lt hearly.2), hmax⟩

namespace Client

omit hd hmax in
theorem total_applyTimeouts : Total (within tempo e c) applyTimeouts fun _ => within tempo e c := by
  refine Total.after total_client fun client => ?_
  refine Total.seq (Total.mapError (Total.seq (total_instant fun _ _ _ h => h) fun _ => ?_) fun _ _ _ h => h) fun _ => ?_
  · exact Total.ofExcept fun _ _ h => h
  refine Total.mapError (Total.seq (total_instant fun _ _ _ h => h) fun _ => ?_) fun _ _ _ h => h
  exact Total.ofExcept fun _ _ h => h

theorem total_reconnect (url : Url) :
    Total (within tempo e c) (reconnectWithDeadline url deadline) fun _ => within tempo e c := by
  refine Total.bind (RequestDeadline.total_check hd) (fun _ => ?_) fun _ _ _ h => h
  refine Total.after total_client fun client => Total.stand fun t => ?_
  refine Total.after (client.config.total_connectDeadline) fun fallback => ?_
  refine Total.after (RequestDeadline.total_connectDeadline hd hmax fallback) fun d => ?_
  have hconnect : Total (W := paced tempo e)
      ⟨fun l t => early tempo e c l t ∧ d.Within e, fun henv h => by cases henv; exact h⟩ (M.connect url d)
      fun _ => within tempo e c := by
    refine Total.bind (R := fun _ => within tempo e c) (Total.call fun l t h => ⟨(within_early h.1).2, fun r t' hact => ?_⟩)
      (fun _ => Total.ofExcept fun _ _ h => h) fun _ _ _ h => h
    obtain ⟨⟨hc, hearly⟩, e', he', hle⟩ := h
    obtain ⟨hmono, htime⟩ := hact
    refine ⟨Nat.le_trans hc hmono, Nat.le_trans (htime e' he') ?_⟩
    exact Nat.le_trans (Nat.max_le.mpr ⟨Nat.le_of_lt hearly, hle⟩) (Nat.le_add_right e _)
  refine Total.bind hconnect (fun _ => ?_) fun _ _ _ h => h
  refine Total.after (total_modifyClient _) fun _ => Total.seq total_applyTimeouts fun _ => ?_
  exact Total.modify fun _ _ h => h

theorem total_reconnectSameHost :
    Total (within tempo e c) (reconnectSameHostWithDeadline deadline) fun _ => within tempo e c :=
  Total.after total_client fun _ => total_reconnect hd hmax _

theorem total_ensureClean : Total (within tempo e c) (ensureCleanWithDeadline deadline) fun _ => within tempo e c :=
  Total.after total_client fun _ => Total.ite (total_reconnectSameHost hd hmax) (Total.pure fun _ _ h => h)

/-! ## One request -/

omit hd hmax in
theorem total_writeRequest {wire : Stream} (hs : wire.Paced tempo e) {b : WriteBudget} (body : Option Bytes) (hb : b.Due e)
    (hfuel : tempo.Enough e fuel c) :
    Total (within tempo e c) (writeRequest wire fuel b body) fun _ => within tempo e c := by
  have hflush : ∀ b : WriteBudget, b.Due e → Total (within tempo e c) (b.flushProto wire fuel) fun _ => within tempo e c :=
    fun b hb => WriteBudget.total_flushProto hs hb hfuel
  refine Total.after total_client fun client => ?_
  cases body with
  | none => exact Total.leave (WriteBudget.total_writeAllProto hs _ hb hfuel) (fun _ _ _ h => h) hflush
  | some data =>
      refine Total.ite ?_ ?_
      · refine Total.after (total_modifyClient _) fun _ => ?_
        exact Total.leave (WriteBudget.total_writeAllProto hs _ hb hfuel) (fun _ _ _ h => h) hflush
      · refine Total.leave (WriteBudget.total_writeAllProto hs _ hb hfuel) (fun _ _ _ h => h) fun b' hb' => ?_
        exact Total.leave (WriteBudget.total_writeAllProto hs data hb' hfuel) (fun _ _ _ h => h) hflush

variable (hfuel : tempo.Enough e fuel c) (hheads : HeadData.MAX_INTERIM_RESPONSES < fuel)

include hfuel hheads

omit hmax in
theorem total_sendHeadOnce (params : RequestParams) :
    Total (within tempo e c) (sendHeadOnce fuel params deadline .never) fun _ => within tempo e c := by
  have hs := Stream.paced_never tempo e
  refine Total.bind (RequestDeadline.total_check hd) (fun _ => ?_) fun _ _ _ h => h
  refine Total.conseq (P := within tempo e c) ?_ (fun _ _ h => within_early h) fun _ _ _ h => h
  refine Total.orThrow (fun _ _ h => h) ?_
  refine Total.after (total_modifyClient _) fun _ => Total.after total_client fun client => ?_
  refine Total.after (total_modifyClient _) fun _ => ?_
  refine Total.seq (Total.mapError (Total.ofExcept fun _ _ h => h) fun _ _ _ h => h) fun head => ?_
  refine Total.after (total_modifyClient _) fun _ => Total.after (total_modifyClient _) fun _ => ?_
  refine Total.seq (total_instant fun _ _ _ h => h) fun _ => ?_
  refine Total.leave (WriteBudget.total_withDeadline hd _) (fun _ _ _ h => h) fun budget hb => ?_
  refine Total.seq (total_writeRequest hs params.body hb hfuel) fun _ => ?_
  exact HeadData.total_readResponse hs hd hfuel hheads

theorem total_sendHead (params : RequestParams) :
    Total (within tempo e c) (sendHeadInterruptible fuel params deadline .never) fun _ => within tempo e c := by
  have hsend := total_sendHeadOnce hd hfuel hheads params
  refine Total.after (Total.attempt hsend fun _ _ _ h => h) fun r => ?_
  cases r with
  | ok head => exact Total.pure fun _ _ h => h
  | error err =>
      refine Total.after total_client fun client => Total.ite ?_ (Total.throw fun _ _ h => h)
      -- nobody cancels a blocking call
      exact Total.seq (x := Interrupt.never.isCancelled) (Total.pure fun _ _ h => h) fun cancelled =>
        Total.orThrow (fun _ _ h => h) (Total.seq (total_reconnectSameHost hd hmax) fun _ => hsend)

omit hmax hheads in
theorem total_readFullBody (framing : BodyFraming) (tailOffset : Nat) :
    Total (within tempo e c) (readFullBody fuel framing tailOffset deadline) fun _ => within tempo e c := by
  have hdirty : ∀ b : Bool, Total (within tempo e c) (M.modifyClient fun c => { c with dirty := b } : M Error Unit)
      (.onOk fun _ => within tempo e c) := fun b => total_modifyClient _
  refine Total.after total_client fun client => ?_
  refine Total.leave (SilenceBudget.total_withDeadline hd _) (fun _ _ _ h => h) fun budget hb => ?_
  have hread : Total (within tempo e c) (BodyCollector.read .raw client.config.maxResponseBody fuel budget framing
      (client.headBuf.drop tailOffset)) fun _ => within tempo e c :=
    BodyCollector.total_read (Stream.paced_raw tempo e) framing (client.headBuf.drop tailOffset) hb hfuel
  refine Total.after (Total.attempt hread fun _ _ _ h => h) fun r => ?_
  cases r with
  | ok r =>
      obtain ⟨data, reusable⟩ := r
      cases reusable with
      | true => exact Total.after (hdirty false) fun _ => Total.pure fun _ _ h => h
      | false => exact Total.after (hdirty true) fun _ => Total.pure fun _ _ h => h
  | error err => exact Total.after (hdirty true) fun _ => Total.throw fun _ _ h => h

theorem total_sendOne (params : RequestParams) :
    Total (within tempo e c) (sendOne fuel params deadline) fun _ => within tempo e c := by
  refine Total.seq (total_ensureClean hd hmax) fun _ => Total.seq (total_sendHead hd hmax hfuel hheads params) fun sent => ?_
  refine Total.bind (RequestDeadline.total_check hd) (fun _ => ?_) fun _ _ _ h => h
  refine Total.conseq (P := within tempo e c) ?_ (fun _ _ h => within_early h) fun _ _ _ h => h
  refine Total.seq (total_readFullBody hd hfuel _ _) fun body => ?_
  refine Total.ite ?_ (Total.pure fun _ _ h => h)
  exact Total.after (total_modifyClient _) fun _ => Total.pure fun _ _ h => h

omit hfuel hheads in
theorem total_follow (state : RedirectState) (status : StatusCode) (location : Bytes) :
    Total (within tempo e c) (follow state deadline status location) fun _ => within tempo e c := by
  have hmark : Total (within tempo e c) (M.mark (.redirect location) : M Error Unit) fun _ => within tempo e c :=
    total_instant fun _ _ _ h => h
  refine Total.after total_client fun client => Total.seq (Total.ofExcept fun _ _ h => h) fun next => ?_
  obtain ⟨state', hop⟩ := next
  cases hop with
  | sameOrigin => exact Total.seq hmark fun _ => Total.pure fun _ _ h => h
  | reconnect target =>
      refine Total.orThrow (fun _ _ h => h) (Total.seq (Total.ofExcept fun _ _ h => h) fun url => ?_)
      exact Total.seq hmark fun _ => Total.seq (total_reconnect hd hmax url) fun _ => Total.pure fun _ _ h => h

/-- Any number of hops share the total. -/
theorem total_executeLoop (hopsLeft : Nat) (state : RedirectState) :
    Total (within tempo e c) (executeLoop fuel deadline hopsLeft state) fun _ => within tempo e c := by
  induction hopsLeft generalizing state with
  | zero =>
      rw [executeLoop_eq]
      refine Total.seq (total_sendOne hd hmax hfuel hheads _) fun response => ?_
      dsimp only
      split
      · exact Total.pure fun _ _ h => h
      · exact Total.throw fun _ _ h => h
  | succ hopsLeft ih =>
      rw [executeLoop_eq]
      refine Total.seq (total_sendOne hd hmax hfuel hheads _) fun response => ?_
      dsimp only
      split
      · exact Total.pure fun _ _ h => h
      · exact Total.seq (total_follow hd hmax _ _ _) fun state' => ih state'

end Client

end

/-! ## Calls -/

section

variable {fuel : Nat} {t : Instant} {l : Local} {budget : Duration}

/-- The state a call begins in. -/
def beginsAt (tempo : Tempo) (e t : Instant) (l : Local) : (paced tempo e).Assertion Local where
  holds l' t' := l' = l ∧ t' = t
  stable henv h := by
    cases henv
    exact h

/-- The total of a call is set before anything else. -/
theorem total_begun {α : Type} {x : Config → RequestDeadline → M Error α}
    (hbudget : l.client.config.requestDeadline = some budget) (he : Instant.checkedAdd t budget = some e)
    (hx : ∀ d : RequestDeadline, d.expiresAt = some e →
      Total (within tempo e t) (x l.client.config d) fun _ => within tempo e t) :
    Total (beginsAt tempo e t l) (do
      let c ← M.client
      let deadline ← RequestDeadline.after c.config.requestDeadline
      x c.config deadline) fun _ => within tempo e t := by
  obtain ⟨hsum, -⟩ := Instant.checkedAdd_eq_some.mp he
  have hclient : Total (beginsAt tempo e t l) (M.client : M Error Client) (.onOk fun c =>
      ⟨fun l' t' => beginsAt tempo e t l l' t' ∧ c = l.client, fun henv h => by cases henv; exact h⟩) :=
    Total.look fun l₀ => Total.pure fun l' t' h => ⟨h.2, by rw [← h.1, h.2.1]⟩
  refine Total.after hclient fun c => Total.given (φ := c = l.client) (fun _ _ h => h.2) ?_
  rintro rfl
  rw [hbudget]
  have hafter : Total (W := paced tempo e)
      ⟨fun l' t' => beginsAt tempo e t l l' t' ∧ l.client = l.client, fun henv h => by cases henv; exact h⟩
      (RequestDeadline.after (some budget) : M Error RequestDeadline)
      (leaving tempo e t t fun d => d.expiresAt = some e) := by
    refine Total.after (R := fun now => ⟨fun l' t' => within tempo e t l' t' ∧ now = t, fun henv h => by cases henv; exact h⟩)
      (Total.call fun l' t' h => ?_) fun now => Total.pure fun l' t' h => ⟨h.1, ?_⟩
    · obtain ⟨⟨-, rfl⟩, -⟩ := h
      have hle : t' ≤ e + tempo.block := Nat.le_trans (hsum ▸ Nat.le_add_right _ _) (Nat.le_add_right e _)
      refine ⟨hle, fun r t'' hact => ?_⟩
      obtain ⟨rfl, rfl⟩ := hact
      exact ⟨⟨Nat.le_refl _, hle⟩, rfl⟩
    · rw [h.2, he]
  exact Total.leave hafter (fun _ _ _ h => h) hx

/-- In a run of a call that is in time, it is in time everywhere. -/
theorem in_time {x : M Error α} (hx : Total (beginsAt tempo e t l) x fun _ => within tempo e t)
    {p : Prog Sys (Except Error α × Local)} {s : Instant} (hrun : Prog.Reach (paced tempo e) (x l) t p s) :
    s ≤ e + tempo.block ∧ p ≠ .hang := by
  have htriple := hx.triple l t ⟨rfl, rfl⟩
  have huncut := Prog.uncut_sound (hx.uncut l t ⟨rfl, rfl⟩) hrun
  refine ⟨?_, huncut⟩
  cases p with
  | pure r => exact (Prog.wp_result htriple hrun).2
  | call op k => exact Prog.wp_sound htriple hrun
  | hang => exact absurd rfl huncut

section

variable (hbudget : l.client.config.requestDeadline = some budget) (he : Instant.checkedAdd t budget = some e)
  (hfuel : tempo.Enough e fuel t) (hheads : HeadData.MAX_INTERIM_RESPONSES < fuel)

include hbudget he hfuel hheads

theorem total_execute (params : RequestParams) :
    Total (beginsAt tempo e t l) (Client.execute fuel params) fun _ => within tempo e t :=
  total_begun (x := fun config d => Client.executeLoop fuel d config.maxRedirects (.new params)) hbudget he fun _ hd =>
    Client.total_executeLoop hd (Instant.checkedAdd_eq_some.mp he).2 hfuel hheads _ _

/-- The head of a streaming response comes in time; its body is the caller's business. -/
theorem total_executeStreaming (params : RequestParams) :
    Total (beginsAt tempo e t l) (Client.executeStreaming fuel params) fun _ => within tempo e t := by
  have hmax := (Instant.checkedAdd_eq_some.mp he).2
  refine total_begun (x := fun _ d => do
    Client.ensureCleanWithDeadline d
    let sent ← Client.sendHeadInterruptible fuel params d .never
    let reuse := sent.1.connectionReuse params.requestsClose
    let c ← M.client
    let tail := c.headBuf.drop sent.2.2
    M.modifyClient fun c => { c with dirty := true }
    let body ← StreamingBody.new true sent.2.1 tail c.config.streamSilence reuse.isKeep
    return (sent.1, body)) hbudget he fun d hd => ?_
  refine Total.seq (Client.total_ensureClean hd hmax) fun _ => ?_
  refine Total.seq (Client.total_sendHead hd hmax hfuel hheads params) fun sent => Total.after total_client fun client => ?_
  refine Total.after (total_modifyClient _) fun _ => Total.after (R := fun _ => within tempo e t) ?_ fun _ =>
    Total.pure fun _ _ h => h
  refine Total.after (R := fun _ => within tempo e t) ?_ fun budget => Total.pure fun _ _ h => h
  exact Total.after total_now fun _ => Total.pure fun _ _ h => h.1

omit hbudget hfuel hheads in
/-- Parameters that are refused cost no time. -/
theorem total_built {α : Type} (builder : RequestBuilder) {x : RequestParams → M Error α}
    (hx : ∀ params, Total (beginsAt tempo e t l) (x params) fun _ => within tempo e t) :
    Total (beginsAt tempo e t l) (Act.ofExcept builder.intoParams >>= x) fun _ => within tempo e t := by
  have hle : t ≤ e + tempo.block := by
    obtain ⟨rfl, -⟩ := Instant.checkedAdd_eq_some.mp he
    exact Nat.le_trans (Nat.le_add_right t budget) (Nat.le_add_right _ _)
  refine Total.bind (R := fun _ => beginsAt tempo e t l) (Total.ofExcept fun _ _ h => h) hx fun _ l' t' h => ?_
  rw [h.2]
  exact ⟨Nat.le_refl t, hle⟩

/-- **A bounded call returns in time.** With a `request_deadline`, and whatever the peer sends and however slowly, every
    run of `send` and of `request` goes on to a result, through all its redirects and its body, and is over at most one
    operation of the stream after the deadline; and so is that of `send_streaming`. -/
theorem bounded_calls_return :
    (∀ builder p s, Prog.Reach (paced tempo e) (Client.send fuel builder l) t p s → s ≤ e + tempo.block ∧ p ≠ .hang) ∧
    (∀ method path query body p s, Prog.Reach (paced tempo e) (Client.request fuel method path query body l) t p s →
      s ≤ e + tempo.block ∧ p ≠ .hang) ∧
    ∀ builder p s, Prog.Reach (paced tempo e) (Client.sendStreaming fuel builder l) t p s → s ≤ e + tempo.block ∧ p ≠ .hang := by
  refine ⟨fun builder p s hrun => ?_, fun method path query body p s hrun => ?_, fun builder p s hrun => ?_⟩
  · exact in_time (total_built he builder fun params => total_execute hbudget he hfuel hheads params) hrun
  · exact in_time (total_execute hbudget he hfuel hheads _) hrun
  · exact in_time (total_built he builder fun params => total_executeStreaming hbudget he hfuel hheads params) hrun

end

end

/-- A peer that accepts everything and answers one byte a second, forever. -/
def trickle (t : Instant) : (op : Op) → Option (op.Ret × Instant)
  | .now => some (t, t)
  | .connect _ _ | .setReadTimeout _ | .setWriteTimeout _ => some (.ok (), t)
  | .flush => some (.ok (), t + Config.seconds 1)
  | .write buf => some (.ok ⟨buf.length, Op.all_accepted buf⟩, t + Config.seconds 1)
  | .read len => some (.ok ⟨(ascii "H").take len, List.length_take_le _ _⟩, t + Config.seconds 1)
  | .isCancelled | .loadShuttingDown | .loadCancelAny | .loadCancelled _ => some (false, t)
  | .loadConsumerAlive _ | .push _ _ => some (true, t)
  | .pop | .popBlock => some (none, t)
  | .storeCancelAny _ | .storeStarted _ | .dropRequest _ | .mark _ => some ((), t)

/-- Operations that take between one second and thirty. -/
def unhurried : Tempo := ⟨Config.seconds 1, Config.seconds 30⟩

theorem paced_trickle {e t t' : Instant} {op : Op} {r : op.Ret} (h : trickle t op = some (r, t')) :
    (paced unhurried e).act t op r t' := by
  cases op with
  | now => cases h; exact ⟨rfl, rfl⟩
  | connect url d => cases h; exact ⟨Nat.le_refl _, fun e _ => Nat.le_max_left _ _⟩
  | read len => cases h; exact ⟨Nat.le_refl _, Nat.add_le_add_left (by decide) _⟩
  | write buf => cases h; exact ⟨Nat.le_refl _, Nat.add_le_add_left (by decide) _⟩
  | flush => cases h; exact ⟨Nat.le_refl _, Nat.add_le_add_left (by decide) _⟩
  | _ => cases h; rfl

/-- A client that gives a request five seconds. -/
def patient : Local := ⟨.fresh { Config.default with requestDeadline := some (Config.seconds 5) } 65536
  ⟨.http, ascii "a", none, ascii "/", none, none⟩, [], false⟩

/-- The bytes come often enough for the silence budget. The call is over when its five seconds are. -/
theorem bounded_calls_return_trickle : ∃ l, ∃ s ≤ Config.seconds 5 + Config.seconds 30, s = Config.seconds 5 ∧
    Prog.Reach (paced unhurried (Config.seconds 5)) (Client.request 40 .get (ascii "/") none none patient) (0 : Nat)
      (.pure (.error (.connection .requestDeadlineExceeded), l)) s := by
  have hrun : (Prog.enact (A := Empty) trickle (fun _ a => a.elim) (List.replicate 20 none)
      (Client.request 40 .get (ascii "/") none none patient) (0 : Nat)).map (fun c => (c.1.result?.map Prod.fst, c.2)) =
      some (some (.error (.connection .requestDeadlineExceeded)), Config.seconds 5) := by
    decide +kernel
  obtain ⟨⟨p, s⟩, henact, heq⟩ := Option.map_eq_some_iff.mp hrun
  obtain ⟨hresult, heq⟩ := Prod.mk.inj heq
  obtain ⟨⟨r, l⟩, hp, rfl⟩ := Option.map_eq_some_iff.mp hresult
  obtain rfl := Prog.result?_eq_some hp
  have hreach : Prog.Reach (paced unhurried (Config.seconds 5)) _ _ _ s :=
    Prog.reach_enact (fun _ _ _ _ h => paced_trickle h) (fun _ a => a.elim) henact (.refl _ _)
  have henough : unhurried.Enough (Config.seconds 5) 40 0 := by
    unfold Tempo.Enough
    decide
  have hintime := (bounded_calls_return rfl (by decide) henough (by decide)).2.1 .get (ascii "/") none none _ s hreach
  exact ⟨l, s, hintime.1, heq, hreach⟩

end Xibalba
