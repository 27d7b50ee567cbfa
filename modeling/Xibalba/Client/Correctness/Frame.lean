import Xibalba.Lib.Wp
import Xibalba.Client.Reader

/-!
# `Client.Correctness.Frame` — the client's own work, in any world

What the client does for a request (reading the clock, connecting, using its stream, asking the interrupt) leaves
alone whatever those operations and the interrupt leave alone. `Carried` says that an assertion is of this kind, and
`Settled` that it is as long as the client does not connect; every function the reader thread calls on its client keeps
it. The reads of a streaming body say more: an error that is marked as a cancellation comes from the stream (`onMark`).
-/

namespace Xibalba

open Act (Keeps Triple)

/-- The operations of a client at work. -/
def Op.isWire : Op → Bool
  | .now | .connect _ _ | .setReadTimeout _ | .setWriteTimeout _ | .read _ | .write _ | .flush => true
  | .mark (.exchange _ _) | .mark (.response _ _) => true
  | _ => false

variable {σ ε : Type} {W : World Sys σ} {I : W.Assertion Local}

/-- The operations of a client at work on one connection. -/
def Op.isLocal (op : Op) : Bool :=
  match op with
  | .connect _ _ => false
  | op => op.isWire

theorem Op.isWire_of_isLocal {op : Op} (h : op.isLocal) : op.isWire := by
  cases op with
  | connect url d => rfl
  | _ => exact h

/-- An assertion the client's own operations cannot break. -/
structure Carried (I : W.Assertion Local) : Prop where
  client : ∀ l s c, I l s → I { l with client := c } s
  wire : ∀ op : Op, op.isWire → ∀ l s, I l s → W.guard s op ∧ ∀ r s', W.act s op r s' → I l s'

/-- An assertion the client's operations on one connection cannot break. It may be about the configuration. -/
structure Settled (I : W.Assertion Local) : Prop where
  client : ∀ l s c, c.config = l.client.config → I l s → I { l with client := c } s
  wire : ∀ op : Op, op.isLocal → ∀ l s, I l s → W.guard s op ∧ ∀ r s', W.act s op r s' → I l s'

/-- The operations of reading a response, apart from the reads. -/
def Op.isListening : Op → Bool
  | .now | .mark (.response _ _) => true
  | _ => false

/-- An assertion that reading a response does not break, apart from the reads. It may be about the configuration and
    the origin. -/
structure Listening (I : W.Assertion Local) : Prop where
  client : ∀ l s c, c.config = l.client.config ∧ c.origin = l.client.origin → I l s → I { l with client := c } s
  wire : ∀ op : Op, op.isListening → ∀ l s, I l s → W.guard s op ∧ ∀ r s', W.act s op r s' → I l s'

/-- An assertion that reading a response does not break. -/
structure Hearing (I : W.Assertion Local) : Prop where
  listening : Listening I
  read : ∀ len l s, I l s → W.guard s (.read len) ∧ ∀ r s', W.act s (.read len) r s' → I l s'

theorem Op.isLocal_of_isListening {op : Op} (h : op.isListening) : op.isLocal := by
  cases op with
  | now => rfl
  | mark m =>
      cases m with
      | response acc headEnd => rfl
      | _ => cases h
  | _ => cases h

/-- What is settled survives reading a response. -/
theorem Settled.listening (hI : Settled I) : Listening I where
  client l s c hc := hI.client l s c hc.1
  wire op hop := hI.wire op (Op.isLocal_of_isListening hop)

theorem Settled.hearing (hI : Settled I) : Hearing I where
  listening := hI.listening
  read len := hI.wire (.read len) rfl

instance : Coe (Settled I) (Listening I) := ⟨Settled.listening⟩

instance : Coe (Settled I) (Hearing I) := ⟨Settled.hearing⟩

/-- What is carried is settled. -/
theorem Carried.settled (hI : Carried I) : Settled I where
  client l s c _ h := hI.client l s c h
  wire op hop := hI.wire op (Op.isWire_of_isLocal hop)

/-- A stream whose operations keep an assertion. -/
structure Stream.Keeping (I : W.Assertion Local) (stream : Stream) : Prop where
  read : ∀ len, Keeps I (stream.read len)
  write : ∀ buf, Keeps I (stream.write buf)
  flush : Keeps I stream.flush

theorem Keeps.pure {α : Type} (a : α) : Keeps I (pure a : M ε α) := Triple.pure fun _ _ h => h

theorem Keeps.throw {α : Type} (e : ε) : Keeps I (Act.throw e : M ε α) := Triple.throw fun _ _ h => h

theorem Keeps.ofExcept {α : Type} (r : Except ε α) : Keeps I (Act.ofExcept r : M ε α) := Triple.ofExcept fun _ _ h => h

theorem Keeps.get : Keeps I (Act.get : M ε Local) := Triple.get fun _ _ h => h

theorem Keeps.attempt {ε' α : Type} {x : M ε α} (hx : Keeps I x) : Keeps I (Act.attempt x : M ε' (Except ε α)) :=
  Triple.attempt hx fun _ _ _ h => h

theorem Keeps.mapError {ε' α : Type} {f : ε → ε'} {x : M ε α} (hx : Keeps I x) : Keeps I (Act.mapError f x) :=
  Triple.mapError hx fun _ _ _ h => h

/-- Looking at the client. -/
theorem Keeps.client : Keeps I (M.client : M ε Client) := Triple.seq Keeps.get fun _ => Keeps.pure _

/-- The rule for a look at the client. -/
theorem Triple.lookClient {β : Type} {Q : Except ε β → W.Assertion Local} {f : Client → M ε β}
    (hf : ∀ l₀ : Local, Triple (I.at l₀) (f l₀.client) Q) : Triple I (M.client >>= f) Q := by
  have hclient : Act.Sure I (M.client : M ε Client) fun c => ⟨fun l s => l.client = c ∧ I l s, fun henv h => ⟨h.1, I.stable henv h.2⟩⟩ :=
    Triple.after (R := I.at) (Triple.get fun _ _ h => ⟨rfl, h⟩) fun l₀ => Triple.pure fun l s h => ⟨by rw [h.1], h.2⟩
  refine Triple.after hclient fun c l s h => ?_
  obtain ⟨rfl, h⟩ := h
  exact hf l l s ⟨rfl, h⟩

/-- Asking an interrupt keeps what its action keeps. -/
theorem Interrupt.keeps_isCancelled {i : Interrupt} (hi : Keeps I (i : M Empty Bool)) :
    Keeps I (i.isCancelled : M ε Bool) :=
  Keeps.mapError hi

section

variable (hL : Listening I)

include hL

/-- A change of the client that leaves the configuration and the origin. -/
theorem Listening.modifyClient (f : Client → Client) (hf : ∀ c, (f c).config = c.config ∧ (f c).origin = c.origin) :
    Keeps I (M.modifyClient f : M ε Unit) :=
  Triple.modify fun l s h => hL.client l s _ (hf l.client) h

/-- An operation of reading a response. -/
theorem Listening.call {op : Op} (hop : op.isListening) : Keeps I (Act.call (S := Sys) op : M ε op.Ret) :=
  Triple.call fun l s h => hL.wire op hop l s h

theorem Listening.sure {op : Op} (hop : op.isListening) : Act.Sure I (Act.call (S := Sys) op : M ε op.Ret) fun _ => I :=
  Triple.call fun l s h => hL.wire op hop l s h

end

section

/-- A new connection. -/
theorem Carried.connect (hI : Carried I) (url : Url) (d : Deadline) : Keeps I (M.connect url d) :=
  Triple.seq (Triple.call fun l s h => hI.wire _ rfl l s h) fun _ => Keeps.ofExcept _

variable (hI : Settled I)

include hI

/-- A change of the client that leaves the configuration. -/
theorem Settled.modifyClient (f : Client → Client) (hf : ∀ c, (f c).config = c.config) :
    Keeps I (M.modifyClient f : M ε Unit) :=
  Triple.modify fun l s h => hI.client l s _ (hf l.client) h

/-- An operation on the connection. -/
theorem Settled.call {op : Op} (hop : op.isLocal) : Keeps I (Act.call (S := Sys) op : M ε op.Ret) :=
  Triple.call fun l s h => hI.wire op hop l s h

/-! ## Streams and budgets -/

/-- The stream itself keeps what the operations on the connection keep. -/
theorem Stream.keeping_raw : Stream.raw.Keeping I where
  read _ := Triple.seq (hI.call rfl) fun _ => Keeps.ofExcept _
  write _ := Triple.seq (hI.call rfl) fun _ => Keeps.ofExcept _
  flush := Triple.seq (hI.call rfl) fun _ => Keeps.ofExcept _

omit hI in
/-- A guard that throws, and what follows it. -/
theorem Keeps.orThrow {α : Type} {c : Prop} [Decidable c] {e : ε} {x : M ε α} (hx : Keeps I x) :
    Keeps I (if c then (Act.throw e : M ε Unit) >>= fun _ => x else x) :=
  Triple.ite (Triple.seq (Keeps.throw e) fun _ => hx) hx

omit hI in
/-- A check that may stop what comes next. -/
theorem keeps_unless {α : Type} {c : M ε Bool} (hc : Keeps I c) {e : ε} {x : M ε α} (hx : Keeps I x) :
    Keeps I (do
      if ← c then Act.throw e
      x) := by
  refine Triple.seq hc fun stop => ?_
  cases stop with
  | true => exact Triple.seq (Keeps.throw e) fun _ => hx
  | false => exact hx

omit hI in
theorem Hearing.keeps_raw (hR : Hearing I) (len : Nat) : Keeps I (Stream.raw.read len) :=
  Triple.seq (Triple.call fun l s h => hR.read len l s h) fun _ => Keeps.ofExcept _

omit hI in
/-- An interruptible read asks the interrupt and reads. -/
theorem Hearing.keeps_interruptible (hR : Hearing I) {i : Interrupt} (hi : Keeps I (i : M Empty Bool)) (len : Nat) :
    Keeps I ((Stream.interruptible i).read len) :=
  keeps_unless (i.keeps_isCancelled hi) (hR.keeps_raw len)

/-- The interruptible stream keeps what the operations and the interrupt keep. -/
theorem Stream.keeping_interruptible {i : Interrupt} (hi : Keeps I (i : M Empty Bool)) :
    (Stream.interruptible i).Keeping I where
  read len := keeps_unless (i.keeps_isCancelled hi) ((keeping_raw hI).read len)
  write buf := keeps_unless (i.keeps_isCancelled hi) ((keeping_raw hI).write buf)
  flush := keeps_unless (i.keeps_isCancelled hi) (keeping_raw hI).flush

omit hI in
theorem RequestDeadline.keeps_after (hL : Listening I) (budget : Option Duration) :
    Keeps I (after budget : M ε RequestDeadline) := by
  cases budget with
  | none => exact Keeps.pure _
  | some b => exact Triple.seq (hL.call rfl) fun _ => Keeps.pure _

omit hI in
/-- Of a deadline only the clock is asked. -/
theorem RequestDeadline.keeps_expired (hL : Listening I) (d : RequestDeadline) : Keeps I (d.expired : M ε Bool) := by
  unfold expired
  cases d.expiresAt with
  | none => exact Keeps.pure _
  | some t => exact Triple.seq (hL.call rfl) fun _ => Keeps.pure _

omit hI in
theorem RequestDeadline.keeps_checkIo (hL : Listening I) (d : RequestDeadline) : Keeps I d.checkIo := by
  refine Triple.seq (d.keeps_expired hL) fun b => ?_
  cases b with
  | true => exact Keeps.throw _
  | false => exact Keeps.pure _

omit hI in
theorem RequestDeadline.keeps_check (hL : Listening I) (d : RequestDeadline) : Keeps I d.check := by
  refine Triple.seq (d.keeps_expired hL) fun b => ?_
  cases b with
  | true => exact Keeps.throw _
  | false => exact Keeps.pure _

omit hI in
/-- The deadline for connecting asks the clock too. -/
theorem RequestDeadline.keeps_connectDeadline (hL : Listening I) (d : RequestDeadline) (fallback : Deadline) :
    Keeps I (d.connectDeadline fallback : M ε Deadline) := by
  unfold connectDeadline
  cases d.expiresAt with
  | none => exact Keeps.pure _
  | some t => exact Triple.seq (hL.call rfl) fun _ => Triple.seq (hL.call rfl) fun _ => Keeps.pure _

omit hI in
theorem Config.keeps_connectDeadline (hL : Listening I) (c : Config) : Keeps I (c.connectDeadline : M ε Deadline) := by
  unfold connectDeadline
  cases c.connectTimeout with
  | none => exact Keeps.pure _
  | some t => exact Triple.seq (hL.call rfl) fun _ => Keeps.pure _

omit hI in
/-- A new silence budget starts the clock. -/
theorem SilenceBudget.keeps_withDeadline (hL : Listening I) (limit : Duration) (d : RequestDeadline) :
    Keeps I (withDeadline limit d : M ε SilenceBudget) :=
  Triple.seq (hL.call rfl) fun _ => Keeps.pure _

omit hI in
theorem WriteBudget.keeps_withDeadline (hL : Listening I) (limit : Duration) (d : RequestDeadline) :
    Keeps I (withDeadline limit d : M ε WriteBudget) :=
  Triple.seq (hL.call rfl) fun _ => Keeps.pure _

omit hI in
/-- What follows a timeout tick: the budget is used up, or the operation is tried again. -/
theorem keeps_tick (hL : Listening I) {α : Type} (last : Instant) (limit : Duration) (e : StdIoError)
    {x : M StdIoError α} (hx : Keeps I x) :
    Keeps I (do
      if (← M.now) - last ≥ limit then Act.throw e
      x) := by
  refine Triple.seq (hL.call rfl) fun t => ?_
  split
  · exact Triple.seq (Keeps.throw _) fun _ => hx
  · exact hx

omit hI in
/-- Writing under a budget, however the bytes are accepted. -/
theorem WriteBudget.keeps_writeAllRaw (hL : Listening I) {stream : Stream} (hs : stream.Keeping I) (fuel : Nat)
    (b : WriteBudget) (buf : Bytes) : Keeps I (writeAllRaw stream fuel b buf) := by
  induction fuel generalizing b buf with
  | zero => exact Triple.hang
  | succ fuel ih =>
      unfold writeAllRaw
      split
      · exact Keeps.pure _
      refine Triple.seq (b.deadline.keeps_checkIo hL) fun _ => Triple.seq (Keeps.attempt (hs.write buf)) fun r => ?_
      cases r with
      | ok n =>
          dsimp only
          split
          · exact Triple.seq (Keeps.throw _) fun _ => Triple.seq (hL.call rfl) fun _ => ih _ _
          · exact Triple.seq (hL.call rfl) fun _ => ih _ _
      | error e =>
          dsimp only
          split
          · exact keeps_tick hL _ _ _ (ih b buf)
          · exact Keeps.throw _

omit hI in
theorem WriteBudget.keeps_flush (hL : Listening I) {stream : Stream} (hs : Keeps I stream.flush) (fuel : Nat) (b : WriteBudget) :
    Keeps I (flush stream fuel b) := by
  induction fuel with
  | zero => exact Triple.hang
  | succ fuel ih =>
      refine Triple.seq (b.deadline.keeps_checkIo hL) fun _ => Triple.seq (Keeps.attempt hs) fun r => ?_
      cases r with
      | ok u => exact Keeps.pure _
      | error e =>
          dsimp only
          split
          · exact keeps_tick hL _ _ _ ih
          · exact Keeps.throw _

/-! ## Reads, and what a marked error says -/

omit hI in
/-- `I`, and `E` with it when the result is an error marked as a cancellation. -/
def onMark (I E : W.Assertion Local) {α : Type} (r : Except StdIoError α) : W.Assertion Local where
  holds l s := I l s ∧ ∀ e, r = .error e → Cancelled.marks e = true → E l s
  stable henv h := ⟨I.stable henv h.1, fun e he hm => E.stable henv (h.2 e he hm)⟩

variable {E : W.Assertion Local}

omit hI in
/-- An error that is no cancellation. -/
theorem throw_onMark {α : Type} {e : StdIoError} (he : Cancelled.marks e = false) :
    Triple I (Act.throw e : M StdIoError α) (onMark I E) := by
  refine Triple.throw fun l s h => ⟨h, fun e' he' hm => ?_⟩
  rw [← Except.error.inj he', he] at hm
  cases hm

omit hI in
theorem pure_onMark {α : Type} (a : α) : Triple I (pure a : M StdIoError α) (onMark I E) :=
  Triple.pure fun _ _ h => ⟨h, nofun⟩

/-- An operation on the connection does not fail by itself. -/
theorem Settled.sure {op : Op} (hop : op.isLocal) : Act.Sure I (Act.call (S := Sys) op : M ε op.Ret) fun _ => I :=
  Triple.call fun l s h => hI.wire op hop l s h

omit hI in
theorem RequestDeadline.sure_expired (hL : Listening I) (d : RequestDeadline) :
    Act.Sure I (d.expired : M ε Bool) fun _ => I := by
  unfold expired
  cases d.expiresAt with
  | none => exact Triple.pure fun _ _ h => h
  | some t => exact Triple.after (hL.sure rfl) fun _ => Triple.pure fun _ _ h => h

omit hI in
theorem SilenceBudget.triple_read (hL : Listening I) {stream : Stream} {len : Nat}
    (hs : Triple I (stream.read len) (onMark I E)) (fuel : Nat) (b : SilenceBudget) : Triple I (read stream len fuel b) (onMark I E) := by
  have herr : ∀ {α β : Type} (e : StdIoError) (l : Local) (s : σ), onMark I E (.error e : Except StdIoError α) l s →
      onMark I E (.error e : Except StdIoError β) l s := by
    intro α β e l s h
    exact ⟨h.1, fun e' he => h.2 e' (by rw [Except.error.inj he])⟩
  induction fuel generalizing b with
  | zero => exact Triple.hang
  | succ fuel ih =>
      -- a guard that throws leaves no mark
      have hunless : ∀ {α : Type} {c : Prop} [Decidable c] {e : StdIoError} {x : M StdIoError α}, Cancelled.marks e = false →
          Triple I x (onMark I E) →
          Triple I (if c then (Act.throw e : M StdIoError Unit) >>= fun _ => x else x) (onMark I E) := by
        intro α c _ e x he hx
        refine Triple.ite (Triple.bind (throw_onMark he) (fun _ => ?_) herr) hx
        exact Triple.conseq hx (fun _ _ h => h.1) fun _ _ _ h => h
      refine Triple.after (b.deadline.sure_expired hL) fun stop => hunless rfl ?_
      refine Triple.after (Triple.attempt hs fun _ _ _ h => h) fun r => ?_
      cases r with
      | ok bs =>
          refine Triple.conseq (Triple.after (hL.sure rfl) fun _ => pure_onMark _) (fun _ _ h => ?_) fun _ _ _ h => h
          exact h.1
      | error e =>
          dsimp only
          split
          · refine Triple.conseq (Triple.after (hL.sure rfl) fun t => ?_) (fun _ _ h => h.1) fun _ _ _ h => h
            exact hunless rfl (ih b)
          · refine Triple.throw fun l s h => ⟨h.1, fun e' he => h.2 e' ?_⟩
            rw [Except.error.inj he]

omit hI in
/-- A read under a budget, however often it ticks. -/
theorem SilenceBudget.keeps_read (hL : Listening I) {stream : Stream} (hs : ∀ len, Keeps I (stream.read len))
    (len fuel : Nat) (b : SilenceBudget) : Keeps I (read stream len fuel b) := by
  have hread : Triple I (stream.read len) (onMark I I) :=
    Triple.conseq (hs len) (fun _ _ h => h) fun _ _ _ h => ⟨h, fun _ _ _ => h⟩
  exact Triple.conseq (triple_read hL hread fuel b) (fun _ _ h => h) fun _ _ _ h => h.1

omit hI in
/-- A read of exactly so many bytes. -/
theorem SilenceBudget.keeps_readExact (hL : Listening I) {stream : Stream} (hs : ∀ len, Keeps I (stream.read len))
    (fuel turns : Nat) (b : SilenceBudget) (need : Nat) (got : Bytes) : Keeps I (readExact stream fuel turns b need got) := by
  induction turns generalizing b need got with
  | zero => exact Triple.hang
  | succ turns ih =>
      unfold readExact
      split
      · exact Keeps.pure _
      refine Triple.seq (keeps_read hL hs need fuel b) fun r => ?_
      dsimp only
      split
      · exact Triple.seq (Keeps.throw _) fun _ => ih _ _ _
      · exact ih _ _ _

/-! ## One request -/

omit hI in
/-- Reading up to the end of a head. -/
theorem HeadData.keeps_readUntilHeadEnd (hL : Listening I) {stream : Stream} (hs : ∀ len, Keeps I (stream.read len))
    (maxHead fuel turns scanned : Nat) (budget : SilenceBudget) : Keeps I (readUntilHeadEnd stream maxHead fuel turns scanned budget) := by
  induction turns generalizing scanned budget with
  | zero => exact Triple.hang
  | succ turns ih =>
      unfold readUntilHeadEnd
      refine Triple.seq Keeps.client fun c => ?_
      dsimp only
      split
      · split
        · exact Keeps.throw _
        · exact Keeps.pure _
      refine Keeps.orThrow (Triple.seq (Keeps.mapError (SilenceBudget.keeps_read hL hs _ fuel budget)) fun r => ?_)
      refine Keeps.orThrow (Triple.seq (hL.modifyClient _ fun _ => ⟨rfl, rfl⟩) fun _ => ?_)
      exact ih c.headBuf.length r.2

omit hI in
theorem HeadData.keeps_readFinalHead (hL : Listening I) {stream : Stream} (hs : ∀ len, Keeps I (stream.read len))
    (maxHead : Nat) (method : Method) (fuel turns interimSeen : Nat) (budget : SilenceBudget) :
    Keeps I (readFinalHead stream maxHead method fuel turns interimSeen budget) := by
  induction turns generalizing interimSeen budget with
  | zero => exact Triple.hang
  | succ turns ih =>
      unfold readFinalHead
      refine Triple.seq (keeps_readUntilHeadEnd hL hs maxHead fuel fuel 0 budget) fun r => ?_
      refine Triple.seq Keeps.client fun c => Triple.seq (Keeps.ofExcept _) fun parsed => ?_
      have hnext := Triple.seq (hL.modifyClient (ε := Error) (fun c => { c with headBuf := c.headBuf.drop r.1 }) fun _ => ⟨rfl, rfl⟩)
        fun _ => ih (interimSeen + 1) r.2
      dsimp only
      split
      · split
        · exact Triple.seq (Keeps.throw _) fun _ => hnext
        · exact hnext
      · exact Keeps.ofExcept _

omit hI in
/-- **`read_response`** keeps what the reads keep. -/
theorem HeadData.keeps_readResponse (hL : Listening I) {stream : Stream} (hs : ∀ len, Keeps I (stream.read len))
    (maxHead : Nat) (silence : Duration) (deadline : RequestDeadline) (method : Method) (fuel : Nat) :
    Keeps I (readResponse stream maxHead silence deadline method fuel) := by
  refine Triple.seq (hL.modifyClient _ fun _ => ⟨rfl, rfl⟩) fun _ => ?_
  refine Triple.seq (SilenceBudget.keeps_withDeadline hL _ _) fun budget => ?_
  refine Triple.seq (keeps_readFinalHead hL hs maxHead method fuel fuel 0 budget) fun final => ?_
  refine Triple.seq Keeps.client fun c => Triple.seq (Keeps.ofExcept _) fun data => ?_
  exact Triple.seq (hL.call rfl) fun _ => Keeps.pure _

namespace Client

theorem keeps_applyTimeouts : Keeps I applyTimeouts := by
  refine Triple.seq Keeps.client fun c => ?_
  refine Triple.seq (Keeps.mapError (Triple.seq (hI.call rfl) fun _ => Keeps.ofExcept _)) fun _ => ?_
  exact Keeps.mapError (Triple.seq (hI.call rfl) fun _ => Keeps.ofExcept _)

omit hI in
/-- A new connection, bound to its origin. -/
theorem keeps_reconnectWithDeadline (hC : Carried I) (url : Url) (deadline : RequestDeadline) :
    Keeps I (reconnectWithDeadline url deadline) := by
  have hI := hC.settled
  refine Triple.seq (deadline.keeps_check hI.listening) fun _ => Triple.seq Keeps.client fun c => ?_
  refine Triple.seq (c.config.keeps_connectDeadline hI.listening) fun fallback => ?_
  refine Triple.seq (deadline.keeps_connectDeadline hI.listening fallback) fun d => ?_
  refine Triple.seq (hC.connect url d) fun _ => Triple.seq (hI.modifyClient _ fun _ => rfl) fun _ => ?_
  exact Triple.seq (keeps_applyTimeouts hI) fun _ => hI.modifyClient _ fun _ => rfl

omit hI in
theorem keeps_reconnectSameHost (hC : Carried I) (deadline : RequestDeadline) :
    Keeps I (reconnectSameHostWithDeadline deadline) :=
  Triple.seq Keeps.client fun _ => keeps_reconnectWithDeadline hC _ deadline

omit hI in
/-- Only a dirty connection is replaced. -/
theorem keeps_ensureClean {deadline : RequestDeadline} (hr : Keeps I (reconnectSameHostWithDeadline deadline)) :
    Keeps I (ensureCleanWithDeadline deadline) := by
  refine Triple.seq Keeps.client fun c => ?_
  split
  · exact hr
  · exact Keeps.pure _

omit hI in
/-- The head of a request, its body and the flush. -/
theorem keeps_writeRequest (hL : Listening I) {wire : Stream} (hs : wire.Keeping I) (fuel : Nat) (budget : WriteBudget)
    (body : Option Bytes) : Keeps I (writeRequest wire fuel budget body) := by
  have hwrite : ∀ (b : WriteBudget) buf, Keeps I (b.writeAllProto wire fuel buf) :=
    fun b buf => Keeps.mapError (WriteBudget.keeps_writeAllRaw hL hs fuel b buf)
  have hflush : ∀ b : WriteBudget, Keeps I (b.flushProto wire fuel) :=
    fun b => Keeps.mapError (WriteBudget.keeps_flush hL hs.flush fuel b)
  refine Triple.seq Keeps.client fun c => ?_
  cases body with
  | none => exact Triple.seq (hwrite _ _) fun b => hflush b
  | some data =>
      dsimp only
      split
      · exact Triple.seq (hL.modifyClient _ fun _ => ⟨rfl, rfl⟩) fun _ => Triple.seq (hwrite _ _) fun b => hflush b
      · exact Triple.seq (hwrite _ _) fun b => Triple.seq (hwrite b _) fun b => hflush b

/-- **One attempt to send a request** and to read the head of its response. -/
theorem keeps_sendHeadOnce {i : Interrupt} (hi : Keeps I (i : M Empty Bool)) (fuel : Nat) (params : RequestParams)
    (deadline : RequestDeadline) : Keeps I (sendHeadOnce fuel params deadline i) := by
  have hs := Stream.keeping_interruptible hI hi
  refine Triple.seq (deadline.keeps_check hI.listening) fun _ => ?_
  have hgo : Keeps I (do
      M.modifyClient fun c => { c with headBuf := [] }
      let c ← M.client
      let request := requestFor c.origin params
      M.modifyClient fun c => { c with writeBuf := [] }
      let head ← Act.mapError Error.ofStdIo (Act.ofExcept request.serializeToWriter)
      M.modifyClient fun c => { c with writeBuf := head }
      discardPartialResponse
      M.mark (.exchange params request)
      let budget ← WriteBudget.withDeadline c.config.headSilence deadline
      let wire := Stream.interruptible i
      writeRequest wire fuel budget params.body
      HeadData.readResponse wire c.maxHeadSize c.config.headSilence deadline params.method fuel) := by
    refine Triple.seq (hI.modifyClient _ fun _ => rfl) fun _ => Triple.seq Keeps.client fun c => ?_
    refine Triple.seq (hI.modifyClient _ fun _ => rfl) fun _ => Triple.seq (Keeps.mapError (Keeps.ofExcept _)) fun head => ?_
    refine Triple.seq (hI.modifyClient _ fun _ => rfl) fun _ => Triple.seq (hI.modifyClient _ fun _ => rfl) fun _ => ?_
    refine Triple.seq (hI.call rfl) fun _ => Triple.seq (WriteBudget.keeps_withDeadline hI.listening _ _) fun budget => ?_
    refine Triple.seq (keeps_writeRequest hI.listening hs fuel budget _) fun _ => ?_
    exact HeadData.keeps_readResponse hI.listening hs.read _ _ _ _ fuel
  split
  · exact Triple.seq (Keeps.throw _) fun _ => hgo
  · exact hgo

omit hI in
/-- The replay keeps what one request keeps. -/
theorem keeps_replayed {i : Interrupt} (hi : Keeps I (i : M Empty Bool)) {deadline : RequestDeadline}
    (hr : Keeps I (reconnectSameHostWithDeadline deadline)) {fuel : Nat} {params : RequestParams}
    (hsend : Keeps I (sendHeadOnce fuel params deadline i)) : Keeps I (sendHeadInterruptible fuel params deadline i) := by
  refine Triple.seq (Keeps.attempt hsend) fun r => ?_
  cases r with
  | ok head => exact Keeps.pure _
  | error e =>
      refine Triple.seq Keeps.client fun c => ?_
      dsimp only
      split
      · exact keeps_unless (i.keeps_isCancelled hi) (Triple.seq hr fun _ => hsend)
      · exact Keeps.throw _

/-- **One request**, with its replay. -/
theorem keeps_sendHeadInterruptible {i : Interrupt} (hi : Keeps I (i : M Empty Bool)) {deadline : RequestDeadline}
    (hr : Keeps I (reconnectSameHostWithDeadline deadline)) (fuel : Nat) (params : RequestParams) :
    Keeps I (sendHeadInterruptible fuel params deadline i) :=
  keeps_replayed hi hr (keeps_sendHeadOnce hI hi fuel params deadline)

end Client

end

/-! ## Bodies -/

section

variable (hL : Listening I) {E : W.Assertion Local}

include hL

namespace BodyCollector

omit hL in
theorem keeps_pumped (maxBody : Nat) (whileInput : Bool) (decoder : ChunkedDecoder) (body input : Bytes) :
    Keeps I (pumped maxBody whileInput decoder body input) := by
  unfold pumped
  split
  · exact Keeps.pure _
  · exact Triple.hang

/-- The rest of a chunked body. -/
theorem keeps_readChunkedMore {stream : Stream} (hs : ∀ len, Keeps I (stream.read len)) (maxBody fuel turns : Nat)
    (budget : SilenceBudget) (decoder : ChunkedDecoder) (body : Bytes) :
    Keeps I (readChunkedMore stream maxBody fuel turns budget decoder body) := by
  induction turns generalizing budget decoder body with
  | zero => exact Triple.hang
  | succ turns ih =>
      unfold readChunkedMore
      refine Triple.seq (Keeps.mapError (SilenceBudget.keeps_read hL hs _ fuel budget)) fun r => ?_
      dsimp only
      refine Keeps.orThrow (Triple.seq (keeps_pumped _ _ _ _ _) fun p => ?_)
      cases p with
      | needMore decoder body => exact ih _ _ _
      | done body leftover => exact Keeps.pure _
      | error e => exact Keeps.throw _

theorem keeps_readUntilClose {stream : Stream} (hs : ∀ len, Keeps I (stream.read len)) (maxBody fuel turns : Nat)
    (budget : SilenceBudget) (body : Bytes) : Keeps I (readUntilClose stream maxBody fuel turns budget body) := by
  induction turns generalizing budget body with
  | zero => exact Triple.hang
  | succ turns ih =>
      unfold readUntilClose
      refine Keeps.orThrow (Triple.seq (Keeps.mapError (SilenceBudget.keeps_read hL hs _ fuel budget)) fun r => ?_)
      dsimp only
      split
      · exact Keeps.pure _
      · exact ih _ _

theorem listening_read {stream : Stream} (hs : ∀ len, Keeps I (stream.read len)) (maxBody fuel : Nat) (budget : SilenceBudget)
    (framing : BodyFraming) (tail : Bytes) : Keeps I (read stream maxBody fuel budget framing tail) := by
  cases framing with
  | none => exact Keeps.pure _
  | contentLength len =>
      have hrest : Keeps I (do
          let rest ← budget.readExactProto stream fuel (len - (tail.take len).length)
          return (tail.take len ++ rest, (tail.length ≤ len : Bool))) :=
        Triple.seq (Keeps.mapError (SilenceBudget.keeps_readExact hL hs fuel fuel budget _ _)) fun _ => Keeps.pure _
      unfold read readContentLength
      dsimp only
      split
      · refine Triple.seq (Keeps.throw _) fun _ => ?_
        split
        · exact hrest
        · exact Keeps.pure _
      · split
        · exact hrest
        · exact Keeps.pure _
  | chunked =>
      refine Triple.seq (keeps_pumped _ _ _ _ _) fun p => ?_
      cases p with
      | needMore decoder body => exact keeps_readChunkedMore hL hs maxBody fuel fuel budget decoder body
      | done body leftover => exact Keeps.pure _
      | error e => exact Keeps.throw _
  | untilClose => exact Triple.seq (keeps_readUntilClose hL hs maxBody fuel fuel budget tail) fun _ => Keeps.pure _

omit hL in
/-- **Collecting a body**, of any framing. -/
theorem keeps_read (hI : Settled I) {stream : Stream} (hs : stream.Keeping I) (maxBody fuel : Nat) (budget : SilenceBudget)
    (framing : BodyFraming) (tail : Bytes) : Keeps I (read stream maxBody fuel budget framing tail) :=
  listening_read hI hs.read maxBody fuel budget framing tail

end BodyCollector

namespace StreamingBody

omit hL in
/-- `I`, and `E` with it when an operation of the body failed with an error marked as a cancellation. -/
def outcome (I E : W.Assertion Local) {α : Type} (o : Outcome α) : W.Assertion Local := onMark I E o.1

/-- A new streaming body. -/
theorem sure_new (dirty : Bool) (framing : BodyFraming) (tail : Bytes) (silence : Duration) (reusable : Bool) :
    Act.Sure I (new dirty framing tail silence reusable : M ε StreamingBody) fun _ => I := by
  refine Triple.after (R := fun _ => I) (Triple.after (hL.sure rfl) fun _ => ?_) fun _ => ?_
  · exact Triple.pure fun _ _ h => h
  · exact Triple.pure fun _ _ h => h

variable {stream : Stream} (hs : Triple I (stream.read HEAD_BUF_SIZE) (onMark I E))

include hs

/-- A refill fails as the stream does: an error marked as a cancellation is the stream's. -/
theorem sure_refill (fuel : Nat) (b : StreamingBody) :
    Act.Sure I (refill stream fuel b : M ε (Outcome Bool)) (outcome I E) := by
  unfold refill
  split
  · exact Triple.pure fun _ _ h => ⟨h, nofun⟩
  · refine Triple.after (Triple.attempt (SilenceBudget.triple_read hL hs fuel _) fun _ _ _ h => h) fun r => ?_
    cases r with
    | ok r => exact Triple.pure fun _ _ h => ⟨h.1, nofun⟩
    | error e => exact Triple.pure fun _ _ h => ⟨h.1, fun e' he => h.2 e' (by rw [Except.error.inj he])⟩

omit hL hs in
/-- A result of the body's own making. -/
theorem own_outcome {α β : Type} {o : Outcome α} (o' : Outcome β) (ho : ∀ e, o'.1 = .error e → Cancelled.marks e = false) :
    Act.Sure (outcome I E o) (pure o' : M ε (Outcome β)) (outcome I E) := by
  refine Triple.pure fun l s h => ⟨h.1, fun e he hm => ?_⟩
  rw [ho e he] at hm
  cases hm

theorem sure_refillThen (fuel : Nat) (take : StreamingBody → Outcome Bytes)
    (htake : ∀ b e, (take b).1 = .error e → Cancelled.marks e = false) (b : StreamingBody) :
    Act.Sure I (refillThen stream fuel take b : M ε (Outcome Bytes)) (outcome I E) := by
  refine Triple.after (sure_refill hL hs fuel b) fun o => ?_
  obtain ⟨e | more, b'⟩ := o
  · exact Triple.pure fun _ _ h => ⟨h.1, fun e' he => h.2 e' (by rw [Except.error.inj he])⟩
  · exact own_outcome _ (htake b')

/-- A read of a chunked body decodes what the refills bring. -/
theorem sure_readChunked (fuel bufLen turns : Nat) (b : StreamingBody) :
    Act.Sure I (readChunked stream fuel bufLen turns b : M ε (Outcome Bytes)) (outcome I E) := by
  induction turns generalizing b with
  | zero => exact Triple.hang
  | succ turns ih =>
      unfold readChunked
      refine Triple.after (sure_refill hL hs fuel b) fun o => ?_
      match o with
      | (.error e, b') => exact Triple.pure fun _ _ h => ⟨h.1, fun e' he => h.2 e' (by rw [Except.error.inj he])⟩
      | (.ok false, b') => exact own_outcome _ fun e he => by cases he; rfl
      | (.ok true, b') =>
          dsimp only
          split
          · exact own_outcome _ nofun
          · exact Triple.conseq (ih _) (fun _ _ h => h.1) fun _ _ _ h => h
          next e b'' heq =>
            refine own_outcome _ fun e' he => ?_
            -- an error of the decoder is a parse error
            unfold decodeChunked at heq
            split at heq
            · dsimp only at heq
              split at heq
              all_goals cases heq
              cases he
              rfl
            · cases heq
          · exact Triple.hang

/-- **A read of a streaming body.** -/
theorem sure_read (fuel bufLen : Nat) (b : StreamingBody) :
    Act.Sure I (read stream fuel bufLen b : M ε (Outcome Bytes)) (outcome I E) := by
  unfold read
  split
  · exact Triple.pure fun _ _ h => ⟨h, nofun⟩
  · split
    · exact Triple.pure fun _ _ h => ⟨h, nofun⟩
    · refine sure_refillThen hL hs fuel _ (fun b' e he => ?_) b
      unfold takeContentLength at he
      split at he
      · cases he
        rfl
      · cases he
    · refine sure_refillThen hL hs fuel _ (fun b' e he => ?_) b
      unfold takeUntilClose at he
      split at he
      · cases he
      · cases he
    · exact sure_readChunked hL hs fuel bufLen fuel b

end StreamingBody

end

/-! ## The reader thread's own business -/

/-- The operations on what the threads share. -/
def Op.isShared : Op → Bool
  | .loadShuttingDown | .loadCancelAny | .storeCancelAny _ | .loadCancelled _ | .loadConsumerAlive _ => true
  | .pop | .popBlock | .push _ _ | .dropRequest _ => true
  | _ => false

/-- An assertion about the client, which the control queue and the sinks do not touch. -/
structure Aside (I : W.Assertion Local) : Prop where
  own : ∀ l s l', l'.client = l.client → I l s → I l' s
  shared : ∀ op : Op, op.isShared → ∀ l s, I l s → W.guard s op ∧ ∀ r s', W.act s op r s' → I l s'

/-- An assertion about the client and the requests that wait, which may come from the control ring only. -/
structure Queueing (I : W.Assertion Local) : Prop where
  own : ∀ l s l', l'.client = l.client → (∀ r ∈ l'.pending, r ∈ l.pending) → I l s → I l' s
  shared : ∀ op : Op, op.isShared → ∀ l s, I l s → W.guard s op ∧ ∀ r s', W.act s op r s' → I l s'
  popped : ∀ l s s' r, I l s → W.act s .pop (some (.request r)) s' ∨ W.act s .popBlock (some (.request r)) s' →
    I { l with pending := l.pending ++ [r] } s'

/-- What is none of the queue's business survives the operations on it. -/
theorem Aside.queueing (hI : Aside I) : Queueing I where
  own l s l' hl _ := hI.own l s l' hl
  shared := hI.shared
  popped l s s' r h hact := by
    refine hI.own l s' _ rfl ?_
    rcases hact with hact | hact
    · exact (hI.shared _ rfl l s h).2 _ _ hact
    · exact (hI.shared _ rfl l s h).2 _ _ hact

instance : Coe (Aside I) (Queueing I) := ⟨Aside.queueing⟩

theorem Aside.modify (hI : Aside I) {f : Local → Local} (hf : ∀ l, (f l).client = l.client) :
    Act.Sure I (Act.modify f : M ε Unit) fun _ => I :=
  Triple.modify fun l s h => hI.own l s _ (hf l) h

theorem Aside.call (hI : Aside I) {op : Op} (hop : op.isShared) :
    Act.Sure I (Act.call (S := Sys) op : M ε op.Ret) fun _ => I :=
  Triple.call fun l s h => hI.shared op hop l s h

/-- The assertion holds, and `r` may wait too. -/
def offered (I : W.Assertion Local) (r : AsyncRequest) : W.Assertion Local where
  holds l s := I { l with pending := l.pending ++ [r] } s
  stable henv h := I.stable henv h

section

variable (hI : Queueing I)

include hI

theorem Queueing.call {op : Op} (hop : op.isShared) : Act.Sure I (Act.call (S := Sys) op : M ε op.Ret) fun _ => I :=
  Triple.call fun l s h => hI.shared op hop l s h

theorem Queueing.modify {f : Local → Local} (hf : ∀ l, (f l).client = l.client ∧ ∀ r ∈ (f l).pending, r ∈ l.pending) :
    Act.Sure I (Act.modify f : M ε Unit) fun _ => I :=
  Triple.modify fun l s h => hI.own l s _ (hf l).1 (hf l).2 h

/-- A message from the control ring, and the request it may carry. -/
def received (I : W.Assertion Local) : Option Control → W.Assertion Local
  | some (.request r) => offered I r
  | _ => I

/-- A message is received from the control ring. -/
theorem Queueing.pop : Act.Sure I (M.pop : M ε (Option Control)) (received I) := by
  refine Triple.call fun l s h => ⟨(hI.shared .pop rfl l s h).1, fun msg s' hact => ?_⟩
  match msg with
  | some (.request r) => exact hI.popped l s s' r h (.inl hact)
  | some (.cancel _) | some .cancelAny | none => exact (hI.shared .pop rfl l s h).2 _ _ hact

theorem Queueing.popBlock : Act.Sure I (M.popBlock : M ε (Option Control)) (received I) := by
  refine Triple.call fun l s h => ⟨(hI.shared .popBlock rfl l s h).1, fun msg s' hact => ?_⟩
  match msg with
  | some (.request r) => exact hI.popped l s s' r h (.inr hact)
  | some (.cancel _) | some .cancelAny | none => exact (hI.shared .popBlock rfl l s h).2 _ _ hact

omit hI in
theorem sure_pure {α : Type} (a : α) : Act.Sure I (pure a : M ε α) fun _ => I := Triple.pure fun _ _ h => h

/-- Looking for the reason not to deliver. -/
theorem ChunkSink.aside_blockedReason (t : Ticket) (observeCancel : Bool) :
    Act.Sure I (blockedReason t observeCancel : M ε (Option Undelivered)) fun _ => I := by
  have hcancel : Act.Sure I (observesCancel t : M ε Bool) fun _ => I := by
    refine Triple.after (R := fun _ : Bool => I) (hI.call rfl) fun b => ?_
    exact Triple.ite (sure_pure _) (hI.call rfl)
  refine Triple.after (R := fun _ : Bool => I) (hI.call rfl) fun down => Triple.ite (sure_pure _) ?_
  have hrest : ∀ cancelled : Bool, Act.Sure I (if cancelled then pure (some .consumerGone)
      else do if ← M.loadConsumerAlive t then return none else return some .consumerGone : M ε (Option Undelivered))
      fun _ => I := by
    intro cancelled
    refine Triple.ite (sure_pure _) (Triple.after (R := fun _ : Bool => I) (hI.call rfl) fun alive => ?_)
    exact Triple.ite (sure_pure _) (sure_pure _)
  cases observeCancel with
  | true => exact Triple.after hcancel hrest
  | false => exact Triple.after (sure_pure false) hrest

/-- **Delivering a chunk**, however long its ring is full. -/
theorem ChunkSink.aside_sendInner (t : Ticket) (chunk : Chunk) (observeCancel : Bool) (turns : Nat) :
    Act.Sure I (sendInner t chunk observeCancel turns : M ε (Except Undelivered Unit)) fun _ => I := by
  induction turns with
  | zero => exact Triple.hang
  | succ turns ih =>
      refine Triple.after (aside_blockedReason hI t observeCancel) fun reason => ?_
      cases reason with
      | some reason => exact sure_pure _
      | none =>
          refine Triple.after (R := fun _ : Bool => I) (hI.call rfl) fun pushed => ?_
          exact Triple.ite (sure_pure _) ih

theorem ChunkSink.aside_sendTerminal (fuel : Nat) (t : Ticket) (chunk : Chunk) :
    Act.Sure I (sendTerminal fuel t chunk : M ε Unit) fun _ => I :=
  Triple.after (aside_sendInner hI t chunk false fuel) fun _ => sure_pure _

theorem ControlQueue.aside_abortPending (fuel : Nat) (t : Ticket) :
    Act.Sure I (abortPending fuel t : M ε Unit) fun _ => I := by
  refine Triple.after (R := fun _ => I) (Triple.get fun _ _ h => h) fun l => ?_
  cases l.pending.find? (·.ticket = t) with
  | none => exact sure_pure _
  | some request =>
      refine Triple.after (hI.modify fun _ => ⟨rfl, fun _ hr => List.mem_of_mem_eraseP hr⟩) fun _ => ?_
      exact Triple.after (ChunkSink.aside_sendTerminal hI fuel _ _) fun _ => hI.call rfl

/-- **Looking for a cancel** of the current request. -/
theorem ControlQueue.aside_pollCancel (fuel : Nat) (current : Option Ticket) (turns : Nat) (cancelled : Bool) :
    Act.Sure I (pollCancel fuel current turns cancelled : M ε Bool) fun _ => I := by
  induction turns generalizing cancelled with
  | zero => exact Triple.hang
  | succ turns ih =>
      refine Triple.after (R := fun _ : Bool => I) (hI.call rfl) fun down => Triple.ite (sure_pure _) ?_
      refine Triple.after hI.pop fun msg => ?_
      match msg with
      | some .cancelAny => exact Triple.after (R := fun _ : Unit => I) (hI.call rfl) fun _ => ih _
      | some (.cancel t) => exact Triple.ite (ih true) (Triple.after (aside_abortPending hI fuel t) fun _ => ih _)
      | some (.request request) =>
          exact Triple.after (R := fun _ => I) (Triple.modify fun _ _ h => h) fun _ => ih _
      | none => exact sure_pure _

/-- The next request, which waited or comes from the ring: what taking one makes of the assertion is `R`. -/
theorem ControlQueue.queueing_nextRequest {R : Option AsyncRequest → W.Assertion Local}
    (hnone : ∀ l s, I l s → R none l s)
    (htake : ∀ request, Act.Sure (offered I request) (take request : M ε (Option AsyncRequest)) R) (turns : Nat) :
    Act.Sure I (nextRequest turns : M ε (Option AsyncRequest)) R := by
  induction turns with
  | zero => exact Triple.hang
  | succ turns ih =>
      unfold nextRequest
      refine Triple.after (R := fun _ : Bool => I) (hI.call rfl) fun down => Triple.ite (Triple.pure hnone) ?_
      refine Triple.look fun l => ?_
      cases hpending : l.pending with
      | cons request rest =>
          refine Triple.after (R := fun _ => offered I request) (Triple.modify fun l' s h => ?_) fun _ => htake _
          obtain ⟨rfl, h⟩ := h
          refine hI.own l' s _ rfl (fun r hr => ?_) h
          rw [hpending]
          simpa [or_comm] using hr
      | nil =>
          refine Triple.conseq (P := I) (Triple.after hI.popBlock fun msg => ?_) (fun _ _ h => h.2) fun _ _ _ h => h
          match msg with
          | none => exact Triple.pure hnone
          | some (.request request) => exact htake request
          | some (.cancel t) => exact ih
          | some .cancelAny => exact ih

/-- The interrupt of a request looks for a cancel of it. -/
theorem ReaderWorker.aside_interruptOf (fuel : Nat) (t : Ticket) : Keeps I (interruptOf fuel t : M Empty Bool) := by
  have hpoll := ControlQueue.aside_pollCancel (ε := Empty) hI fuel (some t) fuel false
  refine Triple.after hpoll fun now => ?_
  refine Triple.after (R := fun _ => I) (Triple.get fun _ _ h => h) fun l => ?_
  exact Triple.after (hI.modify fun _ => ⟨rfl, fun _ hr => hr⟩) fun _ => Keeps.pure _

end

/-- The next request, for an assertion that does not look at those that wait. -/
theorem ControlQueue.aside_nextRequest (hI : Aside I) {R : Option AsyncRequest → W.Assertion Local}
    (hnone : ∀ l s, I l s → R none l s)
    (htake : ∀ request, Act.Sure I (take request : M ε (Option AsyncRequest)) R) (turns : Nat) :
    Act.Sure I (nextRequest turns : M ε (Option AsyncRequest)) R := by
  refine queueing_nextRequest hI hnone (fun request => ?_) turns
  exact Triple.conseq (htake request) (fun l s => hI.own { l with pending := l.pending ++ [request] } s l rfl) fun _ _ _ h => h

/-! ## Delivering a body -/

namespace ReaderWorker

variable (hI : Hearing I) (hA : Queueing I)

include hA in
theorem keeps_sendTerminal (fuel : Nat) (t : Ticket) (chunk : Chunk) :
    Keeps I (ChunkSink.sendTerminal fuel t chunk : M ε Unit) :=
  (ChunkSink.aside_sendTerminal hA fuel t chunk).keeps

include hI hA

/-- Draining the body of a response that is reported as an error. -/
theorem keeps_drainErrorBody (fuel : Nat) (t : Ticket) (framing : BodyFraming) (tail : Bytes) (deadline : RequestDeadline)
    (reuse : ConnectionReuse) : Keeps I (drainErrorBody fuel t framing tail deadline reuse : M ε Unit) := by
  have hend : ∀ chunk, Keeps I (ChunkSink.sendTerminal fuel t chunk : M ε Unit) := keeps_sendTerminal hA fuel t
  refine Triple.seq Keeps.client fun c => Triple.seq (SilenceBudget.keeps_withDeadline hI.listening _ _) fun budget => ?_
  have hread := BodyCollector.listening_read hI.listening (hI.keeps_interruptible (aside_interruptOf hA fuel t))
    c.config.maxResponseBody fuel budget framing tail
  refine Triple.seq (Keeps.attempt hread) fun r => ?_
  match r with
  | .ok (bytes, reusable) =>
      refine Triple.seq (hI.listening.modifyClient _ fun _ => ⟨rfl, rfl⟩) fun _ => ?_
      split
      · exact hend _
      · refine Triple.after (ChunkSink.aside_sendInner hA t (.body bytes) true fuel) fun sent => ?_
        cases sent with
        | error why => exact Keeps.pure _
        | ok u => exact hend _
  | .error e =>
      refine Triple.seq Keeps.get fun l => ?_
      split
      · exact hend _
      · exact hend _

/-- Delivering a body chunk by chunk. -/
theorem keeps_streamChunks (fuel : Nat) (t : Ticket) (turns : Nat) (body : StreamingBody) :
    Keeps I (streamChunks fuel t turns body : M ε StreamingBody) := by
  have hs : Triple I ((Stream.interruptible (interruptOf fuel t)).read HEAD_BUF_SIZE) (onMark I I) :=
    Triple.conseq (hI.keeps_interruptible (aside_interruptOf hA fuel t) _) (fun _ _ h => h)
      fun _ _ _ h => ⟨h, fun _ _ _ => h⟩
  have hend : ∀ chunk (body : StreamingBody), Keeps I (do
      ChunkSink.sendTerminal fuel t chunk
      return body : M ε StreamingBody) :=
    fun chunk _ => Triple.seq (keeps_sendTerminal hA fuel t chunk) fun _ => Keeps.pure _
  induction turns generalizing body with
  | zero => exact Triple.hang
  | succ turns ih =>
      unfold streamChunks
      refine Triple.after (StreamingBody.sure_read hI.listening hs fuel HEAD_BUF_SIZE body) fun o => ?_
      refine Triple.conseq (P := I) ?_ (fun _ _ h => h.1) fun _ _ _ h => h
      match o with
      | (.ok bytes, body) =>
          dsimp only
          split
          · exact hend _ body
          · refine Triple.after (ChunkSink.aside_sendInner hA t (.body bytes) true fuel) fun sent => ?_
            cases sent with
            | error why => exact Keeps.pure _
            | ok u => exact ih body
      | (.error e, body) =>
          dsimp only
          split
          · exact hend _ body
          · exact hend _ body

/-- **A response body**, streamed or drained. -/
theorem queueing_streamBody (fuel : Nat) (request : AsyncRequest) (start : ResponseStart) (deadline : RequestDeadline) :
    Keeps I (streamBody fuel request start deadline : M ε Unit) := by
  refine Triple.seq (hI.listening.modifyClient _ fun _ => ⟨rfl, rfl⟩) fun _ => ?_
  refine Triple.after (ChunkSink.aside_sendInner hA request.ticket _ true fuel) fun sent => ?_
  cases sent with
  | error why => exact Keeps.pure _
  | ok u =>
      refine Triple.after (hA.modify fun _ => ⟨rfl, fun _ hr => hr⟩) fun _ => Triple.seq Keeps.client fun c => ?_
      dsimp only
      split
      · refine Triple.seq Keeps.client fun c => Triple.after (StreamingBody.sure_new hI.listening _ _ _ _ _) fun body => ?_
        refine Triple.seq (keeps_streamChunks hI hA fuel _ fuel body) fun body => ?_
        exact hI.listening.modifyClient _ fun _ => ⟨rfl, rfl⟩
      · exact keeps_drainErrorBody hI hA fuel _ _ _ deadline _

omit hI hA in
theorem keeps_streamBody (hI : Settled I) (hA : Aside I) (fuel : Nat) (request : AsyncRequest) (start : ResponseStart)
    (deadline : RequestDeadline) : Keeps I (streamBody fuel request start deadline : M ε Unit) :=
  queueing_streamBody hI hA fuel request start deadline

end ReaderWorker

end Xibalba
