import Xibalba.Lib.Cost
import Xibalba.Client.Correctness.Collect
import Xibalba.Client.Correctness.Head
import Xibalba.Client.Correctness.Throughout
import Xibalba.Proto.Correctness.ChunkedBounds

/-!
# `Client.Correctness.Traffic` — how much a call reads

A peer may send as much as it likes, as fast as it likes. What a call takes from the stream is bounded all the same, by
the limits of the client alone: the size of a head and the number of interim heads, the size of a body, and what the
chunked coding may add to it, for one attempt and its replay, and for every hop. No budget of time is needed for this.

Layout:
* `Op.received`, the price of an operation, and `purse`;
* budgets and streams;
* heads, bodies, one request, a call;
* `calls_read_bounded`.
-/

namespace Xibalba

open Act (Keeps Sure Triple funds)
open ChunkedDecoder (CHUNK_METADATA MAX_ALLOWANCE Live)

/-- The bytes an operation takes from the stream. -/
def Op.received : (op : Op) → op.Ret → Nat
  | .read _, .ok bs => bs.val.length
  | _, _ => 0

theorem Op.received_read (len : Nat) (r : (Op.read len).Ret) : (Op.read len).received r ≤ len := by
  cases r with
  | ok bs => exact bs.property
  | error e => exact Nat.zero_le _

/-- The limits of the client are those of `own`; no call changes them. -/
def Limited (own : Client) (l : Local) : Prop :=
  l.client.config = own.config ∧ l.client.maxHeadSize = own.maxHeadSize

/-- The limits are those of `own`, and `k` bytes may still be read. -/
abbrev purse (own : Client) (k : Local → Nat) : (Prog.metered (S := Sys) Op.received).Assertion Local :=
  funds (S := Sys) Op.received (Limited own) k

section

variable {own : Client} {ε α β : Type} {k : Local → Nat} {n : Nat}

/-- The rule for a first part whose result satisfies `φ`. -/
theorem Triple.yielded {σ : Type} {W : World Sys σ} {P I : W.Assertion Local} {Q : Except ε β → W.Assertion Local}
    {φ : α → Prop} {x : M ε α} {f : α → M ε β} (hx : Triple P x (yielding I φ))
    (herr : ∀ e l s, I l s → Q (.error e) l s) (hf : ∀ a, φ a → Triple I (f a) Q) : Triple P (x >>= f) Q := by
  refine Triple.bind hx (fun a => ?_) fun e l s h => herr e l s h.1
  refine Triple.given (φ := φ a) (fun _ _ h => h.2 a rfl) fun ha => ?_
  exact Triple.conseq (hf a ha) (fun _ _ h => h.1) fun _ _ _ h => h

/-- A guard that fails, and what comes after it. -/
theorem Triple.orThrow {σ : Type} {W : World Sys σ} {P : W.Assertion Local} {Q : Except ε α → W.Assertion Local} {c : Prop}
    [Decidable c] {e : ε} {x : M ε α} (h : ∀ l s, P l s → Q (.error e) l s) (hx : Triple P x Q) :
    Triple P (if c then (Act.throw e : M ε Unit) >>= fun _ => x else x) Q := by
  refine Triple.ite ?_ hx
  exact Triple.throw h

/-- A check that ends what it is part of, and what is done after it. -/
theorem Triple.unless {σ : Type} {W : World Sys σ} {P : W.Assertion Local} {Q : Except ε α → W.Assertion Local}
    {late : M ε Bool} (hlate : Sure P late fun _ => P) {e : ε} {x : M ε α} (h : ∀ l s, P l s → Q (.error e) l s)
    (hx : Triple P x Q) :
    Triple P (do
      if ← late then Act.throw e
      x) Q := by
  refine Triple.after hlate fun b => ?_
  cases b with
  | true => exact Triple.throw h
  | false => exact hx

/-- An operation that reads nothing. -/
theorem free_call {op : Op} (h : ∀ r, op.received r = 0) :
    Sure (purse own k) (Act.call (S := Sys) op : M ε op.Ret) fun _ => purse own k :=
  Triple.free h

theorem free_now : Sure (purse own k) (M.now : M ε Instant) fun _ => purse own k := free_call fun _ => rfl

theorem free_client : Sure (purse own k) (M.client : M ε Client) fun _ => purse own k :=
  Triple.after (R := fun _ => purse own k) (Triple.get fun _ _ h => h) fun _ => Triple.pure fun _ _ h => h

/-- A change of the client that leaves its limits, where the credit does not depend on it. -/
theorem free_modify {f : Client → Client} (hf : ∀ c, (f c).config = c.config ∧ (f c).maxHeadSize = c.maxHeadSize) :
    Sure (purse own fun _ => n) (M.modifyClient f : M ε Unit) fun _ => purse own fun _ => n := by
  refine Triple.modify fun l credit h => ⟨?_, h.2⟩
  obtain ⟨hconfig, hmax⟩ := h.1
  exact ⟨(hf l.client).1.trans hconfig, (hf l.client).2.trans hmax⟩

/-! ## Deadlines and budgets -/

namespace RequestDeadline

theorem free_expired (d : RequestDeadline) : Sure (purse own k) (d.expired : M ε Bool) fun _ => purse own k := by
  unfold expired
  cases d.expiresAt with
  | none => exact Triple.pure fun _ _ h => h
  | some e => exact Triple.after free_now fun _ => Triple.pure fun _ _ h => h

theorem free_check (d : RequestDeadline) : Keeps (purse own k) d.check := by
  refine Triple.after d.free_expired fun late => ?_
  cases late with
  | true => exact Keeps.throw _
  | false => exact Keeps.pure _

theorem free_checkIo (d : RequestDeadline) : Keeps (purse own k) d.checkIo := by
  refine Triple.after d.free_expired fun late => ?_
  cases late with
  | true => exact Keeps.throw _
  | false => exact Keeps.pure _

theorem free_after (budget : Option Duration) :
    Sure (purse own k) (RequestDeadline.after budget : M ε RequestDeadline) fun _ => purse own k := by
  cases budget with
  | none => exact Triple.pure fun _ _ h => h
  | some b => exact Triple.after free_now fun _ => Triple.pure fun _ _ h => h

theorem free_connectDeadline (d : RequestDeadline) (fallback : Deadline) :
    Sure (purse own k) (d.connectDeadline fallback : M ε Deadline) fun _ => purse own k := by
  unfold connectDeadline
  cases d.expiresAt with
  | none => exact Triple.pure fun _ _ h => h
  | some e => exact Triple.after free_now fun _ => Triple.after free_now fun _ => Triple.pure fun _ _ h => h

end RequestDeadline

theorem Config.free_connectDeadline (c : Config) :
    Sure (purse own k) (c.connectDeadline : M ε Deadline) fun _ => purse own k := by
  unfold connectDeadline
  cases c.connectTimeout with
  | none => exact Triple.pure fun _ _ h => h
  | some budget => exact Triple.after free_now fun _ => Triple.pure fun _ _ h => h

/-- What follows a timeout tick. -/
theorem free_tick {Q : Except StdIoError α → (Prog.metered (S := Sys) Op.received).Assertion Local} (last : Instant)
    (limit : Duration) (err : StdIoError) {x : M StdIoError α} (herr : ∀ l c, purse own k l c → Q (.error err) l c)
    (hx : Triple (purse own k) x Q) :
    Triple (purse own k) (do
      if (← M.now) - last ≥ limit then Act.throw err
      x) Q :=
  Triple.after free_now fun _ => Triple.orThrow herr hx

/-- What a read of `len` bytes leaves. -/
def unread (own : Client) (len : Nat) (k : Local → Nat) :
    Except ε { bs : Bytes // bs.length ≤ len } → (Prog.metered (S := Sys) Op.received).Assertion Local
  | .ok bs => purse own fun l => len - bs.val.length + k l
  | .error _ => purse own fun l => len + k l

/-- A stream whose reads are paid for by their length. -/
structure Stream.Metered (own : Client) (stream : Stream) : Prop where
  read : ∀ len k, Triple (purse own fun l => len + k l) (stream.read len) (unread own len k)
  write : ∀ buf k, Keeps (purse own k) (stream.write buf)
  flush : ∀ k, Keeps (purse own k) stream.flush

theorem Stream.metered_raw (own : Client) : Stream.raw.Metered own where
  read len k := by
    refine Triple.after (Triple.pay (Op.received_read len)) fun r => Triple.ofExcept fun l c h => ?_
    cases r with
    | ok bs => exact h
    | error e => exact h
  write _ _ := Triple.after (free_call fun _ => rfl) fun r => Keeps.ofExcept r
  flush _ := Triple.after (free_call fun _ => rfl) fun r => Keeps.ofExcept r

/-- Asking an interrupt that never fires reads nothing. -/
theorem Stream.metered_never (own : Client) : (Stream.interruptible .never).Metered own where
  read := (metered_raw own).read
  write := (metered_raw own).write
  flush := (metered_raw own).flush

variable {stream : Stream} (hs : stream.Metered own)

namespace SilenceBudget

theorem free_withDeadline (limit : Duration) (d : RequestDeadline) :
    Sure (purse own k) (withDeadline limit d : M ε SilenceBudget) fun _ => purse own k :=
  Triple.after free_now fun _ => Triple.pure fun _ _ h => h

include hs

theorem metered_read (len turns : Nat) (b : SilenceBudget) :
    Triple (purse own fun l => len + k l) (read stream len turns b) fun r => unread own len k (r.map Prod.fst) := by
  induction turns generalizing b with
  | zero => exact Triple.hang
  | succ turns ih =>
      refine Triple.unless (b.deadline.free_expired) (fun _ _ h => h) ?_
      refine Triple.after (Triple.attempt (hs.read len k) fun _ _ _ h => h) fun r => ?_
      cases r with
      | ok bs => exact Triple.after free_now fun now => Triple.pure fun _ _ h => h
      | error err =>
          dsimp only
          split
          · exact free_tick _ _ _ (fun _ _ h => h) (ih b)
          · exact Triple.throw fun _ _ h => h

theorem metered_readProto (len fuel : Nat) (b : SilenceBudget) :
    Triple (purse own fun l => len + k l) (b.readProto stream len fuel) fun r => unread own len k (r.map Prod.fst) := by
  refine Triple.mapError (metered_read hs len fuel b) fun r l c h => ?_
  cases r with
  | ok r => exact h
  | error err => exact h

/-- Exactly `need` bytes, and no more than that. -/
theorem metered_readExact (fuel turns : Nat) (b : SilenceBudget) (need : Nat) (got : Bytes) :
    Triple (purse own fun l => need + k l) (readExact stream fuel turns b need got)
      (yielding (purse own k) fun data => data.length = got.length + need) := by
  induction turns generalizing b need got with
  | zero => exact Triple.hang
  | succ turns ih =>
      have hless : ∀ l c, purse own (fun l => need + k l) l c → purse own k l c :=
        fun _ _ h => Act.funds_mono (fun l _ => Nat.le_add_left _ _) h
      unfold readExact
      split
      next hzero => exact Triple.pure fun l c h => yielding_ok (hless l c h) (by omega)
      refine Triple.bind (metered_read hs need fuel b) (fun r => ?_) fun e l c h => yielding_error (hless l c h)
      refine Triple.orThrow (fun l c h => yielding_error (Act.funds_mono (fun l _ => Nat.le_add_left _ _) h)) ?_
      refine Triple.conseq (ih r.2 (need - r.1.val.length) (got ++ r.1.val)) (fun _ _ h => h)
        fun r' l c h => ⟨h.1, fun data hdata => ?_⟩
      have hlen := h.2 data hdata
      have hle := r.1.property
      rw [List.length_append] at hlen
      omega

end SilenceBudget

namespace WriteBudget

theorem free_withDeadline (limit : Duration) (d : RequestDeadline) :
    Sure (purse own k) (withDeadline limit d : M ε WriteBudget) fun _ => purse own k :=
  Triple.after free_now fun _ => Triple.pure fun _ _ h => h

include hs

theorem free_writeAllProto (fuel : Nat) (b : WriteBudget) (buf : Bytes) :
    Keeps (purse own k) (b.writeAllProto stream fuel buf) := by
  refine Keeps.mapError ?_
  induction fuel generalizing b buf with
  | zero => exact Triple.hang
  | succ fuel ih =>
      unfold writeAllRaw
      split
      · exact Keeps.pure _
      refine Triple.seq (b.deadline.free_checkIo) fun _ => Triple.seq (Keeps.attempt (hs.write buf k)) fun r => ?_
      cases r with
      | ok n => exact Triple.orThrow (fun _ _ h => h) (Triple.after free_now fun now => ih _ _)
      | error err =>
          dsimp only
          split
          · exact free_tick _ _ _ (fun _ _ h => h) (ih b buf)
          · exact Keeps.throw _

theorem free_flushProto (fuel : Nat) (b : WriteBudget) : Keeps (purse own k) (b.flushProto stream fuel) := by
  refine Keeps.mapError ?_
  induction fuel with
  | zero => exact Triple.hang
  | succ fuel ih =>
      refine Triple.seq (b.deadline.free_checkIo) fun _ => Triple.seq (Keeps.attempt (hs.flush k)) fun r => ?_
      cases r with
      | ok u => exact Keeps.pure _
      | error err =>
          dsimp only
          split
          · exact free_tick _ _ _ (fun _ _ h => h) ih
          · exact Keeps.throw _

end WriteBudget

/-! ## Heads -/

namespace HeadData

/-- What one head may cost: the accumulator is looked at before each read. -/
def HEAD_COST (maxHead : Nat) : Nat := maxHead + HEAD_BUF_SIZE

/-- What a final head may cost, with the interim ones before it. -/
def HEADS_COST (maxHead : Nat) : Nat := (MAX_INTERIM_RESPONSES + 1) * HEAD_COST maxHead

include hs

theorem metered_readUntilHeadEnd (maxHead fuel turns scanned : Nat) (b : SilenceBudget) :
    Triple (purse own fun l => (HEAD_COST maxHead - l.client.headBuf.length) + n)
      (readUntilHeadEnd stream maxHead fuel turns scanned b)
      (yielding (purse own fun _ => n) fun r => r.1 ≤ maxHead) := by
  induction turns generalizing scanned b with
  | zero => exact Triple.hang
  | succ turns ih =>
      have hless : ∀ {f : Local → Nat} l c, purse own (fun l => f l + n) l c → purse own (fun _ => n) l c :=
        fun _ _ h => Act.funds_mono (fun l _ => Nat.le_add_left _ _) h
      unfold readUntilHeadEnd
      refine Triple.lookClient fun l₀ => ?_
      dsimp only
      split
      · split
        · exact Triple.throw fun l c h => yielding_error (hless l c h.2)
        next hsmall => exact Triple.pure fun l c h => yielding_ok (hless l c h.2) (Nat.not_lt.mp hsmall)
      split
      · exact Triple.throw fun l c h => yielding_error (hless l c h.2)
      next hroom =>
        -- there is room for one more read, so the credit for it is there
        have hread : Triple ((purse own fun l => (HEAD_COST maxHead - l.client.headBuf.length) + n).at l₀)
            (b.readProto stream HEAD_BUF_SIZE fuel) fun r =>
              unread own HEAD_BUF_SIZE (fun l => (maxHead - l.client.headBuf.length) + n) (r.map Prod.fst) := by
          refine Triple.conseq (SilenceBudget.metered_readProto hs HEAD_BUF_SIZE fuel b) ?_ fun _ _ _ h => h
          rintro l c ⟨rfl, hlimited, hcredit⟩
          refine ⟨hlimited, Nat.le_trans ?_ hcredit⟩
          show HEAD_BUF_SIZE + (maxHead - l.client.headBuf.length + n) ≤ maxHead + HEAD_BUF_SIZE - l.client.headBuf.length + n
          omega
        have hrest : ∀ {m : Nat} (l : Local) c, purse own (fun l => m + (maxHead - l.client.headBuf.length + n)) l c →
            purse own (fun _ => n) l c :=
          fun l c h => Act.funds_mono (fun _ _ => Nat.le_trans (Nat.le_add_left _ _) (Nat.le_add_left _ _)) h
        refine Triple.bind hread (fun r => ?_) fun e l c h => yielding_error (hrest l c h)
        refine Triple.orThrow (fun l c h => yielding_error (hrest l c h)) ?_
        refine Triple.after (R := fun _ => purse own fun l => (HEAD_COST maxHead - l.client.headBuf.length) + n)
          (Triple.modify fun l c h => ⟨h.1, Nat.le_trans ?_ h.2⟩) fun _ => ih _ _
        have hle := r.1.property
        unfold HEAD_COST
        simp only [List.length_append]
        omega

/-- At most `left` more heads are interim. -/
theorem metered_readFinalHead (maxHead : Nat) (method : Method) (fuel turns : Nat) {interimSeen left : Nat}
    (hleft : interimSeen + left = MAX_INTERIM_RESPONSES) (b : SilenceBudget) :
    Triple (purse own fun _ => (left + 1) * HEAD_COST maxHead + n)
      (readFinalHead stream maxHead method fuel turns interimSeen b)
      (yielding (purse own fun _ => n) fun final => final.headEnd ≤ maxHead) := by
  induction turns generalizing interimSeen left b with
  | zero => exact Triple.hang
  | succ turns ih =>
      have hone : (left + 1) * HEAD_COST maxHead + n = HEAD_COST maxHead + (left * HEAD_COST maxHead + n) := by
        rw [Nat.succ_mul]
        omega
      have hless : ∀ (l : Local) c, purse own (fun _ => left * HEAD_COST maxHead + n) l c → purse own (fun _ => n) l c :=
        fun _ _ h => Act.funds_mono (fun l _ => Nat.le_add_left _ _) h
      have hhead : Triple (purse own fun _ => (left + 1) * HEAD_COST maxHead + n)
          (readUntilHeadEnd stream maxHead fuel fuel 0 b)
          (yielding (purse own fun _ => left * HEAD_COST maxHead + n) fun r => r.1 ≤ maxHead) := by
        refine Triple.conseq (metered_readUntilHeadEnd hs maxHead fuel fuel 0 b) (fun l c h => ?_) fun _ _ _ h => h
        rw [hone] at h
        exact Act.funds_mono (fun l _ => Nat.add_le_add_right (Nat.sub_le _ _) _) h
      unfold readFinalHead
      refine Triple.yielded hhead (fun e l c h => yielding_error (hless l c h)) fun r hr => ?_
      refine Triple.after free_client fun client => ?_
      refine Triple.bind (Keeps.ofExcept _) (fun parsed => ?_) fun e l c h => yielding_error (hless l c h)
      dsimp only
      split
      · split
        · exact Triple.throw fun l c h => yielding_error (hless l c h)
        next hmore =>
          obtain ⟨left, rfl⟩ : ∃ left', left = left' + 1 := ⟨left - 1, by omega⟩
          exact Triple.after (free_modify fun _ => ⟨rfl, rfl⟩) fun _ => ih (by omega) r.2
      · refine Triple.ofExcept fun l c h => ⟨hless l c h, fun final hfinal => ?_⟩
        show final.headEnd ≤ maxHead
        rw [(finalHead_eq hfinal).1]
        exact hr

theorem metered_readResponse (maxHead : Nat) (silence : Duration) (deadline : RequestDeadline) (method : Method)
    (fuel : Nat) :
    Triple (purse own fun _ => HEADS_COST maxHead + n) (readResponse stream maxHead silence deadline method fuel)
      (yielding (purse own fun _ => n) fun r => r.1.headBuf.length ≤ maxHead) := by
  refine Triple.after (free_modify fun _ => ⟨rfl, rfl⟩) fun _ => ?_
  refine Triple.after (SilenceBudget.free_withDeadline _ _) fun budget => ?_
  refine Triple.yielded (metered_readFinalHead hs maxHead method fuel fuel (Nat.zero_add _) budget)
    (fun e l c h => yielding_error h) fun final hfinal => ?_
  refine Triple.after free_client fun client => ?_
  have hnew : Triple (purse own fun _ => n)
      (Act.ofExcept (new final.head.version final.head.status (client.headBuf.take final.headEnd) final.ranges
        final.head.headers.length) : M Error HeadData)
      (yielding (purse own fun _ => n) fun data => data.headBuf.length ≤ maxHead) := by
    refine Triple.ofExcept fun l c h => ⟨h, fun data hdata => ?_⟩
    have hbuf : data.headBuf = client.headBuf.take final.headEnd := by
      unfold new at hdata
      split at hdata
      · cases hdata
      · split at hdata
        · cases hdata
          rfl
        · cases hdata
    show data.headBuf.length ≤ maxHead
    rw [hbuf]
    exact Nat.le_trans (List.length_take_le _ _) hfinal
  refine Triple.yielded hnew (fun e l c h => yielding_error h) fun data hdata => ?_
  exact Triple.after (free_call fun _ => rfl) fun _ => Triple.pure fun l c h => yielding_ok h hdata

end HeadData

/-! ## Bodies -/

namespace BodyCollector

/-- What a body may cost that fits into `maxBody` bytes: with the metadata of its chunks, and one read too many. -/
def BODY_COST (maxBody : Nat) : Nat := MAX_ALLOWANCE + (CHUNK_METADATA + 1) * maxBody + HEAD_BUF_SIZE

omit hs in
/-- The decode loop over a piece of input that is used up. -/
theorem pump_allowance {maxBody turns : Nat} {whileInput : Bool} {d d' : ChunkedDecoder} {body body' input : Bytes}
    (hlive : Live d input) (h : pump maxBody whileInput turns d body input = some (.needMore d' body')) :
    d'.allowance + input.length + (CHUNK_METADATA + 1) * body.length ≤
      d.allowance + (CHUNK_METADATA + 1) * body'.length := by
  induction turns generalizing d body input with
  | zero => cases h
  | succ turns ih =>
      rw [pump] at h
      split at h
      next hend =>
        rw [Bool.and_eq_true] at hend
        obtain rfl := List.isEmpty_iff.mp hend.2
        cases h
        exact Nat.le_refl _
      next =>
        have hpays := ChunkedDecoder.decode_allowance (hlive.imp_right And.left) input HEAD_BUF_SIZE
        have hdec := hlive.decodes (show 0 < HEAD_BUF_SIZE by decide)
        generalize d.decode input HEAD_BUF_SIZE = res at hdec hpays h
        cases hdec with
        | @data d₁ k out hne hpos hk hlive' hrun =>
            dsimp only at h hpays
            split at h
            · cases h
            · split at h
              · cases h
              · have hrest := ih hlive' h
                rw [List.length_append, List.length_drop, Nat.mul_add] at hrest
                omega
        | needMore hinv hnd' hadv =>
            dsimp only at h hpays
            cases h
            rw [List.length_nil] at hpays
            omega
        | @done d₁ k hk hrun => cases h
        | @error d₁ e k hk hrun => cases h

/-- What is left of the credit of a chunked body: `d` stands behind the bytes that gave `body`. -/
def chunkedRoom (maxBody : Nat) (d : ChunkedDecoder) (body : Bytes) : Nat :=
  d.allowance + (CHUNK_METADATA + 1) * (maxBody - body.length)

omit hs in
theorem triple_pumped {I : (Prog.metered (S := Sys) Op.received).Assertion Local} {maxBody : Nat} (whileInput : Bool)
    {d : ChunkedDecoder}
    {body : Bytes} (input : Bytes) (hinv : d.Inv) (hnd : d.isDone = false) (hmax : body.length ≤ maxBody) :
    Sure I (pumped maxBody whileInput d body input) fun p => (yielding I fun p => p.Exact maxBody d body input ∧
      ∀ d' body', p = .needMore d' body' → chunkedRoom maxBody d' body' + input.length ≤ chunkedRoom maxBody d body)
        (.ok p : Except Error Pumped) := by
  obtain ⟨p, hp, hexact⟩ := pump_exact whileInput (.inl hinv) hnd hmax (Nat.lt_add_of_pos_right Nat.zero_lt_two)
  unfold pumped
  rw [hp]
  refine Triple.pure fun l c h => yielding_ok h ⟨hexact, fun d' body' heq => ?_⟩
  subst heq
  have hpays := pump_allowance (.inl hinv) hp
  obtain ⟨-, -, hmax', out, rfl, -⟩ := hexact
  have hsplit : ∀ m ≤ maxBody,
      (CHUNK_METADATA + 1) * (maxBody - m) + (CHUNK_METADATA + 1) * m = (CHUNK_METADATA + 1) * maxBody := by
    intro m hm
    rw [← Nat.mul_add, Nat.sub_add_cancel hm]
  have hbefore := hsplit _ hmax
  have hafter := hsplit _ hmax'
  unfold chunkedRoom
  omega

include hs

theorem metered_readChunkedMore {maxBody : Nat} (fuel turns : Nat) (b : SilenceBudget) {d : ChunkedDecoder} {body : Bytes}
    (hinv : d.Inv) (hnd : d.isDone = false) (hmax : body.length ≤ maxBody) :
    Triple (purse own fun _ => HEAD_BUF_SIZE + (chunkedRoom maxBody d body + n))
      (readChunkedMore stream maxBody fuel turns b d body)
      (yielding (purse own fun _ => n) fun r => r.1.length ≤ maxBody) := by
  induction turns generalizing b d body with
  | zero => exact Triple.hang
  | succ turns ih =>
      have hless : ∀ {i j : Nat} (l : Local) c, purse own (fun _ => i + (j + n)) l c → purse own (fun _ => n) l c :=
        fun l c h => Act.funds_mono (fun _ _ => Nat.le_trans (Nat.le_add_left _ _) (Nat.le_add_left _ _)) h
      unfold readChunkedMore
      refine Triple.bind (SilenceBudget.metered_readProto hs HEAD_BUF_SIZE fuel b) (fun r => ?_)
        fun e l c h => yielding_error (hless l c h)
      refine Triple.orThrow (fun l c h => yielding_error (hless l c h)) ?_
      refine Triple.after (triple_pumped true r.1.val hinv hnd hmax) fun p => ?_
      refine Triple.given (fun _ _ h => h.2 p rfl) fun hp => Triple.conseq (P := purse own fun _ =>
        HEAD_BUF_SIZE - r.1.val.length + (chunkedRoom maxBody d body + n)) ?_ (fun _ _ h => h.1) fun _ _ _ h => h
      cases p with
      | needMore d' body' =>
          obtain ⟨⟨hinv', hnd', hmax', -⟩, hroom⟩ := hp
          refine Triple.conseq (ih r.2 hinv' hnd' hmax') (fun l c h => Act.funds_mono (fun _ _ => ?_) h) fun _ _ _ h => h
          have hle := hroom d' body' rfl
          have hread := r.1.property
          omega
      | done body' leftover => exact Triple.pure fun l c h => yielding_ok (hless l c h) hp.1.1
      | error err => exact Triple.throw fun l c h => yielding_error (hless l c h)

theorem metered_readUntilClose {maxBody : Nat} (fuel turns : Nat) (b : SilenceBudget) (body : Bytes) :
    Triple (purse own fun _ => maxBody + HEAD_BUF_SIZE - body.length + n) (readUntilClose stream maxBody fuel turns b body)
      (yielding (purse own fun _ => n) fun body => body.length ≤ maxBody) := by
  induction turns generalizing b body with
  | zero => exact Triple.hang
  | succ turns ih =>
      unfold readUntilClose
      split
      · exact Triple.throw fun l c h => yielding_error (Act.funds_mono (fun _ _ => Nat.le_add_left _ _) h)
      next hsmall =>
        have hless : ∀ {i j : Nat} (l : Local) c, purse own (fun _ => i + (j + n)) l c → purse own (fun _ => n) l c :=
          fun l c h => Act.funds_mono (fun _ _ => Nat.le_trans (Nat.le_add_left _ _) (Nat.le_add_left _ _)) h
        have hread : Triple (purse own fun _ => maxBody + HEAD_BUF_SIZE - body.length + n)
            (b.readProto stream HEAD_BUF_SIZE fuel)
            fun r => unread own HEAD_BUF_SIZE (fun _ => maxBody - body.length + n) (r.map Prod.fst) := by
          refine Triple.conseq (SilenceBudget.metered_readProto hs HEAD_BUF_SIZE fuel b) (fun l c h => ?_) fun _ _ _ h => h
          refine Act.funds_mono (fun _ _ => ?_) h
          omega
        refine Triple.bind hread (fun r => ?_) fun e l c h => yielding_error (hless l c h)
        dsimp only
        split
        · exact Triple.pure fun l c h => yielding_ok (hless l c h) (Nat.not_lt.mp hsmall)
        · refine Triple.conseq (ih r.2 (body ++ r.1.val)) (fun l c h => Act.funds_mono (fun _ _ => ?_) h) fun _ _ _ h => h
          have hle := r.1.property
          show maxBody + HEAD_BUF_SIZE - (body ++ r.1.val).length + n ≤
            HEAD_BUF_SIZE - r.1.val.length + (maxBody - body.length + n)
          rw [List.length_append]
          omega

/-- **Every framing**: what a body may cost, and what fits into the limit. -/
theorem metered_read (maxBody fuel : Nat) (b : SilenceBudget) (framing : BodyFraming) (tail : Bytes) :
    Triple (purse own fun _ => BODY_COST maxBody + n) (read stream maxBody fuel b framing tail)
      (yielding (purse own fun _ => n) fun r => r.1.length ≤ maxBody) := by
  have hless : ∀ (l : Local) c, purse own (fun _ => BODY_COST maxBody + n) l c → purse own (fun _ => n) l c :=
    fun l c h => Act.funds_mono (fun _ _ => Nat.le_add_left _ _) h
  have hcost : maxBody + HEAD_BUF_SIZE ≤ BODY_COST maxBody := by
    have hmul : maxBody ≤ (CHUNK_METADATA + 1) * maxBody := Nat.le_mul_of_pos_left maxBody (Nat.succ_pos CHUNK_METADATA)
    unfold BODY_COST
    omega
  -- each framing has a budget of its own, and all fit into `BODY_COST`
  cases framing with
  | none => exact Triple.pure fun l c h => yielding_ok (hless l c h) (Nat.zero_le _)
  | contentLength len =>
      show Triple _ (readContentLength stream maxBody fuel b len tail) _
      unfold readContentLength
      split
      · exact Triple.throw fun l c h => yielding_error (hless l c h)
      next hsmall =>
        dsimp only
        split
        next hshort =>
          have hexact : Triple (purse own fun _ => BODY_COST maxBody + n)
              (b.readExactProto stream fuel (len - (tail.take len).length))
              (yielding (purse own fun _ => n) fun data => data.length = len - (tail.take len).length) := by
            refine Triple.mapError (Triple.conseq (SilenceBudget.metered_readExact hs (k := fun _ => n) fuel fuel b _ [])
              (fun l c h => Act.funds_mono (fun _ _ => ?_) h) fun _ _ _ h => h) fun r l c h => ?_
            · have hlen : len - (tail.take len).length ≤ maxBody := Nat.le_trans (Nat.sub_le _ _) (Nat.not_lt.mp hsmall)
              omega
            · cases r with
              | ok data =>
                  have hlen := h.2 data rfl
                  exact yielding_ok h.1 (by simpa using hlen)
              | error e => exact yielding_error h.1
          refine Triple.yielded hexact (fun e l c h => yielding_error h) fun rest hrest => ?_
          refine Triple.pure fun l c h => yielding_ok h ?_
          rw [List.length_append, hrest]
          omega
        next hfull =>
          refine Triple.pure fun l c h => yielding_ok (hless l c h) ?_
          exact Nat.le_trans (List.length_take_le _ _) (Nat.not_lt.mp hsmall)
  | chunked =>
      refine Triple.after (triple_pumped false tail ChunkedDecoder.inv_new rfl (Nat.zero_le _)) fun p => ?_
      refine Triple.given (fun _ _ h => h.2 p rfl) fun hp =>
        Triple.conseq (P := purse own fun _ => BODY_COST maxBody + n) ?_ (fun _ _ h => h.1) fun _ _ _ h => h
      cases p with
      | needMore d body =>
          obtain ⟨⟨hinv, hnd, hmax, -⟩, hroom⟩ := hp
          refine Triple.conseq (metered_readChunkedMore hs fuel fuel b hinv hnd hmax) (fun l c h => ?_) fun _ _ _ h => h
          refine Act.funds_mono (fun _ _ => ?_) h
          have hle := hroom d body rfl
          have hnew := ChunkedDecoder.allowance_le .new
          have hstart : chunkedRoom maxBody .new [] = ChunkedDecoder.allowance .new + (CHUNK_METADATA + 1) * maxBody := rfl
          unfold BODY_COST
          omega
      | done body leftover => exact Triple.pure fun l c h => yielding_ok (hless l c h) hp.1.1
      | error err => exact Triple.throw fun l c h => yielding_error (hless l c h)
  | untilClose =>
      have hclose : Triple (purse own fun _ => BODY_COST maxBody + n) (readUntilClose stream maxBody fuel fuel b tail)
          (yielding (purse own fun _ => n) fun body => body.length ≤ maxBody) := by
        refine Triple.conseq (metered_readUntilClose hs fuel fuel b tail) (fun l c h => ?_) fun _ _ _ h => h
        refine Act.funds_mono (fun _ _ => ?_) h
        omega
      refine Triple.yielded hclose (fun e l c h => yielding_error h) fun body hbody => ?_
      exact Triple.pure fun l c h => yielding_ok h hbody

end BodyCollector

end

/-! ## One request -/

section

variable {own : Client} {n : Nat}

namespace Client

theorem free_applyTimeouts : Keeps (purse own fun _ => n) applyTimeouts := by
  refine Triple.after free_client fun client => Triple.seq (Keeps.mapError ?_) fun _ => Keeps.mapError ?_
  · exact Triple.after (free_call fun _ => rfl) fun r => Keeps.ofExcept r
  · exact Triple.after (free_call fun _ => rfl) fun r => Keeps.ofExcept r

theorem free_reconnect (url : Url) (deadline : RequestDeadline) :
    Keeps (purse own fun _ => n) (reconnectWithDeadline url deadline) := by
  refine Triple.seq deadline.free_check fun _ => Triple.after free_client fun client => ?_
  refine Triple.after client.config.free_connectDeadline fun fallback => ?_
  refine Triple.after (deadline.free_connectDeadline fallback) fun d => ?_
  refine Triple.seq (Triple.after (free_call fun _ => rfl) fun r => Keeps.ofExcept r) fun _ => ?_
  refine Triple.after (free_modify fun _ => ⟨rfl, rfl⟩) fun _ => Triple.seq free_applyTimeouts fun _ => ?_
  exact Triple.keeps (free_modify fun _ => ⟨rfl, rfl⟩)

theorem free_reconnectSameHost (deadline : RequestDeadline) :
    Keeps (purse own fun _ => n) (reconnectSameHostWithDeadline deadline) :=
  Triple.after free_client fun _ => free_reconnect _ deadline

theorem free_ensureClean (deadline : RequestDeadline) : Keeps (purse own fun _ => n) (ensureCleanWithDeadline deadline) :=
  Triple.after free_client fun _ => Triple.ite (free_reconnectSameHost deadline) (Keeps.pure _)

theorem free_writeRequest {wire : Stream} (hs : wire.Metered own) (fuel : Nat) (b : WriteBudget) (body : Option Bytes) :
    Keeps (purse own fun _ => n) (writeRequest wire fuel b body) := by
  refine Triple.after free_client fun client => ?_
  cases body with
  | none => exact Triple.seq (WriteBudget.free_writeAllProto hs fuel b _) fun b => WriteBudget.free_flushProto hs fuel b
  | some data =>
      refine Triple.ite ?_ ?_
      · refine Triple.after (free_modify fun _ => ⟨rfl, rfl⟩) fun _ => ?_
        exact Triple.seq (WriteBudget.free_writeAllProto hs fuel b _) fun b => WriteBudget.free_flushProto hs fuel b
      · refine Triple.seq (WriteBudget.free_writeAllProto hs fuel b _) fun b => ?_
        exact Triple.seq (WriteBudget.free_writeAllProto hs fuel b _) fun b => WriteBudget.free_flushProto hs fuel b

/-- A result whose head fits into the limit. -/
abbrev headed (own : Client) (n : Nat) :=
  yielding (ε := Error) (purse own fun _ => n) fun r : HeadData × BodyFraming × Nat => r.1.headBuf.length ≤ own.maxHeadSize

open HeadData (HEADS_COST)

theorem metered_sendHeadOnce (fuel : Nat) (params : RequestParams) (deadline : RequestDeadline) :
    Triple (purse own fun _ => HEADS_COST own.maxHeadSize + n) (sendHeadOnce fuel params deadline .never)
      (headed own n) := by
  have hs := Stream.metered_never own
  have hless : ∀ (l : Local) c, purse own (fun _ => HEADS_COST own.maxHeadSize + n) l c → purse own (fun _ => n) l c :=
    fun l c h => Act.funds_mono (fun _ _ => Nat.le_add_left _ _) h
  have hfail : ∀ e l c, purse own (fun _ => HEADS_COST own.maxHeadSize + n) l c → headed own n (.error e) l c :=
    fun e l c h => yielding_error (hless l c h)
  refine Triple.bind (deadline.free_check) (fun _ => ?_) hfail
  refine Triple.orThrow (hfail _) (Triple.after (free_modify fun _ => ⟨rfl, rfl⟩) fun _ => Triple.lookClient fun l₀ => ?_)
  refine Triple.given (φ := l₀.client.maxHeadSize = own.maxHeadSize) (fun l c h => ?_) fun hmax => ?_
  · obtain ⟨rfl, hlimited, -⟩ := h
    exact hlimited.2
  refine Triple.conseq (P := purse own fun _ => HEADS_COST own.maxHeadSize + n) ?_ (fun _ _ h => h.2) fun _ _ _ h => h
  refine Triple.after (free_modify fun _ => ⟨rfl, rfl⟩) fun _ => ?_
  refine Triple.bind (Keeps.mapError (Keeps.ofExcept _)) (fun head => ?_) hfail
  refine Triple.after (free_modify fun _ => ⟨rfl, rfl⟩) fun _ => Triple.after (free_modify fun _ => ⟨rfl, rfl⟩) fun _ => ?_
  refine Triple.after (free_call fun _ => rfl) fun _ => Triple.after (WriteBudget.free_withDeadline _ _) fun b => ?_
  refine Triple.bind (free_writeRequest hs fuel b params.body) (fun _ => ?_) hfail
  rw [hmax]
  exact HeadData.metered_readResponse hs own.maxHeadSize _ _ _ fuel

/-- One attempt, and one replay. -/
theorem metered_sendHead (fuel : Nat) (params : RequestParams) (deadline : RequestDeadline) :
    Triple (purse own fun _ => HEADS_COST own.maxHeadSize + (HEADS_COST own.maxHeadSize + n))
      (sendHeadInterruptible fuel params deadline .never) (headed own n) := by
  have hless : ∀ (l : Local) c, purse own (fun _ => HEADS_COST own.maxHeadSize + n) l c → purse own (fun _ => n) l c :=
    fun l c h => Act.funds_mono (fun _ _ => Nat.le_add_left _ _) h
  have hfail : ∀ e l c, purse own (fun _ => HEADS_COST own.maxHeadSize + n) l c → headed own n (.error e) l c :=
    fun e l c h => yielding_error (hless l c h)
  refine Triple.after (Triple.attempt (metered_sendHeadOnce fuel params deadline) fun _ _ _ h => h) fun r => ?_
  cases r with
  | ok head => exact Triple.pure fun l c h => yielding_ok (hless l c h.1) (h.2 head rfl)
  | error e =>
      refine Triple.conseq (P := purse own fun _ => HEADS_COST own.maxHeadSize + n) ?_ (fun _ _ h => h.1) fun _ _ _ h => h
      refine Triple.after free_client fun client => Triple.ite ?_ (Triple.throw (hfail e))
      refine Triple.bind (x := Interrupt.never.isCancelled) (Keeps.pure false) (fun cancelled => ?_) hfail
      refine Triple.orThrow (hfail _) (Triple.bind (free_reconnectSameHost deadline) (fun _ => ?_) hfail)
      exact metered_sendHeadOnce fuel params deadline

open BodyCollector (BODY_COST)

theorem metered_readFullBody (fuel : Nat) (framing : BodyFraming) (tailOffset : Nat) (deadline : RequestDeadline) :
    Triple (purse own fun _ => BODY_COST own.config.maxResponseBody + n) (readFullBody fuel framing tailOffset deadline)
      (yielding (purse own fun _ => n) fun data => data.length ≤ own.config.maxResponseBody) := by
  have hdirty : ∀ b : Bool, Sure (purse own fun _ => n) (M.modifyClient fun c => { c with dirty := b } : M Error Unit)
      fun _ => purse own fun _ => n := fun b => free_modify fun _ => ⟨rfl, rfl⟩
  refine Triple.lookClient fun l₀ => ?_
  refine Triple.given (φ := l₀.client.config = own.config) (fun l c h => ?_) fun hconfig => ?_
  · obtain ⟨rfl, hlimited, -⟩ := h
    exact hlimited.1
  refine Triple.conseq (P := purse own fun _ => BODY_COST own.config.maxResponseBody + n) ?_ (fun _ _ h => h.2)
    fun _ _ _ h => h
  refine Triple.after (SilenceBudget.free_withDeadline _ _) fun b => ?_
  rw [hconfig]
  have hread := BodyCollector.metered_read (n := n) (Stream.metered_raw own) own.config.maxResponseBody fuel b framing
    (l₀.client.headBuf.drop tailOffset)
  refine Triple.after (Triple.attempt hread fun _ _ _ h => h) fun r => ?_
  cases r with
  | ok r =>
      refine Triple.given (φ := r.1.length ≤ own.config.maxResponseBody) (fun _ _ h => h.2 r rfl) fun hr => ?_
      refine Triple.conseq (P := purse own fun _ => n) ?_ (fun _ _ h => h.1) fun _ _ _ h => h
      obtain ⟨data, reusable⟩ := r
      cases reusable with
      | true => exact Triple.after (hdirty false) fun _ => Triple.pure fun l c h => yielding_ok h hr
      | false => exact Triple.after (hdirty true) fun _ => Triple.pure fun l c h => yielding_ok h hr
  | error e =>
      refine Triple.conseq (P := purse own fun _ => n) ?_ (fun _ _ h => h.1) fun _ _ _ h => h
      exact Triple.after (hdirty true) fun _ => Triple.throw fun l c h => yielding_error h

/-- A response that fits into the limits of the client. -/
def Response.Fits (own : Client) (response : Response) : Prop :=
  response.head.headBuf.length ≤ own.maxHeadSize ∧ response.body.length ≤ own.config.maxResponseBody

/-- What one request may cost. -/
def HOP_COST (own : Client) : Nat :=
  HEADS_COST own.maxHeadSize + (HEADS_COST own.maxHeadSize + BODY_COST own.config.maxResponseBody)

theorem metered_sendOne (fuel : Nat) (params : RequestParams) (deadline : RequestDeadline) :
    Triple (purse own fun _ => HOP_COST own + n) (sendOne fuel params deadline)
      (yielding (purse own fun _ => n) (Response.Fits own)) := by
  have hless : ∀ {m : Nat} (l : Local) c, purse own (fun _ => m + n) l c → purse own (fun _ => n) l c :=
    fun l c h => Act.funds_mono (fun _ _ => Nat.le_add_left _ _) h
  have hassoc : HOP_COST own + n = HEADS_COST own.maxHeadSize + (HEADS_COST own.maxHeadSize +
      (BODY_COST own.config.maxResponseBody + n)) := by
    unfold HOP_COST
    omega
  refine Triple.bind (free_ensureClean deadline) (fun _ => ?_) fun e l c h => yielding_error (hless l c h)
  rw [hassoc]
  refine Triple.yielded (metered_sendHead fuel params deadline) (fun e l c h => yielding_error (hless l c h))
    fun sent hsent => ?_
  refine Triple.bind deadline.free_check (fun _ => ?_) fun e l c h => yielding_error (hless l c h)
  refine Triple.yielded (metered_readFullBody fuel _ _ deadline) (fun e l c h => yielding_error h) fun body hbody => ?_
  refine Triple.ite ?_ (Triple.pure fun l c h => yielding_ok h ⟨hsent, hbody⟩)
  exact Triple.after (free_modify fun _ => ⟨rfl, rfl⟩) fun _ => Triple.pure fun l c h => yielding_ok h ⟨hsent, hbody⟩

theorem free_follow (state : RedirectState) (deadline : RequestDeadline) (status : StatusCode) (location : Bytes) :
    Keeps (purse own fun _ => n) (follow state deadline status location) := by
  refine Triple.after free_client fun client => Triple.seq (Keeps.ofExcept _) fun next => ?_
  obtain ⟨state', hop⟩ := next
  cases hop with
  | sameOrigin => exact Triple.after (free_call fun _ => rfl) fun _ => Keeps.pure _
  | reconnect target =>
      refine Keeps.orThrow (Triple.seq (Keeps.ofExcept _) fun url => Triple.after (free_call fun _ => rfl) fun _ => ?_)
      exact Triple.seq (free_reconnect url deadline) fun _ => Keeps.pure _

/-- Every hop has its own credit. -/
theorem metered_executeLoop (fuel : Nat) (deadline : RequestDeadline) (hopsLeft : Nat) (state : RedirectState) :
    Triple (purse own fun _ => (hopsLeft + 1) * HOP_COST own + n) (executeLoop fuel deadline hopsLeft state)
      (yielding (purse own fun _ => n) (Response.Fits own)) := by
  have hless : ∀ {m : Nat} (l : Local) c, purse own (fun _ => m + n) l c → purse own (fun _ => n) l c :=
    fun l c h => Act.funds_mono (fun _ _ => Nat.le_add_left _ _) h
  induction hopsLeft generalizing state with
  | zero =>
      rw [executeLoop_eq, Nat.zero_add, Nat.one_mul]
      refine Triple.yielded (metered_sendOne fuel _ deadline) (fun e l c h => yielding_error h) fun response hfits => ?_
      dsimp only
      split
      · exact Triple.pure fun l c h => yielding_ok h hfits
      · exact Triple.throw fun l c h => yielding_error h
  | succ hopsLeft ih =>
      have hassoc : (hopsLeft + 1 + 1) * HOP_COST own + n = HOP_COST own + ((hopsLeft + 1) * HOP_COST own + n) := by
        rw [Nat.succ_mul]
        omega
      rw [executeLoop_eq, hassoc]
      refine Triple.yielded (metered_sendOne fuel _ deadline) (fun e l c h => yielding_error (hless l c h))
        fun response hfits => ?_
      dsimp only
      split
      · exact Triple.pure fun l c h => yielding_ok (hless l c h) hfits
      · exact Triple.bind (free_follow _ deadline _ _) (fun state' => ih state') fun e l c h => yielding_error (hless l c h)

/-- What a call may cost, with all of its hops. -/
def CALL_COST (own : Client) : Nat := (own.config.maxRedirects + 1) * HOP_COST own

theorem metered_execute (fuel : Nat) (params : RequestParams) :
    Triple (purse own fun _ => CALL_COST own + n) (execute fuel params)
      (yielding (purse own fun _ => n) (Response.Fits own)) := by
  refine Triple.lookClient fun l₀ => ?_
  refine Triple.given (φ := l₀.client.config = own.config) (fun l c h => ?_) fun hconfig => ?_
  · obtain ⟨rfl, hlimited, -⟩ := h
    exact hlimited.1
  refine Triple.conseq (P := purse own fun _ => CALL_COST own + n) ?_ (fun _ _ h => h.2) fun _ _ _ h => h
  refine Triple.after (RequestDeadline.free_after _) fun deadline => ?_
  rw [hconfig]
  exact metered_executeLoop fuel deadline _ _

/-- The body of a streaming response is read by the caller. -/
theorem metered_executeStreaming (fuel : Nat) (params : RequestParams) :
    Triple (purse own fun _ => HEADS_COST own.maxHeadSize + (HEADS_COST own.maxHeadSize + n)) (executeStreaming fuel params)
      (yielding (purse own fun _ => n) fun r => r.1.headBuf.length ≤ own.maxHeadSize) := by
  have hless : ∀ (l : Local) c, purse own (fun _ => HEADS_COST own.maxHeadSize + (HEADS_COST own.maxHeadSize + n)) l c →
      purse own (fun _ => n) l c :=
    fun l c h => Act.funds_mono (fun _ _ => Nat.le_trans (Nat.le_add_left _ _) (Nat.le_add_left _ _)) h
  refine Triple.after free_client fun client => Triple.after (RequestDeadline.free_after _) fun deadline => ?_
  refine Triple.bind (free_ensureClean deadline) (fun _ => ?_) fun e l c h => yielding_error (hless l c h)
  refine Triple.yielded (metered_sendHead fuel params deadline) (fun e l c h => yielding_error h) fun sent hsent => ?_
  refine Triple.after free_client fun client => Triple.after (free_modify fun _ => ⟨rfl, rfl⟩) fun _ => ?_
  refine Triple.after (R := fun _ => purse own fun _ => n) ?_ fun body => Triple.pure fun l c h => yielding_ok h hsent
  exact Triple.after (SilenceBudget.free_withDeadline _ _) fun b => Triple.pure fun _ _ h => h

end Client

/-- What a program may cost that starts with nothing to spare. -/
theorem exec_metered {α : Type} {φ : α → Prop} {x : M Error α} {m bound : Nat} {l : Local} (hm : m ≤ bound)
    (hx : Triple (purse l.client fun _ => m) x (yielding (purse l.client fun _ => 0) φ)) {tr : List (Prog.Event Sys)}
    {p : Prog Sys (Except Error α × Local)} (hrun : Prog.Exec (x l) tr p) :
    Prog.spent (S := Sys) Op.received tr ≤ bound ∧ ∀ a l', p = .pure (.ok a, l') → φ a := by
  obtain ⟨hspent, hwp⟩ := Prog.exec_spent (hx l bound ⟨⟨rfl, rfl⟩, hm⟩) hrun
  refine ⟨hspent, ?_⟩
  rintro a l' rfl
  exact (Prog.wp_ghost_pure.mp hwp).2 a rfl

end

section

variable {fuel : Nat} {l : Local}

/-- **A call reads a bounded amount.** However much the peer sends, `send` and `request` take no more from the stream
    than the limits of the client allow for each hop, and what they return fits into these limits; `send_streaming` takes
    no more than two heads may need. -/
theorem calls_read_bounded :
    (∀ builder tr p, Prog.Exec (Client.send fuel builder l) tr p →
      Prog.spent (S := Sys) Op.received tr ≤ l.client.CALL_COST ∧
      ∀ response l', p = .pure (.ok response, l') → response.Fits l.client) ∧
    (∀ method path query body tr p, Prog.Exec (Client.request fuel method path query body l) tr p →
      Prog.spent (S := Sys) Op.received tr ≤ l.client.CALL_COST ∧
      ∀ response l', p = .pure (.ok response, l') → response.Fits l.client) ∧
    ∀ builder tr p, Prog.Exec (Client.sendStreaming fuel builder l) tr p →
      Prog.spent (S := Sys) Op.received tr ≤ 2 * HeadData.HEADS_COST l.client.maxHeadSize ∧
      ∀ r l', p = .pure (.ok r, l') → r.1.headBuf.length ≤ l.client.maxHeadSize := by
  have hcall : l.client.CALL_COST + 0 ≤ l.client.CALL_COST := Nat.le_of_eq (Nat.add_zero _)
  refine ⟨fun builder tr p hrun => ?_, fun method path query body tr p hrun => ?_, fun builder tr p hrun => ?_⟩
  · refine exec_metered hcall
      (Triple.bind (Keeps.ofExcept _) (fun params => Client.metered_execute fuel params) fun e l' c h => ?_) hrun
    exact yielding_error (Act.funds_mono (fun _ _ => Nat.zero_le _) h)
  · exact exec_metered hcall (Client.metered_execute fuel _) hrun
  · refine exec_metered ?_
      (Triple.bind (Keeps.ofExcept _) (fun params => Client.metered_executeStreaming fuel params) fun e l' c h => ?_) hrun
    · rw [Nat.add_zero, Nat.two_mul]
    · exact yielding_error (Act.funds_mono (fun _ _ => Nat.zero_le _) h)

end

/-- A client with the default limits, and a head of at most 256 bytes. -/
def frugal : Local := ⟨.fresh .default 256 ⟨.http, ascii "a", none, ascii "/", none, none⟩, [], false⟩

/-- A response of one chunk, which comes in two pieces. -/
def oneChunk : List (Except StdIoError Bytes) :=
  [.ok (ascii "HTTP/1.1 200 OK\r\nTransfer-Encoding: chunked\r\n\r\n2\r\nh"), .ok (ascii "i\r\n0\r\n\r\n")]

/-- Forty-seven bytes of head and twelve of body, of which two are the body's own. -/
theorem calls_read_bounded_chunk : ∃ tr response l',
    Prog.Exec (Client.request 9 .get (ascii "/") none none frugal) tr (.pure (.ok response, l')) ∧
      Prog.spent (S := Sys) Op.received tr = 59 ∧ 59 ≤ frugal.client.CALL_COST ∧
      response.body = ascii "hi" ∧ response.Fits frugal.client := by
  have hrun : ((Prog.play scripted 30 oneChunk (Client.request 9 .get (ascii "/") none none frugal)).2.result?.map
      fun r => r.1.toOption.map Client.Response.body) = some (some (ascii "hi")) := by
    decide +kernel
  have hspent : Prog.spent (S := Sys) Op.received
      (Prog.play scripted 30 oneChunk (Client.request 9 .get (ascii "/") none none frugal)).1 = 59 := by
    decide +kernel
  obtain ⟨⟨r, l'⟩, hresult, hbody⟩ := Option.map_eq_some_iff.mp hrun
  have hexec := Prog.exec_result? hresult
  cases r with
  | error e => cases hbody
  | ok response =>
      obtain ⟨hcost, hfits⟩ := calls_read_bounded.2.1 .get (ascii "/") none none _ _ hexec
      rw [hspent] at hcost
      exact ⟨_, response, l', hexec, hspent, hcost, Option.some.inj hbody, hfits response l' rfl⟩

end Xibalba
