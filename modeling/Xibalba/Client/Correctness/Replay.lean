import Xibalba.Client.Correctness.Exchange
import Xibalba.Client.Session

/-!
# `Client.Correctness.Replay` — when a request is written again

`send_head_interruptible` writes a request on a second connection only after the first one failed like an idle
connection its server closed. It is meant to do so only if no byte of a response was seen, and takes an empty
accumulator for the evidence. But an interim head leaves the accumulator when it is dropped: a connection that
fails right behind one counts as silent. `replay_safe_iff` says that this is the only way a request is repeated
that should not be.

Layout:
* how many attempts the connections of a record carry;
* `Attempts`, the monitor, and `exec_replay`, which cuts a run at the end of the first attempt;
* `ReplaySafe`, and the runs that satisfy it.
-/

namespace Xibalba

/-- How many requests began to be written on each connection. -/
def Wire.attempts (w : Wire) : List Nat := w.connections.map (·.exchanges.length)

namespace Wire

@[simp] theorem attempts_onLatest (w : Wire) (f : Exchange → Exchange) :
    (w.onLatest (·.onLatest f)).attempts = w.attempts := by
  obtain ⟨_ | ⟨⟨origin, _ | ⟨e, es⟩, stray, unclaimed⟩, cs⟩, fired, log⟩ := w <;> simp [attempts, onLatest, Connection.onLatest]

@[simp] theorem attempts_receive (w : Wire) (bs : Bytes) : (w.receive bs).attempts = w.attempts := by
  obtain ⟨_ | ⟨⟨origin, _ | ⟨e, es⟩, stray, unclaimed⟩, cs⟩, fired, log⟩ := w <;>
    simp [attempts, receive, onLatest, Connection.receive, Connection.onLatest]

@[simp] theorem attempts_send (w : Wire) (bs : Bytes) : (w.send bs).attempts = w.attempts := by
  obtain ⟨_ | ⟨⟨origin, _ | ⟨e, es⟩, stray, unclaimed⟩, cs⟩, fired, log⟩ := w <;>
    simp [attempts, send, onLatest, Connection.send, Connection.onLatest]

end Wire

/-- Nothing but complete interim heads. -/
def OnlyInterims (bs : Bytes) : Prop := ∃ interims : List Bytes, bs = interims.flatten ∧ ∀ i ∈ interims, IsInterim i

namespace Client

/-- The monitor: the request is written on the connection of the call, or once more on the next one if it may be
    replayed, nothing fired, and nothing but interim heads was read; and between the two there is one connect. -/
def Attempts (params : RequestParams) (w : Wire) : Op → Prop
  | .mark (.exchange p _) => p = params ∧
      ((∃ c, w.connections = [c] ∧ c.exchanges = []) ∨
        ∃ c₁ c₀ ex, w.connections = [c₁, c₀] ∧ c₁.exchanges = [] ∧ c₀.exchanges = [ex] ∧
          params.allowReplay = true ∧ w.fired = false ∧ OnlyInterims ex.received)
  | .connect _ _ => ∃ c ex, w.connections = [c] ∧ c.exchanges = [ex]
  | _ => True

theorem lenient_attempts (params : RequestParams) : Lenient (Attempts params) := by
  intro w op hop
  cases op with
  | connect url d => cases hop
  | mark m => cases hop
  | _ => trivial

/-- A cancellation is not the failure of a stale connection. -/
theorem isStaleConnection_cancelled : isStaleConnection (.ofStdIo Cancelled.error) = false := rfl

/-- A stale failure with an empty accumulator comes after an attempt that read interim heads only. -/
theorem SentOnce.of_stale {params : RequestParams} {l l' : Local} {c : Connection} {cs : List Connection}
    {w w' : Wire} {e : Error} (h : SentOnce params l c cs w (.error e) l' w') (hstale : isStaleConnection e = true)
    (hbuf : l'.client.headBuf = []) :
    Same l.client l'.client ∧ ∃ ex, w' = during w c cs ex ∧ OnlyInterims ex.received := by
  obtain ⟨hsame, ⟨e', he, hfresh, -⟩ | ⟨ex, interims, -, -, -, hrecv, -, hall, -, f, hw, hf⟩⟩ := h
  · rw [← Except.error.inj he, hstale] at hfresh
    cases hfresh
  · have hf : f = false := by
      cases f with
      | false => rfl
      | true =>
          rw [hf rfl, isStaleConnection_cancelled] at hstale
          cases hstale
    rw [hf, Wire.fire_false] at hw
    refine ⟨hsame, ex, hw, interims, ?_, hall⟩
    rw [hrecv, hbuf, List.append_nil]

theorem wp_attempts (fuel : Nat) (params : RequestParams) (deadline : RequestDeadline) (l : Local) :
    Act.wp (watched (Attempts params)) (sendHeadInterruptible fuel params deadline .outside)
      (fun _ _ _ => True) l (startOf l) := by
  have hG := lenient_attempts params
  have hi := Interrupt.quiet_outside hG
  simp only [sendHeadInterruptible, Act.wp_bind, Act.wp_attempt]
  refine Act.wp_mono (wp_sendHeadOnce hG hi fuel params deadline l rfl ⟨rfl, .inl ⟨_, rfl, rfl⟩⟩
    fun _ _ _ _ _ => trivial) ?_
  rintro (e | head) l' w' hsent
  · simp only [Act.stays_ghost, Act.cont_ok, Act.wp_bind, wp_client]
    split
    next hcond =>
      simp only [Bool.and_eq_true, List.isEmpty_iff] at hcond
      obtain ⟨⟨hallow, hstale⟩, hbuf⟩ := hcond
      obtain ⟨hsame, ex, rfl, honly⟩ := hsent.of_stale hstale hbuf
      refine Act.wp_bind.mpr (Act.wp_mono hi.isCancelled ?_)
      rintro _ l'' w'' ⟨hl, b, f, rfl, rfl, hf⟩
      simp only [Act.cont_ok]
      split
      · exact Act.stays_ghost.mpr trivial
      next hb =>
        have hf : f = false := by
          cases f with
          | false => rfl
          | true => exact absurd (hf rfl) hb
        subst hf
        rw [Wire.fire_false]
        simp only [reconnectSameHostWithDeadline, Act.wp_bind, wp_client, Act.cont_ok]
        refine Act.wp_mono (wp_reconnectWithDeadline hG fun d => ⟨_, ex, rfl, rfl⟩) ?_
        intro r l₃ w₃ hr
        cases hr with
        | late => exact Act.stays_ghost.mpr trivial
        | refused => exact Act.stays_ghost.mpr trivial
        | failed => exact Act.stays_ghost.mpr trivial
        | done =>
            refine Act.cont_ok.mpr (Act.wp_mono (wp_sendHeadOnce hG hi fuel params deadline _ rfl ?_ ?_)
              fun _ _ _ _ => trivial)
            · exact ⟨rfl, .inr ⟨_, _, ex, rfl, rfl, rfl, hallow, rfl, honly⟩⟩
            · exact fun _ _ _ _ _ => trivial
    next => exact Act.stays_ghost.mpr trivial
  · exact Act.stays_ghost.mpr (Act.stays_ghost.mpr trivial)

/-- A run is one of the first attempt, or it has seen that attempt fail like a stale connection. -/
theorem exec_replay {fuel : Nat} {params : RequestParams} {deadline : RequestDeadline} {i : Interrupt} {l : Local}
    {tr : List (Prog.Event Sys)} {p : Prog Sys (Except Error (HeadData × BodyFraming × Nat) × Local)}
    (h : Prog.Exec (sendHeadInterruptible fuel params deadline i l) tr p) :
    (∃ q, Prog.Exec (sendHeadOnce fuel params deadline i l) tr q) ∨
      ∃ e l' tr₁ tr₂, tr = tr₁ ++ tr₂ ∧ Prog.Exec (sendHeadOnce fuel params deadline i l) tr₁ (.pure (.error e, l')) ∧
        isStaleConnection e = true := by
  rcases Act.exec_attempt_bind h with h | ⟨r, l', tr₁, tr₂, rfl, h₁, h₂⟩
  · exact .inl h
  · cases r with
    | ok head =>
        cases h₂
        exact .inl ⟨_, by simpa using h₁⟩
    | error e =>
        by_cases hstale : isStaleConnection e = true
        · exact .inr ⟨e, l', tr₁, tr₂, rfl, h₁, hstale⟩
        · -- without a replay the error is all that is left
          have hcond : ¬ (params.allowReplay && isStaleConnection e && l'.client.headBuf.isEmpty) = true := by
            simp [hstale]
          have h₂ : Prog.Exec ((if (params.allowReplay && isStaleConnection e && l'.client.headBuf.isEmpty) = true then _
            else Act.throw e : M Error (HeadData × BodyFraming × Nat)) l') tr₂ p := h₂
          rw [if_neg hcond] at h₂
          cases h₂
          exact .inl ⟨_, by simpa using h₁⟩

/-- The monitor of one attempt: it begins in the record `w₀`. -/
def BeginsIn (w₀ w : Wire) : Op → Prop
  | .mark (.exchange _ _) => w = w₀
  | _ => True

theorem lenient_beginsIn (w₀ : Wire) : Lenient (BeginsIn w₀) := by
  intro w op hop
  cases op with
  | mark m => cases hop
  | _ => trivial

/-- The first attempt begins once, and then nothing else has. -/
theorem exec_sendHeadOnce_exchange {fuel : Nat} {params : RequestParams} {deadline : RequestDeadline} {l : Local}
    {pre post : List (Prog.Event Sys)} {e : Prog.Event Sys}
    {q : Prog Sys (Except Error (HeadData × BodyFraming × Nat) × Local)}
    (h : Prog.Exec (sendHeadOnce fuel params deadline .outside l) (pre ++ e :: post) q) {p : RequestParams} {r : Request}
    (hop : e.op = .mark (.exchange p r)) : recordFrom l pre = startOf l := by
  have hG := lenient_beginsIn (startOf l)
  have hwp := wp_sendHeadOnce hG (Interrupt.quiet_outside hG) fuel params deadline l (w := startOf l) rfl rfl
    fun _ _ _ _ _ => trivial
  have hg := Prog.exec_guard hwp h
  rw [hop] at hg
  exact hg

end Client

/-- **Replay safety** of a run: each of at most two connections carries the request once, and it is written again
    only if it may be replayed, the first attempt failed like a stale connection, no interrupt fired, and no byte
    of a response was received. -/
structure ReplaySafe (fuel : Nat) (params : RequestParams) (deadline : RequestDeadline) (l : Local)
    (tr : List (Prog.Event Sys)) : Prop where
  twice : (recordFrom l tr).attempts.length ≤ 2 ∧ ∀ n ∈ (recordFrom l tr).attempts, n ≤ 1
  again : ∀ pre (e : Prog.Event Sys) post p r, tr = pre ++ e :: post → e.op = .mark (.exchange p r) → p = params ∧
    ∀ c ∈ (recordFrom l pre).connections, ∀ first ∈ c.exchanges,
      params.allowReplay = true ∧ (recordFrom l pre).fired = false ∧ first.received = [] ∧
      ∃ err l' tr₁ tr₂, pre = tr₁ ++ tr₂ ∧
        Prog.Exec (Client.sendHeadOnce fuel params deadline .outside l) tr₁ (.pure (.error err, l')) ∧
        Client.isStaleConnection err = true

/-- The exception: the request is about to be written again, and the first connection delivered complete interim
    heads and nothing else. -/
def ResentAfterInterims (l : Local) (tr : List (Prog.Event Sys)) : Prop :=
  ∃ pre, ∃ e : Prog.Event Sys, ∃ post p r, tr = pre ++ e :: post ∧ e.op = .mark (.exchange p r) ∧
    ∃ c ∈ (recordFrom l pre).connections, ∃ first ∈ c.exchanges, first.received ≠ [] ∧ OnlyInterims first.received

section

variable {fuel : Nat} {params : RequestParams} {deadline : RequestDeadline} {l : Local} {tr : List (Prog.Event Sys)}
  {p : Prog Sys (Except Error (HeadData × BodyFraming × Nat) × Local)}

/-- What the monitor allows keeps the attempts apart. -/
theorem attempts_step (w : Wire) (op : Op) (r : op.Ret) (hg : Client.Attempts params w op)
    (h : w.attempts.length ≤ 2 ∧ ∀ n ∈ w.attempts, n ≤ 1) :
    (w.next op r).attempts.length ≤ 2 ∧ ∀ n ∈ (w.next op r).attempts, n ≤ 1 := by
  cases op with
  | connect url d =>
      obtain ⟨c, ex, hw, hex⟩ := hg
      cases r with
      | error e => exact h
      | ok u => simp [Wire.next, Wire.dial, Wire.attempts, hw, hex]
  | mark m =>
      cases m with
      | exchange q request =>
          obtain ⟨-, ⟨c, hw, hex⟩ | ⟨c₁, c₀, ex, hw, h₁, h₀, -⟩⟩ := hg
          · simp [Wire.next, Wire.begin, Wire.onLatest, Wire.attempts, hw, hex]
          · simp [Wire.next, Wire.begin, Wire.onLatest, Wire.attempts, hw, h₁, h₀]
      | response acc headEnd => exact h
      | redirect location => exact h
      | taken t => exact h
      | call => exact h
  | read len =>
      cases r with
      | error e => exact h
      | ok bs =>
          show (w.receive bs.val).attempts.length ≤ 2 ∧ ∀ n ∈ (w.receive bs.val).attempts, n ≤ 1
          rw [Wire.attempts_receive]
          exact h
  | write buf =>
      cases r with
      | error e => exact h
      | ok n =>
          show (w.send _).attempts.length ≤ 2 ∧ ∀ n ∈ (w.send _).attempts, n ≤ 1
          rw [Wire.attempts_send]
          exact h
  | flush =>
      cases r with
      | error e => exact h
      | ok u =>
          show (w.flush).attempts.length ≤ 2 ∧ ∀ n ∈ (w.flush).attempts, n ≤ 1
          rw [Wire.flush, Wire.attempts_onLatest]
          exact h
  | _ => exact h

/-- **When a replay is safe.** A run of `send_head_interruptible`, with any interrupt, stream and `Connector`, is
    replay safe exactly if it does not write the request again after the first connection delivered complete interim
    heads and nothing else. -/
theorem replay_safe_iff (hrun : Prog.Exec (Client.sendHeadInterruptible fuel params deadline .outside l) tr p) :
    ReplaySafe fuel params deadline l tr ↔ ¬ ResentAfterInterims l tr := by
  have hwp := Client.wp_attempts fuel params deadline l
  constructor
  · rintro hsafe ⟨pre, e, post, q, r, htr, hop, c, hc, first, hfirst, hne, -⟩
    obtain ⟨-, hagain⟩ := hsafe.again pre e post q r htr hop
    exact hne (hagain c hc first hfirst).2.2.1
  · intro hcond
    refine ⟨Prog.exec_invariant hwp hrun (by simp [startOf, Wire.attempts]) attempts_step, ?_⟩
    intro pre e post q r htr hop
    have hg : Client.Attempts params (recordFrom l pre) e.op := by
      rw [htr] at hrun
      exact Prog.exec_guard hwp hrun
    rw [hop] at hg
    obtain ⟨hq, hg⟩ := hg
    refine ⟨hq, fun c hc first hfirst => ?_⟩
    -- the record holds an exchange, so this is the second attempt
    obtain ⟨c', hw, hex⟩ | ⟨c₁, c₀, ex, hw, h₁, h₀, hallow, hfired, honly⟩ := hg
    · rw [hw, List.mem_singleton] at hc
      rw [hc, hex] at hfirst
      cases hfirst
    have hfirst : first = ex := by
      rw [hw] at hc
      rcases List.mem_pair.mp hc with rfl | rfl
      · rw [h₁] at hfirst
        cases hfirst
      · rw [h₀, List.mem_singleton] at hfirst
        exact hfirst
    subst hfirst
    refine ⟨hallow, hfired, ?_, ?_⟩
    · by_contra hne
      exact hcond ⟨pre, e, post, q, r, htr, hop, c₀, by simp [hw], first, by simp [h₀], hne, honly⟩
    · have hnot : recordFrom l pre ≠ startOf l := by
        intro heq
        rw [heq] at hw
        cases hw
      rcases Client.exec_replay hrun with ⟨q', hfirst⟩ | ⟨err, l', tr₁, tr₂, htr', hfirst, hstale⟩
      · rw [htr] at hfirst
        exact absurd (Client.exec_sendHeadOnce_exchange hfirst hop) hnot
      · rw [htr] at htr'
        rcases List.append_eq_append_iff.mp htr' with ⟨as, htr₁, hsplit⟩ | ⟨as, hpre, -⟩
        · cases as with
          | nil => exact ⟨err, l', tr₁, [], by simpa using htr₁.symm, hfirst, hstale⟩
          | cons a as =>
              obtain ⟨rfl, -⟩ := List.cons.inj hsplit
              rw [htr₁] at hfirst
              exact absurd (Client.exec_sendHeadOnce_exchange hfirst hop) hnot
        · exact ⟨err, l', tr₁, as, hpre, hfirst, hstale⟩

end

/-- The operation at which a request begins to be written. -/
def Op.begins : Op → Bool
  | .mark (.exchange _ _) => true
  | _ => false

/-- A request without a body that may be replayed, sent on a connection the server may have closed. -/
def staleGet : Prog Sys (Except Error (HeadData × BodyFraming × Nat) × Local) :=
  Client.sendHeadInterruptible 9 ⟨.get, ascii "/", none, none, [], true⟩ .NONE .outside idle

/-- Its events when the reads answer `reads`. -/
def staleRun (reads : List (Except StdIoError Bytes)) : List (Prog.Event Sys) := (Prog.play scripted 40 reads staleGet).1

/-- The first connection is closed at once. -/
def closedAtOnce : List (Except StdIoError Bytes) := [.ok [], .ok (ascii "HTTP/1.1 204 No Content\r\n\r\n")]

/-- The first connection is closed behind an interim head. -/
def closedAfterInterim : List (Except StdIoError Bytes) :=
  [.ok (ascii "HTTP/1.1 100 Continue\r\n\r\n"), .ok [], .ok (ascii "HTTP/1.1 204 No Content\r\n\r\n")]

/-- A connection that is closed at once: the request is written again, and the run is replay safe. -/
theorem replay_safe_iff_closed_at_once : (recordFrom idle (staleRun closedAtOnce)).attempts = [1, 1] ∧
    ReplaySafe 9 ⟨.get, ascii "/", none, none, [], true⟩ .NONE idle (staleRun closedAtOnce) := by
  have hrun := Prog.exec_play scripted 40 closedAtOnce staleGet
  have hsilent : ∀ n < (staleRun closedAtOnce).length, (((staleRun closedAtOnce).map Prog.Event.op)[n]?).any Op.begins = true →
      ∀ c ∈ (recordFrom idle ((staleRun closedAtOnce).take n)).connections, ∀ ex ∈ c.exchanges, ex.received = [] := by
    decide +kernel
  refine ⟨by decide +kernel, (replay_safe_iff hrun).mpr ?_⟩
  rintro ⟨pre, e, post, q, r, htr, hop, c, hc, first, hfirst, hne, -⟩
  have htr : staleRun closedAtOnce = pre ++ e :: post := htr
  refine hne (hsilent pre.length ?_ ?_ c ?_ first hfirst)
  · simp [htr]
  · simp [htr, hop, Op.begins]
  · rw [htr, List.take_left]
    exact hc

/-- A server that sends `100 Continue` and closes the connection gets the request again. -/
theorem replay_after_interim :
    ∃ tr p, Prog.Exec staleGet tr p ∧ ¬ ReplaySafe 9 ⟨.get, ascii "/", none, none, [], true⟩ .NONE idle tr := by
  have hrun := Prog.exec_play scripted 40 closedAfterInterim staleGet
  refine ⟨_, _, hrun, fun hsafe => ?_⟩
  have hop : ((staleRun closedAfterInterim).map Prog.Event.op)[19]? =
      some (Op.mark (.exchange ⟨.get, ascii "/", none, none, [], true⟩
        (Client.requestFor ⟨.http, ascii "a", 80⟩ ⟨.get, ascii "/", none, none, [], true⟩))) := by
    decide +kernel
  have hreceived : ∃ c ∈ (recordFrom idle ((staleRun closedAfterInterim).take 19)).connections,
      ∃ first ∈ c.exchanges, first.received ≠ [] := by
    decide +kernel
  obtain ⟨e, post, he, hsplit⟩ := Prog.Event.split hop
  obtain ⟨c, hc, first, hfirst, hne⟩ := hreceived
  obtain ⟨-, hagain⟩ := hsafe.again _ e post _ _ hsplit he
  exact hne (hagain c hc first hfirst).2.2.1

end Xibalba
