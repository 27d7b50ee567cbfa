import Xibalba.Client.Session
import Xibalba.Lib.Stall
import Xibalba.Client.Correctness.Exchange
import Xibalba.Client.Correctness.Frame

/-!
# `Client.Correctness.Writes` — every byte is written once

A write may take less than it is offered, or nothing at all for now. What is offered next is what is still missing, from
the first byte that was not accepted: of the buffer, and of a request's head and then of its body.

Layout:
* `Upload`, what the stream has accepted, and the world in which every write resumes where the last one ended;
* `write_all_raw`: where it ends, and that nothing but a return ends it;
* the writes of `send_head_once`.
-/

namespace Xibalba

open Act (Keeps Triple)

/-! ## The record -/

/-- The bytes the stream has accepted, in order, and how often it was written to. -/
structure Upload where
  accepted : Bytes
  writes : Nat
deriving DecidableEq

namespace Upload

def start : Upload := ⟨[], 0⟩

/-- What an event adds to the record. -/
def next (u : Upload) : (op : Op) → op.Ret → Upload
  | .write buf, .ok n => ⟨u.accepted ++ buf.take n.val, u.writes + 1⟩
  | .write _, .error _ => { u with writes := u.writes + 1 }
  | _, _ => u

/-- The record of some events. -/
def of (tr : List (Prog.Event Sys)) : Upload := Prog.after next start tr

/-- What is written is all that is missing to one of `ends`, and that is not nothing. -/
def Resumes (ends : List Bytes) (u : Upload) : Op → Prop
  | .write buf => buf ≠ [] ∧ u.accepted ++ buf ∈ ends
  | _ => True

end Upload

/-- The world that keeps the record, under a monitor. -/
abbrev recorded (G : Upload → Op → Prop) : World Sys Upload := World.ghost (S := Sys) G Upload.next

/-- The world in which every write resumes. -/
abbrev uploading (ends : List Bytes) : World Sys Upload := recorded (Upload.Resumes ends)

/-- The record is `u`. -/
def still (G : Upload → Op → Prop) (u : Upload) : (recorded G).Assertion Local where
  holds _ u' := u' = u
  stable henv h := by
    cases henv
    exact h

/-- A monitor that only looks at writes. -/
def OnlyWrites (G : Upload → Op → Prop) : Prop := ∀ u op, (∀ buf, op ≠ .write buf) → G u op

theorem onlyWrites_resumes (ends : List Bytes) : OnlyWrites (Upload.Resumes ends) := by
  intro u op hop
  cases op with
  | write buf => exact absurd rfl (hop buf)
  | _ => trivial

section

variable {G : Upload → Op → Prop} (hG : OnlyWrites G) {ε : Type}

include hG

theorem OnlyWrites.timeless : Timeless G Upload.next where
  allowed u := hG u .now (by simp)
  same _ _ := rfl

theorem listening_still (u : Upload) : Listening (still G u) where
  client _ _ _ _ h := h
  wire op hop l u' h := by
    cases op with
    | now => exact ⟨hG _ _ (by simp), fun r s' hact => hact.trans h⟩
    | mark m => exact ⟨hG _ _ (by simp), fun r s' hact => hact.trans h⟩
    | _ => cases hop

end

/-! ## Streams -/

/-- A stream whose writes are writes, and whose other operations are none. -/
structure Stream.Offers (G : Upload → Op → Prop) (stream : Stream) : Prop where
  write : ∀ buf l u, G u (.write buf) → Act.wp (recorded G) (stream.write buf) (fun r _ u' =>
    match r with
    | .ok n => u' = ⟨u.accepted ++ buf.take n.val, u.writes + 1⟩
    | .error e => u'.accepted = u.accepted ∧ (Tick.marks e = true → u'.writes = u.writes + 1)) l u
  read : ∀ len u, Keeps (still G u) (stream.read len)
  flush : ∀ u, Keeps (still G u) stream.flush

/-- An interrupt that writes nothing: it has no stream to write to. -/
def Interrupt.Mute (i : Interrupt) : Prop :=
  ∀ l tr q buf, Prog.Exec ((i : M Empty Bool) l) tr q → q.next? ≠ some (.write buf)

section

variable {G : Upload → Op → Prop} (hG : OnlyWrites G) {ε : Type}

include hG

theorem Interrupt.Mute.keeps {i : Interrupt} (hi : i.Mute) (u : Upload) : Keeps (still G u) (i : M Empty Bool) := by
  rintro l _ rfl
  refine Prog.wp_of_exec fun tr q op hexec hnext => ?_
  have hop : ∀ buf, op ≠ .write buf := by
    rintro buf rfl
    exact hi l tr q buf hexec hnext
  refine ⟨hG _ op hop, fun r => ?_⟩
  cases op with
  | write buf => exact absurd rfl (hop buf)
  | _ => rfl

/-- An operation that is no write, and its answer. -/
theorem keeps_answer {op : Op} {α : Type} (hop : ∀ buf, op ≠ .write buf) (f : op.Ret → Except ε α) (u : Upload) :
    Keeps (still G u) (do Act.ofExcept (f (← Act.call (S := Sys) op)) : M ε α) := by
  refine Triple.seq (Triple.call fun l u' h => ⟨hG _ op hop, fun r s' hact => ?_⟩) fun r => Keeps.ofExcept _
  obtain rfl : s' = u'.next op r := hact
  have hnext : Upload.next u' op r = u' := by
    cases op with
    | write buf => exact absurd rfl (hop buf)
    | _ => rfl
  exact hnext.trans h

theorem Stream.offers_raw : Stream.raw.Offers G where
  write buf l u hu := by
    refine Act.wp_bind.mpr (Act.wp_ghost_call.mpr ⟨hu, fun r => ?_⟩)
    cases r with
    | ok n => exact Act.stays_ghost.mpr rfl
    | error e => exact Act.stays_ghost.mpr ⟨rfl, fun _ => rfl⟩
  read len u := keeps_answer hG (by simp) id u
  flush u := keeps_answer hG (by simp) id u

/-- A cancelled write is not a write, and is not tried again. -/
theorem Stream.offers_interruptible {i : Interrupt} (hi : i.Mute) : (Stream.interruptible i).Offers G where
  write buf l u hu := by
    have hraw := (Stream.offers_raw hG).write buf
    refine Act.wp_bind.mpr (Act.wp_infallible.mpr (Act.wp_mono (hi.keeps hG u l u rfl) ?_))
    rintro (e | cancelled) l' _ rfl
    · cases e
    · cases cancelled with
      | true =>
          simp only [Act.stays_ghost, Except.mapError, Act.cont_ok, if_true, Act.wp_bind, Act.wp_throw, Act.cont_error]
          exact ⟨trivial, by rintro ⟨⟩⟩
      | false => exact Act.stays_ghost.mpr (hraw l' _ hu)
  read len u := keeps_unless (Interrupt.keeps_isCancelled (hi.keeps hG u)) ((Stream.offers_raw hG).read len u)
  flush u := keeps_unless (Interrupt.keeps_isCancelled (hi.keeps hG u)) ((Stream.offers_raw hG).flush u)

end

/-! ## `write_all_raw` -/

namespace WriteBudget

/-- Some of `whole` was accepted, and all of it if and only if the call returned `Ok`. -/
def Uploaded {ε α : Type} (whole : Bytes) (r : Except ε α) (u : Upload) : Prop :=
  u.accepted <+: whole ∧ ((∃ a, r = .ok a) ↔ u.accepted = whole)

theorem uploaded_ok {ε α : Type} {whole : Bytes} {u : Upload} (a : α) (h : u.accepted = whole) :
    Uploaded whole (.ok a : Except ε α) u :=
  ⟨h ▸ List.prefix_refl _, fun _ => h, fun _ => ⟨a, rfl⟩⟩

/-- A call that gives up while something is missing. -/
theorem uploaded_error {ε α : Type} {buf done : Bytes} {u : Upload} (e : ε) (hbuf : buf ≠ []) (h : u.accepted = done) :
    Uploaded (done ++ buf) (.error e : Except ε α) u := by
  refine ⟨h ▸ List.prefix_append _ _, ?_, ?_⟩
  · rintro ⟨a, ha⟩
    cases ha
  · intro hwhole
    rw [h] at hwhole
    exact absurd (List.append_right_eq_self.mp hwhole.symm) hbuf

variable {ends : List Bytes} {stream : Stream}

/-- A turn of the loop offers what is missing; what it leaves missing is what the next one offers. -/
theorem uploads_writeAllRaw (hs : stream.Offers (Upload.Resumes ends)) (fuel : Nat) (b : WriteBudget) (buf : Bytes)
    (l : Local) (u : Upload) (hends : u.accepted ++ buf ∈ ends) :
    Act.wp (uploading ends) (writeAllRaw stream fuel b buf) (fun r _ u' => Uploaded (u.accepted ++ buf) r u') l u := by
  have hG := onlyWrites_resumes ends
  induction fuel generalizing b buf l u with
  | zero => exact Act.wp_hang
  | succ fuel ih =>
      unfold writeAllRaw
      by_cases hbuf : buf.isEmpty = true
      · rw [if_pos hbuf]
        refine Act.stays_ghost.mpr (uploaded_ok b ?_)
        rw [List.isEmpty_iff.mp hbuf, List.append_nil]
      rw [if_neg hbuf]
      have hne : buf ≠ [] := fun h => hbuf (List.isEmpty_iff.mpr h)
      have hlate := uploaded_error (α := WriteBudget) (u := u) RequestDeadline.error hne rfl
      refine Act.wp_bind.mpr (RequestDeadline.wp_checkIo hG.timeless ?_ (Act.stays_ghost.mpr hlate))
      refine Act.cont_ok.mpr (Act.wp_bind.mpr (Act.wp_attempt.mpr (Act.wp_mono (hs.write buf l u ⟨hne, hends⟩) ?_)))
      rintro (e | n) l₂ u₂ hu₂
      · obtain ⟨haccepted, -⟩ := hu₂
        simp only [Act.stays_ghost, Act.cont_ok]
        by_cases ht : Tick.marks e = true
        · rw [if_pos ht]
          refine wp_tick hG.timeless (uploaded_error _ hne haccepted) ?_
          rw [← haccepted] at hends ⊢
          exact ih b buf l₂ u₂ hends
        · rw [if_neg ht]
          exact Act.stays_ghost.mpr (uploaded_error e hne haccepted)
      · subst hu₂
        simp only [Act.stays_ghost, Act.cont_ok]
        have hrest : ∀ taken, (taken ++ buf.take n.val) ++ buf.drop n.val = taken ++ buf := by
          intro taken
          rw [List.append_assoc, List.take_append_drop]
        by_cases hn : n.val = 0
        · rw [if_pos hn]
          refine Act.wp_bind.mpr (Act.wp_throw.mpr (Act.stays_ghost.mpr (Act.stays_ghost.mpr (uploaded_error _ hne ?_))))
          simp [hn]
        · rw [if_neg hn]
          refine Act.wp_bind.mpr ((wp_now hG.timeless).mpr fun t => Act.cont_ok.mpr ?_)
          rw [← hrest] at hends ⊢
          exact ih _ (buf.drop n.val) l₂ ⟨_, _⟩ hends

/-- A look at the deadline comes to an end. -/
theorem stalls_checkIo (d : RequestDeadline) (H : Upload → Prop) (l : Local) (u : Upload) :
    Act.Stalls Upload.next H d.checkIo l u := by
  have hexpired : Act.Stalls Upload.next H (d.expired : M StdIoError Bool) l u := by
    unfold RequestDeadline.expired
    cases d.expiresAt with
    | none => exact Act.stalls_pure _
    | some t => exact Act.stalls_bind_any Act.stalls_call fun _ _ _ => Act.stalls_pure _
  refine Act.stalls_bind_any hexpired fun late _ _ => ?_
  cases late with
  | true => exact Act.stalls_throw _
  | false => exact Act.stalls_pure _

/-- The loop is cut off only when every turn has written. -/
theorem stalls_writeAllRaw (fuel : Nat) (b : WriteBudget) (buf : Bytes) (l : Local) (u : Upload) :
    Act.Stalls Upload.next (fun u' => u.writes + fuel ≤ u'.writes) (writeAllRaw .raw fuel b buf) l u := by
  have hG : OnlyWrites fun _ _ => True := fun _ _ _ => trivial
  induction fuel generalizing b buf l u with
  | zero => exact Act.stalls_hang (Nat.le_refl _)
  | succ fuel ih =>
      have hih : ∀ (b : WriteBudget) buf l u', u'.writes = u.writes + 1 →
          Act.Stalls Upload.next (fun u' => u.writes + (fuel + 1) ≤ u'.writes) (writeAllRaw .raw fuel b buf) l u' := by
        intro b buf l u' hwrites
        refine (ih b buf l u').mono fun u'' h => ?_
        omega
      unfold writeAllRaw
      by_cases hbuf : buf.isEmpty = true
      · rw [if_pos hbuf]
        exact Act.stalls_pure b
      rw [if_neg hbuf]
      refine Act.stalls_bind (stalls_checkIo _ _ _ _) (RequestDeadline.wp_checkIo hG.timeless ?_ trivial)
      have hwrite := (Stream.offers_raw hG).write buf l u trivial
      refine Act.stalls_bind (Act.stalls_attempt (Act.stalls_bind_any Act.stalls_call fun _ _ _ => Act.stalls_ofExcept _))
        (Act.wp_attempt.mpr (Act.wp_mono hwrite ?_))
      rintro (e | n) l₂ u₂ hu₂
      · refine Act.stays_ghost.mpr ?_
        show Act.Stalls _ _ (if Tick.marks e = true then _ else _) l₂ u₂
        by_cases ht : Tick.marks e = true
        · rw [if_pos ht]
          refine Act.stalls_bind Act.stalls_call ((wp_now hG.timeless).mpr fun t => ?_)
          show Act.Stalls _ _ (if t - b.lastProgress ≥ b.limit then _ else _) l₂ u₂
          split
          · exact Prog.stalls_pure _
          · exact hih b buf l₂ u₂ (hu₂.2 ht)
        · rw [if_neg ht]
          exact Act.stalls_throw e
      · refine Act.stays_ghost.mpr ?_
        show Act.Stalls _ _ (if n.val = 0 then _ else _) l₂ u₂
        split
        · exact Prog.stalls_pure _
        · refine Act.stalls_bind Act.stalls_call ((wp_now hG.timeless).mpr fun t => ?_)
          refine hih _ (buf.drop n.val) l₂ u₂ ?_
          rw [hu₂]

/-- The deadline's error is re-typed; what was accepted is not its business. -/
theorem uploads_writeAllProto (hs : stream.Offers (Upload.Resumes ends)) (fuel : Nat) (b : WriteBudget) (buf : Bytes)
    (l : Local) (u : Upload) (hends : u.accepted ++ buf ∈ ends) :
    Act.wp (uploading ends) (writeAllProto stream fuel b buf) (fun r _ u' => Uploaded (u.accepted ++ buf) r u') l u := by
  refine Act.wp_mapError.mpr (Act.wp_mono (uploads_writeAllRaw hs fuel b buf l u hends) ?_)
  rintro (e | b') l' u' ⟨htaken, hok⟩
  · refine Act.stays_ghost.mpr ⟨htaken, ?_, fun h => ?_⟩
    · rintro ⟨a, ha⟩
      cases ha
    · obtain ⟨a, ha⟩ := hok.mpr h
      cases ha
  · exact Act.stays_ghost.mpr (uploaded_ok b' (hok.mp ⟨b', rfl⟩))

end WriteBudget

/-! ## The writes of a request -/

namespace Client

/-- All of `whole` was accepted if the program returned `Ok`. -/
def Sends {ε α : Type} (whole : Bytes) (r : Except ε α) (u : Upload) : Prop := ∀ a, r = .ok a → u.accepted = whole

theorem sends_error {ε α : Type} (whole : Bytes) (e : ε) (u : Upload) : Sends whole (.error e : Except ε α) u := by
  intro a ha
  cases ha

section

variable {head : Bytes} {body : Option Bytes} {stream : Stream}

theorem sends_flush (hs : stream.Offers (Upload.Resumes [head, head ++ body.getD []])) (fuel : Nat) (budget : WriteBudget)
    (l : Local) (u : Upload) (hu : u.accepted = head ++ body.getD []) :
    Act.wp (uploading [head, head ++ body.getD []]) (budget.flushProto stream fuel)
      (fun r _ u' => Sends (head ++ body.getD []) r u') l u := by
  have hL := listening_still (onlyWrites_resumes [head, head ++ body.getD []]) u
  refine Act.wp_mono (Keeps.mapError (WriteBudget.keeps_flush hL (hs.flush u) fuel budget) l u rfl) ?_
  rintro r l' _ rfl a -
  exact hu

/-- The head is written and then the body, or both at once. -/
theorem sends_writeRequest (hs : stream.Offers (Upload.Resumes [head, head ++ body.getD []])) (fuel : Nat)
    (budget : WriteBudget) (l : Local) (hl : l.client.writeBuf = head) :
    Act.wp (uploading [head, head ++ body.getD []]) (writeRequest stream fuel budget body)
      (fun r _ u' => Sends (head ++ body.getD []) r u') l Upload.start := by
  have hwrite : ∀ (budget : WriteBudget) buf l u, u.accepted ++ buf ∈ [head, head ++ body.getD []] →
      Act.wp (uploading [head, head ++ body.getD []]) (budget.writeAllProto stream fuel buf)
        (fun r _ u' => Sends (u.accepted ++ buf) r u') l u := by
    intro budget buf l u hends
    refine Act.wp_mono (WriteBudget.uploads_writeAllProto hs fuel budget buf l u hends) ?_
    rintro r l' u' ⟨-, hok⟩ a ha
    exact hok.mp ⟨a, ha⟩
  simp only [writeRequest, M.client, M.modifyClient, Act.wp_bind, Act.wp_get, Act.wp_pure, Act.stays_ghost, Act.cont_ok, hl]
  cases body with
  | none =>
      refine Act.wp_bind.mpr (Act.wp_mono (hwrite budget head l .start (by simp [Upload.start])) ?_)
      rintro (e | budget) l' u' hu
      · exact Act.stays_ghost.mpr (sends_error _ e u')
      · refine Act.cont_ok.mpr (sends_flush hs fuel budget l' u' ?_)
        simpa [Upload.start] using hu budget rfl
  | some data =>
      dsimp only
      split
      · simp only [Act.wp_bind, Act.wp_modify, Act.stays_ghost, Act.cont_ok]
        refine Act.wp_mono (hwrite budget (head ++ data) _ .start (by simp [Upload.start])) ?_
        rintro (e | budget) l' u' hu
        · exact Act.stays_ghost.mpr (sends_error _ e u')
        · exact Act.cont_ok.mpr (sends_flush hs fuel budget l' u' (hu budget rfl))
      · refine Act.wp_bind.mpr (Act.wp_mono (hwrite budget head l .start (by simp [Upload.start])) ?_)
        rintro (e | budget) l' u' hu
        · exact Act.stays_ghost.mpr (sends_error _ e u')
        have hhead : u'.accepted = head := hu budget rfl
        -- the body is offered behind the whole head
        refine Act.cont_ok.mpr (Act.wp_bind.mpr (Act.wp_mono (hwrite budget data l' u' (by simp [hhead])) ?_))
        rintro (e | budget) l'' u'' hu'
        · exact Act.stays_ghost.mpr (sends_error _ e u'')
        · refine Act.cont_ok.mpr (sends_flush hs fuel budget l'' u'' ?_)
          rw [hu' budget rfl, hhead]
          rfl

end

/-- One request: nothing is written before its head, and nothing after its body. -/
theorem sends_sendHeadOnce {i : Interrupt} (hi : i.Mute) (fuel : Nat) (params : RequestParams) (deadline : RequestDeadline)
    (l : Local) {head : Bytes} (hhead : head = (requestFor l.client.origin params).wire) :
    Act.wp (uploading [head, head ++ params.body.getD []]) (sendHeadOnce fuel params deadline i)
      (fun r _ u' => Sends (head ++ params.body.getD []) r u') l Upload.start := by
  have hG := onlyWrites_resumes [head, head ++ params.body.getD []]
  have hs := Stream.offers_interruptible hG hi
  refine Act.wp_bind.mpr (RequestDeadline.wp_check hG.timeless ?_ (Act.stays_ghost.mpr (sends_error _ _ _)))
  refine Act.cont_ok.mpr ?_
  split
  · exact Act.wp_bind.mpr (Act.wp_throw.mpr (Act.stays_ghost.mpr (Act.stays_ghost.mpr (sends_error _ _ _))))
  simp only [M.client, M.modifyClient, Act.wp_bind, Act.wp_get, Act.wp_pure, Act.wp_modify, Act.stays_ghost, Act.cont_ok,
    Act.wp_mapError, Act.wp_ofExcept]
  cases hser : (requestFor l.client.origin params).serializeToWriter with
  | error e => exact Act.stays_ghost.mpr (sends_error _ _ _)
  | ok bytes =>
      obtain rfl : bytes = head := (Request.serializeToWriter_ok hser).trans hhead.symm
      simp only [Except.mapError, Act.cont_ok, Act.wp_bind, Act.wp_modify, Act.stays_ghost, discardPartialResponse,
        M.modifyClient]
      refine Act.wp_ghost_call.mpr ⟨trivial, fun _ => Act.cont_ok.mpr ?_⟩
      refine Act.wp_bind.mpr (WriteBudget.wp_withDeadline hG.timeless fun budget => Act.cont_ok.mpr ?_)
      refine Act.wp_bind.mpr (Act.wp_mono (sends_writeRequest hs fuel budget _ rfl) ?_)
      rintro (e | u) l' u' hu
      · exact Act.stays_ghost.mpr (sends_error _ e u')
      have hL := listening_still hG u'
      refine Act.cont_ok.mpr (Act.wp_mono (HeadData.keeps_readResponse hL (fun len => hs.read len u') _ _ _ _ fuel _ u' rfl) ?_)
      rintro r l'' _ rfl a -
      exact hu _ rfl

end Client

/-! ## Interrupts that write nothing -/

namespace Interrupt

/-- The monitor that allows everything but a write. -/
def noWrite (_ : Unit) (op : Op) : Prop := ∀ buf, op ≠ .write buf

/-- The world of no writes. -/
abbrev silenced : World Sys Unit := World.ghost (S := Sys) noWrite fun _ _ _ => ()

/-- Nothing is asked of the state, only of the operations. -/
def anywhere : silenced.Assertion Local where
  holds _ _ := True
  stable _ h := h

theorem aside_anywhere : Aside anywhere where
  own _ _ _ _ _ := trivial
  shared op hop _ _ _ := by
    refine ⟨?_, fun _ _ _ => trivial⟩
    rintro buf rfl
    cases hop

theorem Mute.of_keeps {i : Interrupt} (h : Keeps anywhere (i : M Empty Bool)) : i.Mute := by
  intro l tr q buf hexec hnext
  obtain ⟨k, rfl⟩ := Prog.next?_eq_some hnext
  have hwp := Prog.wp_exec (h l () trivial) hexec
  exact (Prog.wp_ghost_call.mp hwp).1 buf rfl

theorem mute_never : never.Mute := .of_keeps (Keeps.pure false)

theorem mute_outside : outside.Mute := by
  refine .of_keeps (Triple.call fun l s h => ⟨?_, fun _ _ _ => trivial⟩)
  intro buf hop
  cases hop

/-- The interrupt of the reader thread looks into the control queue. -/
theorem mute_interruptOf (fuel : Nat) (t : Ticket) : (ReaderWorker.interruptOf fuel t).Mute :=
  .of_keeps (ReaderWorker.aside_interruptOf aside_anywhere fuel t)

end Interrupt

/-! ## Every byte once -/

namespace Upload

variable {α : Type} {ends : List Bytes} {whole : Bytes} {p q : Prog Sys α} {Q : α → Upload → Prop} {u : Upload}
  {tr : List (Prog.Event Sys)}

/-- What an accepted write adds is a part of what was missing. -/
theorem prefix_next (hends : ∀ e ∈ ends, e <+: whole) {op : Op} (r : op.Ret) (hop : Resumes ends u op)
    (hu : u.accepted <+: whole) : (u.next op r).accepted <+: whole := by
  cases op with
  | write buf =>
      cases r with
      | error e => exact hu
      | ok n =>
          have htake : u.accepted ++ buf.take n.val <+: u.accepted ++ buf :=
            (List.prefix_append_right_inj _).mpr (List.take_prefix _ _)
          exact htake.trans (hends _ hop.2)
  | _ => exact hu

theorem prefix_of_exec (hends : ∀ e ∈ ends, e <+: whole) (h : Prog.wp (uploading ends) p Q start)
    (hexec : Prog.Exec p tr q) : (of tr).accepted <+: whole := by
  refine Prog.exec_invariant (I := fun u => u.accepted <+: whole) h hexec List.nil_prefix ?_
  intro u op r hop hu
  exact prefix_next hends r hop hu

/-- Behind the last byte nothing is offered. -/
theorem of_append {more : List (Prog.Event Sys)} (h : Prog.wp (uploading [whole]) p Q start)
    (hexec : Prog.Exec p tr q) (hmore : ∃ q', Prog.Exec q more q') (hall : (of tr).accepted = whole) :
    of (tr ++ more) = of tr := by
  obtain ⟨q', hexec'⟩ := hmore
  have hof : of (tr ++ more) = Prog.after next (of tr) more := List.foldl_append
  rw [hof]
  refine Prog.exec_invariant (I := fun u => u = of tr) (Prog.wp_exec h hexec) hexec' rfl ?_
  rintro _ op r hop rfl
  cases op with
  | write buf =>
      obtain ⟨hne, hrest⟩ := hop
      rw [← hall, List.mem_singleton, List.append_right_eq_self] at hrest
      exact absurd hrest hne
  | _ => rfl

end Upload

/-- The events `tr` of one `write_all_raw`, and what they have left of it. -/
structure WriteBudget.WritesOnce (turns : Nat) (buf : Bytes) (tr : List (Prog.Event Sys))
    (p : Prog Sys (Except StdIoError WriteBudget × Local)) : Prop where
  accepted : (Upload.of tr).accepted <+: buf
  offered : ∀ before after offer r, tr = before ++ ⟨.write offer, r⟩ :: after →
    offer ≠ [] ∧ (Upload.of before).accepted ++ offer = buf
  returned : ∀ r l, p = .pure (r, l) → ((∃ b, r = .ok b) ↔ (Upload.of tr).accepted = buf)
  cutOff : p = .hang → turns ≤ (Upload.of tr).writes
  finishes : (Upload.of tr).accepted = buf → (Upload.of tr).writes < turns →
    ∀ {ρ : Type} (env : Env Sys ρ) st, ∃ b l st', Prog.eval env p st = some ((.ok b, l), st')

/-- The events `tr` of one `send_head_once`, and what they have left of it. -/
structure Client.RequestOnce {α : Type} (head body : Bytes) (tr : List (Prog.Event Sys))
    (p : Prog Sys (Except Error α × Local)) : Prop where
  accepted : (Upload.of tr).accepted <+: head ++ body
  offered : ∀ before after offer r, tr = before ++ ⟨.write offer, r⟩ :: after →
    offer ≠ [] ∧ (Upload.of before).accepted ++ offer ∈ [head, head ++ body]
  returned : ∀ a l, p = .pure (.ok a, l) → (Upload.of tr).accepted = head ++ body

theorem WriteBudget.writesOnce_writeAllRaw {turns : Nat} {b : WriteBudget} {buf : Bytes} {l : Local}
    {tr : List (Prog.Event Sys)} {p : Prog Sys (Except StdIoError WriteBudget × Local)}
    (hexec : Prog.Exec (writeAllRaw .raw turns b buf l) tr p) : WritesOnce turns buf tr p := by
  have hs := Stream.offers_raw (onlyWrites_resumes [buf])
  have hwp := uploads_writeAllRaw hs turns b buf l .start (List.mem_singleton_self buf)
  have hstalls := stalls_writeAllRaw turns b buf l .start
  have hturns : ∀ {tr}, Prog.Exec (writeAllRaw .raw turns b buf l) tr .hang → turns ≤ (Upload.of tr).writes := by
    intro tr hexec
    have h := hstalls tr hexec
    rwa [show Upload.start.writes = 0 from rfl, Nat.zero_add] at h
  refine ⟨?_, ?_, ?_, ?_, ?_⟩
  · exact Upload.prefix_of_exec (by simp) hwp hexec
  · rintro before after offer r rfl
    obtain ⟨hne, hrest⟩ := Prog.exec_guard hwp hexec
    exact ⟨hne, List.mem_singleton.mp hrest⟩
  · rintro r l' rfl
    exact (Prog.exec_result hwp hexec).2
  · rintro rfl
    exact hturns hexec
  · intro hall hlt ρ env st
    rcases Prog.eval_or_stalls env p st with ⟨⟨r, l'⟩, st', heval⟩ | ⟨more, hhang⟩
    · obtain ⟨more, hmore⟩ := Prog.exec_eval heval
      have hwhole : (Upload.of (tr ++ more)).accepted = buf := by
        rw [Upload.of_append hwp hexec ⟨_, hmore⟩ hall, hall]
      obtain ⟨b', rfl⟩ := (Prog.exec_result hwp (Prog.exec_trans hexec hmore)).2.mpr hwhole
      exact ⟨b', l', st', heval⟩
    · have hcut := hturns (Prog.exec_trans hexec hhang)
      rw [Upload.of_append hwp hexec ⟨_, hhang⟩ hall] at hcut
      exact absurd hcut (Nat.not_le.mpr hlt)

theorem Client.requestOnce_sendHeadOnce {i : Interrupt} (hi : i.Mute) {fuel : Nat} {params : RequestParams}
    {deadline : RequestDeadline} {l : Local} {tr : List (Prog.Event Sys)} {p : Prog Sys (Except Error _ × Local)}
    (hexec : Prog.Exec (sendHeadOnce fuel params deadline i l) tr p) :
    RequestOnce (requestFor l.client.origin params).wire (params.body.getD []) tr p := by
  have hwp := sends_sendHeadOnce hi fuel params deadline l rfl
  refine ⟨?_, ?_, ?_⟩
  · refine Upload.prefix_of_exec ?_ hwp hexec
    simp
  · rintro before after offer r rfl
    exact Prog.exec_guard hwp hexec
  · rintro a l' rfl
    exact Prog.exec_result hwp hexec a rfl

/-- **Every byte once.** What the stream has accepted is at every moment a prefix of the buffer, or of a request's head and
    then its body; what it is offered starts with the first byte it has not accepted. A write returns `Ok` if and only if
    everything was accepted, and does return when it was. -/
theorem bytes_written_once {i : Interrupt} (hi : i.Mute) :
    (∀ turns budget buf l tr p, Prog.Exec (WriteBudget.writeAllRaw .raw turns budget buf l) tr p →
      WriteBudget.WritesOnce turns buf tr p) ∧
    ∀ turns params deadline l tr p, Prog.Exec (Client.sendHeadOnce turns params deadline i l) tr p →
      Client.RequestOnce (Client.requestFor l.client.origin params).wire (params.body.getD []) tr p :=
  ⟨fun _ _ _ _ _ _ => WriteBudget.writesOnce_writeAllRaw, fun _ _ _ _ _ _ => Client.requestOnce_sendHeadOnce hi⟩

/-- An environment in which the writes answer these results in turn, and then accept everything. -/
def accepting (writes : List (Except StdIoError Nat)) : (op : Op) → op.Ret × List (Except StdIoError Nat)
  | .write buf =>
    match writes with
    | [] => ((scripted [] (.write buf)).1, [])
    | .ok n :: writes => (.ok ⟨min n buf.length, Nat.min_le_right _ _⟩, writes)
    | .error e :: writes => (.error e, writes)
  | op => ((scripted [] op).1, writes)

/-- Three bytes to a stream that takes two of them, none, and then the last. -/
def hesitant : List (Prog.Event Sys) × Prog Sys (Except StdIoError WriteBudget × Local) :=
  Prog.play accepting 20 [.ok 2, .error ⟨.wouldBlock, .text "try again"⟩]
    (WriteBudget.writeAllRaw .raw 4 ⟨10, 0, .NONE⟩ [1, 2, 3] idle)

/-- The upload goes on with the byte the tick interrupted. -/
theorem bytes_written_once_hesitant :
    Upload.of hesitant.1 = ⟨[1, 2, 3], 3⟩ ∧ WriteBudget.WritesOnce 4 [1, 2, 3] hesitant.1 hesitant.2 ∧
      ∃ b, hesitant.2.result?.map Prod.fst = some (.ok b) := by
  have hrun := Prog.exec_play accepting 20 [.ok 2, .error ⟨.wouldBlock, .text "try again"⟩]
    (WriteBudget.writeAllRaw .raw 4 ⟨10, 0, .NONE⟩ [1, 2, 3] idle)
  have honce := (bytes_written_once Interrupt.mute_outside).1 4 ⟨10, 0, .NONE⟩ [1, 2, 3] idle _ _ hrun
  exact ⟨by decide +kernel, honce, ⟨10, 0, .NONE⟩, by decide +kernel⟩

end Xibalba
