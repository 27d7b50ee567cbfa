import Xibalba.Lib.Eval
import Xibalba.Client.Budget

/-!
# `Client.Correctness.Delivery` — a stream that delivers given bytes

What a server sends reaches the client in pieces, with timeout ticks between them, and then the stream ends. That is a
`Delivery`. An environment that serves one may answer every other operation as it likes, the clock included, so a
statement about all of them is one about every way the bytes arrive and every passing of time.

A read under a budget sees the segments of the delivery and its ending, and no tick, as long as the budget lasts.
That is a matter of the clock and the ticks alone: `Lasts` says what it takes.

Layout:
* `Piece`, `Ending`, `Delivery` and what a read takes from it;
* `Supplies`, the environments that make a delivery;
* `Lasts` and `Punctual`, when a budget does not run out;
* reads under a budget.
-/

namespace Xibalba

/-! ## Deliveries -/

/-- What one read of the stream can find: some bytes, or a timeout tick. -/
inductive Piece where
  | data (bs : Bytes) (h : bs ≠ [])
  | tick (e : StdIoError) (h : Tick.marks e = true)

namespace Piece

def bytes : Piece → Bytes
  | data bs _ => bs
  | tick _ _ => []

/-- The reads a piece can serve, at most. -/
def size : Piece → Nat
  | data bs _ => bs.length
  | tick _ _ => 1

end Piece

/-- How a stream ends: the peer closes it, or it fails. -/
inductive Ending where
  | eof
  | failed (e : StdIoError) (h : Tick.marks e = false)

/-- What a read finds past the last piece. -/
def Ending.answer {len : Nat} : Ending → Except StdIoError { bs : Bytes // bs.length ≤ len }
  | eof => .ok ⟨[], Nat.zero_le _⟩
  | failed e _ => .error e

/-- The error of a reader that still wants bytes. -/
def Ending.error : Ending → Error
  | eof => .connection .connectionClosed
  | failed e _ => RequestDeadline.classify e

/-- The same where a body of known length is read. -/
def Ending.cut : Ending → StdIoError
  | eof => ⟨.unexpectedEof, .text "connection closed mid-body"⟩
  | failed e _ => e

structure Delivery where
  pieces : List Piece
  ending : Ending

namespace Delivery

/-- The bytes still to come. -/
def bytes (f : Delivery) : Bytes := f.pieces.flatMap Piece.bytes

/-- The segments still to come. -/
def segments (f : Delivery) : List Bytes := (f.pieces.map Piece.bytes).filter (!·.isEmpty)

/-- The reads a delivery can serve before its ending, at most. -/
def size (f : Delivery) : Nat := (f.pieces.map Piece.size).sum

/-- A read with a buffer of `len` bytes: the first piece as far as the buffer allows. -/
def read (f : Delivery) (len : Nat) : Except StdIoError { bs : Bytes // bs.length ≤ len } × Delivery :=
  match f.pieces with
  | [] => (f.ending.answer, f)
  | .tick e _ :: pieces => (.error e, { f with pieces := pieces })
  | .data bs _ :: pieces =>
    if hlt : len < bs.length then
      have hne : bs.drop len ≠ [] := by
        intro hnil
        have := List.drop_eq_nil_iff.mp hnil
        omega
      (.ok ⟨bs.take len, List.length_take_le _ _⟩, { f with pieces := .data (bs.drop len) hne :: pieces })
    else (.ok ⟨bs, by omega⟩, { f with pieces := pieces })

/-- What a read of `len` bytes leaves of the segments, the first of which is `s`. -/
def leave (len : Nat) (s : Bytes) (ss : List Bytes) : List Bytes := if len < s.length then s.drop len :: ss else ss

theorem segments_data {bs : Bytes} {h : bs ≠ []} {pieces : List Piece} {ending : Ending} :
    segments ⟨.data bs h :: pieces, ending⟩ = bs :: segments ⟨pieces, ending⟩ := by
  simp [segments, Piece.bytes, h]

theorem segments_tick {e : StdIoError} {h : Tick.marks e = true} {pieces : List Piece} {ending : Ending} :
    segments ⟨.tick e h :: pieces, ending⟩ = segments ⟨pieces, ending⟩ := by
  simp [segments, Piece.bytes]

/-- The segments are not empty. -/
theorem segments_ne_nil {f : Delivery} {s : Bytes} (hs : s ∈ f.segments) : s ≠ [] := by
  have := (List.mem_filter.mp hs).2
  simpa using this

theorem flatten_segments (f : Delivery) : f.segments.flatten = f.bytes := by
  obtain ⟨pieces, ending⟩ := f
  induction pieces with
  | nil => rfl
  | cons piece pieces ih =>
      cases piece with
      | data bs h =>
          rw [segments_data, List.flatten_cons, ih]
          rfl
      | tick e h =>
          rw [segments_tick, ih]
          rfl

theorem leave_flatten (len : Nat) (s : Bytes) (ss : List Bytes) :
    s.take len ++ (leave len s ss).flatten = s ++ ss.flatten := by
  unfold leave
  by_cases hlt : len < s.length
  · rw [if_pos hlt, List.flatten_cons, ← List.append_assoc, List.take_append_drop]
  · rw [if_neg hlt, List.take_of_length_le (by omega)]

/-! ### Reads of one size -/

/-- `s` in pieces of `len` bytes, the last one shorter; `turns` of them at most. -/
def chopped (len : Nat) : Nat → Bytes → List Bytes
  | 0, _ => []
  | turns + 1, s => if len < s.length then s.take len :: chopped len turns (s.drop len) else [s]

/-- The deliveries of reads with a buffer of `len` bytes, ticks apart. -/
def bites (f : Delivery) (len : Nat) : List Bytes := f.segments.flatMap fun s => chopped len s.length s

theorem chopped_turns {len : Nat} (hlen : 0 < len) {s : Bytes} (hs : s ≠ []) {m n : Nat} (hm : s.length ≤ m)
    (hn : s.length ≤ n) : chopped len m s = chopped len n s := by
  have hpos : 0 < s.length := List.length_pos_iff.mpr hs
  induction m generalizing n s with
  | zero => omega
  | succ m ih =>
      cases n with
      | zero => omega
      | succ n =>
          rw [chopped, chopped]
          by_cases hlt : len < s.length
          · have hdrop : (s.drop len).length = s.length - len := List.length_drop
            have hne : s.drop len ≠ [] := List.ne_nil_of_length_pos (by omega)
            rw [if_pos hlt, if_pos hlt, ih hne (n := n) (by omega) (by omega) (by omega)]
          · rw [if_neg hlt, if_neg hlt]

/-- Segments that fit in the buffer are read whole. -/
theorem bites_of_le {f : Delivery} {len : Nat} (h : ∀ s ∈ f.segments, s.length ≤ len) : f.bites len = f.segments := by
  have hne : ∀ s ∈ f.segments, s ≠ [] := fun s => segments_ne_nil
  rw [bites]
  generalize f.segments = ss at h hne
  induction ss with
  | nil => rfl
  | cons s ss ih =>
      have hpos : 0 < s.length := List.length_pos_iff.mpr (hne s List.mem_cons_self)
      obtain ⟨n, hn⟩ : ∃ n, s.length = n + 1 := ⟨s.length - 1, by omega⟩
      have hone : chopped len s.length s = [s] := by
        have hle := h s List.mem_cons_self
        rw [hn, chopped, if_neg (by omega)]
      rw [List.flatMap_cons, hone, ih (fun t ht => h t (List.mem_cons_of_mem s ht)) fun t ht =>
        hne t (List.mem_cons_of_mem s ht)]
      rfl

/-- A read takes the first bite. -/
theorem leave_bites {len : Nat} (hlen : 0 < len) {s : Bytes} (hs : s ≠ []) (ss : List Bytes) :
    ((s :: ss).flatMap fun s => chopped len s.length s) =
      s.take len :: (leave len s ss).flatMap fun s => chopped len s.length s := by
  have hpos : 0 < s.length := List.length_pos_iff.mpr hs
  obtain ⟨n, hn⟩ : ∃ n, s.length = n + 1 := ⟨s.length - 1, by omega⟩
  rw [List.flatMap_cons, hn, chopped, leave]
  by_cases hlt : len < s.length
  · have hdrop : (s.drop len).length = s.length - len := List.length_drop
    have hne : s.drop len ≠ [] := List.ne_nil_of_length_pos (by omega)
    have hturns : n ≥ (s.drop len).length := by omega
    rw [if_pos hlt, if_pos hlt, List.flatMap_cons, List.cons_append, chopped_turns hlen hne hturns (Nat.le_refl _)]
  · rw [if_neg hlt, if_neg hlt, List.take_of_length_le (by omega)]
    rfl

/-! ### Reads that wait out the ticks -/

/-- What a read that waits out the ticks finds: the next bite, or the end of the stream behind the last one. -/
inductive Pulls (f : Delivery) (len : Nat) (f' : Delivery) : Except StdIoError { bs : Bytes // bs.length ≤ len } → Prop where
  | bytes {bs : { bs : Bytes // bs.length ≤ len }} (hne : bs.val ≠ []) (hbytes : f.bytes = bs.val ++ f'.bytes)
      (hbites : f.bites len = bs.val :: f'.bites len) (hend : f'.ending = f.ending)
      (hsize : f'.size + bs.val.length ≤ f.size) : Pulls f len f' (.ok bs)
  | eof {bs : { bs : Bytes // bs.length ≤ len }} (hnil : bs.val = []) (heof : f.ending = .eof) (hbytes : f.bytes = [])
      (hbytes' : f'.bytes = []) (hend : f'.ending = f.ending) (hsize : f'.size ≤ f.size) : Pulls f len f' (.ok bs)
  | failed {e : StdIoError} {he : Tick.marks e = false} (hfailed : f.ending = .failed e he) (hbytes : f.bytes = [])
      (hbytes' : f'.bytes = []) (hend : f'.ending = f.ending) (hsize : f'.size ≤ f.size) : Pulls f len f' (.error e)

/-- A segment that is read as far as the buffer allows. -/
theorem pulls_segment {f f' : Delivery} {len : Nat} (hlen : 0 < len) {s : Bytes} {ss : List Bytes}
    {bs : { bs : Bytes // bs.length ≤ len }} (hseg : f.segments = s :: ss) (hbs : bs.val = s.take len)
    (hleft : f'.segments = leave len s ss) (hend : f'.ending = f.ending) (hsize : f'.size + bs.val.length ≤ f.size) :
    f.Pulls len f' (.ok bs) := by
  have hs : s ≠ [] := segments_ne_nil (hseg ▸ List.mem_cons_self)
  refine .bytes ?_ ?_ ?_ hend hsize
  · intro hnil
    rw [hbs] at hnil
    rcases List.take_eq_nil_iff.mp hnil with h | h
    · omega
    · exact hs h
  · rw [← flatten_segments, ← flatten_segments, hseg, hbs, hleft, leave_flatten, List.flatten_cons]
  · rw [bites, bites, hseg, hleft, hbs, leave_bites hlen hs]

/-- A read finds a tick, or what `Pulls` says. -/
theorem read_pulls (f : Delivery) {len : Nat} (hlen : 0 < len) :
    (∃ e, (f.read len).1 = .error e ∧ Tick.marks e = true ∧ (f.read len).2.segments = f.segments ∧
      (f.read len).2.ending = f.ending ∧ (f.read len).2.size < f.size) ∨
      f.Pulls len (f.read len).2 (f.read len).1 := by
  obtain ⟨pieces, ending⟩ := f
  rcases pieces with _ | ⟨piece, pieces⟩
  · apply Or.inr
    cases ending with
    | eof => exact .eof rfl rfl rfl rfl rfl (Nat.le_refl _)
    | failed e he => exact .failed rfl rfl rfl rfl (Nat.le_refl _)
  · cases piece with
    | tick e h =>
        refine .inl ⟨e, rfl, h, segments_tick.symm, rfl, ?_⟩
        simp [read, size, Piece.size]
    | data bs h =>
        apply Or.inr
        by_cases hlt : len < bs.length
        · have hread : read ⟨.data bs h :: pieces, ending⟩ len = (.ok ⟨bs.take len, List.length_take_le _ _⟩,
              ⟨.data (bs.drop len) (by simpa using hlt) :: pieces, ending⟩) := by
            simp only [read]
            rw [dif_pos hlt]
          rw [hread]
          refine pulls_segment hlen segments_data rfl ?_ rfl ?_
          · rw [segments_data, leave, if_pos hlt]
          · simp only [size, List.map_cons, List.sum_cons, Piece.size, List.length_drop, List.length_take]
            omega
        · have hread : read ⟨.data bs h :: pieces, ending⟩ len = (.ok ⟨bs, Nat.not_lt.mp hlt⟩, ⟨pieces, ending⟩) := by
            simp only [read]
            rw [dif_neg hlt]
          rw [hread]
          refine pulls_segment hlen segments_data (List.take_of_length_le (Nat.not_lt.mp hlt)).symm ?_ rfl ?_
          · rw [leave, if_neg hlt]
          · simp only [size, List.map_cons, List.sum_cons, Piece.size]
            omega

/-- There are no ticks on the way. -/
def Tickless (f : Delivery) : Prop := ∀ e he, .tick e he ∉ f.pieces

theorem Tickless.read {f : Delivery} (hf : f.Tickless) (len : Nat) :
    (f.read len).2.Tickless ∧ ∀ e, (f.read len).1 = .error e → Tick.marks e = false := by
  obtain ⟨pieces, ending⟩ := f
  rcases pieces with _ | ⟨piece, pieces⟩
  · refine ⟨hf, fun e he => ?_⟩
    cases ending with
    | eof => cases he
    | failed e' h =>
        cases he
        exact h
  · cases piece with
    | tick e h => exact absurd List.mem_cons_self (hf e h)
    | data bs h =>
        have hrest : ∀ e he, .tick e he ∉ pieces := fun e he hmem => hf e he (List.mem_cons_of_mem _ hmem)
        unfold Delivery.read
        dsimp only
        split
        · refine ⟨fun e he hmem => ?_, nofun⟩
          rcases List.mem_cons.mp hmem with heq | hmem
          · cases heq
          · exact hrest e he hmem
        · exact ⟨hrest, nofun⟩

/-- What is read next does not depend on ticks that came before. -/
theorem Pulls.of_tick {f f' f'' : Delivery} {len : Nat} {r : Except StdIoError { bs : Bytes // bs.length ≤ len }}
    (h : f'.Pulls len f'' r) (hseg : f'.segments = f.segments) (hend : f'.ending = f.ending)
    (hsize : f'.size < f.size) : f.Pulls len f'' r := by
  have hbytes : f'.bytes = f.bytes := by rw [← flatten_segments, hseg, flatten_segments]
  have hbites : f'.bites len = f.bites len := by rw [bites, bites, hseg]
  cases h with
  | bytes hne hb hbs he hs => exact .bytes hne (hbytes ▸ hb) (hbites ▸ hbs) (he.trans hend) (by omega)
  | eof hnil heof hb hb' he hs => exact .eof hnil (hend ▸ heof) (hbytes ▸ hb) hb' (he.trans hend) (by omega)
  | failed hfailed hb hb' he hs => exact .failed (hend ▸ hfailed) (hbytes ▸ hb) hb' (he.trans hend) (by omega)

theorem Pulls.not_tick {f f' : Delivery} {len : Nat} {e : StdIoError} (h : f.Pulls len f' (.error e)) :
    Tick.marks e = false := by
  cases h with
  | failed hfailed _ _ _ _ =>
      rename_i he
      exact he

end Delivery

/-! ## Environments that serve a delivery -/

/-- The environment answers reads from what is due, and nothing else but a new connection touches it. -/
structure Supplies {ρ : Type} (env : Env Sys ρ) (due : ρ → Delivery) : Prop where
  read : ∀ st len, (env st (.read len)).1 = ((due st).read len).1
  read_due : ∀ st len, due (env st (.read len)).2 = ((due st).read len).2
  other : ∀ st op, (∀ len, op ≠ .read len) → (∀ url deadline, op ≠ .connect url deadline) →
    due (env st op).2 = due st

/-- An environment that serves a delivery, and otherwise does what it is asked for: the clock stands still, writes are
    taken whole, no flag is raised and nothing is on the control ring. -/
def Delivery.serve (now : Instant) : Env Sys Delivery
  | f, .read len => f.read len
  | f, .now => (now, f)
  | f, .connect _ _ => (.ok (), f)
  | f, .setReadTimeout _ | f, .setWriteTimeout _ | f, .flush => (.ok (), f)
  | f, .write buf => (.ok ⟨buf.length, Op.all_accepted buf⟩, f)
  | f, .isCancelled | f, .loadShuttingDown | f, .loadCancelAny | f, .loadCancelled _ => (false, f)
  | f, .loadConsumerAlive _ | f, .push _ _ => (true, f)
  | f, .pop | f, .popBlock => (none, f)
  | f, .storeCancelAny _ | f, .storeStarted _ | f, .dropRequest _ | f, .mark _ => ((), f)

theorem Delivery.supplies_serve (now : Instant) : Supplies (Delivery.serve now) id where
  read _ _ := rfl
  read_due _ _ := rfl
  other f op hread hconnect := by
    cases op with
    | read len => exact absurd rfl (hread len)
    | connect url deadline => exact absurd rfl (hconnect url deadline)
    | _ => rfl

/-! ## Budgets that last -/

section

variable {ρ : Type} (env : Env Sys ρ)

/-- What the clock says. -/
def clock (st : ρ) : Instant := (env st .now).1

/-- What a look at the deadline leaves: without a total the clock is not read. -/
def RequestDeadline.looked (d : RequestDeadline) (st : ρ) : ρ := if d.expiresAt.isSome then (env st .now).2 else st

/-- The budget lasts for the next `n` reads from `st`: the total has not passed when a read begins, and the silence is
    shorter than the limit wherever a read finds a tick. -/
def SilenceBudget.LastsFor : Nat → SilenceBudget → ρ → Prop
  | 0, _, _ => True
  | n + 1, b, st =>
    b.deadline.expiredAt (clock env st) = false ∧ ∀ len,
      let read := env (b.deadline.looked env st) (.read len)
      (∀ e, read.1 = .error e → Tick.marks e = true →
        clock env read.2 - b.lastProgress < b.limit ∧ LastsFor n b (env read.2 .now).2) ∧
      (∀ bs, read.1 = .ok bs → bs.val ≠ [] →
        LastsFor n { b with lastProgress := clock env read.2 } (env read.2 .now).2)

/-- The budget lasts, however many reads there are. -/
def SilenceBudget.Lasts (b : SilenceBudget) (st : ρ) : Prop := ∀ n, b.LastsFor env n st

/-- The stream is punctual: a budget that starts in `st` lasts. -/
def Punctual (limit : Duration) (deadline : RequestDeadline) (st : ρ) : Prop :=
  (SilenceBudget.mk limit (clock env st) deadline).Lasts env (env st .now).2

end

namespace SilenceBudget

variable {ρ : Type} {env : Env Sys ρ} {b : SilenceBudget} {st : ρ}

namespace Lasts

theorem early (h : b.Lasts env st) : b.deadline.expiredAt (clock env st) = false := (h 1).1

theorem tick (h : b.Lasts env st) {len : Nat} {e : StdIoError} {st' : ρ}
    (hread : env (b.deadline.looked env st) (.read len) = (.error e, st')) (he : Tick.marks e = true) :
    clock env st' - b.lastProgress < b.limit ∧ b.Lasts env (env st' .now).2 := by
  have hstep : ∀ n, clock env st' - b.lastProgress < b.limit ∧ b.LastsFor env n (env st' .now).2 := by
    intro n
    have hnext := ((h (n + 1)).2 len).1 e
    rw [hread] at hnext
    exact hnext rfl he
  exact ⟨(hstep 0).1, fun n => (hstep n).2⟩

theorem progress (h : b.Lasts env st) {len : Nat} {bs : { bs : Bytes // bs.length ≤ len }} {st' : ρ}
    (hread : env (b.deadline.looked env st) (.read len) = (.ok bs, st')) (hbs : bs.val ≠ []) :
    ({ b with lastProgress := clock env st' } : SilenceBudget).Lasts env (env st' .now).2 := by
  intro n
  have hnext := ((h (n + 1)).2 len).2 bs
  rw [hread] at hnext
  exact hnext rfl hbs

end Lasts

/-- Whatever the clock does between these two instants, the budget lasts. -/
theorem lasts_of_window {first last : Instant} (hclock : ∀ st, first ≤ clock env st ∧ clock env st < last)
    (hlimit : last ≤ first + b.limit) (hdeadline : ∀ t, b.deadline.expiresAt = some t → last ≤ t)
    (hb : first ≤ b.lastProgress) (st : ρ) : b.Lasts env st := by
  have hgap : ∀ first last now since limit : Nat, last ≤ first + limit → first ≤ since → first ≤ now → now < last →
      now - since < limit := by
    intro first last now since limit hlimit hsince hfirst hlast
    omega
  intro n
  induction n generalizing b st with
  | zero => trivial
  | succ n ih =>
      refine ⟨?_, fun len => ⟨fun e _ _ => ⟨?_, ih hlimit hdeadline hb _⟩, fun bs _ _ => ?_⟩⟩
      · unfold RequestDeadline.expiredAt
        cases ht : b.deadline.expiresAt with
        | none => rfl
        | some t => simpa using Nat.lt_of_lt_of_le (hclock st).2 (hdeadline t ht)
      · exact hgap _ _ _ _ _ hlimit hb (hclock _).1 (hclock _).2
      · exact ih (b := { b with lastProgress := clock env _ }) hlimit hdeadline (hclock _).1 _

end SilenceBudget

/-! ## Reads under a budget -/

section

variable {ρ : Type} {env : Env Sys ρ} {due : ρ → Delivery} (h : Supplies env due) {ε : Type} {l : Local} {st : ρ}

theorem returns_now {Q : Except ε Instant → Local → ρ → Prop} :
    Act.Returns env M.now Q l st ↔ Q (.ok (clock env st)) l (env st .now).2 := Act.returns_call

/-- A new budget. -/
theorem SilenceBudget.returns_withDeadline (limit : Duration) (d : RequestDeadline)
    {Q : Except ε SilenceBudget → Local → ρ → Prop} :
    Act.Returns env (withDeadline limit d) Q l st ↔ Q (.ok ⟨limit, clock env st, d⟩) l (env st .now).2 :=
  Act.returns_bind.trans (returns_now.trans Act.returns_pure)

theorem RequestDeadline.returns_expired (d : RequestDeadline) {Q : Except ε Bool → Local → ρ → Prop} :
    Act.Returns env d.expired Q l st ↔ Q (.ok (d.expiredAt (clock env st))) l (d.looked env st) := by
  obtain ⟨_ | t⟩ := d
  · exact Act.returns_pure
  · exact Act.returns_bind.trans (returns_now.trans Act.returns_pure)

/-- A read of the stream itself. -/
theorem Stream.returns_raw {len : Nat} {Q : Except StdIoError { bs : Bytes // bs.length ≤ len } → Local → ρ → Prop} :
    Act.Returns env (Stream.raw.read len) Q l st ↔ Q (env st (.read len)).1 l (env st (.read len)).2 := by
  exact Act.returns_bind.trans (Act.returns_call.trans Act.returns_ofExcept)

include h

theorem Supplies.now (st : ρ) : due (env st .now).2 = due st := h.other st .now (fun _ => nofun) fun _ _ => nofun

theorem Supplies.mark (m : Mark) (st : ρ) : due (env st (.mark m)).2 = due st :=
  h.other st (.mark m) (fun _ => nofun) fun _ _ => nofun

theorem Supplies.looked (d : RequestDeadline) (st : ρ) : due (d.looked env st) = due st := by
  unfold RequestDeadline.looked
  split
  · exact h.now st
  · rfl

/-- Without ticks and without a total, the budget lasts whatever the clock says. -/
theorem SilenceBudget.lasts_of_tickless {b : SilenceBudget} (hb : b.deadline = .NONE) (hst : (due st).Tickless) :
    b.Lasts env st := by
  intro n
  induction n generalizing b st with
  | zero => trivial
  | succ n ih =>
      have hleft : ∀ len, due (env (env (b.deadline.looked env st) (.read len)).2 .now).2 = ((due st).read len).2 := by
        intro len
        rw [h.now, h.read_due, h.looked]
      refine ⟨by rw [hb]; rfl, fun len => ⟨fun e hread he => ?_, fun bs _ _ => ih hb ?_⟩⟩
      · have hnot := (hst.read len).2 e (by rw [← hread, h.read, h.looked])
        rw [hnot] at he
        cases he
      · rw [hleft]
        exact (hst.read len).1

theorem punctual_of_tickless (limit : Duration) (hst : (due st).Tickless) : Punctual env limit .NONE st :=
  SilenceBudget.lasts_of_tickless h rfl (by rw [h.now]; exact hst)

/-- **A read under a budget** that lasts returns what comes after the ticks. Where it finds bytes, the budget lasts on. -/
theorem SilenceBudget.returns_read {len fuel : Nat} (hlen : 0 < len) {b : SilenceBudget} (hb : b.Lasts env st)
    (hfuel : (due st).size < fuel) :
    Act.Returns env (read .raw len fuel b) (fun r l' st' => l'.client = l.client ∧
      (due st).Pulls len (due st') (r.map Prod.fst) ∧
      ∀ bs b', r = .ok (bs, b') → bs.val ≠ [] → b'.Lasts env st') l st := by
  induction fuel generalizing l st with
  | zero => omega
  | succ fuel ih =>
      rw [read, Act.returns_bind, RequestDeadline.returns_expired, hb.early]
      simp only [Bool.false_eq_true, if_false, Act.then_ok, Act.returns_bind, Act.returns_attempt, Stream.returns_raw]
      have hread := h.read (b.deadline.looked env st) len
      have hleft := h.read_due (b.deadline.looked env st) len
      rw [h.looked] at hread hleft
      generalize hfound : env (b.deadline.looked env st) (.read len) = found at hread hleft
      obtain ⟨r, st₂⟩ := found
      dsimp only at hread hleft
      rcases (due st).read_pulls hlen with ⟨e, he, htick, hseg, hend, hsize⟩ | hpulls
      · -- a tick: the wait goes on
        rw [he] at hread
        subst hread
        obtain ⟨hearly, hlasts⟩ := hb.tick hfound htick
        simp only [htick, if_true, Act.returns_bind, returns_now, Act.then_ok]
        rw [if_neg (Nat.not_le.mpr hearly)]
        have hdue : due (env st₂ .now).2 = ((due st).read len).2 := (h.now st₂).trans hleft
        refine (ih hlasts (by rw [hdue]; omega)).mono ?_
        rintro r' l₄ st₄ ⟨hclient, hpull, hon⟩
        rw [hdue] at hpull
        exact ⟨hclient, hpull.of_tick hseg hend hsize, hon⟩
      · rw [← hleft, ← hread] at hpulls
        cases r with
        | ok bs =>
            simp only [Act.returns_bind, returns_now, Act.then_ok, Act.returns_pure]
            refine ⟨trivial, ?_, ?_⟩
            · rw [h.now]
              exact hpulls
            · rintro bs' b' ⟨⟩ hne
              exact hb.progress hfound hne
        | error e =>
            simp only [hpulls.not_tick, Bool.false_eq_true, if_false, Act.returns_throw]
            exact ⟨trivial, hpulls, by rintro _ _ ⟨⟩⟩

theorem SilenceBudget.returns_readProto {len fuel : Nat} (hlen : 0 < len) {b : SilenceBudget} (hb : b.Lasts env st)
    (hfuel : (due st).size < fuel) :
    Act.Returns env (readProto .raw len fuel b) (fun r l' st' => l'.client = l.client ∧
      ∃ r' : Except StdIoError ({ bs : Bytes // bs.length ≤ len } × SilenceBudget),
        r = r'.mapError RequestDeadline.classify ∧ (due st).Pulls len (due st') (r'.map Prod.fst) ∧
        ∀ bs b', r' = .ok (bs, b') → bs.val ≠ [] → b'.Lasts env st') l st := by
  refine Act.returns_mapError.mpr ((returns_read h hlen hb hfuel).mono ?_)
  rintro r l' _ ⟨hclient, hpull, hon⟩
  exact ⟨hclient, r, rfl, hpull, hon⟩

/-- **`read_exact`** returns the bytes that are asked for, if there are so many. -/
theorem SilenceBudget.returns_readExact {fuel turns : Nat} {b : SilenceBudget} (hb : b.Lasts env st) (need : Nat)
    (got : Bytes) (hfuel : (due st).size < fuel) (hturns : (due st).size < turns) :
    Act.Returns env (readExact .raw fuel turns b need got) (fun r l' _ => l'.client = l.client ∧
      r = if need ≤ (due st).bytes.length then .ok (got ++ (due st).bytes.take need)
        else .error (due st).ending.cut) l st := by
  induction turns generalizing b need got l st with
  | zero => omega
  | succ turns ih =>
      rw [readExact]
      by_cases hzero : need = 0
      · rw [if_pos hzero, Act.returns_pure, if_pos (by omega), hzero, List.take_zero, List.append_nil]
        exact ⟨rfl, rfl⟩
      · have hshort : ¬ need ≤ ([] : Bytes).length := by
          rw [List.length_nil]
          omega
        rw [if_neg hzero, Act.returns_bind]
        refine (returns_read h (by omega) hb hfuel).mono ?_
        rintro r l₁ st₁ ⟨hclient, hpull, hon⟩
        rcases r with e | ⟨bs, b⟩
        · cases hpull with
          | failed hfailed hbytes _ _ _ =>
              refine ⟨hclient, ?_⟩
              rw [hbytes, if_neg hshort, hfailed]
              rfl
        · have hpull : (due st).Pulls need (due st₁) (.ok bs) := hpull
          rw [Act.then_ok]
          cases hpull with
          | eof hnil heof hbytes _ _ _ =>
              simp only [hnil, List.isEmpty_nil, if_true, Act.returns_bind, Act.returns_throw, Act.then_error]
              refine ⟨hclient, ?_⟩
              rw [hbytes, if_neg hshort, heof]
              rfl
          | bytes hne hbytes _ hend hsize =>
              have hempty : bs.val.isEmpty = false := by simpa using hne
              have hpos : 0 < bs.val.length := List.length_pos_iff.mpr hne
              simp only [hempty, Bool.false_eq_true, if_false]
              refine (ih (hon bs b rfl hne) (need - bs.val.length) (got ++ bs.val) (by omega) (by omega)).mono ?_
              rintro r' l₂ st₂ ⟨hclient', hr⟩
              refine ⟨hclient'.trans hclient, ?_⟩
              have hle := bs.property
              have hiff : need - bs.val.length ≤ (due st₁).bytes.length ↔ need ≤ (due st).bytes.length := by
                rw [hbytes, List.length_append]
                omega
              rw [hr, hend, if_congr hiff rfl rfl, hbytes, List.take_append, List.take_of_length_le hle,
                List.append_assoc]

end

/-! ## Deliveries that are served -/

/-- While the clock stands still, a budget with a limit lasts. -/
theorem Delivery.punctual_serve {limit : Duration} (hlimit : 0 < limit) (f : Delivery) :
    Punctual (Delivery.serve 0) limit .NONE f := by
  have hclock : ∀ f, (0 : Instant) ≤ clock (Delivery.serve 0) f ∧ clock (Delivery.serve 0) f < (1 : Instant) :=
    fun _ => ⟨Nat.le_refl 0, Nat.one_pos⟩
  refine SilenceBudget.lasts_of_window hclock (Nat.le_trans hlimit (Nat.le_add_left _ _)) (fun t ht => ?_) (Nat.zero_le _) _
  cases ht

end Xibalba
