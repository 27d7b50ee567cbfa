import Xibalba.Proto.Request

/-!
# `Proto.Correctness.Serializer` — one layout in three places

The length of a request head, the bounded cursor that writes it into a buffer and the writer that appends it to a vector
are three copies of one layout. Here each is held against `wire`, the bytes of the head.

Layout:
* `Writes`, what a run of cursor writes does, and how writes follow one another;
* the three views;
* `serializers_agree`.
-/

namespace Xibalba

/-! ## The cursor -/

namespace BufWriter

/-- The cursor with `pre` written, and `rest` of the buffer in front of it. -/
def between (pre rest : Bytes) : BufWriter := ⟨pre ++ rest, pre.length⟩

/-- Run on a cursor, `m` writes `data` where there is room for it, and finds the buffer too small where there is not. -/
def Writes (m : BufWrite Unit) (data : Bytes) : Prop :=
  ∀ pre rest : Bytes,
    (data.length ≤ rest.length → m.run.run (between pre rest) = (.ok (), between (pre ++ data) (rest.drop data.length))) ∧
      (rest.length < data.length → ∃ w, m.run.run (between pre rest) = (.error .bufferTooSmall, w))

theorem run_writeBytes (data pre rest : Bytes) : (writeBytes data).run.run (between pre rest) =
    if pre.length + data.length > (pre ++ rest).length then (.error .bufferTooSmall, between pre rest)
    else (.ok (), ⟨(pre ++ rest).take pre.length ++ data ++ (pre ++ rest).drop (pre.length + data.length),
      pre.length + data.length⟩) := by
  by_cases h : pre.length + data.length > (pre ++ rest).length
  · rw [if_pos h]
    show StateT.run (ExceptT.run (if pre.length + data.length > (pre ++ rest).length then _ else _)) _ = _
    rw [if_pos h]
    rfl
  · rw [if_neg h]
    show StateT.run (ExceptT.run (if pre.length + data.length > (pre ++ rest).length then _ else _)) _ = _
    rw [if_neg h]
    rfl

theorem run_writeByte (byte : UInt8) (pre rest : Bytes) : (writeByte byte).run.run (between pre rest) =
    if pre.length ≥ (pre ++ rest).length then (.error .bufferTooSmall, between pre rest)
    else (.ok (), ⟨(pre ++ rest).set pre.length byte, pre.length + 1⟩) := by
  by_cases h : pre.length ≥ (pre ++ rest).length
  · rw [if_pos h]
    show StateT.run (ExceptT.run (if pre.length ≥ (pre ++ rest).length then _ else _)) _ = _
    rw [if_pos h]
    rfl
  · rw [if_neg h]
    show StateT.run (ExceptT.run (if pre.length ≥ (pre ++ rest).length then _ else _)) _ = _
    rw [if_neg h]
    rfl

theorem writes_bytes (data : Bytes) : Writes (writeBytes data) data := by
  intro pre rest
  rw [run_writeBytes, List.length_append]
  constructor
  · intro hroom
    rw [if_neg (by omega), List.take_left, List.drop_length_add_append]
    unfold between
    rw [List.length_append]
  · intro hsmall
    rw [if_pos (by omega)]
    exact ⟨_, rfl⟩

theorem writes_byte (byte : UInt8) : Writes (writeByte byte) [byte] := by
  intro pre rest
  rw [run_writeByte, List.length_append]
  cases rest with
  | nil =>
      rw [if_pos (by simp)]
      exact ⟨nofun, fun _ => ⟨_, rfl⟩⟩
  | cons b rest =>
      rw [if_neg (by simp)]
      constructor
      · intro _
        unfold between
        simp
      · intro hsmall
        simp at hsmall

theorem writes_pure : Writes (pure ()) [] := by
  intro pre rest
  constructor
  · intro _
    rw [List.append_nil]
    rfl
  · intro hsmall
    cases hsmall

/-- One write after another. -/
theorem Writes.seq {m k : BufWrite Unit} {data more : Bytes} (hm : Writes m data) (hk : Writes k more) :
    Writes (m >>= fun _ => k) (data ++ more) := by
  intro pre rest
  have hrun : ∀ w, (m >>= fun _ => k).run.run w =
      match m.run.run w with
      | (.ok _, w') => k.run.run w'
      | (.error e, w') => (.error e, w') := by
    intro w
    rcases hmw : m.run.run w with ⟨(e | u), w'⟩
    · rw [ExceptT.run_bind, StateT.run_bind, hmw]
      rfl
    · rw [ExceptT.run_bind, StateT.run_bind, hmw]
      rfl
  obtain ⟨hfits, hover⟩ := hm pre rest
  rw [List.length_append]
  by_cases hroom : data.length ≤ rest.length
  · have hlen : (rest.drop data.length).length = rest.length - data.length := List.length_drop
    obtain ⟨hfits', hover'⟩ := hk (pre ++ data) (rest.drop data.length)
    rw [hrun, hfits hroom]
    dsimp only
    constructor
    · intro hall
      rw [hfits' (by omega), List.append_assoc, List.drop_drop]
    · intro hsmall
      exact hover' (by omega)
  · obtain ⟨w, hw⟩ := hover (by omega)
    rw [hrun, hw]
    exact ⟨fun hall => absurd hall (by omega), fun _ => ⟨w, rfl⟩⟩

/-- A loop of writes. -/
theorem writes_forM {α : Type} {f : α → BufWrite Unit} {g : α → Bytes} (h : ∀ a, Writes (f a) (g a)) (as : List α) :
    Writes (as.forM f) (as.flatMap g) := by
  induction as with
  | nil => exact writes_pure
  | cons a as ih =>
      rw [List.flatMap_cons]
      exact (h a).seq ih

end BufWriter

/-! ## The three views -/

namespace Request

open BufWriter

/-- The pieces of a request head, in the order in which they are written. -/
theorem writes_head (r : Request) : Writes r.writeHead r.wire := by
  have hheader : ∀ h, Writes (writeHeader h) (headerLine h) := by
    intro h
    have hw := (writes_bytes h.name.asBytes).seq ((writes_bytes (ascii ": ")).seq
      ((writes_bytes h.value).seq (writes_bytes (ascii "\r\n"))))
    unfold headerLine
    rw [List.append_assoc, List.append_assoc]
    exact hw
  have hw : ∀ {query}, Writes (writeQuery r.query) query → Writes r.writeHead _ := fun hquery =>
    (writes_bytes r.method.asBytes).seq ((writes_byte 0x20).seq ((writes_bytes r.path).seq (hquery.seq
      ((writes_byte 0x20).seq ((writes_bytes r.version.asBytes).seq ((writes_bytes (ascii "\r\n")).seq
        ((writes_forM hheader r.headers).seq (writes_bytes (ascii "\r\n")))))))))
  unfold wire
  simp only [List.append_assoc]
  cases hquery : r.query with
  | none => exact hw (by rw [hquery]; exact writes_pure)
  | some query => exact hw (by rw [hquery]; exact (writes_byte 0x3f).seq (writes_bytes query))

/-- **The length** is that of the bytes. -/
theorem serializedLen_eq (r : Request) : r.serializedLen = r.wire.length := by
  have hheaders : ∀ (headers : List Header) (len : Nat),
      headers.foldl (fun len h => len + h.name.asBytes.length + 2 + h.value.length + 2) len =
        len + (headers.flatMap headerLine).length := by
    intro headers
    induction headers with
    | nil => exact fun _ => rfl
    | cons h headers ih =>
        intro len
        rw [List.foldl_cons, ih, List.flatMap_cons, List.length_append]
        simp only [headerLine, List.length_append, show (ascii ": ").length = 2 by decide,
          show (ascii "\r\n").length = 2 by decide]
        omega
  unfold serializedLen wire
  dsimp only
  rw [hheaders]
  simp only [List.length_append, show (ascii " ").length = 1 by decide, show (ascii "\r\n").length = 2 by decide]
  cases r.query with
  | none => simp only [List.length_nil]
  | some query =>
      simp only [List.length_append, show (ascii "?").length = 1 by decide]
      omega

/-- **The writer** appends the bytes, or nothing. -/
theorem serializeToVec_eq (r : Request) (w : Bytes) : r.serializeToVec w =
    match r.validate with
    | .error e => (w, .error ⟨.invalidInput, .serialize e⟩)
    | .ok () => (w ++ r.wire, .ok ()) := by
  have hheaders : ∀ (headers : List Header) (w : Bytes),
      headers.foldl (fun w h => w ++ h.name.asBytes ++ ascii ": " ++ h.value ++ ascii "\r\n") w =
        w ++ headers.flatMap headerLine := by
    intro headers
    induction headers with
    | nil => exact fun w => (List.append_nil w).symm
    | cons h headers ih =>
        intro w
        rw [List.foldl_cons, ih, List.flatMap_cons]
        simp only [headerLine, List.append_assoc]
  unfold serializeToVec wire
  cases r.validate with
  | error e => rfl
  | ok u =>
      dsimp only
      rw [hheaders]
      cases r.query with
      | none => simp only [List.append_assoc, List.nil_append]
      | some query => simp only [List.append_assoc]

/-- **The buffer** of a valid request: all of the bytes, or an error. -/
theorem serializeToBuf_valid {r : Request} (hr : r.validate = .ok ()) (buf : Bytes) :
    (r.wire.length ≤ buf.length → r.serializeToBuf buf = (r.wire ++ buf.drop r.wire.length, .ok r.wire.length)) ∧
      (buf.length < r.wire.length → (r.serializeToBuf buf).2 = .error .bufferTooSmall) := by
  have hstart : (⟨buf, 0⟩ : BufWriter) = between [] buf := rfl
  obtain ⟨hfits, hover⟩ := r.writes_head [] buf
  unfold serializeToBuf
  rw [hr, hstart]
  dsimp only
  constructor
  · intro hroom
    rw [hfits hroom]
    rfl
  · intro hsmall
    obtain ⟨w, hw⟩ := hover hsmall
    rw [hw]
    rfl

theorem validate_ne_bufferTooSmall (r : Request) : r.validate ≠ .error .bufferTooSmall := by
  unfold validate
  split
  · nofun
  · split
    · nofun
    · split
      · nofun
      · nofun

/-- **The three views agree.** The buffer version succeeds exactly for a valid request and a buffer of at least the
    computed length, returns that length, and leaves in front of what was in the buffer the bytes the writer version
    appends; an invalid request is reported as such by both, and nothing is written. -/
theorem serializers_agree (r : Request) (buf : Bytes) :
    ((∃ n, (r.serializeToBuf buf).2 = .ok n) ↔ r.validate = .ok () ∧ r.serializedLen ≤ buf.length) ∧
      (∀ n, (r.serializeToBuf buf).2 = .ok n → n = r.serializedLen ∧
        r.serializeToVec [] = ((r.serializeToBuf buf).1.take n, .ok ()) ∧
        (r.serializeToBuf buf).1.drop n = buf.drop n) ∧
      (r.validate = .ok () → buf.length < r.serializedLen → (r.serializeToBuf buf).2 = .error .bufferTooSmall) ∧
      ∀ e, r.validate = .error e → r.serializeToBuf buf = (buf, .error e) ∧ e ≠ .bufferTooSmall ∧
        ∀ w, r.serializeToVec w = (w, .error ⟨.invalidInput, .serialize e⟩) := by
  rw [serializedLen_eq]
  cases hr : r.validate with
  | error e =>
      have hbuf : r.serializeToBuf buf = (buf, .error e) := by
        unfold serializeToBuf
        rw [hr]
      rw [hbuf]
      refine ⟨⟨nofun, nofun⟩, nofun, nofun, ?_⟩
      intro e' he
      cases he
      refine ⟨rfl, ?_, fun w => ?_⟩
      · rintro rfl
        exact validate_ne_bufferTooSmall r hr
      · rw [serializeToVec_eq, hr]
  | ok u =>
      obtain ⟨hfits, hover⟩ := serializeToBuf_valid hr buf
      have hvec : r.serializeToVec [] = (r.wire, .ok ()) := by
        rw [serializeToVec_eq, hr]
        rfl
      by_cases hroom : r.wire.length ≤ buf.length
      · rw [hfits hroom]
        refine ⟨⟨fun _ => ⟨rfl, hroom⟩, fun _ => ⟨_, rfl⟩⟩, ?_, fun _ hsmall => absurd hsmall (by omega), nofun⟩
        intro n hn
        cases hn
        rw [List.take_left, List.drop_left]
        exact ⟨rfl, hvec, rfl⟩
      · have hsmall := hover (by omega)
        rw [hsmall]
        refine ⟨⟨nofun, fun h => absurd h.2 hroom⟩, nofun, fun _ _ => rfl, nofun⟩

end Request

end Xibalba
