import Xibalba.Proto.Correctness.HeadGrammar

/-!
# `Proto.Correctness.HeadRanges` — the ranges of a parsed head

The headers of a parsed head are slices of it, and `build_ranges` writes down where they stand. What stands there is
the header, in the head and in any copy of it.

Layout:
* `Slice.Within`, and the slices of field lines;
* `buildRanges_within`, and reading a header back.
-/

namespace Xibalba

/-- The slice stands in `src`, before its end. -/
def Slice.Within (s : Slice) (src : Bytes) : Prop :=
  s.start < src.length ∧ s.bytes <+: src.drop s.start

theorem Slice.Within.take {s : Slice} {src : Bytes} (h : s.Within src) : (src.drop s.start).take s.bytes.length = s.bytes :=
  (List.prefix_iff_eq_take.mp h.2).symm

theorem Slice.Within.length_le {s : Slice} {src : Bytes} (h : s.Within src) : s.start + s.bytes.length ≤ src.length := by
  have hle := h.2.length_le
  have hlt := h.1
  rw [List.length_drop] at hle
  omega

def HeaderSlice.Within (h : HeaderSlice) (src : Bytes) : Prop :=
  h.name.Within src ∧ h.value.Within src ∧ h.name.bytes ≠ []

namespace ResponseHead

theorem prefix_trimTrailingOws (raw : Bytes) : trimTrailingOws raw <+: raw := by
  unfold trimTrailingOws
  split
  · split
    · have hsuffix : raw.reverse.dropWhile isOws <:+ raw.reverse := List.dropWhile_suffix _
      have hprefix := List.reverse_prefix.mpr hsuffix
      rwa [List.reverse_reverse] at hprefix
    · exact List.prefix_rfl
  · exact List.prefix_rfl

/-- The header on a field line, wherever the line stands. -/
theorem within_field {f : Field} (hf : f.WellFormed) (pre rest : Bytes) :
    (shiftSlice pre.length (headerOf f.name f.raw)).Within (pre ++ (f.wire ++ rest)) := by
  have hlen : f.wire.length = f.name.length + (f.raw.length + 3) := by
    simp [Field.wire, crlf]
  have hname : 0 < f.name.length := List.length_pos_iff.mpr hf.named
  refine ⟨⟨?_, ?_⟩, ⟨?_, ?_⟩, hf.named⟩
  · show pre.length + 0 < _
    simp only [List.length_append]
    omega
  · show f.name <+: List.drop (pre.length + 0) _
    rw [Nat.add_zero, List.drop_left]
    exact (List.prefix_append f.name _).trans (List.prefix_append _ rest)
  · show pre.length + (f.name.length + 1 + (f.raw.takeWhile isOws).length) < _
    have hle : (f.raw.takeWhile isOws).length ≤ f.raw.length := (List.takeWhile_sublist _).length_le
    simp only [List.length_append]
    omega
  · show trimTrailingOws (f.raw.dropWhile isOws) <+: List.drop (pre.length + (f.name.length + 1 + _)) _
    have hdrop : (f.wire ++ rest).drop (f.name.length + 1 + (f.raw.takeWhile isOws).length) =
        f.raw.dropWhile isOws ++ (crlf ++ rest) := by
      have hsplit : f.raw = f.raw.takeWhile isOws ++ f.raw.dropWhile isOws := List.takeWhile_append_dropWhile.symm
      have hwire : f.wire ++ rest =
          f.name ++ 0x3a :: (f.raw.takeWhile isOws ++ (f.raw.dropWhile isOws ++ (crlf ++ rest))) := by
        rw [Field.wire, List.append_assoc, List.cons_append, List.append_assoc]
        conv_lhs => rw [hsplit]
        rw [List.append_assoc]
      rw [hwire, Nat.add_assoc, List.drop_length_add_append, Nat.add_comm 1, List.drop_succ_cons, List.drop_left]
    rw [List.drop_length_add_append, hdrop]
    exact (prefix_trimTrailingOws _).trans (List.prefix_append _ _)

/-- The headers of field lines, wherever the lines stand. -/
theorem within_slices {fields : List Field} (hwf : ∀ f ∈ fields, f.WellFormed) (pre rest : Bytes) :
    ∀ h ∈ slices pre.length fields, h.Within (pre ++ (fieldLines fields ++ rest)) := by
  induction fields generalizing pre with
  | nil => nofun
  | cons f fields ih =>
      intro h hmem
      have hf := hwf f List.mem_cons_self
      have hsplit : pre ++ (fieldLines (f :: fields) ++ rest) = pre ++ (f.wire ++ (fieldLines fields ++ rest)) := by
        rw [fieldLines_cons, List.append_assoc]
      rw [hsplit]
      rcases List.mem_cons.mp hmem with rfl | hmem
      · exact within_field hf pre _
      · have ih := ih (fun g hg => hwf g (List.mem_cons_of_mem f hg)) (pre ++ f.wire) h
        rw [List.length_append, List.append_assoc] at ih
        exact ih hmem

/-- The headers of a parsed head stand in the bytes the head took, and there are no more of them than slots. -/
theorem parse_within {buf : Bytes} {slots consumed : Nat} {head : ResponseHead}
    (h : parse buf slots = .ok (head, consumed)) :
    consumed ≤ buf.length ∧ head.headers.length ≤ slots ∧ ∀ hs ∈ head.headers, hs.Within (buf.take consumed) := by
  obtain ⟨line, version, status, reason, fields, rest, hline, hwf, hslots, hbuf⟩ := fields_of_parse h
  have hparse := parse_fields hline hwf hslots rest
  rw [← hbuf, h] at hparse
  cases hparse
  have hin := within_slices hwf (line ++ crlf) crlf
  rw [← List.append_assoc, List.length_append] at hin
  have hcount := congrArg List.length (pair_slices (line.length + 2) fields)
  rw [List.length_map, List.length_map] at hcount
  refine ⟨?_, hcount ▸ hslots, ?_⟩
  · rw [hbuf]
    simp
  · intro hs hmem
    rw [hbuf, List.take_left]
    exact hin hs hmem

end ResponseHead

/-! ## Ranges -/

namespace HeaderRange

/-- The range of a slice that stands in the buffer. -/
def ofSlices (h : HeaderSlice) : HeaderRange :=
  ⟨h.name.start, h.name.bytes.length, h.value.start, h.value.bytes.length⟩

theorem ofHeader_within {h : HeaderSlice} {src : Bytes} (hin : h.Within src) (hsrc : src.length ≤ MAX_ADDRESSABLE_HEAD) :
    ofHeader src h = .ok (ofSlices h) := by
  obtain ⟨hname, hvalue, -⟩ := hin
  have hn := hname.length_le
  have hv := hvalue.length_le
  unfold ofHeader offsetInOrFind
  rw [if_pos hname.1, if_pos hvalue.1]
  show fromParts _ _ _ _ = _
  rw [fromParts, if_pos ⟨by omega, by omega, by omega, by omega⟩]
  rfl

/-- **The ranges** of a head with at most 64 headers. -/
theorem buildRanges_within {headers : List HeaderSlice} {src : Bytes} (hin : ∀ h ∈ headers, h.Within src)
    (hcount : headers.length ≤ MAX_HEADERS) (hsrc : src.length ≤ MAX_ADDRESSABLE_HEAD) :
    buildRanges headers src =
      .ok (headers.map ofSlices ++ List.replicate (MAX_HEADERS - headers.length) default) := by
  have hmap : headers.mapM (ofHeader src) = .ok (headers.map ofSlices) := by
    clear hcount
    induction headers with
    | nil => rfl
    | cons h headers ih =>
        have ih := ih fun g hg => hin g (List.mem_cons_of_mem h hg)
        rw [List.mapM_cons, ofHeader_within (hin h List.mem_cons_self) hsrc, ih]
        rfl
  unfold buildRanges
  rw [if_neg (Nat.not_lt.mpr hcount), hmap]
  show Except.ok (_ ++ List.replicate (_ - (headers.map ofSlices).length) _) = _
  rw [List.length_map]

/-- What stands at the range of a header. -/
theorem read_ofSlices {h : HeaderSlice} {src : Bytes} (hin : h.Within src) :
    ((src.drop (ofSlices h).nameStart).take (ofSlices h).nameLen,
      (src.drop (ofSlices h).valueStart).take (ofSlices h).valueLen) = h.pair := by
  show (List.take h.name.bytes.length (src.drop h.name.start), List.take h.value.bytes.length (src.drop h.value.start)) = _
  rw [hin.1.take, hin.2.1.take]
  rfl

end HeaderRange

end Xibalba
