import Xibalba.Client.HeadData
import Xibalba.Proto.Correctness.HeadRanges

/-!
# `Client.Correctness.Ranges` — header ranges survive the copy

The positions of a parsed head's headers are written down as ranges and read back from a copy of the head. `new` lets
only ranges through that stay inside the copy, and the ranges of a parsed head are such: what is read back is what was
parsed.
-/

namespace Xibalba

/-- A slice that stands in a buffer stands in any part of it that reaches past the slice. -/
theorem Slice.Within.mono {s : Slice} {src src' : Bytes} (h : s.Within src) (hpre : src <+: src') : s.Within src' := by
  obtain ⟨rest, rfl⟩ := hpre
  refine ⟨?_, ?_⟩
  · rw [List.length_append]
    exact Nat.lt_add_right _ h.1
  · rw [List.drop_append_of_le_length (Nat.le_of_lt h.1)]
    exact h.2.trans (List.prefix_append _ _)

theorem HeaderSlice.Within.mono {h : HeaderSlice} {src src' : Bytes} (hin : h.Within src) (hpre : src <+: src') :
    h.Within src' :=
  ⟨hin.1.mono hpre, hin.2.1.mono hpre, hin.2.2⟩

namespace HeaderRange

/-- The ranges of headers that stand in the front of a buffer, the front being addressable. -/
theorem buildRanges_front {headers : List HeaderSlice} {front src : Bytes} (hin : ∀ h ∈ headers, h.Within front)
    (hpre : front <+: src) (hcount : headers.length ≤ MAX_HEADERS) (hsize : front.length ≤ MAX_ADDRESSABLE_HEAD) :
    buildRanges headers src =
      .ok (headers.map ofSlices ++ List.replicate (MAX_HEADERS - headers.length) default) := by
  have hsame : ∀ h ∈ headers, ofHeader src h = ofHeader front h := by
    intro h hmem
    have hfront := hin h hmem
    have hsrc := hfront.mono hpre
    unfold ofHeader offsetInOrFind
    rw [if_pos hsrc.1.1, if_pos hsrc.2.1.1, if_pos hfront.1.1, if_pos hfront.2.1.1]
  have hmap : headers.mapM (ofHeader src) = headers.mapM (ofHeader front) := by
    clear hin hcount
    induction headers with
    | nil => rfl
    | cons h headers ih =>
        obtain ⟨hhead, htail⟩ := List.forall_mem_cons.mp hsame
        rw [List.mapM_cons, List.mapM_cons, hhead, ih htail]
  have hbuild := buildRanges_within hin hcount hsize
  unfold buildRanges at hbuild ⊢
  rwa [hmap]

end HeaderRange

namespace HeadData

theorem sliceChecked_le {buf : Bytes} {start len : Nat} (h : start + len ≤ buf.length) :
    sliceChecked buf start len = some ((buf.drop start).take len) :=
  if_pos h

/-- What `new` asks of every live range. -/
theorem rangeWithin_iff {r : HeaderRange} {len : Nat} : rangeWithin r len = true ↔
    0 < r.nameLen ∧ r.nameStart + r.nameLen ≤ len ∧ r.valueStart + r.valueLen ≤ len := by
  simp [rangeWithin, and_assoc]

/-- Ranges that stay inside the buffer are read without a panic. -/
theorem headersChecked_within {h : HeadData} (hcount : h.headerCount ≤ h.ranges.length)
    (hin : ∀ r ∈ h.ranges.take h.headerCount, rangeWithin r h.headBuf.length = true) :
    h.headersChecked = some h.headers := by
  unfold headersChecked headers
  rw [if_pos hcount]
  generalize h.ranges.take h.headerCount = ranges at hin
  induction ranges with
  | nil => rfl
  | cons r ranges ih =>
      obtain ⟨hr, hranges⟩ := List.forall_mem_cons.mp hin
      obtain ⟨-, hname, hvalue⟩ := rangeWithin_iff.mp hr
      rw [List.mapM_cons, sliceChecked_le hname, sliceChecked_le hvalue, ih hranges]
      rfl

/-- **`new`** lets no head through whose headers reach past the buffer. -/
theorem new_safe {version : Version} {status : StatusCode} {headBuf : Bytes} {ranges : List HeaderRange} {headerCount : Nat}
    {d : HeadData} (hlen : ranges.length = MAX_HEADERS) (h : new version status headBuf ranges headerCount = .ok d) :
    d.headersChecked = some d.headers := by
  unfold new at h
  split at h
  · cases h
  next hcount =>
    split at h
    next hall =>
      cases h
      rw [List.all_eq_true] at hall
      apply headersChecked_within
      · show headerCount ≤ ranges.length
        omega
      · exact hall
    next => cases h

/-- **Header ranges survive the copy.** The ranges of a parsed head, taken from the head with whatever has been read
    behind it, are accepted with a copy, and what is read back there is what was parsed. -/
theorem ranges_survive {buf : Bytes} {slots consumed : Nat} {head : ResponseHead}
    (h : ResponseHead.parse buf slots = .ok (head, consumed)) (hcount : head.headers.length ≤ MAX_HEADERS)
    (hsize : consumed ≤ MAX_ADDRESSABLE_HEAD) {n : Nat} (hn : consumed ≤ n) :
    (∃ ranges d, HeaderRange.buildRanges head.headers (buf.take n) = .ok ranges ∧ ranges.length = MAX_HEADERS ∧
      new head.version head.status (buf.take n) ranges head.headers.length = .ok d ∧
      d.headersChecked = some (head.headers.map HeaderSlice.pair) ∧ d.headers = head.headers.map HeaderSlice.pair) ∧
    ∀ version status headBuf ranges headerCount d, ranges.length = MAX_HEADERS →
      new version status headBuf ranges headerCount = .ok d → ∃ hs, d.headersChecked = some hs := by
  refine ⟨?_, fun version status headBuf ranges headerCount d hlen hnew => ⟨_, new_safe hlen hnew⟩⟩
  obtain ⟨hconsumed, -, hin⟩ := ResponseHead.parse_within h
  have hpre : buf.take consumed <+: buf.take n := List.take_prefix_take_left (l := buf) hn
  have hfront : (buf.take consumed).length ≤ MAX_ADDRESSABLE_HEAD := by
    rw [List.length_take]
    omega
  have hbuild := HeaderRange.buildRanges_front hin hpre hcount hfront
  have hlive : ∀ r ∈ head.headers.map HeaderRange.ofSlices, rangeWithin r (buf.take n).length = true := by
    intro r hr
    obtain ⟨s, hs, rfl⟩ := List.mem_map.mp hr
    have hs := (hin s hs).mono hpre
    exact rangeWithin_iff.mpr ⟨List.length_pos_iff.mpr hs.2.2, hs.1.length_le, hs.2.1.length_le⟩
  have htake : (head.headers.map HeaderRange.ofSlices ++
      List.replicate (MAX_HEADERS - head.headers.length) HeaderRange.default).take head.headers.length =
        head.headers.map HeaderRange.ofSlices := by
    rw [← List.length_map (f := HeaderRange.ofSlices), List.take_left]
  have hnew : new head.version head.status (buf.take n) (head.headers.map HeaderRange.ofSlices ++
      List.replicate (MAX_HEADERS - head.headers.length) HeaderRange.default) head.headers.length =
        .ok ⟨head.version, head.status, buf.take n, head.headers.map HeaderRange.ofSlices ++
          List.replicate (MAX_HEADERS - head.headers.length) HeaderRange.default, head.headers.length⟩ := by
    unfold new
    rw [if_neg (Nat.not_lt.mpr hcount), htake, if_pos (List.all_eq_true.mpr hlive)]
  have hlen : (head.headers.map HeaderRange.ofSlices ++
      List.replicate (MAX_HEADERS - head.headers.length) HeaderRange.default).length = MAX_HEADERS := by
    rw [List.length_append, List.length_map, List.length_replicate]
    omega
  have hread : (head.headers.map HeaderRange.ofSlices).map (fun r =>
      (((buf.take n).drop r.nameStart).take r.nameLen, ((buf.take n).drop r.valueStart).take r.valueLen)) =
        head.headers.map HeaderSlice.pair := by
    rw [List.map_map]
    apply List.map_congr_left
    intro s hs
    exact HeaderRange.read_ofSlices ((hin s hs).mono hpre)
  have hheaders : headers ⟨head.version, head.status, buf.take n, head.headers.map HeaderRange.ofSlices ++
      List.replicate (MAX_HEADERS - head.headers.length) HeaderRange.default, head.headers.length⟩ =
        head.headers.map HeaderSlice.pair := by
    unfold headers
    dsimp only
    rw [htake]
    exact hread
  refine ⟨_, _, hbuild, hlen, hnew, ?_, hheaders⟩
  rw [new_safe hlen hnew, hheaders]

/-- A head with an empty value at the end of a line, a repeated name, and the beginning of a body behind it. -/
def repeatedHead : Bytes := ascii "HTTP/1.1 200 OK\r\nA: b\r\nA:\r\n\r\nbody"

theorem ranges_survive_repeated : ∃ ranges d,
    HeaderRange.buildRanges [⟨⟨17, ascii "A"⟩, ⟨20, ascii "b"⟩⟩, ⟨⟨23, ascii "A"⟩, ⟨25, []⟩⟩] (repeatedHead.take 33) =
        .ok ranges ∧ ranges.length = MAX_HEADERS ∧
      new .http11 ⟨200, by decide⟩ (repeatedHead.take 33) ranges 2 = .ok d ∧
      d.headersChecked = some [(ascii "A", ascii "b"), (ascii "A", [])] ∧
      d.headers = [(ascii "A", ascii "b"), (ascii "A", [])] :=
  (ranges_survive (show ResponseHead.parse repeatedHead 2 = .ok (⟨.http11, ⟨200, by decide⟩, ascii "OK",
    [⟨⟨17, ascii "A"⟩, ⟨20, ascii "b"⟩⟩, ⟨⟨23, ascii "A"⟩, ⟨25, []⟩⟩]⟩, 29) by decide +kernel) (by decide) (by decide)
    (by decide)).1

end HeadData

end Xibalba
