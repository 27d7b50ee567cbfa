import Xibalba.Proto.Framing
import Xibalba.Proto.Correctness.ChunkedSafety
import Xibalba.Proto.Correctness.HeadParse

/-!
# `Proto.Correctness.HeadSafety` — the slices of a head

`ResponseHead::parse` and `BodyFraming::from_response` are given whatever a peer sent. Here they are with their slices,
their indices and their subtractions checked, and no check fails: they compute what `parse` and `fromResponse` do.

`build_ranges` is not repeated. Its one subtraction, its one index and its one call of `windows` stand behind their
guards.

Layout:
* slices;
* `parse`, from the inside out;
* `from_response`.
-/

namespace Xibalba

open ChunkedDecoder (sliceFrom sliceFrom_le checkedSub checkedSub_le)

/-! ## Slices -/

/-- `&buf[..n]`, which panics past the end. -/
def sliceTo {α : Type} (buf : List α) (n : Nat) : Option (List α) := if n ≤ buf.length then some (buf.take n) else none

/-- `&buf[a..b]`, which panics past the end, and backwards. -/
def slice (buf : Bytes) (a b : Nat) : Option Bytes :=
  if a ≤ b ∧ b ≤ buf.length then some ((buf.take b).drop a) else none

theorem sliceTo_le {α : Type} {buf : List α} {n : Nat} (h : n ≤ buf.length) : sliceTo buf n = some (buf.take n) := if_pos h

theorem slice_le {buf : Bytes} {a b : Nat} (hab : a ≤ b) (hb : b ≤ buf.length) : slice buf a b = some ((buf.take b).drop a) :=
  if_pos ⟨hab, hb⟩

namespace ResponseHead

/-! ## A header line -/

/-- The loop that skips OWS, which reads `line[i]` at each turn. -/
def skipOwsChecked (bytes : Bytes) : Nat → Nat → Option Nat
  | 0, i => some i
  | turns + 1, i =>
    if i < bytes.length then do
      let b ← bytes[i]?
      if isOws b then skipOwsChecked bytes turns (i + 1) else some i
    else some i

/-- `trim_trailing_ows`, which slices up to the last byte that is not OWS. -/
def trimTrailingOwsChecked (raw : Bytes) : Option Bytes :=
  match raw.getLast? with
  | some b =>
    -- where the last byte stands that is not OWS, and one more
    if isOws b then sliceTo raw (raw.reverse.dropWhile isOws).length else some raw
  | none => some raw

/-- `parse_header_line`, with each of its accesses checked. -/
def parseHeaderLineChecked (bytes : Bytes) : Option (Except ParseError (HeaderSlice × Nat)) :=
  if bytes.isEmpty then some (.error .invalidHeaderName)
  else
    match scanName 0 bytes with
    | .error e => some (.error e)
    | .ok none => some (.error .incomplete)
    | .ok (some nameLen) =>
      if nameLen = 0 then some (.error .invalidHeaderName)
      else do
        let name ← sliceTo bytes nameLen
        let valueStart ← skipOwsChecked bytes bytes.length (nameLen + 1)
        match (← sliceFrom bytes valueStart).findIdx? isCtl with
        | none => some (.error .incomplete)
        | some ctlPos => do
          let crlf := valueStart + ctlPos
          if (← bytes[crlf]?) ≠ 0x0d then some (.error .invalidHeaderValue)
          else if bytes.length ≤ crlf + 1 then some (.error .incomplete)
          else do
            if (← bytes[crlf + 1]?) ≠ 0x0a then some (.error .incomplete)
            else do
              let value ← trimTrailingOwsChecked (← slice bytes valueStart crlf)
              some (.ok (⟨⟨0, name⟩, ⟨valueStart, value⟩⟩, crlf + 2))

/-- The loop stays within the line, and ends behind the OWS. -/
theorem skipOwsChecked_eq {bytes : Bytes} {turns i : Nat} (hturns : bytes.length - i ≤ turns) :
    skipOwsChecked bytes turns i = some (i + ((bytes.drop i).takeWhile isOws).length) := by
  induction turns generalizing i with
  | zero =>
      have hnil : bytes.drop i = [] := List.drop_eq_nil_iff.mpr (by omega)
      rw [hnil]
      rfl
  | succ turns ih =>
      unfold skipOwsChecked
      by_cases hlt : i < bytes.length
      · rw [if_pos hlt, List.getElem?_eq_getElem hlt, List.drop_eq_getElem_cons hlt, List.takeWhile_cons]
        dsimp only [bind, Option.bind]
        by_cases hows : isOws bytes[i] = true
        · rw [if_pos hows, if_pos hows, ih (by omega), List.length_cons]
          congr 1
          omega
        · rw [if_neg hows, if_neg hows]
          rfl
      · have hnil : bytes.drop i = [] := List.drop_eq_nil_iff.mpr (by omega)
        rw [if_neg hlt, hnil]
        rfl

/-- Trimming does not slice past the end. -/
theorem trimTrailingOwsChecked_eq (raw : Bytes) : trimTrailingOwsChecked raw = some (trimTrailingOws raw) := by
  unfold trimTrailingOwsChecked trimTrailingOws
  cases raw.getLast? with
  | none => rfl
  | some b =>
      dsimp only
      split
      · have hprefix : (raw.reverse.dropWhile isOws).reverse <+: raw := by
          have h := List.reverse_prefix.mpr (List.dropWhile_suffix isOws (l := raw.reverse))
          rwa [List.reverse_reverse] at h
        have hlen := hprefix.length_le
        rw [List.length_reverse] at hlen
        rw [sliceTo_le hlen, ← List.length_reverse, ← List.prefix_iff_eq_take.mp hprefix]
      · rfl

/-- A colon that is found stands in the bytes that were searched. -/
theorem scanName_lt {bytes : Bytes} {idx n : Nat} (h : scanName idx bytes = .ok (some n)) : n < idx + bytes.length := by
  induction bytes generalizing idx with
  | nil => cases h
  | cons b rest ih =>
      rw [List.length_cons]
      unfold scanName at h
      split at h
      · cases h
        omega
      · split at h
        · cases h
        · have := ih h
          omega

/-- **A header line is parsed without a panic.** -/
theorem parseHeaderLineChecked_eq (bytes : Bytes) : parseHeaderLineChecked bytes = some (parseHeaderLine bytes) := by
  unfold parseHeaderLineChecked parseHeaderLine
  by_cases hempty : bytes.isEmpty = true
  · rw [if_pos hempty, if_pos hempty]
    rfl
  rw [if_neg hempty, if_neg hempty]
  cases hscan : scanName 0 bytes with
  | error e => rfl
  | ok found =>
      cases found with
      | none => rfl
      | some nameLen =>
          -- the colon stands in the line, so the value begins within it
          have hname := scanName_lt hscan
          rw [Nat.zero_add] at hname
          dsimp only [bind, Except.bind, pure, Except.pure, Option.bind]
          by_cases hzero : nameLen = 0
          · rw [if_pos hzero, if_pos hzero]
            rfl
          rw [if_neg hzero, if_neg hzero, sliceTo_le (by omega), skipOwsChecked_eq (by omega)]
          dsimp only
          generalize hstart : nameLen + 1 + ((bytes.drop (nameLen + 1)).takeWhile isOws).length = valueStart
          have hle : valueStart ≤ bytes.length := by
            have := (List.takeWhile_sublist isOws (l := bytes.drop (nameLen + 1))).length_le
            rw [List.length_drop] at this
            omega
          rw [sliceFrom_le hle]
          dsimp only
          cases hctl : (bytes.drop valueStart).findIdx? isCtl with
          | none => rfl
          | some ctlPos =>
              -- so does the control byte that ends the value
              have hpos : valueStart + ctlPos < bytes.length := by
                have hlt := (List.findIdx?_eq_some_iff_findIdx_eq.mp hctl).1
                rw [List.length_drop] at hlt
                omega
              dsimp only
              rw [List.getElem?_drop, List.getElem?_drop, List.getElem?_eq_getElem hpos]
              dsimp only
              by_cases hcr : bytes[valueStart + ctlPos] = 0x0d
              · have hcr' : ¬some bytes[valueStart + ctlPos] ≠ some 0x0d := by simp [hcr]
                rw [if_neg (not_not.mpr hcr), if_neg hcr', ← Nat.add_assoc]
                by_cases hend : bytes.length ≤ valueStart + ctlPos + 1
                · rw [if_pos hend, List.getElem?_eq_none hend]
                  rfl
                rw [if_neg hend, List.getElem?_eq_getElem (Nat.lt_of_not_le hend)]
                dsimp only
                by_cases hlf : bytes[valueStart + ctlPos + 1] = 0x0a
                · have hlf' : ¬some bytes[valueStart + ctlPos + 1] ≠ some 0x0a := by simp [hlf]
                  rw [if_neg (not_not.mpr hlf), if_neg hlf', slice_le (by omega) (by omega)]
                  dsimp only
                  rw [trimTrailingOwsChecked_eq, List.drop_take, Nat.add_sub_cancel_left]
                · have hlf' : some bytes[valueStart + ctlPos + 1] ≠ some 0x0a := by simp [hlf]
                  rw [if_pos hlf, if_pos hlf']
                  rfl
              · have hcr' : some bytes[valueStart + ctlPos] ≠ some 0x0d := by simp [hcr]
                rw [if_pos hcr, if_pos hcr']
                rfl

/-! ## A head -/

/-- Whether the blank line stands at `pos`; a CR at the end of the buffer leaves that open. -/
def blankLineChecked (buf : Bytes) (pos : Nat) : Option (Except ParseError Bool) := do
  if (← buf[pos]?) = 0x0d then
    if buf.length ≤ pos + 1 then some (.error .incomplete)
    else do
      let b ← buf[pos + 1]?
      some (.ok (b = 0x0a))
  else some (.ok false)

/-- The header loop of `parse`. There is no result when it panics, or when it does not end within the given turns. -/
def parseHeadersChecked (buf : Bytes) (slots : Nat) :
    Nat → Nat → List HeaderSlice → Option (Except ParseError (List HeaderSlice × Nat))
  | 0, _, _ => none
  | fuel + 1, pos, headers =>
    if buf.length ≤ pos then some (.error .incomplete)
    else do
      match ← blankLineChecked buf pos with
      | .error e => some (.error e)
      | .ok true => some (.ok (headers, pos + 2))
      | .ok false =>
        match ← parseHeaderLineChecked (← sliceFrom buf pos) with
        | .error e => some (.error e)
        | .ok (h, lineEnd) =>
          -- `headers[count]` is written behind this guard
          if slots ≤ headers.length then some (.error .tooManyHeaders)
          else
            let h := ⟨⟨pos + h.name.start, h.name.bytes⟩, ⟨pos + h.value.start, h.value.bytes⟩⟩
            parseHeadersChecked buf slots fuel (pos + lineEnd) (headers ++ [h])

/-- The reason phrase. The byte in front of it is looked up with `get`. -/
def reasonChecked (bytes : Bytes) : Option (Except ParseError Bytes) :=
  match bytes[12]? with
  | none => some (.ok [])
  | some b => if b = 0x20 then (sliceFrom bytes 13).map .ok else some (.error .invalidStatusCode)

/-- What `parse` makes of the bytes before the first CRLF. -/
def statusOfChecked (bytes : Bytes) : Option (Except ParseError (Version × StatusCode × Bytes)) :=
  if bytes.length < 12 then some (.error .invalidVersion)
  else do
    match Version.tryFrom (← sliceTo bytes 8) with
    | .error e => some (.error e)
    | .ok version =>
      if (← bytes[8]?) ≠ 0x20 then some (.error .invalidVersion)
      else
        match StatusCode.tryFrom (← slice bytes 9 12) with
        | .error e => some (.error e)
        | .ok status =>
          match ← reasonChecked bytes with
          | .error e => some (.error e)
          | .ok reason =>
            if reason.any isCtl then some (.error .invalidReasonPhrase) else some (.ok (version, status, reason))

/-- `parse` as the source executes it. -/
def parseChecked (buf : Bytes) (slots : Nat) : Option (Except ParseError (ResponseHead × Nat)) :=
  match Bytes.findCrlf buf with
  | none => some (.error .incomplete)
  | some statusLineEnd => do
    match ← statusOfChecked (← sliceTo buf statusLineEnd) with
    | .error e => some (.error e)
    | .ok (version, status, reason) =>
      match ← parseHeadersChecked buf slots (buf.length + 1) (statusLineEnd + 2) [] with
      | .error e => some (.error e)
      | .ok (headers, consumed) => some (.ok (⟨version, status, reason, headers⟩, consumed))

theorem parseHeaderLine_pos {bytes : Bytes} {h : HeaderSlice} {n : Nat} (hok : parseHeaderLine bytes = .ok (h, n)) : 0 < n := by
  cases bytes with
  | nil => cases hok
  | cons b rest =>
      rw [parseHeaderLine_eq (List.cons_ne_nil b rest)] at hok
      obtain ⟨bytes, -, -, -, -, rfl⟩ := headerLine_ok hok
      exact Nat.succ_pos _

/-- Looking for the blank line does not read past the end of the buffer. -/
theorem blankLineChecked_eq {buf : Bytes} {pos : Nat} (hpos : pos < buf.length) :
    blankLineChecked buf pos =
      some (if buf[pos]? = some 0x0d ∧ buf.length ≤ pos + 1 then .error .incomplete
        else .ok (buf[pos]? = some 0x0d ∧ buf[pos + 1]? = some 0x0a)) := by
  unfold blankLineChecked
  rw [List.getElem?_eq_getElem hpos]
  dsimp only [bind, Option.bind]
  by_cases hcr : buf[pos] = 0x0d
  · rw [if_pos hcr, hcr]
    by_cases hend : buf.length ≤ pos + 1
    · rw [if_pos hend, if_pos ⟨rfl, hend⟩]
    · rw [if_neg hend, if_neg (fun h => hend h.2), List.getElem?_eq_getElem (Nat.lt_of_not_le hend)]
      simp
  · rw [if_neg hcr]
    simp [hcr]

/-- **The header lines are parsed without a panic**: each consumes some bytes, so the position stays in the buffer. -/
theorem parseHeadersChecked_eq {buf : Bytes} {fuel fuel' pos slots : Nat} {headers : List HeaderSlice}
    (hfuel : buf.length - pos < fuel) (hfuel' : buf.length - pos < fuel') :
    parseHeadersChecked buf (slots + headers.length) fuel pos headers = some (parseHeaders buf fuel' pos slots headers) := by
  induction fuel generalizing fuel' pos slots headers with
  | zero => omega
  | succ fuel ih =>
      obtain ⟨fuel', rfl⟩ : ∃ n, fuel' = n + 1 := ⟨fuel' - 1, by omega⟩
      unfold parseHeadersChecked parseHeaders
      by_cases hend : buf.length ≤ pos
      · rw [if_pos hend, if_pos hend]
        rfl
      have hpos : pos < buf.length := Nat.lt_of_not_le hend
      rw [if_neg hend, if_neg hend, blankLineChecked_eq hpos]
      dsimp only [bind, Option.bind, Except.bind, pure, Except.pure]
      by_cases hcr : buf[pos]? = some 0x0d ∧ buf.length ≤ pos + 1
      · rw [if_pos hcr, if_pos hcr]
        rfl
      rw [if_neg hcr, if_neg hcr]
      by_cases hblank : buf[pos]? = some 0x0d ∧ buf[pos + 1]? = some 0x0a
      · rw [decide_eq_true hblank, if_pos hblank]
      rw [decide_eq_false hblank, if_neg hblank]
      dsimp only
      rw [sliceFrom_le (Nat.le_of_lt hpos)]
      dsimp only
      rw [parseHeaderLineChecked_eq]
      dsimp only
      cases hline : parseHeaderLine (buf.drop pos) with
      | error e => rfl
      | ok parsed =>
          obtain ⟨h, lineEnd⟩ := parsed
          have hlt := parseHeaderLine_pos hline
          dsimp only
          cases slots with
          | zero =>
              rw [if_pos (by omega)]
              rfl
          | succ slots =>
              rw [if_neg (by omega)]
              have hcount : ∀ h' : HeaderSlice, slots + 1 + headers.length = slots + (headers ++ [h']).length := by
                intro h'
                rw [List.length_append, List.length_singleton]
                omega
              rw [hcount]
              exact ih (by omega) (by omega)

theorem statusOfChecked_eq (bytes : Bytes) : statusOfChecked bytes = some (statusOf bytes) := by
  unfold statusOfChecked statusOf
  by_cases hlen : bytes.length < 12
  · rw [if_pos hlen, if_pos hlen]
    rfl
  rw [if_neg hlen, if_neg hlen, sliceTo_le (by omega)]
  dsimp only [bind, Except.bind, pure, Except.pure, Option.bind]
  cases Version.tryFrom (bytes.take 8) with
  | error e => rfl
  | ok version =>
      have h8 : bytes[8]? = some bytes[8] := List.getElem?_eq_getElem (by omega)
      dsimp only
      rw [h8]
      dsimp only
      by_cases hspace : bytes[8] = 0x20
      · have hspace' : ¬some bytes[8] ≠ some 0x20 := by simp [hspace]
        rw [if_neg (not_not.mpr hspace), if_neg hspace', slice_le (by omega) (by omega)]
        dsimp only
        have hdigits : (bytes.take 12).drop 9 = (bytes.drop 9).take 3 := List.drop_take
        rw [hdigits]
        cases StatusCode.tryFrom ((bytes.drop 9).take 3) with
        | error e => rfl
        | ok status =>
            unfold reasonChecked
            dsimp only
            cases hb : bytes[12]? with
            | none => rfl
            | some b =>
                have hlt : 12 < bytes.length := (List.getElem?_eq_some_iff.mp hb).1
                dsimp only
                by_cases hsp : b = 0x20
                · rw [if_pos hsp, if_pos hsp, sliceFrom_le (by omega)]
                  dsimp only [Option.map]
                  split
                  · rfl
                  · rfl
                · rw [if_neg hsp, if_neg hsp]
                  rfl
      · have hspace' : some bytes[8] ≠ some 0x20 := by simp [hspace]
        rw [if_pos hspace, if_pos hspace']
        rfl

/-- **No slice of `parse` panics.** -/
theorem parse_checked (buf : Bytes) (slots : Nat) : parseChecked buf slots = some (parse buf slots) := by
  unfold parseChecked
  cases hfind : Bytes.findCrlf buf with
  | none =>
      unfold parse
      rw [hfind]
      rfl
  | some statusLineEnd =>
      have hlen : statusLineEnd + crlf.length ≤ buf.length :=
        Bytes.length_of_prefix_drop (by decide) (Bytes.findWindow_eq_some hfind)
      rw [parse_line hfind]
      dsimp only [bind, Except.bind, pure, Except.pure, Option.bind]
      rw [sliceTo_le (by omega)]
      dsimp only
      rw [statusOfChecked_eq]
      dsimp only
      cases statusOf (buf.take statusLineEnd) with
      | error e => rfl
      | ok status =>
          have hheaders := @parseHeadersChecked_eq buf (buf.length + 1) (buf.length + 1) (statusLineEnd + 2) slots []
            (by omega) (by omega)
          rw [List.length_nil, Nat.add_zero] at hheaders
          dsimp only
          rw [hheaders]
          dsimp only
          cases parseHeaders buf (buf.length + 1) (statusLineEnd + 2) slots [] with
          | error e => rfl
          | ok parsed => rfl

end ResponseHead

/-! ## The framing -/

namespace Bytes

/-- `trim_ows`, which slices between the first and the last byte that is not OWS. -/
def trimOwsChecked (xs : Bytes) : Option Bytes :=
  let start := (xs.takeWhile isOws).length
  -- there is no last byte that is not OWS when there is no first one
  let stop := if start = xs.length then start else xs.length - (xs.reverse.takeWhile isOws).length
  slice xs start stop

/-- `parse_u64`, with the slice of `trim_ows` checked. -/
def parseU64Checked (xs : Bytes) : Option (Option Nat) := do
  let bytes ← trimOwsChecked xs
  some (if bytes.isEmpty then none else parseDigits 0 bytes)

/-- The first byte that is not OWS does not stand behind the last one. -/
theorem trimOwsChecked_eq (xs : Bytes) : trimOwsChecked xs = some (trimOws xs) := by
  unfold trimOwsChecked trimOws
  have hsplit : xs.takeWhile isOws ++ xs.dropWhile isOws = xs := List.takeWhile_append_dropWhile
  have hlen := congrArg List.length hsplit
  rw [List.length_append] at hlen
  dsimp only
  cases hrest : xs.dropWhile isOws with
  | nil =>
      rw [hrest, List.append_nil] at hsplit
      rw [hsplit, if_pos rfl, slice_le (Nat.le_refl _) (Nat.le_refl _)]
      simp
  | cons b rest =>
      rw [hrest, List.length_cons] at hlen
      rw [hrest] at hsplit
      have hb : ¬isOws b = true := by
        have hhead := List.head?_dropWhile_not isOws xs
        rw [hrest] at hhead
        simpa using hhead
      -- `b` is not OWS, so that the OWS at the end is all behind it
      have hend : xs.reverse.takeWhile isOws = (b :: rest).reverse.takeWhile isOws := by
        conv_lhs => rw [← hsplit, List.reverse_append, List.takeWhile_append]
        rw [if_neg]
        intro hall
        have hpre : (b :: rest).reverse.takeWhile isOws <+: (b :: rest).reverse := List.takeWhile_prefix isOws
        have hmem : b ∈ (b :: rest).reverse.takeWhile isOws := by
          rw [hpre.eq_of_length hall]
          simp
        exact hb (List.mem_takeWhile_imp hmem)
      have hback := congrArg List.reverse (List.takeWhile_append_dropWhile (p := isOws) (l := (b :: rest).reverse))
      rw [List.reverse_append, List.reverse_reverse] at hback
      have hparts := congrArg List.length hback
      rw [List.length_append, List.length_reverse, List.length_reverse, List.length_cons] at hparts
      rw [if_neg (by omega), hend, slice_le (by omega) (by omega)]
      generalize (b :: rest).reverse.takeWhile isOws = post at *
      generalize (b :: rest).reverse.dropWhile isOws = core at *
      generalize xs.takeWhile isOws = pre at *
      congr 1
      have hkept : xs.length - post.length - pre.length = core.reverse.length := by
        rw [List.length_reverse]
        omega
      rw [List.drop_take, hkept, ← hsplit, List.drop_left, ← hback, List.take_left]

theorem parseU64Checked_eq (xs : Bytes) : parseU64Checked xs = some (parseU64 xs) := by
  unfold parseU64Checked
  rw [trimOwsChecked_eq]
  rfl

end Bytes

namespace TransferCodings

def ofValueChecked (value : Bytes) : Option (List Bytes) := do
  let codings ← (value.splitOnP (· == 0x2c)).mapM Bytes.trimOwsChecked
  some (codings.filter (!·.isEmpty))

/-- `TransferCoding::parse`, with the slices of `trim_ows` checked. -/
def parseChecked (headers : List Header) : Option (Except ParseError TransferCoding) := do
  let values := (headers.filter fun h => h.name.eq (.known .transferEncoding)).map Header.value
  let codings := (← values.mapM ofValueChecked).flatten
  if values.isEmpty then some (.ok .absent)
  else if codings.isEmpty then some (.ok .identity)
  else
    let isChunked (c : Bytes) := Bytes.asciiEqIgnoreCase c (ascii "chunked")
    let chunkedCount := (codings.filter isChunked).length
    if chunkedCount > 1 then some (.error .invalidTransferEncoding)
    else
      let chunkedIsFinal := codings.getLast?.any isChunked
      if chunkedCount = 1 ∧ !chunkedIsFinal then some (.error .invalidTransferEncoding)
      else do
        let leading ← if chunkedIsFinal then (checkedSub codings.length 1).bind (sliceTo codings) else some codings
        if leading.any fun c => !Bytes.asciiEqIgnoreCase c (ascii "identity") then
          some (.error .unsupportedTransferCoding)
        else if chunkedIsFinal then some (.ok .chunked)
        else some (.ok .identity)

theorem parseChecked_eq (headers : List Header) : parseChecked headers = some (parse headers) := by
  have hvalue : ofValueChecked = fun value => some (ofValue value) := by
    funext value
    have hmap : (value.splitOnP (· == 0x2c)).mapM Bytes.trimOwsChecked =
        some ((value.splitOnP (· == 0x2c)).map Bytes.trimOws) := by
      rw [funext Bytes.trimOwsChecked_eq]
      exact List.mapM_pure
    unfold ofValueChecked
    rw [hmap]
    rfl
  unfold parseChecked parse
  dsimp only
  generalize (headers.filter fun h => h.name.eq (.known .transferEncoding)).map Header.value = values
  have hmap : values.mapM ofValueChecked = some (values.map ofValue) := by
    rw [hvalue]
    exact List.mapM_pure
  rw [hmap, List.flatMap_def]
  dsimp only [bind, Option.bind]
  generalize (values.map ofValue).flatten = codings
  split
  · rfl
  split
  · rfl
  split
  · rfl
  split
  · rfl
  by_cases hfinal : codings.getLast?.any (fun c => Bytes.asciiEqIgnoreCase c (ascii "chunked")) = true
  · have hpos : 1 ≤ codings.length := by
      cases codings with
      | nil => cases hfinal
      | cons c cs => exact Nat.succ_pos _
    rw [if_pos hfinal, if_pos hfinal, if_pos hfinal, checkedSub_le hpos]
    dsimp only
    rw [sliceTo_le (Nat.sub_le _ _), ← List.dropLast_eq_take]
    dsimp only
    split
    · rfl
    · rfl
  · rw [if_neg hfinal, if_neg hfinal, if_neg hfinal]
    split
    · rfl
    · rfl

end TransferCodings

namespace BodyFraming

/-- `content_length`, with the numbers parsed as checked above. -/
def contentLengthOfChecked (found : Option Nat) : List Header → Option (Except ParseError (Option Nat))
  | [] => some (.ok found)
  | h :: rest =>
    if h.name.eq (.known .contentLength) then do
      match ← Bytes.parseU64Checked h.value with
      | Option.none => some (.error .invalidContentLength)
      | some len =>
        if found.any (· ≠ len) then some (.error .invalidContentLength) else contentLengthOfChecked (some len) rest
    else contentLengthOfChecked found rest

/-- `from_response` as the source executes it. -/
def fromResponseChecked (status : StatusCode) (requestMethod : Method) (headers : List Header) :
    Option (Except ParseError BodyFraming) := do
  if status.isInformational ∨ status = .NO_CONTENT ∨ status = .NOT_MODIFIED ∨
      !requestMethod.responseCanHaveContent status then
    some (.ok .none)
  else
    match ← TransferCodings.parseChecked headers with
    | .error e => some (.error e)
    | .ok .chunked => some (.ok .chunked)
    | .ok .identity => some (.ok .untilClose)
    | .ok .absent =>
      match ← contentLengthOfChecked Option.none headers with
      | .error e => some (.error e)
      | .ok (some len) => some (.ok (.contentLength len))
      | .ok Option.none => some (.ok .untilClose)

theorem contentLengthOfChecked_eq (found : Option Nat) (headers : List Header) :
    contentLengthOfChecked found headers = some (contentLengthOf found headers) := by
  induction headers generalizing found with
  | nil => rfl
  | cons h rest ih =>
      unfold contentLengthOfChecked contentLengthOf
      rw [Bytes.parseU64Checked_eq]
      split
      · dsimp only [bind, Option.bind]
        cases Bytes.parseU64 h.value with
        | none => rfl
        | some len =>
            dsimp only
            split
            · rfl
            · exact ih _
      · exact ih _

/-- **No slice of `from_response` panics.** -/
theorem fromResponse_checked (status : StatusCode) (requestMethod : Method) (headers : List Header) :
    fromResponseChecked status requestMethod headers = some (fromResponse status requestMethod headers) := by
  unfold fromResponseChecked fromResponse
  rw [TransferCodings.parseChecked_eq, contentLengthOfChecked_eq]
  dsimp only [bind, Option.bind, Except.bind, pure, Except.pure]
  split
  · rfl
  · cases TransferCodings.parse headers with
    | error e => rfl
    | ok coding =>
        cases coding with
        | absent =>
            cases contentLengthOf Option.none headers with
            | error e => rfl
            | ok found => cases found <;> rfl
        | chunked => rfl
        | identity => rfl

end BodyFraming

end Xibalba
