import Mathlib.Data.List.DropRight
import Mathlib.Tactic.Common

/-!
# `Lib.DotSegments` — removing dot segments from a path

RFC 3986 §5.2.4 removes the segments `.` and `..` by rewriting an input buffer and an output buffer symbol by symbol.
Over any two symbols for the slash and the dot, the rewriting is a walk over the segments of the path with a stack of
those kept so far. A walk that passes over some of the segments, where the rewriting keeps them, comes to the same stack
exactly when `Agree` says so, which reads the segments from the right.
-/

namespace DotSegments

variable {α : Type*} [DecidableEq α] (slash dot : α)

/-! ## The rewriting -/

/-- Remove the last segment and its preceding slash, if any, from the output buffer. -/
def dropSegment (out : List α) : List α := ((out.reverse.dropWhile (· ≠ slash)).drop 1).reverse

/-- One turn of the loop of §5.2.4: the input buffer and the output buffer after it. -/
def turn (input out : List α) : List α × List α :=
  -- A
  if [dot, dot, slash] <+: input then (input.drop 3, out)
  else if [dot, slash] <+: input then (input.drop 2, out)
  -- B
  else if [slash, dot, slash] <+: input then (input.drop 2, out)
  else if input = [slash, dot] then ([slash], out)
  -- C
  else if [slash, dot, dot, slash] <+: input then (input.drop 3, dropSegment slash out)
  else if input = [slash, dot, dot] then ([slash], dropSegment slash out)
  -- D
  else if input = [dot] ∨ input = [dot, dot] then ([], out)
  -- E
  else
    match input with
    | [] => ([], out)
    | c :: rest => (rest.dropWhile (· ≠ slash), out ++ c :: rest.takeWhile (· ≠ slash))

/-- The loop, which is over when the input buffer is empty. -/
def loop : Nat → List α → List α → List α
  | 0, _, out => out
  | fuel + 1, input, out =>
    if input = [] then out else loop fuel (turn slash dot input out).1 (turn slash dot input out).2

/-- **`remove_dot_segments`**, RFC 3986 §5.2.4. Every turn shortens the input buffer. -/
def remove (path : List α) : List α := loop slash dot path.length path []

/-! ## The walk -/

/-- Segments with a slash in front of each. -/
def joined (segments : List (List α)) : List α := segments.flatMap (slash :: ·)

/-- A segment on its way to the stack, in a walk that passes over those it does not keep. -/
def step (keep : List α → Bool) (outs : List (List α)) (s : List α) : List (List α) :=
  if s = [dot, dot] then outs.dropLast
  else if s = [dot] then outs
  else if keep s then outs ++ [s]
  else outs

/-- The last segment: one that is a dot segment leaves a slash at the end. -/
def finish (outs : List (List α)) (last : List α) : List (List α) :=
  if last = [dot, dot] then outs.dropLast ++ [[]] else if last = [dot] then outs ++ [[]] else outs ++ [last]

/-- Read from the right, `r` segments are to be struck out by `..` in the walk that keeps everything, and `c` in the one
    that passes over some: no segment the first leaves standing is missing from the second. -/
def Agree (keep : List α → Bool) : Nat → Nat → List (List α) → Prop
  | _, _, [] => True
  | r, c, s :: rest =>
    if s = [dot, dot] then Agree keep (r + 1) (c + 1) rest
    else if s = [dot] then Agree keep r c rest
    else
      match r with
      | 0 => keep s = true ∧ c = 0 ∧ Agree keep 0 0 rest
      | r + 1 => Agree keep r (if keep s then c - 1 else c) rest

variable {slash dot}

omit [DecidableEq α] in
@[simp] theorem joined_nil : joined slash ([] : List (List α)) = [] := rfl

omit [DecidableEq α] in
@[simp] theorem joined_cons (s : List α) (segments : List (List α)) :
    joined slash (s :: segments) = slash :: (s ++ joined slash segments) := rfl

omit [DecidableEq α] in
theorem joined_append (xs ys : List (List α)) : joined slash (xs ++ ys) = joined slash xs ++ joined slash ys :=
  List.flatMap_append

omit [DecidableEq α] in
theorem joined_eq_cons {segments : List (List α)} (h : segments ≠ []) :
    joined slash segments = slash :: [slash].intercalate segments := by
  induction segments with
  | nil => exact absurd rfl h
  | cons s segments ih =>
      cases segments with
      | nil => simp
      | cons s' segments =>
          rw [joined_cons, ih (List.cons_ne_nil _ _), List.intercalate_cons_cons]
          simp

omit [DecidableEq α] in
/-- What stands in front of joined segments is one more segment: they are empty, or start with a slash. -/
theorem joined_head (segments : List (List α)) : ∀ c ∈ (joined slash segments).head?, c = slash := by
  intro c hc
  cases segments with
  | nil => cases hc
  | cons s segments =>
      cases hc
      rfl

/-- Removing a segment from the output buffer pops the stack. -/
theorem dropSegment_joined {outs : List (List α)} (h : ∀ s ∈ outs, slash ∉ s) :
    dropSegment slash (joined slash outs) = joined slash outs.dropLast := by
  rcases List.eq_nil_or_concat' outs with rfl | ⟨outs, s, rfl⟩
  · rfl
  · have hs : slash ∉ s := h s (by simp)
    have hpass : ∀ a ∈ s.reverse, decide (a ≠ slash) = true := by
      intro a ha
      rw [decide_eq_true_eq]
      rintro rfl
      exact hs (List.mem_reverse.mp ha)
    have hrev : (joined slash (outs ++ [s])).reverse = s.reverse ++ slash :: (joined slash outs).reverse := by
      rw [joined_append]
      simp
    rw [List.dropLast_concat, dropSegment, hrev, List.dropWhile_append_of_pos hpass, List.dropWhile_cons_of_neg (by simp)]
    simp

/-! ## A turn on a segment -/

section

variable {s t rest out : List α} (hs : slash ∉ s) (hrest : ∀ c ∈ rest.head?, c = slash)

include hs hrest

theorem takeWhile_segment : (s ++ rest).takeWhile (· ≠ slash) = s := by
  have hpass : ∀ a ∈ s, decide (a ≠ slash) = true := by
    intro a ha
    rw [decide_eq_true_eq]
    rintro rfl
    exact hs ha
  rw [List.takeWhile_append_of_pos hpass]
  cases rest with
  | nil => simp
  | cons c rest =>
      obtain rfl := hrest c rfl
      simp

theorem dropWhile_segment : (s ++ rest).dropWhile (· ≠ slash) = rest := by
  have h := List.takeWhile_append_dropWhile (p := (· ≠ slash)) (l := s ++ rest)
  rw [takeWhile_segment hs hrest] at h
  exact List.append_cancel_left h

omit [DecidableEq α] hrest in
theorem segment_eq_iff (ht : slash ∉ t) (hrest : ∀ c ∈ rest.head?, c = slash) : s ++ rest = t ↔ s = t ∧ rest = [] := by
  constructor
  · rintro rfl
    cases rest with
    | nil => simp
    | cons c rest =>
        obtain rfl := hrest c rfl
        exact absurd (by simp) ht
  · rintro ⟨rfl, rfl⟩
    exact List.append_nil s

theorem segment_prefix_iff (ht : slash ∉ t) : t ++ [slash] <+: s ++ rest ↔ s = t ∧ rest ≠ [] := by
  constructor
  · rintro ⟨u, hu⟩
    rw [List.append_assoc, List.singleton_append] at hu
    have hcut := congrArg (List.takeWhile (· ≠ slash)) hu
    rw [takeWhile_segment hs hrest, takeWhile_segment ht (by simp)] at hcut
    subst hcut
    rw [← List.append_cancel_left hu]
    exact ⟨rfl, List.cons_ne_nil _ _⟩
  · rintro ⟨rfl, hne⟩
    cases rest with
    | nil => exact absurd rfl hne
    | cons c rest =>
        obtain rfl := hrest c rfl
        exact ⟨rest, by simp⟩

/-- What a segment in front of the input buffer does, when more follows or when it is the last. -/
theorem turn_segment (hne : slash ≠ dot) : turn slash dot (slash :: (s ++ rest)) out =
    if s = [dot] then (if rest = [] then [slash] else rest, out)
    else if s = [dot, dot] then (if rest = [] then [slash] else rest, dropSegment slash out)
    else (rest, out ++ slash :: s) := by
  have hdot : slash ∉ [dot] := by simpa using hne
  have hdots : slash ∉ [dot, dot] := by simpa using hne
  have hA : ∀ u, ¬dot :: u <+: slash :: (s ++ rest) := by
    intro u h
    exact hne (List.cons_prefix_cons.mp h).1.symm
  have hD : ¬(slash :: (s ++ rest) = [dot] ∨ slash :: (s ++ rest) = [dot, dot]) := by
    rintro (h | h)
    · exact hne (List.cons.inj h).1
    · exact hne (List.cons.inj h).1
  have hB : [slash, dot, slash] <+: slash :: (s ++ rest) ↔ s = [dot] ∧ rest ≠ [] := by
    rw [List.cons_prefix_cons]
    simpa using segment_prefix_iff hs hrest hdot
  have hB' : slash :: (s ++ rest) = [slash, dot] ↔ s = [dot] ∧ rest = [] := by
    rw [List.cons_inj_right]
    exact segment_eq_iff hs hdot hrest
  have hC : [slash, dot, dot, slash] <+: slash :: (s ++ rest) ↔ s = [dot, dot] ∧ rest ≠ [] := by
    rw [List.cons_prefix_cons]
    simpa using segment_prefix_iff hs hrest hdots
  have hC' : slash :: (s ++ rest) = [slash, dot, dot] ↔ s = [dot, dot] ∧ rest = [] := by
    rw [List.cons_inj_right]
    exact segment_eq_iff hs hdots hrest
  unfold turn
  rw [if_neg (hA _), if_neg (hA _), if_neg hD]
  simp only [hB, hB', hC, hC']
  by_cases h1 : s = [dot]
  · subst h1
    by_cases hr : rest = []
    · simp [hr]
    · simp [hr]
  by_cases h2 : s = [dot, dot]
  · subst h2
    by_cases hr : rest = []
    · simp [hr]
    · simp [hr]
  simp only [h1, h2, false_and, if_false]
  rw [takeWhile_segment hs hrest, dropWhile_segment hs hrest]

end

/-! ## The rewriting is the walk -/

/-- Segments without a slash in them. -/
def SlashFree (slash : α) (segments : List (List α)) : Prop := ∀ s ∈ segments, slash ∉ s

omit [DecidableEq α] in
theorem SlashFree.nil : SlashFree slash ([] : List (List α)) := nofun

omit [DecidableEq α] in
theorem SlashFree.dropLast {segments : List (List α)} (h : SlashFree slash segments) : SlashFree slash segments.dropLast :=
  fun s hs => h s (List.dropLast_subset _ hs)

omit [DecidableEq α] in
theorem SlashFree.concat {segments : List (List α)} {s : List α} (h : SlashFree slash segments) (hs : slash ∉ s) :
    SlashFree slash (segments ++ [s]) := by
  intro t ht
  rcases List.mem_append.mp ht with ht | ht
  · exact h t ht
  · rwa [List.mem_singleton.mp ht]

theorem SlashFree.step {keep : List α → Bool} {outs : List (List α)} {s : List α} (h : SlashFree slash outs)
    (hs : slash ∉ s) : SlashFree slash (step dot keep outs s) := by
  unfold DotSegments.step
  split_ifs
  · exact h.dropLast
  · exact h
  · exact h.concat hs
  · exact h

theorem SlashFree.foldl {keep : List α → Bool} {segments outs : List (List α)} (h : SlashFree slash outs)
    (hs : SlashFree slash segments) : SlashFree slash (segments.foldl (DotSegments.step dot keep) outs) := by
  induction segments generalizing outs with
  | nil => exact h
  | cons s segments ih =>
      rw [List.foldl_cons]
      exact ih (h.step (hs s List.mem_cons_self)) fun t ht => hs t (List.mem_cons_of_mem _ ht)

theorem SlashFree.finish {outs : List (List α)} {last : List α} (h : SlashFree slash outs) (hl : slash ∉ last) :
    SlashFree slash (finish dot outs last) := by
  unfold DotSegments.finish
  split_ifs
  · exact h.dropLast.concat List.not_mem_nil
  · exact h.concat List.not_mem_nil
  · exact h.concat hl

/-- A path determines its segments. -/
theorem joined_inj {xs ys : List (List α)} (hx : SlashFree slash xs) (hy : SlashFree slash ys) :
    joined slash xs = joined slash ys ↔ xs = ys := by
  refine ⟨fun h => ?_, congrArg _⟩
  induction xs generalizing ys with
  | nil =>
      cases ys with
      | nil => rfl
      | cons t ys => cases h
  | cons s xs ih =>
      cases ys with
      | nil => cases h
      | cons t ys =>
          have hs : slash ∉ s := hx s List.mem_cons_self
          have ht : slash ∉ t := hy t List.mem_cons_self
          rw [joined_cons, joined_cons, List.cons_inj_right] at h
          have hcut := congrArg (List.takeWhile (· ≠ slash)) h
          rw [takeWhile_segment hs (joined_head _), takeWhile_segment ht (joined_head _)] at hcut
          subst hcut
          rw [ih (fun u hu => hx u (List.mem_cons_of_mem _ hu)) (fun u hu => hy u (List.mem_cons_of_mem _ hu))
            (List.append_cancel_left h)]

@[simp] theorem loop_nil (fuel : Nat) (out : List α) : loop slash dot fuel [] out = out := by
  cases fuel with
  | zero => rfl
  | succ fuel => exact if_pos rfl

/-- A turn of the loop on what starts with a slash. -/
theorem loop_cons {fuel : Nat} {rest out : List α} : loop slash dot (fuel + 1) (slash :: rest) out =
    loop slash dot fuel (turn slash dot (slash :: rest) out).1 (turn slash dot (slash :: rest) out).2 := by
  rw [loop, if_neg (List.cons_ne_nil _ _)]

/-- The slash that the last dot segment leaves. -/
theorem turn_slash (hne : slash ≠ dot) (out : List α) : turn slash dot [slash] out = ([], out ++ [slash]) := by
  have h := @turn_segment α _ slash dot [] [] out List.not_mem_nil (by simp) hne
  rwa [List.append_nil, if_neg (by simp), if_neg (by simp)] at h

/-- The last segment. -/
theorem loop_last (hne : slash ≠ dot) {fuel : Nat} {last : List α} {outs : List (List α)} (hl : slash ∉ last)
    (ho : SlashFree slash outs) (hfuel : last.length + 1 ≤ fuel) :
    loop slash dot fuel (slash :: last) (joined slash outs) = joined slash (finish dot outs last) := by
  obtain ⟨fuel, rfl⟩ := Nat.exists_eq_succ_of_ne_zero (by omega : fuel ≠ 0)
  have hturn := @turn_segment α _ slash dot last [] (joined slash outs) hl (by simp) hne
  rw [List.append_nil] at hturn
  rw [loop_cons, hturn]
  unfold finish
  by_cases h1 : last = [dot]
  · subst h1
    obtain ⟨fuel, rfl⟩ := Nat.exists_eq_succ_of_ne_zero (by simp at hfuel; omega : fuel ≠ 0)
    rw [if_pos rfl, if_pos rfl, if_neg (by simp), if_pos rfl, loop_cons, turn_slash hne, joined_append]
    simp
  by_cases h2 : last = [dot, dot]
  · subst h2
    obtain ⟨fuel, rfl⟩ := Nat.exists_eq_succ_of_ne_zero (by simp at hfuel; omega : fuel ≠ 0)
    rw [if_neg h1, if_pos rfl, if_pos rfl, if_pos rfl, dropSegment_joined ho, loop_cons, turn_slash hne, joined_append]
    simp
  rw [if_neg h1, if_neg h2, if_neg h2, if_neg h1, loop_nil, joined_append]
  simp

/-- **The loop** on a path of segments, with segments in the output buffer. -/
theorem loop_joined (hne : slash ≠ dot) {fuel : Nat} {front outs : List (List α)} {last : List α}
    (hf : SlashFree slash front) (hl : slash ∉ last) (ho : SlashFree slash outs)
    (hfuel : (joined slash (front ++ [last])).length ≤ fuel) :
    loop slash dot fuel (joined slash (front ++ [last])) (joined slash outs) =
      joined slash (finish dot (front.foldl (step dot fun _ => true) outs) last) := by
  induction front generalizing fuel outs with
  | nil =>
      rw [List.nil_append, joined_cons, joined_nil, List.append_nil] at hfuel ⊢
      exact loop_last hne hl ho hfuel
  | cons s front ih =>
      have hs : slash ∉ s := hf s List.mem_cons_self
      have hf' : SlashFree slash front := fun t ht => hf t (List.mem_cons_of_mem _ ht)
      have hrest : joined slash (front ++ [last]) ≠ [] := by
        rw [joined_append]
        simp
      rw [List.cons_append, joined_cons, List.length_cons, List.length_append] at hfuel
      obtain ⟨fuel, rfl⟩ := Nat.exists_eq_succ_of_ne_zero (by omega : fuel ≠ 0)
      rw [List.cons_append, joined_cons, loop_cons, turn_segment hs (joined_head _) hne, if_neg hrest, List.foldl_cons]
      by_cases h1 : s = [dot]
      · have hstep : step dot (fun _ => true) outs s = outs := by simp [step, h1]
        rw [if_pos h1, hstep]
        exact ih hf' ho (by omega)
      by_cases h2 : s = [dot, dot]
      · have hstep : step dot (fun _ => true) outs s = outs.dropLast := by simp [step, h2]
        rw [if_neg h1, if_pos h2, hstep, dropSegment_joined ho]
        exact ih hf' ho.dropLast (by omega)
      · have hstep : step dot (fun _ => true) outs s = outs ++ [s] := by simp [step, h1, h2]
        have hjoin : joined slash outs ++ slash :: s = joined slash (outs ++ [s]) := by
          rw [joined_append]
          simp
        rw [if_neg h1, if_neg h2, hstep, hjoin]
        exact ih hf' (ho.concat hs) (by omega)

/-- **`remove_dot_segments`** is a walk over the segments of the path. -/
theorem remove_joined (hne : slash ≠ dot) {front : List (List α)} {last : List α} (hf : SlashFree slash front)
    (hl : slash ∉ last) : remove slash dot (joined slash (front ++ [last])) =
      joined slash (finish dot (front.foldl (step dot fun _ => true) []) last) :=
  loop_joined hne hf hl SlashFree.nil (Nat.le_refl _)

/-! ## Walks that pass over segments -/

/-- The segments a walk leaves standing, read from the right with `c` of them to be struck out. -/
def standing (dot : α) (keep : List α → Bool) : Nat → List (List α) → List (List α)
  | _, [] => []
  | c, s :: rest =>
    if s = [dot, dot] then standing dot keep (c + 1) rest
    else if s = [dot] then standing dot keep c rest
    else if keep s then
      match c with
      | 0 => s :: standing dot keep 0 rest
      | c + 1 => standing dot keep c rest
    else standing dot keep c rest

theorem foldl_standing (keep : List α → Bool) (c : Nat) (segments : List (List α)) :
    (segments.foldl (step dot keep) []).reverse.drop c = standing dot keep c segments.reverse := by
  -- from the right, a `..` is one more to be struck out of what stands to its left
  induction segments using List.reverseRecOn generalizing c with
  | nil => rw [List.foldl_nil, List.reverse_nil, List.drop_nil, standing]
  | append_singleton segments s ih =>
      rw [List.foldl_append, List.foldl_cons, List.foldl_nil, List.reverse_append, List.reverse_singleton,
        List.singleton_append]
      unfold standing
      rw [step]
      split_ifs
      · rw [← List.tail_reverse, List.drop_tail, ih]
      · exact ih c
      · rw [List.reverse_append, List.reverse_singleton, List.singleton_append]
        cases c with
        | zero => rw [List.drop_zero, ← ih 0, List.drop_zero]
        | succ c => exact ih c
      · exact ih c

theorem standing_length_le {keep : List α → Bool} {r c : Nat} (hrc : r ≤ c) (segments : List (List α)) :
    (standing dot keep c segments).length ≤ (standing dot (fun _ => true) r segments).length := by
  induction segments generalizing r c with
  | nil => simp [standing]
  | cons s rest ih =>
      unfold standing
      by_cases h2 : s = [dot, dot]
      · rw [if_pos h2, if_pos h2]
        exact ih (by omega)
      rw [if_neg h2, if_neg h2]
      by_cases h1 : s = [dot]
      · rw [if_pos h1, if_pos h1]
        exact ih hrc
      rw [if_neg h1, if_neg h1, if_pos rfl]
      by_cases hkeep : keep s = true
      · rw [if_pos hkeep]
        cases r with
        | zero =>
            cases c with
            | zero => exact Nat.succ_le_succ (ih (Nat.le_refl _))
            | succ c => exact Nat.le_succ_of_le (ih (Nat.zero_le _))
        | succ r =>
            obtain ⟨c, rfl⟩ := Nat.exists_eq_succ_of_ne_zero (by omega : c ≠ 0)
            exact ih (by omega)
      · rw [if_neg hkeep]
        cases r with
        | zero => exact Nat.le_succ_of_le (ih (Nat.zero_le _))
        | succ r => exact ih (by omega)

theorem standing_eq_iff {keep : List α → Bool} {r c : Nat} (hrc : r ≤ c) (segments : List (List α)) :
    standing dot (fun _ => true) r segments = standing dot keep c segments ↔ Agree dot keep r c segments := by
  induction segments generalizing r c with
  | nil => simp [standing, Agree]
  | cons s rest ih =>
      -- a segment that only the first walk leaves standing makes its list longer than the second can be
      have hlonger : ∀ {c' : Nat}, s :: standing dot (fun _ => true) 0 rest ≠ standing dot keep c' rest := by
        intro c' h
        have hle := @standing_length_le α _ dot keep 0 c' (Nat.zero_le c') rest
        rw [← h, List.length_cons] at hle
        omega
      unfold standing Agree
      by_cases h2 : s = [dot, dot]
      · rw [if_pos h2, if_pos h2, if_pos h2]
        exact ih (by omega)
      rw [if_neg h2, if_neg h2, if_neg h2]
      by_cases h1 : s = [dot]
      · rw [if_pos h1, if_pos h1, if_pos h1]
        exact ih hrc
      rw [if_neg h1, if_neg h1, if_neg h1, if_pos rfl]
      by_cases hkeep : keep s = true
      · rw [if_pos hkeep, if_pos hkeep]
        cases r with
        | zero =>
            cases c with
            | zero => simp [ih (Nat.le_refl _), hkeep]
            | succ c => simpa using hlonger
        | succ r =>
            obtain ⟨c, rfl⟩ := Nat.exists_eq_succ_of_ne_zero (by omega : c ≠ 0)
            exact ih (by omega)
      · rw [if_neg hkeep, if_neg hkeep]
        cases r with
        | zero =>
            refine ⟨fun h => absurd h hlonger, ?_⟩
            rintro ⟨hk, -⟩
            exact absurd hk hkeep
        | succ r => exact ih (by omega)

/-- Two walks come to the same stack exactly when nothing the first leaves standing is missing from the second. -/
theorem foldl_eq_iff (keep : List α → Bool) (segments : List (List α)) :
    segments.foldl (step dot fun _ => true) [] = segments.foldl (step dot keep) [] ↔
      Agree dot keep 0 0 segments.reverse := by
  rw [← standing_eq_iff (Nat.le_refl 0), ← foldl_standing, ← foldl_standing, List.drop_zero, List.drop_zero,
    List.reverse_inj]

/-- **Two walks end with the same segments** exactly when nothing the first leaves standing is missing from the second: a
    last `..` strikes out one segment more. -/
theorem finish_eq_iff (keep : List α → Bool) (front : List (List α)) (last : List α) :
    finish dot (front.foldl (step dot fun _ => true) []) last = finish dot (front.foldl (step dot keep) []) last ↔
      Agree dot keep (if last = [dot, dot] then 1 else 0) (if last = [dot, dot] then 1 else 0) front.reverse := by
  unfold finish
  by_cases hdots : last = [dot, dot]
  · have h := @foldl_eq_iff α _ dot keep (front ++ [[dot, dot]])
    rw [List.foldl_append, List.foldl_append, List.reverse_append] at h
    simpa [hdots, step, Agree] using h
  · rw [if_neg hdots, if_neg hdots, if_neg hdots, ← foldl_eq_iff]
    by_cases hdot : last = [dot]
    · simp [hdot]
    · simp [hdot]

/-- Segments that are kept and are no dot segments all go on the stack. -/
theorem foldl_normal {keep : List α → Bool} {segments outs : List (List α)}
    (h : ∀ s ∈ segments, s ≠ [dot, dot] ∧ s ≠ [dot] ∧ keep s = true) :
    segments.foldl (step dot keep) outs = outs ++ segments := by
  induction segments generalizing outs with
  | nil => simp
  | cons s segments ih =>
      obtain ⟨h2, h1, hk⟩ := h s List.mem_cons_self
      rw [List.foldl_cons, ih fun t ht => h t (List.mem_cons_of_mem _ ht), step, if_neg h2, if_neg h1, if_pos hk]
      simp

/-- And nothing else does. -/
theorem normal_foldl {keep : List α → Bool} {segments outs : List (List α)}
    (h : ∀ s ∈ outs, s ≠ [dot, dot] ∧ s ≠ [dot] ∧ keep s = true) :
    ∀ s ∈ segments.foldl (step dot keep) outs, s ≠ [dot, dot] ∧ s ≠ [dot] ∧ keep s = true := by
  induction segments generalizing outs with
  | nil => exact h
  | cons s segments ih =>
      rw [List.foldl_cons]
      apply ih
      intro t ht
      unfold step at ht
      split_ifs at ht with h2 h1 hk
      · exact h t (List.dropLast_subset _ ht)
      · exact h t ht
      · rcases List.mem_append.mp ht with ht | ht
        · exact h t ht
        · rw [List.mem_singleton.mp ht]
          exact ⟨h2, h1, hk⟩
      · exact h t ht

end DotSegments
