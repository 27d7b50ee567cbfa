import Xibalba.Client.Redirect
import Xibalba.Lib.DotSegments
import Xibalba.Proto.Correctness.UrlGrammar

/-!
# `Client.Correctness.References` — where a redirect leads

RFC 3986 §5.2 resolves a reference against a base in three steps: the reference is taken apart, its parts replace those
of the base, and dot segments are removed from the path. `apply_location` does the same except that its walk over the
segments drops empty ones, so the paths agree exactly when `KeepsEmpty` says that no empty segment mattered.

Layout:
* the reference and its target, after RFC 3986;
* `remove_dot_segments` as a walk;
* the parts of a `Location`, as the code finds them;
* `applyLocation_resolves_iff`;
* chains of hops.
-/

namespace Xibalba

namespace Rfc3986

/-! ## References -/

/-- What stands in front of the first byte that is one of `stops`. -/
def upTo (stops w : Bytes) : Bytes := w.takeWhile (!stops.contains ·)

/-- The rest, from that byte on. -/
def beyond (stops w : Bytes) : Bytes := w.dropWhile (!stops.contains ·)

/-- A reference without its fragment. -/
structure Reference where
  scheme : Option Bytes
  authority : Option Bytes
  path : Bytes
  query : Option Bytes
deriving DecidableEq

/-- `scheme = ALPHA *( ALPHA / DIGIT / "+" / "-" / "." )`, §3.1. -/
def isScheme : Bytes → Bool
  | [] => false
  | first :: rest => isAsciiAlphabetic first && rest.all fun b => isAsciiAlphanumeric b || (ascii "+-.").contains b

/-- `[ scheme ":" ]`, and what follows it. -/
def readScheme (w : Bytes) : Option Bytes × Bytes :=
  if (beyond (ascii ":/?") w).head? = some 0x3a ∧ isScheme (upTo (ascii ":/?") w) = true then
    (some (upTo (ascii ":/?") w), (beyond (ascii ":/?") w).tail)
  else (none, w)

/-- `[ "//" authority ]`, and what follows it. -/
def readAuthority (w : Bytes) : Option Bytes × Bytes :=
  if ascii "//" <+: w then (some (upTo (ascii "/?") (w.drop 2)), beyond (ascii "/?") (w.drop 2)) else (none, w)

/-- `path [ "?" query ]`. -/
def readTail (w : Bytes) : Bytes × Option Bytes := (upTo (ascii "?") w, (beyond (ascii "?") w).tail?)

/-- The parts of a reference, with the fragment dropped. -/
def components (location : Bytes) : Reference :=
  let w := upTo (ascii "#") location
  let (scheme, w) := readScheme w
  let (authority, w) := readAuthority w
  let (path, query) := readTail w
  ⟨scheme, authority, path, query⟩

/-! ## Targets -/

/-- The scheme and authority of a target: those of the base, or those the reference names. -/
inductive Site where
  | base
  | named (scheme : Bytes) (authority : Option Bytes)
deriving DecidableEq

structure Target where
  site : Site
  path : Bytes
  query : Option Bytes
deriving DecidableEq

/-- §5.2.3. A base that has an authority and no path stands for its root. -/
def merge (base path : Bytes) : Bytes :=
  if base = [] then 0x2f :: path else (base.reverse.dropWhile (· ≠ 0x2f)).reverse ++ path

/-- §5.2.4. -/
def removeDotSegments (path : Bytes) : Bytes := DotSegments.remove 0x2f 0x2e path

/-- The path that dot segments are removed from, where the reference has one. -/
def unresolved (base : Bytes) (r : Reference) : Option Bytes :=
  if r.scheme ≠ none ∨ r.authority ≠ none then some r.path
  else if r.path = [] then none
  else if r.path.head? = some 0x2f then some r.path
  else some (merge base r.path)

/-- §5.2.2, against a base with this scheme, path and query. -/
def transform (scheme path : Bytes) (query : Option Bytes) (r : Reference) : Target :=
  let site := if r.scheme ≠ none ∨ r.authority ≠ none then .named (r.scheme.getD scheme) r.authority else .base
  match unresolved path r with
  | some p => ⟨site, removeDotSegments p, r.query⟩
  | none => ⟨site, path, r.query.or query⟩

/-- The path a request for a target asks for. -/
def Target.requestPath (t : Target) : Bytes := if t.path = [] then ascii "/" else t.path

open UrlGrammar in
/-- A site names an origin. Schemes and hosts are compared without case, and a missing port is the scheme's. -/
def Site.IsOrigin (base : Origin) : Site → Origin → Prop
  | .base, o => o = base
  | .named _ none, _ => False
  | .named scheme (some authority), o =>
    Bytes.lower scheme = o.scheme.asBytes ∧ ∃ host port n, authority = host ++ port ∧ IsHost host ∧ PortText port n ∧
      Bytes.lower host = Bytes.lower o.host ∧ o.port = n.getD o.scheme.defaultPort

/-- The segments of a path behind its first slash. -/
def segments (path : Bytes) : List Bytes := (path.splitOnP (· == 0x2f)).tail

/-- **No empty segment matters.** Read from the right, every `..` strikes out the nearest segment to its left that still
    stands (`.` aside). No empty segment before the last is left standing, and neither is one that a `..` would strike
    out if empty segments were passed over. -/
def KeepsEmpty (path : Bytes) : Prop :=
  match (segments path).reverse with
  | [] => True
  | last :: front =>
    let c := if last = ascii ".." then 1 else 0
    DotSegments.Agree 0x2e (fun s : Bytes => !s.isEmpty) c c front

end Rfc3986

/-- The origin a hop leads to. -/
def Hop.LeadsTo (origin : Origin) : Hop → Origin → Prop
  | .sameOrigin, o => o = origin
  | .reconnect target, o => ∃ url, Url.parse target = .ok url ∧ o = .fromUrl url

namespace RedirectState

/-- The hop and the state after it are those of the target of §5.2. -/
def Resolves (s : RedirectState) (origin : Origin) (location : Bytes) (s' : RedirectState) (hop : Hop) : Prop :=
  let t := Rfc3986.transform origin.scheme.asBytes s.path s.query (Rfc3986.components location)
  (∃ o, hop.LeadsTo origin o ∧ t.site.IsOrigin origin o) ∧ s'.path = t.requestPath ∧ s'.query = t.query

end RedirectState

/-! ## `remove_dot_segments` as a walk -/

namespace UriReference

open DotSegments (SlashFree)

/-- The walk over the segments, which passes over empty ones. -/
def walk (segments : List Bytes) : List Bytes := segments.foldl (DotSegments.step 0x2e fun s => !s.isEmpty) []

/-- The path made of segments. -/
def joined (segments : List Bytes) : Bytes := DotSegments.joined 0x2f segments

theorem ascii_dot : ascii "." = [0x2e] := by decide

theorem ascii_dots : ascii ".." = [0x2e, 0x2e] := by decide

theorem ascii_slash : ascii "/" = [0x2f] := by decide

theorem segmentStep_fst (st : List Bytes × Bool) (s : Bytes) :
    (segmentStep st s).1 = DotSegments.step 0x2e (fun s => !s.isEmpty) st.1 s := by
  unfold segmentStep DotSegments.step
  rw [ascii_dot, ascii_dots]
  by_cases hdots : s = [0x2e, 0x2e]
  · rw [if_pos hdots, if_pos hdots]
  rw [if_neg hdots, if_neg hdots]
  by_cases hdot : s = [0x2e]
  · rw [if_pos (.inl hdot), if_pos hdot]
  rw [if_neg hdot]
  by_cases hempty : s = []
  · rw [if_pos (.inr hempty), hempty]
    rfl
  · rw [if_neg (by simp [hdot, hempty]), if_pos (by simpa using hempty)]

theorem foldl_segmentStep_fst (segments : List Bytes) (st : List Bytes × Bool) :
    (segments.foldl segmentStep st).1 = segments.foldl (DotSegments.step 0x2e fun s => !s.isEmpty) st.1 := by
  induction segments generalizing st with
  | nil => rfl
  | cons s segments ih => rw [List.foldl_cons, List.foldl_cons, ih, segmentStep_fst]

/-- The segments and the flag after the last segment spell what the walk ends with. -/
theorem segmentStep_spelled (st : List Bytes × Bool) (last : Bytes) :
    (segmentStep st last).1.flatMap (ascii "/" ++ ·) ++ (if (segmentStep st last).2 then ascii "/" else []) =
      joined (DotSegments.finish 0x2e st.1 last) := by
  unfold segmentStep DotSegments.finish joined
  rw [ascii_dot, ascii_dots, ascii_slash]
  by_cases hdots : last = [0x2e, 0x2e]
  · rw [if_pos hdots, if_pos hdots, DotSegments.joined_append]
    rfl
  rw [if_neg hdots, if_neg hdots]
  by_cases hdot : last = [0x2e]
  · rw [if_pos (.inl hdot), if_pos hdot, DotSegments.joined_append]
    rfl
  rw [if_neg hdot]
  by_cases hempty : last = []
  · rw [if_pos (.inr hempty), hempty, DotSegments.joined_append]
    rfl
  · rw [if_neg (by simp [hdot, hempty])]
    simp [DotSegments.joined]

theorem joined_finish_ne_nil (outs : List Bytes) (last : Bytes) : joined (DotSegments.finish 0x2e outs last) ≠ [] := by
  unfold joined DotSegments.finish
  split_ifs
  · simp [DotSegments.joined_append]
  · simp [DotSegments.joined_append]
  · simp [DotSegments.joined_append]

/-- A path is joined from its segments, with the slash in front taken away from one that has none. -/
theorem removeDotSegments_eq {path last : Bytes} {front : List Bytes}
    (h : path.splitOnP (· == 0x2f) = front ++ [last]) :
    removeDotSegments path =
      if path.head? = some 0x2f then joined (DotSegments.finish 0x2e (walk front) last)
      else (joined (DotSegments.finish 0x2e (walk front) last)).drop 1 := by
  have hne := joined_finish_ne_nil (walk front) last
  have hspelled := segmentStep_spelled (front.foldl segmentStep ([], false)) last
  have hwalk : (front.foldl segmentStep ([], false)).1 = walk front := foldl_segmentStep_fst _ _
  rw [hwalk] at hspelled
  unfold removeDotSegments
  rw [h, List.foldl_append, List.foldl_cons, List.foldl_nil]
  generalize segmentStep (front.foldl segmentStep ([], false)) last = st at hspelled
  obtain ⟨outs, trailing⟩ := st
  dsimp only at hspelled ⊢
  have hresolved : (if trailing = true then outs.flatMap (ascii "/" ++ ·) ++ ascii "/" else outs.flatMap (ascii "/" ++ ·)) =
      joined (DotSegments.finish 0x2e (walk front) last) := by
    rw [← hspelled]
    cases trailing with
    | false => rw [if_neg Bool.false_ne_true, if_neg Bool.false_ne_true, List.append_nil]
    | true => rw [if_pos rfl, if_pos rfl]
  have hempty : (joined (DotSegments.finish 0x2e (walk front) last)).isEmpty = false := by
    rwa [List.isEmpty_eq_false_iff]
  have hhead : (joined (DotSegments.finish 0x2e (walk front) last)).head? = some 0x2f := by
    cases hj : (joined (DotSegments.finish 0x2e (walk front) last)).head? with
    | none => exact absurd (List.head?_eq_none_iff.mp hj) hne
    | some c => rw [DotSegments.joined_head _ c hj]
  simp only [hresolved, hempty, Bool.false_eq_true, if_false, hhead, and_true]
  by_cases hroot : path.head? = some 0x2f
  · rw [if_neg (fun h => h hroot), if_pos hroot]
  · rw [if_pos hroot, if_neg hroot]

/-- A path that starts with a slash, and its segments. -/
theorem exists_segments {path : Bytes} (hroot : path.head? = some 0x2f) :
    ∃ front last, path = joined (front ++ [last]) ∧ Rfc3986.segments path = front ++ [last] ∧
      path.splitOnP (· == 0x2f) = ([] :: front) ++ [last] ∧ SlashFree 0x2f front ∧ (0x2f : UInt8) ∉ last := by
  obtain ⟨rest, rfl⟩ := List.head?_eq_some_iff.mp hroot
  rcases List.eq_nil_or_concat' (rest.splitOnP (· == 0x2f)) with hnil | ⟨front, last, hsplit⟩
  · exact absurd hnil (List.splitOnP_ne_nil _ _)
  have hpieces : (0x2f :: rest).splitOnP (· == 0x2f) = [] :: rest.splitOnP (· == 0x2f) := by
    rw [List.splitOnP_cons_eq_if_modifyHead, if_pos (by rfl)]
  have hfree : ∀ s ∈ front ++ [last], (0x2f : UInt8) ∉ s := by
    rw [← hsplit]
    exact fun s hs => Split.not_mem_of_mem_pieces hs
  refine ⟨front, last, ?_, ?_, ?_, fun s hs => hfree s (List.mem_append_left _ hs), hfree last (by simp)⟩
  · rw [joined, DotSegments.joined_eq_cons (by simp), ← hsplit, Split.join_pieces]
  · rw [Rfc3986.segments, hpieces, hsplit]
    rfl
  · rw [hpieces, hsplit]
    rfl

/-- The walk over a path that starts with a slash. -/
theorem removeDotSegments_rooted {front : List Bytes} {last : Bytes}
    (hsplit : (joined (front ++ [last])).splitOnP (· == 0x2f) = ([] :: front) ++ [last]) :
    removeDotSegments (joined (front ++ [last])) = joined (DotSegments.finish 0x2e (walk front) last) := by
  have hroot : (joined (front ++ [last])).head? = some 0x2f := by
    rw [joined, DotSegments.joined_eq_cons (by simp)]
    rfl
  rw [removeDotSegments_eq hsplit, if_pos hroot]
  rfl

/-- **Removing dot segments, by the RFC and by the code**, comes to the same path exactly when no empty segment
    matters. -/
theorem remove_eq_iff {path : Bytes} (hroot : path.head? = some 0x2f) :
    Rfc3986.removeDotSegments path = removeDotSegments path ↔ Rfc3986.KeepsEmpty path := by
  obtain ⟨front, last, hpath, hsegments, hsplit, hfront, hlast⟩ := exists_segments hroot
  subst hpath
  have hfree : ∀ keep, SlashFree 0x2f (DotSegments.finish 0x2e (front.foldl (DotSegments.step 0x2e keep) []) last) :=
    fun _ => (SlashFree.nil.foldl hfront).finish hlast
  have hrfc : Rfc3986.removeDotSegments (joined (front ++ [last])) =
      joined (DotSegments.finish 0x2e (front.foldl (DotSegments.step 0x2e fun _ => true) []) last) :=
    DotSegments.remove_joined (by decide) hfront hlast
  rw [removeDotSegments_rooted hsplit, hrfc]
  have hreverse : (Rfc3986.segments (joined (front ++ [last]))).reverse = last :: front.reverse := by
    rw [hsegments, List.reverse_append]
    rfl
  unfold Rfc3986.KeepsEmpty
  rw [hreverse]
  dsimp only
  rw [ascii_dots, ← DotSegments.finish_eq_iff]
  exact DotSegments.joined_inj (hfree _) (hfree _)

end UriReference

/-! ## The parts of a `Location` -/

namespace Rfc3986

open UrlGrammar

theorem upTo_append {stops front rest : Bytes} (hfront : ∀ b ∈ front, b ∉ stops) (hrest : ∀ b ∈ rest.head?, b ∈ stops) :
    upTo stops (front ++ rest) = front ∧ beyond stops (front ++ rest) = rest := by
  have hpass : ∀ b ∈ front, (!stops.contains b) = true := by
    intro b hb
    rw [Bool.not_eq_true', ← Bool.not_eq_true, List.contains_iff_mem]
    exact hfront b hb
  unfold upTo beyond
  rw [List.takeWhile_append_of_pos hpass, List.dropWhile_append_of_pos hpass]
  cases rest with
  | nil => simp
  | cons b rest =>
      have hb : b ∈ stops := hrest b rfl
      simp [hb]

theorem upTo_append_beyond (stops w : Bytes) : upTo stops w ++ beyond stops w = w := List.takeWhile_append_dropWhile

theorem not_mem_upTo {stops w : Bytes} : ∀ b ∈ upTo stops w, b ∉ stops := by
  intro b hb
  have h := List.mem_takeWhile_imp hb
  simpa using h

/-- The code cuts at a byte as the RFC reads up to it. -/
theorem cutAt_eq (c : UInt8) (w : Bytes) : Url.cutAt (· == c) w = (upTo [c] w, (beyond [c] w).tail?) := by
  obtain ⟨hcut, hno⟩ := cutAt_spec c w
  generalize Url.cutAt (· == c) w = cut at hcut hno
  obtain ⟨front, back⟩ := cut
  dsimp only at hcut hno
  have hfront : ∀ b ∈ front, b ∉ [c] := by
    intro b hb hc
    rw [List.mem_singleton.mp hc] at hb
    exact hno hb
  rcases hcut with ⟨rfl, rfl⟩ | ⟨back, rfl, rfl⟩
  · obtain ⟨hup, hbeyond⟩ := @upTo_append [c] front [] hfront nofun
    rw [List.append_nil] at hup hbeyond
    rw [hup, hbeyond]
    rfl
  · obtain ⟨hup, hbeyond⟩ := @upTo_append [c] front (c :: back) hfront (by simp)
    rw [hup, hbeyond]
    rfl

/-- A `Location` whose scheme the RFC reads has one the code finds. -/
theorem readScheme_of_not_named {w : Bytes} (h : RedirectState.hasNamedScheme w = false) : readScheme w = (none, w) := by
  refine if_neg ?_
  rintro ⟨hcolon, hscheme⟩
  obtain ⟨rest, hrest⟩ := List.head?_eq_some_iff.mp hcolon
  have hw : upTo (ascii ":/?") w ++ 0x3a :: rest = w := by rw [← hrest, upTo_append_beyond]
  have hno : ∀ b ∈ upTo (ascii ":/?") w, b ∉ ascii ":/?" := not_mem_upTo
  generalize upTo (ascii ":/?") w = front at hw hno hscheme
  subst hw
  rw [show ascii ":/?" = [0x3a, 0x2f, 0x3f] by decide] at hno
  have hpass : ∀ b ∈ front, (!(b == 0x2f || b == 0x3f)) = true := by
    intro b hb
    have hb := hno b hb
    simp only [List.mem_cons, List.not_mem_nil, or_false, not_or] at hb
    simp [hb.2]
  have hfind : ∀ b ∈ front, (b == 0x3a) = false := by
    intro b hb
    have hb := hno b hb
    simp only [List.mem_cons, List.not_mem_nil, or_false, not_or] at hb
    simp [hb.1]
  unfold RedirectState.hasNamedScheme at h
  rw [List.takeWhile_append_of_pos hpass, List.takeWhile_cons_of_pos (by rfl)] at h
  dsimp only at h
  rw [Split.findIdx?_cons_append hfind (by rfl)] at h
  dsimp only at h
  rw [List.take_left] at h
  cases front with
  | nil => cases hscheme
  | cons first tail => exact Bool.false_ne_true (h.symm.trans hscheme)

/-- Bytes of an authority end it nowhere. -/
theorem hostByte_not_stop {b : UInt8} (h : Url.isHostByte b = true) : b ∉ ascii "/?" := by
  have hclass : ∀ b : UInt8, Url.isHostByte b = true → b ∉ ascii "/?" := forall_byte (by decide +kernel)
  exact hclass b h

theorem readAuthority_append {authority rest : Bytes} (hauth : ∀ b ∈ authority, Url.isHostByte b = true)
    (hrest : ∀ b ∈ rest.head?, b ∈ ascii "/?") :
    readAuthority (ascii "//" ++ (authority ++ rest)) = (some authority, rest) := by
  obtain ⟨hup, hbeyond⟩ := upTo_append (fun b hb => hostByte_not_stop (hauth b hb)) hrest
  have hdrop : (ascii "//" ++ (authority ++ rest)).drop 2 = authority ++ rest := by
    rw [show ascii "//" = [0x2f, 0x2f] by decide]
    rfl
  rw [readAuthority, if_pos (List.prefix_append _ _), hdrop, hup, hbeyond]

theorem readTail_append {path : Bytes} (hpath : ∀ b ∈ path, b ≠ 0x3f) (query : Option Bytes) :
    readTail (path ++ queryText query) = (path, query) := by
  have hstops : ∀ b ∈ path, b ∉ ascii "?" := by
    intro b hb
    rw [show ascii "?" = [0x3f] by decide, List.mem_singleton]
    exact hpath b hb
  cases query with
  | none =>
      obtain ⟨hup, hbeyond⟩ := @upTo_append (ascii "?") path [] hstops nofun
      rw [queryText, readTail, hup, hbeyond]
      rfl
  | some query =>
      have hmark : ∀ b ∈ (0x3f :: query).head?, b ∈ ascii "?" := by
        intro b hb
        cases hb
        decide
      obtain ⟨hup, hbeyond⟩ := upTo_append hstops hmark
      rw [queryText, readTail, hup, hbeyond]
      rfl

/-- What stands behind the scheme and its colon, for a URL without a fragment. -/
def siteText (url : Url) (port : Bytes) : Bytes := ascii "//" ++ ((url.host ++ port) ++ (url.path ++ queryText url.query))

/-- The text of a URL is its scheme and the rest. -/
theorem decomposes_text {input : Bytes} {url : Url} (h : Decomposes input url) (hno : (0x23 : UInt8) ∉ input) :
    ∃ scheme port, Bytes.lower scheme = url.scheme.asBytes ∧ PortText port url.port ∧
      input = scheme ++ 0x3a :: siteText url port := by
  obtain ⟨scheme, port, hscheme, hport, hinput⟩ := h.whole
  have hfragment : fragmentText url.fragment = [] := by
    cases hf : url.fragment with
    | none => rfl
    | some fragment =>
        rw [hinput, hf] at hno
        exact absurd (by simp [fragmentText]) hno
  refine ⟨scheme, port, hscheme, hport, ?_⟩
  rw [hinput, hfragment, siteText, show ascii "://" = 0x3a :: ascii "//" by decide]
  simp

theorem read_siteText {input : Bytes} {url : Url} {port : Bytes} (h : Decomposes input url) (hhost : IsHost url.host)
    (hport : PortText port url.port) :
    readAuthority (siteText url port) = (some (url.host ++ port), url.path ++ queryText url.query) ∧
      readTail (url.path ++ queryText url.query) = (url.path, url.query) := by
  constructor
  · apply readAuthority_append (authority_bytes (isHost_iff.mp hhost).1 hport)
    intro b hb
    rcases h.path with hpath | hpath
    · rw [hpath, List.nil_append] at hb
      cases hq : url.query with
      | none =>
          rw [hq] at hb
          cases hb
      | some query =>
          rw [hq] at hb
          cases hb
          decide
    · obtain ⟨rest, hrest⟩ := List.head?_eq_some_iff.mp hpath
      rw [hrest] at hb
      cases hb
      decide
  · exact readTail_append (fun b hb => (h.pathBytes b hb).1) url.query

/-- The scheme of a URL. -/
theorem readScheme_append {scheme : Bytes} {s : Scheme} (h : Bytes.lower scheme = s.asBytes) (rest : Bytes) :
    readScheme (scheme ++ 0x3a :: rest) = (some scheme, rest) := by
  have hbyte : ∀ b : UInt8, Bytes.lowerByte b ∈ ascii "https" → isAsciiAlphabetic b = true ∧ b ∉ ascii ":/?" :=
    forall_byte (by decide +kernel)
  have hletters : ∀ b ∈ scheme, isAsciiAlphabetic b = true ∧ b ∉ ascii ":/?" := by
    intro b hb
    have hmem : Bytes.lowerByte b ∈ Bytes.lower scheme := List.mem_map_of_mem hb
    rw [h] at hmem
    have hsub : ∀ c ∈ s.asBytes, c ∈ ascii "https" := by
      cases s with
      | http => decide +kernel
      | https => decide +kernel
    exact hbyte b (hsub _ hmem)
  have hscheme : isScheme scheme = true := by
    cases scheme with
    | nil =>
        cases s with
        | http => cases h
        | https => cases h
    | cons first tail =>
        obtain ⟨hfirst, htail⟩ := List.forall_mem_cons.mp hletters
        rw [isScheme, hfirst.1, Bool.true_and, List.all_eq_true]
        intro b hb
        simp [isAsciiAlphanumeric, (htail b hb).1]
  have hcolon : ∀ b ∈ (0x3a :: rest).head?, b ∈ ascii ":/?" := by
    intro b hb
    cases hb
    decide
  obtain ⟨hup, hbeyond⟩ := upTo_append (fun b hb => (hletters b hb).2) hcolon
  rw [readScheme, hup, hbeyond, if_pos ⟨rfl, hscheme⟩]
  rfl

theorem lower_asBytes (s : Scheme) : Bytes.lower s.asBytes = s.asBytes := by
  cases s with
  | http => decide
  | https => decide

/-! ## Paths -/

theorem dropWhile_slash {front back : Bytes} (h : (0x2f : UInt8) ∉ back) :
    ((front ++ 0x2f :: back).reverse.dropWhile (· ≠ 0x2f)).reverse = front ++ [0x2f] := by
  have hpass : ∀ b ∈ back.reverse, decide (b ≠ 0x2f) = true := by
    intro b hb
    rw [decide_eq_true_eq]
    rintro rfl
    exact h (List.mem_reverse.mp hb)
  rw [List.reverse_append, List.reverse_cons, List.append_assoc, List.dropWhile_append_of_pos hpass]
  simp

/-- Merging, by the RFC and by the code, with a base that has a slash in front. -/
theorem merge_eq {base : Bytes} (hroot : base.head? = some 0x2f) (reference : Bytes) :
    UriReference.merge base reference = merge base reference ∧ (merge base reference).head? = some 0x2f := by
  obtain ⟨rest, hbase⟩ := List.head?_eq_some_iff.mp hroot
  cases hf : base.reverse.findIdx? (· == 0x2f) with
  | none =>
      have hno := List.findIdx?_eq_none_iff.mp hf 0x2f (by simp [hbase])
      cases hno
  | some n =>
      obtain ⟨front, x, back, hsplit, hlen, hx, hno⟩ := Split.exists_of_reverse_findIdx? hf
      obtain rfl : x = 0x2f := by simpa using hx
      have hback : (0x2f : UInt8) ∉ back := fun hmem => absurd (hno _ hmem) (by decide)
      have hend : (Url.rposition (· == 0x2f) base).elim 0 (· + 1) = front.length + 1 := by
        rw [Url.rposition, hf, hsplit]
        simp only [Option.map_some, Option.elim_some, List.length_append, List.length_cons]
        omega
      have htake : base.take (front.length + 1) = front ++ [0x2f] := by
        rw [hsplit, List.take_length_add_append]
        rfl
      have hne : base ≠ [] := by simp [hbase]
      have hhead : (front ++ [0x2f]).head? = some 0x2f := by
        rw [← htake, hbase]
        rfl
      unfold UriReference.merge merge
      rw [hend, if_neg hne]
      dsimp only
      rw [htake, if_neg (by simp), hsplit, dropWhile_slash hback]
      refine ⟨rfl, ?_⟩
      rw [List.head?_append, hhead]
      rfl

/-- The path a request asks for, by the RFC and by the code. -/
theorem requestPath_eq_iff {path : Bytes} (h : path = [] ∨ path.head? = some 0x2f) (site : Site) (query : Option Bytes) :
    (if path.isEmpty then ascii "/" else UriReference.removeDotSegments path) =
      Target.requestPath ⟨site, removeDotSegments path, query⟩ ↔ KeepsEmpty path := by
  rcases h with rfl | hroot
  · exact iff_of_true rfl trivial
  · obtain ⟨front, last, hpath, -, hsplit, hfront, hlast⟩ := UriReference.exists_segments hroot
    have hrfc : removeDotSegments path ≠ [] := by
      rw [hpath, removeDotSegments, UriReference.joined, DotSegments.remove_joined (by decide) hfront hlast]
      exact UriReference.joined_finish_ne_nil _ _
    have hne : ¬path.isEmpty = true := by
      obtain ⟨rest, rfl⟩ := List.head?_eq_some_iff.mp hroot
      simp
    rw [if_neg hne, Target.requestPath, if_neg hrfc, eq_comm, UriReference.remove_eq_iff hroot]

end Rfc3986

/-! ## Resolution -/

namespace RedirectState

open Rfc3986 UrlGrammar

variable {s s' : RedirectState} {origin : Origin} {location : Bytes} {hop : Hop}

/-- What following an absolute URL comes to. -/
theorem applyAbsoluteLocation_spec (h : s.applyAbsoluteLocation origin location = .ok (s', hop)) :
    ∃ url, Url.parse location = .ok url ∧ (origin.covers url = true ∧ hop = .sameOrigin ∨ hop = .reconnect location) ∧
      s'.path = (if url.path.isEmpty then ascii "/" else UriReference.removeDotSegments url.path) ∧
      s'.query = url.query := by
  unfold applyAbsoluteLocation at h
  cases hurl : Url.parse location with
  | error e =>
      rw [hurl] at h
      cases h
  | ok url =>
      rw [hurl] at h
      dsimp only at h
      by_cases hdown : origin.downgradesTo url.scheme = true
      · rw [if_pos hdown] at h
        cases h
      rw [if_neg hdown] at h
      by_cases hcovers : origin.covers url = true
      · rw [if_pos hcovers] at h
        cases h
        exact ⟨url, rfl, .inl ⟨hcovers, rfl⟩, rfl, rfl⟩
      · rw [if_neg hcovers] at h
        cases h
        exact ⟨url, rfl, .inr rfl, rfl, rfl⟩

/-- The origin it leads to is the one its authority names. -/
theorem leadsTo_named {url : Url} {scheme port : Bytes} (hurl : Url.parse location = .ok url) (hhost : IsHost url.host)
    (hscheme : Bytes.lower scheme = url.scheme.asBytes) (hport : PortText port url.port)
    (hhop : origin.covers url = true ∧ hop = .sameOrigin ∨ hop = .reconnect location) :
    ∃ o, hop.LeadsTo origin o ∧ (Site.named scheme (some (url.host ++ port))).IsOrigin origin o := by
  rcases hhop with ⟨hcovers, rfl⟩ | rfl
  · simp only [Origin.covers, Bool.and_eq_true, beq_iff_eq] at hcovers
    obtain ⟨⟨hh, hp⟩, hs⟩ := hcovers
    refine ⟨origin, rfl, hs ▸ hscheme, url.host, port, url.port, rfl, hhost, hport, Bytes.asciiEqIgnoreCase_iff.mp hh, ?_⟩
    rw [← hp, ← hs]
    rfl
  · exact ⟨.fromUrl url, ⟨url, hurl, rfl⟩, hscheme, url.host, port, url.port, rfl, hhost, hport, rfl, rfl⟩

/-- A `Location` that names a site. -/
theorem resolves_named_iff {scheme : Option Bytes} {authority path : Bytes} {query : Option Bytes}
    (hparts : components location = ⟨scheme, some authority, path, query⟩)
    (hsite : ∃ o, hop.LeadsTo origin o ∧ (Site.named (scheme.getD origin.scheme.asBytes) (some authority)).IsOrigin origin o)
    (hpath : s'.path = if path.isEmpty then ascii "/" else UriReference.removeDotSegments path) (hquery : s'.query = query)
    (hroot : path = [] ∨ path.head? = some 0x2f) :
    s.Resolves origin location s' hop ↔ ∀ p ∈ unresolved s.path (components location), KeepsEmpty p := by
  have hor : (⟨scheme, some authority, path, query⟩ : Reference).scheme ≠ none ∨
      (⟨scheme, some authority, path, query⟩ : Reference).authority ≠ none := .inr (Option.some_ne_none _)
  have hun : unresolved s.path ⟨scheme, some authority, path, query⟩ = some path := if_pos hor
  have htarget : transform origin.scheme.asBytes s.path s.query ⟨scheme, some authority, path, query⟩ =
      ⟨.named (scheme.getD origin.scheme.asBytes) (some authority), Rfc3986.removeDotSegments path, query⟩ := by
    unfold transform
    rw [hun, if_pos hor]
  unfold Resolves
  rw [hparts, htarget, hun, hpath, hquery]
  dsimp only
  rw [requestPath_eq_iff hroot]
  constructor
  · rintro ⟨-, h, -⟩ p hp
    cases hp
    exact h
  · intro h
    exact ⟨hsite, h path rfl, rfl⟩

/-- A `Location` that names none. -/
theorem resolves_base_iff {path : Bytes} {query : Option Bytes} (hparts : components location = ⟨none, none, path, query⟩)
    (hroot : s.path.head? = some 0x2f)
    (h : (if path.isEmpty then
        Except.ok ({ s with query := if query.isSome then query else s.query }, Hop.sameOrigin)
      else
        .ok ({ s with
          path := if path.head? = some 0x2f then UriReference.removeDotSegments path else UriReference.resolve s.path path
          query := query }, Hop.sameOrigin)) = (Except.ok (s', hop) : Except Error _)) :
    s.Resolves origin location s' hop ↔ ∀ p ∈ unresolved s.path (components location), KeepsEmpty p := by
  have hsite : ∃ o, Hop.sameOrigin.LeadsTo origin o ∧ Site.base.IsOrigin origin o := ⟨origin, rfl, rfl⟩
  -- the path is the one the RFC starts from, without its dot segments
  have hwalk : ∀ p, p.head? = some 0x2f → unresolved s.path ⟨none, none, path, query⟩ = some p →
      Except.ok ({ s with path := UriReference.removeDotSegments p, query := query }, Hop.sameOrigin) =
        (Except.ok (s', hop) : Except Error _) →
      (s.Resolves origin location s' hop ↔ ∀ p ∈ unresolved s.path (components location), KeepsEmpty p) := by
    intro p hp hun h
    cases h
    have htarget : transform origin.scheme.asBytes s.path s.query ⟨none, none, path, query⟩ =
        ⟨.base, Rfc3986.removeDotSegments p, query⟩ := by
      unfold transform
      rw [hun]
      rfl
    have hne : ¬p.isEmpty = true := by
      obtain ⟨rest, rfl⟩ := List.head?_eq_some_iff.mp hp
      simp
    have hpath := requestPath_eq_iff (.inr hp) .base query
    rw [if_neg hne] at hpath
    unfold Resolves
    rw [hparts, htarget, hun]
    dsimp only
    rw [hpath]
    constructor
    · rintro ⟨-, h, -⟩ p' hp'
      cases hp'
      exact h
    · intro h
      exact ⟨hsite, h p rfl, rfl⟩
  by_cases hempty : path = []
  · subst hempty
    cases h
    have hne : s.path ≠ [] := by
      obtain ⟨rest, hrest⟩ := List.head?_eq_some_iff.mp hroot
      simp [hrest]
    unfold Resolves
    rw [hparts]
    refine iff_of_true ⟨hsite, (if_neg hne).symm, ?_⟩ nofun
    cases query with
    | none => rfl
    | some query => rfl
  rw [if_neg (by rwa [List.isEmpty_iff])] at h
  by_cases hslash : path.head? = some 0x2f
  · rw [if_pos hslash] at h
    refine hwalk path hslash ?_ h
    unfold unresolved
    rw [if_neg (by simp), if_neg hempty, if_pos hslash]
  · obtain ⟨hmerge, hhead⟩ := merge_eq hroot path
    rw [if_neg hslash, UriReference.resolve, hmerge] at h
    refine hwalk _ hhead ?_ h
    unfold unresolved
    rw [if_neg (by simp), if_neg hempty, if_neg hslash]

/-- **Redirect targets are those of RFC 3986**, exactly when no empty segment matters in the path that dot segments are
    removed from. -/
theorem applyLocation_resolves_iff (hroot : s.path.head? = some 0x2f)
    (h : s.applyLocation origin location = .ok (s', hop)) :
    s.Resolves origin location s' hop ↔ ∀ p ∈ unresolved s.path (components location), KeepsEmpty p := by
  have hcut : (Url.cutAt (· == 0x23) location).1 = upTo (ascii "#") location := by
    rw [cutAt_eq, show ascii "#" = [0x23] by decide]
  have hno : (0x23 : UInt8) ∉ upTo (ascii "#") location := fun hmem => not_mem_upTo _ hmem (by decide)
  have hparts : components location =
      ⟨(readScheme (upTo (ascii "#") location)).1, (readAuthority (readScheme (upTo (ascii "#") location)).2).1,
        (readTail (readAuthority (readScheme (upTo (ascii "#") location)).2).2).1,
        (readTail (readAuthority (readScheme (upTo (ascii "#") location)).2).2).2⟩ := rfl
  unfold applyLocation at h
  rw [hcut] at h
  generalize upTo (ascii "#") location = w at h hno hparts
  dsimp only at h
  by_cases habsolute : hasAbsoluteScheme w = true
  · rw [if_pos habsolute] at h
    obtain ⟨url, hurl, hhop, hpath, hquery⟩ := applyAbsoluteLocation_spec h
    obtain ⟨hdec, hhost, -⟩ := parse_sound hurl
    obtain ⟨scheme, port, hscheme, hport, hw⟩ := decomposes_text hdec hno
    obtain ⟨hauth, htail⟩ := read_siteText hdec hhost hport
    rw [hw, readScheme_append hscheme, hauth, htail] at hparts
    exact resolves_named_iff hparts (leadsTo_named hurl hhost hscheme hport hhop) hpath hquery hdec.path
  rw [if_neg habsolute] at h
  by_cases hnamed : hasNamedScheme w = true
  · rw [if_pos hnamed] at h
    cases h
  rw [if_neg hnamed] at h
  rw [readScheme_of_not_named (Bool.not_eq_true _ ▸ hnamed)] at hparts
  by_cases hslashes : (ascii "//").isPrefixOf w = true
  · rw [if_pos hslashes] at h
    obtain ⟨url, hurl, hhop, hpath, hquery⟩ := applyAbsoluteLocation_spec h
    obtain ⟨hdec, hhost, -⟩ := parse_sound hurl
    have htext : origin.scheme.asBytes ++ ascii ":" ++ w = origin.scheme.asBytes ++ 0x3a :: w := by
      rw [show ascii ":" = [0x3a] by decide, List.append_assoc, List.singleton_append]
    rw [htext] at hdec hurl hhop
    have hno' : (0x23 : UInt8) ∉ origin.scheme.asBytes ++ 0x3a :: w := by
      rw [List.mem_append, List.mem_cons]
      rintro (hmem | hmem | hmem)
      · cases hs : origin.scheme with
        | http =>
            rw [hs] at hmem
            exact absurd hmem (by decide)
        | https =>
            rw [hs] at hmem
            exact absurd hmem (by decide)
      · cases hmem
      · exact hno hmem
    obtain ⟨scheme, port, hscheme, hport, hw⟩ := decomposes_text hdec hno'
    -- the scheme of the URL is the one put in front
    have hsame := readScheme_append (lower_asBytes origin.scheme) w
    rw [hw, readScheme_append hscheme] at hsame
    cases hsame
    obtain ⟨hauth, htail⟩ := read_siteText hdec hhost hport
    dsimp only at hparts
    rw [hauth, htail] at hparts
    exact resolves_named_iff hparts (leadsTo_named hurl hhost hscheme hport hhop) hpath hquery hdec.path
  rw [if_neg hslashes] at h
  have hauth : readAuthority w = (none, w) := if_neg fun hpre => hslashes (List.isPrefixOf_iff_prefix.mpr hpre)
  rw [cutAt_eq, ← show ascii "?" = [0x3f] by decide] at h
  dsimp only at hparts
  rw [hauth] at hparts
  exact resolves_base_iff hparts hroot h

/-- A request for a path of this origin. -/
def getOf (path : Bytes) : RedirectState := ⟨.get, path, none, none, [], false⟩

def exampleOrigin : Origin := ⟨.http, ascii "example.com", 80⟩

/-- With no empty segment in the way, the target is that of the RFC. -/
theorem applyLocation_resolves_dots : (getOf (ascii "/b/c/d;p")).Resolves exampleOrigin (ascii "../g?y")
    { getOf (ascii "/b/g") with query := some (ascii "y") } .sameOrigin := by
  refine (applyLocation_resolves_iff (by decide) (by decide +kernel)).mpr ?_
  have hun : unresolved (getOf (ascii "/b/c/d;p")).path (components (ascii "../g?y")) = some (ascii "/b/c/../g") := by
    decide +kernel
  have hsegments : segments (ascii "/b/c/../g") = [ascii "b", ascii "c", ascii "..", ascii "g"] := by decide +kernel
  rw [hun]
  intro p hp
  cases hp
  unfold KeepsEmpty
  rw [hsegments]
  simp [DotSegments.Agree, ascii]

/-- An empty segment is kept by the RFC and dropped by the code. -/
theorem applyLocation_drops_empty :
    (getOf (ascii "/")).applyLocation exampleOrigin (ascii "/a//b") = .ok (getOf (ascii "/a/b"), .sameOrigin) ∧
      ¬(getOf (ascii "/")).Resolves exampleOrigin (ascii "/a//b") (getOf (ascii "/a/b")) .sameOrigin := by
  refine ⟨by decide +kernel, ?_⟩
  rintro ⟨-, hpath, -⟩
  exact absurd hpath (by decide +kernel)

end RedirectState

/-! ## Chains of hops -/

namespace UriReference

open DotSegments (SlashFree)

/-- A segment the walk keeps. -/
def IsKept (s : Bytes) : Prop := s ≠ ascii ".." ∧ s ≠ ascii "." ∧ s ≠ []

/-- No segment of the path is a dot segment. -/
def NoDotSegments (path : Bytes) : Prop := ∀ s ∈ path.splitOnP (· == 0x2f), s ≠ ascii "." ∧ s ≠ ascii ".."

theorem isKept_iff {s : Bytes} : IsKept s ↔ s ≠ [0x2e, 0x2e] ∧ s ≠ [0x2e] ∧ (!s.isEmpty) = true := by
  unfold IsKept
  rw [ascii_dot, ascii_dots]
  simp

theorem walk_kept (front : List Bytes) : ∀ s ∈ walk front, IsKept s := by
  intro s hs
  have hnil : ∀ t ∈ ([] : List Bytes), t ≠ [0x2e, 0x2e] ∧ t ≠ [0x2e] ∧ (!t.isEmpty) = true := by simp
  exact isKept_iff.mpr (DotSegments.normal_foldl hnil s hs)

theorem walk_of_kept {segments : List Bytes} (h : ∀ s ∈ segments, IsKept s) : walk segments = segments :=
  DotSegments.foldl_normal fun s hs => isKept_iff.mp (h s hs)

/-- What the walk ends with: kept segments and a last one that is kept or empty. -/
theorem finish_walk (front : List Bytes) {last : Bytes} (hlast : (0x2f : UInt8) ∉ last) (hfront : SlashFree 0x2f front) :
    ∃ outs last', DotSegments.finish 0x2e (walk front) last = outs ++ [last'] ∧ (∀ s ∈ outs, IsKept s) ∧
      (last' = [] ∨ IsKept last') ∧ SlashFree 0x2f outs ∧ (0x2f : UInt8) ∉ last' := by
  have hkept := walk_kept front
  have hfree : SlashFree 0x2f (walk front) := SlashFree.nil.foldl hfront
  unfold DotSegments.finish
  by_cases hdots : last = [0x2e, 0x2e]
  · rw [if_pos hdots]
    exact ⟨_, [], rfl, fun s hs => hkept s (List.dropLast_subset _ hs), .inl rfl, hfree.dropLast, List.not_mem_nil⟩
  rw [if_neg hdots]
  by_cases hdot : last = [0x2e]
  · rw [if_pos hdot]
    exact ⟨_, [], rfl, hkept, .inl rfl, hfree, List.not_mem_nil⟩
  rw [if_neg hdot]
  refine ⟨_, last, rfl, hkept, ?_, hfree, hlast⟩
  by_cases hempty : last = []
  · exact .inl hempty
  · exact .inr (isKept_iff.mpr ⟨hdots, hdot, by simpa using hempty⟩)

/-- Walking over such segments changes nothing. -/
theorem finish_of_kept {outs : List Bytes} {last : Bytes} (h : ∀ s ∈ outs, IsKept s) (hl : last = [] ∨ IsKept last) :
    DotSegments.finish 0x2e (walk outs) last = outs ++ [last] := by
  unfold DotSegments.finish
  rw [walk_of_kept h]
  rcases hl with rfl | hl
  · rfl
  · obtain ⟨hdots, hdot, -⟩ := isKept_iff.mp hl
    rw [if_neg hdots, if_neg hdot]

theorem splitOnP_joined {segments : List Bytes} (hne : segments ≠ []) (h : SlashFree 0x2f segments) :
    (joined segments).splitOnP (· == 0x2f) = [] :: segments := by
  rw [joined, DotSegments.joined_eq_cons hne, List.splitOnP_cons_eq_if_modifyHead, if_pos (by rfl), Split.pieces_join hne h]

/-- **Removing dot segments**, on any byte string: the result starts with a slash where the path does, holds no dot
    segment, and is left alone by doing it again. -/
theorem removeDotSegments_spec (path : Bytes) :
    (path.head? = some 0x2f → (removeDotSegments path).head? = some 0x2f) ∧ NoDotSegments (removeDotSegments path) ∧
      removeDotSegments (removeDotSegments path) = removeDotSegments path := by
  rcases List.eq_nil_or_concat' (path.splitOnP (· == 0x2f)) with hnil | ⟨front, last, hsplit⟩
  · exact absurd hnil (List.splitOnP_ne_nil _ _)
  have hfree : ∀ s ∈ front ++ [last], (0x2f : UInt8) ∉ s := by
    rw [← hsplit]
    exact fun s hs => Split.not_mem_of_mem_pieces hs
  obtain ⟨outs, last', hfinish, houts, hlast', hofree, hlfree⟩ :=
    finish_walk front (hfree last (by simp)) fun s hs => hfree s (List.mem_append_left _ hs)
  have heq := removeDotSegments_eq hsplit
  rw [hfinish] at heq
  have hne : outs ++ [last'] ≠ [] := by simp
  have hplain : ∀ s ∈ outs ++ [last'], s ≠ ascii "." ∧ s ≠ ascii ".." := by
    intro s hs
    rcases List.mem_append.mp hs with hs | hs
    · exact ⟨(houts s hs).2.1, (houts s hs).1⟩
    · rw [List.mem_singleton.mp hs]
      rcases hlast' with rfl | hkept
      · exact ⟨by decide, by decide⟩
      · exact ⟨hkept.2.1, hkept.1⟩
  by_cases hroot : path.head? = some 0x2f
  · rw [if_pos hroot] at heq
    have hpieces : (joined (outs ++ [last'])).splitOnP (· == 0x2f) = ([] :: outs) ++ [last'] :=
      splitOnP_joined hne (hofree.concat hlfree)
    rw [heq]
    refine ⟨fun _ => ?_, ?_, ?_⟩
    · rw [joined, DotSegments.joined_eq_cons hne]
      rfl
    · intro s hs
      rw [hpieces] at hs
      rcases List.mem_cons.mp hs with rfl | hs
      · exact ⟨by decide, by decide⟩
      · exact hplain s hs
    · rw [removeDotSegments_rooted hpieces, finish_of_kept houts hlast']
  · rw [if_neg hroot] at heq
    have hdrop : (joined (outs ++ [last'])).drop 1 = ([0x2f] : Bytes).intercalate (outs ++ [last']) := by
      rw [joined, DotSegments.joined_eq_cons hne]
      rfl
    have hpieces : (([0x2f] : Bytes).intercalate (outs ++ [last'])).splitOnP (· == 0x2f) = outs ++ [last'] :=
      Split.pieces_join hne (hofree.concat hlfree)
    -- the first segment is not empty unless it is the only one
    have hrelative : (([0x2f] : Bytes).intercalate (outs ++ [last'])).head? ≠ some 0x2f := by
      intro hhead
      obtain ⟨front', last'', -, -, hsplit', -⟩ := exists_segments hhead
      rw [hpieces] at hsplit'
      cases outs with
      | nil => simp at hsplit'
      | cons o outs =>
          obtain ⟨rfl, -⟩ := List.cons.inj hsplit'
          exact (houts [] List.mem_cons_self).2.2 rfl
    rw [heq, hdrop]
    refine ⟨fun h => absurd h hroot, ?_, ?_⟩
    · intro s hs
      rw [hpieces] at hs
      exact hplain s hs
    · rw [removeDotSegments_eq hpieces, if_neg hrelative, finish_of_kept houts hlast', hdrop]

end UriReference

namespace RedirectState

open UriReference (NoDotSegments removeDotSegments_spec)

variable {s s' : RedirectState} {origin : Origin} {location : Bytes} {hop : Hop}

/-- A `Location` that gives the request a path: something stands in front of its query and fragment. -/
def SetsPath (location : Bytes) : Prop := Rfc3986.upTo (ascii "?") (Rfc3986.upTo (ascii "#") location) ≠ []

theorem upTo_ne_nil {stops w : Bytes} {b : UInt8} (h : w.head? = some b) (hb : b ∉ stops) : Rfc3986.upTo stops w ≠ [] := by
  obtain ⟨rest, rfl⟩ := List.head?_eq_some_iff.mp h
  simp [Rfc3986.upTo, hb]

/-- A URL starts with a letter. -/
theorem upTo_of_parse {w : Bytes} {url : Url} (h : Url.parse w = .ok url) : Rfc3986.upTo (ascii "?") w ≠ [] := by
  obtain ⟨hdec, -⟩ := UrlGrammar.parse_sound h
  obtain ⟨scheme, port, hscheme, -, hw⟩ := hdec.whole
  have hhead : (Bytes.lower scheme).head? = some 0x68 := by
    rw [hscheme]
    cases url.scheme with
    | http => decide
    | https => decide
  cases scheme with
  | nil => cases hhead
  | cons b scheme =>
      have hb : Bytes.lowerByte b = 0x68 := Option.some.inj hhead
      rw [hw]
      refine upTo_ne_nil rfl ?_
      rw [show ascii "?" = [0x3f] by decide, List.mem_singleton]
      rintro rfl
      exact absurd hb (by decide)

theorem applyAbsoluteLocation_path (h : s.applyAbsoluteLocation origin location = .ok (s', hop)) :
    s'.path.head? = some 0x2f ∧ NoDotSegments s'.path := by
  obtain ⟨url, hurl, -, hpath, -⟩ := applyAbsoluteLocation_spec h
  obtain ⟨hdec, -⟩ := UrlGrammar.parse_sound hurl
  rw [hpath]
  by_cases hempty : url.path.isEmpty = true
  · rw [if_pos hempty]
    exact ⟨by decide, by unfold NoDotSegments; decide⟩
  · rw [if_neg hempty]
    obtain ⟨hroot, hdots, -⟩ := removeDotSegments_spec url.path
    rcases hdec.path with hnil | hhead
    · rw [hnil] at hempty
      exact absurd rfl hempty
    · exact ⟨hroot hhead, hdots⟩

/-- **One hop.** The path keeps its slash in front; a `Location` that gives a path gives one without dot segments, and any
    other leaves the path as it is. -/
theorem applyLocation_path (hroot : s.path.head? = some 0x2f) (h : s.applyLocation origin location = .ok (s', hop)) :
    s'.path.head? = some 0x2f ∧ (SetsPath location → NoDotSegments s'.path) ∧ (¬SetsPath location → s'.path = s.path) := by
  have hcut : (Url.cutAt (· == 0x23) location).1 = Rfc3986.upTo (ascii "#") location := by
    rw [Rfc3986.cutAt_eq, show ascii "#" = [0x23] by decide]
  unfold SetsPath
  unfold applyLocation at h
  rw [hcut] at h
  generalize Rfc3986.upTo (ascii "#") location = w at h
  dsimp only at h
  by_cases habsolute : hasAbsoluteScheme w = true
  · rw [if_pos habsolute] at h
    obtain ⟨hhead, hdots⟩ := applyAbsoluteLocation_path h
    obtain ⟨url, hurl, -⟩ := applyAbsoluteLocation_spec h
    exact ⟨hhead, fun _ => hdots, fun hunset => absurd (upTo_of_parse hurl) hunset⟩
  rw [if_neg habsolute] at h
  by_cases hnamed : hasNamedScheme w = true
  · rw [if_pos hnamed] at h
    cases h
  rw [if_neg hnamed] at h
  by_cases hslashes : (ascii "//").isPrefixOf w = true
  · rw [if_pos hslashes] at h
    obtain ⟨hhead, hdots⟩ := applyAbsoluteLocation_path h
    obtain ⟨rest, rfl⟩ := List.isPrefixOf_iff_prefix.mp hslashes
    exact ⟨hhead, fun _ => hdots, fun hunset => absurd (upTo_ne_nil rfl (by decide)) hunset⟩
  rw [if_neg hslashes, Rfc3986.cutAt_eq, ← show ascii "?" = [0x3f] by decide] at h
  dsimp only at h
  generalize Rfc3986.upTo (ascii "?") w = path at h
  by_cases hempty : path = []
  · subst hempty
    cases h
    exact ⟨hroot, fun hset => absurd rfl hset, fun _ => rfl⟩
  rw [if_neg (by rwa [List.isEmpty_iff])] at h
  refine ⟨?_, ?_, fun hunset => absurd hempty hunset⟩
  · by_cases hslash : path.head? = some 0x2f
    · rw [if_pos hslash] at h
      cases h
      exact (removeDotSegments_spec path).1 hslash
    · obtain ⟨hmerge, hhead⟩ := Rfc3986.merge_eq hroot path
      rw [if_neg hslash, UriReference.resolve, hmerge] at h
      cases h
      exact (removeDotSegments_spec _).1 hhead
  · intro _
    by_cases hslash : path.head? = some 0x2f
    · rw [if_pos hslash] at h
      cases h
      exact (removeDotSegments_spec path).2.1
    · rw [if_neg hslash, UriReference.resolve] at h
      cases h
      exact (removeDotSegments_spec _).2.1

/-! What a chain of redirects does to the path is what its hops do, one after another. -/

/-- A followed redirect: the origin it was received from, the status and the `Location`. -/
structure Followed where
  origin : Origin
  status : StatusCode
  location : Bytes

/-- The state after a chain of redirects, each followed. -/
def follow (s : RedirectState) : List Followed → Except Error RedirectState
  | [] => .ok s
  | r :: rest =>
    match s.advance r.origin r.status r.location with
    | .error e => .error e
    | .ok (s', _) => s'.follow rest

theorem applyMethodRedirect_path (s : RedirectState) (status : StatusCode) : (s.applyMethodRedirect status).path = s.path := by
  have hstrip : ∀ c : Prop, [Decidable c] →
      (if c then stripRepresentationHeaders { s with method := .get, body := none } else s).path = s.path := by
    intro c _
    split
    · rfl
    · rfl
  exact hstrip _

theorem advance_path {status : StatusCode} (hroot : s.path.head? = some 0x2f)
    (h : s.advance origin status location = .ok (s', hop)) :
    s'.path.head? = some 0x2f ∧ (SetsPath location → NoDotSegments s'.path) ∧ (¬SetsPath location → s'.path = s.path) := by
  have hpath := applyMethodRedirect_path s status
  have h := applyLocation_path (hpath ▸ hroot) h
  rwa [hpath] at h

/-- A path without dot segments keeps none of them appearing, whatever is followed. -/
theorem follow_path {hops : List Followed} (hroot : s.path.head? = some 0x2f) (h : s.follow hops = .ok s') :
    s'.path.head? = some 0x2f ∧
      (NoDotSegments s.path ∨ (∃ r ∈ hops, SetsPath r.location) → NoDotSegments s'.path) ∧
      ((∀ r ∈ hops, ¬SetsPath r.location) → s'.path = s.path) := by
  induction hops generalizing s with
  | nil =>
      cases h
      exact ⟨hroot, fun hor => hor.elim id nofun, fun _ => rfl⟩
  | cons r hops ih =>
      unfold follow at h
      cases hadv : s.advance r.origin r.status r.location with
      | error e =>
          rw [hadv] at h
          cases h
      | ok next =>
          obtain ⟨s₁, hop⟩ := next
          rw [hadv] at h
          obtain ⟨hroot₁, hset, hunset⟩ := advance_path hroot hadv
          obtain ⟨hhead, hdots, hsame⟩ := ih hroot₁ h
          refine ⟨hhead, fun hor => hdots ?_, fun hnone => ?_⟩
          · by_cases hr : SetsPath r.location
            · exact .inl (hset hr)
            · rw [hunset hr]
              rcases hor with hs | ⟨r', hr', hset'⟩
              · exact .inl hs
              · rcases List.mem_cons.mp hr' with rfl | hr'
                · exact absurd hset' hr
                · exact .inr ⟨r', hr', hset'⟩
          · obtain ⟨hr, hrest⟩ := List.forall_mem_cons.mp hnone
            rw [hsame hrest, hunset hr]

end RedirectState

/-- **Redirect paths stay rooted and normal.** After a chain of followed redirects the path still starts with a slash; once
    a hop has set it no segment is a dot segment, and until then it is the path the chain started from. And removing dot
    segments twice is removing them once. -/
theorem RedirectState.follow_rooted_normal (path : Bytes) :
    UriReference.removeDotSegments (UriReference.removeDotSegments path) = UriReference.removeDotSegments path ∧
      ∀ {s s' : RedirectState} {hops : List Followed}, s.path.head? = some 0x2f → s.follow hops = .ok s' →
        s'.path.head? = some 0x2f ∧
          ((∃ r ∈ hops, SetsPath r.location) → UriReference.NoDotSegments s'.path) ∧
          ((∀ r ∈ hops, ¬SetsPath r.location) → s'.path = s.path) := by
  refine ⟨(UriReference.removeDotSegments_spec path).2.2, fun hroot h => ?_⟩
  obtain ⟨hhead, hdots, hsame⟩ := follow_path hroot h
  exact ⟨hhead, fun hset => hdots (.inr hset), hsame⟩

/-- Three hops from a path with dot segments: to a query only, up two segments, and past the root. -/
theorem RedirectState.follow_rooted_normal_chain :
    let hops : List Followed := [⟨exampleOrigin, .FOUND, ascii "?q"⟩, ⟨exampleOrigin, .FOUND, ascii "../../c"⟩,
      ⟨exampleOrigin, .FOUND, ascii "../../d/.//"⟩]
    (getOf (ascii "/a/./b")).follow hops = .ok (getOf (ascii "/d/")) ∧
      (getOf (ascii "/d/")).path.head? = some 0x2f ∧
      ((∃ r ∈ hops, SetsPath r.location) → UriReference.NoDotSegments (getOf (ascii "/d/")).path) ∧
      ((∀ r ∈ hops, ¬SetsPath r.location) → (getOf (ascii "/d/")).path = (getOf (ascii "/a/./b")).path) := by
  have hfollow : (getOf (ascii "/a/./b")).follow [⟨exampleOrigin, .FOUND, ascii "?q"⟩,
      ⟨exampleOrigin, .FOUND, ascii "../../c"⟩, ⟨exampleOrigin, .FOUND, ascii "../../d/.//"⟩] = .ok (getOf (ascii "/d/")) := by
    decide +kernel
  exact ⟨hfollow, (follow_rooted_normal []).2 (by decide) hfollow⟩

end Xibalba
