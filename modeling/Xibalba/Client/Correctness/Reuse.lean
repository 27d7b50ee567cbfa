import Xibalba.Client.HeadData
import Xibalba.Proto.Correctness.Text

/-!
# `Client.Correctness.Reuse` — when a connection may carry another request

The survey walks over the headers and keeps four flags. Here are the same four facts said of the headers as a whole,
and from them the verdict, which depends neither on their order nor on how the lists of tokens are spread over them.
-/

namespace Xibalba

open Bytes (lower Lists IsElement)

/-- Some header has this name, in any case. -/
def HasHeader (name : Bytes) (headers : List (Bytes × Bytes)) : Prop := ∃ h ∈ headers, lower h.1 = lower name

/-- Some `Connection` header lists the token. -/
def Announces (token : Bytes) (headers : List (Bytes × Bytes)) : Prop :=
  ∃ h ∈ headers, lower h.1 = lower (ascii "Connection") ∧ Lists token h.2

theorem hasHeader_append {name : Bytes} {headers headers' : List (Bytes × Bytes)} :
    HasHeader name (headers ++ headers') ↔ HasHeader name headers ∨ HasHeader name headers' := by
  simp only [HasHeader, List.mem_append, or_and_right, exists_or]

theorem announces_append {token : Bytes} {headers headers' : List (Bytes × Bytes)} :
    Announces token (headers ++ headers') ↔ Announces token headers ∨ Announces token headers' := by
  simp only [Announces, List.mem_append, or_and_right, exists_or]

theorem hasHeader_singleton {name : Bytes} {h : Bytes × Bytes} : HasHeader name [h] ↔ lower h.1 = lower name := by
  simp [HasHeader]

theorem announces_singleton {token : Bytes} {h : Bytes × Bytes} :
    Announces token [h] ↔ lower h.1 = lower (ascii "Connection") ∧ Lists token h.2 := by simp [Announces]

/-! ## The survey -/

namespace HeadSurvey

/-- What the walk over `headers` adds to the flags. -/
structure Reports (headers : List (Bytes × Bytes)) (survey survey' : HeadSurvey) : Prop where
  close : survey'.announcedClose = true ↔ survey.announcedClose = true ∨ Announces (ascii "close") headers
  keepAlive : survey'.announcedKeepAlive = true ↔
    survey.announcedKeepAlive = true ∨ Announces (ascii "keep-alive") headers
  transferEncoding : survey'.framing.transferEncoding = true ↔
    survey.framing.transferEncoding = true ∨ HasHeader (ascii "Transfer-Encoding") headers
  contentLength : survey'.framing.contentLength = true ↔
    survey.framing.contentLength = true ∨ HasHeader (ascii "Content-Length") headers

theorem Reports.refl (survey : HeadSurvey) : Reports [] survey survey where
  close := by simp [Announces]
  keepAlive := by simp [Announces]
  transferEncoding := by simp [HasHeader]
  contentLength := by simp [HasHeader]

/-- Surveying two parts of a head, one after the other. -/
theorem Reports.trans {headers headers' : List (Bytes × Bytes)} {s s' s'' : HeadSurvey} (h : Reports headers s s')
    (h' : Reports headers' s' s'') : Reports (headers ++ headers') s s'' where
  close := by rw [h'.close, h.close, announces_append, or_assoc]
  keepAlive := by rw [h'.keepAlive, h.keepAlive, announces_append, or_assoc]
  transferEncoding := by rw [h'.transferEncoding, h.transferEncoding, hasHeader_append, or_assoc]
  contentLength := by rw [h'.contentLength, h.contentLength, hasHeader_append, or_assoc]

/-- One header. The three names it is compared with are different names. -/
theorem step_reports (survey : HeadSurvey) (header : Bytes × Bytes) : Reports [header] survey (step survey header) := by
  obtain ⟨name, value⟩ := header
  have hclose : Bytes.containsTokenIgnoreCase value (ascii "close") = true ↔ Lists (ascii "close") value :=
    Bytes.containsTokenIgnoreCase_iff (by decide +kernel)
  have hkeep : Bytes.containsTokenIgnoreCase value (ascii "keep-alive") = true ↔ Lists (ascii "keep-alive") value :=
    Bytes.containsTokenIgnoreCase_iff (by decide +kernel)
  have hct : lower (ascii "Connection") ≠ lower (ascii "Transfer-Encoding") := by decide
  have hcl : lower (ascii "Connection") ≠ lower (ascii "Content-Length") := by decide
  have htl : lower (ascii "Transfer-Encoding") ≠ lower (ascii "Content-Length") := by decide
  simp only [step, Bytes.asciiEqIgnoreCase_iff]
  by_cases hconn : lower name = lower (ascii "Connection")
  · rw [if_pos hconn]
    constructor
    · simp [announces_singleton, hconn, hclose]
    · simp [announces_singleton, hconn, hkeep]
    · simp [hasHeader_singleton, hconn, hct]
    · simp [hasHeader_singleton, hconn, hcl]
  · rw [if_neg hconn]
    by_cases hte : lower name = lower (ascii "Transfer-Encoding")
    · rw [if_pos hte]
      constructor
      · simp [announces_singleton, hconn]
      · simp [announces_singleton, hconn]
      · simp [hasHeader_singleton, hte]
      · simp [hasHeader_singleton, hte, htl]
    · rw [if_neg hte]
      by_cases hlen : lower name = lower (ascii "Content-Length")
      · rw [if_pos hlen]
        constructor
        · simp [announces_singleton, hconn]
        · simp [announces_singleton, hconn]
        · simp [hasHeader_singleton, hte]
        · simp [hasHeader_singleton, hlen]
      · rw [if_neg hlen]
        constructor
        · simp [announces_singleton, hconn]
        · simp [announces_singleton, hconn]
        · simp [hasHeader_singleton, hte]
        · simp [hasHeader_singleton, hlen]

theorem foldl_reports (survey : HeadSurvey) (headers : List (Bytes × Bytes)) :
    Reports headers survey (headers.foldl step survey) := by
  induction headers generalizing survey with
  | nil => exact .refl survey
  | cons header headers ih => exact (step_reports survey header).trans (ih (step survey header))

/-- The survey of a head reports its headers. -/
theorem of_reports (headers : List (Bytes × Bytes)) : Reports headers default (of headers) :=
  foldl_reports default headers

end HeadSurvey

/-! ## The verdict -/

namespace ConnectionReuse

/-- **The verdict in terms of the headers**: when exactly a connection is kept. -/
theorem evaluate_eq_keep {version : Version} {status : StatusCode} {requestCloses : Bool}
    {headers : List (Bytes × Bytes)} : evaluate version status requestCloses headers = keep ↔
      requestCloses = false ∧ status.code ≠ 101 ∧ ¬Announces (ascii "close") headers ∧
        ¬(HasHeader (ascii "Transfer-Encoding") headers ∧ HasHeader (ascii "Content-Length") headers) ∧
        (version = .http11 ∨
          version = .http10 ∧ Announces (ascii "keep-alive") headers ∧
            ¬HasHeader (ascii "Transfer-Encoding") headers) := by
  have hsurvey := HeadSurvey.of_reports headers
  have hclose : (HeadSurvey.of headers).announcedClose = true ↔ Announces (ascii "close") headers := by
    simpa [HeadSurvey.default] using hsurvey.close
  have hkeep : (HeadSurvey.of headers).announcedKeepAlive = true ↔ Announces (ascii "keep-alive") headers := by
    simpa [HeadSurvey.default] using hsurvey.keepAlive
  have hte : (HeadSurvey.of headers).framing.transferEncoding = true ↔ HasHeader (ascii "Transfer-Encoding") headers := by
    simpa [HeadSurvey.default] using hsurvey.transferEncoding
  have hcl : (HeadSurvey.of headers).framing.contentLength = true ↔ HasHeader (ascii "Content-Length") headers := by
    simpa [HeadSurvey.default] using hsurvey.contentLength
  have hstatus : status = .SWITCHING_PROTOCOLS ↔ status.code = 101 := by
    constructor
    · rintro rfl
      rfl
    · intro h
      obtain ⟨code, hvalid⟩ := status
      subst h
      rfl
  rw [← hclose, ← hkeep, ← hte, ← hcl, ne_eq, ← hstatus]
  unfold evaluate FramingHeaders.isAmbiguous
  by_cases hreq : requestCloses = true
  · rw [if_pos hreq, hreq]
    simp
  rw [if_neg hreq]
  by_cases hswitch : status = .SWITCHING_PROTOCOLS
  · rw [if_pos hswitch]
    simp [hswitch]
  rw [if_neg hswitch]
  generalize HeadSurvey.of headers = survey
  obtain ⟨close, keepAlive, te, cl⟩ := survey
  cases version with
  | http11 => cases close <;> cases te <;> cases cl <;> simp [hreq, hswitch]
  | http10 => cases close <;> cases keepAlive <;> cases te <;> cases cl <;> simp [hreq, hswitch]

/-- The headers say the same of the connection. -/
structure Agree (headers headers' : List (Bytes × Bytes)) : Prop where
  announces : ∀ token, IsElement token → (Announces token headers ↔ Announces token headers')
  has : ∀ name, lower name ≠ lower (ascii "Connection") → (HasHeader name headers ↔ HasHeader name headers')

theorem Agree.evaluate {headers headers' : List (Bytes × Bytes)} (h : Agree headers headers') (version : Version)
    (status : StatusCode) (requestCloses : Bool) :
    evaluate version status requestCloses headers = evaluate version status requestCloses headers' := by
  have hiff : ConnectionReuse.evaluate version status requestCloses headers = keep ↔
      ConnectionReuse.evaluate version status requestCloses headers' = keep := by
    have hclose := h.announces (ascii "close") (by decide +kernel)
    have hkeep := h.announces (ascii "keep-alive") (by decide +kernel)
    rw [evaluate_eq_keep, evaluate_eq_keep, hclose, hkeep, h.has _ (by decide), h.has _ (by decide)]
  generalize ConnectionReuse.evaluate version status requestCloses headers = verdict at hiff ⊢
  generalize ConnectionReuse.evaluate version status requestCloses headers' = verdict' at hiff ⊢
  cases verdict <;> cases verdict' <;> simp_all

/-- The order of the headers does not matter. -/
theorem agree_of_perm {headers headers' : List (Bytes × Bytes)} (h : headers.Perm headers') : Agree headers headers' where
  announces token _ := by simp only [Announces, h.mem_iff]
  has name _ := by simp only [HasHeader, h.mem_iff]

/-- One `Connection` header with two lists in it, or two headers. -/
theorem agree_split {name name₁ name₂ : Bytes} (hname : lower name = lower (ascii "Connection"))
    (hname₁ : lower name₁ = lower (ascii "Connection")) (hname₂ : lower name₂ = lower (ascii "Connection"))
    (front back : List (Bytes × Bytes)) (value₁ value₂ : Bytes) :
    Agree (front ++ (name, value₁ ++ 0x2c :: value₂) :: back)
      (front ++ (name₁, value₁) :: (name₂, value₂) :: back) where
  announces token htoken := by
    have hlists : Lists token (value₁ ++ 0x2c :: value₂) ↔ Lists token value₁ ∨ Lists token value₂ := by
      rw [← Bytes.containsTokenIgnoreCase_iff htoken, Bytes.containsTokenIgnoreCase_comma, Bool.or_eq_true,
        Bytes.containsTokenIgnoreCase_iff htoken, Bytes.containsTokenIgnoreCase_iff htoken]
    rw [announces_append, announces_append, ← List.singleton_append, announces_append, announces_singleton,
      ← List.singleton_append (l := _ :: back), announces_append, announces_singleton,
      ← List.singleton_append (l := back), announces_append, announces_singleton, hlists]
    simp only [hname, hname₁, hname₂, true_and, or_assoc]
  has other hother := by
    have hne : ∀ {name : Bytes} {value : Bytes} {headers : List (Bytes × Bytes)},
        lower name = lower (ascii "Connection") → (HasHeader other ((name, value) :: headers) ↔ HasHeader other headers) := by
      intro name value headers hname
      rw [← List.singleton_append, hasHeader_append, hasHeader_singleton, hname]
      exact or_iff_right fun h => hother h.symm
    rw [hasHeader_append, hasHeader_append, hne hname, hne hname₁, hne hname₂]

/-- **The verdict**, said of the headers as a whole; it does not change when they are reordered, nor when the lists of
    `Connection` are spread over its headers in another way. -/
theorem keep_iff :
    (∀ version status requestCloses headers, evaluate version status requestCloses headers = keep ↔
      requestCloses = false ∧ status.code ≠ 101 ∧ ¬Announces (ascii "close") headers ∧
        ¬(HasHeader (ascii "Transfer-Encoding") headers ∧ HasHeader (ascii "Content-Length") headers) ∧
        (version = .http11 ∨
          version = .http10 ∧ Announces (ascii "keep-alive") headers ∧
            ¬HasHeader (ascii "Transfer-Encoding") headers)) ∧
    (∀ version status requestCloses headers headers', headers.Perm headers' →
      evaluate version status requestCloses headers = evaluate version status requestCloses headers') ∧
    ∀ version status requestCloses front back value₁ value₂ (name name₁ name₂ : Bytes),
      (∀ n ∈ [name, name₁, name₂], lower n = lower (ascii "Connection")) →
        evaluate version status requestCloses (front ++ (name, value₁ ++ 0x2c :: value₂) :: back) =
          evaluate version status requestCloses (front ++ (name₁, value₁) :: (name₂, value₂) :: back) := by
  refine ⟨fun _ _ _ _ => evaluate_eq_keep, fun version status requestCloses _ _ h => ?_, ?_⟩
  · exact (agree_of_perm h).evaluate version status requestCloses
  · intro version status requestCloses front back value₁ value₂ name name₁ name₂ hnames
    have hsplit := agree_split (hnames name (by simp)) (hnames name₁ (by simp)) (hnames name₂ (by simp)) front back
    exact (hsplit value₁ value₂).evaluate version status requestCloses

end ConnectionReuse

end Xibalba
