/-
**Redirects are safe.**
-/

import FoundationLang.Httpx.Request
import FoundationLang.Httpx.Resolve

namespace FoundationLang.Httpx

open Library Outcome Standard

/-- **A header with credentials**, in any case of its letters. -/
def Sensitive (name : Str) : Prop :=
  ∃ known ∈ [ascii "authorization", ascii "proxy-authorization", ascii "cookie"],
    name.map (lowerASCII ·.toNat) = known.map (·.toNat)

theorem sensitiveHeader_iff {name : Str} : sensitiveHeader name = true ↔ Sensitive name := by
  have first : (ascii "Authorization").map (lowerASCII ·.toNat) =
      (ascii "authorization").map (·.toNat) := by decide
  have second : (ascii "Proxy-Authorization").map (lowerASCII ·.toNat) =
      (ascii "proxy-authorization").map (·.toNat) := by decide
  have third : (ascii "Cookie").map (lowerASCII ·.toNat) =
      (ascii "cookie").map (·.toNat) := by decide
  unfold sensitiveHeader Sensitive
  rw [Bool.or_eq_true, Bool.or_eq_true, equalFoldASCII_iff, equalFoldASCII_iff, equalFoldASCII_iff,
    first, second, third]
  simp [or_assoc]

theorem removeHeader_subset {ε : Type} {hs t : LinkedList Header} {name : Str}
    (removed : (removeHeader hs name : Outcome ε _) = .ok t) :
    ∀ header ∈ t.items, header ∈ hs.items := by
  obtain ⟨_, ran, xs⟩ := visitHeaders_ok (ε := ε)
    (fun _ (header : Header) => ((), !equalFoldASCII header.name name)) hs ()
  unfold removeHeader at removed
  rw [ran] at removed
  cases removed
  rw [xs, kept_filter (fun header : Header => !equalFoldASCII header.name name) fun _ _ => rfl]
  exact fun header mem => (List.mem_filter.mp mem).1

theorem stripSensitiveHeaders_spec {ε : Type} {hs t : LinkedList Header}
    (stripped : (stripSensitiveHeaders hs : Outcome ε _) = .ok t) :
    ∀ header ∈ t.items, ¬Sensitive header.name := by
  obtain ⟨_, ran, xs⟩ := visitHeaders_ok (ε := ε)
    (fun _ (header : Header) => ((), !sensitiveHeader header.name)) hs ()
  unfold stripSensitiveHeaders at stripped
  rw [ran] at stripped
  cases stripped
  rw [xs, kept_filter (fun header : Header => !sensitiveHeader header.name) fun _ _ => rfl]
  intro header mem sensitive
  have stays := (List.mem_filter.mp mem).2
  rw [sensitiveHeader_iff.mpr sensitive] at stays
  cases stays

theorem continued_spec {ε : Type} {st : ℤ} {r next : Request}
    (same : (continued st r : Outcome ε _) = .ok next) :
    next.url = r.url ∧ ∀ header ∈ next.headers.items, header ∈ r.headers.items := by
  unfold continued at same
  split at same
  · obtain ⟨_, removed, same⟩ := Outcome.bind_eq_ok.mp same
    obtain ⟨_, removed', same⟩ := Outcome.bind_eq_ok.mp same
    cases same
    exact ⟨rfl, fun header mem =>
      removeHeader_subset removed header (removeHeader_subset removed' header mem)⟩
  · cases same
    exact ⟨rfl, fun _ mem => mem⟩

theorem redirectedRequest_some {r next : Request} {response : Response}
    (redirected : redirectedRequest r response = .ok (some next)) :
    ∃ location, (headerValueFor response.headers (ascii "Location") : Outcome ClientError _) =
        .ok (some location) ∧
      resolveRedirectURL r.url location = .ok next.url ∧
      ∀ header ∈ next.headers.items, Sensitive header.name →
        sameOrigin r.url next.url = true := by
  unfold redirectedRequest at redirected
  split at redirected
  · cases redirected
  · obtain ⟨found, looked, redirected⟩ := Outcome.bind_eq_ok.mp redirected
    cases found with
    | none => cases redirected
    | some location =>
      obtain ⟨target, resolved, redirected⟩ := Outcome.bind_eq_ok.mp redirected
      obtain ⟨_, retained, redirected⟩ := Outcome.bind_eq_ok.mp redirected
      obtain ⟨_, went, redirected⟩ := Outcome.bind_eq_ok.mp redirected
      cases redirected
      obtain ⟨url, subset⟩ := continued_spec went
      rw [url]
      refine ⟨location, looked, mapErr_eq_ok.mp resolved, ?_⟩
      intro header mem sensitive
      rcases same : sameOrigin r.url target with _ | _
      · unfold retainedHeaders at retained
        rw [same] at retained
        exact absurd sensitive (stripSensitiveHeaders_spec retained header (subset header mem))
      · rfl

/-- **Redirects are safe.** The URL of the next request is valid; credentials go to the same origin
only; and only an absolute URL or a location that begins with `//` leads to another origin. -/
theorem redirect_safe {request next : Request} {response : Response}
    (redirected : redirectedRequest request response = .ok (some next)) :
    validAbsoluteURL next.url = true ∧
    (∀ header ∈ next.headers.items, Sensitive header.name →
      sameOrigin request.url next.url = true) ∧
    ∀ location,
      (headerValueFor response.headers (ascii "Location") : Outcome ClientError _) =
        .ok (some location) →
      validAbsoluteURL location = false → Str.startsWith location (ascii "//") = false →
      sameOrigin request.url next.url = true := by
  obtain ⟨_, looked, resolved, sensitive⟩ := redirectedRequest_some redirected
  refine ⟨resolveRedirectURL_valid resolved, sensitive, ?_⟩
  intro location' looked' relative inner
  rw [looked] at looked'
  cases looked'
  exact resolveRedirectURL_origin relative inner resolved

/-- A request with a cookie. -/
def sampleRequest : Request where
  method := ascii "POST"
  url := ascii "http://User@Host:8080/a/b?c"
  headers := ⟨[⟨ascii "cOOkie", ascii "d"⟩], by decide⟩
  body := fromText Text.empty
  maximumResponseSize := 1
  followRedirects := true
  maximumRedirects := 1
  timeout := ⟨1⟩
  originalURL := []
  requestID := []

/-- A redirect to a location. -/
def sampleResponse (location : Str) : Response where
  status := 302
  headers := ⟨[⟨ascii "location", location⟩], by simp⟩
  body := fromText Text.empty

theorem redirect_safe_sample :
    ∃ next, redirectedRequest sampleRequest (sampleResponse (ascii "../e#f")) = .ok (some next) ∧
      next.url = ascii "http://User@Host:8080/e#f" ∧
      next.headers.items = [⟨ascii "cOOkie", ascii "d"⟩] ∧ validAbsoluteURL next.url = true ∧
      sameOrigin sampleRequest.url next.url = true := by
  have shown : (redirectedRequest sampleRequest (sampleResponse (ascii "../e#f"))).map
      (Option.map fun next => (next.url, next.headers.items)) =
      .ok (some (ascii "http://User@Host:8080/e#f", [⟨ascii "cOOkie", ascii "d"⟩])) := by
    decide +kernel
  rcases redirected : redirectedRequest sampleRequest (sampleResponse (ascii "../e#f")) with
    stop | _ | next
  · rw [redirected] at shown
    cases shown
  · rw [redirected] at shown
    cases shown
  · rw [redirected] at shown
    obtain ⟨url, headers⟩ := Prod.mk.inj (Option.some.inj (Except.ok.inj shown))
    obtain ⟨valid, _, stays⟩ := redirect_safe redirected
    exact ⟨next, rfl, url, headers, valid,
      stays (ascii "../e#f") rfl (by decide +kernel) (by decide)⟩

end FoundationLang.Httpx
