/-
**Where a recipient ends a request.**

The lines of a written head are field lines whose names are tokens, so every conforming recipient reads
the same fields and takes the same length from them.
-/

import FoundationLang.Httpx.Encoding
import FoundationLang.Web.Framing

namespace FoundationLang.Httpx

open Library Fields Standard List

variable {request : Request} {bodyLength : ℕ} {header : Header}

theorem token_of_valid {name : Str} (valid : validHeaderName name = true) : Token name := by
  have values : ∀ v < 256, tokenByte v = true →
      (33 ≤ v ∧ v ≤ 126) ∧ UInt8.ofNat v ∉ delimiters := by
    decide +kernel
  unfold validHeaderName validMethod at valid
  split at valid
  · cases valid
  · rename_i nonempty
    have good := fun b mem =>
      values b.toNat b.toNat_lt (all_eq_true.mp valid b mem)
    exact ⟨by simpa using nonempty, fun b mem => (good b mem).1,
      fun b mem => by simpa using (good b mem).2⟩

theorem writtenHeaders_token (ran : Accepted request) (target : NetworkTarget)
    (proxyAuthorization : Option Str)
    (mem : header ∈ writtenHeaders request target proxyAuthorization bodyLength) :
    Token header.name := by
  unfold writtenHeaders derivedHeaders unlessGiven at mem
  simp only [mem_append, mem_flatMap, mem_ite_nil_left, mem_singleton] at mem
  rcases mem with (((⟨-, rfl⟩ | ⟨-, rfl⟩) | ⟨_, -, -, rfl⟩) | ⟨-, rfl⟩) | given
  · exact isToken_iff.mp rfl
  · exact isToken_iff.mp rfl
  · exact isToken_iff.mp rfl
  · exact isToken_iff.mp rfl
  · exact token_of_valid (ran.names header given)

/-- **The headers of a head have one length.** -/
theorem writtenHeaders_frame (valid : validateRequest request = .ok ())
    (measured : request.body.len = .ok bodyLength) (target : NetworkTarget)
    (proxyAuthorization : Option Str) (length : ℕ) :
    Frames ((writtenHeaders request target proxyAuthorization bodyLength).map Header.line) length ↔
      length = bodyLength := by
  have ran := validateRequest_accepted valid
  obtain ⟨sole, only, parsed⟩ := one_length target proxyAuthorization bodyLength ran measured
    (bodyLength_small measured)
  have encodings := no_encoding target proxyAuthorization bodyLength ran
  have ts := fun header => @writtenHeaders_token _ bodyLength header ran target
    proxyAuthorization
  revert only encodings ts
  generalize writtenHeaders request target proxyAuthorization bodyLength = written
  intro only encodings ts
  have number := Web.parseU64_number parsed
  have received : ∀ fs, Received (written.map Header.line) fs ↔
      fs = written.map fun header => (header.name, trim (32 :: header.value)) := by
    intro fs
    have lines : written.map Header.line =
        (written.map fun header => (header.name, 32 :: header.value)).map line := by
      rw [map_map]
      exact map_congr_left fun header _ => by simp [Header.line, line, ascii]
    rw [lines, received_lines (by simpa using ts), map_map]
    rfl
  have lengths : ∀ header ∈ written, Named contentLength (header.name, trim (32 :: header.value)) ↔
      header = sole := by
    intro header mem
    rw [← mem_singleton, ← only, mem_filter, and_iff_right mem]
    exact (@Web.named_contentLength ⟨header.name, header.value⟩ _).symm
  have uncoded : ∀ header ∈ written,
      ¬Named transferEncoding (header.name, trim (32 :: header.value)) := fun header mem coding =>
    filter_eq_nil_iff.mp encodings header mem
      ((@Web.named_transferEncoding ⟨header.name, header.value⟩ _).mpr coding)
  have mem : sole ∈ written := (mem_filter.mp (only ▸ mem_singleton_self sole)).1
  simp only [Frames, received, exists_eq_left]
  exact bodyLength_iff (by simpa using uncoded) (mem_map_of_mem mem) ((lengths sole mem).mpr rfl)
    (forall_mem_map.mpr fun header inside named => by
      obtain rfl := (lengths header inside).mp named
      refine ⟨header.value, ?_, number⟩
      rw [← singleton_append, trim_blanks number (by simp [blank]), members_number number])

/-- **Every conforming recipient takes the body that was meant** from the lines of the head, those
between the request line and the empty line. -/
theorem request_frames {proxy : Option Proxy} {settings : ProxySettings}
    (opened : openProxy proxy = .ok settings)
    (valid : validateRequest request = .ok ()) {target : NetworkTarget}
    (known : networkTargetFor request.url = .ok target) {requestTarget : Str}
    {proxyAuthorization : Option Str}
    (routed : route settings target request.url = .ok (requestTarget, proxyAuthorization))
    (measured : request.body.len = .ok bodyLength) :
    ∃ head lines, encodeRequestHead request requestTarget proxyAuthorization bodyLength = .ok head ∧
      splitLines head = (requestLine request requestTarget :: (lines ++ [[]]), []) ∧
      (∀ line ∈ lines, line ≠ []) ∧ ∀ length, Frames lines length ↔ length = bodyLength := by
  obtain ⟨head, encoded, split, -, -, plain⟩ := head_lines opened valid known routed bodyLength
  refine ⟨head, _, encoded, split, forall_mem_map.mpr fun header mem => (plain header mem).2.2, ?_⟩
  exact writtenHeaders_frame valid measured target proxyAuthorization

/-- The length that was given is read, through a proxy with a secret. -/
theorem request_frames_sample : ∃ head lines,
    encodeRequestHead sampleUpload (ascii "http://host/a") (some (ascii "secret")) 2 = .ok head ∧
      (splitLines head).1 = ascii "POST http://host/a HTTP/1.1" :: (lines ++ [[]]) ∧
      lines.length = 5 ∧ Frames lines 2 ∧ ¬Frames lines 9 := by
  have opened : openProxy (some ⟨ascii "http://proxy:1/", some (ascii "secret")⟩) =
      .ok ⟨true, ascii "proxy", 1, ascii "secret", true⟩ := by decide +kernel
  have known : networkTargetFor sampleUpload.url =
      .ok ⟨ascii "host", ascii "host", ascii "/a", 80, false⟩ := by decide +kernel
  have routed : route ⟨true, ascii "proxy", 1, ascii "secret", true⟩
      ⟨ascii "host", ascii "host", ascii "/a", 80, false⟩ sampleUpload.url =
      .ok (ascii "http://host/a", some (ascii "secret")) := by decide +kernel
  have count : (encodeRequestHead sampleUpload (ascii "http://host/a") (some (ascii "secret"))
      2).map (fun head => (splitLines head).1.length) = .ok 7 := by decide +kernel
  have measured : sampleUpload.body.len = .ok 2 := rfl
  obtain ⟨head, lines, encoded, split, -, frames⟩ :=
    request_frames opened (by decide +kernel) known routed measured
  rw [encoded, Except.map, split, Except.ok.injEq, length_cons, length_append, length_singleton]
    at count
  exact ⟨head, lines, encoded, by rw [split]; rfl, by omega, (frames 2).mpr rfl,
    fun wrong => absurd ((frames 9).mp wrong) (by decide)⟩

end FoundationLang.Httpx
