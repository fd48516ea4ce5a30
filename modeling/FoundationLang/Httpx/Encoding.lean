/-
**A request is written as it was meant.**
-/

import FoundationLang.Httpx.Request
import FoundationLang.Httpx.UrlShape

namespace FoundationLang.Httpx

open Library Outcome Standard List

variable {target : NetworkTarget} {request : Request} {text : Str}

/-! ### What is found in a list of headers -/

/-- A header has a name, in any case of its letters. -/
def Header.named (name : Str) (header : Header) : Bool :=
  equalFoldASCII header.name name

section Loops

variable {ε : Type}

theorem remembered_value (name : Str) (src : List Header) (result : Option Str) (found : Bool) :
    (remembered (fun (result, found) (header : Header) =>
      if !found && equalFoldASCII header.name name then ((some header.value, true), true)
      else ((result, found), true)) src ((result, found) : Option Str × Bool)).1 =
      if found then result else ((src.find? (Header.named name)).map Header.value).or result := by
  induction src generalizing result found with
  | nil => cases found <;> rfl
  | cons header src ih =>
    rw [remembered, List.find?_cons, Header.named]
    cases found with
    | true => exact ih result true
    | false =>
      cases named : equalFoldASCII header.name name with
      | true => exact ih (some header.value) true
      | false => exact ih result false

theorem headerValueFor_eq (hs : LinkedList Header) (name : Str) :
    (headerValueFor hs name : Outcome ε _) =
      .ok ((hs.items.find? (Header.named name)).map Header.value) := by
  have value := remembered_value name hs.items none false
  unfold headerValueFor
  rw [visitHeaders_keeps (by rintro ⟨_, _⟩ header; dsimp only; split <;> rfl)]
  change Except.ok _ = _
  congr 1
  rw [value, if_neg Bool.false_ne_true, Option.or_none]

theorem remembered_count (name : Str) (src : List Header) (n : ℕ) :
    remembered (fun n (header : Header) =>
      (if equalFoldASCII header.name name then n + 1 else n, true)) src n =
      n + src.countP (Header.named name) := by
  induction src generalizing n with
  | nil => rfl
  | cons header src ih =>
    rw [remembered, ih, countP_cons, Header.named]
    split <;> omega

theorem headerCount_eq (hs : LinkedList Header) (name : Str) :
    (headerCount hs name : Outcome ε _) = .ok (hs.items.countP (Header.named name)) := by
  unfold headerCount
  rw [visitHeaders_keeps fun _ _ => rfl, remembered_count, Nat.zero_add]
  rfl

theorem remembered_valid (src : List Header) (valid : Bool) :
    remembered (fun valid (header : Header) =>
      (if !validHeaderName header.name || !validHeaderValue header.value then false else valid, true))
      src valid =
      (valid && src.all fun header =>
        validHeaderName header.name && validHeaderValue header.value) := by
  induction src generalizing valid with
  | nil => exact (Bool.and_true _).symm
  | cons header src ih =>
    rw [remembered, ih, all_cons]
    cases validHeaderName header.name <;> cases validHeaderValue header.value <;> simp

theorem validHeaders_eq (hs : LinkedList Header) :
    (validHeaders hs : Outcome ε _) = .ok (hs.items.all fun header =>
      validHeaderName header.name && validHeaderValue header.value) := by
  unfold validHeaders
  rw [visitHeaders_keeps fun _ _ => rfl, remembered_valid, Bool.true_and]
  rfl

end Loops

/-! ### Accepted requests -/

/-- **What was checked of a request.** -/
structure Accepted (request : Request) : Prop where
  method : validMethod request.method = true
  url : validAbsoluteURL request.url = true
  names : ∀ header ∈ request.headers.items, validHeaderName header.name = true
  values : ∀ header ∈ request.headers.items, validHeaderValue header.value = true
  lengths : request.headers.items.countP (Header.named (ascii "Content-Length")) ≤ 1
  encodings : request.headers.items.countP (Header.named (ascii "Transfer-Encoding")) = 0
  length : ∀ header, request.headers.items.find? (Header.named (ascii "Content-Length")) = some header →
    ∀ bodyLength, request.body.len = .ok bodyLength → parseU64 header.value = .ok bodyLength

theorem checkLength_some {v : Str} {bodyLength : ℕ}
    (checked : checkLength (some v) bodyLength = .ok ()) : parseU64 v = .ok bodyLength := by
  unfold checkLength at checked
  dsimp only at checked
  split at checked
  · cases checked
  · rename_i parsed same
    split at checked
    · cases checked
    · rename_i ne
      rw [same]
      simpa using ne

theorem validateRequest_accepted (valid : validateRequest request = .ok ()) : Accepted request := by
  unfold validateRequest at valid
  split at valid
  · cases valid
  rename_i method
  split at valid
  · cases valid
  rename_i url
  split at valid
  · cases valid
  split at valid
  · cases valid
  split at valid
  · cases valid
  unfold checkHeaders at valid
  simp only [validHeaders_eq, headerCount_eq, headerValueFor_eq, ok_bind] at valid
  split at valid
  · cases valid
  rename_i hs
  split at valid
  · cases valid
  rename_i counts
  obtain ⟨_, measured, checked⟩ := Outcome.bind_eq_ok.mp valid
  rw [mapErr_eq_ok] at measured
  simp only [Bool.not_eq_true', Bool.not_eq_false, all_eq_true, Bool.and_eq_true] at hs
  simp only [gt_iff_lt, Bool.or_eq_true, decide_eq_true_eq, bne_iff_ne, ne_eq, not_or,
    Nat.not_lt, Decidable.not_not] at counts
  refine ⟨by simpa using method, by simpa using url, fun header mem => (hs header mem).1,
    fun header mem => (hs header mem).2, counts.1.2, counts.2, ?_⟩
  intro header found bodyLength' measured'
  rw [measured] at measured'
  cases measured'
  rw [found] at checked
  exact checkLength_some checked

/-! ### The head of a request -/

/-- A header as one line. -/
def Header.line (header : Header) : Str :=
  header.name ++ ascii ": " ++ header.value

/-- The first line. -/
def requestLine (request : Request) (requestTarget : Str) : Str :=
  request.method ++ ascii " " ++ requestTarget ++ ascii " HTTP/1.1"

/-- A header of the client, where the request has none of that name. -/
def unlessGiven (request : Request) (header : Header) : List Header :=
  if (request.headers.items.find? (Header.named header.name)).isSome then [] else [header]

/-- **The headers that are derived**: the host, the connection, the authorization for a proxy, and the
length of the body. -/
def derivedHeaders (request : Request) (target : NetworkTarget) (proxyAuthorization : Option Str)
    (bodyLength : ℕ) : List Header :=
  unlessGiven request ⟨ascii "Host", target.authority⟩ ++
    unlessGiven request ⟨ascii "Connection", ascii "keep-alive"⟩ ++
    (proxyAuthorization.toList.flatMap fun value =>
      unlessGiven request ⟨ascii "Proxy-Authorization", value⟩) ++
    unlessGiven request ⟨ascii "Content-Length", formatU64 bodyLength⟩

/-- The headers of the head, in their order. -/
def writtenHeaders (request : Request) (target : NetworkTarget) (proxyAuthorization : Option Str)
    (bodyLength : ℕ) : List Header :=
  derivedHeaders request target proxyAuthorization bodyLength ++ request.headers.items

/-- The header lines and their ends. -/
def headerLines (headers : List Header) : Str :=
  joinLines (headers.map Header.line)

theorem headerLines_append (x second : List Header) :
    headerLines (x ++ second) = headerLines x ++ headerLines second := by
  rw [headerLines, map_append, joinLines_append]
  rfl

theorem headerLines_one (header : Header) :
    headerLines [header] = header.name ++ ascii ": " ++ header.value ++ crlf := by
  simp [headerLines, Header.line]

theorem written_unlessGiven (request : Request) (header : Header) (builder : Str) :
    (match (request.headers.items.find? (Header.named header.name)).map Header.value with
      | none => builder ++ (header.name ++ ascii ": ") ++ header.value ++ crlf
      | some _ => builder) = builder ++ headerLines (unlessGiven request header) := by
  unfold unlessGiven
  rcases request.headers.items.find? (Header.named header.name) with _ | _
  · rw [Option.isSome_none, if_neg Bool.false_ne_true, headerLines_one]
    simp
  · rw [Option.isSome_some, if_pos rfl]
    exact (append_nil _).symm

theorem writeHost_eq (known : networkTargetFor request.url = .ok target) (builder : Str) :
    writeHost request builder =
      .ok (builder ++ headerLines (unlessGiven request ⟨ascii "Host", target.authority⟩)) := by
  rw [← written_unlessGiven]
  unfold writeHost
  rw [headerValueFor_eq, ok_bind, known]
  rcases request.headers.items.find? (Header.named (ascii "Host")) with _ | given <;> rfl

theorem writeConnection_eq (request : Request) (builder : Str) :
    writeConnection request builder = .ok (builder ++
      headerLines (unlessGiven request ⟨ascii "Connection", ascii "keep-alive"⟩)) := by
  rw [← written_unlessGiven]
  unfold writeConnection
  rw [headerValueFor_eq, ok_bind]
  rcases request.headers.items.find? (Header.named (ascii "Connection")) with _ | _
  · change Except.ok _ = Except.ok _
    simp [ascii]
  · rfl

theorem writeProxyAuthorization_eq (request : Request) (proxyAuthorization : Option Str)
    (builder : Str) :
    writeProxyAuthorization request proxyAuthorization builder =
      .ok (builder ++ headerLines (proxyAuthorization.toList.flatMap fun v =>
        unlessGiven request ⟨ascii "Proxy-Authorization", v⟩)) := by
  unfold writeProxyAuthorization
  rw [headerValueFor_eq, ok_bind]
  cases proxyAuthorization with
  | none =>
    rw [Option.toList_none, flatMap_nil]
    change _ = Except.ok (builder ++ [])
    rw [append_nil]
    rcases request.headers.items.find? (Header.named (ascii "Proxy-Authorization")) with _ | given
    all_goals rfl
  | some =>
    rw [Option.toList_some, flatMap_singleton, ← written_unlessGiven]
    rcases request.headers.items.find? (Header.named (ascii "Proxy-Authorization")) with _ | _
    all_goals rfl

theorem writeLength_eq (request : Request) (bodyLength : ℕ) (builder : Str) :
    writeLength request bodyLength builder = .ok (builder ++
      headerLines (unlessGiven request ⟨ascii "Content-Length", formatU64 bodyLength⟩)) := by
  rw [← written_unlessGiven]
  unfold writeLength
  rw [headerValueFor_eq, ok_bind]
  rcases request.headers.items.find? (Header.named (ascii "Content-Length")) with _ | given <;> rfl

theorem writeHeaders_eq (headers : List Header) (builder : Str) :
    writeHeaders headers builder = builder ++ headerLines headers := by
  induction headers generalizing builder with
  | nil => exact (append_nil _).symm
  | cons header headers ih =>
    rw [writeHeaders, ih]
    have first := headerLines_append [header] headers
    rw [headerLines_one, singleton_append] at first
    rw [first]
    simp

/-- **The head of a request** is the request line, a line for each header, and an empty line. -/
theorem encodeRequestHead_eq (ran : Accepted request)
    (known : networkTargetFor request.url = .ok target) (requestTarget : Str)
    (proxyAuthorization : Option Str) (bodyLength : ℕ) :
    encodeRequestHead request requestTarget proxyAuthorization bodyLength =
      .ok (joinLines (requestLine request requestTarget ::
        ((writtenHeaders request target proxyAuthorization bodyLength).map Header.line ++ [[]]))) := by
  have none : request.headers.items.find? (Header.named (ascii "Transfer-Encoding")) = none := by
    rw [List.find?_eq_none]
    intro header mem named
    have pos := countP_pos_iff.mpr ⟨header, mem, named⟩
    rw [ran.encodings] at pos
    cases pos
  unfold encodeRequestHead
  simp only [writeHost_eq known, writeConnection_eq, writeProxyAuthorization_eq, writeLength_eq,
    ok_bind]
  unfold writeGiven
  rw [headerValueFor_eq, none, ok_bind]
  change Except.ok _ = _
  rw [writeHeaders_eq, joinLines_cons, joinLines_append]
  change _ = Except.ok (_ ++ (headerLines (writtenHeaders request target proxyAuthorization
    bodyLength) ++ crlf))
  unfold writtenHeaders derivedHeaders requestLine
  simp only [headerLines_append, append_assoc]

/-! ### Line breaks -/

/-- There is no line break in a text. -/
def Plain (text : Str) : Prop :=
  13 ∉ text ∧ 10 ∉ text

theorem Plain.append {x y : Str} (plain : Plain x) (plain' : Plain y) :
    Plain (x ++ y) := by
  unfold Plain
  rw [mem_append, mem_append, not_or, not_or]
  exact ⟨⟨plain.1, plain'.1⟩, plain.2, plain'.2⟩

theorem Plain.subset {first y : Str} (plain : Plain y)
    (subset : ∀ b ∈ first, b ∈ y) : Plain first :=
  ⟨fun mem => plain.1 (subset _ mem), fun mem => plain.2 (subset _ mem)⟩

theorem plain_of_visible (visible : ∀ b ∈ text, 32 < b.toNat) : Plain text := by
  refine ⟨fun mem => ?_, fun mem => ?_⟩
  all_goals exact absurd (visible _ mem) (by decide)

theorem plain_of_token (valid : validMethod text = true) : Plain text := by
  unfold validMethod at valid
  split at valid
  · cases valid
  · refine plain_of_visible fun b mem => ?_
    have token := all_eq_true.mp valid b mem
    unfold tokenByte at token
    split at token
    · cases token
    · rename_i inside
      simp only [Bool.or_eq_true, decide_eq_true_eq] at inside
      omega

theorem plain_of_value (valid : validHeaderValue text = true) : Plain text := by
  have good := all_eq_true.mp valid
  refine ⟨fun mem => ?_, fun mem => ?_⟩
  all_goals exact absurd (good _ mem) (by decide)

theorem plain_formatU64 (v : ℕ) : Plain (formatU64 v) :=
  plain_of_visible fun _ mem => by
    have := (formatU64_digits mem).1
    omega

theorem urlSlice_subset {value r : Str} {start stop : ℕ}
    (same : urlSlice value start stop = .ok r) : ∀ b ∈ r, b ∈ value := by
  obtain ⟨_, _, rfl⟩ := urlSlice_eq_ok same
  exact fun b mem => mem_of_mem_take (mem_of_mem_drop mem)

theorem authorityWithoutUser_subset (authority : Str) :
    ∀ b ∈ authorityWithoutUser authority, b ∈ authority := by
  intro b mem
  unfold authorityWithoutUser at mem
  dsimp only at mem
  split at mem
  · exact mem
  · split at mem
    · cases mem
    · rename_i sliced
      obtain ⟨_, _, rfl⟩ := Str.slice_eq_ok sliced
      exact mem_of_mem_take (mem_of_mem_drop mem)

/-- A URL that is parsed has no line break, and neither have its parts. -/
theorem Shape.plain {value rest : Str} {parts : UrlParts} (shape : Shape value parts rest) :
    Plain value ∧ Plain parts.scheme ∧ Plain (authorityWithoutUser parts.authority) := by
  have plain : Plain value :=
    plain_of_visible fun b mem => (validURLBytes_ascii shape.bytes b mem).1
  refine ⟨plain, plain.subset ?_, plain.subset ?_⟩
  · intro b mem
    rw [shape.whole]
    exact mem_append_left _ (mem_append_left _ mem)
  · intro b mem
    rw [shape.whole]
    exact mem_append_right _
      (mem_append_left _ (authorityWithoutUser_subset _ b mem))

theorem requestPath_plain {v path : Str} {start : ℕ} (plain : Plain v)
    (same : requestPath v start = .ok path) : Plain path := by
  have slash : Plain (ascii "/") := ⟨by decide, by decide⟩
  unfold requestPath at same
  dsimp only at same
  split at same
  · cases same
    exact slash
  · obtain ⟨_, sliced, same⟩ := except_bind_eq_ok.mp same
    have plain' := plain.subset (urlSlice_subset sliced)
    split at same
    · cases same
      exact slash.append plain'
    · cases same
      exact plain'

/-- Neither the host nor the path of a request has a line break. -/
theorem networkTargetFor_plain {v : Str} (known : networkTargetFor v = .ok target) :
    Plain target.authority ∧ Plain target.path := by
  obtain ⟨_, _, parsed, _, _, taken, same⟩ := networkTargetFor_iff.mp known
  obtain ⟨_, shape⟩ := parseAbsoluteURL_shape parsed
  obtain ⟨plain, _, authority⟩ := shape.plain
  refine ⟨?_, requestPath_plain plain taken⟩
  rw [same]
  exact authority

theorem proxyRequestTarget_plain {v requestTarget : Str}
    (same : proxyRequestTarget v = .ok requestTarget) : Plain requestTarget := by
  unfold proxyRequestTarget at same
  obtain ⟨_, parsed, same⟩ := except_bind_eq_ok.mp same
  dsimp only at same
  split at same
  · cases same
  · obtain ⟨_, taken, same⟩ := except_bind_eq_ok.mp same
    cases same
    obtain ⟨_, shape⟩ := parseAbsoluteURL_shape parsed
    obtain ⟨plain, scheme, authority⟩ := shape.plain
    exact ((scheme.append ⟨by decide, by decide⟩).append authority).append
      (requestPath_plain plain taken)

theorem openProxy_plain {proxy : Option Proxy} {settings : ProxySettings}
    (opened : openProxy proxy = .ok settings) : Plain settings.proxyAuthorization := by
  have empty : Plain [] := ⟨by decide, by decide⟩
  unfold openProxy at opened
  split at opened
  · cases opened
    exact empty
  · split at opened
    · cases opened
    · split at opened
      · cases opened
      · split at opened
        · cases opened
          exact empty
        · split at opened
          · cases opened
          · rename_i valid
            cases opened
            exact plain_of_value (by simpa using valid)

theorem route_plain {settings : ProxySettings} {url requestTarget : Str}
    {proxyAuthorization : Option Str} (known : networkTargetFor url = .ok target)
    (secret : Plain settings.proxyAuthorization)
    (routed : route settings target url = .ok (requestTarget, proxyAuthorization)) :
    Plain requestTarget ∧ ∀ value, proxyAuthorization = some value → Plain value := by
  unfold route at routed
  split at routed
  · cases routed
    exact ⟨(networkTargetFor_plain known).2, by rintro value ⟨⟩⟩
  · obtain ⟨_, targeted, routed⟩ := except_bind_eq_ok.mp routed
    cases routed
    refine ⟨proxyRequestTarget_plain targeted, ?_⟩
    intro value same
    split at same
    · cases same
      exact secret
    · cases same

/-! ### One length -/

theorem filter_eq_singleton {α : Type} {keep : α → Bool} {xs : List α} {item : α}
    (few : xs.countP keep ≤ 1) (found : xs.find? keep = some item) :
    xs.filter keep = [item] := by
  have head : (xs.filter keep).head? = some item := by
    rw [List.head?_filter]
    exact found
  obtain ⟨rest, same⟩ := List.head?_eq_some_iff.mp head
  rw [countP_eq_length_filter, same, length_cons] at few
  rw [same, length_eq_zero_iff.mp (by omega : rest.length = 0)]

theorem filter_unlessGiven {header : Header} {name : Str}
    (other : equalFoldASCII header.name name = false) :
    (unlessGiven request header).filter (Header.named name) = [] := by
  unfold unlessGiven
  split
  · rfl
  · rw [filter_cons_of_neg (by rw [Header.named, other]; exact Bool.false_ne_true)]
    rfl

section Written

variable (target : NetworkTarget) (proxyAuthorization : Option Str) (bodyLength : ℕ)

theorem filter_writtenHeaders {name : Str}
    (host : equalFoldASCII (ascii "Host") name = false)
    (connection : equalFoldASCII (ascii "Connection") name = false)
    (authorization : equalFoldASCII (ascii "Proxy-Authorization") name = false) :
    (writtenHeaders request target proxyAuthorization bodyLength).filter (Header.named name) =
      (unlessGiven request ⟨ascii "Content-Length", formatU64 bodyLength⟩).filter
        (Header.named name) ++ request.headers.items.filter (Header.named name) := by
  unfold writtenHeaders derivedHeaders
  have secret : (proxyAuthorization.toList.flatMap fun v =>
      unlessGiven request ⟨ascii "Proxy-Authorization", v⟩).filter (Header.named name) = [] := by
    cases proxyAuthorization with
    | none => rfl
    | some =>
      rw [Option.toList_some, flatMap_singleton, filter_unlessGiven authorization]
  rw [filter_append, filter_append, filter_append, filter_append, secret,
    filter_unlessGiven host, filter_unlessGiven connection]
  rfl

/-- **One header has the length of the body.** -/
theorem one_length (ran : Accepted request) (measured : request.body.len = .ok bodyLength)
    (small : bodyLength < 2 ^ 64) :
    ∃ header, (writtenHeaders request target proxyAuthorization bodyLength).filter
        (Header.named (ascii "Content-Length")) = [header] ∧
      parseU64 header.value = .ok bodyLength := by
  rw [filter_writtenHeaders target proxyAuthorization bodyLength rfl rfl rfl]
  unfold unlessGiven
  rcases found : request.headers.items.find? (Header.named (ascii "Content-Length")) with _ | header
  · rw [Option.isSome_none, if_neg Bool.false_ne_true]
    refine ⟨⟨ascii "Content-Length", formatU64 bodyLength⟩, ?_, parseU64_formatU64 small⟩
    rw [filter_eq_nil_iff.mpr (List.find?_eq_none.mp found), append_nil]
    exact filter_cons_of_pos (equalFoldASCII_refl _)
  · rw [Option.isSome_some, if_pos rfl]
    exact ⟨header, filter_eq_singleton ran.lengths found,
      ran.length header found bodyLength measured⟩

theorem no_encoding (ran : Accepted request) :
    (writtenHeaders request target proxyAuthorization bodyLength).filter
      (Header.named (ascii "Transfer-Encoding")) = [] := by
  rw [filter_writtenHeaders target proxyAuthorization bodyLength rfl rfl rfl,
    filter_unlessGiven rfl, nil_append, filter_eq_nil_iff]
  intro header mem named
  have pos := countP_pos_iff.mpr ⟨header, mem, named⟩
  rw [ran.encodings] at pos
  cases pos

theorem writtenHeaders_plain (ran : Accepted request) (host : Plain target.authority)
    (secret : ∀ v, proxyAuthorization = some v → Plain v) :
    ∀ header ∈ writtenHeaders request target proxyAuthorization bodyLength,
      Plain header.name ∧ Plain header.value := by
  have derived : ∀ name v, Plain name → Plain v →
      ∀ header ∈ unlessGiven request ⟨name, v⟩, Plain header.name ∧ Plain header.value := by
    intro name v plain plain' header mem
    unfold unlessGiven at mem
    split at mem
    · cases mem
    · rw [mem_singleton.mp mem]
      exact ⟨plain, plain'⟩
  intro header mem
  unfold writtenHeaders derivedHeaders at mem
  simp only [mem_append] at mem
  rcases mem with (((mem | mem) | mem) | mem) | mem
  · exact derived _ _ ⟨by decide, by decide⟩ host header mem
  · exact derived _ _ ⟨by decide, by decide⟩ ⟨by decide, by decide⟩ header mem
  · obtain ⟨v, inside, mem⟩ := mem_flatMap.mp mem
    exact derived _ _ ⟨by decide, by decide⟩ (secret v (Option.mem_toList.mp inside)) header
      mem
  · exact derived _ _ ⟨by decide, by decide⟩ (plain_formatU64 bodyLength) header mem
  · exact ⟨plain_of_token (ran.names header mem),
      plain_of_value (ran.values header mem)⟩

end Written

theorem bodyLength_small {body : Bytes} {bodyLength : ℕ} (measured : body.len = .ok bodyLength) :
    bodyLength < 2 ^ 64 := by
  obtain ⟨handle⟩ := body
  cases handle with
  | none => cases measured
  | some storage =>
    cases measured
    exact Nat.lt_trans storage.short (by decide)

/-- **The lines of a head** are the request line, one line for each header and an empty line. -/
theorem head_lines {proxy : Option Proxy} {settings : ProxySettings}
    (opened : openProxy proxy = .ok settings) {request : Request}
    (valid : validateRequest request = .ok ()) {target : NetworkTarget}
    (known : networkTargetFor request.url = .ok target) {requestTarget : Str}
    {proxyAuthorization : Option Str}
    (routed : route settings target request.url = .ok (requestTarget, proxyAuthorization))
    (bodyLength : ℕ) :
    ∃ head, encodeRequestHead request requestTarget proxyAuthorization bodyLength = .ok head ∧
      splitLines head = (requestLine request requestTarget ::
        ((writtenHeaders request target proxyAuthorization bodyLength).map Header.line ++ [[]]), []) ∧
      Plain request.method ∧ Plain requestTarget ∧
        ∀ header ∈ writtenHeaders request target proxyAuthorization bodyLength,
          Plain header.name ∧ Plain header.value ∧ header.line ≠ [] := by
  have ran := validateRequest_accepted valid
  obtain ⟨plainTarget, secret⟩ := route_plain known (openProxy_plain opened) routed
  have method := plain_of_token ran.method
  have hs := writtenHeaders_plain target proxyAuthorization bodyLength ran
    (networkTargetFor_plain known).1 secret
  refine ⟨_, encodeRequestHead_eq ran known requestTarget proxyAuthorization bodyLength, ?_,
    method, plainTarget, ?_⟩
  · refine splitLines_joinLines fun line mem => ?_
    rcases mem_cons.mp mem with rfl | mem
    · exact (((method.append ⟨by decide, by decide⟩).append plainTarget).append
        ⟨by decide, by decide⟩).2
    · rcases mem_append.mp mem with mem | mem
      · obtain ⟨header, inside, rfl⟩ := mem_map.mp mem
        obtain ⟨name, v⟩ := hs header inside
        exact ((name.append ⟨by decide, by decide⟩).append v).2
      · rw [mem_singleton.mp mem]
        exact not_mem_nil
  · intro header mem
    obtain ⟨name, v⟩ := hs header mem
    refine ⟨name, v, ?_⟩
    intro empty
    have colon : (58 : UInt8) ∈ header.line :=
      mem_append_left _ (mem_append_right _ (by decide))
    rw [empty] at colon
    cases colon

/-- **No request smuggling.** The head of a request that was accepted, split at its line ends, is the
request line, one line for each header that was given or derived, and an empty line; there is no line
break in any of them; one header has the length of the body, and there is no other encoding of it. -/
theorem no_smuggling {proxy : Option Proxy} {settings : ProxySettings}
    (opened : openProxy proxy = .ok settings) {request : Request}
    (valid : validateRequest request = .ok ()) {target : NetworkTarget}
    (known : networkTargetFor request.url = .ok target) {requestTarget : Str}
    {proxyAuthorization : Option Str}
    (routed : route settings target request.url = .ok (requestTarget, proxyAuthorization))
    {bodyLength : ℕ} (measured : request.body.len = .ok bodyLength) :
    ∃ head, encodeRequestHead request requestTarget proxyAuthorization bodyLength = .ok head ∧
      splitLines head = (requestLine request requestTarget ::
        ((writtenHeaders request target proxyAuthorization bodyLength).map Header.line ++ [[]]), []) ∧
      (Plain request.method ∧ Plain requestTarget ∧
        ∀ header ∈ writtenHeaders request target proxyAuthorization bodyLength,
          Plain header.name ∧ Plain header.value ∧ header.line ≠ []) ∧
      (∃ header, (writtenHeaders request target proxyAuthorization bodyLength).filter
          (Header.named (ascii "Content-Length")) = [header] ∧
        parseU64 header.value = .ok bodyLength) ∧
      (writtenHeaders request target proxyAuthorization bodyLength).filter
        (Header.named (ascii "Transfer-Encoding")) = [] := by
  have accepted := validateRequest_accepted valid
  obtain ⟨head, encoded, lines, plain⟩ := head_lines opened valid known routed bodyLength
  exact ⟨head, encoded, lines, plain, one_length target proxyAuthorization bodyLength accepted measured
    (bodyLength_small measured), no_encoding target proxyAuthorization bodyLength accepted⟩

/-- A request with a body, a host and a length of its own, through a proxy. -/
def sampleUpload : Request where
  method := ascii "POST"
  url := ascii "http://user@host/a#b"
  headers := ⟨[⟨ascii "X", ascii "y z"⟩, ⟨ascii "CONTENT-length", ascii "02"⟩], by decide⟩
  body := fromText (Text.literal [104, 105])
  maximumResponseSize := 1
  followRedirects := true
  maximumRedirects := 1
  timeout := ⟨1⟩
  originalURL := []
  requestID := []

theorem no_smuggling_sample :
    ∃ head, encodeRequestHead sampleUpload (ascii "http://host/a") (some (ascii "secret")) 2 =
        .ok head ∧
      (splitLines head).1.length = 7 ∧ (splitLines head).2 = [] ∧
      Plain sampleUpload.method ∧ Plain (ascii "http://host/a") := by
  have opened : openProxy (some ⟨ascii "http://proxy:1/", some (ascii "secret")⟩) =
      .ok ⟨true, ascii "proxy", 1, ascii "secret", true⟩ := by decide +kernel
  have valid : validateRequest sampleUpload = .ok () := by decide +kernel
  have known : networkTargetFor sampleUpload.url =
      .ok ⟨ascii "host", ascii "host", ascii "/a", 80, false⟩ := by decide +kernel
  have routed : route ⟨true, ascii "proxy", 1, ascii "secret", true⟩
      ⟨ascii "host", ascii "host", ascii "/a", 80, false⟩ sampleUpload.url =
      .ok (ascii "http://host/a", some (ascii "secret")) := by decide +kernel
  have measured : sampleUpload.body.len = .ok 2 := rfl
  obtain ⟨head, encoded, split, ⟨method, target, _⟩, _⟩ :=
    no_smuggling opened valid known routed measured
  refine ⟨head, encoded, ?_, ?_, method, target⟩
  · rw [split]
    decide +kernel
  · rw [split]

end FoundationLang.Httpx
