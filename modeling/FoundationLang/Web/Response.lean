/-
**The head of a response.**

The server of `foundation.web` writes the status line, the headers that the handler gave and two headers
of its own. Nothing looks at the names and values of the handler.
-/

import FoundationLang.Library.Heads
import FoundationLang.Standard.Bytes
import FoundationLang.Web.Framing

namespace FoundationLang.Web

open Library Outcome Standard Fields List

variable {status : Int32} {body : Bytes} {length : ℕ}

/-! ### The writer -/

/-- `format.I32`. -/
def formatI32 (value : Int32) : Str :=
  if value.toInt < 0 then 45 :: formatU64 value.toInt.natAbs else formatU64 value.toInt.natAbs

/-- The reason phrase of a status. -/
def statusText (status : Int32) : Str :=
  if status = 200 then ascii "OK"
  else if status = 201 then ascii "Created"
  else if status = 202 then ascii "Accepted"
  else if status = 204 then ascii "No Content"
  else if status = 400 then ascii "Bad Request"
  else if status = 401 then ascii "Unauthorized"
  else if status = 403 then ascii "Forbidden"
  else if status = 404 then ascii "Not Found"
  else if status = 405 then ascii "Method Not Allowed"
  else if status = 409 then ascii "Conflict"
  else if status = 413 then ascii "Content Too Large"
  else if status = 415 then ascii "Unsupported Media Type"
  else if status = 429 then ascii "Too Many Requests"
  else if status = 500 then ascii "Internal Server Error"
  else if status = 503 then ascii "Service Unavailable"
  else ascii "Status"

/-- The length of a body; a closed one is a panic. -/
def byteLength (value : Bytes) : Run ℕ :=
  match value.len with
  | .error _ => panic (.message "HTTP response body is closed")
  | .ok length => .ok length

/-- The loop of `serializeResponseHead`. -/
def writeHeaders (status : Int32) : List HeaderValue → Str → Str
  | [], builder => builder
  | header :: headers, builder =>
    if status != 204 || !equalFoldAscii header.name (ascii "Content-Length") then
      writeHeaders status headers (builder ++ header.name ++ ascii ": " ++ header.value ++ crlf)
    else writeHeaders status headers builder

/-- The builder after the header `Content-Length`. -/
def writeLength (status : Int32) (body : Bytes) (builder : Str) : Run Str :=
  if status != 204 then do
    let length ← byteLength body
    return builder ++ ascii "Content-Length: " ++ formatU64 length ++ crlf
  else return builder

/-- **`serializeResponseHead`.** The builder is what was written to it. -/
def serializeResponseHead (status : Int32) (headers : LinkedList HeaderValue) (body : Bytes) :
    Run Str := do
  let builder := ascii "HTTP/1.1 " ++ formatI32 status ++ ascii " " ++ statusText status ++ crlf
  let builder := writeHeaders status headers.items builder
  let builder ← writeLength status body builder
  return builder ++ ascii "Connection: close" ++ crlf ++ crlf

/-! ### What is written -/

/-- A header as a field of a head. -/
def HeaderValue.field (header : HeaderValue) : Field :=
  (header.name, header.value)

/-- The headers of the handler that are written: not `Content-Length` if there is no content. -/
def handed (status : Int32) (headers : List HeaderValue) : List Field :=
  (headers.filter fun header =>
    status != 204 || !equalFoldAscii header.name (ascii "Content-Length")).map HeaderValue.field

/-- The fields that the writer adds. -/
def added (status : Int32) (length : ℕ) : List Field :=
  (if status = 204 then [] else [(ascii "Content-Length", formatU64 length)]) ++
    [(ascii "Connection", ascii "close")]

/-- The first line of the head. -/
def statusLine (status : Int32) : Str :=
  version ++ formatI32 status ++ ascii " " ++ statusText status

theorem writeHeaders_eq (status : Int32) (hs : List HeaderValue) (builder : Str) :
    writeHeaders status hs builder =
      builder ++ joinLines ((handed status hs).map spaced) := by
  induction hs generalizing builder with
  | nil => exact (append_nil builder).symm
  | cons header hs ih =>
    unfold handed at ih ⊢
    rw [writeHeaders, filter_cons]
    split
    · rw [ih, map_cons, map_cons, joinLines_cons]
      have colon : ascii ": " = [58, 32] := by decide
      simp [spaced, line, HeaderValue.field, colon]
    · exact ih builder

/-- The length of the body, when it is read. -/
def measured (status : Int32) (body : Bytes) : Run ℕ :=
  if status = 204 then .ok 0 else byteLength body

/-- The head is joined from the status line, a line for each header and an empty line. -/
theorem serializeResponseHead_eq (hs : LinkedList HeaderValue)
    (known : measured status body = .ok length) :
    serializeResponseHead status hs body =
      .ok (joinLines (statusLine status ::
        ((handed status hs.items ++ added status length).map spaced ++ [[]]))) := by
  have version' : ascii "HTTP/1.1 " = version := by decide
  have close : ascii "Connection: close" = spaced (ascii "Connection", ascii "close") := by decide
  have content (text : Str) :
      ascii "Content-Length: " ++ text = spaced (ascii "Content-Length", text) := by
    have front : ascii "Content-Length: " = ascii "Content-Length" ++ [58, 32] := by decide
    rw [front, append_assoc]
    rfl
  unfold measured at known
  unfold serializeResponseHead writeLength added
  dsimp only
  rw [writeHeaders_eq, version', close]
  by_cases empty : status = 204
  · rw [if_neg (by simp [empty]), if_pos empty]
    simp [pure, Except.pure, statusLine]
  · rw [if_neg empty] at known
    rw [if_pos (by simp [empty]), if_neg empty, known]
    simp only [ok_bind, pure, Except.pure, append_assoc]
    rw [← append_assoc (ascii "Content-Length: "), content]
    simp [statusLine]

/-! ### The status -/

theorem formatU64_step {v : ℕ} (long : 10 ≤ v) :
    formatU64 v = formatU64 (v / 10) ++ [UInt8.ofNat (48 + v % 10)] := by
  unfold formatU64
  rw [Nat.toDigits_of_base_le (by decide) long, map_append, map_singleton,
    Nat.toNat_digitChar_of_lt_ten (Nat.mod_lt _ (by decide))]

theorem formatU64_digit {v : ℕ} (short : v < 10) :
    formatU64 v = [UInt8.ofNat (48 + v)] := by
  unfold formatU64
  rw [Nat.toDigits_of_lt_base short, map_singleton, Nat.toNat_digitChar_of_lt_ten short]

theorem formatU64_number (value : ℕ) : Number (formatU64 value) value := by
  refine ⟨?_, fun b mem => formatU64_digits mem, ?_⟩
  · unfold formatU64
    rw [ne_eq, map_eq_nil_iff]
    exact Nat.toDigits_ne_nil
  · induction value using Nat.strongRecOn with
    | ind value ih =>
      by_cases short : value < 10
      · rw [formatU64_digit short, foldl_cons, foldl_nil, Utf8.toNat_ofNat (by omega)]
        omega
      · have last : (UInt8.ofNat (48 + value % 10)).toNat - 48 = value % 10 := by
          rw [Utf8.toNat_ofNat (by omega)]
          omega
        rw [formatU64_step (by omega), foldl_append, ← ih (value / 10) (by omega),
          foldl_cons, foldl_nil, last]
        omega

theorem digit_iff {b : UInt8} : digit b = true ↔ 48 ≤ b.toNat ∧ b.toNat ≤ 57 := by
  unfold digit
  rw [Bool.and_eq_true, decide_eq_true_eq, decide_eq_true_eq]

theorem clean_ite {condition : Prop} [Decidable condition] {text text' : Str}
    (clean : text.all valueByte = true) (clean' : text'.all valueByte = true) :
    (if condition then text else text').all valueByte = true := by
  split
  · exact clean
  · exact clean'

theorem statusText_clean (status : Int32) : (statusText status).all valueByte = true := by
  unfold statusText
  iterate 15 refine clean_ite (by decide) ?_
  decide

theorem readStatusLine_version (rest : Str) (code : ℕ) :
    readStatusLine (version ++ rest) = some code ↔
      ∃ hundreds tens ones reason, rest = hundreds :: tens :: ones :: 32 :: reason ∧
        digit hundreds = true ∧ digit tens = true ∧ digit ones = true ∧
        reason.all valueByte = true ∧
        code = (hundreds.toNat - 48) * 100 + (tens.toNat - 48) * 10 + (ones.toNat - 48) := by
  unfold readStatusLine
  rw [if_pos (List.isPrefixOf_iff_prefix.mpr (prefix_append _ _)), drop_left]
  constructor
  · intro read
    split at read
    · rename_i hundreds tens ones reason
      split at read
      · rename_i checked
        simp only [Bool.and_eq_true] at checked
        obtain ⟨⟨⟨x, y⟩, third⟩, clean⟩ := checked
        exact ⟨_, _, _, _, rfl, x, y, third, clean, (Option.some.inj read).symm⟩
      · cases read
    · cases read
  · rintro ⟨_, _, _, _, rfl, x, y, third, clean, rfl⟩
    simp only [x, y, third, clean, Bool.and_self, if_true]

/-- **The status lines that are read**: those of three digits. -/
theorem readStatusLine_statusLine :
    (∃ code : ℕ, readStatusLine (statusLine status) = some code ∧ (code : ℤ) = status.toInt) ↔
      100 ≤ status.toInt ∧ status.toInt ≤ 999 := by
  have space : ascii " " = [32] := by decide
  unfold statusLine
  rw [append_assoc, append_assoc, space]
  constructor
  · rintro ⟨code, read, same⟩
    obtain ⟨hundreds, tens, ones, reason, whole, x, y, third, _, v⟩ :=
      (readStatusLine_version _ _).mp read
    -- A sign is no digit.
    have pos : ¬status.toInt < 0 := by
      intro negative
      rw [formatI32, if_pos negative, cons_append] at whole
      have sign := (List.cons.inj whole).1
      rw [← sign] at x
      cases x
    rw [formatI32, if_neg pos] at whole
    set number := status.toInt.natAbs with known
    have natural : status.toInt = number := by omega
    rw [digit_iff] at x y third
    rw [natural] at same ⊢
    have ds : ∀ b ∈ formatU64 number, b ≠ 32 := by
      rintro b mem rfl
      exact absurd (formatU64_digits mem).1 (by decide)
    by_cases one : number < 10
    · -- One digit, and the space stands where the second one is.
      rw [formatU64_digit one] at whole
      have gap := (List.cons.inj (List.cons.inj whole).2).1
      rw [← gap] at y
      exact absurd y.1 (by decide)
    by_cases two : number < 100
    · rw [formatU64_step (by omega), formatU64_digit (by omega)] at whole
      have gap := (List.cons.inj (List.cons.inj (List.cons.inj whole).2).2).1
      rw [← gap] at third
      exact absurd third.1 (by decide)
    have small : code ≤ 999 := by omega
    omega
  · rintro ⟨low, high⟩
    set number := status.toInt.natAbs with known
    have natural : status.toInt = number := by omega
    refine ⟨number, (readStatusLine_version _ _).mpr ?_, natural.symm⟩
    have written : formatI32 status = [UInt8.ofNat (48 + number / 10 / 10),
        UInt8.ofNat (48 + number / 10 % 10), UInt8.ofNat (48 + number % 10)] := by
      rw [formatI32, if_neg (by omega), ← known, formatU64_step (by omega),
        formatU64_step (by omega), formatU64_digit (by omega)]
      rfl
    refine ⟨_, _, _, statusText status, by rw [written]; rfl, ?_, ?_, ?_, statusText_clean status, ?_⟩
    · rw [digit_iff, Utf8.toNat_ofNat (by omega)]
      omega
    · rw [digit_iff, Utf8.toNat_ofNat (by omega)]
      omega
    · rw [digit_iff, Utf8.toNat_ofNat (by omega)]
      omega
    · rw [Utf8.toNat_ofNat (by omega), Utf8.toNat_ofNat (by omega), Utf8.toNat_ofNat (by omega)]
      omega

theorem statusLine_plain (status : Int32) : (10 : UInt8) ∉ statusLine status := by
  have number (value : ℕ) : (10 : UInt8) ∉ formatU64 value := by
    intro mem
    exact absurd (formatU64_digits mem).1 (by decide)
  have text : (10 : UInt8) ∉ formatI32 status := by
    unfold formatI32
    split
    · rw [mem_cons, not_or]
      exact ⟨by decide, number _⟩
    · exact number _
  unfold statusLine
  simp only [mem_append, not_or]
  exact ⟨⟨⟨by decide, text⟩, by decide⟩, plain_of_valueBytes (statusText_clean status)⟩

/-! ### What is read back -/

/-- The fields of a name, in any case of its letters. -/
def fieldsNamed (name : Str) (fields : List Field) : List Field :=
  fields.filter fun field => field.1.map lower == name.map lower

/-- **The head says what was meant**: the status, the headers of the handler in their order, one length
unless there is no content, one connection that is closed, and nothing else. -/
structure Restored (status : Int32) (headers : List HeaderValue) (body : Bytes) (head : Head) :
    Prop where
  status_eq : (head.status : ℤ) = status.toInt
  given : (handed status headers).Sublist head.fields
  nothing_else : head.fields.length =
    (handed status headers).length + if status = 204 then 1 else 2
  length_eq : status ≠ 204 → ∃ name value length,
    fieldsNamed contentLength head.fields = [(name, value)] ∧
      body.len = .ok length ∧ Number value length
  connection : ∃ name,
    fieldsNamed (ascii "Connection") head.fields = [(name, ascii "close")]

/-- The head that is written is read, to its end, as what was meant. -/
def GivesBack (status : Int32) (headers : LinkedList HeaderValue) (body : Bytes) : Prop :=
  ∃ text head, serializeResponseHead status headers body = .ok text ∧
    readHead text = some (head, []) ∧ Restored status headers.items body head

/-- **A response that can be presented.** The status has three digits; the headers that are written have
tokens for names and clean values, and none has the name of a header that is added. -/
structure Presentable (status : Int32) (headers : List HeaderValue) (body : Bytes) : Prop where
  digits : 100 ≤ status.toInt ∧ status.toInt ≤ 999
  clean : ∀ field ∈ handed status headers, Token field.1 ∧ Clean field.2
  lengths : ∀ field ∈ handed status headers, ¬Named contentLength field
  connections : ∀ field ∈ handed status headers, ¬Named (ascii "Connection") field
  opened : status = 204 ∨ body.handle.isSome = true

theorem fieldsNamed_append (name : Str) (x second : List Field) :
    fieldsNamed name (x ++ second) = fieldsNamed name x ++ fieldsNamed name second :=
  filter_append _ _

theorem fieldsNamed_eq_nil {name : Str} {fs : List Field} :
    fieldsNamed name fs = [] ↔ ∀ field ∈ fs, ¬Named name field := by
  unfold fieldsNamed Named
  simp only [filter_eq_nil_iff, beq_iff_eq]

theorem measured_ok {hs : LinkedList HeaderValue} {text : Str}
    (written : serializeResponseHead status hs body = .ok text) :
    ∃ length, measured status body = .ok length := by
  unfold measured
  by_cases empty : status = 204
  · exact ⟨0, if_pos empty⟩
  · rw [if_neg empty]
    unfold serializeResponseHead writeLength at written
    dsimp only at written
    rw [if_pos (by simp [empty])] at written
    rcases known : byteLength body with _ | length
    · rw [known] at written
      cases written
    · exact ⟨length, rfl⟩

theorem byteLength_eq_ok : byteLength body = .ok length ↔ body.len = .ok length := by
  unfold byteLength
  rcases body.len with _ | _
  · constructor
    · exact fun same => nomatch same
    · exact fun same => nomatch same
  · constructor
    · exact fun same => congrArg _ (Except.ok.inj same)
    · exact fun same => congrArg _ (Except.ok.inj same)

theorem measured_of_opened (opened : status = 204 ∨ body.handle.isSome = true) :
    ∃ length, measured status body = .ok length := by
  unfold measured
  by_cases empty : status = 204
  · exact ⟨0, if_pos empty⟩
  · obtain ⟨storage, known⟩ := Option.isSome_iff_exists.mp (opened.resolve_left empty)
    refine ⟨storage.data.length, ?_⟩
    rw [if_neg empty, byteLength_eq_ok, Bytes.len, known]

theorem opened_of_measured (known : measured status body = .ok length) :
    status = 204 ∨ body.handle.isSome = true := by
  by_cases empty : status = 204
  · exact .inl empty
  · rw [measured, if_neg empty, byteLength_eq_ok] at known
    obtain ⟨_ | _⟩ := body
    · cases known
    · exact .inr rfl

theorem added_clean (status : Int32) (length : ℕ) :
    ∀ field ∈ added status length, Token field.1 ∧ Clean field.2 := by
  have number : Clean (formatU64 length) := by
    refine ⟨all_eq_true.mpr fun b mem => ?_, ?_⟩
    · have digit := formatU64_digits mem
      unfold valueByte
      simp only [Bool.or_eq_true, Bool.and_eq_true, decide_eq_true_eq, bne_iff_ne]
      right
      refine ⟨by omega, ?_⟩
      rintro rfl
      exact absurd digit.2 (by decide)
    · exact nil_append (formatU64 length) ▸
        trim_blanks (formatU64_number length) (forall_mem_nil _)
  have connection : Token (ascii "Connection") ∧ Clean (ascii "close") :=
    ⟨isToken_iff.mp (by decide), by decide, by decide⟩
  have content : Token (ascii "Content-Length") := isToken_iff.mp (by decide)
  intro field mem
  unfold added at mem
  rcases mem_append.mp mem with mem | mem
  · split at mem
    · cases mem
    · rw [mem_singleton.mp mem]
      exact ⟨content, number⟩
  · rw [mem_singleton.mp mem]
    exact connection

theorem fieldsNamed_added_length (length : ℕ) (content : status ≠ 204) :
    fieldsNamed contentLength (added status length) =
      [(ascii "Content-Length", formatU64 length)] := by
  have other : (fieldsNamed contentLength [(ascii "Connection", ascii "close")]) = [] := by decide
  have same : ((ascii "Content-Length").map lower == contentLength.map lower) = true := by decide
  unfold added
  rw [if_neg content, fieldsNamed_append, other, append_nil]
  exact filter_cons_of_pos same

theorem fieldsNamed_added_connection (status : Int32) (length : ℕ) :
    fieldsNamed (ascii "Connection") (added status length) =
      [(ascii "Connection", ascii "close")] := by
  have other (text : Str) : fieldsNamed (ascii "Connection") [(ascii "Content-Length", text)] = [] :=
    filter_cons_of_neg
      (show ¬((ascii "Content-Length").map lower == (ascii "Connection").map lower) = true by decide)
  have same : fieldsNamed (ascii "Connection") [(ascii "Connection", ascii "close")] =
      [(ascii "Connection", ascii "close")] := by decide
  unfold added
  rw [fieldsNamed_append, same]
  split
  · rfl
  · rw [other, nil_append]

theorem handed_unlengthed {hs : List HeaderValue} :
    ∀ field ∈ handed 204 hs, ¬Named contentLength field := by
  intro field mem named
  obtain ⟨header, kept, rfl⟩ := mem_map.mp mem
  have other := (mem_filter.mp kept).2
  have alike : header.named (ascii "Content-Length") = true := named_contentLength.mpr named
  unfold HeaderValue.named at alike
  rw [alike] at other
  cases other

theorem readHead_written {hs : LinkedList HeaderValue} {length code : ℕ}
    (known : measured status body = .ok length)
    (read : readStatusLine (statusLine status) = some code)
    (clean : ∀ field ∈ handed status hs.items, Token field.1 ∧ Clean field.2) :
    ∃ text, serializeResponseHead status hs body = .ok text ∧
      readHead text = some (⟨code, handed status hs.items ++ added status length⟩, []) := by
  refine ⟨_, serializeResponseHead_eq hs known, ?_⟩
  refine readHead_joinLines (statusLine_plain status) read fun field mem => ?_
  rcases mem_append.mp mem with mem | mem
  · exact clean field mem
  · exact added_clean status length field mem

/-- **A response is read back exactly if it can be presented.** -/
theorem response_head {status : Int32} {headers : LinkedList HeaderValue} {body : Bytes} :
    GivesBack status headers body ↔ Presentable status headers.items body := by
  constructor
  · rintro ⟨text, head, written, read, restored⟩
    obtain ⟨length, known⟩ := measured_ok written
    -- What is read is clean, and the headers of the handler are among it.
    have clean : ∀ field ∈ handed status headers.items, Token field.1 ∧ Clean field.2 :=
      fun field mem => readHead_clean read field (restored.given.subset mem)
    have first : readStatusLine (statusLine status) = some head.status := by
      rw [serializeResponseHead_eq headers known] at written
      rw [← Except.ok.inj written, joinLines_cons] at read
      exact readHead_status (statusLine_plain status) read
    obtain ⟨text', written', read'⟩ := readHead_written known first clean
    rw [written] at written'
    cases written'
    rw [read] at read'
    have fields : head.fields = handed status headers.items ++ added status length :=
      congrArg (fun result => result.1.fields) (Option.some.inj read')
    refine ⟨readStatusLine_statusLine.mp ⟨head.status, first, restored.status_eq⟩, clean, ?_, ?_,
      opened_of_measured known⟩
    · by_cases empty : status = 204
      · rw [empty]
        exact handed_unlengthed
      · obtain ⟨name, value, _, only, _, _⟩ := restored.length_eq empty
        rw [fields, fieldsNamed_append, fieldsNamed_added_length length empty] at only
        rw [← fieldsNamed_eq_nil]
        have few := congrArg List.length only
        rw [length_append, length_singleton, length_singleton] at few
        exact length_eq_zero_iff.mp (by omega)
    · obtain ⟨name, only⟩ := restored.connection
      rw [fields, fieldsNamed_append, fieldsNamed_added_connection] at only
      rw [← fieldsNamed_eq_nil]
      have few := congrArg List.length only
      rw [length_append, length_singleton, length_singleton] at few
      exact length_eq_zero_iff.mp (by omega)
  · rintro ⟨digits, clean, lengths, connections, opened⟩
    obtain ⟨length, known⟩ := measured_of_opened opened
    obtain ⟨_, first, same⟩ := readStatusLine_statusLine.mpr digits
    obtain ⟨text, written, read⟩ := readHead_written known first clean
    refine ⟨text, _, written, read, same, sublist_append_left _ _, ?_, ?_, ?_⟩
    · dsimp only
      rw [length_append]
      congr 1
      unfold added
      split
      · rfl
      · rfl
    · intro content
      refine ⟨ascii "Content-Length", formatU64 length, length, ?_, ?_, formatU64_number length⟩
      · dsimp only
        rw [fieldsNamed_append, fieldsNamed_eq_nil.mpr lengths, nil_append,
          fieldsNamed_added_length length content]
      · rw [measured, if_neg content] at known
        exact byteLength_eq_ok.mp known
    · refine ⟨ascii "Connection", ?_⟩
      rw [fieldsNamed_append, fieldsNamed_eq_nil.mpr connections, nil_append,
        fieldsNamed_added_connection]

/-- A header whose value has a line break and another header in it. -/
def splitHeader : HeaderValue :=
  ⟨ascii "X-Trace", ascii "1\r\nSet-Cookie: session=2"⟩

/-- **The value of one header is read as two.** -/
theorem response_head_fails :
    ¬GivesBack 200 ⟨[splitHeader], by decide⟩ (fromText (Text.literal [104, 105])) := by
  rintro ⟨_, head, _, read, restored⟩
  have mem : splitHeader.field ∈ head.fields := restored.given.subset (by decide)
  exact absurd (readHead_clean read _ mem).2.bytes (by decide)

end FoundationLang.Web
