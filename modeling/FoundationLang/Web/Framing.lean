/-
**Where a request ends.**

The server takes the length of the body from the header lines that it has read (`headerLines`).
-/

import FoundationLang.Httpx.UrlShape
import FoundationLang.Library.Fields
import FoundationLang.Web.Request

namespace FoundationLang.Web

open Library Outcome Standard Fields List

variable {header : HeaderValue} {line : Str} {value : Str}

/-! ### One line -/

/-- A line as a field: it ends at the first colon. -/
def fieldOf (line : Str) : Field :=
  (line.takeWhile (· != 58), (line.dropWhile (· != 58)).tail)

/-- The header that `parseHeader` makes of a line; it does not look at the bytes of the name. -/
def headerOf (line : Str) : HeaderValue :=
  ⟨(fieldOf line).1, (fieldOf line).2.dropWhile (· == 32)⟩

/-- The header has this name, in any case of its letters. -/
def HeaderValue.named (name : Str) (header : HeaderValue) : Bool :=
  equalFoldAscii header.name name

theorem slice_eq_ok {ε : Type} {value result : Str} {start stop : ℕ}
    (same : (slice value start stop : Outcome ε Str) = .ok result) :
    start ≤ stop ∧ stop ≤ value.length ∧ result = (value.take stop).drop start := by
  unfold slice at same
  split at same
  · cases same
  · rename_i cut
    cases same
    exact Str.slice_eq_ok cut

theorem fieldOf_line {front rest : Str} (plain : (58 : UInt8) ∉ front) :
    fieldOf (front ++ 58 :: rest) = (front, rest) := by
  have kept : ∀ b ∈ front, (b != 58) = true := by
    intro b mem
    rw [bne_iff_ne]
    rintro rfl
    exact plain mem
  unfold fieldOf
  rw [takeWhile_append_of_pos kept, dropWhile_append_of_pos kept]
  simp

theorem parseHeader_eq_ok (parsed : parseHeader line = .ok header) :
    header = headerOf line ∧ line = Fields.line (fieldOf line) := by
  unfold parseHeader at parsed
  obtain ⟨separator, found, parsed⟩ := bind_eq_ok.mp parsed
  split at parsed
  · cases parsed
  obtain ⟨_, cutName, parsed⟩ := bind_eq_ok.mp parsed
  obtain ⟨value, cutValue, parsed⟩ := bind_eq_ok.mp parsed
  cases parsed
  -- The colon that is found is the first one.
  have colon : (58 : UInt8) ∈ line := by
    unfold headerOffset at found
    split at found
    · cases found
    · rename_i offset first
      obtain ⟨front, rest, same, _⟩ := Str.find_some first
      rw [same]
      exact mem_append_right _ mem_cons_self
  obtain ⟨front, rest, rfl, plain⟩ := eq_append_cons_of_mem colon
  have first : Str.find (front ++ 58 :: rest) (ascii ":") = some front.length :=
    @Str.find_front 58 front [] rest plain
  rw [first] at found
  obtain rfl : front.length = separator := Except.ok.inj found
  obtain ⟨_, _, rfl⟩ := slice_eq_ok cutName
  obtain ⟨_, _, rfl⟩ := slice_eq_ok cutValue
  rw [fieldOf_line plain]
  refine ⟨?_, rfl⟩
  have value : (front ++ 58 :: rest).drop
      (firstByte (· != 32) (front ++ 58 :: rest) (front.length + 1)) =
        rest.dropWhile (· == 32) := by
    have skipped := drop_firstByte (· != 32) (front ++ [58]) rest
    rw [append_assoc, singleton_append, length_append, length_singleton]
      at skipped
    rw [skipped]
    congr 1
    funext b
    rw [bne, Bool.not_not]
    exact Bool.eq_iff_iff.mpr (by rw [beq_iff_eq, beq_iff_eq, ← UInt8.toNat_inj]; rfl)
  unfold headerOf
  rw [fieldOf_line plain, take_length, value, take_left' rfl]
  rfl

/-! ### Names and numbers -/

theorem named_iff {name : Str} :
    header.named name = true ↔ Named name (header.name, value) :=
  Httpx.equalFoldASCII_iff

theorem named_congr {x y : Str} (same : equalFoldAscii x y = true) (field : Field) :
    Named x field ↔ Named y field := by
  have alike : x.map lower = y.map lower := Httpx.equalFoldASCII_iff.mp same
  unfold Named
  rw [alike]

theorem named_contentLength :
    header.named (ascii "Content-Length") = true ↔
      Named contentLength (header.name, value) :=
  named_iff.trans (named_congr (by decide) _)

theorem named_transferEncoding :
    header.named (ascii "Transfer-Encoding") = true ↔
      Named transferEncoding (header.name, value) :=
  named_iff.trans (named_congr (by decide) _)

theorem parseDigits_number {text : Str} {result value : ℕ}
    (parsed : parseDigits text result = .ok value) :
    (∀ b ∈ text, 48 ≤ b.toNat ∧ b.toNat ≤ 57) ∧
      value = text.foldl (fun result b => result * 10 + (b.toNat - 48)) result := by
  induction text generalizing result with
  | nil => exact ⟨by simp, (Except.ok.inj parsed).symm⟩
  | cons b text ih =>
    rw [parseDigits] at parsed
    split at parsed
    · cases parsed
    · dsimp only at parsed
      split at parsed
      · cases parsed
      · obtain ⟨digits, same⟩ := ih parsed
        refine ⟨?_, same⟩
        intro y mem
        rcases mem_cons.mp mem with rfl | mem
        · omega
        · exact digits y mem

/-- **`parse.U64` reads decimal numbers.** -/
theorem parseU64_number {text : Str} {value : ℕ} (parsed : parseU64 text = .ok value) :
    Number text value := by
  unfold parseU64 at parsed
  split at parsed
  · cases parsed
  · rename_i nonempty
    obtain ⟨digits, same⟩ := parseDigits_number parsed
    exact ⟨fun empty => nonempty (isEmpty_iff.mpr empty), digits, same⟩

/-- Spaces in front of a length are no part of it. -/
theorem members_value {value : ℕ} (parsed : parseU64 (headerOf line).value = .ok value) :
    members (trim (fieldOf line).2) = [(headerOf line).value] := by
  have number := parseU64_number parsed
  have trimmed : trim (fieldOf line).2 = (headerOf line).value := by
    conv => lhs; rw [← takeWhile_append_dropWhile (p := (· == 32)) (l := (fieldOf line).2)]
    refine trim_blanks number fun b mem => ?_
    rw [blank_iff]
    exact .inl (by simpa using mem_takeWhile_imp mem)
  rw [trimmed, members_number number]

/-! ### What the headers leave in the request -/

/-- **What the headers so far have left in the request.** -/
structure Measured (headers : List HeaderValue) (request : Request) : Prop where
  uncoded : ∀ header ∈ headers, header.named (ascii "Transfer-Encoding") = false
  length : (request.hasContentLength = false ∧ request.contentLength = 0 ∧
      ∀ header ∈ headers, header.named (ascii "Content-Length") = false) ∨
    (request.hasContentLength = true ∧ headers.countP (HeaderValue.named (ascii "Content-Length")) = 1 ∧
      ∀ header ∈ headers, header.named (ascii "Content-Length") = true →
        parseU64 header.value = .ok request.contentLength)

theorem bodyHeaderError_none (accepted : bodyHeaderError header = none) :
    header.named (ascii "Transfer-Encoding") = false := by
  unfold bodyHeaderError at accepted
  split at accepted
  · cases accepted
  · rename_i ne
    exact Bool.eq_false_iff.mpr ne

/-- **One header more.** -/
theorem acceptBodyHeader_measured {headers : List HeaderValue} {header' : HeaderValue}
    {request request' : Request} (measured : Measured headers request)
    (accepted : acceptBodyHeader request header = .ok (header', request')) :
    header' = header ∧ Measured (headers ++ [header]) request' := by
  unfold acceptBodyHeader at accepted
  split at accepted
  swap
  · cases accepted
  rename_i fine
  have uncoded : ∀ y ∈ headers ++ [header],
      y.named (ascii "Transfer-Encoding") = false := by
    intro y mem
    rcases mem_append.mp mem with mem | mem
    · exact measured.uncoded y mem
    · obtain rfl := mem_singleton.mp mem
      exact bodyHeaderError_none fine
  unfold acceptBodyLength at accepted
  split at accepted
  · rename_i named
    have declares : header.named (ascii "Content-Length") = true := named
    split at accepted
    · cases accepted
    rename_i x
    split at accepted
    · cases accepted
    rename_i length parsed
    cases accepted
    refine ⟨rfl, uncoded, .inr ⟨rfl, ?_, ?_⟩⟩
    · rcases measured.length with ⟨_, _, absent⟩ | ⟨given, _⟩
      · rw [countP_append, countP_singleton, if_pos declares, countP_eq_zero.mpr]
        exact fun y mem => Bool.eq_false_iff.mp (absent y mem)
      · exact absurd given x
    · intro y mem named
      rcases mem_append.mp mem with mem | mem
      · rcases measured.length with ⟨_, _, absent⟩ | ⟨given, _⟩
        · rw [absent y mem] at named
          cases named
        · exact absurd given x
      · obtain rfl := mem_singleton.mp mem
        exact parsed
  · rename_i silent
    cases accepted
    have silent : header.named (ascii "Content-Length") = false := Bool.eq_false_iff.mpr silent
    refine ⟨rfl, uncoded, ?_⟩
    rcases measured.length with ⟨given, zero, absent⟩ | ⟨given, once, same⟩
    · refine .inl ⟨given, zero, fun y mem => ?_⟩
      rcases mem_append.mp mem with mem | mem
      · exact absent y mem
      · obtain rfl := mem_singleton.mp mem
        exact silent
    · refine .inr ⟨given, ?_, fun y mem named => ?_⟩
      · rw [countP_append, once, countP_singleton, silent]
        rfl
      · rcases mem_append.mp mem with mem | mem
        · exact same y mem named
        · obtain rfl := mem_singleton.mp mem
          rw [silent] at named
          cases named

/-! ### The whole reading -/

section Reading

variable {R : Type} (source : ServerReader R)
variable {request : Request} {lines : List Str} {outcome : ReadOutcome R} {reader : R}
  {headers : LinkedList HeaderValue}

/-- **The header lines that a reader has in front of the empty line.** -/
def headerLines (lineLimit : ℕ) : ℕ → R → List Str
  | 0, _ => []
  | remaining + 1, reader =>
    match source.readLine reader lineLimit with
    | (reader, .ok (some line)) =>
      if line = [] then [] else line :: headerLines lineLimit remaining reader
    | _ => []

/-- What has been read of a request. -/
structure Taken (lines : List Str) (headers : List HeaderValue) (request : Request) : Prop where
  headers_eq : headers = lines.map headerOf
  fields : ∀ line ∈ lines, line = Fields.line (fieldOf line)
  measured : Measured headers request

theorem taken_nil (fresh : request.hasContentLength = false) (zero : request.contentLength = 0) :
    Taken [] [] request :=
  ⟨rfl, by simp, by simp, .inl ⟨fresh, zero, by simp⟩⟩

section

variable (taken : Taken lines headers.items.reverse request)
include taken

theorem acceptHeader_taken {headers' : LinkedList HeaderValue} {request' : Request}
    (accepted : acceptHeader request headers line = .ok (request', headers')) :
    Taken (lines ++ [line]) headers'.items.reverse request' := by
  unfold acceptHeader at accepted
  obtain ⟨_, parsed, accepted⟩ := bind_eq_ok.mp accepted
  obtain ⟨⟨_, _⟩, fits, accepted⟩ := bind_eq_ok.mp accepted
  obtain ⟨_, pushed, accepted⟩ := bind_eq_ok.mp accepted
  cases accepted
  obtain ⟨rfl, shaped⟩ := parseHeader_eq_ok parsed
  obtain ⟨rfl, measured⟩ := acceptBodyHeader_measured taken.measured fits
  have items : headers'.items.reverse = headers.items.reverse ++ [headerOf line] := by
    rw [LinkedList.pushFront_eq_ok pushed, reverse_cons]
  refine ⟨?_, ?_, ?_⟩
  · rw [items, taken.headers_eq, map_append, map_singleton]
  · intro y mem
    rcases mem_append.mp mem with mem | mem
    · exact taken.fields y mem
    · obtain rfl := mem_singleton.mp mem
      exact shaped
  · rw [items]
    exact measured

theorem completeRequest_taken {final : Request}
    (done : completeRequest source reader request headers = .ok outcome)
    (read : outcome.value = .ok final) : Taken lines final.headers.items final := by
  unfold completeRequest at done
  obtain ⟨turned, moved, done⟩ := bind_eq_ok.mp done
  obtain ⟨after, moved', items⟩ := Queue.moved_ok (ε := Empty) headers.items .newList
    (by simpa using headers.bounded)
  obtain rfl : after = turned := Except.ok.inj (moved'.symm.trans moved)
  have same : after.items = headers.items.reverse := by
    rw [items, LinkedList.newList_items, append_nil]
  dsimp only at done
  split at done
  · cases done
    cases read
    exact ⟨same ▸ taken.headers_eq, taken.fields, same ▸ ⟨taken.measured.1, taken.measured.2⟩⟩
  · split at done
    · cases done
      unfold bodyReadFailure at read
      split at read <;> cases read
    · cases done
      cases read
      exact ⟨same ▸ taken.headers_eq, taken.fields, same ▸ ⟨taken.measured.1, taken.measured.2⟩⟩

/-- **The lines up to the empty one are taken.** -/
theorem readHeaders_taken {lineLimit remaining : ℕ} {final : Request}
    (done : readHeaders source lineLimit remaining reader request headers = .ok outcome)
    (read : outcome.value = .ok final) :
    Taken (lines ++ headerLines source lineLimit remaining reader) final.headers.items final := by
  induction remaining generalizing reader request headers lines with
  | zero =>
    rw [headerLines, append_nil]
    rw [readHeaders] at done
    split at done
    · cases done
      cases read
    · cases done
      cases read
    · split at done
      · exact completeRequest_taken source taken done read
      · cases done
        cases read
  | succ remaining ih =>
    rw [headerLines]
    rw [readHeaders] at done
    split at done
    · cases done
      cases read
    · cases done
      cases read
    · rename_i after line got
      split at done
      · rename_i empty
        rw [got]
        dsimp only
        rw [if_pos empty, append_nil]
        exact completeRequest_taken source taken done read
      · rename_i nonempty
        rw [got]
        dsimp only
        rw [if_neg nonempty, ← singleton_append, ← append_assoc]
        dsimp only at done
        unfold beside at done
        split at done
        · cases done
          cases read
        · cases done
        · rename_i accepted
          exact ih (acceptHeader_taken taken accepted) done

end

/-! ### The length of the body -/

/-- **The request is the one that every conforming recipient takes from the lines.** -/
structure Framed (lines : List Str) (request : Request) : Prop where
  names : ∀ header ∈ request.headers.items, Token header.name
  lengths : request.headers.items.countP (HeaderValue.named (ascii "Content-Length")) ≤ 1
  encodings : request.headers.items.countP (HeaderValue.named (ascii "Transfer-Encoding")) = 0
  body : ∀ length, Frames lines length ↔ length = request.contentLength

/-- The names of all lines are tokens. -/
def Plain (lines : List Str) : Prop :=
  ∀ line ∈ lines, Token (line.takeWhile (· != 58))

theorem plain_iff :
    (lines.all fun line => isToken (line.takeWhile (· != 58))) = true ↔ Plain lines := by
  simp only [all_eq_true, isToken_iff, Plain]

/-- What a recipient reads a line as. -/
def fieldRead (line : Str) : Field :=
  ((fieldOf line).1, trim (fieldOf line).2)

section Recipient

variable {headers : List HeaderValue}

section

variable (taken : Taken lines headers request)
include taken

/-- A recipient reads the lines in one way. -/
theorem Taken.received (plain : Plain lines)
    (fields : List Field) : Received lines fields ↔ fields = lines.map fieldRead := by
  have given : lines = (lines.map fieldOf).map Fields.line := by
    rw [map_map]
    conv => lhs; rw [← map_id lines]
    exact map_congr_left taken.fields
  conv => lhs; rw [given]
  rw [received_lines, map_map]
  · rfl
  · intro field mem
    obtain ⟨line, inside, rfl⟩ := mem_map.mp mem
    exact plain line inside

theorem Taken.header_mem (mem : line ∈ lines) :
    headerOf line ∈ headers := by
  rw [taken.headers_eq]
  exact mem_map_of_mem mem

theorem Taken.uncoded :
    ∀ field ∈ lines.map fieldRead, ¬Named transferEncoding field := by
  intro field mem named
  obtain ⟨line, inside, rfl⟩ := mem_map.mp mem
  have header : (headerOf line).named (ascii "Transfer-Encoding") = true :=
    named_transferEncoding.mpr named
  rw [taken.measured.uncoded _ (taken.header_mem inside)] at header
  cases header

theorem Taken.absent
    (absent : ∀ header ∈ headers, header.named (ascii "Content-Length") = false) (length : ℕ) :
    BodyLength (lines.map fieldRead) length ↔ length = 0 := by
  have undeclared : ∀ field ∈ lines.map fieldRead, ¬Named contentLength field := by
    intro field mem named
    obtain ⟨line, inside, rfl⟩ := mem_map.mp mem
    have header : (headerOf line).named (ascii "Content-Length") = true :=
      named_contentLength.mpr named
    rw [absent _ (taken.header_mem inside)] at header
    cases header
  constructor
  · intro measures
    cases measures with
    | coded _ mem coding => exact absurd coding (taken.uncoded _ mem)
    | declared _ mem declares _ => exact absurd declares (undeclared _ mem)
    | absent => rfl
  · rintro rfl
    exact .absent taken.uncoded undeclared

theorem Taken.declared
    (once : headers.countP (HeaderValue.named (ascii "Content-Length")) = 1)
    (same : ∀ header ∈ headers, header.named (ascii "Content-Length") = true →
      parseU64 header.value = .ok request.contentLength) (length : ℕ) :
    BodyLength (lines.map fieldRead) length ↔ length = request.contentLength := by
  obtain ⟨_, mem, named⟩ := countP_pos_iff.mp (by rw [once]; exact Nat.one_pos)
  rw [taken.headers_eq] at mem
  obtain ⟨line, inside, rfl⟩ := mem_map.mp mem
  have declared : fieldRead line ∈ lines.map fieldRead := mem_map_of_mem inside
  have declares : Named contentLength (fieldRead line) := named_contentLength.mp named
  have value : ∀ line ∈ lines, Named contentLength (fieldRead line) →
      members (fieldRead line).2 = [(headerOf line).value] ∧
        Number (headerOf line).value request.contentLength := by
    intro line inside declares
    have parsed := same _ (taken.header_mem inside) (named_contentLength.mpr declares)
    exact ⟨members_value parsed, parseU64_number parsed⟩
  constructor
  · intro measures
    cases measures with
    | coded _ mem coding => exact absurd coding (taken.uncoded _ mem)
    | declared _ _ _ lengths =>
      obtain ⟨single, number⟩ := value line inside declares
      have numbers := (lengths _ declared declares).2
      rw [single] at numbers
      exact (numbers _ mem_cons_self).unique number
    | absent _ undeclared => exact absurd declares (undeclared _ declared)
  · rintro rfl
    refine .declared taken.uncoded declared declares fun field mem declares => ?_
    obtain ⟨y, inside', rfl⟩ := mem_map.mp mem
    obtain ⟨single, number⟩ := value y inside' declares
    rw [single]
    refine ⟨cons_ne_nil _ _, fun text alone => ?_⟩
    obtain rfl := mem_singleton.mp alone
    exact number

/-- **One body length for one list of lines.** -/
theorem Taken.frames (plain : Plain lines) (length : ℕ) :
    Frames lines length ↔ length = request.contentLength := by
  have measures : BodyLength (lines.map fieldRead) length ↔ length = request.contentLength := by
    rcases taken.measured.length with ⟨_, zero, absent⟩ | ⟨_, once, same⟩
    · rw [zero]
      exact taken.absent absent length
    · exact taken.declared once same length
  rw [← measures]
  constructor
  · rintro ⟨fields, received, measured⟩
    obtain rfl := (taken.received plain fields).mp received
    exact measured
  · exact fun measured => ⟨_, (taken.received plain _).mpr rfl, measured⟩

end

end Recipient

theorem parseRequestLine_fresh (parsed : parseRequestLine line = .ok request) :
    request.hasContentLength = false ∧ request.contentLength = 0 := by
  unfold parseRequestLine at parsed
  obtain ⟨_, _, parsed⟩ := bind_eq_ok.mp parsed
  unfold parseTarget at parsed
  split at parsed
  · cases parsed
  obtain ⟨_, _, parsed⟩ := bind_eq_ok.mp parsed
  obtain ⟨_, _, parsed⟩ := bind_eq_ok.mp parsed
  split at parsed
  · cases parsed
  unfold parseParts at parsed
  split at parsed
  · cases parsed
  obtain ⟨_, _, parsed⟩ := bind_eq_ok.mp parsed
  obtain ⟨_, _, parsed⟩ := bind_eq_ok.mp parsed
  obtain ⟨_, _, parsed⟩ := bind_eq_ok.mp parsed
  obtain ⟨_, _, parsed⟩ := bind_eq_ok.mp parsed
  unfold requestOf at parsed
  split at parsed
  · cases parsed
  split at parsed
  · cases parsed
  obtain ⟨_, _, parsed⟩ := bind_eq_ok.mp parsed
  cases parsed
  exact ⟨rfl, rfl⟩

theorem readRequest_taken (done : readRequest source reader = .ok outcome)
    (read : outcome.value = .ok request) :
    Taken (headerLines source 8192 100 (source.readLine reader 8192).1) request.headers.items
      request := by
  unfold readRequest at done
  split at done
  · cases done
    cases read
  · rename_i after x got
    rw [got]
    split at done
    · cases done
      cases read
    · unfold beside at done
      split at done
      · cases done
        cases read
      · cases done
      · rename_i parsed
        obtain ⟨fresh, zero⟩ := parseRequestLine_fresh parsed
        exact readHeaders_taken source (taken_nil fresh zero) done read

/-- **The framing of a request is unambiguous exactly when the names of its header lines are tokens.**
The server does not look at the names. -/
theorem request_framing {reader : R} {outcome : ReadOutcome R} {request : Request}
    (done : readRequest source reader = .ok outcome) (read : outcome.value = .ok request) :
    Framed (headerLines source 8192 100 (source.readLine reader 8192).1) request ↔
      Plain (headerLines source 8192 100 (source.readLine reader 8192).1) := by
  have taken := readRequest_taken source done read
  constructor
  · intro framed line mem
    exact framed.names _ (taken.header_mem mem)
  · intro plain
    refine ⟨?_, ?_, ?_, taken.frames plain⟩
    · intro header mem
      rw [taken.headers_eq] at mem
      obtain ⟨line, inside, rfl⟩ := mem_map.mp mem
      exact plain line inside
    · rcases taken.measured.length with ⟨_, _, absent⟩ | ⟨_, once, _⟩
      · rw [countP_eq_zero.mpr fun header mem => Bool.eq_false_iff.mp (absent header mem)]
        exact Nat.zero_le _
      · exact Nat.le_of_eq once
    · rw [countP_eq_zero]
      exact fun header mem => Bool.eq_false_iff.mp (taken.measured.uncoded header mem)

end Reading

/-! ### Two requests -/

/-- The request that is read, if one is. -/
def accepted {R : Type} : Run (ReadOutcome R) → Option Request
  | .ok ⟨_, .ok request⟩ => some request
  | _ => none

theorem accepted_eq_some {R : Type} {result : Run (ReadOutcome R)} {request : Request}
    (same : accepted result = some request) :
    ∃ outcome, result = .ok outcome ∧ outcome.value = .ok request := by
  unfold accepted at same
  split at same
  · cases same
    exact ⟨_, rfl, rfl⟩
  · cases same

/-- A request whose body is declared in the usual spelling. -/
def declaredRequest : Net.TcpReader :=
  Net.newReader [ascii "PUT /a HTTP/1.1\r\nHost: a\r\nContent-Le", ascii "ngth:  5\r\n\r\nhello"]

/-- The same, with a space behind the name. -/
def smuggledRequest : Net.TcpReader :=
  Net.newReader [ascii "PUT /a HTTP/1.1\r\nHost: a\r\nContent-Le", ascii "ngth : 5\r\n\r\nhello"]

/-- The header lines of a request that arrives. -/
def linesOf (reader : Net.TcpReader) : List Str :=
  headerLines tcpServerReader 8192 100 (tcpServerReader.readLine reader 8192).1

theorem request_framing_sample :
    ∃ outcome request, readRequest tcpServerReader declaredRequest = .ok outcome ∧
      outcome.value = .ok request ∧ request.contentLength = 5 ∧
      Framed (linesOf declaredRequest) request := by
  have read : ((accepted (readRequest tcpServerReader declaredRequest)).map
      Request.contentLength) = some 5 := by
    decide +kernel
  obtain ⟨request, found, length⟩ := Option.map_eq_some_iff.mp read
  obtain ⟨outcome, done, value⟩ := accepted_eq_some found
  exact ⟨outcome, request, done, value, length, (request_framing tcpServerReader done value).mpr
    (plain_iff.mp (by decide +kernel))⟩

/-- **A length that the server overlooks.** A space behind the name makes another header of it: the
server takes no body, and a recipient that reads the length takes five bytes. -/
theorem request_framing_fails :
    ∃ outcome request, readRequest tcpServerReader smuggledRequest = .ok outcome ∧
      outcome.value = .ok request ∧ request.contentLength = 0 ∧
      ¬Framed (linesOf smuggledRequest) request := by
  have read : ((accepted (readRequest tcpServerReader smuggledRequest)).map
      Request.contentLength) = some 0 := by
    decide +kernel
  obtain ⟨request, found, length⟩ := Option.map_eq_some_iff.mp read
  obtain ⟨outcome, done, value⟩ := accepted_eq_some found
  refine ⟨outcome, request, done, value, length, fun framed => ?_⟩
  have taken := readRequest_taken tcpServerReader done value
  have inside : (linesOf smuggledRequest).contains (ascii "Content-Length : 5") = true := by
    decide +kernel
  have token := framed.names _ (taken.header_mem (contains_iff_mem.mp inside))
  have refused : isToken (headerOf (ascii "Content-Length : 5")).name = false := by
    decide +kernel
  rw [isToken_iff.mpr token] at refused
  cases refused

end FoundationLang.Web
