/-
**Reading from connections, in the package `std.net` and its runtime.**

The bytes of a connection arrive in pieces. The runtime keeps in a buffer what has arrived and has not
been read, and a read waits for more pieces until it has what it needs.

Deadlines, and connections that fail on their way, are left out.
-/

import FoundationLang.Standard.Strings

namespace FoundationLang.Standard.Net

/-- The errors of the package. -/
inductive Error
  | invalidAddress
  | resolveFailed
  | refused
  | closed
  | cancelled
  | invalidUtf8
  | lineTooLong
  | addressInUse
  | timeout
  | invalidLimit
  | io
deriving DecidableEq, Repr

/-- **`TcpReader`.** The bytes in the buffer, the pieces that the next calls of `recv` return, and
whether the side for reading is open. -/
structure TcpReader where
  buffer : Str
  arriving : List Str
  readOpen : Bool
deriving DecidableEq, Repr

/-- The bytes in front of the reader. -/
def TcpReader.rest (reader : TcpReader) : Str :=
  reader.buffer ++ reader.arriving.flatten

/-- A reader in front of bytes that arrive in pieces. -/
def newReader (arriving : List Str) : TcpReader :=
  ⟨[], arriving, true⟩

/-! ### Lines -/

/-- A line without the carriage return at its end. -/
def lineText (line : Str) : Str :=
  if line.getLast? = some 13 then line.dropLast else line

/-- What a read of a line leaves: the result, the bytes behind the line, and whether the reader is
still open. -/
structure LineRead where
  value : Except Error (Option Str)
  left : Str
  readOpen : Bool

/-- `fdn_net_read_publish`, for a line. -/
def publishLine (line left : Str) : LineRead :=
  if utf8Valid (lineText line) then ⟨.ok (some (lineText line)), left, true⟩
  else ⟨.error .invalidUtf8, [], false⟩

/-- A line without an end within its limit. -/
def tooLong : LineRead :=
  ⟨.error .lineTooLong, [], false⟩

/-- `fdn_net_read_buffered` for a line when the stream has not ended; `none` waits for more. -/
def bufferedLine (limit : ℕ) (buffer : Str) : Option LineRead :=
  if 10 ∈ buffer then
    let line := buffer.takeWhile (· != 10)
    some (if (lineText line).length > limit then tooLong
      else publishLine line (buffer.dropWhile (· != 10)).tail)
  else if (lineText buffer).length > limit then some tooLong
  else none

/-- `fdn_net_read_buffered` for a line at the end of the stream, without a line feed in the buffer. -/
def lastLine (buffer : Str) : LineRead :=
  if buffer = [] then ⟨.ok none, [], true⟩ else publishLine buffer []

/-- The reading of a line, with `fdn_net_read_ready` for what arrives. -/
def receiveLine (limit : ℕ) : List Str → Str → LineRead × List Str
  | [], buffer => ((bufferedLine limit buffer).getD (lastLine buffer), [])
  | piece :: arriving, buffer =>
    match bufferedLine limit buffer with
    | some line => (line, piece :: arriving)
    | none => receiveLine limit arriving (buffer ++ piece)

/-- The next line of a connection. -/
def readLineLimited (reader : TcpReader) (limit : ℕ) : TcpReader × Except Error (Option Str) :=
  if !reader.readOpen then (reader, .error .closed)
  else
    let (line, arriving) := receiveLine limit reader.arriving reader.buffer
    (⟨line.left, arriving, line.readOpen⟩, line.value)

/-! ### Bytes -/

/-- The reading of a number of bytes. -/
def receiveExact (length : ℕ) : List Str → Str → Option Str × List Str
  | [], buffer => (if length ≤ buffer.length then some buffer else none, [])
  | piece :: arriving, buffer =>
    if length ≤ buffer.length then (some buffer, piece :: arriving)
    else receiveExact length arriving (buffer ++ piece)

/-- `ReadExact`, which returns a text. -/
def readExact (reader : TcpReader) (length : ℕ) : TcpReader × Except Error Str :=
  if !reader.readOpen then (reader, .error .closed)
  else
    match receiveExact length reader.arriving reader.buffer with
    | (none, _) => (⟨reader.rest, [], true⟩, .error .closed)
    | (some buffer, arriving) =>
      if utf8Valid (buffer.take length) then
        (⟨buffer.drop length, arriving, true⟩, .ok (buffer.take length))
      else (⟨[], arriving, false⟩, .error .invalidUtf8)

/-! ### The stream without its pieces -/

/-- The bytes that can be read, `none` if the side for reading is closed. -/
def TcpReader.bytes (reader : TcpReader) : Option Str :=
  if reader.readOpen then some reader.rest else none

/-- A line of a stream, beside what it leaves of the stream. -/
def streamLine : Option Str → ℕ → Option Str × Except Error (Option Str)
  | none, _ => (none, .error .closed)
  | some stream, limit =>
    let line := lineText (stream.takeWhile (· != 10))
    if stream = [] then (some [], .ok none)
    else if line.length > limit then (none, .error .lineTooLong)
    else if utf8Valid line then (some (stream.dropWhile (· != 10)).tail, .ok (some line))
    else (none, .error .invalidUtf8)

/-- The same read of a stream without pieces. -/
def streamExact : Option Str → ℕ → Option Str × Except Error Str
  | none, _ => (none, .error .closed)
  | some stream, length =>
    if stream.length < length then (some stream, .error .closed)
    else if utf8Valid (stream.take length) then (some (stream.drop length), .ok (stream.take length))
    else (none, .error .invalidUtf8)

section Pieces

variable {limit length : ℕ} {buffer front : Str}

theorem cut_plain (plain : (10 : UInt8) ∉ front) (rest : Str) :
    (front ++ rest).takeWhile (· != 10) = front ++ rest.takeWhile (· != 10) ∧
      (front ++ rest).dropWhile (· != 10) = rest.dropWhile (· != 10) := by
  have kept : ∀ b ∈ front, (b != 10) = true := fun b mem =>
    bne_iff_ne.mpr fun same => plain (same ▸ mem)
  exact ⟨List.takeWhile_append_of_pos kept, List.dropWhile_append_of_pos kept⟩

theorem lineText_length_append (line more : Str) :
    (lineText line).length ≤ (lineText (line ++ more)).length := by
  rcases more.eq_nil_or_concat with rfl | ⟨front, last, rfl⟩
  · simp only [List.append_nil, Nat.le_refl]
  · unfold lineText
    split_ifs <;> simp <;> omega

/-- A line that is found in the buffer is the line of the stream: what is too long already stays too
long. -/
theorem bufferedLine_bytes {line : LineRead} (found : bufferedLine limit buffer = some line)
    (arriving : List Str) : streamLine (some (buffer ++ arriving.flatten)) limit =
      (TcpReader.bytes ⟨line.left, arriving, line.readOpen⟩, line.value) := by
  unfold bufferedLine at found
  split_ifs at found with feed long
  · obtain ⟨front, back, rfl, plain⟩ := List.eq_append_cons_of_mem feed
    obtain ⟨rfl⟩ := found
    have filled : front ++ 10 :: (back ++ arriving.flatten) ≠ [] := by simp
    simp only [streamLine, List.append_assoc, (cut_plain plain _).1, (cut_plain plain _).2]
    simp only [List.cons_append, List.takeWhile_cons, List.dropWhile_cons, bne_self_eq_false,
      Bool.false_eq_true, if_false, List.append_nil, List.tail_cons, if_neg filled, publishLine]
    split_ifs <;> rfl
  · obtain ⟨rfl⟩ := found
    have longer := lineText_length_append buffer (arriving.flatten.takeWhile (· != 10))
    have filled : buffer ++ arriving.flatten ≠ [] := by
      rintro empty
      simp [(List.append_eq_nil_iff.mp empty).1, lineText] at long
    simp only [streamLine, (cut_plain feed _).1]
    rw [if_neg filled, if_pos (by omega)]
    rfl

theorem lastLine_bytes (waits : bufferedLine limit buffer = none) : streamLine (some buffer) limit =
    (TcpReader.bytes ⟨(lastLine buffer).left, [], (lastLine buffer).readOpen⟩, (lastLine buffer).value) := by
  unfold bufferedLine at waits
  split_ifs at waits with feed long
  have cut := cut_plain feed []
  simp only [List.append_nil, List.takeWhile_nil, List.dropWhile_nil] at cut
  simp only [streamLine, lastLine, cut.1, cut.2, if_neg long, publishLine]
  split_ifs <;> rfl

/-- **The lines that a reader returns do not depend on the pieces of the stream.** A piece only moves
into the buffer. -/
theorem streamLine_bytes (r : TcpReader) (limit : ℕ) :
    streamLine r.bytes limit =
      ((readLineLimited r limit).1.bytes, (readLineLimited r limit).2) := by
  obtain ⟨buffer, arriving, _ | _⟩ := r
  · rfl
  · change streamLine (some (buffer ++ arriving.flatten)) limit = _
    induction arriving generalizing buffer with
    | nil =>
      simp only [readLineLimited, receiveLine]
      cases found : bufferedLine limit buffer with
      | none => simpa using lastLine_bytes found
      | some line => exact bufferedLine_bytes found []
    | cons piece arriving ih =>
      simp only [readLineLimited, receiveLine]
      cases found : bufferedLine limit buffer with
      | none => simpa [readLineLimited] using ih (buffer ++ piece)
      | some line => exact bufferedLine_bytes found _

theorem buffered_bytes (enough : length ≤ buffer.length) (arriving : List Str) :
    streamExact (some (buffer ++ arriving.flatten)) length =
      ((readExact ⟨buffer, arriving, true⟩ length).1.bytes,
        (readExact ⟨buffer, arriving, true⟩ length).2) := by
  have taken : receiveExact length arriving buffer = (some buffer, arriving) := by
    cases arriving <;> simp [receiveExact, enough]
  have long : ¬ (buffer ++ arriving.flatten).length < length := by
    rw [List.length_append]
    omega
  simp only [streamExact, if_neg long, List.take_append_of_le_length enough, readExact, taken,
    List.drop_append_of_le_length enough]
  cases utf8Valid (buffer.take length) <;> rfl

theorem streamExact_bytes (r : TcpReader) (length : ℕ) :
    streamExact r.bytes length =
      ((readExact r length).1.bytes, (readExact r length).2) := by
  obtain ⟨buffer, arriving, _ | _⟩ := r
  · rfl
  · change streamExact (some (buffer ++ arriving.flatten)) length = _
    induction arriving generalizing buffer with
    | nil =>
      rcases Nat.lt_or_ge buffer.length length with short | enough
      · simp [streamExact, readExact, receiveExact, TcpReader.bytes, TcpReader.rest, short,
          Nat.not_le.mpr short]
      · exact buffered_bytes enough []
    | cons piece arriving ih =>
      rcases Nat.lt_or_ge buffer.length length with short | enough
      · simpa [readExact, receiveExact, TcpReader.rest, Nat.not_le.mpr short] using
          ih (buffer ++ piece)
      · exact buffered_bytes enough _

end Pieces

end FoundationLang.Standard.Net
