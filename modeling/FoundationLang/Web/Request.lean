/-
**Requests that the server of `foundation.web` reads.**

A request is read line by line: the request line, the header lines up to an empty one, and as many bytes
of a body as `Content-Length` says.
-/

import FoundationLang.Httpx.Url
import FoundationLang.Standard.Collections
import FoundationLang.Standard.Net

namespace FoundationLang.Web

open Library Outcome Standard

/-- A function that returns a value or panics. -/
abbrev Run (α : Type) : Type :=
  Outcome Empty α

/-- The methods that are known. -/
inductive Method
  | get
  | post
  | put
  | patch
  | delete
  | head
  | options
deriving DecidableEq, Repr

/-- A header with its name and value. -/
structure HeaderValue where
  name : Str
  value : Str
deriving DecidableEq, Repr

/-- A parameter of the path or the query. -/
structure Parameter where
  name : Str
  value : Str
deriving DecidableEq, Repr

/-- `Request`, as far as it is read from the connection. -/
structure Request where
  method : Method
  target : Str
  path : Str
  version : Str
  body : Str := []
  contentLength : ℕ := 0
  hasContentLength : Bool := false
  headers : LinkedList HeaderValue
  params : LinkedList Parameter

/-- What is wrong with a request. -/
inductive ProtocolError
  | closed
  | requestLineTooLong
  | headerLineTooLong
  | tooManyHeaders
  | malformedRequestLine
  | unsupportedMethod
  | unsupportedVersion
  | malformedHeader
  | invalidContentLength
  | bodyTooLarge
  | bodyTruncated
  | bodyUnsupported
deriving DecidableEq, Repr

/-- Why a read stops: the request or the connection. -/
inductive ReadError
  | network (error : Net.Error)
  | protocol (error : ProtocolError)
deriving DecidableEq, Repr

/-- **`ServerReader`.** The reader that comes back stands beside the result. -/
structure ServerReader (R : Type) where
  readLine : R → ℕ → R × Except Net.Error (Option Str)
  readExact : R → ℕ → R × Except Net.Error Str

/-- The reader of the runtime. -/
def tcpServerReader : ServerReader Net.TcpReader :=
  ⟨Net.readLineLimited, Net.readExact⟩

/-- What a read returns, with the reader it leaves. -/
structure ReadOutcome (R : Type) where
  reader : R
  value : Except ReadError Request

/-! ### Lines -/

/-- A part of a string; a panic where it cannot be cut. -/
def slice {ε : Type} (value : Str) (start stop : ℕ) : Outcome ε Str :=
  match Str.slice value start stop with
  | .error _ => panic (.message "HTTP parser slice invariant failed")
  | .ok result => .ok result

/-- `equalFoldAscii`, the same loop as in `httpx`. -/
def equalFoldAscii (left right : Str) : Bool :=
  Httpx.equalFoldASCII left right

/-- The request line, which has to be there. -/
def requestLineValue : Option Str → Except ProtocolError Str
  | none => .error .closed
  | some line => .ok line

/-- A blank that has to be there. -/
def requiredOffset : Option ℕ → Outcome ProtocolError ℕ
  | none => err .malformedRequestLine
  | some offset => .ok offset

/-- A colon that has to be there. -/
def headerOffset : Option ℕ → Outcome ProtocolError ℕ
  | none => err .malformedHeader
  | some offset => .ok offset

/-- The method of a request line. -/
def parseMethod (value : Str) : Outcome ProtocolError Method :=
  if value = ascii "GET" then .ok .get
  else if value = ascii "POST" then .ok .post
  else if value = ascii "PUT" then .ok .put
  else if value = ascii "PATCH" then .ok .patch
  else if value = ascii "DELETE" then .ok .delete
  else if value = ascii "HEAD" then .ok .head
  else if value = ascii "OPTIONS" then .ok .options
  else err .unsupportedMethod

/-- The target in front of its query. -/
def pathFromTarget {ε : Type} (target : Str) : Outcome ε Str :=
  match Str.find target (ascii "?") with
  | none => .ok target
  | some offset => slice target 0 offset

/-- The end of `parseRequestLine`, for the parts of the line. -/
def requestOf (method : Method) (target version : Str) : Outcome ProtocolError Request :=
  if version ≠ ascii "HTTP/1.1" then err .unsupportedVersion
  else if !Str.startsWith target (ascii "/") then err .malformedRequestLine
  else do
    let path ← pathFromTarget target
    return { method, target, path, version, headers := .newList, params := .newList }

/-- `parseRequestLine`, behind the second space. -/
def parseParts (line : Str) (firstSpace secondSpace : ℕ) : Outcome ProtocolError Request :=
  if secondSpace + 1 ≥ line.length then err .malformedRequestLine
  else do
    let methodText ← slice line 0 firstSpace
    let target ← slice line (firstSpace + 1) secondSpace
    let version ← slice line (secondSpace + 1) line.length
    let method ← parseMethod methodText
    requestOf method target version

/-- `parseRequestLine`, behind the first space. -/
def parseTarget (line : Str) (firstSpace : ℕ) : Outcome ProtocolError Request :=
  if firstSpace = 0 then err .malformedRequestLine
  else do
    let afterMethod ← slice line (firstSpace + 1) line.length
    let relativeSecond ← requiredOffset (Str.find afterMethod (ascii " "))
    if relativeSecond = 0 then err .malformedRequestLine
    else parseParts line firstSpace (firstSpace + 1 + relativeSecond)

/-- Method, target and version. -/
def parseRequestLine (line : Str) : Outcome ProtocolError Request := do
  let firstSpace ← requiredOffset (Str.find line (ascii " "))
  parseTarget line firstSpace

/-- `parseHeader`. The loop over the value skips spaces. -/
def parseHeader (line : Str) : Outcome ProtocolError HeaderValue := do
  let separator ← headerOffset (Str.find line (ascii ":"))
  if separator = 0 then err .malformedHeader
  else
    let name ← slice line 0 separator
    let value ← slice line (firstByte (· != 32) line (separator + 1)) line.length
    return ⟨name, value⟩

/-! ### What a header says about the body -/

/-- A header that the server does not accept. -/
def bodyHeaderError (header : HeaderValue) : Option ProtocolError :=
  if equalFoldAscii header.name (ascii "Transfer-Encoding") then some .bodyUnsupported
  else if !equalFoldAscii header.name (ascii "Content-Length") then none
  else
    match parseU64 header.value with
    | .error _ => some .invalidContentLength
    | .ok length => if length > 1048576 then some .bodyTooLarge else none

/-- The length that a header says. -/
def acceptBodyLength (request : Request) (header : HeaderValue) :
    Outcome ProtocolError (HeaderValue × Request) :=
  if equalFoldAscii header.name (ascii "Content-Length") then
    if request.hasContentLength then err .invalidContentLength
    else
      match parseU64 header.value with
      | .error _ => err .invalidContentLength
      | .ok length => .ok (header, { request with contentLength := length, hasContentLength := true })
  else .ok (header, request)

/-- What a header says about the body. -/
def acceptBodyHeader (request : Request) (header : HeaderValue) :
    Outcome ProtocolError (HeaderValue × Request) :=
  match bodyHeaderError header with
  | none => acceptBodyLength request header
  | some error => err error

/-! ### The reading of a request -/

/-- The headers in the order of the lines. -/
def reverseHeaders {ε : Type} (values : LinkedList HeaderValue) : Outcome ε (LinkedList HeaderValue) :=
  Queue.moved values.items .newList

/-- The connection ended. -/
def netErrorIsClosed : Net.Error → Bool
  | .closed => true
  | _ => false

/-- A body that cannot be read. -/
def bodyReadFailure {R : Type} (reader : R) (error : Net.Error) : ReadOutcome R :=
  if netErrorIsClosed error then ⟨reader, .error (.protocol .bodyTruncated)⟩
  else ⟨reader, .error (.network error)⟩

section Reading

variable {R : Type} (source : ServerReader R)

/-- A result of the parsers, beside the reader. -/
def beside {α : Type} (reader : R) (result : Outcome ProtocolError α)
    (next : α → Run (ReadOutcome R)) : Run (ReadOutcome R) :=
  match result with
  | .error (.err error) => .ok ⟨reader, .error (.protocol error)⟩
  | .error (.panic reason) => panic reason
  | .ok value => next value

/-- `acceptHeaderLine` for the empty line. -/
def completeRequest (reader : R) (request : Request) (headers : LinkedList HeaderValue) :
    Run (ReadOutcome R) := do
  let headers ← reverseHeaders headers
  let complete := { request with headers }
  if complete.contentLength = 0 then return ⟨reader, .ok complete⟩
  else
    match source.readExact reader complete.contentLength with
    | (reader, .error error) => return bodyReadFailure reader error
    | (reader, .ok body) => return ⟨reader, .ok { complete with body }⟩

/-- `acceptHeaderLine` for a header: the header is in front of the others then. -/
def acceptHeader (request : Request) (headers : LinkedList HeaderValue) (line : Str) :
    Outcome ProtocolError (Request × LinkedList HeaderValue) := do
  let header ← parseHeader line
  let (acceptedHeader, request) ← acceptBodyHeader request header
  return (request, ← headers.pushFront acceptedHeader)

/-- `readHeaders`, with `acceptHeaderLine`. -/
def readHeaders (lineLimit : ℕ) :
    ℕ → R → Request → LinkedList HeaderValue → Run (ReadOutcome R)
  | remaining, reader, request, headers =>
    match source.readLine reader lineLimit with
    | (reader, .error error) => .ok ⟨reader, .error (.network error)⟩
    | (reader, .ok none) => .ok ⟨reader, .error (.protocol .closed)⟩
    | (reader, .ok (some line)) =>
      if line = [] then completeRequest source reader request headers
      else
        match remaining with
        | 0 => .ok ⟨reader, .error (.protocol .tooManyHeaders)⟩
        | remaining + 1 =>
          beside reader (acceptHeader request headers line) fun (request, headers) =>
            readHeaders lineLimit remaining reader request headers

/-- **`readRequest`.** -/
def readRequest (reader : R) : Run (ReadOutcome R) :=
  match source.readLine reader 8192 with
  | (reader, .error error) => .ok ⟨reader, .error (.network error)⟩
  | (reader, .ok first) =>
    match requestLineValue first with
    | .error error => .ok ⟨reader, .error (.protocol error)⟩
    | .ok requestLine =>
      beside reader (parseRequestLine requestLine) fun parsed =>
        readHeaders source 8192 100 reader parsed .newList

end Reading

/-! ### Readers that refine another reader -/

section Refinement

variable {R S : Type} {view : R → S} {source : ServerReader R} {target : ServerReader S}

/-- The readers of `source` read what the readers of `target` that `view` gives do. -/
structure Refines (view : R → S) (source : ServerReader R) (target : ServerReader S) : Prop where
  readLine : ∀ reader limit,
    target.readLine (view reader) limit = (source.readLine reader limit).map view id
  readExact : ∀ reader length,
    target.readExact (view reader) length = (source.readExact reader length).map view id

/-- The outcome with a view of its reader. -/
def ReadOutcome.seen (view : R → S) (outcome : ReadOutcome R) : ReadOutcome S :=
  ⟨view outcome.reader, outcome.value⟩

theorem Refines.beside {α : Type} (r : R) (result : Outcome ProtocolError α)
    {next : α → Run (ReadOutcome R)} {next' : α → Run (ReadOutcome S)}
    (later : ∀ v, next' v = (next v).map (ReadOutcome.seen view)) :
    beside (view r) result next' =
      (Web.beside r result next).map (ReadOutcome.seen view) := by
  rcases result with (error | reason) | v
  · rfl
  · rfl
  · exact later v

theorem Refines.completeRequest (refines : Refines view source target) (r : R)
    (request : Request) (headers : LinkedList HeaderValue) :
    completeRequest target (view r) request headers =
      (Web.completeRequest source r request headers).map (ReadOutcome.seen view) := by
  unfold Web.completeRequest
  rcases reverseHeaders (ε := Empty) headers with error | headers
  · rfl
  · change ite _ _ _ = Except.map _ (ite _ _ _)
    split_ifs
    · rfl
    · rw [refines.readExact]
      rcases source.readExact r request.contentLength with ⟨r, error | body⟩
      · cases error <;> rfl
      · rfl

/-- By induction on the headers that may still come. -/
theorem Refines.readHeaders (refines : Refines view source target) (lineLimit left : ℕ)
    (r : R) (request : Request) (hs : LinkedList HeaderValue) :
    readHeaders target lineLimit left (view r) request hs =
      (Web.readHeaders source lineLimit left r request hs).map
        (ReadOutcome.seen view) := by
  induction left using Nat.strongRecOn generalizing r request hs with
  | _ left ih =>
    unfold Web.readHeaders
    rw [refines.readLine]
    rcases source.readLine r lineLimit with ⟨r, error | _ | line⟩
    · rfl
    · rfl
    · change ite _ _ _ = Except.map _ (ite _ _ _)
      split_ifs
      · exact refines.completeRequest r request hs
      · cases left with
        | zero => rfl
        | succ left =>
          exact Refines.beside _ _ fun _ => ih left left.lt_succ_self _ _ _

end Refinement

/-- The bytes in front of a connection, as a reader. -/
def streamServerReader : ServerReader (Option Str) :=
  ⟨Net.streamLine, Net.streamExact⟩

/-- **A request is read the same, and leaves the same bytes, however the connection cuts its bytes**,
and so are a line and a number of bytes. -/
theorem readRequest_stream (reader : Net.TcpReader) :
    readRequest streamServerReader reader.bytes =
        (readRequest tcpServerReader reader).map (ReadOutcome.seen Net.TcpReader.bytes)
      ∧ (∀ limit, Net.streamLine reader.bytes limit =
        ((Net.readLineLimited reader limit).1.bytes, (Net.readLineLimited reader limit).2))
      ∧ ∀ length, Net.streamExact reader.bytes length =
        ((Net.readExact reader length).1.bytes, (Net.readExact reader length).2) := by
  have refines : Refines Net.TcpReader.bytes tcpServerReader streamServerReader :=
    ⟨Net.streamLine_bytes, Net.streamExact_bytes⟩
  refine ⟨?_, Net.streamLine_bytes reader, Net.streamExact_bytes reader⟩
  unfold readRequest
  rw [refines.readLine]
  rcases tcpServerReader.readLine reader 8192 with ⟨reader, error | _ | line⟩
  · rfl
  · rfl
  · exact Refines.beside _ _ fun _ => refines.readHeaders _ _ _ _ _

end FoundationLang.Web
