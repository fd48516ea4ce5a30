/-
**Requests of `foundation.httpx`.**
-/

import FoundationLang.Httpx.Url
import FoundationLang.Library.Lines
import FoundationLang.Standard.Bytes
import FoundationLang.Standard.Collections
import FoundationLang.Standard.Time

namespace FoundationLang.Httpx

open Library Outcome Standard List

/-- One header, as it was given. -/
structure Header where
  name : Str
  value : Str
deriving DecidableEq, Repr

/-- A request, before its URL is looked at. -/
structure Request where
  method : Str
  url : Str
  headers : LinkedList Header
  body : Bytes
  maximumResponseSize : ℕ
  followRedirects : Bool
  maximumRedirects : ℕ
  timeout : Duration
  originalURL : Str
  requestID : Str

/-- What the server answered. -/
structure Response where
  status : ℤ
  headers : LinkedList Header
  body : Bytes

/-- `ClientError`, as far as redirects return it. -/
inductive ClientError
  | invalidRedirect
deriving DecidableEq, Repr

variable {σ ε : Type}

/-! ### Lists of headers -/

/-- `restoreHeaders`, into the list that was taken apart. -/
def restoreHeaders : List Header → LinkedList Header → Outcome ε (LinkedList Header)
  | [], headers => .ok headers
  | header :: source, headers => do restoreHeaders source (← headers.pushFront header)

/-- A loop over a list of headers; `visit` says whether a header stays. -/
def visitHeaders (visit : σ → Header → σ × Bool) (headers : LinkedList Header) (memory : σ) :
    Outcome ε (σ × LinkedList Header) := do
  let (memory, restored) ← sweep (fun memory header => .ok (visit memory header)) headers.items
    memory .newList
  return (memory, ← restoreHeaders restored.items .newList)

/-- The first value under a name; case does not matter. -/
def headerValueFor (headers : LinkedList Header) (name : Str) : Outcome ε (Option Str) := do
  let ((result, _), _) ← visitHeaders (fun (result, found) header =>
    if !found && equalFoldASCII header.name name then ((some header.value, true), true)
    else ((result, found), true)) headers ((none, false) : Option Str × Bool)
  return result

/-- `headerCount`. There are not so many headers that it would overflow. -/
def headerCount (headers : LinkedList Header) (name : Str) : Outcome ε ℕ := do
  let (count, _) ← visitHeaders (fun count header =>
    (if equalFoldASCII header.name name then count + 1 else count, true)) headers 0
  return count

/-- The headers without those of a name. -/
def removeHeader (headers : LinkedList Header) (name : Str) : Outcome ε (LinkedList Header) := do
  let (_, headers) ← visitHeaders (fun _ header => ((), !equalFoldASCII header.name name)) headers ()
  return headers

/-- A header that may carry credentials. -/
def sensitiveHeader (name : Str) : Bool :=
  equalFoldASCII name (ascii "Authorization") || equalFoldASCII name (ascii "Proxy-Authorization") ||
    equalFoldASCII name (ascii "Cookie")

/-- What may go to another origin. -/
def stripSensitiveHeaders (headers : LinkedList Header) : Outcome ε (LinkedList Header) := do
  let (_, headers) ← visitHeaders (fun _ header => ((), !sensitiveHeader header.name)) headers ()
  return headers

/-! ### Checks -/

/-- A byte of a method or of a header name. -/
def tokenByte (value : ℕ) : Bool :=
  if value < 33 || value > 126 then false
  else value != 34 && value != 40 && value != 41 && value != 44 && value != 47 && value != 58 &&
    value != 59 && value != 60 && value != 61 && value != 62 && value != 63 && value != 64 &&
    value != 91 && value != 92 && value != 93 && value != 123 && value != 125

/-- A token, and not empty. -/
def validMethod (value : Str) : Bool :=
  if value.length == 0 then false else value.all fun byte => tokenByte byte.toNat

/-- A token, and not empty. -/
def validHeaderName (value : Str) : Bool :=
  validMethod value

/-- One round of `validHeaderValue`. -/
def headerByte (byte : ℕ) : Bool :=
  if byte == 0 || byte == 10 || byte == 13 then false
  else if byte < 32 && byte != 9 then false
  else if byte == 127 then false
  else true

/-- No control byte but the tab. -/
def validHeaderValue (value : Str) : Bool :=
  value.all fun byte => headerByte byte.toNat

/-- All names and values are valid. -/
def validHeaders (headers : LinkedList Header) : Outcome ε Bool := do
  let (valid, _) ← visitHeaders (fun valid header =>
    (if !validHeaderName header.name || !validHeaderValue header.value then false else valid, true))
    headers true
  return valid

/-- The check of the `Content-Length` that was given. -/
def checkLength (contentLength : Option Str) (bodyLength : ℕ) : Outcome RequestError Unit :=
  match contentLength with
  | none => .ok ()
  | some value =>
    match parseU64 value with
    | .error _ => err .invalidHeader
    | .ok parsed => if parsed != bodyLength then err .invalidHeader else .ok ()

/-- The checks of the headers in `validateRequest`. -/
def checkHeaders (request : Request) : Outcome RequestError Unit := do
  let valid ← validHeaders request.headers
  let hosts ← headerCount request.headers (ascii "Host")
  let connections ← headerCount request.headers (ascii "Connection")
  let lengths ← headerCount request.headers (ascii "Content-Length")
  let encodings ← headerCount request.headers (ascii "Transfer-Encoding")
  if !valid then err .invalidHeader
  else if hosts > 1 || connections > 1 || lengths > 1 || encodings != 0 then err .invalidHeader
  else do
    let contentLength ← headerValueFor request.headers (ascii "Content-Length")
    let bodyLength ← request.body.len.mapErr fun _ => RequestError.invalidBody
    checkLength contentLength bodyLength

/-- What is checked before a request is sent. -/
def validateRequest (request : Request) : Outcome RequestError Unit :=
  if !validMethod request.method then err .emptyMethod
  else if !validAbsoluteURL request.url then err .invalidURL
  else if request.maximumResponseSize == 0 then err .invalidResponseLimit
  else if request.maximumRedirects > 100 then err .invalidRedirectLimit
  else if request.timeout.nanoseconds ≤ 0 then err .invalidTimeout
  else checkHeaders request

/-! ### Redirects -/

/-- A status that is followed. -/
def redirectStatus (status : ℤ) : Bool :=
  status == 301 || status == 302 || status == 303 || status == 307 || status == 308

/-- The redirected request drops its method and its body. -/
def redirectsAsGet (status : ℤ) (method : Str) : Bool :=
  if status == 303 then true
  else (status == 301 || status == 302) && equalFoldASCII method (ascii "POST")

/-- The headers that go to the target of a redirect. -/
def retainedHeaders (retainedOrigin : Bool) (headers : LinkedList Header) :
    Outcome ε (LinkedList Header) :=
  if !retainedOrigin then stripSensitiveHeaders headers else .ok headers

/-- The request that goes on as a `GET`, if it does. -/
def continued (status : ℤ) (next : Request) : Outcome ε Request :=
  if redirectsAsGet status next.method then do
    let headers ← removeHeader next.headers (ascii "Content-Length")
    let headers ← removeHeader headers (ascii "Content-Type")
    return { next with method := ascii "GET", body := fromText Text.empty, headers }
  else .ok next

/-- The next request of a chain of redirects, if there is one. -/
def redirectedRequest (request : Request) (response : Response) :
    Outcome ClientError (Option Request) :=
  if !request.followRedirects || !redirectStatus response.status then .ok none
  else do
    match ← headerValueFor response.headers (ascii "Location") with
    | none => return none
    | some location => do
      let target ← (resolveRedirectURL request.url location).mapErr fun _ =>
        ClientError.invalidRedirect
      let headers ← retainedHeaders (sameOrigin request.url target) request.headers
      return some (← continued response.status { request with url := target, headers })

/-! ### Routes -/

/-- A proxy and the value of its `Proxy-Authorization`. -/
structure Proxy where
  url : Str
  authorization : Option Str

/-- `NetworkConfigurationError`, as far as a proxy is concerned. -/
inductive NetworkConfigurationError
  | invalidProxy
  | invalidProxyAuthorization
deriving DecidableEq, Repr

/-- `networkPoolHandle`, as far as a proxy is concerned. -/
structure ProxySettings where
  proxyEnabled : Bool := false
  proxyHost : Str := []
  proxyPort : ℕ := 0
  proxyAuthorization : Str := []
  hasProxyAuthorization : Bool := false
deriving DecidableEq

/-- The part of `openNetworkPool` that looks at the proxy. -/
def openProxy : Option Proxy → Except NetworkConfigurationError ProxySettings
  | none => .ok {}
  | some proxy =>
    match networkTargetFor proxy.url with
    | .error _ => .error .invalidProxy
    | .ok target =>
      if target.secure || target.path != ascii "/" then .error .invalidProxy
      else
        match proxy.authorization with
        | none =>
          .ok { proxyEnabled := true, proxyHost := target.host, proxyPort := target.port }
        | some value =>
          if !validHeaderValue value then .error .invalidProxyAuthorization
          else .ok {
            proxyEnabled := true
            proxyHost := target.host
            proxyPort := target.port
            proxyAuthorization := value
            hasProxyAuthorization := true }

/-- The absolute form of the target, without user information. -/
def proxyRequestTarget (value : Str) : Except RequestError Str := do
  let parts ← parseAbsoluteURL value
  let authority := authorityWithoutUser parts.authority
  if authority.isEmpty then .error .invalidURL
  else do
    let path ← requestPath value parts.pathStart
    .ok (parts.scheme ++ ascii "://" ++ authority ++ path)

/-- `Route`: the request target and the authorization for the proxy. -/
def route (handle : ProxySettings) (target : NetworkTarget) (url : Str) :
    Except RequestError (Str × Option Str) :=
  if !handle.proxyEnabled then .ok (target.path, none)
  else do
    let requestTarget ← proxyRequestTarget url
    .ok (requestTarget,
      if handle.hasProxyAuthorization then some handle.proxyAuthorization else none)

/-! ### Writing -/

/-- The builder after the header `Host`. -/
def writeHost (request : Request) (builder : Str) : Outcome RequestError Str := do
  match ← headerValueFor request.headers (ascii "Host") with
  | none => do
    let target ← lift (match networkTargetFor request.url with
      | .error _ => .error .invalidURL
      | .ok target => .ok target)
    return builder ++ ascii "Host: " ++ target.authority ++ crlf
  | some _ => return builder

/-- The builder after the header `Connection`. -/
def writeConnection (request : Request) (builder : Str) : Outcome RequestError Str := do
  match ← headerValueFor request.headers (ascii "Connection") with
  | none => return builder ++ ascii "Connection: keep-alive" ++ crlf
  | some _ => return builder

/-- The builder after the header `Proxy-Authorization`. -/
def writeProxyAuthorization (request : Request) (proxyAuthorization : Option Str) (builder : Str) :
    Outcome RequestError Str := do
  match ← headerValueFor request.headers (ascii "Proxy-Authorization"), proxyAuthorization with
  | none, some value => return builder ++ ascii "Proxy-Authorization: " ++ value ++ crlf
  | _, _ => return builder

/-- The builder after the header `Content-Length`. -/
def writeLength (request : Request) (bodyLength : ℕ) (builder : Str) :
    Outcome RequestError Str := do
  match ← headerValueFor request.headers (ascii "Content-Length") with
  | none => return builder ++ ascii "Content-Length: " ++ formatU64 bodyLength ++ crlf
  | some _ => return builder

/-- The loop over the headers that were given. -/
def writeHeaders : List Header → Str → Str
  | [], builder => builder
  | header :: headers, builder =>
    writeHeaders headers (builder ++ header.name ++ ascii ": " ++ header.value ++ crlf)

/-- The end of `encodeRequestHead`. -/
def writeGiven (request : Request) (builder : Str) : Outcome RequestError Str := do
  match ← headerValueFor request.headers (ascii "Transfer-Encoding") with
  | some _ => err .invalidHeader
  | none => return writeHeaders request.headers.items builder ++ crlf

/-- **`encodeRequestHead`.** The builder is what was written to it. -/
def encodeRequestHead (request : Request) (requestTarget : Str) (proxyAuthorization : Option Str)
    (bodyLength : ℕ) : Outcome RequestError Str := do
  let builder := request.method ++ ascii " " ++ requestTarget ++ ascii " HTTP/1.1" ++ crlf
  let builder ← writeHost request builder
  let builder ← writeConnection request builder
  let builder ← writeProxyAuthorization request proxyAuthorization builder
  let builder ← writeLength request bodyLength builder
  writeGiven request builder

/-! ### What the loops return -/

theorem restoreHeaders_ok (src : List Header) (hs : LinkedList Header)
    (small : src.length + hs.items.length < 2 ^ 31) :
    ∃ after, (restoreHeaders src hs : Outcome ε _) = .ok after ∧
      after.items = src.reverse ++ hs.items := by
  induction src generalizing hs with
  | nil => exact ⟨hs, rfl, rfl⟩
  | cons header src ih =>
    rw [length_cons] at small
    obtain ⟨longer, pushed, xs⟩ := hs.pushFront_ok (ε := ε) header (by omega)
    obtain ⟨after, ran, final⟩ := ih longer (by rw [xs, length_cons]; omega)
    refine ⟨after, ?_, by simp [final, xs]⟩
    rw [restoreHeaders, pushed]
    exact ran

theorem kept_length_le {α : Type} (visit : σ → α → σ × Bool) (src : List α) (memory : σ) :
    (kept visit src memory).length ≤ src.length := by
  induction src generalizing memory with
  | nil => exact Nat.le_refl _
  | cons item src ih =>
    rw [kept]
    have shorter := ih (visit memory item).1
    split
    · rw [length_cons, length_cons]
      omega
    · rw [length_cons]
      omega

/-- **A loop over headers** never overflows, and leaves them in their order. -/
theorem visitHeaders_ok (visit : σ → Header → σ × Bool) (hs : LinkedList Header) (memory : σ) :
    ∃ after, (visitHeaders visit hs memory : Outcome ε _) =
        .ok (remembered visit hs.items memory, after) ∧
      after.items = kept visit hs.items memory := by
  have bounded := hs.bounded
  obtain ⟨restored, swept, xs⟩ := sweep_ok (ε := ε) visit hs.items memory .newList
    (by rw [LinkedList.newList_items, length_nil]; exact bounded)
  rw [LinkedList.newList_items, append_nil] at xs
  obtain ⟨after, ran, final⟩ := restoreHeaders_ok (ε := ε) restored.items .newList (by
    have := kept_length_le visit hs.items memory
    rw [xs, length_reverse, LinkedList.newList_items, length_nil]
    omega)
  refine ⟨after, ?_, by simp [final, xs]⟩
  change (sweep (fun memory header => .ok (visit memory header)) _ _ _ >>= _) = _
  rw [swept, ok_bind]
  change (restoreHeaders restored.items .newList >>= _) = _
  rw [ran]
  rfl

/-- A loop that only looks leaves the list as it was. -/
theorem visitHeaders_keeps {visit : σ → Header → σ × Bool}
    (all : ∀ memory header, (visit memory header).2 = true) (hs : LinkedList Header)
    (memory : σ) : (visitHeaders visit hs memory : Outcome ε _) =
      .ok (remembered visit hs.items memory, hs) := by
  obtain ⟨_, ran, xs⟩ := visitHeaders_ok (ε := ε) visit hs memory
  rw [kept_all all] at xs
  rw [ran, LinkedList.eq_of_items xs]

end FoundationLang.Httpx
