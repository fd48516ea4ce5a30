/-
**URLs in `foundation.httpx`.**

Loops over the bytes of a string are recursions over the rest of it, so that no offset is out of range.
-/

import FoundationLang.Standard.Strings

namespace FoundationLang.Httpx

open Library Outcome Standard

/-- Why a request is refused. -/
inductive RequestError
  | emptyMethod
  | invalidURL
  | invalidHeader
  | invalidResponseLimit
  | invalidRedirectLimit
  | invalidTimeout
  | invalidBody
deriving DecidableEq, Repr

/-- The scheme, the authority and the start of the path. -/
structure UrlParts where
  scheme : Str
  authority : Str
  pathStart : ℕ
deriving DecidableEq, Repr

/-- The host, the port and the path that a URL asks for. -/
structure NetworkTarget where
  host : Str
  authority : Str
  path : Str
  port : ℕ
  secure : Bool
deriving DecidableEq, Repr

/-! ### Bytes -/

/-- `urlByteAt`. It is called with offsets inside the string only. -/
def urlByteAt (value : Str) (offset : ℕ) : ℕ :=
  (value.getD offset 0).toNat

/-- Where one of two bytes comes first, from an offset on; 0 is no second one. -/
def firstByteOf (value : Str) (start first second : ℕ) : ℕ :=
  firstByte (fun byte => byte == first || (second != 0 && byte == second)) value start

/-- An upper-case letter in lower case. -/
def lowerASCII (value : ℕ) : ℕ :=
  if value ≥ 65 ∧ value ≤ 90 then value + 32 else value

/-- The loop of `equalFoldASCII`, over strings of the same length. -/
def foldsEqual : Str → Str → Bool
  | left :: lefts, right :: rights =>
    if lowerASCII left.toNat != lowerASCII right.toNat then false else foldsEqual lefts rights
  | _, _ => true

/-- Texts that are equal up to the case of ASCII letters. -/
def equalFoldASCII (left right : Str) : Bool :=
  if left.length != right.length then false else foldsEqual left right

/-- A hexadecimal digit. -/
def hexByte (value : ℕ) : Bool :=
  (value ≥ 48 && value ≤ 57) || (value ≥ 65 && value ≤ 70) || (value ≥ 97 && value ≤ 102)

/-- No blank, slash, backslash or control byte. -/
def validAuthority (value : Str) : Bool :=
  !value.isEmpty && value.all fun byte =>
    !(byte.toNat ≤ 32 || byte.toNat == 47 || byte.toNat == 92 || byte.toNat == 127)

/-- `validURLBytes`. Behind `%` there are two hexadecimal digits. -/
def validURLBytes : Str → Bool
  | [] => true
  | byte :: rest =>
    if byte.toNat ≤ 32 || byte.toNat ≥ 127 then false
    else if byte.toNat == 37 then
      match rest with
      | first :: second :: rest =>
        if !hexByte first.toNat || !hexByte second.toNat then false else validURLBytes rest
      | _ => false
    else validURLBytes rest

/-- The loop of `hasSchemePrefix`. -/
def schemeGoesOn : Str → Bool
  | [] => false
  | byte :: rest =>
    if byte.toNat == 58 then true
    else if byte.toNat == 47 || byte.toNat == 63 || byte.toNat == 35 then false
    else if !((byte.toNat ≥ 65 && byte.toNat ≤ 90) || (byte.toNat ≥ 97 && byte.toNat ≤ 122) ||
        (byte.toNat ≥ 48 && byte.toNat ≤ 57) || byte.toNat == 43 || byte.toNat == 45 ||
        byte.toNat == 46) then false
    else schemeGoesOn rest

/-- A scheme and a colon in front of any slash. -/
def hasSchemePrefix : Str → Bool
  | [] => false
  | first :: rest =>
    if !((first.toNat ≥ 65 && first.toNat ≤ 90) || (first.toNat ≥ 97 && first.toNat ≤ 122)) then
      false
    else schemeGoesOn rest

/-- `urlSlice`, and the other places where an error of `Slice` becomes `InvalidURL`. -/
def urlSlice (value : Str) (start stop : ℕ) : Except RequestError Str :=
  match Str.slice value start stop with
  | .error _ => .error .invalidURL
  | .ok result => .ok result

/-! ### Absolute URLs -/

/-- `parseAbsoluteURL` behind the scheme. -/
def parseAuthority (value scheme : Str) (authorityStart : ℕ) : Except RequestError UrlParts :=
  let authorityEnd := firstByteOf value authorityStart 47 63
  let completeAuthorityEnd := firstByteOf value authorityStart 35 0
  let selectedEnd :=
    if authorityEnd < completeAuthorityEnd then authorityEnd else completeAuthorityEnd
  if selectedEnd ≤ authorityStart then .error .invalidURL
  else do
    let authority ← urlSlice value authorityStart selectedEnd
    if !validAuthority authority || !validURLBytes value then .error .invalidURL
    else .ok ⟨scheme, authority, selectedEnd⟩

/-- An absolute URL of `http` or `https`. -/
def parseAbsoluteURL (value : Str) : Except RequestError UrlParts :=
  match Str.find value (ascii "://") with
  | none => .error .invalidURL
  | some schemeEnd =>
    if schemeEnd == 0 then .error .invalidURL
    else do
      let scheme ← urlSlice value 0 schemeEnd
      if !equalFoldASCII scheme (ascii "http") && !equalFoldASCII scheme (ascii "https") then
        .error .invalidURL
      else parseAuthority value scheme (schemeEnd + 3)

/-- What is behind the last `@`. -/
def authorityWithoutUser (authority : Str) : Str :=
  let offset := lastByte authority 0 authority.length 64
  if offset == authority.length then authority
  else
    match Str.slice authority (offset + 1) authority.length with
    | .error _ => []
    | .ok host => host

/-- A port from 1 to 65535. -/
def parsePort (value : Str) : Except RequestError ℕ :=
  if value.isEmpty then .error .invalidURL
  else
    match parseU64 value with
    | .error _ => .error .invalidURL
    | .ok port => if port == 0 || port > 65535 then .error .invalidURL else .ok port

/-- The target that `splitHostPort` returns. -/
def hostPort (host : Str) (port : ℕ) : NetworkTarget :=
  ⟨host, [], [], port, false⟩

/-- The host, in brackets or not, and the port or the default of the scheme. -/
def splitHostPort (authority scheme : Str) : Except RequestError NetworkTarget :=
  let defaultPort := if equalFoldASCII scheme (ascii "https") then 443 else 80
  let length := authority.length
  if length == 0 then .error .invalidURL
  else if urlByteAt authority 0 == 91 then
    let closing := firstByteOf authority 1 93 0
    if closing ≥ length then .error .invalidURL
    else do
      let host ← urlSlice authority 1 closing
      if host.isEmpty then .error .invalidURL
      else if closing + 1 == length then .ok (hostPort host defaultPort)
      else if urlByteAt authority (closing + 1) != 58 then .error .invalidURL
      else do
        let portText ← urlSlice authority (closing + 2) length
        let port ← parsePort portText
        .ok (hostPort host port)
  else
    let colon := lastByte authority 0 length 58
    if colon == length then .ok (hostPort authority defaultPort)
    else if firstByteOf authority 0 58 0 != colon then .error .invalidURL
    else do
      let host ← urlSlice authority 0 colon
      let portText ← urlSlice authority (colon + 1) length
      if host.isEmpty then .error .invalidURL
      else do
        let port ← parsePort portText
        .ok (hostPort host port)

/-- The path and the query; a missing path is a slash. -/
def requestPath (value : Str) (start : ℕ) : Except RequestError Str :=
  let stop := firstByteOf value start 35 0
  if start ≥ stop then .ok (ascii "/")
  else do
    let path ← urlSlice value start stop
    if Str.startsWith path (ascii "?") then .ok (ascii "/" ++ path) else .ok path

/-- Where a URL leads to. -/
def networkTargetFor (value : Str) : Except RequestError NetworkTarget := do
  let parts ← parseAbsoluteURL value
  let authority := authorityWithoutUser parts.authority
  if authority.isEmpty then .error .invalidURL
  else do
    let hostPort ← splitHostPort authority parts.scheme
    let targetPath ← requestPath value parts.pathStart
    let secure := equalFoldASCII parts.scheme (ascii "https")
    .ok ⟨hostPort.host, authority, targetPath, hostPort.port, secure⟩

/-- The URL can be parsed. -/
def validAbsoluteURL (value : Str) : Bool :=
  match networkTargetFor value with
  | .error _ => false
  | .ok _ => true

/-- Two URLs with the same scheme, host and port. -/
def sameOrigin (left right : Str) : Bool :=
  match parseAbsoluteURL left, parseAbsoluteURL right, networkTargetFor left,
    networkTargetFor right with
  | .ok leftParts, .ok rightParts, .ok leftTarget, .ok rightTarget =>
    equalFoldASCII leftParts.scheme rightParts.scheme &&
      equalFoldASCII leftTarget.host rightTarget.host && leftTarget.port == rightTarget.port
  | _, _, _, _ => false

/-! ### Redirects -/

/-- A redirect target that can be parsed. -/
def validatedRedirectURL (value : Str) : Except RequestError Str :=
  if !validAbsoluteURL value then .error .invalidURL else .ok value

/-- The path in front of its last slash. -/
def removeLastPathSegment (value : Str) : Outcome RequestError Str :=
  let length := value.length
  if length == 0 then .ok []
  else
    let slash := lastByte value 0 length 47
    if slash == length then .ok []
    else
      match Str.slice value 0 slash with
      | .error _ => panic (.message "httpx path segment invariant failed")
      | .ok result => .ok result

/-- A function that cannot panic, among those that can. -/
def lift {α : Type} : Except RequestError α → Outcome RequestError α
  | .error error => err error
  | .ok value => .ok value

/-- Where the first segment of the input of `removeDotSegments` ends. -/
def segmentEnd (input : Str) : ℕ :=
  let length := input.length
  let searchStart := if urlByteAt input 0 == 47 then 1 else 0
  let slash := firstByteOf input searchStart 47 0
  if slash < length then slash else length

/-- One round of `removeDotSegments`, with the input and the output. -/
def dotRound (input output : Str) : Outcome RequestError (Str × Str) :=
  if Str.startsWith input (ascii "../") then do
    return (← lift (urlSlice input 3 input.length), output)
  else if Str.startsWith input (ascii "./") then do
    return (← lift (urlSlice input 2 input.length), output)
  else if Str.startsWith input (ascii "/./") then do
    let tail ← lift (urlSlice input 3 input.length)
    return (ascii "/" ++ tail, output)
  else if input == ascii "/." then .ok (ascii "/", output)
  else if Str.startsWith input (ascii "/../") then do
    let tail ← lift (urlSlice input 4 input.length)
    return (ascii "/" ++ tail, ← removeLastPathSegment output)
  else if input == ascii "/.." then do
    return (ascii "/", ← removeLastPathSegment output)
  else if input == ascii "." || input == ascii ".." then .ok ([], output)
  else do
    let segment ← lift (urlSlice input 0 (segmentEnd input))
    let tail ← lift (urlSlice input (segmentEnd input) input.length)
    return (tail, output ++ segment)

/-- The loop of `removeDotSegments`; every round shortens the input. -/
def dotLoop : ℕ → Str → Str → Outcome RequestError Str
  | 0, _, output => .ok output
  | rounds + 1, input, output =>
    if input.isEmpty then .ok output
    else do
      let (input, output) ← dotRound input output
      dotLoop rounds input output

/-- A path without dot segments. -/
def removeDotSegments (value : Str) : Outcome RequestError Str :=
  dotLoop value.length value []

/-- The path of the base up to its last slash. -/
def baseDirectory (value : Str) (start stop : ℕ) : Except RequestError Str :=
  if start ≥ stop then .ok (ascii "/")
  else
    let slash := lastByte value start stop 47
    if slash == stop then .ok (ascii "/") else urlSlice value start (slash + 1)

/-- The text in front of `#`. -/
def withoutFragment (value : Str) : Outcome RequestError Str :=
  match Str.slice value 0 (firstByteOf value 0 35 0) with
  | .error _ => panic (.message "httpx fragment offset invariant failed")
  | .ok result => .ok result

/-- The text in front of `?` and `#`. -/
def withoutQueryOrFragment (value : Str) : Outcome RequestError Str :=
  match Str.slice value 0 (firstByteOf value 0 63 35) with
  | .error _ => panic (.message "httpx query offset invariant failed")
  | .ok result => .ok result

/-- An absolute redirect target with its path normalised. -/
def normalizeAbsoluteRedirect (value : Str) : Outcome RequestError Str := do
  let parts ← lift (parseAbsoluteURL value)
  let pathEnd := firstByteOf value parts.pathStart 63 35
  let path ← lift (urlSlice value parts.pathStart pathEnd)
  let suffix ← lift (urlSlice value pathEnd value.length)
  let normalized ← removeDotSegments path
  lift (validatedRedirectURL
    (parts.scheme ++ ascii "://" ++ parts.authority ++ normalized ++ suffix))

/-- The end of `resolveRedirectURL`: a location that is a relative path. -/
def resolveRelativePath (base location : Str) (parts : UrlParts) : Outcome RequestError Str := do
  let pathEnd := firstByteOf base parts.pathStart 63 35
  let directory ← lift (baseDirectory base parts.pathStart pathEnd)
  let locationPathEnd := firstByteOf location 0 63 35
  let locationPath ← lift (urlSlice location 0 locationPathEnd)
  let locationSuffix ← lift (urlSlice location locationPathEnd location.length)
  let path ← removeDotSegments (directory ++ locationPath)
  lift (validatedRedirectURL
    (parts.scheme ++ ascii "://" ++ parts.authority ++ path ++ locationSuffix))

/-- `resolveRedirectURL`, for a location that is no absolute URL. -/
def resolveReference (base location : Str) (parts : UrlParts) : Outcome RequestError Str :=
  if hasSchemePrefix location then err .invalidURL
  else if Str.startsWith location (ascii "//") then
    normalizeAbsoluteRedirect (parts.scheme ++ ascii ":" ++ location)
  else if location.isEmpty then do
    lift (validatedRedirectURL (← withoutFragment base))
  else if Str.startsWith location (ascii "#") then do
    lift (validatedRedirectURL ((← withoutFragment base) ++ location))
  else if Str.startsWith location (ascii "?") then do
    lift (validatedRedirectURL ((← withoutQueryOrFragment base) ++ location))
  else if Str.startsWith location (ascii "/") then
    normalizeAbsoluteRedirect (parts.scheme ++ ascii "://" ++ parts.authority ++ location)
  else resolveRelativePath base location parts

/-- What a redirect leads to. -/
def resolveRedirectURL (base location : Str) : Outcome RequestError Str :=
  if validAbsoluteURL location then normalizeAbsoluteRedirect location
  else do
    let parts ← lift (parseAbsoluteURL base)
    resolveReference base location parts

end FoundationLang.Httpx
