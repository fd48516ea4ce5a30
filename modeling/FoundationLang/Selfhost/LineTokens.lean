/-
**Where the two tokenizers agree.**

The tokenizers differ in two points: a vertical tab or a form feed is a blank for the bootstrap
compiler only, and the self-hosted compiler writes a byte of a quoted value as a code point.
`lineAlike` scans a line for the places where that matters.
-/

import FoundationLang.Selfhost.Lock

namespace FoundationLang.Selfhost

open Package List

variable {rest : List Char} {byte : Char} {line : List Char}

/-! ### Pieces of aligned texts -/

theorem Aligned.left {before t : List Char} (aligned : Aligned (before ++ t)) :
    Aligned before := by
  refine ⟨fun byte found => ?_, (isChain_append.mp aligned.next).1⟩
  refine aligned.first byte ?_
  rw [List.head?_append, found]
  rfl

theorem Aligned.tail (aligned : Aligned (byte :: rest)) (ascii : byte.toNat < 0x80) :
    Aligned rest := by
  have chain := aligned.next
  rw [isChain_cons] at chain
  exact ⟨fun next found => chain.1 next found ascii, chain.2⟩

theorem Aligned.right {s after : List Char} (aligned : Aligned (s ++ after))
    (ascii : ∀ byte, after.head? = some byte → byte.toNat < 0x80) : Aligned after := by
  refine ⟨fun byte found => ?_, (isChain_append.mp aligned.next).2.1⟩
  have small := ascii byte found
  simp only [continuation, Bool.and_eq_false_iff, decide_eq_false_iff_not]
  omega

theorem Aligned.splitOn {separator : Char} (ascii : separator.toNat < 0x80) {bytes : List Char}
    (aligned : Aligned bytes) : ∀ part ∈ bytes.splitOn separator, Aligned part := by
  induction length : bytes.length using Nat.strong_induction_on generalizing bytes with
  | _ size ih =>
    rcases findFrom_cases separator 0 bytes with ⟨_, absent⟩ | ⟨before, after, _, rfl, absent⟩
    · rw [splitOn_eq_singleton absent]
      intro part mem
      rw [mem_singleton.mp mem]
      exact aligned
    · rw [splitOn_append_cons_self, splitOn_eq_singleton absent]
      have rest : Aligned (separator :: after) := aligned.right (by simp [ascii])
      intro part mem
      rcases mem_append.mp mem with here | later
      · rw [mem_singleton.mp here]
        exact aligned.left
      · refine ih after.length ?_ (rest.tail ascii) rfl part later
        rw [← length, length_append, length_cons]
        omega

/-- **The lines of a text are aligned.** -/
theorem aligned_line (text : String) (mem : line ∈ (utf8 text).toList.splitOn '\n') :
    Aligned (stripReturn line) := by
  have aligned := (aligned_utf8 text).splitOn (by decide) line mem
  unfold stripReturn
  split
  · rename_i last
    rw [← dropLast_append_getLast? _ last] at aligned
    exact aligned.left
  · exact aligned

/-! ### Lines that are read alike -/

/-- A blank of the bootstrap compiler only: a vertical tab or a form feed. -/
def strayBlank (byte : Char) : Bool :=
  isSpace byte && !isPackageSpace byte

/-- Where a scan of a line stands: between tokens, in a bare or a quoted one, or behind a quote. -/
inductive LinePlace
  | between | bare | quoted | closed
deriving DecidableEq, Repr

/-- **No place of a line is read in two ways**: outside quotes and comments there is no stray blank,
and inside quotes every byte is ASCII. The scan ends where both compilers report an error. -/
def lineAlike : LinePlace → List Char → Bool
  | _, [] => true
  | .quoted, '"' :: rest => lineAlike .closed rest
  | .quoted, ['\\'] => true
  | .quoted, '\\' :: escaped :: rest =>
    if escaped = '"' ∨ escaped = '\\' ∨ escaped = 'n' ∨ escaped = 't' then lineAlike .quoted rest
    else true
  | .quoted, byte :: rest => byte.toNat < 0x80 && lineAlike .quoted rest
  | place, byte :: rest =>
    if byte = '#' then true
    else if strayBlank byte then false
    else if isPackageSpace byte then lineAlike .between rest
    else
      match place with
      | .between => if byte = '"' then lineAlike .quoted rest else lineAlike .bare rest
      | .closed => true
      | _ => lineAlike .bare rest

example : lineAlike .between "root a\t1.0.0 # é".toList = true
    ∧ lineAlike .between "package a 1.0.0 d path \"x\\\"y\"".toList = true
    ∧ lineAlike .between (utf8 "foreign c \"é\"").toList = false := by decide +kernel

theorem isSpace_eq (proper : strayBlank byte = false) : isSpace byte = isPackageSpace byte := by
  cases blank : isPackageSpace byte with
  | true =>
    simp only [isPackageSpace, Bool.or_eq_true, beq_iff_eq] at blank
    rcases blank with ((rfl | rfl) | rfl) | rfl <;> decide
  | false =>
    simpa [strayBlank, blank] using proper

theorem writeCodePoint_ascii (ascii : byte.toNat < 0x80) : writeCodePoint byte = [byte] := by
  have size : byte.utf8Size = 1 := by
    rw [Char.utf8Size_eq_one_iff]
    exact Nat.le_of_lt_succ ascii
  unfold writeCodePoint utf8
  rw [String.toList_ofList, String.toList_singleton, flatMap_singleton,
    String.utf8EncodeChar_eq_singleton size]
  have same : byte.val.toUInt8.toNat = byte.toNat := by
    rw [UInt32.toNat_toUInt8]
    exact Nat.mod_eq_of_lt (Nat.lt_of_lt_of_le ascii (by decide))
  rw [map_singleton, same, Char.ofNat_toNat]

/-! ### Tokens agree -/

theorem lineAlike_outside {p : LinePlace} (outside : p ≠ .quoted)
    (alike : lineAlike p (byte :: rest) = true) :
    byte = '#'
      ∨ (byte ≠ '#' ∧ isSpace byte = true ∧ isPackageSpace byte = true
        ∧ lineAlike .between rest = true)
      ∨ byte ≠ '#' ∧ isSpace byte = false ∧ isPackageSpace byte = false
        ∧ (p = .between → byte = '"' → lineAlike .quoted rest = true)
        ∧ (p = .between → byte ≠ '"' → lineAlike .bare rest = true)
        ∧ (p = .bare → lineAlike .bare rest = true) := by
  by_cases comment : byte = '#'
  · exact .inl comment
  have equation : lineAlike p (byte :: rest) = if strayBlank byte then false
      else if isPackageSpace byte then lineAlike .between rest
      else match p with
        | .between => if byte = '"' then lineAlike .quoted rest else lineAlike .bare rest
        | .closed => true
        | _ => lineAlike .bare rest := by
    cases p with
    | quoted => exact absurd rfl outside
    | between | bare | closed => simp [lineAlike, comment]
  rw [equation] at alike
  cases stray : strayBlank byte with
  | true => simp [stray] at alike
  | false =>
    have same := isSpace_eq stray
    cases blank : isPackageSpace byte with
    | true => exact .inr (.inl ⟨comment, same.trans blank, rfl, by simpa [stray, blank] using alike⟩)
    | false =>
      simp only [stray, blank, Bool.false_eq_true, if_false] at alike
      refine .inr (.inr ⟨comment, same.trans blank, rfl, ?_, ?_, ?_⟩)
      · rintro rfl quote
        simpa [quote] using alike
      · rintro rfl quote
        simpa [quote] using alike
      · rintro rfl
        exact alike

theorem ascii_of_isSpace (blank : isSpace byte = true) : byte.toNat < 0x80 := by
  simp only [isSpace, Bool.or_eq_true, beq_iff_eq, Bool.and_eq_true, decide_eq_true_eq] at blank
  rcases blank with rfl | ⟨_, high⟩
  · decide
  · have bound : byte.toNat ≤ 13 := high
    omega

theorem bare_alike (alike : lineAlike .bare rest = true) :
    rest.takeWhile (fun byte => !endsToken isPackageSpace byte)
        = rest.takeWhile (fun byte => !endsToken isSpace byte)
      ∧ rest.dropWhile (fun byte => !endsToken isPackageSpace byte)
        = rest.dropWhile (fun byte => !endsToken isSpace byte)
      ∧ lineAlike .between (rest.dropWhile fun byte => !endsToken isSpace byte) = true
      ∧ ∀ byte, (rest.dropWhile fun byte => !endsToken isSpace byte).head? = some byte →
        byte.toNat < 0x80 := by
  induction rest with
  | nil => simp [lineAlike]
  | cons byte rest ih =>
    rcases lineAlike_outside (by decide) alike with
      rfl | ⟨comment, cpp, self, onward⟩ | ⟨comment, cpp, self, _, _, onward⟩
    · simp [endsToken, lineAlike]
    · have here : lineAlike .between (byte :: rest) = true := by
        have proper : strayBlank byte = false := by simp [strayBlank, self]
        simp [lineAlike, comment, proper, self, onward]
      have ascii := ascii_of_isSpace cpp
      simp [endsToken, cpp, self, here, ascii]
    · obtain ⟨taken, dropped, alike, ascii⟩ := ih (onward rfl)
      simp only [takeWhile_cons, dropWhile_cons, endsToken, cpp, self,
        beq_eq_false_iff_ne.mpr comment, Bool.or_false, Bool.not_false, if_true] at *
      exact ⟨by rw [taken], dropped, alike, ascii⟩

theorem quoted_alike (start : Nat) (i : Nat) {v : List Char}
    (alike : lineAlike .quoted rest = true) (ascii : ∀ byte ∈ v, byte.toNat < 0x80) :
    readQuoted writeCodePoint start i v rest
        = readQuoted (fun byte => [byte]) start i v rest
      ∧ ∀ result after tail,
        readQuoted (fun byte => [byte]) start i v rest = .ok (result, after, tail) →
          (∀ byte ∈ result, byte.toNat < 0x80) ∧ lineAlike .closed tail = true
            ∧ ∃ before, rest = before ++ '"' :: tail := by
  have push {more : List Char} {byte : Char} (small : byte.toNat < 0x80)
      (others : ∀ y ∈ more, y.toNat < 0x80) : ∀ y ∈ more ++ [byte], y.toNat < 0x80 :=
    forall_mem_append.mpr ⟨others, forall_mem_singleton.mpr small⟩
  fun_induction readQuoted (fun byte => [byte]) start i v rest
  case case1 => exact ⟨by rw [readQuoted], by simp⟩
  case case2 i v rest =>
    refine ⟨by rw [readQuoted], ?_⟩
    rintro result after tail read
    cases read
    exact ⟨ascii, by simpa [lineAlike] using alike, [], rfl⟩
  case case3 => exact ⟨by rw [readQuoted], by simp⟩
  case case4 i v escaped rest plain ih =>
    have small : escaped.toNat < 0x80 := by rcases plain with rfl | rfl <;> decide
    have onward : lineAlike .quoted rest = true := by
      rcases plain with rfl | rfl <;> simpa [lineAlike] using alike
    obtain ⟨same, reads⟩ := ih onward (push small ascii)
    refine ⟨?_, fun result after tail read => ?_⟩
    · rw [readQuoted, if_pos plain, writeCodePoint_ascii small, same]
    · obtain ⟨bytes, closed, before, rfl⟩ := reads result after tail read
      exact ⟨bytes, closed, '\\' :: escaped :: before, rfl⟩
  case case5 i v rest plain ih =>
    have onward : lineAlike .quoted rest = true := by simpa [lineAlike] using alike
    obtain ⟨same, reads⟩ := ih onward (push (by decide) ascii)
    refine ⟨?_, fun result after tail read => ?_⟩
    · rw [readQuoted, if_neg (by decide), if_pos rfl, writeCodePoint_ascii (by decide), same]
    · obtain ⟨bytes, closed, before, rfl⟩ := reads result after tail read
      exact ⟨bytes, closed, '\\' :: 'n' :: before, rfl⟩
  case case6 i v rest plain newline ih =>
    have onward : lineAlike .quoted rest = true := by simpa [lineAlike] using alike
    obtain ⟨same, reads⟩ := ih onward (push (by decide) ascii)
    refine ⟨?_, fun result after tail read => ?_⟩
    · rw [readQuoted, if_neg (by decide), if_neg (by decide), if_pos rfl,
        writeCodePoint_ascii (by decide), same]
    · obtain ⟨bytes, closed, before, rfl⟩ := reads result after tail read
      exact ⟨bytes, closed, '\\' :: 't' :: before, rfl⟩
  case case7 i v escaped rest plain newline tab =>
    refine ⟨?_, by simp⟩
    rw [readQuoted, if_neg plain, if_neg newline, if_neg tab]
  case case8 i v byte rest noQuote noEnd noEscape ih =>
    have both : byte.toNat < 0x80 ∧ lineAlike .quoted rest = true := by
      rw [lineAlike, Bool.and_eq_true, decide_eq_true_eq] at alike
      · exact alike
      · exact noQuote
      · exact noEnd
      · exact noEscape
    obtain ⟨same, reads⟩ := ih both.2 (push both.1 ascii)
    refine ⟨?_, fun result after tail read => ?_⟩
    · rw [readQuoted.eq_5 _ _ _ _ _ _ noQuote noEnd noEscape, writeCodePoint_ascii both.1, same]
    · obtain ⟨bytes, closed, before, rfl⟩ := reads result after tail read
      exact ⟨bytes, closed, byte :: before, rfl⟩

theorem tokenizeFrom_quote {space : Char → Bool} {write : Char → List Char}
    (visible : space '"' = false) (i : Nat) (line : List Char) :
    tokenizeFrom space write i ('"' :: line)
      = match readQuoted write i (i + 1) [] line with
        | .error error => .error error
        | .ok (v, after, tail) =>
          if tail.head?.any fun next => !endsToken space next then
            .error (after + 1, "quoted value must end before the next token")
          else (tokenizeFrom space write after tail).map (String.ofList v :: ·) := by
  rw [tokenizeFrom, if_neg (by simp [visible]), if_neg (by decide), if_neg (by decide)]
  split
  · rename_i error failed
    rw [failed]
  · rename_i v after tail read
    rw [read]
    rfl

/-- Both compilers want the same behind a quoted value. -/
theorem closed_alike {tail : List Char} (alike : lineAlike .closed tail = true) :
    (tail.head?.any fun next => !endsToken isPackageSpace next)
        = (tail.head?.any fun next => !endsToken isSpace next)
      ∧ ((tail.head?.any fun next => !endsToken isSpace next) = false →
        lineAlike .between tail = true) := by
  cases tail with
  | nil => simp [lineAlike]
  | cons byte =>
    rcases lineAlike_outside (by decide) alike with
      rfl | ⟨comment, cpp, self, onward⟩ | ⟨comment, cpp, self, _⟩
    · simp [endsToken, lineAlike]
    · have proper : strayBlank byte = false := by simp [strayBlank, self]
      simp [endsToken, cpp, self, lineAlike, comment, proper, onward]
    · simp [endsToken, cpp, self, comment]

theorem map_cons_eq_ok {parsed : Except (Nat × String) (List String)} {v : String}
    {ts : List String} (read : parsed.map (v :: ·) = .ok ts) :
    ∃ values, parsed = .ok values ∧ ts = v :: values := by
  cases parsed with
  | error => cases read
  | ok values =>
    cases read
    exact ⟨values, rfl, rfl⟩

/-- **Both compilers see the same tokens from a place between tokens on.** -/
theorem tokenizeFrom_alike (i : Nat) (alike : lineAlike .between line = true)
    (aligned : Aligned line) :
    tokenizeFrom isPackageSpace writeCodePoint i line
        = tokenizeFrom isSpace (fun byte => [byte]) i line
      ∧ ∀ ts, tokenizeFrom isSpace (fun byte => [byte]) i line = .ok ts →
        ∀ token ∈ ts, Aligned token.toList := by
  induction length : line.length using Nat.strong_induction_on generalizing line i with
  | _ size ih =>
    -- a token of the line, and the tokens behind it
    have step : ∀ {v tail : List Char} {t : Nat}, Aligned v → Aligned tail →
        tail.length < size → lineAlike .between tail = true →
        (tokenizeFrom isPackageSpace writeCodePoint t tail).map (String.ofList v :: ·)
            = (tokenizeFrom isSpace (fun byte => [byte]) t tail).map (String.ofList v :: ·)
          ∧ ∀ ts, (tokenizeFrom isSpace (fun byte => [byte]) t tail).map
              (String.ofList v :: ·) = .ok ts → ∀ token ∈ ts, Aligned token.toList := by
      intro v tail t first rest shorter onward
      obtain ⟨same, reads⟩ := ih tail.length shorter t onward rest rfl
      refine ⟨by rw [same], fun ts read token mem => ?_⟩
      obtain ⟨values, parsed, rfl⟩ := map_cons_eq_ok read
      rcases mem_cons.mp mem with rfl | later
      · rw [String.toList_ofList]
        exact first
      · exact reads values parsed token later
    cases line with
    | nil => simp [tokenizeFrom_nil]
    | cons first rest =>
      rw [length_cons] at length
      rcases lineAlike_outside (by decide) alike with
        rfl | ⟨comment, cpp, self, onward⟩ | ⟨comment, cpp, self, quoted, bare, _⟩
      · rw [tokenizeFrom, tokenizeFrom]
        simp [isSpace, isPackageSpace]
      · rw [tokenizeFrom_blank cpp, tokenizeFrom_blank self]
        exact ih rest.length (by omega) (i + 1) onward
          (aligned.tail (ascii_of_isSpace cpp)) rfl
      · by_cases quote : first = '"'
        · subst quote
          have nothing : ∀ byte ∈ ([] : List Char), byte.toNat < 0x80 := by simp
          obtain ⟨same, reads⟩ := quoted_alike i (i + 1) (quoted rfl rfl) nothing
          rw [tokenizeFrom_quote cpp, tokenizeFrom_quote self, same]
          cases read : readQuoted (fun byte => [byte]) i (i + 1) [] rest with
          | error => simp
          | ok result =>
            obtain ⟨v, t, tail⟩ := result
            obtain ⟨ascii, closed, before, rfl⟩ := reads v t tail read
            obtain ⟨ends, onward⟩ := closed_alike closed
            rw [← cons_append] at aligned
            have behind : Aligned ('"' :: tail) := aligned.right (by simp)
            dsimp only
            rw [ends]
            cases follows : (tail.head?.any fun next => !endsToken isSpace next) with
            | true => simp
            | false =>
              refine step (aligned_of_ascii ascii) (behind.tail (by decide)) ?_ (onward follows)
              rw [← length, length_append, length_cons]
              omega
        · obtain ⟨taken, dropped, onward, ascii⟩ := bare_alike (bare rfl quote)
          have shorter := (dropWhile_suffix (l := rest)
            fun byte => !endsToken isSpace byte).length_le
          have whole : first :: rest = (first :: rest.takeWhile fun byte => !endsToken isSpace byte)
              ++ rest.dropWhile fun byte => !endsToken isSpace byte := by
            rw [cons_append, takeWhile_append_dropWhile]
          rw [whole] at aligned
          rw [tokenizeFrom, tokenizeFrom, if_neg (by simp [self]), if_neg comment, if_pos quote,
            if_neg (by simp [cpp]), if_neg comment, if_pos quote]
          rw [taken, dropped]
          exact step aligned.left (aligned.right ascii) (by omega) onward

/-- **Both compilers see the same tokens on a line that is read alike.** -/
theorem tokenizePackageLine_eq (alike : lineAlike .between line = true)
    (aligned : Aligned line) :
    tokenizePackageLine (String.ofList line) = tokenize (String.ofList line)
      ∧ ∀ ts, tokenize (String.ofList line) = .ok ts →
        ∀ token ∈ ts, Aligned token.toList := by
  unfold tokenizePackageLine tokenize tokenizeWith
  rw [String.toList_ofList]
  exact tokenizeFrom_alike 0 alike aligned

end FoundationLang.Selfhost
