/-
**Lines of tokens.**

The text layer under manifests and locks: a file is split into lines, a line into tokens, and a token
that could not stand bare is quoted. A character of a `String` stands for one byte of the source's
strings.
-/

import FoundationLang.Library.Positions
import FoundationLang.Package.Manifest

namespace FoundationLang.Package

open List

/-! ### Characters -/

/-- `std::isspace` of the C locale. -/
def isSpace (byte : Char) : Bool :=
  byte == ' ' || ('\t' ≤ byte && byte ≤ '\r')

/-- `std::isalpha` of the C locale. -/
def isAlpha (byte : Char) : Bool :=
  ('A' ≤ byte && byte ≤ 'Z') || ('a' ≤ byte && byte ≤ 'z')

/-- `std::isalnum` of the C locale. -/
def isAlnum (byte : Char) : Bool :=
  isAlpha byte || isDigit byte

/-! ### Tokens of a line -/

section Tokenizer

variable (space : Char → Bool) (write : Char → List Char)

/-- A bare token ends before this byte. -/
def endsToken (byte : Char) : Bool :=
  space byte || byte == '#'

/-- The loop over a quoted value, after its opening quote: the value, the offset behind the closing
quote and the rest of the line, or the column and the text of an error. -/
def readQuoted (start : Nat) :
    Nat → List Char → List Char → Except (Nat × String) (List Char × Nat × List Char)
  | _, _, [] => .error (start + 1, "unterminated quoted value")
  | offset, value, '"' :: rest => .ok (value, offset + 1, rest)
  | _, _, ['\\'] => .error (start + 1, "unterminated quoted value")
  | offset, value, '\\' :: escaped :: rest =>
    if escaped = '"' ∨ escaped = '\\' then
      readQuoted start (offset + 2) (value ++ write escaped) rest
    else if escaped = 'n' then readQuoted start (offset + 2) (value ++ write '\n') rest
    else if escaped = 't' then readQuoted start (offset + 2) (value ++ write '\t') rest
    else .error (offset + 2, "unsupported escape in quoted value")
  | offset, value, byte :: rest => readQuoted start (offset + 1) (value ++ write byte) rest

theorem readQuoted_length {start i : Nat} {v rest r : List Char} {t : Nat}
    {line : List Char} (read : readQuoted write start i v line = .ok (r, t, rest)) :
    rest.length < line.length := by
  fun_induction readQuoted write start i v line
  case case1 | case3 | case7 => cases read
  case case2 =>
    cases read
    simp
  case case4 ih | case5 ih | case6 ih | case8 ih =>
    have := ih read
    simp only [length_cons]
    omega

/-- The loop over a line, from an offset on. -/
def tokenizeFrom (offset : Nat) : List Char → Except (Nat × String) (List String)
  | [] => .ok []
  | first :: rest =>
    if space first then tokenizeFrom (offset + 1) rest
    else if first = '#' then .ok []
    else if first ≠ '"' then do
      let value := first :: rest.takeWhile fun byte => !endsToken space byte
      let values ← tokenizeFrom (offset + value.length)
        (rest.dropWhile fun byte => !endsToken space byte)
      .ok (String.ofList value :: values)
    else
      match read : readQuoted write offset (offset + 1) [] rest with
      | .error error => .error error
      | .ok (value, after, tail) =>
        if tail.head?.any fun next => !endsToken space next then
          .error (after + 1, "quoted value must end before the next token")
        else do
          let values ← tokenizeFrom after tail
          .ok (String.ofList value :: values)
termination_by line => line.length
decreasing_by
  · simp
  · have skip := (dropWhile_suffix (l := rest) fun byte => !endsToken space byte).length_le
    simp only [length_cons]
    omega
  · have shorter := readQuoted_length write read
    simp only [length_cons]
    omega

/-- The tokens of a line, or the column and the text of an error. -/
def tokenizeWith (line : String) : Except (Nat × String) (List String) :=
  tokenizeFrom space write 0 line.toList

/-- A byte of a quoted value. -/
def escapeWith (byte : Char) : List Char :=
  if byte = '"' ∨ byte = '\\' then '\\' :: write byte
  else if byte = '\n' then ['\\', 'n']
  else if byte = '\t' then ['\\', 't']
  else write byte

/-- A value that cannot stand bare. -/
def quoteRequired (value : String) : Bool :=
  value.isEmpty || value.toList.any fun byte =>
    space byte || byte == '#' || byte == '"' || byte == '\\'

/-- A value as it is written. -/
def quoteWith (value : String) : String :=
  if quoteRequired space value then
    String.ofList ('"' :: value.toList.flatMap (escapeWith write) ++ ['"'])
  else value

end Tokenizer

/-- The tokens of one line, or the column and the text of an error. -/
def tokenize (line : String) : Except (Nat × String) (List String) :=
  tokenizeWith isSpace (fun byte => [byte]) line

/-- A text as one token. -/
def quote (value : String) : String :=
  quoteWith isSpace (fun byte => [byte]) value

example : tokenize "dependency a \"x \\\"y\" # comment" = .ok ["dependency", "a", "x \"y"] := by
  decide +kernel

/-! ### Lines of a file -/

/-- One trailing carriage return is not part of the line. -/
def stripReturn (line : List Char) : List Char :=
  if line.getLast? = some '\r' then line.dropLast else line

/-- `lines`: the callback gets the tokens of every line that has some, with the number of the line.
`tokens` is the tokenizer and `addError` what the caller does with an error. -/
def linesWith {σ : Type} (tokens : String → Except (Nat × String) (List String))
    (addError : σ → PackageError → σ) (callback : String → List String → Nat → σ → σ)
    (path source : String) (state : σ) : σ :=
  ((source.toList.splitOn '\n').zipIdx 1).foldl (fun state (line, number) =>
    match tokens (String.ofList (stripReturn line)) with
    | .error (column, message) => addError state ⟨path, number, column, "FDN4003", message⟩
    | .ok [] => state
    | .ok (directive :: arguments) => callback directive arguments number state) state

/-- `lines`, for a state of the caller that collects errors. -/
def lines {σ : Type} (addError : σ → PackageError → σ)
    (callback : String → List String → Nat → σ → σ) (path source : String) (state : σ) : σ :=
  linesWith tokenize addError callback path source state

/-- **What every error and every callback keeps, the splitter keeps.** -/
theorem linesWith_keeps {σ : Type} {ts : String → Except (Nat × String) (List String)}
    {addError : σ → PackageError → σ} {callback : String → List String → Nat → σ → σ}
    (kept : σ → Prop) (path src : String) {state : σ} (holds : kept state)
    (report : ∀ state error, kept state → kept (addError state error))
    (handle : ∀ directive args line state, kept state →
      kept (callback directive args line state)) :
    kept (linesWith ts addError callback path src state) := by
  unfold linesWith
  generalize (src.toList.splitOn '\n').zipIdx 1 = numbered
  induction numbered generalizing state with
  | nil => exact holds
  | cons x rest ih =>
    rw [foldl_cons]
    refine ih ?_
    obtain ⟨_, _⟩ := x
    simp only
    split
    · exact report _ _ holds
    · exact holds
    · exact handle _ _ _ _ holds

/-! ### Equations of the tokenizer -/

section Equations

variable {space : Char → Bool} {write : Char → List Char}

theorem tokenizeFrom_nil (i : Nat) : tokenizeFrom space write i [] = .ok [] := by
  rw [tokenizeFrom]

theorem tokenizeFrom_blank {b : Char} (blank : space b = true) (i : Nat)
    (rest : List Char) :
    tokenizeFrom space write i (b :: rest)
      = tokenizeFrom space write (i + 1) rest := by
  rw [tokenizeFrom, if_pos blank]

theorem tokenizeFrom_bare {x : Char} {value tail : List Char} (i : Nat)
    (unquoted : x ≠ '"') (bare : ∀ b ∈ x :: value, endsToken space b = false)
    (stops : ∀ b, tail.head? = some b → endsToken space b = true) :
    tokenizeFrom space write i (x :: (value ++ tail))
      = (tokenizeFrom space write (i + (value.length + 1)) tail).map
        (String.ofList (x :: value) :: ·) := by
  have starts := bare x (by simp)
  simp only [endsToken, Bool.or_eq_false_iff, beq_eq_false_iff_ne] at starts
  have inner (b : Char) (mem : b ∈ value) : (!endsToken space b) = true := by
    rw [bare b (mem_cons_of_mem x mem)]
    rfl
  have before : (value ++ tail).takeWhile (fun b => !endsToken space b) = value := by
    rw [takeWhile_append_of_pos inner]
    cases tail with
    | nil => simp
    | cons next => simp [stops next rfl]
  have after : (value ++ tail).dropWhile (fun b => !endsToken space b) = tail := by
    rw [dropWhile_append_of_pos inner]
    cases tail with
    | nil => simp
    | cons next => simp [stops next rfl]
  rw [tokenizeFrom, if_neg (by simp [starts.1]), if_neg starts.2, if_pos unquoted]
  simp only [before, after, length_cons]
  rfl

theorem tokenizeFrom_quoted {i t : Nat} {line v tail : List Char}
    (visible : space '"' = false)
    (read : readQuoted write i (i + 1) [] line = .ok (v, t, tail))
    (stops : ∀ b, tail.head? = some b → endsToken space b = true) :
    tokenizeFrom space write i ('"' :: line)
      = (tokenizeFrom space write t tail).map (String.ofList v :: ·) := by
  have ended : (tail.head?.any fun next => !endsToken space next) = false := by
    cases next : tail.head? with
    | none => rfl
    | some b => simp [stops b next]
  rw [tokenizeFrom, if_neg (by simp [visible]), if_neg (by decide), if_neg (by decide)]
  split
  case h_1 error failed =>
    rw [failed] at read
    cases read
  case h_2 found =>
    rw [found] at read
    cases read
    rw [if_neg (by simp [ended])]
    rfl

end Equations

/-! ### What is quoted is read back -/

section Reread

variable {space : Char → Bool} {write : Char → List Char} {reread : Char → List Char}

/-- What a value becomes that is written and read again. -/
def rereadText (space : Char → Bool) (reread : Char → List Char) (value : String) : String :=
  if quoteRequired space value then String.ofList (value.toList.flatMap reread) else value

/-- A byte of a quoted value, as it is written, is read as `reread` says. -/
def Rereads (write reread : Char → List Char) : Prop :=
  ∀ (start offset : Nat) (value : List Char) (byte : Char) (rest : List Char),
    readQuoted write start offset value (escapeWith write byte ++ rest)
      = readQuoted write start (offset + (escapeWith write byte).length) (value ++ reread byte) rest

theorem readQuoted_flatMap_escapeWith (rereads : Rereads write reread) (start i : Nat)
    (v r tail : List Char) :
    readQuoted write start i v (r.flatMap (escapeWith write) ++ '"' :: tail)
      = .ok (v ++ r.flatMap reread,
          i + (r.flatMap (escapeWith write)).length + 1, tail) := by
  induction r generalizing i v with
  | nil =>
    simp only [flatMap_nil, nil_append, append_nil, length_nil, Nat.add_zero]
    rw [readQuoted]
  | cons b rest ih =>
    rw [flatMap_cons, append_assoc, rereads, ih, append_assoc,
      flatMap_cons, length_append]
    simp only [Nat.add_assoc]

/-- **A token that was written is read again.** -/
theorem tokenizeFrom_quoteWith (visible : space '"' = false) (rereads : Rereads write reread)
    (i : Nat) (token : String) {tail : List Char}
    (stops : ∀ b, tail.head? = some b → endsToken space b = true) :
    ∃ after, tokenizeFrom space write i ((quoteWith space write token).toList ++ tail)
      = (tokenizeFrom space write after tail).map (rereadText space reread token :: ·) := by
  unfold quoteWith rereadText
  by_cases required : quoteRequired space token = true
  · rw [if_pos required, if_pos required, String.toList_ofList]
    have read := readQuoted_flatMap_escapeWith rereads i (i + 1) [] token.toList tail
    rw [nil_append] at read
    refine ⟨i + 1 + (token.toList.flatMap (escapeWith write)).length + 1, ?_⟩
    rw [cons_append, cons_append, append_assoc, singleton_append]
    rw [tokenizeFrom_quoted visible read stops]
  · rw [if_neg required, if_neg required]
    simp only [quoteRequired, Bool.not_eq_true, any_eq_false, beq_iff_eq, Bool.or_eq_true,
      not_or] at required
    obtain ⟨nonempty, plain⟩ := required
    cases characters : token.toList with
    | nil =>
      rw [String.toList_eq_nil_iff] at characters
      simp [characters] at nonempty
    | cons x v =>
      rw [characters] at plain
      refine ⟨i + (v.length + 1), ?_⟩
      rw [cons_append, tokenizeFrom_bare i (plain x (by simp)).1.2 ?_ stops,
        ← characters, String.ofList_toList]
      intro b mem
      obtain ⟨⟨⟨blank, comment⟩, _⟩, _⟩ := plain b mem
      simp [endsToken, blank, comment]

/-- Texts with blanks between them. -/
theorem toList_spaced {α : Type} (render : α → String) (x : α) (rest : List α) :
    (" ".intercalate ((x :: rest).map render)).toList
      = (render x).toList ++ rest.flatMap fun token => ' ' :: (render token).toList := by
  rw [String.toList_intercalate]
  induction rest generalizing x with
  | nil => simp
  | cons y rest ih =>
    have tail := ih y
    simp only [map_cons, flatMap_cons] at tail ⊢
    rw [intercalate_cons_cons, tail]
    simp

/-- A token ends where the next one is set off. -/
theorem stops_flatMap (blank : space ' ' = true) (ts : List String) (b : Char)
    (head : (ts.flatMap fun token => ' ' :: (quoteWith space write token).toList).head?
      = some b) : endsToken space b = true := by
  cases ts with
  | nil => cases head
  | cons =>
    cases head
    simp [endsToken, blank]

theorem tokenizeFrom_flatMap (blank : space ' ' = true) (visible : space '"' = false)
    (rereads : Rereads write reread) (i : Nat) (ts : List String) :
    tokenizeFrom space write i
      (ts.flatMap fun token => ' ' :: (quoteWith space write token).toList)
      = .ok (ts.map (rereadText space reread)) := by
  induction ts generalizing i with
  | nil => exact tokenizeFrom_nil i
  | cons x rest ih =>
    rw [flatMap_cons, cons_append, tokenizeFrom_blank blank]
    obtain ⟨_, read⟩ := tokenizeFrom_quoteWith visible rereads (i + 1) x
      (stops_flatMap blank rest)
    rw [read, ih]
    rfl

/-- **The tokens of a line are those that were written**, as they are read again. -/
theorem tokenizeWith_spaced (blank : space ' ' = true) (visible : space '"' = false)
    (rereads : Rereads write reread) (ts : List String) :
    tokenizeWith space write (" ".intercalate (ts.map (quoteWith space write)))
      = .ok (ts.map (rereadText space reread)) := by
  unfold tokenizeWith
  cases ts with
  | nil =>
    show tokenizeFrom _ _ _ [] = _
    exact tokenizeFrom_nil 0
  | cons x rest =>
    rw [toList_spaced]
    obtain ⟨_, read⟩ := tokenizeFrom_quoteWith visible rereads 0 x (stops_flatMap blank rest)
    rw [read, tokenizeFrom_flatMap blank visible rereads]
    rfl

end Reread

/-- A byte of a quoted value, in `package.cpp`. -/
abbrev escape : Char → List Char :=
  escapeWith fun byte => [byte]

theorem rereads_byte : Rereads (fun b => [b]) fun b => [b] := by
  intro start offset v b rest
  unfold escapeWith
  by_cases special : b = '"' ∨ b = '\\'
  · rw [if_pos special]
    rcases special with rfl | rfl
    · rfl
    · rfl
  · rw [if_neg special]
    by_cases newline : b = '\n'
    · subst newline
      rfl
    · rw [if_neg newline]
      by_cases tab : b = '\t'
      · subst tab
        rfl
      · rw [if_neg tab, singleton_append, readQuoted.eq_5]
        · rfl
        · exact fun same => special (.inl same)
        · exact fun same => absurd same fun same => special (.inr same)
        · exact fun _ _ same => absurd same fun same => special (.inr same)

/-- Tokens between blanks. -/
def lineText (tokens : List String) : String :=
  " ".intercalate (tokens.map quote)

theorem lineText_singleton (token : String) : lineText [token] = quote token := by
  simp [lineText]

theorem lineText_cons_cons (x y : String) (rest : List String) :
    lineText (x :: y :: rest) = quote x ++ " " ++ lineText (y :: rest) := by
  simp [lineText]

theorem toList_lineText_cons (x : String) (rest : List String) :
    (lineText (x :: rest)).toList
      = (quote x).toList ++ rest.flatMap fun token => ' ' :: (quote token).toList :=
  toList_spaced quote x rest

/-- **The tokens of a line are those it was made from.** -/
theorem tokenize_lineText (tokens : List String) : tokenize (lineText tokens) = .ok tokens := by
  have same : rereadText isSpace (fun b => [b]) = id := by
    funext v
    unfold rereadText
    rw [flatMap_singleton', String.ofList_toList, ite_self]
    rfl
  refine (tokenizeWith_spaced (by decide) (by decide) rereads_byte tokens).trans ?_
  rw [same, map_id]

/-! ### A text of lines -/

/-- The text of a file that holds these lines. -/
def linesText (file : List (List String)) : String :=
  String.join (file.map fun tokens => lineText tokens ++ "\n")

theorem linesText_cons (x : List String) (rest : List (List String)) :
    linesText (x :: rest) = lineText x ++ "\n" ++ linesText rest := by
  apply String.ext
  simp [linesText, String.toList_join]

theorem linesText_append (x second : List (List String)) :
    linesText (x ++ second) = linesText x ++ linesText second := by
  apply String.ext
  simp [linesText, String.toList_join]

theorem newline_notMem_quote (token : String) : '\n' ∉ (quote token).toList := by
  unfold quote quoteWith
  by_cases required : quoteRequired isSpace token = true
  · rw [if_pos required, String.toList_ofList]
    have escaped (byte : Char) : '\n' ∉ escape byte := by
      unfold escape escapeWith
      split_ifs with special newline tab
      · rcases special with rfl | rfl <;> decide
      · decide
      · decide
      · simpa using Ne.symm newline
    simp only [mem_cons, mem_append, mem_flatMap, not_mem_nil, or_false, not_or,
      not_exists, not_and]
    exact ⟨⟨by decide, fun byte _ => escaped byte⟩, by decide⟩
  · rw [if_neg required]
    intro mem
    apply required
    unfold quoteRequired
    rw [Bool.or_eq_true]
    exact .inr (any_eq_true.mpr ⟨'\n', mem, by decide⟩)

/-- A token as it is written does not end in a carriage return, nor is it empty. -/
theorem getLast?_quote (token : String) :
    ∃ b, (quote token).toList.getLast? = some b ∧ b ≠ '\r' := by
  unfold quote quoteWith
  by_cases required : quoteRequired isSpace token = true
  · rw [if_pos required, String.toList_ofList]
    exact ⟨'"', by rw [List.getLast?_concat], by decide⟩
  · rw [if_neg required]
    cases last : token.toList.getLast? with
    | none =>
      rw [List.getLast?_eq_none_iff, String.toList_eq_nil_iff] at last
      subst last
      exact absurd rfl required
    | some b =>
      refine ⟨b, rfl, fun same => required ?_⟩
      unfold quoteRequired
      rw [Bool.or_eq_true]
      exact .inr (any_eq_true.mpr ⟨b, mem_of_getLast? last, by subst same; decide⟩)

theorem newline_notMem_lineText (ts : List String) : '\n' ∉ (lineText ts).toList := by
  cases ts with
  | nil => simp [lineText]
  | cons x =>
    rw [toList_lineText_cons]
    simp only [mem_append, mem_flatMap, mem_cons, not_or, not_exists, not_and]
    exact ⟨newline_notMem_quote x, fun token _ => ⟨by decide, newline_notMem_quote token⟩⟩

theorem stripReturn_lineText (ts : List String) :
    stripReturn (lineText ts).toList = (lineText ts).toList := by
  unfold stripReturn
  rw [if_neg]
  cases ts with
  | nil => simp [lineText]
  | cons x rest =>
    rw [toList_lineText_cons]
    -- the last token decides
    rcases eq_nil_or_concat rest with rfl | ⟨_, token, rfl⟩
    · obtain ⟨b, last, ne⟩ := getLast?_quote x
      simpa [last] using ne
    · obtain ⟨_, last, ne⟩ := getLast?_quote token
      rw [concat_eq_append, flatMap_append, ← append_assoc, List.getLast?_append]
      simp [List.getLast?_cons, last, ne]

theorem splitOn_linesText (file : List (List String)) :
    (linesText file).toList.splitOn '\n' = file.map (fun ts => (lineText ts).toList) ++ [[]] := by
  induction file with
  | nil => rfl
  | cons x rest ih =>
    rw [linesText_cons, String.toList_append, String.toList_append, append_assoc]
    show List.splitOn '\n' ((lineText x).toList ++ '\n' :: (linesText rest).toList) = _
    unfold List.splitOn at ih ⊢
    rw [splitOnP_append_cons _ _ (by simp), ih, splitOnP_eq_singleton]
    · rfl
    · intro b mem
      simpa using fun same : b = '\n' => newline_notMem_lineText x (same ▸ mem)

/-- A line: its directive and its arguments. -/
abbrev Line := String × List String

/-- A directive and its arguments. -/
def Line.tokens (line : Line) : List String :=
  line.1 :: line.2

/-- What the callback makes of the lines, from a number on. -/
def readLines {σ : Type} (callback : String → List String → Nat → σ → σ) (number : Nat)
    (file : List Line) (state : σ) : σ :=
  (file.zipIdx number).foldl (fun state entry => callback entry.1.1 entry.1.2 entry.2 state) state

theorem readLines_cons {σ : Type} (callback : String → List String → Nat → σ → σ) (n : Nat)
    (line : Line) (file : List Line) (state : σ) :
    readLines callback n (line :: file) state
      = readLines callback (n + 1) file (callback line.1 line.2 n state) := by
  simp only [readLines, zipIdx_cons, foldl_cons]

theorem readLines_append {σ : Type} (callback : String → List String → Nat → σ → σ) (n : Nat)
    (x y : List Line) (state : σ) :
    readLines callback n (x ++ y) state
      = readLines callback (n + x.length) y (readLines callback n x state) := by
  simp only [readLines, zipIdx_append, foldl_append]

/-- **Entries of one kind, read one after the other.** `add` is the state after some entries, and
`good` what the state and the entries to come must be like. -/
theorem readLines_map {σ α : Type} {callback : String → List String → Nat → σ → σ} {line : α → Line}
    (add : σ → List α → σ) (good : σ → List α → Prop) {valid : α → Prop}
    (none : ∀ state, add state [] = state)
    (more : ∀ state v rest, add (add state [v]) rest = add state (v :: rest))
    (keeps : ∀ state v rest, good state (v :: rest) → good (add state [v]) rest)
    (read : ∀ state v rest n, valid v → good state (v :: rest) →
      callback (line v).1 (line v).2 n state = add state [v])
    {values : List α} (n : Nat) {state : σ} (all : ∀ v ∈ values, valid v)
    (holds : good state values) :
    readLines callback n (values.map line) state = add state values := by
  induction values generalizing n state with
  | nil => exact (none state).symm
  | cons v rest ih =>
    obtain ⟨x, all⟩ := forall_mem_cons.mp all
    rw [map_cons, readLines_cons, read state v rest n x holds,
      ih _ all (keeps state v rest holds), more]

theorem fresh_of_nodup {α β : Type} {key : α → β} {s rest : List α} {v : α}
    (unique : ((s ++ v :: rest).map key).Nodup) : key v ∉ s.map key := by
  rw [map_append, map_cons, nodup_append] at unique
  exact fun mem => unique.2.2 _ mem _ mem_cons_self rfl

theorem any_key_eq_false {α β γ : Type} [BEq β] [LawfulBEq β] [BEq γ] [LawfulBEq γ]
    {one : α → β} {two : α → γ} {s : List α} {v : α}
    (fresh : (one v, two v) ∉ s.map fun y => (one y, two y)) :
    (s.any fun y => one y == one v && two y == two v) = false := by
  rw [any_eq_false]
  intro y mem same
  rw [Bool.and_eq_true, beq_iff_eq, beq_iff_eq] at same
  exact fresh (mem_map.mpr ⟨y, mem, Prod.ext same.1 same.2⟩)

/-- **The callback sees the lines a text was made from.** -/
theorem lines_linesText {σ : Type} (addError : σ → PackageError → σ)
    (callback : String → List String → Nat → σ → σ) (path : String) (state : σ) (file : List Line) :
    lines addError callback path (linesText (file.map Line.tokens)) state
      = readLines callback 1 file state := by
  unfold lines linesWith readLines
  rw [splitOn_linesText, map_map, zipIdx_append, foldl_append]
  have empty (state : σ) (n : Nat) : ([([], n)] : List (List Char × Nat)).foldl
      (fun state (line, n) =>
        match tokenize (String.ofList (stripReturn line)) with
        | .error (column, message) => addError state ⟨path, n, column, "FDN4003", message⟩
        | .ok [] => state
        | .ok (directive :: args) => callback directive args n state) state
      = state := by
    simp only [foldl_cons, foldl_nil]
    rw [show tokenize (String.ofList (stripReturn [])) = .ok [] from tokenizeFrom_nil 0]
  rw [zipIdx_singleton, empty]
  generalize 1 = n
  induction file generalizing n state with
  | nil => rfl
  | cons x rest ih =>
    simp only [map_cons, zipIdx_cons, foldl_cons, Function.comp_apply]
    rw [stripReturn_lineText, String.ofList_toList, tokenize_lineText]
    exact ih _ _

end FoundationLang.Package
