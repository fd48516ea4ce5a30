/-
**Heads of HTTP responses.**

A strict recipient of the first part of a message: the status line, field lines and an empty line.

* `readHead` — the head at the front of a text and what is behind it. A head that is joined from the
  lines of clean fields is read back (`readHead_joinLines`).
-/

import FoundationLang.Library.Fields
import FoundationLang.Library.Lines

namespace FoundationLang.Library.Fields

open List

/-! ### Field lines -/

/-- A byte of a value: no control byte but the tab. -/
def valueByte (byte : UInt8) : Bool :=
  byte == 9 || (decide (32 ≤ byte.toNat) && byte != 127)

/-- **A value as it is read**: no control byte in it, and no blank at its ends. -/
structure Clean (value : List UInt8) : Prop where
  bytes : value.all valueByte = true
  trimmed : trim value = value

/-- One field line. The name is a token, the value has no control byte, and the blanks around the
value are no part of it (`readField_eq_some`). -/
def readField (line : List UInt8) : Option Field :=
  match line.dropWhile (· != 58) with
  | [] => none
  | _ :: value =>
    if isToken (line.takeWhile (· != 58)) && value.all valueByte then
      some (line.takeWhile (· != 58), trim value)
    else none

theorem Clean.nil : Clean [] :=
  ⟨rfl, rfl⟩

theorem trim_blank {b : UInt8} (isBlank : blank b = true) (value : List UInt8) :
    trim (b :: value) = trim value := by
  unfold trim
  rw [dropWhile_cons_of_pos isBlank]

theorem plain_of_valueBytes {value : List UInt8} (bytes : value.all valueByte = true) :
    (10 : UInt8) ∉ value := by
  intro mem
  exact absurd (all_eq_true.mp bytes 10 mem) (by decide)

theorem trim_sublist (value : List UInt8) : (trim value).Sublist value :=
  ((List.rdropWhile_prefix _ _).sublist).trans (dropWhile_sublist _)

theorem trim_trim (value : List UInt8) : trim (trim value) = trim value := by
  unfold trim
  set rest := value.dropWhile blank with same
  have front : (rest.rdropWhile blank).dropWhile blank = rest.rdropWhile blank := by
    rw [dropWhile_eq_self_iff]
    intro nonempty x
    -- The first byte that is left is the first one behind the blanks.
    have begins := (List.rdropWhile_prefix blank rest).getElem nonempty
    have longer := (List.rdropWhile_prefix blank rest).length_le
    have kept : ¬blank (rest.get ⟨0, Nat.lt_of_lt_of_le nonempty longer⟩) = true :=
      dropWhile_get_zero_not blank value (Nat.lt_of_lt_of_le nonempty longer)
    rw [begins] at x
    exact kept x
  rw [front, rdropWhile_idempotent]

theorem takeWhile_name {name : List UInt8} (token : Token name) (value : List UInt8) :
    (line (name, value)).takeWhile (· != 58) = name ∧
      (line (name, value)).dropWhile (· != 58) = 58 :: value := by
  have kept : ∀ b ∈ name, (b != 58) = true := by
    intro b mem
    rw [bne_iff_ne]
    rintro rfl
    exact token.no_colon mem
  unfold line
  rw [takeWhile_append_of_pos kept, dropWhile_append_of_pos kept]
  simp

theorem readField_line {name v : List UInt8} (token : Token name)
    (bytes : v.all valueByte = true) : readField (line (name, v)) = some (name, trim v) := by
  obtain ⟨taken, dropped⟩ := takeWhile_name token v
  unfold readField
  rw [taken, dropped]
  dsimp only
  rw [if_pos]
  rw [bytes, Bool.and_true]
  exact isToken_iff.mpr token

theorem readField_eq_some {line : List UInt8} {field : Field} (read : readField line = some field) :
    Token field.1 ∧ Clean field.2 := by
  unfold readField at read
  split at read
  · cases read
  · split at read
    · rename_i v _ checked
      cases read
      rw [Bool.and_eq_true] at checked
      refine ⟨isToken_iff.mp checked.1, all_eq_true.mpr fun b mem => ?_, trim_trim v⟩
      exact all_eq_true.mp checked.2 b ((trim_sublist v).subset mem)
    · cases read

/-! ### Heads -/

/-- A decimal digit. -/
def digit (byte : UInt8) : Bool :=
  decide (48 ≤ byte.toNat) && decide (byte.toNat ≤ 57)

/-- `HTTP/1.1` and a space. -/
def version : List UInt8 :=
  [72, 84, 84, 80, 47, 49, 46, 49, 32]

/-- A status of three digits and a reason. -/
def readStatusLine (line : List UInt8) : Option ℕ :=
  if version.isPrefixOf line then
    match line.drop version.length with
    | hundreds :: tens :: ones :: 32 :: reason =>
      if digit hundreds && digit tens && digit ones && reason.all valueByte then
        some ((hundreds.toNat - 48) * 100 + (tens.toNat - 48) * 10 + (ones.toNat - 48))
      else none
    | _ => none
  else none

/-- The head of a response. -/
structure Head where
  status : ℕ
  fields : List Field
deriving DecidableEq

/-- The fields up to the empty line, and the lines behind it. -/
def readFields : List (List UInt8) → Option (List Field × List (List UInt8))
  | [] => none
  | [] :: rest => some ([], rest)
  | line :: rest => do
    let field ← readField line
    let (fields, behind) ← readFields rest
    return (field :: fields, behind)

/-- **The head at the front of a text**, and what is behind it. -/
def readHead (text : List UInt8) : Option (Head × List UInt8) :=
  match splitLines text with
  | ([], _) => none
  | (first :: rest, left) => do
    let status ← readStatusLine first
    let (fields, behind) ← readFields rest
    return (⟨status, fields⟩, joinLines behind ++ left)

theorem readFields_clean {lines behind : List (List UInt8)} {fs : List Field}
    (read : readFields lines = some (fs, behind)) :
    ∀ field ∈ fs, Token field.1 ∧ Clean field.2 := by
  induction lines generalizing fs behind with
  | nil => cases read
  | cons line lines ih =>
    cases line with
    | nil =>
      cases read
      exact forall_mem_nil _
    | cons =>
      rw [readFields, Option.bind_eq_bind, Option.bind_eq_some_iff] at read
      obtain ⟨_, here, read⟩ := read
      rw [Option.bind_eq_bind, Option.bind_eq_some_iff] at read
      obtain ⟨⟨_, _⟩, there, read⟩ := read
      cases read
      intro field mem
      rcases mem_cons.mp mem with rfl | mem
      · exact readField_eq_some here
      · exact ih there field mem
      · exact fun empty => nomatch empty

theorem readHead_clean {text rest : List UInt8} {head : Head} (read : readHead text = some (head, rest)) :
    ∀ field ∈ head.fields, Token field.1 ∧ Clean field.2 := by
  unfold readHead at read
  split at read
  · cases read
  · rw [Option.bind_eq_bind, Option.bind_eq_some_iff] at read
    obtain ⟨_, _, read⟩ := read
    rw [Option.bind_eq_bind, Option.bind_eq_some_iff] at read
    obtain ⟨⟨_, _⟩, taken, read⟩ := read
    cases read
    exact readFields_clean taken

/-- The line of a field, with a space in front of its value. -/
def spaced (field : Field) : List UInt8 :=
  line (field.1, 32 :: field.2)

theorem readFields_lines {fs : List Field}
    (clean : ∀ field ∈ fs, Token field.1 ∧ Clean field.2) :
    readFields (fs.map spaced ++ [[]]) = some (fs, []) := by
  induction fs with
  | nil => rfl
  | cons field fs ih =>
    obtain ⟨token, v⟩ := clean field mem_cons_self
    have rest := ih fun y mem => clean y (mem_cons_of_mem _ mem)
    have here : readField (spaced field) = some field := by
      have bytes : (32 :: field.2).all valueByte = true := by
        rw [all_cons, v.bytes]
        rfl
      unfold spaced
      rw [readField_line token bytes, trim_blank rfl, v.trimmed]
    obtain ⟨_, _, same⟩ := exists_cons_of_ne_nil
      (show spaced field ≠ [] from append_ne_nil_of_right_ne_nil _ (cons_ne_nil _ _))
    rw [map_cons, cons_append]
    rw [same] at here ⊢
    rw [readFields, here, rest]
    · rfl
    · exact fun empty => nomatch empty

theorem Token.plain_feed {name : List UInt8} (token : Token name) : (10 : UInt8) ∉ name :=
  fun mem => absurd (token.visible 10 mem).1 (by decide)

theorem spaced_plain {field : Field} (token : Token field.1) (clean : Clean field.2) :
    (10 : UInt8) ∉ spaced field := by
  unfold spaced line
  simp only [mem_append, mem_cons, not_or]
  exact ⟨token.plain_feed, by decide, by decide, plain_of_valueBytes clean.bytes⟩

/-- **A head is read back** from its status line and the lines of its fields. -/
theorem readHead_joinLines {x : List UInt8} {st : ℕ} {fs : List Field}
    (plain : (10 : UInt8) ∉ x) (known : readStatusLine x = some st)
    (clean : ∀ field ∈ fs, Token field.1 ∧ Clean field.2) :
    readHead (joinLines (x :: (fs.map spaced ++ [[]]))) = some (⟨st, fs⟩, []) := by
  have lines : ∀ line ∈ x :: (fs.map spaced ++ [[]]), (10 : UInt8) ∉ line := by
    intro line mem
    rcases mem_cons.mp mem with rfl | mem
    · exact plain
    · rcases mem_append.mp mem with mem | mem
      · obtain ⟨field, inside, rfl⟩ := mem_map.mp mem
        exact spaced_plain (clean field inside).1 (clean field inside).2
      · rw [mem_singleton.mp mem]
        exact not_mem_nil
  unfold readHead
  rw [splitLines_joinLines lines]
  dsimp only
  rw [known, readFields_lines clean]
  rfl

theorem readHead_status {x : List UInt8} {rest text : List UInt8} {head : Head}
    (plain : (10 : UInt8) ∉ x)
    (read : readHead (x ++ crlf ++ rest) = some (head, text)) :
    readStatusLine x = some head.status := by
  unfold readHead splitLines at read
  rw [append_assoc, splitFrom_append [] plain, nil_append, splitFrom_crlf] at read
  dsimp only at read
  rw [Option.bind_eq_bind, Option.bind_eq_some_iff] at read
  obtain ⟨_, known, read⟩ := read
  rw [Option.bind_eq_bind, Option.bind_eq_some_iff] at read
  obtain ⟨_, _, read⟩ := read
  cases read
  exact known

end FoundationLang.Library.Fields
