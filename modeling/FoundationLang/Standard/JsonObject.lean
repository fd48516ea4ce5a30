/-
**The objects of `std.json`, and the order of their fields.**
-/

import FoundationLang.Standard.JsonSound
import Mathlib.Data.List.Nodup

namespace FoundationLang.Standard.JsonText

open Library Outcome List

variable {ε : Type} {source : Text} {levels offset stop : ℕ} {fields : List (Text × Value)}

/-- The fields, the first one in front, and their number; `firstKey`, `hasKey`, `take`. -/
structure Object where
  fields : List (Text × Value)
  length : ℕ

/-! ### The operations -/

/-- `fieldTake`: the first field of the key is left out, the others come out the other way round. -/
def fieldTake (expected : Text) :
    List (Text × Value) → List (Text × Value) → Option Value → Bool →
      List (Text × Value) × Option Value × Bool
  | [], remaining, value, found => (remaining, value, found)
  | field :: current, remaining, value, found =>
    if !found && field.1.equal expected then
      fieldTake expected current remaining (some field.2) true
    else fieldTake expected current (field :: remaining) value found

namespace Object

/-- `newObject`. -/
def new : Object :=
  ⟨[], 0⟩

/-- The key of the first field. -/
def firstKey (self : Object) : Option Text :=
  self.fields.head?.map Prod.fst

/-- `pushFront`; a text has less than `2 ^ 64` members. -/
def pushFront (self : Object) (field : Text × Value) : Object :=
  ⟨field :: self.fields, self.length + 1⟩

/-- The fields the other way around. -/
def reverse (self : Object) : Object :=
  ⟨self.fields.reverse, self.length⟩

/-- There is a field under the key. -/
def hasKey (self : Object) (expected : Text) : Bool × Object :=
  let (found, fields) := JsonText.hasKey self.fields expected
  (found, ⟨fields, self.length⟩)

/-- The value under a key, and the object without it. -/
def take (self : Object) (expected : Text) : Outcome ε (Option Value × Object) := do
  let (remaining, value, found) := fieldTake expected self.fields [] none false
  let length ← if found then checkedSub self.length 1 else .ok self.length
  .ok (value, ⟨remaining, length⟩)

/-- What `parseObject` does with the members that it reads. -/
def ofMembers (members : List (Text × Value)) : Object :=
  (members.foldl (fun object member => (object.hasKey member.1).2.pushFront member) new).reverse

/-- A lookup, or a removal. -/
inductive Call
  | firstKey
  | hasKey (expected : Text)
  | take (expected : Text)

/-- One call: the field that it gives away, and what remains. -/
def call (self : Object) : Call → Outcome ε (List (Text × Value) × Object)
  | .firstKey => .ok ([], self)
  | .hasKey expected => .ok ([], (self.hasKey expected).2)
  | .take expected => do
    let (value, self) ← self.take expected
    .ok (value.toList.map (expected, ·), self)

/-- The values that calls return, and the object behind them. -/
def calls : List Call → Object → Outcome ε (List (Text × Value) × Object)
  | [], self => .ok ([], self)
  | first :: others, self => do
    let (given, self) ← self.call first
    let (given', self) ← calls others self
    .ok (given ++ given', self)

/-- The first key is taken again and again. -/
def drain : ℕ → Object → Outcome ε (List (Text × Value))
  | 0, _ => .ok []
  | rounds + 1, self =>
    match self.firstKey with
    | none => .ok []
    | some key => do
      let (value, self) ← self.take key
      let others ← drain rounds self
      .ok (value.toList.map (key, ·) ++ others)

/-- Calls keep the fields, their number and their order, and the first key is that of the text. -/
structure OrderKept (members : List (Text × Value)) (object : Object) : Prop where
  kept : ∀ sequence : List Call, ∃ given left,
    object.calls sequence = (.ok (given, left) : Outcome Empty _) ∧
      (given ++ left.fields).Perm members ∧ left.length = left.fields.length ∧
      left.fields.Sublist members
  drained : object.drain members.length = (.ok members : Outcome Empty _)

end Object

/-! ### No field is lost -/

theorem fieldTake_found (want : Text) (s left : List (Text × Value))
    (v : Option Value) :
    fieldTake want s left v true = (s.reverse ++ left, v, true) := by
  induction s generalizing left with
  | nil => rfl
  | cons field s ih =>
    unfold fieldTake
    rw [Bool.not_true, Bool.false_and, if_neg Bool.false_ne_true, ih]
    simp

theorem fieldTake_spec (want : Text) (s left : List (Text × Value))
    (v : Option Value) :
    fieldTake want s left v false =
        (s.reverse ++ left, v, false) ∨
      ∃ before taken after, s = before ++ (want, taken) :: after ∧
        fieldTake want s left v false =
          (after.reverse ++ (before.reverse ++ left), some taken, true) := by
  induction s generalizing left with
  | nil => exact .inl rfl
  | cons field s ih =>
    unfold fieldTake
    rw [Bool.not_false, Bool.true_and]
    by_cases same : field.1.equal want = true
    · obtain ⟨_, taken⟩ := field
      obtain rfl := Text.equal_iff.mp same
      rw [if_pos same, fieldTake_found]
      exact .inr ⟨[], taken, s, rfl, rfl⟩
    · rw [if_neg same]
      rcases ih (field :: left) with turned | ⟨before, taken, after, rfl, turned⟩
      · exact .inl (by rw [turned]; simp)
      · exact .inr ⟨field :: before, taken, after, rfl, by rw [turned]; simp⟩

namespace Object

variable {object : Object}

theorem call_keep (counted : object.length = object.fields.length) (x : Call) :
    ∃ given left, object.call x = (.ok (given, left) : Outcome ε _) ∧
      (given ++ left.fields).Perm object.fields ∧ left.length = left.fields.length := by
  cases x with
  | firstKey => exact ⟨[], object, rfl, .refl _, counted⟩
  | hasKey want =>
    have turned : (object.hasKey want).2.fields = object.fields.reverse :=
      (hasKey_spec object.fields want).2
    refine ⟨[], (object.hasKey want).2, rfl, ?_, ?_⟩
    · rw [turned]
      exact reverse_perm _
    · rw [turned, length_reverse]
      exact counted
  | take want =>
    simp only [call, take]
    rcases fieldTake_spec want object.fields [] none with
      turned | ⟨before, taken, after, whole, turned⟩
    · rw [turned]
      exact ⟨[], _, rfl, by simp, by simpa using counted⟩
    · have size : object.length = before.length + after.length + 1 := by
        rw [counted, whole, length_append, length_cons]
        omega
      rw [turned, append_nil, whole]
      rw [if_pos rfl, checkedSub_bind (by omega)]
      refine ⟨[(want, taken)], ⟨after.reverse ++ before.reverse, object.length - 1⟩, rfl, ?_, ?_⟩
      · rw [← reverse_append]
        exact ((reverse_perm _).cons _).trans perm_middle.symm
      · simp only [length_append, length_reverse]
        omega

/-- **No calls lose a field or give one twice, and the number of fields stays right.** -/
theorem calls_keep (counted : object.length = object.fields.length) (seq : List Call) :
    ∃ given left, object.calls seq = (.ok (given, left) : Outcome ε _) ∧
      (given ++ left.fields).Perm object.fields ∧ left.length = left.fields.length := by
  induction seq generalizing object with
  | nil => exact ⟨[], object, rfl, .refl _, counted⟩
  | cons x others ih =>
    obtain ⟨given, _, called, kept, counted'⟩ := call_keep counted x (ε := ε)
    obtain ⟨given', left, called', kept', counted''⟩ := ih counted'
    refine ⟨given ++ given', left, ?_, ?_, counted''⟩
    · unfold calls
      rw [called, ok_bind]
      dsimp only
      rw [called']
      rfl
    · rw [append_assoc]
      exact (kept'.append_left given).trans kept

end Object

/-! ### What is parsed -/

/-- The loop reads parts up to the closing byte. -/
inductive PartsRead {α : Type} (parsePart : List α → ℕ → Outcome Error ((α × List α) × ℕ))
    (source : Text) (close : ℕ) : ℕ → List α → ℕ → Prop
  | last {result result' part offset next stop} : parsePart result offset = .ok ((part, result'), next) →
      delimiter source close next = .ok (true, stop) →
      PartsRead parsePart source close offset [part] stop
  | more {result result' part offset next behind parts stop} :
      parsePart result offset = .ok ((part, result'), next) →
      delimiter source close next = .ok (false, behind) →
      PartsRead parsePart source close behind parts stop →
      PartsRead parsePart source close offset (part :: parts) stop

/-- The members between two braces. -/
def MembersRead (source : Text) (levels offset : ℕ) (members : List (Text × Value)) (stop : ℕ) :
    Prop :=
  members = [] ∨ ∃ start, skipWhitespace source (offset + 1) = .ok start ∧
    PartsRead (parseField (parseValue source levels) source) source 125 start members stop

/-- What a member does to the fields before it. -/
def turn (fields : List (Text × Value)) (member : Text × Value) : List (Text × Value) :=
  member :: fields.reverse

theorem parseField_turns {parseValue : ℕ → Outcome Error (Value × ℕ)} {field : Text × Value}
    {fields' : List (Text × Value)}
    (parsed : parseField parseValue source fields offset = .ok ((field, fields'), stop)) :
    fields' = fields.reverse ∧ field.1 ∉ fields.map Prod.fst := by
  unfold parseField at parsed
  obtain ⟨⟨⟨_, _⟩, _⟩, readKey, parsed⟩ := bind_eq_ok.mp parsed
  obtain ⟨_, _, parsed⟩ := bind_eq_ok.mp parsed
  obtain ⟨⟨_, _⟩, _, parsed⟩ := bind_eq_ok.mp parsed
  cases parsed
  unfold parseKey at readKey
  split_ifs at readKey
  · cases readKey
  obtain ⟨_, _, readKey⟩ := bind_eq_ok.mp readKey
  split_ifs at readKey
  · cases readKey
  obtain ⟨⟨key', _⟩, _, readKey⟩ := bind_eq_ok.mp readKey
  obtain ⟨found, turned⟩ := hasKey_spec fields key'
  dsimp only at readKey
  split_ifs at readKey with present
  · cases readKey
  cases readKey
  exact ⟨turned, fun member => present (found.mpr member)⟩

theorem turn_perm (ms fields : List (Text × Value)) :
    (ms.foldl turn fields).Perm (ms ++ fields) := by
  induction ms generalizing fields with
  | nil => exact .refl _
  | cons member ms ih =>
    refine (ih (turn fields member)).trans ?_
    exact perm_middle.trans (((reverse_perm fields).append_left ms).cons member)

theorem partLoop_members {parseValue : ℕ → Outcome Error (Value × ℕ)} {k : ℕ}
    {r : List (Text × Value)} (unique : (r.map Prod.fst).Nodup)
    (parsed : partLoop (parseField parseValue source) source 125 k r offset =
      .ok (fields, stop)) :
    ∃ ms, PartsRead (parseField parseValue source) source 125 offset ms stop ∧
      fields = (ms.foldl turn r).reverse ∧ (fields.map Prod.fst).Nodup := by
  induction k generalizing r offset with
  | zero => cases parsed
  | succ k ih =>
    unfold partLoop at parsed
    obtain ⟨⟨⟨member, _⟩, _⟩, read, parsed⟩ := bind_eq_ok.mp parsed
    obtain ⟨⟨done, _⟩, delimited, parsed⟩ := bind_eq_ok.mp parsed
    obtain ⟨rfl, fresh⟩ := parseField_turns read
    have unique' : ((turn r member).map Prod.fst).Nodup := by
      refine nodup_cons.mpr ⟨?_, ?_⟩
      · simpa using fresh
      · rw [map_reverse]
        exact nodup_reverse.mpr unique
    cases done with
    | true =>
      cases parsed
      refine ⟨[member], .last read delimited, rfl, ?_⟩
      rw [map_reverse]
      exact nodup_reverse.mpr unique'
    | false =>
      obtain ⟨ms, reads, same, distinct⟩ := ih unique' parsed
      exact ⟨member :: ms, .more read delimited reads, same, distinct⟩

theorem parseObject_members
    (parsed : parseObject (parseValue source levels) source offset = .ok (fields, stop)) :
    ∃ ms, MembersRead source levels offset ms stop ∧
      fields = (ms.foldl turn []).reverse ∧ (fields.map Prod.fst).Nodup := by
  unfold parseObject parseParts at parsed
  obtain ⟨_, checks, parsed⟩ := bind_eq_ok.mp parsed
  obtain ⟨start, skipped, parsed⟩ := bind_eq_ok.mp parsed
  obtain ⟨empty, _, parsed⟩ := bind_eq_ok.mp parsed
  obtain ⟨_, rfl⟩ := checked_eq_ok.mp checks
  cases empty with
  | true =>
    obtain ⟨_, _, parsed⟩ := bind_eq_ok.mp parsed
    cases parsed
    exact ⟨[], .inl rfl, rfl, nodup_nil⟩
  | false =>
    have none : (([] : List (Text × Value)).map Prod.fst).Nodup := nodup_nil
    obtain ⟨ms, reads, kept⟩ := partLoop_members none parsed
    exact ⟨ms, .inr ⟨start, skipped, reads⟩, kept⟩

namespace Object

theorem ofMembers_eq (ms : List (Text × Value)) :
    ofMembers ms = ⟨(ms.foldl turn []).reverse, ms.length⟩ := by
  have steps : ∀ (object : Object), ms.foldl
      (fun object member => (object.hasKey member.1).2.pushFront member) object =
        ⟨ms.foldl turn object.fields, object.length + ms.length⟩ := by
    induction ms with
    | nil => exact fun object => rfl
    | cons member ms ih =>
      intro object
      have turned : (object.hasKey member.1).2.fields = object.fields.reverse :=
        (hasKey_spec object.fields member.1).2
      rw [foldl_cons, ih]
      unfold pushFront
      rw [turned, foldl_cons, length_cons, Nat.add_assoc, Nat.add_comm 1]
      rfl
  unfold ofMembers reverse
  rw [steps]
  simp [new]

theorem short_of_reverse {α : Type} {list : List α} (unique : list.Nodup)
    (same : list.reverse = list) : list.length ≤ 1 := by
  cases list with
  | nil => exact Nat.zero_le 1
  | cons x others =>
    rw [reverse_cons] at same
    cases turned : others.reverse with
    | nil =>
      rw [reverse_eq_nil_iff.mp turned]
      exact Nat.le_refl 1
    | cons last =>
      rw [turned] at same
      obtain ⟨rfl, _⟩ := List.cons.inj same
      have inside : last ∈ others.reverse := turned ▸ mem_cons_self
      exact absurd (mem_reverse.mp inside) (nodup_cons.mp unique).1

/-- **The order of the text is kept only where there is none**: an object that was parsed keeps it
under all calls if and only if it has at most one member. -/
theorem orderKept_iff
    (parsed : parseObject (parseValue source levels) source offset = .ok (fields, stop)) :
    ∃ members, MembersRead source levels offset members stop ∧
      (ofMembers members).fields = fields ∧
      ((ofMembers members).OrderKept members ↔ members.length ≤ 1) := by
  obtain ⟨members, reads, rfl, distinct⟩ := parseObject_members parsed
  have built := ofMembers_eq members
  have order : (members.foldl turn []).reverse.Perm members :=
    (reverse_perm _).trans (by simpa using turn_perm members [])
  refine ⟨members, reads, by rw [built], fun kept => ?_, fun short => ⟨fun sequence => ?_, ?_⟩⟩
  · -- The fields as they are and those behind a search are both in the order of the text.
    have unique : members.Nodup := order.nodup_iff.mp distinct.of_map
    have searched : ((ofMembers members).hasKey (.literal [])).2.fields =
        (ofMembers members).fields.reverse := (hasKey_spec _ _).2
    obtain ⟨given, left, called, order', _, inside⟩ := kept.kept []
    cases called
    have same := inside.eq_of_length order'.length_eq
    obtain ⟨_, _, called', order'', _, inside'⟩ := kept.kept [.hasKey (.literal [])]
    cases called'
    have same' := inside'.eq_of_length order''.length_eq
    rw [searched, same] at same'
    exact short_of_reverse unique same'
  · rw [built]
    obtain ⟨given, left, called, kept, counted⟩ :=
      @calls_keep Empty ⟨_, members.length⟩ order.length_eq.symm sequence
    have whole := kept.trans order
    have same : given ++ left.fields = members := by
      match members, short, whole with
      | [], _, whole => exact whole.eq_nil
      | [member], _, whole => exact perm_singleton.mp whole
    exact ⟨given, left, called, whole, counted, same ▸ sublist_append_right given left.fields⟩
  · match members, short with
    | [], _ => rfl
    | [member], _ =>
      have same : member.1.equal member.1 = true := Text.equal_iff.mpr rfl
      rw [built]
      simp [drain, firstKey, take, fieldTake, turn, same, checkedSub]

/-! ### Three members -/

/-- `{"a":1,"b":2,"c":3}`. -/
def threeText : Text :=
  .literal [123, 34, 97, 34, 58, 49, 44, 34, 98, 34, 58, 50, 44, 34, 99, 34, 58, 51, 125]

/-- An object with three members. -/
def threeMembers : List (Text × Value) :=
  [(.letterA, .number (.literal [49])), (.letterB, .number (.literal [50])),
    (.literal [99], .number (.literal [51]))]

theorem orderKept_iff_three :
    ∃ members, MembersRead threeText 128 0 members 19 ∧
      (ofMembers members).fields = (ofMembers threeMembers).fields ∧
      ((ofMembers members).OrderKept members ↔ members.length ≤ 1) :=
  orderKept_iff (show parseObject (parseValue threeText 128) threeText 0 = .ok (_, 19) from rfl)

/-- The second key comes first. -/
theorem order_lost :
    parse threeText = .ok (.object (ofMembers threeMembers).fields) ∧
      MembersRead threeText 128 0 threeMembers 19 ∧
      ¬(ofMembers threeMembers).OrderKept threeMembers := by
  refine ⟨rfl, .inr ⟨1, rfl, ?_⟩, fun kept => ?_⟩
  · refine .more (show parseField (parseValue threeText 128) threeText [] 1 = .ok _ from rfl) rfl ?_
    refine .more (show parseField (parseValue threeText 128) threeText [] 7 = .ok _ from rfl) rfl ?_
    exact .last (show parseField (parseValue threeText 128) threeText [] 13 = .ok _ from rfl) rfl
  · -- The keys come in the order `b`, `c`, `a`.
    obtain ⟨fields, drained, keys⟩ : ∃ fields, (ofMembers threeMembers).drain 3 =
        (.ok fields : Outcome Empty _) ∧ fields.map (·.1.bytes) = [[98], [99], [97]] := ⟨_, rfl, rfl⟩
    obtain rfl := Except.ok.inj (drained.symm.trans kept.drained)
    exact absurd keys (by decide)

end Object

end FoundationLang.Standard.JsonText
