/-
**Cutting a lock into lines and tokens never panics.**

`packageSlice` panics inside of a code point. `tokenizePackageLine` and the loop of
`parsePackageLock` over its lines are here again with the slices that they cut. Both cut next to
ASCII bytes only, and the lines and the rest of a line stay aligned behind every cut.
-/

import FoundationLang.Selfhost.LineTokens

namespace FoundationLang.Selfhost

open Package List

/-! ### The code -/

/-- The loop of `tokenizePackageLine`, from an offset on. -/
def tokenReads (line : String) (offset : Nat) :
    List Char → Checked (Except (Nat × String) (List String))
  | [] => some (.ok [])
  | first :: rest =>
    if isPackageSpace first then tokenReads line (offset + 1) rest
    else if first = '#' then some (.ok [])
    else if first ≠ '"' then do
      let stop := offset + (first :: rest.takeWhile fun byte => !endsToken isPackageSpace byte).length
      let value ← packageSlice line offset stop
      let values ← tokenReads line stop (rest.dropWhile fun byte => !endsToken isPackageSpace byte)
      return values.map (value :: ·)
    else
      match read : readQuoted writeCodePoint offset (offset + 1) [] rest with
      | .error error => some (.error error)
      | .ok (value, after, tail) =>
        if tail.head?.any fun next => !endsToken isPackageSpace next then
          some (.error (after + 1, "quoted value must end before the next token"))
        else do
          let values ← tokenReads line after tail
          return values.map (String.ofList value :: ·)
termination_by line => line.length
decreasing_by
  · simp
  · have skip := (dropWhile_suffix (l := rest) fun byte => !endsToken isPackageSpace byte).length_le
    simp only [length_cons]
    omega
  · have shorter := readQuoted_length writeCodePoint read
    simp only [length_cons]
    omega

/-- A line as the loop of `parsePackageLock` cuts it. -/
def lineRead (source : String) (start stop : Nat) : Checked String := do
  let line ← packageSlice source start stop
  if line.toList.getLast? = some '\r' then packageSlice line 0 (line.toList.length - 1)
  else return line

/-- The loop of `parsePackageLock` over its lines, from an offset on. -/
def lineReads (source : String) (start : Nat) : Checked (List String) :=
  if start ≤ source.toList.length then
    match found : findPackageByte source '\n' start with
    | none => do return [← lineRead source start source.toList.length]
    | some offset => do
      let line ← lineRead source start offset
      let lines ← lineReads source (offset + 1)
      return line :: lines
  else some []
termination_by source.toList.length - start
decreasing_by
  have bounds := findPackageByte_bounds found
  omega

/-! ### No panic -/

section Cuts

variable {before part after rest : List Char} {value line : String}

/-- An aligned text starts at a code point. -/
theorem Aligned.boundary (aligned : Aligned rest) (before : List Char) :
    boundary (before ++ rest) before.length = true := by
  unfold Selfhost.boundary
  rw [getElem?_append_right (le_refl _), Nat.sub_self]
  cases rest with
  | nil => rfl
  | cons b => simp [aligned.first b rfl]

/-- A part with an aligned text in front of it and behind it is cut. -/
theorem packageSlice_parts (whole : value.toList = before ++ (part ++ after))
    (here : Aligned (part ++ after)) (behind : Aligned after) :
    packageSlice value before.length (before.length + part.length) = some (String.ofList part) := by
  have stop := behind.boundary (before ++ part)
  rw [length_append, append_assoc, ← whole] at stop
  have start := here.boundary before
  rw [← whole] at start
  rw [packageSlice_eq (Nat.le_add_right _ _) (by simp [whole]) start stop, slice, drop_take,
    whole, drop_left, Nat.add_sub_cancel_left, take_left]

/-- A quoted value ends behind a quote. -/
theorem readQuoted_parts {start i : Nat} {v r tail : List Char} {t : Nat}
    (read : readQuoted writeCodePoint start i v rest = .ok (r, t, tail)) :
    ∃ quoted, rest = quoted ++ '"' :: tail ∧ t = i + quoted.length + 1 := by
  fun_induction readQuoted writeCodePoint start i v rest
  case case1 | case3 | case7 => cases read
  case case2 =>
    cases read
    exact ⟨[], rfl, rfl⟩
  case case8 ih =>
    obtain ⟨quoted, rfl, rfl⟩ := ih read
    exact ⟨_ :: quoted, rfl, by simp; omega⟩
  case case4 ih | case5 ih | case6 ih =>
    obtain ⟨quoted, rfl, rfl⟩ := ih read
    exact ⟨_ :: _ :: quoted, rfl, by simp; omega⟩

/-- A byte at which a bare token ends is ASCII. -/
theorem ascii_of_endsToken {b : Char} (ends : endsToken isPackageSpace b = true) : b.toNat < 0x80 := by
  simp only [endsToken, isPackageSpace, Bool.or_eq_true, beq_iff_eq] at ends
  obtain (((rfl | rfl) | rfl) | rfl) | rfl := ends <;> decide

/-- From an offset on, where what is left is aligned. -/
theorem tokenReads_from {offset : Nat} (whole : line.toList = before ++ rest)
    (there : before.length = offset) (aligned : Aligned rest) :
    tokenReads line offset rest = some (tokenizeFrom isPackageSpace writeCodePoint offset rest) := by
  induction length : rest.length using Nat.strong_induction_on generalizing before rest offset with
  | _ size ih =>
    subst length
    cases rest with
    | nil => rw [tokenReads, tokenizeFrom]
    | cons first rest =>
      rw [tokenReads]
      by_cases blank : isPackageSpace first = true
      · rw [if_pos blank, tokenizeFrom_blank blank]
        have ascii := ascii_of_endsToken (b := first) (by simp [endsToken, blank])
        have next : line.toList = (before ++ [first]) ++ rest := by simp [whole]
        exact ih _ (by simp) next (by simp [there]) (aligned.tail ascii) rfl
      rw [if_neg blank]
      by_cases quote : first = '"'
      · subst quote
        rw [if_neg (by decide), if_neg (by decide), tokenizeFrom_quote (by decide)]
        split
        · rename_i failed
          rw [failed]
        · rename_i v after tail read
          obtain ⟨quoted, rfl, rfl⟩ := readQuoted_parts read
          have behind : Aligned ('"' :: tail) := Aligned.right (s := '"' :: quoted) aligned (by simp)
          rw [read]
          dsimp only
          split
          · rfl
          have next : line.toList = (before ++ '"' :: quoted ++ ['"']) ++ tail := by simp [whole]
          rw [ih _ (by simp; omega) next (by simp; omega) (behind.tail (by decide)) rfl]
          rfl
      · by_cases comment : first = '#'
        · rw [if_pos comment, tokenizeFrom, if_neg blank, if_pos comment]
        have split := takeWhile_append_dropWhile (p := (!endsToken isPackageSpace ·)) (l := rest)
        have ends := head_dropWhile_not (p := (!endsToken isPackageSpace ·)) (l := rest)
        rw [tokenizeFrom, if_neg blank, if_neg comment, if_neg comment, if_pos quote, if_pos quote]
        generalize rest.takeWhile (!endsToken isPackageSpace ·) = part at *
        generalize rest.dropWhile (!endsToken isPackageSpace ·) = tail at *
        subst split
        have behind : Aligned tail := by
          refine Aligned.right (s := first :: part) aligned fun b found => ascii_of_endsToken ?_
          obtain ⟨others, rfl⟩ := head?_eq_some_iff.mp found
          simpa using ends (cons_ne_nil _ _)
        have next : line.toList = (before ++ first :: part) ++ tail := by simp [whole]
        have cut := packageSlice_parts (next.trans (append_assoc ..)) aligned behind
        rw [there] at cut
        dsimp only
        rw [cut, Option.bind_eq_bind, Option.bind_some,
          ih _ (by rw [length_cons, length_append]; omega) next (by simp [there]) behind rfl]
        cases tokenizeFrom isPackageSpace writeCodePoint (offset + (first :: part).length) tail with
        | error => rfl
        | ok => rfl

/-- **A line is cut into its tokens.** -/
theorem tokenReads_eq (aligned : Aligned line.toList) :
    tokenReads line 0 line.toList = some (tokenizePackageLine line) :=
  tokenReads_from (nil_append _).symm rfl aligned

/-- A line is cut between two aligned texts. -/
theorem lineRead_eq (whole : value.toList = before ++ (part ++ after))
    (here : Aligned (part ++ after)) (behind : Aligned after) :
    lineRead value before.length (before.length + part.length)
      = some (String.ofList (stripReturn part)) := by
  rw [lineRead, packageSlice_parts whole here behind, Option.bind_eq_bind, Option.bind_some,
    String.toList_ofList, stripReturn]
  split
  · rename_i last
    obtain ⟨front, rfl⟩ : ∃ front, part = front ++ ['\r'] :=
      ⟨_, (dropLast_append_getLast? _ last).symm⟩
    have bytes : (String.ofList (front ++ ['\r'])).toList = [] ++ (front ++ ['\r']) :=
      String.toList_ofList
    have cut := packageSlice_parts bytes here.left
      (aligned_of_ascii (forall_mem_singleton.mpr (by decide)))
    rw [length_nil, Nat.zero_add] at cut
    rwa [length_append, length_singleton, Nat.add_sub_cancel, dropLast_concat]
  · rfl

/-- From the start of a line on. -/
theorem lineReads_from {start : Nat} (whole : value.toList = before ++ rest)
    (there : before.length = start) (aligned : Aligned rest) :
    lineReads value start
      = some ((rest.splitOn '\n').map fun line => String.ofList (stripReturn line)) := by
  induction length : rest.length using Nat.strong_induction_on generalizing before rest start with
  | _ size ih =>
    subst length there
    have inside : before.length ≤ value.toList.length := by simp [whole]
    have dropped : value.toList.drop before.length = rest := by rw [whole, drop_left]
    rw [lineReads, if_pos inside]
    rcases findPackageByte_cases value '\n' before.length with
      ⟨none, absent⟩ | ⟨part, after, search, parts, absent⟩
    · split
      · have ended : value.toList = before ++ (rest ++ []) := by rw [append_nil, whole]
        have cut := lineRead_eq ended (by rwa [append_nil]) aligned_nil
        rw [dropped] at absent
        rw [whole, length_append, cut, splitOn_eq_singleton absent]
        rfl
      · rename_i offset found
        cases none.symm.trans found
    · rw [dropped] at parts
      subst parts
      have behind : Aligned ('\n' :: after) := aligned.right (by simp)
      split
      · rename_i missed
        cases search.symm.trans missed
      · rename_i offset found
        cases search.symm.trans found
        have next : value.toList = (before ++ part ++ ['\n']) ++ after := by simp [whole]
        rw [lineRead_eq whole aligned behind, Option.bind_eq_bind, Option.bind_some,
          ih _ (by simp; omega) next (by simp [Nat.add_assoc]) (behind.tail (by decide)) rfl,
          splitOn_append_cons_self, splitOn_eq_singleton absent]
        rfl

/-- **A text is cut into its lines, and each of them into its tokens.** -/
theorem lineReads_eq (text : String) :
    ∃ lines, lineReads (utf8 text) 0 = some lines
      ∧ lines = ((utf8 text).toList.splitOn '\n').map (fun line => String.ofList (stripReturn line))
      ∧ ∀ line ∈ lines, tokenReads line 0 line.toList = some (tokenizePackageLine line) := by
  have cut := lineReads_from (nil_append _).symm rfl (aligned_utf8 text)
  refine ⟨_, cut, rfl, fun line mem => ?_⟩
  obtain ⟨bytes, present, rfl⟩ := mem_map.mp mem
  refine tokenReads_eq ?_
  rw [String.toList_ofList]
  exact aligned_line text present

end Cuts

end FoundationLang.Selfhost
