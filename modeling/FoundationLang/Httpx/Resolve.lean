/-
**What a redirect leads to.**
-/

import FoundationLang.Httpx.UrlShape

namespace FoundationLang.Httpx

open Library Outcome Standard List

variable {value input path : Str}

/-! ### Steps that succeed -/

theorem lift_eq_ok {α : Type} {r : Except RequestError α} {value : α} :
    lift r = .ok value ↔ r = .ok value := by
  cases r with
  | error =>
    constructor
    · rintro ⟨⟩
    · rintro ⟨⟩
  | ok =>
    constructor
    · rintro ⟨⟩
      rfl
    · rintro ⟨⟩
      rfl

theorem validatedRedirectURL_eq_ok {url : Str} (same : validatedRedirectURL value = .ok url) :
    url = value ∧ validAbsoluteURL value = true := by
  unfold validatedRedirectURL at same
  split at same
  · cases same
  · rename_i valid
    cases same
    exact ⟨rfl, by simpa using valid⟩

theorem normalizeAbsoluteRedirect_valid {url : Str}
    (same : normalizeAbsoluteRedirect value = .ok url) : validAbsoluteURL url = true := by
  obtain ⟨_, _, same⟩ := Outcome.bind_eq_ok.mp same
  obtain ⟨_, _, same⟩ := Outcome.bind_eq_ok.mp same
  obtain ⟨_, _, same⟩ := Outcome.bind_eq_ok.mp same
  obtain ⟨_, _, same⟩ := Outcome.bind_eq_ok.mp same
  obtain ⟨rfl, valid⟩ := validatedRedirectURL_eq_ok (lift_eq_ok.mp same)
  exact valid

/-! ### Paths -/

/-- Nothing, or a path from the root. -/
def Rooted (path : Str) : Prop :=
  ∀ byte, path.head? = some byte → byte = 47

theorem rooted_nil : Rooted [] := by
  rintro _ ⟨⟩

theorem rooted_cons {b : UInt8} : Rooted (b :: path) ↔ b = 47 := by
  constructor
  · exact fun rooted => rooted b rfl
  · rintro rfl _ ⟨⟩
    rfl

theorem Rooted.take (rooted : Rooted path) (n : ℕ) : Rooted (path.take n) := by
  cases path with
  | nil => rwa [take_nil]
  | cons =>
    cases n with
    | zero => exact rooted_nil
    | succ => exact rooted_cons.mpr (rooted_cons.mp rooted)

theorem Rooted.append {x y : Str} (rooted : Rooted x) (rooted' : Rooted y) :
    Rooted (x ++ y) := by
  cases x with
  | nil => exact rooted'
  | cons => exact rooted_cons.mpr (rooted_cons.mp rooted)

theorem Rooted.ends (rooted : Rooted path) : Ends path := by
  intro b x
  rw [rooted b x]
  rfl

theorem Rooted.not_startsWith {front : Str} (rooted : Rooted path) (nonempty : front ≠ [])
    (y : front.head? ≠ some 47) : ¬Str.startsWith path front = true := by
  intro begins
  obtain ⟨_, rfl⟩ := Str.startsWith_iff.mp begins
  cases front with
  | nil => exact nonempty rfl
  | cons b => exact y (congrArg Option.some (rooted b rfl))

theorem removeLastPathSegment_rooted {result : Str} (rooted : Rooted value)
    (same : removeLastPathSegment value = .ok result) : Rooted result := by
  unfold removeLastPathSegment at same
  dsimp only at same
  split at same
  · cases same
    exact rooted_nil
  · split at same
    · cases same
      exact rooted_nil
    · split at same
      · cases same
      · rename_i sliced
        cases same
        obtain ⟨_, _, rfl⟩ := Str.slice_eq_ok sliced
        exact rooted.take _

theorem segmentEnd_eq (input : Str) :
    segmentEnd input = firstByteOf input (if urlByteAt input 0 == 47 then 1 else 0) 47 0 := by
  have inside : firstByteOf input (if urlByteAt input 0 == 47 then 1 else 0) 47 0 ≤ input.length :=
    firstByte_le _ _ _
  unfold segmentEnd
  dsimp only
  generalize firstByteOf input (if urlByteAt input 0 == 47 then 1 else 0) 47 0 = slash at inside ⊢
  split <;> omega

/-- What is left behind a segment begins with the next `/`. -/
theorem rooted_tail (rooted : Rooted input) : Rooted (input.drop (segmentEnd input)) := by
  cases input with
  | nil =>
    rw [drop_nil]
    exact rooted_nil
  | cons byte rest =>
    obtain rfl := rooted_cons.mp rooted
    rw [segmentEnd_eq]
    change Rooted (List.drop (firstByte _ ([47] ++ rest) [(47 : UInt8)].length) ([47] ++ rest))
    rw [drop_firstByte]
    intro byte x
    have stopped := List.head?_dropWhile_not
      (fun byte : UInt8 => !(byte.toNat == 47 || (0 != 0 && byte.toNat == 0))) rest
    rw [x] at stopped
    refine UInt8.toNat_inj.mp ?_
    simpa using stopped

theorem dotRound_rooted {output input' output' : Str} (rooted : Rooted input)
    (rooted' : Rooted output) (same : dotRound input output = .ok (input', output')) :
    Rooted input' ∧ Rooted output' := by
  unfold dotRound at same
  rw [if_neg (rooted.not_startsWith (by decide) (by decide)),
    if_neg (rooted.not_startsWith (by decide) (by decide))] at same
  split at same
  · obtain ⟨tail, _, same⟩ := Outcome.bind_eq_ok.mp same
    cases same
    exact ⟨rooted_cons.mpr rfl, rooted'⟩
  · split at same
    · cases same
      exact ⟨rooted_cons.mpr rfl, rooted'⟩
    · split at same
      · obtain ⟨tail, _, same⟩ := Outcome.bind_eq_ok.mp same
        obtain ⟨shorter, removed, same⟩ := Outcome.bind_eq_ok.mp same
        cases same
        exact ⟨rooted_cons.mpr rfl, removeLastPathSegment_rooted rooted' removed⟩
      · split at same
        · obtain ⟨_, removed, same⟩ := Outcome.bind_eq_ok.mp same
          cases same
          exact ⟨rooted_cons.mpr rfl, removeLastPathSegment_rooted rooted' removed⟩
        · split at same
          · cases same
            exact ⟨rooted_nil, rooted'⟩
          · obtain ⟨_, sliced, same⟩ := Outcome.bind_eq_ok.mp same
            obtain ⟨_, sliced', same⟩ := Outcome.bind_eq_ok.mp same
            cases same
            obtain ⟨_, _, rfl⟩ := urlSlice_eq_ok (lift_eq_ok.mp sliced)
            obtain ⟨_, _, rfl⟩ := urlSlice_eq_ok (lift_eq_ok.mp sliced')
            rw [drop_zero, take_length]
            exact ⟨rooted_tail rooted, rooted'.append (rooted.take _)⟩

theorem dotLoop_rooted {k : ℕ} {output result : Str} (rooted : Rooted input)
    (rooted' : Rooted output) (same : dotLoop k input output = .ok result) :
    Rooted result := by
  induction k generalizing input output with
  | zero =>
    cases same
    exact rooted'
  | succ k ih =>
    rw [dotLoop] at same
    split at same
    · cases same
      exact rooted'
    · obtain ⟨⟨_, _⟩, round, same⟩ := Outcome.bind_eq_ok.mp same
      obtain ⟨rooted, rooted'⟩ := dotRound_rooted rooted rooted' round
      exact ih rooted rooted' same

/-- **A path from the root stays one.** -/
theorem removeDotSegments_rooted {result : Str} (rooted : Rooted path)
    (same : removeDotSegments path = .ok result) : Rooted result :=
  dotLoop_rooted rooted rooted_nil same

/-! ### The loop ends -/

theorem segmentEnd_pos (some : input ≠ []) : 0 < segmentEnd input := by
  rw [segmentEnd_eq]
  unfold firstByteOf
  cases input with
  | nil => exact absurd rfl some
  | cons b rest =>
    rcases slash : urlByteAt (b :: rest) 0 == 47 with _ | _
    · have other : (b.toNat == 47 || (0 != 0 && b.toNat == 0)) = false := by
        change (b.toNat == 47) = false at slash
        rw [slash]
        rfl
      rw [if_neg Bool.false_ne_true, firstByte_eq _ (Nat.zero_le _), drop_zero,
        findIdx_cons, other]
      exact Nat.lt_add_left 0 (Nat.succ_pos _)
    · rw [if_pos rfl, firstByte_eq _ (by simp)]
      omega

theorem dotRound_shorter {output input' output' : Str} (some : input ≠ [])
    (same : dotRound input output = .ok (input', output')) : input'.length < input.length := by
  have pos := length_pos_iff.mpr some
  unfold dotRound at same
  split at same
  · obtain ⟨tail, sliced, same⟩ := Outcome.bind_eq_ok.mp same
    cases same
    obtain ⟨_, _, rfl⟩ := urlSlice_eq_ok (lift_eq_ok.mp sliced)
    rw [take_length, length_drop]
    omega
  · split at same
    · obtain ⟨tail, sliced, same⟩ := Outcome.bind_eq_ok.mp same
      cases same
      obtain ⟨_, _, rfl⟩ := urlSlice_eq_ok (lift_eq_ok.mp sliced)
      rw [take_length, length_drop]
      omega
    · split at same
      · obtain ⟨tail, sliced, same⟩ := Outcome.bind_eq_ok.mp same
        cases same
        obtain ⟨_, _, rfl⟩ := urlSlice_eq_ok (lift_eq_ok.mp sliced)
        rw [take_length, length_append, length_drop]
        change 1 + _ < _
        omega
      · split at same
        · rename_i last
          cases same
          rw [beq_iff_eq.mp last]
          decide
        · split at same
          · obtain ⟨tail, sliced, same⟩ := Outcome.bind_eq_ok.mp same
            obtain ⟨_, _, same⟩ := Outcome.bind_eq_ok.mp same
            cases same
            obtain ⟨_, _, rfl⟩ := urlSlice_eq_ok (lift_eq_ok.mp sliced)
            rw [take_length, length_append, length_drop]
            change 1 + _ < _
            omega
          · split at same
            · rename_i last
              obtain ⟨_, _, same⟩ := Outcome.bind_eq_ok.mp same
              cases same
              rw [beq_iff_eq.mp last]
              decide
            · split at same
              · cases same
                exact pos
              · obtain ⟨segment, sliced, same⟩ := Outcome.bind_eq_ok.mp same
                obtain ⟨tail, sliced', same⟩ := Outcome.bind_eq_ok.mp same
                cases same
                obtain ⟨_, _, rfl⟩ := urlSlice_eq_ok (lift_eq_ok.mp sliced')
                rw [take_length, length_drop]
                have := segmentEnd_pos some
                omega

/-- More rounds make no difference. -/
theorem dotLoop_rounds {k rounds' : ℕ} (enough : input.length ≤ k)
    (enough' : input.length ≤ rounds') (output : Str) :
    dotLoop k input output = dotLoop rounds' input output := by
  induction k generalizing rounds' input output with
  | zero =>
    obtain rfl := length_eq_zero_iff.mp (Nat.le_zero.mp enough)
    cases rounds' <;> rfl
  | succ k ih =>
    cases input with
    | nil => cases rounds' <;> rfl
    | cons b input =>
      rw [length_cons] at enough enough'
      obtain ⟨rounds', rfl⟩ := Nat.exists_eq_add_of_le' (Nat.le_trans (Nat.succ_pos _) enough')
      rw [dotLoop, dotLoop]
      split
      · rfl
      · rcases round : dotRound (b :: input) output with stop | ⟨input', output'⟩
        · rfl
        · have shorter := dotRound_shorter (cons_ne_nil _ _) round
          rw [length_cons] at shorter
          exact ih (by omega) (by omega) output'

/-- **The loop of `removeDotSegments` ends**: a round leaves a shorter input, and with as many rounds as
the input has bytes the loop is not cut off. -/
theorem dotLoop_enough (input output : Str) :
    (∀ input' output', input ≠ [] → dotRound input output = .ok (input', output') →
      input'.length < input.length) ∧
    ∀ rounds, input.length ≤ rounds → dotLoop rounds input output = dotLoop input.length input output :=
  ⟨fun _ _ => dotRound_shorter, fun _ enough => dotLoop_rounds enough (Nat.le_refl _) output⟩

/-! ### References -/

section References

variable {base location url : Str} {parts : UrlParts} {rest : Str}

/-- The base URL with something else behind its authority. -/
def moved (parts : UrlParts) (rest : Str) : Str :=
  parts.scheme ++ ascii "://" ++ (parts.authority ++ rest)

theorem Shape.moved {rest' : Str} (shape : Shape base parts rest) (ends : Ends rest')
    (bytes : validURLBytes (Httpx.moved parts rest') = true) :
    parseAbsoluteURL (Httpx.moved parts rest') = .ok parts :=
  parseAbsoluteURL_iff.mpr
    ⟨rest', rfl, shape.start, shape.scheme, shape.authority, shape.inside, ends, bytes⟩

theorem bytes_of_parsed {parts' : UrlParts} (parsed : parseAbsoluteURL value = .ok parts') :
    validURLBytes value = true := by
  obtain ⟨_, shape⟩ := parseAbsoluteURL_shape parsed
  exact shape.bytes

theorem bytes_of_valid (valid : validAbsoluteURL value = true) : validURLBytes value = true := by
  unfold validAbsoluteURL at valid
  split at valid
  · cases valid
  · rename_i target known
    obtain ⟨_, _, parsed, _⟩ := networkTargetFor_iff.mp known
    exact bytes_of_parsed parsed

/-- A valid URL that differs from the base only behind the authority. -/
def Stays (parts : UrlParts) (url : Str) : Prop :=
  ∃ rest, Ends rest ∧ url = moved parts rest ∧ validAbsoluteURL url = true

theorem Stays.sameOrigin (stays : Stays parts url) (shape : Shape base parts rest) :
    sameOrigin base url = true := by
  obtain ⟨_, ends, rfl, valid⟩ := stays
  exact sameOrigin_of_parts shape.parsed (shape.moved ends (bytes_of_valid valid)) rfl rfl valid

theorem stays_of_validated (rest' : Str) (same : value = moved parts rest') (ends : Ends rest')
    (validated : lift (validatedRedirectURL value) = .ok url) : Stays parts url := by
  obtain ⟨rfl, valid⟩ := validatedRedirectURL_eq_ok (lift_eq_ok.mp validated)
  exact ⟨rest', ends, same, valid⟩

theorem Shape.front (shape : Shape base parts rest) (keep : UInt8 → Bool)
    (keeps : ∀ b, endsAuthority b.toNat = false → keep b = true)
    (slash : keep 47 = true) (more : Str) :
    (Httpx.moved parts more).takeWhile keep = Httpx.moved parts (more.takeWhile keep) := by
  have scheme : ∀ b ∈ parts.scheme ++ ascii "://", keep b = true := by
    intro b mem
    rcases mem_append.mp mem with mem | mem
    · refine keeps b ?_
      rcases ended : endsAuthority b.toNat with _ | _
      · rfl
      · refine absurd mem ?_
        simp only [endsAuthority, Bool.or_eq_true, beq_iff_eq] at ended
        have which : b = 47 ∨ b = 63 ∨ b = 35 := by
          rcases ended with (ended | ended) | ended
          · exact .inl (UInt8.toNat_inj.mp ended)
          · exact .inr (.inl (UInt8.toNat_inj.mp ended))
          · exact .inr (.inr (UInt8.toNat_inj.mp ended))
        rcases shape.scheme with known | known <;> rcases which with rfl | rfl | rfl
        all_goals exact not_mem_of_equalFold known (by decide)
    · have which : b = 58 ∨ b = 47 := by
        change b ∈ [58, 47, 47] at mem
        simpa using mem
      rcases which with rfl | rfl
      · exact keeps 58 rfl
      · exact slash
  unfold Httpx.moved
  rw [takeWhile_append_of_pos scheme,
    takeWhile_append_of_pos fun b mem => keeps b (shape.inside b mem)]

theorem take_firstByteOf (value : Str) (first y : ℕ) :
    value.take (firstByteOf value 0 first y) =
      value.takeWhile fun b => !(b.toNat == first || (y != 0 && b.toNat == y)) :=
  take_firstByte _ [] value

/-- What is in front of a query or a fragment keeps the authority. -/
theorem slice_moved (shape : Shape base parts rest) {first y : ℕ}
    (ended : ∀ b, endsAuthority b = false →
      (b == first || (y != 0 && b == y)) = false)
    (slash : (47 == first || (y != 0 && 47 == y)) = false)
    (sliced : Str.slice base 0 (firstByteOf base 0 first y) = .ok value) :
    ∃ rest', Ends rest' ∧ value = moved parts rest' := by
  obtain ⟨_, _, rfl⟩ := Str.slice_eq_ok sliced
  rw [drop_zero, take_firstByteOf, shape.whole]
  refine ⟨_, shape.ends.takeWhile _, shape.front _ ?_ ?_ rest⟩
  · intro b plain
    rw [ended _ plain]
    rfl
  · change (!(47 == first || (y != 0 && 47 == y))) = true
    rw [slash]
    rfl

theorem withoutFragment_moved (shape : Shape base parts rest)
    (same : withoutFragment base = .ok value) :
    ∃ rest', Ends rest' ∧ value = moved parts rest' := by
  unfold withoutFragment at same
  split at same
  · cases same
  · rename_i sliced
    cases same
    refine slice_moved shape ?_ rfl sliced
    intro b plain
    simp only [endsAuthority, Bool.or_eq_false_iff] at plain
    simp [plain]

theorem withoutQueryOrFragment_moved (shape : Shape base parts rest)
    (same : withoutQueryOrFragment base = .ok value) :
    ∃ rest', Ends rest' ∧ value = moved parts rest' := by
  unfold withoutQueryOrFragment at same
  split at same
  · cases same
  · rename_i sliced
    cases same
    refine slice_moved shape ?_ rfl sliced
    intro b plain
    simp only [endsAuthority, Bool.or_eq_false_iff] at plain
    simp [plain]

theorem moved_append (parts : UrlParts) (x y : Str) :
    moved parts x ++ y = moved parts (x ++ y) := by
  simp [moved]

theorem Shape.length (shape : Shape base parts rest) :
    parts.pathStart = (parts.scheme ++ ascii "://" ++ parts.authority).length := by
  rw [shape.start, length_append, length_append]
  rfl

theorem path_of_moved (shape : Shape base parts rest) (more : Str) :
    (moved parts more).take (firstByteOf (moved parts more) parts.pathStart 63 35) =
        moved parts (more.takeWhile fun b =>
          !(b.toNat == 63 || (35 != 0 && b.toNat == 35))) ∧
      (moved parts more).drop (firstByteOf (moved parts more) parts.pathStart 63 35) =
        more.dropWhile fun b => !(b.toNat == 63 || (35 != 0 && b.toNat == 35)) := by
  have split : moved parts more = (parts.scheme ++ ascii "://" ++ parts.authority) ++ more := by
    simp [moved]
  rw [shape.length, split]
  unfold firstByteOf
  rw [take_firstByte, drop_firstByte]
  exact ⟨by simp [moved], rfl⟩

/-- What is behind a path begins with `?` or `#`. -/
theorem ends_suffix (more : Str) :
    Ends (more.dropWhile fun byte => !(byte.toNat == 63 || (35 != 0 && byte.toNat == 35))) := by
  intro byte x
  have stopped := List.head?_dropWhile_not
    (fun byte : UInt8 => !(byte.toNat == 63 || (35 != 0 && byte.toNat == 35))) more
  rw [x] at stopped
  simp only [endsAuthority] at stopped ⊢
  simp at stopped ⊢
  omega

theorem stays_of_path {suffix : Str} (rooted : Rooted path) (ends : Ends suffix)
    (validated : lift (validatedRedirectURL
      (parts.scheme ++ ascii "://" ++ parts.authority ++ path ++ suffix)) = .ok url) :
    Stays parts url := by
  refine stays_of_validated (path ++ suffix) ?_ (rooted.ends.append fun _ => ends) validated
  simp [moved]

section

variable (shape : Shape base parts rest)
include shape

/-- A path from the root replaces the path of the base. -/
theorem normalize_moved (rooted : Rooted location)
    (resolved : normalizeAbsoluteRedirect (moved parts location) = .ok url) : Stays parts url := by
  unfold normalizeAbsoluteRedirect at resolved
  obtain ⟨_, parsed, resolved⟩ := Outcome.bind_eq_ok.mp resolved
  obtain ⟨path, sliced, resolved⟩ := Outcome.bind_eq_ok.mp resolved
  obtain ⟨_, sliced', resolved⟩ := Outcome.bind_eq_ok.mp resolved
  obtain ⟨_, removed, validated⟩ := Outcome.bind_eq_ok.mp resolved
  rw [lift_eq_ok] at parsed sliced sliced'
  rw [shape.moved rooted.ends (bytes_of_parsed parsed)] at parsed
  cases parsed
  obtain ⟨front, back⟩ := path_of_moved shape location
  obtain ⟨_, _, rfl⟩ := urlSlice_eq_ok sliced
  obtain ⟨_, _, rfl⟩ := urlSlice_eq_ok sliced'
  rw [front, shape.length] at removed
  rw [take_length, back] at validated
  have path : (moved parts (location.takeWhile fun b =>
      !(b.toNat == 63 || (35 != 0 && b.toNat == 35)))).drop
        (parts.scheme ++ ascii "://" ++ parts.authority).length =
      location.takeWhile fun b => !(b.toNat == 63 || (35 != 0 && b.toNat == 35)) := by
    unfold moved
    rw [← append_assoc, drop_left]
  rw [path] at removed
  have rooted' : Rooted (location.takeWhile fun b =>
      !(b.toNat == 63 || (35 != 0 && b.toNat == 35))) := by
    rw [takeWhile_eq_take_findIdx_not]
    exact rooted.take _
  exact stays_of_path (removeDotSegments_rooted rooted' removed) (ends_suffix location) validated

theorem Shape.rooted
    (longer : parts.pathStart < firstByteOf base parts.pathStart 63 35) :
    rest ≠ [] ∧ Rooted rest := by
  have whole : base = (parts.scheme ++ ascii "://" ++ parts.authority) ++ rest := by
    rw [shape.whole]
    simp
  rw [whole, shape.length] at longer
  unfold firstByteOf at longer
  rw [firstByte_eq _ (by simp), drop_left] at longer
  have ends := shape.ends
  cases rest with
  | nil =>
    rw [findIdx_nil] at longer
    omega
  | cons b =>
    refine ⟨cons_ne_nil _ _, rooted_cons.mpr ?_⟩
    have ended := ends_cons.mp ends
    rw [findIdx_cons] at longer
    rcases query : b.toNat == 63 || (35 != 0 && b.toNat == 35) with _ | _
    · refine UInt8.toNat_inj.mp ?_
      simp [endsAuthority] at ended query
      change b.toNat = 47
      omega
    · rw [query, cond_true] at longer
      omega

theorem baseDirectory_rooted {directory : Str}
    (same : baseDirectory base parts.pathStart (firstByteOf base parts.pathStart 63 35) =
      .ok directory) : directory ≠ [] ∧ Rooted directory := by
  unfold baseDirectory at same
  split at same
  · cases same
    exact ⟨by decide, rooted_cons.mpr rfl⟩
  · rename_i longer
    dsimp only at same
    split at same
    · cases same
      exact ⟨by decide, rooted_cons.mpr rfl⟩
    · rename_i slash
      obtain ⟨nonempty, rooted⟩ := shape.rooted (by omega)
      obtain ⟨_, _, rfl⟩ := urlSlice_eq_ok same
      have inside := seekLast_cases 47
        ((base.take (firstByteOf base parts.pathStart 63 35)).drop parts.pathStart)
        parts.pathStart (firstByteOf base parts.pathStart 63 35)
      change lastByte base parts.pathStart (firstByteOf base parts.pathStart 63 35) 47 = _ ∨
        _ ≤ lastByte base parts.pathStart (firstByteOf base parts.pathStart 63 35) 47 ∧ _ at inside
      rcases inside with same | ⟨behind, _⟩
      · exact absurd (beq_iff_eq.mpr same) slash
      · have back : base.drop parts.pathStart = rest := by
          rw [shape.whole, shape.length, ← append_assoc, drop_left]
        rw [drop_take, back]
        refine ⟨?_, rooted.take _⟩
        intro empty
        rcases take_eq_nil_iff.mp empty with zero | none
        · omega
        · exact nonempty none

theorem resolveRelativePath_stays
    (resolved : resolveRelativePath base location parts = .ok url) : Stays parts url := by
  unfold resolveRelativePath at resolved
  obtain ⟨dir, based, resolved⟩ := Outcome.bind_eq_ok.mp resolved
  obtain ⟨path, sliced, resolved⟩ := Outcome.bind_eq_ok.mp resolved
  obtain ⟨suffix, sliced', resolved⟩ := Outcome.bind_eq_ok.mp resolved
  obtain ⟨_, removed, validated⟩ := Outcome.bind_eq_ok.mp resolved
  rw [lift_eq_ok] at based sliced sliced'
  obtain ⟨nonempty, rooted⟩ := baseDirectory_rooted shape based
  obtain ⟨_, _, rfl⟩ := urlSlice_eq_ok sliced'
  have suffix : (location.take location.length).drop (firstByteOf location 0 63 35) =
      location.dropWhile fun b => !(b.toNat == 63 || (35 != 0 && b.toNat == 35)) := by
    rw [take_length]
    exact drop_firstByte _ [] location
  have rooted' : Rooted (dir ++ path) := by
    cases dir with
    | nil => exact absurd rfl nonempty
    | cons => exact rooted_cons.mpr (rooted_cons.mp rooted)
  refine stays_of_path (removeDotSegments_rooted rooted' removed) ?_ validated
  rw [suffix]
  exact ends_suffix location

end

theorem ends_of_startsWith {b : UInt8} (begins : Str.startsWith location [b] = true)
    (ended : endsAuthority b.toNat = true) : Ends location := by
  obtain ⟨_, rfl⟩ := Str.startsWith_iff.mp begins
  exact ends_cons.mpr ended

/-- **A reference that does not begin with `//` changes only what is behind the authority.** -/
theorem resolveReference_stays (shape : Shape base parts rest)
    (inner : Str.startsWith location (ascii "//") = false)
    (resolved : resolveReference base location parts = .ok url) : Stays parts url := by
  unfold resolveReference at resolved
  rw [inner] at resolved
  split at resolved
  · cases resolved
  · rw [if_neg Bool.false_ne_true] at resolved
    split at resolved
    · obtain ⟨value, cut, validated⟩ := Outcome.bind_eq_ok.mp resolved
      obtain ⟨rest', ends, same⟩ := withoutFragment_moved shape cut
      exact stays_of_validated rest' same ends validated
    · split at resolved
      · rename_i begins
        obtain ⟨value, cut, validated⟩ := Outcome.bind_eq_ok.mp resolved
        obtain ⟨rest', ends, rfl⟩ := withoutFragment_moved shape cut
        exact stays_of_validated _ (moved_append _ _ _)
          (ends.append fun _ => ends_of_startsWith begins rfl) validated
      · split at resolved
        · rename_i begins
          obtain ⟨_, cut, validated⟩ := Outcome.bind_eq_ok.mp resolved
          obtain ⟨_, ends, rfl⟩ := withoutQueryOrFragment_moved shape cut
          exact stays_of_validated _ (moved_append _ _ _)
            (ends.append fun _ => ends_of_startsWith begins rfl) validated
        · split at resolved
          · rename_i begins
            obtain ⟨_, rfl⟩ := Str.startsWith_iff.mp begins
            rw [append_assoc] at resolved
            exact normalize_moved shape (rooted_cons.mpr rfl) resolved
          · exact resolveRelativePath_stays shape resolved

theorem resolveReference_valid (shape : Shape base parts rest)
    (resolved : resolveReference base location parts = .ok url) : validAbsoluteURL url = true := by
  rcases inner : Str.startsWith location (ascii "//") with _ | _
  · obtain ⟨_, _, _, valid⟩ := resolveReference_stays shape inner resolved
    exact valid
  · unfold resolveReference at resolved
    rw [inner, if_pos rfl] at resolved
    split at resolved
    · cases resolved
    · exact normalizeAbsoluteRedirect_valid resolved

end References

/-- **Every redirect leads to a valid URL.** -/
theorem resolveRedirectURL_valid {base location url : Str}
    (resolved : resolveRedirectURL base location = .ok url) : validAbsoluteURL url = true := by
  unfold resolveRedirectURL at resolved
  split at resolved
  · exact normalizeAbsoluteRedirect_valid resolved
  · obtain ⟨_, parsed, resolved⟩ := Outcome.bind_eq_ok.mp resolved
    obtain ⟨_, shape⟩ := parseAbsoluteURL_shape (lift_eq_ok.mp parsed)
    exact resolveReference_valid shape resolved

/-- **A redirect stays at its origin**, unless the location is an absolute URL or begins with
`//`. -/
theorem resolveRedirectURL_origin {base location url : Str}
    (relative : validAbsoluteURL location = false)
    (inner : Str.startsWith location (ascii "//") = false)
    (resolved : resolveRedirectURL base location = .ok url) : sameOrigin base url = true := by
  unfold resolveRedirectURL at resolved
  rw [relative, if_neg Bool.false_ne_true] at resolved
  obtain ⟨_, parsed, resolved⟩ := Outcome.bind_eq_ok.mp resolved
  obtain ⟨_, shape⟩ := parseAbsoluteURL_shape (lift_eq_ok.mp parsed)
  exact (resolveReference_stays shape inner resolved).sameOrigin shape

end FoundationLang.Httpx
