/-
**The matcher finds what the pattern language says.**
-/

import FoundationLang.Standard.PatternValidity

namespace FoundationLang.Standard.Pattern

open Library Outcome List

variable {word : List UInt8} {pieces : List Piece} {anchoredEnd : Bool} {later : MatchBudget}
variable {holds other : Prop} {atom : Atom}
  {outcome : Bool × MatchBudget} {budget : MatchBudget}

/-! ### Matches by the number of bytes that an atom takes -/

/-- A quantifier allows so many bytes. -/
def Quantifier.allows (quantifier : Quantifier) (count : ℕ) : Prop :=
  match quantifier with
  | once => count = 1
  | star => True
  | plus => 1 ≤ count
  | optional => count ≤ 1

theorem begins_quantifier {quantifier : Quantifier} {later : List UInt8 → Prop} :
    Begins (quantifier.language atom.language) later word ↔
      ∃ count, quantifier.allows count ∧
        Takes (fun b => atom.accepts b = true) later word count := by
  cases quantifier with
  | once =>
    show Begins (symbols _) later word ↔ ∃ count, count = 1 ∧ _
    rw [begins_symbols_iff_takes]
    simp
  | star =>
    show Begins _ later word ↔ ∃ count, True ∧ _
    simp only [true_and]
    exact begins_kstar_symbols
  | plus => exact begins_mul_kstar_symbols
  | optional => exact begins_one_add_symbols

/-- The pieces match at the start of a word. -/
def MatchesAt (pieces : List Piece) (anchoredEnd : Bool) (word : List UInt8) : Prop :=
  Begins (language pieces) (fun behind => anchoredEnd = true → behind = []) word

theorem matchesAt_nil : MatchesAt [] anchoredEnd word ↔ (anchoredEnd = true → word = []) :=
  begins_one

theorem matchesAt_cons {quantifier : Quantifier} :
    MatchesAt (⟨atom, quantifier⟩ :: pieces) anchoredEnd word ↔
      ∃ count, quantifier.allows count ∧
        Takes (fun b => atom.accepts b = true) (MatchesAt pieces anchoredEnd) word count := by
  show Begins (quantifier.language atom.language * language pieces) _ word ↔ _
  rw [begins_mul, begins_quantifier]
  rfl

theorem found_iff {regex : Regex} {text : List UInt8} : regex.Found text ↔
    ∃ start, start ≤ text.length ∧ (regex.anchoredStart = true → start = 0) ∧
      MatchesAt regex.pieces regex.anchoredEnd (text.drop start) := by
  constructor
  · rintro ⟨before, inside, behind, rfl, mem, x, last⟩
    refine ⟨before.length, by simp, fun anchored => ?_, inside, behind, ?_, mem, last⟩
    · rw [x anchored]
      rfl
    · rw [append_assoc, drop_left]
  · rintro ⟨start, _, x, inside, behind, same, mem, last⟩
    refine ⟨text.take start, inside, behind, ?_, mem, fun anchored => ?_, last⟩
    · rw [append_assoc, ← same, take_append_drop]
    · rw [x anchored, take_zero]

/-! ### What a search returns -/

/-- **What a search returned is right**, within the budget that it was given. -/
structure Agrees (budget : MatchBudget) (outcome : Bool × MatchBudget) (holds : Prop) : Prop where
  limit : outcome.2.limit = budget.limit
  used : budget.used ≤ outcome.2.used
  sound : outcome.1 = true → holds
  complete : outcome.2.used < outcome.2.limit → holds → outcome.1 = true

/-- The fuel is enough for what is left of the budget. -/
def Fueled (fuel : ℕ) (budget : MatchBudget) : Prop :=
  budget.limit < 2 ^ 64 ∧ budget.limit - budget.used ≤ fuel

theorem Agrees.fueled {fuel : ℕ} {holds : Prop} (agrees : Agrees budget outcome holds)
    (fueled : Fueled fuel budget) : Fueled fuel outcome.2 := by
  have limit := agrees.limit
  have used := agrees.used
  obtain ⟨small, enough⟩ := fueled
  exact ⟨by omega, by omega⟩

theorem Agrees.earlier {holds holds' : Prop}
    (agrees : Agrees later outcome holds) (limit : later.limit = budget.limit)
    (used : budget.used ≤ later.used) (same : holds' ↔ holds) : Agrees budget outcome holds' where
  limit := agrees.limit.trans limit
  used := Nat.le_trans used agrees.used
  sound found := same.mpr (agrees.sound found)
  complete left holds' := agrees.complete left (same.mp holds')

theorem agrees_false {holds : Prop} (limit : later.limit = budget.limit)
    (used : budget.used ≤ later.used) (none : later.used < later.limit → ¬holds) :
    Agrees budget (false, later) holds where
  limit := limit
  used := used
  sound := by rintro ⟨⟩
  complete left holds := absurd holds (none left)

theorem Agrees.or_left
    (agrees : Agrees budget (true, later) holds) : Agrees budget (true, later) (holds ∨ other) where
  limit := agrees.limit
  used := agrees.used
  sound _ := .inl (agrees.sound rfl)
  complete _ _ := rfl

/-- **A search that goes on when nothing was found finds what is in either place.** When the budget is
not used up in the end, it was not used up in between. -/
theorem Agrees.or_right
    (agrees : Agrees budget (false, later) holds) (agrees' : Agrees later outcome other) :
    Agrees budget outcome (holds ∨ other) where
  limit := agrees'.limit.trans agrees.limit
  used := Nat.le_trans agrees.used agrees'.used
  sound found := .inr (agrees'.sound found)
  complete left either := by
    have limit := agrees'.limit
    have used := agrees'.used
    have before : later.used < later.limit := by omega
    rcases either with holds | other
    · exact absurd (agrees.complete before holds) Bool.false_ne_true
    · exact agrees'.complete left other

/-- **The candidates.** They are tried until one is found or the budget is used up. -/
theorem tryCandidates_ok (next : ℕ → MatchBudget → Run (Bool × MatchBudget)) {required fuel : ℕ}
    {holds : ℕ → Prop} (extra : ℕ) :
    (∀ more ≤ extra, ∀ budget, Fueled fuel budget → ∃ outcome,
      next (required + more) budget = .ok outcome ∧ Agrees budget outcome (holds more)) →
    ∀ budget, Fueled fuel budget → ∃ outcome,
      tryCandidates next required extra budget = .ok outcome ∧
        Agrees budget outcome (∃ more, more ≤ extra ∧ holds more) := by
  induction extra with
  | zero =>
    intro tries budget fueled
    obtain ⟨outcome, tried, agrees⟩ := tries 0 (Nat.le_refl 0) budget fueled
    refine ⟨outcome, tried, agrees.earlier rfl (Nat.le_refl _) ?_⟩
    simp
  | succ extra ih =>
    intro tries budget fueled
    have either : (∃ more, more ≤ extra + 1 ∧ holds more) ↔
        holds (extra + 1) ∨ ∃ more, more ≤ extra ∧ holds more := by
      constructor
      · rintro ⟨more, least, holds⟩
        rcases Nat.le_succ_iff.mp least with less | rfl
        · exact .inr ⟨more, less, holds⟩
        · exact .inl holds
      · rintro (holds | ⟨more, least, holds⟩)
        · exact ⟨extra + 1, Nat.le_refl _, holds⟩
        · exact ⟨more, Nat.le_succ_of_le least, holds⟩
    obtain ⟨⟨found, later⟩, tried, agrees⟩ := tries (extra + 1) (Nat.le_refl _) budget fueled
    unfold tryCandidates
    rw [tried, ok_bind, either]
    cases found with
    | true => exact ⟨_, rfl, agrees.or_left⟩
    | false =>
      obtain ⟨outcome, tried', agrees'⟩ := ih
        (fun more least => tries more (Nat.le_succ_of_le least)) later (agrees.fueled fueled)
      exact ⟨outcome, tried', agrees.or_right agrees'⟩

/-! ### The quantifier of an atom -/

/-- The byte of a quantifier. -/
def Quantifier.code : Quantifier → Option ℕ
  | once => none
  | star => some 42
  | plus => some 43
  | optional => some 63

theorem Spells.not_quantifier {body rest : List UInt8} {b : UInt8} (spells : Spells body pieces)
    (head : body = b :: rest) : quantifier b.toNat = false := by
  cases spells with
  | nil => cases head
  | cons sign x =>
    cases x with
    | any | escaped | oneOf | noneOf =>
      obtain ⟨rfl, _⟩ := cons_eq_cons.mp head
      decide
    | literal b' behind plain =>
      obtain ⟨rfl, _⟩ := cons_eq_cons.mp head
      obtain ⟨supported, _⟩ := not_special plain
      simp only [unsupported, Bool.or_eq_false_iff] at supported
      exact supported.1.1.1.1.1.1.1

section

variable {value pattern : Text} {stop : ℕ}

theorem quantifierBehind_eq {sign : Quantifier} {behind : List UInt8} {nextAtom : ℕ}
    (spells : Spells behind pieces) (there : At pattern.bytes nextAtom (sign.spelling ++ behind))
    (whole : stop = nextAtom + (sign.spelling ++ behind).length) :
    quantifierBehind pattern nextAtom stop = .ok sign.code := by
  rw [length_append] at whole
  unfold quantifierBehind
  cases sign with
  | once =>
    cases behind with
    | nil =>
      rw [if_neg (by rw [whole]; exact Nat.lt_irrefl _)]
      rfl
    | cons =>
      rw [length_cons] at whole
      rw [if_pos (by omega), byteAt_bind there, spells.not_quantifier rfl]
      rfl
  | star | plus | optional =>
    rw [Quantifier.spelling, length_singleton] at whole
    rw [if_pos (by omega), byteAt_bind there]
    rfl

/-- **As many bytes as possible are taken.** -/
theorem takeMost_ok {i : ℕ} {spelling behind : List UInt8} (quantifier : ℕ)
    (spells : SpellsAtom spelling behind atom)
    (there : At pattern.bytes i (spelling ++ behind))
    (whole : stop = i + (spelling ++ behind).length) (word : List UInt8) :
    ∀ {maximum : ℕ}, At value.bytes maximum word → ∃ count,
      takeMost value pattern i stop quantifier maximum word.length = .ok (maximum + count) ∧
      count ≤ word.length ∧ (∀ b ∈ word.take count, atom.accepts b = true) ∧
      (quantifier = 63 → count ≤ 1) ∧
      ∀ other ≤ word.length, (∀ b ∈ word.take other, atom.accepts b = true) →
        (quantifier = 63 → other ≤ 1) → other ≤ count := by
  induction word with
  | nil =>
    intro maximum _
    exact ⟨0, rfl, Nat.le_refl 0, by simp, by omega, fun other least _ _ => least⟩
  | cons b word ih =>
    intro maximum at'
    have small := position_lt at'
    rw [length_cons] at small
    rw [length_cons]
    unfold takeMost
    rw [byteAt_bind at', atomMatches_eq spells there whole, ok_bind]
    by_cases ran : atom.accepts b = true
    · rw [if_pos ran, checked_bind (by omega)]
      by_cases single : quantifier = 63
      · rw [if_pos single]
        refine ⟨1, rfl, by omega, ?_, fun _ => Nat.le_refl 1, fun other _ _ few => few single⟩
        intro other mem
        rw [take_succ_cons, take_zero] at mem
        obtain rfl := mem_singleton.mp mem
        exact ran
      · obtain ⟨count, same, least, all, _, most⟩ := ih at'.tail
        rw [if_neg single, same]
        refine ⟨count + 1, by rw [Nat.add_assoc, Nat.add_comm 1], by omega, ?_,
          fun optional => absurd optional single, ?_⟩
        · intro other mem
          rw [take_succ_cons] at mem
          rcases mem_cons.mp mem with rfl | mem
          · exact ran
          · exact all other mem
        · intro other least' all' _
          cases other with
          | zero => exact Nat.zero_le _
          | succ other =>
            rw [take_succ_cons] at all'
            exact Nat.succ_le_succ (most other (by omega)
              (fun b mem => all' b (mem_cons_of_mem _ mem))
              fun optional => absurd optional single)
    · rw [if_neg ran]
      refine ⟨0, rfl, Nat.zero_le _, by simp, by omega, ?_⟩
      intro other _ all _
      cases other with
      | zero => exact Nat.le_refl 0
      | succ =>
        rw [take_succ_cons] at all
        exact absurd (all b mem_cons_self) ran

theorem takes_iff_more {sign : Quantifier} {quantifier : ℕ} (code : sign.code = some quantifier)
    {accepts : UInt8 → Prop} {later : List UInt8 → Prop} {n minimum : ℕ}
    (minimumIs : minimum = if quantifier = 42 ∨ quantifier = 63 then 0 else 1)
    (least : n ≤ word.length) (all : ∀ b ∈ word.take n, accepts b)
    (few : quantifier = 63 → n ≤ 1)
    (most : ∀ other ≤ word.length, (∀ b ∈ word.take other, accepts b) →
      (quantifier = 63 → other ≤ 1) → other ≤ n) :
    (∃ taken, sign.allows taken ∧ Takes accepts later word taken) ↔
      minimum ≤ n ∧ ∃ more, more ≤ n - minimum ∧ later (word.drop (minimum + more)) := by
  have allows : ∀ taken, sign.allows taken ↔ minimum ≤ taken ∧ (quantifier = 63 → taken ≤ 1) := by
    intro taken
    cases sign with
    | once => cases code
    | star | plus | optional =>
      obtain rfl := Option.some.inj code
      simp [Quantifier.allows, minimumIs]
  constructor
  · rintro ⟨taken, allowed, inside, ran, holds⟩
    obtain ⟨enough, one⟩ := (allows taken).mp allowed
    have bound := most taken inside ran one
    refine ⟨Nat.le_trans enough bound, taken - minimum, by omega, ?_⟩
    rwa [Nat.add_sub_cancel' enough]
  · rintro ⟨enough, more, bound, holds⟩
    refine ⟨minimum + more, (allows _).mpr ⟨by omega, fun optional => ?_⟩, by omega, ?_, holds⟩
    · have one := few optional
      omega
    · intro b mem
      have shorter : word.take (minimum + more) = (word.take n).take (minimum + more) := by
        rw [take_take, Nat.min_eq_left (by omega)]
      rw [shorter] at mem
      exact all b (mem_of_mem_take mem)

theorem at_drop {i n : ℕ} (there : At value.bytes i word)
    (whole : i + word.length = value.byteLen) (least : n ≤ word.length) :
    At value.bytes (i + n) (word.drop n) ∧
      i + n + (word.drop n).length = value.byteLen := by
  have split : At value.bytes i (word.take n ++ word.drop n) := by
    rwa [take_append_drop]
  have right := split.right
  rw [length_take, Nat.min_eq_left least] at right
  refine ⟨right, ?_⟩
  rw [length_drop]
  omega

/-- **The matcher agrees with the language of the pieces that are left.** -/
theorem matchFrom_ok (anchoredEnd : Bool) (fuel : ℕ) :
    ∀ {valuePosition i : ℕ} {region word : List UInt8} {pieces : List Piece},
      At pattern.bytes i region → stop = i + region.length → Spells region pieces →
      At value.bytes valuePosition word → valuePosition + word.length = value.byteLen →
      ∀ {budget : MatchBudget}, Fueled fuel budget → ∃ outcome,
        matchFrom value pattern stop anchoredEnd fuel valuePosition i budget = .ok outcome ∧
          Agrees budget outcome (MatchesAt pieces anchoredEnd word) := by
  induction fuel with
  | zero =>
    intro valuePosition i region word pieces _ _ _ _ _ budget fueled
    obtain ⟨_, empty⟩ := fueled
    exact ⟨(false, budget), rfl, agrees_false rfl (Nat.le_refl _) fun left => by omega⟩
  | succ fuel ih =>
    intro valuePosition i region word pieces there whole spells at' size budget fueled
    obtain ⟨small, enough⟩ := fueled
    have short := position_lt at'
    unfold matchFrom
    by_cases spent : budget.used ≥ budget.limit
    · rw [if_pos spent]
      exact ⟨(false, budget), rfl, agrees_false rfl (Nat.le_refl _) fun left => by omega⟩
    rw [if_neg spent, checked_bind (by omega)]
    generalize later : ({ budget with used := budget.used + 1 } : MatchBudget) = counted
    have limit : counted.limit = budget.limit := by rw [← later]
    have used : budget.used ≤ counted.used := by
      rw [← later]
      exact Nat.le_succ _
    have fueled' : Fueled fuel counted := by
      rw [← later]
      exact ⟨small, by show budget.limit - (budget.used + 1) ≤ fuel; omega⟩
    cases spells with
    | nil =>
      rw [length_nil] at whole
      rw [if_pos (by omega)]
      refine ⟨_, rfl, limit, used, ?_, ?_⟩
      · intro found
        rw [matchesAt_nil]
        rintro rfl
        have ends : valuePosition = value.byteLen := by simpa using found
        exact eq_nil_of_length_eq_zero (by omega)
      · intro _ holds
        rw [matchesAt_nil] at holds
        cases anchoredEnd with
        | false => rfl
        | true =>
          rw [holds rfl, length_nil] at size
          simp [← size]
    | @cons spelling behind atom pieces sign first others =>
      have pos : 1 ≤ spelling.length := by cases first <;> simp
      have atBehind := there.right
      have lengths := whole
      rw [length_append, length_append] at lengths
      have restSize : stop = i + spelling.length + (sign.spelling ++ behind).length := by
        rw [length_append]
        omega
      have quantified := quantifierBehind_eq others atBehind restSize
      rw [if_neg (by omega), atomEnd_eq first there whole, ok_bind, quantified, ok_bind]
      cases code : sign.code with
      | none =>
        obtain rfl : sign = .once := by
          cases sign <;> first | rfl | cases code
        cases word with
        | nil =>
          rw [length_nil] at size
          rw [if_pos (by omega)]
          refine ⟨_, rfl, agrees_false limit used fun _ holds => ?_⟩
          obtain ⟨count, rfl, least, _⟩ := matchesAt_cons.mp holds
          simp at least
        | cons b word =>
          rw [length_cons] at size short
          have step : MatchesAt (⟨atom, .once⟩ :: pieces) anchoredEnd (b :: word) ↔
              atom.accepts b = true ∧ MatchesAt pieces anchoredEnd word := by
            rw [matchesAt_cons]
            constructor
            · rintro ⟨count, rfl, takes⟩
              obtain ⟨ran, takes⟩ := takes_succ_cons.mp takes
              exact ⟨ran, takes_zero.mp takes⟩
            · rintro ⟨ran, holds⟩
              exact ⟨1, rfl, takes_succ_cons.mpr ⟨ran, takes_zero.mpr holds⟩⟩
          rw [if_neg (by omega), byteAt_bind at', atomMatches_eq first there whole, ok_bind]
          by_cases ran : atom.accepts b = true
          · rw [if_neg (by simp [ran]), checked_bind (by omega)]
            have atRest : At pattern.bytes (i + spelling.length) behind := atBehind
            obtain ⟨outcome, same, agrees⟩ := ih atRest restSize others at'.tail (by omega)
              fueled'
            refine ⟨outcome, same, agrees.earlier limit used ?_⟩
            rw [step]
            exact and_iff_right ran
          · rw [if_pos (by simpa using ran)]
            refine ⟨_, rfl, agrees_false limit used fun _ holds => ?_⟩
            exact ran (step.mp holds).1
      | some quantifier =>
        have one : sign.spelling.length = 1 := by
          cases sign <;> first | rfl | cases code
        have smallPattern := position_lt there
        rw [length_append, length_append] at smallPattern
        have nextAt := atBehind.right
        rw [one] at nextAt
        obtain ⟨count, same, least, all, few, most⟩ :=
          takeMost_ok quantifier first there whole word at'
        have left : value.byteLen - valuePosition = word.length := by omega
        dsimp only
        rw [checked_bind (by omega), left, same, ok_bind]
        generalize minimumIs : (if quantifier = 42 ∨ quantifier = 63 then 0 else 1) = minimum
        have minimumSmall : minimum ≤ 1 := by
          rw [← minimumIs]
          split <;> omega
        have step : MatchesAt (⟨atom, sign⟩ :: pieces) anchoredEnd word ↔ minimum ≤ count ∧
            ∃ more, more ≤ count - minimum ∧ MatchesAt pieces anchoredEnd (word.drop (minimum + more)) :=
          matchesAt_cons.trans (takes_iff_more code minimumIs.symm least all few most)
        rw [checked_bind (by omega)]
        by_cases enough : valuePosition + count < valuePosition + minimum
        · rw [if_pos enough]
          refine ⟨_, rfl, agrees_false limit used fun _ holds => ?_⟩
          have bound := (step.mp holds).1
          omega
        · rw [if_neg enough]
          have difference : valuePosition + count - (valuePosition + minimum) = count - minimum := by
            omega
          have tries : ∀ more ≤ count - minimum, ∀ budget, Fueled fuel budget → ∃ outcome,
              matchFrom value pattern stop anchoredEnd fuel (valuePosition + minimum + more)
                  (i + spelling.length + 1) budget = .ok outcome ∧
                Agrees budget outcome (MatchesAt pieces anchoredEnd (word.drop (minimum + more))) := by
            intro more bound budget fueled
            have inside : minimum + more ≤ word.length := by omega
            obtain ⟨atRest, restSize⟩ := at_drop at' size inside
            rw [← Nat.add_assoc] at atRest restSize
            exact ih nextAt (by rw [lengths, one]; omega) others atRest restSize fueled
          rw [difference]
          obtain ⟨outcome, tried, agrees⟩ := tryCandidates_ok (fun candidate budget =>
            matchFrom value pattern stop anchoredEnd fuel candidate (i + spelling.length + 1)
              budget) _ tries counted fueled'
          refine ⟨outcome, tried, agrees.earlier limit used ?_⟩
          rw [step]
          exact and_iff_right (by omega)

theorem searchFrom_step {i start left : ℕ} (small : start + 1 < 2 ^ 64)
    (limit : budget.limit < 2 ^ 64)
    (first : ∃ outcome, matchFrom value pattern stop anchoredEnd (budget.limit - budget.used) start
      i budget = .ok outcome ∧ Agrees budget outcome holds)
    (others : ∀ later : MatchBudget, later.limit < 2 ^ 64 → ∃ outcome, searchFrom value pattern
      i stop anchoredEnd (start + 1) left later = .ok outcome ∧ Agrees later outcome other) :
    ∃ outcome, searchFrom value pattern i stop anchoredEnd start (left + 1) budget =
      .ok outcome ∧ Agrees budget outcome (holds ∨ other) := by
  obtain ⟨⟨found, later⟩, tried, agrees⟩ := first
  have sameLimit : later.limit = budget.limit := agrees.limit
  unfold searchFrom
  rw [tried, ok_bind]
  dsimp only
  cases found with
  | true => exact ⟨_, rfl, agrees.or_left⟩
  | false =>
    rw [if_neg (by decide)]
    by_cases spent : later.used ≥ later.limit
    · rw [if_pos spent]
      exact ⟨_, rfl, agrees_false sameLimit agrees.used fun left => by omega⟩
    · obtain ⟨outcome, searched, agrees'⟩ := others later (by omega)
      rw [if_neg spent, checked_bind small, searched]
      exact ⟨_, rfl, agrees.or_right agrees'⟩

/-- **The search agrees with the language, from every start.** -/
theorem searchFrom_ok {i : ℕ} {region : List UInt8}
    (there : At pattern.bytes i region) (whole : stop = i + region.length)
    (spells : Spells region pieces) (word : List UInt8) :
    ∀ {start : ℕ}, At value.bytes start word → start + word.length = value.byteLen →
      ∀ {budget : MatchBudget}, budget.limit < 2 ^ 64 → ∃ outcome,
        searchFrom value pattern i stop anchoredEnd start (word.length + 1) budget =
            .ok outcome ∧
          Agrees budget outcome
            (∃ count, count ≤ word.length ∧ MatchesAt pieces anchoredEnd (word.drop count)) := by
  induction word with
  | nil =>
    intro start at' size budget limit
    have small := position_lt at'
    have first := matchFrom_ok anchoredEnd _ there whole spells at' size
      (⟨limit, Nat.le_refl _⟩ : Fueled (budget.limit - budget.used) budget)
    have last : ∀ later : MatchBudget, later.limit < 2 ^ 64 → ∃ outcome, searchFrom value pattern
        i stop anchoredEnd (start + 1) 0 later = .ok outcome ∧ Agrees later outcome False :=
      fun later _ => ⟨(false, later), rfl, agrees_false rfl (Nat.le_refl _) fun _ => not_false⟩
    obtain ⟨outcome, searched, agrees⟩ := searchFrom_step (by omega) limit first last
    refine ⟨outcome, searched, agrees.earlier rfl (Nat.le_refl _) ?_⟩
    simp
  | cons b word ih =>
    intro start at' size budget limit
    have small := position_lt at'
    rw [length_cons] at size
    have first := matchFrom_ok anchoredEnd _ there whole spells at' size
      (⟨limit, Nat.le_refl _⟩ : Fueled (budget.limit - budget.used) budget)
    have others : ∀ later : MatchBudget, later.limit < 2 ^ 64 → ∃ outcome, searchFrom value pattern
        i stop anchoredEnd (start + 1) (word.length + 1) later = .ok outcome ∧
          Agrees later outcome
            (∃ count, count ≤ word.length ∧ MatchesAt pieces anchoredEnd (word.drop count)) :=
      fun later limit => ih at'.tail (by omega) limit
    obtain ⟨outcome, searched, agrees⟩ := searchFrom_step (by omega) limit first others
    refine ⟨outcome, searched, agrees.earlier rfl (Nat.le_refl _) ?_⟩
    constructor
    · rintro ⟨count, least, holds⟩
      cases count with
      | zero => exact .inl holds
      | succ count => exact .inr ⟨count, Nat.le_of_succ_le_succ least, holds⟩
    · rintro (holds | ⟨count, least, holds⟩)
      · exact ⟨0, Nat.zero_le _, holds⟩
      · exact ⟨count + 1, Nat.succ_le_succ least, holds⟩

end

/-! ### The whole search -/

theorem budgetLimit_ok (valueLength patternLength : ℕ) :
    ∃ limit, budgetLimit valueLength patternLength = .ok limit ∧ limit < 2 ^ 64 := by
  obtain ⟨wanted, same⟩ : ∃ wanted, wantedLimit valueLength patternLength = .ok wanted := by
    unfold wantedLimit
    by_cases small : valueLength ≤ 10000 ∧ patternLength ≤ 1000
    · obtain ⟨value, pattern⟩ := small
      have product : (valueLength + 1) * (patternLength + 1) ≤ 10001 * 1001 :=
        Nat.mul_le_mul (by omega) (by omega)
      rw [if_pos ⟨value, pattern⟩, checked_bind (by omega), checked_bind (by omega),
        checked_bind (by omega), checked_bind (by omega)]
      exact ⟨_, rfl⟩
    · rw [if_neg small]
      exact ⟨_, rfl⟩
  unfold budgetLimit
  rw [same, ok_bind]
  refine ⟨_, rfl, ?_⟩
  split <;> omega

theorem search_ok (value : Text) {e : Text} {regex : Regex}
    (spelled : Spelled e.bytes regex) : ∃ outcome budget,
      search value e = .ok outcome ∧
        budgetLimit value.byteLen e.byteLen = .ok budget.limit ∧
          Agrees budget outcome (regex.Found value.bytes) := by
  obtain ⟨_, _, spells, read, there, whole, start, stop⟩ := anchors_eq spelled
  obtain ⟨limit, same, small⟩ := budgetLimit_ok value.byteLen e.byteLen
  have at' : At value.bytes 0 value.bytes := At.self _
  have size : 0 + value.bytes.length = value.byteLen := Nat.zero_add _
  have left : value.byteLen + 1 = value.bytes.length + 1 := rfl
  unfold search
  rw [read, ok_bind, same, ok_bind, stop, start]
  by_cases anchored : regex.anchoredStart = true
  · obtain ⟨outcome, tried, agrees⟩ := matchFrom_ok regex.anchoredEnd (limit - 0) there whole spells
      at' size (⟨small, Nat.le_refl _⟩ : Fueled (limit - 0) ⟨0, limit⟩)
    rw [if_pos anchored]
    refine ⟨outcome, ⟨0, limit⟩, tried, rfl, agrees.earlier rfl (Nat.le_refl _) ?_⟩
    rw [found_iff]
    constructor
    · rintro ⟨from', _, x, holds⟩
      rwa [x anchored, drop_zero] at holds
    · exact fun holds => ⟨0, Nat.zero_le _, fun _ => rfl, holds⟩
  · have small' : (⟨0, limit⟩ : MatchBudget).limit < 2 ^ 64 := small
    obtain ⟨outcome, searched, agrees⟩ := searchFrom_ok there whole spells value.bytes at' size small'
    rw [if_neg anchored, left]
    refine ⟨outcome, ⟨0, limit⟩, searched, rfl, agrees.earlier rfl (Nat.le_refl _) ?_⟩
    rw [found_iff]
    constructor
    · rintro ⟨from', least, _, holds⟩
      exact ⟨from', least, holds⟩
    · rintro ⟨from', least, holds⟩
      exact ⟨from', least, fun yes => absurd yes anchored, holds⟩

/-- **`Matches` does not panic, and agrees with the language of the pattern.** A pattern that is not
valid matches nothing. The result of a valid one is right for every way to read it: a match that is
reported is there, and a match that is there is reported unless the budget, which depends on the two
lengths, is used up. -/
theorem matches_agrees (value expression : Text) : ∃ valid, isValid expression = .ok valid ∧
    (valid = false → patternMatches value expression = .ok false) ∧
    (valid = true → (∃ regex, Spelled expression.bytes regex) ∧
      ∃ found budget, search value expression = .ok (found, budget) ∧
        budgetLimit value.byteLen expression.byteLen = .ok budget.limit ∧
        patternMatches value expression = .ok found ∧
        ∀ regex, Spelled expression.bytes regex →
          (found = true → regex.Found value.bytes) ∧
          (budget.used < budget.limit → regex.Found value.bytes → found = true)) := by
  obtain ⟨valid, accepted, spelled⟩ := isValid_ok expression
  refine ⟨valid, accepted, ?_, ?_⟩
  · rintro rfl
    unfold patternMatches
    rw [accepted]
    rfl
  · rintro rfl
    obtain ⟨regex, some⟩ := spelled rfl
    obtain ⟨⟨found, budget⟩, _, searched, limited, agreed⟩ := search_ok value some
    refine ⟨⟨regex, some⟩, found, budget, searched, agreed.limit ▸ limited, ?_,
      fun other spelled => ?_⟩
    · unfold patternMatches
      rw [accepted, ok_bind, if_neg (by decide), searched]
      rfl
    · obtain ⟨_, _, searched', -, agrees⟩ := search_ok value spelled
      obtain rfl := Except.ok.inj (searched.symm.trans searched')
      exact ⟨agrees.sound, agrees.complete⟩

end FoundationLang.Standard.Pattern
