/-
**The names of an archive.**
-/

import FoundationLang.Standard.CpioWriter

namespace FoundationLang.Standard.Cpio

open Library Outcome List

variable {value : Text} {i segmentLength : ℕ} {front rest first part : List UInt8}
  {others : List (List UInt8)}

/-- No segment is empty, `.` or `..`, and there is no zero byte and no backslash. -/
def ProperName (name : List UInt8) : Prop :=
  (∀ part ∈ name.splitOn 47, part ≠ [] ∧ part ≠ [46] ∧ part ≠ [46, 46]) ∧ 0 ∉ name ∧ 92 ∉ name

theorem byteAt_cut {b : UInt8} (cut : Cut value.bytes i front (b :: rest)) :
    value.byteAt i = .ok b.toNat := by
  unfold Text.byteAt
  rw [cut.getElem?]
  rfl

theorem splitOn_byte {b : UInt8} (parts : (b :: rest).splitOn 47 = first :: others) :
    (b = 47 ∧ first = [] ∧ others = rest.splitOn 47) ∨
      (b ≠ 47 ∧ ∃ first', first = b :: first' ∧ rest.splitOn 47 = first' :: others) := by
  rw [splitOn_cons_eq_if_modifyHead] at parts
  split_ifs at parts with same
  · obtain ⟨rfl, rfl⟩ := cons.inj parts
    exact .inl ⟨beq_iff_eq.mp same, rfl, rfl⟩
  · obtain ⟨first', _, split⟩ := exists_cons_of_ne_nil (splitOn_ne_nil 47 rest)
    rw [split, modifyHead_cons] at parts
    obtain ⟨rfl, rfl⟩ := cons.inj parts
    exact .inr ⟨fun equal => same (beq_iff_eq.mpr equal), first', rfl, split⟩

/-- **The first loop**: there is no byte that is refused, and no segment is empty. -/
theorem scanSegments_iff (cut : Cut value.bytes i front rest)
    (parts : rest.splitOn 47 = first :: others) :
    (∃ final, scanSegments value i segmentLength rest.length = some final ∧ final ≠ 0) ↔
      0 ∉ rest ∧ 92 ∉ rest ∧ segmentLength + first.length ≠ 0 ∧ [] ∉ others := by
  induction rest generalizing i segmentLength front first others with
  | nil =>
    obtain ⟨rfl, rfl⟩ := cons.inj parts
    simp [scanSegments]
  | cons b rest ih =>
    rw [length_cons, scanSegments, byteAt_cut cut]
    dsimp only
    by_cases refused : b = 0 ∨ b = 92
    · have refused' : b.toNat = 0 ∨ b.toNat = 92 :=
        refused.imp (congrArg UInt8.toNat) (congrArg UInt8.toNat)
      rw [if_pos refused']
      refine iff_of_false (fun ⟨_, refuses, _⟩ => (by cases refuses)) fun ⟨zero, back, _⟩ => ?_
      rcases refused with rfl | rfl
      · exact zero mem_cons_self
      · exact back mem_cons_self
    have refused' : ¬(b.toNat = 0 ∨ b.toNat = 92) := fun same =>
      refused (same.imp (fun zero => UInt8.toNat_inj.mp zero) fun back => UInt8.toNat_inj.mp back)
    obtain ⟨zero, back⟩ := not_or.mp refused
    rw [if_neg refused']
    rcases splitOn_byte parts with ⟨rfl, rfl, rfl⟩ | ⟨other, first', rfl, parts'⟩
    · obtain ⟨_, _, parts'⟩ := exists_cons_of_ne_nil (splitOn_ne_nil 47 rest)
      rw [if_pos (show UInt8.toNat 47 = 47 from rfl), parts']
      by_cases empty : segmentLength = 0
      · rw [if_pos empty]
        simp [empty]
      · rw [if_neg empty, ih cut.next parts']
        simp [empty, @eq_comm _ ([] : List UInt8)]
    · have other' : ¬b.toNat = 47 := fun same => other (UInt8.toNat_inj.mp same)
      rw [if_neg other', ih cut.next parts']
      simp [Ne.symm zero, Ne.symm back]

theorem slice_allowed {start : ℕ} (cut : Cut value.bytes start front (part ++ rest))
    (first : Boundary (part ++ rest)) (last : Boundary rest) : ∃ segment : Text,
      segment.bytes = part ∧ value.slice start (start + part.length) = .ok segment ∧
        ((segment.equal (.literal [46]) || segment.equal (.literal [46, 46])) = false ↔
          part ≠ [46] ∧ part ≠ [46, 46]) := by
  obtain ⟨segment, rfl, sliced⟩ := Text.slice_cut cut first last
  refine ⟨segment, rfl, sliced, ?_⟩
  rw [Bool.or_eq_false_iff, Bool.eq_false_iff, Bool.eq_false_iff, Ne, Ne, Text.equal_iff,
    Text.equal_iff, Text.ext_iff, Text.ext_iff]
  rfl

theorem refuse_iff {refused later : Bool} :
    (if refused then false else later) = true ↔ refused = false ∧ later = true := by
  cases refused <;> simp

/-- **The second loop**: no segment is a dot or two. -/
theorem allowedSegments_iff {start : ℕ} (cut : Cut value.bytes start front (part ++ rest))
    (boundary : Boundary (part ++ rest)) (parts : rest.splitOn 47 = first :: others) :
    allowedSegments value start (start + part.length) (rest.length + 1) = true ↔
      ∀ segment ∈ (part ++ first) :: others, segment ≠ [46] ∧ segment ≠ [46, 46] := by
  induction rest generalizing start front part first others with
  | nil =>
    obtain ⟨rfl, rfl⟩ := cons.inj parts
    have atEnd : (start + part.length == value.byteLen) = true := by
      have size := cut.move.size
      unfold Text.byteLen
      simpa using size
    obtain ⟨segment, -, sliced, allowed⟩ := slice_allowed cut boundary boundary_nil
    rw [length_nil, allowedSegments, atEnd, sliced]
    show (if _ then false else allowedSegments value _ _ 0) = true ↔ _
    rw [refuse_iff, allowed]
    simp [allowedSegments]
  | cons b rest ih =>
    have there := cut.move
    have inside : (start + part.length == value.byteLen) = false := by
      have size := there.size
      rw [length_cons] at size
      unfold Text.byteLen
      rw [beq_eq_false_iff_ne]
      omega
    rw [length_cons, allowedSegments, inside, byteAt_cut there]
    rcases splitOn_byte parts with ⟨rfl, rfl, rfl⟩ | ⟨other, first', rfl, parts'⟩
    · obtain ⟨_, _, parts'⟩ := exists_cons_of_ne_nil (splitOn_ne_nil 47 rest)
      have ascii : UInt8.toNat 47 ≤ 0x7f := by decide
      obtain ⟨_, -, sliced, allowed⟩ := slice_allowed cut boundary (boundary_ascii ascii)
      have behind : Cut value.bytes (start + part.length + 1) (front ++ part ++ [47]) ([] ++ rest) :=
        there.next
      rw [sliced]
      show (if _ then false else _) = true ↔ _
      rw [append_nil, parts', forall_mem_cons, ← allowed, refuse_iff]
      exact and_congr_right fun _ => ih behind (boundary_behind there ascii) parts'
    · have whole : part ++ b :: rest = part ++ [b] ++ rest := by simp
      have other' : (b.toNat == 47) = false :=
        beq_eq_false_iff_ne.mpr fun same => other (UInt8.toNat_inj.mp same)
      have longer := ih (whole ▸ cut) (whole ▸ boundary) parts'
      rw [length_append, length_singleton, append_assoc] at longer
      show (if (false || b.toNat == 47) then _ else _) = true ↔ _
      rw [other']
      exact longer

theorem mem_splitOn_first {bytes : List UInt8} (plain : 47 ∉ part)
    (starts : part ++ [47] <+: bytes) : part ∈ bytes.splitOn 47 := by
  obtain ⟨_, rfl⟩ := starts
  rw [append_assoc, singleton_append, splitOn_append_cons_self_of_not_mem plain]
  exact mem_cons_self

/-- **The names that are accepted.** -/
theorem validName_iff (value : Text) : validName value = true ↔ ProperName value.bytes := by
  obtain ⟨_, _, parts⟩ := exists_cons_of_ne_nil (splitOn_ne_nil 47 value.bytes)
  have whole : Cut value.bytes 0 [] ([] ++ value.bytes) := Cut.start value.bytes
  have scanned := @scanSegments_iff value 0 0 _ _ _ _ whole parts
  have allowed := allowedSegments_iff whole value.utf8.boundary parts
  rw [Nat.zero_add] at scanned
  rw [nil_append] at allowed
  unfold validName ProperName
  rw [parts]
  constructor
  · intro valid
    split_ifs at valid
    cases scan : scanSegments value 0 0 value.byteLen with
    | none =>
      rw [scan] at valid
      cases valid
    | some final =>
      rw [scan] at valid
      dsimp only at valid
      split_ifs at valid with empty
      obtain ⟨zero, back, filled, others'⟩ := scanned.mp ⟨final, scan, empty⟩
      have dots := allowed.mp valid
      refine ⟨fun seg mem => ⟨?_, dots seg mem⟩, zero, back⟩
      rintro rfl
      rcases mem_cons.mp mem with rfl | mem
      · exact filled rfl
      · exact others' mem
  · rintro ⟨each, zero, back⟩
    rw [← parts] at each
    have starts : ∀ {seg : List UInt8}, 47 ∉ seg → seg ++ [47] <+: value.bytes →
        seg ≠ [] ∧ seg ≠ [46] ∧ seg ≠ [46, 46] :=
      fun plain begins => each _ (mem_splitOn_first plain begins)
    have equals : ∀ {seg : List UInt8}, 47 ∉ seg → value.bytes = seg →
        seg ≠ [] ∧ seg ≠ [46] ∧ seg ≠ [46, 46] := by
      rintro _ plain rfl
      exact each _ (by rw [splitOn_eq_singleton plain]; exact mem_cons_self)
    have filled : ¬value.byteLen = 0 := fun none =>
      (equals not_mem_nil (length_eq_zero_iff.mp none)).1 rfl
    have inner : ¬(value.startsWith (.literal [47]) || value.endsWith (.literal [47])) = true := by
      rw [Bool.or_eq_true, Text.startsWith, Text.endsWith, isPrefixOf_iff_prefix,
        isSuffixOf_iff_suffix]
      rintro (begins | ⟨before, ends⟩)
      · exact (starts not_mem_nil begins).1 rfl
      · refine (each [] ?_).1 rfl
        rw [← ends, show before ++ Text.bytes (.literal [47]) = before ++ 47 :: [] from rfl,
          splitOn_append_cons_self]
        simp
    have noDot : ¬(value.startsWith (.literal [46, 47]) || value.equal (.literal [46])) = true := by
      rw [Bool.or_eq_true, Text.startsWith, isPrefixOf_iff_prefix, Text.equal_iff]
      rintro (begins | rfl)
      · exact (@starts [46] (by decide) begins).2.1 rfl
      · exact (equals (by decide) rfl).2.1 rfl
    have noDots : ¬(value.startsWith (.literal [46, 46, 47]) ||
        value.equal (.literal [46, 46])) = true := by
      rw [Bool.or_eq_true, Text.startsWith, isPrefixOf_iff_prefix, Text.equal_iff]
      rintro (begins | rfl)
      · exact (@starts [46, 46] (by decide) begins).2.2 rfl
      · exact (equals (by decide) rfl).2.2 rfl
    obtain ⟨nonempty, others'⟩ := forall_mem_cons.mp (parts ▸ each)
    obtain ⟨final, scan, some⟩ := scanned.mpr ⟨zero, back,
      fun none => nonempty.1 (length_eq_zero_iff.mp none), fun empty => (others' [] empty).1 rfl⟩
    have scan' : scanSegments value 0 0 value.byteLen = Option.some final := scan
    rw [if_neg filled, if_neg inner, if_neg noDot, if_neg noDots, scan']
    dsimp only
    rw [if_neg some]
    exact allowed.mpr fun seg mem => (each seg (parts ▸ mem)).2

end FoundationLang.Standard.Cpio
