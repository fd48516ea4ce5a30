/-
**What `quotePackageText` writes and `tokenizePackageLine` reads.**

Both go through a value byte by byte and put each byte into a builder as a code point. From 0x80 on a
byte becomes two bytes, so that a quoted value which is written and read has four for one.
-/

import FoundationLang.Selfhost.LineTokens

namespace FoundationLang.Selfhost

open Package List

/-- The bytes that are read of a byte that was written. -/
def rereadCodePoint (byte : Char) : List Char :=
  (writeCodePoint byte).flatMap writeCodePoint

/-! ### One byte -/

theorem rereadCodePoint_ascii {b : Char} (ascii : b.toNat < 0x80) :
    rereadCodePoint b = [b] := by
  rw [rereadCodePoint, writeCodePoint_ascii ascii, flatMap_singleton, writeCodePoint_ascii ascii]

theorem length_writeCodePoint (b : Char) : (writeCodePoint b).length = b.utf8Size := by
  unfold writeCodePoint utf8
  rw [String.toList_ofList, String.toList_singleton, flatMap_singleton, length_map,
    String.length_utf8EncodeChar]

theorem wide_of_mem_writeCodePoint {b : Char} (wide : 0x80 ≤ b.toNat) {out : Char}
    (mem : out ∈ writeCodePoint b) : 0x80 ≤ out.toNat := by
  unfold writeCodePoint utf8 at mem
  rw [String.toList_ofList, String.toList_singleton, flatMap_singleton] at mem
  obtain ⟨part, inside, rfl⟩ := mem_map.mp mem
  rw [toNat_byte]
  rcases utf8EncodeChar_cases b with ⟨single, block, small⟩ | ⟨x, rest, block, high, others⟩
  · have size : b.utf8Size = 1 := by
      rw [← String.length_utf8EncodeChar, block, length_singleton]
    have ascii : b.toNat ≤ 127 := Char.utf8Size_eq_one_iff.mp size
    omega
  · rw [block] at inside
    rcases mem_cons.mp inside with rfl | later
    · omega
    · exact others part later

theorem length_rereadCodePoint {b : Char} (wide : 0x80 ≤ b.toNat) :
    1 < (rereadCodePoint b).length := by
  have size : 1 < b.utf8Size := by
    have pos := b.utf8Size_pos
    have other : b.utf8Size ≠ 1 := fun one => by
      have ascii : b.toNat ≤ 127 := Char.utf8Size_eq_one_iff.mp one
      omega
    omega
  unfold rereadCodePoint
  have grows : ∀ bytes : List Char, bytes.length ≤ (bytes.flatMap writeCodePoint).length := by
    intro bytes
    induction bytes with
    | nil => exact Nat.le_refl _
    | cons x =>
      have pos := x.utf8Size_pos
      rw [flatMap_cons, length_append, length_writeCodePoint, length_cons]
      omega
  exact Nat.lt_of_lt_of_le (by rwa [length_writeCodePoint]) (grows _)

theorem readQuoted_plain (write : Char → List Char) (start i : Nat)
    (v bytes rest : List Char) (plain : ∀ b ∈ bytes, b ≠ '"' ∧ b ≠ '\\') :
    readQuoted write start i v (bytes ++ rest)
      = readQuoted write start (i + bytes.length) (v ++ bytes.flatMap write) rest := by
  induction bytes generalizing i v with
  | nil => simp
  | cons b bytes ih =>
    obtain ⟨quote, backslash⟩ := plain b mem_cons_self
    rw [cons_append, readQuoted.eq_5, ih, flatMap_cons, append_assoc,
      length_cons]
    · simp only [Nat.add_assoc, Nat.add_comm 1]
    · exact fun y mem => plain y (mem_cons_of_mem _ mem)
    · exact quote
    · exact fun same => absurd same backslash
    · exact fun _ _ same => absurd same backslash

/-- **What is read of a byte that was written.** -/
theorem rereads_codePoint : Rereads writeCodePoint rereadCodePoint := by
  intro start offset v b rest
  unfold escapeWith
  by_cases special : b = '"' ∨ b = '\\'
  · rw [if_pos special]
    rcases special with rfl | rfl
    · rw [writeCodePoint_ascii (by decide), rereadCodePoint_ascii (by decide), cons_append,
        singleton_append, readQuoted, if_pos (.inl rfl), writeCodePoint_ascii (by decide)]
      rfl
    · rw [writeCodePoint_ascii (by decide), rereadCodePoint_ascii (by decide), cons_append,
        singleton_append, readQuoted, if_pos (.inr rfl), writeCodePoint_ascii (by decide)]
      rfl
  · rw [if_neg special]
    by_cases newline : b = '\n'
    · rw [if_pos newline, newline, rereadCodePoint_ascii (by decide), cons_append,
        singleton_append, readQuoted, if_neg (by decide), if_pos rfl,
        writeCodePoint_ascii (by decide)]
      rfl
    · rw [if_neg newline]
      by_cases tab : b = '\t'
      · rw [if_pos tab, tab, rereadCodePoint_ascii (by decide), cons_append,
          singleton_append, readQuoted, if_neg (by decide), if_neg (by decide), if_pos rfl,
          writeCodePoint_ascii (by decide)]
        rfl
      · rw [if_neg tab]
        refine readQuoted_plain writeCodePoint start offset v _ rest fun written mem => ?_
        by_cases ascii : b.toNat < 0x80
        · rw [writeCodePoint_ascii ascii, mem_singleton] at mem
          rw [mem]
          exact not_or.mp special
        · have wide := wide_of_mem_writeCodePoint (Nat.not_lt.mp ascii) mem
          constructor
          · rintro rfl
            exact absurd wide (by decide)
          · rintro rfl
            exact absurd wide (by decide)

/-! ### Values and lines -/

theorem flatMap_rereadCodePoint_iff {bytes : List Char} :
    bytes.flatMap rereadCodePoint = bytes ↔ ∀ b ∈ bytes, b.toNat < 0x80 := by
  have grows : ∀ b, 1 ≤ (rereadCodePoint b).length := by
    intro b
    by_cases ascii : b.toNat < 0x80
    · rw [rereadCodePoint_ascii ascii, length_singleton]
    · exact Nat.le_of_lt (length_rereadCodePoint (Nat.not_lt.mp ascii))
  have longer : ∀ bytes : List Char, bytes.length ≤ (bytes.flatMap rereadCodePoint).length := by
    intro bytes
    induction bytes with
    | nil => exact Nat.le_refl _
    | cons x =>
      have one := grows x
      rw [flatMap_cons, length_append, length_cons]
      omega
  induction bytes with
  | nil => simp
  | cons b rest ih =>
    rw [flatMap_cons, forall_mem_cons]
    by_cases ascii : b.toNat < 0x80
    · rw [rereadCodePoint_ascii ascii, singleton_append, List.cons.injEq]
      exact and_congr (iff_of_true rfl ascii) ih
    · refine iff_of_false (fun same => ?_) fun both => ascii both.1
      have lengths := congrArg List.length same
      have wide := length_rereadCodePoint (Nat.not_lt.mp ascii)
      have others := longer rest
      rw [length_append, length_cons] at lengths
      omega

/-- **The values that are read as they were.** -/
theorem rereadText_eq_iff {v : String} :
    rereadText isPackageSpace rereadCodePoint v = v ↔
      (quoteRequired isPackageSpace v = true → ∀ b ∈ v.toList, b.toNat < 0x80) := by
  unfold rereadText
  by_cases required : quoteRequired isPackageSpace v = true
  · rw [if_pos required, ← flatMap_rereadCodePoint_iff, ← String.toList_inj, String.toList_ofList]
    simp [required]
  · rw [if_neg required]
    exact iff_of_true rfl fun quoted => absurd quoted required

/-- The Strings of a line, quoted where they must be, with blanks between them. -/
def quotedLine (tokens : List String) : String :=
  " ".intercalate ((tokens.map utf8).map quotePackageText)

/-- **The tokens of a line are the Strings that it was made from**, exactly if every String that needs
quotes is ASCII. -/
theorem tokenize_quotePackageText (tokens : List String) :
    tokenizePackageLine (quotedLine tokens) = .ok (tokens.map utf8) ↔
      ∀ token ∈ tokens, quoteRequired isPackageSpace (utf8 token) = true →
        ∀ byte ∈ (utf8 token).toList, byte.toNat < 0x80 := by
  have read : tokenizePackageLine (quotedLine tokens) =
      .ok ((tokens.map utf8).map (rereadText isPackageSpace rereadCodePoint)) :=
    tokenizeWith_spaced (by decide) (by decide) rereads_codePoint (tokens.map utf8)
  rw [read, Except.ok.injEq, map_map, map_inj_left]
  exact forall₂_congr fun token _ => rereadText_eq_iff

/-- The String `é a`. -/
theorem tokenize_accented : tokenizePackageLine (quotedLine ["é a"]) ≠ .ok [utf8 "é a"] := by
  decide +kernel

end FoundationLang.Selfhost
