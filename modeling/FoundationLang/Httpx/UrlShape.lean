/-
**What an absolute URL looks like.**
-/

import FoundationLang.Httpx.Url

namespace FoundationLang.Httpx

open Library Outcome Standard List

variable {value rest : Str} {parts : UrlParts} {left right : Str}

/-! ### Letters in any case -/

theorem foldsEqual_iff (same : left.length = right.length) :
    foldsEqual left right = true ↔
      left.map (lowerASCII ·.toNat) = right.map (lowerASCII ·.toNat) := by
  induction left generalizing right with
  | nil =>
    obtain rfl := length_eq_zero_iff.mp same.symm
    exact ⟨fun _ => rfl, fun _ => rfl⟩
  | cons b left ih =>
    cases right with
    | nil => cases same
    | cons b' =>
      rw [foldsEqual, map_cons, map_cons, List.cons.injEq,
        ← ih (Nat.succ.inj same)]
      by_cases alike : lowerASCII b.toNat = lowerASCII b'.toNat
      · simp [alike]
      · simp [alike]

theorem equalFoldASCII_iff :
    equalFoldASCII left right = true ↔
      left.map (lowerASCII ·.toNat) = right.map (lowerASCII ·.toNat) := by
  unfold equalFoldASCII
  by_cases same : left.length = right.length
  · rw [if_neg (by simp [same]), foldsEqual_iff same]
  · rw [if_pos (by simpa using same)]
    constructor
    · rintro ⟨⟩
    · intro alike
      exact absurd (by simpa using congrArg List.length alike) same

theorem equalFoldASCII_refl (value : Str) : equalFoldASCII value value = true :=
  equalFoldASCII_iff.mpr rfl

/-- A byte that is no letter occurs in both texts or in none. -/
theorem not_mem_of_equalFold (same : equalFoldASCII left right = true)
    {b : UInt8} (absent : lowerASCII b.toNat ∉ right.map (lowerASCII ·.toNat)) :
    b ∉ left := by
  intro mem
  rw [← equalFoldASCII_iff.mp same] at absent
  exact absent (mem_map_of_mem mem)

/-! ### Bytes of URLs -/

/-- The authority ends before this byte. -/
def endsAuthority (byte : ℕ) : Bool :=
  byte == 47 || byte == 63 || byte == 35

/-- Nothing else begins here than a path, a query or a fragment. -/
def Ends (rest : Str) : Prop :=
  ∀ byte, rest.head? = some byte → endsAuthority byte.toNat = true

theorem ends_nil : Ends [] := by
  rintro _ ⟨⟩

theorem ends_cons {b : UInt8} : Ends (b :: rest) ↔ endsAuthority b.toNat = true := by
  constructor
  · exact fun ends => ends b rfl
  · rintro stop _ ⟨⟩
    exact stop

theorem Ends.append {x y : Str} (ends : Ends x) (ends' : x = [] → Ends y) :
    Ends (x ++ y) := by
  cases x with
  | nil => exact ends' rfl
  | cons => exact ends_cons.mpr (ends_cons.mp ends)

theorem Ends.takeWhile (ends : Ends rest) (keep : UInt8 → Bool) : Ends (rest.takeWhile keep) := by
  cases rest with
  | nil => exact ends_nil
  | cons =>
    rw [takeWhile_cons]
    split
    · exact ends_cons.mpr (ends_cons.mp ends)
    · exact ends_nil

theorem validURLBytes_cons (b : UInt8) (rest : Str) :
    validURLBytes (b :: rest) =
      if b.toNat ≤ 32 || b.toNat ≥ 127 then false
      else if b.toNat == 37 then
        match rest with
        | x :: y :: rest =>
          if !hexByte x.toNat || !hexByte y.toNat then false else validURLBytes rest
        | _ => false
      else validURLBytes rest := by
  rcases rest with _ | ⟨_, _ | ⟨_, _⟩⟩ <;> rfl

theorem validURLBytes_ascii (valid : validURLBytes value = true) :
    ∀ b ∈ value, 32 < b.toNat ∧ b.toNat < 127 := by
  induction value using validURLBytes.induct with
  | case1 =>
    rintro b ⟨⟩
  | case2 b rest outside =>
    rw [validURLBytes_cons, if_pos outside] at valid
    cases valid
  | case3 b inside percent x y rest wrong =>
    rw [validURLBytes_cons, if_neg inside, if_pos percent] at valid
    change (if _ then _ else _) = _ at valid
    rw [if_pos wrong] at valid
    cases valid
  | case4 b inside percent x y rest right ih =>
    rw [validURLBytes_cons, if_neg inside, if_pos percent] at valid
    change (if _ then _ else _) = _ at valid
    rw [if_neg right] at valid
    simp only [hexByte, ge_iff_le, Bool.or_eq_true, Bool.not_eq_true', Bool.or_eq_false_iff,
      Bool.and_eq_false_iff, decide_eq_true_eq, decide_eq_false_iff_not, not_or] at inside right
    intro wanted mem
    rw [mem_cons, mem_cons, mem_cons] at mem
    rcases mem with rfl | rfl | rfl | mem
    · omega
    · omega
    · omega
    · exact ih valid wanted mem
  | case5 b rest inside percent short =>
    rw [validURLBytes_cons, if_neg inside, if_pos percent] at valid
    rcases rest with _ | ⟨_, _ | ⟨_, _⟩⟩
    · cases valid
    · cases valid
    · exact (short _ _ _ rfl).elim
  | case6 b rest inside z ih =>
    rw [validURLBytes_cons, if_neg inside, if_neg z] at valid
    simp only [ge_iff_le, Bool.or_eq_true, decide_eq_true_eq] at inside
    intro wanted mem
    rcases mem_cons.mp mem with rfl | mem
    · omega
    · exact ih valid wanted mem

theorem validURLBytes_small (valid : validURLBytes value = true) :
    ∀ b ∈ value, b.toNat < 128 :=
  fun b mem => Nat.lt_succ_of_lt (validURLBytes_ascii valid b mem).2

theorem findIdx_min (x y : UInt8 → Bool) (rest : Str) :
    (if rest.findIdx x < rest.findIdx y then rest.findIdx x
      else rest.findIdx y) = rest.findIdx fun byte => x byte || y byte := by
  induction rest with
  | nil => rfl
  | cons byte rest ih =>
    simp only [findIdx_cons]
    rcases x byte with _ | _ <;> rcases y byte with _ | _
    · simp only [Bool.or_self, cond_false]
      rw [← ih]
      split <;> split <;> omega
    · simp
    · simp
    · simp

theorem selectedEnd_eq (front rest : Str) :
    (if firstByteOf (front ++ rest) front.length 47 63 < firstByteOf (front ++ rest) front.length 35 0
      then firstByteOf (front ++ rest) front.length 47 63
      else firstByteOf (front ++ rest) front.length 35 0) =
      front.length + rest.findIdx (endsAuthority ·.toNat) := by
  unfold firstByteOf
  rw [firstByte_eq _ (by simp), firstByte_eq _ (by simp), drop_left]
  have least := findIdx_min (fun byte => byte.toNat == 47 || (63 != 0 && byte.toNat == 63))
    (fun byte => byte.toNat == 35 || (0 != 0 && byte.toNat == 0)) rest
  have same : (fun byte : UInt8 => (byte.toNat == 47 || (63 != 0 && byte.toNat == 63)) ||
      (byte.toNat == 35 || (0 != 0 && byte.toNat == 0))) = (endsAuthority ·.toNat) := by
    funext byte
    simp [endsAuthority]
  rw [same] at least
  rw [← least]
  split <;> split <;> omega

/-! ### Absolute URLs -/

/-- **The shape of an absolute URL.** -/
structure Shape (value : Str) (parts : UrlParts) (rest : Str) : Prop where
  whole : value = parts.scheme ++ ascii "://" ++ (parts.authority ++ rest)
  start : parts.pathStart = parts.scheme.length + 3 + parts.authority.length
  scheme : equalFoldASCII parts.scheme (ascii "http") = true ∨
    equalFoldASCII parts.scheme (ascii "https") = true
  authority : validAuthority parts.authority = true
  inside : ∀ byte ∈ parts.authority, endsAuthority byte.toNat = false
  ends : Ends rest
  bytes : validURLBytes value = true

theorem urlSlice_eq_ok {r : Str} {start stop : ℕ}
    (same : urlSlice value start stop = .ok r) :
    start ≤ stop ∧ stop ≤ value.length ∧ r = (value.take stop).drop start := by
  unfold urlSlice at same
  split at same
  · cases same
  · rename_i sliced
    cases same
    exact Str.slice_eq_ok sliced

theorem urlSlice_of_ascii {start stop : ℕ} (small : ∀ b ∈ value, b.toNat < 128)
    (ordered : start ≤ stop) (inside : stop ≤ value.length) :
    urlSlice value start stop = .ok ((value.take stop).drop start) := by
  unfold urlSlice
  rw [Str.slice_of_ascii small ordered inside]

theorem colon_not_mem {scheme : Str}
    (known : equalFoldASCII scheme (ascii "http") = true ∨
      equalFoldASCII scheme (ascii "https") = true) : 58 ∉ scheme := by
  rcases known with known | known
  all_goals exact not_mem_of_equalFold known (by decide)

theorem takeWhile_ends (rest : Str) :
    (∀ b ∈ rest.takeWhile (!endsAuthority ·.toNat), endsAuthority b.toNat = false) ∧
      Ends (rest.dropWhile (!endsAuthority ·.toNat)) := by
  refine ⟨?_, ?_⟩
  · intro b mem
    have kept := all_eq_true.mp (all_takeWhile (l := rest)
      (p := (!endsAuthority ·.toNat))) b mem
    simpa using kept
  · intro b x
    have stopped := List.head?_dropWhile_not (!endsAuthority ·.toNat) rest
    rw [x] at stopped
    simpa using stopped

theorem parseAuthority_shape {front scheme : Str}
    (parsed : parseAuthority (front ++ rest) scheme front.length = .ok parts) :
    ∃ authority rest', rest = authority ++ rest' ∧
      parts = ⟨scheme, authority, front.length + authority.length⟩ ∧
      validAuthority authority = true ∧
      (∀ b ∈ authority, endsAuthority b.toNat = false) ∧ Ends rest' ∧
      validURLBytes (front ++ rest) = true := by
  unfold parseAuthority at parsed
  simp only [selectedEnd_eq] at parsed
  split at parsed
  · cases parsed
  · obtain ⟨_, sliced, parsed⟩ := except_bind_eq_ok.mp parsed
    split at parsed
    · cases parsed
    · rename_i valid
      cases parsed
      obtain ⟨_, _, rfl⟩ := urlSlice_eq_ok sliced
      have taken : rest.take (rest.findIdx (endsAuthority ·.toNat)) =
          rest.takeWhile (!endsAuthority ·.toNat) := by
        rw [takeWhile_eq_take_findIdx_not]
        simp
      rw [take_length_add_append, drop_left, taken] at valid ⊢
      simp only [Bool.or_eq_true, Bool.not_eq_true', not_or, Bool.not_eq_false] at valid
      obtain ⟨plain, ends⟩ := takeWhile_ends rest
      refine ⟨_, _, takeWhile_append_dropWhile.symm, ?_, valid.1, plain, ends, valid.2⟩
      rw [← taken, length_take, Nat.min_eq_left findIdx_le_length]

theorem parseAbsoluteURL_shape (parsed : parseAbsoluteURL value = .ok parts) :
    ∃ rest, Shape value parts rest := by
  unfold parseAbsoluteURL at parsed
  split at parsed
  · cases parsed
  · rename_i schemeEnd found
    split at parsed
    · cases parsed
    · obtain ⟨_, sliced, parsed⟩ := except_bind_eq_ok.mp parsed
      split at parsed
      · cases parsed
      · rename_i known
        obtain ⟨front, rest, rfl, rfl⟩ := Str.find_some found
        obtain ⟨_, _, rfl⟩ := urlSlice_eq_ok sliced
        rw [take_left, drop_zero] at known parsed
        have split : front ++ (ascii "://" ++ rest) = (front ++ ascii "://") ++ rest :=
          (append_assoc _ _ _).symm
        have length : (front ++ ascii "://").length = front.length + 3 := by
          rw [length_append]
          rfl
        rw [split, ← length] at parsed
        obtain ⟨_, rest', rfl, rfl, valid, plain, ends, bytes⟩ :=
          parseAuthority_shape parsed
        refine ⟨rest', split, by rw [← length], ?_, valid, plain, ends, ?_⟩
        · simp only [Bool.and_eq_true, Bool.not_eq_true', not_and, Bool.not_eq_false] at known
          rcases http : equalFoldASCII front (ascii "http") with _ | _
          · exact .inr (known http)
          · exact .inl rfl
        · rw [split]
          exact bytes

theorem Ends.findIdx (ends : Ends rest) : rest.findIdx (endsAuthority ·.toNat) = 0 := by
  cases rest with
  | nil => rfl
  | cons => rw [findIdx_cons, ends_cons.mp ends, cond_true]

theorem parseAuthority_of {front authority : Str} (scheme : Str)
    (valid : validAuthority authority = true)
    (plain : ∀ b ∈ authority, endsAuthority b.toNat = false) (ends : Ends rest)
    (bytes : validURLBytes (front ++ (authority ++ rest)) = true) :
    parseAuthority (front ++ (authority ++ rest)) scheme front.length =
      .ok ⟨scheme, authority, front.length + authority.length⟩ := by
  have index : (authority ++ rest).findIdx (endsAuthority ·.toNat) = authority.length := by
    rw [findIdx_append, if_neg, ends.findIdx, Nat.zero_add]
    intro shorter
    obtain ⟨b, mem, stop⟩ := findIdx_lt_length.mp shorter
    rw [plain b mem] at stop
    cases stop
  have some : authority ≠ [] := by
    rintro rfl
    cases valid
  have pos := length_pos_iff.mpr some
  have sliced : urlSlice (front ++ (authority ++ rest)) front.length
      (front.length + authority.length) = .ok authority := by
    rw [urlSlice_of_ascii (validURLBytes_small bytes) (Nat.le_add_right _ _)
      (by rw [length_append, length_append]; omega),
      take_length_add_append, drop_left, take_left]
  unfold parseAuthority
  simp only [selectedEnd_eq, index]
  rw [if_neg (by omega), sliced]
  change (if _ then _ else _) = _
  rw [if_neg (by simp [valid, bytes])]

theorem Shape.parsed (shape : Shape value parts rest) : parseAbsoluteURL value = .ok parts := by
  obtain ⟨scheme, _, _⟩ := parts
  obtain ⟨whole, start, known, valid, plain, ends, bytes⟩ := shape
  dsimp only at whole start known valid plain
  have length : (scheme ++ ascii "://").length = scheme.length + 3 := by
    rw [length_append]
    rfl
  have found : Str.find value (ascii "://") = some scheme.length := by
    rw [whole, append_assoc]
    exact Str.find_front (colon_not_mem known)
  have sliced : urlSlice value 0 scheme.length = .ok scheme := by
    rw [urlSlice_of_ascii (validURLBytes_small bytes) (Nat.zero_le _) (by rw [whole]; simp), whole,
      append_assoc, take_left, drop_zero]
  have empty : ¬(scheme.length == 0) = true := by
    intro zero
    rw [beq_iff_eq, length_eq_zero_iff] at zero
    rw [zero] at known
    rcases known with known | known <;> cases known
  unfold parseAbsoluteURL
  rw [found]
  dsimp only
  rw [if_neg empty, sliced]
  change (if _ then _ else _) = _
  rw [if_neg (by rcases known with known | known <;> simp [known]), ← length]
  have parsed := parseAuthority_of scheme valid plain ends (whole ▸ bytes)
  rw [whole, parsed, start, length]

theorem parseAbsoluteURL_iff :
    parseAbsoluteURL value = .ok parts ↔ ∃ rest, Shape value parts rest :=
  ⟨parseAbsoluteURL_shape, fun ⟨_, shape⟩ => shape.parsed⟩

/-! ### Hosts and ports -/

theorem Shape.requestPath (shape : Shape value parts rest) :
    ∃ path, requestPath value parts.pathStart = .ok path := by
  unfold Httpx.requestPath
  dsimp only
  split
  · exact ⟨_, rfl⟩
  · rename_i longer
    rw [urlSlice_of_ascii (validURLBytes_small shape.bytes) (by omega)
      (by unfold firstByteOf; exact firstByte_le _ _ _)]
    dsimp only [bind, Except.bind]
    split
    · exact ⟨_, rfl⟩
    · exact ⟨_, rfl⟩

/-- **The URLs that have a host and a port.** -/
theorem networkTargetFor_iff {target : NetworkTarget} :
    networkTargetFor value = .ok target ↔
      ∃ parts host, parseAbsoluteURL value = .ok parts ∧
        authorityWithoutUser parts.authority ≠ [] ∧
        splitHostPort (authorityWithoutUser parts.authority) parts.scheme = .ok host ∧
        requestPath value parts.pathStart = .ok target.path ∧
        target = ⟨host.host, authorityWithoutUser parts.authority, target.path, host.port,
          equalFoldASCII parts.scheme (ascii "https")⟩ := by
  unfold networkTargetFor
  constructor
  · intro same
    obtain ⟨parts, parsed, same⟩ := except_bind_eq_ok.mp same
    dsimp only at same
    split at same
    · cases same
    · rename_i some
      obtain ⟨host, splitted, same⟩ := except_bind_eq_ok.mp same
      obtain ⟨_, taken, same⟩ := except_bind_eq_ok.mp same
      cases same
      exact ⟨parts, host, parsed, by simpa using some, splitted, taken, rfl⟩
  · rintro ⟨_, _, parsed, some, splitted, taken, same⟩
    rw [parsed]
    change (if _ then _ else _) = _
    rw [if_neg (by simpa using some), splitted]
    rw [taken, same]
    rfl

theorem sameOrigin_of_parts {parts' : UrlParts}
    (parsed : parseAbsoluteURL left = .ok parts) (parsed' : parseAbsoluteURL right = .ok parts')
    (scheme : parts'.scheme = parts.scheme) (authority : parts'.authority = parts.authority)
    (valid : validAbsoluteURL right = true) : sameOrigin left right = true := by
  unfold validAbsoluteURL at valid
  split at valid
  · cases valid
  · rename_i target known
    obtain ⟨_, host, parsed'', some, splitted, _, target_eq⟩ := networkTargetFor_iff.mp known
    rw [parsed'] at parsed''
    cases parsed''
    rw [scheme, authority] at splitted
    rw [authority] at some
    obtain ⟨_, shape⟩ := parseAbsoluteURL_shape parsed
    obtain ⟨path, taken⟩ := shape.requestPath
    have known' : networkTargetFor left = .ok ⟨host.host, authorityWithoutUser parts.authority, path,
        host.port, equalFoldASCII parts.scheme (ascii "https")⟩ :=
      networkTargetFor_iff.mpr ⟨parts, host, parsed, some, splitted, taken, rfl⟩
    unfold sameOrigin
    rw [parsed, parsed', known, known', target_eq]
    dsimp only
    rw [scheme, equalFoldASCII_refl, equalFoldASCII_refl, beq_self_eq_true]
    rfl

end FoundationLang.Httpx
