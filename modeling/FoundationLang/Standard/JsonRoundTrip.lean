/-
**Writing and parsing back in `std.json`.**

A value that can be written is written, and its text is parsed into the same value up to the order of
members (`stringify_parse`). The text of a value does not depend on this order (`render_alike`), so
what is parsed back is written the same way. It is the normal form of every text that is parsed into
such a value (`parse_stringify`).
-/

import FoundationLang.Standard.JsonRender

namespace FoundationLang.Standard.JsonText

open Library Outcome Json List

/-! ### The order of members -/

theorem render_pairs {ls : ℕ} {vs values' : List Value}
    (each : ∀ {v v'}, Alike v v' → Valid ls v' →
      Valid ls v ∧ render ls v = render ls v')
    (pairs : List.Forall₂ Alike vs values') (valid : ∀ v ∈ values', Valid ls v) :
    (∀ v ∈ vs, Valid ls v) ∧
      vs.map (render ls) = values'.map (render ls) := by
  induction pairs with
  | nil => exact ⟨by simp, rfl⟩
  | @cons v v' vs values' x others ih =>
    obtain ⟨here, same⟩ := each x (valid v' mem_cons_self)
    obtain ⟨later, sames⟩ := ih fun y mem => valid y (mem_cons_of_mem _ mem)
    refine ⟨?_, by rw [map_cons, map_cons, same, sames]⟩
    intro y mem
    rcases mem_cons.mp mem with rfl | mem
    · exact here
    · exact later y mem

theorem map_mapValues_eq {ls : ℕ} {fs fields' : List (Text × Value)}
    (names : fs.map Prod.fst = fields'.map Prod.fst)
    (values : (fs.map Prod.snd).map (render ls) = (fields'.map Prod.snd).map (render ls)) :
    fs.map (mapValues (render ls)) = fields'.map (mapValues (render ls)) := by
  induction fs generalizing fields' with
  | nil =>
    cases fields' with
    | nil => rfl
    | cons => cases names
  | cons field fs ih =>
    cases fields' with
    | nil => cases names
    | cons =>
      simp only [map_cons, List.cons.injEq] at names values
      rw [map_cons, map_cons, ih names.2 values.2]
      unfold mapValues
      rw [names.1, values.1]

/-- **Values that are the same up to the order of members have one text.** -/
theorem render_alike {ls : ℕ} :
    ∀ {value value' : Value}, Alike value value' → Valid ls value' →
      Valid ls value ∧ render ls value = render ls value' := by
  induction ls with
  | zero => exact fun _ invalid => invalid.elim
  | succ ls ih =>
    intro value value' alike valid
    cases alike with
    | same => exact ⟨valid, rfl⟩
    | array each =>
      obtain ⟨valid', same⟩ := render_pairs ih each valid
      refine ⟨valid', ?_⟩
      unfold render
      rw [same]
    | @object fs m fields' order names each =>
      have inside : ∀ value ∈ fields'.map Prod.snd, Valid ls value := by
        intro value mem
        obtain ⟨field, inside, rfl⟩ := mem_map.mp mem
        exact valid.2 field inside
      obtain ⟨valid', values⟩ := render_pairs ih each inside
      have unique : (fs.map Prod.fst).Nodup := by
        rw [(order.map Prod.fst).nodup_iff, names]
        exact valid.1
      refine ⟨⟨unique, fun field mem => ?_⟩, ?_⟩
      · exact valid' field.2 (mem_map_of_mem (order.mem_iff.mp mem))
      · have keys : ((fs.map (mapValues (render ls))).map Prod.fst).Nodup := by
          rw [map_map]
          exact unique
        have sorted := sort_congr (order.map (mapValues (render ls))) keys
        rw [map_mapValues_eq names values] at sorted
        unfold render
        rw [sorted]

/-! ### Writing and parsing back -/

theorem stringify_eq {v : Value} (valid : Valid 129 v)
    (fits : (render 129 v).length < 2 ^ 63) :
    ∃ text : Text, text.bytes = render 129 v ∧ stringify v = .ok text := by
  have writes := writeValue_writes valid
  refine ⟨⟨render 129 v, valid_of_utf8 writes.utf8, fits⟩, rfl, ?_⟩
  have written := writes.appends [] (by simpa using fits)
  unfold stringify newTextBuilder
  rw [written, ok_bind, nil_append,
    TextBuilder.finish_eq ⟨render 129 v, valid_of_utf8 writes.utf8, fits⟩]
  rfl

/-- **The round trip.** A value with unique keys and valid numbers, every part of which is inside at
most 128 arrays and objects, is written, when its text fits into an object in memory. The text is
parsed into the same value up to the order of members, and this value is written the same way. -/
theorem stringify_parse {value : Value} (valid : Valid 129 value)
    (fits : (render 129 value).length < 2 ^ 63) :
    ∃ text value', stringify value = .ok text ∧ parse text = .ok value' ∧ Alike value' value ∧
      stringify value' = .ok text := by
  obtain ⟨text, same, written⟩ := stringify_eq valid fits
  have document : Document textReading 128 text.bytes value :=
    ⟨[], text.bytes, [], by simp, white_nil, white_nil, same ▸ spells_render valid⟩
  obtain ⟨value', alike, parsed⟩ := parse_of_document document
  obtain ⟨valid', same'⟩ := render_alike alike valid
  obtain ⟨text', again, written'⟩ := stringify_eq valid' (by rw [same']; exact fits)
  obtain rfl : text' = text := Text.ext (by rw [again, same', same])
  exact ⟨text', value', written, parsed, alike, written'⟩

/-- `{"b": -1.5, "a": ["\n", true]}`. -/
def sampleValue : Value :=
  .object [(.letterB, .number (.literal [45, 49, 46, 53])),
    (.letterA, .array [.text (.literal [10]), .bool true])]

theorem stringify_parse_sample : Valid 129 sampleValue ∧ (render 129 sampleValue).length < 2 ^ 63 ∧
    ∃ text value', stringify sampleValue = .ok text ∧ parse text = .ok value' ∧
      Alike value' sampleValue ∧ stringify value' = .ok text := by
  have number : Number [45, 49, 46, 53] :=
    @Number.mk [45] [49] [46, 53] [] .minus (.digits (by decide) (by simp))
      (.digits ⟨by simp, by simp [Digit]⟩) .none
  have valid : Valid 129 sampleValue := by
    refine ⟨by decide, fun field mem => ?_⟩
    simp only [mem_cons, not_mem_nil, or_false] at mem
    rcases mem with rfl | rfl
    · exact number
    · intro item mem
      simp only [mem_cons, not_mem_nil, or_false] at mem
      rcases mem with rfl | rfl <;> exact trivial
  have fits : (render 129 sampleValue).length < 2 ^ 63 := by decide +kernel
  exact ⟨valid, fits, stringify_parse valid fits⟩

/-! ### Normal forms -/

theorem separated_forall {α : Type} {part : List UInt8 → α → Prop} {holds : α → Prop}
    {bytes : List UInt8} {vs : List α} (parts : Separated part bytes vs)
    (each : ∀ {bytes value}, part bytes value → holds value) : ∀ value ∈ vs, holds value := by
  obtain ⟨before, last⟩ := parts
  induction before with
  | nil => simpa using each last
  | cons x _ ih => simpa [each x] using ih

theorem valid_of_spells {ls : ℕ} :
    ∀ {bytes : List UInt8} {value : Value}, Spells textReading ls bytes value →
      Valid ls value := by
  induction ls with
  | zero => exact fun spells => spells.elim
  | succ ls ih =>
    intro bytes value spells
    cases spells with
    | null | yes | no | text => trivial
    | @number bytes spelling form kept =>
      obtain rfl : spelling.bytes = bytes := kept
      exact form
    | emptyArray => simp [Valid]
    | emptyObject => simp [Valid]
    | array parts =>
      exact separated_forall parts fun ⟨_, _, _, _, _, _, inside⟩ => ih inside
    | object parts unique order =>
      have ms := @separated_forall _ _ (fun field => Valid ls field.2) _ _ parts
        fun ⟨_, _, _, _, _, _, _, _, _, _, _, _, _, _, inside⟩ => ih inside
      exact ⟨(order.map Prod.fst).nodup_iff.mp unique,
        fun field mem => ms field (order.mem_iff.mpr mem)⟩

/-- **The normal form of a text.** Values that are the same up to the order of members are written as
one text, which is its own normal form. -/
theorem parse_stringify {source : Text} {value : Value} (parsed : parse source = .ok value)
    (fits : (render 129 value).length < 2 ^ 63) :
    ∃ text value', stringify value = .ok text ∧ parse text = .ok value' ∧ Alike value' value ∧
      stringify value' = .ok text ∧ ∀ value'', Alike value'' value → stringify value'' = .ok text := by
  obtain ⟨_, _, _, _, _, _, spells⟩ := document_of_parse parsed
  have valid := valid_of_spells spells
  obtain ⟨text, same, written⟩ := stringify_eq valid fits
  have normal : ∀ value'', Alike value'' value → stringify value'' = .ok text := by
    intro value'' alike
    obtain ⟨valid', same'⟩ := render_alike alike valid
    obtain ⟨text', again, written'⟩ := stringify_eq valid' (by rw [same']; exact fits)
    obtain rfl : text' = text := Text.ext (by rw [again, same', same])
    exact written'
  obtain ⟨value', alike, back⟩ := parse_of_document
    (⟨[], text.bytes, [], by simp, white_nil, white_nil, same ▸ spells_render valid⟩ :
      Document textReading 128 text.bytes value)
  exact ⟨text, value', written, back, alike, normal value' alike, normal⟩

/-- The text ` "\u0061"`. -/
theorem parse_stringify_escaped : ∃ text value',
    parse (.literal [32, 34, 92, 117, 48, 48, 54, 49, 34]) = .ok (.text .letterA) ∧
      stringify (.text .letterA) = .ok text ∧ parse text = .ok value' ∧
      Alike value' (.text .letterA) ∧ stringify value' = .ok text := by
  have parsed : parse (.literal [32, 34, 92, 117, 48, 48, 54, 49, 34]) = .ok (.text .letterA) := rfl
  obtain ⟨text, value', written, back, alike, again, -⟩ := parse_stringify parsed (by decide)
  exact ⟨text, value', parsed, written, back, alike, again⟩

end FoundationLang.Standard.JsonText
