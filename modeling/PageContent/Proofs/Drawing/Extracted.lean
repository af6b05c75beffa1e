import Mathlib.Data.List.Induction
import PageContent.Proofs.Drawing.Found

/-! The text that is searched is the text that is extracted: separators are found when glyphs
are added as they are found when all glyphs are read, and each glyph keeps its own number. -/
namespace PageContent.TextLayer

theorem textInside (gs : List Glyph) {region : Rect}
    (inside : ∀ g ∈ gs, region.contains g.box.center = true) :
    (ofGlyphs gs).text region = textAfter none gs := by
  rw [text, (charts gs).glyphs, List.filter_eq_self.mpr inside]

def drawn (layer : TextLayer) : List (Char × Nat) :=
  layer.chars.toList.filterMap fun (c, i) => i.map fun i => (c, i)

theorem addDrawn (layer : TextLayer) (g : Glyph) :
    (layer.add g).drawn = layer.drawn ++ [(g.char, layer.glyphs.size)] := by
  rw [drawn, addChars]
  cases layer.glyphs.back?.bind fun prev => prev.between? g <;> simp [drawn]

theorem drawnInOrder (gs : List Glyph) :
    (ofGlyphs gs).drawn = gs.mapIdx fun i g => (g.char, i) := by
  induction gs using List.reverseRecOn with
  | nil => rfl
  | append_singleton gs g ih =>
    have added : ofGlyphs (gs ++ [g]) = (ofGlyphs gs).add g := by simp [ofGlyphs]
    have count : (ofGlyphs gs).glyphs.size = gs.length := by
      rw [← Array.length_toList, (charts gs).glyphs]
    rw [added, addDrawn, ih, count, List.mapIdx_concat]

theorem occursPrefix {needle text : List Char} {s : Nat} :
    OccursAt true needle text s ↔ needle <+: text.drop s := by
  rw [List.prefix_iff_getElem?]
  constructor
  · intro occurs i early
    obtain ⟨c, here, same⟩ := occurs i _ (List.getElem?_eq_getElem early)
    rw [List.getElem?_drop, here, eq_of_beq same]
  · intro starts i n here
    obtain ⟨early, rfl⟩ := List.getElem?_eq_some_iff.mp here
    exact ⟨needle[i], by rw [← List.getElem?_drop, starts i early], beq_self_eq_true _⟩

theorem shownAt (layer : TextLayer) (s : Nat) :
    layer.shown[s]? = layer.chars[s]?.map fun (c, i) => (c, i.bind fun i => layer.glyphs[i]?) := by
  rw [shown, List.getElem?_map, Array.getElem?_toList]

theorem boxDrawn {gs : List Glyph} {needle : List Char} {s : Nat} :
    (boxOf gs needle s).isSome ↔
      ∃ i < needle.length, ∃ c k, (ofGlyphs gs).chars[s + i]? = some (c, some k) := by
  rw [← not_iff_not, Option.not_isSome_iff_eq_none, boxOf, coveredNone, ← (charts gs).shown]
  constructor
  · rintro undrawn ⟨i, early, c, k, here⟩
    have within := (charts gs).inside _ (List.mem_of_getElem? (Array.getElem?_toList ▸ here)) k rfl
    have shown := shownAt (ofGlyphs gs) (s + i)
    simp only [here, Option.map_some, Option.bind_some, Array.getElem?_eq_getElem within] at shown
    cases undrawn _ (memberWindow.mpr ⟨i, early, shown⟩)
  · intro undrawn p member
    obtain ⟨i, early, here⟩ := memberWindow.mp member
    rw [shownAt] at here
    obtain ⟨⟨c, k⟩, there, rfl⟩ := Option.map_eq_some_iff.mp here
    cases k with
    | none => rfl
    | some k => exact absurd ⟨i, early, c, k, there⟩ undrawn

theorem firstOccurrence {needle text before after : List Char}
    (split : text = before ++ needle ++ after) : ∃ first ≤ before.length,
      needle <+: text.drop first ∧ ∀ s < first, ¬ needle <+: text.drop s := by
  classical
  have here : needle <+: text.drop before.length := by
    rw [split, List.append_assoc, List.drop_left]
    exact List.prefix_append needle after
  have some : ∃ s, needle <+: text.drop s := ⟨_, here⟩
  exact ⟨Nat.find some, Nat.find_min' some here, Nat.find_spec some, fun s => Nat.find_min some⟩

/-- For a region around all glyphs, the text extracted is the text that is searched. Each
character that a glyph draws has the number of that glyph. So a search, case by case, for what
stands somewhere in the text stops at its first occurrence, there or before, and answers the box
of the glyphs there unless there is none. -/
theorem searchedExtracted (gs : List Glyph) {region : Rect}
    (inside : ∀ g ∈ gs, region.contains g.box.center = true) :
    (ofGlyphs gs).text region = (ofGlyphs gs).chars.toList.map Prod.fst ∧
    (ofGlyphs gs).drawn = gs.mapIdx (fun i g => (g.char, i)) ∧
    ∀ before needle after : List Char, (ofGlyphs gs).text region = before ++ needle ++ after →
      needle ≠ [] → ∃ first ≤ before.length,
        needle <+: ((ofGlyphs gs).text region).drop first ∧
        (∀ s < first, ¬ needle <+: ((ofGlyphs gs).text region).drop s) ∧
        (ofGlyphs gs).find needle true =
          (boxOf gs needle first, (ofGlyphs gs).moved (first + needle.length)) ∧
        ((boxOf gs needle first).isSome ↔
          ∃ i < needle.length, ∃ c k, (ofGlyphs gs).chars[first + i]? = some (c, some k)) := by
  have text := textInside gs inside
  refine ⟨text.trans (textOfGlyphs gs).symm, drawnInOrder gs, fun before needle after split filled => ?_⟩
  obtain ⟨first, early, here, never⟩ := firstOccurrence split
  refine ⟨first, early, here, never, ?_, boxDrawn⟩
  have asText (s : Nat) : (ofGlyphs gs).Occurs needle true s ↔
      needle <+: ((ofGlyphs gs).text region).drop s := by
    rw [Occurs, textOfGlyphs, ← text, occursPrefix]
  have fresh : (ofGlyphs gs).moved 0 = ofGlyphs gs := by rw [moved, ← (charts gs).fresh]
  rw [← boxAtOfGlyphs, ← findNext filled (Nat.zero_le first) ((asText first).mpr here)
    (fun t _ before occurs => never t before ((asText t).mp occurs)), fresh]

def twoLines : List Glyph :=
  [⟨'a', ⟨0, 20, 5, 30⟩, 20, 10⟩, ⟨'b', ⟨5, 20, 10, 30⟩, 20, 10⟩,
    ⟨'a', ⟨0, 0, 5, 10⟩, 0, 10⟩, ⟨'b', ⟨15, 0, 20, 10⟩, 0, 10⟩]

theorem searchedExtractedLines :
    (∀ g ∈ twoLines, (Rect.mk 0 0 20 30).contains g.box.center = true) ∧
    (ofGlyphs twoLines).text ⟨0, 0, 20, 30⟩ = ['a', 'b', '\n', 'a'] ++ [' ', 'b'] ++ [] ∧
    (ofGlyphs twoLines).drawn = [('a', 0), ('b', 1), ('a', 2), ('b', 3)] ∧
    ∃ first ≤ 4, [' ', 'b'] <+: ((ofGlyphs twoLines).text ⟨0, 0, 20, 30⟩).drop first ∧
      (ofGlyphs twoLines).find [' ', 'b'] true =
        (some ⟨15, 0, 20, 10⟩, (ofGlyphs twoLines).moved (first + 2)) := by
  have inside : ∀ g ∈ twoLines, (Rect.mk 0 0 20 30).contains g.box.center = true := by decide +kernel
  have spelled : (ofGlyphs twoLines).text ⟨0, 0, 20, 30⟩ = ['a', 'b', '\n', 'a'] ++ [' ', 'b'] ++ [] := by
    decide +kernel
  have box : ((ofGlyphs twoLines).find [' ', 'b'] true).1 = some ⟨15, 0, 20, 10⟩ := by decide +kernel
  obtain ⟨-, numbered, found⟩ := searchedExtracted twoLines inside
  obtain ⟨first, early, here, -, answer, -⟩ := found _ _ _ spelled (List.cons_ne_nil _ _)
  have covered : boxOf twoLines [' ', 'b'] first = some ⟨15, 0, 20, 10⟩ :=
    (congrArg Prod.fst answer).symm.trans box
  exact ⟨inside, spelled, numbered, first, early, here, by rw [answer, covered]; rfl⟩

end PageContent.TextLayer
