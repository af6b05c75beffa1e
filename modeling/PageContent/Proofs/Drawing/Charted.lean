import PageContent.Drawing.TextLayer

/-! The characters of a text layer, with the glyphs that draw them. -/
namespace PageContent.TextLayer

def charted : Option Glyph → List Glyph → List (Char × Option Glyph)
  | _, [] => []
  | before, g :: rest =>
    ((before.bind fun prev => prev.between? g).toList.map fun c => (c, none)) ++
      (g.char, some g) :: charted (some g) rest

def covered (chars : List (Char × Option Glyph)) : Option Rect :=
  match chars.filterMap fun (_, g) => g.map Glyph.box with
  | [] => none
  | r :: rest => some (rest.foldl Rect.union r)

theorem chartedText : ∀ (before : Option Glyph) (gs : List Glyph),
    (charted before gs).map Prod.fst = textAfter before gs
  | _, [] => rfl
  | before, g :: rest => by
    simp [charted, textAfter, chartedText (some g) rest, Function.comp_def]

theorem chartedEnd : ∀ (gs : List Glyph) (before : Option Glyph) (g : Glyph),
    charted before (gs ++ [g]) = charted before gs ++ charted (gs.getLast?.or before) [g]
  | [], _, _ => rfl
  | [first], _, _ => by simp [charted]
  | first :: second :: rest, before, g => by
    have tail := chartedEnd (second :: rest) (some first) g
    rw [List.getLast?_cons_cons]
    simp only [charted, List.cons_append, List.append_assoc] at tail ⊢
    rw [tail]
    simp [List.getLast?_cons]

theorem gapAlone : ∀ {gs : List Glyph} {before : Option Glyph} {s : Nat} {c : Char},
    (charted before gs)[s]? = some (c, none) →
    ∃ g, (charted before gs)[s + 1]? = some (g.char, some g)
  | g :: rest, before, s, c, gap => by
    simp only [charted] at gap ⊢
    cases apart : before.bind fun prev => prev.between? g with
    | none =>
      simp only [apart, Option.toList_none, List.map_nil, List.nil_append] at gap ⊢
      cases s with
      | zero => cases gap
      | succ s => simpa using gapAlone (by simpa using gap)
    | some separator =>
      simp only [apart, Option.toList_some, List.map_cons, List.map_nil, List.cons_append,
        List.nil_append] at gap ⊢
      cases s with
      | zero => exact ⟨g, rfl⟩
      | succ s =>
        cases s with
        | zero => cases gap
        | succ s => simpa using gapAlone (by simpa using gap)

theorem coveredNone {chars : List (Char × Option Glyph)} :
    covered chars = none ↔ ∀ p ∈ chars, p.2 = none := by
  have empty : covered chars = none ↔ (chars.filterMap fun (_, g) => g.map Glyph.box) = [] := by
    unfold covered
    cases chars.filterMap fun (_, g) => g.map Glyph.box <;> simp
  simp [empty]

def shown (layer : TextLayer) : List (Char × Option Glyph) :=
  layer.chars.toList.map fun (c, i) => (c, i.bind fun i => layer.glyphs[i]?)

theorem boundsCovered (layer : TextLayer) (start width : Nat) :
    layer.bounds? ((layer.chars.toList.drop start).take width) =
      covered ((layer.shown.drop start).take width) := by
  simp only [bounds?, covered, shown, ← List.map_drop, ← List.map_take, List.filterMap_map]
  congr 2
  funext p
  obtain ⟨_, i⟩ := p
  cases i <;> rfl

theorem addChars (layer : TextLayer) (g : Glyph) : (layer.add g).chars.toList =
    layer.chars.toList ++ (((layer.glyphs.back?.bind fun prev => prev.between? g).toList.map
      fun c => (c, none)) ++ [(g.char, some layer.glyphs.size)]) := by
  unfold add
  cases layer.glyphs.back?.bind fun prev => prev.between? g <;> simp

structure Charts (layer : TextLayer) (gs : List Glyph) : Prop where
  glyphs : layer.glyphs.toList = gs
  shown : layer.shown = charted none gs
  inside : ∀ p ∈ layer.chars.toList, ∀ i, p.2 = some i → i < layer.glyphs.size
  fresh : layer.cursor = 0

namespace Charts

variable {layer : TextLayer} {gs : List Glyph}

theorem unmoved (charts : Charts layer gs) (g : Glyph) :
    (layer.chars.toList.map fun (c, i) => (c, i.bind fun i => (layer.glyphs.push g)[i]?)) =
      charted none gs := by
  rw [← charts.shown, TextLayer.shown]
  refine List.map_congr_left fun (c, i) member => ?_
  cases i with
  | none => rfl
  | some i =>
    have within := charts.inside _ member i rfl
    simp [Array.getElem?_push, Nat.ne_of_lt within]

theorem add (charts : Charts layer gs) (g : Glyph) : Charts (layer.add g) (gs ++ [g]) := by
  have last : layer.glyphs.back? = gs.getLast? := by
    rw [← charts.glyphs, Array.getLast?_toList]
  refine ⟨by simp [TextLayer.add, charts.glyphs], ?_, ?_, charts.fresh⟩
  · rw [chartedEnd, ← charts.unmoved g, Option.or_none, ← last, TextLayer.shown, addChars]
    simp [TextLayer.add, charted, Function.comp_def]
  · intro p member i drawn
    rw [addChars, List.mem_append, List.mem_append, List.mem_singleton] at member
    have grown : (layer.add g).glyphs.size = layer.glyphs.size + 1 := by simp [TextLayer.add]
    rw [grown]
    rcases member with before | separator | rfl
    · exact Nat.lt_succ_of_lt (charts.inside p before i drawn)
    · obtain ⟨c, -, rfl⟩ := List.mem_map.mp separator
      cases drawn
    · cases drawn
      exact Nat.lt_succ_self _

end Charts

theorem charts (gs : List Glyph) : Charts (ofGlyphs gs) gs := by
  suffices ∀ (gs : List Glyph) {layer : TextLayer} {done : List Glyph}, Charts layer done →
      Charts (gs.foldl add layer) (done ++ gs) from this gs ⟨rfl, rfl, by simp [empty], rfl⟩
  intro gs
  induction gs with
  | nil => intro layer done charts; simpa using charts
  | cons g rest ih =>
    intro layer done charts
    rw [List.append_cons]
    exact ih (charts.add g)

end PageContent.TextLayer
