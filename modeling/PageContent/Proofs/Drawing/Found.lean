import Mathlib.Data.Nat.Find
import PageContent.Proofs.Drawing.Charted

/-! Search in a text layer, from one match to the next. -/
namespace PageContent

/-- The places of a scan from left to right: each is the first occurrence at or after the end
of the one before it. -/
inductive Greedy (occurs : Nat → Prop) (width : Nat) : Nat → List Nat → Prop where
  | done {start : Nat} (never : ∀ s, start ≤ s → ¬ occurs s) : Greedy occurs width start []
  | next {start s : Nat} {rest : List Nat} (after : start ≤ s) (here : occurs s)
      (first : ∀ t, start ≤ t → t < s → ¬ occurs t) (more : Greedy occurs width (s + width) rest) :
      Greedy occurs width start (s :: rest)

namespace Greedy

variable {occurs : Nat → Prop} {width size start : Nat} {starts : List Nat}

theorem scanned (wide : 0 < width) (within : ∀ s, occurs s → s + width ≤ size) (start : Nat) :
    ∃ starts, Greedy occurs width start starts := by
  classical
  induction left : size - start using Nat.strongRecOn generalizing start with
  | ind left ih =>
    by_cases ahead : ∃ s, start ≤ s ∧ occurs s
    · obtain ⟨after, here⟩ := Nat.find_spec ahead
      have inside := within _ here
      obtain ⟨rest, more⟩ := ih (size - (Nat.find ahead + width)) (by omega) _ rfl
      refine ⟨_, .next after here (fun t late early found => ?_) more⟩
      exact Nat.find_min ahead early ⟨late, found⟩
    · exact ⟨[], .done fun s late found => ahead ⟨s, late, found⟩⟩

theorem occurring (scan : Greedy occurs width start starts) : ∀ s ∈ starts, occurs s := by
  induction scan with
  | done => simp
  | next after here first more ih => simpa using ⟨here, ih⟩

theorem fewer (wide : 0 < width) (within : ∀ s, occurs s → s + width ≤ size)
    (scan : Greedy occurs width start starts) : starts.length ≤ size - start := by
  induction scan with
  | done => simp
  | next after here first more ih =>
    have inside := within _ here
    rw [List.length_cons]
    omega

end Greedy

namespace TextLayer

def OccursAt (caseSensitive : Bool) (needle text : List Char) (start : Nat) : Prop :=
  ∀ i n, needle[i]? = some n → ∃ c, text[start + i]? = some c ∧ same caseSensitive c n = true

theorem OccursAt.inside {cs : Bool} {needle text : List Char} {s : Nat} (filled : needle ≠ [])
    (occurs : OccursAt cs needle text s) : s + needle.length ≤ text.length := by
  have width := List.length_pos_iff.mpr filled
  obtain ⟨c, last, -⟩ := occurs (needle.length - 1) _ (List.getElem?_eq_getElem (by omega))
  have within := (List.getElem?_eq_some_iff.mp last).1
  omega

theorem startsWithOccurs {cs : Bool} : ∀ {needle : List Char} {chars : List (Char × Option Nat)},
    startsWith cs needle chars = true ↔ OccursAt cs needle (chars.map Prod.fst) 0
  | [], chars => by simp [startsWith, OccursAt]
  | n :: needle, [] => by
    refine iff_of_false (by simp [startsWith]) fun occurs => ?_
    simpa using occurs.inside (List.cons_ne_nil _ _)
  | n :: needle, (c, i) :: rest => by
    rw [startsWith, Bool.and_eq_true, startsWithOccurs]
    constructor
    · rintro ⟨first, more⟩ (_ | j) m here
      · cases here
        exact ⟨c, rfl, first⟩
      · simpa using more j m here
    · intro occurs
      refine ⟨?_, fun j m here => ?_⟩
      · obtain ⟨_, same, first⟩ := occurs 0 n rfl
        cases same
        exact first
      · simpa using occurs (j + 1) m here

theorem startsWithDrop {cs : Bool} {needle : List Char} {chars : List (Char × Option Nat)}
    {s : Nat} :
    startsWith cs needle (chars.drop s) = true ↔ OccursAt cs needle (chars.map Prod.fst) s := by
  rw [startsWithOccurs]
  simp [OccursAt, List.getElem?_drop]

theorem offsetFirst {cs : Bool} {needle : List Char} :
    ∀ {chars : List (Char × Option Nat)} {k : Nat}, k < chars.length →
    startsWith cs needle (chars.drop k) = true →
    (∀ j < k, ¬ startsWith cs needle (chars.drop j) = true) → offset? cs needle chars = some k
  | c :: rest, 0, _, here, _ => by
    rw [List.drop_zero] at here
    rw [offset?, if_pos here]
  | c :: rest, k + 1, inside, here, first => by
    have apart : ¬ startsWith cs needle (c :: rest) = true := first 0 (Nat.succ_pos k)
    have tail := offsetFirst (Nat.lt_of_succ_lt_succ inside) here fun j early =>
      first (j + 1) (Nat.succ_lt_succ early)
    rw [offset?, if_neg apart, tail]
    rfl

theorem offsetNever {cs : Bool} {needle : List Char} : ∀ {chars : List (Char × Option Nat)},
    (∀ j, ¬ startsWith cs needle (chars.drop j) = true) → offset? cs needle chars = none
  | [], _ => rfl
  | c :: rest, never => by
    have apart : ¬ startsWith cs needle (c :: rest) = true := never 0
    rw [offset?, if_neg apart, offsetNever fun j => never (j + 1)]
    rfl

def moved (layer : TextLayer) (cursor : Nat) : TextLayer := { layer with cursor }

def searched (needle : List Char) (cs : Bool) : Nat → TextLayer → TextLayer
  | 0, layer => layer
  | k + 1, layer => searched needle cs k (layer.find needle cs).2

def answer (needle : List Char) (cs : Bool) (k : Nat) (layer : TextLayer) : Option Rect :=
  ((searched needle cs k layer).find needle cs).1

def Occurs (layer : TextLayer) (needle : List Char) (cs : Bool) : Nat → Prop :=
  OccursAt cs needle (layer.chars.toList.map Prod.fst)

def boxAt (layer : TextLayer) (needle : List Char) (s : Nat) : Option Rect :=
  layer.bounds? ((layer.chars.toList.drop s).take needle.length)

section

variable {layer : TextLayer} {needle : List Char} {cs : Bool}

theorem Occurs.inside (filled : needle ≠ []) {s : Nat} (occurs : layer.Occurs needle cs s) :
    s + needle.length ≤ layer.chars.size := by
  simpa using OccursAt.inside filled occurs

theorem findNext (filled : needle ≠ []) {start s : Nat} (after : start ≤ s)
    (here : layer.Occurs needle cs s)
    (first : ∀ t, start ≤ t → t < s → ¬ layer.Occurs needle cs t) :
    (layer.moved start).find needle cs =
      (layer.boxAt needle s, layer.moved (s + needle.length)) := by
  have inside := here.inside filled
  have width := List.length_pos_iff.mpr filled
  have whole : ¬ (needle.isEmpty || layer.chars.size < needle.length) = true := by
    simp [filled]
    omega
  obtain ⟨skip, rfl⟩ := Nat.le.dest after
  have offset : offset? cs needle (layer.chars.toList.drop start) = some skip := by
    refine offsetFirst ?_ ?_ fun j early => ?_
    · rw [List.length_drop, Array.length_toList]
      omega
    · rw [List.drop_drop]
      exact startsWithDrop.mpr here
    · rw [List.drop_drop]
      exact fun starts => first _ (Nat.le_add_right _ j) (by omega) (startsWithDrop.mp starts)
  refine (if_neg whole).trans ?_
  simp only [moved, offset, List.drop_drop]
  rfl

theorem findNever (filled : needle ≠ []) {start : Nat}
    (never : ∀ s, start ≤ s → ¬ layer.Occurs needle cs s) :
    ∃ stop, (layer.moved start).find needle cs = (none, layer.moved stop) ∧
      ∀ s, stop ≤ s → ¬ layer.Occurs needle cs s := by
  by_cases short : (needle.isEmpty || layer.chars.size < needle.length) = true
  -- No text has room for the needle, and the cursor stays.
  · exact ⟨start, if_pos short, never⟩
  · have offset : offset? cs needle (layer.chars.toList.drop start) = none := by
      refine offsetNever fun j => ?_
      rw [List.drop_drop]
      exact fun starts => never _ (Nat.le_add_right _ j) (startsWithDrop.mp starts)
    refine ⟨layer.chars.size, ?_, fun s late occurs => ?_⟩
    · refine (if_neg short).trans ?_
      simp only [moved, offset]
    · have inside := occurs.inside filled
      have width := List.length_pos_iff.mpr filled
      omega

theorem answerNever (filled : needle ≠ []) (k : Nat) {start : Nat}
    (never : ∀ s, start ≤ s → ¬ layer.Occurs needle cs s) :
    answer needle cs k (layer.moved start) = none := by
  induction k generalizing start with
  | zero =>
    obtain ⟨stop, found, -⟩ := findNever filled never
    rw [answer, searched, found]
  | succ k ih =>
    obtain ⟨stop, found, never⟩ := findNever filled never
    rw [answer, searched, found]
    exact ih never

theorem answers (filled : needle ≠ []) {start : Nat} {starts : List Nat}
    (scan : Greedy (layer.Occurs needle cs) needle.length start starts) (k : Nat) :
    answer needle cs k (layer.moved start) = starts[k]?.bind (layer.boxAt needle) := by
  induction scan generalizing k with
  | done never => exact answerNever filled k never
  | next after here first more ih =>
    have found := findNext filled after here first
    cases k with
    | zero =>
      rw [answer, searched, found]
      rfl
    | succ k =>
      rw [answer, searched, found]
      exact ih k

theorem findRunBoxes (filled : needle ≠ []) {start : Nat} {starts : List Nat}
    (scan : Greedy (layer.Occurs needle cs) needle.length start starts) {fuel : Nat}
    (enough : starts.length < fuel) :
    findRun needle cs fuel (layer.moved start) =
      ((starts.map (layer.boxAt needle)).takeWhile Option.isSome).filterMap id := by
  induction scan generalizing fuel with
  | done never =>
    obtain ⟨fuel, rfl⟩ := Nat.exists_eq_succ_of_ne_zero (Nat.ne_zero_of_lt enough)
    obtain ⟨stop, found, -⟩ := findNever filled never
    rw [findRun, found]
    rfl
  | @next start s rest after here first more ih =>
    obtain ⟨fuel, rfl⟩ := Nat.exists_eq_succ_of_ne_zero (Nat.ne_zero_of_lt enough)
    have tail := ih (Nat.lt_of_succ_lt_succ enough)
    rw [findRun, findNext filled after here first, List.map_cons]
    cases layer.boxAt needle s with
    | none => rfl
    | some r => simp [tail]

end

def boxOf (gs : List Glyph) (needle : List Char) (s : Nat) : Option Rect :=
  covered (((charted none gs).drop s).take needle.length)

theorem textOfGlyphs (gs : List Glyph) :
    (ofGlyphs gs).chars.toList.map Prod.fst = textAfter none gs := by
  rw [← chartedText, ← (charts gs).shown, shown, List.map_map]
  rfl

theorem boxAtOfGlyphs (gs : List Glyph) (needle : List Char) :
    (ofGlyphs gs).boxAt needle = boxOf gs needle := by
  funext s
  rw [boxAt, boundsCovered, (charts gs).shown, boxOf]

theorem memberWindow {α : Type} {l : List α} {s n : Nat} {x : α} :
    x ∈ (l.drop s).take n ↔ ∃ i < n, l[s + i]? = some x := by
  rw [List.mem_iff_getElem?]
  constructor
  · rintro ⟨i, here⟩
    rw [List.getElem?_take] at here
    split at here
    · exact ⟨i, ‹_›, by rwa [List.getElem?_drop] at here⟩
    · cases here
  · rintro ⟨i, early, here⟩
    exact ⟨i, by rw [List.getElem?_take_of_lt early, List.getElem?_drop, here]⟩

theorem boxless {gs : List Glyph} {needle : List Char} {cs : Bool} {s : Nat} (filled : needle ≠ [])
    (occurs : OccursAt cs needle (textAfter none gs) s) :
    boxOf gs needle s = none ↔ needle.length = 1 ∧ ∃ c, (charted none gs)[s]? = some (c, none) := by
  have width := List.length_pos_iff.mpr filled
  have inside := occurs.inside filled
  rw [← chartedText, List.length_map] at inside
  obtain ⟨⟨c, g⟩, first⟩ : ∃ p, (charted none gs)[s]? = some p :=
    ⟨_, List.getElem?_eq_getElem (by omega)⟩
  rw [boxOf, coveredNone]
  constructor
  · intro undrawn
    obtain rfl : g = none := undrawn (c, g) (memberWindow.mpr ⟨0, width, first⟩)
    refine ⟨?_, c, first⟩
    obtain ⟨drawn, second⟩ := gapAlone first
    refine Nat.le_antisymm (Nat.le_of_not_lt fun wide => ?_) width
    cases undrawn (drawn.char, some drawn) (memberWindow.mpr ⟨1, wide, second⟩)
  · rintro ⟨one, _, gap⟩ p member
    obtain ⟨i, early, here⟩ := memberWindow.mp member
    obtain rfl : i = 0 := by omega
    cases gap.symm.trans here
    rfl

/-- Searches from the start of a layer, one after the other, answer with the box of each place
of the greedy scan of the text in turn, and with nothing after the last one. A place has no box
just when the needle is a single character and stands at a separator; a search for all of them
ends at the first such place. -/
theorem foundEach (gs : List Glyph) {needle : List Char} (filled : needle ≠ []) (cs : Bool) :
    ∃ starts, Greedy (OccursAt cs needle (textAfter none gs)) needle.length 0 starts ∧
    (∀ k, answer needle cs k (ofGlyphs gs) = starts[k]?.bind (boxOf gs needle)) ∧
    (∀ s ∈ starts, boxOf gs needle s = none ↔
      needle.length = 1 ∧ ∃ c, (charted none gs)[s]? = some (c, none)) ∧
    (ofGlyphs gs).findAll needle cs =
      ((starts.map (boxOf gs needle)).takeWhile Option.isSome).filterMap id := by
  have width := List.length_pos_iff.mpr filled
  have within (s : Nat) (occurs : (ofGlyphs gs).Occurs needle cs s) := occurs.inside filled
  obtain ⟨starts, scan⟩ := Greedy.scanned width within 0
  have fresh : ofGlyphs gs = (ofGlyphs gs).moved 0 := by
    rw [moved, ← (charts gs).fresh]
  have asText : (ofGlyphs gs).Occurs needle cs = OccursAt cs needle (textAfter none gs) := by
    rw [← textOfGlyphs]
    rfl
  refine ⟨starts, asText ▸ scan, fun k => ?_, fun s member => ?_, ?_⟩
  · rw [← boxAtOfGlyphs, ← answers filled scan, ← fresh]
  · exact boxless filled (asText ▸ scan.occurring s member)
  · rw [← boxAtOfGlyphs, ← findRunBoxes filled scan (Nat.lt_succ_of_le (scan.fewer width within)),
      ← fresh]
    rfl

-- Spells "a b c": the first blank is a separator, the second one a glyph.
def gappedGlyphs : List Glyph :=
  [⟨'a', ⟨0, 0, 5, 10⟩, 0, 10⟩, ⟨'b', ⟨10, 0, 15, 10⟩, 0, 10⟩,
    ⟨' ', ⟨15, 0, 20, 10⟩, 0, 10⟩, ⟨'c', ⟨20, 0, 25, 10⟩, 0, 10⟩]

theorem foundEachGapped : ['B', ' '] ≠ [] ∧
    ∃ starts, Greedy (OccursAt false ['B', ' '] (textAfter none gappedGlyphs)) 2 0 starts ∧
    (∀ k, answer ['B', ' '] false k (ofGlyphs gappedGlyphs) =
      starts[k]?.bind (boxOf gappedGlyphs ['B', ' '])) ∧
    starts[0]?.bind (boxOf gappedGlyphs ['B', ' ']) = some ⟨10, 0, 20, 10⟩ := by
  obtain ⟨starts, scan, answers, -, -⟩ :=
    foundEach gappedGlyphs (List.cons_ne_nil 'B' [' ']) false
  refine ⟨List.cons_ne_nil _ _, starts, scan, answers, ?_⟩
  rw [← answers]
  decide +kernel

theorem occursOne {n : Char} {text : List Char} {s : Nat} :
    OccursAt true [n] text s ↔ text[s]? = some n := by
  constructor
  · intro occurs
    obtain ⟨c, here, same⟩ := occurs 0 n rfl
    rw [eq_of_beq same] at here
    exact here
  · rintro here (_ | i) m first
    · cases first
      exact ⟨n, here, beq_self_eq_true n⟩
    · cases first

theorem matchAfterNone :
    Greedy (OccursAt true [' '] (textAfter none gappedGlyphs)) 1 0 [1, 3] ∧
    boxOf gappedGlyphs [' '] 3 = some ⟨15, 0, 20, 10⟩ ∧
    answer [' '] true 0 (ofGlyphs gappedGlyphs) = none ∧
    answer [' '] true 1 (ofGlyphs gappedGlyphs) = some ⟨15, 0, 20, 10⟩ ∧
    (ofGlyphs gappedGlyphs).findAll [' '] true = [] := by
  have text : textAfter none gappedGlyphs = ['a', ' ', 'b', ' ', 'c'] := by decide +kernel
  refine ⟨?_, by decide +kernel, by decide +kernel, by decide +kernel, by decide +kernel⟩
  rw [text]
  refine .next (Nat.zero_le 1) (occursOne.mpr rfl) (fun t _ early => ?_)
    (.next (Nat.le_succ 2) (occursOne.mpr rfl) (fun t late early => ?_) (.done fun s late => ?_))
  · obtain rfl : t = 0 := by omega
    exact fun occurs => absurd (occursOne.mp occurs) (by decide)
  · obtain rfl : t = 2 := by omega
    exact fun occurs => absurd (occursOne.mp occurs) (by decide)
  · intro occurs
    have inside := occurs.inside (List.cons_ne_nil _ _)
    obtain rfl : s = 4 := Nat.le_antisymm (Nat.le_of_succ_le_succ inside) late
    exact absurd (occursOne.mp occurs) (by decide)

end TextLayer

end PageContent
