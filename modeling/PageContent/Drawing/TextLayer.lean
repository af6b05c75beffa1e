import PageContent.Geometry
import PageContent.Text.LowerCase

/-! Placed characters in the order drawn, their text, and search in it. -/
namespace PageContent

structure Glyph where
  char : Char
  box : Rect
  baseline : Float
  size : Float
  deriving DecidableEq, Repr

namespace Glyph

def between? (prev next : Glyph) : Option Char :=
  let tolerance := greater (greater prev.size next.size) 1 * 0.5
  if (prev.baseline - next.baseline).abs > tolerance then some '\n'
  else
    let gap := next.box.x0 - prev.box.x1
    let spaced := prev.char = ' ' || next.char = ' '
    if !spaced && gap > greater prev.size 1 * 0.25 then some ' ' else none

end Glyph

structure TextLayer where
  glyphs : Array Glyph
  chars : Array (Char × Option Nat)
  cursor : Nat
  deriving Repr

namespace TextLayer

def empty : TextLayer := ⟨#[], #[], 0⟩

def add (layer : TextLayer) (g : Glyph) : TextLayer :=
  let separator := layer.glyphs.back?.bind fun prev => prev.between? g
  let chars := match separator with
    | some c => layer.chars.push (c, none)
    | none => layer.chars
  { layer with glyphs := layer.glyphs.push g, chars := chars.push (g.char, some layer.glyphs.size) }

def ofGlyphs (gs : List Glyph) : TextLayer := gs.foldl add empty

def textAfter : Option Glyph → List Glyph → List Char
  | _, [] => []
  | prev, g :: rest =>
    (prev.bind fun before => before.between? g).toList ++ g.char :: textAfter (some g) rest

def text (layer : TextLayer) (region : Rect) : List Char :=
  textAfter none (layer.glyphs.toList.filter fun g => region.contains g.box.center)

def same (caseSensitive : Bool) (a b : Char) : Bool :=
  if caseSensitive then a == b else LowerCase.same a b

def startsWith (caseSensitive : Bool) : List Char → List (Char × Option Nat) → Bool
  | [], _ => true
  | _ :: _, [] => false
  | n :: needle, (c, _) :: rest => same caseSensitive c n && startsWith caseSensitive needle rest

def offset? (caseSensitive : Bool) (needle : List Char) : List (Char × Option Nat) → Option Nat
  | [] => none
  | c :: rest =>
    if startsWith caseSensitive needle (c :: rest) then some 0
    else (offset? caseSensitive needle rest).map (· + 1)

def bounds? (layer : TextLayer) (chars : List (Char × Option Nat)) : Option Rect :=
  match chars.filterMap fun (_, i) => i.bind fun i => layer.glyphs[i]?.map Glyph.box with
  | [] => none
  | r :: rest => some (rest.foldl Rect.union r)

def find (layer : TextLayer) (needle : List Char) (caseSensitive : Bool) :
    Option Rect × TextLayer :=
  if needle.isEmpty || layer.chars.size < needle.length then (none, layer)
  else
    let ahead := layer.chars.toList.drop layer.cursor
    match offset? caseSensitive needle ahead with
    | none => (none, { layer with cursor := layer.chars.size })
    | some skip =>
      (layer.bounds? ((ahead.drop skip).take needle.length),
       { layer with cursor := layer.cursor + skip + needle.length })

def findRun (needle : List Char) (caseSensitive : Bool) : Nat → TextLayer → List Rect
  | 0, _ => []
  | fuel + 1, layer => match layer.find needle caseSensitive with
    | (none, _) => []
    | (some r, layer) => r :: findRun needle caseSensitive fuel layer

def findAll (layer : TextLayer) (needle : List Char) (caseSensitive : Bool) : List Rect :=
  findRun needle caseSensitive (layer.chars.size + 1) layer

end TextLayer

end PageContent
