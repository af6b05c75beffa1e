import PageContent.Drawing.TextLayer
import PageContent.OperatorTree.Outline
import PageContent.Text.Encoding

/-! Drawing text: the operators that place characters, save and restore state and
mark content. Fonts are not known; a glyph is half as wide as its size. -/
namespace PageContent.Drawing

structure TextState where
  fontSize : Float
  charSpace : Float
  wordSpace : Float
  scaling : Float
  leading : Float
  rise : Float
  matrix : Matrix
  lineMatrix : Matrix
  deriving DecidableEq, Repr

def TextState.initial : TextState := ⟨0, 0, 0, 100, 0, 0, .identity, .identity⟩

structure State where
  ctm : Matrix
  text : TextState
  saved : List (Matrix × TextState)
  deriving DecidableEq, Repr

def State.initial (ctm : Matrix) : State := ⟨ctm, .initial, []⟩

inductive Event where
  | ctm (matrix : Matrix)
  | beginTag (tag : String) (properties : Option Operand)
  | endTag
  | pointTag (tag : String) (properties : Option Operand)
  | glyph (glyph : Glyph)
  deriving Repr

abbrev Outcome := State × List Event

namespace State

def silent (s : State) : Outcome := (s, [])

def setText (s : State) (text : TextState) : Outcome := ({ s with text }, [])

def setCtm (s : State) (ctm : Matrix) : Outcome := ({ s with ctm }, [.ctm ctm])

def lineAt (s : State) (p : Point) : State :=
  let m := s.text.lineMatrix.translate p
  { s with text := { s.text with matrix := m, lineMatrix := m } }

def newLine (s : State) : State := s.lineAt ⟨0, -s.text.leading⟩

def glyphAt (s : State) (char : Char) : Glyph :=
  let t := s.text
  let m := t.matrix.followedBy s.ctm
  let width := t.fontSize * 0.5 * (t.scaling / 100)
  let box := Rect.image m ⟨0, t.rise, width, t.rise + t.fontSize⟩
  ⟨char, box, (m.apply ⟨0, t.rise⟩).y, box.y1 - box.y0⟩

def advance (s : State) (char : Char) : State :=
  let t := s.text
  let step := t.fontSize * 0.5 + t.charSpace
  let step := if char = ' ' then step + t.wordSpace else step
  { s with text := { t with matrix := t.matrix.translate ⟨step * (t.scaling / 100), 0⟩ } }

def write (s : State) : List Char → Outcome
  | [] => s.silent
  | c :: rest =>
    let (after, events) := (s.advance c).write rest
    (after, .glyph (s.glyphAt c) :: events)

def writeOperand (encoding : Encoding) (s : State) (o : Option Operand) : Outcome :=
  match o.bind Operand.bytes? with
  | some bytes => s.write (encoding.decode bytes)
  | none => s.silent

def writeItems (encoding : Encoding) (s : State) : List Operand → Outcome
  | [] => s.silent
  | o :: rest =>
    let (s, events) := match o.number? with
      | some adjust =>
        let t := s.text
        let x := -adjust / 1000 * t.fontSize * t.scaling / 100
        s.setText { t with matrix := t.matrix.translate ⟨x, 0⟩ }
      | none => writeOperand encoding s (some o)
    let (s, more) := writeItems encoding s rest
    (s, events ++ more)

end State

def numbers? (operands : List Operand) : Option (List Float) := operands.mapM Operand.number?

def matrix? (operands : List Operand) : Option Matrix :=
  match numbers? operands with
  | some [a, b, c, d, e, f] => some ⟨a, b, c, d, e, f⟩
  | _ => none

def point? (operands : List Operand) : Option Point :=
  match numbers? operands with
  | some [x, y] => some ⟨x, y⟩
  | _ => none

def tag? (operands : List Operand) : Option String := operands.head?.bind Operand.name?

def assign (s : State) (operands : List Operand) (f : TextState → Float → TextState) : Outcome :=
  match operands.head?.bind Operand.number? with
  | some x => s.setText (f s.text x)
  | none => s.silent

def perform (encoding : Encoding) (s : State) (name : String) (operands : List Operand) : Outcome :=
  match name with
  | "q" => ({ s with saved := (s.ctm, s.text) :: s.saved }, [])
  | "Q" => match s.saved with
    | [] => s.silent
    | (ctm, text) :: saved => ({ s with text, saved }).setCtm ctm
  | "cm" => match matrix? operands with
    | some m => s.setCtm (m.followedBy s.ctm)
    | none => s.silent
  | "BT" => s.setText { s.text with matrix := .identity, lineMatrix := .identity }
  | "BMC" | "BDC" => match tag? operands with
    | some tag => (s, [.beginTag tag operands[1]?])
    | none => s.silent
  | "EMC" => (s, [.endTag])
  | "MP" | "DP" => match tag? operands with
    | some tag => (s, [.pointTag tag operands[1]?])
    | none => s.silent
  | "Tf" => match operands[1]?.bind Operand.number? with
    | some size => s.setText { s.text with fontSize := size }
    | none => s.silent
  | "Tc" => assign s operands fun t x => { t with charSpace := x }
  | "Tw" => assign s operands fun t x => { t with wordSpace := x }
  | "Tz" => assign s operands fun t x => { t with scaling := x }
  | "TL" => assign s operands fun t x => { t with leading := x }
  | "Ts" => assign s operands fun t x => { t with rise := x }
  | "Td" => match point? operands with
    | some p => (s.lineAt p).silent
    | none => s.silent
  | "TD" => match point? operands with
    | some p => ({ s with text := { s.text with leading := -p.y } }.lineAt p).silent
    | none => s.silent
  | "Tm" => match matrix? operands with
    | some m => s.setText { s.text with matrix := m, lineMatrix := m }
    | none => s.silent
  | "T*" => s.newLine.silent
  | "Tj" => s.writeOperand encoding operands.head?
  | "'" => s.newLine.writeOperand encoding operands.head?
  | "\"" =>
    let text := match numbers? (operands.take 2) with
      | some [word, char] => { s.text with wordSpace := word, charSpace := char }
      | _ => s.text
    ({ s with text }).newLine.writeOperand encoding operands[2]?
  | "TJ" => s.writeItems encoding ((operands.head?.bind Operand.items?).getD [])
  | _ => s.silent

mutual

def draw (encoding : Encoding) (s : State) : Outline → Outcome
  | .node _ (.block start _) children =>
    let (s, events) := perform encoding s start.name start.operands
    let (s, inner) := drawAll encoding s children
    let (s, last) := perform encoding s start.endName []
    (s, events ++ inner ++ last)
  | .node _ (.image _ _) _ => s.silent
  | .node _ op _ => perform encoding s op.name op.operands

def drawAll (encoding : Encoding) (s : State) : List Outline → Outcome
  | [] => s.silent
  | o :: rest =>
    let (s, events) := draw encoding s o
    let (s, more) := drawAll encoding s rest
    (s, events ++ more)

end

def run (encoding : Encoding) (s : State) (trees : List OperatorTree) : Outcome :=
  drawAll encoding s (trees.flatMap OperatorTree.outline)

def Event.glyph? : Event → Option Glyph
  | .glyph g => some g
  | _ => none

def render (encoding : Encoding) (ctm : Matrix) (trees : List OperatorTree) : Matrix × TextLayer :=
  let (s, events) := run encoding (.initial ctm) trees
  (s.ctm, .ofGlyphs (events.filterMap Event.glyph?))

end PageContent.Drawing
