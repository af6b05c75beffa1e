import PageContent.Token.Lexeme

/-! Tokens with their places in the data. Reading goes on after a fault. -/
namespace PageContent

structure Lexer where
  data : Bytes
  rest : Bytes
  deriving DecidableEq, Repr

namespace Lexer

def ofData (data : Bytes) : Lexer := ⟨data, data⟩

def position (l : Lexer) : Nat := l.data.length - l.rest.length

def seek (l : Lexer) (position : Nat) : Lexer := ⟨l.data, l.data.drop position⟩

def atEnd (l : Lexer) : Bool := l.rest.isEmpty

def next (l : Lexer) : Option (Except Fault (Nat × Token)) × Lexer :=
  let start : Lexer := ⟨l.data, Lexeme.skipBlanks false l.rest⟩
  match start.rest with
  | [] => (none, start)
  | b :: rest =>
    let (token, left) := Lexeme.lexeme b rest
    let item := match token with
      | .ok t => .ok (start.position, t)
      | .error flaw => .error (flaw.fault start.position)
    (some item, ⟨l.data, left⟩)

def run : Nat → Lexer → List (Except Fault (Nat × Token)) × Lexer
  | 0, l => ([], l)
  | fuel + 1, l => match l.next with
    | (none, l) => ([], l)
    | (some item, l) =>
      let (items, l) := run fuel l
      (item :: items, l)

def all (l : Lexer) : List (Except Fault (Nat × Token)) × Lexer := run (l.rest.length + 1) l

def imageEnd : Bytes := ascii ['E', 'I']

def rawData (l : Lexer) (marker : Bytes) : Bytes × Lexer :=
  let (data, left) := Lexeme.rawData marker (marker == imageEnd) l.rest
  (data, ⟨l.data, left⟩)

end Lexer

end PageContent
