import PageContent.Operand
import PageContent.Decimal.Fixed
import PageContent.Decimal.Shortest
import PageContent.Text.Utf8

/-! Canonical text of operands. -/
namespace PageContent

namespace Scalar

def intText (n : Int) : List Char :=
  (if n < 0 then ['-'] else []) ++ Nat.toDigits 10 n.natAbs

/-- Always with a point, so that it reads back as a real: one place for an
integral value, else the fewest digits. What is not finite is written as zero. -/
def realText (x : Float) : List Char :=
  match Decimal.Binary.ofFloat? x with
  | some b => if b.isInteger then Decimal.fixed 1 b else Decimal.shortest b
  | none => ['0', '.', '0']

def needsHash (b : UInt8) : Bool :=
  b ≤ Octet.space || 0x7f ≤ b || b == Octet.hash || Octet.isDelimiter b

def nameOctet (b : UInt8) : Bytes :=
  if needsHash b then Octet.hash :: Octet.hexPair b else [b]

def nameText (s : String) : Bytes := Octet.slash :: (Utf8.encode s).flatMap nameOctet

def stringOctet (b : UInt8) : Bytes :=
  if b == Octet.parenOpen || b == Octet.parenClose || b == Octet.backslash then [Octet.backslash, b]
  else if b == Octet.lineFeed then ascii ['\\', 'n']
  else if b == Octet.carriageReturn then ascii ['\\', 'r']
  else if b == Octet.tab then ascii ['\\', 't']
  else if Octet.space ≤ b && b ≤ 0x7e then [b]
  else Octet.backslash :: Octet.octalTriple b

def stringText (octets : Bytes) : Bytes :=
  Octet.parenOpen :: octets.flatMap stringOctet ++ [Octet.parenClose]

def written : Scalar → Bytes
  | null => ascii "null".toList
  | bool true => ascii "true".toList
  | bool false => ascii "false".toList
  | int n => ascii (intText n.toInt)
  | real x => ascii (realText x)
  | name s => nameText s
  | string octets => stringText octets

end Scalar

namespace Operand

mutual

def written : Operand → Bytes
  | scalar _ s => s.written
  | ref _ r => ascii r.text.toList
  | array _ items => Octet.bracketOpen :: writtenItems items ++ [Octet.bracketClose]
  | dict _ entries =>
    Octet.less :: Octet.less :: writtenEntries entries ++ [Octet.greater, Octet.greater]

def writtenItems : List Operand → Bytes
  | [] => []
  | o :: rest =>
    written o ++ (if rest.isEmpty then [] else [Octet.space]) ++ writtenItems rest

def writtenEntries : List (String × Operand) → Bytes
  | [] => []
  | (k, o) :: rest =>
    Scalar.nameText k ++ [Octet.space] ++ written o ++ [Octet.space] ++ writtenEntries rest

end

end Operand

end PageContent
