/-! Octets of content data. A blank or a delimiter ends every word, and digits
are read in bases eight, ten and sixteen. -/
namespace PageContent

abbrev Bytes := List UInt8

def ascii (cs : List Char) : Bytes := cs.map Char.toUInt8

namespace Octet

abbrev tab : UInt8 := 0x09
abbrev lineFeed : UInt8 := 0x0a
abbrev formFeed : UInt8 := 0x0c
abbrev carriageReturn : UInt8 := 0x0d
abbrev space : UInt8 := 0x20
abbrev hash : UInt8 := 0x23
abbrev percent : UInt8 := 0x25
abbrev parenOpen : UInt8 := 0x28
abbrev parenClose : UInt8 := 0x29
abbrev plus : UInt8 := 0x2b
abbrev minus : UInt8 := 0x2d
abbrev dot : UInt8 := 0x2e
abbrev slash : UInt8 := 0x2f
abbrev zero : UInt8 := 0x30
abbrev less : UInt8 := 0x3c
abbrev greater : UInt8 := 0x3e
abbrev bracketOpen : UInt8 := 0x5b
abbrev backslash : UInt8 := 0x5c
abbrev bracketClose : UInt8 := 0x5d
abbrev braceOpen : UInt8 := 0x7b
abbrev braceClose : UInt8 := 0x7d

def isBlank (b : UInt8) : Bool :=
  b == space || b == tab || b == carriageReturn || b == lineFeed || b == 0 || b == formFeed

def isDelimiter (b : UInt8) : Bool :=
  b == parenOpen || b == parenClose || b == less || b == greater || b == bracketOpen ||
  b == bracketClose || b == braceOpen || b == braceClose || b == slash || b == percent

def endsWord (b : UInt8) : Bool := isBlank b || isDelimiter b

def isDigit (b : UInt8) : Bool := zero ≤ b && b ≤ 0x39

def isOctal (b : UInt8) : Bool := zero ≤ b && b ≤ 0x37

def digitValue (b : UInt8) : Nat := b.toNat - zero.toNat

def fromHex? (b : UInt8) : Option UInt8 :=
  if isDigit b then some (b - zero)
  else if 0x61 ≤ b && b ≤ 0x66 then some (b - 0x61 + 10)
  else if 0x41 ≤ b && b ≤ 0x46 then some (b - 0x41 + 10)
  else none

def hexDigit (n : UInt8) : UInt8 := if n < 10 then zero + n else 0x61 + (n - 10)

def hexPair (b : UInt8) : Bytes := [hexDigit (b >>> 4), hexDigit (b &&& 0x0f)]

def octalTriple (b : UInt8) : Bytes :=
  [zero + (b >>> 6), zero + ((b >>> 3) &&& 7), zero + (b &&& 7)]

end Octet

end PageContent
