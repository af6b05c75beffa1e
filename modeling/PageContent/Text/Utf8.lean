import PageContent.Bytes

/-! UTF-8. Reading replaces every maximal ill-formed part by one U+FFFD, so it
never fails, and it gives a text back from the octets written for it. -/
namespace PageContent.Utf8

def encode (s : String) : Bytes := s.toList.flatMap String.utf8EncodeChar

def replacement : Char := '\ufffd'

structure Partial where
  due : Nat
  low : UInt8
  high : UInt8
  bits : Nat
  deriving DecidableEq, Repr

-- The narrowed ranges exclude overlong forms, surrogates and values above U+10FFFF.
def lead? (b : UInt8) : Option Partial :=
  let n := b.toNat
  if 0xc2 ≤ n && n ≤ 0xdf then some ⟨0, 0x80, 0xbf, n % 32⟩
  else if n == 0xe0 then some ⟨1, 0xa0, 0xbf, 0⟩
  else if n == 0xed then some ⟨1, 0x80, 0x9f, 13⟩
  else if 0xe1 ≤ n && n ≤ 0xef then some ⟨1, 0x80, 0xbf, n % 16⟩
  else if n == 0xf0 then some ⟨2, 0x90, 0xbf, 0⟩
  else if 0xf1 ≤ n && n ≤ 0xf3 then some ⟨2, 0x80, 0xbf, n % 8⟩
  else if n == 0xf4 then some ⟨2, 0x80, 0x8f, 4⟩
  else none

def start (b : UInt8) : List Char × Option Partial :=
  if b < 0x80 then ([Char.ofNat b.toNat], none)
  else match lead? b with
    | some p => ([], some p)
    | none => ([replacement], none)

def chars : Option Partial → Bytes → List Char
  | none, [] => []
  | some _, [] => [replacement]
  | none, b :: rest =>
    let (out, next) := start b
    out ++ chars next rest
  | some p, b :: rest =>
    if p.low ≤ b && b ≤ p.high then
      let bits := p.bits * 64 + b.toNat % 64
      match p.due with
      | 0 => Char.ofNat bits :: chars none rest
      | due + 1 => chars (some ⟨due, 0x80, 0xbf, bits⟩) rest
    else
      let (out, next) := start b
      replacement :: out ++ chars next rest

def decode (bytes : Bytes) : String := String.ofList (chars none bytes)

end PageContent.Utf8
