import PageContent.Text.Unprintable

/-! Names quoted in messages: between double quotes, with quotes and backslashes
escaped and characters without a mark written by number. -/
namespace PageContent.Quoted

def char (c : Char) : List Char :=
  if c = '"' || c = '\\' then ['\\', c]
  else if c = '\t' then ['\\', 't']
  else if c = '\r' then ['\\', 'r']
  else if c = '\n' then ['\\', 'n']
  else if c = '\x00' then ['\\', '0']
  else if Unprintable.holds c then ['\\', 'u', '\x7b'] ++ Nat.toDigits 16 c.toNat ++ ['\x7d']
  else [c]

def quoted (s : String) : String := String.ofList ('"' :: s.toList.flatMap char ++ ['"'])

end PageContent.Quoted
