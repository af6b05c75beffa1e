/-! JSON text, two spaces for each level. -/
namespace PageContent.Dump

inductive Json where
  | string (text : String)
  | number (n : Nat)
  | bool (b : Bool)
  | list (items : List Json)
  | object (fields : List (String × Json))
  deriving Repr

namespace Json

def escape (c : Char) : List Char :=
  if c = '"' || c = '\\' then ['\\', c]
  else if c = '\n' then ['\\', 'n']
  else if c = '\r' then ['\\', 'r']
  else if c = '\t' then ['\\', 't']
  else if c = '\x08' then ['\\', 'b']
  else if c = '\x0c' then ['\\', 'f']
  else if c.toNat < 0x20 then
    let ds := Nat.toDigits 16 c.toNat
    ['\\', 'u'] ++ List.replicate (4 - ds.length) '0' ++ ds
  else [c]

def quoted (s : String) : String := String.ofList ('"' :: s.toList.flatMap escape ++ ['"'])

def newLine (level : Nat) : String := "\n" ++ String.ofList (List.replicate (2 * level) ' ')

mutual

def pretty (level : Nat) : Json → String
  | string text => quoted text
  | number n => toString n
  | bool b => if b then "true" else "false"
  | list [] => "[]"
  | list items => "[" ++ prettyItems (level + 1) items ++ newLine level ++ "]"
  | object [] => "\x7b\x7d"
  | object fields => "\x7b" ++ prettyFields (level + 1) fields ++ newLine level ++ "\x7d"

def prettyItems (level : Nat) : List Json → String
  | [] => ""
  | v :: rest =>
    newLine level ++ pretty level v ++ (if rest.isEmpty then "" else ",") ++ prettyItems level rest

def prettyFields (level : Nat) : List (String × Json) → String
  | [] => ""
  | (k, v) :: rest =>
    newLine level ++ quoted k ++ ": " ++ pretty level v ++
      (if rest.isEmpty then "" else ",") ++ prettyFields level rest

end

end Json

end PageContent.Dump
