/-! Arguments of the command: files and switches. A switch may be given once, and at
most one of those that choose what is printed. -/
namespace PageContent.Dump

inductive Switch where
  | debug | strict | tree | json | text | find | encoding | caseSensitive | outfile
  deriving DecidableEq, Repr

namespace Switch

def ofWord? (word : String) : Option Switch :=
  match word with
  | "debug" => some debug
  | "strict" => some strict
  | "tree" => some tree
  | "json" => some json
  | "text" => some text
  | "find" => some find
  | "encoding" => some encoding
  | "case-sensitive" => some caseSensitive
  | "outfile" => some outfile
  | _ => none

def ofLetter? (letter : Char) : Option Switch :=
  match letter with
  | 'd' => some debug
  | 't' => some tree
  | 'j' => some json
  | 'x' => some text
  | 'f' => some find
  | 'e' => some encoding
  | 'o' => some outfile
  | _ => none

def takesValue : Switch → Bool
  | find | encoding | outfile => true
  | _ => false

def isMode : Switch → Bool
  | tree | json | text | find => true
  | _ => false

end Switch

inductive Mode where
  | canonical
  | tree
  | json
  | text
  | find (needle : String)
  deriving DecidableEq, Repr

structure Options where
  files : List String
  strict : Bool
  caseSensitive : Bool
  mode : Mode
  encoding : Option String
  outfile : Option String
  deriving DecidableEq, Repr

abbrev Given := List (Switch × String)

abbrev Spelled := Given × Option Switch

def spellLong (cs : List Char) : Option Spelled := do
  let s ← Switch.ofWord? (String.ofList (cs.takeWhile (· ≠ '=')))
  match s.takesValue, cs.dropWhile (· ≠ '=') with
  | true, [] => some ([], some s)
  | true, _ :: value => some ([(s, String.ofList value)], none)
  | false, [] => some ([(s, "")], none)
  | false, _ :: _ => none

def spellShort : List Char → Option Spelled
  | [] => some ([], none)
  | c :: rest => do
    let s ← Switch.ofLetter? c
    if s.takesValue then
      match rest with
      | [] => some ([], some s)
      | '=' :: value => some ([(s, String.ofList value)], none)
      | value => some ([(s, String.ofList value)], none)
    else
      let (given, wants) ← spellShort rest
      some ((s, "") :: given, wants)

def isSwitch (arg : String) : Bool := arg.startsWith "-" && arg ≠ "-"

def spell (arg : String) : Option Spelled :=
  match arg.toList with
  | '-' :: '-' :: cs => spellLong cs
  | '-' :: cs => spellShort cs
  | _ => none

def scan : List String → Option (Given × List String)
  | [] => some ([], [])
  | arg :: rest =>
    if arg = "--" then some ([], rest)
    else if isSwitch arg then do
      match ← spell arg with
      | (given, none) =>
        let (more, files) ← scan rest
        some (given ++ more, files)
      | (given, some s) =>
        match rest with
        | [] => none
        | value :: rest =>
          if isSwitch value then none
          else
            let (more, files) ← scan rest
            some (given ++ (s, value) :: more, files)
    else do
      let (given, files) ← scan rest
      some (given, arg :: files)

def value? (s : Switch) (given : Given) : Option String :=
  (given.find? (·.1 = s)).map (·.2)

def modeOf (given : Given) : Mode :=
  match given.find? (·.1.isMode) with
  | some (.tree, _) => .tree
  | some (.json, _) => .json
  | some (.text, _) => .text
  | some (.find, needle) => .find needle
  | _ => .canonical

def Options.parse (args : List String) : Option Options := do
  let (given, files) ← scan args
  let switches := given.map (·.1)
  if files.isEmpty || !decide switches.Nodup || 1 < switches.countP Switch.isMode then none
  else some ⟨files, switches.contains .strict, switches.contains .caseSensitive, modeOf given,
    value? .encoding given, (value? .outfile given).filter (· ≠ "-")⟩

end PageContent.Dump
