import PageContent.Kind
import PageContent.Ref
import PageContent.Text.Quoted

/-! What can go wrong, by cause. `Fault.message` is the only place with wording. -/
namespace PageContent

inductive DictFlaw where
  | oddCount
  | keyKind (kind : Kind)
  deriving DecidableEq, Repr

inductive Bracket where
  | array
  | dict
  deriving DecidableEq, Repr

inductive TokenFlaw where
  | strayGreater
  | strayParen
  | number
  | hexString
  | unclosed (bracket : Bracket)
  | closes (bracket : Bracket)
  | entries (flaw : DictFlaw)
  | operatorInside (name : String)
  deriving DecidableEq, Repr

/-- The operand position, from the left, that does not fit a signature; nothing
was found there when operands are too few. -/
structure Mismatch where
  position : Nat
  expected : KindSet
  found : Option Kind
  deriving DecidableEq, Repr

inductive ContentFlaw where
  | operand (mismatch : Mismatch)
  | surplus (count : Nat)
  | excess (count : Nat)
  | leftOver (count : Nat)
  | blockOpen
  | noBlockStart
  | tooDeep (limit : Nat)
  | imageOperator (name : String)
  | imageEntries (flaw : DictFlaw)
  | imageEnd
  deriving DecidableEq, Repr

inductive ObjectFlaw where
  | noNode (node : Nat)
  | entryKind (kind : Kind)
  | entryDirect
  | noBacking
  | pageReset
  | contentsScalar
  | contentsKind (kind : Kind)
  | contentsElement (index : Nat)
  | contentsDirect
  | contentsAbsent
  deriving DecidableEq, Repr

inductive Expected where
  | kind (kind : Kind)
  | number
  | container
  | pageDictionary
  | inlineOperand
  deriving DecidableEq, Repr

inductive Found where
  | kind (kind : Kind)
  | scalar
  deriving DecidableEq, Repr

inductive Missing where
  | entry (key : String)
  | streamOfPage
  | streamInContents (ref : Ref)
  deriving DecidableEq, Repr

inductive ArgumentFlaw where
  | operator (name : String)
  | encoding (name : String)
  deriving DecidableEq, Repr

inductive Fault where
  | token (position : Nat) (flaw : TokenFlaw)
  | unexpectedEnd
  | malformed (operator : String) (flaw : ContentFlaw) (offset : Option Nat)
  | object (flaw : ObjectFlaw)
  | wrongType (expected : Expected) (found : Found)
  | outOfRange (index length : Nat)
  | missing (what : Missing)
  | noObject (ref : Ref)
  | argument (flaw : ArgumentFlaw)
  deriving DecidableEq, Repr

def DictFlaw.message : DictFlaw → String
  | oddCount => "dictionary with odd number of entries"
  | keyKind k => "dictionary key must be a name, got " ++ k.word

def Bracket.word : Bracket → String
  | array => "array"
  | dict => "dictionary"

def TokenFlaw.message : TokenFlaw → String
  | strayGreater => "stray '>'"
  | strayParen => "unbalanced ')'"
  | number => "invalid number"
  | hexString => "invalid hex string"
  | unclosed b => "unterminated " ++ b.word
  | closes b => "unexpected " ++ b.word ++ " end"
  | entries flaw => flaw.message
  | operatorInside name =>
    "operator " ++ Quoted.quoted name ++ " inside array or dictionary"

def Mismatch.message (m : Mismatch) : String :=
  let head := "operand " ++ toString m.position
  match m.found with
  | some k => head ++ " has kind " ++ k.word ++ ", expected mask " ++ m.expected.written
  | none => head ++ " is missing"

def ContentFlaw.message : ContentFlaw → String
  | operand m => m.message
  | surplus n => toString n ++ " surplus operand(s)"
  | excess n => toString n ++ " excess operand(s) before operator"
  | leftOver n => toString n ++ " operand(s) left at end of content"
  | blockOpen => "block not closed at end of content"
  | noBlockStart => "no matching block start"
  | tooDeep limit => "blocks nested deeper than " ++ toString limit
  | imageOperator name =>
    "unexpected operator " ++ Quoted.quoted name ++ " in inline image dictionary"
  | imageEntries flaw => flaw.message
  | imageEnd => "inline image missing EI"

def ContentFlaw.position? : ContentFlaw → Option Nat
  | operand m => some m.position
  | _ => none

def ObjectFlaw.message : ObjectFlaw → String
  | noNode n => "no node #" ++ toString n
  | entryKind k => "content entry is a " ++ k.word ++ ", not a stream"
  | entryDirect => "content stream has no indirect reference"
  | noBacking => "content stream without backing stream"
  | pageReset => "page contents were reset"
  | contentsScalar => "/Contents is neither a stream nor an array"
  | contentsKind k => "/Contents is a " ++ k.word ++ ", neither a stream nor an array"
  | contentsElement i => "/Contents element " ++ toString i ++ " is not a stream"
  | contentsDirect => "/Contents holds a direct stream"
  | contentsAbsent => "page has no /Contents entry"

def Expected.word : Expected → String
  | kind k => k.word
  | number => "number"
  | container => "container"
  | pageDictionary => "page dictionary"
  | inlineOperand => "inline operand"

def Found.word : Found → String
  | kind k => k.word
  | scalar => "scalar"

def Missing.message : Missing → String
  | entry key => "dictionary entry /" ++ key
  | streamOfPage => "content stream is not part of this page"
  | streamInContents r => "stream " ++ r.text ++ " in /Contents"

def ArgumentFlaw.message : ArgumentFlaw → String
  | operator name => "unknown operator " ++ Quoted.quoted name
  | encoding name => "unknown text encoding " ++ Quoted.quoted name

namespace Fault

def message : Fault → String
  | token pos flaw => "invalid token at position " ++ toString pos ++ ": " ++ flaw.message
  | unexpectedEnd => "unexpected end of input"
  | malformed name flaw offset =>
    let operand := match flaw.position? with
      | some p => " (operand " ++ toString p ++ ")"
      | none => ""
    let place := match offset with
      | some p => " at byte " ++ toString p
      | none => ""
    "malformed content at operator " ++ Quoted.quoted name ++ operand ++ ": " ++ flaw.message ++
      place
  | object flaw => "invalid object: " ++ flaw.message
  | wrongType expected found => "type error: expected " ++ expected.word ++ ", got " ++ found.word
  | outOfRange i n => "index " ++ toString i ++ " out of range (len " ++ toString n ++ ")"
  | missing what => "not found: " ++ what.message
  | noObject r => "PDF object not found: " ++ r.text
  | argument flaw => "invalid argument: " ++ flaw.message

def content (operator : String) (flaw : ContentFlaw) : Fault := .malformed operator flaw none

def atOffset (pos : Nat) : Fault → Fault
  | malformed name flaw _ => malformed name flaw (some pos)
  | other => other

end Fault

end PageContent
