import PageContent.ContentItem
import PageContent.Token.Lexer

/-! Content items of one stream, each with the place of its last token. -/
namespace PageContent

namespace Assembly

def readItem : Nat → List Frame → Lexer → Option (Except Fault (Nat × Item)) × Lexer
  | 0, _, l => (none, l)
  | fuel + 1, stack, l => match l.next with
    | (none, l) => match stack with
      | [] => (none, l)
      | frame :: _ => (some (.error (.token frame.start (.unclosed frame.bracket))), l)
    | (some (.error fault), l) => (some (.error fault), l)
    | (some (.ok (pos, token)), l) => match step pos token stack with
      | .error fault => (some (.error fault), l)
      | .ok (.item item) => (some (.ok (pos, item)), l)
      | .ok (.inside stack) => readItem fuel stack l

def next (l : Lexer) : Option (Except Fault (Nat × Item)) × Lexer :=
  readItem (l.rest.length + 1) [] l

def readEntries : Nat → Lexer → Except Fault (List Operand) × Lexer
  | 0, l => (.error .unexpectedEnd, l)
  | fuel + 1, l => match next l with
    | (none, l) => (.error .unexpectedEnd, l)
    | (some (.error fault), l) => (.error fault, l)
    | (some (.ok (_, .operand value)), l) =>
      let (values, l) := readEntries fuel l
      (values.map (value :: ·), l)
    | (some (.ok (_, .keyword name)), l) =>
      if name = "ID" then (.ok [], l) else (.error (.content "BI" (.imageOperator name)), l)

def isSelfEnding (entries : Dict Operand) : Bool :=
  let filter := (entries.get? "F").or (entries.get? "Filter")
  let first := filter.bind fun f => match f.name? with
    | some name => some name
    | none => f.items?.bind fun items => items.head?.bind Operand.name?
  first == some "A85" || first == some "ASCII85Decode"

def ascii85End : Bytes := ascii ['~', '>']

def readImage (l : Lexer) : Except Fault ContentItem × Lexer :=
  match readEntries (l.rest.length + 1) l with
  | (.error fault, l) => (.error fault, l)
  | (.ok values, l) => match entries values with
    | .error flaw => (.error (.content "BI" (.imageEntries flaw)), l)
    | .ok d =>
      if isSelfEnding d then
        let (data, l) := l.rawData ascii85End
        match next l with
        | (some (.ok (_, .keyword name)), l) =>
          if name = "EI" then (.ok (.image d (data ++ ascii85End)), l)
          else (.error (.content "BI" .imageEnd), l)
        | (_, l) => (.error (.content "BI" .imageEnd), l)
      else
        let (data, l) := l.rawData Lexer.imageEnd
        (.ok (.image d data), l)

end Assembly

namespace ContentItem

structure Reader where
  lexer : Lexer
  failed : Bool
  deriving Repr

namespace Reader

def ofData (data : Bytes) : Reader := ⟨.ofData data, false⟩

def next (r : Reader) : Option (Except Fault (Nat × ContentItem)) × Reader :=
  if r.failed then (none, r)
  else match Assembly.next r.lexer with
    | (none, l) => (none, ⟨l, false⟩)
    | (some (.error fault), l) => (some (.error fault), ⟨l, true⟩)
    | (some (.ok (pos, .operand value)), l) => (some (.ok (pos, .operand value)), ⟨l, false⟩)
    | (some (.ok (pos, .keyword name)), l) =>
      if name = "BI" then
        match Assembly.readImage l with
        | (.ok item, l) => (some (.ok (pos, item)), ⟨l, false⟩)
        | (.error fault, l) => (some (.error fault), ⟨l, true⟩)
      else (some (.ok (pos, .operator name)), ⟨l, false⟩)

def run : Nat → Reader → List (Except Fault (Nat × ContentItem)) × Reader
  | 0, r => ([], r)
  | fuel + 1, r => match r.next with
    | (none, r) => ([], r)
    | (some item, r) =>
      let (items, r) := run fuel r
      (item :: items, r)

def all (r : Reader) : List (Except Fault (Nat × ContentItem)) × Reader :=
  run (r.lexer.rest.length + 1) r

end Reader

def ofData (data : Bytes) : List (Except Fault (Nat × ContentItem)) :=
  (Reader.ofData data).all.1

end ContentItem

end PageContent
