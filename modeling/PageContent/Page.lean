import PageContent.ContentStream
import PageContent.Geometry
import PageContent.Text.Encoding

/-! Pages: a dictionary whose `/Contents` names one stream or an array of them, and
what has been read of it so far. -/
namespace PageContent

/-- `watched` is the container of `/Contents` on which the page is registered. A
page that is not live was reset. While `quiet` it hears of no changes. -/
structure Page where
  document : Nat
  node : Nat
  params : Params
  encoding : Encoding
  live : Bool
  quiet : Bool
  valid : Bool
  revision : Nat
  watched : Option Nat
  streams : List ContentStream
  deriving Repr

namespace Page

def new (document node : Nat) (params : Params) (encoding : Encoding) : Page :=
  ⟨document, node, params, encoding, true, false, true, 0, none, []⟩

def absent : Page := { new 0 0 .default .latin1 with live := false }

def contents : String := "Contents"

def contentsNode? (d : Document) (page : Nat) : Except Fault (Option Nat) := do
  match ← d.property? page contents with
  | some entry => d.resolve entry
  | none => return none

def entryNode (d : Document) (entry : Value) : Except Fault Nat := do
  match ← d.resolve entry with
  | some node => return node
  | none => throw (.object .contentsScalar)

def elementNodes (d : Document) : Nat → List Value → Except Fault (List Nat)
  | _, [] => .ok []
  | index, v :: rest => do
    match ← d.resolve v with
    | some node => return node :: (← elementNodes d (index + 1) rest)
    | none => throw (.object (.contentsElement index))

def contentNodes (d : Document) (page : Nat) : Except Fault (List Nat) := do
  match ← d.property? page contents with
  | none => return []
  | some entry =>
    let node ← entryNode d entry
    match ← d.kind node with
    | .stream => return [node]
    | .array => elementNodes d 0 (← d.items node)
    | kind => throw (.object (.contentsKind kind))

def readGroups (d : Document) (id : Nat) (p : Page) : Except Fault (List ContentStream) := do
  ContentStream.groups d id (← contentNodes d p.node) p.params

def place (p : Page) (stream : Nat) : Except Fault Nat :=
  match p.streams.findIdx? (·.id = stream) with
  | some i => .ok i
  | none => .error (.missing .streamOfPage)

def text (p : Page) : String := String.join (p.streams.map ContentStream.text)

def scalarNumber? : Value → Option Float
  | .scalar s => s.number?
  | _ => none

def rect? (d : Document) (v : Value) : Option Rect := do
  let array ← (d.container v .array).toOption
  let items ← (d.items array).toOption
  match ← items.mapM scalarNumber? with
  | [a, b, c, d] => some (Rect.normalize ⟨a, b, c, d⟩)
  | _ => none

def property? (d : Document) (node : Nat) (key : String) : Option Value :=
  (d.property? node key).toOption.bind id

def inheritedBox (d : Document) : Nat → Nat → Rect
  | 0, _ => .letter
  | levels + 1, node =>
    match (property? d node "MediaBox").bind (rect? d) with
    | some r => r
    | none =>
      match (property? d node "Parent").bind fun v => (d.resolve v).toOption.bind id with
      | some parent => inheritedBox d levels parent
      | none => .letter

def mediaBox (d : Document) (page : Nat) : Rect := inheritedBox d 32 page

end Page

end PageContent
