import PageContent.Decimal.Fixed
import PageContent.Dump.Json
import PageContent.Dump.Options
import PageContent.Page.Edit

/-! Content files as one page, and what the command prints of it. -/
namespace PageContent.Dump

structure Outcome where
  exit : UInt8
  stdout : String
  outfile : Option String
  report : Option String
  deriving DecidableEq, Repr

def Outcome.usage : Outcome := ⟨2, "", none, none⟩

def shownText (o : Operand) : String := Utf8.decode o.written

mutual

def outlineJson : Outline → Json
  | .node _ op children =>
    .object ([("name", .string op.name),
      ("operands", .list (op.operands.map fun o => .string (shownText o)))] ++
      (if children.isEmpty then [] else [("children", .list (outlinesJson children))]) ++
      (if op.isUnknown then [("unknown", .bool true)] else []))

def outlinesJson : List Outline → List Json
  | [] => []
  | o :: rest => outlineJson o :: outlinesJson rest

end

def refTexts (s : ContentStream) : List String := s.backing.map (·.ref.text)

def contentJson (index : Nat) (s : ContentStream) : Json :=
  .object [("index", .number index), ("backing", .list ((refTexts s).map .string)),
    ("operators", .list (outlinesJson s.tree.outline))]

def listingLine (t : OperatorTree) (id : Nat) : String :=
  match t.op? id with
  | none => ""
  | some op =>
    let indent := String.ofList (List.replicate (2 * (t.depth id + 1)) ' ')
    let marker := if op.isUnknown then " (unknown)" else ""
    indent ++ String.intercalate " " (op.operands.map shownText ++ [op.name]) ++ marker ++ "\n"

def listing (index : Nat) (s : ContentStream) : String :=
  "stream " ++ toString index ++ " [" ++ String.intercalate ", " (refTexts s) ++ "]\n" ++
    String.join (s.tree.preorder.map (listingLine s.tree))

def coordinate (x : Float) : String :=
  match Decimal.Binary.ofFloat? x with
  | some b => String.ofList (Decimal.fixed 2 b)
  | none => if x.isNaN then "NaN" else if x < 0 then "-inf" else "inf"

def rectLine (r : Rect) : String :=
  String.intercalate " " ([r.x0, r.y0, r.x1, r.y1].map coordinate) ++ "\n"

def printed (page : Nat) (o : Options) : Action String := do
  let streams := ((← get).page page).streams
  match o.mode with
  | .find needle =>
    return String.join ((← Action.matchesOf page needle o.caseSensitive).map rectLine)
  | .text => return (← Action.textOf page o.encoding none) ++ "\n"
  | .json => return (Json.list (streams.mapIdx contentJson)).pretty 0 ++ "\n"
  | .tree => return String.join (streams.mapIdx listing)
  | .canonical => return ((← get).page page).text

def assemble (files : List Bytes) (params : Params) : Action Nat := do
  let refs ← files.mapM fun data => Action.addIndirect 0 (.ofData data)
  let r ← Action.addIndirect 0 (.dict [("Type", .scalar (.name "Page")),
    (Page.contents, .array (refs.map .ref))])
  let node ← ((← get).document 0).indirect r
  Action.openPage 0 node params .latin1

def failure (message : String) (outfile : Option String) : Outcome :=
  ⟨1, "", outfile, some ("Error: " ++ message)⟩

def run (o : Options) (files : List Bytes) : Outcome :=
  let params : Params := { Params.default with strictBlocks := o.strict }
  match (assemble files params).run.run Workspace.empty.addDocument with
  | (.error fault, _) => failure fault.message none
  | (.ok page, w) =>
    let w := if (w.page page).valid then .ok w else w.load page
    match w with
    | .error fault =>
      failure ("content streams do not parse\n\nCaused by:\n    " ++ fault.message) none
    | .ok w => match ((printed page o).run.run w).1 with
      | .error fault => failure fault.message (o.outfile.map fun _ => "")
      | .ok text => match o.outfile with
        | some _ => ⟨0, "", some text, none⟩
        | none => ⟨0, text, none, none⟩

def command (args : List String) (files : List Bytes) : Outcome :=
  match Options.parse args with
  | some o => run o files
  | none => .usage

end PageContent.Dump
