import PageContent.ContentItem.Reader
import PageContent.OperatorTree

/-! Building a tree of operators from content items. Operands wait until an operator
takes them, and blocks nest. A builder takes the data of several streams in turn. -/
namespace PageContent

/-- With `strictBlocks`, every block must be closed and every end must close one.
`editTag` marks content that an edit adds. At most `depthLimit` blocks nest. -/
structure Params where
  strictBlocks : Bool
  editTag : Option String
  depthLimit : Nat
  deriving DecidableEq, Repr

def Params.default : Params := ⟨false, none, 64⟩

-- `pending` and `openBlocks` have the latest first.
structure Builder where
  params : Params
  binding : Binding
  tree : OperatorTree
  pending : List Operand
  openBlocks : List Nat
  deriving Repr

namespace Builder

def new (binding : Binding) (params : Params) : Builder := ⟨params, binding, .empty, [], []⟩

def isSettled (b : Builder) : Bool := b.pending.isEmpty && b.openBlocks.isEmpty

def append (b : Builder) (op : Instruction) : Builder :=
  { b with tree := b.tree.push op b.openBlocks.head? }

abbrev Step := Builder × Option Fault

def enter (b : Builder) (start : Known) : Step :=
  if b.params.depthLimit ≤ b.openBlocks.length then
    (b, some (.content start.name (.tooDeep b.params.depthLimit)))
  else
    ({ b.append (.block start none) with openBlocks := b.tree.size :: b.openBlocks }, none)

def closed (stop : Known) : Instruction → Instruction
  | .block start _ => .block start (some stop)
  | other => other

def leave (b : Builder) (stop : Known) : Step :=
  let stray : Step :=
    if b.params.strictBlocks then (b, some (.content stop.name .noBlockStart))
    else (b.append (.simple stop), none)
  match b.openBlocks with
  | [] => stray
  | id :: outer => match b.tree.op? id with
    | some (.block start _) =>
      if start.endName = stop.name then
        ({ b with tree := b.tree.modify id (closed stop), openBlocks := outer }, none)
      else stray
    | _ => stray

def known (b : Builder) (s : Signature) : Step :=
  let operands := b.pending.reverse
  match s.take operands with
  | .error mismatch => (b, some (.content s.name (.operand mismatch)))
  | .ok n =>
    if n < operands.length then (b, some (.content s.name (.excess (operands.length - n))))
    else
      let k : Known := ⟨s, Operand.bindItems b.binding operands⟩
      let b := { b with pending := [] }
      if (Signature.closer? s.name).isSome then b.enter k
      else if Signature.isCloser s.name then b.leave k
      else (b.append (.simple k), none)

def operator (b : Builder) (name : String) : Step :=
  match if name = "R" then Assembly.reference? b.pending else none with
  | some pending => ({ b with pending }, none)
  | none => match Signature.find? name with
    | some s => b.known s
    | none =>
      let op := (Instruction.unknown name b.pending.reverse).bind b.binding
      ({ b with pending := [] }.append op, none)

def add (b : Builder) : ContentItem → Step
  | .operand value => ({ b with pending := value :: b.pending }, none)
  | .operator name => b.operator name
  | .image entries data =>
    if b.pending.isEmpty then (b.append ((Instruction.image entries data).bind b.binding), none)
    else (b, some (.content "BI" (.excess b.pending.length)))

def addItems (b : Builder) : List (Except Fault (Nat × ContentItem)) → Step
  | [] => (b, none)
  | .error fault :: _ => (b, some fault)
  | .ok (pos, item) :: rest => match b.add item with
    | (b, none) => addItems b rest
    | (b, some fault) => (b, some (fault.atOffset pos))

def addData (b : Builder) (data : Bytes) : Step := b.addItems (ContentItem.ofData data)

def toTree (b : Builder) : Except Fault OperatorTree :=
  if !b.pending.isEmpty then .error (.content "" (.leftOver b.pending.length))
  else match b.openBlocks with
    | [] => .ok b.tree
    | id :: _ =>
      if b.params.strictBlocks then
        .error (.content (((b.tree.op? id).map Instruction.name).getD "") .blockOpen)
      else .ok b.tree

end Builder

def OperatorTree.parse (data : Bytes) (binding : Binding) (params : Params) :
    Except Fault OperatorTree :=
  match (Builder.new binding params).addData data with
  | (_, some fault) => .error fault
  | (b, none) => b.toTree

end PageContent
