import PageContent.OperatorTree

/-! A tree of operators by value, read off the links, and its canonical text: one
instruction a line. -/
namespace PageContent

inductive Outline where
  | node (id : Nat) (op : Instruction) (children : List Outline)
  deriving Repr

namespace OperatorTree

-- Numbers grow along every link, so the size is fuel enough.
def outlineFrom (t : OperatorTree) : Nat → Option Nat → List Outline
  | 0, _ => []
  | _, none => []
  | fuel + 1, some id => match t.nodes[id]? with
    | none => []
    | some n => .node id n.op (outlineFrom t fuel n.firstChild) :: outlineFrom t fuel n.next

def outline (t : OperatorTree) : List Outline := t.outlineFrom t.size t.head

def outlineOf? (t : OperatorTree) (id : Nat) : Option Outline :=
  t.nodes[id]?.map fun n => .node id n.op (t.outlineFrom t.size n.firstChild)

end OperatorTree

namespace Outline

mutual

def written : Outline → Bytes
  | node _ (.block start _) children =>
    start.written ++ writtenBelow children ++ Octet.lineFeed :: Utf8.encode start.endName
  | node _ op _ => op.opening

def writtenBelow : List Outline → Bytes
  | [] => []
  | o :: rest => Octet.lineFeed :: written o ++ writtenBelow rest

end

end Outline

def OperatorTree.written (t : OperatorTree) : Bytes :=
  t.outline.flatMap fun o => o.written ++ [Octet.lineFeed]

end PageContent
