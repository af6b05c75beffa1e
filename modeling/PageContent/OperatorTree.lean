import PageContent.Instruction

/-! Operators in a table with links: siblings to each other, and blocks to what
they hold. Operators are only ever added, so a number in the table stays good. -/
namespace PageContent

structure OperatorNode where
  op : Instruction
  prev : Option Nat
  next : Option Nat
  parent : Option Nat
  firstChild : Option Nat
  lastChild : Option Nat
  deriving Repr

structure OperatorTree where
  nodes : Array OperatorNode
  head : Option Nat
  tail : Option Nat
  length : Nat
  deriving Repr

namespace OperatorTree

def empty : OperatorTree := ⟨#[], none, none, 0⟩

def size (t : OperatorTree) : Nat := t.nodes.size

def push (t : OperatorTree) (op : Instruction) (parent : Option Nat) : OperatorTree :=
  let id := t.size
  let prev := match parent with
    | some p => t.nodes[p]?.bind OperatorNode.lastChild
    | none => t.tail
  let nodes := t.nodes.push ⟨op, prev, none, parent, none, none⟩
  let nodes := match prev with
    | some p => nodes.modify p fun n => { n with next := some id }
    | none => nodes
  match parent with
  | some p =>
    { t with nodes := nodes.modify p fun n =>
        { n with firstChild := n.firstChild.or (some id), lastChild := some id } }
  | none => ⟨nodes, t.head.or (some id), some id, t.length + 1⟩

def modify (t : OperatorTree) (id : Nat) (f : Instruction → Instruction) : OperatorTree :=
  { t with nodes := t.nodes.modify id fun n => { n with op := f n.op } }

def op? (t : OperatorTree) (id : Nat) : Option Instruction := t.nodes[id]?.map OperatorNode.op
def prev? (t : OperatorTree) (id : Nat) : Option Nat := t.nodes[id]?.bind OperatorNode.prev
def next? (t : OperatorTree) (id : Nat) : Option Nat := t.nodes[id]?.bind OperatorNode.next
def parent? (t : OperatorTree) (id : Nat) : Option Nat := t.nodes[id]?.bind OperatorNode.parent
def firstChild? (t : OperatorTree) (id : Nat) : Option Nat :=
  t.nodes[id]?.bind OperatorNode.firstChild
def lastChild? (t : OperatorTree) (id : Nat) : Option Nat :=
  t.nodes[id]?.bind OperatorNode.lastChild

def chain (t : OperatorTree) : Nat → Option Nat → List Nat
  | 0, _ => []
  | _, none => []
  | fuel + 1, some id => id :: chain t fuel (t.next? id)

def top (t : OperatorTree) : List Nat := t.chain t.size t.head

def children (t : OperatorTree) (id : Nat) : List Nat := t.chain t.size (t.firstChild? id)

def nth? (t : OperatorTree) (index : Nat) : Option Nat := t.top[index]?

def climb (t : OperatorTree) : Nat → Nat → Option Nat
  | 0, _ => none
  | fuel + 1, id => match t.next? id with
    | some n => some n
    | none => match t.parent? id with
      | some p => climb t fuel p
      | none => none

def after? (t : OperatorTree) (id : Nat) : Option Nat :=
  (t.firstChild? id).or (t.climb t.size id)

def preorderFrom (t : OperatorTree) : Nat → Option Nat → List Nat
  | 0, _ => []
  | _, none => []
  | fuel + 1, some id => id :: preorderFrom t fuel (t.after? id)

def preorder (t : OperatorTree) : List Nat := t.preorderFrom t.size t.head

def ancestors (t : OperatorTree) : Nat → Option Nat → List Nat
  | 0, _ => []
  | _, none => []
  | fuel + 1, some id => id :: ancestors t fuel (t.parent? id)

def depth (t : OperatorTree) (id : Nat) : Nat := (t.ancestors t.size (t.parent? id)).length

def visit (t : OperatorTree) (tail parent : Option Nat) :
    Nat → Option Nat → Option Nat → List Nat → Option (List Nat)
  | 0, _, _, _ => none
  | _ + 1, none, prev, seen => if prev = tail then some seen else none
  | fuel + 1, some id, prev, seen => match t.nodes[id]? with
    | none => none
    | some n =>
      if seen.contains id || n.prev ≠ prev || n.parent ≠ parent then none
      else match visit t n.lastChild (some id) fuel n.firstChild none (id :: seen) with
        | none => none
        | some seen => visit t tail parent fuel n.next (some id) seen

def isLinked (t : OperatorTree) : Bool :=
  match t.visit t.tail none (t.size + 1) t.head none [] with
  | some seen => seen.length = t.size
  | none => false

end OperatorTree

end PageContent
