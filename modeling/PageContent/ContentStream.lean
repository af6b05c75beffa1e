import PageContent.Builder
import PageContent.Document
import PageContent.OperatorTree.Outline

/-! Content streams: one tree of operators and the stream objects it was read from. -/
namespace PageContent

structure Backing where
  node : Nat
  ref : Ref
  deriving DecidableEq, Repr

/-- All operands are bound to the first backing stream. The number is kept when the
same streams are read again. -/
structure ContentStream where
  id : Nat
  binding : Binding
  backing : List Backing
  tree : OperatorTree
  deriving Repr

namespace Backing

def resolve (d : Document) (node : Nat) : Except Fault Backing := do
  let kind ← d.kind node
  if kind ≠ .stream then throw (.object (.entryKind kind))
  match d.ref? node with
  | some ref => return ⟨node, ref⟩
  | none => throw (.object .entryDirect)

end Backing

namespace ContentStream

def addAll (d : Document) (b : Builder) : List Backing → Except Fault Builder
  | [] => .ok b
  | s :: rest => do
    let data ← d.streamData s.node
    match b.addData data with
    | (_, some fault) => throw fault
    | (b, none) => addAll d b rest

def read (d : Document) (id : Nat) (backing : List Backing) (params : Params) :
    Except Fault ContentStream :=
  match backing with
  | [] => .error (.object .noBacking)
  | first :: _ => do
    let binding : Binding := ⟨d.id, first.ref⟩
    let b ← addAll d (.new binding params) backing
    return ⟨id, binding, backing, ← b.toTree⟩

def make (d : Document) (id : Nat) (nodes : List Nat) (params : Params) :
    Except Fault ContentStream := do
  read d id (← nodes.mapM (Backing.resolve d)) params

def reread (d : Document) (params : Params) (s : ContentStream) : Except Fault ContentStream :=
  read d s.id s.backing params

structure Unfinished where
  builder : Builder
  backing : List Backing
  deriving Repr

def Unfinished.close (u : Unfinished) (id : Nat) : Except Fault ContentStream := do
  return ⟨id, u.builder.binding, u.backing, ← u.builder.toTree⟩

def groupsFrom (d : Document) (params : Params) :
    Nat → Option Unfinished → List Nat → Except Fault (List ContentStream)
  | _, none, [] => .ok []
  | id, some u, [] => do return [← u.close id]
  | id, current, node :: rest => do
    let s ← Backing.resolve d node
    let u := current.getD ⟨.new ⟨d.id, s.ref⟩ params, []⟩
    let data ← d.streamData node
    match u.builder.addData data with
    | (_, some fault) => throw fault
    | (b, none) =>
      let u : Unfinished := ⟨b, u.backing ++ [s]⟩
      if b.isSettled then
        let first ← u.close id
        return first :: (← groupsFrom d params (id + 1) none rest)
      else groupsFrom d params id (some u) rest

def groups (d : Document) (id : Nat) (nodes : List Nat) (params : Params) :
    Except Fault (List ContentStream) :=
  groupsFrom d params id none nodes

def written (s : ContentStream) : Bytes := s.tree.written

def text (s : ContentStream) : String := Utf8.decode s.written

end ContentStream

end PageContent
