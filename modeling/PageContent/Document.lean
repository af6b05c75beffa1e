import PageContent.Object

/-! A document: containers in a table, indirect objects by number, and who watches
which container. Values that go in are taken apart, those that come out are copies. -/
namespace PageContent

inductive Value where
  | ref (value : Ref)
  | node (id : Nat)
  | scalar (value : Scalar)
  deriving DecidableEq, Repr

inductive NodeData where
  | dict (entries : Dict Value)
  | array (items : List Value)
  | stream (attrs : Dict Value) (data : Bytes)
  deriving DecidableEq, Repr

structure Node where
  data : NodeData
  ref : Option Ref
  deriving DecidableEq, Repr

inductive Watcher where
  | recorder (id : Nat)
  | page (id : Nat)
  deriving DecidableEq, Repr

structure Watch where
  node : Nat
  watcher : Watcher
  deriving DecidableEq, Repr

inductive ChangeKind where
  | payload
  | entry (key : String) (old : Option Value)
  | element (index : Nat) (old : Option Value)
  deriving DecidableEq, Repr

structure Change where
  node : Nat
  value : Option Value
  kind : ChangeKind
  deriving DecidableEq, Repr

/-- Object number `n` is at index `n - 1`; every generation is zero. Watches are in
order of registration. -/
structure Document where
  id : Nat
  nodes : Array Node
  objects : Array Value
  watches : List Watch
  deriving Repr

namespace NodeData

def kind : NodeData → Kind
  | dict _ => .dict
  | array _ => .array
  | stream _ _ => .stream

def entries? : NodeData → Option (Dict Value)
  | dict entries | stream entries _ => some entries
  | array _ => none

def withEntries (entries : Dict Value) : NodeData → NodeData
  | dict _ => dict entries
  | stream _ data => stream entries data
  | array items => array items

end NodeData

mutual

def store (nodes : Array Node) : Object → Array Node × Value
  | .scalar s => (nodes, .scalar s)
  | .ref r => (nodes, .ref r)
  | .array items =>
    let (nodes, items) := storeItems nodes items
    (nodes.push ⟨.array items, none⟩, .node nodes.size)
  | .dict entries =>
    let (nodes, entries) := storeEntries nodes entries
    (nodes.push ⟨.dict entries, none⟩, .node nodes.size)
  | .stream attrs data =>
    let (nodes, attrs) := storeEntries nodes attrs
    (nodes.push ⟨.stream attrs data, none⟩, .node nodes.size)

def storeItems (nodes : Array Node) : List Object → Array Node × List Value
  | [] => (nodes, [])
  | o :: rest =>
    let (nodes, v) := store nodes o
    let (nodes, vs) := storeItems nodes rest
    (nodes, v :: vs)

def storeEntries (nodes : Array Node) : List (String × Object) → Array Node × Dict Value
  | [] => (nodes, [])
  | (k, o) :: rest =>
    let (nodes, v) := store nodes o
    let (nodes, vs) := storeEntries nodes rest
    (nodes, (k, v) :: vs)

end

namespace Document

def empty (id : Nat) : Document := ⟨id, #[], #[], []⟩

def node (d : Document) (id : Nat) : Except Fault Node :=
  match d.nodes[id]? with
  | some n => .ok n
  | none => .error (.object (.noNode id))

def kind (d : Document) (id : Nat) : Except Fault Kind := (d.node id).map (·.data.kind)

def ref? (d : Document) (id : Nat) : Option Ref := d.nodes[id]?.bind Node.ref

def indirect (d : Document) (r : Ref) : Except Fault Nat :=
  let value := if r.gen = 0 ∧ r.num ≠ 0 then d.objects[r.num.toNat - 1]? else none
  match value with
  | some (.node id) => .ok id
  | some _ => .error (.wrongType .container .scalar)
  | none => .error (.noObject r)

def addDirect (d : Document) (o : Object) : Document × Option Nat :=
  let (nodes, v) := store d.nodes o
  ({ d with nodes }, match v with | .node id => some id | _ => none)

def addIndirect (d : Document) (o : Object) : Document × Ref :=
  let r : Ref := ⟨UInt32.ofNat (d.objects.size + 1), 0⟩
  let (nodes, v) := store d.nodes o
  let nodes := match v with
    | .node id => nodes.modify id fun n => { n with ref := some r }
    | _ => nodes
  ({ d with nodes, objects := d.objects.push v }, r)

def entries (d : Document) (id : Nat) : Except Fault (Dict Value) := do
  let n ← d.node id
  match n.data.entries? with
  | some entries => return entries
  | none => throw (.wrongType (.kind .dict) (.kind n.data.kind))

def items (d : Document) (id : Nat) : Except Fault (List Value) := do
  let n ← d.node id
  match n.data with
  | .array items => return items
  | other => throw (.wrongType (.kind .array) (.kind other.kind))

def streamData (d : Document) (id : Nat) : Except Fault Bytes := do
  let n ← d.node id
  match n.data with
  | .stream _ data => return data
  | other => throw (.wrongType (.kind .stream) (.kind other.kind))

def setData (d : Document) (id : Nat) (data : NodeData) : Document :=
  { d with nodes := d.nodes.modify id fun n => { n with data } }

def property? (d : Document) (id : Nat) (key : String) : Except Fault (Option Value) :=
  (d.entries id).map (Dict.get? key)

def setProperty (d : Document) (id : Nat) (key : String) (o : Object) :
    Except Fault (Document × Change) := do
  let n ← d.node id
  let old ← d.entries id
  let (nodes, v) := store d.nodes o
  let d := { d with nodes }.setData id (n.data.withEntries (old.set key v))
  return (d, ⟨id, some v, .entry key (old.get? key)⟩)

def delProperty (d : Document) (id : Nat) (key : String) : Except Fault (Document × Change) := do
  let n ← d.node id
  let old ← d.entries id
  match old.get? key with
  | none => throw (.missing (.entry key))
  | some v =>
    return (d.setData id (n.data.withEntries (old.erase key)), ⟨id, none, .entry key (some v)⟩)

def element (d : Document) (id index : Nat) : Except Fault Value := do
  let items ← d.items id
  match items[index]? with
  | some v => return v
  | none => throw (.outOfRange index items.length)

def insertElement (d : Document) (id index : Nat) (o : Object) :
    Except Fault (Document × Change) := do
  let items ← d.items id
  if items.length < index then throw (.outOfRange index items.length)
  let (nodes, v) := store d.nodes o
  let d := { d with nodes }.setData id (.array (items.take index ++ v :: items.drop index))
  return (d, ⟨id, some v, .element index none⟩)

def removeElement (d : Document) (id index : Nat) : Except Fault (Document × Change) := do
  let items ← d.items id
  match items[index]? with
  | none => throw (.outOfRange index items.length)
  | some v =>
    return (d.setData id (.array (items.eraseIdx index)),
      ⟨id, none, .element index (some v)⟩)

def setStreamData (d : Document) (id : Nat) (data : Bytes) : Except Fault (Document × Change) := do
  let n ← d.node id
  match n.data with
  | .stream attrs _ =>
    let length := Value.scalar (.int (Int64.ofNat data.length))
    return (d.setData id (.stream (attrs.set "Length" length) data),
      ⟨id, some (.node id), .payload⟩)
  | other => throw (.wrongType (.kind .stream) (.kind other.kind))

def resolve (d : Document) : Value → Except Fault (Option Nat)
  | .ref r => (d.indirect r).map some
  | .node id => .ok (some id)
  | .scalar _ => .ok none

def container (d : Document) (v : Value) (kind : Kind) : Except Fault Nat := do
  match ← d.resolve v with
  | none => throw (.wrongType (.kind kind) .scalar)
  | some id =>
    let got ← d.kind id
    if got = kind then return id else throw (.wrongType (.kind kind) (.kind got))

def copyFrom (d : Document) : Nat → Value → Except Fault Object
  | _, .ref r => .ok (.ref r)
  | _, .scalar s => .ok (.scalar s)
  | 0, .node id => .error (.object (.noNode id))
  | fuel + 1, .node id => do
    let n ← d.node id
    match n.data with
    | .array items => return .array (← items.mapM (copyFrom d fuel))
    | .dict entries =>
      return .dict (← entries.mapM fun (k, v) => return (k, ← copyFrom d fuel v))
    | .stream attrs data =>
      return .stream (← attrs.mapM fun (k, v) => return (k, ← copyFrom d fuel v)) data

def copy (d : Document) (v : Value) : Except Fault Object := d.copyFrom d.nodes.size v

def register (d : Document) (id : Nat) (w : Watcher) : Except Fault Document := do
  let _ ← d.node id
  return { d with watches := d.watches ++ [⟨id, w⟩] }

def unregister (d : Document) (id : Nat) (w : Watcher) : Document :=
  { d with watches := d.watches.filter (· ≠ ⟨id, w⟩) }

def watchers (d : Document) (id : Nat) : List Watcher :=
  (d.watches.filter (·.node = id)).map Watch.watcher

end Document

end PageContent
