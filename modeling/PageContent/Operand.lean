import PageContent.Object

/-! Operands: the values an operator consumes. Every value, nested ones too, may
carry the document and stream it belongs to. -/
namespace PageContent

inductive Operand where
  | scalar (binding : Option Binding) (value : Scalar)
  | ref (binding : Option Binding) (value : Ref)
  | array (binding : Option Binding) (items : List Operand)
  | dict (binding : Option Binding) (entries : List (String × Operand))
  deriving Repr

namespace Operand

def ofReal (x : Float) : Operand := scalar none (.real (if x.isFinite then x else 0))

def ofScalar : Scalar → Operand
  | .real x => ofReal x
  | s => scalar none s

def ofName (text : String) : Operand := scalar none (.name text)

def kind : Operand → Kind
  | scalar _ s => s.kind
  | ref _ _ => .ref
  | array _ _ => .array
  | dict _ _ => .dict

def binding : Operand → Option Binding
  | scalar b _ | ref b _ | array b _ | dict b _ => b

def number? : Operand → Option Float
  | scalar _ s => s.number?
  | _ => none

def name? : Operand → Option String
  | scalar _ (.name text) => some text
  | _ => none

def bytes? : Operand → Option Bytes
  | scalar _ (.string octets) => some octets
  | _ => none

def items? : Operand → Option (List Operand)
  | array _ items => some items
  | _ => none

mutual

def bind (b : Binding) : Operand → Operand
  | scalar _ s => scalar (some b) s
  | ref _ r => ref (some b) r
  | array _ items => array (some b) (bindItems b items)
  | dict _ entries => dict (some b) (bindEntries b entries)

def bindItems (b : Binding) : List Operand → List Operand
  | [] => []
  | o :: rest => bind b o :: bindItems b rest

def bindEntries (b : Binding) : List (String × Operand) → List (String × Operand)
  | [] => []
  | (k, o) :: rest => (k, bind b o) :: bindEntries b rest

end

mutual

def bindings (p : Option Binding → Bool) : Operand → Bool
  | scalar b _ => p b
  | ref b _ => p b
  | array b items => p b && bindingsOfItems p items
  | dict b entries => p b && bindingsOfEntries p entries

def bindingsOfItems (p : Option Binding → Bool) : List Operand → Bool
  | [] => true
  | o :: rest => bindings p o && bindingsOfItems p rest

def bindingsOfEntries (p : Option Binding → Bool) : List (String × Operand) → Bool
  | [] => true
  | (_, o) :: rest => bindings p o && bindingsOfEntries p rest

end

def isBound (o : Operand) : Bool := o.bindings Option.isSome

def isBoundTo (b : Binding) (o : Operand) : Bool := o.bindings (· == some b)

mutual

def toObject : Operand → Object
  | scalar _ s => .scalar s
  | ref _ r => .ref r
  | array _ items => .array (toObjects items)
  | dict _ entries => .dict (toEntries entries)

def toObjects : List Operand → List Object
  | [] => []
  | o :: rest => toObject o :: toObjects rest

def toEntries : List (String × Operand) → List (String × Object)
  | [] => []
  | (k, o) :: rest => (k, toObject o) :: toEntries rest

end

mutual

def ofObject : Object → Except Fault Operand
  | .scalar s => .ok (scalar none s)
  | .ref r => .ok (ref none r)
  | .array items => do return array none (← ofObjects items)
  | .dict entries => do return dict none (← ofEntries entries)
  | .stream _ _ => .error (.wrongType .inlineOperand (.kind .stream))

def ofObjects : List Object → Except Fault (List Operand)
  | [] => .ok []
  | o :: rest => do
    let first ← ofObject o
    return first :: (← ofObjects rest)

def ofEntries : List (String × Object) → Except Fault (List (String × Operand))
  | [] => .ok []
  | (k, o) :: rest => do
    let first ← ofObject o
    return (k, first) :: (← ofEntries rest)

end

theorem bindItems_eq_map (b : Binding) (os : List Operand) : bindItems b os = os.map (bind b) := by
  induction os with
  | nil => rfl
  | cons o rest ih => simp [bindItems, ih]

@[simp] theorem kind_bind (b : Binding) (o : Operand) : (o.bind b).kind = o.kind := by
  cases o <;> rfl

end Operand

end PageContent
