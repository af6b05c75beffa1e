import PageContent.Dict
import PageContent.Fault

/-! Owned values of a document: scalars, references, and containers held by value. -/
namespace PageContent

inductive Scalar where
  | null
  | bool (value : Bool)
  | int (value : Int64)
  | real (value : Float)
  | name (text : String)
  | string (octets : Bytes)
  deriving DecidableEq, Repr

namespace Scalar

def kind : Scalar → Kind
  | null => .null
  | bool _ => .bool
  | int _ => .int
  | real _ => .real
  | name _ => .name
  | string _ => .string

def number? : Scalar → Option Float
  | int n => some n.toFloat
  | real x => some x
  | _ => none

end Scalar

inductive Object where
  | scalar (value : Scalar)
  | ref (value : Ref)
  | array (items : List Object)
  | dict (entries : List (String × Object))
  | stream (attrs : List (String × Object)) (data : Bytes)
  deriving Repr

namespace Object

def kind : Object → Kind
  | scalar s => s.kind
  | ref _ => .ref
  | array _ => .array
  | dict _ => .dict
  | stream _ _ => .stream

def ofData (data : Bytes) : Object :=
  stream [("Length", scalar (.int (Int64.ofNat data.length)))] data

def number (o : Object) : Except Fault Float :=
  match o with
  | scalar s => match s.number? with
    | some x => .ok x
    | none => .error (.wrongType .number (.kind o.kind))
  | _ => .error (.wrongType .number (.kind o.kind))

end Object

end PageContent
