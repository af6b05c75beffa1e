import PageContent.Operand.Written
import PageContent.Signature.Table

/-! Operators with their operands, as they occur in content. -/
namespace PageContent

structure Known where
  signature : Signature
  operands : List Operand
  deriving Repr

inductive Instruction where
  | simple (known : Known)
  | unknown (name : String) (operands : List Operand)
  | block (start : Known) (stop : Option Known)
  | image (entries : Dict Operand) (data : Bytes)
  deriving Repr

def instructionLine (name : String) (operands : List Operand) : Bytes :=
  (operands.flatMap fun o => o.written ++ [Octet.space]) ++ Utf8.encode name

namespace Known

def make (name : String) (operands : List Operand) : Except Fault Known :=
  match Signature.find? name with
  | none => .error (.argument (.operator name))
  | some s => match s.take operands with
    | .error mismatch => .error (.content name (.operand mismatch))
    | .ok n =>
      if n = operands.length then .ok ⟨s, operands⟩
      else .error (.content name (.surplus (operands.length - n)))

def name (k : Known) : String := k.signature.name

def bind (b : Binding) (k : Known) : Known := { k with operands := Operand.bindItems b k.operands }

def written (k : Known) : Bytes := instructionLine k.name k.operands

def endName (k : Known) : String := (Signature.closer? k.name).getD ""

end Known

namespace Instruction

def name : Instruction → String
  | simple k => k.name
  | unknown name _ => name
  | block start _ => start.name
  | image _ _ => "BI"

def operands : Instruction → List Operand
  | simple k => k.operands
  | unknown _ operands => operands
  | block start _ => start.operands
  | image _ _ => []

def signature? : Instruction → Option Signature
  | simple k => some k.signature
  | block start _ => some start.signature
  | unknown _ _ | image _ _ => none

def isBlock : Instruction → Bool
  | block _ _ => true
  | _ => false

def isUnknown : Instruction → Bool
  | unknown _ _ => true
  | _ => false

def bind (b : Binding) : Instruction → Instruction
  | simple k => simple (k.bind b)
  | unknown name operands => unknown name (Operand.bindItems b operands)
  | block start stop => block (start.bind b) (stop.map (Known.bind b))
  | image entries data => image (Operand.bindEntries b entries) data

def allOperands : Instruction → List Operand
  | simple k => k.operands
  | unknown _ operands => operands
  | block start stop => start.operands ++ stop.toList.flatMap Known.operands
  | image entries _ => entries.map (·.2)

def isBound (i : Instruction) : Bool := i.allOperands.all Operand.isBound

def imageLine (entries : Dict Operand) (data : Bytes) : Bytes :=
  ascii ['B', 'I'] ++
  (entries.flatMap fun (k, o) =>
    Octet.space :: Scalar.nameText k ++ Octet.space :: o.written) ++
  ascii [' ', 'I', 'D', ' '] ++ data ++ ascii [' ', 'E', 'I']

def opening : Instruction → Bytes
  | simple k => k.written
  | unknown name operands => instructionLine name operands
  | block start _ => start.written
  | image entries data => imageLine entries data

def written : Instruction → Bytes
  | block start _ => start.written ++ Octet.lineFeed :: Utf8.encode start.endName
  | other => other.opening

end Instruction

end PageContent
