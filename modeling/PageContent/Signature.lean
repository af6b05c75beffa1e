import PageContent.Operand

/-! Operand shapes of operators. Operands stand before their operator, so they are
matched from the right. -/
namespace PageContent

/-- `least` falls short of the number of masks where operands may be left out at the left. -/
structure Signature where
  name : String
  least : Nat
  masks : List KindSet
  deriving DecidableEq, Repr

namespace Signature

def arity (s : Signature) : Nat := s.masks.length

def isVariadic (s : Signature) : Bool := s.least != s.arity

def rejected? : List KindSet → List Operand → Option Mismatch
  | mask :: masks, o :: rest =>
    if mask.accepts o.kind then rejected? masks rest
    else some ⟨masks.length, mask, some o.kind⟩
  | _, _ => none

def take (s : Signature) (operands : List Operand) : Except Mismatch Nat :=
  let given := min operands.length s.arity
  if given < s.least then
    let position := s.arity - given - 1
    .error ⟨position, s.masks.getD position .empty, none⟩
  else match rejected? s.masks.reverse operands.reverse with
    | some mismatch => .error mismatch
    | none => .ok given

end Signature

end PageContent
