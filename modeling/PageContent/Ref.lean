import PageContent.Bytes

/-! References to indirect objects, by number and generation. -/
namespace PageContent

structure Ref where
  num : UInt32
  gen : UInt32
  deriving DecidableEq, Repr

def Ref.text (r : Ref) : String :=
  String.ofList (Nat.toDigits 10 r.num.toNat ++ ' ' :: Nat.toDigits 10 r.gen.toNat ++ [' ', 'R'])

structure Binding where
  document : Nat
  ref : Ref
  deriving DecidableEq, Repr

end PageContent
