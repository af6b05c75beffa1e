/-! Kinds of values, and sets of kinds as masks with one bit for each. -/
namespace PageContent

inductive Kind where
  | bool | int | real | string | name | null | array | dict | stream | ref
  deriving DecidableEq, Repr

namespace Kind

def all : List Kind := [bool, int, real, string, name, null, array, dict, stream, ref]

def index : Kind → UInt16
  | bool => 0
  | int => 1
  | real => 2
  | string => 3
  | name => 4
  | null => 5
  | array => 6
  | dict => 7
  | stream => 8
  | ref => 9

def word : Kind → String
  | bool => "bool"
  | int => "int"
  | real => "real"
  | string => "string"
  | name => "name"
  | null => "null"
  | array => "array"
  | dict => "dict"
  | stream => "stream"
  | ref => "ref"

end Kind

structure KindSet where
  bits : UInt16
  deriving DecidableEq, Repr

namespace KindSet

def empty : KindSet := ⟨0⟩
def of (k : Kind) : KindSet := ⟨1 <<< k.index⟩
def union (s t : KindSet) : KindSet := ⟨s.bits ||| t.bits⟩
def accepts (s : KindSet) (k : Kind) : Bool := s.bits &&& (of k).bits != 0

def int : KindSet := of .int
def real : KindSet := of .real
def number : KindSet := union int real
def string : KindSet := of .string
def name : KindSet := of .name
def array : KindSet := of .array
def dict : KindSet := of .dict
def dictOrName : KindSet := union dict name
def numberOrName : KindSet := union number name

def written (s : KindSet) : String :=
  let ds := Nat.toDigits 16 s.bits.toNat
  String.ofList ('0' :: 'x' :: List.replicate (4 - ds.length) '0' ++ ds)

theorem accepts_of (k l : Kind) : (of k).accepts l = true ↔ k = l := by
  cases k <;> cases l <;> decide

end KindSet

end PageContent
