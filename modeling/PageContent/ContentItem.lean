import PageContent.Operand
import PageContent.Token

/-! Complete operands, operator names and inline images, and how containers are
assembled from tokens on a stack of open brackets. -/
namespace PageContent

inductive ContentItem where
  | operand (value : Operand)
  | operator (name : String)
  | image (entries : Dict Operand) (data : Bytes)
  deriving Repr

namespace Assembly

def unsigned? (n : Int64) : Option UInt32 :=
  if 0 ≤ n.toInt ∧ n.toInt < 0x100000000 then some (UInt32.ofNat n.toInt.toNat) else none

-- The top of a stack comes first.
def reference? : List Operand → Option (List Operand)
  | .scalar _ (.int gen) :: .scalar _ (.int num) :: rest =>
    match unsigned? num, unsigned? gen with
    | some num, some gen => some (.ref none ⟨num, gen⟩ :: rest)
    | _, _ => none
  | _ => none

def pairs : List Operand → Except DictFlaw (List (String × Operand))
  | [] => .ok []
  | [_] => .error .oddCount
  | key :: value :: rest => match key.name? with
    | some name => (pairs rest).map ((name, value) :: ·)
    | none => .error (.keyKind key.kind)

def entries (items : List Operand) : Except DictFlaw (Dict Operand) :=
  if items.length % 2 = 0 then (pairs items).map Dict.ofList else .error .oddCount

structure Frame where
  bracket : Bracket
  start : Nat
  items : List Operand
  deriving Repr

inductive Item where
  | operand (value : Operand)
  | keyword (name : String)
  deriving Repr

inductive Progress where
  | item (item : Item)
  | inside (stack : List Frame)
  deriving Repr

def place (value : Operand) : List Frame → Progress
  | [] => .item (.operand value)
  | frame :: outer => .inside ({ frame with items := value :: frame.items } :: outer)

def step (pos : Nat) (token : Token) (stack : List Frame) : Except Fault Progress :=
  match token with
  | .value s => .ok (place (.ofScalar s) stack)
  | .arrayOpen | .braceOpen => .ok (.inside (⟨.array, pos, []⟩ :: stack))
  | .dictOpen => .ok (.inside (⟨.dict, pos, []⟩ :: stack))
  | .arrayClose | .braceClose =>
    match stack with
    | ⟨.array, _, items⟩ :: outer => .ok (place (.array none items.reverse) outer)
    | _ => .error (.token pos (.closes .array))
  | .dictClose =>
    match stack with
    | ⟨.dict, _, items⟩ :: outer =>
      match entries items.reverse with
      | .ok d => .ok (place (.dict none d) outer)
      | .error flaw => .error (.token pos (.entries flaw))
    | _ => .error (.token pos (.closes .dict))
  | .keyword name =>
    match stack with
    | [] => .ok (.item (.keyword name))
    | frame :: outer =>
      match if name = "R" then reference? frame.items else none with
      | some items => .ok (.inside ({ frame with items } :: outer))
      | none => .error (.token pos (.operatorInside name))

end Assembly

end PageContent
