import PageContent.Fault
import PageContent.Text.Utf8

/-! Encodings of the strings that content shows. -/
namespace PageContent

inductive Encoding where
  | latin1
  | utf8
  deriving DecidableEq, Repr

namespace Encoding

def plain (name : String) : String :=
  String.ofList (name.toList.map fun c => if c = '_' then '-' else c.toLower)

def ofName (name : String) : Except Fault Encoding :=
  let p := plain name
  if p = "latin1" || p = "latin-1" || p = "iso-8859-1" || p = "iso8859-1" then .ok latin1
  else if p = "utf8" || p = "utf-8" then .ok utf8
  else .error (.argument (.encoding name))

def decode : Encoding → Bytes → List Char
  | latin1, bytes => bytes.map fun b => Char.ofNat b.toNat
  | utf8, bytes => Utf8.chars none bytes

end Encoding

end PageContent
