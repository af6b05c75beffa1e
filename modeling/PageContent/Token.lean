import PageContent.Object

/-! Tokens of content data: scalars, brackets, and bare keywords, which name operators. -/
namespace PageContent

inductive Token where
  | value (scalar : Scalar)
  | keyword (name : String)
  | arrayOpen
  | arrayClose
  | braceOpen
  | braceClose
  | dictOpen
  | dictClose
  deriving DecidableEq, Repr

namespace Token

def ofWord (word : String) : Token :=
  if word = "true" then value (.bool true)
  else if word = "false" then value (.bool false)
  else if word = "null" then value .null
  else keyword word

end Token

end PageContent
