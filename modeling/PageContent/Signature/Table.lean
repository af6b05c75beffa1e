import PageContent.Signature

/-! The operators of page content, in byte order of their names. -/
namespace PageContent.Signature

def fixed (name : String) (masks : List KindSet) : Signature := ⟨name, masks.length, masks⟩

def table : List Signature := [
  fixed "\"" [.number, .number, .string],
  fixed "'" [.string],
  fixed "B" [],
  fixed "B*" [],
  fixed "BDC" [.name, .dictOrName],
  fixed "BI" [],
  fixed "BMC" [.name],
  fixed "BT" [],
  fixed "BX" [],
  fixed "CS" [.name],
  fixed "DP" [.name, .dictOrName],
  fixed "Do" [.name],
  fixed "EI" [],
  fixed "EMC" [],
  fixed "ET" [],
  fixed "EX" [],
  fixed "F" [],
  fixed "G" [.number],
  fixed "ID" [],
  fixed "J" [.int],
  fixed "K" [.number, .number, .number, .number],
  fixed "M" [.number],
  fixed "MP" [.name],
  fixed "Q" [],
  fixed "RG" [.number, .number, .number],
  fixed "S" [],
  ⟨"SC", 1, [.number, .number, .number, .number]⟩,
  ⟨"SCN", 1, [.number, .number, .number, .number, .numberOrName]⟩,
  fixed "T*" [],
  fixed "TD" [.number, .number],
  fixed "TJ" [.array],
  fixed "TL" [.number],
  fixed "Tc" [.number],
  fixed "Td" [.number, .number],
  fixed "Tf" [.name, .number],
  fixed "Tj" [.string],
  fixed "Tm" [.number, .number, .number, .number, .number, .number],
  fixed "Tr" [.int],
  fixed "Ts" [.number],
  fixed "Tw" [.number],
  fixed "Tz" [.number],
  fixed "W" [],
  fixed "W*" [],
  fixed "b" [],
  fixed "b*" [],
  fixed "c" [.number, .number, .number, .number, .number, .number],
  fixed "cm" [.number, .number, .number, .number, .number, .number],
  fixed "cs" [.name],
  fixed "d" [.array, .number],
  fixed "d0" [.number, .number],
  fixed "d1" [.number, .number, .number, .number, .number, .number],
  fixed "f" [],
  fixed "f*" [],
  fixed "g" [.number],
  fixed "gs" [.name],
  fixed "h" [],
  fixed "i" [.number],
  fixed "j" [.int],
  fixed "k" [.number, .number, .number, .number],
  fixed "l" [.number, .number],
  fixed "m" [.number, .number],
  fixed "n" [],
  fixed "q" [],
  fixed "re" [.number, .number, .number, .number],
  fixed "rg" [.number, .number, .number],
  fixed "ri" [.name],
  fixed "s" [],
  ⟨"sc", 1, [.number, .number, .number, .number]⟩,
  ⟨"scn", 1, [.number, .number, .number, .number, .numberOrName]⟩,
  fixed "sh" [.name],
  fixed "v" [.number, .number, .number, .number],
  fixed "w" [.number],
  fixed "y" [.number, .number, .number, .number]]

def find? (name : String) : Option Signature := table.find? (·.name = name)

def closer? (name : String) : Option String :=
  if name = "BT" then some "ET"
  else if name = "BMC" || name = "BDC" then some "EMC"
  else none

def isCloser (name : String) : Bool := name = "ET" || name = "EMC"

end PageContent.Signature
