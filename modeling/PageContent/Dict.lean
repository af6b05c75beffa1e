/-! Dictionaries in order of insertion. Setting a key that is there replaces its
value and keeps its place. -/
namespace PageContent

abbrev Dict (α : Type) := List (String × α)

namespace Dict

variable {α : Type}

def get? (key : String) : Dict α → Option α
  | [] => none
  | (k, v) :: rest => if k = key then some v else get? key rest

def set (key : String) (value : α) : Dict α → Dict α
  | [] => [(key, value)]
  | (k, v) :: rest => if k = key then (k, value) :: rest else (k, v) :: set key value rest

def erase (key : String) : Dict α → Dict α
  | [] => []
  | (k, v) :: rest => if k = key then rest else (k, v) :: erase key rest

def ofList (entries : List (String × α)) : Dict α :=
  entries.foldl (fun d (k, v) => set k v d) []

@[simp] theorem get?_set_self (key : String) (value : α) (d : Dict α) :
    get? key (set key value d) = some value := by
  fun_induction set key value d <;> simp_all [get?]

theorem get?_set_of_ne {key other : String} (h : key ≠ other) (value : α) (d : Dict α) :
    get? other (set key value d) = get? other d := by
  fun_induction set key value d <;> simp_all [get?]

end Dict

end PageContent
