import PageContent.ContentItem

/-! Values apart from their bindings. -/
namespace PageContent

namespace Operand

mutual

def unbound : Operand → Operand
  | scalar _ s => scalar none s
  | ref _ r => ref none r
  | array _ items => array none (unboundItems items)
  | dict _ entries => dict none (unboundEntries entries)

def unboundItems : List Operand → List Operand
  | [] => []
  | o :: rest => unbound o :: unboundItems rest

def unboundEntries : List (String × Operand) → List (String × Operand)
  | [] => []
  | (k, o) :: rest => (k, unbound o) :: unboundEntries rest

end

mutual

theorem unboundBind (b : Binding) : (o : Operand) → (o.bind b).unbound = o.unbound
  | scalar _ _ => rfl
  | ref _ _ => rfl
  | array _ items => by simp [bind, unbound, unboundBindItems b items]
  | dict _ entries => by simp [bind, unbound, unboundBindEntries b entries]

theorem unboundBindItems (b : Binding) :
    (os : List Operand) → unboundItems (bindItems b os) = unboundItems os
  | [] => rfl
  | o :: rest => by simp [bindItems, unboundItems, unboundBind b o, unboundBindItems b rest]

theorem unboundBindEntries (b : Binding) :
    (es : List (String × Operand)) → unboundEntries (bindEntries b es) = unboundEntries es
  | [] => rfl
  | (k, o) :: rest => by
    simp [bindEntries, unboundEntries, unboundBind b o, unboundBindEntries b rest]

end

attribute [simp] unboundBind unboundBindItems unboundBindEntries

end Operand

namespace ContentItem

def unbound : ContentItem → ContentItem
  | operand value => operand value.unbound
  | operator name => operator name
  | image entries data => image (Operand.unboundEntries entries) data

end ContentItem

end PageContent
