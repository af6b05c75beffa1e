import PageContent.ContentItem.Reader
import PageContent.Proofs.Dict
import PageContent.Proofs.Token.Lexed

/-! The value that the text of an operand is read as: the same, but that a real need only
come back as a real. -/
namespace PageContent

namespace Scalar

def reread : Scalar → Scalar
  | real x => real (Lexeme.readReal x)
  | s => s

def blur : Scalar → Scalar
  | real _ => real 0
  | s => s

end Scalar

namespace Operand

mutual

def reread : Operand → Operand
  | scalar _ s => ofScalar s.reread
  | ref _ r => ref none r
  | array _ items => array none (rereadItems items)
  | dict _ entries => dict none (rereadEntries entries)

def rereadItems : List Operand → List Operand
  | [] => []
  | o :: rest => reread o :: rereadItems rest

def rereadEntries : List (String × Operand) → List (String × Operand)
  | [] => []
  | (k, o) :: rest => (k, reread o) :: rereadEntries rest

end

mutual

def blur : Operand → Operand
  | scalar b s => scalar b s.blur
  | ref b r => ref b r
  | array b items => array b (blurItems items)
  | dict b entries => dict b (blurEntries entries)

def blurItems : List Operand → List Operand
  | [] => []
  | o :: rest => blur o :: blurItems rest

def blurEntries : List (String × Operand) → List (String × Operand)
  | [] => []
  | (k, o) :: rest => (k, blur o) :: blurEntries rest

end

mutual

def Readable : Operand → Prop
  | scalar _ s => s.Readable
  | ref _ _ => True
  | array _ items => ReadableItems items
  | dict _ entries => Dict.Distinct entries ∧ ReadableEntries entries

def ReadableItems : List Operand → Prop
  | [] => True
  | o :: rest => Readable o ∧ ReadableItems rest

def ReadableEntries : List (String × Operand) → Prop
  | [] => True
  | (_, o) :: rest => Readable o ∧ ReadableEntries rest

end

theorem readableItems {os : List Operand} : ReadableItems os ↔ ∀ o ∈ os, o.Readable := by
  induction os with
  | nil => simp [ReadableItems]
  | cons o rest ih => simp [ReadableItems, ih]

theorem readableEntries {es : List (String × Operand)} :
    ReadableEntries es ↔ ∀ k o, (k, o) ∈ es → o.Readable := by
  induction es with
  | nil => simp [ReadableEntries]
  | cons entry rest ih =>
    obtain ⟨k, o⟩ := entry
    simp only [ReadableEntries, ih, List.mem_cons, Prod.mk.injEq]
    constructor
    · rintro ⟨first, later⟩ k' o' (⟨-, rfl⟩ | there)
      · exact first
      · exact later k' o' there
    · intro all
      exact ⟨all k o (.inl ⟨rfl, rfl⟩), fun k' o' there => all k' o' (.inr there)⟩

@[simp] theorem kindOfScalar (s : Scalar) : (ofScalar s).kind = s.kind := by
  cases s <;> rfl

@[simp] theorem kindReread (o : Operand) : o.reread.kind = o.kind := by
  cases o with
  | scalar b s => cases s <;> rfl
  | _ => rfl

@[simp] theorem nameReread (o : Operand) : o.reread.name? = o.name? := by
  cases o with
  | scalar b s => cases s <;> rfl
  | _ => rfl

theorem keysReread (es : List (String × Operand)) :
    (rereadEntries es).map Prod.fst = es.map Prod.fst := by
  induction es with
  | nil => rfl
  | cons entry rest ih => simp [rereadEntries, ih]

theorem rereadItemsMap (os : List Operand) : rereadItems os = os.map reread := by
  induction os with
  | nil => rfl
  | cons o rest ih => simp [rereadItems, ih]

theorem getReread (key : String) (es : List (String × Operand)) :
    Dict.get? key (rereadEntries es) = (Dict.get? key es).map reread := by
  induction es with
  | nil => rfl
  | cons entry rest ih =>
    simp only [rereadEntries, Dict.get?]
    split
    · rfl
    · exact ih

theorem itemsReread (o : Operand) : o.reread.items? = o.items?.map rereadItems := by
  cases o with
  | scalar b s => cases s <;> rfl
  | _ => rfl

theorem selfEndingReread (es : Dict Operand) :
    Assembly.isSelfEnding (rereadEntries es) = Assembly.isSelfEnding es := by
  have first (items : List Operand) :
      (rereadItems items).head?.bind name? = items.head?.bind name? := by
    cases items with
    | nil => rfl
    | cons o rest => exact nameReread o
  have listed (o : Operand) : (o.reread.items?.bind fun items => items.head?.bind name?) =
      o.items?.bind fun items => items.head?.bind name? := by
    rw [itemsReread]
    cases o.items? with
    | none => rfl
    | some items => exact first items
  simp only [Assembly.isSelfEnding, getReread]
  cases Dict.get? "F" es with
  | some f => simp [listed]
  | none =>
    cases Dict.get? "Filter" es with
    | some f => simp [listed]
    | none => rfl

theorem blurOfScalar (b : Binding) (s : Scalar) :
    ((ofScalar s.reread).bind b).blur = ((scalar none s).bind b).blur := by
  cases s <;> rfl

mutual

theorem blurReread (b : Binding) : (o : Operand) → (o.reread.bind b).blur = (o.bind b).blur
  | scalar _ s => blurOfScalar b s
  | ref _ _ => rfl
  | array _ items => by simp [reread, bind, blur, blurRereadItems b items]
  | dict _ entries => by simp [reread, bind, blur, blurRereadEntries b entries]

theorem blurRereadItems (b : Binding) :
    (os : List Operand) → blurItems (bindItems b (rereadItems os)) = blurItems (bindItems b os)
  | [] => rfl
  | o :: rest => by
    simp [rereadItems, bindItems, blurItems, blurReread b o, blurRereadItems b rest]

theorem blurRereadEntries (b : Binding) : (es : List (String × Operand)) →
    blurEntries (bindEntries b (rereadEntries es)) = blurEntries (bindEntries b es)
  | [] => rfl
  | (k, o) :: rest => by
    simp [rereadEntries, bindEntries, blurEntries, blurReread b o, blurRereadEntries b rest]

end

mutual

theorem bindTwice (b : Binding) : (o : Operand) → (o.bind b).bind b = o.bind b
  | scalar _ _ => rfl
  | ref _ _ => rfl
  | array _ items => by simp [bind, bindItemsTwice b items]
  | dict _ entries => by simp [bind, bindEntriesTwice b entries]

theorem bindItemsTwice (b : Binding) :
    (os : List Operand) → bindItems b (bindItems b os) = bindItems b os
  | [] => rfl
  | o :: rest => by simp [bindItems, bindTwice b o, bindItemsTwice b rest]

theorem bindEntriesTwice (b : Binding) :
    (es : List (String × Operand)) → bindEntries b (bindEntries b es) = bindEntries b es
  | [] => rfl
  | (k, o) :: rest => by simp [bindEntries, bindTwice b o, bindEntriesTwice b rest]

end

mutual

theorem rereadBind (b : Binding) : (o : Operand) → (o.bind b).reread = o.reread
  | scalar _ _ => rfl
  | ref _ _ => rfl
  | array _ items => by simp [bind, reread, rereadBindItems b items]
  | dict _ entries => by simp [bind, reread, rereadBindEntries b entries]

theorem rereadBindItems (b : Binding) :
    (os : List Operand) → rereadItems (bindItems b os) = rereadItems os
  | [] => rfl
  | o :: rest => by simp [bindItems, rereadItems, rereadBind b o, rereadBindItems b rest]

theorem rereadBindEntries (b : Binding) :
    (es : List (String × Operand)) → rereadEntries (bindEntries b es) = rereadEntries es
  | [] => rfl
  | (k, o) :: rest => by
    simp [bindEntries, rereadEntries, rereadBind b o, rereadBindEntries b rest]

end

end Operand

end PageContent
