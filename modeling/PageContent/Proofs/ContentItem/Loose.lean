import PageContent.Proofs.ContentItem.Readable
import PageContent.Proofs.Operand.Unbound

/-! What a reader yields belongs to no document yet: no value of it, nested ones included,
carries a binding. -/
namespace PageContent

namespace Operand

def Loose (o : Operand) : Prop := o.unbound = o

theorem looseItems {os : List Operand} (h : ∀ o ∈ os, o.Loose) : unboundItems os = os := by
  induction os with
  | nil => rfl
  | cons o rest ih =>
    have first : o.unbound = o := h o List.mem_cons_self
    rw [unboundItems, first, ih fun o' later => h o' (List.mem_cons_of_mem _ later)]

theorem looseEntries {es : List (String × Operand)} (h : ∀ k o, (k, o) ∈ es → o.Loose) :
    unboundEntries es = es := by
  induction es with
  | nil => rfl
  | cons entry rest ih =>
    have first : entry.2.unbound = entry.2 := h entry.1 entry.2 List.mem_cons_self
    rw [unboundEntries, first, ih fun k o later => h k o (List.mem_cons_of_mem _ later)]

theorem looseScalar (s : Scalar) : (ofScalar s).Loose := by
  cases s <;> rfl

theorem looseArray {os : List Operand} (h : ∀ o ∈ os, o.Loose) : (array none os).Loose :=
  congrArg (array none) (looseItems h)

theorem looseDict {es : List (String × Operand)} (h : ∀ k o, (k, o) ∈ es → o.Loose) :
    (dict none es).Loose :=
  congrArg (dict none) (looseEntries h)

end Operand

namespace Assembly

def Item.Loose : Item → Prop
  | .operand value => value.Loose
  | .keyword _ => True

def StackLoose (stack : List Frame) : Prop := ∀ frame ∈ stack, ∀ o ∈ frame.items, o.Loose

def Progress.Loose : Progress → Prop
  | .item read => read.Loose
  | .inside stack => StackLoose stack

variable {frame : Frame} {outer stack : List Frame}

theorem stackLooseCons :
    StackLoose (frame :: outer) ↔ (∀ o ∈ frame.items, o.Loose) ∧ StackLoose outer :=
  List.forall_mem_cons

theorem placeLoose {value : Operand} (h : value.Loose) (around : StackLoose stack) :
    (place value stack).Loose := by
  cases stack with
  | nil => exact h
  | cons frame outer =>
    obtain ⟨inner, around⟩ := stackLooseCons.mp around
    exact stackLooseCons.mpr ⟨List.forall_mem_cons.mpr ⟨h, inner⟩, around⟩

theorem referenceLoose {items after : List Operand} (h : reference? items = some after)
    (loose : ∀ o ∈ items, o.Loose) : ∀ o ∈ after, o.Loose := by
  unfold reference? at h
  split at h
  · split at h
    · cases h
      refine List.forall_mem_cons.mpr ⟨rfl, fun o later => loose o ?_⟩
      exact List.mem_cons_of_mem _ (List.mem_cons_of_mem _ later)
    · contradiction
  · contradiction

theorem stepLoose {pos : Nat} {token : Token} {progress : Progress}
    (h : step pos token stack = .ok progress) (around : StackLoose stack) : progress.Loose := by
  have opened (frame : Frame) (hollow : frame.items = []) : StackLoose (frame :: stack) :=
    stackLooseCons.mpr ⟨by simp [hollow], around⟩
  cases token with
  | value s =>
    cases h
    exact placeLoose (Operand.looseScalar s) around
  | arrayOpen | braceOpen | dictOpen =>
    cases h
    exact opened _ rfl
  | arrayClose | braceClose =>
    simp only [step] at h
    split at h
    · cases h
      obtain ⟨inner, around⟩ := stackLooseCons.mp around
      exact placeLoose (Operand.looseArray fun o member => inner o (List.mem_reverse.mp member)) around
    · contradiction
  | dictClose =>
    simp only [step] at h
    split at h
    · obtain ⟨inner, around⟩ := stackLooseCons.mp around
      split at h
      · rename_i d found
        cases h
        have members := (entriesMember found).2
        refine placeLoose (Operand.looseDict fun k o there => inner o ?_) around
        exact List.mem_reverse.mp (members k o there)
      · contradiction
    · contradiction
  | keyword name =>
    simp only [step] at h
    split at h
    · cases h
      trivial
    · obtain ⟨inner, around⟩ := stackLooseCons.mp around
      split at h
      · rename_i items folded
        cases h
        split at folded
        · exact stackLooseCons.mpr ⟨referenceLoose folded inner, around⟩
        · contradiction
      · contradiction

theorem readLoose {fuel : Nat} {l l' : Lexer} {pos : Nat} {item : Item}
    (h : readItem fuel stack l = (some (.ok (pos, item)), l')) (around : StackLoose stack) :
    item.Loose := by
  induction fuel generalizing stack l with
  | zero => simp [readItem] at h
  | succ fuel ih =>
    simp only [readItem] at h
    split at h
    · split at h <;> simp at h
    · simp at h
    · split at h
      · simp at h
      · rename_i read ok
        cases h
        exact stepLoose ok around
      · rename_i inner ok
        exact ih h (stepLoose ok around)

theorem nextLoose {l l' : Lexer} {pos : Nat} {item : Item}
    (h : next l = (some (.ok (pos, item)), l')) : item.Loose :=
  readLoose h (fun _ member => by simp at member)

theorem readEntriesLoose {fuel : Nat} {l l' : Lexer} {values : List Operand}
    (h : readEntries fuel l = (.ok values, l')) : ∀ o ∈ values, o.Loose := by
  induction fuel generalizing l l' values with
  | zero => simp [readEntries] at h
  | succ fuel ih =>
    simp only [readEntries] at h
    split at h
    · simp at h
    · simp at h
    · rename_i value left found
      rcases later : readEntries fuel left with ⟨fault | rest, last⟩
      · simp [later, Except.map] at h
      · simp only [later, Except.map, Prod.mk.injEq, Except.ok.injEq] at h
        obtain ⟨rfl, -⟩ := h
        exact List.forall_mem_cons.mpr ⟨nextLoose found, ih later⟩
    · split at h
      · cases h
        simp
      · simp at h

end Assembly

namespace ContentItem

def Loose (item : ContentItem) : Prop := item.unbound = item

theorem looseImage {l l' : Lexer} {item : ContentItem}
    (h : Assembly.readImage l = (.ok item, l')) : item.Loose := by
  simp only [Assembly.readImage] at h
  split at h
  · simp at h
  · rename_i values left read
    have loose := Assembly.readEntriesLoose read
    split at h
    · simp at h
    · rename_i d found
      have members := (Assembly.entriesMember found).2
      have same : Operand.unboundEntries d = d :=
        Operand.looseEntries fun k o there => loose o (members k o there)
      have image (raw : Bytes) : (ContentItem.image d raw).Loose :=
        congrArg (ContentItem.image · raw) same
      split at h
      · split at h
        · split at h
          · cases h
            exact image _
          · simp at h
        · simp at h
      · cases h
        exact image _

theorem looseNext {r r' : Reader} {pos : Nat} {item : ContentItem}
    (h : r.next = (some (.ok (pos, item)), r')) : item.Loose := by
  simp only [Reader.next] at h
  split at h
  · simp at h
  · split at h
    · simp at h
    · simp at h
    · rename_i found
      cases h
      exact congrArg ContentItem.operand (Assembly.nextLoose found)
    · split at h
      · split at h
        · rename_i image
          cases h
          exact looseImage image
        · simp at h
      · cases h
        rfl

theorem looseRun {fuel : Nat} {r : Reader} {pos : Nat} {item : ContentItem}
    (h : .ok (pos, item) ∈ (Reader.run fuel r).1) : item.Loose := by
  induction fuel generalizing r with
  | zero => simp [Reader.run] at h
  | succ fuel ih =>
    simp only [Reader.run] at h
    split at h
    · simp at h
    · rename_i read r' found
      obtain rfl | later := List.mem_cons.mp h
      · exact looseNext found
      · exact ih later

theorem ofDataLoose {data : Bytes} {pos : Nat} {item : ContentItem}
    (h : .ok (pos, item) ∈ ofData data) : item.Loose :=
  looseRun h

end ContentItem

end PageContent
